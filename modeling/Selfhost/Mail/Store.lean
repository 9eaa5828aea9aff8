import Selfhost.Lib.Lines
import Selfhost.Lib.Slice
import Selfhost.Lib.Utf8

/-!
# Addresses and envelope paths

`services/mail/src/address.rs`. An address carries the checks of `Address::parse`, so a local part or a domain
that is not legal cannot be built. The domain is in lower case.
-/

namespace Selfhost.Mail

open Selfhost.Lib

/-- The longest address, in bytes. -/
def maxAddress : Nat := 254

/-- The longest local part, in bytes. -/
def maxLocal : Nat := 64

/-- The longest domain, in bytes. -/
def maxDomain : Nat := 255

inductive AddressError where
  | missingAt
  | badLocal
  | badDomain
  | tooLong
  deriving DecidableEq, Repr

def AddressError.text : AddressError → Str
  | .missingAt => "address must contain exactly one @".toList
  | .badLocal => "invalid local part".toList
  | .badDomain => "invalid domain".toList
  | .tooLong => "address exceeds 254 characters".toList

def isAsciiAlphanumeric (b : UInt8) : Bool :=
  (0x30 ≤ b && b ≤ 0x39) || (0x41 ≤ b && b ≤ 0x5A) || (0x61 ≤ b && b ≤ 0x7A)

/-- Letters, digits, and the punctuation that RFC 5321 allows in an atom, with the dot. -/
def isLocalByte (b : UInt8) : Bool :=
  isAsciiAlphanumeric b ||
    b ∈ [0x2E, 0x21, 0x23, 0x24, 0x25, 0x26, 0x27, 0x2A, 0x2B, 0x2D, 0x2F, 0x3D, 0x3F, 0x5E, 0x5F, 0x60, 0x7B,
      0x7C, 0x7D, 0x7E]

/-- Whether the dots of a name are neither first nor last nor doubled. -/
def dotsOk (s : Str) : Bool := s.head? != some '.' && s.getLast? != some '.' && !hasInfix ['.', '.'] s

def isValidLocal (localPart : Str) : Bool :=
  !localPart.contains '"' && dotsOk localPart && (utf8 localPart).all isLocalByte

def isLabel (label : Str) : Bool :=
  !label.isEmpty && byteLen label ≤ 63 && label.head? != some '-' && label.getLast? != some '-' &&
    (utf8 label).all fun b => isAsciiAlphanumeric b || b == 0x2D

def isValidDomain (domain : Str) : Bool :=
  dotsOk domain && domain.contains '.' && (domain.splitOn '.').all isLabel

/-- The characters a domain can hold. -/
def isDomainChar (c : Char) : Bool := c.isAlphanum || c == '-' || c == '.'

structure Address where
  localPart : Str
  domain : Str
  local_valid : isValidLocal localPart = true
  domain_chars : domain.all isDomainChar = true
  deriving DecidableEq

/-! ## Domains in lower case -/

theorem lt_of_isAsciiAlphanumeric {b : UInt8} (h : isAsciiAlphanumeric b = true) : b.toNat < 0x80 := by
  simp only [isAsciiAlphanumeric, Bool.or_eq_true, Bool.and_eq_true, decide_eq_true_eq, UInt8.le_iff_toNat_le] at h
  have hz : (0x7A : UInt8).toNat = 122 := rfl
  have hZ : (0x5A : UInt8).toNat = 90 := rfl
  have h9 : (0x39 : UInt8).toNat = 57 := rfl
  omega

/-- The characters of a text whose bytes all pass a test that only ASCII bytes pass. -/
theorem toNat_lt_of_utf8 {s : Str} {p : UInt8 → Bool} (hp : ∀ b, p b = true → b.toNat < 0x80)
    (h : (utf8 s).all p = true) {c : Char} (hc : c ∈ s) : c.toNat < 0x80 ∧ p (UInt8.ofNat c.toNat) = true := by
  rw [List.all_eq_true] at h
  by_cases hlt : c.toNat < 0x80
  · exact ⟨hlt, h _ (mem_utf8_of_mem hc hlt)⟩
  · have hpos : 0 < (String.utf8EncodeChar c).length := by
      rw [String.length_utf8EncodeChar]
      exact c.utf8Size_pos
    obtain ⟨b, hb⟩ := List.exists_mem_of_ne_nil _ (List.ne_nil_of_length_pos hpos)
    have hle := le_of_mem_utf8EncodeChar (Nat.not_lt.mp hlt) hb
    have hsmall := hp b (h b (List.mem_flatMap.mpr ⟨c, hc, hb⟩))
    omega

theorem isDomainChar_of_label {label : Str} (h : isLabel label = true) {c : Char} (hc : c ∈ label) :
    isDomainChar c.toLower = true := by
  simp only [isLabel, Bool.and_eq_true] at h
  have hascii : ∀ b : UInt8, (isAsciiAlphanumeric b || b == 0x2D) = true → b.toNat < 0x80 := by
    intro b hb
    rcases (Bool.or_eq_true _ _).mp hb with hb | hb
    · exact lt_of_isAsciiAlphanumeric hb
    · rw [beq_iff_eq.mp hb]
      decide
  obtain ⟨hlt, hbyte⟩ := toNat_lt_of_utf8 hascii h.2 hc
  have htable : ∀ n < 0x80, (isAsciiAlphanumeric (UInt8.ofNat n) || UInt8.ofNat n == 0x2D) = true →
      isDomainChar (Char.ofNat n).toLower = true := by decide
  have hc := htable c.toNat hlt hbyte
  rwa [Char.ofNat_toNat] at hc

theorem isDomainChar_lower {domain : Str} (h : isValidDomain domain = true) :
    (toAsciiLowercase domain).all isDomainChar = true := by
  simp only [isValidDomain, Bool.and_eq_true, List.all_eq_true] at h
  rw [toAsciiLowercase, List.all_map, List.all_eq_true]
  intro c hc
  rcases mem_splitOn_or_eq '.' hc with rfl | ⟨label, hlabel, hmem⟩
  · rfl
  · exact isDomainChar_of_label (h.2 label hlabel) hmem

/-! ## Parsing -/

namespace Address

def parse (input : Str) : Except AddressError Address :=
  let text := trim input
  if maxAddress < byteLen text then .error .tooLong
  else
    -- The last `@`, since a quoted local part may hold one.
    match rsplitOnce '@' text with
    | none => .error .missingAt
    | some (localPart, domain) =>
        if localPart = [] ∨ maxLocal < byteLen localPart then .error .badLocal
        else if hl : isValidLocal localPart = true then
          if domain = [] ∨ maxDomain < byteLen domain then .error .badDomain
          else if hd : isValidDomain domain = true then
            .ok ⟨localPart, toAsciiLowercase domain, hl, isDomainChar_lower hd⟩
          else .error .badDomain
        else .error .badLocal

/-- `local@domain`. -/
def text (a : Address) : Str := a.localPart ++ '@' :: a.domain

/-- Whether two addresses are of one mailbox, in any case. -/
def isMatch (a b : Address) : Bool := a.domain == b.domain && eqIgnoreAsciiCase a.localPart b.localPart

/-- Whether this address belongs to one of the domains. -/
def isLocalTo (a : Address) (domains : List Str) : Bool := domains.any fun d => eqIgnoreAsciiCase d a.domain

end Address

/-- A path of `MAIL FROM` or `RCPT TO`; the null path `<>` marks a bounce. -/
inductive Path where
  | null
  | mailbox (address : Address)
  deriving DecidableEq

namespace Path

/-- The inside of `<…>`, or the text itself. -/
def inner (text : Str) : Str :=
  match text with
  | '<' :: rest => if rest.getLast? = some '>' then rest.dropLast else text
  | _ => text

def parse (input : Str) : Except AddressError Path :=
  let inner := trim (inner (trim input))
  if inner = [] then .ok .null
  else
    -- A source route `@a,@b:user@c` is dropped; only its mailbox is honoured.
    let withoutRoute :=
      match rsplitOnce ':' inner with
      | some (route, last) => if route.head? = some '@' then last else inner
      | none => inner
    (Address.parse withoutRoute).map Path.mailbox

def address : Path → Option Address
  | .null => none
  | .mailbox a => some a

def text : Path → Str
  | .null => "<>".toList
  | .mailbox a => '<' :: a.text ++ ['>']

end Path

end Selfhost.Mail

/-!
# The Maildir store

`services/mail/src/store.rs`. The mailbox and alias tables, and the tree of directories: a folder of a mailbox
is a directory with the counter of its UIDs and its messages. The store keeps a copy of every counter in memory.
-/

namespace Selfhost.Mail

open Selfhost.Lib

structure Message where
  raw : Bytes
  headerEnd : Nat
  raw_ne : raw ≠ []
  deriving DecidableEq

namespace Message

/-- The offset just past the first blank line. -/
def findBodyStart (raw : Bytes) : Option Nat := (findSub (crlf ++ crlf) raw).map (· + 4)

/-- `none` is the error of an empty input. -/
def parse (raw : Bytes) : Option Message :=
  if h : raw = [] then none else some ⟨raw, (findBodyStart raw).getD raw.length, h⟩

/-- A copy with one field at the top. -/
def withPrependedHeader (m : Message) (name value : Str) : Message :=
  let field := utf8 name ++ utf8 ": ".toList ++ utf8 value ++ crlf
  ⟨field ++ m.raw, m.headerEnd + field.length, List.append_ne_nil_of_right_ne_nil _ m.raw_ne⟩

end Message

end Selfhost.Mail

/-! # The Maildir store -/

namespace Selfhost.Mail

open Selfhost.Lib

inductive Folder where
  | inbox
  | sent
  | drafts
  | trash
  | junk
  deriving DecidableEq, Repr

/-- Whether every alias delivers to one of the mailboxes. -/
def targetsKnown (mailboxes : List Address) (aliases : List (Address × Address)) : Bool :=
  aliases.all fun entry => mailboxes.any fun known => known.isMatch entry.2

/-- The configured mailboxes, and the aliases with the mailboxes they deliver to. -/
structure Tables where
  mailboxes : List Address
  aliases : List (Address × Address)
  targets_known : targetsKnown mailboxes aliases = true

namespace Tables

/-- The mailbox an address delivers to: the mailbox it matches, or the target of an alias it matches. -/
def resolve (t : Tables) (a : Address) : Option Address :=
  (t.mailboxes.find? fun known => known.isMatch a).or
    ((t.aliases.find? fun entry => entry.1.isMatch a).map Prod.snd)

/-- `exists` in the source. -/
def has (t : Tables) (a : Address) : Bool := (t.resolve a).isSome

end Tables

end Selfhost.Mail
