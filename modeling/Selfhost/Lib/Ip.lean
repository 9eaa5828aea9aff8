import Selfhost.Lib.Buffer
import Selfhost.Lib.Text

/-!
# IP addresses as text

An address and the text it is displayed as: four decimal octets, or eight hexadecimal segments with the first
longest run of at least two zeros left out.
-/

namespace Selfhost.Lib

inductive IpAddr where
  | v4 (a b c d : UInt8)
  | v6 (segments : Vector UInt16 8)
  deriving DecidableEq

def hexText (n : Nat) : Str := Nat.toDigits 16 n

def displayV4 (a b c d : UInt8) : Str :=
  natText a.toNat ++ '.' :: natText b.toNat ++ '.' :: natText c.toNat ++ '.' :: natText d.toNat

/-- Segments joined by colons. -/
def displaySegments (segments : List UInt16) : Str :=
  [':'].intercalate (segments.map fun s => hexText s.toNat)

/-- The start and length of the first longest run of zeros; `current` is the run that `i` continues. -/
def longestZeros (i : Nat) (current longest : Nat × Nat) : List UInt16 → Nat × Nat
  | [] => longest
  | s :: rest =>
      if s = 0 then
        let current := (if current.2 = 0 then i else current.1, current.2 + 1)
        longestZeros (i + 1) current (if longest.2 < current.2 then current else longest) rest
      else longestZeros (i + 1) (0, 0) longest rest

def displayV6 (segments : List UInt16) : Str :=
  match segments with
  | [0, 0, 0, 0, 0, 0xFFFF, high, low] =>
      -- An IPv4-mapped address.
      "::ffff:".toList ++
        displayV4 (high / 256).toUInt8 (high % 256).toUInt8 (low / 256).toUInt8 (low % 256).toUInt8
  | _ =>
      let zeros := longestZeros 0 (0, 0) (0, 0) segments
      if 1 < zeros.2 then
        displaySegments (segments.take zeros.1) ++ "::".toList ++
          displaySegments (segments.drop (zeros.1 + zeros.2))
      else displaySegments segments

def IpAddr.display : IpAddr → Str
  | .v4 a b c d => displayV4 a b c d
  | .v6 segments => displayV6 segments.toList

/-! ## The characters of a displayed address -/

theorem visible_digitChar : ∀ d < 16, 0x21 ≤ (Nat.digitChar d).toNat := by decide

theorem visible_toDigits {b : Nat} (hb : 1 < b) (hle : b ≤ 16) (n : Nat) : Visible (Nat.toDigits b n) := by
  induction n using Nat.strong_induction_on with
  | _ n ih =>
      rw [Nat.toDigits_eq_if hb]
      split
      · rename_i hn
        intro c hc
        rw [List.mem_singleton.mp hc]
        exact visible_digitChar n (by omega)
      · rename_i hn
        refine (ih (n / b) (Nat.div_lt_self (by omega) hb)).append ?_
        intro c hc
        rw [List.mem_singleton.mp hc]
        exact visible_digitChar _ ((Nat.mod_lt n (by omega)).trans_le hle)

theorem visible_natText (n : Nat) : Visible (natText n) := visible_toDigits (by decide) (by decide) n

theorem visible_displayV4 (a b c d : UInt8) : Visible (displayV4 a b c d) := by
  have hdot : 0x21 ≤ '.'.toNat := by decide
  exact (((visible_natText _).append ((visible_natText _).cons hdot)).append
    ((visible_natText _).cons hdot)).append ((visible_natText _).cons hdot)

theorem visible_displaySegments (segments : List UInt16) : Visible (displaySegments segments) := by
  unfold displaySegments
  induction segments with
  | nil => exact fun c hc => absurd hc List.not_mem_nil
  | cons s rest ih =>
      have hs : Visible (hexText s.toNat) := visible_toDigits (by decide) (by decide) s.toNat
      cases rest with
      | nil => simpa [List.intercalate] using hs
      | cons t rest =>
          rw [List.map_cons, List.map_cons, List.intercalate_cons_cons, List.append_assoc]
          exact hs.append (ih.cons (by decide))

theorem IpAddr.visible_display (ip : IpAddr) : Visible ip.display := by
  cases ip with
  | v4 a b c d => exact visible_displayV4 a b c d
  | v6 segments =>
      show Visible (displayV6 segments.toList)
      unfold displayV6
      split
      · refine Visible.append ?_ (visible_displayV4 _ _ _ _)
        unfold Visible
        decide
      · dsimp only
        split
        · refine ((visible_displaySegments _).append ?_).append (visible_displaySegments _)
          unfold Visible
          decide
        · exact visible_displaySegments _

end Selfhost.Lib

/-! # Numbers and addresses in text -/

namespace Selfhost.Lib

structure Ipv4Addr where
  a : UInt8
  b : UInt8
  c : UInt8
  d : UInt8
  deriving DecidableEq, Repr

def Ipv4Addr.octets (ip : Ipv4Addr) : Bytes := [ip.a, ip.b, ip.c, ip.d]

structure Ipv6Addr where
  octets : Bytes
  size : octets.length = 16
  deriving DecidableEq, Repr

/-- `parse` of an unsigned number below `bound`; a plus sign is allowed. -/
def parseBelow (bound : Nat) (text : Str) : Option Nat :=
  let digits := if text.head? = some '+' then text.tail else text
  if digits = [] ∨ !digits.all Char.isDigit then none
  else if bound ≤ decimalValue digits then none
  else some (decimalValue digits)

/-- The value of a digit in a radix. -/
def digitOf (radix : Nat) (c : Char) : Option Nat :=
  let value :=
    if c.isDigit then c.toNat - '0'.toNat
    else if c.isLower then c.toNat - 'a'.toNat + 10
    else if c.isUpper then c.toNat - 'A'.toNat + 10
    else radix
  if value < radix then some value else none

/-- `read_number`. -/
def readNumber (radix : Nat) (maxDigits : Option Nat) (allowZero : Bool) (bound : Nat) (s : Str) : Option (Nat × Str) :=
  let digits := s.takeWhile fun c => (digitOf radix c).isSome
  let value := digits.foldl (fun n c => n * radix + (digitOf radix c).getD 0) 0
  if digits = [] ∨ maxDigits.any (· < digits.length) then none
  else if allowZero = false ∧ digits.head? = some '0' ∧ 1 < digits.length then none
  else if bound ≤ value then none
  else some (value, s.drop digits.length)

/-- `read_separator`: a separator stands before every item but the first. -/
def readSeparator {α : Type} (sep : Char) (index : Nat) (inner : Str → Option (α × Str)) (s : Str) : Option (α × Str) :=
  if index = 0 then inner s
  else if s.head? = some sep then inner s.tail
  else none

def readOctet (s : Str) : Option (UInt8 × Str) :=
  (readNumber 10 (some 3) false 256 s).map fun (n, rest) => (UInt8.ofNat n, rest)

def readIpv4 (s : Str) : Option (Ipv4Addr × Str) := do
  let (a, s) ← readSeparator '.' 0 readOctet s
  let (b, s) ← readSeparator '.' 1 readOctet s
  let (c, s) ← readSeparator '.' 2 readOctet s
  let (d, s) ← readSeparator '.' 3 readOctet s
  return (⟨a, b, c, d⟩, s)

/-- `read_groups`: at most `left` more groups, the last two as an IPv4 address perhaps; whether they were. -/
def readGroups : Nat → Nat → Str → List UInt16 × Bool × Str
  | 0, _, s => ([], false, s)
  | left + 1, i, s =>
      match if 0 < left then readSeparator ':' i readIpv4 s else none with
      | some (ip, s) => ([ofBe16 ip.a ip.b, ofBe16 ip.c ip.d], true, s)
      | none =>
          match readSeparator ':' i (readNumber 16 (some 4) true 0x10000) s with
          | some (group, s) =>
              let (groups, mixed, s) := readGroups left (i + 1) s
              (UInt16.ofNat group :: groups, mixed, s)
          | none => ([], false, s)

def Ipv6Addr.ofGroups (groups : List UInt16) : Option Ipv6Addr :=
  let octets := groups.flatMap be16
  if h : octets.length = 16 then some ⟨octets, h⟩ else none

def readIpv6 (s : Str) : Option (Ipv6Addr × Str) :=
  match readGroups 8 0 s with
  | (head, mixed, s) =>
      if head.length = 8 then (Ipv6Addr.ofGroups head).map fun ip => (ip, s)
      else if mixed then none
      else
        match s with
        | ':' :: ':' :: s =>
            match readGroups (8 - (head.length + 1)) 0 s with
            | (tail, _, s) =>
                (Ipv6Addr.ofGroups (head ++ List.replicate (8 - head.length - tail.length) 0 ++ tail)).map fun ip => (ip, s)
        | _ => none

/-- What a reader makes of a whole text. -/
def parseWith {α : Type} (read : Str → Option (α × Str)) (s : Str) : Option α :=
  match read s with
  | some (a, []) => some a
  | _ => none

def parseIpv4 (s : Str) : Option Ipv4Addr := parseWith readIpv4 s

def parseIpv6 (s : Str) : Option Ipv6Addr := parseWith readIpv6 s

/-- The given character. -/
def readGiven (c : Char) (s : Str) : Option Str := if s.head? = some c then some s.tail else none

def readPort (s : Str) : Option (Nat × Str) := do
  let s ← readGiven ':' s
  readNumber 10 none true 0x10000 s

def readSocketV4 (s : Str) : Option (Unit × Str) := do
  let (_, s) ← readIpv4 s
  let (_, s) ← readPort s
  return ((), s)

/-- The scope of an IPv6 address, when there is one. -/
def readScope (s : Str) : Str :=
  match (readGiven '%' s).bind (readNumber 10 none true (2 ^ 32)) with
  | some (_, s) => s
  | none => s

def readSocketV6 (s : Str) : Option (Unit × Str) := do
  let s ← readGiven '[' s
  let (_, s) ← readIpv6 s
  let s ← readGiven ']' (readScope s)
  let (_, s) ← readPort s
  return ((), s)

/-- Whether a text parses as a socket address. -/
def isSocketAddr (s : Str) : Bool := (parseWith (fun s => (readSocketV4 s).or (readSocketV6 s)) s).isSome

example : parseIpv6 "2001:db8::1:192.0.2.33".toList =
    Ipv6Addr.ofGroups [0x2001, 0xdb8, 0, 0, 0, 1, 0xC000, 0x0221] := by decide +kernel

end Selfhost.Lib
