import Selfhost.Identity.Name

/-!
# Capabilities

`foundation/identity/src/capability.rs`: the powers that a caller may hold, their targets and their wire form.
-/

namespace Selfhost.Identity

open Selfhost.Lib Selfhost.Names

/-! ## Targets -/

/-- What a target names. -/
inductive TokenKind where
  | share
  | node
  | location
  | site
  deriving DecidableEq, Repr

/-- The longest token of a kind, in characters. -/
def TokenKind.limit : TokenKind → Nat
  | .share => 32
  | .node => 64
  | .location => 32
  | .site => 32

inductive InvalidToken where
  | empty
  | tooLong (chars limit : Nat)
  | edge
  | forbidden (c : Char)
  | adjacentSeparators
  deriving DecidableEq, Repr

def tokenSeparators : List Char := ['-', '_', '.']

/-- The loop over the characters: whether this is the first one, and whether a separator stands just before it. -/
def checkTokenChars : Bool → Bool → Str → Except InvalidToken Unit
  | _, previous, [] => if previous then .error .edge else .ok ()
  | first, previous, c :: rest =>
      let separator := tokenSeparators.contains c
      if !separator && !(c.isLower || c.isDigit) then .error (.forbidden c)
      else if first && separator then .error .edge
      else if separator && previous then .error .adjacentSeparators
      else checkTokenChars false separator rest

/-- `parse_token`. -/
def checkToken (limit : Nat) (text : Str) : Except InvalidToken Unit :=
  if text = [] then .error .empty
  else if limit < text.length then .error (.tooLong text.length limit)
  else checkTokenChars true false text

/-- A token that its grammar accepts. -/
structure Token (kind : TokenKind) where
  text : Str
  valid : checkToken kind.limit text = .ok ()
  deriving DecidableEq

def Token.parse (kind : TokenKind) (text : Str) : Except InvalidToken (Token kind) :=
  match h : checkToken kind.limit text with
  | .error e => .error e
  | .ok () => .ok ⟨text, h⟩

abbrev ShareId := Token .share

abbrev NodeName := Token .node

abbrev VpnLocationId := Token .location

abbrev SiteName := Token .site

/-! ## Capabilities -/

inductive Capability where
  | consoleRead
  | serviceControl
  | servicesAdmin
  | filesRead (share : ShareId)
  | filesWrite (share : ShareId)
  | filesAdmin
  | desktopView (node : NodeName)
  | desktopControl (node : NodeName)
  | clipboardRead (node : NodeName)
  | nodeAdmin
  | siteAdmin
  | siteAccess (site : SiteName)
  | siteAdminOf (site : SiteName)
  | dnsAdmin
  | mailAdmin
  | vpnAccess (location : VpnLocationId)
  | owner
  deriving DecidableEq

/-- The words of the wire form. -/
inductive Word where
  | consoleRead
  | serviceControl
  | servicesAdmin
  | filesRead
  | filesWrite
  | filesAdmin
  | desktopView
  | desktopControl
  | clipboardRead
  | nodeAdmin
  | siteAdmin
  | siteAccess
  | dnsAdmin
  | mailAdmin
  | vpnAccess
  | owner
  deriving DecidableEq, Repr

namespace Word

def text : Word → Str
  | .consoleRead => "console.read".toList
  | .serviceControl => "service.control".toList
  | .servicesAdmin => "services.admin".toList
  | .filesRead => "files.read".toList
  | .filesWrite => "files.write".toList
  | .filesAdmin => "files.admin".toList
  | .desktopView => "desktop.view".toList
  | .desktopControl => "desktop.control".toList
  | .clipboardRead => "clipboard.read".toList
  | .nodeAdmin => "node.admin".toList
  | .siteAdmin => "site.admin".toList
  | .siteAccess => "site.access".toList
  | .dnsAdmin => "dns.admin".toList
  | .mailAdmin => "mail.admin".toList
  | .vpnAccess => "vpn.access".toList
  | .owner => "owner".toList

def all : List Word :=
  [.consoleRead, .serviceControl, .servicesAdmin, .filesRead, .filesWrite, .filesAdmin, .desktopView, .desktopControl,
    .clipboardRead, .nodeAdmin, .siteAdmin, .siteAccess, .dnsAdmin, .mailAdmin, .vpnAccess, .owner]

def parse (text : Str) : Option Word := all.find? fun w => w.text = text

@[simp] theorem parse_text (w : Word) : parse w.text = some w := by
  cases w <;> decide

theorem colon_not_mem_text (w : Word) : ':' ∉ w.text := by
  cases w <;> dsimp only [text, -String.reduceToList] <;> rewrite [String.toList_ofList] <;> decide

end Word

namespace Capability

/-- The word of a capability, without its target. -/
def name : Capability → Word
  | .consoleRead => .consoleRead
  | .serviceControl => .serviceControl
  | .servicesAdmin => .servicesAdmin
  | .filesRead _ => .filesRead
  | .filesWrite _ => .filesWrite
  | .filesAdmin => .filesAdmin
  | .desktopView _ => .desktopView
  | .desktopControl _ => .desktopControl
  | .clipboardRead _ => .clipboardRead
  | .nodeAdmin => .nodeAdmin
  | .siteAdmin | .siteAdminOf _ => .siteAdmin
  | .siteAccess _ => .siteAccess
  | .dnsAdmin => .dnsAdmin
  | .mailAdmin => .mailAdmin
  | .vpnAccess _ => .vpnAccess
  | .owner => .owner

def target : Capability → Option Str
  | .filesRead share | .filesWrite share => some share.text
  | .desktopView node | .desktopControl node | .clipboardRead node => some node.text
  | .siteAccess site | .siteAdminOf site => some site.text
  | .vpnAccess location => some location.text
  | _ => none

/-- A target of a kind, when there is one and its grammar accepts it. -/
def targetOf (kind : TokenKind) (target : Option Str) : Option (Token kind) :=
  target.bind fun text => (Token.parse kind text).toOption

/-- The wire form: a word, and a target behind a colon where the word takes one. -/
def parse (text : Str) : Option Capability :=
  let (word, target) : Str × Option Str :=
    match splitOnce ':' text with
    | some (word, target) => (word, some target)
    | none => (text, none)
  match Word.parse word, target with
  | some .consoleRead, none => some .consoleRead
  | some .serviceControl, none => some .serviceControl
  | some .servicesAdmin, none => some .servicesAdmin
  | some .filesAdmin, none => some .filesAdmin
  | some .nodeAdmin, none => some .nodeAdmin
  | some .siteAdmin, none => some .siteAdmin
  | some .dnsAdmin, none => some .dnsAdmin
  | some .mailAdmin, none => some .mailAdmin
  | some .filesRead, target => (targetOf .share target).map .filesRead
  | some .filesWrite, target => (targetOf .share target).map .filesWrite
  | some .desktopView, target => (targetOf .node target).map .desktopView
  | some .desktopControl, target => (targetOf .node target).map .desktopControl
  | some .clipboardRead, target => (targetOf .node target).map .clipboardRead
  | some .siteAdmin, target => (targetOf .site target).map .siteAdminOf
  | some .siteAccess, target => (targetOf .site target).map .siteAccess
  | some .vpnAccess, target => (targetOf .location target).map .vpnAccess
  | some .owner, none => some .owner
  | _, _ => none

/-- The wire form of a capability: its `Display`. -/
def text (c : Capability) : Str :=
  match c.target with
  | some target => c.name.text ++ ':' :: target
  | none => c.name.text

/-- Whether a holder moves the pointer of a machine or reads its clipboard. -/
def drivesAMachine : Capability → Bool
  | .desktopControl _ => true
  | .clipboardRead _ => true
  | _ => false

end Capability

/-! ## Reading the wire form back -/

@[simp] theorem Token.parse_text {kind : TokenKind} (token : Token kind) : Token.parse kind token.text = .ok token := by
  unfold Token.parse
  split
  · rename_i e he
    rw [token.valid] at he
    cases he
  · rfl

@[simp] theorem Capability.targetOf_text {kind : TokenKind} (token : Token kind) :
    Capability.targetOf kind (some token.text) = some token := by
  simp [Capability.targetOf, Except.toOption]

/-- Every capability is read back from its wire form. -/
theorem Capability.parse_text (c : Capability) : Capability.parse c.text = some c := by
  have hsplit : ∀ (w : Word) (target : Str), splitOnce ':' (w.text ++ ':' :: target) = some (w.text, target) :=
    fun w target => splitOnce_append w.colon_not_mem_text
  have hnone : ∀ w : Word, splitOnce ':' w.text = none := fun w => splitOnce_none.mpr w.colon_not_mem_text
  cases c <;> simp [Capability.parse, Capability.text, Capability.name, Capability.target, hsplit, hnone]

end Selfhost.Identity
