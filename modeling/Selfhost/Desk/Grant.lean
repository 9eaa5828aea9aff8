import Selfhost.Lib.Machine
import Selfhost.Lib.Slice
import Selfhost.Lib.Run

/-!
# Desktop tickets

What a session may do with a desktop, who is handed a keyboard, and the store of tickets that are redeemed once.
-/

namespace Selfhost.Desk

open Selfhost.Lib

/-! ## Capabilities -/

structure Capabilities where
  bits : UInt8
  deriving DecidableEq, Repr

namespace Capabilities

def view : Capabilities := ⟨0x01⟩

def control : Capabilities := ⟨0x02⟩

def clipboard : Capabilities := ⟨0x04⟩

def known : UInt8 := 0x07

def none : Capabilities := ⟨0⟩

/-- Whether every capability of the other set is in this one. -/
def contains (set other : Capabilities) : Bool := set.bits &&& other.bits == other.bits

def with_ (set other : Capabilities) : Capabilities := ⟨set.bits ||| other.bits⟩

def isEmpty (set : Capabilities) : Bool := set.bits == 0

/-- Reads the wire byte: no unknown bit, and nothing without the view. -/
def fromBits (bits : UInt8) : Option Capabilities :=
  if bits &&& ~~~known ≠ 0 then Option.none
  else if bits ≠ 0 ∧ ¬ contains ⟨bits⟩ view then Option.none
  else some ⟨bits⟩

end Capabilities

/-! ## Freshness -/

inductive Method where
  | password
  | passkey
  | bearer
  | cookie
  deriving DecidableEq, Repr

structure Authentication where
  method : Method
  moment : Instant
  deriving DecidableEq, Repr

inductive Freshness where
  | fresh
  | stale (age : Duration)
  | noRecentCredential
  | bearerNotArmed
  deriving DecidableEq, Repr

def Freshness.permitsControl : Freshness → Bool
  | .fresh => true
  | _ => false

/-- Whether somebody proved recently enough who he is to be handed a keyboard. -/
def controlFreshness (auth : Authentication) (now : Instant) (reauthWindow : Duration) (bearerMayControl : Bool) :
    Freshness :=
  match auth.method with
  | .bearer => if bearerMayControl then .fresh else .bearerNotArmed
  | .cookie => .noRecentCredential
  | .password | .passkey =>
      let age := Duration.between auth.moment now
      if age ≤ reauthWindow then .fresh else .stale age

structure Policy where
  allowInput : Bool
  allowClipboard : Bool
  bearerMayControl : Bool
  reauthWindow : Duration
  deriving DecidableEq, Repr

/-! ## Tickets -/

def ticketBytes : Nat := 32

/-- Thirty seconds. -/
def ticketTtl : Nat := 30 * nanosPerSec

def maxOutstanding : Nat := 32

abbrev SessionId := Str

structure TicketRequest where
  session : SessionId
  peer : Str
  wanted : Capabilities
  auth : Authentication
  deriving DecidableEq, Repr

inductive GrantError where
  | nothingRequested
  | inputDisabled
  | clipboardDisabled
  | notFresh (freshness : Freshness)
  | tooManyOutstanding
  | malformed
  | noSuchTicket
  | wrongSession
  deriving DecidableEq, Repr

/-- Two hexadecimal digits of either case for each byte. -/
def hexPairs : Bytes → Option Bytes
  | [] => some []
  | [_] => none
  | a :: b :: rest => do
      let high ← hexValue a
      let low ← hexValue b
      let out ← hexPairs rest
      return UInt8.ofNat (high * 16 + low) :: out

theorem length_hexPairs {text out : Bytes} (h : hexPairs text = some out) : 2 * out.length = text.length := by
  induction text using hexPairs.induct generalizing out with
  | case1 =>
      cases h
      rfl
  | case2 => cases h
  | case3 a b rest ih =>
      simp only [hexPairs, bind, pure, Option.bind_eq_some_iff] at h
      obtain ⟨high, -, low, -, tail, htail, h⟩ := h
      cases h
      have := ih htail
      simp only [List.length_cons]
      omega

structure Ticket where
  bytes : Bytes
  sized : bytes.length = ticketBytes
  deriving DecidableEq, Repr

def Ticket.parseHex (text : Str) : Except GrantError Ticket :=
  let bytes := utf8 text
  if hlen : bytes.length = ticketBytes * 2 then
    match h : hexPairs bytes with
    | some out => .ok ⟨out, by have := length_hexPairs h; omega⟩
    | none => .error .malformed
  else .error .malformed

structure Grant where
  ticket : Ticket
  session : SessionId
  peer : Str
  capabilities : Capabilities
  expires : Instant
  deriving DecidableEq, Repr

structure Redemption where
  session : SessionId
  peer : Str
  capabilities : Capabilities
  deriving DecidableEq, Repr

/-- Whether two byte strings are equal, without stopping at the first difference. -/
def constantTimeEq (expected actual : Bytes) : Bool :=
  if expected.length ≠ actual.length then false
  else (expected.zip actual).foldl (fun difference pair => difference ||| (pair.1 ^^^ pair.2)) 0 == 0

/-! ## The store -/

structure Grants where
  outstanding : List Grant
  deriving DecidableEq, Repr

namespace Grants

def purgeExpired (grants : Grants) (now : Instant) : Grants :=
  ⟨grants.outstanding.filter fun grant => grant.expires > now⟩

/-- The checks on control and on the clipboard, which follow each other. -/
def allow (asked enabled : Bool) (refusal : GrantError) (freshness : Freshness) (granted extra : Capabilities) :
    Except GrantError Capabilities :=
  if asked then
    if !enabled then .error refusal
    else if !freshness.permitsControl then .error (.notFresh freshness)
    else .ok (granted.with_ extra)
  else .ok granted

/-- What a request may be granted. -/
def decide (request : TicketRequest) (policy : Policy) (now : Instant) : Except GrantError Capabilities :=
  if request.wanted.isEmpty then .error .nothingRequested
  else
    let freshness := controlFreshness request.auth now policy.reauthWindow policy.bearerMayControl
    (allow (request.wanted.contains .control) policy.allowInput .inputDisabled freshness .view .control).bind
      fun granted =>
        allow (request.wanted.contains .clipboard) policy.allowClipboard .clipboardDisabled freshness granted .clipboard

/-- `last` is the last moment the clock can show. -/
def mint (last : Instant) (grants : Grants) (request : TicketRequest) (policy : Policy) (entropy : Ticket)
    (now : Instant) : Except GrantError Grant × Grants :=
  let grants := grants.purgeExpired now
  if grants.outstanding.length ≥ maxOutstanding then (.error .tooManyOutstanding, grants)
  else
    match decide request policy now with
    | .error error => (.error error, grants)
    | .ok capabilities =>
        if now + ticketTtl ≤ last then
          let grant : Grant := ⟨entropy, request.session, request.peer, capabilities, now + ticketTtl⟩
          (.ok grant, ⟨grants.outstanding ++ [grant]⟩)
        else (.error .tooManyOutstanding, grants)

/-- The loop over all tickets, which keeps the last place where the ticket stands. -/
def found (grants : Grants) (ticket : Ticket) : Option (Grant × Nat) :=
  grants.outstanding.zipIdx.foldl
    (fun found entry => if constantTimeEq entry.1.ticket.bytes ticket.bytes then some entry else found) none

/-- The ticket is removed before the session is compared. -/
def redeem (grants : Grants) (presented : Str) (session : SessionId) (now : Instant) :
    Except GrantError Redemption × Grants :=
  let grants := grants.purgeExpired now
  match Ticket.parseHex presented with
  | .error error => (.error error, grants)
  | .ok ticket =>
      match grants.found ticket with
      | none => (.error .noSuchTicket, grants)
      | some (grant, index) =>
          let left : Grants := ⟨grants.outstanding.eraseIdx index⟩
          if !constantTimeEq (utf8 grant.session) (utf8 session) then (.error .wrongSession, left)
          else (.ok ⟨grant.session, grant.peer, grant.capabilities⟩, left)

end Grants

/-! ## Whole runs of the store -/

inductive GrantEvent where
  | mint (request : TicketRequest) (policy : Policy) (entropy : Ticket) (now : Instant)
  | redeem (presented : Str) (session : SessionId) (now : Instant)
  | purge (now : Instant)
  deriving DecidableEq, Repr

def GrantEvent.now : GrantEvent → Instant
  | .mint _ _ _ now | .redeem _ _ now | .purge now => now

/-- A ticket that was minted, and for what. -/
structure Minted where
  request : TicketRequest
  policy : Policy
  now : Instant
  grant : Grant
  deriving DecidableEq, Repr

/-- A redemption that found its ticket. -/
structure Spent where
  grant : Grant
  session : SessionId
  now : Instant
  result : Except GrantError Redemption
  deriving DecidableEq

/-- The store beside the clock, the entropy drawn so far, and the records of what was minted and spent. -/
structure GrantBook where
  grants : Grants
  clock : Instant
  drawn : List Ticket
  minted : List Minted
  spent : List Spent
  deriving DecidableEq

namespace GrantBook

def opened : GrantBook := ⟨⟨[]⟩, 0, [], [], []⟩

/-- The ticket a presentation finds. -/
def hit (book : GrantBook) (presented : Str) (now : Instant) : Option Grant :=
  match Ticket.parseHex presented with
  | .error _ => none
  | .ok ticket => ((book.grants.purgeExpired now).found ticket).map Prod.fst

def step (last : Instant) (book : GrantBook) : GrantEvent → Option GrantBook
  | .mint request policy entropy now =>
      let (result, grants) := book.grants.mint last request policy entropy now
      some { book with
        grants := grants
        clock := now
        drawn := book.drawn ++ [entropy]
        minted := book.minted ++ result.toOption.toList.map fun grant => ⟨request, policy, now, grant⟩ }
  | .redeem presented session now =>
      let (result, grants) := book.grants.redeem presented session now
      some { book with
        grants := grants
        clock := now
        spent := book.spent ++ (book.hit presented now).toList.map fun grant => ⟨grant, session, now, result⟩ }
  | .purge now => some { book with grants := book.grants.purgeExpired now, clock := now }

/-- The clock does not run backwards, and no entropy is drawn twice. -/
def Regular (book : GrantBook) (event : GrantEvent) : Prop :=
  book.clock ≤ event.now ∧
    match event with
    | .mint _ _ entropy _ => entropy ∉ book.drawn
    | _ => True

end GrantBook

end Selfhost.Desk
