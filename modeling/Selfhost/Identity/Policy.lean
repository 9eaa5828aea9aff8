import Mathlib.Data.List.Nodup
import Selfhost.Identity.Capability

/-!
# The policy

`foundation/identity/src/policy.rs` and the parts of `credential.rs` that it asks: what a set of grants satisfies, and the
one function that decides what a caller may do.
-/

namespace Selfhost.Identity

open Selfhost.Lib Selfhost.Names

variable {A : Alphabet}

/-! ## Credentials -/

/-- How a session was opened. -/
inductive Opening where
  | password
  | passkey
  | personPassword
  deriving DecidableEq, Repr

structure Session where
  openedBy : Opening
  openedAt : Nat
  deriving DecidableEq, Repr

inductive Credential where
  | bearer
  | password
  | devicePassword
  | personPassword
  | passkey
  | session (session : Session)
  | agent
  deriving DecidableEq, Repr

def isOwner : Identity A → Bool
  | .owner => true
  | _ => false

def isMachine : Identity A → Bool
  | .machine => true
  | _ => false

def isPerson : Identity A → Bool
  | .person _ => true
  | _ => false

def isAgent : Identity A → Bool
  | .agent _ => true
  | _ => false

namespace Credential

/-- Whether a credential can stand for an identity. -/
def belongsTo (c : Credential) (identity : Identity A) : Bool :=
  match c with
  | .bearer => isMachine identity
  | .password => isOwner identity
  | .devicePassword => isPerson identity
  | .personPassword => isPerson identity
  | .passkey => !isMachine identity && !isAgent identity
  | .agent => isAgent identity
  | .session s =>
      match s.openedBy with
      | .password => isOwner identity
      | .passkey => !isMachine identity && !isAgent identity
      | .personPassword => isPerson identity

def isAPasswordLogin : Credential → Bool
  | .session s => s.openedBy = .password
  | _ => false

/-- Whether software replays the credential rather than a person presents it. -/
def isUnattended : Credential → Bool
  | .bearer => true
  | .password => true
  | .devicePassword => true
  | .agent => true
  | _ => false

end Credential

/-! ## Grants -/

/-- The most capabilities of one person. -/
def maxGrants : Nat := 64

/-- Whether one held capability satisfies a request for another. -/
def satisfies (held want : Capability) : Bool :=
  if held = want then true
  else
    match held, want with
    | .owner, _ => true
    | .filesAdmin, .filesRead _ => true
    | .filesAdmin, .filesWrite _ => true
    | .filesAdmin, .filesAdmin => true
    | .filesWrite held, .filesRead want => held = want
    | .desktopControl held, .desktopView want => held = want
    | .siteAdminOf held, .siteAccess want => held = want
    | _, _ => false

/-- A set of capabilities, in the order in which they were granted. -/
structure Grants where
  list : List Capability
  nodup : list.Nodup
  few : list.length ≤ maxGrants
  deriving DecidableEq

inductive Granted where
  | added
  | alreadyHeld
  deriving DecidableEq, Repr

namespace Grants

def none : Grants := ⟨[], List.nodup_nil, Nat.zero_le _⟩

/-- Adds one capability; at capacity the error leaves the set as it was. -/
def grant (grants : Grants) (c : Capability) : Option (Grants × Granted) :=
  if hc : c ∈ grants.list then some (grants, .alreadyHeld)
  else if hroom : maxGrants ≤ grants.list.length then Option.none
  else
    some (⟨grants.list ++ [c], List.nodup_append_comm.mpr (List.nodup_cons.mpr ⟨hc, grants.nodup⟩), by
      rw [List.length_append, List.length_singleton]
      omega⟩, .added)

/-- `Grants::new`, or nothing beyond the cap. -/
def new (capabilities : List Capability) : Option Grants :=
  capabilities.foldlM (fun grants c => (grants.grant c).map Prod.fst) none

def holds (grants : Grants) (want : Capability) : Bool := grants.list.any fun held => satisfies held want

/-- The part of a set that the ceiling holds too. -/
def within (grants ceiling : Grants) : Grants :=
  ⟨grants.list.filter fun c => ceiling.holds c, grants.nodup.filter _, (List.length_filter_le _ _).trans grants.few⟩

end Grants

/-! ## Decisions -/

structure Caller (A : Alphabet) where
  identity : Identity A
  credential : Credential
  grants : Grants

namespace Caller

def passkey (identity : Identity A) (grants : Grants) : Caller A := ⟨identity, .passkey, grants⟩

def agent (name : Name A) (grants : Grants) : Caller A := ⟨.agent name, .agent, grants⟩

end Caller

inductive Refusal where
  | notGranted
  | credentialNotArmed
  | credentialIsNotThisIdentitys
  | outsideTheMachinesScope
  | credentialNamesNobody
  deriving DecidableEq, Repr

inductive Decision where
  | allow
  | refuse (reason : Refusal)
  deriving DecidableEq, Repr

structure Policy where
  unattendedMayControl : Bool
  aPasskeyIsEnrolled : Bool
  deriving DecidableEq, Repr

/-- Whether the bearer token holds a capability. -/
def theMachineMay : Capability → Bool
  | .consoleRead | .serviceControl | .servicesAdmin | .filesRead _ | .filesWrite _ | .desktopView _
  | .desktopControl _ | .clipboardRead _ => true
  | .filesAdmin | .nodeAdmin | .siteAdmin | .dnsAdmin | .mailAdmin | .siteAccess _ | .siteAdminOf _ | .vpnAccess _
  | .owner => false

def Policy.decide (p : Policy) (caller : Caller A) (want : Capability) : Decision :=
  if !caller.credential.belongsTo caller.identity then .refuse .credentialIsNotThisIdentitys
  else if caller.credential.isUnattended && want.drivesAMachine && !p.unattendedMayControl then
    .refuse .credentialNotArmed
  else if isMachine caller.identity then
    if theMachineMay want then .allow else .refuse .outsideTheMachinesScope
  else if p.aPasskeyIsEnrolled && caller.credential.isAPasswordLogin then
    if want = .consoleRead then .allow else .refuse .credentialNamesNobody
  else if isOwner caller.identity then .allow
  else if caller.grants.holds want then .allow
  else .refuse .notGranted

end Selfhost.Identity
