import Selfhost.Identity.Email
import Selfhost.Identity.Policy
import Selfhost.Json.Parser
import Selfhost.Lib.Cached

/-!
# The people registry

`foundation/identity/src/registry.rs`: who is registered, what each person holds, the changes to it and the file that
it is kept in.
-/

namespace Selfhost.Identity

open Selfhost.Lib Selfhost.Names Selfhost.Json

deriving instance DecidableEq for Name

/-- The most people. -/
def maxPeople : Nat := 32

variable {A : Alphabet} {C : Casing}

structure Person (A : Alphabet) (C : Casing) where
  name : Name A
  grants : Grants
  addedUnix : Nat
  email : Option (PersonEmail C)
  deriving DecidableEq

/-- Why a change is refused. -/
inductive RegistryError (A : Alphabet) (C : Casing) where
  | lastOwnerDemoted (name : Name A)
  | lastOwnerRemoved (name : Name A)
  | tooManyPeople
  | emailTaken (email : PersonEmail C)
  | notRegistered (name : Name A)
  /-- What the directory, the writer or the rename answered. -/
  | notWritten
  deriving DecidableEq

/-! ## Looking people up -/

def find (name : Name A) (entries : List (Person A C)) : Option (Person A C) :=
  entries.find? fun entry => entry.name = name

def Person.isOwner (entry : Person A C) : Bool := entry.grants.holds .owner

def owners (entries : List (Person A C)) : List (Person A C) := entries.filter Person.isOwner

def anyOwner (entries : List (Person A C)) : Bool := !(owners entries).isEmpty

/-! ## Changes -/

/-- Whether a person is the one owner that is left. -/
def onlyOwner (name : Name A) (entries : List (Person A C)) : Bool :=
  (find name entries).any Person.isOwner && (owners entries).length = 1

/-- Changes the first entry of a person. -/
def modify (name : Name A) (f : Person A C → Person A C) : List (Person A C) → List (Person A C)
  | [] => []
  | entry :: rest => if entry.name = name then f entry :: rest else entry :: modify name f rest

def setGrants (name : Name A) (grants : Grants) (now : Nat) (entries : List (Person A C)) :
    Except (RegistryError A C) (List (Person A C)) :=
  if onlyOwner name entries && !grants.holds .owner then .error (.lastOwnerDemoted name)
  else
    match find name entries with
    | some _ => .ok (modify name (fun entry => { entry with grants }) entries)
    | none =>
        if maxPeople ≤ entries.length then .error .tooManyPeople
        else .ok (entries ++ [⟨name, grants, now, none⟩])

def setEmail (name : Name A) (email : Option (PersonEmail C)) (entries : List (Person A C)) :
    Except (RegistryError A C) (List (Person A C)) :=
  let taken := email.bind fun wanted =>
    if entries.any fun entry => entry.name ≠ name ∧ entry.email = some wanted then some wanted else none
  match taken with
  | some wanted => .error (.emailTaken wanted)
  | none =>
      match find name entries with
      | some _ => .ok (modify name (fun entry => { entry with email }) entries)
      | none => .error (.notRegistered name)

/-- The entries without a person, or nothing when there was none to remove. -/
def remove (name : Name A) (entries : List (Person A C)) :
    Except (RegistryError A C) (Option (List (Person A C))) :=
  if onlyOwner name entries then .error (.lastOwnerRemoved name)
  else
    let rest := entries.filter fun entry => entry.name ≠ name
    .ok (if rest.length = entries.length then none else some rest)

/-! ## The file -/

section

variable (D : DoubleOps)

/-- The fields of one person. -/
def personFields (entry : Person A C) : List (Str × Value D.F) :=
  [("name".toList, .string entry.name.text),
    ("grants".toList, .array (entry.grants.list.map fun c => .string c.text)),
    ("addedUnix".toList, .number (D.ofU64 entry.addedUnix))] ++
  (match entry.email with
    | some email => [("email".toList, .string email.text)]
    | none => [])

def peopleToJson (entries : List (Person A C)) : Value D.F :=
  .ofFields [("people".toList, .array (entries.map fun entry => .ofFields (personFields D entry)))]

/-- `PersonName::parse`. -/
def parseName (A : Alphabet) (text : Str) : Option (Name A) :=
  if h : checkName A text = .ok () then some ⟨text, h⟩ else none

/-- The address of an item; the outer option is the refusal. -/
def parseEmail (A : Alphabet) (C : Casing) (item : Value D.F) (entries : List (Person A C)) :
    Option (Option (PersonEmail C)) :=
  match item.get "email".toList with
  | none => some none
  | some .null => some none
  | some value => do
      let email ← (PersonEmail.parse C (← value.asStr)).toOption
      if entries.any fun entry => entry.email = some email then none else some (some email)

/-- One turn of the loop of `parse_people`. -/
def parsePerson (A : Alphabet) (C : Casing) (entries : List (Person A C)) (item : Value D.F) :
    Option (List (Person A C)) := do
  let name ← parseName A (← (← item.get "name".toList).asStr)
  if entries.any fun entry => entry.name = name then none
  else
    let capabilities ← (← (← item.get "grants".toList).asArray).mapM fun grant => grant.asStr.bind Capability.parse
    let grants ← Grants.new capabilities
    let email ← parseEmail D A C item entries
    let addedUnix ← (← item.get "addedUnix".toList).asU64
    some (entries ++ [⟨name, grants, addedUnix, email⟩])

def parsePeople (A : Alphabet) (C : Casing) (text : Str) : Option (List (Person A C)) := do
  let value ← (parse D text).toOption
  let items ← (← value.get "people".toList).asArray
  if maxPeople < items.length then none else items.foldlM (parsePerson D A C) []

/-! ## The handle -/

/-- What is asked of a handle, with the clock where it is read. -/
inductive Request (A : Alphabet) (C : Casing) where
  | list
  | setGrants (name : Name A) (grants : Grants) (now : Nat)
  | setEmail (name : Name A) (email : Option (PersonEmail C))
  | remove (name : Name A)
  deriving DecidableEq

inductive Answer (A : Alphabet) (C : Casing) where
  | people (entries : List (Person A C))
  | done
  | removed (known : Bool)
  | failed (error : RegistryError A C)
  deriving DecidableEq

/-- What a request comes to on fresh entries. -/
def Request.plan (request : Request A C) (entries : List (Person A C)) :
    Cached.Plan (List (Person A C)) (Answer A C) :=
  match request with
  | .list => .answer (.people entries)
  | .setGrants name grants now =>
      match Identity.setGrants name grants now entries with
      | .error e => .answer (.failed e)
      | .ok entries => .write entries .done (.failed .notWritten)
  | .setEmail name email =>
      match Identity.setEmail name email entries with
      | .error e => .answer (.failed e)
      | .ok entries => .write entries .done (.failed .notWritten)
  | .remove name =>
      match Identity.remove name entries with
      | .error e => .answer (.failed e)
      | .ok none => .answer (.removed false)
      | .ok (some entries) => .write entries (.removed true) (.failed .notWritten)

/-- The registry: a file that is absent or malformed holds nobody. -/
def people (A : Alphabet) (C : Casing) : Cached.Store Str (List (Person A C)) (Request A C) (Answer A C) where
  read text := (text.bind (parsePeople D A C)).getD []
  render entries := toText D (peopleToJson D entries)
  plan := Request.plan

end

end Selfhost.Identity
