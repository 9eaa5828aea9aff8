import Selfhost.Lib.Toml

/-!
# The configuration

`foundation/config/src/lib.rs` and `mail.rs`: the sites and the mailboxes of a document. The other sections are read by
a schema, which sees the document without them.
-/

namespace Selfhost.ConfigFile

open Selfhost.Lib Selfhost.Lib.Toml

structure Instance where
  node : Str
  port : UInt16
  deriving DecidableEq, Repr

structure Health where
  path : Str
  intervalSecs : UInt64
  timeoutSecs : UInt64
  unhealthyAfter : UInt32
  healthyAfter : UInt32
  deriving DecidableEq, Repr

def Health.default : Health := ⟨"/".toList, 10, 3, 2, 2⟩

inductive Exposure where
  | Public
  | People
  | Private
  deriving DecidableEq, Repr

structure Site where
  name : Str
  domains : List Str
  /-- A path is the bytes that the system has for it. -/
  staticRoot : Option Bytes
  spa : Bool
  appPaths : List Str
  instances : List Instance
  health : Health
  canonicalRedirect : Bool
  allowedCidrs : List Str
  console : Bool
  publicApiPaths : List Str
  exposure : Option Exposure
  owner : Option Str
  relay : Option Str
  deriving DecidableEq, Repr

structure Mailbox where
  address : Str
  passwordHash : Str
  aliases : List Str
  deriving DecidableEq, Repr

/-- The part of the mail section that the edits concern. -/
structure Mail where
  hostname : Str
  mailboxes : List Mailbox
  deriving DecidableEq, Repr

/-! ## Reading values -/

def asStr : Value → Option Str
  | .string s => some s
  | _ => none

def asBool : Value → Option Bool
  | .boolean b => some b
  | _ => none

/-- A number of so many bits. -/
def asNat (bits : Nat) : Value → Option Nat
  | .integer n => if 0 ≤ n ∧ n < 2 ^ bits then some n.toNat else none
  | _ => none

def asTable : Value → Option Table
  | .table t => some t
  | _ => none

def asList {α : Type} (item : Value → Option α) : Value → Option (List α)
  | .array items => items.mapM item
  | _ => none

def asExposure (value : Value) : Option Exposure := do
  let word ← asStr value
  if word = "public".toList then some .Public
  else if word = "people".toList then some .People
  else if word = "private".toList then some .Private
  else none

def required {α : Type} (read : Value → Option α) (value : Option Value) : Option α := value.bind read

/-- A key that may be absent. -/
def defaulted {α : Type} (default : α) (read : Value → Option α) : Option Value → Option α
  | none => some default
  | some value => read value

def optional {α : Type} (read : Value → Option α) (value : Option Value) : Option (Option α) :=
  defaulted none (fun value => (read value).map some) value

/-! ## Reading sections -/

def readInstance (value : Value) : Option Instance := do
  let t ← asTable value
  let node ← required asStr (get "node".toList t)
  let port ← required (asNat 16) (get "port".toList t)
  some ⟨node, UInt16.ofNat port⟩

def readHealth (value : Value) : Option Health := do
  let t ← asTable value
  let path ← defaulted Health.default.path asStr (get "path".toList t)
  let interval ← defaulted Health.default.intervalSecs.toNat (asNat 64) (get "interval_secs".toList t)
  let timeout ← defaulted Health.default.timeoutSecs.toNat (asNat 64) (get "timeout_secs".toList t)
  let unhealthy ← defaulted Health.default.unhealthyAfter.toNat (asNat 32) (get "unhealthy_after".toList t)
  let healthy ← defaulted Health.default.healthyAfter.toNat (asNat 32) (get "healthy_after".toList t)
  some ⟨path, UInt64.ofNat interval, UInt64.ofNat timeout, UInt32.ofNat unhealthy, UInt32.ofNat healthy⟩

/-- What a site takes from each of its keys. -/
def siteOf (field : Str → Option Value) : Option Site := do
  let name ← required asStr (field "name".toList)
  let domains ← required (asList asStr) (field "domains".toList)
  let staticRoot ← optional asStr (field "static_root".toList)
  let spa ← defaulted false asBool (field "spa".toList)
  let appPaths ← defaulted [] (asList asStr) (field "app_paths".toList)
  let instances ← defaulted [] (asList readInstance) (field "instances".toList)
  let health ← defaulted Health.default readHealth (field "health".toList)
  let canonicalRedirect ← defaulted true asBool (field "canonical_redirect".toList)
  let allowedCidrs ← defaulted [] (asList asStr) (field "allowed_cidrs".toList)
  let console ← defaulted false asBool (field "console".toList)
  let publicApiPaths ← defaulted [] (asList asStr) (field "public_api_paths".toList)
  let exposure ← optional asExposure (field "exposure".toList)
  let owner ← optional asStr (field "owner".toList)
  let relay ← optional asStr (field "relay".toList)
  some ⟨name, domains, staticRoot.map utf8, spa, appPaths, instances, health, canonicalRedirect, allowedCidrs, console,
    publicApiPaths, exposure, owner, relay⟩

def readSite (value : Value) : Option Site := (asTable value).bind fun t => siteOf fun key => get key t

def readMailbox (value : Value) : Option Mailbox := do
  let t ← asTable value
  let address ← required asStr (get "address".toList t)
  let passwordHash ← required asStr (get "password_hash".toList t)
  let aliases ← defaulted [] (asList asStr) (get "aliases".toList t)
  some ⟨address, passwordHash, aliases⟩

def readMail (value : Value) : Option Mail := do
  let t ← asTable value
  let hostname ← required asStr (get "hostname".toList t)
  let mailboxes ← defaulted [] (asList readMailbox) (get "mailboxes".toList t)
  some ⟨hostname, mailboxes⟩

/-! ## Documents -/

/-- How the other sections and the other keys of the mail section are read, and what `validate` says of the whole. -/
structure Schema where
  Rest : Type
  read : (Str → Option Value) → (Str → Option Value) → Option Rest
  validate : List Site → Option Mail → Rest → Bool

structure Config (S : Schema) where
  sites : List Site
  mail : Option Mail
  rest : S.Rest

def siteKey : Str := "sites".toList

def mailKey : Str := "mail".toList

def mailboxKey : Str := "mailboxes".toList

/-- The document without its sites and its mail. -/
def otherSections (root : Table) (key : Str) : Option Value :=
  if key = siteKey ∨ key = mailKey then none else get key root

/-- The mail section without its mailboxes. -/
def otherMail (root : Table) (key : Str) : Option Value :=
  if key = mailboxKey then none else get key (sub mailKey root)

def ofTable (S : Schema) (root : Table) : Option (Config S) := do
  let sites ← defaulted [] (asList readSite) (get siteKey root)
  let mail ← optional readMail (get mailKey root)
  let rest ← S.read (otherSections root) (otherMail root)
  if S.validate sites mail rest then some ⟨sites, mail, rest⟩ else none

/-- `Config::parse`. -/
def parseConfig (R : Reader) (S : Schema) (text : Str) : Option (Config S) := (R.parse text).bind (ofTable S)

end Selfhost.ConfigFile
