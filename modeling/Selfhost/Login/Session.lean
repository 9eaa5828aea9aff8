import Selfhost.Json.Lemmas.RoundTrip
import Selfhost.Lib.Fallible
import Selfhost.Lib.Run

/-!
# Login sessions

`foundation/login/src/session.rs`: the cookies that a door has minted, their two lifetimes, and the file they are kept
in.
-/

namespace Selfhost.Login

open Selfhost.Lib Selfhost.Json

/-- What a door says about its sessions. -/
structure SessionConfig where
  lifetimeSecs : Nat
  idleSecs : Nat
  maxSessions : Nat
  deriving DecidableEq, Repr

structure Session where
  id : Str
  accountId : Str
  createdUnix : Nat
  lastSeenUnix : Nat
  deriving DecidableEq, Repr

/-- Whether neither lifetime has run out. -/
def Session.live (config : SessionConfig) (now : Nat) (session : Session) : Bool :=
  decide (now - session.createdUnix < config.lifetimeSecs) && decide (now - session.lastSeenUnix < config.idleSecs)

def sweep (config : SessionConfig) (now : Nat) (entries : List Session) : List Session :=
  entries.filter (Session.live config now)

/-- Without the first of the sessions that have gone longest unused. -/
def removeOldest (entries : List Session) : List Session :=
  entries.eraseIdx (entries.findIdx fun session => entries.all fun other => session.lastSeenUnix ≤ other.lastSeenUnix)

/-- The loop that makes room for one more; as many turns as there are sessions are enough. -/
def makeRoom (max : Nat) : Nat → List Session → List Session
  | 0, entries => entries
  | turns + 1, entries => if max ≤ entries.length then makeRoom max turns (removeOldest entries) else entries

def create (config : SessionConfig) (accountId id : Str) (now : Nat) (entries : List Session) : List Session :=
  let swept := sweep config now entries
  makeRoom config.maxSessions swept.length swept ++ [⟨id, accountId, now, now⟩]

/-- The account that a cookie names: the loop keeps the last match. -/
def found (presented : Str) (entries : List Session) : Option Str :=
  (entries.filter fun session => session.id = presented).getLast?.map Session.accountId

def touch (presented : Str) (now : Nat) (entries : List Session) : List Session :=
  entries.map fun session => if session.id = presented then { session with lastSeenUnix := now } else session

/-- The answer to a cookie, and the sessions that are left. -/
def accountOf (config : SessionConfig) (presented : Str) (now : Nat) (entries : List Session) :
    Option Str × List Session :=
  let swept := sweep config now entries
  match found presented swept with
  | some accountId => (some accountId, touch presented now swept)
  | none => (none, swept)

def endSession (presented : Str) (entries : List Session) : List Session :=
  entries.filter fun session => session.id ≠ presented

def endAllFor (accountId : Str) (entries : List Session) : List Session :=
  entries.filter fun session => session.accountId ≠ accountId

/-! ## The file -/

section

variable (D : DoubleOps)

def sessionJson (session : Session) : Value D.F :=
  .ofFields [("id".toList, .string session.id), ("accountId".toList, .string session.accountId),
    ("createdUnix".toList, .number (D.ofU64 session.createdUnix)),
    ("lastSeenUnix".toList, .number (D.ofU64 session.lastSeenUnix))]

def sessionsToJson (entries : List Session) : Value D.F :=
  .ofFields [("sessions".toList, .array (entries.map (sessionJson D)))]

def parseSession (item : Value D.F) : Option Session := do
  let id ← (← item.get "id".toList).asStr
  let accountId ← (← item.get "accountId".toList).asStr
  let createdUnix ← (← item.get "createdUnix".toList).asU64
  let lastSeenUnix ← (← item.get "lastSeenUnix".toList).asU64
  some ⟨id, accountId, createdUnix, lastSeenUnix⟩

def parseSessions (text : Str) : Option (List Session) := do
  let value ← (parse D text).toOption
  (← (← value.get "sessions".toList).asArray).mapM (parseSession D)

/-- `Sessions::load`: a file that is absent or malformed holds no session. -/
def load (file : Option Str) : List Session := (file.bind (parseSessions D)).getD []

/-- The file after a write that took place or failed. -/
def persist (ok : Bool) (entries : List Session) (file : Option Str) : Option Str :=
  if ok then some (toText D (sessionsToJson D entries)) else file

end

/-! ## Reading the file back -/

/-- The times are doubles. -/
def Session.Storable (D : DoubleOps) (session : Session) : Prop :=
  D.asU64 (D.ofU64 session.createdUnix) = some session.createdUnix ∧
    D.asU64 (D.ofU64 session.lastSeenUnix) = some session.lastSeenUnix

variable {D : Doubles}

theorem sessionJson_eq (session : Session) : sessionJson D.toDoubleOps session =
    .object [("accountId".toList, .string session.accountId),
      ("createdUnix".toList, .number (D.ofU64 session.createdUnix)), ("id".toList, .string session.id),
      ("lastSeenUnix".toList, .number (D.ofU64 session.lastSeenUnix))] := rfl

theorem fits_session (session : Session) (n : Nat) : Fits D.toDoubleOps (n + 2) (sessionJson D.toDoubleOps session) := by
  rw [sessionJson_eq]
  refine .object (by simp [List.pairwise_cons]; decide) ?_
  intro field hfield
  simp only [List.mem_cons, List.not_mem_nil, or_false] at hfield
  rcases hfield with rfl | rfl | rfl | rfl
  · exact .string _
  · exact .number _
  · exact .string _
  · exact .number _

theorem fits_sessions (entries : List Session) :
    Fits D.toDoubleOps (maxDepth + 1) (sessionsToJson D.toDoubleOps entries) := by
  refine .object (by simp [Value.insert]) ?_
  intro field hfield
  rw [List.mem_singleton.mp hfield]
  refine .array fun item hitem => ?_
  obtain ⟨session, -, rfl⟩ := List.mem_map.mp hitem
  exact fits_session session _

theorem parseSession_written {session : Session} (h : session.Storable D.toDoubleOps) :
    parseSession D.toDoubleOps (sessionJson D.toDoubleOps session) = some session := by
  rw [sessionJson_eq]
  have hget : parseSession D.toDoubleOps (.object [("accountId".toList, .string session.accountId),
      ("createdUnix".toList, .number (D.ofU64 session.createdUnix)), ("id".toList, .string session.id),
      ("lastSeenUnix".toList, .number (D.ofU64 session.lastSeenUnix))]) = (do
        let createdUnix ← D.asU64 (D.ofU64 session.createdUnix)
        let lastSeenUnix ← D.asU64 (D.ofU64 session.lastSeenUnix)
        some ⟨session.id, session.accountId, createdUnix, lastSeenUnix⟩) := rfl
  rw [hget, h.1, h.2]
  rfl

/-- Sessions are read back from the file they were written to. -/
theorem load_persist {entries : List Session} (h : ∀ session ∈ entries, session.Storable D.toDoubleOps)
    (file : Option Str) : load D.toDoubleOps (persist D.toDoubleOps true entries file) = entries := by
  have hget : (sessionsToJson D.toDoubleOps entries).get "sessions".toList
      = some (.array (entries.map (sessionJson D.toDoubleOps))) := rfl
  have hitems : (entries.map (sessionJson D.toDoubleOps)).mapM (parseSession D.toDoubleOps) = some entries :=
    mapM_map fun session hsession => parseSession_written (h session hsession)
  simp only [load, persist, ↓reduceIte, Option.bind_some, parseSessions, parse_toText (fits_sessions entries),
    Except.toOption, hget, Value.asArray_array, hitems, Option.bind_eq_bind, Option.getD_some]

end Selfhost.Login
