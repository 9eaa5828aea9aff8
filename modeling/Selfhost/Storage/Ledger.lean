import Selfhost.Storage.Quota

/-!
# The ledger of running uploads

`Ledger`, `Counts` and `Reservation` of `services/storage/src/quota.rs`. One operation of the ledger is what
happens under one acquisition of its lock, so a run of the daemon is a list of operations in some order.
Instants are whole numbers, as on unix, where five minutes can always be subtracted from one.
-/

namespace Selfhost.Storage

open Selfhost.Lib

/-- How long a measured size is trusted, in nanoseconds. -/
def usageTtl : Int := 300 * 1000000000

structure ShareUsage where
  id : Str
  usedBytes : UInt64
  measuredAt : Int
  inFlightBytes : UInt64
  deriving DecidableEq, Repr

/-- What the lock of the ledger guards. -/
structure Counts where
  uploadsRunning : UInt32
  inFlightBytes : UInt64
  shares : List ShareUsage
  deriving DecidableEq, Repr

/-- An empty ledger: nothing running, nothing measured. -/
def Counts.new : Counts := ⟨0, 0, []⟩

namespace Counts

/-- The table entry of a share. -/
def entry (counts : Counts) (share : Str) : Option ShareUsage := counts.shares.find? (·.id = share)

/-- Changes the entry of a share, if it has one. -/
def withEntry (counts : Counts) (share : Str) (f : ShareUsage → ShareUsage) : Counts :=
  { counts with shares := modifyFirst (·.id = share) f counts.shares }

/-- `Ledger::used`: the measured size of a share, if it was measured recently enough. -/
def used (counts : Counts) (now : Int) (share : Str) : Option UInt64 :=
  match counts.entry share with
  | none => none
  | some entry => if now - entry.measuredAt < usageTtl then some entry.usedBytes else none

/-- `Ledger::observe`: records a fresh measurement. -/
def observe (counts : Counts) (now : Int) (share : Str) (usedBytes : UInt64) : Counts :=
  match counts.entry share with
  | some _ => counts.withEntry share fun entry => { entry with usedBytes, measuredAt := now }
  | none => { counts with shares := counts.shares ++ [⟨share, usedBytes, now, 0⟩] }

/-- `Ledger::adjust`: moves a cached size by what this process just did. -/
def adjust (counts : Counts) (share : Str) (added removed : UInt64) : Counts :=
  counts.withEntry share fun entry =>
    { entry with usedBytes := saturatingSub (saturatingAdd entry.usedBytes added) removed }

/-- `Ledger::forget`: the measurement is dropped, a promise that is still running is not. -/
def forget (counts : Counts) (now : Int) (share : Str) : Counts :=
  { counts with shares := counts.shares.filter fun entry => entry.id ≠ share || 0 < entry.inFlightBytes }
    |>.withEntry share fun entry => { entry with usedBytes := 0, measuredAt := now - usageTtl }

/-- Bytes promised by uploads already running into one share. -/
def shareInFlight (counts : Counts) (share : Str) : UInt64 :=
  match counts.entry share with
  | none => 0
  | some entry => entry.inFlightBytes

/-- Records that an upload into one share has been admitted. -/
def reserveForShare (counts : Counts) (now : Int) (share : Str) (wanted : UInt64) : Counts :=
  match counts.entry share with
  | some _ =>
      counts.withEntry share fun entry =>
        { entry with inFlightBytes := saturatingAdd entry.inFlightBytes wanted }
  | none => { counts with shares := counts.shares ++ [⟨share, 0, now - usageTtl, wanted⟩] }

/-- `Ledger::release`: gives back what an upload was holding. -/
def release (counts : Counts) (promised written : UInt64) (share : Str) : Counts :=
  { counts with
    uploadsRunning := saturatingSub32 counts.uploadsRunning 1
    inFlightBytes := saturatingSub counts.inFlightBytes promised }
    |>.withEntry share fun entry =>
      { entry with
        inFlightBytes := saturatingSub entry.inFlightBytes promised
        usedBytes := saturatingAdd entry.usedBytes written }

end Counts

/-! ## Reservations -/

/-- Room held for one running upload. -/
structure Reservation where
  share : Str
  limits : Limits
  usedBefore : UInt64
  promised : UInt64
  written : UInt64
  released : Bool
  deriving DecidableEq, Repr

/-- What a share already owes, on disk and in flight. -/
def Counts.owed (counts : Counts) (share : Str) (usedBytes : UInt64) : UInt64 :=
  saturatingAdd usedBytes (counts.shareInFlight share)

/-- `Ledger::admit`: the decision and the increments, under one lock. -/
def Counts.admitUpload (counts : Counts) (now : Int) (share : Str) (limits : Limits)
    (usedBytes freeBytes wanted : UInt64) : Except Admission (Counts × Reservation) :=
  let owed := counts.owed share usedBytes
  let usage : Usage := ⟨owed, freeBytes, counts.uploadsRunning, counts.inFlightBytes⟩
  match Storage.admitUpload limits usage wanted with
  | .allowed =>
      let counts :=
        { counts with
          uploadsRunning := saturatingAdd32 counts.uploadsRunning 1
          inFlightBytes := saturatingAdd counts.inFlightBytes wanted }
      .ok (counts.reserveForShare now share wanted, ⟨share, limits, owed, wanted, 0, false⟩)
  | refused => .error refused

namespace Reservation

/-- Counts a chunk in if it is still within everything the upload was admitted for. -/
def record (r : Reservation) (bytes : UInt64) : Admission × Reservation :=
  let landed := saturatingAdd r.written bytes
  let admission := stillAdmitted r.limits r.usedBefore r.promised landed
  (admission, if admission = .allowed then { r with written := landed } else r)

/-- Gives the room back, crediting `landed` bytes to the share, exactly once. -/
def release (r : Reservation) (counts : Counts) (landed : UInt64) : Counts × Reservation :=
  if r.released then (counts, r)
  else (counts.release r.promised landed r.share, { r with released := true })

/-- The reservation goes out of scope: nothing is credited. -/
def drop (r : Reservation) (counts : Counts) : Counts := (r.release counts 0).1

/-- What was written is on the disk. The value is consumed, so it is dropped as well. -/
def finish (r : Reservation) (counts : Counts) : Counts :=
  let (counts, r) := r.release counts r.written
  r.drop counts

end Reservation

/-! ## Runs -/

/-- The ledger and the reservations that are alive. -/
structure LedgerState where
  counts : Counts
  live : List Reservation
  deriving DecidableEq, Repr

def LedgerState.new : LedgerState := ⟨Counts.new, []⟩

/-- One operation on the ledger. A reservation is named by its place among the live ones. The two ceilings
over all shares are fixed by the run, the quota and the floor are the share's. -/
inductive LedgerOp where
  | observe (now : Int) (share : Str) (usedBytes : UInt64)
  | adjust (share : Str) (added removed : UInt64)
  | forget (now : Int) (share : Str)
  | admitUpload (now : Int) (share : Str) (quota : Option UInt64) (floor usedBytes freeBytes wanted : UInt64)
  | record (i : Nat) (bytes : UInt64)
  | finish (i : Nat)
  | drop (i : Nat)
  deriving DecidableEq, Repr

namespace LedgerState

/-- One operation. Ending a reservation that is not alive is not an operation the program can make. -/
def step (maxConcurrent : UInt32) (maxInFlight : UInt64) (s : LedgerState) : LedgerOp → LedgerState
  | .observe now share usedBytes => { s with counts := s.counts.observe now share usedBytes }
  | .adjust share added removed => { s with counts := s.counts.adjust share added removed }
  | .forget now share => { s with counts := s.counts.forget now share }
  | .admitUpload now share quota floor usedBytes freeBytes wanted =>
      match s.counts.admitUpload now share ⟨quota, maxConcurrent, maxInFlight, floor⟩ usedBytes freeBytes wanted with
      | .ok (counts, r) => ⟨counts, s.live ++ [r]⟩
      | .error _ => s
  | .record i bytes => { s with live := s.live.modify i fun r => (r.record bytes).2 }
  | .finish i =>
      match s.live[i]? with
      | some r => ⟨r.finish s.counts, s.live.eraseIdx i⟩
      | none => s
  | .drop i =>
      match s.live[i]? with
      | some r => ⟨r.drop s.counts, s.live.eraseIdx i⟩
      | none => s

/-- The ledger of a daemon that has gone through a list of operations. -/
def run (maxConcurrent : UInt32) (maxInFlight : UInt64) (ops : List LedgerOp) : LedgerState :=
  ops.foldl (step maxConcurrent maxInFlight) .new

/-- Bytes promised by the live reservations that satisfy `p`. -/
def promisedBy (s : LedgerState) (p : Reservation → Bool) : Nat :=
  ((s.live.filter p).map fun r => r.promised.toNat).sum

end LedgerState

end Selfhost.Storage
