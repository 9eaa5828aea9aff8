import Selfhost.Storage.Fs
import Selfhost.Storage.Ledger
import Selfhost.Storage.Locks

/-!
# Resumable uploads

`Receiver` and `Sessions` of `services/storage/src/api.rs`. A write to the partial file may stop anywhere in a chunk
and fail; no file grows past 64 bits, so a write that would make it longer fails before. The chunks that were
answered with a progress, and the files that were published, are kept beside the program's own state.
-/

namespace Selfhost.Storage

open Selfhost.Lib

/-- How long an idle session is kept, in nanoseconds. -/
def sessionIdle : Int := 900 * nanosPerSecond

/-- The most sessions at once. -/
def maxSessions : Nat := 64

inductive SessionFailure where
  | noSession
  | wrongOffset (expected : UInt64)
  | outOfRoom (admission : Admission)
  | io
  deriving DecidableEq, Repr

structure Progress where
  received : UInt64
  declared : UInt64
  deriving DecidableEq, Repr

/-- How a write of a chunk ends: with all of it in the file, or with an error and a part of it. -/
inductive FileWrite where
  | whole
  | fails (kept : Nat)
  deriving DecidableEq, Repr

def FileWrite.landed (chunk : Bytes) : FileWrite → Bytes
  | .whole => chunk
  | .fails kept => chunk.take kept

def FileWrite.result : FileWrite → Except SessionFailure Unit
  | .whole => .ok ()
  | .fails _ => .error .io

/-- A file with bytes at its end; `none` when it would be too long. -/
def FileData.append (file : FileData) (bytes : Bytes) : Option FileData :=
  if h : (file.bytes ++ bytes).length < 2 ^ 64 then some ⟨file.bytes ++ bytes, h⟩ else none

structure Receiver where
  reservation : Reservation
  declared : UInt64
  /-- What the partial file holds. -/
  file : FileData
  deriving DecidableEq

namespace Receiver

/-- What `Volume::receive` returns: room for what is declared, and an empty file. -/
def new (share : Str) (limits : Limits) (usedBefore declared : UInt64) : Receiver :=
  ⟨⟨share, limits, usedBefore, declared, 0, false⟩, declared, ⟨[], by decide⟩⟩

def received (r : Receiver) : UInt64 := r.reservation.written

def progress (r : Receiver) : Progress := ⟨r.received, r.declared⟩

/-- The chunk is counted first and written after. -/
def write (r : Receiver) (chunk : FileData) (write : FileWrite) : Option (Except SessionFailure Unit × Receiver) :=
  match r.reservation.record chunk.len with
  | (.allowed, reservation) =>
      (r.file.append (write.landed chunk.bytes)).map fun file => (write.result, { r with reservation, file })
  | (refused, _) => some (.error (.outOfRoom refused), r)

end Receiver

structure Session where
  ticket : Str
  receiver : Receiver
  touchedAt : Int
  /-- The chunks that were answered with a progress, in order. -/
  accepted : List Bytes
  deriving DecidableEq

structure Publication where
  contents : Bytes
  accepted : List Bytes
  declared : UInt64
  deriving DecidableEq

structure Sessions where
  now : Int
  entries : List Session
  published : List Publication
  deriving DecidableEq

namespace Sessions

def start (now : Int) : Sessions := ⟨now, [], []⟩

def sweep (s : Sessions) : Sessions :=
  { s with entries := s.entries.filter fun session => s.now - session.touchedAt < sessionIdle }

def holds (ticket : Str) (session : Session) : Bool := sameBytes (utf8 session.ticket) (utf8 ticket)

def find (s : Sessions) (ticket : Str) : Option Session := s.entries.find? (holds ticket)

def begin (s : Sessions) (receiver : Receiver) (random : Option Bytes) : Except SessionFailure Str × Sessions :=
  match random with
  | none => (.error .io, s)
  | some bytes =>
      let s := s.sweep
      if maxSessions ≤ s.entries.length then
        (.error (.outOfRoom (.tooManyUploads (UInt32.ofNat maxSessions))), s)
      else (.ok (hexText bytes), { s with entries := s.entries ++ [⟨hexText bytes, receiver, s.now, []⟩] })

/-- The session after a write, and whether the write was answered with a progress. -/
def Session.after (session : Session) (now : Int) (chunk : FileData) (receiver : Receiver) :
    Except SessionFailure Unit → Session
  | .ok () => { session with receiver, touchedAt := now, accepted := session.accepted ++ [chunk.bytes] }
  | .error _ => { session with receiver }

/-- A session whose write failed stays in the table. -/
def append (s : Sessions) (ticket : Str) (offset : UInt64) (chunk : FileData) (write : FileWrite) :
    Option (Except SessionFailure Progress × Sessions) :=
  let s := s.sweep
  match s.find ticket with
  | none => some (.error .noSession, s)
  | some session =>
      if offset ≠ session.receiver.received then some (.error (.wrongOffset session.receiver.received), s)
      else
        (session.receiver.write chunk write).map fun (result, receiver) =>
          (result.map fun _ => receiver.progress,
            { s with entries := modifyFirst (holds ticket) (Session.after · s.now chunk receiver result) s.entries })

def progress (s : Sessions) (ticket : Str) : Except SessionFailure Progress × Sessions :=
  let s := s.sweep
  match s.find ticket with
  | none => (.error .noSession, s)
  | some session => (.ok session.receiver.progress, s)

/-- Publishes an upload that has received what it declared. The session is gone even when the publication fails. -/
def finish (s : Sessions) (ticket : Str) (commits : Bool) : Except SessionFailure Unit × Sessions :=
  let s := s.sweep
  match s.find ticket with
  | none => (.error .noSession, s)
  | some session =>
      if session.receiver.received ≠ session.receiver.declared then
        (.error (.wrongOffset session.receiver.received), s)
      else
        let s := { s with entries := s.entries.eraseP (holds ticket) }
        if commits then
          let publication : Publication := ⟨session.receiver.file.bytes, session.accepted, session.receiver.declared⟩
          (.ok (), { s with published := s.published ++ [publication] })
        else (.error .io, s)

def abandon (s : Sessions) (ticket : Str) : Except SessionFailure Unit × Sessions :=
  let s := s.sweep
  match s.find ticket with
  | none => (.error .noSession, s)
  | some _ => (.ok (), { s with entries := s.entries.eraseP (holds ticket) })

end Sessions

inductive SessionEvent where
  | tick (elapsed : Nat)
  | begin (share : Str) (limits : Limits) (usedBefore declared : UInt64) (random : Option Bytes)
  | append (ticket : Str) (offset : UInt64) (chunk : FileData) (write : FileWrite)
  | progress (ticket : Str)
  | finish (ticket : Str) (commits : Bool)
  | abandon (ticket : Str)

def Sessions.step (s : Sessions) : SessionEvent → Option Sessions
  | .tick elapsed => some { s with now := s.now + elapsed }
  | .begin share limits usedBefore declared random => some (s.begin (.new share limits usedBefore declared) random).2
  | .append ticket offset chunk write => (s.append ticket offset chunk write).map Prod.snd
  | .progress ticket => some (s.progress ticket).2
  | .finish ticket commits => some (s.finish ticket commits).2
  | .abandon ticket => some (s.abandon ticket).2

end Selfhost.Storage
