import Selfhost.Lib.Run
import Selfhost.Lib.Utf8

/-!
# The output of a service

`foundation/supervisor/src/logs.rs`, and the calls of `Supervisor` that reach the ring of one service name: `install`
gives the name a ring of its own, and the task that is replaced writes on to the old one until it ends. Beside the rings
stand, as a record, every line that was pushed and what one reader of the name was given.
-/

namespace Selfhost.Supervisor

open Selfhost.Lib

inductive Stream where
  | stdout
  | stderr
  deriving DecidableEq, Repr

structure LogLine where
  seq : Nat
  stream : Stream
  text : Str
  deriving DecidableEq, Repr

/-- The answer to "everything from a number on". -/
structure LogSlice where
  lines : List LogLine
  nextSeq : Nat
  missed : Nat
  deriving DecidableEq, Repr

structure LogRing where
  lines : List LogLine
  capacity : Nat
  nextSeq : Nat
  deriving DecidableEq, Repr

namespace LogRing

/-- A capacity of zero is raised to one. -/
def new (capacity : Nat) : LogRing := ⟨[], max capacity 1, 0⟩

/-- The line that is pushed next. -/
def line (ring : LogRing) (stream : Stream) (text : Str) : LogLine := ⟨ring.nextSeq, stream, text⟩

def push (ring : LogRing) (stream : Stream) (text : Str) : LogRing :=
  { ring with
    lines := (if ring.lines.length = ring.capacity then ring.lines.drop 1 else ring.lines) ++ [ring.line stream text]
    nextSeq := (ring.nextSeq + 1) % 2 ^ 64 }

def oldestSeq (ring : LogRing) : Nat := (ring.lines.head?.map LogLine.seq).getD ring.nextSeq

/-- Every line from a number on, at most `limit` of them. -/
def since (ring : LogRing) (start limit : Nat) : LogSlice :=
  let lines := (ring.lines.filter fun line => start ≤ line.seq).take limit
  ⟨lines, (lines.getLast?.map fun line => (line.seq + 1) % 2 ^ 64).getD ring.nextSeq, ring.oldestSeq - start⟩

def clear (ring : LogRing) : LogRing := { ring with lines := [] }

end LogRing

def logCapacity : Nat := 5000

/-- One service name: the ring of the service that is installed, those of the services before it, every line that was
pushed, and a reader: the number it asks from next, the lines it was given and the lines it was told it had missed. -/
structure Output where
  ring : Option LogRing
  past : List LogRing
  pushed : List LogLine
  position : Nat
  delivered : List LogLine
  missed : Nat
  deriving DecidableEq, Repr

namespace Output

def new : Output := ⟨some (.new logCapacity), [], [], 0, [], 0⟩

inductive Event where
  /-- A line of the service, or a note. -/
  | push (stream : Stream) (text : Str)
  /-- A line of a task that was replaced and has not ended. -/
  | pushPast (index : Nat) (stream : Stream) (text : Str)
  | clear
  | remove
  /-- The part of `install` behind `remove`. -/
  | insert
  | read (limit : Nat)
  deriving DecidableEq, Repr

/-- `logs`, and what the reader makes of the answer. -/
def read (o : Output) (limit : Nat) : Output :=
  match o.ring with
  | none => o
  | some ring =>
      let slice := ring.since o.position limit
      { o with
        position := slice.nextSeq
        delivered := o.delivered ++ slice.lines
        missed := o.missed + slice.missed }

def step (o : Output) : Event → Option Output
  | .push stream text =>
      o.ring.map fun ring =>
        { o with ring := some (ring.push stream text), pushed := o.pushed ++ [ring.line stream text] }
  | .pushPast index stream text =>
      o.past[index]?.map fun ring =>
        { o with past := o.past.set index (ring.push stream text), pushed := o.pushed ++ [ring.line stream text] }
  | .clear => o.ring.map fun ring => { o with ring := some ring.clear }
  | .remove => some { o with ring := none, past := o.past ++ o.ring.toList }
  | .insert => some { o with ring := some (.new logCapacity), past := o.past ++ o.ring.toList }
  | .read limit => some (o.read limit)

/-- The lines that the next reads can give. -/
def waiting (o : Output) : List LogLine :=
  match o.ring with
  | none => []
  | some ring => ring.lines.filter fun line => o.position ≤ line.seq

/-- The lines that the next read counts as missed. -/
def uncounted (o : Output) : Nat :=
  match o.ring with
  | none => 0
  | some ring => ring.oldestSeq - o.position

end Output

end Selfhost.Supervisor
