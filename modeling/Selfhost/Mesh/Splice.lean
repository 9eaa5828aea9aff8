import Selfhost.Mesh.Mux
import Selfhost.Lib.Machine
import Selfhost.Lib.Run

/-!
# Two channels joined

A splice takes the frames of either end, writes them to the other under its channel, and tells both that the
conversation is over. The two directions run independently and share one stop signal.
-/

namespace Selfhost.Mesh

open Selfhost.Lib

/-- The code of a close when the far end went away. -/
def peerGone : UInt16 := 1

/-- The code of a close when something was refused. -/
def refused : UInt16 := 2

def mayCross : Kind → Bool
  | .data | .credit | .close => true
  | _ => false

inductive SpliceError where
  | notForwardable (kind : Kind)
  | controlTarget
  deriving DecidableEq, Repr

/-- A header for the other side. -/
def rewrite (header : Header) (onto : ChannelId) : Except SpliceError Header :=
  if !mayCross header.kind then .error (.notForwardable header.kind)
  else if ChannelId.isControl onto then .error .controlTarget
  else .ok { header with channel := onto }

inductive SpliceEnd where
  | closed (code : UInt16)
  | peerGone
  | linkGone
  | refused (error : SpliceError)
  | companion
  deriving DecidableEq, Repr

def SpliceEnd.deliveredClose : SpliceEnd → Bool
  | .closed _ => true
  | _ => false

def SpliceEnd.isRefused : SpliceEnd → Bool
  | .refused _ => true
  | _ => false

/-- What one direction carried, and how it ended. -/
structure Direction where
  frames : UInt64
  bytes : UInt64
  creditFrames : UInt64
  peakPayload : Nat
  ending : SpliceEnd
  deriving DecidableEq, Repr

def Direction.fresh : Direction := ⟨0, 0, 0, 0, .peerGone⟩

def Direction.carried (direction : Direction) (header : Header) (payload : Bytes) : Direction :=
  { direction with
    frames := saturatingAdd direction.frames 1
    bytes := saturatingAdd direction.bytes (UInt64.ofNat payload.length)
    peakPayload := max direction.peakPayload payload.length
    creditFrames := if header.kind = .credit then saturatingAdd direction.creditFrames 1 else direction.creditFrames }

/-- The code in the payload of a close, or zero. -/
def closeCode (payload : Bytes) : UInt16 :=
  match Close.parse payload with
  | .ok close => close.code
  | .error _ => 0

/-! ## Both ends -/

inductive Side where
  | left
  | right
  deriving DecidableEq, Repr

def Side.other : Side → Side
  | .left => .right
  | .right => .left

/-- One end of a splice: what waits in its inbox and everything that ever came in, whether its link has ended and
whether it still takes frames, and the messages it was sent. An inbox is never that of the control channel. -/
structure End where
  channel : ChannelId
  named : ChannelId.isControl channel = false
  inbox : List Frame
  received : List Frame
  ended : Bool
  gone : Bool
  sent : List Bytes
  deriving DecidableEq, Repr

/-- `LinkHandle.sendFrame`: one frame is one message. -/
def End.sendFrame (e : End) (kind : Kind) (channel : ChannelId) (payload : Bytes) : Option End :=
  match encodeFrame kind channel payload with
  | .error _ => none
  | .ok bytes => if e.gone then none else some { e with sent := e.sent ++ [bytes] }

/-- Where the loop of one direction stands. -/
inductive Pump where
  | receiving (direction : Direction)
  | sending (direction : Direction) (header : Header) (frame : Frame)
  | finished (direction : Direction)
  deriving DecidableEq, Repr

/-- How far the splice is once both directions have ended: nothing told yet, the right end told, both told. -/
inductive Teardown where
  | waiting
  | toldRight
  | toldBoth
  deriving DecidableEq, Repr

/-- The pump of a side takes the frames of that side. -/
structure Splice where
  ends : Side → End
  pumps : Side → Pump
  stop : Bool
  teardown : Teardown

namespace Splice

def start (left right : End) : Splice where
  ends side := match side with | .left => left | .right => right
  pumps _ := .receiving .fresh
  stop := false
  teardown := .waiting

/-- A direction ends, and the other with it. -/
def finish (s : Splice) (side : Side) (direction : Direction) (ending : SpliceEnd) : Splice :=
  { s with
    pumps := Function.update s.pumps side (.finished { direction with ending := ending })
    stop := true }

/-- The code both ends are told. -/
def code (forward reverse : Direction) : UInt16 :=
  if forward.ending.isRefused || reverse.ending.isRefused then refused else peerGone

/-- Tells an end that its conversation is over, as well as that can be done. -/
def announceEnd (s : Splice) (side : Side) (code : UInt16) : Splice :=
  match (s.ends side).sendFrame .close (s.ends side).channel (Close.encode ⟨code⟩) with
  | some e => { s with ends := Function.update s.ends side e }
  | none => s

/-- Announces the end to a side, unless the direction towards it delivered a close. -/
def tell (s : Splice) (side : Side) (towards : Direction) (code : UInt16) : Splice :=
  if towards.ending.deliveredClose then s else s.announceEnd side code

inductive Event where
  -- A frame arrives in the inbox of a side.
  | arrive (side : Side) (frame : Frame)
  -- The link of a side has ended, and nothing more will arrive from it.
  | ended (side : Side)
  -- The link of a side takes no more frames.
  | gone (side : Side)
  -- The loop of a direction takes the next frame, or learns that there is none, or that the other has ended.
  | take (side : Side)
  | drained (side : Side)
  | companion (side : Side)
  -- The write that a direction waits for completes.
  | written (side : Side)
  -- What follows once both directions have ended.
  | announce
  deriving DecidableEq, Repr

/-- A frame that has come over is rewritten, or ends its direction. -/
def taken (s : Splice) (side : Side) (direction : Direction) (frame : Frame) : Splice :=
  match rewrite frame.header (s.ends side.other).channel with
  | .error error => s.finish side direction (.refused error)
  | .ok header => { s with pumps := Function.update s.pumps side (.sending direction header frame) }

/-- The frame is on the other link, or never will be. -/
def written (s : Splice) (side : Side) (direction : Direction) (header : Header) (frame : Frame) : Splice :=
  match (s.ends side.other).sendFrame header.kind header.channel frame.payload with
  | none => s.finish side direction .linkGone
  | some e =>
      let sent := { s with ends := Function.update s.ends side.other e }
      let direction := direction.carried header frame.payload
      if header.kind = .close then sent.finish side direction (.closed (closeCode frame.payload))
      else { sent with pumps := Function.update sent.pumps side (.receiving direction) }

def step (s : Splice) : Event → Option Splice
  | .arrive side frame =>
      let e := s.ends side
      if e.ended then none
      else some { s with
        ends := Function.update s.ends side { e with inbox := e.inbox ++ [frame], received := e.received ++ [frame] } }
  | .ended side => some { s with ends := Function.update s.ends side { s.ends side with ended := true } }
  | .gone side => some { s with ends := Function.update s.ends side { s.ends side with gone := true } }
  | .take side =>
      match s.pumps side, (s.ends side).inbox with
      | .receiving direction, frame :: inbox =>
          some ({ s with ends := Function.update s.ends side { s.ends side with inbox := inbox } }.taken side
            direction frame)
      | _, _ => none
  | .drained side =>
      match s.pumps side, (s.ends side).inbox with
      | .receiving direction, [] => if (s.ends side).ended then some (s.finish side direction .peerGone) else none
      | _, _ => none
  | .companion side =>
      match s.pumps side with
      | .receiving direction => if s.stop then some (s.finish side direction .companion) else none
      | _ => none
  | .written side =>
      match s.pumps side with
      | .sending direction header frame => some (s.written side direction header frame)
      | _ => none
  | .announce =>
      match s.pumps .left, s.pumps .right with
      | .finished forward, .finished reverse =>
          match s.teardown with
          | .waiting => some { s.tell .right forward (code forward reverse) with teardown := .toldRight }
          | .toldRight => some { s.tell .left reverse (code forward reverse) with teardown := .toldBoth }
          | .toldBoth => none
      | _, _ => none

end Splice

end Selfhost.Mesh
