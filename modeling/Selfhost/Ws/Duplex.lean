import Selfhost.Lib.Run
import Selfhost.Ws.Frame

/-!
# A WebSocket stream

The owner of a stream reads it, answers control frames, drains the queue of what others want sent, and closes. A step is
one pass through a loop of the source: one frame of the buffer, or one wakeup when the buffer holds no whole frame.
-/

namespace Selfhost.Ws

open Selfhost.Lib

/-- A payload in memory. A vector holds less than `2 ^ 63` bytes. -/
structure Payload where
  bytes : Bytes
  bounded : bytes.length < 2 ^ 63
  deriving DecidableEq

/-- What a `Sender` has put into the queue. -/
inductive Outgoing where
  | binary (payload : Payload)
  | close (code : CloseCode) (reason : Str)
  deriving DecidableEq

inductive Closed where
  | peer (frame : CloseFrame)
  | pongTimeout
  | lifetimeReached
  | abrupt
  deriving DecidableEq

inductive StreamError where
  | protocol (error : ProtocolError)
  | io
  deriving DecidableEq

/-- What a call gives back. -/
inductive Report where
  | message (payload : Bytes)
  | closed (closed : Closed)
  | error (error : StreamError)
  deriving DecidableEq

inductive Wakeup where
  | read (bytes : Bytes)
  | eof
  | ping
  | silent
  | expired
  | outgoing (item : Outgoing)
  deriving DecidableEq

/-- What is not the stream's: which writes fail, and the masking key of each. -/
structure World where
  fails : Nat → Bool
  keys : Nat → MaskKey

/-- A frame that was written. -/
structure Written where
  opcode : Opcode
  payload : Bytes
  mask : Option MaskKey
  deriving DecidableEq

def Written.bytes (written : Written) : Bytes := encode true written.opcode written.payload written.mask

/-- The stream beside the frames it has written and heard and what its calls gave back. -/
structure Duplex where
  role : Role
  limits : Limits
  buffered : Bytes
  assembler : Assembler
  pingsSent : UInt64
  closeSent : Bool
  finished : Bool
  attempts : Nat
  written : List Written
  heard : List Frame
  reports : List Report
  deriving DecidableEq

namespace Duplex

def new (role : Role) (limits : Limits) : Duplex where
  role := role
  limits := limits
  buffered := []
  assembler := .new limits
  pingsSent := 0
  closeSent := false
  finished := false
  attempts := 0
  written := []
  heard := []
  reports := []

def report (duplex : Duplex) (report : Report) : Duplex := { duplex with reports := duplex.reports ++ [report] }

/-! ## Writing -/

/-- The client masks what it sends, and the server does not. -/
def mask (world : World) (duplex : Duplex) : Option MaskKey :=
  match duplex.role with
  | .server => none
  | .client => some (world.keys duplex.attempts)

/-- Writes one frame and says whether the transport took it. -/
def writeFrame (world : World) (opcode : Opcode) (payload : Bytes) (duplex : Duplex) : Bool × Duplex :=
  let attempted := { duplex with attempts := duplex.attempts + 1 }
  if world.fails duplex.attempts then (false, attempted)
  else (true, { attempted with written := duplex.written ++ [⟨opcode, payload, duplex.mask world⟩] })

/-- `?` on a write that failed. -/
def orFail (outcome : Bool × Duplex) (next : Duplex → Duplex) : Duplex :=
  if outcome.1 then next outcome.2 else outcome.2.report (.error .io)

/-- Writes a close frame unless one has already gone out. -/
def sendClose (world : World) (code : CloseCode) (reason : Str) (duplex : Duplex) : Bool × Duplex :=
  if duplex.closeSent then (true, duplex)
  else { duplex with closeSent := true }.writeFrame world .close (encodeBody code reason)

def finish (closed : Closed) (duplex : Duplex) : Duplex := { duplex with finished := true }.report (.closed closed)

/-- The peer is told why; whether that could be written does not matter any more. -/
def fail (world : World) (error : ProtocolError) (duplex : Duplex) : Duplex :=
  { (duplex.sendClose world (codeFor error) error.text).2 with finished := true }.report (.error (.protocol error))

def send (world : World) (payload : Payload) (duplex : Duplex) : Duplex :=
  if payload.bytes.length > duplex.limits.maxFrame then
    duplex.report (.error (.protocol (.frameTooLarge payload.bytes.length)))
  else orFail (duplex.writeFrame world .binary payload.bytes) id

def close (world : World) (code : CloseCode) (reason : Str) (duplex : Duplex) : Duplex :=
  orFail (duplex.sendClose world code reason) id

/-! ## Reading -/

/-- Feeds a data frame to the assembler. -/
def acceptData (world : World) (frame : Frame) (duplex : Duplex) : Duplex :=
  match duplex.assembler.accept frame with
  | (.error error, assembler) => { duplex with assembler := assembler }.fail world error
  | (.ok none, assembler) => { duplex with assembler := assembler }
  | (.ok (some message), assembler) => { duplex with assembler := assembler }.report (.message message)

def handleFrame (world : World) (frame : Frame) (duplex : Duplex) : Duplex :=
  match frame.opcode with
  | .ping => orFail (duplex.writeFrame world .pong frame.payload) id
  | .pong => duplex
  | .close =>
      match parseBody frame.payload with
      | .error error => duplex.fail world error
      | .ok closing => orFail (duplex.sendClose world .normal []) (finish (.peer closing))
  | .binary | .continuation => duplex.acceptData world frame

/-- One pass of `drain_buffer`; `none` when the buffer holds no whole frame. -/
def drainFrame (world : World) (duplex : Duplex) : Option Duplex :=
  match parse duplex.buffered duplex.role duplex.limits with
  | .error .incomplete => none
  | .error error => some (duplex.fail world error)
  | .ok parsed =>
      some ({ duplex with
        buffered := duplex.buffered.drop parsed.consumed
        heard := duplex.heard ++ [parsed.frame] }.handleFrame world parsed.frame)

def handleWakeup (world : World) (wakeup : Wakeup) (duplex : Duplex) : Duplex :=
  match wakeup with
  | .read bytes => { duplex with buffered := duplex.buffered ++ bytes }
  | .eof => duplex.finish .abrupt
  | .ping =>
      if duplex.closeSent then duplex
      else
        let duplex := { duplex with pingsSent := duplex.pingsSent + 1 }
        orFail (duplex.writeFrame world .ping (be64 duplex.pingsSent)) id
  | .silent => orFail (duplex.sendClose world .goingAway "no pong".toList) (finish .pongTimeout)
  | .expired =>
      orFail (duplex.sendClose world .goingAway "stream lifetime reached".toList) (finish .lifetimeReached)
  | .outgoing (.binary payload) => orFail (duplex.writeFrame world .binary payload.bytes) id
  | .outgoing (.close code reason) => orFail (duplex.sendClose world code reason) id

/-! ## Runs -/

inductive Event where
  -- Inside `recv`: the next frame of the buffer. A stream that has finished only says so.
  | frame
  -- Inside `recv`: the buffer is drained, and something happens.
  | wake (wakeup : Wakeup)
  | send (payload : Payload)
  | close (code : CloseCode) (reason : Str)
  deriving DecidableEq

def step (world : World) (duplex : Duplex) : Event → Option Duplex
  | .frame => if duplex.finished then some (duplex.report (.closed .abrupt)) else duplex.drainFrame world
  | .wake wakeup =>
      if duplex.finished then none
      else
        match verdict duplex.role duplex.limits duplex.buffered with
        | .incomplete => some (duplex.handleWakeup world wakeup)
        | _ => none
  | .send payload => some (duplex.send world payload)
  | .close code reason => some (duplex.close world code reason)

end Duplex

end Selfhost.Ws
