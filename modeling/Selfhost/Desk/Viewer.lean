import Selfhost.Desk.Grant
import Selfhost.Desk.Wire

/-!
# The viewer of a desktop

The driver of one stream: it captures and sends what changed, owes the tiles the window did not take, and hands the
client's input to the machine.
-/

namespace Selfhost.Desk

open Selfhost.Lib

/-! ## What a viewer deals with -/

inductive Condition where
  | retry
  | reinitialise
  | secureDesktop
  | sessionDisconnected
  | noSession
  | permissionDenied
  | agentExited
  | stopped
  | fatal
  deriving DecidableEq, Repr

def Condition.observation : Condition → Observation
  | .retry => .retry
  | .reinitialise => .reinitialise
  | .secureDesktop => .secureDesktop
  | .sessionDisconnected => .sessionDisconnected
  | .noSession => .noSession
  | .permissionDenied => .permissionDenied
  | .agentExited => .agentExited
  | .stopped => .killSwitch
  | .fatal => .fatal

structure CapturedFrame where
  monitor : UInt8
  surface : Surface
  deriving DecidableEq

inductive Restore where
  | capture
  | agent
  deriving DecidableEq, Repr

structure Standing where
  expires : Instant
  capabilities : Capabilities
  deriving DecidableEq, Repr

inductive Ending where
  | deadline
  | sessionExpired
  | sessionGone
  | viewRevoked
  | stopped
  | gaveUp (surrender : Surrender)
  | peerClosed
  | peerMisbehaved
  | wrongDirection
  | transport
  deriving DecidableEq, Repr

def Ending.peerIsListening : Ending → Bool
  | .peerClosed | .transport => false
  | _ => true

/-- How the input sink answers. -/
inductive Delivery where
  | accepted
  | refused (reason : Refusal)
  | elapsed
  deriving DecidableEq, Repr

/-- A call under a time limit. -/
inductive Answer (α : Type) where
  | elapsed
  | given (value : α)
  deriving DecidableEq, Repr

/-- What a stream is held to. -/
structure Ceilings where
  granted : Capabilities
  allowInput : Bool
  tile : TileSize
  limits : Limits
  cursorCache : Nat
  deriving DecidableEq

/-- What is not the viewer's: the link's headroom at each reading, how each write ends, and the answer of the input
sink to each event it is handed. -/
structure World where
  credit : Nat → UInt32
  writes : Nat → Option Ending
  sink : Nat → Delivery

/-- What held when an input event of the client was handed over. -/
structure Gate where
  standing : Standing
  now : Instant
  phase : Phase
  deriving DecidableEq

/-- An event that was handed to the sink; a release has no gate. -/
structure Handed where
  message : Message
  gate : Option Gate
  answer : Delivery
  deriving DecidableEq

def effective (granted standing : Capabilities) : Capabilities :=
  (Capabilities.fromBits (granted.bits &&& standing.bits)).getD .none

def inputRefusal (live : Capabilities) (allowInput : Bool) (phase : Phase) : Option Refusal :=
  if !allowInput then some .inputDisabled
  else if !live.contains .control then some .notPermitted
  else
    match phase with
    | .live => none
    | .suspended .secureDesktop => some .secureDesktop
    | _ => some .notLive

/-- Re-reads what the session may still do. -/
def standingNow (granted : Capabilities) (standing : Option Standing) (now : Instant) : Except Ending Capabilities :=
  match standing with
  | none => .error .sessionGone
  | some standing =>
      if standing.expires ≤ now then .error .sessionExpired
      else
        let live := effective granted standing.capabilities
        if !live.contains .view then .error .viewRevoked else .ok live

/-! ## The state -/

/-- The viewer beside what it has written and handed over. -/
structure Viewer where
  machine : Session
  cursor : CursorPolicy
  held : HeldKeys
  buttons : HeldButtons
  previous : Option Surface
  previousMonitor : Option UInt8
  owed : List TileCoord
  peerWindow : Option UInt32
  sequence : UInt64
  pendingRestore : Option Restore
  live : Capabilities
  ending : Option Ending
  sent : List Message
  reads : Nat
  handed : List Handed
  deriving DecidableEq

namespace Viewer

def new (ceilings : Ceilings) (live : Capabilities) : Viewer where
  machine := .new ceilings.limits
  cursor := .new ceilings.cursorCache
  held := .new
  buttons := .none
  previous := none
  previousMonitor := none
  owed := []
  peerWindow := none
  sequence := 0
  pendingRestore := none
  live := live
  ending := none
  sent := []
  reads := 0
  handed := []

def stop (ending : Ending) (viewer : Viewer) : Viewer := { viewer with ending := some ending }

/-- `?`: what follows is done where nothing has ended the stream. -/
def andThen (viewer : Viewer) (next : Viewer → Viewer) : Viewer := if viewer.ending.isSome then viewer else next viewer

def write (world : World) (message : Message) (viewer : Viewer) : Viewer :=
  match world.writes viewer.sent.length with
  | none => { viewer with sent := viewer.sent ++ [message] }
  | some ending => viewer.stop ending

/-! ## Credit -/

/-- How many bytes may go out now. -/
def affordable (world : World) (viewer : Viewer) : UInt32 :=
  match viewer.peerWindow with
  | some granted => min (world.credit viewer.reads) granted
  | none => world.credit viewer.reads

/-- The headroom was read once. -/
def read (viewer : Viewer) : Viewer := { viewer with reads := viewer.reads + 1 }

def spend (spent : Nat) (viewer : Viewer) : Viewer :=
  match viewer.peerWindow with
  | none => viewer
  | some window =>
      { viewer with peerWindow := some (saturatingSub32 window (UInt32.ofNat (min spent (2 ^ 32 - 1)))) }

/-! ## Frames -/

/-- The order of the set of tiles that are owed. -/
def coordLe (a b : TileCoord) : Prop := a.col < b.col ∨ (a.col = b.col ∧ a.row ≤ b.row)

instance : DecidableRel coordLe := fun _ _ => inferInstanceAs (Decidable (_ ∨ _))

def insertCoord (coord : TileCoord) (set : List TileCoord) : List TileCoord :=
  if coord ∈ set then set else set.orderedInsert coordLe coord

/-- The order of the grid. -/
def updateLe (a b : TileUpdate) : Prop :=
  a.coord.row < b.coord.row ∨ (a.coord.row = b.coord.row ∧ a.coord.col ≤ b.coord.col)

instance : DecidableRel updateLe := fun _ _ => inferInstanceAs (Decidable (_ ∨ _))

def forgetClientState (viewer : Viewer) : Viewer :=
  { viewer with previous := none, previousMonitor := none, owed := [] }

/-- The tiles a frame must carry: what changed, and what is still owed. -/
def frameUpdates (tile : TileSize) (owed : List TileCoord) (previous : Option Surface) (current : Surface)
    (keyframe : Bool) : Except TileError (List TileUpdate) :=
  match diff previous current tile with
  | .error error => .error error
  | .ok updates =>
      if keyframe || owed.isEmpty then .ok updates
      else
        match encodeTiles current tile (owed.filter fun coord => coord ∉ updates.map TileUpdate.coord) with
        | .error error => .error error
        | .ok carried => .ok ((updates ++ carried).insertionSort updateLe)

/-- The loop over the tiles of a frame: the window is read for each, and what it does not take is deferred. -/
def deliverTiles (world : World) (monitor : UInt8) :
    List TileUpdate → List TileCoord → Viewer → Viewer × List TileCoord
  | [], deferred, viewer => (viewer, deferred)
  | update :: rest, deferred, viewer =>
      if viewer.affordable world = 0 then
        deliverTiles world monitor rest (insertCoord update.coord deferred) viewer.read
      else
        let message := Message.tile monitor update
        let viewer := viewer.read.write world message
        if viewer.ending.isSome then (viewer, deferred)
        else deliverTiles world monitor rest deferred (viewer.spend message.encodedLen)

def deliverFrame (world : World) (monitor : UInt8) (width height : Nat) (updates : List TileUpdate) (keyframe : Bool)
    (viewer : Viewer) : Viewer :=
  let sequence := viewer.sequence + 1
  (viewer.write world (.frameBegin ⟨monitor, sequence, width, height, keyframe⟩)).andThen fun viewer =>
    let delivered := deliverTiles world monitor updates [] viewer
    delivered.1.andThen fun viewer =>
      (viewer.write world (.frameEnd sequence)).andThen fun viewer =>
        { viewer with sequence := sequence, owed := delivered.2 }

/-- The client holds nothing of the shape of this frame. -/
def isNewShape (viewer : Viewer) (frame : CapturedFrame) : Bool :=
  match viewer.previous with
  | some held =>
      held.width ≠ frame.surface.width ∨ held.height ≠ frame.surface.height ∨
        viewer.previousMonitor ≠ some frame.monitor
  | none => true

/-- A keyframe starts anew. -/
def reshape (frame : CapturedFrame) (viewer : Viewer) : Viewer :=
  if viewer.isNewShape frame then { viewer with previous := none, owed := [] } else viewer

def sendFrame (ceilings : Ceilings) (world : World) (frame : CapturedFrame) (viewer : Viewer) : Viewer :=
  let viewer := viewer.reshape frame
  let keyframe := viewer.previous.isNone
  match frameUpdates ceilings.tile viewer.owed viewer.previous frame.surface keyframe with
  | .error _ => viewer.forgetClientState
  | .ok updates =>
      if updates.isEmpty && !keyframe then viewer
      else if viewer.affordable world = 0 then viewer.read
      else
        { viewer.read with previous := some frame.surface, previousMonitor := some frame.monitor }.deliverFrame world
          frame.monitor frame.surface.width frame.surface.height updates keyframe

/-- Sends owed tiles when no new pixels arrived. -/
def flushOwed (ceilings : Ceilings) (world : World) (viewer : Viewer) : Viewer :=
  if viewer.owed.isEmpty then viewer
  else if viewer.affordable world = 0 then viewer.read
  else
    let viewer := viewer.read
    match viewer.previous, viewer.previousMonitor with
    | some surface, some monitor =>
        match encodeTiles surface ceilings.tile viewer.owed with
        | .error _ => viewer.forgetClientState
        | .ok updates => viewer.deliverFrame world monitor surface.width surface.height updates false
    | _, _ => { viewer with owed := [] }

/-! ## The pointer -/

structure PointerReading where
  pointer : Answer (Option Pointer)
  shape : Answer (Option PointerShape)
  deriving DecidableEq

def writeAll (world : World) (messages : List Message) (viewer : Viewer) : Viewer :=
  messages.foldl (fun viewer message =>
    viewer.andThen fun viewer => (viewer.write world message).andThen (spend message.encodedLen)) viewer

/-- The bitmap that goes out before the position; `none` when the deadline passed. -/
def shapeMessages (reading : PointerReading) : Option ShapeId → Option (List Message)
  | none => some []
  | some id =>
      match reading.shape with
      | .elapsed => none
      | .given shape => some ((shape.bind (cursorMessage id)).toList)

def sendPointer (world : World) (reading : PointerReading) (viewer : Viewer) : Viewer :=
  match reading.pointer with
  | .elapsed => viewer.stop .deadline
  | .given none => viewer
  | .given (some pointer) =>
      let (emission, cursor) := viewer.cursor.observe pointer
      let viewer := { viewer with cursor := cursor }
      if emission.position.isNone && emission.shape.isNone then viewer
      else
        match shapeMessages reading emission.shape with
        | none => viewer.stop .deadline
        | some shapes =>
            let messages := shapes ++ emission.position.toList.map fun p => Message.cursorPos p.x p.y p.visible
            if viewer.affordable world = 0 then { viewer.read with cursor := viewer.cursor.forget }
            else viewer.read.writeAll world messages

/-! ## One turn of the capture loop -/

/-- What the screen source answers: to a restore that is pending, else to the request for a frame. -/
structure Source where
  restore : Answer (Except Condition Unit)
  next : Answer (Except Condition CapturedFrame)
  pointer : PointerReading

def announce (world : World) (notice : Option Notice) (viewer : Viewer) : Viewer :=
  match notice with
  | some notice => viewer.write world (.status notice)
  | none => viewer

/-- Pixels go out while the session is live: those of a new frame, or those that are still owed. -/
def present (ceilings : Ceilings) (world : World) (reading : PointerReading) (captured : Option CapturedFrame)
    (viewer : Viewer) : Viewer :=
  if viewer.machine.phase = .live ∧ viewer.live.contains .view = true then
    match captured with
    | some frame => (viewer.sendFrame ceilings world frame).andThen (sendPointer world reading)
    | none => viewer.flushOwed ceilings world
  else viewer

def act (action : Action) (viewer : Viewer) : Viewer :=
  match action with
  | .capture | .waitThen _ | .suspend _ => viewer
  | .reinitialise _ => { viewer with pendingRestore := some .capture }
  | .respawnAgent _ => { viewer with pendingRestore := some .agent }
  | .closeStreams =>
      match viewer.machine.phase with
      | .gaveUp surrender => viewer.stop (.gaveUp surrender)
      | _ => viewer.stop .stopped

/-- The state machine is told, and what it says is done. -/
def turn (ceilings : Ceilings) (world : World) (source : Source) (now : Instant) (observation : Observation)
    (captured : Option CapturedFrame) (viewer : Viewer) : Viewer :=
  let (machine, step) := viewer.machine.observe observation now
  (({ viewer with machine := machine }.announce world step.notice).andThen
    (present ceilings world source.pointer captured)).andThen (act step.action)

def pump (ceilings : Ceilings) (world : World) (source : Source) (now : Instant) (viewer : Viewer) : Viewer :=
  match viewer.pendingRestore with
  | some _ =>
      let viewer := { viewer with pendingRestore := none }
      match source.restore with
      | .elapsed => viewer.stop .deadline
      | .given (.error condition) => viewer.turn ceilings world source now condition.observation none
      | .given (.ok ()) =>
          { viewer.forgetClientState with cursor := viewer.cursor.forget }.turn ceilings world source now .retry none
  | none =>
      match source.next with
      | .elapsed => viewer.turn ceilings world source now .retry none
      | .given (.ok frame) => viewer.turn ceilings world source now .frame (some frame)
      | .given (.error condition) => viewer.turn ceilings world source now condition.observation none

/-! ## Input -/

/-- Records what an input does to the held state, and says whether it is worth forwarding. -/
def track (viewer : Viewer) : Message → Bool × Viewer
  | .key usage true => (true, { viewer with held := viewer.held.press usage })
  | .key usage false =>
      let (was, held) := viewer.held.release usage
      (was, { viewer with held := held })
  | .button button true => (true, { viewer with buttons := viewer.buttons.press button })
  | .button button false =>
      let (was, buttons) := viewer.buttons.release button
      (was, { viewer with buttons := buttons })
  | _ => (true, viewer)

/-- The answer of the sink to one event. -/
def answer (world : World) (viewer : Viewer) : Delivery := world.sink viewer.handed.length

def hand (world : World) (message : Message) (gate : Option Gate) (viewer : Viewer) : Viewer :=
  { viewer with handed := viewer.handed ++ [⟨message, gate, viewer.answer world⟩] }

def drive (ceilings : Ceilings) (world : World) (message : Message) (standing : Option Standing) (now : Instant)
    (viewer : Viewer) : Viewer :=
  match standingNow ceilings.granted standing now with
  | .error ending => viewer.stop ending
  | .ok live =>
      match inputRefusal live ceilings.allowInput viewer.machine.phase with
      | some reason => viewer.write world (.inputRefused reason)
      | none =>
          let (forward, viewer) := viewer.track message
          if !forward then viewer
          else
            let after := viewer.hand world message (standing.map fun standing => ⟨standing, now, viewer.machine.phase⟩)
            match viewer.answer world with
            | .elapsed => after.stop .deadline
            | .accepted => after
            | .refused reason => after.write world (.inputRefused reason)

/-- Hands over a release, whatever the answer. -/
def lift (world : World) (viewer : Viewer) (message : Message) : Viewer := viewer.hand world message none

/-- The keys first, and then the buttons. -/
def releaseEverything (world : World) (viewer : Viewer) : Viewer :=
  let (keys, held) := viewer.held.drain
  let (buttons, released) := viewer.buttons.drain
  ((keys.map fun usage => Message.key usage false) ++ buttons.map fun button => Message.button button false).foldl
    (lift world) { viewer with held := held, buttons := released }

/-- One message of the client; `none` could not be decoded. -/
def receive (ceilings : Ceilings) (world : World) (message : Option Message) (standing : Option Standing)
    (now : Instant) (viewer : Viewer) : Viewer :=
  match message with
  | none => viewer.stop .peerMisbehaved
  | some message =>
      if !message.isToAgent then viewer.stop .wrongDirection
      else
        match message with
        | .releaseAll => viewer.releaseEverything world
        | .requestFullFrame _ => { viewer.forgetClientState with cursor := viewer.cursor.forget }
        | .credit bytes => { viewer with peerWindow := some (saturatingAdd32 (viewer.peerWindow.getD 0) bytes) }
        | message => viewer.drive ceilings world message standing now

def revalidate (ceilings : Ceilings) (standing : Option Standing) (now : Instant) (viewer : Viewer) : Viewer :=
  match standingNow ceilings.granted standing now with
  | .error ending => viewer.stop ending
  | .ok live => { viewer with live := live }

/-! ## Whole streams -/

/-- The close: what is held is released first, and the peer is told when it listens. -/
def finish (world : World) (ending : Ending) (viewer : Viewer) : Viewer :=
  let viewer := viewer.releaseEverything world
  if ending.peerIsListening then
    match world.writes viewer.sent.length with
    | none => { viewer with sent := viewer.sent ++ [.status viewer.machine.phase.notice] }
    | some _ => viewer
  else viewer

def closing (world : World) (viewer : Viewer) : Viewer :=
  match viewer.ending with
  | some ending => viewer.finish world ending
  | none => viewer

/-- The handshake: the session is read once, and the client is greeted. -/
def start (ceilings : Ceilings) (world : World) (standing : Option Standing) : Viewer :=
  match standing with
  | none => closing world ((new ceilings .none).stop .sessionGone)
  | some standing =>
      let live := effective ceilings.granted standing.capabilities
      if !live.contains .view then closing world ((new ceilings .none).stop .viewRevoked)
      else closing world ((new ceilings live).write world .hello)

inductive Event where
  | pump (source : Source) (now : Instant)
  | receive (message : Option Message) (standing : Option Standing) (now : Instant)
  | revalidate (standing : Option Standing) (now : Instant)
  | ends (ending : Ending)

def react (ceilings : Ceilings) (world : World) (viewer : Viewer) : Event → Viewer
  | .pump source now => viewer.pump ceilings world source now
  | .receive message standing now => viewer.receive ceilings world message standing now
  | .revalidate standing now => viewer.revalidate ceilings standing now
  | .ends ending => viewer.stop ending

/-- A stream that has ended takes no further step. -/
def step (ceilings : Ceilings) (world : World) (viewer : Viewer) (event : Event) : Option Viewer :=
  if viewer.ending.isSome then none else some (closing world (react ceilings world viewer event))

end Viewer

end Selfhost.Desk
