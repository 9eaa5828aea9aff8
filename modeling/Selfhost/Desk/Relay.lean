import Selfhost.Desk.Viewer

/-!
# The relay of a desktop

The driver of a stream whose pixels come from an agent on another machine. It copies what the agent sends, returns the
agent's window, and hands over the input of the client.
-/

namespace Selfhost.Desk

open Selfhost.Lib

def creditBatch : Nat := 64 * 1024

def openingWindow : UInt32 := 256 * 1024

def kindHello : UInt8 := 0x01

/-- `Direction::of_kind`. -/
def isToViewer (kind : UInt8) : Bool := kind < 0x40

/-- What is not the relay's: how each write to the client ends, and the answer of the agent to each message. -/
structure RelayWorld where
  writes : Nat → Option Ending
  agent : Nat → Delivery

/-- What the client was sent: a message of the relay, or a copy of one of the agent. -/
inductive Output where
  | message (message : Message)
  | copy (bytes : Bytes)
  deriving DecidableEq

structure Relay where
  machine : Session
  uncredited : Nat
  pendingRestore : Bool
  live : Capabilities
  ending : Option Ending
  sent : List Output
  handed : List Handed
  deriving DecidableEq

namespace Relay

def new (ceilings : Ceilings) (live : Capabilities) : Relay where
  machine := .new ceilings.limits
  uncredited := 0
  pendingRestore := false
  live := live
  ending := none
  sent := []
  handed := []

def stop (ending : Ending) (relay : Relay) : Relay := { relay with ending := some ending }

def andThen (relay : Relay) (next : Relay → Relay) : Relay := if relay.ending.isSome then relay else next relay

def write (world : RelayWorld) (output : Output) (relay : Relay) : Relay :=
  match world.writes relay.sent.length with
  | none => { relay with sent := relay.sent ++ [output] }
  | some ending => relay.stop ending

/-! ## To the agent -/

def answer (world : RelayWorld) (relay : Relay) : Delivery := world.agent relay.handed.length

/-- `upstream.deliver`. -/
def deliver (world : RelayWorld) (message : Message) (gate : Option Gate) (relay : Relay) : Relay :=
  { relay with handed := relay.handed ++ [⟨message, gate, relay.answer world⟩] }

/-- A refusal is ignored, and a lapse is not. -/
def offer (world : RelayWorld) (message : Message) (relay : Relay) : Relay :=
  let after := relay.deliver world message none
  match relay.answer world with
  | .elapsed => after.stop .deadline
  | _ => after

def openUpstream (world : RelayWorld) (relay : Relay) : Relay :=
  (relay.offer world (.credit openingWindow)).andThen (offer world (.requestFullFrame 0))

def flushCredit (world : RelayWorld) (relay : Relay) : Relay :=
  if relay.uncredited = 0 then relay
  else
    let grant := UInt32.ofNat (min relay.uncredited (2 ^ 32 - 1))
    { relay with uncredited := 0 }.offer world (.credit grant)

def credit (world : RelayWorld) (written : Nat) (relay : Relay) : Relay :=
  let relay := { relay with uncredited := min (relay.uncredited + written) (2 ^ 64 - 1) }
  if relay.uncredited < creditBatch then relay else relay.flushCredit world

/-! ## One turn -/

/-- What the agent answers: to a restore that is pending, else to the request for a message. -/
structure Upstream where
  restore : Answer (Except Condition Unit)
  next : Answer (Except Condition Bytes)

/-- Copies a message of the agent after a look at its kind. -/
def forward (world : RelayWorld) (bytes : Bytes) (relay : Relay) : Relay :=
  match bytes with
  | [] => relay
  | first :: _ =>
      if !isToViewer first then relay.stop .wrongDirection
      else if first = kindHello then relay
      else relay.write world (.copy bytes)

def announce (world : RelayWorld) (notice : Option Notice) (relay : Relay) : Relay :=
  match notice with
  | some notice => relay.write world (.message (.status notice))
  | none => relay

def present (world : RelayWorld) (arrived : Option Bytes) (relay : Relay) : Relay :=
  match arrived with
  | some bytes =>
      let shown :=
        if relay.machine.phase = .live ∧ relay.live.contains .view = true then relay.forward world bytes else relay
      shown.andThen (credit world bytes.length)
  | none => relay.flushCredit world

def act (action : Action) (relay : Relay) : Relay :=
  match action with
  | .capture | .waitThen _ | .suspend _ => relay
  | .reinitialise _ | .respawnAgent _ => { relay with pendingRestore := true }
  | .closeStreams =>
      match relay.machine.phase with
      | .gaveUp surrender => relay.stop (.gaveUp surrender)
      | _ => relay.stop .stopped

def turn (world : RelayWorld) (now : Instant) (observation : Observation) (arrived : Option Bytes) (relay : Relay) :
    Relay :=
  let (machine, step) := relay.machine.observe observation now
  (({ relay with machine := machine }.announce world step.notice).andThen (present world arrived)).andThen
    (act step.action)

def pump (world : RelayWorld) (upstream : Upstream) (now : Instant) (relay : Relay) : Relay :=
  if relay.pendingRestore then
    match upstream.restore with
    | .elapsed => relay.stop .deadline
    | .given (.error condition) => relay.turn world now condition.observation none
    | .given (.ok ()) =>
        ({ relay with pendingRestore := false }.deliver world (.requestFullFrame 0) none).turn world now .retry none
  else
    match upstream.next with
    | .elapsed => relay.turn world now .retry none
    | .given (.ok bytes) => relay.turn world now .frame (some bytes)
    | .given (.error condition) => relay.turn world now condition.observation none

/-! ## Input -/

def drive (ceilings : Ceilings) (world : RelayWorld) (message : Message) (standing : Option Standing) (now : Instant)
    (relay : Relay) : Relay :=
  match standingNow ceilings.granted standing now with
  | .error ending => relay.stop ending
  | .ok live =>
      match inputRefusal live ceilings.allowInput relay.machine.phase with
      | some reason => relay.write world (.message (.inputRefused reason))
      | none =>
          let after :=
            relay.deliver world message (standing.map fun standing => ⟨standing, now, relay.machine.phase⟩)
          match relay.answer world with
          | .elapsed => after.stop .deadline
          | .accepted => after
          | .refused reason => after.write world (.message (.inputRefused reason))

def receive (ceilings : Ceilings) (world : RelayWorld) (message : Option Message) (standing : Option Standing)
    (now : Instant) (relay : Relay) : Relay :=
  match message with
  | none => relay.stop .peerMisbehaved
  | some message =>
      if !message.isToAgent then relay.stop .wrongDirection
      else
        match message with
        | .releaseAll => relay.deliver world .releaseAll none
        | .requestFullFrame monitor => relay.deliver world (.requestFullFrame monitor) none
        | .credit _ => relay
        | message => relay.drive ceilings world message standing now

def revalidate (ceilings : Ceilings) (standing : Option Standing) (now : Instant) (relay : Relay) : Relay :=
  match standingNow ceilings.granted standing now with
  | .error ending => relay.stop ending
  | .ok live => { relay with live := live }

/-! ## Whole streams -/

def finish (world : RelayWorld) (ending : Ending) (relay : Relay) : Relay :=
  let relay := relay.deliver world .releaseAll none
  if ending.peerIsListening then
    match world.writes relay.sent.length with
    | none => { relay with sent := relay.sent ++ [.message (.status relay.machine.phase.notice)] }
    | some _ => relay
  else relay

def closing (world : RelayWorld) (relay : Relay) : Relay :=
  match relay.ending with
  | some ending => relay.finish world ending
  | none => relay

/-- The handshake: the session is read, the client is greeted, and the agent is given its window. -/
def start (ceilings : Ceilings) (world : RelayWorld) (standing : Option Standing) : Relay :=
  match standing with
  | none => closing world ((new ceilings .none).stop .sessionGone)
  | some standing =>
      let live := effective ceilings.granted standing.capabilities
      if !live.contains .view then closing world ((new ceilings .none).stop .viewRevoked)
      else closing world (((new ceilings live).write world (.message .hello)).andThen (openUpstream world))

inductive Event where
  | pump (upstream : Upstream) (now : Instant)
  | receive (message : Option Message) (standing : Option Standing) (now : Instant)
  | revalidate (standing : Option Standing) (now : Instant)
  | ends (ending : Ending)

def react (ceilings : Ceilings) (world : RelayWorld) (relay : Relay) : Event → Relay
  | .pump upstream now => relay.pump world upstream now
  | .receive message standing now => relay.receive ceilings world message standing now
  | .revalidate standing now => relay.revalidate ceilings standing now
  | .ends ending => relay.stop ending

/-- A stream that has ended takes no further step. -/
def step (ceilings : Ceilings) (world : RelayWorld) (relay : Relay) (event : Event) : Option Relay :=
  if relay.ending.isSome then none else some (closing world (react ceilings world relay event))

end Relay

end Selfhost.Desk
