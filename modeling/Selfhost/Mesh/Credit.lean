import Selfhost.Lib.Buffer
import Selfhost.Lib.Machine
import Selfhost.Lib.Run

/-!
# Flow control

How many bytes a sender may have outstanding on a channel, and how the receiver gives them back.
-/

namespace Selfhost.Mesh

open Selfhost.Lib

/-- The largest window a peer may grant a sender. -/
def maxWindow : UInt32 := 16 * 1024 * 1024

inductive CreditError where
  | malformedGrant (length : Nat)
  | emptyGrant
  | windowOverflow (available grant : UInt32)
  | peerOverranWindow (excess capacity : UInt32)
  | consumedMoreThanArrived (held consumed : UInt32)
  deriving DecidableEq, Repr

inductive Reservation where
  | granted
  | stalled (shortBy : UInt32)
  | unsatisfiable (limit : UInt32)
  deriving DecidableEq, Repr

/-! ## The sender -/

structure SendWindow where
  available : UInt32
  sent : UInt64
  granted : UInt64
  stalls : UInt64
  deriving DecidableEq, Repr

namespace SendWindow

def new (initial : UInt32) : SendWindow := ⟨min initial maxWindow, 0, 0, 0⟩

/-- Applies a `CREDIT` grant of the peer. -/
def grant (window : SendWindow) (bytes : UInt32) : Except CreditError SendWindow :=
  if bytes = 0 then .error .emptyGrant
  else
    match checkedAdd32 window.available bytes with
    | none => .error (.windowOverflow window.available bytes)
    | some widened =>
        if widened > maxWindow then .error (.windowOverflow window.available bytes)
        else
          .ok { window with
            available := widened
            granted := saturatingAdd window.granted bytes.toUInt64 }

/-- Asks to send a payload; the window is debited if it can be afforded. -/
def reserve (window : SendWindow) (bytes : UInt32) : Reservation × SendWindow :=
  if bytes = 0 then (.granted, window)
  else if bytes > maxWindow then (.unsatisfiable maxWindow, window)
  else
    match checkedSub32 window.available bytes with
    | some remaining =>
        (.granted, { window with available := remaining, sent := saturatingAdd window.sent bytes.toUInt64 })
    | none => (.stalled (bytes - window.available), { window with stalls := saturatingAdd window.stalls 1 })

end SendWindow

/-! ## The receiver -/

structure ReceiveWindow where
  capacity : UInt32
  -- Arrived, and not yet consumed by the application.
  held : UInt32
  -- Consumed, and not yet advertised back to the sender.
  ungranted : UInt32
  received : UInt64
  consumed : UInt64
  deriving DecidableEq, Repr

namespace ReceiveWindow

def new (capacity : UInt32) : ReceiveWindow := ⟨min capacity maxWindow, 0, 0, 0, 0⟩

/-- A payload arrived. -/
def receive (window : ReceiveWindow) (bytes : UInt32) : Except CreditError ReceiveWindow :=
  let committed := saturatingAdd32 window.held window.ungranted
  let headroom := saturatingSub32 window.capacity committed
  if bytes > headroom then .error (.peerOverranWindow (bytes - headroom) window.capacity)
  else
    .ok { window with
      held := window.held + bytes
      received := saturatingAdd window.received bytes.toUInt64 }

/-- Some of what arrived has been dealt with. -/
def consume (window : ReceiveWindow) (bytes : UInt32) : Except CreditError ReceiveWindow :=
  if bytes > window.held then .error (.consumedMoreThanArrived window.held bytes)
  else
    .ok { window with
      held := window.held - bytes
      ungranted := saturatingAdd32 window.ungranted bytes
      consumed := saturatingAdd window.consumed bytes.toUInt64 }

/-- Half the window, and never zero. -/
def grantThreshold (window : ReceiveWindow) : UInt32 := max (window.capacity / 2) 1

/-- The grant the receiver owes, which it then owes no more. -/
def takeGrantNow (window : ReceiveWindow) : Option UInt32 × ReceiveWindow :=
  if window.ungranted = 0 then (none, window) else (some window.ungranted, { window with ungranted := 0 })

/-- The same, once half the window has been freed. -/
def takeGrant (window : ReceiveWindow) : Option UInt32 × ReceiveWindow :=
  if window.ungranted ≥ window.grantThreshold then window.takeGrantNow else (none, window)

end ReceiveWindow

/-! ## Grants on the wire -/

def encodeGrant (bytes : UInt32) : Bytes := be32 bytes

def parseGrant (payload : Bytes) : Except CreditError UInt32 :=
  match payload with
  | [a, b, c, d] =>
      let grant := ofBe32 a b c d
      if grant = 0 then .error .emptyGrant else .ok grant
  | _ => .error (.malformedGrant payload.length)

/-! ## One channel between two machines -/

/-- Both windows of a channel, the payloads and the grants under way, oldest first, and what either side reported. -/
structure Flow where
  sender : SendWindow
  receiver : ReceiveWindow
  data : List UInt32
  credit : List Bytes
  errors : List CreditError
  deriving DecidableEq, Repr

inductive Move where
  | reserve (bytes : UInt32)
  | receive
  | consume (bytes : UInt32)
  | takeGrant
  | takeGrantNow
  | grant
  deriving DecidableEq, Repr

namespace Flow

/-- Both sides open the channel with the same window. -/
def opened (window : UInt32) : Flow := ⟨.new window, .new window, [], [], []⟩

def report (flow : Flow) (error : CreditError) : Flow := { flow with errors := flow.errors ++ [error] }

/-- The receiver's side after it was asked for a grant. -/
def advertise (flow : Flow) (taken : Option UInt32 × ReceiveWindow) : Flow :=
  { flow with
    receiver := taken.2
    credit := flow.credit ++ taken.1.toList.map encodeGrant }

/-- A grant arrives at the sender. -/
def credited (flow : Flow) (payload : Bytes) : Flow :=
  match (parseGrant payload).bind flow.sender.grant with
  | .ok sender => { flow with sender := sender }
  | .error error => flow.report error

/-- A payload arrives at the receiver. -/
def delivered (flow : Flow) (bytes : UInt32) : Flow :=
  match flow.receiver.receive bytes with
  | .ok receiver => { flow with receiver := receiver }
  | .error error => flow.report error

/-- A payload that is not afforded stays with the sender; nothing is consumed that has not arrived. -/
def step (flow : Flow) : Move → Option Flow
  | .reserve bytes =>
      let (reservation, sender) := flow.sender.reserve bytes
      some { flow with sender := sender, data := flow.data ++ if reservation = .granted then [bytes] else [] }
  | .receive =>
      match flow.data with
      | [] => none
      | bytes :: data => some ({ flow with data := data }.delivered bytes)
  | .consume bytes =>
      match flow.receiver.consume bytes with
      | .ok receiver => some { flow with receiver := receiver }
      | .error _ => none
  | .takeGrant => some (flow.advertise flow.receiver.takeGrant)
  | .takeGrantNow => some (flow.advertise flow.receiver.takeGrantNow)
  | .grant =>
      match flow.credit with
      | [] => none
      | payload :: credit => some ({ flow with credit := credit }.credited payload)

end Flow

end Selfhost.Mesh
