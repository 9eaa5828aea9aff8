import Selfhost.Mesh.Mux
import Selfhost.Lib.Machine
import Selfhost.Lib.Run

/-!
# The channels of a link

Who may open which channel, and what becomes of a channel until it is closed. The side that dialled allocates odd
numbers and the side that accepted even ones. Every operation gives what it reports and the table it leaves.
-/

namespace Selfhost.Mesh

open Selfhost.Lib

def defaultMaxChannels : Nat := 64

/-- Which end of the link this side is. -/
inductive Role where
  | dialler
  | accepter
  deriving DecidableEq, Repr

namespace Role

def peer : Role → Role
  | .dialler => .accepter
  | .accepter => .dialler

/-- The half of the numbers a side draws from. Nobody has the control channel. -/
def owns (role : Role) (id : ChannelId) : Bool :=
  if ChannelId.isControl id then false
  else
    match role with
    | .dialler => id % 2 = 1
    | .accepter => id % 2 = 0

end Role

inductive ChannelError where
  | exhausted
  | tooMany (limit : Nat)
  | wrongParity (id : ChannelId) (expected : Role)
  | controlReserved
  | duplicate (id : ChannelId)
  | unknown (id : ChannelId)
  | wrongDirection (id : ChannelId)
  | notOpening (id : ChannelId)
  deriving DecidableEq, Repr

/-! ## The allocator -/

/-- The next number is held in 32 bits, so that it can stand past the last channel. -/
structure Allocator where
  role : Role
  next : UInt32
  deriving DecidableEq, Repr

namespace Allocator

def new (role : Role) : Allocator :=
  ⟨role, match role with
    | .dialler => 1
    | .accepter => 2⟩

def allocate (allocator : Allocator) : Except ChannelError ChannelId × Allocator :=
  let candidate := allocator.next
  if candidate > 65535 then (.error .exhausted, allocator)
  else (.ok candidate.toUInt16, { allocator with next := saturatingAdd32 candidate 2 })

end Allocator

/-! ## The table -/

inductive ChannelState where
  -- This side sent `OPEN` and waits for the answer.
  | opening
  -- Both sides agree that the channel exists.
  | opened
  -- This side sent `CLOSE`.
  | closing
  deriving DecidableEq, Repr

structure ChannelEntry where
  id : ChannelId
  openedBy : Role
  service : UInt8
  state : ChannelState
  deriving DecidableEq, Repr

/-- The entries by their numbers, in order. -/
abbrev Channels := List (ChannelId × ChannelEntry)

namespace Channels

def get (channels : Channels) (id : ChannelId) : Option ChannelEntry :=
  (channels.find? fun slot => slot.1 = id).map Prod.snd

/-- Puts an entry in its place; one that stands there is replaced. -/
@[simp] def insert (id : ChannelId) (entry : ChannelEntry) : Channels → Channels
  | [] => [(id, entry)]
  | slot :: rest =>
      if id < slot.1 then (id, entry) :: slot :: rest
      else if id = slot.1 then (id, entry) :: rest
      else slot :: insert id entry rest

def remove (channels : Channels) (id : ChannelId) : Channels := channels.filter fun slot => slot.1 ≠ id

/-- Changes the state of an entry in its place. -/
def setState (channels : Channels) (id : ChannelId) (state : ChannelState) : Channels :=
  channels.map fun slot => if slot.1 = id then (slot.1, { slot.2 with state := state }) else slot

end Channels

structure ChannelTable where
  role : Role
  allocator : Allocator
  limit : Nat
  channels : Channels
  deriving DecidableEq, Repr

namespace ChannelTable

def withLimit (role : Role) (limit : Nat) : ChannelTable := ⟨role, .new role, limit, []⟩

def len (table : ChannelTable) : Nat := table.channels.length

def get (table : ChannelTable) (id : ChannelId) : Option ChannelEntry := table.channels.get id

/-- Allocates a number and records that this side opens it. -/
def openLocal (table : ChannelTable) (service : UInt8) : Except ChannelError ChannelId × ChannelTable :=
  if table.len ≥ table.limit then (.error (.tooMany table.limit), table)
  else
    match table.allocator.allocate with
    | (.error error, allocator) => (.error error, { table with allocator := allocator })
    | (.ok id, allocator) =>
        (.ok id,
          { table with
            allocator := allocator
            channels := table.channels.insert id ⟨id, table.role, service, .opening⟩ })

/-- The peer opened a channel. There is nothing to wait for once it is taken. -/
def acceptRemoteOpen (table : ChannelTable) (id : ChannelId) (service : UInt8) :
    Except ChannelError ChannelEntry × ChannelTable :=
  if ChannelId.isControl id then (.error .controlReserved, table)
  else if !table.role.peer.owns id then (.error (.wrongParity id table.role.peer), table)
  else if (table.get id).isSome then (.error (.duplicate id), table)
  else if table.len ≥ table.limit then (.error (.tooMany table.limit), table)
  else
    let entry : ChannelEntry := ⟨id, table.role.peer, service, .opened⟩
    (.ok entry, { table with channels := table.channels.insert id entry })

/-- The peer accepted a channel of this side. -/
def accepted (table : ChannelTable) (id : ChannelId) : Except ChannelError Unit × ChannelTable :=
  match table.get id with
  | none => (.error (.unknown id), table)
  | some entry =>
      if entry.openedBy ≠ table.role then (.error (.wrongDirection id), table)
      else if entry.state ≠ .opening then (.error (.notOpening id), table)
      else (.ok (), { table with channels := table.channels.setState id .opened })

/-- The peer rejected a channel of this side. -/
def rejected (table : ChannelTable) (id : ChannelId) : Except ChannelError Unit × ChannelTable :=
  match table.get id with
  | none => (.error (.unknown id), table)
  | some entry =>
      if entry.openedBy ≠ table.role then (.error (.wrongDirection id), table)
      else if entry.state ≠ .opening then (.error (.notOpening id), table)
      else (.ok (), { table with channels := table.channels.remove id })

/-- This side closes a channel. -/
def close (table : ChannelTable) (id : ChannelId) : Except ChannelError Unit × ChannelTable :=
  match table.get id with
  | none => (.error (.unknown id), table)
  | some _ => (.ok (), { table with channels := table.channels.setState id .closing })

/-- The channel is gone. -/
def closed (table : ChannelTable) (id : ChannelId) : Except ChannelError ChannelEntry × ChannelTable :=
  match table.get id with
  | none => (.error (.unknown id), table)
  | some entry => (.ok entry, { table with channels := table.channels.remove id })

def mayCarryData (table : ChannelTable) (id : ChannelId) : Bool :=
  match table.get id with
  | some entry => entry.state = .opened
  | none => false

/-- The link drops: every channel leaves. -/
def drain (table : ChannelTable) : List ChannelEntry × ChannelTable :=
  (table.channels.map Prod.snd, { table with channels := [] })

end ChannelTable

/-! ## What is done to a table -/

inductive ChannelOp where
  | openLocal (service : UInt8)
  | acceptRemoteOpen (id : ChannelId) (service : UInt8)
  | accepted (id : ChannelId)
  | rejected (id : ChannelId)
  | close (id : ChannelId)
  | closed (id : ChannelId)
  | drain
  deriving DecidableEq, Repr

/-- What an operation reports. -/
inductive ChannelReply where
  | id (id : ChannelId)
  | entry (entry : ChannelEntry)
  | done
  | entries (entries : List ChannelEntry)
  deriving DecidableEq, Repr

namespace ChannelTable

/-- The result of an operation as a reply. -/
def reported {α : Type} (reply : α → ChannelReply) (result : Except ChannelError α × ChannelTable) :
    Except ChannelError ChannelReply × ChannelTable :=
  (result.1.map reply, result.2)

def apply (table : ChannelTable) : ChannelOp → Except ChannelError ChannelReply × ChannelTable
  | .openLocal service => reported .id (table.openLocal service)
  | .acceptRemoteOpen id service => reported .entry (table.acceptRemoteOpen id service)
  | .accepted id => reported (fun _ => .done) (table.accepted id)
  | .rejected id => reported (fun _ => .done) (table.rejected id)
  | .close id => reported (fun _ => .done) (table.close id)
  | .closed id => reported .entry (table.closed id)
  | .drain => (.ok (.entries table.drain.1), table.drain.2)

end ChannelTable

end Selfhost.Mesh
