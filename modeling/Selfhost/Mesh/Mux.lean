import Selfhost.Lib.Buffer
import Selfhost.Lib.Run

/-!
# Frames of a link

Eight bytes of header before every payload, and the payloads of the control frames that are read here.
-/

namespace Selfhost.Mesh

open Selfhost.Lib

def version : UInt8 := 1

def headerLen : Nat := 8

/-- The largest payload of one frame: a frame of a mebibyte, less the header. -/
def maxPayload : Nat := 1048576 - headerLen

inductive Kind where
  | opening
  | accept
  | reject
  | data
  | close
  | echo
  | echoed
  | credit
  deriving DecidableEq, Repr

namespace Kind

def fromByte (byte : UInt8) : Option Kind :=
  if byte = 1 then some .opening
  else if byte = 2 then some .accept
  else if byte = 3 then some .reject
  else if byte = 4 then some .data
  else if byte = 5 then some .close
  else if byte = 6 then some .echo
  else if byte = 7 then some .echoed
  else if byte = 8 then some .credit
  else none

def asByte : Kind → UInt8
  | .opening => 1
  | .accept => 2
  | .reject => 3
  | .data => 4
  | .close => 5
  | .echo => 6
  | .echoed => 7
  | .credit => 8

@[simp] theorem fromByte_asByte (kind : Kind) : fromByte kind.asByte = some kind := by
  cases kind <;> rfl

end Kind

/-- Channel 0 is the link's own. -/
abbrev ChannelId := UInt16

def ChannelId.isControl (id : ChannelId) : Bool := id = 0

inductive FrameError where
  | incomplete (needed : Nat)
  | unsupportedVersion (version : UInt8)
  | unknownKind (byte : UInt8)
  | tooLong (declared : UInt32)
  | payloadTooLong (length : Nat)
  deriving DecidableEq, Repr

structure Header where
  kind : Kind
  channel : ChannelId
  length : UInt32
  bounded : length.toNat ≤ maxPayload
  deriving DecidableEq, Repr

namespace Header

/-- Describes a frame that is about to be written. -/
def new (kind : Kind) (channel : ChannelId) (payloadLen : Nat) : Except FrameError Header :=
  if h : payloadLen ≤ maxPayload then
    .ok ⟨kind, channel, UInt32.ofNat payloadLen, by
      rw [UInt32.toNat_ofNat']
      exact Nat.le_trans (Nat.mod_le _ _) h⟩
  else .error (.payloadTooLong payloadLen)

def parse (input : Bytes) : Except FrameError Header :=
  match input with
  | v :: k :: c1 :: c0 :: l3 :: l2 :: l1 :: l0 :: _ =>
      if v ≠ version then .error (.unsupportedVersion v)
      else
        match Kind.fromByte k with
        | none => .error (.unknownKind k)
        | some kind =>
            let length := ofBe32 l3 l2 l1 l0
            if h : length.toNat ≤ maxPayload then .ok ⟨kind, ofBe16 c1 c0, length, h⟩ else .error (.tooLong length)
  | _ => .error (.incomplete headerLen)

def encode (header : Header) : Bytes :=
  version :: header.kind.asByte :: (be16 header.channel ++ be32 header.length)

def payloadLen (header : Header) : Nat := header.length.toNat

def frameLen (header : Header) : Nat := headerLen + header.payloadLen

end Header

/-- A frame; its payload is as long as its header says. -/
structure Frame where
  header : Header
  payload : Bytes
  sized : payload.length = header.payloadLen
  deriving DecidableEq, Repr

/-- The first frame of a text, and the bytes behind it. -/
def parseFrame (input : Bytes) : Except FrameError (Frame × Bytes) :=
  match Header.parse input with
  | .error error => .error error
  | .ok header =>
      if h : header.frameLen ≤ input.length then
        .ok (⟨header, (input.drop headerLen).take header.payloadLen, by
          rw [List.length_take, List.length_drop]
          unfold Header.frameLen at h
          omega⟩, input.drop header.frameLen)
      else .error (.incomplete header.frameLen)

def encodeFrame (kind : Kind) (channel : ChannelId) (payload : Bytes) : Except FrameError Bytes :=
  (Header.new kind channel payload.length).map fun header => header.encode ++ payload

/-- Appends one encoded frame to `out`, or leaves it as it is. -/
def writeFrame (out : Bytes) (kind : Kind) (channel : ChannelId) (payload : Bytes) : Except FrameError Unit × Bytes :=
  match Header.new kind channel payload.length with
  | .error error => (.error error, out)
  | .ok header => (.ok (), out ++ (header.encode ++ payload))

/-! ## Payloads of control frames -/

inductive ControlError where
  | truncated (kind : Kind)
  | paramsTooLong (length : Nat)
  | notPrintableAscii (byte : UInt8)
  deriving DecidableEq, Repr

def maxOpenParams : Nat := 4096

structure Open where
  service : UInt8
  params : Bytes
  deriving DecidableEq, Repr

def isPrintable (byte : UInt8) : Bool := 0x20 ≤ byte && byte ≤ 0x7e

def Open.parse (payload : Bytes) : Except ControlError Open :=
  match payload with
  | [] => .error (.truncated .opening)
  | service :: params =>
      if params.length > maxOpenParams then .error (.paramsTooLong params.length)
      else
        match params.find? fun byte => !isPrintable byte with
        | some byte => .error (.notPrintableAscii byte)
        | none => .ok ⟨service, params⟩

structure Close where
  code : UInt16
  deriving DecidableEq, Repr

def Close.parse (payload : Bytes) : Except ControlError Close :=
  match payload with
  | [high, low] => .ok ⟨ofBe16 high low⟩
  | _ => .error (.truncated .close)

def Close.encode (close : Close) : Bytes := be16 close.code

/-! ## A frame that is written is read back -/

theorem Header.length_encode (header : Header) : header.encode.length = headerLen := rfl

theorem Header.parse_encode (header : Header) (rest : Bytes) : parse (header.encode ++ rest) = .ok header := by
  obtain ⟨kind, channel, length, bounded⟩ := header
  simp only [encode, be16, be32, List.cons_append, List.nil_append, parse, ne_eq, not_true_eq_false, ↓reduceIte,
    Kind.fromByte_asByte, ofBe16_be16, ofBe32_be32, dif_pos bounded]

def Frame.encode (frame : Frame) : Bytes := frame.header.encode ++ frame.payload

theorem parseFrame_encode (frame : Frame) (rest : Bytes) :
    parseFrame (frame.encode ++ rest) = .ok (frame, rest) := by
  obtain ⟨header, payload, sized⟩ := frame
  have hlen : header.encode.length = headerLen := header.length_encode
  have hpayload : payload.length = header.payloadLen := sized
  have hfits : header.frameLen ≤ (header.encode ++ (payload ++ rest)).length := by
    simp only [List.length_append, Header.frameLen]
    omega
  have hdrop : (header.encode ++ (payload ++ rest)).drop headerLen = payload ++ rest := by
    rw [← hlen, List.drop_left]
  have hrest : (header.encode ++ (payload ++ rest)).drop header.frameLen = rest := by
    rw [Header.frameLen, ← List.drop_drop, hdrop, ← hpayload, List.drop_left]
  have htake : (payload ++ rest).take header.payloadLen = payload := by rw [← hpayload, List.take_left]
  simp only [Frame.encode, List.append_assoc]
  unfold parseFrame
  rw [Header.parse_encode]
  simp only [dif_pos hfits, hdrop, hrest, htake]

/-- A payload that fits is written as a frame of its own length. -/
theorem encodeFrame_ok {kind : Kind} {channel : ChannelId} {payload : Bytes} (h : payload.length ≤ maxPayload) :
    ∃ frame : Frame, encodeFrame kind channel payload = .ok frame.encode ∧ frame.header.kind = kind ∧
      frame.header.channel = channel ∧ frame.payload = payload := by
  have hlen : (UInt32.ofNat payload.length).toNat = payload.length := by
    rw [UInt32.toNat_ofNat', Nat.mod_eq_of_lt]
    unfold maxPayload headerLen at h
    omega
  refine ⟨⟨⟨kind, channel, UInt32.ofNat payload.length, by rw [hlen]; exact h⟩, payload, hlen.symm⟩, ?_, rfl, rfl, rfl⟩
  unfold encodeFrame Header.new
  rw [dif_pos h]
  rfl

end Selfhost.Mesh

/-!
# The routes of a link

The reader of a link looks up who holds the channel of a frame, waits for room in that inbox, and hands the frame over.
Meanwhile channels are claimed and released by whoever holds the link.
-/

namespace Selfhost.Mesh

open Selfhost.Lib

/-- How many frames may wait in one inbox. -/
def channelInbox : Nat := 4

/-- How many frames may wait on the control queue. -/
def controlInbox : Nat := 16

/-- One end of a channel's queue, told apart from every other by its number. -/
abbrev SinkId := Nat

inductive LinkError where
  | channelBusy (channel : ChannelId)
  | controlReserved
  deriving DecidableEq, Repr

/-! ## The table -/

abbrev Routes := List (ChannelId × SinkId)

namespace Routes

def sink (routes : Routes) (channel : ChannelId) : Option SinkId :=
  (routes.find? fun route => route.1 = channel).map Prod.snd

/-- Claims a channel, unless something holds it. -/
def insert (routes : Routes) (channel : ChannelId) (sink : SinkId) : Except LinkError Routes :=
  if (routes.sink channel).isSome then .error (.channelBusy channel) else .ok ((channel, sink) :: routes)

def remove (routes : Routes) (channel : ChannelId) : Routes := routes.filter fun route => route.1 ≠ channel

end Routes

/-! ## The link and everybody who holds it -/

/-- An inbox, while it is held: its own number, its channel and the frames that wait in it. -/
structure Inbox where
  id : SinkId
  channel : ChannelId
  frames : List Frame
  deriving DecidableEq, Repr

/-- What the reader does: it waits for a frame, or for room in an inbox it has looked up. -/
inductive Reader where
  | idle
  | sending (sink : SinkId) (frame : Frame)
  deriving DecidableEq, Repr

structure Link where
  alive : Bool
  routes : Routes
  inboxes : List Inbox
  reader : Reader
  control : List Frame
  -- The number of the next queue.
  next : SinkId
  deriving DecidableEq, Repr

namespace Link

def opened : Link := ⟨true, [], [], .idle, [], 0⟩

/-- Claims a channel. The control channel is claimed and at once released again. -/
def attach (link : Link) (channel : ChannelId) : Except LinkError Link :=
  match link.routes.insert channel link.next with
  | .error error => .error error
  | .ok routes =>
      if ChannelId.isControl channel then .error .controlReserved
      else
        .ok { link with
          routes := routes
          inboxes := ⟨link.next, channel, []⟩ :: link.inboxes
          next := link.next + 1 }

/-- Lets an inbox go, and its channel with it. -/
def dropInbox (link : Link) (inbox : Inbox) : Link :=
  { link with
    routes := link.routes.remove inbox.channel
    inboxes := link.inboxes.filter fun other => other.id ≠ inbox.id }

/-- The reader has a frame: it looks up who holds its channel. A frame that nobody holds goes to the control queue, if
there is room. -/
def lookUp (link : Link) (frame : Frame) : Link :=
  match link.routes.sink frame.header.channel with
  | some sink => { link with reader := .sending sink frame }
  | none => if link.control.length < controlInbox then { link with control := link.control ++ [frame] } else link

/-- The inbox behind a sink, as long as it has not been dropped. -/
def inbox? (link : Link) (sink : SinkId) : Option Inbox := link.inboxes.find? fun inbox => inbox.id = sink

inductive Event where
  | attach (channel : ChannelId)
  | dropInbox (sink : SinkId)
  -- The holder of an inbox takes a frame out of it.
  | recv (sink : SinkId)
  | lookUp (frame : Frame)
  -- The send the reader waits for completes: there is room, or the inbox has been dropped.
  | sendOk
  | sendErr
  -- The link itself is dropped.
  | dropLink
  deriving DecidableEq, Repr

/-- The frames of one inbox change. -/
def withFrames (link : Link) (sink : SinkId) (f : List Frame → List Frame) : Link :=
  { link with
    inboxes := link.inboxes.map fun inbox => if inbox.id = sink then { inbox with frames := f inbox.frames } else inbox }

def step (link : Link) : Event → Option Link
  | .attach channel =>
      match link.attach channel with
      | .ok link => some link
      | .error _ => some link
  | .dropInbox sink => (link.inbox? sink).map link.dropInbox
  | .recv sink =>
      match link.inbox? sink with
      | some ⟨_, _, _ :: _⟩ => some (link.withFrames sink List.tail)
      | _ => none
  | .lookUp frame =>
      match link.reader with
      | .idle => if link.alive then some (link.lookUp frame) else none
      | .sending _ _ => none
  | .sendOk =>
      match link.reader with
      | .idle => none
      | .sending sink frame =>
          match link.inbox? sink with
          | some inbox =>
              if inbox.frames.length < channelInbox then
                some { link.withFrames sink (· ++ [frame]) with reader := .idle }
              else none
          | none => none
  | .sendErr =>
      match link.reader with
      | .idle => none
      | .sending sink frame =>
          match link.inbox? sink with
          | some _ => none
          | none => some { link with routes := link.routes.remove frame.header.channel, reader := .idle }
  | .dropLink => some { link with alive := false, routes := [], reader := .idle }

/-- Every inbox that is held has its own sink in the table. -/
def Routed (link : Link) : Prop :=
  link.alive = true → ∀ inbox ∈ link.inboxes, link.routes.sink inbox.channel = some inbox.id

end Link

end Selfhost.Mesh
