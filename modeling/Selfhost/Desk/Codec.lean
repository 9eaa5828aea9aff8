import Selfhost.Desk.Grant
import Selfhost.Desk.Wire
import Selfhost.Lib.Scan

/-!
# Messages as bytes

The codec of `services/desk/src/wire.rs`: a byte for the kind, then fields at known places. The codes of keys, notices,
buttons, refusals and tile encodings are those of `keys.rs`, `state.rs`, `wire.rs` and `tiles.rs`.
-/

namespace Selfhost.Desk

open Selfhost.Lib

/-! ## Codes -/

/-- The usages of `KEYS`, in order. -/
def keys : List UInt16 :=
  [0x04, 0x05, 0x06, 0x07, 0x08, 0x09, 0x0A, 0x0B, 0x0C, 0x0D, 0x0E, 0x0F, 0x10, 0x11, 0x12, 0x13, 0x14, 0x15, 0x16, 0x17,
    0x18, 0x19, 0x1A, 0x1B, 0x1C, 0x1D, 0x1E, 0x1F, 0x20, 0x21, 0x22, 0x23, 0x24, 0x25, 0x26, 0x27, 0x28, 0x29, 0x2A,
    0x2B, 0x2C, 0x2D, 0x2E, 0x2F, 0x30, 0x31, 0x33, 0x34, 0x35, 0x36, 0x37, 0x38, 0x39, 0x3A, 0x3B, 0x3C, 0x3D, 0x3E,
    0x3F, 0x40, 0x41, 0x42, 0x43, 0x44, 0x45, 0x46, 0x47, 0x48, 0x49, 0x4A, 0x4B, 0x4C, 0x4D, 0x4E, 0x4F, 0x50, 0x51,
    0x52, 0x53, 0x54, 0x55, 0x56, 0x57, 0x58, 0x59, 0x5A, 0x5B, 0x5C, 0x5D, 0x5E, 0x5F, 0x60, 0x61, 0x62, 0x63, 0x64,
    0x65, 0x67, 0x68, 0x69, 0x6A, 0x6B, 0x6C, 0x6D, 0x6E, 0x6F, 0x75, 0x85, 0xE0, 0xE1, 0xE2, 0xE3, 0xE4, 0xE5, 0xE6,
    0xE7]

theorem length_keys : keys.length = keyCount := by decide

inductive KeyError where
  | outOfPage (usage : UInt16)
  | unmappable (usage : UInt16)
  deriving DecidableEq, Repr

def maxPageUsage : UInt16 := 0xE7

def Usage.hid (key : Usage) : UInt16 := keys.get (key.cast length_keys.symm)

def Usage.fromHid (usage : UInt16) : Except KeyError Usage :=
  if usage > maxPageUsage then .error (.outOfPage usage)
  else
    match (List.finRange keyCount).find? fun key => Usage.hid key = usage with
    | some key => .ok key
    | none => .error (.unmappable usage)

def Notice.code : Notice → UInt8
  | .starting => 0x01
  | .live => 0x02
  | .recovering => 0x03
  | .secureDesktop => 0x04
  | .sessionMoved => 0x05
  | .noUser => 0x06
  | .permissionDenied => 0x07
  | .gaveUp => 0x08
  | .stopped => 0x09

def Notice.fromCode : UInt8 → Option Notice
  | 0x01 => some .starting
  | 0x02 => some .live
  | 0x03 => some .recovering
  | 0x04 => some .secureDesktop
  | 0x05 => some .sessionMoved
  | 0x06 => some .noUser
  | 0x07 => some .permissionDenied
  | 0x08 => some .gaveUp
  | 0x09 => some .stopped
  | _ => none

def Refusal.code : Refusal → UInt8
  | .notPermitted => 0x01
  | .inputDisabled => 0x02
  | .secureDesktop => 0x03
  | .elevatedWindow => 0x04
  | .notLive => 0x05
  | .unmappable => 0x06

def Refusal.fromCode : UInt8 → Option Refusal
  | 0x01 => some .notPermitted
  | 0x02 => some .inputDisabled
  | 0x03 => some .secureDesktop
  | 0x04 => some .elevatedWindow
  | 0x05 => some .notLive
  | 0x06 => some .unmappable
  | _ => none

def Button.code : Button → UInt8
  | .left => 0x01
  | .middle => 0x02
  | .right => 0x03
  | .back => 0x04
  | .forward => 0x05

def Button.fromCode : UInt8 → Option Button
  | 0x01 => some .left
  | 0x02 => some .middle
  | 0x03 => some .right
  | 0x04 => some .back
  | 0x05 => some .forward
  | _ => none

def Encoding.code : Encoding → UInt8
  | .raw => 0x00
  | .rle => 0x01
  | .unchanged => 0x02
  | .solid => 0x03

def Encoding.fromCode : UInt8 → Option Encoding
  | 0x00 => some .raw
  | 0x01 => some .rle
  | 0x02 => some .unchanged
  | 0x03 => some .solid
  | _ => none

namespace Wire

/-! ## Messages -/

structure Monitor where
  id : UInt8
  originX : Int32
  originY : Int32
  width : UInt32
  height : UInt32
  scalePermille : UInt16
  primary : Bool
  deriving DecidableEq

structure Hello where
  protocol : UInt16
  tile : TileSize
  maxFps : UInt8
  capabilities : Capabilities
  monitors : List Monitor
  deriving DecidableEq

structure FrameBegin where
  monitor : UInt8
  sequence : UInt64
  width : UInt32
  height : UInt32
  keyframe : Bool
  deriving DecidableEq

structure TileMessage where
  monitor : UInt8
  col : UInt16
  row : UInt16
  encoding : Encoding
  payload : Bytes
  deriving DecidableEq

structure CursorPos where
  x : Int32
  y : Int32
  visible : Bool
  deriving DecidableEq

structure CursorShape where
  shape : UInt64
  hotspotX : UInt16
  hotspotY : UInt16
  width : UInt16
  height : UInt16
  pixels : Bytes
  deriving DecidableEq

inductive Message where
  | hello (hello : Hello)
  | status (notice : Notice) (detail : Str)
  | frameBegin (frame : FrameBegin)
  | tile (tile : TileMessage)
  | frameEnd (sequence : UInt64)
  | cursorPos (cursor : CursorPos)
  | cursorShape (shape : CursorShape)
  | inputRefused (reason : Refusal)
  | key (usage : Usage) (down : Bool)
  | text (text : Str)
  | pointerMove (monitor : UInt8) (x y : Int32)
  | button (button : Button) (down : Bool)
  | scroll (dx dy : Int32)
  | releaseAll
  | requestFullFrame (monitor : UInt8)
  | credit (bytes : UInt32)
  deriving DecidableEq

namespace Kind

@[match_pattern] def hello : UInt8 := 0x01
@[match_pattern] def status : UInt8 := 0x02
@[match_pattern] def frameBegin : UInt8 := 0x03
@[match_pattern] def tile : UInt8 := 0x04
@[match_pattern] def frameEnd : UInt8 := 0x05
@[match_pattern] def cursorPos : UInt8 := 0x06
@[match_pattern] def cursorShape : UInt8 := 0x07
@[match_pattern] def inputRefused : UInt8 := 0x08
@[match_pattern] def key : UInt8 := 0x40
@[match_pattern] def text : UInt8 := 0x41
@[match_pattern] def pointerMove : UInt8 := 0x42
@[match_pattern] def button : UInt8 := 0x43
@[match_pattern] def scroll : UInt8 := 0x44
@[match_pattern] def releaseAll : UInt8 := 0x45
@[match_pattern] def requestFullFrame : UInt8 := 0x46
@[match_pattern] def credit : UInt8 := 0x47

end Kind

namespace Message

def kind : Message → UInt8
  | .hello _ => Kind.hello
  | .status _ _ => Kind.status
  | .frameBegin _ => Kind.frameBegin
  | .tile _ => Kind.tile
  | .frameEnd _ => Kind.frameEnd
  | .cursorPos _ => Kind.cursorPos
  | .cursorShape _ => Kind.cursorShape
  | .inputRefused _ => Kind.inputRefused
  | .key _ _ => Kind.key
  | .text _ => Kind.text
  | .pointerMove _ _ _ => Kind.pointerMove
  | .button _ _ => Kind.button
  | .scroll _ _ => Kind.scroll
  | .releaseAll => Kind.releaseAll
  | .requestFullFrame _ => Kind.requestFullFrame
  | .credit _ => Kind.credit

def name : Message → String
  | .hello _ => "Hello"
  | .status _ _ => "Status"
  | .frameBegin _ => "FrameBegin"
  | .tile _ => "Tile"
  | .frameEnd _ => "FrameEnd"
  | .cursorPos _ => "CursorPos"
  | .cursorShape _ => "CursorShape"
  | .inputRefused _ => "InputRefused"
  | .key _ _ => "Key"
  | .text _ => "Text"
  | .pointerMove _ _ _ => "PointerMove"
  | .button _ _ => "Button"
  | .scroll _ _ => "Scroll"
  | .releaseAll => "ReleaseAll"
  | .requestFullFrame _ => "RequestFullFrame"
  | .credit _ => "Credit"

end Message

inductive WireError where
  | empty
  | oversize (length : Nat)
  | unknownKind (kind : UInt8)
  | truncated (field : String) (needed available : Nat)
  | trailing (kind : String) (extra : Nat)
  | tooLarge (field : String) (limit actual : Nat)
  | notUtf8 (field : String)
  | badValue (field : String) (value : UInt64)
  | key (error : KeyError)
  | tile (error : TileError)
  deriving DecidableEq, Repr

def maxMessage : Nat := 2 ^ 20 - 8

def maxMonitors : Nat := 16

def maxDimension : UInt32 := 32768

def maxCursorEdge : UInt16 := 128

def maxTextBytes : Nat := 1024

def maxDetailBytes : Nat := 256

def maxScroll : Int32 := 120000

/-- The size of a monitor on the wire. -/
def monitorBytes : Nat := 20

/-! ## The encoder -/

def monitorCount (count : Nat) : Except WireError UInt8 :=
  if count < 2 ^ 8 ∧ count ≤ maxMonitors then .ok (UInt8.ofNat count)
  else .error (.tooLarge "hello.monitors" maxMonitors count)

def lengthU16 (field : String) (length : Nat) : Except WireError UInt16 :=
  if length < 2 ^ 16 then .ok (UInt16.ofNat length) else .error (.tooLarge field (2 ^ 16 - 1) length)

def lengthU32 (field : String) (length : Nat) : Except WireError UInt32 :=
  if length < 2 ^ 32 ∧ length ≤ maxMessage then .ok (UInt32.ofNat length)
  else .error (.tooLarge field maxMessage length)

/-- The place where the loop of `clamp_utf8` stops: the last one before a character, at most `limit`. -/
@[grind =] def clampEnd (text : Str) : Nat → Nat
  | 0 => 0
  | limit + 1 => if (splitAtByte (limit + 1) text).isSome then limit + 1 else clampEnd text limit

def clampUtf8 (text : Str) (limit : Nat) : Bytes :=
  if byteLen text ≤ limit then utf8 text else (utf8 text).take (clampEnd text limit)

def beI32 (n : Int32) : Bytes := be32 n.toUInt32

def Monitor.encode (monitor : Monitor) : Bytes :=
  [monitor.id] ++ beI32 monitor.originX ++ beI32 monitor.originY ++ be32 monitor.width ++ be32 monitor.height ++
    be16 monitor.scalePermille ++ [monitor.primary.toUInt8]

namespace Message

/-- What is written behind the kind. -/
def body : Message → Except WireError Bytes
  | .hello opening => do
      let count ← monitorCount opening.monitors.length
      return be16 opening.protocol ++ be16 (UInt16.ofNat opening.tile.edge) ++ [opening.maxFps] ++ [opening.capabilities.bits] ++
        [count] ++ opening.monitors.flatMap Monitor.encode
  | .status notice detail => do
      let bytes := clampUtf8 detail maxDetailBytes
      let length ← lengthU16 "status.detail" bytes.length
      return [notice.code] ++ be16 length ++ bytes
  | .frameBegin frame =>
      return [frame.monitor] ++ be64 frame.sequence ++ be32 frame.width ++ be32 frame.height ++ [frame.keyframe.toUInt8]
  | .tile update => do
      let length ← lengthU32 "tile.payload" update.payload.length
      return [update.monitor] ++ be16 update.col ++ be16 update.row ++ [update.encoding.code] ++ be32 length ++ update.payload
  | .frameEnd sequence => return be64 sequence
  | .cursorPos cursor => return beI32 cursor.x ++ beI32 cursor.y ++ [cursor.visible.toUInt8]
  | .cursorShape shape => do
      let length ← lengthU32 "cursor.pixels" shape.pixels.length
      return be64 shape.shape ++ be16 shape.hotspotX ++ be16 shape.hotspotY ++ be16 shape.width ++ be16 shape.height ++
        be32 length ++ shape.pixels
  | .inputRefused reason => return [reason.code]
  | .key usage down => return be16 usage.hid ++ [down.toUInt8]
  | .text content => do
      let bytes := clampUtf8 content maxTextBytes
      let length ← lengthU16 "text.body" bytes.length
      return be16 length ++ bytes
  | .pointerMove monitor x y => return [monitor] ++ beI32 x ++ beI32 y
  | .button which down => return [which.code] ++ [down.toUInt8]
  | .scroll dx dy => return beI32 dx ++ beI32 dy
  | .releaseAll => return []
  | .requestFullFrame monitor => return [monitor]
  | .credit bytes => return be32 bytes

def encode (message : Message) : Except WireError Bytes := do
  let body ← message.body
  let out := message.kind :: body
  if out.length > maxMessage then throw (.oversize out.length) else return out

end Message

/-! ## The decoder -/

section

variable (field : String)

def u8 : Scan WireError UInt8 := Scan.u8 (.truncated field)

def u16 : Scan WireError UInt16 := Scan.u16 (.truncated field)

def u32 : Scan WireError UInt32 := Scan.u32 (.truncated field)

def u64 : Scan WireError UInt64 := Scan.u64 (.truncated field)

def i32 : Scan WireError Int32 := do
  let value ← u32 field
  return Int32.ofUInt32 value

/-- A byte that stands for one of a few values. -/
def coded {α : Type} (fromCode : UInt8 → Option α) : Scan WireError α := do
  let code ← u8 field
  match fromCode code with
    | some value => return value
    | none => throw (.badValue field code.toUInt64)

def flag : Scan WireError Bool :=
  coded field fun
    | 0 => some false
    | 1 => some true
    | _ => none

def dimension : Scan WireError UInt32 := do
  let value ← u32 field
  if value = 0 ∨ value > maxDimension then throw (.badValue field value.toUInt64) else return value

def cursorEdge : Scan WireError UInt16 := do
  let value ← u16 field
  if value = 0 ∨ value > maxCursorEdge then throw (.badValue field value.toUInt64) else return value

def scale : Scan WireError UInt16 := do
  let value ← u16 field
  if ¬ (100 ≤ value ∧ value ≤ 10000) then throw (.badValue field value.toUInt64) else return value

def scroll : Scan WireError Int32 := do
  let value ← i32 field
  if ¬ (-maxScroll ≤ value ∧ value ≤ maxScroll) then throw (.badValue field (UInt64.ofNat value.toInt.natAbs))
  else return value

def text (limit : Nat) : Scan WireError Str := do
  let length ← u16 field
  if length.toNat > limit then throw (.tooLarge field limit length.toNat)
  else
    let bytes ← Scan.take (.truncated field) length.toNat
    match fromUtf8 bytes with
      | some text => return text
      | none => throw (.notUtf8 field)

def blob (limit : Nat) : Scan WireError Bytes := do
  let length ← u32 field
  if length.toNat > limit then throw (.tooLarge field limit length.toNat)
  else Scan.take (.truncated field) length.toNat

end

def decodeMonitor : Scan WireError Monitor := do
  let id ← u8 "monitor.id"
  let originX ← i32 "monitor.origin_x"
  let originY ← i32 "monitor.origin_y"
  let width ← dimension "monitor.width"
  let height ← dimension "monitor.height"
  let scalePermille ← scale "monitor.scale"
  let primary ← flag "monitor.primary"
  return ⟨id, originX, originY, width, height, scalePermille, primary⟩

/-- The edge of a tile in a greeting. -/
def tileSize : Scan WireError TileSize := do
  let edge ← u16 "hello.tile"
  liftM ((TileSize.new edge.toNat).mapError WireError.tile)

/-- The count of the monitors and the monitors. The count is checked against the bytes that are left before it is
believed. -/
def decodeMonitors : Scan WireError (List Monitor) := do
  let count ← u8 "hello.monitor_count"
  if count.toNat > maxMonitors then throw (.tooLarge "hello.monitor_count" maxMonitors count.toNat)
  else
    let left ← get
    if count.toNat * monitorBytes > left.length then
      throw (.truncated "hello.monitors" (count.toNat * monitorBytes) left.length)
    else Scan.times count.toNat decodeMonitor

def decodeHello : Scan WireError Hello := do
  let protocol ← u16 "hello.protocol"
  let tile ← tileSize
  let maxFps ← u8 "hello.max_fps"
  let capabilities ← coded "hello.capabilities" Capabilities.fromBits
  let monitors ← decodeMonitors
  return ⟨protocol, tile, maxFps, capabilities, monitors⟩

def decodeTileMessage : Scan WireError TileMessage := do
  let monitor ← u8 "tile.monitor"
  let col ← u16 "tile.col"
  let row ← u16 "tile.row"
  let encoding ← coded "tile.encoding" Encoding.fromCode
  let payload ← blob "tile.payload" maxMessage
  return ⟨monitor, col, row, encoding, payload⟩

/-- `checked_mul` cannot fail on two edges of sixteen bits that were checked. -/
def decodeCursorShape : Scan WireError CursorShape := do
  let shape ← u64 "cursor.shape"
  let hotspotX ← u16 "cursor.hotspot_x"
  let hotspotY ← u16 "cursor.hotspot_y"
  let width ← cursorEdge "cursor.width"
  let height ← cursorEdge "cursor.height"
  let expected := width.toNat * height.toNat * 4
  let pixels ← blob "cursor.pixels" maxMessage
  if pixels.length ≠ expected then throw (.tooLarge "cursor.pixels" expected pixels.length)
  else if hotspotX ≥ width ∨ hotspotY ≥ height then throw (.badValue "cursor.hotspot" (max hotspotX hotspotY).toUInt64)
  else return ⟨shape, hotspotX, hotspotY, width, height, pixels⟩

/-- The key of a usage on the wire. -/
def usage : Scan WireError Usage := do
  let value ← u16 "key.usage"
  liftM ((Usage.fromHid value).mapError WireError.key)

/-- The fields of a message of a kind. -/
def decodeBody (kind : UInt8) : Scan WireError Message :=
  match kind with
  | Kind.hello => do
      let hello ← decodeHello
      return .hello hello
  | Kind.status => do
      let notice ← coded "status.notice" Notice.fromCode
      let detail ← text "status.detail" maxDetailBytes
      return .status notice detail
  | Kind.frameBegin => do
      let monitor ← u8 "frame.monitor"
      let sequence ← u64 "frame.sequence"
      let width ← dimension "frame.width"
      let height ← dimension "frame.height"
      let keyframe ← flag "frame.keyframe"
      return .frameBegin ⟨monitor, sequence, width, height, keyframe⟩
  | Kind.tile => do
      let tile ← decodeTileMessage
      return .tile tile
  | Kind.frameEnd => do
      let sequence ← u64 "frame.sequence"
      return .frameEnd sequence
  | Kind.cursorPos => do
      let x ← i32 "cursor.x"
      let y ← i32 "cursor.y"
      let visible ← flag "cursor.visible"
      return .cursorPos ⟨x, y, visible⟩
  | Kind.cursorShape => do
      let shape ← decodeCursorShape
      return .cursorShape shape
  | Kind.inputRefused => do
      let reason ← coded "refusal.reason" Refusal.fromCode
      return .inputRefused reason
  | Kind.key => do
      let usage ← usage
      let down ← flag "key.down"
      return .key usage down
  | Kind.text => do
      let text ← text "text.body" maxTextBytes
      return .text text
  | Kind.pointerMove => do
      let monitor ← u8 "pointer.monitor"
      let x ← i32 "pointer.x"
      let y ← i32 "pointer.y"
      return .pointerMove monitor x y
  | Kind.button => do
      let button ← coded "button.code" Button.fromCode
      let down ← flag "button.down"
      return .button button down
  | Kind.scroll => do
      let dx ← scroll "scroll.dx"
      let dy ← scroll "scroll.dy"
      return .scroll dx dy
  | Kind.releaseAll => return .releaseAll
  | Kind.requestFullFrame => do
      let monitor ← u8 "request.monitor"
      return .requestFullFrame monitor
  | Kind.credit => do
      let bytes ← u32 "credit.bytes"
      return .credit bytes
  | other => throw (.unknownKind other)

def decode (bytes : Bytes) : Except WireError Message :=
  if bytes.length > maxMessage then .error (.oversize bytes.length)
  else
    match bytes with
    | [] => .error .empty
    | kind :: body =>
        match (decodeBody kind).run body with
        | .error error => .error error
        | .ok (message, []) => .ok message
        | .ok (message, rest) => .error (.trailing message.name rest.length)

end Wire

end Selfhost.Desk
