import Selfhost.Desk.State
import Selfhost.Desk.Tiles
import Selfhost.Lib.Machine

/-!
# Messages of a desktop stream

The messages in both directions, the keys and buttons that are held, and which cursor shapes the client has.
-/

namespace Selfhost.Desk

open Selfhost.Lib

/-! ## Keys and buttons -/

/-- How many keys the vocabulary has. -/
def keyCount : Nat := 116

/-- A key, as its place in the vocabulary. -/
abbrev Usage := Fin keyCount

inductive Button where
  | left
  | middle
  | right
  | back
  | forward
  deriving DecidableEq, Repr

/-- The four words of the set of held keys. -/
structure HeldKeys where
  words : BitVec 256
  deriving DecidableEq

namespace HeldKeys

def new : HeldKeys := ⟨0⟩

def press (held : HeldKeys) (key : Usage) : HeldKeys := ⟨Bits.insert held.words key⟩

def isHeld (held : HeldKeys) (key : Usage) : Bool := held.words.getLsbD key

def release (held : HeldKeys) (key : Usage) : Bool × HeldKeys := (held.isHeld key, ⟨Bits.remove held.words key⟩)

def drain (held : HeldKeys) : List Usage × HeldKeys := ((List.finRange keyCount).filter held.isHeld, new)

variable {held : HeldKeys} {key other : Usage}

@[simp] theorem isHeld_new : new.isHeld key = false := by simp [new, isHeld]

theorem isHeld_press : (held.press key).isHeld other = (held.isHeld other || decide (key = other)) := by
  have hkey : (key : Nat) < 256 := Nat.lt_trans key.isLt (by decide)
  simp only [press, isHeld, Bits.getLsbD_insert hkey, Fin.ext_iff]

theorem isHeld_release : (held.release key).2.isHeld other = (held.isHeld other && decide (key ≠ other)) := by
  simp only [release, isHeld, Bits.getLsbD_remove, ne_eq, Fin.ext_iff]

theorem mem_drain : key ∈ held.drain.1 ↔ held.isHeld key = true := by simp [drain]

end HeldKeys

def Button.bit : Button → Nat
  | .left => 0
  | .middle => 1
  | .right => 2
  | .back => 3
  | .forward => 4

def Button.all : List Button := [.left, .middle, .right, .back, .forward]

structure HeldButtons where
  bits : BitVec 8
  deriving DecidableEq

namespace HeldButtons

def none : HeldButtons := ⟨0⟩

def press (held : HeldButtons) (button : Button) : HeldButtons := ⟨Bits.insert held.bits button.bit⟩

def isHeld (held : HeldButtons) (button : Button) : Bool := held.bits.getLsbD button.bit

def release (held : HeldButtons) (button : Button) : Bool × HeldButtons :=
  (held.isHeld button, ⟨Bits.remove held.bits button.bit⟩)

def drain (held : HeldButtons) : List Button × HeldButtons := (Button.all.filter held.isHeld, none)

variable {held : HeldButtons} {button other : Button}

theorem bit_lt : button.bit < 8 := by cases button <;> decide

theorem bit_eq_iff : button.bit = other.bit ↔ button = other := by cases button <;> cases other <;> decide

@[simp] theorem isHeld_none : none.isHeld button = false := by simp [none, isHeld]

theorem isHeld_press : (held.press button).isHeld other = (held.isHeld other || decide (button = other)) := by
  simp only [press, isHeld, Bits.getLsbD_insert bit_lt, bit_eq_iff]

theorem isHeld_release : (held.release button).2.isHeld other = (held.isHeld other && decide (button ≠ other)) := by
  simp only [release, isHeld, Bits.getLsbD_remove, ne_eq, bit_eq_iff]

theorem mem_drain : button ∈ held.drain.1 ↔ held.isHeld button = true := by
  have hall : button ∈ Button.all := by cases button <;> decide
  simp [drain, hall]

end HeldButtons

/-! ## The cursor -/

abbrev ShapeId := UInt64

structure Pointer where
  x : Int
  y : Int
  visible : Bool
  shape : ShapeId
  deriving DecidableEq, Repr

structure PointerShape where
  hotspotX : UInt16
  hotspotY : UInt16
  width : UInt16
  height : UInt16
  pixels : Bytes
  deriving DecidableEq, Repr

/-- The shapes the client was told about, the last used first. -/
structure ShapeCache where
  recent : List ShapeId
  capacity : Nat
  deriving DecidableEq, Repr

/-- Whether the bitmap must be sent, and the cache afterwards. -/
def ShapeCache.observe (cache : ShapeCache) (id : ShapeId) : Bool × ShapeCache :=
  if cache.capacity = 0 then (true, cache)
  else if cache.recent.contains id then (false, { cache with recent := id :: cache.recent.erase id })
  else (true, { cache with recent := (id :: cache.recent).take cache.capacity })

structure Emission where
  position : Option Pointer
  shape : Option ShapeId
  deriving DecidableEq, Repr

structure CursorPolicy where
  cache : ShapeCache
  last : Option Pointer
  deriving DecidableEq, Repr

namespace CursorPolicy

def new (capacity : Nat) : CursorPolicy := ⟨⟨[], capacity⟩, none⟩

def observe (policy : CursorPolicy) (current : Pointer) : Emission × CursorPolicy :=
  let (needsBitmap, cache) := policy.cache.observe current.shape
  let moved := policy.last ≠ some current
  (⟨if moved ∨ needsBitmap then some current else none, if needsBitmap then some current.shape else none⟩,
    ⟨cache, some current⟩)

def forget (policy : CursorPolicy) : CursorPolicy := ⟨{ policy.cache with recent := [] }, none⟩

end CursorPolicy

/-! ## Messages -/

inductive Refusal where
  | notPermitted
  | inputDisabled
  | secureDesktop
  | elevatedWindow
  | notLive
  | unmappable
  deriving DecidableEq, Repr

structure FrameBegin where
  monitor : UInt8
  sequence : UInt64
  width : Nat
  height : Nat
  keyframe : Bool
  deriving DecidableEq, Repr

inductive Message where
  | hello
  | status (notice : Notice)
  | frameBegin (frame : FrameBegin)
  | tile (monitor : UInt8) (update : TileUpdate)
  | frameEnd (sequence : UInt64)
  | cursorPos (x y : Int) (visible : Bool)
  | cursorShape (id : ShapeId) (shape : PointerShape)
  | inputRefused (reason : Refusal)
  | key (usage : Usage) (down : Bool)
  | text (text : Str)
  | pointerMove (monitor : UInt8) (x y : Int)
  | button (button : Button) (down : Bool)
  | scroll (dx dy : Int)
  | releaseAll
  | requestFullFrame (monitor : UInt8)
  | credit (bytes : UInt32)
  deriving DecidableEq

namespace Message

/-- Whether a message travels to the agent. -/
def isToAgent : Message → Bool
  | .key _ _ | .text _ | .pointerMove _ _ _ | .button _ _ | .scroll _ _ | .releaseAll | .requestFullFrame _
  | .credit _ => true
  | _ => false

/-- Whether a message is an input event. -/
def isInput : Message → Bool
  | .key _ _ | .text _ | .pointerMove _ _ _ | .button _ _ | .scroll _ _ => true
  | _ => false

/-- The bytes of the messages that are charged to the client's window. -/
def encodedLen : Message → Nat
  | .tile _ update => 11 + update.payload.length
  | .cursorPos _ _ _ => 10
  | .cursorShape _ shape => 21 + shape.pixels.length
  | _ => 0

end Message

def maxCursorEdge : Nat := 128

/-- A cursor bitmap as a message, when its size is what it claims. -/
def cursorMessage (id : ShapeId) (shape : PointerShape) : Option Message :=
  if shape.width = 0 ∨ shape.height = 0 then none
  else if shape.width.toNat > maxCursorEdge ∨ shape.height.toNat > maxCursorEdge then none
  else if shape.pixels.length ≠ shape.width.toNat * shape.height.toNat * 4 then none
  else some (.cursorShape id shape)

end Selfhost.Desk

/-! # The client's picture -/

namespace Selfhost.Desk

open Selfhost.Lib

/-- The picture of one display, under the tile size the stream was opened with. -/
structure Screen where
  tile : TileSize
  frame : Option Surface
  grid : Option Grid
  deriving DecidableEq

namespace Screen

def new (tile : TileSize) : Screen := ⟨tile, none, none⟩

def rebuilds (screen : Screen) (frame : FrameBegin) : Bool :=
  match screen.frame with
  | some surface => surface.width ≠ frame.width ∨ surface.height ≠ frame.height
  | none => true

/-- A frame begins: the surface is rebuilt when the display has changed its size. -/
def begin (screen : Screen) (frame : FrameBegin) : Except TileError Screen := do
  let surface ← if screen.rebuilds frame then (Surface.blank frame.width frame.height).map some else pure screen.frame
  let grid ← Grid.new screen.tile frame.width frame.height
  return { screen with frame := surface, grid := some grid }

/-- Places one tile; a coordinate outside the grid is passed over. -/
def place (screen : Screen) (update : TileUpdate) : Except TileError Screen :=
  match screen.frame, screen.grid with
  | some surface, some grid =>
      match grid.bounds update.coord with
      | .error _ => .ok screen
      | .ok rect =>
          match decodeTile update.encoding update.payload (rect.width * rect.height) with
          | .error error => .error error
          | .ok .unchanged => .ok screen
          | .ok (.pixels pixels) => (surface.putTile rect pixels).map fun surface => { screen with frame := some surface }
  | _, _ => .ok screen

/-- What one message does to the picture. -/
def take (screen : Screen) : Message → Except TileError Screen
  | .frameBegin frame => screen.begin frame
  | .tile _ update => screen.place update
  | _ => .ok screen

/-- What a client shows that was sent these messages. -/
def shown (tile : TileSize) (messages : List Message) : Except TileError Screen := messages.foldlM take (new tile)

end Screen

end Selfhost.Desk
