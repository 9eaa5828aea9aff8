import Selfhost.Lib.Raster

/-!
# Tiles

A frame is cut into square tiles. A tile that changed is sent in the smallest of its encodings and written over its
place.
-/

namespace Selfhost.Desk

open Selfhost.Lib

def maxEdge : Nat := 32768

def maxTilePixels : Nat := 128 * 128

def bytesPerPixel : Nat := 4

inductive Encoding where
  | raw
  | rle
  | unchanged
  | solid
  deriving DecidableEq, Repr

inductive TileError where
  | badTileSize (edge : Nat)
  | badDimension (value : Nat)
  | sizeMismatch (expected actual : Nat)
  | zeroRun
  | runOverruns (tile : Nat)
  | payloadMismatch (encoding : Encoding) (actual : Nat)
  | badTilePixels (pixels : Nat)
  | outsideSurface
  | outOfGrid (col row : Nat)
  | overflow (what : String)
  deriving DecidableEq, Repr

/-! ## Geometry -/

structure TileSize where
  edge : Nat
  legal : edge ∈ [16, 32, 64, 128]
  deriving DecidableEq, Repr

def TileSize.new (edge : Nat) : Except TileError TileSize :=
  if h : edge ∈ [16, 32, 64, 128] then .ok ⟨edge, h⟩ else .error (.badTileSize edge)

structure Rect where
  x : Nat
  y : Nat
  width : Nat
  height : Nat
  deriving DecidableEq, Repr

structure TileCoord where
  col : Nat
  row : Nat
  deriving DecidableEq, Repr

/-- A dimension the codec describes. -/
def LegalEdge (value : Nat) : Prop := value ≠ 0 ∧ value ≤ maxEdge

instance (value : Nat) : Decidable (LegalEdge value) := inferInstanceAs (Decidable (_ ∧ _))

structure Grid where
  size : TileSize
  width : Nat
  height : Nat
  legalWidth : LegalEdge width
  legalHeight : LegalEdge height
  deriving DecidableEq

namespace Grid

def new (size : TileSize) (width height : Nat) : Except TileError Grid :=
  if hw : LegalEdge width then
    if hh : LegalEdge height then .ok ⟨size, width, height, hw, hh⟩ else .error (.badDimension height)
  else .error (.badDimension width)

def cols (grid : Grid) : Nat := (grid.width + grid.size.edge - 1) / grid.size.edge

def rows (grid : Grid) : Nat := (grid.height + grid.size.edge - 1) / grid.size.edge

def bounds (grid : Grid) (coord : TileCoord) : Except TileError Rect :=
  if coord.col ≥ grid.cols ∨ coord.row ≥ grid.rows then .error (.outOfGrid coord.col coord.row)
  else
    let x := coord.col * grid.size.edge
    let y := coord.row * grid.size.edge
    .ok ⟨x, y, min grid.size.edge (grid.width - x), min grid.size.edge (grid.height - y)⟩

/-- Row after row. -/
def coords (grid : Grid) : List TileCoord :=
  (List.range grid.rows).flatMap fun row => (List.range grid.cols).map fun col => ⟨col, row⟩

end Grid

/-! ## Surfaces -/

/-- Tight rows of pixels. -/
structure Surface where
  width : Nat
  height : Nat
  pixels : Bytes
  legalWidth : LegalEdge width
  legalHeight : LegalEdge height
  sized : pixels.length = height * (width * bytesPerPixel)
  deriving DecidableEq

namespace Surface

def blank (width height : Nat) : Except TileError Surface :=
  if hw : LegalEdge width then
    if hh : LegalEdge height then
      .ok ⟨width, height, List.replicate (height * (width * bytesPerPixel)) 0, hw, hh, List.length_replicate⟩
    else .error (.badDimension height)
  else .error (.badDimension width)

def stride (surface : Surface) : Nat := surface.width * bytesPerPixel

/-- `clip`. -/
def Holds (surface : Surface) (rect : Rect) : Prop :=
  rect.x + rect.width ≤ surface.width ∧ rect.y + rect.height ≤ surface.height

instance (surface : Surface) (rect : Rect) : Decidable (surface.Holds rect) := inferInstanceAs (Decidable (_ ∧ _))

theorem Holds.inRaster {surface : Surface} {rect : Rect} (h : surface.Holds rect) :
    InRaster surface.pixels surface.stride (rect.x * bytesPerPixel) rect.y (rect.width * bytesPerPixel) rect.height where
  cols := by
    rw [← Nat.add_mul, stride]
    exact Nat.mul_le_mul_right _ h.1
  rows := by
    rw [surface.sized]
    exact Nat.mul_le_mul_right _ h.2

def tile (surface : Surface) (rect : Rect) : Except TileError Bytes :=
  if surface.Holds rect then
    .ok (window surface.pixels surface.stride (rect.x * bytesPerPixel) rect.y (rect.width * bytesPerPixel) rect.height)
  else .error .outsideSurface

def putTile (surface : Surface) (rect : Rect) (pixels : Bytes) : Except TileError Surface :=
  if hin : surface.Holds rect then
    let expected := rect.height * (rect.width * bytesPerPixel)
    if hlen : pixels.length = expected then
      .ok { surface with
        pixels := paint surface.pixels surface.stride (rect.x * bytesPerPixel) rect.y (rect.width * bytesPerPixel)
          rect.height pixels
        sized := by rw [length_paint hin.inRaster (Nat.le_of_eq hlen.symm)]; exact surface.sized }
    else .error (.sizeMismatch expected pixels.length)
  else .error .outsideSurface

end Surface

/-! ## Encoding a tile -/

structure Pixel where
  blue : UInt8
  green : UInt8
  red : UInt8
  alpha : UInt8
  deriving DecidableEq, Repr

def Pixel.bytes (pixel : Pixel) : Bytes := [pixel.blue, pixel.green, pixel.red, pixel.alpha]

/-- `chunks_exact` of four bytes. -/
def pixelsOf : Bytes → List Pixel
  | blue :: green :: red :: alpha :: rest => ⟨blue, green, red, alpha⟩ :: pixelsOf rest
  | _ => []

/-- The loop over the pixels behind the run that is being counted. -/
def rleLoop (current : Pixel) (count : Nat) : List Pixel → Bytes
  | [] => UInt8.ofNat count :: current.bytes
  | pixel :: rest =>
      if pixel = current ∧ count < 255 then rleLoop current (count + 1) rest
      else UInt8.ofNat count :: (current.bytes ++ rleLoop pixel 1 rest)

def rleEncode (tile : Bytes) : Bytes :=
  match pixelsOf tile with
  | [] => []
  | current :: rest => rleLoop current 1 rest

def encodeTile (tile : Bytes) : Except TileError (Encoding × Bytes) :=
  let pixels := tile.length / bytesPerPixel
  if tile = [] ∨ tile.length % bytesPerPixel ≠ 0 ∨ pixels > maxTilePixels then .error (.badTilePixels pixels)
  else
    match pixelsOf tile with
    | [] => .error (.badTilePixels pixels)
    | first :: rest =>
        if (first :: rest).all (· = first) then .ok (.solid, first.bytes)
        else
          let runs := rleEncode tile
          if runs.length < tile.length then .ok (.rle, runs) else .ok (.raw, tile)

/-! ## Decoding a tile -/

inductive Decoded where
  | unchanged
  | pixels (bytes : Bytes)
  deriving DecidableEq, Repr

/-- The loop over the records of a run-length payload. -/
def rleRecords (pixels : Nat) : Nat → Bytes → Bytes → Except TileError Decoded
  | produced, out, count :: blue :: green :: red :: alpha :: rest =>
      if count = 0 then .error .zeroRun
      else
        let produced := produced + count.toNat
        if produced > pixels then .error (.runOverruns pixels)
        else
          let colour : Pixel := ⟨blue, green, red, alpha⟩
          rleRecords pixels produced (out ++ (List.replicate count.toNat colour).flatMap Pixel.bytes) rest
  | produced, out, _ => if produced ≠ pixels then .error (.runOverruns pixels) else .ok (.pixels out)

def decodeRle (payload : Bytes) (pixels : Nat) : Except TileError Decoded :=
  if payload.length % (1 + bytesPerPixel) ≠ 0 ∨ payload = [] then .error (.payloadMismatch .rle payload.length)
  else rleRecords pixels 0 [] payload

def decodeTile (encoding : Encoding) (payload : Bytes) (pixels : Nat) : Except TileError Decoded :=
  if pixels = 0 ∨ pixels > maxTilePixels then .error (.badTilePixels pixels)
  else
    match encoding with
    | .unchanged => if payload = [] then .ok .unchanged else .error (.payloadMismatch .unchanged payload.length)
    | .raw =>
        if payload.length ≠ pixels * bytesPerPixel then .error (.payloadMismatch .raw payload.length)
        else .ok (.pixels payload)
    | .solid =>
        if payload.length = bytesPerPixel then .ok (.pixels (List.replicate pixels payload).flatten)
        else .error (.payloadMismatch .solid payload.length)
    | .rle => decodeRle payload pixels

/-! ## Updates -/

structure TileUpdate where
  coord : TileCoord
  encoding : Encoding
  payload : Bytes
  deriving DecidableEq, Repr

/-- One tile of a surface as an update. -/
def updateOf (grid : Grid) (surface : Surface) (coord : TileCoord) : Except TileError TileUpdate := do
  let bounds ← grid.bounds coord
  let pixels ← surface.tile bounds
  let (encoding, payload) ← encodeTile pixels
  return ⟨coord, encoding, payload⟩

def encodeEach (grid : Grid) (surface : Surface) : List TileCoord → Except TileError (List TileUpdate)
  | [] => .ok []
  | coord :: rest => do
      let update ← updateOf grid surface coord
      let updates ← encodeEach grid surface rest
      return update :: updates

/-- The tiles at some coordinates. -/
def encodeTiles (surface : Surface) (size : TileSize) (coords : List TileCoord) : Except TileError (List TileUpdate) := do
  let grid ← Grid.new size surface.width surface.height
  encodeEach grid surface coords

/-- The loop of `diff` over the tiles of the grid. -/
def diffLoop (grid : Grid) (previous : Option Surface) (current : Surface) :
    List TileCoord → Except TileError (List TileUpdate)
  | [] => .ok []
  | coord :: rest => do
      let bounds ← grid.bounds coord
      let tile ← current.tile bounds
      let same ← match previous with
        | none => pure false
        | some previous => (previous.tile bounds).map (· == tile)
      if same then diffLoop grid previous current rest
      else do
        let update ← updateOf grid current coord
        let updates ← diffLoop grid previous current rest
        return update :: updates

def diff (previous : Option Surface) (current : Surface) (size : TileSize) : Except TileError (List TileUpdate) := do
  match previous with
  | some held =>
      if held.width ≠ current.width ∨ held.height ≠ current.height then
        throw (.sizeMismatch held.pixels.length current.pixels.length)
  | none => pure ()
  let grid ← Grid.new size current.width current.height
  diffLoop grid previous current grid.coords

end Selfhost.Desk
