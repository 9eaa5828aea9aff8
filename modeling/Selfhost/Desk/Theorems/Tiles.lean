import Mathlib.Data.List.Destutter
import Selfhost.Desk.Lemmas.Tiles

/-!
# Tiles on a surface that somebody else describes

Applying a diff makes one frame of another. Whatever an update carries, it fails before the first pixel or fills its
own tile. The damage of a frame is the tiles its rectangles meet.
-/

namespace Selfhost.Desk

open Selfhost.Lib

/-! ## Writing in place -/

/-- The place in the buffer of a tile row. -/
def rowOffset (surface : Surface) (rect : Rect) (row : Nat) : Nat :=
  ((rect.y + row) * surface.width + rect.x) * bytesPerPixel

/-- The loop of `put_tile`: rows are written one after the other, up to the first that does not fit. -/
def putRows (surface : Surface) (rect : Rect) (source : Bytes) : List Nat → Bytes → Option TileError × Bytes
  | [], pixels => (none, pixels)
  | row :: rows, pixels =>
      let rowBytes := rect.width * bytesPerPixel
      let offset := rowOffset surface rect row
      if offset + rowBytes > pixels.length then (some (.overflow "tile row"), pixels)
      else if row * rowBytes + rowBytes > source.length then (some (.overflow "tile row"), pixels)
      else
        putRows surface rect source rows (overwrite pixels offset ((source.drop (row * rowBytes)).take rowBytes))

theorem length_putRows (surface : Surface) (rect : Rect) (source : Bytes) (rows : List Nat) (pixels : Bytes) :
    (putRows surface rect source rows pixels).2.length = pixels.length := by
  induction rows generalizing pixels with
  | nil => rfl
  | cons row rows ih =>
      simp only [putRows]
      split
      · rfl
      · split
        · rfl
        · rw [ih, length_overwrite]
          rw [List.length_take, List.length_drop]
          omega

namespace Surface

/-- `put_tile` on the surface itself: what was written before a failure stays written. -/
def writeTile (surface : Surface) (rect : Rect) (pixels : Bytes) : Option TileError × Surface :=
  if surface.Holds rect then
    let expected := rect.width * bytesPerPixel * rect.height
    if pixels.length ≠ expected then (some (.sizeMismatch expected pixels.length), surface)
    else
      let written := putRows surface rect pixels (List.range rect.height) surface.pixels
      (written.1, { surface with pixels := written.2, sized := by rw [length_putRows]; exact surface.sized })
  else (some .outsideSurface, surface)

end Surface

/-- One update on the surface of a client. -/
def apply (surface : Surface) (size : TileSize) (update : TileUpdate) : Option TileError × Surface :=
  match Grid.new size surface.width surface.height with
  | .error error => (some error, surface)
  | .ok grid =>
      match grid.bounds update.coord with
      | .error error => (some error, surface)
      | .ok bounds =>
          match decodeTile update.encoding update.payload (bounds.width * bounds.height) with
          | .error error => (some error, surface)
          | .ok .unchanged => (none, surface)
          | .ok (.pixels decoded) => surface.writeTile bounds decoded

/-- The updates of a frame, up to the first that fails. -/
def applyAll (size : TileSize) : List TileUpdate → Surface → Option TileError × Surface
  | [], surface => (none, surface)
  | update :: updates, surface =>
      match apply surface size update with
      | (none, surface) => applyAll size updates surface
      | (some error, surface) => (some error, surface)

/-! ## What decodes has its size -/

theorem length_rleRecords {pixels produced : Nat} {out payload : Bytes} {decoded : Decoded}
    (hout : out.length = produced * bytesPerPixel) (h : rleRecords pixels produced out payload = .ok decoded) :
    ∃ bytes, decoded = .pixels bytes ∧ bytes.length = pixels * bytesPerPixel := by
  fun_induction rleRecords pixels produced out payload with
  | case1 produced out blue green red alpha rest => cases h
  | case2 produced out count blue green red alpha rest hzero total hover => cases h
  | case3 produced out count blue green red alpha rest hzero total hover colour ih =>
      refine ih ?_ h
      rw [List.length_append, length_flatMap_bytes, List.length_replicate, hout, ← Nat.add_mul]
  | case4 payload produced out hne hshort => cases h
  | case5 payload produced out heq hshort =>
      cases h
      exact ⟨_, rfl, by rw [hout, not_not.mp heq]⟩

/-- A payload fails, says that nothing changed, or gives every pixel of the tile and no other. -/
theorem decodeTile_sized {encoding : Encoding} {payload : Bytes} {pixels : Nat} {decoded : Decoded}
    (h : decodeTile encoding payload pixels = .ok decoded) :
    decoded = .unchanged ∧ encoding = .unchanged ∧ payload = [] ∨
      ∃ bytes, decoded = .pixels bytes ∧ bytes.length = pixels * bytesPerPixel := by
  unfold decodeTile at h
  split at h
  · cases h
  · cases encoding with
    | raw =>
        dsimp only at h
        split at h
        · cases h
        · rename_i hlen
          cases h
          exact .inr ⟨_, rfl, not_not.mp hlen⟩
    | rle =>
        dsimp only [decodeRle] at h
        split at h
        · cases h
        · exact .inr (length_rleRecords (by simp) h)
    | unchanged =>
        dsimp only at h
        split at h
        · rename_i hempty
          cases h
          exact .inl ⟨rfl, rfl, hempty⟩
        · cases h
    | solid =>
        dsimp only at h
        split at h
        · rename_i hlen
          cases h
          refine .inr ⟨_, rfl, ?_⟩
          simp [hlen]
        · cases h

/-! ## What is written -/

theorem putRows_eq {surface : Surface} {rect : Rect} {source : Bytes} (hin : surface.Holds rect)
    (hsource : source.length = rect.height * (rect.width * bytesPerPixel)) (rows : List Nat) (pixels : Bytes)
    (hpixels : pixels.length = surface.pixels.length) (hrows : ∀ row ∈ rows, row < rect.height) :
    putRows surface rect source rows pixels =
      (none, rows.foldl (fun l r => overwrite l ((rect.y + r) * surface.stride + rect.x * bytesPerPixel)
        ((source.drop (r * (rect.width * bytesPerPixel))).take (rect.width * bytesPerPixel))) pixels) := by
  induction rows generalizing pixels with
  | nil => rfl
  | cons row rows ih =>
      have hrow := hrows row List.mem_cons_self
      have hfits := hin.inRaster.row hrow
      have hoffset : rowOffset surface rect row = (rect.y + row) * surface.stride + rect.x * bytesPerPixel := by
        rw [rowOffset, Nat.add_mul, Nat.mul_assoc]
        rfl
      have htaken : (row + 1) * (rect.width * bytesPerPixel) ≤ rect.height * (rect.width * bytesPerPixel) :=
        Nat.mul_le_mul_right _ hrow
      rw [Nat.succ_mul] at htaken
      simp only [putRows, hoffset, List.foldl_cons]
      rw [if_neg (by omega), if_neg (by omega)]
      refine ih _ ?_ fun row hmem => hrows row (List.mem_cons_of_mem _ hmem)
      rw [length_overwrite _, hpixels]
      rw [List.length_take, List.length_drop]
      omega

namespace Surface

variable {surface : Surface} {rect : Rect} {pixels : Bytes}

/-- Written in place or to a new surface, a tile leaves the same picture. -/
theorem writeTile_eq (surface : Surface) (rect : Rect) (pixels : Bytes) :
    surface.writeTile rect pixels =
      match surface.putTile rect pixels with
      | .ok after => (none, after)
      | .error error => (some error, surface) := by
  have hcomm : rect.width * bytesPerPixel * rect.height = rect.height * (rect.width * bytesPerPixel) := Nat.mul_comm _ _
  unfold writeTile putTile
  by_cases hin : surface.Holds rect
  · simp only [if_pos hin, dif_pos hin, hcomm]
    by_cases hlen : pixels.length = rect.height * (rect.width * bytesPerPixel)
    · rw [if_neg (not_not.mpr hlen), dif_pos hlen]
      have hput := putRows_eq hin hlen (List.range rect.height) surface.pixels rfl (by simp)
      simp only [hput]
      rfl
    · rw [if_pos hlen, dif_neg hlen]
  · rw [if_neg hin, dif_neg hin]

end Surface

/-! ## One update -/

section

variable {surface : Surface} {size : TileSize} {update : TileUpdate} {bounds : Rect}

/-- An update fails before the first pixel, leaves the surface alone, or writes its own tile. -/
theorem apply_cases (surface : Surface) (size : TileSize) (update : TileUpdate) :
    (∃ error, apply surface size update = (some error, surface)) ∨
      update.coord ∈ (surface.grid size).coords ∧
        (apply surface size update = (none, surface) ∨
          ∃ pixels after, decodeTile update.encoding update.payload
              (((surface.grid size).rect update.coord).width * ((surface.grid size).rect update.coord).height) =
                .ok (.pixels pixels) ∧
            surface.putTile ((surface.grid size).rect update.coord) pixels = .ok after ∧
            apply surface size update = (none, after)) := by
  simp only [apply, Surface.grid_new]
  cases hbounds : (surface.grid size).bounds update.coord with
  | error error => exact .inl ⟨error, rfl⟩
  | ok bounds =>
      obtain ⟨hmem, rfl⟩ := Grid.bounds_ok hbounds
      dsimp only
      cases hdecode : decodeTile update.encoding update.payload
          (((surface.grid size).rect update.coord).width * ((surface.grid size).rect update.coord).height) with
      | error error => exact .inl ⟨error, rfl⟩
      | ok decoded =>
          cases decoded with
          | unchanged => exact .inr ⟨hmem, .inl rfl⟩
          | pixels pixels =>
              dsimp only
              rw [Surface.writeTile_eq]
              cases hput : surface.putTile ((surface.grid size).rect update.coord) pixels with
              | error error => exact .inl ⟨error, rfl⟩
              | ok after => exact .inr ⟨hmem, .inr ⟨pixels, after, rfl, hput, rfl⟩⟩

/-- An update that bears the pixels of a tile puts them there, and what lies beside is as it was. -/
theorem apply_encodes {current : Surface} (hwidth : surface.width = current.width)
    (hheight : surface.height = current.height) (h : Surface.Encodes size current update) :
    ∃ after, apply surface size update = (none, after) ∧ after.width = current.width ∧
      after.height = current.height ∧ Surface.SameTile size update.coord current after ∧
      ∀ coord ∈ (current.grid size).coords, coord ≠ update.coord →
        after.tileBytes ((current.grid size).rect coord) = surface.tileBytes ((current.grid size).rect coord) := by
  have hgrid : surface.grid size = current.grid size := by
    simp only [Surface.grid, hwidth, hheight]
  have hlen := Surface.length_tileBytes (Surface.holds_rect h.inGrid)
  have hholds : ∀ coord ∈ (current.grid size).coords, surface.Holds ((current.grid size).rect coord) := by
    intro coord hmem
    rw [← hgrid] at hmem ⊢
    exact Surface.holds_rect hmem
  obtain ⟨after, hput, hw, hh, hhere, hbeside⟩ := Surface.putTile_ok (hholds _ h.inGrid) hlen
  have hdecode := decodeTile_encodeTile h.encoded
  rw [hlen, ← Nat.mul_assoc, Nat.mul_div_cancel _ (by decide), Nat.mul_comm] at hdecode
  refine ⟨after, ?_, by rw [hw, hwidth], by rw [hh, hheight], hhere.symm, fun coord hmem hne => ?_⟩
  · simp only [apply, Surface.grid_new, hgrid, Grid.bounds_of_mem h.inGrid, hdecode]
    rw [Surface.writeTile_eq, hput]
  · exact hbeside _ (hholds coord hmem) (Grid.rect_beside (Ne.symm hne))

end

/-! ## A whole frame -/

/-- What a diff names carries the new frame, and what it does not name was the same before. -/
structure Bridges (size : TileSize) (current : Surface) (updates : List TileUpdate) (surface : Surface) : Prop where
  width : surface.width = current.width
  height : surface.height = current.height
  rest : ∀ coord ∈ (current.grid size).coords, coord ∉ updates.map TileUpdate.coord →
    Surface.SameTile size coord current surface

theorem applyAll_bridges {size : TileSize} {current : Surface} {updates : List TileUpdate} {surface : Surface}
    (hencodes : ∀ update ∈ updates, Surface.Encodes size current update)
    (h : Bridges size current updates surface) : applyAll size updates surface = (none, current) := by
  induction updates generalizing surface with
  | nil =>
      have hsame : current = surface :=
        Surface.eq_of_tiles h.width.symm h.height.symm fun coord hmem => h.rest coord hmem (by simp)
      rw [applyAll, hsame]
  | cons update updates ih =>
      obtain ⟨after, happly, hw, hh, hhere, hbeside⟩ :=
        apply_encodes h.width h.height (hencodes update List.mem_cons_self)
      rw [applyAll, happly]
      refine ih (fun update hmem => hencodes update (List.mem_cons_of_mem _ hmem)) ⟨hw, hh, fun coord hmem hnot => ?_⟩
      by_cases hcoord : coord = update.coord
      · rw [hcoord]
        exact hhere
      · have hbefore := h.rest coord hmem (by simp [hcoord, hnot])
        exact hbefore.trans (hbeside coord hmem hcoord).symm

/-! ## Diff and apply -/

/-- What a diff against a frame sends is not what the frame shows there. -/
theorem diffLoop_differs {grid : Grid} {previous current : Surface} {coords : List TileCoord}
    {updates : List TileUpdate} (h : diffLoop grid (some previous) current coords = .ok updates) :
    ∀ update ∈ updates, ∃ bounds, grid.bounds update.coord = .ok bounds ∧
      previous.tile bounds ≠ current.tile bounds := by
  induction coords generalizing updates with
  | nil =>
      cases h
      simp
  | cons coord rest ih =>
      rw [diffLoop] at h
      obtain ⟨bounds, hbounds, h⟩ := bind_ok h
      obtain ⟨tile, htile, h⟩ := bind_ok h
      obtain ⟨same, hsame, h⟩ := bind_ok h
      obtain ⟨held, hheld, rfl⟩ := map_ok hsame
      dsimp only at h
      split at h
      · exact ih h
      · rename_i hdiffers
        obtain ⟨update, hupdate, h⟩ := bind_ok h
        obtain ⟨others, hothers, h⟩ := bind_ok h
        cases h
        refine List.forall_mem_cons.mpr ⟨⟨bounds, ?_, ?_⟩, ih hothers⟩
        · obtain ⟨_, _, h⟩ := bind_ok hupdate
          obtain ⟨_, _, h⟩ := bind_ok h
          obtain ⟨_, _, h⟩ := bind_ok h
          cases h
          exact hbounds
        · rw [hheld, htile]
          intro heq
          cases heq
          simp at hdiffers

theorem diff_differs {previous current : Surface} {size : TileSize} {updates : List TileUpdate}
    (h : diff (some previous) current size = .ok updates) : ∀ update ∈ updates,
      ∃ bounds, (current.grid size).bounds update.coord = .ok bounds ∧ previous.tile bounds ≠ current.tile bounds := by
  rw [diff] at h
  dsimp only at h
  split at h
  · obtain ⟨_, hthrow, _⟩ := bind_ok h
    cases hthrow
  · rw [Surface.grid_new] at h
    exact diffLoop_differs h

/-- The updates between two frames of one size make the one of the other, and bear nothing that is the same in both.
The updates of a frame alone make it of any surface of its size. -/
theorem diff_apply_inverse (size : TileSize) (previous current : Surface) (hwidth : previous.width = current.width)
    (hheight : previous.height = current.height) :
    (∃ updates, diff (some previous) current size = .ok updates ∧
      applyAll size updates previous = (none, current) ∧
      ∀ update ∈ updates, ∃ bounds, (current.grid size).bounds update.coord = .ok bounds ∧
        previous.tile bounds ≠ current.tile bounds) ∧
    ∃ updates, diff none current size = .ok updates ∧ applyAll size updates previous = (none, current) := by
  constructor
  · obtain ⟨updates, hdiff, hencodes, hrest⟩ := @Surface.diff_ok current size (some previous) fun held hheld => by
      cases hheld
      exact ⟨hwidth, hheight⟩
    refine ⟨updates, hdiff, applyAll_bridges hencodes ⟨hwidth, hheight, fun coord hmem hnot => ?_⟩, diff_differs hdiff⟩
    obtain ⟨held, hheld, hsame⟩ := hrest coord hmem hnot
    cases hheld
    exact hsame
  · obtain ⟨updates, hdiff, hencodes, hrest⟩ := @Surface.diff_ok current size none (by simp)
    refine ⟨updates, hdiff, applyAll_bridges hencodes ⟨hwidth, hheight, fun coord hmem hnot => ?_⟩⟩
    obtain ⟨held, hheld, -⟩ := hrest coord hmem hnot
    cases hheld

/-- A frame of two by two tiles, those at the right and at the bottom short, that is black but for its last byte. -/
def cornerFrame (last : UInt8) : Surface :=
  ⟨20, 17, List.replicate 1359 0 ++ [last], by decide, by decide, by rw [List.length_append, List.length_replicate]; rfl⟩

/-- Only the last of the four tiles differs. -/
theorem diff_apply_inverse_corner :
    (∃ updates, diff (some (cornerFrame 0)) (cornerFrame 1) ⟨16, by decide⟩ = .ok updates ∧
      updates.map TileUpdate.coord = [⟨1, 1⟩] ∧
      applyAll ⟨16, by decide⟩ updates (cornerFrame 0) = (none, cornerFrame 1)) ∧
    ∃ updates, diff none (cornerFrame 1) ⟨16, by decide⟩ = .ok updates ∧
      applyAll ⟨16, by decide⟩ updates (cornerFrame 0) = (none, cornerFrame 1) := by
  obtain ⟨⟨updates, hdiff, happly, -⟩, hwhole⟩ :=
    diff_apply_inverse ⟨16, by decide⟩ (cornerFrame 0) (cornerFrame 1) rfl rfl
  refine ⟨⟨updates, hdiff, ?_, happly⟩, hwhole⟩
  have hcoords : (diff (some (cornerFrame 0)) (cornerFrame 1) ⟨16, by decide⟩).toOption.map
      (List.map TileUpdate.coord) = some [⟨1, 1⟩] := by decide +kernel
  rw [hdiff] at hcoords
  exact Option.some.inj hcoords

/-! ## Hostile tiles -/

/-- The bytes of one pixel. -/
def Surface.pixel (surface : Surface) (x y : Nat) : Bytes := surface.tileBytes ⟨x, y, 1, 1⟩

/-- A pixel lies in a rectangle. -/
def Rect.Contains (rect : Rect) (x y : Nat) : Prop :=
  rect.x ≤ x ∧ x < rect.x + rect.width ∧ rect.y ≤ y ∧ y < rect.y + rect.height

/-- Whatever an update carries, its tile decodes to no other length than its own, or to nothing at all for the
encoding that says so; applying it fails and leaves the surface as it was, or touches no pixel of another tile. -/
theorem hostile_tile_harmless (surface : Surface) (size : TileSize) (update : TileUpdate) :
    (∀ bounds decoded, (surface.grid size).bounds update.coord = .ok bounds →
      decodeTile update.encoding update.payload (bounds.width * bounds.height) = .ok decoded →
        decoded = .unchanged ∧ update.encoding = .unchanged ∧ update.payload = [] ∨
          ∃ bytes, decoded = .pixels bytes ∧ bytes.length = bounds.width * bounds.height * 4) ∧
    (∀ error after, apply surface size update = (some error, after) → after = surface) ∧
    ∀ after, apply surface size update = (none, after) →
      after.width = surface.width ∧ after.height = surface.height ∧
        ∃ bounds, (surface.grid size).bounds update.coord = .ok bounds ∧
          ∀ x < surface.width, ∀ y < surface.height, ¬ bounds.Contains x y → after.pixel x y = surface.pixel x y := by
  refine ⟨fun bounds decoded _ hdecode => decodeTile_sized hdecode, ?_, ?_⟩
  · intro error after h
    rcases apply_cases surface size update with ⟨_, hfails⟩ | ⟨_, hsame | ⟨_, _, _, _, hwrites⟩⟩
    · rw [hfails] at h
      cases h
      rfl
    · rw [hsame] at h
      cases h
    · rw [hwrites] at h
      cases h
  · intro after h
    rcases apply_cases surface size update with ⟨_, hfails⟩ | ⟨hmem, hsame | ⟨pixels, written, hdecode, hput, hwrites⟩⟩
    · rw [hfails] at h
      cases h
    · rw [hsame] at h
      cases h
      exact ⟨rfl, rfl, _, Grid.bounds_of_mem hmem, fun _ _ _ _ _ => rfl⟩
    · rw [hwrites] at h
      cases h
      have hlen : pixels.length = ((surface.grid size).rect update.coord).height *
          (((surface.grid size).rect update.coord).width * bytesPerPixel) := by
        obtain ⟨hnone, -⟩ | ⟨bytes, hbytes, hlen⟩ := decodeTile_sized hdecode
        · cases hnone
        · cases hbytes
          rw [hlen, Nat.mul_right_comm, Nat.mul_comm]
      obtain ⟨after, hput', hw, hh, -, hbeside⟩ := Surface.putTile_ok (Surface.holds_rect hmem) hlen
      rw [hput] at hput'
      cases hput'
      refine ⟨hw, hh, _, Grid.bounds_of_mem hmem, fun x hx y hy hout => ?_⟩
      refine hbeside ⟨x, y, 1, 1⟩ ⟨hx, hy⟩ ?_
      simp only [Rect.Contains] at hout
      dsimp only
      omega

/-- The encoding that says nothing changed yields no pixels. -/
theorem unchanged_decodes_to_nothing :
    ¬ ∀ (encoding : Encoding) (payload : Bytes) (width height : Nat),
      (∃ error, decodeTile encoding payload (width * height) = .error error) ∨
        ∃ bytes, decodeTile encoding payload (width * height) = .ok (.pixels bytes) ∧
          bytes.length = width * height * 4 := by
  intro h
  obtain ⟨error, herror⟩ | ⟨bytes, hbytes, -⟩ := h .unchanged [] 1 1
  · cases herror
  · cases hbytes

/-! ## Damage -/

/-- A rectangle as the capture layer reports it. -/
structure DamageRect where
  x : Int32
  y : Int32
  width : UInt32
  height : UInt32
  deriving DecidableEq

namespace DamageRect

def right (rect : DamageRect) : Int := rect.x.toInt + rect.width.toNat

def bottom (rect : DamageRect) : Int := rect.y.toInt + rect.height.toNat

def isEmpty (rect : DamageRect) : Bool := rect.width = 0 || rect.height = 0

/-- The two rectangles have a pixel in common. -/
def Meets (rect : DamageRect) (bounds : Rect) : Prop :=
  ∃ x y : Int, rect.x.toInt ≤ x ∧ x < rect.right ∧ rect.y.toInt ≤ y ∧ y < rect.bottom ∧
    bounds.x ≤ x ∧ x < bounds.x + bounds.width ∧ bounds.y ≤ y ∧ y < bounds.y + bounds.height

end DamageRect

structure MoveRect where
  source : DamageRect
  target : DamageRect
  deriving DecidableEq

structure Damage where
  moves : List MoveRect
  dirty : List DamageRect
  deriving DecidableEq

/-- `first..=last`. -/
def span (first last : Int) : List Int := (List.range (last - first + 1).toNat).map fun i : Nat => first + i

/-- `as u16`. -/
def asU16 (i : Int) : Nat := (i % 2 ^ 16).toNat

/-- A coordinate clipped to the display. -/
def clipTo (i : Int) (extent : Nat) : Int := min (max i 0) extent

def collectTiles (grid : Grid) (rect : DamageRect) : List TileCoord :=
  if rect.isEmpty then []
  else
    let edge : Int := grid.size.edge
    let left := clipTo rect.x.toInt grid.width
    let top := clipTo rect.y.toInt grid.height
    let right := clipTo rect.right grid.width
    let bottom := clipTo rect.bottom grid.height
    if left ≥ right ∨ top ≥ bottom then []
    else
      (span (top / edge) ((bottom - 1) / edge)).flatMap fun row =>
        (span (left / edge) ((right - 1) / edge)).map fun col => ⟨asU16 col, asU16 row⟩

/-- Not behind in the order of rows, then columns. -/
def TileCoord.le (coord other : TileCoord) : Bool :=
  coord.row < other.row || coord.row = other.row && coord.col ≤ other.col

/-- Before in the order of rows, then columns. -/
def TileCoord.Before (coord other : TileCoord) : Prop :=
  coord.row < other.row ∨ coord.row = other.row ∧ coord.col < other.col

def Damage.tiles (damage : Damage) (grid : Grid) : List TileCoord :=
  let touched := damage.moves.flatMap (fun moved => collectTiles grid moved.target) ++
    damage.dirty.flatMap (collectTiles grid)
  (touched.mergeSort TileCoord.le).destutter (· ≠ ·)

/-! ## One axis -/

theorem mem_span {first last i : Int} : i ∈ span first last ↔ first ≤ i ∧ i ≤ last := by
  simp only [span, List.mem_map, List.mem_range]
  constructor
  · rintro ⟨n, hn, rfl⟩
    omega
  · rintro ⟨hfirst, hlast⟩
    exact ⟨(i - first).toNat, by omega, by omega⟩

/-- A tile number lies between those of the clipped ends just when its pixels meet the unclipped stretch. -/
theorem between_iff {edge extent c : Nat} {a b : Int} (hpos : 0 < edge) :
    (clipTo a extent < clipTo b extent ∧ clipTo a extent / edge ≤ c ∧ (c : Int) ≤ (clipTo b extent - 1) / edge) ↔
      c < (extent + edge - 1) / edge ∧
        ∃ x : Int, a ≤ x ∧ x < b ∧ ((c * edge : Nat) : Int) ≤ x ∧
          x < ((c * edge : Nat) : Int) + (min edge (extent - c * edge) : Nat) := by
  have hedge : (0 : Int) < edge := by exact_mod_cast hpos
  have hle : clipTo a extent / edge ≤ c ↔ clipTo a extent < ((c * edge : Nat) : Int) + edge := by
    rw [← Int.lt_add_one_iff, Int.ediv_lt_iff_lt_mul hedge, Int.add_mul, Int.one_mul]
    push_cast
    rfl
  have hge : (c : Int) ≤ (clipTo b extent - 1) / edge ↔ ((c * edge : Nat) : Int) ≤ clipTo b extent - 1 := by
    rw [Int.le_ediv_iff_mul_le hedge]
    push_cast
    rfl
  have hcount : c < (extent + edge - 1) / edge ↔ c * edge + edge ≤ extent + edge - 1 := by
    rw [Nat.lt_iff_add_one_le, Nat.le_div_iff_mul_le hpos, Nat.succ_mul]
  rw [hle, hge, hcount]
  generalize c * edge = start
  simp only [clipTo]
  constructor
  · rintro ⟨hlt, hlow, hhigh⟩
    refine ⟨by omega, max (min (max a 0) extent) start, by omega, by omega, by omega, by omega⟩
  · rintro ⟨hinside, x, hxa, hxb, hlow, hhigh⟩
    omega

theorem asU16_of_lt {i : Int} (hpos : 0 ≤ i) (hlt : i < 2 ^ 16) : (asU16 i : Int) = i := by
  unfold asU16
  omega

/-! ## The tiles of a rectangle -/

variable {grid : Grid} {coord other : TileCoord} {rect : DamageRect}

theorem number_lt {edge extent : Nat} {b i : Int} (hpos : 0 < edge) (hextent : extent ≤ maxEdge)
    (h : i ≤ (clipTo b extent - 1) / edge) : i < 2 ^ 16 := by
  rw [Int.le_ediv_iff_mul_le (by omega)] at h
  simp only [clipTo, maxEdge] at h hextent
  by_contra hlarge
  have : i * 1 ≤ i * edge := Int.mul_le_mul_of_nonneg_left (by omega) (by omega)
  omega

theorem mem_collectTiles :
    coord ∈ collectTiles grid rect ↔ coord ∈ grid.coords ∧ rect.Meets (grid.rect coord) := by
  have hpos := Grid.edge_pos grid.size
  have hcol := @between_iff grid.size.edge grid.width coord.col rect.x.toInt rect.right hpos
  have hrow := @between_iff grid.size.edge grid.height coord.row rect.y.toInt rect.bottom hpos
  have hmeets : (coord ∈ grid.coords ∧ rect.Meets (grid.rect coord)) ↔
      (coord.col < (grid.width + grid.size.edge - 1) / grid.size.edge ∧
        ∃ x : Int, rect.x.toInt ≤ x ∧ x < rect.right ∧ ((coord.col * grid.size.edge : Nat) : Int) ≤ x ∧
          x < ((coord.col * grid.size.edge : Nat) : Int) +
            (min grid.size.edge (grid.width - coord.col * grid.size.edge) : Nat)) ∧
      (coord.row < (grid.height + grid.size.edge - 1) / grid.size.edge ∧
        ∃ y : Int, rect.y.toInt ≤ y ∧ y < rect.bottom ∧ ((coord.row * grid.size.edge : Nat) : Int) ≤ y ∧
          y < ((coord.row * grid.size.edge : Nat) : Int) +
            (min grid.size.edge (grid.height - coord.row * grid.size.edge) : Nat)) := by
    rw [Grid.mem_coords]
    constructor
    · rintro ⟨⟨hc, hr⟩, x, y, h₁, h₂, h₃, h₄, h₅, h₆, h₇, h₈⟩
      exact ⟨⟨hc, x, h₁, h₂, h₅, h₆⟩, hr, y, h₃, h₄, h₇, h₈⟩
    · rintro ⟨⟨hc, x, h₁, h₂, h₅, h₆⟩, hr, y, h₃, h₄, h₇, h₈⟩
      exact ⟨⟨hc, hr⟩, x, y, h₁, h₂, h₃, h₄, h₅, h₆, h₇, h₈⟩
  rw [hmeets, ← hcol, ← hrow]
  unfold collectTiles
  split
  · rename_i hempty
    simp only [List.not_mem_nil, false_iff]
    rintro ⟨⟨hx, -⟩, hy, -⟩
    simp only [DamageRect.isEmpty, Bool.or_eq_true, decide_eq_true_eq] at hempty
    rcases hempty with hzero | hzero
    · simp [DamageRect.right, hzero] at hx
    · simp [DamageRect.bottom, hzero] at hy
  · dsimp only
    split
    · rename_i hout
      simp only [List.not_mem_nil, false_iff]
      rintro ⟨⟨hx, -⟩, hy, -⟩
      omega
    · rename_i hin
      simp only [List.mem_flatMap, List.mem_map, mem_span]
      have hlow : ∀ (a : Int) (extent : Nat), 0 ≤ clipTo a extent / grid.size.edge := fun a extent =>
        Int.ediv_nonneg (by simp only [clipTo]; omega) (by omega)
      constructor
      · rintro ⟨row, ⟨hrow₁, hrow₂⟩, col, ⟨hcol₁, hcol₂⟩, rfl⟩
        have hr := asU16_of_lt (Int.le_trans (hlow _ _) hrow₁) (number_lt hpos grid.legalHeight.2 hrow₂)
        have hc := asU16_of_lt (Int.le_trans (hlow _ _) hcol₁) (number_lt hpos grid.legalWidth.2 hcol₂)
        dsimp only
        rw [hr, hc]
        exact ⟨⟨by omega, hcol₁, hcol₂⟩, by omega, hrow₁, hrow₂⟩
      · rintro ⟨⟨-, hcol₁, hcol₂⟩, -, hrow₁, hrow₂⟩
        refine ⟨coord.row, ⟨hrow₁, hrow₂⟩, coord.col, ⟨hcol₁, hcol₂⟩, ?_⟩
        have hr := asU16_of_lt (Int.natCast_nonneg coord.row) (number_lt hpos grid.legalHeight.2 hrow₂)
        have hc := asU16_of_lt (Int.natCast_nonneg coord.col) (number_lt hpos grid.legalWidth.2 hcol₂)
        rw [Int.natCast_inj.mp hr, Int.natCast_inj.mp hc]

/-! ## The order -/

theorem TileCoord.le_iff : coord.le other = true ↔ coord.row < other.row ∨ coord.row = other.row ∧ coord.col ≤ other.col := by
  simp [TileCoord.le]

theorem TileCoord.before_of_le (h : coord.le other = true) (hne : coord ≠ other) : coord.Before other := by
  obtain ⟨col, row⟩ := coord
  obtain ⟨col', row'⟩ := other
  rw [TileCoord.le_iff] at h
  simp only [ne_eq, TileCoord.mk.injEq, not_and] at hne
  simp only [TileCoord.Before] at *
  omega

instance : Std.Antisymm fun coord other : TileCoord => coord.le other = true where
  antisymm := by
    rintro ⟨col, row⟩ ⟨col', row'⟩ h h'
    simp only [TileCoord.le_iff] at h h'
    rw [TileCoord.mk.injEq]
    omega

theorem sorted_mergeSort (touched : List TileCoord) :
    (touched.mergeSort TileCoord.le).Pairwise fun coord other => coord.le other = true := by
  refine List.pairwise_mergeSort ?_ ?_ touched
  · intro a b c h h'
    rw [TileCoord.le_iff] at h h' ⊢
    omega
  · intro a b
    rw [Bool.or_eq_true, TileCoord.le_iff, TileCoord.le_iff]
    omega

/-- The tiles of some damage are those of the grid that have a pixel in common with a dirty rectangle or with the target
of a move, row after row and each once. -/
theorem damage_tiles_exact (grid : Grid) (damage : Damage) :
    (∀ coord, coord ∈ damage.tiles grid ↔ ∃ bounds, grid.bounds coord = .ok bounds ∧
      ((∃ rect ∈ damage.dirty, rect.Meets bounds) ∨ ∃ moved ∈ damage.moves, moved.target.Meets bounds)) ∧
    (damage.tiles grid).Pairwise TileCoord.Before := by
  have hsorted := sorted_mergeSort (damage.moves.flatMap (fun moved => collectTiles grid moved.target) ++
    damage.dirty.flatMap (collectTiles grid))
  simp only [Damage.tiles, hsorted.destutter_eq_dedup]
  constructor
  · intro coord
    rw [List.mem_dedup, List.mem_mergeSort, List.mem_append, List.mem_flatMap, List.mem_flatMap]
    simp only [mem_collectTiles]
    constructor
    · rintro (⟨moved, hmoved, hmem, hmeets⟩ | ⟨rect, hrect, hmem, hmeets⟩)
      · exact ⟨_, Grid.bounds_of_mem hmem, .inr ⟨moved, hmoved, hmeets⟩⟩
      · exact ⟨_, Grid.bounds_of_mem hmem, .inl ⟨rect, hrect, hmeets⟩⟩
    · rintro ⟨bounds, hbounds, hmeets⟩
      obtain ⟨hmem, rfl⟩ := Grid.bounds_ok hbounds
      rcases hmeets with ⟨rect, hrect, hmeets⟩ | ⟨moved, hmoved, hmeets⟩
      · exact .inr ⟨rect, hrect, hmem, hmeets⟩
      · exact .inl ⟨moved, hmoved, hmem, hmeets⟩
  · refine List.Pairwise.imp₂ (fun coord other => TileCoord.before_of_le) ?_ (List.nodup_dedup _)
    exact hsorted.sublist (List.dedup_sublist _)

end Selfhost.Desk
