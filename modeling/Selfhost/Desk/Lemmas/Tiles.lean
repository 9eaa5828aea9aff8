import Selfhost.Desk.Tiles
import Selfhost.Lib.Fallible

/-!
# Tiles that are written over their place

An encoded tile decodes to its pixels. The tiles of a grid lie beside each other and cover the surface.
-/

namespace Selfhost.Desk

open Selfhost.Lib

/-! ## The codec -/

theorem flatMap_pixelsOf {tile : Bytes} (h : tile.length % bytesPerPixel = 0) :
    (pixelsOf tile).flatMap Pixel.bytes = tile := by
  induction tile using pixelsOf.induct with
  | case1 blue green red alpha rest ih =>
      simp only [List.length_cons, bytesPerPixel] at h ih
      rw [pixelsOf, List.flatMap_cons, ih (by omega)]
      rfl
  | case2 tile hshort =>
      match tile, hshort with
      | [], _ => rfl
      | [_], _ | [_, _], _ | [_, _, _], _ => simp [bytesPerPixel] at h
      | _ :: _ :: _ :: _ :: _, hshort => exact absurd rfl (hshort _ _ _ _ _)

theorem length_flatMap_bytes (pixels : List Pixel) :
    (pixels.flatMap Pixel.bytes).length = pixels.length * bytesPerPixel := by
  induction pixels with
  | nil => rfl
  | cons pixel pixels ih =>
      rw [List.flatMap_cons, List.length_append, ih, List.length_cons, Nat.succ_mul, Nat.add_comm]
      rfl

theorem length_pixelsOf {tile : Bytes} (h : tile.length % bytesPerPixel = 0) :
    (pixelsOf tile).length = tile.length / bytesPerPixel := by
  have hlen := length_flatMap_bytes (pixelsOf tile)
  rw [flatMap_pixelsOf h] at hlen
  rw [hlen, Nat.mul_div_cancel _ (by decide)]

theorem length_rleLoop (current : Pixel) (count : Nat) (rest : List Pixel) :
    (rleLoop current count rest).length % (1 + bytesPerPixel) = 0 := by
  induction rest generalizing current count with
  | nil => simp [rleLoop, Pixel.bytes, bytesPerPixel]
  | cons pixel rest ih =>
      unfold rleLoop
      split
      · exact ih _ _
      · have := ih pixel 1
        simp only [Pixel.bytes, List.length_cons, List.length_append, List.length_nil, bytesPerPixel] at this ⊢
        omega

theorem rleLoop_ne_nil (current : Pixel) (count : Nat) (rest : List Pixel) : rleLoop current count rest ≠ [] := by
  induction rest generalizing current count with
  | nil => simp [rleLoop]
  | cons pixel rest ih =>
      unfold rleLoop
      split
      · exact ih _ _
      · simp

/-- One record at the head of a payload. -/
theorem rleRecords_run {pixels produced count : Nat} {out rest : Bytes} (current : Pixel) (hpos : 0 < count)
    (hcount : count ≤ 255) (hfits : produced + count ≤ pixels) :
    rleRecords pixels produced out (UInt8.ofNat count :: (current.bytes ++ rest)) =
      rleRecords pixels (produced + count) (out ++ (List.replicate count current).flatMap Pixel.bytes) rest := by
  have hnat : (UInt8.ofNat count).toNat = count := by
    rw [UInt8.toNat_ofNat']
    omega
  have hne : UInt8.ofNat count ≠ 0 := by
    intro hzero
    rw [hzero] at hnat
    exact absurd hnat.symm (Nat.ne_of_gt hpos)
  simp only [Pixel.bytes, List.cons_append, List.nil_append]
  rw [rleRecords, if_neg hne, hnat]
  simp only [gt_iff_lt, Nat.not_lt.mpr hfits, if_false]

theorem rleRecords_rleLoop {pixels : Nat} (rest : List Pixel) (current : Pixel) (count produced : Nat) (out : Bytes)
    (hpos : 0 < count) (hcount : count ≤ 255) (htotal : produced + count + rest.length = pixels) :
    rleRecords pixels produced out (rleLoop current count rest) =
      .ok (.pixels (out ++ (List.replicate count current ++ rest).flatMap Pixel.bytes)) := by
  induction rest generalizing current count produced out with
  | nil =>
      rw [rleLoop, ← List.append_nil current.bytes, rleRecords_run current hpos hcount (by simp at htotal; omega)]
      rw [rleRecords.eq_2 _ _ _ _ (by simp), if_neg (by simp at htotal; omega), List.append_nil]
  | cons pixel rest ih =>
      rw [List.length_cons] at htotal
      unfold rleLoop
      split
      · rename_i hsame
        obtain ⟨rfl, hless⟩ := hsame
        rw [ih pixel (count + 1) produced out (by omega) (by omega) (by omega), List.replicate_succ']
        simp
      · rw [rleRecords_run current hpos hcount (by omega), ih pixel 1 _ _ (by decide) (by decide) (by omega)]
        simp

theorem decodeRle_rleEncode {tile : Bytes} (hne : tile ≠ []) (h : tile.length % bytesPerPixel = 0) :
    decodeRle (rleEncode tile) (tile.length / bytesPerPixel) = .ok (.pixels tile) := by
  have hflat := flatMap_pixelsOf h
  have hlen := length_pixelsOf h
  unfold rleEncode
  cases hpixels : pixelsOf tile with
  | nil =>
      rw [hpixels] at hflat
      exact absurd hflat.symm hne
  | cons current rest =>
      rw [hpixels] at hflat hlen
      rw [decodeRle, if_neg (by simp [length_rleLoop, rleLoop_ne_nil]),
        rleRecords_rleLoop rest current 1 0 [] (by decide) (by decide) (by rw [← hlen, List.length_cons]; omega)]
      rw [List.nil_append, List.replicate_one, List.singleton_append, hflat]

theorem flatten_replicate_bytes (pixel : Pixel) (pixels : List Pixel) (h : pixels.all (· = pixel) = true) :
    (List.replicate pixels.length pixel.bytes).flatten = pixels.flatMap Pixel.bytes := by
  induction pixels with
  | nil => rfl
  | cons other pixels ih =>
      simp only [List.all_cons, Bool.and_eq_true, decide_eq_true_eq] at h
      obtain ⟨rfl, hrest⟩ := h
      rw [List.length_cons, List.replicate_succ, List.flatten_cons, ih hrest, List.flatMap_cons]

/-- What `encode_tile` writes, `decode_tile` reads. -/
theorem decodeTile_encodeTile {tile payload : Bytes} {encoding : Encoding}
    (h : encodeTile tile = .ok (encoding, payload)) :
    decodeTile encoding payload (tile.length / bytesPerPixel) = .ok (.pixels tile) := by
  unfold encodeTile at h
  dsimp only at h
  split at h
  · cases h
  · rename_i hbad
    simp only [not_or, not_not, gt_iff_lt, Nat.not_lt] at hbad
    obtain ⟨hne, hwhole, hfew⟩ := hbad
    have hflat := flatMap_pixelsOf hwhole
    have hlen := length_pixelsOf hwhole
    have hsize : tile.length = tile.length / bytesPerPixel * bytesPerPixel :=
      (Nat.div_mul_cancel (Nat.dvd_of_mod_eq_zero hwhole)).symm
    have hpixels : ¬ (tile.length / bytesPerPixel = 0 ∨ tile.length / bytesPerPixel > maxTilePixels) := by
      rintro (hzero | hmany)
      · rw [hzero, Nat.zero_mul] at hsize
        exact hne (List.length_eq_zero_iff.mp hsize)
      · omega
    split at h
    · cases h
    · rename_i first rest hpixelsOf
      rw [hpixelsOf] at hflat hlen
      split at h
      · rename_i hsolid
        cases h
        rw [decodeTile, if_neg hpixels]
        simp only [Pixel.bytes, List.length_cons, List.length_nil, bytesPerPixel, if_true]
        rw [show [first.blue, first.green, first.red, first.alpha] = first.bytes from rfl]
        rw [show tile.length / 4 = (first :: rest).length from hlen.symm, flatten_replicate_bytes first _ hsolid, hflat]
      · split at h
        · cases h
          rw [decodeTile, if_neg hpixels]
          exact decodeRle_rleEncode hne hwhole
        · cases h
          rw [decodeTile, if_neg hpixels]
          simp only [ne_eq, hsize.symm, not_true_eq_false, if_false]

theorem encodeTile_ok {tile : Bytes} (hne : tile ≠ []) (hwhole : tile.length % bytesPerPixel = 0)
    (hfew : tile.length / bytesPerPixel ≤ maxTilePixels) : ∃ out, encodeTile tile = .ok out := by
  unfold encodeTile
  dsimp only
  rw [if_neg (by simp [hne, hwhole, hfew])]
  cases hpixels : pixelsOf tile with
  | nil =>
      have hflat := flatMap_pixelsOf hwhole
      rw [hpixels] at hflat
      exact absurd hflat.symm hne
  | cons first rest =>
      dsimp only
      split
      · exact ⟨_, rfl⟩
      · split
        · exact ⟨_, rfl⟩
        · exact ⟨_, rfl⟩

/-! ## The grid -/

namespace Grid

variable {grid : Grid} {coord other : TileCoord}

theorem mem_coords : coord ∈ grid.coords ↔ coord.col < grid.cols ∧ coord.row < grid.rows := by
  obtain ⟨col, row⟩ := coord
  simp [coords, and_comm]

theorem edge_pos (size : TileSize) : 0 < size.edge := by
  have := size.legal
  simp only [List.mem_cons, List.not_mem_nil, or_false] at this
  omega

theorem edge_le (size : TileSize) : size.edge ≤ 128 := by
  have := size.legal
  simp only [List.mem_cons, List.not_mem_nil, or_false] at this
  omega

/-- A tile whose number is below the rounded-up count begins inside. -/
theorem begins_inside {edge extent i : Nat} (hpos : 0 < edge) (h : i < (extent + edge - 1) / edge) :
    i * edge < extent := by
  have hle : (i + 1) * edge ≤ extent + edge - 1 := (Nat.le_div_iff_mul_le hpos).mp h
  rw [Nat.succ_mul] at hle
  omega

/-- Every place is in the tile its number gives. -/
theorem tile_of {edge extent i : Nat} (hpos : 0 < edge) (h : i < extent) : i / edge < (extent + edge - 1) / edge := by
  rw [Nat.lt_iff_add_one_le, Nat.le_div_iff_mul_le hpos, Nat.succ_mul]
  have := Nat.div_mul_le_self i edge
  omega

/-- The rectangle of a tile. -/
def rect (grid : Grid) (coord : TileCoord) : Rect :=
  ⟨coord.col * grid.size.edge, coord.row * grid.size.edge, min grid.size.edge (grid.width - coord.col * grid.size.edge),
    min grid.size.edge (grid.height - coord.row * grid.size.edge)⟩

theorem bounds_of_mem (h : coord ∈ grid.coords) : grid.bounds coord = .ok (grid.rect coord) := by
  obtain ⟨hcol, hrow⟩ := mem_coords.mp h
  rw [bounds, if_neg (by omega)]
  rfl

theorem bounds_ok {bounds : Rect} (h : grid.bounds coord = .ok bounds) :
    coord ∈ grid.coords ∧ bounds = grid.rect coord := by
  unfold Grid.bounds at h
  split at h
  · cases h
  · rename_i hout
    cases h
    exact ⟨mem_coords.mpr (by omega), rfl⟩

theorem rect_inside (h : coord ∈ grid.coords) :
    0 < (grid.rect coord).width ∧ 0 < (grid.rect coord).height ∧
      (grid.rect coord).x + (grid.rect coord).width ≤ grid.width ∧
      (grid.rect coord).y + (grid.rect coord).height ≤ grid.height := by
  obtain ⟨hcol, hrow⟩ := mem_coords.mp h
  have hpos := edge_pos grid.size
  have hx := begins_inside hpos hcol
  have hy := begins_inside hpos hrow
  simp only [rect]
  omega

/-- A tile has at most as many pixels as the largest. -/
theorem rect_small : (grid.rect coord).height * (grid.rect coord).width ≤ maxTilePixels := by
  have hedge := edge_le grid.size
  have hw : (grid.rect coord).width ≤ 128 := Nat.le_trans (Nat.min_le_left _ _) hedge
  have hh : (grid.rect coord).height ≤ 128 := Nat.le_trans (Nat.min_le_left _ _) hedge
  exact Nat.mul_le_mul hh hw

/-- Two tiles lie beside each other. -/
theorem rect_beside (h : coord ≠ other) :
    (grid.rect other).y + (grid.rect other).height ≤ (grid.rect coord).y ∨
      (grid.rect coord).y + (grid.rect coord).height ≤ (grid.rect other).y ∨
      (grid.rect other).x + (grid.rect other).width ≤ (grid.rect coord).x ∨
      (grid.rect coord).x + (grid.rect coord).width ≤ (grid.rect other).x := by
  have hbelow : ∀ i j extent : Nat, i < j →
      i * grid.size.edge + min grid.size.edge (extent - i * grid.size.edge) ≤ j * grid.size.edge := by
    intro i j extent hlt
    have : (i + 1) * grid.size.edge ≤ j * grid.size.edge := Nat.mul_le_mul_right _ hlt
    rw [Nat.succ_mul] at this
    omega
  obtain ⟨col, row⟩ := coord
  obtain ⟨col', row'⟩ := other
  rcases Nat.lt_trichotomy row row' with hlt | rfl | hgt
  · exact .inr (.inl (hbelow row row' _ hlt))
  · rcases Nat.lt_trichotomy col col' with hlt | rfl | hgt
    · exact .inr (.inr (.inr (hbelow col col' _ hlt)))
    · exact absurd rfl h
    · exact .inr (.inr (.inl (hbelow col' col _ hgt)))
  · exact .inl (hbelow row' row _ hgt)

/-- Every pixel is in the rectangle of a tile. -/
theorem covers {x y : Nat} (hx : x < grid.width) (hy : y < grid.height) :
    ∃ coord ∈ grid.coords, (grid.rect coord).x ≤ x ∧ x < (grid.rect coord).x + (grid.rect coord).width ∧
      (grid.rect coord).y ≤ y ∧ y < (grid.rect coord).y + (grid.rect coord).height := by
  have hpos := edge_pos grid.size
  have hinside : ∀ i extent : Nat, i < extent → i / grid.size.edge * grid.size.edge ≤ i ∧
      i < i / grid.size.edge * grid.size.edge +
        min grid.size.edge (extent - i / grid.size.edge * grid.size.edge) := by
    intro i extent hlt
    have hdecomp := Nat.div_add_mod i grid.size.edge
    have hmod := Nat.mod_lt i hpos
    rw [Nat.mul_comm] at hdecomp
    omega
  refine ⟨⟨x / grid.size.edge, y / grid.size.edge⟩, mem_coords.mpr ⟨tile_of hpos hx, tile_of hpos hy⟩, ?_⟩
  exact ⟨(hinside x _ hx).1, (hinside x _ hx).2, (hinside y _ hy).1, (hinside y _ hy).2⟩

end Grid

/-! ## Surfaces and their tiles -/

/-- The grid of a surface. -/
def Surface.grid (surface : Surface) (size : TileSize) : Grid :=
  ⟨size, surface.width, surface.height, surface.legalWidth, surface.legalHeight⟩

namespace Surface

variable {surface other current : Surface} {size : TileSize} {coord : TileCoord}

theorem grid_new (surface : Surface) (size : TileSize) :
    Grid.new size surface.width surface.height = .ok (surface.grid size) := by
  rw [Grid.new, dif_pos surface.legalWidth, dif_pos surface.legalHeight]
  rfl

theorem holds_rect (h : coord ∈ (surface.grid size).coords) : surface.Holds ((surface.grid size).rect coord) :=
  (Grid.rect_inside h).2.2

/-- The bytes of a tile. -/
def tileBytes (surface : Surface) (rect : Rect) : Bytes :=
  window surface.pixels surface.stride (rect.x * bytesPerPixel) rect.y (rect.width * bytesPerPixel) rect.height

theorem tile_eq {rect : Rect} (h : surface.Holds rect) : surface.tile rect = .ok (surface.tileBytes rect) := by
  rw [tile, if_pos h]
  rfl

theorem length_tileBytes {rect : Rect} (h : surface.Holds rect) :
    (surface.tileBytes rect).length = rect.height * (rect.width * bytesPerPixel) := length_window h.inRaster

theorem encodeTile_tileBytes (h : coord ∈ (surface.grid size).coords) :
    ∃ out, encodeTile (surface.tileBytes ((surface.grid size).rect coord)) = .ok out := by
  have hlen := length_tileBytes (holds_rect h)
  rw [← Nat.mul_assoc] at hlen
  obtain ⟨hw, hh, -⟩ := Grid.rect_inside h
  refine encodeTile_ok ?_ ?_ ?_
  · intro hnil
    rw [hnil] at hlen
    have := Nat.mul_pos (Nat.mul_pos hh hw) (by decide : 0 < bytesPerPixel)
    rw [← hlen] at this
    cases this
  · rw [hlen, Nat.mul_mod_left]
  · rw [hlen, Nat.mul_div_cancel _ (by decide)]
    exact Grid.rect_small

/-- Two surfaces of one size show the same picture in a tile. -/
def SameTile (size : TileSize) (coord : TileCoord) (surface other : Surface) : Prop :=
  surface.tileBytes ((surface.grid size).rect coord) = other.tileBytes ((surface.grid size).rect coord)

/-- Surfaces of one size that agree on every tile are equal. -/
theorem eq_of_tiles (hwidth : surface.width = other.width) (hheight : surface.height = other.height)
    (h : ∀ coord ∈ (surface.grid size).coords, SameTile size coord surface other) : surface = other := by
  obtain ⟨width, height, pixels, legalWidth, legalHeight, sized⟩ := surface
  obtain ⟨width', height', pixels', legalWidth', legalHeight', sized'⟩ := other
  dsimp only at hwidth hheight
  subst hwidth hheight
  obtain rfl : pixels = pixels' := by
    refine raster_ext sized sized' fun r hr c hc => ?_
    have hx : c / bytesPerPixel < width := Nat.div_lt_of_lt_mul (by rwa [Nat.mul_comm])
    obtain ⟨coord, hmem, hx₁, hx₂, hy₁, hy₂⟩ :=
      @Grid.covers (grid ⟨width, height, pixels, legalWidth, legalHeight, sized⟩ size) _ _ hx hr
    have hin := @holds_rect ⟨width, height, pixels, legalWidth, legalHeight, sized⟩ size coord hmem
    have hin' := @holds_rect ⟨width, height, pixels', legalWidth', legalHeight', sized'⟩ size coord hmem
    refine getElem?_of_window_eq hin.inRaster hin'.inRaster (h coord hmem) hy₁ hy₂ ?_ ?_
    · have := Nat.div_mul_le_self c bytesPerPixel
      exact Nat.le_trans (Nat.mul_le_mul_right _ hx₁) this
    · have hnext := Nat.mul_le_mul_right bytesPerPixel (Nat.succ_le_of_lt hx₂)
      have hdecomp := Nat.div_add_mod c bytesPerPixel
      have hmod := Nat.mod_lt c (by decide : 0 < bytesPerPixel)
      rw [Nat.succ_mul] at hnext
      rw [← Nat.add_mul]
      rw [Nat.mul_comm] at hdecomp
      omega
  rfl

/-- Writing a tile: it is there afterwards, and what lies beside it is as it was. -/
theorem putTile_ok {rect : Rect} {pixels : Bytes} (hin : surface.Holds rect)
    (hlen : pixels.length = rect.height * (rect.width * bytesPerPixel)) :
    ∃ after, surface.putTile rect pixels = .ok after ∧ after.width = surface.width ∧ after.height = surface.height ∧
      after.tileBytes rect = pixels ∧
      ∀ place, surface.Holds place →
        (place.y + place.height ≤ rect.y ∨ rect.y + rect.height ≤ place.y ∨ place.x + place.width ≤ rect.x ∨
          rect.x + rect.width ≤ place.x) →
        after.tileBytes place = surface.tileBytes place := by
  unfold putTile
  rw [dif_pos hin, dif_pos hlen]
  refine ⟨_, rfl, rfl, rfl, window_paint_self hin.inRaster hlen, fun place hplace hbeside => ?_⟩
  refine window_paint_beside hin.inRaster hlen hplace.inRaster ?_
  simp only [← Nat.add_mul]
  rcases hbeside with h | h | h | h
  · exact .inl h
  · exact .inr (.inl h)
  · exact .inr (.inr (.inl (Nat.mul_le_mul_right _ h)))
  · exact .inr (.inr (.inr (Nat.mul_le_mul_right _ h)))

/-! ## Updates -/

/-- An update bears the pixels a surface has in a tile of its grid. -/
structure Encodes (size : TileSize) (surface : Surface) (update : TileUpdate) : Prop where
  inGrid : update.coord ∈ (surface.grid size).coords
  encoded : encodeTile (surface.tileBytes ((surface.grid size).rect update.coord)) =
    .ok (update.encoding, update.payload)

theorem updateOf_ok (h : coord ∈ (surface.grid size).coords) :
    ∃ update, updateOf (surface.grid size) surface coord = .ok update ∧ update.coord = coord ∧
      Encodes size surface update := by
  obtain ⟨⟨encoding, payload⟩, hencode⟩ := encodeTile_tileBytes h
  refine ⟨⟨coord, encoding, payload⟩, ?_, rfl, h, hencode⟩
  unfold updateOf
  rw [Grid.bounds_of_mem h]
  simp only [bind, Except.bind, pure, Except.pure, tile_eq (holds_rect h), hencode]

theorem encodeEach_ok {coords : List TileCoord} (h : ∀ coord ∈ coords, coord ∈ (surface.grid size).coords) :
    ∃ updates, encodeEach (surface.grid size) surface coords = .ok updates ∧
      updates.map TileUpdate.coord = coords ∧ ∀ update ∈ updates, Encodes size surface update := by
  induction coords with
  | nil => exact ⟨[], rfl, rfl, by simp⟩
  | cons coord rest ih =>
      obtain ⟨update, hupdate, hcoord, hencodes⟩ := updateOf_ok (h coord List.mem_cons_self)
      obtain ⟨updates, hupdates, hcoords, hall⟩ := ih fun coord hmem => h coord (List.mem_cons_of_mem _ hmem)
      refine ⟨update :: updates, ?_, by rw [List.map_cons, hcoord, hcoords], ?_⟩
      · simp only [encodeEach, hupdate, hupdates, bind, Except.bind, pure, Except.pure]
      · exact List.forall_mem_cons.mpr ⟨hencodes, hall⟩

theorem encodeTiles_ok {coords : List TileCoord} (h : ∀ coord ∈ coords, coord ∈ (surface.grid size).coords) :
    ∃ updates, encodeTiles surface size coords = .ok updates ∧ updates.map TileUpdate.coord = coords ∧
      ∀ update ∈ updates, Encodes size surface update := by
  simp only [encodeTiles, grid_new, bind, Except.bind]
  exact encodeEach_ok h

/-- What a diff leaves out of some tiles is as it was. -/
theorem diffLoop_ok {previous : Option Surface} {coords : List TileCoord}
    (hsize : ∀ held, previous = some held → held.width = current.width ∧ held.height = current.height)
    (h : ∀ coord ∈ coords, coord ∈ (current.grid size).coords) :
    ∃ updates, diffLoop (current.grid size) previous current coords = .ok updates ∧
      (∀ update ∈ updates, Encodes size current update) ∧
      ∀ coord ∈ coords, coord ∉ updates.map TileUpdate.coord →
        ∃ held, previous = some held ∧ SameTile size coord current held := by
  induction coords with
  | nil => exact ⟨[], rfl, by simp, by simp⟩
  | cons coord rest ih =>
      have hcoord := h coord List.mem_cons_self
      obtain ⟨update, hupdate, hname, hencodes⟩ := updateOf_ok hcoord
      obtain ⟨updates, hupdates, hall, hkept⟩ := ih fun coord hmem => h coord (List.mem_cons_of_mem _ hmem)
      have hsend : ∀ same : Bool, same = false →
          (if same then diffLoop (current.grid size) previous current rest else do
            let update ← updateOf (current.grid size) current coord
            let updates ← diffLoop (current.grid size) previous current rest
            return update :: updates) = .ok (update :: updates) := by
        rintro same rfl
        simp only [hupdate, hupdates, bind, Except.bind, pure, Except.pure, Bool.false_eq_true, if_false]
      have hsent : ∀ other ∈ coord :: rest, other ∉ (update :: updates).map TileUpdate.coord →
          ∃ held, previous = some held ∧ SameTile size other current held := by
        intro other hmem hnot
        rw [List.map_cons, hname, List.mem_cons, not_or] at hnot
        exact hkept other ((List.mem_cons.mp hmem).resolve_left hnot.1) hnot.2
      cases previous with
      | none =>
          refine ⟨update :: updates, ?_, List.forall_mem_cons.mpr ⟨hencodes, hall⟩, hsent⟩
          simp only [diffLoop, Grid.bounds_of_mem hcoord, tile_eq (holds_rect hcoord), bind, Except.bind, pure,
            Except.pure]
          exact hsend false rfl
      | some held =>
          have hheld : held.Holds ((current.grid size).rect coord) := by
            obtain ⟨hw, hh⟩ := hsize held rfl
            obtain ⟨hx, hy⟩ := holds_rect hcoord
            exact ⟨hw ▸ hx, hh ▸ hy⟩
          simp only [diffLoop, Grid.bounds_of_mem hcoord, tile_eq (holds_rect hcoord), tile_eq hheld, bind, Except.bind,
            Except.map]
          cases hsame : held.tileBytes ((current.grid size).rect coord) ==
              current.tileBytes ((current.grid size).rect coord) with
          | true =>
              refine ⟨updates, hupdates, hall, ?_⟩
              intro other hmem hnot
              rcases List.mem_cons.mp hmem with rfl | hmem
              · exact ⟨held, rfl, (by simpa using hsame : _ = _).symm⟩
              · exact hkept other hmem hnot
          | false => exact ⟨update :: updates, hsend false rfl, List.forall_mem_cons.mpr ⟨hencodes, hall⟩, hsent⟩

theorem diff_ok {previous : Option Surface}
    (hsize : ∀ held, previous = some held → held.width = current.width ∧ held.height = current.height) :
    ∃ updates, diff previous current size = .ok updates ∧ (∀ update ∈ updates, Encodes size current update) ∧
      ∀ coord ∈ (current.grid size).coords, coord ∉ updates.map TileUpdate.coord →
        ∃ held, previous = some held ∧ SameTile size coord current held := by
  obtain ⟨updates, hupdates, hrest⟩ := diffLoop_ok hsize fun coord (hmem : coord ∈ (current.grid size).coords) => hmem
  refine ⟨updates, ?_, hrest⟩
  cases previous with
  | none =>
      simp only [diff, grid_new, bind, Except.bind]
      exact hupdates
  | some held =>
      obtain ⟨hw, hh⟩ := hsize held rfl
      simp only [diff, hw, hh, grid_new, bind, Except.bind, ne_eq, not_true_eq_false, or_self,
        if_false]
      exact hupdates

end Surface

end Selfhost.Desk
