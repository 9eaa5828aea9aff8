import Selfhost.Lib.Buffer

/-!
# Rasters

A raster is a list of cells, row after row, each row as long as the stride. A window is read row by row, and painted
row by row.
-/

namespace Selfhost.Lib

variable {α : Type}

/-- The cells of the window at column `x` and row `y`, of width `w` and height `h`. -/
def window (l : List α) (stride x y w h : Nat) : List α :=
  (List.range h).flatMap fun r => (l.drop ((y + r) * stride + x)).take w

/-- The raster with `src` in the place of the window. -/
def paint (l : List α) (stride x y w h : Nat) (src : List α) : List α :=
  (List.range h).foldl (fun l r => overwrite l ((y + r) * stride + x) ((src.drop (r * w)).take w)) l

/-- The window lies inside the raster. -/
structure InRaster (l : List α) (stride x y w h : Nat) : Prop where
  cols : x + w ≤ stride
  rows : (y + h) * stride ≤ l.length

/-! ## Positions -/

theorem position_mem_iff {stride x w q r c : Nat} (hc : c < stride) (hx : x + w ≤ stride) :
    q * stride + x ≤ r * stride + c ∧ r * stride + c < q * stride + x + w ↔ r = q ∧ x ≤ c ∧ c < x + w := by
  constructor
  · rintro ⟨hlow, hhigh⟩
    have hr : r = q := by
      rcases Nat.lt_trichotomy r q with hlt | heq | hgt
      · have : (r + 1) * stride ≤ q * stride := Nat.mul_le_mul_right _ hlt
        rw [Nat.succ_mul] at this
        omega
      · exact heq
      · have : (q + 1) * stride ≤ r * stride := Nat.mul_le_mul_right _ hgt
        rw [Nat.succ_mul] at this
        omega
    subst hr
    omega
  · rintro ⟨rfl, hlow, hhigh⟩
    omega

theorem position_lt {stride rows r c : Nat} (hr : r < rows) (hc : c < stride) : r * stride + c < rows * stride := by
  have : (r + 1) * stride ≤ rows * stride := Nat.mul_le_mul_right _ hr
  rw [Nat.succ_mul] at this
  omega

/-- Lists of rows are equal when they agree at every position. -/
theorem raster_ext {l l' : List α} {rows stride : Nat} (hl : l.length = rows * stride) (hl' : l'.length = rows * stride)
    (h : ∀ r < rows, ∀ c < stride, l[r * stride + c]? = l'[r * stride + c]?) : l = l' := by
  refine List.ext_getElem? fun j => ?_
  by_cases hj : j < rows * stride
  · have hstride : 0 < stride := by
      rcases Nat.eq_zero_or_pos stride with rfl | hpos
      · simp at hj
      · exact hpos
    have hrow : j / stride < rows := Nat.div_lt_of_lt_mul (by rwa [Nat.mul_comm])
    have hdecomp : j / stride * stride + j % stride = j := by
      rw [Nat.mul_comm]
      exact Nat.div_add_mod j stride
    have := h (j / stride) hrow (j % stride) (Nat.mod_lt _ hstride)
    rwa [hdecomp] at this
  · rw [List.getElem?_eq_none (by omega), List.getElem?_eq_none (by omega)]

/-! ## Reading a window -/

theorem length_flatMap_range {f : Nat → List α} {w h : Nat} (hf : ∀ r < h, (f r).length = w) :
    ((List.range h).flatMap f).length = h * w := by
  induction h with
  | zero => simp
  | succ h ih =>
      rw [List.range_succ, List.flatMap_append, List.length_append, ih fun r hr => hf r (Nat.lt_succ_of_lt hr)]
      simp [hf h (Nat.lt_succ_self h), Nat.succ_mul]

theorem getElem?_flatMap_range {f : Nat → List α} {w h r c : Nat} (hf : ∀ r < h, (f r).length = w) (hr : r < h)
    (hc : c < w) : ((List.range h).flatMap f)[r * w + c]? = (f r)[c]? := by
  induction h with
  | zero => cases hr
  | succ h ih =>
      have hrows := fun r hr => hf r (Nat.lt_succ_of_lt hr)
      have hlen := length_flatMap_range hrows
      rw [List.range_succ, List.flatMap_append]
      rcases Nat.lt_succ_iff_lt_or_eq.mp hr with hlt | rfl
      · rw [List.getElem?_append_left (by rw [hlen]; exact position_lt hlt hc)]
        exact ih hrows hlt
      · rw [List.getElem?_append_right (by rw [hlen]; omega), hlen, Nat.add_sub_cancel_left]
        simp

section

variable {l l' src : List α} {stride x y w h : Nat}

theorem InRaster.row (hin : InRaster l stride x y w h) {r : Nat} (hr : r < h) :
    (y + r) * stride + x + w ≤ l.length := by
  have hcols := hin.cols
  have : (y + r + 1) * stride ≤ (y + h) * stride := Nat.mul_le_mul_right _ (by omega)
  rw [Nat.succ_mul] at this
  have := hin.rows
  omega

theorem length_window (hin : InRaster l stride x y w h) : (window l stride x y w h).length = h * w := by
  refine length_flatMap_range fun r hr => ?_
  have := hin.row hr
  rw [List.length_take, List.length_drop]
  omega

theorem getElem?_window (hin : InRaster l stride x y w h) {r c : Nat} (hr : r < h) (hc : c < w) :
    (window l stride x y w h)[r * w + c]? = l[(y + r) * stride + (x + c)]? := by
  rw [window, getElem?_flatMap_range _ hr hc, List.getElem?_take_of_lt hc, List.getElem?_drop, Nat.add_assoc]
  intro r hr
  have := hin.row hr
  rw [List.length_take, List.length_drop]
  omega

/-- Two windows of one place are equal when the rasters agree there. -/
theorem window_congr (hin : InRaster l stride x y w h) (hin' : InRaster l' stride x y w h)
    (heq : ∀ r < h, ∀ c < w, l[(y + r) * stride + (x + c)]? = l'[(y + r) * stride + (x + c)]?) :
    window l stride x y w h = window l' stride x y w h := by
  refine raster_ext (length_window hin) (length_window hin') fun r hr c hc => ?_
  rw [getElem?_window hin hr hc, getElem?_window hin' hr hc]
  exact heq r hr c hc

/-- Rasters with an equal window agree at its positions. -/
theorem getElem?_of_window_eq (hin : InRaster l stride x y w h) (hin' : InRaster l' stride x y w h)
    (heq : window l stride x y w h = window l' stride x y w h) {r c : Nat} (hr : y ≤ r) (hr' : r < y + h)
    (hc : x ≤ c) (hc' : c < x + w) : l[r * stride + c]? = l'[r * stride + c]? := by
  have hl := @getElem?_window _ l stride x y w h hin (r - y) (c - x) (by omega) (by omega)
  have hl' := @getElem?_window _ l' stride x y w h hin' (r - y) (c - x) (by omega) (by omega)
  rw [Nat.add_sub_cancel' hr, Nat.add_sub_cancel' hc] at hl hl'
  rw [← hl, ← hl', heq]

/-! ## Painting a window -/

theorem getElem?_overwrite_inside {buffer bytes : List α} {i k : Nat} (hi : i ≤ buffer.length) (hk : k < bytes.length) :
    (overwrite buffer i bytes)[i + k]? = bytes[k]? := by
  have hlen : (buffer.take i).length = i := by
    rw [List.length_take]
    omega
  rw [overwrite, List.append_assoc, List.getElem?_append_right (by omega), hlen, Nat.add_sub_cancel_left,
    List.getElem?_append_left hk]

theorem paint_succ : paint l stride x y w (h + 1) src =
    overwrite (paint l stride x y w h src) ((y + h) * stride + x) ((src.drop (h * w)).take w) := by
  rw [paint, List.range_succ, List.foldl_append]
  rfl

theorem length_source_row (hsrc : (h + 1) * w ≤ src.length) : ((src.drop (h * w)).take w).length = w := by
  rw [Nat.succ_mul] at hsrc
  rw [List.length_take, List.length_drop]
  omega

theorem InRaster.shorter (hin : InRaster l stride x y w (h + 1)) : InRaster l stride x y w h :=
  ⟨hin.cols, Nat.le_trans (Nat.mul_le_mul_right _ (by omega)) hin.rows⟩

theorem length_paint (hin : InRaster l stride x y w h) (hsrc : h * w ≤ src.length) :
    (paint l stride x y w h src).length = l.length := by
  induction h with
  | zero => rfl
  | succ h ih =>
      have hbefore := ih hin.shorter (Nat.le_trans (Nat.mul_le_mul_right _ (by omega)) hsrc)
      rw [paint_succ, length_overwrite, hbefore]
      rw [length_source_row hsrc, hbefore]
      exact hin.row (Nat.lt_succ_self h)

/-- Every cell of a painted raster. -/
theorem getElem?_paint (hin : InRaster l stride x y w h) (hsrc : h * w ≤ src.length) {r c : Nat} (hc : c < stride) :
    (paint l stride x y w h src)[r * stride + c]? =
      if y ≤ r ∧ r < y + h ∧ x ≤ c ∧ c < x + w then src[(r - y) * w + (c - x)]? else l[r * stride + c]? := by
  induction h with
  | zero => rw [if_neg (by omega)]; rfl
  | succ h ih =>
      have hshort : h * w ≤ src.length := Nat.le_trans (Nat.mul_le_mul_right _ (by omega)) hsrc
      have hrow := hin.row (Nat.lt_succ_self h)
      have hlen := length_paint hin.shorter hshort
      have hsize := length_source_row hsrc
      have hplace := @position_mem_iff stride x w (y + h) r c hc hin.cols
      rw [paint_succ]
      by_cases hinside : r = y + h ∧ x ≤ c ∧ c < x + w
      · obtain ⟨rfl, hlow, hhigh⟩ := hinside
        rw [if_pos (by omega), show (y + h) * stride + c = (y + h) * stride + x + (c - x) by omega,
          getElem?_overwrite_inside (by omega) (by omega), List.getElem?_take_of_lt (by omega), List.getElem?_drop,
          Nat.add_sub_cancel_left]
      · rw [getElem?_overwrite (by omega) (by omega), ih hin.shorter hshort]
        congr 1
        simp only [eq_iff_iff]
        omega

theorem window_paint_self (hin : InRaster l stride x y w h) (hsrc : src.length = h * w) :
    window (paint l stride x y w h src) stride x y w h = src := by
  have hin' : InRaster (paint l stride x y w h src) stride x y w h :=
    ⟨hin.cols, by rw [length_paint hin (Nat.le_of_eq hsrc.symm)]; exact hin.rows⟩
  refine raster_ext (length_window hin') hsrc fun r hr c hc => ?_
  have hcols := hin.cols
  rw [getElem?_window hin' hr hc, getElem?_paint hin (Nat.le_of_eq hsrc.symm) (by omega), if_pos (by omega),
    Nat.add_sub_cancel_left, Nat.add_sub_cancel_left]

/-- A window beside the painted one is what it was. -/
theorem window_paint_beside {x' y' w' h' : Nat} (hin : InRaster l stride x y w h) (hsrc : src.length = h * w)
    (hin' : InRaster l stride x' y' w' h') (hbeside : y' + h' ≤ y ∨ y + h ≤ y' ∨ x' + w' ≤ x ∨ x + w ≤ x') :
    window (paint l stride x y w h src) stride x' y' w' h' = window l stride x' y' w' h' := by
  have hafter : InRaster (paint l stride x y w h src) stride x' y' w' h' :=
    ⟨hin'.cols, by rw [length_paint hin (Nat.le_of_eq hsrc.symm)]; exact hin'.rows⟩
  refine window_congr hafter hin' fun r hr c hc => ?_
  have hcols := hin'.cols
  rw [getElem?_paint hin (Nat.le_of_eq hsrc.symm) (by omega), if_neg (by omega)]

end

end Selfhost.Lib
