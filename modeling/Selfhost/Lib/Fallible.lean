import Mathlib.Algebra.BigOperators.Group.List.Basic
import Mathlib.Algebra.Order.Ring.Int
import Mathlib.Data.BitVec
import Mathlib.Data.List.Count
import Mathlib.Data.List.Forall2
import Mathlib.Data.String.Basic
import Mathlib.Data.UInt

/-!
# Results of fallible steps

What a sequence of steps that may fail did, once it is known to have succeeded.
-/

namespace Selfhost.Lib

variable {ε α β : Type}

theorem map_ok {x : Except ε α} {f : α → β} {b : β} (h : x.map f = .ok b) : ∃ a, x = .ok a ∧ f a = b := by
  cases x with
  | error e => cases h
  | ok a => exact ⟨a, rfl, Except.ok.inj h⟩

theorem bind_ok {x : Except ε α} {f : α → Except ε β} {b : β} (h : x.bind f = .ok b) :
    ∃ a, x = .ok a ∧ f a = .ok b := by
  cases x with
  | error e => cases h
  | ok a => exact ⟨a, rfl, h⟩

theorem bind_eq_ok_iff {x : Except ε α} {f : α → Except ε β} {b : β} :
    x.bind f = .ok b ↔ ∃ a, x = .ok a ∧ f a = .ok b := by
  refine ⟨bind_ok, ?_⟩
  rintro ⟨a, rfl, h⟩
  exact h

theorem mapError_eq_ok_iff {ε' : Type} {x : Except ε α} {f : ε → ε'} {a : α} : x.mapError f = .ok a ↔ x = .ok a := by
  cases x with
  | error e => exact iff_of_false nofun nofun
  | ok b => rw [Except.mapError, Except.ok.injEq, Except.ok.injEq]

/-! ## A computation on every element of a list -/

/-- `f` gives the elements of `ys` on those of `xs`. -/
def Results (f : α → Option β) (xs : List α) (ys : List β) : Prop := List.Forall₂ (fun x y => f x = some y) xs ys

variable {f : α → Option β} {xs : List α} {ys : List β}

theorem results_iff : xs.mapM f = some ys ↔ Results f xs ys := by
  induction xs generalizing ys with
  | nil =>
      rw [List.mapM_nil]
      exact ⟨fun h => Option.some.inj h ▸ .nil, fun h => by cases h; rfl⟩
  | cons x xs ih =>
      rw [List.mapM_cons]
      constructor
      · intro h
        obtain ⟨y, hy, h⟩ := Option.bind_eq_some_iff.mp h
        obtain ⟨zs, hzs, h⟩ := Option.bind_eq_some_iff.mp h
        cases h
        exact .cons hy (ih.mp hzs)
      · intro h
        cases h with
        | cons hy hrest =>
            rw [hy, ih.mpr hrest]
            rfl

/-- What is written element by element is read back. -/
theorem mapM_map {g : β → α} {zs : List β} (h : ∀ z ∈ zs, f (g z) = some z) : (zs.map g).mapM f = some zs := by
  rw [results_iff]
  induction zs with
  | nil => exact .nil
  | cons z zs ih => exact .cons (h z List.mem_cons_self) (ih fun z hz => h z (List.mem_cons_of_mem _ hz))

theorem Results.of_mem {x : α} (h : Results f xs ys) (hx : x ∈ xs) : ∃ y ∈ ys, f x = some y := by
  induction h with
  | nil => cases hx
  | cons hy _ ih =>
      rcases List.mem_cons.mp hx with rfl | hx
      · exact ⟨_, List.mem_cons_self, hy⟩
      · obtain ⟨y, hmem, hfy⟩ := ih hx
        exact ⟨y, List.mem_cons_of_mem _ hmem, hfy⟩

theorem Results.of_result {y : β} (h : Results f xs ys) (hy : y ∈ ys) : ∃ x ∈ xs, f x = some y := by
  induction h with
  | nil => cases hy
  | cons hx _ ih =>
      rcases List.mem_cons.mp hy with rfl | hy
      · exact ⟨_, List.mem_cons_self, hx⟩
      · obtain ⟨x, hmem, hfx⟩ := ih hy
        exact ⟨x, List.mem_cons_of_mem _ hmem, hfx⟩

theorem Results.filterMap (h : Results f xs ys) : xs.filterMap f = ys := by
  induction h with
  | nil => rfl
  | cons hy _ ih => rw [List.filterMap_cons_some hy, ih]

theorem exists_results (h : ∀ x ∈ xs, ∃ y, f x = some y) : ∃ ys, Results f xs ys := by
  induction xs with
  | nil => exact ⟨[], .nil⟩
  | cons x xs ih =>
      obtain ⟨y, hy⟩ := h x List.mem_cons_self
      obtain ⟨ys, hys⟩ := ih fun x hx => h x (List.mem_cons_of_mem _ hx)
      exact ⟨y :: ys, .cons hy hys⟩

/-- What holds between any two elements, in order, holds between their results. -/
theorem Results.pairwise {P : α → α → Prop} {Q : β → β → Prop} (h : Results f xs ys)
    (hPQ : ∀ x x' y y', f x = some y → f x' = some y' → P x x' → Q y y') (hxs : xs.Pairwise P) :
    ys.Pairwise Q := by
  induction h with
  | nil => exact .nil
  | @cons x y xs ys hy hrest ih =>
      obtain ⟨hx, hxs⟩ := List.pairwise_cons.mp hxs
      refine .cons (fun y' hy' => ?_) (ih hxs)
      obtain ⟨x', hx', hfx'⟩ := Results.of_result hrest hy'
      exact hPQ x x' y y' hy hfx' (hx x' hx')

end Selfhost.Lib
