import Mathlib.Algebra.BigOperators.Group.List.Basic
import Mathlib.Algebra.Order.Ring.Int
import Mathlib.Data.BitVec
import Mathlib.Data.List.Basic
import Mathlib.Data.List.Count
import Mathlib.Data.List.Forall2
import Mathlib.Data.String.Basic
import Mathlib.Data.UInt

/-!
# Runs of a transition system

A system is a partial step function on states. A run is a list of labels that are all enabled and all meet a
side condition; an invariant of the steps that meet the condition is an invariant of the runs.
-/

namespace Selfhost.Lib

variable {σ ι : Type}

/-- `s'` is reached from `s` by the labels of a list, each taken where `ok` allows it. -/
inductive Run (step : σ → ι → Option σ) (ok : σ → ι → Prop) : σ → List ι → σ → Prop where
  | nil {s : σ} : Run step ok s [] s
  | cons {s t u : σ} {a : ι} {l : List ι} : ok s a → step s a = some t → Run step ok t l u →
      Run step ok s (a :: l) u

/-- What holds at the start and is kept by every allowed step holds at the end of every run. -/
theorem Run.invariant {step : σ → ι → Option σ} {ok : σ → ι → Prop} {I : σ → Prop} {s u : σ} {l : List ι}
    (hrun : Run step ok s l u) (hstep : ∀ s a t, I s → ok s a → step s a = some t → I t) (hs : I s) :
    I u := by
  induction hrun with
  | nil => exact hs
  | cons hok ht _ ih => exact ih (hstep _ _ _ hs hok ht)

/-- A run is no longer than a measure that each of its steps moves up. -/
theorem Run.length_le {step : σ → ι → Option σ} {ok : σ → ι → Prop} {I : σ → Prop} {Φ : σ → Nat} {s u : σ} {l : List ι}
    (hrun : Run step ok s l u) (hstep : ∀ s a t, I s → ok s a → step s a = some t → I t ∧ Φ s + 1 ≤ Φ t) (hs : I s) :
    Φ s + l.length ≤ Φ u := by
  induction hrun with
  | nil => exact Nat.le_refl _
  | cons hok ht _ ih =>
      obtain ⟨hI, hΦ⟩ := hstep _ _ _ hs hok ht
      have := ih hI
      rw [List.length_cons]
      omega

/-- A run whose labels all meet another side condition. -/
theorem Run.restrict {step : σ → ι → Option σ} {ok ok' : σ → ι → Prop} {s u : σ} {l : List ι} (hrun : Run step ok s l u)
    (h : ∀ a ∈ l, ∀ s, ok' s a) : Run step ok' s l u := by
  induction hrun with
  | nil => exact .nil
  | cons _ ht _ ih => exact .cons (h _ List.mem_cons_self _) ht (ih fun a ha => h a (List.mem_cons_of_mem _ ha))

theorem Run.mono {step : σ → ι → Option σ} {ok ok' : σ → ι → Prop} {s u : σ} {l : List ι} (hrun : Run step ok s l u)
    (h : ∀ s a, ok s a → ok' s a) : Run step ok' s l u := by
  induction hrun with
  | nil => exact .nil
  | cons hok ht _ ih => exact .cons (h _ _ hok) ht ih

theorem Run.append {step : σ → ι → Option σ} {ok : σ → ι → Prop} {s t u : σ} {l l' : List ι}
    (hrun : Run step ok s l t) (hnext : Run step ok t l' u) : Run step ok s (l ++ l') u := by
  induction hrun with
  | nil => exact hnext
  | cons hok ht _ ih => exact .cons hok ht (ih hnext)

theorem Run.split {step : σ → ι → Option σ} {ok : σ → ι → Prop} {s u : σ} {l l' : List ι}
    (hrun : Run step ok s (l ++ l') u) : ∃ t, Run step ok s l t ∧ Run step ok t l' u := by
  induction l generalizing s with
  | nil => exact ⟨s, .nil, hrun⟩
  | cons a l ih =>
      cases hrun with
      | cons hok ht hrest =>
          obtain ⟨t, hfirst, hsecond⟩ := ih hrest
          exact ⟨t, .cons hok ht hfirst, hsecond⟩

/-- Takes the labels of a list one after another, as long as they are allowed and enabled. -/
def exec (step : σ → ι → Option σ) (ok : σ → ι → Prop) [∀ s a, Decidable (ok s a)] : σ → List ι → Option σ
  | s, [] => some s
  | s, a :: l =>
      if ok s a then
        match step s a with
        | none => none
        | some t => exec step ok t l
      else none

theorem Run.of_exec {step : σ → ι → Option σ} {ok : σ → ι → Prop} [∀ s a, Decidable (ok s a)] {s u : σ}
    {l : List ι} (h : exec step ok s l = some u) : Run step ok s l u := by
  induction l generalizing s with
  | nil =>
      cases h
      exact .nil
  | cons a l ih =>
      simp only [exec] at h
      split at h
      · rename_i hok
        split at h
        · cases h
        · rename_i t ht
          exact .cons hok ht (ih h)
      · cases h

end Selfhost.Lib

/-! # Services that answer -/

namespace Selfhost.Lib

variable {σ τ ι ο : Type}

/-- The state after a list of requests, and the answers. -/
def serve (step : σ → ι → σ × ο) : σ → List ι → σ × List ο
  | s, [] => (s, [])
  | s, a :: l =>
      let q := serve step (step s a).1 l
      (q.1, (step s a).2 :: q.2)

theorem serve_singleton (step : σ → ι → σ × ο) (s : σ) (a : ι) :
    serve step s [a] = ((step s a).1, [(step s a).2]) := rfl

/-- Related services give the same answers, and their states stay related. -/
theorem serve_related {step : σ → ι → σ × ο} {step' : τ → ι → τ × ο} {R : σ → τ → Prop} {ok : ι → Prop}
    (hstep : ∀ s t a, R s t → ok a → R (step s a).1 (step' t a).1 ∧ (step s a).2 = (step' t a).2) {s : σ} {t : τ}
    {l : List ι} (h : R s t) (hok : ∀ a ∈ l, ok a) :
    R (serve step s l).1 (serve step' t l).1 ∧ (serve step s l).2 = (serve step' t l).2 := by
  induction l generalizing s t with
  | nil => exact ⟨h, rfl⟩
  | cons a l ih =>
      obtain ⟨hnext, hanswer⟩ := hstep s t a h (hok a List.mem_cons_self)
      obtain ⟨hend, hanswers⟩ := ih hnext fun a ha => hok a (List.mem_cons_of_mem _ ha)
      refine ⟨hend, ?_⟩
      simp only [serve, hanswer, hanswers]

end Selfhost.Lib

/-! # Logs -/

namespace Selfhost.Lib

variable {α β : Type} {f : α → Option β} {log more : List α} {a : α} {b : β}

/-- The value of the last entry that has one. -/
def latest (f : α → Option β) (log : List α) : Option β := (log.filterMap f).getLast?

@[simp] theorem latest_nil : latest f [] = none := rfl

theorem latest_append : latest f (log ++ more) = (latest f more).or (latest f log) := by
  unfold latest
  rw [List.filterMap_append, List.getLast?_append]

theorem latest_concat : latest f (log ++ [a]) = (f a).or (latest f log) := by
  rw [latest_append]
  congr 1
  unfold latest
  cases h : f a with
  | none => rw [List.filterMap_cons_none h]; rfl
  | some b => rw [List.filterMap_cons_some h]; rfl

theorem mem_of_latest (h : latest f log = some b) : ∃ a ∈ log, f a = some b :=
  List.mem_filterMap.mp (List.mem_of_getLast? h)

/-- Where all values agree, one of them is the latest. -/
theorem latest_of_mem (hmem : a ∈ log) (ha : f a = some b) (hall : ∀ a ∈ log, ∀ b', f a = some b' → b' = b) :
    latest f log = some b := by
  cases h : latest f log with
  | none =>
      have hnil := List.getLast?_eq_none_iff.mp h
      rw [List.filterMap_eq_nil_iff] at hnil
      rw [hnil a hmem] at ha
      cases ha
  | some b' =>
      obtain ⟨a', hmem', ha'⟩ := mem_of_latest h
      rw [hall a' hmem' b' ha']

/-! ## Entries and what went before -/

/-- Every entry stands to the entries before it as `P` says. -/
def Grounded (P : List α → α → Prop) (log : List α) : Prop :=
  ∀ before entry after, log = before ++ entry :: after → P before entry

theorem grounded_nil {P : List α → α → Prop} : Grounded P [] := by
  intro before entry after h
  cases before <;> cases h

theorem Grounded.concat {P : List α → α → Prop} (h : Grounded P log) (ha : P log a) : Grounded P (log ++ [a]) := by
  intro before entry after heq
  rcases List.eq_nil_or_concat after with rfl | ⟨rest, last, rfl⟩
  · obtain ⟨rfl, hlast⟩ := List.append_inj' heq rfl
    cases hlast
    exact ha
  · rw [List.concat_eq_append, ← List.cons_append, ← List.append_assoc] at heq
    exact h before entry rest (List.append_inj' heq rfl).1

end Selfhost.Lib
