import Mathlib.Algebra.BigOperators.Group.List.Basic
import Mathlib.Algebra.Order.Ring.Int
import Mathlib.Data.BitVec
import Mathlib.Data.List.Count
import Mathlib.Data.List.Forall2
import Mathlib.Data.List.Nodup
import Mathlib.Data.String.Basic
import Mathlib.Data.UInt
import Mathlib.Order.Lattice
import Mathlib.Order.MinMax

/-!
# Bounded counters

Unsigned machine integers with the additions and subtractions that stop at the bound instead of wrapping,
and the update of the first entry of a table.
-/

namespace Selfhost.Lib

/-- The largest 64-bit number. -/
def u64Max : Nat := 2 ^ 64 - 1

def saturatingAdd (a b : UInt64) : UInt64 := UInt64.ofNat (min (a.toNat + b.toNat) u64Max)

def saturatingSub (a b : UInt64) : UInt64 := UInt64.ofNat (a.toNat - b.toNat)

/-- `none` when the sum does not fit. -/
def checkedAdd (a b : UInt64) : Option UInt64 :=
  if a.toNat + b.toNat ≤ u64Max then some (UInt64.ofNat (a.toNat + b.toNat)) else none

def saturatingAdd32 (a b : UInt32) : UInt32 := UInt32.ofNat (min (a.toNat + b.toNat) (2 ^ 32 - 1))

def saturatingSub32 (a b : UInt32) : UInt32 := UInt32.ofNat (a.toNat - b.toNat)

def checkedAdd32 (a b : UInt32) : Option UInt32 := if a.toNat + b.toNat < 2 ^ 32 then some (a + b) else none

def checkedSub32 (a b : UInt32) : Option UInt32 := if b ≤ a then some (a - b) else none

theorem toNat_le_u64Max (a : UInt64) : a.toNat ≤ u64Max := by
  have := a.toNat_lt
  unfold u64Max
  omega

@[simp] theorem toNat_saturatingAdd (a b : UInt64) :
    (saturatingAdd a b).toNat = min (a.toNat + b.toNat) u64Max := by
  unfold saturatingAdd u64Max
  rw [UInt64.toNat_ofNat_of_lt' (by have := a.toNat_lt; simp only [UInt64.size]; omega)]

@[simp] theorem toNat_saturatingSub (a b : UInt64) : (saturatingSub a b).toNat = a.toNat - b.toNat := by
  unfold saturatingSub
  rw [UInt64.toNat_ofNat_of_lt' (by have := a.toNat_lt; simp only [UInt64.size]; omega)]

theorem checkedAdd_eq_some {a b c : UInt64} (h : checkedAdd a b = some c) :
    c.toNat = a.toNat + b.toNat ∧ a.toNat + b.toNat ≤ u64Max := by
  unfold checkedAdd at h
  split at h
  · rename_i hle
    cases h
    refine ⟨?_, hle⟩
    unfold u64Max at hle
    rw [UInt64.toNat_ofNat_of_lt' (by simp only [UInt64.size]; omega)]
  · cases h

theorem checkedAdd_eq_none {a b : UInt64} (h : checkedAdd a b = none) : u64Max < a.toNat + b.toNat := by
  unfold checkedAdd at h
  split at h
  · cases h
  · rename_i hlt
    exact Nat.not_le.mp hlt

@[simp] theorem toNat_saturatingAdd32 (a b : UInt32) :
    (saturatingAdd32 a b).toNat = min (a.toNat + b.toNat) (2 ^ 32 - 1) := by
  unfold saturatingAdd32
  rw [UInt32.toNat_ofNat_of_lt' (by have := a.toNat_lt; simp only [UInt32.size]; omega)]

@[simp] theorem toNat_saturatingSub32 (a b : UInt32) :
    (saturatingSub32 a b).toNat = a.toNat - b.toNat := by
  unfold saturatingSub32
  rw [UInt32.toNat_ofNat_of_lt' (by have := a.toNat_lt; simp only [UInt32.size]; omega)]

theorem toNat_add32 {a b : UInt32} (h : a.toNat + b.toNat < 2 ^ 32) : (a + b).toNat = a.toNat + b.toNat := by
  rw [UInt32.toNat_add, Nat.mod_eq_of_lt h]

/-! ## Tables -/

/-- Changes the first entry that satisfies `p`. -/
@[simp] def modifyFirst {α : Type} (p : α → Bool) (f : α → α) : List α → List α
  | [] => []
  | a :: l => if p a then f a :: l else a :: modifyFirst p f l

theorem find?_modifyFirst {α : Type} {p : α → Bool} {f : α → α} (hf : ∀ a, p (f a) = p a)
    (l : List α) : (modifyFirst p f l).find? p = (l.find? p).map f := by
  induction l with
  | nil => rfl
  | cons a l ih =>
      unfold modifyFirst
      split
      · rename_i ha
        rw [List.find?_cons_of_pos (by rw [hf]; exact ha), List.find?_cons_of_pos ha, Option.map_some]
      · rename_i ha
        rw [List.find?_cons_of_neg ha, List.find?_cons_of_neg ha, ih]

theorem find?_modifyFirst_of_disjoint {α : Type} {p q : α → Bool} {f : α → α}
    (h : ∀ a, p a = true → q a = false) (hf : ∀ a, p (f a) = p a) (l : List α) :
    (modifyFirst p f l).find? q = l.find? q := by
  induction l with
  | nil => rfl
  | cons a l ih =>
      unfold modifyFirst
      split
      · rename_i ha
        rw [List.find?_cons_of_neg (by rw [h _ (by rw [hf]; exact ha)]; exact Bool.false_ne_true),
          List.find?_cons_of_neg (by rw [h _ ha]; exact Bool.false_ne_true)]
      · rw [List.find?_cons, List.find?_cons, ih]

/-- The entry of another search behind a change of the first entry of one. -/
theorem find?_modifyFirst_cases {α : Type} {p q : α → Bool} {f : α → α} (hf : ∀ a, q (f a) = q a) {l : List α} {b : α}
    (h : (modifyFirst p f l).find? q = some b) : ∃ a, l.find? q = some a ∧ (b = a ∨ b = f a) := by
  induction l with
  | nil => cases h
  | cons a l ih =>
      unfold modifyFirst at h
      cases hq : q a with
      | true =>
          refine ⟨a, List.find?_cons_of_pos hq, ?_⟩
          split at h
          · rw [List.find?_cons_of_pos (by rw [hf]; exact hq)] at h
            exact Or.inr (Option.some.inj h).symm
          · rw [List.find?_cons_of_pos hq] at h
            exact Or.inl (Option.some.inj h).symm
      | false =>
          rw [List.find?_cons_of_neg (by rw [hq]; exact Bool.false_ne_true)]
          split at h
          · rw [List.find?_cons_of_neg (by rw [hf, hq]; exact Bool.false_ne_true)] at h
            exact ⟨b, h, Or.inl rfl⟩
          · rw [List.find?_cons_of_neg (by rw [hq]; exact Bool.false_ne_true)] at h
            exact ih h

theorem map_modifyFirst {α β : Type} {p : α → Bool} {f : α → α} {g : α → β} (hg : ∀ a, g (f a) = g a)
    (l : List α) : (modifyFirst p f l).map g = l.map g := by
  induction l with
  | nil => rfl
  | cons a l ih =>
      unfold modifyFirst
      split
      · rw [List.map_cons, List.map_cons, hg]
      · rw [List.map_cons, List.map_cons, ih]

theorem mem_modifyFirst {α : Type} {p : α → Bool} {f : α → α} {l : List α} {a : α} (h : a ∈ modifyFirst p f l) :
    a ∈ l ∨ ∃ b ∈ l, a = f b := by
  induction l with
  | nil => cases h
  | cons b l ih =>
      unfold modifyFirst at h
      split at h
      · rcases List.mem_cons.mp h with rfl | h
        · exact Or.inr ⟨b, List.mem_cons_self, rfl⟩
        · exact Or.inl (List.mem_cons_of_mem _ h)
      · rcases List.mem_cons.mp h with rfl | h
        · exact Or.inl List.mem_cons_self
        · obtain h | ⟨c, hc, heq⟩ := ih h
          · exact Or.inl (List.mem_cons_of_mem _ h)
          · exact Or.inr ⟨c, List.mem_cons_of_mem _ hc, heq⟩

/-- Splits a table at its first entry that satisfies `p`. -/
theorem modifyFirst_of_find? {α : Type} {p : α → Bool} {l : List α} {a : α} (h : l.find? p = some a) (f : α → α) :
    ∃ l₁ l₂, l = l₁ ++ a :: l₂ ∧ modifyFirst p f l = l₁ ++ f a :: l₂ := by
  induction l with
  | nil => cases h
  | cons b l ih =>
      unfold modifyFirst
      split
      · rename_i hb
        rw [List.find?_cons_of_pos hb] at h
        cases h
        exact ⟨[], l, rfl, rfl⟩
      · rename_i hb
        rw [List.find?_cons_of_neg hb] at h
        obtain ⟨l₁, l₂, h₁, h₂⟩ := ih h
        exact ⟨b :: l₁, l₂, by rw [h₁, List.cons_append], by rw [h₂, List.cons_append]⟩

theorem modifyFirst_append_cons {α : Type} {p : α → Bool} {l₁ l₂ : List α} {a : α} (h : ∀ b ∈ l₁, p b = false)
    (ha : p a = true) (f : α → α) : modifyFirst p f (l₁ ++ a :: l₂) = l₁ ++ f a :: l₂ := by
  induction l₁ with
  | nil => rw [List.nil_append, modifyFirst, if_pos ha, List.nil_append]
  | cons b l₁ ih =>
      have hb : p b = false := h b List.mem_cons_self
      rw [List.cons_append, modifyFirst, if_neg (by rw [hb]; exact Bool.false_ne_true),
        ih fun c hc => h c (List.mem_cons_of_mem _ hc), List.cons_append]

/-- A change of the first entry is in front of a given entry, at it or behind it. -/
theorem modifyFirst_cases {α : Type} (p : α → Bool) (f : α → α) (l₁ : List α) (a : α) (l₂ : List α) :
    ((∃ b ∈ l₁, p b = true) ∧ modifyFirst p f (l₁ ++ a :: l₂) = modifyFirst p f l₁ ++ a :: l₂) ∨
      ((∀ b ∈ l₁, p b = false) ∧ p a = true ∧ modifyFirst p f (l₁ ++ a :: l₂) = l₁ ++ f a :: l₂) ∨
      ((∀ b ∈ l₁, p b = false) ∧ p a = false ∧
        modifyFirst p f (l₁ ++ a :: l₂) = l₁ ++ a :: modifyFirst p f l₂) := by
  induction l₁ with
  | nil =>
      cases ha : p a with
      | true => exact Or.inr (Or.inl ⟨fun _ h => (nomatch h), rfl, by simp [modifyFirst, ha]⟩)
      | false => exact Or.inr (Or.inr ⟨fun _ h => (nomatch h), rfl, by simp [modifyFirst, ha]⟩)
  | cons b l₁ ih =>
      cases hb : p b with
      | true => exact Or.inl ⟨⟨b, List.mem_cons_self, hb⟩, by simp [modifyFirst, hb]⟩
      | false =>
          have hcons : ∀ l, modifyFirst p f (b :: l) = b :: modifyFirst p f l := fun l => by simp [modifyFirst, hb]
          have hall : (∀ c ∈ l₁, p c = false) → ∀ c ∈ b :: l₁, p c = false := by
            intro h c hc
            rcases List.mem_cons.mp hc with rfl | hc
            · exact hb
            · exact h c hc
          rw [List.cons_append, hcons, hcons]
          rcases ih with ⟨⟨c, hc, hpc⟩, heq⟩ | ⟨hnone, ha, heq⟩ | ⟨hnone, ha, heq⟩
          · exact Or.inl ⟨⟨c, List.mem_cons_of_mem _ hc, hpc⟩, by rw [heq, List.cons_append]⟩
          · exact Or.inr (Or.inl ⟨hall hnone, ha, by rw [heq, List.cons_append]⟩)
          · exact Or.inr (Or.inr ⟨hall hnone, ha, by rw [heq, List.cons_append]⟩)

theorem find?_append_cons {α : Type} {p : α → Bool} {l₁ l₂ : List α} {a : α} (h : ∀ b ∈ l₁, p b = false)
    (ha : p a = true) : (l₁ ++ a :: l₂).find? p = some a := by
  have hnone : l₁.find? p = none := List.find?_eq_none.mpr fun b hb => by rw [h b hb]; exact Bool.false_ne_true
  rw [List.find?_append, hnone, Option.none_or, List.find?_cons_of_pos ha]

/-- In a table without repeated keys, dropping entries drops the entry of a key or nothing. -/
theorem find?_filter_of_nodup {α β : Type} [DecidableEq β] {key : α → β} {l : List α}
    (h : (l.map key).Nodup) (p : α → Bool) (k : β) :
    (l.filter p).find? (key · = k) = (l.find? (key · = k)).filter p := by
  induction l with
  | nil => rfl
  | cons a l ih =>
      rw [List.map_cons, List.nodup_cons] at h
      by_cases hk : key a = k
      · rw [List.find?_cons_of_pos (by simpa using hk)]
        cases hp : p a with
        | true =>
            rw [List.filter_cons_of_pos hp, List.find?_cons_of_pos (by simpa using hk),
              Option.filter_some_pos hp]
        | false =>
            rw [List.filter_cons_of_neg (by simp [hp]), ih h.2]
            have hnone : l.find? (key · = k) = none := by
              rw [List.find?_eq_none]
              intro b hb hbk
              exact h.1 (List.mem_map.mpr ⟨b, hb, by rw [hk]; simpa using hbk⟩)
            rw [hnone, Option.filter_some_neg (by simp [hp])]
            rfl
      · rw [List.find?_cons_of_neg (by simpa using hk)]
        cases hp : p a with
        | true => rw [List.filter_cons_of_pos hp, List.find?_cons_of_neg (by simpa using hk), ih h.2]
        | false => rw [List.filter_cons_of_neg (by simp [hp]), ih h.2]

theorem find?_key_iff {α β : Type} [DecidableEq β] {key : α → β} {l : List α} (h : (l.map key).Nodup) {k : β} {a : α} :
    l.find? (key · = k) = some a ↔ a ∈ l ∧ key a = k := by
  constructor
  · intro hfind
    exact ⟨List.mem_of_find?_eq_some hfind, by simpa using List.find?_some hfind⟩
  · rintro ⟨hmem, hkey⟩
    have hsome : (l.find? (key · = k)).isSome = true := by
      rw [List.find?_isSome]
      exact ⟨a, hmem, by simpa using hkey⟩
    obtain ⟨b, hb⟩ := Option.isSome_iff_exists.mp hsome
    have hbkey : key b = k := by simpa using List.find?_some hb
    rw [hb, List.inj_on_of_nodup_map h (List.mem_of_find?_eq_some hb) hmem (hbkey.trans hkey.symm)]

/-- In a table without repeated keys, one entry has the key of an entry. -/
theorem length_filter_ne_key {α β : Type} [DecidableEq β] {key : α → β} {l : List α} (h : (l.map key).Nodup) {a : α}
    (ha : a ∈ l) : (l.filter (key · ≠ key a)).length + 1 = l.length := by
  have hone : l.countP (key · = key a) = 1 := by
    have hcount := List.count_eq_one_of_mem h (List.mem_map_of_mem ha)
    rw [List.count, List.countP_map] at hcount
    rw [← hcount]
    exact List.countP_congr fun b _ => by simp
  have hsplit : l.length = _ := List.length_eq_countP_add_countP fun b => decide (key b = key a)
  rw [hone] at hsplit
  rw [← List.countP_eq_length_filter, hsplit, Nat.add_comm]
  congr 1
  exact List.countP_congr fun b _ => by simp

/-- The element at an index splits a list. -/
theorem split_at_index {α : Type} {l : List α} {i : Nat} {a : α} (h : l[i]? = some a) :
    ∃ l₁ l₂, l = l₁ ++ a :: l₂ ∧ l.eraseIdx i = l₁ ++ l₂ ∧ ∀ f, l.modify i f = l₁ ++ f a :: l₂ := by
  induction l generalizing i with
  | nil => cases h
  | cons b l ih =>
      cases i with
      | zero =>
          cases h
          exact ⟨[], l, rfl, rfl, fun f => rfl⟩
      | succ i =>
          obtain ⟨l₁, l₂, h₁, h₂, h₃⟩ := ih h
          refine ⟨b :: l₁, l₂, by rw [List.cons_append, ← h₁], ?_, ?_⟩
          · rw [List.eraseIdx_cons_succ, h₂, List.cons_append]
          · intro f
            rw [List.modify_succ_cons, h₃ f, List.cons_append]

end Selfhost.Lib

/-! # Sets of bits -/

namespace Selfhost.Lib

namespace Bits

variable {w i j : Nat} {set : BitVec w}

def insert (set : BitVec w) (i : Nat) : BitVec w := set ||| BitVec.twoPow w i

def remove (set : BitVec w) (i : Nat) : BitVec w := set &&& ~~~BitVec.twoPow w i

@[simp] theorem getLsbD_insert (hi : i < w) : (insert set i).getLsbD j = (set.getLsbD j || decide (i = j)) := by
  rw [insert, BitVec.getLsbD_or, BitVec.getLsbD_twoPow]
  simp [hi]

@[simp] theorem getLsbD_remove : (remove set i).getLsbD j = (set.getLsbD j && decide (i ≠ j)) := by
  rw [remove, BitVec.getLsbD_and, BitVec.getLsbD_not, BitVec.getLsbD_twoPow]
  by_cases hj : j < w
  · by_cases hij : i = j
    · subst hij
      simp [hj]
    · simp [hj, hij]
  · rw [BitVec.getLsbD_of_ge _ _ (Nat.le_of_not_lt hj)]
    simp

end Bits

end Selfhost.Lib

/-! # Spans of time -/

namespace Selfhost.Lib

def nanosPerSec : Nat := 1000000000

/-- The longest span, in nanoseconds. -/
def maxNanos : Nat := 2 ^ 64 * nanosPerSec - 1

structure Duration where
  nanos : Nat
  bounded : nanos ≤ maxNanos
  deriving DecidableEq, Repr

abbrev Instant : Type := Nat

namespace Duration

theorem nanos_injective : Function.Injective nanos := by
  intro d e h
  cases d
  cases e
  cases h
  rfl

instance : LinearOrder Duration := LinearOrder.lift' nanos nanos_injective

theorem le_iff {d e : Duration} : d ≤ e ↔ d.nanos ≤ e.nanos := Iff.rfl

theorem nanos_min (d e : Duration) : (min d e).nanos = min d.nanos e.nanos := by
  rcases le_total d e with h | h
  · rw [min_eq_left h, min_eq_left (le_iff.mp h)]
  · rw [min_eq_right h, min_eq_right (le_iff.mp h)]

/-- The span of a number of nanoseconds, cut at the longest. -/
def saturating (nanos : Nat) : Duration := ⟨min nanos maxNanos, Nat.min_le_right _ _⟩

def fromSecs (secs : UInt64) : Duration :=
  ⟨secs.toNat * nanosPerSec, by
    have := secs.toNat_lt
    unfold maxNanos nanosPerSec
    omega⟩

def asSecs (d : Duration) : UInt64 := UInt64.ofNat (d.nanos / nanosPerSec)

def saturatingMul (d : Duration) (times : UInt32) : Duration := saturating (d.nanos * times.toNat)

/-- The time from one moment to another, none when the other is earlier. -/
def between (earlier later : Instant) : Duration := saturating (later - earlier)

theorem lt_between {d : Duration} {earlier later : Nat} (h : d.nanos < maxNanos) :
    d < between earlier later ↔ earlier + d.nanos < later := by
  have hnanos : (between earlier later).nanos = min (later - earlier) maxNanos := rfl
  rw [← not_le, le_iff, hnanos]
  omega

/-- The seconds between two moments that are not too far apart. -/
theorem asSecs_between {earlier later secs : Nat} (h : later ≤ earlier + secs * nanosPerSec) (hsecs : secs < 2 ^ 32) :
    (between earlier later).asSecs.toNat = (later - earlier) / nanosPerSec ∧
      (later - earlier) / nanosPerSec ≤ secs := by
  have hle : (later - earlier) / nanosPerSec ≤ secs := by
    unfold nanosPerSec at *
    omega
  have hnanos : (between earlier later).nanos = later - earlier := by
    refine Nat.min_eq_left ?_
    unfold maxNanos nanosPerSec at *
    omega
  refine ⟨?_, hle⟩
  rw [asSecs, hnanos, UInt64.toNat_ofNat_of_lt' (by simp only [UInt64.size]; omega)]

end Duration

end Selfhost.Lib

/-!
# Tickets that are redeemed once

A bounded table of tickets with a lifetime, each issued under a value that was never issued before. The records of what
was issued and of what was redeemed are kept beside it.
-/

namespace Selfhost.Lib

structure Ticket (κ τ : Type) where
  value : κ
  tag : τ
  issued : Instant
  deriving DecidableEq, Repr

namespace Tickets

variable {κ τ ρ : Type}

/-- The tickets whose lifetime has not run out. -/
def live (lifetime now : Nat) (entries : List (Ticket κ τ)) : List (Ticket κ τ) :=
  entries.filter fun entry => now - entry.issued < lifetime

/-- The oldest go first, until there are fewer than `max`. -/
def makeRoom (max : Nat) : List (Ticket κ τ) → List (Ticket κ τ)
  | [] => []
  | entry :: entries => if max ≤ entries.length + 1 then makeRoom max entries else entry :: entries

/-- A new ticket stands behind those that are alive. -/
def issue (max lifetime : Nat) (ticket : Ticket κ τ) (entries : List (Ticket κ τ)) : List (Ticket κ τ) :=
  makeRoom max (live lifetime ticket.issued entries) ++ [ticket]

/-- What is redeemed out of the tickets that are alive. -/
def taken (lifetime now : Nat) (hit : Ticket κ τ → Bool) (entries : List (Ticket κ τ)) : List (Ticket κ τ) :=
  (live lifetime now entries).filter hit

/-- What stays of them. -/
def left (lifetime now : Nat) (hit : Ticket κ τ → Bool) (entries : List (Ticket κ τ)) : List (Ticket κ τ) :=
  (live lifetime now entries).filter fun entry => !hit entry

theorem makeRoom_suffix (max : Nat) (entries : List (Ticket κ τ)) : makeRoom max entries <:+ entries := by
  induction entries with
  | nil => exact List.suffix_refl _
  | cons entry entries ih =>
      unfold makeRoom
      split
      · exact ih.trans (List.suffix_cons entry entries)
      · exact List.suffix_refl _

theorem mem_issue {max lifetime : Nat} {ticket entry : Ticket κ τ} {entries : List (Ticket κ τ)}
    (h : entry ∈ issue max lifetime ticket entries) : entry ∈ entries ∨ entry = ticket := by
  rcases List.mem_append.mp h with h | h
  · exact .inl (List.mem_filter.mp ((makeRoom_suffix max _).subset h)).1
  · exact .inr (List.mem_singleton.mp h)

theorem mem_taken {lifetime now : Nat} {hit : Ticket κ τ → Bool} {entry : Ticket κ τ} {entries : List (Ticket κ τ)}
    (h : entry ∈ taken lifetime now hit entries) : entry ∈ entries ∧ hit entry = true := by
  obtain ⟨hlive, hhit⟩ := List.mem_filter.mp h
  exact ⟨(List.mem_filter.mp hlive).1, hhit⟩

theorem mem_left {lifetime now : Nat} {hit : Ticket κ τ → Bool} {entry : Ticket κ τ} {entries : List (Ticket κ τ)}
    (h : entry ∈ left lifetime now hit entries) : entry ∈ entries ∧ hit entry = false := by
  obtain ⟨hlive, hhit⟩ := List.mem_filter.mp h
  exact ⟨(List.mem_filter.mp hlive).1, by simpa using hhit⟩

/-- A table beside its records, each with a value and the tag its ticket bears: nothing outstanding was redeemed, and
what was redeemed is what was issued. -/
structure Inv (value : ρ → κ) (tag : ρ → τ) (entries : List (Ticket κ τ)) (issued redeemed : List ρ) : Prop where
  distinct : (issued.map value).Nodup
  once : (redeemed.map value).Nodup
  genuine : redeemed ⊆ issued
  outstanding : ∀ entry ∈ entries, entry.value ∉ redeemed.map value ∧
    ∃ r ∈ issued, value r = entry.value ∧ tag r = entry.tag

section

variable {value : ρ → κ} {tag : ρ → τ} {entries next : List (Ticket κ τ)} {issued redeemed : List ρ}

theorem Inv.empty : Inv value tag [] [] [] :=
  ⟨List.nodup_nil, List.nodup_nil, List.Subset.refl _, by simp⟩

theorem Inv.subset (h : Inv value tag entries issued redeemed) (hsub : next ⊆ entries) :
    Inv value tag next issued redeemed :=
  ⟨h.distinct, h.once, h.genuine, fun entry hentry => h.outstanding entry (hsub hentry)⟩

/-- An outstanding ticket has one record. -/
theorem Inv.record (h : Inv value tag entries issued redeemed) {entry : Ticket κ τ} {r : ρ} (hentry : entry ∈ entries)
    (hr : r ∈ issued) (hvalue : value r = entry.value) : tag r = entry.tag := by
  obtain ⟨-, r', hr', hvalue', htag'⟩ := h.outstanding entry hentry
  have hsame : r = r' := List.inj_on_of_nodup_map h.distinct hr hr' (hvalue.trans hvalue'.symm)
  rw [hsame, htag']

/-- A ticket is added under a fresh value. -/
theorem Inv.push (h : Inv value tag entries issued redeemed) {ticket : Ticket κ τ} {r : ρ}
    (hvalue : value r = ticket.value) (htag : tag r = ticket.tag) (hfresh : value r ∉ issued.map value)
    (hsub : ∀ entry ∈ next, entry ∈ entries ∨ entry = ticket) : Inv value tag next (issued ++ [r]) redeemed where
  distinct := by
    rw [List.map_append]
    exact List.nodup_append'.mpr ⟨h.distinct, List.nodup_singleton _, by simpa using hfresh⟩
  once := h.once
  genuine := fun x hx => List.mem_append_left _ (h.genuine hx)
  outstanding := by
    intro entry hentry
    rcases hsub entry hentry with hentry | rfl
    · obtain ⟨hnot, r', hr', heq⟩ := h.outstanding entry hentry
      exact ⟨hnot, r', List.mem_append_left _ hr', heq⟩
    · refine ⟨?_, r, List.mem_append_right _ (List.mem_singleton_self r), hvalue, htag⟩
      rw [← hvalue]
      exact fun hmem => hfresh (List.map_subset value h.genuine hmem)

/-- Issuing under a fresh value. -/
theorem Inv.issue (h : Inv value tag entries issued redeemed) {max lifetime : Nat} {ticket : Ticket κ τ} {r : ρ}
    (hvalue : value r = ticket.value) (htag : tag r = ticket.tag) (hfresh : value r ∉ issued.map value) :
    Inv value tag (issue max lifetime ticket entries) (issued ++ [r]) redeemed :=
  h.push hvalue htag hfresh fun _ => mem_issue

/-- Redeeming the record of an outstanding ticket, when no ticket of its value and tag stays. -/
theorem Inv.redeem (h : Inv value tag entries issued redeemed) {entry : Ticket κ τ} {r : ρ} (hentry : entry ∈ entries)
    (hr : r ∈ issued) (hvalue : value r = entry.value) (hsub : next ⊆ entries)
    (hgone : ∀ other ∈ next, ¬(other.value = entry.value ∧ other.tag = entry.tag)) :
    Inv value tag next issued (redeemed ++ [r]) where
  distinct := h.distinct
  once := by
    rw [List.map_append]
    have hnot := (h.outstanding entry hentry).1
    rw [← hvalue] at hnot
    exact List.nodup_append'.mpr ⟨h.once, List.nodup_singleton _, by simpa using hnot⟩
  genuine := by
    intro x hx
    rcases List.mem_append.mp hx with hx | hx
    · exact h.genuine hx
    · rw [List.mem_singleton.mp hx]
      exact hr
  outstanding := by
    intro other hother
    obtain ⟨hnot, hrecord⟩ := h.outstanding other (hsub hother)
    refine ⟨fun hmem => ?_, hrecord⟩
    rw [List.map_append] at hmem
    rcases List.mem_append.mp hmem with hmem | hmem
    · exact hnot hmem
    · have hsame : other.value = value r := List.mem_singleton.mp hmem
      have hother' := h.record (hsub hother) hr hsame.symm
      exact hgone other hother ⟨hsame.trans hvalue, hother'.symm.trans (h.record hentry hr hvalue)⟩

end

end Tickets

end Selfhost.Lib
