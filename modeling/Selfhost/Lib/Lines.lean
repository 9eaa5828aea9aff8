import Mathlib.Data.List.DropRight
import Mathlib.Data.List.Infix
import Selfhost.Lib.Utf8

/-!
# Lines ended by CRLF

Text protocols write lines ended by CR LF and end a block by an empty line. This module has the search for a
pattern in a list, the block of lines, and when a byte string is such a block.
-/

namespace Selfhost.Lib

abbrev cr : UInt8 := 0x0D

abbrev lf : UInt8 := 0x0A

abbrev sp : UInt8 := 0x20

abbrev htab : UInt8 := 0x09

def crlf : Bytes := [cr, lf]

/-- The first position at which `pat` occurs. -/
@[simp] def findSub {α : Type} [DecidableEq α] (pat : List α) : List α → Option Nat
  | [] => if pat = [] then some 0 else none
  | a :: l => if pat <+: a :: l then some 0 else (findSub pat l).map (· + 1)

/-- Every line of `ls` followed by CRLF. -/
def lines (ls : List Bytes) : Bytes := ls.flatMap (· ++ crlf)

/-- The bytes up to and including the first blank line. -/
def headBlock (b : Bytes) : Bytes :=
  match findSub (crlf ++ crlf) b with
  | some i => b.take (i + 4)
  | none => b

/-- The bytes in front of the first LF. -/
def firstLine (b : Bytes) : Bytes := b.takeWhile (· != lf)

/-- Whether every LF stands directly after a CR, where `before` stands in front of the string. -/
@[simp] def lfAfterCr (before : UInt8) : Bytes → Bool
  | [] => true
  | b :: l => (b != lf || before == cr) && lfAfterCr b l

/-! ## Searching -/

section Search

variable {α : Type} [DecidableEq α] {pat : List α}

theorem findSub_eq_some_iff {l : List α} {i : Nat} :
    findSub pat l = some i ↔ i ≤ l.length ∧ pat <+: l.drop i ∧ ∀ j < i, ¬ pat <+: l.drop j := by
  induction l generalizing i with
  | nil =>
      simp only [findSub]
      split
      · rename_i hp
        subst hp
        constructor
        · rintro ⟨⟩
          simp
        · rintro ⟨hi, -, -⟩
          simp only [List.length_nil, Nat.le_zero] at hi
          rw [hi]
      · rename_i hp
        simp [hp]
  | cons a l ih =>
      simp only [findSub]
      split
      · rename_i hp
        constructor
        · rintro ⟨⟩
          exact ⟨Nat.zero_le _, hp, by simp⟩
        · rintro ⟨-, -, hfirst⟩
          cases i with
          | zero => rfl
          | succ i => exact absurd hp (hfirst 0 (Nat.succ_pos i))
      · rename_i hp
        cases i with
        | zero => simp [hp]
        | succ i =>
            simp only [Option.map_eq_some_iff, Nat.add_right_cancel_iff, exists_eq_right, ih,
              List.length_cons, Nat.add_le_add_iff_right, List.drop_succ_cons]
            constructor
            · rintro ⟨hi, hat, hfirst⟩
              refine ⟨hi, hat, ?_⟩
              intro j hj
              cases j with
              | zero => exact hp
              | succ j => exact hfirst j (Nat.lt_of_succ_lt_succ hj)
            · rintro ⟨hi, hat, hfirst⟩
              exact ⟨hi, hat, fun j hj => hfirst (j + 1) (Nat.succ_lt_succ hj)⟩

/-- What the first occurrence cuts off holds the pattern at its end and nowhere before. -/
theorem findSub_some {l : List α} {i : Nat} (h : findSub pat l = some i) :
    ∃ a b, l = a ++ pat ++ b ∧ a.length = i ∧ findSub pat (a ++ pat) = some i := by
  obtain ⟨hi, ⟨b, hb⟩, hfirst⟩ := findSub_eq_some_iff.mp h
  have hl : l = l.take i ++ pat ++ b := by
    rw [List.append_assoc, hb, List.take_append_drop]
  have hlen : (l.take i).length = i := List.length_take_of_le hi
  generalize l.take i = a at hl hlen
  subst hl
  refine ⟨a, b, rfl, hlen, findSub_eq_some_iff.mpr ⟨by rw [List.length_append]; omega, ?_, ?_⟩⟩
  · rw [List.drop_left' hlen]
  · intro j hj hpre
    refine hfirst j hj (hpre.trans ?_)
    have hd : (a ++ pat ++ b).drop j = (a ++ pat).drop j ++ b :=
      List.drop_append_of_le_length (by rw [List.length_append]; omega)
    rw [hd]
    exact List.prefix_append _ _

/-- What follows the first occurrence does not matter to it. -/
theorem findSub_append {a b : List α} {i : Nat} (hi : a.length = i) (h : findSub pat (a ++ pat) = some i) :
    findSub pat (a ++ pat ++ b) = some i := by
  obtain ⟨hle, -, hfirst⟩ := findSub_eq_some_iff.mp h
  refine findSub_eq_some_iff.mpr ⟨by rw [List.length_append]; omega, ?_, ?_⟩
  · rw [List.append_assoc, List.drop_left' hi]
    exact List.prefix_append _ _
  · intro j hj hpre
    have hd : (a ++ pat ++ b).drop j = (a ++ pat).drop j ++ b :=
      List.drop_append_of_le_length (by omega)
    rw [hd] at hpre
    refine hfirst j hj (List.prefix_of_prefix_length_le hpre (List.prefix_append _ _) ?_)
    rw [List.length_drop, List.length_append]
    omega

theorem findSub_cons_of_head_ne {a b : α} {l : List α} (h : a ≠ b) :
    findSub (b :: pat) (a :: l) = (findSub (b :: pat) l).map (· + 1) := by
  simp only [findSub]
  rw [if_neg]
  intro hp
  exact h (List.cons_prefix_cons.mp hp).1.symm

end Search

/-! ## Blocks of lines -/

@[simp] theorem lf_ne_cr : lf ≠ cr := by decide

@[simp] theorem cr_ne_lf : cr ≠ lf := by decide

@[simp] theorem lines_nil : lines [] = [] := rfl

@[simp] theorem lines_cons (l : Bytes) (ls : List Bytes) : lines (l :: ls) = l ++ cr :: lf :: lines ls := by
  simp [lines, crlf]

@[simp] theorem lines_append (ls ms : List Bytes) : lines (ls ++ ms) = lines ls ++ lines ms := by
  simp [lines]

theorem splitOn_lines {ls : List Bytes} (h : ∀ l ∈ ls, lf ∉ l) :
    (lines ls).splitOn lf = ls.map (· ++ [cr]) ++ [[]] := by
  induction ls with
  | nil => simp
  | cons l ls ih =>
      have hl : lf ∉ l ++ [cr] := by simp [h l (by simp)]
      have happ : lines (l :: ls) = (l ++ [cr]) ++ lf :: lines ls := by simp
      rw [happ, List.splitOn_append_cons_self_of_not_mem hl, ih fun m hm => h m (List.mem_cons_of_mem _ hm)]
      rfl

/-- A line that holds an LF nowhere does not start with CRLF once another line end follows it. -/
theorem not_crlf_of_line {l rest : Bytes} (hne : l ≠ []) (hl : lf ∉ l) : ¬ crlf <+: l ++ cr :: lf :: rest := by
  intro h
  cases l with
  | nil => exact hne rfl
  | cons a l =>
      cases l with
      | nil => simp [crlf] at h
      | cons b l =>
          simp only [crlf, List.cons_append, List.cons_prefix_cons] at h
          exact hl (by simp [h.2.1])

/-- The first empty line after a line is where the next line is empty, or further on. -/
theorem findSub_line {l rest : Bytes} (hl : lf ∉ l) :
    findSub (crlf ++ crlf) (l ++ cr :: lf :: rest) =
      if crlf <+: rest then some l.length
      else (findSub (crlf ++ crlf) rest).map (· + (l.length + 2)) := by
  induction l with
  | nil =>
      simp only [List.nil_append, List.length_nil]
      rw [findSub]
      have hp : (crlf ++ crlf <+: cr :: lf :: rest) ↔ crlf <+: rest := by
        simp [crlf, List.cons_prefix_cons]
      simp only [hp]
      split
      · rfl
      · show (findSub (crlf ++ crlf) (lf :: rest)).map (· + 1) = _
        have hlf : findSub (crlf ++ crlf) (lf :: rest) = (findSub (crlf ++ crlf) rest).map (· + 1) :=
          findSub_cons_of_head_ne (by decide)
        rw [hlf, Option.map_map]
        rfl
  | cons a l ih =>
      have hl' : lf ∉ l := fun hm => hl (List.mem_cons_of_mem _ hm)
      have hnot : ¬ crlf ++ crlf <+: a :: l ++ cr :: lf :: rest := by
        intro h
        exact not_crlf_of_line (by simp) hl ((List.prefix_append crlf crlf).trans h)
      rw [List.cons_append] at hnot ⊢
      rw [findSub, if_neg hnot, ih hl']
      split
      · rfl
      · rw [Option.map_map, List.length_cons]
        congr 1

theorem firstLine_line {l rest : Bytes} (hl : lf ∉ l) : firstLine (l ++ cr :: lf :: rest) = l ++ [cr] := by
  unfold firstLine
  rw [List.takeWhile_append_of_pos]
  · simp
  · intro b hb
    simp only [bne_iff_ne]
    rintro rfl
    exact hl hb

/-- The end of a block: lines that are not empty, then an empty one. -/
theorem findSub_block {ls : List Bytes} {rest : Bytes} (hne : ls ≠ []) (hls : ∀ l ∈ ls, l ≠ [] ∧ lf ∉ l) :
    (findSub (crlf ++ crlf) (lines ls ++ crlf ++ rest)).map (· + 2) = some (lines ls).length := by
  induction ls with
  | nil => exact absurd rfl hne
  | cons l ls ih =>
      have hl := (hls l (by simp)).2
      rw [lines_cons, List.append_assoc, List.append_assoc, List.cons_append, List.cons_append,
        findSub_line hl]
      cases ls with
      | nil =>
          rw [if_pos (by simp)]
          simp
      | cons m ms =>
          have hm := hls m (by simp)
          have hnot : ¬ crlf <+: lines (m :: ms) ++ (crlf ++ rest) := by
            rw [lines_cons, List.append_assoc]
            exact not_crlf_of_line hm.1 hm.2
          rw [if_neg hnot]
          have h := ih (by simp) fun k hk => hls k (List.mem_cons_of_mem _ hk)
          rw [List.append_assoc] at h
          obtain ⟨i, hi, hlen⟩ := Option.map_eq_some_iff.mp h
          rw [hi]
          simp only [Option.map_some, List.length_append, List.length_cons, ← hlen]
          congr 1
          omega

/-- A block of lines whose first empty line is its end has no other empty line. -/
theorem lines_of_findSub {ls : List Bytes} {i : Nat} (hls : ∀ l ∈ ls, lf ∉ l)
    (hfirst : ¬ crlf <+: lines ls) (hi : findSub (crlf ++ crlf) (lines ls) = some i)
    (hend : i + 4 = (lines ls).length) : ∃ body, ls = body ++ [[]] ∧ ∀ l ∈ body, l ≠ [] := by
  induction ls generalizing i with
  | nil => simp at hend
  | cons l ls ih =>
      have hl : l ≠ [] := by
        rintro rfl
        exact hfirst (by simp [crlf])
      rw [lines_cons, findSub_line (hls l (by simp))] at hi
      split at hi
      · rename_i hnext
        cases hi
        simp only [lines_cons, List.length_append, List.length_cons] at hend
        have hrest : lines ls = crlf := by
          obtain ⟨tail, ht⟩ := hnext
          have : tail = [] := by
            rw [← List.length_eq_zero_iff]
            have := congrArg List.length ht
            simp only [crlf, List.length_append, List.length_cons, List.length_nil] at this
            omega
          rw [← ht, this, List.append_nil]
        refine ⟨[l], ?_, by simpa using hl⟩
        cases ls with
        | nil => simp [crlf] at hrest
        | cons m ms =>
            have hlen := congrArg List.length hrest
            simp only [lines_cons, crlf, List.length_append, List.length_cons, List.length_nil] at hlen
            have hm : m = [] := List.length_eq_zero_iff.mp (by omega)
            cases ms with
            | nil => rw [hm, List.singleton_append]
            | cons k ks =>
                simp only [lines_cons, List.length_append, List.length_cons] at hlen
                omega
      · rename_i hnext
        obtain ⟨j, hj, rfl⟩ := Option.map_eq_some_iff.mp hi
        simp only [lines_cons, List.length_append, List.length_cons] at hend
        obtain ⟨body, rfl, hbody⟩ := ih (fun m hm => hls m (List.mem_cons_of_mem _ hm)) hnext hj (by omega)
        exact ⟨l :: body, rfl, by simpa using ⟨hl, hbody⟩⟩

/-! ## Bytes whose line feeds all end a line -/

theorem lfAfterCr_line {before : UInt8} {l rest : Bytes} (hl : lf ∉ l) :
    lfAfterCr before (l ++ cr :: lf :: rest) = lfAfterCr lf rest := by
  induction l generalizing before with
  | nil => simp [lfAfterCr]
  | cons a l ih =>
      have ha : a ≠ lf := fun h => hl (by simp [h])
      simp [lfAfterCr, ha, ih fun hm => hl (List.mem_cons_of_mem _ hm)]

theorem lfAfterCr_lines {before : UInt8} {ls : List Bytes} (h : ∀ l ∈ ls, lf ∉ l) :
    lfAfterCr before (lines ls) = true := by
  induction ls generalizing before with
  | nil => rfl
  | cons l ls ih =>
      rw [lines_cons, lfAfterCr_line (h l (by simp))]
      exact ih fun m hm => h m (List.mem_cons_of_mem _ hm)

theorem lfAfterCr_of_append {before c : UInt8} {l rest : Bytes}
    (h : lfAfterCr before (l ++ c :: rest) = true) : lfAfterCr c rest = true := by
  induction l generalizing before with
  | nil =>
      simp only [List.nil_append, lfAfterCr, Bool.and_eq_true] at h
      exact h.2
  | cons a l ih =>
      simp only [List.cons_append, lfAfterCr, Bool.and_eq_true] at h
      exact ih h.2

/-- The first line of a string whose line feeds all follow a CR. -/
theorem exists_line_of_lfAfterCr {before : UInt8} {b : Bytes} (hb : before ≠ cr)
    (h : lfAfterCr before b = true) (hlf : lf ∈ b) :
    ∃ l rest, b = l ++ cr :: lf :: rest ∧ lf ∉ l ∧ lfAfterCr lf rest = true := by
  obtain ⟨l, rest, rfl, hl⟩ := List.eq_append_cons_of_mem hlf
  rcases List.eq_nil_or_concat l with rfl | ⟨l, c, rfl⟩
  · simp [lfAfterCr, hb] at h
  · simp only [List.concat_eq_append, List.append_assoc, List.singleton_append] at h hl ⊢
    have hc := lfAfterCr_of_append h
    simp only [lfAfterCr, bne_self_eq_false, Bool.false_or, Bool.and_eq_true, beq_iff_eq] at hc
    obtain ⟨rfl, hrest⟩ := hc
    exact ⟨l, rest, rfl, fun hm => hl (by simp [hm]), hrest⟩

theorem exists_lines_of_lfAfterCr {before : UInt8} {b : Bytes} (hb : before ≠ cr)
    (h : lfAfterCr before b = true) (hlast : ∀ c, b.getLast? = some c → c = lf) :
    ∃ ls, b = lines ls ∧ ∀ l ∈ ls, lf ∉ l := by
  rcases List.eq_nil_or_concat b with rfl | ⟨b', c, hb'⟩
  · exact ⟨[], rfl, by simp⟩
  · have hmem : lf ∈ b := by
      have := hlast c (by simp [hb'])
      simp [hb', this]
    obtain ⟨l, rest, hsplit, hl, hrest⟩ := exists_line_of_lfAfterCr hb h hmem
    have hshort : rest.length < b.length := by
      rw [hsplit, List.length_append, List.length_cons, List.length_cons]
      omega
    obtain ⟨ls, hlines, hls⟩ := exists_lines_of_lfAfterCr (by decide) hrest fun d hd =>
      hlast d (by simp [hsplit, List.getLast?_append, List.getLast?_cons, hd])
    exact ⟨l :: ls, by rw [hsplit, hlines, lines_cons], by simpa using ⟨hl, hls⟩⟩
termination_by b.length

end Selfhost.Lib
