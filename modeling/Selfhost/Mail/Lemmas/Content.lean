import Selfhost.Mail.Receive

/-!
# How the content of a message is read

The receiver takes the content line by line, where a line is what stands between two LFs. A line with nothing
but a dot ends the message, whatever ends the line; the lemmas here say which line that is.
-/

namespace Selfhost.Mail

open Selfhost.Lib

/-- A stream has no LF, or it is a line with its LF and a stream. -/
theorem line_induction {α : Type} [DecidableEq α] (sep : α) {motive : List α → Prop}
    (last : ∀ l, sep ∉ l → motive l) (line : ∀ l rest, sep ∉ l → motive rest → motive (l ++ sep :: rest))
    (x : List α) : motive x := by
  induction hn : x.length using Nat.strong_induction_on generalizing x with
  | h n ih =>
      cases hx : splitOnce sep x with
      | none => exact last x (splitOnce_none.mp hx)
      | some p =>
          obtain ⟨rfl, hl⟩ := splitOnce_some hx
          refine line p.1 p.2 hl (ih p.2.length ?_ p.2 rfl)
          rw [← hn]
          simp only [List.length_append, List.length_cons]
          omega

/-- A separator of a stream is the end of its first line or one of the rest. -/
theorem split_after {α : Type} {sep : α} {l rest before after : List α} (hl : sep ∉ l)
    (h : l ++ sep :: rest = before ++ sep :: after) :
    (before = l ∧ after = rest) ∨ ∃ more, before = l ++ sep :: more ∧ rest = more ++ sep :: after := by
  rcases List.append_eq_append_iff.mp h with ⟨d, hd, hx⟩ | ⟨d, hd, hx⟩
  · cases d with
    | nil =>
        rw [List.append_nil] at hd
        exact Or.inl ⟨hd, (List.cons.inj hx).2.symm⟩
    | cons c d =>
        obtain ⟨rfl, hrest⟩ := List.cons.inj hx
        exact Or.inr ⟨d, hd, hrest⟩
  · cases d with
    | nil =>
        rw [List.append_nil] at hd
        exact Or.inl ⟨hd.symm, (List.cons.inj hx).2⟩
    | cons c d =>
        obtain ⟨rfl, -⟩ := List.cons.inj hx
        exact absurd (hd ▸ by simp) hl

/-! ## One line -/

theorem isTerminator_iff {line : Bytes} :
    isTerminator line = true ↔ line = [dot, cr, lf] ∨ line = [dot, lf] ∨ line = [dot] := by
  simp [isTerminator, or_assoc]

theorem readData_open {max : UInt64} {b line l input : Bytes} {o : Bool} (hl : lf ∉ l) :
    readData max ⟨b, line, o⟩ (l ++ input) = readData max ⟨b, line ++ l, o⟩ input := by
  induction l generalizing line with
  | nil => rw [List.nil_append, List.append_nil]
  | cons c l ih =>
      have hc : c ≠ lf := fun h => hl (h ▸ List.mem_cons_self)
      rw [List.cons_append, readData, if_neg hc, DataState.push, ih (fun h => hl (List.mem_cons_of_mem _ h)),
        List.append_assoc]
      rfl

theorem readData_line {max : UInt64} {b l input : Bytes} {o : Bool} (hl : lf ∉ l) :
    readData max ⟨b, [], o⟩ (l ++ lf :: input) =
      match DataState.takeLine max ⟨b, l ++ [lf], o⟩ with
      | .error e => (e, input)
      | .ok st => readData max st input := by
  rw [readData_open hl, readData, if_pos rfl]
  rfl

theorem readData_last {max : UInt64} {b l : Bytes} {o : Bool} (hl : lf ∉ l) :
    readData max ⟨b, [], o⟩ l =
      if l = [] then (.closed, [])
      else
        match DataState.takeLine max ⟨b, l, o⟩ with
        | .error e => (e, [])
        | .ok _ => (.closed, []) := by
  have h := @readData_open max b [] l [] o hl
  rw [List.append_nil, List.nil_append] at h
  rewrite [h, readData]
  rfl

theorem takeLine_terminator {max : UInt64} {b line : Bytes} {o : Bool} (h : isTerminator line = true) :
    DataState.takeLine max ⟨b, line, o⟩ = .error (.terminated b o) := by
  rw [DataState.takeLine, if_pos h]

theorem readData_end {max : UInt64} {b y : Bytes} {o : Bool} :
    readData max ⟨b, [], o⟩ (dot :: cr :: lf :: y) = (.terminated b o, y) := by
  have hline := @readData_line max b [dot, cr] y o (by decide)
  rw [takeLine_terminator (by decide)] at hline
  exact hline

/-- A line that is kept. -/
theorem takeLine_fits {max : UInt64} {b line : Bytes} {o : Bool} (h : isTerminator line = false)
    (hfits : b.length + (unstuff line).length ≤ max.toNat) :
    DataState.takeLine max ⟨b, line, o⟩ = .ok ⟨b ++ unstuff line, [], o⟩ := by
  rw [DataState.takeLine, if_neg (by simp [h])]
  exact if_pos hfits

/-- What a line can do, when it does not end the message as a whole. -/
theorem takeLine_cases {max : UInt64} {b line : Bytes} {o : Bool} (h : isTerminator line = false) :
    DataState.takeLine max ⟨b, line, o⟩ = .error .tooLarge ∨
      ∃ b' o', DataState.takeLine max ⟨b, line, o⟩ = .ok ⟨b', [], o'⟩ := by
  rw [DataState.takeLine, if_neg (by simp [h])]
  dsimp only
  split
  · exact Or.inr ⟨_, _, rfl⟩
  · split
    · exact Or.inl rfl
    · exact Or.inr ⟨_, _, rfl⟩

theorem takeLine_none_kept {line : Bytes} {o : Bool} (h : isTerminator line = false) (hline : line ≠ []) :
    DataState.takeLine 0 ⟨[], line, o⟩ = .ok ⟨[], [], true⟩ := by
  have hkept : unstuff line ≠ [] := by
    unfold unstuff
    split
    · rename_i hdots
      obtain ⟨tail, rfl⟩ := hdots
      simp
    · exact hline
  have hlength : ¬ ([] : Bytes).length + (unstuff line).length ≤ (0 : UInt64).toNat := by
    have := List.length_pos_iff.mpr hkept
    simp only [List.length_nil, UInt64.toNat_zero]
    omega
  have hceiling : ¬ (hardCeiling 0).toNat ≤ ([] : Bytes).length := by decide
  rw [DataState.takeLine, if_neg (by simp [h])]
  exact (if_neg hlength).trans (if_neg hceiling)

/-! ## The line that ends the message -/

/-- A line of `x` with nothing but a dot, and what stands before and after it. -/
structure LoneDot (x before line after : Bytes) : Prop where
  split : x = before ++ (line ++ after)
  start : before = [] ∨ [lf] <:+ before
  lone : line = [dot, cr, lf] ∨ line = [dot, lf] ∨ (line = [dot] ∧ after = [])

theorem LoneDot.isTerminator {x before line after : Bytes} (h : LoneDot x before line after) :
    isTerminator line = true := by
  rcases h.lone with h | h | ⟨h, -⟩ <;> exact isTerminator_iff.mpr (by simp [h])

theorem LoneDot.push {x before line after l : Bytes} (h : LoneDot x before line after) :
    LoneDot (l ++ lf :: x) (l ++ lf :: before) line after := by
  refine ⟨by rw [h.split]; simp, Or.inr ?_, h.lone⟩
  rcases h.start with rfl | ⟨p, rfl⟩
  · exact ⟨l, rfl⟩
  · exact ⟨l ++ lf :: p, by simp⟩

/-- A lone dot of a stream is its first line or one of the rest. -/
theorem LoneDot.cases {l x before line after : Bytes} (hl : lf ∉ l)
    (h : LoneDot (l ++ lf :: x) before line after) :
    (before = [] ∧ line = l ++ [lf] ∧ after = x) ∨
      ∃ before', before = l ++ lf :: before' ∧ LoneDot x before' line after := by
  have hsplit := h.split
  rcases h.start with rfl | ⟨p, rfl⟩
  · left
    rw [List.nil_append] at hsplit
    have hfirst : ∀ d : Bytes, lf ∉ d → line = d ++ [lf] → line = l ++ [lf] ∧ after = x := by
      rintro d hd rfl
      have hone := splitOnce_append (b := after) hd
      have htwo := splitOnce_append (b := x) hl
      rw [hsplit, List.append_assoc, List.singleton_append, hone] at htwo
      obtain ⟨rfl, rfl⟩ := Prod.mk.inj (Option.some.inj htwo)
      exact ⟨rfl, rfl⟩
    rcases h.lone with hline | hline | ⟨hline, hafter⟩
    · exact ⟨rfl, hfirst [dot, cr] (by decide) hline⟩
    · exact ⟨rfl, hfirst [dot] (by decide) hline⟩
    · rw [hline, hafter] at hsplit
      have hmem : lf ∈ ([dot] ++ [] : Bytes) := hsplit ▸ by simp
      exact absurd hmem (by decide)
  · right
    rw [List.append_assoc] at hsplit
    rcases split_after hl hsplit with ⟨rfl, hx⟩ | ⟨more, rfl, hx⟩
    · exact ⟨[], rfl, hx.symm, Or.inl rfl, h.lone⟩
    · exact ⟨more ++ [lf], by simp, by rw [hx]; simp, Or.inr ⟨more, rfl⟩, h.lone⟩

/-- The message ends at the first lone dot. -/
theorem first_of_terminated {max : UInt64} {x b b' rest : Bytes} {o o' : Bool}
    (h : readData max ⟨b, [], o⟩ x = (.terminated b' o', rest)) :
    ∃ before line, LoneDot x before line rest ∧
      ∀ before' line' after', LoneDot x before' line' after' → before.length ≤ before'.length := by
  induction x using line_induction lf generalizing b o with
  | last l hl =>
      rw [readData_last hl] at h
      split at h
      · cases h
      · cases hline : isTerminator l with
        | false =>
            rcases @takeLine_cases max b _ o hline with ht | ⟨c, p, ht⟩ <;> rw [ht] at h <;>
              cases h
        | true =>
            rw [takeLine_terminator hline] at h
            cases h
            refine ⟨[], l, ⟨by simp, Or.inl rfl, ?_⟩, fun _ _ _ _ => Nat.zero_le _⟩
            rcases isTerminator_iff.mp hline with rfl | rfl | rfl
            · exact absurd (by decide) hl
            · exact absurd (by decide) hl
            · exact Or.inr (Or.inr ⟨rfl, rfl⟩)
  | line l x hl ih =>
      rw [readData_line hl] at h
      cases hline : isTerminator (l ++ [lf]) with
      | true =>
          rw [takeLine_terminator hline] at h
          cases h
          refine ⟨[], l ++ [lf], ⟨by simp, Or.inl rfl, ?_⟩, fun _ _ _ _ => Nat.zero_le _⟩
          rcases isTerminator_iff.mp hline with hline | hline | hline
          · exact Or.inl hline
          · exact Or.inr (Or.inl hline)
          · have hmem : lf ∈ [dot] := hline ▸ by simp
            exact absurd hmem (by decide)
      | false =>
          rcases @takeLine_cases max b _ o hline with ht | ⟨c, p, ht⟩
          · rw [ht] at h
            cases h
          · rw [ht] at h
            obtain ⟨before, line, hdot, hfirst⟩ := ih h
            refine ⟨l ++ lf :: before, line, hdot.push, fun before' line' after' hdot' => ?_⟩
            rcases hdot'.cases hl with ⟨-, rfl, -⟩ | ⟨before'', rfl, hdot''⟩
            · rw [hdot'.isTerminator] at hline
              cases hline
            · have := hfirst before'' line' after' hdot''
              simp only [List.length_append, List.length_cons]
              omega

/-- A stream with a lone dot ends there, also when nothing of the content is kept. -/
theorem terminated_of_loneDot {x before line after : Bytes} {o : Bool} (h : LoneDot x before line after) :
    ∃ o' rest, readData 0 ⟨[], [], o⟩ x = (.terminated [] o', rest) := by
  induction x using line_induction lf generalizing before o with
  | last l hl =>
      have hbefore : before = [] := by
        rcases h.start with hbefore | ⟨p, rfl⟩
        · exact hbefore
        · exact absurd (h.split ▸ by simp) hl
      have hline : l = line := by
        rcases h.lone with hline | hline | ⟨-, hafter⟩
        · exact absurd (h.split ▸ by simp [hline]) hl
        · exact absurd (h.split ▸ by simp [hline]) hl
        · rw [h.split, hbefore, hafter, List.append_nil, List.nil_append]
      have hterm : isTerminator l = true := hline ▸ h.isTerminator
      have hne : l ≠ [] := by
        rintro rfl
        cases hterm
      rw [readData_last hl, if_neg hne, takeLine_terminator hterm]
      exact ⟨_, _, rfl⟩
  | line l x hl ih =>
      rw [readData_line hl]
      cases hline : isTerminator (l ++ [lf]) with
      | true =>
          rw [takeLine_terminator hline]
          exact ⟨_, _, rfl⟩
      | false =>
          rw [takeLine_none_kept hline (by simp)]
          rcases h.cases hl with ⟨-, rfl, -⟩ | ⟨before', -, hdot⟩
          · rw [h.isTerminator] at hline
            cases hline
          · exact ih hdot

end Selfhost.Mail
