import Selfhost.Mail.Lemmas.Content

/-!
# Stuffed content on the wire

The sender stuffs the lines that CRLFs end and the receiver takes the lines that LFs end. The text is followed
here LF by LF, with a flag for whether the line before ended in CRLF, that is, whether the sender looked at the
line.
-/

namespace Selfhost.Mail

open Selfhost.Lib

/-! ## The sender -/

def stuffFirst (start : Bool) (line : Str) : Str := if start then stuffLine line else line

/-- The stuffed text; its first line is left alone when it continues a line. -/
def sent (start : Bool) (body : Str) : Str :=
  match crlfLines body with
  | [] => []
  | first :: more => ("\r\n".toList).intercalate (stuffFirst start first :: more.map stuffLine)

theorem crlfLines_ne_nil (s : Str) : crlfLines s ≠ [] := by
  fun_induction crlfLines s with
  | case1 => simp
  | case2 s ih => simp
  | case3 c s _ ih => simpa using ih

theorem crlfLines_cons {c : Char} {s : Str} (h : ¬ (c = '\r' ∧ ['\n'] <+: s)) :
    crlfLines (c :: s) = (crlfLines s).modifyHead (c :: ·) := by
  rw [crlfLines]
  rintro s' rfl rfl
  exact h ⟨rfl, s', rfl⟩

theorem crlfLines_last {l : Str} (hl : '\n' ∉ l) : crlfLines l = [l] := by
  induction l with
  | nil => rfl
  | cons c l ih =>
      have hlf : ¬ (c = '\r' ∧ ['\n'] <+: l) := by
        rintro ⟨-, s, rfl⟩
        exact hl (by simp)
      rw [crlfLines_cons hlf, ih (fun h => hl (List.mem_cons_of_mem _ h))]
      rfl

theorem crlfLines_crlf {l rest : Str} (hl : '\n' ∉ l) :
    crlfLines (l ++ '\r' :: '\n' :: rest) = l :: crlfLines rest := by
  induction l with
  | nil => rw [List.nil_append, crlfLines]
  | cons c l ih =>
      have hlf : ¬ (c = '\r' ∧ ['\n'] <+: l ++ '\r' :: '\n' :: rest) := by
        rintro ⟨-, hpre⟩
        cases l with
        | nil => exact absurd (List.cons_prefix_cons.mp hpre).1 (by decide)
        | cons d l =>
            obtain rfl : '\n' = d := (List.cons_prefix_cons.mp hpre).1
            exact hl (by simp)
      rw [List.cons_append, crlfLines_cons hlf, ih (fun h => hl (List.mem_cons_of_mem _ h))]
      rfl

theorem crlfLines_lf {l rest : Str} (hl : '\n' ∉ l) (hcr : ¬ ['\r'] <:+ l) :
    crlfLines (l ++ '\n' :: rest) = (crlfLines rest).modifyHead (l ++ '\n' :: ·) := by
  induction l with
  | nil =>
      rw [List.nil_append, crlfLines_cons (fun h => absurd h.1 (by decide))]
      rfl
  | cons c l ih =>
      have hlf : ¬ (c = '\r' ∧ ['\n'] <+: l ++ '\n' :: rest) := by
        rintro ⟨rfl, hpre⟩
        cases l with
        | nil => exact hcr ⟨[], rfl⟩
        | cons d l =>
            obtain rfl : '\n' = d := (List.cons_prefix_cons.mp hpre).1
            exact hl (by simp)
      rw [List.cons_append, crlfLines_cons hlf,
        ih (fun h => hl (List.mem_cons_of_mem _ h)) (fun h => hcr (h.trans (List.suffix_cons _ _))),
        List.modifyHead_modifyHead]
      rfl

theorem sent_true (body : Str) : sent true body = applyDotStuffing body := by
  rw [sent, applyDotStuffing]
  cases h : crlfLines body with
  | nil => rfl
  | cons first more => rfl

theorem stuffFirst_append {start : Bool} {l t : Str} {c : Char} (hc : c ≠ '.') :
    stuffFirst start (l ++ c :: t) = stuffFirst start l ++ c :: t := by
  cases start with
  | false => rfl
  | true =>
      cases l with
      | nil =>
          simp only [stuffFirst, stuffLine, List.nil_append, if_true]
          split
          · rename_i heq
            exact absurd (List.cons.inj heq).1 hc
          · rfl
      | cons d l =>
          by_cases hd : d = '.'
          · subst hd
            rfl
          · simp [stuffFirst, stuffLine, hd]

theorem sent_last {start : Bool} {l : Str} (hl : '\n' ∉ l) : sent start l = stuffFirst start l := by
  rw [sent, crlfLines_last hl]
  exact List.intercalate_singleton

/-- The sender's text, LF by LF. -/
theorem sent_line {start : Bool} {l rest : Str} (hl : '\n' ∉ l) :
    sent start (l ++ '\n' :: rest) = stuffFirst start l ++ '\n' :: sent (decide (['\r'] <:+ l)) rest := by
  obtain ⟨first, more, hrest⟩ := List.exists_cons_of_ne_nil (crlfLines_ne_nil rest)
  by_cases hcr : ['\r'] <:+ l
  · rw [decide_eq_true hcr]
    obtain ⟨l, rfl⟩ := hcr
    rw [List.append_assoc, List.singleton_append, sent, crlfLines_crlf (fun h => hl (List.mem_append_left _ h)),
      stuffFirst_append (by decide), sent, hrest]
    dsimp only
    rw [List.map_cons, List.intercalate_cons_cons, List.append_assoc, List.append_assoc]
    rfl
  · rw [decide_eq_false hcr, sent, crlfLines_lf hl hcr, sent, hrest, List.modifyHead_cons]
    dsimp only
    rw [stuffFirst_append (by decide)]
    cases more with
    | nil => simp [stuffFirst]
    | cons next more => simp [stuffFirst, List.intercalate_cons_cons]

/-! ## The receiver -/

/-- A line that loses its first dot when nobody stuffed it. -/
def Doubled (line : Str) : Prop := ['.', '.'] <+: line

/-- A line that ends the message when nobody stuffed it. -/
def Lone (line : Str) : Prop := line = ['.'] ∨ line = ['.', '\r']

theorem utf8_injective {s t : Str} (h : utf8 s = utf8 t) : s = t := by
  have hs := fromUtf8_utf8 s
  rw [h, fromUtf8_utf8] at hs
  exact (Option.some.inj hs).symm

theorem lf_not_mem_utf8 {l : Str} (hl : '\n' ∉ l) : lf ∉ utf8 l := by
  intro h
  exact hl (mem_of_mem_utf8 h (by decide))

theorem utf8_dot_cons (l : Str) : utf8 ('.' :: l) = dot :: utf8 l := by
  rw [utf8_cons]
  rfl

/-- A text that starts with the byte of a dot starts with a dot. -/
theorem exists_cons_of_dot {l : Str} {b : UInt8} {x : Bytes} (hb : b ≠ dot) (h : dot :: x = utf8 l ++ [b]) :
    ∃ t, l = '.' :: t ∧ utf8 t ++ [b] = x := by
  cases l with
  | nil => exact absurd (List.cons.inj h).1.symm hb
  | cons c l =>
      obtain ⟨d, ds, hd⟩ := List.exists_cons_of_ne_nil (String.utf8EncodeChar_ne_nil (c := c))
      have hdot : dot ∈ utf8 [c] := by
        rw [utf8_cons, hd, List.cons_append, List.cons_append] at h
        rw [utf8_cons, hd, (List.cons.inj h).1]
        exact List.mem_cons_self
      have hc : c = '.' := (List.mem_singleton.mp (mem_of_mem_utf8 hdot (by decide))).symm
      subst hc
      rw [utf8_dot_cons, List.cons_append] at h
      exact ⟨l, rfl, (List.cons.inj h).2.symm⟩

theorem isTerminator_utf8_iff {l : Str} : isTerminator (utf8 l ++ [lf]) = true ↔ Lone l := by
  have hconcat : ∀ d : Str, utf8 l ++ [lf] = utf8 d ++ [lf] ↔ l = d := fun d =>
    ⟨fun h => utf8_injective (List.append_cancel_right h), fun h => by rw [h]⟩
  have hone := hconcat ['.', '\r']
  have htwo := hconcat ['.']
  have hthree : utf8 l ++ [lf] ≠ [dot] := by
    intro h
    rcases List.append_eq_singleton_iff.mp h with ⟨-, h⟩ | ⟨-, h⟩
    · exact absurd h (by decide)
    · cases h
  rw [isTerminator_iff]
  constructor
  · rintro (h | h | h)
    · exact Or.inr (hone.mp h)
    · exact Or.inl (htwo.mp h)
    · exact absurd h hthree
  · rintro (h | h)
    · exact Or.inr (Or.inl (htwo.mpr h))
    · exact Or.inl (hone.mpr h)

theorem doubled_iff {l : Str} {b : UInt8} (hb : b ≠ dot) : [dot, dot] <+: utf8 l ++ [b] ↔ Doubled l := by
  constructor
  · rintro ⟨y, hy⟩
    obtain ⟨t, rfl, ht⟩ := exists_cons_of_dot hb hy
    obtain ⟨v, rfl, -⟩ := exists_cons_of_dot hb ht.symm
    exact ⟨v, rfl⟩
  · rintro ⟨t, rfl⟩
    exact ⟨utf8 t ++ [b], by rw [utf8_append]; rfl⟩

/-- A line that the sender stuffed is read as it was. -/
theorem unstuff_stuffLine (l : Str) :
    isTerminator (utf8 (stuffLine l) ++ [lf]) = false ∧ unstuff (utf8 (stuffLine l) ++ [lf]) = utf8 l ++ [lf] := by
  rw [← Bool.not_eq_true, isTerminator_utf8_iff, unstuff]
  unfold stuffLine
  split
  · rename_i rest
    refine ⟨?_, ?_⟩
    · rintro (h | h) <;> simp at h
    · have hdoubled : Doubled ('.' :: '.' :: rest) := ⟨rest, rfl⟩
      rw [if_pos ((doubled_iff (by decide)).mpr hdoubled), utf8_dot_cons]
      rfl
  · rename_i hdot
    refine ⟨?_, if_neg fun hdots => ?_⟩
    · rintro (rfl | rfl)
      · exact hdot [] rfl
      · exact hdot ['\r'] rfl
    · obtain ⟨t, rfl⟩ := (doubled_iff (by decide)).mp hdots
      exact hdot ('.' :: t) rfl

section Line

variable {max : UInt64} {b y : Bytes} {l : Str} {start : Bool}

theorem lf_not_mem_stuffFirst (hl : '\n' ∉ l) : lf ∉ utf8 (stuffFirst start l) := by
  apply lf_not_mem_utf8
  unfold stuffFirst stuffLine
  split
  · split
    · simpa using hl
    · exact hl
  · exact hl

/-- A line that the sender stuffed or that needs no stuffing is read as it was. -/
theorem readData_intact (hl : '\n' ∉ l) (hfits : b.length + (utf8 l).length + 1 ≤ max.toNat)
    (h : start = false → ¬ (Doubled l ∨ Lone l)) :
    readData max ⟨b, [], false⟩ (utf8 (stuffFirst start l) ++ lf :: y) =
      readData max ⟨b ++ (utf8 l ++ [lf]), [], false⟩ y := by
  have hline : isTerminator (utf8 (stuffFirst start l) ++ [lf]) = false ∧
      unstuff (utf8 (stuffFirst start l) ++ [lf]) = utf8 l ++ [lf] := by
    cases start with
    | true => exact unstuff_stuffLine l
    | false =>
        obtain ⟨hdoubled, hlone⟩ := not_or.mp (h rfl)
        refine ⟨?_, ?_⟩
        · rw [← Bool.not_eq_true]
          exact fun hterm => hlone (isTerminator_utf8_iff.mp hterm)
        · exact if_neg fun hdots => hdoubled ((doubled_iff (by decide)).mp hdots)
  rw [readData_line (lf_not_mem_stuffFirst hl), takeLine_fits hline.1]
  · rw [hline.2]
  · rw [hline.2, List.length_append, List.length_singleton]
    omega

theorem readData_lone (h : Lone l) :
    readData max ⟨b, [], false⟩ (utf8 (stuffFirst false l) ++ lf :: y) = (.terminated b false, y) := by
  have hl : '\n' ∉ l := by rcases h with rfl | rfl <;> decide
  rw [readData_line (lf_not_mem_stuffFirst hl)]
  rw [show stuffFirst false l = l from rfl]
  rw [takeLine_terminator (isTerminator_utf8_iff.mpr h)]

theorem readData_doubled (hl : '\n' ∉ l) (hfits : b.length + (utf8 l).length + 1 ≤ max.toNat) (h : Doubled l) :
    ∃ b', b'.length < b.length + (utf8 l).length + 1 ∧
      readData max ⟨b, [], false⟩ (utf8 (stuffFirst false l) ++ lf :: y) = readData max ⟨b', [], false⟩ y := by
  have hterm : isTerminator (utf8 l ++ [lf]) = false := by
    rw [← Bool.not_eq_true, isTerminator_utf8_iff]
    obtain ⟨t, rfl⟩ := h
    rintro (h | h) <;> simp at h
  have hshort : (unstuff (utf8 l ++ [lf])).length = (utf8 l).length := by
    rw [unstuff, if_pos ((doubled_iff (by decide)).mpr h), List.length_drop, List.length_append]
    exact Nat.add_sub_cancel _ _
  refine ⟨b ++ unstuff (utf8 l ++ [lf]), ?_, ?_⟩
  · rw [List.length_append, hshort]
    omega
  · rw [readData_line (lf_not_mem_stuffFirst hl)]
    rw [show stuffFirst false l = l from rfl]
    rw [takeLine_fits hterm (by rw [hshort]; omega)]

end Line

end Selfhost.Mail
