import Selfhost.Mail.Lemmas.Stuffing

/-!
# Where messages and commands end

The receiver ends a message at the first line with nothing but a dot, also when a bare LF stands before or after
the dot. `framing_iff` says for which streams this is the first `CRLF . CRLF`, for which texts the stuffed text
comes back as it was, and which command lines the session gets as a whole.
-/

namespace Selfhost.Mail

open Selfhost.Lib

/-! ## The end of the content -/

/-- The sequence that ends a message. -/
def terminator : Bytes := crlf ++ dot :: crlf

/-- If the message is ended, then by the first terminator; the CRLF of the `DATA` line counts. -/
def EndsAtTerminator (x : Bytes) : Prop :=
  ∀ max body oversize rest, readData max .start x = (.terminated body oversize, rest) →
    ∃ before, crlf ++ x = before ++ (terminator ++ rest) ∧ findSub terminator (crlf ++ x) = some before.length

/-- No lone dot stands before the first terminator. -/
def DotsTerminated (x : Bytes) : Prop :=
  ∀ before line after, LoneDot x before line after → ∃ n ≤ before.length, terminator <+: (crlf ++ x).drop n

/-- A terminator is a lone dot between CRLFs. -/
theorem loneDot_of_terminator {x : Bytes} {n : Nat} (h : terminator <+: (crlf ++ x).drop n) :
    ∃ before after, LoneDot x before [dot, cr, lf] after ∧ before.length = n ∧
      terminator ++ after = (crlf ++ x).drop n := by
  obtain ⟨after, hafter⟩ := h
  match n, hafter with
  | 0, hafter =>
      refine ⟨[], after, ⟨?_, Or.inl rfl, Or.inl rfl⟩, rfl, hafter⟩
      have hcancel : crlf ++ (dot :: cr :: lf :: after) = crlf ++ x := hafter
      exact (List.append_cancel_left hcancel).symm
  | 1, hafter => exact absurd (List.cons.inj hafter).1 (by decide)
  | n + 2, hafter =>
      have hx : x = x.take n ++ (crlf ++ dot :: crlf ++ after) := by
        conv_lhs => rw [← List.take_append_drop n x]
        rw [← show terminator ++ after = x.drop n from hafter]
        rfl
      have hn : n ≤ x.length := by
        by_contra hlt
        have hnil : x.drop n = [] := List.drop_eq_nil_of_le (by omega)
        have hfalse : terminator ++ after = [] := hafter.trans hnil
        cases hfalse
      refine ⟨x.take n ++ crlf, after, ⟨?_, Or.inr ⟨x.take n ++ [cr], by simp [crlf]⟩, Or.inl rfl⟩, ?_, hafter⟩
      · conv_lhs => rw [hx]
        simp [crlf]
      · simp [crlf, hn]

/-- A message is ended by a terminator exactly when no other lone dot comes first. -/
theorem endsAtTerminator_iff (x : Bytes) : EndsAtTerminator x ↔ DotsTerminated x := by
  constructor
  · intro h before line after hdot
    obtain ⟨o, rest, hread⟩ := terminated_of_loneDot (o := false) hdot
    obtain ⟨first, lone, hfirst, hleast⟩ := first_of_terminated hread
    obtain ⟨start, hsplit, hfind⟩ := h 0 [] o rest hread
    have hlone : lone.length ≤ 3 := by rcases hfirst.lone with rfl | rfl | ⟨rfl, -⟩ <;> decide
    have hlengths := congrArg List.length hsplit
    have hlength := congrArg List.length hfirst.split
    have hbefore := hleast before line after hdot
    simp only [List.length_append, show crlf.length = 2 from rfl, show terminator.length = 5 from rfl] at *
    exact ⟨start.length, by omega, (findSub_eq_some_iff.mp hfind).2.1⟩
  · intro h max body oversize rest hread
    obtain ⟨first, lone, hfirst, hleast⟩ := first_of_terminated hread
    obtain ⟨n, hn, hterm⟩ := h first lone rest hfirst
    have hearliest : ∀ m, terminator <+: (crlf ++ x).drop m → first.length ≤ m := by
      intro m hm
      obtain ⟨before, after, hdot, rfl, -⟩ := loneDot_of_terminator hm
      exact hleast before _ after hdot
    obtain rfl : n = first.length := Nat.le_antisymm hn (hearliest n hterm)
    obtain ⟨before, after, hdot, hbefore, hdrop⟩ := loneDot_of_terminator hterm
    obtain ⟨rfl, hlines⟩ := List.append_inj (hdot.split.symm.trans hfirst.split) hbefore
    obtain rfl : after = rest := by
      rcases hfirst.lone with rfl | rfl | ⟨rfl, rfl⟩
      · exact List.append_cancel_left hlines
      · exact absurd (List.cons.inj (List.cons.inj hlines).2).1 (by decide)
      · cases hlines
    have hlength : before.length ≤ (crlf ++ x).length := by
      rw [hdot.split]
      simp only [List.length_append]
      omega
    refine ⟨(crlf ++ x).take before.length, ?_, ?_⟩
    · rw [hdrop, List.take_append_drop]
    · rw [List.length_take_of_le hlength]
      exact findSub_eq_some_iff.mpr ⟨hlength, hterm, fun m hm hpre => absurd (hearliest m hpre) (by omega)⟩

/-! ## Stuffed content -/

/-- The text comes back as it was, with the CRLF that ends its last line, and the stream is left behind the
terminator. -/
def ReadsBack (max : UInt64) (body : Str) : Prop :=
  ∀ rest, readData max .start (utf8 (applyDotStuffing body) ++ (terminator ++ rest)) =
    (.terminated (utf8 body ++ crlf) false, rest)

/-- A text whose first line would be changed or would end the message. -/
def Hazard (text : Str) : Prop := ['.', '.'] <+: text ∨ ['.', '\n'] <+: text ∨ ['.', '\r', '\n'] <+: text

/-- No line that a bare LF starts is a hazard. -/
def Clean (body : Str) : Prop :=
  ∀ before after, body ++ ['\r', '\n'] = before ++ '\n' :: after → ¬ ['\r'] <:+ before → ¬ Hazard after

theorem hazard_line_iff {l t : Str} (hl : '\n' ∉ l) : Hazard (l ++ '\n' :: t) ↔ Doubled l ∨ Lone l := by
  have hlf : ∀ {c : Char} {s : Str}, '\n' ∉ c :: s → '\n' ≠ c := fun h hc => h (hc ▸ List.mem_cons_self)
  constructor
  · match l, hl with
    | [], _ => rintro (⟨s, hs⟩ | ⟨s, hs⟩ | ⟨s, hs⟩) <;> cases hs
    | [a], hl =>
        rintro (⟨s, hs⟩ | ⟨s, hs⟩ | ⟨s, hs⟩) <;> cases hs
        exact Or.inr (Or.inl rfl)
    | [a, b], hl =>
        rintro (⟨s, hs⟩ | ⟨s, hs⟩ | ⟨s, hs⟩) <;> cases hs
        · exact Or.inl ⟨[], rfl⟩
        · exact absurd (by simp) hl
        · exact Or.inr (Or.inr rfl)
    | a :: b :: c :: l, hl =>
        rintro (⟨s, hs⟩ | ⟨s, hs⟩ | ⟨s, hs⟩) <;> cases hs
        · exact Or.inl ⟨c :: l, rfl⟩
        · exact absurd (by simp) hl
        · exact absurd (by simp) hl
  · rintro (⟨s, rfl⟩ | rfl | rfl)
    · exact Or.inl ⟨s ++ '\n' :: t, rfl⟩
    · exact Or.inr (Or.inl ⟨t, rfl⟩)
    · exact Or.inr (Or.inr ⟨t, rfl⟩)

/-- `Clean`, for a text that may start behind a bare LF. -/
def CleanFrom (start : Bool) (body : Str) : Prop :=
  (start = false → ¬ Hazard (body ++ ['\r', '\n'])) ∧ Clean body

theorem cleanFrom_last {start : Bool} {l : Str} (hl : '\n' ∉ l) :
    CleanFrom start l ↔ (start = false → ¬ (Doubled (l ++ ['\r']) ∨ Lone (l ++ ['\r']))) := by
  have hcr : '\n' ∉ l ++ ['\r'] := by simpa using hl
  have hclean : Clean l := by
    intro before after hsplit hbare _
    have hlast : (l ++ ['\r']) ++ '\n' :: [] = before ++ '\n' :: after := by rw [← hsplit]; simp
    rcases split_after hcr hlast with ⟨rfl, -⟩ | ⟨more, -, hmore⟩
    · exact hbare ⟨l, rfl⟩
    · exact absurd hmore.symm (by simp)
  rw [CleanFrom, ← hazard_line_iff (t := []) hcr, List.append_assoc]
  exact ⟨fun h => h.1, fun h => ⟨h, hclean⟩⟩

theorem cr_suffix_line {l b : Str} : ['\r'] <:+ l ++ '\n' :: b ↔ ['\r'] <:+ b := by
  refine ⟨?_, fun h => h.trans ((List.suffix_cons _ _).trans (List.suffix_append _ _))⟩
  rintro ⟨t, ht⟩
  rcases List.eq_nil_or_concat b with rfl | ⟨b, c, rfl⟩
  · exact absurd (List.append_inj' ht rfl).2 (by decide)
  · have hlast : t ++ ['\r'] = (l ++ '\n' :: b) ++ [c] := by rw [ht]; simp
    rw [List.concat_eq_append, ← (List.append_inj' hlast rfl).2]
    exact ⟨b, rfl⟩

theorem cleanFrom_line {start : Bool} {l rest : Str} (hl : '\n' ∉ l) :
    CleanFrom start (l ++ '\n' :: rest) ↔
      (start = false → ¬ (Doubled l ∨ Lone l)) ∧ CleanFrom (decide (['\r'] <:+ l)) rest := by
  have hsplit : (l ++ '\n' :: rest) ++ ['\r', '\n'] = l ++ '\n' :: (rest ++ ['\r', '\n']) := by simp
  rw [CleanFrom, hsplit, hazard_line_iff hl, CleanFrom, Clean, hsplit]
  refine and_congr_right fun _ => ⟨fun h => ⟨fun hbare => ?_, fun before after hrest hbare => ?_⟩, ?_⟩
  · exact h l _ rfl (of_decide_eq_false hbare)
  · exact h (l ++ '\n' :: before) after (by rw [hrest]; simp) (fun hcr => hbare (cr_suffix_line.mp hcr))
  · rintro ⟨hfirst, hrest⟩ before after hbefore hbare
    rcases split_after hl hbefore with ⟨rfl, rfl⟩ | ⟨more, rfl, hmore⟩
    · exact hfirst (decide_eq_false hbare)
    · exact hrest more after hmore (fun hcr => hbare (cr_suffix_line.mpr hcr))

/-- The text on the wire, up to the first LF. -/
theorem sent_last_wire {start : Bool} {l : Str} {rest : Bytes} (hl : '\n' ∉ l) :
    utf8 (sent start l) ++ (terminator ++ rest) =
      utf8 (stuffFirst start (l ++ ['\r'])) ++ lf :: dot :: cr :: lf :: rest := by
  rw [sent_last hl, stuffFirst_append (by decide), utf8_append, List.append_assoc]
  rfl

theorem sent_line_wire {start : Bool} {l body : Str} {rest : Bytes} (hl : '\n' ∉ l) :
    utf8 (sent start (l ++ '\n' :: body)) ++ (terminator ++ rest) =
      utf8 (stuffFirst start l) ++ lf :: (utf8 (sent (decide (['\r'] <:+ l)) body) ++ (terminator ++ rest)) := by
  rw [sent_line hl, utf8_append, utf8_cons, List.append_assoc]
  rfl

/-- A line of the wire adds no more than the line of the text. -/
theorem length_le_of_line {max : UInt64} {b b' y rest : Bytes} {o o' start : Bool} {l : Str} {n : Nat}
    (hl : '\n' ∉ l)
    (hnext : ∀ {c p}, readData max ⟨c, [], p⟩ y = (.terminated b' o', rest) → b'.length ≤ c.length + n)
    (h : readData max ⟨b, [], o⟩ (utf8 (stuffFirst start l) ++ lf :: y) = (.terminated b' o', rest)) :
    b'.length ≤ b.length + (utf8 l).length + 1 + n := by
  have hline : (unstuff (utf8 (stuffFirst start l) ++ [lf])).length ≤ (utf8 l).length + 1 := by
    cases start with
    | true =>
        have := (unstuff_stuffLine l).2
        rw [show stuffFirst true l = stuffLine l from rfl, this, List.length_append]
        exact Nat.le_refl _
    | false =>
        unfold unstuff
        split
        · rw [List.length_drop, List.length_append]
          exact Nat.sub_le _ _
        · rw [List.length_append]
          exact Nat.le_refl _
  rw [readData_line (lf_not_mem_stuffFirst hl), DataState.takeLine] at h
  dsimp only at h
  split at h
  · rename_i he
    split at he
    · cases he
      cases h
      omega
    · split at he
      · cases he
      · split at he
        · cases he
          cases h
        · cases he
  · rename_i he
    split at he
    · cases he
    · split at he
      · cases he
        have := hnext h
        rw [List.length_append] at this
        omega
      · split at he
        · cases he
        · cases he
          have := hnext h
          omega

/-- What is read is no longer than the text. -/
theorem length_le_of_terminated {max : UInt64} {b b' rest rest' : Bytes} {o o' start : Bool} {body : Str}
    (h : readData max ⟨b, [], o⟩ (utf8 (sent start body) ++ (terminator ++ rest)) = (.terminated b' o', rest')) :
    b'.length ≤ b.length + ((utf8 body).length + 2) := by
  induction body using line_induction '\n' generalizing b o start with
  | last l hl =>
      rw [sent_last_wire hl] at h
      have hcr : '\n' ∉ l ++ ['\r'] := by simpa using hl
      have := length_le_of_line (n := 0) hcr (fun {c p} hc => by rw [readData_end] at hc; cases hc; omega) h
      rw [utf8_append, List.length_append] at this
      exact this
  | line l body hl ih =>
      rw [sent_line_wire hl] at h
      have := length_le_of_line (n := (utf8 body).length + 2) hl (fun {c p} hc => ih hc) h
      have hlength : (utf8 (l ++ '\n' :: body)).length = (utf8 l).length + 1 + (utf8 body).length := by
        rw [utf8_append, utf8_cons, List.length_append, List.length_append, Nat.add_assoc]
        rfl
      omega

/-- One line of the wire: the rest is read as it should be exactly when this line is no hazard. -/
theorem readData_stuffed_iff {max : UInt64} {b y rest whole : Bytes} {start : Bool} {l : Str} {n : Nat}
    (hl : '\n' ∉ l) (hfits : b.length + (utf8 l).length + 1 ≤ max.toNat) (hy : rest.length < y.length)
    (hnext : ∀ {c}, readData max ⟨c, [], false⟩ y = (.terminated whole false, rest) → whole.length ≤ c.length + n)
    (hwhole : whole.length = b.length + (utf8 l).length + 1 + n) :
    readData max ⟨b, [], false⟩ (utf8 (stuffFirst start l) ++ lf :: y) = (.terminated whole false, rest) ↔
      (start = false → ¬ (Doubled l ∨ Lone l)) ∧
        readData max ⟨b ++ (utf8 l ++ [lf]), [], false⟩ y = (.terminated whole false, rest) := by
  by_cases h : start = false → ¬ (Doubled l ∨ Lone l)
  · rw [readData_intact hl hfits h]
    exact ⟨fun hread => ⟨h, hread⟩, fun hread => hread.2⟩
  · refine ⟨fun hread => ?_, fun hread => absurd hread.1 h⟩
    rw [Classical.not_imp, not_not] at h
    obtain ⟨rfl, hdoubled | hlone⟩ := h
    · obtain ⟨c, hc, heq⟩ := readData_doubled (y := y) hl hfits hdoubled
      have := hnext (heq ▸ hread)
      omega
    · rw [readData_lone hlone] at hread
      cases hread
      omega

theorem readData_sent_iff {max : UInt64} {b rest : Bytes} {start : Bool} {body : Str}
    (hfits : b.length + (utf8 body).length + 2 ≤ max.toNat) :
    readData max ⟨b, [], false⟩ (utf8 (sent start body) ++ (terminator ++ rest)) =
      (.terminated (b ++ (utf8 body ++ crlf)) false, rest) ↔ CleanFrom start body := by
  induction body using line_induction '\n' generalizing b start with
  | last l hl =>
      have hcr : '\n' ∉ l ++ ['\r'] := by simpa using hl
      have htext : utf8 (l ++ ['\r']) ++ [lf] = utf8 l ++ crlf := by
        rw [utf8_append, List.append_assoc]
        rfl
      have hlength : (utf8 (l ++ ['\r'])).length = (utf8 l).length + 1 := by rw [utf8_append, List.length_append]; rfl
      rw [sent_last_wire hl, cleanFrom_last hl, readData_stuffed_iff (n := 0) hcr (by omega), readData_end, htext]
      · exact and_iff_left rfl
      · simp only [List.length_cons]
        omega
      · intro c hc
        rw [readData_end] at hc
        cases hc
        exact Nat.le_refl _
      · simp only [List.length_append, show crlf.length = 2 from rfl, hlength]
        omega
  | line l body hl ih =>
      have hlength : (utf8 (l ++ '\n' :: body)).length = (utf8 l).length + 1 + (utf8 body).length := by
        rw [utf8_append, utf8_cons, List.length_append, List.length_append, Nat.add_assoc]
        rfl
      have htext : b ++ (utf8 (l ++ '\n' :: body) ++ crlf) = (b ++ (utf8 l ++ [lf])) ++ (utf8 body ++ crlf) := by
        rw [utf8_append, utf8_cons]
        simp
        rfl
      rw [sent_line_wire hl, cleanFrom_line hl,
        readData_stuffed_iff (n := (utf8 body).length + 2) hl (by omega), htext, ih]
      · simp only [List.length_append, List.length_singleton]
        omega
      · simp only [List.length_append, show terminator.length = 5 from rfl]
        omega
      · exact fun hc => length_le_of_terminated hc
      · simp only [List.length_append, show crlf.length = 2 from rfl]
        omega

/-- Stuffed text within the limit is read back exactly when no line behind a bare LF is a hazard. -/
theorem readsBack_iff {max : UInt64} {body : Str} (hfits : (utf8 body).length + 2 ≤ max.toNat) :
    ReadsBack max body ↔ Clean body := by
  have hread : ∀ rest, readData max .start (utf8 (applyDotStuffing body) ++ (terminator ++ rest)) =
      (.terminated (utf8 body ++ crlf) false, rest) ↔ Clean body := by
    intro rest
    rw [← sent_true]
    refine (readData_sent_iff (b := []) (by simpa using hfits)).trans ?_
    exact ⟨fun h => h.2, fun h => ⟨fun hstart => Bool.noConfusion hstart, h⟩⟩
  exact ⟨fun h => (hread []).mp (h []), fun h rest => (hread rest).mpr h⟩

/-! ## Command lines -/

/-- A line is handed to the session as a whole, and one that is too long is refused as a whole. -/
def HandedWhole (l : Bytes) : Prop :=
  ∀ rest, ∃ line, readCommandLine (l ++ (crlf ++ rest)) = (line, l.length + 2, rest) ∧
    line = fromUtf8Lossy (l ++ crlf) ∧
    (maxCommandLine < l.length + 2 → ∀ s : Session, s.command line = some (s.answer 500 "line too long"))

theorem takeLine_length_le {cap : Nat} {input : Bytes} : (takeLine cap input).1.length ≤ cap := by
  induction cap generalizing input with
  | zero => rw [takeLine]; exact Nat.le_refl _
  | succ n ih =>
      cases input with
      | nil => exact Nat.zero_le _
      | cons b input =>
          rw [takeLine]
          split
          · exact Nat.le_add_left _ _
          · exact Nat.succ_le_succ ih

theorem takeLine_line {cap : Nat} {l rest : Bytes} (hl : lf ∉ l) (hcap : l.length < cap) :
    takeLine cap (l ++ lf :: rest) = (l ++ [lf], rest) := by
  induction l generalizing cap with
  | nil =>
      obtain ⟨n, rfl⟩ := Nat.exists_eq_succ_of_ne_zero (Nat.ne_of_gt hcap)
      rw [List.nil_append, takeLine, if_pos rfl]
      rfl
  | cons c l ih =>
      obtain ⟨n, rfl⟩ := Nat.exists_eq_succ_of_ne_zero (Nat.ne_of_gt (Nat.lt_of_le_of_lt (Nat.zero_le _) hcap))
      have hc : c ≠ lf := fun h => hl (h ▸ List.mem_cons_self)
      rw [List.cons_append, takeLine, if_neg hc, ih (fun h => hl (List.mem_cons_of_mem _ h))
        (Nat.lt_of_succ_lt_succ hcap)]
      rfl

theorem handedWhole_iff (l : Bytes) : HandedWhole l ↔ lf ∉ l ∧ l.length + 2 ≤ lineCap := by
  constructor
  · intro h
    obtain ⟨line, hline, -⟩ := h []
    have hraw : (takeLine lineCap (l ++ (crlf ++ []))).1.length = l.length + 2 := congrArg (fun p => p.2.1) hline
    have hcap : l.length + 2 ≤ lineCap := hraw ▸ takeLine_length_le
    refine ⟨fun hmem => ?_, hcap⟩
    -- With a bare LF in it the line would have ended there.
    obtain ⟨before, after, rfl, hbefore⟩ := List.eq_append_cons_of_mem hmem
    rw [List.length_append, List.length_cons] at hcap
    rw [List.append_assoc, List.cons_append, takeLine_line hbefore (by omega)] at hraw
    simp only [List.length_append, List.length_cons, List.length_nil] at hraw
    omega
  · rintro ⟨hl, hcap⟩ rest
    have hcr : lf ∉ l ++ [cr] := by
      rw [List.mem_append, List.mem_singleton]
      exact not_or.mpr ⟨hl, by decide⟩
    have hraw : takeLine lineCap (l ++ (crlf ++ rest)) = (l ++ crlf, rest) := by
      have := @takeLine_line lineCap _ rest hcr (by rw [List.length_append]; exact hcap)
      rw [List.append_assoc, List.append_assoc] at this
      exact this
    refine ⟨fromUtf8Lossy (l ++ crlf), ?_, rfl, fun hlong s => ?_⟩
    · rw [readCommandLine, hraw]
      dsimp only
      rw [List.length_append]
      rfl
    · have hbytes := length_le_byteLen_fromUtf8Lossy (l ++ crlf)
      rw [List.length_append] at hbytes
      exact if_pos (Nat.lt_of_lt_of_le hlong hbytes)

/-! ## All of the framing -/

/-- A stream ends a message at its first terminator exactly when no other lone dot comes first, stuffed text is
read back exactly when no line behind a bare LF is a hazard, and a command line is handed over as a whole exactly
when it has no bare LF and fits the reader's cap. -/
theorem framing_iff (x l : Bytes) (max : UInt64) (body : Str) :
    (EndsAtTerminator x ↔ DotsTerminated x) ∧
      ((utf8 body).length + 2 ≤ max.toNat → (ReadsBack max body ↔ Clean body)) ∧
      (HandedWhole l ↔ lf ∉ l ∧ l.length + 2 ≤ lineCap) :=
  ⟨endsAtTerminator_iff x, fun hfits => readsBack_iff hfits, handedWhole_iff l⟩

example : findSub terminator (crlf ++ utf8 ['.', 'a']) = none := by decide +kernel

/-- `"a\n.\r\nb"`: a text whose second line starts behind a bare LF. -/
def smuggledBody : Str := ['a', '\n', '.', '\r', '\n', 'b']

theorem framing_iff_smuggled : ReadsBack 1000 smuggledBody ↔ Clean smuggledBody :=
  (framing_iff [] [] 1000 smuggledBody).2.1 (by decide +kernel)

/-- The text ends the message in its middle, and the tail of a line that is too long becomes a command. -/
theorem framing_broken :
    ¬ EndsAtTerminator (utf8 smuggledBody) ∧ ¬ ReadsBack 1000 smuggledBody ∧
      ¬ HandedWhole (List.replicate 1023 0x41) := by
  have hclean : ¬ Clean smuggledBody := fun h =>
    h ['a'] ['.', '\r', '\n', 'b', '\r', '\n'] rfl (by decide) (Or.inr (Or.inr ⟨['b', '\r', '\n'], rfl⟩))
  refine ⟨fun h => ?_, fun h => hclean ((readsBack_iff (by decide +kernel)).mp h), fun h => ?_⟩
  · obtain ⟨before, -, hfind⟩ := h 1000 [0x61, lf] false [0x62] (by decide +kernel)
    have hnone : findSub terminator (crlf ++ utf8 smuggledBody) = none := by decide +kernel
    rw [hnone] at hfind
    cases hfind
  · have hcap := ((handedWhole_iff _).mp h).2
    rw [List.length_replicate] at hcap
    exact absurd hcap (by decide)

end Selfhost.Mail
