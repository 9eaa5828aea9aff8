import Mathlib.Data.List.DropRight
import Mathlib.Data.List.Basic
import Selfhost.Lib.Lines
import Selfhost.Lib.Text

/-!
# Runs of blanks

Reducing every run of blanks to one, over any alphabet, and what it keeps: line feeds that end lines, and the UTF-8
form. What is done to a text at its blanks and line ends may as well be done to its bytes.
-/

namespace Selfhost.Lib

/-- Every run of what `p` holds of is one `blank`. -/
def squeeze {α : Type} (p : α → Bool) (blank : α) : List α → List α
  | [] => []
  | c :: rest =>
      if p c then if rest.head?.any p then squeeze p blank rest else blank :: squeeze p blank rest
      else c :: squeeze p blank rest

@[simp] theorem squeeze_nil {α : Type} (p : α → Bool) (blank : α) : squeeze p blank [] = [] := rfl

theorem squeeze_cons {α : Type} (p : α → Bool) (blank c : α) (rest : List α) : squeeze p blank (c :: rest) =
    if p c then if rest.head?.any p then squeeze p blank rest else blank :: squeeze p blank rest
    else c :: squeeze p blank rest := rfl

/-- Bytes that are the UTF-8 form of a text. -/
def IsUtf8 (b : Bytes) : Prop := ∃ s, utf8 s = b

/-! ## Dropping at the ends -/

section Ends

variable {α : Type} {p : α → Bool} {l : List α} {c : α}

theorem rdropWhile_cons_of_neg (hc : p c = false) : (c :: l).rdropWhile p = c :: l.rdropWhile p := by
  induction l using List.reverseRecOn with
  | nil => simp [List.rdropWhile_singleton, hc]
  | append_singleton l a ih =>
      rw [← List.cons_append, List.rdropWhile_concat, List.rdropWhile_concat]
      split
      · exact ih
      · rfl

theorem rdropWhile_cons_of_ne_nil (hl : l.rdropWhile p ≠ []) : (c :: l).rdropWhile p = c :: l.rdropWhile p := by
  induction l using List.reverseRecOn with
  | nil => simp at hl
  | append_singleton l a ih =>
      rw [List.rdropWhile_concat] at hl
      rw [← List.cons_append, List.rdropWhile_concat, List.rdropWhile_concat]
      split
      · rename_i ha
        rw [if_pos ha] at hl
        exact ih hl
      · rfl

theorem mem_rdropWhile (hc : p c = false) (h : c ∈ l) : c ∈ l.rdropWhile p := by
  induction l using List.reverseRecOn with
  | nil => cases h
  | append_singleton l a ih =>
      rw [List.rdropWhile_concat]
      split
      · rename_i ha
        rcases List.mem_append.mp h with h | h
        · exact ih h
        · rw [List.mem_singleton.mp h, ha] at hc
          cases hc
      · exact h

theorem mem_dropWhile (hc : p c = false) (h : c ∈ l) : c ∈ l.dropWhile p := by
  induction l with
  | nil => cases h
  | cons a l ih =>
      rw [List.dropWhile_cons]
      split
      · rename_i ha
        rcases List.mem_cons.mp h with rfl | h
        · rw [ha] at hc
          cases hc
        · exact ih h
      · exact h

end Ends

/-! ## One blank for each run -/

section Squeeze

variable {α : Type} {p : α → Bool} {blank c : α} {l : List α}

theorem squeeze_of_pos (hc : p c = true) (h : l.head?.any p = true) : squeeze p blank (c :: l) = squeeze p blank l := by
  simp [squeeze_cons, hc, h]

theorem squeeze_of_last (hc : p c = true) (h : l.head?.any p = false) :
    squeeze p blank (c :: l) = blank :: squeeze p blank l := by
  simp [squeeze_cons, hc, h]

theorem squeeze_of_neg (hc : p c = false) : squeeze p blank (c :: l) = c :: squeeze p blank l := by
  simp [squeeze_cons, hc]

theorem squeeze_cons_congr {d : α} (hc : p c = true) (hd : p d = true) :
    squeeze p blank (c :: l) = squeeze p blank (d :: l) := by
  simp [squeeze_cons, hc, hd]

theorem mem_squeeze (hc : p c = false) (h : c ∈ l) : c ∈ squeeze p blank l := by
  induction l with
  | nil => cases h
  | cons a l ih =>
      rcases List.mem_cons.mp h with rfl | h
      · rw [squeeze_of_neg hc]
        exact List.mem_cons_self
      · rw [squeeze_cons]
        split
        · split
          · exact ih h
          · exact List.mem_cons_of_mem _ (ih h)
        · exact List.mem_cons_of_mem _ (ih h)

theorem mem_of_mem_squeeze (h : c ∈ squeeze p blank l) : c = blank ∨ c ∈ l := by
  induction l with
  | nil => cases h
  | cons a l ih =>
      rw [squeeze_cons] at h
      split at h
      · split at h
        · exact (ih h).imp_right (List.mem_cons_of_mem _)
        · rcases List.mem_cons.mp h with rfl | h
          · exact .inl rfl
          · exact (ih h).imp_right (List.mem_cons_of_mem _)
      · rcases List.mem_cons.mp h with rfl | h
        · exact .inr List.mem_cons_self
        · exact (ih h).imp_right (List.mem_cons_of_mem _)

theorem squeeze_append_of_neg {front : List α} (h : ∀ a ∈ front, p a = false) :
    squeeze p blank (front ++ l) = front ++ squeeze p blank l := by
  induction front with
  | nil => rfl
  | cons a front ih =>
      rw [List.cons_append, squeeze_of_neg (h a List.mem_cons_self), ih fun b hb => h b (List.mem_cons_of_mem _ hb),
        List.cons_append]

theorem squeeze_concat_of_neg (hc : p c = false) : squeeze p blank (l ++ [c]) = squeeze p blank l ++ [c] := by
  induction l with
  | nil => simp [squeeze_cons, hc]
  | cons a l ih =>
      have hhead : (l ++ [c]).head?.any p = l.head?.any p := by
        cases l with
        | nil => simp [hc]
        | cons b l => rfl
      simp only [List.cons_append, squeeze_cons, hhead, ih]
      split
      · split <;> rfl
      · rfl

theorem dropWhile_squeeze (hblank : p blank = true) :
    (squeeze p blank l).dropWhile p = squeeze p blank (l.dropWhile p) := by
  induction l with
  | nil => rfl
  | cons a l ih =>
      cases ha : p a with
      | false =>
          have hkeep : ¬ p a = true := by simp [ha]
          rw [squeeze_of_neg ha, List.dropWhile_cons_of_neg hkeep, List.dropWhile_cons_of_neg hkeep, squeeze_of_neg ha]
      | true =>
          rw [List.dropWhile_cons_of_pos ha, ← ih]
          cases hhead : l.head?.any p with
          | true => rw [squeeze_of_pos ha hhead]
          | false => rw [squeeze_of_last ha hhead, List.dropWhile_cons_of_pos hblank]

theorem head?_squeeze (hc : p c = false) : (squeeze p blank (c :: l)).head? = some c := by
  rw [squeeze_of_neg hc]
  rfl

theorem head?_squeeze_any (hblank : p blank = true) : (squeeze p blank l).head?.any p = l.head?.any p := by
  induction l with
  | nil => rfl
  | cons a l ih =>
      cases ha : p a with
      | false => rw [head?_squeeze ha]; rfl
      | true =>
          cases hhead : l.head?.any p with
          | true =>
              rw [squeeze_of_pos ha hhead, ih, hhead]
              exact ha.symm
          | false =>
              rw [squeeze_of_last ha hhead]
              exact hblank.trans ha.symm

theorem squeeze_squeeze (hblank : p blank = true) : squeeze p blank (squeeze p blank l) = squeeze p blank l := by
  induction l with
  | nil => rfl
  | cons a l ih =>
      cases ha : p a with
      | false => rw [squeeze_of_neg ha, squeeze_of_neg ha, ih]
      | true =>
          cases hhead : l.head?.any p with
          | true => rw [squeeze_of_pos ha hhead, ih]
          | false => rw [squeeze_of_last ha hhead, squeeze_of_last hblank (by rw [head?_squeeze_any hblank, hhead]), ih]

example : squeeze (· == 0) 0 [0, 0, 1, 0, 2, 0, 0] = [0, 1, 0, 2, 0] := by decide +kernel

theorem length_squeeze_le : (squeeze p blank l).length ≤ l.length := by
  induction l with
  | nil => exact Nat.le_refl _
  | cons a l ih =>
      rw [squeeze_cons, List.length_cons]
      split
      · split
        · omega
        · exact Nat.succ_le_succ ih
      · exact Nat.succ_le_succ ih

/-- What is already reduced starts with a character, or with one blank that no other follows. -/
theorem squeeze_cons_eq_iff : squeeze p blank (c :: l) = c :: l ↔
    (p c = true → l.head?.any p = false ∧ c = blank) ∧ squeeze p blank l = l := by
  constructor
  · intro h
    cases hc : p c with
    | false =>
        rw [squeeze_of_neg hc, List.cons_inj_right] at h
        exact ⟨fun hpos => Bool.noConfusion hpos, h⟩
    | true =>
        cases hhead : l.head?.any p with
        | true =>
            rw [squeeze_of_pos hc hhead] at h
            have hlen : (squeeze p blank l).length ≤ l.length := length_squeeze_le
            rw [h, List.length_cons] at hlen
            omega
        | false =>
            rw [squeeze_of_last hc hhead, List.cons.injEq] at h
            exact ⟨fun _ => ⟨rfl, h.1.symm⟩, h.2⟩
  · rintro ⟨hfirst, hrest⟩
    cases hc : p c with
    | false => rw [squeeze_of_neg hc, hrest]
    | true =>
        obtain ⟨hhead, rfl⟩ := hfirst hc
        rw [squeeze_of_last hc hhead, hrest]

theorem squeeze_dropWhile_of_eq {q : α → Bool} (h : squeeze p blank l = l) :
    squeeze p blank (l.dropWhile q) = l.dropWhile q := by
  induction l with
  | nil => rfl
  | cons a l ih =>
      rw [List.dropWhile_cons]
      split
      · exact ih (squeeze_cons_eq_iff.mp h).2
      · exact h

theorem squeeze_of_concat_eq (h : squeeze p blank (l ++ [c]) = l ++ [c]) : squeeze p blank l = l := by
  induction l with
  | nil => rfl
  | cons a l ih =>
      rw [List.cons_append, squeeze_cons_eq_iff] at h
      refine squeeze_cons_eq_iff.mpr ⟨fun ha => ⟨?_, (h.1 ha).2⟩, ih h.2⟩
      cases l with
      | nil => rfl
      | cons b l => exact (h.1 ha).1

theorem squeeze_rdropWhile_of_eq {q : α → Bool} (h : squeeze p blank l = l) :
    squeeze p blank (l.rdropWhile q) = l.rdropWhile q := by
  induction l using List.reverseRecOn with
  | nil => rfl
  | append_singleton l a ih =>
      rw [List.rdropWhile_concat]
      split
      · exact ih (squeeze_of_concat_eq h)
      · exact h

theorem squeeze_eq_nil_iff : squeeze p blank l = [] ↔ l = [] := by
  induction l with
  | nil => simp
  | cons a l ih =>
      simp only [reduceCtorEq, iff_false]
      rw [squeeze_cons]
      split
      · split
        · rename_i hhead
          rw [ih]
          rintro rfl
          cases hhead
        · simp
      · simp

theorem all_squeeze (hblank : p blank = true) (h : ∀ a ∈ l, p a = true) : ∀ a ∈ squeeze p blank l, p a = true := by
  induction l with
  | nil => simp
  | cons a l ih =>
      have hrest := ih fun b hb => h b (List.mem_cons_of_mem _ hb)
      rw [squeeze_cons, if_pos (h a List.mem_cons_self)]
      split
      · exact hrest
      · intro b hb
        rcases List.mem_cons.mp hb with rfl | hb
        · exact hblank
        · exact hrest b hb

theorem rdropWhile_squeeze (hblank : p blank = true) :
    (squeeze p blank l).rdropWhile p = squeeze p blank (l.rdropWhile p) := by
  induction l with
  | nil => simp
  | cons a l ih =>
      cases ha : p a with
      | false => rw [squeeze_of_neg ha, rdropWhile_cons_of_neg ha, rdropWhile_cons_of_neg ha, squeeze_of_neg ha, ih]
      | true =>
          by_cases hl : l.rdropWhile p = []
          · have hall : ∀ b ∈ a :: l, p b = true := by
              intro b hb
              rcases List.mem_cons.mp hb with rfl | hb
              · exact ha
              · exact List.rdropWhile_eq_nil_iff.mp hl b hb
            rw [List.rdropWhile_eq_nil_iff.mpr hall, List.rdropWhile_eq_nil_iff.mpr (all_squeeze hblank hall)]
            rfl
          · have hhead : (l.rdropWhile p).head? = l.head? := by
              obtain ⟨rest, hrest⟩ := List.rdropWhile_prefix p (l := l)
              cases hcut : l.rdropWhile p with
              | nil => exact absurd hcut hl
              | cons b cut =>
                  rw [hcut] at hrest
                  rw [← hrest]
                  rfl
            have hne : (squeeze p blank l).rdropWhile p ≠ [] := by
              rw [ih, Ne, squeeze_eq_nil_iff]
              exact hl
            rw [rdropWhile_cons_of_ne_nil hl]
            cases hblanks : l.head?.any p with
            | true => rw [squeeze_of_pos ha hblanks, squeeze_of_pos ha (by rw [hhead, hblanks]), ih]
            | false => rw [squeeze_of_last ha hblanks, squeeze_of_last ha (by rw [hhead, hblanks]),
                rdropWhile_cons_of_ne_nil hne, ih]

end Squeeze

/-! ## White space of a text and of its bytes -/

def isWsp (c : Char) : Bool := c == ' ' || c == '\t'

def isWspByte (b : UInt8) : Bool := b == sp || b == htab

theorem isWsp_iff {c : Char} : isWsp c = true ↔ c = ' ' ∨ c = '\t' := by
  simp [isWsp]

theorem isWspByte_iff {b : UInt8} : isWspByte b = true ↔ b = sp ∨ b = htab := by
  simp [isWspByte]

theorem not_isWspByte_of_char {c : Char} (hc : isWsp c = false) :
    ∀ b ∈ String.utf8EncodeChar c, isWspByte b = false := by
  intro b hb
  rw [Bool.eq_false_iff, Ne, isWspByte_iff]
  intro hblank
  have hlt : b.toNat < 0x80 := by rcases hblank with rfl | rfl <;> decide
  have hmem : Char.ofNat b.toNat ∈ [c] := mem_of_mem_utf8 (by rwa [utf8, List.flatMap_singleton]) hlt
  rw [← List.mem_singleton.mp hmem] at hc
  rcases hblank with rfl | rfl <;> cases hc

theorem encode_wsp {c : Char} (hc : isWsp c = true) : ∃ b, String.utf8EncodeChar c = [b] ∧ isWspByte b = true := by
  rcases isWsp_iff.mp hc with rfl | rfl
  · exact ⟨sp, by decide, rfl⟩
  · exact ⟨htab, by decide, rfl⟩

theorem head?_utf8_any (s : Str) : (utf8 s).head?.any isWspByte = s.head?.any isWsp := by
  cases s with
  | nil => rfl
  | cons c s =>
      rw [utf8_cons, List.head?_cons, Option.any_some]
      cases hc : isWsp c with
      | true =>
          obtain ⟨b, hencode, hb⟩ := encode_wsp hc
          rw [hencode]
          exact hb
      | false =>
          cases hencode : String.utf8EncodeChar c with
          | nil => exact absurd hencode String.utf8EncodeChar_ne_nil
          | cons b bytes => exact not_isWspByte_of_char hc b (by rw [hencode]; exact List.mem_cons_self)

theorem squeeze_utf8 (s : Str) : squeeze isWspByte sp (utf8 s) = utf8 (squeeze isWsp ' ' s) := by
  induction s with
  | nil => rfl
  | cons c s ih =>
      rw [utf8_cons]
      cases hc : isWsp c with
      | true =>
          obtain ⟨b, hencode, hb⟩ := encode_wsp hc
          rw [hencode, List.singleton_append]
          cases hhead : s.head?.any isWsp with
          | true => rw [squeeze_of_pos hc hhead, squeeze_of_pos hb (by rw [head?_utf8_any, hhead]), ih]
          | false =>
              rw [squeeze_of_last hc hhead, squeeze_of_last hb (by rw [head?_utf8_any, hhead]), ih, utf8_cons]
              rfl
      | false => rw [squeeze_of_neg hc, squeeze_append_of_neg (not_isWspByte_of_char hc), ih, utf8_cons]

example : squeeze isWsp ' ' ['a', '\t', ' ', 'b', ' '] = ['a', ' ', 'b', ' '] := by decide +kernel

theorem dropWhile_utf8 (s : Str) : (utf8 s).dropWhile isWspByte = utf8 (s.dropWhile isWsp) := by
  induction s with
  | nil => rfl
  | cons c s ih =>
      cases hc : isWsp c with
      | true =>
          obtain ⟨b, hencode, hb⟩ := encode_wsp hc
          rw [utf8_cons, hencode, List.singleton_append, List.dropWhile_cons_of_pos hb, List.dropWhile_cons_of_pos hc,
            ih]
      | false =>
          rw [List.dropWhile_cons_of_neg (by simp [hc]), utf8_cons]
          cases hencode : String.utf8EncodeChar c with
          | nil => exact absurd hencode String.utf8EncodeChar_ne_nil
          | cons b bytes =>
              have hb := not_isWspByte_of_char hc b (by rw [hencode]; exact List.mem_cons_self)
              rw [List.cons_append, List.dropWhile_cons_of_neg (by simp [hb])]

theorem rdropWhile_utf8 (s : Str) : (utf8 s).rdropWhile isWspByte = utf8 (s.rdropWhile isWsp) := by
  induction s using List.reverseRecOn with
  | nil => rfl
  | append_singleton s c ih =>
      rw [utf8_append, utf8_cons, utf8_nil, List.append_nil, List.rdropWhile_concat]
      cases hc : isWsp c with
      | true =>
          obtain ⟨b, hencode, hb⟩ := encode_wsp hc
          rw [hencode, List.rdropWhile_concat_pos isWspByte _ _ hb, ih, if_pos rfl]
      | false =>
          rw [if_neg (by simp), utf8_append, utf8_cons, utf8_nil, List.append_nil]
          rcases List.eq_nil_or_concat (String.utf8EncodeChar c) with hencode | ⟨bytes, b, hencode⟩
          · exact absurd hencode String.utf8EncodeChar_ne_nil
          · rw [List.concat_eq_append] at hencode
            have hb := not_isWspByte_of_char hc b (by simp [hencode])
            rw [hencode, ← List.append_assoc, List.rdropWhile_concat_neg isWspByte _ _ (by simp [hb])]

/-! ## Line feeds -/

theorem lfAfterCr_congr {before after : UInt8} (hbefore : before ≠ cr) (hafter : after ≠ cr) (l : Bytes) :
    lfAfterCr before l = lfAfterCr after l := by
  cases l with
  | nil => rfl
  | cons b l => rw [lfAfterCr, lfAfterCr, beq_eq_false_iff_ne.mpr hbefore, beq_eq_false_iff_ne.mpr hafter]

theorem lfAfterCr_append_crlf (before : UInt8) (l rest : Bytes) :
    lfAfterCr before (l ++ cr :: lf :: rest) = (lfAfterCr before l && lfAfterCr lf rest) := by
  induction l generalizing before with
  | nil => simp [lfAfterCr]
  | cons b l ih => rw [List.cons_append, lfAfterCr, lfAfterCr, ih, Bool.and_assoc]

theorem lfAfterCr_lines_eq (ls : List Bytes) : lfAfterCr lf (lines ls) = ls.all (lfAfterCr lf) := by
  induction ls with
  | nil => rfl
  | cons l ls ih => rw [lines_cons, lfAfterCr_append_crlf, ih, List.all_cons]

theorem lfAfterCr_wsp {before b : UInt8} {l : Bytes} (hb : isWspByte b = true) :
    lfAfterCr before (b :: l) = lfAfterCr lf l := by
  have hne : b ≠ lf ∧ b ≠ cr := by rcases isWspByte_iff.mp hb with rfl | rfl <;> decide
  rw [lfAfterCr, bne_iff_ne.mpr hne.1, Bool.true_or, Bool.true_and, lfAfterCr_congr hne.2 lf_ne_cr]

theorem lfAfterCr_squeeze (before : UInt8) (l : Bytes) :
    lfAfterCr before (squeeze isWspByte sp l) = lfAfterCr before l := by
  induction l generalizing before with
  | nil => rfl
  | cons b l ih =>
      cases hb : isWspByte b with
      | false => rw [squeeze_of_neg hb, lfAfterCr, lfAfterCr, ih]
      | true =>
          rw [lfAfterCr_wsp hb]
          cases hhead : l.head?.any isWspByte with
          | false => rw [squeeze_of_last hb hhead, lfAfterCr_wsp rfl, ih]
          | true =>
              rw [squeeze_of_pos hb hhead, ih]
              cases l with
              | nil => cases hhead
              | cons c l => rw [lfAfterCr_wsp hhead, lfAfterCr_wsp hhead]

theorem lfAfterCr_concat_wsp {b : UInt8} (hb : isWspByte b = true) (before : UInt8) (l : Bytes) :
    lfAfterCr before (l ++ [b]) = lfAfterCr before l := by
  induction l generalizing before with
  | nil => rw [List.nil_append, lfAfterCr_wsp hb]; rfl
  | cons c l ih => rw [List.cons_append, lfAfterCr, lfAfterCr, ih]

theorem lfAfterCr_rdropWhile (before : UInt8) (l : Bytes) :
    lfAfterCr before (l.rdropWhile isWspByte) = lfAfterCr before l := by
  induction l using List.reverseRecOn with
  | nil => rfl
  | append_singleton l b ih =>
      rw [List.rdropWhile_concat]
      split
      · rename_i hb
        rw [ih, lfAfterCr_concat_wsp hb]
      · rfl

/-! ## Well-formed text -/

theorem isUtf8_utf8 (s : Str) : IsUtf8 (utf8 s) := ⟨s, rfl⟩

theorem isUtf8_append_cons {a b : Bytes} {x : UInt8} (hx : x.toNat < 0x80) :
    IsUtf8 (a ++ x :: b) ↔ IsUtf8 a ∧ IsUtf8 b := by
  constructor
  · rintro ⟨s, hs⟩
    induction s generalizing a with
    | nil => simp at hs
    | cons c s ih =>
        rw [utf8_cons] at hs
        rcases List.append_eq_append_iff.mp hs with ⟨rest, rfl, hrest⟩ | ⟨rest, hencode, hrest⟩
        · obtain ⟨⟨t, ht⟩, hb⟩ := ih hrest
          exact ⟨⟨c :: t, by rw [utf8_cons, ht]⟩, hb⟩
        · cases rest with
          | nil =>
              rw [List.append_nil] at hencode
              obtain ⟨-, hb⟩ := ih (a := []) hrest.symm
              exact ⟨⟨[c], by rw [utf8_cons, utf8_nil, List.append_nil, hencode]⟩, hb⟩
          | cons y rest =>
              rw [List.cons_append, List.cons.injEq] at hrest
              obtain ⟨rfl, rfl⟩ := hrest
              have hascii : c.toNat < 0x80 := by
                by_contra hge
                have hle : 0x80 ≤ x.toNat := le_of_mem_utf8EncodeChar (c := c) (by omega) (by rw [hencode]; simp)
                omega
              have hlen := congrArg List.length hencode
              rw [utf8EncodeChar_ascii hascii, List.length_append, List.length_cons, List.length_cons,
                List.length_nil] at hlen
              have ha : a = [] := List.length_eq_zero_iff.mp (by omega)
              have hrest : rest = [] := List.length_eq_zero_iff.mp (by omega)
              rw [ha, hrest]
              exact ⟨isUtf8_utf8 [], ⟨s, rfl⟩⟩
  · rintro ⟨⟨s, rfl⟩, ⟨t, rfl⟩⟩
    refine ⟨s ++ Char.ofNat x.toNat :: t, ?_⟩
    rw [utf8_append, utf8_cons, utf8EncodeChar_one hx, List.singleton_append]

theorem isUtf8_cons {b : Bytes} {x : UInt8} (hx : x.toNat < 0x80) : IsUtf8 (x :: b) ↔ IsUtf8 b := by
  have h := isUtf8_append_cons (a := []) (b := b) hx
  rw [List.nil_append] at h
  exact h.trans (and_iff_right (isUtf8_utf8 []))

theorem isUtf8_concat {a : Bytes} {x : UInt8} (hx : x.toNat < 0x80) : IsUtf8 (a ++ [x]) ↔ IsUtf8 a :=
  (isUtf8_append_cons hx).trans (and_iff_left (isUtf8_utf8 []))

theorem lt_of_isWspByte {b : UInt8} (hb : isWspByte b = true) : b.toNat < 0x80 := by
  rcases isWspByte_iff.mp hb with rfl | rfl <;> decide

-- What stands in front may end inside a character, so it is carried along.
theorem isUtf8_append_squeeze (front l : Bytes) :
    IsUtf8 (front ++ squeeze isWspByte sp l) ↔ IsUtf8 (front ++ l) := by
  induction l generalizing front with
  | nil => rfl
  | cons b l ih =>
      cases hb : isWspByte b with
      | false =>
          rw [squeeze_of_neg hb]
          have h := ih (front ++ [b])
          simpa only [List.append_assoc, List.singleton_append] using h
      | true =>
          rw [isUtf8_append_cons (lt_of_isWspByte hb)]
          cases hhead : l.head?.any isWspByte with
          | false => rw [squeeze_of_last hb hhead, isUtf8_append_cons (by decide), ← List.nil_append (squeeze _ _ _),
              ih, List.nil_append]
          | true =>
              rw [squeeze_of_pos hb hhead, ih]
              cases l with
              | nil => cases hhead
              | cons c l => rw [isUtf8_append_cons (lt_of_isWspByte hhead), isUtf8_cons (lt_of_isWspByte hhead)]

theorem isUtf8_squeeze (l : Bytes) : IsUtf8 (squeeze isWspByte sp l) ↔ IsUtf8 l :=
  isUtf8_append_squeeze [] l

theorem isUtf8_rdropWhile (l : Bytes) : IsUtf8 (l.rdropWhile isWspByte) ↔ IsUtf8 l := by
  induction l using List.reverseRecOn with
  | nil => rfl
  | append_singleton l b ih =>
      rw [List.rdropWhile_concat]
      split
      · rename_i hb
        rw [ih, isUtf8_concat (lt_of_isWspByte hb)]
      · rfl

theorem isUtf8_dropWhile (l : Bytes) : IsUtf8 (l.dropWhile isWspByte) ↔ IsUtf8 l := by
  induction l with
  | nil => rfl
  | cons b l ih =>
      rw [List.dropWhile_cons]
      split
      · rename_i hb
        rw [ih, isUtf8_cons (lt_of_isWspByte hb)]
      · rfl

theorem isUtf8_lines (ls : List Bytes) : IsUtf8 (lines ls) ↔ ∀ l ∈ ls, IsUtf8 l := by
  induction ls with
  | nil => simpa using isUtf8_utf8 []
  | cons l ls ih => rw [lines_cons, isUtf8_append_cons (by decide), isUtf8_cons (by decide), ih, List.forall_mem_cons]

end Selfhost.Lib
