import Selfhost.Lib.Lines
import Selfhost.Lib.Text

/-!
# Strings and byte offsets

Text that is measured and cut in bytes of its UTF-8 form, as `str` is in the source. A cut inside a character is
`none`.
-/

namespace Selfhost.Lib

/-- The length in bytes. -/
def byteLen (s : Str) : Nat := (utf8 s).length

/-- `split_at`: the characters of the first `n` bytes and the rest. `none` when `n` is past the end or inside a
character. -/
def splitAtByte (n : Nat) : Str → Option (Str × Str)
  | [] => if n = 0 then some ([], []) else none
  | c :: s =>
      if n = 0 then some ([], c :: s)
      else if n < c.utf8Size then none
      else (splitAtByte (n - c.utf8Size) s).map fun p => (c :: p.1, p.2)

/-- The part before the last `sep` and the part after it. -/
def rsplitOnce (sep : Char) (s : Str) : Option (Str × Str) :=
  (splitOnce sep s.reverse).map fun p => (p.2.reverse, p.1.reverse)

/-- The pieces between white space that are not empty. -/
def splitWhitespace (s : Str) : List Str := (s.splitOnP isWhitespace).filter fun word => !word.isEmpty

/-- `s` without the line ends at its end. -/
def trimLineEnd (s : Str) : Str := s.rdropWhile fun c => c == '\r' || c == '\n'

def trimStart (s : Str) : Str := s.dropWhile isWhitespace

/-- The text after a leading `pat`. -/
def stripStart (pat s : Str) : Option Str := if pat <+: s then some (s.drop pat.length) else none

/-- A number without the plus sign that `from_str` allows. -/
def withoutSign (text : Str) : Str :=
  match text with
  | '+' :: rest => rest
  | _ => text

/-- `from_str` of an unsigned number up to `max`. -/
def parseUnsigned (max : Nat) (text : Str) : Option Nat :=
  let digits := withoutSign text
  if digits = [] ∨ !digits.all Char.isDigit ∨ max < decimalValue digits then none else some (decimalValue digits)

/-- Whether `pat` occurs in `s`. -/
def hasInfix (pat s : Str) : Bool := (findSub pat s).isSome

/-- The replacement character. -/
def replacement : Char := Char.ofNat 0xFFFD

/-- The second bytes that may follow a lead byte of three or four. -/
def isSecond (a b : UInt8) : Bool :=
  if a = 0xE0 then 0xA0 ≤ b && b ≤ 0xBF
  else if a = 0xED then 0x80 ≤ b && b ≤ 0x9F
  else if a = 0xF0 then 0x90 ≤ b && b ≤ 0xBF
  else if a = 0xF4 then 0x80 ≤ b && b ≤ 0x8F
  else isTail b

/-- `from_utf8_lossy`: each longest run of bytes that starts a character but does not end it, and each byte that
starts none, becomes one replacement character. -/
@[simp] def fromUtf8Lossy : Bytes → Str
  | [] => []
  | a :: l =>
      if a < 0x80 then Char.ofNat a.toNat :: fromUtf8Lossy l
      else if 0xC2 ≤ a ∧ a ≤ 0xDF then
        match l with
        | [] => [replacement]
        | b :: l' =>
            if isTail b then Char.ofNat (scalar (a.toNat % 32) [b]) :: fromUtf8Lossy l'
            else replacement :: fromUtf8Lossy (b :: l')
      else if 0xE0 ≤ a ∧ a ≤ 0xEF then
        match l with
        | [] => [replacement]
        | b :: l' =>
            if isSecond a b then
              match l' with
              | [] => [replacement]
              | c :: l'' =>
                  if isTail c then Char.ofNat (scalar (a.toNat % 16) [b, c]) :: fromUtf8Lossy l''
                  else replacement :: fromUtf8Lossy (c :: l'')
            else replacement :: fromUtf8Lossy (b :: l')
      else if 0xF0 ≤ a ∧ a ≤ 0xF4 then
        match l with
        | [] => [replacement]
        | b :: l' =>
            if isSecond a b then
              match l' with
              | [] => [replacement]
              | c :: l'' =>
                  if isTail c then
                    match l'' with
                    | [] => [replacement]
                    | d :: l''' =>
                        if isTail d then Char.ofNat (scalar (a.toNat % 8) [b, c, d]) :: fromUtf8Lossy l'''
                        else replacement :: fromUtf8Lossy (d :: l''')
                  else replacement :: fromUtf8Lossy (c :: l'')
            else replacement :: fromUtf8Lossy (b :: l')
      else replacement :: fromUtf8Lossy l

/-! ## Cuts -/

/-- A place between two characters, or an end. -/
def IsBoundary (n : Nat) (s : Str) : Prop := ∃ head tail, s = head ++ tail ∧ byteLen head = n

/-- A place in the text that is inside a character. -/
def CutInside (n : Nat) (s : Str) : Prop := n ≤ byteLen s ∧ ¬ IsBoundary n s

@[simp] theorem byteLen_nil : byteLen [] = 0 := rfl

@[simp] theorem byteLen_cons (c : Char) (s : Str) : byteLen (c :: s) = c.utf8Size + byteLen s := by
  simp [byteLen]

@[simp] theorem byteLen_append (s t : Str) : byteLen (s ++ t) = byteLen s + byteLen t := by
  simp [byteLen]

theorem splitAtByte_eq_some_iff {n : Nat} {s head tail : Str} :
    splitAtByte n s = some (head, tail) ↔ s = head ++ tail ∧ byteLen head = n := by
  induction s generalizing n head with
  | nil =>
      rw [splitAtByte]
      split
      · rename_i hn
        simp only [Option.some.injEq, Prod.mk.injEq, List.nil_eq_append_iff]
        constructor
        · rintro ⟨rfl, rfl⟩
          exact ⟨⟨rfl, rfl⟩, hn.symm⟩
        · rintro ⟨⟨rfl, rfl⟩, -⟩
          exact ⟨rfl, rfl⟩
      · rename_i hn
        simp only [false_iff, List.nil_eq_append_iff, not_and, reduceCtorEq]
        rintro ⟨rfl, rfl⟩ hlen
        exact hn hlen.symm
  | cons c s ih =>
      have hc := c.utf8Size_pos
      rw [splitAtByte]
      split
      · rename_i hn
        subst hn
        constructor
        · intro h
          cases h
          exact ⟨rfl, rfl⟩
        · rintro ⟨hs, hlen⟩
          cases head with
          | nil => rw [hs]; rfl
          | cons d head =>
              have := d.utf8Size_pos
              simp only [byteLen_cons] at hlen
              omega
      · rename_i hn
        split
        · rename_i hlt
          simp only [false_iff, not_and, reduceCtorEq]
          intro hs hlen
          cases head with
          | nil => exact hn hlen.symm
          | cons d head =>
              cases hs
              simp only [byteLen_cons] at hlen
              omega
        · rename_i hle
          cases head with
          | nil =>
              simp only [Option.map_eq_some_iff, Prod.mk.injEq, reduceCtorEq, false_and, and_false, exists_false,
                false_iff, not_and]
              exact fun _ hlen => hn hlen.symm
          | cons d head =>
              have hrec := @ih (n - c.utf8Size) head
              constructor
              · intro h
                obtain ⟨⟨a, b⟩, hab, he⟩ := Option.map_eq_some_iff.mp h
                cases he
                obtain ⟨hs, hlen⟩ := hrec.mp hab
                refine ⟨by rw [hs]; rfl, ?_⟩
                rw [byteLen_cons, hlen]
                omega
              · rintro ⟨hs, hlen⟩
                cases hs
                rw [byteLen_cons] at hlen
                rw [hrec.mpr ⟨rfl, by omega⟩]
                rfl

theorem splitAtByte_eq_none_iff {n : Nat} {s : Str} : splitAtByte n s = none ↔ ¬ IsBoundary n s := by
  rw [← Option.not_isSome_iff_eq_none, Option.isSome_iff_exists, not_iff_not]
  constructor
  · rintro ⟨⟨head, tail⟩, h⟩
    exact ⟨head, tail, splitAtByte_eq_some_iff.mp h⟩
  · rintro ⟨head, tail, h⟩
    exact ⟨(head, tail), splitAtByte_eq_some_iff.mpr h⟩

theorem rsplitOnce_append {sep : Char} {a b : Str} (h : sep ∉ b) : rsplitOnce sep (a ++ sep :: b) = some (a, b) := by
  have hrev : (a ++ sep :: b).reverse = b.reverse ++ sep :: a.reverse := by simp
  rw [rsplitOnce, hrev, splitOnce_append (by simpa using h)]
  simp

theorem rsplitOnce_some {sep : Char} {s a b : Str} (h : rsplitOnce sep s = some (a, b)) : s = a ++ sep :: b := by
  obtain ⟨⟨x, y⟩, hsplit, he⟩ := Option.map_eq_some_iff.mp h
  cases he
  have hrev := congrArg List.reverse (splitOnce_some hsplit).1
  rw [List.reverse_reverse] at hrev
  rw [hrev]
  simp

theorem rsplitOnce_none {sep : Char} {s : Str} (h : sep ∉ s) : rsplitOnce sep s = none := by
  rw [rsplitOnce, splitOnce_none.mpr (by simpa using h)]
  rfl

theorem stripStart_append (pat s : Str) : stripStart pat (pat ++ s) = some s := by
  rw [stripStart, if_pos (List.prefix_append pat s), List.drop_left]

theorem eq_of_stripStart {pat s rest : Str} (h : stripStart pat s = some rest) : s = pat ++ rest := by
  unfold stripStart at h
  split at h
  · rename_i hpre
    obtain ⟨t, rfl⟩ := hpre
    rw [List.drop_left] at h
    rw [Option.some.inj h]
  · cases h

theorem parseUnsigned_natText {n max : Nat} (h : n ≤ max) : parseUnsigned max (natText n) = some n := by
  have hdigits := all_isDigit_natText n
  have hsign : withoutSign (natText n) = natText n := by
    unfold withoutSign
    split
    · rename_i rest heq
      rw [heq, List.all_cons, Bool.and_eq_true] at hdigits
      exact absurd hdigits.1 (by decide)
    · rfl
  rw [parseUnsigned, hsign]
  simp [hdigits, natText_ne_nil, decimalValue_natText, Nat.not_lt.mpr h]

/-! ## Printable text -/

/-- Text of printable ASCII characters without a space. -/
def Graphic (s : Str) : Prop := ∀ c ∈ s, 0x21 ≤ c.toNat ∧ c.toNat < 0x7F

theorem not_isWhitespace_of_graphic {c : Char} (h : 0x21 ≤ c.toNat ∧ c.toNat < 0x7F) : isWhitespace c = false := by
  simp only [isWhitespace, Bool.or_eq_false_iff, Bool.and_eq_false_iff, decide_eq_false_iff_not, beq_eq_false_iff_ne]
  omega

theorem Graphic.append {s t : Str} (hs : Graphic s) (ht : Graphic t) : Graphic (s ++ t) := by
  intro c hc
  rcases List.mem_append.mp hc with hc | hc
  · exact hs c hc
  · exact ht c hc

theorem Graphic.cons {s : Str} {c : Char} (hc : 0x21 ≤ c.toNat ∧ c.toNat < 0x7F) (hs : Graphic s) :
    Graphic (c :: s) := by
  intro d hd
  rcases List.mem_cons.mp hd with rfl | hd
  · exact hc
  · exact hs d hd

theorem splitWhitespace_blank (s : Str) : splitWhitespace (' ' :: s) = splitWhitespace s := by
  have hsplit : (' ' :: s).splitOnP isWhitespace = [] :: s.splitOnP isWhitespace :=
    @List.splitOnP_append_cons_of_forall_mem _ _ [] (by simp) ' ' (by decide) s
  rw [splitWhitespace, hsplit]
  rfl

theorem splitWhitespace_word {word : Str} (hne : word ≠ []) (hword : Graphic word) (s : Str) :
    splitWhitespace (word ++ ' ' :: s) = word :: splitWhitespace s := by
  have hblank : ∀ c ∈ word, isWhitespace c = false := fun c hc => not_isWhitespace_of_graphic (hword c hc)
  rw [splitWhitespace, List.splitOnP_append_cons_of_forall_mem hblank ' ' (by decide), List.filter_cons_of_pos]
  · rfl
  · simpa using hne

/-- Words behind one blank each are read back as the words. -/
theorem splitWhitespace_words {words : List Str} (h : ∀ word ∈ words, word ≠ [] ∧ Graphic word) :
    splitWhitespace (words.flatMap (' ' :: ·)) = words := by
  induction words with
  | nil => rfl
  | cons word words ih =>
      obtain ⟨hne, hword⟩ := h word List.mem_cons_self
      have hrest := ih fun w hw => h w (List.mem_cons_of_mem _ hw)
      rw [List.flatMap_cons, List.cons_append, splitWhitespace_blank]
      cases words with
      | nil =>
          have hblank : ∀ c ∈ word, isWhitespace c = false := fun c hc => not_isWhitespace_of_graphic (hword c hc)
          simp [splitWhitespace, List.splitOnP_eq_singleton hblank, hne]
      | cons next words =>
          rw [List.flatMap_cons, List.cons_append, splitWhitespace_blank] at hrest
          rw [List.flatMap_cons, List.cons_append, splitWhitespace_word hne hword, hrest]

theorem trim_graphic {s : Str} (h : Graphic s) : trim s = s := by
  have hstart : s.dropWhile isWhitespace = s := by
    cases s with
    | nil => rfl
    | cons c s => exact List.dropWhile_cons_of_neg (by simp [not_isWhitespace_of_graphic (h c List.mem_cons_self)])
  rw [trim, hstart]
  exact rdropWhile_eq_self_of_last fun c hc => not_isWhitespace_of_graphic (h c (List.mem_of_getLast? hc))

theorem trimStart_trim (s : Str) : trimStart (trim s) = trim s := dropWhile_trimBoth isWhitespace s

/-! ## Letters -/

theorem toLower_of_le {c : Char} (h : 0x80 ≤ c.toNat) : c.toLower = c := by
  unfold Char.toLower
  split
  · rename_i hc
    simp only [ge_iff_le, UInt32.le_iff_toNat_le] at hc
    have hval : c.val.toNat = c.toNat := rfl
    have hz : 'Z'.val.toNat = 90 := rfl
    omega
  · rfl

theorem toUpper_of_le {c : Char} (h : 0x80 ≤ c.toNat) : c.toUpper = c := by
  unfold Char.toUpper
  split
  · rename_i hc
    simp only [UInt32.le_iff_toNat_le] at hc
    have hval : c.val.toNat = c.toNat := rfl
    have hz : 'z'.val.toNat = 122 := rfl
    omega
  · rfl

theorem toLower_toUpper (c : Char) : c.toUpper.toLower = c.toLower := by
  by_cases h : c.toNat < 0x80
  · have htable : ∀ n < 0x80, (Char.ofNat n).toUpper.toLower = (Char.ofNat n).toLower := by decide
    have hc := htable c.toNat h
    rwa [Char.ofNat_toNat] at hc
  · rw [toUpper_of_le (Nat.not_lt.mp h)]

theorem toLower_of_isWhitespace {c : Char} (h : isWhitespace c = true) : c.toLower = c := by
  by_cases hc : c.toNat < 0x80
  · have htable : ∀ n < 0x80, isWhitespace (Char.ofNat n) = true → (Char.ofNat n).toLower = Char.ofNat n := by decide
    have hn := htable c.toNat hc
    rw [Char.ofNat_toNat] at hn
    exact hn h
  · exact toLower_of_le (Nat.not_lt.mp hc)

theorem toAsciiLowercase_toAsciiUppercase (s : Str) : toAsciiLowercase (toAsciiUppercase s) = toAsciiLowercase s := by
  rw [toAsciiLowercase, toAsciiUppercase, List.map_map]
  exact List.map_congr_left fun c _ => toLower_toUpper c

theorem toLower_toLower (c : Char) : c.toLower.toLower = c.toLower := by
  by_cases h : c.toNat < 0x80
  · have htable : ∀ n < 0x80, (Char.ofNat n).toLower.toLower = (Char.ofNat n).toLower := by decide
    have hc := htable c.toNat h
    rwa [Char.ofNat_toNat] at hc
  · rw [toLower_of_le (Nat.not_lt.mp h), toLower_of_le (Nat.not_lt.mp h)]

@[simp] theorem toAsciiLowercase_idem (s : Str) : toAsciiLowercase (toAsciiLowercase s) = toAsciiLowercase s := by
  rw [toAsciiLowercase, toAsciiLowercase, List.map_map]
  exact List.map_congr_left fun c _ => toLower_toLower c

theorem toLower_of_not_isAlpha {c : Char} (h : c.isAlpha = false) : c.toLower = c := by
  by_cases hc : c.toNat < 0x80
  · have htable : ∀ n < 0x80, (Char.ofNat n).isAlpha = false → (Char.ofNat n).toLower = Char.ofNat n := by decide
    have hn := htable c.toNat hc
    rw [Char.ofNat_toNat] at hn
    exact hn h
  · exact toLower_of_le (Nat.not_lt.mp hc)

theorem toLower_eq_or_isAlpha (c : Char) : c.toLower = c ∨ c.toLower.isAlpha = true := by
  by_cases h : c.toNat < 0x80
  · have htable : ∀ n < 0x80, (Char.ofNat n).toLower = Char.ofNat n ∨ (Char.ofNat n).toLower.isAlpha = true := by decide
    have hc := htable c.toNat h
    rwa [Char.ofNat_toNat] at hc
  · exact Or.inl (toLower_of_le (Nat.not_lt.mp h))

/-- Only letters change their case. -/
theorem toLower_eq_iff {a c : Char} (ha : a.isAlpha = false) : c.toLower = a ↔ c = a := by
  constructor
  · rintro rfl
    rcases toLower_eq_or_isAlpha c with h | h
    · exact h.symm
    · rw [ha] at h
      cases h
  · rintro rfl
    exact toLower_of_not_isAlpha ha

theorem toAsciiLowercase_append (s t : Str) : toAsciiLowercase (s ++ t) = toAsciiLowercase s ++ toAsciiLowercase t :=
  List.map_append

/-! ## Pieces -/

/-- An element of a list is a separator or in one of the pieces. -/
theorem mem_splitOn_or_eq {α : Type} [DecidableEq α] (sep : α) {l : List α} {a : α} (h : a ∈ l) :
    a = sep ∨ ∃ piece ∈ l.splitOn sep, a ∈ piece := by
  induction l with
  | nil => cases h
  | cons x l ih =>
      rw [List.splitOn_cons_eq_if_modifyHead]
      cases hs : l.splitOn sep with
      | nil => exact absurd hs (List.splitOn_ne_nil sep l)
      | cons first rest =>
          rw [hs] at ih
          split
          · rename_i hx
            rcases List.mem_cons.mp h with rfl | h
            · exact Or.inl (by simpa using hx)
            · exact (ih h).imp_right fun ⟨piece, hp, ha⟩ => ⟨piece, List.mem_cons_of_mem _ hp, ha⟩
          · rw [List.modifyHead_cons]
            rcases List.mem_cons.mp h with rfl | h
            · exact Or.inr ⟨a :: first, List.mem_cons_self, List.mem_cons_self⟩
            · rcases ih h with he | ⟨piece, hp, ha⟩
              · exact Or.inl he
              · rcases List.mem_cons.mp hp with rfl | hp
                · exact Or.inr ⟨x :: piece, List.mem_cons_self, List.mem_cons_of_mem _ ha⟩
                · exact Or.inr ⟨piece, List.mem_cons_of_mem _ hp, ha⟩

/-! ## Lossy decoding -/

@[simp] theorem fromUtf8Lossy_nil : fromUtf8Lossy [] = [] := rfl

theorem isSecond_iff {a b : UInt8} : isSecond a b = true ↔
    isTail b = true ∧ (a.toNat = 0xE0 → 0xA0 ≤ b.toNat) ∧ (a.toNat = 0xED → b.toNat ≤ 0x9F) ∧
      (a.toNat = 0xF0 → 0x90 ≤ b.toNat) ∧ (a.toNat = 0xF4 → b.toNat ≤ 0x8F) := by
  simp only [isTail_iff, isSecond, UInt8.le_iff_toNat_le, ← UInt8.toNat_inj, UInt8.reduceToNat]
  split
  · simp; omega
  · split
    · simp; omega
    · split
      · simp; omega
      · split
        · simp; omega
        · rw [isTail_iff]; omega

theorem isScalar_two {a b : UInt8} (ha : 0xC2 ≤ a ∧ a ≤ 0xDF) (hb : isTail b = true) :
    isScalar 0x80 (scalar (a.toNat % 32) [b]) = true := by
  simp only [UInt8.le_iff_toNat_le, UInt8.reduceToNat] at ha
  have := isTail_iff.mp hb
  rw [isScalar_iff]
  simp only [scalar, Nat.isValidChar]
  omega

theorem isScalar_three {a b c : UInt8} (ha : 0xE0 ≤ a ∧ a ≤ 0xEF) (hb : isSecond a b = true) :
    isScalar 0x800 (scalar (a.toNat % 16) [b, c]) = true := by
  simp only [UInt8.le_iff_toNat_le, UInt8.reduceToNat] at ha
  obtain ⟨hb, hlow, hhigh, -⟩ := isSecond_iff.mp hb
  have := isTail_iff.mp hb
  rw [isScalar_iff]
  simp only [scalar, Nat.isValidChar]
  omega

theorem isScalar_four {a b c d : UInt8} (ha : 0xF0 ≤ a ∧ a ≤ 0xF4) (hb : isSecond a b = true) :
    isScalar 0x10000 (scalar (a.toNat % 8) [b, c, d]) = true := by
  simp only [UInt8.le_iff_toNat_le, UInt8.reduceToNat] at ha
  obtain ⟨hb, -, -, hlow, hhigh⟩ := isSecond_iff.mp hb
  have := isTail_iff.mp hb
  rw [isScalar_iff]
  simp only [scalar, Nat.isValidChar]
  omega

theorem isSecond_three {a b c : UInt8} (ha : 0xE0 ≤ a.toNat ∧ a.toNat ≤ 0xEF) (hb : isTail b = true)
    (h : isScalar 0x800 (scalar (a.toNat % 16) [b, c]) = true) (hc : isTail c = true) : isSecond a b = true := by
  have htail := isTail_iff.mp hb
  have htail' := isTail_iff.mp hc
  rw [isScalar_iff] at h
  simp only [scalar, Nat.isValidChar] at h
  rw [isSecond_iff]
  refine ⟨hb, ?_⟩
  omega

theorem isSecond_four {a b c d : UInt8} (ha : 0xF0 ≤ a.toNat ∧ a.toNat ≤ 0xF7) (hb : isTail b = true)
    (hc : isTail c = true) (hd : isTail d = true)
    (h : isScalar 0x10000 (scalar (a.toNat % 8) [b, c, d]) = true) : isSecond a b = true ∧ a.toNat ≤ 0xF4 := by
  have htail := isTail_iff.mp hb
  have htail' := isTail_iff.mp hc
  have htail'' := isTail_iff.mp hd
  rw [isScalar_iff] at h
  simp only [scalar, Nat.isValidChar] at h
  rw [isSecond_iff]
  refine ⟨⟨hb, ?_⟩, ?_⟩ <;> omega

/-- Well-formed octets are decoded without loss, whatever follows. -/
theorem fromUtf8Lossy_append {l : Bytes} {s : Str} (h : fromUtf8 l = some s) (rest : Bytes) :
    fromUtf8Lossy (l ++ rest) = s ++ fromUtf8Lossy rest := by
  fun_induction fromUtf8 l generalizing s with
  | case1 =>
      cases h
      rfl
  | case2 a l ha ih =>
      obtain ⟨s', hs, rfl⟩ := Option.map_eq_some_iff.mp h
      have hlt : a < 0x80 := by simpa [UInt8.lt_iff_toNat_lt] using ha
      simp only [List.cons_append]
      rw [fromUtf8Lossy.eq_def]
      simp only [hlt, ↓reduceIte, ih hs]
  | case3 a hge hlead b l hok ih =>
      obtain ⟨s', hs, rfl⟩ := Option.map_eq_some_iff.mp h
      have htail := isTail_iff.mp hok.1
      have hscalar := (isScalar_iff.mp hok.2)
      simp only [scalar, Nat.isValidChar] at hscalar
      have hlt : ¬a < 0x80 := by simpa [UInt8.lt_iff_toNat_lt] using hge
      have hrange : 0xC2 ≤ a ∧ a ≤ 0xDF := by
        simp only [UInt8.le_iff_toNat_le, UInt8.reduceToNat]
        omega
      simp only [List.cons_append]
      rw [fromUtf8Lossy.eq_def]
      simp only [hlt, hrange, and_self, ↓reduceIte, hok.1, ih hs]
  | case4 => cases h
  | case5 => cases h
  | case6 a hge hge' hlead b c l hok ih =>
      obtain ⟨s', hs, rfl⟩ := Option.map_eq_some_iff.mp h
      have hsecond := isSecond_three hlead hok.1 hok.2.2 hok.2.1
      have hlt : ¬a < 0x80 := by simpa [UInt8.lt_iff_toNat_lt] using hge
      have hnot : ¬(0xC2 ≤ a ∧ a ≤ 0xDF) := by
        simp only [UInt8.le_iff_toNat_le, UInt8.reduceToNat]
        omega
      have hrange : 0xE0 ≤ a ∧ a ≤ 0xEF := by
        simp only [UInt8.le_iff_toNat_le, UInt8.reduceToNat]
        omega
      simp only [List.cons_append]
      rw [fromUtf8Lossy.eq_def]
      simp only [hlt, hnot, hrange, and_self, ↓reduceIte, hsecond, hok.2.1, ih hs]
  | case7 => cases h
  | case8 => cases h
  | case9 a hge hge' hge'' hlead b c d l hok ih =>
      obtain ⟨s', hs, rfl⟩ := Option.map_eq_some_iff.mp h
      obtain ⟨hsecond, hmax⟩ := isSecond_four hlead hok.1 hok.2.1 hok.2.2.1 hok.2.2.2
      have hlt : ¬a < 0x80 := by simpa [UInt8.lt_iff_toNat_lt] using hge
      have hnot : ¬(0xC2 ≤ a ∧ a ≤ 0xDF) := by
        simp only [UInt8.le_iff_toNat_le, UInt8.reduceToNat]
        omega
      have hnot' : ¬(0xE0 ≤ a ∧ a ≤ 0xEF) := by
        simp only [UInt8.le_iff_toNat_le, UInt8.reduceToNat]
        omega
      have hrange : 0xF0 ≤ a ∧ a ≤ 0xF4 := by
        simp only [UInt8.le_iff_toNat_le, UInt8.reduceToNat]
        omega
      simp only [List.cons_append]
      rw [fromUtf8Lossy.eq_def]
      simp only [hlt, hnot, hnot', hrange, and_self, ↓reduceIte, hsecond, hok.2.1, hok.2.2.1, ih hs]
  | case10 => cases h
  | case11 => cases h
  | case12 => cases h

theorem fromUtf8Lossy_of_fromUtf8 {l : Bytes} {s : Str} (h : fromUtf8 l = some s) : fromUtf8Lossy l = s := by
  have happ := fromUtf8Lossy_append h []
  rwa [List.append_nil, fromUtf8Lossy_nil, List.append_nil] at happ

theorem fromUtf8Lossy_utf8 (s : Str) : fromUtf8Lossy (utf8 s) = s := fromUtf8Lossy_of_fromUtf8 (fromUtf8_utf8 s)

theorem fromUtf8Lossy_utf8_append (s : Str) (rest : Bytes) : fromUtf8Lossy (utf8 s ++ rest) = s ++ fromUtf8Lossy rest :=
  fromUtf8Lossy_append (fromUtf8_utf8 s) rest

/-- The replacement is as long as the longest run of bytes that it replaces. -/
theorem length_le_byteLen_fromUtf8Lossy (l : Bytes) : l.length ≤ byteLen (fromUtf8Lossy l) := by
  have hrep : replacement.utf8Size = 3 := by decide
  fun_induction fromUtf8Lossy l with
  | case2 a l _ ih =>
      have := (Char.ofNat a.toNat).utf8Size_pos
      rw [List.length_cons, byteLen_cons]
      omega
  | case4 a _ ha b l hb ih =>
      have hs := isScalar_two ha hb
      simp only [UInt8.le_iff_toNat_le, UInt8.reduceToNat] at ha
      rw [byteLen, utf8_cons, utf8EncodeChar_two ⟨by omega, ha.2⟩ hb hs]
      exact Nat.add_le_add_right ih 2
  | case8 a _ _ ha b hb c l hc ih =>
      have hs := @isScalar_three a b c ha hb
      obtain ⟨hb, -⟩ := isSecond_iff.mp hb
      simp only [UInt8.le_iff_toNat_le, UInt8.reduceToNat] at ha
      rw [byteLen, utf8_cons, utf8EncodeChar_three ha hb hc hs]
      exact Nat.add_le_add_right ih 3
  | case14 a _ _ _ ha b hb c hc d l hd ih =>
      have hs := @isScalar_four a b c d ha hb
      obtain ⟨hb, -⟩ := isSecond_iff.mp hb
      simp only [UInt8.le_iff_toNat_le, UInt8.reduceToNat] at ha
      rw [byteLen, utf8_cons, utf8EncodeChar_four ⟨ha.1, by omega⟩ hb hc hd hs]
      exact Nat.add_le_add_right ih 4
  | _ =>
      simp only [List.length_cons, List.length_nil, byteLen_cons, byteLen_nil, hrep] at *
      omega

/-- One step of the decoder: the first bytes become one character, which is ASCII only when it is the one byte. -/
theorem fromUtf8Lossy_step {l : Bytes} (hl : l ≠ []) :
    ∃ x taken rest, l = taken ++ rest ∧ taken ≠ [] ∧ fromUtf8Lossy l = x :: fromUtf8Lossy rest ∧
      (x.toNat < 0x80 → taken = [UInt8.ofNat x.toNat]) := by
  have hrep : ∀ taken : Bytes, replacement.toNat < 0x80 → taken = [UInt8.ofNat replacement.toNat] :=
    fun taken h => absurd h (by decide)
  have hlarge : ∀ {n : Nat} (least : Nat) (taken : Bytes), 0x80 ≤ least → isScalar least n = true →
      (Char.ofNat n).toNat < 0x80 → taken = [UInt8.ofNat (Char.ofNat n).toNat] := by
    intro n least taken hleast hn hlt
    rw [isScalar_iff] at hn
    rw [toNat_ofNat_of_valid hn.2.1] at hlt
    omega
  fun_cases fromUtf8Lossy l with
  | case1 => exact absurd rfl hl
  | case2 a l ha =>
      rw [UInt8.lt_iff_toNat_lt] at ha
      have hchar : (Char.ofNat a.toNat).toNat = a.toNat := toNat_ofNat_of_valid (Or.inl (by simp at ha; omega))
      refine ⟨_, [a], l, rfl, by simp, rfl, fun _ => ?_⟩
      rw [hchar, UInt8.ofNat_toNat]
  | case3 a => exact ⟨replacement, [a], [], rfl, by simp, rfl, hrep _⟩
  | case4 a _ ha b l hb => exact ⟨_, [a, b], l, rfl, by simp, rfl, hlarge _ _ (Nat.le_refl _) (isScalar_two ha hb)⟩
  | case5 a _ _ b l => exact ⟨replacement, [a], b :: l, rfl, by simp, rfl, hrep _⟩
  | case6 a => exact ⟨replacement, [a], [], rfl, by simp, rfl, hrep _⟩
  | case7 a _ _ _ b => exact ⟨replacement, [a, b], [], rfl, by simp, rfl, hrep _⟩
  | case8 a _ _ ha b hb c l hc =>
      exact ⟨_, [a, b, c], l, rfl, by simp, rfl, hlarge _ _ (by decide) (isScalar_three ha hb)⟩
  | case9 a _ _ _ b _ c l => exact ⟨replacement, [a, b], c :: l, rfl, by simp, rfl, hrep _⟩
  | case10 a _ _ _ b l => exact ⟨replacement, [a], b :: l, rfl, by simp, rfl, hrep _⟩
  | case11 a => exact ⟨replacement, [a], [], rfl, by simp, rfl, hrep _⟩
  | case12 a _ _ _ _ b => exact ⟨replacement, [a, b], [], rfl, by simp, rfl, hrep _⟩
  | case13 a _ _ _ _ b _ c => exact ⟨replacement, [a, b, c], [], rfl, by simp, rfl, hrep _⟩
  | case14 a _ _ _ ha b hb c hc d l hd =>
      exact ⟨_, [a, b, c, d], l, rfl, by simp, rfl, hlarge _ _ (by decide) (isScalar_four ha hb)⟩
  | case15 a _ _ _ _ b _ c _ d l => exact ⟨replacement, [a, b, c], d :: l, rfl, by simp, rfl, hrep _⟩
  | case16 a _ _ _ _ b _ c l => exact ⟨replacement, [a, b], c :: l, rfl, by simp, rfl, hrep _⟩
  | case17 a _ _ _ _ b l => exact ⟨replacement, [a], b :: l, rfl, by simp, rfl, hrep _⟩
  | case18 a l => exact ⟨replacement, [a], l, rfl, by simp, rfl, hrep _⟩

/-- An ASCII character that is not the last is a byte that is not the last. -/
theorem mem_dropLast_fromUtf8Lossy {l : Bytes} {c : Char} (hc : c.toNat < 0x80)
    (h : c ∈ (fromUtf8Lossy l).dropLast) : UInt8.ofNat c.toNat ∈ l.dropLast := by
  induction hn : l.length using Nat.strong_induction_on generalizing l with
  | h n ih =>
      by_cases hl : l = []
      · rw [hl, fromUtf8Lossy_nil] at h
        cases h
      · obtain ⟨x, taken, rest, rfl, htaken, hstep, hascii⟩ := fromUtf8Lossy_step hl
        have hshort : rest.length < n := by
          have := List.length_pos_iff.mpr htaken
          rw [← hn, List.length_append]
          omega
        rw [hstep] at h
        have hrest : rest ≠ [] := by
          rintro rfl
          rw [fromUtf8Lossy_nil] at h
          cases h
        rw [List.dropLast_append_of_ne_nil hrest]
        have hmore : fromUtf8Lossy rest ≠ [] := by
          obtain ⟨y, _, _, -, -, hy, -⟩ := fromUtf8Lossy_step hrest
          rw [hy]
          exact List.cons_ne_nil _ _
        rw [List.dropLast_cons_of_ne_nil hmore] at h
        rcases List.mem_cons.mp h with rfl | h
        · rw [hascii hc]
          exact List.mem_append_left _ (List.mem_singleton_self _)
        · exact List.mem_append_right _ (ih rest.length hshort h rfl)

end Selfhost.Lib

/-! # Comparing bytes without stopping early -/

namespace Selfhost.Lib

theorem foldl_or_eq_zero_iff {l : Bytes} {a : UInt8} : l.foldl (· ||| ·) a = 0 ↔ a = 0 ∧ ∀ b ∈ l, b = 0 := by
  induction l generalizing a with
  | nil => simp
  | cons b l ih =>
      rw [List.foldl_cons, ih, List.forall_mem_cons, ← and_assoc]
      refine and_congr_left fun _ => ?_
      simp [← UInt8.toBitVec_inj]

theorem differences_eq_zero_iff {expected actual : Bytes} (hlen : expected.length = actual.length) :
    ((expected.zip actual).map fun (a, b) => a ^^^ b).foldl (· ||| ·) 0 = 0 ↔ expected = actual := by
  rw [foldl_or_eq_zero_iff]
  simp only [true_and, List.forall_mem_map, UInt8.xor_eq_zero_iff]
  constructor
  · intro h
    refine List.ext_getElem hlen fun i hi hi' => ?_
    have hboth : i < (expected.zip actual).length := by
      rw [List.length_zip]
      exact Nat.lt_min.mpr ⟨hi, hi'⟩
    exact h (expected[i], actual[i]) (List.mem_iff_getElem.mpr ⟨i, hboth, by simp⟩)
  · rintro rfl ⟨a, b⟩ hmem
    rw [List.zip_eq_zipWith, List.zipWith_self] at hmem
    obtain ⟨x, -, hx⟩ := List.mem_map.mp hmem
    cases hx
    rfl

end Selfhost.Lib
