import Mathlib.Data.List.DropRight
import Selfhost.Lib.Utf8

/-!
# Text operations

The operations on strings that a byte-oriented parser needs, over lists of characters: splitting once,
ASCII case folding, trimming Unicode white space, hexadecimal digits.
-/

namespace Selfhost.Lib

/-- The part before the first `sep` and the part after it. -/
def splitOnce {α : Type} [DecidableEq α] (sep : α) : List α → Option (List α × List α)
  | [] => none
  | a :: l => if a = sep then some ([], l) else (splitOnce sep l).map fun p => (a :: p.1, p.2)

/-- ASCII letters in lower case, everything else as it is. -/
def toAsciiLowercase (s : Str) : Str := s.map Char.toLower

/-- ASCII letters in upper case, everything else as it is. -/
def toAsciiUppercase (s : Str) : Str := s.map Char.toUpper

/-- Equality up to the case of ASCII letters. -/
def eqIgnoreAsciiCase (s t : Str) : Bool := toAsciiLowercase s == toAsciiLowercase t

/-- The Unicode property `White_Space`. -/
def isWhitespace (c : Char) : Bool :=
  let n := c.toNat
  (0x09 ≤ n && n ≤ 0x0D) || n == 0x20 || n == 0x85 || n == 0xA0 || n == 0x1680 ||
    (0x2000 ≤ n && n ≤ 0x200A) || n == 0x2028 || n == 0x2029 || n == 0x202F || n == 0x205F || n == 0x3000

/-- The Unicode category `Cc`. -/
def isControl (c : Char) : Bool := c.toNat ≤ 0x1F || (0x7F ≤ c.toNat && c.toNat ≤ 0x9F)

/-- `s` without white space at either end. -/
def trim (s : Str) : Str := (s.dropWhile isWhitespace).rdropWhile isWhitespace

/-- `n` in decimal. -/
def natText (n : Nat) : Str := Nat.toDigits 10 n

/-- The number a string of decimal digits stands for. -/
def decimalValue (s : Str) : Nat := Nat.ofDigitChars 10 s 0

/-- The value of a hexadecimal digit. -/
def hexValue (b : UInt8) : Option Nat :=
  if 0x30 ≤ b.toNat ∧ b.toNat ≤ 0x39 then some (b.toNat % 0x10)
  else if (0x41 ≤ b.toNat ∧ b.toNat ≤ 0x46) ∨ (0x61 ≤ b.toNat ∧ b.toNat ≤ 0x66) then
    some (b.toNat % 0x10 + 9)
  else none

/-- The upper-case digit of a number below sixteen. -/
def hexDigit (nibble : Nat) : Char := "0123456789ABCDEF".toList.getD nibble '0'

theorem graphic_hexDigit : ∀ n < 16, 0x21 ≤ (hexDigit n).toNat ∧ (hexDigit n).toNat < 0x7F := by decide

theorem hexValue_hexDigit : ∀ n < 16, hexValue (UInt8.ofNat (hexDigit n).toNat) = some n := by decide

/-- Text without white space and control characters. -/
def Visible (s : Str) : Prop := ∀ c ∈ s, 0x21 ≤ c.toNat

/-- Text that can stand in one line and has no white space at its ends. -/
structure FieldText (s : Str) : Prop where
  chars : ∀ c ∈ s, c = ' ' ∨ 0x21 ≤ c.toNat
  first : ∀ c, s.head? = some c → 0x21 ≤ c.toNat
  last : ∀ c, s.getLast? = some c → 0x21 ≤ c.toNat

/-! ## Equality up to case -/

theorem eqIgnoreAsciiCase_congr {s t : Str} (h : eqIgnoreAsciiCase s t = true) (u : Str) :
    eqIgnoreAsciiCase s u = eqIgnoreAsciiCase t u := by
  unfold eqIgnoreAsciiCase at h ⊢
  rw [beq_iff_eq.mp h]

/-! ## Splitting once -/

theorem splitOnce_some {α : Type} [DecidableEq α] {sep : α} {l a b : List α}
    (h : splitOnce sep l = some (a, b)) : l = a ++ sep :: b ∧ sep ∉ a := by
  induction l generalizing a with
  | nil => cases h
  | cons x l ih =>
      simp only [splitOnce] at h
      split at h
      · cases h
        rename_i hx
        simp [hx]
      · rename_i hx
        obtain ⟨⟨a', b'⟩, hp, he⟩ := Option.map_eq_some_iff.mp h
        cases he
        obtain ⟨rfl, hn⟩ := ih hp
        exact ⟨rfl, by simp [hn, Ne.symm hx]⟩

theorem splitOnce_append {α : Type} [DecidableEq α] {sep : α} {a b : List α} (h : sep ∉ a) :
    splitOnce sep (a ++ sep :: b) = some (a, b) := by
  induction a with
  | nil => simp [splitOnce]
  | cons x a ih =>
      simp only [List.mem_cons, not_or] at h
      simp [splitOnce, Ne.symm h.1, ih h.2]

theorem splitOnce_none {α : Type} [DecidableEq α] {sep : α} {l : List α} :
    splitOnce sep l = none ↔ sep ∉ l := by
  induction l with
  | nil => simp [splitOnce]
  | cons x l ih =>
      simp only [splitOnce]
      split
      · rename_i hx
        simp [hx]
      · rename_i hx
        simp [ih, Ne.symm hx]

theorem not_mem_of_mem_splitOn {α : Type} [DecidableEq α] {sep : α} {l piece : List α}
    (h : piece ∈ l.splitOn sep) : sep ∉ piece := by
  induction l generalizing piece with
  | nil =>
      rw [List.splitOn_nil, List.mem_singleton] at h
      rw [h]
      exact List.not_mem_nil
  | cons a l ih =>
      rw [List.splitOn_cons_eq_if_modifyHead] at h
      split at h
      · rcases List.mem_cons.mp h with rfl | h
        · exact List.not_mem_nil
        · exact ih h
      · rename_i ha
        cases hs : l.splitOn sep with
        | nil => exact absurd hs (List.splitOn_ne_nil sep l)
        | cons first rest =>
            rw [hs, List.modifyHead_cons, List.mem_cons] at h
            rcases h with rfl | h
            · have hfirst := ih (hs ▸ List.mem_cons_self)
              simp only [List.mem_cons, not_or]
              exact ⟨fun he => ha (by simp [he]), hfirst⟩
            · exact ih (hs ▸ List.mem_cons_of_mem _ h)

/-! ## Trimming at the end -/

theorem rdropWhile_eq_self_of_last {α : Type} {p : α → Bool} {l : List α}
    (h : ∀ c, l.getLast? = some c → p c = false) : l.rdropWhile p = l := by
  rw [List.rdropWhile_eq_self_iff]
  intro hl
  simp [h _ (List.getLast?_eq_some_getLast hl)]

theorem last_of_rdropWhile_eq_self {α : Type} {p : α → Bool} {l : List α} {c : α}
    (h : l.rdropWhile p = l) (hc : l.getLast? = some c) : p c = false := by
  rw [List.rdropWhile_eq_self_iff] at h
  obtain ⟨l', rfl⟩ := List.getLast?_eq_some_iff.mp hc
  simpa using h (by simp)

/-- What was trimmed at both ends has nothing to trim at its start. -/
theorem dropWhile_trimBoth {α : Type} (p : α → Bool) (l : List α) :
    ((l.dropWhile p).rdropWhile p).dropWhile p = (l.dropWhile p).rdropWhile p := by
  obtain ⟨rest, hrest⟩ := List.rdropWhile_prefix p (l := l.dropWhile p)
  cases ht : (l.dropWhile p).rdropWhile p with
  | nil => rfl
  | cons a t =>
      have hd : (l.dropWhile p).head? = some a := by
        rw [← hrest, ht]
        rfl
      have ha := List.head?_dropWhile_not p l
      rw [hd] at ha
      exact List.dropWhile_cons_of_neg (by simpa using ha)

/-- Trimming both ends twice is trimming once. -/
theorem trimBoth_idem {α : Type} (p : α → Bool) (l : List α) :
    (((l.dropWhile p).rdropWhile p).dropWhile p).rdropWhile p = (l.dropWhile p).rdropWhile p := by
  rw [dropWhile_trimBoth, List.rdropWhile_idempotent]

/-! ## Text of one line -/

theorem Visible.append {s t : Str} (hs : Visible s) (ht : Visible t) : Visible (s ++ t) := by
  intro c hc
  rcases List.mem_append.mp hc with hc | hc
  · exact hs c hc
  · exact ht c hc

theorem Visible.cons {s : Str} {c : Char} (hc : 0x21 ≤ c.toNat) (hs : Visible s) : Visible (c :: s) := by
  intro d hd
  rcases List.mem_cons.mp hd with rfl | hd
  · exact hc
  · exact hs d hd

theorem Visible.fieldText {s : Str} (h : Visible s) : FieldText s :=
  ⟨fun c hc => Or.inr (h c hc), fun c hc => h c (List.mem_of_head? hc), fun c hc => h c (List.mem_of_getLast? hc)⟩

/-! ## Numbers -/

theorem isDigit_of_mem_natText {n : Nat} {c : Char} (hc : c ∈ natText n) : c.isDigit = true :=
  Nat.isDigit_of_mem_toDigits (by decide) (by decide) hc

theorem all_isDigit_natText (n : Nat) : (natText n).all Char.isDigit = true :=
  List.all_eq_true.mpr fun _ hc => isDigit_of_mem_natText hc

theorem natText_ne_nil (n : Nat) : natText n ≠ [] := Nat.toDigits_ne_nil

theorem decimalValue_natText (n : Nat) : decimalValue (natText n) = n := Nat.ofDigitChars_ten_toDigits

end Selfhost.Lib
