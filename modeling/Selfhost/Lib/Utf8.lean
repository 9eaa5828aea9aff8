import Mathlib.Algebra.BigOperators.Group.List.Basic
import Mathlib.Algebra.Order.Ring.Int
import Mathlib.Data.BitVec
import Mathlib.Data.Char
import Mathlib.Data.List.Basic
import Mathlib.Data.List.Count
import Mathlib.Data.List.Forall2
import Mathlib.Data.String.Basic
import Mathlib.Data.UInt

/-!
# Strings and their UTF-8 bytes

A string is the list of its Unicode scalar values and a byte string is a list of octets. `utf8` is the
encoding, `fromUtf8` the strict decoder (overlong forms, surrogates and values above `0x10FFFF` are
refused). The two are inverse to each other in both directions.
-/

namespace Selfhost.Lib

/-- Octets as they stand on the wire or on disk. -/
abbrev Bytes := List UInt8

/-- A string, as the list of its Unicode scalar values. -/
abbrev Str := List Char

/-- The equality of texts is lawful; under a name of its own, as every membership test over texts refers to it. -/
instance lawfulStr : LawfulBEq Str := inferInstance

-- What is said of the elements of a list is decided along the list, also where the type has finitely many values.
instance (priority := 2000) decidableBall {α : Type} (l : List α) (p : α → Prop) [DecidablePred p] :
    Decidable (∀ a ∈ l, p a) :=
  List.decidableBAll p l

instance (priority := 2000) decidableBex {α : Type} (l : List α) (p : α → Prop) [DecidablePred p] :
    Decidable (∃ a ∈ l, p a) :=
  List.decidableBEx p l

/-- The UTF-8 bytes of a string. -/
def utf8 (s : Str) : Bytes := s.flatMap String.utf8EncodeChar

/-- A continuation octet, `10xxxxxx`. -/
def isTail (b : UInt8) : Bool := 0x80 ≤ b.toNat && b.toNat ≤ 0xBF

/-- The scalar value of octets whose payloads are `x` and, six bits each, those of `l`. -/
def scalar (x : Nat) : Bytes → Nat
  | [] => x
  | b :: l => scalar (x * 64 + b.toNat % 64) l

/-- Whether a decoded value is a scalar value that needs as many octets as were spent on it. -/
def isScalar (least n : Nat) : Bool := least ≤ n && (n < 0xD800 || 0xDFFF < n) && n < 0x110000

/-- Strict UTF-8 decoding. `none` when the octets are not well-formed UTF-8. -/
def fromUtf8 : Bytes → Option Str
  | [] => some []
  | a :: l =>
      if a.toNat < 0x80 then (fromUtf8 l).map (Char.ofNat a.toNat :: ·)
      else if 0xC0 ≤ a.toNat ∧ a.toNat ≤ 0xDF then
        match l with
        | b :: l =>
            if isTail b ∧ isScalar 0x80 (scalar (a.toNat % 32) [b]) then
              (fromUtf8 l).map (Char.ofNat (scalar (a.toNat % 32) [b]) :: ·)
            else none
        | _ => none
      else if 0xE0 ≤ a.toNat ∧ a.toNat ≤ 0xEF then
        match l with
        | b :: c :: l =>
            if isTail b ∧ isTail c ∧ isScalar 0x800 (scalar (a.toNat % 16) [b, c]) then
              (fromUtf8 l).map (Char.ofNat (scalar (a.toNat % 16) [b, c]) :: ·)
            else none
        | _ => none
      else if 0xF0 ≤ a.toNat ∧ a.toNat ≤ 0xF7 then
        match l with
        | b :: c :: d :: l =>
            if isTail b ∧ isTail c ∧ isTail d ∧
                isScalar 0x10000 (scalar (a.toNat % 8) [b, c, d]) then
              (fromUtf8 l).map (Char.ofNat (scalar (a.toNat % 8) [b, c, d]) :: ·)
            else none
        | _ => none
      else none

/-! ## The encoding -/

@[simp] theorem utf8_nil : utf8 [] = [] := rfl

@[simp] theorem utf8_cons (c : Char) (s : Str) : utf8 (c :: s) = String.utf8EncodeChar c ++ utf8 s := by
  simp [utf8]

@[simp] theorem utf8_append (s t : Str) : utf8 (s ++ t) = utf8 s ++ utf8 t := by
  simp [utf8]

theorem toNat_ofNat_of_valid {n : Nat} (h : n.isValidChar) : (Char.ofNat n).toNat = n := by
  have : (Char.ofNat n) = Char.ofNatAux n h := dif_pos h
  rw [this]
  rfl

theorem isAlpha_eq (c : Char) : c.isAlpha = (c.isUpper || c.isLower) := by
  cases c
  rfl

theorem isUpper_eq (c : Char) : c.isUpper = decide (c.val ≥ 'A'.val ∧ c.val ≤ 'Z'.val) := by
  cases c
  rfl

theorem isLower_eq (c : Char) : c.isLower = (decide (c.val ≥ 'a'.val) && decide (c.val ≤ 'z'.val)) := by
  cases c
  rfl

theorem Char.toNat_valid (c : Char) : c.toNat.isValidChar := c.valid

/-- A character below `0x80` is its own single octet. -/
theorem utf8EncodeChar_ascii {c : Char} (h : c.toNat < 0x80) :
    String.utf8EncodeChar c = [UInt8.ofNat c.toNat] := by
  simp only [String.utf8EncodeChar, Char.toNat_val]
  rw [if_pos (by omega)]

/-- Every octet of a character outside ASCII is at least `0x80`. -/
theorem le_of_mem_utf8EncodeChar {c : Char} {b : UInt8} (h : 0x80 ≤ c.toNat)
    (hb : b ∈ String.utf8EncodeChar c) : 0x80 ≤ b.toNat := by
  have hv := Char.toNat_valid c
  simp only [Nat.isValidChar] at hv
  simp only [String.utf8EncodeChar, Char.toNat_val] at hb
  rw [if_neg (by omega)] at hb
  split at hb
  · simp only [List.mem_cons, List.not_mem_nil, or_false] at hb
    rcases hb with rfl | rfl <;> rw [UInt8.toNat_ofNat'] <;> omega
  · split at hb
    · simp only [List.mem_cons, List.not_mem_nil, or_false] at hb
      rcases hb with rfl | rfl | rfl <;> rw [UInt8.toNat_ofNat'] <;> omega
    · simp only [List.mem_cons, List.not_mem_nil, or_false] at hb
      rcases hb with rfl | rfl | rfl | rfl <;> rw [UInt8.toNat_ofNat'] <;> omega

/-- An ASCII octet of an encoding is an ASCII character of the string. -/
theorem mem_of_mem_utf8 {s : Str} {b : UInt8} (hb : b ∈ utf8 s) (hlt : b.toNat < 0x80) :
    Char.ofNat b.toNat ∈ s := by
  obtain ⟨c, hc, hbc⟩ := List.mem_flatMap.mp hb
  by_cases h : c.toNat < 0x80
  · rw [utf8EncodeChar_ascii h, List.mem_singleton] at hbc
    subst hbc
    rw [UInt8.toNat_ofNat', Nat.mod_eq_of_lt (by omega), Char.ofNat_toNat]
    exact hc
  · have := le_of_mem_utf8EncodeChar (by omega) hbc
    omega

theorem mem_utf8_of_mem {s : Str} {c : Char} (hc : c ∈ s) (h : c.toNat < 0x80) :
    UInt8.ofNat c.toNat ∈ utf8 s :=
  List.mem_flatMap.mpr ⟨c, hc, by rw [utf8EncodeChar_ascii h]; exact List.mem_singleton.mpr rfl⟩

/-! ## Decoding an encoding -/

theorem isTail_iff {b : UInt8} : isTail b = true ↔ 0x80 ≤ b.toNat ∧ b.toNat ≤ 0xBF := by
  simp [isTail]

theorem isScalar_iff {least n : Nat} :
    isScalar least n = true ↔ least ≤ n ∧ n.isValidChar ∧ n < 0x110000 := by
  simp only [isScalar, Nat.isValidChar, Bool.and_eq_true, Bool.or_eq_true, decide_eq_true_eq]
  omega

theorem toNat_tail (n : Nat) : (UInt8.ofNat (n % 64 + 128)).toNat = n % 64 + 128 := by
  rw [UInt8.toNat_ofNat', Nat.mod_eq_of_lt (by omega)]

theorem isTail_ofNat (n : Nat) : isTail (UInt8.ofNat (n % 64 + 128)) = true := by
  rw [isTail_iff, toNat_tail]; omega

theorem fromUtf8_utf8EncodeChar (c : Char) (l : Bytes) :
    fromUtf8 (String.utf8EncodeChar c ++ l) = (fromUtf8 l).map (c :: ·) := by
  have hv : c.toNat.isValidChar := Char.toNat_valid c
  have hlt : c.toNat < 0x110000 := by rcases hv with h | h <;> omega
  have hc : Char.ofNat c.toNat = c := Char.ofNat_toNat c
  simp only [String.utf8EncodeChar, Char.toNat_val]
  -- One case for each length of the encoding; in each the head octet selects the decoder's branch.
  split
  · have h8 : (UInt8.ofNat c.toNat).toNat = c.toNat := by
      rw [UInt8.toNat_ofNat', Nat.mod_eq_of_lt (by omega)]
    rw [List.cons_append, List.nil_append, fromUtf8.eq_def]
    simp only [h8]
    rw [if_pos (by omega), hc]
  · split
    · have h0 : (UInt8.ofNat (c.toNat / 64 % 32 + 192)).toNat = c.toNat / 64 + 192 := by
        rw [UInt8.toNat_ofNat']; omega
      have hs : scalar ((c.toNat / 64 + 192) % 32) [UInt8.ofNat (c.toNat % 64 + 128)] = c.toNat := by
        simp only [scalar, toNat_tail]; omega
      simp only [List.cons_append, List.nil_append, fromUtf8, h0, hs, hc]
      rw [if_neg (by omega), if_pos (by omega),
        if_pos ⟨isTail_ofNat _, isScalar_iff.mpr ⟨by omega, hv, hlt⟩⟩]
    · split
      · have h0 : (UInt8.ofNat (c.toNat / 4096 % 16 + 224)).toNat = c.toNat / 4096 + 224 := by
          rw [UInt8.toNat_ofNat']; omega
        have hs : scalar ((c.toNat / 4096 + 224) % 16)
            [UInt8.ofNat (c.toNat / 64 % 64 + 128), UInt8.ofNat (c.toNat % 64 + 128)] = c.toNat := by
          simp only [scalar, toNat_tail]; omega
        simp only [List.cons_append, List.nil_append, fromUtf8, h0, hs, hc]
        rw [if_neg (by omega), if_neg (by omega), if_pos (by omega),
          if_pos ⟨isTail_ofNat _, isTail_ofNat _, isScalar_iff.mpr ⟨by omega, hv, hlt⟩⟩]
      · have h0 : (UInt8.ofNat (c.toNat / 262144 % 8 + 240)).toNat = c.toNat / 262144 + 240 := by
          rw [UInt8.toNat_ofNat']; omega
        have hs : scalar ((c.toNat / 262144 + 240) % 8)
            [UInt8.ofNat (c.toNat / 4096 % 64 + 128), UInt8.ofNat (c.toNat / 64 % 64 + 128),
              UInt8.ofNat (c.toNat % 64 + 128)] = c.toNat := by
          simp only [scalar, toNat_tail]; omega
        simp only [List.cons_append, List.nil_append, fromUtf8, h0, hs, hc]
        rw [if_neg (by omega), if_neg (by omega), if_neg (by omega), if_pos (by omega),
          if_pos ⟨isTail_ofNat _, isTail_ofNat _, isTail_ofNat _,
            isScalar_iff.mpr ⟨by omega, hv, hlt⟩⟩]

/-- Decoding what was encoded gives the string back. -/
theorem fromUtf8_utf8 (s : Str) : fromUtf8 (utf8 s) = some s := by
  induction s with
  | nil => rfl
  | cons c s ih => rw [utf8_cons, fromUtf8_utf8EncodeChar, ih, Option.map_some]

/-! ## Encoding a decoding -/

/-- An octet is the truncation of any number it equals. -/
theorem ofNat_eq_of_toNat {n : Nat} {a : UInt8} (h : n = a.toNat) : UInt8.ofNat n = a := by
  rw [h, UInt8.ofNat_toNat]

theorem utf8EncodeChar_one {a : UInt8} (h : a.toNat < 0x80) :
    String.utf8EncodeChar (Char.ofNat a.toNat) = [a] := by
  have hn := toNat_ofNat_of_valid (n := a.toNat) (Or.inl (by omega))
  rw [utf8EncodeChar_ascii (by rw [hn]; exact h), hn, UInt8.ofNat_toNat]

theorem utf8EncodeChar_two {a b : UInt8} (ha : 0xC0 ≤ a.toNat ∧ a.toNat ≤ 0xDF) (hb : isTail b = true)
    (hs : isScalar 0x80 (scalar (a.toNat % 32) [b]) = true) :
    String.utf8EncodeChar (Char.ofNat (scalar (a.toNat % 32) [b])) = [a, b] := by
  obtain ⟨hlo, hv, -⟩ := isScalar_iff.mp hs
  rw [isTail_iff] at hb
  generalize hn : scalar (a.toNat % 32) [b] = n at *
  simp only [scalar] at hn
  simp only [String.utf8EncodeChar, Char.toNat_val, toNat_ofNat_of_valid hv]
  rw [if_neg (by omega), if_pos (by omega), ofNat_eq_of_toNat (a := a) (by omega),
    ofNat_eq_of_toNat (a := b) (by omega)]

theorem utf8EncodeChar_three {a b c : UInt8} (ha : 0xE0 ≤ a.toNat ∧ a.toNat ≤ 0xEF)
    (hb : isTail b = true) (hc : isTail c = true)
    (hs : isScalar 0x800 (scalar (a.toNat % 16) [b, c]) = true) :
    String.utf8EncodeChar (Char.ofNat (scalar (a.toNat % 16) [b, c])) = [a, b, c] := by
  obtain ⟨hlo, hv, -⟩ := isScalar_iff.mp hs
  rw [isTail_iff] at hb hc
  generalize hn : scalar (a.toNat % 16) [b, c] = n at *
  simp only [scalar] at hn
  simp only [String.utf8EncodeChar, Char.toNat_val, toNat_ofNat_of_valid hv]
  rw [if_neg (by omega), if_neg (by omega), if_pos (by omega), ofNat_eq_of_toNat (a := a) (by omega),
    ofNat_eq_of_toNat (a := b) (by omega), ofNat_eq_of_toNat (a := c) (by omega)]

theorem utf8EncodeChar_four {a b c d : UInt8} (ha : 0xF0 ≤ a.toNat ∧ a.toNat ≤ 0xF7)
    (hb : isTail b = true) (hc : isTail c = true) (hd : isTail d = true)
    (hs : isScalar 0x10000 (scalar (a.toNat % 8) [b, c, d]) = true) :
    String.utf8EncodeChar (Char.ofNat (scalar (a.toNat % 8) [b, c, d])) = [a, b, c, d] := by
  obtain ⟨hlo, hv, hhi⟩ := isScalar_iff.mp hs
  rw [isTail_iff] at hb hc hd
  generalize hn : scalar (a.toNat % 8) [b, c, d] = n at *
  simp only [scalar] at hn
  simp only [String.utf8EncodeChar, Char.toNat_val, toNat_ofNat_of_valid hv]
  rw [if_neg (by omega), if_neg (by omega), if_neg (by omega), ofNat_eq_of_toNat (a := a) (by omega),
    ofNat_eq_of_toNat (a := b) (by omega), ofNat_eq_of_toNat (a := c) (by omega),
    ofNat_eq_of_toNat (a := d) (by omega)]

/-- What `fromUtf8` accepts is the encoding of what it returns. -/
theorem utf8_of_fromUtf8 {l : Bytes} {s : Str} (h : fromUtf8 l = some s) : utf8 s = l := by
  -- The recursion is the decoder's own, so every branch it accepts is one case.
  fun_induction fromUtf8 l generalizing s with
  | case1 => cases h; rfl
  | case2 a l ha ih =>
      obtain ⟨t, ht, rfl⟩ := Option.map_eq_some_iff.mp h
      rw [utf8_cons, utf8EncodeChar_one ha, ih ht]
      rfl
  | case3 a _ ha b l hb ih =>
      obtain ⟨t, ht, rfl⟩ := Option.map_eq_some_iff.mp h
      rw [utf8_cons, utf8EncodeChar_two ha hb.1 hb.2, ih ht]
      rfl
  | case6 a _ _ ha b c l hb ih =>
      obtain ⟨t, ht, rfl⟩ := Option.map_eq_some_iff.mp h
      rw [utf8_cons, utf8EncodeChar_three ha hb.1 hb.2.1 hb.2.2, ih ht]
      rfl
  | case9 a _ _ _ ha b c d l hb ih =>
      obtain ⟨t, ht, rfl⟩ := Option.map_eq_some_iff.mp h
      rw [utf8_cons, utf8EncodeChar_four ha hb.1 hb.2.1 hb.2.2.1 hb.2.2.2, ih ht]
      rfl
  | _ => cases h

end Selfhost.Lib
