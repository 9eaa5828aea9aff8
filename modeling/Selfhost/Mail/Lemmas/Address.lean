import Selfhost.Lib.Fallible
import Selfhost.Mail.Store

/-!
# Addresses as text

An address that was parsed is read back from its text: the text is printable ASCII, the domain stays legal in lower
case, and the last `@` is the one between the parts.
-/

namespace Selfhost.Mail

open Selfhost.Lib

/-! ## The parts of an address -/

/-- A character of a local part. -/
theorem local_char {localPart : Str} (h : isValidLocal localPart = true) {c : Char} (hc : c ∈ localPart) :
    (0x21 ≤ c.toNat ∧ c.toNat < 0x7F) ∧ c ∉ ['@', ':'] := by
  simp only [isValidLocal, Bool.and_eq_true] at h
  have hascii : ∀ b : UInt8, isLocalByte b = true → b.toNat < 0x80 := by
    intro b hb
    rcases (Bool.or_eq_true _ _).mp hb with hb | hb
    · exact lt_of_isAsciiAlphanumeric hb
    · refine (?_ : ∀ x ∈ _, x.toNat < 0x80) b (of_decide_eq_true hb)
      decide
  obtain ⟨hlt, hbyte⟩ := toNat_lt_of_utf8 hascii h.2 hc
  have htable : ∀ n < 0x80, isLocalByte (UInt8.ofNat n) = true →
      (0x21 ≤ n ∧ n < 0x7F) ∧ Char.ofNat n ∉ ['@', ':'] := by decide
  have hn := htable c.toNat hlt hbyte
  rwa [Char.ofNat_toNat] at hn

theorem domain_char {c : Char} (h : isDomainChar c = true) :
    (0x21 ≤ c.toNat ∧ c.toNat < 0x7F) ∧ c ∉ ['@', ':'] := by
  have hlt : c.toNat < 0x80 := by
    simp only [isDomainChar, Char.isAlphanum, isAlpha_eq, isUpper_eq, isLower_eq, Char.isDigit, Bool.or_eq_true,
      Bool.and_eq_true, decide_eq_true_eq, beq_iff_eq, UInt32.le_iff_toNat_le, ge_iff_le] at h
    have hval : c.val.toNat = c.toNat := rfl
    have hZ : 'Z'.val.toNat = 90 := rfl
    have hz : 'z'.val.toNat = 122 := rfl
    have h9 : '9'.val.toNat = 57 := rfl
    have hdash : '-'.toNat = 45 := rfl
    have hdot : '.'.toNat = 46 := rfl
    rcases h with (((h | h) | h) | rfl) | rfl <;> omega
  have htable : ∀ n < 0x80, isDomainChar (Char.ofNat n) = true →
      (0x21 ≤ n ∧ n < 0x7F) ∧ Char.ofNat n ∉ ['@', ':'] := by decide
  have hn := htable c.toNat hlt
  rw [Char.ofNat_toNat] at hn
  exact hn h

namespace Address

theorem mem_text {a : Address} {c : Char} (hc : c ∈ a.text) :
    c = '@' ∨ ((0x21 ≤ c.toNat ∧ c.toNat < 0x7F) ∧ c ∉ ['@', ':']) := by
  rcases List.mem_append.mp hc with hc | hc
  · exact Or.inr (local_char a.local_valid hc)
  · rcases List.mem_cons.mp hc with rfl | hc
    · exact Or.inl rfl
    · exact Or.inr (domain_char (List.all_eq_true.mp a.domain_chars c hc))

theorem graphic_text (a : Address) : Graphic a.text := by
  intro c hc
  rcases mem_text hc with rfl | h
  · decide
  · exact h.1

theorem not_mem_text (a : Address) : ':' ∉ a.text := by
  intro h
  rcases mem_text h with h | ⟨-, h⟩
  · exact absurd h (by decide)
  · exact h (by decide)

end Address

/-! ## Domains in lower case -/

theorem byteLen_toAsciiLowercase (s : Str) : byteLen (toAsciiLowercase s) = byteLen s := by
  induction s with
  | nil => rfl
  | cons c s ih =>
      have hsize : c.toLower.utf8Size = c.utf8Size := by
        by_cases hc : c.toNat < 0x80
        · have htable : ∀ n < 0x80, (Char.ofNat n).toLower.utf8Size = (Char.ofNat n).utf8Size := by decide
          have hn := htable c.toNat hc
          rwa [Char.ofNat_toNat] at hn
        · rw [toLower_of_le (Nat.not_lt.mp hc)]
      have hcons : toAsciiLowercase (c :: s) = c.toLower :: toAsciiLowercase s := rfl
      rw [hcons, byteLen_cons, byteLen_cons, hsize, ih]

theorem all_utf8_of_chars {s : Str} {p : UInt8 → Bool}
    (h : ∀ c ∈ s, c.toNat < 0x80 ∧ p (UInt8.ofNat c.toNat) = true) : (utf8 s).all p = true := by
  induction s with
  | nil => rfl
  | cons c s ih =>
      obtain ⟨hlt, hp⟩ := h c List.mem_cons_self
      rw [utf8_cons, utf8EncodeChar_ascii hlt, List.cons_append, List.nil_append, List.all_cons, hp,
        ih fun d hd => h d (List.mem_cons_of_mem _ hd)]
      rfl

theorem head?_toAsciiLowercase {s : Str} {a : Char} (ha : a.isAlpha = false) :
    (toAsciiLowercase s).head? = some a ↔ s.head? = some a := by
  rw [toAsciiLowercase, List.head?_map, Option.map_eq_some_iff]
  constructor
  · rintro ⟨c, hc, hlower⟩
    rw [hc, (toLower_eq_iff ha).mp hlower]
  · intro h
    exact ⟨a, h, toLower_of_not_isAlpha ha⟩

theorem getLast?_toAsciiLowercase {s : Str} {a : Char} (ha : a.isAlpha = false) :
    (toAsciiLowercase s).getLast? = some a ↔ s.getLast? = some a := by
  rw [← List.head?_reverse, ← List.head?_reverse, toAsciiLowercase, ← List.map_reverse]
  exact head?_toAsciiLowercase ha

theorem hasInfix_iff {pat s : Str} : hasInfix pat s = true ↔ pat <:+: s := by
  rw [hasInfix]
  induction s with
  | nil =>
      rw [findSub, List.infix_nil]
      split
      · rename_i hp
        simp [hp]
      · rename_i hp
        simp [hp]
  | cons c s ih =>
      rw [findSub, List.infix_cons_iff]
      split
      · rename_i hp
        simp [hp]
      · rename_i hp
        rw [Option.isSome_map, ih]
        exact (or_iff_right hp).symm

theorem dotsOk_toAsciiLowercase {s : Str} (h : dotsOk s = true) : dotsOk (toAsciiLowercase s) = true := by
  have hdot : '.'.isAlpha = false := by decide
  simp only [dotsOk, Bool.and_eq_true, bne_iff_ne, ne_eq, Bool.not_eq_true', ← Bool.not_eq_true, hasInfix_iff] at h ⊢
  rw [head?_toAsciiLowercase hdot, getLast?_toAsciiLowercase hdot]
  refine ⟨h.1, ?_⟩
  -- Two dots in a row in lower case were two dots before.
  rintro ⟨a, b, hab⟩
  obtain ⟨front, b', hs, hfront, -⟩ := List.map_eq_append_iff.mp hab.symm
  obtain ⟨a', dots, rfl, -, hdots⟩ := List.map_eq_append_iff.mp hfront
  obtain ⟨c, d, rfl⟩ := List.length_eq_two.mp (show dots.length = 2 by simpa using congrArg List.length hdots)
  simp only [List.map_cons, List.map_nil, List.cons.injEq, and_true, toLower_eq_iff hdot] at hdots
  obtain ⟨rfl, rfl⟩ := hdots
  exact h.2 ⟨a', b', hs.symm⟩

theorem lt_of_label_byte {b : UInt8} (hb : (isAsciiAlphanumeric b || b == 0x2D) = true) : b.toNat < 0x80 := by
  rcases (Bool.or_eq_true _ _).mp hb with hb | hb
  · exact lt_of_isAsciiAlphanumeric hb
  · rw [beq_iff_eq.mp hb]
    decide

theorem isLabel_toAsciiLowercase {label : Str} (h : isLabel label = true) :
    isLabel (toAsciiLowercase label) = true := by
  have hdash : '-'.isAlpha = false := by decide
  simp only [isLabel, Bool.and_eq_true, bne_iff_ne, ne_eq, decide_eq_true_eq, Bool.not_eq_true',
    List.isEmpty_eq_false_iff] at h ⊢
  obtain ⟨⟨⟨⟨hne, hlen⟩, hfirst⟩, hlast⟩, hall⟩ := h
  rw [head?_toAsciiLowercase hdash, getLast?_toAsciiLowercase hdash, byteLen_toAsciiLowercase]
  refine ⟨⟨⟨⟨by simpa [toAsciiLowercase] using hne, hlen⟩, hfirst⟩, hlast⟩, all_utf8_of_chars ?_⟩
  intro c hc
  obtain ⟨d, hd, rfl⟩ := List.mem_map.mp hc
  obtain ⟨hlt, hbyte⟩ := toNat_lt_of_utf8 (fun b hb => lt_of_label_byte hb) hall hd
  have htable : ∀ n < 0x80, (isAsciiAlphanumeric (UInt8.ofNat n) || UInt8.ofNat n == 0x2D) = true →
      (Char.ofNat n).toLower.toNat < 0x80 ∧ (isAsciiAlphanumeric (UInt8.ofNat (Char.ofNat n).toLower.toNat) ||
        UInt8.ofNat (Char.ofNat n).toLower.toNat == 0x2D) = true := by decide
  have hn := htable d.toNat hlt hbyte
  rwa [Char.ofNat_toNat] at hn

theorem splitOn_toAsciiLowercase (s : Str) :
    (toAsciiLowercase s).splitOn '.' = (s.splitOn '.').map toAsciiLowercase := by
  induction s with
  | nil => rfl
  | cons c s ih =>
      have hcons : toAsciiLowercase (c :: s) = c.toLower :: toAsciiLowercase s := rfl
      have hdot : (c.toLower == '.') = (c == '.') := by
        rw [Bool.eq_iff_iff, beq_iff_eq, beq_iff_eq]
        exact toLower_eq_iff (by decide)
      rw [hcons, List.splitOn_cons_eq_if_modifyHead, List.splitOn_cons_eq_if_modifyHead, ih, hdot]
      split
      · rfl
      · cases s.splitOn '.' with
        | nil => rfl
        | cons first rest => rfl

theorem isValidDomain_toAsciiLowercase {domain : Str} (h : isValidDomain domain = true) :
    isValidDomain (toAsciiLowercase domain) = true := by
  simp only [isValidDomain, Bool.and_eq_true, List.contains_iff_mem, splitOn_toAsciiLowercase, List.all_map,
    List.all_eq_true] at h ⊢
  refine ⟨⟨dotsOk_toAsciiLowercase h.1.1, ?_⟩, fun label hlabel => isLabel_toAsciiLowercase (h.2 label hlabel)⟩
  exact List.mem_map.mpr ⟨'.', h.1.2, rfl⟩

/-! ## Reading back -/

namespace Address

/-- An address that was parsed. In the source there is no other. -/
def Legal (a : Address) : Prop := ∃ input, parse input = .ok a

theorem Legal.parse_text {a : Address} (h : a.Legal) : parse a.text = .ok a := by
  obtain ⟨input, h⟩ := h
  unfold parse at h
  dsimp only at h
  split at h
  · cases h
  · rename_i hlong
    split at h
    · cases h
    · rename_i localPart domain hsplit
      split at h
      · cases h
      · rename_i hlocal
        split at h
        · rename_i hvalid
          split at h
          · cases h
          · rename_i hdomain
            split at h
            · rename_i hd
              cases h
              have hlen : byteLen (localPart ++ '@' :: toAsciiLowercase domain) = byteLen (trim input) := by
                rw [rsplitOnce_some hsplit, byteLen_append, byteLen_append, byteLen_cons, byteLen_cons,
                  byteLen_toAsciiLowercase]
              have hat : '@' ∉ toAsciiLowercase domain := fun hm =>
                (domain_char (List.all_eq_true.mp (isDomainChar_lower hd) '@' hm)).2 (by decide)
              have hlower : ¬ (toAsciiLowercase domain = [] ∨ maxDomain < byteLen (toAsciiLowercase domain)) := by
                rw [byteLen_toAsciiLowercase, toAsciiLowercase, List.map_eq_nil_iff]
                exact hdomain
              generalize ha : Address.mk localPart (toAsciiLowercase domain) hvalid (isDomainChar_lower hd) = a
              have htext : a.text = localPart ++ '@' :: toAsciiLowercase domain := by rw [← ha]; rfl
              unfold parse
              dsimp only
              rw [trim_graphic a.graphic_text, htext, if_neg (by rw [hlen]; exact hlong), rsplitOnce_append hat]
              dsimp only
              rw [if_neg hlocal, dif_pos hvalid, if_neg hlower, dif_pos (isValidDomain_toAsciiLowercase hd), ← ha]
              simp
            · cases h
        · cases h

end Address

namespace Path

/-- A path whose address was parsed. -/
def Legal (p : Path) : Prop := ∀ a, p.address = some a → a.Legal

theorem graphic_text (p : Path) : Graphic p.text := by
  cases p with
  | null => exact .cons (by decide) (.cons (by decide) (fun c hc => by cases hc))
  | mailbox a => exact .cons (by decide) (a.graphic_text.append (.cons (by decide) (fun c hc => by cases hc)))

theorem Legal.parse_text {p : Path} (h : p.Legal) : parse p.text = .ok p := by
  cases p with
  | null => rfl
  | mailbox a =>
      have hcolon := a.not_mem_text
      have hinner : inner (Path.mailbox a).text = a.text := by
        show (if (a.text ++ ['>']).getLast? = some '>' then (a.text ++ ['>']).dropLast else _) = a.text
        rw [List.getLast?_concat, if_pos rfl, List.dropLast_concat]
      have hne : a.text ≠ [] := by simp [Address.text]
      unfold parse
      dsimp only
      rw [trim_graphic (graphic_text _), hinner, trim_graphic a.graphic_text, if_neg hne, rsplitOnce_none hcolon]
      dsimp only
      rw [(h a rfl).parse_text]
      rfl

theorem legal_of_parse {input : Str} {p : Path} (h : parse input = .ok p) : p.Legal := by
  intro a ha
  unfold parse at h
  dsimp only at h
  split at h
  · cases h
    cases ha
  · obtain ⟨b, hb, rfl⟩ := map_ok h
    cases ha
    exact ⟨_, hb⟩

end Path

end Selfhost.Mail
