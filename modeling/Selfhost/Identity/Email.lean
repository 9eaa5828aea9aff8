import Selfhost.Lib.Slice

/-!
# Login addresses

`foundation/identity/src/identity.rs`: the address that a person's password is looked up by, and `str::to_lowercase`,
which it is folded with.
-/

namespace Selfhost.Identity

open Selfhost.Lib

/-! ## Lower case -/

/-- The Unicode tables that lower case is made from. -/
structure CasingTables where
  /-- The lower case of one character, which can be several characters. -/
  lower : Char → Str
  cased : Char → Bool
  ignorable : Char → Bool

def capitalSigma : Char := Char.ofNat 0x3A3

def smallSigma : Char := Char.ofNat 0x3C3

def finalSigma : Char := Char.ofNat 0x3C2

namespace CasingTables

def ignorableThenCased (T : CasingTables) (text : Str) : Bool :=
  match text.dropWhile T.ignorable with
  | c :: _ => T.cased c
  | [] => false

/-- The lower case of a character, with what stands before it in reverse: a capital sigma at the end of a word has a
form of its own. -/
def lowerAt (T : CasingTables) (before : Str) (c : Char) (rest : Str) : Str :=
  if c = capitalSigma then
    [if T.ignorableThenCased before && !T.ignorableThenCased rest then finalSigma else smallSigma]
  else T.lower c

/-- The loop of `str::to_lowercase`. -/
def lowerFrom (T : CasingTables) : Str → Str → Str
  | _, [] => []
  | before, c :: rest => T.lowerAt before c rest ++ T.lowerFrom (c :: before) rest

def toLowercase (T : CasingTables) (text : Str) : Str := T.lowerFrom [] text

end CasingTables

/-- What the Unicode tables are known to say: lower case is not empty and is its own lower case, ASCII is as in ASCII,
and no separator, white space or control character comes out of another character. -/
structure Casing extends CasingTables where
  lower_ne_nil : ∀ c, lower c ≠ []
  lower_lower : ∀ c, ∀ d ∈ lower c, lower d = [d] ∧ d ≠ capitalSigma
  lower_sigma : lower smallSigma = [smallSigma] ∧ lower finalSigma = [finalSigma]
  lower_ascii : ∀ c, c.toNat < 0x80 → lower c = [c.toLower]
  lower_at : ∀ c, '@' ∈ lower c → c = '@'
  lower_space : ∀ c, ∀ d ∈ lower c, isWhitespace d = true ∨ isControl d = true → isWhitespace c = true ∨ isControl c = true

/-! ## Addresses -/

/-- The longest address, in characters. -/
def maxEmailChars : Nat := 254

inductive InvalidPersonEmail where
  | empty
  | tooLong (chars : Nat)
  | whitespace
  | notOneAt
  | emptyLocalOrDomain
  | domainHasNoDot
  deriving DecidableEq, Repr

/-- The checks of `PersonEmail::parse`, on the text as it was given. -/
def checkEmail (text : Str) : Except InvalidPersonEmail Unit :=
  if text = [] then .error .empty
  else if maxEmailChars < text.length then .error (.tooLong text.length)
  else if text.any fun c => isWhitespace c || isControl c then .error .whitespace
  else
    match splitOnce '@' text with
    | none => .error .notOneAt
    | some (first, domain) =>
        if domain.contains '@' then .error .notOneAt
        else if first = [] ∨ domain = [] then .error .emptyLocalOrDomain
        else if !domain.contains '.' then .error .domainHasNoDot
        else .ok ()

/-- An address in lower case. -/
structure PersonEmail (C : Casing) where
  text : Str
  valid : ∃ raw, checkEmail raw = .ok () ∧ C.toLowercase raw = text
  deriving DecidableEq

variable {C : Casing}

def PersonEmail.parse (C : Casing) (text : Str) : Except InvalidPersonEmail (PersonEmail C) :=
  match h : checkEmail text with
  | .error e => .error e
  | .ok () => .ok ⟨C.toLowercase text, text, h, rfl⟩

/-! ## Lower case of lower case -/

/-- A character that lower case keeps. -/
def Casing.Keeps (C : Casing) (c : Char) : Prop := C.lower c = [c] ∧ c ≠ capitalSigma

theorem lowerAt_ne_nil (before : Str) (c : Char) (rest : Str) : C.lowerAt before c rest ≠ [] := by
  unfold CasingTables.lowerAt
  split
  · simp
  · exact C.lower_ne_nil c

/-- What comes out of a character: nothing that lower case would change, and a separator or white space only for one. -/
theorem mem_lowerAt {before rest : Str} {c d : Char} (h : d ∈ C.lowerAt before c rest) :
    C.Keeps d ∧ (d = '@' → c = '@') ∧
      (isWhitespace d = true ∨ isControl d = true → isWhitespace c = true ∨ isControl c = true) := by
  unfold CasingTables.lowerAt at h
  split at h
  · rw [List.mem_singleton] at h
    subst h
    split
    · exact ⟨⟨C.lower_sigma.2, by decide⟩, fun h => absurd h (by decide), fun h => absurd h (by decide)⟩
    · exact ⟨⟨C.lower_sigma.1, by decide⟩, fun h => absurd h (by decide), fun h => absurd h (by decide)⟩
  · refine ⟨C.lower_lower c d h, ?_, C.lower_space c d h⟩
    rintro rfl
    exact C.lower_at c h

theorem lowerAt_ascii {before rest : Str} {c : Char} (h : c.toNat < 0x80) : C.lowerAt before c rest = [c.toLower] := by
  have hsigma : c ≠ capitalSigma := by
    rintro rfl
    exact absurd h (by decide)
  rw [CasingTables.lowerAt, if_neg hsigma, C.lower_ascii c h]

theorem mem_lowerFrom {before text : Str} {d : Char} (h : d ∈ C.lowerFrom before text) :
    ∃ c ∈ text, ∃ before' rest, d ∈ C.lowerAt before' c rest := by
  induction text generalizing before with
  | nil => cases h
  | cons c rest ih =>
      rw [CasingTables.lowerFrom, List.mem_append] at h
      rcases h with h | h
      · exact ⟨c, List.mem_cons_self, before, rest, h⟩
      · obtain ⟨e, he, hd⟩ := ih h
        exact ⟨e, List.mem_cons_of_mem _ he, hd⟩

theorem lowerFrom_of_keeps {before text : Str} (h : ∀ c ∈ text, C.Keeps c) : C.lowerFrom before text = text := by
  induction text generalizing before with
  | nil => rfl
  | cons c rest ih =>
      obtain ⟨hlower, hsigma⟩ := h c List.mem_cons_self
      rw [CasingTables.lowerFrom, CasingTables.lowerAt, if_neg hsigma, hlower,
        ih fun d hd => h d (List.mem_cons_of_mem _ hd)]
      rfl

/-- Lower case is its own lower case. -/
theorem toLowercase_idem (text : Str) : C.toLowercase (C.toLowercase text) = C.toLowercase text := by
  apply lowerFrom_of_keeps
  intro d hd
  obtain ⟨c, -, _, _, hc⟩ := mem_lowerFrom hd
  exact (mem_lowerAt hc).1

/-! ## Reading an address back -/

theorem lowerFrom_ne_nil {before text : Str} (h : text ≠ []) : C.lowerFrom before text ≠ [] := by
  cases text with
  | nil => exact absurd rfl h
  | cons c rest => exact List.append_ne_nil_of_left_ne_nil (lowerAt_ne_nil before c rest) _

theorem at_not_mem_lowerFrom {before text : Str} (h : '@' ∉ text) : '@' ∉ C.lowerFrom before text := by
  intro hmem
  obtain ⟨c, hc, _, _, hd⟩ := mem_lowerFrom hmem
  exact h ((mem_lowerAt hd).2.1 rfl ▸ hc)

theorem dot_mem_lowerFrom {before text : Str} (h : '.' ∈ text) : '.' ∈ C.lowerFrom before text := by
  induction text generalizing before with
  | nil => cases h
  | cons c rest ih =>
      rw [CasingTables.lowerFrom, List.mem_append]
      rcases List.mem_cons.mp h with rfl | h
      · exact Or.inl (by rw [lowerAt_ascii (by decide)]; decide)
      · exact Or.inr (ih h)

/-- The lower case of an address has the same halves, in lower case. -/
theorem lowerFrom_at {before a b : Str} (ha : '@' ∉ a) :
    ∃ a' before', C.lowerFrom before (a ++ '@' :: b) = a' ++ '@' :: C.lowerFrom before' b ∧ '@' ∉ a' ∧
      (a ≠ [] → a' ≠ []) := by
  induction a generalizing before with
  | nil =>
      refine ⟨[], '@' :: before, ?_, List.not_mem_nil, fun h => h⟩
      rw [List.nil_append, CasingTables.lowerFrom, lowerAt_ascii (by decide)]
      rfl
  | cons c a ih =>
      obtain ⟨hc, ha⟩ := not_or.mp (fun h => ha (List.mem_cons.mpr h))
      obtain ⟨a', before', heq, hat, -⟩ := @ih (c :: before) ha
      refine ⟨C.lowerAt before c (a ++ '@' :: b) ++ a', before', ?_, ?_, fun _ => ?_⟩
      · rw [List.cons_append, CasingTables.lowerFrom, heq, List.append_assoc]
      · intro hmem
        rcases List.mem_append.mp hmem with h | h
        · exact hc ((mem_lowerAt h).2.1 rfl).symm
        · exact hat h
      · exact List.append_ne_nil_of_left_ne_nil (lowerAt_ne_nil _ _ _) _

/-- What the checks accept, apart from the length. -/
structure EmailShape (text : Str) : Prop where
  visible : ∀ c ∈ text, ¬ (isWhitespace c = true ∨ isControl c = true)
  halves : ∃ first domain, text = first ++ '@' :: domain ∧ '@' ∉ first ∧ '@' ∉ domain ∧ first ≠ [] ∧ domain ≠ [] ∧
    '.' ∈ domain

theorem checkEmail_shape {text : Str} (h : checkEmail text = .ok ()) : EmailShape text := by
  unfold checkEmail at h
  split at h
  · cases h
  split at h
  · cases h
  split at h
  · cases h
  rename_i hspace
  split at h
  · cases h
  rename_i first domain hsplit
  split at h
  · cases h
  rename_i hat
  split at h
  · cases h
  rename_i hempty
  split at h
  · cases h
  rename_i hdot
  obtain ⟨htext, hfirst⟩ := splitOnce_some hsplit
  obtain ⟨hne, hne'⟩ := not_or.mp hempty
  exact ⟨by simpa using hspace, first, domain, htext, hfirst, by simpa using hat, hne, hne', by simpa using hdot⟩

/-- Of a text of this shape only the length is left to check. -/
theorem EmailShape.check {text : Str} (h : EmailShape text) :
    checkEmail text = if maxEmailChars < text.length then .error (.tooLong text.length) else .ok () := by
  obtain ⟨hspace, first, domain, htext, hfirst, hat, hne, hne', hdot⟩ := h
  have hnil : text ≠ [] := by
    rw [htext]
    simp
  have hspace : ¬ (text.any fun c => isWhitespace c || isControl c) = true := by
    simpa using hspace
  have hsplit : splitOnce '@' text = some (first, domain) := by
    rw [htext]
    exact splitOnce_append hfirst
  simp [checkEmail, hnil, hspace, hsplit, hat, hne, hne', hdot]

theorem EmailShape.toLowercase {text : Str} (h : EmailShape text) : EmailShape (C.toLowercase text) := by
  obtain ⟨hspace, first, domain, rfl, hfirst, hat, hne, hne', hdot⟩ := h
  refine ⟨fun d hd hdspace => ?_, ?_⟩
  · obtain ⟨c, hc, _, _, hlower⟩ := mem_lowerFrom hd
    exact hspace c hc ((mem_lowerAt hlower).2.2 hdspace)
  · obtain ⟨first', before, heq, hfirst', hne''⟩ := @lowerFrom_at C [] first domain hfirst
    exact ⟨first', C.lowerFrom before domain, heq, hfirst', at_not_mem_lowerFrom hat, hne'' hne, lowerFrom_ne_nil hne',
      dot_mem_lowerFrom hdot⟩

theorem PersonEmail.shape (email : PersonEmail C) : EmailShape email.text := by
  obtain ⟨raw, hraw, heq⟩ := email.valid
  rw [← heq]
  exact (checkEmail_shape hraw).toLowercase

/-- An address is read back from its text, unless lower case has made it too long. -/
theorem PersonEmail.parse_text (email : PersonEmail C) : PersonEmail.parse C email.text =
    if maxEmailChars < email.text.length then .error (.tooLong email.text.length) else .ok email := by
  have hlower : C.toLowercase email.text = email.text := by
    obtain ⟨raw, -, heq⟩ := email.valid
    rw [← heq, toLowercase_idem]
  have hcheck := email.shape.check
  unfold PersonEmail.parse
  split
  · rename_i e he
    rw [hcheck] at he
    split at he
    · rename_i hlong
      cases he
      rw [if_pos hlong]
    · cases he
  · rename_i he
    rw [hcheck] at he
    split at he
    · cases he
    · rename_i hshort
      rw [if_neg hshort]
      obtain ⟨text, valid⟩ := email
      simp only [hlower]

/-! ## A table -/

/-- The tables cut down to ASCII and to the capital I with a dot above, whose lower case is two characters. -/
def sampleTables : CasingTables where
  lower c :=
    if c = Char.ofNat 0x130 then ['i', Char.ofNat 0x307]
    else if c = capitalSigma then [smallSigma]
    else [c.toLower]
  cased c := c.isAlpha
  ignorable c := c = '.'

theorem sampleTables_lower {c d : Char} (h : d ∈ sampleTables.lower c) :
    d = 'i' ∨ d = Char.ofNat 0x307 ∨ d = smallSigma ∨ (d = c.toLower ∧ c ≠ Char.ofNat 0x130 ∧ c ≠ capitalSigma) := by
  simp only [sampleTables] at h
  split at h
  · simp only [List.mem_cons, List.not_mem_nil, or_false] at h
    tauto
  · split at h
    · simp only [List.mem_cons, List.not_mem_nil, or_false] at h
      tauto
    · simp only [List.mem_cons, List.not_mem_nil, or_false] at h
      tauto

def sampleCasing : Casing where
  toCasingTables := sampleTables
  lower_ne_nil c := by
    simp only [sampleTables]
    split_ifs <;> simp
  lower_lower c d hd := by
    rcases sampleTables_lower hd with rfl | rfl | rfl | ⟨rfl, hdot, hsigma⟩
    · decide
    · decide
    · decide
    · have hdot' : c.toLower ≠ Char.ofNat 0x130 := fun h => hdot ((toLower_eq_iff (by decide)).mp h)
      have hsigma' : c.toLower ≠ capitalSigma := fun h => hsigma ((toLower_eq_iff (by decide)).mp h)
      refine ⟨?_, hsigma'⟩
      simp only [sampleTables, if_neg hdot', if_neg hsigma', toLower_toLower]
  lower_sigma := by decide
  lower_ascii c hc := by
    have hdot : c ≠ Char.ofNat 0x130 := by
      rintro rfl
      exact absurd hc (by decide)
    have hsigma : c ≠ capitalSigma := by
      rintro rfl
      exact absurd hc (by decide)
    simp [sampleTables, hdot, hsigma]
  lower_at c hc := by
    rcases sampleTables_lower hc with h | h | h | ⟨h, -⟩
    · exact absurd h (by decide)
    · exact absurd h (by decide)
    · exact absurd h (by decide)
    · exact (toLower_eq_iff (by decide)).mp h.symm
  lower_space c d hd hspace := by
    rcases sampleTables_lower hd with rfl | rfl | rfl | ⟨rfl, -⟩
    · exact absurd hspace (by decide)
    · exact absurd hspace (by decide)
    · exact absurd hspace (by decide)
    · by_cases hc : c.toNat < 0x80
      · have htable : ∀ n < 0x80, isWhitespace (Char.ofNat n).toLower = true ∨ isControl (Char.ofNat n).toLower = true →
            isWhitespace (Char.ofNat n) = true ∨ isControl (Char.ofNat n) = true := by decide +kernel
        have hn := htable c.toNat hc
        rw [Char.ofNat_toNat] at hn
        exact hn hspace
      · rwa [toLower_of_le (Nat.not_lt.mp hc)] at hspace

end Selfhost.Identity
