import Selfhost.Lib.Text

/-!
# Names of people and machines

`foundation/identity/src/identity.rs`: the grammar that a person's and an agent's name share, and who a
request is from.
-/

namespace Selfhost.Names

open Selfhost.Lib

/-- `char::is_alphanumeric`: what the Unicode tables say, of which the ASCII part is fixed here. -/
structure Alphabet where
  isAlphanumeric : Char → Bool
  ascii : ∀ c, c.toNat < 0x80 → isAlphanumeric c = c.isAlphanum

/-- The tables cut down to ASCII. -/
def asciiAlphabet : Alphabet := ⟨Char.isAlphanum, fun _ _ => rfl⟩

/-- Why a text is no name. -/
inductive InvalidName where
  | empty
  | tooLong (chars : Nat)
  | reservedOwnerName
  | reservedMachineName
  | edge
  | forbidden (c : Char)
  | adjacentSeparators
  deriving DecidableEq, Repr

def ownerName : Str := "owner".toList

def machineName : Str := "machine".toList

/-- The longest name, in characters. -/
def maxNameChars : Nat := 32

/-- The marks allowed inside a name. -/
def separators : List Char := [' ', '-', '_', '.', Char.ofNat 0x27]

/-- The loop over the characters: whether this is the first one, and the separator just before it. -/
def checkChars (A : Alphabet) : Bool → Option Char → Str → Except InvalidName Unit
  | _, previous, [] => if previous.isSome then .error .edge else .ok ()
  | first, previous, c :: rest =>
      let separator := separators.contains c
      if !separator && !A.isAlphanumeric c then .error (.forbidden c)
      else if first && separator then .error .edge
      else if separator && previous.any fun p => (p, c) != ('.', ' ') then .error .adjacentSeparators
      else checkChars A false (if separator then some c else none) rest

/-- The grammar of `PersonName::parse` and `AgentName::parse`. -/
def checkName (A : Alphabet) (text : Str) : Except InvalidName Unit :=
  if text = [] then .error .empty
  else if maxNameChars < text.length then .error (.tooLong text.length)
  else if eqIgnoreAsciiCase text ownerName then .error .reservedOwnerName
  else if eqIgnoreAsciiCase text machineName then .error .reservedMachineName
  else checkChars A true none text

/-- A name that its grammar accepts. -/
structure Name (A : Alphabet) where
  text : Str
  valid : checkName A text = .ok ()

/-- Who a request is from. -/
inductive Identity (A : Alphabet) where
  | owner
  | machine
  | person (name : Name A)
  | agent (name : Name A)

def Identity.asStr {A : Alphabet} : Identity A → Str
  | .owner => ownerName
  | .machine => machineName
  | .person name => name.text
  | .agent name => name.text

/-! ## What a name is made of -/

variable {A : Alphabet}

theorem Alphabet.visible_of_isAlphanumeric {c : Char} (h : A.isAlphanumeric c = true) : 0x21 ≤ c.toNat := by
  by_contra hlt
  rw [A.ascii c (by omega)] at h
  simp only [Char.isAlphanum, isAlpha_eq, isUpper_eq, isLower_eq, Char.isDigit, Bool.or_eq_true,
    Bool.and_eq_true, decide_eq_true_eq, UInt32.le_iff_toNat_le, ge_iff_le] at h
  have hc : c.toNat = c.val.toNat := rfl
  have hupper : 'A'.val.toNat = 65 := rfl
  have hlower : 'a'.val.toNat = 97 := rfl
  have hdigit : '0'.val.toNat = 48 := rfl
  omega

theorem checkChars_ok {first : Bool} {previous : Option Char} {text : Str}
    (h : checkChars A first previous text = .ok ()) :
    (∀ c ∈ text, separators.contains c = true ∨ A.isAlphanumeric c = true) ∧
      (first = true → ∀ c, text.head? = some c → separators.contains c = false) ∧
      (∀ c, text.getLast? = some c → separators.contains c = false) ∧ (text = [] → previous = none) := by
  induction text generalizing first previous with
  | nil =>
      simp only [checkChars] at h
      split at h
      · cases h
      · rename_i hp
        simpa using hp
  | cons c rest ih =>
      simp only [checkChars] at h
      split at h
      · cases h
      · rename_i halpha
        split at h
        · cases h
        · rename_i hfirst
          split at h
          · cases h
          · obtain ⟨hall, -, hlast, hend⟩ := ih h
            refine ⟨?_, ?_, ?_, by simp⟩
            · intro d hd
              rcases List.mem_cons.mp hd with rfl | hd
              · by_cases hs : d ∈ separators
                · exact Or.inl (by simpa using hs)
                · exact Or.inr (by simpa [hs] using halpha)
              · exact hall d hd
            · rintro rfl d ⟨⟩
              simpa using hfirst
            · intro d hd
              cases rest with
              | nil =>
                  cases hd
                  have := hend rfl
                  simpa using this
              | cons e rest =>
                  rw [List.getLast?_cons_cons] at hd
                  exact hlast d hd

theorem Name.fieldText (name : Name A) : FieldText name.text := by
  have hvalid := name.valid
  unfold checkName at hvalid
  split at hvalid
  · cases hvalid
  · split at hvalid
    · cases hvalid
    · split at hvalid
      · cases hvalid
      · split at hvalid
        · cases hvalid
        · obtain ⟨hall, hfirst, hlast, -⟩ := checkChars_ok hvalid
          have hchar : ∀ c ∈ name.text, separators.contains c = false → 0x21 ≤ c.toNat := by
            intro c hc hs
            rcases hall c hc with h | h
            · rw [hs] at h
              cases h
            · exact Alphabet.visible_of_isAlphanumeric h
          refine ⟨?_, ?_, ?_⟩
          · intro c hc
            by_cases hs : separators.contains c = true
            · simp only [separators, List.contains_eq_mem, List.mem_cons, List.not_mem_nil, or_false,
                decide_eq_true_eq] at hs
              rcases hs with rfl | rfl | rfl | rfl | rfl
              · exact Or.inl rfl
              all_goals exact Or.inr (by decide)
            · exact Or.inr (hchar c hc (by simpa using hs))
          · exact fun c hc => hchar c (List.mem_of_head? hc) (hfirst rfl c hc)
          · exact fun c hc => hchar c (List.mem_of_getLast? hc) (hlast c hc)

theorem visible_ownerName : Visible ownerName := by
  unfold Visible
  decide

theorem visible_machineName : Visible machineName := by
  unfold Visible
  decide

/-- Every identity is displayed as text that one header line can carry. -/
theorem Identity.fieldText_asStr (identity : Identity A) : FieldText identity.asStr := by
  cases identity with
  | owner => exact visible_ownerName.fieldText
  | machine => exact visible_machineName.fieldText
  | person name => exact name.fieldText
  | agent name => exact name.fieldText

end Selfhost.Names
