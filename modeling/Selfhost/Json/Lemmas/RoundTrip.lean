import Selfhost.Json.Parser

/-!
# Reading back what was written

The parser takes the text of a value off the front of its input, when the value nests no deeper than the parser
goes, its fields are in order and its numbers are counters.
-/

namespace Selfhost.Json

open Selfhost.Lib

/-- A value that the parser reads back with so many levels. -/
inductive Fits (D : DoubleOps) : Nat → Value D.F → Prop where
  | null {n : Nat} : Fits D (n + 1) .null
  | bool {n : Nat} (b : Bool) : Fits D (n + 1) (.bool b)
  | number {n : Nat} (k : Nat) : Fits D (n + 1) (.number (D.ofU64 k))
  | string {n : Nat} (s : Str) : Fits D (n + 1) (.string s)
  | array {n : Nat} {items : List (Value D.F)} : (∀ item ∈ items, Fits D n item) → Fits D (n + 1) (.array items)
  | object {n : Nat} {fields : List (Str × Value D.F)} : fields.Pairwise (fun a b => a.1 < b.1) →
      (∀ field ∈ fields, Fits D n field.2) → Fits D (n + 1) (.object fields)

/-! ## Strings -/

theorem charOf_toNat (c : Char) : charOf c.toNat = some c := by
  have hvalid : c.toNat.isValidChar := c.valid
  rw [charOf, dif_pos hvalid]
  rfl

theorem hexNumber_control : ∀ n < 0x20, hexNumber '0' '0' (hexDigit (n / 16)) (hexDigit (n % 16)) = some n := by
  decide

theorem unicodeEscape_control {c : Char} (hc : c.toNat < 0x20) (rest : Str) :
    unicodeEscape ('0' :: '0' :: hexDigit (c.toNat / 16) :: hexDigit (c.toNat % 16) :: rest) = .ok (c, rest) := by
  have hlow : ¬ (0xD800 ≤ c.toNat ∧ c.toNat < 0xDC00) := by omega
  simp [unicodeEscape, hex4, hexNumber_control _ hc, bind, Except.bind, hlow, charOf_toNat]

/-- One turn of the loop reads one written character. -/
theorem stringLoop_writeChar (fuel : Nat) (c : Char) (rest out : Str) :
    stringLoop (fuel + 1) (writeChar c ++ rest) out = stringLoop fuel rest (out ++ [c]) := by
  unfold writeChar
  refine iteInduction (motive := fun text => stringLoop (fuel + 1) (text ++ rest) out = _) (fun h => ?_)
    fun hquote => ?_
  · subst h
    rfl
  refine iteInduction (motive := fun text => stringLoop (fuel + 1) (text ++ rest) out = _) (fun h => ?_)
    fun hslash => ?_
  · subst h
    rfl
  iterate 5
    refine iteInduction (motive := fun text => stringLoop (fuel + 1) (text ++ rest) out = _) (fun h => ?_) fun _ => ?_
    · subst h
      rfl
  split
  · rename_i hc
    have hescape : escape ('u' :: '0' :: '0' :: hexDigit (c.toNat / 16) :: hexDigit (c.toNat % 16) :: rest)
        = .ok (c, rest) := by
      simpa [escape] using unicodeEscape_control hc rest
    simp [stringLoop, hescape, bind, Except.bind]
  · rename_i hc
    simp [stringLoop, hquote, hslash, hc]

theorem stringLoop_written (s : Str) {fuel : Nat} (hfuel : s.length < fuel) (rest out : Str) :
    stringLoop fuel (s.flatMap writeChar ++ '"' :: rest) out = .ok (out ++ s, rest) := by
  induction s generalizing fuel out with
  | nil =>
      cases fuel with
      | zero => simp at hfuel
      | succ fuel => simp [stringLoop]
  | cons c s ih =>
      cases fuel with
      | zero => simp at hfuel
      | succ fuel =>
          rw [List.length_cons, Nat.add_lt_add_iff_right] at hfuel
          rw [List.flatMap_cons, List.append_assoc, stringLoop_writeChar, ih hfuel]
          simp

theorem writeChar_ne_nil (c : Char) : writeChar c ≠ [] := by
  unfold writeChar
  iterate 8 refine iteInduction (motive := (· ≠ [])) (fun _ => List.cons_ne_nil _ _) fun _ => ?_
  exact List.cons_ne_nil _ _

theorem length_le_flatMap_writeChar (s : Str) : s.length ≤ (s.flatMap writeChar).length := by
  induction s with
  | nil => simp
  | cons c s ih =>
      have hc := List.length_pos_iff.mpr (writeChar_ne_nil c)
      rw [List.flatMap_cons, List.length_append, List.length_cons]
      omega

/-- A written string is read back. -/
theorem string_writeString (s rest : Str) : string (writeString s ++ rest) = .ok (s, rest) := by
  have hlength := length_le_flatMap_writeChar s
  have hfuel : s.length < (s.flatMap writeChar ++ '"' :: rest).length + 1 := by
    rw [List.length_append]
    omega
  have hloop := stringLoop_written s hfuel rest []
  simpa [string, writeString, expect, bind, Except.bind] using hloop

/-! ## The head of a text -/

variable {D : Doubles}

/-- What the parser looks at before it reads a value: no white space, and no end of an array. -/
def Opens (text : Str) : Prop := ∃ c rest, text = c :: rest ∧ isJsonSpace c = false ∧ c ≠ ']'

theorem digit_opens {c : Char} (h : c.isDigit = true) : isJsonSpace c = false ∧ c ≠ ']' := by
  constructor
  · by_contra hspace
    simp only [isJsonSpace, Bool.not_eq_false, Bool.or_eq_true, decide_eq_true_eq] at hspace
    rcases hspace with ((rfl | rfl) | rfl) | rfl <;> simp at h
  · rintro rfl
    simp at h

theorem Fits.opens {n : Nat} {v : Value D.F} (h : Fits D.toDoubleOps n v) : Opens (toText D.toDoubleOps v) := by
  cases h with
  | null => exact ⟨'n', _, rfl, by decide, by decide⟩
  | bool b =>
      cases b with
      | true => exact ⟨'t', _, rfl, by decide, by decide⟩
      | false => exact ⟨'f', _, rfl, by decide, by decide⟩
  | number k =>
      obtain ⟨hne, hdigits⟩ := D.text_ofU64 k
      obtain ⟨c, rest, heq⟩ := List.exists_cons_of_ne_nil hne
      exact ⟨c, rest, by rw [toText, heq], digit_opens (hdigits c (by rw [heq]; exact List.mem_cons_self))⟩
  | string s => exact ⟨'"', _, by rw [toText]; rfl, by decide, by decide⟩
  | array _ => exact ⟨'[', _, by rw [toText], by decide, by decide⟩
  | object _ _ => exact ⟨leftBrace, _, by rw [toText], by decide, by decide⟩

theorem skipWhitespace_of_opens {text : Str} (h : Opens text) (rest : Str) :
    skipWhitespace (text ++ rest) = text ++ rest := by
  obtain ⟨c, tail, rfl, hspace, -⟩ := h
  simp [skipWhitespace, hspace]

theorem skipWhitespace_cons {c : Char} (h : isJsonSpace c = false) (rest : Str) :
    skipWhitespace (c :: rest) = c :: rest := by
  simp [skipWhitespace, h]

/-! ## Arrays -/

/-- The input goes on with something that no number can hold. -/
def EndsNumber (rest : Str) : Prop := ∀ c, rest.head? = some c → isNumeral c = false

/-- A reader takes the text of a value off its input. -/
def TakesOff (read : Str → Except Stop (Value D.F × Str)) (v : Value D.F) : Prop :=
  Opens (toText D.toDoubleOps v) ∧
    ∀ rest, EndsNumber rest → read (toText D.toDoubleOps v ++ rest) = .ok (v, rest)

theorem endsNumber_cons {c : Char} (h : isNumeral c = false) (rest : Str) : EndsNumber (c :: rest) := by
  rintro d ⟨⟩
  exact h

variable {read : Str → Except Stop (Value D.F × Str)}

theorem arrayLoop_written {items : List (Value D.F)} (hne : items ≠ []) (hread : ∀ item ∈ items, TakesOff read item)
    {fuel : Nat} (hfuel : items.length ≤ fuel) (done : List (Value D.F)) (rest : Str) :
    arrayLoop D.toDoubleOps read fuel (itemsText D.toDoubleOps items ++ ']' :: rest) done
      = .ok (.array (done ++ items), rest) := by
  induction items generalizing fuel done with
  | nil => exact absurd rfl hne
  | cons item items ih =>
      obtain ⟨hopens, htakes⟩ := hread item List.mem_cons_self
      cases fuel with
      | zero => simp at hfuel
      | succ fuel =>
          cases items with
          | nil =>
              rw [itemsText, arrayLoop, skipWhitespace_of_opens hopens, htakes _ (endsNumber_cons (by decide) rest)]
              simp [bind, Except.bind, skipWhitespace_cons (c := ']') (by decide)]
          | cons next items =>
              have hrest := ih (by simp) (fun item hitem => hread item (List.mem_cons_of_mem _ hitem))
                (by simpa using hfuel) (done ++ [item])
              rw [itemsText, List.append_assoc, arrayLoop, skipWhitespace_of_opens hopens, List.cons_append,
                htakes _ (endsNumber_cons (by decide) _)]
              simpa [bind, Except.bind, skipWhitespace_cons (c := ',') (by decide)] using hrest

theorem length_le_itemsText {items : List (Value D.F)} (hopens : ∀ item ∈ items, Opens (toText D.toDoubleOps item)) :
    items.length ≤ (itemsText D.toDoubleOps items).length := by
  induction items with
  | nil => simp
  | cons item items ih =>
      obtain ⟨c, tail, heq, -⟩ := hopens item List.mem_cons_self
      have hrest := ih fun item hitem => hopens item (List.mem_cons_of_mem _ hitem)
      cases items with
      | nil => simp [itemsText, heq]
      | cons next items =>
          rw [itemsText, List.length_append, List.length_cons (a := ',')]
          rw [List.length_cons]
          omega

theorem array_written {items : List (Value D.F)} (hread : ∀ item ∈ items, TakesOff read item) (rest : Str) :
    array D.toDoubleOps read (toText D.toDoubleOps (.array items) ++ rest) = .ok (.array items, rest) := by
  cases items with
  | nil =>
      have hspace : isJsonSpace ']' = false := by decide
      rw [toText, itemsText, List.nil_append, List.cons_append, List.singleton_append]
      simp only [array, expect, bind, Except.bind, ↓reduceIte, skipWhitespace_cons hspace]
  | cons item items =>
      obtain ⟨c, tail, heq, hspace, hclose⟩ := (hread item List.mem_cons_self).1
      have hlength := length_le_itemsText fun item hitem => (hread item hitem).1
      have htext : ∃ tail', itemsText D.toDoubleOps (item :: items) ++ ']' :: rest = c :: tail' := by
        cases items with
        | nil => exact ⟨tail ++ ']' :: rest, by rw [itemsText, heq, List.cons_append]⟩
        | cons next items => exact ⟨_, by rw [itemsText, heq, List.cons_append, List.cons_append]⟩
      obtain ⟨tail', htail⟩ := htext
      have hfuel : (item :: items).length ≤ (c :: tail').length + 1 := by
        rw [← htail, List.length_append]
        omega
      have hloop := arrayLoop_written (by simp) hread hfuel [] rest
      rw [htail] at hloop
      rw [toText, List.cons_append, List.append_assoc, List.singleton_append, htail]
      simp only [array, expect, bind, Except.bind, ↓reduceIte, skipWhitespace_cons hspace]
      split
      · rename_i heq'
        exact absurd (List.cons.inj heq').1 hclose
      · simpa using hloop

/-! ## Objects -/

theorem insert_last {map : List (Str × Value D.F)} {key : Str} (h : ∀ entry ∈ map, entry.1 < key) (v : Value D.F) :
    Value.insert key v map = map ++ [(key, v)] := by
  induction map with
  | nil => rfl
  | cons entry map ih =>
      have hentry := h entry List.mem_cons_self
      have hne : key ≠ entry.1 := by
        rintro rfl
        exact List.lt_irrefl _ hentry
      have hlt : ¬ key < entry.1 := List.lt_asymm hentry
      simp [Value.insert, hne, hlt, ih fun e he => h e (List.mem_cons_of_mem _ he)]

theorem opens_writeString (s : Str) : Opens (writeString s) := ⟨'"', _, rfl, by decide, by decide⟩

theorem objectLoop_written {fields : List (Str × Value D.F)} (hne : fields ≠ [])
    (hread : ∀ field ∈ fields, TakesOff read field.2) (done : List (Str × Value D.F))
    (hsorted : (done ++ fields).Pairwise fun a b => a.1 < b.1) {fuel : Nat} (hfuel : fields.length ≤ fuel) (rest : Str) :
    objectLoop D.toDoubleOps read fuel (fieldsText D.toDoubleOps fields ++ rightBrace :: rest) done
      = .ok (.object (done ++ fields), rest) := by
  induction fields generalizing fuel done with
  | nil => exact absurd rfl hne
  | cons field fields ih =>
      obtain ⟨key, v⟩ := field
      obtain ⟨hopens, htakes⟩ := hread (key, v) List.mem_cons_self
      have hinsert : Value.insert key v done = done ++ [(key, v)] := by
        apply insert_last
        intro entry hentry
        exact (List.pairwise_append.mp hsorted).2.2 entry hentry (key, v) List.mem_cons_self
      have hcolon : isJsonSpace ':' = false := by decide
      cases fuel with
      | zero => simp at hfuel
      | succ fuel =>
          cases fields with
          | nil =>
              have hend : isJsonSpace rightBrace = false := by decide
              have hcomma : rightBrace ≠ ',' := by decide
              rw [fieldsText, List.append_assoc, List.cons_append, objectLoop,
                skipWhitespace_of_opens (opens_writeString key), string_writeString]
              simp only [bind, Except.bind, skipWhitespace_cons hcolon, expect, ↓reduceIte,
                skipWhitespace_of_opens hopens, htakes _ (endsNumber_cons (c := rightBrace) (by decide) rest),
                skipWhitespace_cons hend, hcomma, hinsert]
          | cons next fields =>
              have hsorted' : ((done ++ [(key, v)]) ++ next :: fields).Pairwise fun a b => a.1 < b.1 := by
                rw [List.append_assoc, List.singleton_append]
                exact hsorted
              have hrest := ih (by simp) (fun field hfield => hread field (List.mem_cons_of_mem _ hfield))
                (done ++ [(key, v)]) hsorted' (by simpa using hfuel)
              have hcomma : isJsonSpace ',' = false := by decide
              rw [fieldsText, List.append_assoc, List.cons_append, List.append_assoc, List.cons_append, objectLoop,
                skipWhitespace_of_opens (opens_writeString key), string_writeString]
              simp only [bind, Except.bind, skipWhitespace_cons hcolon, expect, ↓reduceIte,
                skipWhitespace_of_opens hopens, htakes _ (endsNumber_cons (c := ',') (by decide) _),
                skipWhitespace_cons hcomma, hinsert, hrest]
              simp

theorem length_le_fieldsText (fields : List (Str × Value D.F)) :
    fields.length ≤ (fieldsText D.toDoubleOps fields).length := by
  induction fields with
  | nil => simp
  | cons field fields ih =>
      obtain ⟨key, v⟩ := field
      cases fields with
      | nil => simp [fieldsText, writeString]
      | cons next fields =>
          rw [fieldsText, List.length_append, List.length_cons (a := ':'), List.length_append,
            List.length_cons (a := ',')]
          rw [List.length_cons]
          omega

theorem object_written {fields : List (Str × Value D.F)} (hsorted : fields.Pairwise fun a b => a.1 < b.1)
    (hread : ∀ field ∈ fields, TakesOff read field.2) (rest : Str) :
    object D.toDoubleOps read (toText D.toDoubleOps (.object fields) ++ rest) = .ok (.object fields, rest) := by
  cases fields with
  | nil =>
      have hspace : isJsonSpace rightBrace = false := by decide
      rw [toText, fieldsText, List.nil_append, List.cons_append, List.singleton_append]
      simp only [object, expect, bind, Except.bind, ↓reduceIte, skipWhitespace_cons hspace]
  | cons field fields =>
      have hlength := length_le_fieldsText (D := D) (field :: fields)
      have htext : ∃ tail, fieldsText D.toDoubleOps (field :: fields) ++ rightBrace :: rest = '"' :: tail := by
        cases fields with
        | nil => exact ⟨_, by rw [fieldsText, writeString, List.cons_append, List.cons_append]⟩
        | cons next fields => exact ⟨_, by rw [fieldsText, writeString, List.cons_append, List.cons_append]⟩
      obtain ⟨tail, htail⟩ := htext
      have hfuel : (field :: fields).length ≤ tail.length + 2 := by
        have := congrArg List.length htail
        rw [List.length_append, List.length_cons (a := '"')] at this
        omega
      have hloop := objectLoop_written (by simp) hread [] hsorted hfuel rest
      rw [htail] at hloop
      have hspace : isJsonSpace '"' = false := by decide
      have hbrace : '"' ≠ rightBrace := by decide
      rw [toText, List.cons_append, List.append_assoc, List.singleton_append, htail]
      simp only [object, expect, bind, Except.bind, ↓reduceIte, skipWhitespace_cons hspace, hbrace, hloop,
        List.nil_append]

/-! ## Values -/

theorem number_written (k : Nat) {rest : Str} (hrest : EndsNumber rest) :
    number D.toDoubleOps (D.text (D.ofU64 k) ++ rest) = .ok (.number (D.ofU64 k), rest) := by
  obtain ⟨-, hdigits⟩ := D.text_ofU64 k
  have hnumeral : ∀ c ∈ D.text (D.ofU64 k), isNumeral c = true := by
    intro c hc
    simp [isNumeral, hdigits c hc]
  have htake : (D.text (D.ofU64 k) ++ rest).takeWhile isNumeral = D.text (D.ofU64 k) := by
    rw [List.takeWhile_append_of_pos hnumeral]
    cases rest with
    | nil => simp
    | cons c rest => simp [hrest c rfl]
  have hdrop : (D.text (D.ofU64 k) ++ rest).dropWhile isNumeral = rest := by
    rw [List.dropWhile_append_of_pos hnumeral]
    cases rest with
    | nil => rfl
    | cons c rest => simp [hrest c rfl]
  simp [number, htake, hdrop, D.parse_text]

theorem value_number {n k : Nat} {rest : Str} (hrest : EndsNumber rest) :
    value D.toDoubleOps (n + 1) (D.text (D.ofU64 k) ++ rest) = .ok (.number (D.ofU64 k), rest) := by
  obtain ⟨hne, hdigits⟩ := D.text_ofU64 k
  have hnumber := number_written (D := D) k hrest
  obtain ⟨c, tail, heq⟩ := List.exists_cons_of_ne_nil hne
  have hc : c.isDigit = true := hdigits c (by rw [heq]; exact List.mem_cons_self)
  rw [heq, List.cons_append] at hnumber ⊢
  have hother : c ≠ 'n' ∧ c ≠ 't' ∧ c ≠ 'f' ∧ c ≠ '"' ∧ c ≠ '[' ∧ c ≠ leftBrace := by
    refine ⟨?_, ?_, ?_, ?_, ?_, ?_⟩ <;> rintro rfl <;> revert hc <;> decide
  obtain ⟨h1, h2, h3, h4, h5, h6⟩ := hother
  simp [value, h1, h2, h3, h4, h5, h6, hc, hnumber]

/-- The parser takes a written value off its input. -/
theorem value_toText {n : Nat} {v : Value D.F} (h : Fits D.toDoubleOps n v) : TakesOff (value D.toDoubleOps n) v := by
  induction h with
  | null => exact ⟨Fits.opens (.null (n := 0)), fun rest _ => rfl⟩
  | bool b =>
      refine ⟨Fits.opens (.bool (n := 0) b), fun rest _ => ?_⟩
      cases b <;> rfl
  | number k => exact ⟨Fits.opens (.number (n := 0) k), fun rest hrest => by rw [toText]; exact value_number hrest⟩
  | string s =>
      refine ⟨Fits.opens (.string (n := 0) s), fun rest _ => ?_⟩
      have hstring := string_writeString s rest
      rw [toText]
      rw [writeString, List.cons_append] at hstring ⊢
      simp only [value, ↓reduceIte, hstring, bind, Except.bind]
      rfl
  | array hitems ih =>
      refine ⟨Fits.opens (.array hitems), fun rest _ => ?_⟩
      have harray := array_written ih rest
      rw [toText, List.cons_append] at harray ⊢
      simpa [value] using harray
  | object hsorted hfields ih =>
      refine ⟨Fits.opens (.object hsorted hfields), fun rest _ => ?_⟩
      have hobject := object_written hsorted ih rest
      rw [toText, List.cons_append] at hobject ⊢
      have hbrace : leftBrace ≠ 'n' ∧ leftBrace ≠ 't' ∧ leftBrace ≠ 'f' ∧ leftBrace ≠ '"' ∧ leftBrace ≠ '[' := by
        decide
      obtain ⟨h1, h2, h3, h4, h5⟩ := hbrace
      simpa [value, h1, h2, h3, h4, h5] using hobject

/-- A document that the code wrote is read back. -/
theorem parse_toText {v : Value D.F} (h : Fits D.toDoubleOps (maxDepth + 1) v) :
    parse D.toDoubleOps (toText D.toDoubleOps v) = .ok v := by
  obtain ⟨hopens, htakes⟩ := value_toText h
  have hskip := skipWhitespace_of_opens hopens []
  have hvalue := htakes [] (by rintro c ⟨⟩)
  rw [List.append_nil] at hskip hvalue
  rw [parse, hskip, hvalue]
  rfl

end Selfhost.Json
