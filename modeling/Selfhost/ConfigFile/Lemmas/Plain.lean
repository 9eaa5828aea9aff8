import Selfhost.ConfigFile.Lemmas.Lines
import Selfhost.Json.Lemmas.RoundTrip

/-!
# A reader of plain lines

Expressions of one line: headers of bare keys, comments, and bare keys with a string, a list of strings, a truth value
or a number in digits. Strings are quoted as in JSON.
-/

namespace Selfhost.ConfigFile

open Selfhost.Lib Selfhost.Lib.Toml

def stripEnd (pat s : Str) : Option Str := if pat <:+ s then some (s.take (s.length - pat.length)) else none

def isBareChar (c : Char) : Bool := c.isAlphanum || c = '_'

/-- The strings of a list behind its bracket. -/
def readItems : Nat → Str → Option (List Str)
  | 0, _ => none
  | fuel + 1, text =>
      match Json.string text with
      | .ok (s, rest) =>
          if rest = [']'] then some [s]
          else (stripStart ", ".toList rest).bind fun rest => (readItems fuel rest).map (s :: ·)
      | .error _ => none

def plainStrings (text : Str) : Option (List Str) :=
  if text = ['[', ']'] then some [] else (stripStart ['['] text).bind fun rest => readItems rest.length rest

def plainValue (text : Str) : Option Value :=
  if text = "true".toList then some (.boolean true)
  else if text = "false".toList then some (.boolean false)
  else if text ≠ [] ∧ text.all Char.isDigit then
    if decimalValue text < 2 ^ 63 then some (.integer (decimalValue text)) else none
  else if text.head? = some '[' then (plainStrings text).map fun l => .array (l.map .string)
  else
    match Json.string text with
    | .ok (s, []) => some (.string s)
    | _ => none

/-- The keys of a header. -/
def plainPath (make : List Str → Str → Expr) (inner : Str) : Option Expr :=
  let keys := inner.splitOn '.'
  if keys.all fun key => key ≠ [] ∧ key.all isBareChar then keys.getLast?.map (make keys.dropLast) else none

def plainHeader (text : Str) : Option Expr :=
  match stripStart ['[', '['] text with
  | some rest => (stripEnd [']', ']'] rest).bind (plainPath .arrayHeader)
  | none => ((stripStart ['['] text).bind (stripEnd [']'])).bind (plainPath .header)

def plainExpr (text : Str) : Option Expr :=
  if '\n' ∈ text then none
  else if text = [] ∨ text.head? = some '#' then some .blank
  else if text.head? = some '[' then plainHeader (trim (text.takeWhile (· ≠ '#')))
  else
    let key := text.takeWhile isBareChar
    if key = [] then none
    else (stripStart " = ".toList (text.dropWhile isBareChar)).bind fun value =>
      (plainValue value).map (.keyval [] key)

/-- Every sequence of plain lines is a document. -/
def plainGrammar : Grammar := ⟨plainExpr, fun _ => true⟩

/-- The crate on plain lines. -/
def plainCrate : Crate := ⟨⟨plainGrammar, assembled plainGrammar⟩, Json.writeString⟩

/-! ## Texts -/

theorem isBareChar_of {key : Str} (h : IsBare key) : ∀ c ∈ key, isBareChar c = true := by
  intro c hc
  rcases h.2 c hc with h | h
  · simp [isBareChar, h]
  · simp [isBareChar, h]

theorem newline_not_bare {key : Str} (h : IsBare key) : '\n' ∉ key := by
  intro hmem
  have hbare := isBareChar_of h '\n' hmem
  revert hbare
  decide

theorem newline_not_mem_writeString (s : Str) : '\n' ∉ Json.writeString s := by
  have hchar : ∀ c, '\n' ∉ Json.writeChar c := by
    intro c hmem
    have hdigit : ∀ n < 16, '\n' ≠ Json.hexDigit n := by decide
    unfold Json.writeChar at hmem
    repeat' split at hmem
    all_goals simp at hmem
    all_goals
      first
      | (rename_i hlt
         rcases hmem with hmem | hmem
         · exact hdigit _ (by omega) hmem
         · exact hdigit _ (by omega) hmem)
      | (rename_i h0 h1 h2 _ _ _ _ _
         exact h2 hmem.symm)
  intro hmem
  rw [Json.writeString] at hmem
  simp only [List.mem_cons, List.mem_append, List.mem_flatMap, List.not_mem_nil, or_false] at hmem
  rcases hmem with h | ⟨c, -, hc⟩ | h
  · cases h
  · exact hchar c hc
  · cases h

/-- A text of one line is whole if it is read. -/
theorem reads_of_line {text : Str} {e : Expr} (hline : '\n' ∉ text) (h : plainExpr text = some e) :
    Reads plainCrate text e := by
  have hsplit : text.splitOn '\n' = [text] := List.splitOn_eq_singleton hline
  refine ⟨by simp [hsplit], ?_, ?_⟩
  · have hj : joined [text] = text := by simp [joined]
    dsimp only
    rw [hsplit, hj]
    exact h
  · intro init rest hparts hinit hrest
    dsimp only at hparts
    rw [hsplit] at hparts
    have hlength := congrArg List.length hparts
    have hi := List.length_pos_iff.mpr hinit
    have hr := List.length_pos_iff.mpr hrest
    simp only [List.length_singleton, List.length_append] at hlength
    omega

theorem plainExpr_assignment {key value : Str} (hkey : IsBare key) (hvalue : '\n' ∉ value) :
    plainExpr (assignment key value) = (plainValue value).map (.keyval [] key) := by
  have hbare := isBareChar_of hkey
  obtain ⟨c, rest, rfl⟩ := List.exists_cons_of_ne_nil hkey.1
  have hc := hbare c List.mem_cons_self
  have hline : '\n' ∉ assignment (c :: rest) value := by
    simp only [assignment, List.mem_append, not_or]
    exact ⟨⟨newline_not_bare hkey, by decide⟩, hvalue⟩
  have hhead : (assignment (c :: rest) value).head? = some c := rfl
  have hhash : c ≠ '#' := by
    rintro rfl
    revert hc
    decide
  have hbracket : c ≠ '[' := by
    rintro rfl
    revert hc
    decide
  have hspace : (" = ".toList ++ value) = ' ' :: '=' :: ' ' :: value := rfl
  have htake : (assignment (c :: rest) value).takeWhile isBareChar = c :: rest := by
    rw [assignment, List.append_assoc, hspace, List.takeWhile_append_of_pos hbare,
      List.takeWhile_cons_of_neg (by decide), List.append_nil]
  have hdrop : (assignment (c :: rest) value).dropWhile isBareChar = " = ".toList ++ value := by
    rw [assignment, List.append_assoc, hspace, List.dropWhile_append_of_pos hbare,
      List.dropWhile_cons_of_neg (by decide)]
  unfold plainExpr
  rw [if_neg hline, hhead, if_neg (by simp [assignment, hhash]), if_neg (by simpa using hbracket)]
  simp only [htake, hdrop, stripStart_append, Option.bind_some]
  rw [if_neg (by simp)]

/-! ## Values -/

theorem plainValue_string (s : Str) : plainValue (Json.writeString s) = some (.string s) := by
  have hread : Json.string (Json.writeString s) = .ok (s, []) := by
    simpa using Json.string_writeString s []
  have hhead : Json.writeString s = '"' :: (s.flatMap Json.writeChar ++ ['"']) := by simp [Json.writeString]
  unfold plainValue
  rw [if_neg (by rw [hhead]; simp), if_neg (by rw [hhead]; simp), if_neg (by rw [hhead]; simp),
    if_neg (by rw [hhead]; simp), hread]

/-- The items of a list, as they are written behind the bracket. -/
theorem readItems_written {l : List Str} (hl : l ≠ []) {fuel : Nat} (hfuel : l.length ≤ fuel) :
    readItems fuel (", ".toList.intercalate (l.map Json.writeString) ++ [']']) = some l := by
  induction l generalizing fuel with
  | nil => exact absurd rfl hl
  | cons s rest ih =>
      obtain ⟨fuel, rfl⟩ : ∃ n, fuel = n + 1 := ⟨fuel - 1, by simp at hfuel; omega⟩
      cases rest with
      | nil => simp [readItems, Json.string_writeString]
      | cons next rest =>
          have hsplit : ", ".toList.intercalate ((s :: next :: rest).map Json.writeString) ++ [']'] =
              Json.writeString s ++ (", ".toList ++
                (", ".toList.intercalate ((next :: rest).map Json.writeString) ++ [']'])) := by
            simp [List.intercalate_cons_cons]
          have hne : ¬ ", ".toList ++ (", ".toList.intercalate ((next :: rest).map Json.writeString) ++ [']']) = [']'] := by
            simp
          rw [hsplit, readItems, Json.string_writeString]
          dsimp only
          rw [if_neg hne, stripStart_append, Option.bind_some, ih (by simp) (by simpa using hfuel)]
          rfl

theorem length_le_written (l : List Str) :
    l.length ≤ (", ".toList.intercalate (l.map Json.writeString) ++ [']']).length := by
  induction l with
  | nil => simp
  | cons s rest ih =>
      have hquotes : 1 ≤ (Json.writeString s).length := by simp [Json.writeString]
      cases rest with
      | nil =>
          rw [List.length_append]
          simp
      | cons next rest =>
          rw [List.map_cons, List.map_cons, List.intercalate_cons_cons, ← List.map_cons, List.append_assoc,
            List.append_assoc, List.length_append]
          simp only [List.length_cons, List.length_append] at ih ⊢
          omega

theorem plainValue_strings (l : List Str) :
    plainValue (quoteArray plainCrate l) = some (.array (l.map .string)) := by
  have hhead : (quoteArray plainCrate l).head? = some '[' := rfl
  have hstrings : plainStrings (quoteArray plainCrate l) = some l := by
    unfold plainStrings
    by_cases hl : l = []
    · subst hl
      rfl
    · have hne : ¬ quoteArray plainCrate l = ['[', ']'] := by
        obtain ⟨s, rest, rfl⟩ := List.exists_cons_of_ne_nil hl
        cases rest with
        | nil => simp [quoteArray, plainCrate, Json.writeString]
        | cons next rest => simp [quoteArray, plainCrate, Json.writeString, List.intercalate_cons_cons]
      have hrest : stripStart ['['] (quoteArray plainCrate l) =
          some (", ".toList.intercalate (l.map Json.writeString) ++ [']']) :=
        stripStart_append ['['] _
      rw [if_neg hne, hrest, Option.bind_some]
      exact readItems_written hl (length_le_written l)
  unfold plainValue
  rw [if_neg (by simp [quoteArray]), if_neg (by simp [quoteArray]), if_neg (by simp [quoteArray]), if_pos hhead, hstrings]
  rfl

theorem plainValue_number (n : Nat) :
    plainValue (natText n) = if n < 2 ^ 63 then some (.integer n) else none := by
  have hdigits := all_isDigit_natText n
  have hword : ∀ word : Str, word.all Char.isDigit = false → natText n ≠ word := by
    rintro word hword rfl
    rw [hdigits] at hword
    cases hword
  unfold plainValue
  rw [if_neg (hword _ (by decide)), if_neg (hword _ (by decide)), if_pos ⟨natText_ne_nil n, hdigits⟩,
    decimalValue_natText]

theorem newline_not_mem_quoteArray (l : List Str) : '\n' ∉ quoteArray plainCrate l := by
  have hitems : '\n' ∉ ", ".toList.intercalate (l.map Json.writeString) := by
    induction l with
    | nil => simp
    | cons s rest ih =>
        cases rest with
        | nil => simpa using newline_not_mem_writeString s
        | cons next rest =>
            rw [List.map_cons, List.map_cons, List.intercalate_cons_cons, ← List.map_cons, List.mem_append,
              List.mem_append, not_or, not_or]
            exact ⟨⟨newline_not_mem_writeString s, by decide⟩, ih⟩
  intro hmem
  rcases List.mem_cons.mp hmem with h | h
  · cases h
  · rcases List.mem_append.mp h with h | h
    · exact hitems h
    · simp at h

theorem newline_not_mem_natText (n : Nat) : '\n' ∉ natText n := by
  intro hmem
  have hdigit := isDigit_of_mem_natText hmem
  revert hdigit
  decide

/-! ## Headers -/

theorem stripEnd_append (pat s : Str) : stripEnd pat (s ++ pat) = some s := by
  rw [stripEnd, if_pos (List.suffix_append s pat), List.length_append, Nat.add_sub_cancel, List.take_left]

theorem graphic_of_isBareChar {c : Char} (h : isBareChar c = true) : 0x21 ≤ c.toNat ∧ c.toNat < 0x7F := by
  simp only [isBareChar, Char.isAlphanum, isAlpha_eq, isUpper_eq, isLower_eq, Char.isDigit, Bool.or_eq_true,
    Bool.and_eq_true, decide_eq_true_eq, ge_iff_le, UInt32.le_iff_toNat_le] at h
  have hval : c.val.toNat = c.toNat := rfl
  rw [hval] at h
  rcases h with ((⟨h₁, h₂⟩ | ⟨h₁, h₂⟩) | ⟨h₁, h₂⟩) | rfl
  · simp at h₁ h₂; omega
  · simp at h₁ h₂; omega
  · simp at h₁ h₂; omega
  · decide

theorem plainPath_dotted (make : List Str → Str → Expr) {path : List Str} {name : Str}
    (h : ∀ key ∈ path ++ [name], IsBare key) : plainPath make (dotted (path ++ [name])) = some (make path name) := by
  have hdot : ∀ key ∈ path ++ [name], '.' ∉ key := by
    intro key hkey hmem
    have hbare := isBareChar_of (h key hkey) '.' hmem
    revert hbare
    decide
  unfold plainPath dotted
  rw [List.splitOn_intercalate '.' hdot (by simp)]
  dsimp only
  rw [if_pos, List.getLast?_concat, List.dropLast_concat]
  · rfl
  · refine List.all_eq_true.mpr fun key hkey => ?_
    simp only [decide_eq_true_eq]
    exact ⟨(h key hkey).1, List.all_eq_true.mpr (isBareChar_of (h key hkey))⟩

theorem mem_dotted {keys : List Str} {c : Char} (h : c ∈ dotted keys) : c = '.' ∨ ∃ key ∈ keys, c ∈ key := by
  unfold dotted at h
  induction keys with
  | nil => simp at h
  | cons key rest ih =>
      cases rest with
      | nil => exact .inr ⟨key, List.mem_cons_self, by simpa using h⟩
      | cons next rest =>
          rw [List.intercalate_cons_cons, List.mem_append, List.mem_append] at h
          rcases h with (h | h) | h
          · exact .inr ⟨key, List.mem_cons_self, h⟩
          · exact .inl (List.mem_singleton.mp h)
          · rcases ih h with rfl | ⟨other, hother, hc⟩
            · exact .inl rfl
            · exact .inr ⟨other, List.mem_cons_of_mem _ hother, hc⟩

theorem isBareChar_of_mem_dotted {keys : List Str} (h : ∀ key ∈ keys, IsBare key) :
    ∀ c ∈ dotted keys, isBareChar c = true ∨ c = '.' := by
  intro c hc
  rcases mem_dotted hc with rfl | ⟨key, hkey, hmem⟩
  · exact .inr rfl
  · exact .inl (isBareChar_of (h key hkey) c hmem)

theorem plainExpr_bracket {inner : Str} (h : ∀ c ∈ inner, isBareChar c = true ∨ c = '.' ∨ c = '[' ∨ c = ']') :
    '\n' ∉ '[' :: inner ∧ plainExpr ('[' :: inner) = plainHeader ('[' :: inner) := by
  have hgraphic : Graphic ('[' :: inner) := by
    intro c hc
    rcases List.mem_cons.mp hc with rfl | hc
    · decide
    · rcases h c hc with hbare | rfl | rfl | rfl
      · exact graphic_of_isBareChar hbare
      · decide
      · decide
      · decide
  have hnot : ∀ c ∈ '[' :: inner, c ≠ '#' ∧ c ≠ '\n' := by
    intro c hc
    constructor
    · rintro rfl
      rcases List.mem_cons.mp hc with hc | hc
      · cases hc
      · rcases h _ hc with h | h | h | h
        · revert h; decide
        · cases h
        · cases h
        · cases h
    · rintro rfl
      have := hgraphic _ hc
      revert this
      decide
  have hline : '\n' ∉ '[' :: inner := fun hmem => (hnot _ hmem).2 rfl
  refine ⟨hline, ?_⟩
  have htake : ('[' :: inner).takeWhile (· ≠ '#') = '[' :: inner :=
    List.takeWhile_eq_self_iff.mpr fun c hc => by simpa using (hnot c hc).1
  unfold plainExpr
  rw [if_neg hline, if_neg (by simp), if_pos (List.head?_cons ..), htake, trim_graphic hgraphic]

theorem plainHeader_header {path : List Str} {name : Str} (h : ∀ key ∈ path ++ [name], IsBare key) :
    plainHeader ('[' :: (dotted (path ++ [name]) ++ [']'])) = some (.header path name) := by
  have hsingle : stripStart ['[', '['] ('[' :: (dotted (path ++ [name]) ++ [']'])) = none := by
    rw [stripStart, if_neg]
    intro hstart
    cases hkeys : dotted (path ++ [name]) with
    | nil =>
        rw [hkeys] at hstart
        revert hstart
        decide
    | cons c rest =>
        rw [hkeys] at hstart
        obtain ⟨more, hmore⟩ := hstart
        have hc : '[' = c := by simpa using congrArg (fun text => text.tail.head?) hmore
        have hmem : c ∈ dotted (path ++ [name]) := by
          rw [hkeys]
          exact List.mem_cons_self
        rw [← hc] at hmem
        rcases isBareChar_of_mem_dotted h _ hmem with hbare | hdot
        · revert hbare
          decide
        · cases hdot
  have hopen : stripStart ['['] ('[' :: (dotted (path ++ [name]) ++ [']'])) = some (dotted (path ++ [name]) ++ [']']) :=
    stripStart_append ['['] _
  unfold plainHeader
  rw [hsingle]
  dsimp only
  rw [hopen, Option.bind_some, stripEnd_append, Option.bind_some, plainPath_dotted .header h]

theorem plainHeader_arrayHeader {path : List Str} {name : Str} (h : ∀ key ∈ path ++ [name], IsBare key) :
    plainHeader ('[' :: '[' :: (dotted (path ++ [name]) ++ [']', ']'])) = some (.arrayHeader path name) := by
  have hopen : stripStart ['[', '['] ('[' :: '[' :: (dotted (path ++ [name]) ++ [']', ']'])) =
      some (dotted (path ++ [name]) ++ [']', ']']) := stripStart_append ['[', '['] _
  unfold plainHeader
  rw [hopen]
  dsimp only
  rw [stripEnd_append, Option.bind_some, plainPath_dotted .arrayHeader h]

/-! ## The laws -/

theorem plain_reads {key value : Str} {v : Value} (hkey : IsBare key) (hline : '\n' ∉ value)
    (h : plainValue value = some v) : Reads plainCrate (assignment key value) (.keyval [] key v) := by
  refine reads_of_line ?_ ?_
  · simp only [assignment, List.mem_append, not_or]
    exact ⟨⟨newline_not_bare hkey, by decide⟩, hline⟩
  · rw [plainExpr_assignment hkey hline, h]
    rfl

theorem lawful_plainCrate : Lawful plainCrate where
  assembles _ := rfl
  blank := rfl
  unended text := if_pos (by simp)
  string key s hkey := plain_reads hkey (newline_not_mem_writeString s) (plainValue_string s)
  strings key l hkey := plain_reads hkey (newline_not_mem_quoteArray l) (plainValue_strings l)
  truth key hkey := plain_reads hkey (by decide) (if_pos rfl)
  falsehood key hkey := plain_reads hkey (by decide) ((if_neg (by decide)).trans (if_pos rfl))
  number key n hkey hn := by
    refine plain_reads hkey (newline_not_mem_natText n) ?_
    rw [plainValue_number, if_pos hn]
  large key n hkey hn := by
    have hline : '\n' ∉ assignment key (natText n) := by
      simp only [assignment, List.mem_append, not_or]
      exact ⟨⟨newline_not_bare hkey, by decide⟩, newline_not_mem_natText n⟩
    refine ⟨hline, fun more => ?_⟩
    by_cases hmore : more = []
    · have hone : joined [assignment key (natText n)] = assignment key (natText n) := by simp [joined]
      rw [hmore, hone]
      have hnone := plainExpr_assignment hkey (newline_not_mem_natText n)
      rw [plainValue_number, if_neg (by omega)] at hnone
      exact hnone
    · rw [joined_cons _ hmore]
      exact if_pos (by simp)
  header path name h := by
    obtain ⟨hline, hexpr⟩ := @plainExpr_bracket (dotted (path ++ [name]) ++ [']']) (by
      intro c hc
      rcases List.mem_append.mp hc with hc | hc
      · rcases isBareChar_of_mem_dotted h c hc with h | h
        · exact .inl h
        · exact .inr (.inl h)
      · exact .inr (.inr (.inr (List.mem_singleton.mp hc))))
    exact reads_of_line hline (hexpr.trans (plainHeader_header h))
  arrayHeader path name h := by
    obtain ⟨hline, hexpr⟩ := @plainExpr_bracket ('[' :: (dotted (path ++ [name]) ++ [']', ']'])) (by
      intro c hc
      rcases List.mem_cons.mp hc with rfl | hc
      · exact .inr (.inr (.inl rfl))
      · rcases List.mem_append.mp hc with hc | hc
        · rcases isBareChar_of_mem_dotted h c hc with h | h
          · exact .inl h
          · exact .inr (.inl h)
        · exact .inr (.inr (.inr (by simpa using hc))))
    exact reads_of_line hline (hexpr.trans (plainHeader_arrayHeader h))

end Selfhost.ConfigFile
