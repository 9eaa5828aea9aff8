import Selfhost.Converge.Loop

/-!
# The ledger reads back what was written

A written line is read back as an entry with its event and its component. What is outstanding after one more entry
follows.
-/

namespace Selfhost.Converge

open Selfhost.Lib Selfhost.Identity

/-! ## One line -/

theorem graphic_escapeByte (b : UInt8) : Graphic (escapeByte b) := by
  have hlow : b.toNat / 16 < 16 := Nat.div_lt_of_lt_mul b.toNat_lt
  unfold escapeByte
  split
  · rename_i hbare
    intro c hc
    rw [List.mem_singleton.mp hc, toNat_ofNat_of_valid (.inl (Nat.lt_trans b.toNat_lt (by decide)))]
    simp only [isBare, Bool.and_eq_true, decide_eq_true_eq, UInt8.le_iff_toNat_le] at hbare
    exact ⟨hbare.1.1, Nat.lt_succ_of_le hbare.1.2⟩
  · intro c hc
    simp only [List.mem_cons, List.not_mem_nil, or_false] at hc
    rcases hc with rfl | rfl | rfl
    · decide
    · exact graphic_hexDigit _ hlow
    · exact graphic_hexDigit _ (Nat.mod_lt _ (by decide))

theorem graphic_escapeField (text : Str) : Graphic (escapeField text) := by
  unfold escapeField
  dsimp only
  split
  · intro c hc
    rw [List.mem_singleton.mp hc]
    decide
  · apply Graphic.append
    · intro c hc
      obtain ⟨b, -, hb⟩ := List.mem_flatMap.mp hc
      exact graphic_escapeByte b c hb
    · split
      · intro c hc
        rw [List.mem_singleton.mp hc]
        decide
      · intro c hc
        cases hc

theorem graphic_natText (n : Nat) : Graphic (natText n) := by
  intro c hc
  have hdigit := isDigit_of_mem_natText hc
  simp only [Char.isDigit, Bool.and_eq_true, decide_eq_true_eq, UInt32.le_iff_toNat_le] at hdigit
  exact ⟨le_trans (by decide) hdigit.1, lt_of_le_of_lt hdigit.2 (by decide)⟩

theorem graphic_asStr (event : Event) : Graphic event.asStr := by
  unfold Graphic
  cases event <;> decide

theorem Event.parse_asStr (event : Event) : Event.parse event.asStr = some event := by
  cases event <;> decide

/-- A field of a line: its name, the equals sign and its value. -/
def fieldText (name value : Str) : Str := name ++ '=' :: value

theorem graphic_fieldText {name value : Str} (hname : Graphic name) (hvalue : Graphic value) :
    Graphic (fieldText name value) := hname.append (.cons (by decide) hvalue)

theorem splitOnce_fieldText {name : Str} (h : '=' ∉ name) (value : Str) :
    splitOnce '=' (fieldText name value) = some (name, value) := splitOnce_append h

/-- The fields of a line. -/
def Entry.words (entry : Entry) : List Str :=
  [fieldText "at".toList (natText entry.atUnix.toNat), fieldText "component".toList (escapeField entry.component),
    fieldText "event".toList entry.event.asStr, fieldText "detail".toList (escapeField entry.detail)]

theorem Entry.graphic_words (entry : Entry) : ∀ word ∈ entry.words, word ≠ [] ∧ Graphic word := by
  intro word hword
  simp only [Entry.words, List.mem_cons, List.not_mem_nil, or_false] at hword
  rcases hword with rfl | rfl | rfl | rfl
  · exact ⟨by simp [fieldText], graphic_fieldText (by unfold Graphic; decide) (graphic_natText _)⟩
  · exact ⟨by simp [fieldText], graphic_fieldText (by unfold Graphic; decide) (graphic_escapeField _)⟩
  · exact ⟨by simp [fieldText], graphic_fieldText (by unfold Graphic; decide) (graphic_asStr _)⟩
  · exact ⟨by simp [fieldText], graphic_fieldText (by unfold Graphic; decide) (graphic_escapeField _)⟩

theorem Entry.line_eq (entry : Entry) : entry.line = ledgerFormat ++ entry.words.flatMap (' ' :: ·) := by
  have hat : " at=".toList = ' ' :: ("at".toList ++ ['=']) := by decide
  have hcomponent : " component=".toList = ' ' :: ("component".toList ++ ['=']) := by decide
  have hevent : " event=".toList = ' ' :: ("event".toList ++ ['=']) := by decide
  have hdetail : " detail=".toList = ' ' :: ("detail".toList ++ ['=']) := by decide
  unfold Entry.line Entry.words fieldText
  rw [hat, hcomponent, hevent, hdetail]
  generalize ledgerFormat = format
  generalize "at".toList = a
  generalize "component".toList = c
  generalize "event".toList = e
  generalize "detail".toList = d
  simp only [List.flatMap_cons, List.flatMap_nil, List.append_nil, List.cons_append, List.append_assoc,
    List.nil_append]

theorem readField_at (fields : Entry.Fields) (n : UInt64) :
    Entry.readField fields (fieldText "at".toList (natText n.toNat)) = some { fields with atUnix := n } := by
  have hparse : parseUnsigned u64Max (natText n.toNat) = some n.toNat := parseUnsigned_natText (toNat_le_u64Max n)
  rw [Entry.readField, splitOnce_fieldText (by decide)]
  simp [hparse]

theorem readField_component (fields : Entry.Fields) (value : Str) :
    Entry.readField fields (fieldText "component".toList value) =
      some { fields with component := unescapeField value } := by
  rw [Entry.readField, splitOnce_fieldText (by decide)]
  dsimp only
  rw [if_neg (by decide), if_pos rfl]

theorem readField_event (fields : Entry.Fields) (event : Event) :
    Entry.readField fields (fieldText "event".toList event.asStr) = some { fields with event := some event } := by
  rw [Entry.readField, splitOnce_fieldText (by decide)]
  dsimp only
  rw [if_neg (by decide), if_neg (by decide), if_pos rfl, Event.parse_asStr]

theorem readField_detail (fields : Entry.Fields) (value : Str) :
    Entry.readField fields (fieldText "detail".toList value) = some { fields with detail := unescapeField value } := by
  rw [Entry.readField, splitOnce_fieldText (by decide)]
  dsimp only
  rw [if_neg (by decide), if_neg (by decide), if_neg (by decide), if_pos rfl]

/-- The entry that is read back: its texts went through the escapes. -/
def Entry.reread (entry : Entry) : Entry :=
  { entry with component := unescapeField (escapeField entry.component), detail := unescapeField (escapeField entry.detail) }

theorem Entry.parse_line (entry : Entry) : Entry.parse entry.line = some entry.reread := by
  rw [Entry.parse, Entry.line_eq, stripStart_append]
  dsimp only
  rw [splitWhitespace_words entry.graphic_words]
  simp only [Entry.words, List.foldlM_cons, List.foldlM_nil, readField_at, readField_component, readField_event,
    readField_detail, Option.bind_eq_bind, Option.bind_some, Option.pure_def, Option.map_some]
  rfl

/-! ## The lines of the file -/

/-- Whether every line of the file is ended. -/
def Ledger.Whole (ledger : Ledger) : Prop := ledger.text = [] ∨ ledger.text.getLast? = some '\n'

theorem Entry.not_mem_line (entry : Entry) {c : Char} (hc : c.toNat < 0x20) : c ∉ entry.line := by
  have hformat : ∀ d ∈ ledgerFormat, 0x20 ≤ d.toNat := by decide
  rw [Entry.line_eq]
  intro hmem
  rcases List.mem_append.mp hmem with hmem | hmem
  · exact absurd (hformat c hmem) (Nat.not_le.mpr hc)
  · obtain ⟨word, hword, hmem⟩ := List.mem_flatMap.mp hmem
    rcases List.mem_cons.mp hmem with rfl | hmem
    · exact absurd hc (by decide)
    · exact absurd ((entry.graphic_words word hword).2 c hmem).1 (by omega)

/-- The lines of a text whose last line is ended. -/
theorem textLines_of_splitOn {text : Str} {pieces : List Str} (h : text.splitOn '\n' = pieces ++ [[]]) :
    textLines text = pieces.map fun line => if line.getLast? = some '\r' then line.dropLast else line := by
  unfold textLines
  dsimp only
  rw [h, List.getLast?_concat, if_pos rfl, List.dropLast_concat]

theorem textLines_append {text line : Str} (htext : text = [] ∨ text.getLast? = some '\n') (hline : '\n' ∉ line)
    (hreturn : '\r' ∉ line) : textLines (text ++ line ++ ['\n']) = textLines text ++ [line] := by
  have hlast : line.getLast? ≠ some '\r' := fun h => hreturn (List.mem_of_getLast? h)
  have hnew : (line ++ ['\n']).splitOn '\n' = [line] ++ [[]] := by
    rw [List.splitOn_append_cons_self_of_not_mem hline, List.splitOn_nil]
    rfl
  rcases htext with rfl | htext
  · rw [List.nil_append, textLines_of_splitOn hnew]
    simp [hlast, textLines]
  · obtain ⟨init, rfl⟩ : ∃ init, text = init ++ ['\n'] := ⟨_, (List.dropLast_append_getLast? _ htext).symm⟩
    have hold : (init ++ ['\n']).splitOn '\n' = init.splitOn '\n' ++ [[]] := by
      rw [List.splitOn_append_cons_self, List.splitOn_nil]
    have hsplit : (init ++ ['\n'] ++ line ++ ['\n']).splitOn '\n' = (init.splitOn '\n' ++ [line]) ++ [[]] := by
      rw [List.append_assoc, List.append_assoc, List.singleton_append, List.splitOn_append_cons_self, hnew,
        List.append_assoc]
    rw [textLines_of_splitOn hold, textLines_of_splitOn hsplit, List.map_append]
    simp [hlast]

theorem Ledger.Whole.append {ledger : Ledger} (entry : Entry) : (ledger.append entry).Whole :=
  Or.inr (by simp [Ledger.append])

theorem Ledger.entries_append {ledger : Ledger} (h : ledger.Whole) (entry : Entry) :
    (ledger.append entry).entries = ledger.entries ++ [entry.reread] := by
  unfold Ledger.entries Ledger.append
  rw [textLines_append h (entry.not_mem_line (by decide)) (entry.not_mem_line (by decide)), List.filterMap_append]
  simp [Entry.parse_line]

/-- Whether a component is listed as given up on. -/
def Ledger.Lists (ledger : Ledger) (name : Str) : Prop := ∃ entry ∈ ledger.outstanding, entry.component = name

/-- Every escalation is kept under its own component. -/
theorem latest_keys {found : List (Str × Entry)} (h : ∀ p ∈ found, p.2.component = p.1) (entry : Entry) :
    ∀ p ∈ Ledger.latest found entry, p.2.component = p.1 := by
  unfold Ledger.latest
  dsimp only
  intro p hp
  split at hp
  · rcases List.mem_cons.mp hp with rfl | hp
    · rfl
    · exact h p (List.mem_of_mem_filter hp)
  all_goals first | exact h p (List.mem_of_mem_filter hp) | exact h p hp

theorem foldl_latest_keys (entries : List Entry) {found : List (Str × Entry)} (h : ∀ p ∈ found, p.2.component = p.1) :
    ∀ p ∈ entries.foldl Ledger.latest found, p.2.component = p.1 := by
  induction entries generalizing found with
  | nil => exact h
  | cons entry entries ih => exact ih (latest_keys h entry)

theorem Ledger.lists_iff (ledger : Ledger) (name : Str) :
    ledger.Lists name ↔ ∃ entry, (name, entry) ∈ ledger.entries.foldl Ledger.latest [] := by
  have hkeys : ∀ p ∈ ledger.entries.foldl Ledger.latest [], p.2.component = p.1 := foldl_latest_keys _ (by simp)
  constructor
  · rintro ⟨entry, hmem, rfl⟩
    obtain ⟨p, hp, rfl⟩ := List.mem_map.mp hmem
    rw [hkeys p hp]
    exact ⟨p.2, hp⟩
  · rintro ⟨entry, hmem⟩
    exact ⟨entry, List.mem_map.mpr ⟨_, hmem, rfl⟩, hkeys _ hmem⟩

/-- Whether a component is listed behind an event of its own. -/
def Event.lists (listed : Prop) : Event → Prop
  | .escalated => True
  | .recovered | .repaired | .driftRepaired => False
  | .fault | .stillFailing | .drift => listed

/-- What one more entry does to the list. -/
theorem Ledger.lists_append {ledger : Ledger} (h : ledger.Whole) (entry : Entry) (name : Str) :
    (ledger.append entry).Lists name ↔
      if entry.reread.component = name then entry.event.lists (ledger.Lists name) else ledger.Lists name := by
  rw [Ledger.lists_iff, Ledger.lists_iff, Ledger.entries_append h, List.foldl_append]
  simp only [List.foldl_cons, List.foldl_nil, Ledger.latest]
  have hevent : entry.reread.event = entry.event := rfl
  rw [hevent]
  by_cases hname : entry.reread.component = name
  · rw [if_pos hname]
    cases entry.event <;> simp [hname, Event.lists]
  · rw [if_neg hname]
    have hne : name ≠ entry.reread.component := fun heq => hname heq.symm
    cases entry.event <;> simp [hne]

end Selfhost.Converge
