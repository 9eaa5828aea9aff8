import Selfhost.Storage.Path

/-!
# What a validated name looks like

`PlainName` says in its own terms what a share accepts as a name. `validateSegment` accepts exactly these.
-/

namespace Selfhost.Storage

open Selfhost.Lib

/-- The device names of Windows, in upper case. -/
def deviceNames : List Str :=
  ["CON", "PRN", "AUX", "NUL", "CONIN$", "CONOUT$", "CLOCK$"].map String.toList ++
    "0123456789¹²³".toList.flatMap fun digit => [['C', 'O', 'M', digit], ['L', 'P', 'T', digit]]

/-- `s` begins like an 8.3 alias: up to six bytes without a dot, the first tilde, a digit. -/
def ShortNameShape (s : Str) : Prop :=
  ∃ stem digit rest, s = stem ++ '~' :: digit :: rest ∧ '~' ∉ stem ∧ '.' ∉ stem ∧ stem ≠ [] ∧
    (utf8 stem).length ≤ 6 ∧ '0' ≤ digit ∧ digit ≤ '9'

/-- A name that can be joined to any directory without naming anything but a child of it. -/
structure PlainName (s : Str) : Prop where
  ne_nil : s ≠ []
  ne_dot : s ≠ ['.']
  ne_dotdot : s ≠ ['.', '.']
  no_slash : '/' ∉ s
  no_backslash : '\\' ∉ s
  no_nul : '\x00' ∉ s
  no_control : ∀ c ∈ s, isControl c = false
  no_forbidden : ∀ c ∈ s, c ∉ forbiddenChars
  last_ne_dot : s.getLast? ≠ some '.'
  last_ne_space : s.getLast? ≠ some ' '
  no_device : toAsciiUppercase (s.takeWhile (· ≠ '.')) ∉ deviceNames
  no_short : ¬ ShortNameShape s
  no_temp : ¬ tempPrefix <+: s
  length_le : (utf8 s).length ≤ maxSegmentBytes

/-! ## The parts of the check -/

theorem headD_splitOn {α : Type} [DecidableEq α] (sep : α) (l d : List α) :
    (l.splitOn sep).headD d = l.takeWhile (· ≠ sep) := by
  induction l with
  | nil => simp
  | cons a l ih =>
      rw [List.splitOn_cons_eq_if_modifyHead]
      split
      · rename_i ha
        simp [beq_iff_eq.mp ha]
      · rename_i ha
        have hne : a ≠ sep := by simpa using ha
        cases hs : l.splitOn sep with
        | nil => exact absurd hs (List.splitOn_ne_nil sep l)
        | cons x xs =>
            rw [hs] at ih
            simp only [List.headD_cons] at ih
            simp [hne, ih]

theorem mem_deviceNames_iff (stem : Str) : stem ∈ deviceNames ↔
    stem ∈ ["CON".toList, "PRN".toList, "AUX".toList, "NUL".toList, "CONIN$".toList, "CONOUT$".toList,
      "CLOCK$".toList] ∨
    ∃ digit ∈ "0123456789¹²³".toList, stem = ['C', 'O', 'M', digit] ∨ stem = ['L', 'P', 'T', digit] := by
  simp only [deviceNames, List.mem_append, List.mem_flatMap, List.mem_cons, List.not_mem_nil, or_false,
    List.map_cons, List.map_nil]

theorem isReservedDevice_iff (s : Str) :
    isReservedDevice s = true ↔ toAsciiUppercase (s.takeWhile (· ≠ '.')) ∈ deviceNames := by
  rw [mem_deviceNames_iff]
  simp only [isReservedDevice, headD_splitOn]
  generalize toAsciiUppercase (s.takeWhile (· ≠ '.')) = stem
  split
  · rename_i h
    simp only [true_iff]
    exact Or.inl h
  · rename_i h
    rw [or_iff_right h]
    split
    · rename_i digit
      simp
    · rename_i digit
      simp
    · rename_i hcom hlpt
      constructor
      · intro h'
        cases h'
      · rintro ⟨digit, -, rfl | rfl⟩
        · exact absurd rfl (hcom digit)
        · exact absurd rfl (hlpt digit)

theorem isShortName_iff (s : Str) : isShortName s = true ↔ ShortNameShape s := by
  unfold isShortName
  constructor
  · intro h
    split at h
    · cases h
    · rename_i stem rest hs
      obtain ⟨rfl, hn⟩ := splitOnce_some hs
      split at h
      · cases h
      · rename_i hc
        simp only [not_or, Nat.not_lt] at hc
        split at h
        · rename_i digit rest
          simp only [Bool.and_eq_true, decide_eq_true_eq] at h
          exact ⟨stem, digit, rest, rfl, hn, hc.2.2, hc.1, hc.2.1, h⟩
        · cases h
  · rintro ⟨stem, digit, rest, rfl, hn, hdot, hne, hlen, hd⟩
    simp only [splitOnce_append hn]
    rw [if_neg (by simp only [not_or, Nat.not_lt]; exact ⟨hne, hlen, hdot⟩)]
    simpa using hd

theorem checkCharacters_ok_iff (s : Str) : checkCharacters s = .ok () ↔
    ∀ c ∈ s, c ≠ '/' ∧ c ≠ '\\' ∧ c ∉ forbiddenChars ∧ isControl c = false := by
  induction s with
  | nil => simp [checkCharacters]
  | cons c s ih =>
      simp only [checkCharacters, List.forall_mem_cons]
      split
      · rename_i h
        constructor
        · intro h'
          cases h'
        · rintro ⟨⟨h1, h2, -⟩, -⟩
          exact absurd h (by simp [h1, h2])
      · rename_i h
        split
        · rename_i hf
          simp [hf]
        · rename_i hf
          split
          · rename_i hc
            simp [hc]
          · rename_i hc
            rw [ih]
            simp only [not_or] at h
            simp [h, hf, hc]

theorem components_of_plain {s : Str} (hne : s ≠ []) (hdot : s ≠ ['.']) (hdd : s ≠ ['.', '.'])
    (hslash : '/' ∉ s) : components s = [.normal s] := by
  have hhead : s.head? ≠ some '/' := by
    intro h
    exact hslash (List.mem_of_head? h)
  simp [components, List.splitOn_eq_singleton hslash, component, hne, hdot, hdd, hhead]

theorem last_ne_dotOrSpace {s : Str} (h : s.rdropWhile isDotOrSpace = s)
    (hc : s.getLast? = some '.' ∨ s.getLast? = some ' ') : False := by
  cases hc with
  | inl hc => exact absurd (last_of_rdropWhile_eq_self h hc) (by decide)
  | inr hc => exact absurd (last_of_rdropWhile_eq_self h hc) (by decide)

theorem rdropWhile_of_last {s : Str} (hdot : s.getLast? ≠ some '.') (hspace : s.getLast? ≠ some ' ') :
    s.rdropWhile isDotOrSpace = s := by
  apply rdropWhile_eq_self_of_last
  intro c hc
  have h1 : c ≠ '.' := by
    rintro rfl
    exact hdot hc
  have h2 : c ≠ ' ' := by
    rintro rfl
    exact hspace hc
  simp [isDotOrSpace, h1, h2]

/-! ## The check as a whole -/

theorem PlainName.of_validateSegment {s : Str} (h : validateSegment s = .ok ()) : PlainName s := by
  simp only [validateSegment] at h
  split at h
  · cases h
  · rename_i htrav
    split at h
    · cases h
    · rename_i hempty
      split at h
      · cases h
      · rename_i heff
        rw [not_not] at heff
        rw [heff] at htrav hempty
        split at h
        · cases h
        · rename_i hlen
          split at h
          · cases h
          · rename_i hchars
            rw [checkCharacters_ok_iff] at hchars
            split at h
            · cases h
            · rename_i hdev
              split at h
              · cases h
              · rename_i hshort
                split at h
                · cases h
                · rename_i htemp
                  exact
                    { ne_nil := hempty
                      ne_dot := by
                        rintro rfl
                        exact last_ne_dotOrSpace heff (Or.inl rfl)
                      ne_dotdot := fun hdd => htrav (Or.inl hdd)
                      no_slash := fun hm => (hchars _ hm).1 rfl
                      no_backslash := fun hm => (hchars _ hm).2.1 rfl
                      no_nul := fun hm => absurd (hchars _ hm).2.2.2 (by decide)
                      no_control := fun c hc => (hchars c hc).2.2.2
                      no_forbidden := fun c hc => (hchars c hc).2.2.1
                      last_ne_dot := fun hl => last_ne_dotOrSpace heff (Or.inl hl)
                      last_ne_space := fun hl => last_ne_dotOrSpace heff (Or.inr hl)
                      no_device := fun hd => hdev ((isReservedDevice_iff s).mpr hd)
                      no_short := fun hs => hshort ((isShortName_iff s).mpr hs)
                      no_temp := htemp
                      length_le := Nat.not_lt.mp hlen }

theorem PlainName.validateSegment {s : Str} (h : PlainName s) : validateSegment s = .ok () := by
  have heff := rdropWhile_of_last h.last_ne_dot h.last_ne_space
  have hchars : checkCharacters s = .ok () := by
    rw [checkCharacters_ok_iff]
    intro c hc
    refine ⟨?_, ?_, h.no_forbidden c hc, h.no_control c hc⟩
    · rintro rfl
      exact h.no_slash hc
    · rintro rfl
      exact h.no_backslash hc
  have hdev : ¬ isReservedDevice s = true := fun hd => h.no_device ((isReservedDevice_iff s).mp hd)
  have hshort : ¬ isShortName s = true := fun hs => h.no_short ((isShortName_iff s).mp hs)
  simp only [Storage.validateSegment, heff, hchars,
    components_of_plain h.ne_nil h.ne_dot h.ne_dotdot h.no_slash]
  rw [if_neg (by simp [h.ne_nil, h.ne_dotdot]), if_neg h.ne_nil, if_neg (not_not.mpr rfl),
    if_neg (Nat.not_lt.mpr h.length_le), if_neg hdev, if_neg hshort, if_neg h.no_temp]

/-! ## The names of a path -/

namespace RelativePath

theorem validate_of_mem {path : RelativePath} {name : Str} (h : name ∈ path.names) :
    Storage.validateSegment name = .ok () := by
  obtain ⟨⟨k, hv⟩, -, rfl⟩ := List.mem_map.mp h
  exact hv

theorem validate_fileName {path : RelativePath} {name : Str} (h : path.fileName = some name) :
    Storage.validateSegment name = .ok () :=
  validate_of_mem (List.mem_of_getLast? h)

theorem names_eq {path : RelativePath} {name : Str} (h : path.fileName = some name) :
    path.names = path.parent.names ++ [name] := by
  unfold fileName at h
  obtain ⟨l, hl⟩ := List.getLast?_eq_some_iff.mp h
  have hp : path.parent.names = path.names.dropLast := List.map_dropLast
  rw [hp, hl, List.dropLast_concat]

end RelativePath

end Selfhost.Storage
