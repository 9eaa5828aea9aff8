import Selfhost.Storage.Lemmas.Segment

/-!
# Resolving, step by step

The segments of a resolved path, the joined path, and the percent encoding undone by the decoder.
-/

namespace Selfhost.Storage

open Selfhost.Lib

/-! ## Collecting the segments -/

/-- Whether a piece between two slashes is kept as a segment. -/
def isKept (piece : Str) : Bool := piece ≠ [] && piece ≠ ['.']

theorem collectSegments_names {pieces : List Str} {segments : List Segment}
    (h : collectSegments pieces = .ok segments) :
    segments.map Subtype.val = pieces.filter isKept := by
  induction pieces generalizing segments with
  | nil =>
      cases h
      rfl
  | cons piece rest ih =>
      simp only [collectSegments] at h
      split at h
      · rename_i hskip
        have hk : isKept piece = false := by
          rcases hskip with rfl | rfl <;> rfl
        rw [ih h, List.filter_cons_of_neg (by simp [hk])]
      · rename_i hskip
        have hk : isKept piece = true := by
          simpa [isKept, not_or] using hskip
        split at h
        · cases h
        · rename_i hv
          cases hr : collectSegments rest with
          | error refusal =>
              rw [hr] at h
              cases h
          | ok segs =>
              rw [hr] at h
              cases h
              rw [List.filter_cons_of_pos hk, List.map_cons, ih hr]

theorem collectSegments_nil_cons (pieces : List Str) :
    collectSegments ([] :: pieces) = collectSegments pieces := by
  rw [collectSegments, if_pos (Or.inl rfl)]

theorem collectSegments_segments (segments : List Segment) :
    collectSegments (segments.map Subtype.val) = .ok segments := by
  induction segments with
  | nil => rfl
  | cons s rest ih =>
      have hp := PlainName.of_validateSegment s.property
      rw [List.map_cons, collectSegments, if_neg (by simp [hp.ne_nil, hp.ne_dot])]
      split
      · rename_i hv
        rw [s.property] at hv
        cases hv
      · rw [ih]
        rfl

/-! ## The joined path -/

/-- The slash between a directory and a name in it, unless the directory already ends in one. -/
def separator (base : Bytes) : Bytes := if base = [] ∨ base.getLast? = some 0x2F then [] else [0x2F]

/-- The root of a share followed by names, one slash between each. -/
def underRoot (root : Bytes) (names : List Str) : Bytes :=
  if names = [] then root else root ++ separator root ++ utf8 (['/'].intercalate names)

theorem utf8_ne_nil {s : Str} (h : s ≠ []) : utf8 s ≠ [] := by
  intro hs
  have := fromUtf8_utf8 s
  rw [hs] at this
  cases this
  exact h rfl

theorem slash_notMem_utf8 {s : Str} (h : '/' ∉ s) : (0x2F : UInt8) ∉ utf8 s :=
  fun hm => h (mem_of_mem_utf8 hm (by decide))

/-- A join with a plain name appends it, with one slash unless the base needs none. -/
theorem pushPath_plain {base : Bytes} {s : Str} (h : PlainName s) :
    pushPath base s = underRoot base [s] := by
  have hhead : s.head? ≠ some '/' := fun hh => h.no_slash (List.mem_of_head? hh)
  simp only [pushPath, underRoot, separator, if_neg hhead]
  split <;> simp

theorem separator_underRoot {base : Bytes} {s : Str} (h : PlainName s) :
    separator (underRoot base [s]) = [0x2F] := by
  have hne := utf8_ne_nil h.ne_nil
  have hu : underRoot base [s] = base ++ separator base ++ utf8 s := by
    simp [underRoot]
  have hlast : (underRoot base [s]).getLast? = (utf8 s).getLast? := by
    rw [hu, List.getLast?_append_of_ne_nil _ hne]
  have hslash : (utf8 s).getLast? ≠ some 0x2F :=
    fun hl => slash_notMem_utf8 h.no_slash (List.mem_of_getLast? hl)
  rw [separator, if_neg]
  rw [hlast]
  simp only [not_or]
  exact ⟨by rw [hu]; simp [hne], hslash⟩

theorem underRoot_cons {base : Bytes} {s : Str} {names : List Str} (h : PlainName s) :
    underRoot (underRoot base [s]) names = underRoot base (s :: names) := by
  cases names with
  | nil => simp [underRoot]
  | cons t names =>
      rw [underRoot, if_neg (List.cons_ne_nil _ _), separator_underRoot h]
      have hslash : String.utf8EncodeChar '/' = [0x2F] := by decide
      simp [underRoot, List.intercalate_cons_cons, hslash]

theorem foldl_pushPath {names : List Str} (h : ∀ s ∈ names, PlainName s) (root : Bytes) :
    names.foldl pushPath root = underRoot root names := by
  induction names generalizing root with
  | nil => rfl
  | cons s names ih =>
      rw [List.forall_mem_cons] at h
      rw [List.foldl_cons, ih h.2, pushPath_plain h.1, underRoot_cons h.1]

/-! ## Decoding an encoded name -/

theorem hexDigit_ascii {n : Nat} (h : n < 16) : (hexDigit n).toNat < 0x80 := by
  have hgraphic := graphic_hexDigit n h
  omega

theorem lt_of_isUnreserved {b : UInt8} (h : isUnreserved b = true) : b.toNat < 0x80 := by
  simp only [isUnreserved, Bool.or_eq_true, Bool.and_eq_true, decide_eq_true_eq, List.mem_cons,
    List.not_mem_nil, or_false] at h
  omega

theorem utf8_encodeByte (b : UInt8) : utf8 (encodeByte b) =
    if isUnreserved b then [b]
    else [0x25, UInt8.ofNat (hexDigit (b.toNat / 16)).toNat, UInt8.ofNat (hexDigit (b.toNat % 16)).toNat] := by
  have hlt := b.toNat_lt
  unfold encodeByte
  split
  · rename_i h
    rw [utf8_cons, utf8EncodeChar_one (lt_of_isUnreserved h), utf8_nil, List.append_nil]
  · have hpct : String.utf8EncodeChar '%' = [0x25] := by decide
    rw [utf8_cons, utf8_cons, utf8_cons, hpct, utf8EncodeChar_ascii (hexDigit_ascii (by omega)),
      utf8EncodeChar_ascii (hexDigit_ascii (by omega))]
    rfl

theorem decodeEscapes_encodeByte {b : UInt8} (hb : b ≠ 0) (rest : Bytes) :
    decodeEscapes (utf8 (encodeByte b) ++ rest) = (decodeEscapes rest).map (b :: ·) := by
  have hlt := b.toNat_lt
  rw [utf8_encodeByte]
  split
  · rename_i h
    have hne : b ≠ 0x25 := by
      rintro rfl
      exact absurd h (by decide)
    rw [List.cons_append, List.nil_append, decodeEscapes.eq_def]
    exact if_neg hne
  · have hsum : b.toNat / 16 * 16 + b.toNat % 16 = b.toNat := by omega
    have hpos : b.toNat ≠ 0 := fun h => hb (UInt8.toNat.inj h)
    rw [List.cons_append, List.cons_append, List.cons_append, List.nil_append, decodeEscapes.eq_def]
    simp only [hexValue_hexDigit _ (show b.toNat / 16 < 16 by omega),
      hexValue_hexDigit _ (show b.toNat % 16 < 16 by omega), hsum, UInt8.ofNat_toNat, if_neg hpos]
    rfl

theorem decodeEscapes_encodeBytes {bytes : Bytes} (h : 0 ∉ bytes) (rest : Bytes) :
    decodeEscapes (utf8 (bytes.flatMap encodeByte) ++ rest) = (decodeEscapes rest).map (bytes ++ ·) := by
  induction bytes with
  | nil => cases hr : decodeEscapes rest <;> simp [hr, Except.map]
  | cons b bytes ih =>
      rw [List.mem_cons, not_or] at h
      rw [List.flatMap_cons, utf8_append, List.append_assoc, decodeEscapes_encodeByte (Ne.symm h.1), ih h.2]
      cases decodeEscapes rest <;> rfl

theorem zero_notMem_utf8 {s : Str} (h : PlainName s) : (0 : UInt8) ∉ utf8 s :=
  fun hm => h.no_nul (mem_of_mem_utf8 hm (by decide))

theorem decodeEscapes_encodeSegment {s : Str} (h : PlainName s) (rest : Bytes) :
    decodeEscapes (utf8 (encodeSegment s) ++ rest) = (decodeEscapes rest).map (utf8 s ++ ·) :=
  decodeEscapes_encodeBytes (zero_notMem_utf8 h) rest

theorem decodeEscapes_slash (rest : Bytes) :
    decodeEscapes (utf8 ['/'] ++ rest) = (decodeEscapes rest).map (utf8 ['/'] ++ ·) := by
  have hslash : utf8 ['/'] = [0x2F] := by decide
  rw [hslash, List.cons_append, List.nil_append, decodeEscapes.eq_def]
  exact if_neg (by decide)

theorem decodeEscapes_names {names : List Str} (h : ∀ s ∈ names, PlainName s) :
    decodeEscapes (utf8 (['/'].intercalate (names.map encodeSegment))) =
      .ok (utf8 (['/'].intercalate names)) := by
  induction names with
  | nil => rfl
  | cons s names ih =>
      rw [List.forall_mem_cons] at h
      cases names with
      | nil =>
          have hs := decodeEscapes_encodeSegment h.1 []
          simp only [List.append_nil] at hs
          simp only [List.map_cons, List.map_nil, List.intercalate_singleton, hs]
          simp [decodeEscapes, Except.map]
      | cons t names =>
          simp only [List.map_cons] at ih
          simp only [List.map_cons, List.intercalate_cons_cons, utf8_append, List.append_assoc]
          rw [decodeEscapes_encodeSegment h.1, decodeEscapes_slash, ih h.2]
          rfl

theorem RelativePath.plain (p : RelativePath) : ∀ s ∈ p.names, PlainName s := by
  intro s hs
  obtain ⟨⟨s, hv⟩, -, rfl⟩ := List.mem_map.mp hs
  exact PlainName.of_validateSegment hv

/-- The decoder gives the names back from their encoded link. -/
theorem percentDecode_toUrlPath (p : RelativePath) :
    percentDecode ('/' :: p.toUrlPath) = .ok ('/' :: ['/'].intercalate p.names) := by
  have h : decodeEscapes (utf8 ('/' :: p.toUrlPath)) = .ok (utf8 ('/' :: ['/'].intercalate p.names)) := by
    have hcons : ∀ t : Str, utf8 ('/' :: t) = utf8 ['/'] ++ utf8 t := fun t => utf8_append ['/'] t
    rw [hcons p.toUrlPath, hcons (['/'].intercalate p.names), decodeEscapes_slash, RelativePath.toUrlPath, decodeEscapes_names p.plain]
    rfl
  simp only [percentDecode, h, fromUtf8_utf8]

/-! ## Resolving -/

theorem resolve_ok_iff {root : Bytes} {request : Str} {res : Resolved} :
    resolve root request = .ok res ↔
    (utf8 request).length ≤ maxPathBytes ∧ ∃ decoded segments,
      percentDecode request = .ok decoded ∧ '\x00' ∉ decoded ∧
      collectSegments ((normalise decoded).splitOn '/') = .ok segments ∧
      ((segments.map Subtype.val).foldl pushPath root).length ≤ maxPathBytes ∧
      res = ⟨⟨segments⟩, (segments.map Subtype.val).foldl pushPath root,
        normalise decoded = [] ∨ (normalise decoded).getLast? = some '/'⟩ := by
  constructor
  · intro h
    simp only [resolve] at h
    split at h
    · cases h
    · rename_i hraw
      split at h
      · cases h
      · rename_i decoded hd
        split at h
        · cases h
        · rename_i hnul
          split at h
          · cases h
          · rename_i segments hs
            split at h
            · cases h
            · rename_i hfull
              cases h
              exact ⟨Nat.not_lt.mp hraw, decoded, segments, hd, hnul, hs, Nat.not_lt.mp hfull, rfl⟩
  · rintro ⟨hraw, decoded, segments, hd, hnul, hs, hfull, rfl⟩
    simp only [resolve, hd, hs]
    rw [if_neg (Nat.not_lt.mpr hraw), if_neg hnul, if_neg (Nat.not_lt.mpr hfull)]

theorem normalise_of_no_backslash {s : Str} (h : '\\' ∉ s) : normalise s = s := by
  unfold normalise
  conv_rhs => rw [← List.map_id s]
  apply List.map_congr_left
  intro c hc
  have hne : c ≠ '\\' := by
    rintro rfl
    exact h hc
  simp [hne]

theorem mem_intercalate_slash {names : List Str} {c : Char} (h : c ∈ ['/'].intercalate names) :
    c = '/' ∨ ∃ s ∈ names, c ∈ s := by
  induction names with
  | nil => cases h
  | cons s names ih =>
      cases names with
      | nil => exact Or.inr ⟨s, List.mem_cons_self, by simpa using h⟩
      | cons t names =>
          rw [List.intercalate_cons_cons, List.mem_append, List.mem_append] at h
          rcases h with (h | h) | h
          · exact Or.inr ⟨s, List.mem_cons_self, h⟩
          · exact Or.inl (List.mem_singleton.mp h)
          · cases ih h with
            | inl hc => exact Or.inl hc
            | inr hs =>
                obtain ⟨u, hu, hc⟩ := hs
                exact Or.inr ⟨u, List.mem_cons_of_mem _ hu, hc⟩

theorem notMem_link {p : RelativePath} {c : Char} (hc : c ≠ '/') (h : ∀ s ∈ p.names, c ∉ s) :
    c ∉ '/' :: ['/'].intercalate p.names := by
  intro hm
  cases hm with
  | head => exact hc rfl
  | tail _ hm =>
      cases mem_intercalate_slash hm with
      | inl he => exact hc he
      | inr hs =>
          obtain ⟨s, hs, hcs⟩ := hs
          exact h s hs hcs

theorem collectSegments_link (p : RelativePath) :
    collectSegments (('/' :: ['/'].intercalate p.names).splitOn '/') = .ok p.segments := by
  rw [List.splitOn_cons_eq_if_modifyHead, if_pos (by rfl), collectSegments_nil_cons]
  cases hp : p.segments with
  | nil => simp [RelativePath.names, hp, collectSegments]
  | cons s rest =>
      rw [List.splitOn_intercalate '/' (fun s hs => (p.plain s hs).no_slash)
        (by simp [RelativePath.names, hp]), ← hp]
      exact collectSegments_segments p.segments

/-! ## The length of a link -/

/-- How many bytes a name takes in a link: one for an unreserved byte, three for any other. -/
def encodedLength (name : Str) : Nat := ((utf8 name).map fun b => if isUnreserved b then 1 else 3).sum

/-- How many bytes the link to a path takes, its leading slash included. -/
def linkLength (p : RelativePath) : Nat := 1 + (p.names.map encodedLength).sum + (p.names.length - 1)

theorem length_utf8_encodeSegment (name : Str) :
    (utf8 (encodeSegment name)).length = encodedLength name := by
  unfold encodeSegment encodedLength
  induction utf8 name with
  | nil => rfl
  | cons b bytes ih =>
      rw [List.flatMap_cons, utf8_append, List.length_append, ih, List.map_cons, List.sum_cons,
        utf8_encodeByte]
      split <;> rfl

theorem length_utf8_intercalate (names : List Str) :
    (utf8 (['/'].intercalate names)).length =
      (names.map fun s => (utf8 s).length).sum + (names.length - 1) := by
  induction names with
  | nil => rfl
  | cons s names ih =>
      cases names with
      | nil => simp
      | cons t names =>
          have hslash : (utf8 ['/']).length = 1 := by decide
          rw [List.intercalate_cons_cons, utf8_append, utf8_append, List.length_append,
            List.length_append, ih, hslash]
          simp only [List.map_cons, List.sum_cons, List.length_cons]
          omega

theorem length_link (p : RelativePath) : (utf8 ('/' :: p.toUrlPath)).length = linkLength p := by
  have hslash : (String.utf8EncodeChar '/').length = 1 := by decide
  rw [utf8_cons, List.length_append, hslash, RelativePath.toUrlPath, length_utf8_intercalate,
    List.map_map, List.length_map, linkLength, Nat.add_assoc]
  congr 3
  exact List.map_congr_left fun s _ => length_utf8_encodeSegment s

/-- A link that is short enough resolves to the path it was made from, when that path fits at all. -/
theorem resolve_link {root : Bytes} {p : RelativePath} (hlen : linkLength p ≤ maxPathBytes)
    (hfull : (p.names.foldl pushPath root).length ≤ maxPathBytes) :
    ∃ res, resolve root ('/' :: p.toUrlPath) = .ok res ∧ res.relative = p := by
  have hb : '\\' ∉ '/' :: ['/'].intercalate p.names :=
    notMem_link (by decide) fun s hs => (p.plain s hs).no_backslash
  have hz : '\x00' ∉ '/' :: ['/'].intercalate p.names :=
    notMem_link (by decide) fun s hs => (p.plain s hs).no_nul
  refine ⟨_, resolve_ok_iff.mpr ⟨?_, _, p.segments, percentDecode_toUrlPath p, hz, ?_, hfull, rfl⟩, rfl⟩
  · rw [length_link]
    exact hlen
  · rw [normalise_of_no_backslash hb]
    exact collectSegments_link p

end Selfhost.Storage
