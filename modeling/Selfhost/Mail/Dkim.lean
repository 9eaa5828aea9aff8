import Selfhost.Lib.Blanks
import Selfhost.Lib.Slice

/-!
# What a signature is computed over

The relaxed forms of `services/mail/src/dkim.rs`, which work on decoded text, against the algorithms of RFC 6376,
sections 3.4.2 and 3.4.4, which work on bytes.
-/

namespace Selfhost.Mail

open Selfhost.Lib

/-! ## The code -/

def compressLoop (inWsp : Bool) : Str → Str
  | [] => []
  | c :: rest =>
      if c == ' ' || c == '\t' then compressLoop true rest
      else if inWsp then ' ' :: c :: compressLoop false rest
      else c :: compressLoop false rest

/-- `compress_wsp`: a run at the start leaves one space, a run at the end none. -/
def compressWsp (text : Str) : Str := compressLoop false text

/-- `strip_suffix('\r')`. -/
def stripReturn (line : Str) : Str := if line.getLast? = some '\r' then line.dropLast else line

def bodyLines (text : Str) : List Str :=
  ((text.splitOn '\n').map fun line => compressWsp (stripReturn line)).rdropWhile List.isEmpty

def canonicalizeBodyRelaxed (body : Bytes) : Bytes :=
  let lines := bodyLines (fromUtf8Lossy body)
  if lines.isEmpty then [] else utf8 ("\r\n".toList.intercalate lines ++ "\r\n".toList)

def canonicalizeHeaderRelaxed (name value : Str) : Str :=
  let unfolded := value.filter fun c => c != '\r' && c != '\n'
  toAsciiLowercase (trim name) ++ ':' :: trim (compressWsp unfolded)

/-! ## The algorithms of the receivers -/

/-- The pieces between CRLFs. -/
@[simp] def crlfPieces : Bytes → List Bytes
  | [] => [[]]
  | b :: rest =>
      match rest with
      | [] => [[b]]
      | c :: after =>
          if b = cr ∧ c = lf then [] :: crlfPieces after
          else (crlfPieces (c :: after)).modifyHead (b :: ·)

/-- White space at the end is ignored, any other run of it is one space. -/
def relaxedLine (line : Bytes) : Bytes := (squeeze isWspByte sp line).rdropWhile isWspByte

/-- Section 3.4.4: empty lines at the end are ignored, and the last line ends with CRLF. -/
def relaxedBody (body : Bytes) : Bytes := lines (((crlfPieces body).map relaxedLine).rdropWhile List.isEmpty)

/-- A CRLF in front of white space is no part of the value. -/
def unfoldValue : Bytes → Bytes
  | [] => []
  | b :: rest =>
      match rest with
      | [] => [b]
      | [c] => [b, c]
      | c :: d :: after =>
          if b = cr ∧ c = lf ∧ isWspByte d then d :: unfoldValue after else b :: unfoldValue (c :: d :: after)

def lowerByte (b : UInt8) : UInt8 := if 0x41 ≤ b.toNat ∧ b.toNat ≤ 0x5A then b + 0x20 else b

/-- Section 3.4.2. -/
def relaxedHeader (name value : Bytes) : Bytes :=
  (name.rdropWhile isWspByte).map lowerByte ++ 0x3A :: (relaxedLine (unfoldValue value)).dropWhile isWspByte

/-! ## Compressing -/

theorem compressLoop_eq (inWsp : Bool) (text : Str) :
    compressLoop inWsp text = (squeeze isWsp ' ' (if inWsp then ' ' :: text else text)).rdropWhile isWsp := by
  induction text generalizing inWsp with
  | nil => cases inWsp <;> decide
  | cons c rest ih =>
      rw [compressLoop]
      cases hc : isWsp c with
      | true =>
          rw [isWsp] at hc
          rw [if_pos hc, ih true, if_pos rfl]
          cases inWsp with
          | false => rw [if_neg (by simp), squeeze_cons_congr (p := isWsp) (c := ' ') (d := c) rfl hc]
          | true =>
              have hhead : (c :: rest).head?.any isWsp = true := hc
              rw [if_pos rfl, squeeze_of_pos (p := isWsp) (c := ' ') rfl hhead,
                squeeze_cons_congr (p := isWsp) (c := ' ') (d := c) rfl hc]
      | false =>
          have hc' : ¬ (c == ' ' || c == '\t') = true := by simpa [isWsp] using hc
          rw [if_neg hc', ih false]
          cases inWsp with
          | false => rw [if_neg (by simp), if_neg (by simp), if_neg (by simp), squeeze_of_neg hc,
              rdropWhile_cons_of_neg hc]
          | true =>
              have hhead : (c :: rest).head?.any isWsp = false := hc
              have hne : (squeeze isWsp ' ' (c :: rest)).rdropWhile isWsp ≠ [] := by
                rw [squeeze_of_neg hc, rdropWhile_cons_of_neg hc]
                exact List.cons_ne_nil _ _
              rw [if_pos rfl, if_pos rfl, if_neg (by simp), squeeze_of_last rfl hhead, rdropWhile_cons_of_ne_nil hne,
                squeeze_of_neg hc, rdropWhile_cons_of_neg hc]

theorem compressWsp_eq (text : Str) : compressWsp text = (squeeze isWsp ' ' text).rdropWhile isWsp :=
  compressLoop_eq false text

theorem utf8_compressWsp (text : Str) : utf8 (compressWsp text) = relaxedLine (utf8 text) := by
  rw [compressWsp_eq, relaxedLine, squeeze_utf8, rdropWhile_utf8]

/-! ## Lines of a text and of its bytes -/

/-- Every text followed by CRLF. -/
def textLines (texts : List Str) : Str := texts.flatMap (· ++ ['\r', '\n'])

theorem utf8_textLines (texts : List Str) : utf8 (textLines texts) = lines (texts.map utf8) := by
  induction texts with
  | nil => rfl
  | cons text texts ih =>
      rw [textLines, List.flatMap_cons, utf8_append, utf8_append, ← textLines, ih, List.map_cons, lines_cons,
        List.append_assoc]
      rfl

theorem splitOn_textLines {texts : List Str} {last : Str} (htexts : ∀ text ∈ texts, '\n' ∉ text) (hlast : '\n' ∉ last) :
    (textLines texts ++ last).splitOn '\n' = texts.map (· ++ ['\r']) ++ [last] := by
  induction texts with
  | nil => exact List.splitOn_eq_singleton hlast
  | cons text texts ih =>
      have htext : '\n' ∉ text ++ ['\r'] := by simp [htexts text List.mem_cons_self]
      have happ : textLines (text :: texts) ++ last = (text ++ ['\r']) ++ '\n' :: (textLines texts ++ last) := by
        simp [textLines]
      rw [happ, List.splitOn_append_cons_self_of_not_mem htext, ih fun t ht => htexts t (List.mem_cons_of_mem _ ht)]
      rfl

theorem stripReturn_concat (text : Str) : stripReturn (text ++ ['\r']) = text := by
  simp [stripReturn]

theorem bodyLines_textLines {texts : List Str} {last : Str} (htexts : ∀ text ∈ texts, '\n' ∉ text)
    (hlast : '\n' ∉ last) : bodyLines (textLines texts ++ last) =
      ((texts ++ [stripReturn last]).map compressWsp).rdropWhile List.isEmpty := by
  rw [bodyLines, splitOn_textLines htexts hlast]
  congr 1
  rw [List.map_append, List.map_map, List.map_append, List.map_cons, List.map_nil, List.map_cons, List.map_nil]
  congr 1
  exact List.map_congr_left fun text _ => by rw [Function.comp_apply, stripReturn_concat]

theorem canonicalizeBodyRelaxed_eq (body : Bytes) :
    canonicalizeBodyRelaxed body = utf8 (textLines (bodyLines (fromUtf8Lossy body))) := by
  have hjoin : ∀ (texts : List Str), texts ≠ [] → ['\r', '\n'].intercalate texts ++ ['\r', '\n'] = textLines texts := by
    intro texts hne
    induction texts with
    | nil => exact absurd rfl hne
    | cons text texts ih =>
        cases texts with
        | nil => simp [textLines]
        | cons next texts =>
            rw [List.intercalate_cons_cons, List.append_assoc, List.append_assoc, ih (List.cons_ne_nil _ _)]
            simp [textLines]
  unfold canonicalizeBodyRelaxed
  dsimp only
  cases hlines : bodyLines (fromUtf8Lossy body) with
  | nil => rfl
  | cons text texts =>
      rw [← hlines]
      have hne : bodyLines (fromUtf8Lossy body) ≠ [] := by simp [hlines]
      rw [if_neg (by simpa using hne)]
      exact congrArg utf8 (hjoin _ hne)

theorem mem_of_mem_compressWsp {c : Char} {text : Str} (hc : isWsp c = false) (h : c ∈ compressWsp text) :
    c ∈ text := by
  rw [compressWsp_eq] at h
  rcases mem_of_mem_squeeze ((List.rdropWhile_prefix isWsp _).subset h) with rfl | h
  · cases hc
  · exact h

theorem mem_of_mem_stripReturn {c : Char} {line : Str} (h : c ∈ stripReturn line) : c ∈ line := by
  rw [stripReturn] at h
  split at h
  · exact List.mem_of_mem_dropLast h
  · exact h

theorem newline_not_mem_bodyLines {text line : Str} (h : line ∈ bodyLines text) : '\n' ∉ line := by
  have hmem := (List.rdropWhile_prefix List.isEmpty _).subset h
  obtain ⟨piece, hpiece, rfl⟩ := List.mem_map.mp hmem
  intro hnewline
  exact not_mem_of_mem_splitOn hpiece (mem_of_mem_stripReturn (mem_of_mem_compressWsp rfl hnewline))

theorem compressWsp_of_mem_bodyLines {text line : Str} (h : line ∈ bodyLines text) : compressWsp line = line := by
  have hmem := (List.rdropWhile_prefix List.isEmpty _).subset h
  obtain ⟨piece, -, rfl⟩ := List.mem_map.mp hmem
  have hblank : isWsp ' ' = true := rfl
  rw [compressWsp_eq, compressWsp_eq, ← rdropWhile_squeeze hblank, List.rdropWhile_idempotent, squeeze_squeeze hblank]

/-- The relaxed form of a body is its own. -/
theorem canonicalizeBodyRelaxed_idem (body : Bytes) :
    canonicalizeBodyRelaxed (canonicalizeBodyRelaxed body) = canonicalizeBodyRelaxed body := by
  rw [canonicalizeBodyRelaxed_eq (canonicalizeBodyRelaxed body), canonicalizeBodyRelaxed_eq body, fromUtf8Lossy_utf8]
  have hlines : bodyLines (textLines (bodyLines (fromUtf8Lossy body)) ++ []) = bodyLines (fromUtf8Lossy body) := by
    have hsame : (bodyLines (fromUtf8Lossy body) ++ [[]]).map compressWsp = bodyLines (fromUtf8Lossy body) ++ [[]] := by
      rw [List.map_append, List.map_congr_left fun line h => compressWsp_of_mem_bodyLines h, List.map_id']
      rfl
    rw [bodyLines_textLines (fun line h => newline_not_mem_bodyLines h) (by simp),
      show stripReturn [] = [] from rfl, hsame, List.rdropWhile_concat_pos _ _ _ rfl]
    exact List.rdropWhile_idempotent _ _
  rw [List.append_nil] at hlines
  rw [hlines]

/-! ## The pieces between CRLFs -/

theorem crlfPieces_ne_nil (b : Bytes) : crlfPieces b ≠ [] := by
  fun_induction crlfPieces b with
  | case1 => simp
  | case2 => simp
  | case3 => simp
  | case4 b c after h ih =>
      cases hpieces : crlfPieces (c :: after) with
      | nil => exact absurd hpieces ih
      | cons => simp

theorem lines_crlfPieces (b : Bytes) : lines (crlfPieces b) = b ++ crlf := by
  fun_induction crlfPieces b with
  | case1 => rfl
  | case2 => rfl
  | case3 b c after h ih =>
      rw [lines_cons, ih, h.1, h.2]
      rfl
  | case4 b c after h ih =>
      cases hpieces : crlfPieces (c :: after) with
      | nil => exact absurd hpieces (crlfPieces_ne_nil _)
      | cons piece pieces =>
          rw [hpieces, lines_cons] at ih
          rw [List.modifyHead_cons, lines_cons, List.cons_append, ih]
          rfl

theorem crlfPieces_single {b : Bytes} (h : lf ∉ b) : crlfPieces b = [b] := by
  fun_induction crlfPieces b with
  | case1 => rfl
  | case2 => rfl
  | case3 b c after hcrlf => exact absurd (by simp [hcrlf.2]) h
  | case4 b c after hcrlf ih => rw [ih fun hm => h (List.mem_cons_of_mem _ hm), List.modifyHead_cons]

theorem crlfPieces_line {l rest : Bytes} (hl : lf ∉ l) : crlfPieces (l ++ cr :: lf :: rest) = l :: crlfPieces rest := by
  induction l with
  | nil => simp [crlfPieces]
  | cons b l ih =>
      have hrest := ih fun hm => hl (List.mem_cons_of_mem _ hm)
      cases l with
      | nil =>
          rw [List.nil_append] at hrest
          rw [List.singleton_append, crlfPieces, if_neg (by simp), hrest, List.modifyHead_cons]
      | cons c l =>
          have hc : c ≠ lf := fun h => hl (by simp [h])
          rw [List.cons_append] at hrest
          rw [List.cons_append, List.cons_append, crlfPieces, if_neg fun h => hc h.2, hrest, List.modifyHead_cons]

theorem crlfPieces_lines {ls : List Bytes} {last : Bytes} (hls : ∀ l ∈ ls, lf ∉ l) (hlast : lf ∉ last) :
    crlfPieces (lines ls ++ last) = ls ++ [last] := by
  induction ls with
  | nil => exact crlfPieces_single hlast
  | cons l ls ih =>
      rw [lines_cons, List.append_assoc, List.cons_append, List.cons_append, crlfPieces_line (hls l List.mem_cons_self),
        ih fun m hm => hls m (List.mem_cons_of_mem _ hm)]
      rfl

/-! ## The body -/

/-- A body whose relaxed form the code computes as receivers do. -/
structure PlainBody (body : Bytes) : Prop where
  isUtf8 : IsUtf8 body
  crlf : lfAfterCr lf body = true
  ended : body.getLast? ≠ some cr

theorem all_rdropWhile_isEmpty {ls : List Bytes} {p : Bytes → Prop} (hp : p []) :
    (∀ l ∈ ls.rdropWhile List.isEmpty, p l) ↔ ∀ l ∈ ls, p l := by
  constructor
  · intro h l hl
    cases hempty : l.isEmpty with
    | true => rwa [List.isEmpty_iff.mp hempty]
    | false => exact h l (mem_rdropWhile hempty hl)
  · intro h l hl
    exact h l ((List.rdropWhile_prefix List.isEmpty _).subset hl)

theorem lfAfterCr_relaxedBody (body : Bytes) : lfAfterCr lf (relaxedBody body) = lfAfterCr lf body := by
  have hpieces : lfAfterCr lf body = (crlfPieces body).all (lfAfterCr lf) := by
    rw [← lfAfterCr_lines_eq, lines_crlfPieces, crlf, lfAfterCr_append_crlf]
    exact (Bool.and_true _).symm
  have hline : ∀ l, lfAfterCr lf (relaxedLine l) = lfAfterCr lf l := fun l => by
    rw [relaxedLine, lfAfterCr_rdropWhile, lfAfterCr_squeeze]
  rw [relaxedBody, lfAfterCr_lines_eq, hpieces, Bool.eq_iff_iff, List.all_eq_true, List.all_eq_true,
    all_rdropWhile_isEmpty (p := fun l => lfAfterCr lf l = true) rfl, List.forall_mem_map]
  exact forall₂_congr fun l _ => by rw [hline]

theorem isUtf8_relaxedLine (l : Bytes) : IsUtf8 (relaxedLine l) ↔ IsUtf8 l := by
  rw [relaxedLine, isUtf8_rdropWhile, isUtf8_squeeze]

theorem isUtf8_relaxedBody (body : Bytes) : IsUtf8 (relaxedBody body) ↔ IsUtf8 body := by
  have hpieces : IsUtf8 body ↔ ∀ l ∈ crlfPieces body, IsUtf8 l := by
    rw [← isUtf8_lines, lines_crlfPieces, crlf, isUtf8_append_cons (by decide)]
    exact (and_iff_left ((isUtf8_cons (by decide)).mpr (isUtf8_utf8 []))).symm
  rw [relaxedBody, isUtf8_lines, hpieces, all_rdropWhile_isEmpty (isUtf8_utf8 []), List.forall_mem_map]
  exact forall₂_congr fun l _ => isUtf8_relaxedLine l

theorem lfAfterCr_canonicalizeBodyRelaxed (body : Bytes) : lfAfterCr lf (canonicalizeBodyRelaxed body) = true := by
  rw [canonicalizeBodyRelaxed_eq, utf8_textLines]
  refine lfAfterCr_lines fun l hl => ?_
  obtain ⟨line, hline, rfl⟩ := List.mem_map.mp hl
  intro hlf
  exact newline_not_mem_bodyLines hline (mem_of_mem_utf8 hlf (by decide))

/-- The lines of a text whose line feeds all end a line. -/
theorem exists_textLines {b : Bytes} (hutf8 : IsUtf8 b) (hcrlf : lfAfterCr lf b = true) :
    ∃ texts last, b = utf8 (textLines texts ++ last) ∧ (∀ text ∈ texts, '\n' ∉ text) ∧ '\n' ∉ last := by
  have hnewline : ∀ {t : Str}, lf ∉ utf8 t → '\n' ∉ t := fun h hmem => h (mem_utf8_of_mem hmem (by decide))
  by_cases hlf : lf ∈ b
  · obtain ⟨l, rest, hb, hl, hrest⟩ := exists_line_of_lfAfterCr lf_ne_cr hcrlf hlf
    rw [hb] at hutf8
    obtain ⟨⟨text, rfl⟩, hafter⟩ := (isUtf8_append_cons (x := cr) (by decide)).mp hutf8
    have hshort : rest.length < b.length := by
      rw [hb, List.length_append, List.length_cons, List.length_cons]
      omega
    obtain ⟨texts, last, hlines, htexts, hlast⟩ := exists_textLines ((isUtf8_cons (by decide)).mp hafter) hrest
    refine ⟨text :: texts, last, ?_, List.forall_mem_cons.mpr ⟨hnewline hl, htexts⟩, hlast⟩
    rw [hb, hlines, utf8_append, utf8_append, utf8_textLines, utf8_textLines, List.map_cons, lines_cons]
    simp
  · obtain ⟨last, rfl⟩ := hutf8
    exact ⟨[], last, rfl, by simp, hnewline hlf⟩
termination_by b.length

theorem map_utf8_rdropWhile (ls : List Str) :
    (ls.rdropWhile List.isEmpty).map utf8 = (ls.map utf8).rdropWhile List.isEmpty := by
  induction ls using List.reverseRecOn with
  | nil => rfl
  | append_singleton ls l ih =>
      rw [List.map_append, List.map_singleton, List.rdropWhile_concat, List.rdropWhile_concat]
      cases l with
      | nil => simpa using ih
      | cons c l =>
          have hne : (utf8 (c :: l)).isEmpty = false := by
            rw [utf8_cons]
            cases hencode : String.utf8EncodeChar c with
            | nil => exact absurd hencode String.utf8EncodeChar_ne_nil
            | cons => rfl
          rw [hne, if_neg (by simp), if_neg (by simp), List.map_append, List.map_singleton]

theorem canonicalizeBodyRelaxed_textLines {texts : List Str} {last : Str} (htexts : ∀ text ∈ texts, '\n' ∉ text)
    (hlast : '\n' ∉ last) : canonicalizeBodyRelaxed (utf8 (textLines texts ++ last)) =
      lines (((texts ++ [stripReturn last]).map (relaxedLine ∘ utf8)).rdropWhile List.isEmpty) := by
  rw [canonicalizeBodyRelaxed_eq, fromUtf8Lossy_utf8, bodyLines_textLines htexts hlast, utf8_textLines,
    map_utf8_rdropWhile, List.map_map]
  have hcomp : utf8 ∘ compressWsp = relaxedLine ∘ utf8 := funext utf8_compressWsp
  rw [hcomp]

theorem relaxedBody_textLines {texts : List Str} {last : Str} (htexts : ∀ text ∈ texts, '\n' ∉ text)
    (hlast : '\n' ∉ last) : relaxedBody (utf8 (textLines texts ++ last)) =
      lines (((texts ++ [last]).map (relaxedLine ∘ utf8)).rdropWhile List.isEmpty) := by
  have hlf : ∀ {t : Str}, '\n' ∉ t → lf ∉ utf8 t := fun h hmem => h (mem_of_mem_utf8 hmem (by decide))
  have hpieces : crlfPieces (utf8 (textLines texts ++ last)) = (texts ++ [last]).map utf8 := by
    have htextsLf : ∀ l ∈ texts.map utf8, lf ∉ l := List.forall_mem_map.mpr fun t ht => hlf (htexts t ht)
    rw [utf8_append, utf8_textLines, crlfPieces_lines htextsLf (hlf hlast)]
    simp
  rw [relaxedBody, hpieces, List.map_map]

theorem relaxedLine_concat (l : Bytes) : relaxedLine (l ++ [cr]) = squeeze isWspByte sp l ++ [cr] := by
  rw [relaxedLine, squeeze_concat_of_neg rfl, List.rdropWhile_concat_neg _ _ _ (by decide)]

theorem lines_inj {ls ms : List Bytes} (hls : ∀ l ∈ ls, lf ∉ l) (hms : ∀ m ∈ ms, lf ∉ m) (h : lines ls = lines ms) :
    ls = ms := by
  have hsplit := splitOn_lines hls
  rw [h, splitOn_lines hms] at hsplit
  exact (List.map_injective_iff.mpr (List.append_left_injective [cr]) (List.append_cancel_right hsplit)).symm

theorem lf_not_mem_relaxedLine {l : Bytes} (h : lf ∉ l) : lf ∉ relaxedLine l := by
  intro hlf
  rcases mem_of_mem_squeeze ((List.rdropWhile_prefix isWspByte _).subset hlf) with h' | h'
  · exact absurd h' (by decide)
  · exact h h'

/-- A CR behind the last line is no line end, but the code takes it for one. -/
theorem lines_concat_ne {ls : List Bytes} {l : Bytes} (hls : ∀ m ∈ ls, lf ∉ m) (hl : lf ∉ l) :
    lines ((ls ++ [relaxedLine l]).rdropWhile List.isEmpty) ≠
      lines ((ls ++ [relaxedLine (l ++ [cr])]).rdropWhile List.isEmpty) := by
  have hlong : (relaxedLine (l ++ [cr])).length = (squeeze isWspByte sp l).length + 1 := by
    rw [relaxedLine_concat, List.length_append, List.length_singleton]
  have hshort : (relaxedLine l).length ≤ (squeeze isWspByte sp l).length :=
    (List.rdropWhile_prefix isWspByte _).length_le
  have hlf : ∀ {k : Bytes}, lf ∉ k → ∀ m ∈ (ls ++ [relaxedLine k]).rdropWhile List.isEmpty, lf ∉ m := by
    intro k hk m hm
    rcases List.mem_append.mp ((List.rdropWhile_prefix List.isEmpty _).subset hm) with hm | hm
    · exact hls m hm
    · rw [List.mem_singleton.mp hm]
      exact lf_not_mem_relaxedLine hk
  have hne : (relaxedLine (l ++ [cr])).isEmpty = false := by
    rw [relaxedLine_concat]
    simp
  intro h
  have heq := lines_inj (hlf hl) (hlf (by simp [hl])) h
  rw [List.rdropWhile_concat_neg List.isEmpty _ (relaxedLine (l ++ [cr])) (by simp [hne])] at heq
  rw [List.rdropWhile_concat] at heq
  split at heq
  · have hlen := (List.rdropWhile_prefix List.isEmpty ls).length_le
    rw [heq, List.length_append, List.length_singleton] at hlen
    omega
  · have hsame := congrArg List.length (List.singleton_inj.mp (List.append_cancel_left heq))
    omega

theorem getLast?_utf8_concat (text : Str) (c : Char) : (utf8 (text ++ [c])).getLast? = some cr ↔ c = '\r' := by
  rw [utf8_append, utf8_cons, utf8_nil, List.append_nil]
  constructor
  · intro h
    rw [List.getLast?_append_of_ne_nil _ String.utf8EncodeChar_ne_nil] at h
    have hmem : Char.ofNat cr.toNat ∈ [c] := mem_of_mem_utf8 (by
      rw [utf8, List.flatMap_singleton]
      exact List.mem_of_getLast? h) (by decide)
    exact (List.mem_singleton.mp hmem).symm
  · rintro rfl
    exact List.getLast?_concat

theorem getLast?_textLines {texts : List Str} : (utf8 (textLines texts)).getLast? ≠ some cr := by
  rw [utf8_textLines]
  rcases List.eq_nil_or_concat texts with rfl | ⟨front, text, rfl⟩
  · simp
  · simp

theorem canonicalizeBodyRelaxed_iff_ended {texts : List Str} {last : Str} (htexts : ∀ text ∈ texts, '\n' ∉ text)
    (hlast : '\n' ∉ last) :
    canonicalizeBodyRelaxed (utf8 (textLines texts ++ last)) = relaxedBody (utf8 (textLines texts ++ last)) ↔
      (utf8 (textLines texts ++ last)).getLast? ≠ some cr := by
  have hlf : ∀ {t : Str}, '\n' ∉ t → lf ∉ utf8 t := fun h hmem => h (mem_of_mem_utf8 hmem (by decide))
  rw [canonicalizeBodyRelaxed_textLines htexts hlast, relaxedBody_textLines htexts hlast, List.map_append,
    List.map_append, List.map_singleton, List.map_singleton, Function.comp_apply, Function.comp_apply]
  rcases List.eq_nil_or_concat last with rfl | ⟨text, c, rfl⟩
  · rw [List.append_nil]
    exact iff_of_true rfl getLast?_textLines
  · rw [List.concat_eq_append] at hlast ⊢
    rw [← List.append_assoc, Ne, getLast?_utf8_concat]
    by_cases hc : c = '\r'
    · rw [hc, stripReturn_concat]
      refine iff_of_false ?_ (by simp)
      have htext : '\n' ∉ text := fun h => hlast (List.mem_append_left _ h)
      have hls : ∀ m ∈ texts.map (relaxedLine ∘ utf8), lf ∉ m :=
        List.forall_mem_map.mpr fun t ht => lf_not_mem_relaxedLine (hlf (htexts t ht))
      rw [utf8_append]
      exact lines_concat_ne hls (hlf htext)
    · have hstrip : stripReturn (text ++ [c]) = text ++ [c] := by
        rw [stripReturn, List.getLast?_concat, if_neg (by simpa using hc)]
      rw [hstrip]
      exact iff_of_true rfl hc

/-- The code computes the relaxed form of a body exactly when the body is text, each LF in it follows a CR and no CR
ends it. -/
theorem canonicalizeBodyRelaxed_iff (body : Bytes) :
    canonicalizeBodyRelaxed body = relaxedBody body ↔ PlainBody body := by
  constructor
  · intro h
    have hutf8 : IsUtf8 body := by
      rw [← isUtf8_relaxedBody, ← h, canonicalizeBodyRelaxed_eq]
      exact isUtf8_utf8 _
    have hcrlf : lfAfterCr lf body = true := by
      rw [← lfAfterCr_relaxedBody, ← h]
      exact lfAfterCr_canonicalizeBodyRelaxed body
    obtain ⟨texts, last, rfl, htexts, hlast⟩ := exists_textLines hutf8 hcrlf
    exact ⟨hutf8, hcrlf, (canonicalizeBodyRelaxed_iff_ended htexts hlast).mp h⟩
  · rintro ⟨hutf8, hcrlf, hended⟩
    obtain ⟨texts, last, rfl, htexts, hlast⟩ := exists_textLines hutf8 hcrlf
    exact (canonicalizeBodyRelaxed_iff_ended htexts hlast).mpr hended

/-! ## Trimming -/

theorem isWhitespace_of_isWsp {c : Char} (h : isWsp c = true) : isWhitespace c = true := by
  rcases isWsp_iff.mp h with rfl | rfl <;> rfl

theorem dropWhile_dropWhile {α : Type} {p q : α → Bool} (h : ∀ a, p a = true → q a = true) (l : List α) :
    (l.dropWhile p).dropWhile q = l.dropWhile q := by
  induction l with
  | nil => rfl
  | cons a l ih =>
      rw [List.dropWhile_cons (p := p)]
      split
      · rename_i ha
        rw [ih, List.dropWhile_cons_of_pos (h a ha)]
      · rfl

theorem trim_eq_iff {s : Str} :
    trim s = s ↔
      (∀ c, s.head? = some c → isWhitespace c = false) ∧ ∀ c, s.getLast? = some c → isWhitespace c = false := by
  constructor
  · intro h
    have hlast : s.rdropWhile isWhitespace = s := by
      rw [← h]
      exact List.rdropWhile_idempotent _ _
    refine ⟨fun c hc => ?_, fun c hc => last_of_rdropWhile_eq_self hlast hc⟩
    have hfirst : s.dropWhile isWhitespace = s := by
      rw [← h]
      exact dropWhile_trimBoth isWhitespace s
    have hnot := List.head?_dropWhile_not isWhitespace s
    rw [hfirst, hc] at hnot
    simpa using hnot
  · rintro ⟨hfirst, hlast⟩
    have hdrop : s.dropWhile isWhitespace = s := by
      cases s with
      | nil => rfl
      | cons c s => exact List.dropWhile_cons_of_neg (by simp [hfirst c rfl])
    rw [trim, hdrop]
    exact rdropWhile_eq_self_of_last hlast

/-- A text without the spaces and tabs at its ends. -/
def trimWsp (s : Str) : Str := (s.rdropWhile isWsp).dropWhile isWsp

theorem trim_concat {c : Char} (hc : isWhitespace c = true) (s : Str) : trim (s ++ [c]) = trim s := by
  rw [trim, trim, List.dropWhile_append]
  split
  · rename_i hempty
    rw [List.isEmpty_iff.mp hempty, List.dropWhile_cons_of_pos hc]
    rfl
  · rw [List.rdropWhile_concat_pos _ _ _ hc]

theorem trim_rdropWhile (s : Str) : trim (s.rdropWhile isWsp) = trim s := by
  induction s using List.reverseRecOn with
  | nil => rfl
  | append_singleton s c ih =>
      rw [List.rdropWhile_concat]
      split
      · rename_i hc
        rw [ih, trim_concat (isWhitespace_of_isWsp hc)]
      · rfl

theorem trim_trimWsp (s : Str) : trim (trimWsp s) = trim s := by
  have hdrop : trim (trimWsp s) = trim (s.rdropWhile isWsp) := by
    rw [trim, trimWsp, dropWhile_dropWhile fun _ => isWhitespace_of_isWsp, trim]
  rw [hdrop, trim_rdropWhile]

theorem trim_trim (s : Str) : trim (trim s) = trim s := trimBoth_idem isWhitespace s

theorem trim_sublist (s : Str) : (trim s).Sublist s :=
  (List.rdropWhile_prefix isWhitespace _).sublist.trans (List.dropWhile_sublist _)

/-! ## Names -/

theorem lowerByte_of_le {b : UInt8} (h : 0x80 ≤ b.toNat) : lowerByte b = b := if_neg (by omega)

theorem map_lowerByte_encode (c : Char) :
    (String.utf8EncodeChar c).map lowerByte = String.utf8EncodeChar c.toLower := by
  by_cases h : c.toNat < 0x80
  · have htable : ∀ n < 0x80, (Char.ofNat n).toLower.toNat < 0x80 ∧
        lowerByte (UInt8.ofNat n) = UInt8.ofNat (Char.ofNat n).toLower.toNat := by decide
    obtain ⟨hlower, hbyte⟩ := htable c.toNat h
    rw [Char.ofNat_toNat] at hlower hbyte
    rw [utf8EncodeChar_ascii h, utf8EncodeChar_ascii hlower, List.map_singleton, hbyte]
  · rw [toLower_of_le (Nat.not_lt.mp h)]
    refine (List.map_congr_left fun b hb => ?_).trans (List.map_id' _)
    exact lowerByte_of_le (le_of_mem_utf8EncodeChar (Nat.not_lt.mp h) hb)

theorem map_lowerByte_utf8 (s : Str) : (utf8 s).map lowerByte = utf8 (toAsciiLowercase s) := by
  induction s with
  | nil => rfl
  | cons c s ih => rw [utf8_cons, List.map_append, map_lowerByte_encode, ih, toAsciiLowercase, toAsciiLowercase,
      List.map_cons, utf8_cons]

theorem isUtf8_append_lower (front l : Bytes) : IsUtf8 (front ++ l.map lowerByte) ↔ IsUtf8 (front ++ l) := by
  induction l generalizing front with
  | nil => rfl
  | cons b l ih =>
      rw [List.map_cons]
      by_cases hb : b.toNat < 0x80
      · have htable : ∀ n < 0x80, (lowerByte (UInt8.ofNat n)).toNat < 0x80 := by decide
        have hlower := htable b.toNat hb
        rw [UInt8.ofNat_toNat] at hlower
        rw [isUtf8_append_cons hlower, isUtf8_append_cons hb, ← List.nil_append (l.map lowerByte), ih, List.nil_append]
      · rw [lowerByte_of_le (Nat.not_lt.mp hb)]
        have h := ih (front ++ [b])
        simpa only [List.append_assoc, List.singleton_append] using h

theorem isUtf8_map_lowerByte (l : Bytes) : IsUtf8 (l.map lowerByte) ↔ IsUtf8 l := isUtf8_append_lower [] l

theorem toAsciiLowercase_trim_eq_iff (s : Str) :
    toAsciiLowercase (trim s) = toAsciiLowercase (s.rdropWhile isWsp) ↔ trim s = s.rdropWhile isWsp := by
  constructor
  · intro h
    have hlen := congrArg List.length h
    rw [toAsciiLowercase, toAsciiLowercase, List.length_map, List.length_map] at hlen
    rw [← trim_rdropWhile] at hlen ⊢
    exact (trim_sublist _).eq_of_length hlen
  · intro h
    rw [h]

theorem isWhitespace_toLower (c : Char) : isWhitespace c.toLower = isWhitespace c := by
  by_cases h : c.toNat < 0x80
  · have htable : ∀ n < 0x80, isWhitespace (Char.ofNat n).toLower = isWhitespace (Char.ofNat n) := by decide
    have hc := htable c.toNat h
    rwa [Char.ofNat_toNat] at hc
  · rw [toLower_of_le (Nat.not_lt.mp h)]

theorem trim_toAsciiLowercase (s : Str) : trim (toAsciiLowercase s) = toAsciiLowercase (trim s) := by
  have hcomp : isWhitespace ∘ Char.toLower = isWhitespace := funext isWhitespace_toLower
  rw [trim, trim, toAsciiLowercase, toAsciiLowercase, List.dropWhile_map, hcomp, List.rdropWhile, List.rdropWhile,
    ← List.map_reverse, List.dropWhile_map, hcomp, List.map_reverse]

/-! ## Values -/

def isLineEnd (b : UInt8) : Bool := b == cr || b == lf

theorem isUtf8_append_unfoldValue (front value : Bytes) :
    IsUtf8 (front ++ unfoldValue value) ↔ IsUtf8 (front ++ value) := by
  fun_induction unfoldValue value generalizing front with
  | case1 => rfl
  | case2 => rfl
  | case3 => rfl
  | case4 b c d after h ih =>
      obtain ⟨rfl, rfl, hd⟩ := h
      rw [isUtf8_append_cons (lt_of_isWspByte hd), isUtf8_append_cons (by decide), isUtf8_cons (by decide),
        isUtf8_cons (lt_of_isWspByte hd), ← List.nil_append (unfoldValue after), ih, List.nil_append]
  | case5 b c d after h ih =>
      have hb := ih (front ++ [b])
      simpa only [List.append_assoc, List.singleton_append] using hb

theorem isUtf8_unfoldValue (value : Bytes) : IsUtf8 (unfoldValue value) ↔ IsUtf8 value :=
  isUtf8_append_unfoldValue [] value

theorem filter_unfoldValue (value : Bytes) :
    (unfoldValue value).filter (fun b => !isLineEnd b) = value.filter fun b => !isLineEnd b := by
  fun_induction unfoldValue value with
  | case1 => rfl
  | case2 => rfl
  | case3 => rfl
  | case4 b c d after h ih =>
      obtain ⟨rfl, rfl, hd⟩ := h
      have hends : (!isLineEnd cr) = false ∧ (!isLineEnd lf) = false := ⟨rfl, rfl⟩
      simp only [List.filter_cons, ih, hends, Bool.false_eq_true, if_false]
  | case5 b c d after h ih => rw [List.filter_cons (x := b), ih, List.filter_cons (x := b)]

theorem filter_utf8 (s : Str) :
    (utf8 s).filter (fun b => !isLineEnd b) = utf8 (s.filter fun c => c != '\r' && c != '\n') := by
  induction s with
  | nil => rfl
  | cons c s ih =>
      rw [utf8_cons, List.filter_append, ih]
      by_cases hc : c = '\r' ∨ c = '\n'
      · rcases hc with rfl | rfl
        · rfl
        · rfl
      · have hkeep : (c != '\r' && c != '\n') = true := by simpa using hc
        have hall : ∀ b ∈ String.utf8EncodeChar c, (!isLineEnd b) = true := by
          intro b hb
          rw [Bool.not_eq_true', Bool.eq_false_iff]
          intro hend
          have hend : b = cr ∨ b = lf := by simpa [isLineEnd] using hend
          have hlt : b.toNat < 0x80 := by rcases hend with rfl | rfl <;> decide
          have hmem : Char.ofNat b.toNat ∈ [c] := mem_of_mem_utf8 (by rwa [utf8, List.flatMap_singleton]) hlt
          refine hc ?_
          rw [← List.mem_singleton.mp hmem]
          rcases hend with rfl | rfl
          · exact .inl rfl
          · exact .inr rfl
        rw [List.filter_eq_self.mpr hall, List.filter_cons, if_pos hkeep, utf8_cons]

/-- The value that receivers compute, of the text of an unfolded value. -/
theorem relaxedLine_dropWhile_utf8 (text : Str) :
    (relaxedLine (utf8 text)).dropWhile isWspByte = utf8 (squeeze isWsp ' ' (trimWsp text)) := by
  have hblank : isWsp ' ' = true := rfl
  rw [← utf8_compressWsp, dropWhile_utf8, compressWsp_eq, rdropWhile_squeeze hblank, dropWhile_squeeze hblank, trimWsp]

theorem trim_compressWsp (text : Str) : trim (compressWsp text) = trim (squeeze isWsp ' ' (trimWsp text)) := by
  have hblank : isWsp ' ' = true := rfl
  rw [compressWsp_eq, rdropWhile_squeeze hblank, trimWsp, ← dropWhile_squeeze hblank, trim, trim,
    dropWhile_dropWhile fun _ => isWhitespace_of_isWsp]

theorem head?_trimWsp (s : Str) : ∀ c, (trimWsp s).head? = some c → isWsp c = false := by
  intro c hc
  have hnot := List.head?_dropWhile_not isWsp (s.rdropWhile isWsp)
  rw [← trimWsp, hc] at hnot
  simpa using hnot

theorem getLast?_trimWsp (s : Str) : ∀ c, (trimWsp s).getLast? = some c → isWsp c = false := by
  intro c hc
  refine last_of_rdropWhile_eq_self (List.rdropWhile_idempotent isWsp s) ?_
  obtain ⟨front, hfront⟩ := List.dropWhile_suffix (l := s.rdropWhile isWsp) isWsp
  rw [← hfront, List.getLast?_append, ← trimWsp, hc]
  rfl

/-- Nothing but spaces and tabs is trimmed of the reduced text exactly when nothing else is trimmed of the text. -/
theorem trim_squeeze_iff (text : Str) :
    trim (squeeze isWsp ' ' (trimWsp text)) = squeeze isWsp ' ' (trimWsp text) ↔ trim text = trimWsp text := by
  have hhead : (squeeze isWsp ' ' (trimWsp text)).head? = (trimWsp text).head? := by
    cases hm : trimWsp text with
    | nil => rfl
    | cons c rest => exact head?_squeeze (head?_trimWsp text c (by rw [hm]; rfl))
  have hlast : (squeeze isWsp ' ' (trimWsp text)).getLast? = (trimWsp text).getLast? := by
    rcases List.eq_nil_or_concat (trimWsp text) with hm | ⟨front, c, hm⟩
    · rw [hm]
      rfl
    · rw [List.concat_eq_append] at hm
      have hc : isWsp c = false := getLast?_trimWsp text c (by rw [hm, List.getLast?_concat])
      rw [hm, squeeze_concat_of_neg hc, List.getLast?_concat, List.getLast?_concat]
  rw [← trim_trimWsp text, trim_eq_iff, trim_eq_iff, hhead, hlast]

/-! ## The header -/

/-- A field whose relaxed form the code computes as receivers do. -/
structure PlainField (name value : Bytes) : Prop where
  nameUtf8 : IsUtf8 name
  valueUtf8 : IsUtf8 value
  name : trim (fromUtf8Lossy name) = (fromUtf8Lossy name).rdropWhile isWsp
  unfolded : ∀ b ∈ unfoldValue value, isLineEnd b = false
  ends : trim (fromUtf8Lossy (unfoldValue value)) = trimWsp (fromUtf8Lossy (unfoldValue value))

theorem isUtf8_relaxedHeader (name value : Bytes) : IsUtf8 (relaxedHeader name value) ↔ IsUtf8 name ∧ IsUtf8 value := by
  rw [relaxedHeader, isUtf8_append_cons (by decide), isUtf8_map_lowerByte, isUtf8_rdropWhile, isUtf8_dropWhile,
    isUtf8_relaxedLine, isUtf8_unfoldValue]

/-- The value without line ends, as the code has it before it is compressed. -/
def joined (value : Str) : Str := value.filter fun c => c != '\r' && c != '\n'

theorem canonicalizeHeaderRelaxed_eq (name value : Str) : canonicalizeHeaderRelaxed name value =
    toAsciiLowercase (trim name) ++ ':' :: trim (compressWsp (joined value)) := rfl

theorem joined_of_unfolded {value text : Str} (h : ∀ b ∈ unfoldValue (utf8 value), isLineEnd b = false)
    (htext : utf8 text = unfoldValue (utf8 value)) : joined value = text := by
  have hfilter := filter_unfoldValue (utf8 value)
  rw [List.filter_eq_self.mpr fun b hb => by rw [h b hb]; rfl, filter_utf8, ← htext] at hfilter
  have hsome := congrArg fromUtf8 hfilter
  rw [fromUtf8_utf8, fromUtf8_utf8] at hsome
  exact (Option.some.inj hsome).symm

theorem keep_of_mem_value {value : Str} {c : Char} (h : c ∈ trim (compressWsp (joined value))) :
    (c != '\r' && c != '\n') = true := by
  cases hc : isWsp c with
  | true => rcases isWsp_iff.mp hc with rfl | rfl <;> rfl
  | false => exact (List.mem_filter.mp (mem_of_mem_compressWsp hc ((trim_sublist _).subset h))).2

theorem not_lineEnd_of_mem_value {value : Str} {b : UInt8} (h : b ∈ utf8 (trim (compressWsp (joined value)))) :
    isLineEnd b = false := by
  rw [Bool.eq_false_iff]
  intro hend
  have hend : b = cr ∨ b = lf := by simpa [isLineEnd] using hend
  have hlt : b.toNat < 0x80 := by rcases hend with rfl | rfl <;> decide
  have hkeep := keep_of_mem_value (mem_of_mem_utf8 h hlt)
  rcases hend with rfl | rfl <;> cases hkeep

theorem lineEnd_mem_relaxed {b : UInt8} {value : Bytes} (hb : isLineEnd b = true) (h : b ∈ value) :
    b ∈ (relaxedLine value).dropWhile isWspByte := by
  have hblank : isWspByte b = false := by
    have hend : b = cr ∨ b = lf := by simpa [isLineEnd] using hb
    rcases hend with rfl | rfl <;> rfl
  exact mem_dropWhile hblank (mem_rdropWhile hblank (mem_squeeze hblank h))

/-- The value that the code computes is the receivers' one exactly when the unfolded value has no line end left and
nothing but spaces and tabs is trimmed of it. -/
theorem value_iff {value text : Str} (htext : utf8 text = unfoldValue (utf8 value)) :
    utf8 (trim (compressWsp (joined value))) = (relaxedLine (unfoldValue (utf8 value))).dropWhile isWspByte ↔
      (∀ b ∈ unfoldValue (utf8 value), isLineEnd b = false) ∧ trim text = trimWsp text := by
  have hwhen : (∀ b ∈ unfoldValue (utf8 value), isLineEnd b = false) →
      (utf8 (trim (compressWsp (joined value))) = (relaxedLine (unfoldValue (utf8 value))).dropWhile isWspByte ↔
        trim text = trimWsp text) := by
    intro hplain
    rw [joined_of_unfolded hplain htext, ← htext, relaxedLine_dropWhile_utf8, trim_compressWsp, ← trim_squeeze_iff]
    constructor
    · intro h
      have hsome := congrArg fromUtf8 h
      rw [fromUtf8_utf8, fromUtf8_utf8] at hsome
      exact Option.some.inj hsome
    · intro h
      rw [h]
  constructor
  · intro h
    have hplain : ∀ b ∈ unfoldValue (utf8 value), isLineEnd b = false := by
      intro b hb
      rw [Bool.eq_false_iff]
      intro hend
      have hmem := lineEnd_mem_relaxed hend hb
      rw [← h] at hmem
      rw [not_lineEnd_of_mem_value hmem] at hend
      cases hend
    exact ⟨hplain, (hwhen hplain).mp h⟩
  · rintro ⟨hplain, hends⟩
    exact (hwhen hplain).mpr hends

theorem append_colon_inj {a a' b b' : Bytes} (ha : (0x3A : UInt8) ∉ a) (ha' : (0x3A : UInt8) ∉ a') :
    a ++ 0x3A :: b = a' ++ 0x3A :: b' ↔ a = a' ∧ b = b' := by
  constructor
  · intro h
    have hsplit := congrArg (splitOnce 0x3A) h
    rw [splitOnce_append ha, splitOnce_append ha', Option.some.injEq, Prod.mk.injEq] at hsplit
    exact hsplit
  · rintro ⟨rfl, rfl⟩
    rfl

theorem colon_not_mem_lower {s : Str} (h : ':' ∉ s) : ':' ∉ toAsciiLowercase s := by
  intro hmem
  obtain ⟨c, hc, hlower⟩ := List.mem_map.mp hmem
  rw [(toLower_eq_iff (by decide)).mp hlower] at hc
  exact h hc

/-- The code computes the relaxed form of a field exactly when the field is text, no line end is left in its unfolded
value, and no white space but spaces and tabs stands around its name or its value. -/
theorem canonicalizeHeaderRelaxed_iff {name value : Bytes} (hname : 0x3A ∉ name) :
    utf8 (canonicalizeHeaderRelaxed (fromUtf8Lossy name) (fromUtf8Lossy value)) = relaxedHeader name value ↔
      PlainField name value := by
  have htexts : ∀ {name value : Str}, ':' ∉ name →
      (utf8 (canonicalizeHeaderRelaxed name value) = relaxedHeader (utf8 name) (utf8 value) ↔
        trim name = name.rdropWhile isWsp ∧
          utf8 (trim (compressWsp (joined value))) = (relaxedLine (unfoldValue (utf8 value))).dropWhile isWspByte) := by
    intro name value hname
    have hcolon : ∀ {s : Str}, s ⊆ name → (0x3A : UInt8) ∉ utf8 (toAsciiLowercase s) := by
      intro s hs hmem
      exact colon_not_mem_lower (fun h => hname (hs h)) (mem_of_mem_utf8 hmem (by decide))
    rw [canonicalizeHeaderRelaxed_eq, relaxedHeader, utf8_append, utf8_cons, rdropWhile_utf8, map_lowerByte_utf8,
      utf8EncodeChar_ascii (by decide), List.singleton_append]
    refine (append_colon_inj (hcolon (trim_sublist name).subset)
      (hcolon (List.rdropWhile_prefix isWsp name).subset)).trans (and_congr_left' ?_)
    rw [← toAsciiLowercase_trim_eq_iff]
    constructor
    · intro h
      have hsome := congrArg fromUtf8 h
      rw [fromUtf8_utf8, fromUtf8_utf8] at hsome
      exact Option.some.inj hsome
    · intro h
      rw [h]
  have hcolon : ∀ {s : Str}, (0x3A : UInt8) ∉ utf8 s → ':' ∉ s := fun h hmem => h (mem_utf8_of_mem hmem (by decide))
  constructor
  · intro h
    obtain ⟨⟨s, rfl⟩, ⟨t, rfl⟩⟩ := (isUtf8_relaxedHeader name value).mp (by rw [← h]; exact isUtf8_utf8 _)
    obtain ⟨text, htext⟩ := (isUtf8_unfoldValue (utf8 t)).mpr (isUtf8_utf8 t)
    rw [fromUtf8Lossy_utf8, fromUtf8Lossy_utf8, htexts (hcolon hname), value_iff htext] at h
    refine ⟨isUtf8_utf8 s, isUtf8_utf8 t, ?_, h.2.1, ?_⟩
    · rw [fromUtf8Lossy_utf8]
      exact h.1
    · rw [← htext, fromUtf8Lossy_utf8]
      exact h.2.2
  · rintro ⟨⟨s, rfl⟩, ⟨t, rfl⟩, htrim, hplain, hends⟩
    obtain ⟨text, htext⟩ := (isUtf8_unfoldValue (utf8 t)).mpr (isUtf8_utf8 t)
    rw [fromUtf8Lossy_utf8] at htrim
    rw [← htext, fromUtf8Lossy_utf8] at hends
    rw [fromUtf8Lossy_utf8, fromUtf8Lossy_utf8, htexts (hcolon hname), value_iff htext]
    exact ⟨htrim, hplain, hends⟩

/-- The relaxed form of a field is its own. -/
theorem canonicalizeHeaderRelaxed_idem (name value : Str) :
    canonicalizeHeaderRelaxed (toAsciiLowercase (trim name)) (trim (compressWsp (joined value))) =
      canonicalizeHeaderRelaxed name value := by
  have hblank : isWsp ' ' = true := rfl
  have hjoined : joined (trim (compressWsp (joined value))) = trim (compressWsp (joined value)) :=
    List.filter_eq_self.mpr fun _ => keep_of_mem_value
  have hsqueezed : squeeze isWsp ' ' (trim (compressWsp (joined value))) = trim (compressWsp (joined value)) := by
    rw [trim]
    refine squeeze_rdropWhile_of_eq (squeeze_dropWhile_of_eq ?_)
    rw [compressWsp_eq, ← rdropWhile_squeeze hblank, squeeze_squeeze hblank]
  rw [canonicalizeHeaderRelaxed_eq, canonicalizeHeaderRelaxed_eq, hjoined, compressWsp_eq, hsqueezed, trim_rdropWhile,
    trim_toAsciiLowercase, toAsciiLowercase_idem, trim_trim, trim_trim]

/-- The relaxed forms are the receivers' ones exactly on plain bodies and fields, and are their own relaxed forms. -/
theorem relaxed_forms (body : Bytes) :
    (canonicalizeBodyRelaxed body = relaxedBody body ↔ PlainBody body) ∧
    canonicalizeBodyRelaxed (canonicalizeBodyRelaxed body) = canonicalizeBodyRelaxed body ∧
    (∀ name value : Bytes, 0x3A ∉ name →
      (utf8 (canonicalizeHeaderRelaxed (fromUtf8Lossy name) (fromUtf8Lossy value)) = relaxedHeader name value ↔
        PlainField name value)) ∧
    ∀ name value : Str, ':' ∉ name → ∃ n v, splitOnce ':' (canonicalizeHeaderRelaxed name value) = some (n, v) ∧
      canonicalizeHeaderRelaxed n v = canonicalizeHeaderRelaxed name value := by
  refine ⟨canonicalizeBodyRelaxed_iff body, canonicalizeBodyRelaxed_idem body, fun _ _ => canonicalizeHeaderRelaxed_iff,
    fun name value hname => ⟨_, _, splitOnce_append ?_, canonicalizeHeaderRelaxed_idem name value⟩⟩
  exact colon_not_mem_lower fun h => hname ((trim_sublist name).subset h)

/-- A letter of another encoding, a line feed alone, and a value with a no-break space at its end. -/
theorem relaxed_forms_differ :
    canonicalizeBodyRelaxed [0xE9] ≠ relaxedBody [0xE9] ∧
    canonicalizeBodyRelaxed [0x61, 0x0A, 0x62] ≠ relaxedBody [0x61, 0x0A, 0x62] ∧
    utf8 (canonicalizeHeaderRelaxed ['A'] ['b', Char.ofNat 0xA0]) ≠
      relaxedHeader (utf8 ['A']) (utf8 ['b', Char.ofNat 0xA0]) := by
  refine ⟨?_, ?_, ?_⟩
  · decide +kernel
  · decide +kernel
  · decide +kernel

-- The worked example of section 3.4.5.
example : canonicalizeBodyRelaxed (utf8 " C \r\nD \t E\r\n\r\n\r\n".toList) = utf8 " C\r\nD E\r\n".toList := by
  decide +kernel

end Selfhost.Mail
