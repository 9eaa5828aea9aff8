import Mathlib.Data.List.Forall2
import Selfhost.Http.Request

/-!
# What a parsed head is made of

One lemma for each function of the parser, in both directions where the writer of a head needs the other
one: the request line, a field line, the loop over the fields, the lines of a head and the whole head.
-/

namespace Selfhost.Http

open Selfhost.Lib

/-! ## Fields -/

theorem isTokenByte_ne {b : UInt8} (h : isTokenByte b = true) :
    b ≠ cr ∧ b ≠ lf ∧ b ≠ 0x3A ∧ isOws b = false := by
  refine ⟨?_, ?_, ?_, ?_⟩
  · rintro rfl
    exact absurd h (by decide)
  · rintro rfl
    exact absurd h (by decide)
  · rintro rfl
    exact absurd h (by decide)
  · by_contra hb
    simp only [isOws, Bool.not_eq_false, Bool.or_eq_true, beq_iff_eq] at hb
    rcases hb with rfl | rfl
    · exact absurd h (by decide)
    · exact absurd h (by decide)

theorem isMethodByte_ne {b : UInt8} (h : isMethodByte b = true) : b ≠ cr ∧ b ≠ lf ∧ b ≠ sp := by
  refine ⟨?_, ?_, ?_⟩
  · rintro rfl
    exact absurd h (by decide)
  · rintro rfl
    exact absurd h (by decide)
  · rintro rfl
    exact absurd h (by decide)

namespace Header

variable (f : Header)

theorem name_ne_nil : f.name ≠ [] := by
  have h := f.name_token
  simp only [isTokenName, Bool.and_eq_true, Bool.not_eq_true', List.isEmpty_eq_false_iff] at h
  exact h.1

theorem isTokenByte_of_mem {b : UInt8} (hb : b ∈ utf8 f.name) : isTokenByte b = true := by
  have h := f.name_token
  simp only [isTokenName, Bool.and_eq_true, List.all_eq_true] at h
  exact h.2 b hb

theorem not_mem_value : cr ∉ f.value ∧ lf ∉ f.value := by
  have h := f.value_plain
  simp only [isFieldValue, List.all_eq_true, Bool.and_eq_true, bne_iff_ne] at h
  exact ⟨fun hm => (h _ hm).1.1 rfl, fun hm => (h _ hm).1.2 rfl⟩

theorem new_ok {name : Str} {value : Bytes} {f : Header} (h : Header.new name value = .ok f) :
    f.name = name ∧ f.value = value := by
  unfold Header.new at h
  split at h
  · split at h
    · cases h
      exact ⟨rfl, rfl⟩
    · cases h
  · cases h

end Header

/-! ## Text as a field value -/

theorem le_of_mem_encode {c : Char} {b : UInt8} (h : 0x21 ≤ c.toNat) (hb : b ∈ String.utf8EncodeChar c) :
    0x21 ≤ b.toNat := by
  by_cases hc : c.toNat < 0x80
  · rw [utf8EncodeChar_ascii hc, List.mem_singleton] at hb
    rw [hb, UInt8.toNat_ofNat']
    omega
  · have := le_of_mem_utf8EncodeChar (by omega) hb
    omega

theorem isOws_eq_false {b : UInt8} (h : 0x21 ≤ b.toNat) : isOws b = false := by
  simp only [isOws, Bool.or_eq_false_iff, beq_eq_false_iff_ne]
  constructor
  · rintro rfl
    exact absurd h (by decide)
  · rintro rfl
    exact absurd h (by decide)

theorem trimOws_eq_self {b : Bytes} (hfirst : ∀ c, b.head? = some c → isOws c = false)
    (hlast : ∀ c, b.getLast? = some c → isOws c = false) : trimOws b = b := by
  have hdrop : b.dropWhile isOws = b := by
    cases b with
    | nil => rfl
    | cons c b => exact List.dropWhile_cons_of_neg (by simp [hfirst c rfl])
  rw [trimOws, hdrop]
  exact rdropWhile_eq_self_of_last hlast

theorem isFieldValue_utf8 {s : Str} (h : FieldText s) : isFieldValue (utf8 s) = true := by
  simp only [isFieldValue, List.all_eq_true, Bool.and_eq_true, bne_iff_ne]
  intro b hb
  obtain ⟨c, hc, hbc⟩ := List.mem_flatMap.mp hb
  have hle : b = sp ∨ 0x21 ≤ b.toNat := by
    rcases h.chars c hc with rfl | hle
    · exact Or.inl (List.mem_singleton.mp hbc)
    · exact Or.inr (le_of_mem_encode hle hbc)
  rcases hle with rfl | hle
  · decide
  · refine ⟨⟨?_, ?_⟩, ?_⟩
    · rintro rfl
      exact absurd hle (by decide)
    · rintro rfl
      exact absurd hle (by decide)
    · rintro rfl
      exact absurd hle (by decide)

theorem trimOws_utf8 {s : Str} (h : FieldText s) : trimOws (utf8 s) = utf8 s := by
  refine trimOws_eq_self ?_ ?_
  · intro b hb
    cases s with
    | nil => cases hb
    | cons c s =>
        rw [utf8_cons, List.head?_append_of_ne_nil _ (by simp)] at hb
        exact isOws_eq_false (le_of_mem_encode (h.first c rfl) (List.mem_of_head? hb))
  · intro b hb
    rcases List.eq_nil_or_concat s with rfl | ⟨s, c, rfl⟩
    · cases hb
    · rw [List.concat_eq_append] at h hb
      rw [utf8_append, utf8_cons, utf8_nil, List.append_nil, List.getLast?_append_of_ne_nil _ (by simp)] at hb
      exact isOws_eq_false (le_of_mem_encode (h.last c (by simp)) (List.mem_of_getLast? hb))

/-! ## The request line -/

theorem Method.asStr_parse (token : Str) : (Method.parse token).asStr = token := by
  unfold Method.parse
  iterate 9 refine iteInduction (motive := fun method : Method => method.asStr = token) Eq.symm fun _ => ?_
  rfl

/-- A method token and a target that a request line can hold. -/
structure LineParts (method : Method) (target : Str) (minor : Nat) : Prop where
  method_ne : method.asStr ≠ []
  method_bytes : (utf8 method.asStr).all isMethodByte = true
  method_parse : Method.parse method.asStr = method
  target_ne : target ≠ []
  target_space : ' ' ∉ target
  minor_le : minor ≤ 1

/-- A request line without its CRLF. -/
def requestLine (method : Method) (target : Str) (minor : Nat) : Bytes :=
  utf8 (method.asStr ++ ' ' :: target ++ ' ' :: if minor = 0 then http10 else http11)

theorem parseVersion_ok {version : Str} {minor : Nat} (h : parseVersion version = .ok minor) :
    minor ≤ 1 ∧ version = if minor = 0 then http10 else http11 := by
  unfold parseVersion at h
  split at h
  · cases h
    simpa
  · split at h
    · cases h
      simpa
    · split at h <;> cases h

theorem parseVersion_of_le {minor : Nat} (h : minor ≤ 1) :
    parseVersion (if minor = 0 then http10 else http11) = .ok minor := by
  rcases Nat.le_one_iff_eq_zero_or_eq_one.mp h with rfl | rfl
  · rfl
  · rfl

theorem not_space_of_isMethodByte {s : Str} (h : (utf8 s).all isMethodByte = true) : ' ' ∉ s := by
  intro hm
  have hb := mem_utf8_of_mem hm (by decide)
  rw [List.all_eq_true] at h
  exact (isMethodByte_ne (h _ hb)).2.2 rfl

theorem parseRequestLine_ok {line : Bytes} {method : Method} {target : Str} {minor : Nat}
    (h : parseRequestLine line = .ok (method, target, minor)) :
    LineParts method target minor ∧ line = requestLine method target minor := by
  unfold parseRequestLine at h
  split at h
  · cases h
  · rename_i text htext
    split at h
    · rename_i token target' version hsplit
      split at h
      · cases h
      · rename_i hne
        rw [not_or] at hne
        split at h
        · cases h
        · rename_i hbytes
          simp only [Bool.not_eq_true', Bool.not_eq_false] at hbytes
          have htarget : ' ' ∉ target' := not_mem_of_mem_splitOn (by rw [hsplit]; simp)
          cases hv : parseVersion version with
          | error e =>
              rw [hv] at h
              cases h
          | ok v =>
              rw [hv] at h
              cases h
              obtain ⟨hle, rfl⟩ := parseVersion_ok hv
              have hjoin := @List.intercalate_splitOn _ text _ _ ' '
              rw [hsplit] at hjoin
              refine ⟨⟨?_, ?_, ?_, hne.2, htarget, hle⟩, ?_⟩
              · rw [Method.asStr_parse]
                exact hne.1
              · rw [Method.asStr_parse]
                exact hbytes
              · rw [Method.asStr_parse]
              · rw [requestLine, Method.asStr_parse, ← utf8_of_fromUtf8 htext, ← hjoin]
                simp [List.intercalate]
    · cases h

theorem parseRequestLine_requestLine {method : Method} {target : Str} {minor : Nat}
    (h : LineParts method target minor) :
    parseRequestLine (requestLine method target minor) = .ok (method, target, minor) := by
  have hversion : ' ' ∉ (if minor = 0 then http10 else http11) := by
    split <;> decide
  have hsplit : (method.asStr ++ ' ' :: target ++ ' ' :: if minor = 0 then http10 else http11).splitOn ' ' =
      [method.asStr, target, if minor = 0 then http10 else http11] := by
    rw [List.append_assoc, List.cons_append,
      List.splitOn_append_cons_self_of_not_mem (not_space_of_isMethodByte h.method_bytes),
      List.splitOn_append_cons_self_of_not_mem h.target_space, List.splitOn_eq_singleton hversion]
  unfold parseRequestLine requestLine
  rw [fromUtf8_utf8]
  simp only [hsplit, h.method_ne, h.target_ne, or_self, if_false, h.method_bytes, Bool.not_true,
    Bool.false_eq_true, parseVersion_of_le h.minor_le, Except.map, h.method_parse]

/-! ## Field lines -/

theorem trimOws_append (b : Bytes) :
    ∃ before after, b = before ++ trimOws b ++ after ∧ (∀ c ∈ before, isOws c = true) ∧
      ∀ c ∈ after, isOws c = true := by
  refine ⟨b.takeWhile isOws, (b.dropWhile isOws).rtakeWhile isOws, ?_, ?_, ?_⟩
  · rw [List.append_assoc, trimOws, List.rdropWhile_append_rtakeWhile, List.takeWhile_append_dropWhile]
  · exact fun c hc => List.mem_takeWhile_imp hc
  · exact fun c hc => List.mem_rtakeWhile_imp hc

theorem trimOws_trimOws (b : Bytes) : trimOws (trimOws b) = trimOws b := trimBoth_idem isOws b

/-- A line that reads as a field: its name, a colon, and the value between spaces and tabs. -/
def FieldLine (line : Bytes) (f : Header) : Prop :=
  ∃ before after, line = utf8 f.name ++ 0x3A :: (before ++ f.value ++ after) ∧
    (∀ c ∈ before, isOws c = true) ∧ ∀ c ∈ after, isOws c = true

theorem parseHeaderLine_ok {line : Bytes} {f : Header} (h : parseHeaderLine line = .ok f) :
    FieldLine line f ∧ trimOws f.value = f.value := by
  unfold parseHeaderLine at h
  split at h
  · cases h
  · rename_i rawName rawValue hcolon
    split at h
    · cases h
    · rename_i name hname
      split at h
      · cases h
      · cases hf : Header.new name (trimOws rawValue) with
        | error e =>
            rw [hf] at h
            cases h
        | ok g =>
            rw [hf] at h
            cases h
            obtain ⟨hn, hv⟩ := Header.new_ok hf
            obtain ⟨before, after, hraw, hbefore, hafter⟩ := trimOws_append rawValue
            obtain ⟨rfl, -⟩ := splitOnce_some hcolon
            refine ⟨⟨before, after, ?_, hbefore, hafter⟩, ?_⟩
            · rw [hn, hv, utf8_of_fromUtf8 hname, ← hraw]
            · rw [hv, trimOws_trimOws]

/-- The line a field is written as reads back as that field. -/
theorem isFieldValue_trimOws {b : Bytes} (h : isFieldValue b = true) : isFieldValue (trimOws b) = true := by
  obtain ⟨before, after, hb, -, -⟩ := trimOws_append b
  simp only [isFieldValue, List.all_eq_true] at h ⊢
  exact fun c hc => h c (hb ▸ List.mem_append_left _ (List.mem_append_right _ hc))

/-- Every field that is written reads as a field, without the white space around its value. -/
theorem parseHeaderLine_trimmed (f : Header) :
    parseHeaderLine f.line = .ok ⟨f.name, trimOws f.value, f.name_token, isFieldValue_trimOws f.value_plain⟩ := by
  have hcolon : (0x3A : UInt8) ∉ utf8 f.name := fun hm => (isTokenByte_ne (f.isTokenByte_of_mem hm)).2.2.1 rfl
  have hline : f.line = utf8 f.name ++ 0x3A :: (sp :: f.value) := by
    rw [Header.line, List.append_assoc]
    rfl
  have hlast : ¬ (f.name.getLast? = some ' ' ∨ f.name.getLast? = some '\t') := by
    rintro (hl | hl)
    · have hm := mem_utf8_of_mem (List.mem_of_getLast? hl) (by decide)
      exact absurd (isTokenByte_ne (f.isTokenByte_of_mem hm)).2.2.2 (by decide)
    · have hm := mem_utf8_of_mem (List.mem_of_getLast? hl) (by decide)
      exact absurd (isTokenByte_ne (f.isTokenByte_of_mem hm)).2.2.2 (by decide)
  have htrim : trimOws (sp :: f.value) = trimOws f.value := by
    unfold trimOws
    rw [List.dropWhile_cons_of_pos (by decide)]
  unfold parseHeaderLine
  rw [hline, splitOnce_append hcolon]
  simp only [fromUtf8_utf8, hlast, if_false, htrim, Header.new, dif_pos f.name_token,
    dif_pos (isFieldValue_trimOws f.value_plain)]
  rfl

theorem parseHeaderLine_line {f : Header} (h : trimOws f.value = f.value) : parseHeaderLine f.line = .ok f := by
  rw [parseHeaderLine_trimmed]
  congr 1
  ext1
  · rfl
  · exact h

theorem FieldLine.not_mem {line : Bytes} {f : Header} (h : FieldLine line f) : cr ∉ line ∧ lf ∉ line := by
  obtain ⟨before, after, rfl, hbefore, hafter⟩ := h
  have hname : ∀ b ∈ utf8 f.name, b ≠ cr ∧ b ≠ lf := fun b hb =>
    ⟨(isTokenByte_ne (f.isTokenByte_of_mem hb)).1, (isTokenByte_ne (f.isTokenByte_of_mem hb)).2.1⟩
  have hcr : isOws cr ≠ true := by decide
  have hlf : isOws lf ≠ true := by decide
  constructor
  · intro hm
    simp only [List.mem_append, List.mem_cons] at hm
    rcases hm with hm | hm | (hm | hm) | hm
    · exact (hname _ hm).1 rfl
    · exact absurd hm (by decide)
    · exact hcr (hbefore _ hm)
    · exact f.not_mem_value.1 hm
    · exact hcr (hafter _ hm)
  · intro hm
    simp only [List.mem_append, List.mem_cons] at hm
    rcases hm with hm | hm | (hm | hm) | hm
    · exact (hname _ hm).2 rfl
    · exact absurd hm (by decide)
    · exact hlf (hbefore _ hm)
    · exact f.not_mem_value.2 hm
    · exact hlf (hafter _ hm)

theorem utf8_eq_nil {s : Str} : utf8 s = [] ↔ s = [] := by
  cases s with
  | nil => simp
  | cons c s => simp

/-- A field line starts with the first byte of its name, which is no white space. -/
theorem FieldLine.head {line : Bytes} {f : Header} (h : FieldLine line f) :
    ∃ first rest, line = first :: rest ∧ isOws first = false := by
  obtain ⟨before, after, rfl, -, -⟩ := h
  cases hn : utf8 f.name with
  | nil => exact absurd (utf8_eq_nil.mp hn) f.name_ne_nil
  | cons first rest =>
      refine ⟨first, _, rfl, (isTokenByte_ne (f.isTokenByte_of_mem ?_)).2.2.2⟩
      rw [hn]
      exact List.mem_cons_self

/-! ## The loop over the fields -/

theorem parseFields_ok {most : Nat} {hs hs' : Headers} {ls : List Bytes} (hne : ∀ l ∈ ls, l ≠ [])
    (h : parseFields most hs ls = .ok hs') :
    ∃ new, hs'.fields = hs.fields ++ new ∧ List.Forall₂ (fun l f => parseHeaderLine l = .ok f) ls new := by
  induction ls generalizing hs with
  | nil =>
      cases h
      exact ⟨[], by simp, .nil⟩
  | cons line rest ih =>
      have hrest : ∀ l ∈ rest, l ≠ [] := fun l hl => hne l (List.mem_cons_of_mem _ hl)
      cases line with
      | nil => exact absurd rfl (hne [] List.mem_cons_self)
      | cons first tail =>
          simp only [parseFields] at h
          split at h
          · cases h
          · split at h
            · cases h
            · split at h
              · cases h
              · rename_i f hf
                split at h
                · cases h
                · rename_i hs₁ happ
                  obtain ⟨new, hnew, hall⟩ := ih hrest h
                  refine ⟨f :: new, ?_, .cons hf hall⟩
                  simp only [Headers.appendWithin] at happ
                  split at happ
                  · cases happ
                  · cases happ
                    simpa using hnew

theorem parseFields_of_forall₂ {most : Nat} {hs : Headers} {ls : List Bytes} {new : List Header}
    (h : List.Forall₂ (fun l f => parseHeaderLine l = .ok f) ls new) (hfit : hs.len + new.length ≤ most) :
    parseFields most hs ls = .ok ⟨hs.fields ++ new⟩ := by
  induction h generalizing hs with
  | nil => simp [parseFields]
  | @cons line f rest new hf _ ih =>
      obtain ⟨first, tail, rfl, hows⟩ := (parseHeaderLine_ok hf).1.head
      rw [List.length_cons] at hfit
      have hroom : ¬ most ≤ hs.len := by omega
      simp only [parseFields, hows, Bool.false_eq_true, if_false, hroom, hf, Headers.appendWithin]
      have hlen : (Headers.mk (hs.fields ++ [f])).len + new.length ≤ most := by
        simp only [Headers.len, List.length_append, List.length_singleton] at hfit ⊢
        omega
      rw [ih hlen]
      simp

/-! ## The lines of a head -/

@[simp] theorem stripCr_append (l : Bytes) : stripCr (l ++ [cr]) = l := by
  simp [stripCr]

/-- A block of lines that are not empty splits into these lines. -/
theorem splitCrlf_block {ls : List Bytes} (h : ∀ l ∈ ls, l ≠ [] ∧ lf ∉ l) :
    splitCrlf (lines ls ++ crlf) = ls := by
  have hblock : lines ls ++ crlf = lines (ls ++ [[]]) := by simp [crlf]
  have hlf : ∀ l ∈ ls ++ [[]], lf ∉ l := by
    intro l hl
    rcases List.mem_append.mp hl with hl | hl
    · exact (h l hl).2
    · rw [List.mem_singleton.mp hl]
      exact List.not_mem_nil
  have hkeep : ls.filter (fun line => !line.isEmpty) = ls :=
    List.filter_eq_self.mpr fun l hl => by simp [(h l hl).1]
  rw [splitCrlf, hblock, splitOn_lines hlf]
  simp only [List.map_append, List.map_map, List.filter_append]
  have hmap : ls.map (stripCr ∘ fun x => x ++ [cr]) = ls := by
    simp [Function.comp_def]
  rw [hmap, hkeep]
  simp [stripCr]

theorem ne_nil_of_mem_splitCrlf {head l : Bytes} (h : l ∈ splitCrlf head) : l ≠ [] := by
  simpa using (List.mem_filter.mp h).2

/-- No piece of a head holds a line feed. -/
theorem lf_not_mem_of_mem_splitCrlf {head l : Bytes} (h : l ∈ splitCrlf head) : lf ∉ l := by
  obtain ⟨piece, hpiece, rfl⟩ := List.mem_map.mp (List.mem_filter.mp h).1
  intro hm
  refine not_mem_of_mem_splitOn hpiece ?_
  unfold stripCr at hm
  split at hm
  · exact List.mem_of_mem_dropLast hm
  · exact hm

/-! ## The whole head -/

/-- What a successful parse went through. -/
structure ParseOk (lim : Limits) (input : Bytes) (p : Parsed) : Prop where
  headEnd : findHeadEnd lim input = some p.consumed
  within : p.consumed ≤ lim.headBytes
  parts : LineParts p.request.method p.request.target p.request.minorVersion
  lines : ∃ fieldLines, splitCrlf (input.take p.consumed) =
      requestLine p.request.method p.request.target p.request.minorVersion :: fieldLines ∧
    List.Forall₂ (fun l f => parseHeaderLine l = .ok f) fieldLines p.request.headers.fields
  host : 1 ≤ p.request.minorVersion → p.request.headers.count Field.host = 1
  framing : ∃ length, p.request.bodyLength = .ok length

theorem parseWith_ok {lim : Limits} {input : Bytes} {p : Parsed} (h : Request.parseWith lim input = .ok p) :
    ParseOk lim input p := by
  unfold Request.parseWith at h
  split at h
  · cases h
  · rename_i headEnd hend
    split at h
    · cases h
    · rename_i hwithin
      split at h
      · cases h
      · rename_i line rest hlines
        split at h
        · cases h
        · rename_i method target minor hline
          split at h
          · cases h
          · rename_i headers hfields
            split at h
            · cases h
            · rename_i hhost
              dsimp only at h
              split at h
              · cases h
              · rename_i length hlength
                cases h
                have hne : ∀ l ∈ rest, l ≠ [] := fun l hl =>
                  ne_nil_of_mem_splitCrlf (hlines ▸ List.mem_cons_of_mem _ hl)
                obtain ⟨new, hnew, hall⟩ := parseFields_ok hne hfields
                obtain ⟨hparts, rfl⟩ := parseRequestLine_ok hline
                simp only [Headers.empty, List.nil_append] at hnew
                refine ⟨hend, Nat.not_lt.mp hwithin, hparts, ⟨rest, hlines, hnew ▸ hall⟩, ?_, length, hlength⟩
                intro hminor
                by_contra hcount
                exact hhost ⟨hminor, hcount⟩

theorem requestLine_ne_nil {method : Method} {target : Str} {minor : Nat} :
    requestLine method target minor ≠ [] := by
  intro h
  simpa using utf8_eq_nil.mp h

theorem mem_requestLine_of_mem_target {r : Request} {c : Char} (hc : c ∈ r.target) (h : c.toNat < 0x80) :
    c.toNat.toUInt8 ∈ requestLine r.method r.target r.minorVersion :=
  mem_utf8_of_mem (by simp [hc]) h

/-- The target of a parsed head holds no line feed. -/
theorem ParseOk.target_lf {lim : Limits} {input : Bytes} {p : Parsed} (h : ParseOk lim input p) :
    '\n' ∉ p.request.target := by
  obtain ⟨fieldLines, hsplit, -⟩ := h.lines
  have hline : lf ∉ requestLine p.request.method p.request.target p.request.minorVersion :=
    lf_not_mem_of_mem_splitCrlf (hsplit ▸ List.mem_cons_self)
  exact fun hm => hline (mem_requestLine_of_mem_target hm (by decide))

theorem ParseOk.trimOws_value {lim : Limits} {input : Bytes} {p : Parsed} (h : ParseOk lim input p)
    {f : Header} (hf : f ∈ p.request.headers.fields) : trimOws f.value = f.value := by
  obtain ⟨fieldLines, -, hfields⟩ := h.lines
  exact ((List.forall₂_and_left _ _).mp (hfields.flip.imp fun _ _ hl => ⟨(parseHeaderLine_ok hl).2, hl⟩)).1 f hf

/-! ## Writing a head -/

/-- A head in wire format: the request line, the fields, and a blank line. -/
def wireHead (method : Method) (target : Str) (minor : Nat) (fields : List Header) : Bytes :=
  lines (requestLine method target minor :: fields.map Header.line) ++ crlf

theorem lf_not_mem_requestLine {method : Method} {target : Str} {minor : Nat}
    (hmethod : (utf8 method.asStr).all isMethodByte = true) (htarget : '\n' ∉ target) :
    lf ∉ requestLine method target minor := by
  intro hm
  have hc := mem_of_mem_utf8 hm (by decide)
  simp only [List.mem_append, List.mem_cons] at hc
  rcases hc with (hc | hc | hc) | hc | hc
  · have hb := mem_utf8_of_mem hc (by decide)
    rw [List.all_eq_true] at hmethod
    exact (isMethodByte_ne (hmethod _ hb)).2.1 rfl
  · exact absurd hc (by decide)
  · exact htarget hc
  · exact absurd hc (by decide)
  · split at hc
    · exact absurd hc (by decide)
    · exact absurd hc (by decide)

theorem Header.fieldLine_line (f : Header) : FieldLine f.line f :=
  ⟨[sp], [], by rw [Header.line, List.append_assoc, List.append_nil]; rfl, by simp [isOws], by simp⟩

/-- The end of a head that was written is found, whatever follows it. -/
theorem findHeadEnd_block {lim : Limits} {ls : List Bytes} {rest : Bytes} (hne : ls ≠ [])
    (hls : ∀ l ∈ ls, l ≠ [] ∧ lf ∉ l) (hlen : (lines ls ++ crlf).length ≤ lim.headBytes) :
    findHeadEnd lim (lines ls ++ crlf ++ rest) = some (lines ls ++ crlf).length := by
  unfold findHeadEnd
  have hwindow : ∃ k, (lines ls ++ crlf ++ rest).take
      (min (lines ls ++ crlf ++ rest).length (lim.headBytes + 4)) = lines ls ++ crlf ++ rest.take k := by
    refine ⟨min (lines ls ++ crlf ++ rest).length (lim.headBytes + 4) - (lines ls ++ crlf).length, ?_⟩
    rw [List.take_append, List.take_of_length_le]
    rw [List.length_append] at hlen ⊢
    simp only [List.length_append]
    omega
  obtain ⟨k, hk⟩ := hwindow
  obtain ⟨i, hi, hilen⟩ := Option.map_eq_some_iff.mp (@findSub_block ls (rest.take k) hne hls)
  rw [hk, hi, Option.map_some, List.length_append, ← hilen]
  rfl

/-- What a reader whose ceilings are high enough makes of a head that was written. -/
theorem parseWith_wireHead {lim : Limits} {method : Method} {target : Str} {minor : Nat}
    {fields : List Header} {rest : Bytes} (hparts : LineParts method target minor) (hlf : '\n' ∉ target)
    (htrim : ∀ f ∈ fields, trimOws f.value = f.value) (hcount : fields.length ≤ lim.headerCount)
    (hlen : (wireHead method target minor fields).length ≤ lim.headBytes) :
    Request.parseWith lim (wireHead method target minor fields ++ rest) =
      if 1 ≤ minor ∧ (Headers.mk fields).count Field.host ≠ 1 then .error .badHost
      else
        (Request.mk method target minor ⟨fields⟩).bodyLength.map fun _ =>
          ⟨⟨method, target, minor, ⟨fields⟩⟩, (wireHead method target minor fields).length⟩ := by
  have hlines : ∀ l ∈ requestLine method target minor :: fields.map Header.line, l ≠ [] ∧ lf ∉ l := by
    intro l hl
    rcases List.mem_cons.mp hl with rfl | hl
    · exact ⟨requestLine_ne_nil, lf_not_mem_requestLine hparts.method_bytes hlf⟩
    · obtain ⟨f, -, rfl⟩ := List.mem_map.mp hl
      obtain ⟨first, tail, hline, -⟩ := f.fieldLine_line.head
      exact ⟨by rw [hline]; simp, f.fieldLine_line.not_mem.2⟩
  have hend : findHeadEnd lim (wireHead method target minor fields ++ rest) =
      some (wireHead method target minor fields).length :=
    findHeadEnd_block (by simp) hlines hlen
  have hfields : List.Forall₂ (fun l f => parseHeaderLine l = .ok f) (fields.map Header.line) fields := by
    rw [List.forall₂_map_left_iff, List.forall₂_same]
    exact fun f hf => parseHeaderLine_line (htrim f hf)
  have hparse : parseFields lim.headerCount .empty (fields.map Header.line) = .ok ⟨fields⟩ :=
    parseFields_of_forall₂ hfields (by simpa [Headers.empty, Headers.len] using hcount)
  unfold Request.parseWith
  rw [hend]
  simp only [Nat.not_lt.mpr hlen, if_false, List.take_left' rfl]
  rw [wireHead, splitCrlf_block hlines]
  simp only [parseRequestLine_requestLine hparts, hparse]
  split
  · rfl
  · cases hframing : Request.bodyLength ⟨method, target, minor, ⟨fields⟩⟩ with
    | error e => simp [Except.map]
    | ok length => simp [Except.map]

end Selfhost.Http
