import Selfhost.Http.Lemmas.Request

/-!
# The grammar of an accepted head

A head that parses is cut at its first blank line, but its lines are split at line feeds alone and empty
pieces are dropped. `strictHead_iff` says which of the heads that parse are lines ended by CRLF with nothing
else: those whose line feeds all follow a CR, that do not start with an empty line and whose request line
holds no CR.
-/

namespace Selfhost.Http

open Selfhost.Lib

/-- `head` is the request line and the field lines of `r`, each ended by CRLF, and one empty line; the lines
and the target hold no CR and no LF. -/
def StrictHead (head : Bytes) (r : Request) : Prop :=
  ∃ fieldLines : List Bytes,
    head = lines (requestLine r.method r.target r.minorVersion :: fieldLines) ++ crlf ∧
    List.Forall₂ FieldLine fieldLines r.headers.fields ∧
    (∀ line ∈ requestLine r.method r.target r.minorVersion :: fieldLines,
      line ≠ [] ∧ cr ∉ line ∧ lf ∉ line) ∧
    ' ' ∉ r.target ∧ '\r' ∉ r.target ∧ '\n' ∉ r.target

/-- Every LF follows a CR, the first line is not empty, and no CR stands in it but the one that ends it. -/
structure CleanHead (head : Bytes) : Prop where
  lf_after_cr : lfAfterCr 0 head = true
  not_blank : ¬ crlf <+: head
  no_cr : cr ∉ (firstLine head).dropLast

variable {x : Bytes} {p : Parsed}

/-- The head that a parse consumes ends at the first blank line of the input. -/
theorem headEnd_block {lim : Limits} {n : Nat} (h : findHeadEnd lim x = some n) :
    ∃ a, x.take n = a ++ (crlf ++ crlf) ∧ n = a.length + 4 ∧
      findSub (crlf ++ crlf) (a ++ (crlf ++ crlf)) = some a.length ∧ headBlock x = x.take n := by
  unfold findHeadEnd at h
  obtain ⟨i, hi, rfl⟩ := Option.map_eq_some_iff.mp h
  generalize min x.length (lim.headBytes + 4) = w at hi
  obtain ⟨a, b, hsplit, rfl, hfirst⟩ := findSub_some hi
  have hx : x = a ++ (crlf ++ crlf) ++ (b ++ x.drop w) := by
    rw [← List.append_assoc, ← hsplit, List.take_append_drop]
  have htake : x.take (a.length + 4) = a ++ (crlf ++ crlf) := by
    rw [hx, List.take_left' (by simp [crlf])]
  refine ⟨a, htake, rfl, hfirst, ?_⟩
  have hfind : findSub (crlf ++ crlf) x = some a.length := by
    rw [hx]
    exact findSub_append rfl hfirst
  simp only [headBlock, hfind]

theorem cleanHead_of_strictHead {head : Bytes} {r : Request} (h : StrictHead head r) : CleanHead head := by
  obtain ⟨fieldLines, rfl, -, hlines, -⟩ := h
  have hblock : lines (requestLine r.method r.target r.minorVersion :: fieldLines) ++ crlf =
      lines (requestLine r.method r.target r.minorVersion :: fieldLines ++ [[]]) := by simp [crlf]
  have hfirst := hlines _ List.mem_cons_self
  refine ⟨?_, ?_, ?_⟩
  · rw [hblock]
    refine lfAfterCr_lines fun l hl => ?_
    rcases List.mem_append.mp hl with hl | hl
    · exact (hlines l hl).2.2
    · rw [List.mem_singleton.mp hl]
      exact List.not_mem_nil
  · rw [lines_cons, List.append_assoc]
    exact not_crlf_of_line hfirst.1 hfirst.2.2
  · rw [lines_cons, List.append_assoc, List.cons_append, List.cons_append, firstLine_line hfirst.2.2,
      List.dropLast_concat]
    exact hfirst.2.1

theorem strictHead_of_cleanHead (h : Request.parse x = .ok p) (hclean : CleanHead (x.take p.consumed)) :
    StrictHead (x.take p.consumed) p.request := by
  have hok := parseWith_ok h
  obtain ⟨a, htake, hn, hfind, -⟩ := headEnd_block hok.headEnd
  obtain ⟨fieldLines, hsplit, hfields⟩ := hok.lines
  -- Cut at the line feeds, the head is a block of lines with one empty line, the last.
  obtain ⟨ls, hls, hlf⟩ := exists_lines_of_lfAfterCr (by decide) hclean.lf_after_cr fun c hc => by
    rw [htake] at hc
    simpa [crlf, List.getLast?_append] using hc.symm
  have hblank := hclean.not_blank
  rw [hls] at hblank
  rw [htake] at hls
  obtain ⟨body, rfl, hbody⟩ := lines_of_findSub hlf hblank (hls ▸ hfind) (by rw [← hls]; simp [crlf])
  have hhead : x.take p.consumed = lines body ++ crlf := by
    rw [htake, hls]
    simp [crlf]
  have hlines : ∀ l ∈ body, l ≠ [] ∧ lf ∉ l := fun l hl =>
    ⟨hbody l hl, hlf l (List.mem_append_left _ hl)⟩
  rw [hhead, splitCrlf_block hlines] at hsplit
  subst hsplit
  have hline := hlines _ List.mem_cons_self
  have hcr : cr ∉ requestLine p.request.method p.request.target p.request.minorVersion := by
    have := hclean.no_cr
    rwa [hhead, lines_cons, List.append_assoc, List.cons_append, List.cons_append, firstLine_line hline.2,
      List.dropLast_concat] at this
  have hfl : List.Forall₂ FieldLine fieldLines p.request.headers.fields :=
    hfields.imp fun _ _ hf => (parseHeaderLine_ok hf).1
  have hfcr : ∀ l ∈ fieldLines, cr ∉ l :=
    ((List.forall₂_and_left _ _).mp (hfl.imp fun _ _ hf => ⟨hf.not_mem.1, hf⟩)).1
  refine ⟨fieldLines, hhead, hfl, ?_, hok.parts.target_space, ?_, ?_⟩
  · intro line hmem
    refine ⟨(hlines line hmem).1, ?_, (hlines line hmem).2⟩
    rcases List.mem_cons.mp hmem with rfl | hmem
    · exact hcr
    · exact hfcr line hmem
  · exact fun hm => hcr (mem_requestLine_of_mem_target hm (by decide))
  · exact fun hm => hline.2 (mem_requestLine_of_mem_target hm (by decide))

/-- The heads that parse and follow the strict grammar are the clean ones. -/
theorem strictHead_iff (h : Request.parse x = .ok p) :
    StrictHead (x.take p.consumed) p.request ↔ CleanHead (headBlock x) := by
  obtain ⟨-, -, -, -, hblock⟩ := headEnd_block (parseWith_ok h).headEnd
  rw [hblock]
  exact ⟨cleanHead_of_strictHead, strictHead_of_cleanHead h⟩

/-- A request with one field, written strictly. -/
def plainHead : Bytes := utf8 "GET /a HTTP/1.1\r\nHost: example.com\r\n\r\n".toList

/-- A request that starts with an empty line, ends its lines by LF alone and has an empty line inside. -/
def looseHead : Bytes := utf8 "\r\nGET /a HTTP/1.1\n\nHost: example.com\r\n\r\n".toList

/-- A request whose target holds a CR. -/
def crHead : Bytes := utf8 "GET /a\rb HTTP/1.1\r\nHost: example.com\r\n\r\n".toList

/-- `GET` of a target at the host of the three heads. -/
def getRequest (target : String) : Request where
  method := .get
  target := target.toList
  minorVersion := 1
  headers := ⟨[⟨"Host".toList, utf8 "example.com".toList, by decide, by decide⟩]⟩

theorem strictHead_plainHead : StrictHead (plainHead.take plainHead.length) (getRequest "/a") :=
  (strictHead_iff (x := plainHead) (p := ⟨getRequest "/a", plainHead.length⟩) (by decide +kernel)).mpr
    ⟨by decide +kernel, by decide +kernel, by decide +kernel⟩

theorem loose_heads_parse :
    (Request.parse looseHead = .ok ⟨getRequest "/a", looseHead.length⟩ ∧
      ¬ StrictHead (looseHead.take looseHead.length) (getRequest "/a")) ∧
    Request.parse crHead = .ok ⟨getRequest "/a\rb", crHead.length⟩ ∧
      ¬ StrictHead (crHead.take crHead.length) (getRequest "/a\rb") := by
  refine ⟨⟨by decide +kernel, ?_⟩, by decide +kernel, ?_⟩
  · intro h
    exact absurd (cleanHead_of_strictHead h).lf_after_cr (by decide +kernel)
  · intro h
    exact absurd (cleanHead_of_strictHead h).no_cr (by decide +kernel)

end Selfhost.Http
