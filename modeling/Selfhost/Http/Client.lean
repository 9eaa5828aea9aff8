import Selfhost.Http.Lemmas.Framing

/-!
# How a client frames an answer

The end of a response as RFC 9110 gives it to the client that sent the request: no body after HEAD or a status
that forbids one, and otherwise as many bytes as the one `Content-Length` says. This is the client's side and
follows no code of the repository.
-/

namespace Selfhost.Http

open Selfhost.Lib

/-- The number that a field of decimal digits stands for. -/
def digitsValue (b : Bytes) : Option Nat :=
  (fromUtf8 b).bind fun text => if text = [] ∨ !text.all Char.isDigit then none else some (decimalValue text)

/-- The second word of a status line. -/
def statusOf (line : Bytes) : Option Status :=
  match line.splitOn sp with
  | _ :: code :: _ => (digitsValue code).map Status.mk
  | _ => none

/-- The value of a line that is a `Content-Length` field. -/
def lengthValue (line : Bytes) : Option Bytes :=
  match parseHeaderLine line with
  | .ok f => if f.isNamed Field.contentLength then some f.value else none
  | .error _ => none

/-- How many bytes of body the head of an answer announces. -/
def announced (method : Method) (head : List Bytes) : Option Nat :=
  match head with
  | [] => none
  | statusLine :: fieldLines =>
      (statusOf statusLine).bind fun status =>
        if method = .head ∨ status.forbidsBody then some 0
        else
          match fieldLines.filterMap lengthValue with
          | [value] => digitsValue value
          | _ => none

/-- Where the answer to a request ends in what the client received. -/
def clientEnd (method : Method) (received : Bytes) : Option Nat :=
  (findSub (crlf ++ crlf) received).bind fun i =>
    (announced method (splitCrlf (received.take (i + 4)))).map (i + 4 + ·)

/-! ## Reading what was written -/

theorem digitsValue_natText (n : Nat) : digitsValue (utf8 (natText n)) = some n := by
  have hall := all_isDigit_natText n
  simp only [digitsValue, fromUtf8_utf8, Option.bind_some, natText_ne_nil, hall, Bool.not_true,
    Bool.false_eq_true, or_self, if_false, decimalValue_natText]

theorem statusLine_eq (r : Response) :
    r.statusLine = utf8 http11 ++ sp :: (utf8 (natText r.status.code) ++ sp :: utf8 r.status.reason) := by
  have hversion : "HTTP/1.1 ".toList = http11 ++ [' '] := by decide
  rw [Response.statusLine, hversion]
  simp only [utf8_append, utf8_cons, utf8_nil, List.append_assoc, List.append_nil]
  rfl

theorem statusOf_statusLine (r : Response) : statusOf r.statusLine = some r.status := by
  have hcode : sp ∉ utf8 (natText r.status.code) := by
    intro hm
    have hspace : ' ' ∈ natText r.status.code := mem_of_mem_utf8 hm (by decide)
    exact absurd (isDigit_of_mem_natText hspace) (by decide)
  have hsplit : r.statusLine.splitOn sp =
      utf8 http11 :: utf8 (natText r.status.code) :: (utf8 r.status.reason).splitOn sp := by
    rw [statusLine_eq, List.splitOn_append_cons_self_of_not_mem (by decide),
      List.splitOn_append_cons_self_of_not_mem hcode]
  simp only [statusOf, hsplit, digitsValue_natText, Option.map_some]

theorem lf_not_mem_statusLine (r : Response) : lf ∉ r.statusLine := by
  intro hm
  rw [statusLine_eq] at hm
  have hreason : '\n' ∉ r.status.reason := by
    unfold Status.reason
    split <;> rw [String.toList_ofList] <;> decide
  simp only [List.mem_append, List.mem_cons] at hm
  rcases hm with hm | hm | hm | hm | hm
  · exact absurd hm (by decide)
  · exact absurd hm (by decide)
  · exact absurd (isDigit_of_mem_natText (mem_of_mem_utf8 hm (by decide))) (by decide)
  · exact absurd hm (by decide)
  · exact hreason (mem_of_mem_utf8 hm (by decide))

theorem lengthValues_lines (fields : List Header) :
    (fields.map Header.line).filterMap lengthValue =
      (fields.filter (·.isNamed Field.contentLength)).map fun f => trimOws f.value := by
  induction fields with
  | nil => rfl
  | cons f fields ih =>
      have hline : lengthValue f.line = if f.isNamed Field.contentLength then some (trimOws f.value) else none := by
        rw [lengthValue, parseHeaderLine_trimmed]
        rfl
      rw [List.map_cons, List.filterMap_cons, hline, ih]
      by_cases hname : f.isNamed Field.contentLength = true
      · rw [if_pos hname, List.filter_cons_of_pos (by exact hname), List.map_cons]
      · rw [if_neg hname, List.filter_cons_of_neg (by exact hname)]

/-- A head of this response with any further fields, as the client reads it. -/
theorem announced_head {r : Response} {keepAlive : Bool} {hs : Headers} {more : List Header}
    (h : r.wireHeaders keepAlive = .ok hs) (hmore : more.filter (·.isNamed Field.contentLength) = [])
    (method : Method) :
    announced method (r.statusLine :: (hs.fields ++ more).map Header.line) =
      some (if method = .head ∨ r.status.forbidsBody then 0 else r.body.len) := by
  simp only [announced, statusOf_statusLine, Option.bind_some]
  split
  · rfl
  · rename_i hbody
    simp only [not_or, Bool.not_eq_true] at hbody
    obtain ⟨f, hfilter, hvalue⟩ := r.wireHeaders_lengths h hbody.2
    have htrim : trimOws f.value = utf8 (natText r.body.len) := by
      rw [hvalue]
      exact trimOws_utf8 (fieldText_natText _)
    rw [lengthValues_lines, List.filter_append, hfilter, hmore]
    simp only [List.append_nil, List.map_cons, List.map_nil, htrim, digitsValue_natText]

/-- The client ends its reading of a block of lines as the lines announce. -/
theorem clientEnd_block {ls : List Bytes} {body : Bytes} (hne : ls ≠ []) (hls : ∀ l ∈ ls, l ≠ [] ∧ lf ∉ l)
    (method : Method) :
    clientEnd method (lines ls ++ crlf ++ body) =
      (announced method ls).map ((lines ls ++ crlf).length + ·) := by
  obtain ⟨i, hi, hlen⟩ := Option.map_eq_some_iff.mp (@findSub_block ls body hne hls)
  have hend : i + 4 = (lines ls ++ crlf).length := by
    rw [List.length_append, ← hlen]
    rfl
  rw [clientEnd, hi, Option.bind_some, hend, List.take_left, splitCrlf_block hls]

end Selfhost.Http
