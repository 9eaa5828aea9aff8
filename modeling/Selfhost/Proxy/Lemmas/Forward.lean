import Selfhost.Http.Lemmas.Framing
import Selfhost.Proxy.Forward

/-!
# The head an instance is sent

`forwardHead` is the wire format of the client's request line in HTTP/1.1 and of the fields `sentFields`: the
client's own less the dropped ones, then the proxy's.
-/

namespace Selfhost.Proxy

open Selfhost.Lib Selfhost.Http Selfhost.Names

variable {A : Alphabet}

/-! ## Names -/

theorem isHopByHop_congr {s t : Str} (h : eqIgnoreAsciiCase s t = true) : isHopByHop s = isHopByHop t := by
  unfold isHopByHop
  simp only [eqIgnoreAsciiCase_congr h]

theorem isDropped_congr {s t : Str} (h : eqIgnoreAsciiCase s t = true) (isUpgrade : Bool) :
    isDropped isUpgrade s = isDropped isUpgrade t := by
  unfold isDropped
  simp only [eqIgnoreAsciiCase_congr h, isHopByHop_congr h]

theorem isDropped_host (isUpgrade : Bool) : isDropped isUpgrade Field.host = false := by
  -- The names are compared as lists of characters: a literal is slow to read for the kernel.
  delta isDropped isHopByHop hopByHop Field.host Field.connection Field.transferEncoding Field.contentLength upgradeField
    personHeader
  repeat rewrite [String.toList_ofList]
  cases isUpgrade <;> decide

theorem isDropped_transferEncoding (isUpgrade : Bool) : isDropped isUpgrade Field.transferEncoding = true := by
  delta isDropped isHopByHop hopByHop Field.host Field.connection Field.transferEncoding Field.contentLength upgradeField
    personHeader
  repeat rewrite [String.toList_ofList]
  cases isUpgrade <;> decide

theorem isDropped_contentLength (isUpgrade : Bool) : isDropped isUpgrade Field.contentLength = true := by
  delta isDropped isHopByHop hopByHop Field.host Field.connection Field.transferEncoding Field.contentLength upgradeField
    personHeader
  repeat rewrite [String.toList_ofList]
  cases isUpgrade <;> decide

/-! ## The fields that are sent -/

/-- The client's fields that are passed on. -/
def keptFields (r : Request) : List Header :=
  r.headers.fields.filter fun f => !isDropped (looksLikeUpgrade r) f.name

def forwardedFor (peer : IpAddr) : Header :=
  ⟨"X-Forwarded-For".toList, utf8 peer.display, by decide, isFieldValue_utf8 peer.visible_display.fieldText⟩

def forwardedProto : Header := ⟨"X-Forwarded-Proto".toList, utf8 "https".toList, by decide, by decide⟩

def personField (person : Identity A) : Header :=
  ⟨personHeader, utf8 person.asStr, by decide, isFieldValue_utf8 person.fieldText_asStr⟩

def connectionClose : Header := ⟨"Connection".toList, utf8 "close".toList, by decide, by decide⟩

/-- The first `Content-Length` of the client under the proxy's spelling of the name. -/
def lengthField (r : Request) : Option Header :=
  (r.headers.fields.find? (·.isNamed Field.contentLength)).bind fun f =>
    f.valueStr.map fun _ => ⟨"Content-Length".toList, f.value, by decide, f.value_plain⟩

/-- The fields the proxy writes of its own. -/
def ownFields (r : Request) (peer : IpAddr) (person : Option (Identity A)) : List Header :=
  [forwardedFor peer, forwardedProto] ++ (person.map personField).toList ++
    if looksLikeUpgrade r then [] else [connectionClose]

def sentFields (r : Request) (peer : IpAddr) (person : Option (Identity A)) : List Header :=
  keptFields r ++ ownFields r peer person ++ (lengthField r).toList

theorem lines_map_line (fields : List Header) :
    lines (fields.map Header.line) = fields.flatMap fun f => utf8 f.name ++ utf8 ": ".toList ++ f.value ++
      utf8 "\r\n".toList := by
  rw [lines, List.flatMap_map]
  rfl

/-- The line of a field whose value is text. -/
theorem lines_line {f : Header} {text : Str} (h : f.value = utf8 text) :
    lines [f.line] = utf8 (f.name ++ ": ".toList ++ text ++ "\r\n".toList) := by
  rw [utf8_append, utf8_append, utf8_append, ← h]
  simp only [lines_cons, lines_nil, Header.line]
  rfl

theorem lengthField_lines (r : Request) :
    lines ((lengthField r).toList.map Header.line) =
      match r.headers.getStr Field.contentLength with
      | some length => utf8 ("Content-Length: ".toList ++ length ++ "\r\n".toList)
      | none => [] := by
  unfold lengthField Headers.getStr
  cases r.headers.fields.find? (·.isNamed Field.contentLength) with
  | none => rfl
  | some f =>
      cases hv : f.valueStr with
      | none => simp only [Option.bind_some, hv, Option.map_none, Option.toList_none, List.map_nil, lines_nil]
      | some text =>
          simp only [Option.bind_some, hv, Option.map_some, Option.toList_some, List.map_cons, List.map_nil]
          have hname : "Content-Length: ".toList = "Content-Length".toList ++ ": ".toList := by decide
          rw [hname]
          exact lines_line (utf8_of_fromUtf8 hv).symm

theorem personField_lines (person : Option (Identity A)) :
    lines ((person.map personField).toList.map Header.line) =
      match person with
      | some person => utf8 (personHeader ++ ": ".toList ++ person.asStr ++ "\r\n".toList)
      | none => [] := by
  cases person with
  | none => rfl
  | some person => exact lines_line rfl

theorem connectionClose_lines (isUpgrade : Bool) :
    lines ((if isUpgrade then [] else [connectionClose]).map Header.line) =
      if isUpgrade then [] else utf8 "Connection: close\r\n".toList := by
  have htext : "Connection: close\r\n".toList =
      "Connection".toList ++ ": ".toList ++ "close".toList ++ "\r\n".toList := by
    repeat rewrite [String.toList_ofList]
    rfl
  cases isUpgrade with
  | false =>
      rw [if_neg Bool.false_ne_true, if_neg Bool.false_ne_true, htext]
      exact lines_line rfl
  | true => rfl

theorem forwardHead_eq (r : Request) (peer : IpAddr) (person : Option (Identity A)) :
    forwardHead r peer person = wireHead r.method r.target 1 (sentFields r peer person) := by
  have hversion : utf8 " HTTP/1.1\r\n".toList = utf8 (' ' :: http11) ++ crlf := by decide
  have hline : utf8 r.method.asStr ++ utf8 " ".toList ++ utf8 r.target ++ utf8 " HTTP/1.1\r\n".toList =
      lines [requestLine r.method r.target 1] := by
    have hspace : utf8 " ".toList = utf8 [' '] := rfl
    rw [hversion, hspace, requestLine, if_neg Nat.one_ne_zero, lines, List.flatMap_cons, List.flatMap_nil,
      List.append_nil, ← utf8_append, ← utf8_append, ← List.append_assoc, ← utf8_append]
    simp only [List.append_assoc, List.cons_append, List.nil_append]
  have hown : lines ([forwardedFor peer, forwardedProto].map Header.line) =
      utf8 ("X-Forwarded-For: ".toList ++ peer.display ++ "\r\n".toList) ++
        utf8 "X-Forwarded-Proto: https\r\n".toList := by
    have hfor : "X-Forwarded-For: ".toList = "X-Forwarded-For".toList ++ ": ".toList := by
      repeat rewrite [String.toList_ofList]
      rfl
    have hproto : "X-Forwarded-Proto: https\r\n".toList =
        "X-Forwarded-Proto".toList ++ ": ".toList ++ "https".toList ++ "\r\n".toList := by
      repeat rewrite [String.toList_ofList]
      rfl
    rw [List.map_cons, ← List.singleton_append, lines_append, List.map_cons, List.map_nil, hfor, hproto]
    exact congrArg₂ (· ++ ·) (lines_line rfl) (lines_line rfl)
  have hkept : lines ((keptFields r).map Header.line) =
      (r.headers.fields.filter fun f => !isDropped (looksLikeUpgrade r) f.name).flatMap fun f =>
        utf8 f.name ++ utf8 ": ".toList ++ f.value ++ utf8 "\r\n".toList := lines_map_line _
  unfold forwardHead wireHead sentFields ownFields
  rw [← List.singleton_append, lines_append, ← hline]
  simp only [List.map_append, lines_append, lengthField_lines, personField_lines, connectionClose_lines, hown,
    hkept, List.append_assoc]
  rfl

/-! ## What the sent fields say -/

theorem mem_keptFields {r : Request} {f : Header} (hf : f ∈ keptFields r) :
    f ∈ r.headers.fields ∧ isDropped (looksLikeUpgrade r) f.name = false := by
  simpa [keptFields] using hf

theorem not_isNamed_of_mem_keptFields {r : Request} {f : Header} {name : Str} (hf : f ∈ keptFields r)
    (hname : isDropped (looksLikeUpgrade r) name = true) : f.isNamed name = false := by
  by_contra hnamed
  simp only [Bool.not_eq_false] at hnamed
  have hdrop := (mem_keptFields hf).2
  rw [isDropped_congr hnamed, hname] at hdrop
  cases hdrop

def ownNames : List Str :=
  ["X-Forwarded-For".toList, "X-Forwarded-Proto".toList, personHeader, "Connection".toList]

theorem ownFields_spec {r : Request} {peer : IpAddr} {person : Option (Identity A)} {f : Header}
    (hf : f ∈ ownFields r peer person) : f.name ∈ ownNames ∧ trimOws f.value = f.value := by
  simp only [ownFields, List.mem_append, List.mem_cons, List.not_mem_nil, or_false, Option.mem_toList,
    Option.map_eq_some_iff] at hf
  rcases hf with ((rfl | rfl) | ⟨i, -, rfl⟩) | hf
  · exact ⟨List.mem_cons_self, trimOws_utf8 peer.visible_display.fieldText⟩
  · exact ⟨List.mem_cons_of_mem _ List.mem_cons_self, by decide⟩
  · exact ⟨List.mem_cons_of_mem _ (List.mem_cons_of_mem _ List.mem_cons_self), trimOws_utf8 i.fieldText_asStr⟩
  · split at hf
    · cases hf
    · rw [List.mem_singleton.mp hf]
      exact ⟨List.mem_cons_of_mem _ (List.mem_cons_of_mem _ (List.mem_cons_of_mem _ List.mem_cons_self)), by decide⟩

theorem length_ownFields_le (r : Request) (peer : IpAddr) (person : Option (Identity A)) :
    (ownFields r peer person).length ≤ 4 := by
  unfold ownFields
  have hperson : (person.map personField).toList.length ≤ 1 := by
    cases person <;> simp
  simp only [List.length_append, List.length_cons, List.length_nil]
  split
  · simp only [List.length_nil]
    omega
  · simp only [List.length_singleton]
    omega

theorem ownNames_ne {name : Str} (h : name ∈ ownNames) :
    eqIgnoreAsciiCase name Field.host = false ∧ eqIgnoreAsciiCase name Field.transferEncoding = false ∧
      eqIgnoreAsciiCase name Field.contentLength = false := by
  revert name
  delta ownNames personHeader Field.host Field.transferEncoding Field.contentLength
  repeat rewrite [String.toList_ofList]
  decide

theorem lengthField_spec {r : Request} {f : Header} (h : lengthField r = some f) :
    f.name = "Content-Length".toList ∧ ∃ g ∈ r.headers.fields, g.isNamed Field.contentLength = true ∧
      r.headers.fields.find? (·.isNamed Field.contentLength) = some g ∧ f.value = g.value := by
  unfold lengthField at h
  obtain ⟨g, hg, h⟩ := Option.bind_eq_some_iff.mp h
  obtain ⟨text, -, rfl⟩ := Option.map_eq_some_iff.mp h
  exact ⟨rfl, g, List.mem_of_find?_eq_some hg, by simpa using List.find?_some hg, hg, rfl⟩

theorem lengthName_ne :
    eqIgnoreAsciiCase "Content-Length".toList Field.host = false ∧
      eqIgnoreAsciiCase "Content-Length".toList Field.transferEncoding = false ∧
      eqIgnoreAsciiCase "Content-Length".toList Field.contentLength = true := by
  delta Field.host Field.transferEncoding Field.contentLength
  repeat rewrite [String.toList_ofList]
  decide

variable (r : Request) (peer : IpAddr) (person : Option (Identity A))

theorem trimOws_of_mem_sentFields (h : ∀ f ∈ r.headers.fields, trimOws f.value = f.value) {f : Header}
    (hf : f ∈ sentFields r peer person) : trimOws f.value = f.value := by
  simp only [sentFields, List.mem_append, Option.mem_toList] at hf
  rcases hf with (hf | hf) | hf
  · exact h f (mem_keptFields hf).1
  · exact (ownFields_spec hf).2
  · obtain ⟨-, g, hg, -, -, hv⟩ := lengthField_spec hf
    rw [hv]
    exact h g hg

theorem length_sentFields_le : (sentFields r peer person).length ≤ r.headers.len + 5 := by
  have hkept : (keptFields r).length ≤ r.headers.len := List.length_filter_le _ _
  have hown := length_ownFields_le r peer person
  have hlength : (lengthField r).toList.length ≤ 1 := by
    cases lengthField r <;> simp
  simp only [sentFields, List.length_append]
  omega

theorem count_host_sentFields :
    (Headers.mk (sentFields r peer person)).count Field.host = r.headers.count Field.host := by
  have hkept : (keptFields r).countP (·.isNamed Field.host) = r.headers.count Field.host := by
    rw [keptFields, List.countP_filter, Headers.count]
    refine List.countP_congr fun f _ => ?_
    simp only [Bool.and_eq_true, Bool.not_eq_true', and_iff_left_iff_imp]
    intro hname
    rw [isDropped_congr hname, isDropped_host]
  have hown : (ownFields r peer person).countP (·.isNamed Field.host) = 0 := by
    rw [List.countP_eq_zero]
    intro f hf
    simp [Header.isNamed, (ownNames_ne (ownFields_spec hf).1).1]
  have hlength : (lengthField r).toList.countP (·.isNamed Field.host) = 0 := by
    rw [List.countP_eq_zero]
    intro f hf
    rw [Header.isNamed, (lengthField_spec (Option.mem_toList.mp hf)).1, lengthName_ne.1]
    exact Bool.false_ne_true
  simp only [Headers.count, sentFields, List.countP_append, hkept, hown, hlength, Nat.add_zero]

theorem count_transferEncoding_sentFields :
    (Headers.mk (sentFields r peer person)).count Field.transferEncoding = 0 := by
  rw [Headers.count_eq_zero]
  intro f hf
  simp only [sentFields, List.mem_append, Option.mem_toList] at hf
  rcases hf with (hf | hf) | hf
  · exact not_isNamed_of_mem_keptFields hf (isDropped_transferEncoding _)
  · exact (ownNames_ne (ownFields_spec hf).1).2.1
  · rw [Header.isNamed, (lengthField_spec hf).1]
    exact lengthName_ne.2.1

theorem filter_contentLength_sentFields :
    (sentFields r peer person).filter (·.isNamed Field.contentLength) = (lengthField r).toList := by
  have hkept : (keptFields r).filter (·.isNamed Field.contentLength) = [] := by
    rw [List.filter_eq_nil_iff]
    intro f hf
    simp [not_isNamed_of_mem_keptFields hf (isDropped_contentLength _)]
  have hown : (ownFields r peer person).filter (·.isNamed Field.contentLength) = [] := by
    rw [List.filter_eq_nil_iff]
    intro f hf
    simp [Header.isNamed, (ownNames_ne (ownFields_spec hf).1).2.2]
  have hlength : (lengthField r).toList.filter (·.isNamed Field.contentLength) = (lengthField r).toList := by
    rw [List.filter_eq_self]
    intro f hf
    rw [Header.isNamed, (lengthField_spec (Option.mem_toList.mp hf)).1]
    exact lengthName_ne.2.2
  rw [sentFields, List.filter_append, List.filter_append, hkept, hown, hlength, List.nil_append, List.nil_append]

/-! ## The request an instance reads -/

/-- The request whose wire format is sent. -/
def sentRequest : Request := ⟨r.method, r.target, 1, ⟨sentFields r peer person⟩⟩

theorem count_contentLength_sentRequest :
    (sentRequest r peer person).headers.count Field.contentLength = (lengthField r).toList.length := by
  rw [← filter_contentLength_sentFields r peer person, Headers.count, List.countP_eq_length_filter]
  rfl

theorem lengthField_eq_none (h : r.headers.count Field.contentLength = 0) : lengthField r = none := by
  rw [lengthField, Headers.find_eq_none_of_count h]
  rfl

theorem bodyLength_sentRequest_of_absent (h : r.headers.count Field.contentLength = 0) :
    (sentRequest r peer person).bodyLength = .ok .none := by
  refine Request.bodyLength_of_absent (count_transferEncoding_sentFields r peer person) ?_
  rw [count_contentLength_sentRequest, lengthField_eq_none r h]
  rfl

/-- Repeated lengths that agree are sent as one. -/
theorem bodyLength_sentRequest_of_fixed {n : Nat} (hpos : 0 < r.headers.count Field.contentLength)
    (h : Request.agreeLengths none r.headers.fields = .ok (some n)) :
    (sentRequest r peer person).bodyLength = .ok (.fixed n) := by
  obtain ⟨f, hfind, hf, hname⟩ := Headers.find_of_count_pos hpos
  obtain ⟨raw, m, hraw, hlength, hm⟩ := (Request.agreeLengths_ok h).2 f hf hname
  cases hm
  have hfield : lengthField r = some ⟨"Content-Length".toList, f.value, by decide, f.value_plain⟩ := by
    rw [lengthField, hfind, Option.bind_some, hraw, Option.map_some]
  refine Request.bodyLength_of_agree (count_transferEncoding_sentFields r peer person) ?_ ?_
  · rw [count_contentLength_sentRequest, hfield]
    exact Nat.one_pos
  · show Request.agreeLengths none (sentFields r peer person) = _
    rw [Request.agreeLengths_filter, filter_contentLength_sentFields, hfield]
    exact Request.agreeLengths_singleton lengthName_ne.2.2 hraw hlength

/-! ## The fields that travel end to end -/

/-- The fields of a message that are the client's to send: not those of its connection, not its framing, and
not the name the proxy gives the visitor. -/
def isEndToEnd (f : Header) : Bool := !isDropped false f.name

def endToEnd (hs : Headers) : List Header := hs.fields.filter isEndToEnd

theorem isDropped_of_upgrade {isUpgrade : Bool} {name : Str} (h : isDropped isUpgrade name = true) :
    isDropped false name = true := by
  cases isUpgrade with
  | false => exact h
  | true =>
      simp only [isDropped, Bool.or_eq_true, Bool.and_eq_true] at h ⊢
      rcases h with (h | h) | h
      · exact Or.inl (Or.inl ⟨h.1, by simp⟩)
      · exact Or.inl (Or.inr h)
      · exact Or.inr h

theorem isDropped_ownNames :
    isDropped false "X-Forwarded-For".toList = false ∧ isDropped false "X-Forwarded-Proto".toList = false ∧
      isDropped false personHeader = true ∧ isDropped false "Connection".toList = true ∧
      isDropped false "Content-Length".toList = true := by
  delta isDropped isHopByHop hopByHop Field.host Field.connection Field.transferEncoding Field.contentLength upgradeField
    personHeader
  repeat rewrite [String.toList_ofList]
  decide

theorem notDropped_forwarded :
    isEndToEnd (forwardedFor peer) = true ∧ isEndToEnd forwardedProto = true :=
  ⟨congrArg (!·) isDropped_ownNames.1, congrArg (!·) isDropped_ownNames.2.1⟩

theorem dropped_own (person : Identity A) :
    ¬ isEndToEnd (personField person) = true ∧ ¬ isEndToEnd connectionClose = true := by
  refine ⟨fun h => ?_, fun h => ?_⟩
  · exact Bool.false_ne_true ((congrArg (!·) isDropped_ownNames.2.2.1).symm.trans h)
  · exact Bool.false_ne_true ((congrArg (!·) isDropped_ownNames.2.2.2.1).symm.trans h)

theorem endToEnd_sentRequest :
    endToEnd (sentRequest r peer person).headers =
      endToEnd r.headers ++ [forwardedFor peer, forwardedProto] := by
  have hkept : (keptFields r).filter isEndToEnd = endToEnd r.headers := by
    rw [keptFields, List.filter_filter, endToEnd]
    refine List.filter_congr fun f _ => ?_
    cases hdrop : isDropped (looksLikeUpgrade r) f.name with
    | false => simp
    | true => simp [isEndToEnd, isDropped_of_upgrade hdrop]
  have hown : (ownFields r peer person).filter isEndToEnd =
      [forwardedFor peer, forwardedProto] := by
    have hfirst : [forwardedFor peer, forwardedProto].filter isEndToEnd =
        [forwardedFor peer, forwardedProto] := by
      rw [List.filter_cons_of_pos (notDropped_forwarded peer).1,
        List.filter_cons_of_pos (notDropped_forwarded peer).2, List.filter_nil]
    have hsecond : (person.map personField).toList.filter isEndToEnd = [] := by
      rw [List.filter_eq_nil_iff]
      intro f hf
      obtain ⟨i, -, rfl⟩ := Option.map_eq_some_iff.mp (Option.mem_toList.mp hf)
      exact (dropped_own i).1
    have hthird : (if looksLikeUpgrade r then [] else [connectionClose]).filter isEndToEnd = [] := by
      split
      · rfl
      · rw [List.filter_cons_of_neg (dropped_own (A := A) .owner).2, List.filter_nil]
    rw [ownFields, List.filter_append, List.filter_append, hfirst, hsecond, hthird, List.append_nil,
      List.append_nil]
  have hlength : (lengthField r).toList.filter isEndToEnd = [] := by
    rw [List.filter_eq_nil_iff]
    intro f hf
    rw [isEndToEnd, (lengthField_spec (Option.mem_toList.mp hf)).1, isDropped_ownNames.2.2.2.2]
    exact Bool.false_ne_true
  show (sentFields r peer person).filter isEndToEnd = _
  rw [sentFields, List.filter_append, List.filter_append, hkept, hown, hlength, List.append_nil]

end Selfhost.Proxy
