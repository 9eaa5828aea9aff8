import Selfhost.Http.Lemmas.Request
import Selfhost.Http.Response

/-!
# How a request's fields frame its body

`Request::body_length` read backwards: which fields each answer comes from, and which fields give it.
-/

namespace Selfhost.Http

open Selfhost.Lib

namespace Headers

theorem count_eq_zero {hs : Headers} {name : Str} :
    hs.count name = 0 ↔ ∀ f ∈ hs.fields, f.isNamed name = false := by
  simp [count, List.countP_eq_zero]

theorem contains_eq_false {hs : Headers} {name : Str} : hs.contains name = false ↔ hs.count name = 0 := by
  simp [contains]

/-- The first field of a name that occurs. -/
theorem find_of_count_pos {hs : Headers} {name : Str} (h : 0 < hs.count name) :
    ∃ f, hs.fields.find? (·.isNamed name) = some f ∧ f ∈ hs.fields ∧ f.isNamed name = true := by
  obtain ⟨g, hg, hname⟩ := List.countP_pos_iff.mp h
  cases hf : hs.fields.find? (·.isNamed name) with
  | none => exact absurd hname (by simpa using List.find?_eq_none.mp hf g hg)
  | some f => exact ⟨f, rfl, List.mem_of_find?_eq_some hf, by simpa using List.find?_some hf⟩

theorem find_eq_none_of_count {hs : Headers} {name : Str} (h : hs.count name = 0) :
    hs.fields.find? (·.isNamed name) = none := by
  rw [List.find?_eq_none]
  intro f hf
  simp [count_eq_zero.mp h f hf]

end Headers

namespace Request

/-- The value of a `Content-Length` field that reads as `n`. -/
structure IsLength (raw : Str) (n : Nat) : Prop where
  ne_nil : trim raw ≠ []
  digits : (trim raw).all Char.isDigit = true
  value : decimalValue (trim raw) = n
  le : n ≤ u64Max

theorem agreeLengths_ok {agreed agreed' : Option Nat} {fields : List Header}
    (h : agreeLengths agreed fields = .ok agreed') :
    (∀ n, agreed = some n → agreed' = some n) ∧
      ∀ f ∈ fields, f.isNamed Field.contentLength = true →
        ∃ raw n, f.valueStr = some raw ∧ IsLength raw n ∧ agreed' = some n := by
  induction fields generalizing agreed with
  | nil =>
      cases h
      exact ⟨fun n hn => hn, by simp⟩
  | cons f rest ih =>
      simp only [agreeLengths] at h
      split at h
      · rename_i hname
        obtain ⟨hkeep, hall⟩ := ih h
        refine ⟨hkeep, ?_⟩
        intro g hg hnamed
        rcases List.mem_cons.mp hg with rfl | hg
        · simp only [Bool.not_eq_true'] at hname
          exact absurd hnamed (by rw [hname]; exact Bool.false_ne_true)
        · exact hall g hg hnamed
      · split at h
        · cases h
        · rename_i raw hraw
          split at h
          · cases h
          · rename_i hdigits
            simp only [not_or, Bool.not_eq_true', Bool.not_eq_false] at hdigits
            split at h
            · cases h
            · rename_i hmax
              have hlength : IsLength raw (decimalValue (trim raw)) :=
                ⟨hdigits.1, hdigits.2, rfl, Nat.not_lt.mp hmax⟩
              cases agreed with
              | none =>
                  obtain ⟨hkeep, hall⟩ := ih h
                  refine ⟨by simp, ?_⟩
                  intro g hg hnamed
                  rcases List.mem_cons.mp hg with rfl | hg
                  · exact ⟨raw, _, hraw, hlength, hkeep _ rfl⟩
                  · exact hall g hg hnamed
              | some existing =>
                  dsimp only at h
                  split at h
                  · rename_i hsame
                    obtain ⟨hkeep, hall⟩ := ih h
                    refine ⟨hkeep, ?_⟩
                    intro g hg hnamed
                    rcases List.mem_cons.mp hg with rfl | hg
                    · exact ⟨raw, _, hraw, hlength, by rw [← hsame]; exact hkeep existing rfl⟩
                    · exact hall g hg hnamed
                  · cases h

theorem agreeLengths_filter (agreed : Option Nat) (fields : List Header) :
    agreeLengths agreed fields = agreeLengths agreed (fields.filter (·.isNamed Field.contentLength)) := by
  induction fields generalizing agreed with
  | nil => rfl
  | cons f rest ih =>
      by_cases hname : f.isNamed Field.contentLength = true
      · rw [List.filter_cons_of_pos hname]
        simp only [agreeLengths]
        simp only [ih]
      · rw [List.filter_cons_of_neg hname]
        simp only [Bool.not_eq_true] at hname
        rw [agreeLengths, hname, ← ih]
        rfl

theorem agreeLengths_singleton {f : Header} {raw : Str} {n : Nat} (hname : f.isNamed Field.contentLength = true)
    (hraw : f.valueStr = some raw) (h : IsLength raw n) : agreeLengths none [f] = .ok (some n) := by
  have hmax : ¬ u64Max < n := Nat.not_lt.mpr h.le
  simp only [agreeLengths, hname, hraw, h.ne_nil, h.digits, Bool.not_true, Bool.false_eq_true,
    or_self, if_false, h.value, hmax]

/-- Where each answer of `bodyLength` comes from. -/
theorem bodyLength_ok {r : Request} {length : BodyLength} (h : r.bodyLength = .ok length) :
    (length = .none ∧ r.headers.count Field.transferEncoding = 0 ∧ r.headers.count Field.contentLength = 0) ∨
      (∃ n, length = .fixed n ∧ r.headers.count Field.transferEncoding = 0 ∧ 0 < r.headers.count Field.contentLength ∧
        agreeLengths none r.headers.fields = .ok (some n)) ∨
      (length = .chunked ∧ 0 < r.headers.count Field.transferEncoding ∧ r.headers.count Field.contentLength = 0) := by
  unfold bodyLength at h
  dsimp only at h
  split at h
  · cases h
  · rename_i hboth
    split at h
    · rename_i hte
      have hpos : 0 < r.headers.count Field.transferEncoding := by simpa [Headers.contains] using hte
      have hcl : r.headers.count Field.contentLength = 0 := by simpa [hte] using hboth
      split at h
      · cases h
      · split at h
        · cases h
        · split at h
          · cases h
            exact Or.inr (Or.inr ⟨rfl, hpos, hcl⟩)
          · cases h
    · rename_i hte
      have hzero : r.headers.count Field.transferEncoding = 0 := by simpa [Headers.contains] using hte
      split at h
      · rename_i hcl
        cases h
        exact Or.inl ⟨rfl, hzero, hcl⟩
      · rename_i hcl
        have hpos : 0 < r.headers.count Field.contentLength := Nat.pos_of_ne_zero hcl
        cases hagree : agreeLengths none r.headers.fields with
        | error e =>
            rw [hagree] at h
            cases h
        | ok agreed =>
            rw [hagree] at h
            cases h
            obtain ⟨f, -, hf, hname⟩ := Headers.find_of_count_pos hpos
            obtain ⟨raw, n, -, -, rfl⟩ := (agreeLengths_ok hagree).2 f hf hname
            exact Or.inr (Or.inl ⟨n, rfl, hzero, hpos, rfl⟩)

theorem bodyLength_of_absent {r : Request} (hte : r.headers.count Field.transferEncoding = 0)
    (hcl : r.headers.count Field.contentLength = 0) : r.bodyLength = .ok .none := by
  unfold bodyLength
  simp only [Headers.contains_eq_false.mpr hte, hcl]
  rfl

theorem bodyLength_of_agree {r : Request} {n : Nat} (hte : r.headers.count Field.transferEncoding = 0)
    (hcl : 0 < r.headers.count Field.contentLength) (h : agreeLengths none r.headers.fields = .ok (some n)) :
    r.bodyLength = .ok (.fixed n) := by
  unfold bodyLength
  simp only [Headers.contains_eq_false.mpr hte, Bool.false_eq_true,
    false_and, if_false, hcl.ne', h]
  rfl

end Request

end Selfhost.Http

/-!
# The head of a response

What `set` leaves in a list of fields, which framing fields a written head carries, and how its lines read
back: every field of a head is read as it was written, up to white space around its value.
-/

namespace Selfhost.Http

open Selfhost.Lib

/-! ## Setting a field -/

namespace Headers

theorem set_ok {hs hs' : Headers} {name : Str} {value : Bytes} (h : hs.set name value = .ok hs') :
    ∃ f : Header, f.name = name ∧ f.value = value ∧ hs'.fields = (hs.remove name).fields ++ [f] := by
  unfold set at h
  cases hf : Header.new name value with
  | error e =>
      rw [hf] at h
      cases h
  | ok f =>
      rw [hf] at h
      simp only [Except.bind, append, appendWithin] at h
      split at h
      · cases h
      · cases h
        exact ⟨f, (Header.new_ok hf).1, (Header.new_ok hf).2, rfl⟩

/-- A field that is well formed can be set while there is room for it. -/
theorem exists_set {hs : Headers} {name : Str} {value : Bytes} (hname : isTokenName name = true)
    (hvalue : isFieldValue value = true) (hroom : hs.len < maxHeaderCount) :
    ∃ hs', hs.set name value = .ok hs' ∧ hs'.len ≤ hs.len + 1 := by
  have hremove : (hs.remove name).len ≤ hs.len := List.length_filter_le _ _
  have hfit : ¬ maxHeaderCount ≤ (hs.remove name).len := by omega
  refine ⟨⟨(hs.remove name).fields ++ [⟨name, value, hname, hvalue⟩]⟩, ?_, ?_⟩
  · simp only [set, Header.new, dif_pos hname, dif_pos hvalue, Except.bind, append, appendWithin, hfit, if_false]
  · rw [len, List.length_append, List.length_singleton]
    exact Nat.add_le_add_right hremove 1

theorem mem_remove {hs : Headers} {name : Str} {f : Header} :
    f ∈ (hs.remove name).fields ↔ f ∈ hs.fields ∧ f.isNamed name = false := by
  simp [remove]

end Headers

/-! ## The framing fields of a written head -/

def connectionName : Str := "Connection".toList

def lengthName : Str := "Content-Length".toList

theorem lengthName_isNamed :
    eqIgnoreAsciiCase lengthName Field.contentLength = true ∧
      eqIgnoreAsciiCase lengthName Field.transferEncoding = false ∧
      eqIgnoreAsciiCase connectionName Field.contentLength = false ∧
      eqIgnoreAsciiCase connectionName Field.transferEncoding = false ∧
      eqIgnoreAsciiCase lengthName connectionName = false := by
  decide

theorem fieldText_natText (n : Nat) : FieldText (natText n) := by
  refine Visible.fieldText fun c hc => ?_
  have hdigit := isDigit_of_mem_natText hc
  simp only [Char.isDigit, Bool.and_eq_true, decide_eq_true_eq, ge_iff_le, UInt32.le_iff_toNat_le] at hdigit
  have hzero : '0'.val.toNat = 48 := rfl
  have hc : c.toNat = c.val.toNat := rfl
  omega

namespace Response

/-- The lengths among the fields a head is written with: one that states the body's length, none where the
status forbids a body. -/
theorem wireHeaders_lengths {r : Response} {keepAlive : Bool} {hs : Headers}
    (h : r.wireHeaders keepAlive = .ok hs) :
    (r.status.forbidsBody = false → ∃ f : Header, hs.fields.filter (·.isNamed Field.contentLength) = [f] ∧
      f.value = utf8 (natText r.body.len)) := by
  intro hbody
  unfold wireHeaders at h
  rw [hbody] at h
  simp only [Bool.false_eq_true, if_false] at h
  cases hset : ((r.headers.remove Field.contentLength).remove Field.transferEncoding).set
      "Content-Length".toList (utf8 (natText r.body.len)) with
  | error e =>
      rw [hset] at h
      cases h
  | ok hs₁ =>
      rw [hset] at h
      simp only [Except.bind] at h
      obtain ⟨f, hfname, hfvalue, hf⟩ := Headers.set_ok hset
      obtain ⟨hlen, -, hconn, -, hne⟩ := lengthName_isNamed
      have hfirst : hs₁.fields.filter (·.isNamed Field.contentLength) = [f] := by
        rw [hf, List.filter_append]
        have hnone : (((r.headers.remove Field.contentLength).remove Field.transferEncoding).remove
            "Content-Length".toList).fields.filter (·.isNamed Field.contentLength) = [] := by
          rw [List.filter_eq_nil_iff]
          intro g hg
          have := (Headers.mem_remove.mp (Headers.mem_remove.mp (Headers.mem_remove.mp hg).1).1).2
          simp [this]
        rw [hnone, List.nil_append, List.filter_cons_of_pos (by rw [Header.isNamed, hfname]; exact hlen),
          List.filter_nil]
      have hsecond : ∀ value hs₂, hs₁.set "Connection".toList value = .ok hs₂ →
          hs₂.fields.filter (·.isNamed Field.contentLength) = [f] := by
        intro value hs₂ h₂
        obtain ⟨g, hgname, -, hg⟩ := Headers.set_ok h₂
        have hkeep : (hs₁.remove "Connection".toList).fields.filter (·.isNamed Field.contentLength) =
            hs₁.fields.filter (·.isNamed Field.contentLength) := by
          rw [Headers.remove, List.filter_filter]
          refine List.filter_congr fun k hk => ?_
          by_cases hk : k.isNamed Field.contentLength = true
          · have hnot : k.isNamed connectionName = false := by
              rw [Header.isNamed, eqIgnoreAsciiCase_congr hk, ← eqIgnoreAsciiCase_congr hlen]
              exact hne
            rw [hk, Bool.true_and]
            exact congrArg Bool.not hnot
          · rw [Bool.eq_false_iff.mpr hk, Bool.false_and]
        rw [hg, List.filter_append, hkeep, hfirst, List.filter_cons_of_neg, List.filter_nil, List.append_nil]
        rw [Header.isNamed, hgname]
        exact Bool.eq_false_iff.mp hconn
      split at h
      · exact ⟨f, hsecond _ _ h, hfvalue⟩
      · exact ⟨f, hsecond _ _ h, hfvalue⟩

/-- A head can be written while there is room for the framing fields. -/
theorem exists_writeHead (r : Response) (keepAlive : Bool) (hroom : r.headers.len + 2 ≤ maxHeaderCount) :
    ∃ head, r.writeHead keepAlive = .ok head := by
  have hfirst : ((r.headers.remove Field.contentLength).remove Field.transferEncoding).len ≤ r.headers.len :=
    (List.length_filter_le _ _).trans (List.length_filter_le _ _)
  have hconnection : isTokenName connectionName = true := by decide
  have hvalues : isFieldValue (utf8 "Upgrade".toList) = true ∧ isFieldValue (utf8 "keep-alive".toList) = true ∧
      isFieldValue (utf8 "close".toList) = true := by decide
  -- The second of the two fields goes into any list that the first left room in.
  have hlast : ∀ hs : Headers, hs.len ≤ r.headers.len + 1 → ∃ hs' : Headers,
      (if r.status = .switchingProtocols then hs.set connectionName (utf8 "Upgrade".toList)
        else hs.set connectionName (utf8 (if keepAlive then "keep-alive".toList else "close".toList))) = .ok hs' := by
    intro hs hle
    have hlt : hs.len < maxHeaderCount := by omega
    split
    · obtain ⟨hs', h, -⟩ := Headers.exists_set hconnection hvalues.1 hlt
      exact ⟨hs', h⟩
    · cases keepAlive with
      | true =>
          obtain ⟨hs', h, -⟩ := Headers.exists_set hconnection hvalues.2.1 hlt
          exact ⟨hs', h⟩
      | false =>
          obtain ⟨hs', h, -⟩ := Headers.exists_set hconnection hvalues.2.2 hlt
          exact ⟨hs', h⟩
  have hwire : ∃ hs, r.wireHeaders keepAlive = .ok hs := by
    unfold wireHeaders
    dsimp only
    split
    · exact hlast _ (hfirst.trans (Nat.le_succ _))
    · obtain ⟨hs₁, h₁, hle⟩ := @Headers.exists_set
        ((r.headers.remove Field.contentLength).remove Field.transferEncoding) lengthName
        (utf8 (natText r.body.len)) (by decide) (isFieldValue_utf8 (fieldText_natText _)) (by omega)
      obtain ⟨hs₂, h₂⟩ := hlast hs₁ (by omega)
      exact ⟨hs₂, by rw [show ((r.headers.remove Field.contentLength).remove Field.transferEncoding).set
        "Content-Length".toList (utf8 (natText r.body.len)) = .ok hs₁ from h₁]; exact h₂⟩
  obtain ⟨hs, hhs⟩ := hwire
  exact ⟨_, by rw [writeHead, hhs]; rfl⟩

theorem errorPage_headers (status : Status) : (errorPage status).headers.len ≤ 1 := by
  obtain ⟨hs, hset, hle⟩ := @Headers.exists_set .empty "Content-Type".toList
    (utf8 "text/html; charset=utf-8".toList) (by decide) (by decide) (by decide)
  simp only [errorPage, html, bytes, hset, Except.map, -String.reduceToList]
  exact hle

end Response

end Selfhost.Http
