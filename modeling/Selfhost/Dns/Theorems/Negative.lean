import Selfhost.Dns.Lemmas.Resolve

/-!
# Negative answers

Whether a name exists is a question about the tree of owner names; the server answers it by equality tests.
`truthful_iff` says exactly when the two agree.
-/

namespace Selfhost.Dns

open Selfhost.Lib

variable {zone : Zone} {query : Query}

/-- The zone holds a record of a type at a name: among its records, or as the SOA or the nameservers of its apex. -/
def Zone.Holds (zone : Zone) (q : Str) (t : RecordType) : Prop :=
  (∃ record ∈ zone.records, record.name = q ∧ dataType record.data = t) ∨
    q = zone.origin ∧ (t = .soa ∨ t = .ns ∧ zone.nameservers ≠ [])

def Zone.Aliased (zone : Zone) (q : Str) : Prop :=
  ∃ record ∈ zone.records, record.name = q ∧ dataType record.data = .cname

/-- A name is denied only if nothing is at it or beneath it, a type only if neither it nor an alias is there, and
both with the SOA. -/
structure Truthful (zone : Zone) (query : Query) : Prop where
  absent : (resolve zone query).code = .nameError → ∀ owner ∈ zone.owners, ¬Under (normalize query.name) owner
  noData : (resolve zone query).code = .noError → (resolve zone query).answers = [] →
    ¬zone.Holds (normalize query.name) query.recordType ∧ ¬zone.Aliased (normalize query.name)
  soa : (resolve zone query).code = .nameError ∨
      (resolve zone query).code = .noError ∧ (resolve zone query).answers = [] →
    zone.soaRecord ∈ (resolve zone query).authority

/-- The queries that equality tests answer truthfully. -/
structure Plain (zone : Zone) (query : Query) : Prop where
  /-- The name owns something, or nothing is beneath it. -/
  interior : normalize query.name ∈ zone.owners ∨ ∀ owner ∈ zone.owners, ¬Under (normalize query.name) owner
  /-- At an alias, addresses, the alias or a type that is held there are asked for. -/
  aliased : zone.Aliased (normalize query.name) →
    query.recordType = .a ∨ query.recordType = .aaaa ∨ query.recordType = .cname ∨
      zone.Holds (normalize query.name) query.recordType
  /-- The SOA and the nameservers of the apex are asked for without dots at the end of the name. -/
  apex : normalize query.name = zone.origin →
    query.recordType = .soa ∨ query.recordType = .ns ∧ zone.nameservers ≠ [] →
    eqIgnoreAsciiCase query.name zone.origin = true ∨ zone.direct (normalize query.name) query.recordType ≠ []
  /-- There are nameservers when the apex is asked for them. -/
  served : eqIgnoreAsciiCase query.name zone.origin = true → query.recordType = .ns → zone.nameservers ≠ []

theorem Zone.nsRecords_ne_nil : zone.nsRecords ≠ [] ↔ zone.nameservers ≠ [] := by
  rw [Zone.nsRecords, ne_eq, List.map_eq_nil_iff]

/-- An answer with records denies nothing. -/
theorem truthful_of_answers (hcode : (resolve zone query).code ≠ .nameError)
    (hanswers : (resolve zone query).answers ≠ []) : Truthful zone query :=
  ⟨fun h => absurd h hcode, fun _ h => absurd h hanswers,
    fun h => h.elim (fun h => absurd h hcode) fun h => absurd h.2 hanswers⟩

theorem Zone.Aliased.of_isSome {q : Str} (h : (zone.alias? q).isSome = true) : zone.Aliased q :=
  Zone.alias?_isSome.mp h

theorem Zone.mem_owners_of_holds {q : Str} {t : RecordType} (h : zone.Holds q t) : q ∈ zone.owners := by
  rcases h with ⟨record, hmem, rfl, -⟩ | ⟨rfl, -⟩
  · exact Zone.mem_owners_of_record hmem
  · exact List.mem_cons_self

theorem Zone.mem_owners_of_aliased {q : Str} (h : zone.Aliased q) : q ∈ zone.owners := by
  obtain ⟨record, hmem, rfl, -⟩ := h
  exact Zone.mem_owners_of_record hmem

/-! ## The endings -/

theorem plain_of_apex_soa (hapex : eqIgnoreAsciiCase query.name zone.origin = true) (htype : query.recordType = .soa) :
    Plain zone query := by
  have hq := Zone.normalize_of_apex hapex
  refine ⟨Or.inl (by rw [hq]; exact List.mem_cons_self), fun _ => ?_, fun _ _ => Or.inl hapex, fun _ hns => ?_⟩
  · exact Or.inr (Or.inr (Or.inr (Or.inr ⟨hq, Or.inl htype⟩)))
  · rw [htype] at hns
    cases hns

theorem plain_iff_apex_ns (hapex : eqIgnoreAsciiCase query.name zone.origin = true) (htype : query.recordType = .ns) :
    Plain zone query ↔ zone.nameservers ≠ [] := by
  have hq := Zone.normalize_of_apex hapex
  constructor
  · intro h
    exact h.served hapex htype
  · intro hne
    refine ⟨Or.inl (by rw [hq]; exact List.mem_cons_self), fun _ => ?_, fun _ _ => Or.inl hapex, fun _ _ => hne⟩
    exact Or.inr (Or.inr (Or.inr (Or.inr ⟨hq, Or.inr ⟨htype, hne⟩⟩)))

theorem plain_of_found
    (hapex : eqIgnoreAsciiCase query.name zone.origin = true → query.recordType ≠ .soa ∧ query.recordType ≠ .ns)
    (hanswers : zone.answer query.name query.recordType ≠ []) : Plain zone query := by
  rcases Zone.answer_ne_nil.mp hanswers with hdirect | ⟨haddress, halias⟩
  · have hholds := Zone.direct_ne_nil.mp hdirect
    refine ⟨Or.inl (Zone.mem_owners_of_holds (Or.inl hholds)), fun _ => ?_, fun _ _ => Or.inr hdirect,
      fun h hns => absurd hns (hapex h).2⟩
    exact Or.inr (Or.inr (Or.inr (Or.inl hholds)))
  · refine ⟨Or.inl (Zone.mem_owners_of_aliased (.of_isSome halias)), fun _ => ?_, fun _ htype => ?_,
      fun h hns => absurd hns (hapex h).2⟩
    · exact haddress.imp_right Or.inl
    · rcases haddress with h | h
      · rw [h] at htype
        exact htype.elim (fun h => (nomatch h)) fun h => (nomatch h.1)
      · rw [h] at htype
        exact htype.elim (fun h => (nomatch h)) fun h => (nomatch h.1)

/-- At a name that exists, an empty answer is truthful when neither the type nor an alias is there. -/
theorem plain_iff_noData (hexists : normalize query.name ∈ zone.owners)
    (hapex : eqIgnoreAsciiCase query.name zone.origin = true → query.recordType ≠ .soa ∧ query.recordType ≠ .ns)
    (hanswers : zone.answer query.name query.recordType = []) :
    Plain zone query ↔
      ¬zone.Holds (normalize query.name) query.recordType ∧ ¬zone.Aliased (normalize query.name) := by
  have hempty := mt Zone.answer_ne_nil.mpr (not_not.mpr hanswers)
  constructor
  · intro h
    have hholds : ¬zone.Holds (normalize query.name) query.recordType := by
      rintro (hrecord | ⟨hq, htype⟩)
      · exact hempty (Or.inl (Zone.direct_ne_nil.mpr hrecord))
      · rcases h.apex hq htype with hwritten | hdirect
        · rcases htype with htype | htype
          · exact (hapex hwritten).1 htype
          · exact (hapex hwritten).2 htype.1
        · exact hempty (Or.inl hdirect)
    refine ⟨hholds, fun haliased => ?_⟩
    rcases h.aliased haliased with ha | haaaa | hcname | hheld
    · exact hempty (Or.inr ⟨Or.inl ha, Zone.alias?_isSome.mpr haliased⟩)
    · exact hempty (Or.inr ⟨Or.inr haaaa, Zone.alias?_isSome.mpr haliased⟩)
    · exact hempty (Or.inl (Zone.direct_ne_nil.mpr (by rw [hcname]; exact haliased)))
    · exact hholds hheld
  · rintro ⟨hholds, haliased⟩
    exact ⟨Or.inl hexists, fun h => absurd h haliased, fun hq htype => absurd (Or.inr ⟨hq, htype⟩) hholds,
      fun h hns => absurd hns (hapex h).2⟩

theorem plain_iff_absent (hexists : normalize query.name ∉ zone.owners) :
    Plain zone query ↔ ∀ owner ∈ zone.owners, ¬Under (normalize query.name) owner := by
  have horigin : normalize query.name ≠ zone.origin := fun h => hexists (by rw [h]; exact List.mem_cons_self)
  constructor
  · intro h
    exact h.interior.resolve_left hexists
  · intro h
    exact ⟨Or.inr h, fun haliased => absurd (Zone.mem_owners_of_aliased haliased) hexists,
      fun hq => absurd hq horigin, fun hapex => absurd (Zone.normalize_of_apex hapex) horigin⟩

/-! ## Truthful answers -/

/-- The negative answers of a zone are truthful exactly for transfers, which are refused, and for plain queries. -/
theorem truthful_iff (zone : Zone) (query : Query) :
    Truthful zone query ↔ isTransfer query.recordType = true ∨ Plain zone query := by
  cases ending zone query with
  | transfer h eq =>
      refine ⟨fun _ => Or.inl h, fun _ => ⟨?_, ?_, ?_⟩⟩
      · rw [eq]
        intro hcode
        cases hcode
      · rw [eq]
        intro hcode
        cases hcode
      · rw [eq]
        rintro (hcode | ⟨hcode, -⟩)
        · cases hcode
        · cases hcode
  | soa h apex type eq =>
      refine ⟨fun _ => Or.inr (plain_of_apex_soa apex type), fun _ => truthful_of_answers ?_ ?_⟩
      · rw [eq]
        intro hcode
        cases hcode
      · rw [eq]
        exact List.cons_ne_nil _ _
  | ns h apex type eq =>
      rw [plain_iff_apex_ns apex type, or_iff_right (by rw [h]; exact Bool.false_ne_true)]
      constructor
      · intro htruthful hnil
        have hnone : zone.nsRecords = [] := not_not.mp (mt Zone.nsRecords_ne_nil.mp (not_not.mpr hnil))
        have hsoa := htruthful.soa (by rw [eq]; exact Or.inr ⟨rfl, hnone⟩)
        rw [eq] at hsoa
        cases hsoa
      · intro hne
        refine truthful_of_answers ?_ ?_
        · rw [eq]
          intro hcode
          cases hcode
        · rw [eq]
          exact Zone.nsRecords_ne_nil.mpr hne
  | found h apex answers eq =>
      refine ⟨fun _ => Or.inr (plain_of_found apex answers), fun _ => truthful_of_answers ?_ ?_⟩
      · rw [eq]
        intro hcode
        cases hcode
      · rw [eq]
        exact answers
  | negative h apex answers eq =>
      rw [or_iff_right (by rw [h]; exact Bool.false_ne_true)]
      by_cases hexists : normalize query.name ∈ zone.owners
      · rw [plain_iff_noData hexists apex answers]
        have hcode : (resolve zone query).code = .noError := by
          rw [eq, Zone.nameExists_iff.mpr hexists]
          rfl
        constructor
        · intro htruthful
          exact htruthful.noData hcode (by rw [eq])
        · intro hnone
          refine ⟨?_, fun _ _ => hnone, ?_⟩
          · rw [hcode]
            intro hname
            cases hname
          · intro _
            rw [eq]
            exact List.mem_singleton.mpr rfl
      · rw [plain_iff_absent hexists]
        have hcode : (resolve zone query).code = .nameError := by
          rw [eq, Bool.eq_false_iff.mpr (mt Zone.nameExists_iff.mp hexists)]
          rfl
        constructor
        · intro htruthful
          exact htruthful.absent hcode
        · intro hnone
          refine ⟨fun _ => hnone, ?_, ?_⟩
          · rw [hcode]
            intro hname
            cases hname
          · intro _
            rw [eq]
            exact List.mem_singleton.mpr rfl

/-- A zone with one service locator. -/
def locatorConfig : ZoneConfig :=
  ⟨"example.com".toList, none, [],
    [⟨"_imaps._tcp".toList, "SRV".toList, 3600, "0 1 993 imap.example.com".toList, none⟩]⟩

def locatorZone : Zone := .fromConfig locatorConfig [] 2026010100 none

/-- The parent of the locator, asked for its address. -/
def interiorQuery : Query := ⟨1, "_tcp.example.com".toList, .a, false⟩

/-- The parent of a service locator is denied, although the locator is beneath it. -/
theorem interior_denied :
    locatorZone.contains interiorQuery.name = true ∧ (resolve locatorZone interiorQuery).code = .nameError ∧
      (∃ owner ∈ locatorZone.owners, Under (normalize interiorQuery.name) owner) ∧
      ¬Truthful locatorZone interiorQuery := by
  have hcode : (resolve locatorZone interiorQuery).code = .nameError := by decide +kernel
  have hbeneath : ∃ owner ∈ locatorZone.owners, Under (normalize interiorQuery.name) owner := by decide +kernel
  refine ⟨by decide +kernel, hcode, hbeneath, ?_⟩
  intro h
  obtain ⟨owner, hmem, hunder⟩ := hbeneath
  exact h.absent hcode owner hmem hunder

end Selfhost.Dns
