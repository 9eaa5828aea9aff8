import Mathlib.Data.List.Perm.Subperm
import Selfhost.Dns.Authority
import Selfhost.Dns.Server

/-!
# What a zone answers

When `answer` finds something, and the five ways in which `resolve` ends.
-/

namespace Selfhost.Dns

open Selfhost.Lib

variable {zone : Zone} {query : Query}

/-! ## Names -/

theorem Zone.lower_origin (zone : Zone) : toAsciiLowercase zone.origin = zone.origin :=
  toAsciiLowercase_of_normalize zone.origin_stored

/-- A name that is written as the origin, up to case, is the apex. -/
theorem Zone.normalize_of_apex (h : eqIgnoreAsciiCase query.name zone.origin = true) :
    normalize query.name = zone.origin := by
  have hname : toAsciiLowercase query.name = zone.origin := by
    rw [← zone.lower_origin]
    exact beq_iff_eq.mp h
  rw [normalize, ← trimDots_toAsciiLowercase, hname]
  have hstored := zone.origin_stored
  rwa [normalize, ← trimDots_toAsciiLowercase, zone.lower_origin] at hstored

/-! ## Records -/

theorem Zone.direct_ne_nil {q : Str} {t : RecordType} :
    zone.direct q t ≠ [] ↔ ∃ record ∈ zone.records, record.name = q ∧ dataType record.data = t := by
  rw [Zone.direct, ne_eq, List.filter_eq_nil_iff]
  push Not
  exact exists_congr fun record => and_congr_right fun _ => decide_eq_true_iff

theorem Zone.alias?_isSome {q : Str} :
    (zone.alias? q).isSome = true ↔ ∃ record ∈ zone.records, record.name = q ∧ dataType record.data = .cname := by
  rw [Zone.alias?, List.find?_isSome]
  exact exists_congr fun record => and_congr_right fun _ => decide_eq_true_iff

/-- An answer is not empty when the type is held, or an address is asked for and there is an alias. -/
theorem Zone.answer_ne_nil {qname : Str} {t : RecordType} :
    zone.answer qname t ≠ [] ↔
      zone.direct (normalize qname) t ≠ [] ∨
        (t = .a ∨ t = .aaaa) ∧ (zone.alias? (normalize qname)).isSome = true := by
  rw [Zone.answer, maxCnameChain, Zone.answerWithin]
  split
  · rename_i hdirect
    exact ⟨fun _ => Or.inl hdirect, fun _ => hdirect⟩
  · rename_i hdirect
    split
    · rename_i haddress
      split
      · rename_i hnone
        rw [hnone]
        exact ⟨fun h => absurd rfl h, fun h => h.elim (fun h => absurd h hdirect) fun h => (nomatch h.2)⟩
      · rename_i record hsome
        have hright : (zone.alias? (normalize qname)).isSome = true := by rw [hsome]; rfl
        refine ⟨fun _ => Or.inr ⟨haddress, hright⟩, fun _ => ?_⟩
        split
        · exact List.cons_ne_nil _ _
        · exact List.cons_ne_nil _ _
    · rename_i haddress
      exact ⟨fun h => absurd rfl h, fun h => h.elim (fun h => absurd h hdirect) fun h => absurd h.1 haddress⟩

/-! ## Resolution -/

/-- The names that own something in a zone: its apex, its nameservers and its records. -/
def Zone.owners (zone : Zone) : List Str :=
  zone.origin :: (zone.nameservers.map normalize ++ zone.records.map Record.name)

theorem Zone.nameExists_iff {qname : Str} : zone.nameExists qname = true ↔ normalize qname ∈ zone.owners := by
  rw [Zone.nameExists, Zone.owners, List.mem_cons, List.mem_append, List.mem_map, List.mem_map]
  simp only [Bool.or_eq_true, decide_eq_true_eq, List.any_eq_true, or_assoc]

theorem Zone.mem_owners_of_record {record : Record} (h : record ∈ zone.records) : record.name ∈ zone.owners :=
  List.mem_cons_of_mem _ (List.mem_append_right _ (List.mem_map_of_mem h))

/-- How `resolve` ends. -/
inductive Ending (zone : Zone) (query : Query) : Prop where
  | transfer (h : isTransfer query.recordType = true) (eq : resolve zone query = ⟨.refused, [], [], []⟩)
  | soa (h : isTransfer query.recordType = false) (apex : eqIgnoreAsciiCase query.name zone.origin = true)
      (type : query.recordType = .soa)
      (eq : resolve zone query = ⟨.noError, [zone.soaRecord], zone.nsRecords, glue zone zone.nsRecords⟩)
  | ns (h : isTransfer query.recordType = false) (apex : eqIgnoreAsciiCase query.name zone.origin = true)
      (type : query.recordType = .ns)
      (eq : resolve zone query = ⟨.noError, zone.nsRecords, [], glue zone zone.nsRecords⟩)
  | found (h : isTransfer query.recordType = false)
      (apex : eqIgnoreAsciiCase query.name zone.origin = true → query.recordType ≠ .soa ∧ query.recordType ≠ .ns)
      (answers : zone.answer query.name query.recordType ≠ [])
      (eq : resolve zone query =
        ⟨.noError, zone.answer query.name query.recordType, zone.nsRecords,
          addMissing (glue zone zone.nsRecords) (glue zone (zone.answer query.name query.recordType))⟩)
  | negative (h : isTransfer query.recordType = false)
      (apex : eqIgnoreAsciiCase query.name zone.origin = true → query.recordType ≠ .soa ∧ query.recordType ≠ .ns)
      (answers : zone.answer query.name query.recordType = [])
      (eq : resolve zone query =
        ⟨if zone.nameExists query.name then .noError else .nameError, [], [zone.soaRecord], []⟩)

theorem ending (zone : Zone) (query : Query) : Ending zone query := by
  by_cases htransfer : isTransfer query.recordType = true
  · exact .transfer htransfer (by rw [resolve, if_pos htransfer])
  · have hplain := Bool.eq_false_iff.mpr htransfer
    by_cases hsoa : (eqIgnoreAsciiCase query.name zone.origin && decide (query.recordType = .soa)) = true
    · have hboth := Bool.and_eq_true_iff.mp hsoa
      exact .soa hplain hboth.1 (of_decide_eq_true hboth.2) (by rw [resolve, if_neg htransfer, if_pos hsoa])
    · by_cases hns : (eqIgnoreAsciiCase query.name zone.origin && decide (query.recordType = .ns)) = true
      · have hboth := Bool.and_eq_true_iff.mp hns
        exact .ns hplain hboth.1 (of_decide_eq_true hboth.2)
          (by rw [resolve, if_neg htransfer, if_neg hsoa, if_pos hns])
      · have hapex : eqIgnoreAsciiCase query.name zone.origin = true →
            query.recordType ≠ .soa ∧ query.recordType ≠ .ns := by
          intro hapex
          exact ⟨fun h => hsoa (by rw [hapex, h]; rfl), fun h => hns (by rw [hapex, h]; rfl)⟩
        by_cases hanswers : zone.answer query.name query.recordType = []
        · exact .negative hplain hapex hanswers (by
            rw [resolve, if_neg htransfer, if_neg hsoa, if_neg hns]
            simp only [hanswers, ne_eq, not_true_eq_false, if_false])
        · exact .found hplain hapex hanswers (by
            rw [resolve, if_neg htransfer, if_neg hsoa, if_neg hns]
            simp only [ne_eq, hanswers, not_false_eq_true, if_true])

/-! ## The sections -/

theorem Zone.mem_answerWithin {qtype : RecordType} {hops : Nat} {qname : Str} {record : Record}
    (h : record ∈ zone.answerWithin qtype hops qname) : record ∈ zone.records := by
  induction hops generalizing qname with
  | zero =>
      rw [Zone.answerWithin] at h
      split at h
      · exact List.mem_of_mem_filter h
      · split at h
        · cases h
        · cases h
  | succ hops ih =>
      rw [Zone.answerWithin] at h
      split at h
      · exact List.mem_of_mem_filter h
      · split at h
        · split at h
          · cases h
          · rename_i found hfound
            have hmem : found ∈ zone.records := List.mem_of_find?_eq_some hfound
            split at h
            · rcases List.mem_cons.mp h with rfl | h
              · exact hmem
              · exact ih h
            · rw [List.mem_singleton.mp h]
              exact hmem
        · cases h

theorem Zone.mem_answer {qname : Str} {qtype : RecordType} {record : Record} (h : record ∈ zone.answer qname qtype) :
    record ∈ zone.records := Zone.mem_answerWithin h

/-- An answer is a chain of aliases and then the records of one name. -/
theorem Zone.length_answerWithin (zone : Zone) (qtype : RecordType) (hops : Nat) (qname : Str) :
    (zone.answerWithin qtype hops qname).length ≤ hops + zone.records.length := by
  induction hops generalizing qname with
  | zero =>
      rw [Zone.answerWithin]
      split
      · rw [Nat.zero_add]
        exact List.length_filter_le _ _
      · split
        · exact Nat.zero_le _
        · exact Nat.zero_le _
  | succ hops ih =>
      rw [Zone.answerWithin]
      split
      · exact (List.length_filter_le _ _).trans (Nat.le_add_left _ _)
      · split
        · split
          · exact Nat.zero_le _
          · split
            · rename_i target hdata
              have := ih target
              rw [List.length_cons]
              omega
            · rw [List.length_singleton]
              omega
        · exact Nat.zero_le _

theorem addMissing_nodup {out records : List Record} (h : out.Nodup) : (addMissing out records).Nodup := by
  induction records generalizing out with
  | nil => exact h
  | cons record records ih =>
      rw [addMissing, List.foldl_cons]
      split
      · exact ih h
      · rename_i hmem
        refine ih (List.nodup_append.mpr ⟨h, List.pairwise_singleton _ _, ?_⟩)
        intro a ha b hb
        rw [List.mem_singleton.mp hb]
        rintro rfl
        exact hmem ha

theorem mem_addMissing {out records : List Record} {record : Record} :
    record ∈ addMissing out records ↔ record ∈ out ∨ record ∈ records := by
  induction records generalizing out with
  | nil => simp [addMissing]
  | cons first records ih =>
      rw [addMissing, List.foldl_cons, ← addMissing, ih, List.mem_cons]
      split
      · rename_i hmem
        constructor
        · exact fun h => h.imp_right Or.inr
        · rintro (h | rfl | h)
          · exact Or.inl h
          · exact Or.inl hmem
          · exact Or.inr h
      · rw [List.mem_append, List.mem_singleton, or_assoc]

theorem mem_glueOne {out : List Record} {source record : Record} :
    record ∈ glueOne zone out source ↔
      record ∈ out ∨ ∃ target, glueTarget source.data = some target ∧ zone.contains target = true ∧
        (record ∈ zone.answer target .a ∨ record ∈ zone.answer target .aaaa) := by
  unfold glueOne
  cases htarget : glueTarget source.data with
  | none => simp
  | some target =>
      dsimp only
      split
      · rename_i hcontains
        rw [mem_addMissing, List.mem_append]
        refine or_congr_right ⟨fun h => ⟨target, rfl, hcontains, h⟩, ?_⟩
        rintro ⟨other, heq, -, h⟩
        cases heq
        exact h
      · rename_i hcontains
        refine ⟨Or.inl, fun h => h.resolve_right ?_⟩
        rintro ⟨other, heq, h, -⟩
        cases heq
        exact hcontains h

/-- The glue of records is the addresses of the names in the zone that they name. -/
theorem mem_glue {records : List Record} {record : Record} :
    record ∈ glue zone records ↔
      ∃ source ∈ records, ∃ target, glueTarget source.data = some target ∧ zone.contains target = true ∧
        (record ∈ zone.answer target .a ∨ record ∈ zone.answer target .aaaa) := by
  have hgeneral : ∀ out : List Record, record ∈ records.foldl (glueOne zone) out ↔
      record ∈ out ∨ ∃ source ∈ records, ∃ target, glueTarget source.data = some target ∧
        zone.contains target = true ∧ (record ∈ zone.answer target .a ∨ record ∈ zone.answer target .aaaa) := by
    induction records with
    | nil => simp
    | cons first records ih =>
        intro out
        rw [List.foldl_cons, ih, mem_glueOne, or_assoc]
        refine or_congr_right ?_
        simp only [List.mem_cons, exists_eq_or_imp]
  rw [glue, hgeneral []]
  simp only [List.not_mem_nil, false_or]

theorem glue_nodup (zone : Zone) (records : List Record) : (glue zone records).Nodup := by
  have hgeneral : ∀ out : List Record, out.Nodup → (records.foldl (glueOne zone) out).Nodup := by
    induction records with
    | nil => exact fun _ h => h
    | cons first records ih =>
        intro out h
        rw [List.foldl_cons]
        apply ih
        unfold glueOne
        split
        · exact h
        · split
          · exact addMissing_nodup h
          · exact h
  exact hgeneral [] List.nodup_nil

theorem mem_records_of_glue {records : List Record} {record : Record} (h : record ∈ glue zone records) :
    record ∈ zone.records := by
  obtain ⟨source, -, target, -, -, h⟩ := mem_glue.mp h
  exact h.elim Zone.mem_answer Zone.mem_answer

/-- An answer is the SOA, a nameserver that was asked for, or what the zone answers. -/
theorem mem_resolve_answers {record : Record} (h : record ∈ (resolve zone query).answers) :
    record = zone.soaRecord ∨ query.recordType = .ns ∧ record ∈ zone.nsRecords ∨
      record ∈ zone.answer query.name query.recordType := by
  cases ending zone query with
  | transfer _ eq =>
      rw [eq] at h
      cases h
  | soa _ _ _ eq =>
      rw [eq] at h
      exact Or.inl (List.mem_singleton.mp h)
  | ns _ _ htype eq =>
      rw [eq] at h
      exact Or.inr (Or.inl ⟨htype, h⟩)
  | found _ _ _ eq =>
      rw [eq] at h
      exact Or.inr (Or.inr h)
  | negative _ _ _ eq =>
      rw [eq] at h
      cases h

theorem mem_resolve_authority {record : Record} (h : record ∈ (resolve zone query).authority) :
    record = zone.soaRecord ∨ record ∈ zone.nsRecords := by
  cases ending zone query with
  | transfer _ eq =>
      rw [eq] at h
      cases h
  | soa _ _ _ eq =>
      rw [eq] at h
      exact Or.inr h
  | ns _ _ _ eq =>
      rw [eq] at h
      cases h
  | found _ _ _ eq =>
      rw [eq] at h
      exact Or.inr h
  | negative _ _ _ eq =>
      rw [eq] at h
      exact Or.inl (List.mem_singleton.mp h)

/-- What goes along are addresses of nameservers, and of what the zone answers. -/
theorem mem_resolve_additional {record : Record} (h : record ∈ (resolve zone query).additional) :
    record ∈ glue zone zone.nsRecords ∨ record ∈ glue zone (zone.answer query.name query.recordType) := by
  cases ending zone query with
  | transfer _ eq =>
      rw [eq] at h
      cases h
  | soa _ _ _ eq =>
      rw [eq] at h
      exact Or.inl h
  | ns _ _ _ eq =>
      rw [eq] at h
      exact Or.inl h
  | found _ _ _ eq =>
      rw [eq] at h
      exact mem_addMissing.mp h
  | negative _ _ _ eq =>
      rw [eq] at h
      cases h

/-- The records that are held are the answer. -/
theorem Zone.answer_eq_direct {qname : Str} {t : RecordType} (h : zone.direct (normalize qname) t ≠ []) :
    zone.answer qname t = zone.direct (normalize qname) t := by
  rw [Zone.answer, maxCnameChain, Zone.answerWithin]
  exact if_pos h

/-- Every record that is held at the name and the type of a query, other than those of the apex, is in the answer. -/
theorem mem_answers_of_held {record : Record} (hmem : record ∈ zone.records)
    (hname : record.name = normalize query.name) (htype : dataType record.data = query.recordType)
    (hplain : isTransfer query.recordType = false) (hapex : query.recordType ≠ .soa ∧ query.recordType ≠ .ns) :
    record ∈ (resolve zone query).answers := by
  have hheld : record ∈ zone.direct (normalize query.name) query.recordType :=
    List.mem_filter.mpr ⟨hmem, decide_eq_true ⟨hname, htype⟩⟩
  have hanswer := Zone.answer_eq_direct (List.ne_nil_of_mem hheld)
  cases ending zone query with
  | transfer h _ =>
      rw [hplain] at h
      cases h
  | soa _ _ h _ => exact absurd h hapex.1
  | ns _ _ h _ => exact absurd h hapex.2
  | found _ _ _ eq =>
      rw [eq]
      dsimp only
      rw [hanswer]
      exact hheld
  | negative _ _ h _ =>
      rw [hanswer] at h
      exact absurd h (List.ne_nil_of_mem hheld)

/-- A query for the SOA of the apex brings it, the nameservers and their addresses. -/
theorem resolve_soa (zone : Zone) :
    resolve zone ⟨0, zone.origin, .soa, false⟩ =
      ⟨.noError, [zone.soaRecord], zone.nsRecords, glue zone zone.nsRecords⟩ := by
  have hapex : eqIgnoreAsciiCase zone.origin zone.origin = true := beq_self_eq_true _
  cases ending zone ⟨0, zone.origin, .soa, false⟩ with
  | transfer h _ => cases h
  | soa _ _ _ eq => exact eq
  | ns _ _ h _ => cases h
  | found _ h _ _ => exact absurd rfl (h hapex).1
  | negative _ h _ _ => exact absurd rfl (h hapex).1

/-- The records of a resolution come from the zone. -/
theorem mem_resolve {record : Record} (h : record ∈ (resolve zone query).answers ++ (resolve zone query).authority ++
    (resolve zone query).additional) :
    record = zone.soaRecord ∨ record ∈ zone.nsRecords ∨ record ∈ zone.records := by
  rcases List.mem_append.mp h with h | h
  · rcases List.mem_append.mp h with h | h
    · rcases mem_resolve_answers h with h | ⟨-, h⟩ | h
      · exact Or.inl h
      · exact Or.inr (Or.inl h)
      · exact Or.inr (Or.inr (Zone.mem_answer h))
    · exact (mem_resolve_authority h).imp_right Or.inl
  · exact Or.inr (Or.inr ((mem_resolve_additional h).elim mem_records_of_glue mem_records_of_glue))

/-- Glue is never more than the records of the zone. -/
theorem length_glue_le {additional : List Record} (hnodup : additional.Nodup)
    (hmem : ∀ record ∈ additional, record ∈ zone.records) : additional.length ≤ zone.records.length :=
  (List.subperm_of_subset hnodup hmem).length_le

theorem length_resolve (zone : Zone) (query : Query) :
    (resolve zone query).answers.length ≤ maxCnameChain + zone.records.length + zone.nameservers.length + 1 ∧
      (resolve zone query).authority.length ≤ zone.nameservers.length + 1 ∧
      (resolve zone query).additional.length ≤ zone.records.length := by
  have hns : zone.nsRecords.length = zone.nameservers.length := List.length_map _
  have hglue : ∀ records, (glue zone records).length ≤ zone.records.length :=
    fun records => length_glue_le (glue_nodup zone records) fun _ => mem_records_of_glue
  cases ending zone query with
  | transfer _ eq =>
      rw [eq]
      exact ⟨Nat.zero_le _, Nat.zero_le _, Nat.zero_le _⟩
  | soa _ _ _ eq =>
      rw [eq]
      exact ⟨Nat.succ_le_succ (Nat.zero_le _), by rw [hns]; omega, hglue _⟩
  | ns _ _ _ eq =>
      rw [eq]
      exact ⟨by rw [hns]; omega, Nat.zero_le _, hglue _⟩
  | found _ _ _ eq =>
      rw [eq]
      have hanswer := zone.length_answerWithin query.recordType maxCnameChain query.name
      rw [← Zone.answer] at hanswer
      refine ⟨by dsimp only; omega, by rw [hns]; omega, length_glue_le (addMissing_nodup (glue_nodup zone _)) ?_⟩
      intro record hmem
      rcases mem_addMissing.mp hmem with h | h
      · exact mem_records_of_glue h
      · exact mem_records_of_glue h
  | negative _ _ _ eq =>
      rw [eq]
      exact ⟨Nat.zero_le _, Nat.succ_le_succ (Nat.zero_le _), Nat.zero_le _⟩

end Selfhost.Dns

/-!
# What the server can do with a query

One case lemma for each part of `handle_query`; the theorems about runs of the server split on these.
-/

namespace Selfhost.Dns

open Selfhost.Lib

namespace Server

variable {server : Server} {now started : Instant} {raw : Bytes} {query : Query} {overTcp : Bool} {peer : IpAddr}

/-- The peer is on the LAN, and the name is in no zone. -/
def Foreign (server : Server) (peer : IpAddr) (query : Query) : Prop :=
  server.authority.lan.isSome = true ∧ isLanPeer peer = true ∧
    server.authority.zones.find? (fun zone => zone.contains query.name) = none

instance (server : Server) (peer : IpAddr) (query : Query) : Decidable (server.Foreign peer query) :=
  inferInstanceAs (Decidable (_ ∧ _))

/-- The time is over, or all upstreams that are left are quarantined. -/
def Exhausted (server : Server) (now started : Instant) (left : List SocketAddr) : Prop :=
  upstreamTotalTimeout ≤ .between started now ∨ ∀ upstream ∈ left, server.isQuarantined now upstream = true

instance (server : Server) (now started : Instant) (left : List SocketAddr) :
    Decidable (server.Exhausted now started left) := inferInstanceAs (Decidable (_ ∨ _))

/-- The sources of replies that neither the cache nor an upstream has a part in. -/
def Source.isOwn : Source → Bool
  | .malformed | .zone | .refused => true
  | _ => false

/-- A query that is not foreign gets the reply of the zones, and leaves the server as it was. -/
theorem receive_cases (server : Server) (now : Instant) (raw : Bytes) (overTcp : Bool) (peer : IpAddr) :
    (∃ source, Source.isOwn source = true ∧ ∀ forward, server.receive now raw overTcp peer =
      (server, .replied source (handleQuery server.authority forward raw overTcp peer))) ∨
      ∃ query, decodeQuery raw = .ok query ∧ server.Foreign peer query ∧
        server.receive now raw overTcp peer = server.receiveForeign now raw query overTcp peer := by
  unfold receive handleQuery
  cases hdecode : decodeQuery raw with
  | error e => exact Or.inl ⟨.malformed, rfl, fun forward => rfl⟩
  | ok query =>
      dsimp only
      cases hzone : server.authority.zones.find? fun zone => zone.contains query.name with
      | some zone =>
          cases server.authority.lan.filter fun _ => isLanPeer peer with
          | some view => exact Or.inl ⟨.zone, rfl, fun forward => rfl⟩
          | none => exact Or.inl ⟨.zone, rfl, fun forward => rfl⟩
      | none =>
          cases hlan : server.authority.lan.filter fun _ => isLanPeer peer with
          | none => exact Or.inl ⟨.refused, rfl, fun forward => rfl⟩
          | some view =>
              obtain ⟨hsome, hpeer⟩ := Option.filter_eq_some_iff.mp hlan
              exact Or.inr ⟨query, rfl, ⟨by rw [hsome]; rfl, hpeer, hzone⟩, rfl⟩

/-- A forward that ends without an answer ends in a stale reply or in a failure. -/
theorem finish_none (server : Server) (now : Instant) (query : Query) :
    (∃ stale, server.cache.lookupStale now query.name query.recordType query.id = some stale ∧
      server.finish now query none = ({ server with permits := server.permits + 1 }, .replied .stale stale)) ∨
      server.finish now query none = ({ server with permits := server.permits + 1 }, .replied .failed (servfail query)) := by
  unfold finish
  dsimp only
  split
  · rename_i stale hstale
    exact Or.inl ⟨stale, hstale, rfl⟩
  · exact Or.inr rfl

/-- The loop over the upstreams ends without an answer, or one of them is asked. -/
theorem ask_cases (server : Server) (now : Instant) (raw : Bytes) (query : Query) (overTcp : Bool) (started : Instant)
    (upstreams : List SocketAddr) :
    (server.Exhausted now started upstreams ∧
      server.ask now raw query overTcp started upstreams = server.finish now query none) ∨
      ∃ upstream left, left.length < upstreams.length ∧
        server.ask now raw query overTcp started upstreams =
          ({ server with forwarding :=
              server.forwarding ++ [(⟨raw, query, overTcp, started, upstream, left⟩ : Forward).inFlight] },
            .waiting ⟨raw, query, overTcp, started, upstream, left⟩) := by
  induction upstreams with
  | nil => exact Or.inl ⟨Or.inr fun _ h => (nomatch h), rfl⟩
  | cons upstream left ih =>
      rw [ask]
      split
      · rename_i hover
        exact Or.inl ⟨Or.inl hover, rfl⟩
      · rename_i htime
        split
        · rename_i hquarantined
          rcases ih with ⟨hexhausted, heq⟩ | ⟨next, rest, hlength, heq⟩
          · refine Or.inl ⟨hexhausted.imp_right fun hall other hmem => ?_, heq⟩
            rcases List.mem_cons.mp hmem with rfl | hmem
            · exact hquarantined
            · exact hall other hmem
          · exact Or.inr ⟨next, rest, Nat.lt_succ_of_lt hlength, heq⟩
        · exact Or.inr ⟨upstream, left, Nat.lt_succ_self _, rfl⟩

/-- Where no upstream is left to ask, the forward ends without an answer. -/
theorem ask_of_exhausted (server : Server) {now started : Instant} {raw : Bytes} {query : Query} {overTcp : Bool}
    {upstreams : List SocketAddr} (h : server.Exhausted now started upstreams) :
    server.ask now raw query overTcp started upstreams = server.finish now query none := by
  induction upstreams with
  | nil => rfl
  | cons upstream left ih =>
      rw [ask]
      split
      · rfl
      · rename_i htime
        have hall := h.resolve_left htime
        rw [if_pos (hall upstream List.mem_cons_self)]
        exact ih (Or.inr fun other hmem => hall other (List.mem_cons_of_mem _ hmem))

/-- A foreign query goes past the zones. -/
theorem receive_of_foreign {server : Server} (now : Instant) {raw : Bytes} {query : Query} (overTcp : Bool)
    {peer : IpAddr} (hdecode : decodeQuery raw = .ok query) (h : server.Foreign peer query) :
    server.receive now raw overTcp peer = server.receiveForeign now raw query overTcp peer := by
  obtain ⟨hlan, hpeer, hzone⟩ := h
  obtain ⟨view, hview⟩ := Option.isSome_iff_exists.mp hlan
  unfold receive
  rw [hdecode]
  dsimp only
  rw [hzone, hview, Option.filter_some, if_pos hpeer]

/-- What happens to a foreign query before an upstream is asked. -/
theorem receiveForeign_cases (server : Server) (now : Instant) (raw : Bytes) (query : Query) (overTcp : Bool)
    (peer : IpAddr) :
    (∃ cached, server.cache.lookup now query.name query.recordType query.id = some cached ∧
      (overTcp = true ∨ cached.length ≤ udpPayloadLimit raw) ∧
      server.receiveForeign now raw query overTcp peer = (server, .replied .cached cached)) ∨
    (∃ upstream, server.receiveForeign now raw query overTcp peer =
      (server.quarantine now upstream, .replied .loop (servfail query))) ∨
    server.receiveForeign now raw query overTcp peer = (server, .replied .full (servfail query)) ∨
    (server.loopFrom peer query = none ∧ 0 < server.permits ∧ server.receiveForeign now raw query overTcp peer =
      { server with permits := server.permits - 1 }.ask now raw query overTcp now server.upstreams) := by
  unfold receiveForeign
  dsimp only
  split
  · rename_i cached hcached
    obtain ⟨hlookup, hfits⟩ := Option.filter_eq_some_iff.mp hcached
    exact Or.inl ⟨cached, hlookup, by simpa using hfits, rfl⟩
  · split
    · rename_i upstream hloop
      exact Or.inr (Or.inl ⟨upstream, rfl⟩)
    · rename_i hloop
      split
      · exact Or.inr (Or.inr (Or.inl rfl))
      · rename_i hpermits
        exact Or.inr (Or.inr (Or.inr ⟨hloop, Nat.pos_of_ne_zero hpermits, rfl⟩))

/-- An attempt that has ended ends the forward with its answer, or the next upstreams are tried. -/
theorem resume_cases (server : Server) (now : Instant) (forward : Forward) (answer : Option Bytes) :
    (∃ response, answer = some response ∧ server.resume now forward answer =
      { server with forwarding := server.forwarding.erase forward.inFlight }.finish now forward.query (some response)) ∨
      ((∀ response, answer = some response → isFailureResponse response = true) ∧
        server.resume now forward answer =
          { server with forwarding := server.forwarding.erase forward.inFlight }.ask now forward.raw forward.query
            forward.overTcp forward.started forward.left) := by
  unfold resume
  dsimp only
  split
  · rename_i response hresponse
    exact Or.inl ⟨response, (Option.filter_eq_some_iff.mp hresponse).1, rfl⟩
  · rename_i hnone
    refine Or.inr ⟨fun response heq => ?_, rfl⟩
    rw [heq, Option.filter_eq_none_iff] at hnone
    simpa using hnone response rfl

end Server

end Selfhost.Dns
