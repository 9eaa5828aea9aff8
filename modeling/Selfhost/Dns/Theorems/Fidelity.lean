import Selfhost.Dns.Theorems.Served

/-!
# The types of the records that are sent

An alias and a nameserver are stored as the same payload, and the type is found again from the section and the
question. `types_kept_iff` says for which zones it is found right.
-/

namespace Selfhost.Dns

open Selfhost.Lib

/-- The type that a declaration names. -/
def Kind.wireType : Kind → RecordType
  | .a => .a
  | .aaaa => .aaaa
  | .mx => .mx
  | .txt => .txt
  | .cname => .cname
  | .ns => .ns
  | .srv => .srv
  | .caa => .caa

/-- What a configuration declares: an owner, a type and a value, which is `none` when it builds nothing. Without
declared records it stands for the addresses of the scaffold. -/
inductive Declares (config : ZoneConfig) (publicIp : Option Ipv4Addr) : Str → RecordType → Option RecordData → Prop
  | record {record : RecordConfig} {kind : Kind} (mem : record ∈ config.records) (is : record.kind = some kind) :
      Declares config publicIp (qualify (normalize config.domain) record.name) kind.wireType (dataFromConfig record)
  | scaffold {record : Record} (none : config.records = [])
      (mem : record ∈ scaffoldRecords (normalize config.domain) publicIp) :
      Declares config publicIp record.name .a (some record.data)

/-- A frame is that of a record of an owner, a type and a value. -/
structure Frame.Is (frame : Frame) (owner : Str) (t : RecordType) (data : RecordData) : Prop where
  owner : frame.name = owner
  type : frame.recordType = t
  value : frame.payload = writeRdata data

/-- The SOA or a nameserver of the apex, or a record that is declared with the same type. -/
inductive Genuine (config : ZoneConfig) (publicIp : Option Ipv4Addr) (built : Zone) (frame : Frame) : Prop
  | soa (is : frame.Is built.origin .soa (.soa built.soa))
  | ns (server : Str) (mem : server ∈ built.nameservers) (is : frame.Is built.origin .ns (.name (normalize server)))
  | declared (owner : Str) (t : RecordType) (data : RecordData)
      (declared : Declares config publicIp owner t (some data)) (is : frame.Is owner t data)

/-- Every record of a reply, read back with its type, is genuine, and a reply that is not cut has every record that is
declared at the name and the type that were asked for. -/
def Faithful (config : ZoneConfig) (publicIp : Option Ipv4Addr) (built : Zone) (query : Query) (overTcp : Bool) :
    Prop :=
  ∃ sections, readSections (respond query (some built) overTcp) = .ok sections ∧
    (∀ frame ∈ sections.answers ++ sections.authority ++ sections.additional, Genuine config publicIp built frame) ∧
    (isTruncated (respond query (some built) overTcp) = false →
      ∀ value, Declares config publicIp (normalize query.name) query.recordType value →
        ∃ data, value = some data ∧ ∃ frame ∈ sections.answers, frame.Is (normalize query.name) query.recordType data)

/-- The hostnames whose addresses go along with an answer: nameservers, exchangers and the targets of aliases. -/
def Named (config : ZoneConfig) (built : Zone) (target : Str) : Prop :=
  (∃ server ∈ built.nameservers, normalize server = target) ∨
    ∃ record ∈ config.records, (record.kind = some .mx ∨ record.kind = some .cname) ∧ normalize record.value = target

/-- No nameserver is declared as a record, and a named hostname that has an alias has addresses of both kinds too. -/
structure Typed (config : ZoneConfig) (built : Zone) : Prop where
  delegations : ∀ record ∈ config.records, record.kind ≠ some .ns
  aliases : ∀ target, Named config built target → (built.alias? target).isSome = true →
    built.direct target .a ≠ [] ∧ built.direct target .aaaa ≠ []

/-- An owner and a value are those of a nameserver of the apex. -/
def Zone.IsServer (built : Zone) (owner : Str) (data : RecordData) : Prop :=
  owner = built.origin ∧ ∃ server ∈ built.nameservers, data = .name (normalize server)

/-- The names among the answers of a reply are declared as aliases, unless nameservers were asked for, and those that go
along as nameservers. In a reply that is not cut, what is declared at the name and the type that were asked for builds a
record, and a nameserver is one of the apex. -/
structure KeepsTypes (config : ZoneConfig) (publicIp : Option Ipv4Addr) (built : Zone) (query : Query)
    (overTcp : Bool) : Prop where
  answers : query.recordType ≠ .ns → ∀ record ∈ (carried query built overTcp).answers, ∀ target,
    record.data = .name target → Declares config publicIp record.name .cname (some record.data)
  additional : ∀ record ∈ (carried query built overTcp).additional, ∀ target, record.data = .name target →
    built.IsServer record.name record.data ∨ Declares config publicIp record.name .ns (some record.data)
  builds : ¬TooLong query built overTcp →
    ¬Declares config publicIp (normalize query.name) query.recordType none
  delegations : ¬TooLong query built overTcp → query.recordType = .ns →
    ∀ data, Declares config publicIp (normalize query.name) .ns (some data) →
      built.IsServer (normalize query.name) data

/-! ## Built records -/

theorem dataType_of_srvData {value : Str} {data : RecordData} (h : srvData value = some data) :
    dataType data = .srv := by
  unfold srvData at h
  split at h
  · obtain ⟨priority, -, h⟩ := Option.bind_eq_some_iff.mp h
    obtain ⟨weight, -, h⟩ := Option.bind_eq_some_iff.mp h
    obtain ⟨port, -, h⟩ := Option.bind_eq_some_iff.mp h
    dsimp only at h
    split at h
    · cases h
    · cases h
      rfl
  · cases h

/-- The type of a payload is the declared one, but for a nameserver. -/
theorem dataType_of_kind {record : RecordConfig} {kind : Kind} {data : RecordData} (hkind : record.kind = some kind)
    (h : dataFromConfig record = some data) :
    kind.wireType = dataType data ∨ kind = .ns ∧ data = .name (normalize record.value) := by
  rw [dataFromConfig, hkind] at h
  cases kind with
  | a =>
      obtain ⟨ip, -, rfl⟩ := Option.map_eq_some_iff.mp h
      exact Or.inl rfl
  | aaaa =>
      obtain ⟨ip, -, rfl⟩ := Option.map_eq_some_iff.mp h
      exact Or.inl rfl
  | mx =>
      obtain ⟨preference, -, rfl⟩ := Option.map_eq_some_iff.mp h
      exact Or.inl rfl
  | txt =>
      cases h
      exact Or.inl rfl
  | cname =>
      cases h
      exact Or.inl rfl
  | ns =>
      cases h
      exact Or.inr ⟨rfl, rfl⟩
  | srv => exact Or.inl (dataType_of_srvData h).symm
  | caa =>
      obtain ⟨bytes, -, rfl⟩ := Option.map_eq_some_iff.mp h
      exact Or.inl rfl

theorem kind_of_dataFromConfig {record : RecordConfig} {data : RecordData} (h : dataFromConfig record = some data) :
    ∃ kind, record.kind = some kind := by
  cases hkind : record.kind with
  | none =>
      rw [dataFromConfig, hkind] at h
      cases h
  | some kind => exact ⟨kind, rfl⟩

/-- The target of an exchanger or an alias gets its addresses sent along. -/
theorem glueTarget_of_kind {zone : ZoneConfig} {declared : RecordConfig} (h : Declared zone declared)
    (hkind : declared.kind = some .mx ∨ declared.kind = some .cname) :
    ∃ data, dataFromConfig declared = some data ∧ glueTarget data = some (normalize declared.value) := by
  rcases dataFromConfig_cases h with ⟨_, _, hk, _⟩ | ⟨_, _, hk, _⟩ | ⟨preference, _, _, heq⟩ | ⟨_, hk, _⟩ |
    ⟨_, _, heq⟩ | ⟨_, _, _, _, _, hk, _⟩ | ⟨_, _, hk, _, _⟩
  · rcases hkind with hkind | hkind <;> cases hk.symm.trans hkind
  · rcases hkind with hkind | hkind <;> cases hk.symm.trans hkind
  · exact ⟨_, heq, rfl⟩
  · rcases hkind with hkind | hkind <;> cases hk.symm.trans hkind
  · exact ⟨_, heq, rfl⟩
  · rcases hkind with hkind | hkind <;> cases hk.symm.trans hkind
  · rcases hkind with hkind | hkind <;> cases hk.symm.trans hkind

section

variable {config : ZoneConfig} {secondaries : List Str} {serial : UInt32} {publicIp : Option Ipv4Addr}

theorem dataType_of_scaffold {origin : Str} {record : Record} (h : record ∈ scaffoldRecords origin publicIp) :
    dataType record.data = .a := by
  obtain ⟨⟨ip, hdata⟩, -⟩ := scaffoldRecords_cases h
  rw [hdata]
  rfl

/-- A record is declared under the type of its payload, or as a nameserver. -/
theorem declares_of_mem {record : Record} (h : record ∈ (Zone.fromConfig config secondaries serial publicIp).records) :
    Declares config publicIp record.name (dataType record.data) (some record.data) ∨
      (∃ target, record.data = .name target) ∧ Declares config publicIp record.name .ns (some record.data) := by
  rcases mem_records_fromConfig.mp h with ⟨hnone, hmem⟩ | ⟨declared, hmem, hrecord⟩
  · rw [dataType_of_scaffold hmem]
    exact Or.inl (.scaffold hnone hmem)
  · obtain ⟨data, hdata, rfl⟩ := Option.map_eq_some_iff.mp hrecord
    obtain ⟨kind, hkind⟩ := kind_of_dataFromConfig hdata
    dsimp only
    rw [← hdata]
    rcases dataType_of_kind hkind hdata with htype | ⟨rfl, hname⟩
    · rw [← htype]
      exact Or.inl (.record hmem hkind)
    · exact Or.inr ⟨⟨_, hname⟩, .record hmem hkind⟩

/-- What is declared as an alias or a nameserver. -/
theorem name_of_declares {owner : Str} {t : RecordType} {value : Option RecordData}
    (h : Declares config publicIp owner t value) (ht : t = .cname ∨ t = .ns) :
    ∃ declared ∈ config.records, qualify (normalize config.domain) declared.name = owner ∧
      value = some (.name (normalize declared.value)) ∧ (t = .cname → declared.kind = some .cname) ∧
      (t = .ns → declared.kind = some .ns) := by
  cases h with
  | @record declared kind mem is =>
      refine ⟨declared, mem, rfl, ?_⟩
      rw [dataFromConfig]
      cases kind with
      | cname => exact ⟨by rw [is], fun _ => is, fun hns => by cases hns⟩
      | ns => exact ⟨by rw [is], fun hcname => (by cases hcname), fun _ => is⟩
      | _ =>
          rcases ht with ht | ht
          · cases ht
          · cases ht
  | scaffold none mem =>
      rcases ht with ht | ht
      · cases ht
      · cases ht

/-- Where every value can be parsed, none is declared that builds nothing. -/
theorem not_declares_none (hbuilds : ∀ declared ∈ config.records, (dataFromConfig declared).isSome = true) {owner : Str}
    {t : RecordType} : ¬Declares config publicIp owner t none := by
  intro h
  generalize hvalue : (none : Option RecordData) = value at h
  cases h with
  | record mem is =>
      have hsome := hbuilds _ mem
      rw [← hvalue] at hsome
      cases hsome
  | scaffold none mem => cases hvalue

/-- Where no nameserver is declared, a record is declared under the type of its payload. -/
theorem declares_of_no_delegation (hdelegations : ∀ declared ∈ config.records, declared.kind ≠ some .ns)
    {record : Record} (h : record ∈ (Zone.fromConfig config secondaries serial publicIp).records) :
    Declares config publicIp record.name (dataType record.data) (some record.data) := by
  refine (declares_of_mem h).resolve_right ?_
  rintro ⟨-, hns⟩
  obtain ⟨declared, hmem, -, -, -, hkind⟩ := name_of_declares hns (Or.inr rfl)
  exact hdelegations declared hmem (hkind rfl)

theorem fromCode_of_declares {owner : Str} {t : RecordType} {value : Option RecordData}
    (h : Declares config publicIp owner t value) : RecordType.fromCode t.code = t := by
  cases h with
  | record mem is =>
      rename_i kind
      cases kind
      all_goals rfl
  | scaffold none mem => rfl

/-- No payload of a configuration is of the type of nameservers. -/
theorem dataType_ne_ns {record : Record} (h : record ∈ (Zone.fromConfig config secondaries serial publicIp).records) :
    dataType record.data ≠ .ns := by
  intro hns
  rcases mem_records_fromConfig.mp h with ⟨-, hmem⟩ | ⟨declared, hmem, hrecord⟩
  · rw [dataType_of_scaffold hmem] at hns
    cases hns
  · obtain ⟨data, hdata, rfl⟩ := Option.map_eq_some_iff.mp hrecord
    obtain ⟨kind, hkind⟩ := kind_of_dataFromConfig hdata
    rcases dataType_of_kind hkind hdata with htype | ⟨-, rfl⟩
    · dsimp only at hns
      rw [hns] at htype
      cases kind with
      | ns =>
          rw [dataFromConfig, hkind] at hdata
          cases hdata
          cases hns
      | _ => cases htype
    · cases hns

/-- A query for nameservers is not answered from the records. -/
theorem answer_ns (qname : Str) : (Zone.fromConfig config secondaries serial publicIp).answer qname .ns = [] := by
  by_contra hne
  rcases Zone.answer_ne_nil.mp hne with hdirect | ⟨haddress, -⟩
  · obtain ⟨record, hmem, -, htype⟩ := Zone.direct_ne_nil.mp hdirect
    exact dataType_ne_ns hmem htype
  · exact absurd haddress (by decide)

/-- A record that brings addresses along names a hostname. -/
theorem named_of_glueTarget (hdelegations : ∀ declared ∈ config.records, declared.kind ≠ some .ns) {record : Record}
    (h : record ∈ (Zone.fromConfig config secondaries serial publicIp).records) {target : Str}
    (htarget : glueTarget record.data = some target) :
    Named config (Zone.fromConfig config secondaries serial publicIp) (normalize target) := by
  rcases mem_records_fromConfig.mp h with ⟨-, hmem⟩ | ⟨declared, hmem, hrecord⟩
  · have htype := dataType_of_scaffold hmem
    generalize record.data = data at htype htarget
    cases data with
    | name _ => cases htype
    | mx _ _ => cases htype
    | _ => cases htarget
  · obtain ⟨data, hdata, rfl⟩ := Option.map_eq_some_iff.mp hrecord
    obtain ⟨kind, hkind⟩ := kind_of_dataFromConfig hdata
    have hns := hdelegations declared hmem
    rw [dataFromConfig, hkind] at hdata
    refine Or.inr ⟨declared, hmem, ?_⟩
    cases kind with
    | mx =>
        obtain ⟨preference, -, rfl⟩ := Option.map_eq_some_iff.mp hdata
        cases htarget
        exact ⟨Or.inl hkind, (normalize_normalize _).symm⟩
    | cname =>
        cases hdata
        cases htarget
        exact ⟨Or.inr hkind, (normalize_normalize _).symm⟩
    | ns => exact absurd hkind hns
    | a =>
        obtain ⟨ip, -, rfl⟩ := Option.map_eq_some_iff.mp hdata
        cases htarget
    | aaaa =>
        obtain ⟨ip, -, rfl⟩ := Option.map_eq_some_iff.mp hdata
        cases htarget
    | txt =>
        cases hdata
        cases htarget
    | srv =>
        have htype := dataType_of_srvData hdata
        cases data with
        | name _ => cases htype
        | mx _ _ => cases htype
        | _ => cases htarget
    | caa =>
        obtain ⟨bytes, -, rfl⟩ := Option.map_eq_some_iff.mp hdata
        cases htarget

end

/-! ## Sections -/

/-- A named hostname brings its addresses along and no alias. -/
theorem Typed.address {config : ZoneConfig} {built : Zone} (h : Typed config built) {target : Str}
    (hnamed : Named config built (normalize target)) {record : Record}
    (hmem : record ∈ built.answer target .a ∨ record ∈ built.answer target .aaaa) :
    dataType record.data ≠ .cname := by
  have hheld : ∀ t, t = .a ∨ t = .aaaa → record ∈ built.answer target t → dataType record.data = t := by
    intro t ht hanswer
    have hdirect : built.direct (normalize target) t ≠ [] := by
      rcases Zone.answer_ne_nil.mp (List.ne_nil_of_mem hanswer) with hdirect | ⟨-, halias⟩
      · exact hdirect
      · obtain ⟨ha, haaaa⟩ := h.aliases _ hnamed halias
        rcases ht with rfl | rfl
        · exact ha
        · exact haaaa
    rw [Zone.answer_eq_direct hdirect] at hanswer
    exact (of_decide_eq_true (List.mem_filter.mp hanswer).2).2
  rcases hmem with hmem | hmem
  · rw [hheld .a (Or.inl rfl) hmem]
    decide
  · rw [hheld .aaaa (Or.inr rfl) hmem]
    decide

theorem wireType_eq {nameType : RecordType} {data : RecordData} (h : ∀ target, data = .name target → nameType = .cname) :
    wireType nameType data = dataType data := by
  cases data with
  | name target => exact h target rfl
  | _ => rfl

theorem Zone.genuine_soaRecord {config : ZoneConfig} {publicIp : Option Ipv4Addr} {built : Zone}
    (nameType : RecordType) : Genuine config publicIp built (sentFrame nameType built.soaRecord) := .soa ⟨rfl, rfl, rfl⟩

theorem Zone.genuine_nsRecords {config : ZoneConfig} {publicIp : Option Ipv4Addr} {built : Zone} {record : Record}
    (h : record ∈ built.nsRecords) : Genuine config publicIp built (sentFrame .ns record) := by
  obtain ⟨server, hmem, rfl⟩ := List.mem_map.mp h
  exact .ns server hmem ⟨rfl, rfl, rfl⟩

/-- A name that is sent as an alias or a nameserver is the one that is declared so. -/
theorem Frame.Is.name_eq {nameType t : RecordType} {record : Record} {owner target name : Str}
    (h : (sentFrame nameType record).Is owner t (.name name)) (hdata : record.data = .name target)
    (htarget : Readable target) (hname : trimDots name = name) : record.name = owner ∧ name = target := by
  have hvalue := h.value
  rw [sentFrame, hdata] at hvalue
  exact ⟨h.owner, writeName_inj htarget hname hvalue.symm⟩

section

variable {config : ZoneConfig} {secondaries : List Str} {serial : UInt32} {publicIp : Option Ipv4Addr}

/-- A record that is not a name is genuine under its own type, and a name under the type that it is declared with. -/
theorem genuine_record {record : Record} (h : record ∈ (Zone.fromConfig config secondaries serial publicIp).records)
    {nameType : RecordType} (hcode : RecordType.fromCode nameType.code = nameType)
    (hname : ∀ target, record.data = .name target →
      Genuine config publicIp (Zone.fromConfig config secondaries serial publicIp) (sentFrame nameType record) ∨
        Declares config publicIp record.name nameType (some record.data)) :
    Genuine config publicIp (Zone.fromConfig config secondaries serial publicIp) (sentFrame nameType record) := by
  by_cases hplain : ∃ target, record.data = .name target
  · obtain ⟨target, hdata⟩ := hplain
    refine (hname target hdata).elim id fun hdeclares => .declared _ _ _ hdeclares ⟨rfl, ?_, rfl⟩
    rw [sentFrame, hdata]
    exact hcode
  · have hdeclares := (declares_of_mem h).resolve_right fun hns => hplain hns.1
    refine .declared _ _ _ hdeclares ⟨rfl, ?_, rfl⟩
    rw [sentFrame, wireType_eq fun target hdata => absurd ⟨target, hdata⟩ hplain]
    exact fromCode_of_declares hdeclares

/-- A name of a genuine frame is declared under the type of the frame, or is the one of a nameserver of the apex. -/
theorem Genuine.declares {built : Zone} {nameType : RecordType} {record : Record} {target : Str}
    (h : Genuine config publicIp built (sentFrame nameType record)) (hdata : record.data = .name target)
    (htarget : Readable target) (hcode : RecordType.fromCode nameType.code = nameType)
    (hname : nameType = .cname ∨ nameType = .ns) :
    nameType = .ns ∧ built.IsServer record.name record.data ∨
      Declares config publicIp record.name nameType (some record.data) := by
  have htype : (sentFrame nameType record).recordType = nameType := by
    rw [sentFrame, hdata]
    exact hcode
  cases h with
  | soa is =>
      have hsoa := htype.symm.trans is.type
      rcases hname with rfl | rfl
      · cases hsoa
      · cases hsoa
  | ns server mem is =>
      obtain ⟨howner, hserver⟩ := is.name_eq hdata htarget (trimDots_normalize _)
      exact Or.inl ⟨htype.symm.trans is.type, howner, server, mem, hdata.trans (congrArg _ hserver.symm)⟩
  | declared owner t data declared is =>
      obtain rfl : nameType = t := htype.symm.trans is.type
      obtain ⟨config', -, -, hvalue, -⟩ := name_of_declares declared hname
      obtain rfl := Option.some.inj hvalue
      obtain ⟨rfl, hsame⟩ := is.name_eq hdata htarget (trimDots_normalize _)
      rw [hsame, ← hdata] at declared
      exact Or.inr declared

end

/-! ## Replies -/

theorem isTruncated_respond {query : Query} {zone : Zone} {overTcp : Bool} :
    isTruncated (respond query (some zone) overTcp) = false ↔ ¬TooLong query zone overTcp := by
  rw [respond_some, isTruncated_encodeResponse, decide_eq_false_iff_not]

theorem answerNameType_of_ne {query : Query} (h : query.recordType ≠ .ns) : answerNameType query = .cname := if_neg h

section

variable {config : ZoneConfig} {secondaries : List Str} {serial : UInt32} {publicIp : Option Ipv4Addr}

/-- What is declared under another type than that of nameservers and builds something is held. -/
theorem held_of_declares {owner : Str} {t : RecordType} {data : RecordData}
    (h : Declares config publicIp owner t (some data)) (ht : t ≠ .ns) :
    ∃ record ∈ (Zone.fromConfig config secondaries serial publicIp).records,
      record.name = owner ∧ record.data = data ∧ dataType record.data = t := by
  generalize hbuilt : (some data : Option RecordData) = value at h
  cases h with
  | @record declared kind mem is =>
      have hrecord : recordFromConfig (normalize config.domain) declared =
          some ⟨qualify (normalize config.domain) declared.name, declared.ttl, data⟩ := by
        rw [recordFromConfig, ← hbuilt]
        rfl
      refine ⟨_, mem_records_fromConfig.mpr (Or.inr ⟨declared, mem, hrecord⟩), rfl, rfl, ?_⟩
      rcases dataType_of_kind is hbuilt.symm with htype | ⟨rfl, -⟩
      · exact htype.symm
      · exact absurd rfl ht
  | scaffold none mem =>
      cases hbuilt
      exact ⟨_, mem_records_fromConfig.mpr (Or.inl ⟨none, mem⟩), rfl, rfl, dataType_of_scaffold mem⟩

theorem type_of_declares {owner : Str} {t : RecordType} {value : Option RecordData}
    (h : Declares config publicIp owner t value) : isTransfer t = false ∧ t ≠ .soa := by
  cases h with
  | @record declared kind mem is =>
      cases kind
      all_goals exact ⟨rfl, by decide⟩
  | scaffold none mem => exact ⟨rfl, by decide⟩

/-- The nameservers are the answer to a query for those of the apex. -/
theorem mem_answers_of_server {zone : Zone} {query : Query} {server : Str} (hserver : server ∈ zone.nameservers)
    (hquery : Readable query.name) (hname : normalize query.name = zone.origin) (htype : query.recordType = .ns) :
    ∃ record ∈ (resolve zone query).answers, record.name = zone.origin ∧ record.data = .name (normalize server) := by
  have htrim : trimDots query.name = query.name := by
    rcases hquery with hnil | ⟨hlabels, -⟩
    · rw [hnil]
      rfl
    · exact trimDots_of_labels fun label hmem => (hlabels label hmem).1
  rw [normalize, htrim] at hname
  have hapex : eqIgnoreAsciiCase query.name zone.origin = true := by
    rw [eqIgnoreAsciiCase, hname, zone.lower_origin]
    exact beq_self_eq_true _
  refine ⟨⟨zone.origin, zone.soa.minimum, .name (normalize server)⟩, ?_, rfl, rfl⟩
  cases ending zone query with
  | transfer h _ =>
      rw [htype] at h
      cases h
  | soa _ _ h _ =>
      rw [htype] at h
      cases h
  | ns _ _ _ eq =>
      rw [eq]
      exact List.mem_map_of_mem hserver
  | found _ h _ _ => exact absurd htype (h hapex).2
  | negative _ h _ _ => exact absurd htype (h hapex).2

/-- What a reply that keeps the types of its names carries is genuine as it is sent. -/
theorem KeepsTypes.genuine {query : Query} {overTcp : Bool}
    (h : KeepsTypes config publicIp (Zone.fromConfig config secondaries serial publicIp) query overTcp) :
    let r := carried query (Zone.fromConfig config secondaries serial publicIp) overTcp
    ∀ frame ∈ r.answers.map (sentFrame (answerNameType query)) ++ r.authority.map (sentFrame .ns) ++
      r.additional.map (sentFrame .ns), Genuine config publicIp (Zone.fromConfig config secondaries serial publicIp)
        frame := by
  obtain ⟨h₁, h₂, h₃⟩ := carried_subset query (Zone.fromConfig config secondaries serial publicIp) overTcp
  intro r frame hframe
  rcases List.mem_append.mp hframe with hframe | hframe
  · rcases List.mem_append.mp hframe with hframe | hframe
    · obtain ⟨record, hmem, rfl⟩ := List.mem_map.mp hframe
      rcases mem_resolve_answers (h₁ hmem) with rfl | ⟨htype, hns⟩ | hanswer
      · exact Zone.genuine_soaRecord _
      · rw [answerNameType, if_pos htype]
        exact Zone.genuine_nsRecords hns
      · have htype : query.recordType ≠ .ns := by
          intro htype
          rw [htype, answer_ns] at hanswer
          cases hanswer
        rw [answerNameType_of_ne htype]
        exact genuine_record (Zone.mem_answer hanswer) rfl fun target hdata =>
          Or.inr (h.answers htype record hmem target hdata)
    · obtain ⟨record, hmem, rfl⟩ := List.mem_map.mp hframe
      rcases mem_resolve_authority (h₂ hmem) with rfl | hns
      · exact Zone.genuine_soaRecord _
      · exact Zone.genuine_nsRecords hns
  · obtain ⟨record, hmem, rfl⟩ := List.mem_map.mp hframe
    have hheld := (mem_resolve_additional (h₃ hmem)).elim mem_records_of_glue mem_records_of_glue
    refine genuine_record hheld rfl fun target hdata => (h.additional record hmem target hdata).imp_left ?_
    rintro ⟨howner, server, hserver, hvalue⟩
    exact .ns server hserver ⟨howner, by rw [sentFrame, hvalue]; rfl, by rw [sentFrame, hvalue]⟩

/-- A reply that is not cut and keeps the types of its names has what is declared. -/
theorem KeepsTypes.complete {query : Query} {overTcp : Bool} (hquery : Readable query.name)
    (hfits : ¬TooLong query (Zone.fromConfig config secondaries serial publicIp) overTcp)
    (h : KeepsTypes config publicIp (Zone.fromConfig config secondaries serial publicIp) query overTcp)
    {value : Option RecordData} (hdeclares : Declares config publicIp (normalize query.name) query.recordType value) :
    ∃ data, value = some data ∧
      ∃ frame ∈ (resolve (Zone.fromConfig config secondaries serial publicIp) query).answers.map
        (sentFrame (answerNameType query)), frame.Is (normalize query.name) query.recordType data := by
  cases value with
  | none => exact absurd hdeclares (h.builds hfits)
  | some data =>
      refine ⟨data, rfl, ?_⟩
      by_cases htype : query.recordType = .ns
      · rw [htype] at hdeclares ⊢
        obtain ⟨hname, server, hserver, rfl⟩ := h.delegations hfits htype data hdeclares
        obtain ⟨record, hmem, howner, hdata⟩ := mem_answers_of_server hserver hquery hname htype
        refine ⟨_, List.mem_map_of_mem hmem, howner.trans hname.symm, ?_, by rw [sentFrame, hdata]⟩
        rw [sentFrame, hdata, answerNameType, if_pos htype]
        rfl
      · obtain ⟨hplain, hsoa⟩ := type_of_declares hdeclares
        obtain ⟨record, hmem, howner, hdata, heq⟩ :=
          @held_of_declares config secondaries serial publicIp _ _ _ hdeclares htype
        refine ⟨_, List.mem_map_of_mem (mem_answers_of_held hmem howner heq hplain ⟨hsoa, htype⟩), howner, ?_,
          by rw [sentFrame, hdata]⟩
        rw [sentFrame, wireType_eq fun _ _ => answerNameType_of_ne htype, heq]
        exact fromCode_of_declares hdeclares

/-- A reply that keeps the types of its names is faithful. -/
theorem KeepsTypes.faithful {query : Query} {overTcp : Bool} (hquery : Readable query.name)
    (hok : (carried query (Zone.fromConfig config secondaries serial publicIp) overTcp).Ok)
    (h : KeepsTypes config publicIp (Zone.fromConfig config secondaries serial publicIp) query overTcp) :
    Faithful config publicIp (Zone.fromConfig config secondaries serial publicIp) query overTcp := by
  refine ⟨_, readSections_respond hquery hok, h.genuine, fun hcut value hdeclares => ?_⟩
  have hfits := isTruncated_respond.mp hcut
  rw [carried_of_fits hfits]
  exact h.complete hquery hfits hdeclares

/-- A faithful reply keeps the types of its names. -/
theorem Faithful.keeps {query : Query} {overTcp : Bool} (hquery : Readable query.name)
    (hok : (carried query (Zone.fromConfig config secondaries serial publicIp) overTcp).Ok)
    (h : Faithful config publicIp (Zone.fromConfig config secondaries serial publicIp) query overTcp) :
    KeepsTypes config publicIp (Zone.fromConfig config secondaries serial publicIp) query overTcp := by
  obtain ⟨sections, hread, hgenuine, hcomplete⟩ := h
  rw [readSections_respond hquery hok] at hread
  cases hread
  refine ⟨?_, ?_, ?_, ?_⟩
  · intro htype record hmem target hdata
    have hsent := hgenuine _ (List.mem_append_left _ (List.mem_append_left _ (List.mem_map_of_mem hmem)))
    rw [answerNameType_of_ne htype] at hsent
    have htarget : Readable target := by
      have hdataOk := (hok.answers record hmem).2
      rwa [hdata] at hdataOk
    exact (hsent.declares hdata htarget rfl (Or.inl rfl)).resolve_left fun hns => absurd hns.1 (by decide)
  · intro record hmem target hdata
    have hsent := hgenuine _ (List.mem_append_right _ (List.mem_map_of_mem hmem))
    have htarget : Readable target := by
      have hdataOk := (hok.additional record hmem).2
      rwa [hdata] at hdataOk
    exact (hsent.declares hdata htarget rfl (Or.inr rfl)).imp_left And.right
  · intro hfits hdeclares
    obtain ⟨data, hnone, -⟩ := hcomplete (isTruncated_respond.mpr hfits) none hdeclares
    cases hnone
  · intro hfits htype data hdeclares
    rw [← htype] at hdeclares
    obtain ⟨data', heq, frame, hframe, is⟩ := hcomplete (isTruncated_respond.mpr hfits) _ hdeclares
    cases heq
    obtain ⟨record, hmem, rfl⟩ := List.mem_map.mp hframe
    rw [htype] at hdeclares is
    obtain ⟨declared, -, -, hvalue, -, -⟩ := name_of_declares hdeclares (Or.inr rfl)
    obtain rfl := Option.some.inj hvalue
    have hdataOk := (hok.answers record hmem).2
    rw [carried_of_fits hfits] at hmem
    rcases mem_resolve_answers hmem with rfl | ⟨-, hns⟩ | hanswer
    · have hsoa : RecordType.soa = .ns := is.type
      cases hsoa
    · obtain ⟨server, hserver, rfl⟩ := List.mem_map.mp hns
      obtain ⟨howner, hsame⟩ := is.name_eq rfl hdataOk (trimDots_normalize _)
      exact ⟨howner.symm, server, hserver, congrArg _ hsame⟩
    · rw [htype, answer_ns] at hanswer
      cases hanswer

/-! ## Zones that keep their types -/

/-- In a zone that keeps its types every reply does, when what is declared at the name and the type that were asked for
builds something. -/
theorem Typed.keeps (htyped : Typed config (Zone.fromConfig config secondaries serial publicIp)) {query : Query}
    {overTcp : Bool} (hbuilds : ¬Declares config publicIp (normalize query.name) query.recordType none) :
    KeepsTypes config publicIp (Zone.fromConfig config secondaries serial publicIp) query overTcp := by
  obtain ⟨h₁, -, h₃⟩ := carried_subset query (Zone.fromConfig config secondaries serial publicIp) overTcp
  have hdeclares : ∀ record ∈ (Zone.fromConfig config secondaries serial publicIp).records, ∀ target,
      record.data = .name target → Declares config publicIp record.name .cname (some record.data) := by
    intro record hmem target hdata
    have hown := declares_of_no_delegation htyped.delegations hmem
    rw [hdata] at hown ⊢
    exact hown
  refine ⟨?_, ?_, fun _ => hbuilds, ?_⟩
  · intro htype record hmem target hdata
    rcases mem_resolve_answers (h₁ hmem) with rfl | ⟨hns, -⟩ | hanswer
    · cases hdata
    · exact absurd hns htype
    · exact hdeclares record (Zone.mem_answer hanswer) target hdata
  · intro record hmem target hdata
    obtain ⟨name, hnamed, haddress⟩ : ∃ name, Named config (Zone.fromConfig config secondaries serial publicIp)
        (normalize name) ∧ (record ∈ (Zone.fromConfig config secondaries serial publicIp).answer name .a ∨
          record ∈ (Zone.fromConfig config secondaries serial publicIp).answer name .aaaa) := by
      rcases mem_resolve_additional (h₃ hmem) with hglue | hglue
      · obtain ⟨source, hsource, name, hname, -, haddress⟩ := mem_glue.mp hglue
        obtain ⟨server, hserver, rfl⟩ := List.mem_map.mp hsource
        cases hname
        exact ⟨_, Or.inl ⟨server, hserver, (normalize_normalize _).symm⟩, haddress⟩
      · obtain ⟨source, hsource, name, hname, -, haddress⟩ := mem_glue.mp hglue
        exact ⟨name, named_of_glueTarget htyped.delegations (Zone.mem_answer hsource) hname, haddress⟩
    exact absurd (congrArg dataType hdata) (htyped.address hnamed haddress)
  · intro _ _ data hns
    obtain ⟨declared, hmem, -, -, -, hkind⟩ := name_of_declares hns (Or.inr rfl)
    exact absurd (hkind rfl) (htyped.delegations declared hmem)

theorem normalize_qualify {at' : Str} (h : config.check at' = []) {declared : RecordConfig}
    (hmem : declared ∈ config.records) :
    normalize (qualify (normalize config.domain) declared.name) = qualify (normalize config.domain) declared.name := by
  have hstored := qualify_stored (normalize_normalize config.domain) declared.name
  rw [normalize, trimDots_of_under (normalize_normalize _)
    (normalize_ne_nil_of_nameProblem (ZoneConfig.declared_of_check h hmem).domain) hstored.2]
  exact hstored.1

/-- The checks keep aliases away from an apex that is written without dots at its end. -/
theorem owner_ne_apex {at' : Str} (h : config.check at' = []) (hdomain : trimDots config.domain = config.domain)
    {declared : RecordConfig} (hmem : declared ∈ config.records) (hkind : declared.kind = some .cname) :
    qualify (normalize config.domain) declared.name ≠ normalize config.domain := by
  obtain ⟨at'', htype⟩ := (ZoneConfig.declared_of_check h hmem).type
  rw [RecordConfig.typeProblems, hkind] at htype
  have hapex : config.isApex declared.name = false := problemIf_eq_nil.mp htype
  rw [ZoneConfig.isApex, Bool.or_eq_false_iff, beq_eq_false_iff_ne, eqIgnoreAsciiCase, beq_eq_false_iff_ne] at hapex
  unfold qualify
  rw [if_neg hapex.1]
  dsimp only
  split
  · intro heq
    rw [normalize, normalize, hdomain] at heq
    exact hapex.2 heq
  · intro heq
    have hlength := congrArg List.length heq
    rw [List.length_append, List.length_cons] at hlength
    omega

/-- An alias is in the answer for an address that is not held. -/
theorem mem_answer_of_alias {zone : Zone} {target : Str} {t : RecordType} {link : Record} (ht : t = .a ∨ t = .aaaa)
    (hdirect : zone.direct (normalize target) t = []) (halias : zone.alias? (normalize target) = some link) :
    link ∈ zone.answer target t := by
  rw [Zone.answer, maxCnameChain, Zone.answerWithin, if_neg (not_not_intro hdirect), if_pos ht, halias]
  dsimp only
  split
  · exact List.mem_cons_self
  · exact List.mem_cons_self

/-- The addresses of a name that a held record names go along with the answer for it. -/
theorem additional_of_held {zone : Zone} {source record : Record} {target : Str} (hsource : source ∈ zone.records)
    (hname : normalize source.name = source.name) (htarget : glueTarget source.data = some target)
    (hcontains : zone.contains target = true)
    (hanswer : record ∈ zone.answer target .a ∨ record ∈ zone.answer target .aaaa) :
    record ∈ (resolve zone ⟨0, source.name, dataType source.data, false⟩).additional := by
  have htype : isTransfer (dataType source.data) = false ∧ dataType source.data ≠ .soa ∧
      dataType source.data ≠ .ns := by
    generalize source.data = data at htarget ⊢
    cases data with
    | name _ => exact ⟨rfl, nofun, nofun⟩
    | mx _ _ => exact ⟨rfl, nofun, nofun⟩
    | _ => cases htarget
  have hmem := @mem_answers_of_held zone ⟨0, source.name, dataType source.data, false⟩ source hsource hname.symm rfl
    htype.1 htype.2
  cases ending zone ⟨0, source.name, dataType source.data, false⟩ with
  | transfer _ eq =>
      rw [eq] at hmem
      cases hmem
  | soa _ _ h _ => exact absurd h htype.2.1
  | ns _ _ h _ => exact absurd h htype.2.2
  | found _ _ _ eq =>
      rw [eq] at hmem ⊢
      exact mem_addMissing.mpr (Or.inr (mem_glue.mpr ⟨source, hmem, target, htarget, hcontains, hanswer⟩))
  | negative _ _ _ eq =>
      rw [eq] at hmem
      cases hmem

/-- The addresses of a nameserver go along with the SOA. -/
theorem additional_of_server {zone : Zone} {server : Str} {record : Record} (hserver : server ∈ zone.nameservers)
    (hcontains : zone.contains (normalize server) = true)
    (hanswer : record ∈ zone.answer (normalize server) .a ∨ record ∈ zone.answer (normalize server) .aaaa) :
    record ∈ (resolve zone ⟨0, zone.origin, .soa, false⟩).additional := by
  rw [resolve_soa]
  exact mem_glue.mpr ⟨_, List.mem_map_of_mem hserver, normalize server, rfl, hcontains, hanswer⟩

end

section

variable {config : ZoneConfig} {secondaries : List Str} {serial : UInt32} {publicIp : Option Ipv4Addr} {at' : Str}
  (h : config.check at' = []) (hdomain : trimDots config.domain = config.domain)
  (horigin : Readable (normalize config.domain))
  (howners : ∀ record ∈ (Zone.fromConfig config secondaries serial publicIp).records, Readable record.name)
  (hkeeps : ∀ query, Readable query.name →
    KeepsTypes config publicIp (Zone.fromConfig config secondaries serial publicIp) query true)

include h hdomain howners hkeeps

/-- A nameserver that is declared as a record is not answered below the apex, and is sent as an alias at it. -/
theorem delegations_of_keeps : ∀ declared ∈ config.records, declared.kind ≠ some .ns := by
  intro declared hmem hkind
  have hdata : dataFromConfig declared = some (.name (normalize declared.value)) := by rw [dataFromConfig, hkind]
  have hrecord : (⟨qualify (normalize config.domain) declared.name, declared.ttl, .name (normalize declared.value)⟩ :
      Record) ∈ (Zone.fromConfig config secondaries serial publicIp).records :=
    mem_records_fromConfig.mpr (Or.inr ⟨declared, hmem, by rw [recordFromConfig, hdata]; rfl⟩)
  have hdeclares := @Declares.record config publicIp declared .ns hmem hkind
  rw [hdata] at hdeclares
  have hnormal := normalize_qualify h hmem
  have hreadable := howners _ hrecord
  have hnot : ∀ query, ¬TooLong query (Zone.fromConfig config secondaries serial publicIp) true :=
    fun _ hlong => absurd hlong.1 (by decide)
  by_cases hapex : qualify (normalize config.domain) declared.name = normalize config.domain
  · have hplain : RecordType.cname ≠ .soa ∧ RecordType.cname ≠ .ns := by decide
    have hmem' := @mem_answers_of_held _ ⟨0, qualify (normalize config.domain) declared.name, .cname, false⟩ _ hrecord
      hnormal.symm rfl rfl hplain
    rw [← carried_of_fits (hnot _)] at hmem'
    obtain ⟨other, hother, howner, -, hcnames, -⟩ :=
      name_of_declares ((hkeeps _ hreadable).answers hplain.2 _ hmem' _ rfl) (Or.inl rfl)
    exact owner_ne_apex h hdomain hother (hcnames rfl) (howner.trans hapex)
  · rw [← hnormal] at hdeclares
    exact hapex (hnormal.symm.trans ((hkeeps ⟨0, qualify (normalize config.domain) declared.name, .ns, false⟩
      hreadable).delegations (hnot _) rfl _ hdeclares).1)

include horigin

/-- The alias of a named hostname that lacks an address goes along as a nameserver. -/
theorem aliases_of_keeps (target : Str)
    (hnamed : Named config (Zone.fromConfig config secondaries serial publicIp) target)
    (hsome : ((Zone.fromConfig config secondaries serial publicIp).alias? target).isSome = true) :
    (Zone.fromConfig config secondaries serial publicIp).direct target .a ≠ [] ∧
      (Zone.fromConfig config secondaries serial publicIp).direct target .aaaa ≠ [] := by
  have hdelegations := delegations_of_keeps h hdomain howners hkeeps
  obtain ⟨link, halias⟩ := Option.isSome_iff_exists.mp hsome
  have hmem := List.mem_of_find?_eq_some halias
  have his : link.name = target ∧ dataType link.data = .cname := by simpa using List.find?_some halias
  have hnormal : normalize target = target := by
    rcases hnamed with ⟨server, -, rfl⟩ | ⟨declared, -, -, rfl⟩
    · exact normalize_normalize _
    · exact normalize_normalize _
  have hcontains : (Zone.fromConfig config secondaries serial publicIp).contains target = true := by
    refine decide_eq_true ?_
    rw [hnormal, ← his.1]
    exact ((Zone.fromConfig config secondaries serial publicIp).names_stored link hmem).2
  have hdeclares := declares_of_no_delegation hdelegations hmem
  rw [his.2] at hdeclares
  obtain ⟨declared, hdeclared, howner, hvalue, hcname, -⟩ := name_of_declares hdeclares (Or.inl rfl)
  -- sent as a nameserver, the alias is neither one of the apex nor a declared one
  have hlost : ∀ query, Readable query.name →
      link ∉ (resolve (Zone.fromConfig config secondaries serial publicIp) query).additional := by
    intro query hquery hlink
    rw [← @carried_of_fits query true _ fun hlong => absurd hlong.1 (by decide)] at hlink
    rcases (hkeeps query hquery).additional link hlink _ (Option.some.inj hvalue) with hserver | hother
    · exact owner_ne_apex h hdomain hdeclared (hcname rfl) (howner.trans hserver.1)
    · obtain ⟨other, hmem, -, -, -, hkind⟩ := name_of_declares hother (Or.inr rfl)
      exact hdelegations other hmem (hkind rfl)
  by_contra hmissing
  have hanswer : link ∈ (Zone.fromConfig config secondaries serial publicIp).answer target .a ∨
      link ∈ (Zone.fromConfig config secondaries serial publicIp).answer target .aaaa := by
    rw [← hnormal] at halias hmissing
    by_cases ha : (Zone.fromConfig config secondaries serial publicIp).direct (normalize target) .a = []
    · exact Or.inl (mem_answer_of_alias (Or.inl rfl) ha halias)
    · refine Or.inr (mem_answer_of_alias (Or.inr rfl) ?_ halias)
      by_contra haaaa
      exact hmissing ⟨ha, haaaa⟩
  rcases hnamed with ⟨server, hserver, rfl⟩ | ⟨source, hsource, hkind, rfl⟩
  · exact hlost ⟨0, _, .soa, false⟩ horigin (additional_of_server hserver hcontains hanswer)
  · obtain ⟨data, hdata, htarget⟩ := glueTarget_of_kind (ZoneConfig.declared_of_check h hsource) hkind
    have hrecord : (⟨qualify (normalize config.domain) source.name, source.ttl, data⟩ : Record) ∈
        (Zone.fromConfig config secondaries serial publicIp).records :=
      mem_records_fromConfig.mpr (Or.inr ⟨source, hsource, by rw [recordFromConfig, hdata]; rfl⟩)
    exact hlost ⟨0, _, dataType data, false⟩ (howners _ hrecord)
      (additional_of_held hrecord (normalize_qualify h hsource) htarget hcontains hanswer)

end

/-! ## The types of a reply -/

/-- A reply whose records are read where they are written is faithful exactly when it keeps the types of its names. In a
zone where no nameserver is declared as a record, and where a nameserver, an exchanger or the target of an alias that has
an alias has addresses of both kinds too, every reply does; and when the owners are readable and the apex is written
without dots at its end there is no other such zone. -/
theorem types_kept_iff (config : ZoneConfig) (secondaries : List Str) (serial : UInt32) (publicIp : Option Ipv4Addr)
    (at' : Str) (h : config.check at' = []) :
    (∀ query overTcp, Readable query.name →
        (carried query (Zone.fromConfig config secondaries serial publicIp) overTcp).Ok →
        (Faithful config publicIp (Zone.fromConfig config secondaries serial publicIp) query overTcp ↔
          KeepsTypes config publicIp (Zone.fromConfig config secondaries serial publicIp) query overTcp)) ∧
      (Typed config (Zone.fromConfig config secondaries serial publicIp) → ∀ query overTcp,
        ¬Declares config publicIp (normalize query.name) query.recordType none →
        KeepsTypes config publicIp (Zone.fromConfig config secondaries serial publicIp) query overTcp) ∧
      (trimDots config.domain = config.domain → Readable (normalize config.domain) →
        (∀ record ∈ (Zone.fromConfig config secondaries serial publicIp).records, Readable record.name) →
        (∀ query, Readable query.name →
          KeepsTypes config publicIp (Zone.fromConfig config secondaries serial publicIp) query true) →
        Typed config (Zone.fromConfig config secondaries serial publicIp)) := by
  refine ⟨?_, ?_, ?_⟩
  · intro query overTcp hquery hok
    exact ⟨Faithful.keeps hquery hok, KeepsTypes.faithful hquery hok⟩
  · intro htyped query overTcp hbuilds
    exact htyped.keeps hbuilds
  · intro hdomain horigin howners hkeeps
    exact ⟨delegations_of_keeps h hdomain howners hkeeps, aliases_of_keeps h hdomain horigin howners hkeeps⟩

/-- The zone `example.com` with some records: their owners, types and values. -/
def exampleRecords (records : List (String × String × String)) : ZoneConfig where
  domain := "example.com".toList
  soa := none
  nameservers := []
  records := records.map fun (name, recordType, value) =>
    ⟨name.toList, recordType.toList, 3600, value.toList, some 10⟩

/-- An exchanger with an address and an alias of it. -/
def mailRecords : ZoneConfig :=
  exampleRecords [("@", "MX", "mail.example.com"), ("mail", "A", "192.0.2.1"), ("www", "CNAME", "mail.example.com")]

/-- An exchanger that is an alias, and a delegation. -/
def aliasedRecords : ZoneConfig :=
  exampleRecords [("@", "MX", "www.example.com"), ("www", "CNAME", "web.example.net"), ("lab", "NS", "ns.example.net")]

theorem types_kept_iff_mail :
    mailRecords.check "dns".toList = [] ∧
      Faithful mailRecords none (Zone.fromConfig mailRecords [] 0 none) ⟨0, "www.example.com".toList, .a, false⟩
        false := by
  have hcheck : mailRecords.check "dns".toList = [] := by decide +kernel
  have hkept := types_kept_iff mailRecords [] 0 none "dns".toList hcheck
  have htyped : Typed mailRecords (Zone.fromConfig mailRecords [] 0 none) := by
    refine ⟨by decide +kernel, ?_⟩
    rintro target (⟨server, hserver, rfl⟩ | ⟨record, hrecord, -, rfl⟩) halias
    · have hnone : ∀ server ∈ (Zone.fromConfig mailRecords [] 0 none).nameservers,
          ((Zone.fromConfig mailRecords [] 0 none).alias? (normalize server)).isSome = false := by decide +kernel
      exact absurd halias (Bool.eq_false_iff.mp (hnone server hserver))
    · have hnone : ∀ record ∈ mailRecords.records,
          ((Zone.fromConfig mailRecords [] 0 none).alias? (normalize record.value)).isSome = false := by decide +kernel
      exact absurd halias (Bool.eq_false_iff.mp (hnone record hrecord))
  refine ⟨hcheck, (hkept.1 _ false (by decide +kernel) ⟨by decide +kernel, by decide +kernel, by decide +kernel,
    by decide +kernel⟩).mpr (hkept.2.1 htyped _ false (not_declares_none (by decide +kernel)))⟩

/-- The alias `www` goes along with the exchanger as a nameserver, and the nameserver of `lab` is not answered. -/
theorem type_lost_in_glue :
    aliasedRecords.check "dns".toList = [] ∧
      ¬Faithful aliasedRecords none (Zone.fromConfig aliasedRecords [] 0 none) ⟨0, "example.com".toList, .mx, false⟩
        true ∧
      ¬Faithful aliasedRecords none (Zone.fromConfig aliasedRecords [] 0 none) ⟨0, "lab.example.com".toList, .ns, false⟩
        true := by
  refine ⟨by decide +kernel, ?_, ?_⟩
  · rintro ⟨sections, hread, hgenuine, -⟩
    have hsent : (readSections (respond ⟨0, "example.com".toList, .mx, false⟩
        (some (Zone.fromConfig aliasedRecords [] 0 none)) true)).toOption.map
          (fun sections => sections.additional.map fun frame => (frame.name, frame.recordType)) =
        some [("www.example.com".toList, .ns)] := by decide +kernel
    rw [hread] at hsent
    obtain ⟨frame, hframe, heq⟩ : ∃ frame ∈ sections.additional,
        (frame.name, frame.recordType) = ("www.example.com".toList, .ns) := by
      have hlist : sections.additional.map (fun frame => (frame.name, frame.recordType)) =
          [("www.example.com".toList, .ns)] := Option.some.inj hsent
      rw [← List.mem_map, hlist]
      exact List.mem_singleton.mpr rfl
    obtain ⟨hname, htype⟩ := Prod.mk.inj heq
    cases hgenuine frame (List.mem_append_right _ hframe) with
    | soa is => exact absurd (htype.symm.trans is.type) (by decide)
    | ns server _ is => exact absurd (hname.symm.trans is.owner) (by decide +kernel)
    | declared owner t data hdeclared is =>
        obtain ⟨declared, hmem, howner, -, -, hkind⟩ := name_of_declares hdeclared (Or.inr (is.type.symm.trans htype))
        have hnone : ∀ declared ∈ aliasedRecords.records, declared.kind = some .ns →
            qualify (normalize aliasedRecords.domain) declared.name ≠ "www.example.com".toList := by decide +kernel
        exact hnone declared hmem (hkind (is.type.symm.trans htype)) (howner.trans (is.owner.symm.trans hname))
  · rintro ⟨sections, hread, -, hcomplete⟩
    have hsent : (readSections (respond ⟨0, "lab.example.com".toList, .ns, false⟩
        (some (Zone.fromConfig aliasedRecords [] 0 none)) true)).toOption.map Sections.answers = some [] := by
      decide +kernel
    rw [hread] at hsent
    have hdeclares : Declares aliasedRecords none (normalize "lab.example.com".toList) .ns
        (some (.name "ns.example.net".toList)) := by
      have hlab := @Declares.record aliasedRecords none
        ⟨"lab".toList, "NS".toList, 3600, "ns.example.net".toList, some 10⟩ .ns (by decide +kernel) (by decide +kernel)
      have howner : qualify (normalize aliasedRecords.domain) "lab".toList = normalize "lab.example.com".toList := by
        decide +kernel
      have hvalue : dataFromConfig ⟨"lab".toList, "NS".toList, 3600, "ns.example.net".toList, some 10⟩ =
          some (.name "ns.example.net".toList) := by decide +kernel
      rw [howner, hvalue] at hlab
      exact hlab
    obtain ⟨data, -, frame, hframe, -⟩ := hcomplete (by decide +kernel) _ hdeclares
    rw [Option.some.inj hsent] at hframe
    cases hframe

end Selfhost.Dns
