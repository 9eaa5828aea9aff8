import Selfhost.Dns.Theorems.ReadBack

/-!
# Declared records and the records that are served

The checks of a configuration and the builder of a zone have their own parsers. `served_iff` says which configurations
without a problem are served in full.
-/

namespace Selfhost.Dns

open Selfhost.Lib

/-- Every record a zone declares is served: it builds exactly one record, every name of the zone is accepted, and every
reply about a name of the zone is read back. -/
structure ZoneServed (zone : ZoneConfig) (built : Zone) : Prop where
  each : zone.records ≠ [] → Results (recordFromConfig (normalize zone.domain)) zone.records built.records
  accepted : ∀ record ∈ built.contents, NamesAccepted record
  whole : ∀ query overTcp, Readable query.name → built.contains query.name = true → ReadBack query built overTcp

def Served (dns : DnsConfig) : Prop :=
  ∀ zone ∈ dns.zones, ∀ serial publicIp, ZoneServed zone (.fromConfig zone dns.secondaries serial publicIp)

/-! ## Zones that fit -/

/-- The hostname that a declared record points at. -/
def RecordConfig.target (record : RecordConfig) : Option Str :=
  match record.kind with
  | some .mx | some .cname | some .ns => some record.value
  | some .srv => (splitWhitespace record.value)[3]?
  | _ => none

/-- A declaration that is served: its owner and its target are writable, and the target of a service is not the root.
When its owner is short enough to be asked for, its target is shorter than 255 bytes and its payload has a length of
16 bits. -/
structure Fits (origin : Str) (record : RecordConfig) : Prop where
  owner : Writable (qualify origin record.name)
  target : ∀ target, record.target = some target →
    Writable (normalize target) ∧ (record.kind = some .srv → normalize target ≠ [])
  short : byteLen (qualify origin record.name) < maxName → ∀ target, record.target = some target →
    byteLen (normalize target) < maxName
  text : byteLen (qualify origin record.name) < maxName → record.kind = some .txt →
    (writeRdata (.txt record.value)).length < 2 ^ 16
  caa : byteLen (qualify origin record.name) < maxName → ∀ data, record.kind = some .caa →
    caaRdata record.value = some data → data.length < 2 ^ 16

/-- The names of the SOA and the nameservers of the apex. -/
def ZoneConfig.apexNames (zone : ZoneConfig) (secondaries : List Str) : List Str :=
  let origin := normalize zone.domain
  ((zone.soa.bind SoaConfig.primary).map normalize).getD ("ns1".toList ++ '.' :: origin) ::
    ((zone.soa.bind SoaConfig.responsible).map normalize).getD ("hostmaster".toList ++ '.' :: origin) ::
    ((if zone.nameservers = [] then ["ns1".toList ++ '.' :: origin, "ns2".toList ++ '.' :: origin]
      else zone.nameservers.map normalize) ++ secondaries.map normalize)

/-- A zone that is served: its declarations fit, the names of its apex are writable, and shorter than 255 bytes when the
origin is, the origin of a bare zone leaves room for `www` in front of it, and no section of an answer has 2 ^ 16
records. -/
structure ZoneFits (secondaries : List Str) (zone : ZoneConfig) : Prop where
  records : ∀ record ∈ zone.records, Fits (normalize zone.domain) record
  apex : ∀ name ∈ zone.apexNames secondaries,
    Writable name ∧ (byteLen (normalize zone.domain) < maxName → byteLen name < maxName)
  bare : zone.records = [] → byteLen (normalize zone.domain) + 4 ≤ maxName
  counts : ∀ serial publicIp query, Readable query.name → Under (normalize zone.domain) (normalize query.name) →
    let r := resolve (.fromConfig zone secondaries serial publicIp) query
    r.answers.length < 2 ^ 16 ∧ r.authority.length < 2 ^ 16 ∧ r.additional.length < 2 ^ 16

/-! ## The builder -/

theorem parseBelow_of_srvProblem {value priority weight port target : Str}
    (hfields : splitWhitespace value = [priority, weight, port, target]) (h : srvProblem value = none) :
    (parseBelow 0x10000 priority).isSome = true ∧ (parseBelow 0x10000 weight).isSome = true ∧
      (parseBelow 0x10000 port).isSome = true := by
  rw [srvProblem, hfields] at h
  dsimp only at h
  split at h
  · cases h
  · rename_i hfind
    rw [List.find?_eq_none] at hfind
    simpa [Option.isNone_iff_eq_none, Option.isSome_iff_ne_none] using hfind

theorem srvData_eq {value : Str} (h : srvProblem value = none) :
    ∃ priority weight port target, splitWhitespace value = [priority, weight, port, target] ∧
      ∃ p w q, srvData value = if normalize target = [] then none else some (.srv p w q (normalize target)) := by
  have hcopy := h
  rw [srvProblem] at hcopy
  split at hcopy
  · rename_i priority weight port target hfields
    obtain ⟨hp, hw, hq⟩ := parseBelow_of_srvProblem hfields h
    obtain ⟨p, hp⟩ := Option.isSome_iff_exists.mp hp
    obtain ⟨w, hw⟩ := Option.isSome_iff_exists.mp hw
    obtain ⟨q, hq⟩ := Option.isSome_iff_exists.mp hq
    refine ⟨priority, weight, port, target, hfields, UInt16.ofNat p, UInt16.ofNat w, UInt16.ofNat q, ?_⟩
    rw [srvData, hfields]
    simp only [hp, hw, hq, bind, Option.bind_some, ne_eq, not_true_eq_false, or_false]
  · cases hcopy

theorem caaRdata_isSome {value : Str} (h : caaProblem value = none) : (caaRdata value).isSome = true := by
  rw [caaProblem] at h
  split at h
  · cases h
  · rename_i flags fields hfields
    split at h
    · cases h
    · rename_i hflags
      split at h
      · cases h
      · rename_i tag rest
        split at h
        · cases h
        · rename_i htag
          split at h
          · cases h
          · rename_i hrest
            push Not at htag
            obtain ⟨n, hn⟩ := Option.ne_none_iff_exists'.mp (mt Option.isNone_iff_eq_none.mpr hflags)
            have hshort : ¬(tag = [] ∨ 255 < byteLen tag) := by
              have := htag.2
              unfold maxLabel at this
              rintro (h | h)
              · exact htag.1 h
              · omega
            rw [caaRdata, hfields]
            simp only [hn, bind, Option.bind_some, if_neg hshort, if_neg hrest, Option.isSome_some]

/-- A declaration without a problem has a known type. -/
theorem Declared.kind {zone : ZoneConfig} {config : RecordConfig} (h : Declared zone config) :
    ∃ kind, config.kind = some kind := by
  obtain ⟨at', htype⟩ := h.type
  cases hkind : config.kind with
  | some kind => exact ⟨kind, rfl⟩
  | none =>
      rw [RecordConfig.typeProblems, hkind] at htype
      cases htype

theorem isSome_of_fault {α : Type} {parsed : Option α} {message : Str}
    (h : (if parsed.isNone = true then some message else none) = none) : ∃ a, parsed = some a := by
  cases parsed with
  | none => cases h
  | some a => exact ⟨a, rfl⟩

/-- What a declaration without a problem builds, by its type: always a record, but for a service at the root. -/
theorem dataFromConfig_cases {zone : ZoneConfig} {config : RecordConfig} (h : Declared zone config) :
    (∃ ip, config.target = none ∧ config.kind = some .a ∧ dataFromConfig config = some (.a ip)) ∨
      (∃ ip, config.target = none ∧ config.kind = some .aaaa ∧ dataFromConfig config = some (.aaaa ip)) ∨
      (∃ preference, config.target = some config.value ∧ config.kind = some .mx ∧
        dataFromConfig config = some (.mx preference (normalize config.value))) ∨
      (config.target = none ∧ config.kind = some .txt ∧ dataFromConfig config = some (.txt config.value)) ∨
      (config.target = some config.value ∧ (config.kind = some .cname ∨ config.kind = some .ns) ∧
        dataFromConfig config = some (.name (normalize config.value))) ∨
      (∃ target p w q, config.target = some target ∧ config.kind = some .srv ∧
        dataFromConfig config = if normalize target = [] then none else some (.srv p w q (normalize target))) ∨
      ∃ data, config.target = none ∧ config.kind = some .caa ∧ caaRdata config.value = some data ∧
        dataFromConfig config = some (.unknown .caa data) := by
  obtain ⟨kind, hkind⟩ := h.kind
  obtain ⟨at', htype⟩ := h.type
  have hvalue := h.value
  rw [RecordConfig.valueFault, hkind] at hvalue
  rw [RecordConfig.typeProblems, hkind] at htype
  rw [RecordConfig.target, dataFromConfig, hkind]
  cases kind with
  | a =>
      obtain ⟨ip, hip⟩ := isSome_of_fault hvalue
      exact Or.inl ⟨ip, rfl, rfl, by dsimp only; rw [hip]; rfl⟩
  | aaaa =>
      obtain ⟨ip, hip⟩ := isSome_of_fault hvalue
      exact Or.inr (Or.inl ⟨ip, rfl, rfl, by dsimp only; rw [hip]; rfl⟩)
  | mx =>
      obtain ⟨preference, hpreference⟩ := Option.ne_none_iff_exists'.mp
        (mt Option.isNone_iff_eq_none.mpr (Bool.eq_false_iff.mp (problemIf_eq_nil.mp htype)))
      exact Or.inr (Or.inr (Or.inl ⟨preference, rfl, rfl, by dsimp only; rw [hpreference]; rfl⟩))
  | txt => exact Or.inr (Or.inr (Or.inr (Or.inl ⟨rfl, rfl, rfl⟩)))
  | cname => exact Or.inr (Or.inr (Or.inr (Or.inr (Or.inl ⟨rfl, Or.inl rfl, rfl⟩))))
  | ns => exact Or.inr (Or.inr (Or.inr (Or.inr (Or.inl ⟨rfl, Or.inr rfl, rfl⟩))))
  | srv =>
      obtain ⟨priority, weight, port, target, hfields, p, w, q, hdata⟩ := srvData_eq hvalue
      refine Or.inr (Or.inr (Or.inr (Or.inr (Or.inr (Or.inl ⟨target, p, w, q, ?_, rfl, hdata⟩)))))
      dsimp only
      rw [hfields]
      rfl
  | caa =>
      obtain ⟨data, hdata⟩ := Option.isSome_iff_exists.mp (caaRdata_isSome hvalue)
      exact Or.inr (Or.inr (Or.inr (Or.inr (Or.inr (Or.inr ⟨data, rfl, rfl, hdata, by dsimp only; rw [hdata]; rfl⟩)))))

/-- What a declaration without a problem builds: stored targets, nothing uninterpreted but CAA, and no type of the
apex. -/
theorem stored_of_declared {zone : ZoneConfig} {config : RecordConfig} {data : RecordData} (h : Declared zone config)
    (hdata : dataFromConfig config = some data) :
    (∀ t bytes, data = .unknown t bytes → t = .caa) ∧ (∀ target ∈ targetsOf data, trimDots target = target) ∧
      isTransfer (dataType data) = false ∧ dataType data ≠ .soa ∧ dataType data ≠ .ns := by
  rcases dataFromConfig_cases h with ⟨ip, -, -, heq⟩ | ⟨ip, -, -, heq⟩ | ⟨preference, -, -, heq⟩ | ⟨-, -, heq⟩ |
    ⟨-, -, heq⟩ | ⟨target, p, w, q, -, -, heq⟩ | ⟨bytes, -, -, -, heq⟩
  · obtain rfl := Option.some.inj (hdata.symm.trans heq)
    simp [targetsOf, dataType, isTransfer]
  · obtain rfl := Option.some.inj (hdata.symm.trans heq)
    simp [targetsOf, dataType, isTransfer]
  · obtain rfl := Option.some.inj (hdata.symm.trans heq)
    simp [targetsOf, dataType, isTransfer]
  · obtain rfl := Option.some.inj (hdata.symm.trans heq)
    simp [targetsOf, dataType, isTransfer]
  · obtain rfl := Option.some.inj (hdata.symm.trans heq)
    simp [targetsOf, dataType, isTransfer]
  · rw [hdata] at heq
    split at heq
    · cases heq
    · obtain rfl := Option.some.inj heq
      simp [targetsOf, dataType, isTransfer]
  · obtain rfl := Option.some.inj (hdata.symm.trans heq)
    simp [targetsOf, dataType, isTransfer]

/-- A declaration that builds some data is sendable when its names are accepted and, under a short owner, its data is
read where it is written. -/
theorem built_iff {config : RecordConfig} {origin : Str} {data : RecordData} (hdata : dataFromConfig config = some data)
    (howner : trimDots (qualify origin config.name) = qualify origin config.name)
    (htargets : ∀ target ∈ targetsOf data, trimDots target = target) :
    (∃ record, recordFromConfig origin config = some record ∧ Sendable record) ↔
      Writable (qualify origin config.name) ∧ (∀ target ∈ targetsOf data, Writable target) ∧
        (byteLen (qualify origin config.name) < maxName → DataOk data) := by
  have hrecord : recordFromConfig origin config = some ⟨qualify origin config.name, config.ttl, data⟩ := by
    rw [recordFromConfig, hdata]
    rfl
  have haccepted : NamesAccepted ⟨qualify origin config.name, config.ttl, data⟩ ↔
      Writable (qualify origin config.name) ∧ ∀ target ∈ targetsOf data, Writable target := by
    refine and_congr (writeName_ok_of_trimmed howner) (forall₂_congr fun target hmem => ?_)
    exact writeName_ok_of_trimmed (htargets target hmem)
  constructor
  · rintro ⟨record, heq, hnames, hok⟩
    obtain rfl := Option.some.inj (hrecord.symm.trans heq)
    exact ⟨(haccepted.mp hnames).1, (haccepted.mp hnames).2, hok⟩
  · rintro ⟨hname, hnames, hok⟩
    exact ⟨_, hrecord, haccepted.mpr ⟨hname, hnames⟩, hok⟩

/-- A declaration with a target and no text fits exactly when it builds a record that is sendable. -/
theorem fits_iff_of_target {config : RecordConfig} {origin target : Str} {data : RecordData}
    (hdata : dataFromConfig config = some data)
    (howner : trimDots (qualify origin config.name) = qualify origin config.name)
    (htarget : config.target = some target) (hnames : targetsOf data = [normalize target])
    (hok : DataOk data ↔ Readable (normalize target)) (hroot : config.kind = some .srv → normalize target ≠ [])
    (htxt : config.kind ≠ some .txt) (hcaa : config.kind ≠ some .caa) :
    Fits origin config ↔ ∃ record, recordFromConfig origin config = some record ∧ Sendable record := by
  rw [built_iff hdata howner (by rw [hnames]; simp only [List.mem_singleton, forall_eq, trimDots_normalize]), hnames,
    hok]
  constructor
  · intro hfits
    have hwritable := (hfits.target _ htarget).1
    refine ⟨hfits.owner, by simpa using hwritable, fun hshort => ?_⟩
    exact readable_iff.mpr ⟨hwritable, hfits.short hshort _ htarget⟩
  · rintro ⟨hname, hwritable, hreadable⟩
    refine ⟨hname, ?_, ?_, fun _ h => absurd h htxt, fun _ _ h => absurd h hcaa⟩
    · intro other heq
      obtain rfl := Option.some.inj (htarget.symm.trans heq)
      exact ⟨hwritable _ List.mem_cons_self, hroot⟩
    · intro hshort other heq
      obtain rfl := Option.some.inj (htarget.symm.trans heq)
      exact (readable_iff.mp (hreadable hshort)).2

/-- A declaration fits exactly when it builds a record that is sendable. -/
theorem fits_iff {zone : ZoneConfig} {config : RecordConfig} {origin : Str} (h : Declared zone config)
    (howner : trimDots (qualify origin config.name) = qualify origin config.name) :
    Fits origin config ↔ ∃ record, recordFromConfig origin config = some record ∧ Sendable record := by
  have htargets := @stored_of_declared zone config
  rcases dataFromConfig_cases h with ⟨ip, htarget, hkind, hdata⟩ | ⟨ip, htarget, hkind, hdata⟩ |
    ⟨preference, htarget, hkind, hdata⟩ | ⟨htarget, hkind, hdata⟩ | ⟨htarget, hkind, hdata⟩ |
    ⟨target, p, w, q, htarget, hkind, hdata⟩ | ⟨bytes, htarget, hkind, hcaa, hdata⟩
  · rw [built_iff hdata howner (htargets h hdata).2.1]
    refine ⟨fun hfits => ⟨hfits.owner, by simp [targetsOf], fun _ => trivial⟩, fun hok => ⟨hok.1, ?_, ?_, ?_, ?_⟩⟩
    all_goals simp [htarget, hkind]
  · rw [built_iff hdata howner (htargets h hdata).2.1]
    refine ⟨fun hfits => ⟨hfits.owner, by simp [targetsOf], fun _ => trivial⟩, fun hok => ⟨hok.1, ?_, ?_, ?_, ?_⟩⟩
    all_goals simp [htarget, hkind]
  · exact fits_iff_of_target hdata howner htarget rfl Iff.rfl (by simp [hkind]) (by simp [hkind]) (by simp [hkind])
  · rw [built_iff hdata howner (htargets h hdata).2.1]
    refine ⟨fun hfits => ⟨hfits.owner, by simp [targetsOf], fun hshort => hfits.text hshort hkind⟩,
      fun hok => ⟨hok.1, ?_, ?_, fun hshort _ => hok.2.2 hshort, ?_⟩⟩
    all_goals simp [htarget, hkind]
  · have hnot : ∀ kind : Kind, config.kind = some kind → kind = .cname ∨ kind = .ns := by
      intro kind heq
      rcases hkind with hkind | hkind
      · exact Or.inl (Option.some.inj (heq.symm.trans hkind))
      · exact Or.inr (Option.some.inj (heq.symm.trans hkind))
    refine fits_iff_of_target hdata howner htarget rfl Iff.rfl ?_ ?_ ?_
    · exact fun hsrv => absurd (hnot _ hsrv) (by decide)
    · exact fun htxt => absurd (hnot _ htxt) (by decide)
    · exact fun hcaa => absurd (hnot _ hcaa) (by decide)
  · by_cases hroot : normalize target = []
    · rw [if_pos hroot] at hdata
      constructor
      · intro hfits
        exact absurd hroot ((hfits.target target htarget).2 hkind)
      · rintro ⟨record, hrecord, -⟩
        rw [recordFromConfig, hdata] at hrecord
        cases hrecord
    · rw [if_neg hroot] at hdata
      exact fits_iff_of_target hdata howner htarget rfl Iff.rfl (fun _ => hroot) (by simp [hkind]) (by simp [hkind])
  · rw [built_iff hdata howner (htargets h hdata).2.1]
    refine ⟨fun hfits => ⟨hfits.owner, by simp [targetsOf], fun hshort => ⟨hfits.caa hshort bytes hkind hcaa, rfl⟩⟩,
      fun hok => ⟨hok.1, ?_, ?_, ?_, ?_⟩⟩
    · simp [htarget]
    · simp [htarget]
    · simp [hkind]
    · intro hshort data _ heq
      obtain rfl := Option.some.inj (hcaa.symm.trans heq)
      exact (hok.2.2 hshort).1

/-! ## Built zones -/

theorem mem_addSecondaries {name : Str} {nameservers secondaries : List Str} :
    name ∈ addSecondaries nameservers secondaries ↔ name ∈ nameservers ∨ name ∈ secondaries.map normalize := by
  induction secondaries generalizing nameservers with
  | nil => simp [addSecondaries]
  | cons secondary secondaries ih =>
      rw [addSecondaries, List.foldl_cons, ← addSecondaries, ih, List.map_cons, List.mem_cons]
      split
      · rename_i hmem
        constructor
        · exact fun h => h.imp_right Or.inr
        · rintro (h | rfl | h)
          · exact Or.inl h
          · exact Or.inl hmem
          · exact Or.inr h
      · rw [List.mem_append, List.mem_singleton, or_assoc]

section

variable {zone : ZoneConfig} {secondaries : List Str} {serial : UInt32} {publicIp : Option Ipv4Addr} {at' : Str}

theorem soa_fromConfig :
    targetsOf (.soa (Zone.fromConfig zone secondaries serial publicIp).soa) =
      [((zone.soa.bind SoaConfig.primary).map normalize).getD ("ns1".toList ++ '.' :: normalize zone.domain),
        ((zone.soa.bind SoaConfig.responsible).map normalize).getD
          ("hostmaster".toList ++ '.' :: normalize zone.domain)] := by
  unfold Zone.fromConfig
  dsimp only
  cases zone.soa with
  | none => rfl
  | some overrides => rfl

theorem problem_of_check (h : zone.check at' = []) : nameProblem zone.domain = none := by
  rw [ZoneConfig.check] at h
  simp only [List.append_eq_nil_iff, problemOf_eq_nil] at h
  exact h.1.1

theorem normalize_label (h : zone.check at' = []) (label : String) (hlabel : toAsciiLowercase label.toList = label.toList) :
    normalize (label.toList ++ '.' :: normalize zone.domain) = label.toList ++ '.' :: normalize zone.domain :=
  normalize_prepend (normalize_normalize _) (normalize_ne_nil_of_nameProblem (problem_of_check h)) label hlabel

/-- The nameservers of a built zone are stored. -/
theorem normalize_of_server (h : zone.check at' = []) {server : Str}
    (hserver : server ∈ (Zone.fromConfig zone secondaries serial publicIp).nameservers) : normalize server = server := by
  change server ∈ addSecondaries (if zone.nameservers = [] then
    ["ns1".toList ++ '.' :: normalize zone.domain, "ns2".toList ++ '.' :: normalize zone.domain]
    else zone.nameservers.map normalize) secondaries at hserver
  rw [mem_addSecondaries] at hserver
  rcases hserver with hserver | hserver
  · split at hserver
    · simp only [List.mem_cons, List.not_mem_nil, or_false] at hserver
      rcases hserver with rfl | rfl
      · exact normalize_label h "ns1" (by decide)
      · exact normalize_label h "ns2" (by decide)
    · obtain ⟨declared, -, rfl⟩ := List.mem_map.mp hserver
      exact normalize_normalize _
  · obtain ⟨declared, -, rfl⟩ := List.mem_map.mp hserver
    exact normalize_normalize _

/-- The names of the apex are those of the SOA and of the nameservers. -/
theorem mem_apexNames {name : Str} :
    name ∈ zone.apexNames secondaries ↔
      name ∈ targetsOf (.soa (Zone.fromConfig zone secondaries serial publicIp).soa) ∨
        name ∈ (Zone.fromConfig zone secondaries serial publicIp).nameservers := by
  change _ ↔ _ ∨ name ∈ addSecondaries (if zone.nameservers = [] then
    ["ns1".toList ++ '.' :: normalize zone.domain, "ns2".toList ++ '.' :: normalize zone.domain]
    else zone.nameservers.map normalize) secondaries
  rw [mem_addSecondaries, soa_fromConfig, ZoneConfig.apexNames]
  simp only [List.mem_cons, List.mem_append, List.not_mem_nil, or_false, or_assoc]

theorem normalize_of_apexName (h : zone.check at' = []) {name : Str} (hname : name ∈ zone.apexNames secondaries) :
    normalize name = name := by
  rw [@mem_apexNames zone secondaries 0 none, soa_fromConfig] at hname
  simp only [List.mem_cons, List.not_mem_nil, or_false] at hname
  rcases hname with (rfl | rfl) | hserver
  · cases zone.soa.bind SoaConfig.primary with
    | none => exact normalize_label h "ns1" (by decide)
    | some primary => exact normalize_normalize _
  · cases zone.soa.bind SoaConfig.responsible with
    | none => exact normalize_label h "hostmaster" (by decide)
    | some responsible => exact normalize_normalize _
  · exact normalize_of_server h hserver

/-- The records of a built zone are stored, and have no type of the apex. -/
theorem stored_records (h : zone.check at' = []) {record : Record}
    (hmem : record ∈ (Zone.fromConfig zone secondaries serial publicIp).records) :
    Stored record ∧ normalize record.name = record.name ∧ isTransfer (dataType record.data) = false ∧
      dataType record.data ≠ .soa ∧ dataType record.data ≠ .ns := by
  have hnames := (Zone.fromConfig zone secondaries serial publicIp).names_stored record hmem
  have hname : trimDots record.name = record.name := trimDots_of_under (normalize_normalize _)
    (normalize_ne_nil_of_nameProblem (problem_of_check h)) hnames.2
  have hnormal : normalize record.name = record.name := by rw [normalize, hname, hnames.1]
  rcases mem_records_fromConfig.mp hmem with ⟨-, hscaffold⟩ | ⟨config, hconfig, hrecord⟩
  · obtain ⟨⟨ip, hdata⟩, -⟩ := scaffoldRecords_cases hscaffold
    refine ⟨⟨hname, ?_, ?_⟩, hnormal, ?_⟩
    · simp [hdata, targetsOf]
    · simp [hdata]
    · simp [hdata, dataType, isTransfer]
  · obtain ⟨data, hdata, rfl⟩ := Option.map_eq_some_iff.mp hrecord
    obtain ⟨hcaa, htargets, hplain⟩ := stored_of_declared (ZoneConfig.declared_of_check h hconfig) hdata
    exact ⟨⟨hname, htargets, hcaa⟩, hnormal, hplain⟩

theorem stored_contents (h : zone.check at' = []) :
    ∀ record ∈ (Zone.fromConfig zone secondaries serial publicIp).contents, Stored record := by
  intro record hmem
  rw [Zone.contents, List.mem_cons, List.mem_append] at hmem
  rcases hmem with rfl | hns | hrecord
  · refine ⟨trimDots_normalize _, ?_, fun t bytes heq => by cases heq⟩
    intro target htarget
    exact trimDots_of_normalize (normalize_of_apexName h
      ((@mem_apexNames zone secondaries serial publicIp target).mpr (Or.inl htarget)))
  · obtain ⟨server, -, rfl⟩ := List.mem_map.mp hns
    refine ⟨trimDots_normalize _, ?_, fun t bytes heq => by cases heq⟩
    intro target htarget
    rw [List.mem_singleton.mp htarget]
    exact trimDots_normalize _
  · exact (stored_records h hrecord).1

theorem trimDots_qualify (h : zone.check at' = []) (config : RecordConfig) :
    trimDots (qualify (normalize zone.domain) config.name) = qualify (normalize zone.domain) config.name :=
  trimDots_of_under (normalize_normalize _) (normalize_ne_nil_of_nameProblem (problem_of_check h))
    (qualify_stored (normalize_normalize _) _).2

/-- The apex is sendable when its names are writable, and readable under an origin that can be asked for. -/
theorem sendable_apex_iff (h : zone.check at' = []) :
    (∀ record, record = (Zone.fromConfig zone secondaries serial publicIp).soaRecord ∨
        record ∈ (Zone.fromConfig zone secondaries serial publicIp).nsRecords → Sendable record) ↔
      ∀ name ∈ zone.apexNames secondaries,
        Writable name ∧ (byteLen (normalize zone.domain) < maxName → byteLen name < maxName) := by
  have horigin : (writeName (normalize zone.domain)).2 = .ok () :=
    (writeName_ok_of_trimmed (trimDots_normalize _)).mpr (writable_of_nameProblem (problem_of_check h))
  have hwritable : ∀ name ∈ zone.apexNames secondaries, ((writeName name).2 = .ok () ↔ Writable name) :=
    fun name hname => writeName_ok_of_trimmed (trimDots_of_normalize (normalize_of_apexName h hname))
  constructor
  · intro hsendable name hname
    have hcases := (@mem_apexNames zone secondaries serial publicIp name).mp hname
    rcases hcases with htarget | hserver
    · obtain ⟨haccepted, hok⟩ := hsendable _ (Or.inl rfl)
      refine ⟨(hwritable name hname).mp (haccepted.2 name htarget), fun hshort => ?_⟩
      have hboth := hok hshort
      have hreadable : Readable name := by
        simp only [targetsOf, List.mem_cons, List.not_mem_nil, or_false] at htarget
        rcases htarget with rfl | rfl
        · exact hboth.1
        · exact hboth.2
      exact (readable_iff.mp hreadable).2
    · obtain ⟨haccepted, hok⟩ := hsendable _ (Or.inr (List.mem_map_of_mem hserver))
      dsimp only at haccepted hok
      rw [normalize_of_server h hserver] at haccepted hok
      refine ⟨(hwritable name hname).mp (haccepted.2 name List.mem_cons_self), fun hshort => ?_⟩
      exact (readable_iff.mp (hok hshort)).2
  · intro hnames record hrecord
    have hapex : ∀ name, name ∈ targetsOf (.soa (Zone.fromConfig zone secondaries serial publicIp).soa) ∨
        name ∈ (Zone.fromConfig zone secondaries serial publicIp).nameservers →
        (writeName name).2 = .ok () ∧ (byteLen (normalize zone.domain) < maxName → Readable name) := by
      intro name hname
      have hmem := (@mem_apexNames zone secondaries serial publicIp name).mpr hname
      obtain ⟨hwrite, hshort⟩ := hnames name hmem
      exact ⟨(hwritable name hmem).mpr hwrite, fun h => readable_iff.mpr ⟨hwrite, hshort h⟩⟩
    rcases hrecord with rfl | hns
    · refine ⟨⟨horigin, fun target htarget => (hapex target (Or.inl htarget)).1⟩, fun hshort => ⟨?_, ?_⟩⟩
      · exact (hapex _ (Or.inl List.mem_cons_self)).2 hshort
      · exact (hapex _ (Or.inl (List.mem_cons_of_mem _ List.mem_cons_self))).2 hshort
    · obtain ⟨server, hserver, rfl⟩ := List.mem_map.mp hns
      obtain ⟨hwrite, hshort⟩ := hapex server (Or.inr hserver)
      rw [normalize_of_server h hserver]
      refine ⟨⟨horigin, ?_⟩, fun hlen => hshort hlen⟩
      intro target htarget
      rw [List.mem_singleton.mp htarget]
      exact hwrite

/-- `www`, `ns1` and `ns2` take the same room before the origin. -/
theorem writeName_below (h : zone.check at' = []) {label : String} (hlabel : label ∈ ["www", "ns1", "ns2"]) :
    (writeName (label.toList ++ '.' :: normalize zone.domain)).2 = .ok () ↔
      byteLen (normalize zone.domain) + 4 ≤ maxName := by
  have hproblem := problem_of_check h
  have hlower : ∀ label ∈ ["www", "ns1", "ns2"], toAsciiLowercase label.toList = label.toList := by decide
  have hok : ∀ label ∈ ["www", "ns1", "ns2"], (LabelOk label.toList ∧ label.toList.splitOn '.' = [label.toList]) ∧
      byteLen label.toList = 3 := by decide
  have hroom := writable_prepend (writable_of_nameProblem hproblem) (normalize_ne_nil_of_nameProblem hproblem) label
    (hok label hlabel).1
  rw [(hok label hlabel).2] at hroom
  have htrim := trimDots_of_normalize (normalize_label h label (hlower label hlabel))
  exact (writeName_ok_of_trimmed htrim).trans (hroom.trans (by rw [Nat.add_comm]))

/-- The scaffold is sendable where there is room for its names. -/
theorem sendable_scaffold (h : zone.check at' = []) (hroom : byteLen (normalize zone.domain) + 4 ≤ maxName)
    {record : Record} (hmem : record ∈ scaffoldRecords (normalize zone.domain) publicIp) : Sendable record := by
  obtain ⟨⟨ip, hdata⟩, hname⟩ := scaffoldRecords_cases hmem
  refine ⟨⟨?_, by simp [hdata, targetsOf]⟩, fun _ => by rw [hdata]; trivial⟩
  rcases hname with hname | ⟨label, hlabel, hname⟩
  · rw [hname]
    exact (writeName_ok_of_trimmed (trimDots_normalize _)).mpr (writable_of_nameProblem (problem_of_check h))
  · rw [hname]
    exact (writeName_below h hlabel).mpr hroom

/-- A built zone is served exactly when its declarations build sendable records, and so on for its apex and for the names
of a bare zone, and no section of an answer outgrows its count. -/
theorem zoneServed_iff (h : zone.check at' = []) :
    ZoneServed zone (.fromConfig zone secondaries serial publicIp) ↔
      (zone.records ≠ [] → Results (recordFromConfig (normalize zone.domain)) zone.records
          (Zone.fromConfig zone secondaries serial publicIp).records) ∧
        (∀ record ∈ (Zone.fromConfig zone secondaries serial publicIp).contents, Sendable record) ∧
        ∀ query, Readable query.name → Under (normalize zone.domain) (normalize query.name) →
          (resolve (.fromConfig zone secondaries serial publicIp) query).answers.length < 2 ^ 16 ∧
            (resolve (.fromConfig zone secondaries serial publicIp) query).authority.length < 2 ^ 16 ∧
            (resolve (.fromConfig zone secondaries serial publicIp) query).additional.length < 2 ^ 16 := by
  have hreplies := fun haccepted => @replies_iff (.fromConfig zone secondaries serial publicIp) (stored_contents h)
    haccepted (fun record hmem => (stored_records h hmem).2.2) (fun record hmem => (stored_records h hmem).2.1)
  constructor
  · rintro ⟨heach, haccepted, hwhole⟩
    obtain ⟨hsendable, hcounts⟩ := (hreplies haccepted).mp hwhole
    exact ⟨heach, hsendable, fun query hquery hunder => hcounts query hquery (decide_eq_true hunder)⟩
  · rintro ⟨heach, hsendable, hcounts⟩
    have haccepted := fun record hmem => (hsendable record hmem).1
    exact ⟨heach, haccepted, (hreplies haccepted).mpr
      ⟨hsendable, fun query hquery hcontains => hcounts query hquery (of_decide_eq_true hcontains)⟩⟩

end

/-! ## Configurations that are served -/

/-- Of the configurations without a problem, those are served in full whose zones all fit. -/
theorem served_iff (dns : DnsConfig) (at' : Str) (h : dns.check at' = []) :
    Served dns ↔ ∀ zone ∈ dns.zones, ZoneFits dns.secondaries zone := by
  refine forall₂_congr fun zone hzone => ?_
  obtain ⟨at'', hcheck⟩ := DnsConfig.zone_of_check h hzone
  constructor
  · intro hserved
    have hparts := fun serial publicIp => (zoneServed_iff hcheck).mp (hserved serial publicIp)
    obtain ⟨heach, hsendable, -⟩ := hparts 0 none
    refine ⟨?_, ?_, ?_, fun serial publicIp query hquery hunder => (hparts serial publicIp).2.2 query hquery hunder⟩
    · intro config hconfig
      obtain ⟨record, hmem, hrecord⟩ := (heach (List.ne_nil_of_mem hconfig)).of_mem hconfig
      rw [fits_iff (ZoneConfig.declared_of_check hcheck hconfig) (trimDots_qualify hcheck config)]
      exact ⟨record, hrecord, hsendable record (List.mem_cons_of_mem _ (List.mem_append_right _ hmem))⟩
    · rw [← @sendable_apex_iff zone dns.secondaries 0 none _ hcheck]
      intro record hrecord
      refine hsendable record ?_
      rw [Zone.contents, List.mem_cons, List.mem_append]
      exact hrecord.imp_right Or.inl
    · intro hbare
      -- an address brings the names of a bare zone
      have hmem : address ("www".toList ++ '.' :: normalize zone.domain) ⟨0, 0, 0, 0⟩ ∈
          (Zone.fromConfig zone dns.secondaries 0 (some ⟨0, 0, 0, 0⟩)).records :=
        mem_records_fromConfig.mpr (Or.inl ⟨hbare, List.mem_cons_of_mem _ List.mem_cons_self⟩)
      have hwrite := ((hparts 0 (some ⟨0, 0, 0, 0⟩)).2.1 _
        (List.mem_cons_of_mem _ (List.mem_append_right _ hmem))).1.1
      exact (writeName_below hcheck List.mem_cons_self).mp hwrite
  · intro hfits serial publicIp
    rw [zoneServed_iff hcheck]
    have hbuilt : ∀ config ∈ zone.records, ∃ record,
        recordFromConfig (normalize zone.domain) config = some record ∧ Sendable record := by
      intro config hconfig
      exact (fits_iff (ZoneConfig.declared_of_check hcheck hconfig) (trimDots_qualify hcheck config)).mp
        (hfits.records config hconfig)
    refine ⟨?_, ?_, fun query hquery hunder => hfits.counts serial publicIp query hquery hunder⟩
    · intro hne
      obtain ⟨records, hresults⟩ := exists_results fun config hconfig => (hbuilt config hconfig).imp fun _ h => h.1
      have hrecords : (Zone.fromConfig zone dns.secondaries serial publicIp).records = records := by
        change Zone.recordsFromConfig zone publicIp = records
        rw [Zone.recordsFromConfig, if_neg hne]
        exact hresults.filterMap
      rw [hrecords]
      exact hresults
    · intro record hmem
      rw [Zone.contents, List.mem_cons, List.mem_append, ← or_assoc] at hmem
      rcases hmem with hapex | hrecord
      · exact (sendable_apex_iff hcheck).mpr hfits.apex record hapex
      · rcases mem_records_fromConfig.mp hrecord with ⟨hbare, hscaffold⟩ | ⟨config, hconfig, heq⟩
        · exact sendable_scaffold hcheck (hfits.bare hbare) hscaffold
        · obtain ⟨record', heq', hsendable⟩ := hbuilt config hconfig
          obtain rfl := Option.some.inj (heq.symm.trans heq')
          exact hsendable

/-- A configuration of one zone with one record. -/
def oneRecord (domain : Str) (name recordType value : String) : DnsConfig where
  bind := "0.0.0.0:53".toList
  secondaries := []
  lanIp := none
  zones := [⟨domain, none, [], [⟨name.toList, recordType.toList, 3600, value.toList, none⟩]⟩]
  upstreams := []

/-- Few records make no section of 2 ^ 16. -/
theorem counts_of_few {zone : Zone} {query : Query}
    (h : maxCnameChain + zone.records.length + zone.nameservers.length + 1 < 2 ^ 16) :
    (resolve zone query).answers.length < 2 ^ 16 ∧ (resolve zone query).authority.length < 2 ^ 16 ∧
      (resolve zone query).additional.length < 2 ^ 16 := by
  obtain ⟨h₁, h₂, h₃⟩ := length_resolve zone query
  omega

theorem served_alias :
    (oneRecord "example.com".toList "www" "CNAME" "web.example.com").check "dns".toList = [] ∧
      Served (oneRecord "example.com".toList "www" "CNAME" "web.example.com") := by
  have hcheck : (oneRecord "example.com".toList "www" "CNAME" "web.example.com").check "dns".toList = [] := by decide +kernel
  refine ⟨hcheck, (served_iff _ _ hcheck).mpr ?_⟩
  intro zone hzone
  rw [List.mem_singleton.mp hzone]
  refine ⟨?_, by decide +kernel, fun hbare => absurd hbare (List.cons_ne_nil _ _), ?_⟩
  · intro config hconfig
    rw [List.mem_singleton.mp hconfig]
    have htarget : ∀ target, RecordConfig.target ⟨"www".toList, "CNAME".toList, 3600, "web.example.com".toList, none⟩ =
        some target → target = "web.example.com".toList := fun target h => Option.some.inj (h.symm.trans (by decide +kernel))
    refine ⟨by decide +kernel, fun target h => ?_, fun _ target h => ?_, fun _ h => absurd h (by decide),
      fun _ _ h => absurd h (by decide)⟩
    · rw [htarget target h]
      exact ⟨by decide +kernel, fun h => absurd h (by decide)⟩
    · rw [htarget target h]
      decide +kernel
  · intro serial publicIp query _ _
    let declared : ZoneConfig :=
      ⟨"example.com".toList, none, [], [⟨"www".toList, "CNAME".toList, 3600, "web.example.com".toList, none⟩]⟩
    have hrecords : (Zone.recordsFromConfig declared publicIp).length ≤ 1 := by
      rw [Zone.recordsFromConfig, if_neg (List.cons_ne_nil _ _)]
      exact List.length_filterMap_le _ _
    have hservers : (Zone.fromConfig declared [] serial publicIp).nameservers.length = 2 := rfl
    refine counts_of_few ?_
    change maxCnameChain + (Zone.recordsFromConfig declared publicIp).length +
      (Zone.fromConfig declared [] serial publicIp).nameservers.length + 1 < 2 ^ 16
    rw [hservers, maxCnameChain]
    omega

/-- A domain of 252 bytes. -/
def longDomain : Str := ['.'].intercalate (List.replicate 3 (List.replicate 63 'a') ++ [List.replicate 60 'a'])

/-- A service at the root passes the checks and builds nothing; an alias with an empty label passes them too, and its
target is not accepted; and so does a domain that leaves no room for `ns1` in front of it. -/
theorem dropped_declarations :
    (oneRecord "example.com".toList "_pop3._tcp" "SRV" "0 0 0 .").check "dns".toList = [] ∧
      (oneRecord "example.com".toList "_pop3._tcp" "SRV" "0 0 0 .").zones.map
        (fun zone => (Zone.fromConfig zone [] 0 none).records) = [[]] ∧
      ¬Served (oneRecord "example.com".toList "_pop3._tcp" "SRV" "0 0 0 .") ∧
      (oneRecord "example.com".toList "www" "CNAME" "web..example.com").check "dns".toList = [] ∧
      (writeName "web..example.com".toList).2 = .error .nameTooLong ∧
      ¬Served (oneRecord "example.com".toList "www" "CNAME" "web..example.com") ∧
      (oneRecord longDomain "@" "A" "192.0.2.1").check "dns".toList = [] ∧
      (writeName ("ns1.".toList ++ longDomain)).2 = .error .nameTooLong ∧
      ¬Served (oneRecord longDomain "@" "A" "192.0.2.1") := by
  refine ⟨by decide +kernel, by decide +kernel, ?_, by decide +kernel, by decide +kernel, ?_, by decide +kernel,
    by decide +kernel, ?_⟩
  · intro h
    have heach := ((h _ List.mem_cons_self 0 none).each (List.cons_ne_nil _ _)).length_eq
    exact absurd heach (by decide +kernel)
  · intro h
    have haccepted := (h _ List.mem_cons_self 0 none).accepted
      ⟨"www.example.com".toList, 3600, .name "web..example.com".toList⟩ (by decide +kernel)
    exact absurd (haccepted.2 _ List.mem_cons_self) (by decide +kernel)
  · intro h
    have haccepted := (h _ List.mem_cons_self 0 none).accepted
      ⟨longDomain, defaultMinimum, .name ("ns1.".toList ++ longDomain)⟩ (by decide +kernel)
    exact absurd (haccepted.2 _ List.mem_cons_self) (by decide +kernel)

end Selfhost.Dns
