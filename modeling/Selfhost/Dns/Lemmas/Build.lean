import Selfhost.Dns.Authority
import Selfhost.Dns.Lemmas.Message
import Selfhost.Dns.Zone

/-!
# The addresses of a bare zone

A zone without declared records is built around one address: every address in it is that one, and every name that the
configuration claims under it has it.
-/

namespace Selfhost.Dns

open Selfhost.Lib

/-! ## Checks without problems -/

@[simp] theorem problemIf_eq_nil {condition : Bool} {field message : Str} :
    problemIf condition field message = [] ↔ condition = false := by
  unfold problemIf
  split
  · rename_i h
    simp [h]
  · rename_i h
    simp [h]

@[simp] theorem problemOf_eq_nil {field : Str} {problem : Option Str} : problemOf field problem = [] ↔ problem = none := by
  cases problem with
  | none => simp [problemOf]
  | some message => simp [problemOf]

theorem check_of_checkEach {α : Type} {check : Nat → α → List Problem} {l : List α} (h : checkEach check l = [])
    {a : α} (hmem : a ∈ l) : ∃ i, check i a = [] := by
  obtain ⟨i, hi, rfl⟩ := List.mem_iff_getElem.mp hmem
  refine ⟨i, ?_⟩
  have hzip : (l[i], i) ∈ l.zipIdx := List.mk_mem_zipIdx_iff_getElem?.mpr (List.getElem?_eq_getElem hi)
  exact List.flatMap_eq_nil_iff.mp h (l[i], i) hzip

/-- A record that was declared, under its zone, without a problem. -/
structure Declared (zone : ZoneConfig) (record : RecordConfig) : Prop where
  domain : nameProblem zone.domain = none
  name : record.name ≠ []
  type : ∃ at', record.typeProblems at' zone = []
  value : record.valueFault = none

theorem DnsConfig.zone_of_check {dns : DnsConfig} {at' : Str} (h : dns.check at' = []) {zone : ZoneConfig}
    (hzone : zone ∈ dns.zones) : ∃ at', zone.check at' = [] := by
  rw [DnsConfig.check] at h
  simp only [List.append_eq_nil_iff] at h
  obtain ⟨i, hi⟩ := check_of_checkEach h.1.2 hzone
  exact ⟨_, hi⟩

theorem ZoneConfig.declared_of_check {zone : ZoneConfig} {at' : Str} (h : zone.check at' = []) {record : RecordConfig}
    (hrecord : record ∈ zone.records) : Declared zone record := by
  rw [ZoneConfig.check] at h
  simp only [List.append_eq_nil_iff, problemOf_eq_nil] at h
  obtain ⟨i, hi⟩ := check_of_checkEach h.2 hrecord
  rw [RecordConfig.check] at hi
  simp only [List.append_eq_nil_iff, problemOf_eq_nil, problemIf_eq_nil, List.isEmpty_eq_false_iff] at hi
  exact ⟨h.1.1, hi.1.1, ⟨_, hi.1.2⟩, hi.2⟩

/-! ## Built zones -/

/-- The records of a built zone are those of the scaffold, or those that are declared. -/
theorem mem_records_fromConfig {config : ZoneConfig} {secondaries : List Str} {serial : UInt32}
    {publicIp : Option Ipv4Addr} {record : Record} :
    record ∈ (Zone.fromConfig config secondaries serial publicIp).records ↔
      (config.records = [] ∧ record ∈ scaffoldRecords (normalize config.domain) publicIp) ∨
        ∃ declared ∈ config.records, recordFromConfig (normalize config.domain) declared = some record := by
  change record ∈ Zone.recordsFromConfig config publicIp ↔ _
  unfold Zone.recordsFromConfig
  split
  · rename_i hnone
    simp [hnone]
  · rename_i hsome
    simp [hsome]

/-! ## Stored names -/

@[simp] theorem trimDots_normalize (name : Str) : trimDots (normalize name) = normalize name := by
  rw [normalize, trimDots_toAsciiLowercase, trimDots, trimDots, List.rdropWhile_idempotent]

theorem trimDots_of_normalize {name : Str} (h : normalize name = name) : trimDots name = name := by
  rw [← h]
  exact trimDots_normalize name

theorem toAsciiLowercase_eq_nil {s : Str} : toAsciiLowercase s = [] ↔ s = [] := List.map_eq_nil_iff

theorem normalize_ne_nil_of_nameProblem {name : Str} (h : nameProblem name = none) : normalize name ≠ [] := by
  rw [normalize, ne_eq, toAsciiLowercase_eq_nil]
  intro hnil
  rw [nameProblem, if_pos hnil] at h
  cases h

/-- An owner that is under a stored origin has no dots at its end. -/
theorem trimDots_of_under {origin name : Str} (horigin : normalize origin = origin) (hne : origin ≠ [])
    (h : Under origin name) : trimDots name = name := by
  have hlast := trimDots_of_normalize horigin
  rcases h with rfl | ⟨front, rfl⟩
  · exact hlast
  · refine rdropWhile_eq_self_of_last fun c hc => ?_
    have hc' : origin.getLast? = some c := by
      rw [List.getLast?_append_of_ne_nil _ (List.cons_ne_nil _ _), List.getLast?_cons_of_ne_nil hne] at hc
      exact hc
    exact last_of_rdropWhile_eq_self (p := (· == '.')) hlast hc'

theorem writeName_ok_of_trimmed {name : Str} (h : trimDots name = name) :
    (writeName name).2 = .ok () ↔
      name = [] ∨ (∀ label ∈ name.splitOn '.', LabelOk label) ∧ byteLen name ≤ maxName := by
  rw [writeName_ok_iff, h]

end Selfhost.Dns

/-! # The addresses of a bare zone -/

namespace Selfhost.Dns

open Selfhost.Lib

/-- Every address of the zone is `ip`, and the names have one. -/
structure Zone.Built (origin : Str) (ip : Ipv4Addr) (names : List Str) (zone : Zone) : Prop where
  origin_eq : zone.origin = origin
  only : ∀ record ∈ zone.records, dataType record.data = .a → record.data = .a ip
  has : ∀ name ∈ names, ∃ record ∈ zone.records, record.name = normalize name ∧ dataType record.data = .a

namespace Zone.Built

variable {origin : Str} {ip : Ipv4Addr} {names : List Str} {zone : Zone}

theorem push (h : zone.Built origin ip names) {record : Record}
    {hstored : toAsciiLowercase record.name = record.name ∧ Under zone.origin record.name}
    (hrecord : dataType record.data = .a → record.data = .a ip) : (zone.push record hstored).Built origin ip names where
  origin_eq := h.origin_eq
  only := by
    intro other hmem
    rcases List.mem_append.mp hmem with hmem | hmem
    · exact h.only other hmem
    · rw [List.mem_singleton.mp hmem]
      exact hrecord
  has := by
    intro name hname
    obtain ⟨other, hmem, hother⟩ := h.has name hname
    exact ⟨other, List.mem_append_left _ hmem, hother⟩

theorem pushConfigRecords (h : zone.Built origin ip names) {configs : List RecordConfig}
    (hconfigs : ∀ config ∈ configs, ∀ data, dataFromConfig config = some data → dataType data ≠ .a) :
    (zone.pushConfigRecords configs).Built origin ip names := by
  induction configs generalizing zone with
  | nil => exact h
  | cons config configs ih =>
      refine ih ?_ fun other hmem => hconfigs other (List.mem_cons_of_mem _ hmem)
      unfold pushConfigRecord
      split
      · exact h
      · rename_i record hrecord
        obtain ⟨data, hdata, rfl⟩ := Option.map_eq_some_iff.mp hrecord
        exact h.push fun ha => absurd ha (hconfigs config List.mem_cons_self data hdata)

theorem dataType_of_isA {data : RecordData} (h : isA data = true) : dataType data = .a := by
  cases data <;> first
    | rfl
    | cases h

theorem qualify_of_under {name : Str} (h : Under origin (normalize name)) :
    qualify origin (normalize name) = normalize name := by
  unfold qualify
  split
  · rename_i hat
    -- a name of one character is under itself only
    rcases h with heq | ⟨front, heq⟩
    · exact heq.symm
    · rw [hat] at heq
      have hlength := congrArg List.length heq
      simp only [List.length_append, List.length_cons, List.length_nil] at hlength
      have hfront : front = [] := List.length_eq_zero_iff.mp (by omega)
      rw [hfront] at heq
      cases heq
  · rw [normalize_normalize, if_pos h]

/-- A name that the zone contains has an address behind `ensure_address`. -/
theorem ensureAddress (h : zone.Built origin ip names) {name : Str} (hname : zone.contains name = true) :
    (zone.ensureAddress ip name).Built origin ip (name :: names) := by
  have howner := qualify_of_under (of_decide_eq_true hname)
  unfold Zone.ensureAddress
  dsimp only
  split
  · rename_i hany
    obtain ⟨record, hmem, hrecord⟩ := List.any_eq_true.mp hany
    rw [Bool.and_eq_true, decide_eq_true_eq] at hrecord
    refine ⟨h.origin_eq, h.only, ?_⟩
    intro other hother
    rcases List.mem_cons.mp hother with rfl | hother
    · exact ⟨record, hmem, hrecord.1.trans howner, dataType_of_isA hrecord.2⟩
    · exact h.has other hother
  · refine ⟨h.origin_eq, (h.push fun _ => rfl).only, ?_⟩
    intro other hother
    rcases List.mem_cons.mp hother with rfl | hother
    · exact ⟨_, List.mem_append_right _ (List.mem_singleton.mpr rfl), howner, rfl⟩
    · exact (h.push fun _ => rfl).has other hother

theorem mono (h : zone.Built origin ip names) {fewer : List Str} (hfewer : ∀ name ∈ fewer, name ∈ names) :
    zone.Built origin ip fewer := ⟨h.origin_eq, h.only, fun name hname => h.has name (hfewer name hname)⟩

/-- A name that the origin contains. -/
def within (origin name : Str) : Bool := Under origin (normalize name)

theorem ensureAddresses (h : zone.Built origin ip names) (claimed : List Str) :
    (zone.ensureAddresses ip claimed).Built origin ip (claimed.filter (within origin) ++ names) := by
  induction claimed generalizing zone names with
  | nil => exact h
  | cons name claimed ih =>
      have hcontains : zone.contains name = within origin name := by rw [contains, within, h.origin_eq]
      unfold Zone.ensureAddresses
      rw [List.foldl_cons, hcontains]
      cases hwithin : within origin name with
      | true =>
          rw [List.filter_cons_of_pos hwithin]
          refine (ih (h.ensureAddress (hcontains.trans hwithin))).mono ?_
          intro other hother
          simp only [List.cons_append, List.mem_cons, List.mem_append] at hother ⊢
          rcases hother with h | h | h
          · exact Or.inr (Or.inl h)
          · exact Or.inl h
          · exact Or.inr (Or.inr h)
      | false =>
          rw [List.filter_cons_of_neg (by rw [hwithin]; exact Bool.false_ne_true)]
          exact ih h

theorem pushServices (h : zone.Built origin ip names) (services : List (String × UInt16 × String)) :
    (services.foldl pushService zone).Built origin ip names := by
  induction services generalizing zone with
  | nil => exact h
  | cons service services ih =>
      refine ih ?_
      unfold pushService
      dsimp only
      split
      · exact h.push fun ha => (nomatch ha)
      · exact h

end Zone.Built

/-! ## The names that have addresses -/

theorem normalize_prepend {origin : Str} (h : normalize origin = origin) (hne : origin ≠ []) (label : String)
    (hlabel : toAsciiLowercase label.toList = label.toList) :
    normalize (label.toList ++ '.' :: origin) = label.toList ++ '.' :: origin := by
  obtain ⟨hlower, hunder⟩ := under_prepend h label hlabel
  rw [normalize, trimDots_of_under h hne hunder, hlower]

def baseNames (origin : Str) : List Str :=
  [origin, "www".toList ++ '.' :: origin, "ns1".toList ++ '.' :: origin, "ns2".toList ++ '.' :: origin]

/-- The hostnames that the rest of a configuration claims. -/
def claimedNames (config : Config) : List Str :=
  config.sites.flatMap SiteConfig.domains ++
    match config.mail with
    | none => []
    | some mail => mail.hostname :: mail.clientHosts

/-- The names whose addresses are derived from the one of the machine, in the bare zone of an origin. -/
def derivedNames (config : Config) (origin : Str) : List Str :=
  baseNames origin ++ (claimedNames config).filter (Zone.Built.within origin)

theorem built_fromConfig {zoneConfig : ZoneConfig} {ip : Ipv4Addr} (hbare : zoneConfig.records = [])
    (hne : normalize zoneConfig.domain ≠ []) (secondaries : List Str) (serial : UInt32) :
    (Zone.fromConfig zoneConfig secondaries serial (some ip)).Built (normalize zoneConfig.domain) ip
      (baseNames (normalize zoneConfig.domain)) := by
  have hrecords : (Zone.fromConfig zoneConfig secondaries serial (some ip)).records =
      scaffoldRecords (normalize zoneConfig.domain) (some ip) := by
    change Zone.recordsFromConfig zoneConfig (some ip) = _
    rw [Zone.recordsFromConfig, if_pos hbare]
  have hstored := normalize_normalize zoneConfig.domain
  refine ⟨rfl, ?_, ?_⟩
  · intro record hmem _
    rw [hrecords] at hmem
    simp only [scaffoldRecords, List.mem_cons, List.not_mem_nil, or_false] at hmem
    rcases hmem with rfl | rfl | rfl | rfl <;> rfl
  · intro name hname
    rw [hrecords]
    refine ⟨address name ip, ?_, ?_, rfl⟩
    · simp only [baseNames, List.mem_cons, List.not_mem_nil, or_false] at hname
      rcases hname with rfl | rfl | rfl | rfl <;> simp [scaffoldRecords]
    · simp only [baseNames, List.mem_cons, List.not_mem_nil, or_false] at hname
      rcases hname with rfl | rfl | rfl | rfl
      · exact hstored.symm
      · exact (normalize_prepend hstored hne "www" (by decide)).symm
      · exact (normalize_prepend hstored hne "ns1" (by decide)).symm
      · exact (normalize_prepend hstored hne "ns2" (by decide)).symm

/-- The records of a mail domain are no addresses. -/
theorem recordType_dnsRecords {mail : MailConfig} {domain : Str} {dkim digest : Option Str} {config : RecordConfig}
    (h : config ∈ mail.dnsRecords domain dkim digest) :
    config.recordType = "MX".toList ∨ config.recordType = "TXT".toList ∨ config.recordType = "CAA".toList := by
  unfold MailConfig.dnsRecords at h
  simp only [List.mem_append, List.mem_cons, List.not_mem_nil, or_false] at h
  rcases h with ((((rfl | rfl | rfl) | h) | h) | rfl)
  · exact Or.inl rfl
  · exact Or.inr (Or.inl rfl)
  · exact Or.inr (Or.inl rfl)
  · split at h
    · rw [List.mem_singleton.mp h]
      exact Or.inr (Or.inl rfl)
    · cases h
  · split at h
    · rw [List.mem_singleton.mp h]
      exact Or.inr (Or.inl rfl)
    · cases h
  · exact Or.inr (Or.inr rfl)

theorem dataType_dnsRecords {mail : MailConfig} {domain : Str} {dkim digest : Option Str} {config : RecordConfig}
    (h : config ∈ mail.dnsRecords domain dkim digest) {data : RecordData} (hdata : dataFromConfig config = some data) :
    dataType data ≠ .a := by
  unfold dataFromConfig at hdata
  rcases recordType_dnsRecords h with htype | htype | htype
  · have hkind : config.kind = some .mx := by
      rw [RecordConfig.kind, htype]
      decide
    rw [hkind] at hdata
    obtain ⟨preference, -, rfl⟩ := Option.map_eq_some_iff.mp hdata
    exact fun heq => (nomatch heq)
  · have hkind : config.kind = some .txt := by
      rw [RecordConfig.kind, htype]
      decide
    rw [hkind] at hdata
    cases hdata
    exact fun heq => (nomatch heq)
  · have hkind : config.kind = some .caa := by
      rw [RecordConfig.kind, htype]
      decide
    rw [hkind] at hdata
    obtain ⟨bytes, -, rfl⟩ := Option.map_eq_some_iff.mp hdata
    exact fun heq => (nomatch heq)

theorem built_populateClaimedHosts {zone : Zone} {origin : Str} {ip : Ipv4Addr} {names : List Str}
    (h : zone.Built origin ip names) (config : Config) :
    (zone.populateClaimedHosts config (some ip)).Built origin ip
      (names ++ (claimedNames config).filter (Zone.Built.within origin)) := by
  have hsites := h.ensureAddresses (config.sites.flatMap SiteConfig.domains)
  unfold Zone.populateClaimedHosts claimedNames
  dsimp only
  cases config.mail with
  | none =>
      refine hsites.mono fun name hname => ?_
      simp only [List.append_nil, List.mem_append] at hname ⊢
      exact hname.symm
  | some mail =>
      have hhosts := hsites.ensureAddresses (mail.hostname :: mail.clientHosts)
      have hmono : ∀ name ∈ names ++ (config.sites.flatMap SiteConfig.domains ++
          mail.hostname :: mail.clientHosts).filter (Zone.Built.within origin),
          name ∈ (mail.hostname :: mail.clientHosts).filter (Zone.Built.within origin) ++
            ((config.sites.flatMap SiteConfig.domains).filter (Zone.Built.within origin) ++ names) := by
        intro name hname
        rw [List.filter_append] at hname
        simp only [List.mem_append] at hname ⊢
        tauto
      dsimp only
      split
      · exact (hhosts.pushServices _).mono hmono
      · exact hhosts.mono hmono

/-- **A bare zone** is built around the address of the machine. -/
theorem built_zoneForConfig {config : Config} {dns : DnsConfig} {ip : Ipv4Addr} {serial : UInt32} {zoneConfig : ZoneConfig}
    (hbare : zoneConfig.records = [])
    (hne : normalize zoneConfig.domain ≠ []) {mailRecords : List (Str × List RecordConfig)}
    (hmail : ∀ pair ∈ mailRecords, ∀ record ∈ pair.2, ∀ data, dataFromConfig record = some data → dataType data ≠ .a) :
    (zoneForConfig config dns (some ip) serial mailRecords zoneConfig).Built (normalize zoneConfig.domain) ip
      (derivedNames config (normalize zoneConfig.domain)) := by
  have hbase := @built_fromConfig _ ip hbare hne dns.secondaries serial
  unfold zoneForConfig
  dsimp only
  rw [if_pos hbare]
  refine built_populateClaimedHosts ?_ config
  split
  · rename_i domain records hfind
    exact hbase.pushConfigRecords fun record hrecord => hmail _ (List.mem_of_find?_eq_some hfind) record hrecord
  · exact hbase

end Selfhost.Dns
