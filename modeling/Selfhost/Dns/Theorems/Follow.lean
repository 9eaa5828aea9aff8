import Selfhost.Dns.Lemmas.Build
import Selfhost.Dns.Theorems.Horizon

/-!
# The zone and the address of the machine

A bare zone copies the address of the machine to every derived name, and the updater writes a new address at the apex
alone. `follows_iff` says that the zone follows the machine exactly when the address is back where it was; `left_behind`
is a zone whose `www` is left behind.
-/

namespace Selfhost.Dns

open Selfhost.Lib

/-- The derived names have the present address, for public peers and, as the LAN address, for LAN peers, and no answer has
an earlier one. -/
structure Follows (zone : Zone) (publicIp : Option Ipv4Addr) (names : List Str) (p : Ipv4Addr) (earlier : List Ipv4Addr) :
    Prop where
  told : ∀ name ∈ names, ∀ id rd, (resolve zone ⟨id, name, .a, rd⟩).answers ≠ [] ∧
    ∀ record ∈ (resolve zone ⟨id, name, .a, rd⟩).answers, record.data = .a p
  heard : ∀ lanIp, ∀ name ∈ names, ∀ id rd, (resolve (lanHorizon zone publicIp lanIp) ⟨id, name, .a, rd⟩).answers ≠ [] ∧
    ∀ record ∈ (resolve (lanHorizon zone publicIp lanIp) ⟨id, name, .a, rd⟩).answers, record.data = .a lanIp
  forgotten : ∀ old ∈ earlier, old ≠ p → ∀ query, ∀ record ∈ (resolve zone query).answers ++
    (resolve zone query).authority ++ (resolve zone query).additional, record.data ≠ .a old
  unheard : ∀ lanIp, ∀ old ∈ earlier, old ≠ p → old ≠ lanIp → ∀ query, ∀ record ∈
    (resolve (lanHorizon zone publicIp lanIp) query).answers ++ (resolve (lanHorizon zone publicIp lanIp) query).authority ++
      (resolve (lanHorizon zone publicIp lanIp) query).additional, record.data ≠ .a old

/-! ## One zone -/

/-- The zone with the address at its apex, and otherwise as it was built. -/
structure Deployed (z₀ : Zone) (p : Ipv4Addr) (zone : Zone) : Prop where
  origin_eq : zone.origin = z₀.origin
  kept : ∀ record ∈ z₀.records, z₀.isApexA record = false → record ∈ zone.records
  only : ∀ record ∈ zone.records,
    record ∈ z₀.records ∧ z₀.isApexA record = false ∨ record.name = z₀.origin ∧ record.data = .a p
  apex : ∃ record ∈ zone.records, record.name = z₀.origin ∧ record.data = .a p

variable {z₀ zone : Zone} {p : Ipv4Addr}

theorem isApexA_congr {z : Zone} (h : z.origin = z₀.origin) (record : Record) : z.isApexA record = z₀.isApexA record := by
  rw [Zone.isApexA, Zone.isApexA, h]

theorem isApexA_of_apex {record : Record} {q : Ipv4Addr} (hname : record.name = z₀.origin) (hdata : record.data = .a q) :
    z₀.isApexA record = true := by
  simp [Zone.isApexA, hname, hdata, eqIgnoreAsciiCase, Zone.isA]

/-- A zone as it was built, or with an address written since. -/
def Traces (z₀ zone : Zone) : Prop := zone = z₀ ∨ ∃ q, Deployed z₀ q zone

theorem Traces.origin_eq (h : Traces z₀ zone) : zone.origin = z₀.origin := by
  rcases h with rfl | ⟨q, h⟩
  · rfl
  · exact h.origin_eq

theorem Traces.setApexA (h : Traces z₀ zone) (p : Ipv4Addr) : Deployed z₀ p (zone.setApexA p) := by
  have horigin := h.origin_eq
  have hrecords : ∀ record, record ∈ (zone.setApexA p).records ↔ (record ∈ zone.records ∧ z₀.isApexA record = false) ∨
      record = ⟨zone.origin, ((zone.records.find? zone.isApexA).map Record.ttl).getD defaultATtl, .a p⟩ := by
    intro record
    change record ∈ zone.records.filter _ ++ [_] ↔ _
    rw [List.mem_append, List.mem_filter, List.mem_singleton, isApexA_congr horigin, Bool.not_eq_true']
  refine ⟨horigin, ?_, ?_, ?_⟩
  · intro record hmem hapex
    refine (hrecords record).mpr (Or.inl ⟨?_, hapex⟩)
    rcases h with rfl | ⟨q, h⟩
    · exact hmem
    · exact h.kept record hmem hapex
  · intro record hmem
    rcases (hrecords record).mp hmem with ⟨hmem, hapex⟩ | rfl
    · refine Or.inl ⟨?_, hapex⟩
      rcases h with rfl | ⟨q, h⟩
      · exact hmem
      · rcases h.only record hmem with hold | ⟨hname, hdata⟩
        · exact hold.1
        · rw [isApexA_of_apex hname hdata] at hapex
          cases hapex
    · exact Or.inr ⟨horigin, rfl⟩
  · exact ⟨_, (hrecords _).mpr (Or.inr rfl), horigin, rfl⟩

/-! ## All zones -/

/-- No zone before it has the origin. -/
def First (before : List Str) (origin : Str) : Prop := ∀ other ∈ before, eqIgnoreAsciiCase other origin = false

/-- The zone that stands behind some origins. -/
def Stands (authority : Authority) (before : List Str) (zone : Zone) : Prop :=
  ∃ l₁ l₂, authority.zones = l₁ ++ zone :: l₂ ∧ l₁.map Zone.origin = before

variable {authority : Authority} {before : List Str} {origin : Str}

theorem eqIgnoreAsciiCase_self (s : Str) : eqIgnoreAsciiCase s s = true := beq_self_eq_true _

/-- A zone that `set_apex_a` finds is the first of its origin. -/
theorem stands_setApexA (h : Stands authority before zone) (origin : Str) (p : Ipv4Addr) :
    (First before zone.origin ∧ Stands (authority.setApexA origin p).2 before (zone.setApexA p)) ∨
      Stands (authority.setApexA origin p).2 before zone ∧
        ¬(First before zone.origin ∧ eqIgnoreAsciiCase zone.origin origin = true) := by
  obtain ⟨l₁, l₂, hzones, horigins⟩ := h
  have hfound : eqIgnoreAsciiCase zone.origin origin = true → authority.zoneOf origin ≠ none := by
    intro hzone hnone
    rw [Authority.zoneOf, List.find?_eq_none] at hnone
    exact hnone zone (by rw [hzones]; exact List.mem_append_right _ List.mem_cons_self) hzone
  have hfirst : (∀ b ∈ l₁, eqIgnoreAsciiCase b.origin origin = false) → eqIgnoreAsciiCase zone.origin origin = true →
      First before zone.origin := by
    intro hnone hzone other hother
    rw [← horigins] at hother
    obtain ⟨b, hb, rfl⟩ := List.mem_map.mp hother
    have hb' := hnone b hb
    unfold eqIgnoreAsciiCase at hb' hzone ⊢
    rw [beq_eq_false_iff_ne] at hb' ⊢
    rw [beq_iff_eq] at hzone
    rw [hzone]
    exact hb'
  unfold Authority.setApexA
  split
  · rename_i hnone
    exact Or.inr ⟨⟨l₁, l₂, hzones, horigins⟩, fun hzone => hfound hzone.2 hnone⟩
  · rw [hzones]
    rcases modifyFirst_cases (fun zone : Zone => eqIgnoreAsciiCase zone.origin origin) (·.setApexA p) l₁ zone l₂ with
      ⟨⟨b, hb, hmatch⟩, heq⟩ | ⟨hnone, hzone, heq⟩ | ⟨hnone, hzone, heq⟩
    · refine Or.inr ⟨⟨_, l₂, heq, ?_⟩, ?_⟩
      · have hsame : ∀ zone : Zone, (zone.setApexA p).origin = zone.origin := fun zone => rfl
        rw [map_modifyFirst hsame]
        exact horigins
      · rintro ⟨hfirst, hzone⟩
        have hb' := hfirst b.origin (by rw [← horigins]; exact List.mem_map_of_mem hb)
        unfold eqIgnoreAsciiCase at hb' hzone hmatch
        rw [beq_iff_eq] at hzone hmatch
        rw [beq_eq_false_iff_ne] at hb'
        exact hb' (hmatch.trans hzone.symm)
    · exact Or.inl ⟨hfirst hnone hzone, l₁, l₂, heq, horigins⟩
    · exact Or.inr ⟨⟨l₁, _, heq, horigins⟩, fun hboth => by rw [hzone] at hboth; cases hboth.2⟩

/-- The public address follows where the origin is served. -/
theorem publicIp_setApexA (h : Stands authority before zone) (p : Ipv4Addr)
    (hp : eqIgnoreAsciiCase zone.origin origin = true ∨ authority.publicIp = some p) :
    (authority.setApexA origin p).2.publicIp = some p := by
  unfold Authority.setApexA
  split
  · rename_i hnone
    rcases hp with hzone | hp
    · obtain ⟨l₁, l₂, hzones, -⟩ := h
      rw [Authority.zoneOf, List.find?_eq_none] at hnone
      exact absurd hzone (hnone zone (by rw [hzones]; exact List.mem_append_right _ List.mem_cons_self))
    · exact hp
  · rfl

/-- A change is written at the apex of every zone that is the first of its origin. -/
theorem applyChange_stands (p : Ipv4Addr) {origins : List Str} {authority : Authority} {zone : Zone}
    (h : Stands authority before zone) (htraces : Traces z₀ zone) :
    ∃ zone', Stands (applyChange authority origins p) before zone' ∧
      (First before z₀.origin ∧ Deployed z₀ p zone' ∨ zone' = zone ∧ ¬(First before z₀.origin ∧ z₀.origin ∈ origins)) ∧
      (z₀.origin ∈ origins ∨ authority.publicIp = some p → (applyChange authority origins p).publicIp = some p) := by
  induction origins generalizing authority zone with
  | nil => exact ⟨zone, h, Or.inr ⟨rfl, fun hmem => (nomatch hmem.2)⟩, fun hp => hp.resolve_left fun hmem => (nomatch hmem)⟩
  | cons origin origins ih =>
      have horigin := htraces.origin_eq
      have hpublic : z₀.origin ∈ origin :: origins ∨ authority.publicIp = some p →
          z₀.origin ∈ origins ∨ (authority.setApexA origin p).2.publicIp = some p := by
        rintro (hmem | hp)
        · rcases List.mem_cons.mp hmem with heq | hmem
          · refine Or.inr (publicIp_setApexA h p (Or.inl ?_))
            rw [horigin, heq]
            exact eqIgnoreAsciiCase_self origin
          · exact Or.inl hmem
        · exact Or.inr (publicIp_setApexA h p (Or.inr hp))
      have hcons : applyChange authority (origin :: origins) p = applyChange (authority.setApexA origin p).2 origins p := rfl
      rw [hcons]
      rcases stands_setApexA h origin p with ⟨hfirst, hstands⟩ | ⟨hstands, hnot⟩
      · have hdeployed := htraces.setApexA p
        obtain ⟨zone', hstands', hzone', hpublic'⟩ := ih hstands (Or.inr ⟨p, hdeployed⟩)
        refine ⟨zone', hstands', Or.inl ⟨horigin ▸ hfirst, ?_⟩, fun hp => hpublic' (hpublic hp)⟩
        rcases hzone' with ⟨-, hdeployed'⟩ | ⟨rfl, -⟩
        · exact hdeployed'
        · exact hdeployed
      · obtain ⟨zone', hstands', hzone', hpublic'⟩ := ih hstands htraces
        refine ⟨zone', hstands', hzone'.imp_right fun hkept => ⟨hkept.1, ?_⟩, fun hp => hpublic' (hpublic hp)⟩
        rintro ⟨hfirst, hmem⟩
        rcases List.mem_cons.mp hmem with heq | hmem
        · refine hnot ⟨horigin ▸ hfirst, ?_⟩
          rw [horigin, heq]
          exact eqIgnoreAsciiCase_self origin
        · exact hkept.2 ⟨hfirst, hmem⟩

/-- Where a tracker stands with a zone: as it was built, or with the last address at its apex. -/
structure Tracker.Inv (before : List Str) (z₀ : Zone) (tracker : Tracker) : Prop where
  member : z₀.origin ∈ tracker.origins
  zone : ∃ zone, Stands tracker.authority before zone ∧
    (zone = z₀ ∧ (First before z₀.origin → tracker.lastDeployed = none) ∨
      First before z₀.origin ∧ ∃ p, tracker.lastDeployed = some p ∧ Deployed z₀ p zone)
  publicIp_eq : ∀ p, tracker.lastDeployed = some p → tracker.authority.publicIp = some p

theorem Tracker.Inv.tick {tracker : Tracker} (h : tracker.Inv before z₀) (reading : Option Ipv4Addr) :
    (tracker.tick reading).Inv before z₀ := by
  cases reading with
  | none => exact h
  | some candidate =>
      unfold Tracker.tick
      dsimp only
      split
      · rename_i address _
        obtain ⟨zone, hstands, hzone⟩ := h.zone
        have htraces : Traces z₀ zone := by
          rcases hzone with ⟨rfl, -⟩ | ⟨-, p, -, hdeployed⟩
          · exact Or.inl rfl
          · exact Or.inr ⟨p, hdeployed⟩
        obtain ⟨zone', hstands', hzone', hpublic⟩ := @applyChange_stands z₀ before address tracker.origins _ _ hstands htraces
        refine ⟨h.member, ⟨zone', hstands', ?_⟩, ?_⟩
        · rcases hzone' with ⟨hfirst, hdeployed⟩ | ⟨rfl, hnot⟩
          · exact Or.inr ⟨hfirst, address, rfl, hdeployed⟩
          · rcases hzone with ⟨rfl, -⟩ | ⟨hfirst, -⟩
            · exact Or.inl ⟨rfl, fun hfirst => absurd ⟨hfirst, h.member⟩ hnot⟩
            · exact absurd ⟨hfirst, h.member⟩ hnot
        · intro p hp
          cases hp
          exact hpublic (Or.inl h.member)
      · exact h

theorem Tracker.Inv.track {tracker : Tracker} (h : tracker.Inv before z₀) (readings : List (Option Ipv4Addr)) :
    (tracker.track readings).Inv before z₀ := by
  induction readings generalizing tracker with
  | nil => exact h
  | cons reading readings ih => exact ih (h.tick reading)

theorem Tracker.inv_start (h : Stands authority before z₀) : (Tracker.start authority).Inv before z₀ where
  member := by
    obtain ⟨l₁, l₂, hzones, -⟩ := h
    exact List.mem_map_of_mem (by rw [hzones]; exact List.mem_append_right _ List.mem_cons_self)
  zone := ⟨z₀, h, Or.inl ⟨rfl, fun _ => rfl⟩⟩
  publicIp_eq := fun p hp => (nomatch hp)

/-! ## What is told -/

/-- A name with an address is told its addresses. -/
theorem answers_of_address {name : Str}
    (h : ∃ record ∈ zone.records, record.name = normalize name ∧ dataType record.data = .a) (id : UInt16) (rd : Bool) :
    (resolve zone ⟨id, name, .a, rd⟩).answers = zone.direct (normalize name) .a := by
  have hdirect : zone.direct (normalize name) .a ≠ [] := Zone.direct_ne_nil.mpr h
  have hanswer : zone.answer name .a = zone.direct (normalize name) .a := by
    rw [Zone.answer, Zone.answerWithin.eq_def]
    exact if_pos hdirect
  simp [resolve, isTransfer, hanswer, hdirect]

theorem mem_direct {q : Str} {qtype : RecordType} {record : Record} :
    record ∈ zone.direct q qtype ↔ record ∈ zone.records ∧ record.name = q ∧ dataType record.data = qtype := by
  simp [Zone.direct]

theorem toLan_address {record : Record} (h : record.data = .a p) (lanIp : Ipv4Addr) :
    (toLan (some p) lanIp record).data = .a lanIp := by
  simp [toLan, h]

/-- A record of a LAN reply is one of the zone, as a LAN peer sees it. -/
theorem mem_toLan {query : Query} {publicIp : Option Ipv4Addr} {lanIp : Ipv4Addr} {record : Record}
    (h : record ∈ ((resolve zone query).toLan publicIp lanIp).answers ++
      ((resolve zone query).toLan publicIp lanIp).authority ++ ((resolve zone query).toLan publicIp lanIp).additional) :
    ∃ record' ∈ (resolve zone query).answers ++ (resolve zone query).authority ++ (resolve zone query).additional,
      record = toLan publicIp lanIp record' := by
  simp only [Resolution.toLan, List.mem_append, List.mem_map, mem_addMissing, List.not_mem_nil, false_or] at h
  rcases h with (⟨record', hmem, rfl⟩ | ⟨record', hmem, rfl⟩) | ⟨record', hmem, rfl⟩
  · exact ⟨record', by simp [hmem], rfl⟩
  · exact ⟨record', by simp [hmem], rfl⟩
  · exact ⟨record', by simp [hmem], rfl⟩

variable {names : List Str}

/-- Every address of a reply is the one the zone is built around. -/
theorem Zone.Built.address_of_resolve (h : zone.Built origin p names) {query : Query} {record : Record}
    (hmem : record ∈ (resolve zone query).answers ++ (resolve zone query).authority ++ (resolve zone query).additional)
    (htype : dataType record.data = .a) : record.data = .a p := by
  rcases mem_resolve hmem with rfl | hns | hrecord
  · cases htype
  · obtain ⟨ns, -, rfl⟩ := List.mem_map.mp hns
    cases htype
  · exact h.only record hrecord htype

/-- A zone that is built around the address of the machine follows it. -/
theorem Zone.Built.follows (h : zone.Built origin p names) (earlier : List Ipv4Addr) :
    Follows zone (some p) names p earlier where
  told := by
    intro name hname id rd
    have hhas := h.has name hname
    rw [answers_of_address hhas]
    refine ⟨Zone.direct_ne_nil.mpr hhas, fun record hmem => ?_⟩
    obtain ⟨hrecord, -, htype⟩ := mem_direct.mp hmem
    exact h.only record hrecord htype
  heard := by
    intro lanIp name hname id rd
    have hhas := h.has name hname
    rw [resolve_lanHorizon]
    change List.map _ _ ≠ [] ∧ ∀ record ∈ List.map _ _, _
    rw [answers_of_address hhas]
    refine ⟨fun hnil => Zone.direct_ne_nil.mpr hhas (List.map_eq_nil_iff.mp hnil), fun record hmem => ?_⟩
    obtain ⟨record', hmem', rfl⟩ := List.mem_map.mp hmem
    obtain ⟨hrecord, -, htype⟩ := mem_direct.mp hmem'
    exact toLan_address (h.only record' hrecord htype) lanIp
  forgotten := by
    intro old _ hold query record hmem hdata
    have haddress := h.address_of_resolve hmem (by rw [hdata]; rfl)
    rw [hdata] at haddress
    exact hold (RecordData.a.inj haddress)
  unheard := by
    intro lanIp old _ _ hlan query record hmem hdata
    rw [resolve_lanHorizon] at hmem
    obtain ⟨record', hmem', rfl⟩ := mem_toLan hmem
    have htype : dataType record'.data = .a := by
      rw [← dataType_toLan, hdata]
      rfl
    rw [toLan_address (h.address_of_resolve hmem' htype)] at hdata
    exact hlan (RecordData.a.inj hdata).symm

/-- The address that the zone was built around, written at its apex again. -/
theorem Deployed.built (h : Deployed z₀ p zone) (hbuilt : z₀.Built origin p names) : zone.Built origin p names where
  origin_eq := h.origin_eq.trans hbuilt.origin_eq
  only := by
    intro record hmem htype
    rcases h.only record hmem with ⟨hold, -⟩ | ⟨-, hdata⟩
    · exact hbuilt.only record hold htype
    · exact hdata
  has := by
    intro name hname
    obtain ⟨record, hmem, hrecord, htype⟩ := hbuilt.has name hname
    cases hapex : z₀.isApexA record with
    | false => exact ⟨record, h.kept record hmem hapex, hrecord, htype⟩
    | true =>
        obtain ⟨written, hwritten, hname', hdata⟩ := h.apex
        refine ⟨written, hwritten, ?_, by rw [hdata]; rfl⟩
        rw [hname', ← hrecord]
        have heq : toAsciiLowercase record.name = toAsciiLowercase z₀.origin := by
          simp only [Zone.isApexA, eqIgnoreAsciiCase, Bool.and_eq_true, beq_iff_eq] at hapex
          exact hapex.1
        rw [(z₀.names_stored record hmem).1, z₀.lower_origin] at heq
        exact heq.symm

theorem www_not_apex (h : z₀.origin = origin) {record : Record} (hname : record.name = "www".toList ++ '.' :: origin) :
    z₀.isApexA record = false := by
  rw [Zone.isApexA, Bool.and_eq_false_iff]
  refine Or.inl ?_
  rw [eqIgnoreAsciiCase, beq_eq_false_iff_ne, hname, h]
  intro heq
  have hlength := congrArg List.length heq
  simp only [toAsciiLowercase, List.length_map, List.length_append, List.length_cons] at hlength
  omega

/-- The name `www` keeps the address that the zone was built with. -/
theorem www_kept (h : Traces z₀ zone) {p₀ : Ipv4Addr} (hbuilt : z₀.Built origin p₀ names)
    (horigin : normalize origin = origin) (hne : origin ≠ []) (hwww : "www".toList ++ '.' :: origin ∈ names) :
    ∃ record ∈ zone.records, record.name = normalize ("www".toList ++ '.' :: origin) ∧ record.data = .a p₀ := by
  obtain ⟨record, hmem, hname, htype⟩ := hbuilt.has _ hwww
  refine ⟨record, ?_, hname, hbuilt.only record hmem htype⟩
  rw [normalize_prepend horigin hne "www" (by decide)] at hname
  rcases h with rfl | ⟨q, h⟩
  · exact hmem
  · exact h.kept record hmem (www_not_apex hbuilt.origin_eq hname)

theorem follows_iff_of_traces {p₀ : Ipv4Addr} (hbuilt : z₀.Built origin p₀ names)
    (horigin : normalize origin = origin) (hne : origin ≠ []) (hwww : "www".toList ++ '.' :: origin ∈ names)
    (h : zone = z₀ ∨ Deployed z₀ p zone) (earlier : List Ipv4Addr) :
    Follows zone (some p) names p earlier ↔ p = p₀ := by
  constructor
  · intro hfollows
    have htraces : Traces z₀ zone := h.imp_right fun hdeployed => ⟨p, hdeployed⟩
    obtain ⟨record, hmem, hname, hdata⟩ := www_kept htraces hbuilt horigin hne hwww
    have htype : dataType record.data = .a := by rw [hdata]; rfl
    have htold := (hfollows.told _ hwww 0 false).2 record
    rw [answers_of_address ⟨record, hmem, hname, htype⟩] at htold
    have haddress := htold (mem_direct.mpr ⟨hmem, hname, htype⟩)
    rw [hdata] at haddress
    exact (RecordData.a.inj haddress).symm
  · rintro rfl
    rcases h with rfl | hdeployed
    · exact hbuilt.follows earlier
    · exact (hdeployed.built hbuilt).follows earlier

/-! ## A whole run -/

theorem built_buildAuthority {config : Config} {dns : DnsConfig} (hdns : config.dns = some dns) {i : Nat}
    {zoneConfig : ZoneConfig} (hzone : dns.zones[i]? = some zoneConfig) (hbare : zoneConfig.records = [])
    (hne : normalize zoneConfig.domain ≠ []) (ip : Ipv4Addr) (serial : UInt32) (dkim : Option Str)
    (paccDigest : Str → Option Str) :
    ∃ z₀, (buildAuthority config (some ip) serial dkim paccDigest).zones[i]? = some z₀ ∧
      z₀.Built (normalize zoneConfig.domain) ip (derivedNames config (normalize zoneConfig.domain)) := by
  unfold buildAuthority Authority.forConfigWithMail
  rw [hdns]
  dsimp only
  rw [List.getElem?_map, hzone]
  refine ⟨_, rfl, built_zoneForConfig hbare hne ?_⟩
  intro pair hpair record hrecord data hdata
  cases hmail : config.mail with
  | none =>
      rw [hmail] at hpair
      cases hpair
  | some mail =>
      rw [hmail] at hpair
      obtain ⟨domain, -, rfl⟩ := List.mem_map.mp hpair
      exact dataType_dnsRecords hrecord hdata

theorem stands_of_getElem? {i : Nat} (h : authority.zones[i]? = some zone) :
    Stands authority ((authority.zones.take i).map Zone.origin) zone := by
  obtain ⟨hlt, rfl⟩ := List.getElem?_eq_some_iff.mp h
  refine ⟨authority.zones.take i, authority.zones.drop (i + 1), ?_, rfl⟩
  rw [← List.drop_eq_getElem_cons hlt, List.take_append_drop]

theorem getElem?_of_stands (h : Stands authority before zone) : authority.zones[before.length]? = some zone := by
  obtain ⟨l₁, l₂, hzones, rfl⟩ := h
  rw [hzones, List.length_map, List.getElem?_append_right le_rfl]
  simp

/-- **The zone and the machine**: behind any readings of the router's address, a bare zone that was built with `p₀`
follows the machine to the last address that was deployed exactly when that is `p₀`. -/
theorem follows_iff {config : Config} {dns : DnsConfig} {at' : Str} (hdns : config.dns = some dns)
    (hcheck : dns.check at' = []) {i : Nat} {zoneConfig : ZoneConfig} (hzone : dns.zones[i]? = some zoneConfig)
    (hbare : zoneConfig.records = []) (p₀ : Ipv4Addr) (serial : UInt32) (dkim : Option Str) (paccDigest : Str → Option Str)
    (readings : List (Option Ipv4Addr)) {tracked : Tracker}
    (htracked : tracked = (Tracker.start (buildAuthority config (some p₀) serial dkim paccDigest)).track readings)
    {p : Ipv4Addr} (hp : tracked.lastDeployed = some p) :
    ∃ zone, tracked.authority.zones[i]? = some zone ∧
      (Follows zone tracked.authority.publicIp (derivedNames config (normalize zoneConfig.domain)) p
        (p₀ :: readings.filterMap id) ↔ p = p₀) := by
  obtain ⟨hlt, -⟩ := List.getElem?_eq_some_iff.mp hzone
  have hne : normalize zoneConfig.domain ≠ [] := by
    obtain ⟨at'', hzoneCheck⟩ := DnsConfig.zone_of_check hcheck (List.mem_of_getElem? hzone)
    rw [ZoneConfig.check] at hzoneCheck
    simp only [List.append_eq_nil_iff, problemOf_eq_nil] at hzoneCheck
    exact normalize_ne_nil_of_nameProblem hzoneCheck.1.1
  obtain ⟨z₀, hz₀, hbuilt⟩ := built_buildAuthority hdns hzone hbare hne p₀ serial dkim paccDigest
  have hinv := (Tracker.inv_start (stands_of_getElem? hz₀)).track readings
  rw [← htracked] at hinv
  obtain ⟨zone, hstands, hwhere⟩ := hinv.zone
  have hindex := getElem?_of_stands hstands
  obtain ⟨hlt', -⟩ := List.getElem?_eq_some_iff.mp hz₀
  rw [List.length_map, List.length_take_of_le (by omega)] at hindex
  refine ⟨zone, hindex, ?_⟩
  rw [hinv.publicIp_eq p hp]
  refine follows_iff_of_traces hbuilt (normalize_normalize _) hne ?_ ?_ _
  · exact List.mem_append_left _ (by simp [baseNames])
  · rcases hwhere with ⟨rfl, -⟩ | ⟨-, q, hq, hdeployed⟩
    · exact Or.inl rfl
    · rw [hp] at hq
      cases hq
      exact Or.inr hdeployed

/-- A machine with one bare zone and a site under it. -/
def homeZone : ZoneConfig := ⟨"example.com".toList, none, [], []⟩

def homeDns : DnsConfig := ⟨"0.0.0.0:53".toList, [], none, [homeZone], []⟩

def homeConfig : Config := ⟨some homeDns, [⟨["blog.example.com".toList]⟩], none⟩

/-- The updater behind the readings, where the zone was built with 203.0.113.7. -/
def homeTracked (readings : List (Option Ipv4Addr)) : Tracker :=
  (Tracker.start (buildAuthority homeConfig (some ⟨203, 0, 113, 7⟩) 2026010100 none fun _ => none)).track readings

theorem follows_iff_back :
    ∃ zone, (homeTracked [some ⟨198, 51, 100, 9⟩, none, some ⟨203, 0, 113, 7⟩]).authority.zones[0]? = some zone ∧
      Follows zone (homeTracked [some ⟨198, 51, 100, 9⟩, none, some ⟨203, 0, 113, 7⟩]).authority.publicIp
        (derivedNames homeConfig (normalize homeZone.domain)) ⟨203, 0, 113, 7⟩
        [⟨203, 0, 113, 7⟩, ⟨198, 51, 100, 9⟩, ⟨203, 0, 113, 7⟩] := by
  have hdeployed : (homeTracked [some ⟨198, 51, 100, 9⟩, none, some ⟨203, 0, 113, 7⟩]).lastDeployed =
      some ⟨203, 0, 113, 7⟩ := by decide +kernel
  have hcheck : homeDns.check [] = [] := by decide +kernel
  obtain ⟨zone, hzone, hiff⟩ := @follows_iff homeConfig homeDns [] rfl hcheck 0 homeZone rfl rfl ⟨203, 0, 113, 7⟩
    2026010100 none (fun _ => none) [some ⟨198, 51, 100, 9⟩, none, some ⟨203, 0, 113, 7⟩] _ rfl _ hdeployed
  exact ⟨zone, hzone, hiff.mpr rfl⟩

/-- The address moves from 203.0.113.7 to 198.51.100.9: `www` is told the old one, and on the LAN too. -/
theorem left_behind :
    (homeTracked [some ⟨198, 51, 100, 9⟩]).lastDeployed = some ⟨198, 51, 100, 9⟩ ∧
      ∃ zone, (homeTracked [some ⟨198, 51, 100, 9⟩]).authority.zones[0]? = some zone ∧
        (resolve zone ⟨7, "www.example.com".toList, .a, true⟩).answers =
          [⟨"www.example.com".toList, 3600, .a ⟨203, 0, 113, 7⟩⟩] ∧
        (resolve (lanHorizon zone (homeTracked [some ⟨198, 51, 100, 9⟩]).authority.publicIp ⟨192, 168, 1, 10⟩)
          ⟨7, "www.example.com".toList, .a, true⟩).answers = [⟨"www.example.com".toList, 3600, .a ⟨203, 0, 113, 7⟩⟩] ∧
        ¬Follows zone (homeTracked [some ⟨198, 51, 100, 9⟩]).authority.publicIp
          (derivedNames homeConfig (normalize homeZone.domain)) ⟨198, 51, 100, 9⟩ [⟨203, 0, 113, 7⟩, ⟨198, 51, 100, 9⟩] := by
  refine ⟨by decide +kernel, ?_⟩
  obtain ⟨zone, hzone⟩ : ∃ zone, (homeTracked [some ⟨198, 51, 100, 9⟩]).authority.zones[0]? = some zone :=
    Option.isSome_iff_exists.mp (by decide +kernel)
  have htold : (homeTracked [some ⟨198, 51, 100, 9⟩]).authority.zones[0]?.map (fun zone =>
      ((resolve zone ⟨7, "www.example.com".toList, .a, true⟩).answers,
        (resolve (lanHorizon zone (homeTracked [some ⟨198, 51, 100, 9⟩]).authority.publicIp ⟨192, 168, 1, 10⟩)
          ⟨7, "www.example.com".toList, .a, true⟩).answers)) =
      some ([⟨"www.example.com".toList, 3600, .a ⟨203, 0, 113, 7⟩⟩],
        [⟨"www.example.com".toList, 3600, .a ⟨203, 0, 113, 7⟩⟩]) := by decide +kernel
  rw [hzone, Option.map_some, Option.some.injEq, Prod.mk.injEq] at htold
  refine ⟨zone, hzone, htold.1, htold.2, fun hfollows => ?_⟩
  have hwww : "www.example.com".toList ∈ derivedNames homeConfig (normalize homeZone.domain) := by decide +kernel
  have haddress := (hfollows.told _ hwww 7 true).2 ⟨"www.example.com".toList, 3600, .a ⟨203, 0, 113, 7⟩⟩
    (by rw [htold.1]; exact List.mem_singleton.mpr rfl)
  revert haddress
  decide

end Selfhost.Dns
