import Selfhost.Dns.Authority
import Selfhost.Lib.Run

/-!
# Serials never go back, unless a zone is dropped and comes back

Every operation on a zone that is served moves its serial up, and `adopt` takes a zone that is not served now with the
serial it was built with. `serials_forward` says that the serials of an origin only go forward as long as such a zone
comes with a serial above the earlier ones; `readopted_backwards` is a run in which it does not.
-/

namespace Selfhost.Dns

open Selfhost.Lib

/-- What a zone says, apart from its serial. -/
def Zone.content (zone : Zone) : Str × Soa × List Str × List Record :=
  (zone.origin, { zone.soa with serial := 0 }, zone.nameservers, zone.records)

/-- A secondary that holds the first zone takes the second one for a later one, or they say the same. -/
structure Zone.Precedes (old new : Zone) : Prop where
  le : old.soa.serial ≤ new.soa.serial
  lt : old.content ≠ new.content → old.soa.serial.toNat < 2 ^ 32 - 1 → old.soa.serial < new.soa.serial

/-- A change of a served zone, if it is one, moves the serial past the old one. -/
def Zone.Advances (old new : Zone) : Prop := new = old ∨ saturatingAdd32 old.soa.serial 1 ≤ new.soa.serial

theorem Zone.precedes_refl (zone : Zone) : zone.Precedes zone := ⟨UInt32.le_refl _, fun h => absurd rfl h⟩

theorem Zone.precedes_of_lt {old new : Zone} (h : old.soa.serial < new.soa.serial) : old.Precedes new :=
  ⟨UInt32.le_of_lt h, fun _ _ => h⟩

theorem Zone.Advances.precedes {old mid new : Zone} (h : mid.Advances new) (hold : old.Precedes mid) :
    old.Precedes new := by
  rcases h with rfl | h
  · exact hold
  · have hle := UInt32.le_iff_toNat_le.mp hold.le
    rw [UInt32.le_iff_toNat_le, toNat_saturatingAdd32, UInt32.toNat_one] at h
    have hmax := old.soa.serial.toNat_lt
    refine ⟨UInt32.le_iff_toNat_le.mpr ?_, fun _ hlow => UInt32.lt_iff_toNat_lt.mpr ?_⟩
    · omega
    · omega

/-! ## The operations -/

theorem Zone.advances_upsert (zone : Zone) (name : Str) (data : RecordData) : zone.Advances (zone.upsert name data) := by
  unfold Zone.upsert
  dsimp only
  split
  · exact Or.inr (UInt32.le_refl _)
  · exact Or.inl rfl

theorem Zone.advances_remove (zone : Zone) (name : Str) (rtype : RecordType) :
    zone.Advances (zone.remove name rtype) := by
  unfold Zone.remove
  dsimp only
  split
  · exact Or.inr (UInt32.le_refl _)
  · exact Or.inl rfl

theorem Zone.advances_setApexA (zone : Zone) (address : Ipv4Addr) : zone.Advances (zone.setApexA address) :=
  Or.inr (UInt32.le_refl _)

theorem Zone.advances_carry (zone running : Zone) : running.Advances (zone.carry running) := by
  refine Or.inr (UInt32.le_iff_toNat_le.mpr ?_)
  simp only [Zone.carry, toNat_saturatingAdd32, UInt32.toNat_max]
  omega

@[simp] theorem Zone.origin_upsert (zone : Zone) (name : Str) (data : RecordData) :
    (zone.upsert name data).origin = zone.origin := by
  unfold Zone.upsert
  dsimp only
  split <;> rfl

@[simp] theorem Zone.origin_remove (zone : Zone) (name : Str) (rtype : RecordType) :
    (zone.remove name rtype).origin = zone.origin := by
  unfold Zone.remove
  dsimp only
  split <;> rfl

@[simp] theorem Zone.origin_setApexA (zone : Zone) (address : Ipv4Addr) :
    (zone.setApexA address).origin = zone.origin := rfl

@[simp] theorem Zone.origin_carry (zone running : Zone) : (zone.carry running).origin = zone.origin := rfl

namespace Authority

/-- The operations on the served zones. -/
inductive Edit where
  | setApexA (origin : Str) (address : Ipv4Addr)
  | upsert (name : Str) (data : RecordData)
  | remove (name : Str) (rtype : RecordType)
  | adopt (rebuilt : Authority)

def edit (authority : Authority) : Edit → Authority
  | .setApexA origin address => (authority.setApexA origin address).2
  | .upsert name data => (authority.upsertRecord name data).2
  | .remove name rtype => (authority.removeRecord name rtype).2
  | .adopt rebuilt => (authority.adopt rebuilt).2

variable {authority : Authority} {origin : Str} {zone : Zone}

theorem zoneOf_modifyFirst {p : Zone → Bool} {f : Zone → Zone} (horigin : ∀ zone, (f zone).origin = zone.origin)
    (hf : ∀ zone : Zone, zone.Advances (f zone)) {zones : List Zone}
    (h : (modifyFirst p f zones).find? (fun zone => eqIgnoreAsciiCase zone.origin origin) = some zone) :
    ∃ old : Zone, zones.find? (fun zone => eqIgnoreAsciiCase zone.origin origin) = some old ∧ old.Advances zone := by
  obtain ⟨old, hold, rfl | rfl⟩ := find?_modifyFirst_cases (fun a => by rw [horigin]) h
  · exact ⟨zone, hold, Or.inl rfl⟩
  · exact ⟨old, hold, hf old⟩

theorem zoneOf_modifyZone {name : Str} {f : Zone → Zone} (horigin : ∀ zone, (f zone).origin = zone.origin)
    (hf : ∀ zone : Zone, zone.Advances (f zone)) (h : (authority.modifyZone name f).zoneOf origin = some zone) :
    ∃ old : Zone, authority.zoneOf origin = some old ∧ old.Advances zone := zoneOf_modifyFirst horigin hf h

theorem zoneOf_congr {at' : Str} (h : eqIgnoreAsciiCase at' origin = true) :
    authority.zoneOf at' = authority.zoneOf origin := by
  have hsame : toAsciiLowercase at' = toAsciiLowercase origin := by simpa [eqIgnoreAsciiCase] using h
  simp only [zoneOf, eqIgnoreAsciiCase, hsame]

/-- The zone of an origin behind an operation is the one before it, moved on, or one that `adopt` brought. -/
theorem zoneOf_edit {e : Edit} (h : (authority.edit e).zoneOf origin = some zone) :
    (∃ old : Zone, authority.zoneOf origin = some old ∧ old.Advances zone) ∨
      ∃ rebuilt, e = .adopt rebuilt ∧ zone ∈ rebuilt.zones ∧ authority.zoneOf origin = none ∧
        eqIgnoreAsciiCase zone.origin origin = true := by
  cases e with
  | setApexA at' address =>
      simp only [edit, setApexA] at h
      split at h
      · exact Or.inl ⟨zone, h, Or.inl rfl⟩
      · exact Or.inl (zoneOf_modifyFirst (fun zone => zone.origin_setApexA address)
          (fun zone => zone.advances_setApexA address) h)
  | upsert name data =>
      simp only [edit, upsertRecord] at h
      split at h
      · exact Or.inl ⟨zone, h, Or.inl rfl⟩
      · exact Or.inl (zoneOf_modifyZone (fun zone => zone.origin_upsert name data)
          (fun zone => zone.advances_upsert name data) h)
  | remove name rtype =>
      simp only [edit, removeRecord] at h
      split at h
      · exact Or.inl ⟨zone, h, Or.inl rfl⟩
      · exact Or.inl (zoneOf_modifyZone (fun zone => zone.origin_remove name rtype)
          (fun zone => zone.advances_remove name rtype) h)
  | adopt rebuilt =>
      have horigin : eqIgnoreAsciiCase zone.origin origin = true :=
        @List.find?_some _ (fun zone : Zone => eqIgnoreAsciiCase zone.origin origin) _ _ h
      obtain ⟨fresh, hfresh, hzone⟩ := List.mem_map.mp (List.mem_of_find?_eq_some h)
      split at hzone
      · rename_i running hrunning
        subst hzone
        rw [Zone.origin_carry] at horigin
        rw [zoneOf_congr horigin] at hrunning
        exact Or.inl ⟨running, hrunning, fresh.advances_carry running⟩
      · rename_i hnone
        subst hzone
        rw [zoneOf_congr horigin] at hnone
        exact Or.inr ⟨rebuilt, rfl, hfresh, hnone, horigin⟩

end Authority

/-! ## Runs -/

/-- A server, and the states that it was in before. -/
structure History where
  now : Authority
  past : List Authority

namespace History

variable {origin : Str}

def step (h : History) (e : Authority.Edit) : Option History := some ⟨h.now.edit e, h.now :: h.past⟩

/-- The serials of an origin have only gone forward. -/
def Forward (h : History) : Prop :=
  ∀ origin zone, h.now.zoneOf origin = some zone → ∀ earlier ∈ h.past, ∀ old, earlier.zoneOf origin = some old →
    old.Precedes zone

/-- A rebuilt zone of an origin that is not served now is later than each zone that was served for it. -/
def Returning (h : History) : Authority.Edit → Prop
  | .adopt rebuilt =>
      ∀ zone ∈ rebuilt.zones, h.now.zoneOf zone.origin = none → ∀ earlier ∈ h.past, ∀ old,
        earlier.zoneOf zone.origin = some old → old.Precedes zone
  | _ => True

theorem forward_step {h h' : History} {e : Authority.Edit} (hforward : h.Forward) (hok : h.Returning e)
    (hstep : h.step e = some h') : h'.Forward := by
  cases hstep
  intro origin zone hzone earlier hearlier old hold
  rcases Authority.zoneOf_edit hzone with ⟨mid, hmid, hadvances⟩ | ⟨rebuilt, rfl, hrebuilt, hnone, horigin⟩
  · rcases List.mem_cons.mp hearlier with rfl | hearlier
    · rw [hmid] at hold
      cases hold
      exact hadvances.precedes (Zone.precedes_refl _)
    · exact hadvances.precedes (hforward origin mid hmid earlier hearlier old hold)
  · rw [← Authority.zoneOf_congr horigin] at hnone hold
    rcases List.mem_cons.mp hearlier with rfl | hearlier
    · rw [hnone] at hold
      cases hold
    · exact hok zone hrebuilt hnone earlier hearlier old hold

/-- **Serials go forward**: in every run in which a zone that was dropped comes back later than it was, the serial of an
origin is no lower than each one that was served for it before, and above each one under which it said something
else. -/
theorem serials_forward {authority : Authority} {edits : List Authority.Edit} {h : History}
    (hrun : Run step Returning ⟨authority, []⟩ edits h) {zone old : Zone} (hzone : h.now.zoneOf origin = some zone)
    {earlier : Authority} (hearlier : earlier ∈ h.past) (hold : earlier.zoneOf origin = some old) :
    old.soa.serial ≤ zone.soa.serial ∧
      (old.content ≠ zone.content → old.soa.serial.toNat < 2 ^ 32 - 1 → old.soa.serial < zone.soa.serial) := by
  have hforward : h.Forward := by
    apply hrun.invariant
    · intro s e t hs hok hstep
      exact forward_step hs hok hstep
    · intro origin zone _ earlier hmem
      cases hmem
  obtain ⟨hle, hlt⟩ := hforward origin zone hzone earlier hearlier old hold
  exact ⟨hle, hlt⟩

/-- A server of one zone without records of its own. -/
def exampleServer (serial : UInt32) : Authority :=
  ⟨[.fromConfig ⟨"example.com".toList, none, [], []⟩ [] serial (some ⟨203, 0, 113, 7⟩)], some ⟨203, 0, 113, 7⟩, none⟩

def addWiki : Authority.Edit := .upsert "wiki.example.com".toList (.a ⟨203, 0, 113, 9⟩)

/-- A record is added, the zone is dropped, and it comes back under the serial of the next day. -/
theorem serials_forward_rebuilt :
    ∃ h zone old, Run step Returning ⟨exampleServer 2026010100, []⟩
        [addWiki, .adopt ⟨[], none, none⟩, .adopt (exampleServer 2026010200)] h ∧
      h.now.zoneOf "example.com".toList = some zone ∧ exampleServer 2026010100 ∈ h.past ∧
      (exampleServer 2026010100).zoneOf "example.com".toList = some old ∧ old.soa.serial ≤ zone.soa.serial := by
  let edited := (exampleServer 2026010100).edit addWiki
  let dropped := edited.edit (.adopt ⟨[], none, none⟩)
  let adopted := dropped.edit (.adopt (exampleServer 2026010200))
  have hlater : ∀ zone ∈ (exampleServer 2026010200).zones, ∀ earlier ∈ [edited, exampleServer 2026010100],
      ∀ old ∈ earlier.zoneOf zone.origin, old.soa.serial < zone.soa.serial := by decide +kernel
  have hrun : Run step Returning ⟨exampleServer 2026010100, []⟩
      [addWiki, .adopt ⟨[], none, none⟩, .adopt (exampleServer 2026010200)]
      ⟨adopted, [dropped, edited, exampleServer 2026010100]⟩ := by
    refine .cons trivial rfl (.cons ?_ rfl (.cons ?_ rfl .nil))
    · intro zone hzone
      cases hzone
    · intro zone hzone _ earlier hearlier old hold
      exact Zone.precedes_of_lt (hlater zone hzone earlier hearlier old hold)
  have hsome : (adopted.zoneOf "example.com".toList).isSome = true := by decide +kernel
  have holdSome : ((exampleServer 2026010100).zoneOf "example.com".toList).isSome = true := by decide +kernel
  obtain ⟨zone, hzone⟩ := Option.isSome_iff_exists.mp hsome
  obtain ⟨old, hold⟩ := Option.isSome_iff_exists.mp holdSome
  have hpast : exampleServer 2026010100 ∈ [dropped, edited, exampleServer 2026010100] :=
    List.mem_cons_of_mem _ (List.mem_cons_of_mem _ List.mem_cons_self)
  exact ⟨_, zone, old, hrun, hzone, hpast, hold, (serials_forward hrun hzone hpast hold).1⟩

/-- A record is added, the zone is dropped, and it comes back under the serial of the day: lower than the one it was
served with. -/
theorem readopted_backwards :
    ∃ h zone old earlier, Run step (fun _ _ => True) ⟨exampleServer 2026010100, []⟩
        [addWiki, .adopt ⟨[], none, none⟩, .adopt (exampleServer 2026010100)] h ∧
      h.now.zoneOf "example.com".toList = some zone ∧ earlier ∈ h.past ∧
      earlier.zoneOf "example.com".toList = some old ∧ old.content ≠ zone.content ∧
      old.soa.serial = 2026010101 ∧ zone.soa.serial = 2026010100 := by
  let edited := (exampleServer 2026010100).edit addWiki
  let dropped := edited.edit (.adopt ⟨[], none, none⟩)
  let adopted := dropped.edit (.adopt (exampleServer 2026010100))
  have hrun : Run step (fun _ _ => True) ⟨exampleServer 2026010100, []⟩
      [addWiki, .adopt ⟨[], none, none⟩, .adopt (exampleServer 2026010100)]
      ⟨adopted, [dropped, edited, exampleServer 2026010100]⟩ :=
    .cons trivial rfl (.cons trivial rfl (.cons trivial rfl .nil))
  have hzone : (adopted.zoneOf "example.com".toList).map (fun zone => (zone.soa.serial, zone.records.length)) =
      some (2026010100, 4) := by decide +kernel
  have hold : (edited.zoneOf "example.com".toList).map (fun zone => (zone.soa.serial, zone.records.length)) =
      some (2026010101, 5) := by decide +kernel
  obtain ⟨zone, hzone, hnew⟩ := Option.map_eq_some_iff.mp hzone
  obtain ⟨old, hold, hprevious⟩ := Option.map_eq_some_iff.mp hold
  rw [Prod.mk.injEq] at hnew hprevious
  refine ⟨_, zone, old, edited, hrun, hzone, List.mem_cons_of_mem _ List.mem_cons_self, hold, ?_, hprevious.1, hnew.1⟩
  intro hcontent
  have hrecords : old.records = zone.records := congrArg (fun content => content.2.2.2) hcontent
  rw [← hrecords, hprevious.2] at hnew
  exact absurd hnew.2 (by decide)

end History

end Selfhost.Dns
