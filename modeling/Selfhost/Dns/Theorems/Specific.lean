import Selfhost.Dns.Authority

/-!
# The zone that answers

Four operations take the first zone that contains a name. `specific_zone_used` says for which lists of zones that is
the most specific one.
-/

namespace Selfhost.Dns

open Selfhost.Lib

variable {zones zones' l₁ l₂ : List Zone} {zone : Zone} {name : Str}

/-- The zone of a list with the longest origin that contains a name. -/
structure Specific (zones : List Zone) (name : Str) (l₁ : List Zone) (zone : Zone) (l₂ : List Zone) : Prop where
  split : zones = l₁ ++ zone :: l₂
  contains : zone.contains name = true
  longest : ∀ other ∈ l₁ ++ l₂, other.contains name = true → other.origin.length < zone.origin.length

/-- The zone as the peer sees it. -/
def viewOf (authority : Authority) (peer : IpAddr) (zone : Zone) : Zone :=
  match authority.lan.filter fun _ => isLanPeer peer with
  | some view => lanHorizon zone authority.publicIp view.lanIp
  | none => zone

/-- Every operation uses the most specific zone. -/
structure UsesSpecific (authority : Authority) : Prop where
  query : ∀ forward raw overTcp peer query l₁ zone l₂, decodeQuery raw = .ok query →
    Specific authority.zones query.name l₁ zone l₂ →
    handleQuery authority forward raw overTcp peer = respond query (some (viewOf authority peer zone)) overTcp
  upsert : ∀ name data l₁ zone l₂, Specific authority.zones name l₁ zone l₂ →
    authority.upsertRecord name data =
      (some (zone.upsert name data).soa.serial, { authority with zones := l₁ ++ zone.upsert name data :: l₂ })
  remove : ∀ name rtype l₁ zone l₂, Specific authority.zones name l₁ zone l₂ →
    authority.removeRecord name rtype =
      (if zone.records.any (Zone.isOf (normalize name) rtype) then some (zone.remove name rtype).soa.serial else none,
        { authority with zones := l₁ ++ zone.remove name rtype :: l₂ })
  zoneFor : ∀ name l₁ zone l₂, Specific authority.zones name l₁ zone l₂ → authority.zoneFor name = some zone.origin

/-- No zone comes after one whose origin is above its own, unless it is not the only zone of its origin. -/
def Ordered (zones : List Zone) : Prop :=
  ∀ l₁ zone l₂, zones = l₁ ++ zone :: l₂ → (∀ other ∈ l₁ ++ l₂, other.origin ≠ zone.origin) →
    ∀ above ∈ l₁, ¬Under above.origin zone.origin

/-! ## Nested origins -/

theorem contains_iff : zone.contains name = true ↔ Under zone.origin (normalize name) := decide_eq_true_iff

theorem contains_normalize (zone : Zone) (name : Str) : zone.contains (normalize name) = zone.contains name := by
  rw [Zone.contains, Zone.contains, normalize_normalize]

theorem contains_origin (zone : Zone) : zone.contains zone.origin = true := by
  rw [contains_iff, zone.origin_stored]
  exact Or.inl rfl

theorem under_length {origin name : Str} (h : Under origin name) : name = origin ∨ origin.length < name.length := by
  refine h.imp_right fun h => ?_
  exact Nat.lt_of_lt_of_le (Nat.lt_succ_self _) h.length_le

/-- Of two names above a third the shorter is above the longer. -/
theorem under_of_shorter {a b q : Str} (ha : Under a q) (hb : Under b q) (hlt : a.length < b.length) : Under a b := by
  rcases hb with rfl | hb
  · exact ha
  · have hq : a.length < q.length := Nat.lt_of_lt_of_le (Nat.lt_succ_of_lt hlt) hb.length_le
    rcases ha with rfl | ha
    · exact absurd hq (Nat.lt_irrefl _)
    · exact Or.inr (List.suffix_of_suffix_length_le ha ((List.suffix_cons _ _).trans hb) hlt)

/-- Two names above a third that are equally long are the same. -/
theorem eq_of_under {a b q : Str} (ha : Under a q) (hb : Under b q) (hlen : a.length = b.length) : a = b := by
  have hsuffix : ∀ {c : Str}, Under c q → c <:+ q := by
    rintro c (rfl | h)
    · exact List.suffix_refl _
    · exact (List.suffix_cons _ _).trans h
  exact (List.suffix_of_suffix_length_le (hsuffix ha) (hsuffix hb) (Nat.le_of_eq hlen)).eq_of_length hlen

/-! ## The first match -/

/-- In an ordered list nothing before the most specific zone contains the name. -/
theorem Specific.first (hordered : Ordered zones) (h : Specific zones name l₁ zone l₂) :
    ∀ above ∈ l₁, above.contains name = false := by
  intro above habove
  rw [Bool.eq_false_iff]
  intro hcontains
  have hlt := h.longest above (List.mem_append_left _ habove) hcontains
  have hunder := under_of_shorter (contains_iff.mp hcontains) (contains_iff.mp h.contains) hlt
  refine hordered l₁ zone l₂ h.split ?_ above habove hunder
  intro other hmem horigin
  have hother : other.contains name = true := by
    rw [contains_iff, horigin]
    exact contains_iff.mp h.contains
  have := h.longest other hmem hother
  rw [horigin] at this
  exact Nat.lt_irrefl _ this

theorem Specific.find (hordered : Ordered zones) (h : Specific zones name l₁ zone l₂) :
    zones.find? (fun zone => zone.contains name) = some zone := by
  rw [h.split]
  exact find?_append_cons (h.first hordered) h.contains

theorem Specific.modify (hordered : Ordered zones) (h : Specific zones name l₁ zone l₂) (f : Zone → Zone) :
    modifyFirst (fun zone => zone.contains name) f zones = l₁ ++ f zone :: l₂ := by
  rw [h.split]
  exact modifyFirst_append_cons (h.first hordered) h.contains f

theorem usesSpecific_of_ordered {authority : Authority} (hordered : Ordered authority.zones) :
    UsesSpecific authority := by
  refine ⟨?_, ?_, ?_, ?_⟩
  · intro forward raw overTcp peer query l₁ zone l₂ hraw hspecific
    rw [handleQuery, hraw]
    dsimp only
    rw [hspecific.find hordered, viewOf]
    cases authority.lan.filter fun _ => isLanPeer peer with
    | none => rfl
    | some view => rfl
  · intro name data l₁ zone l₂ hspecific
    rw [Authority.upsertRecord, Authority.modifyZone]
    simp only [contains_normalize]
    rw [hspecific.find hordered]
    dsimp only
    rw [hspecific.modify hordered]
  · intro name rtype l₁ zone l₂ hspecific
    rw [Authority.removeRecord, Authority.modifyZone]
    simp only [contains_normalize]
    rw [hspecific.find hordered]
    dsimp only
    rw [hspecific.modify hordered]
  · intro name l₁ zone l₂ hspecific
    rw [Authority.zoneFor]
    simp only [contains_normalize]
    rw [hspecific.find hordered]
    rfl

/-- A zone that is listed too late is not the one its own origin is found in. -/
theorem ordered_of_usesSpecific {authority : Authority} (h : UsesSpecific authority) : Ordered authority.zones := by
  intro l₁ zone l₂ hsplit hunique above habove hunder
  have hspecific : Specific authority.zones zone.origin l₁ zone l₂ := by
    refine ⟨hsplit, contains_origin zone, ?_⟩
    intro other hmem hcontains
    rw [contains_iff, zone.origin_stored] at hcontains
    exact (under_length hcontains).resolve_left fun heq => hunique other hmem heq.symm
  have hzone := h.zoneFor zone.origin l₁ zone l₂ hspecific
  rw [Authority.zoneFor, hsplit, List.find?_append] at hzone
  have hsome : (l₁.find? fun zone' => zone'.contains (normalize zone.origin)).isSome = true := by
    rw [List.find?_isSome]
    refine ⟨above, habove, ?_⟩
    rw [contains_normalize, contains_iff, zone.origin_stored]
    exact hunder
  obtain ⟨found, hfound⟩ := Option.isSome_iff_exists.mp hsome
  rw [hfound, Option.some_or, Option.map_some] at hzone
  exact hunique found (List.mem_append_left _ (List.mem_of_find?_eq_some hfound)) (Option.some.inj hzone)

/-! ## The order of the zones -/

/-- In an ordered list of zones of different origins the zone that is found is the most specific. -/
theorem specific_of_find (hordered : Ordered zones) (hnodup : (zones.map Zone.origin).Nodup)
    (h : zones.find? (fun zone => zone.contains name) = some zone) : ∃ l₁ l₂, Specific zones name l₁ zone l₂ := by
  obtain ⟨hcontains, l₁, l₂, hsplit, hbefore⟩ := List.find?_eq_some_iff_append.mp h
  refine ⟨l₁, l₂, hsplit, hcontains, ?_⟩
  intro other hmem hother
  rcases List.mem_append.mp hmem with hmem | hmem
  · have := hbefore other hmem
    rw [hother] at this
    cases this
  · have hunder := contains_iff.mp hcontains
    have hunder' := contains_iff.mp hother
    rcases Nat.lt_trichotomy other.origin.length zone.origin.length with hlt | heq | hgt
    · exact hlt
    · rw [hsplit, List.map_append, List.map_cons, List.nodup_append, List.nodup_cons] at hnodup
      refine absurd ?_ hnodup.2.1.1
      rw [← eq_of_under hunder' hunder heq]
      exact List.mem_map_of_mem hmem
    · exfalso
      obtain ⟨m₁, m₂, hm⟩ := List.append_of_mem hmem
      have hlate : zones = (l₁ ++ zone :: m₁) ++ other :: m₂ := by
        rw [hsplit, hm, List.append_assoc, List.cons_append]
      refine hordered (l₁ ++ zone :: m₁) other m₂ hlate ?_ zone ?_ (under_of_shorter hunder hunder' hgt)
      · intro another hanother horigin
        rw [hlate, List.map_append, List.map_cons] at hnodup
        rw [List.perm_middle.nodup_iff, List.nodup_cons, ← List.map_append, ← horigin] at hnodup
        exact hnodup.1 (List.mem_map_of_mem hanother)
      · exact List.mem_append_right _ List.mem_cons_self

/-- Two ordered lists of the same zones, of different origins, find the same zone. -/
theorem find_eq_of_perm (hperm : zones.Perm zones') (hnodup : (zones.map Zone.origin).Nodup) (hordered : Ordered zones)
    (hordered' : Ordered zones') :
    zones.find? (fun zone => zone.contains name) = zones'.find? (fun zone => zone.contains name) := by
  cases hfind : zones.find? (fun zone => zone.contains name) with
  | none =>
      symm
      rw [List.find?_eq_none] at hfind ⊢
      exact fun zone hmem => hfind zone (hperm.mem_iff.mpr hmem)
  | some zone =>
      obtain ⟨l₁, l₂, hspecific⟩ := specific_of_find hordered hnodup hfind
      obtain ⟨m₁, m₂, hm⟩ := List.append_of_mem (hperm.mem_iff.mp (List.mem_of_find?_eq_some hfind))
      have hspecific' : Specific zones' name m₁ zone m₂ := by
        refine ⟨hm, hspecific.contains, ?_⟩
        intro other hmem hother
        have hrest : (m₁ ++ m₂).Perm (l₁ ++ l₂) := by
          have hall : (zone :: (m₁ ++ m₂)).Perm (zone :: (l₁ ++ l₂)) :=
            (List.perm_middle.symm.trans (hm ▸ hspecific.split ▸ hperm.symm)).trans List.perm_middle
          exact hall.cons_inv
        exact hspecific.longest other (hrest.mem_iff.mp hmem) hother
      rw [hspecific'.find hordered']

/-! ## The zone that is used -/

/-- The zone used is the most specific one exactly for ordered lists of zones, and ordered lists of the same zones
give the same replies. -/
theorem specific_zone_used (authority : Authority) :
    (UsesSpecific authority ↔ Ordered authority.zones) ∧
      ∀ zones' : List Zone, authority.zones.Perm zones' →
        (authority.zones.map Zone.origin).Nodup → Ordered authority.zones → Ordered zones' →
        ∀ forward raw overTcp peer, handleQuery { authority with zones := zones' } forward raw overTcp peer =
          handleQuery authority forward raw overTcp peer := by
  refine ⟨⟨ordered_of_usesSpecific, usesSpecific_of_ordered⟩, ?_⟩
  intro zones' hperm hnodup hordered hordered' forward raw overTcp peer
  rw [handleQuery, handleQuery]
  cases decodeQuery raw with
  | error e => rfl
  | ok query =>
      dsimp only
      rw [find_eq_of_perm hperm hnodup hordered hordered']

def parentZone : Zone := .fromConfig ⟨"example.com".toList, none, [], []⟩ [] 2026010100 (some ⟨203, 0, 113, 7⟩)

def childZone : Zone := .fromConfig ⟨"lab.example.com".toList, none, [], []⟩ [] 2026010100 (some ⟨203, 0, 113, 7⟩)

def otherZone : Zone := .fromConfig ⟨"example.org".toList, none, [], []⟩ [] 2026010100 none

/-- The ways to split a list of two. -/
theorem ordered_pair {a b : Zone} (h : ¬Under a.origin b.origin) : Ordered [a, b] := by
  intro l₁ zone l₂ hsplit _ above habove
  cases l₁ with
  | nil => cases habove
  | cons first l₁ =>
      rw [List.cons_append, List.cons.injEq] at hsplit
      obtain ⟨rfl, hsplit⟩ := hsplit
      cases l₁ with
      | nil =>
          rw [List.nil_append, List.cons.injEq] at hsplit
          obtain ⟨rfl, -⟩ := hsplit
          rw [List.mem_singleton] at habove
          rw [habove]
          exact h
      | cons second l₁ =>
          rw [List.cons_append, List.cons.injEq] at hsplit
          exact absurd hsplit.2 (by simp)

theorem specific_zone_used_child :
    UsesSpecific ⟨[childZone, parentZone], none, none⟩ ∧
      ∀ forward raw overTcp peer, handleQuery ⟨[otherZone, childZone], none, none⟩ forward raw overTcp peer =
        handleQuery ⟨[childZone, otherZone], none, none⟩ forward raw overTcp peer :=
  ⟨(specific_zone_used ⟨[childZone, parentZone], none, none⟩).1.mpr (ordered_pair (by decide +kernel)),
    (specific_zone_used ⟨[childZone, otherZone], none, none⟩).2 [otherZone, childZone] (.swap _ _ _) (by decide +kernel)
      (ordered_pair (by decide +kernel)) (ordered_pair (by decide +kernel))⟩

/-- With the parent first, a name of the child is answered from the parent; with the child first it is not. -/
theorem parent_answers_child :
    (⟨[parentZone, childZone], none, none⟩ : Authority).zoneFor "www.lab.example.com".toList =
        some "example.com".toList ∧
      (⟨[childZone, parentZone], none, none⟩ : Authority).zoneFor "www.lab.example.com".toList =
        some "lab.example.com".toList ∧
      (resolve parentZone ⟨1, "www.lab.example.com".toList, .a, false⟩).code = .nameError ∧
      (resolve childZone ⟨1, "www.lab.example.com".toList, .a, false⟩).code = .noError ∧
      ¬UsesSpecific ⟨[parentZone, childZone], none, none⟩ := by
  have hparent : (⟨[parentZone, childZone], none, none⟩ : Authority).zoneFor "www.lab.example.com".toList =
      some "example.com".toList := by decide +kernel
  refine ⟨hparent, by decide +kernel, by decide +kernel, by decide +kernel, ?_⟩
  intro h
  have hspecific : Specific [parentZone, childZone] "www.lab.example.com".toList [parentZone] childZone [] :=
    ⟨rfl, by decide +kernel, by decide +kernel⟩
  rw [h.zoneFor _ _ _ _ hspecific] at hparent
  exact absurd hparent (by decide +kernel)

end Selfhost.Dns
