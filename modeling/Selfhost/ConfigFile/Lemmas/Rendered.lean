import Selfhost.ConfigFile.Lemmas.Lines
import Selfhost.Lib.Fallible

/-!
# What a rendered block says

The expressions of a rendered block, the table that they make, and what is read from it.
-/

namespace Selfhost.ConfigFile

open Selfhost.Lib Selfhost.Lib.Toml

/-! ## Lists -/

theorem defaulted_none {α : Type} (default : α) (read : Value → Option α) :
    defaulted default read none = some default := rfl

theorem defaulted_some {α : Type} (default : α) (read : Value → Option α) (v : Value) :
    defaulted default read (some v) = read v := rfl

theorem defaulted_list {α : Type} {read : Value → Option α} {v : Option Value} (h : IsArray v) :
    defaulted [] (asList read) v = (items v).mapM read := by
  cases v with
  | none => rfl
  | some v =>
      cases v with
      | array l => rfl
      | table u => exact h.elim
      | string s => exact h.elim
      | integer n => exact h.elim
      | boolean b => exact h.elim
      | other text => exact h.elim

/-- What is read as a list is an array, or absent. -/
theorem isArray_of_defaulted {α : Type} {read : Value → Option α} {v : Option Value} {l : List α}
    (h : defaulted [] (asList read) v = some l) : IsArray v := by
  cases v with
  | none => trivial
  | some v =>
      cases v with
      | array l => trivial
      | table u => cases h
      | string s => cases h
      | integer n => cases h
      | boolean b => cases h
      | other text => cases h

theorem asList_strings (l : List Str) : asList asStr (.array (l.map .string)) = some l := by
  simp only [asList]
  induction l with
  | nil => rfl
  | cons s l ih => simp [List.mapM_cons, asStr, ih]

/-! ## Instances -/

def instanceTable (i : Instance) : Table := [("node".toList, .string i.node), ("port".toList, .integer i.port.toNat)]

def instancesKey : Str := "instances".toList

def instanceExprs (i : Instance) : List Expr := .blank :: .arrayHeader [] instancesKey :: keyvals (instanceTable i)

theorem nodup_instanceTable (i : Instance) : ((instanceTable i).map Prod.fst).Nodup := by
  have hkeys : ["node".toList, "port".toList].Nodup := by decide +kernel
  exact hkeys

theorem asNat_of_lt {bits n : Nat} (h : n < 2 ^ bits) : asNat bits (.integer n) = some n := by
  have hcast : (n : Int) < 2 ^ bits := by exact_mod_cast h
  rw [asNat, if_pos ⟨by omega, hcast⟩]
  simp

theorem readInstance_of {t : Table} {node : Str} {port : Nat}
    (hnode : required asStr (Toml.get "node".toList t) = some node)
    (hport : required (asNat 16) (Toml.get "port".toList t) = some port) :
    readInstance (.table t) = some ⟨node, UInt16.ofNat port⟩ := by
  simp only [readInstance, asTable, hnode, hport, Option.bind_eq_bind, Option.bind_some]

theorem readInstance_table (i : Instance) : readInstance (.table (instanceTable i)) = some i := by
  have hnode : Toml.get "node".toList (instanceTable i) = some (.string i.node) :=
    get_of_mem (nodup_instanceTable i) (.head _)
  have hport : Toml.get "port".toList (instanceTable i) = some (.integer i.port.toNat) :=
    get_of_mem (nodup_instanceTable i) (.tail _ (.head _))
  have hread := @readInstance_of (instanceTable i) i.node i.port.toNat (by rw [hnode]; rfl)
    (by rw [hport, required, Option.bind_some, asNat_of_lt i.port.toNat_lt])
  rw [hread, UInt16.ofNat_toNat]

theorem run_instances (l : List Instance) {s : State} (h : IsArray (Toml.get instancesKey s.root)) :
    OffEq [] instancesKey s.root (run (l.flatMap instanceExprs) s).root ∧
      IsArray (Toml.get instancesKey (run (l.flatMap instanceExprs) s).root) ∧
      items (Toml.get instancesKey (run (l.flatMap instanceExprs) s).root)
        = items (Toml.get instancesKey s.root) ++ l.map fun i => .table (instanceTable i) := by
  induction l generalizing s with
  | nil => exact ⟨.refl [] _ _, h, by simp⟩
  | cons i l ih =>
      have hopen := @Within.push [] instancesKey s trivial h
      have hrun := hopen.run (keyvals (instanceTable i))
      have hentry : run (keyvals (instanceTable i)) ⟨[], []⟩ = ⟨instanceTable i, []⟩ :=
        run_keyvals (nodup_instanceTable i)
      rw [hentry] at hrun
      have hunder : (keyvals (instanceTable i)).map (Expr.under ([] ++ [instancesKey])) = keyvals (instanceTable i) := rfl
      rw [hunder] at hrun
      rw [List.flatMap_cons, run_append]
      have hstep : run (instanceExprs i) s = run (keyvals (instanceTable i)) (step s (.arrayHeader [] instancesKey)) := rfl
      have hvalue : Toml.get instancesKey (run (instanceExprs i) s).root
          = some (.array (items (Toml.get instancesKey s.root) ++ [.table (instanceTable i)])) := by
        rw [hstep]
        exact hrun.value
      obtain ⟨hoff, harray, hitems⟩ := ih (s := run (instanceExprs i) s) (by rw [hvalue]; trivial)
      refine ⟨OffEq.trans ?_ hoff, harray, ?_⟩
      · rw [hstep]
        exact hrun.offEq
      · rw [hitems, hvalue]
        simp [items]

/-! ## Health -/

def healthKey : Str := "health".toList

def healthTable (h : Health) : Table :=
  [("path".toList, .string h.path), ("interval_secs".toList, .integer h.intervalSecs.toNat),
    ("timeout_secs".toList, .integer h.timeoutSecs.toNat),
    ("unhealthy_after".toList, .integer h.unhealthyAfter.toNat),
    ("healthy_after".toList, .integer h.healthyAfter.toNat)]

def healthExprs (h : Health) : List Expr :=
  if h = Health.default then [] else .blank :: .header [] healthKey :: keyvals (healthTable h)

theorem nodup_healthTable (h : Health) : ((healthTable h).map Prod.fst).Nodup := by
  have hkeys : ["path".toList, "interval_secs".toList, "timeout_secs".toList, "unhealthy_after".toList,
      "healthy_after".toList].Nodup := by
    decide +kernel
  exact hkeys

theorem readHealth_of {t : Table} {path : Str} {interval timeout unhealthy healthy : Nat}
    (hpath : defaulted Health.default.path asStr (Toml.get "path".toList t) = some path)
    (hinterval : defaulted Health.default.intervalSecs.toNat (asNat 64) (Toml.get "interval_secs".toList t)
      = some interval)
    (htimeout : defaulted Health.default.timeoutSecs.toNat (asNat 64) (Toml.get "timeout_secs".toList t) = some timeout)
    (hunhealthy : defaulted Health.default.unhealthyAfter.toNat (asNat 32) (Toml.get "unhealthy_after".toList t)
      = some unhealthy)
    (hhealthy : defaulted Health.default.healthyAfter.toNat (asNat 32) (Toml.get "healthy_after".toList t)
      = some healthy) :
    readHealth (.table t) = some ⟨path, UInt64.ofNat interval, UInt64.ofNat timeout, UInt32.ofNat unhealthy,
      UInt32.ofNat healthy⟩ := by
  simp only [readHealth, asTable, hpath, hinterval, htimeout, hunhealthy, hhealthy, Option.bind_eq_bind,
    Option.bind_some]

/-- A key of a table that is given is read. -/
theorem defaulted_of_mem {α : Type} {t : Table} (h : (t.map Prod.fst).Nodup) {key : Str} {v : Value}
    (hmem : (key, v) ∈ t) {default a : α} {read : Value → Option α} (hread : read v = some a) :
    defaulted default read (Toml.get key t) = some a := by
  rw [get_of_mem h hmem, defaulted, hread]

theorem readHealth_table (h : Health) : readHealth (.table (healthTable h)) = some h := by
  have hnodup := nodup_healthTable h
  have hread := readHealth_of (t := healthTable h)
    (defaulted_of_mem hnodup (.head _) rfl)
    (defaulted_of_mem hnodup (.tail _ (.head _)) (asNat_of_lt h.intervalSecs.toNat_lt))
    (defaulted_of_mem hnodup (.tail _ (.tail _ (.head _))) (asNat_of_lt h.timeoutSecs.toNat_lt))
    (defaulted_of_mem hnodup (.tail _ (.tail _ (.tail _ (.head _)))) (asNat_of_lt h.unhealthyAfter.toNat_lt))
    (defaulted_of_mem hnodup (.tail _ (.tail _ (.tail _ (.tail _ (.head _))))) (asNat_of_lt h.healthyAfter.toNat_lt))
  rw [hread]
  simp only [UInt64.ofNat_toNat, UInt32.ofNat_toNat]

theorem run_health (h : Health) {t : Table} {c : List Str} (hnone : Toml.get healthKey t = none) :
    OffEq [] healthKey t (run (healthExprs h) ⟨t, c⟩).root ∧
      defaulted Health.default readHealth (Toml.get healthKey (run (healthExprs h) ⟨t, c⟩).root) = some h := by
  by_cases hdefault : h = Health.default
  · rw [healthExprs, if_pos hdefault, run_nil]
    refine ⟨.refl [] _ _, ?_⟩
    rw [hnone, defaulted_none, hdefault]
  · have hrun : run (.blank :: .header [] healthKey :: keyvals (healthTable h)) ⟨t, c⟩
        = ⟨Toml.set healthKey (.table (healthTable h)) t, [healthKey]⟩ := by
      rw [run_cons]
      exact run_keyvals_sub (nodup_healthTable h) hnone c
    rw [healthExprs, if_neg hdefault, hrun]
    refine ⟨fun key hkey => (get_set_ne hkey _ t).symm, ?_⟩
    rw [get_set_self, defaulted_some, readHealth_table]

/-! ## Sites -/

/-- The keys of a rendered site. -/
def siteFields (site : Site) : List (Str × Option Value) :=
  [("name".toList, some (.string site.name)), ("domains".toList, some (.array (site.domains.map .string))),
    ("static_root".toList, site.staticRoot.map fun root => .string (fromUtf8Lossy root)),
    ("spa".toList, if site.spa then some (.boolean true) else none),
    ("app_paths".toList, if site.appPaths = [] then none else some (.array (site.appPaths.map .string))),
    ("canonical_redirect".toList, if site.canonicalRedirect then none else some (.boolean false)),
    ("public_api_paths".toList,
      if site.publicApiPaths = [] then none else some (.array (site.publicApiPaths.map .string))),
    ("exposure".toList, site.exposure.map fun exposure => .string exposure.word),
    ("owner".toList, site.owner.map .string)]

def siteExprs (site : Site) : List Expr :=
  keyvals (fieldsOf (siteFields site)) ++ site.instances.flatMap instanceExprs ++ healthExprs site.health

def siteFieldKeys : List Str :=
  ["name".toList, "domains".toList, "static_root".toList, "spa".toList, "app_paths".toList,
    "canonical_redirect".toList, "public_api_paths".toList, "exposure".toList, "owner".toList]

theorem nodup_siteFields (site : Site) : ((siteFields site).map Prod.fst).Nodup := by
  have hkeys : siteFieldKeys.Nodup := by decide +kernel
  exact hkeys

/-- The table that a rendered site makes. -/
def siteTable (site : Site) : Table := (run (siteExprs site) ⟨[], []⟩).root

theorem siteTable_spec (site : Site) :
    (∀ key, key ≠ instancesKey → key ≠ healthKey →
      Toml.get key (siteTable site) = Toml.get key (fieldsOf (siteFields site))) ∧
    defaulted [] (asList readInstance) (Toml.get instancesKey (siteTable site)) = some site.instances ∧
    defaulted Health.default readHealth (Toml.get healthKey (siteTable site)) = some site.health := by
  have hflat : run (keyvals (fieldsOf (siteFields site))) ⟨[], []⟩ = ⟨fieldsOf (siteFields site), []⟩ :=
    run_keyvals (by simpa using nodup_fieldsOf (nodup_siteFields site))
  have hnone : ∀ key, key ∉ (siteFields site).map Prod.fst → Toml.get key (fieldsOf (siteFields site)) = none :=
    fun key hkey => get_eq_none (not_mem_fieldsOf hkey)
  have hinst : instancesKey ∉ (siteFields site).map Prod.fst := by
    have hkey : instancesKey ∉ siteFieldKeys := by decide +kernel
    exact hkey
  have hhealth : healthKey ∉ (siteFields site).map Prod.fst := by
    have hkey : healthKey ∉ siteFieldKeys := by decide +kernel
    exact hkey
  have hne : healthKey ≠ instancesKey := by decide +kernel
  -- the keys first, then the instances, then the health table
  obtain ⟨hoff, harray, hitems⟩ := run_instances site.instances (s := ⟨fieldsOf (siteFields site), []⟩)
    (by rw [hnone _ hinst]; trivial)
  generalize hmid : run (site.instances.flatMap instanceExprs) ⟨fieldsOf (siteFields site), []⟩ = mid at *
  obtain ⟨hoff', hread⟩ := run_health site.health (t := mid.root) (c := mid.current)
    (by rw [← hoff healthKey hne]; exact hnone _ hhealth)
  have htable : siteTable site = (run (healthExprs site.health) ⟨mid.root, mid.current⟩).root := by
    rw [siteTable, siteExprs, run_append, run_append, hflat, hmid]
  rw [htable]
  refine ⟨fun key hi hh => ?_, ?_, hread⟩
  · rw [← hoff' key hh, ← hoff key hi]
  · rw [← hoff' instancesKey (Ne.symm hne), defaulted_list harray, hitems, hnone _ hinst]
    simp only [items, List.nil_append]
    exact mapM_map fun i _ => readInstance_table i

/-- What is read of a site, key by key. -/
structure SiteRead (field : Str → Option Value) (site : Site) : Prop where
  name : required asStr (field "name".toList) = some site.name
  domains : required (asList asStr) (field "domains".toList) = some site.domains
  staticRoot : (optional asStr (field "static_root".toList)).map (Option.map utf8) = some site.staticRoot
  spa : defaulted false asBool (field "spa".toList) = some site.spa
  appPaths : defaulted [] (asList asStr) (field "app_paths".toList) = some site.appPaths
  instances : defaulted [] (asList readInstance) (field "instances".toList) = some site.instances
  health : defaulted Health.default readHealth (field "health".toList) = some site.health
  canonicalRedirect : defaulted true asBool (field "canonical_redirect".toList) = some site.canonicalRedirect
  allowedCidrs : defaulted [] (asList asStr) (field "allowed_cidrs".toList) = some site.allowedCidrs
  console : defaulted false asBool (field "console".toList) = some site.console
  publicApiPaths : defaulted [] (asList asStr) (field "public_api_paths".toList) = some site.publicApiPaths
  exposure : optional asExposure (field "exposure".toList) = some site.exposure
  owner : optional asStr (field "owner".toList) = some site.owner
  relay : optional asStr (field "relay".toList) = some site.relay

theorem siteOf_iff {field : Str → Option Value} {site : Site} : siteOf field = some site ↔ SiteRead field site := by
  unfold siteOf
  constructor
  · intro h
    obtain ⟨name, h1, h⟩ := Option.bind_eq_some_iff.mp h
    obtain ⟨domains, h2, h⟩ := Option.bind_eq_some_iff.mp h
    obtain ⟨root, h3, h⟩ := Option.bind_eq_some_iff.mp h
    obtain ⟨spa, h4, h⟩ := Option.bind_eq_some_iff.mp h
    obtain ⟨appPaths, h5, h⟩ := Option.bind_eq_some_iff.mp h
    obtain ⟨instances, h6, h⟩ := Option.bind_eq_some_iff.mp h
    obtain ⟨health, h7, h⟩ := Option.bind_eq_some_iff.mp h
    obtain ⟨redirect, h8, h⟩ := Option.bind_eq_some_iff.mp h
    obtain ⟨cidrs, h9, h⟩ := Option.bind_eq_some_iff.mp h
    obtain ⟨console, h10, h⟩ := Option.bind_eq_some_iff.mp h
    obtain ⟨api, h11, h⟩ := Option.bind_eq_some_iff.mp h
    obtain ⟨exposure, h12, h⟩ := Option.bind_eq_some_iff.mp h
    obtain ⟨owner, h13, h⟩ := Option.bind_eq_some_iff.mp h
    obtain ⟨relay, h14, h⟩ := Option.bind_eq_some_iff.mp h
    cases h
    exact ⟨h1, h2, by rw [h3]; rfl, h4, h5, h6, h7, h8, h9, h10, h11, h12, h13, h14⟩
  · intro h
    obtain ⟨root, hroot, hstatic⟩ := Option.map_eq_some_iff.mp h.staticRoot
    rw [h.name, h.domains, hroot, h.spa, h.appPaths, h.instances, h.health, h.canonicalRedirect, h.allowedCidrs,
      h.console, h.publicApiPaths, h.exposure, h.owner, h.relay]
    dsimp only [bind, Option.bind]
    rw [hstatic]

/-- A site as its rendered block gives it back. -/
def renderedSite (site : Site) : Site :=
  { site with
    staticRoot := site.staticRoot.map fun root => utf8 (fromUtf8Lossy root)
    allowedCidrs := []
    console := false
    relay := none }

theorem defaulted_strings (l : List Str) :
    defaulted [] (asList asStr) (if l = [] then none else some (.array (l.map .string))) = some l := by
  by_cases h : l = []
  · rw [if_pos h, h, defaulted_none]
  · rw [if_neg h, defaulted_some, asList_strings]

theorem asExposure_word (exposure : Exposure) : asExposure (.string exposure.word) = some exposure := by
  cases exposure <;> decide +kernel

/-- The key of a rendered site that has a table of its own, or none. -/
theorem get_siteTable {site : Site} {key : Str} {v : Option Value} (hmem : (key, v) ∈ siteFields site)
    (hi : key ≠ instancesKey) (hh : key ≠ healthKey) : Toml.get key (siteTable site) = v := by
  rw [(siteTable_spec site).1 key hi hh, get_fieldsOf (nodup_siteFields site) hmem]

theorem get_siteTable_none {site : Site} {key : Str} (hkey : key ∉ (siteFields site).map Prod.fst)
    (hi : key ≠ instancesKey) (hh : key ≠ healthKey) : Toml.get key (siteTable site) = none := by
  rw [(siteTable_spec site).1 key hi hh, get_eq_none (not_mem_fieldsOf hkey)]

theorem readSite_siteTable (site : Site) : readSite (.table (siteTable site)) = some (renderedSite site) := by
  have hkeys : (siteFields site).map Prod.fst = siteFieldKeys := rfl
  rw [readSite, asTable, Option.bind_some]
  refine siteOf_iff.mpr ⟨?_, ?_, ?_, ?_, ?_, ?_, ?_, ?_, ?_, ?_, ?_, ?_, ?_, ?_⟩
  · rw [get_siteTable (.head _) (by decide +kernel) (by decide +kernel)]
    rfl
  · rw [get_siteTable (.tail _ (.head _)) (by decide +kernel) (by decide +kernel)]
    exact asList_strings site.domains
  · rw [get_siteTable (.tail _ (.tail _ (.head _))) (by decide +kernel) (by decide +kernel), renderedSite]
    cases site.staticRoot <;> rfl
  · rw [get_siteTable (.tail _ (.tail _ (.tail _ (.head _)))) (by decide +kernel) (by decide +kernel), renderedSite]
    cases site.spa <;> rfl
  · rw [get_siteTable (.tail _ (.tail _ (.tail _ (.tail _ (.head _))))) (by decide +kernel) (by decide +kernel)]
    exact defaulted_strings site.appPaths
  · exact (siteTable_spec site).2.1
  · exact (siteTable_spec site).2.2
  · rw [get_siteTable (.tail _ (.tail _ (.tail _ (.tail _ (.tail _ (.head _)))))) (by decide +kernel)
      (by decide +kernel), renderedSite]
    cases site.canonicalRedirect <;> rfl
  · rw [get_siteTable_none (by rw [hkeys]; decide +kernel) (by decide +kernel) (by decide +kernel)]
    rfl
  · rw [get_siteTable_none (by rw [hkeys]; decide +kernel) (by decide +kernel) (by decide +kernel)]
    rfl
  · rw [get_siteTable (.tail _ (.tail _ (.tail _ (.tail _ (.tail _ (.tail _ (.head _))))))) (by decide +kernel)
      (by decide +kernel)]
    exact defaulted_strings site.publicApiPaths
  · rw [get_siteTable (.tail _ (.tail _ (.tail _ (.tail _ (.tail _ (.tail _ (.tail _ (.head _)))))))) (by decide +kernel)
      (by decide +kernel), renderedSite]
    cases hexposure : site.exposure with
    | none => rfl
    | some exposure => simp [optional, defaulted, asExposure_word]
  · rw [get_siteTable (.tail _ (.tail _ (.tail _ (.tail _ (.tail _ (.tail _ (.tail _ (.tail _ (.head _)))))))))
      (by decide +kernel) (by decide +kernel), renderedSite]
    cases site.owner <;> rfl
  · rw [get_siteTable_none (by rw [hkeys]; decide +kernel) (by decide +kernel) (by decide +kernel)]
    rfl

/-- A site is given back as it was exactly if what is not rendered was left at its default, and its root is text. -/
theorem renderedSite_eq_iff {site : Site} : renderedSite site = site ↔
    site.allowedCidrs = [] ∧ site.console = false ∧ site.relay = none ∧
      ∀ root ∈ site.staticRoot, ∃ text, root = utf8 text := by
  constructor
  · intro h
    refine ⟨(congrArg Site.allowedCidrs h).symm, (congrArg Site.console h).symm, (congrArg Site.relay h).symm, ?_⟩
    intro root hroot
    have hstatic : site.staticRoot.map (fun root => utf8 (fromUtf8Lossy root)) = site.staticRoot :=
      congrArg Site.staticRoot h
    rw [Option.mem_def.mp hroot] at hstatic
    exact ⟨fromUtf8Lossy root, (Option.some.inj hstatic).symm⟩
  · rintro ⟨hcidrs, hconsole, hrelay, hroot⟩
    have hstatic : site.staticRoot.map (fun root => utf8 (fromUtf8Lossy root)) = site.staticRoot := by
      cases hs : site.staticRoot with
      | none => rfl
      | some root =>
          obtain ⟨text, rfl⟩ := hroot root hs
          rw [Option.map_some, fromUtf8Lossy_utf8]
    rw [renderedSite, hstatic, ← hcidrs, ← hconsole, ← hrelay]

end Selfhost.ConfigFile
