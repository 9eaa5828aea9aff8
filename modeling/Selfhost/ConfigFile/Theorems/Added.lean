import Selfhost.ConfigFile.Lemmas.Blocks
import Selfhost.ConfigFile.Lemmas.Plain
import Selfhost.ConfigFile.Validate

/-!
# What is added

The text of an added site says all of it but who may reach it; the text of an added mailbox says all of it.
-/

namespace Selfhost.ConfigFile

open Selfhost.Lib Selfhost.Lib.Toml

variable {T : Crate} {S : Schema}

theorem parseConfig_iff {text : Str} {config : Config S} : parseConfig T.toReader S text = some config ↔
    ∃ root, T.parse text = some root ∧ ConfigRead S root config := by
  unfold parseConfig
  rw [Option.bind_eq_some_iff]
  constructor
  · rintro ⟨root, hroot, hconfig⟩
    exact ⟨root, hroot, ofTable_iff.mp hconfig⟩
  · rintro ⟨root, hroot, hconfig⟩
    exact ⟨root, hroot, ofTable_iff.mpr hconfig⟩

/-- A text with a site behind it has the sites of the source and the site as its block gives it. -/
theorem parse_addSite (hT : Lawful T) {source : Str} {site : Site} {config config' : Config S}
    (hsource : parseConfig T.toReader S source = some config)
    (htext : parseConfig T.toReader S (appended source (renderSiteBlock T site)) = some config') :
    config' = ⟨config.sites ++ [renderedSite site], config.mail, config.rest⟩ := by
  obtain ⟨root, hroot, hread⟩ := parseConfig_iff.mp hsource
  obtain ⟨root', hroot', hread'⟩ := parseConfig_iff.mp htext
  obtain ⟨s, rfl, rfl⟩ := parse_appended hT (renders_siteBlock hT site) hroot hroot'
  have harray : IsArray (getAt [] siteKey s.root) := isArray_of_defaulted hread.sites
  have hwithin := (@Within.push [] siteKey s trivial harray).run (siteExprs site)
  refine hread.of_sites hread' hwithin.offEq ?_
  have hvalue : Toml.get siteKey (run (.arrayHeader [] siteKey :: (siteExprs site).map (Expr.under [siteKey])) s).root
      = some (.array (items (Toml.get siteKey s.root) ++ [.table (siteTable site)])) := hwithin.value
  have hsites := hread.sites
  rw [@defaulted_list _ _ (Toml.get siteKey s.root) harray] at hsites
  rw [hvalue, defaulted_some, asList, List.mapM_append, hsites, List.mapM_cons, readSite_siteTable]
  rfl

theorem parse_addMailbox (hT : Lawful T) {source : Str} {mailbox : Mailbox} {mail : Mail} {config config' : Config S}
    (hsource : parseConfig T.toReader S source = some config) (hmail : config.mail = some mail)
    (htext : parseConfig T.toReader S (appended source (renderMailboxBlock T mailbox)) = some config') :
    config' = ⟨config.sites, some { mail with mailboxes := mail.mailboxes ++ [mailbox] }, config.rest⟩ := by
  obtain ⟨root, hroot, hread⟩ := parseConfig_iff.mp hsource
  obtain ⟨root', hroot', hread'⟩ := parseConfig_iff.mp htext
  obtain ⟨s, rfl, rfl⟩ := parse_appended hT (renders_mailboxBlock hT mailbox) hroot hroot'
  obtain ⟨t, ht, hhost, hboxes⟩ := readMail_iff.mp (hmail ▸ hread.mail)
  have hsub : sub mailKey s.root = t := by rw [sub, ht]
  have hclear : Clear [mailKey] s.root := ⟨by rw [ht]; trivial, trivial⟩
  have harray : IsArray (getAt [mailKey] mailboxKey s.root) := by
    rw [getAt, getAt, hsub]
    exact isArray_of_defaulted hboxes
  have hwithin := (Within.push hclear harray).run (keyvals (fieldsOf (mailboxFields mailbox)))
  rw [map_under_keyvals, run_keyvals (by simpa using nodup_fieldsOf (nodup_mailboxFields mailbox))] at hwithin
  refine hread.of_mailboxes hread' hwithin.offEq (readMail_iff.mpr ?_)
  generalize hlast : run (keyvals (fieldsOf (mailboxFields mailbox)))
    (step s (.arrayHeader [mailKey] mailboxKey)) = last at hwithin
  have hrun : run (.arrayHeader [mailKey] mailboxKey :: keyvals (fieldsOf (mailboxFields mailbox))) s = last := hlast
  rw [hrun]
  -- the section is a table after the block as before it
  have hvalue := hwithin.value
  rw [getAt, getAt] at hvalue
  refine ⟨sub mailKey last.root, ?_, ?_, ?_⟩
  · have htable := hwithin.clear.1
    unfold sub at hvalue ⊢
    cases hget : Toml.get mailKey last.root with
    | none =>
        rw [hget] at hvalue
        cases hvalue
    | some v =>
        rw [hget] at htable
        cases v with
        | table u => rfl
        | array l => exact htable.elim
        | string s => exact htable.elim
        | integer n => exact htable.elim
        | boolean b => exact htable.elim
        | other text => exact htable.elim
  · have hsame := hwithin.offEq.2 "hostname".toList (by decide +kernel)
    rw [← hsame, hsub, hhost]
  · rw [getAt, getAt, hsub] at harray hvalue
    rw [defaulted_list harray] at hboxes
    rw [hvalue, defaulted_some, asList, List.mapM_append, hboxes, List.mapM_cons]
    simp [readMailbox_fields]

theorem addSite_ok {source text : Str} {site : Site} (h : addSite T S source site = .ok text) :
    text = appended source (renderSiteBlock T site) ∧ ∃ config', parseConfig T.toReader S text = some config' := by
  unfold addSite at h
  cases hsource : parseConfig T.toReader S source with
  | none =>
      rw [hsource] at h
      cases h
  | some config =>
      rw [hsource] at h
      dsimp only at h
      split at h
      · cases h
      · rename_i config' htext
        cases h
        exact ⟨rfl, config', htext⟩

theorem addMailbox_ok {source text : Str} {mailbox : Mailbox} {config : Config S}
    (hsource : parseConfig T.toReader S source = some config) (h : addMailbox T S source mailbox = .ok text) :
    text = appended source (renderMailboxBlock T mailbox) ∧ (∃ mail, config.mail = some mail) ∧
      ∃ config', parseConfig T.toReader S text = some config' := by
  unfold addMailbox at h
  rw [hsource] at h
  dsimp only at h
  cases hmail : config.mail with
  | none =>
      rw [hmail] at h
      cases h
  | some mail =>
      rw [hmail] at h
      dsimp only at h
      split at h
      · cases h
      · rename_i config' htext
        cases h
        exact ⟨rfl, ⟨mail, rfl⟩, config', htext⟩

/-- A site that was added is the site that was asked for if and only if it asks for none of the three keys that are not
rendered and its root is a text. A mailbox that was added always is the one that was asked for. -/
theorem added_is_what_was_asked_for_iff (hT : Lawful T) {source : Str} {config : Config S}
    (hsource : parseConfig T.toReader S source = some config) :
    (∀ site text, addSite T S source site = .ok text →
      (parseConfig T.toReader S text = some ⟨config.sites ++ [site], config.mail, config.rest⟩ ↔
        site.allowedCidrs = [] ∧ site.console = false ∧ site.relay = none ∧
          ∀ root ∈ site.staticRoot, ∃ path, root = utf8 path)) ∧
    ∀ mailbox text, addMailbox T S source mailbox = .ok text →
      ∃ mail, config.mail = some mail ∧ parseConfig T.toReader S text =
        some ⟨config.sites, some { mail with mailboxes := mail.mailboxes ++ [mailbox] }, config.rest⟩ := by
  refine ⟨fun site text hadd => ?_, fun mailbox text hadd => ?_⟩
  · obtain ⟨rfl, config', htext⟩ := addSite_ok hadd
    rw [← renderedSite_eq_iff, htext, parse_addSite hT hsource htext]
    constructor
    · intro h
      have hsites := congrArg Config.sites (Option.some.inj h)
      exact List.singleton_inj.mp (List.append_cancel_left hsites)
    · intro h
      rw [h]
  · obtain ⟨rfl, ⟨mail, hmail⟩, config', htext⟩ := addMailbox_ok hsource hadd
    exact ⟨mail, hmail, by rw [htext, parse_addMailbox hT hsource hmail htext]⟩

/-! ## A small deployment -/

def sampleSchema : Schema := hostingSchema Names.asciiAlphabet

def sampleSource : Str :=
  "version = 1\n\n[server]\nacme_email = \"a@b.com\"\n\n".toList ++
    "[[nodes]]\nname = \"home\"\nrole = \"owner\"\n\n".toList ++
    "[[sites]]\nname = \"example\"\ndomains = [\"example.com\"]\nstatic_root = \"./public\"\n".toList

/-- A site with one hostname and a static root, and who may reach it. -/
def sampleSite (cidrs : List Str) : Site :=
  ⟨"b".toList, ["b.com".toList], some (utf8 "./b".toList), false, [], [], Health.default, true, cidrs, false, [], none,
    none, none⟩

example : siteOk Names.asciiAlphabet [] (sampleSite ["10.0.0.0/8".toList]) = true := by decide +kernel

theorem sampleSource_parses : ∃ config, parseConfig plainCrate.toReader sampleSchema sampleSource = some config :=
  Option.isSome_iff_exists.mp (by decide +kernel)

theorem addSite_sample (cidrs : List Str) :
    ∃ text, addSite plainCrate sampleSchema sampleSource (sampleSite cidrs) = .ok text := by
  -- The networks are not rendered.
  have hblock : renderSiteBlock plainCrate (sampleSite cidrs) = renderSiteBlock plainCrate (sampleSite []) := rfl
  have hadded : (addSite plainCrate sampleSchema sampleSource (sampleSite [])).toOption.isSome = true := by
    decide +kernel
  obtain ⟨text, htext⟩ := Option.isSome_iff_exists.mp hadded
  refine ⟨text, ?_⟩
  unfold addSite at htext ⊢
  rw [hblock]
  split at htext
  · cases htext
  · dsimp only at htext ⊢
    split at htext
    · cases htext
    · exact congrArg Except.ok (Option.some.inj htext)

theorem added_is_what_was_asked_for_open :
    ∃ config text, parseConfig plainCrate.toReader sampleSchema sampleSource = some config ∧
      addSite plainCrate sampleSchema sampleSource (sampleSite []) = .ok text ∧
      parseConfig plainCrate.toReader sampleSchema text =
        some ⟨config.sites ++ [sampleSite []], config.mail, config.rest⟩ := by
  obtain ⟨config, hsource⟩ := sampleSource_parses
  obtain ⟨text, hadd⟩ := addSite_sample []
  refine ⟨config, text, hsource, hadd, ?_⟩
  refine ((added_is_what_was_asked_for_iff lawful_plainCrate hsource).1 _ text hadd).mpr ⟨rfl, rfl, rfl, ?_⟩
  intro root hroot
  cases hroot
  exact ⟨"./b".toList, rfl⟩

/-- A site for one network is added, and comes back open to all. -/
theorem restricted_site_is_added_open :
    ∃ config config' text, parseConfig plainCrate.toReader sampleSchema sampleSource = some config ∧
      addSite plainCrate sampleSchema sampleSource (sampleSite ["10.0.0.0/8".toList]) = .ok text ∧
      parseConfig plainCrate.toReader sampleSchema text = some config' ∧
      config'.sites = config.sites ++ [sampleSite []] ∧
      config'.sites ≠ config.sites ++ [sampleSite ["10.0.0.0/8".toList]] := by
  obtain ⟨config, hsource⟩ := sampleSource_parses
  obtain ⟨text, hadd⟩ := addSite_sample ["10.0.0.0/8".toList]
  obtain ⟨rfl, config', htext⟩ := addSite_ok hadd
  have heq := parse_addSite lawful_plainCrate hsource htext
  refine ⟨config, config', _, hsource, hadd, htext, by rw [heq]; rfl, ?_⟩
  rw [heq]
  intro hsites
  have hsite := List.singleton_inj.mp (List.append_cancel_left hsites)
  exact absurd (congrArg Site.allowedCidrs hsite) (by decide)

end Selfhost.ConfigFile
