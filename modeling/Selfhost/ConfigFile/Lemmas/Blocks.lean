import Selfhost.ConfigFile.Lemmas.Rendered

/-!
# Blocks behind a document
-/

namespace Selfhost.ConfigFile

open Selfhost.Lib Selfhost.Lib.Toml

/-! ## Documents -/

variable {S : Schema}

/-- What is read of a document, section by section. -/
structure ConfigRead (S : Schema) (root : Table) (config : Config S) : Prop where
  sites : defaulted [] (asList readSite) (Toml.get siteKey root) = some config.sites
  mail : optional readMail (Toml.get mailKey root) = some config.mail
  rest : S.read (otherSections root) (otherMail root) = some config.rest
  valid : S.validate config.sites config.mail config.rest = true

theorem ofTable_iff {root : Table} {config : Config S} : ofTable S root = some config ↔ ConfigRead S root config := by
  constructor
  · intro h
    simp only [ofTable, Option.bind_eq_bind, Option.bind_eq_some_iff] at h
    obtain ⟨sites, hsites, mail, hmail, rest, hrest, h⟩ := h
    split at h
    · rename_i hvalid
      cases h
      exact ⟨hsites, hmail, hrest, hvalid⟩
    · cases h
  · intro h
    simp only [ofTable, h.sites, h.mail, h.rest, h.valid, Option.bind_eq_bind, Option.bind_some, ↓reduceIte]

theorem siteKey_ne_mailKey : mailKey ≠ siteKey := by decide +kernel

theorem otherSections_congr {root root' : Table}
    (h : ∀ key, key ≠ siteKey → key ≠ mailKey → Toml.get key root = Toml.get key root') :
    otherSections root = otherSections root' := by
  funext key
  unfold otherSections
  by_cases hkey : key = siteKey ∨ key = mailKey
  · rw [if_pos hkey, if_pos hkey]
  · rw [if_neg hkey, if_neg hkey]
    exact h key (fun hs => hkey (.inl hs)) (fun hm => hkey (.inr hm))

/-- Two documents that differ in their sites only. -/
theorem ConfigRead.of_sites {root root' : Table} {config config' : Config S} (h : ConfigRead S root config)
    (h' : ConfigRead S root' config') (hoff : OffEq [] siteKey root root') {sites : List Site}
    (hsites : defaulted [] (asList readSite) (Toml.get siteKey root') = some sites) :
    config' = ⟨sites, config.mail, config.rest⟩ := by
  have hmailKey : Toml.get mailKey root = Toml.get mailKey root' := hoff mailKey siteKey_ne_mailKey
  have hsections : otherSections root = otherSections root' := otherSections_congr fun key hs _ => hoff key hs
  have hothers : otherMail root = otherMail root' := by
    funext key
    simp only [otherMail, sub, hmailKey]
  have h1 : config'.sites = sites := Option.some.inj (h'.sites.symm.trans hsites)
  have h2 : config'.mail = config.mail := Option.some.inj (h'.mail.symm.trans (hmailKey ▸ h.mail))
  have h3 : config'.rest = config.rest := by
    have hrest := h'.rest
    rw [← hsections, ← hothers, h.rest] at hrest
    exact (Option.some.inj hrest).symm
  cases config' with
  | mk s m r =>
      cases h1
      cases h2
      cases h3
      rfl

/-- Two documents that differ in their mailboxes only. -/
theorem ConfigRead.of_mailboxes {root root' : Table} {config config' : Config S} (h : ConfigRead S root config)
    (h' : ConfigRead S root' config') (hoff : OffEq [mailKey] mailboxKey root root') {mail : Option Mail}
    (hmail : optional readMail (Toml.get mailKey root') = some mail) :
    config' = ⟨config.sites, mail, config.rest⟩ := by
  have hsiteKey : Toml.get siteKey root = Toml.get siteKey root' := hoff.1 siteKey (Ne.symm siteKey_ne_mailKey)
  have hsections : otherSections root = otherSections root' := otherSections_congr fun key _ hm => hoff.1 key hm
  have hothers : otherMail root = otherMail root' := by
    funext key
    unfold otherMail
    by_cases hkey : key = mailboxKey
    · rw [if_pos hkey, if_pos hkey]
    · rw [if_neg hkey, if_neg hkey]
      exact hoff.2 key hkey
  have h1 : config'.sites = config.sites := Option.some.inj (h'.sites.symm.trans (hsiteKey ▸ h.sites))
  have h2 : config'.mail = mail := Option.some.inj (h'.mail.symm.trans hmail)
  have h3 : config'.rest = config.rest := by
    have hrest := h'.rest
    rw [← hsections, ← hothers, h.rest] at hrest
    exact (Option.some.inj hrest).symm
  cases config' with
  | mk s m r =>
      cases h1
      cases h2
      cases h3
      rfl

/-- What is read as a mail section is a table with a host name and a list of mailboxes. -/
theorem readMail_iff {v : Option Value} {mail : Mail} : optional readMail v = some (some mail) ↔
    ∃ t, v = some (.table t) ∧ required asStr (Toml.get "hostname".toList t) = some mail.hostname ∧
      defaulted [] (asList readMailbox) (Toml.get mailboxKey t) = some mail.mailboxes := by
  constructor
  · intro h
    cases v with
    | none => cases h
    | some v =>
        rw [optional, defaulted_some] at h
        obtain ⟨m, hm, hsome⟩ := Option.map_eq_some_iff.mp h
        cases hsome
        simp only [readMail, Option.bind_eq_bind, Option.bind_eq_some_iff] at hm
        obtain ⟨t, ht, hostname, hhost, mailboxes, hboxes, hm⟩ := hm
        cases hm
        cases v with
        | table u =>
            cases ht
            exact ⟨t, rfl, hhost, hboxes⟩
        | array l => cases ht
        | string s => cases ht
        | integer n => cases ht
        | boolean b => cases ht
        | other text => cases ht
  · rintro ⟨t, rfl, hhost, hboxes⟩
    rw [optional, defaulted_some]
    have hread : readMail (.table t) = some mail := by
      simp only [readMail, asTable, hhost, Option.bind_eq_bind, Option.bind_some]
      have hboxes' : defaulted [] (asList readMailbox) (Toml.get "mailboxes".toList t) = some mail.mailboxes := hboxes
      rw [hboxes', Option.bind_some]
    rw [hread]
    rfl

/-! ## The lines of a site -/

variable {T : Crate}

theorem keyvals_fieldsOf_cons (key : Str) (v : Option Value) (fields : List (Str × Option Value)) :
    keyvals (fieldsOf ((key, v) :: fields)) = v.toList.map (.keyval [] key) ++ keyvals (fieldsOf fields) := by
  cases v <;> rfl

theorem Renders.one {line : Str} {e : Expr} (h : Renders T line e) : List.Forall₂ (Renders T) [line] [e] :=
  .cons h .nil

/-- A line that is written when there is a value. -/
theorem renders_option {α : Type} {v : Option α} {line : α → Str} {value : α → Value} {key : Str}
    (h : ∀ a, Renders T (line a) (.keyval [] key (value a))) :
    List.Forall₂ (Renders T) (v.toList.map line) ((v.map value).toList.map (.keyval [] key)) := by
  cases v with
  | none => exact .nil
  | some a => exact (h a).one

theorem renders_if {c : Bool} {line : Str} {v : Option Value} {value : Value} {key : Str}
    (h : Renders T line (.keyval [] key value)) (hv : v = if c then some value else none) :
    List.Forall₂ (Renders T) (lineIf c line) (v.toList.map (.keyval [] key)) := by
  subst hv
  cases c with
  | false => exact .nil
  | true => exact h.one

theorem renders_site (hT : Lawful T) (site : Site) :
    List.Forall₂ (Renders T) (siteLines T site) (keyvals (fieldsOf (siteFields site))) := by
  have hspa : "spa = true".toList = assignment "spa".toList "true".toList := by decide +kernel
  have hredirect : "canonical_redirect = false".toList = assignment "canonical_redirect".toList "false".toList := by
    decide +kernel
  simp only [siteLines, siteFields, keyvals_fieldsOf_cons, List.append_assoc, List.cons_append, List.nil_append, hspa,
    hredirect]
  refine List.rel_append (Renders.one (.inl (hT.string "name".toList _ (by decide +kernel)))) ?_
  refine List.rel_append (Renders.one (.inl (hT.strings "domains".toList _ (by decide +kernel)))) ?_
  refine List.rel_append (renders_option fun root => .inl (hT.string _ _ (by decide +kernel))) ?_
  refine List.rel_append (renders_if (.inl (hT.truth "spa".toList (by decide +kernel))) rfl) ?_
  refine List.rel_append (renders_if (.inl (hT.strings _ _ (by decide +kernel))) (by cases site.appPaths <;> rfl)) ?_
  refine List.rel_append (renders_if (.inl (hT.falsehood "canonical_redirect".toList (by decide +kernel)))
    (by cases site.canonicalRedirect <;> rfl)) ?_
  refine List.rel_append (renders_if (.inl (hT.strings _ _ (by decide +kernel)))
    (by cases site.publicApiPaths <;> rfl)) ?_
  refine List.rel_append (renders_option fun exposure => .inl (hT.string _ _ (by decide +kernel))) ?_
  have hlast : keyvals (fieldsOf []) = [] := rfl
  rw [hlast, List.append_nil]
  exact renders_option fun owner => .inl (hT.string "owner".toList owner (by decide +kernel))

example : assignment "spa".toList "true".toList = "spa = true".toList := by decide +kernel

/-- The headers of the blocks as they are written, and the path of each. -/
theorem header_lines :
    ("[[sites]]".toList = '[' :: '[' :: (dotted ([] ++ [siteKey]) ++ [']', ']']) ∧
      "[[sites.instances]]".toList = '[' :: '[' :: (dotted ([siteKey] ++ [instancesKey]) ++ [']', ']']) ∧
      "[sites.health]".toList = '[' :: (dotted ([siteKey] ++ [healthKey]) ++ [']']) ∧
      "[[mail.mailboxes]]".toList = '[' :: '[' :: (dotted ([mailKey] ++ [mailboxKey]) ++ [']', ']'])) ∧
      (∀ key ∈ [] ++ [siteKey], IsBare key) ∧ (∀ key ∈ [siteKey] ++ [instancesKey], IsBare key) ∧
      (∀ key ∈ [siteKey] ++ [healthKey], IsBare key) ∧ ∀ key ∈ [mailKey] ++ [mailboxKey], IsBare key := by
  decide +kernel

/-- The keys below the headers. -/
theorem bare_keys :
    (IsBare "node".toList ∧ IsBare "port".toList) ∧
      (IsBare "path".toList ∧ IsBare "interval_secs".toList ∧ IsBare "timeout_secs".toList ∧
        IsBare "unhealthy_after".toList ∧ IsBare "healthy_after".toList) ∧
      (IsBare "address".toList ∧ IsBare "password_hash".toList ∧ IsBare "aliases".toList) ∧
      ["address".toList, "password_hash".toList, "aliases".toList].Nodup := by
  decide +kernel

theorem renders_instance (hT : Lawful T) (i : Instance) :
    List.Forall₂ (Renders T) (instanceLines T i) ((instanceExprs i).map (Expr.under [siteKey])) := by
  obtain ⟨⟨-, hheader, -⟩, -, hpath, -⟩ := header_lines
  obtain ⟨⟨hnode, hport⟩, -⟩ := bare_keys
  have hexprs : (instanceExprs i).map (Expr.under [siteKey]) = [.blank, .arrayHeader [siteKey] instancesKey,
      .keyval [] "node".toList (.string i.node), .keyval [] "port".toList (.integer i.port.toNat)] := rfl
  rw [instanceLines, hheader, hexprs]
  refine .cons (.inl hT.blank_reads) (.cons (.inl (hT.arrayHeader _ _ hpath)) ?_)
  exact .cons (.inl (hT.string _ _ hnode)) (.cons (hT.number_renders hport _) .nil)

theorem renders_instances (hT : Lawful T) (l : List Instance) :
    List.Forall₂ (Renders T) (l.flatMap (instanceLines T)) ((l.flatMap instanceExprs).map (Expr.under [siteKey])) := by
  induction l with
  | nil => exact .nil
  | cons i l ih =>
      rw [List.flatMap_cons, List.flatMap_cons, List.map_append]
      exact List.rel_append (renders_instance hT i) ih

theorem renders_health (hT : Lawful T) (h : Health) :
    List.Forall₂ (Renders T) (healthLines T h) ((healthExprs h).map (Expr.under [siteKey])) := by
  unfold healthLines healthExprs
  by_cases hdefault : h = Health.default
  · rw [if_pos hdefault, if_pos hdefault]
    exact .nil
  · rw [if_neg hdefault, if_neg hdefault]
    obtain ⟨⟨-, -, hheader, -⟩, -, -, hpath, -⟩ := header_lines
    obtain ⟨-, ⟨hroute, hinterval, htimeout, hunhealthy, hhealthy⟩, -⟩ := bare_keys
    have hexprs : (.blank :: .header [] healthKey :: keyvals (healthTable h) : List Expr).map (Expr.under [siteKey])
        = [.blank, .header [siteKey] healthKey, .keyval [] "path".toList (.string h.path),
          .keyval [] "interval_secs".toList (.integer h.intervalSecs.toNat),
          .keyval [] "timeout_secs".toList (.integer h.timeoutSecs.toNat),
          .keyval [] "unhealthy_after".toList (.integer h.unhealthyAfter.toNat),
          .keyval [] "healthy_after".toList (.integer h.healthyAfter.toNat)] := rfl
    rw [hheader, hexprs]
    refine .cons (.inl hT.blank_reads) (.cons (.inl (hT.header _ _ hpath)) ?_)
    refine .cons (.inl (hT.string _ _ hroute)) (.cons (hT.number_renders hinterval _) ?_)
    refine .cons (hT.number_renders htimeout _) (.cons (hT.number_renders hunhealthy _) ?_)
    exact .cons (hT.number_renders hhealthy _) .nil

theorem map_under_keyvals (path : List Str) (t : Table) : (keyvals t).map (Expr.under path) = keyvals t := by
  simp [keyvals, Expr.under]

/-- The expressions of a rendered site. -/
theorem renders_siteBlock (hT : Lawful T) (site : Site) :
    List.Forall₂ (Renders T)
      (["[[sites]]".toList] ++ siteLines T site ++ site.instances.flatMap (instanceLines T) ++
        healthLines T site.health)
      (.arrayHeader [] siteKey :: (siteExprs site).map (Expr.under [siteKey])) := by
  obtain ⟨⟨hheader, -⟩, hpath, -⟩ := header_lines
  rw [hheader, siteExprs, List.map_append, List.map_append, map_under_keyvals, List.append_assoc, List.append_assoc,
    List.singleton_append, List.append_assoc]
  refine .cons (.inl (hT.arrayHeader _ _ hpath)) ?_
  exact List.rel_append (renders_site hT site) (List.rel_append (renders_instances hT _) (renders_health hT _))

/-! ## Mailboxes -/

def mailboxFields (mailbox : Mailbox) : List (Str × Option Value) :=
  [("address".toList, some (.string mailbox.address)), ("password_hash".toList, some (.string mailbox.passwordHash)),
    ("aliases".toList, if mailbox.aliases = [] then none else some (.array (mailbox.aliases.map .string)))]

theorem nodup_mailboxFields (mailbox : Mailbox) : ((mailboxFields mailbox).map Prod.fst).Nodup :=
  bare_keys.2.2.2

theorem readMailbox_fields (mailbox : Mailbox) :
    readMailbox (.table (fieldsOf (mailboxFields mailbox))) = some mailbox := by
  have hnodup := nodup_mailboxFields mailbox
  have haddress : required asStr (Toml.get "address".toList (fieldsOf (mailboxFields mailbox)))
      = some mailbox.address := by
    rw [get_fieldsOf hnodup (.head _)]
    rfl
  have hhash : required asStr (Toml.get "password_hash".toList (fieldsOf (mailboxFields mailbox)))
      = some mailbox.passwordHash := by
    rw [get_fieldsOf hnodup (.tail _ (.head _))]
    rfl
  have haliases : defaulted [] (asList asStr) (Toml.get "aliases".toList (fieldsOf (mailboxFields mailbox)))
      = some mailbox.aliases := by
    rw [get_fieldsOf hnodup (.tail _ (.tail _ (.head _)))]
    exact defaulted_strings mailbox.aliases
  simp only [readMailbox, asTable, haddress, hhash, haliases, Option.bind_eq_bind, Option.bind_some]

theorem renders_mailboxBlock (hT : Lawful T) (mailbox : Mailbox) :
    List.Forall₂ (Renders T)
      (["[[mail.mailboxes]]".toList, assignment "address".toList (T.quote mailbox.address),
        assignment "password_hash".toList (T.quote mailbox.passwordHash)] ++
        lineIf (!mailbox.aliases.isEmpty) (assignment "aliases".toList (quoteArray T mailbox.aliases)))
      (.arrayHeader [mailKey] mailboxKey :: keyvals (fieldsOf (mailboxFields mailbox))) := by
  obtain ⟨⟨-, -, -, hheader⟩, -, -, -, hpath⟩ := header_lines
  obtain ⟨-, -, ⟨haddress, hhash, haliases⟩, -⟩ := bare_keys
  have hlast : keyvals (fieldsOf []) = [] := rfl
  simp only [hheader, mailboxFields, keyvals_fieldsOf_cons, List.cons_append, List.nil_append, hlast, List.append_nil]
  refine .cons (.inl (hT.arrayHeader [mailKey] mailboxKey hpath)) ?_
  refine .cons (.inl (hT.string _ _ haddress)) (.cons (.inl (hT.string _ _ hhash)) ?_)
  exact renders_if (.inl (hT.strings _ _ haliases)) (by cases mailbox.aliases <;> rfl)

end Selfhost.ConfigFile
