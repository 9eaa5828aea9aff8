import Selfhost.Storage.Lemmas.Fs
import Selfhost.Storage.Volume

/-!
# The ends of a transfer

What a transfer knows once its checks have passed, and what making room at the destination does.
-/

namespace Selfhost.Storage

open Selfhost.Lib

/-- Where a path of a share lies on the disk. -/
def Volume.locate (vol : Volume) (path : RelativePath) : Dir := vol.id :: path.names

def Ends.source (ends : Ends) : Dir := ends.here ++ [ends.name]

def Ends.target (ends : Ends) : Dir := ends.there ++ [ends.newName]

variable {platform : Platform} {disk : Disk} {home into : Volume} {want : Want}
  {source target : RelativePath} {ends : Ends} {replace : Bool}

theorem parentOf_ok {vol : Volume} {path : RelativePath} {d : Dir} (h : vol.parentOf disk path = .ok d) :
    d = vol.id :: path.parent.names ∧ (path.parent.names ≠ [] → disk.IsDir d) := by
  unfold Volume.parentOf at h
  split at h
  · rename_i d' hw
    cases h
    exact walk_ok hw
  · cases h
  · cases h
  · cases h

/-- What the checks of `transferEnds` establish. -/
structure Ends.Checked (disk : Disk) (home into : Volume) (source target : RelativePath) (ends : Ends) :
    Prop where
  here_eq : ends.here = home.id :: source.parent.names
  there_eq : ends.there = into.id :: target.parent.names
  source_eq : ends.source = home.locate source
  target_eq : ends.target = into.locate target
  plain : isPlain ends.name
  plain' : isPlain ends.newName
  there_dir : target.parent.names ≠ [] → disk.IsDir ends.there

theorem transferEnds_ok (h : transferEnds disk home into want source target = .ok ends) :
    ends.Checked disk home into source target := by
  unfold transferEnds at h
  split at h
  · cases h
  · cases h
  · split at h
    · cases h
    · cases h
    · rename_i name newName hname hnew
      split at h
      · cases h
      · rename_i here hw
        split at h
        · cases h
        · rename_i there hp
          cases h
          obtain ⟨rfl, -⟩ := walk_ok hw
          obtain ⟨rfl, hdir⟩ := parentOf_ok hp
          exact
            { here_eq := rfl
              there_eq := rfl
              source_eq := by
                rw [Ends.source, Volume.locate, RelativePath.names_eq hname]
                rfl
              target_eq := by
                rw [Ends.target, Volume.locate, RelativePath.names_eq hnew]
                rfl
              plain := RelativePath.validate_fileName hname
              plain' := RelativePath.validate_fileName hnew
              there_dir := hdir }

/-- A survey that passes has found the source, and knows that the destination is neither the source nor
inside it. On a disk that does not fold names there are no respellings. -/
theorem survey_ok {transfer : Transfer} (hc : ends.Checked disk home into source target)
    (h : survey disk ends.here ends.name ends.there ends.newName = .ok transfer) :
    transfer = .onto ∧ disk.get ends.source ≠ none ∧ ends.source ≠ ends.target ∧
      ¬ ends.source <+: ends.there := by
  have hsame : ∀ hne : ends.source ≠ ends.target,
      surveySame disk ends.here ends.name ends.there ends.newName = .ok transfer → transfer = .onto := by
    intro hne h'
    unfold surveySame at h'
    rw [isSameChild_plain hc.plain hc.plain'] at h'
    have : decide (ends.here ++ [ends.name] = ends.there ++ [ends.newName]) = false := decide_eq_false hne
    rw [this, Bool.and_false] at h'
    cases h'
    rfl
  unfold survey at h
  split at h
  · cases h
  · rename_i hne
    have hne' : ends.source ≠ ends.target := fun he => hne (concat_inj.mp he)
    split at h
    · rename_i src hopen
      obtain ⟨rfl, inside, hi⟩ := openDir_ok hopen
      split at h
      · cases h
      · rename_i hsub
        refine ⟨hsame hne' h, ?_, hne', hsub⟩
        rw [Ends.source, hi]
        exact Option.some_ne_none _
    · rename_i hopen
      obtain ⟨data, hdata⟩ := openDir_notADirectory hopen
      refine ⟨hsame hne' h, ?_, hne', ?_⟩
      · rw [Ends.source, hdata]
        exact Option.some_ne_none _
      · -- A file has no directory inside it.
        intro hsub
        have hlen := hsub.length_le
        have hthere : disk.IsDir ends.there := by
          apply hc.there_dir
          intro hnil
          rw [hc.there_eq, hnil, Ends.source, hc.here_eq] at hlen
          simp at hlen
        obtain ⟨inside, hi⟩ := hthere
        obtain ⟨q, hq⟩ := hsub
        have hfile : disk.get ends.source = some (.file data) := hdata
        have hdir : disk.IsDir ends.source := by
          cases q with
          | nil =>
              rw [List.append_nil] at hq
              rw [hq]
              exact ⟨inside, hi⟩
          | cons k q =>
              rw [← hq] at hi
              exact Forest.get_dir_of_append hi (List.cons_ne_nil _ _)
        obtain ⟨inside', hi'⟩ := hdir
        rw [hfile] at hi'
        cases hi'
    · cases h

/-- All the checks a transfer makes before anything is touched have passed. -/
structure Surveyed (disk : Disk) (home into : Volume) (want : Want) (source target : RelativePath)
    (ends : Ends) : Prop where
  found : transferEnds disk home into want source target = .ok ends
  onto : survey disk ends.here ends.name ends.there ends.newName = .ok .onto

/-- A transfer is refused by one of its checks, or has passed them all. -/
theorem surveyed_cases (disk : Disk) (home into : Volume) (want : Want) (source target : RelativePath) :
    ((∃ failure, transferEnds disk home into want source target = .error failure) ∨
      ∃ ends failure, transferEnds disk home into want source target = .ok ends ∧
        survey disk ends.here ends.name ends.there ends.newName = .error failure) ∧
      (∀ ends, ¬ Surveyed disk home into want source target ends) ∨
    ∃ ends, Surveyed disk home into want source target ends := by
  cases hends : transferEnds disk home into want source target with
  | error failure =>
      refine Or.inl ⟨Or.inl ⟨failure, rfl⟩, fun ends hs => ?_⟩
      rw [hs.found] at hends
      cases hends
  | ok ends =>
      cases hsurvey : survey disk ends.here ends.name ends.there ends.newName with
      | error failure =>
          refine Or.inl ⟨Or.inr ⟨ends, failure, rfl, hsurvey⟩, fun ends' hs => ?_⟩
          rw [hs.found] at hends
          cases hends
          rw [hs.onto] at hsurvey
          cases hsurvey
      | ok transfer =>
          obtain ⟨rfl, -⟩ := survey_ok (transferEnds_ok hends) hsurvey
          exact Or.inr ⟨ends, hends, hsurvey⟩

theorem Surveyed.checked (h : Surveyed disk home into want source target ends) :
    ends.Checked disk home into source target :=
  transferEnds_ok h.found

/-- Making room at a destination: nothing, a refusal, or a removal. -/
theorem clearDestination_plain {there : Dir} {newName : Str} (hn : isPlain newName) :
    clearDestination disk there newName replace =
      match disk.get (there ++ [newName]), replace with
      | none, _ => (.ok false, disk)
      | some _, false => (.error .occupied, disk)
      | some _, true =>
          match removeTree disk there newName with
          | (.error error, disk) => (.error (.ofWrite error), disk)
          | (.ok (), disk) => (.ok true, disk) := by
  unfold clearDestination
  rw [occupied_plain hn]
  cases hg : disk.get (there ++ [newName]) with
  | none => rfl
  | some e => cases replace <;> rfl

theorem clearDestination_named {there : Dir} {newName : Str} (hn : isPlain newName) {e : Entry Str FileData}
    (he : disk.get (there ++ [newName]) = some e) (hp : e.Named isPlain) :
    clearDestination disk there newName true = (.ok true, disk.alter (Forest.erase newName) there) := by
  rw [clearDestination_plain hn, he]
  simp only [removeTree_named hn he hp]

/-- After a clearing that succeeds nothing is at the destination, and nothing else has changed. -/
theorem clearDestination_ok {there : Dir} {newName : Str} (hn : isPlain newName) {existed : Bool}
    {disk' : Disk} (h : clearDestination disk there newName replace = (.ok existed, disk')) :
    disk' = disk.alter (Forest.erase newName) there ∧
      (replace = true ∨ disk.get (there ++ [newName]) = none) := by
  rw [clearDestination_plain hn] at h
  split at h
  · rename_i hg
    cases h
    exact ⟨(Forest.alter_erase_of_none hg).symm, Or.inr hg⟩
  · cases h
  · split at h
    · cases h
    · rename_i hr
      cases h
      exact ⟨removeTree_ok hr, Or.inl rfl⟩

/-- A clearing that meets a name it refuses fails. It has changed nothing exactly if that was the first. -/
theorem clearDestination_unnamed (hd : disk.Distinct) {there : Dir} {newName : Str} (hn : isPlain newName)
    {e : Entry Str FileData} (he : disk.get (there ++ [newName]) = some e) (hp : ¬ e.Named isPlain) :
    ∃ failure disk', clearDestination disk there newName true = (.error failure, disk') ∧
      ((∀ p, disk'.view p = disk.view p) ↔ RefusesEntry e) := by
  cases e with
  | file data => exact absurd trivial hp
  | dir inside =>
      cases hr : removeEntries inside with
      | mk left refusal =>
          cases refusal with
          | none => exact absurd (removeEntries_none_iff.mp (by rw [hr])) hp
          | some refusal =>
              refine ⟨.ofWrite (.refused refusal), disk.alter (fun _ => left) (there ++ [newName]), ?_, ?_⟩
              · rw [clearDestination_plain hn, he]
                simp only [removeTree_unnamed hn he hr]
              · rw [RefusesEntry, ← view_removeEntries (hd.get he) hr]
                have hview := Forest.view_alter (fun _ => left) he
                constructor
                · intro h q
                  have := h (there ++ [newName] ++ q)
                  rwa [hview, if_pos (List.prefix_append _ _), Forest.drop_append_concat,
                    Forest.view_eq_of_get he] at this
                · intro h p
                  rw [hview]
                  split
                  · rename_i hp
                    obtain ⟨q, rfl⟩ := hp
                    rw [Forest.drop_append_concat, Forest.view_eq_of_get he]
                    exact h q
                  · rfl

/-! ## Moves -/

theorem Ends.Checked.there_ne (h : ends.Checked disk home into source target) : ends.there ≠ [] := by
  rw [h.there_eq]
  exact List.cons_ne_nil _ _

theorem not_prefix_concat {p d : Dir} {n : Str} (hne : p ≠ d ++ [n]) (h : ¬ p <+: d) : ¬ p <+: d ++ [n] := by
  rw [List.prefix_concat_iff]
  rintro (he | hp)
  · exact hne he
  · exact h hp

/-- Two places of which neither lies in the other have nothing below them in common. -/
theorem not_prefix_append {p q r : Dir} (h : ¬ p <+: q) (h' : ¬ q <+: p) : ¬ p <+: q ++ r := by
  intro hp
  cases List.prefix_or_prefix_of_prefix hp (List.prefix_append q r) with
  | inl hpq => exact h hpq
  | inr hqp => exact h' hqp

/-- Nothing in the way of a rename once the destination has been cleared. -/
structure RenameClear (platform : Platform) (disk : Disk) (ends : Ends) : Prop where
  outside : ¬ ends.target <+: ends.source
  device : platform.device (ends.here.headD []) = platform.device (ends.there.headD [])
  spelling : ∀ n, disk.get (ends.there ++ [n]) ≠ none → collides platform n ends.newName = true →
    ends.here = ends.there ∧ n = ends.name

theorem collides_ne {n m : Str} (h : collides platform n m = true) : n ≠ m := by
  simp only [collides, Bool.and_eq_true, decide_eq_true_eq] at h
  exact h.1

/-- Clearing a name leaves its neighbours alone. -/
theorem get_beside_erase {d : Dir} {n k : Str} (hne : n ≠ k) :
    (disk.alter (Forest.erase k) d).get (d ++ [n]) = disk.get (d ++ [n]) :=
  Forest.get_alter_of_disjoint (Forest.onlyAt_erase k) (not_prefix_of_concat d n)
    (fun h => hne (concat_prefix_concat h).symm) disk

/-- The source and the destination of a surveyed transfer: neither is the other, and the destination is not
inside the source. -/
theorem Surveyed.source_not_prefix_of (h : Surveyed disk home into want source target ends) :
    ¬ ends.source <+: ends.target := by
  obtain ⟨-, -, hne, hsub⟩ := survey_ok h.checked h.onto
  exact not_prefix_concat hne hsub

theorem Surveyed.source_get (h : Surveyed disk home into want source target ends) :
    disk.get ends.source ≠ none :=
  (survey_ok h.checked h.onto).2.1

theorem performMove_of_error {w : World} {existed : Bool} {error : WriteError}
    (h : renameInto platform w.sequence w.disk ends.here ends.name ends.there ends.newName =
      (.error error, w.disk)) (hio : ∀ code, error ≠ .io code) :
    performMove platform home into w ends existed =
      (.error (.ofWrite error), { w with sequence := w.sequence + 1 }) := by
  unfold performMove
  rw [h]
  cases error with
  | io code => exact absurd rfl (hio code)
  | refused refusal => rfl
  | nameTaken => rfl
  | collides existing => rfl
  | openFailed error => rfl

theorem performMove_of_ok {w : World} {existed : Bool} {disk' : Disk}
    (h : renameInto platform w.sequence w.disk ends.here ends.name ends.there ends.newName =
      (.ok (), disk')) :
    performMove platform home into w ends existed =
      moved home into existed { w with disk := disk', sequence := w.sequence + 1 } := by
  unfold performMove
  rw [h]

/-- A transfer that fails has changed nothing; one that succeeds did what it was asked to do with a source
that was there. -/
def Kept (did : Disk → Disk → Dir → Dir → Prop) (disk : Disk) (out : Outcome Landing) (source target : Dir) :
    Prop :=
  match out.1 with
  | .error _ => ∀ p, out.2.disk.view p = disk.view p
  | .ok _ => disk.view source ≠ none ∧ did disk out.2.disk source target

/-- A rename into a free place is all or nothing. -/
theorem performMove_kept {w : World} {existed : Bool} (h : StagingFree platform w.sequence w.disk)
    (hc : ends.Checked disk home into source target) :
    Kept MovedTo w.disk (performMove platform home into w ends existed) ends.source ends.target := by
  cases renameInto_cases platform w.sequence w.disk ends.here ends.there hc.plain hc.plain' with
  | inl herr =>
      obtain ⟨error, he, hio⟩ := herr
      rw [performMove_of_error he hio]
      exact fun _ => rfl
  | inr hok =>
      obtain ⟨disk', he, hmoved, hsome, -, -⟩ := hok
      rw [performMove_of_ok he]
      exact ⟨fun hv => hsome (Forest.get_eq_none_iff_view.mpr hv), hmoved.movedTo h⟩

/-- A move is a refusal that changes nothing, or what `performMove` does once there is room. -/
theorem moveTo_cases (platform : Platform) (home into : Volume) (source target : RelativePath)
    (replace : Bool) (w : World) :
    ((∃ failure, home.moveTo platform w source into target replace = (.error failure, w)) ∧
      ∀ ends, ¬ Surveyed w.disk home into .write source target ends) ∨
    ∃ ends, Surveyed w.disk home into .write source target ends ∧
      home.moveTo platform w source into target replace =
        match clearDestination w.disk ends.there ends.newName replace with
        | (.error failure, disk) => (.error failure, { w with disk })
        | (.ok existed, disk) => performMove platform home into { w with disk } ends existed := by
  unfold Volume.moveTo
  obtain ⟨⟨failure, hends⟩ | ⟨ends, failure, hends, hsurvey⟩, hnot⟩ | ⟨ends, hs⟩ :=
    surveyed_cases w.disk home into .write source target
  · rw [hends]
    exact Or.inl ⟨⟨failure, rfl⟩, hnot⟩
  · simp only [hends, hsurvey]
    exact Or.inl ⟨⟨failure, rfl⟩, hnot⟩
  · refine Or.inr ⟨ends, hs, ?_⟩
    simp only [hs.found, hs.onto]
    rfl

theorem isDir_there (hocc : disk.get ends.target ≠ none) : disk.IsDir ends.there := by
  obtain ⟨e, he⟩ := Option.ne_none_iff_exists'.mp hocc
  exact Forest.get_dir_of_append he (List.cons_ne_nil _ _)

theorem view_cleared (hd : disk.IsDir ends.there) (p : Dir) :
    (disk.alter (Forest.erase ends.newName) ends.there).view p =
      if ends.target <+: p then none else disk.view p :=
  Forest.view_erase hd p

/-- What a rename after the clearing did, seen from before it. -/
theorem MovedTo.of_cleared {disk' : Disk} (hd : disk.IsDir ends.there)
    (hout : ¬ ends.target <+: ends.source) (hin : ¬ ends.source <+: ends.target)
    (h : MovedTo (disk.alter (Forest.erase ends.newName) ends.there) disk' ends.source ends.target) :
    MovedTo disk disk' ends.source ends.target := by
  intro p
  rw [h p]
  split
  · rw [view_cleared hd, if_neg (not_prefix_append hout hin)]
  · rename_i hp
    split
    · rfl
    · rw [view_cleared hd, if_neg hp]

/-- When the destination is cleared first, a move is all or nothing exactly if nothing then stands in the
way of the rename. -/
theorem performMove_cleared {w : World} (h : StagingFree platform w.sequence w.disk)
    (hs : Surveyed w.disk home into want source target ends) (hocc : w.disk.get ends.target ≠ none) :
    Kept MovedTo w.disk (performMove platform home into
        { w with disk := w.disk.alter (Forest.erase ends.newName) ends.there } ends true)
        ends.source ends.target ↔
      RenameClear platform w.disk ends := by
  have hc := hs.checked
  have hd := isDir_there hocc
  have hin := hs.source_not_prefix_of
  have hstaging := h.erase hd ends.newName
  have hview := view_cleared hd
  generalize hcl : w.disk.alter (Forest.erase ends.newName) ends.there = cleared at hstaging hview
  have hbeside : ∀ n, collides platform n ends.newName = true →
      cleared.get (ends.there ++ [n]) = w.disk.get (ends.there ++ [n]) := by
    intro n hn
    rw [← hcl]
    exact get_beside_erase (collides_ne hn)
  have hfree : cleared.get ends.target = none := by
    rw [Forest.get_eq_none_iff_view, hview, if_pos List.prefix_rfl]
  have hstill : ¬ ends.target <+: ends.source → cleared.get ends.source ≠ none := by
    intro hout hnone
    rw [Forest.get_eq_none_iff_view, hview, if_neg hout, ← Forest.get_eq_none_iff_view] at hnone
    exact hs.source_get hnone
  cases renameInto_cases platform w.sequence cleared ends.here ends.there hc.plain hc.plain' with
  | inl herr =>
      obtain ⟨error, he, hio⟩ := herr
      rw [performMove_of_error (w := { w with disk := cleared }) he hio]
      constructor
      · intro hk
        have := hk ends.target
        rw [hview, if_pos List.prefix_rfl] at this
        exact absurd (Forest.get_eq_none_iff_view.mpr this.symm) hocc
      · -- Nothing stands in the way, so the rename cannot have failed.
        intro hclear
        obtain ⟨e, hsome⟩ := Option.ne_none_iff_exists'.mp (hstill hclear.outside)
        have hdir : cleared.IsDir ends.there := by
          rw [← hcl]
          exact Forest.isDir_erase hd hd (not_prefix_of_concat _ _)
        obtain ⟨disk', hok⟩ := renameInto_ok w.sequence hc.plain hc.plain' hsome hdir
          (survey_ok hc hs.onto).2.2.2 hclear.device hfree
          (fun n hn hcol => hclear.spelling n (hbeside n hcol ▸ hn) hcol)
        rw [he] at hok
        cases hok
  | inr hok =>
      obtain ⟨disk', he, hmoved, hsome, hdev, hother⟩ := hok
      rw [performMove_of_ok (w := { w with disk := cleared }) he]
      have hout : ¬ ends.target <+: ends.source := by
        intro hp
        apply hsome
        rw [Forest.get_eq_none_iff_view, hview]
        exact if_pos hp
      refine iff_of_true ⟨fun hv => hs.source_get (Forest.get_eq_none_iff_view.mpr hv), ?_⟩ ⟨hout, hdev, ?_⟩
      · exact MovedTo.of_cleared hd hout hin (by rw [hcl]; exact hmoved.movedTo hstaging)
      · intro n hn hcol
        rw [← hbeside n hcol] at hn
        exact hother n hn hcol

/-- Where a move is safe: what it clears away, if anything, is cleared for a rename that succeeds, or the
clearing is refused before it has begun. -/
def MoveSafe (platform : Platform) (disk : Disk) (home into : Volume) (source target : RelativePath)
    (replace : Bool) : Prop :=
  ∀ ends, Surveyed disk home into .write source target ends → replace = true →
    ∀ e, disk.get ends.target = some e →
      RefusesEntry e ∨ (e.Named isPlain ∧ RenameClear platform disk ends)

theorem RefusesEntry.not_named {e : Entry Str FileData} (h : RefusesEntry e) : ¬ e.Named isPlain := by
  cases e with
  | file data => exact h.elim
  | dir inside => exact Refuses.not_named h

theorem moveTo_kept_iff {w : World} (hd : w.disk.Distinct) (h : StagingFree platform w.sequence w.disk) :
    Kept MovedTo w.disk (home.moveTo platform w source into target replace) (home.locate source)
        (into.locate target) ↔
      MoveSafe platform w.disk home into source target replace := by
  cases moveTo_cases platform home into source target replace w with
  | inl herr =>
      obtain ⟨⟨failure, he⟩, hnot⟩ := herr
      rw [he]
      exact iff_of_true (fun _ => rfl) (fun ends hs => absurd hs (hnot ends))
  | inr hok =>
      obtain ⟨ends, hs, he⟩ := hok
      have hc := hs.checked
      have hsafe : MoveSafe platform w.disk home into source target replace ↔
          (replace = true → ∀ e, w.disk.get ends.target = some e →
            RefusesEntry e ∨ (e.Named isPlain ∧ RenameClear platform w.disk ends)) := by
        constructor
        · exact fun h => h ends hs
        · intro h ends' hs'
          cases Except.ok.inj (hs'.found.symm.trans hs.found)
          exact h
      rw [he, hsafe, ← hc.source_eq, ← hc.target_eq]
      cases hg : w.disk.get ends.target with
      | none =>
          rw [clearDestination_plain hc.plain', show w.disk.get (ends.there ++ [ends.newName]) = none from hg]
          exact iff_of_true (performMove_kept h hc) (fun _ e he => by cases he)
      | some e =>
          cases replace with
          | false =>
              rw [clearDestination_plain hc.plain',
                show w.disk.get (ends.there ++ [ends.newName]) = some e from hg]
              exact iff_of_true (fun _ => rfl) (fun hr => absurd hr Bool.false_ne_true)
          | true =>
              by_cases hp : e.Named isPlain
              · rw [clearDestination_named hc.plain' hg hp,
                  performMove_cleared h hs (by rw [hg]; exact Option.some_ne_none e)]
                constructor
                · rintro hclear - e' ⟨⟩
                  exact Or.inr ⟨hp, hclear⟩
                · intro hsafe
                  cases hsafe rfl e rfl with
                  | inl hr => exact absurd hp hr.not_named
                  | inr hclear => exact hclear.2
              · obtain ⟨failure, disk', hclear, hview⟩ := clearDestination_unnamed hd hc.plain' hg hp
                rw [hclear]
                refine hview.trans ?_
                constructor
                · rintro hr - e' ⟨⟩
                  exact Or.inl hr
                · intro hsafe
                  cases hsafe rfl e rfl with
                  | inl hr => exact hr
                  | inr hclear => exact absurd hclear.1 hp

end Selfhost.Storage
