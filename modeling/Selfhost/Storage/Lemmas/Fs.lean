import Selfhost.Storage.Fs
import Selfhost.Storage.Lemmas.Measure
import Selfhost.Storage.Lemmas.Segment

/-!
# The directory operations

Each operation either refuses and changes nothing, or leaves behind exactly the view it stands for. The
removal is the exception: it stops at the first name it does not accept.
-/

namespace Selfhost.Storage

open Selfhost.Lib

variable {platform : Platform} {sequence : Nat} {disk : Disk} {here there : Dir} {name newName : Str}

/-! ## Reading -/

theorem openDir_ok {d : Dir} (h : openDir disk here name = .ok d) :
    d = here ++ [name] ∧ disk.IsDir (here ++ [name]) := by
  unfold openDir at h
  split at h
  · cases h
  · split at h
    · cases h
    · cases h
    · rename_i inside hi
      cases h
      exact ⟨rfl, inside, hi⟩

theorem openDir_notADirectory (h : openDir disk here name = .error .notADirectory) :
    ∃ data, disk.get (here ++ [name]) = some (.file data) := by
  unfold openDir at h
  split at h
  · cases h
  · split at h
    · cases h
    · rename_i data hd
      exact ⟨data, hd⟩
    · cases h

theorem openDir_plain (hn : isPlain name) : openDir disk here name =
    match disk.get (here ++ [name]) with
    | none => .error .notFound
    | some (.file _) => .error .notADirectory
    | some (.dir _) => .ok (here ++ [name]) := by
  unfold openDir
  rewrite [hn]
  rfl

theorem walk_ok {names : List Str} {d : Dir} (h : walk disk here names = .ok d) :
    d = here ++ names ∧ (names ≠ [] → disk.IsDir d) := by
  induction names generalizing here with
  | nil =>
      cases h
      exact ⟨(List.append_nil _).symm, fun h => absurd rfl h⟩
  | cons n names ih =>
      simp only [walk] at h
      split at h
      · cases h
      · rename_i next hnext
        obtain ⟨rfl, hdir⟩ := openDir_ok hnext
        obtain ⟨rfl, hrest⟩ := ih h
        refine ⟨by simp, fun _ => ?_⟩
        cases names with
        | nil =>
            rw [List.append_nil]
            exact hdir
        | cons m names => exact hrest (List.cons_ne_nil _ _)

/-- On plain names `occupied` says whether anything is there. -/
theorem occupied_plain (hn : isPlain name) :
    occupied disk here name = .ok (disk.get (here ++ [name])).isSome := by
  unfold occupied stat
  rw [openDir_plain hn]
  cases hg : disk.get (here ++ [name]) with
  | none => rfl
  | some e =>
      cases e with
      | dir inside => rfl
      | file data =>
          simp only [openFile, hg]
          rw [hn]
          rfl

theorem isSameChild_plain (hn : isPlain name) (hn' : isPlain newName) :
    isSameChild disk here name there newName =
      .ok ((disk.get (here ++ [name])).isSome && here ++ [name] = there ++ [newName]) := by
  unfold isSameChild openChildObject
  rw [hn, hn']
  cases hg : disk.get (here ++ [name]) with
  | none => cases disk.get (there ++ [newName]) <;> simp
  | some e =>
      cases hg' : disk.get (there ++ [newName]) with
      | none =>
          have hne : here ++ [name] ≠ there ++ [newName] := by
            intro h
            rw [h, hg'] at hg
            cases hg
          simp [hne]
      | some e' => simp

theorem concat_inj {d d' : Dir} {n n' : Str} : d ++ [n] = d' ++ [n'] ↔ d = d' ∧ n = n' := by
  constructor
  · intro h
    obtain ⟨h₁, h₂⟩ := List.append_inj' h rfl
    exact ⟨h₁, by simpa using h₂⟩
  · rintro ⟨rfl, rfl⟩
    rfl

theorem dirNames_ok {names : List Str} (h : dirNames disk here = .ok names) :
    ∃ inside : Disk, disk.get here = some (.dir inside) ∧ names = inside.names := by
  unfold dirNames at h
  split at h
  · rename_i inside hi
    cases h
    exact ⟨inside, hi, rfl⟩
  · cases h

/-- The names that fold onto a proposed one are those that are there and collide with it. -/
theorem mem_collisions {folding : List Str} {proposed n : Str}
    (h : collisions platform disk here proposed = .ok folding) :
    n ∈ folding ↔ disk.get (here ++ [n]) ≠ none ∧ collides platform n proposed = true := by
  unfold collisions at h
  split at h
  · cases h
  · rename_i names hnames
    cases h
    obtain ⟨inside, hi, rfl⟩ := dirNames_ok hnames
    rw [List.mem_filter, Forest.get_concat hi, ne_eq, Forest.find_eq_none_iff, not_not]

theorem collisions_ok (platform : Platform) {inside : Disk} (h : disk.get here = some (.dir inside))
    (proposed : Str) :
    collisions platform disk here proposed = .ok (inside.names.filter (collides platform · proposed)) := by
  simp only [collisions, dirNames, h]

theorem isDir_of_collisions {folding : List Str} {proposed : Str}
    (h : collisions platform disk here proposed = .ok folding) : disk.IsDir here := by
  unfold collisions at h
  split at h
  · cases h
  · rename_i names hnames
    obtain ⟨inside, hi, -⟩ := dirNames_ok hnames
    exact ⟨inside, hi⟩

/-! ## Removing -/

theorem not_isPlain {n : Str} {refusal : Refusal} (h : validateSegment n = .error refusal) : ¬ isPlain n := by
  simp [isPlain, h]

/-- A removal goes through exactly if it accepts every name on its way. -/
theorem removeEntries_none_iff {f : Disk} : (removeEntries f).2 = none ↔ f.Named isPlain := by
  induction f with
  | nil => exact iff_of_true rfl trivial
  | file n data rest ih =>
      simp only [removeEntries, Forest.Named]
      cases hv : validateSegment n with
      | error refusal => exact iff_of_false (Option.some_ne_none _) fun h => not_isPlain hv h.1
      | ok u => simp only [isPlain, hv, true_and, ih]
  | dir n inside rest ihi ihr =>
      simp only [removeEntries, Forest.Named]
      cases hv : validateSegment n with
      | error refusal => exact iff_of_false (Option.some_ne_none _) fun h => not_isPlain hv h.1
      | ok u =>
          rw [← ihi, ← ihr]
          cases hr : removeEntries inside with
          | mk left refusal => cases refusal <;> simp [isPlain, hv]

/-- The first name a removal comes to is one it refuses. -/
def Refuses : Disk → Prop
  | .nil => False
  | .file n _ _ => ¬ isPlain n
  | .dir n inside _ => ¬ isPlain n ∨ Refuses inside

/-- The removal of an entry is refused before anything is removed. -/
def RefusesEntry : Entry Str FileData → Prop
  | .file _ => False
  | .dir inside => Refuses inside

theorem Refuses.not_named {f : Disk} (h : Refuses f) : ¬ f.Named isPlain := by
  induction f with
  | nil => exact h.elim
  | file n data rest _ => exact fun hn => h hn.1
  | dir n inside rest ihi _ =>
      cases h with
      | inl h => exact fun hn => h hn.1
      | inr h => exact fun hn => ihi h hn.2.1

theorem names_removeEntries (f : Disk) : ∀ n ∈ (removeEntries f).1.names, n ∈ f.names := by
  induction f with
  | nil => exact fun _ h => h
  | file n data rest ih =>
      simp only [removeEntries]
      cases validateSegment n with
      | error refusal => exact fun _ h => h
      | ok u => exact fun m hm => List.mem_cons_of_mem _ (ih m hm)
  | dir n inside rest _ ih =>
      simp only [removeEntries]
      cases validateSegment n with
      | error refusal => exact fun _ h => h
      | ok u =>
          cases hr : removeEntries inside with
          | mk left refusal =>
              cases refusal with
              | none => exact fun m hm => List.mem_cons_of_mem _ (ih m hm)
              | some refusal => exact fun _ h => h

theorem not_view_eq_of_gone {f g : Disk} {n : Str} (hf : n ∈ f.names) (hg : n ∉ g.names) :
    ¬ ∀ p, g.view p = f.view p := by
  intro h
  have hv := h [n]
  rw [Forest.get_eq_none_iff_view.mp ((Forest.get_singleton n g).trans (Forest.find_eq_none_iff.mpr hg)), eq_comm,
    ← Forest.get_eq_none_iff_view, Forest.get_singleton, Forest.find_eq_none_iff] at hv
  exact hv hf

theorem view_dir_cons {n : Str} {inside rest : Disk} (p : Dir) :
    (Forest.dir n inside rest).view (n :: p) = inside.view p := by
  have hfind : (Forest.dir n inside rest).find n = some (.dir inside) := if_pos rfl
  unfold Forest.view
  rw [Forest.get_cons_dir hfind]

theorem view_dir_ne {n m : Str} {inside inside' rest : Disk} (h : m ≠ n) (p : Dir) :
    (Forest.dir n inside rest).view (m :: p) = (Forest.dir n inside' rest).view (m :: p) := by
  unfold Forest.view
  rw [Forest.get_cons_congr]
  simp [Forest.find, h.symm]

/-- A removal that stops has left the directory as it was exactly if it stopped at once. -/
theorem view_removeEntries {f left : Disk} {refusal : Refusal} (h : f.Distinct)
    (hr : removeEntries f = (left, some refusal)) : (∀ p, left.view p = f.view p) ↔ Refuses f := by
  induction f generalizing left refusal with
  | nil => cases hr
  | file n data rest _ =>
      simp only [removeEntries] at hr
      cases hv : validateSegment n with
      | error other =>
          simp only [hv] at hr
          cases hr
          exact iff_of_true (fun _ => rfl) (by simp [Refuses, isPlain, hv])
      | ok u =>
          simp only [hv] at hr
          have hsub := names_removeEntries rest
          rw [hr] at hsub
          exact iff_of_false (not_view_eq_of_gone (List.mem_cons_self) fun hm => h.1 (hsub n hm))
            (by simp [Refuses, isPlain, hv])
  | dir n inside rest ihi _ =>
      simp only [removeEntries] at hr
      cases hv : validateSegment n with
      | error other =>
          simp only [hv] at hr
          cases hr
          exact iff_of_true (fun _ => rfl) (Or.inl (not_isPlain hv))
      | ok u =>
          have hplain : Refuses (.dir n inside rest) ↔ Refuses inside := by simp [Refuses, isPlain, hv]
          rw [hplain]
          cases hi : removeEntries inside with
          | mk left' refusal' =>
              simp only [hv, hi] at hr
              cases refusal' with
              | none =>
                  -- The directory itself went, so the removal stopped further on.
                  have hsub := names_removeEntries rest
                  simp only at hr
                  rw [hr] at hsub
                  have hnone : (removeEntries inside).2 = none := by rw [hi]
                  exact iff_of_false (not_view_eq_of_gone (List.mem_cons_self) fun hm => h.1 (hsub n hm))
                    fun hs => hs.not_named (removeEntries_none_iff.mp hnone)
              | some refusal' =>
                  cases hr
                  rw [← ihi h.2.1 hi]
                  constructor
                  · intro hview p
                    have := hview (n :: p)
                    rwa [view_dir_cons, view_dir_cons] at this
                  · intro hview p
                    cases p with
                    | nil => rfl
                    | cons m p =>
                        by_cases hm : m = n
                        · subst hm
                          rw [view_dir_cons, view_dir_cons]
                          exact hview p
                        · exact view_dir_ne hm p

theorem removeTree_named (hn : isPlain name) {e : Entry Str FileData}
    (he : disk.get (here ++ [name]) = some e) (hp : e.Named isPlain) :
    removeTree disk here name = (.ok (), disk.alter (Forest.erase name) here) := by
  unfold removeTree
  rw [openDir_plain hn, he]
  cases e with
  | file data => rfl
  | dir inside =>
      have hr := removeEntries_none_iff.mpr hp
      cases hr' : removeEntries inside with
      | mk left refusal =>
          rw [hr'] at hr
          simp only at hr
          subst hr
          simp only [he, hr']

/-- A removal that meets a name it refuses fails, with what was left by then. -/
theorem removeTree_unnamed (hn : isPlain name) {inside left : Disk} {refusal : Refusal}
    (he : disk.get (here ++ [name]) = some (.dir inside)) (hr : removeEntries inside = (left, some refusal)) :
    removeTree disk here name = (.error (.refused refusal), disk.alter (fun _ => left) (here ++ [name])) := by
  unfold removeTree
  rw [openDir_plain hn, he]
  simp only [he, hr]

/-- A removal that succeeds has removed the entry and nothing else. -/
theorem removeTree_ok {disk' : Disk} (h : removeTree disk here name = (.ok (), disk')) :
    disk' = disk.alter (Forest.erase name) here := by
  unfold removeTree at h
  split at h
  · cases h
    rfl
  · cases h
  · split at h
    · split at h
      · cases h
        rfl
      · cases h
    · cases h

/-! ## Renaming -/

/-- The view after an entry went from one place to another. -/
def MovedTo (disk disk' : Disk) (source target : Dir) : Prop :=
  ∀ p, disk'.view p =
    if target <+: p then disk.view (source ++ p.drop target.length)
    else if source <+: p then none
    else disk.view p

theorem renameChild_ok {disk' : Disk} (h : renameChild platform disk here name there newName = .ok disk') :
    ∃ e, disk.get (here ++ [name]) = some e ∧ disk.IsDir there ∧ ¬ here ++ [name] <+: there ∧
      platform.device (here.headD []) = platform.device (there.headD []) ∧
      disk' = (((disk.alter (Forest.erase name) here).alter (Forest.erase newName) there).alter
        (Forest.insert newName e) there) := by
  unfold renameChild at h
  split at h
  · rename_i e inside he hi
    split at h
    · cases h
    · rename_i hdev
      split at h
      · cases h
      · rename_i hsub
        cases h
        exact ⟨e, he, ⟨inside, hi⟩, hsub, not_not.mp hdev, rfl⟩
  · cases h

theorem renameChild_eq {e : Entry Str FileData} (newName : Str) (he : disk.get (here ++ [name]) = some e)
    (hd : disk.IsDir there) (hsub : ¬ here ++ [name] <+: there)
    (hdev : platform.device (here.headD []) = platform.device (there.headD [])) :
    renameChild platform disk here name there newName =
      .ok (((disk.alter (Forest.erase name) here).alter (Forest.erase newName) there).alter
        (Forest.insert newName e) there) := by
  obtain ⟨inside, hi⟩ := hd
  unfold renameChild
  rw [he, hi]
  simp only
  rw [if_neg (not_not.mpr hdev), if_neg hsub]

theorem movedTo_renameChild {disk' : Disk}
    (h : renameChild platform disk here name there newName = .ok disk') :
    MovedTo disk disk' (here ++ [name]) (there ++ [newName]) := by
  obtain ⟨e, he, hthere, hsub, -, rfl⟩ := renameChild_ok h
  have hhere : disk.IsDir here := Forest.get_dir_of_append he (List.cons_ne_nil _ _)
  have h₁ := Forest.isDir_erase (k := name) hhere hthere hsub
  have h₂ : ((disk.alter (Forest.erase name) here).alter (Forest.erase newName) there).IsDir there := by
    refine Forest.isDir_erase h₁ h₁ ?_
    intro hp
    have := hp.length_le
    simp only [List.length_append, List.length_singleton] at this
    omega
  intro p
  rw [Forest.view_insert h₂, Forest.view_erase h₁, Forest.view_erase hhere]
  split
  · rw [← Forest.view_eq_of_get he, List.length_append, List.length_singleton]
  · rfl

theorem MovedTo.comp {d₁ d₂ d₃ : Disk} {a b c : Dir} (h₁ : MovedTo d₁ d₂ a b) (h₂ : MovedTo d₂ d₃ b c)
    (hb : d₁.get b = none) : MovedTo d₁ d₃ a c := by
  intro p
  rw [h₂ p]
  split
  · rw [h₁, if_pos (List.prefix_append _ _), List.drop_left]
  · split
    · rename_i hp
      obtain ⟨q, rfl⟩ := hp
      rw [Forest.view_none_of_get hb]
      split <;> rfl
    · rename_i hp
      rw [h₁ p, if_neg hp]

theorem not_prefix_of_concat (d : Dir) (n : Str) : ¬ d ++ [n] <+: d := by
  intro h
  have := h.length_le
  simp only [List.length_append, List.length_singleton] at this
  omega

theorem concat_prefix_concat {d : Dir} {n m : Str} (h : d ++ [n] <+: d ++ [m]) : n = m := by
  have he := h.eq_of_length (by simp)
  exact (concat_inj.mp he).2

theorem temporaryName_not_plain (platform : Platform) (sequence : Nat) :
    ¬ isPlain (platform.temporaryName sequence).val :=
  fun h => (PlainName.of_validateSegment h).no_temp (platform.temporaryName sequence).property

/-- No directory holds the temporary name that a rename would go through next. -/
def StagingFree (platform : Platform) (sequence : Nat) (disk : Disk) : Prop :=
  ∀ d, disk.get (d ++ [(platform.temporaryName sequence).val]) = none

/-- Where all names are plain, none is a temporary one. -/
theorem StagingFree.of_named (h : disk.Named isPlain) : StagingFree platform sequence disk := by
  intro d
  cases hg : disk.get (d ++ [(platform.temporaryName sequence).val]) with
  | none => rfl
  | some e => exact absurd (h.of_get hg) (temporaryName_not_plain platform sequence)

theorem StagingFree.erase (h : StagingFree platform sequence disk) (hd : disk.IsDir here) (name : Str) :
    StagingFree platform sequence (disk.alter (Forest.erase name) here) := by
  intro d
  rw [Forest.get_eq_none_iff_view, Forest.view_erase hd, ← Forest.get_eq_none_iff_view.mp (h d)]
  split
  · rw [Forest.get_eq_none_iff_view.mp (h d)]
  · rfl

/-- One rename, or two in one directory through a temporary name. -/
def Renamed (platform : Platform) (sequence : Nat) (disk disk' : Disk) (here : Dir) (name : Str) (there : Dir)
    (newName : Str) : Prop :=
  renameChild platform disk here name there newName = .ok disk' ∨
    (here = there ∧ ∃ away,
      renameChild platform disk here name here (platform.temporaryName sequence).val = .ok away ∧
      renameChild platform away here (platform.temporaryName sequence).val here newName = .ok disk')

theorem Renamed.movedTo {disk' : Disk} (h : Renamed platform sequence disk disk' here name there newName)
    (hfree : StagingFree platform sequence disk) :
    MovedTo disk disk' (here ++ [name]) (there ++ [newName]) := by
  cases h with
  | inl h => exact movedTo_renameChild h
  | inr h =>
      obtain ⟨rfl, away, hfirst, hsecond⟩ := h
      exact (movedTo_renameChild hfirst).comp (movedTo_renameChild hsecond) (hfree here)

/-- The change of a name's spelling goes through. -/
theorem renameCaseOnly_ok (platform : Platform) (sequence : Nat) {e : Entry Str FileData}
    (he : disk.get (here ++ [name]) = some e) (hne : name ≠ newName) :
    ∃ disk', renameCaseOnly platform sequence disk here name newName = (.ok (), disk') ∧
      Renamed platform sequence disk disk' here name here newName := by
  have hhere : disk.IsDir here := Forest.get_dir_of_append he (List.cons_ne_nil _ _)
  have hfirst := renameChild_eq (platform.temporaryName sequence).val he hhere (not_prefix_of_concat here name)
    (Eq.refl (platform.device (here.headD [])))
  have hm₁ := movedTo_renameChild hfirst
  generalize ((disk.alter (Forest.erase name) here).alter
    (Forest.erase (platform.temporaryName sequence).val) here).alter
    (Forest.insert (platform.temporaryName sequence).val e) here = away at hfirst hm₁
  -- The entry is under its temporary name now, in the same directory.
  have hat : ∃ e', away.get (here ++ [(platform.temporaryName sequence).val]) = some e' := by
    apply Option.ne_none_iff_exists'.mp
    rw [ne_eq, Forest.get_eq_none_iff_view, hm₁, if_pos List.prefix_rfl, List.drop_length, List.append_nil,
      ← Forest.get_eq_none_iff_view, he]
    exact Option.some_ne_none e
  obtain ⟨e', he'⟩ := hat
  have hhere' : away.IsDir here := Forest.get_dir_of_append he' (List.cons_ne_nil _ _)
  have hsecond := renameChild_eq newName he' hhere' (not_prefix_of_concat here _)
    (Eq.refl (platform.device (here.headD [])))
  refine ⟨_, ?_, Or.inr ⟨rfl, away, hfirst, hsecond⟩⟩
  unfold renameCaseOnly
  rw [if_neg hne]
  simp only [hfirst, hsecond]

/-- What can come of `renameInto`: a refusal that changes nothing, or a move. The errors that come out of
the platform's rename are wrapped, so that none of them is a bare `io` one. -/
theorem renameInto_cases (platform : Platform) (sequence : Nat) (disk : Disk) (here there : Dir)
    (hn : isPlain name) (hn' : isPlain newName) :
    (∃ error, renameInto platform sequence disk here name there newName = (.error error, disk) ∧
      ∀ code, error ≠ .io code) ∨
    (∃ disk', renameInto platform sequence disk here name there newName = (.ok (), disk') ∧
      Renamed platform sequence disk disk' here name there newName ∧
      disk.get (here ++ [name]) ≠ none ∧
      platform.device (here.headD []) = platform.device (there.headD []) ∧
      ∀ n, disk.get (there ++ [n]) ≠ none → collides platform n newName = true →
        here = there ∧ n = name) := by
  have hwrap : ∀ error code, WriteError.ofOpen error ≠ .io code := by
    intro error code
    cases error <;> exact WriteError.noConfusion
  unfold renameInto
  rw [hn, hn']
  simp only
  cases hc : collisions platform disk there newName with
  | error error => exact Or.inl ⟨_, rfl, hwrap error⟩
  | ok folding =>
      simp only
      cases hf : folding.filter (fun existing => !(decide (here = there) && existing = name)) with
      | cons existing rest => exact Or.inl ⟨_, rfl, fun _ => WriteError.noConfusion⟩
      | nil =>
          have hother : ∀ n, disk.get (there ++ [n]) ≠ none → collides platform n newName = true →
              here = there ∧ n = name := by
            intro n hn₁ hn₂
            have hmem := (mem_collisions hc).mpr ⟨hn₁, hn₂⟩
            have := List.filter_eq_nil_iff.mp hf n hmem
            simpa using this
          rw [occupied_plain hn']
          simp only
          cases hfs : decide (here = there) && folding.any (· = name) with
          | true =>
              -- The destination folds onto the source, which lies in the same directory.
              simp only [Bool.and_eq_true, decide_eq_true_eq, List.any_eq_true] at hfs
              obtain ⟨rfl, m, hm, rfl⟩ := hfs
              obtain ⟨hsome, hcol⟩ := (mem_collisions hc).mp hm
              have hne : m ≠ newName := by
                simp only [collides, Bool.and_eq_true, decide_eq_true_eq] at hcol
                exact hcol.1
              obtain ⟨e, he⟩ := Option.ne_none_iff_exists'.mp hsome
              rw [if_pos rfl]
              split
              · rw [isSameChild_plain hn hn']
                have hd : here ++ [m] ≠ here ++ [newName] := fun hp => hne (concat_inj.mp hp).2
                rw [decide_eq_false hd, Bool.and_false]
                exact Or.inl ⟨_, rfl, fun _ => WriteError.noConfusion⟩
              · obtain ⟨disk', hr, hmoved⟩ := renameCaseOnly_ok platform sequence he hne
                exact Or.inr ⟨disk', hr, hmoved, hsome, rfl, hother⟩
          | false =>
              rw [if_neg Bool.false_ne_true]
              split
              · exact Or.inl ⟨_, rfl, fun _ => WriteError.noConfusion⟩
              · cases hr : renameChild platform disk here name there newName with
                | error error => exact Or.inl ⟨_, rfl, hwrap error⟩
                | ok disk' =>
                    obtain ⟨e, he, -, -, hdev, -⟩ := renameChild_ok hr
                    refine Or.inr ⟨disk', rfl, Or.inl hr, ?_, hdev, hother⟩
                    rw [he]
                    exact Option.some_ne_none e

/-- A rename succeeds when nothing stands in its way. -/
theorem renameInto_ok (sequence : Nat) (hn : isPlain name) (hn' : isPlain newName)
    {e : Entry Str FileData} (he : disk.get (here ++ [name]) = some e) (hthere : disk.IsDir there)
    (hsub : ¬ here ++ [name] <+: there)
    (hdev : platform.device (here.headD []) = platform.device (there.headD []))
    (hfree : disk.get (there ++ [newName]) = none)
    (hother : ∀ n, disk.get (there ++ [n]) ≠ none → collides platform n newName = true →
      here = there ∧ n = name) :
    ∃ disk', renameInto platform sequence disk here name there newName = (.ok (), disk') := by
  obtain ⟨inside, hi⟩ := hthere
  have hc := collisions_ok platform hi newName
  unfold renameInto
  rw [hn, hn']
  simp only [hc]
  have hnil : (inside.names.filter (collides platform · newName)).filter
      (fun existing => !(decide (here = there) && existing = name)) = [] := by
    rw [List.filter_eq_nil_iff]
    intro n hmem
    obtain ⟨hsome, hcol⟩ := (mem_collisions hc).mp hmem
    obtain ⟨rfl, rfl⟩ := hother n hsome hcol
    simp
  rw [hnil, occupied_plain hn', hfree]
  simp only [Option.isSome_none, Bool.false_eq_true, if_false]
  split
  · rename_i hfs
    simp only [Bool.and_eq_true, decide_eq_true_eq, List.any_eq_true] at hfs
    obtain ⟨rfl, m, hm, rfl⟩ := hfs
    obtain ⟨-, hcol⟩ := (mem_collisions hc).mp hm
    simp only [collides, Bool.and_eq_true, decide_eq_true_eq] at hcol
    obtain ⟨disk', hr, -⟩ := renameCaseOnly_ok platform sequence he hcol.1
    exact ⟨disk', hr⟩
  · rw [renameChild_eq newName he ⟨inside, hi⟩ hsub hdev]
    exact ⟨_, rfl⟩

end Selfhost.Storage
