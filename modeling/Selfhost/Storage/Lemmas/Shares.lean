import Selfhost.Storage.Lemmas.Copy
import Selfhost.Storage.Shares

/-!
# What each operation does to the size of a share

While one operation runs into a share all of whose files can be measured, the size it goes by is never less
than what the share holds. Removals take away, and a rename adds what it moves to the share it moves it to.
-/

namespace Selfhost.Storage

open Selfhost.Lib

variable {platform : Platform} {vol : Volume} {w w' : World} {share : Str} {disk : Disk}

/-! ## The files of one share -/

theorem contents_alter_ne {id other : Str} (h : other ≠ id) (g : Disk → Disk) (d : List Str) (disk : Disk) :
    contents (disk.alter g (id :: d)) other = contents disk other := by
  unfold contents
  rw [Forest.alter, Forest.find_mapDir_ne h]

/-- A change below the root of a share changes its files, unless there is no such share. -/
theorem contents_alter (g : Disk → Disk) (id : Str) (d : List Str) (disk : Disk) :
    contents (disk.alter g (id :: d)) id = (contents disk id).alter g d ∨
      contents (disk.alter g (id :: d)) id = contents disk id := by
  unfold contents
  rw [Forest.alter]
  by_cases h : ∃ inside, disk.find id = some (.dir inside)
  · obtain ⟨inside, hi⟩ := h
    rw [Forest.find_mapDir_self hi, hi]
    exact Or.inl rfl
  · rw [Forest.find_mapDir_of_not_dir fun inside hi => h ⟨inside, hi⟩]
    exact Or.inr rfl

theorem shrinks_contents {g : Disk → Disk} (hg : ∀ f, Shrinks f (g f)) {d : Dir} (hd : d ≠ []) (disk : Disk)
    (share : Str) : Shrinks (contents disk share) (contents (disk.alter g d) share) := by
  obtain ⟨id, d, rfl⟩ := List.exists_cons_of_ne_nil hd
  by_cases h : share = id
  · subst h
    cases contents_alter g share d disk with
    | inl he =>
        rw [he]
        exact shrinks_alter hg d _
    | inr he =>
        rw [he]
        exact Shrinks.refl _
  · rw [contents_alter_ne h]
    exact Shrinks.refl _

/-- A file that lands in a share adds its size at most. -/
theorem contents_put_file (id : Str) (d : List Str) (name : Str) (data : FileData) (disk : Disk) :
    heldBytes (contents (disk.alter (Forest.insert name (.file data)) (id :: d)) id) ≤
      heldBytes (contents disk id) + data.size := by
  cases contents_alter (Forest.insert name (.file data)) id d disk with
  | inl he =>
      rw [he]
      refine Forest.total_alter_le FileData.size (fun f => ?_) d _
      rw [Forest.total_insert, Nat.add_comm]
      exact Nat.le_refl _
  | inr he =>
      rw [he]
      exact Nat.le_add_right _ _

/-- A file under a name that is not plain is not counted. -/
theorem counted_put_stray (id : Str) (d : List Str) {name : Str} (hn : ¬ isPlain name) (data : FileData)
    (disk : Disk) :
    counted maxTreeDepth (contents (disk.alter (Forest.insert name (.file data)) (id :: d)) id) ≤
      counted maxTreeDepth (contents disk id) := by
  cases contents_alter (Forest.insert name (.file data)) id d disk with
  | inl he =>
      rw [he]
      refine counted_alter_le (c := 0) (fun levels f => ?_) d maxTreeDepth _
      rw [Forest.insert, counted, if_neg hn, Nat.zero_add, Nat.add_zero]
  | inr he => rw [he]

/-! ## Within one operation -/

/-- The size that `usage` finds is not too small. -/
structure Watched (w : World) (share : Str) : Prop where
  known : ∀ e, w.counts.entry share = some e → Fresh w.now e → min (w.held share) u64Max ≤ e.usedBytes.toNat
  unknown : w.counts.used w.now share = none → hidden maxTreeDepth (contents w.disk share) = 0

theorem Watched.sized {u : UInt64} {counts' : Counts} (h : Watched w vol.id) (hs : vol.Sized w u counts') :
    min (w.held vol.id) u64Max ≤ u.toNat := by
  cases hs with
  | inl hs =>
      obtain ⟨e, he, hf, rfl⟩ := used_eq_some.mp hs.1
      exact h.known e he hf
  | inr hs =>
      obtain ⟨hnone, hm, -⟩ := hs
      have hhidden := h.unknown hnone
      unfold measure at hm
      rw [Volume.root, Forest.get_singleton] at hm
      unfold World.held
      unfold contents at hhidden ⊢
      split at hm
      · rename_i inside hi
        simp only [hi] at hhidden ⊢
        cases hm
        have := counted_add_hidden maxTreeDepth inside
        rw [toNat_measureWithin, UInt64.toNat_zero, Nat.zero_add]
        omega
      · cases hm

/-- What an operation into a share may do to it and to the others. -/
structure Filled (vol : Volume) (w w' : World) : Prop where
  watched : Watched w' vol.id
  quota : ∀ q, vol.limits.quotaBytes = some q → w.held vol.id ≤ q.toNat → w'.held vol.id ≤ q.toNat
  now : w'.now = w.now
  unique : w.counts.Unique → w'.counts.Unique
  elsewhere : ∀ other, other ≠ vol.id →
    contents w'.disk other = contents w.disk other ∧ w'.counts.entry other = w.counts.entry other

theorem Filled.refl (h : Watched w vol.id) : Filled vol w w :=
  ⟨h, fun _ _ hq => hq, rfl, fun hu => hu, fun _ _ => ⟨rfl, rfl⟩⟩

theorem Filled.trans {w₁ w₂ w₃ : World} (h₁ : Filled vol w₁ w₂) (h₂ : Filled vol w₂ w₃) : Filled vol w₁ w₃ where
  watched := h₂.watched
  quota := fun q hq hle => h₂.quota q hq (h₁.quota q hq hle)
  now := h₂.now.trans h₁.now
  unique := fun hu => h₂.unique (h₁.unique hu)
  elsewhere := fun other hne =>
    ⟨(h₂.elsewhere other hne).1.trans (h₁.elsewhere other hne).1,
      (h₂.elsewhere other hne).2.trans (h₁.elsewhere other hne).2⟩

/-- The counters moved, and no more landed than was credited and fitted under the quota. -/
theorem Filled.of_credited {u : UInt64} (landed : UInt64) {counts' : Counts} {disk' : Disk} {n : Nat}
    (hu : min (w.held vol.id) u64Max ≤ u.toNat)
    (hc : Credited w.now vol.id (saturatingAdd u landed) w.counts counts')
    (hheld : heldBytes (contents disk' vol.id) ≤ w.held vol.id + landed.toNat)
    (hquota : ∀ q, vol.limits.quotaBytes = some q → w.held vol.id ≤ q.toNat →
      heldBytes (contents disk' vol.id) ≤ q.toNat)
    (hother : ∀ other, other ≠ vol.id → contents disk' other = contents w.disk other) :
    Filled vol w { w with disk := disk', counts := counts', sequence := n } where
  watched := by
    obtain ⟨e, he, hf, hused, -⟩ := hc.entry
    refine ⟨?_, ?_⟩
    · intro e' he' _
      cases Option.some.inj (he.symm.trans he')
      have hm : heldBytes (contents disk' vol.id) ≤ w.held vol.id + landed.toNat := hheld
      rw [hused, toNat_saturatingAdd]
      unfold World.held at hm hu ⊢
      simp only
      omega
    · intro hnone
      have := used_eq_some.mpr ⟨e, he, hf, rfl⟩
      simp only at hnone
      rw [hnone] at this
      cases this
  quota := hquota
  now := rfl
  unique := hc.unique
  elsewhere := fun other hne => ⟨hother other hne, hc.elsewhere other hne⟩

/-! ## Uploads -/

theorem held_add_le_quota {counts' : Counts} {u wanted q : UInt64} (hq : vol.limits.quotaBytes = some q)
    (ha : vol.Admits platform disk counts' u wanted) (hu : min (w.held vol.id) u64Max ≤ u.toNat)
    (hle : w.held vol.id ≤ q.toNat) : w.held vol.id + wanted.toNat ≤ q.toNat := by
  have hadmits := (admit_allowed_iff.mp ha).2.2.1 q hq
  have hmax := toNat_le_u64Max q
  have hmax' := toNat_le_u64Max u
  simp only [Counts.owed, toNat_saturatingAdd] at hadmits
  omega

/-- What is left of an operation into a share once it is over. -/
structure Grown (vol : Volume) (w w' : World) : Prop where
  cached : ∀ e, w'.counts.entry vol.id = some e → Fresh w'.now e →
    min (counted maxTreeDepth (contents w'.disk vol.id)) u64Max ≤ e.usedBytes.toNat
  quota : ∀ q, vol.limits.quotaBytes = some q → w.held vol.id ≤ q.toNat → w'.held vol.id ≤ q.toNat
  now : w'.now = w.now
  unique : w.counts.Unique → w'.counts.Unique
  elsewhere : ∀ other, other ≠ vol.id →
    contents w'.disk other = contents w.disk other ∧ w'.counts.entry other = w.counts.entry other

theorem Filled.grown (h : Filled vol w w') : Grown vol w w' where
  cached := by
    intro e he hf
    have hknown := h.watched.known e he hf
    have := counted_add_hidden maxTreeDepth (contents w'.disk vol.id)
    unfold World.held at hknown
    omega
  quota := h.quota
  now := h.now
  unique := h.unique
  elsewhere := h.elsewhere

/-- `Volume::receive` and what follows it, for an upload and for a file that is copied. -/
def receive (platform : Platform) (vol : Volume) (w : World) (declared : UInt64) (here : Dir) (name : Str)
    (existing : Existing) (data : FileData) (chunks : List UInt64) : Outcome Unit :=
  match vol.reserve platform w declared with
  | (.error failure, w) => (.error failure, w)
  | (.ok r, w) => receiveBody platform w r here name existing data chunks

theorem receive_filled (platform : Platform) (declared : UInt64) (d : List Str) (name : Str)
    (existing : Existing) (data : FileData) (chunks : List UInt64) (h : Watched w vol.id) (hwhole : bytesOf chunks = data.size) :
    Filled vol w (receive platform vol w declared (vol.id :: d) name existing data chunks).2 ∨
      (existing = .replace ∧
        Grown vol w (receive platform vol w declared (vol.id :: d) name existing data chunks).2) := by
  unfold receive
  obtain ⟨failure, hr⟩ | ⟨failure, u, counts', hs, hr⟩ | ⟨u, counts', hs, ha, hr⟩ :=
    reserve_cases platform vol w declared
  · rw [hr]
    exact Or.inl (Filled.refl h)
  · rw [hr]
    refine Or.inl (Filled.of_credited 0 (h.sized hs) ?_ (Nat.le_add_right _ _) (fun _ _ hq => hq)
      (fun _ _ => rfl))
    rw [saturatingAdd_zero]
    exact hs.credited
  · rw [hr]
    simp only
    have hu := h.sized hs
    obtain ⟨failure, n, hb⟩ | ⟨failure, rfl, hsize, hb⟩ | ⟨hsize, hdir, hn, hb⟩ := receiveBody_cases platform
      { w with counts := counts'.withRoom w.now vol.id declared } vol counts' u declared (vol.id :: d) name
      existing data chunks hwhole
    · rw [hb]
      exact Or.inl (Filled.of_credited 0 hu (hs.released declared 0) (Nat.le_add_right _ _) (fun _ _ hq => hq)
        (fun _ _ => rfl))
    · rw [hb]
      -- The bytes stay under a temporary name, which no measurement counts.
      have hc := hs.released declared 0
      refine Or.inr ⟨rfl, ?_, ?_, rfl, hc.unique, ?_⟩
      · intro e he _
        obtain ⟨e', he', -, hused, -⟩ := hc.entry
        cases Option.some.inj (he.symm.trans he')
        have hstray := counted_put_stray vol.id d (temporaryName_not_plain platform w.sequence) data w.disk
        have hsum := counted_add_hidden maxTreeDepth (contents w.disk vol.id)
        rw [hused, saturatingAdd_zero]
        unfold World.held at hu
        simp only
        omega
      · intro q hq hle
        have hput := contents_put_file vol.id d (platform.temporaryName w.sequence).val data w.disk
        have := held_add_le_quota hq ha hu hle
        unfold World.held at this ⊢
        simp only
        omega
      · intro other hne
        exact ⟨contents_alter_ne hne _ _ _, hc.elsewhere other hne⟩
    · rw [hb]
      have hheld : heldBytes (contents ((w.disk.alter (Forest.erase name) (vol.id :: d)).alter
          (Forest.insert name (.file data)) (vol.id :: d)) vol.id) ≤ w.held vol.id + data.size := by
        have hput := contents_put_file vol.id d name data (w.disk.alter (Forest.erase name) (vol.id :: d))
        have hshrink := (shrinks_contents (shrinks_erase name) (List.cons_ne_nil vol.id d) w.disk vol.id).2
        unfold World.held
        omega
      refine Or.inl (Filled.of_credited data.len hu (hs.released declared data.len) ?_ ?_ ?_)
      · rw [FileData.toNat_len]
        exact hheld
      · intro q hq hle
        have := held_add_le_quota hq ha hu hle
        simp only
        omega
      · intro other hne
        rw [contents_alter_ne hne, contents_alter_ne hne]

/-! ## Copies -/

theorem copyFile_filled {d : List Str} {here : Dir} {name newName : Str} (h : Watched w vol.id) :
    Filled vol w (copyFile platform vol w here name (vol.id :: d) newName).2 := by
  unfold copyFile
  cases openFile w.disk here name with
  | error error => exact Filled.refl h
  | ok data =>
      have hreceive := receive_filled platform data.len d newName .refuse data
        (bufferLengths data.bytes.length) h bytesOf_bufferLengths
      exact hreceive.resolve_right fun hr => by cases hr.1

/-- A directory that is made weighs nothing. -/
theorem createDir_contents {here : Dir} {id : Str} {d : List Str} {name : Str} {disk' : Disk}
    (hc : createDir platform disk (id :: d) name = .ok (disk', here)) :
    here = id :: (d ++ [name]) ∧ (∀ other, other ≠ id → contents disk' other = contents disk other) ∧
      counted maxTreeDepth (contents disk' id) = counted maxTreeDepth (contents disk id) ∧
      hidden maxTreeDepth (contents disk' id) = hidden maxTreeDepth (contents disk id) := by
  have hdisk : disk' = disk.alter (Forest.insert name (.dir .nil)) (id :: d) ∧ here = id :: d ++ [name] := by
    unfold createDir at hc
    split at hc
    · cases hc
    · split at hc
      · cases hc
      · cases hc
      · split at hc
        · cases hc
        · cases hc
          exact ⟨rfl, rfl⟩
  obtain ⟨rfl, rfl⟩ := hdisk
  refine ⟨rfl, fun other hne => contents_alter_ne hne _ _ _, ?_⟩
  cases contents_alter (Forest.insert name (.dir .nil)) id d disk with
  | inl he =>
      rw [he]
      exact counted_put_dir name d maxTreeDepth _
  | inr he =>
      rw [he]
      exact ⟨rfl, rfl⟩

theorem createDir_filled {here : Dir} {d : List Str} {name : Str} {disk' : Disk} (h : Watched w vol.id)
    (hc : createDir platform w.disk (vol.id :: d) name = .ok (disk', here)) :
    Filled vol w { w with disk := disk' } ∧ here = vol.id :: (d ++ [name]) := by
  obtain ⟨hhere, hother, hcount, hhide⟩ := createDir_contents hc
  have hheld : heldBytes (contents disk' vol.id) = heldBytes (contents w.disk vol.id) := by
    rw [← counted_add_hidden maxTreeDepth, hcount, hhide, counted_add_hidden]
  refine ⟨⟨⟨?_, ?_⟩, ?_, rfl, fun hu => hu, fun other hne => ⟨hother other hne, rfl⟩⟩, hhere⟩
  · intro e he hf
    have := h.known e he hf
    unfold World.held at this ⊢
    rw [hheld]
    exact this
  · intro hnone
    rw [hhide]
    exact h.unknown hnone
  · intro q _ hle
    unfold World.held at hle ⊢
    rw [hheld]
    exact hle

/-- What every step of a loop does, the loop does. -/
theorem foldl_andThen_filled {f : Str → World → Outcome Unit} (names : List Str)
    (hf : ∀ name w, Watched w vol.id → Filled vol w (f name w).2) (outcome : Outcome Unit)
    (h : Watched outcome.2 vol.id) :
    Filled vol outcome.2 (names.foldl (fun outcome name => andThen outcome (f name)) outcome).2 := by
  induction names generalizing outcome with
  | nil => exact Filled.refl h
  | cons name names ih =>
      rw [List.foldl_cons]
      obtain ⟨result, w⟩ := outcome
      have hstep : Filled vol w (andThen (result, w) (f name)).2 := by
        cases result with
        | error failure => exact Filled.refl h
        | ok u => exact hf name w h
      exact hstep.trans (ih _ hstep.watched)

theorem copyInto_filled (platform : Platform) (levels : Nat) (d : List Str) (here : Dir) (name newName : Str)
    (h : Watched w vol.id) : Filled vol w (copyInto platform vol levels w here name (vol.id :: d) newName).2 := by
  induction levels generalizing w d here name newName with
  | zero => exact Filled.refl h
  | succ levels ih =>
      rw [copyInto]
      cases hopen : openDir w.disk here name with
      | error error =>
          cases error with
          | notADirectory => exact copyFile_filled h
          | _ => exact Filled.refl h
      | ok source =>
          simp only
          cases hcreate : createDir platform w.disk (vol.id :: d) newName with
          | error error => exact Filled.refl h
          | ok made =>
              obtain ⟨disk', target⟩ := made
              obtain ⟨hmade, rfl⟩ := createDir_filled h hcreate
              simp only
              cases dirNames disk' source with
              | error error => exact hmade
              | ok names =>
                  exact hmade.trans (foldl_andThen_filled
                    (f := fun entry w =>
                      copyInto platform vol levels w source entry (vol.id :: (d ++ [newName])) entry)
                    _ (fun name w hw => ih _ _ _ _ hw) (.ok (), { w with disk := disk' }) hmade.watched)

/-! ## Removals and renames -/

theorem removeTree_shrinks (id : Str) (d : List Str) (name : Str) (disk : Disk) (share : Str) :
    Shrinks (contents disk share) (contents (removeTree disk (id :: d) name).2 share) := by
  have herase := shrinks_contents (shrinks_erase name) (List.cons_ne_nil id d) disk share
  unfold removeTree
  cases hopen : openDir disk (id :: d) name with
  | error error =>
      cases error with
      | notADirectory => exact herase
      | _ => exact Shrinks.refl _
  | ok child =>
      obtain ⟨rfl, inside, hi⟩ := openDir_ok hopen
      simp only [hi]
      cases hr : removeEntries inside with
      | mk left refusal =>
          cases refusal with
          | none => exact herase
          | some refusal =>
              have hsame : disk.alter (fun _ => left) (id :: d ++ [name]) =
                  disk.alter (fun f => (removeEntries f).1) (id :: d ++ [name]) := by
                refine Forest.alter_congr fun f hf => ?_
                rw [hi] at hf
                cases hf
                rw [hr]
              simp only [hsame]
              exact shrinks_contents shrinks_removeEntries (by simp) disk share

theorem clearDestination_shrinks (id : Str) (d : List Str) (name : Str) (replace : Bool) (disk : Disk)
    (share : Str) :
    Shrinks (contents disk share) (contents (clearDestination disk (id :: d) name replace).2 share) := by
  have hremove := removeTree_shrinks id d name disk share
  unfold clearDestination
  split
  · exact Shrinks.refl _
  · exact Shrinks.refl _
  · split
    · split
      · rename_i error disk' hr
        rw [hr] at hremove
        exact hremove
      · rename_i disk' hr
        rw [hr] at hremove
        exact hremove
    · exact Shrinks.refl _

/-- An entry below the root of a share is among its files. -/
theorem contents_get {id : Str} {p : List Str} {e : Entry Str FileData} (hp : p ≠ [])
    (h : disk.get (id :: p) = some e) :
    disk.find id = some (.dir (contents disk id)) ∧ (contents disk id).get p = some e := by
  unfold contents
  simp only [Forest.get] at h
  split at h
  · cases h
  · rw [if_neg hp] at h
    cases h
  · rename_i inside hi
    rw [hi]
    exact ⟨rfl, h⟩

theorem contents_alter_of_find {id : Str} {inside : Disk} (h : disk.find id = some (.dir inside))
    (g : Disk → Disk) (d : List Str) : contents (disk.alter g (id :: d)) id = (contents disk id).alter g d := by
  unfold contents
  rw [Forest.alter, Forest.find_mapDir_self h, h]

/-- What a share holds after an entry was taken from it. -/
theorem held_take {id : Str} {d : List Str} {name : Str} {e : Entry Str FileData}
    (he : disk.get (id :: d ++ [name]) = some e) :
    heldBytes (contents (disk.alter (Forest.erase name) (id :: d)) id) + e.total FileData.size ≤
      heldBytes (contents disk id) := by
  rw [List.cons_append] at he
  obtain ⟨hfind, hget⟩ := contents_get (by simp) he
  rw [contents_alter_of_find hfind]
  obtain ⟨inside, hi⟩ := Forest.get_dir_of_append hget (List.cons_ne_nil _ _)
  rw [Forest.get_concat hi] at hget
  have htotal := Forest.total_alter FileData.size (g := Forest.erase name) hi
  have hentry := Forest.total_erase_add FileData.size hget
  unfold heldBytes
  omega

/-- A rename adds what it moves to the share it moves it to, unless it came from there. -/
theorem renameChild_held {id id' : Str} {d d' : List Str} {name newName : Str} {disk' : Disk}
    (h : renameChild platform disk (id :: d) name (id' :: d') newName = .ok disk') :
    ∃ e, disk.get (id :: d ++ [name]) = some e ∧
      (∀ share, heldBytes (contents disk' share) ≤
        heldBytes (contents disk share) + if share = id' ∧ id ≠ id' then e.total FileData.size else 0) ∧
      ∀ other, other ≠ id → other ≠ id' → contents disk' other = contents disk other := by
  obtain ⟨e, he, -, -, -, rfl⟩ := renameChild_ok h
  refine ⟨e, he, ?_, ?_⟩
  · intro share
    have htake := (shrinks_contents (shrinks_erase name) (List.cons_ne_nil id d) disk share).2
    have hclear := (shrinks_contents (shrinks_erase newName) (List.cons_ne_nil id' d')
      (disk.alter (Forest.erase name) (id :: d)) share).2
    by_cases hs : share = id'
    · subst hs
      have hput : heldBytes (contents (((disk.alter (Forest.erase name) (id :: d)).alter
          (Forest.erase newName) (share :: d')).alter (Forest.insert newName e) (share :: d')) share) ≤
          heldBytes (contents ((disk.alter (Forest.erase name) (id :: d)).alter (Forest.erase newName)
            (share :: d')) share) + e.total FileData.size := by
        cases contents_alter (Forest.insert newName e) share d'
            ((disk.alter (Forest.erase name) (id :: d)).alter (Forest.erase newName) (share :: d')) with
        | inl hc =>
            rw [hc]
            refine Forest.total_alter_le FileData.size (fun f => ?_) d' _
            rw [Forest.total_insert, Nat.add_comm]
        | inr hc =>
            rw [hc]
            exact Nat.le_add_right _ _
      by_cases hid : id = share
      · subst hid
        have := held_take he
        simp only [ne_eq, not_true_eq_false, and_false, if_false]
        omega
      · rw [if_pos ⟨rfl, hid⟩]
        omega
    · rw [if_neg fun hc => hs hc.1, contents_alter_ne hs]
      omega
  · intro other hne hne'
    rw [contents_alter_ne hne', contents_alter_ne hne', contents_alter_ne hne]

/-- The same of a rename through a temporary name, which stays in one directory. -/
theorem Renamed.held {id id' : Str} {d d' : List Str} {name newName : Str} {disk' : Disk} {sequence : Nat}
    (h : Renamed platform sequence disk disk' (id :: d) name (id' :: d') newName) :
    ∃ e, disk.get (id :: d ++ [name]) = some e ∧
      (∀ share, heldBytes (contents disk' share) ≤
        heldBytes (contents disk share) + if share = id' ∧ id ≠ id' then e.total FileData.size else 0) ∧
      ∀ other, other ≠ id → other ≠ id' → contents disk' other = contents disk other := by
  cases h with
  | inl h => exact renameChild_held h
  | inr h =>
      obtain ⟨hdir, away, hfirst, hsecond⟩ := h
      cases hdir
      obtain ⟨e, he, hheld, hother⟩ := renameChild_held hfirst
      obtain ⟨e', -, hheld', hother'⟩ := renameChild_held hsecond
      refine ⟨e, he, fun share => ?_, fun other hne hne' => ?_⟩
      · have h₁ := hheld share
        have h₂ := hheld' share
        simp only [ne_eq, not_true_eq_false, and_false, if_false] at h₁ h₂ ⊢
        omega
      · rw [hother' other hne hne', hother other hne hne']

end Selfhost.Storage
