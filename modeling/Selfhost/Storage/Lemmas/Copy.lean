import Selfhost.Storage.Lemmas.Receive
import Selfhost.Storage.Lemmas.Transfer

/-!
# Copies that go through

A copy descends the source name by name while it builds the destination. When there is room for every file
in turn and no name gets in the way of another, the destination ends up as the source is.
-/

namespace Selfhost.Storage

open Selfhost.Lib

variable {platform : Platform} {into : Volume} {w : World} {u : UInt64} {here there : Dir} {name newName : Str}

/-! ## Room for every file -/

theorem bytesOf_append (l₁ l₂ : List UInt64) : bytesOf (l₁ ++ l₂) = bytesOf l₁ + bytesOf l₂ := by
  simp [bytesOf]

/-- A file is read through the buffer to its last byte. -/
theorem bytesOf_bufferLengths {n : Nat} : bytesOf (bufferLengths n) = n := by
  have hbuffer : (UInt64.ofNat copyBufferBytes).toNat = copyBufferBytes := by decide
  have hrest : (UInt64.ofNat (n % copyBufferBytes)).toNat = n % copyBufferBytes := by
    apply UInt64.toNat_ofNat_of_lt'
    exact Nat.lt_trans (Nat.mod_lt n (by decide)) (by decide)
  have hdiv := Nat.div_add_mod n copyBufferBytes
  unfold bufferLengths
  rw [bytesOf_append]
  have hwhole : bytesOf (List.replicate (n / copyBufferBytes) (UInt64.ofNat copyBufferBytes)) =
      copyBufferBytes * (n / copyBufferBytes) := by
    rw [bytesOf, List.map_replicate, List.sum_replicate_nat, hbuffer, Nat.mul_comm]
  rw [hwhole]
  split
  · rename_i hz
    rw [hz] at hdiv
    exact hdiv
  · rw [bytesOf, List.map_cons, List.map_nil, List.sum_singleton, hrest]
    exact hdiv

/-- The size of a share after some files came in. -/
def sizeAfter (u : UInt64) (files : List FileData) : UInt64 :=
  files.foldl (fun u data => saturatingAdd u data.len) u

theorem sizeAfter_append (u : UInt64) (l₁ l₂ : List FileData) :
    sizeAfter u (l₁ ++ l₂) = sizeAfter (sizeAfter u l₁) l₂ :=
  List.foldl_append

/-- The size of the share can be found and is at most `u`, and no more is promised than `counts` says. -/
structure Ready (counts : Counts) (into : Volume) (w : World) (u : UInt64) : Prop where
  sized : ∃ u' counts', into.Sized w u' counts' ∧ u'.toNat ≤ u.toNat
  running : w.counts.uploadsRunning.toNat ≤ counts.uploadsRunning.toNat
  inFlight : w.counts.inFlightBytes.toNat ≤ counts.inFlightBytes.toNat
  share : (w.counts.shareInFlight into.id).toNat ≤ (counts.shareInFlight into.id).toNat

theorem Ready.admits {counts : Counts} {wanted : UInt64} (h : Ready counts into w u)
    (ha : into.Admits platform w.disk counts u wanted) :
    ∃ u' counts', into.Sized w u' counts' ∧ u'.toNat ≤ u.toNat ∧
      into.Admits platform w.disk counts' u' wanted := by
  obtain ⟨u', counts', hs, hle⟩ := h.sized
  have hc := hs.credited
  obtain ⟨e, he, -, -, hfl⟩ := hc.entry
  refine ⟨u', counts', hs, hle, admit_allowed_mono ha ?_ rfl ?_ ?_⟩
  · have hshare := h.share
    simp only [Counts.owed, toNat_saturatingAdd, Counts.shareInFlight_of_entry he]
    omega
  · exact Nat.le_trans hc.running h.running
  · exact Nat.le_trans hc.inFlight h.inFlight

/-! ## One file, one directory -/

/-- A name is free in a directory, and nothing there folds onto it. -/
structure Vacant (platform : Platform) (disk : Disk) (there : Dir) (newName : Str) : Prop where
  dir : disk.IsDir there
  free : disk.get (there ++ [newName]) = none
  apart : ∀ n, disk.get (there ++ [n]) ≠ none → collides platform n newName = false

theorem createDir_vacant {disk : Disk} (hn : isPlain newName) (h : Vacant platform disk there newName) :
    createDir platform disk there newName =
      .ok (disk.alter (Forest.insert newName (.dir .nil)) there, there ++ [newName]) := by
  obtain ⟨inside, hi⟩ := h.dir
  have hcol := collisions_ok platform hi newName
  have hnil : inside.names.filter (collides platform · newName) = [] := by
    rw [List.eq_nil_iff_forall_not_mem]
    intro n hmem
    obtain ⟨hsome, hcollides⟩ := (mem_collisions hcol).mp hmem
    rw [h.apart n hsome] at hcollides
    cases hcollides
  unfold createDir
  rw [hn, hcol, hnil]
  simp only [h.free]

theorem copyFile_ok {counts : Counts} {data : FileData} (hsrc : w.disk.get (here ++ [name]) = some (.file data))
    (hname : isPlain name) (hnew : isPlain newName) (hv : Vacant platform w.disk there newName)
    (hready : Ready counts into w u) (ha : into.Admits platform w.disk counts u data.len) :
    ∃ w', copyFile platform into w here name there newName = (.ok (), w') ∧
      w'.disk = w.disk.alter (Forest.insert newName (.file data)) there ∧
      Ready counts into w' (saturatingAdd u data.len) := by
  obtain ⟨u', counts', hs, hle, hadmits⟩ := hready.admits ha
  have hopen : openFile w.disk here name = .ok data := by
    unfold openFile
    rw [hname, hsrc]
  have hbegin := begin_of_free w.sequence .refuse hnew hv.dir hv.free hv.apart
  have hreceive := receiveBody_ok (w := { w with counts := counts'.withRoom w.now into.id data.len }) hbegin
    bytesOf_bufferLengths (Nat.le_of_eq data.toNat_len.symm) hadmits
  unfold copyFile
  rw [hopen]
  simp only [reserve_ok hs hadmits]
  refine ⟨_, hreceive, rfl, ?_⟩
  have hc := hs.released data.len data.len
  obtain ⟨e, he, hfresh, hused, hfl⟩ := hc.entry
  refine ⟨⟨_, _, Or.inl ⟨used_eq_some.mpr ⟨e, he, hfresh, hused⟩, rfl⟩, ?_⟩, ?_, ?_, ?_⟩
  · simp only [toNat_saturatingAdd]
    omega
  · exact Nat.le_trans hc.running hready.running
  · exact Nat.le_trans hc.inFlight hready.inFlight
  · rw [Counts.shareInFlight_of_entry he]
    exact Nat.le_trans hfl hready.share

theorem Ready.put_dir {counts : Counts} (h : Ready counts into w u) (hthere : there ≠ []) (k : Str) :
    Ready counts into { w with disk := w.disk.alter (Forest.insert k (.dir .nil)) there } u := by
  obtain ⟨u', counts', hs, hle⟩ := h.sized
  refine ⟨⟨u', counts', ?_, hle⟩, h.running, h.inFlight, h.share⟩
  obtain ⟨id, d, rfl⟩ := List.exists_cons_of_ne_nil hthere
  unfold Volume.Sized at hs ⊢
  simp only [Volume.root, measure_put_dir] at hs ⊢
  exact hs

/-! ## The descent -/

/-- The entries of a directory as a copy leaves them: each is put in front of those that were there. -/
def rebuilt : Disk → Disk → Disk
  | .nil, done => done
  | .file n data rest, done => rebuilt rest (done.insert n (.file data))
  | .dir n inside rest, done => rebuilt rest (done.insert n (.dir (rebuilt inside .nil)))

/-- What a copy makes of an entry. -/
def rebuiltEntry : Entry Str FileData → Entry Str FileData
  | .file data => .file data
  | .dir inside => .dir (rebuilt inside .nil)

/-- Room for what is below a directory: each file is admitted on the disk as the copy has left it by then. -/
def RoomBelow (platform : Platform) (into : Volume) (counts : Counts) : Disk → Disk → Dir → UInt64 → Prop
  | .nil, _, _, _ => True
  | .file n data rest, disk, dest, u =>
      into.Admits platform disk counts u data.len ∧
        RoomBelow platform into counts rest (disk.alter (Forest.insert n (.file data)) dest) dest
          (saturatingAdd u data.len)
  | .dir n inside rest, disk, dest, u =>
      RoomBelow platform into counts inside (disk.alter (Forest.insert n (.dir .nil)) dest) (dest ++ [n]) u ∧
        RoomBelow platform into counts rest (disk.alter (Forest.insert n (.dir (rebuilt inside .nil))) dest) dest
          (sizeAfter u inside.files)

/-- Room for an entry that is copied to a name which is free. -/
def RoomFor (platform : Platform) (into : Volume) (counts : Counts) (disk : Disk) (there : Dir) (newName : Str)
    (u : UInt64) : Entry Str FileData → Prop
  | .file data => into.Admits platform disk counts u data.len
  | .dir inside =>
      RoomBelow platform into counts inside (disk.alter (Forest.insert newName (.dir .nil)) there)
        (there ++ [newName]) u

theorem rebuilt_insert (n : Str) (e : Entry Str FileData) (rest done : Disk) :
    rebuilt (rest.insert n e) done = rebuilt rest (done.insert n (rebuiltEntry e)) := by
  cases e <;> rfl

theorem roomBelow_insert {counts : Counts} {n : Str} {e : Entry Str FileData} {rest disk : Disk} {dest : Dir} :
    RoomBelow platform into counts (rest.insert n e) disk dest u ↔
      RoomFor platform into counts disk dest n u e ∧
        RoomBelow platform into counts rest (disk.alter (Forest.insert n (rebuiltEntry e)) dest) dest
          (sizeAfter u e.files) := by
  cases e with
  | file data => exact Iff.rfl
  | dir inside => exact Iff.rfl

/-- What `rebuilt` shows once an entry was put in front of `done`. -/
theorem view_rebuilt_insert {n k : Str} {e : Entry Str FileData} {rest done : Disk} {p : Dir}
    (hfresh : n ∉ rest.names) (he : (rebuiltEntry e).view p = e.view p)
    (hrest : (rebuilt rest (done.insert n (rebuiltEntry e))).view (k :: p) =
      if k ∈ rest.names then rest.view (k :: p) else (done.insert n (rebuiltEntry e)).view (k :: p)) :
    (rebuilt (rest.insert n e) done).view (k :: p) =
      if k ∈ (rest.insert n e).names then (rest.insert n e).view (k :: p) else done.view (k :: p) := by
  rw [rebuilt_insert, hrest, Forest.names_insert]
  by_cases hk : k = n
  · subst hk
    rw [if_neg hfresh, if_pos List.mem_cons_self, Forest.view_insert_self, Forest.view_insert_self, he]
  · rw [Forest.view_insert_ne hk, Forest.view_insert_ne hk]
    simp [hk]

theorem view_rebuilt_dir {inside : Disk}
    (h : ∀ k p, (rebuilt inside .nil).view (k :: p) =
      if k ∈ inside.names then inside.view (k :: p) else Forest.nil.view (k :: p)) (p : Dir) :
    (rebuiltEntry (.dir inside)).view p = (Entry.dir inside).view p := by
  cases p with
  | nil => rfl
  | cons k p =>
      refine (h k p).trans ?_
      split
      · rfl
      · rename_i hk
        refine (Forest.view_none_of_get (p := [k]) ?_).symm
        rw [Forest.get_singleton, Forest.find_eq_none_iff]
        exact hk

/-- A copy holds what it was made of, beside what was there before. -/
theorem view_rebuilt {rest : Disk} (hd : rest.Distinct) (done : Disk) (k : Str) (p : Dir) :
    (rebuilt rest done).view (k :: p) = if k ∈ rest.names then rest.view (k :: p) else done.view (k :: p) := by
  induction rest generalizing done k p with
  | nil => rfl
  | file n data rest ih =>
      exact view_rebuilt_insert (e := .file data) hd.1 rfl (ih hd.2 _ k p)
  | dir n inside rest ihi ihr =>
      exact view_rebuilt_insert (e := .dir inside) hd.1 (view_rebuilt_dir (ihi hd.2.1 .nil) p)
        (ihr hd.2.2 _ k p)

theorem view_rebuiltEntry {e : Entry Str FileData} (hd : e.Distinct) (p : Dir) :
    (rebuiltEntry e).view p = e.view p := by
  cases e with
  | file data => rfl
  | dir inside => exact view_rebuilt_dir (view_rebuilt hd .nil) p

/-- What is copied from: a tree of names the share accepts, none of which folds onto another beside it. -/
structure Copyable (platform : Platform) (e : Entry Str FileData) : Prop where
  named : e.Named isPlain
  distinct : e.Distinct
  spaced : e.Spaced fun n m => collides platform n m = false

theorem Copyable.of_insert {n : Str} {e : Entry Str FileData} {rest : Disk}
    (h : Copyable platform (.dir (rest.insert n e))) :
    isPlain n ∧ n ∉ rest.names ∧ (∀ m ∈ rest.names, collides platform n m = false) ∧ Copyable platform e ∧
      Copyable platform (.dir rest) := by
  obtain ⟨hn, hd, hs⟩ := h
  cases e with
  | file data => exact ⟨hn.1, hd.1, hs.1, ⟨trivial, trivial, trivial⟩, ⟨hn.2, hd.2, hs.2⟩⟩
  | dir inside => exact ⟨hn.1, hd.1, hs.1, ⟨hn.2.1, hd.2.1, hs.2.1⟩, ⟨hn.2.2, hd.2.2, hs.2.2⟩⟩

/-- Neither place lies in the other. -/
def Apart (p q : Dir) : Prop := ¬ p <+: q ∧ ¬ q <+: p

theorem Apart.below {p q : Dir} (h : Apart p q) (n m : Str) : Apart (p ++ [n]) (q ++ [m]) := by
  constructor
  · intro hp
    exact not_prefix_append h.1 h.2 ((List.prefix_append p [n]).trans hp)
  · intro hp
    exact not_prefix_append h.2 h.1 ((List.prefix_append q [m]).trans hp)

/-- A change at `q` is not seen at `p`. -/
theorem Apart.get_alter {p d : Dir} {k : Str} {g : Disk → Disk} (h : Apart p (d ++ [k])) (disk : Disk)
    (hg : Forest.OnlyAt k g) : (disk.alter g d).get p = disk.get p := by
  refine Forest.get_alter_of_disjoint hg (fun hp => h.1 (hp.trans (List.prefix_append d [k]))) h.2 disk

theorem reachable_plain {disk : Disk} {e : Entry Str FileData} (hn : isPlain name)
    (he : disk.get (here ++ [name]) = some e) : reachable disk here name = true := by
  unfold reachable stat
  rw [openDir_plain hn, he]
  cases e with
  | dir inside => rfl
  | file data =>
      simp only [openFile, he]
      rw [hn]

section Descent

variable {counts : Counts}

/-- What `copyInto` does with one entry, for some number of levels. -/
def CopiesEntries (platform : Platform) (into : Volume) (counts : Counts) (levels : Nat) : Prop :=
  ∀ {w : World} {u : UInt64} {here there : Dir} {name newName : Str} {e : Entry Str FileData},
    e.height ≤ levels → Copyable platform e → w.disk.get (here ++ [name]) = some e → isPlain name →
    isPlain newName → there ≠ [] → Vacant platform w.disk there newName →
    Apart (here ++ [name]) (there ++ [newName]) → Ready counts into w u →
    RoomFor platform into counts w.disk there newName u e →
    ∃ w', copyInto platform into levels w here name there newName = (.ok (), w') ∧
      w'.disk = w.disk.alter (Forest.insert newName (rebuiltEntry e)) there ∧
      Ready counts into w' (sizeAfter u e.files)

/-- The loop over the entries of a directory. `done` is what has been copied so far. -/
theorem copyEntries_ok {levels : Nat} (ih : CopiesEntries platform into counts levels)
    {source dest : Dir} (hapart : Apart source dest) (hdest : dest ≠ [])
    {rest done : Disk} (hh : rest.height ≤ levels) (hc : Copyable platform (.dir rest))
    (hsrc : ∀ k ∈ rest.names, w.disk.get (source ++ [k]) = rest.find k)
    (hdone : w.disk.get dest = some (.dir done)) (hnew : ∀ k ∈ rest.names, k ∉ done.names)
    (hcol : ∀ n ∈ done.names, ∀ k ∈ rest.names, collides platform n k = false)
    (hready : Ready counts into w u) (hroom : RoomBelow platform into counts rest w.disk dest u) :
    ∃ w', rest.names.foldl
        (fun outcome entry => andThen outcome fun w => copyInto platform into levels w source entry dest entry)
        (.ok (), w) = (.ok (), w') ∧
      w'.disk = w.disk.alter (fun _ => rebuilt rest done) dest ∧
      Ready counts into w' (sizeAfter u rest.files) := by
  induction rest using Forest.insert_induction generalizing w u done with
  | nil =>
      refine ⟨w, rfl, ?_, hready⟩
      exact (Forest.alter_eq_self fun inside hi => by rw [hdone] at hi; cases hi; rfl).symm
  | insert n e rest ihr =>
      obtain ⟨hplain, hfresh, hspaced, hce, hcr⟩ := hc.of_insert
      rw [Forest.height_insert] at hh
      obtain ⟨hroom₁, hroom₂⟩ := roomBelow_insert.mp hroom
      simp only [Forest.names_insert, List.forall_mem_cons, Forest.find_insert, if_true] at hsrc hnew hcol ⊢
      have hvacant : Vacant platform w.disk dest n := by
        refine ⟨⟨done, hdone⟩, ?_, ?_⟩
        · rw [Forest.get_concat hdone, Forest.find_eq_none_iff]
          exact hnew.1
        · intro m hm
          rw [Forest.get_concat hdone, ne_eq, Forest.find_eq_none_iff, not_not] at hm
          exact (hcol m hm).1
      obtain ⟨w₁, hcopy, hdisk, hready₁⟩ := ih (by omega) hce hsrc.1 hplain hplain hdest hvacant
        (hapart.below n n) hready hroom₁
      rw [← hdisk] at hroom₂
      have hsrc' : ∀ k ∈ rest.names, w₁.disk.get (source ++ [k]) = rest.find k := by
        intro k hk
        rw [hdisk, (hapart.below k n).get_alter _ (Forest.onlyAt_insert n _), hsrc.2 k hk, if_neg]
        rintro rfl
        exact hfresh hk
      have hdone' : w₁.disk.get dest = some (.dir (done.insert n (rebuiltEntry e))) := by
        have := Forest.get_alter (Forest.insert n (rebuiltEntry e)) [] hdone
        rw [List.append_nil, Forest.get_nil] at this
        rw [hdisk, this]
      obtain ⟨w', hfold, hdisk', hready'⟩ := ihr (by omega) hcr hsrc' hdone'
        (by
          intro k hk
          rw [Forest.names_insert, List.mem_cons, not_or]
          refine ⟨?_, hnew.2 k hk⟩
          rintro rfl
          exact hfresh hk)
        (by
          rw [Forest.names_insert, List.forall_mem_cons]
          exact ⟨hspaced, fun m hm => (hcol m hm).2⟩)
        hready₁ hroom₂
      refine ⟨w', ?_, ?_, ?_⟩
      · rw [List.foldl_cons, andThen, hcopy]
        exact hfold
      · rw [hdisk', hdisk, Forest.alter_alter, rebuilt_insert]
        rfl
      · rw [Forest.files_insert, sizeAfter_append]
        exact hready'

theorem copiesEntries (levels : Nat) : CopiesEntries platform into counts levels := by
  induction levels with
  | zero =>
      intro w u here there name newName e hh
      cases e <;> simp [Entry.height] at hh
  | succ levels ih =>
      intro w u here there name newName e hh hc hsrc hname hnew hthere hv hapart hready hroom
      cases e with
      | file data =>
          obtain ⟨w', hcopy, hdisk, hready'⟩ := copyFile_ok hsrc hname hnew hv hready hroom
          refine ⟨w', ?_, hdisk, hready'⟩
          simp only [copyInto]
          rw [openDir_plain hname, hsrc]
          exact hcopy
      | dir inside =>
          have hmade := createDir_vacant hnew hv
          have hsrc' := hapart.get_alter w.disk (Forest.onlyAt_insert newName (.dir .nil))
          rw [hsrc] at hsrc'
          obtain ⟨beside, hbeside⟩ := hv.dir
          have hdone := Forest.get_alter (Forest.insert newName (.dir .nil)) [newName] hbeside
          rw [Forest.get_singleton, Forest.find_insert, if_pos rfl] at hdone
          obtain ⟨w', hfold, hdisk, hready'⟩ := copyEntries_ok ih hapart (by simp)
            (Nat.le_of_succ_le_succ hh) hc (fun k _ => Forest.get_concat hsrc') hdone (fun k _ => List.not_mem_nil)
            (fun n hn => absurd hn List.not_mem_nil) (hready.put_dir hthere newName) hroom
          refine ⟨w', ?_, ?_, hready'⟩
          · have hreach : inside.names.filter (reachable
                (w.disk.alter (Forest.insert newName (.dir .nil)) there) (here ++ [name])) = inside.names := by
              rw [List.filter_eq_self]
              intro k hk
              obtain ⟨e, he⟩ := Option.ne_none_iff_exists'.mp (mt Forest.find_eq_none_iff.mp (not_not.mpr hk))
              exact reachable_plain (hc.named.name hk) ((Forest.get_concat hsrc').trans he)
            simp only [copyInto, openDir_plain hname, hsrc, hmade, dirNames, hsrc', hreach]
            exact hfold
          · rw [hdisk, Forest.alter_insert_dir]
            rfl

end Descent

/-! ## Whole copies -/

section Copies

variable {home : Volume} {source target : RelativePath} {ends : Ends} {replace : Bool} {e : Entry Str FileData}

/-- The view after an entry was copied from one place to another. -/
def CopiedTo (disk disk' : Disk) (source target : Dir) : Prop :=
  ∀ p, disk'.view p = if target <+: p then disk.view (source ++ p.drop target.length) else disk.view p

/-- The disk with nothing at the destination any more. -/
def Ends.cleared (ends : Ends) (disk : Disk) : Disk := disk.alter (Forest.erase ends.newName) ends.there

/-- Everything below the source gets across once the destination is clear. -/
structure Carries (platform : Platform) (into : Volume) (w : World) (ends : Ends) (e : Entry Str FileData) :
    Prop where
  outside : ¬ ends.target <+: ends.source
  vacant : Vacant platform (ends.cleared w.disk) ends.there ends.newName
  height : e.height ≤ maxTreeDepth
  named : e.Named isPlain
  spaced : e.Spaced fun n m => collides platform n m = false
  room : ∃ u counts', into.Sized { w with disk := ends.cleared w.disk } u counts' ∧
    RoomFor platform into w.counts (ends.cleared w.disk) ends.there ends.newName u e

/-- A copy into a free place that stops, if it stops, before it has made anything. -/
def StopsAtOnce (platform : Platform) (disk : Disk) (ends : Ends) (e : Entry Str FileData) : Prop :=
  (∃ data, e = .file data) ∨ ¬ Vacant platform disk ends.there ends.newName

/-- Where a copy is safe. -/
def CopySafe (platform : Platform) (w : World) (home into : Volume) (source target : RelativePath)
    (replace : Bool) : Prop :=
  ∀ ends, Surveyed w.disk home into .read source target ends →
    ∀ e, w.disk.get ends.source = some e →
      match w.disk.get ends.target, replace with
      | none, _ => StopsAtOnce platform w.disk ends e ∨ Carries platform into w ends e
      | some _, false => True
      | some old, true => RefusesEntry old ∨ (old.Named isPlain ∧ Carries platform into w ends e)

theorem copyTo_cases (platform : Platform) (home into : Volume) (source target : RelativePath)
    (replace : Bool) (w : World) :
    ((∃ failure, home.copyTo platform w source into target replace = (.error failure, w)) ∧
      ∀ ends, ¬ Surveyed w.disk home into .read source target ends) ∨
    ∃ ends, Surveyed w.disk home into .read source target ends ∧
      home.copyTo platform w source into target replace =
        match clearDestination w.disk ends.there ends.newName replace with
        | (.error failure, disk) => (.error failure, { w with disk })
        | (.ok existed, disk) =>
            match copyInto platform into maxTreeDepth { w with disk } ends.here ends.name ends.there
                ends.newName with
            | (.error failure, w) => (.error failure, w)
            | (.ok (), w) =>
                (.ok (Landing.of existed), { w with counts := w.counts.forget w.now into.id }) := by
  unfold Volume.copyTo
  obtain ⟨⟨failure, hends⟩ | ⟨ends, failure, hends, hsurvey⟩, hnot⟩ | ⟨ends, hs⟩ :=
    surveyed_cases w.disk home into .read source target
  · rw [hends]
    exact Or.inl ⟨⟨failure, rfl⟩, hnot⟩
  · simp only [hends, hsurvey]
    exact Or.inl ⟨⟨failure, rfl⟩, hnot⟩
  · refine Or.inr ⟨ends, hs, ?_⟩
    rw [hs.found]
    dsimp only
    generalize hsurvey : survey w.disk ends.here ends.name ends.there ends.newName = surveyed
    rw [hs.onto] at hsurvey
    subst hsurvey
    rfl

theorem view_ends_cleared {disk : Disk} (h : disk.IsDir ends.there) (p : Dir) :
    (ends.cleared disk).view p = if ends.target <+: p then none else disk.view p :=
  view_cleared h p

theorem copiedTo_put {disk disk₀ : Disk} {e' : Entry Str FileData} (hdir : disk₀.IsDir ends.there)
    (hagrees : ∀ p, ¬ ends.target <+: p → disk₀.view p = disk.view p) (he : disk.get ends.source = some e)
    (hview : ∀ p, e'.view p = e.view p) :
    CopiedTo disk (disk₀.alter (Forest.insert ends.newName e') ends.there) ends.source ends.target := by
  intro p
  have hlen : ends.target.length = ends.there.length + 1 := by simp [Ends.target]
  have hput : (disk₀.alter (Forest.insert ends.newName e') ends.there).view p =
      if ends.target <+: p then e'.view (p.drop (ends.there.length + 1)) else disk₀.view p :=
    Forest.view_insert hdir p
  rw [hput, hlen]
  split
  · rw [hview, Forest.view_eq_of_get he]
  · rename_i hp
    exact hagrees p hp

/-- A copy that carries everything ends with the destination as the source. -/
theorem copyInto_carries (hs : Surveyed w.disk home into .read source target ends) (hd : w.disk.Distinct)
    (hdir : w.disk.IsDir ends.there) (he : w.disk.get ends.source = some e)
    (hc : Carries platform into w ends e) :
    ∃ w', copyInto platform into maxTreeDepth { w with disk := ends.cleared w.disk } ends.here ends.name
        ends.there ends.newName = (.ok (), w') ∧ CopiedTo w.disk w'.disk ends.source ends.target := by
  have hchecked := hs.checked
  have hin := hs.source_not_prefix_of
  have hsource : (ends.cleared w.disk).get ends.source = some e := by
    refine (Forest.get_alter_of_disjoint (Forest.onlyAt_erase ends.newName) ?_ hc.outside w.disk).trans he
    exact fun hp => hin (hp.trans (List.prefix_append _ _))
  have hdistinct : e.Distinct := by
    cases e with
    | file data => trivial
    | dir inside => exact hd.get he
  obtain ⟨u, counts', hsized, hroom⟩ := hc.room
  obtain ⟨w', hcopy, hdisk, -⟩ := copiesEntries maxTreeDepth
    (w := { w with disk := ends.cleared w.disk }) hc.height ⟨hc.named, hdistinct, hc.spaced⟩ hsource
    hchecked.plain hchecked.plain' hchecked.there_ne hc.vacant ⟨hin, hc.outside⟩
    ⟨⟨u, counts', hsized, Nat.le_refl _⟩, Nat.le_refl _, Nat.le_refl _, Nat.le_refl _⟩ hroom
  refine ⟨w', hcopy, ?_⟩
  rw [hdisk]
  refine copiedTo_put hc.vacant.dir (fun p hp => ?_) he (view_rebuiltEntry hdistinct)
  rw [view_ends_cleared hdir, if_neg hp]

/-- A copy of one file into a free place is all or nothing. -/
theorem copyInto_file (platform : Platform) (into : Volume) {data : FileData} (hname : isPlain ends.name)
    (he : w.disk.get ends.source = some (.file data)) (hfree : w.disk.get ends.target = none) :
    (∃ failure w', copyInto platform into maxTreeDepth w ends.here ends.name ends.there ends.newName =
      (.error failure, w') ∧ w'.disk = w.disk) ∨
    ∃ w', copyInto platform into maxTreeDepth w ends.here ends.name ends.there ends.newName = (.ok (), w') ∧
      CopiedTo w.disk w'.disk ends.source ends.target := by
  have hopen : openFile w.disk ends.here ends.name = .ok data := by
    unfold openFile
    rw [hname, show w.disk.get (ends.here ++ [ends.name]) = some (.file data) from he]
  have hcopy : copyInto platform into maxTreeDepth w ends.here ends.name ends.there ends.newName =
      copyFile platform into w ends.here ends.name ends.there ends.newName := by
    rw [maxTreeDepth, copyInto, openDir_plain hname, show w.disk.get (ends.here ++ [ends.name]) = _ from he]
  rw [hcopy]
  unfold copyFile
  rw [hopen]
  simp only
  obtain ⟨failure, hr⟩ | ⟨failure, u, counts', -, hr⟩ | ⟨u, counts', hs, -, hr⟩ :=
    reserve_cases platform into w data.len
  · rw [hr]
    exact Or.inl ⟨failure, w, rfl, rfl⟩
  · rw [hr]
    exact Or.inl ⟨failure, _, rfl, rfl⟩
  · rw [hr]
    simp only
    obtain ⟨failure, n, hb⟩ | ⟨failure, hex, -⟩ | ⟨-, hdir, -, hb⟩ := receiveBody_cases platform
      { w with counts := counts'.withRoom w.now into.id data.len } into counts' u data.len ends.there
      ends.newName .refuse data (bufferLengths data.bytes.length) bytesOf_bufferLengths
    · rw [hb]
      exact Or.inl ⟨failure, _, rfl, rfl⟩
    · cases hex
    · rw [hb]
      refine Or.inr ⟨_, rfl, ?_⟩
      rw [Forest.alter_erase_of_none hfree]
      exact copiedTo_put hdir (fun _ _ => rfl) he (fun _ => rfl)

/-- A copy of a directory into a place that is not vacant makes nothing. -/
theorem copyInto_dir_blocked (into : Volume) {inside : Disk} (hname : isPlain ends.name) (hnew : isPlain ends.newName)
    (he : w.disk.get ends.source = some (.dir inside)) (hfree : w.disk.get ends.target = none)
    (hv : ¬ Vacant platform w.disk ends.there ends.newName) :
    ∃ failure, copyInto platform into maxTreeDepth w ends.here ends.name ends.there ends.newName =
      (.error failure, w) := by
  have hopen : openDir w.disk ends.here ends.name = .ok ends.source := by
    rw [openDir_plain hname, show w.disk.get (ends.here ++ [ends.name]) = _ from he]
    rfl
  rw [maxTreeDepth, copyInto, hopen]
  simp only
  cases hcreate : createDir platform w.disk ends.there ends.newName with
  | error error => exact ⟨_, rfl⟩
  | ok made =>
      refine absurd ?_ hv
      unfold createDir at hcreate
      rw [hnew] at hcreate
      simp only at hcreate
      split at hcreate
      · cases hcreate
      · cases hcreate
      · rename_i hcol
        refine ⟨isDir_of_collisions hcol, hfree, ?_⟩
        intro n hn
        by_contra hcon
        have := (mem_collisions hcol).mpr ⟨hn, by simpa using hcon⟩
        exact absurd this List.not_mem_nil

theorem copyTo_kept {w : World} (hd : w.disk.Distinct)
    (h : CopySafe platform w home into source target replace) :
    Kept CopiedTo w.disk (home.copyTo platform w source into target replace) (home.locate source)
      (into.locate target) := by
  obtain ⟨⟨failure, he⟩, -⟩ | ⟨ends, hs, he⟩ := copyTo_cases platform home into source target replace w
  · rw [he]
    exact fun _ => rfl
  · have hc := hs.checked
    obtain ⟨e, hsource⟩ := Option.ne_none_iff_exists'.mp hs.source_get
    have hsafe := h ends hs e hsource
    have hview : w.disk.view ends.source ≠ none :=
      fun hv => hs.source_get (Forest.get_eq_none_iff_view.mpr hv)
    rw [he, ← hc.source_eq, ← hc.target_eq]
    cases hg : w.disk.get ends.target with
    | none =>
        rw [clearDestination_plain hc.plain', show w.disk.get (ends.there ++ [ends.newName]) = none from hg]
        simp only
        simp only [hg] at hsafe
        cases hsafe with
        | inl hstop =>
            cases e with
            | file data =>
                obtain ⟨failure, w', hcopy, hdisk⟩ | ⟨w', hcopy, hcopied⟩ :=
                  copyInto_file platform into hc.plain hsource hg
                · rw [hcopy]
                  exact fun p => by simp only [hdisk]
                · rw [hcopy]
                  exact ⟨hview, hcopied⟩
            | dir inside =>
                have hv := hstop.resolve_left fun h => by obtain ⟨_, hfile⟩ := h; cases hfile
                obtain ⟨failure, hcopy⟩ := copyInto_dir_blocked into hc.plain hc.plain' hsource hg hv
                rw [hcopy]
                exact fun _ => rfl
        | inr hcarries =>
            have hcleared : ends.cleared w.disk = w.disk := Forest.alter_erase_of_none hg
            have hdir := hcarries.vacant.dir
            rw [hcleared] at hdir
            obtain ⟨w', hcopy, hcopied⟩ := copyInto_carries hs hd hdir hsource hcarries
            rw [hcleared] at hcopy
            rw [hcopy]
            exact ⟨hview, hcopied⟩
    | some old =>
        cases replace with
        | false =>
            rw [clearDestination_plain hc.plain', show w.disk.get (ends.there ++ [ends.newName]) = some old from hg]
            exact fun _ => rfl
        | true =>
            simp only [hg] at hsafe
            cases hsafe with
            | inl hrefuses =>
                obtain ⟨failure, disk', hclear, hsame⟩ :=
                  clearDestination_unnamed hd hc.plain' hg hrefuses.not_named
                rw [hclear]
                exact hsame.mpr hrefuses
            | inr hcarries =>
                obtain ⟨hnamed, hcarries⟩ := hcarries
                rw [clearDestination_named hc.plain' hg hnamed]
                have hdir : w.disk.IsDir ends.there := isDir_there (by rw [hg]; exact Option.some_ne_none old)
                obtain ⟨w', hcopy, hcopied⟩ := copyInto_carries hs hd hdir hsource hcarries
                simp only [Ends.cleared] at hcopy
                simp only [hcopy]
                exact ⟨hview, hcopied⟩

/-- A copy over a place that holds its own source loses both. -/
theorem copyTo_kept_outside {w : World} {old : Entry Str FileData} (hd : w.disk.Distinct)
    (hs : Surveyed w.disk home into .read source target ends) (hg : w.disk.get ends.target = some old)
    (h : Kept CopiedTo w.disk (home.copyTo platform w source into target true) (home.locate source)
      (into.locate target)) :
    RefusesEntry old ∨ (old.Named isPlain ∧ ¬ ends.target <+: ends.source) := by
  have hc := hs.checked
  obtain ⟨-, hnot⟩ | ⟨ends', hs', he⟩ := copyTo_cases platform home into source target true w
  · exact absurd hs (hnot ends)
  · cases Except.ok.inj (hs'.found.symm.trans hs.found)
    rw [he] at h
    by_cases hnamed : old.Named isPlain
    · refine Or.inr ⟨hnamed, fun hp => ?_⟩
      have hdir : w.disk.IsDir ends.there := isDir_there (by rw [hg]; exact Option.some_ne_none old)
      have hgone : (ends.cleared w.disk).get (ends.here ++ [ends.name]) = none := by
        rw [Forest.get_eq_none_iff_view, view_ends_cleared hdir]
        exact if_pos hp
      have hcopy : copyInto platform into maxTreeDepth { w with disk := ends.cleared w.disk } ends.here
          ends.name ends.there ends.newName =
          (.error (.ofOpen .notFound), { w with disk := ends.cleared w.disk }) := by
        rw [maxTreeDepth, copyInto, openDir_plain hc.plain, hgone]
      rw [clearDestination_named hc.plain' hg hnamed] at h
      simp only [Ends.cleared] at hcopy
      simp only [hcopy] at h
      have hview : (ends.cleared w.disk).view ends.target = w.disk.view ends.target := h ends.target
      rw [view_ends_cleared hdir, if_pos List.prefix_rfl] at hview
      rw [Forest.get_eq_none_iff_view.mpr hview.symm] at hg
      cases hg
    · obtain ⟨failure, disk', hclear, hsame⟩ := clearDestination_unnamed hd hc.plain' hg hnamed
      rw [hclear] at h
      exact Or.inl (hsame.mp h)

end Copies

end Selfhost.Storage
