import Selfhost.Storage.Lemmas.Copy

/-!
# What an operation leaves alone

Away from the paths it is given, and from temporary names beside them, an operation of a share changes nothing that
can be seen, whether it succeeds or fails.
-/

namespace Selfhost.Storage

open Selfhost.Lib

variable {platform : Platform} {disk : Disk} {here there : Dir} {name newName : Str} {p : Dir}

/-! ## Directories -/

theorem view_removeTree (hp : ¬ here ++ [name] <+: p) : (removeTree disk here name).2.view p = disk.view p := by
  unfold removeTree
  split
  · exact Forest.view_alter_of_not_below (Forest.onlyAt_erase name) hp disk
  · rfl
  · rename_i child hopen
    obtain ⟨rfl, -⟩ := openDir_ok hopen
    split
    · split
      · exact Forest.view_alter_of_not_below (Forest.onlyAt_erase name) hp disk
      · rw [Forest.alter_concat]
        exact Forest.view_alter_of_not_below (Forest.onlyAt_mapDir name _) hp disk
    · rfl

/-- What was removed lay in a directory. -/
theorem isDir_of_removeTree {disk' : Disk} (h : removeTree disk here name = (.ok (), disk')) : disk.IsDir here := by
  unfold removeTree at h
  split at h
  · rename_i hopen
    obtain ⟨data, hdata⟩ := openDir_notADirectory hopen
    exact Forest.get_dir_of_append hdata (List.cons_ne_nil _ _)
  · cases h
  · rename_i child hopen
    obtain ⟨rfl, inside, hi⟩ := openDir_ok hopen
    exact Forest.get_dir_of_append hi (List.cons_ne_nil _ _)

theorem view_clearDestination {replace : Bool} (hp : ¬ there ++ [newName] <+: p) :
    (clearDestination disk there newName replace).2.view p = disk.view p := by
  have hremoved : (removeTree disk there newName).2.view p = disk.view p := view_removeTree hp
  unfold clearDestination
  split
  · rfl
  · rfl
  · split
    · split
      · rename_i heq
        rw [heq] at hremoved
        exact hremoved
      · rename_i heq
        rw [heq] at hremoved
        exact hremoved
    · rfl

theorem view_renameChild {disk' : Disk} (h : renameChild platform disk here name there newName = .ok disk')
    (hp : ¬ here ++ [name] <+: p) (hp' : ¬ there ++ [newName] <+: p) : disk'.view p = disk.view p := by
  rw [movedTo_renameChild h p, if_neg hp', if_neg hp]

theorem createDir_ok {out : Disk × Dir} (h : createDir platform disk here name = .ok out) :
    disk.IsDir here ∧ disk.get (here ++ [name]) = none ∧
      out = (disk.alter (Forest.insert name (.dir .nil)) here, here ++ [name]) := by
  unfold createDir at h
  split at h
  · cases h
  · split at h
    · cases h
    · cases h
    · rename_i hc
      split at h
      · cases h
      · rename_i hnone
        cases h
        exact ⟨isDir_of_collisions hc, hnone, rfl⟩

/-- A new directory is seen at its own path only. -/
theorem view_createDir {out : Disk × Dir} (h : createDir platform disk here name = .ok out) (hp : p ≠ here ++ [name]) :
    out.1.view p = disk.view p := by
  obtain ⟨hdir, hnone, rfl⟩ := createDir_ok h
  rw [Forest.view_insert hdir]
  split
  · rename_i hbelow
    obtain ⟨q, rfl⟩ := hbelow
    rw [Forest.view_none_of_get hnone, Forest.drop_append_concat]
    cases q with
    | nil => exact absurd (List.append_nil _) hp
    | cons k q => rfl
  · rfl

/-! ## Files -/

/-- No temporary name of a directory leads to a path. -/
def OffTemporary (here p : Dir) : Prop := ∀ n, ¬ isPlain n → ¬ here ++ [n] <+: p

theorem view_file_below {data : FileData} {q : Dir} (hq : q ≠ []) : (Entry.file data : Entry Str FileData).view q = none :=
  if_neg hq

/-- A file that is published is seen at its own path only. A file that cannot be published stays under its temporary
name. -/
theorem view_commit {staging : Staging} {data : FileData} {sequence : Nat} {existing : Existing}
    (hbegin : Staging.begin platform sequence disk here name existing = .ok staging) (hp : p ≠ here ++ [name])
    (htemp : existing = .replace → OffTemporary here p) :
    (staging.commit disk here name data).2.view p = disk.view p := by
  obtain ⟨-, hdir, hstaging⟩ := begin_ok hbegin
  rcases hstaging with ⟨rfl, hnone⟩ | ⟨rfl, hreplace⟩
  · simp only [Staging.commit]
    rw [Forest.view_insert hdir]
    split
    · rename_i hbelow
      obtain ⟨q, rfl⟩ := hbelow
      have hq : q ≠ [] := by
        rintro rfl
        exact hp (List.append_nil _)
      rw [Forest.view_none_of_get hnone, Forest.drop_append_concat, view_file_below hq]
    · rfl
  · have hoff := htemp hreplace _ (temporaryName_not_plain platform sequence)
    simp only [Staging.commit]
    split
    · exact Forest.view_alter_of_not_below (Forest.onlyAt_insert _ _) hoff disk
    · rename_i hnotdir
      have herased : (disk.alter (Forest.erase name) here).IsDir here :=
        Forest.isDir_erase hdir hdir (not_prefix_of_concat here name)
      rw [Forest.view_insert herased, Forest.view_erase hdir]
      split
      · rename_i hbelow
        obtain ⟨q, rfl⟩ := hbelow
        have hq : q ≠ [] := by
          rintro rfl
          exact hp (List.append_nil _)
        rw [Forest.drop_append_concat, view_file_below hq]
        -- What was there is no directory, so it has nothing below it.
        cases hold : disk.get (here ++ [name]) with
        | none => exact (Forest.view_none_of_get hold).symm
        | some e =>
            cases e with
            | dir inside => exact absurd hold (hnotdir inside)
            | file old =>
                rw [Forest.view_eq_of_get hold, view_file_below hq]
      · rfl

theorem view_receiveBody {w : World} {r : Reservation} {existing : Existing} {data : FileData} {chunks : List UInt64}
    (hp : p ≠ here ++ [name]) (htemp : existing = .replace → OffTemporary here p) :
    (receiveBody platform w r here name existing data chunks).2.disk.view p = w.disk.view p := by
  unfold receiveBody
  split
  · rfl
  · rename_i staging hbegin
    have hcommit : (staging.commit w.disk here name data).2.view p = w.disk.view p := view_commit hbegin hp htemp
    dsimp only
    split
    · rfl
    · split
      · rename_i heq
        rw [heq] at hcommit
        exact hcommit
      · rename_i heq
        rw [heq] at hcommit
        exact hcommit

theorem disk_reserve (platform : Platform) (vol : Volume) (w : World) (declared : UInt64) :
    (vol.reserve platform w declared).2.disk = w.disk := by
  obtain ⟨failure, h⟩ | ⟨failure, u, counts', -, h⟩ | ⟨u, counts', -, -, h⟩ := reserve_cases platform vol w declared
  · rw [h]
  · rw [h]
  · rw [h]

theorem view_copyFile {into : Volume} {w : World} (hp : p ≠ there ++ [newName]) :
    (copyFile platform into w here name there newName).2.disk.view p = w.disk.view p := by
  unfold copyFile
  split
  · rfl
  · rename_i data _
    have hdisk := disk_reserve platform into w data.len
    split
    · rename_i heq
      rw [heq] at hdisk
      rw [← hdisk]
    · rename_i heq
      rw [heq] at hdisk
      rw [view_receiveBody hp (fun h => Existing.noConfusion h), ← hdisk]

/-! ## Transfers -/

/-- A chain of copies leaves a path alone if each of them does. -/
theorem view_foldl_andThen {step : World → Str → Outcome Unit} {entries : List Str} {outcome : Outcome Unit}
    (hstep : ∀ w, ∀ entry ∈ entries, (step w entry).2.disk.view p = w.disk.view p) :
    (entries.foldl (fun outcome entry => andThen outcome fun w => step w entry) outcome).2.disk.view p =
      outcome.2.disk.view p := by
  induction entries generalizing outcome with
  | nil => rfl
  | cons entry entries ih =>
      rw [List.foldl_cons, ih fun w e he => hstep w e (List.mem_cons_of_mem _ he)]
      obtain ⟨result, w⟩ := outcome
      cases result with
      | error failure => rfl
      | ok u => exact hstep w entry List.mem_cons_self

theorem view_copyInto {into : Volume} {levels : Nat} {w : World} (hp : ¬ there ++ [newName] <+: p) :
    (copyInto platform into levels w here name there newName).2.disk.view p = w.disk.view p := by
  have hne : p ≠ there ++ [newName] := by
    rintro rfl
    exact hp List.prefix_rfl
  induction levels generalizing w here name there newName with
  | zero => rfl
  | succ levels ih =>
      unfold copyInto
      split
      · split
        · rfl
        · rename_i disk target hcreate
          have htarget : target = there ++ [newName] := congrArg Prod.snd (createDir_ok hcreate).2.2
          have hdisk : disk.view p = w.disk.view p := view_createDir hcreate hne
          dsimp only
          split
          · exact hdisk
          · rw [view_foldl_andThen]
            · exact hdisk
            · intro w entry _
              subst htarget
              have hbelow : ¬ there ++ [newName] ++ [entry] <+: p := fun h => hp ((List.prefix_append _ _).trans h)
              refine ih hbelow ?_
              rintro rfl
              exact hbelow List.prefix_rfl
      · exact view_copyFile hne
      · rfl

theorem view_renamed {sequence : Nat} {disk' : Disk} (h : Renamed platform sequence disk disk' here name there newName)
    (hp : ¬ here ++ [name] <+: p) (hp' : ¬ there ++ [newName] <+: p) (htemp : OffTemporary here p) :
    disk'.view p = disk.view p := by
  rcases h with h | ⟨rfl, away, hfirst, hsecond⟩
  · exact view_renameChild h hp hp'
  · have hoff := htemp _ (temporaryName_not_plain platform sequence)
    rw [view_renameChild hsecond hoff hp', view_renameChild hfirst hp hoff]

theorem view_performMove {home into : Volume} {source target : RelativePath} {w : World} {ends : Ends} {existed : Bool}
    (hc : ends.Checked disk home into source target) (hp : ¬ ends.source <+: p) (hp' : ¬ ends.target <+: p)
    (htemp : OffTemporary ends.here p) :
    (performMove platform home into w ends existed).2.disk.view p = w.disk.view p := by
  obtain ⟨error, he, hio⟩ | ⟨disk', he, hmoved, -⟩ :=
    renameInto_cases platform w.sequence w.disk ends.here ends.there hc.plain hc.plain'
  · rw [performMove_of_error he hio]
  · rw [performMove_of_ok he]
    exact view_renamed hmoved hp hp' htemp

/-! ## Shares -/

section Shares

variable {vol home into : Volume} {path source target : RelativePath} {replace : Bool} {w : World}

/-- The directory that a path lies in, and the path in it. -/
theorem locate_eq {parent : Dir} (hname : path.fileName = some name) (hparent : vol.parentOf disk path = .ok parent) :
    parent = vol.id :: path.parent.names ∧ vol.locate path = parent ++ [name] := by
  obtain ⟨rfl, -⟩ := parentOf_ok hparent
  refine ⟨rfl, ?_⟩
  rw [Volume.locate, RelativePath.names_eq hname]
  rfl

theorem view_delete (hp : ¬ vol.locate path <+: p) : (vol.delete w path).2.disk.view p = w.disk.view p := by
  unfold Volume.delete
  split
  · rfl
  · rfl
  · rename_i name _ hname
    split
    · rfl
    · rename_i parent hparent
      rw [(locate_eq hname hparent).2] at hp
      have hremoved : (removeTree w.disk parent name).2.view p = w.disk.view p := view_removeTree hp
      split
      · rename_i heq
        rw [heq] at hremoved
        exact hremoved
      · rename_i heq
        rw [heq] at hremoved
        exact hremoved

theorem view_createDirectory (hp : p ≠ vol.locate path) :
    (vol.createDirectory platform w path).2.disk.view p = w.disk.view p := by
  unfold Volume.createDirectory
  split
  · rfl
  · rfl
  · rename_i name _ hname
    split
    · rfl
    · rename_i parent hparent
      rw [(locate_eq hname hparent).2] at hp
      split
      · rfl
      · rename_i hcreate
        exact view_createDir hcreate hp

theorem view_upload {declared : UInt64} {existing : Existing} {data : FileData} {chunks : List UInt64}
    (hp : p ≠ vol.locate path) (htemp : OffTemporary (vol.id :: path.parent.names) p) :
    (vol.upload platform w path existing declared data chunks).2.disk.view p = w.disk.view p := by
  unfold Volume.upload
  split
  · rfl
  · split
    · rfl
    · rename_i name hname
      split
      · rfl
      · rename_i parent hparent
        obtain ⟨rfl, hlocate⟩ := locate_eq hname hparent
        rw [hlocate] at hp
        have hdisk := disk_reserve platform vol w declared
        split
        · rename_i heq
          rw [heq] at hdisk
          rw [← hdisk]
        · rename_i heq
          rw [heq] at hdisk
          rw [view_receiveBody hp fun _ => htemp, ← hdisk]

theorem view_moveTo (hp : ¬ home.locate source <+: p) (hp' : ¬ into.locate target <+: p)
    (htemp : OffTemporary (home.id :: source.parent.names) p) :
    (home.moveTo platform w source into target replace).2.disk.view p = w.disk.view p := by
  obtain ⟨⟨failure, h⟩, -⟩ | ⟨ends, hs, h⟩ := moveTo_cases platform home into source target replace w
  · rw [h]
  · rw [h]
    have hc := hs.checked
    rw [← hc.source_eq] at hp
    rw [← hc.target_eq] at hp'
    rw [← hc.here_eq] at htemp
    have hcleared : (clearDestination w.disk ends.there ends.newName replace).2.view p = w.disk.view p :=
      view_clearDestination hp'
    split
    · rename_i heq
      rw [heq] at hcleared
      exact hcleared
    · rename_i heq
      rw [heq] at hcleared
      rw [view_performMove hc hp hp' htemp]
      exact hcleared

theorem view_copyTo (hp : ¬ into.locate target <+: p) :
    (home.copyTo platform w source into target replace).2.disk.view p = w.disk.view p := by
  obtain ⟨⟨failure, h⟩, -⟩ | ⟨ends, hs, h⟩ := copyTo_cases platform home into source target replace w
  · rw [h]
  · rw [h]
    rw [← hs.checked.target_eq] at hp
    have hcleared : (clearDestination w.disk ends.there ends.newName replace).2.view p = w.disk.view p :=
      view_clearDestination hp
    split
    · rename_i heq
      rw [heq] at hcleared
      exact hcleared
    · rename_i disk heq
      rw [heq] at hcleared
      have hcopied : (copyInto platform into maxTreeDepth { w with disk } ends.here ends.name ends.there
          ends.newName).2.disk.view p = disk.view p := view_copyInto hp
      split
      · rename_i heq'
        rw [heq'] at hcopied
        exact hcopied.trans hcleared
      · rename_i heq'
        rw [heq'] at hcopied
        exact hcopied.trans hcleared

end Shares

end Selfhost.Storage
