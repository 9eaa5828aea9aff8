import Mathlib.Data.List.Nodup
import Selfhost.Lib.Run
import Selfhost.Mail.Folder

/-!
# UIDs are not used twice, unless a counter is cut short

The counter is rewritten in place, and a counter that cannot be read counts from 1. `uids_sound` says that as long
as no counter is cut short, messages appear in the order of their UIDs and the counter does not reach its end, no
UID is used twice; and that a stamp is kept, which only the inbox has.
-/

namespace Selfhost.Mail

open Selfhost.Lib

namespace FolderRun

/-- UIDs appear in ascending order, the next one is above all that are present, and no message replaced another. -/
structure UidsSound (s : FolderRun) : Prop where
  increasing : s.appeared.Pairwise (· < ·)
  next : ∀ e ∈ s.dir.files, e.name.uid < s.nextUid
  kept : s.lost = []

/-- A counter is written as a whole and stays below the last number, and messages appear in the order in which
they got their UIDs. -/
def Careful (s : FolderRun) : FolderEvent → Prop
  | .allocate _ => s.nextUid.toNat + 1 < 2 ^ 32
  | .allocateCut kept _ => s.nextUid.toNat + 1 < 2 ^ 32 ∧ (FolderDir.counterText s.nextUid).length ≤ kept
  | .publish index _ => index = 0
  | _ => True

instance (s : FolderRun) : ∀ event, Decidable (s.Careful event)
  | .allocate _ => inferInstanceAs (Decidable (s.nextUid.toNat + 1 < 2 ^ 32))
  | .allocateCut kept _ =>
      inferInstanceAs (Decidable (s.nextUid.toNat + 1 < 2 ^ 32 ∧ (FolderDir.counterText s.nextUid).length ≤ kept))
  | .publish index _ => inferInstanceAs (Decidable (index = 0))
  | .start .. | .startCut .. | .crash | .abandon _ | .setFlags .. | .purge _ => instDecidableTrue

/-- The UIDs that were handed out to messages that appeared or may still appear. -/
def uids (s : FolderRun) : List UInt32 := s.appeared ++ s.inFlight.map Prod.fst

structure Inv (s : FolderRun) : Prop where
  sorted : s.uids.Pairwise (· < ·)
  memory : ∀ u ∈ s.uids, u < s.nextUid
  disk : ∀ u ∈ s.uids, u < s.dir.readUidNext
  present : ∀ e ∈ s.dir.files, e.name.uid ∈ s.appeared
  distinct : (s.dir.files.map fun e => e.name.uid).Nodup
  lost : s.lost = []

theorem Inv.sound {s : FolderRun} (h : s.Inv) : s.UidsSound := by
  refine ⟨(List.pairwise_append.mp h.sorted).1, fun e he => ?_, h.lost⟩
  exact h.memory _ (List.mem_append_left _ (h.present e he))

/-! ## Files -/

theorem eq_of_uid {files : List Entry} (h : (files.map fun e => e.name.uid).Nodup) {e f : Entry} (he : e ∈ files)
    (hf : f ∈ files) (huid : e.name.uid = f.name.uid) : e = f :=
  List.inj_on_of_nodup_map h he hf huid

theorem samePath_refl (e : Entry) : e.samePath e = true := by simp [Entry.samePath]

/-- A file with a new UID replaces none. -/
theorem filter_samePath_eq_nil {files : List Entry} {e : Entry} (h : ∀ f ∈ files, f.name.uid ≠ e.name.uid) :
    files.filter (·.samePath e) = [] := by
  rw [List.filter_eq_nil_iff]
  exact fun f hf hpath => h f hf (Entry.uid_of_samePath hpath)

theorem place_of_fresh {files : List Entry} {e : Entry} (h : ∀ f ∈ files, f.name.uid ≠ e.name.uid) :
    FolderDir.place files e = files ++ [e] := by
  rw [FolderDir.place, List.filter_eq_self.mpr]
  intro f hf
  rw [Bool.not_eq_true']
  exact Bool.eq_false_iff.mpr fun hpath => h f hf (Entry.uid_of_samePath hpath)

/-! ## Steps -/

theorem uint32_lt_succ {u v : UInt32} (h : u < v) (hv : v.toNat + 1 < 2 ^ 32) : u < v + 1 := by
  rw [UInt32.lt_iff_toNat_lt] at *
  rw [UInt32.toNat_add, UInt32.toNat_one, Nat.mod_eq_of_lt hv]
  omega

theorem uint32_lt_self_succ {v : UInt32} (hv : v.toNat + 1 < 2 ^ 32) : v < v + 1 := by
  rw [UInt32.lt_iff_toNat_lt, UInt32.toNat_add, UInt32.toNat_one, Nat.mod_eq_of_lt hv]
  omega

theorem Inv.dead {s : FolderRun} (h : s.Inv) : s.dead.Inv := by
  have hsub : ∀ u ∈ s.dead.uids, u ∈ s.uids := by
    intro u hu
    rw [uids, FolderRun.dead, List.map_nil, List.append_nil] at hu
    exact List.mem_append_left _ hu
  refine ⟨?_, fun u hu => h.disk u (hsub u hu), fun u hu => h.disk u (hsub u hu), h.present, h.distinct, h.lost⟩
  rw [uids, FolderRun.dead, List.map_nil, List.append_nil]
  exact (List.pairwise_append.mp h.sorted).1

theorem Inv.allocate {s : FolderRun} {bytes : Bytes} (h : s.Inv) (hend : s.nextUid.toNat + 1 < 2 ^ 32) :
    Inv { s with
      dir := { s.dir with uidNext := some (FolderDir.counterText s.nextUid) }
      memory := some (s.nextUid + 1)
      inFlight := s.inFlight ++ [(s.nextUid, bytes)] } := by
  have huids : ∀ u, u ∈ s.appeared ++ (s.inFlight ++ [(s.nextUid, bytes)]).map Prod.fst →
      u ∈ s.uids ∨ u = s.nextUid := by
    intro u hu
    rw [List.map_append, ← List.append_assoc] at hu
    exact (List.mem_append.mp hu).imp_right List.mem_singleton.mp
  have hbelow : ∀ u, u ∈ s.appeared ++ (s.inFlight ++ [(s.nextUid, bytes)]).map Prod.fst → u < s.nextUid + 1 := by
    intro u hu
    rcases huids u hu with hu | rfl
    · exact uint32_lt_succ (h.memory u hu) hend
    · exact uint32_lt_self_succ hend
  refine ⟨?_, hbelow, fun u hu => ?_, h.present, h.distinct, h.lost⟩
  · show (s.appeared ++ (s.inFlight ++ [(s.nextUid, bytes)]).map Prod.fst).Pairwise (· < ·)
    rw [List.map_append, ← List.append_assoc]
    refine List.pairwise_append.mpr ⟨h.sorted, List.pairwise_singleton _ _, fun u hu v hv => ?_⟩
    rw [List.mem_singleton.mp hv]
    exact h.memory u hu
  · rw [FolderDir.readUidNext_counterText]
    exact hbelow u hu

/-- A counter that is written as a whole, although nobody gets the UID. -/
theorem Inv.spend {s : FolderRun} (h : s.Inv) (hend : s.nextUid.toNat + 1 < 2 ^ 32) :
    Inv { s with dir := { s.dir with uidNext := some (FolderDir.counterText s.nextUid) } } := by
  have hdisk : ∀ u ∈ s.uids, u < s.nextUid + 1 := fun u hu => uint32_lt_succ (h.memory u hu) hend
  refine ⟨h.sorted, fun u hu => ?_, fun u hu => ?_, h.present, h.distinct, h.lost⟩
  · have hnext : u < s.memory.getD s.dir.readUidNext := h.memory u hu
    show u < s.memory.getD (FolderDir.readUidNext ⟨some (FolderDir.counterText s.nextUid), _, _⟩)
    rw [FolderDir.readUidNext_counterText]
    cases hmemory : s.memory with
    | none => exact hdisk u hu
    | some m =>
        rw [hmemory] at hnext
        exact hnext
  · rw [FolderDir.readUidNext_counterText]
    exact hdisk u hu

/-- A rename that replaces nothing, of a message that is there or appears with it. -/
theorem Inv.rename {s : FolderRun} {files : List Entry} {e : Entry} {inFlight : List (UInt32 × Bytes)}
    {appeared : List UInt32} (h : s.Inv) (hfiles : files.Sublist s.dir.files)
    (hfresh : ∀ f ∈ files, f.name.uid ≠ e.name.uid) (hsame : appeared ++ inFlight.map Prod.fst = s.uids)
    (hmore : ∀ u ∈ s.appeared, u ∈ appeared) (he : e.name.uid ∈ appeared) :
    Inv { s.rename files e with inFlight, appeared } := by
  refine ⟨?_, fun u hu => h.memory u (hsame ▸ hu), fun u hu => h.disk u (hsame ▸ hu), fun f hf => ?_, ?_, ?_⟩
  · show (appeared ++ inFlight.map Prod.fst).Pairwise (· < ·)
    rw [hsame]
    exact h.sorted
  · rcases FolderDir.mem_place hf with hf | rfl
    · exact hmore _ (h.present f (hfiles.subset hf))
    · exact he
  · show ((FolderDir.place files e).map fun e => e.name.uid).Nodup
    rw [place_of_fresh hfresh, List.map_append]
    refine List.nodup_append.mpr ⟨(hfiles.map _).nodup h.distinct, List.nodup_singleton _, fun u hu v hv => ?_⟩
    obtain ⟨f, hf, rfl⟩ := List.mem_map.mp hu
    rw [List.mem_singleton.mp hv]
    exact hfresh f hf
  · show s.lost ++ files.filter (·.samePath e) = []
    rw [h.lost, filter_samePath_eq_nil hfresh]
    rfl

/-- Files are removed. -/
theorem Inv.shrink {s : FolderRun} {files : List Entry} (h : s.Inv) (hfiles : files.Sublist s.dir.files) :
    Inv { s with dir := { s.dir with files } } :=
  ⟨h.sorted, h.memory, h.disk, fun e he => h.present e (hfiles.subset he), (hfiles.map _).nodup h.distinct, h.lost⟩

theorem remove_sublist (files : List Entry) (uid : UInt32) : (FolderDir.remove files uid).Sublist files := by
  unfold FolderDir.remove
  split
  · exact List.filter_sublist
  · exact List.Sublist.refl _

theorem Inv.live {s s' : FolderRun} {event : FolderEvent} (h : s.Inv) (hcareful : s.Careful event)
    (hstep : s.live event = some s') : s'.Inv := by
  cases event with
  | start pid now => cases hstep
  | startCut now kept => cases hstep
  | crash =>
      cases hstep
      exact h.dead
  | allocate bytes =>
      cases hstep
      exact h.allocate hcareful
  | allocateCut kept dies =>
      obtain ⟨hend, hkept⟩ := hcareful
      have hspend := h.spend hend
      simp only [FolderRun.live, List.take_of_length_le hkept] at hstep
      cases dies with
      | false =>
          cases hstep
          exact hspend
      | true =>
          cases hstep
          exact hspend.dead
  | publish index secs =>
      obtain rfl : index = 0 := hcareful
      obtain ⟨⟨uid, bytes⟩, hfirst, rfl⟩ := Option.map_eq_some_iff.mp hstep
      obtain ⟨rest, hrest⟩ : ∃ rest, s.inFlight = (uid, bytes) :: rest := by
        cases hflight : s.inFlight with
        | nil =>
            rw [hflight] at hfirst
            cases hfirst
        | cons first rest =>
            rw [hflight] at hfirst
            cases hfirst
            exact ⟨rest, rfl⟩
      have hsorted := h.sorted
      rw [uids, hrest] at hsorted
      refine h.rename (List.Sublist.refl _) (fun f hf huid => ?_) ?_ (fun u hu => List.mem_append_left _ hu) ?_
      · have hlt := (List.pairwise_append.mp hsorted).2.2 _ (h.present f hf) uid List.mem_cons_self
        rw [show f.name.uid = uid from huid] at hlt
        exact absurd hlt (UInt32.lt_irrefl _)
      · rw [hrest, uids, hrest, List.append_assoc]
        rfl
      · exact List.mem_append_right _ List.mem_cons_self
  | abandon index =>
      cases hstep
      have hsub : (s.appeared ++ (s.inFlight.eraseIdx index).map Prod.fst).Sublist s.uids :=
        List.Sublist.append_left ((List.eraseIdx_sublist _ _).map _) _
      exact ⟨h.sorted.sublist hsub, fun u hu => h.memory u (hsub.subset hu), fun u hu => h.disk u (hsub.subset hu),
        h.present, h.distinct, h.lost⟩
  | setFlags uid flags =>
      obtain ⟨e, he, rfl⟩ := Option.map_eq_some_iff.mp hstep
      have hmem := (FolderDir.mem_of_locate he).1
      refine h.rename List.filter_sublist (fun f hf huid => ?_) rfl (fun u hu => hu) (h.present e hmem)
      obtain ⟨hfile, hpath⟩ := List.mem_filter.mp hf
      obtain rfl := eq_of_uid h.distinct hfile hmem huid
      rw [samePath_refl] at hpath
      cases hpath
  | purge uid =>
      cases hstep
      exact h.shrink (remove_sublist _ _)

theorem Inv.stamp {s : FolderRun} {text : Str} {running : Bool} {pid : Nat} (h : s.Inv) :
    Inv { s with dir := s.stamp text, running, pid } := by
  unfold FolderRun.stamp
  split
  · exact ⟨h.sorted, h.memory, h.disk, h.present, h.distinct, h.lost⟩
  · exact ⟨h.sorted, h.memory, h.disk, h.present, h.distinct, h.lost⟩

theorem Inv.step {s s' : FolderRun} {event : FolderEvent} (h : s.Inv) (hcareful : s.Careful event)
    (hstep : s.step event = some s') : s'.Inv := by
  unfold FolderRun.step at hstep
  split at hstep
  · exact h.live hcareful hstep
  · split at hstep
    · cases hstep
      exact h.stamp
    · cases hstep
      exact h.stamp
    · cases hstep

theorem inv_fresh (folder : Folder) : (fresh folder).Inv :=
  ⟨.nil, fun _ hu => (nomatch hu), fun _ hu => (nomatch hu), fun _ he => (nomatch he), .nil, rfl⟩

/-! ## Stamps -/

/-- A folder is stamped as a whole, at a time that is a number of 32 bits; only the inbox is. -/
def Stamps (s : FolderRun) : FolderEvent → Prop
  | .start _ now => s.folder = .inbox ∧ (s.needsStamp = true → 0 < now ∧ now < 2 ^ 32)
  | .startCut now kept => s.needsStamp = true → (0 < now ∧ now < 2 ^ 32) ∧ (natText now).length ≤ kept
  | _ => True

instance (s : FolderRun) : ∀ event, Decidable (s.Stamps event)
  | .start _ now => inferInstanceAs (Decidable (s.folder = .inbox ∧ (s.needsStamp = true → 0 < now ∧ now < 2 ^ 32)))
  | .startCut now kept =>
      inferInstanceAs (Decidable (s.needsStamp = true → (0 < now ∧ now < 2 ^ 32) ∧ (natText now).length ≤ kept))
  | .crash | .allocate _ | .allocateCut .. | .publish .. | .abandon _ | .setFlags .. | .purge _ => instDecidableTrue

/-- The stamp is a number other than 0, and a folder that is in use has one. -/
structure StampOk (s : FolderRun) : Prop where
  stamp : ∀ text, s.dir.uidValidity = some text → s.dir.validity ≠ 0
  stamped : s.running = true → s.dir.uidValidity ≠ none

/-- A step does not change a stamp that is there, and only `start` sets the folder to running. -/
theorem live_validity {s s' : FolderRun} {event : FolderEvent} (h : s.live event = some s') :
    s'.dir.uidValidity = s.dir.uidValidity := by
  cases event with
  | start pid now => cases h
  | startCut now kept => cases h
  | crash =>
      cases h
      rfl
  | allocate bytes =>
      cases h
      rfl
  | allocateCut kept dies =>
      cases dies with
      | false =>
          cases h
          rfl
      | true =>
          cases h
          rfl
  | publish index secs =>
      obtain ⟨⟨uid, bytes⟩, -, rfl⟩ := Option.map_eq_some_iff.mp h
      rfl
  | abandon index =>
      cases h
      rfl
  | setFlags uid flags =>
      obtain ⟨e, -, rfl⟩ := Option.map_eq_some_iff.mp h
      rfl
  | purge uid =>
      cases h
      rfl

theorem stamp_validity (s : FolderRun) (text : Str) :
    (s.stamp text).uidValidity = if s.needsStamp then some text else s.dir.uidValidity := by
  unfold FolderRun.stamp
  split <;> rfl

theorem validity_natText {now : Nat} (hpos : 0 < now) (hlt : now < 2 ^ 32) (d : FolderDir)
    (h : d.uidValidity = some (natText now)) : d.validity ≠ 0 := by
  have hnow : (UInt32.ofNat now).toNat = now := UInt32.toNat_ofNat_of_lt' hlt
  have hvalue : d.validity = UInt32.ofNat now := by
    rw [FolderDir.validity, h, Option.bind_some, trim_natText, ← hnow, parseU32_natText, hnow]
    rfl
  rw [hvalue]
  intro hzero
  rw [hzero] at hnow
  exact absurd hnow (Nat.ne_of_lt hpos)

theorem validity_congr {d d' : FolderDir} (h : d.uidValidity = d'.uidValidity) : d.validity = d'.validity := by
  rw [FolderDir.validity, FolderDir.validity, h]

theorem StampOk.stamping {s : FolderRun} {text : Str} {running : Bool} {pid : Nat} (h : s.StampOk)
    (htext : s.needsStamp = true → ∃ now, (0 < now ∧ now < 2 ^ 32) ∧ text = natText now)
    (hrunning : running = true → s.folder = .inbox) :
    StampOk { s with dir := s.stamp text, running, pid } := by
  have hvalidity := stamp_validity s text
  refine ⟨fun found hfound => ?_, fun hrun hnone => ?_⟩
  · cases hneeds : s.needsStamp with
    | true =>
        obtain ⟨now, ⟨hpos, hlt⟩, rfl⟩ := htext hneeds
        rw [hneeds, if_pos rfl] at hvalidity
        exact validity_natText hpos hlt _ hvalidity
    | false =>
        rw [hneeds, if_neg (by simp)] at hvalidity
        have hstamp := h.stamp found (hvalidity ▸ hfound)
        rw [← validity_congr hvalidity] at hstamp
        exact hstamp
  · have hstamped : (s.stamp text).uidValidity = none := hnone
    rw [hvalidity] at hstamped
    split at hstamped
    · cases hstamped
    · rename_i hneeds
      exact hneeds (by simp [needsStamp, hrunning hrun, hstamped])

theorem StampOk.step {s s' : FolderRun} {event : FolderEvent} (h : s.StampOk) (hstamps : s.Stamps event)
    (hstep : s.step event = some s') : s'.StampOk := by
  unfold FolderRun.step at hstep
  split at hstep
  · rename_i hrunning
    have hsame := live_validity hstep
    refine ⟨fun text htext => ?_, fun _ => hsame ▸ h.stamped hrunning⟩
    rw [validity_congr hsame]
    exact h.stamp text (hsame ▸ htext)
  · rename_i hrunning
    split at hstep
    · cases hstep
      exact h.stamping (fun hneeds => ⟨_, hstamps.2 hneeds, rfl⟩) fun _ => hstamps.1
    · cases hstep
      refine h.stamping (fun hneeds => ⟨_, (hstamps hneeds).1, ?_⟩) fun hrun => absurd hrun hrunning
      exact List.take_of_length_le (hstamps hneeds).2
    · cases hstep

/-- A stamp that is there stays. -/
theorem validity_of_run {s s' : FolderRun} {events : List FolderEvent} {text : Str}
    (hrun : Run step (fun _ _ => True) s events s') (h : s.dir.uidValidity = some text) :
    s'.dir.uidValidity = some text := by
  refine hrun.invariant (I := fun s => s.dir.uidValidity = some text) (fun s event s' h _ hstep => ?_) h
  unfold FolderRun.step at hstep
  split at hstep
  · rw [live_validity hstep]
    exact h
  · have hstamp : ∀ text', (s.stamp text').uidValidity = some text := by
      intro text'
      rw [stamp_validity, if_neg (by simp [needsStamp, h])]
      exact h
    split at hstep
    · cases hstep
      exact hstamp _
    · cases hstep
      exact hstamp _
    · cases hstep

end FolderRun

open FolderRun

/-- In every run in which counters are written as a whole, messages appear in the order of their UIDs and the
counter does not reach its end, UIDs are sound; and in every run of an inbox whose stamp is written as a whole, at
a time between 1970 and 2106, the validity is not 0 and never changes again. -/
theorem uids_sound (folder : Folder) :
    (∀ (events : List FolderEvent) (s : FolderRun),
      Run step Careful (FolderRun.fresh folder) events s → s.UidsSound) ∧
    ∀ (events more : List FolderEvent) (s s' : FolderRun),
      Run step Stamps (FolderRun.fresh folder) events s → s.running = true →
      Run step (fun _ _ => True) s more s' →
      s.dir.validity ≠ 0 ∧ s'.dir.validity = s.dir.validity := by
  refine ⟨fun events s hrun => ?_, fun events more s s' hrun hrunning hmore => ?_⟩
  · exact (hrun.invariant (fun _ _ _ h hcareful hstep => h.step hcareful hstep) (inv_fresh folder)).sound
  · have hstamp : s.StampOk := by
      refine hrun.invariant (fun _ _ _ h hstamps hstep => h.step hstamps hstep) ⟨fun _ htext => ?_, fun hrun => ?_⟩
      · cases htext
      · cases hrun
    obtain ⟨text, htext⟩ := Option.ne_none_iff_exists'.mp (hstamp.stamped hrunning)
    exact ⟨hstamp.stamp text htext, validity_congr ((validity_of_run hmore htext).trans htext.symm)⟩

/-- Two messages in an inbox, and a restart between them. -/
def twoMessages : List FolderEvent :=
  [.start 1 5, .allocate [0x61], .publish 0 10, .crash, .start 2 20, .allocate [0x62], .publish 0 30]

/-- The inbox after them. -/
def afterTwoMessages : FolderRun :=
  ⟨.inbox, ⟨some ['3'], some ['5'], [newEntry 10 1 1 [0x61], newEntry 30 2 2 [0x62]]⟩, true, 2, some 3, [], [1, 2], []⟩

theorem uids_sound_restart : afterTwoMessages.UidsSound ∧ afterTwoMessages.dir.validity ≠ 0 := by
  have hcareful : Run step Careful (FolderRun.fresh .inbox) twoMessages afterTwoMessages :=
    Run.of_exec (by decide +kernel)
  have hstamps : Run step Stamps (FolderRun.fresh .inbox) twoMessages afterTwoMessages :=
    Run.of_exec (by decide +kernel)
  exact ⟨(uids_sound .inbox).1 _ _ hcareful, ((uids_sound .inbox).2 _ [] _ _ hstamps rfl .nil).1⟩

/-- The server dies when the counter is cut to nothing: the next message gets UID 1 again and replaces the first.
Two deliveries at once appear in the other order, and a folder that is not the inbox has validity 0. -/
theorem uids_broken :
    (∃ s, Run step (fun _ _ => True) (FolderRun.fresh .inbox)
        [.start 1 5, .allocate [0x61], .publish 0 10, .allocateCut 0 true,
        .start 1 10, .allocate [0x62], .publish 0 10] s ∧ s.appeared = [1, 1] ∧ s.lost ≠ [] ∧ ¬ s.UidsSound) ∧
      (∃ s, Run step (fun _ _ => True) (FolderRun.fresh .inbox)
        [.start 1 5, .allocate [0x61], .allocate [0x62], .publish 1 10,
        .publish 0 10] s ∧ s.appeared = [2, 1] ∧ ¬ s.UidsSound) ∧
      ∃ s, Run step (fun _ _ => True) (FolderRun.fresh .sent) [.start 1 5] s ∧ s.running = true ∧ s.dir.validity = 0 := by
  refine ⟨⟨⟨.inbox, ⟨some ['2'], some ['5'], [newEntry 10 1 1 [0x62]]⟩, true, 1, some 2, [], [1, 1],
      [newEntry 10 1 1 [0x61]]⟩, Run.of_exec (by decide +kernel), rfl, by simp, fun h => ?_⟩,
    ⟨⟨.inbox, ⟨some ['3'], some ['5'], [newEntry 10 1 2 [0x62], newEntry 10 1 1 [0x61]]⟩, true, 1, some 3, [], [2, 1],
      []⟩, Run.of_exec (by decide +kernel), rfl, fun h => ?_⟩,
    ⟨⟨.sent, .empty, true, 1, none, [], [], []⟩, Run.of_exec (by decide +kernel), rfl, rfl⟩⟩
  · exact absurd h.kept (by simp)
  · exact absurd h.increasing (by decide)

end Selfhost.Mail
