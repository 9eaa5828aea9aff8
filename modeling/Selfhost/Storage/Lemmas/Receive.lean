import Selfhost.Storage.Lemmas.Fs
import Selfhost.Storage.Lemmas.Ledger
import Selfhost.Storage.Volume

/-!
# One upload from end to end

An upload that runs to its end leaves one trace in the ledger: the size of the share is known afterwards, and
what landed has been added to it.
-/

namespace Selfhost.Storage

open Selfhost.Lib

variable {platform : Platform} {vol : Volume} {w w' : World} {u declared : UInt64} {counts counts' : Counts}
  {r : Reservation}

/-! ## The size of a share -/

/-- `usage` finds the size `u`, cached or measured, and leaves `counts'` behind. -/
def Volume.Sized (vol : Volume) (w : World) (u : UInt64) (counts' : Counts) : Prop :=
  (w.counts.used w.now vol.id = some u ∧ counts' = w.counts) ∨
    (w.counts.used w.now vol.id = none ∧ measure w.disk vol.root = .ok u ∧
      counts' = w.counts.observe w.now vol.id u)

theorem usage_cases (platform : Platform) (vol : Volume) (w : World) :
    (∃ failure, vol.usage platform w = (.error failure, w)) ∨
    ∃ u counts', vol.Sized w u counts' ∧
      vol.usage platform w =
        (.ok ⟨u, platform.freeSpace vol.id w.disk, 0, 0⟩, { w with counts := counts' }) := by
  unfold Volume.usage
  cases hused : w.counts.used w.now vol.id with
  | some known => exact Or.inr ⟨known, w.counts, Or.inl ⟨hused, rfl⟩, rfl⟩
  | none =>
      simp only
      cases hm : measure w.disk vol.root with
      | error error => exact Or.inl ⟨_, rfl⟩
      | ok measured => exact Or.inr ⟨measured, _, Or.inr ⟨hused, hm, rfl⟩, rfl⟩

theorem usage_of_sized (h : vol.Sized w u counts') :
    vol.usage platform w =
      (.ok ⟨u, platform.freeSpace vol.id w.disk, 0, 0⟩, { w with counts := counts' }) := by
  unfold Volume.usage
  cases h with
  | inl h =>
      obtain ⟨hused, rfl⟩ := h
      rw [hused]
  | inr h =>
      obtain ⟨hused, hm, rfl⟩ := h
      rw [hused, hm]

/-- A size that may still be trusted. -/
def Fresh (now : Int) (e : ShareUsage) : Prop := now - e.measuredAt < usageTtl

theorem used_eq_some {now : Int} {share : Str} :
    counts.used now share = some u ↔ ∃ e, counts.entry share = some e ∧ Fresh now e ∧ e.usedBytes = u := by
  unfold Counts.used Fresh
  cases counts.entry share with
  | none => simp
  | some e => simp

theorem Volume.Sized.entry (h : vol.Sized w u counts') :
    ∃ e, counts'.entry vol.id = some e ∧ Fresh w.now e ∧ e.usedBytes = u ∧
      e.inFlightBytes = w.counts.shareInFlight vol.id := by
  cases h with
  | inl h =>
      obtain ⟨hused, rfl⟩ := h
      obtain ⟨e, he, hf, hu⟩ := used_eq_some.mp hused
      exact ⟨e, he, hf, hu, (Counts.shareInFlight_of_entry he).symm⟩
  | inr h =>
      obtain ⟨-, -, rfl⟩ := h
      obtain ⟨e, he, hu, hm, hf⟩ := Counts.entry_observe w.counts w.now vol.id u
      refine ⟨e, he, ?_, hu, hf⟩
      rw [Fresh, hm, Int.sub_self]
      decide

/-! ## The trace in the ledger -/

/-- The counters after an upload into `share` has come and gone: the size is known and includes what landed,
and nothing is promised that was not promised before. -/
structure Credited (now : Int) (share : Str) (total : UInt64) (counts counts' : Counts) : Prop where
  entry : ∃ e, counts'.entry share = some e ∧ Fresh now e ∧ e.usedBytes = total ∧
    e.inFlightBytes.toNat ≤ (counts.shareInFlight share).toNat
  running : counts'.uploadsRunning.toNat ≤ counts.uploadsRunning.toNat
  inFlight : counts'.inFlightBytes.toNat ≤ counts.inFlightBytes.toNat
  elsewhere : ∀ other, other ≠ share → counts'.entry other = counts.entry other
  unique : counts.Unique → counts'.Unique

theorem Volume.Sized.credited (h : vol.Sized w u counts') : Credited w.now vol.id u w.counts counts' := by
  obtain ⟨e, he, hf, hu, hfl⟩ := h.entry
  have hentry : ∃ e, counts'.entry vol.id = some e ∧ Fresh w.now e ∧ e.usedBytes = u ∧
      e.inFlightBytes.toNat ≤ (w.counts.shareInFlight vol.id).toNat :=
    ⟨e, he, hf, hu, by rw [hfl]⟩
  cases h with
  | inl h =>
      obtain ⟨-, rfl⟩ := h
      exact ⟨hentry, Nat.le_refl _, Nat.le_refl _, fun _ _ => rfl, fun hunique => hunique⟩
  | inr h =>
      obtain ⟨-, -, rfl⟩ := h
      exact
        { entry := hentry
          running := by rw [Counts.uploadsRunning_observe]
          inFlight := by rw [Counts.inFlightBytes_observe]
          elsewhere := fun other hne => Counts.entry_observe_ne hne
          unique := Counts.unique_observe }

theorem saturatingAdd_zero (a : UInt64) : saturatingAdd a 0 = a := by
  apply UInt64.toNat.inj
  have := toNat_le_u64Max a
  simp only [toNat_saturatingAdd, UInt64.toNat_zero]
  omega

/-- The counters once an upload of `wanted` bytes has been admitted. -/
def Counts.withRoom (counts : Counts) (now : Int) (share : Str) (wanted : UInt64) : Counts :=
  (Counts.mk (saturatingAdd32 counts.uploadsRunning 1) (saturatingAdd counts.inFlightBytes wanted)
    counts.shares).reserveForShare now share wanted

/-- The room an upload took, and its return. -/
theorem Volume.Sized.released (h : vol.Sized w u counts') (wanted landed : UInt64) :
    Credited w.now vol.id (saturatingAdd u landed) w.counts
      ((counts'.withRoom w.now vol.id wanted).release wanted landed vol.id) := by
  unfold Counts.withRoom
  have hc := h.credited
  obtain ⟨e, he, hf, hu, hfl⟩ := h.entry
  have hshare : counts'.shareInFlight vol.id = e.inFlightBytes := Counts.shareInFlight_of_entry he
  have hentry : ∀ wanted, (Counts.mk (saturatingAdd32 counts'.uploadsRunning 1)
      (saturatingAdd counts'.inFlightBytes wanted) counts'.shares).entry vol.id = some e := fun _ => he
  have hreserved : ((Counts.mk (saturatingAdd32 counts'.uploadsRunning 1)
      (saturatingAdd counts'.inFlightBytes wanted) counts'.shares).reserveForShare w.now vol.id wanted).entry
        vol.id = some { e with inFlightBytes := saturatingAdd e.inFlightBytes wanted } := by
    unfold Counts.reserveForShare
    rw [hentry]
    simp only
    rw [Counts.entry_withEntry (by intro e; rfl), hentry]
    rfl
  refine ⟨?_, ?_, ?_, ?_, ?_⟩
  · rw [Counts.entry_release, hreserved, Option.map_some]
    refine ⟨_, rfl, hf, by rw [hu], ?_⟩
    simp only [toNat_saturatingSub, toNat_saturatingAdd, ← hfl]
    omega
  · have := hc.running
    simp only [Counts.release, Counts.withEntry, Counts.uploadsRunning_reserveForShare, toNat_saturatingSub32,
      toNat_saturatingAdd32]
    have : (1 : UInt32).toNat = 1 := rfl
    omega
  · have := hc.inFlight
    simp only [Counts.release, Counts.withEntry, Counts.inFlightBytes_reserveForShare, toNat_saturatingSub,
      toNat_saturatingAdd]
    omega
  · intro other hne
    rw [Counts.entry_release_ne hne, Counts.entry_reserveForShare_ne hne]
    exact hc.elsewhere other hne
  · intro hunique
    exact Counts.unique_withEntry (fun _ => rfl) (Counts.unique_reserveForShare (hc.unique hunique))

/-! ## Room -/

/-- Whether the ledger lets an upload of `wanted` bytes in, given the size of the share. -/
def Volume.Admits (platform : Platform) (vol : Volume) (disk : Disk) (counts : Counts) (u wanted : UInt64) :
    Prop :=
  admitUpload vol.limits ⟨counts.owed vol.id u, platform.freeSpace vol.id disk, counts.uploadsRunning,
    counts.inFlightBytes⟩ wanted = .allowed

/-- The reservation of an upload that was just admitted. -/
def Volume.reservation (vol : Volume) (counts : Counts) (u wanted : UInt64) : Reservation :=
  ⟨vol.id, vol.limits, counts.owed vol.id u, wanted, 0, false⟩

theorem reserve_cases (platform : Platform) (vol : Volume) (w : World) (declared : UInt64) :
    (∃ failure, vol.reserve platform w declared = (.error failure, w)) ∨
    (∃ failure u counts', vol.Sized w u counts' ∧
      vol.reserve platform w declared = (.error failure, { w with counts := counts' })) ∨
    ∃ u counts', vol.Sized w u counts' ∧ vol.Admits platform w.disk counts' u declared ∧
      vol.reserve platform w declared =
        (.ok (vol.reservation counts' u declared),
          { w with counts := counts'.withRoom w.now vol.id declared }) := by
  unfold Volume.reserve
  cases usage_cases platform vol w with
  | inl h =>
      obtain ⟨failure, h⟩ := h
      rw [h]
      exact Or.inl ⟨failure, rfl⟩
  | inr h =>
      obtain ⟨u, counts', hs, h⟩ := h
      rw [h]
      simp only
      cases ha : counts'.admitUpload w.now vol.id vol.limits u (platform.freeSpace vol.id w.disk) declared with
      | error admission => exact Or.inr (Or.inl ⟨_, u, counts', hs, rfl⟩)
      | ok pair =>
          obtain ⟨counts'', r⟩ := pair
          obtain ⟨hallow, rfl, rfl⟩ := Counts.admit_ok ha
          exact Or.inr (Or.inr ⟨u, counts', hs, hallow, rfl⟩)

theorem reserve_ok (hs : vol.Sized w u counts') (ha : vol.Admits platform w.disk counts' u declared) :
    vol.reserve platform w declared =
      (.ok (vol.reservation counts' u declared),
        { w with counts := counts'.withRoom w.now vol.id declared }) := by
  have hadmits : counts'.admitUpload w.now vol.id vol.limits u (platform.freeSpace vol.id w.disk) declared =
      .ok (counts'.withRoom w.now vol.id declared, vol.reservation counts' u declared) := by
    unfold Counts.admitUpload
    simp only
    rw [show admitUpload vol.limits ⟨counts'.owed vol.id u, platform.freeSpace vol.id w.disk,
      counts'.uploadsRunning, counts'.inFlightBytes⟩ declared = .allowed from ha]
    rfl
  unfold Volume.reserve
  rw [usage_of_sized hs]
  simp only [hadmits]

/-! ## The body -/

/-- How many bytes some chunks are. -/
def bytesOf (chunks : List UInt64) : Nat := (chunks.map UInt64.toNat).sum

theorem record_allowed (bytes : UInt64) (hw : r.written.toNat + bytes.toNat ≤ r.promised.toNat)
    (hq : ∀ limit, r.limits.quotaBytes = some limit → r.usedBefore.toNat + r.promised.toNat ≤ limit.toNat) :
    r.record bytes = (.allowed, { r with written := saturatingAdd r.written bytes }) := by
  have hmax := toNat_le_u64Max r.promised
  have hland : (saturatingAdd r.written bytes).toNat = r.written.toNat + bytes.toNat := by
    rw [toNat_saturatingAdd]
    omega
  have ha : stillAdmitted r.limits r.usedBefore r.promised (saturatingAdd r.written bytes) = .allowed := by
    refine stillAdmitted_allowed_iff.mpr ⟨by omega, ?_⟩
    intro limit hl
    have := hq limit hl
    omega
  unfold Reservation.record
  simp only [ha, if_true]

/-- A body that keeps to its declaration is recorded to its end. -/
theorem recordAll_ok {chunks : List UInt64} (hw : r.written.toNat + bytesOf chunks ≤ r.promised.toNat)
    (hq : ∀ limit, r.limits.quotaBytes = some limit → r.usedBefore.toNat + r.promised.toNat ≤ limit.toNat) :
    ∃ landed, r.recordAll chunks = .ok { r with written := landed } ∧
      landed.toNat = r.written.toNat + bytesOf chunks := by
  induction chunks generalizing r with
  | nil => exact ⟨r.written, rfl, rfl⟩
  | cons bytes rest ih =>
      have hmax := toNat_le_u64Max r.promised
      simp only [bytesOf, List.map_cons, List.sum_cons] at hw ih ⊢
      have hland : (saturatingAdd r.written bytes).toNat = r.written.toNat + bytes.toNat := by
        rw [toNat_saturatingAdd]
        omega
      obtain ⟨landed, hl, hsum⟩ := ih (r := { r with written := saturatingAdd r.written bytes })
        (by simp only [hland]; omega) hq
      refine ⟨landed, ?_, by simp only [hland] at hsum; omega⟩
      simp only [Reservation.recordAll, record_allowed bytes (by omega) hq]
      exact hl

/-- A body that was recorded to its end kept to its declaration. -/
theorem recordAll_eq_ok {chunks : List UInt64} {r' : Reservation} (hw : r.written.toNat ≤ r.promised.toNat)
    (hsmall : r.written.toNat + bytesOf chunks ≤ u64Max) (h : r.recordAll chunks = .ok r') :
    r' = { r with written := r'.written } ∧ r'.written.toNat = r.written.toNat + bytesOf chunks ∧
      r'.written.toNat ≤ r.promised.toNat := by
  induction chunks generalizing r with
  | nil =>
      cases h
      exact ⟨rfl, rfl, hw⟩
  | cons bytes rest ih =>
      simp only [Reservation.recordAll, Reservation.record] at h
      simp only [bytesOf, List.map_cons, List.sum_cons] at hsmall ih ⊢
      have hland : (saturatingAdd r.written bytes).toNat = r.written.toNat + bytes.toNat := by
        rw [toNat_saturatingAdd]
        omega
      cases ha : stillAdmitted r.limits r.usedBefore r.promised (saturatingAdd r.written bytes) with
      | allowed =>
          simp only [ha, if_true] at h
          obtain ⟨hle, -⟩ := stillAdmitted_allowed_iff.mp ha
          obtain ⟨he, hsum, hbound⟩ := ih (r := { r with written := saturatingAdd r.written bytes }) hle
            (by simp only [hland]; omega) h
          simp only [hland] at hsum
          exact ⟨he, by omega, hbound⟩
      | _ => simp [ha] at h

theorem begin_ok {sequence : Nat} {disk : Disk} {here : Dir} {name : Str} {existing : Existing}
    {staging : Staging} (h : Staging.begin platform sequence disk here name existing = .ok staging) :
    isPlain name ∧ disk.IsDir here ∧
      ((staging = .inPlace ∧ disk.get (here ++ [name]) = none) ∨
        (staging = .staged (platform.temporaryName sequence).val ∧ existing = .replace)) := by
  unfold Staging.begin at h
  split at h
  · cases h
  · rename_i hv
    split at h
    · cases h
    · cases h
    · rename_i hc
      refine ⟨hv, isDir_of_collisions hc, ?_⟩
      split at h
      · rename_i hg
        cases h
        exact Or.inl ⟨rfl, hg⟩
      · cases h
      · cases h
        exact Or.inr ⟨rfl, rfl⟩

theorem begin_of_free (sequence : Nat) {disk : Disk} {here : Dir} {name : Str} (existing : Existing)
    (hn : isPlain name) (hd : disk.IsDir here) (hg : disk.get (here ++ [name]) = none)
    (hc : ∀ n, disk.get (here ++ [n]) ≠ none → collides platform n name = false) :
    Staging.begin platform sequence disk here name existing = .ok .inPlace := by
  obtain ⟨inside, hi⟩ := hd
  have hcol := collisions_ok platform hi name
  have hnil : inside.names.filter (collides platform · name) = [] := by
    rw [List.filter_eq_nil_iff]
    intro n hn'
    have hmem : n ∈ inside.names.filter (collides platform · name) ↔ _ := mem_collisions hcol
    rw [List.mem_filter] at hmem
    by_contra hcon
    have := hmem.mp ⟨hn', by simpa using hcon⟩
    rw [hc n this.1] at this
    exact absurd this.2 Bool.false_ne_true
  unfold Staging.begin
  rw [hn, hcol, hnil, hg]

/-- What can come of receiving a body with room of its own: nothing on the disk, a file that could not be
published, or the file. -/
theorem receiveBody_cases (platform : Platform) (w : World) (vol : Volume) (counts : Counts) (u wanted : UInt64) (here : Dir)
    (name : Str) (existing : Existing) (data : FileData) (chunks : List UInt64)
    (hwhole : bytesOf chunks = data.size) :
    (∃ failure n, receiveBody platform w (vol.reservation counts u wanted) here name existing data chunks =
      (.error failure, { w with sequence := n, counts := w.counts.release wanted 0 vol.id })) ∨
    (∃ failure, existing = .replace ∧ data.size ≤ wanted.toNat ∧
      receiveBody platform w (vol.reservation counts u wanted) here name existing data chunks =
        (.error failure,
          { w with
            disk := w.disk.alter (Forest.insert (platform.temporaryName w.sequence).val (.file data)) here
            sequence := w.sequence + 1
            counts := w.counts.release wanted 0 vol.id })) ∨
    (data.size ≤ wanted.toNat ∧ w.disk.IsDir here ∧ isPlain name ∧
      receiveBody platform w (vol.reservation counts u wanted) here name existing data chunks =
        (.ok (),
          { w with
            disk := (w.disk.alter (Forest.erase name) here).alter (Forest.insert name (.file data)) here
            sequence := w.sequence + 1
            counts := w.counts.release wanted data.len vol.id })) := by
  have hdrop : ∀ landed : UInt64, Reservation.drop ⟨vol.id, vol.limits, counts.owed vol.id u, wanted, landed, false⟩
      w.counts = w.counts.release wanted 0 vol.id := fun _ => Reservation.drop_eq rfl
  unfold receiveBody Volume.reservation
  cases hb : Staging.begin platform w.sequence w.disk here name existing with
  | error error =>
      simp only [hdrop]
      exact Or.inl ⟨_, w.sequence, rfl⟩
  | ok staging =>
      obtain ⟨hn, hd, hstaging⟩ := begin_ok hb
      simp only
      cases hr : Reservation.recordAll ⟨vol.id, vol.limits, counts.owed vol.id u, wanted, 0, false⟩ chunks with
      | error admission =>
          simp only [hdrop]
          exact Or.inl ⟨_, w.sequence + 1, rfl⟩
      | ok r' =>
          obtain ⟨he, hsum, hle⟩ := recordAll_eq_ok (Nat.zero_le _)
            (by rw [hwhole, ← FileData.toNat_len]; have := toNat_le_u64Max data.len; simpa using this) hr
          have hlanded : r'.written = data.len := by
            apply UInt64.toNat.inj
            rw [hsum, hwhole, FileData.toNat_len]
            simp
          have hfinish : r'.finish w.counts = w.counts.release wanted data.len vol.id := by
            rw [he, Reservation.finish_eq rfl, hlanded]
          have hsize : data.size ≤ wanted.toNat := by
            rw [← FileData.toNat_len, ← hlanded]
            exact hle
          simp only
          cases hstaging with
          | inl h =>
              obtain ⟨rfl, hg⟩ := h
              refine Or.inr (Or.inr ⟨hsize, hd, hn, ?_⟩)
              rw [Forest.alter_erase_of_none hg]
              simp only [Staging.commit, hfinish]
          | inr h =>
              obtain ⟨rfl, rfl⟩ := h
              simp only [Staging.commit]
              cases hg : w.disk.get (here ++ [name]) with
              | none =>
                  refine Or.inr (Or.inr ⟨hsize, hd, hn, ?_⟩)
                  simp only [hfinish]
              | some e =>
                  cases e with
                  | file old =>
                      refine Or.inr (Or.inr ⟨hsize, hd, hn, ?_⟩)
                      simp only [hfinish]
                  | dir inside =>
                      have hdropped : r'.drop w.counts = w.counts.release wanted 0 vol.id := by
                        rw [he]
                        exact hdrop _
                      simp only [hdropped]
                      exact Or.inr (Or.inl ⟨_, trivial, hsize, rfl⟩)

/-- A body that was admitted and goes to a free name is received. -/
theorem receiveBody_ok {here : Dir} {name : Str} {existing : Existing} {data : FileData} {wanted : UInt64}
    {chunks : List UInt64} (hb : Staging.begin platform w.sequence w.disk here name existing = .ok .inPlace)
    (hwhole : bytesOf chunks = data.size) (hsize : data.size ≤ wanted.toNat)
    (ha : vol.Admits platform w.disk counts u wanted) :
    receiveBody platform w (vol.reservation counts u wanted) here name existing data chunks =
      (.ok (),
        { w with
          disk := w.disk.alter (Forest.insert name (.file data)) here
          sequence := w.sequence + 1
          counts := w.counts.release wanted data.len vol.id }) := by
  have hfit : (vol.reservation counts u wanted).written.toNat + bytesOf chunks ≤ wanted.toNat := by
    rw [hwhole]
    exact Nat.le_trans (Nat.le_of_eq (Nat.zero_add _)) hsize
  obtain ⟨landed, hrecord, hsum⟩ := recordAll_ok hfit (admit_allowed_iff.mp ha).2.2.1
  have hlanded : landed = data.len := by
    apply UInt64.toNat.inj
    rw [hsum, hwhole, FileData.toNat_len]
    exact Nat.zero_add _
  unfold receiveBody
  simp only [hb, hrecord, Staging.commit, hlanded]
  rw [Reservation.finish_eq rfl]
  rfl

end Selfhost.Storage
