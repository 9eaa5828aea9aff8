import Selfhost.Storage.Lemmas.Bookkeeping
import Selfhost.Storage.Lemmas.Measure
import Selfhost.Storage.Lemmas.Segment
import Selfhost.Storage.Uploads

/-!
# The quota as an invariant

`WithinQuota` says why the sum of what is held and what is promised stays below the quota: a size that can
still be trusted, cached or in the hands of a request, is never less than what the share holds.
-/

namespace Selfhost.Storage

open Selfhost.Lib

variable {cfg : ShareConfig} {s : ShareState} {share : Str}

/-! ## Frames -/

theorem entry_step_of_not_concerns {maxConcurrent : UInt32} {maxInFlight : UInt64} {l : LedgerState}
    (h : Booked maxConcurrent maxInFlight l) {op : LedgerOp} (hop : op.concerns l.live share = false) :
    (l.step maxConcurrent maxInFlight op).counts.entry share = l.counts.entry share := by
  cases op with
  | observe now other u => exact Counts.entry_observe_ne (Ne.symm (by simpa [LedgerOp.concerns] using hop))
  | adjust other added removed =>
      exact Counts.entry_withEntry_ne (fun _ => rfl) (Ne.symm (by simpa [LedgerOp.concerns] using hop))
  | forget now other =>
      exact Counts.entry_forget_ne h.unique (Ne.symm (by simpa [LedgerOp.concerns] using hop))
  | admitUpload now other quota floor u free wanted =>
      unfold LedgerState.step
      simp only
      split
      · rename_i counts r ha
        obtain ⟨-, rfl, -⟩ := Counts.admit_ok ha
        exact Counts.entry_reserveForShare_ne (Ne.symm (by simpa [LedgerOp.concerns] using hop))
      · rfl
  | record i bytes => rfl
  | finish i =>
      unfold LedgerState.step
      simp only
      split
      · rename_i r hi
        have hne : r.share ≠ share := by simpa [LedgerOp.concerns, hi] using hop
        simp only [Reservation.finish_eq (h.unreleased r (List.mem_of_getElem? hi))]
        exact Counts.entry_release_ne (Ne.symm hne)
      · rfl
  | drop i =>
      unfold LedgerState.step
      simp only
      split
      · rename_i r hi
        have hne : r.share ≠ share := by simpa [LedgerOp.concerns, hi] using hop
        simp only [Reservation.drop_eq (h.unreleased r (List.mem_of_getElem? hi))]
        exact Counts.entry_release_ne (Ne.symm hne)
      · rfl

theorem reservation_eq_some {j : Nat} {r : Reservation} (h : s.reservation cfg j = some r) :
    s.ledger.live[j]? = some r ∧ r.share = cfg.id := by
  unfold ShareState.reservation at h
  rw [Option.filter_eq_some_iff] at h
  simpa using h

/-! ## The invariant -/

/-- The size a reading stands for, if it has one. -/
def Reading.bytes : Reading → Option UInt64
  | .unmeasured => none
  | .measured bytes => some bytes
  | .sized bytes => some bytes

structure WithinQuota (cfg : ShareConfig) (files₀ : Disk) (s : ShareState) : Prop where
  booked : Booked cfg.maxConcurrent cfg.maxInFlight s.ledger
  within : counted maxTreeDepth s.files + s.promised cfg ≤ cfg.quota.toNat
  cached : ∀ e, s.ledger.counts.entry cfg.id = some e → s.now - e.measuredAt < usageTtl →
    counted maxTreeDepth s.files ≤ e.usedBytes.toNat
  read : ∀ q ∈ s.requests, ∀ bytes, q.bytes = some bytes → counted maxTreeDepth s.files ≤ bytes.toNat
  hidden_le : hidden maxTreeDepth s.files ≤ hidden maxTreeDepth files₀

namespace WithinQuota

variable {files₀ : Disk}

theorem start {now : Int} (h : counted maxTreeDepth files₀ ≤ cfg.quota.toNat) :
    WithinQuota cfg files₀ (.start now files₀) where
  booked := Booked.new
  within := by
    have : (ShareState.start now files₀).promised cfg = 0 := rfl
    rw [this]
    exact h
  cached := fun e he => by cases he
  read := fun q hq => absurd hq List.not_mem_nil
  hidden_le := Nat.le_refl _

theorem counted_le (h : WithinQuota cfg files₀ s) : counted maxTreeDepth s.files ≤ u64Max :=
  Nat.le_trans (Nat.le_trans (Nat.le_add_right _ _) h.within) (toNat_le_u64Max _)

/-- Requests come and go, with sizes that are not too small. -/
theorem withRequests {requests : List Reading} (h : WithinQuota cfg files₀ s)
    (hr : ∀ q ∈ requests, ∀ bytes, q.bytes = some bytes → counted maxTreeDepth s.files ≤ bytes.toNat) :
    WithinQuota cfg files₀ { s with requests } :=
  ⟨h.booked, h.within, h.cached, hr, h.hidden_le⟩

theorem tick (h : WithinQuota cfg files₀ s) (elapsed : Nat) :
    WithinQuota cfg files₀ { s with now := s.now + elapsed } := by
  refine ⟨h.booked, h.within, ?_, h.read, h.hidden_le⟩
  intro e he hfresh
  refine h.cached e he ?_
  simp only at hfresh
  omega

/-- The share holds less, or what it held before. -/
theorem shrink {files : Disk} (h : WithinQuota cfg files₀ s) (hs : Shrinks s.files files) :
    WithinQuota cfg files₀ { s with files } := by
  have hc := (hs.1 maxTreeDepth).1
  refine ⟨h.booked, Nat.le_trans (Nat.add_le_add_right hc _) h.within, ?_, ?_, ?_⟩
  · exact fun e he hf => Nat.le_trans hc (h.cached e he hf)
  · exact fun q hq bytes hb => Nat.le_trans hc (h.read q hq bytes hb)
  · exact Nat.le_trans (hs.1 maxTreeDepth).2 h.hidden_le

/-- An operation on the ledger that leaves the share's promises alone. -/
theorem resize {op : LedgerOp} (h : WithinQuota cfg files₀ s)
    (hf : (s.ledger.step cfg.maxConcurrent cfg.maxInFlight op).counts.shareInFlight cfg.id =
      s.ledger.counts.shareInFlight cfg.id)
    (hc : ∀ e, (s.ledger.step cfg.maxConcurrent cfg.maxInFlight op).counts.entry cfg.id = some e →
      s.now - e.measuredAt < usageTtl → counted maxTreeDepth s.files ≤ e.usedBytes.toNat) :
    WithinQuota cfg files₀ (s.onLedger cfg op) := by
  have hb := h.booked.step op
  have hp : (s.onLedger cfg op).promised cfg = s.promised cfg := by
    unfold ShareState.promised ShareState.onLedger
    rw [← hb.share, ← h.booked.share, hf]
  refine ⟨hb, ?_, hc, h.read, h.hidden_le⟩
  rw [hp]
  exact h.within

theorem elsewhere {op : LedgerOp} (h : WithinQuota cfg files₀ s)
    (hop : op.concerns s.ledger.live cfg.id = false) : WithinQuota cfg files₀ (s.onLedger cfg op) := by
  have he := entry_step_of_not_concerns h.booked hop
  refine h.resize (Counts.shareInFlight_congr he) ?_
  intro e hentry hfresh
  rw [he] at hentry
  exact h.cached e hentry hfresh

theorem observe {bytes : UInt64} (h : WithinQuota cfg files₀ s)
    (hle : counted maxTreeDepth s.files ≤ bytes.toNat) :
    WithinQuota cfg files₀ (s.onLedger cfg (.observe s.now cfg.id bytes)) := by
  refine h.resize Counts.shareInFlight_observe ?_
  intro e he _
  obtain ⟨e', he', hu, -⟩ := Counts.entry_observe s.ledger.counts s.now cfg.id bytes
  have : e = e' := Option.some.inj (he.symm.trans he')
  rw [this, hu]
  exact hle

theorem forget (h : WithinQuota cfg files₀ s) :
    WithinQuota cfg files₀ (s.onLedger cfg (.forget s.now cfg.id)) := by
  refine h.resize (Counts.shareInFlight_forget h.booked.unique) ?_
  intro e he hfresh
  have hentry := Counts.entry_forget s.now cfg.id h.booked.unique
  simp only [LedgerState.step] at he
  rw [hentry] at he
  obtain ⟨e', -, rfl⟩ := Option.map_eq_some_iff.mp he
  -- What is forgotten is as old as a size may be.
  simp only at hfresh
  omega

theorem admitUpload {bytes free wanted : UInt64} (h : WithinQuota cfg files₀ s)
    (hle : counted maxTreeDepth s.files ≤ bytes.toNat) :
    WithinQuota cfg files₀
      (s.onLedger cfg (.admitUpload s.now cfg.id (some cfg.quota) cfg.floor bytes free wanted)) := by
  have hb := h.booked.step (.admitUpload s.now cfg.id (some cfg.quota) cfg.floor bytes free wanted)
  unfold ShareState.onLedger
  cases ha : s.ledger.counts.admitUpload s.now cfg.id
      ⟨some cfg.quota, cfg.maxConcurrent, cfg.maxInFlight, cfg.floor⟩ bytes free wanted with
  | error admission =>
      have hs : s.ledger.step cfg.maxConcurrent cfg.maxInFlight
          (.admitUpload s.now cfg.id (some cfg.quota) cfg.floor bytes free wanted) = s.ledger := by
        simp only [LedgerState.step, ha]
      rw [hs]
      exact h
  | ok pair =>
      obtain ⟨counts, r⟩ := pair
      have hs : s.ledger.step cfg.maxConcurrent cfg.maxInFlight
          (.admitUpload s.now cfg.id (some cfg.quota) cfg.floor bytes free wanted) =
          ⟨counts, s.ledger.live ++ [r]⟩ := by
        simp only [LedgerState.step, ha]
      rw [hs] at hb ⊢
      obtain ⟨hallow, rfl, rfl⟩ := Counts.admit_ok ha
      obtain ⟨-, -, hq, -⟩ := admit_allowed_iff.mp hallow
      have hquota := hq cfg.quota rfl
      refine ⟨hb, ?_, ?_, h.read, h.hidden_le⟩
      · have hw := h.within
        have hmax := toNat_le_u64Max cfg.quota
        have hshare := h.booked.share cfg.id
        unfold ShareState.promised at hw ⊢
        simp only [promisedBy_eq, promises_append, promises_cons, promises_nil, decide_true, if_true,
          Counts.owed, toNat_saturatingAdd] at hw hquota hshare ⊢
        omega
      · intro e he hfresh
        obtain ⟨e', he', -, hold⟩ := Counts.entry_reserveForShare s.now cfg.id wanted
          (c := ⟨saturatingAdd32 s.ledger.counts.uploadsRunning 1,
            saturatingAdd s.ledger.counts.inFlightBytes wanted, s.ledger.counts.shares⟩)
        have heq : e = e' := Option.some.inj (he.symm.trans he')
        subst heq
        cases hold with
        | inl hsame =>
            obtain ⟨e₀, he₀, hu, hm⟩ := hsame
            rw [hu]
            exact h.cached e₀ he₀ (by rw [← hm]; exact hfresh)
        | inr hstale =>
            simp only at hfresh
            omega

/-- The end of an upload: the room it held goes back, and `landed` bytes are credited. -/
theorem release {j : Nat} {r : Reservation} {landed : UInt64} {files : Disk} (h : WithinQuota cfg files₀ s)
    (hj : s.ledger.live[j]? = some r) (hid : r.share = cfg.id)
    (hlanded : landed.toNat ≤ r.promised.toNat)
    (hc : counted maxTreeDepth files ≤ counted maxTreeDepth s.files + landed.toNat)
    (hh : hidden maxTreeDepth files ≤ hidden maxTreeDepth s.files)
    (hr : ∀ q ∈ s.requests, ∀ bytes, q.bytes = some bytes → counted maxTreeDepth files ≤ bytes.toNat) :
    WithinQuota cfg files₀
      { s with
        files
        ledger := ⟨s.ledger.counts.release r.promised landed r.share, s.ledger.live.eraseIdx j⟩ } := by
  have hb := h.booked.release landed hj
  have hw := h.within
  have hmem := List.mem_of_getElem? hj
  have hle : r.promised.toNat ≤ promises (·.share = cfg.id) s.ledger.live :=
    promised_le_promises hmem (by simp [hid])
  have hp : ShareState.promised cfg { s with ledger := ⟨s.ledger.counts.release r.promised landed r.share,
      s.ledger.live.eraseIdx j⟩ } + r.promised.toNat = s.promised cfg := by
    unfold ShareState.promised
    have hbs := hb.share cfg.id
    have hshare := h.booked.share cfg.id
    rw [← hbs, ← hid, Counts.shareInFlight_release, toNat_saturatingSub, hid, hshare]
    rw [promisedBy_eq]
    omega
  have hwithin : counted maxTreeDepth files + ShareState.promised cfg
      { s with ledger := ⟨s.ledger.counts.release r.promised landed r.share, s.ledger.live.eraseIdx j⟩ } ≤
      cfg.quota.toNat := by
    omega
  refine ⟨hb, hwithin, ?_, hr, Nat.le_trans hh h.hidden_le⟩
  intro e he hfresh
  simp only [hid] at he
  rw [Counts.entry_release] at he
  obtain ⟨e₀, he₀, rfl⟩ := Option.map_eq_some_iff.mp he
  have hcached := h.cached e₀ he₀ hfresh
  have hmax := toNat_le_u64Max cfg.quota
  simp only [toNat_saturatingAdd]
  omega

end WithinQuota

/-! ## The disk under an upload -/

theorem publish_counted {files files' : Disk} {path : RelativePath} {data : FileData}
    (h : publish files path data = some files') (hl : path.names.length ≤ maxTreeDepth) :
    counted maxTreeDepth files' ≤ counted maxTreeDepth files + data.size ∧
      hidden maxTreeDepth files' ≤ hidden maxTreeDepth files := by
  unfold publish at h
  split at h
  · cases h
  · rename_i name hname
    split at h
    · cases h
    · rename_i inside _ hd _
      cases h
      have hlen : path.parent.names.length < maxTreeDepth := by
        rw [RelativePath.names_eq hname, List.length_append, List.length_singleton] at hl
        omega
      have hd' := Forest.get_alter (Forest.erase name) [] hd
      rw [List.append_nil, Forest.get_nil] at hd'
      have hput := counted_put_file data hd' (fun _ => RelativePath.validate_of_mem)
        (RelativePath.validate_fileName hname) hlen
      have hs := (shrinks_alter (shrinks_erase name) path.parent.names files).1 maxTreeDepth
      omega
    · cases h

theorem shrinks_withoutEntry (files : Disk) (path : RelativePath) : Shrinks files (withoutEntry files path) := by
  unfold withoutEntry
  split
  · exact Shrinks.refl _
  · exact shrinks_alter (shrinks_erase _) _ _

/-! ## One step -/

theorem WithinQuota.step {files₀ : Disk} {a : UploadStep} {t : ShareState} (h : WithinQuota cfg files₀ s)
    (hok : s.undisturbed a) (ht : s.step cfg a = some t) : WithinQuota cfg files₀ t := by
  cases a with
  | tick elapsed =>
      cases ht
      exact h.tick elapsed
  | readSize =>
      simp only [ShareState.step] at ht
      split at ht
      · rename_i known hused
        cases ht
        refine h.withRequests ?_
        intro q hq bytes hb
        rw [List.mem_append, List.mem_singleton] at hq
        cases hq with
        | inl hq => exact h.read q hq bytes hb
        | inr hq =>
            subst hq
            cases hb
            unfold Counts.used at hused
            split at hused
            · cases hused
            · rename_i e he
              split at hused
              · rename_i hfresh
                cases hused
                exact h.cached e he hfresh
              · cases hused
      · cases ht
        refine h.withRequests ?_
        intro q hq bytes hb
        rw [List.mem_append, List.mem_singleton] at hq
        cases hq with
        | inl hq => exact h.read q hq bytes hb
        | inr hq =>
            subst hq
            cases hb
  | measure i unfinished =>
      simp only [ShareState.step] at ht
      split at ht
      · cases ht
        refine h.withRequests ?_
        intro q hq bytes hb
        cases List.mem_or_eq_of_mem_set hq with
        | inl hq => exact h.read q hq bytes hb
        | inr hq =>
            subst hq
            cases hb
            have := h.counted_le
            rw [toNat_saturatingAdd, toNat_measureWithin, UInt64.toNat_zero]
            omega
      · cases ht
  | observe i =>
      simp only [ShareState.step] at ht
      split at ht
      · rename_i bytes hi
        cases ht
        have hle := h.read _ (List.mem_of_getElem? hi) bytes rfl
        refine (h.observe hle).withRequests ?_
        intro q hq bytes' hb
        cases List.mem_or_eq_of_mem_set hq with
        | inl hq => exact h.read q hq bytes' hb
        | inr hq =>
            subst hq
            cases hb
            exact hle
      · cases ht
  | admitUpload i free wanted =>
      simp only [ShareState.step] at ht
      split at ht
      · rename_i bytes hi
        cases ht
        refine (h.admitUpload (h.read _ (List.mem_of_getElem? hi) bytes rfl)).withRequests ?_
        exact fun q hq => h.read q (List.mem_of_mem_eraseIdx hq)
      · cases ht
  | leave i =>
      cases ht
      exact h.withRequests fun q hq => h.read q (List.mem_of_mem_eraseIdx hq)
  | record j bytes =>
      simp only [ShareState.step] at ht
      split at ht
      · cases ht
        exact h.resize rfl h.cached
      · cases ht
  | finish j path data =>
      simp only [ShareState.step] at ht
      split at ht
      · rename_i r files hr hp
        split at ht
        · rename_i hlen
          cases ht
          obtain ⟨hj, hid⟩ := reservation_eq_some hr
          have hmem := List.mem_of_getElem? hj
          obtain ⟨hc, hh⟩ := publish_counted hp hok.2
          rw [← FileData.toNat_len, hlen] at hc
          have hstep : s.ledger.step cfg.maxConcurrent cfg.maxInFlight (.finish j) =
              ⟨s.ledger.counts.release r.promised r.written r.share, s.ledger.live.eraseIdx j⟩ := by
            simp only [LedgerState.step, hj, Reservation.finish_eq (h.booked.unreleased r hmem)]
          unfold ShareState.onLedger
          rw [hstep]
          refine h.release hj hid (h.booked.written_le r hmem) hc hh ?_
          -- Nothing is in the hands of a request while a file lands.
          intro q hq bytes hb
          rw [hok.1 q hq] at hb
          cases hb
        · cases ht
      · cases ht
  | drop j =>
      simp only [ShareState.step] at ht
      split at ht
      · rename_i r hr
        cases ht
        obtain ⟨hj, hid⟩ := reservation_eq_some hr
        have hmem := List.mem_of_getElem? hj
        have hstep : s.ledger.step cfg.maxConcurrent cfg.maxInFlight (.drop j) =
            ⟨s.ledger.counts.release r.promised 0 r.share, s.ledger.live.eraseIdx j⟩ := by
          simp only [LedgerState.step, hj, Reservation.drop_eq (h.booked.unreleased r hmem)]
        unfold ShareState.onLedger
        rw [hstep]
        exact h.release hj hid (Nat.zero_le _) (Nat.le_add_right _ _) (Nat.le_refl _) h.read
      · cases ht
  | remove path =>
      cases ht
      exact h.shrink (shrinks_withoutEntry _ _)
  | forget =>
      cases ht
      exact h.forget
  | elsewhere op =>
      simp only [ShareState.step] at ht
      split at ht
      · cases ht
      · rename_i hop
        cases ht
        exact h.elsewhere (Bool.eq_false_iff.mpr hop)

end Selfhost.Storage
