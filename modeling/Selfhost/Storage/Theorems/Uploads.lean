import Selfhost.Storage.Lemmas.Bookkeeping
import Selfhost.Storage.Lemmas.Uploads

/-!
# The quota of a share under concurrent uploads

The size is read under one acquisition of the ledger's lock and spent under another. When no upload finishes
in between, what the share holds and what is promised into it stay within its quota in every interleaving.
-/

namespace Selfhost.Storage

open Selfhost.Lib

variable {maxConcurrent : UInt32} {maxInFlight : UInt64}

theorem booked_run (ops : List LedgerOp) :
    Booked maxConcurrent maxInFlight (LedgerState.run maxConcurrent maxInFlight ops) := by
  unfold LedgerState.run
  -- The invariant is kept by every operation, whatever the state it starts from.
  suffices h : ∀ s, Booked maxConcurrent maxInFlight s →
      Booked maxConcurrent maxInFlight (ops.foldl (LedgerState.step maxConcurrent maxInFlight) s) from
    h _ Booked.new
  induction ops with
  | nil => exact fun s hs => hs
  | cons op ops ih => exact fun s hs => ih _ (hs.step op)

theorem Booked.record_exact {s : LedgerState} (h : Booked maxConcurrent maxInFlight s) {r : Reservation}
    (hr : r ∈ s.live) {bytes : UInt64} (ha : (r.record bytes).1 = .allowed)
    (hmax : maxInFlight.toNat < u64Max) :
    (r.record bytes).2.written.toNat = r.written.toNat + bytes.toNat := by
  have hp : r.promised.toNat ≤ promises (fun _ => true) s.live := promised_le_promises hr rfl
  have hle := h.inFlight_le
  rw [promisedBy_eq] at hle
  simp only [Reservation.record] at ha ⊢
  rw [if_pos ha]
  have hl := (stillAdmitted_allowed_iff.mp ha).1
  simp only [toNat_saturatingAdd] at hl ⊢
  omega

/-- What the counters are in every run, and that no addition to them and no subtraction from them ever
saturates. -/
theorem ledger_bookkeeping (maxConcurrent : UInt32) (maxInFlight : UInt64) (ops : List LedgerOp)
    (s : LedgerState) (hs : s = LedgerState.run maxConcurrent maxInFlight ops) :
    s.counts.uploadsRunning.toNat = s.live.length ∧ s.live.length ≤ maxConcurrent.toNat ∧
    s.counts.inFlightBytes.toNat = s.promisedBy (fun _ => true) ∧
    s.promisedBy (fun _ => true) ≤ maxInFlight.toNat ∧
    (∀ share, (s.counts.shareInFlight share).toNat = s.promisedBy (·.share = share)) ∧
    (∀ r ∈ s.live, r.written.toNat ≤ r.promised.toNat) ∧
    (∀ now share quota floor used free wanted counts r,
      s.counts.admitUpload now share ⟨quota, maxConcurrent, maxInFlight, floor⟩ used free wanted =
        .ok (counts, r) →
      counts.uploadsRunning.toNat = s.counts.uploadsRunning.toNat + 1 ∧
      counts.inFlightBytes.toNat = s.counts.inFlightBytes.toNat + wanted.toNat ∧
      (counts.shareInFlight share).toNat = (s.counts.shareInFlight share).toNat + wanted.toNat) ∧
    (∀ r ∈ s.live, 1 ≤ s.counts.uploadsRunning.toNat ∧
      r.promised.toNat ≤ s.counts.inFlightBytes.toNat ∧
      r.promised.toNat ≤ (s.counts.shareInFlight r.share).toNat) ∧
    (maxInFlight.toNat < u64Max → ∀ r ∈ s.live, ∀ bytes, (r.record bytes).1 = .allowed →
      (r.record bytes).2.written.toNat = r.written.toNat + bytes.toNat) := by
  have h : Booked maxConcurrent maxInFlight s := by
    rw [hs]
    exact booked_run ops
  refine ⟨h.running, h.running_le, h.inFlight, h.inFlight_le, h.share, h.written_le, ?_, ?_, ?_⟩
  · intro now share quota floor used free wanted counts r ha
    have h' := h.admitUpload ha
    obtain ⟨-, -, rfl⟩ := Counts.admit_ok ha
    rw [h'.running, h'.inFlight, h'.share share, h.running, h.inFlight, h.share share]
    simp [promisedBy_eq, promises_append, promises_cons, promises_nil]
  · intro r hr
    rw [h.running, h.inFlight, h.share]
    exact ⟨List.length_pos_of_mem hr, promised_le_promises hr rfl, promised_le_promises hr (by simp)⟩
  · intro hmax r hr bytes ha
    exact h.record_exact hr ha hmax

/-- Two shares, two uploads, one of them finished: the counts that remain. -/
theorem ledger_bookkeeping_two_shares :
    ∃ s, s = LedgerState.run defaultMaxConcurrent defaultMaxInFlightBytes
        [.observe 0 "a".toList 10, .admitUpload 0 "a".toList (some 1000) 0 10 5000 600,
          .admitUpload 0 "b".toList none 0 0 5000 50, .record 0 600, .finish 0] ∧
      s.live.length = 1 ∧ s.counts.uploadsRunning.toNat = 1 ∧ s.counts.inFlightBytes.toNat = 50 ∧
      (s.counts.shareInFlight "b".toList).toNat = s.promisedBy (·.share = "b".toList) := by
  refine ⟨_, rfl, by decide +kernel, ?_, by decide +kernel, ?_⟩
  · exact (ledger_bookkeeping _ _ _ _ rfl).1.trans (by decide +kernel)
  · exact (ledger_bookkeeping _ _ _ _ rfl).2.2.2.2.1 _

/-- A cached size does saturate: one byte observed, then the largest number added. -/
theorem adjust_saturates :
    ∃ e e' : ShareUsage,
      (LedgerState.run defaultMaxConcurrent defaultMaxInFlightBytes [.observe 0 "a".toList 1]).counts.entry
        "a".toList = some e ∧
      (LedgerState.run defaultMaxConcurrent defaultMaxInFlightBytes
        [.observe 0 "a".toList 1, .adjust "a".toList 0xFFFFFFFFFFFFFFFF 0]).counts.entry
        "a".toList = some e' ∧
      e'.usedBytes.toNat ≠ e.usedBytes.toNat + (0xFFFFFFFFFFFFFFFF : UInt64).toNat := by
  refine ⟨⟨"a".toList, 1, 0, 0⟩, ⟨"a".toList, 0xFFFFFFFFFFFFFFFF, 0, 0⟩, ?_, ?_, ?_⟩
  · decide +kernel
  · decide +kernel
  · decide

end Selfhost.Storage

/-! # The quota of a share under concurrent uploads -/

namespace Selfhost.Storage

open Selfhost.Lib

variable {cfg : ShareConfig} {now : Int} {files₀ : Disk} {steps : List UploadStep} {s : ShareState}

theorem withinQuota_run (hstart : counted maxTreeDepth files₀ ≤ cfg.quota.toNat)
    (hrun : Run (ShareState.step cfg) ShareState.undisturbed (.start now files₀) steps s) :
    WithinQuota cfg files₀ s :=
  hrun.invariant (fun _ _ _ h hok ht => h.step hok ht) (WithinQuota.start hstart)

/-- In every run in which no upload finishes between a size being read and its being spent, the share holds
and promises no more than its quota. Files that no measurement sees are those it had from the start. -/
theorem quota_of_undisturbed (hstart : counted maxTreeDepth files₀ ≤ cfg.quota.toNat)
    (hrun : Run (ShareState.step cfg) ShareState.undisturbed (.start now files₀) steps s) :
    counted maxTreeDepth s.files + s.promised cfg ≤ cfg.quota.toNat ∧
      heldBytes s.files + s.promised cfg ≤ cfg.quota.toNat + hidden maxTreeDepth files₀ := by
  have h := withinQuota_run hstart hrun
  have hw := h.within
  have hh := h.hidden_le
  have hsum := counted_add_hidden maxTreeDepth s.files
  exact ⟨hw, by omega⟩

/-- A share of a thousand bytes. -/
def thousand : ShareConfig := ⟨"vault".toList, 1000, 0, defaultMaxConcurrent, defaultMaxInFlightBytes⟩

def sixHundred : FileData := ⟨List.replicate 600 0, by rw [List.length_replicate]; decide⟩

def onePath (name : Str) (h : isPlain name) : RelativePath := ⟨[⟨name, h⟩]⟩

def threeHundred : FileData := ⟨List.replicate 300 0, by rw [List.length_replicate]; decide⟩

/-- Two uploads whose steps interleave: both read the size before either is admitted, their chunks alternate, a third
request is refused while both run, and the later one finishes first. -/
def interleaved : List UploadStep :=
  [.readSize, .measure 0 0, .observe 0, .readSize, .admitUpload 0 5000 600, .admitUpload 0 5000 300, .record 0 200,
    .record 1 300, .readSize, .admitUpload 0 5000 200, .record 0 400, .finish 1 (onePath "b".toList (by decide)) threeHundred]

theorem quota_of_undisturbed_interleaved :
    ∃ s, Run (ShareState.step thousand) ShareState.undisturbed (.start 0 .nil) interleaved s ∧
      heldBytes s.files = 300 ∧ s.promised thousand = 600 ∧ heldBytes s.files + s.promised thousand ≤ 1000 := by
  have hok : (exec (ShareState.step thousand) ShareState.undisturbed (.start 0 .nil) interleaved).map
      (fun s => (heldBytes s.files, s.promised thousand)) = some (300, 600) := by
    decide +kernel
  obtain ⟨s, hs, hpair⟩ := Option.map_eq_some_iff.mp hok
  obtain ⟨hheld, hpromised⟩ := Prod.mk.inj hpair
  have hrun := Run.of_exec hs
  exact ⟨s, hrun, hheld, hpromised, (@quota_of_undisturbed thousand _ _ _ _ (by decide) hrun).2⟩

/-- Two uploads of six hundred bytes into a share of a thousand: the second reads the size before the first
finishes, and is admitted after. -/
theorem two_uploads_exceed_quota :
    ∃ s, Run (ShareState.step thousand) (fun _ _ => True) (.start 0 .nil)
        [.readSize, .measure 0 0, .observe 0, .admitUpload 0 5000 600, .record 0 600, .readSize,
          .finish 0 (onePath "a".toList (by decide)) sixHundred, .admitUpload 0 5000 600] s ∧
      counted maxTreeDepth (ShareState.start 0 .nil).files ≤ thousand.quota.toNat ∧
      heldBytes s.files = 600 ∧ s.promised thousand = 600 ∧
      ¬ heldBytes s.files + s.promised thousand ≤ thousand.quota.toNat := by
  have hok : (exec (ShareState.step thousand) (fun _ _ => True) (.start 0 .nil)
        [.readSize, .measure 0 0, .observe 0, .admitUpload 0 5000 600, .record 0 600, .readSize,
          .finish 0 (onePath "a".toList (by decide)) sixHundred, .admitUpload 0 5000 600]).map
        (fun s => (heldBytes s.files, s.promised thousand)) = some (600, 600) := by
    decide +kernel
  obtain ⟨s, hs, hpair⟩ := Option.map_eq_some_iff.mp hok
  obtain ⟨hheld, hpromised⟩ := Prod.mk.inj hpair
  refine ⟨s, Run.of_exec hs, by decide, hheld, hpromised, ?_⟩
  rw [hheld, hpromised]
  decide

end Selfhost.Storage
