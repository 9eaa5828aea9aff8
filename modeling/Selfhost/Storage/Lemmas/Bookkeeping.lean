import Selfhost.Storage.Lemmas.Ledger

/-!
# The counters are the sums over the live reservations

`Booked` is the invariant of the ledger: each counter is what the live reservations add up to.
-/

namespace Selfhost.Storage

open Selfhost.Lib

/-- Bytes promised by the reservations of a list that satisfy `p`. -/
def promises (p : Reservation → Bool) (live : List Reservation) : Nat :=
  ((live.filter p).map fun r => r.promised.toNat).sum

theorem promises_append (p : Reservation → Bool) (l₁ l₂ : List Reservation) :
    promises p (l₁ ++ l₂) = promises p l₁ + promises p l₂ := by
  simp [promises]

theorem promises_cons (p : Reservation → Bool) (r : Reservation) (l : List Reservation) :
    promises p (r :: l) = (if p r then r.promised.toNat else 0) + promises p l := by
  unfold promises
  cases h : p r <;> simp [h]

theorem promises_nil (p : Reservation → Bool) : promises p [] = 0 := rfl

theorem promises_le (p : Reservation → Bool) (l : List Reservation) :
    promises p l ≤ promises (fun _ => true) l := by
  induction l with
  | nil => exact Nat.le_refl _
  | cons r l ih =>
      rw [promises_cons, promises_cons, if_pos rfl]
      split <;> omega

theorem promised_le_promises {p : Reservation → Bool} {r : Reservation} {l : List Reservation}
    (hr : r ∈ l) (hp : p r = true) : r.promised.toNat ≤ promises p l := by
  induction l with
  | nil => cases hr
  | cons a l ih =>
      rw [promises_cons]
      cases hr with
      | head =>
          rw [if_pos hp]
          exact Nat.le_add_right _ _
      | tail _ hr => exact Nat.le_trans (ih hr) (Nat.le_add_left _ _)

theorem promisedBy_eq (s : LedgerState) (p : Reservation → Bool) : s.promisedBy p = promises p s.live := rfl

/-- Every counter of the ledger is what the live reservations add up to, and within its ceiling. -/
structure Booked (maxConcurrent : UInt32) (maxInFlight : UInt64) (s : LedgerState) : Prop where
  running : s.counts.uploadsRunning.toNat = s.live.length
  running_le : s.live.length ≤ maxConcurrent.toNat
  inFlight : s.counts.inFlightBytes.toNat = s.promisedBy fun _ => true
  inFlight_le : (s.promisedBy fun _ => true) ≤ maxInFlight.toNat
  share : ∀ share, (s.counts.shareInFlight share).toNat = s.promisedBy (·.share = share)
  written_le : ∀ r ∈ s.live, r.written.toNat ≤ r.promised.toNat
  unreleased : ∀ r ∈ s.live, r.released = false
  unique : s.counts.Unique

namespace Booked

variable {maxConcurrent : UInt32} {maxInFlight : UInt64} {s : LedgerState}

theorem new : Booked maxConcurrent maxInFlight .new where
  running := rfl
  running_le := Nat.zero_le _
  inFlight := rfl
  inFlight_le := Nat.zero_le _
  share := fun _ => rfl
  written_le := fun _ h => absurd h List.not_mem_nil
  unreleased := fun _ h => absurd h List.not_mem_nil
  unique := List.nodup_nil

/-- A change of the measured sizes only. -/
theorem resize {counts : Counts} (h : Booked maxConcurrent maxInFlight s)
    (hr : counts.uploadsRunning = s.counts.uploadsRunning)
    (hf : counts.inFlightBytes = s.counts.inFlightBytes)
    (hs : ∀ share, counts.shareInFlight share = s.counts.shareInFlight share) (hu : counts.Unique) :
    Booked maxConcurrent maxInFlight { s with counts } where
  running := by rw [hr]; exact h.running
  running_le := h.running_le
  inFlight := by rw [hf]; exact h.inFlight
  inFlight_le := h.inFlight_le
  share := fun share => by rw [hs]; exact h.share share
  written_le := h.written_le
  unreleased := h.unreleased
  unique := hu

theorem admitUpload {now : Int} {share : Str} {quota : Option UInt64} {floor u free wanted : UInt64}
    {counts : Counts} {r : Reservation} (h : Booked maxConcurrent maxInFlight s)
    (ha : s.counts.admitUpload now share ⟨quota, maxConcurrent, maxInFlight, floor⟩ u free wanted =
      .ok (counts, r)) : Booked maxConcurrent maxInFlight ⟨counts, s.live ++ [r]⟩ := by
  obtain ⟨hallow, rfl, rfl⟩ := Counts.admit_ok ha
  obtain ⟨hrun, hfl, -, -⟩ := admit_allowed_iff.mp hallow
  simp only [h.running, h.inFlight] at hrun hfl
  have hmax32 := maxConcurrent.toNat_lt
  have hmax := toNat_le_u64Max maxInFlight
  constructor
  case running =>
    simp only [Counts.uploadsRunning_reserveForShare, toNat_saturatingAdd32, h.running,
      List.length_append, List.length_singleton, UInt32.toNat_one]
    omega
  case running_le =>
    simp only [List.length_append, List.length_singleton]
    omega
  case inFlight =>
    simp only [Counts.inFlightBytes_reserveForShare, toNat_saturatingAdd, h.inFlight, promisedBy_eq,
      promises_append, promises_cons, promises_nil, if_true]
    rw [promisedBy_eq] at hfl
    omega
  case inFlight_le =>
    simp only [promisedBy_eq, promises_append, promises_cons, promises_nil, if_true]
    rw [promisedBy_eq] at hfl
    omega
  case share =>
    intro other
    simp only [promisedBy_eq, promises_append, promises_cons, promises_nil]
    have hother := h.share other
    rw [promisedBy_eq] at hother hfl
    have hsame : (Counts.mk (saturatingAdd32 s.counts.uploadsRunning 1)
        (saturatingAdd s.counts.inFlightBytes wanted) s.counts.shares).shareInFlight other =
        s.counts.shareInFlight other := Counts.shareInFlight_congr rfl
    by_cases hne : other = share
    · subst hne
      obtain ⟨e, he, hfl', -⟩ := Counts.entry_reserveForShare now other wanted
        (c := ⟨saturatingAdd32 s.counts.uploadsRunning 1,
          saturatingAdd s.counts.inFlightBytes wanted, s.counts.shares⟩)
      rw [Counts.shareInFlight_of_entry he, hfl', hsame, toNat_saturatingAdd, hother]
      have := promises_le (·.share = other) s.live
      simp only [decide_true, if_true]
      omega
    · rw [Counts.shareInFlight_congr (Counts.entry_reserveForShare_ne hne),
        hsame, hother]
      simp [Ne.symm hne]
  case written_le =>
    intro r hr
    rw [List.mem_append, List.mem_singleton] at hr
    cases hr with
    | inl hr => exact h.written_le r hr
    | inr hr =>
        subst hr
        exact Nat.zero_le _
  case unreleased =>
    intro r hr
    rw [List.mem_append, List.mem_singleton] at hr
    cases hr with
    | inl hr => exact h.unreleased r hr
    | inr hr =>
        subst hr
        rfl
  case unique => exact Counts.unique_reserveForShare h.unique

theorem record {i : Nat} {bytes : UInt64} (h : Booked maxConcurrent maxInFlight s) :
    Booked maxConcurrent maxInFlight { s with live := s.live.modify i fun r => (r.record bytes).2 } := by
  cases hi : s.live[i]? with
  | none =>
      rw [List.modify_eq_self (List.getElem?_eq_none_iff.mp hi)]
      exact h
  | some r =>
      obtain ⟨l₁, l₂, hl, -, hm⟩ := split_at_index hi
      have hsum : ∀ p : Reservation → Bool, p (r.record bytes).2 = p r →
          promises p (s.live.modify i fun r => (r.record bytes).2) = promises p s.live := by
        intro p hp
        rw [hm, hl]
        simp only [promises_append, promises_cons, hp, Reservation.record_promised]
      have hmem : ∀ r' ∈ s.live.modify i fun r => (r.record bytes).2,
          r' ∈ s.live ∨ r' = (r.record bytes).2 := by
        intro r' hr'
        rw [hm] at hr'
        rw [hl]
        simp only [List.mem_append, List.mem_cons] at hr' ⊢
        tauto
      have hr : r ∈ s.live := List.mem_of_getElem? hi
      constructor
      case running => rw [List.length_modify]; exact h.running
      case running_le => rw [List.length_modify]; exact h.running_le
      case inFlight => rw [promisedBy_eq, hsum _ rfl]; exact h.inFlight
      case inFlight_le => rw [promisedBy_eq, hsum _ rfl]; exact h.inFlight_le
      case share =>
        intro share
        rw [promisedBy_eq, hsum _ (by simp)]
        exact h.share share
      case written_le =>
        intro r' hr'
        cases hmem r' hr' with
        | inl hin => exact h.written_le r' hin
        | inr heq =>
            subst heq
            exact Reservation.record_written_le (h.written_le r hr)
      case unreleased =>
        intro r' hr'
        cases hmem r' hr' with
        | inl hin => exact h.unreleased r' hin
        | inr heq =>
            subst heq
            rw [Reservation.record_released]
            exact h.unreleased r hr
      case unique => exact h.unique

theorem release {i : Nat} {r : Reservation} (landed : UInt64) (h : Booked maxConcurrent maxInFlight s)
    (hi : s.live[i]? = some r) :
    Booked maxConcurrent maxInFlight ⟨s.counts.release r.promised landed r.share, s.live.eraseIdx i⟩ := by
  obtain ⟨l₁, l₂, hl, he, -⟩ := split_at_index hi
  have hsum : ∀ p : Reservation → Bool,
      promises p s.live = promises p (s.live.eraseIdx i) + if p r then r.promised.toNat else 0 := by
    intro p
    rw [he, hl]
    simp only [promises_append, promises_cons]
    omega
  have hsub : ∀ r' ∈ s.live.eraseIdx i, r' ∈ s.live := fun r' hr' => List.mem_of_mem_eraseIdx hr'
  have hlen : s.live.length = (s.live.eraseIdx i).length + 1 := by
    rw [he, hl]
    simp only [List.length_append, List.length_cons]
    omega
  have hrun := h.running
  have hfl := h.inFlight
  rw [promisedBy_eq, hsum] at hfl
  simp only [if_true] at hfl
  constructor
  case running =>
    show (saturatingSub32 s.counts.uploadsRunning 1).toNat = (s.live.eraseIdx i).length
    rw [toNat_saturatingSub32, hrun, hlen]
    simp
  case running_le =>
    have := h.running_le
    show (s.live.eraseIdx i).length ≤ maxConcurrent.toNat
    omega
  case inFlight =>
    show (saturatingSub s.counts.inFlightBytes r.promised).toNat = promises _ (s.live.eraseIdx i)
    rw [toNat_saturatingSub, hfl, Nat.add_sub_cancel]
  case inFlight_le =>
    have := h.inFlight_le
    rw [promisedBy_eq, hsum] at this
    exact Nat.le_trans (Nat.le_add_right _ _) this
  case share =>
    intro other
    have hother := h.share other
    rw [promisedBy_eq, hsum] at hother
    rw [promisedBy_eq]
    by_cases hne : other = r.share
    · subst hne
      rw [Counts.shareInFlight_release, toNat_saturatingSub, hother]
      simp
    · rw [Counts.shareInFlight_congr (Counts.entry_release_ne hne), hother]
      simp [Ne.symm hne]
  case written_le => exact fun r' hr' => h.written_le r' (hsub r' hr')
  case unreleased => exact fun r' hr' => h.unreleased r' (hsub r' hr')
  case unique => exact Counts.unique_withEntry (fun _ => rfl) h.unique

/-- Every operation keeps the books. -/
theorem step (h : Booked maxConcurrent maxInFlight s) (op : LedgerOp) :
    Booked maxConcurrent maxInFlight (s.step maxConcurrent maxInFlight op) := by
  cases op with
  | observe now share u =>
      exact h.resize Counts.uploadsRunning_observe Counts.inFlightBytes_observe
        (fun _ => Counts.shareInFlight_observe) (Counts.unique_observe h.unique)
  | adjust share added removed =>
      exact h.resize rfl rfl (fun _ => Counts.shareInFlight_adjust)
        (Counts.unique_withEntry (fun _ => rfl) h.unique)
  | forget now share =>
      exact h.resize rfl rfl (fun _ => Counts.shareInFlight_forget h.unique) (Counts.unique_forget h.unique)
  | admitUpload now share quota floor u free wanted =>
      unfold LedgerState.step
      simp only
      split
      · rename_i counts r ha
        exact h.admitUpload ha
      · exact h
  | record i bytes => exact h.record
  | finish i =>
      unfold LedgerState.step
      simp only
      split
      · rename_i r hi
        rw [Reservation.finish_eq (h.unreleased r (List.mem_of_getElem? hi))]
        exact h.release _ hi
      · exact h
  | drop i =>
      unfold LedgerState.step
      simp only
      split
      · rename_i r hi
        rw [Reservation.drop_eq (h.unreleased r (List.mem_of_getElem? hi))]
        exact h.release _ hi
      · exact h

end Booked

end Selfhost.Storage
