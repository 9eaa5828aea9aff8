import Selfhost.Storage.Ledger

/-!
# What each operation does to a table entry

Every operation changes the entry of one share and leaves the others alone. The counters are read off
these lemmas, and the tables are never unfolded again.
-/

namespace Selfhost.Storage

open Selfhost.Lib

variable {counts : Counts} {share other : Str} {now : Int}

namespace Counts

/-- The keys of the table are distinct. -/
def Unique (counts : Counts) : Prop := (counts.shares.map (·.id)).Nodup

/-! ## Changing one entry -/

theorem entry_withEntry {f : ShareUsage → ShareUsage} (hf : ∀ e, (f e).id = e.id) :
    (counts.withEntry share f).entry share = (counts.entry share).map f :=
  find?_modifyFirst (fun e => by rw [hf]) counts.shares

theorem entry_withEntry_ne {f : ShareUsage → ShareUsage} (hf : ∀ e, (f e).id = e.id)
    (hne : other ≠ share) : (counts.withEntry share f).entry other = counts.entry other := by
  refine find?_modifyFirst_of_disjoint ?_ (fun e => by rw [hf]) counts.shares
  intro e he
  rw [decide_eq_true_eq] at he
  rw [decide_eq_false_iff_not, he]
  exact Ne.symm hne

theorem unique_withEntry {f : ShareUsage → ShareUsage} (hf : ∀ e, (f e).id = e.id)
    (h : counts.Unique) : (counts.withEntry share f).Unique := by
  unfold Unique withEntry
  rw [map_modifyFirst hf]
  exact h

theorem entry_push {e : ShareUsage} (hnone : counts.entry e.id = none) :
    (Counts.mk counts.uploadsRunning counts.inFlightBytes (counts.shares ++ [e])).entry e.id = some e := by
  unfold entry at hnone ⊢
  rw [List.find?_append, hnone]
  simp

theorem entry_push_ne {e : ShareUsage} (hne : other ≠ e.id) :
    (Counts.mk counts.uploadsRunning counts.inFlightBytes (counts.shares ++ [e])).entry other =
      counts.entry other := by
  unfold entry
  rw [List.find?_append]
  simp [Ne.symm hne]

theorem unique_push {e : ShareUsage} (hnone : counts.entry e.id = none) (h : counts.Unique) :
    (Counts.mk counts.uploadsRunning counts.inFlightBytes (counts.shares ++ [e])).Unique := by
  unfold Unique
  rw [List.map_append, List.nodup_append]
  refine ⟨h, by simp, ?_⟩
  intro a ha b hb hab
  obtain ⟨e', he', rfl⟩ := List.mem_map.mp ha
  rw [List.map_singleton, List.mem_singleton] at hb
  have := List.find?_eq_none.mp hnone e' he'
  simp [hab, hb] at this

/-! ## The entry after each operation -/

theorem entry_observe (counts : Counts) (now : Int) (share : Str) (u : UInt64) :
     ∃ e, (counts.observe now share u).entry share = some e ∧
    e.usedBytes = u ∧ e.measuredAt = now ∧ e.inFlightBytes = counts.shareInFlight share := by
  unfold observe shareInFlight
  cases he : counts.entry share with
  | none => exact ⟨_, entry_push he, rfl, rfl, rfl⟩
  | some e =>
      refine ⟨{ e with usedBytes := u, measuredAt := now }, ?_, rfl, rfl, rfl⟩
      simp only
      rw [entry_withEntry (by intro e; rfl), he, Option.map_some]

theorem entry_observe_ne {u : UInt64} (hne : other ≠ share) :
    (counts.observe now share u).entry other = counts.entry other := by
  unfold observe
  split
  · exact entry_withEntry_ne (fun _ => rfl) hne
  · exact entry_push_ne hne

theorem unique_observe {u : UInt64} (h : counts.Unique) : (counts.observe now share u).Unique := by
  unfold observe
  split
  · exact unique_withEntry (fun _ => rfl) h
  · rename_i hnone
    exact unique_push hnone h

theorem entry_reserveForShare (now : Int) (share : Str) (wanted : UInt64) {c : Counts} :
    ∃ e, (c.reserveForShare now share wanted).entry share = some e ∧
      e.inFlightBytes = saturatingAdd (c.shareInFlight share) wanted ∧
      ((∃ e₀, c.entry share = some e₀ ∧ e.usedBytes = e₀.usedBytes ∧ e.measuredAt = e₀.measuredAt) ∨
        e.measuredAt = now - usageTtl) := by
  unfold reserveForShare shareInFlight
  cases he : c.entry share with
  | none =>
      refine ⟨_, entry_push he, ?_, Or.inr rfl⟩
      apply UInt64.toNat.inj
      have := toNat_le_u64Max wanted
      simp [this]
  | some e =>
      refine ⟨{ e with inFlightBytes := saturatingAdd e.inFlightBytes wanted }, ?_, rfl,
        Or.inl ⟨e, rfl, rfl, rfl⟩⟩
      simp only
      rw [entry_withEntry (by intro e; rfl), he, Option.map_some]

theorem entry_reserveForShare_ne {wanted : UInt64} (hne : other ≠ share) :
    (counts.reserveForShare now share wanted).entry other = counts.entry other := by
  unfold reserveForShare
  split
  · exact entry_withEntry_ne (fun _ => rfl) hne
  · exact entry_push_ne hne

theorem unique_reserveForShare {wanted : UInt64} (h : counts.Unique) :
    (counts.reserveForShare now share wanted).Unique := by
  unfold reserveForShare
  split
  · exact unique_withEntry (fun _ => rfl) h
  · rename_i hnone
    exact unique_push hnone h

theorem entry_forget (now : Int) (share : Str) (h : counts.Unique) :
    (counts.forget now share).entry share = ((counts.entry share).filter (0 < ·.inFlightBytes)).map
      fun e => { e with usedBytes := 0, measuredAt := now - usageTtl } := by
  unfold forget
  rw [entry_withEntry (by intro e; rfl)]
  congr 1
  have hf := find?_filter_of_nodup h (fun e => e.id ≠ share || 0 < e.inFlightBytes) share
  unfold entry
  rw [hf]
  cases he : counts.shares.find? (·.id = share) with
  | none => rfl
  | some e =>
      have hid := List.find?_some he
      simp only [decide_eq_true_eq] at hid
      simp [Option.filter_some, hid]

theorem entry_forget_ne (h : counts.Unique) (hne : other ≠ share) :
    (counts.forget now share).entry other = counts.entry other := by
  unfold forget
  rw [entry_withEntry_ne (by intro e; rfl) hne]
  have hf := find?_filter_of_nodup h (fun e => e.id ≠ share || 0 < e.inFlightBytes) other
  unfold entry
  rw [hf]
  cases he : counts.shares.find? (·.id = other) with
  | none => rfl
  | some e =>
      have hid := List.find?_some he
      simp only [decide_eq_true_eq] at hid
      rw [Option.filter_some_pos]
      simp [hid, hne]

theorem unique_forget (h : counts.Unique) : (counts.forget now share).Unique := by
  refine unique_withEntry (fun _ => rfl) ?_
  exact List.Nodup.sublist (List.Sublist.map _ List.filter_sublist) h

theorem entry_release {promised written : UInt64} :
    (counts.release promised written share).entry share = (counts.entry share).map fun e =>
      { e with
        inFlightBytes := saturatingSub e.inFlightBytes promised
        usedBytes := saturatingAdd e.usedBytes written } :=
  entry_withEntry fun _ => rfl

theorem entry_release_ne {promised written : UInt64} (hne : other ≠ share) :
    (counts.release promised written share).entry other = counts.entry other :=
  entry_withEntry_ne (fun _ => rfl) hne

/-! ## The in-flight figure of a share -/

theorem shareInFlight_congr {counts' : Counts} (h : counts'.entry share = counts.entry share) :
    counts'.shareInFlight share = counts.shareInFlight share := by
  unfold shareInFlight
  rw [h]

theorem shareInFlight_of_entry {e : ShareUsage} (h : counts.entry share = some e) :
    counts.shareInFlight share = e.inFlightBytes := by
  unfold shareInFlight
  rw [h]

theorem shareInFlight_observe {u : UInt64} :
    (counts.observe now share u).shareInFlight other = counts.shareInFlight other := by
  by_cases hne : other = share
  · subst hne
    obtain ⟨e, he, -, -, hf⟩ := entry_observe counts now other u
    rw [shareInFlight_of_entry he, hf]
  · exact shareInFlight_congr (entry_observe_ne hne)

theorem shareInFlight_adjust {added removed : UInt64} :
    (counts.adjust share added removed).shareInFlight other = counts.shareInFlight other := by
  by_cases hne : other = share
  · subst hne
    unfold shareInFlight adjust
    rw [entry_withEntry (by intro e; rfl)]
    cases counts.entry other <;> rfl
  · exact shareInFlight_congr (entry_withEntry_ne (fun _ => rfl) hne)

theorem shareInFlight_forget (h : counts.Unique) :
    (counts.forget now share).shareInFlight other = counts.shareInFlight other := by
  by_cases hne : other = share
  · subst hne
    unfold shareInFlight
    rw [entry_forget now other h]
    cases he : counts.entry other with
    | none => rfl
    | some e =>
        by_cases hp : 0 < e.inFlightBytes
        · rw [Option.filter_some_pos (by simpa using hp)]
          rfl
        · rw [Option.filter_some_neg (by simpa using hp)]
          simp only [Option.map_none]
          have : ¬ 0 < e.inFlightBytes.toNat := fun h' => hp (UInt64.lt_iff_toNat_lt.mpr h')
          apply UInt64.toNat.inj
          simp only [UInt64.toNat_zero]
          omega
  · exact shareInFlight_congr (entry_forget_ne h hne)

theorem shareInFlight_release {promised written : UInt64} :
    (counts.release promised written share).shareInFlight share =
      saturatingSub (counts.shareInFlight share) promised := by
  unfold shareInFlight
  rw [entry_release]
  cases counts.entry share with
  | none =>
      apply UInt64.toNat.inj
      simp
  | some e => rfl

/-! ## Admission -/

theorem admit_ok {limits : Limits} {u free wanted : UInt64} {counts' : Counts} {r : Reservation}
    (h : counts.admitUpload now share limits u free wanted = .ok (counts', r)) :
    Storage.admitUpload limits
        ⟨counts.owed share u, free, counts.uploadsRunning, counts.inFlightBytes⟩ wanted = .allowed ∧
    counts' =
      (Counts.mk (saturatingAdd32 counts.uploadsRunning 1) (saturatingAdd counts.inFlightBytes wanted)
        counts.shares).reserveForShare now share wanted ∧
    r = ⟨share, limits, counts.owed share u, wanted, 0, false⟩ := by
  unfold Counts.admitUpload at h
  simp only at h
  split at h
  · rename_i ha
    cases h
    exact ⟨ha, rfl, rfl⟩
  · cases h

@[simp] theorem uploadsRunning_reserveForShare {wanted : UInt64} :
    (counts.reserveForShare now share wanted).uploadsRunning = counts.uploadsRunning := by
  unfold reserveForShare
  split <;> rfl

@[simp] theorem inFlightBytes_reserveForShare {wanted : UInt64} :
    (counts.reserveForShare now share wanted).inFlightBytes = counts.inFlightBytes := by
  unfold reserveForShare
  split <;> rfl

@[simp] theorem uploadsRunning_observe {u : UInt64} :
    (counts.observe now share u).uploadsRunning = counts.uploadsRunning := by
  unfold observe
  split <;> rfl

@[simp] theorem inFlightBytes_observe {u : UInt64} :
    (counts.observe now share u).inFlightBytes = counts.inFlightBytes := by
  unfold observe
  split <;> rfl

end Counts

/-! ## Ending a reservation -/

namespace Reservation

theorem drop_eq {r : Reservation} (h : r.released = false) :
    r.drop counts = counts.release r.promised 0 r.share := by
  simp [drop, release, h]

/-- A finished reservation gives its room back once: the drop that follows finds it released. -/
theorem finish_eq {r : Reservation} (h : r.released = false) :
    r.finish counts = counts.release r.promised r.written r.share := by
  simp [finish, drop, release, h]

theorem record_written_le {r : Reservation} {bytes : UInt64} (h : r.written.toNat ≤ r.promised.toNat) :
    (r.record bytes).2.written.toNat ≤ (r.record bytes).2.promised.toNat := by
  unfold record
  simp only
  split
  · rename_i ha
    exact (stillAdmitted_allowed_iff.mp ha).1
  · exact h

@[simp] theorem record_promised {r : Reservation} {bytes : UInt64} :
    (r.record bytes).2.promised = r.promised := by
  unfold record
  simp only
  split <;> rfl

@[simp] theorem record_share {r : Reservation} {bytes : UInt64} :
    (r.record bytes).2.share = r.share := by
  unfold record
  simp only
  split <;> rfl

@[simp] theorem record_released {r : Reservation} {bytes : UInt64} :
    (r.record bytes).2.released = r.released := by
  unfold record
  simp only
  split <;> rfl

end Reservation

end Selfhost.Storage
