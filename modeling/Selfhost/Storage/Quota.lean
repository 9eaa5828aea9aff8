import Selfhost.Lib.Machine
import Selfhost.Lib.Utf8

/-!
# Admission

The ceilings of `services/storage/src/quota.rs` and the two decisions made against them: before the first
byte of an upload, and again for every chunk.
-/

namespace Selfhost.Storage

open Selfhost.Lib

structure Limits where
  quotaBytes : Option UInt64
  maxConcurrent : UInt32
  maxInFlightBytes : UInt64
  freeSpaceFloor : UInt64
  deriving DecidableEq, Repr

def defaultMaxConcurrent : UInt32 := 8

def defaultMaxInFlightBytes : UInt64 := 16 * 1024 * 1024 * 1024

/-- What is true right now, as the write path observed it. -/
structure Usage where
  usedBytes : UInt64
  freeBytes : UInt64
  uploadsRunning : UInt32
  inFlightBytes : UInt64
  deriving DecidableEq, Repr

/-- Whether an upload may start or go on, and if not, why not. -/
inductive Admission where
  | allowed
  | overQuota (limit used wanted : UInt64)
  | noSpace (free floor wanted : UInt64)
  | tooManyUploads (limit : UInt32)
  | tooMuchInFlight (limit : UInt64)
  | absurd
  | pastDeclaration (declared written : UInt64)
  deriving DecidableEq, Repr

/-- The part of `admit` after the quota: the volume must keep its floor under everything promised. -/
def admitFree (limits : Limits) (usage : Usage) (promised wanted : UInt64) : Admission :=
  match checkedAdd promised limits.freeSpaceFloor with
  | none => .absurd
  | some committed =>
      if usage.freeBytes < committed then .noSpace usage.freeBytes limits.freeSpaceFloor wanted
      else .allowed

/-- Decides whether an upload of `wanted` bytes may start. -/
def admitUpload (limits : Limits) (usage : Usage) (wanted : UInt64) : Admission :=
  if limits.maxConcurrent ≤ usage.uploadsRunning then .tooManyUploads limits.maxConcurrent
  else match checkedAdd usage.inFlightBytes wanted with
    | none => .absurd
    | some promised =>
        if limits.maxInFlightBytes < promised then .tooMuchInFlight limits.maxInFlightBytes
        else match limits.quotaBytes with
          | none => admitFree limits usage promised wanted
          | some limit =>
              match checkedAdd usage.usedBytes wanted with
              | none => .absurd
              | some after =>
                  if limit < after then .overQuota limit usage.usedBytes wanted
                  else admitFree limits usage promised wanted

/-- Decides whether an upload may go on once `written` bytes have landed. -/
def stillAdmitted (limits : Limits) (usedBefore promised written : UInt64) : Admission :=
  if promised < written then .pastDeclaration promised written
  else match limits.quotaBytes with
    | none => .allowed
    | some limit =>
        match checkedAdd usedBefore written with
        | none => .absurd
        | some total => if limit < total then .overQuota limit usedBefore written else .allowed

/-! ## What is allowed -/

theorem admitFree_allowed_iff {limits : Limits} {usage : Usage} {promised wanted : UInt64} :
    admitFree limits usage promised wanted = .allowed ↔
      promised.toNat + limits.freeSpaceFloor.toNat ≤ usage.freeBytes.toNat := by
  unfold admitFree
  have hmax := toNat_le_u64Max usage.freeBytes
  split
  · rename_i hnone
    have := checkedAdd_eq_none hnone
    exact iff_of_false Admission.noConfusion (by omega)
  · rename_i committed hsome
    obtain ⟨hc, -⟩ := checkedAdd_eq_some hsome
    rw [← hc]
    split
    · rename_i hlt
      exact iff_of_false Admission.noConfusion (Nat.not_le.mpr (UInt64.lt_iff_toNat_lt.mp hlt))
    · rename_i hlt
      rw [UInt64.lt_iff_toNat_lt, Nat.not_lt] at hlt
      exact iff_of_true rfl hlt

/-- An upload may start exactly if it fits under the number of uploads, the transfer budget, the quota and
the floor of the volume. -/
theorem admit_allowed_iff {limits : Limits} {usage : Usage} {wanted : UInt64} :
    admitUpload limits usage wanted = .allowed ↔
      usage.uploadsRunning.toNat < limits.maxConcurrent.toNat ∧
      usage.inFlightBytes.toNat + wanted.toNat ≤ limits.maxInFlightBytes.toNat ∧
      (∀ limit, limits.quotaBytes = some limit → usage.usedBytes.toNat + wanted.toNat ≤ limit.toNat) ∧
      usage.inFlightBytes.toNat + wanted.toNat + limits.freeSpaceFloor.toNat ≤ usage.freeBytes.toNat := by
  unfold admitUpload
  split
  · rename_i hrun
    rw [UInt32.le_iff_toNat_le] at hrun
    exact iff_of_false Admission.noConfusion fun h => by omega
  · rename_i hrun
    rw [UInt32.le_iff_toNat_le, Nat.not_le] at hrun
    split
    · rename_i hnone
      have := checkedAdd_eq_none hnone
      have := toNat_le_u64Max limits.maxInFlightBytes
      exact iff_of_false Admission.noConfusion fun h => by omega
    · rename_i promised hsome
      obtain ⟨hp, -⟩ := checkedAdd_eq_some hsome
      rw [← hp]
      split
      · rename_i hfl
        rw [UInt64.lt_iff_toNat_lt] at hfl
        exact iff_of_false Admission.noConfusion fun h => by omega
      · rename_i hfl
        rw [UInt64.lt_iff_toNat_lt, Nat.not_lt] at hfl
        split
        · rename_i hq
          rw [admitFree_allowed_iff]
          simp [hrun, hfl, hq]
        · rename_i limit hq
          split
          · rename_i hnone
            have := checkedAdd_eq_none hnone
            have := toNat_le_u64Max limit
            refine iff_of_false Admission.noConfusion fun h => ?_
            have := h.2.2.1 limit hq
            omega
          · rename_i after hafter
            obtain ⟨ha, -⟩ := checkedAdd_eq_some hafter
            split
            · rename_i hlt
              rw [UInt64.lt_iff_toNat_lt, ha] at hlt
              refine iff_of_false Admission.noConfusion fun h => ?_
              have := h.2.2.1 limit hq
              omega
            · rename_i hle
              rw [UInt64.lt_iff_toNat_lt, ha, Nat.not_lt] at hle
              rw [admitFree_allowed_iff]
              simp only [hrun, hfl, hq, true_and]
              exact ⟨fun h => ⟨fun l hl => by cases hl; omega, h⟩, fun h => h.2⟩

/-- With less in use and less running, what was allowed still is. -/
theorem admit_allowed_mono {limits : Limits} {usage usage' : Usage} {wanted : UInt64}
    (h : admitUpload limits usage wanted = .allowed)
    (hused : usage'.usedBytes.toNat ≤ usage.usedBytes.toNat)
    (hfree : usage'.freeBytes = usage.freeBytes)
    (hrun : usage'.uploadsRunning.toNat ≤ usage.uploadsRunning.toNat)
    (hflight : usage'.inFlightBytes.toNat ≤ usage.inFlightBytes.toNat) :
    admitUpload limits usage' wanted = .allowed := by
  obtain ⟨h₁, h₂, h₃, h₄⟩ := admit_allowed_iff.mp h
  refine admit_allowed_iff.mpr ⟨by omega, by omega, ?_, by rw [hfree]; omega⟩
  intro limit hl
  have := h₃ limit hl
  omega

/-- An upload may go on exactly if it keeps to its declaration and to the quota. -/
theorem stillAdmitted_allowed_iff {limits : Limits} {usedBefore promised written : UInt64} :
    stillAdmitted limits usedBefore promised written = .allowed ↔
      written.toNat ≤ promised.toNat ∧
      ∀ limit, limits.quotaBytes = some limit → usedBefore.toNat + written.toNat ≤ limit.toNat := by
  unfold stillAdmitted
  split
  · rename_i hw
    rw [UInt64.lt_iff_toNat_lt] at hw
    exact iff_of_false Admission.noConfusion fun h => by omega
  · rename_i hw
    rw [UInt64.lt_iff_toNat_lt, Nat.not_lt] at hw
    split
    · rename_i hq
      simp [hw, hq]
    · rename_i limit hq
      split
      · rename_i hnone
        have := checkedAdd_eq_none hnone
        have := toNat_le_u64Max limit
        refine iff_of_false Admission.noConfusion fun h => ?_
        have := h.2 limit hq
        omega
      · rename_i total hsome
        obtain ⟨ht, -⟩ := checkedAdd_eq_some hsome
        split
        · rename_i hlt
          rw [UInt64.lt_iff_toNat_lt, ht] at hlt
          refine iff_of_false Admission.noConfusion fun h => ?_
          have := h.2 limit hq
          omega
        · rename_i hle
          rw [UInt64.lt_iff_toNat_lt, ht, Nat.not_lt] at hle
          refine iff_of_true rfl ⟨hw, fun l hl => ?_⟩
          cases hq.symm.trans hl
          exact hle

end Selfhost.Storage
