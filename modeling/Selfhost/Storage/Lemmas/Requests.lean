import Selfhost.Lib.Run
import Selfhost.Storage.Lemmas.Shares

/-!
# The quotas between requests

No cached size is less than what a measurement would find. Every request keeps that so, and under a condition
on its destination it keeps the quotas as well.
-/

namespace Selfhost.Storage

open Selfhost.Lib

variable {platform : Platform} {vol : Volume} {w w' : World} {share : Str} {disk : Disk}

/-! ## The ledger between operations -/

/-- No cached size that is still trusted is less than what a measurement would find. -/
structure Accounted (w : World) : Prop where
  unique : w.counts.Unique
  cached : ∀ share e, w.counts.entry share = some e → Fresh w.now e →
    min (counted maxTreeDepth (contents w.disk share)) u64Max ≤ e.usedBytes.toNat

/-- The quotas that were kept before a step are kept after it. -/
def KeepsQuotas (limits : Str → Limits) (w w' : World) : Prop :=
  ∀ share q, (limits share).quotaBytes = some q → w.held share ≤ q.toNat → w'.held share ≤ q.toNat

theorem Accounted.watched (h : Accounted w) (hz : hidden maxTreeDepth (contents w.disk share) = 0) :
    Watched w share := by
  refine ⟨fun e he hf => ?_, fun _ => hz⟩
  have := h.cached share e he hf
  have hsum := counted_add_hidden maxTreeDepth (contents w.disk share)
  unfold World.held
  rw [← hsum, hz]
  exact this

variable {limits : Str → Limits}

theorem Grown.accounted (h : Grown vol w w') (ha : Accounted w) (hl : vol.limits = limits vol.id) :
    Accounted w' ∧ KeepsQuotas limits w w' := by
  refine ⟨⟨h.unique ha.unique, ?_⟩, ?_⟩
  · intro share e he hf
    by_cases hs : share = vol.id
    · subst hs
      exact h.cached e he hf
    · obtain ⟨hcontents, hentry⟩ := h.elsewhere share hs
      rw [hentry] at he
      rw [h.now] at hf
      rw [hcontents]
      exact ha.cached share e he hf
  · intro share q hq hle
    by_cases hs : share = vol.id
    · subst hs
      exact h.quota q (by rw [hl]; exact hq) hle
    · unfold World.held at hle ⊢
      rw [(h.elsewhere share hs).1]
      exact hle

/-- Some files hold no more than others, and a measurement finds no more. -/
def Lighter (f f' : Disk) : Prop :=
  counted maxTreeDepth f' ≤ counted maxTreeDepth f ∧ heldBytes f' ≤ heldBytes f

theorem Shrinks.lighter {f f' : Disk} (h : Shrinks f f') : Lighter f f' := ⟨(h.1 maxTreeDepth).1, h.2⟩

/-- A step that leaves less in every share and does not touch the ledger. -/
theorem Accounted.lighter (h : Accounted w) {disk' : Disk}
    (hs : ∀ share, Lighter (contents w.disk share) (contents disk' share)) :
    Accounted { w with disk := disk' } ∧ KeepsQuotas limits w { w with disk := disk' } := by
  refine ⟨⟨h.unique, ?_⟩, ?_⟩
  · intro share e he hf
    have := h.cached share e he hf
    have := (hs share).1
    simp only
    omega
  · intro share q _ hle
    exact Nat.le_trans (hs share).2 hle

theorem not_fresh_forget {counts : Counts} (h : counts.Unique) {now : Int} {e : ShareUsage}
    (he : (counts.forget now share).entry share = some e) : ¬ Fresh now e := by
  rw [Counts.entry_forget now share h] at he
  obtain ⟨e', -, rfl⟩ := Option.map_eq_some_iff.mp he
  unfold Fresh
  simp only
  omega

/-- Once the size of a share is forgotten, its files do not matter to the ledger. -/
theorem Accounted.forget (share : Str) (hu : w.counts.Unique)
    (h : ∀ other e, other ≠ share → w.counts.entry other = some e → Fresh w.now e →
      min (counted maxTreeDepth (contents w.disk other)) u64Max ≤ e.usedBytes.toNat) :
    Accounted { w with counts := w.counts.forget w.now share } := by
  refine ⟨Counts.unique_forget hu, ?_⟩
  intro other e he hf
  by_cases hs : other = share
  · subst hs
    exact absurd hf (not_fresh_forget hu he)
  · simp only [Counts.entry_forget_ne hu hs] at he
    exact h other e hs he hf

theorem KeepsQuotas.trans {w₁ w₂ w₃ : World} (h₁ : KeepsQuotas limits w₁ w₂) (h₂ : KeepsQuotas limits w₂ w₃) :
    KeepsQuotas limits w₁ w₃ :=
  fun share q hq hle => h₂ share q hq (h₁ share q hq hle)

/-! ## The requests -/

theorem upload_accounted {path : RelativePath} {existing : Existing} {declared : UInt64} {body : Body}
    (h : Accounted w) (hl : vol.limits = limits vol.id)
    (hz : hidden maxTreeDepth (contents w.disk vol.id) = 0) :
    Accounted (vol.upload platform w path existing declared body.data body.pieces).2 ∧
      KeepsQuotas limits w (vol.upload platform w path existing declared body.data body.pieces).2 := by
  have hsame : Accounted w ∧ KeepsQuotas limits w w := ⟨h, fun _ _ _ hle => hle⟩
  unfold Volume.upload
  cases vol.permit .write with
  | error failure => exact hsame
  | ok u =>
      simp only
      cases path.fileName with
      | none => exact hsame
      | some name =>
          simp only
          cases hp : vol.parentOf w.disk path with
          | error failure => exact hsame
          | ok parent =>
              obtain ⟨rfl, -⟩ := parentOf_ok hp
              obtain hf | ⟨-, hg⟩ := receive_filled platform declared path.parent.names name existing body.data
                body.pieces (h.watched hz) body.whole
              · exact hf.grown.accounted h hl
              · exact hg.accounted h hl

theorem createDirectory_accounted {path : RelativePath} (h : Accounted w) :
    Accounted (vol.createDirectory platform w path).2 ∧
      KeepsQuotas limits w (vol.createDirectory platform w path).2 := by
  have hsame : Accounted w ∧ KeepsQuotas limits w w := ⟨h, fun _ _ _ hle => hle⟩
  unfold Volume.createDirectory
  split
  · exact hsame
  · exact hsame
  · split
    · exact hsame
    · rename_i parent hp
      obtain ⟨rfl, -⟩ := parentOf_ok hp
      split
      · exact hsame
      · rename_i disk' made hc
        obtain ⟨-, hother, hcount, hhide⟩ := createDir_contents hc
        refine h.lighter fun share => ?_
        by_cases hs : share = vol.id
        · subst hs
          refine ⟨Nat.le_of_eq hcount, ?_⟩
          rw [← counted_add_hidden maxTreeDepth, hcount, hhide, counted_add_hidden]
        · rw [hother share hs]
          exact (Shrinks.refl _).lighter

theorem delete_accounted {path : RelativePath} (h : Accounted w) :
    Accounted (vol.delete w path).2 ∧ KeepsQuotas limits w (vol.delete w path).2 := by
  have hsame : Accounted w ∧ KeepsQuotas limits w w := ⟨h, fun _ _ _ hle => hle⟩
  unfold Volume.delete
  split
  · exact hsame
  · exact hsame
  · rename_i name _ _
    split
    · exact hsame
    · rename_i parent hp
      obtain ⟨rfl, -⟩ := parentOf_ok hp
      have hshrinks := removeTree_shrinks vol.id path.parent.names name w.disk
      split
      · rename_i error disk' hr
        rw [hr] at hshrinks
        exact h.lighter fun share => (hshrinks share).lighter
      · rename_i disk' hr
        rw [hr] at hshrinks
        have hs : _ ∧ KeepsQuotas limits w _ := h.lighter fun share => (hshrinks share).lighter
        exact ⟨Accounted.forget (w := { w with disk := disk' }) vol.id hs.1.unique
          fun other e _ he hf => hs.1.cached other e he hf, hs.2⟩

theorem copyTo_accounted {home : Volume} {source target : RelativePath} {replace : Bool} (h : Accounted w)
    (hl : vol.limits = limits vol.id) (hz : hidden maxTreeDepth (contents w.disk vol.id) = 0) :
    Accounted (home.copyTo platform w source vol target replace).2 ∧
      KeepsQuotas limits w (home.copyTo platform w source vol target replace).2 := by
  obtain ⟨⟨failure, he⟩, -⟩ | ⟨ends, hs, he⟩ := copyTo_cases platform home vol source target replace w
  · rw [he]
    exact ⟨h, fun _ _ _ hle => hle⟩
  · have hthere := hs.checked.there_eq
    have hshrinks := clearDestination_shrinks vol.id target.parent.names ends.newName replace w.disk
    rw [he]
    rw [hthere] at he ⊢
    cases hclear : clearDestination w.disk (vol.id :: target.parent.names) ends.newName replace with
    | mk result disk' =>
        rw [hclear] at hshrinks
        simp only at hshrinks
        have hcleared : _ ∧ KeepsQuotas limits w _ := h.lighter fun share => (hshrinks share).lighter
        cases result with
        | error failure => exact hcleared
        | ok existed =>
            have hz' : hidden maxTreeDepth (contents disk' vol.id) = 0 := by
              have := ((hshrinks vol.id).1 maxTreeDepth).2
              omega
            have hfilled := copyInto_filled platform maxTreeDepth target.parent.names ends.here ends.name
              ends.newName (hcleared.1.watched hz')
            obtain ⟨haccounted, hquotas⟩ := hfilled.grown.accounted hcleared.1 hl
            simp only
            cases hcopy : copyInto platform vol maxTreeDepth { w with disk := disk' } ends.here ends.name
                (vol.id :: target.parent.names) ends.newName with
            | mk result w' =>
                rw [hcopy] at haccounted hquotas
                cases result with
                | error failure => exact ⟨haccounted, hcleared.2.trans hquotas⟩
                | ok u =>
                    exact ⟨Accounted.forget vol.id haccounted.unique
                      fun other e _ he hf => haccounted.cached other e he hf, hcleared.2.trans hquotas⟩

/-- A move keeps the quotas when it stays in its share, or fits into the other one. -/
theorem moveTo_accounted {home : Volume} {source target : RelativePath} {replace : Bool} (h : Accounted w)
    (hfits : home.id ≠ vol.id → ∀ ends, Surveyed w.disk home vol .write source target ends →
      (replace = true ∨ w.disk.get ends.target = none) →
      ∀ e q, (ends.cleared w.disk).get ends.source = some e → (limits vol.id).quotaBytes = some q →
        heldBytes (contents (ends.cleared w.disk) vol.id) + e.total FileData.size ≤ q.toNat) :
    Accounted (home.moveTo platform w source vol target replace).2 ∧
      KeepsQuotas limits w (home.moveTo platform w source vol target replace).2 := by
  obtain ⟨⟨failure, he⟩, -⟩ | ⟨ends, hs, he⟩ := moveTo_cases platform home vol source target replace w
  · rw [he]
    exact ⟨h, fun _ _ _ hle => hle⟩
  · have hc := hs.checked
    have hshrinks := clearDestination_shrinks vol.id target.parent.names ends.newName replace w.disk
    rw [← hc.there_eq] at hshrinks
    rw [he]
    cases hclear : clearDestination w.disk ends.there ends.newName replace with
    | mk result disk' =>
        rw [hclear] at hshrinks
        simp only at hshrinks
        have hcleared : _ ∧ KeepsQuotas limits w _ := h.lighter fun share => (hshrinks share).lighter
        cases result with
        | error failure => exact hcleared
        | ok existed =>
            obtain ⟨hdisk, hfree⟩ := clearDestination_ok hc.plain' hclear
            simp only
            obtain ⟨error, hr, hio⟩ | ⟨renamed, hr, hmoved, -, -, -⟩ := renameInto_cases platform w.sequence disk'
              ends.here ends.there hc.plain hc.plain'
            · rw [performMove_of_error (w := { w with disk := disk' }) hr hio]
              exact ⟨⟨hcleared.1.unique, hcleared.1.cached⟩, hcleared.2⟩
            · rw [performMove_of_ok (w := { w with disk := disk' }) hr]
              rw [hc.here_eq, hc.there_eq] at hmoved
              obtain ⟨e, hsource, hheld, hother⟩ := hmoved.held
              refine ⟨?_, hcleared.2.trans ?_⟩
              · -- Both sizes are forgotten; the other shares are as they were.
                have hunique := hcleared.1.unique
                refine Accounted.forget (w := { w with
                    disk := renamed
                    counts := w.counts.forget w.now home.id
                    sequence := w.sequence + 1 }) vol.id (Counts.unique_forget hunique) ?_
                intro other e' hne he' hf
                by_cases hhome : other = home.id
                · subst hhome
                  exact absurd hf (not_fresh_forget hunique he')
                · simp only [Counts.entry_forget_ne hunique hhome] at he'
                  rw [hother other hhome hne]
                  exact hcleared.1.cached other e' he' hf
              · intro share q hq hle
                have hshare := hheld share
                by_cases hcross : share = vol.id ∧ home.id ≠ vol.id
                · obtain ⟨rfl, hne⟩ := hcross
                  rw [hdisk, ← hc.here_eq] at hsource
                  have hfit := hfits hne ends hs hfree e q hsource hq
                  rw [if_pos ⟨rfl, hne⟩, hdisk] at hshare
                  exact Nat.le_trans hshare hfit
                · rw [if_neg hcross] at hshare
                  exact Nat.le_trans hshare hle

/-! ## Steps -/

/-- Where a step is known to keep the quotas: an upload and a copy go to a share all of whose files a
measurement finds, and a move into another share fits there. -/
def World.respects (limits : Str → Limits) (w : World) : ShareOp → Prop
  | .request _ (.upload share _ _ _ _) => hidden maxTreeDepth (contents w.disk share) = 0
  | .request _ (.copyTo _ _ into _ _) => hidden maxTreeDepth (contents w.disk into) = 0
  | .request permits (.moveTo home source into target replace) =>
      home ≠ into → ∀ ends,
        Surveyed w.disk (openVolume limits permits home) (openVolume limits permits into) .write source target
          ends →
        (replace = true ∨ w.disk.get ends.target = none) →
        ∀ e q, (ends.cleared w.disk).get ends.source = some e → (limits into).quotaBytes = some q →
          heldBytes (contents (ends.cleared w.disk) into) + e.total FileData.size ≤ q.toNat
  | .request _ (.createDirectory _ _) | .request _ (.delete _ _) | .tick _ => True

theorem Accounted.tick (h : Accounted w) (elapsed : Nat) : Accounted { w with now := w.now + elapsed } := by
  refine ⟨h.unique, fun share e he hf => h.cached share e he ?_⟩
  unfold Fresh at hf ⊢
  simp only at hf
  omega

theorem Accounted.step {op : ShareOp} (h : Accounted w) (hok : w.respects limits op)
    (ht : w.step platform limits op = some w') : Accounted w' ∧ KeepsQuotas limits w w' := by
  cases op with
  | tick elapsed =>
      cases ht
      exact ⟨h.tick elapsed, fun _ _ _ hle => hle⟩
  | request permits request =>
      cases ht
      cases request with
      | upload share path existing declared body =>
          exact upload_accounted h rfl hok
      | copyTo home source into target replace =>
          exact copyTo_accounted h rfl hok
      | moveTo home source into target replace =>
          exact moveTo_accounted h hok
      | createDirectory share path => exact createDirectory_accounted h
      | delete share path => exact delete_accounted h

end Selfhost.Storage
