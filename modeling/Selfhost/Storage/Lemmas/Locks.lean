import Selfhost.Lib.Slice
import Selfhost.Storage.Dav
import Selfhost.Storage.Lemmas.Frame

/-!
# Locks as paths of the disk

A resource is where it lies on the disk, and containment is the prefix order of paths. The table keeps its locks
apart, and a write changes nothing away from its ends.
-/

namespace Selfhost.Storage

open Selfhost.Lib

/-! ## Tokens -/

theorem sameBytes_iff {expected actual : Bytes} : sameBytes expected actual = true ↔ expected = actual := by
  unfold sameBytes
  split
  · rename_i hlen
    simp only [Bool.false_eq_true, false_iff]
    rintro rfl
    exact hlen rfl
  · rename_i hlen
    rw [beq_iff_eq, differences_eq_zero_iff (not_not.mp hlen)]

theorem Token.isMatch_iff {token : Token} {presented : Str} : token.isMatch presented = true ↔ token = presented := by
  rw [Token.isMatch, sameBytes_iff]
  constructor
  · intro h
    have hdecode := congrArg fromUtf8 h
    rw [fromUtf8_utf8, fromUtf8_utf8] at hdecode
    exact Option.some.inj hdecode
  · rintro rfl
    rfl

/-! ## Resources -/

namespace Resource

/-- Where a resource lies on the disk. -/
def location (r : Resource) : Dir := r.share :: r.path.names

/-- The directory a resource lies in; the root of a share is its own. -/
def parentDir (r : Resource) : Dir := r.share :: r.path.parent.names

theorem location_inj {r other : Resource} (h : r.location = other.location) : r = other := by
  obtain ⟨share, ⟨segments⟩⟩ := r
  obtain ⟨share', ⟨segments'⟩⟩ := other
  obtain ⟨rfl, hnames⟩ := List.cons.inj h
  obtain rfl : segments = segments' := (Subtype.val_injective).list_map hnames
  rfl

theorem zip_all_beq_iff {l m : List Str} (hlen : m.length ≤ l.length) :
    ((l.zip m).all fun (a, b) => a == b) = true ↔ m <+: l := by
  induction m generalizing l with
  | nil => simp
  | cons b m ih =>
      cases l with
      | nil => simp at hlen
      | cons a l =>
          rw [List.zip_cons_cons, List.all_cons, Bool.and_eq_true, beq_iff_eq, List.cons_prefix_cons,
            ih (Nat.le_of_succ_le_succ hlen), eq_comm]

theorem contains_iff {r other : Resource} : r.contains other = true ↔ r.location <+: other.location := by
  unfold contains location
  rw [List.cons_prefix_cons]
  split
  · rename_i hne
    simp [hne]
  · rename_i heq
    rw [Bool.and_eq_true, decide_eq_true_eq]
    constructor
    · rintro ⟨hlen, hall⟩
      exact ⟨not_not.mp heq, (zip_all_beq_iff hlen).mp hall⟩
    · rintro ⟨-, h⟩
      exact ⟨h.length_le, (zip_all_beq_iff h.length_le).mpr h⟩

theorem parentDir_prefix (r : Resource) : r.parentDir <+: r.location := by
  rw [parentDir, location, List.cons_prefix_cons]
  refine ⟨rfl, ?_⟩
  cases hname : r.path.fileName with
  | none =>
      have hnil : r.path.names = [] := List.getLast?_eq_none_iff.mp hname
      have hparent : r.path.parent.names = r.path.names.dropLast := List.map_dropLast
      rw [hparent, hnil]
      exact List.prefix_rfl
  | some name =>
      rw [RelativePath.names_eq hname]
      exact List.prefix_append _ _

/-- Below the root of its share, a resource has plain names only. -/
theorem plain_of_prefix {r : Resource} {share : Str} {d : List Str} {n : Str}
    (h : share :: d ++ [n] <+: r.location) : isPlain n := by
  obtain ⟨q, hq⟩ := h
  have hnames := (List.cons.inj hq).2
  have hmem : n ∈ r.path.names := by
    rw [← hnames]
    simp
  obtain ⟨segment, -, rfl⟩ := List.mem_map.mp hmem
  exact segment.property

end Resource

/-! ## What a lock protects -/

/-- The paths that a lock covers. -/
def Lock.Protects (lock : Lock) (p : Dir) : Prop :=
  match lock.reach with
  | .infinity => lock.resource.location <+: p
  | .zero => p = lock.resource.location

theorem Lock.covers_iff {lock : Lock} {r : Resource} : lock.covers r = true ↔ lock.Protects r.location := by
  obtain ⟨token, resource, reach, owner, seconds, expiresAt⟩ := lock
  cases reach with
  | infinity => exact Resource.contains_iff
  | zero =>
      simp only [Lock.covers, Reach.covers, Lock.Protects, beq_iff_eq]
      constructor
      · rintro rfl
        rfl
      · exact fun h => (Resource.location_inj h).symm

/-- A lock that covers no end of a write, and lies beneath none, protects nothing at or below the end. -/
theorem Lock.Protects.not_below {lock : Lock} {e : Resource} {p : Dir} (h : lock.Protects p)
    (hcovers : lock.covers e = false) (hbeneath : ¬ (e.contains lock.resource = true ∧ lock.resource ≠ e)) :
    ¬ e.location <+: p := by
  intro hp
  have hcovers : ¬ lock.Protects e.location := by
    rw [← Lock.covers_iff, hcovers]
    exact Bool.false_ne_true
  have hnot : ¬ e.location <+: lock.resource.location := by
    intro hfront
    refine hbeneath ⟨Resource.contains_iff.mpr hfront, ?_⟩
    rintro rfl
    apply hcovers
    unfold Lock.Protects
    split
    · exact List.prefix_rfl
    · rfl
  unfold Lock.Protects at h hcovers
  split at h
  · rename_i hreach
    rw [hreach] at hcovers
    rcases List.prefix_or_prefix_of_prefix h hp with hle | hle
    · exact hcovers hle
    · exact hnot hle
  · subst h
    exact hnot hp

/-- Nor does it protect a temporary name beside the end. -/
theorem Lock.Protects.offTemporary {lock : Lock} {e : Resource} {p : Dir} (h : lock.Protects p)
    (hcovers : lock.covers e = false) : OffTemporary e.parentDir p := by
  intro n hn hp
  have hcovers : ¬ lock.Protects e.location := by
    rw [← Lock.covers_iff, hcovers]
    exact Bool.false_ne_true
  have hnot : ¬ e.parentDir ++ [n] <+: lock.resource.location := fun hfront => hn (Resource.plain_of_prefix hfront)
  unfold Lock.Protects at h hcovers
  split at h
  · rename_i hreach
    rw [hreach] at hcovers
    rcases List.prefix_or_prefix_of_prefix h hp with hle | hle
    · rcases List.prefix_concat_iff.mp hle with heq | hparent
      · exact hnot (heq ▸ List.prefix_rfl)
      · exact hcovers (hparent.trans e.parentDir_prefix)
    · exact hnot hle
  · subst h
    exact hnot hp

/-! ## The table -/

/-- Neither lock covers the other's resource. -/
def Lock.Apart (a b : Lock) : Prop := a.covers b.resource = false ∧ b.covers a.resource = false

namespace Locks

variable {held : Locks} {now : Int}

/-- The locks are apart, and there are not too many. -/
structure Sound (held : Locks) : Prop where
  apart : held.Pairwise Lock.Apart
  bounded : held.length ≤ maxLocks

theorem Sound.sublist {held' : Locks} (h : held.Sound) (hsub : held'.Sublist held) : held'.Sound :=
  ⟨h.apart.sublist hsub, hsub.length_le.trans h.bounded⟩

theorem retainLive_sublist (held : Locks) (now : Int) : (held.retainLive now).Sublist held := List.filter_sublist

theorem mem_retainLive {lock : Lock} : lock ∈ held.retainLive now ↔ lock ∈ held ∧ lock.isLive now = true :=
  List.mem_filter

/-- What becomes of the table when a lock is asked for. -/
theorem take_cases (held : Locks) (now : Int) (resource : Resource) (reach : Reach) (owner : Option Str) (seconds : Nat)
    (random : Option Bytes) :
    (held.take now resource reach owner seconds random).2 = held.retainLive now ∨
    ∃ lock, (held.take now resource reach owner seconds random).2 = held.retainLive now ++ [lock] ∧
      lock.resource = resource ∧ lock.reach = reach ∧ (held.retainLive now).inTheWay resource reach = none ∧
      (held.retainLive now).length < maxLocks := by
  unfold take
  dsimp only
  split
  · exact Or.inl rfl
  · rename_i hfree
    split
    · exact Or.inl rfl
    · rename_i hroom
      split
      · exact Or.inl rfl
      · exact Or.inr ⟨_, rfl, rfl, rfl, hfree, Nat.not_le.mp hroom⟩

/-- What is not in the way of a new lock is apart from it. -/
theorem apart_of_inTheWay {lock existing : Lock} (h : held.inTheWay lock.resource lock.reach = none)
    (hmem : existing ∈ held) : existing.Apart lock := by
  have hnot := List.find?_eq_none.mp h existing hmem
  simp only [Bool.or_eq_true, Bool.and_eq_true, beq_iff_eq, not_or, Bool.not_eq_true] at hnot
  refine ⟨hnot.1, Bool.eq_false_iff.mpr fun hcovers => ?_⟩
  unfold Lock.covers Reach.covers at hcovers
  split at hcovers
  · rename_i hreach
    exact hnot.2 ⟨hreach, hcovers⟩
  · -- A lock of depth zero covers its own resource only, which the other would cover too.
    rw [beq_iff_eq] at hcovers
    have hself : existing.covers lock.resource = true := by
      rw [Lock.covers_iff, hcovers]
      unfold Lock.Protects
      split
      · exact List.prefix_rfl
      · rfl
    rw [hnot.1] at hself
    cases hself

theorem Sound.take (h : held.Sound) (now : Int) (resource : Resource) (reach : Reach) (owner : Option Str)
    (seconds : Nat) (random : Option Bytes) : (held.take now resource reach owner seconds random).2.Sound := by
  have hlive := h.sublist (retainLive_sublist held now)
  obtain heq | ⟨lock, heq, rfl, rfl, hfree, hroom⟩ := take_cases held now resource reach owner seconds random
  · rw [heq]
    exact hlive
  · rw [heq]
    refine ⟨List.pairwise_append.mpr ⟨hlive.apart, List.pairwise_singleton _ _, ?_⟩, ?_⟩
    · intro existing hmem x hx
      rw [List.mem_singleton.mp hx]
      exact apart_of_inTheWay hfree hmem
    · rw [List.length_append, List.length_singleton]
      exact hroom

/-- A refreshed table has the resources and depths it had. -/
theorem Sound.refresh (h : held.Sound) (now : Int) (token : Str) (seconds : Nat) :
    (held.refresh now token seconds).2.Sound := by
  have hlive := h.sublist (retainLive_sublist held now)
  have hmap : (held.refresh now token seconds).2.map (fun lock => (lock.reach, lock.resource)) =
      (held.retainLive now).map fun lock => (lock.reach, lock.resource) := by
    unfold Locks.refresh
    rw [map_modifyFirst]
    exact fun _ => rfl
  have hkeys : ∀ l : Locks, l.Pairwise Lock.Apart ↔ (l.map fun lock => (lock.reach, lock.resource)).Pairwise
      fun a b => a.1.covers a.2 b.2 = false ∧ b.1.covers b.2 a.2 = false := by
    intro l
    rw [List.pairwise_map]
    rfl
  refine ⟨?_, ?_⟩
  · rw [hkeys, hmap, ← hkeys]
    exact hlive.apart
  · have hlength := congrArg List.length hmap
    rw [List.length_map, List.length_map] at hlength
    rw [hlength]
    exact hlive.bounded

theorem release_sublist (held : Locks) (now : Int) (resource : Resource) (token : Str) :
    (held.release now resource token).2.Sublist held := by
  have hlive := retainLive_sublist held now
  unfold release
  dsimp only
  split
  · exact hlive
  · split
    · exact hlive
    · exact List.eraseP_sublist.trans hlive

/-- A lock of a refreshed table is one that was live before, perhaps with a new end. -/
theorem mem_refresh {token : Str} {seconds : Nat} {lock : Lock} (h : lock ∈ (held.refresh now token seconds).2) :
    ∃ old ∈ held, old.isLive now = true ∧ lock.token = old.token ∧ lock.resource = old.resource ∧
      lock.reach = old.reach := by
  obtain hold | ⟨old, hold, rfl⟩ := mem_modifyFirst h
  · exact ⟨lock, (mem_retainLive.mp hold).1, (mem_retainLive.mp hold).2, rfl, rfl, rfl⟩
  · exact ⟨old, (mem_retainLive.mp hold).1, (mem_retainLive.mp hold).2, rfl, rfl, rfl⟩

end Locks

/-! ## Writes -/

namespace DavWrite

/-- The resources that a write is guarded for. -/
def ends : DavWrite → List Resource
  | .put vol path _ _ _ | .mkcol vol path | .proppatch vol path | .delete vol path => [resourceOf vol path]
  | .move home source into target _ => [resourceOf home source, resourceOf into target]
  | .copy _ _ into target _ => [resourceOf into target]

/-- The ends that a write removes or fills with everything beneath them. -/
def swept : DavWrite → List Resource
  | .put _ _ _ _ _ | .mkcol _ _ | .proppatch _ _ => []
  | .delete vol path => [resourceOf vol path]
  | .move home source into target _ => [resourceOf home source, resourceOf into target]
  | .copy _ _ into target _ => [resourceOf into target]

/-- Away from its ends, and from temporary names beside them, a write changes nothing. -/
theorem view_perform {platform : Platform} {w : World} {write : DavWrite} {p : Dir}
    (hends : ∀ e ∈ write.ends, p ≠ e.location ∧ OffTemporary e.parentDir p)
    (hswept : ∀ e ∈ write.swept, ¬ e.location <+: p) : (write.perform platform w).2.disk.view p = w.disk.view p := by
  have hanswered : ∀ {α : Type} (answer : α → DavAnswer) (out : Outcome α), (answered answer out).2 = out.2 := by
    intro α answer out
    obtain ⟨result, w⟩ := out
    cases result with
    | error failure => rfl
    | ok a => rfl
  cases write with
  | put vol path declared data chunks =>
      obtain ⟨hne, htemp⟩ := hends _ List.mem_cons_self
      rw [perform, hanswered]
      exact view_upload hne htemp
  | mkcol vol path =>
      rw [perform, hanswered]
      exact view_createDirectory (hends _ List.mem_cons_self).1
  | proppatch vol path =>
      simp only [perform]
      split
      · rfl
      · rfl
  | delete vol path =>
      rw [perform, hanswered]
      exact view_delete (hswept _ List.mem_cons_self)
  | move home source into target replace =>
      simp only [perform]
      split
      · rfl
      · rw [hanswered]
        refine view_moveTo (hswept _ List.mem_cons_self) (hswept _ (List.mem_cons_of_mem _ List.mem_cons_self)) ?_
        exact (hends _ List.mem_cons_self).2
  | copy home source into target replace =>
      simp only [perform]
      split
      · rfl
      · rw [hanswered]
        exact view_copyTo (hswept _ List.mem_cons_self)

theorem mem_ends_of_mem_swept {write : DavWrite} {e : Resource} (h : e ∈ write.swept) : e ∈ write.ends := by
  cases write with
  | put vol path declared data chunks => cases h
  | mkcol vol path => cases h
  | proppatch vol path => cases h
  | delete vol path => exact h
  | move home source into target replace => exact h
  | copy home source into target replace => exact h

end DavWrite

/-! ## The guard -/

/-- A write that is let through has a table in which no lock covers one of its ends, but those it submitted. -/
def Unblocked (held : Locks) (submitted : List Str) (e : Resource) : Prop :=
  ∀ lock ∈ held, lock.token ∉ submitted → lock.covers e = false

theorem guarded_cases (held : Locks) (now : Int) (e : Resource) (submitted : List Str) :
    (guarded held now e submitted).2 = held.retainLive now ∧
      ((guarded held now e submitted).1 = .ok () → Unblocked (held.retainLive now) submitted e) := by
  unfold guarded Locks.guard
  dsimp only
  cases hfind : (held.retainLive now).find? fun existing =>
      existing.covers e && !submitted.any fun token => existing.token.isMatch token with
  | some existing => exact ⟨rfl, fun h => (nomatch h)⟩
  | none =>
      refine ⟨rfl, fun _ lock hlock htoken => ?_⟩
      have hnot := List.find?_eq_none.mp hfind lock hlock
      have hany : (submitted.any fun token => lock.token.isMatch token) = false := by
        rw [List.any_eq_false]
        intro token hmem hmatch
        exact htoken (Token.isMatch_iff.mp hmatch ▸ hmem)
      rw [hany, Bool.not_false, Bool.and_true] at hnot
      exact Bool.eq_false_iff.mpr hnot

theorem Unblocked.mono {held held' : Locks} {submitted : List Str} {e : Resource} (h : Unblocked held submitted e)
    (hsub : held' ⊆ held) : Unblocked held' submitted e := fun lock hlock => h lock (hsub hlock)

theorem located_ok {vol : Volume} {path : RelativePath} {want : Want} {r : Resource}
    (h : located vol path want = .ok r) : r = resourceOf vol path := by
  unfold located at h
  split at h
  · cases h
  · cases h
    rfl

theorem letThrough_one (held : Locks) (now : Int) (vol : Volume) (path : RelativePath) (submitted : List Str) :
    (letThrough held now vol path submitted).2.Sublist held ∧
      ((letThrough held now vol path submitted).1 = .ok () →
        Unblocked (letThrough held now vol path submitted).2 submitted (resourceOf vol path)) := by
  unfold letThrough
  cases hlocated : located vol path .write with
  | error denied => exact ⟨List.Sublist.refl _, fun h => (nomatch h)⟩
  | ok target =>
      obtain rfl := located_ok hlocated
      obtain ⟨htable, hclear⟩ := guarded_cases held now (resourceOf vol path) submitted
      dsimp only
      rw [htable]
      exact ⟨held.retainLive_sublist now, hclear⟩

/-- What a request does to the table, and what it has found when it is let through. -/
theorem letThrough_cases (held : Locks) (now : Int) (submitted : List Str) (write : DavWrite) :
    (write.letThrough held now submitted).2.Sublist held ∧
      ((write.letThrough held now submitted).1 = .ok () →
        ∀ e ∈ write.ends, Unblocked (write.letThrough held now submitted).2 submitted e) := by
  have hone : ∀ vol path, (letThrough held now vol path submitted).2.Sublist held ∧
      ((letThrough held now vol path submitted).1 = .ok () →
        ∀ e ∈ [resourceOf vol path], Unblocked (letThrough held now vol path submitted).2 submitted e) := by
    intro vol path
    obtain ⟨hsub, hclear⟩ := letThrough_one held now vol path submitted
    refine ⟨hsub, fun hok e he => ?_⟩
    rw [List.mem_singleton.mp he]
    exact hclear hok
  cases write with
  | put vol path declared data chunks => exact hone vol path
  | mkcol vol path => exact hone vol path
  | proppatch vol path => exact hone vol path
  | delete vol path => exact hone vol path
  | move home source into target replace =>
      simp only [DavWrite.letThrough]
      cases hsource : located home source .write with
      | error denied => exact ⟨List.Sublist.refl _, fun h => (nomatch h)⟩
      | ok from' =>
          cases htarget : located into target .write with
          | error denied => exact ⟨List.Sublist.refl _, fun h => (nomatch h)⟩
          | ok to' =>
              obtain rfl := located_ok hsource
              obtain rfl := located_ok htarget
              dsimp only
              obtain ⟨htable, hclear⟩ := guarded_cases held now (resourceOf home source) submitted
              cases hfirst : guarded held now (resourceOf home source) submitted with
              | mk result table =>
                  rw [hfirst] at htable hclear
                  cases result with
                  | error denied =>
                      refine ⟨?_, fun h => (nomatch h)⟩
                      dsimp only at htable ⊢
                      rw [htable]
                      exact held.retainLive_sublist now
                  | ok u =>
                      dsimp only at htable hclear ⊢
                      subst htable
                      obtain ⟨htable', hclear'⟩ :=
                        guarded_cases (held.retainLive now) now (resourceOf into target) submitted
                      rw [htable']
                      have hsub := Locks.retainLive_sublist (held.retainLive now) now
                      refine ⟨hsub.trans (held.retainLive_sublist now), fun hok e he => ?_⟩
                      rcases List.mem_cons.mp he with rfl | he
                      · exact (hclear rfl).mono hsub.subset
                      · rw [List.mem_singleton.mp he]
                        exact hclear' hok
  | copy home source into target replace =>
      simp only [DavWrite.letThrough]
      cases hsource : located home source .read with
      | error denied => exact ⟨List.Sublist.refl _, fun h => (nomatch h)⟩
      | ok from' =>
          cases htarget : located into target .write with
          | error denied => exact ⟨List.Sublist.refl _, fun h => (nomatch h)⟩
          | ok to' =>
              obtain rfl := located_ok htarget
              obtain ⟨htable, hclear⟩ := guarded_cases held now (resourceOf into target) submitted
              dsimp only
              rw [htable]
              refine ⟨held.retainLive_sublist now, fun hok e he => ?_⟩
              rw [List.mem_singleton.mp he]
              exact hclear hok

end Selfhost.Storage
