import Selfhost.Lib.Run
import Selfhost.Storage.Lemmas.Copy
import Selfhost.Storage.Lemmas.Locks

/-!
# Moves and copies

The destination of a transfer is cleared before the rename or the copy, and the checks made before that do
not look at everything that can stop one. These are the transfers that keep what they were asked to carry.
-/

namespace Selfhost.Storage

open Selfhost.Lib

variable {platform : Platform} {w : World} {home into : Volume} {source target : RelativePath} {replace : Bool}

/-- A move fails without a trace or does what it was asked, exactly when it is safe. A copy does so when it is
safe, and never when it replaces a directory that its source lies in. -/
theorem transfer_kept (hd : w.disk.Distinct) (hs : StagingFree platform w.sequence w.disk) :
    (Kept MovedTo w.disk (home.moveTo platform w source into target replace) (home.locate source)
        (into.locate target) ↔
      MoveSafe platform w.disk home into source target replace) ∧
    (CopySafe platform w home into source target replace →
      Kept CopiedTo w.disk (home.copyTo platform w source into target replace) (home.locate source)
        (into.locate target)) ∧
    (Kept CopiedTo w.disk (home.copyTo platform w source into target replace) (home.locate source)
        (into.locate target) →
      ∀ ends, Surveyed w.disk home into .read source target ends → replace = true →
        ∀ old, w.disk.get ends.target = some old →
          RefusesEntry old ∨ (old.Named isPlain ∧ ¬ ends.target <+: ends.source)) := by
  refine ⟨moveTo_kept_iff hd hs, copyTo_kept hd, ?_⟩
  rintro hk ends hends rfl old hold
  exact copyTo_kept_outside hd hends hold hk

/-- A share that anyone may read and write, without a quota. -/
def openShare : Volume := ⟨"s".toList, ⟨none, defaultMaxConcurrent, defaultMaxInFlightBytes, 0⟩, fun _ => .allowed⟩

def letter (c : Char) : FileData := ⟨[c.toUInt8], by rw [List.length_singleton]; decide⟩

/-- The share holds a file `g` and a directory `a` with a file `f`. -/
def nested : World where
  disk := .dir "s".toList (.dir "a".toList (.file "f".toList (letter 'f') .nil)
    (.file "g".toList (letter 'g') .nil)) .nil
  counts := Counts.new
  now := 0
  sequence := 0

def pathA : RelativePath := ⟨[⟨"a".toList, by decide⟩]⟩

def pathG : RelativePath := ⟨[⟨"g".toList, by decide⟩]⟩

def pathAF : RelativePath := ⟨[⟨"a".toList, by decide⟩, ⟨"f".toList, by decide⟩]⟩

theorem nested_named : nested.disk.Named isPlain := by
  repeat' constructor

theorem nested_distinct : nested.disk.Distinct := by
  repeat' constructor
  all_goals decide

/-- A machine with ten bytes of disk. -/
def tenByteDisk : Platform :=
  { oneDisk with freeSpace := fun _ disk => 10 - UInt64.ofNat (disk.total FileData.size) }

/-- The names beside `g` are `a` and `g`, and neither folds onto `g`. -/
theorem nested_apart {n : Str} (h : nested.disk.get (["s".toList] ++ [n]) ≠ none) :
    collides tenByteDisk n "g".toList = false := by
  have hi : nested.disk.get ["s".toList] = some (.dir (.dir "a".toList (.file "f".toList (letter 'f') .nil)
      (.file "g".toList (letter 'g') .nil))) := by
    rfl
  rw [Forest.get_concat hi, ne_eq, Forest.find_eq_none_iff, not_not] at h
  cases h with
  | head => decide
  | tail _ h =>
      cases h with
      | head => decide
      | tail _ h => cases h

/-- Moving `a/f` onto `g` replaces it, and so does copying all of `a`, with ten bytes of disk for the three. -/
theorem transfer_kept_replacing :
    Kept MovedTo nested.disk (openShare.moveTo tenByteDisk nested pathAF openShare pathG true)
        (openShare.locate pathAF) (openShare.locate pathG) ∧
      Kept CopiedTo nested.disk (openShare.copyTo tenByteDisk nested pathA openShare pathG true)
        (openShare.locate pathA) (openShare.locate pathG) := by
  have hstaging : StagingFree tenByteDisk nested.sequence nested.disk := StagingFree.of_named nested_named
  constructor
  · refine (@transfer_kept tenByteDisk nested openShare openShare pathAF pathG true nested_distinct hstaging).1.mpr ?_
    intro ends hs _ e he
    have hfound : transferEnds nested.disk openShare openShare .write pathAF pathG =
        .ok ⟨["s".toList, "a".toList], "f".toList, ["s".toList], "g".toList⟩ := rfl
    cases Except.ok.inj (hs.found.symm.trans hfound)
    cases he
    refine Or.inr ⟨trivial, by decide, rfl, ?_⟩
    intro n hn hcol
    rw [nested_apart hn] at hcol
    cases hcol
  · refine (@transfer_kept tenByteDisk nested openShare openShare pathA pathG true nested_distinct hstaging).2.1 ?_
    intro ends hs e he
    have hfound : transferEnds nested.disk openShare openShare .read pathA pathG =
        .ok ⟨["s".toList], "a".toList, ["s".toList], "g".toList⟩ := rfl
    cases Except.ok.inj (hs.found.symm.trans hfound)
    cases he
    refine Or.inr ⟨trivial, by decide, ⟨?_, ?_, ?_⟩, by decide, ⟨by decide, trivial⟩, ⟨by simp, trivial⟩, ?_⟩
    · exact ⟨_, rfl⟩
    · rfl
    · intro n hn
      refine nested_apart fun hnone => hn ?_
      by_cases hg : n = "g".toList
      · subst hg
        rfl
      · exact (get_beside_erase hg).trans hnone
    · -- The one file in `a` comes in when nine of the ten bytes are free.
      exact ⟨1, _, Or.inr ⟨rfl, rfl, rfl⟩, rfl, trivial⟩

/-- Moving `a/f` onto `a` removes the directory first, and then there is nothing left to move. -/
theorem move_onto_own_parent_destroys :
    (openShare.moveTo oneDisk nested pathAF openShare pathA true).1 = .error .notFound ∧
      ¬ Kept MovedTo nested.disk (openShare.moveTo oneDisk nested pathAF openShare pathA true)
        (openShare.locate pathAF) (openShare.locate pathA) := by
  have herr : (openShare.moveTo oneDisk nested pathAF openShare pathA true).1 = .error .notFound := by
    decide +kernel
  refine ⟨herr, fun hk => ?_⟩
  unfold Kept at hk
  rw [herr] at hk
  have hview := hk ["s".toList, "a".toList, "f".toList]
  revert hview
  decide +kernel

end Selfhost.Storage

/-!
# What a lock protects

Live locks never cover one another, and there are never too many of them. The guard looks up from the paths of a
write and not down, and it looks before the write is performed: `locks_protect` says that a write spares what is
locked when no lock lies beneath a path that it sweeps, and none was taken over its paths since it was let through.
-/

namespace Selfhost.Storage

open Selfhost.Lib

namespace DavState

variable {platform : Platform} {s s' : DavState}

/-- Nothing that a live lock covers is changed, but what a submitted token opens. -/
def Spares (s : DavState) (submitted : List Str) (disk : Disk) : Prop :=
  ∀ lock ∈ s.held, lock.isLive s.now = true → lock.token ∉ submitted →
    ∀ p, lock.Protects p → disk.view p = s.world.disk.view p

/-- No lock is taken over a path of a write that is under way, and a write that sweeps a path is performed while no
lock lies beneath it whose token it did not submit. -/
def Calm (s : DavState) : DavStep → Prop
  | .take resource reach _ _ _ => ∀ a ∈ s.admitted, ∀ e ∈ a.1.ends, reach.covers resource e = false
  | .perform index => ∀ a, s.admitted[index]? = some a → ∀ e ∈ a.1.swept, ∀ lock ∈ s.held,
      lock.isLive s.now = true → lock.token ∉ a.2 → ¬ (e.contains lock.resource = true ∧ lock.resource ≠ e)
  | _ => True

/-! ## The table -/

theorem sound_step {a : DavStep} (h : s.held.Sound) (hstep : s.step platform a = some s') : s'.held.Sound := by
  cases a with
  | tick elapsed =>
      cases hstep
      exact h
  | take resource reach owner seconds random =>
      cases hstep
      exact h.take _ resource reach owner seconds random
  | refresh token seconds =>
      cases hstep
      exact h.refresh _ token seconds
  | release resource token =>
      cases hstep
      exact h.sublist (s.held.release_sublist _ resource token)
  | request write ifHeader =>
      obtain ⟨hsub, -⟩ := letThrough_cases s.held s.now (submittedTokens ifHeader) write
      simp only [step] at hstep
      split at hstep
      · rename_i heq
        rw [heq] at hsub
        cases hstep
        exact h.sublist hsub
      · rename_i heq
        rw [heq] at hsub
        cases hstep
        exact h.sublist hsub
  | perform index =>
      obtain ⟨entry, -, rfl⟩ := Option.map_eq_some_iff.mp hstep
      exact h
  | leave index =>
      cases hstep
      exact h
  | elsewhere disk =>
      cases hstep
      exact h

/-! ## Writes that are under way -/

/-- No live lock covers an end of a write that is under way, but those whose tokens it submitted. -/
def Guarded (s : DavState) : Prop :=
  ∀ a ∈ s.admitted, ∀ e ∈ a.1.ends, ∀ lock ∈ s.held, lock.isLive s.now = true → lock.token ∉ a.2 → lock.covers e = false

theorem isLive_of_later {lock : Lock} {now : Int} {elapsed : Nat} (h : lock.isLive (now + elapsed) = true) :
    lock.isLive now = true := by
  simp only [Lock.isLive, decide_eq_true_eq] at h ⊢
  omega

theorem Guarded.step {a : DavStep} (h : s.Guarded) (hcalm : s.Calm a) (hstep : s.step platform a = some s') :
    s'.Guarded := by
  cases a with
  | tick elapsed =>
      cases hstep
      intro a ha e he lock hlock hlive htoken
      exact h a ha e he lock hlock (isLive_of_later hlive) htoken
  | take resource reach owner seconds random =>
      cases hstep
      intro a ha e he lock hlock hlive htoken
      have hold : lock ∈ s.held.retainLive s.now → lock.covers e = false := fun hmem =>
        h a ha e he lock (Locks.mem_retainLive.mp hmem).1 hlive htoken
      obtain heq | ⟨new, heq, rfl, rfl, -⟩ := Locks.take_cases s.held s.now resource reach owner seconds random
      · dsimp only at hlock
        rw [heq] at hlock
        exact hold hlock
      · dsimp only at hlock
        rw [heq] at hlock
        rcases List.mem_append.mp hlock with hlock | hlock
        · exact hold hlock
        · rw [List.mem_singleton.mp hlock]
          exact hcalm a ha e he
  | refresh token seconds =>
      cases hstep
      intro a ha e he lock hlock _ htoken
      obtain ⟨old, hold, hlive, htokens, hresource, hreach⟩ := Locks.mem_refresh hlock
      rw [htokens] at htoken
      rw [Lock.covers, hresource, hreach]
      exact h a ha e he old hold hlive htoken
  | release resource token =>
      cases hstep
      intro a ha e he lock hlock
      exact h a ha e he lock ((s.held.release_sublist s.now resource token).subset hlock)
  | request write ifHeader =>
      obtain ⟨hsub, hclear⟩ := letThrough_cases s.held s.now (submittedTokens ifHeader) write
      simp only [DavState.step] at hstep
      split at hstep
      · rename_i heq
        rw [heq] at hsub
        cases hstep
        intro a ha e he lock hlock
        exact h a ha e he lock (hsub.subset hlock)
      · rename_i heq
        rw [heq] at hsub hclear
        cases hstep
        intro a ha e he lock hlock hlive htoken
        rcases List.mem_append.mp ha with ha | ha
        · exact h a ha e he lock (hsub.subset hlock) hlive htoken
        · rw [List.mem_singleton.mp ha] at he htoken
          exact hclear rfl e he lock hlock htoken
  | perform index =>
      obtain ⟨entry, hentry, rfl⟩ := Option.map_eq_some_iff.mp hstep
      intro a ha
      exact h a (List.mem_of_mem_eraseIdx ha)
  | leave index =>
      cases hstep
      intro a ha
      exact h a (List.mem_of_mem_eraseIdx ha)
  | elsewhere disk =>
      cases hstep
      exact h

/-- A write that is performed in calm spares what is locked. -/
theorem Guarded.spares {index : Nat} {write : DavWrite} {submitted : List Str} (h : s.Guarded)
    (hentry : s.admitted[index]? = some (write, submitted)) (hcalm : s.Calm (.perform index)) :
    s.Spares submitted (write.perform platform s.present).2.disk := by
  intro lock hlock hlive htoken p hp
  have hcovers : ∀ e ∈ write.ends, lock.covers e = false := fun e he =>
    h _ (List.mem_of_getElem? hentry) e he lock hlock hlive htoken
  have hframe : (write.perform platform s.present).2.disk.view p = s.present.disk.view p := by
    refine DavWrite.view_perform (fun e he => ⟨?_, hp.offTemporary (hcovers e he)⟩) fun e he => ?_
    · rintro rfl
      have hnot := hcovers e he
      rw [Lock.covers_iff.mpr hp] at hnot
      cases hnot
    · exact hp.not_below (hcovers e (DavWrite.mem_ends_of_mem_swept he)) (hcalm _ hentry e he lock hlock hlive htoken)
  exact hframe

/-! ## Deletions -/

/-- A deletion that succeeds leaves nothing at its path or below it. -/
theorem view_deleted {w w' : World} {vol : Volume} {path : RelativePath} {p : Dir}
    (h : vol.delete w path = (.ok (), w')) (hp : vol.locate path <+: p) : w'.disk.view p = none := by
  unfold Volume.delete at h
  split at h
  · cases h
  · cases h
  · rename_i name _ hname
    split at h
    · cases h
    · rename_i parent hparent
      rw [(locate_eq hname hparent).2] at hp
      split at h
      · cases h
      · rename_i disk hremoved
        cases h
        have hdir : w.disk.IsDir parent := isDir_of_removeTree hremoved
        rw [removeTree_ok hremoved, Forest.view_erase hdir, if_pos hp]

end DavState

/-- In every run the locks are apart and few, and in a calm one every write spares what is locked. A deletion that
succeeds spares the locks beneath its path only where there is nothing. -/
theorem locks_protect (platform : Platform) (now : Int) (world : World) :
    (∀ l s, Run (DavState.step platform) (fun _ _ => True) (.start now world) l s → s.held.Sound) ∧
    (∀ l s, Run (DavState.step platform) DavState.Calm (.start now world) l s →
      ∀ index write submitted, s.admitted[index]? = some (write, submitted) → s.Calm (.perform index) →
        s.Spares submitted (write.perform platform s.present).2.disk) ∧
    ∀ (s : DavState) vol path submitted, (DavWrite.perform platform s.present (.delete vol path)).1 = .ok .noContent →
      s.Spares submitted (DavWrite.perform platform s.present (.delete vol path)).2.disk →
        ∀ lock ∈ s.held, lock.isLive s.now = true → lock.token ∉ submitted →
          (resourceOf vol path).contains lock.resource = true → s.world.disk.view lock.resource.location = none := by
  refine ⟨?_, ?_, ?_⟩
  · intro l s hrun
    refine hrun.invariant (fun s a s' h _ hstep => DavState.sound_step h hstep) ?_
    exact ⟨List.Pairwise.nil, Nat.zero_le _⟩
  · intro l s hrun index write submitted hentry hcalm
    have hguarded : s.Guarded := hrun.invariant (fun s a s' h hc hstep => h.step hc hstep) fun a ha => (nomatch ha)
    exact hguarded.spares hentry hcalm
  · intro s vol path submitted hok hspares lock hlock hlive htoken hbeneath
    have hself : lock.Protects lock.resource.location := by
      unfold Lock.Protects
      split
      · exact List.prefix_rfl
      · rfl
    rw [← hspares lock hlock hlive htoken _ hself]
    simp only [DavWrite.perform] at hok ⊢
    cases hdelete : vol.delete s.present path with
    | mk result w' =>
        rw [hdelete] at hok
        cases result with
        | error failure => cases hok
        | ok u => exact DavState.view_deleted hdelete (Resource.contains_iff.mp hbeneath)

/-- A lock of a path of the share, taken at the start for ten minutes. -/
def lockOn (path : RelativePath) : Lock :=
  ⟨.mint (List.replicate 16 0), resourceOf openShare path, .zero, none, 600, 600 * nanosPerSecond⟩

/-- The directory `a` is about to be deleted while a path is locked. -/
def deletingA (path : RelativePath) : DavState := ⟨0, [lockOn path], nested, [(.delete openShare pathA, [])]⟩

/-- The lock is taken and the request is let through. -/
def deletionOfA (path : RelativePath) : List DavStep :=
  [.take (resourceOf openShare path) .zero none 600 (some (List.replicate 16 0)),
    .request (.delete openShare pathA) none]

/-- A lock on `g` is spared by the deletion of `a`. -/
theorem locks_protect_beside : (deletingA pathG).held.Sound ∧
    (deletingA pathG).Spares [] (DavWrite.perform oneDisk (deletingA pathG).present (.delete openShare pathA)).2.disk := by
  have hrun : ∀ ok : DavState → DavStep → Prop, (∀ a, ok (.start 0 nested) a) →
      (∀ s w h, ok s (.request w h)) → Run (DavState.step oneDisk) ok (.start 0 nested) (deletionOfA pathG) (deletingA pathG) :=
    fun ok hstart hrequest => .cons (hstart _) rfl (.cons (hrequest _ _ _) rfl .nil)
  obtain ⟨hsound, hspares, -⟩ := locks_protect oneDisk 0 nested
  refine ⟨hsound _ _ (hrun _ (fun _ => trivial) fun _ _ _ => trivial), ?_⟩
  refine hspares _ _ (hrun _ (fun a => ?_) fun _ _ _ => trivial) 0 _ [] rfl ?_
  · cases a with
    | take resource reach owner seconds random => exact fun a ha => (nomatch ha)
    | perform index => exact fun a ha => (nomatch ha)
    | tick elapsed => trivial
    | refresh token seconds => trivial
    | release resource token => trivial
    | request write ifHeader => trivial
    | leave index => trivial
    | elsewhere disk => trivial
  · intro a ha e he lock hlock _ _
    cases ha
    rw [List.mem_singleton.mp he, List.mem_singleton.mp hlock]
    decide

/-- A lock on `a/f` does not keep a request without its token from deleting `a`. -/
theorem lock_beneath_ignored :
    Run (DavState.step oneDisk) (fun _ _ => True) (.start 0 nested) (deletionOfA pathAF) (deletingA pathAF) ∧
      (deletingA pathAF).admitted[0]?.map Prod.snd = some [] ∧
      ¬ (deletingA pathAF).Spares []
        (DavWrite.perform oneDisk (deletingA pathAF).present (.delete openShare pathA)).2.disk := by
  refine ⟨.cons trivial rfl (.cons trivial rfl .nil), rfl, fun h => ?_⟩
  have hview := h (lockOn pathAF) List.mem_cons_self (by decide) List.not_mem_nil (lockOn pathAF).resource.location rfl
  revert hview
  decide +kernel

end Selfhost.Storage
