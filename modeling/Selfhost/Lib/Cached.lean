import Mathlib.Logic.Function.Basic
import Selfhost.Lib.Run

/-!
# Files that several handles keep a copy of

A handle keeps the entries of a file and the stamp the file had when they were read. Every operation stats the file,
reads it again when the stamp is another one, and replaces the file when it changed the entries. Handles in different
processes take these steps in any order.
-/

namespace Selfhost.Lib.Cached

/-- A file, with a stamp that every replacement changes. -/
structure File (Text : Type) where
  text : Text
  stamp : Nat
  deriving DecidableEq

/-- The entries in memory and the stamp of the file they came from. -/
structure Stored (V : Type) where
  entries : V
  seen : Option Nat
  deriving DecidableEq

/-- What an operation does once the entries are fresh: it answers, or it changes the entries and writes them, with an
answer for each way the write can end. -/
inductive Plan (V α : Type) where
  | answer (a : α)
  | write (v : V) (written failed : α)

/-- How the entries are read and written, and what the operations are. -/
structure Store (Text V R α : Type) where
  read : Option Text → V
  render : V → Text
  plan : R → V → Plan V α

/-- How a write ends. -/
inductive Write where
  | failed
  | placed (stamp : Nat)
  deriving DecidableEq

variable {Text V R α ι : Type} (S : Store Text V R α)

def textOf (disk : Option (File Text)) : Option Text := disk.map File.text

def stampOf (disk : Option (File Text)) : Option Nat := disk.map File.stamp

/-! ## Operations without interleaving -/

/-- The entries, read again when the file has another stamp. -/
def lock (disk : Option (File Text)) (stored : Stored V) : Stored V :=
  if stampOf disk = stored.seen then stored else ⟨S.read (textOf disk), stampOf disk⟩

/-- A whole operation: its answer, the handle and the file. -/
def call (r : R) (w : Write) (stored : Stored V) (disk : Option (File Text)) :
    α × Stored V × Option (File Text) :=
  let stored := lock S disk stored
  match S.plan r stored.entries with
  | .answer a => (a, stored, disk)
  | .write v written failed =>
      match w with
      | .failed => (failed, { stored with entries := v }, disk)
      | .placed stamp => (written, ⟨v, some stamp⟩, some ⟨S.render v, stamp⟩)

@[simp] theorem lock_seen (disk : Option (File Text)) (stored : Stored V) :
    (lock S disk stored).seen = stampOf disk := by
  unfold lock
  split
  · rename_i h
    exact h.symm
  · rfl

@[simp] theorem lock_lock (disk : Option (File Text)) (stored : Stored V) :
    lock S disk (lock S disk stored) = lock S disk stored := by
  rw [lock, if_pos (lock_seen S disk stored).symm]

/-- A handle as it is built: the entries of the file, with the file's stamp. -/
def loaded (disk : Option (File Text)) : Stored V := ⟨S.read (textOf disk), stampOf disk⟩

/-- One operation after another through one handle, each with the way its write ends. -/
def callStep (s : Stored V × Option (File Text)) (a : R × Write) : Option (Stored V × Option (File Text)) :=
  some (call S a.1 a.2 s.1 s.2).2

/-- What a call leaves behind: the entries as they were, or the changed ones, whether they were written or not. -/
theorem call_cases (r : R) (w : Write) (stored : Stored V) (disk : Option (File Text)) :
    (∃ a, S.plan r (lock S disk stored).entries = .answer a ∧ call S r w stored disk = (a, lock S disk stored, disk)) ∨
      ∃ v written failed, S.plan r (lock S disk stored).entries = .write v written failed ∧
        ((w = .failed ∧ call S r w stored disk = (failed, ⟨v, stampOf disk⟩, disk)) ∨
          ∃ stamp, w = .placed stamp ∧ call S r w stored disk = (written, ⟨v, some stamp⟩, some ⟨S.render v, stamp⟩)) := by
  have hseen := lock_seen S disk stored
  unfold call
  generalize lock S disk stored = fresh at hseen
  cases hplan : S.plan r fresh.entries with
  | answer a => exact Or.inl ⟨a, rfl, by simp [hplan]⟩
  | write v written failed =>
      refine Or.inr ⟨v, written, failed, rfl, ?_⟩
      cases w with
      | failed => exact Or.inl ⟨rfl, by simp [hplan, ← hseen]⟩
      | placed stamp => exact Or.inr ⟨stamp, rfl, by simp [hplan]⟩

/-- A handle whose entries are not to be read again, and have a property. -/
def Current (P : V → Prop) (s : Stored V × Option (File Text)) : Prop :=
  s.1.seen = stampOf s.2 ∧ P s.1.entries

variable {S} in
theorem Current.lock {P : V → Prop} {s : Stored V × Option (File Text)} (h : Current P s) : lock S s.2 s.1 = s.1 :=
  if_pos h.1.symm

variable {S} in
/-- What every change keeps is kept by the calls through one handle. -/
theorem Current.run {P : V → Prop} {ok : Stored V × Option (File Text) → R × Write → Prop}
    (hplan : ∀ (s : Stored V × Option (File Text)) a v written failed, Current P s → ok s a →
      S.plan a.1 s.1.entries = .write v written failed → P v)
    {s s' : Stored V × Option (File Text)} {calls : List (R × Write)} (hrun : Run (callStep S) ok s calls s')
    (h : Current P s) : Current P s' := by
  refine hrun.invariant (fun s a t hs hok ht => ?_) h
  cases ht
  have hlock := hs.lock (S := S)
  rcases call_cases S a.1 a.2 s.1 s.2 with ⟨_, -, hcall⟩ | ⟨v, written, failed, hwrite, hcall⟩
  · rw [hcall, hlock]
    exact hs
  · rw [hlock] at hwrite
    have hv := hplan s a v written failed hs hok hwrite
    rcases hcall with ⟨-, hcall⟩ | ⟨stamp, -, hcall⟩
    · rw [hcall]
      exact ⟨rfl, hv⟩
    · rw [hcall]
      exact ⟨rfl, hv⟩

/-! ## Steps -/

/-- Where a handle is in an operation; without a request the handle is being loaded. -/
inductive Phase (R : Type) where
  | unloaded
  | idle
  | entered (r : R)
  | stale (r : Option R)
  | reading (r : Option R) (stamp : Option Nat)
  | ready (r : R)
  | changed
  | written
  deriving DecidableEq

structure Proc (V R : Type) where
  stored : Stored V
  phase : Phase R
  /-- The stamp of the file whose text the entries were last read from or written to. -/
  basis : Option Nat

structure World (Text V R ι : Type) where
  disk : Option (File Text)
  /-- The stamp of the next replacement. -/
  next : Nat
  procs : ι → Proc V R

inductive Event (R ι : Type) where
  /-- A handle is built. -/
  | load (p : ι)
  /-- An operation takes the lock. -/
  | enter (p : ι) (r : R)
  /-- One step of the operation under way; `ok` is whether a rename takes place. -/
  | step (p : ι) (ok : Bool)

/-- What one step does to the handle that takes it, and whether it replaces the file. -/
def advance (disk : Option (File Text)) (next : Nat) (proc : Proc V R) (ok : Bool) : Option (Proc V R × Option Text) :=
  match proc.phase with
  | .unloaded | .idle => none
  | .entered r =>
      some ({ proc with phase := if stampOf disk = proc.stored.seen then .ready r else .stale (some r) }, none)
  | .stale r => some ({ proc with phase := .reading r (stampOf disk) }, none)
  | .reading r stamp =>
      let phase := match r with
        | some r => .ready r
        | none => .idle
      some (⟨⟨S.read (textOf disk), stamp⟩, phase, stampOf disk⟩, none)
  | .ready r =>
      match S.plan r proc.stored.entries with
      | .answer _ => some ({ proc with phase := .idle }, none)
      | .write v _ _ => some (⟨{ proc.stored with entries := v }, .changed, proc.basis⟩, none)
  | .changed =>
      if ok then some (⟨proc.stored, .written, some next⟩, some (S.render proc.stored.entries))
      else some ({ proc with phase := .idle }, none)
  | .written => some (⟨{ proc.stored with seen := stampOf disk }, .idle, proc.basis⟩, none)

/-- The file after a step. -/
def place (w : World Text V R ι) : Option Text → Option (File Text) × Nat
  | none => (w.disk, w.next)
  | some text => (some ⟨text, w.next⟩, w.next + 1)

def World.step [DecidableEq ι] (w : World Text V R ι) : Event R ι → Option (World Text V R ι)
  | .load p =>
      match (w.procs p).phase with
      | .unloaded | .idle => some { w with procs := Function.update w.procs p { w.procs p with phase := .stale none } }
      | _ => none
  | .enter p r =>
      match (w.procs p).phase with
      | .idle => some { w with procs := Function.update w.procs p { w.procs p with phase := .entered r } }
      | _ => none
  | .step p ok =>
      match advance S w.disk w.next (w.procs p) ok with
      | none => none
      | some (proc, replaced) => some ⟨(place w replaced).1, (place w replaced).2, Function.update w.procs p proc⟩

/-! ## When the copies are right -/

/-- A handle that will write, or has written and not yet taken the stamp of its file. -/
def Committed (proc : Proc V R) : Prop :=
  proc.phase = .changed ∨ proc.phase = .written ∨
    ∃ r v written failed, proc.phase = .ready r ∧ S.plan r proc.stored.entries = .write v written failed

/-- What a step must meet: nobody replaces the file under a handle that is to write or has just written; what is
written is read back; and a write fails only when it changes nothing. -/
def Calm (w : World Text V R ι) : Event R ι → Prop
  | .step p ok => (w.procs p).phase = .changed →
      if ok = true then (∀ q ≠ p, ¬ Committed S (w.procs q)) ∧
        S.read (some (S.render (w.procs p).stored.entries)) = (w.procs p).stored.entries
      else (w.procs p).stored.entries = S.read (textOf w.disk)
  | _ => True

/-- Stamps are of files that there were. -/
def Issued (next : Nat) (stamp : Option Nat) : Prop := ∀ s, stamp = some s → s < next

/-- A stamp that is the file's promises its entries. -/
def Honest (disk : Option (File Text)) (proc : Proc V R) : Prop :=
  proc.stored.seen = stampOf disk → proc.stored.entries = S.read (textOf disk) ∧ proc.basis = stampOf disk

/-- What each phase promises. -/
def Promise (disk : Option (File Text)) (next : Nat) (proc : Proc V R) : Prop :=
  match proc.phase with
  | .unloaded => True
  | .idle => Honest S disk proc
  | .entered _ => Honest S disk proc
  | .stale _ => True
  | .reading _ stamp => Issued next stamp
  | .ready r => Honest S disk proc ∧
      ∀ v written failed, S.plan r proc.stored.entries = .write v written failed → proc.basis = stampOf disk
  | .changed => proc.basis = stampOf disk
  | .written => proc.basis = stampOf disk ∧ proc.stored.entries = S.read (textOf disk)

structure Coherent (w : World Text V R ι) : Prop where
  disk : Issued w.next (stampOf w.disk)
  seen : ∀ p, Issued w.next (w.procs p).stored.seen
  promise : ∀ p, Promise S w.disk w.next (w.procs p)

variable {S}

theorem Issued.mono {next : Nat} {stamp : Option Nat} (h : Issued next stamp) : Issued (next + 1) stamp :=
  fun s hs => Nat.lt_succ_of_lt (h s hs)

theorem Issued.ne {next : Nat} {stamp : Option Nat} (h : Issued next stamp) : stamp ≠ some next :=
  fun heq => Nat.lt_irrefl _ (h next heq)

/-- A handle that is about to write nothing does not mind a replacement. -/
theorem Promise.replaced {disk : Option (File Text)} {next : Nat} {proc : Proc V R} (h : Promise S disk next proc)
    (hseen : Issued next proc.stored.seen) (hcalm : ¬ Committed S proc) (text : Text) :
    Promise S (some ⟨text, next⟩) (next + 1) proc := by
  obtain ⟨stored, phase, basis⟩ := proc
  -- The stamp of the new file is not one that a handle has seen.
  have hhonest : Honest S (some ⟨text, next⟩) (⟨stored, phase, basis⟩ : Proc V R) := fun heq => absurd heq hseen.ne
  cases phase with
  | unloaded => trivial
  | idle => exact hhonest
  | entered r => exact hhonest
  | stale r => trivial
  | reading r stamp => exact Issued.mono h
  | ready r => exact ⟨hhonest, fun v a b hplan => absurd (.inr (.inr ⟨r, v, a, b, rfl, hplan⟩)) hcalm⟩
  | changed => exact absurd (.inl rfl) hcalm
  | written => exact absurd (.inr (.inl rfl)) hcalm

/-- The handle that takes a step keeps its promise. -/
theorem Promise.advance {disk : Option (File Text)} {next : Nat} {proc proc' : Proc V R} {ok : Bool}
    {replaced : Option Text} (h : Promise S disk next proc) (hdisk : Issued next (stampOf disk))
    (hseen : Issued next proc.stored.seen) (hok : proc.phase = .changed →
      if ok = true then S.read (some (S.render proc.stored.entries)) = proc.stored.entries
      else proc.stored.entries = S.read (textOf disk))
    (hstep : Cached.advance S disk next proc ok = some (proc', replaced)) :
    Issued next proc'.stored.seen ∧
      (replaced = none → Promise S disk next proc') ∧
      ∀ text, replaced = some text → proc.phase = .changed ∧ ok = true ∧ Promise S (some ⟨text, next⟩) (next + 1) proc' := by
  obtain ⟨stored, phase, basis⟩ := proc
  cases phase with
  | unloaded => cases hstep
  | idle => cases hstep
  | entered r =>
      simp only [Cached.advance, Option.some.injEq, Prod.mk.injEq] at hstep
      obtain ⟨rfl, rfl⟩ := hstep
      refine ⟨hseen, fun _ => ?_, by simp⟩
      by_cases heq : stampOf disk = stored.seen
      · simp only [heq, ↓reduceIte, Promise]
        exact ⟨h, fun _ _ _ _ => (h heq.symm).2.trans heq⟩
      · simp only [heq, ↓reduceIte, Promise]
  | stale r =>
      simp only [Cached.advance, Option.some.injEq, Prod.mk.injEq] at hstep
      obtain ⟨rfl, rfl⟩ := hstep
      exact ⟨hseen, fun _ => hdisk, by simp⟩
  | reading r stamp =>
      simp only [Cached.advance, Option.some.injEq, Prod.mk.injEq] at hstep
      obtain ⟨rfl, rfl⟩ := hstep
      refine ⟨h, fun _ => ?_, by simp⟩
      cases r with
      | none => exact fun _ => ⟨rfl, rfl⟩
      | some r => exact ⟨fun _ => ⟨rfl, rfl⟩, fun _ _ _ _ => rfl⟩
  | ready r =>
      simp only [Cached.advance] at hstep
      split at hstep
      · simp only [Option.some.injEq, Prod.mk.injEq] at hstep
        obtain ⟨rfl, rfl⟩ := hstep
        exact ⟨hseen, fun _ => h.1, by simp⟩
      · rename_i v a b hplan
        simp only [Option.some.injEq, Prod.mk.injEq] at hstep
        obtain ⟨rfl, rfl⟩ := hstep
        exact ⟨hseen, fun _ => h.2 v a b hplan, by simp⟩
  | changed =>
      have hok := hok rfl
      simp only [Cached.advance] at hstep
      split at hstep
      · rename_i hwritten
        rw [if_pos hwritten] at hok
        simp only [Option.some.injEq, Prod.mk.injEq] at hstep
        obtain ⟨rfl, rfl⟩ := hstep
        refine ⟨hseen, by simp, ?_⟩
        rintro text ⟨⟩
        exact ⟨rfl, hwritten, rfl, hok.symm⟩
      · rename_i hfailed
        rw [if_neg hfailed] at hok
        simp only [Option.some.injEq, Prod.mk.injEq] at hstep
        obtain ⟨rfl, rfl⟩ := hstep
        exact ⟨hseen, fun _ _ => ⟨hok, h⟩, by simp⟩
  | written =>
      simp only [Cached.advance, Option.some.injEq, Prod.mk.injEq] at hstep
      obtain ⟨rfl, rfl⟩ := hstep
      exact ⟨hdisk, fun _ _ => ⟨h.2, h.1⟩, by simp⟩

theorem Coherent.update [DecidableEq ι] {w : World Text V R ι} (h : Coherent S w) {p : ι} {proc : Proc V R}
    (hseen : Issued w.next proc.stored.seen) (hpromise : Promise S w.disk w.next proc) :
    Coherent S { w with procs := Function.update w.procs p proc } := by
  refine ⟨h.disk, fun q => ?_, fun q => ?_⟩
  · by_cases hq : q = p
    · subst hq
      simpa using hseen
    · simpa [hq] using h.seen q
  · by_cases hq : q = p
    · subst hq
      simpa using hpromise
    · simpa [hq] using h.promise q

theorem Coherent.step [DecidableEq ι] {w w' : World Text V R ι} {event : Event R ι} (h : Coherent S w) (hcalm : Calm S w event)
    (hstep : w.step S event = some w') : Coherent S w' := by
  cases event with
  | load p =>
      have hp := h.seen p
      simp only [World.step] at hstep
      split at hstep <;> cases hstep <;> exact h.update hp trivial
  | enter p r =>
      have hp := h.seen p
      have hpromise := h.promise p
      simp only [World.step] at hstep
      split at hstep
      · rename_i hidle
        cases hstep
        rw [Promise, hidle] at hpromise
        exact h.update hp hpromise
      · cases hstep
  | step p ok =>
      simp only [World.step] at hstep
      split at hstep
      · cases hstep
      · rename_i proc replaced hadvance
        cases hstep
        have hok : (w.procs p).phase = .changed →
            if ok = true then S.read (some (S.render (w.procs p).stored.entries)) = (w.procs p).stored.entries
            else (w.procs p).stored.entries = S.read (textOf w.disk) := by
          intro hphase
          have := hcalm hphase
          split
          · rename_i hwritten
            rw [if_pos hwritten] at this
            exact this.2
          · rename_i hfailed
            rw [if_neg hfailed] at this
            exact this
        obtain ⟨hseen, hkept, hreplaced⟩ := (h.promise p).advance h.disk (h.seen p) hok hadvance
        cases replaced with
        | none => exact h.update hseen (hkept rfl)
        | some text =>
            obtain ⟨hphase, rfl, hpromise⟩ := hreplaced text rfl
            have hothers := hcalm hphase
            rw [if_pos rfl] at hothers
            refine ⟨?_, fun q => ?_, fun q => ?_⟩
            · rintro s ⟨⟩
              exact Nat.lt_succ_self _
            · by_cases hq : q = p
              · subst hq
                simpa [place] using hseen.mono
              · simpa [place, hq] using (h.seen q).mono
            · by_cases hq : q = p
              · subst hq
                simpa [place] using hpromise
              · simpa [place, hq] using (h.promise q).replaced (h.seen q) (hothers.1 q hq) text

/-- Every run of calm steps keeps the copies right. -/
theorem Coherent.run [DecidableEq ι] {w w' : World Text V R ι} {events : List (Event R ι)}
    (hrun : Run (World.step S) (Calm S) w events w') (h : Coherent S w) : Coherent S w' :=
  hrun.invariant (fun _ _ _ h hcalm hstep => h.step hcalm hstep) h

/-- A handle that no operation is under way on answers for the file. -/
theorem Coherent.lock_entries {w : World Text V R ι} (h : Coherent S w) {p : ι} (hp : (w.procs p).phase = .idle) :
    (lock S w.disk (w.procs p).stored).entries = S.read (textOf w.disk) := by
  have hpromise := h.promise p
  rw [Promise, hp] at hpromise
  unfold lock
  split
  · rename_i hseen
    exact (hpromise hseen.symm).1
  · rfl

/-- Whoever is about to replace the file has read it. -/
theorem Coherent.basis {w : World Text V R ι} (h : Coherent S w) {p : ι} (hp : (w.procs p).phase = .changed) :
    (w.procs p).basis = stampOf w.disk := by
  have hpromise := h.promise p
  rw [Promise, hp] at hpromise
  exact hpromise

end Selfhost.Lib.Cached
