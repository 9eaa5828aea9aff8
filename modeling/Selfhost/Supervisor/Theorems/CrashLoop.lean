import Selfhost.Lib.Run
import Selfhost.Supervisor.Task

/-!
# A crash loop is bounded

The counter of a task is the number of automatic restarts since it was last reset, and a restart is only decided on
while the counter is below the budget. `crash_loop_bounded` says this of every run of a task, with the exact delays.
-/

namespace Selfhost.Supervisor

open Selfhost.Lib

/-! ## The back-off -/

theorem toNat_multiplier (attempt : UInt32) :
    (min ((checkedShl 1 (min attempt 32)).getD 0xFFFFFFFFFFFFFFFF) u32Max.toUInt64).toUInt32.toNat =
      min (2 ^ attempt.toNat) (2 ^ 32 - 1) := by
  have hbits : (min attempt 32).toNat = min attempt.toNat 32 := UInt32.toNat_min _ _
  have hsmall : min attempt 32 < 64 := by
    rw [UInt32.lt_iff_toNat_lt, hbits]
    exact lt_of_le_of_lt (min_le_right _ _) (by decide)
  have hshift : ((1 : UInt64) <<< (min attempt 32).toUInt64).toNat = 2 ^ min attempt.toNat 32 := by
    have hlt : min attempt.toNat 32 < 64 := lt_of_le_of_lt (min_le_right _ _) (by decide)
    have hpow : 2 ^ min attempt.toNat 32 < 2 ^ 64 := Nat.pow_lt_pow_right (by decide) hlt
    simp only [UInt64.toNat_shiftLeft, UInt32.toNat_toUInt64, hbits, Nat.mod_eq_of_lt hlt, Nat.shiftLeft_eq,
      UInt64.toNat_one, Nat.one_mul, Nat.mod_eq_of_lt hpow]
  rw [checkedShl, if_pos hsmall, Option.getD_some, UInt64.toNat_toUInt32, UInt64.toNat_min, hshift]
  have hmax : u32Max.toUInt64.toNat = 2 ^ 32 - 1 := rfl
  rw [hmax, Nat.mod_eq_of_lt (lt_of_le_of_lt (min_le_right _ _) (by decide))]
  rcases Nat.lt_or_ge attempt.toNat 32 with h | h
  · rw [min_eq_left h.le]
  · have hpow : 2 ^ 32 ≤ 2 ^ attempt.toNat := Nat.pow_le_pow_right (by decide) h
    rw [min_eq_right h, min_eq_right (by decide), min_eq_right (by omega)]

/-- Neither the shift nor the product loses anything, whatever the delay and the attempt. -/
theorem nanos_backoff {base : Duration} (hbase : nanosPerSec ≤ base.nanos) (attempt : UInt32) :
    (backoff base attempt).nanos = min (base.nanos * 2 ^ attempt.toNat) (300 * nanosPerSec) := by
  have hmax : maxBackoff.nanos = 300 * nanosPerSec := rfl
  have hroom : 300 * nanosPerSec ≤ maxNanos := by decide
  unfold backoff
  dsimp only
  rw [Duration.nanos_min, hmax, Duration.saturatingMul, Duration.saturating, toNat_multiplier, min_assoc,
    min_eq_right hroom]
  rcases le_total (2 ^ attempt.toNat) (2 ^ 32 - 1) with h | h
  · rw [min_eq_left h]
  · have hfloor : 300 * nanosPerSec ≤ base.nanos * (2 ^ 32 - 1) := by
      calc 300 * nanosPerSec ≤ nanosPerSec * (2 ^ 32 - 1) := by decide
        _ ≤ base.nanos * (2 ^ 32 - 1) := Nat.mul_le_mul_right _ hbase
    have hlarge : 300 * nanosPerSec ≤ base.nanos * 2 ^ attempt.toNat := hfloor.trans (Nat.mul_le_mul_left _ h)
    rw [min_eq_right h, min_eq_right hfloor, min_eq_right hlarge]

theorem decide_restartAfter {policy : RestartPolicy} {exit : Exit} {failures budget : UInt32} {base delay : Duration}
    (h : decide policy exit failures budget base = .restartAfter delay) :
    delay = backoff base failures ∧ (budget ≠ 0 → failures < budget) := by
  unfold decide at h
  split at h
  · cases h
  · split at h
    · cases h
    · rename_i hbudget
      refine ⟨(Outcome.restartAfter.inj h).symm, fun hm => ?_⟩
      exact UInt32.not_le.mp fun hle => hbudget ⟨hm, hle⟩

/-! ## What a move does to the counter -/

def Move.isTimer : Move → Bool
  | .timer _ => true
  | _ => false

namespace Task

variable {t u : Task} {move : Move}

/-- Whether a move gives the service its whole budget back: an operator's start is obeyed, or a process ends that was
up for the healthy window. -/
def resets (t : Task) (move : Move) : Bool :=
  match move, t.phase with
  | .receive, .idle | .receive, .backoff _ => t.commands.head? = some .start || t.commands.head? = some .restart
  | .stopped, .stopping _ next => next = .spawn
  | .exits _ now, .live running => t.window ≤ Duration.between running.started now
  | _, _ => false

/-- The delay of the automatic restart that a move decides on. -/
def restartOf (t : Task) (move : Move) : Option Duration :=
  match move, t.phase with
  | .exits status now, .live running =>
      match t.outcome status (.between running.started now) with
      | .restartAfter delay => some delay
      | _ => none
  | _, _ => none

/-- The counter that a move starts from. -/
def countedAt (t : Task) (move : Move) : FailureCounter := if t.resets move then ⟨0⟩ else t.counter

theorem counted_eq (t : Task) (uptime : Duration) :
    t.counted uptime = if t.window ≤ uptime then ⟨0⟩ else t.counter := by
  rw [counted, FailureCounter.noteUptime]

/-- A received command leaves the definition as it is, and the counter too unless an operator starts the service. -/
theorem counter_receive (h : t.receive = some u) :
    u.spec = t.spec ∧ u.counter = if t.resets .receive then ⟨0⟩ else t.counter := by
  unfold receive at h
  cases hcommands : t.commands with
  | nil =>
      rw [hcommands] at h
      dsimp only at h
      split at h
      · cases hphase : t.phase <;> simp [obey, hphase] at h <;> subst h <;>
          simp [resets, hphase, hcommands, stopRunning]
      · cases h
  | cons command rest =>
      rw [hcommands] at h
      cases hphase : t.phase <;> cases command <;> simp [obey, hphase] at h <;> subst h <;>
        simp [resets, hphase, hcommands, stopRunning]

theorem counter_step (h : t.step move = some u) :
    u.spec = t.spec ∧
      u.counter = if (t.restartOf move).isSome then (t.countedAt move).recordRestart else t.countedAt move := by
  cases move with
  | sent _ | closed | marked _ =>
      simp only [step, Option.some.injEq] at h
      subst h
      exact ⟨rfl, rfl⟩
  | receive =>
      obtain ⟨hspec, hcounter⟩ := counter_receive h
      refine ⟨hspec, ?_⟩
      rw [hcounter]
      rfl
  | timer now =>
      cases hphase : t.phase <;> simp [step, hphase] at h
      obtain ⟨-, rfl⟩ := h
      simp [restartOf, countedAt, resets]
  | spawned result now =>
      cases hphase : t.phase <;> simp [step, hphase] at h
      subst h
      simp [restartOf, countedAt, resets]
  | stopped =>
      cases hphase : t.phase <;> simp [step, hphase] at h
      subst h
      simp [restartOf, countedAt, resets, hphase, counter_stopped]
  | exits status now =>
      cases hphase : t.phase with
      | live running =>
          simp only [step, hphase, Option.some.injEq] at h
          subst h
          refine ⟨spec_handleExit .., ?_⟩
          rw [counter_handleExit]
          cases houtcome : t.outcome status (.between running.started now) <;>
            simp [restartOf, countedAt, resets, hphase, houtcome, counted_eq]
      | _ => simp [step, hphase] at h

/-- An automatic restart is within the budget, and its delay is the one of the counter. -/
theorem restartOf_some {delay : Duration} (h : t.restartOf move = some delay) :
    delay = backoff (.fromSecs (max t.spec.restartDelaySecs 1)) (t.countedAt move).consecutive ∧
      (t.spec.maxRestarts ≠ 0 → (t.countedAt move).consecutive < t.spec.maxRestarts) := by
  cases move with
  | exits status now =>
      cases hphase : t.phase with
      | live running =>
          have hcounted : t.countedAt (.exits status now) = t.counted (.between running.started now) := by
            simp [countedAt, resets, hphase, counted_eq]
          rw [hcounted]
          apply decide_restartAfter
          simp only [restartOf, hphase] at h
          split at h
          · rename_i heq
            rw [← Option.some.inj h]
            exact heq
          · cases h
      | _ => simp [restartOf, hphase] at h
  | _ => simp [restartOf] at h

/-- A command never leads to waiting for a restart. -/
theorem phase_receive (h : t.receive = some u) (until' : Instant) : u.phase ≠ .backoff until' := by
  unfold receive at h
  cases hcommands : t.commands with
  | nil =>
      rw [hcommands] at h
      dsimp only at h
      split at h
      · cases hphase : t.phase <;> simp [obey, hphase] at h <;> subst h <;> simp [stopRunning]
      · cases h
  | cons command rest =>
      rw [hcommands] at h
      cases hphase : t.phase <;> cases command <;> simp [obey, hphase] at h <;> subst h <;>
        simp [stopRunning]

/-- A task waits for a restart as before, or from the move that decided on it. -/
theorem restartOf_of_backoff {until' : Instant} (h : t.step move = some u) (hphase : u.phase = .backoff until') :
    t.phase = .backoff until' ∧ t.resets move = false ∧ move.isTimer = false ∨ (t.restartOf move).isSome = true := by
  cases move with
  | sent _ | closed | marked _ =>
      simp only [step, Option.some.injEq] at h
      subst h
      exact Or.inl ⟨hphase, rfl, rfl⟩
  | receive => exact absurd hphase (phase_receive h until')
  | timer now =>
      cases hold : t.phase <;> simp [step, hold] at h
      obtain ⟨-, rfl⟩ := h
      exact absurd hphase (phase_spawn_ne _ _)
  | spawned result now =>
      cases hold : t.phase <;> simp [step, hold] at h
      subst h
      cases result <;> cases hphase
  | stopped =>
      cases hold : t.phase <;> simp [step, hold] at h
      subst h
      rename_i next
      cases next with
      | spawn => exact absurd hphase (phase_operatorStart_ne _ _)
      | _ => cases hphase
  | exits status now =>
      cases hold : t.phase <;> simp [step, hold] at h
      rename_i running
      subst h
      unfold handleExit at hphase
      cases houtcome : t.outcome status (.between running.started now) <;> simp [houtcome] at hphase
      exact Or.inr (by simp [restartOf, hold, houtcome])

end Task

/-! ## Runs -/

/-- A task, with the delays of the automatic restarts since the last reset and the number of them carried out. -/
structure Watched where
  task : Task
  delays : List Duration
  started : Nat
  deriving DecidableEq

/-- The delays that still count where a move starts. -/
def Watched.kept (w : Watched) (move : Move) : List Duration := if w.task.resets move then [] else w.delays

def Watched.step (w : Watched) (move : Move) : Option Watched :=
  (w.task.step move).map fun task =>
    ⟨task, w.kept move ++ (w.task.restartOf move).toList,
      (if w.task.resets move then 0 else w.started) + (if move.isTimer then 1 else 0)⟩

/-- The nanoseconds before restart `k` since the last reset, counted without any bound. -/
def delayNanos (spec : ServiceSpec) (k : Nat) : Nat :=
  min (max spec.restartDelaySecs.toNat 1 * nanosPerSec * 2 ^ k) (300 * nanosPerSec)

structure Bounded (spec : ServiceSpec) (w : Watched) : Prop where
  spec_eq : w.task.spec = spec
  counter : w.task.counter.consecutive.toNat = w.delays.length
  budget : w.delays.length ≤ spec.maxRestarts.toNat
  delays : ∀ k d, w.delays[k]? = some d → d.nanos = delayNanos spec k
  started : w.started ≤ w.delays.length
  waiting : ∀ until', w.task.phase = .backoff until' → w.started < w.delays.length

section Runs

variable {spec : ServiceSpec} {w v : Watched} {move : Move}

theorem bounded_new (spec : ServiceSpec) : Bounded spec ⟨.new spec, [], 0⟩ :=
  ⟨rfl, rfl, Nat.zero_le _, fun _ _ h => (nomatch h), le_refl _, fun _ h => (nomatch h)⟩

theorem Bounded.kept (h : Bounded spec w) (move : Move) :
    (w.task.countedAt move).consecutive.toNat = (w.kept move).length ∧
      (w.kept move).length ≤ spec.maxRestarts.toNat ∧
      ∀ k d, (w.kept move)[k]? = some d → d.nanos = delayNanos spec k := by
  unfold Task.countedAt Watched.kept
  split
  · exact ⟨rfl, Nat.zero_le _, fun _ _ h => (nomatch h)⟩
  · exact ⟨h.counter, h.budget, h.delays⟩

theorem nanos_backoff_spec (spec : ServiceSpec) (attempt : UInt32) :
    (backoff (.fromSecs (max spec.restartDelaySecs 1)) attempt).nanos = delayNanos spec attempt.toNat := by
  have hbase : (Duration.fromSecs (max spec.restartDelaySecs 1)).nanos =
      max spec.restartDelaySecs.toNat 1 * nanosPerSec := by
    simp only [Duration.fromSecs, UInt64.toNat_max, UInt64.toNat_one]
  have hfloor : nanosPerSec ≤ (Duration.fromSecs (max spec.restartDelaySecs 1)).nanos := by
    rw [hbase]
    exact Nat.le_mul_of_pos_left _ (lt_of_lt_of_le Nat.zero_lt_one (le_max_right _ _))
  rw [nanos_backoff hfloor, hbase]
  rfl

theorem Bounded.step (hm : spec.maxRestarts ≠ 0) (h : Bounded spec w) (hstep : w.step move = some v) :
    Bounded spec v := by
  obtain ⟨task, htask, rfl⟩ := Option.map_eq_some_iff.mp hstep
  obtain ⟨hspec, hcounter⟩ := Task.counter_step htask
  obtain ⟨hcount, hbudget, hdelays⟩ := h.kept move
  have hstarted : (if w.task.resets move then 0 else w.started) ≤ (w.kept move).length := by
    unfold Watched.kept
    split
    · exact Nat.zero_le _
    · exact h.started
  have htimer : move.isTimer = true → w.started < w.delays.length ∧ w.task.resets move = false := by
    intro hmove
    cases move with
    | timer now =>
        cases hphase : w.task.phase <;> simp [Task.step, hphase] at htask
        exact ⟨h.waiting _ hphase, rfl⟩
    | _ => cases hmove
  cases hrestart : w.task.restartOf move with
  | none =>
      rw [hrestart] at hcounter
      simp only [Option.isSome_none, Bool.false_eq_true, if_false] at hcounter
      refine ⟨hspec.trans h.spec_eq, ?_, ?_, ?_, ?_, ?_⟩
      · simpa [hcounter] using hcount
      · simpa using hbudget
      · simpa using hdelays
      · cases hmove : move.isTimer with
        | true =>
            obtain ⟨hlt, hreset⟩ := htimer hmove
            simpa [hreset, hmove, Watched.kept] using Nat.succ_le_of_lt hlt
        | false => simpa [hmove] using hstarted
      · intro until' hphase
        rcases Task.restartOf_of_backoff htask hphase with ⟨hold, hreset, hmove⟩ | hsome
        · simpa [hreset, hmove, Watched.kept] using h.waiting until' hold
        · rw [hrestart] at hsome
          cases hsome
  | some delay =>
      have hmove : move.isTimer = false := by
        cases move with
        | timer now => simp [Task.restartOf] at hrestart
        | _ => rfl
      obtain ⟨hdelay, hless⟩ := Task.restartOf_some hrestart
      rw [h.spec_eq] at hdelay hless
      have hlt : (w.kept move).length < spec.maxRestarts.toNat := by
        rw [← hcount]
        exact UInt32.lt_iff_toNat_lt.mp (hless hm)
      rw [hrestart] at hcounter
      simp only [Option.isSome_some, if_true] at hcounter
      refine ⟨hspec.trans h.spec_eq, ?_, ?_, ?_, ?_, ?_⟩
      · have hroom := spec.maxRestarts.toNat_lt
        simp only [hcounter, FailureCounter.recordRestart, toNat_saturatingAdd32, hcount, UInt32.toNat_one,
          Option.toList_some, List.length_append, List.length_singleton]
        exact min_eq_left (by omega)
      · simpa using Nat.succ_le_of_lt hlt
      · intro k d hk
        simp only [Option.toList_some] at hk
        rcases Nat.lt_trichotomy k (w.kept move).length with hlt | heq | hgt
        · rw [List.getElem?_append_left hlt] at hk
          exact hdelays k d hk
        · rw [heq, List.getElem?_concat_length] at hk
          cases hk
          rw [hdelay, nanos_backoff_spec, hcount, heq]
        · rw [List.getElem?_eq_none (by rw [List.length_append, List.length_singleton]; omega)] at hk
          cases hk
      · simpa [hmove] using hstarted.trans (Nat.le_succ _)
      · intro until' hphase
        simpa [hmove] using Nat.lt_succ_of_le hstarted

theorem bounded_of_run (hm : spec.maxRestarts ≠ 0) {moves : List Move}
    (hrun : Run Watched.step (fun _ _ => True) ⟨.new spec, [], 0⟩ moves w) : Bounded spec w := by
  apply hrun.invariant (I := Bounded spec)
  · intro v move v' h _ hstep
    exact h.step hm hstep
  · exact bounded_new spec

theorem delayNanos_mono (spec : ServiceSpec) {k l : Nat} (h : k ≤ l) : delayNanos spec k ≤ delayNanos spec l :=
  min_le_min (Nat.mul_le_mul_left _ (Nat.pow_le_pow_right (by decide) h)) (le_refl _)

theorem delayNanos_bounds (spec : ServiceSpec) (k : Nat) :
    min (max spec.restartDelaySecs.toNat 1) 300 * nanosPerSec ≤ delayNanos spec k ∧
      delayNanos spec k ≤ 300 * nanosPerSec := by
  refine ⟨?_, min_le_right _ _⟩
  calc min (max spec.restartDelaySecs.toNat 1) 300 * nanosPerSec
      = min (max spec.restartDelaySecs.toNat 1 * nanosPerSec) (300 * nanosPerSec) := Nat.mul_min_mul_right _ _ _ |>.symm
    _ = delayNanos spec 0 := by rw [delayNanos, Nat.pow_zero, Nat.mul_one]
    _ ≤ delayNanos spec k := delayNanos_mono spec (Nat.zero_le k)

/-- Where the end of a process leads after `restarts` automatic restarts. -/
structure ExitLeads (spec : ServiceSpec) (restarts : Nat) (status : Option ExitStatus) (now : Instant) (u : Task) :
    Prop where
  unwanted : spec.restart = .never ∨ spec.restart = .onFailure ∧ Task.exitOf status = .clean →
    u.phase = .idle ∧ u.shared.state = .exited (status.bind ExitStatus.code)
  spent : wantsRestart spec.restart (Task.exitOf status) = true → restarts = spec.maxRestarts.toNat →
    u.phase = .idle ∧ u.shared.state = .gaveUp spec.maxRestarts (Task.described (status.bind ExitStatus.code))
  wanted : wantsRestart spec.restart (Task.exitOf status) = true → restarts < spec.maxRestarts.toNat →
    ∃ delay : Duration, u.phase = .backoff (now + delay.nanos) ∧ delay.nanos = delayNanos spec restarts

theorem wantsRestart_eq_false {policy : RestartPolicy} {exit : Exit} :
    wantsRestart policy exit = false ↔ policy = .never ∨ policy = .onFailure ∧ exit = .clean := by
  cases policy <;> cases exit <;> decide

theorem exitLeads (hm : spec.maxRestarts ≠ 0) (h : Bounded spec w) {running : Running}
    (hphase : w.task.phase = .live running) (status : Option ExitStatus) (now : Instant) :
    ∃ u, w.task.step (.exits status now) = some u ∧
      ExitLeads spec (w.kept (.exits status now)).length status now u := by
  have hcounted : w.task.countedAt (.exits status now) = w.task.counted (.between running.started now) := by
    simp [Task.countedAt, Task.resets, hphase, Task.counted_eq]
  have hcount := (h.kept (.exits status now)).1
  rw [hcounted] at hcount
  refine ⟨w.task.handleExit status (.between running.started now) now, by simp [Task.step, hphase], ?_, ?_, ?_⟩
  · intro hpolicy
    have houtcome : w.task.outcome status (.between running.started now) = .stay := by
      simp [Task.outcome, decide, h.spec_eq, wantsRestart_eq_false.mpr hpolicy]
    simp [Task.handleExit, houtcome, Task.set, Shared.set]
  · intro hwants hspent
    have hequal : (w.task.counted (.between running.started now)).consecutive = spec.maxRestarts :=
      UInt32.toNat.inj (hcount.trans hspent)
    have houtcome : w.task.outcome status (.between running.started now) = .gaveUp := by
      simp [Task.outcome, decide, h.spec_eq, hwants, hequal, hm]
    simp [Task.handleExit, houtcome, Task.set, Shared.set, hequal]
  · intro hwants hless
    have hbudget : ¬spec.maxRestarts ≤ (w.task.counted (.between running.started now)).consecutive := by
      rw [UInt32.not_le, UInt32.lt_iff_toNat_lt, hcount]
      exact hless
    have houtcome : w.task.outcome status (.between running.started now) =
        .restartAfter (backoff (.fromSecs (max spec.restartDelaySecs 1))
          (w.task.counted (.between running.started now)).consecutive) := by
      simp [Task.outcome, decide, h.spec_eq, hwants, hbudget]
    refine ⟨_, by simp only [Task.handleExit, houtcome]; rfl, ?_⟩
    rw [nanos_backoff_spec, hcount]

/-- A task without a process and without a restart ahead stays so until an operator starts its service. -/
theorem step_of_idle {t u : Task} (hphase : t.phase = .idle) (h : t.step move = some u) :
    t.resets move = true ∨ (u.phase = .idle ∨ u.phase = .ended) ∧
      (u.shared = t.shared ∨ ∃ reason, u.shared.state = .buildFailed reason) := by
  cases move with
  | sent _ | closed =>
      simp only [Task.step, Option.some.injEq] at h
      subst h
      exact Or.inr ⟨Or.inl hphase, Or.inl rfl⟩
  | marked reason =>
      simp only [Task.step, Option.some.injEq] at h
      subst h
      exact Or.inr ⟨Or.inl hphase, Or.inr ⟨reason, rfl⟩⟩
  | receive =>
      change t.receive = some u at h
      unfold Task.receive at h
      cases hcommands : t.commands with
      | nil =>
          rw [hcommands] at h
          dsimp only at h
          split at h
          · simp only [Task.obey, hphase, Option.some.injEq] at h
            subst h
            simp
          · cases h
      | cons command rest =>
          rw [hcommands] at h
          cases command <;> simp [Task.obey, hphase] at h <;> subst h <;> simp [Task.resets, hphase, hcommands]
  | _ => simp [Task.step, hphase] at h

end Runs

/-- In every run of the task of a service with a budget, the automatic restarts since the last reset number at most
the budget; their delays are the powers of two of the configured one, from it and up to five minutes, whatever the
numbers; the end of a process leads to a restart only while the policy wants one and the budget has one left, and to
giving up when it has none; and a task that gave up starts nothing by itself. -/
theorem crash_loop_bounded {spec : ServiceSpec} (hm : spec.maxRestarts ≠ 0) {moves : List Move} {w : Watched}
    (hrun : Run Watched.step (fun _ _ => True) ⟨.new spec, [], 0⟩ moves w) :
    w.delays.length ≤ spec.maxRestarts.toNat ∧ w.started ≤ w.delays.length ∧
      (∀ delay ∈ w.delays, min (max spec.restartDelaySecs.toNat 1) 300 * nanosPerSec ≤ delay.nanos ∧
        delay.nanos ≤ 300 * nanosPerSec) ∧
      w.delays.Pairwise (· ≤ ·) ∧
      (∀ k delay, w.delays[k]? = some delay → delay.nanos = delayNanos spec k) ∧
      (∀ running status now, w.task.phase = .live running → ∃ u, w.task.step (.exits status now) = some u ∧
        ExitLeads spec (w.kept (.exits status now)).length status now u) ∧
      (w.task.phase = .idle → ∀ move u, w.task.step move = some u →
        w.task.resets move = true ∨ (u.phase = .idle ∨ u.phase = .ended) ∧
          (u.shared = w.task.shared ∨ ∃ reason, u.shared.state = .buildFailed reason)) := by
  have h := bounded_of_run hm hrun
  refine ⟨h.budget, h.started, ?_, ?_, h.delays, ?_, ?_⟩
  · intro delay hmem
    obtain ⟨k, hk⟩ := List.mem_iff_getElem?.mp hmem
    rw [h.delays k delay hk]
    exact delayNanos_bounds spec k
  · apply List.pairwise_iff_getElem.mpr
    intro i j hi hj hij
    rw [Duration.le_iff, h.delays i _ (List.getElem?_eq_getElem hi), h.delays j _ (List.getElem?_eq_getElem hj)]
    exact delayNanos_mono spec hij.le
  · intro running status now hphase
    exact exitLeads hm h hphase status now
  · intro hphase move u hstep
    exact step_of_idle hphase hstep

/-- A service that may be restarted once and fails twice within seconds. -/
def flaky : ServiceSpec := ⟨"flaky".toList, .automatic, .onFailure, 5, 1⟩

def flakyMoves : List Move :=
  [.sent .start, .receive, .spawned (.ok 7) 0, .exits (some ⟨some 1⟩) nanosPerSec, .timer (6 * nanosPerSec),
    .spawned (.ok 8) (6 * nanosPerSec)]

/-- The flaky service after its restart. -/
def flakyWatched : Watched :=
  ⟨⟨flaky, ⟨.running 8 0, 1, some (6 * nanosPerSec)⟩, ⟨1⟩, .live ⟨8, 6 * nanosPerSec⟩, [], false⟩, [.fromSecs 5], 1⟩

theorem crash_loop_bounded_flaky :
    Run Watched.step (fun _ _ => True) ⟨.new flaky, [], 0⟩ flakyMoves flakyWatched ∧
      ∃ u, flakyWatched.task.step (.exits none (7 * nanosPerSec)) = some u ∧ u.phase = .idle ∧
        u.shared.state = .gaveUp 1 "was killed".toList := by
  have hrun : Run Watched.step (fun _ _ => True) ⟨.new flaky, [], 0⟩ flakyMoves flakyWatched :=
    Run.of_exec (by decide +kernel)
  obtain ⟨-, -, -, -, -, hexits, -⟩ := crash_loop_bounded (by decide) hrun
  obtain ⟨u, hstep, hleads⟩ := hexits ⟨8, 6 * nanosPerSec⟩ none (7 * nanosPerSec) rfl
  exact ⟨hrun, u, hstep, hleads.spent (by decide +kernel) (by decide +kernel)⟩

end Selfhost.Supervisor
