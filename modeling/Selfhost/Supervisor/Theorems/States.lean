import Selfhost.Supervisor.Lemmas.Services

/-!
# The reported state is true, where a failed build is only marked on a resting service

The task writes the state at every phase, and `mark_build_failed` writes over whatever stands there.
`reported_states_true` says what holds as long as it is only called on a service whose task rests; `marked_elsewhere`
has two calls at other times.
-/

namespace Selfhost.Supervisor

open Selfhost.Lib

namespace Task

variable {t u : Task} {move : Move}

/-- Whether a task is between two steps of its loop. -/
def between : Phase → Bool
  | .idle | .backoff _ | .live _ => true
  | _ => false

/-- Between steps, the state is running with a pid exactly when the task holds that process. -/
def Truthful (t : Task) : Prop :=
  between t.phase = true →
    ∀ pid, (∃ uptime, t.shared.state = .running pid uptime) ↔ ∃ started, t.phase = .live ⟨pid, started⟩

/-- Whether a task has ended, or has no process and no start waiting. -/
def Resting (t : Task) : Prop :=
  t.phase = .ended ∨ t.phase = .idle ∧ .start ∉ t.commands ∧ .restart ∉ t.commands

instance (t : Task) : Decidable t.Resting := inferInstanceAs (Decidable (_ ∨ _))

theorem truthful_new (spec : ServiceSpec) : (Task.new spec).Truthful := by
  intro _ pid
  unfold Task.new Shared.new
  split <;> simp

@[simp] theorem state_set (shared : Shared) (state : ServiceState) : (shared.set state).state = state := by
  rw [Shared.set]

@[simp] theorem set_shared (t : Task) (state : ServiceState) : (t.set state).shared = t.shared.set state := by
  rw [Task.set]

theorem truthful_spawn (t : Task) : t.spawn.Truthful := by
  unfold spawn
  split
  · simp [Truthful]
  · simp [Truthful, between]

theorem truthful_operatorStart (t : Task) : t.operatorStart.Truthful := truthful_spawn _

theorem truthful_spawned (t : Task) (result : Except Str UInt32) (now : Instant) :
    (t.spawned result now).Truthful := by
  cases result with
  | ok pid => simp [Truthful, spawned, Shared.markStarted]
  | error reason => simp [Truthful, spawned]

theorem truthful_stopped (t : Task) (next : AfterStop) : (t.stopped next).Truthful := by
  cases next with
  | rest => simp [Truthful, stopped]
  | spawn => exact truthful_operatorStart _
  | leave => simp [Truthful, stopped, between]

theorem truthful_handleExit (t : Task) (status : Option ExitStatus) (uptime : Duration) (now : Instant) :
    (t.handleExit status uptime now).Truthful := by
  unfold handleExit
  dsimp only
  split <;> simp [Truthful]

theorem Truthful.obey (h : t.Truthful) {command : Option Command} (hu : t.obey command = some u) : u.Truthful := by
  cases hphase : t.phase <;> rcases command with _ | command <;> (try cases command) <;>
    simp [Task.obey, hphase] at hu <;> subst hu
  case idle.some.stop | live.some.start => exact h
  case backoff.some.stop => simp [Truthful]
  case idle.some.start | idle.some.restart | backoff.some.start | backoff.some.restart =>
    exact truthful_operatorStart _
  all_goals simp [Truthful, between, stopRunning]

theorem Truthful.receive (h : t.Truthful) (hu : t.receive = some u) : u.Truthful := by
  unfold Task.receive at hu
  split at hu
  · exact Truthful.obey (by exact h) hu
  · split at hu
    · exact h.obey hu
    · cases hu

theorem Truthful.step (h : t.Truthful) (hown : move.own = true) (hu : t.step move = some u) : u.Truthful := by
  cases move with
  | sent _ | closed | marked _ => cases hown
  | receive => exact h.receive hu
  | timer now =>
      cases hphase : t.phase <;> simp [Task.step, hphase] at hu
      obtain ⟨-, rfl⟩ := hu
      exact truthful_spawn t
  | spawned result now =>
      cases hphase : t.phase <;> simp [Task.step, hphase] at hu
      subst hu
      exact truthful_spawned t result now
  | stopped =>
      cases hphase : t.phase <;> simp [Task.step, hphase] at hu
      subst hu
      exact truthful_stopped t _
  | exits status now =>
      cases hphase : t.phase <;> simp [Task.step, hphase] at hu
      subst hu
      exact truthful_handleExit t status _ now

theorem Truthful.marked (h : t.Resting) (reason : Str) : (t.set (.buildFailed reason)).Truthful := by
  intro hbetween pid
  change between t.phase = true at hbetween
  rcases h with h | ⟨h, -⟩
  · rw [h] at hbetween
    cases hbetween
  · simp only [set_shared, state_set, reduceCtorEq, exists_false, false_iff, not_exists]
    intro started hlive
    change t.phase = _ at hlive
    rw [h] at hlive
    cases hlive

/-- A resting task rests on, and writes nothing. -/
theorem Resting.receive (h : t.Resting) (hu : t.receive = some u) : u.Resting ∧ u.shared = t.shared := by
  unfold Task.receive at hu
  cases hcommands : t.commands with
  | nil =>
      rw [hcommands] at hu
      dsimp only at hu
      split at hu
      · rcases h with h | ⟨h, -⟩ <;> simp [Task.obey, h] at hu
        subst hu
        exact ⟨Or.inl rfl, rfl⟩
      · cases hu
  | cons command rest =>
      rw [hcommands] at hu
      rcases h with h | ⟨h, hstart, hrestart⟩
      · simp [Task.obey, h] at hu
      · rw [hcommands] at hstart hrestart
        rw [List.mem_cons, not_or] at hstart hrestart
        cases command with
        | start => exact absurd rfl hstart.1
        | restart => exact absurd rfl hrestart.1
        | stop =>
            simp only [Task.obey, h, Option.some.injEq] at hu
            subst hu
            exact ⟨Or.inr ⟨rfl, hstart.2, hrestart.2⟩, rfl⟩
        | shutdown =>
            simp only [Task.obey, h, Option.some.injEq] at hu
            subst hu
            exact ⟨Or.inl rfl, rfl⟩

theorem Resting.step (h : t.Resting) (hown : move.own = true) (hu : t.step move = some u) :
    u.Resting ∧ u.shared = t.shared := by
  cases move with
  | sent _ | closed | marked _ => cases hown
  | receive => exact h.receive hu
  | _ => rcases h with h | ⟨h, -⟩ <;> simp [Task.step, h] at hu

theorem Resting.sent (h : t.Resting) {command : Command} (hstart : command ≠ .start) (hrestart : command ≠ .restart) :
    (t.sent command).Resting := by
  rcases h with h | ⟨h, hno, hno'⟩
  · exact Or.inl h
  · refine Or.inr ⟨h, ?_, ?_⟩
    · simpa [Task.sent, hno] using hstart.symm
    · simpa [Task.sent, hno'] using hrestart.symm

theorem Truthful.reported (h : t.Truthful) (hbetween : between t.phase = true) (now : Instant) (pid : UInt32) :
    (∃ uptime, t.shared.currentState now = .running pid uptime) ↔ ∃ started, t.phase = .live ⟨pid, started⟩ := by
  rw [← h hbetween pid]
  unfold Shared.currentState
  cases hstate : t.shared.state <;> cases t.shared.started <;> simp

end Task

/-! ## Runs -/

namespace Services

variable {s s' : Services} {event : Event}

/-- A failed build is only marked on a service whose task rests. -/
def MarksRest (s : Services) : Event → Prop
  | .markBuildFailed name _ => ∀ i, s.installed name = some i → ∀ t, s.tasks[i]? = some t → t.Resting
  | _ => True

instance (s : Services) : (event : Event) → Decidable (s.MarksRest event)
  | .markBuildFailed name _ =>
      decidable_of_iff (∀ i ∈ (s.installed name).toList, ∀ t ∈ s.tasks[i]?.toList, t.Resting) (by simp [MarksRest])
  | .remove _ | .insert _ | .send .. | .shutdown | .task .. => instDecidableTrue

/-- Whether an event is a start, a restart or an install of a service. -/
def starts (name : Str) : Event → Bool
  | .send other command => other = name && (command = .start || command = .restart)
  | .insert spec => spec.name = name
  | _ => false

def AllTruthful (s : Services) : Prop := ∀ (i : Nat) (t : Task), s.tasks[i]? = some t → t.Truthful

theorem Change.truthful {i : Nat} {t u : Task} (h : Change s i event t u) (hok : s.MarksRest event)
    (ht : s.tasks[i]? = some t) (htrue : t.Truthful) : u.Truthful := by
  cases h with
  | marked name reason _ hi => exact Task.Truthful.marked (hok i hi t ht) reason
  | moved hown hstep => exact htrue.step hown hstep
  | _ => exact htrue

theorem AllTruthful.step (h : s.AllTruthful) (hok : s.MarksRest event) (hstep : s.step event = some s') :
    s'.AllTruthful := by
  intro i u hu
  rcases change_of_step hstep hu with ⟨t, ht, hchange⟩ | ⟨spec, -, -, rfl⟩
  · exact hchange.truthful hok ht (h i t ht)
  · exact Task.truthful_new spec

/-- The service rests with its failed build, or is not installed. -/
def Failed (s : Services) (name : Str) : Prop :=
  ∀ i t, s.installed name = some i → s.tasks[i]? = some t →
    t.spec.name = name ∧ Task.Resting t ∧ ∃ reason, t.shared.state = .buildFailed reason

theorem failed_of_mark {name reason : Str} (hn : s.Named) (hok : s.MarksRest (.markBuildFailed name reason))
    (hstep : s.step (.markBuildFailed name reason) = some s') : s'.Failed name := by
  intro i u hi hu
  have hold : s.installed name = some i := by
    rcases installed_of_step hstep hi with hold | ⟨spec, heq, -⟩
    · exact hold
    · cases heq
  obtain ⟨t, ht, hname⟩ := hn name i hold
  have hrest := hok i hold t ht
  simp only [step, Option.some.injEq] at hstep
  subst hstep
  simp only [onInstalled, hold, List.getElem?_modify_eq, ht, Option.map_eq_map, Option.map_some,
    Option.some.injEq] at hu
  subst hu
  exact ⟨hname, hrest, reason, rfl⟩

/-- A failed build stays reported, unless the service is started or installed. -/
theorem Change.failed {name : Str} {i : Nat} {t u : Task} (h : Change s i event t u)
    (hno : starts name event = false) (hunique : ∀ other, s.installed other = some i → other = name)
    (hrest : t.Resting) (hfailed : ∃ reason, t.shared.state = .buildFailed reason) :
    u.Resting ∧ ∃ reason, u.shared.state = .buildFailed reason := by
  cases h with
  | same => exact ⟨hrest, hfailed⟩
  | removed => exact ⟨hrest.sent (nofun) (nofun), hfailed⟩
  | dismissed => exact ⟨hrest.sent (nofun) (nofun), hfailed⟩
  | closed => exact ⟨hrest, hfailed⟩
  | sent other command _ hother =>
      rw [hunique other hother] at hno
      refine ⟨hrest.sent ?_ ?_, hfailed⟩
      · rintro rfl
        simp [starts] at hno
      · rintro rfl
        simp [starts] at hno
  | marked other reason => exact ⟨hrest, reason, rfl⟩
  | moved hown hstep =>
      obtain ⟨hrest', hshared⟩ := hrest.step hown hstep
      exact ⟨hrest', by rw [hshared]; exact hfailed⟩

theorem Failed.step {name : Str} (hn : s.Named) (h : s.Failed name) (hno : starts name event = false)
    (hstep : s.step event = some s') : s'.Failed name := by
  intro i u hi hu
  have hold : s.installed name = some i := by
    rcases installed_of_step hstep hi with hold | ⟨spec, rfl, hname, -⟩
    · exact hold
    · simp [starts, hname] at hno
  obtain ⟨t', ht', htname⟩ := hn name i hold
  rcases change_of_step hstep hu with ⟨t, ht, hchange⟩ | ⟨spec, -, rfl, -⟩
  · obtain ⟨hname, hrest, hfailed⟩ := h i t hold ht
    refine ⟨by rw [hchange.spec_eq]; exact hname, hchange.failed hno ?_ hrest hfailed⟩
    intro other hother
    obtain ⟨t'', ht'', hother'⟩ := hn other i hother
    rw [ht'] at ht''
    cases ht''
    rw [← hother', htname]
  · rw [List.getElem?_eq_none (le_refl _)] at ht'
    cases ht'

theorem named_of_run {ok : Services → Event → Prop} {events : List Event} (hn : s.Named)
    (hrun : Run step ok s events s') : s'.Named := by
  apply hrun.invariant (I := Named)
  · intro v event v' h _ hstep
    exact h.step hstep
  · exact hn

theorem Failed.status {name : Str} (h : s.Failed name) {now : Instant} {state : ServiceState}
    (hstatus : s.status name now = some state) : ∃ reason, state = .buildFailed reason := by
  unfold Services.status at hstatus
  obtain ⟨t, ht, rfl⟩ := Option.map_eq_some_iff.mp hstatus
  obtain ⟨i, hi, ht⟩ := Option.bind_eq_some_iff.mp ht
  obtain ⟨-, -, reason, hreason⟩ := h i t hi ht
  exact ⟨reason, by unfold Shared.currentState; rw [hreason]⟩

/-- In every run in which a failed build is only marked on a resting service, a task between steps reports a running
process exactly when it holds it; and once a build was marked as failed, this is reported until the service is started,
restarted or installed. -/
theorem reported_states_true {events : List Event} (hrun : Run step MarksRest empty events s) :
    (∀ (i : Nat) (t : Task), s.tasks[i]? = some t → Task.between t.phase = true → ∀ now pid,
        (∃ uptime, t.shared.currentState now = .running pid uptime) ↔ ∃ started, t.phase = .live ⟨pid, started⟩) ∧
      ∀ name reason marked later s', s.MarksRest (.markBuildFailed name reason) →
        s.step (.markBuildFailed name reason) = some marked →
        Run step (fun v event => v.MarksRest event ∧ starts name event = false) marked later s' →
        ∀ now state, s'.status name now = some state → ∃ reason', state = .buildFailed reason' := by
  have hnamed : s.Named := named_of_run named_empty hrun
  constructor
  · have htrue : s.AllTruthful := by
      apply hrun.invariant (I := AllTruthful)
      · intro v event v' h hok hstep
        exact h.step hok hstep
      · exact fun _ _ h => (nomatch h)
    intro i t ht hbetween now pid
    exact (htrue i t ht).reported hbetween now pid
  · intro name reason marked later s' hok hmark hlater now state hstatus
    have hfailed : s'.Named ∧ s'.Failed name := by
      apply hlater.invariant (I := fun v => v.Named ∧ v.Failed name)
      · intro v event v' h hok hstep
        exact ⟨h.1.step hstep, h.2.step h.1 hok.2 hstep⟩
      · exact ⟨hnamed.step hmark, failed_of_mark hnamed hok hmark⟩
    exact hfailed.2.status hstatus

/-! ## Marks at other times -/

def builder : ServiceSpec := ⟨"builder".toList, .automatic, .onFailure, 5, 5⟩

/-- The service runs. -/
def serving : List Event := install builder ++ [.task 0 .receive, .task 0 (.spawned (.ok 7) 0)]

/-- The service was asked to stop, and the stop is over. -/
def stoppedAgain : List Event := serving ++ [.send builder.name .stop, .task 0 .receive, .task 0 .stopped]

def stoppedTask : Task := ⟨builder, ⟨.stopped, 0, none⟩, ⟨0⟩, .idle, [], false⟩

theorem reported_states_true_stopped :
    ∃ s marked, Run step MarksRest empty stoppedAgain s ∧
      s.step (.markBuildFailed builder.name "exit 1".toList) = some marked ∧
      ∀ now state, marked.status builder.name now = some state → ∃ reason, state = .buildFailed reason := by
  have hmap : (exec step MarksRest empty stoppedAgain).map (fun s => (s.tasks, s.installed builder.name)) =
      some ([stoppedTask], some 0) := by decide +kernel
  obtain ⟨s, hexec, hs⟩ := Option.map_eq_some_iff.mp hmap
  obtain ⟨htasks, hinstalled⟩ := Prod.mk.inj hs
  have hrun := Run.of_exec hexec
  refine ⟨s, _, hrun, rfl, ?_⟩
  apply (reported_states_true hrun).2 builder.name "exit 1".toList _ [] _ _ rfl .nil
  intro i hi t ht
  rw [hinstalled] at hi
  cases hi
  rw [htasks] at ht
  cases ht
  decide

/-- A running service is reported as a failed build, and a mark that comes while a service stops is lost. -/
theorem marked_elsewhere :
    (∃ s, Run step (fun _ _ => True) empty (serving ++ [.markBuildFailed builder.name "exit 1".toList]) s ∧
        s.tasks = [⟨builder, ⟨.buildFailed "exit 1".toList, 0, none⟩, ⟨0⟩, .live ⟨7, 0⟩, [], false⟩]) ∧
      ∃ s, Run step (fun _ _ => True) empty (serving ++ [.send builder.name .stop, .task 0 .receive,
          .markBuildFailed builder.name "exit 1".toList, .task 0 .stopped]) s ∧
        s.status builder.name 0 = some .stopped := by
  constructor
  · have hmap : (exec step (fun _ _ => True) empty
        (serving ++ [.markBuildFailed builder.name "exit 1".toList])).map tasks =
        some [⟨builder, ⟨.buildFailed "exit 1".toList, 0, none⟩, ⟨0⟩, .live ⟨7, 0⟩, [], false⟩] := by decide +kernel
    obtain ⟨s, hexec, htasks⟩ := Option.map_eq_some_iff.mp hmap
    exact ⟨s, Run.of_exec hexec, htasks⟩
  · have hmap : (exec step (fun _ _ => True) empty (serving ++ [.send builder.name .stop, .task 0 .receive,
        .markBuildFailed builder.name "exit 1".toList, .task 0 .stopped])).map (fun s => s.status builder.name 0) =
        some (some .stopped) := by decide +kernel
    obtain ⟨s, hexec, hstatus⟩ := Option.map_eq_some_iff.mp hmap
    exact ⟨s, Run.of_exec hexec, hstatus⟩

end Services

end Selfhost.Supervisor
