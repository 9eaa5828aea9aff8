import Selfhost.Supervisor.Lemmas.Services

/-!
# One process per service, where a start waits for the task before

A task that was replaced stops its process in its own time, and nothing waits for it. `one_process` says that a
service has one process at most as long as a start is only sent once every other task of that service is quiet;
`installed_over_running` is an `install` over a running service.
-/

namespace Selfhost.Supervisor

open Selfhost.Lib

/-! ## Tasks that start nothing -/

namespace Task

variable {t u : Task} {move : Move}

/-- The process that a task holds. -/
def process (t : Task) : Option Running :=
  match t.phase with
  | .live running | .stopping running _ => some running
  | _ => none

def isStart : Command → Bool
  | .start | .restart => true
  | _ => false

/-- Whether a task holds no process and has nothing waiting that starts one. -/
def Quiet (t : Task) : Prop :=
  t.phase = .ended ∨ t.phase = .idle ∧ (t.spec.startMode = .disabled ∨ ∀ command ∈ t.commands, isStart command = false)

instance (t : Task) : Decidable t.Quiet := inferInstanceAs (Decidable (_ ∨ _))

theorem Quiet.process_eq (h : t.Quiet) : t.process = none := by
  rcases h with h | ⟨h, -⟩ <;> simp [process, h]

theorem quiet_new (spec : ServiceSpec) : (Task.new spec).Quiet := Or.inr ⟨rfl, Or.inr fun _ h => (nomatch h)⟩

theorem Quiet.sent (h : t.Quiet) {command : Command} (hcommand : isStart command = false) : (t.sent command).Quiet := by
  rcases h with h | ⟨h, hidle⟩
  · exact Or.inl h
  · refine Or.inr ⟨h, hidle.imp_right fun hall => ?_⟩
    intro c hc
    rcases List.mem_append.mp hc with hc | hc
    · exact hall c hc
    · rw [List.mem_singleton.mp hc]
      exact hcommand

theorem Quiet.dismiss (h : t.Quiet) : t.dismiss.Quiet := h.sent rfl

theorem spawn_of_disabled (h : t.spec.startMode = .disabled) : t.spawn.phase = .idle := by simp [spawn, h]

theorem operatorStart_of_disabled (h : t.spec.startMode = .disabled) : t.operatorStart.Quiet :=
  Or.inr ⟨spawn_of_disabled h, Or.inl (by simpa using h)⟩

/-- A quiet task stays quiet by itself. -/
theorem Quiet.receive (h : t.Quiet) (hu : t.receive = some u) : u.Quiet := by
  unfold Task.receive at hu
  cases hcommands : t.commands with
  | nil =>
      rw [hcommands] at hu
      dsimp only at hu
      split at hu
      · rcases h with h | ⟨h, -⟩ <;> simp [obey, h] at hu
        subst hu
        exact Or.inl rfl
      · cases hu
  | cons command rest =>
      rw [hcommands] at hu
      rcases h with h | ⟨h, hidle⟩
      · simp [obey, h] at hu
      · rw [hcommands] at hidle
        have hrest : t.spec.startMode = .disabled ∨ ∀ c ∈ rest, isStart c = false :=
          hidle.imp_right fun hall c hc => hall c (List.mem_cons_of_mem _ hc)
        cases hstart : isStart command with
        | true =>
            have hdisabled : t.spec.startMode = .disabled := by
              rcases hidle with hdisabled | hall
              · exact hdisabled
              · rw [hall command List.mem_cons_self] at hstart
                cases hstart
            cases command <;> simp [obey, h, isStart] at hu hstart <;> subst hu <;>
              exact operatorStart_of_disabled hdisabled
        | false =>
            cases command <;> simp [obey, h, isStart] at hu hstart <;> subst hu
            · exact Or.inr ⟨rfl, hrest⟩
            · exact Or.inl rfl

theorem Quiet.step (h : t.Quiet) (hown : move.own = true) (hu : t.step move = some u) : u.Quiet := by
  cases move with
  | sent _ | closed | marked _ => cases hown
  | receive => exact h.receive hu
  | _ => rcases h with h | ⟨h, -⟩ <;> simp [Task.step, h] at hu

end Task

/-! ## Runs -/

namespace Services

variable {s s' : Services} {event : Event}

/-- At most one task of a service holds a process. -/
def OneProcess (s : Services) : Prop :=
  ∀ (i j : Nat) (t u : Task), s.tasks[i]? = some t → s.tasks[j]? = some u → t.spec.name = u.spec.name →
    t.process.isSome = true → u.process.isSome = true → i = j

/-- A start is only sent once every other task of the service is quiet. -/
def Careful (s : Services) : Event → Prop
  | .send name command =>
      Task.isStart command = true → ∀ i, s.installed name = some i → ∀ t ∈ s.tasks.eraseIdx i, t.spec.name = name → t.Quiet
  | _ => True

instance (s : Services) : (event : Event) → Decidable (s.Careful event)
  | .send name command =>
      decidable_of_iff (Task.isStart command = true → ∀ i ∈ (s.installed name).toList,
        ∀ t ∈ s.tasks.eraseIdx i, t.spec.name = name → t.Quiet) (by simp [Careful])
  | .remove _ | .insert _ | .markBuildFailed .. | .shutdown | .task .. => instDecidableTrue

/-- At most one task of a service is not quiet. -/
structure OneActive (s : Services) : Prop where
  named : s.Named
  unique : ∀ (i j : Nat) (t u : Task), s.tasks[i]? = some t → s.tasks[j]? = some u → t.spec.name = u.spec.name →
    ¬t.Quiet → ¬u.Quiet → i = j

theorem oneActive_empty : empty.OneActive := ⟨named_empty, fun _ _ _ _ h => (nomatch h)⟩

theorem OneActive.oneProcess (h : s.OneActive) : s.OneProcess := by
  intro i j t u ht hu hname hp hq
  apply h.unique i j t u ht hu hname
  · intro hquiet
    rw [hquiet.process_eq] at hp
    cases hp
  · intro hquiet
    rw [hquiet.process_eq] at hq
    cases hq

/-- A change leaves a quiet task quiet, unless it sends a start. -/
theorem Change.quiet {i : Nat} {t u : Task} (h : Change s i event t u) (hquiet : t.Quiet) :
    u.Quiet ∨ ∃ name command, event = .send name command ∧ Task.isStart command = true ∧ s.installed name = some i := by
  cases h with
  | same => exact Or.inl hquiet
  | removed => exact Or.inl hquiet.dismiss
  | dismissed => exact Or.inl hquiet.dismiss
  | closed => exact Or.inl hquiet
  | sent name command _ hi =>
      cases hstart : Task.isStart command with
      | true => exact Or.inr ⟨name, command, rfl, hstart, hi⟩
      | false => exact Or.inl (hquiet.sent hstart)
  | marked => exact Or.inl hquiet
  | moved hown hstep => exact Or.inl (hquiet.step hown hstep)

/-- A task that is not quiet was not quiet before, or a start was sent to it. -/
theorem active_of_step (h : s.step event = some s') {i : Nat} {u : Task} (hu : s'.tasks[i]? = some u)
    (hactive : ¬u.Quiet) :
    ∃ t, s.tasks[i]? = some t ∧ u.spec = t.spec ∧
      (¬t.Quiet ∨ ∃ name command, event = .send name command ∧ Task.isStart command = true ∧
        s.installed name = some i) := by
  rcases change_of_step h hu with ⟨t, ht, hchange⟩ | ⟨spec, -, -, rfl⟩
  · refine ⟨t, ht, hchange.spec_eq, ?_⟩
    by_cases hquiet : t.Quiet
    · exact Or.inr ((hchange.quiet hquiet).resolve_left hactive)
    · exact Or.inl hquiet
  · exact absurd (Task.quiet_new spec) hactive

theorem mem_eraseIdx_of_ne {α : Type} {l : List α} {i j : Nat} {a : α} (h : l[j]? = some a) (hne : j ≠ i) :
    a ∈ l.eraseIdx i := by
  rw [List.mem_eraseIdx_iff_getElem?]
  exact ⟨j, hne, h⟩

/-- Behind a careful start, only the started task of the service is not quiet. -/
theorem Careful.only {name : Str} {command : Command} {i j : Nat} {t u : Task} (hn : s.Named)
    (hok : s.Careful (.send name command)) (hstart : Task.isStart command = true) (hi : s.installed name = some i)
    (ht : s.tasks[i]? = some t) (hu : s.tasks[j]? = some u) (hname : t.spec.name = u.spec.name) (hactive : ¬u.Quiet) :
    i = j := by
  by_contra hne
  obtain ⟨t', ht', htname⟩ := hn name i hi
  rw [ht'] at ht
  cases ht
  exact hactive (hok hstart i hi u (mem_eraseIdx_of_ne hu (Ne.symm hne)) (hname.symm.trans htname))

theorem OneActive.step (h : s.OneActive) (hok : s.Careful event) (hstep : s.step event = some s') : s'.OneActive := by
  refine ⟨h.named.step hstep, ?_⟩
  intro i j t u ht hu hname hactive hactive'
  obtain ⟨t₀, ht₀, hspec, hold⟩ := active_of_step hstep ht hactive
  obtain ⟨u₀, hu₀, hspec', hold'⟩ := active_of_step hstep hu hactive'
  have hname₀ : t₀.spec.name = u₀.spec.name := by rw [← hspec, ← hspec', hname]
  rcases hold with hold | ⟨name, command, rfl, hstart, hi⟩
  · rcases hold' with hold' | ⟨name, command, rfl, hstart, hj⟩
    · exact h.unique i j t₀ u₀ ht₀ hu₀ hname₀ hold hold'
    · exact (hok.only h.named hstart hj hu₀ ht₀ hname₀.symm hold).symm
  · rcases hold' with hold' | ⟨name', command', heq, -, hj⟩
    · exact hok.only h.named hstart hi ht₀ hu₀ hname₀ hold'
    · cases heq
      rw [hi] at hj
      exact Option.some.inj hj

/-- In every run in which a start is only sent once the other tasks of the service are quiet, every service has one
process at most. -/
theorem one_process {events : List Event} (hrun : Run step Careful empty events s) : s.OneProcess := by
  apply OneActive.oneProcess
  apply hrun.invariant (I := OneActive)
  · intro v event v' h hok hstep
    exact h.step hok hstep
  · exact oneActive_empty

/-! ## An install over a running service -/

def web : ServiceSpec := ⟨"web".toList, .automatic, .onFailure, 5, 5⟩

/-- The service is removed, its task stops the process and ends, and only then is it installed again. -/
def reinstalled : List Event :=
  install web ++ [.task 0 .receive, .task 0 (.spawned (.ok 7) 0), .remove web.name, .task 0 .receive, .task 0 .stopped] ++
    install web ++ [.task 1 .receive, .task 1 (.spawned (.ok 8) 9)]

theorem one_process_reinstalled :
    ∃ s, exec step Careful empty reinstalled = some s ∧ s.tasks.map Task.process = [none, some ⟨8, 9⟩] ∧
      s.OneProcess := by
  have hmap : (exec step Careful empty reinstalled).map (fun s => s.tasks.map Task.process) =
      some [none, some ⟨8, 9⟩] := by decide +kernel
  obtain ⟨s, hexec, htasks⟩ := Option.map_eq_some_iff.mp hmap
  exact ⟨s, hexec, htasks, one_process (Run.of_exec hexec)⟩

/-- An `install` over the running service. -/
def overlapping : List Event :=
  install web ++ [.task 0 .receive, .task 0 (.spawned (.ok 7) 0)] ++ install web ++
    [.task 0 .receive, .task 1 .receive, .task 1 (.spawned (.ok 8) 9)]

/-- The task that was replaced, on its stop ladder. -/
def replaced : Task := ⟨web, ⟨.stopping, 0, some 0⟩, ⟨0⟩, .stopping ⟨7, 0⟩ .leave, [], true⟩

def replacement : Task := ⟨web, ⟨.running 8 0, 0, some 9⟩, ⟨0⟩, .live ⟨8, 9⟩, [], false⟩

theorem installed_over_running :
    ∃ s, Run step (fun _ _ => True) empty overlapping s ∧ s.tasks = [replaced, replacement] ∧ ¬s.OneProcess := by
  have hmap : (exec step (fun _ _ => True) empty overlapping).map tasks = some [replaced, replacement] := by
    decide +kernel
  obtain ⟨s, hexec, htasks⟩ := Option.map_eq_some_iff.mp hmap
  refine ⟨s, Run.of_exec hexec, htasks, fun hone => ?_⟩
  have hindex := hone 0 1 replaced replacement (by rw [htasks]; rfl) (by rw [htasks]; rfl) rfl rfl rfl
  cases hindex

end Services

end Selfhost.Supervisor
