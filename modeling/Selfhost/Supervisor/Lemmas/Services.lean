import Selfhost.Lib.Run
import Selfhost.Supervisor.Task

/-!
# What an event does to a task

Every event leaves a task as it is or changes it in one way, and a new task is only there after `insert`. What holds
of the tasks along a run follows from one lemma per way.
-/

namespace Selfhost.Supervisor

open Selfhost.Lib

namespace Task

variable {t u : Task} {move : Move}

@[simp] theorem spec_sent (t : Task) (command : Command) : (t.sent command).spec = t.spec := by rw [sent]

@[simp] theorem spec_close (t : Task) : t.close.spec = t.spec := by rw [close]

theorem spec_obey {command : Option Command} (h : t.obey command = some u) : u.spec = t.spec := by
  unfold obey at h
  split at h <;> simp at h <;> subst h <;> simp [stopRunning]

theorem spec_receive (h : t.receive = some u) : u.spec = t.spec := by
  unfold receive at h
  split at h
  · exact (spec_obey h).trans rfl
  · split at h
    · exact spec_obey h
    · cases h

theorem spec_step (h : t.step move = some u) : u.spec = t.spec := by
  unfold step at h
  split at h
  case h_4 => exact spec_receive h
  case h_5 =>
    split at h
    · simp only [Option.some.injEq] at h
      subst h
      exact spec_spawn t
    · cases h
  all_goals simp at h
  all_goals subst h
  all_goals simp

end Task

namespace Services

variable {s s' : Services} {event : Event}

/-- The ways in which an event changes the task at a place. -/
inductive Change (s : Services) (i : Nat) : Event → Task → Task → Prop where
  | same (event : Event) (t : Task) : Change s i event t t
  | removed (name : Str) (t : Task) : s.installed name = some i → Change s i (.remove name) t t.dismiss
  | dismissed (t : Task) : s.installed t.spec.name = some i → Change s i .shutdown t t.dismiss
  | closed (spec : ServiceSpec) (t : Task) : s.installed spec.name = some i → Change s i (.insert spec) t t.close
  | sent (name : Str) (command : Command) (t : Task) : s.installed name = some i →
      Change s i (.send name command) t (t.sent command)
  | marked (name reason : Str) (t : Task) : s.installed name = some i →
      Change s i (.markBuildFailed name reason) t (t.set (.buildFailed reason))
  | moved {move : Move} {t u : Task} : move.own = true → t.step move = some u → Change s i (.task i move) t u

theorem Change.spec_eq {i : Nat} {t u : Task} (h : Change s i event t u) : u.spec = t.spec := by
  cases h with
  | moved _ hstep => exact Task.spec_step hstep
  | _ => rfl

theorem getElem?_onInstalled {name : Str} {f : Task → Task} {i : Nat} {u : Task}
    (h : (s.onInstalled name f).tasks[i]? = some u) :
    ∃ t, s.tasks[i]? = some t ∧ (u = t ∨ s.installed name = some i ∧ u = f t) := by
  unfold onInstalled at h
  cases hindex : s.installed name with
  | none =>
      rw [hindex] at h
      exact ⟨u, h, Or.inl rfl⟩
  | some index =>
      rw [hindex] at h
      simp only [List.getElem?_modify] at h
      by_cases heq : index = i
      · subst heq
        obtain ⟨t, ht, hu⟩ := Option.map_eq_some_iff.mp h
        exact ⟨t, ht, Or.inr ⟨rfl, by simpa using hu.symm⟩⟩
      · obtain ⟨t, ht, hu⟩ := Option.map_eq_some_iff.mp h
        exact ⟨t, ht, Or.inl (by simpa [heq] using hu.symm)⟩

@[simp] theorem length_onInstalled (s : Services) (name : Str) (f : Task → Task) :
    (s.onInstalled name f).tasks.length = s.tasks.length := by
  unfold onInstalled
  split
  · rfl
  · exact List.length_modify _ _ _

@[simp] theorem installed_onInstalled (s : Services) (name : Str) (f : Task → Task) :
    (s.onInstalled name f).installed = s.installed := by
  unfold onInstalled
  split <;> rfl

/-- Every task behind an event is one from before it, changed or not, or the one that was just installed. -/
theorem change_of_step (h : s.step event = some s') {i : Nat} {u : Task} (hu : s'.tasks[i]? = some u) :
    (∃ t, s.tasks[i]? = some t ∧ Change s i event t u) ∨
      ∃ spec, event = .insert spec ∧ i = s.tasks.length ∧ u = .new spec := by
  cases event with
  | remove name =>
      simp only [step, Option.some.injEq] at h
      subst h
      obtain ⟨t, ht, rfl | ⟨hindex, rfl⟩⟩ := getElem?_onInstalled hu
      · exact Or.inl ⟨u, ht, .same _ _⟩
      · exact Or.inl ⟨t, ht, .removed _ _ hindex⟩
  | insert spec =>
      simp only [step, Option.some.injEq] at h
      subst h
      rcases Nat.lt_or_ge i s.tasks.length with hlt | hge
      · simp only [insert] at hu
        rw [List.getElem?_append_left (by simpa using hlt)] at hu
        obtain ⟨t, ht, rfl | ⟨hindex, rfl⟩⟩ := getElem?_onInstalled hu
        · exact Or.inl ⟨u, ht, .same _ _⟩
        · exact Or.inl ⟨t, ht, .closed _ _ hindex⟩
      · simp only [insert] at hu
        rw [List.getElem?_append_right (by simpa using hge), length_onInstalled] at hu
        obtain ⟨hi, hget⟩ := List.getElem?_eq_some_iff.mp hu
        rw [List.length_singleton] at hi
        exact Or.inr ⟨spec, rfl, by omega, by simpa using hget.symm⟩
  | send name command =>
      simp only [step, Option.some.injEq] at h
      subst h
      obtain ⟨t, ht, rfl | ⟨hindex, rfl⟩⟩ := getElem?_onInstalled hu
      · exact Or.inl ⟨u, ht, .same _ _⟩
      · exact Or.inl ⟨t, ht, .sent _ _ _ hindex⟩
  | markBuildFailed name reason =>
      simp only [step, Option.some.injEq] at h
      subst h
      obtain ⟨t, ht, rfl | ⟨hindex, rfl⟩⟩ := getElem?_onInstalled hu
      · exact Or.inl ⟨u, ht, .same _ _⟩
      · exact Or.inl ⟨t, ht, .marked _ _ _ hindex⟩
  | shutdown =>
      simp only [step, Option.some.injEq] at h
      subst h
      simp only [shutdown, List.getElem?_mapIdx] at hu
      obtain ⟨t, ht, rfl⟩ := Option.map_eq_some_iff.mp hu
      refine Or.inl ⟨t, ht, ?_⟩
      split
      · rename_i hindex
        exact .dismissed t hindex
      · exact .same _ _
  | task index move =>
      simp only [step] at h
      split at h
      · rename_i hown
        split at h
        · cases h
        · rename_i t hstep
          cases h
          obtain ⟨old, hold, hmove⟩ := Option.bind_eq_some_iff.mp hstep
          simp only [List.getElem?_set] at hu
          split at hu
          · rename_i heq
            subst heq
            split at hu
            · cases hu
              exact Or.inl ⟨old, hold, .moved hown hmove⟩
            · cases hu
          · exact Or.inl ⟨u, hu, .same _ _⟩
      · cases h

/-- Tasks never go away. -/
theorem exists_of_step (h : s.step event = some s') {i : Nat} (hi : i < s.tasks.length) : i < s'.tasks.length := by
  cases event <;> simp only [step, Option.some.injEq] at h
  case remove | send | markBuildFailed =>
    subst h
    simpa [remove] using hi
  case insert =>
    subst h
    simp only [insert, List.length_append, length_onInstalled]
    omega
  case shutdown =>
    subst h
    simpa [shutdown] using hi
  case task index move =>
    split at h
    · split at h
      · cases h
      · cases h
        simpa using hi
    · cases h

/-- The task of an installed service is there, and is of that service. -/
def Named (s : Services) : Prop :=
  ∀ name i, s.installed name = some i → ∃ t, s.tasks[i]? = some t ∧ t.spec.name = name

theorem named_empty : empty.Named := fun _ _ h => (nomatch h)

/-- An installed service was installed before at the same place, or is the one that was just installed. -/
theorem installed_of_step (h : s.step event = some s') {name : Str} {i : Nat} (hi : s'.installed name = some i) :
    s.installed name = some i ∨ ∃ spec, event = .insert spec ∧ spec.name = name ∧ i = s.tasks.length := by
  cases event with
  | remove other =>
      simp only [step, Option.some.injEq] at h
      subst h
      simp only [remove, Function.update_apply] at hi
      split at hi
      · cases hi
      · exact Or.inl hi
  | insert spec =>
      simp only [step, Option.some.injEq] at h
      subst h
      simp only [insert, Function.update_apply] at hi
      split at hi
      · rename_i heq
        cases hi
        exact Or.inr ⟨spec, rfl, heq.symm, rfl⟩
      · exact Or.inl hi
  | send other command =>
      simp only [step, Option.some.injEq] at h
      subst h
      exact Or.inl (by simpa using hi)
  | markBuildFailed other reason =>
      simp only [step, Option.some.injEq] at h
      subst h
      exact Or.inl (by simpa using hi)
  | shutdown =>
      simp only [step, Option.some.injEq] at h
      subst h
      cases hi
  | task index move =>
      simp only [step] at h
      split at h
      · split at h
        · cases h
        · cases h
          exact Or.inl hi
      · cases h

theorem Named.step (hn : s.Named) (h : s.step event = some s') : s'.Named := by
  intro name i hi
  have hin : i < s'.tasks.length := by
    rcases installed_of_step h hi with hold | ⟨spec, rfl, -, rfl⟩
    · obtain ⟨t, ht, -⟩ := hn name i hold
      exact exists_of_step h (List.getElem?_eq_some_iff.mp ht).1
    · simp only [Services.step, Option.some.injEq] at h
      subst h
      simp [insert]
  refine ⟨s'.tasks[i], List.getElem?_eq_getElem hin, ?_⟩
  rcases change_of_step h (List.getElem?_eq_getElem hin) with ⟨t, ht, hchange⟩ | ⟨spec, rfl, hlast, hnew⟩
  · rw [hchange.spec_eq]
    rcases installed_of_step h hi with hold | ⟨spec, rfl, -, rfl⟩
    · obtain ⟨t', ht', hname⟩ := hn name i hold
      rw [ht'] at ht
      cases ht
      exact hname
    · rw [List.getElem?_eq_none (le_refl _)] at ht
      cases ht
  · rw [hnew]
    rcases installed_of_step h hi with hold | ⟨spec', heq, hname, -⟩
    · obtain ⟨t', ht', -⟩ := hn name i hold
      rw [hlast, List.getElem?_eq_none (le_refl _)] at ht'
      cases ht'
    · cases heq
      exact hname

end Services

end Selfhost.Supervisor
