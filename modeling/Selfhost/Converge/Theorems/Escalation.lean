import Selfhost.Converge.Lemmas.Ledger
import Selfhost.Converge.Loop
import Selfhost.Lib.Run

/-!
# What self-repair has given up on is reported, unless it serves in between

A component that was given up on and serves again is taken off the list at once, and stays given up on until it has
served for a while. `given_up_reported` says that the list is right as long as no such component fails again before
that; `relapse_unreported` is a run in which one does.
-/

namespace Selfhost.Converge

open Selfhost.Lib Selfhost.Supervisor

theorem reread_label (c : Component) :
    unescapeField (Identity.escapeField c.label) = c.label := by
  cases c <;> decide +kernel

theorem label_inj {c d : Component} (h : c.label = d.label) : c = d := by
  revert h
  cases c <;> cases d <;> decide

theorem reread_managed : ∀ name ∈ managedNames, unescapeField (Identity.escapeField name) = name := by
  simp only [managedNames, List.forall_mem_cons]
  refine ⟨?_, ?_, ?_, ?_, ?_, ?_, List.forall_mem_nil _⟩ <;> decide +kernel

theorem managed_ne_label (c : Component) : ∀ name ∈ managedNames, name ≠ c.label := by
  cases c <;> decide

/-- Whether a response says that nothing more is done. -/
def Response.spent : Response → Bool
  | .escalate _ | .silent => true
  | _ => false

namespace ConvergeLoop

variable {s s' : ConvergeLoop} {turn : Turn}

theorem whole_record (s : ConvergeLoop) (unix : UInt64) (name : Str) (event : Event) (detail : Str) :
    (s.record unix name event detail).ledger.Whole := Ledger.Whole.append _

theorem lists_record (h : s.ledger.Whole) (unix : UInt64) (c d : Component) (event : Event) (detail : Str) :
    (s.record unix c.label event detail).ledger.Lists d.label ↔
      if c = d then event.lists (s.ledger.Lists d.label) else s.ledger.Lists d.label := by
  have hcomponent : (⟨unix, c.label, event, detail⟩ : Entry).reread.component = c.label := reread_label c
  rw [record, Ledger.lists_append h, hcomponent]
  by_cases hcd : c = d
  · rw [if_pos hcd, if_pos (by rw [hcd])]
  · rw [if_neg hcd, if_neg fun heq => hcd (label_inj heq)]

theorem lists_drift_record (h : s.ledger.Whole) {name : Str} (hname : name ∈ managedNames) (unix : UInt64)
    (event : Event) (detail : Str) (c : Component) :
    (s.record unix name event detail).ledger.Lists c.label ↔ s.ledger.Lists c.label := by
  have hcomponent : (⟨unix, name, event, detail⟩ : Entry).reread.component = name := reread_managed name hname
  rw [record, Ledger.lists_append h, hcomponent, if_neg (managed_ne_label c name hname)]

/-! ## The list -/

/-- The latest observation of a component. -/
def lastOf (log : List Observation) (c : Component) : Option Observation := log.reverse.find? (·.component = c)

/-- What the watch of a component, its latest observation and the ledger have to do with each other. -/
structure Agrees (s : ConvergeLoop) (c : Component) : Prop where
  listed : s.ledger.Lists c.label ↔ (s.supervision c).faulted = true ∧ (s.supervision c).escalated = true
  unseen : lastOf s.log c = none → (s.supervision c).faulted = false
  seen : ∀ o, lastOf s.log c = some o → o.fault = (s.supervision c).faulted ∧
    (o.fault = true → Response.spent o.response = (s.supervision c).escalated)

structure Tells (s : ConvergeLoop) : Prop where
  whole : s.ledger.Whole
  agrees : ∀ c, s.Agrees c

/-- A component that was given up on and serves again is not seen failing. -/
def Steady (s : ConvergeLoop) : Turn → Prop
  | .drifted _ => True
  | .probed probe _ =>
      probe.serving.isFault = true → (s.supervision probe.component).escalated = true →
        (s.supervision probe.component).faulted = true

instance (s : ConvergeLoop) : (turn : Turn) → Decidable (s.Steady turn)
  | .drifted _ => instDecidableTrue
  | .probed probe _ =>
      inferInstanceAs (Decidable (probe.serving.isFault = true → (s.supervision probe.component).escalated = true →
        (s.supervision probe.component).faulted = true))

theorem lastOf_concat (log : List Observation) (o : Observation) (c : Component) :
    lastOf (log ++ [o]) c = if o.component = c then some o else lastOf log c := by
  unfold lastOf
  rw [List.reverse_append, List.reverse_singleton, List.singleton_append, List.find?_cons]
  by_cases h : o.component = c <;> simp [h]

theorem Tells.record (h : s.Tells) (unix : UInt64) {name : Str} (hname : name ∈ managedNames) (event : Event)
    (detail : Str) : (s.record unix name event detail).Tells := by
  refine ⟨whole_record .., fun c => ⟨?_, (h.agrees c).unseen, (h.agrees c).seen⟩⟩
  exact (lists_drift_record h.whole hname unix event detail c).trans (h.agrees c).listed

theorem Tells.drift (h : s.Tells) (d : Drifted) : (s.drift d).Tells := by
  have hdrift := h.record d.unix d.managed .drift ("does not match what it was installed as: ".toList ++ d.summary)
  unfold ConvergeLoop.drift
  dsimp only
  split
  · exact hdrift.record _ d.managed _ _
  · exact hdrift
  · exact hdrift.record _ d.managed _ _

theorem whole_announce (h : s.ledger.Whole) (probe : Probe) (unix : UInt64) (observed : Observed) :
    (s.announce probe unix observed).ledger.Whole := by
  unfold announce
  dsimp only
  split
  · exact whole_record ..
  · split
    · exact whole_record ..
    · exact h

theorem whole_respond (h : s.ledger.Whole) (probe : Probe) (e : Surroundings) (response : Response) :
    (s.respond probe e response).ledger.Whole := by
  cases response with
  | rest => exact h
  | silent => exact h
  | escalate after => exact whole_record ..
  | repair attempt settle => exact whole_record ..

theorem whole_handle (h : s.ledger.Whole) (probe : Probe) (e : Surroundings) : (s.handle probe e).ledger.Whole := by
  apply whole_respond
  apply whole_announce
  exact h

@[simp] theorem supervision_announce (s : ConvergeLoop) (probe : Probe) (unix : UInt64) (observed : Observed) :
    (s.announce probe unix observed).supervision = s.supervision := by
  unfold announce
  dsimp only
  split <;> split <;> rfl

@[simp] theorem log_announce (s : ConvergeLoop) (probe : Probe) (unix : UInt64) (observed : Observed) :
    (s.announce probe unix observed).log = s.log := by
  unfold announce
  dsimp only
  split <;> split <;> rfl

@[simp] theorem supervision_respond (s : ConvergeLoop) (probe : Probe) (e : Surroundings) (response : Response) :
    (s.respond probe e response).supervision = s.supervision := by
  cases response <;> rfl

@[simp] theorem log_respond (s : ConvergeLoop) (probe : Probe) (e : Surroundings) (response : Response) :
    (s.respond probe e response).log = s.log := by
  cases response <;> rfl

/-- The memory behind a probe. -/
theorem supervision_handle (s : ConvergeLoop) (probe : Probe) (e : Surroundings) :
    (s.handle probe e).supervision = Function.update s.supervision probe.component
      ((s.supervision probe.component).observe probe.serving.isFault e.now).1 := by
  simp [handle, observe]

theorem log_handle (s : ConvergeLoop) (probe : Probe) (e : Surroundings) :
    (s.handle probe e).log = s.log ++ [⟨probe.component, probe.serving.isFault, e.now,
      ((s.supervision probe.component).observe probe.serving.isFault e.now).2.response⟩] := by
  simp [handle, observe]

theorem lists_announce (h : s.ledger.Whole) (probe : Probe) (unix : UInt64) (observed : Observed) (c : Component) :
    (s.announce probe unix observed).ledger.Lists c.label ↔
      s.ledger.Lists c.label ∧ ¬(observed.recovered = true ∧ probe.component = c) := by
  unfold announce
  dsimp only
  by_cases hc : probe.component = c <;> cases hrec : observed.recovered <;> cases hnew : observed.newlyFaulted <;>
    simp [lists_record, h, whole_record, hc, Event.lists]

theorem repairEntry_event (component : Component) (attempt : UInt32) (e : Surroundings) :
    (repairEntry component attempt e).1 = .repaired ∨ (repairEntry component attempt e).1 = .stillFailing := by
  unfold repairEntry
  split
  · exact Or.inr rfl
  · split
    · exact Or.inr rfl
    · exact Or.inl rfl
    · exact Or.inr rfl

theorem lists_respond_ne (h : s.ledger.Whole) (probe : Probe) (e : Surroundings) (response : Response) {c : Component}
    (hc : probe.component ≠ c) : (s.respond probe e response).ledger.Lists c.label ↔ s.ledger.Lists c.label := by
  cases response with
  | rest => exact Iff.rfl
  | silent => exact Iff.rfl
  | escalate after => rw [respond, lists_record h, if_neg hc]
  | repair attempt settle => rw [respond, lists_record h, if_neg hc]

/-- Another component is listed as before. -/
theorem lists_handle_ne (h : s.ledger.Whole) (probe : Probe) (e : Surroundings) {c : Component}
    (hc : probe.component ≠ c) : (s.handle probe e).ledger.Lists c.label ↔ s.ledger.Lists c.label := by
  have hwhole : (s.observe probe e.now).1.ledger.Whole := h
  unfold handle
  dsimp only
  rw [lists_respond_ne (whole_announce hwhole ..) _ _ _ hc, lists_announce hwhole]
  simp only [hc, and_false, not_false_eq_true, and_true]
  exact Iff.rfl

/-- A component that serves is not listed, provided it was only listed while it failed. -/
theorem not_lists_of_serving (h : s.ledger.Whole) {probe : Probe} (hfault : probe.serving.isFault = false)
    (e : Surroundings) (hlisted : s.ledger.Lists probe.component.label → (s.supervision probe.component).faulted = true) :
    ¬(s.handle probe e).ledger.Lists probe.component.label := by
  have hwhole : (s.observe probe e.now).1.ledger.Whole := h
  have hobserved : (s.observe probe e.now).2 = ⟨.rest, false, (s.supervision probe.component).faulted⟩ := by
    simp [observe, hfault, Watch.observe]
  unfold handle
  dsimp only
  rw [hobserved, respond, lists_announce hwhole]
  rintro ⟨hold, hnot⟩
  exact hnot ⟨hlisted hold, rfl⟩

/-- The response to a fault decides whether the component is listed. -/
theorem lists_of_fault (h : s.ledger.Whole) {probe : Probe} (hfault : probe.serving.isFault = true) (e : Surroundings) :
    (s.handle probe e).ledger.Lists probe.component.label ↔
      match decide true (s.supervision probe.component).failures.consecutive
        (s.supervision probe.component).escalated with
      | .escalate _ => True
      | .repair attempt _ => s.ledger.Lists probe.component.label ∧
          (repairEntry probe.component attempt e).1 ≠ .repaired
      | _ => s.ledger.Lists probe.component.label := by
  have hwhole : (s.observe probe e.now).1.ledger.Whole := h
  have hrecovered : (s.observe probe e.now).2.recovered = false := by simp [observe, hfault, Watch.observe]
  have hresponse : (s.observe probe e.now).2.response = decide true
      (s.supervision probe.component).failures.consecutive (s.supervision probe.component).escalated := by
    simp [observe, hfault, Watch.observe]
  have hannounce : (((s.observe probe e.now).1.announce probe e.unix (s.observe probe e.now).2).ledger.Lists
      probe.component.label) ↔ s.ledger.Lists probe.component.label := by
    rw [lists_announce hwhole, hrecovered]
    simp only [Bool.false_eq_true, not_false_eq_true, and_true]
    exact Iff.rfl
  unfold handle
  dsimp only
  rw [hresponse]
  cases decide true (s.supervision probe.component).failures.consecutive
      (s.supervision probe.component).escalated with
  | rest => exact hannounce
  | silent => exact hannounce
  | escalate after => rw [respond, lists_record (whole_announce hwhole ..), if_pos rfl]; exact Iff.rfl
  | repair attempt settle =>
      rw [respond, lists_record (whole_announce hwhole ..), if_pos rfl]
      rcases repairEntry_event probe.component attempt e with hevent | hevent
      · simp [hevent, Event.lists]
      · simpa [hevent, Event.lists] using hannounce

/-- What is decided at a fault. -/
theorem decide_fault_cases (consecutive : UInt32) (escalated : Bool) :
    (escalated = true ∧ decide true consecutive escalated = .silent) ∨
      (escalated = false ∧ maxAttempts ≤ consecutive ∧ decide true consecutive escalated = .escalate consecutive) ∨
      (escalated = false ∧ ¬maxAttempts ≤ consecutive ∧
        decide true consecutive escalated = .repair (consecutive + 1) (backoff settleBase consecutive)) := by
  cases escalated with
  | true => exact Or.inl ⟨rfl, rfl⟩
  | false =>
      by_cases hspent : maxAttempts ≤ consecutive
      · exact Or.inr (Or.inl ⟨rfl, hspent, if_pos hspent⟩)
      · exact Or.inr (Or.inr ⟨rfl, hspent, if_neg hspent⟩)

/-- The watch behind a fault. -/
theorem observe_fault (w : Watch) (now : Instant) :
    (w.observe true now).1.faulted = true ∧
      (w.observe true now).1.escalated = Response.spent (decide true w.failures.consecutive w.escalated) ∧
      (w.observe true now).2.response = decide true w.failures.consecutive w.escalated := by
  unfold Watch.observe
  rcases decide_fault_cases w.failures.consecutive w.escalated with ⟨hescalated, heq⟩ | ⟨hescalated, -, heq⟩ |
    ⟨hescalated, -, heq⟩
  · rw [heq]
    exact ⟨rfl, hescalated, rfl⟩
  · rw [heq]
    exact ⟨rfl, rfl, rfl⟩
  · rw [heq]
    exact ⟨rfl, hescalated, rfl⟩

theorem observe_serving (w : Watch) (now : Instant) :
    (w.observe false now).1.faulted = false ∧ (w.observe false now).2.response = .rest := ⟨rfl, rfl⟩

theorem Agrees.handle (hwhole : s.ledger.Whole) {probe : Probe} {e : Surroundings} (h : s.Agrees probe.component)
    (hok : s.Steady (.probed probe e)) : (s.handle probe e).Agrees probe.component := by
  cases hfault : probe.serving.isFault with
  | false =>
      obtain ⟨hwatch, hresponse⟩ := observe_serving (s.supervision probe.component) e.now
      refine ⟨?_, ?_, ?_⟩
      · rw [supervision_handle, hfault, Function.update_self, hwatch]
        simpa using not_lists_of_serving hwhole hfault e fun hl => (h.listed.mp hl).1
      · rw [log_handle, lastOf_concat, if_pos rfl]
        exact fun h => (nomatch h)
      · rw [log_handle, lastOf_concat, if_pos rfl, supervision_handle, hfault, Function.update_self, hwatch]
        rintro o ⟨rfl⟩
        exact ⟨rfl, fun h => (nomatch h)⟩
  | true =>
      obtain ⟨hwatch, hescalated, hresponse⟩ := observe_fault (s.supervision probe.component) e.now
      refine ⟨?_, ?_, ?_⟩
      · rw [lists_of_fault hwhole hfault, supervision_handle, hfault, Function.update_self, hwatch, hescalated]
        rcases decide_fault_cases (s.supervision probe.component).failures.consecutive
          (s.supervision probe.component).escalated with ⟨hspent, heq⟩ | ⟨hspent, -, heq⟩ | ⟨hspent, -, heq⟩
        · have hlisted := h.listed.mpr ⟨hok hfault hspent, hspent⟩
          rw [heq]
          exact ⟨fun _ => ⟨rfl, rfl⟩, fun _ => hlisted⟩
        · rw [heq]
          exact ⟨fun _ => ⟨rfl, rfl⟩, fun _ => trivial⟩
        · have hlisted : ¬s.ledger.Lists probe.component.label := fun hl => by
            rw [(h.listed.mp hl).2] at hspent
            cases hspent
          rw [heq]
          exact ⟨fun hl => absurd hl.1 hlisted, fun hspent => (nomatch hspent.2)⟩
      · rw [log_handle, lastOf_concat, if_pos rfl]
        exact fun h => (nomatch h)
      · rw [log_handle, lastOf_concat, if_pos rfl, supervision_handle, hfault, Function.update_self, hwatch, hescalated,
          hresponse]
        rintro o ⟨rfl⟩
        exact ⟨rfl, fun _ => rfl⟩

theorem Tells.handle (h : s.Tells) (probe : Probe) (e : Surroundings) (hok : s.Steady (.probed probe e)) :
    (s.handle probe e).Tells := by
  refine ⟨whole_handle h.whole probe e, fun c => ?_⟩
  by_cases hc : probe.component = c
  · subst hc
    exact (h.agrees _).handle h.whole hok
  · obtain ⟨hlisted, hunseen, hseen⟩ := h.agrees c
    refine ⟨?_, ?_, ?_⟩
    · rw [lists_handle_ne h.whole probe e hc, supervision_handle, Function.update_of_ne (Ne.symm hc)]
      exact hlisted
    · rw [log_handle, lastOf_concat, if_neg hc, supervision_handle, Function.update_of_ne (Ne.symm hc)]
      exact hunseen
    · rw [log_handle, lastOf_concat, if_neg hc, supervision_handle, Function.update_of_ne (Ne.symm hc)]
      exact hseen

theorem Tells.step (h : s.Tells) (hok : s.Steady turn) (hstep : s.step turn = some s') : s'.Tells := by
  cases turn with
  | drifted d =>
      cases hstep
      exact h.drift d
  | probed probe e =>
      cases hstep
      exact h.handle probe e hok

end ConvergeLoop

/-! ## The budget -/

/-- The observations of one component as labels that move its watch on. -/
def Watch.follow (w : Watch) (o : Observation) : Option Watch :=
  let (w', observed) := w.observe o.fault o.now
  if observed.response = o.response then some w' else none

/-- The observations of a component. -/
def observationsOf (log : List Observation) (c : Component) : List Observation := log.filter (·.component = c)

def Response.isRepair : Response → Bool
  | .repair .. => true
  | _ => false

def repairs (l : List Observation) : Nat := l.countP fun o => Response.isRepair o.response

/-- Some observations in a row, without a fault, span the healthy window. -/
def Stretch (l : List Observation) : Prop :=
  ∃ before served behind first last, l = before ++ served ++ behind ∧ (∀ o ∈ served, o.fault = false) ∧
    served.head? = some first ∧ served.getLast? = some last ∧ healthyWindow ≤ Duration.between first.now last.now

/-- The budget after the observations `done`: either none of them was a fault, or every repair among them still
counts, and a component that serves has done so since one of them. -/
structure Spent (done : List Observation) (w : Watch) : Prop where
  bound : w.failures.consecutive ≤ maxAttempts
  counted : (∀ o ∈ done, o.fault = false) ∧ repairs done = 0 ∨
    repairs done ≤ w.failures.consecutive.toNat ∧ ∀ since, w.servingSince = some since →
      ∃ before served first, done = before ++ served ∧ (∀ o ∈ served, o.fault = false) ∧ served.head? = some first ∧
        first.now = since

theorem repairs_concat (l : List Observation) (o : Observation) :
    repairs (l ++ [o]) = repairs l + if Response.isRepair o.response then 1 else 0 := by
  simp [repairs, List.countP_append, List.countP_cons]

theorem toNat_maxAttempts : maxAttempts.toNat = 3 := rfl

/-- A fault costs one repair while the budget has one. -/
theorem observe_fault_counter {w : Watch} (hbound : w.failures.consecutive ≤ maxAttempts) (now : Instant) :
    (w.observe true now).1.failures.consecutive ≤ maxAttempts ∧ (w.observe true now).1.servingSince = none ∧
      (w.observe true now).1.failures.consecutive.toNat = w.failures.consecutive.toNat +
        if Response.isRepair (w.observe true now).2.response then 1 else 0 := by
  unfold Watch.observe decide
  cases hescalated : w.escalated
  · by_cases hspent : maxAttempts ≤ w.failures.consecutive
    · simp [hspent, Response.isRepair, hbound]
    · have hless : w.failures.consecutive.toNat < 3 := by
        rw [UInt32.not_le, UInt32.lt_iff_toNat_lt] at hspent
        exact hspent
      have hcount : (w.failures.recordRestart).consecutive.toNat = w.failures.consecutive.toNat + 1 := by
        rw [FailureCounter.recordRestart, toNat_saturatingAdd32, UInt32.toNat_one]
        exact min_eq_left (by omega)
      simp only [hspent, Bool.not_true, Bool.false_eq_true, if_false, Response.isRepair, if_true]
      refine ⟨?_, trivial, hcount⟩
      rw [UInt32.le_iff_toNat_le, hcount, toNat_maxAttempts]
      omega
  · simp [Response.isRepair, hbound]

/-- A component that serves keeps its count, unless it has served for the healthy window. -/
theorem observe_serving_counter (w : Watch) (now : Instant) :
    (w.observe false now).1.servingSince = some (w.servingSince.getD now) ∧
      (w.observe false now).1.failures =
        if healthyWindow ≤ Duration.between (w.servingSince.getD now) now then ⟨0⟩ else w.failures := ⟨rfl, rfl⟩

theorem Spent.serving {done : List Observation} {w : Watch} {o : Observation} (h : Spent done w)
    (hfault : o.fault = false) (hresponse : o.response = .rest) (hno : ¬Stretch (done ++ [o])) :
    Spent (done ++ [o]) (w.observe false o.now).1 := by
  obtain ⟨hsince, hfailures⟩ := observe_serving_counter w o.now
  have hrepairs : repairs (done ++ [o]) = repairs done := by simp [repairs_concat, hresponse, Response.isRepair]
  rcases h.counted with ⟨hall, hzero⟩ | ⟨hcount, hserved⟩
  · refine ⟨?_, Or.inl ⟨?_, hrepairs.trans hzero⟩⟩
    · rw [hfailures]
      split
      · exact UInt32.le_iff_toNat_le.mpr (Nat.zero_le _)
      · exact h.bound
    · intro o' ho'
      rcases List.mem_append.mp ho' with ho' | ho'
      · exact hall o' ho'
      · rw [List.mem_singleton.mp ho']
        exact hfault
  · -- the stretch that ends here starts among the observations, so it is too short to refill the budget
    obtain ⟨before, served, first, hsplit, hclean, hhead, hfirst⟩ : ∃ before served first,
        done ++ [o] = before ++ (served ++ [o]) ∧ (∀ o' ∈ served ++ [o], o'.fault = false) ∧
          (served ++ [o]).head? = some first ∧ first.now = w.servingSince.getD o.now := by
      cases hstart : w.servingSince with
      | none => exact ⟨done, [], o, by simp, by simpa using hfault, rfl, rfl⟩
      | some since =>
          obtain ⟨before, served, first, rfl, hclean, hhead, hfirst⟩ := hserved since hstart
          refine ⟨before, served, first, by simp, ?_, ?_, hfirst⟩
          · intro o' ho'
            rcases List.mem_append.mp ho' with ho' | ho'
            · exact hclean o' ho'
            · rw [List.mem_singleton.mp ho']
              exact hfault
          · rw [List.head?_append, hhead]
            rfl
    have hkept : (w.observe false o.now).1.failures = w.failures := by
      rw [hfailures, if_neg]
      intro hlong
      exact hno ⟨before, served ++ [o], [], first, o, by simp [hsplit], hclean, hhead, by simp, by rw [hfirst]; exact hlong⟩
    refine ⟨by rw [hkept]; exact h.bound, Or.inr ⟨by rw [hkept, hrepairs]; exact hcount, ?_⟩⟩
    intro since hsince'
    rw [hsince, Option.some.injEq] at hsince'
    exact ⟨before, served ++ [o], first, hsplit, hclean, hhead, hfirst.trans hsince'⟩

theorem Spent.fault {done : List Observation} {w : Watch} {o : Observation} (h : Spent done w)
    (hresponse : o.response = (w.observe true o.now).2.response) : Spent (done ++ [o]) (w.observe true o.now).1 := by
  obtain ⟨hbound, hsince, hcounter⟩ := observe_fault_counter h.bound o.now
  refine ⟨hbound, Or.inr ⟨?_, ?_⟩⟩
  · rw [repairs_concat, hcounter, hresponse]
    rcases h.counted with ⟨-, hzero⟩ | ⟨hcount, -⟩
    · omega
    · omega
  · rw [hsince]
    exact fun _ h => (nomatch h)

theorem Spent.follow {done : List Observation} {w w' : Watch} {o : Observation} (h : Spent done w)
    (hstep : w.follow o = some w') (hno : ¬Stretch (done ++ [o])) : Spent (done ++ [o]) w' := by
  unfold Watch.follow at hstep
  dsimp only at hstep
  split at hstep
  · rename_i hresponse
    cases hstep
    cases hfault : o.fault with
    | true =>
        rw [hfault] at hresponse
        exact h.fault hresponse.symm
    | false =>
        rw [hfault] at hresponse
        exact h.serving hfault hresponse.symm hno
  · cases hstep

theorem Stretch.append {l : List Observation} (h : Stretch l) (behind : List Observation) : Stretch (l ++ behind) := by
  obtain ⟨before, served, after, first, last, rfl, hserved, hhead, hlast, hlong⟩ := h
  exact ⟨before, served, after ++ behind, first, last, by simp, hserved, hhead, hlast, hlong⟩

theorem Spent.run {done segment : List Observation} {w w' : Watch} (h : Spent done w)
    (hrun : Run Watch.follow (fun _ _ => True) w segment w') (hno : ¬Stretch (done ++ segment)) :
    Spent (done ++ segment) w' := by
  induction segment generalizing done w with
  | nil =>
      cases hrun
      rw [List.append_nil]
      exact h
  | cons o segment ih =>
      cases hrun with
      | cons _ hstep hrest =>
          have hsplit : done ++ o :: segment = done ++ [o] ++ segment := by simp
          rw [hsplit] at hno ⊢
          exact ih (h.follow hstep fun hs => hno (hs.append segment)) hrest hno

theorem Spent.le {done : List Observation} {w : Watch} (h : Spent done w) : repairs done ≤ maxAttempts.toNat := by
  rcases h.counted with ⟨-, hzero⟩ | ⟨hcount, -⟩
  · omega
  · exact hcount.trans (UInt32.le_iff_toNat_le.mp h.bound)

/-- What the observations of a component that was given up on end with: a fault about which nothing more was done, and
the service behind it, which has never lasted for the healthy window. -/
structure Lapsed (done : List Observation) (w : Watch) : Prop where
  spent : w.failures.consecutive ≠ 0
  since : ∃ before fault served, done = before ++ fault :: served ∧
    (fault.fault = true ∧ Response.spent fault.response = true) ∧ (w.faulted = false → served ≠ []) ∧
    w.servingSince = served.head?.map Observation.now ∧
    ∀ first ∈ served.head?, ∀ o ∈ served, o.fault = false ∧ ¬healthyWindow ≤ Duration.between first.now o.now

theorem lapsed_fault {done : List Observation} {w : Watch} {o : Observation} (h : w.escalated = true → Lapsed done w)
    (hfault : o.fault = true) (hresponse : o.response = (w.observe true o.now).2.response)
    (hescalated : (w.observe true o.now).1.escalated = true) : Lapsed (done ++ [o]) (w.observe true o.now).1 := by
  obtain ⟨hfaulted, hspent, hdecided⟩ := ConvergeLoop.observe_fault w o.now
  rw [hspent, ← hdecided, ← hresponse] at hescalated
  refine ⟨?_, done, o, [], rfl, ⟨hfault, hescalated⟩, ?_, ?_, ?_⟩
  · unfold Watch.observe
    rcases ConvergeLoop.decide_fault_cases w.failures.consecutive w.escalated with ⟨hgiven, heq⟩ | ⟨-, hbudget, heq⟩ | ⟨-, -, heq⟩
    · rw [heq]
      exact (h hgiven).spent
    · rw [heq]
      have hpositive : ¬maxAttempts ≤ 0 := by decide
      exact fun hzero => hpositive (hzero ▸ hbudget)
    · rw [hresponse, hdecided, heq] at hescalated
      cases hescalated
  · intro hnot
    rw [hfaulted] at hnot
    cases hnot
  · unfold Watch.observe
    cases decide true w.failures.consecutive w.escalated <;> rfl
  · intro first hfirst
    cases hfirst

theorem Lapsed.serving {done : List Observation} {w : Watch} {o : Observation} (h : Lapsed done w)
    (hfault : o.fault = false) (hescalated : (w.observe false o.now).1.escalated = true) :
    Lapsed (done ++ [o]) (w.observe false o.now).1 := by
  obtain ⟨hsince, hfailures⟩ := observe_serving_counter w o.now
  -- had the service lasted, the flag would be off
  have hshort : ¬healthyWindow ≤ Duration.between (w.servingSince.getD o.now) o.now := by
    intro hlong
    rw [if_pos hlong] at hfailures
    have hflag : (w.observe false o.now).1.escalated =
        (w.escalated && (w.observe false o.now).1.failures.consecutive ≠ 0) := rfl
    rw [hflag, hfailures] at hescalated
    simp at hescalated
  obtain ⟨before, fault, served, hdone, hgiven, -, hstart, hserved⟩ := h.since
  rw [if_neg hshort] at hfailures
  refine ⟨by rw [hfailures]; exact h.spent, before, fault, served ++ [o], by simp [hdone], hgiven, by simp, ?_, ?_⟩
  · rw [hsince, hstart]
    cases served with
    | nil => rfl
    | cons first rest => rfl
  · intro first hfirst o' ho'
    rw [hstart] at hshort
    cases served with
    | nil =>
        cases hfirst
        rw [List.mem_singleton.mp ho']
        exact ⟨hfault, hshort⟩
    | cons start rest =>
        cases hfirst
        rcases List.mem_append.mp ho' with ho' | ho'
        · exact hserved first rfl o' ho'
        · rw [List.mem_singleton.mp ho']
          exact ⟨hfault, hshort⟩

theorem lapsed_follow {done : List Observation} {w w' : Watch} {o : Observation}
    (h : w.escalated = true → Lapsed done w) (hstep : w.follow o = some w') (hescalated : w'.escalated = true) :
    Lapsed (done ++ [o]) w' := by
  unfold Watch.follow at hstep
  dsimp only at hstep
  split at hstep
  · rename_i hresponse
    cases hstep
    cases hfault : o.fault with
    | true =>
        rw [hfault] at hresponse hescalated
        exact lapsed_fault h hfault hresponse.symm hescalated
    | false =>
        rw [hfault] at hescalated
        have hgiven : w.escalated = true := (Bool.and_eq_true_iff.mp hescalated).1
        exact (h hgiven).serving hfault hescalated
  · cases hstep

theorem lapsed_run {done segment : List Observation} {w w' : Watch} (h : w.escalated = true → Lapsed done w)
    (hrun : Run Watch.follow (fun _ _ => True) w segment w') (hescalated : w'.escalated = true) :
    Lapsed (done ++ segment) w' := by
  induction segment generalizing done w with
  | nil =>
      cases hrun
      rw [List.append_nil]
      exact h hescalated
  | cons o segment ih =>
      cases hrun with
      | cons _ hstep hrest =>
          have hsplit : done ++ o :: segment = done ++ [o] ++ segment := by simp
          rw [hsplit]
          exact ih (lapsed_follow h hstep) hrest

/-! ## Runs of the loop -/

namespace ConvergeLoop

variable {s s' : ConvergeLoop} {turn : Turn}

/-- The watch of a component is what its observations made of it. -/
def Follows (s : ConvergeLoop) : Prop :=
  ∀ c, Run Watch.follow (fun _ _ => True) .default (observationsOf s.log c) (s.supervision c)

theorem follows_drift (h : s.Follows) (d : Drifted) : (s.drift d).Follows := by
  have hlog : (s.drift d).log = s.log ∧ (s.drift d).supervision = s.supervision := by
    unfold drift
    dsimp only
    split <;> exact ⟨rfl, rfl⟩
  intro c
  rw [hlog.1, hlog.2]
  exact h c

theorem follows_handle (h : s.Follows) (probe : Probe) (e : Surroundings) : (s.handle probe e).Follows := by
  intro c
  rw [log_handle, supervision_handle, observationsOf, List.filter_append]
  by_cases hc : probe.component = c
  · subst hc
    rw [Function.update_self, List.filter_cons_of_pos (by simp), List.filter_nil]
    refine (h probe.component).append (.cons trivial ?_ .nil)
    simp [Watch.follow]
  · rw [Function.update_of_ne (Ne.symm hc), List.filter_cons_of_neg (by simpa using hc), List.filter_nil, List.append_nil]
    exact h c

theorem Follows.step (h : s.Follows) (hstep : s.step turn = some s') : s'.Follows := by
  cases turn with
  | drifted d =>
      cases hstep
      exact follows_drift h d
  | probed probe e =>
      cases hstep
      exact follows_handle h probe e

theorem follows_run {ledger : Ledger} {turns : List Turn} {ok : ConvergeLoop → Turn → Prop}
    (hrun : Run step ok (new ledger) turns s) : s.Follows := by
  apply hrun.invariant (I := Follows)
  · intro v turn v' h _ hstep
    exact h.step hstep
  · exact fun c => .nil

/-- A component that is given up on and serves has done so since a fault about which nothing more was done, and has
never served for the healthy window: what `Steady` rules out is a relapse before that. -/
theorem lapsed_of_escalated {ledger : Ledger} {turns : List Turn} {ok : ConvergeLoop → Turn → Prop}
    (hrun : Run step ok (new ledger) turns s) {c : Component} (hescalated : (s.supervision c).escalated = true)
    (hserving : (s.supervision c).faulted = false) :
    ∃ before fault first rest, observationsOf s.log c = before ++ fault :: first :: rest ∧ fault.fault = true ∧
      Response.spent fault.response = true ∧
      ∀ o ∈ first :: rest, o.fault = false ∧ ¬healthyWindow ≤ Duration.between first.now o.now := by
  have hstart : Watch.default.escalated = true → Lapsed [] Watch.default := fun h => by cases h
  have hlapsed := lapsed_run hstart (follows_run hrun c) hescalated
  obtain ⟨before, fault, served, hlog, hgiven, hsome, -, hshort⟩ := hlapsed.since
  obtain ⟨first, rest, rfl⟩ := List.exists_cons_of_ne_nil (hsome hserving)
  exact ⟨before, fault, first, rest, hlog, hgiven.1, hgiven.2, hshort first rfl⟩

end ConvergeLoop

end Selfhost.Converge
