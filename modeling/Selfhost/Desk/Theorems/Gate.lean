import Selfhost.Desk.Relay
import Selfhost.Desk.Lemmas.Held

/-!
# Who may drive

Input reaches the far machine only while it is allowed, the session stands with the right to control, and the desktop is
live. What is released without asking was pressed under these conditions.
-/

namespace Selfhost.Desk

open Selfhost.Lib

/-! ## The gate -/

/-- The conditions on input. -/
structure Gate.Open (ceilings : Ceilings) (gate : Gate) : Prop where
  allowed : ceilings.allowInput = true
  control : Capabilities.contains ⟨ceilings.granted.bits &&& gate.standing.capabilities.bits⟩ .control = true
  unexpired : gate.now < gate.standing.expires
  live : gate.phase = .live

theorem contains_control_of_effective {granted standing : Capabilities}
    (h : (effective granted standing).contains .control = true) :
    Capabilities.contains ⟨granted.bits &&& standing.bits⟩ .control = true := by
  unfold effective Capabilities.fromBits at h
  split at h
  · cases h
  · split at h
    · cases h
    · exact h

theorem inputRefusal_eq_none {live : Capabilities} {allowInput : Bool} {phase : Phase}
    (h : inputRefusal live allowInput phase = none) :
    allowInput = true ∧ live.contains .control = true ∧ phase = .live := by
  unfold inputRefusal at h
  split at h
  · cases h
  · rename_i hallowed
    split at h
    · cases h
    · rename_i hcontrol
      split at h
      · exact ⟨by simpa using hallowed, by simpa using hcontrol, rfl⟩
      · cases h
      · cases h

theorem standingNow_ok {granted live : Capabilities} {held : Standing} {now : Instant}
    (h : standingNow granted (some held) now = .ok live) :
    now < held.expires ∧ live = effective granted held.capabilities := by
  unfold standingNow at h
  dsimp only at h
  split at h
  · cases h
  · rename_i hexpires
    split at h
    · cases h
    · cases h
      exact ⟨Nat.lt_of_not_le hexpires, rfl⟩

theorem Viewer.Permitted.gate_open {ceilings : Ceilings} {phase : Phase} {held : Standing} {now : Instant}
    (h : Viewer.Permitted ceilings phase (some held) now) : Gate.Open ceilings ⟨held, now, phase⟩ := by
  obtain ⟨live, hstanding, hrefusal⟩ := h
  obtain ⟨hexpires, rfl⟩ := standingNow_ok hstanding
  obtain ⟨hallowed, hcontrol, hlive⟩ := inputRefusal_eq_none hrefusal
  exact ⟨hallowed, contains_control_of_effective hcontrol, hexpires, hlive⟩

/-! ## The viewer -/

/-- An event was handed over with the gate open, or it releases what was last pressed. -/
def Handed.Founded (ceilings : Ceilings) (before : List Handed) (event : Handed) : Prop :=
  match event.gate with
  | some gate => gate.Open ceilings
  | none => ∃ switch, event.message.switch = some (switch, false) ∧ latest (Handed.about switch) before = some true

namespace Viewer

variable {ceilings : Ceilings} {world : World} {viewer viewer' : Viewer} {standing : Option Standing}
  {events : List Event} {switch : Switch}

/-- What is recorded was last pressed, and every event had its reason. -/
structure Guarded (ceilings : Ceilings) (viewer : Viewer) : Prop where
  pressed : ∀ switch, viewer.holds switch = true → latest (Handed.about switch) viewer.handed = some true
  founded : Grounded (Handed.Founded ceilings) viewer.handed

theorem Guarded.same (h : Guarded ceilings viewer) (hsame : SameHands viewer viewer') : Guarded ceilings viewer' where
  pressed switch hholds := by
    rw [hsame.handed]
    rw [hsame.holds] at hholds
    exact h.pressed switch hholds
  founded := by
    rw [hsame.handed]
    exact h.founded

theorem Guarded.track (h : Guarded ceilings viewer) {message : Message} (hpassed : (viewer.track message).1 = false) :
    Guarded ceilings (viewer.track message).2 where
  pressed switch hholds := by
    rw [track_handed]
    refine h.pressed switch ?_
    rw [track_forward] at hpassed
    rw [track_holds] at hholds
    cases hswitch : message.switch with
    | none =>
        rw [hswitch] at hholds
        exact hholds
    | some pair =>
        obtain ⟨moved, pressed⟩ := pair
        rw [hswitch] at hholds hpassed
        cases pressed with
        | true => cases hpassed
        | false => exact (Bool.and_eq_true_iff.mp hholds).1
  founded := by
    rw [track_handed]
    exact h.founded

theorem Guarded.hand (h : Guarded ceilings viewer) {message : Message} {gate : Gate} (hopen : gate.Open ceilings) :
    Guarded ceilings ((viewer.track message).2.hand world message (some gate)) where
  pressed switch hholds := by
    have hsame : ((viewer.track message).2.hand world message (some gate)).holds switch =
        (viewer.track message).2.holds switch := by cases switch <;> rfl
    rw [hsame, track_holds] at hholds
    change latest _ ((viewer.track message).2.handed ++ [_]) = _
    rw [track_handed, latest_concat]
    cases hswitch : message.switch with
    | none =>
        rw [hswitch] at hholds
        simp [Handed.about, hswitch, h.pressed switch hholds]
    | some pair =>
        obtain ⟨moved, pressed⟩ := pair
        rw [hswitch] at hholds
        by_cases hmoved : moved = switch
        · cases pressed with
          | true => simp [Handed.about, hswitch, hmoved]
          | false => simp [hmoved] at hholds
        · have hheld : viewer.holds switch = true := by
            cases pressed <;> simpa [hmoved] using hholds
          simp [Handed.about, hswitch, hmoved, h.pressed switch hheld]
  founded := by
    change Grounded _ ((viewer.track message).2.handed ++ [_])
    rw [track_handed]
    exact h.founded.concat hopen

/-- Different releases lift different switches. -/
theorem nodup_releases (viewer : Viewer) : (viewer.releases.map Message.switch).Nodup := by
  unfold releases
  rw [List.map_append, List.map_map, List.map_map, List.nodup_append]
  refine ⟨?_, ?_, ?_⟩
  · refine List.Nodup.map ?_ ((List.nodup_finRange keyCount).filter _)
    intro a b hab
    simpa [Message.switch] using hab
  · refine List.Nodup.map ?_ (List.Nodup.filter _ (by decide))
    intro a b hab
    simpa [Message.switch] using hab
  · intro a ha b hb hab
    obtain ⟨usage, -, rfl⟩ := List.mem_map.mp ha
    obtain ⟨button, -, rfl⟩ := List.mem_map.mp hb
    simp [Message.switch] at hab

/-- Releases of what was last pressed, one after the other. -/
theorem grounded_foldl_lift {messages : List Message} (h : Grounded (Handed.Founded ceilings) viewer.handed)
    (hnodup : (messages.map Message.switch).Nodup)
    (hpressed : ∀ message ∈ messages, ∃ switch, message.switch = some (switch, false) ∧
      latest (Handed.about switch) viewer.handed = some true) :
    Grounded (Handed.Founded ceilings) (messages.foldl (lift world) viewer).handed := by
  induction messages generalizing viewer with
  | nil => exact h
  | cons message rest ih =>
      rw [List.foldl_cons]
      rw [List.map_cons, List.nodup_cons] at hnodup
      refine ih (h.concat (hpressed message List.mem_cons_self)) hnodup.2 ?_
      intro other hmem
      obtain ⟨switch, hswitch, hlatest⟩ := hpressed other (List.mem_cons_of_mem _ hmem)
      refine ⟨switch, hswitch, ?_⟩
      have hapart : Handed.about switch ⟨message, none, viewer.answer world⟩ = none := by
        cases habout : Handed.about switch ⟨message, none, viewer.answer world⟩ with
        | none => rfl
        | some down =>
            obtain ⟨first, hfirst, -⟩ := hpressed message List.mem_cons_self
            have hsame := Handed.about_eq_some.mp habout
            rw [hfirst] at hsame
            simp only [Option.some.injEq, Prod.mk.injEq] at hsame
            rw [hsame.1] at hfirst
            exact absurd (List.mem_map.mpr ⟨other, hmem, hswitch.trans hfirst.symm⟩) hnodup.1
      change latest _ (viewer.handed ++ [_]) = _
      rw [latest_concat, hapart, Option.none_or]
      exact hlatest

theorem Guarded.releaseEverything (h : Guarded ceilings viewer) :
    Guarded ceilings (viewer.releaseEverything world) where
  pressed switch hholds := by
    rw [releaseEverything_holds] at hholds
    cases hholds
  founded := by
    refine @grounded_foldl_lift ceilings world _ viewer.releases h.founded viewer.nodup_releases ?_
    intro message hmem
    obtain ⟨switch, hholds, hswitch⟩ := mem_releases.mp hmem
    exact ⟨switch, hswitch, h.pressed switch hholds⟩

theorem Guarded.react (h : Guarded ceilings viewer) (event : Event) :
    Guarded ceilings (react ceilings world viewer event) := by
  rcases @react_cases ceilings world viewer event with hsame | ⟨standing, now, -, heq⟩ |
    ⟨message, standing, now, -, -, heq⟩
  · exact h.same hsame
  · rw [heq]
    exact h.releaseEverything
  · rw [heq]
    rcases @drive_cases ceilings world viewer message standing now with
      hsame | ⟨held, rfl, hpermitted, ⟨hpassed, hdrive⟩ | hsame⟩
    · exact h.same hsame
    · rw [hdrive]
      exact h.track hpassed
    · exact (h.hand hpermitted.gate_open).same hsame

theorem Guarded.closing (h : Guarded ceilings viewer) : Guarded ceilings (closing world viewer) := by
  unfold Viewer.closing
  cases viewer.ending with
  | none => exact h
  | some ending =>
      dsimp only
      have hsame : SameHands (viewer.releaseEverything world) (viewer.finish world ending) := by
        unfold finish
        dsimp only
        split
        · split <;> exact ⟨rfl, rfl, rfl⟩
        · exact ⟨rfl, rfl, rfl⟩
      exact h.releaseEverything.same hsame

theorem guarded_new (live : Capabilities) : Guarded ceilings (new ceilings live) where
  pressed switch hholds := by
    cases switch with
    | key usage => simp [holds, new] at hholds
    | button which => simp [holds, new] at hholds
  founded := grounded_nil

theorem guarded_start : Guarded ceilings (start ceilings world standing) := by
  have hstopped : ∀ ending, Guarded ceilings ((new ceilings .none).stop ending) :=
    fun ending => (guarded_new .none).same ⟨rfl, rfl, rfl⟩
  unfold start
  cases standing with
  | none => exact (hstopped _).closing
  | some held =>
      dsimp only
      split
      · exact (hstopped _).closing
      · exact ((guarded_new _).same (Drew.write .hello).sameHands).closing

theorem guarded_of_run {ok : Viewer → Event → Prop}
    (hrun : Run (step ceilings world) ok (start ceilings world standing) events viewer) : Guarded ceilings viewer := by
  refine Run.invariant (I := Guarded ceilings) hrun ?_ guarded_start
  intro before event after h _ hstep
  unfold step at hstep
  split at hstep
  · cases hstep
  · rw [← Option.some.inj hstep]
    exact (h.react event).closing

end Viewer

/-! ## The relay -/

namespace Relay

variable {ceilings : Ceilings} {world : RelayWorld} {relay relay' : Relay} {standing : Option Standing}
  {events : List Event}

/-- Every input that was handed to the agent found the gate open. -/
def Guarded (ceilings : Ceilings) (relay : Relay) : Prop :=
  ∀ event ∈ relay.handed, event.message.isInput = true → ∃ gate, event.gate = some gate ∧ gate.Open ceilings

theorem Guarded.same (h : Guarded ceilings relay) (hsame : relay'.handed = relay.handed) : Guarded ceilings relay' := by
  unfold Guarded
  rw [hsame]
  exact h

theorem write_handed (output : Output) : (relay.write world output).handed = relay.handed := by
  unfold write
  split <;> rfl

theorem Guarded.write (h : Guarded ceilings relay) (output : Output) : Guarded ceilings (relay.write world output) :=
  h.same (write_handed output)

theorem Guarded.andThen (h : Guarded ceilings relay) {next : Relay → Relay}
    (hnext : Guarded ceilings relay → Guarded ceilings (next relay)) : Guarded ceilings (relay.andThen next) := by
  unfold Relay.andThen
  split
  · exact h
  · exact hnext h

/-- A message that is no input, or that found the gate open. -/
theorem Guarded.deliver (h : Guarded ceilings relay) {message : Message} {gate : Option Gate}
    (hopen : message.isInput = true → ∃ open_, gate = some open_ ∧ open_.Open ceilings) :
    Guarded ceilings (relay.deliver world message gate) := by
  intro event hmem hinput
  rcases List.mem_append.mp hmem with hmem | hmem
  · exact h event hmem hinput
  · rw [List.mem_singleton.mp hmem] at hinput ⊢
    exact hopen hinput

theorem Guarded.tell (h : Guarded ceilings relay) {message : Message} (hother : message.isInput = false) :
    Guarded ceilings (relay.deliver world message none) := by
  refine h.deliver fun hinput => ?_
  rw [hother] at hinput
  cases hinput

theorem Guarded.offer (h : Guarded ceilings relay) {message : Message} (hother : message.isInput = false) :
    Guarded ceilings (relay.offer world message) := by
  unfold Relay.offer
  dsimp only
  split
  · exact (h.tell hother).same rfl
  · exact h.tell hother

theorem Guarded.flushCredit (h : Guarded ceilings relay) : Guarded ceilings (relay.flushCredit world) := by
  unfold Relay.flushCredit
  split
  · exact h
  · have hspent : Guarded ceilings { relay with uncredited := 0 } := h.same rfl
    exact hspent.offer rfl

theorem Guarded.credit (h : Guarded ceilings relay) (written : Nat) :
    Guarded ceilings (relay.credit world written) := by
  unfold Relay.credit
  dsimp only
  split
  · exact h.same rfl
  · exact Guarded.flushCredit (h.same rfl)

theorem Guarded.forward (h : Guarded ceilings relay) (bytes : Bytes) :
    Guarded ceilings (relay.forward world bytes) := by
  unfold Relay.forward
  split
  · exact h
  · split
    · exact h.same rfl
    · split
      · exact h
      · exact h.write _

theorem Guarded.present (h : Guarded ceilings relay) (arrived : Option Bytes) :
    Guarded ceilings (relay.present world arrived) := by
  cases arrived with
  | none => exact h.flushCredit
  | some bytes =>
      have hshown : Guarded ceilings (if relay.machine.phase = .live ∧ relay.live.contains .view = true then
          relay.forward world bytes else relay) := by
        split
        · exact h.forward bytes
        · exact h
      exact hshown.andThen fun h => h.credit bytes.length

theorem Guarded.turn (h : Guarded ceilings relay) (now : Instant) (observation : Observation)
    (arrived : Option Bytes) : Guarded ceilings (relay.turn world now observation arrived) := by
  unfold Relay.turn
  generalize relay.machine.observe observation now = result
  obtain ⟨machine, step⟩ := result
  dsimp only
  have htold : Guarded ceilings { relay with machine := machine } := h.same rfl
  have hannounced : Guarded ceilings ({ relay with machine := machine }.announce world step.notice) := by
    unfold Relay.announce
    split
    · exact htold.write _
    · exact htold
  refine (hannounced.andThen fun h => h.present arrived).andThen fun h => ?_
  unfold Relay.act
  split
  all_goals first | exact h.same rfl | (split <;> exact h.same rfl)

theorem Guarded.pump (h : Guarded ceilings relay) (upstream : Upstream) (now : Instant) :
    Guarded ceilings (relay.pump world upstream now) := by
  unfold Relay.pump
  split
  · split
    · exact h.same rfl
    · exact h.turn now _ none
    · have hrestored : Guarded ceilings
          ({ relay with pendingRestore := false }.deliver world (.requestFullFrame 0) none) :=
        Guarded.tell (h.same rfl) rfl
      exact hrestored.turn now _ none
  · split
    · exact h.turn now _ none
    · exact h.turn now _ _
    · exact h.turn now _ none

theorem Guarded.drive (h : Guarded ceilings relay) (message : Message) (standing : Option Standing) (now : Instant) :
    Guarded ceilings (relay.drive ceilings world message standing now) := by
  unfold Relay.drive
  cases hlive : standingNow ceilings.granted standing now with
  | error ending => exact h.same rfl
  | ok live =>
      dsimp only
      cases hrefusal : inputRefusal live ceilings.allowInput relay.machine.phase with
      | some reason => exact h.write _
      | none =>
          cases standing with
          | none => cases hlive
          | some held =>
              have hopen := Viewer.Permitted.gate_open ⟨live, hlive, hrefusal⟩
              have hdelivered : Guarded ceilings
                  (relay.deliver world message (some ⟨held, now, relay.machine.phase⟩)) :=
                h.deliver fun _ => ⟨_, rfl, hopen⟩
              simp only [Option.map_some]
              split
              · exact hdelivered.same rfl
              · exact hdelivered
              · exact hdelivered.write _

theorem Guarded.react (h : Guarded ceilings relay) (event : Event) :
    Guarded ceilings (react ceilings world relay event) := by
  cases event with
  | pump upstream now => exact h.pump upstream now
  | ends ending => exact h.same rfl
  | revalidate standing now =>
      simp only [Relay.react, Relay.revalidate]
      split <;> exact h.same rfl
  | receive message standing now =>
      cases message with
      | none => exact h.same rfl
      | some message =>
          cases message with
          | releaseAll => exact h.tell rfl
          | requestFullFrame monitor => exact h.tell rfl
          | credit bytes => exact h
          | key | text | pointerMove | button | scroll => exact h.drive _ standing now
          | _ => exact h.same rfl

theorem Guarded.closing (h : Guarded ceilings relay) : Guarded ceilings (closing world relay) := by
  unfold Relay.closing
  cases relay.ending with
  | none => exact h
  | some ending =>
      have htold : Guarded ceilings (relay.deliver world .releaseAll none) := h.tell rfl
      dsimp only
      unfold Relay.finish
      dsimp only
      split
      · split
        · exact htold.same rfl
        · exact htold
      · exact htold

theorem guarded_start : Guarded ceilings (start ceilings world standing) := by
  have hnew : ∀ live, Guarded ceilings (new ceilings live) := fun live event hmem => (nomatch hmem)
  unfold start
  cases standing with
  | none => exact Guarded.closing ((hnew .none).same rfl)
  | some held =>
      dsimp only
      split
      · exact Guarded.closing ((hnew .none).same rfl)
      · refine Guarded.closing (((hnew _).write _).andThen fun h => ?_)
        unfold Relay.openUpstream
        exact (h.offer rfl).andThen fun h => h.offer rfl

theorem guarded_of_run {ok : Relay → Event → Prop}
    (hrun : Run (step ceilings world) ok (start ceilings world standing) events relay) : Guarded ceilings relay := by
  refine Run.invariant (I := Guarded ceilings) hrun ?_ guarded_start
  intro before event after h _ hstep
  unfold step at hstep
  split at hstep
  · cases hstep
  · rw [← Option.some.inj hstep]
    exact (h.react event).closing

end Relay

/-! ## Whole runs -/

/-- Every event a viewer hands to the machine found the gate open when it was handed over, or is the release, by a
request to release everything or by the end of the stream, of what was last pressed so. Every input a relay hands to its
agent found the gate open. -/
theorem input_finds_the_gate_open (ceilings : Ceilings) (standing : Option Standing) :
    (∀ world events viewer,
      Run (Viewer.step ceilings world) (fun _ _ => True) (Viewer.start ceilings world standing) events viewer →
      ∀ before event after, viewer.handed = before ++ event :: after →
        match event.gate with
        | some gate => gate.Open ceilings
        | none => ∃ switch, event.message.switch = some (switch, false) ∧
            latest (Handed.about switch) before = some true) ∧
    ∀ world events relay,
      Run (Relay.step ceilings world) (fun _ _ => True) (Relay.start ceilings world standing) events relay →
      ∀ event ∈ relay.handed, event.message.isInput = true → ∃ gate, event.gate = some gate ∧ gate.Open ceilings :=
  ⟨fun _ _ _ hrun => (Viewer.guarded_of_run hrun).founded, fun _ _ _ hrun => Relay.guarded_of_run hrun⟩

theorem input_finds_the_gate_open_for_a_key :
    ∃ viewer gate, Run (Viewer.step Viewer.sampleCeilings (Viewer.sampleWorld 0)) (fun _ _ => True)
        (Viewer.start Viewer.sampleCeilings (Viewer.sampleWorld 0) (some Viewer.sampleStanding))
        [Viewer.sampleFrame 7, Viewer.sampleKey true] viewer ∧
      viewer.handed = [⟨.key ⟨4, by decide⟩ true, some gate, .accepted⟩] ∧ gate.Open Viewer.sampleCeilings := by
  have hsteps : ((Viewer.step Viewer.sampleCeilings (Viewer.sampleWorld 0)
      (Viewer.start Viewer.sampleCeilings (Viewer.sampleWorld 0) (some Viewer.sampleStanding))
        (Viewer.sampleFrame 7)).bind fun shown =>
          (Viewer.step Viewer.sampleCeilings (Viewer.sampleWorld 0) shown (Viewer.sampleKey true)).map
            Viewer.handed) =
      some [⟨.key ⟨4, by decide⟩ true, some ⟨Viewer.sampleStanding, 1, .live⟩, .accepted⟩] := by decide +kernel
  obtain ⟨shown, hframe, hlast⟩ := Option.bind_eq_some_iff.mp hsteps
  obtain ⟨viewer, hkey, hhanded⟩ := Option.map_eq_some_iff.mp hlast
  have hrun : Run (Viewer.step Viewer.sampleCeilings (Viewer.sampleWorld 0)) (fun _ _ => True)
      (Viewer.start Viewer.sampleCeilings (Viewer.sampleWorld 0) (some Viewer.sampleStanding))
      [Viewer.sampleFrame 7, Viewer.sampleKey true] viewer := .cons trivial hframe (.cons trivial hkey .nil)
  exact ⟨viewer, _, hrun, hhanded, (input_finds_the_gate_open _ _).1 _ _ _ hrun [] _ [] hhanded⟩

/-- The right to control is revoked and the session is over, and a request to release everything still lifts a key. -/
theorem release_needs_no_gate :
    ∃ viewer after : Viewer, ∃ revoked : Standing,
      Run (Viewer.step Viewer.sampleCeilings (Viewer.sampleWorld 0)) (fun _ _ => True)
        (Viewer.start Viewer.sampleCeilings (Viewer.sampleWorld 0) (some Viewer.sampleStanding))
        [Viewer.sampleFrame 7, Viewer.sampleKey true] viewer ∧
      Viewer.step Viewer.sampleCeilings (Viewer.sampleWorld 0) viewer
        (.receive (some .releaseAll) (some revoked) 200) = some after ∧
      after.handed = viewer.handed ++ [⟨.key ⟨4, by decide⟩ false, none, .accepted⟩] ∧
      ¬ Capabilities.contains ⟨Viewer.sampleCeilings.granted.bits &&& revoked.capabilities.bits⟩ .control = true ∧
      revoked.expires ≤ 200 := by
  have hsteps : ((Viewer.step Viewer.sampleCeilings (Viewer.sampleWorld 0)
      (Viewer.start Viewer.sampleCeilings (Viewer.sampleWorld 0) (some Viewer.sampleStanding))
        (Viewer.sampleFrame 7)).bind fun shown =>
          (Viewer.step Viewer.sampleCeilings (Viewer.sampleWorld 0) shown (Viewer.sampleKey true)).bind fun viewer =>
            (Viewer.step Viewer.sampleCeilings (Viewer.sampleWorld 0) viewer
              (.receive (some .releaseAll) (some ⟨100, .view⟩) 200)).map fun after =>
                decide (after.handed = viewer.handed ++ [⟨.key ⟨4, by decide⟩ false, none, .accepted⟩])) =
      some true := by decide +kernel
  obtain ⟨shown, hframe, hrest⟩ := Option.bind_eq_some_iff.mp hsteps
  obtain ⟨viewer, hkey, hrest⟩ := Option.bind_eq_some_iff.mp hrest
  obtain ⟨after, hrelease, hends⟩ := Option.map_eq_some_iff.mp hrest
  exact ⟨viewer, after, ⟨100, .view⟩, .cons trivial hframe (.cons trivial hkey .nil), hrelease,
    of_decide_eq_true hends, by decide, by decide⟩

end Selfhost.Desk
