import Selfhost.Desk.Lemmas.Held

/-!
# Nothing stays down

A key or a button that is down on the far machine is recorded, so that the end of the stream lifts it. The record is
taken off before the machine is asked to release, and not put back when it refuses.
-/

namespace Selfhost.Desk

open Selfhost.Lib

namespace Viewer

variable {ceilings : Ceilings} {world : World} {viewer viewer' : Viewer} {standing : Option Standing}
  {events : List Event} {switch : Switch}

/-- What is down is recorded. -/
def Recorded (viewer : Viewer) : Prop := ∀ switch, IsDown viewer.handed switch → viewer.holds switch = true

/-- What is down when the stream has ended was asked to be released. -/
def Attempted (viewer : Viewer) : Prop :=
  ∀ switch, IsDown viewer.handed switch → latest (Handed.about switch) viewer.handed = some false

/-- The machine accepts the releases a step hands over, of what is down. -/
def ReleasesLand (ceilings : Ceilings) (world : World) (viewer : Viewer) : Event → Prop
  | .receive (some .releaseAll) _ _ =>
      ∀ i message switch, viewer.releases[i]? = some message → message.switch = some (switch, false) →
        IsDown viewer.handed switch → world.sink (viewer.handed.length + i) = .accepted
  | .receive (some message) standing now =>
      Permitted ceilings viewer.machine.phase standing now → ∀ switch, message.switch = some (switch, false) →
        IsDown viewer.handed switch → world.sink viewer.handed.length = .accepted
  | _ => True

/-! ## Steps -/

theorem Recorded.same (h : Recorded viewer) (hsame : SameHands viewer viewer') : Recorded viewer' := by
  intro switch hdown
  rw [hsame.handed] at hdown
  rw [hsame.holds]
  exact h switch hdown

/-- A message that is handed over, once it was tracked. -/
theorem Recorded.hand (h : Recorded viewer) {message : Message} {gate : Option Gate}
    (hlands : ∀ switch, message.switch = some (switch, false) → IsDown viewer.handed switch →
      world.sink viewer.handed.length = .accepted) :
    Recorded ((viewer.track message).2.hand world message gate) := by
  intro switch hdown
  change IsDown ((viewer.track message).2.handed ++
    [⟨message, gate, (viewer.track message).2.answer world⟩]) switch at hdown
  have hholds : ((viewer.track message).2.hand world message gate).holds switch =
      (viewer.track message).2.holds switch := by cases switch <;> rfl
  rw [hholds, track_holds]
  rw [track_handed, IsDown, latest_concat] at hdown
  have hanswer : (viewer.track message).2.answer world = world.sink viewer.handed.length := by
    rw [answer, track_handed]
  rw [hanswer] at hdown
  cases hswitch : message.switch with
  | none =>
      have hnone : Handed.sets switch ⟨message, gate, world.sink viewer.handed.length⟩ = none := by
        simp [Handed.sets, Handed.about, hswitch]
      rw [hnone, Option.none_or] at hdown
      exact h switch hdown
  | some pair =>
      obtain ⟨moved, pressed⟩ := pair
      cases pressed with
      | true =>
          dsimp only
          by_cases hsame : moved = switch
          · simp [hsame]
          · have hnone : Handed.sets switch ⟨message, gate, world.sink viewer.handed.length⟩ = none := by
              simp [Handed.sets, Handed.about, hswitch, hsame]
            rw [hnone, Option.none_or] at hdown
            rw [h switch hdown]
            rfl
      | false =>
          dsimp only
          by_cases hsame : moved = switch
          · -- A release that was refused would leave it down; one that was accepted does not.
            subst hsame
            exfalso
            by_cases haccepted : world.sink viewer.handed.length = .accepted
            · have hsets : Handed.sets moved ⟨message, gate, world.sink viewer.handed.length⟩ = some false := by
                simp [Handed.sets, Handed.about, hswitch, haccepted]
              rw [hsets] at hdown
              cases hdown
            · have hnone : Handed.sets moved ⟨message, gate, world.sink viewer.handed.length⟩ = none := by
                simp [Handed.sets, haccepted]
              rw [hnone, Option.none_or] at hdown
              exact haccepted (hlands moved hswitch hdown)
          · have hnone : Handed.sets switch ⟨message, gate, world.sink viewer.handed.length⟩ = none := by
              simp [Handed.sets, Handed.about, hswitch, hsame]
            rw [hnone, Option.none_or] at hdown
            simp [h switch hdown, hsame]

/-- A release of what is not held is passed over. -/
theorem Recorded.track (h : Recorded viewer) {message : Message} (hpassed : (viewer.track message).1 = false) :
    Recorded (viewer.track message).2 := by
  intro switch hdown
  rw [track_handed] at hdown
  have hheld := h switch hdown
  rw [track_forward] at hpassed
  rw [track_holds]
  cases hswitch : message.switch with
  | none => exact hheld
  | some pair =>
      obtain ⟨moved, pressed⟩ := pair
      rw [hswitch] at hpassed
      cases pressed with
      | true => cases hpassed
      | false =>
          dsimp only at hpassed ⊢
          have hne : moved ≠ switch := by
            rintro rfl
            rw [hheld] at hpassed
            cases hpassed
          simp [hheld, hne]

theorem exists_release (h : viewer.holds switch = true) :
    ∃ message ∈ viewer.releases, message.switch = some (switch, false) := by
  cases switch with
  | key usage => exact ⟨.key usage false, mem_releases.mpr ⟨.key usage, h, rfl⟩, rfl⟩
  | button which => exact ⟨.button which false, mem_releases.mpr ⟨.button which, h, rfl⟩, rfl⟩

/-- Every event of a release of everything lifts something. -/
theorem about_release {event : Handed} {down : Bool}
    (hmem : event ∈ viewer.releases.mapIdx fun i message => ⟨message, none, world.sink (viewer.handed.length + i)⟩)
    (habout : event.about switch = some down) : down = false := by
  obtain ⟨i, hi, rfl⟩ := List.mem_mapIdx.mp hmem
  obtain ⟨other, -, hother⟩ := mem_releases.mp (List.getElem_mem hi)
  rw [Handed.about_eq_some, hother] at habout
  simp only [Option.some.injEq, Prod.mk.injEq] at habout
  exact habout.2.symm

/-- What is down after everything was released was down before, and its release was not accepted. -/
theorem down_of_releaseEverything (hdown : IsDown (viewer.releaseEverything world).handed switch) :
    IsDown viewer.handed switch ∧ ∀ i message, viewer.releases[i]? = some message →
      message.switch = some (switch, false) → world.sink (viewer.handed.length + i) ≠ .accepted := by
  rw [releaseEverything_handed, IsDown, latest_append] at hdown
  cases htail : latest (Handed.sets switch)
      (viewer.releases.mapIdx fun i message => ⟨message, none, world.sink (viewer.handed.length + i)⟩) with
  | some down =>
      obtain ⟨event, hmem, hsets⟩ := mem_of_latest htail
      rw [htail, about_release hmem (Handed.about_of_sets hsets)] at hdown
      cases hdown
  | none =>
      rw [htail, Option.none_or] at hdown
      refine ⟨hdown, fun i message hi hswitch haccepted => ?_⟩
      obtain ⟨hlt, hget⟩ := List.getElem?_eq_some_iff.mp hi
      have hfalse := @latest_of_mem Handed Bool (Handed.sets switch) _
        ⟨message, none, world.sink (viewer.handed.length + i)⟩ false
        (List.mem_mapIdx.mpr ⟨i, hlt, by rw [hget]⟩)
        (by simp [Handed.sets, Handed.about, haccepted, hswitch])
        (fun event hmem down hsets => about_release hmem (Handed.about_of_sets hsets))
      rw [htail] at hfalse
      cases hfalse

theorem Recorded.react (h : Recorded viewer) {event : Event} (hlands : ReleasesLand ceilings world viewer event) :
    Recorded (react ceilings world viewer event) := by
  rcases @react_cases ceilings world viewer event with hsame | ⟨standing, now, rfl, heq⟩ |
    ⟨message, standing, now, rfl, hinput, heq⟩
  · exact h.same hsame
  · rw [heq]
    intro switch hdown
    obtain ⟨hbefore, hrefused⟩ := down_of_releaseEverything hdown
    obtain ⟨message, hmem, hswitch⟩ := exists_release (h switch hbefore)
    obtain ⟨i, hi⟩ := List.mem_iff_getElem?.mp hmem
    exact absurd (hlands i message switch hi hswitch hbefore) (hrefused i message hi hswitch)
  · rw [heq]
    have hlands' : Permitted ceilings viewer.machine.phase standing now → ∀ switch,
        message.switch = some (switch, false) → IsDown viewer.handed switch →
          world.sink viewer.handed.length = .accepted := by
      cases message <;> first | exact hlands | cases hinput
    rcases @drive_cases ceilings world viewer message standing now with
      hsame | ⟨held, -, hpermitted, ⟨hpassed, hdrive⟩ | hsame⟩
    · exact h.same hsame
    · rw [hdrive]
      exact h.track hpassed
    · exact (h.hand (hlands' hpermitted)).same hsame

/-! ## Whole runs -/

/-- The end of a stream asks for the release of everything that is recorded. -/
theorem Recorded.closing (h : Recorded viewer) :
    ((closing world viewer).ending = none → Recorded (closing world viewer)) ∧
      ((closing world viewer).ending ≠ none → Attempted (closing world viewer)) := by
  unfold Viewer.closing
  cases hending : viewer.ending with
  | none => exact ⟨fun _ => h, fun hended => absurd hending hended⟩
  | some ending =>
      refine ⟨fun hgoing => ?_, fun _ switch hdown => ?_⟩
      · dsimp only at hgoing
        rw [finish_ending, hending] at hgoing
        cases hgoing
      · dsimp only at hdown ⊢
        rw [finish_handed] at hdown ⊢
        obtain ⟨message, hmem, hswitch⟩ := exists_release (h switch (down_of_releaseEverything hdown).1)
        obtain ⟨i, hi⟩ := List.mem_iff_getElem?.mp hmem
        obtain ⟨hlt, hget⟩ := List.getElem?_eq_some_iff.mp hi
        have hasked := @latest_of_mem Handed Bool (Handed.about switch)
          (viewer.releases.mapIdx fun i message => ⟨message, none, world.sink (viewer.handed.length + i)⟩)
          ⟨message, none, world.sink (viewer.handed.length + i)⟩ false
          (List.mem_mapIdx.mpr ⟨i, hlt, by rw [hget]⟩) (Handed.about_eq_some.mpr hswitch)
          (fun event hmem down habout => about_release hmem habout)
        rw [releaseEverything_handed, latest_append, hasked]
        rfl

theorem recorded_of_handed (h : viewer.handed = []) : Recorded viewer := by
  intro switch hdown
  rw [h, IsDown, latest_nil] at hdown
  cases hdown

/-- In every run in which the machine accepts the release of what is down, a key or a button that is down is recorded
for as long as the stream goes on, and its end asks for the release. -/
theorem what_is_down_is_recorded
    (hrun : Run (step ceilings world) (ReleasesLand ceilings world) (start ceilings world standing) events viewer) :
    (viewer.ending = none → ∀ switch, IsDown viewer.handed switch → viewer.holds switch = true) ∧
      (viewer.ending ≠ none → ∀ switch, IsDown viewer.handed switch →
        latest (Handed.about switch) viewer.handed = some false) := by
  refine Run.invariant (I := fun viewer =>
    (viewer.ending = none → Recorded viewer) ∧ (viewer.ending ≠ none → Attempted viewer)) hrun ?_ ?_
  · intro before event after h hlands hstep
    unfold step at hstep
    split at hstep
    · cases hstep
    · rename_i hgoing
      rw [← Option.some.inj hstep]
      exact ((h.1 (by simpa using hgoing)).react hlands).closing
  · obtain ⟨viewer, heq, hnone⟩ := @start_eq_closing ceilings world standing
    rw [heq]
    exact (recorded_of_handed hnone).closing

theorem releasesLand_of_accepting (h : ∀ n, world.sink n = .accepted) (event : Event) :
    ReleasesLand ceilings world viewer event := by
  unfold ReleasesLand
  split
  · intro i message switch _ _ _
    exact h _
  · intro _ switch _ _
    exact h _
  · trivial

/-- A key goes down, comes up, and goes down again. -/
def sampleStrokes : List Event := [sampleFrame 7, sampleKey true, sampleKey false, sampleKey true]

theorem what_is_down_is_recorded_for_a_key :
    ∃ viewer, Run (step sampleCeilings (sampleWorld 0)) (ReleasesLand sampleCeilings (sampleWorld 0))
        (start sampleCeilings (sampleWorld 0) (some sampleStanding)) sampleStrokes viewer ∧
      viewer.handed.map Handed.answer = [.accepted, .accepted, .accepted] ∧
      IsDown viewer.handed (.key ⟨4, by decide⟩) ∧ viewer.holds (.key ⟨4, by decide⟩) = true := by
  have hsteps : (exec (step sampleCeilings (sampleWorld 0)) (fun _ _ => True)
      (start sampleCeilings (sampleWorld 0) (some sampleStanding)) sampleStrokes).map (fun viewer =>
        decide (viewer.ending = none ∧ viewer.handed.map Handed.answer = [.accepted, .accepted, .accepted] ∧
          IsDown viewer.handed (.key ⟨4, by decide⟩))) = some true := by decide +kernel
  obtain ⟨viewer, hexec, hends⟩ := Option.map_eq_some_iff.mp hsteps
  obtain ⟨hgoing, hanswers, hdown⟩ := of_decide_eq_true hends
  have hrun : Run (step sampleCeilings (sampleWorld 0)) (ReleasesLand sampleCeilings (sampleWorld 0))
      (start sampleCeilings (sampleWorld 0) (some sampleStanding)) sampleStrokes viewer :=
    (Run.of_exec hexec).mono fun _ event _ => releasesLand_of_accepting (fun _ => rfl) event
  exact ⟨viewer, hrun, hanswers, hdown, (what_is_down_is_recorded hrun).1 hgoing _ hdown⟩

/-- A machine that refuses the second event it is handed. -/
def refusingWorld : World :=
  { sampleWorld 0 with sink := fun n => if n = 1 then .refused .elevatedWindow else .accepted }

/-- A release is refused: the key is down and nothing knows of it any more, also at the end. -/
theorem what_is_down_is_forgotten :
    ∃ viewer ended, Run (step sampleCeilings refusingWorld) (fun _ _ => True)
        (start sampleCeilings refusingWorld (some sampleStanding))
        [sampleFrame 7, sampleKey true, sampleKey false] viewer ∧
      viewer.ending = none ∧ IsDown viewer.handed (.key ⟨4, by decide⟩) ∧
      viewer.holds (.key ⟨4, by decide⟩) = false ∧
      step sampleCeilings refusingWorld viewer (.ends .peerClosed) = some ended ∧ ended.handed = viewer.handed := by
  have hsteps : ((step sampleCeilings refusingWorld (start sampleCeilings refusingWorld (some sampleStanding))
      (sampleFrame 7)).bind fun shown => (step sampleCeilings refusingWorld shown (sampleKey true)).bind fun pressed =>
        (step sampleCeilings refusingWorld pressed (sampleKey false)).bind fun viewer =>
          (step sampleCeilings refusingWorld viewer (.ends .peerClosed)).map fun ended =>
            decide (viewer.ending = none ∧ IsDown viewer.handed (.key ⟨4, by decide⟩) ∧
              viewer.holds (.key ⟨4, by decide⟩) = false ∧ ended.handed = viewer.handed)) = some true := by
    decide +kernel
  obtain ⟨shown, hframe, hrest⟩ := Option.bind_eq_some_iff.mp hsteps
  obtain ⟨pressed, hdown, hrest⟩ := Option.bind_eq_some_iff.mp hrest
  obtain ⟨viewer, hup, hrest⟩ := Option.bind_eq_some_iff.mp hrest
  obtain ⟨ended, hover, hends⟩ := Option.map_eq_some_iff.mp hrest
  obtain ⟨hgoing, hstuck, hgone, hhanded⟩ := of_decide_eq_true hends
  exact ⟨viewer, ended, .cons trivial hframe (.cons trivial hdown (.cons trivial hup .nil)), hgoing, hstuck, hgone,
    hover, hhanded⟩

end Viewer

end Selfhost.Desk
