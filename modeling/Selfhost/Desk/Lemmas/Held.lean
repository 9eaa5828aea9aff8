import Selfhost.Lib.Run
import Selfhost.Desk.Lemmas.Drawing

/-!
# What is held down

A key or a button is down on the far machine from a press it accepted to a release it accepted. The viewer keeps its
own record, which follows what it handed over, whatever the answer was.
-/

namespace Selfhost.Desk

open Selfhost.Lib

/-! ## Keys and buttons as one -/

inductive Switch where
  | key (usage : Usage)
  | button (button : Button)
  deriving DecidableEq

/-- What a message presses, or lifts. -/
def Message.switch : Message → Option (Switch × Bool)
  | .key usage down => some (.key usage, down)
  | .button which down => some (.button which, down)
  | _ => none

/-- What an event says of a switch. -/
def Handed.about (switch : Switch) (event : Handed) : Option Bool :=
  match event.message.switch with
  | some (other, down) => if other = switch then some down else none
  | none => none

/-- What an event that was accepted does to a switch. -/
def Handed.sets (switch : Switch) (event : Handed) : Option Bool :=
  if event.answer = .accepted then event.about switch else none

/-- The last press that was accepted is behind the last release that was. -/
def IsDown (handed : List Handed) (switch : Switch) : Prop := latest (Handed.sets switch) handed = some true

instance (handed : List Handed) (switch : Switch) : Decidable (IsDown handed switch) :=
  inferInstanceAs (Decidable (_ = _))

theorem Handed.about_of_sets {switch : Switch} {event : Handed} {down : Bool} (h : event.sets switch = some down) :
    event.about switch = some down := by
  unfold sets at h
  split at h
  · exact h
  · cases h

theorem Handed.about_eq_some {switch : Switch} {event : Handed} {down : Bool} :
    event.about switch = some down ↔ event.message.switch = some (switch, down) := by
  unfold about
  cases event.message.switch with
  | none => simp
  | some pair =>
      obtain ⟨other, pressed⟩ := pair
      by_cases h : other = switch <;> simp [h]

namespace Viewer

variable {ceilings : Ceilings} {world : World} {viewer viewer' : Viewer} {switch other : Switch} {message : Message}

/-- The viewer's record of a switch. -/
def holds (viewer : Viewer) : Switch → Bool
  | .key usage => viewer.held.isHeld usage
  | .button button => viewer.buttons.isHeld button

theorem SameHands.holds (h : SameHands viewer viewer') (switch : Switch) :
    viewer'.holds switch = viewer.holds switch := by
  cases switch with
  | key usage => rw [Viewer.holds, h.held]; rfl
  | button button => rw [Viewer.holds, h.buttons]; rfl

/-! ## Tracking -/

/-- How a message changes what is held. -/
theorem track_holds : (viewer.track message).2.holds other =
    match message.switch with
    | some (switch, true) => viewer.holds other || decide (switch = other)
    | some (switch, false) => viewer.holds other && decide (switch ≠ other)
    | none => viewer.holds other := by
  cases message with
  | key usage down =>
      cases down <;> cases other <;>
        simp [track, holds, Message.switch, HeldKeys.isHeld_press, HeldKeys.isHeld_release]
  | button button down =>
      cases down <;> cases other <;>
        simp [track, holds, Message.switch, HeldButtons.isHeld_press, HeldButtons.isHeld_release]
  | _ => rfl

/-- Only a release of what is not held is not forwarded. -/
theorem track_forward : (viewer.track message).1 =
    match message.switch with
    | some (switch, false) => viewer.holds switch
    | _ => true := by
  cases message with
  | key usage down => cases down <;> rfl
  | button button down => cases down <;> rfl
  | _ => rfl

@[simp] theorem track_handed : (viewer.track message).2.handed = viewer.handed := by
  unfold track
  split <;> rfl

@[simp] theorem track_machine : (viewer.track message).2.machine = viewer.machine := by
  unfold track
  split <;> rfl

/-! ## Releasing everything -/

/-- The releases of what is held. -/
def releases (viewer : Viewer) : List Message :=
  (viewer.held.drain.1.map fun usage => Message.key usage false) ++
    viewer.buttons.drain.1.map fun button => Message.button button false

theorem mem_releases : message ∈ viewer.releases ↔
    ∃ switch, viewer.holds switch = true ∧ message.switch = some (switch, false) := by
  unfold releases
  simp only [List.mem_append, List.mem_map, HeldKeys.mem_drain, HeldButtons.mem_drain]
  constructor
  · rintro (⟨usage, hheld, rfl⟩ | ⟨button, hheld, rfl⟩)
    · exact ⟨.key usage, hheld, rfl⟩
    · exact ⟨.button button, hheld, rfl⟩
  · rintro ⟨switch, hheld, hmessage⟩
    cases message with
    | key usage down =>
        simp only [Message.switch, Option.some.injEq, Prod.mk.injEq] at hmessage
        obtain ⟨rfl, rfl⟩ := hmessage
        exact .inl ⟨usage, hheld, rfl⟩
    | button button down =>
        simp only [Message.switch, Option.some.injEq, Prod.mk.injEq] at hmessage
        obtain ⟨rfl, rfl⟩ := hmessage
        exact .inr ⟨button, hheld, rfl⟩
    | _ => cases hmessage

theorem foldl_lift_handed (messages : List Message) : (messages.foldl (lift world) viewer).handed =
    viewer.handed ++ messages.mapIdx fun i message => ⟨message, none, world.sink (viewer.handed.length + i)⟩ := by
  induction messages generalizing viewer with
  | nil => simp
  | cons message rest ih =>
      rw [List.foldl_cons, ih]
      simp [lift, hand, answer, List.mapIdx_cons, Nat.add_assoc, Nat.add_comm 1]

theorem releaseEverything_handed : (viewer.releaseEverything world).handed =
    viewer.handed ++
      viewer.releases.mapIdx fun i message => ⟨message, none, world.sink (viewer.handed.length + i)⟩ :=
  foldl_lift_handed viewer.releases

theorem foldl_lift_holds (messages : List Message) : (messages.foldl (lift world) viewer).holds switch =
    viewer.holds switch := by
  induction messages generalizing viewer with
  | nil => rfl
  | cons message rest ih =>
      rw [List.foldl_cons, ih]
      cases switch <;> rfl

/-- Nothing is held when everything was released. -/
theorem releaseEverything_holds : (viewer.releaseEverything world).holds switch = false := by
  refine (foldl_lift_holds viewer.releases).trans ?_
  cases switch with
  | key usage => exact HeldKeys.isHeld_new
  | button button => exact HeldButtons.isHeld_none

/-! ## What a step hands over -/

/-- The client's input passes: the session stands, and nothing refuses it. -/
def Permitted (ceilings : Ceilings) (phase : Phase) (standing : Option Standing) (now : Instant) : Prop :=
  ∃ live, standingNow ceilings.granted standing now = .ok live ∧ inputRefusal live ceilings.allowInput phase = none

/-- An input message is handed over where it is permitted, unless it releases what is not held. -/
theorem drive_cases (standing : Option Standing) (now : Instant) :
    SameHands viewer (viewer.drive ceilings world message standing now) ∨
      ∃ held, standing = some held ∧ Permitted ceilings viewer.machine.phase standing now ∧
        (((viewer.track message).1 = false ∧
            viewer.drive ceilings world message standing now = (viewer.track message).2) ∨
          SameHands ((viewer.track message).2.hand world message (some ⟨held, now, viewer.machine.phase⟩))
            (viewer.drive ceilings world message standing now)) := by
  unfold drive
  cases hlive : standingNow ceilings.granted standing now with
  | error ending => exact .inl ⟨rfl, rfl, rfl⟩
  | ok live =>
      dsimp only
      cases hrefusal : inputRefusal live ceilings.allowInput viewer.machine.phase with
      | some reason => exact .inl (Drew.write _).sameHands
      | none =>
          have hphase := @track_machine viewer message
          cases standing with
          | none => cases hlive
          | some held =>
              refine .inr ⟨held, rfl, ⟨live, hlive, hrefusal⟩, ?_⟩
              generalize viewer.track message = result at hphase ⊢
              obtain ⟨forward, tracked⟩ := result
              dsimp only at hphase ⊢
              cases forward with
              | false => exact .inl ⟨rfl, rfl⟩
              | true =>
                  rw [← hphase]
                  refine .inr ?_
                  simp only [Bool.not_true, Bool.false_eq_true, if_false, Option.map_some]
                  split
                  · exact ⟨rfl, rfl, rfl⟩
                  · exact ⟨rfl, rfl, rfl⟩
                  · exact (Drew.write _).sameHands

/-- The hands move for a request to release everything and for input, and for nothing else. -/
theorem react_cases (event : Event) :
    SameHands viewer (react ceilings world viewer event) ∨
      (∃ standing now, event = .receive (some .releaseAll) standing now ∧
        react ceilings world viewer event = viewer.releaseEverything world) ∨
      ∃ message standing now, event = .receive (some message) standing now ∧ message.isInput = true ∧
        react ceilings world viewer event = viewer.drive ceilings world message standing now := by
  cases event with
  | pump source now => exact .inl (.pump source now)
  | ends ending => exact .inl ⟨rfl, rfl, rfl⟩
  | revalidate standing now =>
      simp only [react, Viewer.revalidate]
      split <;> exact .inl ⟨rfl, rfl, rfl⟩
  | receive message standing now =>
      cases message with
      | none => exact .inl ⟨rfl, rfl, rfl⟩
      | some message =>
          cases message with
          | releaseAll => exact .inr (.inl ⟨standing, now, rfl, rfl⟩)
          | key | text | pointerMove | button | scroll => exact .inr (.inr ⟨_, standing, now, rfl, rfl, rfl⟩)
          | _ => exact .inl ⟨rfl, rfl, rfl⟩

/-! ## Beginning and end -/

theorem finish_handed (ending : Ending) :
    (viewer.finish world ending).handed = (viewer.releaseEverything world).handed := by
  unfold finish
  dsimp only
  split
  · split <;> rfl
  · rfl

theorem start_eq_closing {standing : Option Standing} :
    ∃ viewer, start ceilings world standing = closing world viewer ∧ viewer.handed = [] := by
  unfold start
  cases standing with
  | none => exact ⟨_, rfl, rfl⟩
  | some held =>
      dsimp only
      split
      · exact ⟨_, rfl, rfl⟩
      · exact ⟨_, rfl, (Drew.write .hello).handed⟩

end Viewer

end Selfhost.Desk
