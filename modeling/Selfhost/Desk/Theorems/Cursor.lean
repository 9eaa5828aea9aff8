import Selfhost.Lib.Run
import Selfhost.Desk.Lemmas.Strokes
import Selfhost.Desk.Lemmas.Drawing

/-!
# The shape of the pointer

A client keeps the last shape it was sent. The viewer sends a bitmap when its cache does not hold the shape it observes.
-/

namespace Selfhost.Desk

open Selfhost.Lib

/-- The shape a message brings. -/
def Message.shapeOf : Message → Option ShapeId
  | .cursorShape id _ => some id
  | _ => none

theorem Message.shapeOf_of_free {message : Message} (h : message.encodedLen = 0) : message.shapeOf = none := by
  cases message with
  | cursorShape id shape =>
      rw [encodedLen] at h
      omega
  | _ => rfl

namespace Viewer

/-- The pointer there was to see. -/
def PointerReading.seen (reading : PointerReading) : Option Pointer :=
  match reading.pointer with
  | .given pointer => pointer
  | .elapsed => none

/-- The bitmap that is read for a shape can be sent. -/
def PointerReading.usable (reading : PointerReading) (id : ShapeId) : Bool :=
  match reading.shape with
  | .given (some shape) => (cursorMessage id shape).isSome
  | _ => false

variable {ceilings : Ceilings} {world : World} {viewer viewer' : Viewer} {event : Event} {pointer : Pointer}
  {reading : PointerReading}

/-- The shape a client shows that keeps the last one it was sent. -/
def shows (viewer : Viewer) : Option ShapeId := latest Message.shapeOf viewer.sent

/-- The viewer after the machine was told and the client heard of it. -/
def told (world : World) (now : Instant) (observation : Observation) (viewer : Viewer) : Viewer :=
  { viewer with machine := (viewer.machine.observe observation now).1 }.announce world
    (viewer.machine.observe observation now).2.notice

/-- The viewer as it is when it looks at the pointer, where an event brings it to that. -/
def atPointer (ceilings : Ceilings) (world : World) (viewer : Viewer) : Event → Option (Viewer × PointerReading)
  | .pump source now =>
      match viewer.pendingRestore, source.next with
      | none, .given (.ok frame) =>
          let told := viewer.told world now .frame
          let drawn := told.sendFrame ceilings world frame
          if told.ending = none ∧ (told.machine.phase = .live ∧ told.live.contains .view = true) ∧
              drawn.ending = none then
            some (drawn, source.pointer)
          else none
      | _, _ => none
  | _ => none

/-- The pointer that is observed. -/
def observed (ceilings : Ceilings) (world : World) (viewer : Viewer) (event : Event) : Option Pointer :=
  (viewer.atPointer ceilings world event).bind fun looked => looked.2.seen

/-- There is credit when the pointer is looked at. -/
def Credited (ceilings : Ceilings) (world : World) (viewer : Viewer) (event : Event) : Prop :=
  ∀ looked ∈ viewer.atPointer ceilings world event, looked.1.affordable world ≠ 0

instance (event : Event) : Decidable (viewer.Credited ceilings world event) :=
  inferInstanceAs (Decidable (∀ looked ∈ viewer.atPointer ceilings world event, looked.1.affordable world ≠ 0))

/-- The viewer has not sent this shape, as far as its cache goes. -/
def Unsent (cache : ShapeCache) (id : ShapeId) : Prop := cache.capacity = 0 ∨ id ∉ cache.recent

instance (cache : ShapeCache) (id : ShapeId) : Decidable (Unsent cache id) := inferInstanceAs (Decidable (_ ∨ _))

/-- The client shows the shape that is observed, or it has to be sent and can be. -/
def Telling (ceilings : Ceilings) (world : World) (viewer : Viewer) (event : Event) : Prop :=
  ∀ looked ∈ viewer.atPointer ceilings world event, ∀ pointer ∈ looked.2.seen,
    viewer.shows = some pointer.shape ∨
      (Unsent viewer.cursor.cache pointer.shape ∧ looked.2.usable pointer.shape = true)

instance (event : Event) : Decidable (viewer.Telling ceilings world event) :=
  inferInstanceAs (Decidable (∀ looked ∈ viewer.atPointer ceilings world event, ∀ pointer ∈ looked.2.seen,
    viewer.shows = some pointer.shape ∨
      (Unsent viewer.cursor.cache pointer.shape ∧ looked.2.usable pointer.shape = true)))

/-! ## What does not touch the shape -/

theorem shows_plain (h : Plain viewer viewer') : viewer'.shows = viewer.shows := by
  obtain ⟨messages, hsent, hfree⟩ := h.sent
  have hnone : latest Message.shapeOf messages = none := by
    unfold latest
    rw [List.filterMap_eq_nil_iff.mpr fun message hmem => Message.shapeOf_of_free (hfree message hmem)]
    rfl
  rw [shows, hsent, latest_append, hnone, Option.none_or, shows]

theorem shows_andThen {next : Viewer → Viewer} (h : (next viewer).shows = viewer.shows) :
    (viewer.andThen next).shows = viewer.shows := by
  unfold andThen
  split
  · rfl
  · exact h

theorem shows_write {message : Message} (h : message.shapeOf = none) :
    (viewer.write world message).shows = viewer.shows := by
  unfold write
  split
  · rw [shows, latest_concat, h, Option.none_or, shows]
  · rfl

theorem shows_spend {spent : Nat} : (viewer.spend spent).shows = viewer.shows := by
  rw [shows, spend_sent, shows]

theorem shows_draws (h : Draws world viewer viewer') : viewer'.shows = viewer.shows := by
  induction h with
  | refl => rfl
  | tail _ hstroke ih =>
      rw [← ih]
      cases hstroke with
      | note => rfl
      | frameBegin | frameEnd => exact shows_write rfl
      | tile => exact (shows_andThen shows_spend).trans (shows_write rfl)

theorem cursor_draws (h : Draws world viewer viewer') : viewer'.cursor = viewer.cursor := by
  have hwrite : ∀ (viewer : Viewer) (message : Message), (viewer.write world message).cursor = viewer.cursor := by
    intro viewer message
    unfold write
    split <;> rfl
  induction h with
  | refl => rfl
  | tail _ hstroke ih =>
      rw [← ih]
      cases hstroke with
      | note => rfl
      | frameBegin | frameEnd => exact hwrite _ _
      | tile =>
          unfold andThen
          split
          · exact hwrite _ _
          · unfold spend
            split <;> exact hwrite _ _

/-! ## The pointer -/

/-- Messages that did not end the stream all went out. -/
theorem writeAll_running {messages : List Message} (h : (viewer.writeAll world messages).ending = none) :
    (viewer.writeAll world messages).sent = viewer.sent ++ messages := by
  have hended : ∀ (messages : List Message) (viewer : Viewer), (viewer.writeAll world messages).ending = none →
      viewer.ending = none := by
    intro messages
    induction messages with
    | nil => exact fun _ h => h
    | cons message rest ih =>
        intro viewer h
        exact (running_of_andThen (ih _ h)).1
  induction messages generalizing viewer with
  | nil => exact (List.append_nil _).symm
  | cons message rest ih =>
      have hfirst := hended rest _ h
      obtain ⟨-, hwritten, heq⟩ := running_of_andThen hfirst
      obtain ⟨hwrite, -, hspent⟩ := running_of_andThen hwritten
      have hsent : (viewer.andThen fun viewer =>
          (viewer.write world message).andThen (spend message.encodedLen)).sent = viewer.sent ++ [message] := by
        rw [heq, hspent, spend_sent, write_running hwrite]
      refine (ih h).trans ?_
      rw [hsent, List.append_assoc]
      rfl

theorem observe_fst (cache : ShapeCache) (id : ShapeId) : (cache.observe id).1 = true ↔ Unsent cache id := by
  unfold ShapeCache.observe Unsent
  split
  · rename_i hzero
    exact iff_of_true rfl (.inl hzero)
  · rename_i hzero
    split
    · rename_i hheld
      refine iff_of_false Bool.false_ne_true ?_
      rintro (h | h)
      · exact hzero h
      · exact h (List.contains_iff_mem.mp hheld)
    · rename_i hheld
      exact iff_of_true rfl (.inr fun hmem => hheld (List.contains_iff_mem.mpr hmem))

theorem shapeOf_cursorMessage {id : ShapeId} {shape : PointerShape} {message : Message}
    (h : cursorMessage id shape = some message) : message.shapeOf = some id := by
  unfold cursorMessage at h
  split at h
  · cases h
  · split at h
    · cases h
    · split at h
      · cases h
      · cases h
        rfl

/-- The shapes that go out with an observation. -/
theorem latest_shapeMessages {id : ShapeId} {shapes : List Message}
    (h : shapeMessages reading (some id) = some shapes) :
    latest Message.shapeOf shapes = if reading.usable id then some id else none := by
  unfold shapeMessages at h
  unfold PointerReading.usable
  dsimp only at h
  cases hshape : reading.shape with
  | elapsed =>
      rw [hshape] at h
      cases h
  | given shape =>
      rw [hshape] at h
      cases h
      cases shape with
      | none => rfl
      | some bitmap =>
          have hlatest : latest Message.shapeOf (cursorMessage id bitmap).toList =
              if (cursorMessage id bitmap).isSome then some id else none := by
            cases hmessage : cursorMessage id bitmap with
            | none => rfl
            | some message =>
                unfold latest
                rw [Option.toList_some, List.filterMap_cons_some (shapeOf_cursorMessage hmessage)]
                rfl
          exact hlatest

theorem observe_shape (policy : CursorPolicy) (pointer : Pointer) :
    (policy.observe pointer).1.shape =
      if (policy.cache.observe pointer.shape).1 then some pointer.shape else none := rfl

/-- What follows on an observation. -/
def emit (world : World) (reading : PointerReading) (emission : Emission) (viewer : Viewer) : Viewer :=
  if emission.position.isNone && emission.shape.isNone then viewer
  else
    match shapeMessages reading emission.shape with
    | none => viewer.stop .deadline
    | some shapes =>
        let messages := shapes ++ emission.position.toList.map fun p => Message.cursorPos p.x p.y p.visible
        if viewer.affordable world = 0 then { viewer.read with cursor := viewer.cursor.forget }
        else viewer.read.writeAll world messages

theorem sendPointer_eq (hpointer : reading.seen = some pointer) :
    viewer.sendPointer world reading =
      { viewer with cursor := (viewer.cursor.observe pointer).2 }.emit world reading
        (viewer.cursor.observe pointer).1 := by
  unfold PointerReading.seen at hpointer
  split at hpointer
  · rename_i found hfound
    rw [sendPointer, hfound, hpointer]
    rfl
  · cases hpointer

/-- With credit, the bitmap goes out that was asked for and that there is. -/
theorem shows_emit {emission : Emission} (hcredit : viewer.affordable world ≠ 0)
    (hrun : (viewer.emit world reading emission).ending = none) :
    (viewer.emit world reading emission).shows = (emission.shape.filter reading.usable).or viewer.shows := by
  have hposition : ∀ position : Option Pointer, latest Message.shapeOf
      (position.toList.map fun p => Message.cursorPos p.x p.y p.visible) = none := by
    intro position
    cases position <;> rfl
  unfold emit at hrun ⊢
  by_cases hnone : (emission.position.isNone && emission.shape.isNone) = true
  · rw [if_pos hnone] at hrun ⊢
    rw [Bool.and_eq_true, Option.isNone_iff_eq_none] at hnone
    rw [Option.isNone_iff_eq_none.mp hnone.2]
    rfl
  · rw [if_neg hnone] at hrun ⊢
    cases hshapes : shapeMessages reading emission.shape with
    | none =>
        rw [hshapes] at hrun
        cases hrun
    | some shapes =>
        rw [hshapes] at hrun
        dsimp only at hrun ⊢
        rw [if_neg hcredit] at hrun ⊢
        have hshows : (writeAll world (shapes ++ emission.position.toList.map fun p =>
            Message.cursorPos p.x p.y p.visible) viewer.read).shows =
              (latest Message.shapeOf shapes).or viewer.shows := by
          rw [shows, writeAll_running hrun, latest_append, latest_append, hposition, Option.none_or]
          rfl
        rw [hshows]
        cases hid : emission.shape with
        | none =>
            rw [hid] at hshapes
            cases hshapes
            rfl
        | some id =>
            rw [hid] at hshapes
            rw [latest_shapeMessages hshapes, Option.filter_some]

/-- With credit, the client shows the shape that is observed when it did so before, or when the cache does not hold it
and there is a bitmap. -/
theorem shows_sendPointer_iff (hpointer : reading.seen = some pointer) (hcredit : viewer.affordable world ≠ 0)
    (hrun : (viewer.sendPointer world reading).ending = none) :
    (viewer.sendPointer world reading).shows = some pointer.shape ↔
      viewer.shows = some pointer.shape ∨
        (Unsent viewer.cursor.cache pointer.shape ∧ reading.usable pointer.shape = true) := by
  have hneeds := observe_fst viewer.cursor.cache pointer.shape
  have hopen : { viewer with cursor := (viewer.cursor.observe pointer).2 }.affordable world ≠ 0 := hcredit
  rw [sendPointer_eq hpointer] at hrun ⊢
  rw [shows_emit hopen hrun, observe_shape]
  by_cases hunsent : Unsent viewer.cursor.cache pointer.shape
  · rw [if_pos (hneeds.mpr hunsent), Option.filter_some]
    by_cases husable : reading.usable pointer.shape = true
    · rw [if_pos husable]
      exact iff_of_true rfl (.inr ⟨hunsent, husable⟩)
    · rw [if_neg husable]
      exact ⟨.inl, fun h => h.resolve_right fun hboth => husable hboth.2⟩
  · rw [if_neg fun h => hunsent (hneeds.mp h)]
    exact ⟨.inl, fun h => h.resolve_right fun hboth => hunsent hboth.1⟩

/-! ## Steps -/

section Turns

variable {now : Instant} {observation : Observation} {captured : Option CapturedFrame} {source : Source}

theorem turn_eq : viewer.turn ceilings world source now observation captured =
    ((viewer.told world now observation).andThen (present ceilings world source.pointer captured)).andThen
      (act (viewer.machine.observe observation now).2.action) := rfl

theorem told_machine : (viewer.told world now observation).machine = (viewer.machine.observe observation now).1 :=
  (Drew.announce _).machine

theorem shows_told : (viewer.told world now observation).shows = viewer.shows := by
  have hplain : Plain { viewer with machine := (viewer.machine.observe observation now).1 }
      (viewer.told world now observation) := .announce _
  have hshows := shows_plain hplain
  exact hshows

theorem cursor_told : (viewer.told world now observation).cursor = viewer.cursor := by
  unfold told announce write
  split
  · split <;> rfl
  · rfl

/-- A turn shows the shape its presentation shows. -/
theorem shows_turn (h : (viewer.told world now observation).ending = none →
    ((viewer.told world now observation).present ceilings world source.pointer captured).shows = viewer.shows) :
    (viewer.turn ceilings world source now observation captured).shows = viewer.shows := by
  rw [turn_eq, shows_andThen (shows_plain (.act _))]
  unfold andThen
  split
  · exact shows_told
  · rename_i hending
    exact h (by simpa using hending)

theorem shows_turn_none : (viewer.turn ceilings world source now observation none).shows = viewer.shows := by
  refine shows_turn fun _ => ?_
  unfold present
  split
  · exact (shows_draws draws_flushOwed).trans shows_told
  · exact shows_told

end Turns

/-- What a turn does that looks at the pointer. -/
theorem react_of_atPointer {drawn : Viewer} (h : viewer.atPointer ceilings world event = some (drawn, reading)) :
    drawn.shows = viewer.shows ∧ drawn.cursor = viewer.cursor ∧ drawn.ending = none ∧
      viewer.react ceilings world event = (drawn.sendPointer world reading).andThen (act .capture) := by
  cases event with
  | pump source now =>
      unfold atPointer at h
      dsimp only at h
      split at h
      · rename_i frame hrestore hnext
        split at h
        · rename_i hlooked
          obtain ⟨htold, hlive, hdrawn⟩ := hlooked
          cases h
          have hcapture : (viewer.machine.observe .frame now).2.action = .capture :=
            Session.capture_of_observe (by rw [← told_machine]; exact hlive.1)
          refine ⟨(shows_draws (draws_sendFrame frame)).trans shows_told,
            (cursor_draws (draws_sendFrame frame)).trans cursor_told, hdrawn, ?_⟩
          rw [react, pump, hrestore, hnext]
          dsimp only
          rw [turn_eq, hcapture, andThen_of_none htold, present, if_pos hlive, andThen_of_none hdrawn]
        · cases h
      · cases h
  | receive | revalidate | ends => cases h

/-- Without an observation the client shows what it showed. -/
theorem shows_react_of_none (h : viewer.observed ceilings world event = none) :
    (viewer.react ceilings world event).shows = viewer.shows := by
  cases event with
  | ends ending => rfl
  | revalidate standing now => exact shows_plain plain_revalidate
  | receive message standing now =>
      cases hgrant : (Event.receive message standing now).grant with
      | none => exact shows_plain (plain_receive hgrant)
      | some bytes =>
          obtain ⟨_, _, hevent⟩ := grant_eq_some hgrant
          cases hevent
          rfl
  | pump source now =>
      cases hlooked : viewer.atPointer ceilings world (.pump source now) with
      | some looked =>
          obtain ⟨drawn, reading⟩ := looked
          obtain ⟨hshows, -, -, heq⟩ := react_of_atPointer hlooked
          rw [heq, shows_andThen (shows_plain (.act _)), ← hshows]
          rw [observed, hlooked, Option.bind_some, PointerReading.seen] at h
          unfold sendPointer
          split
          · rfl
          · rfl
          · rename_i pointer hpointer
            rw [hpointer] at h
            cases h
      | none =>
          unfold atPointer at hlooked
          unfold react pump
          dsimp only at hlooked ⊢
          cases hrestore : viewer.pendingRestore with
          | some restore =>
              dsimp only
              split
              · rfl
              · exact shows_turn_none
              · exact shows_turn_none
          | none =>
              rw [hrestore] at hlooked
              dsimp only at hlooked ⊢
              split
              · exact shows_turn_none
              · rename_i frame hnext
                rw [hnext] at hlooked
                dsimp only at hlooked
                refine shows_turn fun htold => ?_
                unfold present
                split
                · rename_i hlive
                  dsimp only
                  have hended :
                      ((viewer.told world now .frame).sendFrame ceilings world frame).ending.isSome = true := by
                    rw [Option.isSome_iff_ne_none]
                    intro hdrawn
                    rw [if_pos ⟨htold, hlive, hdrawn⟩] at hlooked
                    cases hlooked
                  rw [andThen_of_some hended]
                  exact (shows_draws (draws_sendFrame frame)).trans shows_told
                · exact shows_told
              · exact shows_turn_none

theorem act_capture : viewer.act .capture = viewer := rfl

/-- With credit, an observation that the stream outlives is shown where the client showed its shape before, or where
the shape has to be sent and can be; and nowhere else. -/
theorem shows_step_iff (hstep : viewer.step ceilings world event = some viewer') (hrun : viewer'.ending = none)
    (hobserved : viewer.observed ceilings world event = some pointer) (hcredit : Credited ceilings world viewer event) :
    viewer'.shows = some pointer.shape ↔ Telling ceilings world viewer event := by
  obtain ⟨⟨drawn, reading⟩, hlooked, hpointer⟩ := Option.bind_eq_some_iff.mp hobserved
  obtain ⟨hshows, hcursor, -, heq⟩ := react_of_atPointer hlooked
  obtain ⟨-, hreact⟩ := step_running hstep hrun
  rw [← hreact, heq] at hrun ⊢
  obtain ⟨hpointed, -, hacted⟩ := running_of_andThen hrun
  rw [hacted, act_capture, shows_sendPointer_iff hpointer (hcredit _ hlooked) hpointed, hshows, hcursor]
  constructor
  · intro h looked hmem other hother
    rw [hlooked] at hmem
    cases hmem
    rw [hpointer] at hother
    cases hother
    exact h
  · intro h
    exact h _ hlooked pointer hpointer

end Viewer

/-! ## Whole runs -/

/-- A viewer beside the pointer it last observed. -/
structure Watched where
  viewer : Viewer
  last : Option Pointer

namespace Watched

def step (ceilings : Ceilings) (world : World) (watched : Watched) (event : Viewer.Event) : Option Watched :=
  (watched.viewer.step ceilings world event).map fun viewer =>
    ⟨viewer, (watched.viewer.observed ceilings world event).or watched.last⟩

def start (ceilings : Ceilings) (world : World) (standing : Option Standing) : Watched :=
  ⟨.start ceilings world standing, none⟩

/-- The client of a stream that goes on shows the shape of the last observation. -/
def Agrees (watched : Watched) : Prop :=
  watched.viewer.ending = none → ∀ pointer, watched.last = some pointer → watched.viewer.shows = some pointer.shape

/-- Every observation is made with credit, and tells the client its shape. -/
def Told (ceilings : Ceilings) (world : World) (watched : Watched) (event : Viewer.Event) : Prop :=
  watched.viewer.Credited ceilings world event ∧ watched.viewer.Telling ceilings world event

variable {ceilings : Ceilings} {world : World} {watched watched' : Watched} {event : Viewer.Event}

instance : DecidableRel (Told ceilings world) := fun _ _ => inferInstanceAs (Decidable (_ ∧ _))

theorem Agrees.step (h : Agrees watched) (htold : Told ceilings world watched event)
    (hstep : watched.step ceilings world event = some watched') : Agrees watched' := by
  obtain ⟨viewer, hviewer, rfl⟩ := Option.map_eq_some_iff.mp hstep
  intro hrun pointer hlast
  dsimp only at hrun hlast ⊢
  cases hobserved : watched.viewer.observed ceilings world event with
  | some seen =>
      rw [hobserved] at hlast
      cases hlast
      exact (Viewer.shows_step_iff hviewer hrun hobserved htold.1).mpr htold.2
  | none =>
      obtain ⟨hbefore, hreact⟩ := Viewer.step_running hviewer hrun
      rw [hobserved, Option.none_or] at hlast
      rw [← hreact, Viewer.shows_react_of_none hobserved]
      exact h hbefore pointer hlast

end Watched

/-- In every run in which each observation is made with credit and finds its shape shown, or out of the cache with a
bitmap to send, the client shows the shape of the last observation. And an observation that is made with credit, in any
state, is shown exactly under this condition. -/
theorem client_shows_the_pointer_iff (ceilings : Ceilings) (world : World) (standing : Option Standing) :
    (∀ events watched, Run (Watched.step ceilings world) (Watched.Told ceilings world)
        (.start ceilings world standing) events watched → watched.Agrees) ∧
      ∀ viewer event viewer' pointer, Viewer.step ceilings world viewer event = some viewer' → viewer'.ending = none →
        viewer.observed ceilings world event = some pointer → viewer.Credited ceilings world event →
        (viewer'.shows = some pointer.shape ↔ viewer.Telling ceilings world event) := by
  refine ⟨?_, fun _ _ _ _ hstep hrun hobserved hcredit => Viewer.shows_step_iff hstep hrun hobserved hcredit⟩
  intro events watched hrun
  exact hrun.invariant (fun _ _ _ h htold hstep => h.step htold hstep) (fun _ _ h => nomatch h)

section Samples

open Viewer (sampleCeilings sampleStanding steadyWorld sampleDot)

/-- A display of one pixel, and the pointer with a bitmap of one pixel. -/
def sampleShape (id : ShapeId) : Viewer.Event :=
  .pump ⟨.elapsed, .given (.ok ⟨0, sampleDot⟩),
    ⟨.given (some ⟨0, 0, true, id⟩), .given (some ⟨0, 0, 1, 1, [1, 2, 3, 4]⟩)⟩⟩ 0

theorem client_shows_the_pointer_twice :
    ∃ watched, Run (Watched.step sampleCeilings steadyWorld) (Watched.Told sampleCeilings steadyWorld)
        (.start sampleCeilings steadyWorld (some sampleStanding)) [sampleShape 5, sampleShape 6] watched ∧
      watched.viewer.ending = none ∧ watched.last = some ⟨0, 0, true, 6⟩ ∧ watched.viewer.shows = some 6 := by
  have hexec : (exec (Watched.step sampleCeilings steadyWorld) (Watched.Told sampleCeilings steadyWorld)
      (.start sampleCeilings steadyWorld (some sampleStanding)) [sampleShape 5, sampleShape 6]).map
        (fun watched => (watched.viewer.ending, watched.last)) = some (none, some ⟨0, 0, true, 6⟩) := by decide +kernel
  obtain ⟨watched, hwatched, hends⟩ := Option.map_eq_some_iff.mp hexec
  injection hends with hending hlast
  have hrun := Run.of_exec hwatched
  exact ⟨watched, hrun, hending, hlast, (client_shows_the_pointer_iff _ _ _).1 _ _ hrun hending _ hlast⟩

/-- The pointer returns to a shape that is still in the cache, and the client goes on showing the other one. -/
theorem returning_shape_is_not_shown :
    ∃ watched, Run (Watched.step sampleCeilings steadyWorld)
        (fun watched event => watched.viewer.Credited sampleCeilings steadyWorld event)
        (.start sampleCeilings steadyWorld (some sampleStanding))
        [sampleShape 5, sampleShape 6, sampleShape 5] watched ∧
      watched.viewer.ending = none ∧ watched.last = some ⟨0, 0, true, 5⟩ ∧ watched.viewer.shows = some 6 := by
  have hexec : (exec (Watched.step sampleCeilings steadyWorld)
      (fun watched event => watched.viewer.Credited sampleCeilings steadyWorld event)
      (.start sampleCeilings steadyWorld (some sampleStanding))
      [sampleShape 5, sampleShape 6, sampleShape 5]).map
        (fun watched => (watched.viewer.ending, watched.last, watched.viewer.shows)) =
          some (none, some ⟨0, 0, true, 5⟩, some 6) := by decide +kernel
  obtain ⟨watched, hwatched, hends⟩ := Option.map_eq_some_iff.mp hexec
  injection hends with hending hrest
  injection hrest with hlast hshows
  exact ⟨watched, Run.of_exec hwatched, hending, hlast, hshows⟩

end Samples

end Selfhost.Desk
