import Selfhost.Desk.Lemmas.Picture

/-!
# What drawing leaves alone

Whatever is sent to the client, the session, what is held down and what was handed to the machine stay as they are.
-/

namespace Selfhost.Desk

open Selfhost.Lib

namespace Viewer

variable {ceilings : Ceilings} {world : World} {viewer viewer' viewer'' : Viewer}

/-- Only the picture, the window and what was sent may differ. -/
structure Drew (viewer viewer' : Viewer) : Prop where
  machine : viewer'.machine = viewer.machine
  pendingRestore : viewer'.pendingRestore = viewer.pendingRestore
  live : viewer'.live = viewer.live
  held : viewer'.held = viewer.held
  buttons : viewer'.buttons = viewer.buttons
  handed : viewer'.handed = viewer.handed

namespace Drew

theorem refl (viewer : Viewer) : Drew viewer viewer := ⟨rfl, rfl, rfl, rfl, rfl, rfl⟩

theorem trans (h : Drew viewer viewer') (h' : Drew viewer' viewer'') : Drew viewer viewer'' where
  machine := h'.machine.trans h.machine
  pendingRestore := h'.pendingRestore.trans h.pendingRestore
  live := h'.live.trans h.live
  held := h'.held.trans h.held
  buttons := h'.buttons.trans h.buttons
  handed := h'.handed.trans h.handed

theorem write (message : Message) : Drew viewer (viewer.write world message) := by
  unfold Viewer.write
  split <;> exact ⟨rfl, rfl, rfl, rfl, rfl, rfl⟩

theorem andThen {next : Viewer → Viewer} (h : Drew viewer viewer') (hnext : Drew viewer' (next viewer')) :
    Drew viewer (viewer'.andThen next) := by
  unfold Viewer.andThen
  split
  · exact h
  · exact h.trans hnext

theorem spend (n : Nat) : Drew viewer (viewer.spend n) := by
  unfold Viewer.spend
  split <;> exact ⟨rfl, rfl, rfl, rfl, rfl, rfl⟩

theorem read : Drew viewer viewer.read := ⟨rfl, rfl, rfl, rfl, rfl, rfl⟩

theorem deliverTiles (monitor : UInt8) (updates : List TileUpdate) (deferred : List TileCoord) :
    Drew viewer (deliverTiles world monitor updates deferred viewer).1 := by
  induction updates generalizing viewer deferred with
  | nil => exact refl viewer
  | cons update rest ih =>
      unfold Viewer.deliverTiles
      split
      · exact read.trans (ih _)
      · dsimp only
        split
        · exact read.trans (write _)
        · exact (read.trans (write _)).trans ((spend _).trans (ih _))

theorem deliverFrame (monitor : UInt8) (width height : Nat) (updates : List TileUpdate) (keyframe : Bool) :
    Drew viewer (viewer.deliverFrame world monitor width height updates keyframe) := by
  unfold Viewer.deliverFrame
  refine andThen (write _) (andThen (deliverTiles monitor updates []) (andThen (write _) ?_))
  exact ⟨rfl, rfl, rfl, rfl, rfl, rfl⟩

theorem reshape (frame : CapturedFrame) : Drew viewer (viewer.reshape frame) := by
  unfold Viewer.reshape
  split <;> exact ⟨rfl, rfl, rfl, rfl, rfl, rfl⟩

theorem forgetClientState : Drew viewer viewer.forgetClientState := ⟨rfl, rfl, rfl, rfl, rfl, rfl⟩

theorem sendFrame (frame : CapturedFrame) : Drew viewer (viewer.sendFrame ceilings world frame) := by
  unfold Viewer.sendFrame
  refine (reshape frame).trans ?_
  generalize viewer.reshape frame = shaped
  dsimp only
  split
  · exact forgetClientState
  · split
    · exact refl shaped
    · split
      · exact read
      · have hcommit : Drew shaped { shaped.read with
            previous := some frame.surface, previousMonitor := some frame.monitor } :=
          ⟨rfl, rfl, rfl, rfl, rfl, rfl⟩
        exact hcommit.trans (deliverFrame ..)

theorem flushOwed : Drew viewer (viewer.flushOwed ceilings world) := by
  unfold Viewer.flushOwed
  split
  · exact refl viewer
  · split
    · exact read
    · refine read.trans ?_
      generalize viewer.read = read
      dsimp only
      split
      · split
        · exact forgetClientState
        · exact deliverFrame ..
      · exact ⟨rfl, rfl, rfl, rfl, rfl, rfl⟩

theorem writeAll (messages : List Message) : Drew viewer (viewer.writeAll world messages) := by
  unfold Viewer.writeAll
  induction messages generalizing viewer with
  | nil => exact refl viewer
  | cons message rest ih =>
      rw [List.foldl_cons]
      exact (andThen (refl viewer) (andThen (write message) (spend _))).trans ih

theorem sendPointer (reading : PointerReading) : Drew viewer (viewer.sendPointer world reading) := by
  unfold Viewer.sendPointer
  split
  · exact ⟨rfl, rfl, rfl, rfl, rfl, rfl⟩
  · exact refl viewer
  · rename_i pointer hpointer
    generalize viewer.cursor.observe pointer = result
    obtain ⟨emission, cursor⟩ := result
    dsimp only
    have hobserved : Drew viewer { viewer with cursor := cursor } := ⟨rfl, rfl, rfl, rfl, rfl, rfl⟩
    split
    · exact hobserved
    · split
      · exact ⟨rfl, rfl, rfl, rfl, rfl, rfl⟩
      · split
        · exact ⟨rfl, rfl, rfl, rfl, rfl, rfl⟩
        · exact hobserved.trans (read.trans (writeAll _))

theorem announce (notice : Option Notice) : Drew viewer (viewer.announce world notice) := by
  unfold Viewer.announce
  split
  · exact write _
  · exact refl viewer

theorem present (reading : PointerReading) (captured : Option CapturedFrame) :
    Drew viewer (viewer.present ceilings world reading captured) := by
  unfold Viewer.present
  split
  · cases captured with
    | none => exact flushOwed
    | some frame => exact andThen (sendFrame frame) (sendPointer reading)
  · exact refl viewer

end Drew

/-! ## Turns -/

/-- What is held and what was handed over. -/
structure SameHands (viewer viewer' : Viewer) : Prop where
  held : viewer'.held = viewer.held
  buttons : viewer'.buttons = viewer.buttons
  handed : viewer'.handed = viewer.handed

theorem SameHands.trans (h : SameHands viewer viewer') (h' : SameHands viewer' viewer'') : SameHands viewer viewer'' :=
  ⟨h'.held.trans h.held, h'.buttons.trans h.buttons, h'.handed.trans h.handed⟩

theorem Drew.sameHands (h : Drew viewer viewer') : SameHands viewer viewer' := ⟨h.held, h.buttons, h.handed⟩

theorem SameHands.act (action : Action) : SameHands viewer (viewer.act action) := by
  unfold Viewer.act
  split
  all_goals first | exact ⟨rfl, rfl, rfl⟩ | (split <;> exact ⟨rfl, rfl, rfl⟩)

theorem SameHands.turn (source : Source) (now : Instant) (observation : Observation)
    (captured : Option CapturedFrame) :
    SameHands viewer (viewer.turn ceilings world source now observation captured) := by
  unfold Viewer.turn
  generalize viewer.machine.observe observation now = result
  obtain ⟨machine, step⟩ := result
  dsimp only
  have htold : SameHands viewer { viewer with machine := machine } := ⟨rfl, rfl, rfl⟩
  have hdrawn : Drew { viewer with machine := machine }
      (({ viewer with machine := machine }.announce world step.notice).andThen
        (present ceilings world source.pointer captured)) := .andThen (.announce step.notice) (.present ..)
  generalize Viewer.andThen _ _ = drawn at hdrawn ⊢
  refine (htold.trans hdrawn.sameHands).trans ?_
  unfold Viewer.andThen
  split
  · exact ⟨rfl, rfl, rfl⟩
  · exact .act step.action

theorem SameHands.pump (source : Source) (now : Instant) :
    SameHands viewer (viewer.pump ceilings world source now) := by
  unfold Viewer.pump
  split
  · dsimp only
    have hpending : SameHands viewer { viewer with pendingRestore := none } := ⟨rfl, rfl, rfl⟩
    split
    · exact ⟨rfl, rfl, rfl⟩
    · exact hpending.trans (.turn ..)
    · have hforgot : SameHands viewer { ({ viewer with pendingRestore := none } : Viewer).forgetClientState with
          cursor := viewer.cursor.forget } := ⟨rfl, rfl, rfl⟩
      exact hforgot.trans (.turn ..)
  · split <;> exact .turn ..

/-- A turn that leaves the stream running: the machine observed, the client was shown what there is, and the action
was taken. -/
theorem turn_running {source : Source} {now : Instant} {observation : Observation} {captured : Option CapturedFrame}
    {machine : Session} {step : Step} (hobserve : viewer.machine.observe observation now = (machine, step))
    (hrun : (viewer.turn ceilings world source now observation captured).ending = none) :
    ∃ told, Drew { viewer with machine := machine } told ∧ SamePicture ceilings.tile viewer told ∧
      told.reads = viewer.reads ∧ told.peerWindow = viewer.peerWindow ∧
      (told.present ceilings world source.pointer captured).ending = none ∧
      viewer.turn ceilings world source now observation captured =
        (told.present ceilings world source.pointer captured).act step.action := by
  unfold Viewer.turn at hrun ⊢
  rw [hobserve] at hrun ⊢
  dsimp only at hrun ⊢
  obtain ⟨hpresented, -, heq⟩ := running_of_andThen hrun
  rw [heq]
  obtain ⟨htold, hshown, heq'⟩ := running_of_andThen hpresented
  rw [heq'] at hpresented ⊢
  refine ⟨_, .announce step.notice, ?_, ?_, ?_, hpresented, rfl⟩
  · have hmachine : SamePicture ceilings.tile viewer { viewer with machine := machine } := ⟨rfl, rfl, rfl, rfl⟩
    exact hmachine.trans (.announce step.notice)
  · unfold Viewer.announce at htold ⊢
    split
    · unfold Viewer.write
      split <;> rfl
    · rfl
  · unfold Viewer.announce at htold ⊢
    split
    · unfold Viewer.write
      split <;> rfl
    · rfl

/-! ## Messages of the client -/

/-- The session and what it is about to do. -/
structure SameSession (viewer viewer' : Viewer) : Prop where
  machine : viewer'.machine = viewer.machine
  pendingRestore : viewer'.pendingRestore = viewer.pendingRestore
  live : viewer'.live = viewer.live

namespace SameSession

theorem trans (h : SameSession viewer viewer') (h' : SameSession viewer' viewer'') : SameSession viewer viewer'' :=
  ⟨h'.machine.trans h.machine, h'.pendingRestore.trans h.pendingRestore, h'.live.trans h.live⟩

theorem track (message : Message) : SameSession viewer (viewer.track message).2 := by
  unfold Viewer.track
  split <;> exact ⟨rfl, rfl, rfl⟩

theorem write (message : Message) : SameSession viewer (viewer.write world message) := by
  have hdrew := @Drew.write world viewer message
  exact ⟨hdrew.machine, hdrew.pendingRestore, hdrew.live⟩

theorem drive (message : Message) (standing : Option Standing) (now : Instant) :
    SameSession viewer (viewer.drive ceilings world message standing now) := by
  unfold Viewer.drive
  split
  · exact ⟨rfl, rfl, rfl⟩
  · split
    · exact write _
    · have htracked := @track viewer message
      generalize viewer.track message = result at htracked ⊢
      obtain ⟨forward, tracked⟩ := result
      dsimp only at htracked ⊢
      split
      · exact htracked
      · have hhanded : ∀ gate, SameSession viewer (tracked.hand world message gate) :=
          fun gate => htracked.trans ⟨rfl, rfl, rfl⟩
        split
        · exact htracked.trans ⟨rfl, rfl, rfl⟩
        · exact hhanded _
        · exact (hhanded _).trans (write _)

theorem foldl_lift (messages : List Message) : SameSession viewer (messages.foldl (lift world) viewer) := by
  induction messages generalizing viewer with
  | nil => exact ⟨rfl, rfl, rfl⟩
  | cons message rest ih =>
      rw [List.foldl_cons]
      have hfirst : SameSession viewer (viewer.lift world message) := ⟨rfl, rfl, rfl⟩
      exact hfirst.trans ih

theorem releaseEverything : SameSession viewer (viewer.releaseEverything world) := by
  have hdrained : SameSession viewer { viewer with
      held := viewer.held.drain.2, buttons := viewer.buttons.drain.2 } := ⟨rfl, rfl, rfl⟩
  exact hdrained.trans (foldl_lift _)

theorem receive (message : Option Message) (standing : Option Standing) (now : Instant) :
    SameSession viewer (viewer.receive ceilings world message standing now) := by
  unfold Viewer.receive
  cases message with
  | none => exact ⟨rfl, rfl, rfl⟩
  | some message =>
      dsimp only
      split
      · exact ⟨rfl, rfl, rfl⟩
      · split
        · exact releaseEverything
        · exact ⟨rfl, rfl, rfl⟩
        · exact ⟨rfl, rfl, rfl⟩
        · exact drive _ standing now

end SameSession

/-! ## What the session may still do -/

theorem act_live (action : Action) : (viewer.act action).live = viewer.live := by
  unfold act
  split <;> first | rfl | (split <;> rfl)

theorem turn_live {source : Source} {now : Instant} {observation : Observation} {captured : Option CapturedFrame}
    (hrun : (viewer.turn ceilings world source now observation captured).ending = none) :
    (viewer.turn ceilings world source now observation captured).live = viewer.live := by
  rcases hobserve : viewer.machine.observe observation now with ⟨machine, step⟩
  obtain ⟨told, hdrew, -, -, -, -, heq⟩ := turn_running hobserve hrun
  rw [heq, act_live, (Drew.present source.pointer captured).live, hdrew.live]

theorem pump_live {source : Source} {now : Instant} (hrun : (viewer.pump ceilings world source now).ending = none) :
    (viewer.pump ceilings world source now).live = viewer.live := by
  unfold pump at hrun ⊢
  cases hrestore : viewer.pendingRestore with
  | some what =>
      rw [hrestore] at hrun
      dsimp only at hrun ⊢
      cases hanswer : source.restore with
      | elapsed => rfl
      | given result =>
          rw [hanswer] at hrun
          cases result with
          | error condition => exact turn_live hrun
          | ok _ => exact turn_live hrun
  | none =>
      rw [hrestore] at hrun
      dsimp only at hrun ⊢
      cases hanswer : source.next with
      | elapsed =>
          rw [hanswer] at hrun
          exact turn_live hrun
      | given result =>
          rw [hanswer] at hrun
          cases result with
          | error condition => exact turn_live hrun
          | ok frame => exact turn_live hrun

theorem standingNow_view {granted live : Capabilities} {standing : Option Standing} {now : Instant}
    (h : standingNow granted standing now = .ok live) : live.contains .view = true := by
  unfold standingNow at h
  split at h
  · cases h
  · split at h
    · cases h
    · dsimp only at h
      split at h
      · cases h
      · rename_i hview
        cases h
        simpa using hview

/-- A stream that goes on may be watched. -/
theorem view_step {event : Event} (h : viewer.live.contains .view = true)
    (hstep : step ceilings world viewer event = some viewer') (hrun : viewer'.ending = none) :
    viewer'.live.contains .view = true := by
  obtain ⟨-, rfl⟩ := step_running hstep hrun
  cases event with
  | pump source now =>
      rw [react] at hrun ⊢
      rw [pump_live hrun]
      exact h
  | receive message standing now =>
      rw [react, (SameSession.receive message standing now).live]
      exact h
  | revalidate standing now =>
      simp only [react, revalidate] at hrun ⊢
      cases hstanding : standingNow ceilings.granted standing now with
      | error ending =>
          rw [hstanding] at hrun
          cases hrun
      | ok live => exact standingNow_view hstanding
  | ends ending => cases hrun

/-! ## A small desktop -/

/-- A display that is cut into tiles of sixteen pixels. -/
def sampleCeilings : Ceilings where
  granted := ⟨3⟩
  allowInput := true
  tile := ⟨16, by decide⟩
  limits := ⟨⟨1, by decide⟩, ⟨1000, by decide⟩, none, none, ⟨1000, by decide⟩⟩
  cursorCache := 4

def sampleStanding : Standing := ⟨100, ⟨3⟩⟩

/-- A link that has no headroom at one of its readings. -/
def sampleWorld (spent : Nat) : World where
  credit n := if n = spent then 0 else 1000
  writes _ := none
  sink _ := .accepted

/-- A link with room for everything. -/
def steadyWorld : World := ⟨fun _ => 1000, fun _ => none, fun _ => .accepted⟩

theorem legalEdge_one : LegalEdge 1 := by decide

theorem legalEdge_seventeen : LegalEdge 17 := by decide

/-- A display of one pixel. -/
def sampleDot : Surface := ⟨1, 1, [1, 2, 3, 4], legalEdge_one, legalEdge_one, rfl⟩

/-- One row of two tiles, in one colour. -/
def sampleSurface (shade : UInt8) : Surface :=
  ⟨17, 1, List.replicate 68 shade, legalEdge_seventeen, legalEdge_one, List.length_replicate⟩

/-- The screen source has a frame. -/
def sampleFrame (shade : UInt8) : Event :=
  .pump ⟨.elapsed, .given (.ok ⟨0, sampleSurface shade⟩), ⟨.given none, .given none⟩⟩ 0

/-- The screen source has nothing new. -/
def sampleIdle : Event := .pump ⟨.elapsed, .given (.error .retry), ⟨.given none, .given none⟩⟩ 0

/-- The client presses or releases a key. -/
def sampleKey (down : Bool) : Event := .receive (some (.key ⟨4, by decide⟩ down)) (some sampleStanding) 1

end Viewer

end Selfhost.Desk
