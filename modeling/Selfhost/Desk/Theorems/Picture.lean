import Selfhost.Lib.Run
import Selfhost.Desk.Lemmas.Drawing

/-!
# The picture on the far screen

What a client shows is the remembered frame but for the tiles that are owed, in every run of a stream. A frame that was
taken is shown as a whole once nothing is owed.
-/

namespace Selfhost.Desk

open Selfhost.Lib

theorem Condition.observation_ne_frame (condition : Condition) : condition.observation ≠ .frame := by
  cases condition <;> decide

namespace Viewer

variable {ceilings : Ceilings} {world : World} {viewer viewer' : Viewer} {standing : Option Standing}
  {events : List Event}

/-! ## Whole runs -/

theorem closing_running (h : (closing world viewer).ending = none) :
    viewer.ending = none ∧ closing world viewer = viewer := by
  unfold closing at h ⊢
  cases hending : viewer.ending with
  | none => exact ⟨rfl, rfl⟩
  | some ending =>
      rw [hending] at h
      dsimp only at h
      rw [finish_ending, hending] at h
      cases h

/-- A stream that has begun: the client was greeted. -/
theorem start_running (h : (start ceilings world standing).ending = none) :
    ∃ held, standing = some held ∧ (effective ceilings.granted held.capabilities).contains .view = true ∧
      start ceilings world standing =
        { new ceilings (effective ceilings.granted held.capabilities) with sent := [Message.hello] } := by
  unfold start at h ⊢
  cases standing with
  | none => exact nomatch (closing_running h).1
  | some held =>
      dsimp only at h ⊢
      split at h
      · exact nomatch (closing_running h).1
      · rename_i hview
        obtain ⟨hgoing, heq⟩ := closing_running h
        rw [if_neg hview, heq, write_running hgoing]
        exact ⟨held, rfl, by simpa using hview, rfl⟩

theorem pictured_start (h : (start ceilings world standing).ending = none) :
    Pictured ceilings.tile (start ceilings world standing) := by
  obtain ⟨held, -, -, heq⟩ := start_running h
  rw [heq]
  exact ⟨Screen.new ceilings.tile, rfl, rfl, fun _ => rfl, fun held hheld => (nomatch hheld)⟩

theorem pictured_of_run {ok : Viewer → Event → Prop}
    (hrun : Run (step ceilings world) ok (start ceilings world standing) events viewer)
    (hgoing : viewer.ending = none) : Pictured ceilings.tile viewer := by
  refine Run.invariant (I := fun viewer => viewer.ending = none → Pictured ceilings.tile viewer) hrun ?_
    pictured_start hgoing
  intro before event after hbefore _ hstep hafter
  exact (hbefore (step_running hstep hafter).1).step hstep hafter

/-- In every run, whatever the window was at each reading, a client that applies what it was sent shows the remembered
frame on every tile that is not owed, and only tiles of that frame's grid are owed. -/
theorem client_shows_what_is_remembered
    (hrun : Run (step ceilings world) (fun _ _ => True) (start ceilings world standing) events viewer)
    (hgoing : viewer.ending = none) :
    ∃ screen, Screen.shown ceilings.tile viewer.sent = .ok screen ∧ (viewer.previous = none → viewer.owed = []) ∧
      ∀ held, viewer.previous = some held →
        (∀ coord ∈ viewer.owed, coord ∈ (held.grid ceilings.tile).coords) ∧
        ∃ client, screen.frame = some client ∧ client.width = held.width ∧ client.height = held.height ∧
          ∀ coord ∈ (held.grid ceilings.tile).coords, coord ∉ viewer.owed →
            Surface.SameTile ceilings.tile coord held client := by
  obtain ⟨screen, hshown, -, hnone, hheld⟩ := pictured_of_run hrun hgoing
  refine ⟨screen, hshown, hnone, fun held hprevious => ?_⟩
  obtain ⟨-, howed, hclient⟩ := hheld held hprevious
  exact ⟨howed, hclient⟩

example : (start sampleCeilings (sampleWorld 2) (some sampleStanding)).previous = none := by decide +kernel

/-- The window closes in the middle of a frame. -/
theorem client_shows_what_is_remembered_midway :
    ∃ viewer, Run (step sampleCeilings (sampleWorld 2)) (fun _ _ => True)
        (start sampleCeilings (sampleWorld 2) (some sampleStanding)) [sampleFrame 7] viewer ∧
      viewer.previous = some (sampleSurface 7) ∧ viewer.owed = [⟨1, 0⟩] ∧
      ∃ screen client, Screen.shown sampleCeilings.tile viewer.sent = .ok screen ∧ screen.frame = some client ∧
        Surface.SameTile sampleCeilings.tile ⟨0, 0⟩ (sampleSurface 7) client := by
  have hsteps : (step sampleCeilings (sampleWorld 2) (start sampleCeilings (sampleWorld 2) (some sampleStanding))
      (sampleFrame 7)).map (fun viewer => (viewer.ending, viewer.previous, viewer.owed)) =
      some (none, some (sampleSurface 7), [⟨1, 0⟩]) := by decide +kernel
  obtain ⟨viewer, hstep, hends⟩ := Option.map_eq_some_iff.mp hsteps
  simp only [Prod.mk.injEq] at hends
  obtain ⟨hgoing, hprevious, howed⟩ := hends
  have hrun : Run (step sampleCeilings (sampleWorld 2)) (fun _ _ => True)
      (start sampleCeilings (sampleWorld 2) (some sampleStanding)) [sampleFrame 7] viewer := .cons trivial hstep .nil
  obtain ⟨screen, hshown, -, hheld⟩ := client_shows_what_is_remembered hrun hgoing
  obtain ⟨-, client, hclient, -, -, htiles⟩ := hheld _ hprevious
  refine ⟨viewer, hrun, hprevious, howed, screen, client, hshown, hclient, htiles ⟨0, 0⟩ ?_ ?_⟩
  · decide
  · rw [howed]
    decide

/-! ## Still desktops -/

/-- The frame an event takes from the screen source. -/
def captured (viewer : Viewer) : Event → Option CapturedFrame
  | .pump source _ =>
      match viewer.pendingRestore, source.next with
      | none, .given (.ok frame) => some frame
      | _, _ => none
  | _ => none

/-- A frame that is offered finds room in the window, or says nothing new. -/
def Admitted (world : World) (viewer : Viewer) (frame : CapturedFrame) : Prop :=
  viewer.affordable world ≠ 0 ∨
    viewer.previous = some frame.surface ∧ viewer.previousMonitor = some frame.monitor ∧ viewer.owed = []

/-- The client asks for a full frame only when nothing is owed. -/
def AsksWhenServed (viewer : Viewer) : Event → Prop
  | .receive (some (.requestFullFrame _)) _ _ => viewer.owed = []
  | _ => True

/-- What follows the last frame. -/
def Still (viewer : Viewer) (event : Event) : Prop := captured viewer event = none ∧ AsksWhenServed viewer event

/-- The client shows a surface, or will when it has what is owed. -/
def Shows (tile : TileSize) (surface : Surface) (viewer : Viewer) : Prop :=
  (viewer.previous = some surface ∧ Pictured tile viewer) ∨
    (viewer.owed = [] ∧ ∃ screen, Screen.shown tile viewer.sent = .ok screen ∧ screen.frame = some surface)

theorem Shows.shown {tile : TileSize} {surface : Surface} (h : Shows tile surface viewer) (howed : viewer.owed = []) :
    ∃ screen, Screen.shown tile viewer.sent = .ok screen ∧ screen.frame = some surface := by
  rcases h with ⟨hprevious, screen, hshown, -, -, hheld⟩ | ⟨-, hshown⟩
  · obtain ⟨-, -, client, hclient, hw, hh, htiles⟩ := hheld surface hprevious
    have heq : surface = client := Surface.eq_of_tiles hw.symm hh.symm fun coord hmem =>
      htiles coord hmem (by rw [howed]; exact List.not_mem_nil)
    exact ⟨screen, hshown, heq ▸ hclient⟩
  · exact hshown

theorem Shows.same {tile : TileSize} {surface : Surface} (h : Shows tile surface viewer)
    (hsame : SamePicture tile viewer viewer') : Shows tile surface viewer' := by
  rcases h with ⟨hprevious, hpictured⟩ | ⟨howed, hshown⟩
  · exact .inl ⟨hsame.previous.trans hprevious, hpictured.same hsame⟩
  · exact .inr ⟨hsame.owed.trans howed, hsame.shown ▸ hshown⟩

theorem Shows.forget {tile : TileSize} {surface : Surface} (h : Shows tile surface viewer) (howed : viewer.owed = []) :
    Shows tile surface viewer.forgetClientState := .inr ⟨rfl, h.shown howed⟩

theorem deliverTiles_previous (monitor : UInt8) (updates : List TileUpdate) (deferred : List TileCoord) :
    (deliverTiles world monitor updates deferred viewer).1.previous = viewer.previous := by
  induction updates generalizing viewer deferred with
  | nil => rfl
  | cons update rest ih =>
      have hwrite : (viewer.read.write world (Message.tile monitor update)).previous = viewer.previous := by
        unfold write
        split <;> rfl
      unfold deliverTiles
      split
      · exact ih _
      · dsimp only
        split
        · exact hwrite
        · rw [ih, spend_previous, hwrite]

theorem deliverFrame_previous (monitor : UInt8) (width height : Nat) (updates : List TileUpdate) (keyframe : Bool) :
    (viewer.deliverFrame world monitor width height updates keyframe).previous = viewer.previous := by
  have hwrite : ∀ (viewer : Viewer) message, (viewer.write world message).previous = viewer.previous := by
    intro viewer message
    unfold write
    split <;> rfl
  have hthen : ∀ (viewer viewer' : Viewer) next, viewer'.previous = viewer.previous →
      (next viewer').previous = viewer.previous → (viewer'.andThen next).previous = viewer.previous := by
    intro viewer viewer' next h hnext
    unfold andThen
    split
    · exact h
    · exact hnext
  unfold deliverFrame
  refine hthen _ _ _ (hwrite _ _) (hthen _ _ _ ?_ (hthen _ _ _ ?_ ?_))
  · exact (deliverTiles_previous monitor updates []).trans (hwrite _ _)
  · exact (hwrite _ _).trans ((deliverTiles_previous monitor updates []).trans (hwrite _ _))
  · exact (hwrite _ _).trans ((deliverTiles_previous monitor updates []).trans (hwrite _ _))

/-- A frame that is admitted is remembered. -/
theorem sendFrame_previous (h : Pictured ceilings.tile viewer) {frame : CapturedFrame}
    (hadmitted : Admitted world viewer frame) :
    (viewer.sendFrame ceilings world frame).previous = some frame.surface := by
  have hreshaped := h.reshape frame
  have hshape := @reshape_previous viewer frame
  have hroom : (viewer.reshape frame).affordable world = 0 → (viewer.reshape frame).previous = some frame.surface := by
    intro hspent
    have hsame : viewer.affordable world = 0 := by
      rw [← hspent]
      unfold reshape
      split <;> rfl
    obtain ⟨hprevious, hmonitor, -⟩ := hadmitted.resolve_left (not_not_intro hsame)
    have hold : viewer.isNewShape frame = false := by
      simp only [isNewShape, hprevious, hmonitor, ne_eq, not_true_eq_false, or_self, decide_false]
    rw [reshape, hold]
    exact hprevious
  unfold sendFrame
  dsimp only
  generalize viewer.reshape frame = shaped at hreshaped hshape hroom ⊢
  obtain ⟨screen, hshown, hsize, hnone, hheld⟩ := hreshaped
  have howed : ∀ coord ∈ shaped.owed, coord ∈ (frame.surface.grid ceilings.tile).coords := by
    intro coord hmem
    cases hprevious : shaped.previous with
    | none =>
        rw [hnone hprevious] at hmem
        cases hmem
    | some held =>
        obtain ⟨hw, hh⟩ := hshape hprevious
        rw [← Surface.grid_congr hw hh]
        exact (hheld held hprevious).2.1 coord hmem
  obtain ⟨updates, hupdates, -, hkept⟩ := @frameUpdates_ok ceilings.tile shaped.owed shaped.previous
    frame.surface shaped.previous.isNone (fun held hprevious => hshape hprevious) howed
    (fun hkey => hnone (Option.isNone_iff_eq_none.mp hkey))
  rw [hupdates]
  dsimp only
  split
  · -- Nothing has changed: the remembered surface is this one.
    rename_i hquiet
    simp only [Bool.and_eq_true, List.isEmpty_iff, Bool.not_eq_true', Option.isNone_eq_false_iff] at hquiet
    obtain ⟨held, hprevious⟩ := Option.isSome_iff_exists.mp hquiet.2
    obtain ⟨hw, hh⟩ := hshape hprevious
    have heq : frame.surface = held := Surface.eq_of_tiles hw.symm hh.symm fun coord hmem => by
      obtain ⟨-, other, hother, hsame⟩ := hkept coord hmem (by rw [hquiet.1]; exact List.not_mem_nil)
      rw [hprevious] at hother
      cases hother
      exact hsame
    rw [heq, hprevious]
  · split
    · rename_i hspent
      exact hroom hspent
    · exact deliverFrame_previous ..

theorem Shows.flushOwed {surface : Surface} (h : Shows ceilings.tile surface viewer)
    (hrun : (viewer.flushOwed ceilings world).ending = none) :
    Shows ceilings.tile surface (viewer.flushOwed ceilings world) := by
  by_cases hempty : viewer.owed = []
  · have hidle : viewer.flushOwed ceilings world = viewer := by
      rw [Viewer.flushOwed, hempty]
      rfl
    rw [hidle]
    exact h
  · obtain ⟨hprevious, hpictured⟩ := h.resolve_right fun h => hempty h.1
    refine .inl ⟨?_, hpictured.flushOwed hrun⟩
    obtain ⟨screen, -, -, -, hheld⟩ := hpictured
    obtain ⟨hmonitor, howed, -⟩ := hheld surface hprevious
    obtain ⟨monitor, hmonitor'⟩ := Option.isSome_iff_exists.mp hmonitor
    obtain ⟨updates, hupdates, -⟩ := Surface.encodeTiles_ok howed
    unfold Viewer.flushOwed
    split
    · exact hprevious
    · split
      · exact hprevious
      · simp only [read, hprevious, hmonitor', hupdates]
        exact deliverFrame_previous ..

/-- While the session is live, the client shows the last frame. -/
def Presenting (tile : TileSize) (surface : Surface) (viewer : Viewer) : Prop :=
  viewer.machine.phase = .live → viewer.pendingRestore = none ∧ Shows tile surface viewer

theorem act_machine (action : Action) : (viewer.act action).machine = viewer.machine := by
  unfold act
  split <;> first | rfl | (split <;> rfl)

theorem Presenting.turn {surface : Surface} (h : Presenting ceilings.tile surface viewer) {source : Source}
    {now : Instant} {observation : Observation} (hframe : observation ≠ .frame)
    (hrun : (viewer.turn ceilings world source now observation none).ending = none) :
    Presenting ceilings.tile surface (viewer.turn ceilings world source now observation none) := by
  intro hlive
  rcases hobserve : viewer.machine.observe observation now with ⟨machine, step⟩
  obtain ⟨told, hdrew, hsame, -, -, hpresented, heq⟩ := turn_running hobserve hrun
  have hdrawn := @Drew.present ceilings world told source.pointer none
  rw [heq] at hlive ⊢
  rw [act_machine, hdrawn.machine, hdrew.machine] at hlive
  -- Only nothing new keeps a session live, and then there is nothing else to do.
  have hlive' : (viewer.machine.observe observation now).1.phase = .live := by
    rw [hobserve]
    exact hlive
  have hphase := ((Session.live_of_observe hlive').resolve_left fun h => hframe h.1).2
  have haction := Session.capture_of_observe hlive'
  rw [hobserve] at haction
  obtain ⟨hpending, hshows⟩ := h hphase
  dsimp only at haction
  rw [haction]
  refine ⟨(hdrawn.pendingRestore.trans hdrew.pendingRestore).trans hpending, ?_⟩
  have htold := hshows.same hsame
  simp only [act]
  unfold Viewer.present at hpresented ⊢
  split
  · rename_i hview
    rw [if_pos hview] at hpresented
    exact htold.flushOwed hpresented
  · exact htold

theorem Presenting.pump {surface : Surface} (h : Presenting ceilings.tile surface viewer) {source : Source}
    {now : Instant} (hnone : captured viewer (.pump source now) = none)
    (hrun : (viewer.pump ceilings world source now).ending = none) :
    Presenting ceilings.tile surface (viewer.pump ceilings world source now) := by
  unfold Viewer.pump at hrun ⊢
  cases hrestore : viewer.pendingRestore with
  | some what =>
      -- A restore is pending: the session is not live.
      have hidle : ∀ after : Viewer, after.machine = viewer.machine → Presenting ceilings.tile surface after := by
        intro after hmachine hlive
        rw [hmachine] at hlive
        rw [(h hlive).1] at hrestore
        cases hrestore
      rw [hrestore] at hrun
      dsimp only at hrun ⊢
      cases hanswer : source.restore with
      | elapsed =>
          rw [hanswer] at hrun
          cases hrun
      | given result =>
          rw [hanswer] at hrun
          cases result with
          | error condition =>
              exact (hidle { viewer with pendingRestore := none } rfl).turn condition.observation_ne_frame hrun
          | ok _ =>
              have hforgot := hidle { ({ viewer with pendingRestore := none } : Viewer).forgetClientState with
                cursor := viewer.cursor.forget } rfl
              exact hforgot.turn (by decide) hrun
  | none =>
      rw [hrestore] at hrun
      dsimp only at hrun ⊢
      cases hanswer : source.next with
      | elapsed =>
          rw [hanswer] at hrun
          exact h.turn (by decide) hrun
      | given result =>
          rw [hanswer] at hrun
          cases result with
          | error condition => exact h.turn condition.observation_ne_frame hrun
          | ok frame =>
              simp only [captured, hrestore, hanswer] at hnone
              cases hnone

theorem Presenting.receive {surface : Surface} (h : Presenting ceilings.tile surface viewer) {message : Option Message}
    {standing : Option Standing} {now : Instant} (hasks : AsksWhenServed viewer (.receive message standing now)) :
    Presenting ceilings.tile surface (viewer.receive ceilings world message standing now) := by
  intro hlive
  have hsession := @SameSession.receive ceilings world viewer message standing now
  rw [hsession.machine] at hlive
  obtain ⟨hpending, hshows⟩ := h hlive
  refine ⟨hsession.pendingRestore.trans hpending, ?_⟩
  unfold Viewer.receive
  cases message with
  | none => exact hshows.same ⟨rfl, rfl, rfl, rfl⟩
  | some message =>
      dsimp only
      split
      · exact hshows.same ⟨rfl, rfl, rfl, rfl⟩
      · split
        · exact hshows.same .releaseEverything
        · exact (hshows.forget hasks).same ⟨rfl, rfl, rfl, rfl⟩
        · exact hshows.same ⟨rfl, rfl, rfl, rfl⟩
        · exact hshows.same (.drive _ standing now)

theorem Presenting.step {surface : Surface} (h : Presenting ceilings.tile surface viewer) {event : Event}
    (hstill : Still viewer event) (hstep : step ceilings world viewer event = some viewer')
    (hrun : viewer'.ending = none) : Presenting ceilings.tile surface viewer' := by
  obtain ⟨-, rfl⟩ := step_running hstep hrun
  cases event with
  | pump source now => exact h.pump hstill.1 hrun
  | receive message standing now => exact h.receive hstill.2
  | revalidate standing now =>
      intro hlive
      simp only [react, Viewer.revalidate] at hlive ⊢
      split at hlive
      · exact ⟨(h hlive).1, (h hlive).2.same ⟨rfl, rfl, rfl, rfl⟩⟩
      · exact ⟨(h hlive).1, (h hlive).2.same ⟨rfl, rfl, rfl, rfl⟩⟩
  | ends ending => cases hrun

/-- The step that takes a frame from the source. -/
theorem presenting_of_captured (h : Pictured ceilings.tile viewer) (hview : viewer.live.contains .view = true)
    {event : Event} {frame : CapturedFrame} (hcaptured : captured viewer event = some frame)
    (hadmitted : Admitted world viewer frame) (hstep : step ceilings world viewer event = some viewer')
    (hrun : viewer'.ending = none) : Presenting ceilings.tile frame.surface viewer' := by
  have hpictured := h.step hstep hrun
  obtain ⟨-, heq⟩ := step_running hstep hrun
  cases event with
  | receive message standing now => cases hcaptured
  | revalidate standing now => cases hcaptured
  | ends ending => cases hcaptured
  | pump source now =>
      simp only [captured] at hcaptured
      split at hcaptured
      · rename_i hpending hnext
        cases hcaptured
        simp only [react, Viewer.pump, hpending, hnext] at heq
        rcases hobserve : viewer.machine.observe .frame now with ⟨machine, step⟩
        rw [← heq] at hrun
        obtain ⟨told, hdrew, hsame, hreads, hwindow, hpresented, hturn⟩ := turn_running hobserve hrun
        have hdrawn := @Drew.present ceilings world told source.pointer (some frame)
        rw [hturn] at heq
        intro hlive
        rw [← heq, act_machine, hdrawn.machine] at hlive
        have haction : step.action = .capture := by
          have hlive' : (viewer.machine.observe .frame now).1.phase = .live := by
            rw [hobserve, ← hlive, hdrew.machine]
          have haction := Session.capture_of_observe hlive'
          rwa [hobserve] at haction
        rw [haction] at heq
        simp only [act] at heq
        refine ⟨?_, .inl ⟨?_, hpictured⟩⟩
        · rw [← heq, hdrawn.pendingRestore, hdrew.pendingRestore]
          exact hpending
        · have hviewed : told.live.contains .view = true := by
            rw [hdrew.live]
            exact hview
          rw [← heq]
          unfold Viewer.present at hpresented ⊢
          rw [if_pos ⟨hlive, hviewed⟩] at hpresented ⊢
          obtain ⟨-, -, hthen⟩ := running_of_andThen hpresented
          dsimp only
          rw [hthen, (@SamePicture.sendPointer world _ ceilings.tile source.pointer).previous]
          refine sendFrame_previous (h.same hsame) ?_
          unfold Admitted affordable at hadmitted ⊢
          rw [hreads, hwindow, hsame.previous, hsame.previousMonitor, hsame.owed]
          exact hadmitted
      · cases hcaptured

/-- A frame that found room in the window when it was offered, or said nothing new, is on the far screen once nothing
is owed: in every run that takes no other frame and asks for a full frame only when nothing is owed. -/
theorem last_frame_is_shown {world : World} {before after : List Event} {event : Event} {frame : CapturedFrame}
    {held offered : Viewer}
    (hbefore : Run (step ceilings world) (fun _ _ => True) (start ceilings world standing) before held)
    (hcaptured : captured held event = some frame) (hadmitted : Admitted world held frame)
    (hoffer : step ceilings world held event = some offered)
    (hafter : Run (step ceilings world) Still offered after viewer) (hgoing : viewer.ending = none)
    (hlive : viewer.machine.phase = .live) (howed : viewer.owed = []) :
    ∃ screen, Screen.shown ceilings.tile viewer.sent = .ok screen ∧ screen.frame = some frame.surface := by
  have hview : held.ending = none → held.live.contains .view = true := by
    refine Run.invariant (I := fun viewer => viewer.ending = none → viewer.live.contains .view = true) hbefore ?_ ?_
    · intro viewer event viewer' h _ hstep hrun
      exact view_step (h (step_running hstep hrun).1) hstep hrun
    · intro hrun
      obtain ⟨standing, -, hview, heq⟩ := start_running hrun
      rw [heq]
      exact hview
  have hpresenting : viewer.ending = none → Presenting ceilings.tile frame.surface viewer := by
    refine Run.invariant (I := fun viewer => viewer.ending = none → Presenting ceilings.tile frame.surface viewer)
      hafter ?_ ?_
    · intro viewer event viewer' h hstill hstep hrun
      exact (h (step_running hstep hrun).1).step hstill hstep hrun
    · intro hrun
      have hheld := (step_running hoffer hrun).1
      exact presenting_of_captured (pictured_of_run hbefore hheld) (hview hheld) hcaptured hadmitted hoffer hrun
  exact (hpresenting hgoing hlive).2.shown howed

theorem still_sampleIdle (viewer : Viewer) : Still viewer sampleIdle := by
  refine ⟨?_, trivial⟩
  unfold captured sampleIdle
  cases viewer.pendingRestore <;> rfl

/-- The second tile of a frame does not fit, and goes out behind it. -/
theorem last_frame_is_shown_late :
    ∃ offered viewer, step sampleCeilings (sampleWorld 2) (start sampleCeilings (sampleWorld 2) (some sampleStanding))
        (sampleFrame 7) = some offered ∧
      offered.owed = [⟨1, 0⟩] ∧ Run (step sampleCeilings (sampleWorld 2)) Still offered [sampleIdle] viewer ∧
      ∃ screen, Screen.shown sampleCeilings.tile viewer.sent = .ok screen ∧ screen.frame = some (sampleSurface 7) := by
  have hsteps : ((step sampleCeilings (sampleWorld 2) (start sampleCeilings (sampleWorld 2) (some sampleStanding))
      (sampleFrame 7)).bind fun offered => (step sampleCeilings (sampleWorld 2) offered sampleIdle).map fun viewer =>
        (offered.owed, viewer.ending, viewer.machine.phase, viewer.owed)) =
      some ([⟨1, 0⟩], none, Phase.live, []) := by decide +kernel
  obtain ⟨offered, hoffer, hlast⟩ := Option.bind_eq_some_iff.mp hsteps
  obtain ⟨viewer, hidle, hends⟩ := Option.map_eq_some_iff.mp hlast
  simp only [Prod.mk.injEq] at hends
  obtain ⟨howed, hgoing, hlive, hpaid⟩ := hends
  have hafter : Run (step sampleCeilings (sampleWorld 2)) Still offered [sampleIdle] viewer :=
    .cons (still_sampleIdle offered) hidle .nil
  exact ⟨offered, viewer, hoffer, howed, hafter,
    last_frame_is_shown .nil rfl (.inl (by decide +kernel)) hoffer hafter hgoing hlive hpaid⟩

/-- A frame that is offered while the window is closed never reaches a still screen: the client is left with the one
before, whatever the window has for it afterwards. -/
theorem last_frame_is_lost :
    ∃ held offered viewer,
      Run (step sampleCeilings (sampleWorld 3)) (fun _ _ => True)
        (start sampleCeilings (sampleWorld 3) (some sampleStanding)) [sampleFrame 7] held ∧
      captured held (sampleFrame 8) = some ⟨0, sampleSurface 8⟩ ∧
      step sampleCeilings (sampleWorld 3) held (sampleFrame 8) = some offered ∧
      Run (step sampleCeilings (sampleWorld 3)) Still offered [sampleIdle, sampleIdle] viewer ∧
      (∀ reading, offered.reads ≤ reading → (sampleWorld 3).credit reading ≠ 0) ∧ viewer.peerWindow = none ∧
      viewer.ending = none ∧ viewer.machine.phase = .live ∧ viewer.owed = [] ∧
      ¬ ∃ screen, Screen.shown sampleCeilings.tile viewer.sent = .ok screen ∧
        screen.frame = some (sampleSurface 8) := by
  have hsteps : ((step sampleCeilings (sampleWorld 3) (start sampleCeilings (sampleWorld 3) (some sampleStanding))
      (sampleFrame 7)).bind fun held => (step sampleCeilings (sampleWorld 3) held (sampleFrame 8)).bind fun offered =>
        (step sampleCeilings (sampleWorld 3) offered sampleIdle).bind fun waiting =>
          (step sampleCeilings (sampleWorld 3) waiting sampleIdle).map fun viewer =>
            decide (held.pendingRestore = none ∧ offered.reads = 4 ∧ viewer.peerWindow = none ∧ viewer.ending = none ∧
              viewer.machine.phase = .live ∧ viewer.owed = [] ∧
              (Screen.shown sampleCeilings.tile viewer.sent).toOption.bind Screen.frame = some (sampleSurface 7))) =
      some true := by decide +kernel
  obtain ⟨held, hheld, hrest⟩ := Option.bind_eq_some_iff.mp hsteps
  obtain ⟨offered, hoffer, hrest⟩ := Option.bind_eq_some_iff.mp hrest
  obtain ⟨waiting, hwait, hrest⟩ := Option.bind_eq_some_iff.mp hrest
  obtain ⟨viewer, hidle, hends⟩ := Option.map_eq_some_iff.mp hrest
  obtain ⟨hpending, hreads, hwindow, hgoing, hlive, howed, hshown⟩ := of_decide_eq_true hends
  refine ⟨held, offered, viewer, .cons trivial hheld .nil, ?_, hoffer,
    .cons (still_sampleIdle offered) hwait (.cons (still_sampleIdle waiting) hidle .nil), ?_, hwindow, hgoing, hlive,
    howed, ?_⟩
  · simp only [captured, sampleFrame, hpending]
  · intro reading hlater
    rw [hreads] at hlater
    simp only [sampleWorld, if_neg (Nat.ne_of_gt hlater)]
    decide
  · rintro ⟨screen, hscreen, hframe⟩
    rw [hscreen] at hshown
    have hseven : screen.frame = some (sampleSurface 7) := hshown
    rw [hframe] at hseven
    exact absurd hseven (by decide +kernel)

end Viewer

end Selfhost.Desk
