import Mathlib.Logic.Relation
import Mathlib.Data.List.Sort
import Selfhost.Desk.Lemmas.Picture

/-!
# What drawing is made of

A frame goes out in strokes: the viewer notes what the client holds, writes what is not charged to the client's window,
or writes one tile and charges it. What every stroke keeps, drawing keeps.
-/

namespace Selfhost.Desk

open Selfhost.Lib

/-! ## The size of a tile -/

/-- The bytes of the largest tile. -/
def maxTileBytes : Nat := maxTilePixels * bytesPerPixel

theorem length_encodeTile {tile payload : Bytes} {encoding : Encoding}
    (h : encodeTile tile = .ok (encoding, payload)) : payload.length ≤ maxTileBytes := by
  unfold encodeTile at h
  dsimp only at h
  split at h
  · cases h
  · rename_i hlegal
    simp only [not_or, Decidable.not_not, Nat.not_lt] at hlegal
    have htile : tile.length ≤ maxTileBytes := by
      have hdiv := Nat.div_add_mod tile.length bytesPerPixel
      rw [hlegal.2.1, Nat.add_zero] at hdiv
      rw [← hdiv, Nat.mul_comm]
      exact Nat.mul_le_mul_right _ hlegal.2.2
    split at h
    · cases h
    · split at h
      · cases h
        exact Nat.le_trans (by decide : 4 ≤ 65536) (Nat.le_refl _)
      · split at h
        · rename_i hshorter
          cases h
          exact Nat.le_trans (Nat.le_of_lt hshorter) htile
        · cases h
          exact htile

/-- An update is no larger than the largest tile. -/
def TileUpdate.Small (update : TileUpdate) : Prop := update.payload.length ≤ maxTileBytes

variable {grid : Grid} {surface current : Surface} {size : TileSize} {coord : TileCoord} {coords : List TileCoord}
  {updates : List TileUpdate} {previous : Option Surface}

theorem small_updateOf {update : TileUpdate} (h : updateOf grid surface coord = .ok update) : update.Small := by
  obtain ⟨bounds, -, h⟩ := bind_ok h
  obtain ⟨pixels, -, h⟩ := bind_ok h
  obtain ⟨⟨encoding, payload⟩, hencode, h⟩ := bind_ok h
  cases h
  exact length_encodeTile hencode

theorem small_encodeEach (h : encodeEach grid surface coords = .ok updates) : ∀ update ∈ updates, update.Small := by
  induction coords generalizing updates with
  | nil =>
      cases h
      exact fun update hmem => (nomatch hmem)
  | cons coord rest ih =>
      obtain ⟨update, hupdate, h⟩ := bind_ok h
      obtain ⟨others, hothers, h⟩ := bind_ok h
      cases h
      exact List.forall_mem_cons.mpr ⟨small_updateOf hupdate, ih hothers⟩

theorem small_encodeTiles (h : encodeTiles surface size coords = .ok updates) : ∀ update ∈ updates, update.Small := by
  obtain ⟨grid, -, h⟩ := bind_ok h
  exact small_encodeEach h

theorem small_diffLoop (h : diffLoop grid previous current coords = .ok updates) :
    ∀ update ∈ updates, update.Small := by
  induction coords generalizing updates with
  | nil =>
      cases h
      exact fun update hmem => (nomatch hmem)
  | cons coord rest ih =>
      obtain ⟨bounds, -, h⟩ := bind_ok h
      obtain ⟨tile, -, h⟩ := bind_ok h
      have hrest : ∀ same : Bool, (if same then diffLoop grid previous current rest else do
          let update ← updateOf grid current coord
          let updates ← diffLoop grid previous current rest
          return update :: updates) = .ok updates → ∀ update ∈ updates, update.Small := by
        intro same h
        split at h
        · exact ih h
        · obtain ⟨update, hupdate, h⟩ := bind_ok h
          obtain ⟨others, hothers, h⟩ := bind_ok h
          cases h
          exact List.forall_mem_cons.mpr ⟨small_updateOf hupdate, ih hothers⟩
      cases previous with
      | none => exact hrest false h
      | some held =>
          obtain ⟨same, -, h⟩ := bind_ok h
          exact hrest same h

theorem small_diff (h : diff previous current size = .ok updates) : ∀ update ∈ updates, update.Small := by
  have hgrid : ∀ {found : List TileUpdate},
      (Grid.new size current.width current.height >>= fun grid => diffLoop grid previous current grid.coords) =
        .ok found → ∀ update ∈ found, update.Small := by
    intro found h
    obtain ⟨grid, -, h⟩ := bind_ok h
    exact small_diffLoop h
  cases previous with
  | none => exact hgrid h
  | some held =>
      unfold diff at h
      dsimp only at h
      split at h
      · cases h
      · exact hgrid h

namespace Viewer

theorem small_frameUpdates {owed : List TileCoord} {keyframe : Bool}
    (h : frameUpdates size owed previous current keyframe = .ok updates) : ∀ update ∈ updates, update.Small := by
  unfold frameUpdates at h
  split at h
  · cases h
  · rename_i changed hchanged
    split at h
    · cases h
      exact small_diff hchanged
    · split at h
      · cases h
      · rename_i carried hcarried
        cases h
        intro update hmem
        rw [List.mem_insertionSort, List.mem_append] at hmem
        rcases hmem with hmem | hmem
        · exact small_diff hchanged update hmem
        · exact small_encodeTiles hcarried update hmem

/-! ## Strokes -/

/-- One thing a viewer does as it draws. -/
inductive Stroke (world : World) : Viewer → Viewer → Prop where
  | note {viewer : Viewer} (previous : Option Surface) (previousMonitor : Option UInt8) (owed : List TileCoord)
      (sequence : UInt64) (reads : Nat) : Stroke world viewer { viewer with
        previous := previous, previousMonitor := previousMonitor, owed := owed, sequence := sequence, reads := reads }
  | frameBegin {viewer : Viewer} (frame : FrameBegin) : Stroke world viewer (viewer.write world (.frameBegin frame))
  | frameEnd {viewer : Viewer} (sequence : UInt64) : Stroke world viewer (viewer.write world (.frameEnd sequence))
  | tile {viewer : Viewer} (monitor : UInt8) {update : TileUpdate} : update.Small → viewer.ending = none →
      viewer.peerWindow ≠ some 0 → Stroke world viewer
        ((viewer.write world (.tile monitor update)).andThen (spend (Message.tile monitor update).encodedLen))

/-- Any number of strokes. -/
def Draws (world : World) : Viewer → Viewer → Prop := Relation.ReflTransGen (Stroke world)

variable {ceilings : Ceilings} {world : World} {viewer viewer' : Viewer}

theorem Stroke.draws (h : Stroke world viewer viewer') : Draws world viewer viewer' := .single h

theorem Draws.andThen {next : Viewer → Viewer} (h : Draws world viewer viewer')
    (hnext : viewer'.ending = none → Draws world viewer' (next viewer')) :
    Draws world viewer (viewer'.andThen next) := by
  unfold Viewer.andThen
  split
  · exact h
  · rename_i hending
    exact h.trans (hnext (by simpa using hending))

theorem peerWindow_ne_zero (h : viewer.affordable world ≠ 0) : viewer.peerWindow ≠ some 0 := by
  intro hzero
  refine h ?_
  rw [affordable, hzero]
  exact UInt32.toNat_inj.mp ((UInt32.toNat_min _ _).trans (Nat.min_zero _))

theorem draws_read : Draws world viewer viewer.read :=
  (Stroke.note viewer.previous viewer.previousMonitor viewer.owed viewer.sequence (viewer.reads + 1)).draws

theorem draws_deliverTiles {monitor : UInt8} {deferred : List TileCoord} (hsmall : ∀ update ∈ updates, update.Small)
    (hending : viewer.ending = none) :
    Draws world viewer (deliverTiles world monitor updates deferred viewer).1 := by
  induction updates generalizing viewer deferred with
  | nil => exact .refl
  | cons update rest ih =>
      rw [List.forall_mem_cons] at hsmall
      unfold deliverTiles
      split
      · exact draws_read.trans (ih hsmall.2 hending)
      · rename_i hcredit
        have hwindow : viewer.read.peerWindow ≠ some 0 := @peerWindow_ne_zero world viewer hcredit
        have htile : Draws world viewer.read ((viewer.read.write world (.tile monitor update)).andThen
            (spend (Message.tile monitor update).encodedLen)) :=
          (Stroke.tile monitor hsmall.1 (show viewer.read.ending = none from hending) hwindow).draws
        dsimp only
        split
        · rename_i hended
          rw [andThen_of_some hended] at htile
          exact draws_read.trans htile
        · rename_i hended
          rw [Bool.not_eq_true, Option.isSome_eq_false_iff, Option.isNone_iff_eq_none] at hended
          rw [andThen_of_none hended] at htile
          exact (draws_read.trans htile).trans (ih hsmall.2 ((spend_ending _).trans hended))

theorem draws_deliverFrame {monitor : UInt8} {width height : Nat} {keyframe : Bool}
    (hsmall : ∀ update ∈ updates, update.Small) :
    Draws world viewer (viewer.deliverFrame world monitor width height updates keyframe) := by
  unfold deliverFrame
  refine Draws.andThen (Stroke.frameBegin _).draws fun hending => ?_
  refine Draws.andThen (draws_deliverTiles hsmall hending) fun _ => ?_
  exact Draws.andThen (Stroke.frameEnd _).draws fun _ => (Stroke.note _ _ _ _ _).draws

theorem draws_sendFrame (frame : CapturedFrame) : Draws world viewer (viewer.sendFrame ceilings world frame) := by
  have hshaped : Draws world viewer (viewer.reshape frame) := by
    unfold reshape
    split
    · exact (Stroke.note _ _ _ _ _).draws
    · exact .refl
  unfold sendFrame
  refine hshaped.trans ?_
  generalize viewer.reshape frame = shaped
  dsimp only
  split
  · exact (Stroke.note _ _ _ _ _).draws
  · rename_i updates hupdates
    split
    · exact .refl
    · split
      · exact draws_read
      · have hcommit : Draws world shaped { shaped.read with
            previous := some frame.surface, previousMonitor := some frame.monitor } := (Stroke.note _ _ _ _ _).draws
        exact hcommit.trans (draws_deliverFrame (small_frameUpdates hupdates))

theorem draws_flushOwed : Draws world viewer (viewer.flushOwed ceilings world) := by
  unfold flushOwed
  split
  · exact .refl
  · split
    · exact draws_read
    · refine draws_read.trans ?_
      generalize viewer.read = read
      dsimp only
      split
      · split
        · exact (Stroke.note _ _ _ _ _).draws
        · rename_i updates hupdates
          exact draws_deliverFrame (small_encodeTiles hupdates)
      · exact (Stroke.note _ _ _ _ _).draws

/-! ## What is not charged -/

/-- Nothing but messages that cost the client's window nothing was written, and the window is as it was. -/
structure Plain (viewer viewer' : Viewer) : Prop where
  sent : ∃ messages, viewer'.sent = viewer.sent ++ messages ∧ ∀ message ∈ messages, message.encodedLen = 0
  peerWindow : viewer'.peerWindow = viewer.peerWindow

namespace Plain

variable {viewer'' : Viewer} {standing : Option Standing} {now : Instant}

theorem same (hsent : viewer'.sent = viewer.sent) (hwindow : viewer'.peerWindow = viewer.peerWindow) :
    Plain viewer viewer' :=
  ⟨⟨[], hsent.trans (List.append_nil _).symm, fun _ hmem => (nomatch hmem)⟩, hwindow⟩

theorem refl (viewer : Viewer) : Plain viewer viewer := .same rfl rfl

theorem trans (h : Plain viewer viewer') (h' : Plain viewer' viewer'') : Plain viewer viewer'' := by
  obtain ⟨front, hfront, hfree⟩ := h.sent
  obtain ⟨back, hback, hfree'⟩ := h'.sent
  refine ⟨⟨front ++ back, by rw [hback, hfront, List.append_assoc], ?_⟩, h'.peerWindow.trans h.peerWindow⟩
  intro message hmem
  rcases List.mem_append.mp hmem with hmem | hmem
  · exact hfree message hmem
  · exact hfree' message hmem

theorem one {message : Message} (hfree : message.encodedLen = 0) (hsent : viewer'.sent = viewer.sent ++ [message])
    (hwindow : viewer'.peerWindow = viewer.peerWindow) : Plain viewer viewer' :=
  ⟨⟨[message], hsent, fun _ hmem => List.mem_singleton.mp hmem ▸ hfree⟩, hwindow⟩

theorem write {message : Message} (hfree : message.encodedLen = 0) : Plain viewer (viewer.write world message) := by
  unfold Viewer.write
  split
  · exact .one hfree rfl rfl
  · exact .same rfl rfl

theorem announce (notice : Option Notice) : Plain viewer (viewer.announce world notice) := by
  unfold Viewer.announce
  split
  · exact .write rfl
  · exact .refl viewer

theorem act (action : Action) : Plain viewer (viewer.act action) := by
  unfold Viewer.act
  split
  · exact .refl viewer
  · exact .refl viewer
  · exact .refl viewer
  · exact .same rfl rfl
  · exact .same rfl rfl
  · split <;> exact .same rfl rfl

theorem track (message : Message) : Plain viewer (viewer.track message).2 := by
  unfold Viewer.track
  split <;> exact .same rfl rfl

theorem drive (message : Message) (standing : Option Standing) (now : Instant) :
    Plain viewer (viewer.drive ceilings world message standing now) := by
  unfold Viewer.drive
  split
  · exact .same rfl rfl
  · split
    · exact .write rfl
    · have htracked := @Plain.track viewer message
      generalize viewer.track message = result at htracked ⊢
      obtain ⟨forward, tracked⟩ := result
      dsimp only at htracked ⊢
      split
      · exact htracked
      · have hhanded : ∀ gate, Plain viewer (tracked.hand world message gate) :=
          fun gate => htracked.trans (.same rfl rfl)
        split
        · exact htracked.trans (.same rfl rfl)
        · exact hhanded _
        · exact (hhanded _).trans (.write rfl)

theorem releaseEverything : Plain viewer (viewer.releaseEverything world) := by
  have hlift : ∀ (messages : List Message) (viewer : Viewer), Plain viewer (messages.foldl (lift world) viewer) := by
    intro messages
    induction messages with
    | nil => exact .refl
    | cons message rest ih =>
        intro viewer
        have hfirst : Plain viewer (viewer.lift world message) := .same rfl rfl
        exact hfirst.trans (ih _)
  have hdrained : Plain viewer { viewer with
      held := viewer.held.drain.2, buttons := viewer.buttons.drain.2 } := .same rfl rfl
  exact hdrained.trans (hlift _ _)

theorem closing : Plain viewer (closing world viewer) := by
  have hreleased := @releaseEverything world viewer
  unfold Viewer.closing
  split
  · unfold Viewer.finish
    dsimp only
    split
    · split
      · exact hreleased.trans (.one rfl rfl rfl)
      · exact hreleased
    · exact hreleased
  · exact .refl viewer

end Plain

/-- The credit an event brings. -/
def Event.grant : Event → Option UInt32
  | .receive (some (.credit bytes)) _ _ => some bytes
  | _ => none

theorem grant_eq_some {event : Event} {bytes : UInt32} (h : event.grant = some bytes) :
    ∃ standing now, event = .receive (some (.credit bytes)) standing now := by
  unfold Event.grant at h
  split at h
  · cases h
    exact ⟨_, _, rfl⟩
  · cases h

/-- A message of the client other than a grant is answered with nothing that is charged. -/
theorem plain_receive {message : Option Message} {standing : Option Standing} {now : Instant}
    (h : (Event.receive message standing now).grant = none) :
    Plain viewer (viewer.receive ceilings world message standing now) := by
  cases message with
  | none => exact .same rfl rfl
  | some message =>
      cases message with
      | releaseAll => exact .releaseEverything
      | requestFullFrame monitor => exact .same rfl rfl
      | credit bytes => cases h
      | key usage down => exact .drive (.key usage down) standing now
      | text text => exact .drive (.text text) standing now
      | pointerMove monitor x y => exact .drive (.pointerMove monitor x y) standing now
      | button which down => exact .drive (.button which down) standing now
      | scroll dx dy => exact .drive (.scroll dx dy) standing now
      | _ => exact .same rfl rfl

theorem plain_revalidate {standing : Option Standing} {now : Instant} :
    Plain viewer (viewer.revalidate ceilings standing now) := by
  unfold revalidate
  split <;> exact .same rfl rfl

end Viewer

end Selfhost.Desk
