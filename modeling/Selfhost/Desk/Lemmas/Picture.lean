import Selfhost.Desk.Viewer
import Selfhost.Desk.Lemmas.Tiles

/-!
# What the client shows

A frame is delivered tile by tile. The client then shows the frame, but for the tiles that were deferred.
-/

namespace Selfhost.Desk

open Selfhost.Lib

/-! ## The client -/

theorem Surface.grid_congr {surface other : Surface} {size : TileSize} (hwidth : surface.width = other.width)
    (hheight : surface.height = other.height) : surface.grid size = other.grid size := by
  unfold Surface.grid
  congr 1

namespace Screen

variable {tile : TileSize} {screen : Screen} {surface client : Surface} {messages : List Message}

/-- The client shows a surface of the size of another. -/
structure Drawn (tile : TileSize) (surface : Surface) (screen : Screen) (client : Surface) : Prop where
  size : screen.tile = tile
  frame : screen.frame = some client
  grid : screen.grid = some (surface.grid tile)
  width : client.width = surface.width
  height : client.height = surface.height

theorem shown_append (tile : TileSize) (messages : List Message) (message : Message) :
    shown tile (messages ++ [message]) = (shown tile messages).bind (take · message) := by
  unfold shown
  rw [List.foldlM_append]
  cases messages.foldlM take (new tile) with
  | error error => rfl
  | ok screen =>
      simp only [List.foldlM_cons, List.foldlM_nil, bind, Except.bind, pure, Except.pure]
      cases screen.take message <;> rfl

theorem begin_ok (frame : FrameBegin) (hwidth : frame.width = surface.width) (hheight : frame.height = surface.height) :
    ∃ screen' client, screen.begin frame = .ok screen' ∧ Drawn screen.tile surface screen' client ∧
      ∀ old, screen.frame = some old → old.width = surface.width → old.height = surface.height → client = old := by
  have hgrid : Grid.new screen.tile frame.width frame.height = .ok (surface.grid screen.tile) := by
    rw [hwidth, hheight, surface.grid_new]
  unfold begin
  cases hrebuild : screen.rebuilds frame with
  | true =>
      have hblank : Surface.blank frame.width frame.height = .ok ⟨surface.width, surface.height,
          List.replicate (surface.height * (surface.width * bytesPerPixel)) 0, surface.legalWidth, surface.legalHeight,
          List.length_replicate⟩ := by
        rw [hwidth, hheight, Surface.blank, dif_pos surface.legalWidth, dif_pos surface.legalHeight]
      simp only [if_true, hblank, hgrid, Except.map, bind, Except.bind, pure, Except.pure]
      refine ⟨_, _, rfl, ⟨rfl, rfl, rfl, rfl, rfl⟩, ?_⟩
      intro old hold hw hh
      simp only [rebuilds, hold, decide_eq_true_eq, hwidth, hheight, hw, hh, ne_eq, not_true_eq_false,
        or_self] at hrebuild
  | false =>
      unfold rebuilds at hrebuild
      cases hframe : screen.frame with
      | none =>
          rw [hframe] at hrebuild
          cases hrebuild
      | some old =>
          rw [hframe] at hrebuild
          simp only [decide_eq_false_iff_not, not_or, not_not] at hrebuild
          simp only [Bool.false_eq_true, if_false, hgrid, bind, Except.bind, pure, Except.pure]
          refine ⟨_, old, rfl, ⟨rfl, rfl, rfl, hrebuild.1.trans hwidth, hrebuild.2.trans hheight⟩, ?_⟩
          intro other hother _ _
          exact Option.some.inj hother

/-- A tile of the surface is placed: it is shown, and every other tile is as it was. -/
theorem place_ok {update : TileUpdate} (hdrawn : Drawn tile surface screen client)
    (hencodes : Surface.Encodes tile surface update) :
    ∃ screen' client', screen.place update = .ok screen' ∧ Drawn tile surface screen' client' ∧
      Surface.SameTile tile update.coord surface client' ∧
      ∀ coord ∈ (surface.grid tile).coords, coord ≠ update.coord →
        client'.tileBytes ((surface.grid tile).rect coord) = client.tileBytes ((surface.grid tile).rect coord) := by
  obtain ⟨hcoord, hencoded⟩ := hencodes
  have hholds : ∀ coord ∈ (surface.grid tile).coords, client.Holds ((surface.grid tile).rect coord) := by
    intro coord hmem
    obtain ⟨hx, hy⟩ := Surface.holds_rect hmem
    exact ⟨hdrawn.width ▸ hx, hdrawn.height ▸ hy⟩
  have hlen := Surface.length_tileBytes (Surface.holds_rect hcoord)
  have hdecode := decodeTile_encodeTile hencoded
  rw [hlen, ← Nat.mul_assoc, Nat.mul_div_cancel _ (by decide), Nat.mul_comm] at hdecode
  obtain ⟨after, hput, hwidth, hheight, hhere, hbeside⟩ := Surface.putTile_ok (hholds _ hcoord) hlen
  refine ⟨{ screen with frame := some after }, after, ?_, ?_, hhere.symm, ?_⟩
  · simp only [place, hdrawn.frame, hdrawn.grid, Grid.bounds_of_mem hcoord, hdecode, hput, Except.map]
  · exact ⟨hdrawn.size, rfl, hdrawn.grid, hwidth.trans hdrawn.width, hheight.trans hdrawn.height⟩
  · intro coord hmem hne
    exact hbeside _ (hholds coord hmem) (Grid.rect_beside hne.symm)

end Screen

namespace Viewer

variable {ceilings : Ceilings} {world : World} {viewer viewer' : Viewer} {tile : TileSize}

/-! ## Writing -/

theorem andThen_of_none {next : Viewer → Viewer} (h : viewer.ending = none) : viewer.andThen next = next viewer := by
  rw [andThen, h]
  rfl

theorem andThen_of_some {next : Viewer → Viewer} (h : viewer.ending.isSome = true) : viewer.andThen next = viewer := by
  rw [andThen, if_pos h]

/-- A sequence that did not end the stream. -/
theorem running_of_andThen {next : Viewer → Viewer} (h : (viewer.andThen next).ending = none) :
    viewer.ending = none ∧ (next viewer).ending = none ∧ viewer.andThen next = next viewer := by
  cases hending : viewer.ending with
  | none =>
      rw [andThen_of_none hending] at h
      exact ⟨rfl, h, andThen_of_none hending⟩
  | some ending =>
      rw [andThen_of_some (by rw [hending]; rfl), hending] at h
      cases h

theorem write_running {message : Message} (h : (viewer.write world message).ending = none) :
    viewer.write world message = { viewer with sent := viewer.sent ++ [message] } := by
  unfold write at h ⊢
  split at h
  · rfl
  · cases h

/-! ## Tiles -/

@[simp] theorem spend_ending (n : Nat) : (viewer.spend n).ending = viewer.ending := by
  unfold spend
  split <;> rfl

@[simp] theorem spend_sent (n : Nat) : (viewer.spend n).sent = viewer.sent := by
  unfold spend
  split <;> rfl

@[simp] theorem spend_previous (n : Nat) : (viewer.spend n).previous = viewer.previous := by
  unfold spend
  split <;> rfl

@[simp] theorem spend_previousMonitor (n : Nat) : (viewer.spend n).previousMonitor = viewer.previousMonitor := by
  unfold spend
  split <;> rfl

theorem mem_insertCoord {coord other : TileCoord} {set : List TileCoord} :
    other ∈ insertCoord coord set ↔ other = coord ∨ other ∈ set := by
  unfold insertCoord
  split
  · rename_i hmem
    constructor
    · exact .inr
    · rintro (rfl | h)
      · exact hmem
      · exact h
  · exact List.mem_orderedInsert ..

theorem deliverTiles_spent {monitor : UInt8} {update : TileUpdate} {rest : List TileUpdate} {deferred : List TileCoord}
    (h : viewer.affordable world = 0) : deliverTiles world monitor (update :: rest) deferred viewer =
      deliverTiles world monitor rest (insertCoord update.coord deferred) viewer.read := by
  rw [deliverTiles, if_pos h]

theorem deliverTiles_sent {monitor : UInt8} {update : TileUpdate} {rest : List TileUpdate}
    {deferred left : List TileCoord} {after : Viewer} (h : ¬ viewer.affordable world = 0)
    (hout : deliverTiles world monitor (update :: rest) deferred viewer = (after, left)) (hrun : after.ending = none) :
    deliverTiles world monitor rest deferred
      ({ viewer.read with sent := viewer.sent ++ [Message.tile monitor update] }.spend
        (Message.tile monitor update).encodedLen) = (after, left) := by
  rw [deliverTiles, if_neg h] at hout
  dsimp only at hout
  split at hout
  · rename_i hended
    obtain ⟨rfl, -⟩ := Prod.mk.inj hout
    rw [hrun] at hended
    cases hended
  · rename_i hgoes
    rw [write_running (by simpa using hgoes)] at hout
    exact hout

/-- The loop over the tiles of a frame leaves a client that shows every tile that was not deferred. -/
theorem deliverTiles_spec {surface : Surface} {monitor : UInt8} {updates : List TileUpdate}
    {deferred left : List TileCoord} {after : Viewer} {screen : Screen} {client : Surface}
    (hencodes : ∀ update ∈ updates, Surface.Encodes tile surface update)
    (hshown : Screen.shown tile viewer.sent = .ok screen) (hdrawn : Screen.Drawn tile surface screen client)
    (hout : deliverTiles world monitor updates deferred viewer = (after, left)) (hrun : after.ending = none) :
    ∃ screen' client', Screen.shown tile after.sent = .ok screen' ∧ Screen.Drawn tile surface screen' client' ∧
      after.previous = viewer.previous ∧ after.previousMonitor = viewer.previousMonitor ∧ deferred ⊆ left ∧
      (∀ coord ∈ left, coord ∈ deferred ∨ coord ∈ updates.map TileUpdate.coord) ∧
      ∀ coord ∈ (surface.grid tile).coords, coord ∉ left →
        (coord ∈ updates.map TileUpdate.coord → Surface.SameTile tile coord surface client') ∧
        (coord ∉ updates.map TileUpdate.coord →
          client'.tileBytes ((surface.grid tile).rect coord) = client.tileBytes ((surface.grid tile).rect coord)) := by
  induction updates generalizing viewer deferred screen client with
  | nil =>
      obtain ⟨rfl, rfl⟩ := Prod.mk.inj hout
      refine ⟨screen, client, hshown, hdrawn, rfl, rfl, List.Subset.refl _, fun coord hmem => .inl hmem, ?_⟩
      exact fun coord _ _ => ⟨fun hmem => (nomatch hmem), fun _ => rfl⟩
  | cons update rest ih =>
      have hrest := fun u hu => hencodes u (List.mem_cons_of_mem _ hu)
      by_cases hcredit : viewer.affordable world = 0
      · -- The window is spent: the tile is deferred and the rest goes on.
        rw [deliverTiles_spent hcredit] at hout
        obtain ⟨screen', client', hshown', hdrawn', hprevious, hmonitor, hkept, hfrom, htiles⟩ :=
          ih hrest (show Screen.shown tile viewer.read.sent = .ok screen from hshown) hdrawn hout
        refine ⟨screen', client', hshown', hdrawn', hprevious, hmonitor, ?_, ?_, ?_⟩
        · exact fun coord hmem => hkept (mem_insertCoord.mpr (.inr hmem))
        · intro coord hmem
          rcases hfrom coord hmem with h | h
          · rcases mem_insertCoord.mp h with rfl | h
            · exact .inr List.mem_cons_self
            · exact .inl h
          · exact .inr (List.mem_cons_of_mem _ h)
        · intro coord hmem hnot
          have hne : coord ≠ update.coord := by
            rintro rfl
            exact hnot (hkept (mem_insertCoord.mpr (.inl rfl)))
          obtain ⟨hsent, hother⟩ := htiles coord hmem hnot
          rw [List.map_cons, List.mem_cons]
          exact ⟨fun h => hsent (h.resolve_left hne), fun h => hother fun hin => h (.inr hin)⟩
      · obtain ⟨screen₁, client₁, hplace, hdrawn₁, hsame₁, hother₁⟩ :=
          Screen.place_ok hdrawn (hencodes update List.mem_cons_self)
        have hshown₁ : Screen.shown tile (viewer.sent ++ [.tile monitor update]) = .ok screen₁ := by
          rw [Screen.shown_append, hshown]
          exact hplace
        obtain ⟨screen', client', hshown', hdrawn', hprevious, hmonitor, hkept, hfrom, htiles⟩ :=
          ih hrest (by rw [spend_sent]; exact hshown₁) hdrawn₁ (deliverTiles_sent hcredit hout hrun)
        rw [spend_previous] at hprevious
        rw [spend_previousMonitor] at hmonitor
        refine ⟨screen', client', hshown', hdrawn', hprevious, hmonitor, hkept, ?_, ?_⟩
        · intro coord hmem
          rcases hfrom coord hmem with h | h
          · exact .inl h
          · exact .inr (List.mem_cons_of_mem _ h)
        · intro coord hmem hnot
          obtain ⟨hsent, hother⟩ := htiles coord hmem hnot
          rw [List.map_cons, List.mem_cons]
          refine ⟨?_, ?_⟩
          · intro h
            by_cases hlater : coord ∈ rest.map TileUpdate.coord
            · exact hsent hlater
            · obtain rfl := h.resolve_right hlater
              exact hsame₁.trans (hother hlater).symm
          · intro h
            rw [not_or] at h
            exact (hother h.2).trans (hother₁ coord hmem h.1)

/-! ## Frames -/

/-- A frame that is delivered as a whole: the client shows its tiles, but for those that are owed. -/
theorem deliverFrame_spec {surface : Surface} {monitor : UInt8} {updates : List TileUpdate} {keyframe : Bool}
    {screen : Screen} {after : Viewer} (hencodes : ∀ update ∈ updates, Surface.Encodes tile surface update)
    (hshown : Screen.shown tile viewer.sent = .ok screen) (hsize : screen.tile = tile)
    (hout : viewer.deliverFrame world monitor surface.width surface.height updates keyframe = after)
    (hrun : after.ending = none) :
    ∃ screen' client', Screen.shown tile after.sent = .ok screen' ∧ Screen.Drawn tile surface screen' client' ∧
      after.previous = viewer.previous ∧ after.previousMonitor = viewer.previousMonitor ∧
      (∀ coord ∈ after.owed, coord ∈ updates.map TileUpdate.coord) ∧
      ∀ coord ∈ (surface.grid tile).coords, coord ∉ after.owed →
        (coord ∈ updates.map TileUpdate.coord → Surface.SameTile tile coord surface client') ∧
        (coord ∉ updates.map TileUpdate.coord → ∀ old, screen.frame = some old → old.width = surface.width →
          old.height = surface.height →
          client'.tileBytes ((surface.grid tile).rect coord) = old.tileBytes ((surface.grid tile).rect coord)) := by
  subst hout
  unfold deliverFrame at hrun ⊢
  dsimp only at hrun ⊢
  obtain ⟨hbegin, hrun, heq⟩ := running_of_andThen hrun
  rw [heq]
  rw [write_running hbegin] at hrun ⊢
  rcases hout : deliverTiles world monitor updates []
    { viewer with sent := viewer.sent ++ [Message.frameBegin
      ⟨monitor, viewer.sequence + 1, surface.width, surface.height, keyframe⟩] } with ⟨after, left⟩
  rw [hout] at hrun
  dsimp only at hrun ⊢
  obtain ⟨hafter, hrun, heq⟩ := running_of_andThen hrun
  rw [heq]
  obtain ⟨hend, -, heq⟩ := running_of_andThen hrun
  rw [heq, write_running hend]
  obtain ⟨screen₁, client₁, hbegun, hdrawn₁, hkept⟩ :=
    @Screen.begin_ok screen surface ⟨monitor, viewer.sequence + 1, surface.width, surface.height, keyframe⟩ rfl rfl
  rw [hsize] at hdrawn₁
  have hshown₁ : Screen.shown tile (viewer.sent ++ [Message.frameBegin
      ⟨monitor, viewer.sequence + 1, surface.width, surface.height, keyframe⟩]) = .ok screen₁ := by
    rw [Screen.shown_append, hshown]
    exact hbegun
  obtain ⟨screen', client', hshown', hdrawn', hprevious, hmonitor, -, hfrom, htiles⟩ :=
    deliverTiles_spec hencodes hshown₁ hdrawn₁ hout hafter
  refine ⟨screen', client', ?_, hdrawn', hprevious, hmonitor, ?_, ?_⟩
  · rw [Screen.shown_append, hshown']
    rfl
  · intro coord hmem
    exact (hfrom coord hmem).resolve_left (by simp)
  · intro coord hmem hnot
    obtain ⟨hsent, hother⟩ := htiles coord hmem hnot
    refine ⟨hsent, fun hnone old hold hw hh => ?_⟩
    rw [hother hnone, hkept old hold hw hh]

theorem frameUpdates_ok {owed : List TileCoord} {previous : Option Surface} {current : Surface} {keyframe : Bool}
    (hsize : ∀ held, previous = some held → held.width = current.width ∧ held.height = current.height)
    (howed : ∀ coord ∈ owed, coord ∈ (current.grid tile).coords) (hkeyframe : keyframe = true → owed = []) :
    ∃ updates, frameUpdates tile owed previous current keyframe = .ok updates ∧
      (∀ update ∈ updates, Surface.Encodes tile current update) ∧
      ∀ coord ∈ (current.grid tile).coords, coord ∉ updates.map TileUpdate.coord →
        coord ∉ owed ∧ ∃ held, previous = some held ∧ Surface.SameTile tile coord current held := by
  obtain ⟨updates, hdiff, hencodes, hkept⟩ := @Surface.diff_ok current tile previous hsize
  unfold frameUpdates
  rw [hdiff]
  dsimp only
  by_cases hplain : (keyframe || owed.isEmpty) = true
  · have hnone : owed = [] := by
      rcases Bool.or_eq_true_iff.mp hplain with h | h
      · exact hkeyframe h
      · exact List.isEmpty_iff.mp h
    rw [if_pos hplain]
    refine ⟨updates, rfl, hencodes, fun coord hmem hnot => ⟨?_, hkept coord hmem hnot⟩⟩
    rw [hnone]
    exact List.not_mem_nil
  · obtain ⟨carried, hcarried, hcoords, hencodes'⟩ := @Surface.encodeTiles_ok current tile
      (owed.filter fun coord => coord ∉ updates.map TileUpdate.coord)
      fun coord hmem => howed coord (List.mem_filter.mp hmem).1
    rw [if_neg hplain, hcarried]
    refine ⟨_, rfl, ?_, ?_⟩
    · intro update hmem
      rcases List.mem_append.mp ((List.mem_insertionSort _).mp hmem) with h | h
      · exact hencodes update h
      · exact hencodes' update h
    · intro coord hmem hnot
      have hperm := (List.perm_insertionSort updateLe (updates ++ carried)).map TileUpdate.coord
      rw [hperm.mem_iff, List.map_append, List.mem_append, not_or, hcoords] at hnot
      refine ⟨fun howed => hnot.2 ?_, hkept coord hmem hnot.1⟩
      exact List.mem_filter.mpr ⟨howed, by simpa using hnot.1⟩

/-! ## The picture of a viewer -/

/-- What is known of the client's picture: it is the remembered frame, but for the tiles that are owed. -/
def Pictured (tile : TileSize) (viewer : Viewer) : Prop :=
  ∃ screen, Screen.shown tile viewer.sent = .ok screen ∧ screen.tile = tile ∧
    (viewer.previous = none → viewer.owed = []) ∧
    ∀ held, viewer.previous = some held → viewer.previousMonitor.isSome = true ∧
      (∀ coord ∈ viewer.owed, coord ∈ (held.grid tile).coords) ∧
      ∃ client, screen.frame = some client ∧ client.width = held.width ∧ client.height = held.height ∧
        ∀ coord ∈ (held.grid tile).coords, coord ∉ viewer.owed → Surface.SameTile tile coord held client

/-- Nothing that concerns the picture has changed. -/
structure SamePicture (tile : TileSize) (viewer viewer' : Viewer) : Prop where
  previous : viewer'.previous = viewer.previous
  previousMonitor : viewer'.previousMonitor = viewer.previousMonitor
  owed : viewer'.owed = viewer.owed
  shown : Screen.shown tile viewer'.sent = Screen.shown tile viewer.sent

theorem SamePicture.refl (viewer : Viewer) : SamePicture tile viewer viewer := ⟨rfl, rfl, rfl, rfl⟩

theorem SamePicture.trans {viewer'' : Viewer} (h : SamePicture tile viewer viewer')
    (h' : SamePicture tile viewer' viewer'') : SamePicture tile viewer viewer'' :=
  ⟨h'.previous.trans h.previous, h'.previousMonitor.trans h.previousMonitor, h'.owed.trans h.owed,
    h'.shown.trans h.shown⟩

theorem Pictured.same (h : Pictured tile viewer) (hsame : SamePicture tile viewer viewer') : Pictured tile viewer' := by
  unfold Pictured at h ⊢
  rw [hsame.previous, hsame.previousMonitor, hsame.owed, hsame.shown]
  exact h

theorem Pictured.forget (h : Pictured tile viewer) : Pictured tile viewer.forgetClientState := by
  obtain ⟨screen, hshown, hsize, -⟩ := h
  exact ⟨screen, hshown, hsize, fun _ => rfl, fun held hheld => (nomatch hheld)⟩

theorem Pictured.reshape (h : Pictured tile viewer) (frame : CapturedFrame) : Pictured tile (viewer.reshape frame) := by
  unfold Viewer.reshape
  split
  · obtain ⟨screen, hshown, hsize, -⟩ := h
    exact ⟨screen, hshown, hsize, fun _ => rfl, fun held hheld => (nomatch hheld)⟩
  · exact h

theorem reshape_previous {frame : CapturedFrame} {held : Surface} (h : (viewer.reshape frame).previous = some held) :
    held.width = frame.surface.width ∧ held.height = frame.surface.height := by
  unfold Viewer.reshape at h
  split at h
  · cases h
  · rename_i hshape
    simp only [isNewShape, h, decide_eq_true_eq, not_or, not_not] at hshape
    exact ⟨hshape.1, hshape.2.1⟩

/-- A frame that is delivered over a picture leaves a picture. -/
theorem Pictured.deliver {surface : Surface} {monitor : UInt8} {updates : List TileUpdate} {keyframe : Bool}
    {screen : Screen} (hencodes : ∀ update ∈ updates, Surface.Encodes tile surface update)
    (hprevious : viewer.previous = some surface) (hmonitor : viewer.previousMonitor.isSome = true)
    (hshown : Screen.shown tile viewer.sent = .ok screen) (hsize : screen.tile = tile)
    (hrest : ∀ coord ∈ (surface.grid tile).coords, coord ∉ updates.map TileUpdate.coord →
      ∃ client, screen.frame = some client ∧ client.width = surface.width ∧ client.height = surface.height ∧
        Surface.SameTile tile coord surface client)
    (hrun : (viewer.deliverFrame world monitor surface.width surface.height updates keyframe).ending = none) :
    Pictured tile (viewer.deliverFrame world monitor surface.width surface.height updates keyframe) := by
  obtain ⟨screen', client', hshown', hdrawn, hprevious', hmonitor', howed, htiles⟩ :=
    deliverFrame_spec hencodes hshown hsize rfl hrun
  refine ⟨screen', hshown', hdrawn.size, ?_, ?_⟩
  · intro hnone
    rw [hprevious', hprevious] at hnone
    cases hnone
  · intro held hheld
    rw [hprevious', hprevious] at hheld
    cases hheld
    refine ⟨hmonitor' ▸ hmonitor, ?_, client', hdrawn.frame, hdrawn.width, hdrawn.height, ?_⟩
    · intro coord hmem
      obtain ⟨update, hupdate, rfl⟩ := List.mem_map.mp (howed coord hmem)
      exact (hencodes update hupdate).inGrid
    · intro coord hmem hnot
      obtain ⟨hsent, hother⟩ := htiles coord hmem hnot
      by_cases hin : coord ∈ updates.map TileUpdate.coord
      · exact hsent hin
      · obtain ⟨old, hold, hw, hh, hsame⟩ := hrest coord hmem hin
        exact hsame.trans (hother hin old hold hw hh).symm

theorem Pictured.sendFrame (h : Pictured ceilings.tile viewer) {frame : CapturedFrame}
    (hrun : (viewer.sendFrame ceilings world frame).ending = none) :
    Pictured ceilings.tile (viewer.sendFrame ceilings world frame) := by
  have hreshaped := h.reshape frame
  have hshape := @reshape_previous viewer frame
  unfold Viewer.sendFrame at hrun ⊢
  dsimp only at hrun ⊢
  generalize viewer.reshape frame = shaped at hreshaped hshape hrun ⊢
  obtain ⟨screen, hshown, hsize, hnone, hheld⟩ := hreshaped
  have howed : ∀ coord ∈ shaped.owed, coord ∈ (frame.surface.grid ceilings.tile).coords := by
    intro coord hmem
    cases hprevious : shaped.previous with
    | none =>
        rw [hnone hprevious] at hmem
        cases hmem
    | some held =>
        obtain ⟨hw, hh⟩ := hshape hprevious
        rw [← Surface.grid_congr hw hh]
        exact (hheld held hprevious).2.1 coord hmem
  obtain ⟨updates, hupdates, hencodes, hkept⟩ := @frameUpdates_ok ceilings.tile shaped.owed shaped.previous
    frame.surface shaped.previous.isNone (fun held hprevious => hshape hprevious) howed
    (fun hkey => hnone (Option.isNone_iff_eq_none.mp hkey))
  rw [hupdates] at hrun ⊢
  dsimp only at hrun ⊢
  split
  · exact ⟨screen, hshown, hsize, hnone, hheld⟩
  · rename_i hsome
    rw [if_neg hsome] at hrun
    split
    · exact ⟨screen, hshown, hsize, hnone, hheld⟩
    · rename_i hcredit
      rw [if_neg hcredit] at hrun
      refine Pictured.deliver hencodes rfl rfl hshown hsize ?_ hrun
      intro coord hmem hnot
      obtain ⟨hnotOwed, held, hprevious, hsame⟩ := hkept coord hmem hnot
      obtain ⟨hw, hh⟩ := hshape hprevious
      obtain ⟨-, -, client, hclient, hcw, hch, htiles⟩ := hheld held hprevious
      refine ⟨client, hclient, hcw.trans hw, hch.trans hh, ?_⟩
      have hheldTile := htiles coord (Surface.grid_congr hw hh ▸ hmem) hnotOwed
      unfold Surface.SameTile at hheldTile hsame ⊢
      rw [Surface.grid_congr hw hh] at hheldTile
      exact hsame.trans hheldTile

theorem Pictured.flushOwed (h : Pictured ceilings.tile viewer)
    (hrun : (viewer.flushOwed ceilings world).ending = none) :
    Pictured ceilings.tile (viewer.flushOwed ceilings world) := by
  have hpicture := h
  obtain ⟨screen, hshown, hsize, hnone, hheld⟩ := h
  unfold Viewer.flushOwed at hrun ⊢
  split
  · exact hpicture
  · rename_i howes
    rw [if_neg howes] at hrun
    split
    · exact ⟨screen, hshown, hsize, hnone, hheld⟩
    · rename_i hcredit
      rw [if_neg hcredit] at hrun
      dsimp only at hrun ⊢
      cases hprevious : viewer.previous with
      | none => exact absurd (List.isEmpty_iff.mpr (hnone hprevious)) howes
      | some held =>
          obtain ⟨hmonitor, howed, client, hclient, hw, hh, htiles⟩ := hheld held hprevious
          obtain ⟨monitor, hmonitor'⟩ := Option.isSome_iff_exists.mp hmonitor
          obtain ⟨updates, hupdates, hcoords, hencodes⟩ := Surface.encodeTiles_ok howed
          simp only [read, hprevious, hmonitor', hupdates] at hrun ⊢
          refine Pictured.deliver hencodes rfl rfl hshown hsize ?_ hrun
          intro coord hmem hnot
          rw [hcoords] at hnot
          exact ⟨client, hclient, hw, hh, htiles coord hmem hnot⟩

/-! ## What draws nothing -/

/-- A message that draws nothing. -/
def Quiet (message : Message) : Prop := ∀ screen : Screen, screen.take message = .ok screen

theorem SamePicture.write {message : Message} (hquiet : Quiet message) :
    SamePicture tile viewer (viewer.write world message) := by
  unfold Viewer.write
  split
  · refine ⟨rfl, rfl, rfl, ?_⟩
    rw [Screen.shown_append]
    cases Screen.shown tile viewer.sent with
    | error error => rfl
    | ok screen => exact hquiet screen
  · exact ⟨rfl, rfl, rfl, rfl⟩

theorem SamePicture.stop (ending : Ending) : SamePicture tile viewer (viewer.stop ending) := ⟨rfl, rfl, rfl, rfl⟩

theorem SamePicture.andThen {next : Viewer → Viewer} (h : SamePicture tile viewer viewer')
    (hnext : SamePicture tile viewer' (next viewer')) : SamePicture tile viewer (viewer'.andThen next) := by
  unfold Viewer.andThen
  split
  · exact h
  · exact h.trans hnext

theorem SamePicture.spend (n : Nat) : SamePicture tile viewer (viewer.spend n) := by
  unfold Viewer.spend
  split <;> exact ⟨rfl, rfl, rfl, rfl⟩

theorem SamePicture.writeAll {messages : List Message} (hquiet : ∀ message ∈ messages, Quiet message) :
    SamePicture tile viewer (viewer.writeAll world messages) := by
  unfold Viewer.writeAll
  induction messages generalizing viewer with
  | nil => exact .refl viewer
  | cons message rest ih =>
      rw [List.foldl_cons]
      have hfirst : SamePicture tile viewer (viewer.andThen fun viewer =>
          (viewer.write world message).andThen (Viewer.spend message.encodedLen)) :=
        SamePicture.andThen (.refl viewer)
          (SamePicture.andThen (.write (hquiet message List.mem_cons_self)) (.spend _))
      exact hfirst.trans (ih fun message hmem => hquiet message (List.mem_cons_of_mem _ hmem))

theorem shapeMessages_quiet {reading : PointerReading} {id : Option ShapeId} {messages : List Message}
    (h : shapeMessages reading id = some messages) : ∀ message ∈ messages, Quiet message := by
  intro message hmem
  unfold shapeMessages at h
  split at h
  · cases h
    cases hmem
  · split at h
    · cases h
    · cases h
      obtain ⟨shape, -, hmessage⟩ := Option.bind_eq_some_iff.mp (Option.mem_toList.mp hmem)
      unfold cursorMessage at hmessage
      split at hmessage
      · cases hmessage
      · split at hmessage
        · cases hmessage
        · split at hmessage
          · cases hmessage
          · cases hmessage
            exact fun screen => rfl

theorem SamePicture.sendPointer (reading : PointerReading) :
    SamePicture tile viewer (viewer.sendPointer world reading) := by
  unfold Viewer.sendPointer
  split
  · exact ⟨rfl, rfl, rfl, rfl⟩
  · exact .refl viewer
  · rename_i pointer hpointer
    rcases viewer.cursor.observe pointer with ⟨emission, cursor⟩
    dsimp only
    split
    · exact ⟨rfl, rfl, rfl, rfl⟩
    · split
      · exact ⟨rfl, rfl, rfl, rfl⟩
      · rename_i shapes hshapes
        split
        · exact ⟨rfl, rfl, rfl, rfl⟩
        · have hread : SamePicture tile viewer (Viewer.read { viewer with cursor := cursor }) := ⟨rfl, rfl, rfl, rfl⟩
          refine hread.trans (.writeAll ?_)
          intro message hmem
          rcases List.mem_append.mp hmem with h | h
          · exact shapeMessages_quiet hshapes message h
          · obtain ⟨p, -, rfl⟩ := List.mem_map.mp h
            exact fun screen => rfl

theorem SamePicture.announce (notice : Option Notice) : SamePicture tile viewer (viewer.announce world notice) := by
  unfold Viewer.announce
  split
  · exact .write fun screen => rfl
  · exact .refl viewer

theorem SamePicture.act (action : Action) : SamePicture tile viewer (viewer.act action) := by
  unfold Viewer.act
  split
  · exact .refl viewer
  · exact .refl viewer
  · exact .refl viewer
  · exact ⟨rfl, rfl, rfl, rfl⟩
  · exact ⟨rfl, rfl, rfl, rfl⟩
  · split <;> exact ⟨rfl, rfl, rfl, rfl⟩

theorem SamePicture.track (message : Message) : SamePicture tile viewer (viewer.track message).2 := by
  unfold Viewer.track
  split <;> exact ⟨rfl, rfl, rfl, rfl⟩

theorem SamePicture.drive (message : Message) (standing : Option Standing) (now : Instant) :
    SamePicture tile viewer (viewer.drive ceilings world message standing now) := by
  have hrefused : ∀ reason, Quiet (.inputRefused reason) := fun reason screen => rfl
  unfold Viewer.drive
  split
  · exact ⟨rfl, rfl, rfl, rfl⟩
  · split
    · exact .write (hrefused _)
    · have htracked := @SamePicture.track viewer tile message
      generalize viewer.track message = result at htracked ⊢
      obtain ⟨forward, tracked⟩ := result
      dsimp only at htracked ⊢
      split
      · exact htracked
      · have hhanded : ∀ gate, SamePicture tile viewer (tracked.hand world message gate) :=
          fun gate => htracked.trans ⟨rfl, rfl, rfl, rfl⟩
        split
        · exact (hhanded _).trans (.stop _)
        · exact hhanded _
        · exact (hhanded _).trans (.write (hrefused _))

theorem SamePicture.foldl_lift (messages : List Message) :
    SamePicture tile viewer (messages.foldl (lift world) viewer) := by
  induction messages generalizing viewer with
  | nil => exact .refl viewer
  | cons message rest ih =>
      rw [List.foldl_cons]
      have hfirst : SamePicture tile viewer (viewer.lift world message) := ⟨rfl, rfl, rfl, rfl⟩
      exact hfirst.trans ih

theorem SamePicture.releaseEverything : SamePicture tile viewer (viewer.releaseEverything world) := by
  have hdrained : SamePicture tile viewer { viewer with
      held := viewer.held.drain.2, buttons := viewer.buttons.drain.2 } := ⟨rfl, rfl, rfl, rfl⟩
  exact hdrained.trans (.foldl_lift _)

/-! ## The end of a stream -/

@[simp] theorem foldl_lift_ending (messages : List Message) :
    (messages.foldl (lift world) viewer).ending = viewer.ending := by
  induction messages generalizing viewer with
  | nil => rfl
  | cons message rest ih =>
      rw [List.foldl_cons, ih]
      rfl

@[simp] theorem releaseEverything_ending : (viewer.releaseEverything world).ending = viewer.ending :=
  foldl_lift_ending _

@[simp] theorem finish_ending (ending : Ending) : (viewer.finish world ending).ending = viewer.ending := by
  unfold finish
  dsimp only
  split
  · split <;> simp
  · simp

/-- A step that leaves the stream running is what the event does. -/
theorem step_running {event : Event} (hstep : step ceilings world viewer event = some viewer')
    (hrun : viewer'.ending = none) : viewer.ending = none ∧ react ceilings world viewer event = viewer' := by
  unfold step at hstep
  split at hstep
  · cases hstep
  · rename_i hgoes
    have hclosed := Option.some.inj hstep
    unfold closing at hclosed
    split at hclosed
    · rename_i ending hending
      rw [← hclosed, finish_ending, hending] at hrun
      cases hrun
    · exact ⟨by simpa using hgoes, hclosed⟩

/-! ## Steps -/

theorem Pictured.present (h : Pictured ceilings.tile viewer) {reading : PointerReading}
    {captured : Option CapturedFrame} (hrun : (viewer.present ceilings world reading captured).ending = none) :
    Pictured ceilings.tile (viewer.present ceilings world reading captured) := by
  unfold Viewer.present at hrun ⊢
  split
  · rename_i hlive
    rw [if_pos hlive] at hrun
    cases captured with
    | none => exact h.flushOwed hrun
    | some frame =>
        obtain ⟨hsent, -, heq⟩ := running_of_andThen hrun
        dsimp only
        rw [heq]
        exact (h.sendFrame hsent).same (.sendPointer reading)
  · exact h

theorem Pictured.turn (h : Pictured ceilings.tile viewer) {source : Source} {now : Instant} {observation : Observation}
    {captured : Option CapturedFrame}
    (hrun : (viewer.turn ceilings world source now observation captured).ending = none) :
    Pictured ceilings.tile (viewer.turn ceilings world source now observation captured) := by
  unfold Viewer.turn at hrun ⊢
  generalize viewer.machine.observe observation now = result at hrun ⊢
  obtain ⟨machine, step⟩ := result
  dsimp only at hrun ⊢
  obtain ⟨hpresented, -, heq⟩ := running_of_andThen hrun
  rw [heq]
  refine Pictured.same ?_ (.act step.action)
  obtain ⟨-, hshown, heq⟩ := running_of_andThen hpresented
  rw [heq]
  have htold : Pictured ceilings.tile { viewer with machine := machine } := h.same ⟨rfl, rfl, rfl, rfl⟩
  exact (htold.same (.announce step.notice)).present hshown

theorem Pictured.pump (h : Pictured ceilings.tile viewer) {source : Source} {now : Instant}
    (hrun : (viewer.pump ceilings world source now).ending = none) :
    Pictured ceilings.tile (viewer.pump ceilings world source now) := by
  have hpending : Pictured ceilings.tile { viewer with pendingRestore := none } := h.same ⟨rfl, rfl, rfl, rfl⟩
  unfold Viewer.pump at hrun ⊢
  cases hrestore : viewer.pendingRestore with
  | some what =>
      rw [hrestore] at hrun
      dsimp only at hrun ⊢
      cases hanswer : source.restore with
      | elapsed =>
          rw [hanswer] at hrun
          cases hrun
      | given result =>
          rw [hanswer] at hrun
          cases result with
          | error condition => exact hpending.turn hrun
          | ok _ =>
              have hforgot : Pictured ceilings.tile
                  { ({ viewer with pendingRestore := none } : Viewer).forgetClientState with
                    cursor := viewer.cursor.forget } := hpending.forget.same ⟨rfl, rfl, rfl, rfl⟩
              exact hforgot.turn hrun
  | none =>
      rw [hrestore] at hrun
      dsimp only at hrun ⊢
      cases hanswer : source.next with
      | elapsed =>
          rw [hanswer] at hrun
          exact h.turn hrun
      | given result =>
          rw [hanswer] at hrun
          cases result with
          | error condition => exact h.turn hrun
          | ok frame => exact h.turn hrun

theorem Pictured.receive (h : Pictured ceilings.tile viewer) (message : Option Message) (standing : Option Standing)
    (now : Instant) : Pictured ceilings.tile (viewer.receive ceilings world message standing now) := by
  unfold Viewer.receive
  cases message with
  | none => exact h.same ⟨rfl, rfl, rfl, rfl⟩
  | some message =>
      dsimp only
      split
      · exact h.same ⟨rfl, rfl, rfl, rfl⟩
      · split
        · exact h.same .releaseEverything
        · exact h.forget.same ⟨rfl, rfl, rfl, rfl⟩
        · exact h.same ⟨rfl, rfl, rfl, rfl⟩
        · exact h.same (.drive _ standing now)

/-- Every step that leaves the stream running keeps the picture. -/
theorem Pictured.step (h : Pictured ceilings.tile viewer) {event : Event}
    (hstep : step ceilings world viewer event = some viewer') (hrun : viewer'.ending = none) :
    Pictured ceilings.tile viewer' := by
  obtain ⟨-, rfl⟩ := step_running hstep hrun
  cases event with
  | pump source now => exact h.pump hrun
  | receive message standing now => exact h.receive message standing now
  | revalidate standing now =>
      refine h.same ?_
      simp only [react, Viewer.revalidate]
      split <;> exact ⟨rfl, rfl, rfl, rfl⟩
  | ends ending => cases hrun

end Viewer

end Selfhost.Desk
