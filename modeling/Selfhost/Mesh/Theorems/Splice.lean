import Selfhost.Mesh.Splice

/-!
# A splice copies and closes once

What an end was sent is what came in at the other end, under its own channel, and at most one close, which is the
last thing it is sent.
-/

namespace Selfhost.Mesh

open Selfhost.Lib

/-! ## One frame -/

/-- The frame under another channel. -/
def Frame.onto (frame : Frame) (channel : ChannelId) : Frame :=
  ⟨{ frame.header with channel := channel }, frame.payload, frame.sized⟩

theorem rewrite_ok {header header' : Header} {onto : ChannelId} (h : rewrite header onto = .ok header') :
    mayCross header.kind = true ∧ header' = { header with channel := onto } := by
  unfold rewrite at h
  split at h
  · cases h
  · rename_i hcross
    split at h
    · cases h
    · cases h
      exact ⟨by simpa using hcross, rfl⟩

theorem Frame.ext_of {frame frame' : Frame} (hkind : frame.header.kind = frame'.header.kind)
    (hchannel : frame.header.channel = frame'.header.channel) (hpayload : frame.payload = frame'.payload) :
    frame = frame' := by
  obtain ⟨⟨kind, channel, length, hb⟩, payload, hs⟩ := frame
  obtain ⟨⟨kind', channel', length', hb'⟩, payload', hs'⟩ := frame'
  cases hkind
  cases hchannel
  cases hpayload
  have hlength : length = length' := UInt32.toNat_inj.mp (hs.symm.trans hs')
  cases hlength
  rfl

/-- What a link was sent as one message is the frame with these parts. -/
theorem sendFrame_some {e e' : End} {kind : Kind} {channel : ChannelId} {payload : Bytes}
    (h : e.sendFrame kind channel payload = some e') (hfits : payload.length ≤ maxPayload) :
    ∃ frame : Frame, frame.header.kind = kind ∧ frame.header.channel = channel ∧ frame.payload = payload ∧
      e' = { e with sent := e.sent ++ [frame.encode] } := by
  obtain ⟨frame, hencode, hkind, hchannel, hpayload⟩ := @encodeFrame_ok kind channel payload hfits
  refine ⟨frame, hkind, hchannel, hpayload, ?_⟩
  unfold End.sendFrame at h
  rw [hencode] at h
  dsimp only at h
  split at h
  · cases h
  · exact (Option.some.inj h).symm

theorem Frame.fits (frame : Frame) : frame.payload.length ≤ maxPayload := by
  rw [frame.sized]
  exact frame.header.bounded

theorem Close.encode_fits (close : Close) : close.encode.length ≤ maxPayload := by
  rw [Close.encode, length_be16]
  decide

/-! ## Sides -/

@[simp] theorem Side.other_other (side : Side) : side.other.other = side := by cases side <;> rfl

@[simp] theorem Side.other_ne (side : Side) : side.other ≠ side := by cases side <;> decide

@[simp] theorem Side.ne_other (side : Side) : side ≠ side.other := by cases side <;> decide

theorem Side.forall_of {P : Side → Prop} (side : Side) (h : P side) (hother : P side.other) : ∀ d, P d := by
  intro d
  cases side <;> cases d <;> assumption

namespace Splice

/-! ## One direction -/

/-- What the loop of a direction that carried some frames has taken and not written. -/
inductive Holds (onto : ChannelId) (carried : List Frame) : Pump → List Frame → Prop where
  | receiving {direction : Direction} (hopen : ∀ frame ∈ carried, frame.header.kind ≠ .close) :
      Holds onto carried (.receiving direction) []
  | sending {direction : Direction} {frame : Frame} (hopen : ∀ frame ∈ carried, frame.header.kind ≠ .close)
      (hcross : mayCross frame.header.kind = true) :
      Holds onto carried (.sending direction { frame.header with channel := onto } frame) [frame]
  | finished {direction : Direction} {held : List Frame} (hopen : ∀ frame ∈ carried, frame.header.kind ≠ .close)
      (hending : direction.ending.deliveredClose = false) : Holds onto carried (.finished direction) held
  | closed {direction : Direction} {before : List Frame} {frame : Frame} (hcarried : carried = before ++ [frame])
      (hopen : ∀ frame ∈ before, frame.header.kind ≠ .close) (hlast : frame.header.kind = .close)
      (hending : direction.ending.deliveredClose = true) : Holds onto carried (.finished direction) []

/-- A close was announced to an end only once its direction had ended without delivering one. -/
inductive Announced (target : End) (pump : Pump) : Bool → List Frame → Prop where
  | none {told : Bool} : Announced target pump told []
  | close {direction : Direction} {frame : Frame} (hpump : pump = .finished direction)
      (hending : direction.ending.deliveredClose = false) (hkind : frame.header.kind = .close)
      (hchannel : frame.header.channel = target.channel) : Announced target pump true [frame]

/-- One direction: the frames it carried, those its loop holds, and the close that was announced. -/
structure Carries (source target : End) (pump : Pump) (told : Bool) (carried held announced : List Frame) : Prop where
  received : source.received = carried ++ held ++ source.inbox
  sent : target.sent = (carried.map (Frame.onto · target.channel) ++ announced).map Frame.encode
  cross : ∀ frame ∈ carried, mayCross frame.header.kind = true
  holds : Holds target.channel carried pump held
  announces : Announced target pump told announced

/-- Whether the end of a side has been told what it has to be told. -/
def told (s : Splice) : Side → Bool
  | .right => s.teardown ≠ .waiting
  | .left => s.teardown = .toldBoth

def Direct (s : Splice) (side : Side) : Prop :=
  ∃ carried held announced,
    Carries (s.ends side) (s.ends side.other) (s.pumps side) (s.told side.other) carried held announced

def Inv (s : Splice) : Prop := ∀ side, s.Direct side

variable {s s' : Splice} {side : Side} {source target source' target' : End} {pump : Pump} {t : Bool}
  {carried held announced : List Frame} {direction : Direction} {frame : Frame}

theorem Inv.start {left right : End} (hleft : left.received = left.inbox) (hright : right.received = right.inbox)
    (hsl : left.sent = []) (hsr : right.sent = []) : (start left right).Inv := by
  intro side
  refine ⟨[], [], [], ?_, ?_, by simp, .receiving (by simp), .none⟩
  · cases side
    · exact hleft
    · exact hright
  · cases side
    · exact hsr
    · exact hsl

/-! ## What a direction does not see -/

theorem Announced.congr (h : Announced target pump t announced) (hchannel : target'.channel = target.channel) :
    Announced target' pump t announced := by
  cases h with
  | none => exact .none
  | close hpump hending hkind hframe => exact .close hpump hending hkind (hframe.trans hchannel.symm)

theorem Announced.frames (h : Announced target pump t announced) :
    announced.length ≤ 1 ∧
      ∀ frame ∈ announced, frame.header.kind = .close ∧ frame.header.channel = target.channel := by
  cases h with
  | none => simp
  | close _ _ hkind hchannel => simp [hkind, hchannel]

/-- Only the inbox of the source and the messages of the target matter. -/
theorem Carries.congr (h : Carries source target pump t carried held announced)
    (hreceived : source'.received = source.received) (hinbox : source'.inbox = source.inbox)
    (hsent : target'.sent = target.sent) (hchannel : target'.channel = target.channel) :
    Carries source' target' pump t carried held announced := by
  refine ⟨?_, ?_, h.cross, ?_, h.announces.congr hchannel⟩
  · rw [hreceived, hinbox, h.received]
  · rw [hsent, hchannel, h.sent]
  · rw [hchannel]
    exact h.holds

/-- As long as a direction runs, its target has been announced nothing. -/
theorem Carries.unannounced (h : Carries source target pump t carried held announced)
    (hpump : ∀ direction, pump ≠ .finished direction) : announced = [] := by
  cases h.announces with
  | none => rfl
  | close heq => exact absurd heq (hpump _)

/-! ## What one event does to a direction -/

theorem Carries.arrive (h : Carries source target pump t carried held announced) (frame : Frame) :
    Carries { source with inbox := source.inbox ++ [frame], received := source.received ++ [frame] } target pump t
      carried held announced where
  received := by simp [h.received]
  sent := h.sent
  cross := h.cross
  holds := h.holds
  announces := h.announces

/-- A direction ends at once, by learning that nothing comes any more. -/
theorem Carries.finish (h : Carries source target (.receiving direction) t carried held announced) {ending : SpliceEnd}
    (hending : ending.deliveredClose = false) :
    ∃ held announced, Carries source target (.finished { direction with ending := ending }) t carried held announced := by
  have hnone := h.unannounced (by simp)
  have hholds := h.holds
  cases hholds with
  | receiving hopen => exact ⟨[], [], h.received, by rw [h.sent, hnone], h.cross, .finished hopen hending, .none⟩

/-- The next frame comes over, and is rewritten or ends the direction. -/
theorem Carries.take (h : Carries source target (.receiving direction) t carried held announced) {inbox : List Frame}
    (hinbox : source.inbox = frame :: inbox) :
    (∀ error, rewrite frame.header target.channel = .error error →
      ∃ held announced, Carries { source with inbox := inbox } target
        (.finished { direction with ending := .refused error }) t carried held announced) ∧
    ∀ header, rewrite frame.header target.channel = .ok header →
      ∃ held announced, Carries { source with inbox := inbox } target (.sending direction header frame) t carried held
        announced := by
  have hnone := h.unannounced (by simp)
  have hsent := h.sent
  have hreceived := h.received
  have hholds := h.holds
  cases hholds with
  | receiving hopen =>
      rw [hnone] at hsent
      rw [hinbox] at hreceived
      constructor
      · intro error _
        exact ⟨[frame], [], by simpa using hreceived, hsent, h.cross, .finished hopen rfl, .none⟩
      · intro header hrewrite
        obtain ⟨hcross, rfl⟩ := rewrite_ok hrewrite
        exact ⟨[frame], [], by simpa using hreceived, hsent, h.cross, .sending hopen hcross, .none⟩

/-- A frame that is on its way is written, or its link is found to be gone. -/
theorem Carries.written {header : Header}
    (h : Carries source target (.sending direction header frame) t carried held announced) :
    (∃ held announced, Carries source target (.finished { direction with ending := .linkGone }) t carried held
      announced) ∧
    ∀ target', target.sendFrame header.kind header.channel frame.payload = some target' →
      (header.kind ≠ .close → ∀ direction, ∃ carried held announced,
        Carries source target' (.receiving direction) t carried held announced) ∧
      (header.kind = .close → ∀ direction, direction.ending.deliveredClose = true → ∃ carried held announced,
        Carries source target' (.finished direction) t carried held announced) := by
  have hnone := h.unannounced (by simp)
  have hsent := h.sent
  have hreceived := h.received
  have hholds := h.holds
  generalize hpump : Pump.sending direction header frame = pump at hholds
  cases hholds with
  | receiving => cases hpump
  | finished => cases hpump
  | closed => cases hpump
  | sending hopen hcross =>
      cases hpump
      rw [hnone] at hsent
      refine ⟨⟨[frame], [], hreceived, hsent, h.cross, .finished hopen rfl, .none⟩, ?_⟩
      intro target' hsend
      obtain ⟨written, hkind, hchannel, hpayload, rfl⟩ := sendFrame_some hsend frame.fits
      have hframe : written = frame.onto target.channel := Frame.ext_of hkind hchannel hpayload
      have hcarried : source.received = carried ++ [frame] ++ [] ++ source.inbox := by simpa using hreceived
      have hmessages : target.sent ++ [written.encode] =
          ((carried ++ [frame]).map (Frame.onto · target.channel) ++ []).map Frame.encode := by
        rw [hsent, hframe]
        simp
      have hall : ∀ other ∈ carried ++ [frame], mayCross other.header.kind = true := by
        intro other hmem
        rcases List.mem_append.mp hmem with hmem | hmem
        · exact h.cross other hmem
        · rw [List.mem_singleton.mp hmem]
          exact hcross
      constructor
      · intro hkind direction
        refine ⟨carried ++ [frame], [], [], hcarried, hmessages, hall, .receiving ?_, .none⟩
        intro other hmem
        rcases List.mem_append.mp hmem with hmem | hmem
        · exact hopen other hmem
        · rw [List.mem_singleton.mp hmem]
          exact hkind
      · intro hkind direction hending
        exact ⟨carried ++ [frame], [], [], hcarried, hmessages, hall, .closed rfl hopen hkind hending, .none⟩

/-- An end that was delivered no close, and was told nothing yet, is told. -/
theorem Carries.announce (h : Carries source target (.finished direction) false carried held announced)
    (hending : direction.ending.deliveredClose = false) {code : UInt16} {target' : End}
    (hsend : target.sendFrame .close target.channel (Close.encode ⟨code⟩) = some target') :
    ∃ announced, Carries source target' (.finished direction) true carried held announced := by
  obtain ⟨frame, hkind, hchannel, -, rfl⟩ := sendFrame_some hsend (Close.encode_fits _)
  have hsent := h.sent
  cases h.announces with
  | none =>
      refine ⟨[frame], h.received, ?_, h.cross, h.holds, .close rfl hending hkind hchannel⟩
      rw [hsent]
      simp

theorem Carries.told (h : Carries source target pump t carried held announced) :
    Carries source target pump true carried held announced := by
  refine ⟨h.received, h.sent, h.cross, h.holds, ?_⟩
  cases h.announces with
  | none => exact .none
  | close hpump hending hkind hchannel => exact .close hpump hending hkind hchannel

/-! ## What one event does to a splice -/

theorem Direct.congr (h : s.Direct side) (hreceived : (s'.ends side).received = (s.ends side).received)
    (hinbox : (s'.ends side).inbox = (s.ends side).inbox)
    (hsent : (s'.ends side.other).sent = (s.ends side.other).sent)
    (hchannel : (s'.ends side.other).channel = (s.ends side.other).channel) (hpump : s'.pumps side = s.pumps side)
    (htold : s'.teardown = s.teardown) : s'.Direct side := by
  obtain ⟨carried, held, announced, h⟩ := h
  have htold' : s'.told side.other = s.told side.other := by
    unfold Splice.told
    rw [htold]
  rw [Direct, hpump, htold']
  exact ⟨carried, held, announced, h.congr hreceived hinbox hsent hchannel⟩

/-- A direction that was waiting for a frame ends; the other does not notice. -/
theorem Inv.finish (h : s.Inv) (hpump : s.pumps side = .receiving direction) {ending : SpliceEnd}
    (hending : ending.deliveredClose = false) : (s.finish side direction ending).Inv := by
  refine Side.forall_of side ?_ ?_
  · obtain ⟨carried, held, announced, hside⟩ := h side
    rw [hpump] at hside
    obtain ⟨held, announced, hside⟩ := hside.finish hending
    refine ⟨carried, held, announced, ?_⟩
    simp only [Splice.finish, Function.update_self]
    exact hside
  · exact (h side.other).congr rfl rfl rfl rfl (by simp [Splice.finish]) rfl

theorem Inv.taken (h : s.Inv) (hpump : s.pumps side = .receiving direction) {inbox : List Frame}
    (hinbox : (s.ends side).inbox = frame :: inbox) :
    ({ s with ends := Function.update s.ends side { s.ends side with inbox := inbox } }.taken side direction
      frame).Inv := by
  obtain ⟨carried, held, announced, hside⟩ := h side
  rw [hpump] at hside
  obtain ⟨herror, hok⟩ := hside.take hinbox
  unfold Splice.taken
  simp only [Function.update_of_ne (Side.other_ne side)]
  split
  · rename_i error heq
    refine Side.forall_of side ?_ ?_
    · obtain ⟨held, announced, hside⟩ := herror error heq
      refine ⟨carried, held, announced, ?_⟩
      simp only [Splice.finish, Function.update_self, Function.update_of_ne (Side.other_ne side)]
      exact hside
    · exact (h side.other).congr (by simp [Splice.finish]) (by simp [Splice.finish]) (by simp [Splice.finish])
        (by simp [Splice.finish]) (by simp [Splice.finish]) rfl
  · rename_i header heq
    refine Side.forall_of side ?_ ?_
    · obtain ⟨held, announced, hside⟩ := hok header heq
      refine ⟨carried, held, announced, ?_⟩
      simp only [Function.update_self, Function.update_of_ne (Side.other_ne side)]
      exact hside
    · exact (h side.other).congr (by simp) (by simp) (by simp) (by simp) (by simp) rfl

theorem sendFrame_inbox {e e' : End} {kind : Kind} {channel : ChannelId} {payload : Bytes}
    (h : e.sendFrame kind channel payload = some e') : e'.received = e.received ∧ e'.inbox = e.inbox := by
  unfold End.sendFrame at h
  split at h
  · cases h
  · split at h
    · cases h
    · cases h
      exact ⟨rfl, rfl⟩

theorem Inv.written (h : s.Inv) {header : Header} (hpump : s.pumps side = .sending direction header frame) :
    (s.written side direction header frame).Inv := by
  obtain ⟨carried, held, announced, hside⟩ := h side
  rw [hpump] at hside
  obtain ⟨hlost, hsent⟩ := hside.written
  unfold Splice.written
  split
  · refine Side.forall_of side ?_ ?_
    · obtain ⟨held, announced, hside⟩ := hlost
      refine ⟨carried, held, announced, ?_⟩
      simp only [Splice.finish, Function.update_self]
      exact hside
    · exact (h side.other).congr rfl rfl rfl rfl (by simp [Splice.finish]) rfl
  · rename_i e heq
    obtain ⟨hreceiving, hclosed⟩ := hsent e heq
    obtain ⟨hreceived, hinbox⟩ := sendFrame_inbox heq
    split
    · rename_i hkind
      refine Side.forall_of side ?_ ?_
      · obtain ⟨carried, held, announced, hside⟩ :=
          hclosed hkind { direction.carried header frame.payload with ending := .closed (closeCode frame.payload) } rfl
        refine ⟨carried, held, announced, ?_⟩
        simp only [Splice.finish, Function.update_self, Function.update_of_ne (Side.ne_other side)]
        exact hside
      · exact (h side.other).congr (by simpa [Splice.finish] using hreceived) (by simpa [Splice.finish] using hinbox)
          (by simp [Splice.finish]) (by simp [Splice.finish]) (by simp [Splice.finish]) rfl
    · rename_i hkind
      refine Side.forall_of side ?_ ?_
      · obtain ⟨carried, held, announced, hside⟩ := hreceiving hkind (direction.carried header frame.payload)
        refine ⟨carried, held, announced, ?_⟩
        simp only [Function.update_self, Function.update_of_ne (Side.ne_other side)]
        exact hside
      · exact (h side.other).congr (by simpa using hreceived) (by simpa using hinbox) (by simp) (by simp) (by simp) rfl

/-- Telling a side concerns the direction towards it. -/
theorem Inv.tell (h : s.Inv) (side : Side) {towards : Direction} (hpump : s.pumps side.other = .finished towards)
    (huntold : s.told side = false) {code : UInt16} {teardown : Teardown}
    (htold : ∀ s' : Splice, s'.teardown = teardown → s'.told side = true ∧ s'.told side.other = s.told side.other) :
    Inv { s.tell side towards code with teardown := teardown } := by
  obtain ⟨htoldSide, htoldOther⟩ := htold { s.tell side towards code with teardown := teardown } rfl
  obtain ⟨carried, held, announced, hdirect⟩ := h side.other
  rw [hpump, Side.other_other, huntold] at hdirect
  have hside := h side
  unfold Splice.tell Splice.announceEnd at htoldSide htoldOther ⊢
  refine Side.forall_of side.other ?_ ?_
  · rw [Direct, Side.other_other, htoldSide]
    split
    · refine ⟨carried, held, announced, ?_⟩
      dsimp only
      rw [hpump]
      exact hdirect.told
    · rename_i hending
      split
      · rename_i e heq
        obtain ⟨announced, hdirect⟩ := hdirect.announce (by simpa using hending) heq
        refine ⟨carried, held, announced, ?_⟩
        simp only [Function.update_self, Function.update_of_ne (Side.other_ne side)]
        rw [hpump]
        exact hdirect
      · refine ⟨carried, held, announced, ?_⟩
        dsimp only
        rw [hpump]
        exact hdirect.told
  · obtain ⟨carried, held, announced, hside⟩ := hside
    rw [Side.other_other, Direct, htoldOther]
    split
    · exact ⟨carried, held, announced, hside⟩
    · split
      · rename_i e heq
        obtain ⟨hreceived, hinbox⟩ := sendFrame_inbox heq
        refine ⟨carried, held, announced, ?_⟩
        simp only [Function.update_self, Function.update_of_ne (Side.other_ne side)]
        exact hside.congr hreceived hinbox rfl rfl
      · exact ⟨carried, held, announced, hside⟩

theorem Inv.step (h : s.Inv) {event : Event} (hstep : s.step event = some s') : s'.Inv := by
  cases event with
  | arrive side frame =>
      simp only [Splice.step] at hstep
      split at hstep
      · cases hstep
      · cases hstep
        refine Side.forall_of side ?_ ?_
        · obtain ⟨carried, held, announced, hside⟩ := h side
          refine ⟨carried, held, announced, ?_⟩
          simp only [Function.update_self, Function.update_of_ne (Side.other_ne side)]
          exact hside.arrive frame
        · exact (h side.other).congr (by simp) (by simp) (by simp) (by simp) rfl rfl
  | ended side =>
      cases hstep
      refine Side.forall_of side ?_ ?_
      · exact (h side).congr (by simp) (by simp) (by simp) (by simp) rfl rfl
      · exact (h side.other).congr (by simp) (by simp) (by simp) (by simp) rfl rfl
  | gone side =>
      cases hstep
      refine Side.forall_of side ?_ ?_
      · exact (h side).congr (by simp) (by simp) (by simp) (by simp) rfl rfl
      · exact (h side.other).congr (by simp) (by simp) (by simp) (by simp) rfl rfl
  | take side =>
      simp only [Splice.step] at hstep
      split at hstep
      · rename_i direction frame inbox hpump hinbox
        cases hstep
        exact h.taken hpump hinbox
      · cases hstep
  | drained side =>
      simp only [Splice.step] at hstep
      split at hstep
      · rename_i direction hpump _
        split at hstep
        · cases hstep
          exact h.finish hpump rfl
        · cases hstep
      · cases hstep
  | companion side =>
      simp only [Splice.step] at hstep
      split at hstep
      · rename_i direction hpump
        split at hstep
        · cases hstep
          exact h.finish hpump rfl
        · cases hstep
      · cases hstep
  | written side =>
      simp only [Splice.step] at hstep
      split at hstep
      · rename_i direction header frame hpump
        cases hstep
        exact h.written hpump
      · cases hstep
  | announce =>
      simp only [Splice.step] at hstep
      split at hstep
      · rename_i forward reverse hforward hreverse
        split at hstep
        · rename_i hteardown
          cases hstep
          exact h.tell .right hforward (by simp [Splice.told, hteardown])
            fun s' hs' => by simp [Splice.told, Side.other, hs', hteardown]
        · rename_i hteardown
          cases hstep
          exact h.tell .left hreverse (by simp [Splice.told, hteardown])
            fun s' hs' => by simp [Splice.told, Side.other, hs', hteardown]
        · cases hstep
      · cases hstep

/-! ## What an end was sent -/

/-- Only the last frame an end was sent can be a close. -/
theorem Carries.close_last (h : Carries source target pump t carried held announced) :
    ∃ before last, carried.map (Frame.onto · target.channel) ++ announced = before ++ last ∧ last.length ≤ 1 ∧
      ∀ frame ∈ before, frame.header.kind ≠ .close := by
  have hmap : ∀ l : List Frame, (∀ frame ∈ l, frame.header.kind ≠ .close) →
      ∀ frame ∈ l.map (Frame.onto · target.channel), frame.header.kind ≠ .close := by
    intro l hl frame hmem
    obtain ⟨source, hsource, rfl⟩ := List.mem_map.mp hmem
    exact hl source hsource
  have hholds := h.holds
  cases hann : h.announces with
  | none =>
      cases hholds with
      | receiving hopen => exact ⟨_, [], rfl, by simp, hmap _ hopen⟩
      | sending hopen _ => exact ⟨_, [], rfl, by simp, hmap _ hopen⟩
      | finished hopen _ => exact ⟨_, [], rfl, by simp, hmap _ hopen⟩
      | @closed _ before frame hcarried hopen _ _ =>
          exact ⟨before.map (Frame.onto · target.channel), [frame.onto target.channel], by simp [hcarried], by simp,
            hmap _ hopen⟩
  | close hpump hending _ _ =>
      cases hpump
      cases hholds with
      | finished hopen _ => exact ⟨_, _, rfl, by simp, hmap _ hopen⟩
      | closed _ _ _ hclosed =>
          rw [hending] at hclosed
          cases hclosed

/-- Where only the last element of a list can have a property, one element at most has it, and nothing follows it. -/
theorem last_only {α : Type} {p : α → Prop} [DecidablePred p] {before last : List α} (hlast : last.length ≤ 1)
    (hbefore : ∀ a ∈ before, ¬ p a) :
    ((before ++ last).filter p).length ≤ 1 ∧
      ∀ front a back, before ++ last = front ++ a :: back → p a → back = [] := by
  constructor
  · have hnone : before.filter p = [] := List.filter_eq_nil_iff.mpr (by simpa using hbefore)
    rw [List.filter_append, hnone, List.nil_append]
    exact Nat.le_trans (List.length_filter_le _ _) hlast
  · intro front a back heq ha
    rcases List.append_eq_append_iff.mp heq with ⟨rest, rfl, hrest⟩ | ⟨rest, rfl, hrest⟩
    · have hlength := congrArg List.length hrest
      simp only [List.length_append, List.length_cons] at hlength
      exact List.length_eq_zero_iff.mp (by omega)
    · cases rest with
      | nil =>
          have hlength := congrArg List.length hrest
          simp only [List.nil_append, List.length_cons] at hlength
          exact List.length_eq_zero_iff.mp (by omega)
      | cons b rest =>
          rw [List.cons_append] at hrest
          obtain ⟨rfl, -⟩ := List.cons.inj hrest
          exact absurd ha (hbefore a (by simp))

end Splice

/-- An end with some frames in its inbox, to which nothing was sent yet. -/
def End.opened (channel : ChannelId) (named : ChannelId.isControl channel = false) (inbox : List Frame) : End :=
  ⟨channel, named, inbox, inbox, false, false, []⟩

/-- In every run of a splice, what either end was sent is read as frames that came in at the other end, in order and
from the first, under its own channel, and an announced close behind them: data, credits and closes only, never on
channel 0, at most one close, and nothing behind it. -/
theorem splice_copies_and_closes_once (left right : ChannelId) (hleft : ChannelId.isControl left = false)
    (hright : ChannelId.isControl right = false) (waitingLeft waitingRight : List Frame) (events : List Splice.Event)
    (s : Splice)
    (hrun : Run Splice.step (fun _ _ => True)
      (.start (.opened left hleft waitingLeft) (.opened right hright waitingRight)) events s) (side : Side) :
    ∃ frames carried announced : List Frame,
      (s.ends side).sent.map parseFrame = frames.map (fun frame => .ok (frame, [])) ∧
      frames = carried.map (Frame.onto · (s.ends side).channel) ++ announced ∧
      carried <+: (s.ends side.other).received ∧
      announced.length ≤ 1 ∧ (∀ frame ∈ announced, frame.header.kind = .close) ∧
      (∀ frame ∈ frames,
        frame.header.kind ∈ [Kind.data, .credit, .close] ∧ frame.header.channel = (s.ends side).channel ∧
          frame.header.channel ≠ 0) ∧
      (frames.filter fun frame => frame.header.kind = .close).length ≤ 1 ∧
      ∀ front frame back, frames = front ++ frame :: back → frame.header.kind = .close → back = [] := by
  have hinv : s.Inv :=
    hrun.invariant (fun _ _ _ h _ hstep => Splice.Inv.step h hstep) (Splice.Inv.start rfl rfl rfl rfl)
  obtain ⟨carried, held, announced, h⟩ := hinv side.other
  rw [Side.other_other] at h
  have hnamed : (s.ends side).channel ≠ 0 := by simpa [ChannelId.isControl] using (s.ends side).named
  obtain ⟨before, last, heq, hlast, hbefore⟩ := h.close_last
  have hann := h.announces.frames
  obtain ⟨hclose, hbehind⟩ := @Splice.last_only _ (fun frame : Frame => frame.header.kind = .close) _ _ _ hlast hbefore
  rw [← heq] at hclose hbehind
  refine ⟨_, carried, announced, ?_, rfl, ?_, hann.1, fun frame hmem => (hann.2 frame hmem).1, ?_, hclose, hbehind⟩
  · rw [h.sent, List.map_map]
    refine List.map_congr_left fun frame _ => ?_
    have hread := parseFrame_encode frame []
    rw [List.append_nil] at hread
    exact hread
  · exact ⟨held ++ (s.ends side.other).inbox, by rw [h.received, List.append_assoc]⟩
  · intro frame hmem
    rcases List.mem_append.mp hmem with hmem | hmem
    · obtain ⟨frame, hcarried, rfl⟩ := List.mem_map.mp hmem
      have hcross := h.cross frame hcarried
      refine ⟨?_, rfl, hnamed⟩
      show frame.header.kind ∈ [Kind.data, .credit, .close]
      revert hcross
      cases frame.header.kind <;> simp [mayCross]
    · obtain ⟨hkind, hchannel⟩ := hann.2 frame hmem
      exact ⟨by simp [hkind], hchannel, by rw [hchannel]; exact hnamed⟩

/-! ## A conversation that is closed from the left -/

def sampleData : Frame := ⟨⟨.data, 1, 2, by decide⟩, [7, 8], rfl⟩

def sampleClose : Frame := ⟨⟨.close, 1, 2, by decide⟩, [0, 0], rfl⟩

def sampleConversation : List Splice.Event :=
  [.arrive .left sampleData, .take .left, .arrive .left sampleClose, .written .left, .take .left, .written .left,
    .companion .right, .announce, .announce]

theorem splice_copies_and_closes_once_left :
    ∃ s, Run Splice.step (fun _ _ => True) (.start (.opened 1 rfl []) (.opened 2 rfl [])) sampleConversation s ∧
      (s.ends .right).sent.length = 2 ∧ (s.ends .left).sent.length = 1 ∧
      ∃ frames : List Frame, (s.ends .right).sent.map parseFrame = frames.map (fun frame => .ok (frame, [])) ∧
        (frames.filter fun frame => frame.header.kind = .close).length ≤ 1 := by
  have hmap : (exec Splice.step (fun _ _ => True) (.start (.opened 1 rfl []) (.opened 2 rfl []))
      sampleConversation).map (fun s => ((s.ends .right).sent.length, (s.ends .left).sent.length)) = some (2, 1) := by
    decide +kernel
  obtain ⟨s, hexec, hlengths⟩ := Option.map_eq_some_iff.mp hmap
  have hrun := Run.of_exec hexec
  obtain ⟨frames, -, -, hread, -, -, -, -, -, hcloses, -⟩ :=
    splice_copies_and_closes_once 1 2 rfl rfl [] [] sampleConversation s hrun .right
  exact ⟨s, hrun, congrArg Prod.fst hlengths, congrArg Prod.snd hlengths, frames, hread, hcloses⟩

end Selfhost.Mesh
