import Selfhost.Mesh.Mux

/-!
# Whose route a failed send removes

A send that fails removes the route of its channel, whoever holds the channel by then.
-/

namespace Selfhost.Mesh

open Selfhost.Lib

/-! ## The table -/

namespace Routes

variable {routes : Routes} {channel other : ChannelId} {id : SinkId}

theorem sink_cons_self : sink ((channel, id) :: routes) channel = some id := by simp [sink]

theorem sink_cons_of_ne (h : channel ≠ other) : sink ((channel, id) :: routes) other = sink routes other := by
  simp [sink, h]

@[simp] theorem sink_remove_self : (routes.remove channel).sink channel = none := by
  rw [sink, Option.map_eq_none_iff, List.find?_eq_none]
  intro route hmem
  simpa [remove] using (List.mem_filter.mp hmem).2

theorem sink_remove_of_ne (h : other ≠ channel) : (routes.remove channel).sink other = routes.sink other := by
  unfold sink remove
  rw [List.find?_filter]
  congr 1
  refine congrArg (List.find? · routes) (funext fun route => ?_)
  by_cases hroute : route.1 = other
  · simp [hroute, h]
  · simp [hroute]

theorem mem_of_sink (h : routes.sink channel = some id) : (channel, id) ∈ routes := by
  obtain ⟨⟨c, i⟩, hfind, rfl⟩ := Option.map_eq_some_iff.mp h
  have hchannel : c = channel := by simpa using List.find?_some hfind
  subst hchannel
  exact List.mem_of_find?_eq_some hfind

theorem insert_ok {routes' : Routes} (h : routes.insert channel id = .ok routes') :
    routes.sink channel = none ∧ routes' = (channel, id) :: routes := by
  unfold insert at h
  split at h
  · cases h
  · rename_i hfree
    cases h
    exact ⟨by simpa using hfree, rfl⟩

end Routes

namespace Link

/-- A failed send completes while nobody has claimed the channel of its frame. -/
def Sound (link : Link) : Event → Prop
  | .sendErr =>
      match link.reader with
      | .idle => True
      | .sending _ frame => link.routes.sink frame.header.channel = none
  | _ => True

instance (link : Link) (event : Event) : Decidable (link.Sound event) :=
  match event, link with
  | .attach _, _ | .dropInbox _, _ | .recv _, _ | .lookUp _, _ | .sendOk, _ | .dropLink, _ => .isTrue trivial
  | .sendErr, ⟨_, _, _, .idle, _, _⟩ => .isTrue trivial
  | .sendErr, ⟨_, routes, _, .sending _ frame, _, _⟩ =>
      inferInstanceAs (Decidable (routes.sink frame.header.channel = none))

structure Inv (link : Link) : Prop where
  routed : link.Routed
  -- No two inboxes share a number, and the next number is free.
  apart : ∀ a ∈ link.inboxes, ∀ b ∈ link.inboxes, a.id = b.id → a.channel = b.channel
  fresh : ∀ inbox ∈ link.inboxes, inbox.id < link.next
  -- Every route leads to an inbox that is held.
  held : ∀ route ∈ link.routes, ∃ inbox ∈ link.inboxes, inbox.id = route.2 ∧ inbox.channel = route.1

variable {link link' : Link}

theorem Inv.opened : Inv opened := by
  refine ⟨fun _ => ?_, ?_, ?_, ?_⟩ <;> simp [Link.opened]

theorem inbox?_some {sink : SinkId} {inbox : Inbox} (h : link.inbox? sink = some inbox) :
    inbox ∈ link.inboxes ∧ inbox.id = sink :=
  ⟨List.mem_of_find?_eq_some h, by simpa using List.find?_some h⟩

theorem attach_ok {channel : ChannelId} (h : link.attach channel = .ok link') :
    link.routes.sink channel = none ∧
      link' = { link with
        routes := (channel, link.next) :: link.routes
        inboxes := ⟨link.next, channel, []⟩ :: link.inboxes
        next := link.next + 1 } := by
  unfold attach at h
  split at h
  · cases h
  · rename_i routes hinsert
    obtain ⟨hfree, rfl⟩ := Routes.insert_ok hinsert
    split at h
    · cases h
    · cases h
      exact ⟨hfree, rfl⟩

theorem Inv.attach (h : link.Inv) {channel : ChannelId} (hok : link.attach channel = .ok link') : link'.Inv := by
  obtain ⟨hfree, rfl⟩ := attach_ok hok
  refine ⟨?_, ?_, ?_, ?_⟩
  · intro halive inbox hmem
    rcases List.mem_cons.mp hmem with rfl | hmem
    · exact Routes.sink_cons_self
    · have hsink := h.routed halive inbox hmem
      have hne : channel ≠ inbox.channel := by
        rintro rfl
        rw [hfree] at hsink
        cases hsink
      dsimp only
      rw [Routes.sink_cons_of_ne hne]
      exact hsink
  · intro a ha b hb heq
    rcases List.mem_cons.mp ha with rfl | ha <;> rcases List.mem_cons.mp hb with rfl | hb
    · rfl
    · exact absurd heq (Nat.ne_of_gt (h.fresh b hb))
    · exact absurd heq (Nat.ne_of_lt (h.fresh a ha))
    · exact h.apart a ha b hb heq
  · intro inbox hmem
    rcases List.mem_cons.mp hmem with rfl | hmem
    · exact Nat.lt_succ_self _
    · exact Nat.lt_succ_of_lt (h.fresh inbox hmem)
  · intro route hmem
    rcases List.mem_cons.mp hmem with rfl | hmem
    · exact ⟨_, List.mem_cons_self, rfl, rfl⟩
    · obtain ⟨inbox, hinbox, heq⟩ := h.held route hmem
      exact ⟨inbox, List.mem_cons_of_mem _ hinbox, heq⟩

/-- An inbox takes its own route with it, and no other inbox has it. -/
theorem Inv.dropInbox (h : link.Inv) {inbox : Inbox} (hmem : inbox ∈ link.inboxes) : (link.dropInbox inbox).Inv := by
  refine ⟨?_, ?_, ?_, ?_⟩
  · intro halive other hother
    obtain ⟨hother, hne⟩ := List.mem_filter.mp hother
    have hsink := h.routed halive other hother
    have hchannel : other.channel ≠ inbox.channel := by
      intro heq
      rw [heq, h.routed halive inbox hmem] at hsink
      exact (by simpa using hne : other.id ≠ inbox.id) (Option.some.inj hsink).symm
    rw [Link.dropInbox, Routes.sink_remove_of_ne hchannel]
    exact hsink
  · intro a ha b hb
    exact h.apart a (List.mem_filter.mp ha).1 b (List.mem_filter.mp hb).1
  · intro other hother
    exact h.fresh other (List.mem_filter.mp hother).1
  · intro route hroute
    obtain ⟨hroute, hne⟩ := List.mem_filter.mp hroute
    obtain ⟨other, hother, hid, hchannel⟩ := h.held route hroute
    refine ⟨other, List.mem_filter.mpr ⟨hother, ?_⟩, hid, hchannel⟩
    have hchannels : other.channel ≠ inbox.channel := by rw [hchannel]; simpa using hne
    simpa using fun heq => hchannels (h.apart other hother inbox hmem heq)

/-- Frames come and go in an inbox; its number and its channel stay. -/
theorem Inv.withFrames (h : link.Inv) (sink : SinkId) (f : List Frame → List Frame) (reader : Reader) :
    Inv { link.withFrames sink f with reader := reader } := by
  have hback : ∀ inbox ∈ (link.withFrames sink f).inboxes,
      ∃ old ∈ link.inboxes, old.id = inbox.id ∧ old.channel = inbox.channel := by
    intro inbox hmem
    obtain ⟨old, hold, rfl⟩ := List.mem_map.mp hmem
    refine ⟨old, hold, ?_⟩
    split <;> exact ⟨rfl, rfl⟩
  refine ⟨?_, ?_, ?_, ?_⟩
  · intro halive inbox hmem
    obtain ⟨old, hold, hid, hchannel⟩ := hback inbox hmem
    rw [← hid, ← hchannel]
    exact h.routed halive old hold
  · intro a ha b hb heq
    obtain ⟨a', ha', hida, hchannela⟩ := hback a ha
    obtain ⟨b', hb', hidb, hchannelb⟩ := hback b hb
    rw [← hchannela, ← hchannelb]
    exact h.apart a' ha' b' hb' (by rw [hida, hidb, heq])
  · intro inbox hmem
    obtain ⟨old, hold, hid, -⟩ := hback inbox hmem
    rw [← hid]
    exact h.fresh old hold
  · intro route hroute
    obtain ⟨old, hold, hid, hchannel⟩ := h.held route hroute
    refine ⟨_, List.mem_map.mpr ⟨old, hold, rfl⟩, ?_⟩
    split <;> exact ⟨hid, hchannel⟩

theorem Inv.lookUp (h : link.Inv) (frame : Frame) : (link.lookUp frame).Inv := by
  unfold Link.lookUp
  split
  · exact ⟨h.routed, h.apart, h.fresh, h.held⟩
  · split
    · exact ⟨h.routed, h.apart, h.fresh, h.held⟩
    · exact h

/-- A failed send that finds the channel unclaimed removes nothing. -/
theorem Inv.remove (h : link.Inv) {channel : ChannelId} (hfree : link.routes.sink channel = none) :
    Inv { link with routes := link.routes.remove channel, reader := .idle } := by
  refine ⟨?_, h.apart, h.fresh, fun route hroute => h.held route (List.mem_filter.mp hroute).1⟩
  intro halive inbox hmem
  have hsink := h.routed halive inbox hmem
  have hne : inbox.channel ≠ channel := by
    rintro rfl
    rw [hfree] at hsink
    cases hsink
  dsimp only
  rw [Routes.sink_remove_of_ne hne]
  exact hsink

/-- What a send that fails does. -/
theorem step_sendErr (hstep : link.step .sendErr = some link') :
    ∃ sink frame, link.reader = .sending sink frame ∧ link.inbox? sink = none ∧
      link' = { link with routes := link.routes.remove frame.header.channel, reader := .idle } := by
  simp only [Link.step] at hstep
  split at hstep
  · cases hstep
  · rename_i sink frame hreader
    split at hstep
    · cases hstep
    · rename_i hgone
      cases hstep
      exact ⟨sink, frame, hreader, hgone, rfl⟩

theorem Inv.step (h : link.Inv) {event : Event} (hsound : link.Sound event) (hstep : link.step event = some link') :
    link'.Inv := by
  cases event with
  | attach channel =>
      simp only [Link.step] at hstep
      split at hstep
      · rename_i next hok
        cases hstep
        exact h.attach hok
      · cases hstep
        exact h
  | dropInbox sink =>
      obtain ⟨inbox, hinbox, rfl⟩ := Option.map_eq_some_iff.mp hstep
      exact h.dropInbox (inbox?_some hinbox).1
  | recv sink =>
      simp only [Link.step] at hstep
      split at hstep
      · cases hstep
        exact h.withFrames sink List.tail link.reader
      · cases hstep
  | lookUp frame =>
      simp only [Link.step] at hstep
      split at hstep
      · split at hstep
        · cases hstep
          exact h.lookUp frame
        · cases hstep
      · cases hstep
  | sendOk =>
      simp only [Link.step] at hstep
      split at hstep
      · cases hstep
      · rename_i sink frame hreader
        split at hstep
        · split at hstep
          · cases hstep
            exact h.withFrames sink (· ++ [frame]) .idle
          · cases hstep
        · cases hstep
  | sendErr =>
      obtain ⟨sink, frame, hreader, -, rfl⟩ := step_sendErr hstep
      have hfree : link.routes.sink frame.header.channel = none := by
        simpa only [Sound, hreader] using hsound
      exact h.remove hfree
  | dropLink =>
      cases hstep
      exact ⟨fun halive => (by cases halive), h.apart, h.fresh, by simp⟩

end Link

/-- In every run in which each failed send completes while nobody has claimed the channel of its frame, every inbox
that is held has its own sink in the table as long as the link lives; and a failed send that finds the channel claimed
takes the route of whoever holds it. -/
theorem live_routes_are_kept (events : List Link.Event) (link : Link) :
    (Run Link.step Link.Sound .opened events link → link.Routed) ∧
      ∀ link', Run Link.step Link.Sound .opened events link → link.alive = true →
        link.step .sendErr = some link' → ¬ link.Sound .sendErr → ¬ link'.Routed := by
  have hinv : ∀ events link, Run Link.step Link.Sound .opened events link → link.Inv := by
    intro events link hrun
    exact hrun.invariant (fun _ _ _ h hsound hstep => Link.Inv.step h hsound hstep) Link.Inv.opened
  refine ⟨fun hrun => (hinv events link hrun).routed, ?_⟩
  intro link' hrun halive hstep hsound hrouted
  obtain ⟨sink, frame, hreader, -, rfl⟩ := Link.step_sendErr hstep
  have hclaimed : link.routes.sink frame.header.channel ≠ none := by
    simpa only [Link.Sound, hreader] using hsound
  obtain ⟨id, hid⟩ := Option.ne_none_iff_exists'.mp hclaimed
  obtain ⟨inbox, hmem, -, hchannel⟩ := (hinv events link hrun).held _ (Routes.mem_of_sink hid)
  have hsink := hrouted halive inbox hmem
  dsimp only at hsink hchannel
  rw [hchannel, Routes.sink_remove_self] at hsink
  cases hsink

/-! ## A channel that is claimed again while a send waits -/

def sampleFrame : Frame := ⟨⟨.data, 2, 1, by decide⟩, [7], rfl⟩

/-- The reader has looked up the first holder of channel 2; he lets it go, another claims it, and the send fails. -/
def reclaimed : List Link.Event := [.attach 2, .lookUp sampleFrame, .dropInbox 0, .attach 2, .sendErr]

/-- The channel is claimed again after the send has failed, or while it waits. -/
theorem run_reclaimed :
    Run Link.step Link.Sound .opened [.attach 2, .lookUp sampleFrame, .dropInbox 0, .sendErr, .attach 2]
        ⟨true, [(2, 1)], [⟨1, 2, []⟩], .idle, [], 2⟩ ∧
      Run Link.step (fun _ _ => True) .opened reclaimed ⟨true, [], [⟨1, 2, []⟩], .idle, [], 2⟩ :=
  ⟨.of_exec (by decide +kernel), .of_exec (by decide +kernel)⟩

theorem live_routes_are_kept_once :
    ∃ link, Run Link.step Link.Sound .opened [.attach 2, .lookUp sampleFrame, .dropInbox 0, .sendErr, .attach 2] link ∧
      link.Routed ∧ link.routes.sink 2 = some 1 :=
  ⟨_, run_reclaimed.1, (live_routes_are_kept _ _).1 run_reclaimed.1, rfl⟩

theorem reclaimed_loses_its_route :
    ∃ link, Run Link.step (fun _ _ => True) .opened reclaimed link ∧ link.alive = true ∧
      (⟨1, 2, []⟩ : Inbox) ∈ link.inboxes ∧ link.routes.sink 2 = none ∧ ¬ link.Routed := by
  refine ⟨_, run_reclaimed.2, rfl, List.mem_singleton_self _, rfl, fun hrouted => ?_⟩
  have hsink := hrouted rfl ⟨1, 2, []⟩ (List.mem_singleton_self _)
  cases hsink

/-! ## Inboxes after the drop -/

namespace Link

variable {link link' : Link}

/-- A frame can still come into an inbox: its sender is in the table, or the reader waits to send to it. -/
def HasSender (link : Link) (inbox : Inbox) : Prop :=
  (∃ route ∈ link.routes, route.2 = inbox.id) ∨ ∃ frame, link.reader = .sending inbox.id frame

/-- What its holder gets from an inbox. -/
inductive Received where
  | frame (frame : Frame)
  | ended
  | waits
  deriving DecidableEq

/-- `recv`: the next frame; without one it waits as long as there is a sender. -/
def Recv (link : Link) (inbox : Inbox) : Received → Prop
  | .frame frame => inbox.frames.head? = some frame
  | .ended => inbox.frames = [] ∧ ¬ link.HasSender inbox
  | .waits => inbox.frames = [] ∧ link.HasSender inbox

/-- Once the link is gone, an inbox whose frames are taken reports the end. -/
def Reports (link : Link) : Prop :=
  link.alive = false → ∀ inbox ∈ link.inboxes, ¬ link.HasSender inbox ∧ (inbox.frames = [] → link.Recv inbox .ended)

/-- A channel is claimed while the link lives. The control channel never is. -/
def Timely (link : Link) : Event → Prop
  | .attach channel => link.alive = true ∨ ChannelId.isControl channel = true
  | _ => True

instance (link : Link) (event : Event) : Decidable (link.Timely event) :=
  match event with
  | .attach _ => inferInstanceAs (Decidable (_ ∨ _))
  | .dropInbox _ | .recv _ | .lookUp _ | .sendOk | .sendErr | .dropLink => .isTrue trivial

/-- A link that is gone has no route and its reader is at rest. -/
def Silent (link : Link) : Prop := link.alive = false → link.routes = [] ∧ link.reader = .idle

theorem Silent.reports (h : link.Silent) : link.Reports := by
  intro hgone inbox hmem
  obtain ⟨hroutes, hreader⟩ := h hgone
  have hsender : ¬ link.HasSender inbox := by
    rintro (⟨route, hroute, -⟩ | ⟨frame, hsending⟩)
    · rw [hroutes] at hroute
      cases hroute
    · rw [hreader] at hsending
      cases hsending
  exact ⟨hsender, fun hframes => ⟨hframes, hsender⟩⟩

theorem attach_control {channel : ChannelId} (h : ChannelId.isControl channel = true) (hok : link.attach channel = .ok link') :
    False := by
  unfold attach at hok
  split at hok
  · cases hok
  · rw [if_pos h] at hok
    cases hok

theorem Silent.step (h : link.Silent) {event : Event} (htimely : link.Timely event)
    (hstep : link.step event = some link') : link'.Silent := by
  intro hgone
  cases event with
  | attach channel =>
      simp only [Link.step] at hstep
      split at hstep
      · rename_i next hok
        cases hstep
        rcases htimely with halive | hcontrol
        · obtain ⟨-, rfl⟩ := attach_ok hok
          rw [halive] at hgone
          cases hgone
        · exact (attach_control hcontrol hok).elim
      · cases hstep
        exact h hgone
  | dropInbox sink =>
      obtain ⟨inbox, -, rfl⟩ := Option.map_eq_some_iff.mp hstep
      obtain ⟨hroutes, hreader⟩ := h hgone
      exact ⟨by rw [Link.dropInbox, hroutes]; rfl, hreader⟩
  | recv sink =>
      simp only [Link.step] at hstep
      split at hstep
      · cases hstep
        exact h hgone
      · cases hstep
  | lookUp frame =>
      simp only [Link.step] at hstep
      split at hstep
      · split at hstep
        · rename_i halive
          cases hstep
          have hkept : (link.lookUp frame).alive = link.alive := by
            unfold Link.lookUp
            split
            · rfl
            · split <;> rfl
          rw [hkept, halive] at hgone
          cases hgone
        · cases hstep
      · cases hstep
  | sendOk =>
      simp only [Link.step] at hstep
      split at hstep
      · cases hstep
      · split at hstep
        · split at hstep
          · cases hstep
            exact ⟨(h hgone).1, rfl⟩
          · cases hstep
        · cases hstep
  | sendErr =>
      obtain ⟨sink, frame, -, -, rfl⟩ := step_sendErr hstep
      exact ⟨by rw [(h hgone).1]; rfl, rfl⟩
  | dropLink =>
      cases hstep
      exact ⟨rfl, rfl⟩

/-- A channel that is claimed on a link that is gone leaves its inbox with a sender nobody uses. -/
theorem Silent.attach_late (h : link.Silent) {event : Event} (hlate : ¬ link.Timely event)
    (hstep : link.step event = some link') : ¬ link'.Reports := by
  intro hreports
  cases event with
  | attach channel =>
      simp only [Timely, not_or, Bool.not_eq_true] at hlate
      obtain ⟨hgone, hcontrol⟩ := hlate
      have hok : link.attach channel = .ok { link with
          routes := [(channel, link.next)]
          inboxes := ⟨link.next, channel, []⟩ :: link.inboxes
          next := link.next + 1 } := by
        simp [Link.attach, Routes.insert, Routes.sink, (h hgone).1, hcontrol]
      simp only [Link.step, hok] at hstep
      cases hstep
      exact (hreports hgone _ List.mem_cons_self).1 (.inl ⟨_, List.mem_cons_self, rfl⟩)
  | dropInbox | recv | lookUp | sendOk | sendErr | dropLink => exact hlate trivial

end Link

/-- In every run in which no channel is claimed after the link was dropped, no inbox that is held has a sender once the
link is gone, and each reports the end when its frames are taken; and the first channel that is claimed later has an
inbox that waits for ever. -/
theorem dropped_link_ends_inboxes (events : List Link.Event) (link : Link) :
    (Run Link.step Link.Timely .opened events link → link.Reports) ∧
      ∀ link' event, Run Link.step Link.Timely .opened events link → link.step event = some link' →
        ¬ link.Timely event → ¬ link'.Reports := by
  have hsilent : ∀ events link, Run Link.step Link.Timely .opened events link → link.Silent := by
    intro events link hrun
    exact hrun.invariant (fun _ _ _ h htimely hstep => Link.Silent.step h htimely hstep) (fun h => (by cases h))
  refine ⟨fun hrun => (hsilent events link hrun).reports, ?_⟩
  intro link' event hrun hstep hlate
  exact (hsilent events link hrun).attach_late hlate hstep

/-- The link is dropped with a frame in an inbox, or before the channel is claimed. -/
theorem run_dropped :
    Run Link.step Link.Timely .opened [.attach 2, .lookUp sampleFrame, .sendOk, .dropLink]
        ⟨false, [], [⟨0, 2, [sampleFrame]⟩], .idle, [], 1⟩ ∧
      Run Link.step (fun _ _ => True) .opened [.dropLink, .attach 2] ⟨false, [(2, 0)], [⟨0, 2, []⟩], .idle, [], 1⟩ :=
  ⟨.of_exec (by decide +kernel), .of_exec (by decide +kernel)⟩

theorem dropped_link_ends_inboxes_once :
    ∃ link, Run Link.step Link.Timely .opened [.attach 2, .lookUp sampleFrame, .sendOk, .dropLink] link ∧
      link.alive = false ∧ link.inboxes = [⟨0, 2, [sampleFrame]⟩] ∧ link.Reports :=
  ⟨_, run_dropped.1, rfl, rfl, (dropped_link_ends_inboxes _ _).1 run_dropped.1⟩

/-- A handle claims channel 2 after the link was dropped, and its inbox waits. -/
theorem late_inbox_waits :
    ∃ link, Run Link.step (fun _ _ => True) .opened [.dropLink, .attach 2] link ∧ link.alive = false ∧
      (⟨0, 2, []⟩ : Inbox) ∈ link.inboxes ∧ link.Recv ⟨0, 2, []⟩ .waits ∧ ¬ link.Reports := by
  have hsender : Link.HasSender ⟨false, [(2, 0)], [⟨0, 2, []⟩], .idle, [], 1⟩ ⟨0, 2, []⟩ :=
    .inl ⟨(2, 0), List.mem_singleton_self _, rfl⟩
  refine ⟨_, run_dropped.2, rfl, List.mem_singleton_self _, ⟨rfl, hsender⟩, fun hreports => ?_⟩
  exact (hreports rfl ⟨0, 2, []⟩ (List.mem_singleton_self _)).1 hsender

end Selfhost.Mesh
