import Selfhost.Desk.Relay
import Selfhost.Desk.Lemmas.Drawing

/-!
# What a relay passes on

A relay copies what its agent draws and gives back the window the agent spent on it.
-/

namespace Selfhost.Desk

open Selfhost.Lib

/-! ## The session -/

namespace Session

theorem observe_frame {session : Session} (now : Instant) (h : isOver session.phase = false) :
    (session.observe .frame now).1.phase = .live ∧ (session.observe .frame now).2.action = .capture := by
  unfold observe
  rw [h, if_neg (by decide)]
  exact ⟨enter_phase .., enter_action ..⟩

/-- A session that is over closes its streams. -/
theorem closeStreams_of_observe {session : Session} {observation : Observation} {now : Instant}
    (h : isOver (session.observe observation now).1.phase = true) :
    (session.observe observation now).2.action = .closeStreams := by
  unfold observe at h ⊢
  cases hover : isOver session.phase with
  | true =>
      rw [hover, if_pos rfl] at h
      rw [if_pos rfl]
      cases observation with
      | resume =>
          rw [enter_phase] at h
          cases h
      | _ => rfl
  | false =>
      rw [hover, if_neg (by decide)] at h
      rw [if_neg (by decide)]
      cases observation with
      | killSwitch | fatal => exact enter_action ..
      | retry =>
          rw [stay_phase, hover] at h
          cases h
      | resume =>
          dsimp only at h
          split at h
          · rw [stay_phase, hover] at h
            cases h
          · rw [enter_phase] at h
            cases h
      | frame =>
          rw [enter_phase] at h
          cases h
      | reinitialise | agentExited =>
          dsimp only at h ⊢
          split at h
          · rw [if_pos (by assumption)]
            exact enter_action ..
          · rw [enter_phase] at h
            cases h
      | secureDesktop | sessionDisconnected | noSession =>
          dsimp only at h
          rw [suspend, enter_phase] at h
          cases h
      | permissionDenied =>
          rw [enter_phase] at h
          cases h

end Session

/-! ## The books of a relay -/

/-- The bytes a message lets the agent send. -/
def Message.grant : Message → Nat
  | .credit bytes => bytes.toNat
  | _ => 0

def Output.copied : Output → Option Bytes
  | .copy bytes => some bytes
  | .message _ => none

/-- A message of the agent that is the client's to see: it travels to the viewer, and it is not the agent's greeting. -/
def passes : Bytes → Bool
  | [] => false
  | kind :: _ => isToViewer kind && kind != kindHello

/-- A message of a kind only a client may send. -/
def misdirected : Bytes → Bool
  | [] => false
  | kind :: _ => !isToViewer kind

namespace Relay

/-- The credit that was handed to the agent. -/
def granted (relay : Relay) : Nat := (relay.handed.map fun event => event.message.grant).sum

/-- The window that has gone back to the agent or is kept for it. -/
def accounted (relay : Relay) : Nat := relay.granted + relay.uncredited

/-- The messages of the agent that were written to the client. -/
def copies (relay : Relay) : List Bytes := relay.sent.filterMap Output.copied

/-- The message of the agent that an event brings. -/
def arrival (relay : Relay) : Event → Option Bytes
  | .pump upstream _ =>
      if relay.pendingRestore then none
      else
        match upstream.next with
        | .given (.ok bytes) => some bytes
        | _ => none
  | _ => none

/-- The messages of the agent that arrive while a relay takes these events. -/
def arrivals (ceilings : Ceilings) (world : RelayWorld) (relay : Relay) : List Event → List Bytes
  | [] => []
  | event :: events =>
      (relay.arrival event).toList ++
        match relay.step ceilings world event with
        | some next => next.arrivals ceilings world events
        | none => []

/-- No message of the agent was written, and no window given back. -/
structure Kept (relay relay' : Relay) : Prop where
  granted : relay'.granted = relay.granted
  uncredited : relay'.uncredited = relay.uncredited
  copies : relay'.copies = relay.copies

/-- Neither the session nor its rights changed. -/
structure Steady (relay relay' : Relay) : Prop where
  machine : relay'.machine = relay.machine
  live : relay'.live = relay.live

variable {ceilings : Ceilings} {world : RelayWorld} {relay relay' relay'' : Relay} {event : Event}
  {standing : Option Standing} {bytes : Bytes}

theorem Kept.refl : Kept relay relay := ⟨rfl, rfl, rfl⟩

theorem Kept.trans (h : Kept relay relay') (h' : Kept relay' relay'') : Kept relay relay'' :=
  ⟨h'.granted.trans h.granted, h'.uncredited.trans h.uncredited, h'.copies.trans h.copies⟩

theorem Kept.accounted (h : Kept relay relay') : relay'.accounted = relay.accounted := by
  rw [Relay.accounted, h.granted, h.uncredited, Relay.accounted]

theorem Steady.refl : Steady relay relay := ⟨rfl, rfl⟩

theorem Steady.trans (h : Steady relay relay') (h' : Steady relay' relay'') : Steady relay relay'' :=
  ⟨h'.machine.trans h.machine, h'.live.trans h.live⟩

theorem Steady.andThen {next : Relay → Relay} (h : Steady relay relay') (hnext : Steady relay' (next relay')) :
    Steady relay (relay'.andThen next) := by
  unfold Relay.andThen
  split
  · exact h
  · exact h.trans hnext

/-! ## What the operations do -/

theorem granted_deliver {message : Message} {gate : Option Gate} :
    (relay.deliver world message gate).granted = relay.granted + message.grant := by
  simp [granted, deliver]

theorem kept_deliver {message : Message} {gate : Option Gate} (h : message.grant = 0) :
    Kept relay (relay.deliver world message gate) :=
  ⟨by rw [granted_deliver, h, Nat.add_zero], rfl, rfl⟩

theorem kept_write {message : Message} : Kept relay (relay.write world (.message message)) := by
  unfold write
  split
  · exact ⟨rfl, rfl, by simp [copies, Output.copied]⟩
  · exact ⟨rfl, rfl, rfl⟩

theorem steady_write {output : Output} : Steady relay (relay.write world output) := by
  unfold write
  split <;> exact ⟨rfl, rfl⟩

/-- A copy goes through, or the stream ends with nothing written. -/
theorem write_copy_cases :
    ((relay.write world (.copy bytes)).ending.isSome = true ∧ Kept relay (relay.write world (.copy bytes))) ∨
      relay.write world (.copy bytes) = { relay with sent := relay.sent ++ [.copy bytes] } := by
  unfold write
  split
  · exact .inr rfl
  · exact .inl ⟨rfl, rfl, rfl, rfl⟩

theorem granted_offer {message : Message} : (relay.offer world message).granted = relay.granted + message.grant := by
  unfold offer
  dsimp only
  split <;> exact granted_deliver

theorem uncredited_offer {message : Message} : (relay.offer world message).uncredited = relay.uncredited := by
  unfold offer
  dsimp only
  split <;> rfl

theorem copies_offer {message : Message} : (relay.offer world message).copies = relay.copies := by
  unfold offer
  dsimp only
  split <;> rfl

theorem steady_offer {message : Message} : Steady relay (relay.offer world message) := by
  unfold offer
  dsimp only
  split <;> exact ⟨rfl, rfl⟩

theorem grant_credit {amount : Nat} (h : amount < 2 ^ 32) :
    (Message.credit (UInt32.ofNat (min amount (2 ^ 32 - 1)))).grant = amount := by
  rw [Message.grant, Nat.min_eq_left (by omega), UInt32.toNat_ofNat_of_lt' h]

theorem uncredited_flushCredit : (relay.flushCredit world).uncredited = 0 := by
  unfold flushCredit
  split
  · assumption
  · exact uncredited_offer

theorem copies_flushCredit : (relay.flushCredit world).copies = relay.copies := by
  unfold flushCredit
  split
  · rfl
  · exact copies_offer

theorem steady_flushCredit : Steady relay (relay.flushCredit world) := by
  unfold flushCredit
  split
  · exact .refl
  · exact ⟨steady_offer.machine, steady_offer.live⟩

/-- What is owed to the agent goes out whole. -/
theorem accounted_flushCredit (h : relay.uncredited < 2 ^ 32) :
    (relay.flushCredit world).accounted = relay.accounted := by
  rw [accounted, uncredited_flushCredit]
  unfold flushCredit
  split
  · rename_i hzero
    rw [accounted, hzero]
  · dsimp only
    rw [granted_offer, grant_credit h]
    rfl

theorem uncredited_credit {written : Nat} : (relay.credit world written).uncredited < creditBatch := by
  unfold credit
  dsimp only
  split
  · assumption
  · rw [uncredited_flushCredit]
    decide

theorem copies_credit {written : Nat} : (relay.credit world written).copies = relay.copies := by
  unfold credit
  dsimp only
  split
  · rfl
  · exact copies_flushCredit

theorem steady_credit {written : Nat} : Steady relay (relay.credit world written) := by
  unfold credit
  dsimp only
  split
  · exact ⟨rfl, rfl⟩
  · exact ⟨steady_flushCredit.machine, steady_flushCredit.live⟩

theorem accounted_credit {written : Nat} (h : relay.uncredited < creditBatch)
    (hwritten : written + creditBatch ≤ 2 ^ 32) :
    (relay.credit world written).accounted = relay.accounted + written := by
  have hsum : min (relay.uncredited + written) (2 ^ 64 - 1) = relay.uncredited + written :=
    Nat.min_eq_left (by omega)
  unfold credit
  dsimp only
  rw [hsum]
  split
  · exact (Nat.add_assoc ..).symm
  · rw [accounted_flushCredit (by dsimp only; omega)]
    exact (Nat.add_assoc ..).symm

theorem steady_forward : Steady relay (relay.forward world bytes) := by
  unfold forward
  split
  · exact .refl
  · split
    · exact ⟨rfl, rfl⟩
    · split
      · exact .refl
      · exact steady_write

/-- A message ends the stream before it is copied, or it is copied where it is the client's to see. -/
theorem forward_cases :
    ((relay.forward world bytes).ending.isSome = true ∧ Kept relay (relay.forward world bytes)) ∨
      (misdirected bytes = false ∧ relay.forward world bytes =
        { relay with sent := relay.sent ++ ([bytes].filter passes).map .copy }) := by
  unfold forward
  split
  · exact .inr ⟨rfl, by simp [passes]⟩
  · rename_i kind rest
    by_cases hkind : isToViewer kind
    · rw [if_neg (by simpa using hkind)]
      have hdirected : misdirected (kind :: rest) = false := by simp [misdirected, hkind]
      by_cases hhello : kind = kindHello
      · rw [if_pos hhello]
        exact .inr ⟨hdirected, by simp [passes, hhello]⟩
      · have hpasses : [kind :: rest].filter passes = [kind :: rest] := by simp [passes, hkind, hhello]
        rw [if_neg hhello, hpasses]
        exact write_copy_cases.imp_right fun hwritten => ⟨hdirected, hwritten⟩
    · rw [if_pos (by simpa using hkind)]
      exact .inl ⟨rfl, rfl, rfl, rfl⟩

theorem kept_announce {notice : Option Notice} : Kept relay (relay.announce world notice) := by
  unfold announce
  split
  · exact kept_write
  · exact .refl

theorem steady_announce {notice : Option Notice} : Steady relay (relay.announce world notice) := by
  unfold announce
  split
  · exact steady_write
  · exact .refl

theorem kept_act {action : Action} : Kept relay (relay.act action) := by
  unfold act
  split
  · exact .refl
  · exact .refl
  · exact .refl
  · exact ⟨rfl, rfl, rfl⟩
  · exact ⟨rfl, rfl, rfl⟩
  · split <;> exact ⟨rfl, rfl, rfl⟩

theorem steady_act {action : Action} : Steady relay (relay.act action) := by
  unfold act
  split
  · exact .refl
  · exact .refl
  · exact .refl
  · exact ⟨rfl, rfl⟩
  · exact ⟨rfl, rfl⟩
  · split <;> exact ⟨rfl, rfl⟩

theorem steady_present {arrived : Option Bytes} : Steady relay (relay.present world arrived) := by
  cases arrived with
  | none => exact steady_flushCredit
  | some bytes =>
      unfold present
      dsimp only
      split
      · exact steady_forward.andThen steady_credit
      · exact Steady.refl.andThen steady_credit

/-! ## What a step does -/

/-- A stream that has not ended may be watched, and there is less to give back than a batch. -/
structure Sound (relay : Relay) : Prop where
  uncredited : relay.uncredited < creditBatch
  running : relay.ending = none → Session.isOver relay.machine.phase = false
  view : relay.ending = none → relay.live.contains .view = true

/-- What a step does with the message that arrived. -/
inductive Stepped (relay relay' : Relay) : Option Bytes → Prop where
  | quiet : relay'.accounted = relay.accounted → relay'.copies = relay.copies → relay'.uncredited ≤ relay.uncredited →
      Stepped relay relay' none
  | lost {bytes : Bytes} : relay'.ending.isSome = true → Kept relay relay' → Stepped relay relay' (some bytes)
  | took {bytes : Bytes} : misdirected bytes = false → relay'.copies = relay.copies ++ [bytes].filter passes →
      relay'.uncredited < creditBatch →
      (bytes.length + creditBatch ≤ 2 ^ 32 → relay'.accounted = relay.accounted + bytes.length) →
      Stepped relay relay' (some bytes)

theorem Kept.stepped (h : Kept relay relay') : Stepped relay relay' none :=
  .quiet h.accounted h.copies (Nat.le_of_eq h.uncredited)

theorem Stepped.trans_kept {arrived : Option Bytes} (h : Stepped relay relay' arrived) (hkept : Kept relay' relay'')
    (hended : relay'.ending.isSome = true → relay''.ending.isSome = true) : Stepped relay relay'' arrived := by
  cases h with
  | quiet haccounted hcopies hless =>
      exact .quiet (hkept.accounted.trans haccounted) (hkept.copies.trans hcopies) (hkept.uncredited ▸ hless)
  | lost hends hbefore => exact .lost (hended hends) (hbefore.trans hkept)
  | took hkind hcopies hless haccounted =>
      exact .took hkind (hkept.copies.trans hcopies) (hkept.uncredited ▸ hless)
        fun hlength => hkept.accounted.trans (haccounted hlength)

theorem isSome_act {action : Action} (h : relay.ending.isSome = true) : (relay.act action).ending.isSome = true := by
  unfold act
  split
  · exact h
  · exact h
  · exact h
  · exact h
  · exact h
  · split <;> rfl

theorem Kept.trans_stepped {arrived : Option Bytes} (hkept : Kept relay relay') (h : Stepped relay' relay'' arrived) :
    Stepped relay relay'' arrived := by
  cases h with
  | quiet haccounted hcopies hless =>
      exact .quiet (haccounted.trans hkept.accounted) (hcopies.trans hkept.copies) (hkept.uncredited ▸ hless)
  | lost hends hafter => exact .lost hends (hkept.trans hafter)
  | took hkind hcopies hless haccounted =>
      exact .took hkind (hkept.copies ▸ hcopies) hless fun hlength => hkept.accounted ▸ haccounted hlength

theorem Stepped.andThen_act {arrived : Option Bytes} {action : Action} (h : Stepped relay relay' arrived) :
    Stepped relay (relay'.andThen (act action)) arrived := by
  unfold andThen
  split
  · exact h
  · exact h.trans_kept kept_act isSome_act

theorem stepped_present_none (h : relay.uncredited < creditBatch) : Stepped relay (relay.present world none) none :=
  .quiet (accounted_flushCredit (Nat.lt_trans h (by decide))) copies_flushCredit
    (by rw [present, uncredited_flushCredit]; exact Nat.zero_le _)

theorem stepped_present_some (h : relay.uncredited < creditBatch) (hending : relay.ending = none)
    (hlive : relay.machine.phase = .live) (hview : relay.live.contains .view = true) :
    Stepped relay (relay.present world (some bytes)) (some bytes) := by
  unfold present
  dsimp only
  rw [if_pos ⟨hlive, hview⟩, andThen]
  rcases @forward_cases world relay bytes with ⟨hended, hkept⟩ | ⟨hkind, hforward⟩
  · rw [if_pos hended]
    exact .lost hended hkept
  · have hcopies : (relay.forward world bytes).copies = relay.copies ++ [bytes].filter passes := by
      rw [hforward, copies, List.filterMap_append, List.filterMap_map]
      exact congrArg _ (List.filterMap_some ..)
    rw [if_neg (by rw [hforward, hending]; decide)]
    refine .took hkind (copies_credit.trans hcopies) uncredited_credit ?_
    intro hlength
    rw [accounted_credit (by rw [hforward]; exact h) hlength, hforward]
    rfl

/-- What the relay is after the machine was told and the client heard of it. -/
def told (world : RelayWorld) (now : Instant) (observation : Observation) (relay : Relay) : Relay :=
  { relay with machine := (relay.machine.observe observation now).1 }.announce world
    (relay.machine.observe observation now).2.notice

theorem turn_eq {now : Instant} {observation : Observation} {arrived : Option Bytes} :
    relay.turn world now observation arrived =
      ((relay.told world now observation).andThen (present world arrived)).andThen
        (act (relay.machine.observe observation now).2.action) := rfl

theorem kept_told {now : Instant} {observation : Observation} : Kept relay (relay.told world now observation) :=
  ⟨kept_announce.granted, kept_announce.uncredited, kept_announce.copies⟩

theorem told_machine {now : Instant} {observation : Observation} :
    (relay.told world now observation).machine = (relay.machine.observe observation now).1 := steady_announce.machine

theorem told_live {now : Instant} {observation : Observation} :
    (relay.told world now observation).live = relay.live := steady_announce.live

theorem steady_turn {now : Instant} {observation : Observation} {arrived : Option Bytes} :
    Steady (relay.told world now observation) (relay.turn world now observation arrived) :=
  (Steady.refl.andThen steady_present).andThen steady_act

theorem running_turn {now : Instant} {observation : Observation} {arrived : Option Bytes}
    (h : (relay.turn world now observation arrived).ending = none) :
    Session.isOver (relay.turn world now observation arrived).machine.phase = false := by
  rw [steady_turn.machine, told_machine]
  cases hover : Session.isOver (relay.machine.observe observation now).1.phase with
  | false => rfl
  | true =>
      rw [turn_eq, Session.closeStreams_of_observe hover, andThen] at h
      split at h
      · rename_i hended
        rw [h] at hended
        cases hended
      · simp only [act] at h
        split at h <;> cases h

theorem sound_turn {now : Instant} {observation : Observation} {arrived : Option Bytes} (h : Sound relay)
    (hending : relay.ending = none) (hless : (relay.turn world now observation arrived).uncredited < creditBatch) :
    Sound (relay.turn world now observation arrived) where
  uncredited := hless
  running := running_turn
  view _ := by
    rw [steady_turn.live, told_live]
    exact h.view hending

theorem stepped_turn_none {now : Instant} {observation : Observation} (h : Sound relay) :
    Stepped relay (relay.turn world now observation none) none := by
  have htold : (relay.told world now observation).uncredited < creditBatch := by
    rw [kept_told.uncredited]
    exact h.uncredited
  have hpresent : Stepped relay ((relay.told world now observation).andThen (present world none)) none := by
    unfold andThen
    split
    · exact kept_told.stepped
    · exact kept_told.trans_stepped (stepped_present_none htold)
  exact hpresent.andThen_act

theorem stepped_turn_some {now : Instant} (h : Sound relay) (hending : relay.ending = none) :
    Stepped relay (relay.turn world now .frame (some bytes)) (some bytes) := by
  obtain ⟨hlive, -⟩ := Session.observe_frame now (h.running hending)
  have htold : (relay.told world now .frame).uncredited < creditBatch := by
    rw [kept_told.uncredited]
    exact h.uncredited
  have hpresent : Stepped relay ((relay.told world now .frame).andThen (present world (some bytes))) (some bytes) := by
    unfold andThen
    split
    · rename_i hended
      exact .lost hended kept_told
    · rename_i hended
      refine kept_told.trans_stepped (stepped_present_some htold (by simpa using hended) ?_ ?_)
      · rw [told_machine]
        exact hlive
      · rw [told_live]
        exact h.view hending
  exact hpresent.andThen_act

/-- A turn without a message gives back all that is owed. -/
theorem uncredited_turn_none {now : Instant} {observation : Observation}
    (h : (relay.turn world now observation none).ending = none) :
    (relay.turn world now observation none).uncredited = 0 := by
  rw [turn_eq, andThen] at h ⊢
  split
  · rename_i hended
    rw [if_pos hended] at h
    rw [h] at hended
    cases hended
  · rename_i hended
    rw [kept_act.uncredited, andThen]
    split
    · rename_i htold
      rw [andThen, if_pos htold] at hended
      exact absurd htold hended
    · exact uncredited_flushCredit

/-! ## Events -/

theorem stepped_pump {upstream : Upstream} {now : Instant} (h : Sound relay) (hending : relay.ending = none) :
    Stepped relay (relay.pump world upstream now) (relay.arrival (.pump upstream now)) ∧
      Sound (relay.pump world upstream now) := by
  have hnone : ∀ {before : Relay} {observation : Observation}, Kept relay before → Steady relay before →
      before.ending = none →
      Stepped relay (before.turn world now observation none) none ∧
        Sound (before.turn world now observation none) := by
    intro before observation hkept hsteady hbefore
    have hsound : Sound before := ⟨by rw [hkept.uncredited]; exact h.uncredited,
      fun _ => by rw [hsteady.machine]; exact h.running hending, fun _ => by rw [hsteady.live]; exact h.view hending⟩
    have hstepped := hkept.trans_stepped (@stepped_turn_none world before now observation hsound)
    refine ⟨hstepped, sound_turn hsound hbefore ?_⟩
    cases hstepped with
    | quiet _ _ hless => exact Nat.lt_of_le_of_lt hless h.uncredited
  unfold pump arrival
  dsimp only
  cases relay.pendingRestore with
  | true =>
      rw [if_pos rfl, if_pos rfl]
      cases upstream.restore with
      | elapsed => exact ⟨Kept.stepped ⟨rfl, rfl, rfl⟩, h.uncredited, nofun, nofun⟩
      | given answer =>
          cases answer with
          | error condition => exact hnone .refl .refl hending
          | ok => exact hnone ((kept_deliver rfl).trans ⟨rfl, rfl, rfl⟩) ⟨rfl, rfl⟩ hending
  | false =>
      rw [if_neg Bool.false_ne_true, if_neg Bool.false_ne_true]
      cases upstream.next with
      | elapsed => exact hnone .refl .refl hending
      | given answer =>
          cases answer with
          | error condition => exact hnone .refl .refl hending
          | ok bytes =>
              have hstepped := @stepped_turn_some world relay bytes now h hending
              refine ⟨hstepped, sound_turn h hending ?_⟩
              cases hstepped with
              | lost _ hkept => exact hkept.uncredited ▸ h.uncredited
              | took _ _ hless _ => exact hless

/-- An event other than a turn gives nothing back and copies nothing. -/
theorem kept_drive {message : Message} {now : Instant} (hmessage : message.grant = 0) :
    Kept relay (relay.drive ceilings world message standing now) := by
  unfold drive
  split
  · exact ⟨rfl, rfl, rfl⟩
  · split
    · exact kept_write
    · dsimp only
      split
      · exact (kept_deliver hmessage).trans ⟨rfl, rfl, rfl⟩
      · exact kept_deliver hmessage
      · exact (kept_deliver hmessage).trans kept_write

theorem steady_drive {message : Message} {now : Instant} :
    Steady relay (relay.drive ceilings world message standing now) := by
  unfold drive
  split
  · exact ⟨rfl, rfl⟩
  · split
    · exact steady_write
    · dsimp only
      split
      · exact ⟨rfl, rfl⟩
      · exact ⟨rfl, rfl⟩
      · exact ⟨steady_write.machine, steady_write.live⟩

theorem kept_receive {message : Option Message} {now : Instant} :
    Kept relay (relay.receive ceilings world message standing now) ∧
      Steady relay (relay.receive ceilings world message standing now) := by
  cases message with
  | none => exact ⟨⟨rfl, rfl, rfl⟩, rfl, rfl⟩
  | some message =>
      cases message with
      | releaseAll => exact ⟨kept_deliver rfl, rfl, rfl⟩
      | requestFullFrame monitor => exact ⟨kept_deliver rfl, rfl, rfl⟩
      | credit bytes => exact ⟨.refl, .refl⟩
      | key | text | pointerMove | button | scroll => exact ⟨kept_drive rfl, steady_drive⟩
      | _ => exact ⟨⟨rfl, rfl, rfl⟩, rfl, rfl⟩

theorem stepped_react (h : Sound relay) (hending : relay.ending = none) :
    Stepped relay (relay.react ceilings world event) (relay.arrival event) ∧
      Sound (relay.react ceilings world event) := by
  have hsound : ∀ {relay'}, Kept relay relay' → Steady relay relay' → Sound relay' := by
    intro relay' hkept hsteady
    exact ⟨by rw [hkept.uncredited]; exact h.uncredited, fun _ => by rw [hsteady.machine]; exact h.running hending,
      fun _ => by rw [hsteady.live]; exact h.view hending⟩
  cases event with
  | pump upstream now => exact stepped_pump h hending
  | receive message standing now =>
      exact ⟨kept_receive.1.stepped, hsound kept_receive.1 kept_receive.2⟩
  | revalidate standing now =>
      simp only [react, revalidate]
      split
      · exact ⟨Kept.stepped ⟨rfl, rfl, rfl⟩, h.uncredited, nofun, nofun⟩
      · rename_i hstanding
        exact ⟨Kept.stepped ⟨rfl, rfl, rfl⟩, h.uncredited, fun _ => h.running hending,
          fun _ => Viewer.standingNow_view hstanding⟩
  | ends ending => exact ⟨Kept.stepped ⟨rfl, rfl, rfl⟩, h.uncredited, nofun, nofun⟩

theorem finish_ending {ending : Ending} : (relay.finish world ending).ending = relay.ending := by
  unfold finish
  dsimp only
  split
  · split <;> rfl
  · rfl

theorem kept_finish {ending : Ending} : Kept relay (relay.finish world ending) := by
  have hreleased : Kept relay (relay.deliver world .releaseAll none) := kept_deliver rfl
  unfold finish
  dsimp only
  split
  · split
    · exact hreleased.trans ⟨rfl, rfl, by simp [copies, Output.copied]⟩
    · exact hreleased
  · exact hreleased

theorem closing_ending : (closing world relay).ending = relay.ending := by
  unfold closing
  split
  · exact finish_ending
  · rfl

theorem kept_closing : Kept relay (closing world relay) := by
  unfold closing
  split
  · exact kept_finish
  · exact .refl

/-- A stream that goes on is not closed. -/
theorem closing_of_running (h : relay.ending = none) : closing world relay = relay := by
  rw [closing, h]

theorem Sound.closing (h : Sound relay) : Sound (closing world relay) := by
  cases hending : relay.ending with
  | none =>
      rw [closing_of_running hending]
      exact h
  | some ending =>
      have hended : (Relay.closing world relay).ending = some ending := closing_ending.trans hending
      exact ⟨by rw [kept_closing.uncredited]; exact h.uncredited, by rw [hended]; nofun, by rw [hended]; nofun⟩

theorem stepped_step (h : Sound relay) (hstep : relay.step ceilings world event = some relay') :
    Stepped relay relay' (relay.arrival event) ∧ Sound relay' ∧ relay.ending = none := by
  unfold step at hstep
  split at hstep
  · cases hstep
  · rename_i hending
    rw [Option.not_isSome_iff_eq_none] at hending
    rw [← Option.some.inj hstep]
    obtain ⟨hreact, hsound⟩ := @stepped_react ceilings world relay event h hending
    refine ⟨hreact.trans_kept kept_closing ?_, hsound.closing, hending⟩
    intro hended
    rw [closing_ending]
    exact hended

/-! ## The start -/

/-- The window a relay opens with is given once the client was greeted. -/
structure Opened (relay : Relay) : Prop where
  sound : Sound relay
  uncredited : relay.uncredited = 0
  copies : relay.copies = []
  granted : relay.granted ≤ openingWindow.toNat
  whole : relay.ending = none → relay.granted = openingWindow.toNat

theorem Opened.closing (h : Opened relay) : Opened (closing world relay) where
  sound := h.sound.closing
  uncredited := kept_closing.uncredited.trans h.uncredited
  copies := kept_closing.copies.trans h.copies
  granted := by
    rw [kept_closing.granted]
    exact h.granted
  whole hending := by
    rw [closing_ending] at hending
    rw [kept_closing.granted]
    exact h.whole hending

/-- A stream that ends before it began. -/
theorem opened_of_ended (hended : relay.ending.isSome = true) (hfresh : Kept (new ceilings .none) relay) :
    Opened relay := by
  have hnone : relay.ending ≠ none := Option.isSome_iff_ne_none.mp hended
  have hgranted : relay.granted = 0 := hfresh.granted
  have huncredited : relay.uncredited = 0 := hfresh.uncredited
  refine ⟨⟨?_, fun h => absurd h hnone, fun h => absurd h hnone⟩, huncredited, hfresh.copies, ?_,
    fun h => absurd h hnone⟩
  · rw [huncredited]
    decide
  · rw [hgranted]
    exact Nat.zero_le _

theorem opened_openUpstream (h : Kept (new ceilings .none) relay) (hphase : relay.machine.phase = .starting)
    (hview : relay.live.contains .view = true) : Opened (relay.openUpstream world) := by
  have hsteady : Steady relay (relay.openUpstream world) := steady_offer.andThen steady_offer
  have hoffered : (relay.offer world (.credit openingWindow)).granted = openingWindow.toNat := by
    rw [granted_offer, h.granted]
    exact Nat.zero_add _
  have hgranted : (relay.openUpstream world).granted = openingWindow.toNat := by
    unfold openUpstream andThen
    split
    · exact hoffered
    · rw [granted_offer]
      exact hoffered
  have huncredited : (relay.openUpstream world).uncredited = 0 := by
    unfold openUpstream andThen
    split
    · exact uncredited_offer.trans h.uncredited
    · exact uncredited_offer.trans (uncredited_offer.trans h.uncredited)
  have hcopies : (relay.openUpstream world).copies = [] := by
    unfold openUpstream andThen
    split
    · exact copies_offer.trans h.copies
    · exact copies_offer.trans (copies_offer.trans h.copies)
  refine ⟨⟨?_, fun _ => ?_, fun _ => ?_⟩, huncredited, hcopies, Nat.le_of_eq hgranted, fun _ => hgranted⟩
  · rw [huncredited]
    decide
  · rw [hsteady.machine, hphase]
    rfl
  · rw [hsteady.live]
    exact hview

theorem opened_start : Opened (start ceilings world standing) := by
  unfold start
  split
  · exact Opened.closing (@opened_of_ended ceilings _ rfl ⟨rfl, rfl, rfl⟩)
  · dsimp only
    split
    · exact Opened.closing (@opened_of_ended ceilings _ rfl ⟨rfl, rfl, rfl⟩)
    · rename_i standing hview
      have hview : (effective ceilings.granted standing.capabilities).contains .view = true := by simpa using hview
      have hgreeted : Kept (new ceilings .none)
          ((new ceilings (effective ceilings.granted standing.capabilities)).write world (.message .hello)) :=
        ⟨kept_write.granted, kept_write.uncredited, kept_write.copies⟩
      refine Opened.closing ?_
      unfold andThen
      split
      · rename_i hended
        exact opened_of_ended hended hgreeted
      · refine opened_openUpstream hgreeted ?_ ?_
        · rw [steady_write.machine]
          rfl
        · rw [steady_write.live]
          exact hview

/-! ## Runs -/

variable {ok : Relay → Event → Prop} {events : List Event}

/-- A stream that has ended takes no event. -/
theorem run_of_ended (hrun : Run (step ceilings world) ok relay events relay') (hended : relay.ending.isSome = true) :
    events = [] ∧ relay' = relay := by
  cases hrun with
  | nil => exact ⟨rfl, rfl⟩
  | cons _ hstep _ =>
      rw [step, if_pos hended] at hstep
      cases hstep

theorem arrivals_cons {next : Relay} (hstep : relay.step ceilings world event = some next) :
    relay.arrivals ceilings world (event :: events) =
      (relay.arrival event).toList ++ next.arrivals ceilings world events := by
  rw [arrivals, hstep]

theorem sound_run (hrun : Run (step ceilings world) ok relay events relay') (h : Sound relay) : Sound relay' :=
  hrun.invariant (fun _ _ _ h _ hstep => (stepped_step h hstep).2.1) h

/-- A message of the agent fits a grant beside what is owed. The link to the agent carries at most `2 ^ 20 - 8` bytes
in one. -/
def Sized (relay : Relay) (event : Event) : Prop :=
  ∀ bytes, relay.arrival event = some bytes → bytes.length + creditBatch ≤ 2 ^ 32

/-- The bytes of these messages. -/
def total (messages : List Bytes) : Nat := (messages.map List.length).sum

theorem total_append {front back : List Bytes} : total (front ++ back) = total front + total back := by
  rw [total, List.map_append, List.sum_append]
  rfl

theorem accounted_step (h : Sound relay) (hsized : Sized relay event)
    (hstep : relay.step ceilings world event = some relay') :
    (relay.arrival event = none ∨ relay'.ending = none →
      relay'.accounted = relay.accounted + total (relay.arrival event).toList) ∧
      relay'.accounted ≤ relay.accounted + total (relay.arrival event).toList := by
  obtain ⟨hstepped, -, -⟩ := stepped_step h hstep
  unfold Sized at hsized
  generalize relay.arrival event = arrived at hstepped hsized
  cases hstepped with
  | quiet haccounted => exact ⟨fun _ => haccounted, Nat.le_of_eq haccounted⟩
  | @lost bytes hended hkept =>
      refine ⟨?_, ?_⟩
      · rintro (hnone | hnone)
        · cases hnone
        · rw [hnone] at hended
          cases hended
      · rw [hkept.accounted]
        exact Nat.le_add_right _ _
  | @took bytes _ _ _ haccounted =>
      have haccounted := haccounted (hsized bytes rfl)
      exact ⟨fun _ => haccounted, Nat.le_of_eq haccounted⟩

theorem accounted_run (hrun : Run (step ceilings world) Sized relay events relay') (h : Sound relay) :
    (relay'.ending = none → relay'.accounted = relay.accounted + total (relay.arrivals ceilings world events)) ∧
      relay'.accounted ≤ relay.accounted + total (relay.arrivals ceilings world events) := by
  induction hrun with
  | nil => exact ⟨fun _ => rfl, Nat.le_refl _⟩
  | @cons start next finish event events hsized hstep hrest ih =>
      obtain ⟨hequal, hless⟩ := accounted_step h hsized hstep
      obtain ⟨ihequal, ihless⟩ := ih (stepped_step h hstep).2.1
      rw [arrivals_cons hstep, total_append]
      cases hending : next.ending with
      | none =>
          have hequal := hequal (.inr hending)
          refine ⟨fun hnone => ?_, ?_⟩
          · rw [ihequal hnone]
            omega
          · omega
      | some ending =>
          obtain ⟨rfl, rfl⟩ := run_of_ended hrest (by rw [hending]; rfl)
          refine ⟨fun hnone => ?_, Nat.le_trans hless (by omega)⟩
          rw [hending] at hnone
          cases hnone

theorem copies_run (hrun : Run (step ceilings world) ok relay events relay') (h : Sound relay) :
    (relay'.ending = none →
      relay'.copies = relay.copies ++ (relay.arrivals ceilings world events).filter passes) ∧
      relay'.copies <+: relay.copies ++ (relay.arrivals ceilings world events).filter passes := by
  induction hrun with
  | nil => simp [arrivals]
  | @cons start next finish event events _ hstep hrest ih =>
      obtain ⟨hstepped, hsound, -⟩ := stepped_step h hstep
      obtain ⟨ihequal, ihfront⟩ := ih hsound
      rw [arrivals_cons hstep, List.filter_append, ← List.append_assoc]
      generalize start.arrival event = arrived at hstepped
      cases hstepped with
      | quiet _ hcopies =>
          rw [hcopies] at ihequal ihfront
          simpa using ⟨ihequal, ihfront⟩
      | took _ hcopies =>
          rw [hcopies] at ihequal ihfront
          exact ⟨ihequal, ihfront⟩
      | lost hended hkept =>
          obtain ⟨rfl, rfl⟩ := run_of_ended hrest hended
          refine ⟨fun hnone => ?_, ?_⟩
          · rw [hnone] at hended
            cases hended
          · rw [hkept.copies, List.append_assoc]
            exact List.prefix_append _ _

/-- A message of the wrong direction is the last that arrives. -/
theorem misdirected_run (hrun : Run (step ceilings world) ok relay events relay') (h : Sound relay)
    {front back : List Bytes} (harrivals : relay.arrivals ceilings world events = front ++ bytes :: back)
    (hkind : misdirected bytes = true) : back = [] ∧ relay'.ending.isSome = true := by
  induction hrun generalizing front with
  | nil => simp [arrivals] at harrivals
  | @cons start next finish event events _ hstep hrest ih =>
      obtain ⟨hstepped, hsound, -⟩ := stepped_step h hstep
      rw [arrivals_cons hstep] at harrivals
      generalize start.arrival event = arrived at hstepped harrivals
      cases hstepped with
      | quiet => exact ih hsound harrivals
      | @took first hdirected =>
          cases front with
          | nil =>
              cases harrivals
              rw [hkind] at hdirected
              cases hdirected
          | cons _ front =>
              injection harrivals with _ harrivals
              exact ih hsound harrivals
      | @lost first hended _ =>
          obtain ⟨rfl, rfl⟩ := run_of_ended hrest hended
          cases front with
          | nil =>
              injection harrivals with _ harrivals
              exact ⟨harrivals.symm, hended⟩
          | cons _ front =>
              injection harrivals with _ harrivals
              simp [arrivals] at harrivals

/-- A turn in which nothing arrives, and which the stream outlives, leaves nothing owed. -/
theorem uncredited_idle {upstream : Upstream} {now : Instant} (hidle : relay.arrival (.pump upstream now) = none)
    (hstep : relay.step ceilings world (.pump upstream now) = some relay') (hending : relay'.ending = none) :
    relay'.uncredited = 0 := by
  unfold step at hstep
  split at hstep
  · cases hstep
  · rw [← Option.some.inj hstep] at hending ⊢
    rw [closing_ending] at hending
    rw [kept_closing.uncredited]
    unfold arrival at hidle
    unfold react pump at hending ⊢
    dsimp only at hidle hending ⊢
    cases hrestore : relay.pendingRestore with
    | true =>
        rw [hrestore, if_pos rfl] at hending
        rw [if_pos rfl]
        split
        · rename_i helapsed
          rw [helapsed] at hending
          cases hending
        · rename_i hfailed
          rw [hfailed] at hending
          exact uncredited_turn_none hending
        · rename_i hrestored
          rw [hrestored] at hending
          exact uncredited_turn_none hending
    | false =>
        rw [hrestore, if_neg Bool.false_ne_true] at hending hidle
        rw [if_neg Bool.false_ne_true]
        split
        · rename_i helapsed
          rw [helapsed] at hending
          exact uncredited_turn_none hending
        · rename_i harrived
          rw [harrived] at hidle
          cases hidle
        · rename_i hfailed
          rw [hfailed] at hending
          exact uncredited_turn_none hending

end Relay

/-! ## Whole runs -/

/-- The credit a relay has handed to its agent and what it still owes it make up the window it opened with and the bytes
that arrived, for as long as the stream goes on, and over a last step in which nothing arrives; a message that ends the
stream is not given back. What is owed is less than a batch, and nothing is owed after a turn without a message. -/
theorem relay_credit_is_conserved (ceilings : Ceilings) (world : RelayWorld) (standing : Option Standing)
    {events : List Relay.Event} {relay : Relay}
    (hrun : Run (Relay.step ceilings world) Relay.Sized (.start ceilings world standing) events relay) :
    let arrived := openingWindow.toNat +
      Relay.total ((Relay.start ceilings world standing).arrivals ceilings world events)
    (relay.ending = none → relay.granted + relay.uncredited = arrived) ∧
      relay.granted + relay.uncredited ≤ arrived ∧
      relay.uncredited < creditBatch ∧
      ∀ event relay', relay.step ceilings world event = some relay' → relay.arrival event = none →
        relay'.granted + relay'.uncredited = arrived ∧
        ∀ upstream now, event = .pump upstream now → relay'.ending = none → relay'.uncredited = 0 := by
  intro arrived
  have hopened := @Relay.opened_start ceilings world standing
  have hsound := Relay.sound_run hrun hopened.sound
  obtain ⟨hequal, hless⟩ := Relay.accounted_run hrun hopened.sound
  have hbegun : (Relay.start ceilings world standing).accounted = (Relay.start ceilings world standing).granted := by
    rw [Relay.accounted, hopened.uncredited, Nat.add_zero]
  have hwhole : relay.ending = none → relay.accounted = arrived := by
    intro hending
    have hstart : (Relay.start ceilings world standing).ending = none := by
      cases hended : (Relay.start ceilings world standing).ending with
      | none => rfl
      | some ending =>
          obtain ⟨-, rfl⟩ := Relay.run_of_ended hrun (by rw [hended]; rfl)
          rw [hended] at hending
          cases hending
    rw [hequal hending, hbegun, hopened.whole hstart]
  refine ⟨hwhole, ?_, hsound.uncredited, ?_⟩
  · rw [hbegun] at hless
    exact Nat.le_trans hless (Nat.add_le_add_right hopened.granted _)
  · intro event relay' hstep hidle
    have hsized : Relay.Sized relay event := by
      intro bytes harrival
      rw [hidle] at harrival
      cases harrival
    have hstepped := (Relay.accounted_step hsound hsized hstep).1 (.inl hidle)
    rw [hidle, hwhole (Relay.stepped_step hsound hstep).2.2] at hstepped
    refine ⟨hstepped, ?_⟩
    rintro upstream now rfl hending
    exact Relay.uncredited_idle hidle hstep hending

/-- A client and an agent that take everything. -/
def sampleRelayWorld : RelayWorld := ⟨fun _ => none, fun _ => .accepted⟩

/-- The agent sends a message. -/
def sampleArrival (bytes : Bytes) : Relay.Event := .pump ⟨.elapsed, .given (.ok bytes)⟩ 1

theorem sized_sampleArrival {bytes : Bytes} (h : bytes.length + creditBatch ≤ 2 ^ 32) (relay : Relay) :
    relay.Sized (sampleArrival bytes) := by
  intro other harrival
  cases hrestore : relay.pendingRestore with
  | true => simp [sampleArrival, Relay.arrival, hrestore] at harrival
  | false =>
      simp only [sampleArrival, Relay.arrival, hrestore] at harrival
      cases harrival
      exact h

/-- Two messages, and between them a turn without one, which gives the credit of the first back. -/
def sampleArrivals : List Relay.Event :=
  [sampleArrival [0x05, 1, 2], .pump ⟨.elapsed, .elapsed⟩ 2, sampleArrival [0x05, 7]]

theorem relay_credit_is_conserved_once :
    ∃ relay, Run (Relay.step Viewer.sampleCeilings sampleRelayWorld) Relay.Sized
        (.start Viewer.sampleCeilings sampleRelayWorld (some Viewer.sampleStanding)) sampleArrivals relay ∧
      relay.ending = none ∧ relay.uncredited = 2 ∧ relay.granted + relay.uncredited = 262144 + (3 + 2) := by
  have hexec : (exec (Relay.step Viewer.sampleCeilings sampleRelayWorld) (fun _ _ => True)
      (.start Viewer.sampleCeilings sampleRelayWorld (some Viewer.sampleStanding)) sampleArrivals).map
        (fun relay => (relay.ending, relay.uncredited)) = some (none, 2) := by decide +kernel
  obtain ⟨relay, hrelay, hends⟩ := Option.map_eq_some_iff.mp hexec
  have hsized : ∀ event ∈ sampleArrivals, ∀ relay, Relay.Sized relay event := by
    intro event hevent relay
    rcases List.mem_cons.mp hevent with rfl | hevent
    · exact sized_sampleArrival (by decide) relay
    rcases List.mem_cons.mp hevent with rfl | hevent
    · intro bytes harrival
      cases hrestore : relay.pendingRestore <;> simp [Relay.arrival, hrestore] at harrival
    · rw [List.mem_singleton.mp hevent]
      exact sized_sampleArrival (by decide) relay
  have hrun := (Run.of_exec hrelay).restrict hsized
  injection hends with hending huncredited
  refine ⟨relay, hrun, hending, huncredited, ?_⟩
  rw [(relay_credit_is_conserved _ _ _ hrun).1 hending]
  decide +kernel

/-- A message of the wrong direction ends the stream, and the byte it took of the window does not come back. -/
theorem last_message_is_not_credited :
    ∃ relay, Run (Relay.step Viewer.sampleCeilings sampleRelayWorld) (fun _ _ => True)
        (.start Viewer.sampleCeilings sampleRelayWorld (some Viewer.sampleStanding)) [sampleArrival [0x40]] relay ∧
      Relay.total ((Relay.start Viewer.sampleCeilings sampleRelayWorld (some Viewer.sampleStanding)).arrivals
        Viewer.sampleCeilings sampleRelayWorld [sampleArrival [0x40]]) = 1 ∧
      relay.granted + relay.uncredited = 262144 := by
  have hexec : (exec (Relay.step Viewer.sampleCeilings sampleRelayWorld) (fun _ _ => True)
      (.start Viewer.sampleCeilings sampleRelayWorld (some Viewer.sampleStanding)) [sampleArrival [0x40]]).map
        (fun relay => relay.granted + relay.uncredited) = some 262144 := by decide +kernel
  obtain ⟨relay, hrelay, hgranted⟩ := Option.map_eq_some_iff.mp hexec
  exact ⟨relay, Run.of_exec hrelay, by decide +kernel, hgranted⟩

/-- What a relay writes of its agent's is, byte for byte and in order, a prefix of the messages that arrived of a kind
the client is to see, well formed or not, and all of them while the stream goes on. The first message of the wrong
direction is the last. -/
theorem relay_copies_what_arrives (ceilings : Ceilings) (world : RelayWorld) (standing : Option Standing)
    {events : List Relay.Event} {relay : Relay}
    (hrun : Run (Relay.step ceilings world) (fun _ _ => True) (.start ceilings world standing) events relay) :
    let arrived := (Relay.start ceilings world standing).arrivals ceilings world events
    relay.copies <+: arrived.filter passes ∧
      (relay.ending = none → relay.copies = arrived.filter passes) ∧
      (∀ bytes ∈ relay.copies, ∃ kind rest, bytes = kind :: rest ∧ isToViewer kind = true ∧ kind ≠ kindHello) ∧
      ∀ front bytes back, arrived = front ++ bytes :: back → misdirected bytes = true →
        back = [] ∧ relay.ending.isSome = true := by
  intro arrived
  have hopened := @Relay.opened_start ceilings world standing
  obtain ⟨hequal, hfront⟩ := Relay.copies_run hrun hopened.sound
  rw [hopened.copies, List.nil_append] at hequal hfront
  refine ⟨hfront, hequal, ?_, fun front bytes back harrived => Relay.misdirected_run hrun hopened.sound harrived⟩
  intro bytes hmem
  have hpasses := (List.mem_filter.mp (hfront.subset hmem)).2
  cases bytes with
  | nil => cases hpasses
  | cons kind rest =>
      rw [passes, Bool.and_eq_true, bne_iff_ne] at hpasses
      exact ⟨kind, rest, rfl, hpasses⟩

example : [[0x05, 7], [0x40], [0x3f]].filter passes = [[0x05, 7], [0x3f]] := by decide +kernel

theorem relay_copies_what_arrives_once :
    ∃ relay, Run (Relay.step Viewer.sampleCeilings sampleRelayWorld) (fun _ _ => True)
        (.start Viewer.sampleCeilings sampleRelayWorld (some Viewer.sampleStanding))
        [sampleArrival [0x01], sampleArrival [0x05, 7], sampleArrival [0x40]] relay ∧
      relay.copies <+: [[0x05, 7]] := by
  have hexec : (exec (Relay.step Viewer.sampleCeilings sampleRelayWorld) (fun _ _ => True)
      (.start Viewer.sampleCeilings sampleRelayWorld (some Viewer.sampleStanding))
      [sampleArrival [0x01], sampleArrival [0x05, 7], sampleArrival [0x40]]).isSome = true := by decide +kernel
  obtain ⟨relay, hrelay⟩ := Option.isSome_iff_exists.mp hexec
  have hcopies := (relay_copies_what_arrives _ _ _ (Run.of_exec hrelay)).1
  have harrived : ((Relay.start Viewer.sampleCeilings sampleRelayWorld (some Viewer.sampleStanding)).arrivals
      Viewer.sampleCeilings sampleRelayWorld
      [sampleArrival [0x01], sampleArrival [0x05, 7], sampleArrival [0x40]]).filter passes = [[0x05, 7]] := by
    decide +kernel
  exact ⟨relay, Run.of_exec hrelay, harrived ▸ hcopies⟩

/-- The kinds of the messages that travel to the viewer. -/
def viewerKinds : List UInt8 := [0x01, 0x02, 0x03, 0x04, 0x05, 0x06, 0x07, 0x08]

/-- A message of no known kind is copied. -/
theorem unknown_kind_is_copied :
    ∃ relay, Run (Relay.step Viewer.sampleCeilings sampleRelayWorld) (fun _ _ => True)
        (.start Viewer.sampleCeilings sampleRelayWorld (some Viewer.sampleStanding)) [sampleArrival [0x3f]] relay ∧
      ∀ wellFormed : Bytes → Bool, (∀ kind rest, wellFormed (kind :: rest) = true → kind ∈ viewerKinds) →
        ¬ relay.copies <+: ((Relay.start Viewer.sampleCeilings sampleRelayWorld (some Viewer.sampleStanding)).arrivals
          Viewer.sampleCeilings sampleRelayWorld [sampleArrival [0x3f]]).filter wellFormed := by
  have hexec : (exec (Relay.step Viewer.sampleCeilings sampleRelayWorld) (fun _ _ => True)
      (.start Viewer.sampleCeilings sampleRelayWorld (some Viewer.sampleStanding)) [sampleArrival [0x3f]]).map
        Relay.copies = some [[0x3f]] := by decide +kernel
  obtain ⟨relay, hrelay, hcopies⟩ := Option.map_eq_some_iff.mp hexec
  refine ⟨relay, Run.of_exec hrelay, ?_⟩
  intro wellFormed hkinds hfront
  have hmem : [0x3f] ∈ relay.copies := by
    rw [hcopies]
    exact List.mem_cons_self
  have hformed := (List.mem_filter.mp (hfront.subset hmem)).2
  exact absurd (hkinds _ _ hformed) (by decide)

end Selfhost.Desk
