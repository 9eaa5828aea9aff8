import Selfhost.Ws.Duplex
import Selfhost.Ws.Lemmas.Frame

/-!
# What a stream writes and what it hears

One step of a stream writes at most one frame. From it: when nothing follows a close frame, when the other end takes
the messages, and why it does not matter how the bytes are cut.
-/

namespace Selfhost.Ws

open Selfhost.Lib

namespace Duplex

variable {world : World} {duplex duplex' : Duplex}

/-! ## One step -/

/-- What no write changes. -/
structure Kept (duplex duplex' : Duplex) : Prop where
  role : duplex'.role = duplex.role
  limits : duplex'.limits = duplex.limits
  buffered : duplex'.buffered = duplex.buffered
  heard : duplex'.heard = duplex.heard

theorem Kept.refl (duplex : Duplex) : Kept duplex duplex := ⟨rfl, rfl, rfl, rfl⟩

theorem kept_writeFrame (opcode : Opcode) (payload : Bytes) : Kept duplex (duplex.writeFrame world opcode payload).2 := by
  unfold writeFrame
  dsimp only
  split <;> exact ⟨rfl, rfl, rfl, rfl⟩

theorem kept_orFail {outcome : Bool × Duplex} (h : Kept duplex outcome.2) {next : Duplex → Duplex}
    (hnext : Kept outcome.2 (next outcome.2)) : Kept duplex (orFail outcome next) := by
  unfold orFail
  split
  · exact ⟨hnext.role.trans h.role, hnext.limits.trans h.limits, hnext.buffered.trans h.buffered,
      hnext.heard.trans h.heard⟩
  · exact ⟨h.role, h.limits, h.buffered, h.heard⟩

theorem kept_sendClose (code : CloseCode) (reason : Str) : Kept duplex (duplex.sendClose world code reason).2 := by
  unfold sendClose
  split
  · exact .refl duplex
  · have h := @kept_writeFrame world { duplex with closeSent := true } .close (encodeBody code reason)
    exact ⟨h.role, h.limits, h.buffered, h.heard⟩

theorem kept_fail (error : ProtocolError) : Kept duplex (duplex.fail world error) := by
  have h := @kept_sendClose world duplex (codeFor error) error.text
  exact ⟨h.role, h.limits, h.buffered, h.heard⟩

theorem kept_acceptData (frame : Frame) : Kept duplex (duplex.acceptData world frame) := by
  unfold acceptData
  split
  · rename_i error assembler _
    have h := @kept_fail world { duplex with assembler := assembler } error
    exact ⟨h.role, h.limits, h.buffered, h.heard⟩
  · exact ⟨rfl, rfl, rfl, rfl⟩
  · exact ⟨rfl, rfl, rfl, rfl⟩

theorem kept_handleFrame (frame : Frame) : Kept duplex (duplex.handleFrame world frame) := by
  unfold handleFrame
  split
  · exact kept_orFail (kept_writeFrame _ _) (.refl _)
  · exact .refl duplex
  · split
    · exact kept_fail _
    · exact kept_orFail (kept_sendClose _ _) ⟨rfl, rfl, rfl, rfl⟩
  · exact kept_acceptData frame
  · exact kept_acceptData frame

/-- What a step adds to what was written. A close frame is only added when none has gone out, and a ping too. -/
inductive Wrote (world : World) (duplex : Duplex) : Event → Duplex → Prop where
  | nothing {event : Event} {after : Duplex} : after.written = duplex.written →
      (duplex.closeSent = true → after.closeSent = true) → Wrote world duplex event after
  | close {event : Event} {after : Duplex} {body : Bytes} : duplex.closeSent = false → after.closeSent = true →
      after.written = duplex.written ++ [⟨.close, body, duplex.mask world⟩] → Wrote world duplex event after
  | ping {event : Event} {after : Duplex} {body : Bytes} : duplex.closeSent = false → after.closeSent = false →
      after.written = duplex.written ++ [⟨.ping, body, duplex.mask world⟩] → Wrote world duplex event after
  | pong {after : Duplex} {parsed : ParsedFrame} :
      parse duplex.buffered duplex.role duplex.limits = .ok parsed → parsed.frame.opcode = .ping →
      duplex.finished = false → world.fails duplex.attempts = false → after.closeSent = duplex.closeSent →
      after.written = duplex.written ++ [⟨.pong, parsed.frame.payload, duplex.mask world⟩] →
      Wrote world duplex .frame after
  | send {after : Duplex} {payload : Payload} : payload.bytes.length ≤ duplex.limits.maxFrame →
      world.fails duplex.attempts = false → after.closeSent = duplex.closeSent →
      after.written = duplex.written ++ [⟨.binary, payload.bytes, duplex.mask world⟩] →
      Wrote world duplex (.send payload) after
  | queued {after : Duplex} {payload : Payload} :
      world.fails duplex.attempts = false → after.closeSent = duplex.closeSent →
      after.written = duplex.written ++ [⟨.binary, payload.bytes, duplex.mask world⟩] →
      Wrote world duplex (.wake (.outgoing (.binary payload))) after

/-- A write fails, or adds its frame. -/
theorem writeFrame_cases (world : World) (opcode : Opcode) (payload : Bytes) (duplex : Duplex) :
    (world.fails duplex.attempts = true ∧
        duplex.writeFrame world opcode payload = (false, { duplex with attempts := duplex.attempts + 1 })) ∨
      (world.fails duplex.attempts = false ∧
        duplex.writeFrame world opcode payload =
          (true, { duplex with
            attempts := duplex.attempts + 1
            written := duplex.written ++ [⟨opcode, payload, duplex.mask world⟩] })) := by
  unfold writeFrame
  cases h : world.fails duplex.attempts with
  | true => exact .inl ⟨rfl, rfl⟩
  | false => exact .inr ⟨rfl, rfl⟩

/-- Two streams that write alike. -/
structure Alike (world : World) (duplex base : Duplex) : Prop where
  written : base.written = duplex.written
  closeSent : base.closeSent = duplex.closeSent
  attempts : base.attempts = duplex.attempts
  mask : base.mask world = duplex.mask world

variable {base : Duplex}

theorem wrote_sendClose (h : Alike world duplex base) (code : CloseCode) (reason : Str) {event : Event} {after : Duplex}
    (hwritten : after.written = (base.sendClose world code reason).2.written)
    (hsent : after.closeSent = (base.sendClose world code reason).2.closeSent) : Wrote world duplex event after := by
  unfold sendClose at hwritten hsent
  cases hclose : base.closeSent with
  | true =>
      rw [if_pos hclose] at hwritten hsent
      exact .nothing (hwritten.trans h.written) fun _ => hsent.trans hclose
  | false =>
      rw [hclose, if_neg Bool.false_ne_true] at hwritten hsent
      rcases writeFrame_cases world .close (encodeBody code reason) { base with closeSent := true } with
        ⟨-, heq⟩ | ⟨-, heq⟩
      · rw [heq] at hwritten hsent
        exact .nothing (hwritten.trans h.written) fun _ => hsent
      · rw [heq] at hwritten hsent
        rw [show ({ base with closeSent := true } : Duplex).mask world = duplex.mask world from h.mask] at hwritten
        exact .close (h.closeSent.symm.trans hclose) hsent (hwritten.trans (by rw [h.written]))

theorem wrote_orFail_close (h : Alike world duplex base) (code : CloseCode) (reason : Str) {event : Event}
    {next : Duplex → Duplex}
    (hnext : ∀ after, (next after).written = after.written ∧ (next after).closeSent = after.closeSent) :
    Wrote world duplex event (orFail (base.sendClose world code reason) next) := by
  refine wrote_sendClose h code reason ?_ ?_
  · unfold orFail
    split
    · exact (hnext _).1
    · rfl
  · unfold orFail
    split
    · exact (hnext _).2
    · rfl

theorem wrote_fail (h : Alike world duplex base) (error : ProtocolError) {event : Event} :
    Wrote world duplex event (base.fail world error) :=
  wrote_sendClose h (codeFor error) error.text rfl rfl

theorem wrote_acceptData (h : Alike world duplex base) (frame : Frame) {event : Event} :
    Wrote world duplex event (base.acceptData world frame) := by
  unfold acceptData
  split
  · refine wrote_fail ?_ _
    exact ⟨h.written, h.closeSent, h.attempts, h.mask⟩
  · exact .nothing h.written fun hsent => h.closeSent.trans hsent
  · exact .nothing h.written fun hsent => h.closeSent.trans hsent

/-- The frame at the front of the buffer is handled. -/
theorem wrote_handleFrame (h : Alike world duplex base) {parsed : ParsedFrame}
    (hparse : parse duplex.buffered duplex.role duplex.limits = .ok parsed) (hfinished : duplex.finished = false) :
    Wrote world duplex .frame (base.handleFrame world parsed.frame) := by
  unfold handleFrame
  split
  · rename_i hping
    rcases writeFrame_cases world .pong parsed.frame.payload base with ⟨-, heq⟩ | ⟨hwrites, heq⟩
    · rw [heq]
      exact .nothing h.written fun hsent => h.closeSent.trans hsent
    · rw [heq]
      refine .pong hparse hping hfinished (h.attempts ▸ hwrites) h.closeSent ?_
      change base.written ++ [⟨.pong, parsed.frame.payload, base.mask world⟩] = _
      rw [h.written, h.mask]
  · exact .nothing h.written fun hsent => h.closeSent.trans hsent
  · split
    · exact wrote_fail h _
    · exact wrote_orFail_close h _ _ fun after => ⟨rfl, rfl⟩
  · exact wrote_acceptData h parsed.frame
  · exact wrote_acceptData h parsed.frame

theorem Alike.refl (world : World) (duplex : Duplex) : Alike world duplex duplex := ⟨rfl, rfl, rfl, rfl⟩

theorem wrote_handleWakeup (wakeup : Wakeup) : Wrote world duplex (.wake wakeup) (duplex.handleWakeup world wakeup) := by
  cases wakeup with
  | read bytes => exact .nothing rfl id
  | eof => exact .nothing rfl id
  | ping =>
      simp only [handleWakeup]
      split
      · exact .nothing rfl id
      · rename_i hsent
        rcases writeFrame_cases world .ping (be64 (duplex.pingsSent + 1))
            { duplex with pingsSent := duplex.pingsSent + 1 } with ⟨-, heq⟩ | ⟨-, heq⟩
        · rw [heq]
          exact .nothing rfl id
        · rw [heq]
          exact .ping (by simpa using hsent) (by simpa [orFail] using hsent) rfl
  | silent => exact wrote_orFail_close (.refl world duplex) _ _ fun after => ⟨rfl, rfl⟩
  | expired => exact wrote_orFail_close (.refl world duplex) _ _ fun after => ⟨rfl, rfl⟩
  | outgoing item =>
      cases item with
      | binary payload =>
          rcases writeFrame_cases world .binary payload.bytes duplex with ⟨-, heq⟩ | ⟨hwrites, heq⟩
          · simp only [handleWakeup, heq]
            exact .nothing rfl id
          · simp only [handleWakeup, heq]
            exact .queued hwrites rfl rfl
      | close code reason => exact wrote_orFail_close (.refl world duplex) _ _ fun after => ⟨rfl, rfl⟩

theorem wrote_step {event : Event} (h : duplex.step world event = some duplex') : Wrote world duplex event duplex' := by
  cases event with
  | frame =>
      simp only [step] at h
      split at h
      · cases h
        exact .nothing rfl id
      · rename_i hfinished
        unfold drainFrame at h
        split at h
        · cases h
        · cases h
          exact wrote_fail (.refl world duplex) _
        · rename_i parsed hparse
          cases h
          refine wrote_handleFrame ?_ hparse (by simpa using hfinished)
          exact ⟨rfl, rfl, rfl, rfl⟩
  | wake wakeup =>
      simp only [step] at h
      split at h
      · cases h
      · split at h
        · cases h
          exact wrote_handleWakeup wakeup
        · cases h
  | send payload =>
      cases h
      unfold send
      split
      · exact .nothing rfl id
      · rename_i hlength
        rcases writeFrame_cases world .binary payload.bytes duplex with ⟨-, heq⟩ | ⟨hwrites, heq⟩
        · rw [heq]
          exact .nothing rfl id
        · rw [heq]
          exact .send (Nat.not_lt.mp hlength) hwrites rfl rfl
  | close code reason =>
      cases h
      exact wrote_orFail_close (.refl world duplex) code reason fun after => ⟨rfl, rfl⟩

/-! ## Silence after a close frame -/

/-- A close frame was written. -/
def HasClosed (duplex : Duplex) : Prop := ∃ frame ∈ duplex.written, frame.opcode = .close

instance (duplex : Duplex) : Decidable duplex.HasClosed := inferInstanceAs (Decidable (∃ frame ∈ _, _))

/-- Nothing was written after a close frame. -/
def Quiet (duplex : Duplex) : Prop :=
  Grounded (fun before _ => ∀ frame ∈ before, frame.opcode ≠ .close) duplex.written

/-- The next frame of the buffer is a ping. -/
def HasPing (duplex : Duplex) : Prop :=
  match parse duplex.buffered duplex.role duplex.limits with
  | .ok parsed => parsed.frame.opcode = .ping
  | .error _ => False

instance (duplex : Duplex) : Decidable duplex.HasPing := by
  unfold HasPing
  split <;> infer_instance

/-- Once a close frame is written, no message is sent, none is taken from the queue, and no ping is answered (unless
the transport fails). -/
def Calm (world : World) (duplex : Duplex) : Event → Prop
  | .send payload =>
      ¬ duplex.HasClosed ∨ world.fails duplex.attempts = true ∨ payload.bytes.length > duplex.limits.maxFrame
  | .wake (.outgoing (.binary _)) => ¬ duplex.HasClosed ∨ world.fails duplex.attempts = true
  | .frame => ¬ duplex.HasClosed ∨ world.fails duplex.attempts = true ∨ duplex.finished = true ∨ ¬ duplex.HasPing
  | _ => True

structure Settled (duplex : Duplex) : Prop where
  quiet : duplex.Quiet
  sent : duplex.HasClosed → duplex.closeSent = true

theorem Settled.new (role : Role) (limits : Limits) : (new role limits).Settled := by
  refine ⟨grounded_nil, ?_⟩
  rintro ⟨frame, hmem, -⟩
  cases hmem

theorem Settled.add (h : duplex.Settled) (hopen : ¬ duplex.HasClosed) {frame : Written}
    (hwritten : duplex'.written = duplex.written ++ [frame])
    (hsent : frame.opcode = .close → duplex'.closeSent = true) : duplex'.Settled := by
  refine ⟨?_, ?_⟩
  · rw [Quiet, hwritten]
    exact h.quiet.concat fun other hmem hclose => hopen ⟨other, hmem, hclose⟩
  · rintro ⟨other, hmem, hclose⟩
    rw [hwritten] at hmem
    rcases List.mem_append.mp hmem with hmem | hmem
    · exact absurd ⟨other, hmem, hclose⟩ hopen
    · rw [List.mem_singleton.mp hmem] at hclose
      exact hsent hclose

theorem Settled.step (h : duplex.Settled) {event : Event} (hcalm : Calm world duplex event)
    (hstep : duplex.step world event = some duplex') : duplex'.Settled := by
  have hunsent : duplex.closeSent = false → ¬ duplex.HasClosed := by
    intro hsent hclosed
    rw [h.sent hclosed] at hsent
    cases hsent
  cases wrote_step hstep with
  | nothing hwritten hsent =>
      refine ⟨?_, ?_⟩
      · rw [Quiet, hwritten]
        exact h.quiet
      · rintro ⟨frame, hmem, hclose⟩
        rw [hwritten] at hmem
        exact hsent (h.sent ⟨frame, hmem, hclose⟩)
  | close hbefore hafter hwritten => exact h.add (hunsent hbefore) hwritten fun _ => hafter
  | ping hbefore hafter hwritten => exact h.add (hunsent hbefore) hwritten fun hclose => (by cases hclose)
  | pong hparse hping hfinished hwrites hsent hwritten =>
      refine h.add ?_ hwritten fun hclose => (by cases hclose)
      rcases hcalm with hcalm | hcalm | hcalm | hcalm
      · exact hcalm
      · rw [hwrites] at hcalm
        cases hcalm
      · rw [hfinished] at hcalm
        cases hcalm
      · exact absurd (by rw [HasPing, hparse]; exact hping) hcalm
  | send hlength hwrites hsent hwritten =>
      refine h.add ?_ hwritten fun hclose => (by cases hclose)
      rcases hcalm with hcalm | hcalm | hcalm
      · exact hcalm
      · rw [hwrites] at hcalm
        cases hcalm
      · exact absurd hlength (Nat.not_le.mpr hcalm)
  | queued hwrites hsent hwritten =>
      refine h.add ?_ hwritten fun hclose => (by cases hclose)
      rcases hcalm with hcalm | hcalm
      · exact hcalm
      · rw [hwrites] at hcalm
        cases hcalm

/-- A frame that is added after a close frame breaks the silence. -/
theorem not_quiet_of_add (hclosed : duplex.HasClosed) (frame : Written)
    (hwritten : duplex'.written = duplex.written ++ [frame]) : ¬ duplex'.Quiet := by
  obtain ⟨other, hmem, hclose⟩ := hclosed
  intro hquiet
  exact hquiet duplex.written frame [] hwritten other hmem hclose

theorem not_quiet_of_not_calm {event : Event} (hcalm : ¬ Calm world duplex event)
    (hstep : duplex.step world event = some duplex') : ¬ duplex'.Quiet := by
  cases event with
  | send payload =>
      simp only [Calm, not_or, Classical.not_not, Bool.not_eq_true, Nat.not_lt] at hcalm
      obtain ⟨hclosed, hwrites, hlength⟩ := hcalm
      cases hstep
      refine not_quiet_of_add hclosed ⟨.binary, payload.bytes, duplex.mask world⟩ ?_
      rw [send, if_neg (Nat.not_lt.mpr hlength), writeFrame, if_neg (by rw [hwrites]; exact Bool.false_ne_true)]
      rfl
  | wake wakeup =>
      cases wakeup with
      | outgoing item =>
          cases item with
          | binary payload =>
              simp only [Calm, not_or, Classical.not_not, Bool.not_eq_true] at hcalm
              obtain ⟨hclosed, hwrites⟩ := hcalm
              simp only [step] at hstep
              split at hstep
              · cases hstep
              · split at hstep
                · cases hstep
                  refine not_quiet_of_add hclosed ⟨.binary, payload.bytes, duplex.mask world⟩ ?_
                  rw [handleWakeup, writeFrame, if_neg (by rw [hwrites]; exact Bool.false_ne_true)]
                  rfl
                · cases hstep
          | close => exact absurd trivial hcalm
      | read | eof | ping | silent | expired => exact absurd trivial hcalm
  | frame =>
      simp only [Calm, not_or, Classical.not_not, Bool.not_eq_true] at hcalm
      obtain ⟨hclosed, hwrites, hfinished, hping⟩ := hcalm
      unfold HasPing at hping
      split at hping
      · rename_i parsed hparse
        simp only [step, hfinished, Bool.false_eq_true, if_false, drainFrame, hparse] at hstep
        cases hstep
        refine not_quiet_of_add hclosed ⟨.pong, parsed.frame.payload, duplex.mask world⟩ ?_
        rw [handleFrame, hping]
        dsimp only
        rw [writeFrame, if_neg (by rw [hwrites]; exact Bool.false_ne_true)]
        rfl
      · cases hping
  | close => exact absurd trivial hcalm

end Duplex

/-- In every run in which, once a close frame is written, no message is sent and none is taken from the queue and no
ping is answered, nothing is written after the close frame; and the first such step writes after it. -/
theorem nothing_follows_close (world : World) (role : Role) (limits : Limits) :
    (∀ events duplex, Run (Duplex.step world) (Duplex.Calm world) (.new role limits) events duplex → duplex.Quiet) ∧
      ∀ events duplex duplex' event, Run (Duplex.step world) (Duplex.Calm world) (.new role limits) events duplex →
        duplex.step world event = some duplex' → ¬ Duplex.Calm world duplex event → ¬ duplex'.Quiet := by
  refine ⟨?_, fun _ _ _ _ _ hstep hcalm => Duplex.not_quiet_of_not_calm hcalm hstep⟩
  intro events duplex hrun
  have hsettled : duplex.Settled :=
    hrun.invariant (fun _ _ _ h hcalm hstep => Duplex.Settled.step h hcalm hstep) (Duplex.Settled.new role limits)
  exact hsettled.quiet

/-- A transport that takes every write. -/
def sampleWorld : World := ⟨fun _ => false, fun _ => ⟨1, 2, 3, 4⟩⟩

def sampleLimits : Limits := ⟨1048576, 4194304, 64⟩

instance (world : World) (duplex : Duplex) (event : Duplex.Event) : Decidable (Duplex.Calm world duplex event) := by
  unfold Duplex.Calm
  split <;> infer_instance

theorem nothing_follows_close_once :
    ∃ duplex, Run (Duplex.step sampleWorld) (Duplex.Calm sampleWorld) (.new .server sampleLimits)
        [.send ⟨[7], by decide⟩, .close .normal [], .wake .ping] duplex ∧
      duplex.written = [⟨.binary, [7], none⟩, ⟨.close, [0x03, 0xe8], none⟩] ∧ duplex.Quiet := by
  have hexec : (exec (Duplex.step sampleWorld) (Duplex.Calm sampleWorld) (.new .server sampleLimits)
      [.send ⟨[7], by decide⟩, .close .normal [], .wake .ping]).map Duplex.written =
        some [⟨.binary, [7], none⟩, ⟨.close, [0x03, 0xe8], none⟩] := by decide +kernel
  obtain ⟨duplex, hduplex, hwritten⟩ := Option.map_eq_some_iff.mp hexec
  exact ⟨duplex, Run.of_exec hduplex, hwritten, (nothing_follows_close _ _ _).1 _ _ (Run.of_exec hduplex)⟩

/-- The owner closes a stream and then sends on it. -/
theorem message_follows_close :
    ∃ duplex, Run (Duplex.step sampleWorld) (fun _ _ => True) (.new .server sampleLimits)
        [.close .normal [], .send ⟨[7], by decide⟩] duplex ∧
      duplex.written = [⟨.close, [0x03, 0xe8], none⟩, ⟨.binary, [7], none⟩] ∧ ¬ duplex.Quiet := by
  have hexec : (exec (Duplex.step sampleWorld) (fun _ _ => True) (.new .server sampleLimits)
      [.close .normal [], .send ⟨[7], by decide⟩]).map Duplex.written =
        some [⟨.close, [0x03, 0xe8], none⟩, ⟨.binary, [7], none⟩] := by decide +kernel
  obtain ⟨duplex, hduplex, hwritten⟩ := Option.map_eq_some_iff.mp hexec
  refine ⟨duplex, Run.of_exec hduplex, hwritten, fun hquiet => ?_⟩
  exact hquiet [⟨.close, [0x03, 0xe8], none⟩] ⟨.binary, [7], none⟩ [] hwritten _ List.mem_cons_self rfl

/-! ## How the bytes are cut -/

namespace Duplex

variable {world : World} {duplex duplex' : Duplex} {event : Event}

/-- The bytes that were read. -/
def Event.bytesRead : Event → Bytes
  | .wake (.read bytes) => bytes
  | _ => []

/-- What a step does to the buffer and to what was heard. -/
theorem heard_step (h : duplex.step world event = some duplex') :
    duplex'.role = duplex.role ∧ duplex'.limits = duplex.limits ∧
      ((duplex'.buffered = duplex.buffered ++ event.bytesRead ∧ duplex'.heard = duplex.heard) ∨
        ∃ parsed, parse duplex.buffered duplex.role duplex.limits = .ok parsed ∧ event.bytesRead = [] ∧
          duplex'.buffered = duplex.buffered.drop parsed.consumed ∧ duplex'.heard = duplex.heard ++ [parsed.frame]) := by
  have hkept : ∀ {after : Duplex}, Kept duplex after → event.bytesRead = [] →
      after.role = duplex.role ∧ after.limits = duplex.limits ∧
        ((after.buffered = duplex.buffered ++ event.bytesRead ∧ after.heard = duplex.heard) ∨
          ∃ parsed, parse duplex.buffered duplex.role duplex.limits = .ok parsed ∧ event.bytesRead = [] ∧
            after.buffered = duplex.buffered.drop parsed.consumed ∧ after.heard = duplex.heard ++ [parsed.frame]) := by
    intro after hkept hread
    rw [hread, List.append_nil]
    exact ⟨hkept.role, hkept.limits, .inl ⟨hkept.buffered, hkept.heard⟩⟩
  cases event with
  | frame =>
      simp only [step] at h
      split at h
      · cases h
        exact hkept ⟨rfl, rfl, rfl, rfl⟩ rfl
      · unfold drainFrame at h
        split at h
        · cases h
        · cases h
          exact hkept (kept_fail _) rfl
        · rename_i parsed hparse
          cases h
          have hframe := @kept_handleFrame world { duplex with
            buffered := duplex.buffered.drop parsed.consumed
            heard := duplex.heard ++ [parsed.frame] } parsed.frame
          exact ⟨hframe.role, hframe.limits, .inr ⟨parsed, hparse, rfl, hframe.buffered, hframe.heard⟩⟩
  | wake wakeup =>
      simp only [step] at h
      split at h
      · cases h
      · split at h
        · cases h
          cases wakeup with
          | read bytes => exact ⟨rfl, rfl, .inl ⟨rfl, rfl⟩⟩
          | eof => exact hkept ⟨rfl, rfl, rfl, rfl⟩ rfl
          | ping =>
              simp only [handleWakeup]
              split
              · exact hkept (.refl duplex) rfl
              · have hping := @kept_writeFrame world { duplex with pingsSent := duplex.pingsSent + 1 } .ping
                  (be64 (duplex.pingsSent + 1))
                refine hkept (kept_orFail ?_ (.refl _)) rfl
                exact ⟨hping.role, hping.limits, hping.buffered, hping.heard⟩
          | silent => exact hkept (kept_orFail (kept_sendClose _ _) ⟨rfl, rfl, rfl, rfl⟩) rfl
          | expired => exact hkept (kept_orFail (kept_sendClose _ _) ⟨rfl, rfl, rfl, rfl⟩) rfl
          | outgoing item =>
              cases item with
              | binary payload => exact hkept (kept_orFail (kept_writeFrame _ _) (.refl _)) rfl
              | close code reason => exact hkept (kept_orFail (kept_sendClose _ _) (.refl _)) rfl
        · cases h
  | send payload =>
      cases h
      unfold send
      split
      · exact hkept ⟨rfl, rfl, rfl, rfl⟩ rfl
      · exact hkept (kept_orFail (kept_writeFrame _ _) (.refl _)) rfl
  | close code reason =>
      cases h
      exact hkept (kept_orFail (kept_sendClose _ _) (.refl _)) rfl

/-- What a stream has heard and what its buffer still holds are what the bytes hold that it has read. -/
theorem heard_run {role : Role} {limits : Limits} {events : List Event}
    (hrun : Run (step world) (fun _ _ => True) (new role limits) events duplex) :
    duplex.role = role ∧ duplex.limits = limits ∧
      drainAll (verdict role limits) (events.flatMap Event.bytesRead) =
        (duplex.heard ++ (drainAll (verdict role limits) duplex.buffered).1,
          (drainAll (verdict role limits) duplex.buffered).2) := by
  have hparser := incremental_verdict role limits
  have hall : ∀ {start finish : Duplex} {events : List Event}, Run (step world) (fun _ _ => True) start events finish →
      ∀ read : Bytes, start.role = role ∧ start.limits = limits ∧ drainAll (verdict role limits) read =
        (start.heard ++ (drainAll (verdict role limits) start.buffered).1,
          (drainAll (verdict role limits) start.buffered).2) →
      finish.role = role ∧ finish.limits = limits ∧
        drainAll (verdict role limits) (read ++ events.flatMap Event.bytesRead) =
          (finish.heard ++ (drainAll (verdict role limits) finish.buffered).1,
            (drainAll (verdict role limits) finish.buffered).2) := by
    intro start finish events hrun
    induction hrun with
    | nil =>
        intro read h
        rw [List.flatMap_nil, List.append_nil]
        exact h
    | @cons start next finish event events _ hstep _ ih =>
        rintro read ⟨hrole, hlimits, hread⟩
        obtain ⟨hrole', hlimits', hbuffer⟩ := heard_step hstep
        rw [List.flatMap_cons, ← List.append_assoc]
        refine ih (read ++ event.bytesRead) ⟨hrole'.trans hrole, hlimits'.trans hlimits, ?_⟩
        rcases hbuffer with ⟨hbuffered, hheard⟩ | ⟨parsed, hparse, hnone, hbuffered, hheard⟩
        · rw [drainAll_append hparser read, hread, hbuffered, hheard, drainAll_append hparser start.buffered]
          unfold andThenDrain
          dsimp only
          cases (drainAll (verdict role limits) start.buffered).2 with
          | error error => rfl
          | ok rest => simp only [List.append_assoc]
        · rw [hrole, hlimits] at hparse
          rw [hnone, List.append_nil, hread, hbuffered, hheard, drainAll_item hparser (verdict_of_parse hparse),
            List.append_assoc]
          rfl
  have hstart : drainAll (verdict role limits) [] = ([], .ok []) := drainAll_incomplete hparser.nil
  have h := hall hrun [] ⟨rfl, rfl, by rw [new, hstart]; rfl⟩
  rw [List.nil_append] at h
  exact h

end Duplex

/-- A verdict of the parser other than the request for more bytes stands whatever follows. The loop that drains its
buffer after each read takes the frames and meets the failure of the whole stream, wherever it is cut; and so does a
stream, whatever else it does between its reads. -/
theorem frames_do_not_depend_on_cuts (role : Role) (limits : Limits) :
    (∀ input more, parse input role limits ≠ .error .incomplete →
        parse (input ++ more) role limits = parse input role limits) ∧
      (∀ reads, feed (verdict role limits) [] reads = drainAll (verdict role limits) reads.flatten) ∧
      ∀ world events duplex, Run (Duplex.step world) (fun _ _ => True) (.new role limits) events duplex →
        drainAll (verdict role limits) (events.flatMap Duplex.Event.bytesRead) =
          (duplex.heard ++ (drainAll (verdict role limits) duplex.buffered).1,
            (drainAll (verdict role limits) duplex.buffered).2) := by
  refine ⟨fun input more => parse_append, ?_, ?_⟩
  · intro reads
    have hparser := incremental_verdict role limits
    exact feed_eq hparser hparser.nil reads
  · intro world events duplex hrun
    exact (Duplex.heard_run hrun).2.2

/-! ## What the other end takes -/

/-- The messages of data frames. -/
def assemble : Assembler → List Frame → Except ProtocolError (List Bytes)
  | _, [] => .ok []
  | assembler, frame :: rest =>
      match assembler.accept frame with
      | (.error error, _) => .error error
      | (.ok message, assembler) => (assemble assembler rest).map (message.toList ++ ·)

/-- A message the other end takes in one frame. -/
def Fits (limits : Limits) (message : Bytes) : Prop :=
  message.length ≤ limits.maxFrame ∧ message.length ≤ limits.maxMessage ∧ 1 ≤ limits.maxFragments

instance (limits : Limits) (message : Bytes) : Decidable (Fits limits message) := inferInstanceAs (Decidable (_ ∧ _))

theorem accept_refused {limits : Limits} {message : Bytes}
    (h : ¬ (message.length ≤ limits.maxMessage ∧ 1 ≤ limits.maxFragments)) :
    ∃ error, ((Assembler.new limits).accept ⟨true, .binary, message⟩).1 = .error error := by
  unfold Assembler.accept Assembler.offer Assembler.new
  simp only [Opcode.isControl, Bool.false_eq_true, reduceCtorEq, false_and, and_false, if_false, Nat.zero_add,
    List.length_nil, List.nil_append, if_true]
  by_cases hfragments : 1 > limits.maxFragments
  · rw [if_neg (by decide), if_pos hfragments]
    exact ⟨_, rfl⟩
  · rw [if_neg (by decide), if_neg hfragments]
    by_cases hwide : message.length > u64Max
    · rw [if_pos hwide]
      exact ⟨_, rfl⟩
    · rw [if_neg hwide, if_pos (by omega)]
      exact ⟨_, rfl⟩

/-- A data frame as one end writes it for the other. -/
structure Sent (role : Role) (written : Written) : Prop where
  binary : written.opcode = .binary
  bounded : written.payload.length < 2 ^ 63
  masked : written.mask.isSome = decide (role.peer = .server)

namespace Duplex

/-- The data frames a stream has written. -/
def dataFrames (duplex : Duplex) : List Written := duplex.written.filter fun written => written.opcode = .binary

/-- The messages it has written, in order. -/
def messages (duplex : Duplex) : List Bytes := duplex.dataFrames.map Written.payload

/-- A message that is accepted for sending: by `send` when it is no larger than a frame, and by the queue always. -/
def accepted (limits : Limits) : Event → Option Bytes
  | .send payload => if payload.bytes.length > limits.maxFrame then none else some payload.bytes
  | .wake (.outgoing (.binary payload)) => some payload.bytes
  | _ => none

variable {world : World} {duplex duplex' : Duplex} {event : Event}

end Duplex

end Selfhost.Ws
