import Selfhost.Lib.Scan
import Selfhost.Mesh.Mux
import Selfhost.Mesh.Registry

/-!
# The codec of a link

A frame has one encoding. A message is split into the frames it was put together from, and any other ends the link.
-/

namespace Selfhost.Mesh

open Selfhost.Lib

/-! ## The split of a message -/

/-- The loop of `deliver`: the frames that are routed, in their order, and why the link must end. Every frame takes its
header from the message, so the fuel of its length is enough. -/
def deliverLoop : Nat → Bytes → List Frame × Option DropReason
  | 0, _ => ([], none)
  | fuel + 1, rest =>
      if rest = [] then ([], none)
      else
        match parseFrame rest with
        | .ok (frame, remainder) => (frame :: (deliverLoop fuel remainder).1, (deliverLoop fuel remainder).2)
        | .error (.unsupportedVersion offered) => ([], some (.versionMismatch offered))
        | .error _ => ([], some .protocolError)

def deliver (message : Bytes) : List Frame × Option DropReason := deliverLoop (message.length + 1) message

/-! ## Headers -/

variable {input rest : Bytes} {header : Header} {frame : Frame}

theorem Kind.fromByte_eq_some_iff {byte : UInt8} {kind : Kind} :
    fromByte byte = some kind ↔ byte = kind.asByte := by
  constructor
  · intro h
    unfold fromByte at h
    split_ifs at h with h1 h2 h3 h4 h5 h6 h7 h8 <;> cases h <;> assumption
  · rintro rfl
    exact fromByte_asByte kind

/-- A header that is read is the one that is written. -/
theorem Header.of_parse (h : parse input = .ok header) : input = header.encode ++ input.drop headerLen := by
  unfold parse at h
  split at h
  · rename_i v k c1 c0 l3 l2 l1 l0 tail
    split at h
    · cases h
    · rename_i hversion
      split at h
      · cases h
      · rename_i kind hkind
        dsimp only at h
        split at h
        · cases h
          rw [not_not.mp hversion, Kind.fromByte_eq_some_iff.mp hkind, encode, Scan.be16_ofBe16, Scan.be32_ofBe32]
          rfl
        · cases h
  · cases h

theorem Header.parse_short (h : input.length < headerLen) : parse input = .error (.incomplete headerLen) := by
  unfold parse
  split
  · simp only [List.length_cons, headerLen] at h
    omega
  · rfl

/-! ## Frames -/

theorem Frame.length_encode (frame : Frame) : frame.encode.length = frame.header.frameLen := by
  rw [Frame.encode, List.length_append, Header.length_encode, frame.sized, Header.frameLen]

theorem frame_of_parseFrame (h : parseFrame input = .ok (frame, rest)) : input = frame.encode ++ rest := by
  unfold parseFrame at h
  split at h
  · cases h
  · rename_i header hheader
    split at h
    · rename_i hlong
      cases h
      have hinput := Header.of_parse hheader
      rw [Frame.encode, Header.frameLen, List.append_assoc, ← List.drop_drop, List.take_append_drop]
      exact hinput
    · cases h

/-- What a frame was written from. -/
def Frame.parts (frame : Frame) : Kind × ChannelId × Bytes := (frame.header.kind, frame.header.channel, frame.payload)

theorem Frame.ext_parts {a b : Frame} (h : a.parts = b.parts) : a = b := by
  obtain ⟨⟨kind, channel, length, bounded⟩, payload, sized⟩ := a
  obtain ⟨⟨kind', channel', length', bounded'⟩, payload', sized'⟩ := b
  simp only [Frame.parts, Prod.mk.injEq] at h
  obtain ⟨rfl, rfl, rfl⟩ := h
  have hlength : length = length' := UInt32.toNat_inj.mp (sized.symm.trans sized')
  subst hlength
  rfl

theorem encodeFrame_eq_ok_iff {kind : Kind} {channel : ChannelId} {payload encoded : Bytes} :
    encodeFrame kind channel payload = .ok encoded ↔
      ∃ frame : Frame, frame.parts = (kind, channel, payload) ∧ frame.encode = encoded := by
  constructor
  · intro h
    by_cases hfits : payload.length ≤ maxPayload
    · obtain ⟨frame, hframe, rfl, rfl, rfl⟩ := @encodeFrame_ok kind channel payload hfits
      rw [hframe] at h
      exact ⟨frame, rfl, Except.ok.inj h⟩
    · rw [encodeFrame, Header.new, dif_neg hfits] at h
      cases h
  · rintro ⟨frame, hparts, rfl⟩
    simp only [Frame.parts, Prod.mk.injEq] at hparts
    obtain ⟨rfl, rfl, rfl⟩ := hparts
    have hfits : frame.payload.length ≤ maxPayload := frame.sized ▸ frame.header.bounded
    obtain ⟨other, hother, hkind, hchannel, hpayload⟩ := @encodeFrame_ok frame.header.kind frame.header.channel _ hfits
    rw [hother, Frame.ext_parts (show other.parts = frame.parts by simp only [Frame.parts, hkind, hchannel, hpayload])]

/-- A front of a frame asks for no more than the frame. -/
theorem parseFrame_front {front : Bytes} (hfront : front <+: frame.encode) (hne : front ≠ frame.encode) :
    ∃ needed, parseFrame front = .error (.incomplete needed) ∧ needed ≤ frame.encode.length := by
  have hshorter : front.length < frame.encode.length :=
    Nat.lt_of_le_of_ne hfront.length_le fun hlen => hne (hfront.eq_of_length hlen)
  by_cases hheader : front.length < headerLen
  · refine ⟨headerLen, ?_, ?_⟩
    · rw [parseFrame, Header.parse_short hheader]
    · rw [Frame.length_encode, Header.frameLen]
      exact Nat.le_add_right _ _
  · obtain ⟨more, hmore⟩ := hfront
    have hread : front = frame.header.encode ++ front.drop headerLen := by
      have htake := congrArg (List.take headerLen) hmore
      rw [List.take_append_of_le_length (Nat.le_of_not_lt hheader), Frame.encode, ← frame.header.length_encode,
        List.take_left] at htake
      rw [← htake, frame.header.length_encode, List.take_append_drop]
    have hparse : Header.parse front = .ok frame.header := by
      rw [hread]
      exact Header.parse_encode _ _
    rw [Frame.length_encode] at hshorter
    refine ⟨frame.header.frameLen, ?_, (Frame.length_encode frame).ge⟩
    unfold parseFrame
    rw [hparse]
    exact dif_neg (Nat.not_le.mpr hshorter)

/-! ## Messages -/

theorem deliverLoop_encode (frames : List Frame) {fuel : Nat} (hfuel : frames.length < fuel) :
    deliverLoop fuel (frames.flatMap Frame.encode) = (frames, none) := by
  induction frames generalizing fuel with
  | nil =>
      obtain ⟨fuel, rfl⟩ := Nat.exists_eq_succ_of_ne_zero (Nat.ne_of_gt hfuel)
      rfl
  | cons frame frames ih =>
      obtain ⟨fuel, rfl⟩ := Nat.exists_eq_succ_of_ne_zero (Nat.ne_of_gt (Nat.lt_of_le_of_lt (Nat.zero_le _) hfuel))
      have hne : frame.encode ++ frames.flatMap Frame.encode ≠ [] := by
        intro h
        have := congrArg List.length (List.append_eq_nil_iff.mp h).1
        rw [Frame.length_encode, Header.frameLen] at this
        simp [headerLen] at this
      rw [List.flatMap_cons, deliverLoop, if_neg hne, parseFrame_encode]
      dsimp only
      rw [ih (Nat.lt_of_succ_lt_succ hfuel)]

theorem length_le_length_encodes (frames : List Frame) : frames.length ≤ (frames.flatMap Frame.encode).length := by
  induction frames with
  | nil => exact Nat.le_refl _
  | cons frame frames ih =>
      rw [List.flatMap_cons, List.length_cons, List.length_append, Frame.length_encode, Header.frameLen, headerLen]
      omega

theorem deliver_encodes (frames : List Frame) : deliver (frames.flatMap Frame.encode) = (frames, none) :=
  deliverLoop_encode frames (Nat.lt_succ_of_le (length_le_length_encodes frames))

theorem frames_of_written {sent : List (Kind × ChannelId × Bytes)} {written : List Bytes}
    (h : List.Forall₂ (fun parts encoded => encodeFrame parts.1 parts.2.1 parts.2.2 = .ok encoded) sent written) :
    ∃ frames : List Frame, frames.map Frame.parts = sent ∧ frames.flatMap Frame.encode = written.flatten := by
  induction h with
  | nil => exact ⟨[], rfl, rfl⟩
  | cons hone _ ih =>
      obtain ⟨frame, hparts, rfl⟩ := encodeFrame_eq_ok_iff.mp hone
      obtain ⟨frames, rfl, hwritten⟩ := ih
      exact ⟨frame :: frames, by rw [List.map_cons, hparts], by rw [List.flatMap_cons, List.flatten_cons, hwritten]⟩

/-! ## The codec -/

/-- What is written is read back and what is read was written; a front of a frame is none, a message is split into the
frames it was put together from, and a payload that does not fit writes nothing. -/
theorem mux_codec :
    (∀ (kind : Kind) (channel : ChannelId) (payload rest : Bytes), payload.length ≤ maxPayload →
      ∃ encoded frame, encodeFrame kind channel payload = .ok encoded ∧ frame.parts = (kind, channel, payload) ∧
        parseFrame (encoded ++ rest) = .ok (frame, rest) ∧
        ∀ front, front <+: encoded → front ≠ encoded →
          ∃ needed, parseFrame front = .error (.incomplete needed) ∧ needed ≤ encoded.length) ∧
      (∀ (input rest : Bytes) (frame : Frame), parseFrame input = .ok (frame, rest) →
        ∃ encoded, encodeFrame frame.header.kind frame.header.channel frame.payload = .ok encoded ∧
          input = encoded ++ rest) ∧
      (∀ (sent : List (Kind × ChannelId × Bytes)) (written : List Bytes),
        List.Forall₂ (fun parts encoded => encodeFrame parts.1 parts.2.1 parts.2.2 = .ok encoded) sent written →
          ∃ frames, deliver written.flatten = (frames, none) ∧ frames.map Frame.parts = sent) ∧
      ∀ (out : Bytes) (kind : Kind) (channel : ChannelId) (payload : Bytes) (error : FrameError),
        (writeFrame out kind channel payload).1 = .error error → (writeFrame out kind channel payload).2 = out := by
  refine ⟨fun kind channel payload rest hfits => ?_, fun input rest frame h => ?_, fun sent written h => ?_,
    fun out kind channel payload error h => ?_⟩
  · obtain ⟨frame, hencoded, hkind, hchannel, hpayload⟩ := @encodeFrame_ok kind channel payload hfits
    exact ⟨frame.encode, frame, hencoded, by rw [Frame.parts, hkind, hchannel, hpayload], parseFrame_encode frame rest,
      fun front hfront hne => parseFrame_front hfront hne⟩
  · exact ⟨frame.encode, encodeFrame_eq_ok_iff.mpr ⟨frame, rfl, rfl⟩, frame_of_parseFrame h⟩
  · obtain ⟨frames, hparts, hwritten⟩ := frames_of_written h
    exact ⟨frames, by rw [← hwritten, deliver_encodes], hparts⟩
  · unfold writeFrame at h ⊢
    split at h
    · rfl
    · cases h

theorem mux_codec_data :
    (∃ encoded frame, encodeFrame .data 3 [7] = .ok encoded ∧ frame.parts = (.data, 3, [7]) ∧
      parseFrame (encoded ++ [1, 4]) = .ok (frame, [1, 4])) ∧
      (∃ encoded, encodeFrame .close 2 [0, 1] = .ok encoded ∧ [1, 5, 0, 2, 0, 0, 0, 2, 0, 1, 9] = encoded ++ [9]) ∧
      ∃ frames, deliver [1, 4, 0, 3, 0, 0, 0, 1, 7, 1, 8, 0, 5, 0, 0, 0, 0] = (frames, none) ∧
        frames.map Frame.parts = [(.data, 3, [7]), (.credit, 5, [])] := by
  obtain ⟨hwrite, hread, hsplit, -⟩ := mux_codec
  refine ⟨?_, hread _ _ ⟨⟨.close, 2, 2, by decide⟩, [0, 1], rfl⟩ rfl, ?_⟩
  · obtain ⟨encoded, frame, hencoded, hparts, hparse, -⟩ := hwrite .data 3 [7] [1, 4] (by decide)
    exact ⟨encoded, frame, hencoded, hparts, hparse⟩
  · exact hsplit [(.data, 3, [7]), (.credit, 5, [])] [[1, 4, 0, 3, 0, 0, 0, 1, 7], [1, 8, 0, 5, 0, 0, 0, 0]]
      (.cons rfl (.cons rfl .nil))

end Selfhost.Mesh
