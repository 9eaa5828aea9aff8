import Selfhost.Lib.Scan
import Selfhost.Ws.Lemmas.Frame

/-!
# The codec of frames and their messages

What is read is what was written: a frame has one encoding, and no front of it is taken for a frame. The messages that
are put together are the runs of frames that were opened while none was in progress.
-/

namespace Selfhost.Ws

open Selfhost.Lib

variable {input : Bytes} {role : Role} {limits : Limits} {head : Prologue}

/-! ## The first two bytes -/

theorem classify_eq_ok_iff {bits : UInt8} {opcode : Opcode} :
    Opcode.classify bits = .ok opcode ↔ bits = opcode.bits := by
  constructor
  · intro h
    unfold Opcode.classify at h
    split at h
    · cases h
      assumption
    · split at h
      · cases h
      · split at h
        · cases h
          assumption
        · split at h
          · cases h
            assumption
          · split at h
            · cases h
              assumption
            · split at h
              · cases h
                assumption
              · cases h
  · rintro rfl
    cases opcode <;> rfl

theorem bits_of_byte : ∀ n : Fin 256,
    UInt8.ofNat n.val = (if UInt8.ofNat n.val &&& 0x80 ≠ 0 then 0x80 else 0) ||| (UInt8.ofNat n.val &&& 0x7f) ∧
      (UInt8.ofNat n.val &&& 0x70 = 0 → UInt8.ofNat n.val &&& 0x7f = UInt8.ofNat n.val &&& 0x0f) := by
  decide +kernel

theorem byte_eq (b : UInt8) : b = (if b &&& 0x80 ≠ 0 then 0x80 else 0) ||| (b &&& 0x7f) := by
  simpa using (bits_of_byte ⟨b.toNat, b.toNat_lt⟩).1

theorem low_bits {b : UInt8} (h : b &&& 0x70 = 0) : b &&& 0x7f = b &&& 0x0f := by
  have := (bits_of_byte ⟨b.toNat, b.toNat_lt⟩).2
  rw [UInt8.ofNat_toNat] at this
  exact this h

/-- The first two bytes are those the encoder writes for what they say. -/
theorem of_prologue {first second : UInt8} (h : prologue first second role = .ok head) :
    first = (if head.fin then 0x80 else 0) ||| head.opcode.bits ∧
      second = (if head.masked then 0x80 else 0) ||| UInt8.ofNat head.shortLength ∧
      head.masked = decide (role = .server) ∧ head.shortLength ≤ 127 ∧
      Sendable head.fin head.opcode head.shortLength := by
  unfold prologue at h
  dsimp only at h
  split at h
  · cases h
  · rename_i hreserved
    split at h
    · cases h
    · rename_i opcode hclass
      have hbits := classify_eq_ok_iff.mp hclass
      have hfirst : first = (if first &&& 0x80 ≠ 0 then 0x80 else 0) ||| opcode.bits := by
        rw [← hbits, ← low_bits (not_not.mp hreserved)]
        exact byte_eq first
      have hsecond : second = (if second &&& 0x80 ≠ 0 then 0x80 else 0) ||| UInt8.ofNat (second &&& 0x7f).toNat := by
        rw [UInt8.ofNat_toNat]
        exact byte_eq second
      have hshort : (second &&& 0x7f).toNat ≤ 127 := by
        rw [UInt8.toNat_and]
        exact Nat.and_le_right
      split at h
      · cases h
      · cases h
      · rename_i role _ _ hnoServer hnoClient
        split at h
        · cases h
        · rename_i hwhole
          split at h
          · cases h
          · rename_i hsmall
            cases h
            refine ⟨by simpa using hfirst, by simpa using hsecond, ?_, hshort, ?_⟩
            · cases role with
              | server => simpa using hnoServer rfl
              | client => simpa using hnoClient rfl
            · intro hcontrol
              rw [hcontrol] at hwhole hsmall
              simp only [Bool.true_and, Bool.not_eq_true', Bool.not_eq_false, decide_eq_true_eq] at hwhole hsmall
              exact ⟨decide_eq_true hwhole, Nat.le_of_not_lt hsmall⟩

/-! ## The length -/

theorem lt_of_high_bit_clear {n : UInt64} (h : n &&& 0x8000000000000000 = 0) : n.toNat < 2 ^ 63 := by
  have hbit : (0x8000000000000000 : UInt64).toNat = 2 ^ 63 := rfl
  have hand : n.toNat &&& 2 ^ 63 = 0 := by
    rw [← hbit, ← UInt64.toNat_and, h]
    rfl
  have htest : n.toNat.testBit 63 = false := by
    have := congrArg (Nat.testBit · 63) hand
    rwa [Nat.testBit_and, Nat.testBit_two_pow_self, Bool.and_true, Nat.zero_testBit] at this
  refine Nat.lt_of_not_le fun hle => ?_
  have hlt : n.toNat < 2 ^ 64 := n.toNat_lt
  rw [Nat.testBit_eq_decide_div_mod_eq, decide_eq_false_iff_not] at htest
  omega

theorem wideForm_sixteen {n : UInt16} (h : sevenBitMax < n.toNat) :
    shortForm n.toNat = 126 ∧ wideForm n.toNat = be16 n := by
  have hle : n.toNat ≤ sixteenBitMax := Nat.le_of_lt_succ n.toNat_lt
  rw [shortForm, wideForm, if_neg (Nat.not_le.mpr h), if_neg (Nat.not_le.mpr h), if_pos hle, if_pos hle,
    UInt16.ofNat_toNat]
  exact ⟨rfl, rfl⟩

theorem wideForm_wide {n : UInt64} (h : sixteenBitMax < n.toNat) :
    shortForm n.toNat = 127 ∧ wideForm n.toNat = be64 n := by
  have hseven : ¬ n.toNat ≤ sevenBitMax := Nat.not_le.mpr (Nat.lt_trans (by decide) h)
  rw [shortForm, wideForm, if_neg hseven, if_neg hseven, if_neg (Nat.not_le.mpr h), if_neg (Nat.not_le.mpr h),
    UInt64.ofNat_toNat]
  exact ⟨rfl, rfl⟩

/-- A length that is read stands in its shortest form. -/
theorem of_extendedLength {first second : UInt8} {rest : Bytes} {short declared headerLength : Nat}
    (hshort : short ≤ 127) (h : extendedLength (first :: second :: rest) short = .ok (declared, headerLength)) :
    short = shortForm declared ∧ headerLength = 2 + (wideForm declared).length ∧ declared < 2 ^ 63 ∧
      ∃ tail, rest = wideForm declared ++ tail := by
  unfold extendedLength at h
  split at h
  · rename_i hform
    split at h
    · rename_i b0 b1 tail hdrop
      dsimp only at h
      split at h
      · cases h
      · rename_i hlong
        cases h
        obtain ⟨hcode, hwide⟩ := wideForm_sixteen (Nat.lt_of_not_le hlong)
        have hlt : (ofBe16 b0 b1).toNat < 2 ^ 16 := (ofBe16 b0 b1).toNat_lt
        rw [hcode, hwide, Scan.be16_ofBe16]
        exact ⟨hform, rfl, by omega, tail, hdrop⟩
    · cases h
  · split at h
    · rename_i hform
      split at h
      · rename_i b0 b1 b2 b3 b4 b5 b6 b7 tail hdrop
        dsimp only at h
        split at h
        · cases h
        · rename_i hhigh
          split at h
          · cases h
          · rename_i hlong
            cases h
            obtain ⟨hcode, hwide⟩ := wideForm_wide (Nat.lt_of_not_le hlong)
            rw [hcode, hwide, Scan.be64_ofBe64, Scan.be32_ofBe32, Scan.be32_ofBe32]
            exact ⟨hform, rfl, lt_of_high_bit_clear (not_not.mp hhigh), tail, hdrop⟩
      · cases h
    · rename_i hnot16 hnot64
      cases h
      have hseven : short ≤ sevenBitMax := by
        rw [sevenBitMax]
        omega
      rw [shortForm, wideForm, if_pos hseven, if_pos hseven]
      exact ⟨rfl, rfl, Nat.lt_of_le_of_lt hshort (by decide), rest, rfl⟩

/-! ## One encoding -/

/-- Behind the header stand the key, if there is one, and the payload. -/
theorem of_payloadAfter {front tail : Bytes} {declared length : Nat} {parsed : ParsedFrame}
    (h : payloadAfter (front ++ tail) head declared front.length length = .ok parsed) :
    ∃ payload rest, payload.length = length ∧ parsed.frame = ⟨head.fin, head.opcode, payload⟩ ∧
      parsed.consumed = front.length + head.maskLength + length ∧
      if head.masked then
        let key := keyAt (front ++ tail) front.length
        tail = [key.a, key.b, key.c, key.d] ++ (unmask key payload ++ rest)
      else tail = payload ++ rest := by
  unfold payloadAfter at h
  dsimp only at h
  split at h
  · cases h
  · split at h
    · cases h
    · rename_i hlength
      rw [List.length_append] at hlength
      cases hmasked : head.masked with
      | false =>
          have hmask : head.maskLength = 0 := by rw [Prologue.maskLength, hmasked, if_neg Bool.false_ne_true]
          rw [hmasked, hmask] at h
          simp only [Bool.false_eq_true, if_false, Nat.add_zero, List.drop_left, Except.ok.injEq] at h
          subst h
          refine ⟨tail.take length, tail.drop length, List.length_take_of_le (by omega), rfl, by rw [hmask]; rfl, ?_⟩
          exact (List.take_append_drop length tail).symm
      | true =>
          have hmask : head.maskLength = 4 := by rw [Prologue.maskLength, hmasked, if_pos rfl]
          rw [hmask] at hlength
          rcases tail with _ | ⟨a, _ | ⟨b, _ | ⟨c, _ | ⟨d, tail⟩⟩⟩⟩
          · simp at hlength; omega
          · simp at hlength; omega
          · simp at hlength; omega
          · simp at hlength; omega
          · have hdrop : (front ++ a :: b :: c :: d :: tail).drop (front.length + 4) = tail := by
              rw [List.drop_append]
              simp
            have hkey : keyAt (front ++ a :: b :: c :: d :: tail) front.length = ⟨a, b, c, d⟩ := by
              simp [keyAt, List.getD_eq_getElem?_getD]
            rw [hmasked, hmask, hdrop, hkey] at h
            simp only [if_true, Except.ok.injEq] at h
            subst h
            simp only [List.length_cons] at hlength
            refine ⟨unmask ⟨a, b, c, d⟩ (tail.take length), tail.drop length, ?_, rfl, by rw [hmask], ?_⟩
            · rw [length_unmask]
              exact List.length_take_of_le (by omega)
            · simp only [if_true, hkey, unmask_unmask, List.take_append_drop]
              rfl

/-- The key that a frame was read with. -/
def ParsedFrame.key (parsed : ParsedFrame) (role : Role) (input : Bytes) : Option MaskKey :=
  match role with
  | .server => some (keyAt input (parsed.consumed - parsed.frame.payload.length - 4))
  | .client => none

/-- The bytes of a frame that is read are those the encoder writes for it. -/
theorem encode_of_parse {parsed : ParsedFrame} (h : parse input role limits = .ok parsed) :
    encode parsed.frame.fin parsed.frame.opcode parsed.frame.payload (parsed.key role input) =
      input.take parsed.consumed := by
  unfold parse at h
  split at h
  · rename_i first second rest
    split at h
    · cases h
    · rename_i head hhead
      obtain ⟨hfirst, hsecond, hmasked, hshort, -⟩ := of_prologue hhead
      split at h
      · cases h
      · rename_i declared headerLength hlength
        obtain ⟨hform, rfl, -, tail, rfl⟩ := of_extendedLength hshort hlength
        split at h
        · cases h
        · rename_i payloadLength hbound
          have hsame : payloadLength = declared := by
            unfold boundedPayloadLength at hbound
            split at hbound
            · cases hbound
            · exact (Except.ok.inj hbound).symm
          subst hsame
          rw [hform] at hsecond
          have hfront : first :: second :: (wideForm payloadLength ++ tail) =
              (first :: second :: wideForm payloadLength) ++ tail := rfl
          have hheader : 2 + (wideForm payloadLength).length =
              (first :: second :: wideForm payloadLength).length := by
            rw [List.length_cons, List.length_cons, Nat.add_comm]
          rw [hfront, hheader] at h
          obtain ⟨payload, more, hlen, hframe, hconsumed, htail⟩ := of_payloadAfter h
          rw [hfront, hframe, hconsumed]
          cases role with
          | client =>
              have hplain : head.masked = false := hmasked
              have hmask : head.maskLength = 0 := by rw [Prologue.maskLength, hplain, if_neg Bool.false_ne_true]
              rw [hplain, if_neg Bool.false_ne_true] at htail
              rw [hplain, if_neg Bool.false_ne_true] at hsecond
              rw [ParsedFrame.key, encode, encodeLength_eq, hlen, ← hfirst, ← hsecond, hmask, htail,
                Nat.add_zero, ← List.append_assoc, ← hlen, ← List.length_append, List.take_left]
              rfl
          | server =>
              have hmask : head.maskLength = 4 := by rw [Prologue.maskLength, hmasked, decide_eq_true rfl, if_pos rfl]
              have hat : parsed.consumed - parsed.frame.payload.length - 4 =
                  (first :: second :: wideForm payloadLength).length := by
                rw [hconsumed, hframe, hlen, hmask]
                omega
              rw [hmasked, decide_eq_true rfl, if_pos rfl] at htail hsecond
              dsimp only at htail
              rw [ParsedFrame.key, hat, hmask]
              dsimp only
              generalize keyAt ((first :: second :: wideForm payloadLength) ++ tail)
                (first :: second :: wideForm payloadLength).length = key at htail
              have htaken : (first :: second :: wideForm payloadLength).length + 4 + payloadLength =
                  ((first :: second :: wideForm payloadLength) ++
                    ([key.a, key.b, key.c, key.d] ++ unmask key payload)).length := by
                simp only [List.length_append, List.length_cons, List.length_nil, length_unmask, hlen]
                omega
              rw [encode, encodeLength_eq, hlen, ← hfirst, ← hsecond, htail, htaken, ← List.append_assoc _ _ more,
                ← List.append_assoc _ _ more, List.take_left]
              rfl
  · cases h

/-- What is written is read back whole, no front of it is taken for a frame, and what is read was written. A buffer
never holds `2 ^ 63` bytes. -/
theorem frame_codec {role : Role} {limits : Limits} :
    (∀ (fin : Bool) (opcode : Opcode) (payload : Bytes) (mask : Option MaskKey) (rest : Bytes),
      (opcode.isControl = true → fin = true ∧ payload.length ≤ maxControlPayload) →
      mask.isSome = decide (role = .server) → payload.length ≤ limits.maxFrame → payload.length < 2 ^ 63 →
        parse (encode fin opcode payload mask ++ rest) role limits =
            .ok ⟨⟨fin, opcode, payload⟩, (encode fin opcode payload mask).length⟩ ∧
          ∀ front, front <+: encode fin opcode payload mask → front ≠ encode fin opcode payload mask →
            parse front role limits = .error .incomplete) ∧
      ∀ (input : Bytes) (parsed : ParsedFrame), parse input role limits = .ok parsed →
        encode parsed.frame.fin parsed.frame.opcode parsed.frame.payload (parsed.key role input) =
          input.take parsed.consumed := by
  refine ⟨fun fin opcode payload mask rest hsend hrole hfits hlength => ?_, fun input parsed => encode_of_parse⟩
  have hread : ∀ rest, parse (encode fin opcode payload mask ++ rest) role limits =
      .ok ⟨⟨fin, opcode, payload⟩, (encode fin opcode payload mask).length⟩ := by
    intro rest
    rw [parse_encode rest hsend hrole hlength, if_pos hfits]
  refine ⟨hread rest, fun front hfront hne => ?_⟩
  obtain ⟨more, hmore⟩ := hfront
  by_contra hcomplete
  have hsame := @parse_append _ more _ _ hcomplete
  rw [hmore, ← List.append_nil (encode fin opcode payload mask), hread] at hsame
  have hle := (consumed_of_parse hsame.symm).2
  refine hne ?_
  have hnil : more = [] := by
    rw [← List.length_eq_zero_iff]
    have := congrArg List.length hmore
    rw [List.length_append] at this
    dsimp only at hle
    omega
  rw [← hmore, hnil, List.append_nil]

theorem frame_codec_ping :
    (parse (encode true .ping [1, 2] (some ⟨9, 8, 7, 6⟩) ++ [0x42]) .server ⟨64, 64, 4⟩ =
        .ok ⟨⟨true, .ping, [1, 2]⟩, (encode true .ping [1, 2] (some ⟨9, 8, 7, 6⟩)).length⟩ ∧
      parse [0x89, 0x82, 9, 8, 7] .server ⟨64, 64, 4⟩ = .error .incomplete) ∧
      encode true .ping [1, 2] (some ⟨9, 8, 7, 6⟩) = [0x89, 0x82, 9, 8, 7, 6, 8, 10] :=
  have written := frame_codec.1 true .ping [1, 2] (some ⟨9, 8, 7, 6⟩) [0x42] (fun _ => ⟨rfl, by decide⟩) rfl
    (by decide) (by decide)
  ⟨⟨written.1, written.2 [0x89, 0x82, 9, 8, 7] ⟨[6, 8, 10], rfl⟩ (by decide)⟩,
    (@frame_codec .server ⟨64, 64, 4⟩).2 [0x89, 0x82, 9, 8, 7, 6, 8, 10, 0x42] ⟨⟨true, .ping, [1, 2]⟩, 8⟩ rfl⟩

/-! ## Runs of frames -/

def payloads (run : List Frame) : Bytes := run.flatMap Frame.payload

/-- An opening frame and its continuations. -/
def Shaped : List Frame → Prop
  | [] => False
  | opening :: rest => opening.opcode = .binary ∧ ∀ frame ∈ rest, frame.opcode = .continuation

/-- A run that waits for more. -/
def Unfinished (run : List Frame) : Prop := Shaped run ∧ ∀ frame ∈ run, frame.fin = false

/-- A run up to its final frame. -/
def Whole (run : List Frame) : Prop :=
  Shaped run ∧ ∃ front last, run = front ++ [last] ∧ last.fin = true ∧ ∀ frame ∈ front, frame.fin = false

def Within (limits : Limits) (run : List Frame) : Prop :=
  run.length ≤ min limits.maxFragments u64Max ∧ (payloads run).length ≤ min limits.maxMessage u64Max

variable {run : List Frame} {frame : Frame}

@[simp] theorem payloads_append (run more : List Frame) : payloads (run ++ more) = payloads run ++ payloads more :=
  List.flatMap_append

@[simp] theorem payloads_singleton (frame : Frame) : payloads [frame] = frame.payload := by simp [payloads]

theorem Within.of_append {more : List Frame} (h : Within limits (run ++ more)) : Within limits run := by
  obtain ⟨hcount, hsize⟩ := h
  rw [payloads_append] at hsize
  rw [List.length_append] at hcount hsize
  exact ⟨by omega, by omega⟩

theorem shaped_concat (run : List Frame) (frame : Frame) : Shaped (run ++ [frame]) ↔
    (run = [] ∧ frame.opcode = .binary) ∨ (Shaped run ∧ frame.opcode = .continuation) := by
  cases run with
  | nil => simp [Shaped]
  | cons opening rest => simp [Shaped, or_imp, forall_and, and_assoc]

/-! ## One frame -/

namespace Assembler

/-- The assembler in the middle of a run, or idle. -/
def holding (limits : Limits) (run : List Frame) : Assembler := ⟨limits, payloads run, run.length, !run.isEmpty⟩

/-- The frame goes on with the run, or opens one. -/
def Extends (limits : Limits) (run : List Frame) (frame : Frame) : Prop :=
  Shaped (run ++ [frame]) ∧ Within limits (run ++ [frame])

theorem reset_eq (assembler : Assembler) : assembler.reset = .new assembler.limits := rfl

theorem holding_nil (limits : Limits) : holding limits [] = .new limits := rfl

/-- A refusal leaves nothing behind. -/
theorem accept_error {assembler : Assembler} {error : ProtocolError} (h : (assembler.accept frame).1 = .error error) :
    (assembler.accept frame).2 = .new assembler.limits := by
  have hlimits : (assembler.offer frame).2.limits = assembler.limits := by
    unfold offer
    dsimp only
    split_ifs <;> rfl
  unfold accept at h ⊢
  split at h
  · rename_i heq
    rw [heq] at hlimits
    exact (reset_eq _).trans (congrArg new hlimits)
  · cases h

/-- The opcodes that the assembler lets pass are those that shape a run. -/
theorem shaped_iff (hrun : run = [] ∨ Unfinished run) : Shaped (run ++ [frame]) ↔
    frame.opcode.isControl = false ∧ ¬ (frame.opcode = .continuation ∧ (!run.isEmpty) = false) ∧
      ¬ (frame.opcode = .binary ∧ (!run.isEmpty) = true) := by
  rw [shaped_concat]
  rcases hrun with rfl | ⟨hshaped, -⟩
  · cases hop : frame.opcode <;> simp [Shaped, Opcode.isControl]
  · cases run with
    | nil => exact hshaped.elim
    | cons opening rest => cases hop : frame.opcode <;> simp [hshaped, Opcode.isControl]

theorem accept_extends (hrun : run = [] ∨ Unfinished run) (h : Extends limits run frame) :
    (holding limits run).accept frame =
      if frame.fin then (.ok (some (payloads (run ++ [frame]))), .new limits)
      else (.ok none, holding limits (run ++ [frame])) := by
  obtain ⟨hshaped, hcount, hsize⟩ := h
  obtain ⟨hdata, hopen, hnew⟩ := (shaped_iff hrun).mp hshaped
  rw [payloads_append, payloads_singleton, List.length_append] at hsize
  rw [List.length_append, List.length_singleton] at hcount
  have hoffer : (holding limits run).offer frame =
      if frame.fin then (.ok (some (payloads (run ++ [frame]))), .new limits)
      else (.ok none, holding limits (run ++ [frame])) := by
    unfold offer holding
    dsimp only
    rw [if_neg (by rw [hdata]; exact Bool.false_ne_true), if_neg hopen, if_neg hnew, if_neg (by omega),
      if_neg (by omega), if_neg (by omega), if_neg (by omega), payloads_append, payloads_singleton]
    have hbusy : (!(run ++ [frame]).isEmpty) = true := by simp
    simp [reset, Assembler.new, hbusy]
  unfold accept
  rw [hoffer]
  cases frame.fin <;> rfl

theorem accept_refused (hrun : run = [] ∨ Unfinished run) (h : ¬ Extends limits run frame) :
    ∃ error, (holding limits run).accept frame = (.error error, .new limits) := by
  have hoffer : ∃ error, ((holding limits run).offer frame).1 = .error error := by
    unfold offer holding
    dsimp only
    by_cases hshaped : Shaped (run ++ [frame])
    · obtain ⟨hdata, hopen, hnew⟩ := (shaped_iff hrun).mp hshaped
      have hover : ¬ Within limits (run ++ [frame]) := fun hwithin => h ⟨hshaped, hwithin⟩
      rw [Within, payloads_append, payloads_singleton, List.length_append, List.length_append, List.length_singleton,
        not_and_or] at hover
      rw [if_neg (by rw [hdata]; exact Bool.false_ne_true), if_neg hopen, if_neg hnew]
      split_ifs with h1 h2 h3 h4
      iterate 4 exact ⟨_, rfl⟩
      all_goals omega
    · rw [shaped_iff hrun] at hshaped
      by_cases hdata : frame.opcode.isControl = true
      · rw [if_pos hdata]
        exact ⟨_, rfl⟩
      · rw [if_neg hdata]
        by_cases hopen : frame.opcode = .continuation ∧ (!run.isEmpty) = false
        · rw [if_pos hopen]
          exact ⟨_, rfl⟩
        · rw [if_neg hopen, if_pos (by_contra fun hnew => hshaped ⟨Bool.eq_false_of_not_eq_true hdata, hopen, hnew⟩)]
          exact ⟨_, rfl⟩
  obtain ⟨error, herror⟩ := hoffer
  have hanswer : ((holding limits run).accept frame).1 = .error error := by
    unfold accept
    rcases hcase : (holding limits run).offer frame with ⟨answer, after⟩
    rw [hcase] at herror
    subst herror
    rfl
  exact ⟨error, Prod.ext hanswer (accept_error hanswer)⟩

/-! ## A run of frames -/

def after (limits : Limits) (frames : List Frame) : Assembler :=
  frames.foldl (fun assembler frame => (assembler.accept frame).2) (.new limits)

@[simp] theorem after_concat (limits : Limits) (frames : List Frame) (frame : Frame) :
    after limits (frames ++ [frame]) = ((after limits frames).accept frame).2 := by
  simp [after]

theorem unfinished_concat (hrun : run = [] ∨ Unfinished run) (hshaped : Shaped (run ++ [frame]))
    (hfin : frame.fin = false) : Unfinished (run ++ [frame]) := by
  refine ⟨hshaped, fun other hother => ?_⟩
  rw [List.mem_append, List.mem_singleton] at hother
  rcases hother with hother | rfl
  · rcases hrun with rfl | hrun
    · exact absurd hother List.not_mem_nil
    · exact hrun.2 other hother
  · exact hfin

/-- What is held is the run that is open since the assembler was idle. -/
theorem holding_of_after (limits : Limits) (frames : List Frame) : ∃ before run, frames = before ++ run ∧
    (run = [] ∨ Unfinished run) ∧ Within limits run ∧ after limits before = .new limits ∧
      after limits frames = holding limits run := by
  induction frames using List.reverseRecOn with
  | nil => exact ⟨[], [], rfl, .inl rfl, ⟨Nat.zero_le _, Nat.zero_le _⟩, rfl, rfl⟩
  | append_singleton frames frame ih =>
      obtain ⟨before, run, rfl, hrun, -, hidle, hheld⟩ := ih
      have hfresh : after limits (before ++ run ++ [frame]) = .new limits → ∃ before' run',
          before ++ run ++ [frame] = before' ++ run' ∧ (run' = [] ∨ Unfinished run') ∧ Within limits run' ∧
            after limits before' = .new limits ∧ after limits (before ++ run ++ [frame]) = holding limits run' :=
        fun h => ⟨_, [], (List.append_nil _).symm, .inl rfl, ⟨Nat.zero_le _, Nat.zero_le _⟩, h, h⟩
      by_cases hextends : Extends limits run frame
      · have hstep := accept_extends hrun hextends
        cases hfin : frame.fin with
        | true =>
            refine hfresh ?_
            rw [after_concat, hheld, hstep, hfin, if_pos rfl]
        | false =>
            refine ⟨before, run ++ [frame], List.append_assoc _ _ _,
              .inr (unfinished_concat hrun hextends.1 hfin), hextends.2, hidle, ?_⟩
            rw [after_concat, hheld, hstep, hfin, if_neg Bool.false_ne_true]
      · obtain ⟨error, hstep⟩ := accept_refused hrun hextends
        refine hfresh ?_
        rw [after_concat, hheld, hstep]

theorem idle_iff {frames : List Frame} :
    (after limits frames).inProgress = false ↔ after limits frames = .new limits := by
  refine ⟨fun h => ?_, fun h => by rw [h]; rfl⟩
  obtain ⟨before, run, -, -, -, -, hheld⟩ := holding_of_after limits frames
  rw [hheld] at h ⊢
  have hrun : run = [] := by simpa [holding] using h
  rw [hrun, holding_nil]

theorem unfinished_of_concat (h : Unfinished (run ++ [frame])) : run = [] ∨ Unfinished run := by
  rcases (shaped_concat run frame).mp h.1 with ⟨rfl, -⟩ | ⟨hshaped, -⟩
  · exact .inl rfl
  · exact .inr ⟨hshaped, fun other hother => h.2 other (List.mem_append_left _ hother)⟩

/-- A run that begins while the assembler is idle is held. -/
theorem after_append {before : List Frame} (hidle : after limits before = .new limits)
    (hrun : run = [] ∨ Unfinished run) (hwithin : Within limits run) :
    after limits (before ++ run) = holding limits run := by
  induction run using List.reverseRecOn with
  | nil => rw [List.append_nil, hidle, holding_nil]
  | append_singleton run frame ih =>
      have hopen : Unfinished (run ++ [frame]) := hrun.resolve_left (by simp)
      have hfront := unfinished_of_concat hopen
      have hfin : frame.fin = false := hopen.2 frame (by simp)
      rw [← List.append_assoc, after_concat, ih hfront hwithin.of_append, accept_extends hfront ⟨hopen.1, hwithin⟩, hfin,
        if_neg Bool.false_ne_true]

theorem whole_concat (hrun : run = [] ∨ Unfinished run) (hshaped : Shaped (run ++ [frame])) (hfin : frame.fin = true) :
    Whole (run ++ [frame]) := by
  refine ⟨hshaped, run, frame, rfl, hfin, fun other hother => ?_⟩
  rcases hrun with rfl | hrun
  · exact absurd hother List.not_mem_nil
  · exact hrun.2 other hother

theorem unfinished_of_whole (h : Whole (run ++ [frame])) : (run = [] ∨ Unfinished run) ∧ frame.fin = true := by
  obtain ⟨hshaped, front, last, heq, hfin, hopen⟩ := h
  obtain ⟨rfl, hlast⟩ := List.append_inj' heq rfl
  cases hlast
  refine ⟨?_, hfin⟩
  rcases (shaped_concat run frame).mp hshaped with ⟨rfl, -⟩ | ⟨hfront, -⟩
  · exact .inl rfl
  · exact .inr ⟨hfront, hopen⟩

/-- A frame is answered with a message exactly when it ends a whole run that began while no message was in progress. -/
theorem message_iff {frames : List Frame} {frame : Frame} {message : Bytes} :
    ((after limits frames).accept frame).1 = .ok (some message) ↔
      ∃ before run, frames ++ [frame] = before ++ run ∧ Whole run ∧ Within limits run ∧
        (after limits before).inProgress = false ∧ message = payloads run := by
  constructor
  · intro h
    obtain ⟨before, run, rfl, hrun, -, hidle, hheld⟩ := holding_of_after limits frames
    rw [hheld] at h
    by_cases hextends : Extends limits run frame
    · rw [accept_extends hrun hextends] at h
      cases hfin : frame.fin with
      | false =>
          rw [hfin, if_neg Bool.false_ne_true] at h
          cases h
      | true =>
          rw [hfin, if_pos rfl] at h
          cases h
          exact ⟨before, run ++ [frame], List.append_assoc _ _ _, whole_concat hrun hextends.1 hfin, hextends.2,
            idle_iff.mpr hidle, rfl⟩
    · obtain ⟨error, hstep⟩ := accept_refused hrun hextends
      rw [hstep] at h
      cases h
  · rintro ⟨before, run, heq, hwhole, hwithin, hidle, rfl⟩
    obtain ⟨front, last, rfl⟩ : ∃ front last, run = front ++ [last] := by
      obtain ⟨-, front, last, rfl, -⟩ := hwhole
      exact ⟨front, last, rfl⟩
    rw [← List.append_assoc] at heq
    obtain ⟨rfl, hlast⟩ := List.append_inj' heq rfl
    cases hlast
    obtain ⟨hfront, hfin⟩ := unfinished_of_whole hwhole
    rw [after_append (idle_iff.mp hidle) hfront hwithin.of_append, accept_extends hfront ⟨hwhole.1, hwithin⟩, hfin,
      if_pos rfl]

/-! ## Runs that nothing breaks into -/

/-- The front of continuations up to the final one. -/
def continued : List Frame → Option (List Frame)
  | [] => none
  | frame :: rest =>
      if frame.opcode ≠ .continuation then none
      else if frame.fin then some [frame]
      else (continued rest).map (frame :: ·)

/-- The front that is one opening frame and its continuations up to the final one. -/
def wholeRun : List Frame → Option (List Frame)
  | [] => none
  | opening :: rest =>
      if opening.opcode ≠ .binary then none
      else if opening.fin then some [opening]
      else (continued rest).map (opening :: ·)

/-- The runs that stand in a sequence of frames, wherever they begin. -/
def maximalRuns (frames : List Frame) : List (List Frame) := frames.tails.filterMap wholeRun

theorem maximalRuns_cons (frame : Frame) (rest : List Frame) :
    maximalRuns (frame :: rest) = (wholeRun (frame :: rest)).toList ++ maximalRuns rest := by
  rw [maximalRuns, List.tails_cons, List.filterMap_cons]
  cases wholeRun (frame :: rest) <;> rfl

theorem maximalRuns_continuations {front : List Frame} (h : ∀ frame ∈ front, frame.opcode = .continuation)
    (rest : List Frame) : maximalRuns (front ++ rest) = maximalRuns rest := by
  induction front with
  | nil => rfl
  | cons frame front ih =>
      rw [List.forall_mem_cons] at h
      rw [List.cons_append, maximalRuns_cons, ih h.2, wholeRun, if_pos (by rw [h.1]; decide)]
      rfl

theorem continued_append {front : List Frame} (h : ∀ frame ∈ front, frame.opcode = .continuation)
    (hopen : ∀ frame ∈ front, frame.fin = false) (rest : List Frame) :
    continued (front ++ rest) = (continued rest).map (front ++ ·) := by
  induction front with
  | nil => simp
  | cons frame front ih =>
      rw [List.forall_mem_cons] at h hopen
      rw [List.cons_append, continued, if_neg (not_not.mpr h.1), hopen.1, if_neg Bool.false_ne_true, ih h.2 hopen.2,
        Option.map_map]
      rfl

theorem maximalRuns_whole (h : Whole run) (rest : List Frame) :
    maximalRuns (run ++ rest) = run :: maximalRuns rest := by
  obtain ⟨hshaped, front, last, rfl, hfin, hopen⟩ := h
  cases front with
  | nil =>
      have hop : last.opcode = .binary := hshaped.1
      rw [List.nil_append, List.singleton_append, maximalRuns_cons, wholeRun, if_neg (not_not.mpr hop), hfin, if_pos rfl]
      rfl
  | cons opening front =>
      obtain ⟨hop, hrest⟩ := hshaped
      rw [List.forall_mem_cons] at hopen
      change ∀ frame ∈ front ++ [last], frame.opcode = .continuation at hrest
      have hfront : ∀ frame ∈ front, frame.opcode = .continuation := fun frame hframe =>
        hrest frame (List.mem_append_left _ hframe)
      have hlast : continued (last :: rest) = some [last] := by
        rw [continued, if_neg (not_not.mpr (hrest last (by simp))), hfin, if_pos rfl]
      have hrun : wholeRun (opening :: (front ++ [last] ++ rest)) = some (opening :: (front ++ [last])) := by
        rw [wholeRun, if_neg (not_not.mpr hop), hopen.1, if_neg Bool.false_ne_true, List.append_assoc,
          continued_append hfront hopen.2, List.singleton_append, hlast]
        rfl
      rw [List.cons_append, List.cons_append, maximalRuns_cons, hrun, maximalRuns_continuations hrest]
      rfl

theorem maximalRuns_unfinished (h : run = [] ∨ Unfinished run) : maximalRuns run = [] := by
  rcases h with rfl | ⟨hshaped, hopen⟩
  · rfl
  · cases run with
    | nil => rfl
    | cons opening rest =>
        obtain ⟨hop, hrest⟩ := hshaped
        rw [List.forall_mem_cons] at hopen
        have hnone := continued_append hrest hopen.2 []
        rw [List.append_nil] at hnone
        have htail := maximalRuns_continuations hrest []
        rw [List.append_nil] at htail
        rw [maximalRuns_cons, wholeRun, if_neg (not_not.mpr hop), hopen.1, if_neg Bool.false_ne_true, hnone, htail]
        rfl

/-- What the assembler says to each frame. -/
def answers (assembler : Assembler) : List Frame → List (Except ProtocolError (Option Bytes))
  | [] => []
  | frame :: rest => (assembler.accept frame).1 :: answers (assembler.accept frame).2 rest

def messages (answers : List (Except ProtocolError (Option Bytes))) : List Bytes :=
  answers.filterMap fun answer => answer.toOption.join

theorem messages_holding {frames : List Frame} (hrun : run = [] ∨ Unfinished run)
    (h : ∀ error, .error error ∉ answers (holding limits run) frames) :
    messages (answers (holding limits run) frames) = (maximalRuns (run ++ frames)).map payloads := by
  induction frames generalizing run with
  | nil =>
      rw [List.append_nil, maximalRuns_unfinished hrun]
      rfl
  | cons frame rest ih =>
      by_cases hextends : Extends limits run frame
      · have hstep := accept_extends hrun hextends
        rw [answers, hstep] at h ⊢
        cases hfin : frame.fin with
        | true =>
            rw [hfin, if_pos rfl] at h
            rw [if_pos rfl, List.append_cons run frame rest, maximalRuns_whole (whole_concat hrun hextends.1 hfin)]
            have hrest := ih (.inl rfl) fun error hmem => h error (List.mem_cons_of_mem _ hmem)
            exact congrArg (payloads (run ++ [frame]) :: ·) hrest
        | false =>
            rw [hfin, if_neg Bool.false_ne_true] at h
            rw [if_neg Bool.false_ne_true, List.append_cons run frame rest]
            exact ih (.inr (unfinished_concat hrun hextends.1 hfin)) fun error hmem => h error (List.mem_cons_of_mem _ hmem)
      · obtain ⟨error, hstep⟩ := accept_refused hrun hextends
        refine absurd ?_ (h error)
        rw [answers, hstep]
        exact List.mem_cons_self

end Assembler

/-! ## Reassembly -/

/-- The messages are the whole runs that began while none was in progress; while nothing is refused, they are all the
runs there are. The limits hold throughout, and a refusal leaves the assembler as it was made. -/
theorem reassembly (limits : Limits) (frames : List Frame) :
    (∀ (frame : Frame) (message : Bytes), ((Assembler.after limits frames).accept frame).1 = .ok (some message) ↔
      ∃ before run, frames ++ [frame] = before ++ run ∧ Whole run ∧ Within limits run ∧
        (Assembler.after limits before).inProgress = false ∧ message = payloads run) ∧
      ((∀ error, .error error ∉ Assembler.answers (.new limits) frames) →
        Assembler.messages (Assembler.answers (.new limits) frames) = (Assembler.maximalRuns frames).map payloads) ∧
      (Assembler.after limits frames).buffer.length ≤ limits.maxMessage ∧
      (Assembler.after limits frames).fragments ≤ limits.maxFragments ∧
      ∀ (frame : Frame) (error : ProtocolError), ((Assembler.after limits frames).accept frame).1 = .error error →
        ((Assembler.after limits frames).accept frame).2 = .new limits := by
  obtain ⟨before, run, hsplit, -, ⟨hcount, hsize⟩, -, hheld⟩ := Assembler.holding_of_after limits frames
  refine ⟨fun frame message => Assembler.message_iff, Assembler.messages_holding (.inl rfl), ?_, ?_,
    fun frame error h => ?_⟩
  · rw [hheld]
    exact Nat.le_trans hsize (Nat.min_le_left _ _)
  · rw [hheld]
    exact Nat.le_trans hcount (Nat.min_le_left _ _)
  · rw [Assembler.accept_error h, hheld]
    rfl

theorem reassembly_two :
    Assembler.messages (Assembler.answers (.new ⟨64, 64, 4⟩)
      [⟨false, .binary, [1]⟩, ⟨true, .continuation, [2]⟩, ⟨true, .binary, [3]⟩]) = [[1, 2], [3]] := by
  refine (reassembly ⟨64, 64, 4⟩ [⟨false, .binary, [1]⟩, ⟨true, .continuation, [2]⟩, ⟨true, .binary, [3]⟩]).2.1 ?_
  have hanswers : Assembler.answers (.new ⟨64, 64, 4⟩)
      [⟨false, .binary, [1]⟩, ⟨true, .continuation, [2]⟩, ⟨true, .binary, [3]⟩] =
        [.ok none, .ok (some [1, 2]), .ok (some [3])] := rfl
  rw [hanswers]
  intro error h
  simp at h

/-- A message that is opened while another is in progress is lost, though its run is whole. -/
theorem reassembly_loses : ¬ ∀ (limits : Limits) (frames : List Frame),
    (∀ frame ∈ frames, frame.opcode.isControl = false) →
      (∀ run ∈ Assembler.maximalRuns frames, Within limits run) →
        Assembler.messages (Assembler.answers (.new limits) frames) = (Assembler.maximalRuns frames).map payloads := by
  intro h
  have hlost := h ⟨64, 64, 4⟩ [⟨false, .binary, [1]⟩, ⟨true, .binary, [2]⟩] (by decide) ?_
  · exact absurd hlost (by decide)
  · have hruns : Assembler.maximalRuns [⟨false, .binary, [1]⟩, ⟨true, .binary, [2]⟩] = [[⟨true, .binary, [2]⟩]] := rfl
    rw [hruns, List.forall_mem_singleton]
    exact ⟨by decide, by decide⟩

end Selfhost.Ws
