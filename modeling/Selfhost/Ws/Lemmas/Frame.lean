import Selfhost.Ws.Frame

/-!
# Frames and the bytes around them

A verdict of the parser stands whatever follows, and a frame that is written is read back.
-/

namespace Selfhost.Ws

open Selfhost.Lib

variable {input more : Bytes} {role : Role} {limits : Limits} {head : Prologue} {key : MaskKey}

/-! ## More bytes -/

theorem drop_append_of_ne_nil {n : Nat} (h : input.drop n ≠ []) : (input ++ more).drop n = input.drop n ++ more := by
  refine List.drop_append_of_le_length (Nat.le_of_lt ?_)
  exact Nat.lt_of_not_le fun hle => h (List.drop_eq_nil_of_le hle)

theorem extendedLength_append {short : Nat} (h : extendedLength input short ≠ .error .incomplete) :
    extendedLength (input ++ more) short = extendedLength input short := by
  unfold extendedLength at h ⊢
  split
  · rename_i hshort
    rw [if_pos hshort] at h
    split at h
    · rename_i b0 b1 rest hdrop
      rw [drop_append_of_ne_nil (by rw [hdrop]; exact List.cons_ne_nil _ _), hdrop]
      rfl
    · exact absurd rfl h
  · rename_i hshort
    rw [if_neg hshort] at h
    split
    · rename_i hwide
      rw [if_pos hwide] at h
      split at h
      · rename_i b0 b1 b2 b3 b4 b5 b6 b7 rest hdrop
        rw [drop_append_of_ne_nil (by rw [hdrop]; exact List.cons_ne_nil _ _), hdrop]
        rfl
      · exact absurd rfl h
    · rfl

theorem keyAt_append {i : Nat} (h : i + 4 ≤ input.length) : keyAt (input ++ more) i = keyAt input i := by
  have hbyte : ∀ j, j < input.length → (input ++ more).getD j 0 = input.getD j 0 := by
    intro j hj
    simp only [List.getD_eq_getElem?_getD, List.getElem?_append_left hj]
  unfold keyAt
  rw [hbyte i (by omega), hbyte (i + 1) (by omega), hbyte (i + 2) (by omega), hbyte (i + 3) (by omega)]

theorem payloadAfter_append {declared headerLength payloadLength : Nat}
    (h : payloadAfter input head declared headerLength payloadLength ≠ .error .incomplete) :
    payloadAfter (input ++ more) head declared headerLength payloadLength =
      payloadAfter input head declared headerLength payloadLength := by
  unfold payloadAfter at h ⊢
  dsimp only at h ⊢
  by_cases hwide : headerLength + head.maskLength + payloadLength > u64Max
  · rw [if_pos hwide, if_pos hwide]
  · rw [if_neg hwide] at h ⊢
    rw [if_neg hwide]
    by_cases hlength : input.length < headerLength + head.maskLength + payloadLength
    · rw [if_pos hlength] at h
      exact absurd rfl h
    · have hpayload : ((input ++ more).drop (headerLength + head.maskLength)).take payloadLength =
          (input.drop (headerLength + head.maskLength)).take payloadLength := by
        rw [List.drop_append_of_le_length (by omega), List.take_append_of_le_length (by rw [List.length_drop]; omega)]
      rw [if_neg (by rw [List.length_append]; omega), if_neg hlength, hpayload]
      cases hmasked : head.masked with
      | false => rfl
      | true =>
          have hmask : head.maskLength = 4 := by rw [Prologue.maskLength, hmasked, if_pos rfl]
          rw [keyAt_append (by omega)]

theorem parse_append (h : parse input role limits ≠ .error .incomplete) :
    parse (input ++ more) role limits = parse input role limits := by
  match input, h with
  | [], h => exact absurd rfl h
  | [_], h => exact absurd rfl h
  | first :: second :: rest, h =>
      simp only [parse, List.cons_append] at h ⊢
      cases hhead : prologue first second role with
      | error error => rfl
      | ok head =>
          rw [hhead] at h
          dsimp only at h ⊢
          rw [← List.cons_append, ← List.cons_append]
          cases hlength : extendedLength (first :: second :: rest) head.shortLength with
          | error error =>
              have hne : error ≠ .incomplete := by
                rintro rfl
                rw [hlength] at h
                exact h rfl
              rw [extendedLength_append (by rw [hlength]; exact fun heq => hne (Except.error.inj heq)), hlength]
          | ok lengths =>
              rw [hlength] at h
              rw [extendedLength_append (by rw [hlength]; exact fun heq => (nomatch heq)), hlength]
              dsimp only at h ⊢
              cases hbound : boundedPayloadLength lengths.1 limits with
              | error error => rfl
              | ok payloadLength =>
                  rw [hbound] at h
                  exact payloadAfter_append h

theorem le_headerLength {short declared headerLength : Nat}
    (h : extendedLength input short = .ok (declared, headerLength)) : 2 ≤ headerLength := by
  unfold extendedLength at h
  split at h
  · split at h
    · dsimp only at h
      split at h
      · cases h
      · cases h
        decide
    · cases h
  · split at h
    · split at h
      · dsimp only at h
        split at h
        · cases h
        · split at h
          · cases h
          · cases h
            decide
      · cases h
    · cases h
      decide

/-- A frame takes at least its header from the input, and no more than there is. -/
theorem consumed_of_parse {parsed : ParsedFrame} (h : parse input role limits = .ok parsed) :
    2 ≤ parsed.consumed ∧ parsed.consumed ≤ input.length := by
  unfold parse at h
  split at h
  · split at h
    · cases h
    · split at h
      · cases h
      · rename_i declared headerLength hlength
        split at h
        · cases h
        · unfold payloadAfter at h
          dsimp only at h
          split at h
          · cases h
          · split at h
            · cases h
            · rename_i hle
              cases h
              have := le_headerLength hlength
              exact ⟨by dsimp only; omega, Nat.not_lt.mp hle⟩
  · cases h

theorem verdict_of_parse {parsed : ParsedFrame} (h : parse input role limits = .ok parsed) :
    verdict role limits input = .item parsed.frame parsed.consumed := by
  rw [verdict, h]

theorem verdict_incomplete : verdict role limits input = .incomplete ↔ parse input role limits = .error .incomplete := by
  unfold verdict
  constructor
  · intro h
    split at h
    · cases h
    · assumption
    · cases h
  · intro h
    rw [h]

/-- The parser of frames is one for streams. -/
theorem incremental_verdict (role : Role) (limits : Limits) : Incremental (verdict role limits) := by
  refine ⟨rfl, ?_, ?_⟩
  · intro x y h
    have hparse : parse x role limits ≠ .error .incomplete := fun heq => h (verdict_incomplete.mpr heq)
    rw [verdict, verdict, parse_append hparse]
  · intro x frame n h
    unfold verdict at h
    split at h
    · rename_i parsed hparse
      cases h
      have hconsumed := consumed_of_parse hparse
      exact ⟨by omega, hconsumed.2⟩
    · cases h
    · cases h

/-! ## Frames that are written -/

/-- What stands in the seven bits of the length. -/
def shortForm (length : Nat) : Nat := if length ≤ sevenBitMax then length else if length ≤ sixteenBitMax then 126 else 127

/-- The length behind the first two bytes. -/
def wideForm (length : Nat) : Bytes :=
  if length ≤ sevenBitMax then []
  else if length ≤ sixteenBitMax then be16 (UInt16.ofNat length)
  else be64 (UInt64.ofNat length)

theorem encodeLength_eq (maskBit : UInt8) (length : Nat) :
    encodeLength maskBit length = (maskBit ||| UInt8.ofNat (shortForm length)) :: wideForm length := by
  unfold encodeLength shortForm wideForm
  split
  · rfl
  · split <;> rfl

theorem shortForm_le (length : Nat) : shortForm length ≤ 127 := by
  unfold shortForm
  split
  · rename_i h
    exact Nat.le_trans h (by decide)
  · split <;> decide

theorem second_bits (masked : Bool) : ∀ n : Fin 128,
    (((if masked then 0x80 else 0) ||| UInt8.ofNat n.val : UInt8) &&& 0x7f).toNat = n.val ∧
      decide (((if masked then 0x80 else 0) ||| UInt8.ofNat n.val : UInt8) &&& 0x80 ≠ 0) = masked := by
  cases masked <;> decide +kernel

/-- A frame that may be sent: a control frame is whole and short. -/
def Sendable (fin : Bool) (opcode : Opcode) (length : Nat) : Prop :=
  opcode.isControl = true → fin = true ∧ length ≤ maxControlPayload

theorem prologue_encode {fin masked : Bool} {opcode : Opcode} {length : Nat} (hsend : Sendable fin opcode length)
    (hrole : masked = decide (role = .server)) :
    prologue ((if fin then 0x80 else 0) ||| opcode.bits)
      ((if masked then 0x80 else 0) ||| UInt8.ofNat (shortForm length)) role =
        .ok ⟨fin, opcode, masked, shortForm length⟩ := by
  obtain ⟨hshort, hmask⟩ := second_bits masked ⟨shortForm length, Nat.lt_succ_of_le (shortForm_le length)⟩
  have hfirst : ((if fin then 0x80 else 0) ||| opcode.bits) &&& 0x70 = 0 ∧
      decide (((if fin then 0x80 else 0) ||| opcode.bits) &&& 0x80 ≠ 0) = fin ∧
      Opcode.classify (((if fin then 0x80 else 0) ||| opcode.bits) &&& 0x0f) = .ok opcode := by
    cases fin <;> cases opcode <;> exact ⟨by decide, by decide, rfl⟩
  obtain ⟨hreserved, hfin, hclass⟩ := hfirst
  have hcontrol : (opcode.isControl && !fin) = false ∧
      (opcode.isControl && decide (shortForm length > maxControlPayload)) = false := by
    cases hc : opcode.isControl with
    | false => exact ⟨rfl, rfl⟩
    | true =>
        obtain ⟨hwhole, hle⟩ := hsend hc
        have hform : shortForm length = length := if_pos hle
        rw [hwhole, hform]
        exact ⟨rfl, by simpa using hle⟩
  unfold prologue
  simp only [hreserved, ne_eq, not_true_eq_false, if_false, hclass, hfin, hmask, hshort]
  cases role <;> subst hrole <;> simp only [hcontrol, reduceCtorEq, decide_true, decide_false, if_false, Bool.false_eq_true]

theorem high_bit_clear {n : UInt64} (h : n.toNat < 2 ^ 63) : n &&& 0x8000000000000000 = 0 := by
  have hbit : (0x8000000000000000 : UInt64).toNat = 2 ^ 63 := rfl
  rw [← UInt64.toNat_inj, UInt64.toNat_and, hbit]
  refine Nat.eq_of_testBit_eq fun i => ?_
  rw [Nat.testBit_and, Nat.testBit_two_pow]
  by_cases hi : 63 = i
  · subst hi
    rw [Nat.testBit_lt_two_pow h]
    rfl
  · simp [hi]

theorem extendedLength_sixteen {n : UInt16} (h : sevenBitMax < n.toNat) (first second : UInt8) (tail : Bytes) :
    extendedLength (first :: second :: (be16 n ++ tail)) 126 = .ok (n.toNat, 4) := by
  simp only [extendedLength, if_true, be16, List.drop_succ_cons, List.drop_zero, List.cons_append, ofBe16_be16]
  rw [if_neg (Nat.not_le.mpr h)]

theorem extendedLength_wide {n : UInt64} (h : sixteenBitMax < n.toNat) (hclear : n.toNat < 2 ^ 63)
    (first second : UInt8) (tail : Bytes) :
    extendedLength (first :: second :: (be64 n ++ tail)) 127 = .ok (n.toNat, 10) := by
  have hread : ∀ high low : UInt32, ofBe64 high low = n →
      extendedLength (first :: second :: (be32 high ++ be32 low ++ tail)) 127 = .ok (n.toNat, 10) := by
    rintro high low rfl
    simp only [extendedLength, Nat.reduceEqDiff, if_true, if_false, be32, List.drop_succ_cons, List.drop_zero,
      List.cons_append, List.nil_append, ofBe32_be32, high_bit_clear hclear, ne_eq, not_true_eq_false]
    rw [if_neg (Nat.not_le.mpr h)]
  exact hread _ _ (ofBe64_split n)

theorem extendedLength_encode {n : Nat} (hn : n < 2 ^ 63) (first second : UInt8) (tail : Bytes) :
    extendedLength (first :: second :: (wideForm n ++ tail)) (shortForm n) = .ok (n, 2 + (wideForm n).length) := by
  unfold shortForm wideForm
  by_cases hseven : n ≤ sevenBitMax
  · have hle : n ≤ 125 := hseven
    rw [if_pos hseven, if_pos hseven, extendedLength, if_neg (by omega), if_neg (by omega)]
    rfl
  · rw [if_neg hseven, if_neg hseven]
    by_cases hsixteen : n ≤ sixteenBitMax
    · have hle : n ≤ 65535 := hsixteen
      have hnat : (UInt16.ofNat n).toNat = n := by
        rw [UInt16.toNat_ofNat']
        omega
      rw [if_pos hsixteen, if_pos hsixteen, extendedLength_sixteen (by rw [hnat]; omega), hnat]
      rfl
    · have hnat : (UInt64.ofNat n).toNat = n := by
        rw [UInt64.toNat_ofNat']
        omega
      rw [if_neg hsixteen, if_neg hsixteen, extendedLength_wide (by rw [hnat]; omega) (by rw [hnat]; exact hn), hnat]
      rfl

@[simp] theorem length_unmask (key : MaskKey) (payload : Bytes) : (unmask key payload).length = payload.length := by
  simp [unmask]

@[simp] theorem unmask_unmask (key : MaskKey) (payload : Bytes) : unmask key (unmask key payload) = payload := by
  refine List.ext_getElem (by simp) fun i hi _ => ?_
  simp only [unmask, List.getElem_mapIdx]
  rw [UInt8.xor_assoc, UInt8.xor_self, UInt8.xor_zero]

theorem payloadAfter_plain {declared headerLength : Nat} (hmasked : head.masked = false) {front payload rest : Bytes}
    (hfront : front.length = headerLength) (hfits : headerLength + payload.length ≤ u64Max) :
    payloadAfter (front ++ (payload ++ rest)) head declared headerLength payload.length =
      .ok ⟨⟨head.fin, head.opcode, payload⟩, headerLength + payload.length⟩ := by
  have hmask : head.maskLength = 0 := by rw [Prologue.maskLength, hmasked, if_neg Bool.false_ne_true]
  subst hfront
  unfold payloadAfter
  simp only [hmask, hmasked, Nat.add_zero, List.drop_left, List.take_left, Bool.false_eq_true, if_false]
  rw [if_neg (by omega), if_neg (by simp)]

theorem payloadAfter_masked {declared headerLength : Nat} (hmasked : head.masked = true) {front payload rest : Bytes}
    (hfront : front.length = headerLength) (hfits : headerLength + 4 + payload.length ≤ u64Max) :
    payloadAfter (front ++ ([key.a, key.b, key.c, key.d] ++ (unmask key payload ++ rest))) head declared headerLength
        payload.length =
      .ok ⟨⟨head.fin, head.opcode, payload⟩, headerLength + 4 + payload.length⟩ := by
  have hmask : head.maskLength = 4 := by rw [Prologue.maskLength, hmasked, if_pos rfl]
  have hkey : keyAt (front ++ ([key.a, key.b, key.c, key.d] ++ (unmask key payload ++ rest))) headerLength = key := by
    subst hfront
    simp [keyAt, List.getD_eq_getElem?_getD]
  have hdrop : (front ++ ([key.a, key.b, key.c, key.d] ++ (unmask key payload ++ rest))).drop (headerLength + 4) =
      unmask key payload ++ rest := by
    rw [← List.append_assoc]
    exact List.drop_left' (by simp [hfront])
  unfold payloadAfter
  simp only [hmask, hmasked, if_true, hkey, hdrop]
  rw [if_neg (by omega), if_neg (by simp [hfront]; omega), List.take_left' (length_unmask key payload), unmask_unmask]

/-- A frame that is written is read back by the other side, whatever follows it; one that is too large is refused. -/
theorem parse_encode {fin : Bool} {opcode : Opcode} {payload : Bytes} {mask : Option MaskKey} (rest : Bytes)
    (hsend : Sendable fin opcode payload.length) (hrole : mask.isSome = decide (role = .server))
    (hlength : payload.length < 2 ^ 63) :
    parse (encode fin opcode payload mask ++ rest) role limits =
      if payload.length ≤ limits.maxFrame then
        .ok ⟨⟨fin, opcode, payload⟩, (encode fin opcode payload mask).length⟩
      else .error (.frameTooLarge payload.length) := by
  have hwide : (wideForm payload.length).length ≤ 8 := by
    unfold wideForm
    split
    · exact Nat.zero_le _
    · split <;> simp [be64]
  have hmax : 2 ^ 63 + 14 ≤ u64Max := by decide
  cases mask with
  | none =>
      have hhead := prologue_encode hsend hrole
      simp only [Option.isSome_none, Bool.false_eq_true, if_false] at hhead
      simp only [encode, encodeLength_eq, List.cons_append, List.append_assoc, parse, hhead,
        extendedLength_encode hlength, boundedPayloadLength]
      by_cases hfits : payload.length ≤ limits.maxFrame
      · rw [if_pos hfits, if_neg (Nat.not_lt.mpr hfits)]
        dsimp only
        rw [← List.cons_append, ← List.cons_append, payloadAfter_plain rfl (by simp; omega) (by omega)]
        simp only [List.length_cons, List.length_append, Except.ok.injEq, ParsedFrame.mk.injEq, true_and]
        omega
      · rw [if_neg hfits, if_pos (Nat.lt_of_not_le hfits)]
  | some key =>
      have hhead := prologue_encode hsend hrole
      simp only [Option.isSome_some, if_true] at hhead
      simp only [encode, encodeLength_eq, List.cons_append, List.append_assoc, parse, hhead,
        extendedLength_encode hlength, boundedPayloadLength]
      by_cases hfits : payload.length ≤ limits.maxFrame
      · rw [if_pos hfits, if_neg (Nat.not_lt.mpr hfits)]
        dsimp only
        have hmasked := @payloadAfter_masked ⟨fin, opcode, true, shortForm payload.length⟩ key payload.length
          (2 + (wideForm payload.length).length) rfl
          (((if fin then 0x80 else 0) ||| opcode.bits) :: (0x80 ||| UInt8.ofNat (shortForm payload.length)) ::
            wideForm payload.length) payload rest (by simp; omega) (by omega)
        simp only [List.cons_append, List.nil_append] at hmasked ⊢
        rw [hmasked]
        simp only [List.length_cons, List.length_append, length_unmask, Except.ok.injEq, ParsedFrame.mk.injEq, true_and]
        omega
      · rw [if_neg hfits, if_pos (Nat.lt_of_not_le hfits)]

end Selfhost.Ws
