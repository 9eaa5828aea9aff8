import Selfhost.Dns.Lemmas.Name
import Selfhost.Lib.Fallible

/-!
# Records and messages on the wire

A record whose names are readable and whose payload has a length of 16 bits is read where it was written, and a
message of such records is read whole.
-/

namespace Selfhost.Dns

open Selfhost.Lib

/-! ## Frames -/

/-- The frame a record is sent as. -/
def sentFrame (nameType : RecordType) (record : Record) : Frame :=
  ⟨record.name, .fromCode (wireType nameType record.data).code, record.ttl, writeRdata record.data⟩

/-- The fixed part of a record, behind its owner. -/
theorem readHeader_at {header : Bytes} {code one length : UInt16} {ttl : UInt32}
    (h : header = be16 code ++ be16 one ++ be32 ttl ++ be16 length) :
    u16At header 0 = code ∧ u32At header 4 = ttl ∧ u16At header 8 = length := by
  have hat : At header 0 (be16 code ++ be16 one ++ be32 ttl ++ be16 length) := ⟨[], [], by rw [h]; simp, rfl⟩
  exact ⟨hat.left.left.left.u16, hat.left.right.u32, hat.right.u16⟩

/-- Behind a readable owner the payload is taken as long as the header says, in 16 bits. -/
theorem readFrame_written {buffer : Bytes} {i : Nat} {nameType : RecordType} {record : Record}
    (hname : Readable record.name) (hat : At buffer i (writeRecord nameType record)) :
    let position := i + (writeName record.name).1.length + 10
    let length := (UInt16.ofNat (writeRdata record.data).length).toNat
    At buffer position (writeRdata record.data) ∧
      (writeRecord nameType record).length = (writeName record.name).1.length + 10 + (writeRdata record.data).length ∧
      readFrame buffer i =
        match slice? buffer position (position + length) with
        | none => .error .truncated
        | some payload =>
            .ok (⟨record.name, .fromCode (wireType nameType record.data).code, record.ttl, payload⟩, position,
              position + length) := by
  rw [writeRecord] at hat ⊢
  generalize hheader : be16 (wireType nameType record.data).code ++ be16 1 ++ be32 record.ttl ++
    be16 (UInt16.ofNat (writeRdata record.data).length) = header at hat ⊢
  obtain ⟨hcode, httl, hlength⟩ := readHeader_at hheader.symm
  have hten : header.length = 10 := by rw [← hheader]; rfl
  have hpayload := hat.right
  rw [List.length_append, hten, ← Nat.add_assoc] at hpayload
  have hslice := hat.left.right.slice
  rw [hten] at hslice
  refine ⟨hpayload, by rw [List.length_append, List.length_append, hten], ?_⟩
  rw [readFrame, readName_at hname hat.left.left]
  dsimp only [bind, Except.bind]
  rw [hslice]
  dsimp only
  rewrite [hlength, hcode, httl]
  rfl

theorem readFrame_at {buffer : Bytes} {i : Nat} {nameType : RecordType} {record : Record}
    (hname : Readable record.name) (hsize : (writeRdata record.data).length < 2 ^ 16)
    (hat : At buffer i (writeRecord nameType record)) :
    ∃ position, At buffer position (writeRdata record.data) ∧
      readFrame buffer i = .ok (sentFrame nameType record, position, i + (writeRecord nameType record).length) := by
  obtain ⟨hpayload, hlength, hframe⟩ := readFrame_written hname hat
  refine ⟨_, hpayload, ?_⟩
  rw [hframe, UInt16.toNat_ofNat_of_lt' hsize, hpayload.slice, hlength]
  simp only [Nat.add_assoc]
  rfl

/-! ## Payloads -/

/-- A type whose payload is kept as it is. -/
def RecordType.isOpaque : RecordType → Bool
  | .ns | .cname | .ptr | .soa | .mx | .srv => false
  | _ => true

/-- A payload that the decoder reads. -/
def DataOk : RecordData → Prop
  | .a _ | .aaaa _ => True
  | .name target => Readable target
  | .mx _ exchange => Readable exchange
  | .txt text => (writeRdata (.txt text)).length < 2 ^ 16
  | .soa soa => Readable soa.primary ∧ Readable soa.responsible
  | .srv _ _ _ target => Readable target
  | .unknown recordType data => data.length < 2 ^ 16 ∧ (RecordType.fromCode recordType.code).isOpaque = true

instance : (data : RecordData) → Decidable (DataOk data)
  | .a _ | .aaaa _ => instDecidableTrue
  | .name _ | .mx .. | .srv .. => inferInstanceAs (Decidable (Readable _))
  | .txt _ => inferInstanceAs (Decidable (_ < _))
  | .soa _ => inferInstanceAs (Decidable (_ ∧ _))
  | .unknown .. => inferInstanceAs (Decidable (_ ∧ _))

theorem length_writeRdata_lt {data : RecordData} (h : DataOk data) : (writeRdata data).length < 2 ^ 16 := by
  cases data with
  | a address =>
      exact Nat.lt_of_lt_of_le (Nat.lt_succ_self 4) (by decide)
  | aaaa address =>
      rw [writeRdata, address.size]
      decide
  | name target =>
      have := length_writeName_le_max target
      unfold maxName at this
      rw [writeRdata]
      omega
  | mx preference exchange =>
      have := length_writeName_le_max exchange
      unfold maxName at this
      rw [writeRdata, List.length_append, length_be16]
      omega
  | txt text => exact h
  | soa soa =>
      have hp := length_writeName_le_max soa.primary
      have hr := length_writeName_le_max soa.responsible
      unfold maxName at hp hr
      rw [writeRdata]
      simp only [List.length_append, length_be32]
      omega
  | srv priority weight port target =>
      have := length_writeName_le_max target
      unfold maxName at this
      rw [writeRdata]
      simp only [List.length_append, length_be16]
      omega
  | unknown recordType data => exact h.1

theorem length_writeName_pos_of_ok {name : Str}
    (h : name = [] ∨ (∀ label ∈ name.splitOn '.', LabelOk label) ∧ byteLen name ≤ maxName) :
    0 < (writeName name).1.length := by
  rcases h with rfl | ⟨hlabels, hlen⟩
  · decide
  · by_cases hne : name = []
    · subst hne
      decide
    · rw [writeName_of_labels hne hlabels hlen, writeLabels_of_ok hlabels, List.length_append]
      exact Nat.succ_pos _

theorem length_writeName_pos {name : Str} (h : Readable name) : 0 < (writeName name).1.length :=
  length_writeName_pos_of_ok (h.imp_right fun h => ⟨h.1, Nat.le_of_lt h.2⟩)

/-- The decoder reads the payload of a record that was written, under a name type of aliases or nameservers. -/
theorem readData_at {buffer : Bytes} {position : Nat} {nameType : RecordType} {data : RecordData} (h : DataOk data)
    (hname : nameType = .ns ∨ nameType = .cname) (hat : At buffer position (writeRdata data)) :
    ∃ read, readData buffer position (.fromCode (wireType nameType data).code) (writeRdata data) = .ok read := by
  cases data with
  | a address => exact ⟨_, rfl⟩
  | aaaa address =>
      refine ⟨.aaaa address, ?_⟩
      change readData _ _ .aaaa address.octets = _
      rw [readData, dif_pos address.size]
  | name target =>
      refine ⟨.name target, ?_⟩
      have hread : (readName buffer position).map (fun p => RecordData.name p.1) = .ok (.name target) := by
        rw [readName_at h hat]
        rfl
      rcases hname with rfl | rfl
      · exact hread
      · exact hread
  | mx preference exchange =>
      rw [writeRdata] at hat
      have hpos := length_writeName_pos h
      have hexchange := readName_at h hat.right
      rw [length_be16] at hexchange
      refine ⟨.mx (u16At (writeRdata (.mx preference exchange)) 0) exchange, ?_⟩
      change readData _ _ .mx _ = _
      rw [readData, if_pos (by rw [writeRdata, List.length_append, length_be16]; omega), hexchange]
      rfl
  | txt text => exact ⟨_, rfl⟩
  | soa soa =>
      rw [writeRdata] at hat
      have hprimary := readName_at h.1 hat.left.left
      have hresponsible := readName_at h.2 hat.left.right
      have hpos := length_writeName_pos h.1
      have hpos' := length_writeName_pos h.2
      have htwenty : (be32 soa.serial ++ be32 soa.refresh ++ be32 soa.retry ++ be32 soa.expire ++
          be32 soa.minimum).length = 20 := rfl
      have hnums := hat.right.slice
      rw [List.length_append, ← Nat.add_assoc, htwenty] at hnums
      let nums := be32 soa.serial ++ be32 soa.refresh ++ be32 soa.retry ++ be32 soa.expire ++ be32 soa.minimum
      refine ⟨.soa ⟨soa.primary, soa.responsible, u32At nums 0, u32At nums 4, u32At nums 8, u32At nums 12,
        u32At nums 16⟩, ?_⟩
      change readData _ _ .soa _ = _
      rw [readData, if_pos (by simp only [writeRdata, List.length_append, length_be32]; omega), hprimary]
      dsimp only [bind, Except.bind]
      rw [hresponsible]
      dsimp only
      rw [hnums]
  | srv priority weight port target =>
      rw [writeRdata] at hat
      have hpos := length_writeName_pos h
      have htarget := readName_at h hat.right
      simp only [List.length_append, length_be16] at htarget
      let payload := writeRdata (.srv priority weight port target)
      refine ⟨.srv (u16At payload 0) (u16At payload 2) (u16At payload 4) target, ?_⟩
      change readData _ _ .srv _ = _
      rw [readData, if_pos (by simp only [writeRdata, List.length_append, length_be16]; omega), htarget]
      rfl
  | unknown recordType data =>
      change ∃ read, readData _ _ (.fromCode recordType.code) _ = _
      have hopaque := h.2
      generalize RecordType.fromCode recordType.code = t at hopaque ⊢
      cases t with
      | a =>
          unfold readData
          dsimp only
          split
          · exact ⟨_, rfl⟩
          · exact ⟨_, rfl⟩
      | aaaa =>
          unfold readData
          dsimp only
          split
          · exact ⟨_, rfl⟩
          · exact ⟨_, rfl⟩
      | txt => exact ⟨_, rfl⟩
      | caa => exact ⟨_, rfl⟩
      | other code => exact ⟨_, rfl⟩
      | _ => cases hopaque

/-! ## Records -/

/-- A record that is read where it was written. -/
def RecordOk (record : Record) : Prop := Readable record.name ∧ DataOk record.data

instance (record : Record) : Decidable (RecordOk record) := inferInstanceAs (Decidable (_ ∧ _))

theorem readRecord_at {buffer : Bytes} {i : Nat} {nameType : RecordType} {record : Record} (h : RecordOk record)
    (hname : nameType = .ns ∨ nameType = .cname) (hat : At buffer i (writeRecord nameType record)) :
    ∃ read, readRecord buffer i = .ok (read, i + (writeRecord nameType record).length) := by
  obtain ⟨position, hposition, hframe⟩ := readFrame_at h.1 (length_writeRdata_lt h.2) hat
  obtain ⟨data, hdata⟩ := readData_at h.2 hname hposition
  refine ⟨⟨record.name, record.ttl, data⟩, ?_⟩
  rw [readRecord, hframe]
  dsimp only [bind, Except.bind, sentFrame]
  rw [hdata]
  rfl

/-! ## Messages -/

/-- `decode_response` reads a message whole: every section has as many records as the header says, and the last one
ends where the message does. -/
structure DecodedWhole (message : Bytes) (response : Response) : Prop where
  decoded : decodeResponse message = .ok response
  whole : ∃ questions p₁ p₂ p₃,
    readMany (readQuestion message) (u16At message 4).toNat 12 = .ok (questions, p₁) ∧
      readMany (readRecord message) (u16At message 6).toNat p₁ = .ok (response.answers, p₂) ∧
      readMany (readRecord message) (u16At message 8).toNat p₂ = .ok (response.authority, p₃) ∧
      readMany (readRecord message) (u16At message 10).toNat p₃ = .ok (response.additional, message.length)

/-- The records of a message as they stand on the wire, with their types. -/
structure Sections where
  answers : List Frame
  authority : List Frame
  additional : List Frame
  deriving DecidableEq, Repr

def frameAt (buffer : Bytes) (i : Nat) : Except WireError (Frame × Nat) :=
  (readFrame buffer i).map fun (frame, _, stop) => (frame, stop)

def readSections (buffer : Bytes) : Except WireError Sections := do
  let (_, position) ← readMany (readQuestion buffer) (u16At buffer 4).toNat 12
  let (answers, position) ← readMany (frameAt buffer) (u16At buffer 6).toNat position
  let (authority, position) ← readMany (frameAt buffer) (u16At buffer 8).toNat position
  let (additional, _) ← readMany (frameAt buffer) (u16At buffer 10).toNat position
  return ⟨answers, authority, additional⟩

section

variable {query : Query} {code : ResponseCode} {flags : ResponseFlags} {answers authority additional : List Record}

theorem length_writeHeader (n₁ n₂ n₃ : Nat) : (writeHeader query code flags n₁ n₂ n₃).length = 12 := by
  simp only [writeHeader, be16, List.length_append, List.length_cons, List.length_nil]

theorem readHeader_encode {message : Bytes} {n₁ n₂ n₃ : Nat} (h : At message 0 (writeHeader query code flags n₁ n₂ n₃)) :
    u16At message 0 = query.id ∧ message.getD 2 0 = flagsHigh query flags ∧
      message.getD 3 0 = code.toBits &&& 0x0F ∧ u16At message 4 = 1 ∧ u16At message 6 = UInt16.ofNat n₁ ∧
      u16At message 8 = UInt16.ofNat n₂ ∧ u16At message 10 = UInt16.ofNat n₃ := by
  rw [writeHeader] at h
  have hflags := h.left.left.left.left.right
  exact ⟨h.left.left.left.left.left.u16, hflags.getD 0, hflags.tail.getD 0, h.left.left.left.right.u16,
    h.left.left.right.u16, h.left.right.u16, h.right.u16⟩

/-- Where the parts of a message stand. -/
theorem encodeResponse_parts :
    let message := encodeResponse query code flags answers authority additional
    let p₁ := 12 + (writeQuestion query).length
    let p₂ := p₁ + (answers.flatMap (writeRecord (answerNameType query))).length
    let p₃ := p₂ + (authority.flatMap (writeRecord .ns)).length
    At message 0 (writeHeader query code flags answers.length authority.length additional.length) ∧
      At message 12 (writeQuestion query) ∧
      At message p₁ (answers.flatMap (writeRecord (answerNameType query))) ∧
      At message p₂ (authority.flatMap (writeRecord .ns)) ∧
      At message p₃ (additional.flatMap (writeRecord .ns)) ∧
      message.length = p₃ + (additional.flatMap (writeRecord .ns)).length := by
  intro message p₁ p₂ p₃
  have h : At message 0 message := ⟨[], [], by simp, rfl⟩
  have hparts := h
  nth_rewrite 2 [show message = encodeResponse query code flags answers authority additional from rfl] at hparts
  rw [encodeResponse] at hparts
  have h₁ := hparts.left.left.left.right
  have h₂ := hparts.left.left.right
  have h₃ := hparts.left.right
  have h₄ := hparts.right
  simp only [List.length_append, length_writeHeader, Nat.zero_add] at h₁ h₂ h₃ h₄
  refine ⟨hparts.left.left.left.left, h₁, h₂, h₃, h₄, ?_⟩
  simp only [message, p₁, p₂, p₃, encodeResponse, List.length_append, length_writeHeader]

theorem readQuestion_at {buffer : Bytes} {i : Nat} (hname : Readable query.name) (hat : At buffer i (writeQuestion query)) :
    readQuestion buffer i = .ok (query.name, i + (writeQuestion query).length) := by
  rw [writeQuestion] at hat ⊢
  rw [readQuestion, readName_at hname hat.left, List.length_append, ← Nat.add_assoc]
  rfl

theorem readTolerant_of_readMany {buffer : Bytes} {count i j : Nat} {records : List Record}
    (h : readMany (readRecord buffer) count i = .ok (records, j)) : readTolerant buffer count i = (records, some j) := by
  induction count generalizing i records with
  | zero =>
      cases h
      rfl
  | succ count ih =>
      rw [readMany] at h
      split at h
      · cases h
      · rename_i record next hrecord
        obtain ⟨⟨rest, stop⟩, hrest, heq⟩ := map_ok h
        cases heq
        rw [readTolerant, hrecord]
        dsimp only
        rw [ih hrest]

theorem length_readMany {α : Type} {read : Nat → Except WireError (α × Nat)} {count i j : Nat} {items : List α}
    (h : readMany read count i = .ok (items, j)) : items.length = count := by
  induction count generalizing i j items with
  | zero =>
      cases h
      rfl
  | succ count ih =>
      rw [readMany] at h
      cases hread : read i with
      | error e =>
          rw [hread] at h
          cases h
      | ok p =>
          rw [hread] at h
          obtain ⟨⟨rest, j'⟩, hrest, hok⟩ := map_ok h
          rw [← (Prod.mk.inj hok).1, List.length_cons, ih hrest]

theorem answerNameType_cases (query : Query) : answerNameType query = .ns ∨ answerNameType query = .cname := by
  unfold answerNameType
  split
  · exact Or.inl rfl
  · exact Or.inr rfl

theorem readSection_at {buffer : Bytes} {i : Nat} {nameType : RecordType} {records : List Record} {count : UInt16}
    (hrecords : ∀ record ∈ records, RecordOk record) (hcount : records.length < 2 ^ 16)
    (hname : nameType = .ns ∨ nameType = .cname) (hn : count = UInt16.ofNat records.length)
    (hat : At buffer i (records.flatMap (writeRecord nameType))) :
    ∃ read, readMany (readRecord buffer) count.toNat i = .ok (read, i + (records.flatMap (writeRecord nameType)).length) := by
  rw [hn, UInt16.toNat_ofNat_of_lt' hcount]
  have hmany := @readMany_at _ _ _ _ _ _ (readRecord buffer) (writeRecord nameType) (fun _ _ => True) records hat
    (fun record hmem j hj => by
      obtain ⟨read, hread⟩ := readRecord_at (hrecords record hmem) hname hj
      exact ⟨read, hread, trivial⟩)
  obtain ⟨read, hread, -⟩ := hmany
  exact ⟨read, hread⟩

theorem readQuestions_at {buffer : Bytes} (hname : Readable query.name) (hone : u16At buffer 4 = 1)
    (hat : At buffer 12 (writeQuestion query)) :
    readMany (readQuestion buffer) (u16At buffer 4).toNat 12 =
      .ok ([query.name], 12 + (writeQuestion query).length) := by
  rw [hone]
  change readMany (readQuestion buffer) 1 12 = _
  rw [readMany, readQuestion_at hname hat]
  rfl

theorem not_short_encodeResponse : ¬ (encodeResponse query code flags answers authority additional).length < 12 := by
  have hlength := (@encodeResponse_parts query code flags answers authority additional).2.2.2.2.2
  omega

/-- A message of readable names and payloads, with counts of 16 bits, is decoded whole. -/
theorem decodedWhole_encodeResponse (hquery : Readable query.name)
    (hanswers : ∀ record ∈ answers, RecordOk record) (hauthority : ∀ record ∈ authority, RecordOk record)
    (hadditional : ∀ record ∈ additional, RecordOk record)
    (hcount : answers.length < 2 ^ 16 ∧ authority.length < 2 ^ 16 ∧ additional.length < 2 ^ 16) :
    ∃ response, DecodedWhole (encodeResponse query code flags answers authority additional) response := by
  have hparts := @encodeResponse_parts query code flags answers authority additional
  have hshort := @not_short_encodeResponse query code flags answers authority additional
  dsimp only at hparts
  generalize encodeResponse query code flags answers authority additional = message at hparts hshort ⊢
  obtain ⟨hheader, hq, h₁, h₂, h₃, hlength⟩ := hparts
  obtain ⟨-, -, -, hone, hn₁, hn₂, hn₃⟩ := readHeader_encode hheader
  have hquestions := readQuestions_at hquery hone hq
  obtain ⟨read₁, hread₁⟩ := readSection_at hanswers hcount.1 (answerNameType_cases query) hn₁ h₁
  obtain ⟨read₂, hread₂⟩ := readSection_at hauthority hcount.2.1 (Or.inl rfl) hn₂ h₂
  obtain ⟨read₃, hread₃⟩ := readSection_at hadditional hcount.2.2 (Or.inl rfl) hn₃ h₃
  rw [← hlength] at hread₃
  refine ⟨⟨.fromBits (message.getD 3 0 &&& 0x0F), read₁, read₂, read₃⟩, ?_, _, _, _, _, hquestions, hread₁, hread₂, hread₃⟩
  rw [decodeResponse, if_neg hshort, hquestions]
  dsimp only [bind, Except.bind]
  rw [hread₁]
  dsimp only
  rw [readTolerant_of_readMany hread₂]
  dsimp only
  rw [readTolerant_of_readMany hread₃]
  rfl

theorem frameAt_at {buffer : Bytes} {i : Nat} {nameType : RecordType} {record : Record} (h : RecordOk record)
    (hat : At buffer i (writeRecord nameType record)) :
    frameAt buffer i = .ok (sentFrame nameType record, i + (writeRecord nameType record).length) := by
  obtain ⟨position, -, hframe⟩ := readFrame_at h.1 (length_writeRdata_lt h.2) hat
  rw [frameAt, hframe]
  rfl

theorem readFrames_at {buffer : Bytes} {i : Nat} {nameType : RecordType} {records : List Record} {count : UInt16}
    (hrecords : ∀ record ∈ records, RecordOk record) (hcount : records.length < 2 ^ 16)
    (hn : count = UInt16.ofNat records.length) (hat : At buffer i (records.flatMap (writeRecord nameType))) :
    readMany (frameAt buffer) count.toNat i =
      .ok (records.map (sentFrame nameType), i + (records.flatMap (writeRecord nameType)).length) := by
  rw [hn, UInt16.toNat_ofNat_of_lt' hcount]
  have hmany := @readMany_at _ _ _ _ _ _ (frameAt buffer) (writeRecord nameType)
    (fun record frame => frame = sentFrame nameType record) records hat
    (fun record hmem j hj => ⟨_, frameAt_at (hrecords record hmem) hj, rfl⟩)
  obtain ⟨read, hread, hall⟩ := hmany
  have hmap : List.Forall₂ (· = ·) (records.map (sentFrame nameType)) read :=
    List.forall₂_map_left_iff.mpr (hall.imp fun _ _ h => h.symm)
  rw [List.forall₂_eq_eq_eq] at hmap
  rw [hread, hmap]

/-- What a message of readable records holds, with its types. -/
theorem readSections_encodeResponse (hquery : Readable query.name)
    (hanswers : ∀ record ∈ answers, RecordOk record) (hauthority : ∀ record ∈ authority, RecordOk record)
    (hadditional : ∀ record ∈ additional, RecordOk record)
    (hcount : answers.length < 2 ^ 16 ∧ authority.length < 2 ^ 16 ∧ additional.length < 2 ^ 16) :
    readSections (encodeResponse query code flags answers authority additional) =
      .ok ⟨answers.map (sentFrame (answerNameType query)), authority.map (sentFrame .ns),
        additional.map (sentFrame .ns)⟩ := by
  have hparts := @encodeResponse_parts query code flags answers authority additional
  dsimp only at hparts
  generalize encodeResponse query code flags answers authority additional = message at hparts ⊢
  obtain ⟨hheader, hq, h₁, h₂, h₃, -⟩ := hparts
  obtain ⟨-, -, -, hone, hn₁, hn₂, hn₃⟩ := readHeader_encode hheader
  rw [readSections, readQuestions_at hquery hone hq]
  dsimp only [bind, Except.bind]
  rw [readFrames_at hanswers hcount.1 hn₁ h₁]
  dsimp only
  rw [readFrames_at hauthority hcount.2.1 hn₂ h₂]
  dsimp only
  rw [readFrames_at hadditional hcount.2.2 hn₃ h₃]
  rfl

/-! ## The question -/

theorem readType_at {buffer : Bytes} {i : Nat} {t : RecordType} (h : At buffer i (be16 t.code)) :
    readType buffer i = .ok (.fromCode t.code) := by
  have hslice := h.slice
  rw [length_be16] at hslice
  have hself : At (be16 t.code) 0 (be16 t.code) := ⟨[], [], by simp, rfl⟩
  rw [readType, hslice]
  dsimp only
  rw [hself.u16]

theorem questionOf_encodeResponse (hquery : Readable query.name) :
    questionOf (encodeResponse query code flags answers authority additional) =
      .ok (some (query.name, .fromCode query.recordType.code)) := by
  have hparts := @encodeResponse_parts query code flags answers authority additional
  have hshort := @not_short_encodeResponse query code flags answers authority additional
  dsimp only at hparts
  generalize encodeResponse query code flags answers authority additional = message at hparts hshort ⊢
  obtain ⟨hheader, hq, -⟩ := hparts
  obtain ⟨-, -, -, hone, -⟩ := readHeader_encode hheader
  rw [writeQuestion] at hq
  rw [questionOf, if_neg hshort, if_neg (by rw [hone]; decide), readName_at hquery hq.left]
  dsimp only [bind, Except.bind]
  rw [readType_at hq.right.left]
  rfl

end

end Selfhost.Dns
