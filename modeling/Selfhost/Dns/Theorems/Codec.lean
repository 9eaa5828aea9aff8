import Selfhost.Dns.Lemmas.Text

/-!
# What is written and what is read

Whether the decoder gives back the names and the records that the encoder was given.
-/

namespace Selfhost.Dns

open Selfhost.Lib

/-! ## Names -/

theorem trimDots_trimDots (name : Str) : trimDots (trimDots name) = trimDots name := List.rdropWhile_idempotent _ _

theorem writeName_trimDots (name : Str) : writeName (trimDots name) = writeName name := by
  rw [writeName, writeName, trimDots_trimDots]

theorem readable_trimDots_iff {name : Str} (h : (writeName name).2 = .ok ()) :
    Readable (trimDots name) ↔ byteLen (trimDots name) ≠ maxName := by
  rcases writeName_ok_iff.mp h with hnil | ⟨hlabels, hlen⟩
  · rw [hnil]
    exact iff_of_true (.inl rfl) (by decide)
  · constructor
    · rintro (hnil | ⟨-, hshort⟩)
      · rw [hnil]
        decide
      · omega
    · intro hne
      exact .inr ⟨hlabels, by omega⟩

/-- What is read of a name that was written whole. -/
theorem readName_cases {buffer : Bytes} {i : Nat} {name : Str} (h : (writeName name).2 = .ok ())
    (hat : At buffer i (writeName name).1) :
    Readable (trimDots name) ∧ readName buffer i = .ok (trimDots name, i + (writeName name).1.length) ∨
      ¬ Readable (trimDots name) ∧ readName buffer i = .error .nameTooLong := by
  rw [← writeName_trimDots] at hat ⊢
  by_cases hread : Readable (trimDots name)
  · exact .inl ⟨hread, readName_at hread hat⟩
  · refine .inr ⟨hread, ?_⟩
    by_contra hne
    exact hread (readable_of_written (writeName_ok_iff.mp h) hat hne)

theorem length_writeName_pos' {name : Str} (h : (writeName name).2 = .ok ()) : 0 < (writeName name).1.length := by
  rw [← writeName_trimDots]
  exact length_writeName_pos_of_ok (writeName_ok_iff.mp h)

/-! ## Payloads -/

/-- A payload of a kind that the encoder knows, whose names it accepts. -/
def AcceptedData : RecordData → Prop
  | .a _ | .aaaa _ | .txt _ => True
  | .name target => (writeName target).2 = .ok ()
  | .mx _ exchange => (writeName exchange).2 = .ok ()
  | .soa soa => (writeName soa.primary).2 = .ok () ∧ (writeName soa.responsible).2 = .ok ()
  | .srv _ _ _ target => (writeName target).2 = .ok ()
  | .unknown _ _ => False

/-- A payload with its names less their trailing dots. -/
def plainData : RecordData → RecordData
  | .name target => .name (trimDots target)
  | .mx preference exchange => .mx preference (trimDots exchange)
  | .soa soa => .soa { soa with primary := trimDots soa.primary, responsible := trimDots soa.responsible }
  | .srv priority weight port target => .srv priority weight port (trimDots target)
  | data => data

/-- A payload that comes back: its names are shorter than the longest that is accepted, its text fits into the 16 bits of
a length, and none of its chunks ends inside a character. -/
def CarriedData : RecordData → Prop
  | .a _ | .aaaa _ | .unknown _ _ => True
  | .name target => byteLen (trimDots target) ≠ maxName
  | .mx _ exchange => byteLen (trimDots exchange) ≠ maxName
  | .soa soa => byteLen (trimDots soa.primary) ≠ maxName ∧ byteLen (trimDots soa.responsible) ≠ maxName
  | .srv _ _ _ target => byteLen (trimDots target) ≠ maxName
  | .txt text => byteLen text < 255 * 256 ∧ Uncut 255 text

theorem length_txt_lt_iff (text : Str) : (writeRdata (.txt text)).length < 2 ^ 16 ↔ byteLen text < 255 * 256 := by
  have htotal := length_flatMap_framed (chunks 255 (utf8 text).length (utf8 text))
  rw [flatten_chunks (by decide) (Nat.le_refl _), ← writeRdata_txt] at htotal
  obtain ⟨hleast, hmost⟩ := count_chunks (show 0 < 255 by decide) (Nat.le_refl (utf8 text).length)
  have hlen : (utf8 text).length = byteLen text := rfl
  omega

theorem length_writeRdata_lt_of_accepted {data : RecordData} (h : AcceptedData data) (htext : ∀ text, data ≠ .txt text) :
    (writeRdata data).length < 2 ^ 16 := by
  have hname : ∀ name, (writeName name).1.length ≤ 257 := length_writeName_le_max
  cases data with
  | a address => exact Nat.lt_of_lt_of_le (Nat.lt_succ_self 4) (by decide)
  | aaaa address =>
      rw [writeRdata, address.size]
      decide
  | name target =>
      have := hname target
      rw [writeRdata]
      omega
  | mx preference exchange =>
      have := hname exchange
      rw [writeRdata, List.length_append, length_be16]
      omega
  | txt text => exact absurd rfl (htext text)
  | soa soa =>
      have hp := hname soa.primary
      have hr := hname soa.responsible
      simp only [writeRdata, List.length_append, length_be32]
      omega
  | srv priority weight port target =>
      have := hname target
      simp only [writeRdata, List.length_append, length_be16]
      omega
  | unknown recordType data => cases h

/-- The decoder gives back a payload that is sent whole exactly when it is carried. -/
theorem readData_iff {buffer : Bytes} {position : Nat} {nameType : RecordType} {data : RecordData}
    (h : AcceptedData data) (hsize : (writeRdata data).length < 2 ^ 16)
    (hname : nameType = .ns ∨ nameType = .cname) (hat : At buffer position (writeRdata data)) :
    readData buffer position (.fromCode (wireType nameType data).code) (writeRdata data) = .ok (plainData data) ↔
      CarriedData data := by
  cases data with
  | a address => exact iff_of_true rfl trivial
  | aaaa address =>
      refine iff_of_true ?_ trivial
      change readData _ _ .aaaa address.octets = _
      rw [readData, dif_pos address.size]
      rfl
  | name target =>
      have hmap : readData buffer position (.fromCode (wireType nameType (.name target)).code) (writeRdata (.name target)) =
          (readName buffer position).map fun p => RecordData.name p.1 := by
        rcases hname with rfl | rfl <;> rfl
      rw [hmap]
      refine Iff.trans ?_ (readable_trimDots_iff h)
      rcases readName_cases h hat with ⟨hread, heq⟩ | ⟨hread, heq⟩
      · exact iff_of_true (by rw [heq]; rfl) hread
      · refine iff_of_false (fun hok => ?_) hread
        rw [heq] at hok
        cases hok
  | mx preference exchange =>
      rw [writeRdata] at hat
      have hpos := length_writeName_pos' h
      have hlong : 3 ≤ (writeRdata (.mx preference exchange)).length := by
        rw [writeRdata, List.length_append, length_be16]
        omega
      have hpreference : u16At (writeRdata (.mx preference exchange)) 0 = preference :=
        At.u16 ⟨[], (writeName exchange).1, rfl, rfl⟩
      change readData _ _ .mx _ = _ ↔ _
      rw [readData, if_pos hlong, hpreference]
      refine Iff.trans ?_ (readable_trimDots_iff h)
      rcases readName_cases h hat.right with ⟨hread, heq⟩ | ⟨hread, heq⟩
      · rw [length_be16] at heq
        exact iff_of_true (by rw [heq]; rfl) hread
      · refine iff_of_false (fun hok => ?_) hread
        rw [length_be16] at heq
        rw [heq] at hok
        cases hok
  | txt text =>
      have htexts := readTexts_writeRdata_iff text (Nat.mod_eq_of_lt hsize).symm
      rw [List.take_length] at htexts
      change Except.ok (RecordData.txt (readTexts _ (writeRdata (.txt text)))) = .ok (.txt text) ↔ _
      rw [Except.ok.injEq, RecordData.txt.injEq, htexts, length_txt_lt_iff]
      rfl
  | soa soa =>
      rw [writeRdata] at hat
      obtain ⟨primary, responsible, serial, refresh, retry, expire, minimum⟩ := soa
      have hpos := length_writeName_pos' h.1
      have hpos' := length_writeName_pos' h.2
      have hnums := hat.right.slice
      let nums := be32 serial ++ be32 refresh ++ be32 retry ++ be32 expire ++ be32 minimum
      have hself := At.self nums
      have htwenty : nums.length = 20 := rfl
      rw [List.length_append, ← Nat.add_assoc] at hnums
      have hlong : 2 ≤ (writeRdata (.soa ⟨primary, responsible, serial, refresh, retry, expire, minimum⟩)).length := by
        simp only [writeRdata, List.length_append, length_be32]
        omega
      refine Iff.trans ?_ (and_congr (readable_trimDots_iff h.1) (readable_trimDots_iff h.2))
      change readData _ _ .soa _ = _ ↔ _
      rw [readData, if_pos hlong]
      rcases readName_cases h.1 hat.left.left with ⟨hread, heq⟩ | ⟨hread, heq⟩
      · rcases readName_cases h.2 hat.left.right with ⟨hread', heq'⟩ | ⟨hread', heq'⟩
        · refine iff_of_true ?_ ⟨hread, hread'⟩
          rw [heq]
          dsimp only [bind, Except.bind]
          rw [heq']
          dsimp only
          change slice? buffer _ (_ + nums.length) = some nums at hnums
          rw [htwenty] at hnums
          rw [hnums]
          dsimp only
          have hserial : u32At nums 0 = serial := hself.left.left.left.left.u32
          have hrefresh : u32At nums 4 = refresh := hself.left.left.left.right.u32
          have hretry : u32At nums 8 = retry := hself.left.left.right.u32
          have hexpire : u32At nums 12 = expire := hself.left.right.u32
          have hminimum : u32At nums 16 = minimum := hself.right.u32
          rw [hserial, hrefresh, hretry, hexpire, hminimum]
          rfl
        · refine iff_of_false (fun hok => ?_) fun hboth => hread' hboth.2
          rw [heq] at hok
          dsimp only [bind, Except.bind] at hok
          rw [heq'] at hok
          cases hok
      · refine iff_of_false (fun hok => ?_) fun hboth => hread hboth.1
        rw [heq] at hok
        cases hok
  | srv priority weight port target =>
      rw [writeRdata] at hat
      have hpos := length_writeName_pos' h
      have hlong : 7 ≤ (writeRdata (.srv priority weight port target)).length := by
        simp only [writeRdata, List.length_append, length_be16]
        omega
      have hself := At.self (writeRdata (.srv priority weight port target))
      rw [writeRdata] at hself
      have htarget := hat.right
      have hsix : (be16 priority ++ be16 weight ++ be16 port).length = 6 := rfl
      rw [hsix] at htarget
      change readData _ _ .srv _ = _ ↔ _
      have hpriority : u16At (writeRdata (.srv priority weight port target)) 0 = priority := hself.left.left.left.u16
      have hweight : u16At (writeRdata (.srv priority weight port target)) 2 = weight := hself.left.left.right.u16
      have hport : u16At (writeRdata (.srv priority weight port target)) 4 = port := hself.left.right.u16
      rw [readData, if_pos hlong, hpriority, hweight, hport]
      refine Iff.trans ?_ (readable_trimDots_iff h)
      rcases readName_cases h htarget with ⟨hread, heq⟩ | ⟨hread, heq⟩
      · exact iff_of_true (by rw [heq]; rfl) hread
      · refine iff_of_false (fun hok => ?_) hread
        rw [heq] at hok
        cases hok
  | unknown recordType data => cases h

/-! ## Records -/

structure Accepted (record : Record) : Prop where
  name : (writeName record.name).2 = .ok ()
  data : AcceptedData record.data

def plainRecord (record : Record) : Record := ⟨trimDots record.name, record.ttl, plainData record.data⟩

/-- A record that comes back. -/
structure Carried (record : Record) : Prop where
  name : byteLen (trimDots record.name) ≠ maxName
  data : CarriedData record.data

theorem writeRdata_plainData (data : RecordData) : writeRdata (plainData data) = writeRdata data := by
  cases data with
  | name target => rw [plainData, writeRdata, writeRdata, writeName_trimDots]
  | mx preference exchange => rw [plainData, writeRdata, writeRdata, writeName_trimDots]
  | soa soa => rw [plainData, writeRdata, writeRdata, writeName_trimDots, writeName_trimDots]
  | srv priority weight port target => rw [plainData, writeRdata, writeRdata, writeName_trimDots]
  | _ => rfl

theorem wireType_plainData (nameType : RecordType) (data : RecordData) :
    wireType nameType (plainData data) = wireType nameType data := by
  cases data <;> rfl

theorem writeRecord_plainRecord (nameType : RecordType) (record : Record) :
    writeRecord nameType (plainRecord record) = writeRecord nameType record := by
  rw [writeRecord, writeRecord, plainRecord]
  dsimp only
  rw [writeRdata_plainData, wireType_plainData, writeName_trimDots]

theorem slice?_take {buffer l : Bytes} {i n : Nat} (h : At buffer i l) (hn : n ≤ l.length) :
    slice? buffer i (i + n) = some (l.take n) := by
  obtain ⟨front, back, rfl, rfl⟩ := h
  rw [slice?, if_pos ⟨Nat.le_add_right _ _, by simp only [List.length_append]; omega⟩, Nat.add_sub_cancel_left,
    List.append_assoc, List.drop_left, List.take_append_of_le_length hn]

/-- What is read of a record that was written, in its place. -/
theorem readRecord_iff {buffer : Bytes} {i : Nat} {nameType : RecordType} {record : Record} (h : Accepted record)
    (hname : nameType = .ns ∨ nameType = .cname) (hat : At buffer i (writeRecord nameType record)) :
    ((∃ next, readRecord buffer i = .ok (plainRecord record, next)) ↔ Carried record) ∧
      (Carried record → readRecord buffer i = .ok (plainRecord record, i + (writeRecord nameType record).length)) := by
  have hcarried : Carried record ↔ Readable (trimDots record.name) ∧ CarriedData record.data := by
    rw [readable_trimDots_iff h.name]
    exact ⟨fun hc => ⟨hc.name, hc.data⟩, fun hc => ⟨hc.1, hc.2⟩⟩
  have howner : At buffer i (writeName record.name).1 := by
    rw [writeRecord] at hat
    exact hat.left.left
  rw [hcarried]
  rcases readName_cases h.name howner with ⟨hread, -⟩ | ⟨hread, heq⟩
  · rw [← writeRecord_plainRecord] at hat ⊢
    obtain ⟨hpayload, hlength, hframe⟩ := readFrame_written hread hat
    have hrdata : writeRdata (plainRecord record).data = writeRdata record.data := writeRdata_plainData record.data
    have htype : wireType nameType (plainRecord record).data = wireType nameType record.data :=
      wireType_plainData nameType record.data
    rw [hrdata] at hpayload hlength hframe
    rw [htype] at hframe
    have hcount : (UInt16.ofNat (writeRdata record.data).length).toNat = (writeRdata record.data).length % 2 ^ 16 :=
      UInt16.toNat_ofNat'
    rw [hcount, slice?_take hpayload (Nat.mod_le _ _)] at hframe
    dsimp only at hframe
    have hrecord : ∀ data, readRecord buffer i = .ok (plainRecord record, data) →
        readData buffer (i + (writeName (plainRecord record).name).1.length + 10)
          (.fromCode (wireType nameType record.data).code)
          ((writeRdata record.data).take ((writeRdata record.data).length % 2 ^ 16)) = .ok (plainData record.data) := by
      intro next hok
      rw [readRecord, hframe] at hok
      change Except.bind (readData buffer _ _ _) _ = _ at hok
      obtain ⟨data, hdata, hok⟩ := bind_ok hok
      have hsame : data = plainData record.data := congrArg (fun p : Record × Nat => p.1.data) (Except.ok.inj hok)
      rw [hdata, hsame]
    by_cases hsize : (writeRdata record.data).length < 2 ^ 16
    · have hdata := readData_iff h.data hsize hname hpayload
      rw [Nat.mod_eq_of_lt hsize, List.take_length] at hframe hrecord
      have hgood : CarriedData record.data →
          readRecord buffer i = .ok (plainRecord record, i + (writeRecord nameType (plainRecord record)).length) := by
        intro hc
        rw [readRecord, hframe]
        dsimp only [bind, Except.bind]
        rw [hdata.mpr hc, hlength]
        simp only [Nat.add_assoc]
        rfl
      refine ⟨⟨fun h => h.elim fun next hok => ⟨hread, hdata.mp (hrecord next hok)⟩, fun hc => ⟨_, hgood hc.2⟩⟩, fun hc => hgood hc.2⟩
    · -- Only a text is as long as this, and then less of it is read.
      have htext : ∃ text, record.data = .txt text := by
        by_contra hnone
        exact hsize (length_writeRdata_lt_of_accepted h.data fun text heq => hnone ⟨text, heq⟩)
      obtain ⟨text, htext⟩ := htext
      rw [htext] at hsize hrecord ⊢
      have hlost : ¬ CarriedData (.txt text) := fun hc => hsize ((length_txt_lt_iff text).mpr hc.1)
      refine ⟨iff_of_false ?_ fun hc => hlost hc.2, fun hc => absurd hc.2 hlost⟩
      rintro ⟨next, hok⟩
      have hdata := hrecord next hok
      have hlen : ((writeRdata (.txt text)).take ((writeRdata (.txt text)).length % 2 ^ 16)).length =
          (writeRdata (.txt text)).length % 2 ^ 16 := by
        rw [List.length_take]
        exact Nat.min_eq_left (Nat.mod_le _ _)
      change Except.ok (RecordData.txt (readTexts _ _)) = Except.ok (RecordData.txt text) at hdata
      rw [Except.ok.injEq, RecordData.txt.injEq, hlen, readTexts_writeRdata_iff text rfl] at hdata
      exact hsize hdata.1
  · refine ⟨iff_of_false ?_ fun hc => hread hc.1, fun hc => absurd hc.1 hread⟩
    rintro ⟨next, hok⟩
    rw [readRecord, readFrame, heq] at hok
    cases hok

/-! ## Sections -/

theorem readSection_iff {buffer : Bytes} {i : Nat} {nameType : RecordType} {records : List Record}
    (h : ∀ record ∈ records, Accepted record) (hname : nameType = .ns ∨ nameType = .cname)
    (hat : At buffer i (records.flatMap (writeRecord nameType))) :
    ((∃ stop, readMany (readRecord buffer) records.length i = .ok (records.map plainRecord, stop)) ↔
      ∀ record ∈ records, Carried record) ∧
      ((∀ record ∈ records, Carried record) → readMany (readRecord buffer) records.length i =
        .ok (records.map plainRecord, i + (records.flatMap (writeRecord nameType)).length)) := by
  induction records generalizing i with
  | nil => exact ⟨iff_of_true ⟨i, rfl⟩ (by simp), fun _ => rfl⟩
  | cons record records ih =>
      rw [List.flatMap_cons] at hat
      obtain ⟨hfirst, hfirst'⟩ := readRecord_iff (h record List.mem_cons_self) hname hat.left
      obtain ⟨hrest, hrest'⟩ := ih (fun other hmem => h other (List.mem_cons_of_mem _ hmem)) hat.right
      rw [List.forall_mem_cons, List.length_cons, List.map_cons, List.flatMap_cons]
      have hgood : Carried record ∧ (∀ record ∈ records, Carried record) →
          readMany (readRecord buffer) (records.length + 1) i = .ok (plainRecord record :: records.map plainRecord,
            i + (writeRecord nameType record ++ records.flatMap (writeRecord nameType)).length) := by
        rintro ⟨hc, hcs⟩
        rw [readMany, hfirst' hc]
        dsimp only
        rw [hrest' hcs, List.length_append, ← Nat.add_assoc]
        rfl
      refine ⟨⟨?_, fun hc => ⟨_, hgood hc⟩⟩, hgood⟩
      rintro ⟨stop, hok⟩
      rw [readMany] at hok
      cases hread : readRecord buffer i with
      | error e =>
          rw [hread] at hok
          cases hok
      | ok p =>
          obtain ⟨read, next⟩ := p
          rw [hread] at hok
          obtain ⟨⟨reads, stop'⟩, hmany, hok⟩ := map_ok hok
          simp only [Prod.mk.injEq, List.cons.injEq] at hok
          obtain ⟨⟨rfl, rfl⟩, -⟩ := hok
          have hc := hfirst.mp ⟨next, hread⟩
          rw [hfirst' hc, Except.ok.injEq, Prod.mk.injEq] at hread
          rw [← hread.2] at hmany
          exact ⟨hc, hrest.mp ⟨stop', hmany⟩⟩

/-- A section that is read as far as it goes gives fewer records than it has, unless all of them are read. -/
theorem length_readTolerant {buffer : Bytes} {count i : Nat} {records : List Record} {stop : Option Nat}
    (h : readTolerant buffer count i = (records, stop)) :
    records.length ≤ count ∧
      (records.length = count → ∃ j, stop = some j ∧ readMany (readRecord buffer) count i = .ok (records, j)) := by
  induction count generalizing i records stop with
  | zero =>
      cases h
      exact ⟨Nat.le_refl _, fun _ => ⟨i, rfl, rfl⟩⟩
  | succ count ih =>
      rw [readTolerant] at h
      cases hread : readRecord buffer i with
      | error e =>
          rw [hread] at h
          cases h
          exact ⟨Nat.zero_le _, fun h => absurd h (Nat.succ_ne_zero count).symm⟩
      | ok p =>
          obtain ⟨record, next⟩ := p
          rw [hread] at h
          dsimp only at h
          cases hrest : readTolerant buffer count next with
          | mk rest stop' =>
              rw [hrest] at h
              cases h
              obtain ⟨hle, hall⟩ := ih hrest
              refine ⟨Nat.succ_le_succ hle, fun heq => ?_⟩
              obtain ⟨j, hj, hmany⟩ := hall (Nat.succ_inj.mp heq)
              refine ⟨j, hj, ?_⟩
              rw [readMany, hread]
              dsimp only
              rw [hmany]
              rfl

/-! ## Messages -/

/-- A code that four bits carry. -/
def ResponseCode.Carried : ResponseCode → Prop
  | .other code => 6 ≤ code.toNat ∧ code.toNat < 16
  | _ => True

theorem ResponseCode.fromBits_iff (code : ResponseCode) :
    fromBits ((code.toBits &&& 0x0F) &&& 0x0F) = code ↔ code.Carried := by
  cases code with
  | other code =>
      have htable : ∀ n < 256, (fromBits (((ResponseCode.other (UInt8.ofNat n)).toBits &&& 0x0F) &&& 0x0F) =
          .other (UInt8.ofNat n) ↔ 6 ≤ n ∧ n < 16) := by decide +kernel
      have hcode := htable code.toNat code.toNat_lt
      rwa [UInt8.ofNat_toNat] at hcode
  | _ => exact iff_of_true (by decide) trivial

section

variable {query : Query} {code : ResponseCode} {flags : ResponseFlags} {answers authority additional : List Record}

/-- A message that is decoded to what it was made of. -/
structure Exact (query : Query) (code : ResponseCode) (answers authority additional : List Record) : Prop where
  code : code.Carried
  question : byteLen (trimDots query.name) ≠ maxName
  counts : answers.length < 2 ^ 16 ∧ authority.length < 2 ^ 16 ∧ additional.length < 2 ^ 16
  answers : ∀ record ∈ answers, Carried record
  authority : ∀ record ∈ authority, Carried record
  additional : ∀ record ∈ additional, Carried record

theorem decodeResponse_iff (hquery : (writeName query.name).2 = .ok ()) (hanswers : ∀ record ∈ answers, Accepted record)
    (hauthority : ∀ record ∈ authority, Accepted record) (hadditional : ∀ record ∈ additional, Accepted record) :
    decodeResponse (encodeResponse query code flags answers authority additional) =
        .ok ⟨code, answers.map plainRecord, authority.map plainRecord, additional.map plainRecord⟩ ↔
      Exact query code answers authority additional := by
  have hparts := @encodeResponse_parts query code flags answers authority additional
  have hshort := @not_short_encodeResponse query code flags answers authority additional
  dsimp only at hparts
  generalize encodeResponse query code flags answers authority additional = message at hparts hshort ⊢
  obtain ⟨hheader, hq, h₁, h₂, h₃, -⟩ := hparts
  obtain ⟨-, -, hcode, hone, hn₁, hn₂, hn₃⟩ := readHeader_encode hheader
  obtain ⟨hiff₁, hgood₁⟩ := readSection_iff hanswers (answerNameType_cases query) h₁
  obtain ⟨hiff₂, hgood₂⟩ := readSection_iff hauthority (.inl rfl) h₂
  obtain ⟨hiff₃, hgood₃⟩ := readSection_iff hadditional (.inl rfl) h₃
  have hcount : ∀ n, (UInt16.ofNat n).toNat = n % 2 ^ 16 := fun _ => UInt16.toNat_ofNat'
  have hname : At message 12 (writeName query.name).1 := by
    rw [writeQuestion] at hq
    exact hq.left
  rcases readName_cases hquery hname with ⟨hread, heq⟩ | ⟨hread, heq⟩
  · have hquestions : readMany (readQuestion message) (u16At message 4).toNat 12 =
        .ok ([trimDots query.name], 12 + (writeQuestion query).length) := by
      rw [hone]
      change readMany (readQuestion message) 1 12 = _
      rw [readMany, readQuestion, heq, writeQuestion, List.length_append, ← Nat.add_assoc]
      rfl
    rw [decodeResponse, if_neg hshort, hquestions, hn₁, hn₂, hn₃, hcount, hcount, hcount, hcode]
    constructor
    · intro hok
      change Except.bind (readMany _ _ _) _ = _ at hok
      obtain ⟨⟨read₁, p₂⟩, hread₁, hok⟩ := bind_ok hok
      dsimp only at hok
      have hlen₁ := length_readMany hread₁
      cases hread₂ : readTolerant message (authority.length % 2 ^ 16) p₂ with
      | mk read₂ stop =>
          obtain ⟨hle₂, hall₂⟩ := length_readTolerant hread₂
          have hlist₂ : read₂ = authority.map plainRecord →
              authority.length % 2 ^ 16 = authority.length ∧ read₂.length = authority.length % 2 ^ 16 := by
            rintro rfl
            rw [List.length_map] at hle₂ ⊢
            have := Nat.le_antisymm (Nat.mod_le _ _) hle₂
            exact ⟨this, this.symm⟩
          rw [hread₂] at hok
          cases stop with
          | none =>
              obtain ⟨-, -, h₂, -⟩ := Response.mk.inj (Except.ok.inj hok)
              obtain ⟨j, hnone, -⟩ := hall₂ (hlist₂ h₂).2
              cases hnone
          | some p₃ =>
              obtain ⟨hbits, rfl, rfl, hlist₃⟩ := Response.mk.inj (Except.ok.inj hok)
              obtain ⟨hn₂', hlen₂⟩ := hlist₂ rfl
              obtain ⟨j, hj, hmany₂⟩ := hall₂ hlen₂
              cases hj
              -- No section is longer than its count says, so each count is that section's length.
              have hn₁' : answers.length % 2 ^ 16 = answers.length := hlen₁.symm.trans (List.length_map ..)
              cases hread₃ : readTolerant message (additional.length % 2 ^ 16) p₃ with
              | mk read₃ stop₃ =>
                  obtain ⟨hle₃, hall₃⟩ := length_readTolerant hread₃
                  rw [hread₃] at hlist₃
                  obtain rfl : read₃ = additional.map plainRecord := hlist₃
                  rw [List.length_map] at hle₃ hall₃
                  have hn₃' := Nat.le_antisymm (Nat.mod_le _ _) hle₃
                  obtain ⟨p₄, -, hmany₃⟩ := hall₃ hn₃'.symm
                  rw [hn₁'] at hread₁
                  rw [hn₂'] at hmany₂
                  rw [hn₃'] at hmany₃
                  have hs₁ := hiff₁.mp ⟨_, hread₁⟩
                  obtain ⟨-, rfl⟩ := Prod.mk.inj (Except.ok.inj (hread₁.symm.trans (hgood₁ hs₁)))
                  have hs₂ := hiff₂.mp ⟨_, hmany₂⟩
                  obtain ⟨-, rfl⟩ := Prod.mk.inj (Except.ok.inj (hmany₂.symm.trans (hgood₂ hs₂)))
                  have hs₃ := hiff₃.mp ⟨_, hmany₃⟩
                  have hlt : ∀ {n : Nat}, n % 2 ^ 16 = n → n < 2 ^ 16 := fun h =>
                    h ▸ Nat.mod_lt _ (Nat.two_pow_pos 16)
                  exact ⟨(ResponseCode.fromBits_iff code).mp hbits, (readable_trimDots_iff hquery).mp hread,
                    ⟨hlt hn₁', hlt hn₂', hlt hn₃'⟩, hs₁, hs₂, hs₃⟩
    · rintro ⟨hcode', -, ⟨hc₁, hc₂, hc₃⟩, hs₁, hs₂, hs₃⟩
      rw [Nat.mod_eq_of_lt hc₁, Nat.mod_eq_of_lt hc₂, Nat.mod_eq_of_lt hc₃]
      dsimp only [bind, Except.bind]
      rw [hgood₁ hs₁]
      dsimp only
      rw [readTolerant_of_readMany (hgood₂ hs₂)]
      dsimp only
      rw [readTolerant_of_readMany (hgood₃ hs₃), (ResponseCode.fromBits_iff code).mpr hcode']
      rfl
  · refine iff_of_false (fun hok => ?_) fun hexact => hread ((readable_trimDots_iff hquery).mpr hexact.question)
    rw [decodeResponse, if_neg hshort, hone] at hok
    change Except.bind (readMany (readQuestion message) 1 12) _ = _ at hok
    rw [readMany, readQuestion, heq] at hok
    cases hok

/-- A name that `writeName` accepts is read back, whatever stands around it, and a response is decoded to the records
that it was made of, exactly when they are carried: no name has the full 255 bytes, no text is cut inside a character or
outgrows the length of its record, no section outgrows its count and the code has four bits. -/
theorem codec_exact (name : Str) (front back : Bytes) (hwritten : (writeName name).2 = .ok ())
    (hquery : (writeName query.name).2 = .ok ()) (hanswers : ∀ record ∈ answers, Accepted record)
    (hauthority : ∀ record ∈ authority, Accepted record) (hadditional : ∀ record ∈ additional, Accepted record) :
    (readName (front ++ (writeName name).1 ++ back) front.length =
        .ok (trimDots name, front.length + (writeName name).1.length) ↔ byteLen (trimDots name) ≠ maxName) ∧
      (decodeResponse (encodeResponse query code flags answers authority additional) =
          .ok ⟨code, answers.map plainRecord, authority.map plainRecord, additional.map plainRecord⟩ ↔
        Exact query code answers authority additional) := by
  refine ⟨?_, decodeResponse_iff hquery hanswers hauthority hadditional⟩
  rw [← readable_trimDots_iff hwritten]
  rcases readName_cases hwritten (At.intro front _ back) with ⟨hread, heq⟩ | ⟨hread, heq⟩
  · exact iff_of_true heq hread
  · refine iff_of_false (fun hok => ?_) hread
    rw [heq] at hok
    cases hok

theorem codec_exact_mail :
    decodeResponse (encodeResponse ⟨7, ['m', '.', 'd', 'e'], .mx, false⟩ .noError ⟨true, false⟩
        [⟨['m', '.', 'd', 'e', '.'], 60, .mx 5 ['x', '.', 'm', '.', 'd', 'e']⟩, ⟨['m'], 60, .txt ['v', 'é']⟩] [] []) =
      .ok ⟨.noError, [⟨['m', '.', 'd', 'e'], 60, .mx 5 ['x', '.', 'm', '.', 'd', 'e']⟩, ⟨['m'], 60, .txt ['v', 'é']⟩],
        [], []⟩ := by
  have huncut : Uncut 255 ['v', 'é'] := by
    intro k hk
    have hlen : byteLen ['v', 'é'] = 3 := by decide
    obtain rfl : k = 0 := by omega
    exact isBoundary_zero _
  refine (codec_exact ['m'] [] [] rfl rfl ?_ (by simp) (by simp)).2.mpr
    ⟨trivial, by decide, by decide, ?_, by simp, by simp⟩
  · rw [List.forall_mem_cons, List.forall_mem_singleton]
    exact ⟨⟨rfl, rfl⟩, ⟨rfl, trivial⟩⟩
  · rw [List.forall_mem_cons, List.forall_mem_singleton]
    exact ⟨⟨by decide, show byteLen _ ≠ maxName by decide⟩, by decide, by decide, huncut⟩

end

/-- Four labels of the greatest length: a name of 255 bytes. -/
def fourLabels : Str := ['.'].intercalate (List.replicate 4 (List.replicate 63 'a'))

/-- A text whose 255th byte is the first half of a character. -/
def splitText : Str := List.replicate 254 'a' ++ ['é']

/-- The longest name is accepted and cannot be read again, and a text is not given back when a chunk of it ends inside a
character. -/
theorem codec_loses :
    ((writeName fourLabels).2 = .ok () ∧ readName (writeName fourLabels).1 0 = .error .nameTooLong) ∧
      (AcceptedData (.txt splitText) ∧
        decodeResponse (encodeResponse ⟨7, ['m'], .txt, false⟩ .noError ⟨true, false⟩ [⟨['m'], 60, .txt splitText⟩]
          [] []) ≠ .ok ⟨.noError, [⟨['m'], 60, .txt splitText⟩], [], []⟩) := by
  have hwritten : (writeName fourLabels).2 = .ok () :=
    writeName_ok_iff.mpr (.inr ⟨by decide +kernel, by decide +kernel⟩)
  have hlong : byteLen (trimDots fourLabels) = maxName := by decide +kernel
  refine ⟨⟨hwritten, ?_⟩, trivial, fun hok => ?_⟩
  · rcases readName_cases hwritten (At.self _) with ⟨hread, -⟩ | ⟨-, heq⟩
    · exact absurd hlong ((readable_trimDots_iff hwritten).mp hread)
    · exact heq
  · have haccepted : ∀ record ∈ [(⟨['m'], 60, .txt splitText⟩ : Record)], Accepted record :=
      List.forall_mem_singleton.mpr ⟨rfl, trivial⟩
    have hexact := (decodeResponse_iff rfl haccepted (by simp) (by simp)).mp hok
    obtain ⟨-, -, huncut⟩ := hexact.answers _ List.mem_cons_self
    have hcut := huncut 1 (by decide +kernel)
    rw [← not_not (a := IsBoundary _ _), ← splitAtByte_eq_none_iff] at hcut
    exact hcut (by decide +kernel)

end Selfhost.Dns
