import Selfhost.Dns.Lemmas.Build
import Selfhost.Dns.Theorems.Reply

/-!
# Replies that are read back

A reply that is decoded whole, and whose records come back as they were sent, says of each of them that it is read where
it was written. `replies_iff` says for which zones every reply is one.
-/

namespace Selfhost.Dns

open Selfhost.Lib

/-- The names that a payload holds. -/
def targetsOf : RecordData → List Str
  | .name target | .mx _ target | .srv _ _ _ target => [target]
  | .soa soa => [soa.primary, soa.responsible]
  | _ => []

/-- The names of a record are accepted by `write_name`. -/
def NamesAccepted (record : Record) : Prop :=
  (writeName record.name).2 = .ok () ∧ ∀ target ∈ targetsOf record.data, (writeName target).2 = .ok ()

/-- The records of a zone: its SOA, its nameservers and what is stored. -/
def Zone.contents (zone : Zone) : List Record := zone.soaRecord :: (zone.nsRecords ++ zone.records)

/-- A reply is decoded whole, and its records are the ones that were sent. -/
structure ReadBack (query : Query) (zone : Zone) (overTcp : Bool) : Prop where
  whole : ∃ response, DecodedWhole (respond query (some zone) overTcp) response
  sections : readSections (respond query (some zone) overTcp) =
    .ok ⟨(carried query zone overTcp).answers.map (sentFrame (answerNameType query)),
      (carried query zone overTcp).authority.map (sentFrame .ns),
      (carried query zone overTcp).additional.map (sentFrame .ns)⟩

/-- A name of labels of 1 to 63 bytes, of at most 255 bytes. -/
def Writable (name : Str) : Prop := name = [] ∨ (∀ label ∈ name.splitOn '.', LabelOk label) ∧ byteLen name ≤ maxName

instance (name : Str) : Decidable (Writable name) := inferInstanceAs (Decidable (_ ∨ _))

/-! ## Names -/

theorem readable_iff {name : Str} : Readable name ↔ Writable name ∧ byteLen name < maxName := by
  constructor
  · rintro (rfl | ⟨hlabels, hlen⟩)
    · exact ⟨Or.inl rfl, by decide⟩
    · exact ⟨Or.inr ⟨hlabels, Nat.le_of_lt hlen⟩, hlen⟩
  · rintro ⟨hname, hlen⟩
    exact hname.imp_right fun h => ⟨h.1, hlen⟩

/-- A label in front of a writable origin. -/
theorem writable_prepend {origin : Str} (h : Writable origin) (hne : origin ≠ []) (label : String)
    (hlabel : LabelOk label.toList ∧ label.toList.splitOn '.' = [label.toList]) :
    Writable (label.toList ++ '.' :: origin) ↔ byteLen label.toList + 1 + byteLen origin ≤ maxName := by
  have hlabels := (h.resolve_left hne).1
  have hdot : byteLen ['.'] = 1 := by decide
  have hlength : byteLen (label.toList ++ '.' :: origin) = byteLen label.toList + 1 + byteLen origin := by
    rw [byteLen_append, ← List.singleton_append, byteLen_append, hdot, Nat.add_assoc]
  have hsplit : (label.toList ++ '.' :: origin).splitOn '.' = label.toList :: origin.splitOn '.' := by
    rw [List.splitOn_append_cons_self, hlabel.2, List.singleton_append]
  rw [← hlength]
  constructor
  · exact fun h => (h.resolve_left (List.append_ne_nil_of_right_ne_nil _ (List.cons_ne_nil _ _))).2
  · intro hle
    refine Or.inr ⟨?_, hle⟩
    rw [hsplit]
    exact List.forall_mem_cons.mpr ⟨hlabel.1, hlabels⟩

theorem utf8Size_toLower (c : Char) : c.toLower.utf8Size = c.utf8Size := by
  by_cases hc : c.toNat < 0x80
  · have htable : ∀ n < 0x80, (Char.ofNat n).toLower.utf8Size = (Char.ofNat n).utf8Size := by decide
    have hn := htable c.toNat hc
    rwa [Char.ofNat_toNat] at hn
  · rw [toLower_of_le (Nat.not_lt.mp hc)]

theorem byteLen_toAsciiLowercase (s : Str) : byteLen (toAsciiLowercase s) = byteLen s := by
  induction s with
  | nil => rfl
  | cons c s ih =>
      rw [toAsciiLowercase, List.map_cons, byteLen_cons, byteLen_cons, utf8Size_toLower, ← ih]
      rfl

theorem byteLen_normalize_le (name : Str) : byteLen (normalize name) ≤ byteLen name := by
  rw [normalize, byteLen_toAsciiLowercase]
  exact byteLen_trimDots_le name

theorem splitOn_toAsciiLowercase (s : Str) :
    (toAsciiLowercase s).splitOn '.' = (s.splitOn '.').map toAsciiLowercase := by
  induction s with
  | nil => rfl
  | cons c s ih =>
      rw [toAsciiLowercase, List.map_cons, List.splitOn_cons_eq_if_modifyHead, List.splitOn_cons_eq_if_modifyHead]
      change (if (c.toLower == '.') = true then [] :: (toAsciiLowercase s).splitOn '.'
        else ((toAsciiLowercase s).splitOn '.').modifyHead (List.cons c.toLower)) = _
      rw [ih]
      by_cases hdot : c = '.'
      · rw [if_pos (beq_iff_eq.mpr ((toLower_eq_dot c).mpr hdot)), if_pos (beq_iff_eq.mpr hdot)]
        rfl
      · rw [if_neg (mt beq_iff_eq.mp (mt (toLower_eq_dot c).mp hdot)), if_neg (mt beq_iff_eq.mp hdot)]
        cases s.splitOn '.' with
        | nil => rfl
        | cons label labels => rfl

/-- A name without a problem is writable in its stored form. -/
theorem writable_of_nameProblem {name : Str} (h : nameProblem name = none) : Writable (normalize name) := by
  unfold nameProblem at h
  dsimp only at h
  split at h
  · cases h
  · split at h
    · cases h
    · rename_i hlen
      refine Or.inr ⟨?_, by rw [normalize, byteLen_toAsciiLowercase]; exact Nat.not_lt.mp hlen⟩
      intro label hlabel
      rw [normalize, splitOn_toAsciiLowercase] at hlabel
      obtain ⟨declared, hmem, rfl⟩ := List.mem_map.mp hlabel
      have hok := List.findSome?_eq_none_iff.mp h declared hmem
      unfold labelProblem at hok
      split at hok
      · cases hok
      · rename_i hne
        split at hok
        · cases hok
        · rename_i hlong
          exact ⟨fun hnil => hne (toAsciiLowercase_eq_nil.mp hnil),
            by rw [byteLen_toAsciiLowercase]; exact Nat.not_lt.mp hlong⟩

/-! ## Messages that are read back -/

/-- A record of a zone, with names in their stored form. -/
structure Stored (record : Record) : Prop where
  name : trimDots record.name = record.name
  targets : ∀ target ∈ targetsOf record.data, trimDots target = target
  caa : ∀ t bytes, record.data = .unknown t bytes → t = .caa

/-- A name that is accepted is readable when something was read from it. -/
theorem readable_of_accepted {buffer : Bytes} {i : Nat} {name : Str} (htrim : trimDots name = name)
    (haccepted : (writeName name).2 = .ok ()) (hat : At buffer i (writeName name).1)
    (hread : readName buffer i ≠ .error .nameTooLong) : Readable name :=
  readable_of_written ((writeName_ok_of_trimmed htrim).mp haccepted) hat hread

theorem ne_nameTooLong_of_bind {α : Type} {x : Except WireError (Str × Nat)} {f : Str × Nat → Except WireError α} {a : α}
    (h : x.bind f = .ok a) : x ≠ .error .nameTooLong := by
  rintro rfl
  cases h

theorem ne_nameTooLong_of_map {α : Type} {x : Except WireError (Str × Nat)} {f : Str × Nat → α} {a : α}
    (h : x.map f = .ok a) : x ≠ .error .nameTooLong := by
  rintro rfl
  cases h

theorem writeName_pos {name : Str} (htrim : trimDots name = name) (haccepted : (writeName name).2 = .ok ()) :
    0 < (writeName name).1.length := length_writeName_pos_of_ok ((writeName_ok_of_trimmed htrim).mp haccepted)

/-- A payload that was read where it was written, with accepted names in it, is one that the decoder reads. -/
theorem dataOk_of_readData {buffer : Bytes} {position : Nat} {nameType : RecordType} {record : Record}
    {read : RecordData} (hname : nameType = .ns ∨ nameType = .cname) (hat : At buffer position (writeRdata record.data))
    (hsize : (writeRdata record.data).length < 2 ^ 16) (hstored : Stored record) (haccepted : NamesAccepted record)
    (h : readData buffer position (.fromCode (wireType nameType record.data).code) (writeRdata record.data) =
      .ok read) : DataOk record.data := by
  obtain ⟨owner, ttl, data⟩ := record
  have htrim := hstored.targets
  have hok := haccepted.2
  dsimp only at hat hsize htrim hok h ⊢
  cases data with
  | a ip => trivial
  | aaaa ip => trivial
  | name target =>
      refine readable_of_accepted (htrim target List.mem_cons_self) (hok target List.mem_cons_self) hat ?_
      rcases hname with rfl | rfl
      · exact ne_nameTooLong_of_map h
      · exact ne_nameTooLong_of_map h
  | mx preference exchange =>
      have hpos := writeName_pos (htrim exchange List.mem_cons_self) (hok exchange List.mem_cons_self)
      refine readable_of_accepted (htrim exchange List.mem_cons_self) (hok exchange List.mem_cons_self) hat.right ?_
      change readData _ _ .mx _ = _ at h
      rw [readData, if_pos (by rw [writeRdata, List.length_append, length_be16]; omega)] at h
      exact ne_nameTooLong_of_map h
  | txt text => exact hsize
  | soa soa =>
      rw [writeRdata] at hat
      have hpos := writeName_pos (htrim soa.primary List.mem_cons_self) (hok soa.primary List.mem_cons_self)
      have hpos' := writeName_pos (htrim soa.responsible (List.mem_cons_of_mem _ List.mem_cons_self))
        (hok soa.responsible (List.mem_cons_of_mem _ List.mem_cons_self))
      change readData _ _ .soa _ = _ at h
      rw [readData, if_pos (by simp only [writeRdata, List.length_append]; omega)] at h
      have hprimary : Readable soa.primary := readable_of_accepted (htrim soa.primary List.mem_cons_self)
        (hok soa.primary List.mem_cons_self) hat.left.left (ne_nameTooLong_of_bind h)
      rw [readName_at hprimary hat.left.left] at h
      exact ⟨hprimary, readable_of_accepted (htrim soa.responsible (List.mem_cons_of_mem _ List.mem_cons_self))
        (hok soa.responsible (List.mem_cons_of_mem _ List.mem_cons_self)) hat.left.right (ne_nameTooLong_of_bind h)⟩
  | srv priority weight port target =>
      have hpos := writeName_pos (htrim target List.mem_cons_self) (hok target List.mem_cons_self)
      refine readable_of_accepted (htrim target List.mem_cons_self) (hok target List.mem_cons_self) hat.right ?_
      change readData _ _ .srv _ = _ at h
      rw [readData, if_pos (by simp only [writeRdata, List.length_append, length_be16]; omega)] at h
      exact ne_nameTooLong_of_map h
  | unknown t bytes =>
      rw [hstored.caa t bytes rfl]
      exact ⟨hsize, rfl⟩

/-- A record whose frame is the one that was sent, and that is read, is read where it was written. -/
theorem recordOk_of_sent {buffer : Bytes} {i stop next : Nat} {nameType : RecordType} {record read : Record}
    (hname : nameType = .ns ∨ nameType = .cname) (hstored : Stored record) (haccepted : NamesAccepted record)
    (hat : At buffer i (writeRecord nameType record))
    (hframe : frameAt buffer i = .ok (sentFrame nameType record, stop))
    (hread : readRecord buffer i = .ok (read, next)) :
    RecordOk record ∧ stop = i + (writeRecord nameType record).length ∧
      next = i + (writeRecord nameType record).length := by
  obtain ⟨⟨frame, position, stop'⟩, hreadFrame, heq⟩ := map_ok hframe
  obtain ⟨rfl, rfl⟩ := Prod.mk.inj heq
  have howner := hat
  rw [writeRecord] at howner
  have hreadable : Readable record.name := by
    refine readable_of_accepted hstored.name haccepted.1 howner.left.left ?_
    rw [readFrame] at hreadFrame
    exact ne_nameTooLong_of_bind hreadFrame
  -- the payload of the frame is as long as its header says, so the length fits into 16 bits
  have hsize : (writeRdata record.data).length < 2 ^ 16 := by
    obtain ⟨-, -, hwritten⟩ := readFrame_written hreadable hat
    rw [hwritten] at hreadFrame
    split at hreadFrame
    · cases hreadFrame
    · rename_i payload hslice
      have hpayload : payload = writeRdata record.data :=
        congrArg (fun p : Frame × Nat × Nat => p.1.payload) (Except.ok.inj hreadFrame)
      have hlength := length_of_slice? hslice
      rw [Nat.add_sub_cancel_left, hpayload] at hlength
      rw [hlength]
      exact UInt16.toNat_lt _
  obtain ⟨position', hposition, hframe'⟩ := readFrame_at hreadable hsize hat
  rw [hframe'] at hreadFrame
  have hstop : i + (writeRecord nameType record).length = stop' :=
    congrArg (fun p : Frame × Nat × Nat => p.2.2) (Except.ok.inj hreadFrame)
  rw [readRecord, hframe'] at hread
  obtain ⟨parts, hparts, hread⟩ := bind_ok hread
  cases hparts
  obtain ⟨data, hdata, hrest⟩ := bind_ok hread
  exact ⟨⟨hreadable, dataOk_of_readData hname hposition hsize hstored haccepted hdata⟩, hstop.symm,
    (Prod.mk.inj (Except.ok.inj hrest)).2.symm⟩

/-- A section whose frames are the ones that were sent, and whose records are read, is read where it was written. -/
theorem section_of_sent {buffer : Bytes} {i j j' : Nat} {nameType : RecordType} {records reads : List Record}
    (hname : nameType = .ns ∨ nameType = .cname) (hstored : ∀ record ∈ records, Stored record)
    (haccepted : ∀ record ∈ records, NamesAccepted record) (hat : At buffer i (records.flatMap (writeRecord nameType)))
    (hframes : readMany (frameAt buffer) records.length i = .ok (records.map (sentFrame nameType), j))
    (hreads : readMany (readRecord buffer) records.length i = .ok (reads, j')) :
    (∀ record ∈ records, RecordOk record) ∧ j = i + (records.flatMap (writeRecord nameType)).length ∧ j' = j := by
  induction records generalizing i reads with
  | nil =>
      cases hframes
      cases hreads
      exact ⟨fun _ hmem => absurd hmem List.not_mem_nil, rfl, rfl⟩
  | cons record records ih =>
      rw [List.flatMap_cons] at hat ⊢
      rw [List.length_cons, readMany] at hframes hreads
      split at hframes
      · cases hframes
      · rename_i frame stop hframe
        obtain ⟨⟨frames, k⟩, hframes, heq⟩ := map_ok hframes
        obtain ⟨hlist, rfl⟩ := Prod.mk.inj heq
        obtain ⟨rfl, rfl⟩ := List.cons.inj hlist
        split at hreads
        · cases hreads
        · rename_i read next hread
          obtain ⟨⟨rest, k'⟩, hrestReads, heq'⟩ := map_ok hreads
          obtain ⟨-, rfl⟩ := Prod.mk.inj heq'
          obtain ⟨hok, rfl, rfl⟩ := recordOk_of_sent hname (hstored record List.mem_cons_self)
            (haccepted record List.mem_cons_self) hat.left hframe hread
          obtain ⟨hrest, hj, hj'⟩ := ih (fun other hmem => hstored other (List.mem_cons_of_mem _ hmem))
            (fun other hmem => haccepted other (List.mem_cons_of_mem _ hmem)) hat.right hframes hrestReads
          refine ⟨List.forall_mem_cons.mpr ⟨hok, hrest⟩, ?_, hj'⟩
          rw [hj, List.length_append, Nat.add_assoc]

theorem mem_contents_of_carried {query : Query} {zone : Zone} {overTcp : Bool} {record : Record}
    (h : record ∈ (carried query zone overTcp).answers ∨ record ∈ (carried query zone overTcp).authority ∨
      record ∈ (carried query zone overTcp).additional) : record ∈ zone.contents := by
  obtain ⟨h₁, h₂, h₃⟩ := carried_subset query zone overTcp
  have hmem : record ∈ (resolve zone query).answers ++ (resolve zone query).authority ++
      (resolve zone query).additional := by
    simp only [List.mem_append]
    rcases h with h | h | h
    · exact Or.inl (Or.inl (h₁ h))
    · exact Or.inl (Or.inr (h₂ h))
    · exact Or.inr (h₃ h)
  rw [Zone.contents, List.mem_cons, List.mem_append]
  exact mem_resolve hmem

/-- The count in the header of a section that is read whole is its length. -/
theorem count_of_frames {buffer : Bytes} {i j : Nat} {nameType : RecordType} {records : List Record}
    (h : readMany (frameAt buffer) (UInt16.ofNat records.length).toNat i = .ok (records.map (sentFrame nameType), j)) :
    records.length < 2 ^ 16 ∧ (UInt16.ofNat records.length).toNat = records.length := by
  have hlength := length_readMany h
  rw [List.length_map] at hlength
  refine ⟨?_, hlength.symm⟩
  rw [hlength]
  exact UInt16.toNat_lt _

/-- The sections of a reply are read with their types. -/
theorem readSections_respond {query : Query} {zone : Zone} {overTcp : Bool} (hquery : Readable query.name)
    (hok : (carried query zone overTcp).Ok) :
    readSections (respond query (some zone) overTcp) =
      .ok ⟨(carried query zone overTcp).answers.map (sentFrame (answerNameType query)),
        (carried query zone overTcp).authority.map (sentFrame .ns),
        (carried query zone overTcp).additional.map (sentFrame .ns)⟩ := by
  rw [respond_some]
  exact readSections_encodeResponse hquery hok.answers hok.authority hok.additional hok.counts

/-- A reply about a readable name is read back exactly when its records are read where they are written. -/
theorem readBack_iff {query : Query} {zone : Zone} {overTcp : Bool} (hquery : Readable query.name)
    (hstored : ∀ record ∈ zone.contents, Stored record) (haccepted : ∀ record ∈ zone.contents, NamesAccepted record) :
    ReadBack query zone overTcp ↔ (carried query zone overTcp).Ok := by
  constructor
  · rintro ⟨⟨response, hwhole⟩, hsections⟩
    rw [respond_some] at hwhole hsections
    have hparts := @encodeResponse_parts query (resolve zone query).code ⟨true, decide (TooLong query zone overTcp)⟩
      (carried query zone overTcp).answers (carried query zone overTcp).authority
      (carried query zone overTcp).additional
    dsimp only at hparts
    generalize encodeResponse query _ _ _ _ _ = message at hparts hwhole hsections
    obtain ⟨hheader, hq, h₁, h₂, h₃, -⟩ := hparts
    obtain ⟨-, -, -, hone, hn₁, hn₂, hn₃⟩ := readHeader_encode hheader
    obtain ⟨questions, p₁, p₂, p₃, hquestions, hread₁, hread₂, hread₃⟩ := hwhole.whole
    rw [readQuestions_at hquery hone hq] at hquestions
    cases hquestions
    rw [readSections, readQuestions_at hquery hone hq] at hsections
    obtain ⟨start, hstart, hsections⟩ := bind_ok hsections
    cases hstart
    obtain ⟨⟨frames₁, q₁⟩, hframes₁, hsections⟩ := bind_ok hsections
    obtain ⟨⟨frames₂, q₂⟩, hframes₂, hsections⟩ := bind_ok hsections
    obtain ⟨⟨frames₃, q₃⟩, hframes₃, hsections⟩ := bind_ok hsections
    obtain ⟨rfl, rfl, rfl⟩ := Sections.mk.inj (Except.ok.inj hsections)
    rw [hn₁] at hframes₁ hread₁
    rw [hn₂] at hframes₂ hread₂
    rw [hn₃] at hframes₃ hread₃
    obtain ⟨hc₁, hcount₁⟩ := count_of_frames hframes₁
    obtain ⟨hc₂, hcount₂⟩ := count_of_frames hframes₂
    obtain ⟨hc₃, hcount₃⟩ := count_of_frames hframes₃
    rw [hcount₁] at hframes₁ hread₁
    rw [hcount₂] at hframes₂ hread₂
    rw [hcount₃] at hframes₃ hread₃
    obtain ⟨hok₁, rfl, rfl⟩ := section_of_sent (answerNameType_cases query)
      (fun record hmem => hstored record (mem_contents_of_carried (Or.inl hmem)))
      (fun record hmem => haccepted record (mem_contents_of_carried (Or.inl hmem))) h₁ hframes₁ hread₁
    obtain ⟨hok₂, rfl, rfl⟩ := section_of_sent (Or.inl rfl)
      (fun record hmem => hstored record (mem_contents_of_carried (Or.inr (Or.inl hmem))))
      (fun record hmem => haccepted record (mem_contents_of_carried (Or.inr (Or.inl hmem)))) h₂ hframes₂ hread₂
    obtain ⟨hok₃, -, -⟩ := section_of_sent (Or.inl rfl)
      (fun record hmem => hstored record (mem_contents_of_carried (Or.inr (Or.inr hmem))))
      (fun record hmem => haccepted record (mem_contents_of_carried (Or.inr (Or.inr hmem)))) h₃ hframes₃ hread₃
    exact ⟨hok₁, hok₂, hok₃, hc₁, hc₂, hc₃⟩
  · intro hok
    refine ⟨respond_whole hquery ?_, ?_⟩
    · intro z hz
      cases hz
      exact hok
    · exact readSections_respond hquery hok

/-! ## Zones that are read back -/

/-- A record whose names are accepted, and that is read where it is written when its owner is short enough to be asked
for. -/
def Sendable (record : Record) : Prop :=
  NamesAccepted record ∧ (byteLen record.name < maxName → DataOk record.data)

theorem Sendable.recordOk {record : Record} (h : Sendable record) (hstored : Stored record)
    (hname : byteLen record.name < maxName) : RecordOk record :=
  ⟨readable_iff.mpr ⟨(writeName_ok_of_trimmed hstored.name).mp h.1.1, hname⟩, h.2 hname⟩

section

variable {zone : Zone} (hstored : ∀ record ∈ zone.contents, Stored record)
  (hsendable : ∀ record ∈ zone.contents, Sendable record)

include hstored hsendable

/-- An answer for a name that is short enough is made of records that are read where they are written: an alias that is
followed has a readable target. -/
theorem recordOk_of_answerWithin {t : RecordType} {hops : Nat} {qname : Str} {record : Record}
    (hname : byteLen (normalize qname) < maxName) (h : record ∈ zone.answerWithin t hops qname) : RecordOk record := by
  have hheld : ∀ {q : Str}, byteLen q < maxName → ∀ record ∈ zone.records, record.name = q → RecordOk record := by
    rintro q hq record hmem rfl
    have hcontents : record ∈ zone.contents := List.mem_cons_of_mem _ (List.mem_append_right _ hmem)
    exact (hsendable record hcontents).recordOk (hstored record hcontents) hq
  have hdirect : ∀ {qname : Str}, byteLen (normalize qname) < maxName →
      record ∈ zone.direct (normalize qname) t → RecordOk record := by
    intro qname hq hmem
    obtain ⟨hrecord, his⟩ := List.mem_filter.mp hmem
    exact hheld hq record hrecord (of_decide_eq_true his).1
  induction hops generalizing qname with
  | zero =>
      rw [Zone.answerWithin] at h
      split at h
      · exact hdirect hname h
      · split at h
        · cases h
        · cases h
  | succ hops ih =>
      rw [Zone.answerWithin] at h
      split at h
      · exact hdirect hname h
      · split at h
        · split at h
          · cases h
          · rename_i link halias
            have hlink : RecordOk link := hheld hname link (List.mem_of_find?_eq_some halias) (by
              have his := List.find?_some halias
              exact (of_decide_eq_true his).1)
            split at h
            · rename_i target hdata
              rcases List.mem_cons.mp h with rfl | h
              · exact hlink
              · have htarget := hlink.2
                rw [hdata] at htarget
                exact ih (Nat.lt_of_le_of_lt (byteLen_normalize_le target) (readable_iff.mp htarget).2) h
            · rw [List.mem_singleton.mp h]
              exact hlink
        · cases h

theorem recordOk_of_glue {sources : List Record} (hsources : ∀ source ∈ sources, RecordOk source) {record : Record}
    (h : record ∈ glue zone sources) : RecordOk record := by
  obtain ⟨source, hsource, target, htarget, -, hanswer⟩ := mem_glue.mp h
  have hreadable : Readable target := by
    have hdata := (hsources source hsource).2
    generalize source.data = data at htarget hdata
    cases data with
    | name name =>
        cases htarget
        exact hdata
    | mx preference exchange =>
        cases htarget
        exact hdata
    | _ => cases htarget
  have hname := Nat.lt_of_le_of_lt (byteLen_normalize_le target) (readable_iff.mp hreadable).2
  exact hanswer.elim (recordOk_of_answerWithin hstored hsendable hname)
    (recordOk_of_answerWithin hstored hsendable hname)

/-- A resolution for a readable name of the zone is made of records that are read where they are written. -/
theorem resolve_ok {query : Query} (hquery : Readable query.name) (hcontains : zone.contains query.name = true)
    (hcounts : (resolve zone query).answers.length < 2 ^ 16 ∧ (resolve zone query).authority.length < 2 ^ 16 ∧
      (resolve zone query).additional.length < 2 ^ 16) : (resolve zone query).Ok := by
  have hname := Nat.lt_of_le_of_lt (byteLen_normalize_le query.name) (readable_iff.mp hquery).2
  have horigin : byteLen zone.origin < maxName := by
    rcases of_decide_eq_true hcontains with heq | ⟨front, heq⟩
    · rwa [← heq]
    · rw [← heq, byteLen_append, byteLen_cons] at hname
      omega
  have hapex : ∀ record, record = zone.soaRecord ∨ record ∈ zone.nsRecords → RecordOk record := by
    intro record hrecord
    have hcontents : record ∈ zone.contents := by
      rw [Zone.contents, List.mem_cons, List.mem_append]
      exact hrecord.imp_right Or.inl
    refine (hsendable record hcontents).recordOk (hstored record hcontents) ?_
    rcases hrecord with rfl | hns
    · exact horigin
    · obtain ⟨server, -, rfl⟩ := List.mem_map.mp hns
      exact horigin
  have hanswers : ∀ record ∈ zone.answer query.name query.recordType, RecordOk record := fun record hmem =>
    recordOk_of_answerWithin hstored hsendable hname hmem
  refine ⟨?_, fun record hmem => hapex record (mem_resolve_authority hmem), ?_, hcounts⟩
  · intro record hmem
    rcases mem_resolve_answers hmem with hsoa | ⟨-, hns⟩ | hanswer
    · exact hapex record (Or.inl hsoa)
    · exact hapex record (Or.inr hns)
    · exact hanswers record hanswer
  · intro record hmem
    rcases mem_resolve_additional hmem with hglue | hglue
    · exact recordOk_of_glue hstored hsendable (fun source hsource => hapex source (Or.inr hsource)) hglue
    · exact recordOk_of_glue hstored hsendable hanswers hglue

end

/-- The replies about a zone whose names are accepted are read back exactly when its records are sendable and no section
outgrows its count. -/
theorem replies_iff {zone : Zone} (hstored : ∀ record ∈ zone.contents, Stored record)
    (haccepted : ∀ record ∈ zone.contents, NamesAccepted record)
    (hplain : ∀ record ∈ zone.records, isTransfer (dataType record.data) = false ∧ dataType record.data ≠ .soa ∧
      dataType record.data ≠ .ns)
    (hnames : ∀ record ∈ zone.records, normalize record.name = record.name) :
    (∀ query overTcp, Readable query.name → zone.contains query.name = true → ReadBack query zone overTcp) ↔
      (∀ record ∈ zone.contents, Sendable record) ∧
        ∀ query, Readable query.name → zone.contains query.name = true →
          (resolve zone query).answers.length < 2 ^ 16 ∧ (resolve zone query).authority.length < 2 ^ 16 ∧
            (resolve zone query).additional.length < 2 ^ 16 := by
  constructor
  · intro h
    have hfull : ∀ query, Readable query.name → zone.contains query.name = true → (resolve zone query).Ok := by
      intro query hquery hcontains
      have hok := (readBack_iff hquery hstored haccepted).mp (h query true hquery hcontains)
      rwa [carried_of_fits fun hlong => absurd hlong.1 (by decide)] at hok
    have hreadable : ∀ record ∈ zone.contents, byteLen record.name < maxName → Readable record.name := by
      intro record hmem hshort
      exact readable_iff.mpr ⟨(writeName_ok_of_trimmed (hstored record hmem).name).mp (haccepted record hmem).1, hshort⟩
    refine ⟨?_, fun query hquery hcontains => (hfull query hquery hcontains).counts⟩
    intro record hmem
    refine ⟨haccepted record hmem, fun hshort => ?_⟩
    have hname := hreadable record hmem hshort
    have hcases := hmem
    rw [Zone.contents, List.mem_cons, List.mem_append] at hcases
    have hself : zone.contains zone.origin = true := decide_eq_true (Or.inl zone.origin_stored)
    rcases hcases with rfl | hns | hrecord
    · have hok := hfull ⟨0, zone.origin, .soa, false⟩ hname hself
      rw [resolve_soa] at hok
      exact (hok.answers _ List.mem_cons_self).2
    · have howner : record.name = zone.origin := by
        obtain ⟨server, -, rfl⟩ := List.mem_map.mp hns
        rfl
      rw [howner] at hname
      have hok := hfull ⟨0, zone.origin, .soa, false⟩ hname hself
      rw [resolve_soa] at hok
      exact (hok.authority record hns).2
    · obtain ⟨htransfer, hapex⟩ := hplain record hrecord
      have hcontains : zone.contains record.name = true := by
        refine decide_eq_true ?_
        rw [hnames record hrecord]
        exact (zone.names_stored record hrecord).2
      have hok := hfull ⟨0, record.name, dataType record.data, false⟩ hname hcontains
      exact (hok.answers record
        (mem_answers_of_held hrecord (hnames record hrecord).symm rfl htransfer hapex)).2
  · rintro ⟨hsendable, hcounts⟩ query overTcp hquery hcontains
    rw [readBack_iff hquery hstored haccepted]
    exact (resolve_ok hstored hsendable hquery hcontains (hcounts query hquery hcontains)).carried

end Selfhost.Dns
