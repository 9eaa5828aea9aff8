import Selfhost.Dns.Lemmas.Message
import Selfhost.Dns.Lemmas.Resolve

/-!
# Replies on the wire

Every reply has the id of its query, and over UDP at most 512 bytes and a true truncation bit. It is decoded whole and
repeats the question when the name that was asked for has no empty label and the records that are sent are readable.
-/

namespace Selfhost.Dns

open Selfhost.Lib

variable {raw : Bytes} {query : Query} {zone : Option Zone} {overTcp : Bool}

/-- The truncation bit. -/
def isTruncated (message : Bytes) : Bool := message.getD 2 0 &&& 0x02 ≠ 0

/-- A reply is a well-formed answer to the question of a datagram. -/
structure WellFormed (raw : Bytes) (query : Query) (zone : Option Zone) (overTcp : Bool) : Prop where
  whole : ∃ response, DecodedWhole (respond query zone overTcp) response
  id : u16At (respond query zone overTcp) 0 = u16At raw 0
  question : questionOf (respond query zone overTcp) = questionOf raw
  fits : overTcp = false → (respond query zone overTcp).length ≤ maxUdpResponse
  truncated : overTcp = false →
    (isTruncated (respond query zone overTcp) = true ↔ maxUdpResponse < (respond query zone true).length)

/-- A name without empty labels. -/
def CleanName (name : Str) : Prop := name = [] ∨ ∀ label ∈ name.splitOn '.', label ≠ []

/-- A message over UDP that would be longer than the limit. -/
def TooLong (query : Query) (zone : Zone) (overTcp : Bool) : Prop :=
  overTcp = false ∧ maxUdpResponse < (fullReply query zone).length

instance (query : Query) (zone : Zone) (overTcp : Bool) : Decidable (TooLong query zone overTcp) :=
  inferInstanceAs (Decidable (_ ∧ _))

/-- The sections that are sent: those of the resolution, and of one that is too long only as many as fit. -/
def carried (query : Query) (zone : Zone) (overTcp : Bool) : Resolution :=
  let r := resolve zone query
  if ¬TooLong query zone overTcp then r
  else if (encodeResponse query r.code ⟨true, true⟩ [] r.authority r.additional).length ≤ maxUdpResponse then
    ⟨r.code, [], r.authority, r.additional⟩
  else ⟨r.code, [], [], []⟩

/-- Records that are read where they are written, fewer than 2 ^ 16 in a section. -/
structure Resolution.Ok (r : Resolution) : Prop where
  answers : ∀ record ∈ r.answers, RecordOk record
  authority : ∀ record ∈ r.authority, RecordOk record
  additional : ∀ record ∈ r.additional, RecordOk record
  counts : r.answers.length < 2 ^ 16 ∧ r.authority.length < 2 ^ 16 ∧ r.additional.length < 2 ^ 16

/-! ## Every reply -/

theorem carried_of_fits {z : Zone} (h : ¬TooLong query z overTcp) : carried query z overTcp = resolve z query := if_pos h

/-- The sections of a reply are those of the resolution, without the answers or without any when it is too long. -/
theorem carried_cases (query : Query) (z : Zone) (overTcp : Bool) :
    (¬TooLong query z overTcp ∧ carried query z overTcp = resolve z query) ∨
      TooLong query z overTcp ∧
        (carried query z overTcp =
            ⟨(resolve z query).code, [], (resolve z query).authority, (resolve z query).additional⟩ ∨
          carried query z overTcp = ⟨(resolve z query).code, [], [], []⟩) := by
  by_cases h : TooLong query z overTcp
  · refine Or.inr ⟨h, ?_⟩
    unfold carried
    dsimp only
    rw [if_neg (not_not_intro h)]
    split
    · exact Or.inl rfl
    · exact Or.inr rfl
  · exact Or.inl ⟨h, carried_of_fits h⟩

theorem carried_subset (query : Query) (z : Zone) (overTcp : Bool) :
    (carried query z overTcp).answers ⊆ (resolve z query).answers ∧
      (carried query z overTcp).authority ⊆ (resolve z query).authority ∧
      (carried query z overTcp).additional ⊆ (resolve z query).additional := by
  obtain ⟨-, heq⟩ | ⟨-, heq | heq⟩ := carried_cases query z overTcp
  · rw [heq]
    exact ⟨fun _ h => h, fun _ h => h, fun _ h => h⟩
  · rw [heq]
    exact ⟨List.nil_subset _, fun _ h => h, fun _ h => h⟩
  · rw [heq]
    exact ⟨List.nil_subset _, List.nil_subset _, List.nil_subset _⟩

theorem Resolution.Ok.carried {z : Zone} (h : (resolve z query).Ok) : (carried query z overTcp).Ok := by
  have hnone : ∀ record ∈ ([] : List Record), RecordOk record := fun _ hmem => absurd hmem List.not_mem_nil
  have hzero : ([] : List Record).length < 2 ^ 16 := by decide
  obtain ⟨-, heq⟩ | ⟨-, heq | heq⟩ := carried_cases query z overTcp
  · rw [heq]
    exact h
  · rw [heq]
    exact ⟨hnone, h.authority, h.additional, hzero, h.counts.2⟩
  · rw [heq]
    exact ⟨hnone, hnone, hnone, hzero, hzero, hzero⟩

/-- A reply is one message about the query, with the sections that are sent and a true truncation bit. -/
theorem respond_some (query : Query) (z : Zone) (overTcp : Bool) :
    respond query (some z) overTcp =
      encodeResponse query (resolve z query).code ⟨true, decide (TooLong query z overTcp)⟩
        (carried query z overTcp).answers (carried query z overTcp).authority (carried query z overTcp).additional := by
  unfold respond carried
  dsimp only
  by_cases hfits : (overTcp || decide ((fullReply query z).length ≤ maxUdpResponse)) = true
  · have hshort : ¬TooLong query z overTcp := by
      rintro ⟨rfl, hlong⟩
      rw [Bool.false_or, decide_eq_true_eq] at hfits
      exact Nat.not_lt.mpr hfits hlong
    rw [if_pos hfits, if_pos hshort, decide_eq_false hshort]
    rfl
  · have hlong : TooLong query z overTcp := by
      simpa [TooLong] using hfits
    rw [if_neg hfits, if_neg (not_not_intro hlong), decide_eq_true hlong]
    split
    · rfl
    · rfl

theorem decodeQuery_ok (h : decodeQuery raw = .ok query) :
    ¬raw.length < 12 ∧ u16At raw 4 ≠ 0 ∧ query.id = u16At raw 0 ∧
      ∃ next, readName raw 12 = .ok (query.name, next) ∧ readType raw next = .ok query.recordType := by
  unfold decodeQuery at h
  split at h
  · cases h
  · rename_i hlength
    split at h
    · cases h
    · rename_i hcount
      obtain ⟨⟨name, next⟩, hname, h⟩ := bind_ok h
      obtain ⟨recordType, htype, h⟩ := bind_ok h
      cases h
      exact ⟨hlength, hcount, rfl, next, hname, htype⟩

theorem questionOf_raw (h : decodeQuery raw = .ok query) :
    questionOf raw = .ok (some (query.name, query.recordType)) := by
  obtain ⟨hlength, hcount, -, next, hname, htype⟩ := decodeQuery_ok h
  rw [questionOf, if_neg hlength, if_neg hcount, hname]
  dsimp only [bind, Except.bind]
  rw [htype]
  rfl

theorem RecordType.code_fromCode (code : UInt16) : (fromCode code).code = code := by
  unfold fromCode
  iterate 10 refine iteInduction (motive := fun type : RecordType => type.code = code) Eq.symm fun _ => ?_
  rfl

/-- The type of a query is one that its code stands for. -/
theorem fromCode_query (h : decodeQuery raw = .ok query) : RecordType.fromCode query.recordType.code = query.recordType := by
  obtain ⟨-, -, -, next, -, htype⟩ := decodeQuery_ok h
  unfold readType at htype
  split at htype
  · cases htype
  · rw [← Except.ok.inj htype, RecordType.code_fromCode]

theorem u16At_encodeResponse {code : ResponseCode} {flags : ResponseFlags} {answers authority additional : List Record} :
    u16At (encodeResponse query code flags answers authority additional) 0 = query.id := by
  have hparts := @encodeResponse_parts query code flags answers authority additional
  exact (readHeader_encode hparts.1).1

theorem isTruncated_encodeResponse {code : ResponseCode} {flags : ResponseFlags}
    {answers authority additional : List Record} :
    isTruncated (encodeResponse query code flags answers authority additional) = flags.truncated := by
  have hparts := @encodeResponse_parts query code flags answers authority additional
  rw [isTruncated, (readHeader_encode hparts.1).2.1, flagsHigh]
  obtain ⟨authoritative, truncated⟩ := flags
  cases authoritative <;> cases truncated <;> cases query.recursionDesired <;> decide

theorem length_bare {code : ResponseCode} {flags : ResponseFlags} :
    (encodeResponse query code flags [] [] []).length ≤ maxUdpResponse := by
  have hparts := (@encodeResponse_parts query code flags [] [] []).2.2.2.2.2
  have hname := length_writeName_le_max query.name
  rw [hparts]
  simp only [writeQuestion, List.flatMap_nil, List.length_nil, List.length_append, length_be16]
  unfold maxName at hname
  unfold maxUdpResponse
  omega

theorem respond_id (query : Query) (zone : Option Zone) (overTcp : Bool) :
    u16At (respond query zone overTcp) 0 = query.id := by
  cases zone with
  | none => exact u16At_encodeResponse
  | some z =>
      rw [respond_some]
      exact u16At_encodeResponse

theorem respond_fits (query : Query) (zone : Option Zone) : (respond query zone false).length ≤ maxUdpResponse := by
  cases zone with
  | none => exact length_bare
  | some z =>
      unfold respond
      dsimp only
      split
      · rename_i hfits
        rwa [Bool.false_or, decide_eq_true_eq] at hfits
      · split
        · assumption
        · exact length_bare

theorem respond_truncated (query : Query) (zone : Option Zone) :
    isTruncated (respond query zone false) = true ↔ maxUdpResponse < (respond query zone true).length := by
  cases zone with
  | none =>
      have hbare := @length_bare query .refused plainFlags
      change isTruncated (encodeResponse query .refused plainFlags [] [] []) = true ↔ _
      rw [isTruncated_encodeResponse]
      exact ⟨fun h => absurd h Bool.false_ne_true, fun h => absurd hbare (Nat.not_le.mpr h)⟩
  | some z =>
      have htcp : respond query (some z) true = fullReply query z := rfl
      rw [htcp, respond_some, isTruncated_encodeResponse, decide_eq_true_eq]
      exact ⟨fun h => h.2, fun h => ⟨rfl, h⟩⟩

/-! ## Readable names -/

theorem readable_query (h : decodeQuery raw = .ok query) (hclean : CleanName query.name) : Readable query.name := by
  obtain ⟨-, -, -, next, hname, -⟩ := decodeQuery_ok h
  exact readable_of_readName hname hclean

theorem respond_whole (hquery : Readable query.name) (hzone : ∀ z, zone = some z → (carried query z overTcp).Ok) :
    ∃ response, DecodedWhole (respond query zone overTcp) response := by
  cases zone with
  | none =>
      have hnone : ∀ record ∈ ([] : List Record), RecordOk record := fun _ hmem => absurd hmem List.not_mem_nil
      have hzero : ([] : List Record).length < 2 ^ 16 := by decide
      exact decodedWhole_encodeResponse hquery hnone hnone hnone ⟨hzero, hzero, hzero⟩
  | some z =>
      have hok := hzone z rfl
      rw [respond_some]
      exact decodedWhole_encodeResponse hquery hok.answers hok.authority hok.additional hok.counts

theorem respond_question (h : decodeQuery raw = .ok query) (hclean : CleanName query.name) :
    questionOf (respond query zone overTcp) = questionOf raw := by
  have hquery := readable_query h hclean
  rw [questionOf_raw h]
  cases zone with
  | none => exact (questionOf_encodeResponse hquery).trans (by rw [fromCode_query h])
  | some z =>
      rw [respond_some]
      exact (questionOf_encodeResponse hquery).trans (by rw [fromCode_query h])

/-! ## Names with an empty label -/

/-- What a name that is refused half way leaves in front of a zero byte. -/
theorem writeLabels_front (labels : List Str) (tail : Bytes) :
    ∃ rest, (writeLabels labels).1 ++ 0 :: tail =
      (labels.takeWhile (LabelOk ·)).flatMap (fun label => UInt8.ofNat (byteLen label) :: utf8 label) ++ [0] ++ rest := by
  induction labels with
  | nil => exact ⟨0 :: tail, rfl⟩
  | cons label labels ih =>
      obtain ⟨rest, hrest⟩ := ih
      rw [writeLabels]
      split
      · rename_i hbad
        have hnot : ¬LabelOk label := by
          rintro ⟨hne, hle⟩
          rcases hbad with hnil | hlt
          · exact hne hnil
          · exact Nat.not_lt.mpr hle hlt
        rw [List.takeWhile_cons_of_neg (by simpa using hnot)]
        exact ⟨tail, rfl⟩
      · rename_i hgood
        push Not at hgood
        have hok : LabelOk label := hgood
        rw [List.takeWhile_cons_of_pos (by simpa using hok), List.flatMap_cons]
        refine ⟨rest, ?_⟩
        dsimp only
        rw [List.append_assoc, hrest]
        simp

theorem byteLen_trimDots_le (name : Str) : byteLen (trimDots name) ≤ byteLen name := by
  obtain ⟨rest, hrest⟩ := List.rdropWhile_prefix (· == '.') (l := name)
  conv_rhs => rw [← hrest]
  rw [byteLen_append]
  exact Nat.le_add_right _ _

theorem wireLen_takeWhile_le (p : Str → Bool) (labels : List Str) : wireLen (labels.takeWhile p) ≤ wireLen labels := by
  conv_rhs => rw [← List.takeWhile_append_dropWhile (p := p) (l := labels)]
  rw [wireLen_append]
  exact Nat.le_add_right _ _

/-- In front of a zero byte, what was written of a name starts with good labels and an end mark. -/
theorem writeName_front {name : Str} (hlen : byteLen name < maxName) (tail : Bytes) :
    ∃ labels rest, (writeName name).1 ++ 0 :: tail =
        labels.flatMap (fun label => UInt8.ofNat (byteLen label) :: utf8 label) ++ [0] ++ rest ∧
      (∀ label ∈ labels, LabelOk label ∧ '.' ∉ label) ∧ wireLen labels ≤ maxName := by
  rw [writeName]
  have htrimmed := byteLen_trimDots_le name
  split
  · exact ⟨[], 0 :: tail, rfl, fun _ hmem => (by cases hmem), Nat.zero_le _⟩
  · rw [if_neg (by omega)]
    obtain ⟨rest, hrest⟩ := writeLabels_front ((trimDots name).splitOn '.') tail
    refine ⟨_, rest, hrest, ?_, ?_⟩
    · intro label hmem
      exact ⟨by simpa using List.mem_takeWhile_imp hmem,
        not_mem_of_mem_splitOn ((List.takeWhile_subset _) hmem)⟩
    · have hwire := byteLen_intercalate (List.splitOn_ne_nil '.' (trimDots name))
      rw [List.intercalate_splitOn] at hwire
      have := wireLen_takeWhile_le (LabelOk ·) ((trimDots name).splitOn '.')
      omega

/-- A name that the question repeats in front of a zero byte is one of good labels. -/
theorem clean_of_question {code : ResponseCode} {flags : ResponseFlags} {answers authority additional : List Record}
    {t : RecordType} (h : decodeQuery raw = .ok query) (hcode : query.recordType.code.toNat < 256)
    (hquestion : questionOf (encodeResponse query code flags answers authority additional) = .ok (some (query.name, t))) :
    CleanName query.name := by
  have hparts := @encodeResponse_parts query code flags answers authority additional
  have hshort := @not_short_encodeResponse query code flags answers authority additional
  dsimp only at hparts
  generalize encodeResponse query code flags answers authority additional = message at hparts hshort hquestion
  obtain ⟨hheader, hq, -⟩ := hparts
  obtain ⟨-, -, -, hone, -⟩ := readHeader_encode hheader
  obtain ⟨-, -, -, next, hname, -⟩ := decodeQuery_ok h
  have hzero : be16 query.recordType.code = [0, UInt8.ofNat query.recordType.code.toNat] := by
    rw [be16, Nat.div_eq_of_lt hcode]
    rfl
  rw [writeQuestion, hzero] at hq
  obtain ⟨labels, rest, hfront, hlabels, hwire⟩ :=
    writeName_front (of_readName hname).1 (UInt8.ofNat query.recordType.code.toNat :: be16 1)
  have hat : At message 12 (labels.flatMap (fun label => UInt8.ofNat (byteLen label) :: utf8 label) ++ [0] ++ rest) := by
    rw [← hfront]
    exact hq
  have hcount := wireLen_le fun label hmem => (hlabels label hmem).1
  have hread := readName_eq message 12
  rw [Cursor.run_labels (fun label hmem => (hlabels label hmem).1) rfl hat.left (by dsimp only [Cursor.start]; omega)
    (by unfold nameTurns; omega)] at hread
  rw [questionOf, if_neg hshort, if_neg (by rw [hone]; decide), ← Option.some.inj hread] at hquestion
  obtain ⟨found, hfound, hrest⟩ := bind_ok hquestion
  cases hfound
  obtain ⟨type, -, heq⟩ := bind_ok hrest
  have hjoined : query.name = ['.'].intercalate labels := (Prod.mk.inj (Option.some.inj (Except.ok.inj heq))).1.symm
  by_cases hnil : labels = []
  · rw [hnil] at hjoined
    exact Or.inl hjoined
  · refine Or.inr ?_
    rw [hjoined, List.splitOn_intercalate '.' (fun label hmem => (hlabels label hmem).2) hnil]
    exact fun label hmem => (hlabels label hmem).1.1

/-! ## Well-formed replies -/

/-- The reply to a datagram is well formed when the name that was asked for has no empty label and the records that are
sent are read where they are written; for the types below 256 there is no other name it is well formed for. The id, the
length over UDP and the truncation bit are right for every name and zone. -/
theorem reply_wellFormed (raw : Bytes) (query : Query) (zone : Option Zone) (overTcp : Bool)
    (h : decodeQuery raw = .ok query) :
    (CleanName query.name → (∀ z, zone = some z → (carried query z overTcp).Ok) → WellFormed raw query zone overTcp) ∧
      (query.recordType.code.toNat < 256 → WellFormed raw query zone overTcp → CleanName query.name) ∧
      u16At (respond query zone overTcp) 0 = u16At raw 0 ∧ (respond query zone false).length ≤ maxUdpResponse ∧
      (isTruncated (respond query zone false) = true ↔ maxUdpResponse < (respond query zone true).length) := by
  have hid : u16At (respond query zone overTcp) 0 = u16At raw 0 := by
    rw [respond_id, (decodeQuery_ok h).2.2.1]
  refine ⟨?_, ?_, hid, respond_fits query zone, respond_truncated query zone⟩
  · intro hclean hzone
    refine ⟨respond_whole (readable_query h hclean) hzone, hid, respond_question h hclean, ?_, ?_⟩
    · rintro rfl
      exact respond_fits query zone
    · rintro rfl
      exact respond_truncated query zone
  · intro hcode hformed
    have hquestion := hformed.question
    rw [questionOf_raw h] at hquestion
    cases zone with
    | none => exact clean_of_question h hcode hquestion
    | some z =>
        rw [respond_some] at hquestion
        exact clean_of_question h hcode hquestion

/-- A query for the address of `www.example.com`. -/
def wwwDatagram : Bytes :=
  [0, 7, 1, 0, 0, 1, 0, 0, 0, 0, 0, 0, 3] ++ utf8 "www".toList ++ [7] ++ utf8 "example".toList ++ [3] ++
    utf8 "com".toList ++ [0, 0, 1, 0, 1]

/-- The same query with a dot at the end of its first label. -/
def dottedDatagram : Bytes :=
  [0, 7, 1, 0, 0, 1, 0, 0, 0, 0, 0, 0, 4] ++ utf8 "www.".toList ++ [7] ++ utf8 "example".toList ++ [3] ++
    utf8 "com".toList ++ [0, 0, 1, 0, 1]

def exampleZone : Zone := .fromConfig ⟨"example.com".toList, none, [], []⟩ [] 2026010100 (some ⟨203, 0, 113, 7⟩)

instance (name : Str) : Decidable (CleanName name) := inferInstanceAs (Decidable (_ ∨ _))

theorem reply_wellFormed_www :
    ∃ query, decodeQuery wwwDatagram = .ok query ∧ WellFormed wwwDatagram query (some exampleZone) false := by
  refine ⟨⟨7, "www.example.com".toList, .a, true⟩, by decide +kernel, ?_⟩
  refine (reply_wellFormed wwwDatagram _ (some exampleZone) false (by decide +kernel)).1 (by decide +kernel) ?_
  intro z hz
  cases hz
  exact ⟨by decide +kernel, by decide +kernel, by decide +kernel, by decide +kernel⟩

/-- The name `www..example.com` is accepted by `decode_query`. The reply stops in the middle of it: its question is for
another name, and its sections cannot be read. -/
theorem dotted_reply_broken :
    ∃ query, decodeQuery dottedDatagram = .ok query ∧ query.name = "www..example.com".toList ∧
      exampleZone.contains query.name = true ∧
      questionOf (respond query (some exampleZone) false) = .ok (some ("www".toList, .other 256)) ∧
      ¬WellFormed dottedDatagram query (some exampleZone) false := by
  refine ⟨⟨7, "www..example.com".toList, .a, true⟩, by decide +kernel, rfl, by decide +kernel, by decide +kernel, ?_⟩
  intro h
  exact absurd h.question (by decide +kernel)

end Selfhost.Dns
