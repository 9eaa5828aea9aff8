import Selfhost.Dns.Lemmas.Resolve

/-!
# The two faces of the server

What a public peer is told depends on the zones alone. A LAN peer is told the same about a name in a zone, with the LAN
address in the place of the public one, where records that become equal are given once, and where the reply is cut to the
length of a datagram by its own length: `faces` and `cut_on_one_face`.
-/

namespace Selfhost.Dns

open Selfhost.Lib

/-! ## Records given once -/

section

variable {out acc l : List Record}

theorem addMissing_append (out l l' : List Record) : addMissing out (l ++ l') = addMissing (addMissing out l) l' :=
  List.foldl_append

theorem addMissing_cons (out : List Record) (record : Record) (l : List Record) :
    addMissing out (record :: l) = addMissing (if record ∈ out then out else out ++ [record]) l := rfl

theorem addMissing_of_mem {record : Record} (h : record ∈ out) : addMissing out [record] = out := if_pos h

/-- Records that are given once can be given once before they are changed. -/
theorem addMissing_map (f : Record → Record) (out acc l : List Record) :
    addMissing out ((addMissing acc l).map f) = addMissing (addMissing out (acc.map f)) (l.map f) := by
  induction l generalizing acc with
  | nil => rfl
  | cons record l ih =>
      rw [addMissing_cons, ih, List.map_cons]
      have hcons := addMissing_append (addMissing out (acc.map f)) [f record] (l.map f)
      rw [List.singleton_append] at hcons
      rw [hcons]
      congr 1
      split
      · rename_i hmem
        rw [addMissing_of_mem (mem_addMissing.mpr (Or.inr (List.mem_map_of_mem hmem)))]
      · rw [List.map_append, addMissing_append, List.map_singleton]

theorem addMissing_addMissing (out l : List Record) : addMissing out (addMissing [] l) = addMissing out l := by
  have h := addMissing_map id out [] l
  simpa [addMissing] using h

end

/-! ## The addresses that go along -/

/-- The addresses of the hostname that a record names, within the zone. -/
def targetAddresses (zone : Zone) (record : Record) : List Record :=
  match glueTarget record.data with
  | none => []
  | some target => if zone.contains target then zone.answer target .a ++ zone.answer target .aaaa else []

theorem glueOne_eq (zone : Zone) (out : List Record) (record : Record) :
    glueOne zone out record = addMissing out (targetAddresses zone record) := by
  unfold glueOne targetAddresses
  cases glueTarget record.data with
  | none => rfl
  | some target =>
      dsimp only
      split
      · rfl
      · rfl

theorem glue_eq (zone : Zone) (records : List Record) :
    glue zone records = addMissing [] (records.flatMap (targetAddresses zone)) := by
  have hgeneral : ∀ out, records.foldl (glueOne zone) out = addMissing out (records.flatMap (targetAddresses zone)) := by
    induction records with
    | nil => exact fun out => rfl
    | cons record records ih =>
        intro out
        rw [List.foldl_cons, ih, glueOne_eq, List.flatMap_cons, addMissing_append]
  exact hgeneral []

/-! ## The view from the LAN -/

/-- A record as a LAN peer sees it. -/
def toLan (publicIp : Option Ipv4Addr) (lanIp : Ipv4Addr) (record : Record) : Record :=
  if publicIp.any fun ip => record.data = .a ip then { record with data := .a lanIp } else record

variable (zone : Zone) (publicIp : Option Ipv4Addr) (lanIp : Ipv4Addr)

theorem records_lanHorizon : (lanHorizon zone publicIp lanIp).records = zone.records.map (toLan publicIp lanIp) := by
  cases publicIp with
  | none =>
      have hid : toLan none lanIp = id := rfl
      rw [hid, List.map_id]
      rfl
  | some ip => simp [lanHorizon, toLan]

@[simp] theorem origin_lanHorizon : (lanHorizon zone publicIp lanIp).origin = zone.origin := by
  cases publicIp <;> rfl

@[simp] theorem contains_lanHorizon (name : Str) :
    (lanHorizon zone publicIp lanIp).contains name = zone.contains name := by
  cases publicIp <;> rfl

@[simp] theorem soaRecord_lanHorizon : (lanHorizon zone publicIp lanIp).soaRecord = zone.soaRecord := by
  cases publicIp <;> rfl

@[simp] theorem nsRecords_lanHorizon : (lanHorizon zone publicIp lanIp).nsRecords = zone.nsRecords := by
  cases publicIp <;> rfl

theorem nameservers_lanHorizon : (lanHorizon zone publicIp lanIp).nameservers = zone.nameservers := by
  cases publicIp <;> rfl

variable {publicIp lanIp}

@[simp] theorem name_toLan (record : Record) : (toLan publicIp lanIp record).name = record.name := by
  unfold toLan
  split <;> rfl

theorem toLan_of_ne {record : Record} (h : dataType record.data ≠ .a) : toLan publicIp lanIp record = record := by
  unfold toLan
  rw [if_neg]
  cases publicIp with
  | none => exact Bool.false_ne_true
  | some ip =>
      simp only [Option.any_some, decide_eq_true_eq]
      intro heq
      rw [heq] at h
      exact h rfl

@[simp] theorem dataType_toLan (record : Record) : dataType (toLan publicIp lanIp record).data = dataType record.data := by
  by_cases h : dataType record.data = .a
  · unfold toLan
    split
    · rw [h]
      rfl
    · rfl
  · rw [toLan_of_ne h]

theorem glueTarget_of_address {data : RecordData} (h : dataType data = .a) : glueTarget data = none := by
  cases data <;> first
    | rfl
    | cases h

theorem glueTarget_toLan (record : Record) : glueTarget (toLan publicIp lanIp record).data = glueTarget record.data := by
  by_cases h : dataType record.data = .a
  · rw [glueTarget_of_address h, glueTarget_of_address (by rw [dataType_toLan, h])]
  · rw [toLan_of_ne h]

theorem direct_lanHorizon (q : Str) (qtype : RecordType) :
    (lanHorizon zone publicIp lanIp).direct q qtype = (zone.direct q qtype).map (toLan publicIp lanIp) := by
  rw [Zone.direct, records_lanHorizon, List.filter_map, Zone.direct]
  congr 1
  refine List.filter_congr fun record _ => ?_
  simp

theorem alias?_lanHorizon (q : Str) : (lanHorizon zone publicIp lanIp).alias? q = zone.alias? q := by
  rw [Zone.alias?, records_lanHorizon, List.find?_map]
  have hsame : (fun record : Record => decide (record.name = q ∧ dataType record.data = .cname)) ∘
      toLan publicIp lanIp = fun record => decide (record.name = q ∧ dataType record.data = .cname) := by
    funext record
    simp
  rw [hsame, ← Zone.alias?]
  cases halias : zone.alias? q with
  | none => rfl
  | some record =>
      have htype : dataType record.data = .cname := by
        have h := List.find?_some halias
        simp only [decide_eq_true_eq] at h
        exact h.2
      rw [Option.map_some, toLan_of_ne (by rw [htype]; decide)]

theorem answerWithin_lanHorizon (qtype : RecordType) (hops : Nat) (qname : Str) :
    (lanHorizon zone publicIp lanIp).answerWithin qtype hops qname =
      (zone.answerWithin qtype hops qname).map (toLan publicIp lanIp) := by
  induction hops generalizing qname with
  | zero =>
      rw [Zone.answerWithin, Zone.answerWithin, direct_lanHorizon]
      simp only [ne_eq, List.map_eq_nil_iff]
      split
      · rfl
      · split
        · rfl
        · rfl
  | succ hops ih =>
      rw [Zone.answerWithin, Zone.answerWithin, direct_lanHorizon, alias?_lanHorizon]
      simp only [ne_eq, List.map_eq_nil_iff]
      split
      · rfl
      · split
        · cases halias : zone.alias? (normalize qname) with
          | none => rfl
          | some record =>
              have htype : dataType record.data = .cname := by
                have h := List.find?_some halias
                simp only [decide_eq_true_eq] at h
                exact h.2
              have hsame : toLan publicIp lanIp record = record := toLan_of_ne (by rw [htype]; decide)
              dsimp only
              split
              · rw [ih, List.map_cons, hsame]
              · rw [List.map_singleton, hsame]
        · rfl

theorem answer_lanHorizon (qname : Str) (qtype : RecordType) :
    (lanHorizon zone publicIp lanIp).answer qname qtype = (zone.answer qname qtype).map (toLan publicIp lanIp) :=
  answerWithin_lanHorizon zone qtype maxCnameChain qname

theorem nameExists_lanHorizon (qname : Str) :
    (lanHorizon zone publicIp lanIp).nameExists qname = zone.nameExists qname := by
  unfold Zone.nameExists
  rw [origin_lanHorizon, nameservers_lanHorizon, records_lanHorizon]
  dsimp only
  rw [List.any_map]
  simp [Function.comp_def]

theorem targetAddresses_lanHorizon (record : Record) :
    targetAddresses (lanHorizon zone publicIp lanIp) (toLan publicIp lanIp record) =
      (targetAddresses zone record).map (toLan publicIp lanIp) := by
  unfold targetAddresses
  rw [glueTarget_toLan]
  cases glueTarget record.data with
  | none => rfl
  | some target =>
      dsimp only
      rw [contains_lanHorizon]
      split
      · rw [answer_lanHorizon, answer_lanHorizon, List.map_append]
      · rfl

theorem glue_lanHorizon (records : List Record) :
    glue (lanHorizon zone publicIp lanIp) (records.map (toLan publicIp lanIp)) =
      addMissing [] ((records.flatMap (targetAddresses zone)).map (toLan publicIp lanIp)) := by
  rw [glue_eq, List.flatMap_map, List.map_flatMap]
  congr 2
  funext record
  exact targetAddresses_lanHorizon zone record

theorem map_toLan_nsRecords : zone.nsRecords.map (toLan publicIp lanIp) = zone.nsRecords := by
  rw [Zone.nsRecords, List.map_map]
  refine List.map_congr_left fun ns _ => ?_
  exact toLan_of_ne fun h => (nomatch h)

/-- A resolution as a LAN peer sees it: addresses that become equal are given once. -/
def Resolution.toLan (publicIp : Option Ipv4Addr) (lanIp : Ipv4Addr) (r : Resolution) : Resolution where
  code := r.code
  answers := r.answers.map (Dns.toLan publicIp lanIp)
  authority := r.authority.map (Dns.toLan publicIp lanIp)
  additional := addMissing [] (r.additional.map (Dns.toLan publicIp lanIp))

theorem toLan_soaRecord : toLan publicIp lanIp zone.soaRecord = zone.soaRecord := toLan_of_ne fun h => (nomatch h)

theorem glue_nsRecords_lanHorizon :
    glue (lanHorizon zone publicIp lanIp) zone.nsRecords =
      addMissing [] ((glue zone zone.nsRecords).map (toLan publicIp lanIp)) := by
  have h := @glue_lanHorizon zone publicIp lanIp zone.nsRecords
  rw [map_toLan_nsRecords] at h
  rw [h, glue_eq, addMissing_map]
  rfl

/-- What a LAN peer is told is what a public one is told, with the LAN address. -/
theorem resolve_lanHorizon (query : Query) :
    resolve (lanHorizon zone publicIp lanIp) query = (resolve zone query).toLan publicIp lanIp := by
  unfold resolve
  rw [origin_lanHorizon]
  dsimp only
  split
  · rfl
  · split
    · rw [soaRecord_lanHorizon, nsRecords_lanHorizon, glue_nsRecords_lanHorizon, Resolution.toLan]
      dsimp only
      rw [map_toLan_nsRecords, List.map_singleton, toLan_soaRecord]
    · split
      · rw [nsRecords_lanHorizon, glue_nsRecords_lanHorizon, Resolution.toLan]
        dsimp only
        rw [map_toLan_nsRecords, List.map_nil]
      · rw [answer_lanHorizon]
        simp only [ne_eq, List.map_eq_nil_iff]
        split
        · rw [nsRecords_lanHorizon, glue_nsRecords_lanHorizon, glue_lanHorizon, Resolution.toLan]
          dsimp only
          rw [map_toLan_nsRecords, addMissing_addMissing, addMissing_map,
            glue_eq zone (zone.answer query.name query.recordType), addMissing_map]
          rfl
        · rw [soaRecord_lanHorizon, nameExists_lanHorizon, Resolution.toLan]
          dsimp only
          rw [List.map_singleton, toLan_soaRecord]
          rfl

/-- The reply that a resolution makes. -/
def Resolution.message (query : Query) (r : Resolution) : Bytes :=
  encodeResponse query r.code ⟨true, false⟩ r.answers r.authority r.additional

/-- A reply within the length of a datagram: without its answers when it is too long, and without anything when that is
too long too. -/
def Resolution.datagram (query : Query) (r : Resolution) : Bytes :=
  let cut := encodeResponse query r.code ⟨true, true⟩ [] r.authority r.additional
  if (r.message query).length ≤ maxUdpResponse then r.message query
  else if cut.length ≤ maxUdpResponse then cut
  else encodeResponse query r.code ⟨true, true⟩ [] [] []

theorem respond_eq (query : Query) (overTcp : Bool) :
    respond query (some zone) overTcp =
      if overTcp then (resolve zone query).message query else (resolve zone query).datagram query := by
  have hfull : fullReply query zone = (resolve zone query).message query := rfl
  cases overTcp with
  | true => simp only [respond, hfull, Bool.true_or, if_true]
  | false =>
      simp only [respond, Resolution.datagram, hfull, Bool.false_or, decide_eq_true_eq, Bool.false_eq_true, if_false]

/-- **Two faces**: a peer that is not on the LAN gets from any two servers with the same zones, whatever their LAN views,
public addresses, caches, quarantines and forwards, the same reply at once, which leaves the server as it was; and a LAN
peer gets for a name in a zone the public sections, with the LAN address in the records of the public one, and additional
records that become equal given once, before the reply is cut to the length of a datagram. -/
theorem faces (server : Server) (now : Instant) (raw : Bytes) (overTcp : Bool) (peer : IpAddr) :
    (isLanPeer peer = false → ∀ (other : Server) (later : Instant), other.authority.zones = server.authority.zones →
      ∃ source reply, server.receive now raw overTcp peer = (server, .replied source reply) ∧
        other.receive later raw overTcp peer = (other, .replied source reply)) ∧
      ∀ view query zone, server.authority.lan = some view → isLanPeer peer = true → decodeQuery raw = .ok query →
        server.authority.zones.find? (fun zone => zone.contains query.name) = some zone →
        ∀ seen, seen = (resolve zone query).toLan server.authority.publicIp view.lanIp →
        server.receive now raw overTcp peer =
          (server, .replied .zone (if overTcp then seen.message query else seen.datagram query)) := by
  refine ⟨?_, ?_⟩
  · intro hpublic other later hzones
    have hlan : ∀ lan : Option LanView, lan.filter (fun _ => isLanPeer peer) = none := by
      intro lan
      cases lan with
      | none => rfl
      | some view => simp [Option.filter, hpublic]
    unfold Server.receive
    rw [hzones]
    cases decodeQuery raw with
    | error e => exact ⟨_, _, rfl, rfl⟩
    | ok query =>
        dsimp only
        rw [hlan, hlan]
        cases server.authority.zones.find? fun zone => zone.contains query.name with
        | none => exact ⟨_, _, rfl, rfl⟩
        | some zone => exact ⟨_, _, rfl, rfl⟩
  · rintro view query zone hview hpeer hdecode hzone seen rfl
    unfold Server.receive
    rw [hdecode]
    dsimp only
    rw [hzone, hview]
    simp only [hpeer, Option.filter_some, if_true, respond_eq, resolve_lanHorizon]

/-! ## A server behind a router -/

/-- A zone whose nameserver is declared with both addresses, and that has a long text. -/
def twoAddresses : Zone :=
  .fromConfig ⟨"example.com".toList, none, [],
    [⟨"ns1".toList, "A".toList, 3600, "203.0.113.7".toList, none⟩,
      ⟨"ns1".toList, "A".toList, 3600, "192.168.1.10".toList, none⟩,
      ⟨"@".toList, "TXT".toList, 3600, List.replicate 330 'v', none⟩]⟩ [] 2026010100 none

/-- The server of that zone, for the LAN or not. -/
def behindRouter (lan : Option LanView) : Server := .new ⟨[twoAddresses], some ⟨203, 0, 113, 7⟩, lan⟩ []

def lanView : LanView := ⟨⟨192, 168, 1, 10⟩⟩

def textQuery : Query := ⟨7, "example.com".toList, .txt, true⟩

def textQuestion : Bytes := be16 7 ++ [1, 0, 0, 1, 0, 0, 0, 0, 0, 0] ++ writeQuestion textQuery

def stranger : IpAddr := .v4 198 51 100 9

def atHome : IpAddr := .v4 192 168 1 20

theorem faces_behindRouter :
    (∃ source reply, (behindRouter (some lanView)).receive 0 textQuestion true stranger =
        (behindRouter (some lanView), .replied source reply) ∧
      (behindRouter none).receive 9 textQuestion true stranger = (behindRouter none, .replied source reply)) ∧
      (behindRouter (some lanView)).receive 0 textQuestion true atHome =
        (behindRouter (some lanView),
          .replied .zone (((resolve twoAddresses textQuery).toLan (some ⟨203, 0, 113, 7⟩) lanView.lanIp).message
            textQuery)) := by
  refine ⟨(faces (behindRouter (some lanView)) 0 textQuestion true stranger).1 (by decide) (behindRouter none) 9 rfl, ?_⟩
  have hdecode : decodeQuery textQuestion = .ok textQuery := by decide +kernel
  have hzone : (behindRouter (some lanView)).authority.zones.find? (fun zone => zone.contains textQuery.name) =
      some twoAddresses := by decide +kernel
  exact (faces (behindRouter (some lanView)) 0 textQuestion true atHome).2 lanView textQuery twoAddresses rfl (by decide)
    hdecode hzone _ rfl

/-- The public reply is too long for a datagram and is cut, the one on the LAN has one address less and keeps its
answer. -/
theorem cut_on_one_face :
    ∃ told heard, ((behindRouter (some lanView)).receive 0 textQuestion false stranger).2 = .replied .zone told ∧
      ((behindRouter (some lanView)).receive 0 textQuestion false atHome).2 = .replied .zone heard ∧
      (u16At told 6 = 0 ∧ told.getD 2 0 &&& 0x02 ≠ 0) ∧ u16At heard 6 = 1 ∧ heard.getD 2 0 &&& 0x02 = 0 := by
  refine ⟨respond textQuery (some twoAddresses) false,
    respond textQuery (some (lanHorizon twoAddresses (some ⟨203, 0, 113, 7⟩) lanView.lanIp)) false, ?_, ?_, ?_, ?_⟩ <;>
    decide +kernel

end Selfhost.Dns
