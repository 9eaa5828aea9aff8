import Selfhost.Dns.Wire

/-!
# The declared zones

The DNS section of a configuration and its checks: `foundation/config/src/dns.rs`. Every rule is checked and every
problem kept, with the path of its field.
-/

namespace Selfhost.Dns

open Selfhost.Lib

structure Problem where
  field : Str
  message : Str
  deriving DecidableEq, Repr

structure SoaConfig where
  primary : Option Str
  responsible : Option Str
  serial : Option UInt32
  refresh : Option UInt32
  retry : Option UInt32
  expire : Option UInt32
  minimum : Option UInt32
  deriving DecidableEq, Repr

structure RecordConfig where
  name : Str
  recordType : Str
  ttl : UInt32
  value : Str
  preference : Option UInt16
  deriving DecidableEq, Repr

structure ZoneConfig where
  domain : Str
  soa : Option SoaConfig
  nameservers : List Str
  records : List RecordConfig
  deriving DecidableEq, Repr

/-- `Dns`. -/
structure DnsConfig where
  bind : Str
  secondaries : List Str
  lanIp : Option Str
  zones : List ZoneConfig
  upstreams : List Str
  deriving DecidableEq, Repr

/-- The record types that can be declared. -/
inductive Kind where
  | a | aaaa | mx | txt | cname | ns | srv | caa
  deriving DecidableEq, Repr

/-- The type a text in upper case spells. -/
def Kind.parse (text : Str) : Option Kind :=
  if text = "A".toList then some .a
  else if text = "AAAA".toList then some .aaaa
  else if text = "MX".toList then some .mx
  else if text = "TXT".toList then some .txt
  else if text = "CNAME".toList then some .cname
  else if text = "NS".toList then some .ns
  else if text = "SRV".toList then some .srv
  else if text = "CAA".toList then some .caa
  else none

def RecordConfig.kind (record : RecordConfig) : Option Kind := Kind.parse (toAsciiUppercase record.recordType)

/-- A text in quotation marks. -/
def quoted (text : Str) : Str := '"' :: text ++ ['"']

/-- An entry of a list in a field path. -/
def indexed (at' : Str) (field : String) (i : Nat) : Str := at' ++ field.toList ++ '[' :: natText i ++ [']']

/-- `then`. -/
def problemIf (condition : Bool) (field message : Str) : List Problem := if condition then [⟨field, message⟩] else []

def problemOf (field : Str) : Option Str → List Problem
  | none => []
  | some message => [⟨field, message⟩]

/-! ## Names and values -/

def isLabelChar (c : Char) : Bool := c.isAlphanum || c == '-' || c == '_'

/-- What is wrong with one label of a name. -/
def labelProblem (name label : Str) : Option Str :=
  if label = [] then some (quoted name ++ " has an empty label".toList)
  else if maxLabel < byteLen label then
    some ("label ".toList ++ quoted label ++ " is over ".toList ++ natText maxLabel ++ " bytes".toList)
  else if label.head? = some '-' ∨ label.getLast? = some '-' then
    some ("label ".toList ++ quoted label ++ " may not start or end with a dash".toList)
  else if !label.all isLabelChar then
    some ("label ".toList ++ quoted label ++ " may only contain letters, digits, dash, and underscore".toList)
  else none

def nameProblem (name : Str) : Option Str :=
  let trimmed := trimDots name
  if trimmed = [] then some "must not be empty".toList
  else if maxName < byteLen trimmed then
    some ("is ".toList ++ natText (byteLen trimmed) ++ " bytes; a domain name may be at most ".toList ++ natText maxName)
  else (trimmed.splitOn '.').findSome? (labelProblem name)

def srvProblem (value : Str) : Option Str :=
  match splitWhitespace value with
  | [priority, weight, port, target] =>
      match [("priority", priority), ("weight", weight), ("port", port)].find? fun (_, field) =>
          (parseBelow 0x10000 field).isNone with
      | some (label, field) =>
          some ("SRV ".toList ++ label.toList ++ " ".toList ++ quoted field ++ " must be a number 0-65535".toList)
      | none => if target = [] then some "SRV needs a target hostname".toList else none
  | _ => some "SRV needs priority, weight, port, and a target host, e.g. 0 1 993 imap.example.com".toList

def caaProblem (value : Str) : Option Str :=
  match splitWhitespace value with
  | [] => some "CAA needs flags, a tag, and a value, e.g. 0 issue letsencrypt.org".toList
  | flags :: fields =>
      if (parseBelow 256 flags).isNone then
        some ("CAA flags ".toList ++ quoted flags ++ " must be a number 0-255".toList)
      else
        match fields with
        | [] => some "CAA needs a tag such as \"issue\"".toList
        | tag :: rest =>
            if tag = [] ∨ maxLabel < byteLen tag then
              some ("CAA tag ".toList ++ quoted tag ++ " is not a usable length".toList)
            else if rest = [] then some "CAA needs a value, e.g. letsencrypt.org".toList
            else none

/-! ## Checks -/

namespace ZoneConfig

def isApex (zone : ZoneConfig) (name : Str) : Bool :=
  name == ['@'] || eqIgnoreAsciiCase (trimDots name) zone.domain

end ZoneConfig

namespace RecordConfig

/-- The rules of a type apart from its value: a preference for an exchanger, no alias at the apex. -/
def typeProblems (record : RecordConfig) (at' : Str) (zone : ZoneConfig) : List Problem :=
  match record.kind with
  | some .mx =>
      problemIf record.preference.isNone (at' ++ ".preference".toList)
        "an MX record needs a preference; lower is tried first".toList
  | some .cname =>
      problemIf (zone.isApex record.name) (at' ++ ".name".toList)
        ("a CNAME cannot sit at the zone apex; the apex must carry SOA and NS, and a CNAME forbids any other record " ++
          "on its name").toList
  | some _ => []
  | none =>
      [⟨at' ++ ".type".toList, quoted (toAsciiUppercase record.recordType) ++
        " is not a known record type (A, AAAA, MX, TXT, CNAME, NS, SRV, CAA)".toList⟩]

def valueFault (record : RecordConfig) : Option Str :=
  match record.kind with
  | some .a => if (parseIpv4 record.value).isNone then some (quoted record.value ++ " is not an IPv4 address".toList) else none
  | some .aaaa =>
      if (parseIpv6 record.value).isNone then some (quoted record.value ++ " is not an IPv6 address".toList) else none
  | some .mx => if record.value = [] then some "an MX record needs a mail-exchanger hostname".toList else none
  | some .cname => if record.value = [] then some "a CNAME record needs a target hostname".toList else none
  | some .ns => if record.value = [] then some "an NS record needs a nameserver hostname".toList else none
  | some .txt => if record.value = [] then some "a TXT record needs a value".toList else none
  | some .srv => srvProblem record.value
  | some .caa => caaProblem record.value
  | none => none

def check (record : RecordConfig) (at' : Str) (zone : ZoneConfig) : List Problem :=
  problemIf record.name.isEmpty (at' ++ ".name".toList) "must not be empty; use \"@\" for the apex".toList ++
    record.typeProblems at' zone ++ problemOf (at' ++ ".value".toList) record.valueFault

end RecordConfig

/-- The problems of the entries of a list, each with its index. -/
def checkEach {α : Type} (check : Nat → α → List Problem) (l : List α) : List Problem :=
  l.zipIdx.flatMap fun (a, i) => check i a

def ZoneConfig.check (zone : ZoneConfig) (at' : Str) : List Problem :=
  problemOf (at' ++ ".domain".toList) (nameProblem zone.domain) ++
    checkEach (fun i ns => problemOf (indexed at' ".nameservers" i) (nameProblem ns)) zone.nameservers ++
    checkEach (fun i (record : RecordConfig) => record.check (indexed at' ".record" i) zone) zone.records

def DnsConfig.check (dns : DnsConfig) (at' : Str) : List Problem :=
  problemIf (!isSocketAddr dns.bind) (at' ++ ".bind".toList) "must be a bindable address like 0.0.0.0:53".toList ++
    checkEach (fun i secondary => problemOf (indexed at' ".secondaries" i) (nameProblem secondary)) dns.secondaries ++
    (match dns.lanIp with
      | none => []
      | some lanIp =>
          problemIf (parseIpv4 lanIp).isNone (at' ++ ".lan_ip".toList)
            (quoted lanIp ++ " is not an IPv4 address like 192.168.1.8".toList)) ++
    checkEach (fun i (zone : ZoneConfig) => zone.check (indexed at' ".zone" i)) dns.zones ++
    checkEach (fun i upstream =>
      problemIf (!isSocketAddr upstream) (indexed at' ".upstreams" i)
        (quoted upstream ++ " must be a socket address like 1.1.1.1:53".toList)) dns.upstreams

end Selfhost.Dns

/-!
# The zones that are served

`net/dns/src/zone.rs`. A zone stores its names in lower case and under its origin.
-/

namespace Selfhost.Dns

open Selfhost.Lib

def defaultRefresh : UInt32 := 7200

def defaultRetry : UInt32 := 3600

def defaultExpire : UInt32 := 1209600

def defaultMinimum : UInt32 := 3600

/-- The longest chain of aliases that is followed. -/
def maxCnameChain : Nat := 8

/-- The one spelling of a name: lower case, no dots at the end. -/
def normalize (name : Str) : Str := toAsciiLowercase (trimDots name)

/-- At the origin or beneath it. -/
def Under (origin name : Str) : Prop := name = origin ∨ ('.' :: origin) <:+ name

instance (origin name : Str) : Decidable (Under origin name) := inferInstanceAs (Decidable (_ ∨ _))

structure Zone where
  origin : Str
  soa : Soa
  nameservers : List Str
  records : List Record
  origin_stored : normalize origin = origin
  names_stored : ∀ record ∈ records, toAsciiLowercase record.name = record.name ∧ Under origin record.name
  deriving DecidableEq, Repr

/-- A config owner against the apex: `@` is the apex, a name under it is kept, any other is relative. -/
def qualify (origin name : Str) : Str :=
  if name = ['@'] then origin
  else
    let lowered := normalize name
    if Under origin lowered then lowered else lowered ++ '.' :: origin

/-! ## Spellings -/

theorem toLower_eq_dot (c : Char) : c.toLower = '.' ↔ c = '.' := toLower_eq_iff (by decide)

theorem toAsciiLowercase_normalize (name : Str) : toAsciiLowercase (normalize name) = normalize name :=
  toAsciiLowercase_idem _

theorem trimDots_toAsciiLowercase (s : Str) : trimDots (toAsciiLowercase s) = toAsciiLowercase (trimDots s) := by
  rw [trimDots, trimDots, toAsciiLowercase, toAsciiLowercase, List.rdropWhile, List.rdropWhile, ← List.map_reverse,
    List.dropWhile_map, List.map_reverse]
  congr 2
  refine congrArg (List.dropWhile · s.reverse) (funext fun c => ?_)
  rw [Function.comp_apply, Bool.eq_iff_iff, beq_iff_eq, beq_iff_eq]
  exact toLower_eq_dot c

@[simp] theorem normalize_normalize (name : Str) : normalize (normalize name) = normalize name := by
  rw [normalize, normalize, trimDots_toAsciiLowercase, toAsciiLowercase_idem, trimDots, trimDots,
    List.rdropWhile_idempotent]

theorem toAsciiLowercase_of_normalize {name : Str} (h : normalize name = name) : toAsciiLowercase name = name := by
  rw [← h]
  exact toAsciiLowercase_normalize name

theorem qualify_stored {origin : Str} (h : normalize origin = origin) (name : Str) :
    toAsciiLowercase (qualify origin name) = qualify origin name ∧ Under origin (qualify origin name) := by
  unfold qualify
  split
  · exact ⟨toAsciiLowercase_of_normalize h, Or.inl rfl⟩
  · dsimp only
    split
    · rename_i hunder
      exact ⟨toAsciiLowercase_normalize name, hunder⟩
    · refine ⟨?_, Or.inr (List.suffix_append _ _)⟩
      rw [toAsciiLowercase_append, toAsciiLowercase_normalize]
      congr 1
      exact congrArg (List.cons '.') (toAsciiLowercase_of_normalize h)

/-! ## Answers -/

namespace Zone

/-- Whether a name falls at or under the origin. -/
def contains (zone : Zone) (qname : Str) : Bool := Under zone.origin (normalize qname)

/-- The records of a name in stored form and a type. -/
def direct (zone : Zone) (q : Str) (qtype : RecordType) : List Record :=
  zone.records.filter fun record => record.name = q ∧ dataType record.data = qtype

/-- The first alias of a name in stored form. -/
def alias? (zone : Zone) (q : Str) : Option Record :=
  zone.records.find? fun record => record.name = q ∧ dataType record.data = .cname

def answerWithin (zone : Zone) (qtype : RecordType) : Nat → Str → List Record
  | hops, qname =>
      let q := normalize qname
      let direct := zone.direct q qtype
      if direct ≠ [] then direct
      else if qtype = .a ∨ qtype = .aaaa then
        match hops with
        | 0 => []
        | hops + 1 =>
            match zone.alias? q with
            | none => []
            | some record =>
                match record.data with
                | .name target => record :: answerWithin zone qtype hops target
                | _ => [record]
      else []

/-- `Zone::answer`. -/
def answer (zone : Zone) (qname : Str) (qtype : RecordType) : List Record := zone.answerWithin qtype maxCnameChain qname

def nameExists (zone : Zone) (qname : Str) : Bool :=
  let q := normalize qname
  q = zone.origin || zone.nameservers.any (fun ns => normalize ns = q) || zone.records.any fun record => record.name = q

def soaRecord (zone : Zone) : Record := ⟨zone.origin, zone.soa.minimum, .soa zone.soa⟩

def nsRecords (zone : Zone) : List Record :=
  zone.nameservers.map fun ns => ⟨zone.origin, zone.soa.minimum, .name (normalize ns)⟩

end Zone

/-! ## Building -/

def address (name : Str) (ip : Ipv4Addr) : Record := ⟨name, defaultMinimum, .a ip⟩

def srvData (value : Str) : Option RecordData :=
  match splitWhitespace value with
  | priority :: weight :: port :: target :: rest => do
      let priority ← parseBelow 0x10000 priority
      let weight ← parseBelow 0x10000 weight
      let port ← parseBelow 0x10000 port
      let target := normalize target
      if target = [] ∨ rest ≠ [] then none
      else some (.srv (UInt16.ofNat priority) (UInt16.ofNat weight) (UInt16.ofNat port) target)
  | _ => none

/-- `trim_matches('"')`. -/
def trimQuotes (s : Str) : Str := (s.dropWhile (· == '"')).rdropWhile (· == '"')

def caaRdata (value : Str) : Option Bytes :=
  match splitWhitespace value with
  | flags :: tag :: rest => do
      let flags ← parseBelow 256 flags
      if tag = [] ∨ 255 < byteLen tag then none
      else if rest = [] then none
      else
        let quality := trimQuotes ([' '].intercalate rest)
        some (UInt8.ofNat flags :: UInt8.ofNat (byteLen tag) :: utf8 tag ++ utf8 quality)
  | _ => none

/-- The payload of a declared record; `none` when its value cannot be parsed. -/
def dataFromConfig (record : RecordConfig) : Option RecordData :=
  match record.kind with
  | some .a => (parseIpv4 record.value).map .a
  | some .aaaa => (parseIpv6 record.value).map .aaaa
  | some .mx => record.preference.map fun preference => .mx preference (normalize record.value)
  | some .txt => some (.txt record.value)
  | some .cname | some .ns => some (.name (normalize record.value))
  | some .srv => srvData record.value
  | some .caa => (caaRdata record.value).map (.unknown .caa)
  | none => none

def recordFromConfig (origin : Str) (record : RecordConfig) : Option Record :=
  (dataFromConfig record).map fun data => ⟨qualify origin record.name, record.ttl, data⟩

theorem name_of_recordFromConfig {origin : Str} {config : RecordConfig} {record : Record}
    (h : recordFromConfig origin config = some record) : record.name = qualify origin config.name := by
  obtain ⟨data, -, rfl⟩ := Option.map_eq_some_iff.mp h
  rfl

theorem under_prepend {origin : Str} (h : normalize origin = origin) (label : String)
    (hlabel : toAsciiLowercase label.toList = label.toList) :
    toAsciiLowercase (label.toList ++ '.' :: origin) = label.toList ++ '.' :: origin ∧
      Under origin (label.toList ++ '.' :: origin) := by
  refine ⟨?_, Or.inr (List.suffix_append _ _)⟩
  rw [toAsciiLowercase_append, hlabel]
  congr 1
  exact congrArg (List.cons '.') (toAsciiLowercase_of_normalize h)

/-- The apex, `www` and the two nameservers, once the address is known. -/
def scaffoldRecords (origin : Str) : Option Ipv4Addr → List Record
  | none => []
  | some ip =>
      [address origin ip, address ("www".toList ++ '.' :: origin) ip, address ("ns1".toList ++ '.' :: origin) ip,
        address ("ns2".toList ++ '.' :: origin) ip]

/-- A record of the scaffold is an address, at the apex or at one of three names below it. -/
theorem scaffoldRecords_cases {origin : Str} {publicIp : Option Ipv4Addr} {record : Record}
    (h : record ∈ scaffoldRecords origin publicIp) :
    (∃ ip, record.data = .a ip) ∧
      (record.name = origin ∨ ∃ label ∈ ["www", "ns1", "ns2"], record.name = label.toList ++ '.' :: origin) := by
  cases publicIp with
  | none => cases h
  | some ip =>
      simp only [scaffoldRecords, List.mem_cons, List.not_mem_nil, or_false] at h
      rcases h with rfl | rfl | rfl | rfl
      · exact ⟨⟨ip, rfl⟩, Or.inl rfl⟩
      · exact ⟨⟨ip, rfl⟩, Or.inr ⟨"www", by simp, rfl⟩⟩
      · exact ⟨⟨ip, rfl⟩, Or.inr ⟨"ns1", by simp, rfl⟩⟩
      · exact ⟨⟨ip, rfl⟩, Or.inr ⟨"ns2", by simp, rfl⟩⟩

theorem scaffoldRecords_stored {origin : Str} (h : normalize origin = origin) (publicIp : Option Ipv4Addr) :
    ∀ record ∈ scaffoldRecords origin publicIp,
      toAsciiLowercase record.name = record.name ∧ Under origin record.name := by
  intro record hmem
  cases publicIp with
  | none => cases hmem
  | some ip =>
      simp only [scaffoldRecords, List.mem_cons, List.not_mem_nil, or_false] at hmem
      rcases hmem with rfl | rfl | rfl | rfl
      · exact ⟨toAsciiLowercase_of_normalize h, Or.inl rfl⟩
      · exact under_prepend h "www" (by decide)
      · exact under_prepend h "ns1" (by decide)
      · exact under_prepend h "ns2" (by decide)

/-- The baseline of a zone. The serial stands for the date of the day. -/
def scaffold (origin : Str) (h : normalize origin = origin) (serial : UInt32) (publicIp : Option Ipv4Addr) : Zone where
  origin
  soa := ⟨"ns1".toList ++ '.' :: origin, "hostmaster".toList ++ '.' :: origin, serial, defaultRefresh, defaultRetry,
    defaultExpire, defaultMinimum⟩
  nameservers := ["ns1".toList ++ '.' :: origin, "ns2".toList ++ '.' :: origin]
  records := scaffoldRecords origin publicIp
  origin_stored := h
  names_stored := scaffoldRecords_stored h publicIp

def applySoaOverrides (soa : Soa) (overrides : SoaConfig) : Soa where
  primary := (overrides.primary.map normalize).getD soa.primary
  responsible := (overrides.responsible.map normalize).getD soa.responsible
  serial := overrides.serial.getD soa.serial
  refresh := overrides.refresh.getD soa.refresh
  retry := overrides.retry.getD soa.retry
  expire := overrides.expire.getD soa.expire
  minimum := overrides.minimum.getD soa.minimum

/-- Adds the secondaries that are not nameservers yet. -/
def addSecondaries (nameservers : List Str) (secondaries : List Str) : List Str :=
  secondaries.foldl
    (fun nameservers secondary =>
      if normalize secondary ∈ nameservers then nameservers else nameservers ++ [normalize secondary])
    nameservers

namespace Zone

/-- The declared records, and those of the scaffold when none are declared. -/
def recordsFromConfig (zone : ZoneConfig) (publicIp : Option Ipv4Addr) : List Record :=
  if zone.records = [] then scaffoldRecords (normalize zone.domain) publicIp
  else zone.records.filterMap (recordFromConfig (normalize zone.domain))

theorem recordsFromConfig_stored (zone : ZoneConfig) (publicIp : Option Ipv4Addr) :
    ∀ record ∈ recordsFromConfig zone publicIp,
      toAsciiLowercase record.name = record.name ∧ Under (normalize zone.domain) record.name := by
  intro record hmem
  unfold recordsFromConfig at hmem
  split at hmem
  · exact scaffoldRecords_stored (normalize_normalize _) publicIp record hmem
  · obtain ⟨config, -, hconfig⟩ := List.mem_filterMap.mp hmem
    rw [name_of_recordFromConfig hconfig]
    exact qualify_stored (normalize_normalize _) _

def fromConfig (zone : ZoneConfig) (secondaries : List Str) (serial : UInt32) (publicIp : Option Ipv4Addr) : Zone :=
  let built := scaffold (normalize zone.domain) (normalize_normalize _) serial publicIp
  { built with
    soa := match zone.soa with
      | none => built.soa
      | some overrides => applySoaOverrides built.soa overrides
    nameservers :=
      addSecondaries (if zone.nameservers = [] then built.nameservers else zone.nameservers.map normalize) secondaries
    records := recordsFromConfig zone publicIp
    names_stored := recordsFromConfig_stored zone publicIp }

end Zone

end Selfhost.Dns
