import Selfhost.Dns.Zone
import Selfhost.Lib.Ip
import Selfhost.Lib.Machine

/-!
# The authoritative server

`net/dns/src/authority.rs`: the answer to a query from a zone, the choice of the zone, and the operations that change
records. What the upstream resolvers and the cache give a LAN peer for a foreign name is a parameter.
-/

namespace Selfhost.Dns

open Selfhost.Lib

def maxUdpResponse : Nat := 512

def defaultATtl : UInt32 := 3600

/-! ## Answers from one zone -/

structure Resolution where
  code : ResponseCode
  answers : List Record
  authority : List Record
  additional : List Record
  deriving DecidableEq, Repr

/-- Adds the records that are not there yet. -/
def addMissing (out records : List Record) : List Record :=
  records.foldl (fun out record => if record ∈ out then out else out ++ [record]) out

/-- The hostname that a record names, when its addresses go along. -/
def glueTarget : RecordData → Option Str
  | .name name => some name
  | .mx _ exchange => some exchange
  | _ => none

/-- Adds the addresses within the zone of the hostname that a record names. -/
def glueOne (zone : Zone) (out : List Record) (record : Record) : List Record :=
  match glueTarget record.data with
  | none => out
  | some target =>
      if zone.contains target then addMissing out (zone.answer target .a ++ zone.answer target .aaaa) else out

def glue (zone : Zone) (records : List Record) : List Record := records.foldl (glueOne zone) []

/-- Zone transfers. -/
def isTransfer (qtype : RecordType) : Bool := qtype = .other 251 || qtype = .other 252

def resolve (zone : Zone) (query : Query) : Resolution :=
  let isApex := eqIgnoreAsciiCase query.name zone.origin
  if isTransfer query.recordType then ⟨.refused, [], [], []⟩
  else if isApex && query.recordType = .soa then
    ⟨.noError, [zone.soaRecord], zone.nsRecords, glue zone zone.nsRecords⟩
  else if isApex && query.recordType = .ns then ⟨.noError, zone.nsRecords, [], glue zone zone.nsRecords⟩
  else
    let answers := zone.answer query.name query.recordType
    if answers ≠ [] then
      ⟨.noError, answers, zone.nsRecords, addMissing (glue zone zone.nsRecords) (glue zone answers)⟩
    else
      let code := if zone.nameExists query.name then ResponseCode.noError else .nameError
      ⟨code, [], [zone.soaRecord], []⟩

def plainFlags : ResponseFlags := ⟨false, false⟩

/-- The reply over TCP. -/
def fullReply (query : Query) (zone : Zone) : Bytes :=
  let r := resolve zone query
  encodeResponse query r.code ⟨true, false⟩ r.answers r.authority r.additional

def respond (query : Query) (zone : Option Zone) (overTcp : Bool) : Bytes :=
  match zone with
  | none => encodeResponse query .refused plainFlags [] [] []
  | some zone =>
      let r := resolve zone query
      let message := fullReply query zone
      if overTcp || message.length ≤ maxUdpResponse then message
      else
        let cut := encodeResponse query r.code ⟨true, true⟩ [] r.authority r.additional
        if cut.length ≤ maxUdpResponse then cut else encodeResponse query r.code ⟨true, true⟩ [] [] []

def formatError (raw : Bytes) : Bytes :=
  let id := if 2 ≤ raw.length then u16At raw 0 else 0
  encodeResponse ⟨id, [], .a, false⟩ .formatError plainFlags [] [] []

/-! ## The served zones -/

structure LanView where
  lanIp : Ipv4Addr
  deriving DecidableEq, Repr

structure Authority where
  zones : List Zone
  publicIp : Option Ipv4Addr
  lan : Option LanView
  deriving DecidableEq, Repr

def isLanPeer : IpAddr → Bool
  | .v4 a b _ _ =>
      a = 10 || (a = 172 && 16 ≤ b && b ≤ 31) || (a = 192 && b = 168) || a = 127 || (a = 169 && b = 254)
  | .v6 segments =>
      segments.toList = [0, 0, 0, 0, 0, 0, 0, 1] || segments.toList.headD 0 &&& 0xFE00 = 0xFC00 ||
        segments.toList.headD 0 &&& 0xFFC0 = 0xFE80

/-- The zone as a LAN peer sees it: records of the public address have the LAN one. -/
def lanHorizon (zone : Zone) (publicIp : Option Ipv4Addr) (lanIp : Ipv4Addr) : Zone :=
  match publicIp with
  | none => zone
  | some ip =>
      { zone with
        records := zone.records.map fun record => if record.data = .a ip then { record with data := .a lanIp } else record
        names_stored := by
          intro record hmem
          obtain ⟨stored, hstored, rfl⟩ := List.mem_map.mp hmem
          have h := zone.names_stored stored hstored
          split
          · exact h
          · exact h }

/-- `handle_query`. `forward` is the reply to a LAN peer for a name in no zone. -/
def handleQuery (authority : Authority) (forward : Bytes → Query → Bytes) (raw : Bytes) (overTcp : Bool) (peer : IpAddr) :
    Bytes :=
  match decodeQuery raw with
  | .error _ => formatError raw
  | .ok query =>
      let lan := authority.lan.filter fun _ => isLanPeer peer
      match authority.zones.find? fun zone => zone.contains query.name, lan with
      | some zone, some view => respond query (some (lanHorizon zone authority.publicIp view.lanIp)) overTcp
      | some zone, none => respond query (some zone) overTcp
      | none, some _ => forward raw query
      | none, none => respond query none overTcp

/-! ## Changing records -/

namespace Zone

/-- Whether a record belongs to an owner and a type. -/
def isOf (owner : Str) (kind : RecordType) (record : Record) : Bool :=
  eqIgnoreAsciiCase record.name owner && dataType record.data = kind

def bumpSerial (zone : Zone) : Zone := { zone with soa := { zone.soa with serial := saturatingAdd32 zone.soa.serial 1 } }

/-- The part of `upsert_record` inside the zone that was chosen. A zone that does not contain the name is never
chosen. -/
def upsert (zone : Zone) (name : Str) (data : RecordData) : Zone :=
  let owner := normalize name
  let kind := dataType data
  let ttl := ((zone.records.find? (isOf owner kind)).map Record.ttl).getD defaultATtl
  if h : zone.contains owner = true then
    bumpSerial { zone with
      records := (zone.records.filter fun record => !isOf owner kind record) ++ [⟨owner, ttl, data⟩]
      names_stored := by
        intro record hmem
        rcases List.mem_append.mp hmem with hmem | hmem
        · exact zone.names_stored record (List.mem_of_mem_filter hmem)
        · rw [List.mem_singleton] at hmem
          subst hmem
          have hunder := of_decide_eq_true h
          rw [normalize_normalize] at hunder
          exact ⟨toAsciiLowercase_normalize name, hunder⟩ }
  else zone

/-- The part of `remove_record` inside the zone that was chosen. -/
def remove (zone : Zone) (name : Str) (rtype : RecordType) : Zone :=
  let owner := normalize name
  if zone.records.any (isOf owner rtype) then
    bumpSerial { zone with
      records := zone.records.filter fun record => !isOf owner rtype record
      names_stored := fun record hmem => zone.names_stored record (List.mem_of_mem_filter hmem) }
  else zone

def isA : RecordData → Bool
  | .a _ => true
  | _ => false

/-- An address at the apex. -/
def isApexA (zone : Zone) (record : Record) : Bool := eqIgnoreAsciiCase record.name zone.origin && isA record.data

/-- The part of `set_apex_a` inside the zone that was found. -/
def setApexA (zone : Zone) (address : Ipv4Addr) : Zone :=
  let ttl := ((zone.records.find? zone.isApexA).map Record.ttl).getD defaultATtl
  bumpSerial { zone with
    records := (zone.records.filter fun record => !zone.isApexA record) ++ [⟨zone.origin, ttl, .a address⟩]
    names_stored := by
      intro record hmem
      rcases List.mem_append.mp hmem with hmem | hmem
      · exact zone.names_stored record (List.mem_of_mem_filter hmem)
      · rw [List.mem_singleton] at hmem
        subst hmem
        exact ⟨toAsciiLowercase_of_normalize zone.origin_stored, Or.inl rfl⟩ }

/-- A rebuilt zone under a serial above its own and the one of the zone that it replaces. -/
def carry (zone running : Zone) : Zone :=
  { zone with soa := { zone.soa with serial := saturatingAdd32 (max zone.soa.serial running.soa.serial) 1 } }

end Zone

namespace Authority

/-- The first zone of an origin. -/
def zoneOf (authority : Authority) (origin : Str) : Option Zone :=
  authority.zones.find? fun zone => eqIgnoreAsciiCase zone.origin origin

/-- The served zones, with the first that contains a name changed. -/
def modifyZone (authority : Authority) (name : Str) (f : Zone → Zone) : Authority :=
  { authority with zones := modifyFirst (fun zone => zone.contains name) f authority.zones }

def upsertRecord (authority : Authority) (name : Str) (data : RecordData) : Option UInt32 × Authority :=
  let owner := normalize name
  match authority.zones.find? fun zone => zone.contains owner with
  | none => (none, authority)
  | some zone => (some (zone.upsert name data).soa.serial, authority.modifyZone owner (·.upsert name data))

def removeRecord (authority : Authority) (name : Str) (rtype : RecordType) : Option UInt32 × Authority :=
  let owner := normalize name
  match authority.zones.find? fun zone => zone.contains owner with
  | none => (none, authority)
  | some zone =>
      (if zone.records.any (Zone.isOf owner rtype) then some (zone.remove name rtype).soa.serial else none,
        authority.modifyZone owner (·.remove name rtype))

def setApexA (authority : Authority) (origin : Str) (address : Ipv4Addr) : Option UInt32 × Authority :=
  match authority.zoneOf origin with
  | none => (none, authority)
  | some zone =>
      (some (zone.setApexA address).soa.serial,
        { authority with
          zones := modifyFirst (fun zone => eqIgnoreAsciiCase zone.origin origin) (·.setApexA address) authority.zones
          publicIp := some address })

/-- The zones of a rebuilt authority in the place of the ones that are served, and their origins. -/
def adopt (authority rebuilt : Authority) : List Str × Authority :=
  let carried := rebuilt.zones.map fun zone =>
    match authority.zoneOf zone.origin with
    | some running => zone.carry running
    | none => zone
  (carried.map Zone.origin, { authority with zones := carried })

def zoneFor (authority : Authority) (name : Str) : Option Str :=
  let owner := normalize name
  (authority.zones.find? fun zone => zone.contains owner).map Zone.origin

end Authority

end Selfhost.Dns

/-!
# The zones that a machine serves

`Authority::for_config_with_mail` in `net/dns/src/authority.rs` with what it takes from the rest of the configuration
(`foundation/config/src/mail.rs`), and the updater of `net/dns/src/updater.rs` that follows the address of the router.
-/

namespace Selfhost.Dns

open Selfhost.Lib

/-! ## The rest of the configuration -/

structure SiteConfig where
  domains : List Str
  deriving DecidableEq, Repr

/-- `Mail`, as far as it makes records. The selector is there when mail is signed. -/
structure MailConfig where
  hostname : Str
  domains : List Str
  selector : Option Str
  deriving DecidableEq, Repr

structure Config where
  dns : Option DnsConfig
  sites : List SiteConfig
  mail : Option MailConfig
  deriving DecidableEq, Repr

def txt (name value : Str) : RecordConfig := ⟨name, "TXT".toList, 3600, value, none⟩

namespace MailConfig

def hostPrefixes : List String := ["mail", "imap", "smtp", "ua-auto-config", "autodiscover"]

/-- The hosts that clients guess, each once. -/
def clientHosts (mail : MailConfig) : List Str :=
  (mail.domains.flatMap fun domain => hostPrefixes.map fun start => start.toList ++ '.' :: domain).foldl
    (fun hosts host => if host ∈ hosts then hosts else hosts ++ [host]) []

/-- `dns_records`: the records of a mail domain, with the public key and the digest when there are. -/
def dnsRecords (mail : MailConfig) (domain : Str) (dkimTxt paccDigest : Option Str) : List RecordConfig :=
  [⟨"@".toList, "MX".toList, 3600, mail.hostname, some 10⟩, txt "@".toList "v=spf1 mx -all".toList,
    txt "_dmarc".toList ("v=DMARC1; p=reject; rua=mailto:postmaster@".toList ++ domain)] ++
    (match mail.selector, dkimTxt with
      | some selector, some key => [txt (selector ++ "._domainkey".toList) key]
      | _, _ => []) ++
    (match paccDigest with
      | some digest => [txt "_ua-auto-config".toList ("v=UAAC1; a=sha256; d=".toList ++ digest)]
      | none => []) ++
    [⟨"@".toList, "CAA".toList, 3600, "0 issue letsencrypt.org".toList, none⟩]

end MailConfig

/-! ## Building -/

namespace Zone

/-- The zone with one record more, under a stored name. -/
def push (zone : Zone) (record : Record)
    (h : toAsciiLowercase record.name = record.name ∧ Under zone.origin record.name) : Zone :=
  { zone with
    records := zone.records ++ [record]
    names_stored := by
      intro other hmem
      rcases List.mem_append.mp hmem with hmem | hmem
      · exact zone.names_stored other hmem
      · rw [List.mem_singleton.mp hmem]
        exact h }

def pushConfigRecord (zone : Zone) (config : RecordConfig) : Zone :=
  match h : recordFromConfig zone.origin config with
  | none => zone
  | some record => zone.push record (by
      rw [name_of_recordFromConfig h]
      exact qualify_stored zone.origin_stored _)

def pushConfigRecords (zone : Zone) (configs : List RecordConfig) : Zone := configs.foldl pushConfigRecord zone

/-- An address for a name that has none yet. -/
def ensureAddress (zone : Zone) (ip : Ipv4Addr) (name : Str) : Zone :=
  let owner := qualify zone.origin (normalize name)
  if zone.records.any fun record => record.name = owner && isA record.data then zone
  else zone.push (address owner ip) (qualify_stored zone.origin_stored _)

/-- Addresses for the names of a list that the zone contains. -/
def ensureAddresses (zone : Zone) (ip : Ipv4Addr) (names : List Str) : Zone :=
  names.foldl (fun zone name => if zone.contains name then zone.ensureAddress ip name else zone) zone

/-- The services that mail clients look for: the label, the port, and the host of the target. -/
def mailServices : List (String × UInt16 × String) :=
  [("_imaps._tcp", 993, "imap"), ("_submission._tcp", 587, "smtp"), ("_submissions._tcp", 465, "smtp")]

def pushService (zone : Zone) (service : String × UInt16 × String) : Zone :=
  let owner := service.1.toList ++ '.' :: zone.origin
  if h : toAsciiLowercase service.1.toList = service.1.toList then
    zone.push ⟨owner, defaultATtl, .srv 0 1 service.2.1 (service.2.2.toList ++ '.' :: zone.origin)⟩
      (under_prepend zone.origin_stored service.1 h)
  else zone

/-- `populate_claimed_hosts`. -/
def populateClaimedHosts (zone : Zone) (config : Config) (publicIp : Option Ipv4Addr) : Zone :=
  let withSites :=
    match publicIp with
    | none => zone
    | some ip => zone.ensureAddresses ip (config.sites.flatMap SiteConfig.domains)
  match config.mail with
  | none => withSites
  | some mail =>
      let withHosts :=
        match publicIp with
        | none => withSites
        | some ip => withSites.ensureAddresses ip (mail.hostname :: mail.clientHosts)
      if mail.domains.any fun domain => eqIgnoreAsciiCase domain withHosts.origin then
        mailServices.foldl pushService withHosts
      else withHosts

end Zone

/-- One zone of `for_config_with_mail`. -/
def zoneForConfig (config : Config) (dns : DnsConfig) (publicIp : Option Ipv4Addr) (serial : UInt32)
    (mailRecords : List (Str × List RecordConfig)) (zoneConfig : ZoneConfig) : Zone :=
  let zone := Zone.fromConfig zoneConfig dns.secondaries serial publicIp
  if zoneConfig.records = [] then
    let withMail :=
      match mailRecords.find? fun (domain, _) => eqIgnoreAsciiCase domain zone.origin with
      | some (_, records) => zone.pushConfigRecords records
      | none => zone
    withMail.populateClaimedHosts config publicIp
  else zone

def Authority.forConfigWithMail (config : Config) (publicIp : Option Ipv4Addr) (serial : UInt32)
    (mailRecords : List (Str × List RecordConfig)) : Authority where
  zones :=
    match config.dns with
    | none => []
    | some dns => dns.zones.map (zoneForConfig config dns publicIp serial mailRecords)
  publicIp := publicIp
  lan := none

/-- The one constructor of every path that serves: `build_authority` in `app/cli/src/lan_dns.rs`, with the public key and
the digest of each domain's document. -/
def buildAuthority (config : Config) (publicIp : Option Ipv4Addr) (serial : UInt32) (dkim : Option Str)
    (paccDigest : Str → Option Str) : Authority :=
  .forConfigWithMail config publicIp serial
    (match config.mail with
      | none => []
      | some mail => mail.domains.map fun domain => (domain, mail.dnsRecords domain dkim (paccDigest domain)))

/-! ## The updater -/

inductive Movement where
  | unusable (address : Ipv4Addr)
  | unchanged
  | changed (address : Ipv4Addr)
  deriving DecidableEq, Repr

def isCarrierGrade (address : Ipv4Addr) : Bool := address.a = 100 && 64 ≤ address.b && address.b ≤ 127

/-- Neither private, loopback, link-local, unspecified, broadcast, multicast nor carrier-grade. -/
def isDeployable (address : Ipv4Addr) : Bool :=
  !(address.a = 10 || (address.a = 172 && 16 ≤ address.b && address.b ≤ 31) || (address.a = 192 && address.b = 168) ||
    address.a = 127 || (address.a = 169 && address.b = 254) || address.octets = [0, 0, 0, 0] ||
    address.octets = [255, 255, 255, 255] || (224 ≤ address.a && address.a ≤ 239) || isCarrierGrade address)

def assess (last : Option Ipv4Addr) (candidate : Ipv4Addr) : Movement :=
  if !isDeployable candidate then .unusable candidate
  else if last = some candidate then .unchanged
  else .changed candidate

/-- The address at the apex of every origin of a list. -/
def applyChange (authority : Authority) (origins : List Str) (address : Ipv4Addr) : Authority :=
  origins.foldl (fun authority origin => (authority.setApexA origin address).2) authority

/-- The updater: the server, the origins it started with, and the address it has written last. -/
structure Tracker where
  authority : Authority
  origins : List Str
  lastDeployed : Option Ipv4Addr
  deriving DecidableEq, Repr

namespace Tracker

def start (authority : Authority) : Tracker := ⟨authority, authority.zones.map Zone.origin, none⟩

/-- One tick: what the router has reported, if it has. -/
def tick (tracker : Tracker) : Option Ipv4Addr → Tracker
  | none => tracker
  | some candidate =>
      match assess tracker.lastDeployed candidate with
      | .changed address =>
          { tracker with
            authority := applyChange tracker.authority tracker.origins address
            lastDeployed := some address }
      | _ => tracker

def track (tracker : Tracker) (readings : List (Option Ipv4Addr)) : Tracker := readings.foldl tick tracker

end Tracker

end Selfhost.Dns
