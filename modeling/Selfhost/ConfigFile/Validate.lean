import Selfhost.ConfigFile.Schema
import Selfhost.Identity.Name
import Selfhost.Lib.Ip

/-!
# What a deployment must satisfy

`foundation/config/src/validate.rs` and `cidr.rs`: the checks of the nodes, the sites, the ports and the firewall. Of a
check only whether it finds a problem is kept. A document with a section that is not read here is left to other schemas.
-/

namespace Selfhost.ConfigFile

open Selfhost.Lib Selfhost.Lib.Toml Selfhost.Names

inductive Role where
  | Owner
  | Worker
  deriving DecidableEq, Repr

structure Node where
  name : Str
  role : Role
  meshIp : Option Str
  deriving DecidableEq, Repr

/-- The part of the server section that is checked. -/
structure Server where
  httpBind : Str
  httpsBind : Str
  manage : Bool
  deriving DecidableEq, Repr

/-! ## Networks -/

/-- The bits of an address, the address with its host bits zero, and the number of the bits before them. -/
structure Cidr where
  width : Nat
  network : Nat
  kept : Nat
  deriving DecidableEq, Repr

/-- `IpAddr::parse`, as the octets. -/
def parseAddress (text : Str) : Option Bytes :=
  ((parseIpv4 text).map Ipv4Addr.octets).or ((parseIpv6 text).map Ipv6Addr.octets)

def cidrParts (entry : Str) : Option (Bytes × Nat) := do
  let parts := (splitOnce '/' entry).map fun parts => (parts.1, some parts.2)
  let (addressText, prefixText) := parts.getD (entry, none)
  let octets ← parseAddress addressText
  let kept ← (prefixText.map (parseBelow 256)).getD (some (8 * octets.length))
  if kept ≤ 8 * octets.length then some (octets, kept) else none

def addressValue (octets : Bytes) : Nat := octets.foldl (fun n octet => n * 256 + octet.toNat) 0

def mask (octets : Bytes) (kept : Nat) : Nat :=
  addressValue octets / 2 ^ (8 * octets.length - kept) * 2 ^ (8 * octets.length - kept)

def Cidr.parse (text : Str) : Option Cidr :=
  (cidrParts text).map fun parts => ⟨8 * parts.1.length, mask parts.1 parts.2, parts.2⟩

def Cidr.contains (cidr : Cidr) (octets : Bytes) : Bool :=
  cidr.width = 8 * octets.length ∧ mask octets cidr.kept = cidr.network

def consoleGateRanges : List Str :=
  ["127.0.0.0/8".toList, "::1/128".toList, "10.0.0.0/8".toList, "172.16.0.0/12".toList, "192.168.0.0/16".toList,
    "100.64.0.0/10".toList, "fc00::/7".toList]

def consoleGateNarrowestIpv4 : Nat := 24

/-- `console_gate_refusal` of an entry; what does not parse is not refused here. -/
def consoleGateRefuses (entry : Str) : Bool :=
  (cidrParts entry).any fun parts =>
    (consoleGateRanges.filterMap Cidr.parse).all (fun range => !range.contains parts.1) ||
      (parts.1.length = 4 ∧ parts.2 < consoleGateNarrowestIpv4)

/-! ## Sites -/

def startsWith (start text : Str) : Bool := (stripStart start text).isSome

/-- A prefix with a star at its end matches any text behind it, and one without matches at the end of a segment. -/
def pathMatches (pattern path : Str) : Bool :=
  if pattern.getLast? = some '*' then startsWith pattern.dropLast path
  else path = pattern || (startsWith pattern path && path[pattern.length]? = some '/')

def Site.permitsPublicApiPath (site : Site) (path : Str) : Bool :=
  site.publicApiPaths.any fun pattern => pathMatches pattern path

def publicAuthPaths : List Str :=
  ["/api/session".toList, "/api/vpn/authorize".toList, "/api/pass/authorize".toList]

/-- `exposure_refusal`. -/
def exposureRefuses (site : Site) : Bool :=
  site.exposure.any fun exposure =>
    site.console || (!site.publicApiPaths.isEmpty && exposure ≠ .Public) ||
      decide (exposure = .Private) == site.allowedCidrs.isEmpty

def healthOk (health : Health) : Bool :=
  startsWith ['/'] health.path ∧ health.intervalSecs ≠ 0 ∧ health.timeoutSecs < max health.intervalSecs 1 ∧
    health.unhealthyAfter ≠ 0 ∧ health.healthyAfter ≠ 0

/-- An instance is on a node that is declared and that is reached privately. -/
def instanceOk (nodes : List Node) (instance_ : Instance) : Bool :=
  (nodes.find? fun node => node.name = instance_.node).any fun node => node.role = .Owner || node.meshIp.isSome

/-- What is asked of the console alone. -/
def consoleOk (site : Site) : Bool :=
  !site.allowedCidrs.isEmpty && site.allowedCidrs.all (fun entry => !consoleGateRefuses entry) &&
    site.staticRoot.isSome && site.instances.isEmpty && site.appPaths.isEmpty && site.publicApiPaths.isEmpty

/-- What `check_sites` asks of a site by itself. -/
def siteOk (A : Alphabet) (nodes : List Node) (site : Site) : Bool :=
  !site.domains.isEmpty && site.owner.all (fun owner => (checkName A owner).toOption.isSome) &&
    (site.staticRoot.isSome || !site.instances.isEmpty) && (site.appPaths.isEmpty || !site.instances.isEmpty) &&
    site.appPaths.all (startsWith ['/']) && healthOk site.health && site.instances.all (instanceOk nodes) &&
    site.allowedCidrs.all (fun entry => (Cidr.parse entry).isSome) && !exposureRefuses site &&
    (!site.console || consoleOk site) &&
    (site.publicApiPaths.isEmpty || (site.instances.isEmpty && site.publicApiPaths.all (startsWith "/api".toList)))

/-- Whether one site relays every step of the sign-in. -/
def relaysSignIn (sites : List Site) : Bool :=
  sites.any fun site => !site.publicApiPaths.isEmpty && publicAuthPaths.all site.permitsPublicApiPath

/-- `check_sites`: no two sites have one name or serve one domain, and no relay is declared here for a site to name. -/
def checkSites (A : Alphabet) (nodes : List Node) (sites : List Site) : Bool :=
  sites.all (siteOk A nodes) && (sites.map Site.name).Nodup &&
    sites.Pairwise (fun earlier site => ∀ domain ∈ site.domains, ∀ served ∈ earlier.domains,
      toAsciiLowercase domain ≠ toAsciiLowercase served) &&
    (sites.filter Site.console).length ≤ 1 &&
    ((sites.all fun site => site.exposure.all (· = .Public)) || relaysSignIn sites) &&
    sites.all fun site => site.relay.isNone

/-! ## The deployment -/

def checkNodes (nodes : List Node) : Bool :=
  !nodes.isEmpty && (nodes.filter fun node => node.role = .Owner).length = 1 && nodes.all (fun node => node.name ≠ []) &&
    (nodes.map Node.name).Nodup

def checkPortCollisions (sites : List Site) : Bool := (sites.flatMap Site.instances).Nodup

def checkFirewall (server : Server) : Bool :=
  !server.manage || (isSocketAddr server.httpBind && isSocketAddr server.httpsBind)

/-- The sections of a deployment that has sites and nothing else. -/
structure Hosting where
  version : Nat
  server : Server
  nodes : List Node

/-- `Config::validate`. -/
def Hosting.validate (A : Alphabet) (hosting : Hosting) (sites : List Site) : Bool :=
  hosting.version = 1 && checkNodes hosting.nodes && checkSites A hosting.nodes sites && checkPortCollisions sites &&
    checkFirewall hosting.server

/-! ## Reading the sections -/

def asWord (words : List Str) (value : Value) : Option Str := (asStr value).filter fun word => word ∈ words

def readRole (value : Value) : Option Role := do
  let word ← asWord ["owner".toList, "worker".toList] value
  some (if word = "owner".toList then .Owner else .Worker)

def readNode (value : Value) : Option Node := do
  let t ← asTable value
  let name ← required asStr (get "name".toList t)
  let role ← required readRole (get "role".toList t)
  let meshIp ← optional asStr (get "mesh_ip".toList t)
  some ⟨name, role, meshIp⟩

/-- `firewall.manage`. -/
def readFirewall (value : Value) : Option Bool := do
  let t ← asTable value
  let manage ← defaulted false asBool (get "manage".toList t)
  let _ ← optional (asWord ["loopback".toList, "lan".toList, "internet".toList]) (get "scope".toList t)
  some manage

def readServer (value : Value) : Option Server := do
  let t ← asTable value
  let httpBind ← defaulted "0.0.0.0:80".toList asStr (get "http_bind".toList t)
  let httpsBind ← defaulted "0.0.0.0:443".toList asStr (get "https_bind".toList t)
  let _ ← required asStr (get "acme_email".toList t)
  let _ ← optional (asWord ["staging".toList, "production".toList, "self-signed".toList]) (get "acme".toList t)
  let _ ← optional asStr (get "data_dir".toList t)
  let _ ← optional asStr (get "admin_bind".toList t)
  let manage ← defaulted false readFirewall (get "firewall".toList t)
  some ⟨httpBind, httpsBind, manage⟩

/-- The sections that are not read here, but for the mail. -/
def otherKeys : List Str :=
  ["dns".toList, "self_update".toList, "github_app".toList, "shares".toList, "desktop".toList, "mesh".toList,
    "home".toList, "vpn".toList, "maintenance".toList]

def readHosting (sections : Str → Option Value) : Option Hosting := do
  let version ← required (asNat 32) (sections "version".toList)
  let server ← required readServer (sections "server".toList)
  let nodes ← defaulted [] (asList readNode) (sections "nodes".toList)
  if otherKeys.all fun key => (sections key).isNone then some ⟨version, server, nodes⟩ else none

/-- The documents of a deployment that has sites and nothing else. -/
def hostingSchema (A : Alphabet) : Schema where
  Rest := Hosting
  read sections _ := readHosting sections
  validate sites mail hosting := mail.isNone && hosting.validate A sites

end Selfhost.ConfigFile
