import Selfhost.Dns.Authority
import Selfhost.Dns.Cache

/-!
# The server with its upstreams

`handle_query` and `forward` in `net/dns/src/authority.rs`, with everything the server keeps. A query that has to be
forwarded waits for an upstream, and the server goes on with others meanwhile: `receive` is what happens to a query until
its reply or its first upstream, `resume` what happens when an attempt at an upstream has ended. What the upstreams do and
when is given from outside.
-/

namespace Selfhost.Dns

open Selfhost.Lib

def maxInFlightForwards : Nat := 256

def loopQuarantine : Duration := .fromSecs 600

def upstreamTotalTimeout : Duration := .fromSecs 2

structure SocketAddr where
  ip : IpAddr
  port : UInt16
  deriving DecidableEq

/-- A question that is being forwarded, and to which address. -/
structure InFlight where
  upstream : IpAddr
  name : Str
  recordType : RecordType
  deriving DecidableEq

/-- What the server keeps. The upstreams are those of the LAN view. -/
structure Server where
  authority : Authority
  upstreams : List SocketAddr
  permits : Nat
  forwarding : List InFlight
  quarantined : List (SocketAddr × Instant)
  cache : DnsCache
  deriving DecidableEq

/-- A query that waits for an upstream, and the upstreams that are left. -/
structure Forward where
  raw : Bytes
  query : Query
  overTcp : Bool
  started : Instant
  asked : SocketAddr
  left : List SocketAddr
  deriving DecidableEq

/-- Where a reply comes from, as the telemetry counts it. -/
inductive Source where
  | malformed | zone | refused | cached | loop | full | forwarded | stale | failed
  deriving DecidableEq

inductive Progress where
  | replied (source : Source) (reply : Bytes)
  | waiting (forward : Forward)
  deriving DecidableEq

/-- Whether a response makes the next upstream be tried. -/
def isFailureResponse (raw : Bytes) : Bool :=
  if raw.length < 4 then false
  else
    let rcode := raw.getD 3 0 &&& 0x0F
    rcode = 2 || rcode = 5

def servfail (query : Query) : Bytes := encodeResponse query .serverFailure plainFlags [] [] []

namespace Forward

def inFlight (forward : Forward) : InFlight :=
  ⟨forward.asked.ip, toAsciiLowercase forward.query.name, forward.query.recordType⟩

/-- Whether `try_upstream` takes a message for the answer: over UDP it has the id of the query. -/
def Takes (forward : Forward) (answer : Bytes) : Prop :=
  forward.overTcp = true ∨ 2 ≤ answer.length ∧ answer.take 2 = forward.raw.take 2

instance (forward : Forward) (answer : Bytes) : Decidable (forward.Takes answer) := inferInstanceAs (Decidable (_ ∨ _))

end Forward

namespace Server

/-- A server before its first query. -/
def new (authority : Authority) (upstreams : List SocketAddr) : Server :=
  ⟨authority, upstreams, maxInFlightForwards, [], [], .empty⟩

/-- The upstream that a query of a LAN peer comes back from. -/
def loopFrom (server : Server) (peer : IpAddr) (query : Query) : Option SocketAddr :=
  match server.upstreams.find? (·.ip = peer) with
  | none => none
  | some upstream =>
      if ⟨peer, toAsciiLowercase query.name, query.recordType⟩ ∈ server.forwarding then some upstream else none

def quarantine (server : Server) (now : Instant) (upstream : SocketAddr) : Server :=
  let kept := server.quarantined.filter fun (_, until') => now < until'
  { server with
    quarantined :=
      if kept.any fun (known, _) => known = upstream then kept else kept ++ [(upstream, now + loopQuarantine.nanos)] }

def isQuarantined (server : Server) (now : Instant) (upstream : SocketAddr) : Bool :=
  server.quarantined.any fun (known, until') => known = upstream && now < until'

/-- The end of a forward: the permit is given back, and the answer is cached or a stale one is looked for. -/
def finish (server : Server) (now : Instant) (query : Query) (answer : Option Bytes) : Server × Progress :=
  let server := { server with permits := server.permits + 1 }
  match answer with
  | some response =>
      ({ server with cache := server.cache.insert now query.name query.recordType response },
        .replied .forwarded response)
  | none =>
      match server.cache.lookupStale now query.name query.recordType query.id with
      | some stale => (server, .replied .stale stale)
      | none => (server, .replied .failed (servfail query))

/-- The loop of `forward` up to the next upstream that is asked. -/
def ask (server : Server) (now : Instant) (raw : Bytes) (query : Query) (overTcp : Bool) (started : Instant) :
    List SocketAddr → Server × Progress
  | [] => server.finish now query none
  | upstream :: left =>
      if upstreamTotalTimeout ≤ .between started now then server.finish now query none
      else if server.isQuarantined now upstream then ask server now raw query overTcp started left
      else
        let forward : Forward := ⟨raw, query, overTcp, started, upstream, left⟩
        ({ server with forwarding := server.forwarding ++ [forward.inFlight] }, .waiting forward)

/-- An attempt has ended, with an answer or without. -/
def resume (server : Server) (now : Instant) (forward : Forward) (answer : Option Bytes) : Server × Progress :=
  let server := { server with forwarding := server.forwarding.erase forward.inFlight }
  match answer.filter fun answer => !isFailureResponse answer with
  | some answer => server.finish now forward.query (some answer)
  | none => server.ask now forward.raw forward.query forward.overTcp forward.started forward.left

/-- A query of a LAN peer for a name in no zone. -/
def receiveForeign (server : Server) (now : Instant) (raw : Bytes) (query : Query) (overTcp : Bool) (peer : IpAddr) :
    Server × Progress :=
  let cached := server.cache.lookup now query.name query.recordType query.id
  match cached.filter fun cached => overTcp || cached.length ≤ udpPayloadLimit raw with
  | some cached => (server, .replied .cached cached)
  | none =>
      match server.loopFrom peer query with
      | some upstream => (server.quarantine now upstream, .replied .loop (servfail query))
      | none =>
          if server.permits = 0 then (server, .replied .full (servfail query))
          else { server with permits := server.permits - 1 }.ask now raw query overTcp now server.upstreams

/-- `handle_query` until the reply or the first upstream. -/
def receive (server : Server) (now : Instant) (raw : Bytes) (overTcp : Bool) (peer : IpAddr) : Server × Progress :=
  match decodeQuery raw with
  | .error _ => (server, .replied .malformed (formatError raw))
  | .ok query =>
      let lan := server.authority.lan.filter fun _ => isLanPeer peer
      match server.authority.zones.find? fun zone => zone.contains query.name, lan with
      | some zone, some view =>
          (server, .replied .zone (respond query (some (lanHorizon zone server.authority.publicIp view.lanIp)) overTcp))
      | some zone, none => (server, .replied .zone (respond query (some zone) overTcp))
      | none, some _ => server.receiveForeign now raw query overTcp peer
      | none, none => (server, .replied .refused (respond query none overTcp))

end Server

end Selfhost.Dns
