import Mathlib.Data.List.MinMax
import Selfhost.Dns.Wire
import Selfhost.Lib.Machine

/-!
# The cache of forwarded answers

`net/dns/src/cache.rs`. The table has no order of its own: the list of its entries is the order in which the next
eviction goes through them. Every operation reads the clock once.
-/

namespace Selfhost.Dns

open Selfhost.Lib

def maxCacheEntries : Nat := 4096

def staleWindow : Duration := .fromSecs (24 * 3600)

def staleTtl : UInt32 := 30

def defaultNegativeTtl : UInt32 := 300

/-- The type of EDNS records, whose time to live is none. -/
def optType : UInt16 := 41

def classicUdpSize : Nat := 512

def maxLabels : Nat := 127

/-! ## The walk over a message -/

/-- The loop of `skip_name`, with the number of labels that may still follow. -/
def skipLabels (message : Bytes) (left pos : Nat) : Option Nat :=
  match message[pos]? with
  | none => none
  | some len =>
      if len &&& 0xC0 = 0xC0 then
        if message.length ≤ pos + 1 then none else some (pos + 2)
      else if len = 0 then some (pos + 1)
      else
        match left with
        | 0 => none
        | left + 1 =>
            if message.length < pos + 1 + len.toNat then none
            else skipLabels message left (pos + 1 + len.toNat)

/-- The offset behind a name; a pointer ends it. -/
def skipName (message : Bytes) (pos : Nat) : Option Nat := skipLabels message maxLabels pos

def skipQuestions (message : Bytes) : Nat → Nat → Option Nat
  | 0, pos => some pos
  | count + 1, pos =>
      match skipName message pos with
      | none => none
      | some next => skipQuestions message count (next + 4)

/-- The offsets of the fixed fields of records one after another, as far as they can be read. -/
def walkRecords (message : Bytes) : Nat → Nat → List Nat
  | 0, _ => []
  | count + 1, pos =>
      match skipName message pos with
      | none => []
      | some next =>
          if message.length < next + 10 then []
          else next :: walkRecords message count (next + 10 + (u16At message (next + 8)).toNat)

def recordOffsets (message : Bytes) : List Nat :=
  if message.length < 12 then []
  else
    match skipQuestions message (u16At message 4).toNat 12 with
    | none => []
    | some pos =>
        walkRecords message ((u16At message 6).toNat + (u16At message 8).toNat + (u16At message 10).toNat) pos

def rewriteTtl (elapsed : UInt32) (pinned : Option UInt32) (answer : Bytes) (offset : Nat) : Bytes :=
  if u16At answer offset = optType then answer
  else
    let old := u32At answer (offset + 4)
    overwrite answer (offset + 4) (be32 (pinned.getD (saturatingSub32 old elapsed)))

/-- Whole seconds, in 32 bits. -/
def secondsOf (elapsed : Duration) : UInt32 := UInt32.ofNat (min elapsed.asSecs.toNat (2 ^ 32 - 1))

def rewriteAnswer (response : Bytes) (newId : UInt16) (elapsed : Duration) (pinned : Option UInt32) : Bytes :=
  let answer := (recordOffsets response).foldl (rewriteTtl (secondsOf elapsed) pinned) response
  if 2 ≤ answer.length then overwrite answer 0 (be16 newId) else answer

/-- The largest datagram that the sender of a query takes. -/
def udpPayloadLimit (query : Bytes) : Nat :=
  match (recordOffsets query).find? (fun offset => u16At query offset = optType) with
  | some offset => max (u16At query (offset + 2)).toNat classicUdpSize
  | none => classicUdpSize

/-! ## Entries -/

structure CacheEntry where
  response : Bytes
  storedAt : Instant
  minTtl : UInt32
  deriving DecidableEq, Repr

structure CacheKey where
  qname : Str
  qtype : UInt16
  deriving DecidableEq, Repr

def CacheKey.new (qname : Str) (qtype : RecordType) : CacheKey := ⟨toAsciiLowercase qname, qtype.code⟩

def DnsCache.isTruncated (response : Bytes) : Bool :=
  if response.length < 3 then false else response.getD 2 0 &&& 0x02 ≠ 0

/-- The time to live of a negative answer that a record sets. -/
def negativeTtl (record : Record) : Option UInt32 :=
  match record.data with
  | .soa soa => some (min record.ttl soa.minimum)
  | _ => none

def calculateMinTtl (response : Response) (isNegative : Bool) : UInt32 :=
  if isNegative then min ((response.authority.findSome? negativeTtl).getD defaultNegativeTtl) defaultNegativeTtl
  else (response.answers.map Record.ttl).min?.getD 0

namespace CacheEntry

def elapsed (entry : CacheEntry) (now : Instant) : Duration := .between entry.storedAt now

def ttl (entry : CacheEntry) : Duration := .fromSecs entry.minTtl.toUInt64

/-- The time until an entry expires, none when it has. -/
def remaining (now : Instant) (entry : CacheEntry) : Duration := .between now (entry.storedAt + entry.ttl.nanos)

end CacheEntry

/-- What `insert` stores of a response; `none` when it is not cached. -/
def cacheable (now : Instant) (response : Bytes) : Option CacheEntry :=
  match decodeResponse response with
  | .error _ => none
  | .ok decoded =>
      if decoded.code = .serverFailure ∨ decoded.code = .refused ∨ decoded.code = .formatError then none
      else if DnsCache.isTruncated response then none
      else some ⟨response, now, calculateMinTtl decoded decoded.answers.isEmpty⟩

/-! ## The cache -/

structure DnsCache where
  entries : List (CacheKey × CacheEntry)
  unique : (entries.map Prod.fst).Nodup
  deriving DecidableEq, Repr

/-- The key of the entry that `evict_one` takes out. -/
def evictOne (now : Instant) (entries : List (CacheKey × CacheEntry)) : Option CacheKey :=
  match entries.find? fun (_, entry) => staleWindow < entry.elapsed now with
  | some (key, _) => some key
  | none => (entries.argmin fun (_, entry) => entry.remaining now).map Prod.fst

namespace DnsCache

def empty : DnsCache := ⟨[], List.nodup_nil⟩

def get (cache : DnsCache) (key : CacheKey) : Option CacheEntry := (cache.entries.find? (·.1 = key)).map Prod.snd

def remove (cache : DnsCache) (key : CacheKey) : DnsCache where
  entries := cache.entries.filter (·.1 ≠ key)
  unique := cache.unique.sublist (List.filter_sublist.map Prod.fst)

/-- Stores an entry under a key, in the place of the one that is there. -/
def put (cache : DnsCache) (key : CacheKey) (entry : CacheEntry) : DnsCache where
  entries := (key, entry) :: (cache.remove key).entries
  unique := by
    rw [List.map_cons, List.nodup_cons]
    refine ⟨?_, (cache.remove key).unique⟩
    intro hmem
    obtain ⟨pair, hpair, hkey⟩ := List.mem_map.mp hmem
    simpa [hkey] using (List.mem_filter.mp hpair).2

/-- The key that `insert` makes room with. -/
def evicted (cache : DnsCache) (now : Instant) (key : CacheKey) : Option CacheKey :=
  if maxCacheEntries ≤ cache.entries.length ∧ cache.get key = none then evictOne now cache.entries else none

/-- The part of `insert` under the lock. -/
def store (cache : DnsCache) (now : Instant) (key : CacheKey) (entry : CacheEntry) : DnsCache :=
  match cache.evicted now key with
  | none => cache.put key entry
  | some victim => (cache.remove victim).put key entry

def insert (cache : DnsCache) (now : Instant) (qname : Str) (qtype : RecordType) (response : Bytes) : DnsCache :=
  match cacheable now response with
  | none => cache
  | some entry => cache.store now (.new qname qtype) entry

def lookup (cache : DnsCache) (now : Instant) (qname : Str) (qtype : RecordType) (newId : UInt16) : Option Bytes :=
  match cache.get (.new qname qtype) with
  | none => none
  | some entry =>
      if entry.ttl < entry.elapsed now then none
      else some (rewriteAnswer entry.response newId (entry.elapsed now) none)

def lookupStale (cache : DnsCache) (now : Instant) (qname : Str) (qtype : RecordType) (newId : UInt16) : Option Bytes :=
  match cache.get (.new qname qtype) with
  | none => none
  | some entry =>
      if entry.elapsed now ≤ entry.ttl then none
      else if staleWindow < entry.elapsed now then none
      else some (rewriteAnswer entry.response newId (.fromSecs 0) (some staleTtl))

end DnsCache

end Selfhost.Dns
