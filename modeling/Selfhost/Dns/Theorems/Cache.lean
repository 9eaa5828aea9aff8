import Selfhost.Dns.Lemmas.Held
import Selfhost.Lib.Run

/-!
# The cache against the clock

A lookup leaves the cache as it is, so a history is one of inserts, of time that passes and of changes of the order of
the table. `cache_in_time` says what the cache holds and gives after every history. Where an answer lives longer than the
stale window, the window is measured from the wrong moment: `expired_too_old` is an answer that expired a second ago and
is not given.
-/

namespace Selfhost.Dns

open Selfhost.Lib

/-! ## Histories -/

/-- What was done to the table: an entry was stored, or taken out of the ones that were held. -/
inductive Change where
  | stored (key : CacheKey) (entry : CacheEntry)
  | evicted (key : CacheKey) (at' : Instant) (held : List (CacheKey × CacheEntry))

/-- The entry that was stored last under a key, if it was not taken out since. The latest change is first. -/
def heldIn : List Change → CacheKey → Option CacheEntry
  | [], _ => none
  | .stored k entry :: past, key => if key = k then some entry else heldIn past key
  | .evicted k _ _ :: past, key => if key = k then none else heldIn past key

/-- A cache, the time, and what was done to the cache. -/
structure Timeline where
  cache : DnsCache
  now : Instant
  past : List Change

inductive Act where
  | insert (qname : Str) (qtype : RecordType) (response : Bytes)
  | wait (span : Nat)
  | reorder (entries : List (CacheKey × CacheEntry))

namespace Timeline

def start : Timeline := ⟨.empty, 0, []⟩

/-- The change that makes room for a key. -/
def eviction (t : Timeline) (key : CacheKey) : List Change :=
  match t.cache.evicted t.now key with
  | none => []
  | some victim => [.evicted victim t.now t.cache.entries]

def step (t : Timeline) : Act → Option Timeline
  | .insert qname qtype response =>
      some { t with
        cache := t.cache.insert t.now qname qtype response
        past :=
          match cacheable t.now response with
          | none => t.past
          | some entry => .stored (.new qname qtype) entry :: (t.eviction (.new qname qtype) ++ t.past) }
  | .wait span => some { t with now := t.now + span }
  | .reorder entries =>
      if h : entries.Perm t.cache.entries then
        some { t with cache := ⟨entries, (h.map Prod.fst).nodup_iff.mpr t.cache.unique⟩ }
      else none

/-- Where an insert makes room, an entry is not both old and fresh, or none is overdue. -/
def Roomy (t : Timeline) : Act → Prop
  | .insert qname qtype response =>
      (cacheable t.now response).isSome = true → maxCacheEntries ≤ t.cache.entries.length →
        t.cache.get (.new qname qtype) = none →
        (∀ pair ∈ t.cache.entries, pair.2.Old t.now → ¬pair.2.Fresh t.now) ∨
          ∀ pair ∈ t.cache.entries, ¬pair.2.Overdue t.now
  | _ => True

/-- A fresh entry was not taken out while an overdue one was held. -/
def Fair : Change → Prop
  | .stored .. => True
  | .evicted key at' held =>
      ∀ entry, (key, entry) ∈ held → entry.Fresh at' → ∀ pair ∈ held, ¬pair.2.Overdue at'

structure Inv (t : Timeline) : Prop where
  bounded : t.cache.entries.length ≤ maxCacheEntries
  held : ∀ key, t.cache.get key = heldIn t.past key
  decoded : ∀ key entry, t.cache.get key = some entry → ∃ decoded, decodeResponse entry.response = .ok decoded
  fair : ∀ change ∈ t.past, Fair change

variable {t u : Timeline} {act : Act}

theorem heldIn_eviction (t : Timeline) (key k : CacheKey) :
    heldIn (t.eviction key ++ t.past) k = if some k = t.cache.evicted t.now key then none else heldIn t.past k := by
  unfold eviction
  split
  · rename_i hnone
    simp [hnone]
  · rename_i victim hsome
    simp [hsome, heldIn]

/-- What an insert takes out is fairly taken out. -/
theorem fair_eviction {qname : Str} {qtype : RecordType} {response : Bytes}
    (hok : t.Roomy (.insert qname qtype response)) (hcacheable : (cacheable t.now response).isSome = true)
    {change : Change} (h : change ∈ t.eviction (.new qname qtype)) : Fair change := by
  unfold eviction at h
  obtain ⟨hnone, -⟩ | ⟨victim, old, hsome, hfull, hnew, hmem, hold⟩ :=
    t.cache.evicted_cases t.now (.new qname qtype)
  · rw [hnone] at h
    cases h
  · rw [hsome] at h
    rw [List.mem_singleton.mp h]
    intro entry hentry hfresh pair hpair hoverdue
    have hsame : entry = old := by
      have hget := DnsCache.get_eq_some_iff.mpr hentry
      rw [DnsCache.get_eq_some_iff.mpr hmem] at hget
      exact (Option.some.inj hget).symm
    subst hsame
    rcases hold with hold | hyoung
    · rcases hok hcacheable hfull hnew with hcase | hcase
      · exact hcase _ hmem hold hfresh
      · exact hcase pair hpair hoverdue
    · exact hyoung pair hpair hoverdue.old

theorem inv_start : start.Inv where
  bounded := Nat.zero_le _
  held := fun _ => rfl
  decoded := fun _ _ h => (nomatch h)
  fair := fun _ h => (nomatch h)

theorem inv_insert {qname : Str} {qtype : RecordType} {response : Bytes} (h : t.Inv)
    (hok : t.Roomy (.insert qname qtype response)) (hstep : t.step (.insert qname qtype response) = some u) : u.Inv := by
  cases hstep
  cases hcacheable : cacheable t.now response with
  | none =>
      have hcache : t.cache.insert t.now qname qtype response = t.cache := by rw [DnsCache.insert, hcacheable]
      refine ⟨?_, ?_, ?_, ?_⟩
      · dsimp only
        rw [hcache]
        exact h.bounded
      · dsimp only
        rw [hcache]
        exact h.held
      · dsimp only
        rw [hcache]
        exact h.decoded
      · exact h.fair
  | some entry =>
      have hcache : t.cache.insert t.now qname qtype response = t.cache.store t.now (.new qname qtype) entry := by
        rw [DnsCache.insert, hcacheable]
      refine ⟨?_, ?_, ?_, ?_⟩
      · dsimp only
        rw [hcache]
        exact DnsCache.length_store h.bounded
      · intro key
        dsimp only
        rw [hcache, DnsCache.get_store, heldIn, heldIn_eviction, h.held]
      · intro key other hother
        dsimp only at hother
        rw [hcache, DnsCache.get_store] at hother
        split at hother
        · cases hother
          obtain ⟨hresponse, -, decoded, hdecoded, -⟩ := decoded_of_cacheable hcacheable
          exact ⟨decoded, hresponse ▸ hdecoded⟩
        · split at hother
          · cases hother
          · exact h.decoded key other hother
      · intro change hchange
        rcases List.mem_cons.mp hchange with rfl | hchange
        · trivial
        · rcases List.mem_append.mp hchange with hchange | hchange
          · exact fair_eviction hok (by rw [hcacheable]; rfl) hchange
          · exact h.fair change hchange

theorem inv_step (h : t.Inv) (hok : t.Roomy act) (hstep : t.step act = some u) : u.Inv := by
  cases act with
  | insert qname qtype response => exact inv_insert h hok hstep
  | wait span =>
      cases hstep
      exact ⟨h.bounded, h.held, h.decoded, h.fair⟩
  | reorder entries =>
      simp only [step] at hstep
      split at hstep
      · rename_i hperm
        cases hstep
        have hget : ∀ key, DnsCache.get ⟨entries, (hperm.map Prod.fst).nodup_iff.mpr t.cache.unique⟩ key =
            t.cache.get key := DnsCache.get_of_perm hperm
        refine ⟨hperm.length_eq ▸ h.bounded, ?_, ?_, h.fair⟩
        · intro key
          exact (hget key).trans (h.held key)
        · intro key entry hentry
          exact h.decoded key entry ((hget key).symm.trans hentry)
      · cases hstep

/-! ## Lookups -/

/-- A stored message as it is given to an asker some seconds later: under the asker's id, with the times to live of its
records, which the walk finds as the decoder does, lower by the seconds, and otherwise as it was. -/
structure Aged (id : UInt16) (seconds : Nat) (stored answer : Bytes) : Prop where
  id_eq : u16At answer 0 = id
  records : ∃ decoded offsets rest, decodeResponse stored = .ok decoded ∧ recordOffsets stored = offsets ++ rest ∧
    List.Forall₂ (SameTtl stored) offsets (decoded.answers ++ decoded.authority ++ decoded.additional)
  walk_eq : recordOffsets answer = recordOffsets stored
  type_eq : ∀ offset ∈ recordOffsets stored, u16At answer offset = u16At stored offset
  ttl_eq : ∀ offset ∈ recordOffsets stored, u16At stored offset ≠ optType →
    (u32At answer (offset + 4)).toNat = (u32At stored (offset + 4)).toNat - seconds
  frame : ∀ i, 2 ≤ i → (∀ offset ∈ recordOffsets stored, u16At stored offset ≠ optType →
    ¬(offset + 4 ≤ i ∧ i < offset + 8)) → answer[i]? = stored[i]?

theorem aged_lookup {entry : CacheEntry} {now : Instant} {decoded : Response} (hfresh : entry.Fresh now)
    (hdecoded : decodeResponse entry.response = .ok decoded) (id : UInt16) :
    Aged id ((now - entry.storedAt) / nanosPerSec) entry.response
      (rewriteAnswer entry.response id (entry.elapsed now) none) := by
  have hreplayed := replayed_rewriteAnswer (length_of_decodeResponse hdecoded) id (entry.elapsed now) none
  obtain ⟨offsets, rest, hoffsets, hall⟩ := recordOffsets_of_decodeResponse hdecoded
  refine ⟨hreplayed.id_eq, ⟨decoded, offsets, rest, hdecoded, hoffsets, hall⟩, hreplayed.offsets_eq, hreplayed.type_eq,
    ?_, hreplayed.frame⟩
  intro offset hoffset hopt
  rw [hreplayed.ttl_eq offset hoffset hopt, ttlChange, Option.getD_none, toNat_saturatingSub32,
    CacheEntry.secondsOf_elapsed hfresh]

/-- A fresh lookup finds the entry that is held, while it is fresh. -/
theorem lookup_iff (h : t.Inv) {qname : Str} {qtype : RecordType} {id : UInt16} {answer : Bytes} :
    t.cache.lookup t.now qname qtype id = some answer ↔
      ∃ entry, heldIn t.past (.new qname qtype) = some entry ∧ entry.Fresh t.now ∧
        answer = rewriteAnswer entry.response id (entry.elapsed t.now) none := by
  unfold DnsCache.lookup
  rw [h.held]
  cases heldIn t.past (.new qname qtype) with
  | none => simp
  | some entry => simp [CacheEntry.ttl_lt_elapsed, eq_comm]

/-- A stale lookup succeeds for an entry that is expired and not old. -/
theorem isSome_lookupStale (h : t.Inv) {qname : Str} {qtype : RecordType} {id : UInt16} :
    (t.cache.lookupStale t.now qname qtype id).isSome = true ↔
      ∃ entry, heldIn t.past (.new qname qtype) = some entry ∧ ¬entry.Fresh t.now ∧ ¬entry.Old t.now := by
  unfold DnsCache.lookupStale
  rw [h.held]
  cases heldIn t.past (.new qname qtype) with
  | none => simp
  | some entry =>
      simp only [← not_lt, CacheEntry.ttl_lt_elapsed, CacheEntry.window_lt_elapsed, not_not]
      split
      · rename_i hfresh
        simp [hfresh]
      · rename_i hexpired
        split
        · rename_i hold
          simp [hold]
        · rename_i hyoung
          simp [hexpired, hyoung]

/-- An entry that is old is fresh or overdue. -/
def Timely (entry : CacheEntry) (now : Instant) : Prop := entry.Old now → entry.Fresh now ∨ entry.Overdue now

theorem stale_iff {entry : CacheEntry} {now : Instant} :
    (¬entry.Fresh now ∧ ¬entry.Old now ↔ entry.Stale now) ↔ Timely entry now := by
  have hle : entry.storedAt ≤ entry.expiry := Nat.le_add_right _ _
  unfold Timely CacheEntry.Stale CacheEntry.Fresh CacheEntry.Old CacheEntry.Overdue
  generalize entry.expiry = expiry at hle ⊢
  generalize entry.storedAt = stored at hle ⊢
  have hnat : ∀ stored expiry now window : Nat, stored ≤ expiry →
      ((¬now ≤ expiry ∧ ¬stored + window < now ↔ expiry < now ∧ now ≤ expiry + window) ↔
        (stored + window < now → now ≤ expiry ∨ expiry + window < now)) := by
    intro stored expiry now window h
    omega
  exact hnat stored expiry now _ hle

/-- **The cache in time**: after every history in which every insert makes room as it should, the cache is within its
bound, a fresh lookup gives the entry that is held, aged, exactly while it is fresh, a stale lookup succeeds exactly for
an entry that expired within the stale window if that entry is timely, and no fresh entry was taken out while an overdue
one was held. -/
theorem cache_in_time {acts : List Act} (hrun : Run step Roomy start acts t) :
    t.cache.entries.length ≤ maxCacheEntries ∧
      (∀ qname qtype id, (t.cache.lookup t.now qname qtype id).isSome = true ↔
        ∃ entry, heldIn t.past (.new qname qtype) = some entry ∧ entry.Fresh t.now) ∧
      (∀ qname qtype id answer, t.cache.lookup t.now qname qtype id = some answer →
        ∃ entry, heldIn t.past (.new qname qtype) = some entry ∧
          Aged id ((t.now - entry.storedAt) / nanosPerSec) entry.response answer) ∧
      (∀ qname qtype id,
        ((t.cache.lookupStale t.now qname qtype id).isSome = true ↔
          ∃ entry, heldIn t.past (.new qname qtype) = some entry ∧ entry.Stale t.now) ↔
        ∀ entry, heldIn t.past (.new qname qtype) = some entry → Timely entry t.now) ∧
      ∀ change ∈ t.past, Fair change := by
  have hinv : t.Inv := hrun.invariant (fun s act u hs hok hstep => inv_step hs hok hstep) inv_start
  refine ⟨hinv.bounded, ?_, ?_, ?_, hinv.fair⟩
  · intro qname qtype id
    rw [Option.isSome_iff_exists]
    constructor
    · rintro ⟨answer, hlookup⟩
      obtain ⟨entry, hheld, hfresh, -⟩ := (lookup_iff hinv).mp hlookup
      exact ⟨entry, hheld, hfresh⟩
    · rintro ⟨entry, hheld, hfresh⟩
      exact ⟨_, (lookup_iff hinv).mpr ⟨entry, hheld, hfresh, rfl⟩⟩
  · intro qname qtype id answer hlookup
    obtain ⟨entry, hheld, hfresh, rfl⟩ := (lookup_iff hinv).mp hlookup
    obtain ⟨decoded, hdecoded⟩ := hinv.decoded _ entry ((hinv.held _).trans hheld)
    exact ⟨entry, hheld, aged_lookup hfresh hdecoded id⟩
  · intro qname qtype id
    rw [isSome_lookupStale hinv]
    cases heldIn t.past (.new qname qtype) with
    | none => simp
    | some entry => simpa using stale_iff

/-- An answer of an upstream: one address for `example.org`. -/
def upstreamAnswer (ttl : UInt32) : Bytes :=
  encodeResponse ⟨1234, "example.org".toList, .a, true⟩ .noError ⟨false, false⟩
    [⟨"example.org".toList, ttl, .a ⟨198, 51, 100, 4⟩⟩] [] []

/-- Stores an answer, and some seconds pass. -/
def storeAndWait (ttl : UInt32) (seconds : Nat) : List Act :=
  [.insert "example.org".toList .a (upstreamAnswer ttl), .wait (seconds * nanosPerSec)]

/-- The history behind `storeAndWait`. -/
def stored (ttl : UInt32) (seconds : Nat) : Timeline where
  cache := DnsCache.empty.insert 0 "example.org".toList .a (upstreamAnswer ttl)
  now := seconds * nanosPerSec
  past :=
    match cacheable 0 (upstreamAnswer ttl) with
    | none => []
    | some entry => [.stored (.new "example.org".toList .a) entry]

theorem run_stored (ttl : UInt32) (seconds : Nat) {ok : Timeline → Act → Prop}
    (hinsert : ok start (.insert "example.org".toList .a (upstreamAnswer ttl))) (hwait : ∀ t span, ok t (.wait span)) :
    Run step ok start (storeAndWait ttl seconds) (stored ttl seconds) := by
  refine .cons hinsert rfl (.cons (hwait _ _) ?_ .nil)
  simp [step, stored, start, eviction, DnsCache.evicted, DnsCache.empty, maxCacheEntries]

/-- An answer of five minutes is given after one. -/
theorem cache_in_time_minute :
    Run step Roomy start (storeAndWait 300 60) (stored 300 60) ∧
      ((stored 300 60).cache.lookup (stored 300 60).now "Example.ORG".toList .a 7).isSome = true := by
  have hrun : Run step Roomy start (storeAndWait 300 60) (stored 300 60) :=
    run_stored 300 60 (fun _ hfull => absurd hfull (by decide)) fun _ _ => trivial
  refine ⟨hrun, ((cache_in_time hrun).2.1 _ _ _).mpr ?_⟩
  have hheld : (heldIn (stored 300 60).past (.new "Example.ORG".toList .a)).map (·.expiry) =
      some (300 * nanosPerSec) := by decide +kernel
  obtain ⟨entry, hentry, hexpiry⟩ := Option.map_eq_some_iff.mp hheld
  refine ⟨entry, hentry, ?_⟩
  rw [CacheEntry.Fresh, hexpiry]
  decide

/-- An answer of two days expired a second ago, and is not given. -/
theorem expired_too_old :
    Run step (fun _ _ => True) start (storeAndWait 172800 172801) (stored 172800 172801) ∧
      (∃ entry, heldIn (stored 172800 172801).past (.new "example.org".toList .a) = some entry ∧
        entry.Stale (stored 172800 172801).now) ∧
      (stored 172800 172801).cache.lookupStale (stored 172800 172801).now "example.org".toList .a 7 = none := by
  refine ⟨run_stored _ _ trivial fun _ _ => trivial, ?_, by decide +kernel⟩
  have hheld : (heldIn (stored 172800 172801).past (.new "example.org".toList .a)).map (·.expiry) =
      some (172800 * nanosPerSec) := by decide +kernel
  obtain ⟨entry, hentry, hexpiry⟩ := Option.map_eq_some_iff.mp hheld
  refine ⟨entry, hentry, ?_⟩
  rw [CacheEntry.Stale, hexpiry]
  decide

end Timeline

end Selfhost.Dns
