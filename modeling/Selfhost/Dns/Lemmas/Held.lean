import Selfhost.Dns.Lemmas.Cache

/-!
# Entries of the cache

When an entry is fresh, stale or overdue, what the table holds under a key, and what an insert takes out of it.
-/

namespace Selfhost.Dns

open Selfhost.Lib

/-! ## Entries and time -/

namespace CacheEntry

def expiry (entry : CacheEntry) : Instant := entry.storedAt + entry.minTtl.toNat * nanosPerSec

def Fresh (entry : CacheEntry) (now : Instant) : Prop := now ≤ entry.expiry

/-- Expired, at most the stale window ago. -/
def Stale (entry : CacheEntry) (now : Instant) : Prop := entry.expiry < now ∧ now ≤ entry.expiry + staleWindow.nanos

/-- Expired for longer than the stale window. -/
def Overdue (entry : CacheEntry) (now : Instant) : Prop := entry.expiry + staleWindow.nanos < now

/-- Stored for longer than the stale window. -/
def Old (entry : CacheEntry) (now : Instant) : Prop := entry.storedAt + staleWindow.nanos < now

instance (entry : CacheEntry) (now : Instant) : Decidable (entry.Fresh now) := inferInstanceAs (Decidable (_ ≤ _))
instance (entry : CacheEntry) (now : Instant) : Decidable (entry.Stale now) := inferInstanceAs (Decidable (_ ∧ _))
instance (entry : CacheEntry) (now : Instant) : Decidable (entry.Overdue now) := inferInstanceAs (Decidable (_ < _))
instance (entry : CacheEntry) (now : Instant) : Decidable (entry.Old now) := inferInstanceAs (Decidable (_ < _))

variable {entry : CacheEntry} {now : Instant}

theorem nanos_ttl (entry : CacheEntry) : entry.ttl.nanos = entry.minTtl.toNat * nanosPerSec := by
  simp [ttl, Duration.fromSecs]

theorem nanos_ttl_lt (entry : CacheEntry) : entry.ttl.nanos < maxNanos := by
  have := entry.minTtl.toNat_lt
  rw [nanos_ttl, maxNanos, nanosPerSec]
  omega

theorem ttl_lt_elapsed : entry.ttl < entry.elapsed now ↔ ¬entry.Fresh now := by
  rw [Fresh, expiry, Nat.not_le, ← nanos_ttl]
  exact Duration.lt_between entry.nanos_ttl_lt

theorem window_lt_elapsed : staleWindow < entry.elapsed now ↔ entry.Old now := Duration.lt_between (by decide +kernel)

/-- The seconds that are taken off the times to live of a fresh entry are its age. -/
theorem secondsOf_elapsed (h : entry.Fresh now) :
    (secondsOf (entry.elapsed now)).toNat = (now - entry.storedAt) / nanosPerSec := by
  obtain ⟨hsecs, hle⟩ := Duration.asSecs_between h entry.minTtl.toNat_lt
  have := entry.minTtl.toNat_lt
  rw [secondsOf, elapsed, hsecs, UInt32.toNat_ofNat_of_lt' (by simp only [UInt32.size]; omega)]
  exact Nat.min_eq_left (by omega)

theorem Overdue.old (h : entry.Overdue now) : entry.Old now :=
  Nat.lt_of_le_of_lt (Nat.add_le_add_right (Nat.le_add_right _ _) _) h

end CacheEntry

/-! ## The table -/

namespace DnsCache

variable {cache : DnsCache} {key : CacheKey} {entry : CacheEntry} {now : Instant}

theorem get_eq_some_iff : cache.get key = some entry ↔ (key, entry) ∈ cache.entries := by
  unfold get
  rw [Option.map_eq_some_iff]
  constructor
  · rintro ⟨pair, hfind, rfl⟩
    obtain ⟨hmem, rfl⟩ := (find?_key_iff cache.unique).mp hfind
    exact hmem
  · intro hmem
    exact ⟨(key, entry), (find?_key_iff cache.unique).mpr ⟨hmem, rfl⟩, rfl⟩

theorem get_remove (cache : DnsCache) (key k : CacheKey) :
    (cache.remove key).get k = if k = key then none else cache.get k := by
  refine Option.ext fun entry => ?_
  rw [get_eq_some_iff]
  by_cases h : k = key
  · simp [remove, h]
  · simp [remove, h, get_eq_some_iff]

theorem get_put (cache : DnsCache) (key k : CacheKey) (entry : CacheEntry) :
    (cache.put key entry).get k = if k = key then some entry else cache.get k := by
  refine Option.ext fun other => ?_
  rw [get_eq_some_iff]
  by_cases h : k = key
  · simp [put, remove, h, eq_comm]
  · simp [put, remove, h, get_eq_some_iff]

theorem get_of_perm {other : DnsCache} (h : other.entries.Perm cache.entries) (key : CacheKey) :
    other.get key = cache.get key := by
  refine Option.ext fun entry => ?_
  rw [get_eq_some_iff, get_eq_some_iff]
  exact h.mem_iff

theorem length_remove (h : (key, entry) ∈ cache.entries) :
    (cache.remove key).entries.length + 1 = cache.entries.length := length_filter_ne_key cache.unique h

/-- An eviction takes an entry that is held, and one that is old if there is one. -/
theorem evictOne_some (hne : cache.entries ≠ []) :
    ∃ victim entry, evictOne now cache.entries = some victim ∧ (victim, entry) ∈ cache.entries ∧
      (entry.Old now ∨ ∀ pair ∈ cache.entries, ¬pair.2.Old now) := by
  unfold evictOne
  cases hfind : cache.entries.find? fun pair => staleWindow < pair.2.elapsed now with
  | some pair =>
      refine ⟨pair.1, pair.2, rfl, List.mem_of_find?_eq_some hfind, Or.inl ?_⟩
      exact CacheEntry.window_lt_elapsed.mp (by simpa using List.find?_some hfind)
  | none =>
      have hyoung : ∀ pair ∈ cache.entries, ¬pair.2.Old now := by
        intro pair hpair hold
        rw [List.find?_eq_none] at hfind
        exact hfind pair hpair (by simpa using CacheEntry.window_lt_elapsed.mpr hold)
      obtain ⟨pair, hpair⟩ : ∃ pair, cache.entries.argmin (fun pair => pair.2.remaining now) = some pair :=
        Option.ne_none_iff_exists'.mp fun h => hne (List.argmin_eq_none.mp h)
      refine ⟨pair.1, pair.2, ?_, List.argmin_mem hpair, Or.inr hyoung⟩
      exact congrArg (Option.map Prod.fst) hpair

theorem length_put_le (cache : DnsCache) (key : CacheKey) (entry : CacheEntry) :
    (cache.put key entry).entries.length ≤ cache.entries.length + 1 :=
  Nat.succ_le_succ (List.length_filter_le _ _)

/-- What makes room is an entry that is held. -/
theorem evicted_cases (cache : DnsCache) (now : Instant) (key : CacheKey) :
    (cache.evicted now key = none ∧ (cache.entries.length < maxCacheEntries ∨ cache.get key ≠ none)) ∨
      ∃ victim entry, cache.evicted now key = some victim ∧ maxCacheEntries ≤ cache.entries.length ∧
        cache.get key = none ∧ (victim, entry) ∈ cache.entries ∧
        (entry.Old now ∨ ∀ pair ∈ cache.entries, ¬pair.2.Old now) := by
  unfold evicted
  split
  · rename_i hfull
    have hne : cache.entries ≠ [] := by
      intro hempty
      rw [hempty] at hfull
      exact absurd hfull.1 (by decide)
    obtain ⟨victim, entry, hevict, hmem, hold⟩ := @evictOne_some cache now hne
    exact Or.inr ⟨victim, entry, hevict, hfull.1, hfull.2, hmem, hold⟩
  · rename_i hroom
    rw [not_and_or, Nat.not_le] at hroom
    exact Or.inl ⟨rfl, hroom⟩

/-- The cache stays within its bound. -/
theorem length_store (h : cache.entries.length ≤ maxCacheEntries) :
    (cache.store now key entry).entries.length ≤ maxCacheEntries := by
  unfold store
  obtain ⟨hnone, hroom⟩ | ⟨victim, old, hsome, -, -, hmem, -⟩ := cache.evicted_cases now key
  · rw [hnone]
    rcases hroom with hroom | hheld
    · have := cache.length_put_le key entry
      dsimp only
      omega
    · obtain ⟨old, hold⟩ := Option.ne_none_iff_exists'.mp hheld
      have hlength := length_remove (get_eq_some_iff.mp hold)
      have hput : (cache.put key entry).entries.length = (cache.remove key).entries.length + 1 := rfl
      dsimp only
      omega
  · rw [hsome]
    have hlength := length_remove hmem
    have := (cache.remove victim).length_put_le key entry
    dsimp only
    omega

theorem get_store (cache : DnsCache) (now : Instant) (key k : CacheKey) (entry : CacheEntry) :
    (cache.store now key entry).get k =
      if k = key then some entry else if some k = cache.evicted now key then none else cache.get k := by
  unfold store
  split
  · rename_i hnone
    simp [get_put, hnone]
  · rename_i victim hsome
    simp [get_put, get_remove, hsome]

end DnsCache

/-! ## What is stored -/

theorem length_of_decodeResponse {message : Bytes} {response : Response} (h : decodeResponse message = .ok response) :
    12 ≤ message.length := by
  unfold decodeResponse at h
  split at h
  · cases h
  · rename_i hlength
    exact Nat.not_lt.mp hlength

theorem decoded_of_cacheable {now : Instant} {response : Bytes} {entry : CacheEntry}
    (h : cacheable now response = some entry) :
    entry.response = response ∧ entry.storedAt = now ∧ ∃ decoded, decodeResponse response = .ok decoded ∧
      entry.minTtl = calculateMinTtl decoded decoded.answers.isEmpty := by
  unfold cacheable at h
  split at h
  · cases h
  · rename_i decoded hdecoded
    split at h
    · cases h
    · split at h
      · cases h
      · cases h
        exact ⟨rfl, rfl, decoded, hdecoded, rfl⟩

end Selfhost.Dns
