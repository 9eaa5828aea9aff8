import Selfhost.Dns.Lemmas.Held
import Selfhost.Dns.Lemmas.Resolve
import Selfhost.Lib.Run

/-!
# Replies from the cache

A stored message is given to other askers under their ids, but with the question of the asker it was fetched for, and on
the stale path whatever the size that the asker takes. `cached_replies_fit` says that every reply from the cache fits its
asker as long as the last answer of an upstream for the name has the question of the asker and is not too long where it is
stale; `other_spelling` and `stale_too_long` are runs in which it does not.
-/

namespace Selfhost.Dns

open Selfhost.Lib

/-- A reply that was sent, and the query it answers. -/
structure Reply where
  raw : Bytes
  overTcp : Bool
  source : Source
  bytes : Bytes
  deriving DecidableEq

/-- An answer that an upstream gave to a query, and when. -/
structure Fetched where
  query : Query
  response : Bytes
  time : Instant
  deriving DecidableEq

/-- The server under way: the time, the queries that wait for an upstream, the answers of the upstreams so far, the last
one first, and the replies so far. -/
structure Traffic where
  server : Server
  now : Instant
  forwards : List Forward
  answers : List Fetched
  replies : List Reply
  deriving DecidableEq

inductive Traffic.Event where
  | query (raw : Bytes) (overTcp : Bool) (peer : IpAddr)
  | ended (i : Nat) (answer : Option Bytes)
  | cancelled (i : Nat)
  | wait (span : Nat)
  | reorder (entries : List (CacheKey × CacheEntry))
  | edit (authority : Authority)

/-- The reply is under the id of its query, has its question and is not too long for it. -/
structure Reply.Fit (reply : Reply) : Prop where
  id_eq : u16At reply.bytes 0 = u16At reply.raw 0
  question_eq : question reply.bytes = question reply.raw
  size : reply.overTcp = false → reply.bytes.length ≤ udpPayloadLimit reply.raw

def Source.isCache : Source → Bool
  | .cached | .stale => true
  | _ => false

namespace Traffic

def start (authority : Authority) (upstreams : List SocketAddr) : Traffic := ⟨.new authority upstreams, 0, [], [], []⟩

/-- A query has got its reply, or waits. -/
def settle (t : Traffic) (raw : Bytes) (overTcp : Bool) (result : Server × Progress) : Traffic :=
  match result.2 with
  | .replied source bytes => { t with server := result.1, replies := ⟨raw, overTcp, source, bytes⟩ :: t.replies }
  | .waiting forward => { t with server := result.1, forwards := t.forwards ++ [forward] }

/-- The answers of the upstreams when an attempt has ended: one that is not a failure is kept in mind. -/
def remember (t : Traffic) (forward : Forward) (answer : Option Bytes) : List Fetched :=
  match answer.filter fun answer => !isFailureResponse answer with
  | some response => ⟨forward.query, response, t.now⟩ :: t.answers
  | none => t.answers

def step (t : Traffic) : Event → Option Traffic
  | .query raw overTcp peer => some (t.settle raw overTcp (t.server.receive t.now raw overTcp peer))
  | .ended i answer =>
      match t.forwards[i]? with
      | none => none
      | some forward =>
          if answer.all fun response => forward.Takes response then
            some ({ t with forwards := t.forwards.eraseIdx i, answers := t.remember forward answer }.settle forward.raw
              forward.overTcp (t.server.resume t.now forward answer))
          else none
  | .cancelled i =>
      match t.forwards[i]? with
      | none => none
      | some forward =>
          some { t with
            forwards := t.forwards.eraseIdx i
            server := { t.server with
              permits := t.server.permits + 1, forwarding := t.server.forwarding.erase forward.inFlight } }
  | .wait span => some { t with now := t.now + span }
  | .reorder entries =>
      if h : entries.Perm t.server.cache.entries then
        some { t with
          server := { t.server with cache := ⟨entries, (h.map Prod.fst).nodup_iff.mpr t.server.cache.unique⟩ } }
      else none
  | .edit authority => some { t with server := { t.server with authority } }

/-! ## Answers that fit -/

/-- Queries for one name, up to case, and one type. -/
def SameName (query other : Query) : Prop :=
  eqIgnoreAsciiCase query.name other.name = true ∧ query.recordType.code = other.recordType.code

instance (query other : Query) : Decidable (SameName query other) := inferInstanceAs (Decidable (_ ∧ _))

/-- What can be cached of an answer to a query for the name and the type of another. -/
def entryFor (query : Query) (fetched : Fetched) : Option CacheEntry :=
  if SameName fetched.query query then cacheable fetched.time fetched.response else none

/-- The last answer for the name and the type of a query that could be cached. -/
def latest (fetched : List Fetched) (query : Query) : Option CacheEntry := fetched.findSome? (entryFor query)

/-- The last answer for the name and the type of a query, unless it was evicted. -/
def kept (t : Traffic) (query : Query) : Option CacheEntry :=
  if (t.server.cache.get (.new query.name query.recordType)).isSome then latest t.answers query else none

/-- A fresh answer that is short enough has the question of the query. -/
def FreshFits (t : Traffic) (raw : Bytes) (query : Query) (overTcp : Bool) : Prop :=
  ∀ entry, t.kept query = some entry → entry.Fresh t.now →
    (overTcp = true ∨ entry.response.length ≤ udpPayloadLimit raw) → question entry.response = question raw

/-- A stale answer has the question of the query, and is short enough. -/
def StaleFits (t : Traffic) (raw : Bytes) (query : Query) (overTcp : Bool) : Prop :=
  ∀ entry, t.kept query = some entry → ¬entry.Fresh t.now → ¬entry.Old t.now →
    question entry.response = question raw ∧ (overTcp = true ∨ entry.response.length ≤ udpPayloadLimit raw)

/-- Where the cache is asked, the last answer for the name fits. -/
def Suitable (t : Traffic) : Event → Prop
  | .query raw overTcp peer =>
      ∀ query, decodeQuery raw = .ok query → t.server.Foreign peer query →
        t.FreshFits raw query overTcp ∧
          (t.server.loopFrom peer query = none → 0 < t.server.permits →
            t.server.Exhausted t.now t.now t.server.upstreams → t.StaleFits raw query overTcp)
  | .ended i answer =>
      ∀ forward, t.forwards[i]? = some forward → (answer.all fun response => forward.Takes response) = true →
        (∀ response, answer = some response → isFailureResponse response = true) →
        t.server.Exhausted t.now forward.started forward.left →
        t.StaleFits forward.raw forward.query forward.overTcp
  | _ => True

/-! ## The cache and the answers -/

/-- What the cache has for a query is the last answer for its name and type. -/
def Told (cache : DnsCache) (fetched : List Fetched) : Prop :=
  ∀ query entry, cache.get (.new query.name query.recordType) = some entry → latest fetched query = some entry

theorem sameName_iff {query other : Query} :
    SameName query other ↔
      CacheKey.new query.name query.recordType = CacheKey.new other.name other.recordType := by
  rw [CacheKey.new, CacheKey.new, CacheKey.mk.injEq, SameName, eqIgnoreAsciiCase, beq_iff_eq]

/-- A cached answer was decoded once. -/
theorem decoded_of_latest {fetched : List Fetched} {query : Query} {entry : CacheEntry}
    (h : latest fetched query = some entry) : ∃ decoded, decodeResponse entry.response = .ok decoded := by
  obtain ⟨answer, -, hentry⟩ := List.exists_of_findSome?_eq_some h
  unfold entryFor at hentry
  split at hentry
  · obtain ⟨hresponse, -, decoded, hdecoded, -⟩ := decoded_of_cacheable hentry
    exact ⟨decoded, hresponse ▸ hdecoded⟩
  · cases hentry

/-- An insert keeps what the cache has in step with the answers: under its key it puts the answer, and what it evicts is
no longer asked for. -/
theorem Told.insert {cache : DnsCache} {fetched : List Fetched} (h : Told cache fetched) (now : Instant) (query : Query)
    (response : Bytes) :
    Told (cache.insert now query.name query.recordType response) (⟨query, response, now⟩ :: fetched) := by
  intro other entry hget
  unfold DnsCache.insert at hget
  rw [latest, List.findSome?_cons, entryFor]
  cases hcacheable : cacheable now response with
  | none =>
      rw [hcacheable] at hget
      rw [ite_self]
      exact h other entry hget
  | some stored =>
      rw [hcacheable] at hget
      dsimp only at hget
      rw [DnsCache.get_store] at hget
      by_cases hsame : SameName query other
      · rw [if_pos (sameName_iff.mp hsame).symm] at hget
        rw [if_pos hsame]
        exact hget
      · rw [if_neg (mt (fun heq => sameName_iff.mpr heq.symm) hsame)] at hget
        rw [if_neg hsame]
        split at hget
        · cases hget
        · exact h other entry hget

/-- What is kept of the answers is what the cache has. -/
theorem kept_iff {t : Traffic} (h : Told t.server.cache t.answers) {query : Query} {entry : CacheEntry} :
    t.kept query = some entry ↔ t.server.cache.get (.new query.name query.recordType) = some entry := by
  unfold kept
  cases hget : t.server.cache.get (.new query.name query.recordType) with
  | none => exact iff_of_false (fun heq => by cases heq) fun heq => by cases heq
  | some held =>
      rw [Option.isSome_some, if_pos rfl, h query held hget]

variable {cache : DnsCache} {now : Instant} {raw reply : Bytes} {query : Query} {overTcp : Bool}

theorem id_of_decodeQuery (h : decodeQuery raw = .ok query) : query.id = u16At raw 0 := by
  unfold decodeQuery at h
  split at h
  · cases h
  · split at h
    · cases h
    · obtain ⟨⟨name, next⟩, -, h⟩ := bind_ok h
      obtain ⟨recordType, -, h⟩ := bind_ok h
      cases h
      rfl

/-- A fresh entry is given under the id of the asker, with its own question and length. -/
theorem lookup_cases {t : Traffic} (h : Told t.server.cache t.answers) (query : Query) :
    (∃ entry reply, t.kept query = some entry ∧ entry.Fresh t.now ∧
      t.server.cache.lookup t.now query.name query.recordType query.id = some reply ∧
      ∃ change, Replayed change query.id entry.response reply) ∨
      t.server.cache.lookup t.now query.name query.recordType query.id = none ∧
        ∀ entry, t.kept query = some entry → ¬entry.Fresh t.now := by
  unfold DnsCache.lookup
  cases hget : t.server.cache.get (.new query.name query.recordType) with
  | none =>
      refine Or.inr ⟨rfl, fun entry hkept => ?_⟩
      rw [kept_iff h, hget] at hkept
      cases hkept
  | some entry =>
      have hkept := (kept_iff h).mpr hget
      dsimp only
      split
      · rename_i hexpired
        refine Or.inr ⟨rfl, fun other hother => ?_⟩
        cases hkept.symm.trans hother
        exact CacheEntry.ttl_lt_elapsed.mp hexpired
      · rename_i hfresh
        rw [CacheEntry.ttl_lt_elapsed, not_not] at hfresh
        obtain ⟨decoded, hdecoded⟩ := decoded_of_latest (h query entry hget)
        exact Or.inl ⟨entry, _, hkept, hfresh, rfl, _, replayed_rewriteAnswer (length_of_decodeResponse hdecoded) _ _ _⟩

/-- A stale entry is given under the id of the asker, with its own question and length. -/
theorem lookupStale_cases {t : Traffic} (h : Told t.server.cache t.answers) (query : Query) :
    (∃ entry reply, t.kept query = some entry ∧ ¬entry.Fresh t.now ∧ ¬entry.Old t.now ∧
      t.server.cache.lookupStale t.now query.name query.recordType query.id = some reply ∧
      ∃ change, Replayed change query.id entry.response reply) ∨
      t.server.cache.lookupStale t.now query.name query.recordType query.id = none ∧
        ∀ entry, t.kept query = some entry → ¬entry.Fresh t.now → entry.Old t.now := by
  unfold DnsCache.lookupStale
  cases hget : t.server.cache.get (.new query.name query.recordType) with
  | none =>
      refine Or.inr ⟨rfl, fun entry hkept => ?_⟩
      rw [kept_iff h, hget] at hkept
      cases hkept
  | some entry =>
      have hkept := (kept_iff h).mpr hget
      dsimp only
      split
      · rename_i hfresh
        rw [← not_lt, CacheEntry.ttl_lt_elapsed, not_not] at hfresh
        refine Or.inr ⟨rfl, fun other hother hexpired => ?_⟩
        cases hkept.symm.trans hother
        exact absurd hfresh hexpired
      · rename_i hexpired
        rw [not_le, CacheEntry.ttl_lt_elapsed] at hexpired
        split
        · rename_i hold
          refine Or.inr ⟨rfl, fun other hother _ => ?_⟩
          cases hkept.symm.trans hother
          exact CacheEntry.window_lt_elapsed.mp hold
        · rename_i hyoung
          rw [CacheEntry.window_lt_elapsed] at hyoung
          obtain ⟨decoded, hdecoded⟩ := decoded_of_latest (h query entry hget)
          exact Or.inl ⟨entry, _, hkept, hexpired, hyoung, rfl, _,
            replayed_rewriteAnswer (length_of_decodeResponse hdecoded) _ _ _⟩

/-- A replayed message fits exactly when the stored one has the question of the asker and is short enough. -/
theorem fit_replayed_iff {change : UInt32 → UInt32} {stored : Bytes} {source : Source}
    (hreplayed : Replayed change query.id stored reply) (hdecode : decodeQuery raw = .ok query) :
    Reply.Fit ⟨raw, overTcp, source, reply⟩ ↔
      question stored = question raw ∧ (overTcp = true ∨ stored.length ≤ udpPayloadLimit raw) := by
  have hquestion := hreplayed.question_eq
  have hlength := hreplayed.length_eq
  constructor
  · intro h
    refine ⟨hquestion.symm.trans h.question_eq, ?_⟩
    rw [← hlength]
    cases overTcp with
    | true => exact Or.inl rfl
    | false => exact Or.inr (h.size rfl)
  · rintro ⟨hsame, hsize⟩
    refine ⟨hreplayed.id_eq.trans (id_of_decodeQuery hdecode), hquestion.trans hsame, ?_⟩
    rintro rfl
    rw [hlength]
    exact hsize.resolve_left Bool.false_ne_true

/-! ## Steps -/

/-- What is known of a step of the server on a query, behind the answers that there are. -/
structure Sound (raw : Bytes) (overTcp : Bool) (fetched : List Fetched) (result : Server × Progress) : Prop where
  cache : Told result.1.cache fetched
  reply : ∀ source bytes, result.2 = .replied source bytes → source.isCache = true →
    Reply.Fit ⟨raw, overTcp, source, bytes⟩
  waiting : ∀ forward, result.2 = .waiting forward → decodeQuery forward.raw = .ok forward.query

theorem sound_own {server : Server} {fetched : List Fetched} {source : Source} {bytes : Bytes}
    (hcache : Told server.cache fetched) (hsource : source.isCache = false) :
    Sound raw overTcp fetched (server, .replied source bytes) where
  cache := hcache
  reply := by
    intro source' bytes' heq hcached
    cases heq
    rw [hsource] at hcached
    cases hcached
  waiting := fun forward heq => (nomatch heq)

section

variable {t : Traffic} (htold : Told t.server.cache t.answers) (hdecode : decodeQuery raw = .ok query)
  (server : Server) (hcache : server.cache = t.server.cache)

include htold hdecode hcache

theorem sound_finish_none (hfits : t.StaleFits raw query overTcp) :
    Sound raw overTcp t.answers (server.finish t.now query none) := by
  rcases server.finish_none t.now query with ⟨stale, hstale, heq⟩ | heq
  · rw [heq]
    refine ⟨hcache ▸ htold, ?_, fun forward h => (nomatch h)⟩
    intro source bytes hreplied _
    cases hreplied
    rw [hcache] at hstale
    rcases lookupStale_cases htold query with ⟨entry, reply, hkept, hexpired, hyoung, hlookup, _, hreplayed⟩ | ⟨hnone, -⟩
    · cases hstale.symm.trans hlookup
      exact (fit_replayed_iff hreplayed hdecode).mpr (hfits entry hkept hexpired hyoung)
    · cases hstale.symm.trans hnone
  · rw [heq]
    exact sound_own (hcache ▸ htold) rfl

/-- A stale answer that does not fit is given all the same. -/
theorem unfit_finish_none (hunfit : ¬t.StaleFits raw query overTcp) :
    ∃ reply, (server.finish t.now query none).2 = .replied .stale reply ∧
      ¬Reply.Fit ⟨raw, overTcp, .stale, reply⟩ := by
  unfold StaleFits at hunfit
  push Not at hunfit
  obtain ⟨entry, hkept, hexpired, hyoung, hbad⟩ := hunfit
  rcases lookupStale_cases htold query with ⟨other, reply, hother, -, -, hlookup, _, hreplayed⟩ | ⟨-, hnone⟩
  · cases hkept.symm.trans hother
    rw [← hcache] at hlookup
    refine ⟨reply, ?_, fun hfit => ?_⟩
    · unfold Server.finish
      dsimp only
      rw [hlookup]
    · obtain ⟨hquestion, hsize⟩ := (fit_replayed_iff hreplayed hdecode).mp hfit
      obtain ⟨hudp, hlong⟩ := hbad hquestion
      exact hsize.elim hudp (Nat.not_le.mpr hlong)
  · exact absurd (hnone entry hkept hexpired) hyoung

theorem sound_ask {started : Instant} {upstreams : List SocketAddr}
    (hfits : server.Exhausted t.now started upstreams → t.StaleFits raw query overTcp) :
    Sound raw overTcp t.answers (server.ask t.now raw query overTcp started upstreams) := by
  rcases server.ask_cases t.now raw query overTcp started upstreams with
    ⟨hexhausted, heq⟩ | ⟨upstream, left, -, heq⟩
  · rw [heq]
    exact sound_finish_none htold hdecode server hcache (hfits hexhausted)
  · rw [heq]
    refine ⟨hcache ▸ htold, fun source bytes h => (nomatch h), ?_⟩
    intro forward hwaiting
    cases hwaiting
    exact hdecode

end

theorem sound_receive {t : Traffic} {peer : IpAddr} (htold : Told t.server.cache t.answers)
    (hok : t.Suitable (.query raw overTcp peer)) :
    Sound raw overTcp t.answers (t.server.receive t.now raw overTcp peer) := by
  rcases t.server.receive_cases t.now raw overTcp peer with ⟨source, hown, heq⟩ | ⟨query, hdecode, hforeign, heq⟩
  · rw [heq fun _ _ => []]
    refine sound_own htold ?_
    cases source <;> first
      | rfl
      | cases hown
  · rw [heq]
    obtain ⟨hfresh, hstale⟩ := hok query hdecode hforeign
    rcases t.server.receiveForeign_cases t.now raw query overTcp peer with
      ⟨cached, hlookup, hsize, heq⟩ | ⟨upstream, heq⟩ | heq | ⟨hloop, hpermits, heq⟩
    · rw [heq]
      refine ⟨htold, ?_, fun forward h => (nomatch h)⟩
      intro source bytes hreplied _
      cases hreplied
      rcases lookup_cases htold query with ⟨entry, reply, hkept, hyoung, hsome, _, hreplayed⟩ | ⟨hnone, -⟩
      · cases hlookup.symm.trans hsome
        rw [hreplayed.length_eq] at hsize
        exact (fit_replayed_iff hreplayed hdecode).mpr ⟨hfresh entry hkept hyoung hsize, hsize⟩
      · cases hlookup.symm.trans hnone
    · rw [heq]
      exact sound_own htold rfl
    · rw [heq]
      exact sound_own htold rfl
    · rw [heq]
      exact sound_ask htold hdecode { t.server with permits := t.server.permits - 1 } rfl fun hexhausted =>
        hstale hloop hpermits hexhausted

theorem sound_resume {t : Traffic} {i : Nat} {forward : Forward} {answer : Option Bytes}
    (htold : Told t.server.cache t.answers) (hforward : t.forwards[i]? = some forward)
    (htakes : (answer.all fun response => forward.Takes response) = true)
    (hdecode : decodeQuery forward.raw = .ok forward.query) (hok : t.Suitable (.ended i answer)) :
    Sound forward.raw forward.overTcp (t.remember forward answer) (t.server.resume t.now forward answer) := by
  unfold remember
  cases hanswer : answer.filter fun answer => !isFailureResponse answer with
  | some response =>
      unfold Server.resume
      dsimp only
      rw [hanswer]
      refine ⟨htold.insert t.now forward.query response, ?_, fun forward h => (nomatch h)⟩
      intro source bytes hreplied hcached
      cases hreplied
      cases hcached
  | none =>
      have hfailed : ∀ response, answer = some response → isFailureResponse response = true := by
        rintro response rfl
        simpa using Option.filter_eq_none_iff.mp hanswer response rfl
      unfold Server.resume
      dsimp only
      rw [hanswer]
      exact sound_ask htold hdecode { t.server with forwarding := t.server.forwarding.erase forward.inFlight } rfl
        fun hexhausted => hok forward hforward htakes hfailed hexhausted

/-- A query for which the last answer does not fit gets it. -/
theorem unfit_receive {t : Traffic} {peer : IpAddr} (htold : Told t.server.cache t.answers)
    (hbad : ¬t.Suitable (.query raw overTcp peer)) :
    ∃ source reply, (t.server.receive t.now raw overTcp peer).2 = .replied source reply ∧ source.isCache = true ∧
      ¬Reply.Fit ⟨raw, overTcp, source, reply⟩ := by
  unfold Suitable at hbad
  push Not at hbad
  obtain ⟨query, hdecode, hforeign, hbad⟩ := hbad
  rw [Server.receive_of_foreign t.now overTcp hdecode hforeign]
  unfold Server.receiveForeign
  dsimp only
  by_cases hfresh : t.FreshFits raw query overTcp
  · obtain ⟨hloop, hpermits, hexhausted, hstale⟩ := hbad hfresh
    obtain ⟨entry, hkept, hexpired, -⟩ : ∃ entry, t.kept query = some entry ∧ ¬entry.Fresh t.now ∧ ¬entry.Old t.now := by
      unfold StaleFits at hstale
      push Not at hstale
      obtain ⟨entry, hkept, hexpired, hyoung, -⟩ := hstale
      exact ⟨entry, hkept, hexpired, hyoung⟩
    have hmissed : t.server.cache.lookup t.now query.name query.recordType query.id = none := by
      rcases lookup_cases htold query with ⟨other, reply, hother, hyoung, -, -⟩ | ⟨hnone, -⟩
      · cases hkept.symm.trans hother
        exact absurd hyoung hexpired
      · exact hnone
    rw [hmissed, Option.filter_none, hloop]
    dsimp only
    rw [if_neg (Nat.ne_of_gt hpermits), Server.ask_of_exhausted { t.server with permits := t.server.permits - 1 } hexhausted]
    obtain ⟨reply, hreplied, hunfit⟩ :=
      unfit_finish_none htold hdecode { t.server with permits := t.server.permits - 1 } rfl hstale
    exact ⟨.stale, reply, hreplied, rfl, hunfit⟩
  · unfold FreshFits at hfresh
    push Not at hfresh
    obtain ⟨entry, hkept, hyoung, hsize, hquestion⟩ := hfresh
    rcases lookup_cases htold query with ⟨other, reply, hother, -, hlookup, _, hreplayed⟩ | ⟨-, hnone⟩
    · cases hkept.symm.trans hother
      have hshort : (overTcp || decide (reply.length ≤ udpPayloadLimit raw)) = true := by
        rw [hreplayed.length_eq]
        simpa using hsize
      rw [hlookup, Option.filter_some, if_pos hshort]
      exact ⟨.cached, reply, rfl, rfl, fun hfit => hquestion ((fit_replayed_iff hreplayed hdecode).mp hfit).1⟩
    · exact absurd hyoung (hnone entry hkept)

/-- A query whose upstreams have failed gets the last answer although it does not fit. -/
theorem unfit_resume {t : Traffic} {i : Nat} {answer : Option Bytes} (htold : Told t.server.cache t.answers)
    (hforwards : ∀ forward ∈ t.forwards, decodeQuery forward.raw = .ok forward.query)
    (hbad : ¬t.Suitable (.ended i answer)) :
    ∃ forward reply, t.forwards[i]? = some forward ∧
      (answer.all fun response => forward.Takes response) = true ∧
      (t.server.resume t.now forward answer).2 = .replied .stale reply ∧
      ¬Reply.Fit ⟨forward.raw, forward.overTcp, .stale, reply⟩ := by
  unfold Suitable at hbad
  push Not at hbad
  obtain ⟨forward, hforward, htakes, hfailed, hexhausted, hstale⟩ := hbad
  have hnone : (answer.filter fun answer => !isFailureResponse answer) = none := by
    rw [Option.filter_eq_none_iff]
    intro response hresponse
    rw [hfailed response hresponse]
    exact Bool.false_ne_true
  obtain ⟨reply, hreplied, hunfit⟩ := unfit_finish_none htold (hforwards forward (List.mem_of_getElem? hforward))
    { t.server with forwarding := t.server.forwarding.erase forward.inFlight } rfl hstale
  refine ⟨forward, reply, hforward, htakes, ?_, hunfit⟩
  unfold Server.resume
  dsimp only
  rw [hnone]
  dsimp only
  rwa [Server.ask_of_exhausted { t.server with forwarding := t.server.forwarding.erase forward.inFlight } hexhausted]

/-! ## Runs -/

structure Inv (t : Traffic) : Prop where
  cache : Told t.server.cache t.answers
  forwards : ∀ forward ∈ t.forwards, decodeQuery forward.raw = .ok forward.query
  replies : ∀ reply ∈ t.replies, reply.source.isCache = true → reply.Fit

theorem inv_settle {t : Traffic} {result : Server × Progress}
    (hforwards : ∀ forward ∈ t.forwards, decodeQuery forward.raw = .ok forward.query)
    (hreplies : ∀ reply ∈ t.replies, reply.source.isCache = true → reply.Fit)
    (hresult : Sound raw overTcp t.answers result) : (t.settle raw overTcp result).Inv := by
  unfold settle
  split
  · rename_i source bytes hreplied
    refine ⟨hresult.cache, hforwards, ?_⟩
    intro reply hmem hcached
    rcases List.mem_cons.mp hmem with rfl | hmem
    · exact hresult.reply source bytes hreplied hcached
    · exact hreplies reply hmem hcached
  · rename_i forward hwaiting
    refine ⟨hresult.cache, ?_, hreplies⟩
    intro other hmem
    rcases List.mem_append.mp hmem with hmem | hmem
    · exact hforwards other hmem
    · rw [List.mem_singleton.mp hmem]
      exact hresult.waiting forward hwaiting

theorem inv_step {t u : Traffic} {event : Event} (h : t.Inv) (hok : t.Suitable event) (hstep : t.step event = some u) :
    u.Inv := by
  cases event with
  | query raw overTcp peer =>
      cases hstep
      exact inv_settle h.forwards h.replies (sound_receive h.cache hok)
  | ended i answer =>
      simp only [step] at hstep
      split at hstep
      · cases hstep
      · rename_i forward hforward
        split at hstep
        · rename_i htakes
          cases hstep
          have hdecode := h.forwards forward (List.mem_of_getElem? hforward)
          refine inv_settle ?_ h.replies (sound_resume h.cache hforward htakes hdecode hok)
          exact fun other hmem => h.forwards other (List.mem_of_mem_eraseIdx hmem)
        · cases hstep
  | cancelled i =>
      simp only [step] at hstep
      split at hstep
      · cases hstep
      · cases hstep
        exact ⟨h.cache, fun other hmem => h.forwards other (List.mem_of_mem_eraseIdx hmem), h.replies⟩
  | wait span =>
      cases hstep
      exact ⟨h.cache, h.forwards, h.replies⟩
  | reorder entries =>
      simp only [step] at hstep
      split at hstep
      · rename_i hperm
        cases hstep
        refine ⟨?_, h.forwards, h.replies⟩
        intro query entry hentry
        exact h.cache query entry ((DnsCache.get_of_perm hperm _).symm.trans hentry)
      · cases hstep
  | edit authority =>
      cases hstep
      exact ⟨h.cache, h.forwards, h.replies⟩

/-- A step that does not meet the condition gives a reply that does not fit. -/
theorem unfit_step {t u : Traffic} {event : Event} (h : t.Inv) (hbad : ¬t.Suitable event)
    (hstep : t.step event = some u) :
    ∃ reply ∈ u.replies, (reply.source = .cached ∨ reply.source = .stale) ∧ ¬reply.Fit := by
  cases event with
  | query raw overTcp peer =>
      cases hstep
      obtain ⟨source, reply, hreplied, hcached, hunfit⟩ := unfit_receive h.cache hbad
      refine ⟨⟨raw, overTcp, source, reply⟩, ?_, ?_, hunfit⟩
      · unfold settle
        rw [hreplied]
        exact List.mem_cons_self
      · cases source <;> first
          | exact Or.inl rfl
          | exact Or.inr rfl
          | cases hcached
  | ended i answer =>
      obtain ⟨forward, reply, hforward, htakes, hreplied, hunfit⟩ := unfit_resume h.cache h.forwards hbad
      simp only [step, hforward, if_pos htakes] at hstep
      cases hstep
      refine ⟨⟨forward.raw, forward.overTcp, .stale, reply⟩, ?_, Or.inr rfl, hunfit⟩
      unfold settle
      rw [hreplied]
      exact List.mem_cons_self
  | cancelled i => exact absurd trivial hbad
  | wait span => exact absurd trivial hbad
  | reorder entries => exact absurd trivial hbad
  | edit authority => exact absurd trivial hbad

theorem inv_start (authority : Authority) (upstreams : List SocketAddr) : (start authority upstreams).Inv where
  cache := by
    intro query entry h
    cases h
  forwards := by
    intro forward h
    cases h
  replies := by
    intro reply h
    cases h

/-- **Cached replies fit**: in every run in which the last answer for the name and the type of a query that asks the cache
has its question, and is short enough where it is stale, every reply that was taken from the cache is under the id of its
asker, has the asker's question and is not longer than the asker takes. A step that does not meet this condition gives a
reply from the cache that does not fit. -/
theorem cached_replies_fit {authority : Authority} {upstreams : List SocketAddr} {events : List Event} {t : Traffic}
    (hrun : Run step Suitable (start authority upstreams) events t) :
    (∀ reply ∈ t.replies, reply.source = .cached ∨ reply.source = .stale →
      u16At reply.bytes 0 = u16At reply.raw 0 ∧ question reply.bytes = question reply.raw ∧
        (reply.overTcp = false → reply.bytes.length ≤ udpPayloadLimit reply.raw)) ∧
      ∀ event u, t.step event = some u → ¬t.Suitable event →
        ∃ reply ∈ u.replies, (reply.source = .cached ∨ reply.source = .stale) ∧
          ¬(u16At reply.bytes 0 = u16At reply.raw 0 ∧ question reply.bytes = question reply.raw ∧
            (reply.overTcp = false → reply.bytes.length ≤ udpPayloadLimit reply.raw)) := by
  have hinv : t.Inv := by
    apply hrun.invariant
    · intro s event u hs hok hstep
      exact inv_step hs hok hstep
    · exact inv_start authority upstreams
  constructor
  · intro reply hreply hcached
    have hcache : reply.source.isCache = true := by
      rcases hcached with h | h
      · rw [h]
        rfl
      · rw [h]
        rfl
    obtain ⟨hid, hquestion, hsize⟩ := hinv.replies reply hreply hcache
    exact ⟨hid, hquestion, hsize⟩
  · intro event u hstep hbad
    obtain ⟨reply, hreply, hsource, hunfit⟩ := unfit_step hinv hbad hstep
    refine ⟨reply, hreply, hsource, ?_⟩
    rintro ⟨hid, hquestion, hsize⟩
    exact hunfit ⟨hid, hquestion, hsize⟩

/-! ## Two askers -/

/-- A server that has no zones and forwards for the LAN. -/
def lanAuthority : Authority := ⟨[], none, some ⟨⟨192, 168, 1, 10⟩⟩⟩

def resolvers : List SocketAddr := [⟨.v4 9 9 9 9, 53⟩]

def laptop : IpAddr := .v4 192 168 1 20

/-- A query without EDNS. -/
def plainQuery (id : UInt16) (name : String) (recordType : RecordType) : Bytes :=
  be16 id ++ [1, 0, 0, 1, 0, 0, 0, 0, 0, 0] ++ writeQuestion ⟨id, name.toList, recordType, true⟩

/-- The answer of the upstream to `plainQuery 1 "example.org"`. -/
def resolved (recordType : RecordType) (ttl : UInt32) (data : RecordData) : Bytes :=
  encodeResponse ⟨1, "example.org".toList, recordType, true⟩ .noError ⟨false, false⟩
    [⟨"example.org".toList, ttl, data⟩] [] []

def oneAddress : RecordData := .a ⟨198, 51, 100, 4⟩

/-- One query is answered by the upstream, and another follows. -/
def fetchAndAsk (name : String) : List Event :=
  [.query (plainQuery 1 "example.org" .a) false laptop, .ended 0 (some (resolved .a 300 oneAddress)),
    .query (plainQuery 2 name .a) false laptop]

/-- The server behind the first answer. -/
def fetched : Traffic where
  server := { Server.new lanAuthority resolvers with
    cache := DnsCache.empty.put (.new "example.org".toList .a) ⟨resolved .a 300 oneAddress, 0, 300⟩ }
  now := 0
  forwards := []
  answers := [⟨⟨1, "example.org".toList, .a, true⟩, resolved .a 300 oneAddress, 0⟩]
  replies := [⟨plainQuery 1 "example.org" .a, false, .forwarded, resolved .a 300 oneAddress⟩]

/-- The query while it waits for the upstream. -/
def waiting : Forward :=
  ⟨plainQuery 1 "example.org" .a, ⟨1, "example.org".toList, .a, true⟩, false, 0, ⟨.v4 9 9 9 9, 53⟩, []⟩

def underWay : Traffic where
  server := { Server.new lanAuthority resolvers with
    permits := maxInFlightForwards - 1
    forwarding := [waiting.inFlight] }
  now := 0
  forwards := [waiting]
  answers := []
  replies := []

theorem steps_fetch :
    (start lanAuthority resolvers).step (.query (plainQuery 1 "example.org" .a) false laptop) = some underWay ∧
      underWay.step (.ended 0 (some (resolved .a 300 oneAddress))) = some fetched :=
  ⟨by decide +kernel, by decide +kernel⟩

/-- The cached reply to a query in a spelling. -/
def replayed (name : String) : Traffic := fetched.settle (plainQuery 2 name .a) false
  (fetched.server.receive 0 (plainQuery 2 name .a) false laptop)

/-- Whoever asks again is answered from the cache, with the question of the first asker. -/
theorem replayed_heads :
    (replayed "example.org").replies.head?.map (·.source) = some .cached ∧
      (replayed "Example.ORG").replies.head?.map
        (fun reply => (reply.source, decide (question reply.bytes = question reply.raw))) = some (.cached, false) :=
  ⟨by decide +kernel, by decide +kernel⟩

/-- The second asker spells the name as the first. -/
theorem cached_replies_fit_same :
    ∃ reply, Run step Suitable (start lanAuthority resolvers) (fetchAndAsk "example.org") (replayed "example.org") ∧
      reply ∈ (replayed "example.org").replies ∧ reply.source = .cached ∧
      question reply.bytes = question reply.raw := by
  have hask : (start lanAuthority resolvers).Suitable (.query (plainQuery 1 "example.org" .a) false laptop) := by
    intro query _ _
    have hnone : (start lanAuthority resolvers).kept query = none := rfl
    refine ⟨fun entry h => ?_, fun _ _ _ entry h => ?_⟩
    · cases hnone.symm.trans h
    · cases hnone.symm.trans h
  have hfetch : underWay.Suitable (.ended 0 (some (resolved .a 300 oneAddress))) := by
    intro forward _ _ hfailed
    exact absurd (hfailed _ rfl) (by decide +kernel)
  have hagain : fetched.Suitable (.query (plainQuery 2 "example.org" .a) false laptop) := by
    intro query hquery _
    have hdecode : query = ⟨2, "example.org".toList, .a, true⟩ := by
      have h : decodeQuery (plainQuery 2 "example.org" .a) = .ok ⟨2, "example.org".toList, .a, true⟩ := by
        decide +kernel
      exact Except.ok.inj (hquery.symm.trans h)
    refine ⟨fun entry hentry _ _ => ?_, fun _ _ hexhausted => absurd hexhausted (by decide +kernel)⟩
    have hkept : fetched.kept ⟨2, "example.org".toList, .a, true⟩ = some ⟨resolved .a 300 oneAddress, 0, 300⟩ := by
      decide +kernel
    rw [hdecode] at hentry
    cases hkept.symm.trans hentry
    decide +kernel
  have hrun : Run step Suitable (start lanAuthority resolvers) (fetchAndAsk "example.org") (replayed "example.org") :=
    .cons hask steps_fetch.1 (.cons hfetch steps_fetch.2 (.cons hagain rfl .nil))
  obtain ⟨reply, hreply, hsource⟩ := Option.map_eq_some_iff.mp replayed_heads.1
  have hmem := List.mem_of_head? hreply
  exact ⟨reply, hrun, hmem, hsource, ((cached_replies_fit hrun).1 reply hmem (Or.inl hsource)).2.1⟩

/-- The second asker spells the name another way, and gets the spelling of the first. -/
theorem other_spelling :
    ∃ reply, Run step (fun _ _ => True) (start lanAuthority resolvers) (fetchAndAsk "Example.ORG")
        (replayed "Example.ORG") ∧
      reply ∈ (replayed "Example.ORG").replies ∧ reply.source = .cached ∧
      question reply.bytes ≠ question reply.raw := by
  obtain ⟨reply, hreply, hsource⟩ := Option.map_eq_some_iff.mp replayed_heads.2
  rw [Prod.mk.injEq, decide_eq_false_iff_not] at hsource
  exact ⟨reply, .cons trivial steps_fetch.1 (.cons trivial steps_fetch.2 (.cons trivial rfl .nil)), List.mem_of_head? hreply,
    hsource⟩

/-- A long answer is fetched over TCP and expires, and the upstream fails a second asker. -/
def fetchLongAndFail : List Event :=
  [.query (plainQuery 1 "example.org" .txt) true laptop,
    .ended 0 (some (resolved .txt 60 (.txt (List.replicate 600 'v')))), .wait (61 * nanosPerSec),
    .query (plainQuery 2 "example.org" .txt) false laptop, .ended 0 none]

/-- The second asker, over UDP and without EDNS, gets more than 512 bytes. -/
theorem stale_too_long :
    ∃ t reply, Run step (fun _ _ => True) (start lanAuthority resolvers) fetchLongAndFail t ∧ reply ∈ t.replies ∧
      reply.source = .stale ∧ reply.overTcp = false ∧ udpPayloadLimit reply.raw < reply.bytes.length := by
  have hany : (exec step (fun _ _ => True) (start lanAuthority resolvers) fetchLongAndFail).any
      (fun t => t.replies.any fun reply => reply.source = .stale ∧ reply.overTcp = false ∧
        udpPayloadLimit reply.raw < reply.bytes.length) = true := by
    decide +kernel
  cases hexec : exec step (fun _ _ => True) (start lanAuthority resolvers) fetchLongAndFail with
  | none =>
      rw [hexec] at hany
      cases hany
  | some t =>
      rw [hexec] at hany
      obtain ⟨reply, hmem, hlong⟩ := List.any_eq_true.mp hany
      exact ⟨t, reply, Run.of_exec hexec, hmem, of_decide_eq_true hlong⟩

end Traffic

end Selfhost.Dns
