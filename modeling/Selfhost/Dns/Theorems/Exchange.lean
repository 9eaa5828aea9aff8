import Selfhost.Dns.Lemmas.Resolve
import Selfhost.Lib.Run

/-!
# Answers to answers

The decoder of queries does not look at the bit that marks a response. `answers_answered` says that every response gets a
reply, which is a response again, and that two servers that send each other their replies never stop.
-/

namespace Selfhost.Dns

open Selfhost.Lib

/-- The bit that marks a response. -/
def isResponse (message : Bytes) : Bool := message.getD 2 0 &&& 0x80 ≠ 0

theorem isResponse_encodeResponse (query : Query) (code : ResponseCode) (flags : ResponseFlags)
    (answers authority additional : List Record) :
    isResponse (encodeResponse query code flags answers authority additional) = true := by
  have hbyte : (encodeResponse query code flags answers authority additional).getD 2 0 = flagsHigh query flags := rfl
  rw [isResponse, hbyte, flagsHigh]
  cases flags.authoritative <;> cases flags.truncated <;> cases query.recursionDesired <;> decide

/-! ## One message -/

namespace Server

/-- However the attempts at upstreams end, and whatever the server is by then, there is a reply. -/
inductive Replies : Progress → Prop where
  | replied (source : Source) (reply : Bytes) : Replies (.replied source reply)
  | waiting (forward : Forward) :
      (∀ (server : Server) (now : Instant) (answer : Option Bytes), Replies (server.resume now forward answer).2) →
      Replies (.waiting forward)

/-- A reply, or a wait with fewer upstreams left, and the same upstreams. -/
structure Advance (server : Server) (bound : Nat) (result : Server × Progress) : Prop where
  upstreams : result.1.upstreams = server.upstreams
  left : ∀ forward, result.2 = .waiting forward → forward.left.length < bound

variable {server : Server} {now : Instant} {bound : Nat}

theorem advance_replied {result : Server} {source : Source} {reply : Bytes}
    (h : result.upstreams = server.upstreams) : Advance server bound (result, .replied source reply) :=
  ⟨h, fun _ heq => (nomatch heq)⟩

theorem advance_finish (server : Server) (bound : Nat) (now : Instant) (query : Query) (answer : Option Bytes) :
    Advance server bound (server.finish now query answer) := by
  cases answer with
  | some response => exact advance_replied rfl
  | none =>
      rcases server.finish_none now query with ⟨stale, -, heq⟩ | heq
      · rw [heq]
        exact advance_replied rfl
      · rw [heq]
        exact advance_replied rfl

theorem advance_ask (server : Server) (now : Instant) (raw : Bytes) (query : Query) (overTcp : Bool) (started : Instant)
    (upstreams : List SocketAddr) :
    Advance server upstreams.length (server.ask now raw query overTcp started upstreams) := by
  rcases server.ask_cases now raw query overTcp started upstreams with ⟨-, heq⟩ | ⟨upstream, left, hlength, heq⟩
  · rw [heq]
    exact advance_finish server _ now query none
  · rw [heq]
    refine ⟨rfl, ?_⟩
    intro forward hwaiting
    cases hwaiting
    exact hlength

theorem advance_resume (server : Server) (now : Instant) (forward : Forward) (answer : Option Bytes) :
    Advance server forward.left.length (server.resume now forward answer) := by
  rcases server.resume_cases now forward answer with ⟨response, -, heq⟩ | ⟨-, heq⟩
  · rw [heq]
    obtain ⟨hupstreams, hleft⟩ := advance_finish
      { server with forwarding := server.forwarding.erase forward.inFlight } forward.left.length now forward.query
      (some response)
    exact ⟨hupstreams, hleft⟩
  · rw [heq]
    obtain ⟨hupstreams, hleft⟩ := advance_ask
      { server with forwarding := server.forwarding.erase forward.inFlight } now forward.raw forward.query
      forward.overTcp forward.started forward.left
    exact ⟨hupstreams, hleft⟩

theorem advance_receive (server : Server) (now : Instant) (raw : Bytes) (overTcp : Bool) (peer : IpAddr) :
    Advance server server.upstreams.length (server.receive now raw overTcp peer) := by
  rcases server.receive_cases now raw overTcp peer with ⟨source, -, heq⟩ | ⟨query, -, -, heq⟩
  · rw [heq fun _ _ => []]
    exact advance_replied rfl
  · rw [heq]
    rcases server.receiveForeign_cases now raw query overTcp peer with
      ⟨cached, -, -, heq⟩ | ⟨upstream, heq⟩ | heq | ⟨-, -, heq⟩
    · rw [heq]
      exact advance_replied rfl
    · rw [heq]
      exact advance_replied rfl
    · rw [heq]
      exact advance_replied rfl
    · rw [heq]
      obtain ⟨hupstreams, hleft⟩ :=
        advance_ask { server with permits := server.permits - 1 } now raw query overTcp now server.upstreams
      exact ⟨hupstreams, hleft⟩

theorem replies_waiting (forward : Forward) : Replies (.waiting forward) := by
  induction hn : forward.left.length using Nat.strong_induction_on generalizing forward with
  | _ n ih =>
      refine .waiting forward fun server now answer => ?_
      have hadvance := advance_resume server now forward answer
      cases hresult : (server.resume now forward answer).2 with
      | replied source reply => exact .replied source reply
      | waiting next => exact ih next.left.length (hn ▸ hadvance.left next hresult) next rfl

/-- Every query ends in a reply. -/
theorem replies (progress : Progress) : Replies progress := by
  cases progress with
  | replied source reply => exact .replied source reply
  | waiting forward => exact replies_waiting forward

theorem isResponse_handleQuery (authority : Authority) (raw : Bytes) (overTcp : Bool) (peer : IpAddr) :
    isResponse (handleQuery authority (fun _ query => servfail query) raw overTcp peer) = true := by
  have hrespond : ∀ query zone, isResponse (respond query zone overTcp) = true := by
    intro query zone
    unfold respond
    cases zone with
    | none => exact isResponse_encodeResponse ..
    | some zone =>
        dsimp only
        split
        · exact isResponse_encodeResponse ..
        · split
          · exact isResponse_encodeResponse ..
          · exact isResponse_encodeResponse ..
  unfold handleQuery
  split
  · exact isResponse_encodeResponse ..
  · dsimp only
    split
    · exact hrespond ..
    · exact hrespond ..
    · exact isResponse_encodeResponse ..
    · exact hrespond ..

/-- A reply that the server makes itself is a response. -/
theorem isResponse_receive {raw : Bytes} {overTcp : Bool} {peer : IpAddr} {source : Source} {reply : Bytes}
    (h : (server.receive now raw overTcp peer).2 = .replied source reply) (hcached : source ≠ .cached)
    (hstale : source ≠ .stale) : isResponse reply = true := by
  rcases server.receive_cases now raw overTcp peer with ⟨source', -, heq⟩ | ⟨query, -, -, heq⟩
  · rw [heq fun _ query => servfail query] at h
    cases h
    exact isResponse_handleQuery ..
  · rw [heq] at h
    rcases server.receiveForeign_cases now raw query overTcp peer with
      ⟨cached, -, -, heq⟩ | ⟨upstream, heq⟩ | heq | ⟨-, -, heq⟩
    · rw [heq] at h
      cases h
      exact absurd rfl hcached
    · rw [heq] at h
      cases h
      exact isResponse_encodeResponse ..
    · rw [heq] at h
      cases h
      exact isResponse_encodeResponse ..
    · rw [heq] at h
      rcases { server with permits := server.permits - 1 }.ask_cases now raw query overTcp now server.upstreams with
        ⟨-, heq⟩ | ⟨upstream, left, -, heq⟩
      · rw [heq] at h
        rcases { server with permits := server.permits - 1 }.finish_none now query with ⟨stale, -, heq⟩ | heq
        · rw [heq] at h
          cases h
          exact absurd rfl hstale
        · rw [heq] at h
          cases h
          exact isResponse_encodeResponse ..
      · rw [heq] at h
        cases h

end Server

/-! ## Two servers -/

/-- Where the one activity of an exchange is: a datagram on its way to a server, or a query that waits there. -/
inductive Place where
  | flying (side : Bool) (datagram : Bytes)
  | held (side : Bool) (forward : Forward)

/-- Two servers that send each other their replies, and how many datagrams they have sent. -/
structure Exchange where
  servers : Bool → Server
  place : Place
  sent : Nat

inductive Exchange.Event where
  | deliver (now : Instant)
  | ended (now : Instant) (answer : Option Bytes)

namespace Exchange

/-- A datagram from outside. -/
def inject (servers : Bool → Server) (side : Bool) (datagram : Bytes) : Exchange := ⟨servers, .flying side datagram, 0⟩

/-- A server has done its part. -/
def settle (e : Exchange) (side : Bool) (result : Server × Progress) : Exchange :=
  let servers := fun i => if i = side then result.1 else e.servers i
  match result.2 with
  | .replied _ reply => ⟨servers, .flying (!side) reply, e.sent + 1⟩
  | .waiting forward => ⟨servers, .held side forward, e.sent⟩

variable (addresses : Bool → IpAddr)

def step (e : Exchange) : Event → Option Exchange
  | .deliver now =>
      match e.place with
      | .flying side datagram => some (e.settle side ((e.servers side).receive now datagram false (addresses !side)))
      | .held .. => none
  | .ended now answer =>
      match e.place with
      | .flying .. => none
      | .held side forward =>
          if answer.all fun response => forward.Takes response then
            some (e.settle side ((e.servers side).resume now forward answer))
          else none

/-- No server has more upstreams, or more upstreams left for a query. -/
structure Bounded (bound : Nat) (e : Exchange) : Prop where
  servers : ∀ i, (e.servers i).upstreams.length ≤ bound
  held : ∀ side forward, e.place = .held side forward → forward.left.length ≤ bound

/-- What the exchange has done so far: datagrams weigh more than all attempts for one. -/
def work (bound : Nat) (e : Exchange) : Nat :=
  e.sent * (bound + 2) +
    match e.place with
    | .flying .. => 0
    | .held _ forward => bound + 1 - forward.left.length

variable {addresses} {bound : Nat} {e e' : Exchange}

theorem bounded_settle {side : Bool} {result : Server × Progress} {limit : Nat} (h : e.Bounded bound)
    (hlimit : limit ≤ bound) (hresult : Server.Advance (e.servers side) limit result) :
    (e.settle side result).Bounded bound := by
  have hservers : ∀ i, (if i = side then result.1 else e.servers i).upstreams.length ≤ bound := by
    intro i
    split
    · rw [hresult.upstreams]
      exact h.servers side
    · exact h.servers i
  unfold settle
  dsimp only
  split
  · exact ⟨hservers, fun side' forward heq => (nomatch heq)⟩
  · rename_i forward hwaiting
    refine ⟨hservers, ?_⟩
    intro side' forward' heq
    cases heq
    have := hresult.left forward hwaiting
    omega

theorem work_settle {side : Bool} {result : Server × Progress} {limit : Nat}
    (hlimit : limit ≤ bound) (hresult : Server.Advance (e.servers side) limit result) :
    e.sent * (bound + 2) + (bound + 1 - limit) + 1 ≤ (e.settle side result).work bound := by
  unfold settle work
  dsimp only
  cases hprogress : result.2 with
  | replied source reply =>
      dsimp only
      rw [Nat.succ_mul]
      omega
  | waiting forward =>
      have := hresult.left forward hprogress
      dsimp only
      omega

theorem step_work {event : Event} (h : e.Bounded bound) (hstep : step addresses e event = some e') :
    e'.Bounded bound ∧ e.work bound + 1 ≤ e'.work bound := by
  cases event with
  | deliver now =>
      simp only [step] at hstep
      split at hstep
      · rename_i side datagram hplace
        cases hstep
        have hadvance := (e.servers side).advance_receive now datagram false (addresses !side)
        have hwork := work_settle (h.servers side) hadvance
        refine ⟨bounded_settle h (h.servers side) hadvance, ?_⟩
        rw [work, hplace]
        dsimp only
        omega
      · cases hstep
  | ended now answer =>
      simp only [step] at hstep
      split at hstep
      · cases hstep
      · rename_i side forward hplace
        split at hstep
        · cases hstep
          have hleft := h.held side forward hplace
          have hadvance := (e.servers side).advance_resume now forward answer
          refine ⟨bounded_settle h hleft hadvance, ?_⟩
          rw [work, hplace]
          exact work_settle hleft hadvance
        · cases hstep

theorem work_lt (bound : Nat) (e : Exchange) : e.work bound < (e.sent + 1) * (bound + 2) := by
  rw [work, Nat.succ_mul]
  split
  · omega
  · omega

theorem exists_step (addresses : Bool → IpAddr) (e : Exchange) : ∃ event e', step addresses e event = some e' := by
  cases hplace : e.place with
  | flying side datagram =>
      refine ⟨.deliver 0, e.settle side ((e.servers side).receive 0 datagram false (addresses !side)), ?_⟩
      simp only [step, hplace]
  | held side forward =>
      refine ⟨.ended 0 none, e.settle side ((e.servers side).resume 0 forward none), ?_⟩
      simp only [step, hplace, Option.all_none, if_true]

/-- **Answers are answered**: every response that a server is sent gets a reply, however the attempts at upstreams end,
and one that the server makes itself is a response again; and of two servers that send each other their replies, whatever
each serves, one datagram is enough for an exchange that never ends: after every run there is a next step, and the number
of datagrams grows with the number of steps. -/
theorem answers_answered (addresses : Bool → IpAddr) :
    (∀ (server : Server) (now : Instant) (raw : Bytes) (overTcp : Bool) (peer : IpAddr), isResponse raw = true →
      Server.Replies (server.receive now raw overTcp peer).2 ∧
        ∀ source reply, (server.receive now raw overTcp peer).2 = .replied source reply → source ≠ .cached →
          source ≠ .stale → isResponse reply = true) ∧
      ∀ (servers : Bool → Server) (side : Bool) (datagram : Bytes) (events : List Event) (e : Exchange)
        (bound : Nat), (∀ i, (servers i).upstreams.length ≤ bound) →
        Run (step addresses) (fun _ _ => True) (inject servers side datagram) events e →
        (∃ event e', step addresses e event = some e') ∧ events.length < (e.sent + 1) * (bound + 2) := by
  refine ⟨?_, ?_⟩
  · intro server now raw overTcp peer _
    exact ⟨Server.replies _, fun source reply hreply hcached hstale =>
      Server.isResponse_receive hreply hcached hstale⟩
  · intro servers side datagram events e bound hbound hrun
    have hstart : (inject servers side datagram).Bounded bound := ⟨hbound, fun side forward heq => (nomatch heq)⟩
    have hwork := hrun.length_le (fun s event t hs _ hstep => step_work hs hstep) hstart
    have := e.work_lt bound
    exact ⟨exists_step addresses e, by omega⟩

/-- A response of twelve bytes, without a question. -/
def bareResponse : Bytes := [0x12, 0x34, 0x80, 0, 0, 0, 0, 0, 0, 0, 0, 0]

/-- Two servers that serve nothing, at public addresses. -/
def idle : Bool → Server := fun _ => .new ⟨[], none, none⟩ []

def hosts : Bool → IpAddr
  | false => .v4 192 0 2 1
  | true => .v4 192 0 2 2

/-- The datagrams that a number of deliveries from an injected response have caused. -/
def deliveries (n : Nat) : List Event := List.replicate n (.deliver 0)

theorem answers_answered_bare :
    isResponse bareResponse = true ∧ Server.Replies ((idle false).receive 0 bareResponse false (hosts true)).2 ∧
      ∃ e, Run (step hosts) (fun _ _ => True) (inject idle false bareResponse) (deliveries 5) e ∧
        5 < (e.sent + 1) * 2 := by
  have hresponse : isResponse bareResponse = true := by decide
  have hexec : (exec (step hosts) (fun _ _ => True) (inject idle false bareResponse) (deliveries 5)).isSome = true := by
    decide +kernel
  obtain ⟨e, he⟩ := Option.isSome_iff_exists.mp hexec
  have hrun := Run.of_exec he
  refine ⟨hresponse, ((answers_answered hosts).1 _ _ _ _ _ hresponse).1, e, hrun, ?_⟩
  exact ((answers_answered hosts).2 _ _ _ _ e 0 (fun i => Nat.le_refl _) hrun).2

/-- One response without a question sets two servers off: each of ten deliveries is answered. -/
theorem bare_response_answered :
    isResponse bareResponse = true ∧
      ((idle false).receive 0 bareResponse false (hosts true)).2 = .replied .malformed (formatError bareResponse) ∧
      (exec (step hosts) (fun _ _ => True) (inject idle false bareResponse) (deliveries 10)).map (·.sent) = some 10 := by
  decide +kernel

end Exchange

end Selfhost.Dns
