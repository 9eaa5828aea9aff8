import Mathlib.Data.List.Chain
import Selfhost.Http.Lemmas.Framing
import Selfhost.Http.Theorems.Head
import Selfhost.Proxy.Lemmas.Dispatch
import Selfhost.Proxy.Lemmas.Written
import Selfhost.Proxy.Theorems.Forward

/-!
# Where the heads of a connection start

The exits that answer without reading the request's body also keep the connection, so the bytes of a declared
body are parsed as the next head. `heads_follow_bodies` says that nothing else goes wrong: as long as no
request with a body takes such an exit, every head starts just behind the body of the request before it.
-/

namespace Selfhost.Proxy

open Selfhost.Lib Selfhost.Http Selfhost.Names

variable {A : Alphabet}

/-- The body that the head declares is followed by `rest`. -/
def EndsAt (s : Served) (rest : Bytes) : Prop :=
  ∃ body, s.parsed.request.takeMessageBody (s.input.drop s.parsed.consumed) = .ok (body, rest)

/-- The second request starts at the byte after the body of the first. -/
def Follows (a b : Served) : Prop := EndsAt a b.input

/-- Whether a head declares that no byte of body follows it. -/
def DeclaresNoBody (r : Request) : Prop := r.bodyLength = .ok .none ∨ r.bodyLength = .ok (.fixed 0)

/-- A turn of the loop whose request, if it has a body, does not leave it unread on a connection that is
kept. -/
def Handled (peer : IpAddr) (isTls : Bool) (c : Conn) (t : Turn A) : Prop :=
  ∀ p w, readHead t.sizes c.wire = .parsed p w →
    DeclaresNoBody p.request ∨ p.request.wantsKeepAlive = false ∨
      (exitOf t.server p.request peer isTls).leavesBody = false

theorem takeBody_snd (n : Nat) (w : Wire) : (takeBody n w).2.all = w.all.drop n := by
  simp only [takeBody, Wire.all, List.drop_append]
  rcases Nat.le_total w.leftover.length n with h | h
  · rw [Nat.min_eq_left h, List.drop_length, List.drop_of_length_le h]
  · rw [Nat.min_eq_right h, Nat.sub_self, Nat.sub_eq_zero_of_le h]

theorem not_parse_nil {p : Parsed} : Request.parse [] ≠ .ok p := by
  have h : Request.parse [] = .error .incomplete := by decide
  rw [h]
  exact nofun

theorem drain_all {w : Wire} {n : Nat} (h : n ≤ w.leftover.length) : (w.drain n).all = w.all.drop n := by
  simp only [Wire.drain, Wire.all]
  rw [List.drop_append_of_le_length h]

/-- A head is parsed out of the buffer it is drained from. -/
theorem consumed_le {x : Bytes} {p : Parsed} (h : Request.parse x = .ok p) : p.consumed ≤ x.length := by
  have hend := (parseWith_ok h).headEnd
  unfold findHeadEnd at hend
  obtain ⟨i, hi, hcons⟩ := Option.map_eq_some_iff.mp hend
  obtain ⟨a, b, hx, hlen, -⟩ := findSub_some hi
  have hle := congrArg List.length hx
  simp only [List.length_take, List.length_append, crlf, List.length_cons, List.length_nil] at hle
  omega

/-- Where the connection stands after a request that was handled: behind its body, or at the end of the
client's bytes. -/
theorem endsAt_of_reusable {server : Server A} {peer : IpAddr} {isTls keepAlive : Bool} {s : Served} {w : Wire}
    {a : Answer} (hw : w.all = s.input.drop s.parsed.consumed)
    (h : dispatch server s.parsed.request peer isTls keepAlive w = .ok a) (hreuse : a.outcome = .reusable)
    (hok : DeclaresNoBody s.parsed.request ∨
      (exitOf server s.parsed.request peer isTls).leavesBody = false) :
    EndsAt s a.wire.all ∨ a.wire.all = [] := by
  have hnone : DeclaresNoBody s.parsed.request → EndsAt s w.all := by
    rintro (hlen | hlen)
    · exact ⟨[], by rw [Request.takeMessageBody, hlen, hw]⟩
    · exact ⟨[], by rw [Request.takeMessageBody, hlen, hw]; simp⟩
  have hkept : (exitOf server s.parsed.request peer isTls).leavesBody = true → a.wire = w →
      EndsAt s a.wire.all ∨ a.wire.all = [] := by
    intro hleaves hwire
    rcases hok with hok | hok
    · rw [hwire]
      exact Or.inl (hnone hok)
    · rw [hok] at hleaves
      cases hleaves
  rcases perform_reusable h hreuse with ⟨response, he, -, hwire⟩ | ⟨built, content, he, -, hwire⟩ |
    ⟨contentType, answer, length, he, hlen, hwire, -⟩
  · exact hkept (by rw [he]; rfl) hwire
  · exact hkept (by rw [he]; rfl) hwire
  · rw [hwire, takeBody_snd, hw]
    by_cases hshort : (s.input.drop s.parsed.consumed).length < length
    · exact Or.inr (List.drop_of_length_le (Nat.le_of_lt hshort))
    · refine Or.inl ⟨(s.input.drop s.parsed.consumed).take length, ?_⟩
      simp only [Request.takeMessageBody, hlen, hshort, if_false]

/-- What holds of a connection between two turns. -/
structure Sound (c : Conn) : Prop where
  chain : c.served.IsChain Follows
  next : c.isOpen = true → ∀ last, c.served.getLast? = some last →
    EndsAt last c.wire.all ∨ c.wire.all = []

theorem sound_new (input : Bytes) : Sound (.new input) := ⟨.nil, by simp [Conn.new]⟩

theorem sound_serveTurn {peer : IpAddr} {isTls : Bool} {c c' : Conn} {t : Turn A} (hc : Sound c)
    (hok : Handled peer isTls c t) (h : serveTurn peer isTls c t = some c') : Sound c' := by
  unfold serveTurn at h
  split at h
  · cases h
  · rename_i hopen
    simp only [Bool.not_eq_true', Bool.not_eq_false] at hopen
    split at h
    · cases h
      exact ⟨hc.chain, fun hclosed => nomatch hclosed⟩
    · cases h
      exact ⟨hc.chain, fun hclosed => nomatch hclosed⟩
    · rename_i p w hread
      obtain ⟨hall, hparse⟩ := readHead_parsed hread
      -- The head was parsed from the first of the bytes that were left.
      have hchain : (c.served ++ [(⟨w.all, p⟩ : Served)]).IsChain Follows := by
        rw [List.isChain_append]
        refine ⟨hc.chain, List.isChain_singleton _, ?_⟩
        rintro last hlast next ⟨⟩
        rcases hc.next hopen last hlast with hends | hempty
        · show EndsAt last w.all
          rw [hall]
          exact hends
        · rw [← hall] at hempty
          have hnil : w.leftover = [] := (List.append_eq_nil_iff.mp hempty).1
          rw [hnil] at hparse
          exact absurd hparse not_parse_nil
      dsimp only at h
      split at h
      · cases h
        exact ⟨hchain, fun hclosed => nomatch hclosed⟩
      · rename_i a hdispatch
        cases h
        refine ⟨hchain, ?_⟩
        intro hkeep last hlast
        simp only [Bool.and_eq_true, decide_eq_true_eq] at hkeep
        rw [List.getLast?_concat] at hlast
        cases hlast
        refine endsAt_of_reusable (s := ⟨w.all, p⟩) (drain_all (consumed_le hparse)) hdispatch hkeep.2 ?_
        rcases hok p w hread with hno | hclose | hreads
        · exact Or.inl hno
        · rw [hkeep.1] at hclose
          cases hclose
        · exact Or.inr hreads

/-- In every run whose requests with a body are read or closed upon, each head starts at the byte after the
body of the request before it. -/
theorem heads_follow_bodies {peer : IpAddr} {isTls : Bool} {input : Bytes} {turns : List (Turn A)} {c : Conn}
    (hrun : Run (serveTurn peer isTls) (Handled peer isTls) (.new input) turns c) :
    c.served.IsChain Follows := by
  have hsound : Sound c := hrun.invariant
    (fun s t s' hs hok hstep => sound_serveTurn hs hok hstep) (sound_new input)
  exact hsound.chain

/-- An error page can always be written. -/
theorem exists_writeResponse_errorPage (status : Status) (keepAlive : Bool) :
    ∃ written, writeResponse (.errorPage status) keepAlive = .ok written := by
  have hroom := Nat.add_le_add_right (Response.errorPage_headers status) 2
  obtain ⟨head, hhead⟩ := (Response.errorPage status).exists_writeHead keepAlive (hroom.trans (by decide))
  exact ⟨_, by rw [writeResponse, hhead]; rfl⟩

/-- What a mail client is answered with can always be written. -/
theorem exists_writeResponse_bytes (contentType : Str) (content : Bytes) (keepAlive : Bool) :
    ∃ written, writeResponse (orPage .internalServerError (Response.bytes .ok contentType content)) keepAlive =
      .ok written := by
  cases h : Response.bytes .ok contentType content with
  | error e => exact exists_writeResponse_errorPage _ keepAlive
  | ok response =>
      obtain ⟨headers, hset, rfl⟩ := map_ok h
      obtain ⟨f, -, -, hfields⟩ := Headers.set_ok hset
      have hroom : headers.len + 2 ≤ maxHeaderCount := by
        rw [Headers.len, hfields, List.length_append, List.length_singleton]
        exact (by decide : ([] : List Header).length + 1 + 2 ≤ maxHeaderCount)
      obtain ⟨head, hhead⟩ := Response.exists_writeHead ⟨.ok, headers, .bytes content⟩ keepAlive hroom
      exact ⟨_, by rw [orPage, writeResponse, hhead]; rfl⟩

/-- A mail client's body is taken off the connection before it is answered. -/
theorem serveMail_fixed {r : Request} {body rest : Bytes} (hlen : r.bodyLength = .ok (.fixed body.length))
    (hsmall : body.length ≤ mailClientMaxBody) (contentType : Str) (answer : Bytes → Bytes) :
    ∃ written, serveMail contentType answer r true ⟨body ++ rest, []⟩ = .ok ⟨written, ⟨rest, []⟩, .reusable⟩ := by
  have htake : takeBody body.length ⟨body ++ rest, []⟩ = (body, ⟨rest, []⟩) := by
    simp [takeBody]
  obtain ⟨written, hwritten⟩ := exists_writeResponse_bytes contentType (answer body) true
  refine ⟨written, ?_⟩
  rw [serveMail, hlen]
  dsimp only
  rw [if_pos hsmall, htake]
  dsimp only
  rw [reply, hwritten]
  rfl

/-- A turn at which the head is answered with an error page keeps the bytes behind the head. -/
theorem serveTurn_page {peer : IpAddr} {isTls : Bool} {c : Conn} {t : Turn A} {p : Parsed} {w : Wire}
    {status : Status} (hopen : c.isOpen = true) (hread : readHead t.sizes c.wire = .parsed p w)
    (hexit : exitOf t.server p.request peer isTls = errorExit status) :
    serveTurn peer isTls c t =
      some ⟨p.request.wantsKeepAlive, w.drain p.consumed, c.served ++ [⟨w.all, p⟩]⟩ := by
  obtain ⟨written, hwritten⟩ := exists_writeResponse_errorPage status p.request.wantsKeepAlive
  simp only [serveTurn, hopen, hread, dispatch, hexit, errorExit, perform, reply, hwritten, Except.map,
    Bool.not_true, Bool.false_eq_true, if_false, decide_true, Bool.and_true]

/-- A server that hosts nothing. -/
def bareServer : Server asciiAlphabet where
  route _ := none
  httpsAuthority host := host
  signInAuthority := none
  passGate := none
  acmeChallenge _ := none
  paccDocument _ := none
  mail := none
  admin := none
  webhooks := ⟨fun _ => none, none, fun _ _ _ => false, fun _ => none, fun _ _ => .ok⟩

theorem exitOf_bareServer {r : Request} {host : Str} (h : r.host = some host) (peer : IpAddr) :
    exitOf bareServer r peer true = errorExit .notFound := by
  have hmail : mailExit bareServer r host = none := rfl
  have hpacc : paccExit bareServer r true host = none := by
    unfold paccExit
    split <;> rfl
  simp only [exitOf, h, hpacc, hmail, Bool.not_true, Bool.false_eq_true, false_and, if_false]
  rfl

theorem splitOnce_autodiscoverPath : splitOnce '?' autodiscoverPath = none := by
  decide

theorem autodiscoverHost_ne (host : Str) : autodiscoverHost host ≠ host := by
  have hne : "autodiscover.".toList ≠ [] := by
    decide
  intro h
  exact hne (List.append_left_eq_self.mp h)

/-- A POST of a mail client. -/
theorem exitOf_autodiscover {server : Server A} {handles : MailHandles} {r : Request} {host : Str} {peer : IpAddr}
    (hhost : r.host = some host) (htarget : r.target = autodiscoverPath) (hmethod : r.method = .post)
    (hmail : server.mail = some handles) (hdomains : handles.localDomains = [host])
    (hpacc : ∀ host, server.paccDocument host = none) :
    exitOf server r peer true =
      .mail "text/xml; charset=utf-8".toList (handles.autodiscover (autodiscoverHost host)) := by
  have hpath : r.path = autodiscoverPath := by rw [Request.path, htarget, splitOnce_autodiscoverPath]
  have hdocument : paccExit server r true host = none := by
    unfold paccExit
    split
    · rw [hpacc]
      rfl
    · rfl
  have hdomain : mailClientDomain host [host] = some (host, false) := by
    simp [mailClientDomain, autodiscoverHost_ne]
  have hexit : mailExit server r host = some (serveAutodiscover handles host r) := by
    simp only [mailExit, hmail, Option.bind_some, hdomains, hdomain, if_pos hpath]
  have hserved : (serveAutodiscover handles host r : Exit A) =
      .mail "text/xml; charset=utf-8".toList (handles.autodiscover (autodiscoverHost host)) := by
    rw [serveAutodiscover, if_neg (not_not.mpr hmethod)]
  simp only [exitOf, hhost, hdocument, hexit, hserved, Bool.not_true, Bool.false_eq_true, false_and, if_false]

/-- A turn at which all that is pending arrives at once. -/
def bareTurn : Turn asciiAlphabet := ⟨bareServer, [readChunk]⟩

def evilHead : Bytes := utf8 "GET /evil HTTP/1.1\r\nHost: example.com\r\n\r\n".toList

/-- A request whose declared body is the head of another one. -/
def smuggledHead : Bytes :=
  utf8 "POST /a HTTP/1.1\r\nHost: example.com\r\nContent-Length: 41\r\n\r\n".toList

def smuggledPost : Request :=
  postRequest ⟨"Content-Length".toList, utf8 "41".toList, contentLength_token, by decide⟩

/-- A head that a server without hosts answers leaves the connection behind it. -/
theorem serveTurn_bare {c : Conn} {p : Parsed} {input : Bytes} (hopen : c.isOpen = true)
    (hread : readHead bareTurn.sizes c.wire = .parsed p ⟨input, []⟩) (hkeep : p.request.wantsKeepAlive = true)
    (hhost : p.request.host = some "example.com".toList) :
    serveTurn localPeer true c bareTurn = some ⟨true, ⟨input.drop p.consumed, []⟩, c.served ++ [⟨input, p⟩]⟩ := by
  rw [serveTurn_page hopen hread (exitOf_bareServer hhost _), hkeep]
  simp only [Wire.drain, Wire.all, List.append_nil]

/-- The connection once both heads of `input` were served. -/
def servedTwice (input : Bytes) (first second : Parsed) : Conn :=
  ⟨true, ⟨[], []⟩, [⟨input, first⟩, ⟨input.drop first.consumed, second⟩]⟩

/-- Two heads that arrive together are served one after the other, whatever the first one declares. -/
theorem bare_turns {input : Bytes} {first second : Parsed} {allowed : Conn → Turn asciiAlphabet → Prop}
    (hfirst : readHead bareTurn.sizes (Conn.new input).wire = .parsed first ⟨input, []⟩)
    (hsecond : readHead bareTurn.sizes ⟨input.drop first.consumed, []⟩ =
      .parsed second ⟨input.drop first.consumed, []⟩)
    (hkeep : first.request.wantsKeepAlive = true ∧ second.request.wantsKeepAlive = true)
    (hhosts : first.request.host = some "example.com".toList ∧ second.request.host = some "example.com".toList)
    (hend : (input.drop first.consumed).drop second.consumed = [])
    (hallowed : allowed (.new input) bareTurn ∧
      allowed ⟨true, ⟨input.drop first.consumed, []⟩, [⟨input, first⟩]⟩ bareTurn) :
    Run (serveTurn localPeer true) allowed (.new input) [bareTurn, bareTurn] (servedTwice input first second) := by
  have hone := serveTurn_bare (c := .new input) rfl hfirst hkeep.1 hhosts.1
  have htwo := serveTurn_bare (c := ⟨true, ⟨input.drop first.consumed, []⟩, [⟨input, first⟩]⟩) rfl hsecond hkeep.2
    hhosts.2
  rw [hend] at htwo
  exact .cons hallowed.1 hone (.cons hallowed.2 htwo .nil)

/-- The requests of the two heads, and where they end. -/
def evilParsed : Parsed := ⟨getRequest "/evil", evilHead.length⟩

def plainParsed : Parsed := ⟨getRequest "/a", plainHead.length⟩

def smuggledParsed : Parsed := ⟨smuggledPost, smuggledHead.length⟩

/-- The three heads are read whole from what stands first on the connection. -/
theorem readHead_heads :
    readHead bareTurn.sizes ⟨evilHead, []⟩ = .parsed evilParsed ⟨evilHead, []⟩ ∧
      readHead bareTurn.sizes (Conn.new (plainHead ++ evilHead)).wire =
        .parsed plainParsed ⟨plainHead ++ evilHead, []⟩ ∧
      readHead bareTurn.sizes (Conn.new (smuggledHead ++ evilHead)).wire =
        .parsed smuggledParsed ⟨smuggledHead ++ evilHead, []⟩ := by
  rw [evilParsed, plainParsed, smuggledParsed, plainHead, smuggledHead, evilHead]
  repeat rw [String.toList_ofList]
  exact ⟨by decide +kernel, by decide +kernel, by decide +kernel⟩

/-- All of the requests keep the connection open and name the one host; only the POST declares a body. -/
theorem bare_requests :
    ((getRequest "/a").wantsKeepAlive = true ∧ (getRequest "/a").host = some "example.com".toList ∧
      (getRequest "/a").bodyLength = .ok .none) ∧
      smuggledPost.wantsKeepAlive = true ∧ smuggledPost.host = some "example.com".toList ∧
      smuggledPost.takeMessageBody evilHead = .ok (evilHead, []) ∧ evilHead ≠ [] := by
  decide +kernel

/-- A server that configures the mail clients of `example.com`; it answers with what it was sent. -/
def mailHandles : MailHandles :=
  ⟨["example.com".toList], fun _ => none, fun _ body => body, fun _ _ => [], fun _ _ => []⟩

def mailTurn : Turn asciiAlphabet := ⟨{ bareServer with mail := some mailHandles }, [readChunk]⟩

example : mailClientDomain "autodiscover.example.com".toList mailHandles.localDomains =
    some ("example.com".toList, true) := by decide +kernel

/-- The declared body is the same head as in `smuggledHead`, at an exit that reads it. -/
def mailHead : Bytes :=
  utf8 "POST /autodiscover/autodiscover.xml HTTP/1.1\r\nHost: example.com\r\nContent-Length: 41\r\n\r\n".toList

def mailPost : Request := { smuggledPost with target := autodiscoverPath }

def mailParsed : Parsed := ⟨mailPost, mailHead.length⟩

def mailInput : Bytes := mailHead ++ (evilHead ++ plainHead)

theorem mailPost_body :
    mailPost.bodyLength = .ok (.fixed 41) ∧ mailPost.wantsKeepAlive = true ∧
      mailPost.takeMessageBody (evilHead ++ plainHead) = .ok (evilHead, plainHead) := by
  decide +kernel

theorem readHead_mailInput :
    readHead mailTurn.sizes (Conn.new mailInput).wire = .parsed mailParsed ⟨mailInput, []⟩ ∧
      readHead bareTurn.sizes ⟨plainHead, []⟩ = .parsed plainParsed ⟨plainHead, []⟩ :=
  ⟨by decide +kernel, by decide +kernel⟩

theorem exitOf_mailPost (peer : IpAddr) :
    exitOf mailTurn.server mailPost peer true = .mail "text/xml; charset=utf-8".toList fun body => body :=
  @exitOf_autodiscover _ mailTurn.server mailHandles _ _ _ bare_requests.2.2.1 rfl rfl rfl rfl fun _ => rfl

theorem dispatch_mailPost :
    ∃ written, dispatch mailTurn.server mailPost localPeer true true ⟨evilHead ++ plainHead, []⟩ =
      .ok ⟨written, ⟨plainHead, []⟩, .reusable⟩ := by
  have hlength : evilHead.length = 41 := by decide +kernel
  have hlen : mailPost.bodyLength = .ok (.fixed evilHead.length) := by
    rw [hlength]
    exact mailPost_body.1
  have hsmall : evilHead.length ≤ mailClientMaxBody := by
    rw [hlength]
    decide
  rw [dispatch, exitOf_mailPost, perform]
  exact serveMail_fixed hlen hsmall _ _

/-- The connection once the POST and the GET behind its body were served. -/
def servedBehindBody : Conn := ⟨true, ⟨[], []⟩, [⟨mailInput, mailParsed⟩, ⟨plainHead, plainParsed⟩]⟩

theorem serveTurn_mail : serveTurn localPeer true (.new mailInput) mailTurn =
    some ⟨true, ⟨plainHead, []⟩, [⟨mailInput, mailParsed⟩]⟩ := by
  obtain ⟨written, hdispatch⟩ := dispatch_mailPost
  have hkeep : mailParsed.request.wantsKeepAlive = true := mailPost_body.2.1
  have hdrain : Wire.drain ⟨mailInput, []⟩ mailParsed.consumed = ⟨evilHead ++ plainHead, []⟩ :=
    congrArg (Wire.mk · []) List.drop_left
  have hanswer : dispatch mailTurn.server mailParsed.request localPeer true true ⟨evilHead ++ plainHead, []⟩ =
      .ok ⟨written, ⟨plainHead, []⟩, .reusable⟩ := hdispatch
  unfold serveTurn
  rw [if_neg (by simp [Conn.new]), readHead_mailInput.1]
  simp only [hkeep, hdrain, hanswer, Conn.new, Wire.all, List.append_nil, List.nil_append, decide_true,
    Bool.and_true]

/-- A body that reads like a head is read as the body it was declared to be, and the next head stands behind it. -/
theorem heads_follow_bodies_posted :
    mailPost.takeMessageBody (evilHead ++ plainHead) = .ok (evilHead, plainHead) ∧
      servedBehindBody.served.map Served.parsed = [mailParsed, plainParsed] ∧
      servedBehindBody.served.IsChain Follows := by
  obtain ⟨⟨hkeep, hhost, hnone⟩, -⟩ := bare_requests
  obtain ⟨hmail, hplain⟩ := readHead_mailInput
  have htwo : serveTurn localPeer true ⟨true, ⟨plainHead, []⟩, [⟨mailInput, mailParsed⟩]⟩ bareTurn =
      some servedBehindBody := by
    have hend : plainHead.drop plainParsed.consumed = [] := by
      rw [show plainParsed.consumed = plainHead.length from rfl, List.drop_length]
    have hturn := serveTurn_bare (c := ⟨true, ⟨plainHead, []⟩, [⟨mailInput, mailParsed⟩]⟩) rfl hplain hkeep hhost
    rw [hend] at hturn
    exact hturn
  have hrun : Run (serveTurn localPeer true) (Handled localPeer true) (.new mailInput) [mailTurn, bareTurn]
      servedBehindBody := by
    refine .cons ?_ serveTurn_mail (.cons ?_ htwo .nil)
    · intro p w hread
      rw [hmail] at hread
      cases hread
      refine Or.inr (Or.inr ?_)
      have hexit := exitOf_mailPost localPeer
      rw [show mailParsed.request = mailPost from rfl, hexit]
      rfl
    · intro p w hread
      dsimp only at hread
      rw [hplain] at hread
      cases hread
      exact Or.inl (Or.inl hnone)
  exact ⟨mailPost_body.2.2, rfl, heads_follow_bodies hrun⟩

/-- The 404 of an unknown host leaves the declared body on the connection, and it is served as a request. -/
theorem body_served_as_head :
    ∃ c, Run (serveTurn localPeer true) (fun _ _ => True) (.new (smuggledHead ++ evilHead))
        [bareTurn, bareTurn] c ∧
      c.served.map (fun s => s.parsed.request.target) = ["/a".toList, "/evil".toList] ∧
      ¬ c.served.IsChain Follows := by
  have hdrop : (smuggledHead ++ evilHead).drop smuggledParsed.consumed = evilHead := List.drop_left
  obtain ⟨⟨hkeep, hhost, -⟩, hkeep', hhost', hread, hnil⟩ := bare_requests
  obtain ⟨hevil, -, hsmuggled⟩ := readHead_heads
  refine ⟨servedTwice (smuggledHead ++ evilHead) smuggledParsed evilParsed, ?_, rfl, ?_⟩
  · refine bare_turns hsmuggled ?_ ⟨hkeep', hkeep⟩ ⟨hhost', hhost⟩ ?_ ⟨trivial, trivial⟩
    · rw [hdrop]
      exact hevil
    · rw [hdrop]
      exact List.drop_length
  · intro hchain
    obtain ⟨body, hbody⟩ := (List.isChain_cons_cons.mp hchain).1
    dsimp only at hbody
    rw [hdrop] at hbody
    change smuggledPost.takeMessageBody evilHead = _ at hbody
    rw [hread] at hbody
    exact hnil (Prod.mk.inj (Except.ok.inj hbody)).2.symm

end Selfhost.Proxy

/-!
# Where a client ends an answer

`framed_iff` says on which requests the bytes of an answer and the client's reading of it agree: on all but
the HEAD requests that are answered from memory, since `write_response` does not know the method and sends the
body.
-/

namespace Selfhost.Http

open Selfhost.Lib

theorem evaluateEnds_window {rawStart rawStop : Str} {total : Nat} {range : ByteRange} (htotal : total ≠ 0)
    (h : evaluateEnds rawStart rawStop total = .window range) : range.start ≤ range.stop ∧ range.stop < total := by
  unfold evaluateEnds at h
  split at h
  · split at h
    · cases h
    · split at h
      · cases h
      · split at h
        · cases h
        · cases h
          dsimp only
          omega
  · split at h
    · split at h
      · cases h
      · split at h
        · cases h
        · cases h
          dsimp only
          omega
    · split at h
      · split at h
        · cases h
        · cases h
          dsimp only
          omega
      · cases h

/-- A window lies in the entity. -/
theorem evaluate_window {value : Option Str} {total : Nat} {range : ByteRange}
    (h : evaluate value total = .window range) : range.start + range.len ≤ total := by
  have hends : range.start ≤ range.stop ∧ range.stop < total := by
    unfold evaluate at h
    split at h
    · cases h
    · dsimp only at h
      split at h
      · split at h
        · split at h
          · cases h
          · rename_i htotal
            split at h
            · cases h
            · exact evaluateEnds_window htotal h
        · cases h
      · cases h
  rw [ByteRange.len]
  omega

end Selfhost.Http

namespace Selfhost.Proxy

open Selfhost.Lib Selfhost.Http Selfhost.Names

variable {A : Alphabet}

/-- Whether a request is answered with body bytes from memory. -/
def Exit.fromMemory : Exit A → Bool
  | .reply response => hasBody response
  | _ => false

theorem hasBody_errorPage (status : Status) : hasBody (.errorPage status) = true := by
  obtain ⟨hs, hset, -⟩ := @Headers.exists_set .empty "Content-Type".toList
    (utf8 "text/html; charset=utf-8".toList) (by decide) (by decide) (by decide)
  have hmarkup : Response.errorMarkup status ≠ [] := List.append_ne_nil_of_right_ne_nil _ (by decide)
  have hbody : (Response.errorPage status).body = .bytes (utf8 (Response.errorMarkup status)) := by
    simp only [Response.errorPage, Response.html, Response.bytes, hset, Except.map, -String.reduceToList]
  rw [hasBody, hbody, decide_eq_true_eq]
  exact List.length_pos_iff.mpr (mt utf8_eq_nil.mp hmarkup)

/-- The window of a file is as long as the client expects. -/
theorem buildResponse_window (r : Request) (contentType : Str) (content : Bytes) (v : Validators) :
    let built := buildResponse r contentType content.length v
    ((content.drop built.offset).take built.length).length =
      if r.method = .head ∨ built.response.status.forbidsBody then 0 else built.response.body.len := by
  have hallows : r.method.allowsResponseBody = !decide (r.method = .head) := by
    cases r.method <;> rfl
  unfold buildResponse
  dsimp only
  split
  · have hnone : Status.notModified.forbidsBody = true := rfl
    simp only [List.take_zero, List.length_nil, hnone, or_true, if_true]
  · rw [hallows]
    split
    · by_cases hm : r.method = .head <;> simp [hm, Status.ok, Status.forbidsBody, Body.len]
    · rename_i window hwindow
      have hin := evaluate_window hwindow
      by_cases hm : r.method = .head
      · simp [hm]
      · simp only [hm, decide_false, Bool.not_false, if_true, List.length_take, List.length_drop, false_or]
        have hmin : min window.len (content.length - window.start) = window.len := by omega
        rw [hmin]
        rfl
    · by_cases hm : r.method = .head <;> simp [hm, Body.len]

/-- The client of a reusable connection ends its reading at the last byte written, exactly when the request is
not a HEAD that is answered with a body from memory. -/
theorem framed_iff {server : Server A} {r : Request} {peer : IpAddr} {isTls keepAlive : Bool} {w : Wire}
    {a : Answer} (h : dispatch server r peer isTls keepAlive w = .ok a) (hreuse : a.outcome = .reusable) :
    clientEnd r.method a.written = some a.written.length ↔
      ¬ (r.method = .head ∧ (exitOf server r peer isTls).fromMemory = true) := by
  have hok := ok_exitOf server r peer isTls
  rcases perform_reusable h hreuse with ⟨response, he, hwritten, -⟩ | ⟨built, content, he, hwritten, -⟩ |
    ⟨contentType, answer, length, he, -, -, hwritten⟩
  · rw [he] at hok ⊢
    cases hok with
    | reply hplain => exact clientEnd_reply hplain hwritten r.method
  · rw [he] at hok ⊢
    cases hok with
    | file contentType _ v =>
        obtain ⟨head, hhead, hbytes⟩ := map_ok hwritten
        rw [← hbytes, clientEnd_written hhead, List.length_append, buildResponse_window]
        simp [Exit.fromMemory]
  · rw [he] at hok ⊢
    cases hok with
    | mail hpost =>
        rw [clientEnd_reply (inMemory_orPage_bytes rfl rfl _ _) hwritten, hpost]
        simp

theorem reply_of_writeResponse {response : Response} {keepAlive : Bool} {written : Bytes}
    (h : writeResponse response keepAlive = .ok written) (w : Wire) :
    reply response keepAlive w = .ok ⟨written, w, .reusable⟩ := by
  rw [reply, h]
  rfl

/-- An unknown host is answered with the same page whatever the method. -/
theorem bare_answer {r : Request} {host : Str} (h : r.host = some host) :
    ∃ a, dispatch bareServer r localPeer true true ⟨[], []⟩ = .ok a ∧ a.outcome = .reusable ∧
      writeResponse (.errorPage .notFound) true = .ok a.written := by
  obtain ⟨written, hwritten⟩ := exists_writeResponse_errorPage .notFound true
  refine ⟨⟨written, ⟨[], []⟩, .reusable⟩, ?_, rfl, hwritten⟩
  rw [dispatch, exitOf_bareServer h, errorExit, perform]
  exact reply_of_writeResponse hwritten _

def headRequest : Request := { getRequest "/a" with method := .head }

theorem framed_iff_get :
    ∃ a, dispatch bareServer (getRequest "/a") localPeer true true ⟨[], []⟩ = .ok a ∧ a.outcome = .reusable ∧
      (clientEnd .get a.written = some a.written.length ↔
        ¬ (Method.get = .head ∧ (exitOf bareServer (getRequest "/a") localPeer true).fromMemory = true)) := by
  have hhost : (getRequest "/a").host = some "example.com".toList := bare_requests.1.2.1
  obtain ⟨a, hdispatch, hreuse, -⟩ := bare_answer hhost
  exact ⟨a, hdispatch, hreuse, framed_iff hdispatch hreuse⟩

/-- A HEAD for an unknown host is answered with the whole page, behind the end that its client reads to. -/
theorem head_answered_with_body :
    ∃ a, dispatch bareServer headRequest localPeer true true ⟨[], []⟩ = .ok a ∧ a.outcome = .reusable ∧
      clientEnd headRequest.method a.written ≠ some a.written.length := by
  have hhost : headRequest.host = some "example.com".toList := bare_requests.1.2.1
  obtain ⟨a, hdispatch, hreuse, hwritten⟩ := bare_answer hhost
  refine ⟨a, hdispatch, hreuse, fun hend => ?_⟩
  exact (clientEnd_reply (inMemory_errorPage rfl) hwritten _).mp hend ⟨rfl, hasBody_errorPage .notFound⟩

end Selfhost.Proxy
