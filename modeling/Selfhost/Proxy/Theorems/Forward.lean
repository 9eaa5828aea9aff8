import Selfhost.Proxy.Lemmas.Forward

/-!
# What forwarding keeps of a message

The instance reads what it is sent by the same grammar, under ceilings of its own. `carried_iff` says when it
reads the client's message: the fields and the length are carried over, a chunked body is not.
-/

namespace Selfhost.Proxy

open Selfhost.Lib Selfhost.Http Selfhost.Names

variable {A : Alphabet}

/-- The bytes `sent` are one request with the method, target, end-to-end fields and decoded body of the
client's, and the two fields that tell where it came from. -/
def Carried (lim : Limits) (r : Request) (peer : IpAddr) (body sent : Bytes) : Prop :=
  ∃ q : Parsed, Request.parseWith lim sent = .ok q ∧ q.request.method = r.method ∧
    q.request.target = r.target ∧
    endToEnd q.request.headers = endToEnd r.headers ++ [forwardedFor peer, forwardedProto] ∧
    q.request.takeMessageBody (sent.drop q.consumed) = .ok (body, [])

theorem takeBody_fst (n : Nat) (w : Wire) : (takeBody n w).1 = w.all.take n := by
  simp only [takeBody, Wire.all, List.take_append]
  rcases Nat.le_total w.leftover.length n with h | h
  · rw [Nat.min_eq_left h, List.take_length, List.take_of_length_le h]
  · rw [Nat.min_eq_right h, Nat.sub_self, Nat.sub_eq_zero_of_le h]

/-- The body bytes that follow the head. -/
def relayed (r : Request) (w : Wire) : Bytes :=
  match r.bodyLength with
  | .ok (.fixed length) => w.all.take length
  | _ => []

theorem forward_sent {lease : Lease} {r : Request} {peer : IpAddr} {person : Option (Identity A)} {w : Wire}
    {f : Forwarded} (h : forward lease r peer person w = .ok f) :
    f.sent = forwardHead r peer person ++ relayed r w := by
  unfold forward at h
  unfold relayed
  generalize forwardHead r peer person = head at h ⊢
  generalize looksLikeUpgrade r = isUpgrade at h
  cases hlen : r.bodyLength with
  | error e =>
      rw [hlen] at h
      cases lease <;> cases h
      rw [List.append_nil]
  | ok length =>
      rw [hlen] at h
      cases length with
      | none =>
          cases lease <;> cases h
          rw [List.append_nil]
      | chunked =>
          cases lease <;> cases h
          rw [List.append_nil]
      | fixed n =>
          dsimp only at h ⊢
          split at h
          · cases h
          · cases lease with
            | none => cases h
            | unreachable => cases h
            | connected =>
                dsimp only at h
                split at h
                · cases h
                  rw [← takeBody_fst]
                  rfl
                · rename_i hn
                  cases h
                  rw [Nat.eq_zero_of_not_pos hn, List.take_zero, List.append_nil]

theorem forward_of_fixed {r : Request} {n : Nat} (hlen : r.bodyLength = .ok (.fixed n)) (hpos : 0 < n)
    (hsmall : n ≤ maxForwardBodyBytes) (peer : IpAddr) (person : Option (Identity A)) (w : Wire) :
    forward .connected r peer person w =
      .ok ⟨forwardHead r peer person ++ (takeBody n w).1, (takeBody n w).2, looksLikeUpgrade r⟩ := by
  simp only [forward, hlen, Nat.not_lt.mpr hsmall, decide_false, Bool.false_eq_true, if_false, hpos, if_true, relayBody]

theorem forward_of_chunked {r : Request} (hlen : r.bodyLength = .ok .chunked) (peer : IpAddr)
    (person : Option (Identity A)) (w : Wire) :
    forward .connected r peer person w = .ok ⟨forwardHead r peer person, w, looksLikeUpgrade r⟩ := by
  simp only [forward, hlen, Bool.false_eq_true, if_false]

section Message

variable {x : Bytes} {p : Parsed} {peer : IpAddr} {person : Option (Identity A)} {lim : Limits}

/-- What the instance's reader makes of the head, whatever follows it. -/
theorem parseWith_forwardHead (hparse : Request.parse x = .ok p)
    (hbytes : (forwardHead p.request peer person).length ≤ lim.headBytes)
    (hcount : p.request.headers.len + 5 ≤ lim.headerCount) (rest : Bytes) :
    Request.parseWith lim (forwardHead p.request peer person ++ rest) =
      if p.request.headers.count Field.host ≠ 1 then .error .badHost
      else .ok ⟨sentRequest p.request peer person, (forwardHead p.request peer person).length⟩ := by
  have hok := parseWith_ok hparse
  have hparts : LineParts p.request.method p.request.target 1 :=
    { hok.parts with minor_le := Nat.le_refl 1 }
  rw [forwardHead_eq] at hbytes ⊢
  rw [parseWith_wireHead hparts hok.target_lf
    (fun f hf => trimOws_of_mem_sentFields _ _ _ (fun g hg => hok.trimOws_value hg) hf)
    ((length_sentFields_le _ _ _).trans hcount) hbytes, count_host_sentFields]
  simp only [Nat.le_refl, true_and]
  split
  · rfl
  · have hframing : ∃ length, (sentRequest p.request peer person).bodyLength = .ok length := by
      obtain ⟨length, hlength⟩ := hok.framing
      rcases Request.bodyLength_ok hlength with ⟨-, -, hcl⟩ | ⟨n, -, -, hpos, hagree⟩ | ⟨-, -, hcl⟩
      · exact ⟨_, bodyLength_sentRequest_of_absent _ peer person hcl⟩
      · exact ⟨_, bodyLength_sentRequest_of_fixed _ peer person hpos hagree⟩
      · exact ⟨_, bodyLength_sentRequest_of_absent _ peer person hcl⟩
    obtain ⟨length, hlength⟩ := hframing
    unfold sentRequest at hlength ⊢
    rw [hlength]
    rfl

/-- What the instance reads as the body: the client's, but nothing where that is chunked. -/
theorem takeMessageBody_sentRequest (hparse : Request.parse x = .ok p) {w : Wire} {body behind : Bytes}
    (hbody : p.request.takeMessageBody w.all = .ok (body, behind)) :
    (sentRequest p.request peer person).takeMessageBody (relayed p.request w) =
      .ok (if p.request.bodyLength = .ok .chunked then [] else body, []) := by
  obtain ⟨length, hlength⟩ := (parseWith_ok hparse).framing
  unfold Request.takeMessageBody at hbody ⊢
  unfold relayed
  rcases Request.bodyLength_ok hlength with ⟨rfl, -, hcl⟩ | ⟨n, rfl, -, hpos, hagree⟩ | ⟨rfl, -, hcl⟩
  · rw [hlength] at hbody
    cases hbody
    simp [hlength, bodyLength_sentRequest_of_absent _ peer person hcl]
  · rw [hlength] at hbody
    dsimp only at hbody
    split at hbody
    · cases hbody
    · rename_i hlong
      cases hbody
      have hlen : (w.all.take n).length = n := List.length_take_of_le (Nat.not_lt.mp hlong)
      simp [hlength, bodyLength_sentRequest_of_fixed _ peer person hpos hagree, hlen]
  · simp [hlength, bodyLength_sentRequest_of_absent _ peer person hcl]

/-- The client's message reaches the instance when it names one host and its body, decoded, is not chunked or
empty. -/
theorem carried_iff {lease : Lease} {w : Wire} {f : Forwarded} {body behind : Bytes}
    (hparse : Request.parse x = .ok p) (hforward : forward lease p.request peer person w = .ok f)
    (hbody : p.request.takeMessageBody w.all = .ok (body, behind))
    (hbytes : (forwardHead p.request peer person).length ≤ lim.headBytes)
    (hcount : p.request.headers.len + 5 ≤ lim.headerCount) :
    Carried lim p.request peer body f.sent ↔
      p.request.headers.count Field.host = 1 ∧ (p.request.bodyLength = .ok .chunked → body = []) := by
  have hread := parseWith_forwardHead hparse hbytes hcount (relayed p.request w)
  have hsent : (sentRequest p.request peer person).takeMessageBody (relayed p.request w) = _ :=
    takeMessageBody_sentRequest hparse hbody
  unfold Carried
  rw [forward_sent hforward, hread]
  constructor
  · rintro ⟨q, hq, -, -, -, hqbody⟩
    split at hq
    · cases hq
    · rename_i hhost
      cases hq
      rw [List.drop_left, hsent] at hqbody
      refine ⟨not_not.mp hhost, fun hchunked => ?_⟩
      rw [if_pos hchunked] at hqbody
      cases hqbody
      rfl
  · rintro ⟨hhost, hempty⟩
    rw [if_neg (not_not.mpr hhost)]
    refine ⟨_, rfl, rfl, rfl, endToEnd_sentRequest _ peer person, ?_⟩
    rw [List.drop_left, hsent]
    split
    · rename_i hchunked
      rw [hempty hchunked]
    · rfl

end Message

theorem host_token : isTokenName "Host".toList = true := by decide

theorem example_value : isFieldValue (utf8 "example.com".toList) = true := by decide

theorem contentLength_token : isTokenName "Content-Length".toList = true := by decide

/-- `POST /a` with three bytes of body, framed by `field`. -/
def postRequest (field : Header) : Request where
  method := .post
  target := "/a".toList
  minorVersion := 1
  headers := ⟨[⟨"Host".toList, utf8 "example.com".toList, host_token, example_value⟩, field]⟩

def lengthPost : Request :=
  postRequest ⟨"Content-Length".toList, utf8 "3".toList, contentLength_token, by decide⟩

def chunkedPost : Request :=
  postRequest ⟨"Transfer-Encoding".toList, utf8 "chunked".toList, by decide, by decide⟩

def lengthPostHead : Bytes :=
  utf8 "POST /a HTTP/1.1\r\nHost: example.com\r\nContent-Length: 3\r\n\r\n".toList

def chunkedPostHead : Bytes :=
  utf8 "POST /a HTTP/1.1\r\nHost: example.com\r\nTransfer-Encoding: chunked\r\n\r\n".toList

def abc : Bytes := utf8 "abc".toList

def chunkedAbc : Bytes := utf8 "3\r\nabc\r\n0\r\n\r\n".toList

def localPeer : IpAddr := .v4 127 0 0 1

/-- Both heads are read, with the body that each declares. -/
theorem posts_read :
    (Request.parse lengthPostHead = .ok ⟨lengthPost, lengthPostHead.length⟩ ∧
      lengthPost.bodyLength = .ok (.fixed 3)) ∧
      Request.parse chunkedPostHead = .ok ⟨chunkedPost, chunkedPostHead.length⟩ ∧
      chunkedPost.bodyLength = .ok .chunked := by
  rw [lengthPostHead, chunkedPostHead]
  repeat rw [String.toList_ofList]
  exact ⟨⟨by decide +kernel, by decide +kernel⟩, by decide +kernel, by decide +kernel⟩

theorem carried_lengthPost :
    Carried limits lengthPost localPeer abc
      (forwardHead lengthPost localPeer (none : Option (Identity asciiAlphabet)) ++ abc) :=
  (carried_iff (f := ⟨forwardHead lengthPost localPeer (none : Option (Identity asciiAlphabet)) ++ abc, ⟨[], []⟩, false⟩)
    (w := ⟨abc, []⟩) posts_read.1.1
    (forward_of_fixed posts_read.1.2 (by decide) (by decide) _ _ _)
    (show _ = Except.ok (abc, []) by decide +kernel) (by decide +kernel) (by decide +kernel)).mpr
    ⟨by decide +kernel, by decide +kernel⟩

/-- A chunked body is dropped: the client sent `abc`, the instance reads an empty body. -/
theorem chunked_body_lost :
    Request.parse chunkedPostHead = .ok ⟨chunkedPost, chunkedPostHead.length⟩ ∧
      chunkedPost.takeMessageBody chunkedAbc = .ok (abc, []) ∧
      ∃ f, forward .connected chunkedPost localPeer (none : Option (Identity asciiAlphabet)) ⟨chunkedAbc, []⟩ =
          .ok f ∧ ¬ Carried limits chunkedPost localPeer abc f.sent := by
  have hbody : chunkedPost.takeMessageBody chunkedAbc = .ok (abc, []) := by decide +kernel
  refine ⟨posts_read.2.1, hbody, _, forward_of_chunked posts_read.2.2 _ _ _, ?_⟩
  rintro ⟨q, hq, -, -, -, hcarried⟩
  have hread := @parseWith_forwardHead _ _ _ localPeer (none : Option (Identity asciiAlphabet)) limits
    posts_read.2.1 (by decide +kernel) (by decide +kernel) []
  rw [List.append_nil, if_neg (by decide +kernel)] at hread
  rw [hread] at hq
  cases hq
  have hsent := @takeMessageBody_sentRequest _ _ _ localPeer (none : Option (Identity asciiAlphabet))
    posts_read.2.1 ⟨chunkedAbc, []⟩ abc [] hbody
  have hrelayed : relayed chunkedPost ⟨chunkedAbc, []⟩ = [] := by rw [relayed, posts_read.2.2]
  rw [hrelayed, if_pos posts_read.2.2] at hsent
  rw [List.drop_length, hsent] at hcarried
  cases hcarried

end Selfhost.Proxy
