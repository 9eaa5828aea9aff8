import Selfhost.Http.Client
import Selfhost.Lib.Fallible
import Selfhost.Proxy.Lemmas.Dispatch

/-!
# The answers that keep the connection

What a client reads of an answer that was written, and which responses the exits answer with: the in-memory
ones carry all of their body and a status that allows it, and the window of a file lies in the file.
-/

namespace Selfhost.Proxy

open Selfhost.Lib Selfhost.Http Selfhost.Names

variable {A : Alphabet}

/-! ## Security headers -/

def securityFields : List Header :=
  [⟨"X-Content-Type-Options".toList, utf8 "nosniff".toList, by decide, by decide⟩,
    ⟨"X-Frame-Options".toList, utf8 "DENY".toList, by decide, by decide⟩,
    ⟨"Referrer-Policy".toList, utf8 "strict-origin-when-cross-origin".toList, by decide, by decide⟩]

theorem securityHeaders_eq : securityHeaders = lines (securityFields.map Header.line) := by
  -- The kernel reads a text much faster from the list of its characters than from the literal.
  simp only [securityHeaders, securityFields]
  repeat rw [String.toList_ofList]
  decide +kernel

theorem securityFields_lengths : securityFields.filter (·.isNamed Field.contentLength) = [] := by decide

theorem applySecurityHeaders_block {ls : List Bytes} (hne : ls ≠ []) :
    applySecurityHeaders (lines ls ++ crlf) = lines (ls ++ securityFields.map Header.line) ++ crlf := by
  have hends : crlf <:+ lines ls := by
    obtain ⟨before, last, rfl⟩ := List.eq_nil_or_concat ls |>.resolve_left hne
    simp only [List.concat_eq_append, lines_append, lines_cons, lines_nil]
    exact ⟨lines before ++ last, by simp [crlf]⟩
  have hsuffix : crlf ++ crlf <:+ lines ls ++ crlf := by
    obtain ⟨before, hbefore⟩ := hends
    exact ⟨before, by rw [← hbefore, List.append_assoc]⟩
  have hlen : (lines ls ++ crlf).length - 2 = (lines ls).length := by
    rw [List.length_append]
    exact Nat.add_sub_cancel _ _
  rw [applySecurityHeaders, if_pos hsuffix, hlen, List.take_left, List.drop_left, lines_append, securityHeaders_eq]

/-- What a client reads of a head that was written, whatever follows it. -/
theorem clientEnd_written {response : Response} {keepAlive : Bool} {head : Bytes}
    (h : response.writeHead keepAlive = .ok head) (method : Method) (body : Bytes) :
    clientEnd method (applySecurityHeaders head ++ body) =
      some ((applySecurityHeaders head).length +
        if method = .head ∨ response.status.forbidsBody then 0 else response.body.len) := by
  obtain ⟨hs, hwire, rfl⟩ := map_ok h
  have hhead : response.statusLine ++ crlf ++ hs.write ++ crlf =
      lines (response.statusLine :: hs.fields.map Header.line) ++ crlf := by
    rw [lines_cons, Headers.write]
    simp [crlf]
  have hfield : ∀ f : Header, f.line ≠ [] ∧ lf ∉ f.line := by
    intro f
    obtain ⟨first, rest, hline, -⟩ := f.fieldLine_line.head
    exact ⟨by rw [hline]; exact List.cons_ne_nil _ _, f.fieldLine_line.not_mem.2⟩
  have hls : ∀ l ∈ response.statusLine :: (hs.fields ++ securityFields).map Header.line, l ≠ [] ∧ lf ∉ l := by
    intro l hl
    rcases List.mem_cons.mp hl with rfl | hl
    · refine ⟨?_, lf_not_mem_statusLine response⟩
      rw [statusLine_eq]
      exact List.append_ne_nil_of_right_ne_nil _ (List.cons_ne_nil _ _)
    · obtain ⟨f, -, rfl⟩ := List.mem_map.mp hl
      exact hfield f
  have hblock : applySecurityHeaders (response.statusLine ++ crlf ++ hs.write ++ crlf) =
      lines (response.statusLine :: (hs.fields ++ securityFields).map Header.line) ++ crlf := by
    rw [hhead, applySecurityHeaders_block (List.cons_ne_nil _ _), List.cons_append, List.map_append]
  rw [hblock, clientEnd_block (List.cons_ne_nil _ _) hls, announced_head hwire securityFields_lengths,
    Option.map_some]

/-! ## In-memory responses -/

/-- A response that is written whole, with a status that allows its body. -/
structure InMemory (response : Response) : Prop where
  allowed : response.status.forbidsBody = false
  whole : ∀ length, response.body ≠ .streamed length

/-- Whether a response has body bytes of its own. -/
def hasBody (response : Response) : Bool := 0 < response.body.len

theorem writeResponse_whole {response : Response} {keepAlive : Bool} {written : Bytes}
    (hplain : InMemory response) (h : writeResponse response keepAlive = .ok written) :
    ∃ head body, response.writeHead keepAlive = .ok head ∧ written = applySecurityHeaders head ++ body ∧
      body.length = response.body.len := by
  obtain ⟨head, hhead, rfl⟩ := map_ok h
  refine ⟨head, _, hhead, rfl, ?_⟩
  cases hbody : response.body with
  | empty => rfl
  | bytes content => rfl
  | streamed length => exact absurd hbody (hplain.whole length)

/-- The client ends where an in-memory response ends, unless it asked for no body and there is one. -/
theorem clientEnd_reply {response : Response} {keepAlive : Bool} {written : Bytes} (hplain : InMemory response)
    (h : writeResponse response keepAlive = .ok written) (method : Method) :
    clientEnd method written = some written.length ↔ ¬ (method = .head ∧ hasBody response = true) := by
  obtain ⟨head, body, hhead, rfl, hlen⟩ := writeResponse_whole hplain h
  rw [clientEnd_written hhead, hplain.allowed, List.length_append, hlen]
  simp only [Option.some.injEq, Nat.add_left_cancel_iff, Bool.false_eq_true, or_false, hasBody,
    decide_eq_true_eq]
  split
  · rename_i hm
    simp only [hm, true_and]
    omega
  · rename_i hm
    simp [hm]

theorem inMemory_bytes {status : Status} (hstatus : status.forbidsBody = false) {headers : Headers}
    {content : Bytes} : InMemory ⟨status, headers, .bytes content⟩ := ⟨hstatus, fun _ => nofun⟩

theorem inMemory_empty {status : Status} (hstatus : status.forbidsBody = false) {headers : Headers} :
    InMemory ⟨status, headers, .empty⟩ := ⟨hstatus, fun _ => nofun⟩

theorem inMemory_errorPage {status : Status} (hstatus : status.forbidsBody = false) :
    InMemory (.errorPage status) := by
  unfold Response.errorPage
  split
  · rename_i response h
    unfold Response.html Response.bytes at h
    obtain ⟨headers, -, rfl⟩ := map_ok h
    exact inMemory_bytes hstatus
  · exact inMemory_empty hstatus

theorem InMemory.withHeaders {response : Response} (h : InMemory response) (headers : Headers) :
    InMemory { response with headers := headers } := ⟨h.allowed, h.whole⟩

theorem inMemory_orPage_bytes {status pageStatus : Status} (hstatus : status.forbidsBody = false)
    (hpage : pageStatus.forbidsBody = false) (contentType : Str) (content : Bytes) :
    InMemory (orPage pageStatus (Response.bytes status contentType content)) := by
  unfold orPage
  split
  · rename_i response h
    obtain ⟨headers, -, rfl⟩ := map_ok h
    exact inMemory_bytes hstatus
  · exact inMemory_errorPage hpage

theorem inMemory_orPage_redirect {status pageStatus : Status} (hstatus : status.forbidsBody = false)
    (hpage : pageStatus.forbidsBody = false) (location : Str) :
    InMemory (orPage pageStatus (Response.redirect status location)) := by
  unfold orPage
  split
  · rename_i response h
    obtain ⟨headers, -, rfl⟩ := map_ok h
    exact inMemory_empty hstatus
  · exact inMemory_errorPage hpage

/-! ## Exits -/

/-- What is known of an exit: an in-memory response is whole, a file is served with a window of it, and a mail
protocol answers a POST. -/
inductive Exit.Ok (r : Request) : Exit A → Prop
  | reply {response : Response} (h : InMemory response) : Exit.Ok r (.reply response)
  | file (contentType : Str) (content : Bytes) (v : Validators) :
      Exit.Ok r (.file (buildResponse r contentType content.length v) content)
  | mail {contentType : Str} {answer : Bytes → Bytes} (h : r.method = .post) : Exit.Ok r (.mail contentType answer)
  | refuse (status : Status) : Exit.Ok r (.refuse status)
  | webhook : Exit.Ok r .webhook
  | appWebhook : Exit.Ok r .appWebhook
  | consoleBulk : Exit.Ok r .consoleBulk
  | consoleApi : Exit.Ok r .consoleApi
  | consoleDav : Exit.Ok r .consoleDav
  | forward (runtime : SiteRuntime) (person : Option (Identity A)) : Exit.Ok r (.forward runtime person)

theorem ok_errorExit (r : Request) {status : Status} (hstatus : status.forbidsBody = false) :
    Exit.Ok r (errorExit status : Exit A) := .reply (inMemory_errorPage hstatus)

theorem ok_serveAcmeChallenge (server : Server A) (r : Request) : Exit.Ok r (serveAcmeChallenge server r) := by
  unfold serveAcmeChallenge
  dsimp only
  split
  · split
    · exact .reply (inMemory_orPage_bytes rfl rfl _ _)
    · exact ok_errorExit r rfl
  · exact ok_errorExit r rfl

theorem ok_servePacc (document host : Str) (r : Request) (isTls : Bool) :
    Exit.Ok r (servePacc document host r isTls : Exit A) := by
  unfold servePacc
  split
  · exact ok_errorExit r rfl
  · split
    · exact .reply (inMemory_orPage_bytes rfl rfl _ _)
    · exact .reply (inMemory_orPage_redirect rfl rfl _)

theorem ok_serveMailbox (handles : MailHandles) (contentType : Str) (answer : Str → Bytes → Bytes) (r : Request) :
    Exit.Ok r (serveMailbox handles contentType answer r : Exit A) := by
  unfold serveMailbox
  split
  · exact ok_errorExit r rfl
  · rename_i hpost
    split
    · have hpage : InMemory (.errorPage .unauthorized) := inMemory_errorPage rfl
      exact .reply (hpage.withHeaders _)
    · exact .mail (not_not.mp hpost)

theorem ok_mailExit {server : Server A} {r : Request} {host : Str} {e : Exit A}
    (h : mailExit server r host = some e) : Exit.Ok r e := by
  obtain ⟨handles, -, h⟩ := Option.bind_eq_some_iff.mp h
  obtain ⟨⟨domain, isAutodiscoverHost⟩, -, h⟩ := Option.bind_eq_some_iff.mp h
  dsimp only at h
  split at h
  · cases h
    unfold serveAutodiscover
    split
    · exact ok_errorExit r rfl
    · rename_i hpost
      exact .mail (not_not.mp hpost)
  · split at h
    · cases h
      exact ok_serveMailbox _ _ _ r
    · split at h
      · cases h
        exact ok_serveMailbox _ _ _ r
      · cases h

theorem inMemory_redeemPass (server : Server A) (site : Site) (r : Request) (host : Str) :
    InMemory (redeemPass server site r host) := by
  have hpage : InMemory (.errorPage .notFound) := inMemory_errorPage rfl
  unfold redeemPass
  dsimp only
  split
  · exact hpage
  · split
    · exact hpage
    · split
      · exact hpage
      · rename_i response hredirect
        obtain ⟨headers, -, rfl⟩ := map_ok hredirect
        split
        · exact hpage
        · exact inMemory_empty rfl

theorem ok_serveStatic (runtime : SiteRuntime) (r : Request) : Exit.Ok r (serveStatic runtime r : Exit A) := by
  unfold serveStatic
  split
  · exact ok_errorExit r rfl
  · split
    · have hpage : InMemory (.errorPage .methodNotAllowed) := inMemory_errorPage rfl
      exact .reply (hpage.withHeaders _)
    · split
      · rename_i f _
        exact .file f.contentType f.content (f.validators r)
      · exact .reply (inMemory_orPage_redirect rfl rfl _)
      · exact ok_errorExit r rfl
      · exact ok_errorExit r rfl

theorem ok_siteExit (runtime : SiteRuntime) (r : Request) (person : Option (Identity A)) :
    Exit.Ok r (siteExit runtime r person) := by
  unfold siteExit
  dsimp only
  repeat' split
  · exact .consoleBulk
  · exact .consoleApi
  · exact ok_errorExit r rfl
  · exact .consoleBulk
  · exact .consoleApi
  · exact .consoleDav
  · exact .forward runtime person
  · exact ok_serveStatic runtime r

theorem ok_gatedExit (server : Server A) (runtime : SiteRuntime) (r : Request) (host : Str) :
    Exit.Ok r (gatedExit server runtime r host) := by
  unfold gatedExit
  split
  · exact ok_siteExit runtime r none
  · split
    · exact ok_errorExit r rfl
    · split
      · exact ok_siteExit runtime r _
      · exact ok_errorExit r rfl
      · dsimp only
        split
        · exact ok_errorExit r rfl
        · exact .reply (inMemory_orPage_redirect rfl rfl _)

theorem ok_routedExit (server : Server A) (runtime : SiteRuntime) (r : Request) (peer : IpAddr) (isTls : Bool)
    (host : Str) : Exit.Ok r (routedExit server runtime r peer isTls host) := by
  unfold routedExit
  dsimp only
  repeat' split
  · exact .appWebhook
  · exact .webhook
  · exact ok_errorExit r rfl
  · exact .reply (inMemory_orPage_redirect rfl rfl _)
  · exact ok_errorExit r rfl
  · exact .reply (inMemory_orPage_redirect rfl rfl _)
  · exact .reply (inMemory_redeemPass server _ r host)
  · exact ok_gatedExit server runtime r host

theorem ok_exitOf (server : Server A) (r : Request) (peer : IpAddr) (isTls : Bool) :
    Exit.Ok r (exitOf server r peer isTls) := by
  unfold exitOf
  split
  · exact .refuse _
  · split
    · exact ok_serveAcmeChallenge server r
    · split
      · rename_i e hpacc
        unfold paccExit at hpacc
        split at hpacc
        · obtain ⟨document, -, rfl⟩ := Option.map_eq_some_iff.mp hpacc
          exact ok_servePacc _ _ r isTls
        · cases hpacc
      · split
        · rename_i e hmail
          exact ok_mailExit hmail
        · split
          · exact ok_errorExit r rfl
          · exact ok_routedExit server _ r peer isTls _

end Selfhost.Proxy
