import Selfhost.Proxy.Dispatch

/-!
# Which exits keep the connection

Every exit but three closes the connection. The three that keep it answer without reading the body, or are a
mail protocol that read all of it.
-/

namespace Selfhost.Proxy

open Selfhost.Lib Selfhost.Http Selfhost.Names

variable {A : Alphabet}

/-- A handler that never leaves the connection to another request. -/
def Closes (x : Except HeaderError Answer) : Prop := ∀ a, x = .ok a → a.outcome ≠ .reusable

theorem closes_lastReply (response : Response) (w : Wire) : Closes (lastReply response w) := by
  intro a h
  unfold lastReply at h
  cases hw : writeResponse response false with
  | error e =>
      rw [hw] at h
      cases h
  | ok written =>
      rw [hw] at h
      cases h
      exact Outcome.noConfusion

theorem closes_refuse (status : Status) (w : Wire) : Closes (refuse status w) := closes_lastReply _ w

theorem closes_relayAnswer (backend : Backend) (sent : Bytes) (w : Wire) :
    Closes (relayAnswer backend sent w) := by
  rintro a ⟨⟩
  exact Outcome.noConfusion

theorem closes_spliceUpgrade (backend : Backend) (sent : Bytes) (w : Wire) :
    Closes (spliceUpgrade backend sent w) := by
  unfold spliceUpgrade
  split
  · exact closes_refuse _ w
  · rintro a ⟨⟩
    exact Outcome.noConfusion
  · rintro a ⟨⟩
    exact Outcome.noConfusion

theorem closes_sendConsoleApi (admin : Option Backend) (r : Request) (peer : IpAddr) (length : Nat) (w : Wire) :
    Closes (sendConsoleApi admin r peer length w) := by
  unfold sendConsoleApi
  dsimp only
  split
  · exact closes_refuse _ _
  · split
    · exact closes_spliceUpgrade _ _ _
    · exact closes_relayAnswer _ _ _

theorem closes_relayConsoleApi (admin : Option Backend) (r : Request) (peer : IpAddr) (w : Wire) :
    Closes (relayConsoleApi admin r peer w) := by
  unfold relayConsoleApi
  split
  · exact closes_sendConsoleApi _ _ _ _ _
  · repeat' split
    · exact closes_sendConsoleApi _ _ _ _ _
    · exact closes_refuse _ _
    · exact closes_sendConsoleApi _ _ _ _ _
    · exact closes_refuse _ _
  · exact closes_refuse _ _

theorem closes_streamToAdmin (admin : Option Backend) (head : Bytes) (declared : Nat) (w : Wire) :
    Closes (streamToAdmin admin head declared w) := by
  unfold streamToAdmin
  split
  · exact closes_refuse _ _
  · exact closes_relayAnswer _ _ _

theorem closes_relayConsoleBulk (admin : Option Backend) (r : Request) (peer : IpAddr) (w : Wire) :
    Closes (relayConsoleBulk admin r peer w) := by
  unfold relayConsoleBulk
  split
  · exact closes_lastReply _ _
  · split
    · exact closes_refuse _ _
    · split
      · exact closes_refuse _ _
      · exact closes_streamToAdmin _ _ _ _

theorem closes_relayConsoleDav (admin : Option Backend) (r : Request) (peer : IpAddr) (w : Wire) :
    Closes (relayConsoleDav admin r peer w) := by
  unfold relayConsoleDav
  split
  · exact closes_lastReply _ _
  · split
    · exact closes_refuse _ _
    · split
      · exact closes_refuse _ _
      · repeat' split
        · exact closes_refuse _ _
        · exact closes_refuse _ _
        · exact closes_streamToAdmin _ _ _ _

theorem closes_readPush (hooks : Webhooks) (secret : Option Str) (r : Request) (w : Wire)
    (act : Bytes → Response) : Closes (readPush hooks secret r w act) := by
  unfold readPush
  split
  · split
    · dsimp only
      split
      · exact closes_refuse _ _
      · split
        · exact closes_lastReply _ _
        · exact closes_refuse _ _
    · exact closes_refuse _ _
  · exact closes_refuse _ _

theorem closes_serveWebhook (hooks : Webhooks) (r : Request) (w : Wire) : Closes (serveWebhook hooks r w) := by
  unfold serveWebhook
  dsimp only
  split
  · exact closes_refuse _ _
  · split
    · exact closes_refuse _ _
    · exact closes_readPush _ _ _ _ _

theorem closes_serveAppWebhook (hooks : Webhooks) (r : Request) (w : Wire) :
    Closes (serveAppWebhook hooks r w) := by
  unfold serveAppWebhook
  split
  · exact closes_refuse _ _
  · exact closes_readPush _ _ _ _ _

theorem closes_serveForward (runtime : SiteRuntime) (r : Request) (peer : IpAddr)
    (person : Option (Identity A)) (w : Wire) : Closes (serveForward runtime r peer person w) := by
  unfold serveForward
  split
  · exact closes_refuse _ _
  · split
    · exact closes_spliceUpgrade _ _ _
    · exact closes_relayAnswer _ _ _

/-! ## The exits that keep the connection -/

/-- Whether an exit answers on a connection that is kept without reading the request's body. -/
def Exit.leavesBody : Exit A → Bool
  | .reply _ => true
  | .file _ _ => true
  | _ => false

/-- What a request did whose connection may be reused. -/
theorem perform_reusable {server : Server A} {r : Request} {peer : IpAddr} {keepAlive : Bool} {w : Wire}
    {e : Exit A} {a : Answer} (h : perform server r peer keepAlive w e = .ok a)
    (hreuse : a.outcome = .reusable) :
    (∃ response, e = .reply response ∧ writeResponse response keepAlive = .ok a.written ∧ a.wire = w) ∨
      (∃ built content, e = .file built content ∧ writeFile built content keepAlive = .ok a.written ∧
        a.wire = w) ∨
      ∃ contentType answer length, e = .mail contentType answer ∧ r.bodyLength = .ok (.fixed length) ∧
        a.wire = (takeBody length w).2 ∧
        writeResponse (orPage .internalServerError
          (Response.bytes .ok contentType (answer (takeBody length w).1))) keepAlive = .ok a.written := by
  cases e with
  | reply response =>
      simp only [perform, reply] at h
      cases hw : writeResponse response keepAlive with
      | error e =>
          rw [hw] at h
          cases h
      | ok written =>
          rw [hw] at h
          cases h
          exact Or.inl ⟨response, rfl, hw, rfl⟩
  | file built content =>
      simp only [perform] at h
      cases hw : writeFile built content keepAlive with
      | error e =>
          rw [hw] at h
          cases h
      | ok written =>
          rw [hw] at h
          cases h
          exact Or.inr (Or.inl ⟨built, content, rfl, hw, rfl⟩)
  | mail contentType answer =>
      simp only [perform, serveMail] at h
      split at h
      · rename_i length hlength
        split at h
        · simp only [reply] at h
          cases hw : writeResponse (orPage .internalServerError
              (Response.bytes .ok contentType (answer (takeBody length w).1))) keepAlive with
          | error e =>
              rw [hw] at h
              cases h
          | ok written =>
              rw [hw] at h
              cases h
              exact Or.inr (Or.inr ⟨contentType, answer, length, rfl, hlength, rfl, hw⟩)
        · exact absurd hreuse (closes_refuse _ _ a h)
      · exact absurd hreuse (closes_refuse _ _ a h)
  | refuse status => exact absurd hreuse (closes_refuse _ _ a h)
  | webhook => exact absurd hreuse (closes_serveWebhook _ _ _ a h)
  | appWebhook => exact absurd hreuse (closes_serveAppWebhook _ _ _ a h)
  | consoleBulk => exact absurd hreuse (closes_relayConsoleBulk _ _ _ _ a h)
  | consoleApi => exact absurd hreuse (closes_relayConsoleApi _ _ _ _ a h)
  | consoleDav => exact absurd hreuse (closes_relayConsoleDav _ _ _ _ a h)
  | forward runtime person => exact absurd hreuse (closes_serveForward _ _ _ _ _ a h)

/-! ## Reading a head -/

theorem readMore_parsed {sizes : List Nat} {w w' : Wire} {p : Parsed} (h : readMore sizes w = .parsed p w') :
    w'.all = w.all ∧ Request.parse w'.leftover = .ok p := by
  induction sizes generalizing w with
  | nil => cases h
  | cons size sizes ih =>
      simp only [readMore] at h
      split at h
      · cases h
      · split at h
        · rename_i q hq
          cases h
          refine ⟨?_, hq⟩
          simp only [Wire.all, List.append_assoc, List.take_append_drop]
        · obtain ⟨hall, hp⟩ := ih h
          refine ⟨?_, hp⟩
          rw [hall]
          simp only [Wire.all, List.append_assoc, List.take_append_drop]
        · cases h

theorem readHead_parsed {sizes : List Nat} {w w' : Wire} {p : Parsed} (h : readHead sizes w = .parsed p w') :
    w'.all = w.all ∧ Request.parse w'.leftover = .ok p := by
  unfold readHead at h
  split at h
  · exact readMore_parsed h
  · split at h
    · rename_i q hq
      cases h
      exact ⟨rfl, hq⟩
    · exact readMore_parsed h
    · cases h

end Selfhost.Proxy
