import Selfhost.Mail.Lemmas.Smtp

/-!
# What an envelope holds

`never_an_open_relay` reads every envelope off the history of its session: its recipients were accepted for a
local domain or from an authenticated client, and its sender and recipients were learned since the last event
that starts a transaction anew. The name of the client is kept across RSET and from one message to the next,
and forgotten when TLS is established.
-/

namespace Selfhost.Mail

open Selfhost.Lib

/-- The events since TLS was last established. -/
def sinceTls (log : List Event) : List Event := log.rtakeWhile fun e => e != .tlsEstablished

/-- This recipient was accepted since the transaction was started, for a local domain or from a client that had
authenticated. -/
def AcceptedIn (policy : Policy) (log : List Event) (a : Address) : Prop :=
  ∃ before e after, log = before ++ e :: after ∧ e.recipient = some a ∧ (∀ x ∈ e :: after, x.isReset = false) ∧
    (a.isLocalTo policy.localDomains = true ∨ .authenticationSucceeded ∈ before)

structure EnvelopeOk (policy : Policy) (log : List Event) (e : Envelope) : Prop where
  sender : ((fresh log).filterMap Event.sender).getLast? = some e.sender
  recipients : ∀ a ∈ e.recipients, AcceptedIn policy log a
  nonempty : 1 ≤ e.recipients.length
  few : e.recipients.length ≤ maxRecipients
  apart : e.recipients.Pairwise fun a b => a.isMatch b = false
  helo : ((sinceTls log).filterMap Event.greeting).getLast? = some e.helo

/-- What is promised of an event, given the history before it. -/
def EventOk (policy : Policy) (log : List Event) : Event → Prop
  | .finishData (some e) => EnvelopeOk policy log e
  | .command _ action => action.asksCredentials = true → .tlsEstablished ∈ log ∨ policy.allowAuthWithoutTls = true
  | _ => True

/-! ## One more event -/

section Concat

variable {policy : Policy} {log : List Event} {e : Event}

theorem sinceTls_concat (h : e ≠ .tlsEstablished) : sinceTls (log ++ [e]) = sinceTls log ++ [e] :=
  List.rtakeWhile_concat_pos _ _ _ (by simpa using h)

theorem AcceptedIn.concat {a : Address} (ha : AcceptedIn policy log a) (h : e.isReset = false) :
    AcceptedIn policy (log ++ [e]) a := by
  obtain ⟨before, x, after, hlog, hx, hreset, hrelay⟩ := ha
  refine ⟨before, x, after ++ [e], by rw [hlog]; simp, hx, ?_, hrelay⟩
  intro y hy
  rcases List.mem_append.mp (List.cons_append ▸ hy : y ∈ (x :: after) ++ [e]) with hy | hy
  · exact hreset y hy
  · rw [List.mem_singleton.mp hy]
    exact h

end Concat

/-! ## The invariant -/

/-- The transaction of a session, read off the history. -/
structure TransactionOk (policy : Policy) (log : List Event) (s : Session) : Prop where
  sender : ∃ path, s.sender = some path ∧ ((fresh log).filterMap Event.sender).getLast? = some path
  recipients : ∀ a ∈ s.recipients, AcceptedIn policy log a
  few : s.recipients.length ≤ maxRecipients
  apart : s.recipients.Pairwise fun a b => a.isMatch b = false
  nonempty : s.state ≠ .haveSender → 1 ≤ s.recipients.length
  helo : s.helo ≠ none

/-- What the history says of the state of a session. -/
structure SessionOk (policy : Policy) (log : List Event) (s : Session) : Prop where
  policy_eq : s.policy = policy
  tls : s.tlsActive = true → .tlsEstablished ∈ log
  auth : s.authenticated = true → .authenticationSucceeded ∈ log
  helo : ∀ name, s.helo = some name → ((sinceTls log).filterMap Event.greeting).getLast? = some name
  transaction : s.state.inTransaction = true → TransactionOk policy log s

structure Conversation.Ok (policy : Policy) (c : Conversation) : Prop where
  session : SessionOk policy c.log c.session
  log : ∀ before e after, c.log = before ++ e :: after → EventOk policy before e

theorem mem_concat_of_mem {log : List Event} {e x : Event} (h : x ∈ log) : x ∈ log ++ [e] :=
  List.mem_append_left _ h

/-- An event that teaches nothing leaves a transaction as it was. -/
theorem TransactionOk.plain {policy : Policy} {log : List Event} {s s' : Session} {e : Event}
    (h : TransactionOk policy log s) (hs : e.sender = none) (hreset : e.isReset = false)
    (hsender : s'.sender = s.sender) (hrecipients : s'.recipients = s.recipients) (hhelo : s'.helo = s.helo)
    (hstate : s'.state ≠ .haveSender → s.state ≠ .haveSender) : TransactionOk policy (log ++ [e]) s' := by
  obtain ⟨path, hpath, hlast⟩ := h.sender
  refine ⟨⟨path, hsender.trans hpath, ?_⟩, ?_, ?_, ?_, ?_, ?_⟩
  · rw [fresh_concat hreset, List.filterMap_append, List.filterMap_cons_none hs, List.filterMap_nil,
      List.append_nil]
    exact hlast
  · rw [hrecipients]
    exact fun a ha => (h.recipients a ha).concat hreset
  · rw [hrecipients]
    exact h.few
  · rw [hrecipients]
    exact h.apart
  · rw [hrecipients]
    exact fun hs' => h.nonempty (hstate hs')
  · rw [hhelo]
    exact h.helo

/-- Everything but the transaction, after an event that is no greeting. -/
theorem SessionOk.frame {policy : Policy} {log : List Event} {s s' : Session} {e : Event}
    (h : SessionOk policy log s) (htls : e ≠ .tlsEstablished) (hg : e.greeting = none)
    (hpolicy : s'.policy = s.policy) (hactive : s'.tlsActive = s.tlsActive)
    (hauth : s'.authenticated = s.authenticated) (hhelo : s'.helo = s.helo)
    (htransaction : s'.state.inTransaction = true → TransactionOk policy (log ++ [e]) s') :
    SessionOk policy (log ++ [e]) s' := by
  refine ⟨hpolicy.trans h.policy_eq, ?_, ?_, ?_, htransaction⟩
  · rw [hactive]
    exact fun ht => mem_concat_of_mem (h.tls ht)
  · rw [hauth]
    exact fun ha => mem_concat_of_mem (h.auth ha)
  · intro name hname
    rw [sinceTls_concat htls, List.filterMap_append, List.filterMap_cons_none hg, List.filterMap_nil,
      List.append_nil]
    exact h.helo name (hhelo ▸ hname)

theorem SessionOk.effect {policy : Policy} {log : List Event} {s s' : Session} {e : Event}
    (h : SessionOk policy log s) (htls : e ≠ .tlsEstablished) (heffect : Effect s e s') :
    SessionOk policy (log ++ [e]) s' := by
  cases heffect with
  | unchanged hplain =>
      refine h.frame htls hplain.greeting rfl rfl rfl rfl fun hin => ?_
      exact (h.transaction hin).plain hplain.sender hplain.isReset rfl rfl rfl id
  | greet hs hr hg hreset =>
      refine ⟨h.policy_eq, fun ht => mem_concat_of_mem (h.tls ht), fun ha => mem_concat_of_mem (h.auth ha), ?_, ?_⟩
      · intro name hname
        rw [sinceTls_concat htls, List.filterMap_append, List.filterMap_cons_some hg, List.filterMap_nil,
          List.getLast?_concat]
        exact hname
      · exact fun hin => nomatch hin
  | rset hs hr hg hreset =>
      refine h.frame htls hg rfl rfl rfl rfl fun hin => ?_
      simp only [Session.resetTransaction] at hin
      split at hin
      · cases hin
      · rename_i hhelo
        -- A transaction is open only once the client has greeted.
        exact absurd (h.transaction hin).helo (by simpa using hhelo)
  | mail hstate hhelo hs hr hg hreset =>
      refine h.frame htls hg rfl rfl rfl rfl fun _ => ⟨⟨_, rfl, ?_⟩, ?_, ?_, .nil, ?_, hhelo⟩
      · rw [fresh_concat hreset, List.filterMap_append, List.filterMap_cons_some hs, List.filterMap_nil,
          List.getLast?_concat]
      · exact fun a ha => nomatch ha
      · exact Nat.zero_le _
      · exact fun hne => absurd rfl hne
  | known hstate hknown hs hr hg hreset =>
      refine h.frame htls hg rfl rfl rfl rfl fun hin => ?_
      exact (h.transaction hin).plain hs hreset rfl rfl rfl id
  | @rcpt address hstate hroom hrelay hnew hs hr hg hreset =>
      have hin : s.state.inTransaction = true := by
        rcases hstate with hstate | hstate <;> rw [hstate] <;> rfl
      have ht := h.transaction hin
      obtain ⟨path, hpath, hlast⟩ := ht.sender
      refine h.frame htls hg rfl rfl rfl rfl fun _ => ⟨⟨path, hpath, ?_⟩, ?_, ?_, ?_, ?_, ht.helo⟩
      · rw [fresh_concat hreset, List.filterMap_append, List.filterMap_cons_none hs, List.filterMap_nil,
          List.append_nil]
        exact hlast
      · intro a ha
        rcases List.mem_append.mp ha with ha | ha
        · exact (ht.recipients a ha).concat hreset
        · rw [List.mem_singleton.mp ha]
          refine ⟨log, e, [], rfl, hr, by simpa using hreset, ?_⟩
          rw [← h.policy_eq]
          exact hrelay.imp_right h.auth
      · rw [List.length_append]
        exact hroom
      · rw [List.pairwise_append]
        refine ⟨ht.apart, List.pairwise_singleton _ _, ?_⟩
        intro a ha b hb
        rw [List.mem_singleton.mp hb]
        exact hnew a ha
      · intro _
        rw [List.length_append]
        exact Nat.le_add_left _ _
  | data hstate hplain =>
      have hin : s.state.inTransaction = true := by rw [hstate]; rfl
      refine h.frame htls hplain.greeting rfl rfl rfl rfl fun _ => ?_
      refine (h.transaction hin).plain hplain.sender hplain.isReset rfl rfl rfl fun _ => ?_
      rw [hstate]
      exact State.noConfusion
  | quit hplain =>
      exact h.frame htls hplain.greeting rfl rfl rfl rfl fun hin => nomatch hin

/-- The envelope that a session gives out is what the history says. -/
theorem envelopeOk_of_finish {policy : Policy} {log : List Event} {s : Session} {e : Envelope}
    (h : SessionOk policy log s) (hfinish : s.finishData.2 = some e) : EnvelopeOk policy log e := by
  unfold Session.finishData at hfinish
  split at hfinish
  · cases hfinish
  · rename_i hstate
    have hreading : s.state = .readingData := not_not.mp hstate
    have ht : TransactionOk policy log s := h.transaction (by rw [hreading]; rfl)
    obtain ⟨path, hpath, hlast⟩ := ht.sender
    obtain ⟨name, hname⟩ := Option.ne_none_iff_exists'.mp ht.helo
    rw [hpath, hname] at hfinish
    cases hfinish
    exact ⟨hlast, ht.recipients, ht.nonempty (by rw [hreading]; exact State.noConfusion), ht.few, ht.apart,
      h.helo name hname⟩

theorem sessionOk_finish {policy : Policy} {log : List Event} {s : Session} (h : SessionOk policy log s) :
    SessionOk policy (log ++ [.finishData s.finishData.2]) s.finishData.1 := by
  have htls : Event.finishData s.finishData.2 ≠ .tlsEstablished := Event.noConfusion
  unfold Session.finishData
  split
  · rename_i hstate
    refine h.frame Event.noConfusion rfl rfl rfl rfl rfl fun hin => ?_
    exact (h.transaction hin).plain rfl rfl rfl rfl rfl id
  · split
    · refine h.frame Event.noConfusion rfl rfl rfl rfl rfl fun hin => ?_
      exact (h.transaction hin).plain rfl rfl rfl rfl rfl id
    · exact h.frame Event.noConfusion rfl rfl rfl rfl rfl fun hin => nomatch hin

/-- One call keeps what the history says, and the new event is as promised. -/
theorem sessionOk_call {policy : Policy} {c c' : Conversation} {call : Call} (h : SessionOk policy c.log c.session)
    (hcall : c.call call = some c') :
    ∃ e, c'.log = c.log ++ [e] ∧ SessionOk policy c'.log c'.session ∧ EventOk policy c.log e := by
  cases call with
  | command line =>
      obtain ⟨⟨s, action⟩, hcommand, rfl⟩ := Option.map_eq_some_iff.mp hcall
      refine ⟨_, rfl, h.effect Event.noConfusion (command_effect hcommand), fun hasks => ?_⟩
      exact (command_asks hcommand hasks).imp h.tls fun hpolicy => h.policy_eq ▸ hpolicy
  | tlsEstablished =>
      cases hcall
      refine ⟨_, rfl, ⟨h.policy_eq, fun _ => by simp, fun ha => mem_concat_of_mem (h.auth ha), ?_, ?_⟩, trivial⟩
      · exact fun name hname => nomatch hname
      · exact fun hin => nomatch hin
  | authenticationSucceeded =>
      cases hcall
      refine ⟨_, rfl, ⟨h.policy_eq, fun ht => mem_concat_of_mem (h.tls ht), fun _ => by simp, ?_, ?_⟩, trivial⟩
      · intro name hname
        rw [sinceTls_concat Event.noConfusion, List.filterMap_append]
        simp only [List.filterMap_cons_none (show Event.greeting .authenticationSucceeded = none from rfl),
          List.filterMap_nil, List.append_nil]
        exact h.helo name hname
      · exact fun hin => (h.transaction hin).plain rfl rfl rfl rfl rfl id
  | finishData =>
      cases hcall
      refine ⟨_, rfl, sessionOk_finish h, ?_⟩
      cases hfinish : c.session.finishData.2 with
      | none => exact trivial
      | some e => exact envelopeOk_of_finish h hfinish

/-- A history whose events were all as promised, and one more. -/
theorem eventOk_concat {policy : Policy} {log : List Event} {e : Event}
    (h : ∀ before x after, log = before ++ x :: after → EventOk policy before x) (he : EventOk policy log e) :
    ∀ before x after, log ++ [e] = before ++ x :: after → EventOk policy before x := by
  intro before x after heq
  rcases List.eq_nil_or_concat after with rfl | ⟨after, last, rfl⟩
  · obtain ⟨hbefore, hx⟩ := List.append_inj' heq rfl
    cases hx
    exact hbefore ▸ he
  · rw [List.concat_eq_append, ← List.cons_append, ← List.append_assoc] at heq
    exact h before x after (List.append_inj' heq rfl).1

/-- Whatever is called on a session, its envelopes and its requests for credentials are as the history of the
session says. -/
theorem never_an_open_relay {policy : Policy} {calls : List Call} {c : Conversation}
    (hrun : Run Conversation.call (fun _ _ => True) (.new policy) calls c) :
    ∀ before e after, c.log = before ++ e :: after → EventOk policy before e := by
  have hok : c.Ok policy := by
    refine hrun.invariant (fun c call c' hc _ hcall => ?_) ⟨⟨rfl, nofun, nofun, nofun, nofun⟩, by simp [Conversation.new]⟩
    obtain ⟨e, hlog, hsession, hevent⟩ := sessionOk_call hc.session hcall
    refine ⟨hsession, ?_⟩
    rw [hlog]
    exact eventOk_concat hc.log hevent
  exact hok.log

/-! ## A message after a reset -/

def rsetLine : Str := "RSET\r\n".toList

/-- The client greets, resets, and sends a message to a local address. -/
def letterCalls : List Call :=
  [.command ehloLine, .command rsetLine, .command mailLine, .command rcptLine, .command dataLine, .finishData]

def letterEnvelope : Envelope := ⟨.null, [sampleUser], "c".toList⟩

/-- The history of the message before it is finished. -/
def letterLog : List Event :=
  [.command ehloLine (.reply ehloReply), .command rsetLine (.reply (.line 250 "flushed")),
    .command mailLine (.reply (.line 250 "sender OK")), .command rcptLine (.reply (.line 250 "recipient OK")),
    .command dataLine (.readData dataReply)]

/-- The conversation once the message was taken. -/
def letterDone : Conversation := ⟨afterEhlo, letterLog ++ [.finishData (some letterEnvelope)]⟩

theorem letter_run : Run Conversation.call (fun _ _ => True) (.new samplePolicy) letterCalls letterDone := by
  have hsender : Run Conversation.call (fun _ _ => True) (.new samplePolicy) (letterCalls.take 3)
      ⟨afterMail, letterLog.take 3⟩ := Run.of_exec (by decide +kernel)
  have hmessage : Run Conversation.call (fun _ _ => True) ⟨afterMail, letterLog.take 3⟩ (letterCalls.drop 3)
      letterDone := Run.of_exec (by decide +kernel)
  exact hsender.append hmessage

theorem never_an_open_relay_letter : EnvelopeOk samplePolicy letterLog letterEnvelope :=
  never_an_open_relay letter_run letterLog (.finishData (some letterEnvelope)) [] rfl

/-- The envelope carries a name that was given before the last RSET. -/
theorem greeting_survives_reset :
    ∃ c before e, Run Conversation.call (fun _ _ => True) (.new samplePolicy) letterCalls c ∧
      c.log = before ++ [.finishData (some e)] ∧ e.helo = "c".toList ∧
      (fresh before).filterMap Event.greeting = [] :=
  ⟨letterDone, letterLog, letterEnvelope, letter_run, rfl, rfl, by decide +kernel⟩

end Selfhost.Mail
