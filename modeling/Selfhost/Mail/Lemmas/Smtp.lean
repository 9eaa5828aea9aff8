import Mathlib.Data.List.DropRight
import Selfhost.Lib.Run
import Selfhost.Mail.Smtp

/-!
# What one call does to a session

The calls of a session and the history of its conversation. What a command was answered says what was learned
from it: `acceptedRest` reads that off the line and the reply, and `command_effect` says what each command did to
the session.
-/

namespace Selfhost.Mail

open Selfhost.Lib

/-! ## Events -/

/-- One call of a session, with what it returned. -/
inductive Event where
  | command (line : Str) (action : Action)
  | tlsEstablished
  | authenticationSucceeded
  | finishData (envelope : Option Envelope)
  deriving DecidableEq

/-- Whether a command was answered with 250. -/
def Action.accepts : Action → Bool
  | .reply r => r.code == 250
  | _ => false

/-- Whether an action asks for credentials or has them verified. -/
def Action.asksCredentials : Action → Bool
  | .verifyCredentials _ _ => true
  | .awaitCredentials _ _ => true
  | _ => false

/-- The path that the argument of `MAIL` or `RCPT` gives. -/
def argumentPath (keyword rest : Str) : Option Path :=
  match stripKeyword rest keyword with
  | some (some argument) => (Path.parse (pathText argument)).toOption
  | _ => none

namespace Event

/-- The argument of a command of this verb that was accepted. -/
def acceptedRest (verb : Verb) : Event → Option Str
  | .command line action =>
      if action.accepts ∧ (splitCommand line).1 = verb then some (splitCommand line).2 else none
  | _ => none

/-- The sender of an accepted `MAIL`. -/
def sender (e : Event) : Option Path := (e.acceptedRest .mail).bind (argumentPath "FROM:".toList)

/-- The recipient of an accepted `RCPT`. -/
def recipient (e : Event) : Option Address :=
  (e.acceptedRest .rcpt).bind fun rest => (argumentPath "TO:".toList rest).bind Path.address

/-- The name of an accepted `EHLO` or `HELO`. -/
def greeting (e : Event) : Option Str := (e.acceptedRest .ehlo).or (e.acceptedRest .helo)

/-- The events after which a transaction starts anew. -/
def isReset (e : Event) : Bool :=
  match e with
  | .tlsEstablished => true
  | .finishData envelope => envelope.isSome
  | e => e.greeting.isSome || (e.acceptedRest .rset).isSome

end Event

/-- The events since a transaction was last started anew. -/
def fresh (log : List Event) : List Event := log.rtakeWhile fun e => !e.isReset

theorem fresh_concat {log : List Event} {e : Event} (h : e.isReset = false) :
    fresh (log ++ [e]) = fresh log ++ [e] :=
  List.rtakeWhile_concat_pos _ _ _ (by simp [h])

theorem fresh_reset {log : List Event} {e : Event} (h : e.isReset = true) : fresh (log ++ [e]) = [] :=
  List.rtakeWhile_concat_neg _ _ _ (by simp [h])

/-! ## Calls -/

inductive Call where
  | command (line : Str)
  | tlsEstablished
  | authenticationSucceeded
  | finishData
  deriving DecidableEq

/-- A session and its history. -/
structure Conversation where
  session : Session
  log : List Event
  deriving DecidableEq

def Conversation.new (policy : Policy) : Conversation := ⟨.new policy, []⟩

/-- One call; `none` when it panics. -/
def Conversation.call (c : Conversation) : Call → Option Conversation
  | .command line => (c.session.command line).map fun (s, action) => ⟨s, c.log ++ [.command line action]⟩
  | .tlsEstablished => some ⟨c.session.tlsEstablished, c.log ++ [.tlsEstablished]⟩
  | .authenticationSucceeded => some ⟨c.session.authenticationSucceeded, c.log ++ [.authenticationSucceeded]⟩
  | .finishData => some ⟨c.session.finishData.1, c.log ++ [.finishData c.session.finishData.2]⟩

/-! ## What a command did -/

def State.inTransaction : State → Bool
  | .haveSender => true
  | .haveRecipients => true
  | .readingData => true
  | _ => false

/-- Nothing is learned from this event. -/
structure Plain (e : Event) : Prop where
  sender : e.sender = none
  recipient : e.recipient = none
  greeting : e.greeting = none
  isReset : e.isReset = false

/-- The ways a command can change a session, with what is learned from it. -/
inductive Effect (s : Session) (e : Event) : Session → Prop
  | unchanged (h : Plain e) : Effect s e s
  | greet {domain : Str} (hs : e.sender = none) (hr : e.recipient = none) (hg : e.greeting = some domain)
      (h : e.isReset = true) : Effect s e (s.greet domain)
  | rset (hs : e.sender = none) (hr : e.recipient = none) (hg : e.greeting = none) (h : e.isReset = true) :
      Effect s e s.resetTransaction
  | mail {path : Path} (hstate : s.state = .greeted ∨ s.state = .ready) (hhelo : s.helo ≠ none)
      (hs : e.sender = some path) (hr : e.recipient = none) (hg : e.greeting = none) (h : e.isReset = false) :
      Effect s e { s with sender := some path, recipients := [], state := .haveSender }
  | known {address : Address} (hstate : s.state = .haveSender ∨ s.state = .haveRecipients)
      (hknown : ∃ a ∈ s.recipients, a.isMatch address = true) (hs : e.sender = none) (hr : e.recipient = some address) (hg : e.greeting = none)
      (h : e.isReset = false) : Effect s e s
  | rcpt {address : Address} (hstate : s.state = .haveSender ∨ s.state = .haveRecipients)
      (hroom : s.recipients.length < maxRecipients)
      (hrelay : address.isLocalTo s.policy.localDomains = true ∨ s.authenticated = true)
      (hnew : ∀ a ∈ s.recipients, a.isMatch address = false)
      (hs : e.sender = none) (hr : e.recipient = some address) (hg : e.greeting = none)
      (h : e.isReset = false) :
      Effect s e { s with recipients := s.recipients ++ [address], state := .haveRecipients }
  | data (hstate : s.state = .haveRecipients) (h : Plain e) : Effect s e { s with state := .readingData }
  | quit (h : Plain e) : Effect s e { s with state := .closed }

section Effects

variable {s : Session} {line : Str} {verb : Verb} {rest : Str}

theorem acceptedRest_command {action : Action} {v : Verb} (hsplit : splitCommand line = (verb, rest)) :
    (Event.command line action).acceptedRest v = if action.accepts ∧ verb = v then some rest else none := by
  simp only [Event.acceptedRest, hsplit]

/-- A command that was not accepted teaches nothing. -/
theorem plain_of_refused {action : Action} (h : action.accepts = false) : Plain (.command line action) := by
  have hnone : ∀ v, (Event.command line action).acceptedRest v = none := by
    intro v
    simp [Event.acceptedRest, h]
  refine ⟨?_, ?_, ?_, ?_⟩
  · rw [Event.sender, hnone]
    rfl
  · rw [Event.recipient, hnone]
    rfl
  · rw [Event.greeting, hnone, hnone]
    rfl
  · simp only [Event.isReset, Event.greeting, hnone]
    rfl

/-- What is learned from a command that was accepted. -/
theorem learned {action : Action} (hsplit : splitCommand line = (verb, rest)) (hacc : action.accepts = true) :
    let e := Event.command line action
    e.sender = (if verb = .mail then argumentPath "FROM:".toList rest else none) ∧
      e.recipient = (if verb = .rcpt then (argumentPath "TO:".toList rest).bind Path.address else none) ∧
      e.greeting = (if verb = .ehlo ∨ verb = .helo then some rest else none) ∧
      e.isReset = decide (verb = .ehlo ∨ verb = .helo ∨ verb = .rset) := by
  have hrest : ∀ v, (Event.command line action).acceptedRest v = if verb = v then some rest else none := by
    intro v
    simp only [acceptedRest_command hsplit, hacc, true_and]
  simp only [Event.sender, Event.recipient, Event.isReset, Event.greeting, hrest]
  cases verb <;> exact ⟨rfl, rfl, rfl, rfl⟩

theorem effect_of_answer {code : Nat} {text : String} {s' : Session} {action : Action} (hcode : code ≠ 250)
    (h : s.answer code text = (s', action)) : Effect s (.command line action) s' := by
  cases h
  refine .unchanged (plain_of_refused ?_)
  simpa [Action.accepts, Reply.line] using hcode

theorem effect_of_text {code : Nat} {text : Str} (hcode : code ≠ 250) :
    Effect s (.command line (.reply (.text code text))) s := by
  refine .unchanged (plain_of_refused ?_)
  simpa [Action.accepts, Reply.text] using hcode

/-- An accepted `EHLO` or `HELO`. -/
theorem effect_of_greet {r : Reply} (hsplit : splitCommand line = (verb, rest)) (hverb : verb = .ehlo ∨ verb = .helo)
    (hcode : r.code = 250) : Effect s (.command line (.reply r)) (s.greet rest) := by
  obtain ⟨hs, hr, hg, h⟩ := learned hsplit (show (Action.reply r).accepts = true by simp [Action.accepts, hcode])
  rcases hverb with rfl | rfl
  · exact .greet hs hr hg h
  · exact .greet hs hr hg h

/-- What the path of `MAIL` was answered with. -/
theorem effect_sender {argument : Str} {s' : Session} {action : Action} (hsplit : splitCommand line = (.mail, rest))
    (hargument : stripKeyword rest "FROM:".toList = some (some argument))
    (hstate : s.state = .greeted ∨ s.state = .ready) (hhelo : s.helo ≠ none)
    (h : (match Path.parse (pathText argument) with
      | .ok path => ({ s with sender := some path, recipients := [], state := .haveSender },
          Action.reply (.line 250 "sender OK"))
      | .error e => (s, .reply (.text 553 ("bad sender: ".toList ++ e.text)))) = (s', action)) :
    Effect s (.command line action) s' := by
  split at h
  · rename_i path hpath
    cases h
    obtain ⟨hs, hr, hg, hreset⟩ := learned hsplit (show (Action.reply (.line 250 "sender OK")).accepts = true from rfl)
    refine .mail hstate hhelo ?_ hr hg hreset
    rw [hs, if_pos rfl, argumentPath, hargument]
    simp only [hpath, Except.toOption]
  · cases h
    exact effect_of_text (by decide)

theorem effect_mailFrom {argument : Str} {s' : Session} {action : Action} (hsplit : splitCommand line = (.mail, rest))
    (hargument : stripKeyword rest "FROM:".toList = some (some argument))
    (hstate : s.state = .greeted ∨ s.state = .ready) (hhelo : s.helo ≠ none)
    (h : s.mailFrom argument = (s', action)) : Effect s (.command line action) s' := by
  unfold Session.mailFrom at h
  dsimp only at h
  split at h
  · exact effect_sender hsplit hargument hstate hhelo h
  · exact effect_of_answer (by decide) h
  · split at h
    · cases h
      exact effect_of_text (by decide)
    · exact effect_sender hsplit hargument hstate hhelo h

/-- A session that takes commands. -/
def Session.TakesCommands (s : Session) : Prop := s.state ≠ .readingData ∧ s.state ≠ .closed

theorem effect_mail {s' : Session} {action : Action} (hsplit : splitCommand line = (.mail, rest))
    (hopen : s.TakesCommands) (h : s.mail rest = some (s', action)) : Effect s (.command line action) s' := by
  unfold Session.mail at h
  split at h
  · exact effect_of_answer (by decide) (Option.some.inj h)
  · rename_i hhelo
    split at h
    · exact effect_of_answer (by decide) (Option.some.inj h)
    · rename_i hstate
      have hready : s.state = .greeted ∨ s.state = .ready := by
        obtain ⟨hreading, hclosed⟩ := hopen
        cases hs : s.state <;> simp_all
      obtain ⟨argument, hargument, h⟩ := Option.map_eq_some_iff.mp h
      cases argument with
      | none => exact effect_of_answer (by decide) h
      | some argument => exact effect_mailFrom hsplit hargument hready hhelo h

theorem effect_rcptTo {argument : Str} {s' : Session} {action : Action} (hsplit : splitCommand line = (.rcpt, rest))
    (hargument : stripKeyword rest "TO:".toList = some (some argument))
    (hstate : s.state = .haveSender ∨ s.state = .haveRecipients) (hroom : s.recipients.length < maxRecipients)
    (h : s.rcptTo argument = (s', action)) : Effect s (.command line action) s' := by
  unfold Session.rcptTo at h
  split at h
  · cases h
    exact effect_of_text (by decide)
  · exact effect_of_answer (by decide) h
  · rename_i address hpath
    obtain ⟨hs, hr, hg, hreset⟩ := learned hsplit (show (Action.reply (.line 250 "recipient OK")).accepts = true from rfl)
    have hrecipient : (Event.command line (.reply (.line 250 "recipient OK"))).recipient = some address := by
      rw [hr, if_pos rfl, argumentPath, hargument]
      simp only [hpath, Except.toOption, Option.bind_some, Path.address]
    unfold Session.addRecipient at h
    split at h
    · exact effect_of_answer (by decide) h
    · rename_i hrelay
      split at h
      · rename_i hknown
        cases h
        exact .known hstate (List.any_eq_true.mp hknown) hs hrecipient hg hreset
      · rename_i hnew
        cases h
        refine .rcpt hstate hroom ?_ ?_ hs hrecipient hg hreset
        · simpa [Bool.and_eq_true, Classical.or_iff_not_imp_left] using hrelay
        · simpa using hnew

theorem effect_rcpt {s' : Session} {action : Action} (hsplit : splitCommand line = (.rcpt, rest))
    (h : s.rcpt rest = some (s', action)) : Effect s (.command line action) s' := by
  unfold Session.rcpt at h
  split at h
  · exact effect_of_answer (by decide) (Option.some.inj h)
  · rename_i hstate
    split at h
    · exact effect_of_answer (by decide) (Option.some.inj h)
    · rename_i hroom
      obtain ⟨argument, hargument, h⟩ := Option.map_eq_some_iff.mp h
      cases argument with
      | none => exact effect_of_answer (by decide) h
      | some argument => exact effect_rcptTo hsplit hargument (not_not.mp hstate) (Nat.not_le.mp hroom) h

theorem effect_data {s' : Session} {action : Action} (h : s.data = (s', action)) :
    Effect s (.command line action) s' := by
  unfold Session.data at h
  split at h
  · rename_i hstate
    cases h
    exact .data hstate (plain_of_refused rfl)
  · exact effect_of_answer (by decide) h
  · exact effect_of_answer (by decide) h

theorem effect_starttls {s' : Session} {action : Action} (h : s.starttls = (s', action)) :
    Effect s (.command line action) s' := by
  unfold Session.starttls at h
  split at h
  · exact effect_of_answer (by decide) h
  · split at h
    · exact effect_of_answer (by decide) h
    · cases h
      exact .unchanged (plain_of_refused rfl)

theorem effect_auth {s' : Session} {action : Action} (h : s.auth rest = (s', action)) :
    Effect s (.command line action) s' := by
  unfold Session.auth at h
  split at h
  · exact effect_of_answer (by decide) h
  · split at h
    · exact effect_of_answer (by decide) h
    · split at h
      · exact effect_of_answer (by decide) h
      · split at h
        · exact effect_of_answer (by decide) h
        · dsimp only at h
          split at h
          · split at h
            · cases h
              exact .unchanged (plain_of_refused rfl)
            · cases h
              exact .unchanged (plain_of_refused rfl)
          · split at h
            · cases h
              exact .unchanged (plain_of_refused rfl)
            · cases h
              exact effect_of_text (by decide)

theorem effect_perform {s' : Session} {action : Action} (hsplit : splitCommand line = (verb, rest))
    (hopen : s.TakesCommands) (h : s.perform verb rest = some (s', action)) : Effect s (.command line action) s' := by
  cases verb with
  | ehlo =>
      have h := Option.some.inj h
      unfold Session.ehlo at h
      split at h
      · exact effect_of_answer (by decide) h
      · cases h
        exact effect_of_greet hsplit (Or.inl rfl) rfl
  | helo =>
      have h := Option.some.inj h
      unfold Session.heloCommand at h
      split at h
      · exact effect_of_answer (by decide) h
      · cases h
        exact effect_of_greet hsplit (Or.inr rfl) rfl
  | mail => exact effect_mail hsplit hopen h
  | rcpt => exact effect_rcpt hsplit h
  | data => exact effect_data (Option.some.inj h)
  | rset =>
      cases h
      obtain ⟨hs, hr, hg, h⟩ := learned hsplit (show (Action.reply (.line 250 "flushed")).accepts = true from rfl)
      exact .rset hs hr hg h
  | noop =>
      cases h
      obtain ⟨hs, hr, hg, h⟩ := learned hsplit (show (Action.reply (.line 250 "OK")).accepts = true from rfl)
      exact .unchanged ⟨hs, hr, hg, h⟩
  | vrfy => exact effect_of_answer (by decide) (Option.some.inj h)
  | starttls => exact effect_starttls (Option.some.inj h)
  | auth => exact effect_auth (Option.some.inj h)
  | quit =>
      cases h
      exact .quit (plain_of_refused rfl)
  | empty => exact effect_of_answer (by decide) (Option.some.inj h)
  | other name =>
      cases h
      exact effect_of_text (by decide)

/-- What a command did to a session. -/
theorem command_effect {s' : Session} {action : Action} (h : s.command line = some (s', action)) :
    Effect s (.command line action) s' := by
  unfold Session.command at h
  split at h
  · exact effect_of_answer (by decide) (Option.some.inj h)
  · split at h
    · exact effect_of_answer (by decide) (Option.some.inj h)
    · rename_i hreading
      split at h
      · cases h
        exact .unchanged (plain_of_refused rfl)
      · rename_i hclosed
        exact effect_perform rfl ⟨hreading, hclosed⟩ h

end Effects

/-! ## Actions -/

section Actions

variable {s s' : Session} {action : Action} {rest : Str}

theorem mail_reply (h : s.mail rest = some (s', action)) : ∃ r, action = .reply r := by
  unfold Session.mail at h
  split at h
  · cases h
    exact ⟨_, rfl⟩
  · split at h
    · cases h
      exact ⟨_, rfl⟩
    · obtain ⟨argument, -, h⟩ := Option.map_eq_some_iff.mp h
      cases argument with
      | none =>
          cases h
          exact ⟨_, rfl⟩
      | some argument =>
          simp only [Session.mailFrom] at h
          repeat' split at h
          all_goals cases h; exact ⟨_, rfl⟩

theorem rcpt_reply (h : s.rcpt rest = some (s', action)) : ∃ r, action = .reply r := by
  unfold Session.rcpt at h
  split at h
  · cases h
    exact ⟨_, rfl⟩
  · split at h
    · cases h
      exact ⟨_, rfl⟩
    · obtain ⟨argument, -, h⟩ := Option.map_eq_some_iff.mp h
      cases argument with
      | none =>
          cases h
          exact ⟨_, rfl⟩
      | some argument =>
          simp only [Session.rcptTo, Session.addRecipient] at h
          repeat' split at h
          all_goals cases h; exact ⟨_, rfl⟩

theorem auth_asks (h : s.auth rest = (s', action)) (hasks : action.asksCredentials = true) :
    s.tlsActive = true ∨ s.policy.allowAuthWithoutTls = true := by
  unfold Session.auth at h
  split at h
  · cases h
    cases hasks
  · split at h
    · cases h
      cases hasks
    · rename_i hclear
      simpa [Bool.and_eq_true, Classical.or_iff_not_imp_left] using hclear

/-- Credentials are asked for only under TLS or where the policy allows them in the clear. -/
theorem command_asks {line : Str} (h : s.command line = some (s', action))
    (hasks : action.asksCredentials = true) : s.tlsActive = true ∨ s.policy.allowAuthWithoutTls = true := by
  unfold Session.command at h
  split at h
  · cases h
    cases hasks
  · split at h
    · cases h
      cases hasks
    · split at h
      · cases h
        cases hasks
      · cases hverb : (splitCommand line).1 with
        | auth =>
            rw [hverb] at h
            exact auth_asks (Option.some.inj h) hasks
        | mail =>
            rw [hverb] at h
            obtain ⟨r, rfl⟩ := mail_reply h
            cases hasks
        | rcpt =>
            rw [hverb] at h
            obtain ⟨r, rfl⟩ := rcpt_reply h
            cases hasks
        | _ =>
            rw [hverb] at h
            simp only [Session.perform, Session.ehlo, Session.heloCommand, Session.data, Session.starttls] at h
            repeat' split at h
            all_goals cases h; cases hasks

/-- Only a session with recipients is sent on to the content of a message. -/
theorem command_readData {line : Str} {reply : Reply} (h : s.command line = some (s', .readData reply)) :
    s'.state = .readingData := by
  unfold Session.command at h
  split at h
  · cases h
  · split at h
    · cases h
    · split at h
      · cases h
      · cases hverb : (splitCommand line).1 with
        | data =>
            rw [hverb] at h
            simp only [Session.perform, Session.data] at h
            split at h
            · cases h
              rfl
            · cases h
            · cases h
        | mail =>
            rw [hverb] at h
            obtain ⟨r, hr⟩ := mail_reply h
            cases hr
        | rcpt =>
            rw [hverb] at h
            obtain ⟨r, hr⟩ := rcpt_reply h
            cases hr
        | _ =>
            rw [hverb] at h
            simp only [Session.perform, Session.ehlo, Session.heloCommand, Session.starttls, Session.auth] at h
            repeat' split at h
            all_goals cases h

end Actions

/-! ## A short conversation -/

def samplePolicy : Policy := ⟨"mx.a.b".toList, ["a.b".toList], true, false, 1024⟩

def sampleUser : Address := ⟨"u".toList, "a.b".toList, by decide, by decide⟩

def ehloLine : Str := "EHLO c\r\n".toList

def mailLine : Str := "MAIL FROM:<>\r\n".toList

def rcptLine : Str := "RCPT TO:<u@A.B>\r\n".toList

def dataLine : Str := "DATA\r\n".toList

/-- The answers of a new session to the lines of a message for the user. -/
def ehloReply : Reply := ⟨250, (Session.new samplePolicy).capabilities "c".toList⟩

def dataReply : Reply := .line 354 "start mail input; end with <CRLF>.<CRLF>"

/-- The session after each of the lines. -/
def afterEhlo : Session := (Session.new samplePolicy).greet "c".toList

def afterMail : Session := { afterEhlo with sender := some .null, state := .haveSender }

def afterRcpt : Session := { afterMail with recipients := [sampleUser], state := .haveRecipients }

def afterData : Session := { afterRcpt with state := .readingData }

end Selfhost.Mail
