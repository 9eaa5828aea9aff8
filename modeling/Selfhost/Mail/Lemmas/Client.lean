import Selfhost.Mail.Client

/-!
# Conversations of the client

What stands in the record of a conversation, phase by phase. `Await` is the state in which the client has said
something and waits for the reply; one lemma says what a reply makes of it, and the loop of the driver follows by
induction on the turns that are left.
-/

namespace Selfhost.Mail

open Selfhost.Lib

/-! ## Records -/

/-- The recipient that a command line names. -/
def rcptOf (line : Str) : Option Str :=
  (stripStart "RCPT TO:<".toList line).bind fun rest =>
    if rest.getLast? = some '>' then some rest.dropLast else none

namespace Said

def rcpt : Said → Option Str
  | .line l => rcptOf l
  | _ => none

/-- Whether credentials are sent. -/
def isAuth : Said → Bool
  | .line l => "AUTH ".toList.isPrefixOf l
  | _ => false

def isUpgrade : Said → Bool
  | .upgraded _ => true
  | _ => false

end Said

/-- The recipients that were named, in order. -/
def asked (log : List Exchange) : List Str := log.filterMap fun e => e.said.rcpt

/-- The recipients that were named and answered, with the answers. -/
def answered (log : List Exchange) : List (Str × Reply) :=
  log.filterMap fun e => e.said.rcpt.bind fun r => e.answer.map fun reply => (r, reply)

def acceptedOf (l : List (Str × Reply)) : List Str := (l.filter fun p => p.2.isPositive).map Prod.fst

def rejectedOf (l : List (Str × Reply)) : List (Str × Str) :=
  (l.filter fun p => !p.2.isPositive).map fun p => (p.1, natText p.2.code ++ ' ' :: p.2.firstLine)

/-- What must stand in the record before something is said. -/
structure Proper (body : Bytes) (before : List Exchange) (said : Said) : Prop where
  auth : said.isAuth = true → ∃ e ∈ before, e.said.isUpgrade = true
  body_sent : ∀ b, said = .body b → b = frameBody body ∧ acceptedOf (answered before) ≠ [] ∧
    ∃ earlier reply, before = earlier ++ [⟨.line "DATA".toList, some reply⟩] ∧ reply.code = 354

/-- Everything in the record was said when it could be. -/
def AllProper (body : Bytes) (log : List Exchange) : Prop :=
  ∀ before e after, log = before ++ e :: after → Proper body before e.said

theorem allProper_nil (body : Bytes) : AllProper body [] := by
  intro before e after h
  exact absurd h.symm (by simp)

theorem AllProper.concat {body : Bytes} {log : List Exchange} {e : Exchange} (h : AllProper body log)
    (he : Proper body log e.said) : AllProper body (log ++ [e]) := by
  intro before x after hsplit
  rcases List.eq_nil_or_concat after with rfl | ⟨after, y, rfl⟩
  · obtain ⟨rfl, hx⟩ := List.append_inj' hsplit rfl
    cases hx
    exact he
  · rw [List.concat_eq_append, ← List.cons_append, ← List.append_assoc] at hsplit
    exact h before x after (List.append_inj' hsplit rfl).1

theorem asked_concat (log : List Exchange) (e : Exchange) : asked (log ++ [e]) = asked log ++ e.said.rcpt.toList := by
  rw [asked, List.filterMap_append]
  cases h : e.said.rcpt <;> simp [asked, h]

theorem answered_concat (log : List Exchange) (said : Said) (reply : Reply) :
    answered (log ++ [⟨said, some reply⟩]) = answered log ++ said.rcpt.toList.map fun r => (r, reply) := by
  rw [answered, List.filterMap_append]
  cases h : said.rcpt <;> simp [answered, h]

theorem answered_other {log : List Exchange} {e : Exchange} (h : e.said.rcpt = none) :
    answered (log ++ [e]) = answered log := by
  rw [answered, List.filterMap_append]
  simp [answered, h]

theorem rcptCommand_eq (r : Str) : rcptCommand r = "RCPT TO:<".toList ++ (r ++ ['>']) := List.append_assoc _ _ _

@[simp] theorem rcptOf_rcptCommand (r : Str) : rcptOf (rcptCommand r) = some r := by
  rw [rcptOf, rcptCommand_eq, stripStart_append, Option.bind_some, List.getLast?_concat, if_pos rfl,
    List.dropLast_concat]

theorem eq_rcptCommand {l r : Str} (h : rcptOf l = some r) : l = rcptCommand r := by
  obtain ⟨rest, hrest, hr⟩ := Option.bind_eq_some_iff.mp h
  split at hr
  · rename_i hlast
    cases hr
    obtain ⟨t, ht⟩ := List.getLast?_eq_some_iff.mp hlast
    rw [rcptCommand_eq, eq_of_stripStart hrest, ht, List.dropLast_concat]
  · cases hr

theorem head?_word {word l : Str} {a : Char} (hne : word ≠ []) (h : word.head? ≠ some a) :
    (word ++ l).head? ≠ some a := by
  cases word with
  | nil => exact absurd rfl hne
  | cons b word => exact h

/-- A line that starts with another word than `RCPT` names no recipient. -/
theorem rcptOf_other {l : Str} (h : l.head? ≠ some 'R') : rcptOf l = none := by
  have hne : ¬ "RCPT TO:<".toList <+: l := by
    rintro ⟨t, rfl⟩
    exact h rfl
  rw [rcptOf, stripStart, if_neg hne]
  rfl

theorem isAuth_other {l : Str} (h : l.head? ≠ some 'A') : Said.isAuth (.line l) = false := by
  show "AUTH ".toList.isPrefixOf l = false
  rw [← Bool.not_eq_true, List.isPrefixOf_iff_prefix]
  rintro ⟨t, rfl⟩
  exact h rfl

theorem perm_acceptedOf (l : List (Str × Reply)) :
    (acceptedOf l ++ (rejectedOf l).map Prod.fst).Perm (l.map Prod.fst) := by
  have hrejected : (rejectedOf l).map Prod.fst = (l.filter fun p => !p.2.isPositive).map Prod.fst := by
    rw [rejectedOf, List.map_map]
    rfl
  rw [hrejected, acceptedOf, ← List.map_append]
  exact (List.filter_append_perm _ l).map _

/-! ## Waiting for a reply -/

/-- What the phases behind the transaction's start say about the record. -/
def Stage (body : Bytes) (c : SmtpClient) (log : List Exchange) (said : Said) : Prop :=
  match c.phase with
  | .rcpt => ∃ r, c.nextRcpt ≠ 0 ∧ c.recipients[c.nextRcpt - 1]? = some r ∧ said = .line (rcptCommand r) ∧
      asked log = c.recipients.take (c.nextRcpt - 1)
  | .data => asked log = c.recipients ∧ said = .line "DATA".toList ∧ c.accepted ≠ []
  | .body => asked log = c.recipients ∧ said = .body (frameBody body)
  | .quit => asked log = c.recipients ∧ said = .line "QUIT".toList ∧
      ∃ before reply, log = before ++ [⟨.body (frameBody body), some reply⟩] ∧ reply.isPositive = true
  | .done => False
  | _ => asked log = [] ∧ said.rcpt = none

/-- What the client holds agrees with the record. -/
structure Settled (body : Bytes) (recipients : List Str) (c : SmtpClient) (log : List Exchange) : Prop where
  same : c.recipients = recipients
  accepted : c.accepted = acceptedOf (answered log)
  rejected : c.rejected = rejectedOf (answered log)
  all_answered : (answered log).map Prod.fst = asked log
  upgraded : c.tlsDone = true → ∃ e ∈ log, e.said.isUpgrade = true
  log_proper : AllProper body log

/-- The client has said something and waits for the reply. -/
structure Await (body : Bytes) (recipients : List Str) (c : SmtpClient) (log : List Exchange) (said : Said) :
    Prop where
  settled : Settled body recipients { c with tlsDone := c.tlsDone && !said.isUpgrade } log
  proper : Proper body log said
  stage : Stage body c log said

/-- A conversation that was completed: every recipient was answered, and the body was accepted. -/
structure Complete (body : Bytes) (recipients : List Str) (log : List Exchange) (d : SmtpClient.Delivery) : Prop where
  all_answered : (answered log).map Prod.fst = recipients
  accepted : d.accepted = acceptedOf (answered log)
  rejected : d.rejected = rejectedOf (answered log)
  body_accepted : ∃ before reply after, log = before ++ ⟨.body (frameBody body), some reply⟩ :: after ∧
    reply.isPositive = true ∧ answered before = answered log

/-- What holds of every record, however the conversation ends. -/
structure Recorded (body : Bytes) (recipients : List Str) (log : List Exchange) : Prop where
  proper : AllProper body log
  in_order : asked log <+: recipients

/-- A bound on the replies that the client can still take. -/
def SmtpClient.left (c : SmtpClient) : Nat :=
  match c.phase with
  | .greeting => c.recipients.length + 10
  | .ehlo => if c.tlsDone then c.recipients.length + 7 else c.recipients.length + 9
  | .startTls => c.recipients.length + 8
  | .auth => c.recipients.length + 6
  | .mail => c.recipients.length + 5
  | .rcpt => c.recipients.length - c.nextRcpt + 4
  | .data => 3
  | .body => 2
  | .quit => 1
  | .done => 0

/-- What follows from the action that the client decides on. -/
def Next (body : Bytes) (recipients : List Str) (n : Nat) (c : SmtpClient) (log : List Exchange) : ClientAction → Prop
  | .send l => Await body recipients c log (.line l) ∧ c.left < n
  | .sendBody => Await body recipients c log (.body (frameBody body)) ∧ c.left < n
  | .startTls => Await body recipients c.afterUpgrade.1 log (.upgraded c.afterUpgrade.2) ∧ c.afterUpgrade.1.left < n
  | .finished d => Complete body recipients log d ∧ Recorded body recipients log ∧ 0 < n
  | .failed _ => Recorded body recipients log ∧ 0 < n

section

variable {body : Bytes} {recipients : List Str} {c : SmtpClient} {log : List Exchange} {said : Said} {reply : Reply}
  {n : Nat}

theorem Settled.congr (h : Settled body recipients c log) {c' : SmtpClient} (hr : c'.recipients = c.recipients)
    (ha : c'.accepted = c.accepted) (hj : c'.rejected = c.rejected) (ht : c'.tlsDone = c.tlsDone) :
    Settled body recipients c' log :=
  ⟨hr.trans h.same, ha.trans h.accepted, hj.trans h.rejected, h.all_answered, fun hd => h.upgraded (ht ▸ hd),
    h.log_proper⟩

theorem Settled.await (h : Settled body recipients c log) (hp : Proper body log said) (hs : Stage body c log said) :
    Await body recipients c log said := by
  refine ⟨⟨h.same, h.accepted, h.rejected, h.all_answered, fun hd => h.upgraded ?_, h.log_proper⟩, hp, hs⟩
  simp only [Bool.and_eq_true] at hd
  exact hd.1

/-- A command line that is not `AUTH` can be sent at any time. -/
theorem proper_line {l : Str} (h : l.head? ≠ some 'A') : Proper body log (.line l) := by
  refine ⟨fun hauth => ?_, fun b hb => by cases hb⟩
  rw [isAuth_other h] at hauth
  cases hauth

theorem proper_rcpt (r : Str) : Proper body log (.line (rcptCommand r)) := by
  rw [rcptCommand_eq]
  exact proper_line (head?_word (by decide) (by decide))

theorem Await.upgraded_in (h : Await body recipients c log said) (hd : c.tlsDone = true) :
    ∃ e ∈ log ++ [⟨said, some reply⟩], e.said.isUpgrade = true := by
  cases hs : said.isUpgrade with
  | true => exact ⟨_, List.mem_append_right _ (List.mem_singleton_self _), hs⟩
  | false =>
      obtain ⟨e, he, hup⟩ := h.settled.upgraded (by simp [hd, hs])
      exact ⟨e, List.mem_append_left _ he, hup⟩

/-- A reply to something other than `RCPT` leaves the lists as they are. -/
theorem Await.heard (h : Await body recipients c log said) (hnone : said.rcpt = none) :
    Settled body recipients c (log ++ [⟨said, some reply⟩]) := by
  have hanswered : answered (log ++ [⟨said, some reply⟩]) = answered log := answered_other hnone
  have hasked : asked (log ++ [⟨said, some reply⟩]) = asked log := by
    rw [asked_concat, hnone]
    exact List.append_nil _
  refine ⟨h.settled.same, ?_, ?_, ?_, fun hd => h.upgraded_in hd, h.settled.log_proper.concat h.proper⟩
  · rw [hanswered]
    exact h.settled.accepted
  · rw [hanswered]
    exact h.settled.rejected
  · rw [hanswered, hasked]
    exact h.settled.all_answered

/-- A reply to `RCPT` is recorded under its recipient. -/
theorem Await.recorded {r : Str} (h : Await body recipients c log (.line (rcptCommand r))) :
    Settled body recipients (c.record r reply) (log ++ [⟨.line (rcptCommand r), some reply⟩]) := by
  have hrcpt : Said.rcpt (.line (rcptCommand r)) = some r := rcptOf_rcptCommand r
  have hanswered : answered (log ++ [⟨.line (rcptCommand r), some reply⟩]) = answered log ++ [(r, reply)] := by
    rw [answered_concat, hrcpt]
    rfl
  have haccepted : c.accepted = acceptedOf (answered log) := h.settled.accepted
  have hrejected : c.rejected = rejectedOf (answered log) := h.settled.rejected
  have hfields : (c.record r reply).recipients = c.recipients ∧ (c.record r reply).tlsDone = c.tlsDone ∧
      (c.record r reply).accepted = acceptedOf (answered log ++ [(r, reply)]) ∧
      (c.record r reply).rejected = rejectedOf (answered log ++ [(r, reply)]) := by
    cases hpos : reply.isPositive with
    | true => simp [SmtpClient.record, acceptedOf, rejectedOf, hpos, haccepted, hrejected]
    | false => simp [SmtpClient.record, acceptedOf, rejectedOf, hpos, haccepted, hrejected]
  refine ⟨hfields.1.trans h.settled.same, ?_, ?_, ?_, fun hd => h.upgraded_in (hfields.2.1 ▸ hd),
    h.settled.log_proper.concat h.proper⟩
  · rw [hanswered]
    exact hfields.2.2.1
  · rw [hanswered]
    exact hfields.2.2.2
  · rw [hanswered, asked_concat, hrcpt, List.map_append, h.settled.all_answered]
    rfl

/-! ## What a reply makes of it -/

theorem Settled.sends (h : Settled body recipients c log) {l : Str} (hp : Proper body log (.line l))
    (hs : Stage body c log (.line l)) (hn : c.left < n) : Next body recipients n c log (.send l) :=
  ⟨h.await hp hs, hn⟩

theorem Settled.fails (h : Settled body recipients c log) (hasked : asked log <+: recipients) (hn : 0 < n)
    (context : String) : Next body recipients n (c.fail reply context).1 log (c.fail reply context).2 :=
  ⟨⟨h.log_proper, hasked⟩, hn⟩

theorem Settled.expects {next : Phase} {f : SmtpClient → SmtpClient × ClientAction}
    (h : Settled body recipients c log) (hasked : asked log <+: recipients) (hn : 0 < n)
    (hok : reply.isPositive = true →
      Next body recipients n (f { c with phase := next }).1 log (f { c with phase := next }).2) :
    Next body recipients n (c.expect reply next f).1 log (c.expect reply next f).2 := by
  unfold SmtpClient.expect
  split
  · rename_i hpos
    exact hok hpos
  · exact h.fails hasked hn _

theorem Settled.mails (h : Settled body recipients c log) (hasked : asked log = []) (hphase : c.phase = .mail)
    (hn : c.recipients.length + 5 < n) : Next body recipients n c log (.send c.mailLine) := by
  refine h.sends (proper_line (head?_word (by decide) (by decide))) ?_ ?_
  · rw [Stage, hphase]
    exact ⟨hasked, rcptOf_other (head?_word (by decide) (by decide))⟩
  · rw [SmtpClient.left, hphase]
    exact hn

/-- Before the transaction, no recipient has been named. -/
theorem Settled.begins (h : Settled body recipients c log) (hasked : asked log = [])
    (htls : c.auth.isSome = true → c.tlsDone = true) (hn : c.recipients.length + 6 < n) :
    Next body recipients n c.beginTransaction.1 log c.beginTransaction.2 := by
  have hmail : Next body recipients n { c with phase := .mail } log (.send c.mailLine) :=
    Settled.mails (h.congr rfl rfl rfl rfl) hasked rfl (Nat.lt_of_succ_lt hn)
  unfold SmtpClient.beginTransaction
  split
  · rename_i user pass hauth
    split
    · exact hmail
    · have hup := h.upgraded (htls (by rw [hauth]; rfl))
      have hs : Settled body recipients { c with phase := .auth } log := h.congr rfl rfl rfl rfl
      refine hs.sends ⟨fun _ => hup, fun b hb => by cases hb⟩ ?_ hn
      exact ⟨hasked, rcptOf_other (head?_word (by decide) (by decide))⟩
  · exact hmail

theorem Settled.greets (h : Settled body recipients c log) (hasked : asked log = []) (hphase : c.phase = .ehlo)
    (hn : c.left ≤ n) : Next body recipients n (c.afterEhlo reply).1 log (c.afterEhlo reply).2 := by
  rw [SmtpClient.left, hphase] at hn
  dsimp only at hn
  have hmore : c.recipients.length + 6 < n := by split at hn <;> omega
  unfold SmtpClient.afterEhlo
  split
  · exact h.fails (hasked ▸ List.nil_prefix) (by omega) _
  · split
    · rename_i hoffer
      simp only [Bool.and_eq_true, Bool.not_eq_true'] at hoffer
      rw [hoffer.1.2] at hn
      have hs : Settled body recipients { c with phase := .startTls } log := h.congr rfl rfl rfl rfl
      exact hs.sends (proper_line (by decide)) ⟨hasked, rcptOf_other (by decide)⟩ hn
    · split
      · exact h.fails (hasked ▸ List.nil_prefix) (by omega) _
      · rename_i hneeds
        refine h.begins hasked (fun hauth => ?_) hmore
        simpa [hauth] using hneeds

theorem Settled.upgrades (h : Settled body recipients c log) (hasked : asked log = []) (hphase : c.phase = .startTls)
    (hn : c.left ≤ n) : Next body recipients n (c.afterStarttls reply).1 log (c.afterStarttls reply).2 := by
  rw [SmtpClient.left, hphase] at hn
  dsimp only at hn
  unfold SmtpClient.afterStarttls
  split
  · have hproper : ∀ l, Proper body log (.upgraded l) := fun l =>
      ⟨fun ha => Bool.noConfusion ha, fun b hb => by cases hb⟩
    refine ⟨⟨⟨h.same, h.accepted, h.rejected, h.all_answered, ?_, h.log_proper⟩, hproper _, ⟨hasked, rfl⟩⟩, hn⟩
    exact fun hd => absurd hd (by simp [SmtpClient.afterUpgrade, Said.isUpgrade])
  · split
    · exact h.fails (hasked ▸ List.nil_prefix) (by omega) _
    · rename_i hauth
      exact h.begins hasked (fun ha => absurd ha hauth) (by omega)

theorem Settled.names (h : Settled body recipients c log) (hasked : asked log = []) (hphase : c.phase = .rcpt)
    (hn : c.recipients.length + 4 < n) :
    Next body recipients n c.sendFirstRcpt.1 log c.sendFirstRcpt.2 := by
  unfold SmtpClient.sendFirstRcpt
  split
  · exact ⟨⟨h.log_proper, hasked ▸ List.nil_prefix⟩, by omega⟩
  · rename_i first more hrecipients
    have hs : Settled body recipients { c with nextRcpt := 1 } log := h.congr rfl rfl rfl rfl
    refine hs.sends (proper_rcpt first) ?_ ?_
    · simp only [Stage, hphase]
      exact ⟨first, by decide, by rw [hrecipients]; rfl, rfl, by rw [hasked]; rfl⟩
    · simp only [SmtpClient.left, hphase]
      omega

/-- Once the answer is recorded, the next recipient is named, or the message is offered. -/
theorem Settled.continues (h : Settled body recipients c log) (hphase : c.phase = .rcpt)
    (hasked : asked log = c.recipients.take c.nextRcpt) (hn : c.left ≤ n) :
    Next body recipients n c.nextRecipient.1 log c.nextRecipient.2 := by
  rw [SmtpClient.left, hphase] at hn
  dsimp only at hn
  unfold SmtpClient.nextRecipient
  split
  · rename_i next hnext
    have hlt : c.nextRcpt < c.recipients.length := (List.getElem?_eq_some_iff.mp hnext).1
    have hs : Settled body recipients { c with nextRcpt := c.nextRcpt + 1 } log := h.congr rfl rfl rfl rfl
    refine hs.sends (proper_rcpt next) ?_ ?_
    · simp only [Stage, hphase]
      exact ⟨next, by omega, hnext, rfl, hasked⟩
    · simp only [SmtpClient.left, hphase]
      omega
  · rename_i hend
    have hall : asked log = c.recipients := by
      rw [hasked, List.take_of_length_le (List.getElem?_eq_none_iff.mp hend)]
    split
    · exact ⟨⟨h.log_proper, by rw [hall, h.same]⟩, by omega⟩
    · rename_i hsome
      have haccepted : c.accepted ≠ [] := fun he => hsome (List.isEmpty_iff.mpr he)
      have hs : Settled body recipients { c with phase := .data } log := h.congr rfl rfl rfl rfl
      refine hs.sends (proper_line (by decide)) ⟨hall, rfl, haccepted⟩ ?_
      show 3 < n
      omega

/-- In a phase before the recipients, what was said is no `RCPT`. -/
theorem Await.heard_early (h : Await body recipients c log said) (reply : Reply)
    (hs : asked log = [] ∧ said.rcpt = none) :
    Settled body recipients { c with lastCode := reply.code } (log ++ [⟨said, some reply⟩]) ∧
      asked (log ++ [⟨said, some reply⟩]) = [] := by
  refine ⟨(h.heard hs.2).congr rfl rfl rfl rfl, ?_⟩
  rw [asked_concat, hs.1, hs.2]
  rfl

/-- The answer to `RCPT` changes nothing but the lists of recipients. -/
theorem Await.heard_rcpt {r : Str} (h : Await body recipients c log (.line (rcptCommand r))) (reply : Reply) :
    Settled body recipients (({ c with lastCode := reply.code }).record r reply)
        (log ++ [⟨.line (rcptCommand r), some reply⟩]) ∧
      (({ c with lastCode := reply.code }).record r reply).phase = c.phase ∧
      (({ c with lastCode := reply.code }).record r reply).recipients = c.recipients ∧
      (({ c with lastCode := reply.code }).record r reply).nextRcpt = c.nextRcpt := by
  have hrecorded := @Await.recorded body recipients c log reply r h
  unfold SmtpClient.record at hrecorded ⊢
  split
  · rename_i hpos
    rw [if_pos hpos] at hrecorded
    exact ⟨hrecorded.congr rfl rfl rfl rfl, rfl, rfl, rfl⟩
  · rename_i hpos
    rw [if_neg hpos] at hrecorded
    exact ⟨hrecorded.congr rfl rfl rfl rfl, rfl, rfl, rfl⟩

/-- In a phase behind the recipients, the record names them all. -/
theorem Await.heard_late (h : Await body recipients c log said) (reply : Reply) (hasked : asked log = c.recipients)
    (hs : said.rcpt = none) :
    Settled body recipients { c with lastCode := reply.code } (log ++ [⟨said, some reply⟩]) ∧
      asked (log ++ [⟨said, some reply⟩]) = c.recipients := by
  refine ⟨(h.heard hs).congr rfl rfl rfl rfl, ?_⟩
  rw [asked_concat, hs, hasked]
  exact List.append_nil _

/-- The message that was accepted completes the conversation. -/
theorem Settled.finishes {before : List Exchange} {accepting : Reply} {last : Exchange}
    (h : Settled body recipients c log) (hasked : asked log = c.recipients)
    (hlog : log = before ++ [⟨.body (frameBody body), some accepting⟩] ++ [last]) (hlast : last.said.rcpt = none)
    (hpos : accepting.isPositive = true) : Complete body recipients log ⟨c.accepted, c.rejected, c.lastCode⟩ := by
  have hanswered : answered before = answered log := by
    rw [hlog, answered_other hlast, answered_other rfl]
  refine ⟨by rw [h.all_answered, hasked, h.same], h.accepted, h.rejected, before, accepting, [last], ?_, hpos, hanswered⟩
  rw [hlog, List.append_assoc]
  rfl

/-- `DATA` was answered: the body follows when the server asks for it. -/
theorem Settled.offers {before : List Exchange} (h : Settled body recipients c log) (hasked : asked log = c.recipients)
    (hlog : log = before ++ [⟨.line "DATA".toList, some reply⟩]) (haccepted : c.accepted ≠ []) (hn : 2 < n) :
    Next body recipients n (c.afterData reply).1 log (c.afterData reply).2 := by
  unfold SmtpClient.afterData
  split
  · rename_i hcode
    have hnext : Settled body recipients { c with phase := .body } log := h.congr rfl rfl rfl rfl
    refine ⟨hnext.await ⟨fun ha => Bool.noConfusion ha, fun b hb => ?_⟩ ⟨hasked, rfl⟩, hn⟩
    cases hb
    exact ⟨rfl, fun he => haccepted (h.accepted.trans he), before, reply, hlog, hcode⟩
  · exact h.fails (by rw [hasked, h.same]) (Nat.zero_lt_of_lt hn) _

theorem next_of_step {p : SmtpClient × ClientAction} (hstep : c.step reply = some p)
    (h : Next body recipients n p.1 log p.2) :
    ∃ c' action, c.step reply = some (c', action) ∧ Next body recipients n c' log action :=
  ⟨p.1, p.2, hstep, h⟩

/-- Every reply is taken, and what the client decides on can follow the record. -/
theorem Await.step (h : Await body recipients c log said) (reply : Reply) (hn : c.left ≤ n) :
    ∃ c' action, c.step reply = some (c', action) ∧
      Next body recipients n c' (log ++ [⟨said, some reply⟩]) action := by
  have hstage := h.stage
  have hleft := hn
  have hsame : c.recipients = recipients := h.settled.same
  unfold Stage at hstage
  unfold SmtpClient.left at hleft
  cases hphase : c.phase with
  | greeting =>
      simp only [hphase] at hstage hleft
      obtain ⟨hs, hasked⟩ := h.heard_early reply hstage
      have hstep : c.step reply = some (({ c with lastCode := reply.code }).expect reply .ehlo fun c =>
          (c, .send c.ehloLine)) := by rw [SmtpClient.step]; simp only [hphase]
      have hpos : 0 < n := by omega
      refine next_of_step hstep (hs.expects (hasked ▸ List.nil_prefix) hpos fun _ => ?_)
      have hnext : Settled body recipients { c with lastCode := reply.code, phase := .ehlo }
          (log ++ [⟨said, some reply⟩]) := hs.congr rfl rfl rfl rfl
      refine hnext.sends (proper_line (head?_word (by decide) (by decide)))
        ⟨hasked, rcptOf_other (head?_word (by decide) (by decide))⟩ ?_
      simp only [SmtpClient.left]
      split <;> omega
  | ehlo =>
      simp only [hphase] at hstage
      obtain ⟨hs, hasked⟩ := h.heard_early reply hstage
      have hstep : c.step reply = some (({ c with lastCode := reply.code }).afterEhlo reply) := by
        rw [SmtpClient.step]; simp only [hphase]
      exact next_of_step hstep (hs.greets hasked hphase hn)
  | startTls =>
      simp only [hphase] at hstage
      obtain ⟨hs, hasked⟩ := h.heard_early reply hstage
      have hstep : c.step reply = some (({ c with lastCode := reply.code }).afterStarttls reply) := by
        rw [SmtpClient.step]; simp only [hphase]
      exact next_of_step hstep (hs.upgrades hasked hphase hn)
  | auth =>
      simp only [hphase] at hstage hleft
      obtain ⟨hs, hasked⟩ := h.heard_early reply hstage
      have hstep : c.step reply = some (({ c with lastCode := reply.code }).expect reply .mail fun c =>
          ({ c with authDone := true }, .send c.mailLine)) := by rw [SmtpClient.step]; simp only [hphase]
      have hpos : 0 < n := by omega
      refine next_of_step hstep (hs.expects (hasked ▸ List.nil_prefix) hpos fun _ => ?_)
      have hnext : Settled body recipients { c with lastCode := reply.code, phase := .mail, authDone := true }
          (log ++ [⟨said, some reply⟩]) := hs.congr rfl rfl rfl rfl
      exact hnext.mails hasked rfl hleft
  | mail =>
      simp only [hphase] at hstage hleft
      obtain ⟨hs, hasked⟩ := h.heard_early reply hstage
      have hstep : c.step reply = some (({ c with lastCode := reply.code }).expect reply .rcpt
          SmtpClient.sendFirstRcpt) := by rw [SmtpClient.step]; simp only [hphase]
      have hpos : 0 < n := by omega
      refine next_of_step hstep (hs.expects (hasked ▸ List.nil_prefix) hpos fun _ => ?_)
      have hnext : Settled body recipients { c with lastCode := reply.code, phase := .rcpt }
          (log ++ [⟨said, some reply⟩]) := hs.congr rfl rfl rfl rfl
      exact hnext.names hasked rfl hleft
  | rcpt =>
      simp only [hphase] at hstage hleft
      obtain ⟨r, hone, hr, rfl, hasked⟩ := hstage
      obtain ⟨hs, hrecord⟩ := h.heard_rcpt reply
      have hstep : c.step reply = some ((({ c with lastCode := reply.code }).record r reply).nextRecipient) := by
        rw [SmtpClient.step]
        simp only [hphase, SmtpClient.afterRcpt, if_neg hone, hr, Option.map_some]
      have hstill := hrecord.1.trans hphase
      refine next_of_step hstep (hs.continues hstill ?_ ?_)
      · have hrcpt : Said.rcpt (.line (rcptCommand r)) = some r := rcptOf_rcptCommand r
        have hnext : c.nextRcpt = c.nextRcpt - 1 + 1 := by omega
        rw [asked_concat, hasked, hrcpt, hrecord.2.1, hrecord.2.2, hnext, List.take_add_one, Nat.add_sub_cancel, hr]
      · simp only [SmtpClient.left, hstill, hrecord.2.1, hrecord.2.2]
        exact hleft
  | data =>
      simp only [hphase] at hstage hleft
      obtain ⟨hasked, rfl, haccepted⟩ := hstage
      obtain ⟨hs, hall⟩ := h.heard_late reply hasked (rcptOf_other (by decide))
      have hstep : c.step reply = some (({ c with lastCode := reply.code }).afterData reply) := by
        rw [SmtpClient.step]; simp only [hphase]
      exact next_of_step hstep (hs.offers hall rfl haccepted hleft)
  | body =>
      simp only [hphase] at hstage hleft
      obtain ⟨hasked, rfl⟩ := hstage
      obtain ⟨hs, hall⟩ := h.heard_late reply hasked rfl
      have hstep : c.step reply = some (({ c with lastCode := reply.code }).expect reply .quit fun c =>
          (c, .send "QUIT".toList)) := by rw [SmtpClient.step]; simp only [hphase]
      have hpos : 0 < n := by omega
      refine next_of_step hstep (hs.expects (by rw [hall, hsame]) hpos fun hpositive => ?_)
      have hnext : Settled body recipients { c with lastCode := reply.code, phase := .quit }
          (log ++ [⟨.body (frameBody body), some reply⟩]) := hs.congr rfl rfl rfl rfl
      exact hnext.sends (proper_line (by decide)) ⟨hall, rfl, log, reply, rfl, hpositive⟩ hleft
  | quit =>
      simp only [hphase] at hstage hleft
      obtain ⟨hasked, rfl, before, accepting, rfl, hpositive⟩ := hstage
      obtain ⟨hs, hall⟩ := h.heard_late reply hasked (rcptOf_other (by decide))
      have hstep : c.step reply = some (({ c with lastCode := reply.code }).afterQuit) := by
        rw [SmtpClient.step]; simp only [hphase]
      refine next_of_step hstep ⟨hs.finishes hall rfl (rcptOf_other (by decide)) hpositive, ⟨hs.log_proper, ?_⟩, hleft⟩
      rw [hall, hsame]
  | done =>
      simp only [hphase] at hstage

end

/-! ## Whole conversations -/

section

variable {σ : Type} {k : Link σ} {body : Bytes} {recipients : List Str}

/-- What holds when a conversation has ended. -/
structure TalkOk (k : Link σ) (body : Bytes) (recipients : List Str) (log : List Exchange) (result : TalkEnd) :
    Prop where
  recorded : Recorded body recipients log
  finished : ∀ d, result = .finished d → Complete body recipients log d
  ends : result ≠ .unfinished
  panics : result = .panicked → ∃ link, k.read link = none

/-- What holds between two turns. -/
def TurnOk (k : Link σ) (body : Bytes) (recipients : List Str) (n : Nat) : Turn σ → Prop
  | .ended log result => TalkOk k body recipients log result
  | .next t action => Next body recipients n t.client t.log action

theorem talkOk_failed {log : List Exchange} (h : Recorded body recipients log) (e : ClientError) :
    TalkOk k body recipients log (.failed e) :=
  ⟨h, fun _ hd => (nomatch hd), fun hd => (nomatch hd), fun hd => (nomatch hd)⟩

theorem Await.recorded_end {c : SmtpClient} {log : List Exchange} {said : Said} (h : Await body recipients c log said)
    (answer : Option Reply) : Recorded body recipients (log ++ [⟨said, answer⟩]) := by
  refine ⟨h.settled.log_proper.concat h.proper, ?_⟩
  have hsame : c.recipients = recipients := h.settled.same
  have hstage := h.stage
  have hlate : asked log = c.recipients → said.rcpt = none → asked log ++ said.rcpt.toList <+: c.recipients := by
    intro hasked hnone
    rw [hasked, hnone, Option.toList_none, List.append_nil]
  rw [asked_concat, ← hsame]
  unfold Stage at hstage
  cases hphase : c.phase with
  | rcpt =>
      simp only [hphase] at hstage
      obtain ⟨r, hone, hr, rfl, hasked⟩ := hstage
      have hrcpt : Said.rcpt (.line (rcptCommand r)) = some r := rcptOf_rcptCommand r
      have htake : c.recipients.take (c.nextRcpt - 1) ++ [r] = c.recipients.take (c.nextRcpt - 1 + 1) := by
        rw [List.take_add_one, hr]
        rfl
      rw [hasked, hrcpt]
      exact htake ▸ List.take_prefix _ _
  | data =>
      simp only [hphase] at hstage
      obtain ⟨hasked, rfl, -⟩ := hstage
      exact hlate hasked (rcptOf_other (by decide))
  | body =>
      simp only [hphase] at hstage
      obtain ⟨hasked, rfl⟩ := hstage
      exact hlate hasked rfl
  | quit =>
      simp only [hphase] at hstage
      obtain ⟨hasked, rfl, -⟩ := hstage
      exact hlate hasked (rcptOf_other (by decide))
  | done => simp only [hphase] at hstage
  | greeting | ehlo | startTls | auth | mail =>
      simp only [hphase] at hstage
      rw [hstage.1, hstage.2]
      exact List.nil_prefix

theorem Await.recorded_log {c : SmtpClient} {log : List Exchange} {said : Said} (h : Await body recipients c log said) :
    Recorded body recipients log := by
  have hend := (h.recorded_end none).in_order
  rw [asked_concat] at hend
  exact ⟨h.settled.log_proper, (List.prefix_append _ _).trans hend⟩

theorem Await.hear {t : Talk σ} {said : Said} {n : Nat} (h : Await body recipients t.client t.log said)
    (hn : t.client.left ≤ n) : TurnOk k body recipients n (t.hear k said) := by
  unfold Talk.hear
  split
  · rename_i hread
    exact ⟨h.recorded_end none, fun d hd => (nomatch hd), fun hd => (nomatch hd), fun _ => ⟨_, hread⟩⟩
  · exact talkOk_failed (h.recorded_end none) _
  · rename_i reply link _
    obtain ⟨c', action, hstep, hnext⟩ := h.step reply hn
    rw [hstep]
    exact hnext

theorem Await.say {c : SmtpClient} {log : List Exchange} {said : Said} {n : Nat} (h : Await body recipients c log said)
    (hn : c.left ≤ n) (link : σ) (bytes : Bytes) :
    TurnOk k body recipients n (Talk.say k ⟨c, link, log⟩ said bytes) := by
  unfold Talk.say
  split
  · exact talkOk_failed (h.recorded_end none) _
  · rename_i link' _
    have hsame : Await body recipients (Talk.mk c link' log).client (Talk.mk c link' log).log said := h
    exact hsame.hear hn

theorem turnOk_act {t : Talk σ} {action : ClientAction} {n : Nat}
    (h : Next body recipients (n + 1) t.client t.log action) : TurnOk k body recipients n (t.act k body action) := by
  cases action with
  | send line => exact h.1.say (Nat.le_of_lt_succ h.2) t.link _
  | sendBody => exact h.1.say (Nat.le_of_lt_succ h.2) t.link _
  | startTls =>
      simp only [Talk.act]
      split
      · exact talkOk_failed h.1.recorded_log _
      · exact h.1.say (Nat.le_of_lt_succ h.2) _ _
  | finished d =>
      refine ⟨h.2.1, fun d' hd => ?_, fun hd => (nomatch hd), fun hd => (nomatch hd)⟩
      cases hd
      exact h.1
  | failed reason => exact talkOk_failed h.1 _

/-- The loop ends, and what it leaves is in order. -/
theorem talkOk_loop {n : Nat} {turn : Turn σ} (h : TurnOk k body recipients n turn) :
    TalkOk k body recipients (Talk.loop k body n turn).1 (Talk.loop k body n turn).2 := by
  induction n generalizing turn with
  | zero =>
      cases turn with
      | ended log result => exact h
      | next t action =>
          cases action with
          | send line => exact absurd h.2 (Nat.not_lt_zero _)
          | sendBody => exact absurd h.2 (Nat.not_lt_zero _)
          | startTls => exact absurd h.2 (Nat.not_lt_zero _)
          | finished d => exact absurd h.2.2 (Nat.lt_irrefl _)
          | failed reason => exact absurd h.2 (Nat.lt_irrefl _)
  | succ n ih =>
      cases turn with
      | ended log result => exact h
      | next t action => exact ih (turnOk_act h)

/-- A client that has not started. -/
structure SmtpClient.Fresh (c : SmtpClient) : Prop where
  phase : c.phase = .greeting
  tlsDone : c.tlsDone = false
  accepted : c.accepted = []
  rejected : c.rejected = []

/-- Every conversation of a new client ends, and what it leaves is in order. -/
theorem talkOk_talk (k : Link σ) {c : SmtpClient} (body : Bytes) (link : σ) (hnew : c.Fresh) :
    TalkOk k body c.recipients (talk k c body link).1 (talk k c body link).2 := by
  have hproper : Proper body [] .connected := ⟨fun ha => Bool.noConfusion ha, fun b hb => (nomatch hb)⟩
  have hsettled : Settled body c.recipients c [] :=
    ⟨rfl, hnew.accepted, hnew.rejected, rfl, fun hd => by simp [hnew.tlsDone] at hd, allProper_nil body⟩
  have hstage : Stage body c [] .connected := by
    rw [Stage, hnew.phase]
    exact ⟨rfl, rfl⟩
  have hawait : Await body c.recipients (Talk.mk c link []).client (Talk.mk c link []).log .connected :=
    hsettled.await hproper hstage
  refine talkOk_loop (hawait.hear ?_)
  simp only [SmtpClient.left, hnew.phase, SmtpClient.turns]
  omega

end

end Selfhost.Mail
