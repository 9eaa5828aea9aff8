import Selfhost.Mail.Lemmas.Receive

/-!
# What was stored and what was said

The session records a recipient before the receiver refuses or defers it, and a delivery that fails does not
take back what it already wrote. `delivery_matches_replies` says that this is all that can go wrong: as long as
no message meets one of these cases, a message is in exactly the mailboxes of the recipients that were
accepted, once, and only when the client was told so.
-/

namespace Selfhost.Mail

open Selfhost.Lib

/-- The recipients of the transaction whose `RCPT` the client saw answered with 250. -/
def acceptedRecipients (history : List Event) : List Address := (fresh history).filterMap Event.recipient

/-- Whether the client was told that the message is accepted. -/
def Outcome.accepted (o : Outcome) : Prop := ∃ reply, o.reply = some reply ∧ reply.code = 250

/-- What is stored is what the replies say. -/
structure DeliveryOk (t : Tables) (d : Delivery) : Prop where
  stored_iff : d.outcome.delivered ≠ [] ↔ d.outcome.accepted
  once : d.outcome.accepted → d.outcome.delivered.Nodup
  recipients : d.outcome.accepted → ∀ m, m ∈ d.outcome.delivered ↔
    ∃ a ∈ acceptedRecipients d.history, owner t a = some m

/-- The messages that are stored as the replies say: every mailbox that a recorded recipient has is the mailbox
of a recipient that was accepted, no two recipients reach one mailbox under different spellings, and if the
first mailbox can be written then all can. -/
def Faithful (r : Receiver) (c : Inbound) (t : InboundTurn) : Prop :=
  ∀ s reply body rest, c.session.command (readCommandLine c.input).1 = some (s, .readData reply) →
    readData r.policy.maxMessageBytes .start (readCommandLine c.input).2.2 = (.terminated body false, rest) →
    body ≠ [] →
    (∀ a ∈ s.recipients, ∀ m, owner r.tables a = some m →
      ∃ b ∈ acceptedRecipients c.log, owner r.tables b = some m) ∧
    (∀ a ∈ s.recipients, ∀ b ∈ s.recipients, ∀ m, owner r.tables a = some m → owner r.tables b = some m →
      r.tables.resolve a = r.tables.resolve b) ∧
    ∀ first more, targets r.tables [] s.recipients = first :: more →
      (∀ m, r.tables.resolve first = some m → t.writes m = true) →
      ∀ x ∈ more, ∀ m, r.tables.resolve x = some m → t.writes m = true

/-! ## The recipients of the session -/

/-- Every recipient that was accepted is recorded, and none was before the transaction. -/
structure Tracked (log : List Event) (s : Session) : Prop where
  recorded : s.state.inTransaction = true → ∀ a ∈ acceptedRecipients log, ∃ b ∈ s.recipients, b.isMatch a = true
  idle : s.state = .greeted ∨ s.state = .ready → acceptedRecipients log = []

theorem acceptedRecipients_concat {log : List Event} {e : Event} (h : e.isReset = false) :
    acceptedRecipients (log ++ [e]) = acceptedRecipients log ++ e.recipient.toList := by
  rw [acceptedRecipients, acceptedRecipients, fresh_concat h, List.filterMap_append]
  cases hr : e.recipient with
  | none => rw [List.filterMap_cons_none hr, List.filterMap_nil, Option.toList_none]
  | some a => rw [List.filterMap_cons_some hr, List.filterMap_nil, Option.toList_some]

theorem Tracked.reset {log : List Event} {s : Session} {e : Event} (he : e.isReset = true) :
    Tracked (log ++ [e]) s := by
  have hnone : acceptedRecipients (log ++ [e]) = [] := by rw [acceptedRecipients, fresh_reset he]; rfl
  refine ⟨fun _ a ha => ?_, fun _ => hnone⟩
  rw [hnone] at ha
  cases ha

/-- An event that teaches nothing, with a session that keeps its recipients. -/
theorem Tracked.plain {log : List Event} {s s' : Session} {e : Event} (h : Tracked log s)
    (hreset : e.isReset = false) (hr : e.recipient = none) (hrecipients : s'.recipients = s.recipients)
    (hin : s'.state.inTransaction = true → s.state.inTransaction = true)
    (hidle : s'.state = .greeted ∨ s'.state = .ready → s.state = .greeted ∨ s.state = .ready) :
    Tracked (log ++ [e]) s' := by
  have hsame : acceptedRecipients (log ++ [e]) = acceptedRecipients log := by
    rw [acceptedRecipients_concat hreset, hr]
    exact List.append_nil _
  refine ⟨fun hs' => ?_, fun hs' => ?_⟩
  · rw [hsame, hrecipients]
    exact h.recorded (hin hs')
  · rw [hsame]
    exact h.idle (hidle hs')

/-- One command, logged with the reply that the client saw: the session's own, or a refusal. -/
theorem Tracked.effect {log : List Event} {s s' : Session} {e e' : Event} (h : Tracked log s)
    (heffect : Effect s e s') (he : e' = e ∨ (Plain e' ∧ e.sender = none ∧ e.isReset = false)) :
    Tracked (log ++ [e']) s' := by
  cases heffect with
  | unchanged hplain =>
      rcases he with rfl | ⟨hplain', -, -⟩
      · exact h.plain hplain.isReset hplain.recipient rfl id id
      · exact h.plain hplain'.isReset hplain'.recipient rfl id id
  | greet hs hr hg hreset =>
      rcases he with rfl | ⟨-, -, hno⟩
      · exact .reset hreset
      · rw [hno] at hreset
        cases hreset
  | rset hs hr hg hreset =>
      rcases he with rfl | ⟨-, -, hno⟩
      · exact .reset hreset
      · rw [hno] at hreset
        cases hreset
  | mail hstate hhelo hs hr hg hreset =>
      rcases he with rfl | ⟨-, hno, -⟩
      · refine ⟨fun _ a ha => ?_, fun hs' => ?_⟩
        · rw [acceptedRecipients_concat hreset, hr, h.idle hstate] at ha
          cases ha
        · rcases hs' with hs' | hs' <;> cases hs'
      · rw [hno] at hs
        cases hs
  | @known address hstate hknown hs hr hg hreset =>
      have hin : s.state.inTransaction = true := by
        rcases hstate with hstate | hstate <;> rw [hstate] <;> rfl
      rcases he with rfl | ⟨hplain', -, -⟩
      · refine ⟨fun _ a ha => ?_, fun hs' => ?_⟩
        · rw [acceptedRecipients_concat hreset, hr] at ha
          rcases List.mem_append.mp ha with ha | ha
          · exact h.recorded hin a ha
          · rw [List.mem_singleton.mp ha]
            exact hknown
        · rcases hstate with hstate | hstate <;> rw [hstate] at hs' <;> rcases hs' with hs' | hs' <;> cases hs'
      · exact h.plain hplain'.isReset hplain'.recipient rfl id id
  | @rcpt address hstate hroom hrelay hnew hs hr hg hreset =>
      have hin : s.state.inTransaction = true := by
        rcases hstate with hstate | hstate <;> rw [hstate] <;> rfl
      have hmem : ∀ a ∈ acceptedRecipients log, ∃ b ∈ s.recipients ++ [address], b.isMatch a = true := by
        intro a ha
        obtain ⟨b, hb, hmatch⟩ := h.recorded hin a ha
        exact ⟨b, List.mem_append_left _ hb, hmatch⟩
      refine ⟨fun _ a ha => ?_, fun hs' => ?_⟩
      · rcases he with rfl | ⟨hplain', -, -⟩
        · rw [acceptedRecipients_concat hreset, hr] at ha
          rcases List.mem_append.mp ha with ha | ha
          · exact hmem a ha
          · rw [List.mem_singleton.mp ha]
            exact ⟨address, List.mem_append_right _ List.mem_cons_self, address.isMatch_refl⟩
        · rw [acceptedRecipients_concat hplain'.isReset, hplain'.recipient] at ha
          exact hmem a (by simpa using ha)
      · rcases hs' with hs' | hs' <;> cases hs'
  | data hstate hplain =>
      have hin : s.state.inTransaction = true := by rw [hstate]; rfl
      have hidle : State.readingData = .greeted ∨ State.readingData = .ready → s.state = .greeted ∨ s.state = .ready :=
        fun hs' => by rcases hs' with hs' | hs' <;> cases hs'
      rcases he with rfl | ⟨hplain', -, -⟩
      · exact h.plain hplain.isReset hplain.recipient rfl (fun _ => hin) hidle
      · exact h.plain hplain'.isReset hplain'.recipient rfl (fun _ => hin) hidle
  | quit hplain =>
      refine ⟨fun hs' => ?_, fun hs' => ?_⟩
      · cases hs'
      · rcases hs' with hs' | hs' <;> cases hs'

/-! ## One turn -/

/-- A refined reply is the session's own, or a refusal of a `RCPT` that the session accepted. -/
theorem refineRcpt_cases {r : Receiver} {line : Str} {reply reply' : Reply} {s : Session}
    {g g' : Option Greylist} {now : Nat} {peer : IpAddr}
    (h : refineRcpt r line reply s g now peer = some (reply', g')) :
    reply' = reply ∨ (isRcpt line = true ∧ reply'.code ≠ 250) := by
  unfold refineRcpt at h
  split at h
  · cases h
    exact Or.inl rfl
  · rename_i hcheck
    simp only [not_or, Bool.not_eq_true', Bool.not_eq_false] at hcheck
    obtain ⟨address, -, h⟩ := Option.map_eq_some_iff.mp h
    cases address with
    | none =>
        cases h
        exact Or.inl rfl
    | some address =>
        dsimp only at h
        split at h
        · cases h
          exact Or.inr ⟨hcheck.2, by decide⟩
        · split at h
          · cases h
            exact Or.inl rfl
          · split at h
            · cases h
              exact Or.inr ⟨hcheck.2, by decide⟩
            · cases h
              exact Or.inl rfl

/-- From a line that is no other accepted command, neither a sender nor a reset is learned. -/
theorem unlearned_of_verb {line : Str} {action : Action} (h : (splitCommand line).1.acceptsOther = false) :
    (Event.command line action).sender = none ∧ (Event.command line action).isReset = false := by
  have hnone : ∀ v : Verb, v.acceptsOther = true → (Event.command line action).acceptedRest v = none := by
    intro v hv
    rw [Event.acceptedRest, if_neg]
    rintro ⟨-, rfl⟩
    rw [h] at hv
    cases hv
  constructor
  · rw [Event.sender, hnone .mail rfl]
    rfl
  · simp only [Event.isReset, Event.greeting, hnone .ehlo rfl, hnone .helo rfl, hnone .rset rfl]
    rfl

theorem unlearned_of_refused {line : Str} {action : Action} (h : action.accepts = false) :
    (Event.command line action).sender = none ∧ (Event.command line action).isReset = false :=
  ⟨(plain_of_refused h).sender, (plain_of_refused h).isReset⟩

theorem plain_reply {line : Str} {reply : Reply} (h : reply.code ≠ 250) :
    Plain (.command line (.reply reply)) :=
  plain_of_refused (by simpa [Action.accepts] using h)

/-- The recipients that the reading of a message leaves to be delivered to. -/
theorem finishData_recipients {s s' : Session} {e : Envelope} (h : s.finishData = (s', some e)) :
    e.recipients = s.recipients := by
  unfold Session.finishData at h
  split at h
  · cases h
  · split at h
    · cases h
    · cases h
      rfl

theorem not_accepted_refused {code : Nat} {text : String} (h : code ≠ 250) :
    ¬ (Outcome.refused code text).accepted := by
  rintro ⟨reply, hreply, hcode⟩
  cases hreply
  exact h hcode

/-- A message that was refused without a delivery. -/
theorem deliveryOk_refused {t : Tables} {history : List Event} {o : Outcome} (hnone : o.delivered = [])
    (hrefused : ¬ o.accepted) : DeliveryOk t ⟨history, o⟩ :=
  ⟨⟨fun h => absurd hnone h, fun h => absurd h hrefused⟩, fun h => absurd h hrefused, fun h => absurd h hrefused⟩

/-- A message that was stored. -/
theorem deliveryOk_store {r : Receiver} {e : Envelope} {body : Bytes} {peer : IpAddr} {date : Str}
    {writes : Address → Bool} {history : List Event}
    (hrecorded : ∀ a ∈ acceptedRecipients history, ∃ b ∈ e.recipients, b.isMatch a = true)
    (haccepted : ∀ a ∈ e.recipients, ∀ m, owner r.tables a = some m →
      ∃ b ∈ acceptedRecipients history, owner r.tables b = some m)
    (hspelling : ∀ a ∈ e.recipients, ∀ b ∈ e.recipients, ∀ m, owner r.tables a = some m →
      owner r.tables b = some m → r.tables.resolve a = r.tables.resolve b)
    (hwrites : ∀ first more, targets r.tables [] e.recipients = first :: more →
      (∀ m, r.tables.resolve first = some m → writes m = true) →
      ∀ x ∈ more, ∀ m, r.tables.resolve x = some m → writes m = true) :
    DeliveryOk r.tables ⟨history, store r e body peer date writes⟩ := by
  have hfound : ∀ x ∈ targets r.tables [] e.recipients, ∃ a ∈ e.recipients, ∃ m,
      r.tables.resolve a = some x ∧ r.tables.resolve x = some m ∧ owner r.tables a = some m := by
    intro x hx
    rcases mem_targets.mp hx with hx | ⟨a, ha, hr⟩
    · cases hx
    · obtain ⟨m, hm⟩ := Tables.exists_resolve_of_resolve hr
      exact ⟨a, ha, m, hr, hm, by rw [owner, hr]; exact hm⟩
  unfold store
  cases Message.parse body with
  | none => exact deliveryOk_refused rfl (by rintro ⟨reply, hreply, -⟩; cases hreply)
  | some message =>
      dsimp only
      cases htargets : targets r.tables [] e.recipients with
      | nil => exact deliveryOk_refused rfl (by rintro ⟨reply, hreply, hcode⟩; cases hreply; cases hcode)
      | cons first more =>
          rw [htargets] at hfound
          obtain ⟨a₀, -, m₀, -, hm₀, -⟩ := hfound first List.mem_cons_self
          by_cases hfirst : writes m₀ = true
          · -- Every mailbox is written.
            have hall : (deliverAll r.tables writes (first :: more)).2 = true := by
              refine deliverAll_all (fun x hx => ?_) fun x hx m hm => ?_
              · obtain ⟨-, -, m, -, hm, -⟩ := hfound x hx
                exact ⟨m, hm⟩
              · have hwrite : ∀ m, r.tables.resolve first = some m → writes m = true := by
                  intro m' hm'
                  rw [hm₀] at hm'
                  cases hm'
                  exact hfirst
                rcases List.mem_cons.mp hx with rfl | hx
                · exact hwrite m hm
                · exact hwrites first more htargets hwrite x hx m hm
            have hmem : ∀ m, m ∈ (deliverAll r.tables writes (first :: more)).1 ↔
                ∃ a ∈ acceptedRecipients history, owner r.tables a = some m := by
              intro m
              rw [mem_deliverAll hall]
              constructor
              · rintro ⟨x, hx, hm⟩
                obtain ⟨a, ha, m', -, hm', howner⟩ := hfound x hx
                rw [hm] at hm'
                cases hm'
                exact haccepted a ha m howner
              · rintro ⟨a, ha, howner⟩
                obtain ⟨b, hb, hmatch⟩ := hrecorded a ha
                rw [← owner_congr hmatch] at howner
                obtain ⟨x, hx, hm⟩ := Option.bind_eq_some_iff.mp howner
                refine ⟨x, ?_, hm⟩
                rw [← htargets]
                exact mem_targets.mpr (Or.inr ⟨b, hb, hx⟩)
            have hne : (deliverAll r.tables writes (first :: more)).1 ≠ [] :=
              List.ne_nil_of_mem ((mem_deliverAll hall).mpr ⟨first, List.mem_cons_self, hm₀⟩)
            simp only [hall, Bool.not_true, Bool.false_eq_true, if_false, hne]
            refine ⟨⟨fun _ => ⟨_, rfl, rfl⟩, fun _ => hne⟩, fun _ => ?_, fun _ => hmem⟩
            refine nodup_deliverAll (htargets ▸ nodup_targets List.nodup_nil) ?_ hall
            intro x hx y hy m hxm hym
            obtain ⟨a, ha, m₁, hax, hm₁, ho₁⟩ := hfound x hx
            obtain ⟨b, hb, m₂, hby, hm₂, ho₂⟩ := hfound y hy
            rw [hxm] at hm₁
            rw [hym] at hm₂
            cases hm₁
            cases hm₂
            have hsame := hspelling a ha b hb m ho₁ ho₂
            rw [hax, hby] at hsame
            exact Option.some.inj hsame
          · rw [deliverAll_first hm₀ (Bool.eq_false_iff.mpr hfirst)]
            exact deliveryOk_refused rfl (by rintro ⟨reply, hreply, hcode⟩; cases hreply; cases hcode)

theorem tracked_finish {log : List Event} {s : Session} (h : Tracked log s) :
    Tracked (log ++ [.finishData s.finishData.2]) s.finishData.1 := by
  unfold Session.finishData
  split
  · exact h.plain rfl rfl rfl id id
  · split
    · exact h.plain rfl rfl rfl id id
    · exact .reset rfl

/-- What holds of a connection between two turns. -/
structure Inbound.Ok (t : Tables) (c : Inbound) : Prop where
  tracked : Tracked c.log c.session
  deliveries : ∀ d ∈ c.deliveries, DeliveryOk t d

theorem Inbound.Ok.say {t : Tables} {c : Inbound} {s' : Session} {rest : Bytes} {line : Str} {e : Event}
    {reply : Reply} (h : c.Ok t) (heffect : Effect c.session e s')
    (he : Event.command line (.reply reply) = e ∨
      (Plain (.command line (.reply reply)) ∧ e.sender = none ∧ e.isReset = false)) :
    (c.say s' rest line reply).Ok t :=
  ⟨h.tracked.effect heffect he, h.deliveries⟩

/-- The content of a message, read and stored. -/
theorem deliveryOk_readAndStore {r : Receiver} {peer : IpAddr} {c : Inbound} {t : InboundTurn} {s : Session}
    {reply : Reply} (hf : Faithful r c t)
    (hcommand : c.session.command (readCommandLine c.input).1 = some (s, .readData reply))
    (htracked : Tracked (c.log ++ [.command (readCommandLine c.input).1 (.readData reply)]) s)
    (hstate : s.state.inTransaction = true) :
    DeliveryOk r.tables ⟨c.log ++ [.command (readCommandLine c.input).1 (.readData reply)],
      (readAndStore r s (readCommandLine c.input).2.2 peer t.date t.writes).1⟩ := by
  have hhistory : acceptedRecipients (c.log ++ [.command (readCommandLine c.input).1 (.readData reply)]) =
      acceptedRecipients c.log := by
    have hplain := @plain_of_refused (readCommandLine c.input).1 (.readData reply) rfl
    rw [acceptedRecipients_concat hplain.isReset, hplain.recipient]
    exact List.append_nil _
  unfold readAndStore
  cases hread : readData r.policy.maxMessageBytes .start (readCommandLine c.input).2.2 with
  | mk dataEnd rest =>
      cases hfinish : s.finishData with
      | mk s' envelope =>
          dsimp only
          cases dataEnd with
          | closed => exact deliveryOk_refused rfl (not_accepted_refused (by decide))
          | tooLarge => exact deliveryOk_refused rfl (not_accepted_refused (by decide))
          | terminated body oversize =>
              cases envelope with
              | none => exact deliveryOk_refused rfl (not_accepted_refused (by decide))
              | some e =>
                  dsimp only
                  cases oversize with
                  | true => exact deliveryOk_refused rfl (not_accepted_refused (by decide))
                  | false =>
                      have hrecipients := finishData_recipients hfinish
                      by_cases hbody : body = []
                      · subst hbody
                        exact deliveryOk_refused rfl (by rintro ⟨reply, hreply, -⟩; cases hreply)
                      · obtain ⟨haccepted, hspelling, hwrites⟩ := hf s reply body rest hcommand hread hbody
                        rw [← hrecipients] at haccepted hspelling hwrites
                        refine deliveryOk_store ?_ ?_ hspelling hwrites
                        · rw [hrecipients]
                          exact htracked.recorded hstate
                        · rw [hhistory]
                          exact haccepted

theorem Inbound.Ok.turn {r : Receiver} {peer : IpAddr} {c c' : Inbound} {t : InboundTurn} (h : c.Ok r.tables)
    (hf : Faithful r c t) (hturn : c.turn r peer t = some c') : c'.Ok r.tables := by
  unfold Inbound.turn at hturn
  split at hturn
  · cases hturn
  · dsimp only at hturn
    split at hturn
    · cases hturn
      exact ⟨h.tracked, h.deliveries⟩
    · obtain ⟨⟨s, action⟩, hcommand, hact⟩ := Option.bind_eq_some_iff.mp hturn
      have heffect := command_effect hcommand
      cases action with
      | reply reply =>
          obtain ⟨⟨reply', g⟩, hrefine, rfl⟩ := Option.map_eq_some_iff.mp hact
          refine h.say heffect ?_
          rcases refineRcpt_cases hrefine with rfl | ⟨hrcpt, hcode⟩
          · exact Or.inl rfl
          · exact Or.inr ⟨plain_reply hcode, unlearned_of_verb (acceptsOther_of_isRcpt hrcpt)⟩
      | readData reply =>
          cases hact
          have htracked := h.tracked.effect heffect (Or.inl rfl)
          have hstate : s.state.inTransaction = true := by rw [command_readData hcommand]; rfl
          refine ⟨?_, ?_⟩
          · exact tracked_finish htracked
          · intro d hd
            rcases List.mem_append.mp hd with hd | hd
            · exact h.deliveries d hd
            · rw [List.mem_singleton.mp hd]
              exact deliveryOk_readAndStore hf hcommand htracked hstate
      | close reply =>
          cases hact
          exact ⟨h.tracked.effect heffect (Or.inl rfl), h.deliveries⟩
      | startTls reply =>
          have hrefused := @unlearned_of_refused (readCommandLine c.input).1 (.startTls reply) rfl
          simp only [Inbound.act] at hact
          split at hact
          · cases hact
            exact h.say heffect (Or.inr ⟨plain_reply (by decide), hrefused⟩)
          · split at hact
            · cases hact
              exact ⟨h.tracked.effect heffect (Or.inr ⟨plain_reply (by decide), hrefused⟩), h.deliveries⟩
            · cases hact
              refine ⟨?_, h.deliveries⟩
              have hlog : c.log ++ [.command (readCommandLine c.input).1 (.startTls reply), .tlsEstablished] =
                  (c.log ++ [.command (readCommandLine c.input).1 (.startTls reply)]) ++ [.tlsEstablished] := by simp
              rw [hlog]
              exact .reset rfl
      | verifyCredentials mechanism response =>
          cases hact
          exact h.say heffect (Or.inr ⟨plain_reply (by decide), unlearned_of_refused rfl⟩)
      | awaitCredentials mechanism reply =>
          cases hact
          exact h.say heffect (Or.inr ⟨plain_reply (by decide), unlearned_of_refused rfl⟩)

/-- In every conversation whose messages all meet the condition, what is stored is what the replies say. -/
theorem delivery_matches_replies {r : Receiver} {peer : IpAddr} {input : Bytes} {turns : List InboundTurn}
    {c : Inbound} (hrun : Run (Inbound.turn r peer) (Faithful r) (.new r.policy input) turns c) :
    ∀ d ∈ c.deliveries, DeliveryOk r.tables d := by
  have hok : c.Ok r.tables := by
    refine hrun.invariant (fun c t c' hc hf hturn => hc.turn hf hturn) ⟨⟨?_, fun _ => rfl⟩, ?_⟩
    · exact fun hin => nomatch hin
    · exact fun d hd => nomatch hd
  exact hok.deliveries

/-! ## A message to one user -/

def sampleReceiver : Receiver := ⟨samplePolicy, ⟨[sampleUser], [], rfl⟩, true⟩

def samplePeer : IpAddr := .v4 192 0 2 1

def sampleContent : Bytes := [0x68, 0x69, cr, lf, dot, cr, lf]

def sampleInput : Bytes := utf8 (ehloLine ++ mailLine ++ rcptLine ++ dataLine) ++ sampleContent

/-- A turn at which every mailbox can be written. -/
def plainTurn : InboundTurn := ⟨none, 0, [], fun _ => true, none⟩

/-- A turn at which no attempt was seen before. -/
def greyTurn : InboundTurn := ⟨some ⟨300, []⟩, 0, [], fun _ => true, none⟩

/-- The connection after the lines before `DATA`, when `RCPT` was answered with this reply. -/
def beforeData (rcptReply : Reply) : Inbound :=
  ⟨true, utf8 dataLine ++ sampleContent, afterRcpt,
    [.command ehloLine (.reply ehloReply), .command mailLine (.reply (.line 250 "sender OK")),
      .command rcptLine (.reply rcptReply)], []⟩

/-- The connection after the message. -/
def afterContent (rcptReply : Reply) : Inbound :=
  let history := (beforeData rcptReply).log ++ [.command dataLine (.readData dataReply)]
  ⟨true, [], afterEhlo, history ++ [.finishData (some ⟨.null, [sampleUser], "c".toList⟩)],
    [⟨history, ⟨some (.line 250 "message accepted for delivery"), [sampleUser],
      (Message.parse (sampleContent.take 4)).map fun m => m.withPrependedHeader "Received".toList
        (receivedHeader samplePolicy "c".toList samplePeer [])⟩⟩]⟩

theorem accepted_before_data :
    acceptedRecipients (beforeData (.line 250 "recipient OK")).log = [sampleUser] ∧
      acceptedRecipients (beforeData (.line 451 "greylisted: please retry shortly")).log = [] := by
  decide +kernel

/-- A turn on a line that does not start the content of a message. -/
theorem faithful_of_command {r : Receiver} {c : Inbound} {t : InboundTurn} {s : Session} {reply : Reply}
    (h : c.session.command (readCommandLine c.input).1 = some (s, .reply reply)) : Faithful r c t := by
  intro s' reply' body rest hcommand
  rw [h] at hcommand
  cases hcommand

theorem faithful_data :
    Faithful sampleReceiver (beforeData (.line 250 "recipient OK")) plainTurn := by
  intro s reply body rest hcommand _ _
  have hdata : (beforeData (.line 250 "recipient OK")).session.command
      (readCommandLine (beforeData (.line 250 "recipient OK")).input).1 = some (afterData, .readData dataReply) := by
    decide +kernel
  rw [hdata] at hcommand
  cases hcommand
  have hrecipients : afterData.recipients = [sampleUser] := rfl
  have htargets : targets sampleReceiver.tables [] [sampleUser] = [sampleUser] := by decide +kernel
  rw [hrecipients, accepted_before_data.1]
  refine ⟨fun a ha m hm => ⟨a, ha, hm⟩, fun a ha b hb m _ _ => ?_, fun first more hmore _ x hx => ?_⟩
  · rw [List.mem_singleton.mp ha, List.mem_singleton.mp hb]
  · rw [htargets] at hmore
    cases hmore
    cases hx

theorem delivery_matches_replies_letter :
    (afterContent (.line 250 "recipient OK")).deliveries.length = 1 ∧
      ∀ d ∈ (afterContent (.line 250 "recipient OK")).deliveries, DeliveryOk sampleReceiver.tables d := by
  have hehlo : Faithful sampleReceiver (.new samplePolicy sampleInput) plainTurn :=
    @faithful_of_command _ _ _ afterEhlo ehloReply (by decide +kernel)
  have hmail : Faithful sampleReceiver
      ⟨true, utf8 (mailLine ++ rcptLine ++ dataLine) ++ sampleContent, afterEhlo,
        [.command ehloLine (.reply ehloReply)], []⟩ plainTurn :=
    @faithful_of_command _ _ _ afterMail (.line 250 "sender OK") (by decide +kernel)
  have hrcpt : Faithful sampleReceiver
      ⟨true, utf8 (rcptLine ++ dataLine) ++ sampleContent, afterMail,
        [.command ehloLine (.reply ehloReply), .command mailLine (.reply (.line 250 "sender OK"))], []⟩ plainTurn :=
    @faithful_of_command _ _ _ afterRcpt (.line 250 "recipient OK") (by decide +kernel)
  have hrun : Run (Inbound.turn sampleReceiver samplePeer) (Faithful sampleReceiver) (.new samplePolicy sampleInput)
      [plainTurn, plainTurn, plainTurn, plainTurn] (afterContent (.line 250 "recipient OK")) :=
    .cons hehlo (by decide +kernel) (.cons hmail (by decide +kernel) (.cons hrcpt (by decide +kernel)
      (.cons faithful_data (by decide +kernel) .nil)))
  exact ⟨rfl, delivery_matches_replies hrun⟩

/-- A recipient that was told to come back later receives the message. -/
theorem deferred_recipient_receives :
    ∃ c d, Run (Inbound.turn sampleReceiver samplePeer) (fun _ _ => True) (.new samplePolicy sampleInput)
        [greyTurn, greyTurn, greyTurn, greyTurn] c ∧ d ∈ c.deliveries ∧
      .command rcptLine (.reply (.line 451 "greylisted: please retry shortly")) ∈ d.history ∧
      d.outcome.delivered = [sampleUser] ∧ ¬ DeliveryOk sampleReceiver.tables d := by
  have hsender : Run (Inbound.turn sampleReceiver samplePeer) (fun _ _ => True) (.new samplePolicy sampleInput)
      [greyTurn, greyTurn] ⟨true, utf8 (rcptLine ++ dataLine) ++ sampleContent, afterMail,
        [.command ehloLine (.reply ehloReply), .command mailLine (.reply (.line 250 "sender OK"))], []⟩ :=
    Run.of_exec (by decide +kernel)
  have hdeferred : Run (Inbound.turn sampleReceiver samplePeer) (fun _ _ => True)
      ⟨true, utf8 (rcptLine ++ dataLine) ++ sampleContent, afterMail,
        [.command ehloLine (.reply ehloReply), .command mailLine (.reply (.line 250 "sender OK"))], []⟩
      [greyTurn] (beforeData (.line 451 "greylisted: please retry shortly")) := Run.of_exec (by decide +kernel)
  have hreceived : Run (Inbound.turn sampleReceiver samplePeer) (fun _ _ => True)
      (beforeData (.line 451 "greylisted: please retry shortly")) [greyTurn]
      (afterContent (.line 451 "greylisted: please retry shortly")) := Run.of_exec (by decide +kernel)
  refine ⟨afterContent (.line 451 "greylisted: please retry shortly"), _,
    hsender.append (hdeferred.append hreceived), List.mem_cons_self, by decide +kernel, rfl, fun hok => ?_⟩
  have hstored := hok.stored_iff.mp (by decide +kernel)
  obtain ⟨a, ha, -⟩ := (hok.recipients hstored sampleUser).mp (by decide +kernel)
  have hnone : acceptedRecipients ((beforeData (.line 451 "greylisted: please retry shortly")).log ++
      [.command dataLine (.readData dataReply)]) = [] := by decide +kernel
  exact absurd (hnone ▸ ha) List.not_mem_nil

end Selfhost.Mail
