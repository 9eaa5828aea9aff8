import Selfhost.Mail.Lemmas.Outbound
import Selfhost.Mail.Receive
import Selfhost.Mail.Theorems.Relay

/-!
# Mail that was accepted for others

What submission spools is loaded as it was, and it leaves the spool when every destination has accepted it. A server that
refuses one recipient and accepts the message for another counts as one that accepted it: `spooled_until_accepted` says
what holds where no server does that, and `refused_and_removed` is a recipient that is lost.
-/

namespace Selfhost.Mail

open Selfhost.Lib

/-! ## What submission spools -/

/-- A line that `read_command_line` gives. -/
def Call.IsRead : Call → Prop
  | .command line => ∃ input, line = (readCommandLine input).1
  | _ => True

/-- The submission port has spooled the message. -/
def Submitted (r : Submission) (e : Envelope) (m : Message) : Prop :=
  ∃ calls c input writes queues, Run Conversation.call (fun _ call => call.IsRead) (.new r.policy) calls c ∧
    (readAndEnqueue r c.session input writes queues).1.spooled = some (e, m)

theorem dropLast_takeLine (n : Nat) (input : Bytes) : lf ∉ (takeLine n input).1.dropLast := by
  induction n generalizing input with
  | zero => simp [takeLine]
  | succ n ih =>
      cases input with
      | nil => simp [takeLine]
      | cons b input =>
          rw [takeLine]
          split
          · simp
          · rename_i hb
            intro hmem
            cases hrest : (takeLine n input).1 with
            | nil =>
                rw [hrest] at hmem
                cases hmem
            | cons c rest =>
                have hih := ih input
                rw [hrest] at hmem hih
                rw [List.dropLast_cons_of_ne_nil (List.cons_ne_nil _ _)] at hmem
                rcases List.mem_cons.mp hmem with heq | hmem
                · exact hb heq.symm
                · exact hih hmem

theorem mem_of_mem_trimLineEnd {line : Str} (h : '\n' ∈ trimLineEnd line) : '\n' ∈ line.dropLast := by
  rcases List.eq_nil_or_concat line with rfl | ⟨front, last, rfl⟩
  · cases h
  · rw [List.concat_eq_append] at h ⊢
    rw [List.dropLast_concat]
    rw [trimLineEnd] at h
    by_cases hlast : (last == '\r' || last == '\n') = true
    · rw [List.rdropWhile_concat_pos (fun c => c == '\r' || c == '\n') _ _ hlast] at h
      exact (List.rdropWhile_prefix _ _).mem h
    · rw [List.rdropWhile_concat_neg (fun c => c == '\r' || c == '\n') _ _ hlast] at h
      rcases List.mem_append.mp h with h | h
      · exact h
      · rw [List.mem_singleton] at h
        rw [← h] at hlast
        exact absurd rfl hlast

theorem mem_of_mem_trim {s : Str} {c : Char} (h : c ∈ trim s) : c ∈ s :=
  (List.dropWhile_suffix _).mem ((List.rdropWhile_prefix _ _).mem h)

/-- The argument of a command that was read is within one line. -/
theorem not_mem_argument (input : Bytes) : '\n' ∉ (splitCommand (readCommandLine input).1).2 := by
  intro h
  have htrimmed : '\n' ∈ trimLineEnd (readCommandLine input).1 := by
    unfold splitCommand at h
    dsimp only at h
    split at h
    · rename_i verb rest hsplit
      rw [(splitOnce_some hsplit).1]
      exact List.mem_append_right _ (List.mem_cons_of_mem _ (mem_of_mem_trim h))
    · cases h
  exact dropLast_takeLine lineCap input (mem_dropLast_fromUtf8Lossy (by decide) (mem_of_mem_trimLineEnd htrimmed))

theorem legal_of_argumentPath {keyword rest : Str} {p : Path} (h : argumentPath keyword rest = some p) : p.Legal := by
  unfold argumentPath at h
  split at h
  · rename_i argument _
    cases hparse : Path.parse (pathText argument) with
    | error e =>
        rw [hparse] at h
        cases h
    | ok path =>
        rw [hparse] at h
        cases h
        exact Path.legal_of_parse hparse
  · cases h

theorem legal_of_sender {e : Event} {p : Path} (h : e.sender = some p) : p.Legal := by
  obtain ⟨rest, -, hpath⟩ := Option.bind_eq_some_iff.mp h
  exact legal_of_argumentPath hpath

theorem legal_of_recipient {e : Event} {a : Address} (h : e.recipient = some a) : a.Legal := by
  obtain ⟨rest, -, hpath⟩ := Option.bind_eq_some_iff.mp h
  obtain ⟨p, hp, haddress⟩ := Option.bind_eq_some_iff.mp hpath
  exact legal_of_argumentPath hp a haddress

/-- Every command in a history was read. -/
def LogRead (log : List Event) : Prop := ∀ line action, .command line action ∈ log → ∃ input, line = (readCommandLine input).1

theorem not_mem_greeting {log : List Event} (h : LogRead log) {e : Event} (he : e ∈ log) {name : Str}
    (hname : e.greeting = some name) : '\n' ∉ name := by
  cases e with
  | command line action =>
      obtain ⟨input, rfl⟩ := h line action he
      have hargument : name = (splitCommand (readCommandLine input).1).2 := by
        unfold Event.greeting Event.acceptedRest at hname
        dsimp only at hname
        split at hname
        · exact (Option.some.inj hname).symm
        · rw [Option.none_or] at hname
          split at hname
          · exact (Option.some.inj hname).symm
          · cases hname
      rw [hargument]
      exact not_mem_argument input
  | tlsEstablished => cases hname
  | authenticationSucceeded => cases hname
  | finishData envelope => cases hname

structure CallsOk (policy : Policy) (c : Conversation) : Prop where
  session : SessionOk policy c.log c.session
  read : LogRead c.log

theorem callsOk_of_run {policy : Policy} {calls : List Call} {c : Conversation}
    (h : Run Conversation.call (fun _ call => call.IsRead) (.new policy) calls c) : CallsOk policy c := by
  refine h.invariant (I := CallsOk policy) ?_ ⟨⟨rfl, nofun, nofun, nofun, nofun⟩, fun line action hmem => (nomatch hmem)⟩
  intro c call c' hc hread hcall
  obtain ⟨e, hlog, hsession, -⟩ := sessionOk_call hc.session hcall
  refine ⟨hsession, ?_⟩
  intro line action hmem
  cases call with
  | command line' =>
      obtain ⟨⟨s, action'⟩, -, rfl⟩ := Option.map_eq_some_iff.mp hcall
      rcases List.mem_append.mp hmem with hmem | hmem
      · exact hc.read line action hmem
      · cases List.mem_singleton.mp hmem
        exact hread
  | tlsEstablished =>
      cases hcall
      rcases List.mem_append.mp hmem with hmem | hmem
      · exact hc.read line action hmem
      · cases List.mem_singleton.mp hmem
  | authenticationSucceeded =>
      cases hcall
      rcases List.mem_append.mp hmem with hmem | hmem
      · exact hc.read line action hmem
      · cases List.mem_singleton.mp hmem
  | finishData =>
      cases hcall
      rcases List.mem_append.mp hmem with hmem | hmem
      · exact hc.read line action hmem
      · cases List.mem_singleton.mp hmem

theorem length_of_takeLine {max : UInt64} {st : DataState} (h : st.body.length ≤ max.toNat) :
    (∀ b o, st.takeLine max = .error (.terminated b o) → b.length ≤ max.toNat) ∧
      ∀ st', st.takeLine max = .ok st' → st'.body.length ≤ max.toNat := by
  unfold DataState.takeLine
  split
  · refine ⟨fun b o heq => ?_, fun st' heq => (nomatch heq)⟩
    cases heq
    exact h
  · dsimp only
    split
    · rename_i hfits
      refine ⟨fun b o heq => (nomatch heq), fun st' heq => ?_⟩
      cases heq
      rw [List.length_append]
      exact hfits
    · split
      · exact ⟨fun b o heq => (nomatch heq), fun st' heq => (nomatch heq)⟩
      · refine ⟨fun b o heq => (nomatch heq), fun st' heq => ?_⟩
        cases heq
        exact h

/-- A message that was read is within the limit. -/
theorem length_of_readData {max : UInt64} {st : DataState} {input body rest : Bytes} {oversize : Bool}
    (h : readData max st input = (.terminated body oversize, rest)) (hst : st.body.length ≤ max.toNat) :
    body.length ≤ max.toNat := by
  induction input generalizing st with
  | nil =>
      rw [readData] at h
      split at h
      · cases h
      · split at h
        · rename_i e he
          cases h
          exact (length_of_takeLine hst).1 _ _ he
        · cases h
  | cons b input ih =>
      rw [readData] at h
      split at h
      · split at h
        · rename_i e he
          cases h
          exact (@length_of_takeLine _ (st.push b) hst).1 _ _ he
        · rename_i st' hst'
          exact ih h ((@length_of_takeLine _ (st.push b) hst).2 _ hst')
      · exact ih h hst

/-- Whatever submission spools is read back from its file. -/
theorem Submitted.spoolable {r : Submission} {e : Envelope} {m : Message} (h : Submitted r e m) : Spoolable e m := by
  obtain ⟨calls, c, input, writes, queues, hrun, hspooled⟩ := h
  have hok := callsOk_of_run hrun
  unfold readAndEnqueue at hspooled
  cases hread : readData r.policy.maxMessageBytes .start input with
  | mk dataEnd rest =>
      rw [hread] at hspooled
      cases dataEnd with
      | closed => cases hspooled
      | tooLarge => cases hspooled
      | terminated body oversize =>
          dsimp only at hspooled
          cases hfinish : c.session.finishData.2 with
          | none =>
              rw [hfinish] at hspooled
              cases hspooled
          | some envelope =>
              rw [hfinish] at hspooled
              dsimp only at hspooled
              have henvelope := envelopeOk_of_finish hok.session hfinish
              split at hspooled
              · cases hspooled
              · have hlength := length_of_readData hread (Nat.zero_le _)
                unfold route at hspooled
                split at hspooled
                · cases hspooled
                · rename_i message hparse
                  dsimp only at hspooled
                  split at hspooled
                  · cases hspooled
                  · split at hspooled
                    · cases hspooled
                    · split at hspooled
                      · cases hspooled
                        have hraw : m.raw = body := by
                          unfold Message.parse at hparse
                          split at hparse
                          · cases hparse
                          · cases hparse
                            rfl
                        refine ⟨?_, ?_, ?_, ?_, ?_⟩
                        · have hsender := List.mem_of_getLast? henvelope.sender
                          obtain ⟨event, -, hevent⟩ := List.mem_filterMap.mp hsender
                          exact legal_of_sender hevent
                        · intro a ha
                          have hall : a ∈ envelope.recipients := by
                            rw [List.partition_eq_filter_filter] at ha
                            exact List.mem_of_mem_filter ha
                          obtain ⟨_, event, _, -, hevent, -⟩ := henvelope.recipients a hall
                          exact legal_of_recipient hevent
                        · have hhelo := List.mem_of_getLast? henvelope.helo
                          obtain ⟨event, hevent, hname⟩ := List.mem_filterMap.mp hhelo
                          have hlog : event ∈ c.log := (List.rtakeWhile_suffix _ _).mem hevent
                          exact not_mem_greeting hok.read hlog hname
                        · rw [hraw]
                          exact hparse
                        · rw [hraw]
                          have hmax : r.policy.maxMessageBytes.toNat < 2 ^ 64 := r.policy.maxMessageBytes.toNat_lt
                          have hu64 : u64Max = 2 ^ 64 - 1 := rfl
                          omega
                      · cases hspooled

/-! ## The spool over a run -/

namespace Queue

variable {q : Queue} {id : Str}

theorem file_append (files : List (Str × Bytes)) (name : Str) (bytes : Bytes) (sequence : Nat) (todo : List Str)
    (spooled : List Spooled) (talks : List (Str × List Exchange)) (hnone : ∀ f ∈ files, f.1 ≠ name) :
    file ⟨files ++ [(name, bytes)], sequence, todo, spooled, talks⟩ name = some bytes := by
  have hfiles : files.find? (fun f => f.1 = name) = none := by
    rw [List.find?_eq_none]
    intro f hf
    simpa using hnone f hf
  simp [file, List.find?_append, hfiles]

theorem file_filter_ne {other : Str} (h : other ≠ id) :
    ((q.files.filter fun f => f.1 ≠ id).find? fun f => f.1 = other) = q.files.find? fun f => f.1 = other := by
  rw [List.find?_filter]
  congr 1
  funext f
  by_cases hf : f.1 = other
  · simp [hf, h]
  · simp [hf]

theorem file_remove_ne {other : Str} (h : other ≠ id) : (q.remove id).file other = q.file other := by
  rw [file, file, remove, file_filter_ne h]

theorem file_remove : (q.remove id).file id = none := by
  rw [file, remove, Option.map_eq_none_iff, List.find?_eq_none]
  intro f hf
  simpa using (List.mem_filter.mp hf).2

theorem file_enqueue (millis : Nat) (e : Envelope) (m : Message) :
    (q.enqueue millis e m).file (q.nextId millis) = some (spoolBytes e m) := by
  refine file_append _ _ _ _ _ _ _ fun f hf => ?_
  simpa using (List.mem_filter.mp hf).2

theorem file_enqueue_ne {millis : Nat} {e : Envelope} {m : Message} {other : Str} (h : other ≠ q.nextId millis) :
    (q.enqueue millis e m).file other = q.file other := by
  have hlast : ([(q.nextId millis, spoolBytes e m)].find? fun f => f.1 = other) = none := by
    simp [Ne.symm h]
  rw [file, file, enqueue]
  dsimp only
  rw [List.find?_append, hlast, Option.or_none, file_filter_ne h]

/-- Every recipient was accepted in a conversation for the message. -/
def Accepted (q : Queue) (s : Spooled) : Prop :=
  ∀ a ∈ s.envelope.recipients, ∃ log, (s.id, log) ∈ q.talks ∧ AcceptedThen s.message.raw a.text log

theorem Accepted.mono {q' : Queue} {s : Spooled} (h : q.Accepted s) (htalks : ∀ talk ∈ q.talks, talk ∈ q'.talks) :
    q'.Accepted s := by
  intro a ha
  obtain ⟨log, hlog, haccepted⟩ := h a ha
  exact ⟨log, htalks _ hlog, haccepted⟩

/-- In no conversation for the message was its body accepted after the refusal of a recipient. -/
def AllWholesale (q : Queue) (s : Spooled) : Prop := ∀ log, (s.id, log) ∈ q.talks → Wholesale log

theorem AllWholesale.mono {q' : Queue} {s : Spooled} (h : q'.AllWholesale s) (htalks : ∀ talk ∈ q.talks, talk ∈ q'.talks) :
    q.AllWholesale s := fun log hlog => h log (htalks _ hlog)

/-- Where a message that was spooled stands. -/
structure Inv (q : Queue) : Prop where
  distinct : ∀ s ∈ q.spooled, ∀ t ∈ q.spooled, s.id = t.id → s = t
  spoolable : ∀ s ∈ q.spooled, Spoolable s.envelope s.message
  kept : ∀ s ∈ q.spooled, q.file s.id = some (spoolBytes s.envelope s.message) ∨
    q.file s.id = none ∧ (q.AllWholesale s → q.Accepted s)

/-- What is loaded for a message in the spool. -/
def queuedOf (s : Spooled) : QueuedMessage := ⟨s.id, s.envelope.sender, s.envelope.recipients, s.envelope.helo, s.message⟩

theorem Inv.load (h : q.Inv) {s : Spooled} (hs : s ∈ q.spooled) :
    q.load s.id = some (.ok (queuedOf s)) ∨ q.load s.id = none ∧ (q.AllWholesale s → q.Accepted s) := by
  rcases h.kept s hs with hfile | ⟨hfile, haccepted⟩
  · refine Or.inl ?_
    rw [Queue.load, hfile, Option.map_some, parseSpool_spoolBytes (h.spoolable s hs)]
    rfl
  · exact Or.inr ⟨by rw [Queue.load, hfile]; rfl, haccepted⟩

/-- What is spooled was submitted and gets an id that no message has had. -/
def StepOk (r : Submission) (q : Queue) : Event → Prop
  | .enqueue millis e m => Submitted r e m ∧ ∀ s ∈ q.spooled, s.id ≠ q.nextId millis
  | _ => True

theorem Inv.enqueue (h : q.Inv) {millis : Nat} {e : Envelope} {m : Message} (hspoolable : Spoolable e m)
    (hnew : ∀ s ∈ q.spooled, s.id ≠ q.nextId millis) : (q.enqueue millis e m).Inv where
  distinct := by
    intro s hs t ht heq
    rcases List.mem_append.mp hs with hs | hs
    · rcases List.mem_append.mp ht with ht | ht
      · exact h.distinct s hs t ht heq
      · rw [List.mem_singleton.mp ht] at heq
        exact absurd heq (hnew s hs)
    · rcases List.mem_append.mp ht with ht | ht
      · rw [List.mem_singleton.mp hs] at heq
        exact absurd heq.symm (hnew t ht)
      · rw [List.mem_singleton.mp hs, List.mem_singleton.mp ht]
  spoolable := by
    intro s hs
    rcases List.mem_append.mp hs with hs | hs
    · exact h.spoolable s hs
    · rw [List.mem_singleton.mp hs]
      exact hspoolable
  kept := by
    intro s hs
    rcases List.mem_append.mp hs with hs | hs
    · rw [file_enqueue_ne (hnew s hs)]
      exact (h.kept s hs).imp_right fun hgone => ⟨hgone.1, fun hwhole =>
        (hgone.2 (hwhole.mono fun talk htalk => htalk)).mono fun talk htalk => htalk⟩
    · rw [List.mem_singleton.mp hs]
      exact Or.inl (file_enqueue millis e m)

/-- More conversations, and files that stay or leave when all was accepted by servers that take all or none. -/
theorem Inv.keep (h : q.Inv) {q' : Queue} (hspooled : q'.spooled = q.spooled) (htalks : ∀ talk ∈ q.talks, talk ∈ q'.talks)
    (hfile : ∀ s ∈ q.spooled, q'.file s.id = q.file s.id ∨
      q'.file s.id = none ∧ (q'.AllWholesale s → q'.Accepted s)) : q'.Inv where
  distinct := by
    rw [hspooled]
    exact h.distinct
  spoolable := by
    rw [hspooled]
    exact h.spoolable
  kept := by
    intro s hs
    rw [hspooled] at hs
    rcases hfile s hs with hsame | hgone
    · rw [hsame]
      exact (h.kept s hs).imp_right fun hgone =>
        ⟨hgone.1, fun hwhole => (hgone.2 (hwhole.mono htalks)).mono htalks⟩
    · exact Or.inr hgone

theorem Inv.send (h : q.Inv) {c : SendContext} {net : Net} {queued : QueuedMessage}
    (hload : q.load id = some (.ok queued)) : (q.send c net id queued).Inv := by
  unfold Queue.send
  dsimp only
  have hmore : ∀ talk ∈ q.talks, talk ∈ q.talks ++ (deliver c net queued).talks.map fun log => (id, log) :=
    fun talk htalk => List.mem_append_left _ htalk
  split
  · exact h.keep rfl hmore fun s _ => Or.inl rfl
  · rename_i report hreport
    split
    · rename_i hall
      refine h.keep rfl hmore fun s hs => ?_
      by_cases hid : s.id = id
      · refine Or.inr ⟨by rw [hid]; exact file_remove, fun hwhole => ?_⟩
        -- the file that was loaded is the one of this message
        have hqueued : queued = queuedOf s := by
          rcases h.load hs with hsame | ⟨hnone, -⟩
          · rw [hid, hload] at hsame
            exact Except.ok.inj (Option.some.inj hsame)
          · rw [hid, hload] at hnone
            cases hnone
        have htalks : ∀ log ∈ (deliver c net queued).talks, Wholesale log := fun log hlog =>
          hwhole log (List.mem_append_right _ (List.mem_map.mpr ⟨log, hlog, by rw [hid]⟩))
        have haccepted := accepted_deliver htalks hreport hall.1
        intro a ha
        rw [hqueued] at haccepted
        obtain ⟨log, hlog, hthen⟩ := haccepted a.text (List.mem_map_of_mem ha)
        refine ⟨log, List.mem_append_right _ (List.mem_map.mpr ⟨log, ?_, ?_⟩), hthen⟩
        · rw [hqueued]
          exact hlog
        · rw [hid]
      · exact Or.inl (file_remove_ne hid)
    · exact h.keep rfl hmore fun s _ => Or.inl rfl

theorem Inv.step (h : q.Inv) {r : Submission} {c : SendContext} {event : Event} {q' : Queue} (hok : q.StepOk r event)
    (hstep : q.step c event = some q') : q'.Inv := by
  cases event with
  | enqueue millis e m =>
      cases hstep
      exact h.enqueue hok.1.spoolable hok.2
  | sweep =>
      simp only [Queue.step] at hstep
      split at hstep
      · cases hstep
        exact h.keep rfl (fun talk htalk => htalk) fun s _ => Or.inl rfl
      · cases hstep
  | attempt net =>
      cases htodo : q.todo with
      | nil =>
          simp only [Queue.step, htodo] at hstep
          cases hstep
      | cons id ids =>
          simp only [Queue.step, htodo] at hstep
          cases hstep
          have hnext : ({ q with todo := ids } : Queue).Inv := h.keep rfl (fun talk htalk => htalk) fun s _ => Or.inl rfl
          unfold Queue.attempt
          split
          · split
            · rename_i queued hload
              exact hnext.send hload
            · exact hnext
          · exact hnext
  | restart =>
      cases hstep
      exact h.keep rfl (fun talk htalk => htalk) fun s _ => Or.inl rfl

end Queue

/-- **Mail for others**: in every run of submissions, sweeps, attempts and restarts where no message gets an id that one
has had, a message that was spooled is loaded as it was while its file is there. Once the file is gone, every recipient
was accepted in a conversation whose body, which ends in the message, was then accepted, if in none of the conversations
held for it the body was accepted after a recipient had been refused. -/
theorem spooled_until_accepted {r : Submission} {c : SendContext} {events : List Queue.Event} {q : Queue}
    (hrun : Run (Queue.step c) (Queue.StepOk r) Queue.empty events q) :
    ∀ s ∈ q.spooled, (q.AllWholesale s → q.file s.id = none → q.Accepted s) ∧
      (q.file s.id ≠ none → q.load s.id = some (.ok (Queue.queuedOf s))) := by
  have hinv : q.Inv := by
    refine hrun.invariant (I := Queue.Inv) ?_ ⟨fun s hs => (nomatch hs), fun s hs => (nomatch hs), fun s hs => (nomatch hs)⟩
    intro q event q' hq hok hstep
    exact hq.step hok hstep
  intro s hs
  refine ⟨fun hwhole hgone => ?_, fun hfile => ?_⟩
  · rcases hinv.kept s hs with hkept | ⟨-, haccepted⟩
    · rw [hgone] at hkept
      cases hkept
    · exact haccepted hwhole
  · rcases hinv.load hs with hload | ⟨hnone, -⟩
    · exact hload
    · rw [Queue.load, Option.map_eq_none_iff] at hnone
      exact absurd hnone hfile

/-! ## Two recipients of one domain -/

def sampleSubmission : Submission := ⟨samplePolicy, ⟨[], [], rfl⟩⟩

theorem outward_domain : "x.y".toList.all isDomainChar = true := by decide

def one : Address := ⟨"one".toList, "x.y".toList, by decide, outward_domain⟩

def two : Address := ⟨"two".toList, "x.y".toList, by decide, outward_domain⟩

/-- A user logs in and names two recipients elsewhere. -/
def letterLines : List Str :=
  ["EHLO c\r\n".toList, "MAIL FROM:<u@a.b>\r\n".toList, "RCPT TO:<one@x.y>\r\n".toList,
    "RCPT TO:<two@x.y>\r\n".toList, "DATA\r\n".toList]

def outwardEnvelope : Envelope := ⟨.mailbox sampleUser, [one, two], "c".toList⟩

def outwardMessage : Message := ⟨utf8 "Subject: s\r\n\r\nhi\r\n".toList, 14, by decide⟩

theorem submitted_outward : Submitted sampleSubmission outwardEnvelope outwardMessage := by
  have hread : ∀ line ∈ letterLines, (readCommandLine (utf8 line)).1 = line := by decide +kernel
  have hsession : (exec Conversation.call (fun _ _ => True) (.new samplePolicy)
      (.authenticationSucceeded :: letterLines.map Call.command)).map Conversation.session =
      some ⟨samplePolicy, .readingData, some "c".toList, some (.mailbox sampleUser), [one, two], false, true⟩ := by
    decide +kernel
  obtain ⟨c, hexec, hc⟩ := Option.map_eq_some_iff.mp hsession
  refine ⟨.authenticationSucceeded :: letterLines.map Call.command, c, utf8 "Subject: s\r\n\r\nhi\r\n.\r\n".toList,
    fun _ => true, true, ?_, ?_⟩
  · refine (Run.of_exec hexec).restrict ?_
    intro call hcall _
    rcases List.mem_cons.mp hcall with rfl | hcall
    · exact trivial
    · obtain ⟨line, hline, rfl⟩ := List.mem_map.mp hcall
      exact ⟨utf8 line, (hread line hline).symm⟩
  · rw [hc]
    decide +kernel

/-- A server that refuses one recipient and agrees to everything else. -/
def refusing (refused : Str) : Server where
  takes _ := true
  answers sent := some (.ok (
    match sent.getLast? with
    | none => .line 220 "ready"
    | some bytes =>
        if bytes = utf8 (rcptCommand refused) ++ crlf then .line 550 "no such user"
        else if bytes = utf8 "DATA".toList ++ crlf then .line 354 "go on"
        else .line 250 "OK"))
  handshake _ := .ok ()

def onlyServer (refused : Str) : Net := ⟨fun _ => [], fun _ _ _ => .ok (refusing refused), true, true⟩

def plainContext : SendContext := ⟨"h".toList, none, false, none⟩

def sampleId : Str := nextId 0 0

/-- The queue once the message is spooled and the runner has listed it. -/
def listedQueue : Queue := { Queue.empty.enqueue 0 outwardEnvelope outwardMessage with todo := [sampleId] }

def sweptQueue (refused : Str) : Queue := ({ listedQueue with todo := [] }).attempt plainContext (onlyServer refused) sampleId

def sweepEvents (refused : Str) : List Queue.Event :=
  [.enqueue 0 outwardEnvelope outwardMessage, .sweep, .attempt (onlyServer refused)]

theorem run_sweep (refused : Str) : Run (Queue.step plainContext) (Queue.StepOk sampleSubmission) Queue.empty
    (sweepEvents refused) (sweptQueue refused) := by
  have hlist : (Queue.empty.enqueue 0 outwardEnvelope outwardMessage).list = [sampleId] := by decide +kernel
  have hattempt : Queue.StepOk sampleSubmission listedQueue (.attempt (onlyServer refused)) := trivial
  refine .cons ⟨submitted_outward, fun s hs => (nomatch hs)⟩ rfl (.cons trivial ?_ (.cons hattempt rfl .nil))
  rw [listedQueue, ← hlist]
  rfl

example : (sweptQueue []).todo = [] := by decide +kernel

/-- A server that refuses nobody takes the message for both. -/
theorem spooled_until_accepted_both :
    (sweptQueue "nobody@x.y".toList).AllWholesale ⟨sampleId, outwardEnvelope, outwardMessage⟩ ∧
      (sweptQueue "nobody@x.y".toList).file sampleId = none ∧
      (sweptQueue "nobody@x.y".toList).Accepted ⟨sampleId, outwardEnvelope, outwardMessage⟩ := by
  have hgone : (sweptQueue "nobody@x.y".toList).file sampleId = none := by decide +kernel
  have hspooled : (sweptQueue "nobody@x.y".toList).spooled = [⟨sampleId, outwardEnvelope, outwardMessage⟩] := by
    decide +kernel
  have hpositive : ∀ talk ∈ (sweptQueue "nobody@x.y".toList).talks, ∀ e ∈ talk.2, e.said.rcpt.isSome →
      e.answer.any Reply.isPositive = true := by decide +kernel
  have hwhole : (sweptQueue "nobody@x.y".toList).AllWholesale ⟨sampleId, outwardEnvelope, outwardMessage⟩ := by
    rintro _ hlog before r refused between body accepted after rfl hnegative
    have hanswer := hpositive _ hlog ⟨.line (rcptCommand r), some refused⟩
      (List.mem_append_right _ List.mem_cons_self) (by simp [Said.rcpt])
    rw [Option.any_some, hnegative] at hanswer
    cases hanswer
  refine ⟨hwhole, hgone, ?_⟩
  exact (@spooled_until_accepted sampleSubmission plainContext _ _ (run_sweep "nobody@x.y".toList) _
    (by rw [hspooled]; exact List.mem_singleton_self _)).1 hwhole hgone

/-- The server refuses the second recipient and accepts the message for the first: the file is removed, and nobody has
taken the message for the second. -/
theorem refused_and_removed :
    Run (Queue.step plainContext) (Queue.StepOk sampleSubmission) Queue.empty (sweepEvents two.text)
        (sweptQueue two.text) ∧
      ∃ s ∈ (sweptQueue two.text).spooled, (sweptQueue two.text).file s.id = none ∧
        ¬(sweptQueue two.text).Accepted s := by
  have hspooled : (sweptQueue two.text).spooled = [⟨sampleId, outwardEnvelope, outwardMessage⟩] := by decide +kernel
  have hgone : (sweptQueue two.text).file sampleId = none := by decide +kernel
  have hrefused : ∀ talk ∈ (sweptQueue two.text).talks, ∀ e ∈ talk.2, e.said = .line (rcptCommand two.text) →
      e.answer.any Reply.isPositive = false := by decide +kernel
  refine ⟨run_sweep two.text, ⟨sampleId, outwardEnvelope, outwardMessage⟩,
    by rw [hspooled]; exact List.mem_singleton_self _, hgone, ?_⟩
  intro haccepted
  obtain ⟨log, hlog, before, reply, between, header, accepted, after, rfl, hpositive, -⟩ :=
    haccepted two (List.mem_cons_of_mem _ (List.mem_singleton_self _))
  have hanswer := hrefused _ hlog _ (List.mem_append_right _ List.mem_cons_self) rfl
  rw [Option.any_some, hpositive] at hanswer
  cases hanswer

end Selfhost.Mail
