import Selfhost.Lib.Fallible
import Selfhost.Mail.Lemmas.Address
import Selfhost.Mail.Lemmas.Client
import Selfhost.Mail.Lemmas.Stuffing
import Selfhost.Mail.Outbound

/-!
# The spool and the send path

What is spooled is read back, and what the report of a delivery says of the conversations that were held.
-/

namespace Selfhost.Mail

open Selfhost.Lib

/-! ## Reading the spool back -/

theorem stripStart_other {pat word l : Str} (hpat : pat ≠ []) (hword : word ≠ []) (h : pat.head? ≠ word.head?) :
    stripStart pat (word ++ l) = none := by
  have hne : ¬ pat <+: word ++ l := by
    rintro ⟨t, ht⟩
    cases pat with
    | nil => exact hpat rfl
    | cons a pat =>
        cases word with
        | nil => exact hword rfl
        | cons b word => exact h (congrArg some (List.cons.inj ht).1)
  rw [stripStart, if_neg hne]

section

variable {id : Str} {head : SpoolHead} {value : Str} {rest : Bytes}

/-- What is made of one line of a spool file. -/
theorem parseSpoolFrom_line {line : Str} (h : '\n' ∉ line) :
    parseSpoolFrom id head (utf8 line ++ lf :: rest) =
      match stripStart "FROM ".toList line with
      | some value =>
          match Path.parse value with
          | .error _ => .error .badSender
          | .ok sender => parseSpoolFrom id { head with sender := some sender } rest
      | none =>
          match stripStart "RCPT ".toList line with
          | some value =>
              match Address.parse value with
              | .error _ => .error .badRecipient
              | .ok a => parseSpoolFrom id { head with recipients := head.recipients ++ [a] } rest
          | none =>
              match stripStart "HELO ".toList line with
              | some value => parseSpoolFrom id { head with helo := value } rest
              | none =>
                  match stripStart "LEN ".toList line with
                  | some value => finishSpool id head value rest
                  | none => parseSpoolFrom id head rest := by
  have hsplit : splitOnce lf (utf8 line ++ lf :: rest) = some (utf8 line, rest) := splitOnce_append (lf_not_mem_utf8 h)
  rw [parseSpoolFrom]
  split
  · rename_i heq
    rw [hsplit] at heq
    cases heq
  · rename_i raw more heq
    rw [hsplit] at heq
    cases heq
    rewrite [fromUtf8_utf8]
    rfl

theorem parseSpoolFrom_sender {p : Path} (hp : Path.parse value = .ok p) (h : '\n' ∉ value) :
    parseSpoolFrom id head (utf8 ("FROM ".toList ++ value) ++ lf :: rest) =
      parseSpoolFrom id { head with sender := some p } rest := by
  have hline : '\n' ∉ "FROM ".toList ++ value := by simp [h]
  rw [parseSpoolFrom_line hline]
  simp only [stripStart_append, hp]

theorem parseSpoolFrom_recipient {a : Address} (ha : Address.parse value = .ok a) (h : '\n' ∉ value) :
    parseSpoolFrom id head (utf8 ("RCPT ".toList ++ value) ++ lf :: rest) =
      parseSpoolFrom id { head with recipients := head.recipients ++ [a] } rest := by
  have hline : '\n' ∉ "RCPT ".toList ++ value := by simp [h]
  have hfrom : stripStart "FROM ".toList ("RCPT ".toList ++ value) = none :=
    stripStart_other (by decide) (by decide) (by decide)
  rw [parseSpoolFrom_line hline]
  simp only [hfrom, stripStart_append, ha]

theorem parseSpoolFrom_helo (h : '\n' ∉ value) :
    parseSpoolFrom id head (utf8 ("HELO ".toList ++ value) ++ lf :: rest) =
      parseSpoolFrom id { head with helo := value } rest := by
  have hline : '\n' ∉ "HELO ".toList ++ value := by simp [h]
  have hfrom : stripStart "FROM ".toList ("HELO ".toList ++ value) = none :=
    stripStart_other (by decide) (by decide) (by decide)
  have hrcpt : stripStart "RCPT ".toList ("HELO ".toList ++ value) = none :=
    stripStart_other (by decide) (by decide) (by decide)
  rw [parseSpoolFrom_line hline]
  simp only [hfrom, hrcpt, stripStart_append]

theorem parseSpoolFrom_length (h : '\n' ∉ value) :
    parseSpoolFrom id head (utf8 ("LEN ".toList ++ value) ++ lf :: rest) = finishSpool id head value rest := by
  have hline : '\n' ∉ "LEN ".toList ++ value := by simp [h]
  have hother : ∀ pat, pat ≠ [] → pat.head? ≠ "LEN ".toList.head? → stripStart pat ("LEN ".toList ++ value) = none :=
    fun pat hpat hhead => stripStart_other hpat (by decide) hhead
  rw [parseSpoolFrom_line hline]
  simp only [hother "FROM ".toList (by decide) (by decide),
    hother "RCPT ".toList (by decide) (by decide), hother "HELO ".toList (by decide) (by decide), stripStart_append]

theorem parseSpoolFrom_recipients {rs : List Address} (h : ∀ a ∈ rs, a.Legal) :
    parseSpoolFrom id head ((rs.flatMap fun a => utf8 ("RCPT ".toList ++ a.text) ++ [lf]) ++ rest) =
      parseSpoolFrom id { head with recipients := head.recipients ++ rs } rest := by
  induction rs generalizing head with
  | nil => simp
  | cons a rs ih =>
      have hline : '\n' ∉ a.text := fun hm => absurd (a.graphic_text _ hm).1 (by decide)
      rw [List.flatMap_cons, List.append_assoc, List.append_assoc, List.singleton_append,
        parseSpoolFrom_recipient (h a List.mem_cons_self).parse_text hline,
        ih fun b hb => h b (List.mem_cons_of_mem _ hb)]
      simp

theorem parseUsize_natText {n : Nat} (h : n ≤ u64Max) : parseUsize (natText n) = some n := parseUnsigned_natText h

/-- A message that can be spooled: its addresses were parsed, its greeting is one line, and it was parsed itself. -/
structure Spoolable (e : Envelope) (m : Message) : Prop where
  sender : e.sender.Legal
  recipients : ∀ a ∈ e.recipients, a.Legal
  helo : '\n' ∉ e.helo
  message : Message.parse m.raw = some m
  size : m.raw.length ≤ u64Max

/-- What is loaded is what was spooled. -/
theorem parseSpool_spoolBytes {e : Envelope} {m : Message} (h : Spoolable e m) :
    parseSpool id (spoolBytes e m) = .ok ⟨id, e.sender, e.recipients, e.helo, m⟩ := by
  have hsender : '\n' ∉ e.sender.text := fun hm => absurd (e.sender.graphic_text _ hm).1 (by decide)
  have hlen : '\n' ∉ natText m.raw.length := fun hm => absurd (isDigit_of_mem_natText hm) (by decide)
  have hbytes : spoolBytes e m = utf8 ("FROM ".toList ++ e.sender.text) ++ lf ::
      ((e.recipients.flatMap fun a => utf8 ("RCPT ".toList ++ a.text) ++ [lf]) ++
        (utf8 ("HELO ".toList ++ e.helo) ++ lf :: (utf8 ("LEN ".toList ++ natText m.raw.length) ++ lf :: m.raw))) := by
    simp [spoolBytes]
  rw [parseSpool, hbytes, parseSpoolFrom_sender h.sender.parse_text hsender, parseSpoolFrom_recipients h.recipients,
    parseSpoolFrom_helo h.helo, parseSpoolFrom_length hlen, finishSpool, parseUsize_natText h.size]
  simp [h.message]

end

/-! ## What a delivery means -/

/-- The recipient was accepted, and then a body that ends in the message. -/
def AcceptedThen (raw : Bytes) (r : Str) (log : List Exchange) : Prop :=
  ∃ before reply between header accepted after, log = before ++ ⟨.line (rcptCommand r), some reply⟩ ::
      (between ++ ⟨.body (frameBody (header ++ raw)), some accepted⟩ :: after) ∧
    reply.isPositive = true ∧ accepted.isPositive = true

/-- After the refusal of a recipient no body was accepted in the conversation. -/
def Wholesale (log : List Exchange) : Prop :=
  ∀ before r refused between body accepted after,
    log = before ++ ⟨.line (rcptCommand r), some refused⟩ :: (between ++ ⟨.body body, some accepted⟩ :: after) →
    refused.isPositive = false → accepted.isPositive = false

section

variable {body : Bytes} {recipients : List Str} {log : List Exchange} {d : SmtpClient.Delivery}

theorem mem_answered {r : Str} {reply : Reply} (h : (r, reply) ∈ answered log) :
    ∃ before after, log = before ++ ⟨.line (rcptCommand r), some reply⟩ :: after := by
  obtain ⟨e, he, hpair⟩ := List.mem_filterMap.mp h
  obtain ⟨r', hrcpt, hanswer⟩ := Option.bind_eq_some_iff.mp hpair
  obtain ⟨reply', hreply, heq⟩ := Option.map_eq_some_iff.mp hanswer
  cases heq
  obtain ⟨before, after, hlog⟩ := List.append_of_mem he
  refine ⟨before, after, ?_⟩
  obtain ⟨said, answer⟩ := e
  cases said with
  | line l =>
      have hanswered : answer = some reply := hreply
      rw [hlog, eq_rcptCommand hrcpt, hanswered]
  | connected => cases hrcpt
  | upgraded l => cases hrcpt
  | body b => cases hrcpt

/-- In a conversation that was completed without a refusal before an accepted body, every recipient was accepted. -/
theorem acceptedThen_of_complete {header raw : Bytes} (h : Complete (header ++ raw) recipients log d)
    (hwhole : Wholesale log) {r : Str} (hr : r ∈ recipients) : AcceptedThen raw r log := by
  obtain ⟨before, accepted, after, hlog, hpositive, hsame⟩ := h.body_accepted
  rw [← h.all_answered, ← hsame] at hr
  obtain ⟨⟨r', reply⟩, hmem, rfl⟩ := List.mem_map.mp hr
  obtain ⟨first, between, hbefore⟩ := mem_answered hmem
  have hparts : log = first ++ ⟨.line (rcptCommand r'), some reply⟩ ::
      (between ++ ⟨.body (frameBody (header ++ raw)), some accepted⟩ :: after) := by
    rw [hlog, hbefore, List.append_assoc, List.cons_append]
  refine ⟨first, reply, between, header, accepted, after, hparts, ?_, hpositive⟩
  by_contra hrefused
  have hnegative := hwhole _ _ _ _ _ _ _ hparts (Bool.eq_false_iff.mpr hrefused)
  rw [hpositive] at hnegative
  cases hnegative

end

/-! ## What a report means -/

/-- Every recipient was accepted in one of the conversations. -/
def AllAccepted (raw : Bytes) (recipients : List Str) (talks : List (List Exchange)) : Prop :=
  ∀ r ∈ recipients, ∃ log ∈ talks, AcceptedThen raw r log

section

variable {c : SendContext} {net : Net} {client : SmtpClient} {header raw : Bytes} {d : SmtpClient.Delivery}

theorem AllAccepted.append_left {recipients : List Str} {talks : List (List Exchange)}
    (h : AllAccepted raw recipients talks) (more : List (List Exchange)) : AllAccepted raw recipients (more ++ talks) := by
  intro r hr
  obtain ⟨log, hlog, haccepted⟩ := h r hr
  exact ⟨log, List.mem_append_right _ hlog, haccepted⟩

theorem AllAccepted.append_right {recipients : List Str} {talks : List (List Exchange)}
    (h : AllAccepted raw recipients talks) (more : List (List Exchange)) : AllAccepted raw recipients (talks ++ more) := by
  intro r hr
  obtain ⟨log, hlog, haccepted⟩ := h r hr
  exact ⟨log, List.mem_append_left _ hlog, haccepted⟩

theorem accepted_deliverOnce {connection : Except ClientError Server} (hfresh : client.Fresh)
    (hwhole : ∀ log ∈ (deliverOnce c connection client (header ++ raw)).talks, Wholesale log)
    (h : (deliverOnce c connection client (header ++ raw)).result = some (.ok d)) :
    AllAccepted raw client.recipients (deliverOnce c connection client (header ++ raw)).talks := by
  cases connection with
  | error e => cases h
  | ok server =>
      have htalk : TalkOk _ (header ++ raw) client.recipients
          (deliverToHost server.link client (header ++ raw) c.tls []).1
          (deliverToHost server.link client (header ++ raw) c.tls []).2 := talkOk_talk _ _ _ hfresh
      simp only [deliverOnce] at h hwhole ⊢
      cases hresult : (deliverToHost server.link client (header ++ raw) c.tls []).2 with
      | finished delivery =>
          intro r hr
          exact ⟨_, List.mem_singleton_self _, acceptedThen_of_complete (htalk.finished delivery hresult)
            (hwhole _ (List.mem_singleton_self _)) hr⟩
      | failed e =>
          rw [hresult] at h
          cases h
      | panicked =>
          rw [hresult] at h
          cases h
      | unfinished =>
          rw [hresult] at h
          cases h

theorem accepted_tryHosts {domain : Str} (hfresh : client.Fresh) {hosts : List Str} {lastError : SendError}
    (hwhole : ∀ log ∈ (tryHosts c net domain client (header ++ raw) lastError hosts).talks, Wholesale log)
    (h : (tryHosts c net domain client (header ++ raw) lastError hosts).result = some (.ok d)) :
    AllAccepted raw client.recipients (tryHosts c net domain client (header ++ raw) lastError hosts).talks := by
  induction hosts generalizing lastError with
  | nil => cases h
  | cons host hosts ih =>
      simp only [tryHosts] at h hwhole ⊢
      cases hresult : (deliverOnce c (net.connect domain host 25) client (header ++ raw)).result with
      | none =>
          rw [hresult] at h
          cases h
      | some result =>
          rw [hresult] at h hwhole
          cases result with
          | ok delivery => exact accepted_deliverOnce hfresh hwhole hresult
          | error e => exact (ih (fun log hlog => hwhole log (List.mem_append_right _ hlog)) h).append_left _

/-- The recipients that a client for a domain names. -/
def domainRecipients (e : Envelope) (domain : Str) : List Str :=
  (e.recipients.filter fun a => eqIgnoreAsciiCase a.domain domain).map Address.text

theorem accepted_deliverToDomain {e : Envelope} {message : Message} (hmessage : message.raw = header ++ raw)
    {domain : Str} (hwhole : ∀ log ∈ (deliverToDomain c net e message domain).talks, Wholesale log)
    (h : (deliverToDomain c net e message domain).result = some (.ok d)) :
    AllAccepted raw (domainRecipients e domain) (deliverToDomain c net e message domain).talks := by
  unfold deliverToDomain at h hwhole ⊢
  rw [hmessage] at h hwhole ⊢
  dsimp only at h hwhole ⊢
  cases htls : c.tls with
  | true =>
      rw [htls] at h hwhole
      exact accepted_tryHosts ⟨rfl, rfl, rfl, rfl⟩ hwhole h
  | false =>
      rw [htls] at h hwhole
      exact accepted_tryHosts ⟨rfl, rfl, rfl, rfl⟩ hwhole h

theorem accepted_deliverDomains {e : Envelope} {message : Message} (hmessage : message.raw = header ++ raw)
    {domains : List Str} {report : SendReport}
    (hwhole : ∀ log ∈ (deliverDomains c net e message domains).talks, Wholesale log)
    (h : (deliverDomains c net e message domains).result = some report)
    (hall : report.all (fun p => p.2.toBool) = true) :
    ∀ domain ∈ domains, AllAccepted raw (domainRecipients e domain) (deliverDomains c net e message domains).talks := by
  induction domains generalizing report with
  | nil => exact fun domain hdomain => (nomatch hdomain)
  | cons first domains ih =>
      simp only [deliverDomains] at h hwhole ⊢
      cases hresult : (deliverToDomain c net e message first).result with
      | none =>
          rw [hresult] at h
          cases h
      | some result =>
          rw [hresult] at h hwhole
          dsimp only at h hwhole ⊢
          obtain ⟨more, hmore, rfl⟩ := Option.map_eq_some_iff.mp h
          rw [List.all_cons, Bool.and_eq_true] at hall
          intro domain hdomain
          rcases List.mem_cons.mp hdomain with rfl | hdomain
          · cases result with
            | error e => cases hall.1
            | ok delivery =>
                exact (accepted_deliverToDomain hmessage (fun log hlog => hwhole log (List.mem_append_left _ hlog))
                  hresult).append_right _
          · exact (ih (fun log hlog => hwhole log (List.mem_append_right _ hlog)) hmore hall.2 domain
              hdomain).append_left _

theorem mem_distinctDomains {found : List Str} {rs : List Address} {domain : Str}
    (h : domain ∈ found ∨ ∃ a ∈ rs, a.domain = domain) : domain ∈ distinctDomains found rs := by
  induction rs generalizing found with
  | nil => exact h.resolve_right fun ⟨a, ha, _⟩ => (nomatch ha)
  | cons a rs ih =>
      refine ih ?_
      rcases h with h | ⟨b, hb, rfl⟩
      · left
        split
        · exact h
        · exact List.mem_append_left _ h
      · rcases List.mem_cons.mp hb with rfl | hb
        · left
          split
          · assumption
          · exact List.mem_append_right _ (List.mem_singleton_self _)
        · exact Or.inr ⟨b, hb, rfl⟩

/-- The message that is sent ends in the one that was queued. -/
theorem raw_sign (c : SendContext) (q : QueuedMessage) : ∃ header, (sign c q).raw = header ++ q.message.raw := by
  unfold sign
  split
  · split
    · exact ⟨_, rfl⟩
    · exact ⟨[], rfl⟩
  · exact ⟨[], rfl⟩

/-- A message whose report is good has every recipient accepted. -/
theorem accepted_deliver {q : QueuedMessage} (hwhole : ∀ log ∈ (deliver c net q).talks, Wholesale log)
    {report : SendReport} (h : (deliver c net q).result = some report) (hall : report.allDelivered = true) :
    AllAccepted q.message.raw (q.recipients.map Address.text) (deliver c net q).talks := by
  obtain ⟨header, hmessage⟩ := raw_sign c q
  rw [SendReport.allDelivered, Bool.and_eq_true] at hall
  unfold deliver at h hwhole ⊢
  dsimp only at h hwhole ⊢
  cases hrelay : c.relay with
  | some relay =>
      rw [hrelay] at h hwhole
      dsimp only at h hwhole ⊢
      unfold deliverViaRelay at h hwhole ⊢
      rw [hmessage] at h hwhole ⊢
      dsimp only at h hwhole ⊢
      obtain ⟨result, hresult, rfl⟩ := Option.map_eq_some_iff.mp h
      cases result with
      | error e => cases hall.2
      | ok delivery => exact accepted_deliverOnce ⟨rfl, rfl, rfl, rfl⟩ hwhole hresult
  | none =>
      rw [hrelay] at h hwhole
      dsimp only at h hwhole ⊢
      intro r hr
      obtain ⟨a, ha, rfl⟩ := List.mem_map.mp hr
      have hdomain : a.domain ∈ distinctDomains [] q.recipients := mem_distinctDomains (Or.inr ⟨a, ha, rfl⟩)
      refine accepted_deliverDomains hmessage hwhole h hall.2 a.domain hdomain _ (List.mem_map_of_mem ?_)
      exact List.mem_filter.mpr ⟨ha, beq_self_eq_true _⟩

end

end Selfhost.Mail
