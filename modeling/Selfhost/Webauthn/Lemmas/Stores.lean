import Selfhost.Webauthn.Stores

/-!
# What the ceremonies spend and what the stores keep
-/

namespace Selfhost.Webauthn

open Selfhost.Lib Selfhost.Json

variable {π α : Type} {P : Party}

/-! ## Challenges -/

/-- What a ceremony does to the challenges: it spends the one that it redeems, if any. -/
structure Spends (purpose : π) (challenges : List (Challenge π)) (taken : Option Str) (left : List (Challenge π)) :
    Prop where
  subset : left ⊆ challenges
  held : ∀ value, taken = some value → ∃ entry ∈ challenges, entry.value = value ∧ entry.tag = purpose
  gone : ∀ value, taken = some value → ∀ other ∈ left, ¬(other.value = value ∧ other.tag = purpose)

theorem Spends.nothing (purpose : π) (challenges : List (Challenge π)) : Spends purpose challenges none challenges :=
  ⟨List.Subset.refl _, fun _ h => (nomatch h), fun _ h => (nomatch h)⟩

section

variable [DecidableEq π]

theorem redeems_iff {presented : Str} {purpose : π} {entry : Challenge π} :
    redeems presented purpose entry = true ↔ entry.value = presented ∧ entry.tag = purpose := by
  simp [redeems, and_comm]

theorem Spends.checkClientData (ceremony : Str) (purpose : π) (now : Instant) (clientData : Bytes)
    (challenges : List (Challenge π)) :
    Spends purpose challenges (checkClientData P ceremony purpose now clientData challenges).1
      (checkClientData P ceremony purpose now clientData challenges).2 := by
  unfold Webauthn.checkClientData
  cases presentedChallenge P ceremony clientData with
  | none => exact .nothing purpose challenges
  | some presented =>
      dsimp only
      have hsub : Tickets.left challengeLifetime now (redeems presented purpose) challenges ⊆ challenges :=
        fun entry hentry => (Tickets.mem_left hentry).1
      split
      · exact ⟨hsub, fun _ h => (nomatch h), fun _ h => (nomatch h)⟩
      · rename_i hne
        refine ⟨hsub, ?_, ?_⟩
        · intro value hvalue
          cases hvalue
          obtain ⟨entry, hentry⟩ := List.exists_mem_of_ne_nil _ hne
          obtain ⟨hmem, hhit⟩ := Tickets.mem_taken hentry
          exact ⟨entry, hmem, redeems_iff.mp hhit⟩
        · intro value hvalue other hother hsame
          cases hvalue
          have hmiss := (Tickets.mem_left hother).2
          rw [redeems_iff.mpr hsame] at hmiss
          cases hmiss

theorem Spends.ofClientData (ceremony : Str) (purpose : π) (now : Instant) (clientData : Bytes)
    (challenges : List (Challenge π)) (answer : Option α) :
    Spends purpose challenges (Ceremony.ofClientData P ceremony purpose now clientData challenges answer).taken
      (Ceremony.ofClientData P ceremony purpose now clientData challenges answer).challenges := by
  have h := Spends.checkClientData (P := P) ceremony purpose now clientData challenges
  unfold Ceremony.ofClientData
  generalize Webauthn.checkClientData P ceremony purpose now clientData challenges = checked at h
  obtain ⟨taken, left⟩ := checked
  cases taken with
  | none => exact h
  | some presented => exact h

theorem Spends.registration (body : Value P.D.F) (purpose : π) (now : Instant) (challenges : List (Challenge π)) :
    Spends purpose challenges (registration P body purpose now challenges).taken
      (registration P body purpose now challenges).challenges := by
  unfold Webauthn.registration
  cases credentialId body with
  | none => exact .nothing purpose challenges
  | some id =>
      dsimp only
      split
      · exact .nothing purpose challenges
      · cases decodedField body "clientDataJSON".toList with
        | none => exact .nothing purpose challenges
        | some clientData => exact .ofClientData _ purpose now clientData challenges _

theorem Spends.verifyLogin (purpose : π) (body : Value P.D.F) (now : Instant) (passkeys : List Passkey)
    (challenges : List (Challenge π)) :
    Spends purpose challenges (verifyLogin P purpose body now passkeys challenges).taken
      (verifyLogin P purpose body now passkeys challenges).challenges := by
  unfold Webauthn.verifyLogin
  cases (credentialId body).bind fun id => passkeys.find? fun entry => entry.id = id with
  | none => exact .nothing purpose challenges
  | some passkey =>
      cases decodedField body "clientDataJSON".toList with
      | none => exact .nothing purpose challenges
      | some clientData => exact .ofClientData _ purpose now clientData challenges _

/-! ## Answers -/

theorem ofClientData_taken {ceremony : Str} {purpose : π} {now : Instant} {clientData : Bytes}
    {challenges : List (Challenge π)} {answer : Option α} {value : Str}
    (h : (Ceremony.ofClientData P ceremony purpose now clientData challenges answer).taken = some value) :
    presentedChallenge P ceremony clientData = some value := by
  unfold Ceremony.ofClientData Webauthn.checkClientData at h
  cases hpresented : presentedChallenge P ceremony clientData with
  | none =>
      rw [hpresented] at h
      cases h
  | some presented =>
      rw [hpresented] at h
      dsimp only at h
      split at h
      · cases h
      · rename_i heq
        split at heq
        · cases heq
        · cases heq
          exact h

theorem ofClientData_answer {ceremony : Str} {purpose : π} {now : Instant} {clientData : Bytes}
    {challenges : List (Challenge π)} {answer : Option α} {a : α}
    (h : (Ceremony.ofClientData P ceremony purpose now clientData challenges answer).answer = some a) :
    answer = some a := by
  unfold Ceremony.ofClientData at h
  split at h
  · cases h
  · exact h

theorem claimedChallenge_of_presented {ceremony : Str} {body : Value P.D.F} {clientData : Bytes} {value : Str}
    (hdata : decodedField body "clientDataJSON".toList = some clientData)
    (h : presentedChallenge P ceremony clientData = some value) : claimedChallenge P body = some value := by
  simp only [presentedChallenge, Option.bind_eq_bind, Option.bind_eq_some_iff] at h
  obtain ⟨text, htext, json, hjson, h⟩ := h
  split at h
  · cases h
  split at h
  · cases h
  simp only [claimedChallenge, hdata, htext, hjson, Option.bind_eq_bind, Option.bind_some, h]

/-- A registration redeems the challenge that its body is about. -/
theorem registration_taken {body : Value P.D.F} {purpose : π} {now : Instant} {challenges : List (Challenge π)}
    {value : Str} (h : (registration P body purpose now challenges).taken = some value) :
    claimedChallenge P body = some value := by
  unfold registration at h
  cases hid : credentialId body with
  | none =>
      rw [hid] at h
      cases h
  | some id =>
      rw [hid] at h
      dsimp only at h
      split at h
      · cases h
      · cases hdata : decodedField body "clientDataJSON".toList with
        | none =>
            rw [hdata] at h
            cases h
        | some clientData =>
            rw [hdata] at h
            exact claimedChallenge_of_presented hdata (ofClientData_taken h)

/-- A credential is registered under the id in its body. -/
theorem registration_answer {body : Value P.D.F} {purpose : π} {now : Instant} {challenges : List (Challenge π)}
    {id : Str} {publicKey : Bytes} (h : (registration P body purpose now challenges).answer = some (id, publicKey)) :
    credentialId body = some id := by
  unfold registration at h
  cases hid : credentialId body with
  | none =>
      rw [hid] at h
      cases h
  | some id' =>
      rw [hid] at h
      dsimp only at h
      split at h
      · cases h
      split at h
      · cases h
      have hanswer := ofClientData_answer h
      simp only [Option.bind_eq_bind, Option.bind_eq_some_iff] at hanswer
      obtain ⟨authData, -, hanswer⟩ := hanswer
      split at hanswer
      · simp only [Option.bind_eq_some_iff, Option.some.injEq, Prod.mk.injEq] at hanswer
        obtain ⟨spki, -, key, -, hsame, -⟩ := hanswer
        rw [hsame]
      · cases hanswer

/-- An assertion is answered with the stored passkey whose key admits its signature. -/
theorem verifyLogin_answer {purpose : π} {body : Value P.D.F} {now : Instant} {passkeys : List Passkey}
    {challenges : List (Challenge π)} {passkey : Passkey}
    (h : (verifyLogin P purpose body now passkeys challenges).answer = some passkey) :
    passkey ∈ passkeys ∧ SignedBy P body passkey := by
  unfold verifyLogin at h
  cases hfind : (credentialId body).bind fun id => passkeys.find? fun entry => entry.id = id with
  | none =>
      rw [hfind] at h
      cases h
  | some found =>
      rw [hfind] at h
      dsimp only at h
      cases hdata : decodedField body "clientDataJSON".toList with
      | none =>
          rw [hdata] at h
          cases h
      | some clientData =>
          rw [hdata] at h
          have hanswer := ofClientData_answer h
          simp only [Option.bind_eq_bind, Option.bind_eq_some_iff] at hanswer
          obtain ⟨authData, hauth, hanswer⟩ := hanswer
          split at hanswer
          · simp only [Option.bind_eq_some_iff] at hanswer
            obtain ⟨signature, hsignature, hanswer⟩ := hanswer
            split at hanswer
            · rename_i hverify
              cases hanswer
              obtain ⟨id, hid, hentry⟩ := Option.bind_eq_some_iff.mp hfind
              have hsame : passkey.id = id := by simpa using List.find?_some hentry
              exact ⟨List.mem_of_find?_eq_some hentry, hsame ▸ hid, clientData, authData, signature, hdata, hauth,
                hsignature, hverify⟩
            · cases hanswer
          · cases hanswer

end

/-! ## The records of the challenges -/

/-- The challenges of a store beside its history. -/
abbrev Pool (challenges : List (Challenge π)) (history : History π) : Prop :=
  Tickets.Inv Issue.value Issue.purpose challenges history.issued history.redeemed

@[simp] theorem History.redeem_issued (history : History π) (taken : Option Str) (purpose : π) (account : Option Str) :
    (history.redeem taken purpose account).issued = history.issued := by
  cases taken <;> rfl

@[simp] theorem History.redeem_registered (history : History π) (taken : Option Str) (purpose : π)
    (account : Option Str) : (history.redeem taken purpose account).registered = history.registered := by
  cases taken <;> rfl

/-- A ceremony redeems a challenge for the person it was issued for. -/
theorem Pool.ceremony {challenges left : List (Challenge π)} {history : History π} {purpose : π} {taken : Option Str}
    {account : Option Str} (h : Pool challenges history) (hspends : Spends purpose challenges taken left)
    (haccount : ∀ r ∈ history.issued, taken = some r.value → r.purpose = purpose → r.account = account) :
    Pool left (history.redeem taken purpose account) := by
  cases taken with
  | none => exact h.subset hspends.subset
  | some value =>
      obtain ⟨entry, hentry, hvalue, htag⟩ := hspends.held value rfl
      obtain ⟨-, r, hr, hrvalue, hrtag⟩ := h.outstanding entry hentry
      have hrecord : r = ⟨value, purpose, account⟩ := by
        have hracc := haccount r hr (by rw [hrvalue, hvalue]) (by rw [hrtag, htag])
        cases r with
        | mk v p a =>
            simp only at hrvalue hrtag hracc
            rw [hrvalue, hvalue, hrtag, htag, hracc]
      have hgone : ∀ other ∈ left, ¬(other.value = entry.value ∧ other.tag = entry.tag) := by
        rw [hvalue, htag]
        exact hspends.gone value rfl
      rw [hrecord] at hr
      exact h.redeem hentry hr hvalue.symm hspends.subset hgone

theorem Pool.singleUse {challenges : List (Challenge π)} {history : History π} (h : Pool challenges history) :
    history.SingleUse :=
  ⟨h.distinct, h.once, h.genuine⟩

/-! ## The console -/

namespace Console

structure Inv (s : Console) : Prop where
  pool : Pool s.challenges s.history
  /-- Only the challenges of the invite door are issued to somebody. -/
  anonymous : ∀ r ∈ s.history.issued, r.purpose ≠ .invite → r.account = none
  registered : s.passkeys ⊆ s.history.registered
  bounded : s.passkeys.length ≤ maxPasskeys

theorem Inv.load {passkeys : List Passkey} (h : passkeys.length ≤ maxPasskeys) : (Console.load passkeys).Inv :=
  ⟨.empty, by simp [Console.load], List.Subset.refl _, h⟩

theorem Inv.issue {s : Console} (h : s.Inv) {random : Option Bytes} (hfresh : s.Fresh random)
    {purpose : ConsolePurpose} {account : Option Str} (haccount : purpose ≠ .invite → account = none) (now : Instant) :
    (s.issue random purpose account now).Inv := by
  cases random with
  | none => exact h
  | some bytes =>
      refine ⟨h.pool.issue (r := ⟨b64urlEncode bytes, purpose, account⟩) rfl rfl (hfresh bytes rfl), ?_, h.registered,
        h.bounded⟩
      intro r hr
      rcases List.mem_append.mp hr with hr | hr
      · exact h.anonymous r hr
      · rw [List.mem_singleton.mp hr]
        exact haccount

theorem superseded_sublist (passkey : Passkey) (passkeys : List Passkey) :
    (superseded passkey passkeys).Sublist passkeys := List.filter_sublist

/-- Adding to a store within its bound: a refusal leaves it, unless the file could not be written. -/
theorem add_refused {passkey : Passkey} {passkeys : List Passkey} (h : passkeys.length ≤ maxPasskeys)
    (hadd : (add passkey true passkeys).1 = false) : (add passkey true passkeys).2 = passkeys := by
  unfold add at hadd ⊢
  dsimp only at hadd ⊢
  split at hadd
  · rename_i hfull
    rw [if_pos hfull]
    exact (superseded_sublist passkey passkeys).eq_of_length_le (h.trans hfull)
  · cases hadd

theorem add_added {passkey : Passkey} {written : Bool} {passkeys : List Passkey}
    (hadd : (add passkey written passkeys).1 = true) :
    (add passkey written passkeys).2 = superseded passkey passkeys ++ [passkey] ∧
      (superseded passkey passkeys).length < maxPasskeys := by
  unfold add at hadd ⊢
  dsimp only at hadd ⊢
  split at hadd
  · cases hadd
  · rename_i hroom
    rw [if_neg hroom]
    exact ⟨rfl, Nat.lt_of_not_le hroom⟩

theorem credentialsOf_superseded {u : Str} {passkey : Passkey} {passkeys : List Passkey}
    (hu : u ≠ passkey.holder) (h : ∀ entry ∈ passkeys, entry.id = passkey.id → entry.holder = passkey.holder) :
    credentialsOf u (superseded passkey passkeys ++ [passkey]) = credentialsOf u passkeys := by
  unfold credentialsOf superseded
  rw [List.filter_append, List.filter_filter]
  have hlast : [passkey].filter (fun entry => decide (entry.holder = u)) = [] := by
    simp [Ne.symm hu]
  rw [hlast, List.append_nil]
  apply List.filter_congr
  intro entry hentry
  by_cases hholder : entry.holder = u
  · have hother : entry.holder ≠ passkey.holder := hholder ▸ hu
    have hid : entry.id ≠ passkey.id := fun hid => hother (h entry hentry hid)
    simp [hholder, hu, hid]
  · simp [hholder]

/-- What a registration does: it spends a challenge, and either the passkeys stay or the new one supersedes others. -/
theorem registerAs_cases {s : Console} (h : s.Inv) (body : Value P.D.F) (purpose : ConsolePurpose) (user : Option Str)
    {moment : Moment} (hwritten : moment.written = true) :
    ∃ taken left, Spends purpose s.challenges taken left ∧
      (∀ value, taken = some value → claimedChallenge P body = some value) ∧
      (s.registerAs P body purpose user moment
          = (⟨left, s.passkeys, s.history.redeem taken purpose user⟩, none) ∨
        ∃ passkey, credentialId body = some passkey.id ∧ (∀ name, user = some name → passkey.holder = name) ∧
          (superseded passkey s.passkeys).length < maxPasskeys ∧
          s.registerAs P body purpose user moment
            = (⟨left, superseded passkey s.passkeys ++ [passkey],
                (s.history.redeem taken purpose user).register passkey⟩, some passkey)) := by
  refine ⟨(registration P body purpose moment.now s.challenges).taken,
    (registration P body purpose moment.now s.challenges).challenges, .registration body purpose moment.now s.challenges,
    fun value => registration_taken, ?_⟩
  unfold registerAs
  dsimp only
  cases hanswer : (registration P body purpose moment.now s.challenges).answer with
  | none => exact .inl rfl
  | some credential =>
      obtain ⟨id, publicKey⟩ := credential
      rw [hwritten]
      dsimp only
      generalize hpasskey : (⟨id, publicKey, user.getD (namedField body "user".toList defaultUser maxUserChars),
        namedField body "label".toList "passkey".toList maxLabelChars, moment.unix⟩ : Passkey) = passkey
      by_cases hadd : (add passkey true s.passkeys).1 = true
      · rw [if_pos hadd, (add_added hadd).1]
        refine .inr ⟨passkey, ?_, ?_, (add_added hadd).2, rfl⟩
        · rw [← hpasskey]
          exact registration_answer hanswer
        · intro name hname
          rw [← hpasskey, hname]
          rfl
      · have hrefused : (add passkey true s.passkeys).1 = false := by simpa using hadd
        rw [if_neg hadd, add_refused h.bounded hrefused]
        exact .inl rfl

/-- A registration that is refused leaves the passkeys. -/
theorem registerAs_refused {s : Console} (h : s.Inv) {body : Value P.D.F} {purpose : ConsolePurpose}
    {user : Option Str} {moment : Moment} (hwritten : moment.written = true)
    (hrefused : (s.registerAs P body purpose user moment).2 = none) :
    (s.registerAs P body purpose user moment).1.passkeys = s.passkeys := by
  obtain ⟨taken, left, -, -, hcases⟩ := registerAs_cases h body purpose user hwritten
  rcases hcases with heq | ⟨passkey, -, -, -, heq⟩
  · rw [heq]
  · rw [heq] at hrefused
    cases hrefused

/-- A registration under a given name leaves the credentials of everybody else whose ids it does not bear. -/
theorem registerAs_others {s : Console} (h : s.Inv) {body : Value P.D.F} {purpose : ConsolePurpose} {name u : Str}
    {moment : Moment} (hwritten : moment.written = true) (hu : u ≠ name)
    (hids : ∀ entry ∈ s.passkeys, credentialId body = some entry.id → entry.holder = name) :
    credentialsOf u (s.registerAs P body purpose (some name) moment).1.passkeys = credentialsOf u s.passkeys := by
  obtain ⟨taken, left, -, -, hcases⟩ := registerAs_cases h body purpose (some name) hwritten
  rcases hcases with heq | ⟨passkey, hid, hholder, -, heq⟩
  · rw [heq]
  · rw [heq]
    have hname := hholder name rfl
    apply credentialsOf_superseded
    · rw [hname]
      exact hu
    · intro entry hentry hsame
      rw [hname]
      exact hids entry hentry (hid.trans (congrArg some hsame.symm))

theorem Inv.registerAs {s : Console} (h : s.Inv) {body : Value P.D.F} {purpose : ConsolePurpose} {user : Option Str}
    {moment : Moment} (hwritten : moment.written = true)
    (haccount : ∀ r ∈ s.history.issued, claimedChallenge P body = some r.value → r.purpose = purpose →
      r.account = user) :
    (s.registerAs P body purpose user moment).1.Inv := by
  obtain ⟨taken, left, hspends, hclaimed, hcases⟩ := registerAs_cases h body purpose user hwritten
  have hpool : Pool left (s.history.redeem taken purpose user) :=
    h.pool.ceremony hspends fun r hr htaken => haccount r hr (hclaimed r.value htaken)
  rcases hcases with heq | ⟨passkey, -, -, hroom, heq⟩
  · rw [heq]
    exact ⟨hpool, by simpa using h.anonymous, by simpa using h.registered, h.bounded⟩
  · rw [heq]
    refine ⟨hpool, by simpa [History.register] using h.anonymous, ?_, ?_⟩
    · intro entry hentry
      simp only [History.register, History.redeem_registered, List.mem_append] at hentry ⊢
      rcases hentry with hentry | hentry
      · exact .inl (h.registered ((superseded_sublist passkey s.passkeys).subset hentry))
      · exact .inr hentry
    · rw [List.length_append]
      exact hroom

theorem Inv.step {s : Console} (h : s.Inv) {event : Event P.D.F} (hsound : s.Sound P event) :
    (s.handle P event).1.Inv := by
  cases event with
  | challenge purpose random now => exact h.issue hsound (fun _ => rfl) now
  | inviteChallenge name random now => exact h.issue hsound (fun hne => absurd rfl hne) now
  | register body moment =>
      exact h.registerAs hsound fun r hr _ hpurpose => h.anonymous r hr (by simp [hpurpose])
  | registerInvited name body moment => exact h.registerAs hsound.1 hsound.2.2
  | login body now =>
      refine ⟨h.pool.ceremony (.verifyLogin .login body now s.passkeys s.challenges) fun r hr _ hpurpose =>
        h.anonymous r hr (by simp [hpurpose]), ?_, ?_, h.bounded⟩
      · simpa [handle, login] using h.anonymous
      · simpa [handle, login] using h.registered
  | remove id =>
      exact ⟨h.pool, h.anonymous, fun entry hentry => h.registered (List.mem_of_mem_filter hentry),
        (List.length_filter_le _ _).trans h.bounded⟩

/-- What one operation may do in a state that was reached. -/
theorem Inv.kept {s : Console} (h : s.Inv) {event : Event P.D.F} (hsound : s.Sound P event) :
    Kept P event.Authorises event.Registers event.assertion s.history.registered s.passkeys
      (s.handle P event).1.passkeys (s.handle P event).2 := by
  cases event with
  | challenge purpose random now =>
      exact ⟨fun _ _ => by cases random <;> rfl, fun hreg => hreg.elim, fun _ _ hbody => (nomatch hbody)⟩
  | inviteChallenge name random now =>
      exact ⟨fun _ _ => by cases random <;> rfl, fun hreg => hreg.elim, fun _ _ hbody => (nomatch hbody)⟩
  | register body moment =>
      exact ⟨fun _ hnot => absurd trivial hnot, fun _ hrefused => registerAs_refused h hsound hrefused,
        fun _ _ hbody => (nomatch hbody)⟩
  | registerInvited name body moment =>
      obtain ⟨hwritten, hids, -⟩ := hsound
      exact ⟨fun _ hu => registerAs_others h hwritten hu hids, fun _ hrefused => registerAs_refused h hwritten hrefused,
        fun _ _ hbody => (nomatch hbody)⟩
  | login body now =>
      refine ⟨fun _ _ => rfl, fun hreg => hreg.elim, ?_⟩
      intro body' passkey hbody hanswer
      cases hbody
      obtain ⟨hmem, hsigned⟩ := verifyLogin_answer hanswer
      exact ⟨h.registered hmem, hsigned⟩
  | remove id => exact ⟨fun _ hnot => absurd trivial hnot, fun hreg => hreg.elim, fun _ _ hbody => (nomatch hbody)⟩

end Console

/-! ## The reports door -/

namespace Reports

structure Inv (s : Reports) : Prop where
  pool : Pool s.challenges s.history
  anonymous : ∀ r ∈ s.history.issued, r.purpose ≠ .register → r.account = none
  /-- A binding is to the account that its challenge was issued for. -/
  bound : ∀ entry ∈ s.bound, ⟨entry.value, .register, some entry.tag⟩ ∈ s.history.issued
  registered : s.passkeys ⊆ s.history.registered

theorem Inv.load (passkeys : List Passkey) : (Reports.load passkeys).Inv :=
  ⟨.empty, by simp [Reports.load], by simp [Reports.load], List.Subset.refl _⟩

theorem Inv.issue {s : Reports} (h : s.Inv) {random : Option Bytes} (hfresh : s.Fresh random)
    {purpose : ReportsPurpose} {account : Option Str} (haccount : purpose ≠ .register → account = none)
    (now : Instant) : (s.issue random purpose account now).Inv := by
  cases random with
  | none => exact h
  | some bytes =>
      refine ⟨h.pool.issue (r := ⟨b64urlEncode bytes, purpose, account⟩) rfl rfl (hfresh bytes rfl), ?_, ?_,
        h.registered⟩
      · intro r hr
        rcases List.mem_append.mp hr with hr | hr
        · exact h.anonymous r hr
        · rw [List.mem_singleton.mp hr]
          exact haccount
      · exact fun entry hentry => List.mem_append_left _ (h.bound entry hentry)

theorem Inv.startRegistration {s : Reports} (h : s.Inv) {random : Option Bytes} (hfresh : s.Fresh random)
    (accountId : Str) (now : Instant) : (s.startRegistration accountId random now).Inv := by
  cases random with
  | none => exact h
  | some bytes =>
      have hissued : (s.issue (some bytes) .register (some accountId) now).Inv :=
        h.issue hfresh (fun hne => absurd rfl hne) now
      refine ⟨hissued.pool, hissued.anonymous, ?_, hissued.registered⟩
      intro entry hentry
      rcases Tickets.mem_issue hentry with hentry | rfl
      · exact List.mem_append_left _ (h.bound entry hentry)
      · exact List.mem_append_right _ (List.mem_singleton_self _)

theorem binding_mem {challenge : Str} {now : Instant} {bound : List (Ticket Str Str)} {accountId : Str}
    (h : binding challenge now bound = some accountId) :
    ∃ entry ∈ bound, entry.value = challenge ∧ entry.tag = accountId := by
  obtain ⟨entry, hlast, htag⟩ := Option.map_eq_some_iff.mp h
  obtain ⟨hmem, hhit⟩ := Tickets.mem_taken (List.mem_of_getLast? hlast)
  exact ⟨entry, hmem, by simpa using hhit, htag⟩

/-- Adding: a refusal leaves the passkeys, unless the file could not be written. -/
theorem add_cases (passkey : Passkey) (passkeys : List Passkey) :
    add passkey true passkeys = (false, passkeys) ∨
      add passkey true passkeys = (true, (passkeys.filter fun entry => entry.id ≠ passkey.id) ++ [passkey]) := by
  unfold add
  split
  · exact .inl rfl
  · split
    · exact .inl rfl
    · exact .inr rfl

theorem credentialsOf_replaced {u : Str} {passkey : Passkey} {passkeys : List Passkey} (hu : u ≠ passkey.holder)
    (h : ∀ entry ∈ passkeys, entry.id = passkey.id → entry.holder = passkey.holder) :
    credentialsOf u ((passkeys.filter fun entry => entry.id ≠ passkey.id) ++ [passkey]) = credentialsOf u passkeys := by
  unfold credentialsOf
  rw [List.filter_append, List.filter_filter]
  have hlast : [passkey].filter (fun entry => decide (entry.holder = u)) = [] := by
    simp [Ne.symm hu]
  rw [hlast, List.append_nil]
  apply List.filter_congr
  intro entry hentry
  by_cases hholder : entry.holder = u
  · have hid : entry.id ≠ passkey.id := fun hid => hu (hholder.symm.trans (h entry hentry hid))
    simp [hid]
  · simp [hholder]

theorem register_cases (s : Reports) (accountId : Str) (body : Value P.D.F) {moment : Moment}
    (hwritten : moment.written = true) :
    ∃ taken left, Spends .register s.challenges taken left ∧
      (∀ value, taken = some value → claimedChallenge P body = some value) ∧
      (s.register P accountId body moment
          = (⟨left, s.bound, s.passkeys, s.history.redeem taken .register (some accountId)⟩, none) ∨
        ∃ passkey, credentialId body = some passkey.id ∧ passkey.holder = accountId ∧
          s.register P accountId body moment
            = (⟨left, s.bound, (s.passkeys.filter fun entry => entry.id ≠ passkey.id) ++ [passkey],
                (s.history.redeem taken .register (some accountId)).register passkey⟩, some passkey)) := by
  refine ⟨(registration P body ReportsPurpose.register moment.now s.challenges).taken,
    (registration P body ReportsPurpose.register moment.now s.challenges).challenges,
    .registration body .register moment.now s.challenges, fun value => registration_taken, ?_⟩
  unfold register
  dsimp only
  cases hanswer : (registration P body ReportsPurpose.register moment.now s.challenges).answer with
  | none => exact .inl rfl
  | some credential =>
      obtain ⟨id, publicKey⟩ := credential
      rw [hwritten]
      dsimp only
      generalize hpasskey : (⟨id, publicKey, accountId, namedField body "label".toList "passkey".toList maxLabelChars,
        moment.unix⟩ : Passkey) = passkey
      rcases add_cases passkey s.passkeys with hadd | hadd
      · rw [hadd]
        exact .inl rfl
      · rw [hadd]
        refine .inr ⟨passkey, ?_, ?_, rfl⟩
        · rw [← hpasskey]
          exact registration_answer hanswer
        · rw [← hpasskey]

/-- What a finished registration does: without a binding nothing but the bindings; with one it spends the challenge for
the account of the binding. -/
theorem finishRegistration_cases (s : Reports) (body : Value P.D.F) {moment : Moment}
    (hwritten : moment.written = true) :
    ∃ rest, rest ⊆ s.bound ∧
      (s.finishRegistration P body moment = ({ s with bound := rest }, none) ∨
        ∃ accountId taken left, s.accountFor P body moment.now = some accountId ∧
          (∃ entry ∈ s.bound, claimedChallenge P body = some entry.value ∧ entry.tag = accountId) ∧
          Spends .register s.challenges taken left ∧
          (∀ value, taken = some value → claimedChallenge P body = some value) ∧
          (s.finishRegistration P body moment
              = (⟨left, rest, s.passkeys, s.history.redeem taken .register (some accountId)⟩, none) ∨
            ∃ passkey, credentialId body = some passkey.id ∧ passkey.holder = accountId ∧
              s.finishRegistration P body moment
                = (⟨left, rest, (s.passkeys.filter fun entry => entry.id ≠ passkey.id) ++ [passkey],
                    (s.history.redeem taken .register (some accountId)).register passkey⟩, some passkey))) := by
  cases hclaimed : claimedChallenge P body with
  | none =>
      refine ⟨s.bound, List.Subset.refl _, .inl ?_⟩
      simp only [finishRegistration, hclaimed]
  | some challenge =>
      generalize hrest : Tickets.left challengeLifetime moment.now (fun entry => entry.value = challenge) s.bound = rest
      refine ⟨rest, fun entry hentry => (Tickets.mem_left (hrest ▸ hentry)).1, ?_⟩
      cases hbinding : binding challenge moment.now s.bound with
      | none =>
          refine .inl ?_
          simp only [finishRegistration, hclaimed, hbinding, hrest]
      | some accountId =>
          obtain ⟨entry, hentry, hvalue, htag⟩ := binding_mem hbinding
          obtain ⟨taken, left, hspends, htaken, hcases⟩ :=
            register_cases (P := P) { s with bound := rest } accountId body hwritten
          refine .inr ⟨accountId, taken, left, by simp [accountFor, hclaimed, hbinding], ?_, hspends, ?_, ?_⟩
          · exact ⟨entry, hentry, congrArg some hvalue.symm, htag⟩
          · exact fun value hsome => hclaimed ▸ htaken value hsome
          · simp only [finishRegistration, hclaimed, hbinding, hrest]
            exact hcases

theorem Inv.finishRegistration {s : Reports} (h : s.Inv) (body : Value P.D.F) {moment : Moment}
    (hwritten : moment.written = true) : (s.finishRegistration P body moment).1.Inv := by
  obtain ⟨rest, hrest, hcases⟩ := finishRegistration_cases (P := P) s body hwritten
  have hbound : ∀ entry ∈ rest, ⟨entry.value, .register, some entry.tag⟩ ∈ s.history.issued :=
    fun entry hentry => h.bound entry (hrest hentry)
  rcases hcases with heq | ⟨accountId, taken, left, -, ⟨entry, hentry, hvalue, htag⟩, hspends, htaken, hcases⟩
  · rw [heq]
    exact ⟨h.pool, h.anonymous, hbound, h.registered⟩
  · -- the record of the challenge is the one that the binding was made with
    have hpool : Pool left (s.history.redeem taken .register (some accountId)) := by
      refine h.pool.ceremony hspends fun r hr hsome _ => ?_
      have hsame : r.value = entry.value := Option.some.inj ((htaken r.value hsome).symm.trans hvalue)
      have hrecord : r = ⟨entry.value, .register, some entry.tag⟩ :=
        List.inj_on_of_nodup_map h.pool.distinct hr (h.bound entry hentry) hsame
      rw [hrecord, htag]
    rcases hcases with heq | ⟨passkey, -, -, heq⟩
    · rw [heq]
      exact ⟨hpool, by simpa using h.anonymous, by simpa using hbound, by simpa using h.registered⟩
    · rw [heq]
      refine ⟨hpool, by simpa [History.register] using h.anonymous, by simpa [History.register] using hbound, ?_⟩
      intro entry hentry
      simp only [History.register, History.redeem_registered, List.mem_append] at hentry ⊢
      rcases hentry with hentry | hentry
      · exact .inl (h.registered (List.mem_of_mem_filter hentry))
      · exact .inr hentry

theorem finishRegistration_refused {s : Reports} {body : Value P.D.F} {moment : Moment}
    (hwritten : moment.written = true) (hrefused : (s.finishRegistration P body moment).2 = none) :
    (s.finishRegistration P body moment).1.passkeys = s.passkeys := by
  obtain ⟨rest, -, hcases⟩ := finishRegistration_cases (P := P) s body hwritten
  rcases hcases with heq | ⟨accountId, taken, left, -, -, -, -, heq | ⟨passkey, -, -, heq⟩⟩
  · rw [heq]
  · rw [heq]
  · rw [heq] at hrefused
    cases hrefused

theorem finishRegistration_others {s : Reports} {body : Value P.D.F} {moment : Moment} {u : Str}
    (hwritten : moment.written = true) (hu : s.accountFor P body moment.now ≠ some u)
    (hids : ∀ entry ∈ s.passkeys, credentialId body = some entry.id →
      s.accountFor P body moment.now = some entry.holder) :
    credentialsOf u (s.finishRegistration P body moment).1.passkeys = credentialsOf u s.passkeys := by
  obtain ⟨rest, -, hcases⟩ := finishRegistration_cases (P := P) s body hwritten
  rcases hcases with heq | ⟨accountId, taken, left, haccount, -, -, -, heq | ⟨passkey, hid, hholder, heq⟩⟩
  · rw [heq]
  · rw [heq]
  · rw [heq]
    apply credentialsOf_replaced
    · intro hsame
      exact hu (by rw [haccount, hsame, hholder])
    · intro entry hentry hsame
      have hentryHolder := hids entry hentry (hid.trans (congrArg some hsame.symm))
      rw [hholder]
      exact Option.some.inj (hentryHolder.symm.trans haccount)

theorem credentialsOf_remove {u accountId id : Str} (hu : u ≠ accountId) (s : Reports) :
    credentialsOf u (s.remove accountId id).passkeys = credentialsOf u s.passkeys := by
  unfold credentialsOf remove
  rw [List.filter_filter]
  apply List.filter_congr
  intro entry _
  by_cases hholder : entry.holder = u
  · simp [hholder, hu]
  · simp [hholder]

theorem Inv.step {s : Reports} (h : s.Inv) {event : Event P.D.F} (hsound : s.Sound P event) :
    (s.handle P event).1.Inv := by
  cases event with
  | challenge purpose random now => exact h.issue hsound (fun _ => rfl) now
  | startRegistration accountId random now => exact h.startRegistration hsound accountId now
  | finishRegistration body moment => exact h.finishRegistration body hsound.1
  | login body now =>
      refine ⟨h.pool.ceremony (.verifyLogin .login body now s.passkeys s.challenges) fun r hr _ hpurpose =>
        h.anonymous r hr (by simp [hpurpose]), ?_, ?_, ?_⟩
      · simpa [handle, login] using h.anonymous
      · simpa [handle, login] using h.bound
      · simpa [handle, login] using h.registered
  | remove accountId id =>
      exact ⟨h.pool, h.anonymous, h.bound, fun entry hentry => h.registered (List.mem_of_mem_filter hentry)⟩

theorem Inv.kept {s : Reports} (h : s.Inv) {event : Event P.D.F} (hsound : s.Sound P event) :
    Kept P (s.Authorises P event) event.Registers event.assertion s.history.registered s.passkeys
      (s.handle P event).1.passkeys (s.handle P event).2 := by
  cases event with
  | challenge purpose random now =>
      exact ⟨fun _ _ => by cases random <;> rfl, fun hreg => hreg.elim, fun _ _ hbody => (nomatch hbody)⟩
  | startRegistration accountId random now =>
      exact ⟨fun _ _ => by cases random <;> rfl, fun hreg => hreg.elim, fun _ _ hbody => (nomatch hbody)⟩
  | finishRegistration body moment =>
      obtain ⟨hwritten, hids⟩ := hsound
      exact ⟨fun _ hu => finishRegistration_others hwritten hu hids,
        fun _ hrefused => finishRegistration_refused hwritten hrefused, fun _ _ hbody => (nomatch hbody)⟩
  | login body now =>
      refine ⟨fun _ _ => rfl, fun hreg => hreg.elim, ?_⟩
      intro body' passkey hbody hanswer
      cases hbody
      obtain ⟨hmem, hsigned⟩ := verifyLogin_answer hanswer
      exact ⟨h.registered hmem, hsigned⟩
  | remove accountId id =>
      exact ⟨fun _ hu => credentialsOf_remove hu s, fun hreg => hreg.elim, fun _ _ hbody => (nomatch hbody)⟩

end Reports

end Selfhost.Webauthn
