import Selfhost.Desk.Grant
import Selfhost.Lib.Slice
import Selfhost.Lib.Fallible
import Selfhost.Lib.Machine

/-!
# What a ticket may do

A ticket is found once, in the session that minted it, before it expires. What it yields is what the policy allowed of
what was asked for, and the view, which goes with every grant.
-/

namespace Selfhost.Desk

open Selfhost.Lib

/-! ## Capabilities -/

namespace Capabilities

variable {set other extra : Capabilities}

@[simp] theorem contains_self : set.contains set = true := by simp [contains]

private theorem and_or_absorb (a b : UInt8) : a &&& (a ||| b) = a := by
  rw [← UInt8.toBitVec_inj, UInt8.toBitVec_and, UInt8.toBitVec_or]
  ext i hi
  simpa using .inl

private theorem or_and_absorb (a b : UInt8) : a ||| a &&& b = a := by
  rw [← UInt8.toBitVec_inj, UInt8.toBitVec_or, UInt8.toBitVec_and]
  ext i hi
  simpa using fun ha _ => ha

private theorem and_or_distrib (a b c : UInt8) : a &&& (b ||| c) = a &&& b ||| a &&& c :=
  UInt8.toBitVec_inj.mp BitVec.and_or_distrib_left

@[simp] theorem contains_with : set.contains (other.with_ extra) = (set.contains other && set.contains extra) := by
  obtain ⟨s⟩ := set
  obtain ⟨a⟩ := other
  obtain ⟨b⟩ := extra
  rw [Bool.eq_iff_iff, Bool.and_eq_true]
  simp only [contains, with_, beq_iff_eq]
  constructor
  · intro h
    constructor
    · calc s &&& a = s &&& (a &&& (a ||| b)) := by rw [and_or_absorb]
        _ = a &&& (s &&& (a ||| b)) := by rw [← UInt8.and_assoc, UInt8.and_comm s a, UInt8.and_assoc]
        _ = a := by rw [h, and_or_absorb]
    · calc s &&& b = s &&& (b &&& (a ||| b)) := by rw [UInt8.or_comm, and_or_absorb]
        _ = b &&& (s &&& (a ||| b)) := by rw [← UInt8.and_assoc, UInt8.and_comm s b, UInt8.and_assoc]
        _ = b := by rw [h, UInt8.or_comm, and_or_absorb]
  · rintro ⟨ha, hb⟩
    rw [and_or_distrib, ha, hb]

/-- A set that grows still contains what it contained. -/
theorem contains_of_with (h : set.contains other = true) : (set.with_ extra).contains other = true := by
  obtain ⟨s⟩ := set
  obtain ⟨a⟩ := other
  obtain ⟨b⟩ := extra
  simp only [contains, with_, beq_iff_eq] at h ⊢
  calc (s ||| b) &&& a = a &&& (s ||| b) := UInt8.and_comm _ _
    _ = a &&& s ||| a &&& b := and_or_distrib a s b
    _ = a ||| a &&& b := by rw [UInt8.and_comm a s, h]
    _ = a := or_and_absorb a b

theorem contains_view : (set.with_ .view).contains .view = true := by
  obtain ⟨s⟩ := set
  simp only [contains, with_, beq_iff_eq, view]
  rw [UInt8.or_comm, UInt8.and_comm, and_or_absorb]

end Capabilities

/-! ## Comparing and finding -/

theorem constantTimeEq_iff {expected actual : Bytes} : constantTimeEq expected actual = true ↔ expected = actual := by
  unfold constantTimeEq
  split
  · rename_i hlen
    simp only [Bool.false_eq_true, false_iff]
    rintro rfl
    exact hlen rfl
  · rename_i hlen
    rw [beq_iff_eq, ← differences_eq_zero_iff (not_not.mp hlen), List.foldl_map]

theorem constantTimeEq_utf8_iff {a b : Str} : constantTimeEq (utf8 a) (utf8 b) = true ↔ a = b := by
  rw [constantTimeEq_iff]
  constructor
  · intro h
    have hdecode := congrArg fromUtf8 h
    rw [fromUtf8_utf8, fromUtf8_utf8] at hdecode
    exact Option.some.inj hdecode
  · rintro rfl
    rfl

theorem Ticket.eq_of_bytes {a b : Ticket} (h : a.bytes = b.bytes) : a = b := by
  cases a
  cases b
  cases h
  rfl

theorem Ticket.parseHex_error {text : Str} {error : GrantError} (h : parseHex text = .error error) :
    error = .malformed := by
  unfold parseHex at h
  dsimp only at h
  split at h
  · split at h <;> cases h
    rfl
  · cases h
    rfl

theorem foldl_last {α : Type} {p : α → Bool} (l : List α) (found : Option α) :
    l.foldl (fun found entry => if p entry then some entry else found) found = (l.reverse.find? p).or found := by
  induction l generalizing found with
  | nil => rfl
  | cons x l ih =>
      rw [List.foldl_cons, ih, List.reverse_cons, List.find?_append, Option.or_assoc]
      congr 1
      by_cases h : p x <;> simp [h]

namespace Grants

variable {grants : Grants} {last now : Instant} {request : TicketRequest} {policy : Policy} {capabilities : Capabilities}

theorem found_some {ticket : Ticket} {grant : Grant} {index : Nat} (h : grants.found ticket = some (grant, index)) :
    grants.outstanding[index]? = some grant ∧ grant.ticket = ticket := by
  rw [found, foldl_last, Option.or_none] at h
  have hmem := List.mem_reverse.mp (List.mem_of_find?_eq_some h)
  have heq := List.find?_some h
  exact ⟨List.mem_zipIdx_iff_getElem?.mp hmem, Ticket.eq_of_bytes (constantTimeEq_iff.mp heq)⟩

theorem found_none {ticket : Ticket} (h : grants.found ticket = none) :
    ∀ grant ∈ grants.outstanding, grant.ticket ≠ ticket := by
  rw [found, foldl_last, Option.or_none, List.find?_eq_none] at h
  rintro grant hmem rfl
  obtain ⟨index, hindex⟩ := List.mem_iff_getElem?.mp hmem
  exact h (grant, index) (List.mem_reverse.mpr (List.mem_zipIdx_iff_getElem?.mpr hindex)) (constantTimeEq_iff.mpr rfl)

theorem mem_purgeExpired {grant : Grant} :
    grant ∈ (grants.purgeExpired now).outstanding ↔ grant ∈ grants.outstanding ∧ now < grant.expires := by
  simp [purgeExpired]

/-! ## What is granted -/

theorem allow_ok {wanted granted extra out : Capabilities} {enabled : Bool} {refusal : GrantError} {freshness : Freshness}
    (h : allow (wanted.contains extra) enabled refusal freshness granted extra = .ok out)
    (hgranted : (wanted.with_ .view).contains granted = true) : (wanted.with_ .view).contains out = true := by
  unfold allow at h
  split at h
  · rename_i hasked
    split at h
    · cases h
    · split at h
      · cases h
      · cases h
        rw [Capabilities.contains_with, hgranted, Bool.true_and]
        exact Capabilities.contains_of_with hasked
  · cases h
    exact hgranted

/-- What is granted was asked for, or is the view. -/
theorem contains_decide (h : decide request policy now = .ok capabilities) :
    (request.wanted.with_ .view).contains capabilities = true := by
  unfold decide at h
  split at h
  · cases h
  · obtain ⟨granted, hcontrol, hclipboard⟩ := bind_ok h
    exact allow_ok hclipboard (allow_ok hcontrol Capabilities.contains_view)

/-! ## The operations -/

theorem mint_cases (entropy : Ticket) :
    (∃ error, grants.mint last request policy entropy now = (.error error, grants.purgeExpired now)) ∨
      ∃ grant, grants.mint last request policy entropy now =
          (.ok grant, ⟨(grants.purgeExpired now).outstanding ++ [grant]⟩) ∧
        (grants.purgeExpired now).outstanding.length < maxOutstanding ∧
        decide request policy now = .ok grant.capabilities ∧
        grant = ⟨entropy, request.session, request.peer, grant.capabilities, now + ticketTtl⟩ := by
  unfold mint
  dsimp only
  split
  · exact .inl ⟨_, rfl⟩
  · rename_i hroom
    split
    · exact .inl ⟨_, rfl⟩
    · rename_i capabilities hdecide
      split
      · exact .inr ⟨_, rfl, Nat.lt_of_not_ge hroom, hdecide, rfl⟩
      · exact .inl ⟨_, rfl⟩

end Grants

/-- What a minted ticket is for, and until when. -/
structure Minted.Decided (m : Minted) : Prop where
  decided : Grants.decide m.request m.policy m.now = .ok m.grant.capabilities
  session : m.grant.session = m.request.session
  peer : m.grant.peer = m.request.peer
  expires : m.grant.expires = m.now + ticketTtl

/-- How an attempt ends that finds its ticket. -/
structure Spent.Settled (s : Spent) : Prop where
  live : s.now < s.grant.expires
  result : s.result = if s.grant.session = s.session then .ok ⟨s.grant.session, s.grant.peer, s.grant.capabilities⟩
    else .error .wrongSession

namespace GrantBook

variable {book book' : GrantBook} {last now : Instant} {presented : Str} {session : SessionId}

theorem redeem_cases (book : GrantBook) (presented : Str) (session : SessionId) (now : Instant) :
    (∃ error, Ticket.parseHex presented = .error error ∧ book.hit presented now = none ∧
      book.grants.redeem presented session now = (.error error, book.grants.purgeExpired now)) ∨
    (∃ ticket, Ticket.parseHex presented = .ok ticket ∧ book.hit presented now = none ∧
      (∀ grant ∈ (book.grants.purgeExpired now).outstanding, grant.ticket ≠ ticket) ∧
      book.grants.redeem presented session now = (.error .noSuchTicket, book.grants.purgeExpired now)) ∨
    ∃ grant index, Ticket.parseHex presented = .ok grant.ticket ∧ book.hit presented now = some grant ∧
      (book.grants.purgeExpired now).outstanding[index]? = some grant ∧
      book.grants.redeem presented session now =
        (if grant.session = session then .ok ⟨grant.session, grant.peer, grant.capabilities⟩ else .error .wrongSession,
          ⟨(book.grants.purgeExpired now).outstanding.eraseIdx index⟩) := by
  unfold Grants.redeem hit
  dsimp only
  cases hparse : Ticket.parseHex presented with
  | error error => exact .inl ⟨error, rfl, rfl, rfl⟩
  | ok ticket =>
      dsimp only
      cases hfound : (book.grants.purgeExpired now).found ticket with
      | none => exact .inr (.inl ⟨ticket, rfl, rfl, Grants.found_none hfound, rfl⟩)
      | some place =>
          obtain ⟨grant, index⟩ := place
          obtain ⟨hat, rfl⟩ := Grants.found_some hfound
          refine .inr (.inr ⟨grant, index, rfl, rfl, hat, ?_⟩)
          dsimp only
          by_cases hsame : grant.session = session
          · rw [constantTimeEq_utf8_iff.mpr hsame, if_pos hsame]
            rfl
          · rw [Bool.eq_false_iff.mpr (mt constantTimeEq_utf8_iff.mp hsame), if_neg hsame]
            rfl

theorem redeem_recorded {redemption : Redemption}
    (h : (book.grants.redeem presented session now).1 = .ok redemption) : ∃ grant, book.hit presented now = some grant := by
  rcases redeem_cases book presented session now with ⟨_, -, -, heq⟩ | ⟨_, -, -, -, heq⟩ | ⟨grant, _, -, hhit, -⟩
  · rw [heq] at h
    cases h
  · rw [heq] at h
    cases h
  · exact ⟨grant, hhit⟩

theorem redeem_malformed {error : GrantError} (h : Ticket.parseHex presented = .error error) :
    book.grants.redeem presented session now = (.error .malformed, book.grants.purgeExpired now) := by
  rw [Grants.redeem, h, Ticket.parseHex_error h]

/-! ## Whole runs -/

def entry (grant : Grant) : Lib.Ticket Ticket Grant := ⟨grant.ticket, grant, 0⟩

structure Inv (book : GrantBook) : Prop where
  tickets : Tickets.Inv Grant.ticket id (book.grants.outstanding.map entry) (book.minted.map Minted.grant)
    (book.spent.map Spent.grant)
  distinct : (book.grants.outstanding.map Grant.ticket).Nodup
  drawn : ∀ m ∈ book.minted, m.grant.ticket ∈ book.drawn
  decided : ∀ m ∈ book.minted, m.Decided
  settled : ∀ s ∈ book.spent, s.Settled
  bounded : book.grants.outstanding.length ≤ maxOutstanding

theorem Inv.opened : Inv opened where
  tickets := Tickets.Inv.empty
  distinct := List.nodup_nil
  drawn := by simp [GrantBook.opened]
  decided := by simp [GrantBook.opened]
  settled := by simp [GrantBook.opened]
  bounded := Nat.zero_le _

theorem purged_sublist (grants : Grants) (now : Instant) :
    (grants.purgeExpired now).outstanding.Sublist grants.outstanding := List.filter_sublist

/-- Tickets that go away without being found. -/
theorem Inv.shrink (h : book.Inv) {grants : Grants} (hsub : grants.outstanding.Sublist book.grants.outstanding)
    (clock : Instant) : Inv { book with grants := grants, clock := clock } where
  tickets := h.tickets.subset (List.map_subset entry hsub.subset)
  distinct := h.distinct.sublist (hsub.map _)
  drawn := h.drawn
  decided := h.decided
  settled := h.settled
  bounded := Nat.le_trans hsub.length_le h.bounded

theorem Inv.draw (h : book.Inv) (entropy : Ticket) : Inv { book with drawn := book.drawn ++ [entropy] } where
  tickets := h.tickets
  distinct := h.distinct
  drawn := fun m hm => List.mem_append_left _ (h.drawn m hm)
  decided := h.decided
  settled := h.settled
  bounded := h.bounded

theorem Inv.push (h : book.Inv) {m : Minted} (hm : m.Decided) (hfresh : m.grant.ticket ∉ book.drawn)
    (hroom : book.grants.outstanding.length < maxOutstanding) (clock : Instant) :
    Inv { book with
      grants := ⟨book.grants.outstanding ++ [m.grant]⟩
      clock := clock
      drawn := book.drawn ++ [m.grant.ticket]
      minted := book.minted ++ [m] } where
  tickets := by
    simp only [List.map_append, List.map_singleton]
    refine @Tickets.Inv.push _ _ _ _ _ _ _ _ _ h.tickets (entry m.grant) m.grant rfl rfl ?_ ?_
    · intro hmem
      rw [List.map_map] at hmem
      obtain ⟨m', hm', heq⟩ := List.mem_map.mp hmem
      exact hfresh (heq ▸ h.drawn m' hm')
    · intro e he
      simpa [or_comm] using he
  distinct := by
    rw [List.map_append]
    refine List.nodup_append'.mpr ⟨h.distinct, List.nodup_singleton _, ?_⟩
    rw [List.map_singleton, List.disjoint_singleton]
    intro hmem
    obtain ⟨grant, hgrant, heq⟩ := List.mem_map.mp hmem
    obtain ⟨-, r, hr, hvalue, -⟩ := h.tickets.outstanding (entry grant) (List.mem_map_of_mem hgrant)
    obtain ⟨m', hm', rfl⟩ := List.mem_map.mp hr
    have hsame : m'.grant.ticket = m.grant.ticket := hvalue.trans heq
    exact hfresh (hsame ▸ h.drawn m' hm')
  drawn := by
    intro m' hm'
    rcases List.mem_append.mp hm' with hm' | hm'
    · exact List.mem_append_left _ (h.drawn m' hm')
    · rw [List.mem_singleton.mp hm']
      exact List.mem_append_right _ (List.mem_singleton_self _)
  decided := by
    intro m' hm'
    rcases List.mem_append.mp hm' with hm' | hm'
    · exact h.decided m' hm'
    · rw [List.mem_singleton.mp hm']
      exact hm
  settled := h.settled
  bounded := by
    rw [List.length_append, List.length_singleton]
    exact hroom

/-- A ticket that is found does not stay. -/
theorem gone_of_erase (h : book.Inv) {grant : Grant} {index : Nat}
    (hat : book.grants.outstanding[index]? = some grant) :
    ∀ other ∈ book.grants.outstanding.eraseIdx index, other.ticket ≠ grant.ticket := by
  intro other hother heq
  obtain ⟨place, hplace, hne, rfl⟩ := List.mem_eraseIdx_iff_getElem.mp hother
  obtain ⟨hindex, rfl⟩ := List.getElem?_eq_some_iff.mp hat
  have hboth : (book.grants.outstanding.map Grant.ticket)[place]? = (book.grants.outstanding.map Grant.ticket)[index]? := by
    simp [hplace, hindex, heq]
  exact hne ((List.getElem?_inj (by simpa using hplace) h.distinct).mp hboth)

theorem Inv.spend (h : book.Inv) {s : Spent} {index : Nat} (hs : s.Settled)
    (hat : book.grants.outstanding[index]? = some s.grant) (clock : Instant) :
    Inv { book with
      grants := ⟨book.grants.outstanding.eraseIdx index⟩
      clock := clock
      spent := book.spent ++ [s] } where
  tickets := by
    have hmem := List.mem_of_getElem? hat
    obtain ⟨-, r, hr, hvalue, htag⟩ := h.tickets.outstanding (entry s.grant) (List.mem_map_of_mem hmem)
    have hsame : r = s.grant := htag
    subst hsame
    simp only [List.map_append, List.map_singleton]
    refine h.tickets.redeem (List.mem_map_of_mem hmem) hr rfl
      (List.map_subset entry (List.eraseIdx_sublist _ _).subset) ?_
    rintro other hother ⟨hgone, -⟩
    obtain ⟨grant, hgrant, rfl⟩ := List.mem_map.mp hother
    exact gone_of_erase h hat grant hgrant hgone
  distinct := h.distinct.sublist ((List.eraseIdx_sublist _ _).map _)
  drawn := h.drawn
  decided := h.decided
  settled := by
    intro s' hs'
    rcases List.mem_append.mp hs' with hs' | hs'
    · exact h.settled s' hs'
    · rw [List.mem_singleton.mp hs']
      exact hs
  bounded := Nat.le_trans (List.eraseIdx_sublist _ _).length_le h.bounded

theorem Inv.step {event : GrantEvent} (h : book.Inv) (hreg : book.Regular event)
    (hstep : step last book event = some book') : book'.Inv := by
  cases event with
  | mint request policy entropy now =>
      have hpurged := h.shrink (purged_sublist book.grants now) now
      rcases @Grants.mint_cases book.grants last now request policy entropy with
        ⟨error, heq⟩ | ⟨grant, heq, hroom, hdecide, hgrant⟩
      · simp only [GrantBook.step, heq, Option.some.injEq] at hstep
        subst hstep
        simpa [Except.toOption] using hpurged.draw entropy
      · simp only [GrantBook.step, heq, Option.some.injEq] at hstep
        subst hstep
        have hticket : grant.ticket = entropy := by rw [hgrant]
        have hm : Minted.Decided ⟨request, policy, now, grant⟩ :=
          ⟨hdecide, by rw [hgrant], by rw [hgrant], by rw [hgrant]⟩
        subst hticket
        exact hpurged.push hm hreg.2 hroom now
  | redeem presented session now =>
      have hpurged := h.shrink (purged_sublist book.grants now) now
      rcases redeem_cases book presented session now with
        ⟨_, -, hhit, heq⟩ | ⟨_, -, hhit, -, heq⟩ | ⟨grant, index, -, hhit, hat, heq⟩
      · simp only [GrantBook.step, heq, hhit, Option.some.injEq] at hstep
        subst hstep
        simpa using hpurged
      · simp only [GrantBook.step, heq, hhit, Option.some.injEq] at hstep
        subst hstep
        simpa using hpurged
      · simp only [GrantBook.step, heq, hhit, Option.some.injEq] at hstep
        subst hstep
        have hlive := (Grants.mem_purgeExpired.mp (List.mem_of_getElem? hat)).2
        exact hpurged.spend (s := ⟨grant, session, now, _⟩) ⟨hlive, rfl⟩ hat now
  | purge now =>
      cases hstep
      exact h.shrink (purged_sublist book.grants now) now

instance (book : GrantBook) (event : GrantEvent) : Decidable (book.Regular event) :=
  match event with
  | .mint _ _ entropy now => inferInstanceAs (Decidable (book.clock ≤ now ∧ entropy ∉ book.drawn))
  | .redeem _ _ now | .purge now => inferInstanceAs (Decidable (book.clock ≤ now ∧ True))

/-- What a minted ticket leads to, where `due` is the most that a request may end in. -/
structure SingleUse (due : TicketRequest → Capabilities) (book : GrantBook) : Prop where
  -- No ticket is minted twice, and none is found twice.
  distinct : (book.minted.map (·.grant.ticket)).Nodup
  once : (book.spent.map (·.grant.ticket)).Nodup
  gone : ∀ s ∈ book.spent, ∀ grant ∈ book.grants.outstanding, grant.ticket ≠ s.grant.ticket
  -- A redemption succeeds in the session of its ticket, before the ticket expires, and yields no more than is due.
  bound : ∀ s ∈ book.spent, ∀ redemption, s.result = .ok redemption → ∃ m ∈ book.minted,
    m.grant = s.grant ∧ s.session = m.request.session ∧ redemption.session = m.request.session ∧
      s.now < m.grant.expires ∧ ∃ allowed, Grants.decide m.request m.policy m.now = .ok allowed ∧
        allowed.contains redemption.capabilities = true ∧ (due m.request).contains redemption.capabilities = true
  recorded : ∀ presented session now redemption, (book.grants.redeem presented session now).1 = .ok redemption →
    ∃ grant, book.hit presented now = some grant
  -- Whoever presents a ticket, it does not stay.
  spends : ∀ presented session now ticket, Ticket.parseHex presented = .ok ticket →
    ∀ grant ∈ (book.grants.redeem presented session now).2.outstanding, grant.ticket ≠ ticket
  malformed : ∀ presented session now error, Ticket.parseHex presented = .error error →
    book.grants.redeem presented session now = (.error .malformed, book.grants.purgeExpired now)
  bounded : book.grants.outstanding.length ≤ maxOutstanding

theorem Inv.spends (h : book.Inv) {ticket : Ticket} (hparse : Ticket.parseHex presented = .ok ticket) :
    ∀ grant ∈ (book.grants.redeem presented session now).2.outstanding, grant.ticket ≠ ticket := by
  rcases redeem_cases book presented session now with
    ⟨_, herror, -, -⟩ | ⟨_, hother, -, habsent, heq⟩ | ⟨grant, index, hother, -, hat, heq⟩
  · rw [hparse] at herror
    cases herror
  · rw [hparse] at hother
    cases hother
    rw [heq]
    exact habsent
  · rw [hparse] at hother
    cases hother
    rw [heq]
    exact gone_of_erase (h.shrink (purged_sublist book.grants now) now) hat

theorem Inv.gone (h : book.Inv) {s : Spent} (hs : s ∈ book.spent) :
    ∀ grant ∈ book.grants.outstanding, grant.ticket ≠ s.grant.ticket := by
  intro grant hgrant heq
  refine (h.tickets.outstanding (entry grant) (List.mem_map_of_mem hgrant)).1 ?_
  rw [show (entry grant).value = s.grant.ticket from heq]
  exact List.mem_map_of_mem (List.mem_map_of_mem hs)

theorem Inv.bound (h : book.Inv) {s : Spent} (hs : s ∈ book.spent) {redemption : Redemption}
    (hok : s.result = .ok redemption) :
    ∃ m ∈ book.minted, m.grant = s.grant ∧ s.session = m.request.session ∧ redemption.session = m.request.session ∧
      s.now < m.grant.expires ∧ ∃ allowed, Grants.decide m.request m.policy m.now = .ok allowed ∧
        allowed.contains redemption.capabilities = true ∧
        (m.request.wanted.with_ .view).contains redemption.capabilities = true := by
  obtain ⟨hlive, hresult⟩ := h.settled s hs
  obtain ⟨m, hm, hgrant⟩ := List.mem_map.mp (h.tickets.genuine (List.mem_map_of_mem hs))
  obtain ⟨hdecided, hsession, -, -⟩ := h.decided m hm
  rw [hok] at hresult
  split at hresult
  · rename_i hsame
    cases hresult
    rw [← hgrant] at hlive hsame
    rw [← hgrant]
    exact ⟨m, hm, rfl, hsame.symm.trans hsession, hsession, hlive, _, hdecided, Capabilities.contains_self,
      Grants.contains_decide hdecided⟩
  · cases hresult

theorem Inv.singleUse (h : book.Inv) : book.SingleUse fun request => request.wanted.with_ .view where
  distinct := by
    have := h.tickets.distinct
    rwa [List.map_map] at this
  once := by
    have := h.tickets.once
    rwa [List.map_map] at this
  gone := fun _ hs => h.gone hs
  bound := fun _ hs _ hok => h.bound hs hok
  recorded := fun _ _ _ _ hok => redeem_recorded hok
  spends := fun _ _ _ _ hparse => h.spends hparse
  malformed := fun _ _ _ _ hparse => redeem_malformed hparse
  bounded := h.bounded

end GrantBook

/-- Each ticket leads to one redemption at most, and to nothing but the view that was not asked for. -/
theorem tickets_are_redeemed_once (last : Instant) (events : List GrantEvent) (book : GrantBook)
    (hrun : Run (GrantBook.step last) GrantBook.Regular .opened events book) :
    book.SingleUse fun request => request.wanted.with_ .view :=
  (hrun.invariant (fun _ _ _ hinv hregular hstep => hinv.step hregular hstep) GrantBook.Inv.opened).singleUse

/-! ## A ticket for control alone -/

def sampleEntropy : Ticket := ⟨List.replicate 32 7, by decide⟩

def sampleRequest (wanted : Capabilities) : TicketRequest := ⟨['a'], ['b'], wanted, ⟨.passkey, 0⟩⟩

def samplePolicy : Policy := ⟨true, false, false, Duration.fromSecs 300⟩

/-- A ticket is minted at the start and redeemed in its own session. -/
def sampleEvents (wanted : Capabilities) : List GrantEvent :=
  [.mint (sampleRequest wanted) samplePolicy sampleEntropy 0,
    .redeem ((List.replicate 32 ['0', '7']).flatten) ['a'] 1]

theorem tickets_are_redeemed_once_for_control : ∃ book, Run (GrantBook.step (2 ^ 64)) GrantBook.Regular .opened
    (sampleEvents .control) book ∧ book.spent.length = 1 ∧ book.SingleUse fun request => request.wanted.with_ .view := by
  have hmap : (exec (GrantBook.step (2 ^ 64)) GrantBook.Regular .opened (sampleEvents .control)).map
      (·.spent.length) = some 1 := by decide +kernel
  obtain ⟨book, hexec, hspent⟩ := Option.map_eq_some_iff.mp hmap
  exact ⟨book, Run.of_exec hexec, hspent, tickets_are_redeemed_once _ _ book (Run.of_exec hexec)⟩

/-- Control alone is asked for, and the view comes with it. -/
theorem view_was_not_asked_for : ¬ ∀ (last : Instant) (events : List GrantEvent) (book : GrantBook),
    Run (GrantBook.step last) GrantBook.Regular .opened events book → book.SingleUse TicketRequest.wanted := by
  intro hall
  have hmap : (exec (GrantBook.step (2 ^ 64)) GrantBook.Regular .opened (sampleEvents .control)).map
      (fun book => (book.spent.map (·.result.toOption.map (·.capabilities)), book.minted.map (·.request.wanted))) =
      some ([some (Capabilities.view.with_ .control)], [.control]) := by decide +kernel
  obtain ⟨book, hexec, hbook⟩ := Option.map_eq_some_iff.mp hmap
  obtain ⟨hspent, hminted⟩ := Prod.mk.inj hbook
  have hsingle := hall _ _ book (Run.of_exec hexec)
  obtain ⟨s, hs, hresult⟩ : ∃ s ∈ book.spent, s.result.toOption.map (·.capabilities) =
      some (Capabilities.view.with_ .control) := List.mem_map.mp (by rw [hspent]; exact List.mem_singleton_self _)
  cases hok : s.result with
  | error error =>
      rw [hok] at hresult
      cases hresult
  | ok redemption =>
      rw [hok] at hresult
      have hcapabilities : redemption.capabilities = Capabilities.view.with_ .control := Option.some.inj hresult
      obtain ⟨m, hm, -, -, -, -, -, -, -, hwanted⟩ := hsingle.bound s hs redemption hok
      have hasked : m.request.wanted = .control := by
        have := List.mem_map_of_mem (f := fun m : Minted => m.request.wanted) hm
        rw [hminted] at this
        exact List.mem_singleton.mp this
      rw [hasked, hcapabilities] at hwanted
      exact absurd hwanted (by decide)

end Selfhost.Desk
