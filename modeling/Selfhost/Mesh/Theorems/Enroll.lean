import Selfhost.Mesh.Enroll

/-!
# What a proof stands for

A proof is bound to one handshake and one node, since no two bindings have the same bytes. A handshake that was honoured
is remembered while its time to live lasts, unless as many others as the ledger holds were honoured after it.
-/

namespace Selfhost.Mesh

open Selfhost.Lib

namespace NonceLedger

/-! ## One step -/

/-- What is done to a ledger. -/
inductive Call where
  | honour (key : Str) (now : Instant)
  | expire (now : Instant)
  deriving DecidableEq, Repr

def Call.now : Call → Instant
  | .honour _ now => now
  | .expire now => now

def step (ledger : NonceLedger) : Call → NonceLedger
  | .honour key now => (ledger.honour key now).2
  | .expire now => ledger.expire now

/-- The keys are those of the queue, and there are no more of them than there is room for. -/
structure Kept (ledger : NonceLedger) : Prop where
  same : ledger.keys.Perm (ledger.order.map Prod.fst)
  distinct : (ledger.order.map Prod.fst).Nodup
  bounded : ledger.order.length ≤ ledger.capacity

variable {ledger : NonceLedger} {key : Str} {now t : Instant} {ttl : Duration} {capacity n : Nat}
  {order : List (Str × Instant)} {keys : List Str}

/-- The oldest entry leaves both. -/
theorem perm_erase_front {entry : Str × Instant} (h : keys.Perm ((entry :: order).map Prod.fst)) :
    (keys.erase entry.1).Perm (order.map Prod.fst) := by
  have herase := h.erase entry.1
  rwa [List.map_cons, List.erase_cons_head] at herase

/-- Expiry takes what is too old from the front. -/
theorem expireLoop_cases (hkeys : keys.Perm (order.map Prod.fst)) :
    ∃ dropped, order = dropped ++ (expireLoop ttl now order keys).1 ∧
      (∀ entry ∈ dropped, ¬ Duration.between entry.2 now ≤ ttl) ∧
      (expireLoop ttl now order keys).2.Perm ((expireLoop ttl now order keys).1.map Prod.fst) := by
  induction order generalizing keys with
  | nil => exact ⟨[], rfl, by simp, hkeys⟩
  | cons entry order ih =>
      rw [expireLoop]
      split
      · exact ⟨[], rfl, by simp, hkeys⟩
      · rename_i hold
        obtain ⟨dropped, hsplit, hdropped, hperm⟩ := ih (perm_erase_front hkeys)
        refine ⟨entry :: dropped, by rw [List.cons_append, ← hsplit], ?_, hperm⟩
        exact List.forall_mem_cons.mpr ⟨hold, hdropped⟩

/-- Eviction takes as many from the front as leave room for one more. -/
theorem evictLoop_cases (hkeys : keys.Perm (order.map Prod.fst)) (evictions : UInt64) (hpos : 0 < capacity) :
    ∃ dropped, order = dropped ++ (evictLoop capacity order keys evictions).1 ∧
      dropped.length = order.length + 1 - capacity ∧
      (evictLoop capacity order keys evictions).2.1.Perm ((evictLoop capacity order keys evictions).1.map Prod.fst) := by
  induction order generalizing keys evictions with
  | nil => exact ⟨[], rfl, by simp; omega, hkeys⟩
  | cons entry order ih =>
      rw [evictLoop]
      split
      · rename_i hfull
        obtain ⟨dropped, hsplit, hdropped, hperm⟩ := ih (perm_erase_front hkeys) (saturatingAdd evictions 1)
        refine ⟨entry :: dropped, by rw [List.cons_append, ← hsplit], ?_, hperm⟩
        rw [List.length_cons, List.length_cons, hdropped]
        omega
      · rename_i hroom
        refine ⟨[], rfl, ?_, hkeys⟩
        rw [List.length_nil, List.length_cons]
        omega

theorem Kept.expire (h : ledger.Kept) (now : Instant) : (ledger.expire now).Kept := by
  obtain ⟨dropped, hsplit, -, hperm⟩ := @expireLoop_cases now ledger.ttl _ _ h.same
  have hdistinct := h.distinct
  have hbounded := h.bounded
  rw [hsplit] at hdistinct hbounded
  rw [List.map_append] at hdistinct
  rw [List.length_append] at hbounded
  exact ⟨hperm, hdistinct.of_append_right, Nat.le_trans (Nat.le_add_left _ _) hbounded⟩

/-- A handshake is refused when it is remembered; else it is put behind what is left of the queue. -/
theorem honour_cases (h : ledger.Kept) (key : Str) (now : Instant) :
    (key ∈ (ledger.expire now).order.map Prod.fst ∧ ledger.honour key now = (.replay, ledger.expire now)) ∨
      (key ∉ (ledger.expire now).order.map Prod.fst ∧ (ledger.honour key now).1 = .fresh ∧
        ∃ dropped kept keys, (ledger.expire now).order = dropped ++ kept ∧
          dropped.length = (ledger.expire now).order.length + 1 - ledger.capacity ∧ keys.Perm (kept.map Prod.fst) ∧
          (ledger.honour key now).2.order = kept ++ [(key, now)] ∧ (ledger.honour key now).2.keys = key :: keys) := by
  have hkept := h.expire now
  by_cases hmem : key ∈ (ledger.expire now).order.map Prod.fst
  · refine .inl ⟨hmem, ?_⟩
    rw [honour, if_pos (List.contains_iff_mem.mpr (hkept.same.mem_iff.mpr hmem))]
  · have hfresh : ¬ (ledger.expire now).keys.contains key = true := fun hcontains =>
      hmem (hkept.same.mem_iff.mp (List.contains_iff_mem.mp hcontains))
    obtain ⟨dropped, hsplit, hdropped, hperm⟩ :=
      evictLoop_cases hkept.same (ledger.expire now).evictions (ledger.expire now).positive
    refine .inr ⟨hmem, ?_, dropped, _, _, hsplit, hdropped, hperm, ?_, ?_⟩
    · rw [honour, if_neg hfresh]
    · rw [honour, if_neg hfresh]
    · rw [honour, if_neg hfresh]

@[simp] theorem capacity_step (ledger : NonceLedger) (call : Call) : (ledger.step call).capacity = ledger.capacity := by
  cases call with
  | expire now => rfl
  | honour key now =>
      rw [step]
      unfold honour
      dsimp only
      split <;> rfl

@[simp] theorem ttl_step (ledger : NonceLedger) (call : Call) : (ledger.step call).ttl = ledger.ttl := by
  cases call with
  | expire now => rfl
  | honour key now =>
      rw [step]
      unfold honour
      dsimp only
      split <;> rfl

theorem Kept.step (h : ledger.Kept) (call : Call) : (ledger.step call).Kept := by
  cases call with
  | expire now => exact h.expire now
  | honour key now =>
      have hcapacity := capacity_step ledger (.honour key now)
      have hkept := h.expire now
      rw [NonceLedger.step] at hcapacity ⊢
      rcases honour_cases h key now with ⟨-, heq⟩ | ⟨hnew, -, dropped, kept, keys, hsplit, hdropped, hperm, horder, hkeys⟩
      · rw [heq]
        exact hkept
      · have hdistinct := hkept.distinct
        rw [hsplit, List.map_append] at hdistinct hnew
        have hlength := congrArg List.length hsplit
        have hbounded := hkept.bounded
        have hpos := ledger.positive
        change (ledger.expire now).order.length ≤ ledger.capacity at hbounded
        rw [List.length_append] at hlength
        refine ⟨?_, ?_, ?_⟩
        · rw [horder, hkeys, List.map_append]
          exact (hperm.cons key).trans (List.perm_append_singleton _ _).symm
        · rw [horder, List.map_append, List.nodup_append']
          refine ⟨hdistinct.of_append_right, List.nodup_singleton _, ?_⟩
          rw [List.map_cons, List.map_nil, List.disjoint_singleton]
          exact fun hmem => hnew (List.mem_append_right _ hmem)
        · rw [horder, hcapacity, List.length_append, List.length_singleton]
          omega

/-! ## What is remembered -/

/-- The entry is in the queue, and no more than `n` came after it. -/
def Remembers (ledger : NonceLedger) (entry : Str × Instant) (n : Nat) : Prop :=
  ∃ front back, ledger.order = front ++ entry :: back ∧ back.length ≤ n

/-- What is dropped from the front of a queue does not reach the entry. -/
theorem split_of_dropped {α : Type} {dropped kept front back : List α} {entry : α}
    (h : dropped ++ kept = front ++ entry :: back) (hlength : dropped.length ≤ front.length) :
    ∃ front', kept = front' ++ entry :: back := by
  refine ⟨front.drop dropped.length, ?_⟩
  have hdrop := congrArg (List.drop dropped.length) h
  rwa [List.drop_left, List.drop_append_of_le_length hlength] at hdrop

theorem Remembers.expire {entry : Str × Instant} (h : ledger.Kept) (hentry : ledger.Remembers entry n)
    (hyoung : Duration.between entry.2 now ≤ ledger.ttl) : (ledger.expire now).Remembers entry n := by
  obtain ⟨front, back, horder, hback⟩ := hentry
  obtain ⟨dropped, hsplit, hdropped, -⟩ := @expireLoop_cases now ledger.ttl _ _ h.same
  have hlength : dropped.length ≤ front.length := by
    refine Nat.le_of_not_lt fun hlt => ?_
    refine hdropped entry ?_ hyoung
    have hget := congrArg (fun l : List (Str × Instant) => l[front.length]?) (hsplit.symm.trans horder)
    rw [List.getElem?_append_left hlt, List.getElem?_append_right (Nat.le_refl _), Nat.sub_self] at hget
    exact List.mem_of_getElem? hget
  obtain ⟨front', hkept⟩ := split_of_dropped (hsplit.symm.trans horder) hlength
  exact ⟨front', back, hkept, hback⟩

theorem mem_of_remembers (h : ledger.Remembers (key, t) n) : key ∈ ledger.order.map Prod.fst := by
  obtain ⟨front, back, horder, -⟩ := h
  rw [horder]
  simp

/-- A fresh handshake is the last in the queue. -/
theorem remembers_of_fresh (h : ledger.Kept) (hfresh : (ledger.honour key now).1 = .fresh) :
    (ledger.honour key now).2.Remembers (key, now) 0 := by
  rcases honour_cases h key now with ⟨-, heq⟩ | ⟨-, -, dropped, kept, keys, -, -, -, horder, -⟩
  · rw [heq] at hfresh
    cases hfresh
  · exact ⟨kept, [], horder, Nat.le_refl _⟩

/-- Whether a call admits a handshake as fresh. -/
def admits (ledger : NonceLedger) : Call → Bool
  | .honour key now => (ledger.honour key now).1 = .fresh
  | .expire _ => false

theorem Remembers.step {entry : Str × Instant} {call : Call} (h : ledger.Kept) (hentry : ledger.Remembers entry n)
    (hyoung : Duration.between entry.2 call.now ≤ ledger.ttl)
    (hroom : (n + if ledger.admits call then 1 else 0) < ledger.capacity) :
    (ledger.step call).Remembers entry (n + if ledger.admits call then 1 else 0) := by
  have hexpired := hentry.expire h hyoung
  cases call with
  | expire now => exact hexpired
  | honour key now =>
      rcases honour_cases h key now with ⟨-, heq⟩ | ⟨-, hfresh, dropped, kept, keys, hsplit, hdropped, -, horder, -⟩
      · have hrefused : ledger.admits (.honour key now) = false := by
          rw [admits, heq]
          rfl
        rw [hrefused, NonceLedger.step, heq]
        exact hexpired
      · obtain ⟨front, back, hold, hback⟩ := hexpired
        rw [admits, hfresh, decide_eq_true rfl, if_pos rfl] at hroom
        have hlength := congrArg List.length hold
        rw [List.length_append, List.length_cons] at hlength
        obtain ⟨front', hkept⟩ := split_of_dropped (hsplit.symm.trans hold) (by
          change (ledger.expire now).order.length = _ at hlength
          omega)
        refine ⟨front', back ++ [(key, now)], ?_, ?_⟩
        · rw [NonceLedger.step, horder, hkept, List.append_assoc, List.cons_append]
        · rw [admits, hfresh, decide_eq_true rfl, if_pos rfl, List.length_append, List.length_singleton]
          omega

/-! ## Runs -/

def after (ledger : NonceLedger) (calls : List Call) : NonceLedger := calls.foldl step ledger

/-- How many of the calls honour a handshake as fresh. -/
def freshes (ledger : NonceLedger) : List Call → Nat
  | [] => 0
  | call :: rest => (if ledger.admits call then 1 else 0) + freshes (ledger.step call) rest

theorem after_append (ledger : NonceLedger) (calls more : List Call) :
    ledger.after (calls ++ more) = (ledger.after calls).after more := List.foldl_append

theorem after_cons (ledger : NonceLedger) (call : Call) (calls : List Call) :
    ledger.after (call :: calls) = (ledger.step call).after calls := rfl

theorem limits_after (ledger : NonceLedger) (calls : List Call) :
    (ledger.after calls).capacity = ledger.capacity ∧ (ledger.after calls).ttl = ledger.ttl := by
  induction calls generalizing ledger with
  | nil => exact ⟨rfl, rfl⟩
  | cons call calls ih =>
      rw [after_cons, (ih _).1, (ih _).2]
      exact ⟨capacity_step ledger call, ttl_step ledger call⟩

theorem Kept.after (h : ledger.Kept) (calls : List Call) : (ledger.after calls).Kept := by
  induction calls generalizing ledger with
  | nil => exact h
  | cons call calls ih => exact ih (h.step call)

theorem kept_withLimits (capacity : Nat) (ttl : Duration) : (withLimits capacity ttl).Kept :=
  ⟨.nil, List.nodup_nil, Nat.zero_le _⟩

theorem Remembers.after {entry : Str × Instant} {calls : List Call} (h : ledger.Kept) (hentry : ledger.Remembers entry n)
    (hyoung : ∀ call ∈ calls, Duration.between entry.2 call.now ≤ ledger.ttl)
    (hroom : n + ledger.freshes calls < ledger.capacity) :
    (ledger.after calls).Remembers entry (n + ledger.freshes calls) := by
  induction calls generalizing ledger n with
  | nil => exact hentry
  | cons call calls ih =>
      rw [List.forall_mem_cons] at hyoung
      rw [freshes, ← Nat.add_assoc] at hroom ⊢
      have hstep := hentry.step h hyoung.1 (Nat.lt_of_le_of_lt (Nat.le_add_right _ _) hroom)
      refine ih (h.step call) hstep ?_ ?_
      · rw [ttl_step]
        exact hyoung.2
      · rw [capacity_step]
        exact hroom

theorem between_mono {later : Instant} (h : now ≤ later) : Duration.between t now ≤ Duration.between t later := by
  rw [Duration.le_iff]
  exact min_le_min_right _ (Nat.sub_le_sub_right h t)

/-- The queue and the keys stay in step and within the capacity. What was admitted as fresh is a replay while its time
to live lasts, unless as many as the ledger holds were admitted in between. -/
theorem replay_ledger (capacity : Nat) (ttl : Duration) (calls : List Call)
    (hclock : calls.Pairwise fun earlier later => earlier.now ≤ later.now) :
    (((withLimits capacity ttl).after calls).order.map Prod.fst).Nodup ∧
      ((withLimits capacity ttl).after calls).keys.Nodup ∧
      (∀ key, key ∈ ((withLimits capacity ttl).after calls).keys ↔
        key ∈ ((withLimits capacity ttl).after calls).order.map Prod.fst) ∧
      ((withLimits capacity ttl).after calls).order.length ≤ max capacity 1 ∧
      ∀ (before between : List Call) (key : Str) (t now : Instant),
        calls = before ++ .honour key t :: (between ++ [.honour key now]) →
          (((withLimits capacity ttl).after before).honour key t).1 = .fresh → Duration.between t now ≤ ttl →
            ((withLimits capacity ttl).after (before ++ [.honour key t])).freshes between < max capacity 1 →
              (((withLimits capacity ttl).after (before ++ .honour key t :: between)).honour key now).1 = .replay := by
  have hkept := (kept_withLimits capacity ttl).after calls
  refine ⟨hkept.distinct, hkept.same.nodup_iff.mpr hkept.distinct, fun key => hkept.same.mem_iff, ?_, ?_⟩
  · have hbounded := hkept.bounded
    rwa [(limits_after _ _).1] at hbounded
  · rintro before between key t now rfl hfresh hyoung hroom
    have hbefore := (kept_withLimits capacity ttl).after before
    have hadmitted := (kept_withLimits capacity ttl).after (before ++ [.honour key t])
    have hlimits := limits_after (withLimits capacity ttl) (before ++ [.honour key t])
    have hentry : ((withLimits capacity ttl).after (before ++ [.honour key t])).Remembers (key, t) 0 := by
      rw [after_append]
      exact remembers_of_fresh hbefore hfresh
    have hlate : ∀ call ∈ between, call.now ≤ now := by
      intro call hcall
      have hrest := (List.pairwise_cons.mp (List.pairwise_append.mp hclock).2.1).2
      exact (List.pairwise_append.mp hrest).2.2 call hcall _ (List.mem_singleton_self _)
    have hheld : (((withLimits capacity ttl).after (before ++ [.honour key t])).after between).Remembers (key, t)
        (0 + ((withLimits capacity ttl).after (before ++ [.honour key t])).freshes between) := by
      refine hentry.after hadmitted (fun call hcall => ?_) ?_
      · rw [hlimits.2]
        exact le_trans (between_mono (hlate call hcall)) hyoung
      · rw [Nat.zero_add, hlimits.1]
        exact hroom
    have hsplit : (withLimits capacity ttl).after (before ++ .honour key t :: between) =
        ((withLimits capacity ttl).after (before ++ [.honour key t])).after between := by
      rw [← after_append, List.append_assoc, List.singleton_append]
    rw [hsplit]
    have hall := hadmitted.after between
    have hexpired := @Remembers.expire _ now _ _ hall hheld (by
      rw [(limits_after _ _).2, hlimits.2]
      exact hyoung)
    rcases honour_cases hall key now with ⟨-, heq⟩ | ⟨hnew, -⟩
    · rw [heq]
    · exact absurd (mem_of_remembers hexpired) hnew

theorem replay_ledger_second : (((withLimits 2 (.saturating 10)).after
    [.honour ['a'] 0, .honour ['b'] 1, .expire 5]).honour ['a'] 10).1 = .replay :=
  (replay_ledger 2 (.saturating 10) [.honour ['a'] 0, .honour ['b'] 1, .expire 5, .honour ['a'] 10]
    (by simp [Call.now])).2.2.2.2 [] [.honour ['b'] 1, .expire 5] ['a'] 0 10 rfl (by decide) (by decide) (by decide)

end NonceLedger

/-! ## Bindings -/

namespace Binding

theorem field_inj {a b rest rest' : Bytes} (ha : a.length < 2 ^ 16) (hb : b.length < 2 ^ 16)
    (h : field a ++ rest = field b ++ rest') : a = b ∧ rest = rest' := by
  rw [field, field, Nat.min_eq_left (by omega), Nat.min_eq_left (by omega), List.append_assoc, List.append_assoc] at h
  obtain ⟨hlength, hrest⟩ := List.append_inj h rfl
  have hsame : a.length = b.length := by
    have hread := congrArg (fun l : Bytes => ofBe16 (l.getD 0 0) (l.getD 1 0)) hlength
    have hnat := congrArg UInt16.toNat (((ofBe16_be16 _).symm.trans hread).trans (ofBe16_be16 _))
    rwa [UInt16.toNat_ofNat', UInt16.toNat_ofNat', Nat.mod_eq_of_lt ha, Nat.mod_eq_of_lt hb] at hnat
  exact List.append_inj hrest hsame

theorem utf8_inj {s t : Str} (h : utf8 s = utf8 t) : s = t := by
  have hread := congrArg fromUtf8 h
  rwa [fromUtf8_utf8, fromUtf8_utf8, Option.some.injEq] at hread

/-- The fields of a binding that was made are short. -/
theorem short_of_new {key accept : Str} {node : NodeName} {binding : Binding} (h : new key accept node = .ok binding) :
    (utf8 binding.key).length < 2 ^ 16 ∧ (utf8 binding.accept).length < 2 ^ 16 := by
  have hshort : ∀ {name value : Str}, checkHandshakeField name value = .ok () → (utf8 value).length < 2 ^ 16 := by
    intro name value hcheck
    unfold checkHandshakeField at hcheck
    split at hcheck
    · rename_i hfield
      simp only [isHandshakeField, Bool.and_eq_true, decide_eq_true_eq] at hfield
      exact Nat.lt_of_le_of_lt hfield.1.2 (by decide)
    · cases hcheck
  unfold new at h
  split at h
  · cases h
  · rename_i hkey
    split at h
    · cases h
    · rename_i haccept
      cases h
      exact ⟨hshort hkey, hshort haccept⟩

theorem short_node (node : NodeName) : (utf8 node.text).length < 2 ^ 16 := by
  have hwell := node.wellFormed
  unfold checkName at hwell
  split at hwell
  · cases hwell
  · split at hwell
    · cases hwell
    · rename_i hlength
      exact Nat.lt_of_le_of_lt (Nat.le_of_not_lt hlength) (by decide)

/-- Two bindings with the same bytes are the same, so a proof for one verifies for no other. -/
theorem bindings_apart {key accept key' accept' : Str} {node node' : NodeName} {a b : Binding}
    (ha : new key accept node = .ok a) (hb : new key' accept' node' = .ok b) :
    (a.message = b.message → a = b) ∧
      ∀ (H : Hashes) (token : NodeToken) (presented : Proof),
        (H.hmac token.bytes a.message = H.hmac token.bytes b.message → a.message = b.message) →
          presented.bytes = a.prove H token → b.verify H token presented = true → a = b := by
  have hinj : a.message = b.message → a = b := by
    intro h
    rw [message, message, List.append_assoc, List.append_assoc, List.append_assoc, List.append_assoc,
      List.append_cancel_left_eq] at h
    obtain ⟨hkey, hrest⟩ := field_inj (short_of_new ha).1 (short_of_new hb).1 h
    obtain ⟨haccept, hlast⟩ := field_inj (short_of_new ha).2 (short_of_new hb).2 hrest
    rw [← List.append_nil (field (utf8 a.node.text)), ← List.append_nil (field (utf8 b.node.text))] at hlast
    obtain ⟨hnode, -⟩ := field_inj (short_node a.node) (short_node b.node) hlast
    obtain ⟨key, accept, node, _⟩ := a
    obtain ⟨key', accept', node', _⟩ := b
    cases utf8_inj hkey
    cases utf8_inj haccept
    cases utf8_inj hnode
    rfl
  refine ⟨hinj, fun H token presented hfree hproof hverify => hinj (hfree ?_)⟩
  rw [verify, decide_eq_true_eq, hproof, prove] at hverify
  exact hverify.symm

/-- A tag that is the front of the message. -/
def frontHashes : Hashes := ⟨fun _ => [], fun _ bytes => (bytes ++ List.replicate 32 0).take 32⟩

def bindingFor (node : NodeName) : Binding := ⟨['k'], ['s'], node⟩

def nodeA : NodeName := ⟨['a'], by decide⟩

def nodeB : NodeName := ⟨['b'], by decide⟩

def sampleToken : NodeToken := ⟨List.replicate 32 7, rfl⟩

theorem bindings_apart_nodes :
    (bindingFor nodeA).message ≠ (bindingFor nodeB).message ∧ ∀ presented : Proof,
      presented.bytes = (bindingFor nodeA).prove frontHashes sampleToken →
        (bindingFor nodeB).verify frontHashes sampleToken presented = false := by
  refine ⟨by decide +kernel, fun presented hproof => ?_⟩
  have hA : new ['k'] ['s'] nodeA = .ok (bindingFor nodeA) := by rfl
  have hB : new ['k'] ['s'] nodeB = .ok (bindingFor nodeB) := by rfl
  have htags : frontHashes.hmac sampleToken.bytes (bindingFor nodeA).message ≠
      frontHashes.hmac sampleToken.bytes (bindingFor nodeB).message := by decide +kernel
  refine Bool.eq_false_iff.mpr fun hverify => ?_
  have hsame := (bindings_apart hA hB).2 frontHashes sampleToken presented (fun h => absurd h htags) hproof hverify
  exact absurd hsame (by decide +kernel)

end Binding

end Selfhost.Mesh
