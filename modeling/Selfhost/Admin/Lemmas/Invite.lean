import Selfhost.Admin.Invite
import Selfhost.Identity.Lemmas.Stored

/-!
# Runs of the invitation store

Operations of one process on its invitations and their file, in any order, with writes that may fail and restarts that
read the file again.
-/

namespace Selfhost.Admin

open Selfhost.Lib Selfhost.Names Selfhost.Json

variable {A : Alphabet} {D : Doubles}

/-! ## Reading the file back -/

/-- An invitation that is read back: a whole digest, and times that are doubles. -/
def Invite.Storable (D : DoubleOps) (entry : Invite A) : Prop :=
  entry.digest.length = 32 ∧ D.asU64 (D.ofU64 entry.issuedUnix) = some entry.issuedUnix ∧
    D.asU64 (D.ofU64 entry.expiresUnix) = some entry.expiresUnix

theorem inviteJson_eq (entry : Invite A) : inviteJson D.toDoubleOps entry =
    .object [("digest".toList, .string (b64urlEncode entry.digest)),
      ("expiresUnix".toList, .number (D.ofU64 entry.expiresUnix)),
      ("issuedUnix".toList, .number (D.ofU64 entry.issuedUnix)), ("name".toList, .string entry.name.text)] := rfl

theorem fits_invite (entry : Invite A) (n : Nat) : Fits D.toDoubleOps (n + 2) (inviteJson D.toDoubleOps entry) := by
  rw [inviteJson_eq]
  refine .object (by simp [List.pairwise_cons]; decide) ?_
  intro field hfield
  simp only [List.mem_cons, List.not_mem_nil, or_false] at hfield
  rcases hfield with rfl | rfl | rfl | rfl
  · exact .string _
  · exact .number _
  · exact .number _
  · exact .string _

theorem fits_invites (entries : List (Invite A)) :
    Fits D.toDoubleOps (maxDepth + 1) (invitesToJson D.toDoubleOps entries) := by
  refine .object (by simp [Value.insert]) ?_
  intro field hfield
  rw [List.mem_singleton.mp hfield]
  refine .array fun item hitem => ?_
  obtain ⟨entry, -, rfl⟩ := List.mem_map.mp hitem
  exact fits_invite entry _

theorem parseInvite_written {entry : Invite A} {entries : List (Invite A)} (hstorable : entry.Storable D.toDoubleOps)
    (hnew : ∀ other ∈ entries, other.name ≠ entry.name) :
    parseInvite D.toDoubleOps A entries (inviteJson D.toDoubleOps entry) = some (entries ++ [entry]) := by
  have hget : (inviteJson D.toDoubleOps entry).get "name".toList = some (.string entry.name.text) ∧
      (inviteJson D.toDoubleOps entry).get "digest".toList = some (.string (b64urlEncode entry.digest)) ∧
      (inviteJson D.toDoubleOps entry).get "issuedUnix".toList = some (.number (D.ofU64 entry.issuedUnix)) ∧
      (inviteJson D.toDoubleOps entry).get "expiresUnix".toList = some (.number (D.ofU64 entry.expiresUnix)) :=
    ⟨rfl, rfl, rfl, rfl⟩
  obtain ⟨hname, hdigest, hissued, hexpires⟩ := hget
  obtain ⟨hlength, hissued', hexpires'⟩ := hstorable
  have hfree : ¬ (entries.any fun other => other.name = entry.name) = true := by
    simpa using hnew
  simp only [parseInvite, hname, hdigest, hissued, hexpires, Value.asStr_string, Value.asU64_number,
    Identity.parseName_text, b64urlDecode_encode, hfree, hlength, hissued', hexpires', Option.bind_eq_bind,
    Option.bind_some, Bool.false_eq_true, ↓reduceIte, ne_eq, not_true_eq_false]

theorem foldlM_parseInvite_written {done rest : List (Invite A)} (hstorable : ∀ entry ∈ rest, entry.Storable D.toDoubleOps)
    (hnames : (done ++ rest).Pairwise fun a b => a.name ≠ b.name) :
    (rest.map (inviteJson D.toDoubleOps)).foldlM (parseInvite D.toDoubleOps A) done = some (done ++ rest) := by
  induction rest generalizing done with
  | nil => simp
  | cons entry rest ih =>
      have hbefore : ∀ other ∈ done, other.name ≠ entry.name :=
        fun other hother => (List.pairwise_append.mp hnames).2.2 other hother entry List.mem_cons_self
      have hsplit : done ++ entry :: rest = (done ++ [entry]) ++ rest := by simp
      rw [List.map_cons, List.foldlM_cons, parseInvite_written (hstorable entry List.mem_cons_self) hbefore, hsplit]
      exact ih (fun other hother => hstorable other (List.mem_cons_of_mem _ hother)) (hsplit ▸ hnames)

/-- Invitations that the file can hold. -/
structure Proper (D : DoubleOps) (entries : List (Invite A)) : Prop where
  names : entries.Pairwise fun a b => a.name ≠ b.name
  few : entries.length ≤ maxInvites
  storable : ∀ entry ∈ entries, entry.Storable D

/-- Invitations are read back from the file they were written to. -/
theorem readInvites_written {entries : List (Invite A)} (h : Proper D.toDoubleOps entries) (stamp : Nat)
    (disk : Option (Cached.File Str)) :
    readInvites D.toDoubleOps A (written D.toDoubleOps entries (.placed stamp) disk) = entries := by
  have hget : (invitesToJson D.toDoubleOps entries).get "invites".toList
      = some (.array (entries.map (inviteJson D.toDoubleOps))) := rfl
  have hfew : ¬ maxInvites < (entries.map (inviteJson D.toDoubleOps)).length := by
    rw [List.length_map]
    exact Nat.not_lt.mpr h.few
  have hfold := @foldlM_parseInvite_written A D [] entries h.storable h.names
  simp only [readInvites, written, Cached.textOf, Option.map_some, Option.bind_some, parseInvites,
    parse_toText (fits_invites entries), Except.toOption, hget, Value.asArray_array, hfew, hfold, Option.bind_eq_bind,
    ↓reduceIte, List.nil_append, Option.getD_some]

/-! ## The system -/

/-- The store with its file, and the history that the properties speak of. -/
structure Desk (A : Alphabet) where
  stored : Cached.Stored (List (Invite A))
  disk : Option (Cached.File Str)
  /-- Every digest that was made, with its name. -/
  minted : List (Bytes × Name A)
  /-- The digests that were redeemed, withdrawn or replaced. -/
  ended : List Bytes
  /-- A code was redeemed that the file still holds. -/
  exposed : Bool
  deriving DecidableEq

inductive DeskEvent (A : Alphabet) where
  | mint (name : Name A) (ttlHours : Nat) (code : Str) (now : Nat) (w : Cached.Write)
  | nameFor (code : Str) (now : Nat)
  | redeem (code : Str) (now : Nat) (w : Cached.Write)
  | revoke (name : Name A) (w : Cached.Write)
  | restart
  deriving DecidableEq

section

variable (D : DoubleOps) (H : Sha256)

/-- The digests made for a name. -/
def Desk.digestsOf (desk : Desk A) (name : Name A) : List Bytes :=
  (desk.minted.filter fun m => m.2 = name).map Prod.fst

def Desk.step (desk : Desk A) : DeskEvent A → Option (Desk A)
  | .mint name ttlHours code now w =>
      let minted := desk.minted ++ [(H.digest code, name)]
      match mint D H name ttlHours code now w desk.stored desk.disk with
      | (.minted, stored, disk) => some ⟨stored, disk, minted, desk.ended ++ desk.digestsOf name, false⟩
      | (_, stored, disk) => some { desk with stored, disk, minted }
  | .nameFor _ _ => some { desk with stored := refreshed D desk.disk desk.stored }
  | .redeem code now w =>
      match redeem D H code now w desk.stored desk.disk with
      | (none, stored, disk) => some { desk with stored, disk }
      | (some _, stored, disk) => some { desk with
          stored
          disk
          ended := desk.ended ++ [H.digest code]
          exposed := match w with
            | .placed _ => false
            | .failed => desk.exposed || (readInvites D A desk.disk).any fun entry => entry.digest = H.digest code }
  | .revoke name w =>
      match revoke D name w desk.stored desk.disk with
      | (some true, stored, disk) => some { desk with
          stored, disk, ended := desk.ended ++ desk.digestsOf name, exposed := false }
      | (_, stored, disk) => some { desk with stored, disk }
  | .restart => some { desk with stored := ⟨readInvites D A desk.disk, Cached.stampOf desk.disk⟩ }

/-- The times of an invitation are doubles, the digest of a new code was never seen before, and a restart comes only
when the file holds no code that was redeemed. -/
def Desk.Sound (desk : Desk A) : DeskEvent A → Prop
  | .mint _ ttlHours code now _ => D.asU64 (D.ofU64 now) = some now ∧
      D.asU64 (D.ofU64 (expiry now ttlHours)) = some (expiry now ttlHours) ∧
      (∀ m ∈ desk.minted, m.1 ≠ H.digest code) ∧ H.digest code ∉ desk.ended
  | .nameFor _ _ => True
  | .redeem _ _ _ => True
  | .revoke _ _ => True
  | .restart => desk.exposed = false

end

/-- A store that was never used. -/
def Desk.empty : Desk A := ⟨⟨[], none⟩, none, [], [], false⟩

/-! ## The invariant -/

/-- Invitations that were made and can be written. -/
structure Kept (D : DoubleOps) (minted : List (Bytes × Name A)) (entries : List (Invite A)) : Prop extends
    Proper D entries where
  known : ∀ entry ∈ entries, (entry.digest, entry.name) ∈ minted

/-- None of the entries was ended. -/
def Gone (ended : List Bytes) (entries : List (Invite A)) : Prop := ∀ entry ∈ entries, entry.digest ∉ ended

structure Desk.Inv (D : DoubleOps) (desk : Desk A) : Prop where
  current : desk.stored.seen = Cached.stampOf desk.disk
  distinct : desk.minted.Pairwise fun a b => a.1 ≠ b.1
  memory : Kept D desk.minted desk.stored.entries
  gone : Gone desk.ended desk.stored.entries
  file : Kept D desk.minted (readInvites D A desk.disk)
  saved : desk.exposed = false → Gone desk.ended (readInvites D A desk.disk)

theorem Kept.nil (minted : List (Bytes × Name A)) : Kept D.toDoubleOps minted ([] : List (Invite A)) :=
  ⟨⟨.nil, Nat.zero_le _, by simp⟩, by simp⟩

theorem Desk.Inv.empty : (Desk.empty : Desk A).Inv D.toDoubleOps :=
  ⟨rfl, .nil, Kept.nil _, fun _ h => (nomatch h), Kept.nil _, fun _ _ h => (nomatch h)⟩

theorem Kept.filter {minted : List (Bytes × Name A)} {entries : List (Invite A)} (h : Kept D.toDoubleOps minted entries)
    (p : Invite A → Bool) : Kept D.toDoubleOps minted (entries.filter p) :=
  ⟨⟨h.names.filter p, (List.length_filter_le _ _).trans h.few,
    fun entry hentry => h.storable entry (List.mem_of_mem_filter hentry)⟩,
    fun entry hentry => h.known entry (List.mem_of_mem_filter hentry)⟩

theorem Kept.mono {minted : List (Bytes × Name A)} {entries : List (Invite A)} (h : Kept D.toDoubleOps minted entries)
    (m : Bytes × Name A) : Kept D.toDoubleOps (minted ++ [m]) entries :=
  ⟨h.toProper, fun entry hentry => List.mem_append_left _ (h.known entry hentry)⟩

theorem Gone.filter {ended : List Bytes} {entries : List (Invite A)} (h : Gone ended entries) (p : Invite A → Bool) :
    Gone ended (entries.filter p) := fun entry hentry => h entry (List.mem_of_mem_filter hentry)

/-! ## What the operations leave -/

theorem Desk.Inv.refreshed {desk : Desk A} (h : desk.Inv D.toDoubleOps) :
    refreshed D.toDoubleOps desk.disk desk.stored = desk.stored := if_pos h.current.symm

theorem Desk.Inv.name_unique {desk : Desk A} (h : desk.Inv D.toDoubleOps) {digest : Bytes} {a b : Name A}
    (ha : (digest, a) ∈ desk.minted) (hb : (digest, b) ∈ desk.minted) : a = b := by
  have hnodup : (desk.minted.map Prod.fst).Nodup := List.pairwise_map.mpr h.distinct
  exact congrArg Prod.snd (List.inj_on_of_nodup_map hnodup ha hb rfl)

/-- An invitation whose digest was made for a name has that name. -/
theorem Desk.Inv.name_of_mem_digestsOf {desk : Desk A} (h : desk.Inv D.toDoubleOps) {name : Name A} {entry : Invite A}
    (hentry : (entry.digest, entry.name) ∈ desk.minted) (hdigest : entry.digest ∈ desk.digestsOf name) :
    entry.name = name := by
  obtain ⟨⟨digest, other⟩, hmem, heq⟩ := List.mem_map.mp hdigest
  obtain ⟨hmem, hname⟩ := List.mem_filter.mp hmem
  cases (heq : digest = entry.digest)
  rw [h.name_unique hentry hmem]
  simpa using hname

/-- A code is redeemed by an entry with its digest. -/
theorem nameFor_some {presented : Bytes} {now : Nat} {entries : List (Invite A)} {name : Name A}
    (h : nameFor presented now entries = some name) : ∃ entry ∈ entries, entry.digest = presented := by
  obtain ⟨entry, hlast, -⟩ := Option.map_eq_some_iff.mp h
  obtain ⟨hmem, hhit⟩ := List.mem_filter.mp (List.mem_of_getLast? hlast)
  simp only [hit, Bool.and_eq_true, decide_eq_true_eq] at hhit
  exact ⟨entry, hmem, hhit.2⟩

/-- Of two entries with one digest there is one. -/
theorem Desk.Inv.entry_unique {desk : Desk A} (h : desk.Inv D.toDoubleOps) {a b : Invite A}
    (ha : a ∈ desk.stored.entries) (hb : b ∈ desk.stored.entries) (hdigest : a.digest = b.digest) : a = b := by
  have hnodup : (desk.stored.entries.map Invite.name).Nodup := List.pairwise_map.mpr h.memory.names
  refine List.inj_on_of_nodup_map hnodup ha hb ?_
  exact h.name_unique (h.memory.known a ha) (hdigest ▸ h.memory.known b hb)

/-- A write that took place puts the invitations in memory into the file. -/
theorem Desk.Inv.placed {minted : List (Bytes × Name A)} {ended : List Bytes} {entries : List (Invite A)}
    (hdistinct : minted.Pairwise fun a b => a.1 ≠ b.1) (hmemory : Kept D.toDoubleOps minted entries)
    (hgone : Gone ended entries) (stamp : Nat) (disk : Option (Cached.File Str)) :
    Desk.Inv D.toDoubleOps ⟨⟨entries, some stamp⟩, written D.toDoubleOps entries (.placed stamp) disk, minted, ended,
      false⟩ := by
  have hread := readInvites_written hmemory.toProper stamp disk
  refine ⟨rfl, hdistinct, hmemory, hgone, ?_, fun _ => ?_⟩
  · rw [hread]
    exact hmemory
  · rw [hread]
    exact hgone

/-! ## One step -/

variable {H : Sha256}

theorem Desk.Inv.mint {desk desk' : Desk A} (h : desk.Inv D.toDoubleOps) {name : Name A} {ttlHours now : Nat} {code : Str}
    {w : Cached.Write} (hsound : desk.Sound D.toDoubleOps H (.mint name ttlHours code now w))
    (hstep : desk.step D.toDoubleOps H (.mint name ttlHours code now w) = some desk') : desk'.Inv D.toDoubleOps := by
  obtain ⟨hnow, hexpiry, hfresh, hended⟩ := hsound
  have hdistinct : (desk.minted ++ [(H.digest code, name)]).Pairwise fun a b => a.1 ≠ b.1 := by
    refine List.pairwise_append.mpr ⟨h.distinct, List.pairwise_singleton _ _, ?_⟩
    intro a ha b hb
    rw [List.mem_singleton.mp hb]
    exact hfresh a ha
  have hrest := (h.memory.filter fun entry => entry.name ≠ name && entry.liveAt now).mono (H.digest code, name)
  have hrestgone := h.gone.filter fun entry => entry.name ≠ name && entry.liveAt now
  simp only [Desk.step, Admin.mint, h.refreshed] at hstep
  by_cases hfull : maxInvites ≤ (superseded name now desk.stored.entries).length
  · simp only [hfull, ↓reduceIte] at hstep
    cases hstep
    exact ⟨h.current, hdistinct, hrest, hrestgone, h.file.mono _, h.saved⟩
  · simp only [hfull, ↓reduceIte] at hstep
    have hmemory : Kept D.toDoubleOps (desk.minted ++ [(H.digest code, name)])
        (superseded name now desk.stored.entries ++ [⟨name, H.digest code, now, expiry now ttlHours⟩]) := by
      refine ⟨⟨List.pairwise_append.mpr ⟨hrest.names, List.pairwise_singleton _ _, ?_⟩, ?_, ?_⟩, ?_⟩
      · intro a ha b hb
        rw [List.mem_singleton.mp hb]
        have hother := (List.mem_filter.mp ha).2
        simp only [Bool.and_eq_true, decide_eq_true_eq] at hother
        exact hother.1
      · rw [List.length_append, List.length_singleton]
        omega
      · intro entry hentry
        rcases List.mem_append.mp hentry with hentry | hentry
        · exact hrest.storable entry hentry
        · rw [List.mem_singleton.mp hentry]
          exact ⟨H.length_digest code, hnow, hexpiry⟩
      · intro entry hentry
        rcases List.mem_append.mp hentry with hentry | hentry
        · exact hrest.known entry hentry
        · rw [List.mem_singleton.mp hentry]
          exact List.mem_append_right _ (List.mem_singleton_self _)
    cases w with
    | failed =>
        cases hstep
        refine ⟨h.current, hdistinct, hmemory, ?_, h.file.mono _, h.saved⟩
        intro entry hentry
        rcases List.mem_append.mp hentry with hentry | hentry
        · exact hrestgone entry hentry
        · rw [List.mem_singleton.mp hentry]
          exact hended
    | placed stamp =>
        cases hstep
        have hgone : Gone (desk.ended ++ desk.digestsOf name)
            (superseded name now desk.stored.entries ++ [⟨name, H.digest code, now, expiry now ttlHours⟩]) := by
          intro entry hentry hgone
          rcases List.mem_append.mp hentry with hentry | hentry
          · obtain ⟨hmem, hother⟩ := List.mem_filter.mp hentry
            rcases List.mem_append.mp hgone with hgone | hgone
            · exact h.gone entry hmem hgone
            · have hname := h.name_of_mem_digestsOf (h.memory.known entry hmem) hgone
              simp [hname] at hother
          · rw [List.mem_singleton.mp hentry] at hgone
            rcases List.mem_append.mp hgone with hgone | hgone
            · exact hended hgone
            · obtain ⟨m, hm, heq⟩ := List.mem_map.mp hgone
              exact hfresh m (List.mem_of_mem_filter hm) heq
        exact Desk.Inv.placed hdistinct hmemory hgone stamp desk.disk

theorem Desk.Inv.redeem {desk desk' : Desk A} (h : desk.Inv D.toDoubleOps) {now : Nat} {code : Str} {w : Cached.Write}
    (hstep : desk.step D.toDoubleOps H (.redeem code now w) = some desk') : desk'.Inv D.toDoubleOps := by
  simp only [Desk.step, Admin.redeem, h.refreshed] at hstep
  cases hname : nameFor (H.digest code) now desk.stored.entries with
  | none =>
      simp only [hname] at hstep
      cases hstep
      exact h
  | some name =>
      simp only [hname] at hstep
      have hmemory : Kept D.toDoubleOps desk.minted (redeemed (H.digest code) now desk.stored.entries) :=
        h.memory.filter fun entry => !hit (H.digest code) now entry
      have hgone : Gone (desk.ended ++ [H.digest code]) (redeemed (H.digest code) now desk.stored.entries) := by
        intro entry hentry hgone
        obtain ⟨hmem, hmiss⟩ := List.mem_filter.mp hentry
        rcases List.mem_append.mp hgone with hgone | hgone
        · exact h.gone entry hmem hgone
        · -- The entry that was hit is the only one with its digest.
          rw [nameFor, Option.map_eq_some_iff] at hname
          obtain ⟨used, hlast, -⟩ := hname
          obtain ⟨hused, hhit⟩ := List.mem_filter.mp (List.mem_of_getLast? hlast)
          have hdigest : used.digest = entry.digest := by
            simp only [hit, Bool.and_eq_true, decide_eq_true_eq] at hhit
            rw [hhit.2, List.mem_singleton.mp hgone]
          rw [h.entry_unique hused hmem hdigest] at hhit
          simp [hhit] at hmiss
      cases w with
      | placed stamp =>
          cases hstep
          exact Desk.Inv.placed h.distinct hmemory hgone stamp desk.disk
      | failed =>
          cases hstep
          refine ⟨rfl, h.distinct, hmemory, hgone, h.file, fun he => ?_⟩
          obtain ⟨hexposed, hfile⟩ := Bool.or_eq_false_iff.mp he
          intro entry hentry hgone
          rcases List.mem_append.mp hgone with hgone | hgone
          · exact h.saved hexposed entry hentry hgone
          · exact absurd (List.mem_singleton.mp hgone) (by simpa using List.any_eq_false.mp hfile entry hentry)

theorem Desk.Inv.revoke {desk desk' : Desk A} (h : desk.Inv D.toDoubleOps) {name : Name A} {w : Cached.Write}
    (hstep : desk.step D.toDoubleOps H (.revoke name w) = some desk') : desk'.Inv D.toDoubleOps := by
  simp only [Desk.step, Admin.revoke, h.refreshed] at hstep
  have hmemory : Kept D.toDoubleOps desk.minted (revoked name desk.stored.entries) :=
    h.memory.filter fun entry => entry.name ≠ name
  by_cases hnone : (revoked name desk.stored.entries).length = desk.stored.entries.length
  · simp only [hnone, ↓reduceIte] at hstep
    cases hstep
    exact h
  · simp only [hnone, ↓reduceIte] at hstep
    cases w with
    | failed =>
        cases hstep
        exact ⟨h.current, h.distinct, hmemory, h.gone.filter _, h.file, h.saved⟩
    | placed stamp =>
        cases hstep
        have hgone : Gone (desk.ended ++ desk.digestsOf name) (revoked name desk.stored.entries) := by
          intro entry hentry hgone
          obtain ⟨hmem, hother⟩ := List.mem_filter.mp hentry
          rcases List.mem_append.mp hgone with hgone | hgone
          · exact h.gone entry hmem hgone
          · have hname := h.name_of_mem_digestsOf (h.memory.known entry hmem) hgone
            simp [hname] at hother
        exact Desk.Inv.placed h.distinct hmemory hgone stamp desk.disk

theorem Desk.Inv.step {desk desk' : Desk A} {event : DeskEvent A} (h : desk.Inv D.toDoubleOps)
    (hsound : desk.Sound D.toDoubleOps H event) (hstep : desk.step D.toDoubleOps H event = some desk') :
    desk'.Inv D.toDoubleOps := by
  cases event with
  | mint name ttlHours code now w => exact h.mint hsound hstep
  | nameFor code now =>
      simp only [Desk.step, h.refreshed] at hstep
      cases hstep
      exact h
  | redeem code now w => exact h.redeem hstep
  | revoke name w => exact h.revoke hstep
  | restart =>
      cases hstep
      exact ⟨rfl, h.distinct, h.file, h.saved hsound, h.file, h.saved⟩

/-- Whatever the store goes through, a code that was ended names nobody and redeems nothing. -/
theorem invites_stay_ended {desk : Desk A} {events : List (DeskEvent A)}
    (hrun : Run (Desk.step D.toDoubleOps H) (Desk.Sound D.toDoubleOps H) .empty events desk) {code : Str}
    (hended : H.digest code ∈ desk.ended) (now : Nat) (w : Cached.Write) :
    nameFor (H.digest code) now (refreshed D.toDoubleOps desk.disk desk.stored).entries = none ∧
      (redeem D.toDoubleOps H code now w desk.stored desk.disk).1 = none := by
  have hinv := hrun.invariant (fun _ _ _ h hsound hstep => Desk.Inv.step h hsound hstep) Desk.Inv.empty
  have hname : nameFor (H.digest code) now desk.stored.entries = none := by
    cases hname : nameFor (H.digest code) now desk.stored.entries with
    | none => rfl
    | some name =>
        obtain ⟨entry, hentry, hdigest⟩ := nameFor_some hname
        exact absurd (hdigest ▸ hended) (hinv.gone entry hentry)
  rw [hinv.refreshed]
  refine ⟨hname, ?_⟩
  simp only [Admin.redeem, hinv.refreshed, hname]

end Selfhost.Admin
