import Mathlib.Data.List.Nodup
import Selfhost.Login.Session

/-!
# Runs of the session store

Operations of one process on its sessions and their file, in any order, with writes that may fail and restarts that
read the file again.
-/

namespace Selfhost.Login

open Selfhost.Lib Selfhost.Json

/-! ## The system -/

/-- What was minted: a session, and when it was last used. -/
structure Minted where
  id : Str
  accountId : Str
  createdUnix : Nat
  usedUnix : Nat
  deriving DecidableEq, Repr

/-- The record of a use. -/
def usedAt (presented : Str) (now : Nat) (m : Minted) : Minted :=
  if m.id = presented then { m with usedUnix := now } else m

/-- The store with its file, and the history that the properties speak of. -/
structure Door where
  entries : List Session
  file : Option Str
  clock : Nat
  minted : List Minted
  /-- The cookies that were ended. -/
  ended : List Str
  /-- A cookie was ended that the file still holds. -/
  exposed : Bool
  deriving DecidableEq

inductive DoorEvent where
  | create (accountId id : Str) (now : Nat) (ok : Bool)
  | accountOf (presented : Str) (now : Nat) (ok : Bool)
  | endSession (presented : Str) (ok : Bool)
  | endAllFor (accountId : Str) (ok : Bool)
  | restart
  deriving DecidableEq

section

variable (D : DoubleOps) (config : SessionConfig)

/-- Whether the file holds a live session that a test picks. -/
def holds (door : Door) (p : Session → Bool) : Bool :=
  (load D door.file).any fun session => p session && session.live config door.clock

/-- An operation that ended some cookies and is left with `rest`: without a change it writes nothing. -/
def Door.dropped (door : Door) (rest : List Session) (ended : List Str) (p : Session → Bool) (ok : Bool) : Door :=
  if rest.length = door.entries.length then
    { door with ended := door.ended ++ ended, exposed := door.exposed || holds D config door p }
  else
    { door with
      entries := rest
      file := persist D ok rest door.file
      ended := door.ended ++ ended
      exposed := !ok && (door.exposed || holds D config door p) }

def Door.step (door : Door) : DoorEvent → Option Door
  | .create accountId id now ok =>
      let entries := create config accountId id now door.entries
      some { door with
        entries
        file := persist D ok entries door.file
        clock := now
        minted := door.minted ++ [⟨id, accountId, now, now⟩]
        exposed := !ok && door.exposed }
  | .accountOf presented now ok =>
      match accountOf config presented now door.entries with
      | (none, entries) => some { door with entries, clock := now }
      | (some _, entries) => some { door with
          entries
          file := persist D ok entries door.file
          clock := now
          minted := door.minted.map (usedAt presented now)
          exposed := !ok && door.exposed }
  | .endSession presented ok =>
      some (door.dropped D config (endSession presented door.entries) [presented] (fun s => s.id = presented) ok)
  | .endAllFor accountId ok =>
      some (door.dropped D config (endAllFor accountId door.entries)
        ((door.minted.filter fun m => m.accountId = accountId).map Minted.id) (fun s => s.accountId = accountId) ok)
  | .restart => some { door with entries := load D door.file }

/-- The clock does not go back and shows a double, a new id was never seen before, and a restart comes only when the
file holds no session that was ended. -/
def Door.Sound (door : Door) : DoorEvent → Prop
  | .create _ id now _ => door.clock ≤ now ∧ D.asU64 (D.ofU64 now) = some now ∧ (∀ m ∈ door.minted, m.id ≠ id) ∧
      id ∉ door.ended
  | .accountOf _ now _ => door.clock ≤ now ∧ D.asU64 (D.ofU64 now) = some now
  | .endSession _ _ => True
  | .endAllFor _ _ => True
  | .restart => door.exposed = false

end

/-- A store that was never used. -/
def Door.empty : Door := ⟨[], none, 0, [], [], false⟩

/-! ## The invariant -/

variable {D : Doubles} {config : SessionConfig}

/-- A session is one that was minted, not seen later than it was used. -/
def Known (minted : List Minted) (session : Session) : Prop :=
  ∃ m ∈ minted, m.id = session.id ∧ m.accountId = session.accountId ∧ m.createdUnix = session.createdUnix ∧
    session.lastSeenUnix ≤ m.usedUnix

/-- Sessions that were minted and can be written. -/
def Held (D : DoubleOps) (minted : List Minted) (sessions : List Session) : Prop :=
  ∀ session ∈ sessions, Known minted session ∧ session.Storable D

/-- Of the ended sessions none is live. -/
def Gone (config : SessionConfig) (ended : List Str) (clock : Nat) (sessions : List Session) : Prop :=
  ∀ session ∈ sessions, session.id ∈ ended → session.live config clock = false

structure Door.Inv (D : DoubleOps) (config : SessionConfig) (door : Door) : Prop where
  distinct : door.minted.Pairwise fun a b => a.id ≠ b.id
  used : ∀ m ∈ door.minted, m.usedUnix ≤ door.clock
  memory : Held D door.minted door.entries
  gone : Gone config door.ended door.clock door.entries
  file : Held D door.minted (load D door.file)
  saved : door.exposed = false → Gone config door.ended door.clock (load D door.file)

theorem Door.Inv.empty : Door.empty.Inv D.toDoubleOps config := by
  refine ⟨.nil, ?_, ?_, ?_, ?_, fun _ => ?_⟩ <;> intro _ h <;> cases h

/-! ## What the operations leave -/

theorem Session.live_mono {session : Session} {clock now : Nat} (h : clock ≤ now) (hlive : session.live config now = true) :
    session.live config clock = true := by
  simp only [Session.live, Bool.and_eq_true, decide_eq_true_eq] at hlive ⊢
  omega

theorem Gone.mono {ended : List Str} {clock now : Nat} {sessions : List Session} (h : Gone config ended clock sessions)
    (hnow : clock ≤ now) : Gone config ended now sessions := by
  intro session hsession hended
  by_contra hlive
  have := h session hsession hended
  rw [Session.live_mono hnow (by simpa using hlive)] at this
  cases this

/-- What was swept when the clock went on holds nothing that was ended. -/
theorem Gone.swept {ended : List Str} {clock now : Nat} {sessions : List Session} (h : Gone config ended clock sessions)
    (hnow : clock ≤ now) {session : Session} (hsession : session ∈ sweep config now sessions) : session.id ∉ ended := by
  obtain ⟨hmem, hlive⟩ := List.mem_filter.mp hsession
  intro hended
  have := h session hmem hended
  rw [Session.live_mono hnow hlive] at this
  cases this

theorem mem_removeOldest {entries : List Session} {session : Session} (h : session ∈ removeOldest entries) :
    session ∈ entries := List.mem_of_mem_eraseIdx h

theorem mem_makeRoom {max turns : Nat} {entries : List Session} {session : Session}
    (h : session ∈ makeRoom max turns entries) : session ∈ entries := by
  induction turns generalizing entries with
  | zero => exact h
  | succ turns ih =>
      simp only [makeRoom] at h
      split at h
      · exact mem_removeOldest (ih h)
      · exact h

theorem mem_create {accountId id : Str} {now : Nat} {entries : List Session} {session : Session}
    (h : session ∈ create config accountId id now entries) :
    session ∈ sweep config now entries ∨ session = ⟨id, accountId, now, now⟩ := by
  rcases List.mem_append.mp h with h | h
  · exact Or.inl (mem_makeRoom h)
  · exact Or.inr (List.mem_singleton.mp h)

/-- A lookup answers for a live session with that id, and touches the sessions with that id only. -/
theorem accountOf_cases (config : SessionConfig) (presented : Str) (now : Nat) (entries : List Session) :
    (accountOf config presented now entries = (none, sweep config now entries)) ∨
      ∃ session ∈ sweep config now entries, session.id = presented ∧
        accountOf config presented now entries = (some session.accountId, touch presented now (sweep config now entries)) := by
  unfold accountOf
  cases hfound : found presented (sweep config now entries) with
  | none => exact Or.inl (by simp [hfound])
  | some accountId =>
      obtain ⟨session, hlast, rfl⟩ := Option.map_eq_some_iff.mp hfound
      obtain ⟨hmem, hid⟩ := List.mem_filter.mp (List.mem_of_getLast? hlast)
      exact Or.inr ⟨session, hmem, by simpa using hid, by simp [hfound]⟩

/-- A write that took place puts the sessions in memory into the file; one that failed leaves the file. -/
theorem persist_inv {minted : List Minted} {ended : List Str} {clock : Nat} {entries : List Session} {file : Option Str}
    {exposed : Bool} (ok : Bool) (hmemory : Held D.toDoubleOps minted entries) (hgone : Gone config ended clock entries)
    (hfile : Held D.toDoubleOps minted (load D.toDoubleOps file))
    (hsaved : exposed = false → Gone config ended clock (load D.toDoubleOps file)) :
    Held D.toDoubleOps minted (load D.toDoubleOps (persist D.toDoubleOps ok entries file)) ∧
      ((!ok && exposed) = false → Gone config ended clock (load D.toDoubleOps (persist D.toDoubleOps ok entries file))) := by
  cases ok with
  | true =>
      rw [load_persist fun session hsession => (hmemory session hsession).2]
      exact ⟨hmemory, fun _ => hgone⟩
  | false => exact ⟨hfile, fun h => hsaved (by simpa using h)⟩

/-! ## One step -/

theorem Known.mono {minted : List Minted} {session : Session} (h : Known minted session) (m : Minted) :
    Known (minted ++ [m]) session := by
  obtain ⟨n, hn, hmatch⟩ := h
  exact ⟨n, List.mem_append_left _ hn, hmatch⟩

theorem Held.mono {minted : List Minted} {sessions : List Session} (h : Held D.toDoubleOps minted sessions) (m : Minted) :
    Held D.toDoubleOps (minted ++ [m]) sessions :=
  fun session hsession => ⟨(h session hsession).1.mono m, (h session hsession).2⟩

theorem Door.Inv.create {door : Door} (h : door.Inv D.toDoubleOps config) {accountId id : Str} {now : Nat} {ok : Bool}
    (hsound : door.Sound D.toDoubleOps (.create accountId id now ok)) {door' : Door}
    (hstep : door.step D.toDoubleOps config (.create accountId id now ok) = some door') : door'.Inv D.toDoubleOps config := by
  obtain ⟨hnow, hexact, hfresh, hended⟩ := hsound
  cases hstep
  have hmemory : Held D.toDoubleOps (door.minted ++ [⟨id, accountId, now, now⟩])
      (Login.create config accountId id now door.entries) := by
    intro session hsession
    rcases mem_create hsession with hold | rfl
    · exact h.memory.mono _ session (List.mem_of_mem_filter hold)
    · exact ⟨⟨_, List.mem_append_right _ (List.mem_singleton_self _), rfl, rfl, rfl, Nat.le_refl _⟩, hexact, hexact⟩
  have hgone : Gone config door.ended now (Login.create config accountId id now door.entries) := by
    intro session hsession hid
    rcases mem_create hsession with hold | rfl
    · exact absurd hid (h.gone.swept hnow hold)
    · exact absurd hid hended
  obtain ⟨hfile, hsaved⟩ := persist_inv ok hmemory hgone (h.file.mono _) fun he => (h.saved he).mono hnow
  refine ⟨?_, ?_, hmemory, hgone, hfile, hsaved⟩
  · refine List.pairwise_append.mpr ⟨h.distinct, List.pairwise_singleton _ _, ?_⟩
    intro a ha b hb
    rw [List.mem_singleton.mp hb]
    exact hfresh a ha
  · intro m hm
    rcases List.mem_append.mp hm with hm | hm
    · exact (h.used m hm).trans hnow
    · rw [List.mem_singleton.mp hm]

@[simp] theorem usedAt_id (presented : Str) (now : Nat) (m : Minted) : (usedAt presented now m).id = m.id := by
  unfold usedAt
  split <;> rfl

theorem Known.used {minted : List Minted} {session : Session} (h : Known minted session) {presented : Str} {now : Nat}
    (hused : ∀ m ∈ minted, m.usedUnix ≤ now) : Known (minted.map (usedAt presented now)) session := by
  obtain ⟨m, hm, hid, haccount, hcreated, hseen⟩ := h
  refine ⟨usedAt presented now m, List.mem_map_of_mem hm, by rw [usedAt_id]; exact hid, ?_⟩
  unfold usedAt
  split
  · exact ⟨haccount, hcreated, hseen.trans (hused m hm)⟩
  · exact ⟨haccount, hcreated, hseen⟩

theorem Known.touched {minted : List Minted} {session : Session} (h : Known minted session) {now : Nat} :
    Known (minted.map (usedAt session.id now)) { session with lastSeenUnix := now } := by
  obtain ⟨m, hm, hid, haccount, hcreated, -⟩ := h
  refine ⟨usedAt session.id now m, List.mem_map_of_mem hm, ?_⟩
  simp [usedAt, hid, haccount, hcreated]

theorem Door.Inv.accountOf {door door' : Door} (h : door.Inv D.toDoubleOps config) {presented : Str} {now : Nat} {ok : Bool}
    (hsound : door.Sound D.toDoubleOps (.accountOf presented now ok))
    (hstep : door.step D.toDoubleOps config (.accountOf presented now ok) = some door') : door'.Inv D.toDoubleOps config := by
  obtain ⟨hnow, hexact⟩ := hsound
  have hsubset : ∀ session ∈ sweep config now door.entries, session ∈ door.entries :=
    fun _ hsession => List.mem_of_mem_filter hsession
  have hused : ∀ m ∈ door.minted, m.usedUnix ≤ now := fun m hm => (h.used m hm).trans hnow
  rcases accountOf_cases config presented now door.entries with hanswer | ⟨session, hsession, rfl, hanswer⟩
  · simp only [Door.step, hanswer] at hstep
    cases hstep
    exact ⟨h.distinct, hused, fun s hs => h.memory s (hsubset s hs), fun s hs hid => absurd hid (h.gone.swept hnow hs),
      h.file, fun he => (h.saved he).mono hnow⟩
  · simp only [Door.step, hanswer] at hstep
    cases hstep
    have hmemory : Held D.toDoubleOps (door.minted.map (usedAt session.id now))
        (touch session.id now (sweep config now door.entries)) := by
      intro s hs
      obtain ⟨before, hbefore, rfl⟩ := List.mem_map.mp hs
      obtain ⟨hknown, hstorable⟩ := h.memory before (hsubset before hbefore)
      split
      · rename_i hid
        rw [← hid]
        exact ⟨hknown.touched, hstorable.1, hexact⟩
      · exact ⟨hknown.used hused, hstorable⟩
    have hgone : Gone config door.ended now (touch session.id now (sweep config now door.entries)) := by
      intro s hs hid
      obtain ⟨before, hbefore, rfl⟩ := List.mem_map.mp hs
      refine absurd ?_ (h.gone.swept hnow hbefore)
      split at hid
      · exact hid
      · exact hid
    have hfile : Held D.toDoubleOps (door.minted.map (usedAt session.id now)) (load D.toDoubleOps door.file) :=
      fun s hs => ⟨(h.file s hs).1.used hused, (h.file s hs).2⟩
    obtain ⟨hfile, hsaved⟩ := persist_inv ok hmemory hgone hfile fun he => (h.saved he).mono hnow
    refine ⟨?_, ?_, hmemory, hgone, hfile, hsaved⟩
    · rw [List.pairwise_map]
      exact h.distinct.imp fun hne => by simpa using hne
    · intro m hm
      obtain ⟨before, hbefore, rfl⟩ := List.mem_map.mp hm
      unfold usedAt
      split
      · exact Nat.le_refl _
      · exact hused before hbefore

theorem Door.Inv.minted_unique {door : Door} (h : door.Inv D.toDoubleOps config) {a b : Minted} (ha : a ∈ door.minted)
    (hb : b ∈ door.minted) (hid : a.id = b.id) : a = b := by
  have hnodup : (door.minted.map Minted.id).Nodup := List.pairwise_map.mpr h.distinct
  exact List.inj_on_of_nodup_map hnodup ha hb hid

/-- Ending cookies: what is left holds none of them, and the file holds none that is live unless it is exposed. -/
theorem Door.Inv.dropped {door : Door} (h : door.Inv D.toDoubleOps config) (ended : List Str) (p : Session → Bool)
    (hended : ∀ session, Known door.minted session → session.id ∈ ended → p session = true) (ok : Bool) :
    (door.dropped D.toDoubleOps config (door.entries.filter fun s => !p s) ended p ok).Inv D.toDoubleOps config := by
  have hmemory : Held D.toDoubleOps door.minted (door.entries.filter fun s => !p s) :=
    fun s hs => h.memory s (List.mem_of_mem_filter hs)
  have hgone : Gone config (door.ended ++ ended) door.clock (door.entries.filter fun s => !p s) := by
    intro s hs hid
    obtain ⟨hmem, hp⟩ := List.mem_filter.mp hs
    rcases List.mem_append.mp hid with hid | hid
    · exact h.gone s hmem hid
    · rw [hended s (h.memory s hmem).1 hid] at hp
      cases hp
  have hsaved : (door.exposed || holds D.toDoubleOps config door p) = false →
      Gone config (door.ended ++ ended) door.clock (load D.toDoubleOps door.file) := by
    intro he s hs hid
    obtain ⟨hexposed, hholds⟩ := Bool.or_eq_false_iff.mp he
    rcases List.mem_append.mp hid with hid | hid
    · exact h.saved hexposed s hs hid
    · have hnot := List.any_eq_false.mp hholds s hs
      rw [hended s (h.file s hs).1 hid] at hnot
      simpa using hnot
  unfold Door.dropped
  split
  · rename_i hlength
    have hsame : (door.entries.filter fun s => !p s) = door.entries :=
      List.filter_eq_self.mpr (List.length_filter_eq_length_iff.mp hlength)
    rw [hsame] at hgone
    exact ⟨h.distinct, h.used, h.memory, hgone, h.file, hsaved⟩
  · obtain ⟨hfile, hsaved⟩ := persist_inv ok hmemory hgone h.file hsaved
    exact ⟨h.distinct, h.used, hmemory, hgone, hfile, hsaved⟩

theorem Door.Inv.step {door door' : Door} {event : DoorEvent} (h : door.Inv D.toDoubleOps config)
    (hsound : door.Sound D.toDoubleOps event) (hstep : door.step D.toDoubleOps config event = some door') :
    door'.Inv D.toDoubleOps config := by
  cases event with
  | create accountId id now ok => exact h.create hsound hstep
  | accountOf presented now ok => exact h.accountOf hsound hstep
  | endSession presented ok =>
      have hdropped := h.dropped [presented] (fun s => s.id = presented) (fun session _ hid => by simpa using hid) ok
      cases hstep
      simpa [Login.endSession] using hdropped
  | endAllFor accountId ok =>
      have hended : ∀ session, Known door.minted session →
          session.id ∈ (door.minted.filter fun m => m.accountId = accountId).map Minted.id →
          decide (session.accountId = accountId) = true := by
        intro session hknown hid
        obtain ⟨m, hm, hmid⟩ := List.mem_map.mp hid
        obtain ⟨hm, haccount⟩ := List.mem_filter.mp hm
        obtain ⟨n, hn, hnid, hnaccount, -⟩ := hknown
        rw [h.minted_unique hn hm (hnid.trans hmid.symm)] at hnaccount
        rw [← hnaccount]
        exact haccount
      have hdropped := h.dropped _ (fun s => s.accountId = accountId) hended ok
      cases hstep
      simpa [Login.endAllFor] using hdropped
  | restart =>
      cases hstep
      exact ⟨h.distinct, h.used, h.file, h.saved hsound, h.file, h.saved⟩

/-- Whatever the store goes through, a cookie that it answers was not ended, and answers for the account it was minted
for while both lifetimes last. -/
theorem sessions_stay_ended {door : Door} {events : List DoorEvent}
    (hrun : Run (Door.step D.toDoubleOps config) (Door.Sound D.toDoubleOps) .empty events door) {presented account : Str}
    {now : Nat} (hnow : door.clock ≤ now) (hanswer : (accountOf config presented now door.entries).1 = some account) :
    presented ∉ door.ended ∧ ∃ m, (door.minted.find? fun m => m.id = presented) = some m ∧ m.accountId = account ∧
      now - m.createdUnix < config.lifetimeSecs ∧ now - m.usedUnix < config.idleSecs := by
  have hinv := hrun.invariant (fun _ _ _ h hsound hstep => Door.Inv.step h hsound hstep) Door.Inv.empty
  rcases accountOf_cases config presented now door.entries with heq | ⟨session, hsession, rfl, heq⟩
  · rw [heq] at hanswer
    cases hanswer
  · rw [heq] at hanswer
    cases hanswer
    obtain ⟨hmem, hlive⟩ := List.mem_filter.mp hsession
    refine ⟨hinv.gone.swept hnow hsession, ?_⟩
    obtain ⟨m, hm, hid, haccount, hcreated, hseen⟩ := (hinv.memory session hmem).1
    simp only [Session.live, Bool.and_eq_true, decide_eq_true_eq] at hlive
    refine ⟨m, ?_, haccount, by omega, by omega⟩
    cases hfind : door.minted.find? fun m => m.id = session.id with
    | none => exact absurd hid (by simpa using List.find?_eq_none.mp hfind m hm)
    | some other =>
        have hother : other.id = session.id := by simpa using List.find?_some hfind
        exact congrArg some (hinv.minted_unique (List.mem_of_find?_eq_some hfind) hm (hother.trans hid.symm))

end Selfhost.Login
