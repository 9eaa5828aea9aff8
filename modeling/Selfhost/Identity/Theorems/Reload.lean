import Selfhost.Identity.Lemmas.Stored
import Selfhost.Identity.Theorems.Registry

/-!
# Handles in several processes

The daemon and the command line each hold a handle on the registry's file and take its steps in any order.
-/

namespace Selfhost.Identity

open Selfhost.Lib Selfhost.Names Selfhost.Json

variable {A : Alphabet} {C : Casing} {D : DoubleOps} {ι : Type}

/-- The handles and the file of the registry. -/
abbrev Registries (A : Alphabet) (C : Casing) (ι : Type) : Type :=
  Cached.World Str (List (Person A C)) (Request A C) ι

/-- Some file or none, and no handle yet. -/
structure Registries.Fresh (w : Registries A C ι) : Prop where
  disk : Cached.Issued w.next (Cached.stampOf w.disk)
  procs : ∀ p, (w.procs p).phase = .unloaded ∧ (w.procs p).stored.seen = none

theorem Registries.Fresh.coherent {w : Registries A C ι} (h : w.Fresh) : Cached.Coherent (people D A C) w := by
  refine ⟨h.disk, fun p s hs => ?_, fun p => ?_⟩
  · rw [(h.procs p).2] at hs
    cases hs
  · rw [Cached.Promise, (h.procs p).1]
    trivial

variable [DecidableEq ι]

/-- When nobody replaces the file under a handle that is to write or has just written, writes that change something
succeed, and what is written is read back, then every handle at rest answers for the file, and whoever is about to
replace the file has read it. -/
theorem handles_answer_for_the_file {w w' : Registries A C ι} {events : List (Cached.Event (Request A C) ι)}
    (hfresh : w.Fresh) (hrun : Run (Cached.World.step (people D A C)) (Cached.Calm (people D A C)) w events w') :
    (∀ p, (w'.procs p).phase = .idle → ∀ write,
        (Cached.call (people D A C) .list write (w'.procs p).stored w'.disk).1
          = .people ((people D A C).read (Cached.textOf w'.disk))) ∧
      ∀ p, (w'.procs p).phase = .changed → (w'.procs p).basis = Cached.stampOf w'.disk := by
  have hcoherent := Cached.Coherent.run hrun hfresh.coherent
  exact ⟨fun p hp _ => congrArg Answer.people (hcoherent.lock_entries hp), fun p hp => hcoherent.basis hp⟩

/-! ## A revocation that is masked -/

section

def daemon : Bool := true

def cli : Bool := false

def sampleWorld : Registries asciiAlphabet sampleCasing Bool :=
  ⟨none, 0, fun _ => ⟨⟨[], none⟩, .unloaded, none⟩⟩

/-- Both handles are built. -/
def sampleLoads : List (Cached.Event (Request asciiAlphabet sampleCasing) Bool) :=
  [.load daemon, .step daemon true, .step daemon true, .load cli, .step cli true, .step cli true]

/-- The daemon grants, up to its rename. -/
def sampleGrant : List (Cached.Event (Request asciiAlphabet sampleCasing) Bool) :=
  [.enter daemon (.setGrants sampleMom (grantsOf .consoleRead) 7), .step daemon true, .step daemon true,
    .step daemon true]

/-- The command line revokes. -/
def sampleRevocation : List (Cached.Event (Request asciiAlphabet sampleCasing) Bool) :=
  [.enter cli (.setGrants sampleMom .none 8), .step cli true, .step cli true, .step cli true, .step cli true,
    .step cli true, .step cli true]

end

theorem sampleWorld_fresh : sampleWorld.Fresh := by
  refine ⟨?_, fun _ => ⟨rfl, rfl⟩⟩
  rintro s ⟨⟩

example : samplePeople.read (Cached.textOf sampleWorld.disk) = [] := by decide +kernel

/-- The command line's revocation falls between the daemon's rename and the daemon's last stat: with no operation under
way the file grants nothing, and the daemon answers with the grant. -/
theorem revocation_masked : ∃ w, Run (Cached.World.step samplePeople) (fun _ _ => True) sampleWorld
      (sampleLoads ++ sampleGrant ++ sampleRevocation ++ [.step daemon true]) w ∧
    (∀ p, (w.procs p).phase = .idle) ∧
    samplePeople.read (Cached.textOf w.disk) = [⟨sampleMom, .none, 7, none⟩] ∧
    (Cached.call samplePeople .list .failed (w.procs daemon).stored w.disk).1
      = .people [⟨sampleMom, grantsOf .consoleRead, 7, none⟩] := by
  have hmap : (exec (Cached.World.step samplePeople) (fun _ _ => True) sampleWorld
      (sampleLoads ++ sampleGrant ++ sampleRevocation ++ [.step daemon true])).map (fun w =>
        ((w.procs daemon).phase, (w.procs cli).phase, samplePeople.read (Cached.textOf w.disk),
          (Cached.call samplePeople .list .failed (w.procs daemon).stored w.disk).1))
      = some (.idle, .idle, [⟨sampleMom, .none, 7, none⟩],
          .people [⟨sampleMom, grantsOf .consoleRead, 7, none⟩]) := by decide +kernel
  obtain ⟨w, hexec, h⟩ := Option.map_eq_some_iff.mp hmap
  simp only [Prod.mk.injEq] at h
  refine ⟨w, Run.of_exec hexec, ?_, h.2.2.1, h.2.2.2⟩
  intro p
  cases p with
  | true => exact h.1
  | false => exact h.2.1

/-- The file is replaced while every other handle is at rest, by text that is read back. -/
def Alone (w : Registries asciiAlphabet sampleCasing Bool) :
    Cached.Event (Request asciiAlphabet sampleCasing) Bool → Prop
  | .step p ok => (w.procs p).phase = .changed → ok = true ∧ (w.procs !p).phase = .idle ∧
      samplePeople.read (some (samplePeople.render (w.procs p).stored.entries)) = (w.procs p).stored.entries
  | _ => True

instance (w : Registries asciiAlphabet sampleCasing Bool)
    (event : Cached.Event (Request asciiAlphabet sampleCasing) Bool) : Decidable (Alone w event) :=
  match event with
  | .load _ => isTrue trivial
  | .enter _ _ => isTrue trivial
  | .step p ok => inferInstanceAs (Decidable ((w.procs p).phase = .changed → ok = true ∧ (w.procs !p).phase = .idle ∧
      samplePeople.read (some (samplePeople.render (w.procs p).stored.entries)) = (w.procs p).stored.entries))

theorem Alone.calm {w : Registries asciiAlphabet sampleCasing Bool}
    {event : Cached.Event (Request asciiAlphabet sampleCasing) Bool} (h : Alone w event) :
    Cached.Calm samplePeople w event := by
  cases event with
  | load p => trivial
  | enter p r => trivial
  | step p ok =>
      intro hphase
      obtain ⟨rfl, hidle, hread⟩ := h hphase
      rw [if_pos rfl]
      refine ⟨fun q hq hcommitted => ?_, hread⟩
      rw [Bool.eq_not_of_ne hq] at hcommitted
      rcases hcommitted with h | h | ⟨r, _, _, _, h, -⟩ <;> rw [hidle] at h <;> cases h

/-- The revocation is seen when it comes after the daemon's last stat. -/
theorem handles_answer_revoked : ∃ w, Run (Cached.World.step samplePeople) (Cached.Calm samplePeople) sampleWorld
      (sampleLoads ++ sampleGrant ++ [.step daemon true] ++ sampleRevocation) w ∧
    (Cached.call samplePeople .list .failed (w.procs daemon).stored w.disk).1
      = .people (samplePeople.read (Cached.textOf w.disk)) := by
  have hmap : (exec (Cached.World.step samplePeople) Alone sampleWorld
      (sampleLoads ++ sampleGrant ++ [.step daemon true] ++ sampleRevocation)).map (fun w => (w.procs daemon).phase)
      = some .idle := by decide +kernel
  obtain ⟨w, hexec, hidle⟩ := Option.map_eq_some_iff.mp hmap
  have hrun := (Run.of_exec hexec).mono fun _ _ => Alone.calm
  exact ⟨w, hrun, (handles_answer_for_the_file sampleWorld_fresh hrun).1 daemon hidle .failed⟩

end Selfhost.Identity

/-!
# What the registry writes it reads back

Every registry that calls through a handle lead to is read back from the text it is written as, as long as no address
has grown beyond the longest one when it was put in lower case.
-/

namespace Selfhost.Identity

open Selfhost.Lib Selfhost.Names Selfhost.Json

variable {A : Alphabet} {C : Casing} {D : Doubles} {entries entries' : List (Person A C)}

/-- A request that brings in nothing the file cannot hold; it brings in a time only where it creates an entry. -/
def Request.Storable (D : DoubleOps) (entries : List (Person A C)) : Request A C → Prop
  | .setGrants name _ now => find name entries = none → D.asU64 (D.ofU64 now) = some now
  | .setEmail _ (some email) => email.text.length ≤ maxEmailChars
  | _ => True

/-! ## What a change brings in -/

theorem mem_modify {name : Name A} {f : Person A C → Person A C} {entry : Person A C}
    (h : entry ∈ modify name f entries) : entry ∈ entries ∨ ∃ before ∈ entries, entry = f before := by
  induction entries with
  | nil => cases h
  | cons first rest ih =>
      simp only [modify] at h
      split at h
      · rcases List.mem_cons.mp h with rfl | h
        · exact Or.inr ⟨first, List.mem_cons_self, rfl⟩
        · exact Or.inl (List.mem_cons_of_mem _ h)
      · rcases List.mem_cons.mp h with rfl | h
        · exact Or.inl List.mem_cons_self
        · rcases ih h with h | ⟨before, hmem, heq⟩
          · exact Or.inl (List.mem_cons_of_mem _ h)
          · exact Or.inr ⟨before, List.mem_cons_of_mem _ hmem, heq⟩

theorem storable_setGrants {name : Name A} {grants : Grants} {now : Nat}
    (h : ∀ entry ∈ entries, entry.Storable D.toDoubleOps)
    (hnow : find name entries = none → D.asU64 (D.ofU64 now) = some now)
    (hset : setGrants name grants now entries = .ok entries') :
    ∀ entry ∈ entries', entry.Storable D.toDoubleOps := by
  intro entry hentry
  unfold Identity.setGrants at hset
  split at hset
  · cases hset
  · split at hset
    · cases hset
      rcases mem_modify hentry with hmem | ⟨before, hmem, rfl⟩
      · exact h entry hmem
      · exact h before hmem
    · rename_i hnew
      split at hset
      · cases hset
      · cases hset
        rcases List.mem_append.mp hentry with hmem | hmem
        · exact h entry hmem
        · rw [List.mem_singleton.mp hmem]
          exact ⟨by simp, hnow hnew⟩

theorem storable_setEmail {name : Name A} {email : Option (PersonEmail C)}
    (h : ∀ entry ∈ entries, entry.Storable D.toDoubleOps)
    (hshort : ∀ wanted, email = some wanted → wanted.text.length ≤ maxEmailChars)
    (hset : setEmail name email entries = .ok entries') :
    ∀ entry ∈ entries', entry.Storable D.toDoubleOps := by
  intro entry hentry
  obtain ⟨rfl, -⟩ := setEmail_ok hset
  rcases mem_modify hentry with hmem | ⟨before, hmem, rfl⟩
  · exact h entry hmem
  · exact ⟨hshort, (h before hmem).2⟩

theorem storable_plan {request : Request A C} {written failed : Answer A C}
    (h : ∀ entry ∈ entries, entry.Storable D.toDoubleOps) (hrequest : request.Storable D.toDoubleOps entries)
    (hplan : request.plan entries = .write entries' written failed) :
    ∀ entry ∈ entries', entry.Storable D.toDoubleOps := by
  rcases plan_write hplan with ⟨_, _, _, rfl, hset⟩ | ⟨_, email, rfl, hset⟩ | ⟨_, -, hremove⟩
  · exact storable_setGrants h hrequest hset
  · refine storable_setEmail h (fun wanted hwanted => ?_) hset
    subst hwanted
    exact hrequest
  · obtain ⟨-, rfl⟩ := remove_ok hremove
    exact fun entry hentry => h entry (List.mem_of_mem_filter hentry)

/-! ## What a file brings in -/

/-- The times of a file are doubles. -/
theorem asU64_parsePerson {item : Value D.F} (h : parsePerson D.toDoubleOps A C entries item = some entries')
    (hentries : ∀ entry ∈ entries, D.asU64 (D.ofU64 entry.addedUnix) = some entry.addedUnix) :
    ∀ entry ∈ entries', D.asU64 (D.ofU64 entry.addedUnix) = some entry.addedUnix := by
  obtain ⟨_, -, h⟩ := Option.bind_eq_some_iff.mp h
  obtain ⟨_, -, h⟩ := Option.bind_eq_some_iff.mp h
  obtain ⟨_, -, h⟩ := Option.bind_eq_some_iff.mp h
  split at h
  · cases h
  obtain ⟨_, -, h⟩ := Option.bind_eq_some_iff.mp h
  obtain ⟨_, -, h⟩ := Option.bind_eq_some_iff.mp h
  obtain ⟨_, -, h⟩ := Option.bind_eq_some_iff.mp h
  obtain ⟨_, -, h⟩ := Option.bind_eq_some_iff.mp h
  obtain ⟨_, -, h⟩ := Option.bind_eq_some_iff.mp h
  obtain ⟨value, -, h⟩ := Option.bind_eq_some_iff.mp h
  obtain ⟨addedUnix, hadded, h⟩ := Option.bind_eq_some_iff.mp h
  cases h
  intro entry hentry
  rcases List.mem_append.mp hentry with hmem | hmem
  · exact hentries entry hmem
  · rw [List.mem_singleton.mp hmem]
    cases value with
    | number n => exact D.asU64_stable n addedUnix hadded
    | null => cases hadded
    | bool b => cases hadded
    | string s => cases hadded
    | array items => cases hadded
    | object fields => cases hadded

theorem asU64_foldlM {items : List (Value D.F)}
    (h : items.foldlM (parsePerson D.toDoubleOps A C) entries = some entries')
    (hentries : ∀ entry ∈ entries, D.asU64 (D.ofU64 entry.addedUnix) = some entry.addedUnix) :
    ∀ entry ∈ entries', D.asU64 (D.ofU64 entry.addedUnix) = some entry.addedUnix := by
  induction items generalizing entries with
  | nil =>
      cases h
      exact hentries
  | cons item items ih =>
      rw [List.foldlM_cons] at h
      obtain ⟨next, hnext, h⟩ := Option.bind_eq_some_iff.mp h
      exact ih h (asU64_parsePerson hnext hentries)

theorem asU64_read (text : Option Str) : ∀ entry ∈ (people D.toDoubleOps A C).read text,
    D.asU64 (D.ofU64 entry.addedUnix) = some entry.addedUnix := by
  simp only [people]
  cases hread : text.bind (parsePeople D.toDoubleOps A C) with
  | none => simp
  | some entries =>
      obtain ⟨text, -, h⟩ := Option.bind_eq_some_iff.mp hread
      obtain ⟨_, -, h⟩ := Option.bind_eq_some_iff.mp h
      obtain ⟨_, -, h⟩ := Option.bind_eq_some_iff.mp h
      obtain ⟨items, -, h⟩ := Option.bind_eq_some_iff.mp h
      split at h
      · cases h
      · exact asU64_foldlM h (by simp)

/-! ## Every sequence of calls -/

/-- When every address that is set, and every one in the first file, is no longer in lower case than an address may be,
and the clock shows a double whenever an entry is created, every registry reached is read back from what is written for it. -/
theorem registry_reads_back {disk : Option (Cached.File Str)} {calls : List (Request A C × Cached.Write)}
    {s : Cached.Stored (List (Person A C)) × Option (Cached.File Str)}
    (hshort : ∀ entry ∈ (Cached.loaded (people D.toDoubleOps A C) disk).entries, ∀ email, entry.email = some email →
      email.text.length ≤ maxEmailChars)
    (hrun : Run (Cached.callStep (people D.toDoubleOps A C)) (fun s a => a.1.Storable D.toDoubleOps s.1.entries)
      (Cached.loaded (people D.toDoubleOps A C) disk, disk) calls s) :
    parsePeople D.toDoubleOps A C ((people D.toDoubleOps A C).render s.1.entries) = some s.1.entries ∧
      ∀ c, Capability.parse c.text = some c := by
  have hstart : Cached.Current (fun entries => Proper entries ∧ ∀ entry ∈ entries, entry.Storable D.toDoubleOps)
      (Cached.loaded (people D.toDoubleOps A C) disk, disk) :=
    ⟨rfl, proper_read _, fun entry hentry => ⟨hshort entry hentry, asU64_read _ entry hentry⟩⟩
  obtain ⟨-, hproper, hstorable⟩ := Cached.Current.run
    (fun _ _ _ _ _ hs hok hplan => ⟨hs.2.1.plan hplan, storable_plan hs.2.2 hok hplan⟩) hrun hstart
  exact ⟨parsePeople_written hproper hstorable, Capability.parse_text⟩

section

def sampleAddress : PersonEmail sampleCasing := ⟨"mom@example.org".toList, "Mom@example.org".toList, by decide +kernel, by decide +kernel⟩

/-- 134 characters, of which 130 are two characters each in lower case. -/
def longAddress : Str := List.replicate 130 (Char.ofNat 0x130) ++ "@a.b".toList

def longEmail : PersonEmail sampleCasing := ⟨sampleCasing.toLowercase longAddress, longAddress, by decide +kernel, rfl⟩

end

theorem registry_reads_back_mom :
    ∃ s, Run (Cached.callStep samplePeople) (fun s a => a.1.Storable wholeOps s.1.entries) (Cached.loaded samplePeople none, none)
        [(.setGrants sampleMom (grantsOf .owner) 7, .placed 1), (.setEmail sampleMom (some sampleAddress), .failed)] s ∧
      parsePeople wholeOps asciiAlphabet sampleCasing (samplePeople.render s.1.entries) = some s.1.entries := by
  have hshort : ∀ entry ∈ (Cached.loaded samplePeople none).entries, ∀ email, entry.email = some email →
      email.text.length ≤ maxEmailChars := fun entry hentry => absurd hentry (List.not_mem_nil)
  have hrun : ∃ s, Run (Cached.callStep samplePeople) (fun s a => a.1.Storable wholeOps s.1.entries)
      (Cached.loaded samplePeople none, none)
      [(.setGrants sampleMom (grantsOf .owner) 7, .placed 1), (.setEmail sampleMom (some sampleAddress), .failed)] s :=
    ⟨_, .cons (fun _ => rfl) rfl (.cons (by decide : sampleAddress.text.length ≤ maxEmailChars) rfl .nil)⟩
  obtain ⟨s, hrun⟩ := hrun
  exact ⟨s, hrun, (@registry_reads_back _ _ wholeDoubles _ _ _ hshort hrun).1⟩

/-- An address that is accepted and too long in lower case: the file that is written for it is read as nobody. -/
theorem registry_unreadable :
    PersonEmail.parse sampleCasing longAddress = .ok longEmail ∧
    ∃ s, Run (Cached.callStep samplePeople) (fun _ _ => True) (Cached.loaded samplePeople none, none)
        [(.setGrants sampleMom (grantsOf .owner) 7, .placed 1), (.setEmail sampleMom (some longEmail), .placed 2)] s ∧
      s.1.entries = [⟨sampleMom, grantsOf .owner, 7, some longEmail⟩] ∧
      s.2.map Cached.File.text = some (samplePeople.render s.1.entries) ∧
      parsePeople wholeOps asciiAlphabet sampleCasing (samplePeople.render s.1.entries) = none ∧
      (Cached.loaded samplePeople s.2).entries = [] := by
  refine ⟨by decide +kernel, _, .cons trivial rfl (.cons trivial rfl .nil), ?_, ?_, ?_, ?_⟩ <;> decide +kernel

end Selfhost.Identity
