import Selfhost.Identity.Lemmas.Registry

/-!
# Changes of the registry

The calls through one handle keep the registry well formed and owned; a call that fails leaves everything as it was
exactly when it had nothing to change.
-/

namespace Selfhost.Identity

open Selfhost.Lib Selfhost.Names Selfhost.Json

variable {A : Alphabet} {C : Casing} {D : DoubleOps}

/-! ## Every sequence of calls -/

/-- The people a handle shows. -/
def shown (stored : Cached.Stored (List (Person A C))) (disk : Option (Cached.File Str)) : List (Person A C) :=
  (Cached.lock (people D A C) disk stored).entries

/-- Whatever is called through one handle, and however its writes end, a registry with an owner keeps one, its names
and its addresses differ, and it stays within its bounds. -/
theorem keeps_an_owner {disk : Option (Cached.File Str)} {calls : List (Request A C × Cached.Write)}
    {s : Cached.Stored (List (Person A C)) × Option (Cached.File Str)}
    (howner : ∃ entry ∈ (Cached.loaded (people D A C) disk).entries, entry.grants.holds .owner = true)
    (hrun : Run (Cached.callStep (people D A C)) (fun _ _ => True) (Cached.loaded (people D A C) disk, disk) calls s) :
    (∃ entry ∈ shown (D := D) s.1 s.2, entry.grants.holds .owner = true) ∧
      ((shown (D := D) s.1 s.2).map Person.name).Nodup ∧ ((shown (D := D) s.1 s.2).filterMap Person.email).Nodup ∧
      (shown (D := D) s.1 s.2).length ≤ maxPeople ∧
      ∀ entry ∈ shown (D := D) s.1 s.2, entry.grants.list.Nodup ∧ entry.grants.list.length ≤ maxGrants := by
  have hstart : Cached.Current (fun entries => Proper entries ∧ anyOwner entries = true)
      (Cached.loaded (people D A C) disk, disk) := ⟨rfl, proper_read _, anyOwner_iff.mpr howner⟩
  have hend := Cached.Current.run
    (fun _ _ _ _ _ hs _ hplan => ⟨hs.2.1.plan hplan, anyOwner_plan hs.2.1 hs.2.2 hplan⟩) hrun hstart
  have hshown : shown (D := D) s.1 s.2 = s.1.entries := congrArg Cached.Stored.entries hend.lock
  obtain ⟨-, hproper, hany⟩ := hend
  rw [hshown]
  exact ⟨anyOwner_iff.mp hany, hproper.nodup_names, hproper.nodup_emails, hproper.few,
    fun entry _ => ⟨entry.grants.nodup, entry.grants.few⟩⟩

section

def sampleDad : Name asciiAlphabet := ⟨"Dad".toList, by decide⟩

def sampleMom : Name asciiAlphabet := ⟨"Mom".toList, by decide⟩

def grantsOf (c : Capability) : Grants := ⟨[c], by simp, by simp [maxGrants]⟩

/-- A file with one owner. -/
def sampleFile : Cached.File Str :=
  ⟨"\x7b\"people\":[\x7b\"name\":\"Dad\",\"grants\":[\"owner\"],\"addedUnix\":1\x7d]\x7d".toList, 0⟩

def samplePeople : Cached.Store Str (List (Person asciiAlphabet sampleCasing)) (Request asciiAlphabet sampleCasing)
    (Answer asciiAlphabet sampleCasing) := people wholeOps asciiAlphabet sampleCasing

theorem samplePeople_read : samplePeople.read (some sampleFile.text) = [⟨sampleDad, grantsOf .owner, 1, none⟩] := by
  have htext : sampleFile.text = _ := String.toList_ofList
  exact (congrArg (fun text => samplePeople.read (some text)) htext).trans (by decide +kernel)

/-- The handle on the sample file. -/
theorem loaded_sampleFile :
    Cached.loaded samplePeople (some sampleFile) = ⟨[⟨sampleDad, grantsOf .owner, 1, none⟩], some 0⟩ :=
  congrArg (Cached.Stored.mk · (some 0)) samplePeople_read

end

/-- Removing the one owner and demoting him are both refused. -/
theorem keeps_an_owner_dad :
    ∃ s, Run (Cached.callStep samplePeople) (fun _ _ => True) (Cached.loaded samplePeople (some sampleFile), some sampleFile)
        [(.remove sampleDad, .placed 5), (.setGrants sampleDad .none 7, .failed)] s ∧
      ∃ entry ∈ shown (D := wholeOps) s.1 s.2, entry.grants.holds .owner = true := by
  have howner : ∃ entry ∈ (Cached.loaded samplePeople (some sampleFile)).entries, entry.grants.holds .owner = true := by
    rw [loaded_sampleFile]
    exact ⟨⟨sampleDad, grantsOf .owner, 1, none⟩, List.mem_singleton_self _, by decide⟩
  have hrun : ∃ s, Run (Cached.callStep samplePeople) (fun _ _ => True)
      (⟨[⟨sampleDad, grantsOf .owner, 1, none⟩], some 0⟩, some sampleFile)
      [(.remove sampleDad, .placed 5), (.setGrants sampleDad .none 7, .failed)] s :=
    ⟨_, .cons trivial rfl (.cons trivial rfl .nil)⟩
  rw [← loaded_sampleFile] at hrun
  obtain ⟨s, hrun⟩ := hrun
  exact ⟨s, hrun, (keeps_an_owner howner hrun).1⟩

/-! ## Calls that fail -/

/-- The request asks for what is there, or is refused before anything is changed. -/
def Request.Idle (entries : List (Person A C)) : Request A C → Prop
  | .list => True
  | .setGrants name grants _ =>
      (onlyOwner name entries = true ∧ grants.holds .owner = false) ∨
        match find name entries with
        | some entry => entry.grants = grants
        | none => maxPeople ≤ entries.length
  | .setEmail name email =>
      match find name entries with
      | some entry => entry.email = email ∨
          ∃ wanted, email = some wanted ∧ ∃ other ∈ entries, other.name ≠ name ∧ other.email = some wanted
      | none => True
  | .remove name => onlyOwner name entries = true ∨ find name entries = none

theorem modify_eq_self_iff {entries : List (Person A C)} {name : Name A} {f : Person A C → Person A C}
    {entry : Person A C} (h : find name entries = some entry) : modify name f entries = entries ↔ f entry = entry := by
  induction entries with
  | nil => cases h
  | cons first rest ih =>
      by_cases hname : first.name = name
      · have hfirst : first = entry := by simpa [find, hname] using h
        subst hfirst
        simp [modify, hname]
      · have hrest : find name rest = some entry := by simpa [find, hname] using h
        simp [modify, hname, ih hrest]

/-- What a plan writes, if it writes, is what is there. -/
def Leaves (entries : List (Person A C)) : Cached.Plan (List (Person A C)) (Answer A C) → Prop
  | .answer _ => True
  | .write v _ _ => v = entries

/-- A request leaves the entries exactly when it is idle. -/
theorem leaves_iff_idle {entries : List (Person A C)} {request : Request A C} :
    Leaves entries (request.plan entries) ↔ request.Idle entries := by
  cases request with
  | list => simp [Request.plan, Request.Idle, Leaves]
  | setGrants name grants now =>
      simp only [Request.plan, Request.Idle, setGrants]
      by_cases hlast : onlyOwner name entries = true ∧ grants.holds .owner = false
      · simp [hlast, Leaves]
      · have hnot : ¬ (onlyOwner name entries && !grants.holds .owner) = true := by simpa using hlast
        rw [if_neg hnot, or_iff_right hlast]
        cases hfind : find name entries with
        | some entry =>
            have hself := modify_eq_self_iff (f := fun entry => { entry with grants }) hfind
            simp only [Leaves, hself]
            exact ⟨fun h => (congrArg Person.grants h).symm, fun h => by rw [← h]⟩
        | none =>
            by_cases hfull : maxPeople ≤ entries.length
            · simp [hfull, Leaves]
            · simp [hfull, Leaves]
  | setEmail name email =>
      simp only [Request.plan, Request.Idle, setEmail]
      by_cases htaken : ∃ wanted, email = some wanted ∧ ∃ other ∈ entries, other.name ≠ name ∧ other.email = some wanted
      · obtain ⟨wanted, rfl, other, hother, hne, hemail⟩ := htaken
        have hany : (entries.any fun entry => entry.name ≠ name ∧ entry.email = some wanted) = true :=
          List.any_eq_true.mpr ⟨other, hother, by simp [hne, hemail]⟩
        have hleft : ∃ w, some wanted = some w ∧ ∃ other ∈ entries, other.name ≠ name ∧ other.email = some w :=
          ⟨wanted, rfl, other, hother, hne, hemail⟩
        rw [Option.bind_some, if_pos hany]
        cases hfind : find name entries with
        | some entry => exact ⟨fun _ => Or.inr hleft, fun _ => trivial⟩
        | none => exact ⟨fun _ => trivial, fun _ => trivial⟩
      · have hfree : (email.bind fun wanted =>
            if entries.any fun entry => entry.name ≠ name ∧ entry.email = some wanted then some wanted else none) = none := by
          rw [Option.bind_eq_none_iff]
          intro wanted hwanted
          refine if_neg fun hany => htaken ⟨wanted, hwanted, ?_⟩
          simpa using hany
        rw [hfree]
        cases hfind : find name entries with
        | some entry =>
            have hself := modify_eq_self_iff (f := fun entry => { entry with email }) hfind
            simp only [Leaves, hself]
            rw [or_iff_left htaken]
            exact ⟨fun h => (congrArg Person.email h).symm, fun h => by rw [← h]⟩
        | none => exact ⟨fun _ => trivial, fun _ => trivial⟩
  | remove name =>
      simp only [Request.plan, Request.Idle, remove]
      by_cases honly : onlyOwner name entries = true
      · simp [honly, Leaves]
      · rw [if_neg honly, or_iff_right honly]
        have hlength : (entries.filter fun entry => entry.name ≠ name).length = entries.length ↔
            find name entries = none := by
          rw [List.length_filter_eq_length_iff, find, List.find?_eq_none]
          simp
        by_cases hfind : find name entries = none
        · rw [if_pos (hlength.mpr hfind)]
          simp [Leaves, hfind]
        · have hne := fun h => hfind (hlength.mp h)
          rw [if_neg hne]
          refine ⟨fun h => absurd (congrArg List.length h) hne, fun h => absurd h hfind⟩

theorem call_list (w : Cached.Write) (s : Cached.Stored (List (Person A C)) × Option (Cached.File Str)) :
    Cached.call (people D A C) .list w s.1 s.2
      = (.people (shown (D := D) s.1 s.2), Cached.lock (people D A C) s.2 s.1, s.2) := rfl

/-- Reads change nothing that later reads show. -/
theorem reads_shown {s t : Cached.Stored (List (Person A C)) × Option (Cached.File Str)}
    {reads : List (Request A C × Cached.Write)}
    (hrun : Run (Cached.callStep (people D A C)) (fun _ a => a.1 = .list) s reads t) :
    shown (D := D) t.1 t.2 = shown (D := D) s.1 s.2 ∧ t.2 = s.2 := by
  refine hrun.invariant (I := fun u => shown (D := D) u.1 u.2 = shown (D := D) s.1 s.2 ∧ u.2 = s.2) ?_ ⟨rfl, rfl⟩
  rintro u ⟨request, w⟩ v ⟨hshown, hdisk⟩ rfl hstep
  cases hstep
  rw [call_list]
  exact ⟨by rw [← hshown, shown, shown, Cached.lock_lock], hdisk⟩

/-- A call that fails leaves the file and every later read as they were exactly when the request was idle: a failed
write comes after the change in memory. -/
theorem failed_call_iff {stored : Cached.Stored (List (Person A C))} {disk : Option (Cached.File Str)}
    {request : Request A C} {w : Cached.Write} {error : RegistryError A C}
    (hfailed : (Cached.call (people D A C) request w stored disk).1 = .failed error) :
    (∀ reads t, Run (Cached.callStep (people D A C)) (fun _ a => a.1 = .list)
        (Cached.call (people D A C) request w stored disk).2 reads t →
      (∀ w, (Cached.call (people D A C) .list w t.1 t.2).1 = (Cached.call (people D A C) .list w stored disk).1) ∧
        t.2 = disk) ↔
      request.Idle (shown (D := D) stored disk) := by
  rw [← leaves_iff_idle]
  have hread : ∀ t : Cached.Stored (List (Person A C)) × Option (Cached.File Str),
      (∀ w, (Cached.call (people D A C) .list w t.1 t.2).1 = (Cached.call (people D A C) .list w stored disk).1) ↔
        shown (D := D) t.1 t.2 = shown (D := D) stored disk := by
    intro t
    exact ⟨fun h => Answer.people.inj (h .failed), fun h _ => congrArg Answer.people h⟩
  rcases Cached.call_cases (people D A C) request w stored disk with ⟨a, hplan, hcall⟩ | ⟨v, written, failed, hplan, h⟩
  · have hleaves : Leaves (shown (D := D) stored disk) (request.plan (shown (D := D) stored disk)) := by
      rw [show request.plan (shown (D := D) stored disk) = .answer a from hplan]
      trivial
    refine ⟨fun _ => hleaves, fun _ reads t hrun => ?_⟩
    obtain ⟨hshown, hdisk⟩ := reads_shown hrun
    rw [hcall] at hshown hdisk
    refine ⟨(hread t).mpr ?_, hdisk⟩
    rw [hshown, shown, Cached.lock_lock, shown]
  · have hentries : request.plan (shown (D := D) stored disk) = .write v written failed := hplan
    rw [hentries]
    rcases h with ⟨-, hcall⟩ | ⟨stamp, -, hcall⟩
    · have hafter : shown (D := D) ⟨v, Cached.stampOf disk⟩ disk = v := by
        rw [shown, Cached.lock, if_pos rfl]
      constructor
      · intro hreads
        have hnow := (hread _).mp (hreads [] _ .nil).1
        rw [hcall, hafter] at hnow
        exact hnow
      · intro hleaves reads t hrun
        obtain ⟨hshown, hdisk⟩ := reads_shown hrun
        rw [hcall] at hshown hdisk
        exact ⟨(hread t).mpr (hshown.trans (hafter.trans hleaves)), hdisk⟩
    · -- A write that took place is answered otherwise.
      rw [hcall] at hfailed
      have hwritten : written ≠ .failed error := by
        unfold Request.plan at hentries
        split at hentries <;> (try split at hentries) <;> cases hentries <;> simp
      exact absurd hfailed hwritten

/-- A grant whose write fails is refused, and held all the same. -/
theorem unwritten_grant :
    (Cached.call samplePeople (.setGrants sampleMom (grantsOf .owner) 7) .failed (Cached.loaded samplePeople none) none).1
        = .failed .notWritten ∧
      (Cached.call samplePeople .list .failed (Cached.loaded samplePeople none) none).1 = .people [] ∧
      (Cached.call samplePeople .list .failed (Cached.call samplePeople (.setGrants sampleMom (grantsOf .owner) 7) .failed
          (Cached.loaded samplePeople none) none).2.1 none).1
        = .people [⟨sampleMom, grantsOf .owner, 7, none⟩] := by
  decide +kernel

/-- A grant to one who holds it already may fail. -/
theorem failed_call_dad :
    (Cached.call samplePeople (.setGrants sampleDad (grantsOf .owner) 7) .failed
      (Cached.loaded samplePeople (some sampleFile)) (some sampleFile)).1 = .failed .notWritten ∧
    ∀ reads t, Run (Cached.callStep samplePeople) (fun _ a => a.1 = .list)
        (Cached.call samplePeople (.setGrants sampleDad (grantsOf .owner) 7) .failed
          (Cached.loaded samplePeople (some sampleFile)) (some sampleFile)).2 reads t →
      (∀ w, (Cached.call samplePeople .list w t.1 t.2).1
        = (Cached.call samplePeople .list w (Cached.loaded samplePeople (some sampleFile)) (some sampleFile)).1) ∧
        t.2 = some sampleFile := by
  have hfailed : (Cached.call samplePeople (.setGrants sampleDad (grantsOf .owner) 7) .failed
      (Cached.loaded samplePeople (some sampleFile)) (some sampleFile)).1 = .failed .notWritten := by
    rw [loaded_sampleFile]
    decide +kernel
  have hshown : shown (D := wholeOps) (Cached.loaded samplePeople (some sampleFile)) (some sampleFile)
      = [⟨sampleDad, grantsOf .owner, 1, none⟩] := by
    rw [loaded_sampleFile]
    rfl
  refine ⟨hfailed, (failed_call_iff hfailed).mpr ?_⟩
  rw [hshown]
  exact Or.inr rfl

end Selfhost.Identity
