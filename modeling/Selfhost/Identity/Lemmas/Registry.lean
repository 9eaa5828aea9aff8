import Mathlib.Data.List.Pairwise
import Selfhost.Identity.Registry

/-!
# Well-formed registries

What the changes and the reading of a file keep: names and addresses that differ, a bounded number of people, and an
owner once there is one.
-/

namespace Selfhost.Identity

open Selfhost.Lib Selfhost.Names Selfhost.Json

variable {A : Alphabet} {C : Casing} {entries entries' : List (Person A C)} {name : Name A}

/-- Two people, one before the other, that may both be registered. -/
def Apart (a b : Person A C) : Prop := a.name ≠ b.name ∧ ∀ email, a.email = some email → b.email ≠ some email

theorem Apart.symm {a b : Person A C} (h : Apart a b) : Apart b a :=
  ⟨h.1.symm, fun email hb ha => h.2 email ha hb⟩

instance : Std.Symm (Apart (A := A) (C := C)) := ⟨fun _ _ => Apart.symm⟩

structure Proper (entries : List (Person A C)) : Prop where
  apart : entries.Pairwise Apart
  few : entries.length ≤ maxPeople

theorem Proper.nil : Proper ([] : List (Person A C)) := ⟨.nil, Nat.zero_le _⟩

theorem Proper.nodup_names (h : Proper entries) : (entries.map Person.name).Nodup :=
  List.pairwise_map.mpr (h.apart.imp And.left)

theorem Proper.nodup_emails (h : Proper entries) : (entries.filterMap Person.email).Nodup := by
  rw [List.Nodup, List.pairwise_filterMap]
  refine h.apart.imp ?_
  rintro a b ⟨-, hne⟩ e he e' he' rfl
  exact hne e he he'

theorem Proper.apart_of_name_ne (h : Proper entries) {a b : Person A C} (ha : a ∈ entries) (hb : b ∈ entries)
    (hne : a.name ≠ b.name) : Apart a b :=
  h.apart.forall ha hb fun heq => hne (congrArg Person.name heq)

/-! ## Finding and changing one entry -/

theorem find_some {entry : Person A C} (h : find name entries = some entry) : entry ∈ entries ∧ entry.name = name :=
  ⟨List.mem_of_find?_eq_some h, by simpa using List.find?_some h⟩

theorem find_none (h : find name entries = none) : ∀ entry ∈ entries, entry.name ≠ name := by
  simpa [find] using h

theorem Proper.find_of_mem (h : Proper entries) {entry : Person A C} (hmem : entry ∈ entries) :
    find entry.name entries = some entry := by
  cases hfind : find entry.name entries with
  | none => exact absurd rfl (find_none hfind entry hmem)
  | some found =>
      obtain ⟨hfound, hname⟩ := find_some hfind
      exact congrArg some (List.inj_on_of_nodup_map h.nodup_names hfound hmem hname)

theorem modify_eq_map (h : (entries.map Person.name).Nodup) (f : Person A C → Person A C) :
    modify name f entries = entries.map fun entry => if entry.name = name then f entry else entry := by
  induction entries with
  | nil => rfl
  | cons entry rest ih =>
      rw [List.map_cons, List.nodup_cons] at h
      rw [modify, List.map_cons]
      split
      · rename_i hname
        have hrest : rest.map (fun entry => if entry.name = name then f entry else entry) = rest.map id := by
          refine List.map_congr_left fun other hother => if_neg fun heq => ?_
          exact h.1 (List.mem_map.mpr ⟨other, hother, heq.trans hname.symm⟩)
        rw [hrest, List.map_id]
      · rw [ih h.2]

/-! ## Owners -/

theorem anyOwner_iff : anyOwner entries = true ↔ ∃ entry ∈ entries, entry.isOwner = true := by
  simp [anyOwner, owners]

/-- A person who is not the only owner leaves one behind. -/
theorem Proper.exists_other_owner (h : Proper entries) (howner : anyOwner entries = true)
    (honly : onlyOwner name entries = false) : ∃ entry ∈ entries, entry.isOwner = true ∧ entry.name ≠ name := by
  by_contra hnone
  have hall : ∀ entry ∈ entries, entry.isOwner = true → entry.name = name := by
    intro entry hmem hentry
    by_contra hname
    exact hnone ⟨entry, hmem, hentry, hname⟩
  obtain ⟨entry, hmem, hentry⟩ := anyOwner_iff.mp howner
  have hfind : find name entries = some entry := by
    rw [← hall entry hmem hentry]
    exact h.find_of_mem hmem
  -- All owners have one name, and names differ, so there is one owner.
  have hsub : ∀ other ∈ owners entries, other = entry := by
    intro other hother
    obtain ⟨hmem', hother'⟩ := List.mem_filter.mp hother
    exact List.inj_on_of_nodup_map h.nodup_names hmem' hmem
      ((hall other hmem' hother').trans (hall entry hmem hentry).symm)
  have hnodup : (owners entries).Nodup := List.Nodup.filter _ (List.Nodup.of_map _ h.nodup_names)
  have hone : owners entries = [entry] :=
    List.Perm.eq_singleton ((List.perm_ext_iff_of_nodup hnodup (List.nodup_singleton entry)).mpr fun other => by
      constructor
      · intro hother
        exact List.mem_singleton.mpr (hsub other hother)
      · intro hother
        rw [List.mem_singleton.mp hother]
        exact List.mem_filter.mpr ⟨hmem, hentry⟩)
  rw [onlyOwner, hfind, hone] at honly
  simp [hentry] at honly

/-! ## The changes -/

/-- A change of one entry that leaves its name, and gives it no address of somebody else. -/
theorem Proper.modify {f : Person A C → Person A C} (h : Proper entries) (hname : ∀ entry, (f entry).name = entry.name)
    (hemail : ∀ entry ∈ entries, entry.name = name → ∀ other ∈ entries, other.name ≠ name →
      ∀ email, (f entry).email = some email → other.email ≠ some email) :
    Proper (modify name f entries) := by
  rw [modify_eq_map h.nodup_names]
  refine ⟨?_, by rw [List.length_map]; exact h.few⟩
  rw [List.pairwise_map]
  refine List.Pairwise.imp_of_mem ?_ h.apart
  rintro a b ha hb ⟨hne, hapart⟩
  by_cases haname : a.name = name
  · have hbname : b.name ≠ name := fun hb => hne (haname.trans hb.symm)
    simp only [haname, hbname, ↓reduceIte]
    exact ⟨by rw [hname a]; exact hne, fun email he => hemail a ha haname b hb hbname email he⟩
  · by_cases hbname : b.name = name
    · simp only [haname, hbname, ↓reduceIte]
      exact ⟨by rw [hname b]; exact hne, fun email he he' => hemail b hb hbname a ha haname email he' he⟩
    · simp only [haname, hbname, ↓reduceIte]
      exact ⟨hne, hapart⟩

theorem Proper.setGrants {grants : Grants} {now : Nat} (h : Proper entries)
    (hset : setGrants name grants now entries = .ok entries') : Proper entries' := by
  unfold Identity.setGrants at hset
  split at hset
  · cases hset
  · split at hset
    · cases hset
      refine h.modify (fun _ => rfl) fun entry hmem hname other hother hne email he => ?_
      have hnames : entry.name ≠ other.name := fun heq => hne (heq.symm.trans hname)
      exact (h.apart_of_name_ne hmem hother hnames).2 email he
    · rename_i hfind
      split at hset
      · cases hset
      · rename_i hroom
        cases hset
        refine ⟨List.pairwise_append.mpr ⟨h.apart, List.pairwise_singleton _ _, ?_⟩, ?_⟩
        · intro a ha b hb
          rw [List.mem_singleton.mp hb]
          exact ⟨find_none hfind a ha, fun _ _ => by simp⟩
        · rw [List.length_append, List.length_singleton]
          omega

theorem anyOwner_setGrants {grants : Grants} {now : Nat} (h : Proper entries) (howner : anyOwner entries = true)
    (hset : setGrants name grants now entries = .ok entries') : anyOwner entries' = true := by
  unfold Identity.setGrants at hset
  split at hset
  · cases hset
  · rename_i hrefused
    split at hset
    · rename_i found hfind
      cases hset
      rw [anyOwner_iff, modify_eq_map h.nodup_names]
      by_cases hgrants : grants.holds .owner = true
      · obtain ⟨hmem, hname⟩ := find_some hfind
        exact ⟨_, List.mem_map_of_mem hmem, by simp [hname, Person.isOwner, hgrants]⟩
      · have honly : onlyOwner name entries = false := by simpa [hgrants] using hrefused
        obtain ⟨entry, hmem, hentry, hne⟩ := h.exists_other_owner howner honly
        exact ⟨_, List.mem_map_of_mem hmem, by simp [hne, hentry]⟩
    · split at hset
      · cases hset
      · cases hset
        obtain ⟨entry, hmem, hentry⟩ := anyOwner_iff.mp howner
        exact anyOwner_iff.mpr ⟨entry, List.mem_append_left _ hmem, hentry⟩

/-- What `set_email` does when it does something. -/
theorem setEmail_ok {email : Option (PersonEmail C)} (hset : setEmail name email entries = .ok entries') :
    entries' = modify name (fun entry => { entry with email }) entries ∧
      ∀ wanted, email = some wanted → ∀ other ∈ entries, other.name ≠ name → other.email ≠ some wanted := by
  simp only [Identity.setEmail] at hset
  split at hset
  · cases hset
  · rename_i htaken
    split at hset
    · cases hset
      refine ⟨rfl, ?_⟩
      rintro wanted rfl other hother hne he
      simp only [Option.bind_some] at htaken
      split at htaken
      · cases htaken
      · rename_i hfree
        exact hfree (List.any_eq_true.mpr ⟨other, hother, by simp [hne, he]⟩)
    · cases hset

theorem Proper.setEmail {email : Option (PersonEmail C)} (h : Proper entries)
    (hset : setEmail name email entries = .ok entries') : Proper entries' := by
  obtain ⟨rfl, hfree⟩ := setEmail_ok hset
  exact h.modify (fun _ => rfl) fun _ _ _ other hother hne wanted hwanted => hfree wanted hwanted other hother hne

theorem anyOwner_setEmail {email : Option (PersonEmail C)} (h : Proper entries) (howner : anyOwner entries = true)
    (hset : setEmail name email entries = .ok entries') : anyOwner entries' = true := by
  obtain ⟨rfl, -⟩ := setEmail_ok hset
  obtain ⟨entry, hmem, hentry⟩ := anyOwner_iff.mp howner
  rw [anyOwner_iff, modify_eq_map h.nodup_names]
  refine ⟨_, List.mem_map_of_mem hmem, ?_⟩
  split
  · exact hentry
  · exact hentry

/-- What `remove` does when it does something. -/
theorem remove_ok (hremove : remove name entries = .ok (some entries')) :
    onlyOwner name entries = false ∧ entries' = entries.filter fun entry => entry.name ≠ name := by
  unfold Identity.remove at hremove
  split at hremove
  · cases hremove
  · rename_i honly
    simp only [Except.ok.injEq] at hremove
    split at hremove
    · cases hremove
    · exact ⟨by simpa using honly, (Option.some.inj hremove).symm⟩

theorem Proper.remove (h : Proper entries) (hremove : remove name entries = .ok (some entries')) :
    Proper entries' := by
  obtain ⟨-, rfl⟩ := remove_ok hremove
  exact ⟨h.apart.filter _, (List.length_filter_le _ _).trans h.few⟩

theorem anyOwner_remove (h : Proper entries) (howner : anyOwner entries = true)
    (hremove : remove name entries = .ok (some entries')) : anyOwner entries' = true := by
  obtain ⟨honly, rfl⟩ := remove_ok hremove
  obtain ⟨entry, hmem, hentry, hne⟩ := h.exists_other_owner howner honly
  exact anyOwner_iff.mpr ⟨entry, List.mem_filter.mpr ⟨hmem, by simpa using hne⟩, hentry⟩

/-- What a request writes. -/
theorem plan_write {request : Request A C} {written failed : Answer A C}
    (h : request.plan entries = .write entries' written failed) :
    (∃ name grants now, request = .setGrants name grants now ∧ setGrants name grants now entries = .ok entries') ∨
      (∃ name email, request = .setEmail name email ∧ setEmail name email entries = .ok entries') ∨
        ∃ name, request = .remove name ∧ remove name entries = .ok (some entries') := by
  unfold Request.plan at h
  split at h
  · cases h
  · split at h
    · cases h
    · rename_i hset
      cases h
      exact Or.inl ⟨_, _, _, rfl, hset⟩
  · split at h
    · cases h
    · rename_i hset
      cases h
      exact Or.inr (Or.inl ⟨_, _, rfl, hset⟩)
  · split at h
    · cases h
    · cases h
    · rename_i hremove
      cases h
      exact Or.inr (Or.inr ⟨_, rfl, hremove⟩)

theorem Proper.plan {request : Request A C} {written failed : Answer A C} (h : Proper entries)
    (hplan : request.plan entries = .write entries' written failed) : Proper entries' := by
  rcases plan_write hplan with ⟨_, _, _, -, hset⟩ | ⟨_, _, -, hset⟩ | ⟨_, -, hremove⟩
  · exact h.setGrants hset
  · exact h.setEmail hset
  · exact h.remove hremove

theorem anyOwner_plan {request : Request A C} {written failed : Answer A C} (h : Proper entries)
    (howner : anyOwner entries = true) (hplan : request.plan entries = .write entries' written failed) :
    anyOwner entries' = true := by
  rcases plan_write hplan with ⟨_, _, _, -, hset⟩ | ⟨_, _, -, hset⟩ | ⟨_, -, hremove⟩
  · exact anyOwner_setGrants h howner hset
  · exact anyOwner_setEmail h howner hset
  · exact anyOwner_remove h howner hremove

/-! ## The file -/

variable {D : DoubleOps}

theorem parseEmail_some {item : Value D.F} {email : PersonEmail C}
    (h : parseEmail D A C item entries = some (some email)) : ∀ entry ∈ entries, entry.email ≠ some email := by
  unfold parseEmail at h
  split at h
  · cases h
  · cases h
  · obtain ⟨text, -, h⟩ := Option.bind_eq_some_iff.mp h
    obtain ⟨found, -, h⟩ := Option.bind_eq_some_iff.mp h
    split at h
    · cases h
    · rename_i hfree
      cases h
      simpa using hfree

theorem parsePerson_apart {item : Value D.F} (h : parsePerson D A C entries item = some entries')
    (hentries : entries.Pairwise Apart) :
    entries'.Pairwise Apart ∧ entries'.length = entries.length + 1 := by
  obtain ⟨nameValue, -, h⟩ := Option.bind_eq_some_iff.mp h
  obtain ⟨text, -, h⟩ := Option.bind_eq_some_iff.mp h
  obtain ⟨name, -, h⟩ := Option.bind_eq_some_iff.mp h
  split at h
  · cases h
  rename_i hname
  obtain ⟨grantsValue, -, h⟩ := Option.bind_eq_some_iff.mp h
  obtain ⟨items, -, h⟩ := Option.bind_eq_some_iff.mp h
  obtain ⟨capabilities, -, h⟩ := Option.bind_eq_some_iff.mp h
  obtain ⟨grants, -, h⟩ := Option.bind_eq_some_iff.mp h
  obtain ⟨email, hemail, h⟩ := Option.bind_eq_some_iff.mp h
  obtain ⟨addedValue, -, h⟩ := Option.bind_eq_some_iff.mp h
  obtain ⟨addedUnix, -, h⟩ := Option.bind_eq_some_iff.mp h
  cases h
  refine ⟨List.pairwise_append.mpr ⟨hentries, List.pairwise_singleton _ _, ?_⟩, by simp⟩
  intro a ha b hb
  rw [List.mem_singleton.mp hb]
  refine ⟨by simpa using fun heq => hname (List.any_eq_true.mpr ⟨a, ha, by simpa using heq⟩), ?_⟩
  rintro wanted ha' rfl
  exact parseEmail_some hemail a ha ha'

theorem foldlM_parsePerson {items : List (Value D.F)}
    (h : items.foldlM (parsePerson D A C) entries = some entries') (hentries : entries.Pairwise Apart) :
    entries'.Pairwise Apart ∧ entries'.length = entries.length + items.length := by
  induction items generalizing entries with
  | nil =>
      cases h
      exact ⟨hentries, rfl⟩
  | cons item items ih =>
      rw [List.foldlM_cons] at h
      obtain ⟨next, hnext, h⟩ := Option.bind_eq_some_iff.mp h
      obtain ⟨hapart, hlength⟩ := parsePerson_apart hnext hentries
      obtain ⟨hapart', hlength'⟩ := ih h hapart
      refine ⟨hapart', ?_⟩
      rw [hlength', hlength, List.length_cons]
      omega

/-- Whatever the file holds, the registry read from it is well formed. -/
theorem proper_read (text : Option Str) : Proper ((people D A C).read text) := by
  simp only [people]
  cases hread : text.bind (parsePeople D A C) with
  | none => exact Proper.nil
  | some entries =>
      obtain ⟨text, -, h⟩ := Option.bind_eq_some_iff.mp hread
      obtain ⟨value, -, h⟩ := Option.bind_eq_some_iff.mp h
      obtain ⟨peopleValue, -, h⟩ := Option.bind_eq_some_iff.mp h
      obtain ⟨items, -, h⟩ := Option.bind_eq_some_iff.mp h
      split at h
      · cases h
      · rename_i hfew
        obtain ⟨hapart, hlength⟩ := foldlM_parsePerson h .nil
        refine ⟨hapart, ?_⟩
        rw [Option.getD_some, hlength, List.length_nil]
        omega

end Selfhost.Identity
