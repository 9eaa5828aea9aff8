import Selfhost.Identity.Lemmas.Registry
import Selfhost.Json.Lemmas.RoundTrip
import Selfhost.Lib.Fallible

/-!
# The registry's file

Reading back the text that a registry is written as.
-/

namespace Selfhost.Identity

open Selfhost.Lib Selfhost.Names Selfhost.Json

variable {A : Alphabet} {C : Casing} {D : Doubles}

/-! ## What is written -/

/-- The fields of a person as they are written, in the order of their keys. -/
theorem ofFields_person (entry : Person A C) :
    Value.ofFields (personFields D.toDoubleOps entry) = .object (
      ("addedUnix".toList, .number (D.ofU64 entry.addedUnix)) ::
      ((match entry.email with
        | some email => [("email".toList, .string email.text)]
        | none => []) ++
      [("grants".toList, .array (entry.grants.list.map fun c => .string c.text)),
        ("name".toList, .string entry.name.text)])) := by
  obtain ⟨name, grants, addedUnix, email⟩ := entry
  cases email with
  | none => rfl
  | some email => rfl

theorem fits_person (entry : Person A C) (n : Nat) :
    Fits D.toDoubleOps (n + 3) (Value.ofFields (personFields D.toDoubleOps entry)) := by
  have hgrants : Fits D.toDoubleOps (n + 2) (.array (entry.grants.list.map fun c => .string c.text)) := by
    refine .array fun item hitem => ?_
    obtain ⟨c, -, rfl⟩ := List.mem_map.mp hitem
    exact .string _
  rw [ofFields_person]
  cases hemail : entry.email with
  | none =>
      refine .object (by simp [List.pairwise_cons]; decide) ?_
      intro field hfield
      simp only [List.nil_append, List.mem_cons, List.not_mem_nil, or_false] at hfield
      rcases hfield with rfl | rfl | rfl
      · exact .number _
      · exact hgrants
      · exact .string _
  | some email =>
      refine .object (by simp [List.pairwise_cons]; decide) ?_
      intro field hfield
      simp only [List.cons_append, List.nil_append, List.mem_cons, List.not_mem_nil, or_false] at hfield
      rcases hfield with rfl | rfl | rfl | rfl
      · exact .number _
      · exact .string _
      · exact hgrants
      · exact .string _

theorem fits_people (entries : List (Person A C)) :
    Fits D.toDoubleOps (maxDepth + 1) (peopleToJson D.toDoubleOps entries) := by
  refine .object (by simp [Value.insert]) ?_
  intro field hfield
  rw [List.mem_singleton.mp hfield]
  refine .array fun item hitem => ?_
  obtain ⟨entry, -, rfl⟩ := List.mem_map.mp hitem
  exact fits_person entry _

/-! ## What is read -/

theorem parseName_text (name : Name A) : parseName A name.text = some name := by
  rw [parseName, dif_pos name.valid]

theorem mapM_parse_text (capabilities : List Capability) :
    (capabilities.map fun c => (Value.string c.text : Value D.F)).mapM (fun grant => grant.asStr.bind Capability.parse)
      = some capabilities :=
  mapM_map fun c _ => by simp [Capability.parse_text]

theorem Grants.grant_new {granted : Grants} {c : Capability} (hc : c ∉ granted.list)
    (hroom : granted.list.length < maxGrants) :
    ∃ next, granted.grant c = some (next, .added) ∧ next.list = granted.list ++ [c] := by
  have hroom : ¬ maxGrants ≤ granted.list.length := Nat.not_le.mpr hroom
  exact ⟨_, by simp only [Grants.grant, hc, hroom, ↓reduceDIte]; rfl, rfl⟩

/-- Capabilities that differ and are few are granted one after another. -/
theorem Grants.foldlM_grant {granted : Grants} {rest : List Capability} (hnodup : (granted.list ++ rest).Nodup)
    (hfew : (granted.list ++ rest).length ≤ maxGrants) :
    ∃ result, rest.foldlM (fun grants c => (grants.grant c).map Prod.fst) granted = some result ∧
      result.list = granted.list ++ rest := by
  induction rest generalizing granted with
  | nil => exact ⟨granted, rfl, (List.append_nil _).symm⟩
  | cons c rest ih =>
      have hc : c ∉ granted.list := by
        intro hmem
        exact (List.nodup_append.mp hnodup).2.2 c hmem c List.mem_cons_self rfl
      have hroom : granted.list.length < maxGrants := by
        rw [List.length_append, List.length_cons] at hfew
        omega
      obtain ⟨next, hgrant, hnext⟩ := Grants.grant_new hc hroom
      have hsplit : next.list ++ rest = granted.list ++ c :: rest := by
        rw [hnext, List.append_assoc, List.singleton_append]
      obtain ⟨result, hfold, hresult⟩ := @ih next (hsplit ▸ hnodup) (hsplit ▸ hfew)
      refine ⟨result, ?_, hresult.trans hsplit⟩
      rw [List.foldlM_cons, hgrant]
      exact hfold

theorem Grants.new_list (grants : Grants) : Grants.new grants.list = some grants := by
  obtain ⟨list, nodup, few⟩ := grants
  obtain ⟨⟨list', nodup', few'⟩, hfold, hresult⟩ := @Grants.foldlM_grant .none list nodup few
  cases (hresult : list' = list)
  exact hfold

/-! ## Whole registries -/

/-- A person that is read back: the address is no longer than an address may be, and the time is a double. -/
def Person.Storable (D : DoubleOps) (entry : Person A C) : Prop :=
  (∀ email, entry.email = some email → email.text.length ≤ maxEmailChars) ∧
    D.asU64 (D.ofU64 entry.addedUnix) = some entry.addedUnix

theorem get_person (entry : Person A C) :
    (Value.ofFields (personFields D.toDoubleOps entry)).get "name".toList = some (.string entry.name.text) ∧
      (Value.ofFields (personFields D.toDoubleOps entry)).get "grants".toList
        = some (.array (entry.grants.list.map fun c => .string c.text)) ∧
      (Value.ofFields (personFields D.toDoubleOps entry)).get "addedUnix".toList
        = some (.number (D.ofU64 entry.addedUnix)) ∧
      (Value.ofFields (personFields D.toDoubleOps entry)).get "email".toList
        = entry.email.map fun email => .string email.text := by
  rw [ofFields_person]
  cases entry.email with
  | none => exact ⟨rfl, rfl, rfl, rfl⟩
  | some email => exact ⟨rfl, rfl, rfl, rfl⟩

theorem parseEmail_written {entry : Person A C} {entries : List (Person A C)}
    (hshort : ∀ email, entry.email = some email → email.text.length ≤ maxEmailChars)
    (hapart : ∀ other ∈ entries, Apart other entry) :
    parseEmail D.toDoubleOps A C (.ofFields (personFields D.toDoubleOps entry)) entries = some entry.email := by
  obtain ⟨-, -, -, hget⟩ := get_person (D := D) entry
  cases hemail : entry.email with
  | none =>
      rw [hemail, Option.map_none] at hget
      simp only [parseEmail, hget]
  | some email =>
      rw [hemail, Option.map_some] at hget
      have hparse : PersonEmail.parse C email.text = .ok email := by
        rw [PersonEmail.parse_text, if_neg (Nat.not_lt.mpr (hshort email hemail))]
      have hfree : ¬ (entries.any fun entry => entry.email = some email) = true := by
        simp only [List.any_eq_true, decide_eq_true_eq, not_exists, not_and]
        intro other hother hsame
        exact (hapart other hother).2 email hsame hemail
      simp only [parseEmail, hget, Value.asStr_string, hparse, Except.toOption, hfree, Option.bind_eq_bind,
        Option.bind_some, Bool.false_eq_true, ↓reduceIte]

theorem parsePerson_written {entry : Person A C} {entries : List (Person A C)}
    (hstorable : entry.Storable D.toDoubleOps) (hapart : ∀ other ∈ entries, Apart other entry) :
    parsePerson D.toDoubleOps A C entries (.ofFields (personFields D.toDoubleOps entry)) = some (entries ++ [entry]) := by
  obtain ⟨hname, hgrants, hadded, -⟩ := get_person (D := D) entry
  have hnew : ¬ (entries.any fun other => other.name = entry.name) = true := by
    simp only [List.any_eq_true, decide_eq_true_eq, not_exists, not_and]
    exact fun other hother => (hapart other hother).1
  have hmapM := mapM_parse_text (D := D) entry.grants.list
  simp only [parsePerson, hname, hgrants, hadded, Value.asStr_string, Value.asArray_array, Value.asU64_number,
    parseName_text, hnew, hmapM,
    Grants.new_list, parseEmail_written hstorable.1 hapart, hstorable.2, Option.bind_eq_bind, Option.bind_some,
    Bool.false_eq_true, ↓reduceIte]

theorem foldlM_parsePerson_written {done rest : List (Person A C)}
    (hstorable : ∀ entry ∈ rest, entry.Storable D.toDoubleOps) (hapart : (done ++ rest).Pairwise Apart) :
    (rest.map fun entry => Value.ofFields (personFields D.toDoubleOps entry)).foldlM (parsePerson D.toDoubleOps A C) done
      = some (done ++ rest) := by
  induction rest generalizing done with
  | nil => simp
  | cons entry rest ih =>
      have hbefore : ∀ other ∈ done, Apart other entry :=
        fun other hother => (List.pairwise_append.mp hapart).2.2 other hother entry List.mem_cons_self
      have hsplit : done ++ entry :: rest = (done ++ [entry]) ++ rest := by simp
      rw [List.map_cons, List.foldlM_cons, parsePerson_written (hstorable entry List.mem_cons_self) hbefore, hsplit]
      exact ih (fun other hother => hstorable other (List.mem_cons_of_mem _ hother)) (hsplit ▸ hapart)

/-- A well-formed registry of people who are read back is read back. -/
theorem parsePeople_written {entries : List (Person A C)} (h : Proper entries)
    (hstorable : ∀ entry ∈ entries, entry.Storable D.toDoubleOps) :
    parsePeople D.toDoubleOps A C (toText D.toDoubleOps (peopleToJson D.toDoubleOps entries)) = some entries := by
  have hget : (peopleToJson D.toDoubleOps entries).get "people".toList
      = some (.array (entries.map fun entry => .ofFields (personFields D.toDoubleOps entry))) := rfl
  have hfew : ¬ maxPeople < (entries.map fun entry => Value.ofFields (personFields D.toDoubleOps entry)).length := by
    rw [List.length_map]
    exact Nat.not_lt.mpr h.few
  have hfold := @foldlM_parsePerson_written A C D [] entries hstorable h.apart
  simp only [parsePeople, parse_toText (fits_people entries), Except.toOption, hget, Value.asArray_array, hfew, hfold,
    Option.bind_eq_bind, Option.bind_some, ↓reduceIte, List.nil_append]

end Selfhost.Identity
