import Selfhost.Identity.Policy

/-!
# What grants allow

Satisfaction is a preorder on capabilities, so an agent that is confined to a person's grants is allowed nothing that the
person is not: `agents_confined`.
-/

namespace Selfhost.Identity

open Selfhost.Lib Selfhost.Names

variable {A : Alphabet}

/-! ## Satisfaction -/

theorem satisfies_refl (c : Capability) : satisfies c c = true := by simp [satisfies]

@[simp] theorem satisfies_owner (c : Capability) : satisfies .owner c = true := by
  unfold satisfies
  split <;> rfl

/-- The ways in which one capability satisfies another. -/
theorem satisfies_iff {held want : Capability} :
    satisfies held want = true ↔ held = want ∨ held = .owner ∨
      (held = .filesAdmin ∧ ∃ share, want = .filesRead share ∨ want = .filesWrite share) ∨
      (∃ share, held = .filesWrite share ∧ want = .filesRead share) ∨
      (∃ node, held = .desktopControl node ∧ want = .desktopView node) ∨
      ∃ site, held = .siteAdminOf site ∧ want = .siteAccess site := by
  unfold satisfies
  by_cases heq : held = want
  · simp [heq]
  · rw [if_neg heq]
    cases held with
    | filesAdmin => cases want <;> simp_all
    | filesWrite share => cases want <;> simp_all [eq_comm]
    | desktopControl node => cases want <;> simp_all [eq_comm]
    | siteAdminOf site => cases want <;> simp_all [eq_comm]
    | owner => simp
    | consoleRead | serviceControl | servicesAdmin | nodeAdmin | siteAdmin | dnsAdmin | mailAdmin => simpa using heq
    | filesRead _ | desktopView _ | clipboardRead _ | siteAccess _ | vpnAccess _ => simpa using heq

theorem satisfies_trans {a b c : Capability} (hab : satisfies a b = true) (hbc : satisfies b c = true) :
    satisfies a c = true := by
  rcases satisfies_iff.mp hab with rfl | rfl | ⟨rfl, share, hb⟩ | ⟨share, rfl, rfl⟩ | ⟨node, rfl, rfl⟩ | ⟨site, rfl, rfl⟩
  · exact hbc
  · exact satisfies_owner c
  · -- a share that is written is also read
    rcases hb with rfl | rfl
    · rcases satisfies_iff.mp hbc with rfl | h | ⟨h, -⟩ | ⟨_, h, -⟩ | ⟨_, h, -⟩ | ⟨_, h, -⟩
      · exact hab
      all_goals cases h
    · rcases satisfies_iff.mp hbc with rfl | h | ⟨h, -⟩ | ⟨other, -, rfl⟩ | ⟨_, h, -⟩ | ⟨_, h, -⟩
      · exact hab
      · cases h
      · cases h
      · exact satisfies_iff.mpr (Or.inr (Or.inr (Or.inl ⟨rfl, other, Or.inl rfl⟩)))
      · cases h
      · cases h
  all_goals
    rcases satisfies_iff.mp hbc with rfl | h | ⟨h, -⟩ | ⟨_, h, -⟩ | ⟨_, h, -⟩ | ⟨_, h, -⟩
    · exact hab
    all_goals cases h

namespace Grants

theorem holds_iff {grants : Grants} {want : Capability} :
    grants.holds want = true ↔ ∃ held ∈ grants.list, satisfies held want = true := List.any_eq_true

/-- What a confined set holds, the ceiling holds. -/
theorem holds_of_within {grants ceiling : Grants} {want : Capability} (h : (grants.within ceiling).holds want = true) :
    ceiling.holds want = true := by
  obtain ⟨c, hc, hwant⟩ := holds_iff.mp h
  obtain ⟨held, hheld, hsat⟩ := holds_iff.mp (List.mem_filter.mp hc).2
  exact holds_iff.mpr ⟨held, hheld, satisfies_trans hsat hwant⟩

theorem holds_mono {grants more : Grants} (hmore : ∀ c ∈ grants.list, c ∈ more.list) {want : Capability}
    (h : grants.holds want = true) : more.holds want = true := by
  obtain ⟨held, hheld, hsat⟩ := holds_iff.mp h
  exact holds_iff.mpr ⟨held, hmore held hheld, hsat⟩

theorem subset_of_grant {grants more : Grants} {c : Capability} {outcome : Granted}
    (h : grants.grant c = some (more, outcome)) : ∀ held ∈ grants.list, held ∈ more.list := by
  intro held hheld
  unfold grant at h
  split at h
  · cases h
    exact hheld
  · split at h
    · cases h
    · cases h
      exact List.mem_append_left _ hheld

end Grants

/-! ## Decisions -/

namespace Policy

variable {p : Policy} {want : Capability} {grants more : Grants}

theorem decide_agent {name : Name A} (h : p.decide (.agent name grants) want = .allow) : grants.holds want = true := by
  unfold Policy.decide Caller.agent at h
  dsimp only at h
  simp only [Credential.belongsTo, isAgent, isMachine, isOwner, Credential.isAPasswordLogin, Bool.not_true,
    Bool.and_false, Bool.false_eq_true, if_false] at h
  split at h
  · cases h
  · cases hholds : grants.holds want with
    | true => rfl
    | false =>
        rw [hholds] at h
        cases h

theorem decide_person_passkey {name : Name A} :
    p.decide (.passkey (.person name) grants) want = .allow ↔ grants.holds want = true := by
  unfold Policy.decide Caller.passkey
  dsimp only
  simp only [Credential.belongsTo, isAgent, isMachine, isOwner, Credential.isAPasswordLogin,
    Credential.isUnattended, Bool.not_false, Bool.and_self, Bool.not_true, Bool.false_and, Bool.and_false,
    Bool.false_eq_true, if_false]
  cases grants.holds want with
  | true => exact ⟨fun _ => rfl, fun _ => rfl⟩
  | false => exact ⟨fun h => (nomatch h), fun h => (nomatch h)⟩

/-- The passkey is the strongest credential of a person. -/
theorem holds_of_decide_person {name : Name A} {credential : Credential}
    (h : p.decide ⟨.person name, credential, grants⟩ want = .allow) : grants.holds want = true := by
  unfold Policy.decide at h
  split at h
  · cases h
  · rename_i hbelongs
    have hlogin : credential.isAPasswordLogin = false := by
      cases credential with
      | session s =>
          cases hopened : s.openedBy with
          | password => simp [Credential.belongsTo, hopened, isOwner] at hbelongs
          | passkey => simp [Credential.isAPasswordLogin, hopened]
          | personPassword => simp [Credential.isAPasswordLogin, hopened]
      | bearer | password | devicePassword | personPassword | passkey | agent => rfl
    split at h
    · cases h
    · simp only [isMachine, hlogin, isOwner, Bool.and_false, Bool.false_eq_true, if_false] at h
      split at h
      · assumption
      · cases h

/-- More grants allow no less. -/
theorem decide_mono {identity : Identity A} {credential : Credential} (hmore : ∀ c ∈ grants.list, c ∈ more.list)
    (h : p.decide ⟨identity, credential, grants⟩ want = .allow) : p.decide ⟨identity, credential, more⟩ want = .allow := by
  unfold Policy.decide at h ⊢
  dsimp only at h ⊢
  split at h
  · cases h
  · rename_i hbelongs
    rw [if_neg hbelongs]
    split at h
    · cases h
    · rename_i harmed
      rw [if_neg harmed]
      split at h
      · rename_i hmachine
        rw [if_pos hmachine]
        exact h
      · rename_i hmachine
        rw [if_neg hmachine]
        split at h
        · rename_i hlogin
          rw [if_pos hlogin]
          exact h
        · rename_i hlogin
          rw [if_neg hlogin]
          split at h
          · rename_i howner
            rw [if_pos howner]
          · rename_i howner
            rw [if_neg howner]
            split at h
            · rename_i hholds
              rw [if_pos (Grants.holds_mono hmore hholds)]
            · cases h

/-- The owner's and the machine's authority is not by grants. -/
theorem decide_congr {identity : Identity A} (hfixed : identity = .owner ∨ identity = .machine)
    (credential : Credential) (grants more : Grants) :
    p.decide ⟨identity, credential, grants⟩ want = p.decide ⟨identity, credential, more⟩ want := by
  unfold Policy.decide
  rcases hfixed with rfl | rfl
  · simp only [isMachine, isOwner, if_true]
  · simp only [isMachine, if_true]

end Policy

/-- **Agents and their sponsors**: satisfaction is reflexive and transitive; an agent within a person's grants is allowed
nothing that the person, by passkey, is not, and a passkey is the strongest credential of a person; a grant that is added
turns no allowance into a refusal; and what the owner and the machine may do does not depend on grants. -/
theorem agents_confined :
    (∀ c, satisfies c c = true) ∧ (∀ a b c, satisfies a b = true → satisfies b c = true → satisfies a c = true) ∧
      (∀ (p : Policy) (agent person : Name A) (grants ceiling : Grants) (want : Capability),
        p.decide (.agent agent (grants.within ceiling)) want = .allow →
          p.decide (.passkey (.person person) ceiling) want = .allow) ∧
      (∀ (p : Policy) (person : Name A) (credential : Credential) (grants : Grants) (want : Capability),
        p.decide ⟨.person person, credential, grants⟩ want = .allow →
          p.decide (.passkey (.person person) grants) want = .allow) ∧
      (∀ (p : Policy) (identity : Identity A) (credential : Credential) (grants more : Grants) (c want : Capability)
        (outcome : Granted), grants.grant c = some (more, outcome) →
          p.decide ⟨identity, credential, grants⟩ want = .allow → p.decide ⟨identity, credential, more⟩ want = .allow) ∧
      ∀ (p : Policy) (identity : Identity A) (credential : Credential) (grants more : Grants) (want : Capability),
        identity = .owner ∨ identity = .machine →
          p.decide ⟨identity, credential, grants⟩ want = p.decide ⟨identity, credential, more⟩ want := by
  refine ⟨satisfies_refl, fun a b c => satisfies_trans, ?_, ?_, ?_, ?_⟩
  · intro p agent person grants ceiling want hallow
    exact Policy.decide_person_passkey.mpr (Grants.holds_of_within (Policy.decide_agent hallow))
  · intro p person credential grants want hallow
    exact Policy.decide_person_passkey.mpr (Policy.holds_of_decide_person hallow)
  · intro p identity credential grants more c want outcome hgrant hallow
    exact Policy.decide_mono (Grants.subset_of_grant hgrant) hallow
  · intro p identity credential grants more want hfixed
    exact Policy.decide_congr hfixed credential grants more

/-- An agent with `files.write` and `node.admin` for a person with `files.admin`. -/
theorem agents_confined_files :
    ∃ (agent person : Name asciiAlphabet) (vault : ShareId) (grants ceiling : Grants),
      (grants.within ceiling).list = [.filesWrite vault] ∧
        Policy.decide ⟨false, true⟩ (.agent agent (grants.within ceiling)) (.filesRead vault) = .allow ∧
        Policy.decide ⟨false, true⟩ (.passkey (.person person) ceiling) (.filesRead vault) = .allow := by
  have hagent : Policy.decide ⟨false, true⟩ (.agent (A := asciiAlphabet) ⟨"claude".toList, by decide⟩
      (Grants.within ⟨[.filesWrite ⟨"vault".toList, by decide⟩, .nodeAdmin], by decide, by decide⟩
        ⟨[.filesAdmin], by decide, by decide⟩)) (.filesRead ⟨"vault".toList, by decide⟩) = .allow := by decide +kernel
  refine ⟨⟨"claude".toList, by decide⟩, ⟨"Mom".toList, by decide⟩, ⟨"vault".toList, by decide⟩,
    ⟨[.filesWrite ⟨"vault".toList, by decide⟩, .nodeAdmin], by decide, by decide⟩, ⟨[.filesAdmin], by decide, by decide⟩,
    by decide +kernel, hagent, ?_⟩
  exact agents_confined.2.2.1 _ _ _ _ _ _ hagent

end Selfhost.Identity
