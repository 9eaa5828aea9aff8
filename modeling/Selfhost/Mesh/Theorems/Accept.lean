import Selfhost.Mesh.Enroll

/-!
# What a greeting writes to the registry

A greeting of another version is recorded for the node it names, whoever sent it and whether or not that node was
declared.
-/

namespace Selfhost.Mesh

open Selfhost.Lib

/-- The fields of the handshake can be bound to a proof. -/
def Bindable (H : Hashes) (handshakeKey : Str) : Prop :=
  isHandshakeField handshakeKey = true ∧ isHandshakeField (acceptKey H handshakeKey) = true

/-- The greeting bears a proof under the token of its node, for a handshake that was not honoured before. -/
def Proved (H : Hashes) (owner : Owner) (handshakeKey : Str) (moment : Instant) (hello : Hello) : Prop :=
  (∃ token, owner.tokens hello.node = some token ∧
    Binding.verify H ⟨handshakeKey, acceptKey H handshakeKey, hello.node⟩ token hello.proof = true) ∧
    (owner.ledger.honour handshakeKey moment).1 = .fresh

/-- A greeting is read whose refusal is recorded for the node it names. -/
def Drops (H : Hashes) (D : Json.DoubleOps) (owner : Owner) (dialler : Dialler) (moment : Instant) (hello : Hello) :
    Prop :=
  readGreeting D dialler.reading = .ok hello ∧
    (hello.version ≠ version ∨
      (Bindable H dialler.handshakeKey ∧ owner.registry.isDeclared hello.node = true ∧
        ¬ Proved H owner dialler.handshakeKey moment hello))

section

variable {H : Hashes} {D : Json.DoubleOps} {owner : Owner} {dialler : Dialler} {now : SystemTime} {moment : Instant}
  {handshakeKey : Str} {hello : Hello}

/-! ## The checks -/

theorem binding_ok {node : NodeName} (h : Bindable H handshakeKey) :
    Binding.new handshakeKey (acceptKey H handshakeKey) node = .ok ⟨handshakeKey, acceptKey H handshakeKey, node⟩ := by
  simp only [Binding.new, checkHandshakeField, h.1, h.2, if_true]

theorem binding_error {node : NodeName} (h : ¬ Bindable H handshakeKey) :
    ∃ error, Binding.new handshakeKey (acceptKey H handshakeKey) node = .error error := by
  unfold Binding.new checkHandshakeField
  by_cases hkey : isHandshakeField handshakeKey = true
  · have haccept : ¬ isHandshakeField (acceptKey H handshakeKey) = true := fun haccept => h ⟨hkey, haccept⟩
    simp only [hkey, haccept, if_true]
    exact ⟨_, rfl⟩
  · simp only [hkey]
    exact ⟨_, rfl⟩

/-- A greeting of this version that can be bound, from a declared node. -/
theorem verifyGreeting_declared (hversion : hello.version = version) (hbind : Bindable H handshakeKey)
    (hdeclared : owner.registry.isDeclared hello.node = true) :
    (Proved H owner handshakeKey moment hello ∧
      (verifyGreeting H owner handshakeKey moment hello).1 = .ok hello.node) ∨
    (¬ Proved H owner handshakeKey moment hello ∧
      ∃ refusal, (verifyGreeting H owner handshakeKey moment hello).1 = .error refusal ∧
        refusal.node = some hello.node) := by
  simp only [verifyGreeting, hversion, ne_eq, not_true_eq_false, if_false, binding_ok hbind, hdeclared, Bool.and_true]
  cases htoken : owner.tokens hello.node with
  | none =>
      refine .inr ⟨?_, .proofFailed hello.node, rfl, rfl⟩
      rintro ⟨⟨token, hsome, -⟩, -⟩
      rw [htoken] at hsome
      cases hsome
  | some token =>
      simp only [Option.isSome_some, Option.getD_some, Bool.true_and]
      by_cases hverify : Binding.verify H ⟨handshakeKey, acceptKey H handshakeKey, hello.node⟩ token hello.proof = true
      · simp only [hverify, Bool.not_true, Bool.false_eq_true, if_false]
        rcases hhonour : owner.ledger.honour handshakeKey moment with ⟨admission, ledger⟩
        cases admission with
        | fresh => exact .inl ⟨⟨⟨token, htoken, hverify⟩, by rw [hhonour]⟩, rfl⟩
        | replay =>
            refine .inr ⟨?_, .replay hello.node, rfl, rfl⟩
            rintro ⟨-, hfresh⟩
            rw [hhonour] at hfresh
            cases hfresh
      · simp only [Bool.eq_false_iff.mpr hverify, Bool.not_false, if_true]
        refine .inr ⟨?_, .proofFailed hello.node, rfl, rfl⟩
        rintro ⟨⟨token', hsome, hproved⟩, -⟩
        rw [htoken] at hsome
        cases hsome
        exact hverify hproved

theorem verifyGreeting_undeclared (hversion : hello.version = version) (hbind : Bindable H handshakeKey)
    (hdeclared : owner.registry.isDeclared hello.node = false) :
    (verifyGreeting H owner handshakeKey moment hello).1 = .error (.undeclared hello.node) := by
  simp only [verifyGreeting, hversion, ne_eq, not_true_eq_false, if_false, binding_ok hbind, hdeclared, Bool.and_false,
    Bool.false_and, Bool.not_false, if_true, Bool.false_eq_true]

theorem readGreeting_node {reading : Reading} {refusal : Refused} (h : readGreeting D reading = .error refusal) :
    refusal.node = none := by
  unfold readGreeting at h
  repeat' split at h
  all_goals cases h
  all_goals rfl

/-- The verdict on a dialler: a refusal that is recorded for the node of its greeting, one that is not, or a node that
is declared. -/
theorem verify_cases (H : Hashes) (D : Json.DoubleOps) (owner : Owner) (dialler : Dialler) (moment : Instant) :
    (∃ hello refusal, Drops H D owner dialler moment hello ∧
      (verify H D owner dialler moment).1 = .error refusal ∧ refusal.node = some hello.node) ∨
    ((∀ hello, ¬ Drops H D owner dialler moment hello) ∧
      ((∃ refusal, (verify H D owner dialler moment).1 = .error refusal ∧ refusal.node = none) ∨
        ∃ node, (verify H D owner dialler moment).1 = .ok node ∧ owner.registry.isDeclared node = true)) := by
  unfold verify
  cases hread : readGreeting D dialler.reading with
  | error refusal =>
      refine .inr ⟨fun hello hdrops => ?_, .inl ⟨refusal, rfl, readGreeting_node hread⟩⟩
      rw [hdrops.1] at hread
      cases hread
  | ok hello =>
      have hsame : ∀ other, Drops H D owner dialler moment other → other = hello := by
        intro other hdrops
        rw [hdrops.1] at hread
        exact Except.ok.inj hread
      dsimp only
      by_cases hversion : hello.version = version
      · by_cases hbind : Bindable H dialler.handshakeKey
        · by_cases hdeclared : owner.registry.isDeclared hello.node = true
          · rcases @verifyGreeting_declared H owner moment dialler.handshakeKey hello hversion hbind hdeclared with
              ⟨hproved, hok⟩ | ⟨hproved, refusal, herror, hnode⟩
            · refine .inr ⟨fun other hdrops => ?_, .inr ⟨hello.node, hok, hdeclared⟩⟩
              obtain rfl := hsame other hdrops
              rcases hdrops.2 with h | ⟨-, -, h⟩
              · exact h hversion
              · exact h hproved
            · exact .inl ⟨hello, refusal, ⟨hread, .inr ⟨hbind, hdeclared, hproved⟩⟩, herror, hnode⟩
          · refine .inr ⟨fun other hdrops => ?_, .inl ⟨_,
              verifyGreeting_undeclared hversion hbind (Bool.eq_false_iff.mpr hdeclared), rfl⟩⟩
            obtain rfl := hsame other hdrops
            rcases hdrops.2 with h | ⟨-, h, -⟩
            · exact h hversion
            · exact hdeclared h
        · obtain ⟨error, hnew⟩ := @binding_error H dialler.handshakeKey hello.node hbind
          refine .inr ⟨fun other hdrops => ?_, .inl ⟨.badHandshake, ?_, rfl⟩⟩
          · obtain rfl := hsame other hdrops
            rcases hdrops.2 with h | ⟨h, -, -⟩
            · exact h hversion
            · exact hbind h
          · simp only [verifyGreeting, hversion, ne_eq, not_true_eq_false, if_false, hnew]
      · refine .inl ⟨hello, .versionMismatch hello.node hello.version, ⟨hread, .inl hversion⟩, ?_, rfl⟩
        simp only [verifyGreeting, ne_eq, hversion, not_false_eq_true, if_true]

/-! ## The registry -/

/-- What a dialler leaves in the registry. -/
theorem admitDialler_cases (H : Hashes) (D : Json.DoubleOps) (owner : Owner) (dialler : Dialler) (now : SystemTime)
    (moment : Instant) :
    (∃ hello reason, Drops H D owner dialler moment hello ∧
      (admitDialler H D owner dialler now moment).2.registry =
        owner.registry.declareDropped hello.node now reason) ∨
    ((∀ hello, ¬ Drops H D owner dialler moment hello) ∧
      ((admitDialler H D owner dialler now moment).2.registry = owner.registry ∨
        ∃ node, (admitDialler H D owner dialler now moment).1 = .ok node ∧ owner.registry.isDeclared node = true ∧
          (admitDialler H D owner dialler now moment).2.registry = owner.registry.declareLinked node now)) := by
  unfold admitDialler
  rcases hverify : verify H D owner dialler moment with ⟨verdict, ledger⟩
  rcases verify_cases H D owner dialler moment with
    ⟨hello, refusal, hdrops, herror, hnode⟩ | ⟨hnone, ⟨refusal, herror, hnode⟩ | ⟨node, hok, hdeclared⟩⟩
  · rw [hverify] at herror
    obtain rfl : verdict = .error refusal := herror
    simp only [hnode]
    exact .inl ⟨hello, _, hdrops, rfl⟩
  · rw [hverify] at herror
    obtain rfl : verdict = .error refusal := herror
    simp only [hnode]
    exact .inr ⟨hnone, .inl trivial⟩
  · rw [hverify] at hok
    obtain rfl : verdict = .ok node := hok
    refine .inr ⟨hnone, ?_⟩
    dsimp only
    split
    · exact .inl rfl
    · split
      · exact .inr ⟨node, rfl, hdeclared, rfl⟩
      · exact .inl rfl

end

/-- The registry keeps its names where no greeting of another version names a node that was not declared. -/
theorem registry_names_are_kept_iff (H : Hashes) (D : Json.DoubleOps) (owner : Owner) (dialler : Dialler)
    (now : SystemTime) (moment : Instant) :
    (∀ node, (admitDialler H D owner dialler now moment).2.registry.isDeclared node = owner.registry.isDeclared node) ↔
      ¬ ∃ hello, readGreeting D dialler.reading = .ok hello ∧ hello.version ≠ version ∧
        owner.registry.isDeclared hello.node = false := by
  rcases admitDialler_cases H D owner dialler now moment with
    ⟨hello, reason, ⟨hread, hdrops⟩, hregistry⟩ | ⟨hnone, hregistry⟩
  · have hnames : ∀ node, (admitDialler H D owner dialler now moment).2.registry.isDeclared node =
        (owner.registry.isDeclared node || node = hello.node) := by
      intro node
      rw [hregistry, Registry.declareDropped, Registry.isDeclared_modify, Registry.isDeclared_declare]
    constructor
    · rintro hkept ⟨other, hother, -, hundeclared⟩
      rw [hread] at hother
      cases hother
      have hself := hkept hello.node
      rw [hnames, hundeclared] at hself
      simp at hself
    · intro hdeclared node
      rw [hnames]
      by_cases hnode : node = hello.node
      · subst hnode
        rcases hdrops with hversion | ⟨-, hknown, -⟩
        · cases hcase : owner.registry.isDeclared hello.node with
          | true => rfl
          | false => exact absurd ⟨hello, hread, hversion, hcase⟩ hdeclared
        · rw [hknown, Bool.true_or]
      · simp [hnode]
  · constructor
    · rintro - ⟨hello, hread, hversion, -⟩
      exact hnone hello ⟨hread, .inl hversion⟩
    · intro _ node
      rcases hregistry with hsame | ⟨linked, -, hdeclared, hlinked⟩
      · rw [hsame]
      · rw [hlinked, Registry.declareLinked, Registry.isDeclared_modify, Registry.declare_of_isDeclared hdeclared]

/-! ## Greetings of another version -/

def sampleNode (c : Char) (h : checkName [c] = .ok ()) : NodeName := ⟨[c], h⟩

/-- The greeting of a node under version 2, with a proof of zeros. -/
def sampleGreeting (c : Char) : Bytes :=
  let params := ["\x7b\"node\":\"".toList, [c], "\",\"version\":2,".toList, "\"proof\":\"".toList,
    List.replicate 64 '0', "\"\x7d".toList].flatten
  (encodeFrame .opening 0 (linkControlService :: utf8 params)).toOption.getD []

def sampleDialler (c : Char) : Dialler := ⟨['k'], .message (sampleGreeting c), true⟩

/-- An owner without tokens that holds a registry. -/
def sampleOwner (registry : Registry) : Owner :=
  ⟨fun _ => none, ⟨4096, by decide, .fromSecs 900, [], [], 0⟩, registry⟩

def sampleHashes : Hashes := ⟨fun _ => [], fun _ _ => []⟩

/-- A stranger's greeting of version 2 puts its name into an empty registry. -/
theorem registry_learns_a_stranger : ¬ ∀ (H : Hashes) (D : Json.DoubleOps) (owner : Owner) (dialler : Dialler)
    (now : SystemTime) (moment : Instant) (node : NodeName),
    (admitDialler H D owner dialler now moment).2.registry.isDeclared node = owner.registry.isDeclared node := by
  intro hall
  have hkept := hall sampleHashes Json.wholeOps (sampleOwner .new) (sampleDialler 'b') 0 0 (sampleNode 'b' (by decide))
  exact absurd hkept (by decide +kernel)

/-- A refused greeting leaves a linked node as it was, unless it names the node and either is of another version or can
be bound and proves nothing. -/
theorem linked_node_is_kept_iff (H : Hashes) (D : Json.DoubleOps) (owner : Owner) (dialler : Dialler)
    (now : SystemTime) (moment : Instant) (node : NodeName) (record : PeerRecord) (refusal : Refused)
    (hget : owner.registry.get node = some record) (hlinked : record.liveness.isLinked = true)
    (hrefused : (admitDialler H D owner dialler now moment).1 = .error refusal) :
    ((admitDialler H D owner dialler now moment).2.registry.get node).map PeerRecord.liveness =
        some record.liveness ↔
      ¬ ∃ hello, readGreeting D dialler.reading = .ok hello ∧ hello.node = node ∧
        (hello.version ≠ version ∨
          (Bindable H dialler.handshakeKey ∧ ¬ Proved H owner dialler.handshakeKey moment hello)) := by
  have hdeclared := Registry.isDeclared_of_get hget
  rcases admitDialler_cases H D owner dialler now moment with
    ⟨hello, reason, ⟨hread, hdrops⟩, hregistry⟩ | ⟨hnone, hregistry⟩
  · by_cases hnode : hello.node = node
    · subst hnode
      have hdown : (admitDialler H D owner dialler now moment).2.registry.get hello.node =
          some (record.dropped now reason) := by
        rw [hregistry, Registry.declareDropped, Registry.declare_of_isDeclared hdeclared, Registry.get_modify_self, hget]
        rfl
      constructor
      · intro hkept
        rw [hdown] at hkept
        have hlive : Liveness.down now reason = record.liveness := Option.some.inj hkept
        rw [← hlive] at hlinked
        cases hlinked
      · intro hfree
        refine absurd ⟨hello, hread, rfl, ?_⟩ hfree
        rcases hdrops with hversion | ⟨hbind, -, hproved⟩
        · exact .inl hversion
        · exact .inr ⟨hbind, hproved⟩
    · have hkept : (admitDialler H D owner dialler now moment).2.registry.get node = some record := by
        rw [hregistry, Registry.declareDropped, Registry.get_modify_of_ne (Ne.symm hnode),
          Registry.get_declare_of_ne (Ne.symm hnode), hget]
      refine ⟨fun _ => ?_, fun _ => by rw [hkept, Option.map_some]⟩
      rintro ⟨other, hother, hsame, -⟩
      rw [hread] at hother
      cases hother
      exact hnode hsame
  · have hkept : (admitDialler H D owner dialler now moment).2.registry = owner.registry := by
      rcases hregistry with hsame | ⟨linked, hok, -⟩
      · exact hsame
      · rw [hrefused] at hok
        cases hok
    refine ⟨fun _ => ?_, fun _ => by rw [hkept, hget, Option.map_some]⟩
    rintro ⟨hello, hread, rfl, hversion | ⟨hbind, hproved⟩⟩
    · exact hnone hello ⟨hread, .inl hversion⟩
    · exact hnone hello ⟨hread, .inr ⟨hbind, hdeclared, hproved⟩⟩

theorem linked_node_is_kept_iff_another :
    ((admitDialler sampleHashes Json.wholeOps (sampleOwner (Registry.new.declareLinked (sampleNode 'a' (by decide)) 5))
      (sampleDialler 'b') 9 0).2.registry.get (sampleNode 'a' (by decide))).map PeerRecord.liveness =
        some (.linked 5) := by
  have hread : readGreeting Json.wholeOps (sampleDialler 'b').reading =
      .ok ⟨sampleNode 'b' (by decide), 2, ⟨List.replicate 32 0, by decide⟩⟩ := by decide +kernel
  refine (linked_node_is_kept_iff sampleHashes Json.wholeOps _ (sampleDialler 'b') 9 0 (sampleNode 'a' (by decide))
    ((PeerRecord.declared (sampleNode 'a' (by decide))).linked 5) (.versionMismatch (sampleNode 'b' (by decide)) 2)
    (by decide +kernel) rfl (by decide +kernel)).mpr ?_
  rintro ⟨hello, hhello, hnode, -⟩
  rw [hread] at hhello
  cases hhello
  exact absurd hnode (by decide)

/-- Anybody's greeting of version 2 in the name of a linked node takes it down. -/
theorem linked_node_is_taken_down : ¬ ∀ (H : Hashes) (D : Json.DoubleOps) (owner : Owner) (dialler : Dialler)
    (now : SystemTime) (moment : Instant) (node : NodeName) (record : PeerRecord) (refusal : Refused),
    owner.registry.get node = some record → record.liveness.isLinked = true →
    (admitDialler H D owner dialler now moment).1 = .error refusal →
    ((admitDialler H D owner dialler now moment).2.registry.get node).map PeerRecord.liveness =
      some record.liveness := by
  intro hall
  have hkept := hall sampleHashes Json.wholeOps (sampleOwner (Registry.new.declareLinked (sampleNode 'a' (by decide)) 5))
    (sampleDialler 'a') 9 0 (sampleNode 'a' (by decide)) ((PeerRecord.declared (sampleNode 'a' (by decide))).linked 5)
    (.versionMismatch (sampleNode 'a' (by decide)) 2) (by decide +kernel) rfl (by decide +kernel)
  exact absurd hkept (by decide +kernel)

end Selfhost.Mesh
