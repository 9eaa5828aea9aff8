import Selfhost.Dns.Wire

/-!
# Names on the wire

What `writeName` writes whole is what `readName` reads, up to the length of the name.
-/

namespace Selfhost.Dns

open Selfhost.Lib

/-! ## Pointers -/

theorem pointer_iff : ∀ b : UInt8, b &&& 0xC0 = 0xC0 ↔ 192 ≤ b.toNat := by
  have h : ∀ n < 256, UInt8.ofNat n &&& 0xC0 = 0xC0 ↔ 192 ≤ n := by decide +kernel
  intro b
  have hb := h b.toNat b.toNat_lt
  rwa [UInt8.ofNat_toNat] at hb

/-! ## One turn -/

theorem byteLen_of_fromUtf8 {bytes : Bytes} {s : Str} (h : fromUtf8 bytes = some s) : byteLen s = bytes.length := by
  rw [byteLen, utf8_of_fromUtf8 h]

/-- What a turn of the loop can do: fail, close the name, follow a pointer or take a label. -/
theorem Cursor.turn_cases (buffer : Bytes) (c : Cursor) :
    (∃ e, c.turn buffer = .finished (.error e)) ∨
      (∃ stop, c.turn buffer = .finished (.ok (c.name, stop))) ∨
      (∃ target, c.jumps < maxJumps ∧
        c.turn buffer = .next { c with
          jumps := c.jumps + 1, afterPointer := some (c.afterPointer.getD (c.position + 2)), position := target }) ∨
      ∃ label, byteLen label ≤ maxLabel ∧ c.total + (byteLen label + 1) ≤ maxName ∧
        c.turn buffer = .next { c with
          labels := c.labels ++ [label], position := c.position + 1 + byteLen label,
          total := c.total + (byteLen label + 1) } := by
  unfold Cursor.turn
  split
  · exact Or.inl ⟨_, rfl⟩
  · rename_i length hlength
    split
    · split
      · exact Or.inl ⟨_, rfl⟩
      · dsimp only
        split
        · exact Or.inl ⟨_, rfl⟩
        · split
          · exact Or.inl ⟨_, rfl⟩
          · rename_i hjumps
            exact Or.inr (Or.inr (Or.inl ⟨_, Nat.not_lt.mp hjumps, rfl⟩))
    · split
      · exact Or.inr (Or.inl ⟨_, rfl⟩)
      · split
        · exact Or.inl ⟨_, rfl⟩
        · rename_i hlabel
          split
          · exact Or.inl ⟨_, rfl⟩
          · rename_i htotal
            dsimp only
            split
            · exact Or.inl ⟨_, rfl⟩
            · rename_i bytes hslice
              split
              · exact Or.inl ⟨_, rfl⟩
              · rename_i label hutf
                have hlen : byteLen label = length.toNat := by
                  rw [byteLen_of_fromUtf8 hutf, length_of_slice? hslice]
                  omega
                rw [← hlen] at hlabel htotal ⊢
                exact Or.inr (Or.inr (Or.inr ⟨label, Nat.not_lt.mp hlabel, Nat.not_lt.mp htotal, rfl⟩))

/-! ## Enough turns -/

theorem Cursor.run_isSome {buffer : Bytes} {fuel : Nat} {c : Cursor} (htotal : c.total ≤ maxName)
    (hjumps : c.jumps ≤ maxJumps) (hfuel : nameTurns ≤ fuel + (c.total + c.jumps)) :
    (c.run buffer fuel).isSome = true := by
  induction fuel generalizing c with
  | zero =>
      unfold nameTurns at hfuel
      omega
  | succ fuel ih =>
      rw [Cursor.run]
      obtain ⟨e, heq⟩ | ⟨stop, heq⟩ | ⟨target, hjump, heq⟩ | ⟨label, -, hlabel, heq⟩ := c.turn_cases buffer
      · rw [heq]
        rfl
      · rw [heq]
        rfl
      · rw [heq]
        exact ih htotal hjump (by dsimp only; omega)
      · rw [heq]
        exact ih hlabel hjumps (by dsimp only; omega)

/-- The loop of `read_name` ends within the turns that the model gives it. -/
theorem readName_eq (buffer : Bytes) (start : Nat) :
    (Cursor.start start).run buffer nameTurns = some (readName buffer start) := by
  have h : ((Cursor.start start).run buffer nameTurns).isSome = true :=
    Cursor.run_isSome (Nat.zero_le _) (Nat.zero_le _) (Nat.le_refl _)
  obtain ⟨result, hresult⟩ := Option.isSome_iff_exists.mp h
  rw [readName, hresult]
  rfl

/-! ## Labels -/

/-- A label that the encoder writes. -/
def LabelOk (label : Str) : Prop := label ≠ [] ∧ byteLen label ≤ maxLabel

instance (label : Str) : Decidable (LabelOk label) := inferInstanceAs (Decidable (_ ∧ _))

/-- The bytes of labels with their lengths. -/
def wireLen (labels : List Str) : Nat := (labels.map fun label => byteLen label + 1).sum

theorem byteLen_intercalate {labels : List Str} (h : labels ≠ []) :
    byteLen (['.'].intercalate labels) + 1 = wireLen labels := by
  induction labels with
  | nil => exact absurd rfl h
  | cons label labels ih =>
      cases labels with
      | nil => simp [wireLen]
      | cons other labels =>
          rw [List.intercalate_cons_cons, byteLen_append, byteLen_append, wireLen, List.map_cons, List.sum_cons]
          have hdot : byteLen ['.'] = 1 := by decide
          have := ih (List.cons_ne_nil _ _)
          rw [wireLen] at this
          omega

theorem writeLabels_of_ok {labels : List Str} (h : ∀ label ∈ labels, LabelOk label) :
    writeLabels labels =
      (labels.flatMap (fun label => UInt8.ofNat (byteLen label) :: utf8 label) ++ [0], .ok ()) := by
  induction labels with
  | nil => rfl
  | cons label labels ih =>
      obtain ⟨hne, hle⟩ := h label List.mem_cons_self
      have hrest := ih fun other hmem => h other (List.mem_cons_of_mem _ hmem)
      rw [writeLabels, if_neg (by rintro (hnil | hlt); exacts [hne hnil, Nat.not_lt.mpr hle hlt]), hrest]
      simp

theorem writeLabels_ok_iff {labels : List Str} :
    (writeLabels labels).2 = .ok () ↔ ∀ label ∈ labels, LabelOk label := by
  induction labels with
  | nil => exact ⟨fun _ _ hmem => (nomatch hmem), fun _ => rfl⟩
  | cons label labels ih =>
      rw [writeLabels, List.forall_mem_cons]
      split
      · rename_i hbad
        constructor
        · intro h
          cases h
        · rintro ⟨hok, -⟩
          rcases hbad with hnil | hlt
          · exact absurd hnil hok.1
          · exact absurd hlt (Nat.not_lt.mpr hok.2)
      · rename_i hgood
        push Not at hgood
        rw [← ih]
        exact ⟨fun h => ⟨hgood, h⟩, fun h => h.2⟩

theorem byteLen_pos {s : Str} (h : s ≠ []) : 0 < byteLen s := by
  cases s with
  | nil => exact absurd rfl h
  | cons c s =>
      have := c.utf8Size_pos
      rw [byteLen_cons]
      omega

theorem toNat_byteLen {label : Str} (h : LabelOk label) : (UInt8.ofNat (byteLen label)).toNat = byteLen label := by
  have := h.2
  rw [UInt8.toNat_ofNat']
  unfold maxLabel at this
  omega

/-- A label is read where it was written. -/
theorem Cursor.turn_label {buffer : Bytes} {c : Cursor} {label : Str} (hlabel : LabelOk label)
    (hat : At buffer c.position (UInt8.ofNat (byteLen label) :: utf8 label))
    (htotal : c.total + (byteLen label + 1) ≤ maxName) :
    c.turn buffer = .next { c with
      labels := c.labels ++ [label], position := c.position + 1 + byteLen label,
      total := c.total + (byteLen label + 1) } := by
  have hn := toNat_byteLen hlabel
  have hpos := byteLen_pos hlabel.1
  have hle := hlabel.2
  have hslice := hat.tail.slice
  rw [show (utf8 label).length = byteLen label from rfl] at hslice
  rw [Cursor.turn, hat.get]
  dsimp only
  rw [if_neg (by rw [pointer_iff, hn]; unfold maxLabel at hle; omega),
    if_neg (by intro h0; rw [h0] at hn; simp at hn; omega), if_neg (by rw [hn]; omega),
    if_neg (by rw [hn]; omega), hn, hslice]
  dsimp only
  rw [fromUtf8_utf8]

/-- A label that makes the name too long is refused. -/
theorem Cursor.turn_label_long {buffer : Bytes} {c : Cursor} {label : Str} (hlabel : LabelOk label)
    (hat : At buffer c.position (UInt8.ofNat (byteLen label) :: utf8 label))
    (htotal : maxName < c.total + (byteLen label + 1)) : c.turn buffer = .finished (.error .nameTooLong) := by
  have hn := toNat_byteLen hlabel
  have hpos := byteLen_pos hlabel.1
  have hle := hlabel.2
  rw [Cursor.turn, hat.get]
  dsimp only
  rw [if_neg (by rw [pointer_iff, hn]; unfold maxLabel at hle; omega),
    if_neg (by intro h0; rw [h0] at hn; simp at hn; omega), if_neg (by rw [hn]; omega), if_pos (by rw [hn]; omega)]

/-- The end mark closes a name. -/
theorem Cursor.turn_end {buffer : Bytes} {c : Cursor} (hat : At buffer c.position [0]) :
    c.turn buffer = .finished (.ok (c.name, c.afterPointer.getD (c.position + 1))) := by
  rw [Cursor.turn, hat.get]
  rfl

theorem Cursor.run_labels {buffer : Bytes} {labels : List Str} {c : Cursor} {fuel : Nat}
    (hok : ∀ label ∈ labels, LabelOk label) (hpointer : c.afterPointer = none)
    (hat : At buffer c.position
      (labels.flatMap (fun label => UInt8.ofNat (byteLen label) :: utf8 label) ++ [0]))
    (htotal : c.total + wireLen labels ≤ maxName) (hfuel : labels.length < fuel) :
    c.run buffer fuel =
      some (.ok (['.'].intercalate (c.labels ++ labels), c.position + wireLen labels + 1)) := by
  induction labels generalizing c fuel with
  | nil =>
      cases fuel with
      | zero => exact absurd hfuel (Nat.not_lt_zero _)
      | succ fuel =>
          rw [Cursor.run, turn_end hat, hpointer, List.append_nil]
          rfl
  | cons label labels ih =>
      cases fuel with
      | zero => exact absurd hfuel (Nat.not_lt_zero _)
      | succ fuel =>
          rw [wireLen, List.map_cons, List.sum_cons] at htotal
          rw [List.flatMap_cons, List.append_assoc] at hat
          have hlabel := hok label List.mem_cons_self
          rw [Cursor.run, turn_label hlabel hat.left (by omega)]
          dsimp only
          rw [ih (fun other hmem => hok other (List.mem_cons_of_mem _ hmem))]
          · rw [List.append_assoc, wireLen, wireLen, List.map_cons, List.sum_cons, List.singleton_append]
            congr 3
            dsimp only
            omega
          · exact hpointer
          · have hright := hat.right
            rw [List.length_cons, show (utf8 label).length = byteLen label from rfl] at hright
            rw [Nat.add_assoc, Nat.add_comm 1]
            exact hright
          · unfold wireLen
            dsimp only
            omega
          · rw [List.length_cons] at hfuel
            omega

theorem Cursor.run_labels_long {buffer : Bytes} {labels : List Str} {c : Cursor} {fuel : Nat}
    (hok : ∀ label ∈ labels, LabelOk label) (hbound : c.total ≤ maxName)
    (hat : At buffer c.position
      (labels.flatMap (fun label => UInt8.ofNat (byteLen label) :: utf8 label) ++ [0]))
    (htotal : maxName < c.total + wireLen labels) (hfuel : labels.length < fuel) :
    c.run buffer fuel = some (.error .nameTooLong) := by
  induction labels generalizing c fuel with
  | nil => exact absurd htotal (Nat.not_lt.mpr hbound)
  | cons label labels ih =>
      cases fuel with
      | zero => exact absurd hfuel (Nat.not_lt_zero _)
      | succ fuel =>
          rw [wireLen, List.map_cons, List.sum_cons] at htotal
          rw [List.flatMap_cons, List.append_assoc] at hat
          have hlabel := hok label List.mem_cons_self
          rw [Cursor.run]
          by_cases hlong : maxName < c.total + (byteLen label + 1)
          · rw [turn_label_long hlabel hat.left hlong]
          · rw [turn_label hlabel hat.left (Nat.not_lt.mp hlong)]
            dsimp only
            refine ih (fun other hmem => hok other (List.mem_cons_of_mem _ hmem)) (Nat.not_lt.mp hlong) ?_ ?_ ?_
            · have hright := hat.right
              rw [List.length_cons, show (utf8 label).length = byteLen label from rfl] at hright
              dsimp only
              rw [Nat.add_assoc, Nat.add_comm 1]
              exact hright
            · unfold wireLen
              dsimp only
              omega
            · rw [List.length_cons] at hfuel
              omega

/-! ## Whole names -/

/-- A name that the decoder reads back from what the encoder writes. -/
def Readable (name : Str) : Prop :=
  name = [] ∨ (∀ label ∈ name.splitOn '.', LabelOk label) ∧ byteLen name < maxName

instance (name : Str) : Decidable (Readable name) := inferInstanceAs (Decidable (_ ∨ _))

/-- A name that does not end in an empty label has no dots to trim. -/
theorem trimDots_of_labels {name : Str} (h : ∀ label ∈ name.splitOn '.', label ≠ []) : trimDots name = name := by
  refine rdropWhile_eq_self_of_last fun c hc => ?_
  rw [beq_eq_false_iff_ne]
  rintro rfl
  obtain ⟨front, rfl⟩ := List.getLast?_eq_some_iff.mp hc
  rw [List.splitOn_append_cons_self] at h
  exact h [] (List.mem_append_right _ (by simp)) rfl

theorem wireLen_le {labels : List Str} (h : ∀ label ∈ labels, LabelOk label) : 2 * labels.length ≤ wireLen labels := by
  induction labels with
  | nil => exact Nat.zero_le _
  | cons label labels ih =>
      have hpos := byteLen_pos (h label List.mem_cons_self).1
      have hrest := ih fun other hmem => h other (List.mem_cons_of_mem _ hmem)
      rw [wireLen] at hrest ⊢
      rw [List.length_cons, List.map_cons, List.sum_cons]
      omega

theorem writeName_of_labels {name : Str} (hne : name ≠ []) (hlabels : ∀ label ∈ name.splitOn '.', LabelOk label)
    (hlen : byteLen name ≤ maxName) : writeName name = writeLabels (name.splitOn '.') := by
  rw [writeName, trimDots_of_labels fun label hmem => (hlabels label hmem).1]
  rw [if_neg hne, if_neg (Nat.not_lt.mpr hlen)]

theorem length_wire_labels (labels : List Str) :
    (labels.flatMap (fun label => UInt8.ofNat (byteLen label) :: utf8 label)).length = wireLen labels := by
  rw [List.length_flatMap]
  rfl

/-- A readable name is read where it was written. -/
theorem readName_at {buffer : Bytes} {i : Nat} {name : Str} (hname : Readable name)
    (hat : At buffer i (writeName name).1) : readName buffer i = .ok (name, i + (writeName name).1.length) := by
  have heq := readName_eq buffer i
  rcases hname with rfl | ⟨hlabels, hlen⟩
  · rw [nameTurns, Cursor.run, Cursor.turn_end hat] at heq
    exact (Option.some.inj heq).symm
  · by_cases hne : name = []
    · subst hne
      exact absurd rfl (hlabels [] (by simp)).1
    · have hsplit := @List.intercalate_splitOn _ name _ _ '.'
      have hwire := byteLen_intercalate (List.splitOn_ne_nil '.' name)
      rw [hsplit] at hwire
      rw [writeName_of_labels hne hlabels (Nat.le_of_lt hlen), writeLabels_of_ok hlabels] at hat ⊢
      have hcount := wireLen_le hlabels
      rw [Cursor.run_labels hlabels rfl hat (by dsimp only [Cursor.start]; omega) (by unfold nameTurns; omega)] at heq
      rw [← Option.some.inj heq, List.length_append, length_wire_labels]
      dsimp only [Cursor.start]
      rw [List.nil_append, hsplit, Nat.add_assoc]
      rfl

/-- A name is read back where it was written only if it is readable. -/
theorem readable_of_written {buffer : Bytes} {i : Nat} {name : Str}
    (hok : name = [] ∨ (∀ label ∈ name.splitOn '.', LabelOk label) ∧ byteLen name ≤ maxName)
    (hat : At buffer i (writeName name).1) (hread : readName buffer i ≠ .error .nameTooLong) : Readable name := by
  rcases hok with rfl | ⟨hlabels, hlen⟩
  · exact Or.inl rfl
  · refine Or.inr ⟨hlabels, ?_⟩
    by_contra hlong
    have hmax : byteLen name = maxName := by omega
    have hne : name ≠ [] := by
      rintro rfl
      exact absurd hmax (by decide)
    have hwire := byteLen_intercalate (List.splitOn_ne_nil '.' name)
    rw [@List.intercalate_splitOn _ name _ _ '.'] at hwire
    rw [writeName_of_labels hne hlabels hlen, writeLabels_of_ok hlabels] at hat
    have hcount := wireLen_le hlabels
    have heq := readName_eq buffer i
    rw [Cursor.run_labels_long hlabels (Nat.zero_le _) hat (by dsimp only [Cursor.start]; omega)
      (by unfold nameTurns; omega)] at heq
    exact hread (Option.some.inj heq).symm

theorem writeName_ok_iff {name : Str} :
    (writeName name).2 = .ok () ↔
      trimDots name = [] ∨
        (∀ label ∈ (trimDots name).splitOn '.', LabelOk label) ∧ byteLen (trimDots name) ≤ maxName := by
  rw [writeName]
  split
  · rename_i hnil
    exact ⟨fun _ => Or.inl hnil, fun _ => rfl⟩
  · rename_i hne
    split
    · rename_i hlong
      constructor
      · intro h
        cases h
      · rintro (hnil | ⟨-, hlen⟩)
        · exact absurd hnil hne
        · exact absurd hlong (Nat.not_lt.mpr hlen)
    · rename_i hlen
      rw [writeLabels_ok_iff]
      exact ⟨fun h => Or.inr ⟨h, Nat.not_lt.mp hlen⟩, fun h => (h.resolve_left hne).1⟩

/-! ## Names that were read -/

/-- What is known of the labels a name was read from. -/
structure Cursor.Counted (c : Cursor) : Prop where
  labels : ∀ label ∈ c.labels, byteLen label ≤ maxLabel
  total : wireLen c.labels = c.total
  bound : c.total ≤ maxName

theorem wireLen_append (labels others : List Str) : wireLen (labels ++ others) = wireLen labels + wireLen others := by
  simp [wireLen]

/-- A name that was read is made of labels of at most 63 bytes, and of at most 255 with their lengths. -/
theorem Cursor.Counted.run {buffer : Bytes} {c : Cursor} {fuel stop : Nat} {name : Str} (h : c.Counted)
    (hrun : c.run buffer fuel = some (.ok (name, stop))) :
    ∃ labels, name = ['.'].intercalate labels ∧ (∀ label ∈ labels, byteLen label ≤ maxLabel) ∧
      wireLen labels ≤ maxName := by
  induction fuel generalizing c with
  | zero => cases hrun
  | succ fuel ih =>
      rw [Cursor.run] at hrun
      obtain ⟨e, heq⟩ | ⟨stop', heq⟩ | ⟨target, -, heq⟩ | ⟨label, hlabel, hbound, heq⟩ := c.turn_cases buffer
      · rw [heq] at hrun
        cases hrun
      · rw [heq] at hrun
        cases hrun
        exact ⟨c.labels, rfl, h.labels, h.total ▸ h.bound⟩
      · rw [heq] at hrun
        have hcounted : Cursor.Counted { c with
            jumps := c.jumps + 1, afterPointer := some (c.afterPointer.getD (c.position + 2)), position := target } :=
          ⟨h.labels, h.total, h.bound⟩
        exact ih hcounted hrun
      · rw [heq] at hrun
        refine ih ⟨?_, ?_, hbound⟩ hrun
        · intro other hmem
          rcases List.mem_append.mp hmem with hmem | hmem
          · exact h.labels other hmem
          · rw [List.mem_singleton] at hmem
            rw [hmem]
            exact hlabel
        · dsimp only
          rw [wireLen_append, h.total, wireLen, List.map_singleton, List.sum_singleton]

/-- The pieces of joined labels are pieces of the labels. -/
theorem mem_splitOn_intercalate {labels : List Str} {piece : Str} (h : piece ∈ (['.'].intercalate labels).splitOn '.') :
    piece = [] ∨ ∃ label ∈ labels, piece ∈ label.splitOn '.' := by
  induction labels with
  | nil => exact Or.inl (by simpa using h)
  | cons label labels ih =>
      cases labels with
      | nil => exact Or.inr ⟨label, List.mem_cons_self, by simpa using h⟩
      | cons other labels =>
          rw [List.intercalate_cons_cons, List.append_assoc, List.singleton_append,
            List.splitOn_append_cons_self] at h
          rcases List.mem_append.mp h with h | h
          · exact Or.inr ⟨label, List.mem_cons_self, h⟩
          · exact (ih h).imp_right fun ⟨found, hmem, hpiece⟩ => ⟨found, List.mem_cons_of_mem _ hmem, hpiece⟩

theorem byteLen_le_of_mem_splitOn {s piece : Str} (h : piece ∈ s.splitOn '.') : byteLen piece ≤ byteLen s := by
  have hjoin := byteLen_intercalate (List.splitOn_ne_nil '.' s)
  rw [List.intercalate_splitOn] at hjoin
  obtain ⟨before, after, hsplit⟩ := List.append_of_mem h
  rw [hsplit, wireLen_append, wireLen, wireLen, List.map_cons, List.sum_cons] at hjoin
  omega

/-- What a name that was read is known to be. -/
theorem of_readName {buffer : Bytes} {i stop : Nat} {name : Str} (h : readName buffer i = .ok (name, stop)) :
    byteLen name < maxName ∧ ∀ piece ∈ name.splitOn '.', byteLen piece ≤ maxLabel := by
  have heq := readName_eq buffer i
  rw [h] at heq
  have hstart : (Cursor.start i).Counted := ⟨fun _ hmem => (nomatch hmem), rfl, Nat.zero_le _⟩
  obtain ⟨labels, rfl, hlabels, hbound⟩ := hstart.run heq
  constructor
  · by_cases hnil : labels = []
    · subst hnil
      decide
    · have := byteLen_intercalate hnil
      omega
  · intro piece hpiece
    rcases mem_splitOn_intercalate hpiece with rfl | ⟨label, hmem, hpiece⟩
    · exact Nat.zero_le _
    · exact (byteLen_le_of_mem_splitOn hpiece).trans (hlabels label hmem)

/-- A name that was read can be read again when it has no empty label. -/
theorem readable_of_readName {buffer : Bytes} {i stop : Nat} {name : Str} (h : readName buffer i = .ok (name, stop))
    (hlabels : name = [] ∨ ∀ label ∈ name.splitOn '.', label ≠ []) : Readable name := by
  obtain ⟨hlen, hpieces⟩ := of_readName h
  exact hlabels.imp_right fun hne => ⟨fun label hmem => ⟨hne label hmem, hpieces label hmem⟩, hlen⟩

/-- Labels that are written whole are written by no other labels. -/
theorem writeLabels_inj {labels others : List Str} (h : ∀ label ∈ labels, LabelOk label)
    (heq : (writeLabels others).1 = (writeLabels labels).1) : others = labels := by
  have hstart : ∀ {label : Str} {tail : Bytes}, LabelOk label → UInt8.ofNat (byteLen label) :: tail ≠ [0] := by
    intro label tail hlabel hzero
    have hn := toNat_byteLen hlabel
    have hpos := byteLen_pos hlabel.1
    rw [(List.cons.inj hzero).1] at hn
    exact absurd hn (Nat.ne_of_lt hpos)
  induction labels generalizing others with
  | nil =>
      cases others with
      | nil => rfl
      | cons other others =>
          change _ = [0] at heq
          rw [writeLabels] at heq
          split at heq
          · cases heq
          · rename_i hgood
            push Not at hgood
            exact absurd heq (hstart hgood)
  | cons label labels ih =>
      have hlabel := h label List.mem_cons_self
      have hrest : ∀ other ∈ labels, LabelOk other := fun other hmem => h other (List.mem_cons_of_mem _ hmem)
      rw [writeLabels_of_ok h, List.flatMap_cons, List.append_assoc] at heq
      cases others with
      | nil => exact absurd heq.symm (hstart hlabel)
      | cons other others =>
          rw [writeLabels] at heq
          split at heq
          · cases heq
          · rename_i hgood
            push Not at hgood
            obtain ⟨hlength, hbytes⟩ := List.cons.inj heq
            -- The first byte is the length of the label, so both labels end at the same place.
            have hsame : byteLen other = byteLen label := by
              rw [← toNat_byteLen hgood, hlength, toNat_byteLen hlabel]
            obtain ⟨htext, htail⟩ := List.append_inj hbytes hsame
            have hother : other = label :=
              Option.some.inj ((fromUtf8_utf8 other).symm.trans ((congrArg fromUtf8 htext).trans (fromUtf8_utf8 label)))
            rw [hother, ih hrest (htail.trans (by rw [writeLabels_of_ok hrest]))]

/-- A readable name is written as no other name without dots at its end. -/
theorem writeName_inj {name other : Str} (hname : Readable name) (hother : trimDots other = other)
    (heq : (writeName other).1 = (writeName name).1) : other = name := by
  obtain ⟨labels, hlabels, hbytes, hjoin⟩ : ∃ labels, (∀ label ∈ labels, LabelOk label) ∧
      (writeName name).1 = (writeLabels labels).1 ∧ ['.'].intercalate labels = name := by
    rcases hname with rfl | ⟨hlabels, hlen⟩
    · exact ⟨[], by simp, rfl, rfl⟩
    · have hne : name ≠ [] := by
        rintro rfl
        exact absurd rfl (hlabels [] (by simp)).1
      exact ⟨_, hlabels, by rw [writeName_of_labels hne hlabels (Nat.le_of_lt hlen)], List.intercalate_splitOn ..⟩
  rw [hbytes, writeName, hother] at heq
  rw [← hjoin]
  split at heq
  · rename_i hnil
    rw [hnil, ← @writeLabels_inj labels [] hlabels heq]
    rfl
  · split at heq
    · rw [writeLabels_of_ok hlabels] at heq
      exact absurd heq.symm (List.append_ne_nil_of_right_ne_nil _ (List.cons_ne_nil _ _))
    · rw [← writeLabels_inj hlabels heq, List.intercalate_splitOn]

theorem length_writeLabels_le (labels : List Str) : (writeLabels labels).1.length ≤ wireLen labels + 1 := by
  induction labels with
  | nil => exact Nat.le_refl _
  | cons label labels ih =>
      rw [writeLabels, wireLen, List.map_cons, List.sum_cons]
      split
      · exact Nat.zero_le _
      · rw [wireLen] at ih
        simp only [List.length_append, List.length_cons]
        rw [show (utf8 label).length = byteLen label from rfl]
        omega

/-- A name takes at most 257 bytes, whole or refused. -/
theorem length_writeName_le (name : Str) : (writeName name).1.length ≤ byteLen (trimDots name) + 2 := by
  rw [writeName]
  split
  · exact Nat.succ_le_succ (Nat.zero_le _)
  · split
    · exact Nat.zero_le _
    · have hjoin := byteLen_intercalate (List.splitOn_ne_nil '.' (trimDots name))
      rw [List.intercalate_splitOn] at hjoin
      have := length_writeLabels_le ((trimDots name).splitOn '.')
      omega

theorem length_writeName_le_max (name : Str) : (writeName name).1.length ≤ maxName + 2 := by
  have h := length_writeName_le name
  rw [writeName] at h ⊢
  split
  · decide
  · split
    · exact Nat.zero_le _
    · rename_i hne hlen
      rw [if_neg hne, if_neg hlen] at h
      omega

end Selfhost.Dns
