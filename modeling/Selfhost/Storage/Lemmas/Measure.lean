import Selfhost.Storage.Fs

/-!
# What a measurement counts

`counted` is the sum `measureWithin` computes, without the bound of 64 bits, and `hidden` is the rest of what
a directory holds: files too deep for the walk, or under names it does not open.
-/

namespace Selfhost.Storage

open Selfhost.Lib

def FileData.size (data : FileData) : Nat := data.bytes.length

theorem FileData.toNat_len (data : FileData) : data.len.toNat = data.size :=
  UInt64.toNat_ofNat_of_lt' data.small

/-- All the bytes below a directory. -/
abbrev heldBytes (f : Disk) : Nat := f.total FileData.size

/-- Whether a share opens a name. -/
abbrev isPlain (name : Str) : Prop := validateSegment name = .ok ()

/-- The bytes that a walk of some levels counts. -/
@[simp] def counted : Nat → Disk → Nat
  | _, .nil => 0
  | levels, .file name data rest => (if isPlain name then data.size else 0) + counted levels rest
  | levels, .dir name inside rest =>
      (if isPlain name ∧ 1 < levels then counted (levels - 1) inside else 0) + counted levels rest

/-- The bytes that it does not. -/
@[simp] def hidden : Nat → Disk → Nat
  | _, .nil => 0
  | levels, .file name data rest => (if isPlain name then 0 else data.size) + hidden levels rest
  | levels, .dir name inside rest =>
      (if isPlain name ∧ 1 < levels then hidden (levels - 1) inside else heldBytes inside) +
        hidden levels rest

theorem counted_add_hidden (levels : Nat) (f : Disk) : counted levels f + hidden levels f = heldBytes f := by
  induction f generalizing levels with
  | nil => rfl
  | file name data rest ih =>
      have := ih levels
      simp only [counted, hidden, heldBytes, Forest.total] at this ⊢
      split <;> omega
  | dir name inside rest ihi ihr =>
      have hi := ihi (levels - 1)
      have hr := ihr levels
      simp only [counted, hidden, heldBytes, Forest.total] at hi hr ⊢
      split <;> omega

/-- A measurement is the count, up to the bound of 64 bits. -/
theorem toNat_measureWithin (levels : Nat) (total : UInt64) (f : Disk) :
    (measureWithin levels total f).toNat = min (total.toNat + counted levels f) u64Max := by
  induction f generalizing levels total with
  | nil =>
      have := toNat_le_u64Max total
      simp only [measureWithin, counted]
      omega
  | file name data rest ih =>
      cases hv : validateSegment name with
      | error refusal =>
          have hn : ¬ isPlain name := by simp [isPlain, hv]
          simp only [measureWithin, counted, hv, ih]
          rw [if_neg hn, Nat.zero_add]
      | ok u =>
          have hn : isPlain name := hv
          simp only [measureWithin, counted, hv, ih]
          rw [if_pos hn, toNat_saturatingAdd, FileData.toNat_len]
          omega
  | dir name inside rest ihi ihr =>
      cases hv : validateSegment name with
      | error refusal =>
          have hn : ¬ isPlain name := by simp [isPlain, hv]
          simp only [measureWithin, counted, hv, ihr]
          rw [if_neg (fun h => hn h.1), Nat.zero_add]
      | ok u =>
          have hn : isPlain name := hv
          simp only [measureWithin, counted, hv, ihr]
          rw [toNat_saturatingAdd]
          by_cases hl : levels ≤ 1
          · rw [if_pos hl, if_neg (by omega), UInt64.toNat_zero]
            omega
          · rw [if_neg hl, if_pos ⟨hn, by omega⟩, ihi, UInt64.toNat_zero]
            omega

/-! ## Removing -/

/-- `f'` holds no more than `f`, at any depth. -/
def Shrinks (f f' : Disk) : Prop :=
  (∀ levels, counted levels f' ≤ counted levels f ∧ hidden levels f' ≤ hidden levels f) ∧
    heldBytes f' ≤ heldBytes f

theorem Shrinks.refl (f : Disk) : Shrinks f f :=
  ⟨fun _ => ⟨Nat.le_refl _, Nat.le_refl _⟩, Nat.le_refl _⟩

theorem Shrinks.file {rest rest' : Disk} (name : Str) (data : FileData) (h : Shrinks rest rest') :
    Shrinks (.file name data rest) (.file name data rest') := by
  refine ⟨fun levels => ?_, ?_⟩
  · have := h.1 levels
    simp only [counted, hidden]
    omega
  · have := h.2
    simp only [heldBytes, Forest.total] at this ⊢
    omega

theorem Shrinks.dir {inside inside' rest rest' : Disk} (name : Str) (hi : Shrinks inside inside')
    (h : Shrinks rest rest') : Shrinks (.dir name inside rest) (.dir name inside' rest') := by
  have h₁ := hi.2
  have h₂ := h.2
  refine ⟨fun levels => ?_, ?_⟩
  · have h₃ := hi.1 (levels - 1)
    have h₄ := h.1 levels
    simp only [counted, hidden]
    split <;> omega
  · simp only [heldBytes, Forest.total] at h₁ h₂ ⊢
    omega

theorem Shrinks.skipFile (name : Str) (data : FileData) {rest rest' : Disk} (h : Shrinks rest rest') :
    Shrinks (.file name data rest) rest' := by
  refine ⟨fun levels => ?_, ?_⟩
  · have := h.1 levels
    simp only [counted, hidden]
    omega
  · have := h.2
    simp only [heldBytes, Forest.total] at this ⊢
    omega

theorem Shrinks.skipDir (name : Str) (inside : Disk) {rest rest' : Disk} (h : Shrinks rest rest') :
    Shrinks (.dir name inside rest) rest' := by
  refine ⟨fun levels => ?_, ?_⟩
  · have := h.1 levels
    simp only [counted, hidden]
    omega
  · have := h.2
    simp only [heldBytes, Forest.total] at this ⊢
    omega

theorem shrinks_erase (k : Str) (f : Disk) : Shrinks f (f.erase k) := by
  induction f with
  | nil => exact Shrinks.refl _
  | file name data rest ih =>
      simp only [Forest.erase]
      split
      · exact ih.skipFile name data
      · exact ih.file name data
  | dir name inside rest _ ih =>
      simp only [Forest.erase]
      split
      · exact ih.skipDir name inside
      · exact (Shrinks.refl inside).dir name ih

theorem shrinks_mapDir {k : Str} {g : Disk → Disk} (hg : ∀ c, Shrinks c (g c)) (f : Disk) :
    Shrinks f (f.mapDir k g) := by
  induction f with
  | nil => exact Shrinks.refl _
  | file name data rest ih =>
      simp only [Forest.mapDir]
      split
      · exact Shrinks.refl _
      · exact ih.file name data
  | dir name inside rest _ ih =>
      simp only [Forest.mapDir]
      split
      · exact (hg inside).dir name (Shrinks.refl rest)
      · exact (Shrinks.refl inside).dir name ih

theorem shrinks_alter {g : Disk → Disk} (hg : ∀ c, Shrinks c (g c)) (d : List Str) (f : Disk) :
    Shrinks f (f.alter g d) := by
  induction d generalizing f with
  | nil => exact hg f
  | cons k d ih => exact shrinks_mapDir ih f

theorem shrinks_removeEntries (f : Disk) : Shrinks f (removeEntries f).1 := by
  induction f with
  | nil => exact Shrinks.refl _
  | file name data rest ih =>
      simp only [removeEntries]
      split
      · exact Shrinks.refl _
      · exact ih.skipFile name data
  | dir name inside rest ihi ihr =>
      simp only [removeEntries]
      split
      · exact Shrinks.refl _
      · split
        · exact ihr.skipDir name inside
        · rename_i left refusal hl
          rw [hl] at ihi
          exact ihi.dir name (Shrinks.refl rest)

/-! ## Changing a directory within reach -/

theorem counted_mapDir {k : Str} {g : Disk → Disk} {f inside : Disk} {levels : Nat}
    (h : f.find k = some (.dir inside)) (hk : isPlain k) (hl : 1 < levels) :
    counted levels (f.mapDir k g) + counted (levels - 1) inside =
        counted levels f + counted (levels - 1) (g inside) ∧
      hidden levels (f.mapDir k g) + hidden (levels - 1) inside =
        hidden levels f + hidden (levels - 1) (g inside) := by
  induction f with
  | nil => cases h
  | file name data rest ih =>
      simp only [Forest.find] at h
      split at h
      · cases h
      · rename_i hn
        have := ih h
        simp only [Forest.mapDir, if_neg hn, counted, hidden]
        omega
  | dir name c rest _ ih =>
      simp only [Forest.find] at h
      split at h
      · rename_i hn
        cases h
        subst hn
        simp only [Forest.mapDir, if_true, counted, hidden, if_pos (And.intro hk hl)]
        omega
      · rename_i hn
        have := ih h
        simp only [Forest.mapDir, if_neg hn, counted, hidden]
        omega

/-- A change of a directory that a walk reaches changes the count by as much. -/
theorem counted_alter {d : List Str} {g : Disk → Disk} {f inside : Disk} {levels : Nat}
    (h : f.get d = some (.dir inside)) (hd : ∀ k ∈ d, isPlain k) (hl : d.length < levels) :
    counted levels (f.alter g d) + counted (levels - d.length) inside =
        counted levels f + counted (levels - d.length) (g inside) ∧
      hidden levels (f.alter g d) + hidden (levels - d.length) inside =
        hidden levels f + hidden (levels - d.length) (g inside) := by
  induction d generalizing f levels with
  | nil =>
      cases h
      simp only [Forest.alter, List.length_nil, Nat.sub_zero]
      omega
  | cons k d ih =>
      simp only [Forest.get] at h
      split at h
      · cases h
      · split at h <;> cases h
      · rename_i c hc
        rw [List.forall_mem_cons] at hd
        rw [List.length_cons] at hl
        have hi := ih h hd.2 (show d.length < levels - 1 by omega)
        have hm := counted_mapDir (g := Forest.alter g d) hc hd.1 (show 1 < levels by omega)
        have he : levels - (k :: d).length = levels - 1 - d.length := by
          rw [List.length_cons]
          omega
        rw [he]
        simp only [Forest.alter]
        omega

theorem counted_insert_file (levels : Nat) {name : Str} (data : FileData) (f : Disk) (h : isPlain name) :
    counted levels (f.insert name (.file data)) = data.size + counted levels f ∧
      hidden levels (f.insert name (.file data)) = hidden levels f := by
  constructor
  · rw [Forest.insert, counted, if_pos h]
  · rw [Forest.insert, hidden, if_pos h, Nat.zero_add]

/-- A file put where a walk reaches it is counted, and nothing else changes. -/
theorem counted_put_file {d : List Str} {name : Str} (data : FileData) {f inside : Disk} {levels : Nat}
    (h : f.get d = some (.dir inside)) (hd : ∀ k ∈ d, isPlain k) (hn : isPlain name)
    (hl : d.length < levels) :
    counted levels (f.alter (Forest.insert name (.file data)) d) = counted levels f + data.size ∧
      hidden levels (f.alter (Forest.insert name (.file data)) d) = hidden levels f := by
  have ha := counted_alter (g := Forest.insert name (.file data)) h hd hl
  have hi := counted_insert_file (levels - d.length) data inside hn
  omega

theorem counted_mapDir_le {k : Str} {g : Disk → Disk} {c : Nat}
    (hg : ∀ levels f, counted levels (g f) ≤ counted levels f + c) (levels : Nat) (f : Disk) :
    counted levels (f.mapDir k g) ≤ counted levels f + c := by
  induction f with
  | nil => exact Nat.zero_le _
  | file name data rest ih =>
      simp only [Forest.mapDir]
      split <;> simp only [counted] <;> omega
  | dir name inside rest _ ih =>
      have := hg (levels - 1) inside
      simp only [Forest.mapDir]
      split
      · simp only [counted]
        split <;> omega
      · simp only [counted]
        omega

/-- A change that adds at most `c` to the count of a directory adds at most `c` to the whole count. -/
theorem counted_alter_le {g : Disk → Disk} {c : Nat}
    (hg : ∀ levels f, counted levels (g f) ≤ counted levels f + c) (d : List Str) (levels : Nat) (f : Disk) :
    counted levels (f.alter g d) ≤ counted levels f + c := by
  induction d generalizing levels f with
  | nil => exact hg levels f
  | cons k d ih => exact counted_mapDir_le (fun levels f => ih levels f) levels f

/-! ## Empty directories -/

/-- An empty directory weighs nothing, wherever it is put. -/
theorem counted_put_dir (k : Str) (d : List Str) (levels : Nat) (f : Disk) :
    counted levels (f.alter (Forest.insert k (.dir .nil)) d) = counted levels f ∧
      hidden levels (f.alter (Forest.insert k (.dir .nil)) d) = hidden levels f := by
  induction d generalizing levels f with
  | nil =>
      simp only [Forest.alter, Forest.insert, counted, hidden, heldBytes, Forest.total]
      split <;> exact ⟨Nat.zero_add _, Nat.zero_add _⟩
  | cons k' d ih =>
      induction f with
      | nil => exact ⟨rfl, rfl⟩
      | file n data rest ihr =>
          simp only [Forest.alter] at ihr ⊢
          simp only [Forest.mapDir]
          split
          · exact ⟨rfl, rfl⟩
          · simp only [counted, hidden]
            omega
      | dir n inside rest _ ihr =>
          simp only [Forest.alter] at ihr ⊢
          simp only [Forest.mapDir]
          split
          · have hi := ih (levels - 1) inside
            have hheld : heldBytes (inside.alter (Forest.insert k (.dir .nil)) d) = heldBytes inside := by
              rw [← counted_add_hidden (levels - 1), ← counted_add_hidden (levels - 1) inside, hi.1, hi.2]
            simp only [counted, hidden]
            split
            · exact ⟨by rw [hi.1], by rw [hi.2]⟩
            · exact ⟨rfl, by rw [hheld]⟩
          · simp only [counted, hidden]
            omega

/-- The top of a share as it is found on the disk. -/
theorem find_alter_cons {disk : Disk} {g : Disk → Disk} {id : Str} {d : List Str} {share : Str} :
    (disk.alter g (id :: d)).find share =
      if share = id then (disk.find share).map fun e =>
        match e with
        | .dir inside => .dir (inside.alter g d)
        | .file data => .file data
      else disk.find share := by
  rw [Forest.alter]
  split
  · rename_i h
    subst h
    by_cases hdir : ∃ inside, disk.find share = some (.dir inside)
    · obtain ⟨inside, hi⟩ := hdir
      rw [Forest.find_mapDir_self hi, hi]
      rfl
    · rw [Forest.find_mapDir_of_not_dir fun inside hi => hdir ⟨inside, hi⟩]
      cases hf : disk.find share with
      | none => rfl
      | some e =>
          cases e with
          | file data => rfl
          | dir inside => exact absurd ⟨inside, hf⟩ hdir
  · rename_i h
    exact Forest.find_mapDir_ne h _ _

theorem measure_put_dir (disk : Disk) (id : Str) (d : List Str) (k : Str) (share : Str) :
    measure (disk.alter (Forest.insert k (.dir .nil)) (id :: d)) [share] = measure disk [share] := by
  unfold measure
  rw [Forest.get_singleton, Forest.get_singleton, find_alter_cons]
  by_cases h : share = id
  · rw [if_pos h]
    cases disk.find share with
    | none => rfl
    | some e =>
        cases e with
        | file data => rfl
        | dir inside =>
            simp only [Option.map_some]
            congr 1
            apply UInt64.toNat.inj
            rw [toNat_measureWithin, toNat_measureWithin, (counted_put_dir k d maxTreeDepth inside).1]
  · rw [if_neg h]

end Selfhost.Storage
