import Selfhost.Lib.Utf8

/-!
# Buffers read at offsets

A decoder that walks a buffer by offsets, and what it finds where an encoder has put its bytes. Numbers are
big-endian.
-/

namespace Selfhost.Lib

/-- `get(start..stop)`: `none` when the range is not inside the buffer. -/
def slice? {α : Type} (buffer : List α) (start stop : Nat) : Option (List α) :=
  if start ≤ stop ∧ stop ≤ buffer.length then some ((buffer.drop start).take (stop - start)) else none

def be16 (n : UInt16) : Bytes := [UInt8.ofNat (n.toNat / 256), UInt8.ofNat n.toNat]

def ofBe16 (high low : UInt8) : UInt16 := UInt16.ofNat (high.toNat * 256 + low.toNat)

def be32 (n : UInt32) : Bytes :=
  [UInt8.ofNat (n.toNat / 0x1000000), UInt8.ofNat (n.toNat / 0x10000), UInt8.ofNat (n.toNat / 0x100),
    UInt8.ofNat n.toNat]

def ofBe32 (a b c d : UInt8) : UInt32 :=
  UInt32.ofNat (a.toNat * 0x1000000 + b.toNat * 0x10000 + c.toNat * 0x100 + d.toNat)

def be64 (n : UInt64) : Bytes :=
  be32 (UInt32.ofNat (n.toNat / 0x100000000)) ++ be32 (UInt32.ofNat n.toNat)

def ofBe64 (high low : UInt32) : UInt64 := UInt64.ofNat (high.toNat * 0x100000000 + low.toNat)

/-- The number in the two bytes at `i`, in a buffer that has them. -/
def u16At (buffer : Bytes) (i : Nat) : UInt16 := ofBe16 (buffer.getD i 0) (buffer.getD (i + 1) 0)

def u32At (buffer : Bytes) (i : Nat) : UInt32 :=
  ofBe32 (buffer.getD i 0) (buffer.getD (i + 1) 0) (buffer.getD (i + 2) 0) (buffer.getD (i + 3) 0)

/-- The buffer with `bytes` in the place of what stands from offset `i` on. -/
def overwrite {α : Type} (buffer : List α) (i : Nat) (bytes : List α) : List α :=
  buffer.take i ++ bytes ++ buffer.drop (i + bytes.length)

/-- The buffer holds `bytes` from offset `i` on. -/
def At {α : Type} (buffer : List α) (i : Nat) (bytes : List α) : Prop :=
  ∃ front back, buffer = front ++ bytes ++ back ∧ front.length = i

/-- Reads `count` items one after another and gives the offset behind the last. -/
def readMany {ε α : Type} (read : Nat → Except ε (α × Nat)) : Nat → Nat → Except ε (List α × Nat)
  | 0, i => .ok ([], i)
  | count + 1, i =>
      match read i with
      | .error e => .error e
      | .ok (a, j) => (readMany read count j).map fun (l, k) => (a :: l, k)

theorem length_of_slice? {α : Type} {buffer l : List α} {start stop : Nat} (h : slice? buffer start stop = some l) :
    l.length = stop - start := by
  unfold slice? at h
  split at h
  · cases h
    rw [List.length_take, List.length_drop]
    omega
  · cases h

theorem le_of_slice? {α : Type} {buffer l : List α} {start stop : Nat} (h : slice? buffer start stop = some l) :
    stop ≤ buffer.length := by
  unfold slice? at h
  split at h
  · rename_i hin
    exact hin.2
  · cases h

/-! ## Numbers -/

@[simp] theorem length_be16 (n : UInt16) : (be16 n).length = 2 := rfl

@[simp] theorem length_be32 (n : UInt32) : (be32 n).length = 4 := rfl

@[simp] theorem ofBe16_be16 (n : UInt16) : ofBe16 (UInt8.ofNat (n.toNat / 256)) (UInt8.ofNat n.toNat) = n := by
  have := n.toNat_lt
  rw [ofBe16, ← UInt16.toNat_inj]
  simp only [UInt8.toNat_ofNat', UInt16.toNat_ofNat']
  omega

@[simp] theorem ofBe32_be32 (n : UInt32) :
    ofBe32 (UInt8.ofNat (n.toNat / 0x1000000)) (UInt8.ofNat (n.toNat / 0x10000)) (UInt8.ofNat (n.toNat / 0x100))
      (UInt8.ofNat n.toNat) = n := by
  have := n.toNat_lt
  rw [ofBe32, ← UInt32.toNat_inj]
  simp only [UInt8.toNat_ofNat', UInt32.toNat_ofNat']
  omega

@[simp] theorem ofBe64_split (n : UInt64) :
    ofBe64 (UInt32.ofNat (n.toNat / 0x100000000)) (UInt32.ofNat n.toNat) = n := by
  have := n.toNat_lt
  rw [ofBe64, ← UInt64.toNat_inj]
  simp only [UInt32.toNat_ofNat', UInt64.toNat_ofNat']
  omega

/-! ## Places -/

section

variable {α : Type} {buffer l l' : List α} {i : Nat}

theorem At.intro (front l back : List α) : At (front ++ l ++ back) front.length l := ⟨front, back, rfl, rfl⟩

theorem At.self (l : List α) : At l 0 l := ⟨[], [], (List.append_nil l).symm, rfl⟩

theorem At.left (h : At buffer i (l ++ l')) : At buffer i l := by
  obtain ⟨front, back, rfl, rfl⟩ := h
  exact ⟨front, l' ++ back, by simp, rfl⟩

theorem At.right (h : At buffer i (l ++ l')) : At buffer (i + l.length) l' := by
  obtain ⟨front, back, rfl, rfl⟩ := h
  exact ⟨front ++ l, back, by simp, by simp⟩

theorem At.tail {a : α} (h : At buffer i (a :: l)) : At buffer (i + 1) l := @At.right α buffer [a] l i h

theorem At.get {a : α} (h : At buffer i (a :: l)) : buffer[i]? = some a := by
  obtain ⟨front, back, rfl, rfl⟩ := h
  simp

theorem At.slice (h : At buffer i l) : slice? buffer i (i + l.length) = some l := by
  obtain ⟨front, back, rfl, rfl⟩ := h
  rw [slice?, if_pos ⟨Nat.le_add_right _ _, by simp⟩, Nat.add_sub_cancel_left, List.append_assoc, List.drop_left,
    List.take_left]

theorem At.getD {a : α} (h : At buffer i (a :: l)) (d : α) : buffer.getD i d = a := by
  rw [List.getD_eq_getElem?_getD, h.get]
  rfl

theorem At.u16 {buffer : Bytes} {n : UInt16} (h : At buffer i (be16 n)) : u16At buffer i = n := by
  rw [u16At, h.getD, h.tail.getD, ofBe16_be16]

theorem At.u32 {buffer : Bytes} {n : UInt32} (h : At buffer i (be32 n)) : u32At buffer i = n := by
  rw [u32At, h.getD, h.tail.getD, h.tail.tail.getD, h.tail.tail.tail.getD, ofBe32_be32]

theorem slice?_eq_some {α : Type} {buffer l : List α} {start stop : Nat} (h : slice? buffer start stop = some l) :
    l = (buffer.drop start).take (stop - start) := by
  unfold slice? at h
  split at h
  · exact (Option.some.inj h).symm
  · cases h

theorem getD_slice {buffer l : Bytes} {start stop i : Nat} (h : slice? buffer start stop = some l) (hi : start + i < stop) :
    l.getD i 0 = buffer.getD (start + i) 0 := by
  rw [slice?_eq_some h, List.getD_eq_getElem?_getD, List.getD_eq_getElem?_getD, List.getElem?_take_of_lt (by omega),
    List.getElem?_drop]

theorem u16At_slice {buffer l : Bytes} {start stop i : Nat} (h : slice? buffer start stop = some l)
    (hi : start + i + 1 < stop) : u16At l i = u16At buffer (start + i) := by
  rw [u16At, u16At, getD_slice h (by omega), getD_slice h (by omega), Nat.add_assoc]

theorem u32At_slice {buffer l : Bytes} {start stop i : Nat} (h : slice? buffer start stop = some l)
    (hi : start + i + 3 < stop) : u32At l i = u32At buffer (start + i) := by
  rw [u32At, u32At, getD_slice h (by omega), getD_slice h (by omega), getD_slice h (by omega), getD_slice h (by omega)]
  simp only [Nat.add_assoc]

@[simp] theorem length_overwrite (h : i + l.length ≤ buffer.length) : (overwrite buffer i l).length = buffer.length := by
  simp only [overwrite, List.length_append, List.length_take, List.length_drop]
  omega

theorem at_overwrite (h : i ≤ buffer.length) : At (overwrite buffer i l) i l :=
  ⟨buffer.take i, buffer.drop (i + l.length), rfl, by rw [List.length_take, Nat.min_eq_left h]⟩

/-- Elsewhere the buffer is as it was. -/
theorem getElem?_overwrite (h : i + l.length ≤ buffer.length) {j : Nat} (hj : j < i ∨ i + l.length ≤ j) :
    (overwrite buffer i l)[j]? = buffer[j]? := by
  have htake : (buffer.take i).length = i := by rw [List.length_take, Nat.min_eq_left (by omega)]
  rw [overwrite, List.append_assoc]
  rcases hj with hj | hj
  · rw [List.getElem?_append_left (by omega), List.getElem?_take_of_lt hj]
  · rw [List.getElem?_append_right (by omega), List.getElem?_append_right (by omega), List.getElem?_drop, htake]
    congr 1
    omega

theorem u16At_congr {buffer buffer' : Bytes} (h : ∀ j, i ≤ j → j < i + 2 → buffer'[j]? = buffer[j]?) :
    u16At buffer' i = u16At buffer i := by
  simp only [u16At, List.getD_eq_getElem?_getD]
  rw [h i (by omega) (by omega), h (i + 1) (by omega) (by omega)]

theorem u32At_congr {buffer buffer' : Bytes} (h : ∀ j, i ≤ j → j < i + 4 → buffer'[j]? = buffer[j]?) :
    u32At buffer' i = u32At buffer i := by
  simp only [u32At, List.getD_eq_getElem?_getD]
  rw [h i (by omega) (by omega), h (i + 1) (by omega) (by omega), h (i + 2) (by omega) (by omega),
    h (i + 3) (by omega) (by omega)]

/-- Items that are encoded one after another are read one after another. -/
theorem readMany_at {ε β γ : Type} {read : Nat → Except ε (β × Nat)} {encode : γ → List α} {R : γ → β → Prop}
    {items : List γ} (h : At buffer i (items.flatMap encode))
    (hread : ∀ item ∈ items, ∀ j, At buffer j (encode item) → ∃ b, read j = .ok (b, j + (encode item).length) ∧ R item b) :
    ∃ bs, readMany read items.length i = .ok (bs, i + (items.flatMap encode).length) ∧ List.Forall₂ R items bs := by
  induction items generalizing i with
  | nil => exact ⟨[], rfl, .nil⟩
  | cons item items ih =>
      rw [List.flatMap_cons] at h
      obtain ⟨b, hb, hR⟩ := hread item List.mem_cons_self i h.left
      obtain ⟨bs, hbs, hRs⟩ := ih h.right fun other hmem => hread other (List.mem_cons_of_mem _ hmem)
      refine ⟨b :: bs, ?_, .cons hR hRs⟩
      rw [List.length_cons, readMany, hb]
      dsimp only
      rw [hbs, List.flatMap_cons, List.length_append, ← Nat.add_assoc]
      rfl

end

end Selfhost.Lib
