import Selfhost.Lib.Buffer
import Selfhost.Lib.Fallible

/-!
# Scans

A scan takes its value from the front of the bytes and leaves the rest, or fails. It inverts a writer on the legal
values when it accepts exactly what the writer makes of these. What reads one field after another inverts what writes
them in that order.
-/

namespace Selfhost.Lib

abbrev Scan (ε : Type) := StateT Bytes (Except ε)

namespace Scan

variable {ε α β : Type}

/-! ## Scans of numbers -/

/-- The next `count` bytes. `short` is the error for what was needed and what was left. -/
def take (short : Nat → Nat → ε) (count : Nat) : Scan ε Bytes := fun input =>
  if input.length < count then .error (short count input.length) else .ok (input.take count, input.drop count)

def u8 (short : Nat → Nat → ε) : Scan ε UInt8 := do
  let bytes ← take short 1
  return bytes.getD 0 0

def u16 (short : Nat → Nat → ε) : Scan ε UInt16 := do
  let bytes ← take short 2
  return ofBe16 (bytes.getD 0 0) (bytes.getD 1 0)

def u32 (short : Nat → Nat → ε) : Scan ε UInt32 := do
  let bytes ← take short 4
  return ofBe32 (bytes.getD 0 0) (bytes.getD 1 0) (bytes.getD 2 0) (bytes.getD 3 0)

def u64 (short : Nat → Nat → ε) : Scan ε UInt64 := do
  let bytes ← take short 8
  return ofBe64 (ofBe32 (bytes.getD 0 0) (bytes.getD 1 0) (bytes.getD 2 0) (bytes.getD 3 0))
    (ofBe32 (bytes.getD 4 0) (bytes.getD 5 0) (bytes.getD 6 0) (bytes.getD 7 0))

/-- Reads `count` items one after another. -/
def times : Nat → Scan ε α → Scan ε (List α)
  | 0, _ => return []
  | count + 1, read => do
      let a ← read
      let rest ← times count read
      return a :: rest

/-! ## Steps -/

variable {read : Scan ε α} {next : α → Scan ε β} {input rest : Bytes} {value : β}

theorem bind_ok_iff : (read >>= next).run input = .ok (value, rest) ↔
    ∃ a middle, read.run input = .ok (a, middle) ∧ (next a).run middle = .ok (value, rest) := by
  rw [StateT.run_bind]
  constructor
  · intro h
    obtain ⟨⟨a, middle⟩, hread, hnext⟩ := bind_ok h
    exact ⟨a, middle, hread, hnext⟩
  · rintro ⟨a, middle, hread, hnext⟩
    rw [hread]
    exact hnext

theorem pure_ok_iff {a : α} {value : α} :
    (pure a : Scan ε α).run input = .ok (value, rest) ↔ value = a ∧ rest = input := by
  rw [StateT.run_pure]
  constructor
  · intro h
    cases h
    exact ⟨rfl, rfl⟩
  · rintro ⟨rfl, rfl⟩
    rfl

theorem lift_ok_iff {x : Except ε β} :
    (liftM x : Scan ε β).run input = .ok (value, rest) ↔ x = .ok value ∧ rest = input := by
  cases x with
  | error e =>
      refine iff_of_false (fun h => ?_) fun h => nomatch h.1
      exact nomatch show Except.error e = Except.ok (value, rest) from h
  | ok b =>
      constructor
      · intro h
        cases h
        exact ⟨rfl, rfl⟩
      · rintro ⟨hb, rfl⟩
        cases hb
        rfl

theorem take_ok_iff {short : Nat → Nat → ε} {count : Nat} {bytes : Bytes} :
    (take short count).run input = .ok (bytes, rest) ↔ input = bytes ++ rest ∧ bytes.length = count := by
  change (if input.length < count then _ else _) = _ ↔ _
  constructor
  · intro h
    split at h
    · cases h
    · rename_i hlen
      cases h
      rw [List.take_append_drop, List.length_take]
      exact ⟨rfl, Nat.min_eq_left (Nat.le_of_not_lt hlen)⟩
  · rintro ⟨rfl, rfl⟩
    rw [if_neg (by simp), List.take_left, List.drop_left]

/-! ## Scans that invert a writer -/

/-- The scan accepts what is written of a legal value, whatever stands behind it, and nothing else. -/
def Inverts (read : Scan ε α) (write : α → Bytes) (Legal : α → Prop) : Prop :=
  ∀ input value rest, read.run input = .ok (value, rest) ↔ input = write value ++ rest ∧ Legal value

section

variable {write : α → Bytes} {Legal : α → Prop}

theorem Inverts.congr {Legal' : α → Prop} (h : Inverts read write Legal) (hlegal : ∀ a, Legal a ↔ Legal' a) :
    Inverts read write Legal' := fun input value rest => (h input value rest).trans (and_congr_right' (hlegal value))

/-- One more field behind those that are read. -/
theorem Inverts.bind_ok_iff (h : Inverts read write Legal) : (read >>= next).run input = .ok (value, rest) ↔
    ∃ a middle, (input = write a ++ middle ∧ Legal a) ∧ (next a).run middle = .ok (value, rest) := by
  rw [Scan.bind_ok_iff]
  simp only [h _ _ _]

/-- A field that stands in front is read. -/
theorem Inverts.run_bind (h : Inverts read write Legal) {a : α} (ha : Legal a) :
    (read >>= next).run (write a ++ input) = (next a).run input := by
  rw [StateT.run_bind, (h _ a input).mpr ⟨rfl, ha⟩]
  rfl

/-- A value is refused when a test fails. -/
theorem Inverts.guard (h : Inverts read write Legal) (Bad : α → Prop) [DecidablePred Bad] (error : α → ε) :
    Inverts (do let a ← read; if Bad a then throw (error a) else return a) write fun a => Legal a ∧ ¬ Bad a := by
  intro input value rest
  rw [h.bind_ok_iff]
  constructor
  · rintro ⟨a, middle, ⟨hinput, hlegal⟩, hok⟩
    by_cases hbad : Bad a
    · rw [if_pos hbad] at hok
      cases hok
    · rw [if_neg hbad, pure_ok_iff] at hok
      obtain ⟨rfl, rfl⟩ := hok
      exact ⟨hinput, hlegal, hbad⟩
  · rintro ⟨hinput, hlegal, hbad⟩
    refine ⟨value, rest, ⟨hinput, hlegal⟩, ?_⟩
    rw [if_neg hbad, pure_ok_iff]
    exact ⟨rfl, rfl⟩

/-- A code is replaced by what it stands for. -/
theorem Inverts.decode (h : Inverts read write Legal) {decode : α → Except ε β} {code : β → α} {Known : β → Prop}
    (hcode : ∀ a b, decode a = .ok b ↔ a = code b ∧ Known b) :
    Inverts (do let a ← read; decode a) (fun b => write (code b)) fun b => Legal (code b) ∧ Known b := by
  intro input value rest
  rw [h.bind_ok_iff]
  constructor
  · rintro ⟨a, middle, ⟨hinput, hlegal⟩, hok⟩
    rw [lift_ok_iff, hcode] at hok
    obtain ⟨⟨rfl, hknown⟩, rfl⟩ := hok
    exact ⟨hinput, hlegal, hknown⟩
  · rintro ⟨hinput, hlegal, hknown⟩
    refine ⟨code value, rest, ⟨hinput, hlegal⟩, ?_⟩
    rw [lift_ok_iff, hcode]
    exact ⟨⟨rfl, hknown⟩, rfl⟩

/-- A list of a known length is read item by item. -/
theorem Inverts.times (h : Inverts read write Legal) (count : Nat) :
    Inverts (times count read) (fun items => items.flatMap write)
      fun items => items.length = count ∧ ∀ item ∈ items, Legal item := by
  induction count with
  | zero =>
      intro input items rest
      rw [Scan.times, pure_ok_iff]
      constructor
      · rintro ⟨rfl, rfl⟩
        exact ⟨rfl, rfl, by simp⟩
      · rintro ⟨rfl, hlen, -⟩
        rw [List.length_eq_zero_iff] at hlen
        subst hlen
        exact ⟨rfl, rfl⟩
  | succ count ih =>
      intro input items rest
      rw [Scan.times, h.bind_ok_iff]
      constructor
      · rintro ⟨a, middle, ⟨rfl, ha⟩, hok⟩
        obtain ⟨l, middle, ⟨rfl, hlen, hl⟩, hpure⟩ := ih.bind_ok_iff.mp hok
        obtain ⟨rfl, rfl⟩ := pure_ok_iff.mp hpure
        exact ⟨by simp, by rw [List.length_cons, hlen], List.forall_mem_cons.mpr ⟨ha, hl⟩⟩
      · rintro ⟨rfl, hlen, hitems⟩
        cases items with
        | nil => cases hlen
        | cons a l =>
            rw [List.forall_mem_cons] at hitems
            refine ⟨a, l.flatMap write ++ rest, ⟨by simp, hitems.1⟩, ih.bind_ok_iff.mpr ?_⟩
            exact ⟨l, rest, ⟨rfl, Nat.succ_inj.mp hlen, hitems.2⟩, pure_ok_iff.mpr ⟨rfl, rfl⟩⟩

end

/-! ## Numbers -/

theorem be16_ofBe16 (a b : UInt8) : be16 (ofBe16 a b) = [a, b] := by
  have ha := a.toNat_lt
  have hb := b.toNat_lt
  simp only [be16, ofBe16, UInt16.toNat_ofNat', List.cons.injEq, and_true]
  constructor <;> rw [← UInt8.toNat_inj, UInt8.toNat_ofNat'] <;> omega

theorem be32_ofBe32 (a b c d : UInt8) : be32 (ofBe32 a b c d) = [a, b, c, d] := by
  have ha := a.toNat_lt
  have hb := b.toNat_lt
  have hc := c.toNat_lt
  have hd := d.toNat_lt
  simp only [be32, ofBe32, UInt32.toNat_ofNat', List.cons.injEq, and_true]
  refine ⟨?_, ?_, ?_, ?_⟩ <;> rw [← UInt8.toNat_inj, UInt8.toNat_ofNat'] <;> omega

theorem be64_ofBe64 (high low : UInt32) : be64 (ofBe64 high low) = be32 high ++ be32 low := by
  have hh := high.toNat_lt
  have hl := low.toNat_lt
  rw [be64, ofBe64, UInt64.toNat_ofNat']
  congr 2 <;> rw [← UInt32.toNat_inj, UInt32.toNat_ofNat'] <;> omega

variable {short : Nat → Nat → ε}

theorem inverts_u8 : Inverts (u8 short) (fun n => [n]) fun _ => True := by
  intro input value rest
  rw [u8, Scan.bind_ok_iff]
  simp only [take_ok_iff, pure_ok_iff]
  constructor
  · rintro ⟨bytes, middle, ⟨rfl, hlen⟩, rfl, rfl⟩
    obtain ⟨a, rfl⟩ := List.length_eq_one_iff.mp hlen
    exact ⟨rfl, trivial⟩
  · rintro ⟨rfl, -⟩
    exact ⟨[value], rest, ⟨rfl, rfl⟩, rfl, rfl⟩

theorem inverts_u16 : Inverts (u16 short) be16 fun _ => True := by
  intro input value rest
  rw [u16, Scan.bind_ok_iff]
  simp only [take_ok_iff, pure_ok_iff]
  constructor
  · rintro ⟨bytes, middle, ⟨rfl, hlen⟩, rfl, rfl⟩
    obtain ⟨a, b, rfl⟩ := List.length_eq_two.mp hlen
    exact ⟨by rw [List.getD_cons_zero, List.getD_cons_succ, List.getD_cons_zero, be16_ofBe16], trivial⟩
  · rintro ⟨rfl, -⟩
    exact ⟨be16 value, rest, ⟨rfl, rfl⟩, (ofBe16_be16 value).symm, rfl⟩

theorem inverts_u32 : Inverts (u32 short) be32 fun _ => True := by
  intro input value rest
  rw [u32, Scan.bind_ok_iff]
  simp only [take_ok_iff, pure_ok_iff]
  constructor
  · rintro ⟨bytes, middle, ⟨rfl, hlen⟩, rfl, rfl⟩
    match bytes, hlen with
    | [a, b, c, d], _ => exact ⟨congrArg (· ++ _) (be32_ofBe32 a b c d).symm, trivial⟩
  · rintro ⟨rfl, -⟩
    exact ⟨be32 value, rest, ⟨rfl, rfl⟩, (ofBe32_be32 value).symm, rfl⟩

theorem inverts_u64 : Inverts (u64 short) be64 fun _ => True := by
  intro input value rest
  rw [u64, Scan.bind_ok_iff]
  simp only [take_ok_iff, pure_ok_iff]
  constructor
  · rintro ⟨bytes, middle, ⟨rfl, hlen⟩, rfl, rfl⟩
    match bytes, hlen with
    | [a, b, c, d, e, f, g, h], _ =>
        refine ⟨congrArg (· ++ _) ?_, trivial⟩
        exact ((be64_ofBe64 _ _).trans (by rw [be32_ofBe32, be32_ofBe32]; rfl)).symm
  · rintro ⟨rfl, -⟩
    refine ⟨be64 value, rest, ⟨rfl, rfl⟩, ?_, rfl⟩
    have hsplit := ofBe64_split value
    rw [← ofBe32_be32 (UInt32.ofNat (value.toNat / 0x100000000)), ← ofBe32_be32 (UInt32.ofNat value.toNat)] at hsplit
    exact hsplit.symm

end Scan

end Selfhost.Lib
