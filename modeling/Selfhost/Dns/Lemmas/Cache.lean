import Mathlib.Data.List.Pairwise
import Selfhost.Dns.Cache
import Selfhost.Dns.Lemmas.Name
import Selfhost.Lib.Fallible

/-!
# The walk over a cached message

The walk finds every record that the decoder reads, and it does not look at what is rewritten.
-/

namespace Selfhost.Dns

open Selfhost.Lib

/-! ## The walk and the decoder -/

/-- What the byte under the decoder decides. -/
theorem Cursor.turn_read (buffer : Bytes) (c : Cursor) :
    (∃ e, c.turn buffer = .finished (.error e)) ∨
      (buffer[c.position]? = some 0 ∧ c.turn buffer = .finished (.ok (c.name, c.afterPointer.getD (c.position + 1)))) ∨
      (∃ length target, buffer[c.position]? = some length ∧ length &&& 0xC0 = 0xC0 ∧ c.position + 1 < buffer.length ∧
        c.turn buffer = .next { c with
          jumps := c.jumps + 1, afterPointer := some (c.afterPointer.getD (c.position + 2)), position := target }) ∨
      ∃ length labels, buffer[c.position]? = some length ∧ ¬length &&& 0xC0 = 0xC0 ∧ length ≠ 0 ∧
        c.position + 1 + length.toNat ≤ buffer.length ∧ c.total + (length.toNat + 1) ≤ maxName ∧
        c.turn buffer = .next { c with
          labels, position := c.position + 1 + length.toNat, total := c.total + (length.toNat + 1) } := by
  unfold Cursor.turn
  split
  · exact Or.inl ⟨_, rfl⟩
  · rename_i length hlength
    split
    · rename_i hpointer
      split
      · exact Or.inl ⟨_, rfl⟩
      · rename_i second hsecond
        dsimp only
        split
        · exact Or.inl ⟨_, rfl⟩
        · split
          · exact Or.inl ⟨_, rfl⟩
          · exact Or.inr (Or.inr (Or.inl
              ⟨length, _, hlength, hpointer, (List.getElem?_eq_some_iff.mp hsecond).1, rfl⟩))
    · rename_i hpointer
      split
      · rename_i hzero
        rw [hzero] at hlength
        exact Or.inr (Or.inl ⟨hlength, rfl⟩)
      · rename_i hzero
        split
        · exact Or.inl ⟨_, rfl⟩
        · split
          · exact Or.inl ⟨_, rfl⟩
          · rename_i htotal
            dsimp only
            split
            · exact Or.inl ⟨_, rfl⟩
            · rename_i bytes hslice
              split
              · exact Or.inl ⟨_, rfl⟩
              · exact Or.inr (Or.inr (Or.inr ⟨length, _, hlength, hpointer, hzero, le_of_slice? hslice,
                  Nat.not_lt.mp htotal, rfl⟩))

/-- Behind its first pointer a name ends in the stream where the pointer ends. -/
theorem Cursor.stop_of_afterPointer {buffer : Bytes} {c : Cursor} {fuel p stop : Nat} {name : Str}
    (hafter : c.afterPointer = some p) (hrun : c.run buffer fuel = some (.ok (name, stop))) : stop = p := by
  induction fuel generalizing c with
  | zero => cases hrun
  | succ fuel ih =>
      rw [Cursor.run] at hrun
      obtain ⟨e, heq⟩ | ⟨-, heq⟩ | ⟨_, _, -, -, -, heq⟩ | ⟨_, _, -, -, -, -, -, heq⟩ := c.turn_read buffer
      · rw [heq] at hrun
        cases hrun
      · rw [heq, hafter] at hrun
        cases hrun
        rfl
      · rw [heq, hafter] at hrun
        exact ih rfl hrun
      · rw [heq] at hrun
        dsimp only at hrun
        exact ih (by exact hafter) hrun

/-- A name that the decoder reads is skipped to the same offset: its labels are no more than the walk takes. -/
theorem skipLabels_of_run {buffer : Bytes} {c : Cursor} {fuel left stop : Nat} {name : Str}
    (hafter : c.afterPointer = none) (hleft : maxName ≤ c.total + (2 * left + 1))
    (hrun : c.run buffer fuel = some (.ok (name, stop))) : skipLabels buffer left c.position = some stop := by
  induction fuel generalizing c left with
  | zero => cases hrun
  | succ fuel ih =>
      rw [Cursor.run] at hrun
      rw [skipLabels.eq_def]
      obtain ⟨e, heq⟩ | ⟨hbyte, heq⟩ | ⟨length, target, hbyte, hpointer, hin, heq⟩ |
        ⟨length, labels, hbyte, hpointer, hzero, hin, htotal, heq⟩ := c.turn_read buffer
      · rw [heq] at hrun
        cases hrun
      · rw [heq, hafter] at hrun
        cases hrun
        simp [hbyte]
      · rw [heq, hafter] at hrun
        have hstop := Cursor.stop_of_afterPointer rfl hrun
        simp [hbyte, hpointer, Nat.not_le.mpr hin, hstop]
      · rw [heq] at hrun
        have hpos : 0 < length.toNat := Nat.pos_of_ne_zero fun h => hzero (UInt8.toNat_inj.mp h)
        obtain ⟨left, rfl⟩ : ∃ k, left = k + 1 := ⟨left - 1, by unfold maxName at *; omega⟩
        simp only [hbyte, hpointer, hzero, if_false, if_neg (Nat.not_lt.mpr hin)]
        dsimp only at hrun
        refine ih ?_ ?_ hrun
        · exact hafter
        · dsimp only
          omega

theorem skipName_of_readName {buffer : Bytes} {pos stop : Nat} {name : Str}
    (h : readName buffer pos = .ok (name, stop)) : skipName buffer pos = some stop := by
  have hrun : (Cursor.start pos).run buffer nameTurns = some (.ok (name, stop)) :=
    (readName_eq buffer pos).trans (congrArg some h)
  exact skipLabels_of_run rfl (by unfold Cursor.start maxName maxLabels; omega) hrun

/-- Where the fixed fields of a record that the decoder reads are. -/
theorem walk_of_readRecord {buffer : Bytes} {pos stop : Nat} {record : Record}
    (h : readRecord buffer pos = .ok (record, stop)) :
    ∃ next, skipName buffer pos = some next ∧ next + 10 ≤ buffer.length ∧
      stop = next + 10 + (u16At buffer (next + 8)).toNat ∧ u32At buffer (next + 4) = record.ttl := by
  obtain ⟨⟨frame, start, stop'⟩, hframe, hdata⟩ := bind_ok h
  obtain ⟨data, -, heq⟩ := bind_ok hdata
  cases heq
  obtain ⟨⟨name, next⟩, hname, hbody⟩ := bind_ok hframe
  dsimp only at hbody
  split at hbody
  · cases hbody
  · rename_i header hheader
    split at hbody
    · cases hbody
    · cases hbody
      refine ⟨next, skipName_of_readName hname, le_of_slice? hheader, ?_, ?_⟩
      · rw [u16At_slice hheader (by omega)]
      · exact (u32At_slice hheader (by omega)).symm

theorem skipQuestions_of_readMany {buffer : Bytes} {count pos stop : Nat} {names : List Str}
    (h : readMany (readQuestion buffer) count pos = .ok (names, stop)) :
    skipQuestions buffer count pos = some stop := by
  induction count generalizing pos names with
  | zero =>
      cases h
      rfl
  | succ count ih =>
      rw [readMany] at h
      split at h
      · cases h
      · rename_i name next hread
        obtain ⟨⟨names', stop'⟩, hmany, heq⟩ := map_ok h
        cases heq
        obtain ⟨⟨label, behind⟩, hname, heq⟩ := map_ok hread
        cases heq
        rw [skipQuestions, skipName_of_readName hname]
        exact ih hmany

/-- The time to live that the walk sees at an offset is the one that the decoder has read. -/
def SameTtl (buffer : Bytes) (offset : Nat) (record : Record) : Prop := u32At buffer (offset + 4) = record.ttl

theorem walkRecords_of_readRecord {buffer : Bytes} {pos stop : Nat} {record : Record}
    (h : readRecord buffer pos = .ok (record, stop)) (more : Nat) :
    ∃ next, walkRecords buffer (more + 1) pos = next :: walkRecords buffer more stop ∧ SameTtl buffer next record := by
  obtain ⟨next, hskip, hin, rfl, httl⟩ := walk_of_readRecord h
  exact ⟨next, by simp [walkRecords, hskip, Nat.not_lt.mpr hin], httl⟩

/-- The walk starts with the records that the decoder reads one after another. -/
theorem walkRecords_of_readMany {buffer : Bytes} {count pos stop : Nat} {records : List Record}
    (h : readMany (readRecord buffer) count pos = .ok (records, stop)) (more : Nat) :
    ∃ offsets, walkRecords buffer (count + more) pos = offsets ++ walkRecords buffer more stop ∧
      List.Forall₂ (SameTtl buffer) offsets records := by
  induction count generalizing pos records with
  | zero =>
      cases h
      exact ⟨[], by rw [Nat.zero_add, List.nil_append], .nil⟩
  | succ count ih =>
      rw [readMany] at h
      split at h
      · cases h
      · rename_i record next hread
        obtain ⟨⟨records', stop'⟩, hmany, heq⟩ := map_ok h
        cases heq
        obtain ⟨offset, hwalk, hsame⟩ := walkRecords_of_readRecord hread (count + more)
        obtain ⟨offsets, hrest, hall⟩ := ih hmany
        refine ⟨offset :: offsets, ?_, .cons hsame hall⟩
        rw [Nat.add_right_comm, hwalk, hrest, List.cons_append]

theorem walkRecords_of_readTolerant (buffer : Bytes) (count pos more : Nat) :
    ∃ offsets rest, walkRecords buffer (count + more) pos = offsets ++ rest ∧
      List.Forall₂ (SameTtl buffer) offsets (readTolerant buffer count pos).1 ∧
      ∀ stop, (readTolerant buffer count pos).2 = some stop → rest = walkRecords buffer more stop := by
  induction count generalizing pos with
  | zero => exact ⟨[], _, by rw [Nat.zero_add, List.nil_append], .nil, fun stop h => by cases h; rfl⟩
  | succ count ih =>
      rw [readTolerant]
      cases hread : readRecord buffer pos with
      | error e => exact ⟨[], _, rfl, .nil, fun stop h => (nomatch h)⟩
      | ok pair =>
          obtain ⟨record, next⟩ := pair
          obtain ⟨offset, hwalk, hsame⟩ := walkRecords_of_readRecord hread (count + more)
          obtain ⟨offsets, rest, hrest, hall, hstop⟩ := ih next
          refine ⟨offset :: offsets, rest, ?_, .cons hsame hall, hstop⟩
          rw [Nat.add_right_comm, hwalk, hrest, List.cons_append]

/-- The walk finds every record of a message that the decoder accepts, first and in the same order. -/
theorem recordOffsets_of_decodeResponse {message : Bytes} {response : Response}
    (h : decodeResponse message = .ok response) :
    ∃ offsets rest, recordOffsets message = offsets ++ rest ∧
      List.Forall₂ (SameTtl message) offsets (response.answers ++ response.authority ++ response.additional) := by
  unfold decodeResponse at h
  split at h
  · cases h
  · rename_i hlength
    obtain ⟨⟨names, first⟩, hquestions, h⟩ := bind_ok h
    obtain ⟨⟨answers, second⟩, hanswers, h⟩ := bind_ok h
    rw [recordOffsets, if_neg hlength, skipQuestions_of_readMany hquestions]
    obtain ⟨offsets, hwalk, hall⟩ := walkRecords_of_readMany hanswers
      ((u16At message 8).toNat + (u16At message 10).toNat)
    obtain ⟨offsets', rest', hwalk', hall', hstop⟩ :=
      walkRecords_of_readTolerant message (u16At message 8).toNat second (u16At message 10).toNat
    dsimp only at h ⊢
    rw [Nat.add_assoc, hwalk, hwalk']
    split at h
    · rename_i authority hauthority
      cases h
      rw [hauthority] at hall'
      exact ⟨offsets ++ offsets', rest', by simp, by simpa using List.rel_append hall hall'⟩
    · rename_i authority third hauthority
      cases h
      rw [hauthority] at hall' hstop
      obtain ⟨offsets'', rest'', hwalk'', hall'', -⟩ :=
        walkRecords_of_readTolerant message (u16At message 10).toNat third 0
      rw [Nat.add_zero] at hwalk''
      rw [hstop third rfl, hwalk'']
      exact ⟨offsets ++ offsets' ++ offsets'', rest'', by simp, List.rel_append (List.rel_append hall hall') hall''⟩

/-! ## Rewriting -/

theorem skipLabels_gt {message : Bytes} {left pos next : Nat} (h : skipLabels message left pos = some next) :
    pos < next := by
  induction left generalizing pos with
  | zero =>
      rw [skipLabels.eq_def] at h
      dsimp only at h
      repeat' split at h
      all_goals cases h
      all_goals omega
  | succ left ih =>
      rw [skipLabels.eq_def] at h
      dsimp only at h
      repeat' split at h
      · cases h
      · cases h
      · cases h
        omega
      · cases h
        omega
      · cases h
      · have := ih h
        omega

/-- The walk does not look behind a name to find its end. -/
theorem skipLabels_congr {message message' : Bytes} {left pos : Nat} (hlength : message'.length = message.length)
    (h : ∀ i, pos ≤ i → (∀ next, skipLabels message left pos = some next → i < next) → message'[i]? = message[i]?) :
    skipLabels message' left pos = skipLabels message left pos := by
  have hbyte : message'[pos]? = message[pos]? := h pos (Nat.le_refl _) fun next hnext => skipLabels_gt hnext
  induction left generalizing pos with
  | zero => rw [skipLabels.eq_def, skipLabels.eq_def message, hbyte, hlength]
  | succ left ih =>
      rw [skipLabels.eq_def, skipLabels.eq_def message, hbyte, hlength]
      split
      · rfl
      · rename_i len hlen
        split
        · rfl
        · rename_i hpointer
          split
          · rfl
          · rename_i hzero
            dsimp only
            split
            · rfl
            · rename_i hin
              have hstep : skipLabels message (left + 1) pos = skipLabels message left (pos + 1 + len.toNat) := by
                rw [skipLabels.eq_def]
                simp [hlen, hpointer, hzero, hin]
              refine ih ?_ (h _ (by omega) fun next hnext => ?_)
              · intro i hi hnext
                exact h i (by omega) fun next heq => hnext next (hstep ▸ heq)
              · rw [hstep] at hnext
                exact skipLabels_gt hnext

theorem walkRecords_bounds {message : Bytes} {count pos : Nat} :
    (walkRecords message count pos).Pairwise (fun a b => a + 10 ≤ b) ∧
      ∀ offset ∈ walkRecords message count pos, pos < offset ∧ offset + 10 ≤ message.length := by
  induction count generalizing pos with
  | zero => exact ⟨.nil, fun offset h => (nomatch h)⟩
  | succ count ih =>
      rw [walkRecords]
      split
      · exact ⟨.nil, fun offset h => (nomatch h)⟩
      · rename_i next hnext
        have hgt := skipLabels_gt hnext
        split
        · exact ⟨.nil, fun offset h => (nomatch h)⟩
        · rename_i hin
          obtain ⟨hpair, hall⟩ := @ih (next + 10 + (u16At message (next + 8)).toNat)
          refine ⟨.cons ?_ hpair, ?_⟩
          · intro offset hoffset
            have := (hall offset hoffset).1
            omega
          · intro offset hoffset
            rcases List.mem_cons.mp hoffset with rfl | hoffset
            · exact ⟨hgt, Nat.not_lt.mp hin⟩
            · have := hall offset hoffset
              exact ⟨by omega, this.2⟩

/-- The walk does not look at times to live. -/
theorem walkRecords_congr {message message' : Bytes} {count pos : Nat} (hlength : message'.length = message.length)
    (h : ∀ i, pos ≤ i → (∀ offset ∈ walkRecords message count pos, ¬(offset + 4 ≤ i ∧ i < offset + 8)) →
      message'[i]? = message[i]?) : walkRecords message' count pos = walkRecords message count pos := by
  induction count generalizing pos with
  | zero => rfl
  | succ count ih =>
      have hname : skipName message' pos = skipName message pos := by
        refine skipLabels_congr hlength fun i hi hnext => h i hi ?_
        intro offset hoffset
        rw [walkRecords] at hoffset
        split at hoffset
        · cases hoffset
        · rename_i next hskip
          have hlt := hnext next hskip
          split at hoffset
          · cases hoffset
          · rcases List.mem_cons.mp hoffset with rfl | hoffset
            · omega
            · have := (walkRecords_bounds.2 offset hoffset).1
              omega
      rw [walkRecords] at h
      rw [walkRecords, walkRecords, hname]
      split
      · rfl
      · rename_i next hskip
        have hgt := skipLabels_gt hskip
        rw [hskip] at h
        dsimp only at h
        rw [hlength]
        split
        · rfl
        · rename_i hin
          rw [if_neg hin] at h
          have hfield : u16At message' (next + 8) = u16At message (next + 8) := by
            refine u16At_congr fun j hj hj' => h j (by omega) fun offset hoffset => ?_
            rcases List.mem_cons.mp hoffset with rfl | hoffset
            · omega
            · have := (walkRecords_bounds.2 offset hoffset).1
              omega
          rw [hfield]
          congr 1
          refine ih fun i hi hout => h i (by omega) fun offset hoffset => ?_
          rcases List.mem_cons.mp hoffset with rfl | hoffset
          · omega
          · exact hout offset hoffset

/-- `message'` is `message` with the times to live at some offsets changed, those of EDNS records apart. -/
structure Rewritten (change : UInt32 → UInt32) (offsets : List Nat) (message message' : Bytes) : Prop where
  length_eq : message'.length = message.length
  frame : ∀ i, (∀ offset ∈ offsets, u16At message offset ≠ optType → ¬(offset + 4 ≤ i ∧ i < offset + 8)) →
    message'[i]? = message[i]?
  ttl_eq : ∀ offset ∈ offsets, u16At message offset ≠ optType →
    u32At message' (offset + 4) = change (u32At message (offset + 4))

/-- How a record's time to live changes. -/
def ttlChange (elapsed : UInt32) (pinned : Option UInt32) (old : UInt32) : UInt32 :=
  pinned.getD (saturatingSub32 old elapsed)

theorem length_rewriteTtl (elapsed : UInt32) (pinned : Option UInt32) {answer : Bytes} {offset : Nat}
    (h : offset + 10 ≤ answer.length) : (rewriteTtl elapsed pinned answer offset).length = answer.length := by
  unfold rewriteTtl
  split
  · rfl
  · exact length_overwrite (by rw [length_be32]; omega)

/-- One record is rewritten. -/
theorem getElem?_rewriteTtl {elapsed : UInt32} {pinned : Option UInt32} {answer : Bytes} {offset i : Nat}
    (h : offset + 10 ≤ answer.length) (hi : u16At answer offset ≠ optType → ¬(offset + 4 ≤ i ∧ i < offset + 8)) :
    (rewriteTtl elapsed pinned answer offset)[i]? = answer[i]? := by
  unfold rewriteTtl
  split
  · rfl
  · rename_i htype
    have := hi htype
    exact getElem?_overwrite (by rw [length_be32]; omega) (by rw [length_be32]; omega)

theorem u32At_rewriteTtl {elapsed : UInt32} {pinned : Option UInt32} {answer : Bytes} {offset : Nat}
    (h : offset + 10 ≤ answer.length) (htype : u16At answer offset ≠ optType) :
    u32At (rewriteTtl elapsed pinned answer offset) (offset + 4) =
      ttlChange elapsed pinned (u32At answer (offset + 4)) := by
  rw [rewriteTtl, if_neg htype]
  exact (at_overwrite (by omega)).u32

/-- Rewriting goes from one record to the next without touching what the others are. -/
theorem rewritten_foldl {elapsed : UInt32} {pinned : Option UInt32} {offsets : List Nat} {message : Bytes}
    (hpair : offsets.Pairwise fun a b => a + 10 ≤ b) (hin : ∀ offset ∈ offsets, offset + 10 ≤ message.length) :
    Rewritten (ttlChange elapsed pinned) offsets message (offsets.foldl (rewriteTtl elapsed pinned) message) := by
  induction offsets generalizing message with
  | nil => exact ⟨rfl, fun i _ => rfl, fun offset h => (nomatch h)⟩
  | cons offset offsets ih =>
      obtain ⟨hfirst, hpair⟩ := List.pairwise_cons.mp hpair
      have hoffset := hin offset List.mem_cons_self
      have hlength := length_rewriteTtl elapsed pinned hoffset
      -- the other records are behind this one
      have hother : ∀ other ∈ offsets, ∀ j, other ≤ j →
          (rewriteTtl elapsed pinned message offset)[j]? = message[j]? := by
        intro other hmem j hj
        have := hfirst other hmem
        exact getElem?_rewriteTtl hoffset fun _ => by omega
      have htype : ∀ other ∈ offsets, u16At (rewriteTtl elapsed pinned message offset) other = u16At message other :=
        fun other hmem => u16At_congr fun j hj _ => hother other hmem j hj
      obtain ⟨hlength', hframe, httl⟩ := @ih (rewriteTtl elapsed pinned message offset) hpair fun other hmem => by
        rw [hlength]
        exact hin other (List.mem_cons_of_mem _ hmem)
      rw [List.foldl_cons]
      refine ⟨hlength'.trans hlength, ?_, ?_⟩
      · intro i hi
        rw [hframe i fun other hmem hopt => hi other (List.mem_cons_of_mem _ hmem) (by rwa [← htype other hmem])]
        exact getElem?_rewriteTtl hoffset fun hopt => hi offset List.mem_cons_self hopt
      · intro other hmem hopt
        rcases List.mem_cons.mp hmem with rfl | hmem
        · rw [u32At_congr fun j hj hj' => hframe j fun later hlater _ => by
            have := hfirst later hlater
            omega]
          exact u32At_rewriteTtl hoffset hopt
        · rw [httl other hmem (by rwa [htype other hmem])]
          exact congrArg _ (u32At_congr fun j hj _ => hother other hmem j (by omega))

/-! ## The reply -/

/-- The first question as it stands in a message: a name, a type and a class. -/
def question (message : Bytes) : Option Bytes :=
  if message.length < 12 ∨ u16At message 4 = 0 then none
  else (skipName message 12).map fun next => (message.take (next + 4)).drop 12

theorem skipQuestions_gt {message : Bytes} {count pos next : Nat} (h : skipQuestions message count pos = some next) :
    pos ≤ next := by
  induction count generalizing pos with
  | zero =>
      cases h
      exact Nat.le_refl _
  | succ count ih =>
      rw [skipQuestions] at h
      split at h
      · cases h
      · rename_i stop hstop
        have := skipLabels_gt hstop
        have := ih h
        omega

theorem skipQuestions_congr {message message' : Bytes} {count pos : Nat} (hlength : message'.length = message.length)
    (h : ∀ i, pos ≤ i → (∀ next, skipQuestions message count pos = some next → i < next) →
      message'[i]? = message[i]?) : skipQuestions message' count pos = skipQuestions message count pos := by
  induction count generalizing pos with
  | zero => rfl
  | succ count ih =>
      have hname : skipName message' pos = skipName message pos := by
        refine skipLabels_congr hlength fun i hi hnext => h i hi fun next heq => ?_
        rw [skipQuestions] at heq
        split at heq
        · cases heq
        · rename_i stop hstop
          have := hnext stop hstop
          have := skipQuestions_gt heq
          omega
      rw [skipQuestions] at h
      rw [skipQuestions, skipQuestions, hname]
      split
      · rfl
      · rename_i stop hstop
        have := skipLabels_gt hstop
        rw [hstop] at h
        exact ih fun i hi hnext => h i (by omega) hnext

/-- The records stand behind the header and the first question. -/
theorem recordOffsets_bounds (message : Bytes) :
    (recordOffsets message).Pairwise (fun a b => a + 10 ≤ b) ∧
      ∀ offset ∈ recordOffsets message, offset + 10 ≤ message.length ∧ 12 < offset ∧
        (u16At message 4 ≠ 0 → ∀ next, skipName message 12 = some next → next + 4 < offset) := by
  unfold recordOffsets
  split
  · exact ⟨.nil, fun offset h => (nomatch h)⟩
  · split
    · exact ⟨.nil, fun offset h => (nomatch h)⟩
    · rename_i pos hpos
      refine ⟨walkRecords_bounds.1, fun offset hoffset => ?_⟩
      obtain ⟨hgt, hin⟩ := walkRecords_bounds.2 offset hoffset
      have hle := skipQuestions_gt hpos
      refine ⟨hin, by omega, fun hcount next hnext => ?_⟩
      obtain ⟨count, hcount⟩ : ∃ k, (u16At message 4).toNat = k + 1 :=
        Nat.exists_eq_succ_of_ne_zero fun h => hcount (UInt16.toNat_inj.mp h)
      rw [hcount, skipQuestions, hnext] at hpos
      have := skipQuestions_gt hpos
      omega

/-- What a reply from the cache has of the stored message, under the id of the asker. -/
structure Replayed (change : UInt32 → UInt32) (id : UInt16) (stored answer : Bytes) : Prop where
  length_eq : answer.length = stored.length
  id_eq : u16At answer 0 = id
  offsets_eq : recordOffsets answer = recordOffsets stored
  type_eq : ∀ offset ∈ recordOffsets stored, u16At answer offset = u16At stored offset
  ttl_eq : ∀ offset ∈ recordOffsets stored, u16At stored offset ≠ optType →
    u32At answer (offset + 4) = change (u32At stored (offset + 4))
  question_eq : question answer = question stored
  frame : ∀ i, 2 ≤ i → (∀ offset ∈ recordOffsets stored, u16At stored offset ≠ optType →
    ¬(offset + 4 ≤ i ∧ i < offset + 8)) → answer[i]? = stored[i]?

/-- Two messages that differ in their ids and times to live are walked the same way. -/
theorem recordOffsets_congr {stored answer : Bytes} (hlength : answer.length = stored.length)
    (h : ∀ i, 2 ≤ i → (∀ offset ∈ recordOffsets stored, ¬(offset + 4 ≤ i ∧ i < offset + 8)) →
      answer[i]? = stored[i]?) : recordOffsets answer = recordOffsets stored := by
  have hheader : ∀ i, 2 ≤ i → i + 2 ≤ 12 → u16At answer i = u16At stored i := by
    intro i hi hi'
    refine u16At_congr fun j hj hj' => h j (by omega) fun offset hoffset => ?_
    have := ((recordOffsets_bounds stored).2 offset hoffset).2.1
    omega
  unfold recordOffsets at h ⊢
  rw [hlength]
  split
  · rfl
  · rename_i hshort
    rw [if_neg hshort] at h
    rw [hheader 4 (by omega) (by omega), hheader 6 (by omega) (by omega), hheader 8 (by omega) (by omega),
      hheader 10 (by omega) (by omega)]
    have hquestions : skipQuestions answer (u16At stored 4).toNat 12 = skipQuestions stored (u16At stored 4).toNat 12 := by
      refine skipQuestions_congr hlength fun i hi hnext => h i (by omega) fun offset hoffset => ?_
      split at hoffset
      · cases hoffset
      · rename_i pos hpos
        have := hnext pos hpos
        have := (walkRecords_bounds.2 offset hoffset).1
        omega
    rw [hquestions]
    split
    · rfl
    · rename_i pos hpos
      have := skipQuestions_gt hpos
      rw [hpos] at h
      exact walkRecords_congr hlength fun i hi hout => h i (by omega) hout

theorem question_congr {stored answer : Bytes} (hlength : answer.length = stored.length)
    (h : ∀ i, 2 ≤ i → (∀ offset ∈ recordOffsets stored, ¬(offset + 4 ≤ i ∧ i < offset + 8)) →
      answer[i]? = stored[i]?) : question answer = question stored := by
  have hcount : u16At answer 4 = u16At stored 4 := by
    refine u16At_congr fun j hj hj' => h j (by omega) fun offset hoffset => ?_
    have := ((recordOffsets_bounds stored).2 offset hoffset).2.1
    omega
  unfold question
  rw [hlength, hcount]
  split
  · rfl
  · rename_i hasked
    rw [not_or] at hasked
    -- no record stands before the end of the question
    have hname : skipName answer 12 = skipName stored 12 := by
      refine skipLabels_congr hlength fun i hi hnext => h i (by omega) fun offset hoffset => ?_
      obtain ⟨-, hgt, hbehind⟩ := (recordOffsets_bounds stored).2 offset hoffset
      cases hskip : skipName stored 12 with
      | none =>
          unfold recordOffsets at hoffset
          obtain ⟨count, hone⟩ : ∃ k, (u16At stored 4).toNat = k + 1 :=
            Nat.exists_eq_succ_of_ne_zero fun h => hasked.2 (UInt16.toNat_inj.mp h)
          rw [if_neg hasked.1, hone, skipQuestions, hskip] at hoffset
          cases hoffset
      | some next =>
          have := hnext next hskip
          have := hbehind hasked.2 next hskip
          omega
    rw [hname]
    cases hskip : skipName stored 12 with
    | none => rfl
    | some next =>
        rw [Option.map_some, Option.map_some]
        congr 1
        refine List.ext_getElem? fun j => ?_
        rw [List.getElem?_drop, List.getElem?_drop]
        by_cases hj : 12 + j < next + 4
        · rw [List.getElem?_take_of_lt hj, List.getElem?_take_of_lt hj]
          refine h _ (by omega) fun offset hoffset => ?_
          have := ((recordOffsets_bounds stored).2 offset hoffset).2.2 hasked.2 next hskip
          omega
        · rw [List.getElem?_eq_none (by rw [List.length_take]; omega),
            List.getElem?_eq_none (by rw [List.length_take]; omega)]

/-- Any two offsets of a walk are ten bytes apart. -/
theorem apart {offsets : List Nat} (h : offsets.Pairwise fun a b => a + 10 ≤ b) {a b : Nat} (ha : a ∈ offsets)
    (hb : b ∈ offsets) (hne : a ≠ b) : a + 10 ≤ b ∨ b + 10 ≤ a := by
  have : Std.Symm (fun a b : Nat => a + 10 ≤ b ∨ b + 10 ≤ a) := ⟨fun _ _ h => h.symm⟩
  have hpair : offsets.Pairwise fun a b => a + 10 ≤ b ∨ b + 10 ≤ a := h.imp Or.inl
  exact hpair.forall ha hb hne

theorem replayed_rewriteAnswer {response : Bytes} (hlength : 12 ≤ response.length) (newId : UInt16) (elapsed : Duration)
    (pinned : Option UInt32) :
    Replayed (ttlChange (secondsOf elapsed) pinned) newId response (rewriteAnswer response newId elapsed pinned) := by
  obtain ⟨hpair, hall⟩ := recordOffsets_bounds response
  have hrewritten : Rewritten (ttlChange (secondsOf elapsed) pinned) (recordOffsets response) response
      ((recordOffsets response).foldl (rewriteTtl (secondsOf elapsed) pinned) response) :=
    rewritten_foldl hpair fun offset hoffset => (hall offset hoffset).1
  generalize hbody : (recordOffsets response).foldl (rewriteTtl (secondsOf elapsed) pinned) response = body at hrewritten
  obtain ⟨hlen, hframe, httl⟩ := hrewritten
  have hanswer : rewriteAnswer response newId elapsed pinned = overwrite body 0 (be16 newId) := by
    rw [rewriteAnswer, hbody]
    exact if_pos (by omega)
  have hroom : 0 + (be16 newId).length ≤ body.length := by
    rw [length_be16]
    omega
  rw [hanswer]
  have hbehind : ∀ i, 2 ≤ i → (overwrite body 0 (be16 newId))[i]? = body[i]? :=
    fun i hi => getElem?_overwrite hroom (Or.inr (by rw [length_be16]; omega))
  have hsame : ∀ i, 2 ≤ i → (∀ offset ∈ recordOffsets response, u16At response offset ≠ optType →
      ¬(offset + 4 ≤ i ∧ i < offset + 8)) → (overwrite body 0 (be16 newId))[i]? = response[i]? :=
    fun i hi hout => (hbehind i hi).trans (hframe i hout)
  have hsame' : ∀ i, 2 ≤ i → (∀ offset ∈ recordOffsets response, ¬(offset + 4 ≤ i ∧ i < offset + 8)) →
      (overwrite body 0 (be16 newId))[i]? = response[i]? :=
    fun i hi hout => hsame i hi fun offset hoffset _ => hout offset hoffset
  have hlen' : (overwrite body 0 (be16 newId)).length = response.length := (length_overwrite hroom).trans hlen
  refine ⟨hlen', (at_overwrite (Nat.zero_le _)).u16, recordOffsets_congr hlen' hsame', ?_, ?_,
    question_congr hlen' hsame', hsame⟩
  · intro offset hoffset
    refine u16At_congr fun j hj hj' => hsame' j (by have := hall offset hoffset; omega) fun other hother => ?_
    by_cases heq : offset = other
    · omega
    · have := apart hpair hoffset hother heq
      omega
  · intro offset hoffset hopt
    rw [u32At_congr fun j hj _ => hbehind j (by omega)]
    exact httl offset hoffset hopt

end Selfhost.Dns
