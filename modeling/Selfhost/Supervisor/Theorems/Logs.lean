import Selfhost.Supervisor.Logs

/-!
# A reader of the output

A reader that asks from where the last answer ended is given every line once and in order, or told that it has missed it,
as long as the service keeps its ring and no read has the limit zero: `reader_accounts`. A service that is replaced starts
its numbers anew, and `lines_after_install` is a line that nobody hears of.
-/

namespace Selfhost.Supervisor

open Selfhost.Lib

/-! ## Numbered lines -/

/-- The lines are numbered one by one from a number on. -/
def Numbered (first : Nat) (l : List LogLine) : Prop := ∀ i line, l[i]? = some line → line.seq = first + i

namespace Numbered

variable {first : Nat} {l : List LogLine}

theorem drop (h : Numbered first l) (k : Nat) : Numbered (first + k) (l.drop k) := by
  intro i line hline
  rw [List.getElem?_drop] at hline
  rw [h _ _ hline]
  omega

theorem take (h : Numbered first l) (n : Nat) : Numbered first (l.take n) := by
  intro i line hline
  rw [List.getElem?_take] at hline
  split at hline
  · exact h i line hline
  · cases hline

theorem concat (h : Numbered first l) {line : LogLine} (hline : line.seq = first + l.length) :
    Numbered first (l ++ [line]) := by
  intro i other hother
  rcases Nat.lt_trichotomy i l.length with hi | rfl | hi
  · rw [List.getElem?_append_left hi] at hother
    exact h i other hother
  · rw [List.getElem?_append_right (Nat.le_refl _), Nat.sub_self] at hother
    cases hother
    exact hline
  · rw [List.getElem?_eq_none (by rw [List.length_append, List.length_singleton]; omega)] at hother
    cases hother

theorem nodup (h : Numbered first l) : (l.map LogLine.seq).Nodup := by
  rw [List.Nodup, List.pairwise_map, List.pairwise_iff_getElem]
  intro i j hi hj hij
  rw [h i _ (List.getElem?_eq_getElem hi), h j _ (List.getElem?_eq_getElem hj)]
  omega

/-- The lines from a number on are the end of the list. -/
theorem filter (h : Numbered first l) (start : Nat) :
    l.filter (fun line => start ≤ line.seq) = l.drop (start - first) := by
  induction l generalizing first with
  | nil => simp
  | cons line l ih =>
      have hline : line.seq = first := h 0 line rfl
      have hrest : Numbered (first + 1) l := h.drop 1
      rw [List.filter_cons, ih hrest, hline]
      by_cases hle : start ≤ first
      · rw [if_pos (by simpa using hle), Nat.sub_eq_zero_of_le hle, Nat.sub_eq_zero_of_le (Nat.le_succ_of_le hle)]
        rfl
      · have hsub : start - first = start - (first + 1) + 1 := by omega
        rw [if_neg (by simpa using hle), hsub, List.drop_succ_cons]

theorem head (h : Numbered first l) (hne : l ≠ []) : l.head?.map LogLine.seq = some first := by
  cases l with
  | nil => exact absurd rfl hne
  | cons line l => exact congrArg some (h 0 line rfl)

theorem last (h : Numbered first l) (hne : l ≠ []) :
    ∃ line, l.getLast? = some line ∧ line.seq + 1 = first + l.length := by
  have hpos := List.length_pos_iff.mpr hne
  have hlast : l[l.length - 1]? = some (l.getLast hne) := by
    rw [← List.getLast?_eq_getElem?, List.getLast?_eq_some_getLast]
  refine ⟨_, List.getLast?_eq_some_getLast hne, ?_⟩
  rw [h _ _ hlast]
  omega

end Numbered

/-! ## What a reader knows -/

/-- What was given and what still waits are lines that were pushed, in order and each once, no two lines have one number,
and every line that was pushed was given, waits, or is counted as missed. -/
structure Output.Accounted (o : Output) : Prop where
  numbers : (o.pushed.map LogLine.seq).Nodup
  in_order : (o.delivered ++ o.waiting).Sublist o.pushed
  all : o.delivered.length + o.waiting.length + (o.missed + o.uncounted) = o.pushed.length

/-- No number is used up, the service is removed only when everything was read and installed only before the first line,
no task writes to a ring that was replaced, and a read of no lines only when there are none. -/
def Output.StepOk (o : Output) : Output.Event → Prop
  | .push _ _ => ∀ ring, o.ring = some ring → ring.nextSeq + 1 < 2 ^ 64
  | .pushPast _ _ _ => False
  | .clear => True
  | .remove => ∀ ring, o.ring = some ring → o.position = ring.nextSeq
  | .insert => o.pushed = []
  | .read limit => 0 < limit ∨ o.waiting = []

instance (o : Output) (event : Output.Event) : Decidable (o.StepOk event) :=
  match event with
  | .push _ _ => inferInstanceAs (Decidable (∀ ring ∈ o.ring, ring.nextSeq + 1 < 2 ^ 64))
  | .pushPast _ _ _ => inferInstanceAs (Decidable False)
  | .clear => inferInstanceAs (Decidable True)
  | .remove => inferInstanceAs (Decidable (∀ ring ∈ o.ring, o.position = ring.nextSeq))
  | .insert => inferInstanceAs (Decidable (o.pushed = []))
  | .read limit => inferInstanceAs (Decidable (0 < limit ∨ o.waiting = []))

/-- The ring holds the last of the lines that were pushed. -/
structure LogRing.Holds (ring : LogRing) (pushed : List LogLine) (k : Nat) : Prop where
  le : k ≤ pushed.length
  lines : ring.lines = pushed.drop k
  nextSeq : ring.nextSeq = pushed.length

/-- The ring that the reader asks, or none when the service is removed and all was read. -/
def Output.Present (o : Output) : Prop :=
  match o.ring with
  | none => o.position = o.pushed.length
  | some ring => ∃ k, ring.Holds o.pushed k

structure Output.Inv (o : Output) : Prop where
  numbered : Numbered 0 o.pushed
  few : o.pushed.length < 2 ^ 64
  position : o.position ≤ o.pushed.length
  present : o.Present
  given : o.delivered.Sublist (o.pushed.take o.position)
  counted : o.delivered.length + o.missed = o.position

section

variable {o : Output} {ring : LogRing} {k : Nat}

theorem LogRing.Holds.numbered (h : ring.Holds o.pushed k) (hnum : Numbered 0 o.pushed) : Numbered k ring.lines := by
  rw [h.lines]
  have hdrop := hnum.drop k
  rwa [Nat.zero_add] at hdrop

theorem LogRing.Holds.oldestSeq (h : ring.Holds o.pushed k) (hnum : Numbered 0 o.pushed) : ring.oldestSeq = k := by
  rw [LogRing.oldestSeq]
  by_cases hne : ring.lines = []
  · have hle := h.le
    have hlength : o.pushed.length ≤ k := by
      rw [h.lines, List.drop_eq_nil_iff] at hne
      exact hne
    rw [hne, h.nextSeq]
    exact Nat.le_antisymm hlength hle
  · rw [(h.numbered hnum).head hne]
    rfl

/-- The lines that a reader has not seen are the end of all lines. -/
theorem LogRing.Holds.filter (h : ring.Holds o.pushed k) (hnum : Numbered 0 o.pushed) (start : Nat) :
    ring.lines.filter (fun line => start ≤ line.seq) = o.pushed.drop (max start k) := by
  rw [(h.numbered hnum).filter, h.lines, List.drop_drop]
  congr 1
  omega

theorem Output.waiting_eq (hring : o.ring = some ring) (h : ring.Holds o.pushed k) (hnum : Numbered 0 o.pushed) :
    o.waiting = o.pushed.drop (max o.position k) := by
  rw [Output.waiting, hring]
  exact h.filter hnum o.position

theorem Output.uncounted_eq (hring : o.ring = some ring) (h : ring.Holds o.pushed k) (hnum : Numbered 0 o.pushed) :
    o.uncounted = k - o.position := by
  rw [Output.uncounted, hring]
  dsimp only
  rw [h.oldestSeq hnum]

theorem Output.Inv.accounted (h : o.Inv) : o.Accounted := by
  have hpresent := h.present
  unfold Output.Present at hpresent
  cases hring : o.ring with
  | none =>
      rw [hring] at hpresent
      have hwaiting : o.waiting = [] := by rw [Output.waiting, hring]
      have huncounted : o.uncounted = 0 := by rw [Output.uncounted, hring]
      refine ⟨h.numbered.nodup, ?_, ?_⟩
      · rw [hwaiting, List.append_nil]
        exact h.given.trans (List.take_sublist _ _)
      · rw [hwaiting, huncounted, List.length_nil, ← hpresent, ← h.counted]
        omega
  | some ring =>
      rw [hring] at hpresent
      obtain ⟨k, hholds⟩ := hpresent
      have hle := hholds.le
      refine ⟨h.numbered.nodup, ?_, ?_⟩
      · rw [Output.waiting_eq hring hholds h.numbered]
        have htake : (o.pushed.take o.position).Sublist (o.pushed.take (max o.position k)) :=
          (List.take_prefix_take_left (Nat.le_max_left _ _)).sublist
        have happend := (h.given.trans htake).append (List.Sublist.refl (o.pushed.drop (max o.position k)))
        rwa [List.take_append_drop] at happend
      · rw [Output.waiting_eq hring hholds h.numbered, Output.uncounted_eq hring hholds h.numbered, List.length_drop]
        have hposition := h.position
        have hcounted := h.counted
        omega

/-! ## One step -/

theorem Output.inv_new : Output.new.Inv where
  numbered := fun i line h => (nomatch h)
  few := by decide
  position := Nat.le_refl _
  present := ⟨0, Nat.le_refl _, rfl, rfl⟩
  given := List.Sublist.refl _
  counted := rfl

theorem LogRing.Holds.push (h : ring.Holds o.pushed k) (hroom : ring.nextSeq + 1 < 2 ^ 64) (stream : Stream) (text : Str) :
    ∃ k', (ring.push stream text).Holds (o.pushed ++ [ring.line stream text]) k' := by
  have hle := h.le
  have hnext : (ring.nextSeq + 1) % 2 ^ 64 = (o.pushed ++ [ring.line stream text]).length := by
    rw [Nat.mod_eq_of_lt hroom, h.nextSeq, List.length_append, List.length_singleton]
  by_cases hfull : ring.lines.length = ring.capacity ∧ k < o.pushed.length
  · refine ⟨k + 1, by rw [List.length_append]; omega, ?_, hnext⟩
    rw [LogRing.push]
    dsimp only
    rw [if_pos hfull.1, h.lines, List.drop_drop, List.drop_append_of_le_length (by omega)]
  · refine ⟨k, by rw [List.length_append]; omega, ?_, hnext⟩
    rw [LogRing.push]
    dsimp only
    rw [List.drop_append_of_le_length hle, h.lines]
    split
    · rename_i hcapacity
      -- an empty ring has nothing to drop
      have hnil : o.pushed.drop k = [] := by
        rw [List.drop_eq_nil_iff]
        by_contra hlt
        exact hfull ⟨by rw [h.lines]; exact hcapacity, by omega⟩
      rw [hnil]
      rfl
    · rfl

theorem Output.Inv.push (h : o.Inv) (hring : o.ring = some ring) (hroom : ring.nextSeq + 1 < 2 ^ 64) (stream : Stream)
    (text : Str) :
    ({ o with ring := some (ring.push stream text), pushed := o.pushed ++ [ring.line stream text] } : Output).Inv := by
  have hpresent := h.present
  rw [Output.Present, hring] at hpresent
  obtain ⟨k, hholds⟩ := hpresent
  refine ⟨h.numbered.concat ?_, ?_, ?_, hholds.push hroom stream text, ?_, h.counted⟩
  · rw [Nat.zero_add]
    exact hholds.nextSeq
  · rw [List.length_append, List.length_singleton, ← hholds.nextSeq]
    exact hroom
  · rw [List.length_append]
    exact Nat.le_add_right_of_le h.position
  · dsimp only
    rw [List.take_append_of_le_length h.position]
    exact h.given

/-- What a read gives. -/
theorem LogRing.Holds.since (h : ring.Holds o.pushed k) (hnum : Numbered 0 o.pushed) (hfew : o.pushed.length < 2 ^ 64)
    {start limit : Nat} (hstart : start ≤ o.pushed.length) (hlimit : 0 < limit ∨ o.pushed.length ≤ max start k) :
    ring.since start limit = ⟨(o.pushed.drop (max start k)).take limit,
      max start k + ((o.pushed.drop (max start k)).take limit).length, k - start⟩ := by
  have hle := h.le
  rw [LogRing.since, h.filter hnum, h.oldestSeq hnum]
  congr 1
  generalize hlines : (o.pushed.drop (max start k)).take limit = lines
  by_cases hne : lines = []
  · rw [hne, List.getLast?_nil, Option.map_none, Option.getD_none, h.nextSeq, List.length_nil, Nat.add_zero]
    rw [hne, List.take_eq_nil_iff, List.drop_eq_nil_iff] at hlines
    omega
  · have hnumbered : Numbered (max start k) lines := by
      rw [← hlines]
      have hdrop := hnum.drop (max start k)
      rw [Nat.zero_add] at hdrop
      exact hdrop.take limit
    obtain ⟨line, hlast, hseq⟩ := hnumbered.last hne
    have hlength : max start k + lines.length ≤ o.pushed.length := by
      have htake : lines.length ≤ o.pushed.length - max start k := by
        rw [← hlines, List.length_take, List.length_drop]
        exact Nat.min_le_right _ _
      omega
    rw [hlast, Option.map_some, Option.getD_some, hseq, Nat.mod_eq_of_lt (by omega)]

theorem Output.Inv.read (h : o.Inv) {limit : Nat} (hok : 0 < limit ∨ o.waiting = []) : (o.read limit).Inv := by
  cases hring : o.ring with
  | none =>
      rw [Output.read, hring]
      exact h
  | some ring =>
      have hpresent := h.present
      rw [Output.Present, hring] at hpresent
      obtain ⟨k, hholds⟩ := hpresent
      have hlimit : 0 < limit ∨ o.pushed.length ≤ max o.position k := by
        refine hok.imp_right fun hnil => ?_
        rwa [Output.waiting_eq hring hholds h.numbered, List.drop_eq_nil_iff] at hnil
      have hposition := h.position
      have hle := hholds.le
      have hcounted := h.counted
      rw [Output.read, hring]
      dsimp only
      rw [hholds.since h.numbered h.few h.position hlimit]
      generalize hlines : (o.pushed.drop (max o.position k)).take limit = lines
      have hlength : lines.length ≤ o.pushed.length - max o.position k := by
        rw [← hlines, List.length_take, List.length_drop]
        exact Nat.min_le_right _ _
      refine ⟨h.numbered, h.few, ?_, ?_, ?_, ?_⟩
      · dsimp only
        omega
      · exact ⟨k, hholds⟩
      · dsimp only
        have htake : (o.pushed.take o.position).Sublist (o.pushed.take (max o.position k)) :=
          (List.take_prefix_take_left (Nat.le_max_left _ _)).sublist
        have hall : o.pushed.take (max o.position k + lines.length) = o.pushed.take (max o.position k) ++ lines := by
          rw [List.take_add]
          congr 1
          rw [← hlines, List.length_take, ← List.take_eq_take_min]
        rw [hall]
        exact (h.given.trans htake).append (List.Sublist.refl lines)
      · dsimp only
        rw [List.length_append]
        omega

theorem Output.Inv.step (h : o.Inv) {event : Output.Event} {o' : Output} (hok : o.StepOk event)
    (hstep : o.step event = some o') : o'.Inv := by
  cases event with
  | push stream text =>
      obtain ⟨ring, hring, rfl⟩ := Option.map_eq_some_iff.mp hstep
      exact h.push hring (hok ring hring) stream text
  | pushPast index stream text => exact absurd hok id
  | clear =>
      obtain ⟨ring, hring, rfl⟩ := Option.map_eq_some_iff.mp hstep
      have hpresent := h.present
      rw [Output.Present, hring] at hpresent
      obtain ⟨k, hholds⟩ := hpresent
      refine ⟨h.numbered, h.few, h.position, ⟨o.pushed.length, Nat.le_refl _, ?_, hholds.nextSeq⟩, h.given, h.counted⟩
      rw [List.drop_length]
      rfl
  | remove =>
      cases hstep
      refine ⟨h.numbered, h.few, h.position, ?_, h.given, h.counted⟩
      have hpresent := h.present
      rw [Output.Present] at hpresent ⊢
      dsimp only
      cases hring : o.ring with
      | none =>
          rw [hring] at hpresent
          exact hpresent
      | some ring =>
          rw [hring] at hpresent
          obtain ⟨k, hholds⟩ := hpresent
          rw [hok ring hring, hholds.nextSeq]
  | insert =>
      cases hstep
      have hnone : o.pushed = [] := hok
      refine ⟨h.numbered, h.few, h.position, ⟨0, Nat.zero_le _, ?_, ?_⟩, h.given, h.counted⟩
      · dsimp only
        rw [hnone]
        rfl
      · dsimp only
        rw [hnone]
        rfl
  | read limit =>
      cases hstep
      exact h.read hok

end

/-! ## Whole histories -/

/-- **A reader of the output**: in every history of lines, clears, replacements and reads in which no number is used up,
the service is installed only before its first line and removed only when all was read, no task writes to a ring that was
replaced, and no read has the limit zero while lines wait, every line that was pushed was given once and in order, waits
for the next read, or is counted as missed, and no two lines have one number. -/
theorem reader_accounts {events : List Output.Event} {o : Output}
    (hrun : Run Output.step Output.StepOk Output.new events o) : o.Accounted := by
  have hinv : o.Inv := hrun.invariant (fun o event o' ho hok hstep => ho.step hok hstep) Output.inv_new
  exact hinv.accounted

/-- Three lines, of which two are read before the ring is cleared. -/
theorem reader_accounts_cleared :
    ∃ o : Output, o.delivered.length = 2 ∧ o.missed = 1 ∧ o.pushed.length = 3 ∧ o.Accounted := by
  have hmap : (exec Output.step Output.StepOk Output.new [.push .stdout "a".toList, .push .stderr "b".toList,
      .push .stdout "c".toList, .read 2, .clear, .read 9]).map
      (fun o => (o.delivered.length, o.missed, o.pushed.length)) = some (2, 1, 3) := by decide +kernel
  obtain ⟨o, hexec, ho⟩ := Option.map_eq_some_iff.mp hmap
  rw [Prod.mk.injEq, Prod.mk.injEq] at ho
  exact ⟨o, ho.1, ho.2.1, ho.2.2, reader_accounts (Run.of_exec hexec)⟩

/-- A service that is replaced numbers its lines from zero again: the reader, who is at one, is not given the line and not
told that it has missed it. -/
theorem lines_after_install :
    ∃ o, Run Output.step (fun _ _ => True) Output.new
      [.push .stdout "old".toList, .read 100, .remove, .insert, .push .stdout "new".toList, .read 100] o ∧
      o.pushed.map LogLine.seq = [0, 0] ∧ o.delivered.map LogLine.text = ["old".toList] ∧ o.waiting = [] ∧ o.missed = 0 ∧
      o.uncounted = 0 ∧ ¬o.Accounted := by
  refine ⟨_, Run.of_exec rfl, by decide +kernel, by decide +kernel, by decide +kernel, by decide +kernel,
    by decide +kernel, fun h => ?_⟩
  have hnodup := h.numbers
  revert hnodup
  decide +kernel

end Selfhost.Supervisor
