import Mathlib.Data.List.Basic
import Selfhost.Lib.Text

/-!
# Parsers of streams

A parser looks at the bytes that have arrived and takes an item from their front, asks for more, or fails for good. A
loop appends what it reads to a buffer and takes what it can. Where no verdict but the request for more is changed by
further bytes, what the loop takes does not depend on where the reads are cut.
-/

namespace Selfhost.Lib

variable {α β ε : Type}

inductive Verdict (ε α : Type) where
  | incomplete
  | fatal (error : ε)
  | item (value : α) (consumed : Nat)
  deriving DecidableEq

/-- A verdict is kept when more arrives, and an item is never empty. -/
structure Incremental (parse : List β → Verdict ε α) : Prop where
  nil : parse [] = .incomplete
  stable : ∀ x y, parse x ≠ .incomplete → parse (x ++ y) = parse x
  progress : ∀ x a n, parse x = .item a n → 0 < n ∧ n ≤ x.length

/-- Takes items from a buffer; what is left, or why no more can be taken. -/
@[simp] def drain (parse : List β → Verdict ε α) : Nat → List β → List α × Except ε (List β)
  | 0, buffer => ([], .ok buffer)
  | fuel + 1, buffer =>
      match parse buffer with
      | .incomplete => ([], .ok buffer)
      | .fatal error => ([], .error error)
      | .item a n =>
          let next := drain parse fuel (buffer.drop n)
          (a :: next.1, next.2)

/-- Takes every item a buffer holds. -/
def drainAll (parse : List β → Verdict ε α) (buffer : List β) : List α × Except ε (List β) :=
  drain parse (buffer.length + 1) buffer

/-- What comes after some items were taken. -/
def andThenDrain (parse : List β → Verdict ε α) (more : List β) (taken : List α × Except ε (List β)) :
    List α × Except ε (List β) :=
  match taken.2 with
  | .error error => (taken.1, .error error)
  | .ok rest =>
      let next := drainAll parse (rest ++ more)
      (taken.1 ++ next.1, next.2)

/-- The loop: each read is appended to what is left, and the buffer is drained. -/
def feed (parse : List β → Verdict ε α) : List β → List (List β) → List α × Except ε (List β)
  | buffer, [] => ([], .ok buffer)
  | buffer, read :: reads =>
      let taken := drainAll parse (buffer ++ read)
      match taken.2 with
      | .error error => (taken.1, .error error)
      | .ok rest =>
          let next := feed parse rest reads
          (taken.1 ++ next.1, next.2)

variable {parse : List β → Verdict ε α} {x y buffer rest : List β} {a : α} {n fuel : Nat} {e : ε}

/-! ## Fuel -/

theorem drain_fuel (h : Incremental parse) (hfuel : buffer.length < fuel) :
    drain parse fuel buffer = drainAll parse buffer := by
  have hany : ∀ fuel fuel' : Nat, ∀ buffer : List β, buffer.length < fuel → buffer.length < fuel' →
      drain parse fuel buffer = drain parse fuel' buffer := by
    intro fuel
    induction fuel with
    | zero => exact fun fuel' buffer h => absurd h (Nat.not_lt_zero _)
    | succ fuel ih =>
        intro fuel' buffer hlt hlt'
        obtain ⟨fuel', rfl⟩ := Nat.exists_eq_succ_of_ne_zero (Nat.ne_of_gt (Nat.lt_of_le_of_lt (Nat.zero_le _) hlt'))
        simp only [drain]
        cases hparse : parse buffer with
        | incomplete => rfl
        | fatal error => rfl
        | item a n =>
            obtain ⟨hpos, hle⟩ := h.progress buffer a n hparse
            have hshort : (buffer.drop n).length < buffer.length := by
              rw [List.length_drop]
              omega
            dsimp only
            rw [ih fuel' (buffer.drop n) (by omega) (by omega)]
  exact hany fuel (buffer.length + 1) buffer hfuel (Nat.lt_succ_self _)

theorem drainAll_incomplete (h : parse buffer = .incomplete) : drainAll parse buffer = ([], .ok buffer) := by
  rw [drainAll, drain, h]

theorem drainAll_fatal (h : parse buffer = .fatal e) : drainAll parse buffer = ([], .error e) := by
  rw [drainAll, drain, h]

theorem drainAll_item (h : Incremental parse) (hparse : parse buffer = .item a n) :
    drainAll parse buffer = (a :: (drainAll parse (buffer.drop n)).1, (drainAll parse (buffer.drop n)).2) := by
  obtain ⟨hpos, hle⟩ := h.progress buffer a n hparse
  rw [drainAll, drain, hparse]
  dsimp only
  rw [drain_fuel h (by rw [List.length_drop]; omega)]

/-- What is left waits for more. -/
theorem waits_of_drainAll (h : Incremental parse) (hrest : (drainAll parse buffer).2 = .ok rest) :
    parse rest = .incomplete := by
  induction hlen : buffer.length using Nat.strongRecOn generalizing buffer with
  | _ len ih =>
      cases hparse : parse buffer with
      | incomplete =>
          rw [drainAll_incomplete hparse] at hrest
          cases hrest
          exact hparse
      | fatal error =>
          rw [drainAll_fatal hparse] at hrest
          cases hrest
      | item a n =>
          rw [drainAll_item h hparse] at hrest
          obtain ⟨hpos, hle⟩ := h.progress buffer a n hparse
          exact ih (buffer.drop n).length (by rw [List.length_drop]; omega) hrest rfl

/-! ## Cuts -/

/-- What the front of a stream holds is taken first. -/
theorem drainAll_append (h : Incremental parse) (x y : List β) :
    drainAll parse (x ++ y) = andThenDrain parse y (drainAll parse x) := by
  induction hlen : x.length using Nat.strongRecOn generalizing x with
  | _ len ih =>
      cases hparse : parse x with
      | incomplete =>
          rw [drainAll_incomplete hparse]
          rfl
      | fatal error =>
          have hfatal : parse (x ++ y) = .fatal error := by
            rw [h.stable x y (by rw [hparse]; exact fun heq => (nomatch heq)), hparse]
          rw [drainAll_fatal hparse, drainAll_fatal hfatal]
          rfl
      | item a n =>
          have hitem : parse (x ++ y) = .item a n := by
            rw [h.stable x y (by rw [hparse]; exact fun heq => (nomatch heq)), hparse]
          obtain ⟨hpos, hle⟩ := h.progress x a n hparse
          rw [drainAll_item h hparse, drainAll_item h hitem, List.drop_append_of_le_length hle,
            ih (x.drop n).length (by rw [List.length_drop]; omega) (x.drop n) rfl]
          unfold andThenDrain
          cases (drainAll parse (x.drop n)).2 <;> rfl

/-- The loop takes what the whole stream holds, wherever it is cut. -/
theorem feed_eq (h : Incremental parse) (hwaits : parse buffer = .incomplete) (reads : List (List β)) :
    feed parse buffer reads = drainAll parse (buffer ++ reads.flatten) := by
  induction reads generalizing buffer with
  | nil => rw [feed, List.flatten_nil, List.append_nil, drainAll_incomplete hwaits]
  | cons read reads ih =>
      rw [feed, List.flatten_cons, ← List.append_assoc, drainAll_append h (buffer ++ read), andThenDrain]
      cases hrest : (drainAll parse (buffer ++ read)).2 with
      | error error => rfl
      | ok rest =>
          dsimp only
          rw [ih (waits_of_drainAll h hrest)]

end Selfhost.Lib

/-!
# Streams in segments

A stream arrives in segments of any size. A buffered reader takes what it needs from its buffer and reads the next
segment when the buffer is empty. What it reads up to a separator depends on the bytes alone, not on where the
segments are cut.
-/

namespace Selfhost.Lib

/-- What one read gives. A read of nothing is the end of the stream. -/
structure Segment where
  bytes : Bytes
  ne : bytes ≠ []

inductive StreamEnd where
  | closed
  | failed
  deriving DecidableEq

/-- A buffered reader, with the reads that are still to come. -/
structure Inbox where
  buffer : Bytes
  segments : List Segment
  ending : StreamEnd

/-- The bytes that were not taken yet. -/
def Inbox.rest (i : Inbox) : Bytes := i.buffer ++ i.segments.flatMap Segment.bytes

/-- The bytes up to the separator, what is left in the buffer and of the segments, and whether there was one. -/
def takeUntil (sep : UInt8) : Bytes → List Segment → Bytes × Bytes × List Segment × Bool
  | buffer, [] =>
      match splitOnce sep buffer with
      | some (line, more) => (line ++ [sep], more, [], true)
      | none => (buffer, [], [], false)
  | buffer, segment :: segments =>
      match splitOnce sep buffer with
      | some (line, more) => (line ++ [sep], more, segment :: segments, true)
      | none =>
          let next := takeUntil sep segment.bytes segments
          (buffer ++ next.1, next.2)

/-- `read_until`: what stands in front of the end of the stream counts as a line. `none` when reading fails. -/
def readUntil (sep : UInt8) (i : Inbox) : Option (Bytes × Inbox) :=
  let (line, buffer, segments, found) := takeUntil sep i.buffer i.segments
  if found ∨ i.ending = .closed then some (line, ⟨buffer, segments, i.ending⟩) else none

/-! ## What is read -/

theorem splitOnce_append_of_not_mem {α : Type} [DecidableEq α] {sep : α} {a b : List α} (h : sep ∉ a) :
    splitOnce sep (a ++ b) = (splitOnce sep b).map fun p => (a ++ p.1, p.2) := by
  induction a with
  | nil => simp
  | cons c a ih =>
      have hc : c ≠ sep := fun he => h (he ▸ List.mem_cons_self)
      rw [List.cons_append, splitOnce, if_neg hc, ih fun hm => h (List.mem_cons_of_mem _ hm), Option.map_map]
      rfl

theorem takeUntil_eq (sep : UInt8) (buffer : Bytes) (segments : List Segment) :
    match splitOnce sep (buffer ++ segments.flatMap Segment.bytes) with
    | some (line, more) => ∃ b s, takeUntil sep buffer segments = (line ++ [sep], b, s, true) ∧
        b ++ s.flatMap Segment.bytes = more
    | none => takeUntil sep buffer segments = (buffer ++ segments.flatMap Segment.bytes, [], [], false) := by
  induction segments generalizing buffer with
  | nil =>
      rw [List.flatMap_nil, List.append_nil, takeUntil]
      cases splitOnce sep buffer with
      | none => rfl
      | some p => exact ⟨p.2, [], rfl, List.append_nil _⟩
  | cons segment segments ih =>
      rw [takeUntil]
      cases hbuffer : splitOnce sep buffer with
      | some p =>
          obtain ⟨rfl, hp⟩ := splitOnce_some hbuffer
          rw [List.append_assoc, List.cons_append, splitOnce_append hp]
          exact ⟨p.2, segment :: segments, rfl, rfl⟩
      | none =>
          rw [splitOnce_append_of_not_mem (splitOnce_none.mp hbuffer), List.flatMap_cons]
          have hnext := ih segment.bytes
          cases hrest : splitOnce sep (segment.bytes ++ segments.flatMap Segment.bytes) with
          | none =>
              rw [hrest] at hnext
              simp only [Option.map_none, hnext]
          | some p =>
              rw [hrest] at hnext
              obtain ⟨b, s, htake, hmore⟩ := hnext
              simp only [Option.map_some, htake]
              exact ⟨b, s, by rw [List.append_assoc], hmore⟩

theorem readUntil_line {sep : UInt8} {i : Inbox} {line more : Bytes} (h : splitOnce sep i.rest = some (line, more)) :
    ∃ i', readUntil sep i = some (line ++ [sep], i') ∧ i'.rest = more ∧ i'.ending = i.ending := by
  have htake := takeUntil_eq sep i.buffer i.segments
  rw [← Inbox.rest, h] at htake
  obtain ⟨b, s, htake, hmore⟩ := htake
  refine ⟨⟨b, s, i.ending⟩, ?_, hmore, rfl⟩
  rw [readUntil, htake]
  rfl

theorem readUntil_last {sep : UInt8} {i : Inbox} (h : splitOnce sep i.rest = none) :
    readUntil sep i = if i.ending = .closed then some (i.rest, ⟨[], [], i.ending⟩) else none := by
  have htake := takeUntil_eq sep i.buffer i.segments
  rw [← Inbox.rest, h] at htake
  rw [readUntil, htake]
  simp

theorem rest_readUntil {sep : UInt8} {i i' : Inbox} {line : Bytes} (h : readUntil sep i = some (line, i')) :
    i.rest = line ++ i'.rest := by
  cases hs : splitOnce sep i.rest with
  | none =>
      rw [readUntil_last hs] at h
      split at h
      · cases h
        exact (List.append_nil _).symm
      · cases h
  | some p =>
      obtain ⟨i'', hi, hrest, -⟩ := readUntil_line hs
      rw [hi] at h
      cases h
      rw [hrest, List.append_assoc]
      exact (splitOnce_some hs).1

end Selfhost.Lib
