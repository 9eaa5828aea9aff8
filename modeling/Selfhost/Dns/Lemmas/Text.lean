import Selfhost.Dns.Lemmas.Message

/-!
# Text that is cut into chunks

A text payload is sent in chunks of 255 bytes and each of them is decoded for itself. Where a chunk ends inside a
character, both sides of the cut become replacement characters.
-/

namespace Selfhost.Dns

open Selfhost.Lib

/-! ## Lossy decoding of a piece -/

theorem isTail_of_mem_tail {c : Char} {b : UInt8} (h : b ∈ (String.utf8EncodeChar c).tail) : isTail b = true := by
  simp only [String.utf8EncodeChar] at h
  split at h
  · cases h
  · split at h
    · simp only [List.tail_cons, List.mem_cons, List.not_mem_nil, or_false] at h
      rw [h]
      exact isTail_ofNat _
    · split at h
      · simp only [List.tail_cons, List.mem_cons, List.not_mem_nil, or_false] at h
        rcases h with rfl | rfl <;> exact isTail_ofNat _
      · simp only [List.tail_cons, List.mem_cons, List.not_mem_nil, or_false] at h
        rcases h with rfl | rfl | rfl <;> exact isTail_ofNat _

theorem fromUtf8Lossy_tail {b : UInt8} (hb : isTail b = true) (rest : Bytes) :
    fromUtf8Lossy (b :: rest) = replacement :: fromUtf8Lossy rest := by
  have hrange := isTail_iff.mp hb
  have hlow : ¬ b < 0x80 := by
    simp only [UInt8.lt_iff_toNat_lt, UInt8.reduceToNat]
    omega
  have htwo : ¬ (0xC2 ≤ b ∧ b ≤ 0xDF) := by
    simp only [UInt8.le_iff_toNat_le, UInt8.reduceToNat]
    omega
  have hthree : ¬ (0xE0 ≤ b ∧ b ≤ 0xEF) := by
    simp only [UInt8.le_iff_toNat_le, UInt8.reduceToNat]
    omega
  have hfour : ¬ (0xF0 ≤ b ∧ b ≤ 0xF4) := by
    simp only [UInt8.le_iff_toNat_le, UInt8.reduceToNat]
    omega
  rw [fromUtf8Lossy.eq_def]
  simp only [hlow, htwo, hthree, hfour, if_false]

theorem fromUtf8Lossy_tails {x : Bytes} (hx : ∀ b ∈ x, isTail b = true) (rest : Bytes) :
    fromUtf8Lossy (x ++ rest) = List.replicate x.length replacement ++ fromUtf8Lossy rest := by
  induction x with
  | nil => rfl
  | cons b x ih =>
      rw [List.cons_append, fromUtf8Lossy_tail (hx b List.mem_cons_self),
        ih fun c hc => hx c (List.mem_cons_of_mem _ hc)]
      rfl

theorem byteLen_fromUtf8Lossy_le (l : Bytes) : byteLen (fromUtf8Lossy l) ≤ 4 * l.length := by
  induction hn : l.length using Nat.strongRecOn generalizing l with
  | ind n ih =>
      by_cases hl : l = []
      · rw [hl, fromUtf8Lossy]
        exact Nat.zero_le _
      · obtain ⟨c, taken, rest, rfl, htaken, hstep, -⟩ := fromUtf8Lossy_step hl
        have hpos := List.length_pos_iff.mpr htaken
        rw [List.length_append] at hn
        have hrest := ih rest.length (by omega) rest rfl
        have hsize := c.utf8Size_le_four
        rw [hstep, byteLen_cons]
        omega

theorem fromUtf8Lossy_ne_nil {l : Bytes} (hl : l ≠ []) : fromUtf8Lossy l ≠ [] := by
  obtain ⟨c, _, _, -, -, hstep, -⟩ := fromUtf8Lossy_step hl
  rw [hstep]
  exact List.cons_ne_nil _ _

/-! ## A cut -/

/-- A place in a text is between two characters or inside one. -/
theorem cut_text {s : Str} {n : Nat} (h : n ≤ byteLen s) :
    (∃ head tail, s = head ++ tail ∧ byteLen head = n) ∨
      ∃ head c tail, s = head ++ c :: tail ∧ byteLen head < n ∧ n < byteLen head + c.utf8Size := by
  induction s generalizing n with
  | nil => exact .inl ⟨[], [], rfl, (Nat.le_zero.mp h).symm⟩
  | cons c s ih =>
      rcases Nat.eq_zero_or_pos n with rfl | hpos
      · exact .inl ⟨[], c :: s, rfl, rfl⟩
      · by_cases hin : n < c.utf8Size
        · exact .inr ⟨[], c, s, rfl, hpos, by simpa using hin⟩
        · rw [byteLen_cons] at h
          rcases ih (n := n - c.utf8Size) (by omega) with ⟨head, tail, rfl, hhead⟩ | ⟨head, d, tail, rfl, hlt, hgt⟩
          · exact .inl ⟨c :: head, tail, rfl, by rw [byteLen_cons]; omega⟩
          · exact .inr ⟨c :: head, d, tail, rfl, by rw [byteLen_cons]; omega, by rw [byteLen_cons]; omega⟩

/-- What stands at a cut: the bytes of a text, behind the last bytes of a character that was cut. -/
structure Rest (bytes x : Bytes) (t : Str) : Prop where
  eq : bytes = x ++ utf8 t
  tails : ∀ b ∈ x, isTail b = true
  short : x.length ≤ 3

/-- The first bytes of what stands at a cut, and what stands behind them; a character on both sides is lost. -/
theorem Rest.take {bytes x : Bytes} {t : Str} (h : Rest bytes x t) {n : Nat} (hx : 3 ≤ n) (hn : n ≤ bytes.length) :
    ∃ s, (∃ t', t = s ++ t' ∧ x.length + byteLen s = n ∧ Rest (bytes.drop n) [] t' ∧
        fromUtf8Lossy (bytes.take n) = List.replicate x.length replacement ++ s) ∨
      ∃ c t' cut x', t = s ++ c :: t' ∧ cut ≠ [] ∧ cut.length ≤ 3 ∧ x' ≠ [] ∧ x.length + byteLen s + cut.length = n ∧
        Rest (bytes.drop n) x' t' ∧
        fromUtf8Lossy (bytes.take n) = List.replicate x.length replacement ++ (s ++ fromUtf8Lossy cut) := by
  obtain ⟨rfl, htails, hshort⟩ := h
  rw [List.length_append] at hn
  have hcut : n - x.length ≤ byteLen t := by
    have hlen : (utf8 t).length = byteLen t := rfl
    omega
  have hsplit : ∀ front back : Bytes, front.length = n →
      (front ++ back).take n = front ∧ (front ++ back).drop n = back :=
    fun front back hlen => ⟨List.take_left' hlen, List.drop_left' hlen⟩
  rcases cut_text hcut with ⟨s, t', rfl, hs⟩ | ⟨s, c, t', rfl, hlow, hhigh⟩
  · have hlen : (x ++ utf8 s).length = n := by
      rw [List.length_append]
      have : (utf8 s).length = byteLen s := rfl
      omega
    obtain ⟨htake, hdrop⟩ := hsplit _ (utf8 t') hlen
    rw [utf8_append, ← List.append_assoc, htake, hdrop]
    refine ⟨s, .inl ⟨t', rfl, by omega, ⟨rfl, by simp, Nat.zero_le _⟩, ?_⟩⟩
    rw [fromUtf8Lossy_tails htails, fromUtf8Lossy_utf8]
  · have hencode : (String.utf8EncodeChar c).length = c.utf8Size := String.length_utf8EncodeChar c
    have hsize := c.utf8Size_le_four
    obtain ⟨k, hk⟩ : ∃ k, n - x.length = byteLen s + k := ⟨n - x.length - byteLen s, by omega⟩
    have htakeLen : ((String.utf8EncodeChar c).take k).length = k := by
      rw [List.length_take]
      omega
    have hlen : (x ++ (utf8 s ++ (String.utf8EncodeChar c).take k)).length = n := by
      rw [List.length_append, List.length_append, htakeLen]
      have : (utf8 s).length = byteLen s := rfl
      omega
    have hbytes : x ++ utf8 (s ++ c :: t') = (x ++ (utf8 s ++ (String.utf8EncodeChar c).take k)) ++
        ((String.utf8EncodeChar c).drop k ++ utf8 t') := by
      rw [utf8_append, utf8_cons]
      conv_lhs => rw [← List.take_append_drop k (String.utf8EncodeChar c)]
      simp only [List.append_assoc]
    obtain ⟨htake, hdrop⟩ := hsplit _ ((String.utf8EncodeChar c).drop k ++ utf8 t') hlen
    rw [hbytes, htake, hdrop]
    have hdropLen : ((String.utf8EncodeChar c).drop k).length = c.utf8Size - k := by rw [List.length_drop, hencode]
    refine ⟨s, .inr ⟨c, t', (String.utf8EncodeChar c).take k, (String.utf8EncodeChar c).drop k, rfl, ?_, by omega, ?_,
      by omega, ⟨rfl, ?_, by omega⟩, ?_⟩⟩
    · exact List.ne_nil_of_length_pos (by omega)
    · exact List.ne_nil_of_length_pos (by omega)
    · intro b hb
      obtain ⟨j, rfl⟩ : ∃ j, k = j + 1 := ⟨k - 1, by omega⟩
      rw [← List.drop_tail] at hb
      exact isTail_of_mem_tail (List.mem_of_mem_drop hb)
    · rw [fromUtf8Lossy_tails htails, fromUtf8Lossy_utf8_append]

/-! ## Chunks -/

/-- The text that is read of chunks. -/
def joinChunks (chunks : List Bytes) : Str := chunks.flatMap fromUtf8Lossy

theorem chunks_cons {size fuel : Nat} {bytes : Bytes} (h : bytes ≠ []) :
    chunks size (fuel + 1) bytes = bytes.take size :: chunks size fuel (bytes.drop size) := by
  cases bytes with
  | nil => exact absurd rfl h
  | cons b bytes => rfl

/-- No chunk of `size` bytes ends inside a character. -/
def Uncut (size : Nat) (s : Str) : Prop := ∀ k, size * k ≤ byteLen s → IsBoundary (size * k) s

theorem chunks_nil (size fuel : Nat) : chunks size fuel [] = [] := by
  cases fuel <;> rfl

theorem joinChunks_cons (chunk : Bytes) (chunks : List Bytes) :
    joinChunks (chunk :: chunks) = fromUtf8Lossy chunk ++ joinChunks chunks := rfl

theorem isBoundary_zero (s : Str) : IsBoundary 0 s := ⟨[], s, rfl, rfl⟩

theorem isBoundary_byteLen (s : Str) : IsBoundary (byteLen s) s := ⟨s, [], (List.append_nil s).symm, rfl⟩

theorem uncut_append {size : Nat} {s t : Str} (hs : byteLen s = size) (ht : Uncut size t) : Uncut size (s ++ t) := by
  intro k hk
  cases k with
  | zero => exact isBoundary_zero _
  | succ k =>
      rw [byteLen_append, Nat.mul_succ] at hk
      obtain ⟨head, tail, rfl, hhead⟩ := ht k (by omega)
      refine ⟨s ++ head, tail, (List.append_assoc ..).symm, ?_⟩
      rw [byteLen_append, hhead, hs, Nat.mul_succ, Nat.add_comm]

theorem Rest.fits {bytes x : Bytes} {t : Str} (h : Rest bytes x t) (fuel : Nat) (hne : bytes ≠ [])
    (hlen : bytes.length ≤ 255) :
    joinChunks (chunks 255 (fuel + 1) bytes) = List.replicate x.length replacement ++ t := by
  rw [chunks_cons hne, List.take_of_length_le hlen, List.drop_of_length_le hlen, chunks_nil, joinChunks_cons, h.eq,
    fromUtf8Lossy_tails h.tails, fromUtf8Lossy_utf8]
  exact List.append_nil _

/-- Reading chunk by chunk gives at least as many characters as there are, and more where a character is cut. -/
theorem length_joinChunks {fuel : Nat} {bytes x : Bytes} {t : Str} (h : Rest bytes x t) (hfuel : bytes.length ≤ fuel) :
    x.length + t.length ≤ (joinChunks (chunks 255 fuel bytes)).length ∧
      ((joinChunks (chunks 255 fuel bytes)).length = t.length → x = [] ∧ Uncut 255 t) := by
  induction fuel generalizing bytes x t with
  | zero =>
      have hnil : bytes = [] := List.length_eq_zero_iff.mp (Nat.le_zero.mp hfuel)
      obtain ⟨hx, ht⟩ := List.append_eq_nil_iff.mp (h.eq.symm.trans hnil)
      cases t with
      | nil =>
          rw [hx, hnil]
          refine ⟨Nat.zero_le _, fun _ => ⟨rfl, fun k hk => ?_⟩⟩
          rw [Nat.le_zero.mp hk]
          exact isBoundary_zero _
      | cons c t => simp at ht
  | succ fuel ih =>
      by_cases hne : bytes = []
      · subst hne
        have hzero := ih h (Nat.zero_le _)
        rwa [chunks_nil] at hzero ⊢
      by_cases hlen : bytes.length ≤ 255
      · rw [h.fits fuel hne hlen, List.length_append, List.length_replicate]
        refine ⟨Nat.le_refl _, fun heq => ?_⟩
        have hx : x = [] := List.length_eq_zero_iff.mp (by omega)
        refine ⟨hx, fun k hk => ?_⟩
        have hbytes : bytes.length = byteLen t := by
          rw [h.eq, hx]
          rfl
        rcases Nat.lt_or_ge k 1 with hk' | hk'
        · rw [Nat.lt_one_iff.mp hk']
          exact isBoundary_zero t
        · have hall : 255 * k = byteLen t := by omega
          rw [hall]
          exact isBoundary_byteLen t
      · have hdrop : (bytes.drop 255).length ≤ fuel := by
          rw [List.length_drop]
          omega
        rw [chunks_cons hne, joinChunks_cons]
        obtain ⟨s, ⟨t', rfl, hs, hrest, htake⟩ | ⟨c, t', cut, x', rfl, hcut, -, hx', hs, hrest, htake⟩⟩ :=
          h.take (n := 255) (by decide) (by omega)
        · obtain ⟨hmore, hsame⟩ := ih hrest hdrop
          rw [htake]
          simp only [List.length_append, List.length_replicate, List.length_nil, Nat.zero_add] at hmore ⊢
          refine ⟨by omega, fun heq => ?_⟩
          have hx : x = [] := List.length_eq_zero_iff.mp (by omega)
          rw [hx, List.length_nil, Nat.zero_add] at hs
          exact ⟨hx, uncut_append hs (hsame (by omega)).2⟩
        · obtain ⟨hmore, -⟩ := ih hrest hdrop
          have hlost := List.length_pos_iff.mpr (fromUtf8Lossy_ne_nil hcut)
          have hlost' := List.length_pos_iff.mpr hx'
          rw [htake]
          simp only [List.length_append, List.length_replicate, List.length_cons] at hmore ⊢
          exact ⟨by omega, fun heq => by omega⟩

theorem uncut_of_append {size : Nat} {s t : Str} (hs : byteLen s = size) (h : Uncut size (s ++ t)) :
    Uncut size t := by
  intro k hk
  obtain ⟨head, tail, heq, hhead⟩ := h (k + 1) (by rw [byteLen_append, Nat.mul_succ]; omega)
  rw [Nat.mul_succ] at hhead
  rcases List.append_eq_append_iff.mp heq with ⟨front, rfl, rfl⟩ | ⟨front, rfl, rfl⟩
  · exact ⟨front, tail, rfl, by rw [byteLen_append] at hhead; omega⟩
  · rw [byteLen_append] at hs
    have hzero : size * k = 0 := by omega
    rw [hzero]
    exact isBoundary_zero _

/-- A text that no chunk cuts is read back. -/
theorem joinChunks_of_uncut {fuel : Nat} {t : Str} (hfuel : byteLen t ≤ fuel) (h : Uncut 255 t) :
    joinChunks (chunks 255 fuel (utf8 t)) = t := by
  induction fuel generalizing t with
  | zero =>
      cases t with
      | nil => rfl
      | cons c t =>
          have := c.utf8Size_pos
          rw [byteLen_cons] at hfuel
          omega
  | succ fuel ih =>
      have hrest : Rest (utf8 t) [] t := ⟨rfl, by simp, Nat.zero_le _⟩
      by_cases hne : utf8 t = []
      · cases t with
        | nil => rfl
        | cons c t => simp at hne
      by_cases hlen : (utf8 t).length ≤ 255
      · exact hrest.fits fuel hne hlen
      · have hlong : 255 ≤ byteLen t := Nat.le_of_lt (Nat.not_le.mp hlen)
        obtain ⟨s, t', rfl, hs⟩ := h 1 hlong
        have hlength : (utf8 s).length = 255 := hs
        rw [byteLen_append] at hfuel
        rw [chunks_cons hne, joinChunks_cons, utf8_append, List.take_left' hlength, List.drop_left' hlength,
          fromUtf8Lossy_utf8, ih (by omega) (uncut_of_append hs h)]

theorem joinChunks_eq_iff (t : Str) : joinChunks (chunks 255 (utf8 t).length (utf8 t)) = t ↔ Uncut 255 t := by
  constructor
  · intro h
    have hrest : Rest (utf8 t) [] t := ⟨rfl, by simp, Nat.zero_le _⟩
    exact ((length_joinChunks hrest (Nat.le_refl _)).2 (by rw [h])).2
  · exact joinChunks_of_uncut (Nat.le_refl _)

/-! ## A payload that is cut short -/

/-- A chunk behind its length. -/
def framed (chunk : Bytes) : Bytes := UInt8.ofNat chunk.length :: chunk

theorem length_chunk_le {size fuel : Nat} {bytes chunk : Bytes} (h : chunk ∈ chunks size fuel bytes) :
    chunk.length ≤ size := by
  induction fuel generalizing bytes with
  | zero => cases h
  | succ fuel ih =>
      by_cases hne : bytes = []
      · rw [hne, chunks_nil] at h
        cases h
      · rw [chunks_cons hne] at h
        rcases List.mem_cons.mp h with rfl | h
        · rw [List.length_take]
          exact Nat.min_le_left ..
        · exact ih h

theorem length_flatMap_framed (pieces : List Bytes) :
    (pieces.flatMap framed).length = pieces.flatten.length + pieces.length := by
  induction pieces with
  | nil => rfl
  | cons piece pieces ih =>
      rw [List.flatMap_cons, List.flatten_cons, List.length_append, List.length_append, ih, framed, List.length_cons,
        List.length_cons]
      omega

theorem flatten_chunks {size fuel : Nat} (hsize : 0 < size) {bytes : Bytes} (hfuel : bytes.length ≤ fuel) :
    (chunks size fuel bytes).flatten = bytes := by
  induction fuel generalizing bytes with
  | zero =>
      rw [List.length_eq_zero_iff.mp (Nat.le_zero.mp hfuel)]
      rfl
  | succ fuel ih =>
      by_cases hne : bytes = []
      · rw [hne, chunks_nil]
        rfl
      · have hpos := List.length_pos_iff.mpr hne
        rw [chunks_cons hne, List.flatten_cons, ih (by rw [List.length_drop]; omega), List.take_append_drop]

/-- Every chunk in front of another is full. -/
theorem length_take_chunks {size fuel m : Nat} {bytes : Bytes} (hm : m < (chunks size fuel bytes).length) :
    ((chunks size fuel bytes).take m).flatten.length = size * m := by
  induction fuel generalizing bytes m with
  | zero => cases hm
  | succ fuel ih =>
      by_cases hne : bytes = []
      · rw [hne, chunks_nil] at hm
        cases hm
      · rw [chunks_cons hne] at hm ⊢
        cases m with
        | zero => rfl
        | succ m =>
            rw [List.length_cons] at hm
            have hmore : bytes.drop size ≠ [] := by
              intro hnil
              rw [hnil, chunks_nil, List.length_nil] at hm
              omega
            have hfull : size ≤ bytes.length := by
              by_contra hshort
              exact hmore (List.drop_of_length_le (by omega))
            rw [List.take_succ_cons, List.flatten_cons, List.length_append, ih (by omega), List.length_take,
              Nat.min_eq_left hfull, Nat.mul_succ, Nat.add_comm]

/-- How many chunks there are. -/
theorem count_chunks {size fuel : Nat} (hsize : 0 < size) {bytes : Bytes} (hfuel : bytes.length ≤ fuel) :
    size * ((chunks size fuel bytes).length - 1) ≤ bytes.length ∧
      bytes.length ≤ size * (chunks size fuel bytes).length := by
  have hflat : (chunks size fuel bytes).flatten = bytes := flatten_chunks hsize hfuel
  constructor
  · by_cases hnone : (chunks size fuel bytes).length = 0
    · rw [hnone]
      exact Nat.zero_le _
    · have hlt : (chunks size fuel bytes).length - 1 < (chunks size fuel bytes).length := by omega
      rw [← length_take_chunks hlt, ← congrArg List.length hflat]
      conv_rhs => rw [← List.take_append_drop ((chunks size fuel bytes).length - 1) (chunks size fuel bytes)]
      rw [List.flatten_append, List.length_append]
      exact Nat.le_add_right _ _
  · have hmost : ∀ pieces : List Bytes, (∀ piece ∈ pieces, piece.length ≤ size) →
        pieces.flatten.length ≤ size * pieces.length := by
      intro pieces hpieces
      induction pieces with
      | nil => exact Nat.zero_le _
      | cons piece pieces ih =>
          have hfirst := hpieces piece List.mem_cons_self
          have hrest := ih fun other hmem => hpieces other (List.mem_cons_of_mem _ hmem)
          rw [List.flatten_cons, List.length_append, List.length_cons, Nat.mul_succ]
          omega
    rw [← congrArg List.length hflat]
    exact hmost _ fun _ => length_chunk_le

/-- Of a payload that is cut short the chunks are read that are whole. -/
theorem readTexts_take {fuel r : Nat} {pieces : List Bytes} (hpieces : ∀ piece ∈ pieces, piece.length ≤ 255)
    (hfuel : r ≤ fuel) : ∃ m, ((pieces.take m).flatMap framed).length ≤ r ∧
      ((pieces.flatMap framed).length ≤ r → pieces.length ≤ m) ∧
      readTexts fuel ((pieces.flatMap framed).take r) = joinChunks (pieces.take m) := by
  induction pieces generalizing fuel r with
  | nil =>
      refine ⟨0, Nat.zero_le _, fun _ => Nat.le_refl _, ?_⟩
      rw [List.flatMap_nil, List.take_nil]
      cases fuel <;> rfl
  | cons piece pieces ih =>
      have hpiece := hpieces piece List.mem_cons_self
      rw [List.flatMap_cons, framed, List.cons_append]
      cases r with
      | zero =>
          refine ⟨0, Nat.le_refl _, fun h => by simp at h, ?_⟩
          rw [List.take_zero]
          cases fuel <;> rfl
      | succ r =>
          obtain ⟨fuel, rfl⟩ : ∃ k, fuel = k + 1 := ⟨fuel - 1, by omega⟩
          have hcount : (UInt8.ofNat piece.length).toNat = piece.length := by
            rw [UInt8.toNat_ofNat', Nat.mod_eq_of_lt (by omega)]
          rw [List.take_succ_cons, readTexts, hcount]
          by_cases hwhole : piece.length ≤ r
          · have hrest : r - piece.length ≤ fuel := by omega
            obtain ⟨m, hm, hall, hread⟩ := ih (fun other hmem => hpieces other (List.mem_cons_of_mem _ hmem)) hrest
            refine ⟨m + 1, ?_, fun h => ?_, ?_⟩
            · rw [List.take_succ_cons, List.flatMap_cons, List.length_append, framed, List.length_cons]
              omega
            · rw [List.length_cons, List.length_append] at h
              rw [List.length_cons]
              exact Nat.succ_le_succ (hall (by omega))
            · rw [List.take_append, List.take_of_length_le hwhole]
              rw [if_pos (by rw [List.length_append]; omega), List.take_left, List.drop_left, hread,
                List.take_succ_cons, joinChunks_cons]
          · refine ⟨0, Nat.zero_le _, fun h => ?_, ?_⟩
            · rw [List.length_cons, List.length_append] at h
              omega
            · rw [if_neg]
              · rfl
              · rw [List.length_take]
                omega

theorem byteLen_replicate (n : Nat) : byteLen (List.replicate n replacement) = 3 * n := by
  induction n with
  | zero => rfl
  | succ n ih =>
      have hsize : replacement.utf8Size = 3 := by decide
      rw [List.replicate_succ, byteLen_cons, ih, hsize]
      omega

/-- What is read of some chunks is not much longer than they are. -/
theorem byteLen_joinChunks_le {fuel m : Nat} {bytes x : Bytes} {t : Str} (h : Rest bytes x t)
    (hm : m < (chunks 255 fuel bytes).length) : byteLen (joinChunks ((chunks 255 fuel bytes).take m)) ≤ 276 * m := by
  induction fuel generalizing bytes x t m with
  | zero => cases hm
  | succ fuel ih =>
      by_cases hne : bytes = []
      · rw [hne, chunks_nil] at hm
        cases hm
      · rw [chunks_cons hne] at hm ⊢
        cases m with
        | zero => exact Nat.zero_le _
        | succ m =>
            rw [List.length_cons] at hm
            have hmore : bytes.drop 255 ≠ [] := by
              intro hnil
              rw [hnil, chunks_nil, List.length_nil] at hm
              omega
            have hfull : 255 ≤ bytes.length := by
              by_contra hshort
              exact hmore (List.drop_of_length_le (by omega))
            have hshort := h.short
            rw [List.take_succ_cons, joinChunks_cons, byteLen_append]
            obtain ⟨s, ⟨t', -, hs, hrest, htake⟩ | ⟨c, t', cut, x', -, -, hcut, -, hs, hrest, htake⟩⟩ :=
              h.take (n := 255) (by decide) hfull
            · have hmany := ih hrest (m := m) (by omega)
              rw [htake, byteLen_append, byteLen_replicate]
              omega
            · have hmany := ih hrest (m := m) (by omega)
              have hlost := byteLen_fromUtf8Lossy_le cut
              rw [htake, byteLen_append, byteLen_append, byteLen_replicate]
              omega

theorem writeRdata_txt (text : Str) :
    writeRdata (.txt text) = (chunks 255 (utf8 text).length (utf8 text)).flatMap framed := rfl

/-- The text that is read of the payload, whose length is sent in 16 bits, is the text exactly when it fits and no chunk
ends inside a character. -/
theorem readTexts_writeRdata_iff (text : Str) {r : Nat} (hr : r = (writeRdata (.txt text)).length % 2 ^ 16) :
    readTexts r ((writeRdata (.txt text)).take r) = text ↔
      (writeRdata (.txt text)).length < 2 ^ 16 ∧ Uncut 255 text := by
  have hpieces : ∀ piece ∈ chunks 255 (utf8 text).length (utf8 text), piece.length ≤ 255 := fun _ => length_chunk_le
  have hrest : Rest (utf8 text) [] text := ⟨rfl, by simp, Nat.zero_le _⟩
  rw [writeRdata_txt] at hr ⊢
  obtain ⟨m, hm, hall, hread⟩ := readTexts_take hpieces (Nat.le_refl r)
  rw [hread]
  by_cases hfits : ((chunks 255 (utf8 text).length (utf8 text)).flatMap framed).length < 2 ^ 16
  · rw [Nat.mod_eq_of_lt hfits] at hr
    rw [List.take_of_length_le (hall (by omega)), joinChunks_eq_iff]
    exact (and_iff_right hfits).symm
  · refine iff_of_false (fun heq => ?_) fun h => hfits h.1
    have htotal := length_flatMap_framed (chunks 255 (utf8 text).length (utf8 text))
    rw [flatten_chunks (by decide) (Nat.le_refl _)] at htotal
    have hcut : m < (chunks 255 (utf8 text).length (utf8 text)).length := by
      by_contra hge
      rw [List.take_of_length_le (by omega)] at hm
      have := Nat.mod_lt ((chunks 255 (utf8 text).length (utf8 text)).flatMap framed).length (y := 2 ^ 16) (by decide)
      omega
    have hupper := byteLen_joinChunks_le hrest hcut
    rw [heq] at hupper
    have htaken := length_flatMap_framed ((chunks 255 (utf8 text).length (utf8 text)).take m)
    rw [length_take_chunks hcut, List.length_take, Nat.min_eq_left (Nat.le_of_lt hcut)] at htaken
    obtain ⟨hlast, -⟩ := count_chunks (show 0 < 255 by decide) (Nat.le_refl (utf8 text).length)
    have hlen : (utf8 text).length = byteLen text := rfl
    have hmod := Nat.div_add_mod ((chunks 255 (utf8 text).length (utf8 text)).flatMap framed).length (2 ^ 16)
    have hdiv : 1 ≤ ((chunks 255 (utf8 text).length (utf8 text)).flatMap framed).length / 2 ^ 16 :=
      Nat.div_pos (by omega) (by decide)
    omega

end Selfhost.Dns
