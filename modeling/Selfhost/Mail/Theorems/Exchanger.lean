import Selfhost.Mail.Lemmas.Client
import Selfhost.Mail.Theorems.Smuggling

/-!
# A hostile mail exchanger

Whatever bytes the server sends, in whatever segments, the client sends its credentials only after the handshake,
names each recipient once, sends the body only when it is asked for, and reports success only when the body was
accepted. Its reader of replies cuts the status code off at the third byte, which can be inside a character.
-/

namespace Selfhost.Mail

open Selfhost.Lib

/-! ## The body on the wire -/

/-- At the start of a line, stuffed content has no lone dot. -/
theorem not_lone_dot {b : UInt8} {body rest : Bytes} : ¬ [dot, cr] <+: dotStuff true (b :: body) ++ rest := by
  intro h
  rw [dotStuff] at h
  by_cases hb : b = dot
  · subst hb
    have hnext := (List.cons_prefix_cons.mp (List.cons_prefix_cons.mp h).2).1
    exact absurd hnext (by decide)
  · simp only [Bool.true_and, beq_iff_eq, if_neg hb] at h
    exact hb (List.cons_prefix_cons.mp h).1.symm

/-- A line feed and a lone dot do not stand in stuffed content, unless its last byte is the line feed. -/
theorem lone_dot_stuffed {start : Bool} {body rest : Bytes} {n : Nat} (hn : n < (dotStuff start body).length)
    (h : [lf, dot, cr] <+: (dotStuff start body ++ rest).drop n) : n + 1 = (dotStuff start body).length := by
  induction body generalizing start n with
  | nil => exact absurd hn (Nat.not_lt_zero _)
  | cons b body ih =>
      rw [dotStuff] at hn h ⊢
      split at hn
      · rename_i hdot
        rw [if_pos hdot] at h ⊢
        -- The pair of dots holds no line feed.
        simp only [Bool.and_eq_true, beq_iff_eq] at hdot
        obtain ⟨-, rfl⟩ := hdot
        match n with
        | 0 => exact absurd (List.cons_prefix_cons.mp h).1 (by decide)
        | 1 => exact absurd (List.cons_prefix_cons.mp h).1 (by decide)
        | n + 2 =>
            have hrec := ih (n := n) (by simpa using hn) (by simpa using h)
            simpa using hrec
      · rename_i hdot
        rw [if_neg hdot] at h ⊢
        match n with
        | 0 =>
            obtain ⟨rfl, hnext⟩ := List.cons_prefix_cons.mp h
            cases body with
            | nil => rfl
            | cons c body => exact absurd hnext not_lone_dot
        | n + 1 =>
            have hrec := ih (n := n) (by simpa using hn) (by simpa using h)
            simpa using hrec

/-- What follows the stuffed content. -/
theorem frameBody_eq (body : Bytes) :
    (crlf <:+ dotStuff true body ∧ frameBody body = dotStuff true body ++ [dot, cr, lf]) ∨
      frameBody body = dotStuff true body ++ [cr, lf, dot, cr, lf] := by
  unfold frameBody
  dsimp only
  split
  · rename_i hend
    exact Or.inl ⟨hend, rfl⟩
  · exact Or.inr (by rw [List.append_assoc]; rfl)

theorem terminator_suffix (body : Bytes) : terminator <:+ frameBody body := by
  rcases frameBody_eq body with ⟨⟨before, hbefore⟩, hframe⟩ | hframe
  · exact ⟨before, by rw [hframe, ← hbefore, List.append_assoc]; rfl⟩
  · exact ⟨dotStuff true body, hframe.symm⟩

/-- The terminator stands at the end of a framed body and nowhere else. -/
theorem terminator_frameBody (body : Bytes) (n : Nat) :
    terminator <+: (frameBody body).drop n ↔ n + terminator.length = (frameBody body).length := by
  constructor
  · intro h
    have hlone : [lf, dot, cr] <+: (frameBody body).drop (n + 1) := by
      obtain ⟨t, ht⟩ := h
      rw [← List.drop_drop, ← ht]
      exact ⟨lf :: t, rfl⟩
    have hlen : terminator.length = 5 := rfl
    by_cases hn : n + 1 < (dotStuff true body).length
    · rcases frameBody_eq body with ⟨-, hframe⟩ | hframe
      · rw [hframe] at hlone ⊢
        have hlast := lone_dot_stuffed hn hlone
        rw [List.length_append, ← hlast]
        rfl
      · rw [hframe] at hlone ⊢
        have hlast := lone_dot_stuffed hn hlone
        obtain ⟨t, ht⟩ := hlone
        have hnext := congrArg (List.drop 1) ht
        rw [List.drop_drop, hlast, List.drop_left] at hnext
        exact absurd (List.cons.inj hnext).1 (by decide)
    · obtain ⟨m, hm⟩ := Nat.exists_eq_add_of_le (Nat.not_lt.mp hn)
      -- What is left of the frame is three bytes or five.
      have htail : ∀ tail : Bytes, frameBody body = dotStuff true body ++ tail →
          [lf, dot, cr] <+: tail.drop m ∧ m + 3 ≤ tail.length := by
        intro tail htail
        rw [htail, hm, List.drop_length_add_append] at hlone
        have hle := hlone.length_le
        rw [List.length_drop] at hle
        exact ⟨hlone, by simp only [List.length_cons, List.length_nil] at hle; omega⟩
      rcases frameBody_eq body with ⟨-, hframe⟩ | hframe
      · obtain ⟨hpre, hle⟩ := htail _ hframe
        obtain rfl : m = 0 := Nat.le_zero.mp (Nat.le_of_add_le_add_right hle)
        exact absurd hpre (by decide)
      · obtain ⟨hpre, hle⟩ := htail _ hframe
        have htable : ∀ m < 3, [lf, dot, cr] <+: ([cr, lf, dot, cr, lf] : Bytes).drop m → m = 1 := by decide
        have hone := htable m (by simp only [List.length_cons, List.length_nil] at hle; omega) hpre
        rw [hframe, List.length_append, hlen]
        simp only [List.length_cons, List.length_nil]
        omega
  · intro h
    obtain ⟨before, hbefore⟩ := terminator_suffix body
    have hlength : before.length = n := by
      rw [← hbefore, List.length_append] at h
      omega
    rw [← hbefore, List.drop_left' hlength]

/-! ## Lines of a reply -/

/-- The next line of a stream and the bytes behind it; an end of the stream ends a line, a failure does not. -/
def nextLine (ending : StreamEnd) (x : Bytes) : Option (Bytes × Bytes) :=
  match splitOnce lf x with
  | some (line, rest) => some (line ++ [lf], rest)
  | none => if ending = .closed ∧ x ≠ [] then some (x, []) else none

/-- What a line says, when it is text. -/
def lineSays (line : Bytes) : Option (Option ReplyLine) := (fromUtf8 line).map readReplyLine

/-- A line that is followed by more of the reply. -/
def Continues (line : Bytes) : Prop := ∃ code text, lineSays line = some (some (.part code text true))

/-- A line with a character across its third byte. -/
def CutsStatus (line : Bytes) : Prop := ∃ s, fromUtf8 line = some s ∧ CutInside 3 (trimLineEnd s)

/-- A last line whose status is a plus sign and two digits. -/
def SignedStatus (line : Bytes) : Prop :=
  ∃ s a b text, fromUtf8 line = some s ∧ trimLineEnd s = '+' :: a :: b :: text ∧ a.isDigit = true ∧
    b.isDigit = true ∧ text.head? ≠ some '-'

/-- A line that the reader comes to: every line before it is followed by more of the reply. -/
inductive ReplyReaches (ending : StreamEnd) : Bytes → Bytes → Prop where
  | first {x line rest : Bytes} : nextLine ending x = some (line, rest) → ReplyReaches ending x line
  | later {x line rest l : Bytes} : nextLine ending x = some (l, rest) → Continues l → ReplyReaches ending rest line →
      ReplyReaches ending x line

/-- The last line of some bytes: what stands behind the last line feed that is not the last byte. -/
def lastLine (x : Bytes) : Bytes := (x.dropLast.rtakeWhile fun b => b != lf) ++ x.getLast?.toList

/-- The bytes that were read between two states of the reader. -/
def consumed (i i' : Inbox) : Bytes := i.rest.take (i.rest.length - i'.rest.length)

/-- A status code that is the three digits of a line. -/
def ThreeDigits (line : Bytes) (code : Nat) : Prop :=
  ∃ s a b c text, fromUtf8 line = some s ∧ trimLineEnd s = a :: b :: c :: text ∧ a.isDigit = true ∧
    b.isDigit = true ∧ c.isDigit = true ∧ code = decimalValue [a, b, c]

/-- The reader gives a reply, with the status of its last line, or an error. -/
def ReadsReply (i : Inbox) : Prop :=
  match readReply i with
  | none => False
  | some (.error _) => True
  | some (.ok (reply, i')) => ThreeDigits (lastLine (consumed i i')) reply.code

/-- What every line that is reached must be for the reader to be safe. -/
def StatusesWhole (i : Inbox) : Prop :=
  ∀ line, ReplyReaches i.ending i.rest line → ¬ CutsStatus line ∧ ¬ SignedStatus line

theorem readReplyFrom_none {lines : List Str} {i : Inbox} (h : nextLine i.ending i.rest = none) :
    ∃ e, readReplyFrom lines i = some (.error e) := by
  unfold nextLine at h
  split at h
  · cases h
  · rename_i hsplit
    rw [readReplyFrom, readUntil_last hsplit]
    split at h
    · cases h
    · rename_i hend
      rw [not_and_not_right] at hend
      split
      · exact ⟨_, rfl⟩
      · rename_i raw i' heq
        split at heq
        · rename_i hclosed
          cases heq
          rw [dif_pos (hend hclosed)]
          exact ⟨_, rfl⟩
        · cases heq

/-- One turn of the reader. -/
theorem readReplyFrom_some {lines : List Str} {i : Inbox} {line rest : Bytes}
    (h : nextLine i.ending i.rest = some (line, rest)) :
    ∃ i', i'.rest = rest ∧ i'.ending = i.ending ∧ readReplyFrom lines i =
      match lineSays line with
      | none => some (.error (.io .invalidUtf8))
      | some none => none
      | some (some (.bad e)) => some (.error (.protocol e))
      | some (some (.part code text continues)) =>
          if continues then readReplyFrom (lines ++ [text]) i' else some (.ok (⟨code, lines ++ [text]⟩, i')) := by
  obtain ⟨i', hread, hrest, hending, hne⟩ : ∃ i', readUntil lf i = some (line, i') ∧ i'.rest = rest ∧
      i'.ending = i.ending ∧ line ≠ [] := by
    unfold nextLine at h
    split at h
    · rename_i l more hsplit
      cases h
      obtain ⟨i', hread, hrest, hending⟩ := readUntil_line hsplit
      exact ⟨i', hread, hrest, hending, by simp⟩
    · rename_i hsplit
      split at h
      · rename_i hend
        cases h
        exact ⟨⟨[], [], i.ending⟩, by rw [readUntil_last hsplit, if_pos hend.1], rfl, rfl, hend.2⟩
      · cases h
  refine ⟨i', hrest, hending, ?_⟩
  rw [readReplyFrom]
  split
  · rename_i heq
    rw [hread] at heq
    cases heq
  · rename_i raw j heq
    rw [hread] at heq
    cases heq
    rw [dif_neg hne, lineSays]
    cases fromUtf8 line with
    | none => rfl
    | some s =>
        simp only [Option.map_some]
        cases readReplyLine s with
        | none => rfl
        | some said => cases said <;> rfl

theorem nextLine_some {ending : StreamEnd} {x line rest : Bytes} (h : nextLine ending x = some (line, rest)) :
    x = line ++ rest ∧ line ≠ [] ∧ lf ∉ line.dropLast ∧ (rest ≠ [] → line.getLast? = some lf) := by
  unfold nextLine at h
  split at h
  · rename_i l more hsplit
    cases h
    obtain ⟨hx, hl⟩ := splitOnce_some hsplit
    refine ⟨by rw [hx, List.append_assoc]; rfl, by simp, ?_, fun _ => List.getLast?_concat⟩
    rw [List.dropLast_concat]
    exact hl
  · rename_i hsplit
    split at h
    · rename_i hend
      cases h
      exact ⟨(List.append_nil _).symm, hend.2, fun hm => splitOnce_none.mp hsplit (List.mem_of_mem_dropLast hm),
        fun hne => absurd rfl hne⟩
    · cases h

/-- Where the last line of a reply stands in the stream. -/
structure LineAt (x before line after : Bytes) : Prop where
  split : x = before ++ line ++ after
  starts : before = [] ∨ before.getLast? = some lf
  line_ne : line ≠ []
  one_line : lf ∉ line.dropLast

/-- A line that stops the reader. -/
def Faulty (line : Bytes) : Prop := lineSays line = none ∨ ∃ e, lineSays line = some (some (.bad e))

/-- How reading a reply ends: with an error, a panic, or the reply that its last line completes. -/
theorem readReplyFrom_cases (lines : List Str) (i : Inbox) :
    ((∃ e, readReplyFrom lines i = some (.error e)) ∧
      ∀ line, ReplyReaches i.ending i.rest line → Continues line ∨ Faulty line) ∨
    (readReplyFrom lines i = none ∧ ∃ line, ReplyReaches i.ending i.rest line ∧ lineSays line = some none) ∨
    ∃ reply i' before line text, readReplyFrom lines i = some (.ok (reply, i')) ∧ ReplyReaches i.ending i.rest line ∧
      lineSays line = some (some (.part reply.code text false)) ∧ LineAt i.rest before line i'.rest := by
  induction hlen : i.rest.length using Nat.strong_induction_on generalizing lines i with
  | h n ih =>
      cases hnext : nextLine i.ending i.rest with
      | none =>
          refine Or.inl ⟨readReplyFrom_none hnext, fun line hline => ?_⟩
          cases hline with
          | first h => rw [hnext] at h; cases h
          | later h => rw [hnext] at h; cases h
      | some p =>
          obtain ⟨line, rest⟩ := p
          obtain ⟨hsplit, hne, hone, hlf⟩ := nextLine_some hnext
          obtain ⟨i', hrest, hending, hread⟩ := @readReplyFrom_some lines i line rest hnext
          have honly : ¬ Continues line → ∀ l, ReplyReaches i.ending i.rest l → l = line := by
            intro hstop l hl
            cases hl with
            | first h => rw [hnext] at h; cases h; rfl
            | later h hc => rw [hnext] at h; cases h; exact absurd hc hstop
          have hends : ∀ said, lineSays line = some said → (∀ code text, said ≠ some (.part code text true)) →
              ¬ Continues line := by
            rintro said hsaid hnot ⟨code, text, hc⟩
            rw [hsaid] at hc
            exact hnot code text (Option.some.inj hc)
          cases hmeans : lineSays line with
          | none =>
              rw [hmeans] at hread
              refine Or.inl ⟨⟨_, hread⟩, fun l hl => ?_⟩
              have hstop : ¬ Continues line := by
                rintro ⟨code, text, hc⟩
                rw [hmeans] at hc
                cases hc
              rw [honly hstop l hl]
              exact Or.inr (Or.inl hmeans)
          | some said =>
              rw [hmeans] at hread
              match said with
              | none => exact Or.inr (Or.inl ⟨hread, line, .first hnext, hmeans⟩)
              | some (.bad e) =>
                  refine Or.inl ⟨⟨_, hread⟩, fun l hl => ?_⟩
                  rw [honly (hends _ hmeans (by simp)) l hl]
                  exact Or.inr (Or.inr ⟨e, hmeans⟩)
              | some (.part code text false) =>
                  refine Or.inr (Or.inr ⟨_, i', [], line, text, hread, .first hnext, hmeans, ?_⟩)
                  exact ⟨by rw [hrest, hsplit]; rfl, Or.inl rfl, hne, hone⟩
              | some (.part code text true) =>
                  have hshort : i'.rest.length < n := by
                    have := List.length_pos_iff.mpr hne
                    rw [← hlen, hrest, hsplit, List.length_append]
                    omega
                  have hcont : Continues line := ⟨code, text, hmeans⟩
                  simp only [if_true] at hread
                  have hlater : ∀ l, ReplyReaches i'.ending i'.rest l → ReplyReaches i.ending i.rest l := by
                    intro l hl
                    rw [hending, hrest] at hl
                    exact .later hnext hcont hl
                  obtain ⟨⟨e, he⟩, hall⟩ | ⟨hnone, l, hl, hl'⟩ | ⟨reply, j, before, l, t, hok, hl, hl', hat⟩ :=
                    ih i'.rest.length hshort (lines ++ [text]) i' rfl
                  · refine Or.inl ⟨⟨e, hread.trans he⟩, fun l hl => ?_⟩
                    cases hl with
                    | first h => rw [hnext] at h; cases h; exact Or.inl hcont
                    | later h hc hl => rw [hnext] at h; cases h; exact hall l (hending ▸ hrest ▸ hl)
                  · exact Or.inr (Or.inl ⟨hread.trans hnone, l, hlater l hl, hl'⟩)
                  · refine Or.inr (Or.inr ⟨reply, j, line ++ before, l, t, hread.trans hok, hlater l hl, hl', ?_⟩)
                    have hmore : rest ≠ [] := by
                      rw [← hrest, hat.split]
                      simp [hat.line_ne]
                    refine ⟨by rw [hsplit, ← hrest, hat.split]; simp, Or.inr ?_, hat.line_ne, hat.one_line⟩
                    rcases hat.starts with rfl | hb
                    · rw [List.append_nil]
                      exact hlf hmore
                    · rw [List.getLast?_append, hb]
                      rfl

theorem LineAt.lastLine {i i' : Inbox} {before line : Bytes} (h : LineAt i.rest before line i'.rest) :
    lastLine (consumed i i') = line := by
  have hconsumed : consumed i i' = before ++ line := by
    rw [consumed, h.split, List.length_append, Nat.add_sub_cancel, List.take_left]
  obtain ⟨l, b, hl⟩ := (List.eq_nil_or_concat line).resolve_left h.line_ne
  rw [List.concat_eq_append] at hl
  have hone := h.one_line
  rw [hl, List.dropLast_concat] at hone
  have hall : ∀ c ∈ l, (c != lf) = true := by
    intro c hc
    rw [bne_iff_ne]
    rintro rfl
    exact hone hc
  have htake : (before ++ l).rtakeWhile (fun c => c != lf) = l := by
    rw [List.rtakeWhile, List.reverse_append, List.takeWhile_append_of_pos (by simpa using hall)]
    rcases h.starts with rfl | hb
    · simp
    · rw [← List.head?_reverse] at hb
      cases hrev : before.reverse with
      | nil => simp
      | cons c more =>
          rw [hrev] at hb
          cases hb
          simp
  rw [Selfhost.Mail.lastLine, hconsumed, hl, ← List.append_assoc, List.dropLast_concat, List.getLast?_concat, htake]
  rfl

/-! ## Statuses -/

theorem toNat_le_of_isDigit {c : Char} (h : c.isDigit = true) : c.toNat ≤ 57 := by
  simp only [Char.isDigit, Bool.and_eq_true, decide_eq_true_eq, UInt32.le_iff_toNat_le] at h
  exact h.2

theorem utf8Size_of_isDigit {c : Char} (h : c.isDigit = true) : c.utf8Size = 1 := by
  have hlt : c.toNat < 0x80 := Nat.lt_of_le_of_lt (toNat_le_of_isDigit h) (by decide)
  rw [← String.length_utf8EncodeChar, utf8EncodeChar_ascii hlt]
  rfl

theorem byteLen_digits {s : Str} (h : s.all Char.isDigit = true) : byteLen s = s.length := by
  induction s with
  | nil => rfl
  | cons c s ih =>
      rw [List.all_cons, Bool.and_eq_true] at h
      rw [byteLen_cons, utf8Size_of_isDigit h.1, ih h.2, List.length_cons]
      omega

/-- Three bytes that are a number: three digits, or a plus sign and two. -/
theorem parseU16_three {status : Str} {code : Nat} (h : parseU16 status = some code) (hlen : byteLen status = 3) :
    (∃ a b c, status = [a, b, c] ∧ a.isDigit = true ∧ b.isDigit = true ∧ c.isDigit = true ∧
      code = decimalValue [a, b, c]) ∨
    ∃ a b, status = ['+', a, b] ∧ a.isDigit = true ∧ b.isDigit = true := by
  obtain ⟨digits, hsign, h⟩ : ∃ digits, (status = '+' :: digits ∨ status = digits) ∧
      (if digits = [] ∨ !digits.all Char.isDigit ∨ 65535 < decimalValue digits then none
        else some (decimalValue digits)) = some code := by
    refine ⟨withoutSign status, ?_, h⟩
    unfold withoutSign
    split
    · exact Or.inl rfl
    · exact Or.inr rfl
  split at h
  · cases h
  · rename_i hok
    simp only [not_or, Bool.not_eq_true, Bool.not_eq_false'] at hok
    obtain ⟨-, hdigits, -⟩ := hok
    have hplus : '+'.utf8Size = 1 := rfl
    rcases hsign with rfl | rfl
    · rw [byteLen_cons, hplus, byteLen_digits hdigits] at hlen
      have htwo : digits.length = 2 := by omega
      obtain ⟨a, b, rfl⟩ := List.length_eq_two.mp htwo
      simp only [List.all_cons, List.all_nil, Bool.and_true, Bool.and_eq_true] at hdigits
      exact Or.inr ⟨a, b, rfl, hdigits⟩
    · rw [byteLen_digits hdigits] at hlen
      obtain ⟨a, b, c, rfl⟩ := List.length_eq_three.mp hlen
      simp only [List.all_cons, List.all_nil, Bool.and_true, Bool.and_eq_true] at hdigits
      exact Or.inl ⟨a, b, c, rfl, hdigits.1, hdigits.2.1, hdigits.2.2, (Option.some.inj h).symm⟩

theorem lineSays_none_iff {line : Bytes} : lineSays line = some none ↔ CutsStatus line := by
  unfold lineSays CutsStatus
  rw [Option.map_eq_some_iff]
  refine exists_congr fun s => and_congr_right fun _ => ?_
  unfold readReplyLine CutInside
  dsimp only
  split
  · rename_i hshort
    simp only [reduceCtorEq, false_iff, not_and]
    omega
  · rename_i hlong
    rw [Option.map_eq_none_iff, splitAtByte_eq_none_iff]
    exact ⟨fun h => ⟨Nat.not_lt.mp hlong, h⟩, fun h => h.2⟩

/-- A text starts with an ASCII character when its bytes do. -/
theorem head?_utf8_iff {s : Str} {a : Char} (ha : a.toNat < 0x80) :
    (utf8 s).head? = some (UInt8.ofNat a.toNat) ↔ s.head? = some a := by
  have hbyte : (UInt8.ofNat a.toNat).toNat = a.toNat := by
    rw [UInt8.toNat_ofNat', Nat.mod_eq_of_lt (by omega)]
  cases s with
  | nil => simp
  | cons c s =>
      rw [utf8_cons, List.head?_cons, Option.some.injEq]
      by_cases hc : c.toNat < 0x80
      · rw [utf8EncodeChar_ascii hc, List.cons_append, List.head?_cons, Option.some.injEq]
        refine ⟨fun h => ?_, fun h => by rw [h]⟩
        have hnat := congrArg UInt8.toNat h
        rw [hbyte, UInt8.toNat_ofNat', Nat.mod_eq_of_lt (by omega)] at hnat
        exact Char.ext (UInt32.toNat_inj.mp hnat)
      · refine ⟨fun h => ?_, fun h => absurd ha (h ▸ hc)⟩
        obtain ⟨d, ds, hd⟩ := List.exists_cons_of_ne_nil (String.utf8EncodeChar_ne_nil (c := c))
        have hmem : UInt8.ofNat a.toNat ∈ String.utf8EncodeChar c := by
          rw [hd, List.cons_append, List.head?_cons] at h
          rw [hd, ← Option.some.inj h]
          exact List.mem_cons_self
        have hle := le_of_mem_utf8EncodeChar (Nat.not_lt.mp hc) hmem
        omega

/-- What a line says, from its status and its text. -/
theorem lineSays_part {line : Bytes} {s status text : Str} {code : Nat} (hs : fromUtf8 line = some s)
    (hcut : trimLineEnd s = status ++ text) (hlen : byteLen status = 3) (hcode : parseU16 status = some code) :
    lineSays line = some (some (.part code (text.dropWhile fun c => c == ' ' || c == '-')
      (decide (text.head? = some '-')))) := by
  have hsplit : splitAtByte 3 (trimLineEnd s) = some (status, text) := splitAtByte_eq_some_iff.mpr ⟨hcut, hlen⟩
  have hlong : ¬ byteLen (trimLineEnd s) < 3 := by
    rw [hcut, byteLen_append]
    omega
  have hdash : (utf8 (trimLineEnd s))[3]? = some 0x2D ↔ text.head? = some '-' := by
    rw [hcut, utf8_append, List.getElem?_append_right (by rw [← byteLen, hlen]), ← byteLen, hlen, Nat.sub_self,
      ← List.head?_eq_getElem?]
    exact @head?_utf8_iff text '-' (by decide)
  rw [lineSays, hs, Option.map_some, readReplyLine]
  simp only [if_neg hlong, hsplit, Option.map_some, hcode, hdash]

theorem status_of_part {line : Bytes} {code : Nat} {text : Str} {continues : Bool}
    (h : lineSays line = some (some (.part code text continues))) :
    ∃ s status more, fromUtf8 line = some s ∧ trimLineEnd s = status ++ more ∧ byteLen status = 3 ∧
      parseU16 status = some code := by
  unfold lineSays at h
  obtain ⟨s, hs, hline⟩ := Option.map_eq_some_iff.mp h
  unfold readReplyLine at hline
  dsimp only at hline
  split at hline
  · cases hline
  · obtain ⟨⟨status, more⟩, hsplit, hpart⟩ := Option.map_eq_some_iff.mp hline
    obtain ⟨hcut, hlen⟩ := splitAtByte_eq_some_iff.mp hsplit
    dsimp only at hpart
    split at hpart
    · cases hpart
    · rename_i hcode
      cases hpart
      exact ⟨s, status, more, hs, hcut, hlen, hcode⟩

theorem threeDigits_of_part {line : Bytes} {code : Nat} {text : Str}
    (h : lineSays line = some (some (.part code text false))) (hsigned : ¬ SignedStatus line) :
    ThreeDigits line code := by
  obtain ⟨s, status, more, hs, hcut, hlen, hcode⟩ := status_of_part h
  rcases parseU16_three hcode hlen with ⟨a, b, c, rfl, ha, hb, hc, hvalue⟩ | ⟨a, b, rfl, ha, hb⟩
  · exact ⟨s, a, b, c, more, hs, hcut, ha, hb, hc, hvalue⟩
  · refine absurd ⟨s, a, b, more, hs, hcut, ha, hb, fun hdash => ?_⟩ hsigned
    have hmeans := lineSays_part hs hcut hlen hcode
    rw [h, decide_eq_true hdash] at hmeans
    cases hmeans

theorem SignedStatus.part {line : Bytes} (h : SignedStatus line) :
    ∃ code text, lineSays line = some (some (.part code text false)) := by
  obtain ⟨s, a, b, text, hs, hcut, ha, hb, hdash⟩ := h
  have hdigits : [a, b].all Char.isDigit = true := by simp [ha, hb]
  have hlen : byteLen ['+', a, b] = 3 := by
    rw [byteLen_cons, byteLen_digits hdigits]
    rfl
  have hsmall : ¬ 65535 < decimalValue [a, b] := by
    have hvalue : decimalValue [a, b] = 10 * (10 * 0 + (a.toNat - '0'.toNat)) + (b.toNat - '0'.toNat) := rfl
    have := toNat_le_of_isDigit ha
    have := toNat_le_of_isDigit hb
    omega
  have hcode : parseU16 ['+', a, b] = some (decimalValue [a, b]) := by
    show (if [a, b] = [] ∨ !([a, b].all Char.isDigit) ∨ 65535 < decimalValue [a, b] then none
      else some (decimalValue [a, b])) = _
    rw [if_neg (by simp [hdigits, hsmall])]
  have hmeans := lineSays_part hs hcut hlen hcode
  rw [decide_eq_false hdash] at hmeans
  exact ⟨_, _, hmeans⟩

theorem not_threeDigits_of_signed {line : Bytes} {code : Nat} (h : SignedStatus line) : ¬ ThreeDigits line code := by
  rintro ⟨s, a, b, c, text, hs, hcut, ha, -⟩
  obtain ⟨s', a', b', text', hs', hcut', -⟩ := h
  rw [hs] at hs'
  cases hs'
  rw [hcut] at hcut'
  cases hcut'
  exact absurd ha (by decide)

theorem ReplyReaches.unique {ending : StreamEnd} {x l l' : Bytes} (h : ReplyReaches ending x l)
    (h' : ReplyReaches ending x l') (hl : ¬ Continues l) (hl' : ¬ Continues l') : l = l' := by
  induction h with
  | first hnext =>
      cases h' with
      | first hnext' => rw [hnext] at hnext'; cases hnext'; rfl
      | later hnext' hc => rw [hnext] at hnext'; cases hnext'; exact absurd hc hl
  | later hnext hc _ ih =>
      cases h' with
      | first hnext' => rw [hnext] at hnext'; cases hnext'; exact absurd hc hl'
      | later hnext' _ h' => rw [hnext] at hnext'; cases hnext'; exact ih h' hl

theorem not_continues_of_line {line : Bytes} {said : Option ReplyLine} (h : lineSays line = some said)
    (hstop : ∀ code text, said ≠ some (.part code text true)) : ¬ Continues line := by
  rintro ⟨code, text, hc⟩
  rw [h] at hc
  exact hstop code text (Option.some.inj hc)

/-- The reader is safe exactly on the streams whose statuses are whole and without a sign. -/
theorem readsReply_iff (i : Inbox) : ReadsReply i ↔ StatusesWhole i := by
  unfold ReadsReply readReply StatusesWhole
  obtain ⟨⟨e, he⟩, hall⟩ | ⟨hnone, line, hline, hmeans⟩ | ⟨reply, i', before, line, text, hok, hline, hmeans, hat⟩ :=
    readReplyFrom_cases [] i
  · rw [he]
    refine ⟨fun _ line hline => ?_, fun _ => trivial⟩
    have hsaid : ∀ said, lineSays line = some said → (said = none ∨ ∃ code text, said = some (.part code text false)) →
        False := by
      rintro said hsaid hstop
      rcases hall line hline with ⟨code, text, hc⟩ | hc | ⟨e, hc⟩
      · rw [hsaid] at hc
        rcases hstop with rfl | ⟨code', text', rfl⟩ <;> cases hc
      · rw [hsaid] at hc
        cases hc
      · rw [hsaid] at hc
        rcases hstop with rfl | ⟨code', text', rfl⟩ <;> cases hc
    refine ⟨fun hcuts => hsaid _ (lineSays_none_iff.mpr hcuts) (Or.inl rfl), fun hsigned => ?_⟩
    obtain ⟨code, text, hpart⟩ := hsigned.part
    exact hsaid _ hpart (Or.inr ⟨code, text, rfl⟩)
  · rw [hnone]
    exact ⟨False.elim, fun h => (h line hline).1 (lineSays_none_iff.mp hmeans)⟩
  · rw [hok]
    dsimp only
    rw [hat.lastLine]
    have hstop : ¬ Continues line := not_continues_of_line hmeans (by simp)
    refine ⟨fun hdigits l hl => ⟨fun hcuts => ?_, fun hsigned => ?_⟩, fun h => ?_⟩
    · have hcut := lineSays_none_iff.mpr hcuts
      rw [hl.unique hline (not_continues_of_line hcut (by simp)) hstop, hmeans] at hcut
      cases hcut
    · obtain ⟨code, text', hpart⟩ := hsigned.part
      rw [hl.unique hline (not_continues_of_line hpart (by simp)) hstop] at hsigned
      exact not_threeDigits_of_signed hsigned hdigits
    · exact threeDigits_of_part hmeans (h line hline).2

/-! ## Conversations -/

/-- A client as its builders make it. -/
def SmtpClient.built (helo mailFrom : Str) (recipients : List Str) (starttls : Bool) (auth : Option (Str × Str)) :
    SmtpClient :=
  let c := if starttls then (SmtpClient.new helo mailFrom recipients).withStarttls else .new helo mailFrom recipients
  match auth with
  | some (username, password) => c.withRelayAuth username password
  | none => c

theorem fresh_built (helo mailFrom : Str) (recipients : List Str) (starttls : Bool) (auth : Option (Str × Str)) :
    (SmtpClient.built helo mailFrom recipients starttls auth).Fresh := by
  cases starttls <;> cases auth <;> exact ⟨rfl, rfl, rfl, rfl⟩

/-- What a server can never bring the client to break. -/
structure TalkSafe (body : Bytes) (recipients : List Str) (log : List Exchange) (result : TalkEnd) : Prop where
  auth_after_upgrade : ∀ before e after, log = before ++ e :: after → e.said.isAuth = true →
    ∃ u ∈ before, u.said.isUpgrade = true
  one_rcpt_each : asked log <+: recipients
  body_after_354 : ∀ before b answer after, log = before ++ ⟨.body b, answer⟩ :: after →
    b = frameBody body ∧ acceptedOf (answered before) ≠ [] ∧
      ∃ earlier reply, before = earlier ++ [⟨.line "DATA".toList, some reply⟩] ∧ reply.code = 354
  verdicts : ∀ d, result = .finished d → (answered log).map Prod.fst = recipients ∧
    d.accepted = acceptedOf (answered log) ∧ d.rejected = rejectedOf (answered log) ∧
    (d.accepted ++ d.rejected.map Prod.fst).Perm recipients
  finished_after_2xx : ∀ d, result = .finished d → ∃ before reply after,
    log = before ++ ⟨.body (frameBody body), some reply⟩ :: after ∧ reply.isPositive = true
  returns : result ≠ .unfinished

theorem TalkOk.safe {σ : Type} {k : Link σ} {body : Bytes} {recipients : List Str} {log : List Exchange}
    {result : TalkEnd} (h : TalkOk k body recipients log result) : TalkSafe body recipients log result where
  auth_after_upgrade before e after hlog := (h.recorded.proper before e after hlog).auth
  one_rcpt_each := h.recorded.in_order
  body_after_354 before b answer after hlog := (h.recorded.proper before _ after hlog).body_sent b rfl
  verdicts d hd := by
    have hcomplete := h.finished d hd
    refine ⟨hcomplete.all_answered, hcomplete.accepted, hcomplete.rejected, ?_⟩
    rw [hcomplete.accepted, hcomplete.rejected, ← hcomplete.all_answered]
    exact perm_acceptedOf _
  finished_after_2xx d hd := by
    obtain ⟨before, reply, after, hlog, hpos, -⟩ := (h.finished d hd).body_accepted
    exact ⟨before, reply, after, hlog, hpos⟩
  returns := h.ends

/-- Both drivers keep the client safe on a socket. -/
def TalksSafely (s : Socket) (client : SmtpClient) (body : Bytes) (tls : Bool) : Prop :=
  TalkSafe body client.recipients (deliverToHost socket client body tls s).1 (deliverToHost socket client body tls s).2 ∧
    TalkSafe body client.recipients (runClient socket client body s).1 (runClient socket client body s).2

/-- A stream does no harm exactly when every line of a reply that is reached has its status in three whole bytes
without a sign; what the client says is safe on every stream. -/
theorem exchanger_harmless_iff (i : Inbox) (s : Socket) (helo mailFrom : Str) (recipients : List Str)
    (starttls tls : Bool) (auth : Option (Str × Str)) (body : Bytes) :
    (ReadsReply i ∧ TalksSafely s (.built helo mailFrom recipients starttls auth) body tls ∧
      ∀ n, terminator <+: (frameBody body).drop n ↔ n + terminator.length = (frameBody body).length) ↔
    StatusesWhole i := by
  have hsafe : ∀ k : Link Socket, TalkSafe body (SmtpClient.built helo mailFrom recipients starttls auth).recipients
      (talk k (SmtpClient.built helo mailFrom recipients starttls auth) body s).1
      (talk k (SmtpClient.built helo mailFrom recipients starttls auth) body s).2 :=
    fun k => (talkOk_talk k body s (fresh_built helo mailFrom recipients starttls auth)).safe
  rw [readsReply_iff]
  exact ⟨fun h => h.1, fun h => ⟨h, ⟨hsafe _, hsafe _⟩, terminator_frameBody body⟩⟩

/-- A greeting whose third byte is inside a character. -/
def crashGreeting : Inbox := ⟨utf8 "2€\r\n".toList, [], .closed⟩

/-- A greeting with a sign in its status. -/
def signedGreeting : Inbox := ⟨utf8 "+22 mx\r\n".toList, [], .closed⟩

/-- One line of the server crashes the sender; another gives a status that is not three digits. -/
theorem exchanger_crashes :
    ¬ ReadsReply crashGreeting ∧
      (deliverToHost socket (.new "h".toList "<a@b.c>".toList ["u@d.e".toList]) [] false
        ⟨crashGreeting, .error (.io .failed), 9⟩).2 = .panicked ∧
      ¬ ReadsReply signedGreeting := by
  refine ⟨?_, by decide +kernel, ?_⟩
  · have hnone : readReply crashGreeting = none := by decide +kernel
    rw [ReadsReply, hnone]
    exact id
  · rw [readsReply_iff]
    intro h
    have hline : nextLine .closed signedGreeting.rest = some (utf8 "+22 mx\r\n".toList, []) := by decide +kernel
    exact (h _ (.first hline)).2 ⟨"+22 mx\r\n".toList, '2', '2', " mx".toList, fromUtf8_utf8 _, by decide +kernel,
      rfl, rfl, by decide⟩

end Selfhost.Mail
