import Selfhost.Mail.Inbound

/-!
# Recipients, targets and deliveries

Matching addresses resolve alike, the targets of a message are the mailboxes its recipients resolve to, and a
line that the receiver takes for a `RCPT` is no other command that the session accepts.
-/

namespace Selfhost.Mail

open Selfhost.Lib

/-! ## Matching -/

namespace Address

theorem isMatch_iff {a b : Address} :
    a.isMatch b = true ↔ a.domain = b.domain ∧ toAsciiLowercase a.localPart = toAsciiLowercase b.localPart := by
  simp [isMatch, eqIgnoreAsciiCase]

theorem isMatch_refl (a : Address) : a.isMatch a = true := isMatch_iff.mpr ⟨rfl, rfl⟩

theorem isMatch_symm {a b : Address} (h : a.isMatch b = true) : b.isMatch a = true := by
  rw [isMatch_iff] at h ⊢
  exact ⟨h.1.symm, h.2.symm⟩

theorem isMatch_congr {a b : Address} (h : a.isMatch b = true) (c : Address) : c.isMatch a = c.isMatch b := by
  rw [isMatch_iff] at h
  simp only [isMatch, eqIgnoreAsciiCase, h.1, h.2]

end Address

namespace Tables

variable {t : Tables}

theorem resolve_congr {a b : Address} (h : a.isMatch b = true) : t.resolve a = t.resolve b := by
  simp only [resolve, Address.isMatch_congr h]

/-- A target matches a configured mailbox. -/
theorem exists_match_of_resolve {a target : Address} (h : t.resolve a = some target) :
    ∃ known ∈ t.mailboxes, known.isMatch target = true := by
  rcases Option.or_eq_some_iff.mp h with hfound | ⟨-, halias⟩
  · exact ⟨target, List.mem_of_find?_eq_some hfound, target.isMatch_refl⟩
  · obtain ⟨entry, hentry, rfl⟩ := Option.map_eq_some_iff.mp halias
    have hknown := t.targets_known
    simp only [targetsKnown, List.all_eq_true, List.any_eq_true] at hknown
    exact hknown entry (List.mem_of_find?_eq_some hentry)

/-- The mailbox that is written for a target is found again. -/
theorem exists_resolve_of_resolve {a target : Address} (h : t.resolve a = some target) :
    ∃ mailbox, t.resolve target = some mailbox := by
  obtain ⟨known, hknown, hmatch⟩ := exists_match_of_resolve h
  have hsome : (t.mailboxes.find? fun known => known.isMatch target).isSome = true :=
    List.find?_isSome.mpr ⟨known, hknown, hmatch⟩
  obtain ⟨found, hfound⟩ := Option.isSome_iff_exists.mp hsome
  exact ⟨found, by rw [resolve, hfound]; rfl⟩

end Tables

/-- The mailbox that mail for an address is written to. -/
def owner (t : Tables) (a : Address) : Option Address := (t.resolve a).bind t.resolve

theorem owner_congr {t : Tables} {a b : Address} (h : a.isMatch b = true) : owner t a = owner t b := by
  rw [owner, owner, Tables.resolve_congr h]

/-! ## Targets -/

theorem mem_targets {t : Tables} {found rs : List Address} {m : Address} :
    m ∈ targets t found rs ↔ m ∈ found ∨ ∃ a ∈ rs, t.resolve a = some m := by
  induction rs generalizing found with
  | nil => simp [targets]
  | cons a rs ih =>
      rw [targets]
      cases hr : t.resolve a with
      | none =>
          dsimp only
          rw [ih]
          simp [hr]
      | some mailbox =>
          dsimp only
          rw [ih]
          by_cases hm : mailbox ∈ found
          · rw [if_pos hm]
            simp only [List.mem_cons, exists_eq_or_imp, hr, Option.some.injEq]
            constructor
            · rintro (h | h)
              · exact Or.inl h
              · exact Or.inr (Or.inr h)
            · rintro (h | rfl | h)
              · exact Or.inl h
              · exact Or.inl hm
              · exact Or.inr h
          · rw [if_neg hm]
            simp only [List.mem_append, exists_eq_or_imp, List.mem_cons, hr, Option.some.injEq, List.not_mem_nil,
              or_false]
            rw [or_assoc, eq_comm]

theorem nodup_targets {t : Tables} {found rs : List Address} (h : found.Nodup) : (targets t found rs).Nodup := by
  induction rs generalizing found with
  | nil => exact h
  | cons a rs ih =>
      rw [targets]
      cases hr : t.resolve a with
      | none => exact ih h
      | some mailbox =>
          dsimp only
          by_cases hm : mailbox ∈ found
          · rw [if_pos hm]
            exact ih h
          · rw [if_neg hm]
            refine ih (List.nodup_append.mpr ⟨h, List.pairwise_singleton _ _, ?_⟩)
            intro x hx y hy
            rw [List.mem_singleton.mp hy]
            rintro rfl
            exact hm hx

/-! ## Deliveries -/

section Deliveries

variable {t : Tables} {writes : Address → Bool}

/-- A delivery that did not fail wrote every target's mailbox. -/
theorem mem_deliverAll {ts : List Address} (h : (deliverAll t writes ts).2 = true) {m : Address} :
    m ∈ (deliverAll t writes ts).1 ↔ ∃ x ∈ ts, t.resolve x = some m := by
  induction ts with
  | nil => simp [deliverAll]
  | cons x ts ih =>
      rw [deliverAll] at h ⊢
      cases hr : t.resolve x with
      | none =>
          rw [hr] at h
          cases h
      | some mailbox =>
          rw [hr] at h
          dsimp only at h ⊢
          by_cases hw : writes mailbox = true
          · rw [if_pos hw] at h ⊢
            simp only [List.mem_cons, exists_eq_or_imp, hr, Option.some.injEq, ih h]
            rw [eq_comm]
          · rw [if_neg hw] at h
            cases h

theorem nodup_deliverAll {ts : List Address} (hnodup : ts.Nodup)
    (happart : ∀ x ∈ ts, ∀ y ∈ ts, ∀ m, t.resolve x = some m → t.resolve y = some m → x = y)
    (h : (deliverAll t writes ts).2 = true) : (deliverAll t writes ts).1.Nodup := by
  induction ts with
  | nil => simp [deliverAll]
  | cons x ts ih =>
      rw [deliverAll] at h ⊢
      cases hr : t.resolve x with
      | none =>
          rw [hr] at h
          cases h
      | some mailbox =>
          rw [hr] at h
          dsimp only at h ⊢
          by_cases hw : writes mailbox = true
          · rw [if_pos hw] at h ⊢
            obtain ⟨hx, hts⟩ := List.nodup_cons.mp hnodup
            refine List.nodup_cons.mpr ⟨?_, ih hts (fun y hy z hz => ?_) h⟩
            · intro hm
              obtain ⟨y, hy, hry⟩ := (mem_deliverAll h).mp hm
              have hxy := happart x List.mem_cons_self y (List.mem_cons_of_mem _ hy) mailbox hr hry
              exact hx (hxy ▸ hy)
            · exact happart y (List.mem_cons_of_mem _ hy) z (List.mem_cons_of_mem _ hz)
          · rw [if_neg hw] at h
            cases h

/-- A delivery fails at a target whose mailbox is not written. -/
theorem deliverAll_all {ts : List Address} (hfound : ∀ x ∈ ts, ∃ m, t.resolve x = some m)
    (hwrites : ∀ x ∈ ts, ∀ m, t.resolve x = some m → writes m = true) : (deliverAll t writes ts).2 = true := by
  induction ts with
  | nil => rfl
  | cons x ts ih =>
      obtain ⟨m, hm⟩ := hfound x List.mem_cons_self
      rw [deliverAll, hm]
      dsimp only
      rw [if_pos (hwrites x List.mem_cons_self m hm)]
      exact ih (fun y hy => hfound y (List.mem_cons_of_mem _ hy))
        fun y hy => hwrites y (List.mem_cons_of_mem _ hy)

theorem deliverAll_first {x : Address} {ts : List Address} {m : Address} (hm : t.resolve x = some m)
    (hw : writes m = false) : deliverAll t writes (x :: ts) = ([], false) := by
  rw [deliverAll, hm]
  simp [hw]

end Deliveries

/-! ## The lines of `RCPT` -/

/-- The name of a command. -/
def Verb.text : Verb → Str
  | .ehlo => "EHLO".toList
  | .helo => "HELO".toList
  | .mail => "MAIL".toList
  | .rcpt => "RCPT".toList
  | .data => "DATA".toList
  | .rset => "RSET".toList
  | .noop => "NOOP".toList
  | .vrfy => "VRFY".toList
  | .starttls => "STARTTLS".toList
  | .auth => "AUTH".toList
  | .quit => "QUIT".toList
  | .empty => []
  | .other name => name

theorem Verb.text_ite {p : Prop} [Decidable p] {v w : Verb} {name : Str} (hv : p → v.text = name)
    (hw : w.text = name) : (if p then v else w).text = name := by
  by_cases h : p
  · rw [if_pos h]
    exact hv h
  · rw [if_neg h]
    exact hw

theorem Verb.text_parse (name : Str) : (Verb.parse name).text = name := by
  unfold Verb.parse
  iterate 12 refine Verb.text_ite Eq.symm ?_
  rfl

/-- A command line starts with the name of its command, in some case. -/
theorem exists_verb (line : Str) :
    ∃ word rest, line = word ++ rest ∧ toAsciiLowercase word = toAsciiLowercase (splitCommand line).1.text := by
  obtain ⟨tail, hline⟩ := List.rdropWhile_prefix (fun c => c == '\r' || c == '\n') (l := line)
  unfold splitCommand
  dsimp only
  split
  · rename_i verb rest hsplit
    refine ⟨verb, ' ' :: rest ++ tail, ?_, ?_⟩
    · rw [← List.append_assoc, ← (splitOnce_some hsplit).1]
      exact hline.symm
    · dsimp only
      rw [Verb.text_parse, toAsciiLowercase_toAsciiUppercase]
  · refine ⟨trimLineEnd line, tail, hline.symm, ?_⟩
    dsimp only
    rw [Verb.text_parse, toAsciiLowercase_toAsciiUppercase]

/-- A line that is taken for a `RCPT` starts with this word after white space. -/
theorem isRcpt_lower {line : Str} (h : isRcpt line = true) :
    ∃ before rest, toAsciiLowercase line = before ++ "rcpt".toList ++ rest ∧ ∀ c ∈ before, isWhitespace c = true := by
  unfold isRcpt at h
  split at h
  · rename_i head tail hsplit
    have hcut := (splitAtByte_eq_some_iff.mp hsplit).1
    have hhead : toAsciiLowercase head = "rcpt".toList := by
      rw [eqIgnoreAsciiCase, beq_iff_eq] at h
      exact h.trans (by decide)
    refine ⟨line.takeWhile isWhitespace, toAsciiLowercase tail, ?_, fun c hc => List.mem_takeWhile_imp hc⟩
    have hline : line = line.takeWhile isWhitespace ++ (head ++ tail) := by
      rw [← hcut]
      exact (List.takeWhile_append_dropWhile).symm
    have hwhite : (line.takeWhile isWhitespace).map Char.toLower = line.takeWhile isWhitespace := by
      refine (List.map_congr_left fun c hc => ?_).trans (List.map_id _)
      exact toLower_of_isWhitespace (List.mem_takeWhile_imp hc)
    conv_lhs => rw [hline]
    rw [toAsciiLowercase, List.map_append, hwhite, List.map_append, List.append_assoc]
    rw [toAsciiLowercase] at hhead
    rw [hhead]
    rfl
  · cases h

/-- The commands other than `RCPT` that the session answers with 250. -/
def Verb.acceptsOther : Verb → Bool
  | .ehlo => true
  | .helo => true
  | .mail => true
  | .rset => true
  | .noop => true
  | _ => false

/-- A line that is taken for a `RCPT` is none of the other commands that are accepted. -/
theorem acceptsOther_of_isRcpt {line : Str} (h : isRcpt line = true) :
    (splitCommand line).1.acceptsOther = false := by
  obtain ⟨word, rest, hline, hword⟩ := exists_verb line
  obtain ⟨before, tail, hlower, hbefore⟩ := isRcpt_lower h
  have hstart : toAsciiLowercase (splitCommand line).1.text <+: before ++ "rcpt".toList ++ tail := by
    rw [← hlower, ← hword, hline, toAsciiLowercase, toAsciiLowercase, List.map_append]
    exact List.prefix_append _ _
  have hfirst : before = [] ∨ ∃ c more, before = c :: more ∧ isWhitespace c = true := by
    cases before with
    | nil => exact Or.inl rfl
    | cons c more => exact Or.inr ⟨c, more, rfl, hbefore c List.mem_cons_self⟩
  -- The first two letters tell the commands apart.
  have hletters : ∀ a b more, toAsciiLowercase (splitCommand line).1.text = a :: b :: more →
      isWhitespace a = true ∨ (a = 'r' ∧ b = 'c') := by
    intro a b more htext
    rw [htext] at hstart
    rcases hfirst with rfl | ⟨c, rest', rfl, hc⟩
    · obtain ⟨ha, hmore⟩ := List.cons_prefix_cons.mp hstart
      exact Or.inr ⟨ha, (List.cons_prefix_cons.mp hmore).1⟩
    · exact Or.inl ((List.cons_prefix_cons.mp hstart).1 ▸ hc)
  cases hverb : (splitCommand line).1 with
  | ehlo => exact absurd (hletters 'e' 'h' ['l', 'o'] (by rw [hverb]; decide)) (by decide)
  | helo => exact absurd (hletters 'h' 'e' ['l', 'o'] (by rw [hverb]; decide)) (by decide)
  | mail => exact absurd (hletters 'm' 'a' ['i', 'l'] (by rw [hverb]; decide)) (by decide)
  | rset => exact absurd (hletters 'r' 's' ['e', 't'] (by rw [hverb]; decide)) (by decide)
  | noop => exact absurd (hletters 'n' 'o' ['o', 'p'] (by rw [hverb]; decide)) (by decide)
  | _ => rfl

end Selfhost.Mail
