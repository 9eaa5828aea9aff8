import Selfhost.Mail.Mime

/-!
# The ranges of a MIME tree

The ranges between delimiter lines are in order as long as no delimiter line stands directly behind another that
is open, and a delimiter that does gives an inverted range.
-/

namespace Selfhost.Mail

open Selfhost.Lib

/-! ## Lines -/

/-- Lines that are not empty, of which all but the last end with LF. -/
def Ended : List Bytes → Prop
  | [] => True
  | line :: rest => line ≠ [] ∧ (rest ≠ [] → [lf] <:+ line) ∧ Ended rest

theorem flatten_linesOf (x : Bytes) : (linesOf x).flatten = x := by
  fun_induction linesOf x with
  | case1 => rfl
  | case2 rest ih => simp [ih]
  | case3 b rest _ hlines ih =>
      rw [hlines] at ih
      simp [← ih]
  | case4 b rest _ line lines hlines ih =>
      rw [hlines] at ih
      simp [← ih]

theorem ended_linesOf (x : Bytes) : Ended (linesOf x) := by
  fun_induction linesOf x with
  | case1 => exact trivial
  | case2 rest ih => exact ⟨by simp, fun _ => ⟨[], rfl⟩, ih⟩
  | case3 b rest _ hlines ih => exact ⟨by simp, fun h => absurd rfl h, trivial⟩
  | case4 b rest _ line lines hlines ih =>
      rw [hlines] at ih
      exact ⟨by simp, fun h => (ih.2.1 h).trans (List.suffix_cons _ _), ih.2.2⟩

/-! ## Delimiters -/

/-- A delimiter line stands directly behind a delimiter line that does not close the multipart. What follows the
closing line does not count. -/
def Adjacent (delimiter : Bytes) : Bool → List Bytes → Prop
  | _, [] => False
  | behind, line :: rest =>
      if isDelimiter delimiter line then
        behind = true ∨ (isClosing delimiter line = false ∧ Adjacent delimiter true rest)
      else Adjacent delimiter false rest

/-- Ranges from `lo` up to `hi` that follow each other. -/
structure Ordered (lo hi : Nat) (ranges : List Range) : Prop where
  inside : ∀ c ∈ ranges, lo ≤ c.start ∧ c.start ≤ c.stop ∧ c.stop ≤ hi
  disjoint : ranges.Pairwise fun a b => a.stop ≤ b.start

theorem Ordered.nil {lo hi : Nat} : Ordered lo hi [] := ⟨fun _ hc => (nomatch hc), .nil⟩

theorem Ordered.cons {lo mid hi : Nat} {c : Range} {ranges : List Range} (h : Ordered mid hi ranges)
    (hlo : lo ≤ c.start) (hc : c.start ≤ c.stop) (hmid : c.stop ≤ mid) (hhi : mid ≤ hi) :
    Ordered lo hi (c :: ranges) := by
  refine ⟨fun d hd => ?_, .cons (fun d hd => Nat.le_trans hmid (h.inside d hd).1) h.disjoint⟩
  rcases List.mem_cons.mp hd with rfl | hd
  · exact ⟨hlo, hc, Nat.le_trans hmid hhi⟩
  · obtain ⟨hstart, hstop⟩ := h.inside d hd
    exact ⟨by omega, hstop⟩

theorem Ordered.mono {lo lo' hi : Nat} {ranges : List Range} (h : Ordered lo hi ranges) (hlo : lo' ≤ lo) :
    Ordered lo' hi ranges :=
  ⟨fun c hc => ⟨Nat.le_trans hlo (h.inside c hc).1, (h.inside c hc).2⟩, h.disjoint⟩

/-- A part is open from `s` on and the line before `pos` has an end. -/
structure OpenAt (raw : Bytes) (s pos : Nat) : Prop where
  le : s ≤ pos
  positive : 0 < s
  behind : raw[s - 1]? = some lf
  ended : raw[pos - 1]? = some lf

theorem lineStart_inverted {raw : Bytes} {pos : Nat} (h : OpenAt raw pos pos) : lineStartBeforeCrlf raw pos < pos := by
  have := h.positive
  unfold lineStartBeforeCrlf
  split
  · omega
  · rw [if_pos ⟨this, h.ended⟩]
    omega

theorem lineStart_inside {raw : Bytes} {s pos : Nat} (h : OpenAt raw s pos) (hlt : s < pos) :
    s ≤ lineStartBeforeCrlf raw pos ∧ lineStartBeforeCrlf raw pos ≤ pos := by
  unfold lineStartBeforeCrlf
  split
  · rename_i hcr
    -- An LF alone behind the delimiter line has the LF of that line before it, not a CR.
    have hne : s ≠ pos - 1 := by
      rintro rfl
      have hbehind := h.behind
      rw [Nat.sub_sub, hcr.2.1] at hbehind
      exact absurd (Option.some.inj hbehind) (by decide)
    omega
  · split <;> omega

section Loop

variable {raw delimiter : Bytes}

/-- What is open is in order, when there are lines left. -/
def Opened (raw : Bytes) (lines : List Bytes) (pos : Nat) (start : Option Nat) : Prop :=
  ∀ s, start = some s → s ≤ pos ∧ (lines ≠ [] → OpenAt raw s pos)

theorem getElem?_line_end {before line rest : Bytes} (h : [lf] <:+ line) :
    (before ++ (line ++ rest))[before.length + line.length - 1]? = some lf := by
  obtain ⟨l, rfl⟩ := h
  have hindex : before.length + (l ++ [lf]).length - 1 = before.length + l.length := by simp
  rw [hindex, List.getElem?_append_right (by omega)]
  simp

theorem Opened.skip {before line after : Bytes} {rest : List Bytes} {start : Option Nat}
    (hraw : raw = before ++ (line ++ after)) (hended : rest ≠ [] → [lf] <:+ line)
    (h : Opened raw (line :: rest) before.length start) :
    Opened raw rest (before.length + line.length) start := by
  intro s hs
  obtain ⟨hle, hopen⟩ := h s hs
  refine ⟨by omega, fun hrest => ?_⟩
  have hat := hopen (by simp)
  exact ⟨by omega, hat.positive, hat.behind, hraw ▸ getElem?_line_end (hended hrest)⟩

theorem Opened.fresh {before line after : Bytes} {rest : List Bytes} (hraw : raw = before ++ (line ++ after))
    (hne : line ≠ []) (hended : rest ≠ [] → [lf] <:+ line) :
    Opened raw rest (before.length + line.length) (some (before.length + line.length)) := by
  rintro s ⟨rfl⟩
  have := List.length_pos_iff.mpr hne
  refine ⟨Nat.le_refl _, fun hrest => ?_⟩
  have hat := hraw ▸ @getElem?_line_end before line after (hended hrest)
  exact ⟨Nat.le_refl _, by omega, hat, hat⟩

/-- A delimiter behind an open delimiter gives an inverted range. -/
theorem childLoop_inverted {lines : List Bytes} {before after : Bytes} {start : Option Nat}
    (hraw : raw = before ++ (lines.flatten ++ after)) (hended : Ended lines)
    (hopen : Opened raw lines before.length start)
    (h : Adjacent delimiter (decide (start = some before.length)) lines) :
    ∃ c ∈ childLoop raw delimiter lines before.length start, c.stop < c.start := by
  induction lines generalizing before start with
  | nil => exact h.elim
  | cons line rest ih =>
      obtain ⟨hne, hend, hrest⟩ := hended
      rw [List.flatten_cons, List.append_assoc] at hraw
      have hnext : raw = (before ++ line) ++ (rest.flatten ++ after) := by rw [hraw, List.append_assoc]
      have hlength : (before ++ line).length = before.length + line.length := List.length_append
      have := List.length_pos_iff.mpr hne
      rw [Adjacent] at h
      rw [childLoop]
      split at h
      · rename_i hdelimiter
        rw [if_pos hdelimiter]
        rcases h with hbehind | ⟨hclosing, hadjacent⟩
        · obtain rfl := of_decide_eq_true hbehind
          exact ⟨_, List.mem_append_left _ (List.mem_singleton.mpr rfl),
            lineStart_inverted ((hopen _ rfl).2 (by simp))⟩
        · rw [if_neg (by simp [hclosing])]
          have hfresh := Opened.fresh hraw hne hend
          rw [← hlength] at hfresh ⊢
          obtain ⟨c, hc, hinverted⟩ := ih hnext hrest hfresh (by rw [decide_eq_true rfl]; exact hadjacent)
          exact ⟨c, List.mem_append_right _ hc, hinverted⟩
      · rename_i hdelimiter
        rw [if_neg hdelimiter]
        have hskip := hopen.skip hraw hend
        rw [← hlength] at hskip ⊢
        refine ih hnext hrest hskip ?_
        have hfar : start ≠ some (before ++ line).length := by
          intro hs
          have := (hopen _ hs).1
          omega
        rw [decide_eq_false hfar]
        exact h

/-- Without such a delimiter the ranges are in order. -/
theorem childLoop_ordered {lines : List Bytes} {before after : Bytes} {start : Option Nat}
    (hraw : raw = before ++ (lines.flatten ++ after)) (hended : Ended lines)
    (hopen : Opened raw lines before.length start)
    (h : ¬ Adjacent delimiter (decide (start = some before.length)) lines) :
    Ordered (start.getD before.length) (before.length + lines.flatten.length)
      (childLoop raw delimiter lines before.length start) := by
  induction lines generalizing before start with
  | nil =>
      cases start with
      | none => exact .nil
      | some s => exact Ordered.nil.cons (Nat.le_refl _) (hopen s rfl).1 (Nat.le_refl _) (Nat.le_refl _)
  | cons line rest ih =>
      obtain ⟨hne, hend, hrest⟩ := hended
      rw [List.flatten_cons, List.append_assoc] at hraw
      have hnext : raw = (before ++ line) ++ (rest.flatten ++ after) := by rw [hraw, List.append_assoc]
      have hlength : (before ++ line).length = before.length + line.length := List.length_append
      have := List.length_pos_iff.mpr hne
      have htotal : before.length + ((line :: rest).flatten).length =
          (before ++ line).length + rest.flatten.length := by
        rw [List.flatten_cons, List.length_append, hlength, Nat.add_assoc]
      rw [Adjacent] at h
      rw [childLoop, htotal]
      split at h
      · rename_i hdelimiter
        rw [if_pos hdelimiter]
        obtain ⟨hbehind, hrest'⟩ := not_or.mp h
        have hafter : Ordered (before ++ line).length ((before ++ line).length + rest.flatten.length)
            (if isClosing delimiter line = true then [] else
              childLoop raw delimiter rest (before.length + line.length) (some (before.length + line.length))) := by
          split
          · exact .nil
          · rename_i hclosing
            have hfresh := Opened.fresh hraw hne hend
            rw [← hlength] at hfresh ⊢
            refine ih hnext hrest hfresh ?_
            rw [decide_eq_true rfl]
            exact fun hadjacent => hrest' ⟨by simpa using hclosing, hadjacent⟩
        cases start with
        | none => exact hafter.mono (by rw [hlength]; exact Nat.le_add_right _ _)
        | some s =>
            have hat := (hopen s rfl).2 (by simp)
            have hlt : s < before.length :=
              Nat.lt_of_le_of_ne hat.le fun hs => hbehind (decide_eq_true (congrArg some hs))
            obtain ⟨hlo, hhi⟩ := lineStart_inside hat hlt
            refine hafter.cons (Nat.le_refl _) hlo ?_ (Nat.le_add_right _ _)
            exact Nat.le_trans hhi (hlength ▸ Nat.le_add_right _ _)
      · rename_i hdelimiter
        rw [if_neg hdelimiter]
        have hskip := hopen.skip hraw hend
        rw [← hlength] at hskip ⊢
        have hfar : start ≠ some (before ++ line).length := by
          intro hs
          have := (hopen _ hs).1
          omega
        refine (ih hnext hrest hskip (by rw [decide_eq_false hfar]; exact h)).mono ?_
        cases start with
        | none =>
            rw [Option.getD_none, Option.getD_none]
            omega
        | some s => exact Nat.le_refl _

end Loop

/-! ## The children of a part -/

theorem slice_eq_some {raw s : Bytes} {r : Range} (h : slice raw r = some s) :
    r.start ≤ r.stop ∧ r.stop ≤ raw.length ∧ s.length = r.len ∧ s = (raw.drop r.start).take r.len := by
  unfold slice at h
  split at h
  · rename_i hr
    cases h
    refine ⟨hr.1, hr.2, ?_, rfl⟩
    rw [List.length_take, List.length_drop, Range.len]
    omega
  · cases h

theorem slice_of_le {raw : Bytes} {r : Range} (h : r.start ≤ r.stop) (hr : r.stop ≤ raw.length) :
    slice raw r = some ((raw.drop r.start).take r.len) := if_pos ⟨h, hr⟩

theorem headerLength_le (s : Bytes) : headerLength s ≤ s.length := by
  unfold headerLength
  split
  · rename_i pos hpos
    obtain ⟨a, b, hs, rfl, -⟩ := findSub_some hpos
    rw [hs]
    simp [crlf]
  · split
    · rename_i pos hpos
      obtain ⟨a, b, hs, rfl, -⟩ := findSub_some hpos
      rw [hs]
      simp
    · exact Nat.le_refl _

/-- A part without a header block has no children. -/
theorem childrenOf_of_headerless {raw s : Bytes} {r : Range} (h : headerLength s = 0) :
    childrenOf raw (infoOf s r) = [] := by
  have hvalue : headerValue [] "Content-Type" = none := by decide +kernel
  have hkind : (infoOf s r).kind = "text".toList := by
    simp only [infoOf, partInfo, h, List.take_zero, hvalue, splitContentType]
  have hmultipart : (infoOf s r).isMultipart = false := by
    rw [PartInfo.isMultipart, hkind]
    decide +kernel
  have hmessage : (infoOf s r).isMessage = false := by
    rw [PartInfo.isMessage, hkind]
    simp only [Bool.and_eq_false_imp]
    exact fun hne => absurd hne (by decide +kernel)
  rw [childrenOf, if_neg (by simp [hmultipart]), if_neg (by simp [hmessage])]

/-- The lines of a multipart have no delimiter directly behind an open delimiter. -/
def Smooth (raw : Bytes) (info : PartInfo) : Prop :=
  ∀ boundary, info.isMultipart = true → boundaryParam info.params = some boundary →
    ¬ Adjacent (delimiterOf boundary) false (linesOf ((raw.drop info.body.start).take info.body.len))

theorem raw_eq_of_body {raw : Bytes} {body : Range} (h : body.start ≤ body.stop) :
    raw = raw.take body.start ++
      ((linesOf ((raw.drop body.start).take body.len)).flatten ++ raw.drop body.stop) := by
  rw [flatten_linesOf]
  have hdrop : raw.drop body.stop = (raw.drop body.start).drop body.len := by
    rw [List.drop_drop, Range.len, Nat.add_sub_cancel' h]
  rw [hdrop, List.take_append_drop, List.take_append_drop]

theorem childRanges_ordered {raw : Bytes} {body : Range} {boundary : Str} (hbody : body.start ≤ body.stop)
    (hstop : body.stop ≤ raw.length)
    (h : ¬ Adjacent (delimiterOf boundary) false (linesOf ((raw.drop body.start).take body.len))) :
    Ordered body.start body.stop (childRanges raw body boundary) := by
  have hlength : (raw.take body.start).length = body.start := List.length_take_of_le (Nat.le_trans hbody hstop)
  have hordered := @childLoop_ordered raw (delimiterOf boundary) _ _ _ none (raw_eq_of_body hbody)
    (ended_linesOf _) (fun _ hs => nomatch hs) h
  rw [hlength, flatten_linesOf, List.length_take, List.length_drop, Range.len] at hordered
  have hend : body.start + min (body.stop - body.start) (raw.length - body.start) = body.stop := by omega
  rw [hend] at hordered
  exact hordered

theorem childRanges_inverted {raw : Bytes} {body : Range} {boundary : Str} (hbody : body.start ≤ body.stop)
    (hstop : body.stop ≤ raw.length)
    (h : Adjacent (delimiterOf boundary) false (linesOf ((raw.drop body.start).take body.len))) :
    ∃ c ∈ childRanges raw body boundary, c.stop < c.start := by
  have hlength : (raw.take body.start).length = body.start := List.length_take_of_le (Nat.le_trans hbody hstop)
  have hinverted := @childLoop_inverted raw (delimiterOf boundary) _ _ _ none (raw_eq_of_body hbody)
    (ended_linesOf _) (fun _ hs => nomatch hs) h
  rw [hlength] at hinverted
  exact hinverted

theorem childrenOf_ordered {raw : Bytes} {info : PartInfo} (hbody : info.body.start ≤ info.body.stop)
    (hstop : info.body.stop ≤ raw.length) (h : Smooth raw info) :
    Ordered info.body.start info.body.stop (childrenOf raw info) := by
  unfold childrenOf
  split
  · rename_i hmultipart
    split
    · rename_i boundary hboundary
      exact childRanges_ordered hbody hstop (h boundary hmultipart hboundary)
    · exact .nil
  · split
    · exact Ordered.nil.cons (Nat.le_refl _) hbody (Nat.le_refl _) (Nat.le_refl _)
    · exact .nil

theorem smooth_of_childrenOf {raw : Bytes} {info : PartInfo} (hbody : info.body.start ≤ info.body.stop)
    (hstop : info.body.stop ≤ raw.length) (h : ∀ c ∈ childrenOf raw info, c.start ≤ c.stop) : Smooth raw info := by
  intro boundary hmultipart hboundary hadjacent
  obtain ⟨c, hc, hinverted⟩ := childRanges_inverted hbody hstop hadjacent
  have hchild : c ∈ childrenOf raw info := by
    rw [childrenOf, if_pos hmultipart, hboundary]
    exact hc
  exact absurd (h c hchild) (Nat.not_le.mpr hinverted)

end Selfhost.Mail
