import Selfhost.ConfigFile.Edit
import Selfhost.Lib.Toml

/-!
# The lines of a text and of a block behind it
-/

namespace Selfhost.ConfigFile

open Selfhost.Lib Selfhost.Lib.Toml

/-! ## The crate -/

def IsBare (key : Str) : Prop := key ≠ [] ∧ ∀ c ∈ key, c.isAlphanum = true ∨ c = '_'

instance : DecidablePred IsBare := fun key =>
  inferInstanceAs (Decidable (key ≠ [] ∧ ∀ c ∈ key, c.isAlphanum = true ∨ c = '_'))

/-- A text is one expression, and none before its end. -/
def Reads (T : Crate) (text : Str) (e : Expr) : Prop := Whole T.toGrammar ⟨text.splitOn '\n', e⟩

/-- No expression starts with a line. -/
def Refused (T : Crate) (line : Str) : Prop := '\n' ∉ line ∧ ∀ more, T.expr (joined (line :: more)) = none

def dotted (path : List Str) : Str := ['.'].intercalate path

/-- The documented behaviour of the crate: it puts a document together from its expressions, and what it makes of empty
lines, of plain headers, and of a bare key with a quoted string, a list of them, a truth value or a number in digits. -/
structure Lawful (T : Crate) : Prop where
  assembles : Assembles T.toReader
  blank : T.expr [] = some .blank
  unended : ∀ text, T.expr (text ++ ['\n']) = none
  string : ∀ key s, IsBare key → Reads T (assignment key (T.quote s)) (.keyval [] key (.string s))
  strings : ∀ key l, IsBare key →
    Reads T (assignment key (quoteArray T l)) (.keyval [] key (.array (l.map .string)))
  truth : ∀ key, IsBare key → Reads T (assignment key "true".toList) (.keyval [] key (.boolean true))
  falsehood : ∀ key, IsBare key → Reads T (assignment key "false".toList) (.keyval [] key (.boolean false))
  number : ∀ key n, IsBare key → n < 2 ^ 63 → Reads T (assignment key (natText n)) (.keyval [] key (.integer n))
  large : ∀ key n, IsBare key → 2 ^ 63 ≤ n → Refused T (assignment key (natText n))
  header : ∀ path name, (∀ key ∈ path ++ [name], IsBare key) →
    Reads T ('[' :: (dotted (path ++ [name]) ++ [']'])) (.header path name)
  arrayHeader : ∀ path name, (∀ key ∈ path ++ [name], IsBare key) →
    Reads T ('[' :: '[' :: (dotted (path ++ [name]) ++ [']', ']'])) (.arrayHeader path name)

/-- What may stand on the lines of a block: an expression, or a number that is too large. -/
def Renders (T : Crate) (text : Str) (e : Expr) : Prop := Reads T text e ∨ Refused T text

theorem Lawful.number_renders {T : Crate} (h : Lawful T) {key : Str} (hkey : IsBare key) (n : Nat) :
    Renders T (assignment key (natText n)) (.keyval [] key (.integer n)) := by
  by_cases hn : n < 2 ^ 63
  · exact .inl (h.number key n hkey hn)
  · exact .inr (h.large key n hkey (by omega))

theorem Lawful.blank_reads {T : Crate} (h : Lawful T) : Reads T [] .blank := by
  refine ⟨by simp, h.blank, ?_⟩
  intro init rest hsplit hinit hrest
  have hlength := congrArg List.length hsplit
  have hi := List.length_pos_iff.mpr hinit
  have hr := List.length_pos_iff.mpr hrest
  simp only [List.splitOn_nil, List.length_singleton, List.length_append] at hlength
  omega

/-! ## Splitting texts -/

theorem splitOn_append_newline (a b : Str) : (a ++ '\n' :: b).splitOn '\n' = a.splitOn '\n' ++ b.splitOn '\n' := by
  induction a with
  | nil => simp [List.splitOn_cons_eq_if_modifyHead]
  | cons c a ih =>
      rw [List.cons_append, List.splitOn_cons_eq_if_modifyHead, List.splitOn_cons_eq_if_modifyHead, ih]
      split
      · rfl
      · cases hs : a.splitOn '\n' with
        | nil => exact absurd hs (List.splitOn_ne_nil '\n' a)
        | cons first rest => rfl

theorem blockText_splitOn (lines : List Str) :
    (blockText lines).splitOn '\n' = lines.flatMap (fun line => line.splitOn '\n') ++ [[]] := by
  induction lines with
  | nil => simp [blockText]
  | cons line lines ih =>
      have hcons : blockText (line :: lines) = line ++ '\n' :: blockText lines := by simp [blockText]
      rw [hcons, splitOn_append_newline, ih, List.flatMap_cons, List.append_assoc]

theorem joined_cons (line : Str) {lines : List Str} (h : lines ≠ []) :
    joined (line :: lines) = line ++ '\n' :: joined lines := by
  cases lines with
  | nil => exact absurd rfl h
  | cons next lines => simp [joined, List.intercalate_cons_cons]

theorem joined_append {a b : List Str} (ha : a ≠ []) (hb : b ≠ []) :
    joined (a ++ b) = joined a ++ '\n' :: joined b := by
  induction a with
  | nil => exact absurd rfl ha
  | cons line a ih =>
      cases a with
      | nil => simpa [joined] using joined_cons line hb
      | cons next a =>
          rw [List.cons_append, joined_cons line (by simp), ih (by simp), joined_cons line (by simp)]
          simp

/-! ## The lines of a block -/

theorem chunksFrom_refused {T : Crate} {line : Str} (h : Refused T line) (rest : List Str) :
    ∀ more, chunksFrom T.toGrammar (line :: more) rest = none := by
  induction rest with
  | nil => exact fun _ => rfl
  | cons next rest ih =>
      intro more
      have hnone : T.expr (joined (line :: more ++ [next])) = none := h.2 (more ++ [next])
      rw [chunksFrom_cons, hnone]
      exact ih (more ++ [next])

/-- A block that is read has the expressions that its lines render. -/
theorem chunksFrom_rendered {T : Crate} {lines : List Str} {es : List Expr} (h : List.Forall₂ (Renders T) lines es)
    {rest : List Str} {cs : List Chunk}
    (hcs : chunksFrom T.toGrammar [] (lines.flatMap (fun line => line.splitOn '\n') ++ rest) = some cs) :
    ∃ tail, chunksFrom T.toGrammar [] rest = some tail ∧ cs.map Chunk.expr = es ++ tail.map Chunk.expr := by
  induction h generalizing cs with
  | nil => exact ⟨cs, hcs, rfl⟩
  | @cons line e lines es hline _ ih =>
      rw [List.flatMap_cons, List.append_assoc] at hcs
      rcases hline with hreads | hrefused
      · rw [chunksFrom_whole hreads] at hcs
        obtain ⟨more, hmore, rfl⟩ := Option.map_eq_some_iff.mp hcs
        obtain ⟨tail, htail, heq⟩ := ih hmore
        exact ⟨tail, htail, by rw [List.map_cons, heq]; rfl⟩
      · have hnone : T.expr (joined ([] ++ [line])) = none := hrefused.2 []
        rw [List.splitOn_eq_singleton hrefused.1, List.singleton_append, chunksFrom_cons, hnone,
          List.nil_append, chunksFrom_refused hrefused] at hcs
        cases hcs

/-! ## A block behind a source -/

/-- The root of a document does not depend on the blank lines at its end. -/
theorem build_append_blank (es : List Expr) : build (es ++ [.blank]) = build es := by
  rw [build, run_append]
  rfl

theorem chunksFrom_concat {T : Crate} (hT : Lawful T) {ls : List Str} {cs : List Chunk}
    (h : chunksFrom T.toGrammar [] (ls ++ [[]]) = some cs) :
    ∃ cs', chunksFrom T.toGrammar [] ls = some cs' ∧ cs.map Chunk.expr = cs'.map Chunk.expr ++ [.blank] := by
  obtain ⟨hlines, hwhole⟩ := chunksFrom_iff.mp h
  obtain rfl | ⟨cs', c, rfl⟩ := List.eq_nil_or_concat' cs
  · simp at hlines
  · have hc := hwhole c (by simp)
    obtain ⟨init, last, hinit⟩ := (List.eq_nil_or_concat' c.lines).resolve_left hc.nonempty
    rw [List.flatMap_append, List.flatMap_singleton, hinit, ← List.append_assoc] at hlines
    obtain ⟨hls, hlast⟩ := List.append_inj' hlines rfl
    have hlast : last = [] := by simpa using hlast
    rw [hlast] at hinit
    by_cases hnil : init = []
    · subst hnil
      have hexpr : c.expr = .blank := by
        have hcomplete := hc.complete
        rw [hinit] at hcomplete
        exact Option.some.inj (hcomplete.symm.trans hT.blank)
      refine ⟨cs', chunksFrom_iff.mpr ⟨by simpa using hls, fun d hd => hwhole d (by simp [hd])⟩, ?_⟩
      rw [List.map_append, List.map_singleton, hexpr]
    · -- an expression does not end with a newline
      have hcomplete := hc.complete
      have hjoined : joined c.lines = joined init ++ ['\n'] := by
        rw [hinit, joined_append hnil (by simp)]
        rfl
      rw [hjoined, hT.unended] at hcomplete
      cases hcomplete

theorem splitOn_of_getLast {source : Str} (h : source.getLast? = some '\n') :
    ∃ init, source = init ++ ['\n'] ∧ source.splitOn '\n' = init.splitOn '\n' ++ [[]] := by
  obtain ⟨init, hinit⟩ := List.getLast?_eq_some_iff.mp h
  refine ⟨init, hinit, ?_⟩
  rw [hinit, splitOn_append_newline]
  rfl

/-- The lines of a text with a block behind it. -/
theorem appended_splitOn (source : Str) (lines : List Str) :
    ∃ ls, (appended source (blockText lines)).splitOn '\n'
        = ls ++ (lines.flatMap (fun line => line.splitOn '\n') ++ [[]]) ∧
      (ls = source.splitOn '\n' ∨ ls = source.splitOn '\n' ++ [[]] ∨ source.splitOn '\n' = ls ++ [[]]) := by
  unfold appended
  dsimp only
  by_cases hlast : source.getLast? = some '\n'
  · obtain ⟨init, hinit, hsplit⟩ := splitOn_of_getLast hlast
    rw [if_pos hlast]
    split
    · refine ⟨init.splitOn '\n', ?_, .inr (.inr hsplit)⟩
      rw [hinit, List.append_assoc, List.singleton_append, splitOn_append_newline, blockText_splitOn]
    · refine ⟨source.splitOn '\n', ?_, .inl rfl⟩
      rw [List.append_assoc, List.singleton_append, splitOn_append_newline, blockText_splitOn]
  · rw [if_neg hlast]
    split
    · refine ⟨source.splitOn '\n', ?_, .inl rfl⟩
      rw [List.append_assoc, List.singleton_append, splitOn_append_newline, blockText_splitOn]
    · refine ⟨source.splitOn '\n' ++ [[]], ?_, .inr (.inl rfl)⟩
      rw [List.append_assoc, List.append_assoc, List.singleton_append, List.singleton_append, splitOn_append_newline,
        ← List.nil_append ('\n' :: blockText lines), splitOn_append_newline, blockText_splitOn, List.append_assoc]
      rfl

/-- A document with a block behind it: the source, the block, and blank lines. -/
theorem parse_appended {T : Crate} (hT : Lawful T) {source : Str} {lines : List Str} {es : List Expr}
    (hlines : List.Forall₂ (Renders T) lines es) {root root' : Table} (hsource : T.parse source = some root)
    (htext : T.parse (appended source (blockText lines)) = some root') :
    ∃ s : State, s.root = root ∧ root' = (run es s).root := by
  rw [hT.assembles] at hsource htext
  unfold assembled at hsource htext
  obtain ⟨cs, hcs, hroot⟩ := Option.bind_eq_some_iff.mp hsource
  obtain ⟨cs', hcs', hroot'⟩ := Option.bind_eq_some_iff.mp htext
  have hbuild : build (cs.map Chunk.expr) = root := by
    split at hroot
    · exact Option.some.inj hroot
    · cases hroot
  have hbuild' : build (cs'.map Chunk.expr) = root' := by
    split at hroot'
    · exact Option.some.inj hroot'
    · cases hroot'
  unfold chunks at hcs hcs'
  obtain ⟨ls, hsplit, hls⟩ := appended_splitOn source lines
  rw [hsplit] at hcs'
  -- the expressions of the first lines are those of the source, up to a blank at the end
  have hfirst : ∃ first, chunksFrom T.toGrammar [] ls = some first ∧ build (first.map Chunk.expr) = root := by
    rcases hls with h | h | h
    · exact ⟨cs, by rw [h, hcs], hbuild⟩
    · refine ⟨cs ++ [⟨[[]], .blank⟩], ?_, ?_⟩
      · obtain ⟨hflat, hwhole⟩ := chunksFrom_iff.mp hcs
        refine chunksFrom_iff.mpr ⟨by simp [hflat, h], ?_⟩
        intro c hc
        rcases List.mem_append.mp hc with hc | hc
        · exact hwhole c hc
        · rw [List.mem_singleton.mp hc]
          exact hT.blank_reads
      · rw [List.map_append]
        exact (build_append_blank _).trans hbuild
    · rw [h] at hcs
      obtain ⟨first, hfirst, heq⟩ := chunksFrom_concat hT hcs
      exact ⟨first, hfirst, by rw [← hbuild, heq, build_append_blank]⟩
  obtain ⟨first, hfirst, hroot⟩ := hfirst
  obtain ⟨hflat, hwhole⟩ := chunksFrom_iff.mp hfirst
  rw [← hflat, chunksFrom_wholes hwhole] at hcs'
  obtain ⟨more, hmore, rfl⟩ := Option.map_eq_some_iff.mp hcs'
  obtain ⟨tail, htail, heq⟩ := chunksFrom_rendered hlines hmore
  have hblank : tail.map Chunk.expr = [.blank] := by
    have hone := chunksFrom_whole hT.blank_reads ([] : List Str)
    have hlast : chunksFrom T.toGrammar [] [[]] = some [⟨[[]], .blank⟩] := hone
    rw [hlast] at htail
    cases htail
    rfl
  refine ⟨run (first.map Chunk.expr) ⟨[], []⟩, hroot, ?_⟩
  rw [← hbuild', List.map_append, heq, hblank, ← List.append_assoc, build_append_blank, build, run_append]

end Selfhost.ConfigFile
