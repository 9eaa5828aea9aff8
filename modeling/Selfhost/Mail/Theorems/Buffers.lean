import Selfhost.Lib.Run
import Selfhost.Mail.Imap
import Selfhost.Mail.Lemmas.Content

/-!
# What a peer makes the server hold

An `APPEND` that is refused still says how many bytes the driver reads into one buffer, and the line of a message
is read without a bound. `buffers_bounded` says that nothing else makes the server hold more than it means to.
-/

namespace Selfhost.Mail

open Selfhost.Lib

/-! ## IMAP -/

namespace ISession

variable {κ α : Type}

/-- What changes a session: a line, the bytes of a message, and the driver's answers. -/
inductive Event (κ : Type) where
  | line (text : Str)
  | octets (message : Bytes)
  | result (state : IState) (core : κ)

def step (c : Commands κ α) (s : ISession κ) : Event κ → Option (ISession κ)
  | .line text => some (s.command c text).1
  | .octets message => some (s.messageOctets (α := α) message).1
  | .result state core => some { s with state, core }

/-- The literal that a line announces. -/
def announced (s : ISession κ) (line : Str) : Option (Str × UInt64 × Bool) :=
  if maxImapLine < byteLen line ∨ s.pendingAuth.isSome then none
  else
    match s.assemble line with
    | .ok logical => splitTrailingLiteral logical
    | .error _ => none

/-- What is pending keeps to the limits. -/
structure Bounded (s : ISession κ) : Prop where
  message : ∀ n, s.awaitingMessage = some n → n ≤ maxAppendBytes
  literal : ∀ p, s.pendingLiteral = some p → byteLen p.assembled + p.expected.toNat ≤ maxImapLine

/-- A line that announces no message over the limit, and no argument whose size wraps. -/
def Modest (s : ISession κ) : Event κ → Prop
  | .line text => ∀ head expected synchronizing, s.announced text = some (head, expected, synchronizing) →
      if (appendArgs head).isSome then expected ≤ maxAppendBytes
      else byteLen head + expected.toNat < 2 ^ 64
  | .octets _ => True
  | .result _ _ => True

theorem parseAppend_expected {state : IState} {head : Str} {expected : UInt64} {pending : PendingAppend}
    (h : parseAppend state head expected = some pending) : pending.expected = expected := by
  obtain ⟨⟨tag, args⟩, -, rfl⟩ := Option.map_eq_some_iff.mp h
  dsimp only
  split
  · rfl
  · split
    · rfl
    · split
      · rfl
      · split
        · rfl
        · split
          · split <;> rfl
          · rfl

theorem isSome_parseAppend (state : IState) (head : Str) (expected : UInt64) :
    (parseAppend state head expected).isSome = (appendArgs head).isSome := Option.isSome_map

theorem literalSum_of_lt {head : Str} {expected : UInt64} (h : byteLen head + expected.toNat < 2 ^ 64) :
    (literalSum head expected).toNat = byteLen head + expected.toNat := by
  rw [literalSum, UInt64.toNat_add, UInt64.toNat_ofNat', Nat.mod_eq_of_lt (a := byteLen head) (by omega),
    Nat.mod_eq_of_lt h]

/-- What a line leaves pending. -/
theorem command_pending (c : Commands κ α) (s : ISession κ) (line : Str) :
    ((s.command c line).1.pendingAppend = s.pendingAppend ∧
      ((s.command c line).1.pendingLiteral = s.pendingLiteral ∨ (s.command c line).1.pendingLiteral = none)) ∨
    ∃ head expected synchronizing, s.announced line = some (head, expected, synchronizing) ∧
      (((appendArgs head).isSome ∧ (s.command c line).1.awaitingMessage = some expected ∧
        (s.command c line).1.pendingLiteral = none) ∨
      ((appendArgs head).isSome = false ∧ (s.command c line).1.pendingAppend = s.pendingAppend ∧
        (literalSum head expected).toNat ≤ maxImapLine ∧
        (s.command c line).1.pendingLiteral = some ⟨head, expected⟩)) := by
  unfold command announced
  by_cases hlong : maxImapLine < byteLen line
  · rw [if_pos hlong]
    exact Or.inl ⟨rfl, Or.inl rfl⟩
  · rw [if_neg hlong]
    cases hauth : s.pendingAuth with
    | some tag => exact Or.inl ⟨rfl, Or.inl rfl⟩
    | none =>
        rw [if_neg (by simp [hlong])]
        cases hline : s.assemble line with
        | error response => exact Or.inl ⟨rfl, Or.inr rfl⟩
        | ok logical =>
            dsimp only
            cases hsplit : splitTrailingLiteral logical with
            | none => exact Or.inl ⟨rfl, Or.inr rfl⟩
            | some literal =>
                obtain ⟨head, expected, synchronizing⟩ := literal
                dsimp only
                have hsome := isSome_parseAppend s.state head expected
                unfold announce
                dsimp only
                cases hparse : parseAppend s.state head expected with
                | some pending =>
                    rw [hparse] at hsome
                    refine Or.inr ⟨head, expected, synchronizing, rfl, Or.inl ⟨hsome.symm, ?_, rfl⟩⟩
                    exact congrArg some (parseAppend_expected hparse)
                | none =>
                    rw [hparse] at hsome
                    dsimp only
                    split
                    · exact Or.inl ⟨rfl, Or.inr rfl⟩
                    · rename_i hfits
                      exact Or.inr ⟨head, expected, synchronizing, rfl,
                        Or.inr ⟨hsome.symm, rfl, Nat.not_lt.mp hfits, rfl⟩⟩

theorem Bounded.step {c : Commands κ α} {s s' : ISession κ} {e : Event κ} (h : s.Bounded) (hmodest : s.Modest e)
    (hstep : s.step c e = some s') : s'.Bounded := by
  cases e with
  | line text =>
      cases hstep
      rcases command_pending c s text with ⟨happend, hliteral⟩ | ⟨head, expected, synchronizing, hannounced, hnew⟩
      · refine ⟨fun n hn => h.message n ?_, fun p hp => ?_⟩
        · rw [awaitingMessage, ← happend]
          exact hn
        · rcases hliteral with hliteral | hliteral
          · exact h.literal p (hliteral ▸ hp)
          · rw [hliteral] at hp
            cases hp
      · have hlimit := hmodest head expected synchronizing hannounced
        rcases hnew with ⟨hsome, happend, hliteral⟩ | ⟨hnone, happend, hfits, hliteral⟩
        · rw [if_pos hsome] at hlimit
          refine ⟨fun n hn => ?_, fun p hp => ?_⟩
          · rw [happend] at hn
            cases hn
            exact hlimit
          · rw [hliteral] at hp
            cases hp
        · rw [hnone, if_neg (by simp)] at hlimit
          refine ⟨fun n hn => h.message n ?_, fun p hp => ?_⟩
          · rw [awaitingMessage, ← happend]
            exact hn
          · rw [hliteral] at hp
            cases hp
            rw [literalSum_of_lt hlimit] at hfits
            exact hfits
  | octets message =>
      cases hstep
      unfold messageOctets
      cases happend : s.pendingAppend with
      | none => exact h
      | some pending => exact ⟨fun n hn => (nomatch hn), h.literal⟩
  | result state core =>
      cases hstep
      exact ⟨h.message, h.literal⟩

theorem bounded_of_run {c : Commands κ α} {core : κ} {events : List (Event κ)} {s : ISession κ}
    (hrun : Run (step c) Modest (.new core) events s) : s.Bounded :=
  hrun.invariant (fun _ _ _ h hmodest hstep => h.step hmodest hstep) ⟨fun _ hn => (nomatch hn), fun _ hp => nomatch hp⟩

end ISession

/-! ## SMTP -/

/-- The bytes that are held while a message is read. -/
def DataState.held (st : DataState) : Nat := st.body.length + st.line.length

/-- One byte of the content; `none` when it ends the message. -/
def dataStep (max : UInt64) (st : DataState) (b : UInt8) : Option DataState :=
  if b = lf then ((st.push b).takeLine max).toOption else some (st.push b)

/-- The content that was read so far brings the reader into this state. -/
def Reaches (max : UInt64) (read : Bytes) (st : DataState) : Prop :=
  Run (dataStep max) (fun _ _ => True) .start read st

/-- At no byte of the stream more is held than the ceiling allows. -/
def HeldBounded (max : UInt64) (x : Bytes) : Prop :=
  ∀ read b more st, x = read ++ b :: more → Reaches max read st → (st.push b).held ≤ (hardCeiling max).toNat

/-- A line of the content of a message, with its LF. -/
def ContentLine (line : Bytes) : Prop := isTerminator line = false ∧ ∃ l, line = l ++ [lf] ∧ lf ∉ l

/-- How much of some lines stays under the limit when they are taken in order and one that does not fit is left
out. -/
def keptOf (max : UInt64) (lines : List Bytes) : Nat :=
  lines.foldl (fun kept line =>
    if kept + (unstuff line).length ≤ max.toNat then kept + (unstuff line).length else kept) 0

/-- Every line of the stream, as far as it has come, fits under the ceiling beside the lines before it that stay
under the limit. -/
def LinesFit (max : UInt64) (x : Bytes) : Prop :=
  ∀ lines line b more, x = lines.flatten ++ (line ++ b :: more) → (∀ l ∈ lines, ContentLine l) → lf ∉ line →
    keptOf max lines + (line ++ [b]).length ≤ (hardCeiling max).toNat

theorem run_open {max : UInt64} {b line l : Bytes} {o : Bool} (hl : lf ∉ l) :
    Run (dataStep max) (fun _ _ => True) ⟨b, line, o⟩ l ⟨b, line ++ l, o⟩ := by
  induction l generalizing line with
  | nil =>
      rw [List.append_nil]
      exact .nil
  | cons c l ih =>
      have hc : c ≠ lf := fun h => hl (h ▸ List.mem_cons_self)
      refine .cons trivial (if_neg hc) ?_
      have hnext := @ih (line ++ [c]) (fun h => hl (List.mem_cons_of_mem _ h))
      rw [List.append_assoc] at hnext
      exact hnext

/-- The steps are those of the reader. -/
theorem readData_of_run {max : UInt64} {st st' : DataState} {read more : Bytes}
    (h : Run (dataStep max) (fun _ _ => True) st read st') :
    readData max st (read ++ more) = readData max st' more := by
  induction h with
  | nil => rfl
  | @cons st next _ b read _ hstep _ ih =>
      rw [List.cons_append, readData, ← ih]
      unfold dataStep at hstep
      split at hstep
      · rename_i hlf
        rw [if_pos hlf]
        cases htake : (st.push b).takeLine max with
        | error e =>
            rw [htake] at hstep
            cases hstep
        | ok st =>
            rw [htake] at hstep
            cases hstep
            rfl
      · rename_i hlf
        rw [if_neg hlf, Option.some.inj hstep]

theorem keptOf_concat (max : UInt64) (lines : List Bytes) (line : Bytes) :
    keptOf max (lines ++ [line]) =
      if keptOf max lines + (unstuff line).length ≤ max.toNat then keptOf max lines + (unstuff line).length
      else keptOf max lines := by
  rw [keptOf, List.foldl_append]
  rfl

theorem keptOf_le (max : UInt64) (lines : List Bytes) : keptOf max lines ≤ max.toNat := by
  induction lines using List.reverseRecOn with
  | nil => exact Nat.zero_le _
  | append_singleton lines line ih =>
      rw [keptOf_concat]
      split
      · assumption
      · exact ih

theorem takeLine_over {max : UInt64} {b line : Bytes} {o : Bool} (h : isTerminator line = false)
    (hover : ¬ b.length + (unstuff line).length ≤ max.toNat) :
    (DataState.takeLine max ⟨b, line, o⟩ = .error .tooLarge ∧ (hardCeiling max).toNat ≤ b.length) ∨
      DataState.takeLine max ⟨b, line, o⟩ = .ok ⟨b, [], true⟩ := by
  rw [DataState.takeLine, if_neg (by simp [h])]
  dsimp only
  rw [if_neg hover]
  split
  · rename_i hceiling
    exact Or.inl ⟨rfl, hceiling⟩
  · exact Or.inr rfl

/-- What is done with a line of the content: it is kept if it fits under the limit, and left out or too much if it
does not. -/
theorem takeLine_content {max : UInt64} {b line : Bytes} {o : Bool} (h : isTerminator line = false) :
    (DataState.takeLine max ⟨b, line, o⟩ = .error .tooLarge ∧ (hardCeiling max).toNat ≤ b.length) ∨
      ∃ b' o', DataState.takeLine max ⟨b, line, o⟩ = .ok ⟨b', [], o'⟩ ∧
        b'.length = if b.length + (unstuff line).length ≤ max.toNat then b.length + (unstuff line).length
          else b.length := by
  by_cases hfits : b.length + (unstuff line).length ≤ max.toNat
  · rw [if_pos hfits]
    exact Or.inr ⟨_, _, takeLine_fits h hfits, List.length_append⟩
  · rw [if_neg hfits]
    rcases takeLine_over h hfits with hlarge | hover
    · exact Or.inl hlarge
    · exact Or.inr ⟨_, _, hover, rfl⟩

/-- The state of the reader in terms of the lines of the stream: those that are over were content, and of these
it has kept what the limit allows. -/
structure AtLine (max : UInt64) (read : Bytes) (lines : List Bytes) (st : DataState) : Prop where
  split : read = lines.flatten ++ st.line
  content : ∀ l ∈ lines, ContentLine l
  open_ : lf ∉ st.line
  kept : st.body.length = keptOf max lines

theorem AtLine.step {max : UInt64} {read : Bytes} {lines : List Bytes} {st st' : DataState} {b : UInt8}
    (h : AtLine max read lines st) (hstep : dataStep max st b = some st') :
    ∃ lines', AtLine max (read ++ [b]) lines' st' := by
  unfold dataStep at hstep
  split at hstep
  · rename_i hb
    subst hb
    cases hterm : isTerminator (st.line ++ [lf]) with
    | true =>
        rw [DataState.push, DataState.takeLine, if_pos hterm] at hstep
        cases hstep
    | false =>
        have hline : ContentLine (st.line ++ [lf]) := ⟨hterm, st.line, rfl, h.open_⟩
        rcases @takeLine_content max st.body _ st.oversize hterm with
          ⟨htake, -⟩ | ⟨b', o', htake, hlength⟩
        · rw [DataState.push, htake] at hstep
          cases hstep
        · rw [DataState.push, htake] at hstep
          cases hstep
          refine ⟨lines ++ [st.line ++ [lf]], ?_, ?_, List.not_mem_nil, ?_⟩
          · rw [h.split]
            simp
          · intro l hl
            rcases List.mem_append.mp hl with hl | hl
            · exact h.content l hl
            · rw [List.mem_singleton.mp hl]
              exact hline
          · rw [keptOf_concat, ← h.kept]
            exact hlength
  · rename_i hb
    cases hstep
    refine ⟨lines, ?_, h.content, ?_, h.kept⟩
    · rw [h.split, List.append_assoc]
      rfl
    · simp only [DataState.push, List.mem_append, List.mem_singleton, not_or]
      exact ⟨h.open_, fun h => hb h.symm⟩

theorem atLine_of_reaches {max : UInt64} {read : Bytes} {st : DataState} (h : Reaches max read st) :
    ∃ lines, AtLine max read lines st := by
  -- The run is followed from the front, with what was read before the state it is in.
  have hrun : ∀ {s u : DataState} {l : Bytes}, Run (dataStep max) (fun _ _ => True) s l u →
      ∀ read lines, AtLine max read lines s → ∃ lines', AtLine max (read ++ l) lines' u := by
    intro s u l hrun
    induction hrun with
    | nil =>
        intro read lines h
        exact ⟨lines, by rwa [List.append_nil]⟩
    | @cons s t u b l _ hstep _ ih =>
        intro read lines h
        obtain ⟨lines', hnext⟩ := h.step hstep
        obtain ⟨lines'', hend⟩ := ih _ lines' hnext
        rw [List.append_assoc] at hend
        exact ⟨lines'', hend⟩
  exact hrun h [] [] ⟨rfl, fun _ hl => absurd hl List.not_mem_nil, List.not_mem_nil, rfl⟩

/-- No more of a message is kept than the limit allows. -/
theorem body_le {max : UInt64} {read : Bytes} {st : DataState} (h : Reaches max read st) :
    st.body.length ≤ max.toNat := by
  obtain ⟨lines, hat⟩ := atLine_of_reaches h
  rw [hat.kept]
  exact keptOf_le max lines

theorem run_line {max : UInt64} {b b' line : Bytes} {o o' : Bool} (hline : ContentLine line)
    (htake : DataState.takeLine max ⟨b, line, o⟩ = .ok ⟨b', [], o'⟩) :
    Run (dataStep max) (fun _ _ => True) ⟨b, [], o⟩ line ⟨b', [], o'⟩ := by
  obtain ⟨-, l, rfl, hl⟩ := hline
  refine (run_open hl).append (.cons trivial ?_ .nil)
  rw [dataStep, if_pos rfl, DataState.push, List.nil_append, htake]
  rfl

/-- The reader gets through lines of content, or reaches the ceiling with what it has kept. -/
theorem reaches_lines {max : UInt64} {lines : List Bytes} (h : ∀ l ∈ lines, ContentLine l) :
    (∃ b o, Reaches max lines.flatten ⟨b, [], o⟩ ∧ b.length = keptOf max lines) ∨
      ∃ before line after b o, lines = before ++ line :: after ∧ Reaches max before.flatten ⟨b, [], o⟩ ∧
        (hardCeiling max).toNat ≤ b.length := by
  induction lines using List.reverseRecOn with
  | nil => exact Or.inl ⟨[], false, .nil, rfl⟩
  | append_singleton lines line ih =>
      have hline := h line (List.mem_append_right _ List.mem_cons_self)
      rcases ih fun l hl => h l (List.mem_append_left _ hl) with
        ⟨b, o, hreach, hkept⟩ | ⟨before, l, after, b, o, rfl, hreach, hceiling⟩
      · rcases @takeLine_content max b _ o hline.1 with ⟨-, hceiling⟩ | ⟨b', o', htake, hlength⟩
        · exact Or.inr ⟨lines, line, [], b, o, rfl, hreach, hceiling⟩
        · refine Or.inl ⟨b', o', ?_, ?_⟩
          · rw [List.flatten_append, List.flatten_singleton]
            exact hreach.append (run_line hline htake)
          · rw [hlength, keptOf_concat, hkept]
      · exact Or.inr ⟨before, l, after ++ [line], b, o, by simp, hreach, hceiling⟩

theorem heldBounded_iff (max : UInt64) (x : Bytes) : HeldBounded max x ↔ LinesFit max x := by
  constructor
  · intro h lines line b more hx hlines hline
    rcases @reaches_lines max _ hlines with
      ⟨body, o, hreach, hkept⟩ | ⟨before, l, after, body, o, rfl, hreach, hceiling⟩
    · have hheld := h (lines.flatten ++ line) b more ⟨body, [] ++ line, o⟩ (by rw [hx, List.append_assoc])
        (hreach.append (run_open hline))
      rw [← hkept]
      exact hheld
    · -- What is kept has reached the ceiling, so the next line was too much already.
      exfalso
      obtain ⟨-, text, rfl, -⟩ := hlines l (by simp)
      obtain ⟨c, rest, hc⟩ : ∃ c rest, text ++ [lf] = c :: rest :=
        List.exists_cons_of_ne_nil (List.append_ne_nil_of_right_ne_nil _ (List.cons_ne_nil _ _))
      have hheld := h before.flatten c (rest ++ (after.flatten ++ (line ++ b :: more))) ⟨body, [], o⟩
        (by rw [hx, List.flatten_append, List.flatten_cons, hc]; simp) hreach
      simp only [DataState.held, DataState.push, List.length_append, List.length_nil, List.length_singleton] at hheld
      omega
  · intro h read b more st hx hreach
    obtain ⟨lines, hat⟩ := atLine_of_reaches hreach
    have hfits := h lines st.line b more (by rw [hx, hat.split, List.append_assoc]) hat.content hat.open_
    rw [← hat.kept] at hfits
    exact hfits

/-- Lines of a mebibyte at most keep to the ceiling, whatever the limit. -/
theorem linesFit_of_short {max : UInt64} {x : Bytes} (hmax : max.toNat + 2 ^ 20 ≤ u64Max)
    (h : ∀ before line b more, x = before ++ (line ++ b :: more) → lf ∉ line → (line ++ [b]).length ≤ 2 ^ 20) :
    LinesFit max x := by
  intro lines line b more hx _ hline
  have hshort := h lines.flatten line b more hx hline
  have hkept := keptOf_le max lines
  have hceiling : (hardCeiling max).toNat = max.toNat + 2 ^ 20 := by
    rw [hardCeiling, toNat_saturatingAdd]
    exact Nat.min_eq_left hmax
  omega

/-! ## Content over the limit -/

/-- Content that is over the limit is never taken for a message: reading gives up, or the message is marked. -/
theorem readData_content {max : UInt64} {ls : List Bytes} {b y : Bytes} {o : Bool} (hls : ∀ l ∈ ls, ContentLine l)
    (hb : o = false → b.length ≤ max.toNat) :
    (∃ rest, readData max ⟨b, [], o⟩ (ls.flatten ++ y) = (.tooLarge, rest)) ∨
      ∃ b' o', readData max ⟨b, [], o⟩ (ls.flatten ++ y) = readData max ⟨b', [], o'⟩ y ∧
        (o' = false → o = false ∧ b.length + (ls.flatMap unstuff).length ≤ max.toNat) := by
  induction ls generalizing b o with
  | nil => exact Or.inr ⟨b, o, rfl, fun ho => ⟨ho, hb ho⟩⟩
  | cons line ls ih =>
      obtain ⟨hterm, l, rfl, hl⟩ := hls line List.mem_cons_self
      have hrest : ∀ l ∈ ls, ContentLine l := fun l hmem => hls l (List.mem_cons_of_mem _ hmem)
      rw [List.flatten_cons, List.append_assoc, List.append_assoc, List.singleton_append, readData_line hl,
        List.flatMap_cons, List.length_append]
      by_cases hfits : b.length + (unstuff (l ++ [lf])).length ≤ max.toNat
      · rw [takeLine_fits hterm hfits]
        rcases @ih (b ++ unstuff (l ++ [lf])) o hrest (fun _ => by rw [List.length_append]; exact hfits) with
          hlarge | ⟨b', o', hread, hlength⟩
        · exact Or.inl hlarge
        · refine Or.inr ⟨b', o', hread, fun ho' => ?_⟩
          rw [← Nat.add_assoc, ← List.length_append]
          exact hlength ho'
      · rcases takeLine_over (o := o) hterm hfits with ⟨htake, -⟩ | htake <;> rw [htake]
        · exact Or.inl ⟨_, rfl⟩
        · rcases @ih b true hrest (fun ho => nomatch ho) with hlarge | ⟨b', o', hread, hlength⟩
          · exact Or.inl hlarge
          · exact Or.inr ⟨b', o', hread, fun ho' => nomatch (hlength ho').1⟩

/-- A message whose content is over the limit is refused. -/
theorem refused_of_content {r : Receiver} {s : Session} {ls : List Bytes} {rest : Bytes} {peer : IpAddr}
    {date : Str} {writes : Address → Bool} (hls : ∀ l ∈ ls, ContentLine l)
    (hover : r.policy.maxMessageBytes.toNat < (ls.flatMap unstuff).length) (hs : s.finishData.2.isSome) :
    (readAndStore r s (ls.flatten ++ (dot :: crlf ++ rest)) peer date writes).1 =
      .refused 552 "message exceeds the size limit" := by
  have hread : (∃ rest', readData r.policy.maxMessageBytes .start (ls.flatten ++ (dot :: crlf ++ rest)) =
      (.tooLarge, rest')) ∨ ∃ body, readData r.policy.maxMessageBytes .start (ls.flatten ++ (dot :: crlf ++ rest)) =
      (.terminated body true, rest) := by
    rcases @readData_content r.policy.maxMessageBytes ls [] (dot :: crlf ++ rest) false hls
      (fun _ => Nat.zero_le _) with hlarge | ⟨b, o, hread, hlength⟩
    · exact Or.inl hlarge
    · right
      cases o with
      | false =>
          have := (hlength rfl).2
          rw [List.length_nil] at this
          omega
      | true => exact ⟨b, hread.trans readData_end⟩
  obtain ⟨envelope, henvelope⟩ := Option.isSome_iff_exists.mp hs
  rcases hread with ⟨rest', hread⟩ | ⟨body, hread⟩
  · simp only [readAndStore, hread]
  · simp only [readAndStore, hread, henvelope, if_true]

/-! ## All buffers -/

/-- In every IMAP conversation whose lines announce no message over the limit and no argument whose size wraps,
what is pending keeps to the limits and the next sum is exact. Of a message no more than the limit is ever kept, so
what is held is within the ceiling exactly when every line fits beside the lines that stay under the limit, and
always when no line is over a mebibyte. Content over the limit is refused. -/
theorem buffers_bounded (x : Bytes) :
    (∀ (κ α : Type) (c : Commands κ α) (core : κ) (events : List (ISession.Event κ)) (s : ISession κ),
      Run (ISession.step c) ISession.Modest (.new core) events s →
      s.Bounded ∧ ∀ line head expected synchronizing, s.Modest (.line line) →
        s.announced line = some (head, expected, synchronizing) → appendArgs head = none →
        (ISession.literalSum head expected).toNat = byteLen head + expected.toNat) ∧
    (∀ max,
      (∀ read more st, x = read ++ more → Reaches max read st →
        readData max .start x = readData max st more ∧ st.body.length ≤ max.toNat) ∧
      (HeldBounded max x ↔ LinesFit max x) ∧
      (max.toNat + 2 ^ 20 ≤ u64Max →
        (∀ before line b more, x = before ++ (line ++ b :: more) → lf ∉ line → (line ++ [b]).length ≤ 2 ^ 20) →
        HeldBounded max x)) ∧
    ∀ (r : Receiver) (s : Session) (ls : List Bytes) (rest : Bytes) (peer : IpAddr) (date : Str)
      (writes : Address → Bool), (∀ l ∈ ls, ContentLine l) →
      r.policy.maxMessageBytes.toNat < (ls.flatMap unstuff).length → s.finishData.2.isSome →
      (readAndStore r s (ls.flatten ++ (dot :: crlf ++ rest)) peer date writes).1 =
        .refused 552 "message exceeds the size limit" := by
  refine ⟨fun κ α c core events s hrun => ⟨ISession.bounded_of_run hrun, ?_⟩, fun max => ⟨?_, ?_, ?_⟩, ?_⟩
  · intro line head expected synchronizing hmodest hannounced happend
    have hlimit := hmodest head expected synchronizing hannounced
    rw [happend, if_neg (by simp)] at hlimit
    exact ISession.literalSum_of_lt hlimit
  · rintro read more st rfl hreach
    exact ⟨readData_of_run hreach, body_le hreach⟩
  · exact heldBounded_iff max x
  · exact fun hmax hshort => (heldBounded_iff max x).mpr (linesFit_of_short hmax hshort)
  · exact fun r s ls rest peer date writes hls hover hs => refused_of_content hls hover hs

/-- Commands that do nothing. -/
def idle : Commands Unit Unit := ⟨fun state core _ => (state, core, none, .perform ()), fun _ _ _ => .perform ()⟩

def sampleAppend : Str := "a APPEND INBOX \x7b3\x7d\r\n".toList

/-- The content of a message over a limit of nothing. -/
def linesOverNothing : Bytes := utf8 "one line\r\nand another\r\n.\r\n".toList

theorem buffers_bounded_append :
    ((ISession.new ()).Modest (.line sampleAppend) ∧ ((ISession.new ()).command idle sampleAppend).1.Bounded) ∧
      HeldBounded 0 linesOverNothing := by
  have hmodest : (ISession.new ()).Modest (.line sampleAppend) := by
    intro head expected synchronizing hannounced
    have hvalue : (ISession.new ()).announced sampleAppend = some ("a APPEND INBOX ".toList, 3, true) := by
      decide +kernel
    rw [hvalue] at hannounced
    cases hannounced
    decide +kernel
  refine ⟨⟨hmodest, ((buffers_bounded []).1 Unit Unit idle () _ _ (.cons hmodest rfl .nil)).1⟩, ?_⟩
  refine ((buffers_bounded linesOverNothing).2.1 0).2.2 (by decide) fun before line b more hx _ => ?_
  have hlength := congrArg List.length hx
  have hsample : linesOverNothing.length = 26 := by decide +kernel
  simp only [hsample, List.length_append, List.length_cons, List.length_nil] at hlength ⊢
  omega

/-- A client that is not logged in makes the driver allocate 2^64 - 1 bytes, the size of an argument wraps to
nothing, and a line without an end is held as a whole. -/
theorem buffers_unbounded :
    ((ISession.new ()).command idle "a APPEND INBOX \x7b18446744073709551615\x7d\r\n".toList).1.awaitingMessage =
        some 18446744073709551615 ∧
      maxAppendBytes < 18446744073709551615 ∧
      (ISession.new ()).announced "a LOGIN \x7b18446744073709551615\x7d\r\n".toList =
        some ("a LOGIN ".toList, 18446744073709551615, true) ∧
      ISession.literalSum "a LOGIN ".toList 18446744073709551615 = 7 ∧
      ¬ HeldBounded 0 (List.replicate (2 ^ 20 + 1) 0x41) := by
  refine ⟨by decide +kernel, by decide, by decide +kernel, by decide +kernel, fun h => ?_⟩
  have hfits := (heldBounded_iff 0 _).mp h [] (List.replicate (2 ^ 20) 0x41) 0x41 []
    (by rw [List.flatten_nil, List.nil_append]; exact List.replicate_succ') (fun l hl => absurd hl List.not_mem_nil)
    (fun hmem => absurd (List.eq_of_mem_replicate hmem) (by decide))
  have hceiling : (hardCeiling 0).toNat = 2 ^ 20 := by decide
  rw [hceiling, List.length_append, List.length_replicate, List.length_singleton] at hfits
  exact absurd hfits (by decide)

end Selfhost.Mail
