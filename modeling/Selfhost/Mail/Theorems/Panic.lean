import Selfhost.Mail.Lemmas.Smtp
import Selfhost.Mail.Receive

/-!
# Which command lines crash the server

The keyword of `MAIL` and `RCPT` is cut off at its length in bytes. `command_returns_iff` says exactly when that
cut is inside a character and panics; no other slice on the way of a command line can.
-/

namespace Selfhost.Mail

open Selfhost.Lib

/-- A command whose keyword is cut off inside a character: a `MAIL` or `RCPT` that the session would look at,
with an argument that is long enough and has no character ending where the keyword should end. -/
def CutsCharacter (s : Session) (line : Str) : Prop :=
  byteLen line ≤ maxCommandLine ∧ s.state ≠ .readingData ∧ s.state ≠ .closed ∧
    (((splitCommand line).1 = .mail ∧ s.helo ≠ none ∧ s.state ≠ .haveSender ∧ s.state ≠ .haveRecipients ∧
        CutInside 5 (splitCommand line).2) ∨
      ((splitCommand line).1 = .rcpt ∧ (s.state = .haveSender ∨ s.state = .haveRecipients) ∧
        s.recipients.length < maxRecipients ∧ CutInside 3 (splitCommand line).2))

theorem trimStart_splitCommand (line : Str) : trimStart (splitCommand line).2 = (splitCommand line).2 := by
  unfold splitCommand
  dsimp only
  split
  · exact trimStart_trim _
  · rfl

theorem stripKeyword_eq_none_iff {rest keyword : Str} (h : trimStart rest = rest) :
    stripKeyword rest keyword = none ↔ CutInside (byteLen keyword) rest := by
  unfold stripKeyword
  dsimp only
  rw [h]
  split
  · rename_i hlt
    simp only [reduceCtorEq, false_iff, CutInside, not_and]
    intro hle
    omega
  · rename_i hle
    rw [Option.map_eq_none_iff, splitAtByte_eq_none_iff]
    exact ⟨fun hcut => ⟨Nat.not_lt.mp hle, hcut⟩, fun hcut => hcut.2⟩

theorem mail_eq_none_iff {s : Session} {rest : Str} (h : trimStart rest = rest) :
    s.mail rest = none ↔ s.helo ≠ none ∧ s.state ≠ .haveSender ∧ s.state ≠ .haveRecipients ∧ CutInside 5 rest := by
  have hlen : byteLen "FROM:".toList = 5 := by decide
  unfold Session.mail
  split
  · rename_i hhelo
    simp [hhelo]
  · rename_i hhelo
    split
    · rename_i hstate
      simp only [reduceCtorEq, false_iff, not_and]
      intro _ hs hr
      exact absurd hstate (by simp [hs, hr])
    · rename_i hstate
      rw [not_or] at hstate
      rw [Option.map_eq_none_iff, stripKeyword_eq_none_iff h, hlen]
      simp only [ne_eq, hhelo, not_false_eq_true, hstate, true_and]

theorem rcpt_eq_none_iff {s : Session} {rest : Str} (h : trimStart rest = rest) :
    s.rcpt rest = none ↔ (s.state = .haveSender ∨ s.state = .haveRecipients) ∧
      s.recipients.length < maxRecipients ∧ CutInside 3 rest := by
  have hlen : byteLen "TO:".toList = 3 := by decide
  unfold Session.rcpt
  split
  · rename_i hstate
    simp [hstate]
  · rename_i hstate
    split
    · rename_i hroom
      simp only [reduceCtorEq, false_iff, not_and]
      intro _ hlt
      omega
    · rename_i hroom
      rw [Option.map_eq_none_iff, stripKeyword_eq_none_iff h, hlen]
      simp only [not_not.mp hstate, Nat.not_le.mp hroom, true_and]

theorem command_eq_none_iff (s : Session) (line : Str) : s.command line = none ↔ CutsCharacter s line := by
  unfold Session.command CutsCharacter
  split
  · rename_i hlong
    simp only [reduceCtorEq, false_iff, not_and]
    intro hle
    omega
  · rename_i hlong
    rw [Nat.not_lt] at hlong
    split
    · rename_i hstate
      simp [hstate]
    · rename_i hreading
      split
      · rename_i hstate
        simp [hstate]
      · rename_i hclosed
        simp only [hlong, ne_eq, hreading, hclosed, not_false_eq_true, true_and]
        cases hverb : (splitCommand line).1 with
        | mail =>
            simp only [Session.perform, true_and, reduceCtorEq, false_and, or_false]
            exact mail_eq_none_iff (trimStart_splitCommand line)
        | rcpt =>
            simp only [Session.perform, true_and, reduceCtorEq, false_and, false_or]
            exact rcpt_eq_none_iff (trimStart_splitCommand line)
        | _ => simp [Session.perform]

/-- The slice behind `TO:` is taken where `get` has already found the end of a character. -/
theorem rcptAddress_isSome (line : Str) : (rcptAddress line).isSome = true := by
  unfold rcptAddress
  split
  · rfl
  · rename_i rest _
    rw [Option.isSome_map]
    unfold afterTo
    split
    · rfl
    · split
      · rename_i head tail hsplit
        split
        · rw [hsplit]
          rfl
        · rfl
      · rfl

/-- A command line is answered, and its recipient read, exactly when no keyword is cut off inside a character. -/
theorem command_returns_iff (s : Session) (line : Str) :
    ((s.command line).isSome = true ∧ (rcptAddress line).isSome = true) ↔ ¬ CutsCharacter s line := by
  rw [← command_eq_none_iff, ← ne_eq, Option.ne_none_iff_isSome]
  exact and_iff_left (rcptAddress_isSome line)

/-- `MAIL` and two characters of three bytes, as they arrive. -/
def crashLine : Bytes := utf8 "MAIL ".toList ++ [0xE2, 0x82, 0xAC, 0xE2, 0x82, 0xAC, cr, lf]

/-- A client that has only greeted crashes the server with one line. -/
theorem mail_line_crashes :
    ∃ s action, (Session.new samplePolicy).command ehloLine = some (s, action) ∧
      s.command (readCommandLine crashLine).1 = none :=
  ⟨afterEhlo, .reply ehloReply, by decide +kernel, by decide +kernel⟩

end Selfhost.Mail
