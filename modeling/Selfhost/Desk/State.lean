import Selfhost.Lib.Machine

/-!
# The phases of a desktop session

What a session does about an observation of its screen source: it goes on, waits, rebuilds the source or gives up.
-/

namespace Selfhost.Desk

open Selfhost.Lib

inductive Observation where
  | frame
  | retry
  | reinitialise
  | secureDesktop
  | sessionDisconnected
  | noSession
  | permissionDenied
  | agentExited
  | fatal
  | killSwitch
  | resume
  deriving DecidableEq, Repr

inductive Suspension where
  | secureDesktop
  | sessionMoved
  | noUser
  deriving DecidableEq, Repr

inductive Surrender where
  | tooManyReinitialisations
  | agentUnrecoverable
  | fatal
  deriving DecidableEq, Repr

inductive Phase where
  | starting
  | live
  | recovering (attempt : UInt32)
  | suspended (reason : Suspension)
  | denied
  | gaveUp (surrender : Surrender)
  | stopped
  deriving DecidableEq, Repr

inductive Notice where
  | starting
  | live
  | recovering
  | secureDesktop
  | sessionMoved
  | noUser
  | permissionDenied
  | gaveUp
  | stopped
  deriving DecidableEq, Repr

def Phase.notice : Phase → Notice
  | .starting => .starting
  | .live => .live
  | .recovering _ => .recovering
  | .suspended .secureDesktop => .secureDesktop
  | .suspended .sessionMoved => .sessionMoved
  | .suspended .noUser => .noUser
  | .denied => .permissionDenied
  | .gaveUp _ => .gaveUp
  | .stopped => .stopped

inductive Action where
  | capture
  | waitThen (wait : Duration)
  | reinitialise (wait : Duration)
  | respawnAgent (wait : Duration)
  | suspend (pollAfter : Duration)
  | closeStreams
  deriving DecidableEq

structure Limits where
  baseDelay : Duration
  maxDelay : Duration
  reinitBudget : Option UInt32
  respawnBudget : Option UInt32
  healthyWindow : Duration
  deriving DecidableEq

structure Step where
  phase : Phase
  action : Action
  notice : Option Notice
  deriving DecidableEq

def overBudget (count : UInt32) (budget : Option UInt32) : Bool :=
  match budget with
  | some limit => count > limit
  | none => false

def backoff (limits : Limits) (attempt : UInt32) : Duration :=
  let multiplier := 2 ^ (min attempt.toNat 32)
  let scaled := limits.baseDelay.saturatingMul (UInt32.ofNat (min multiplier (2 ^ 32 - 1)))
  max (min scaled limits.maxDelay) (min limits.baseDelay limits.maxDelay)

structure Session where
  phase : Phase
  limits : Limits
  reinitFailures : UInt32
  respawns : UInt32
  liveSince : Option Instant
  deriving DecidableEq

namespace Session

def new (limits : Limits) : Session := ⟨.starting, limits, 0, 0, none⟩

/-- Moves to a phase; to begin anew also clears the counters. -/
def enter (session : Session) (phase : Phase) (action : Action) : Session × Step :=
  if phase = session.phase then (session, ⟨phase, action, none⟩)
  else
    let session :=
      if phase = .starting then { session with reinitFailures := 0, respawns := 0, liveSince := none } else session
    ({ session with phase := phase }, ⟨phase, action, some phase.notice⟩)

def stay (session : Session) (action : Action) : Session × Step := (session, ⟨session.phase, action, none⟩)

def suspend (session : Session) (reason : Suspension) : Session × Step :=
  { session with liveSince := none }.enter (.suspended reason) (.suspend session.limits.baseDelay)

def isOver : Phase → Bool
  | .stopped | .gaveUp _ => true
  | _ => false

def observe (session : Session) (observation : Observation) (now : Instant) : Session × Step :=
  if isOver session.phase then
    match observation with
    | .resume => session.enter .starting .capture
    | _ => session.stay .closeStreams
  else
    match observation with
    | .killSwitch => session.enter .stopped .closeStreams
    | .resume => if session.phase = .live then session.stay .capture else session.enter .starting .capture
    | .frame =>
        let liveSince := session.liveSince.getD now
        let session := { session with liveSince := some liveSince }
        let session :=
          if Duration.between liveSince now ≥ session.limits.healthyWindow then
            { session with reinitFailures := 0, respawns := 0 }
          else session
        session.enter .live .capture
    | .retry => session.stay .capture
    | .reinitialise =>
        let failures := saturatingAdd32 session.reinitFailures 1
        let session := { session with liveSince := none, reinitFailures := failures }
        if overBudget failures session.limits.reinitBudget then
          session.enter (.gaveUp .tooManyReinitialisations) .closeStreams
        else session.enter (.recovering failures) (.reinitialise (backoff session.limits (failures - 1)))
    | .agentExited =>
        let respawns := saturatingAdd32 session.respawns 1
        let session := { session with liveSince := none, respawns := respawns }
        if overBudget respawns session.limits.respawnBudget then
          session.enter (.gaveUp .agentUnrecoverable) .closeStreams
        else session.enter (.recovering respawns) (.respawnAgent (backoff session.limits (respawns - 1)))
    | .secureDesktop => session.suspend .secureDesktop
    | .sessionDisconnected => session.suspend .sessionMoved
    | .noSession => session.suspend .noUser
    | .permissionDenied => { session with liveSince := none }.enter .denied (.waitThen session.limits.maxDelay)
    | .fatal => { session with liveSince := none }.enter (.gaveUp .fatal) .closeStreams

/-! ## Becoming live -/

@[simp] theorem enter_phase (session : Session) (phase : Phase) (action : Action) :
    (session.enter phase action).1.phase = phase := by
  unfold enter
  split
  · rename_i h
    exact h.symm
  · rfl

@[simp] theorem enter_action (session : Session) (phase : Phase) (action : Action) :
    (session.enter phase action).2.action = action := by
  unfold enter
  split <;> rfl

@[simp] theorem stay_phase (session : Session) (action : Action) : (session.stay action).1.phase = session.phase := rfl

/-- A session that is live afterwards saw a frame, or was live and saw nothing new. -/
theorem live_of_observe {session : Session} {observation : Observation} {now : Instant}
    (h : (session.observe observation now).1.phase = .live) :
    (observation = .frame ∧ isOver session.phase = false) ∨
      ((observation = .retry ∨ observation = .resume) ∧ session.phase = .live) := by
  unfold observe at h
  cases hover : isOver session.phase with
  | true =>
      rw [hover, if_pos rfl] at h
      have hlive : session.phase ≠ .live := by
        intro hlive
        rw [hlive] at hover
        cases hover
      cases observation <;> simp at h <;> exact absurd h hlive
  | false =>
      rw [hover, if_neg (by decide)] at h
      cases observation with
      | frame => exact .inl ⟨rfl, rfl⟩
      | retry => exact .inr ⟨.inl rfl, h⟩
      | resume =>
          dsimp only at h
          split at h
          · rename_i hlive
            exact .inr ⟨.inr rfl, hlive⟩
          · simp at h
      | reinitialise =>
          dsimp only at h
          split at h <;> simp at h
      | agentExited =>
          dsimp only at h
          split at h <;> simp at h
      | killSwitch | secureDesktop | sessionDisconnected | noSession | permissionDenied | fatal => simp [suspend] at h

/-- A session that is live goes on capturing. -/
theorem capture_of_observe {session : Session} {observation : Observation} {now : Instant}
    (h : (session.observe observation now).1.phase = .live) :
    (session.observe observation now).2.action = .capture := by
  rcases live_of_observe h with ⟨rfl, hover⟩ | ⟨hobs, hlive⟩
  · unfold observe
    rw [hover, if_neg (by decide)]
    exact enter_action ..
  · unfold observe
    rw [hlive, if_neg (by decide)]
    rcases hobs with rfl | rfl
    · rfl
    · dsimp only
      rw [if_pos rfl]
      rfl

end Session

end Selfhost.Desk
