import Mathlib.Logic.Function.Basic
import Selfhost.Lib.Machine
import Selfhost.Lib.Slice
import Selfhost.Lib.Text

/-!
# When a service is started again

`foundation/supervisor/src/policy.rs`, and the fields of a service definition that it and the supervisor read.
-/

namespace Selfhost.Supervisor

open Selfhost.Lib

inductive StartMode where
  | automatic | manual | disabled
  deriving DecidableEq, Repr

inductive RestartPolicy where
  | never | onFailure | always
  deriving DecidableEq, Repr

structure ServiceSpec where
  name : Str
  startMode : StartMode
  restart : RestartPolicy
  restartDelaySecs : UInt64
  /-- Zero for no limit. -/
  maxRestarts : UInt32
  deriving DecidableEq, Repr

def ServiceSpec.startsAutomatically (spec : ServiceSpec) : Bool := spec.startMode = .automatic

def maxBackoff : Duration := .fromSecs 300

def minHealthyWindow : Duration := .fromSecs 30

inductive Outcome where
  | stay
  | restartAfter (delay : Duration)
  | gaveUp
  deriving DecidableEq, Repr

/-- How a process ended: its code, unless a signal killed it. -/
structure ExitStatus where
  code : Option Int32
  deriving DecidableEq, Repr

def ExitStatus.success (status : ExitStatus) : Bool := status.code = some 0

inductive Exit where
  | clean | failed
  deriving DecidableEq, Repr

def Exit.of (status : ExitStatus) : Exit := if status.success then .clean else .failed

def healthyWindow (baseDelay : Duration) (maxRestarts : UInt32) : Duration :=
  max (baseDelay.saturatingMul (max maxRestarts 1)) minHealthyWindow

/-- `checked_shl` of a 64-bit number. -/
def checkedShl (a : UInt64) (bits : UInt32) : Option UInt64 :=
  if bits < 64 then some (a <<< bits.toUInt64) else none

def u32Max : UInt32 := 0xFFFFFFFF

def backoff (base : Duration) (attempt : UInt32) : Duration :=
  let multiplier := (checkedShl 1 (min attempt 32)).getD 0xFFFFFFFFFFFFFFFF
  min (base.saturatingMul (min multiplier u32Max.toUInt64).toUInt32) maxBackoff

def wantsRestart (policy : RestartPolicy) (exit : Exit) : Bool :=
  match policy with
  | .never => false
  | .onFailure => exit = .failed
  | .always => true

def decide (policy : RestartPolicy) (exit : Exit) (consecutiveFailures maxRestarts : UInt32) (baseDelay : Duration) :
    Outcome :=
  if !wantsRestart policy exit then .stay
  else if maxRestarts ≠ 0 ∧ maxRestarts ≤ consecutiveFailures then .gaveUp
  else .restartAfter (backoff baseDelay consecutiveFailures)

/-- The restarts since the last reset. -/
structure FailureCounter where
  consecutive : UInt32
  deriving DecidableEq, Repr

namespace FailureCounter

def default : FailureCounter := ⟨0⟩

def recordRestart (c : FailureCounter) : FailureCounter := ⟨saturatingAdd32 c.consecutive 1⟩

def noteUptime (c : FailureCounter) (uptime window : Duration) : FailureCounter := if window ≤ uptime then ⟨0⟩ else c

def reset (_ : FailureCounter) : FailureCounter := ⟨0⟩

end FailureCounter

end Selfhost.Supervisor

/-!
# The task of one service

`ServiceTask` and `Shared` in `foundation/supervisor/src/lib.rs`. The task is a state machine. What the operating
system does (the result of starting a program, the end of a process, the end of the stop ladder) and the clock are
inputs of its moves. A move stops where the source waits for the operating system, so that others act in between:
in the middle of `spawn` and while the stop ladder is under way. The captured output is left out.
-/

namespace Selfhost.Supervisor

open Selfhost.Lib

inductive Command where
  | start | stop | restart | shutdown
  deriving DecidableEq, Repr

inductive ServiceState where
  | stopped
  | disabled
  | starting
  | running (pid : UInt32) (uptimeSecs : UInt64)
  | stopping
  | exited (code : Option Int32)
  | backoff (retryInSecs : UInt64) (attempt : UInt32)
  | gaveUp (attempts : UInt32) (reason : Str)
  | unstartable (reason : Str)
  | buildFailed (reason : Str)
  deriving DecidableEq, Repr

def ServiceState.isLive : ServiceState → Bool
  | .starting | .running .. | .stopping => true
  | _ => false

/-! ## The state that others read -/

structure Shared where
  state : ServiceState
  totalRestarts : UInt64
  started : Option Instant
  deriving DecidableEq, Repr

namespace Shared

def new (initial : ServiceState) : Shared := ⟨initial, 0, none⟩

def set (shared : Shared) (state : ServiceState) : Shared :=
  { shared with state, started := if state.isLive then shared.started else none }

def markStarted (shared : Shared) (at' : Instant) : Shared := { shared with started := some at' }

/-- The state with its uptime brought up to date. -/
def currentState (shared : Shared) (now : Instant) : ServiceState :=
  match shared.state, shared.started with
  | .running pid _, some started => .running pid (Duration.between started now).asSecs
  | state, _ => state

end Shared

/-! ## The task -/

/-- A process, from its start until the task has seen its end. -/
structure Running where
  pid : UInt32
  started : Instant
  deriving DecidableEq, Repr

/-- What follows the stop ladder. -/
inductive AfterStop where
  | rest | spawn | leave
  deriving DecidableEq, Repr

/-- Where a task stands. `starting` and `stopping` are inside a step of its loop, `ended` is behind it. -/
inductive Phase where
  | idle
  | backoff (until' : Instant)
  | live (running : Running)
  | starting
  | stopping (running : Running) (next : AfterStop)
  | ended
  deriving DecidableEq, Repr

structure Task where
  spec : ServiceSpec
  shared : Shared
  counter : FailureCounter
  phase : Phase
  /-- The commands that were sent and not yet received. -/
  commands : List Command
  /-- Whether the sender is gone. -/
  closed : Bool
  deriving DecidableEq, Repr

/-- What happens to a task: a command is sent to it, its sender goes away, or a caller writes its state; and its own
moves. -/
inductive Move where
  | sent (command : Command)
  | closed
  | marked (reason : Str)
  | receive
  | timer (now : Instant)
  /-- The program was started, or could not be. -/
  | spawned (result : Except Str UInt32) (now : Instant)
  | stopped
  /-- The process ended; `none` when its status could not be read. -/
  | exits (status : Option ExitStatus) (now : Instant)

namespace Task

def new (spec : ServiceSpec) : Task :=
  ⟨spec, .new (if spec.startMode = .disabled then .disabled else .stopped), .default, .idle, [], false⟩

def set (t : Task) (state : ServiceState) : Task := { t with shared := t.shared.set state }

/-- The part of `spawn` before the program is started. -/
def spawn (t : Task) : Task :=
  if t.spec.startMode = .disabled then { t.set .disabled with phase := .idle }
  else { t.set .starting with phase := .starting }

/-- The part of `spawn` behind it. -/
def spawned (t : Task) (result : Except Str UInt32) (now : Instant) : Task :=
  match result with
  | .ok pid => { t with shared := (t.shared.set (.running pid 0)).markStarted now, phase := .live ⟨pid, now⟩ }
  | .error reason => { t.set (.unstartable reason) with phase := .idle }

def stopRunning (t : Task) (running : Running) (next : AfterStop) : Task :=
  { t.set .stopping with phase := .stopping running next }

def operatorStart (t : Task) : Task := spawn { t with counter := t.counter.reset }

/-- The rest of a step whose stop ladder is over. -/
def stopped (t : Task) (next : AfterStop) : Task :=
  let t := t.set .stopped
  match next with
  | .rest => { t with phase := .idle }
  | .spawn => t.operatorStart
  | .leave => { t with phase := .ended }

def described : Option Int32 → Str
  | some code => "exited with code ".toList ++ (toString code.toInt).toList
  | none => "was killed".toList

def window (t : Task) : Duration := healthyWindow (.fromSecs t.spec.restartDelaySecs) t.spec.maxRestarts

/-- The counter after a process that was up for `uptime`. -/
def counted (t : Task) (uptime : Duration) : FailureCounter := t.counter.noteUptime uptime t.window

def exitOf (status : Option ExitStatus) : Exit := (status.map Exit.of).getD .failed

def outcome (t : Task) (status : Option ExitStatus) (uptime : Duration) : Outcome :=
  decide t.spec.restart (exitOf status) (t.counted uptime).consecutive t.spec.maxRestarts
    (.fromSecs (max t.spec.restartDelaySecs 1))

def handleExit (t : Task) (status : Option ExitStatus) (uptime : Duration) (now : Instant) : Task :=
  let code := status.bind ExitStatus.code
  let counter := t.counted uptime
  match t.outcome status uptime with
  | .stay => { t.set (.exited code) with counter, phase := .idle }
  | .gaveUp => { t.set (.gaveUp counter.consecutive (described code)) with counter, phase := .idle }
  | .restartAfter delay =>
      { t with
        counter := counter.recordRestart
        shared := { t.shared with totalRestarts := t.shared.totalRestarts + 1 }.set
          (.backoff delay.asSecs counter.recordRestart.consecutive)
        phase := .backoff (now + delay.nanos) }

/-- One received command; `none` when the channel is closed. -/
def obey (t : Task) (command : Option Command) : Option Task :=
  match t.phase, command with
  | .idle, some .start | .idle, some .restart => some t.operatorStart
  | .idle, some .stop => some t
  | .idle, some .shutdown | .idle, none => some { t with phase := .ended }
  | .backoff _, some .start | .backoff _, some .restart => some t.operatorStart
  | .backoff _, some .stop => some { t.set .stopped with phase := .idle }
  | .backoff _, some .shutdown | .backoff _, none => some { t with phase := .ended }
  | .live running, some .stop => some (t.stopRunning running .rest)
  | .live running, some .restart => some (t.stopRunning running .spawn)
  | .live _, some .start => some t
  | .live running, some .shutdown | .live running, none => some (t.stopRunning running .leave)
  | .starting, _ | .stopping .., _ | .ended, _ => none

/-- The next command that is waiting. -/
def receive (t : Task) : Option Task :=
  match t.commands with
  | command :: rest => { t with commands := rest }.obey (some command)
  | [] => if t.closed then t.obey none else none

def sent (t : Task) (command : Command) : Task := { t with commands := t.commands ++ [command] }

def close (t : Task) : Task := { t with closed := true }

/-- One move; `none` when it is not due. -/
def step (t : Task) (move : Move) : Option Task :=
  match move, t.phase with
  | .sent command, _ => some (t.sent command)
  | .closed, _ => some t.close
  | .marked reason, _ => some (t.set (.buildFailed reason))
  | .receive, _ => t.receive
  | .timer now, .backoff until' => if until' ≤ now then some t.spawn else none
  | .spawned result now, .starting => some (t.spawned result now)
  | .stopped, .stopping _ next => some (t.stopped next)
  | .exits status now, .live running => some (t.handleExit status (.between running.started now) now)
  | _, _ => none

end Task

end Selfhost.Supervisor

/-! # The operations of a task -/

namespace Selfhost.Supervisor.Task

open Selfhost.Lib

variable {t u : Task} {move : Move}

@[simp] theorem spec_set (t : Task) (state : ServiceState) : (t.set state).spec = t.spec := by rw [Task.set]

@[simp] theorem counter_set (t : Task) (state : ServiceState) : (t.set state).counter = t.counter := by rw [Task.set]

@[simp] theorem spec_spawn (t : Task) : t.spawn.spec = t.spec := by
  unfold spawn
  split <;> rfl

@[simp] theorem counter_spawn (t : Task) : t.spawn.counter = t.counter := by
  unfold spawn
  split <;> rfl

@[simp] theorem spec_operatorStart (t : Task) : t.operatorStart.spec = t.spec := by simp [operatorStart]

@[simp] theorem counter_operatorStart (t : Task) : t.operatorStart.counter = ⟨0⟩ := by
  simp [operatorStart, FailureCounter.reset]

@[simp] theorem spec_spawned (t : Task) (result : Except Str UInt32) (now : Instant) :
    (t.spawned result now).spec = t.spec := by
  cases result <;> rfl

@[simp] theorem counter_spawned (t : Task) (result : Except Str UInt32) (now : Instant) :
    (t.spawned result now).counter = t.counter := by
  cases result <;> rfl

@[simp] theorem spec_stopped (t : Task) (next : AfterStop) : (t.stopped next).spec = t.spec := by
  cases next <;> simp [stopped]

theorem counter_stopped (t : Task) (next : AfterStop) :
    (t.stopped next).counter = if next = .spawn then ⟨0⟩ else t.counter := by
  cases next <;> simp [stopped]

@[simp] theorem spec_handleExit (t : Task) (status : Option ExitStatus) (uptime : Duration) (now : Instant) :
    (t.handleExit status uptime now).spec = t.spec := by
  unfold handleExit
  dsimp only
  split <;> rfl

theorem counter_handleExit (t : Task) (status : Option ExitStatus) (uptime : Duration) (now : Instant) :
    (t.handleExit status uptime now).counter =
      match t.outcome status uptime with
      | .restartAfter _ => (t.counted uptime).recordRestart
      | _ => t.counted uptime := by
  unfold handleExit
  dsimp only
  split <;> simp_all

theorem phase_spawn (t : Task) : t.spawn.phase = .idle ∨ t.spawn.phase = .starting := by
  unfold spawn
  split
  · exact Or.inl rfl
  · exact Or.inr rfl

@[simp] theorem phase_spawn_ne (t : Task) (until' : Instant) : t.spawn.phase ≠ .backoff until' := by
  rcases t.phase_spawn with h | h <;> simp [h]

@[simp] theorem phase_operatorStart_ne (t : Task) (until' : Instant) : t.operatorStart.phase ≠ .backoff until' :=
  phase_spawn_ne _ _

end Selfhost.Supervisor.Task

/-! # The installed services -/

namespace Selfhost.Supervisor

open Selfhost.Lib

structure Services where
  /-- Every task that was ever started, also those that were replaced. -/
  tasks : List Task
  /-- The task of each installed service, by its place in the list. -/
  installed : Str → Option Nat

inductive Event where
  | remove (name : Str)
  /-- The part of `install` behind `remove`: the new task takes the name. -/
  | insert (spec : ServiceSpec)
  | send (name : Str) (command : Command)
  | markBuildFailed (name : Str) (reason : Str)
  | shutdown
  | task (index : Nat) (move : Move)

/-- The moves that a task makes by itself. -/
def Move.own : Move → Bool
  | .sent _ | .closed | .marked _ => false
  | _ => true

/-- A task whose handle is taken away with a shutdown. -/
def Task.dismiss (t : Task) : Task := (t.sent .shutdown).close

namespace Services

def empty : Services := ⟨[], fun _ => none⟩

/-- Changes the task of an installed service. -/
def onInstalled (s : Services) (name : Str) (f : Task → Task) : Services :=
  match s.installed name with
  | none => s
  | some index => { s with tasks := s.tasks.modify index f }

def remove (s : Services) (name : Str) : Services :=
  { s.onInstalled name Task.dismiss with installed := Function.update s.installed name none }

/-- A handle that is still there under the name is dropped, and with it the sender. -/
def insert (s : Services) (spec : ServiceSpec) : Services :=
  ⟨(s.onInstalled spec.name Task.close).tasks ++ [.new spec],
    Function.update s.installed spec.name (some s.tasks.length)⟩

/-- The shutdown of every installed service. -/
def shutdown (s : Services) : Services :=
  ⟨s.tasks.mapIdx fun index t => if s.installed t.spec.name = some index then t.dismiss else t, fun _ => none⟩

def step (s : Services) (event : Event) : Option Services :=
  match event with
  | .remove name => some (s.remove name)
  | .insert spec => some (s.insert spec)
  | .send name command => some (s.onInstalled name (·.sent command))
  | .markBuildFailed name reason => some (s.onInstalled name (·.set (.buildFailed reason)))
  | .shutdown => some s.shutdown
  | .task index move =>
      if move.own then
        match s.tasks[index]?.bind (·.step move) with
        | none => none
        | some t => some { s with tasks := s.tasks.set index t }
      else none

/-- The calls of `install`. -/
def install (spec : ServiceSpec) : List Event :=
  [.remove spec.name, .insert spec] ++ if spec.startsAutomatically then [.send spec.name .start] else []

def status (s : Services) (name : Str) (now : Instant) : Option ServiceState :=
  ((s.installed name).bind (s.tasks[·]?)).map (·.shared.currentState now)

end Services

end Selfhost.Supervisor
