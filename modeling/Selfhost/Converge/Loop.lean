import Selfhost.Lib.Machine
import Selfhost.Lib.Slice
import Selfhost.Supervisor.Task

/-!
# The repair ledger

The lines of `repair.log` as `app/cli/src/converge.rs` writes and reads them. The ledger is the text of the file.
-/

namespace Selfhost.Identity

open Selfhost.Lib

def maxDetailChars : Nat := 256

/-- Whether a byte may stand in a field as itself. -/
def isBare (b : UInt8) : Bool :=
  0x21 ≤ b && b ≤ 0x7E && !(b = 0x25 || b = 0x3D || b = 0x22 || b = 0x5C || b = 0x7E)

def escapeByte (b : UInt8) : Str :=
  if isBare b then [Char.ofNat b.toNat] else ['%', hexDigit (b.toNat / 16), hexDigit (b.toNat % 16)]

def escapeField (text : Str) : Str :=
  let kept := text.take maxDetailChars
  if kept = [] then ['-']
  else (utf8 kept).flatMap escapeByte ++ if maxDetailChars < text.length then ['~'] else []

end Selfhost.Identity

/-! # The repair ledger -/

namespace Selfhost.Converge

open Selfhost.Lib Selfhost.Identity

inductive Event where
  | fault | repaired | stillFailing | escalated | recovered | drift | driftRepaired
  deriving DecidableEq, Repr

namespace Event

def asStr : Event → Str
  | .fault => "fault".toList
  | .repaired => "repaired".toList
  | .stillFailing => "still-failing".toList
  | .escalated => "escalated".toList
  | .recovered => "recovered".toList
  | .drift => "drift".toList
  | .driftRepaired => "drift-repaired".toList

def all : List Event := [.fault, .repaired, .stillFailing, .escalated, .recovered, .drift, .driftRepaired]

def parse (word : Str) : Option Event := all.find? fun event => event.asStr = word

end Event

def ledgerFormat : Str := "selfhost-repair/1".toList

structure Entry where
  atUnix : UInt64
  component : Str
  event : Event
  detail : Str
  deriving DecidableEq, Repr

/-- `from_str_radix` of two bytes that stand behind a percent sign. -/
def hexByte (a b : UInt8) : Option UInt8 :=
  match hexValue a, hexValue b with
  | some x, some y => some (UInt8.ofNat (16 * x + y))
  | none, some y => if a = 0x2B then some (UInt8.ofNat y) else none
  | _, none => none

/-- Fewer than three bytes hold no escape. -/
def unescapeBytes : Bytes → Bytes
  | byte :: a :: b :: rest =>
      match if byte = 0x25 then hexByte a b else none with
      | some decoded => decoded :: unescapeBytes rest
      | none => byte :: unescapeBytes (a :: b :: rest)
  | short => short

def unescapeField (raw : Str) : Str := fromUtf8Lossy (unescapeBytes (utf8 raw))

namespace Entry

def line (entry : Entry) : Str :=
  ledgerFormat ++ " at=".toList ++ natText entry.atUnix.toNat ++ " component=".toList ++ escapeField entry.component ++
    " event=".toList ++ entry.event.asStr ++ " detail=".toList ++ escapeField entry.detail

/-- The fields read so far; the event is missing until its field is read, and when its word is unknown. -/
structure Fields where
  atUnix : UInt64
  component : Str
  event : Option Event
  detail : Str

def readField (fields : Fields) (field : Str) : Option Fields :=
  match splitOnce '=' field with
  | none => none
  | some (name, value) =>
      if name = "at".toList then (parseUnsigned u64Max value).map fun n => { fields with atUnix := UInt64.ofNat n }
      else if name = "component".toList then some { fields with component := unescapeField value }
      else if name = "event".toList then some { fields with event := Event.parse value }
      else if name = "detail".toList then some { fields with detail := unescapeField value }
      else some fields

def parse (line : Str) : Option Entry :=
  match stripStart ledgerFormat line with
  | none => none
  | some rest =>
      match (splitWhitespace rest).foldlM readField ⟨0, [], none, []⟩ with
      | none => none
      | some fields => fields.event.map fun event => ⟨fields.atUnix, fields.component, event, fields.detail⟩

end Entry

/-- `lines`: the pieces that a line feed ends, and the rest when it is not empty. -/
def textLines (text : Str) : List Str :=
  let pieces := text.splitOn '\n'
  let kept := if pieces.getLast? = some [] then pieces.dropLast else pieces
  kept.map fun line => if line.getLast? = some '\r' then line.dropLast else line

structure Ledger where
  text : Str
  deriving DecidableEq, Repr

namespace Ledger

def append (ledger : Ledger) (entry : Entry) : Ledger := ⟨ledger.text ++ entry.line ++ ['\n']⟩

def entries (ledger : Ledger) : List Entry := (textLines ledger.text).filterMap Entry.parse

/-- One turn of the loop in `outstanding`, over a map from components to their latest escalation. -/
def latest (found : List (Str × Entry)) (entry : Entry) : List (Str × Entry) :=
  let others := found.filter fun p => p.1 ≠ entry.component
  match entry.event with
  | .escalated => (entry.component, entry) :: others
  | .recovered | .repaired | .driftRepaired => others
  | _ => found

/-- The escalations that nothing has ended. The source orders them by component. -/
def outstanding (ledger : Ledger) : List Entry := (ledger.entries.foldl latest []).map Prod.snd

end Ledger

end Selfhost.Converge

/-!
# The convergence loop

`handle` and `check_registration_drift` in `app/cli/src/converge.rs`. What the service manager says and does, the
probe behind a repair and the clocks are inputs; every write to the ledger succeeds.
-/

namespace Selfhost.Converge

open Selfhost.Lib Selfhost.Supervisor

inductive Component where
  | dns | http | https | controlApi
  deriving DecidableEq, Repr

namespace Component

def label : Component → Str
  | .dns => "dns".toList
  | .http => "http".toList
  | .https => "https".toList
  | .controlApi => "control-api".toList

def inProcess : Component → Bool
  | .dns => false
  | .http | .https | .controlApi => true

end Component

inductive Serving where
  | yes | no | notDeclared | untestable
  deriving DecidableEq, Repr

def Serving.isFault (serving : Serving) : Bool := serving = .no

structure Probe where
  component : Component
  serving : Serving
  detail : Str
  deriving DecidableEq, Repr

def maxAttempts : UInt32 := 3

def healthyWindow : Duration := .fromSecs 300

def settleBase : Duration := .fromSecs 5

inductive Response where
  | rest
  | repair (attempt : UInt32) (settle : Duration)
  | escalate (after : UInt32)
  | silent
  deriving DecidableEq, Repr

def decide (fault : Bool) (consecutive : UInt32) (escalated : Bool) : Response :=
  if !fault then .rest
  else if escalated then .silent
  else if maxAttempts ≤ consecutive then .escalate consecutive
  else .repair (consecutive + 1) (backoff settleBase consecutive)

/-- What the loop remembers of a component. -/
structure Watch where
  failures : FailureCounter
  servingSince : Option Instant
  escalated : Bool
  faulted : Bool
  deriving DecidableEq, Repr

def Watch.default : Watch := ⟨.default, none, false, false⟩

structure Observed where
  response : Response
  newlyFaulted : Bool
  recovered : Bool
  deriving DecidableEq, Repr

/-- `Supervision::observe` for one component. -/
def Watch.observe (watch : Watch) (fault : Bool) (now : Instant) : Watch × Observed :=
  if !fault then
    let since := watch.servingSince.getD now
    let failures := watch.failures.noteUptime (.between since now) healthyWindow
    (⟨failures, some since, watch.escalated && failures.consecutive ≠ 0, false⟩, ⟨.rest, false, watch.faulted⟩)
  else
    let response := decide true watch.failures.consecutive watch.escalated
    let watch' : Watch := { watch with faulted := true, servingSince := none }
    (match response with
      | .repair .. => { watch' with failures := watch.failures.recordRestart }
      | .escalate _ => { watch' with escalated := true }
      | .rest | .silent => watch', ⟨response, !watch.faulted, false⟩)

end Selfhost.Converge

/-! # The convergence loop -/

namespace Selfhost.Converge

open Selfhost.Lib Selfhost.Supervisor

inductive Repair where
  | restart (what : Str)
  | unavailable (because : Str)
  deriving DecidableEq, Repr

def lanDnsTaskName : Str := "selfhost-lan-dns".toList

/-- The names of the registrations whose settings are compared, on any platform. -/
def managedNames : List Str :=
  ["selfhost-daemon".toList, lanDnsTaskName, "selfhost-vpn".toList, "selfhost-watchdog".toList,
    "com.selfhost.daemon".toList, "selfhost-daemon.service".toList]

/-- The repair of a component: `dnsSection` when the config has one, `registration` when DNS is registered by
itself. -/
def repairFor (component : Component) (dnsSection : Bool) (registration : Option Str) : Repair :=
  if component.inProcess then
    .unavailable (component.label ++ (" runs inside this daemon's own process, which supervision does not restart " ++
      "from within — a listener that genuinely stopped ends the process and the service manager brings the whole " ++
      "deployment back together").toList)
  else if dnsSection then
    .unavailable ("this deployment has a [dns] section, so DNS is served by the daemon's own :53 arm rather than by a " ++
      "separate registration").toList
  else
    match registration with
    | some name => .restart name
    | none =>
        .unavailable ("nothing is serving DNS and there is no separate registration named ".toList ++ lanDnsTaskName ++
          (" to restart — install one, or give this deployment a [dns] section so the daemon serves :53 " ++
            "itself").toList)

/-- What a probe meets: the clocks, the configuration, and what comes of a repair. -/
structure Surroundings where
  now : Instant
  unix : UInt64
  dnsSection : Bool
  registration : Option Str
  /-- Whether the restart could be carried out. -/
  carried : Except Str Unit
  /-- The probe behind the restart. -/
  after : Serving
  afterDetail : Str

/-- What was observed of a component, and what followed. -/
structure Observation where
  component : Component
  fault : Bool
  now : Instant
  response : Response
  deriving DecidableEq, Repr

structure ConvergeLoop where
  ledger : Ledger
  supervision : Component → Watch
  /-- Every observation, the oldest first. -/
  log : List Observation

namespace ConvergeLoop

def new (ledger : Ledger) : ConvergeLoop := ⟨ledger, fun _ => .default, []⟩

def record (s : ConvergeLoop) (unix : UInt64) (component : Str) (event : Event) (detail : Str) : ConvergeLoop :=
  { s with ledger := s.ledger.append ⟨unix, component, event, detail⟩ }

def attemptText (attempt : UInt32) : Str :=
  "attempt ".toList ++ natText attempt.toNat ++ " of ".toList ++ natText maxAttempts.toNat ++ ": ".toList

/-- The entry that a repair leaves behind. -/
def repairEntry (component : Component) (attempt : UInt32) (e : Surroundings) : Event × Str :=
  match repairFor component e.dnsSection e.registration with
  | .unavailable because => (.stillFailing, attemptText attempt ++ because)
  | .restart what =>
      match e.carried, e.after with
      | .error error, _ =>
          (.stillFailing, attemptText attempt ++ "restarting ".toList ++ what ++ " failed: ".toList ++ error)
      | .ok (), .yes =>
          (.repaired, attemptText attempt ++ "restarted ".toList ++ what ++ "; it is serving again (".toList ++
            e.afterDetail ++ ")".toList)
      | .ok (), _ =>
          (.stillFailing, attemptText attempt ++ "restarted ".toList ++ what ++ " and it is still not serving (".toList ++
            e.afterDetail ++ ")".toList)

def escalationText (after : UInt32) (detail : Str) : Str :=
  natText after.toNat ++ (" repair(s) did not bring it back, so supervision has stopped trying and is saying so " ++
    "instead; last observation: ").toList ++ detail

/-- The probe folded into the memory of its component. -/
def observe (s : ConvergeLoop) (probe : Probe) (now : Instant) : ConvergeLoop × Observed :=
  let (watch, observed) := (s.supervision probe.component).observe probe.serving.isFault now
  (⟨s.ledger, Function.update s.supervision probe.component watch,
    s.log ++ [⟨probe.component, probe.serving.isFault, now, observed.response⟩]⟩, observed)

/-- A recovery or a new fault goes into the ledger. -/
def announce (s : ConvergeLoop) (probe : Probe) (unix : UInt64) (observed : Observed) : ConvergeLoop :=
  let label := probe.component.label
  let s := if observed.recovered then s.record unix label .recovered probe.detail else s
  if observed.newlyFaulted then s.record unix label .fault probe.detail else s

def respond (s : ConvergeLoop) (probe : Probe) (e : Surroundings) : Response → ConvergeLoop
  | .rest | .silent => s
  | .escalate after => s.record e.unix probe.component.label .escalated (escalationText after probe.detail)
  | .repair attempt _ =>
      let (event, detail) := repairEntry probe.component attempt e
      s.record e.unix probe.component.label event detail

def handle (s : ConvergeLoop) (probe : Probe) (e : Surroundings) : ConvergeLoop :=
  let (s, observed) := s.observe probe e.now
  (s.announce probe e.unix observed).respond probe e observed.response

/-- A registration whose settings differ, and whether they were rewritten. -/
structure Drifted where
  label : Str
  managed : label ∈ managedNames
  summary : Str
  repaired : Except Str Bool
  unix : UInt64

def drift (s : ConvergeLoop) (d : Drifted) : ConvergeLoop :=
  let s := s.record d.unix d.label .drift ("does not match what it was installed as: ".toList ++ d.summary)
  match d.repaired with
  | .ok true =>
      s.record d.unix d.label .driftRepaired
        "its settings were rewritten to what they were meant to be; what it runs is unchanged".toList
  | .ok false => s
  | .error error => s.record d.unix d.label .drift ("not repaired: ".toList ++ error)

inductive Turn where
  | drifted (d : Drifted)
  | probed (probe : Probe) (e : Surroundings)

def step (s : ConvergeLoop) : Turn → Option ConvergeLoop
  | .drifted d => some (s.drift d)
  | .probed probe e => some (s.handle probe e)

end ConvergeLoop

end Selfhost.Converge
