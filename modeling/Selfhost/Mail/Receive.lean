import Selfhost.Lib.Ip
import Selfhost.Mail.Smtp
import Selfhost.Mail.Store

/-!
# The inbound receiver

`services/mail/src/receive.rs`: the mail exchanger on port 25. It reads command lines from the client's bytes
and hands them to the session, checks what the session cannot know of a recipient, and reads and stores the
message after `DATA`.
-/

namespace Selfhost.Mail

open Selfhost.Lib

/-! ## Lines -/

/-- Where `read_command_line` stops reading a line that has no end. -/
def lineCap : Nat := maxCommandLine * 2

/-- The bytes up to and including the next LF, but no more than `n`, and the bytes behind them. -/
def takeLine : Nat → Bytes → Bytes × Bytes
  | 0, input => ([], input)
  | _, [] => ([], [])
  | n + 1, b :: input =>
      if b = lf then ([b], input) else (b :: (takeLine n input).1, (takeLine n input).2)

/-- One command line, decoded, with the number of bytes that were read. -/
def readCommandLine (input : Bytes) : Str × Nat × Bytes :=
  let (raw, rest) := takeLine lineCap input
  (fromUtf8Lossy raw, raw.length, rest)

/-- Whether a line is a `RCPT` command; `get` gives nothing for a cut inside a character. -/
def isRcpt (line : Str) : Bool :=
  match splitAtByte 4 (trimStart line) with
  | some (head, _) => eqIgnoreAsciiCase head "RCPT".toList
  | none => false

/-- The text after `TO:`, in any case; `none` is the panic of the slice. -/
def afterTo (rest : Str) : Option (Option Str) :=
  match stripStart "TO:".toList rest with
  | some tail => some (some tail)
  | none =>
      match splitAtByte 3 rest with
      | some (head, _) =>
          if eqIgnoreAsciiCase head "TO:".toList then (splitAtByte 3 rest).map fun p => some p.2 else some none
      | none => some none

/-- The address in a `RCPT TO:<…>` line; the outer `none` is a panic. -/
def rcptAddress (line : Str) : Option (Option Address) :=
  match splitOnce ' ' (trimLineEnd line) with
  | none => some none
  | some (_, rest) =>
      (afterTo (trim rest)).map fun after =>
        after.bind fun text =>
          match Path.parse ((splitWhitespace text).head?.getD []) with
          | .ok (.mailbox address) => some address
          | _ => none

/-! ## Message content -/

def dot : UInt8 := 0x2E

/-- The lone dot, with any line end or none. -/
def isTerminator (line : Bytes) : Bool := line == [dot, cr, lf] || line == [dot, lf] || line == [dot]

def unstuff (line : Bytes) : Bytes := if [dot, dot] <+: line then line.drop 1 else line

/-- Where reading stops, well past the limit. -/
def hardCeiling (max : UInt64) : UInt64 := saturatingAdd max (1024 * 1024)

/-- What is held while a message is read: its content so far and the line that is being read. -/
structure DataState where
  body : Bytes
  line : Bytes
  oversize : Bool
  deriving DecidableEq

/-- How the reading of a message ended. -/
inductive DataEnd where
  | terminated (body : Bytes) (oversize : Bool)
  | closed
  | tooLarge
  deriving DecidableEq

namespace DataState

def start : DataState := ⟨[], [], false⟩

def push (st : DataState) (b : UInt8) : DataState := { st with line := st.line ++ [b] }

/-- What is done with a line once it is complete. -/
def takeLine (max : UInt64) (st : DataState) : Except DataEnd DataState :=
  if isTerminator st.line then .error (.terminated st.body st.oversize)
  else
    let unstuffed := unstuff st.line
    if st.body.length + unstuffed.length ≤ max.toNat then .ok ⟨st.body ++ unstuffed, [], st.oversize⟩
    else if (hardCeiling max).toNat ≤ st.body.length then .error .tooLarge
    else .ok ⟨st.body, [], true⟩

end DataState

/-- Reads a message up to its terminator, byte by byte; also gives the bytes behind it. -/
@[simp] def readData (max : UInt64) : DataState → Bytes → DataEnd × Bytes
  -- At the end of the stream `read_until` still gives the bytes of a line without an end.
  | st, [] =>
      if st.line = [] then (.closed, [])
      else
        match st.takeLine max with
        | .error e => (e, [])
        | .ok _ => (.closed, [])
  | st, b :: input =>
      if b = lf then
        match (st.push b).takeLine max with
        | .error e => (e, input)
        | .ok st => readData max st input
      else readData max (st.push b) input

/-! ## The greylist -/

/-- The client, the sender and the recipient of an attempt, and when it was first seen. -/
structure Attempt where
  peer : IpAddr
  sender : Str
  recipient : Str
  deriving DecidableEq

structure Greylist where
  delay : Nat
  seen : List (Attempt × Nat)

/-- Whether an attempt is deferred: the first one is, and is recorded; a later one is until the delay is over. -/
def Greylist.shouldDefer (g : Greylist) (now : Nat) (a : Attempt) : Greylist × Bool :=
  match g.seen.find? fun entry => entry.1 = a with
  | some (_, first) => (g, decide (now - first < g.delay))
  | none => ({ g with seen := g.seen ++ [(a, now)] }, true)

/-! ## The conversation -/

structure Receiver where
  policy : Policy
  tables : Tables
  hasTls : Bool

/-- The checks of a recipient that the session cannot make. -/
def refineRcpt (r : Receiver) (line : Str) (reply : Reply) (s : Session) (greylist : Option Greylist) (now : Nat)
    (peer : IpAddr) : Option (Reply × Option Greylist) :=
  if reply.code ≠ 250 ∨ !isRcpt line then some (reply, greylist)
  else
    (rcptAddress line).map fun
      | none => (reply, greylist)
      | some address =>
          if !r.tables.has address then (.line 550 "no such mailbox at this domain", greylist)
          else
            match greylist with
            | none => (reply, none)
            | some g =>
                let (g, deferred) := g.shouldDefer now ⟨peer, (s.sender.map Path.text).getD [], address.text⟩
                if deferred then (.line 451 "greylisted: please retry shortly", some g) else (reply, some g)

/-- The trace field of a stored message. -/
def receivedHeader (policy : Policy) (helo : Str) (peer : IpAddr) (date : Str) : Str :=
  "from ".toList ++ helo ++ " ([".toList ++ peer.display ++ "]) by ".toList ++ policy.hostname ++
    " with ESMTP; ".toList ++ date

/-- The mailboxes that the recipients resolve to, each once. -/
def targets (t : Tables) : List Address → List Address → List Address
  | found, [] => found
  | found, recipient :: rest =>
      match t.resolve recipient with
      | none => targets t found rest
      | some mailbox => targets t (if mailbox ∈ found then found else found ++ [mailbox]) rest

/-- Delivers to one mailbox after the other until one cannot be written. Gives the mailboxes that were written,
and whether all were. -/
def deliverAll (t : Tables) (writes : Address → Bool) : List Address → List Address × Bool
  | [] => ([], true)
  | target :: rest =>
      match t.resolve target with
      | none => ([], false)
      | some mailbox =>
          if writes mailbox then (mailbox :: (deliverAll t writes rest).1, (deliverAll t writes rest).2)
          else ([], false)

/-- What the end of a message came to: the reply, unless the connection is dropped, and the mailboxes that were
written with what was written to them. -/
structure Outcome where
  reply : Option Reply
  delivered : List Address
  message : Option Message
  deriving DecidableEq

def Outcome.refused (code : Nat) (text : String) : Outcome := ⟨some (.line code text), [], none⟩

/-- The delivery of a message that was read. -/
def store (r : Receiver) (e : Envelope) (body : Bytes) (peer : IpAddr) (date : Str) (writes : Address → Bool) :
    Outcome :=
  match Message.parse body with
  -- An empty message is an I/O error, which drops the connection.
  | none => ⟨none, [], none⟩
  | some m =>
      let message := m.withPrependedHeader "Received".toList (receivedHeader r.policy e.helo peer date)
      let (delivered, all) := deliverAll r.tables writes (targets r.tables [] e.recipients)
      let reply : Reply :=
        if !all then .line 451 "temporary failure writing to mailbox"
        else if delivered = [] then .line 550 "no valid recipients"
        else .line 250 "message accepted for delivery"
      ⟨some reply, delivered, some message⟩

/-- `read_and_store`: reads the content of a message and stores it. -/
def readAndStore (r : Receiver) (s : Session) (input : Bytes) (peer : IpAddr) (date : Str)
    (writes : Address → Bool) : Outcome × Session × Option Envelope × Bytes :=
  let (dataEnd, rest) := readData r.policy.maxMessageBytes .start input
  let (s, envelope) := s.finishData
  let outcome :=
    match dataEnd with
    | .closed => .refused 451 "connection closed before end of message"
    | .tooLarge => .refused 552 "message exceeds the size limit"
    | .terminated body oversize =>
        match envelope with
        | none => .refused 451 "no transaction to complete"
        | some e =>
            if oversize then .refused 552 "message exceeds the size limit"
            else store r e body peer date writes
  (outcome, s, envelope, rest)

end Selfhost.Mail

/-! # Submission -/

namespace Selfhost.Mail

open Selfhost.Lib

structure Submission where
  policy : Policy
  tables : Tables

/-- What the end of a submitted message came to. -/
structure Routed where
  reply : Reply
  delivered : List Address
  spooled : Option (Envelope × Message)

def Routed.refused (code : Nat) (text : String) : Routed := ⟨.line code text, [], none⟩

/-- Splits the recipients of a message that was read. `queues` says whether the spool can be written. -/
def route (r : Submission) (e : Envelope) (body : Bytes) (writes : Address → Bool) (queues : Bool) : Routed :=
  match Message.parse body with
  | none => .refused 554 "message has no headers"
  | some m =>
      let (ours, remote) := e.recipients.partition fun recipient => recipient.isLocalTo r.policy.localDomains
      let (delivered, all) := deliverAll r.tables writes (targets r.tables [] ours)
      if !all then ⟨.line 451 "could not store the message; try again", delivered, none⟩
      else if remote = [] then ⟨.line 250 "message accepted for delivery", delivered, none⟩
      else if queues then
        ⟨.line 250 "message accepted for delivery", delivered, some (⟨e.sender, remote, e.helo⟩, m)⟩
      else ⟨.line 451 "could not queue the message; try again", delivered, none⟩

/-- `read_and_enqueue`: reads the content of a message and routes it. -/
def readAndEnqueue (r : Submission) (s : Session) (input : Bytes) (writes : Address → Bool) (queues : Bool) :
    Routed × Session × Bytes :=
  let (dataEnd, rest) := readData r.policy.maxMessageBytes .start input
  let (s, envelope) := s.finishData
  let routed :=
    match dataEnd with
    | .closed => .refused 451 "connection closed before end of message"
    | .tooLarge => .refused 552 "message exceeds the size limit"
    | .terminated body oversize =>
        match envelope with
        | none => .refused 451 "no transaction to complete"
        | some e =>
            if oversize then .refused 552 "message exceeds the size limit"
            else route r e body writes queues
  (routed, s, rest)

end Selfhost.Mail
