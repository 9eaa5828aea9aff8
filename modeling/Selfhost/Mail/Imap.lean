import Selfhost.Http.Request
import Selfhost.Lib.Slice

/-!
# The IMAP session

The assembly of commands in `services/mail/src/imap.rs`: a line is a whole command, a part of one that goes on
with a literal, or an `APPEND` whose message follows. What a command does once it is assembled is a parameter:
`dispatch` and the answers of the driver change the state of the session, but never what is pending.
-/

namespace Selfhost.Mail

open Selfhost.Lib

/-- The longest command line, in bytes. -/
def maxImapLine : Nat := 8192

/-- The largest message that `APPEND` accepts, in bytes. -/
def maxAppendBytes : UInt64 := 50 * 1024 * 1024

inductive Status where
  | ok
  | no
  | bad
  | bye
  | preAuth
  deriving DecidableEq

def Status.text : Status → Str
  | .ok => "OK".toList
  | .no => "NO".toList
  | .bad => "BAD".toList
  | .bye => "BYE".toList
  | .preAuth => "PREAUTH".toList

/-- One response, as it goes over the wire. -/
structure IResponse where
  bytes : Bytes
  deriving DecidableEq

namespace IResponse

def fromLine (line : Str) : IResponse := ⟨utf8 (line ++ "\r\n".toList)⟩

def tagged (tag : Str) (status : Status) (text : Str) : IResponse :=
  fromLine (tag ++ ' ' :: status.text ++ ' ' :: text)

def untagged (text : Str) : IResponse := fromLine ('*' :: ' ' :: text)

def cont (text : Str) : IResponse := fromLine ('+' :: ' ' :: text)

end IResponse

inductive IState where
  | notAuthenticated
  | authenticated
  | selected
  | logout
  deriving DecidableEq

inductive Flag where
  | seen
  | answered
  | flagged
  | deleted
  | draft
  deriving DecidableEq

def Flag.parse (token : Str) : Option Flag :=
  let word := toAsciiUppercase token
  if word = "\\SEEN".toList then some .seen
  else if word = "\\ANSWERED".toList then some .answered
  else if word = "\\FLAGGED".toList then some .flagged
  else if word = "\\DELETED".toList then some .deleted
  else if word = "\\DRAFT".toList then some .draft
  else none

/-- What the connection does next; `α` are the actions of assembled commands. -/
inductive IAction (α : Type) where
  | respond (responses : List IResponse)
  | append (tag mailbox : Str) (flags : List Flag) (message : Bytes)
  | perform (action : α)

/-- An `APPEND` that has announced its message and is waiting for it. -/
structure PendingAppend where
  tag : Str
  mailbox : Str
  flags : List Flag
  expected : UInt64
  refusal : Option Str
  deriving DecidableEq

/-- A command that waits for the bytes of an argument. -/
structure PendingLiteral where
  assembled : Str
  expected : UInt64
  deriving DecidableEq

/-- A conversation; `κ` is its configuration, user and selected mailbox. -/
structure ISession (κ : Type) where
  state : IState
  core : κ
  pendingAuth : Option Str
  pendingLiteral : Option PendingLiteral
  pendingAppend : Option PendingAppend

/-- What assembled commands and SASL responses do. A command may ask for a SASL response under its tag. -/
structure Commands (κ α : Type) where
  dispatch : IState → κ → Str → IState × κ × Option Str × IAction α
  authenticateResponse : κ → Str → Str → IAction α

/-! ## Arguments -/

/-- The contents of a quoted string behind its opening quote, and the text behind its closing one. -/
def quoted : Str → Option (Str × Str)
  | [] => none
  | '"' :: rest => some ([], rest)
  | ['\\'] => none
  | '\\' :: c :: rest => (quoted rest).map fun p => (c :: p.1, p.2)
  | c :: rest => (quoted rest).map fun p => (c :: p.1, p.2)

/-- The next argument, a quoted string or an atom, and the text behind it. -/
def nextArg (input : Str) : Option (Str × Str) :=
  match trimStart input with
  | [] => none
  | '"' :: afterQuote => (quoted afterQuote).map fun p => (p.1, trimStart p.2)
  | '\x7b' :: _ => none
  | text => some (text.takeWhile (· != ' '), trimStart (text.dropWhile (· != ' ')))

/-- An argument as a quoted string. -/
def quoteArgument (value : Str) : Str :=
  '"' :: (value.flatMap fun c => if c = '\\' ∨ c = '"' then ['\\', c] else [c]) ++ ['"']

/-! ## Literals -/

/-- The announcement of a literal at the end of a line: the text before it, the number of bytes, and whether the
client waits to be invited. -/
def splitTrailingLiteral (line : Str) : Option (Str × UInt64 × Bool) :=
  if line.getLast? ≠ some '\x7d' then none
  else
    match rsplitOnce '\x7b' line.dropLast with
    | none => none
    | some (head, count) =>
        if head.getLast? ≠ some ' ' then none
        else
          let synchronizing := count.getLast? ≠ some '+'
          let digits := if synchronizing then count else count.dropLast
          (Http.parseU64 digits).map fun n => (head, UInt64.ofNat n, synchronizing)

/-- The command with the bytes of its literal, which the line starts with, as a quoted string. -/
def foldLiteral (pending : PendingLiteral) (line : Str) : Except IResponse Str :=
  match splitAtByte pending.expected.toNat line with
  | none => .error (.untagged ("BAD literal shorter than announced or split mid-character; ".toList ++
      "literals containing CR/LF are not supported".toList))
  | some (contents, rest) => .ok (pending.assembled ++ quoteArgument contents ++ rest)

def refuseLiteral (line : Str) : IResponse :=
  match (splitWhitespace line).head? with
  | some tag => .tagged tag .bad "literal too large".toList
  | none => .untagged "BAD literal too large".toList

/-- The arguments of an `APPEND` command, with its tag. -/
def appendArgs (head : Str) : Option (Str × Str) :=
  (splitOnce ' ' head).bind fun (tag, remainder) =>
    (splitOnce ' ' remainder).bind fun (verb, args) =>
      if eqIgnoreAsciiCase verb "APPEND".toList then some (trim tag, args) else none

/-- Recognises an `APPEND` before its message. A refusal is kept with the size, because the client sends the
message in any case. -/
def parseAppend (state : IState) (head : Str) (expected : UInt64) : Option PendingAppend :=
  (appendArgs head).map fun (tag, args) =>
    let refuse (why : String) : PendingAppend := ⟨tag, [], [], expected, some why.toList⟩
    if state = .notAuthenticated then refuse "APPEND requires authentication"
    else if maxAppendBytes < expected then refuse "[TOOBIG] message exceeds the append limit"
    else
      match nextArg (trimStart args) with
      | none => refuse "APPEND needs a mailbox"
      | some (mailbox, rest) =>
          if mailbox = [] then refuse "APPEND needs a mailbox"
          else
            match trimStart rest with
            | '(' :: afterOpen =>
                match splitOnce ')' afterOpen with
                | some (inside, _) => ⟨tag, mailbox, (splitWhitespace inside).filterMap Flag.parse, expected, none⟩
                | none => refuse "APPEND flag list is not closed"
            | _ => ⟨tag, mailbox, [], expected, none⟩

/-! ## Sessions -/

namespace ISession

variable {κ α : Type}

def new (core : κ) : ISession κ := ⟨.notAuthenticated, core, none, none, none⟩

/-- The command so far: the line, behind what is pending. -/
def assemble (s : ISession κ) (line : Str) : Except IResponse Str :=
  match s.pendingLiteral with
  | some pending => foldLiteral pending (trimLineEnd line)
  | none => .ok (trimLineEnd line)

/-- `prefix.len() + expected`, which wraps. -/
def literalSum (head : Str) (expected : UInt64) : UInt64 := UInt64.ofNat (byteLen head) + expected

/-- An assembled line that ends with the announcement of a literal. -/
def announce (s : ISession κ) (logical head : Str) (expected : UInt64) (synchronizing : Bool) :
    ISession κ × IAction α :=
  match parseAppend s.state head expected with
  | some pending =>
      ({ s with pendingAppend := some pending },
        .respond (if synchronizing then [.cont "Ready for message".toList] else []))
  | none =>
      if maxImapLine < (literalSum head expected).toNat then (s, .respond [refuseLiteral logical])
      else
        ({ s with pendingLiteral := some ⟨head, expected⟩ },
          .respond (if synchronizing then [.cont "Ready for literal".toList] else []))

/-- Feeds one line. -/
def command (c : Commands κ α) (s : ISession κ) (line : Str) : ISession κ × IAction α :=
  if maxImapLine < byteLen line then (s, .respond [.untagged "BAD command line too long".toList])
  else
    match s.pendingAuth with
    | some tag => ({ s with pendingAuth := none }, c.authenticateResponse s.core tag line)
    | none =>
        let s' := { s with pendingLiteral := none }
        match s.assemble line with
        | .error response => (s', .respond [response])
        | .ok logical =>
            match splitTrailingLiteral logical with
            | some (head, expected, synchronizing) => s'.announce logical head expected synchronizing
            | none =>
                let (state, core, pendingAuth, action) := c.dispatch s.state s.core logical
                ({ s' with state, core, pendingAuth }, action)

/-- How many bytes of a message the driver reads, into a buffer of that size. -/
def awaitingMessage (s : ISession κ) : Option UInt64 := s.pendingAppend.map PendingAppend.expected

/-- Takes the bytes of the message. -/
def messageOctets (s : ISession κ) (message : Bytes) : ISession κ × IAction α :=
  match s.pendingAppend with
  | none => (s, .respond [.untagged "BAD no message was expected".toList])
  | some pending =>
      ({ s with pendingAppend := none },
        match pending.refusal with
        | some why => .respond [.tagged pending.tag .no why]
        | none => .append pending.tag pending.mailbox pending.flags message)

end ISession

end Selfhost.Mail
