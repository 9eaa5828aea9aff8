import Selfhost.Lib.Machine
import Selfhost.Mail.Store

/-!
# The SMTP session

The state machine of `services/mail/src/smtp.rs`: a command line in, an action out. A slice inside a character
panics and is `none`.
-/

namespace Selfhost.Mail

open Selfhost.Lib

/-- The longest command line, in bytes. -/
def maxCommandLine : Nat := 512

/-- The most recipients of one message. -/
def maxRecipients : Nat := 100

structure Reply where
  code : Nat
  lines : List Str
  deriving DecidableEq

namespace Reply

def line (code : Nat) (text : String) : Reply := ⟨code, [text.toList]⟩

def text (code : Nat) (text : Str) : Reply := ⟨code, [text]⟩

end Reply

inductive State where
  | greeted
  | ready
  | haveSender
  | haveRecipients
  | readingData
  | closed
  deriving DecidableEq, Repr

/-- What the caller does after a command. -/
inductive Action where
  | reply (r : Reply)
  | readData (r : Reply)
  | close (r : Reply)
  | startTls (r : Reply)
  | verifyCredentials (mechanism initialResponse : Str)
  | awaitCredentials (mechanism : Str) (r : Reply)
  deriving DecidableEq

structure Envelope where
  sender : Path
  recipients : List Address
  helo : Str
  deriving DecidableEq

structure Policy where
  hostname : Str
  localDomains : List Str
  tlsAvailable : Bool
  allowAuthWithoutTls : Bool
  maxMessageBytes : UInt64
  deriving DecidableEq

structure Session where
  policy : Policy
  state : State
  helo : Option Str
  sender : Option Path
  recipients : List Address
  tlsActive : Bool
  authenticated : Bool
  deriving DecidableEq

/-! ## Arguments -/

/-- A keyword such as `FROM:` stripped from an argument, in any case. The cut is at the keyword's length in
bytes: `none` is the panic of a cut inside a character. -/
def stripKeyword (rest keyword : Str) : Option (Option Str) :=
  let trimmed := trimStart rest
  if byteLen trimmed < byteLen keyword then some none
  else
    (splitAtByte (byteLen keyword) trimmed).map fun (head, tail) =>
      if eqIgnoreAsciiCase head keyword then some (trim tail) else none

/-- The first word of an argument. -/
def pathText (argument : Str) : Str := (splitWhitespace argument).head?.getD argument

/-- The `SIZE=` parameter: absent, malformed, or a number. -/
inductive SizeParameter where
  | absent
  | malformed
  | declared (bytes : Nat)
  deriving DecidableEq, Repr

def sizeOf (value : Str) : SizeParameter :=
  if value = [] ∨ !(utf8 value).all fun b => 0x30 ≤ b && b ≤ 0x39 then .malformed
  else if u64Max < decimalValue value then .malformed
  else .declared (decimalValue value)

/-- The first parameter whose key is `SIZE`. -/
def sizeAmong : List Str → SizeParameter
  | [] => .absent
  | parameter :: rest =>
      match splitOnce '=' parameter with
      | none => sizeAmong rest
      | some (key, value) => if eqIgnoreAsciiCase key "SIZE".toList then sizeOf value else sizeAmong rest

def sizeParameter (argument : Str) : SizeParameter := sizeAmong ((splitWhitespace argument).drop 1)

/-! ## Commands -/

inductive Verb where
  | ehlo
  | helo
  | mail
  | rcpt
  | data
  | rset
  | noop
  | vrfy
  | starttls
  | auth
  | quit
  | empty
  | other (name : Str)
  deriving DecidableEq

def Verb.parse (name : Str) : Verb :=
  if name = "EHLO".toList then .ehlo
  else if name = "HELO".toList then .helo
  else if name = "MAIL".toList then .mail
  else if name = "RCPT".toList then .rcpt
  else if name = "DATA".toList then .data
  else if name = "RSET".toList then .rset
  else if name = "NOOP".toList then .noop
  else if name = "VRFY".toList then .vrfy
  else if name = "STARTTLS".toList then .starttls
  else if name = "AUTH".toList then .auth
  else if name = "QUIT".toList then .quit
  else if name = [] then .empty
  else .other name

/-- The verb of a command line and its argument. -/
def splitCommand (line : Str) : Verb × Str :=
  let trimmed := trimLineEnd line
  match splitOnce ' ' trimmed with
  | some (verb, rest) => (.parse (toAsciiUppercase verb), trim rest)
  | none => (.parse (toAsciiUppercase trimmed), [])

namespace Session

def new (policy : Policy) : Session := ⟨policy, .greeted, none, none, [], false, false⟩

/-- Forgets everything that was said before the upgrade. -/
def tlsEstablished (s : Session) : Session :=
  { s with tlsActive := true, helo := none, sender := none, recipients := [], state := .greeted }

def authenticationSucceeded (s : Session) : Session := { s with authenticated := true }

def resetTransaction (s : Session) : Session :=
  { s with sender := none, recipients := [], state := if s.helo.isSome then .ready else s.state }

/-- An action that leaves the session as it is. -/
def answer (s : Session) (code : Nat) (text : String) : Session × Action := (s, .reply (.line code text))

/-- What `EHLO` and `HELO` do to the session. -/
def greet (s : Session) (domain : Str) : Session :=
  { ({ s with helo := some domain }).resetTransaction with state := .ready }

def capabilities (s : Session) (domain : Str) : List Str :=
  [s.policy.hostname ++ " greets ".toList ++ domain,
    "SIZE ".toList ++ natText s.policy.maxMessageBytes.toNat, "8BITMIME".toList, "ENHANCEDSTATUSCODES".toList,
    "PIPELINING".toList] ++
  (if s.policy.tlsAvailable && !s.tlsActive then ["STARTTLS".toList] else []) ++
  -- Advertised only where credentials would be protected.
  (if s.tlsActive || s.policy.allowAuthWithoutTls then ["AUTH PLAIN LOGIN".toList] else [])

def ehlo (s : Session) (domain : Str) : Session × Action :=
  if domain = [] then s.answer 501 "EHLO requires a domain"
  else (s.greet domain, .reply ⟨250, s.capabilities domain⟩)

def heloCommand (s : Session) (domain : Str) : Session × Action :=
  if domain = [] then s.answer 501 "HELO requires a domain"
  else (s.greet domain, .reply (.text 250 (s.policy.hostname ++ " greets ".toList ++ domain)))

/-- `MAIL FROM:<…>`, once its argument is known. -/
def mailFrom (s : Session) (argument : Str) : Session × Action :=
  let accept :=
    match Path.parse (pathText argument) with
    | .ok path => ({ s with sender := some path, recipients := [], state := .haveSender },
        Action.reply (.line 250 "sender OK"))
    | .error e => (s, .reply (.text 553 ("bad sender: ".toList ++ e.text)))
  match sizeParameter argument with
  | .absent => accept
  | .malformed => s.answer 501 "malformed SIZE parameter"
  | .declared bytes =>
      if s.policy.maxMessageBytes.toNat < bytes then
        (s, .reply (.text 552 ("message exceeds the ".toList ++ natText s.policy.maxMessageBytes.toNat ++
          " byte limit".toList)))
      else accept

def mail (s : Session) (rest : Str) : Option (Session × Action) :=
  if s.helo = none then some (s.answer 503 "send EHLO first")
  else if s.state = .haveSender ∨ s.state = .haveRecipients then some (s.answer 503 "sender already given")
  else
    (stripKeyword rest "FROM:".toList).map fun
      | none => s.answer 501 "expected MAIL FROM:<address>"
      | some argument => s.mailFrom argument

/-- The check that keeps strangers from relaying, and the recording of a recipient. -/
def addRecipient (s : Session) (address : Address) : Session × Action :=
  if !address.isLocalTo s.policy.localDomains && !s.authenticated then
    s.answer 550 ("relay not permitted: this server accepts mail only for its own domains " ++
      "unless the session is authenticated")
  -- A duplicate is accepted and stored once.
  else if s.recipients.any fun existing => existing.isMatch address then s.answer 250 "recipient OK"
  else
    ({ s with recipients := s.recipients ++ [address], state := .haveRecipients },
      .reply (.line 250 "recipient OK"))

def rcptTo (s : Session) (argument : Str) : Session × Action :=
  match Path.parse (pathText argument) with
  | .error e => (s, .reply (.text 553 ("bad recipient: ".toList ++ e.text)))
  | .ok .null => s.answer 550 "recipient cannot be the null path"
  | .ok (.mailbox address) => s.addRecipient address

def rcpt (s : Session) (rest : Str) : Option (Session × Action) :=
  if ¬ (s.state = .haveSender ∨ s.state = .haveRecipients) then some (s.answer 503 "send MAIL FROM first")
  else if maxRecipients ≤ s.recipients.length then some (s.answer 452 "too many recipients")
  else
    (stripKeyword rest "TO:".toList).map fun
      | none => s.answer 501 "expected RCPT TO:<address>"
      | some argument => s.rcptTo argument

def data (s : Session) : Session × Action :=
  match s.state with
  | .haveRecipients =>
      ({ s with state := .readingData }, .readData (.line 354 "start mail input; end with <CRLF>.<CRLF>"))
  | .haveSender => s.answer 503 "no recipients given"
  | _ => s.answer 503 "send MAIL FROM and RCPT TO first"

def starttls (s : Session) : Session × Action :=
  if !s.policy.tlsAvailable then s.answer 454 "TLS not available"
  else if s.tlsActive then s.answer 503 "TLS already active"
  else (s, .startTls (.line 220 "ready to start TLS"))

def auth (s : Session) (rest : Str) : Session × Action :=
  if s.authenticated then s.answer 503 "already authenticated"
  else if !s.tlsActive && !s.policy.allowAuthWithoutTls then
    s.answer 538 "encryption required for authentication"
  else if s.helo = none then s.answer 503 "send EHLO first"
  else
    match splitWhitespace rest with
    | [] => s.answer 501 "AUTH requires a mechanism"
    | first :: more =>
        let mechanism := toAsciiUppercase first
        if mechanism = "PLAIN".toList then
          match more with
          | response :: _ => (s, .verifyCredentials mechanism response)
          | [] => (s, .awaitCredentials mechanism (.line 334 ""))
        else if mechanism = "LOGIN".toList then (s, .awaitCredentials mechanism (.line 334 "VXNlcm5hbWU6"))
        else (s, .reply (.text 504 ("mechanism ".toList ++ mechanism ++ " not supported".toList)))

def quit (s : Session) : Session × Action :=
  ({ s with state := .closed }, .close (.text 221 (s.policy.hostname ++ " closing connection".toList)))

/-- One command of a session that is open and not reading a message. -/
def perform (s : Session) (verb : Verb) (rest : Str) : Option (Session × Action) :=
  match verb with
  | .ehlo => some (s.ehlo rest)
  | .helo => some (s.heloCommand rest)
  | .mail => s.mail rest
  | .rcpt => s.rcpt rest
  | .data => some s.data
  | .rset => some (s.resetTransaction, .reply (.line 250 "flushed"))
  | .noop => some (s.answer 250 "OK")
  | .vrfy => some (s.answer 252 "cannot VRFY, but will accept and attempt delivery")
  | .starttls => some s.starttls
  | .auth => some (s.auth rest)
  | .quit => some s.quit
  | .empty => some (s.answer 500 "empty command")
  | .other name => some (s, .reply (.text 502 ("command ".toList ++ name ++ " not implemented".toList)))

/-- Feeds one command line; `none` when it panics. -/
def command (s : Session) (line : Str) : Option (Session × Action) :=
  if maxCommandLine < byteLen line then some (s.answer 500 "line too long")
  else if s.state = .readingData then some (s.answer 503 "message content in progress")
  else if s.state = .closed then some (s, .close (.line 421 "session already closed"))
  else s.perform (splitCommand line).1 (splitCommand line).2

/-- Completes a transaction and takes its envelope. -/
def finishData (s : Session) : Session × Option Envelope :=
  if s.state ≠ .readingData then (s, none)
  else
    match s.sender with
    | none => (s, none)
    | some sender =>
        let envelope : Envelope := ⟨sender, s.recipients, s.helo.getD []⟩
        ({ s.resetTransaction with state := .ready }, some envelope)

end Session

/-! ## Dot stuffing -/

/-- `split("\r\n")`: the pieces between CRLFs. -/
def crlfLines : Str → List Str
  | [] => [[]]
  | '\r' :: '\n' :: s => [] :: crlfLines s
  | c :: s => (crlfLines s).modifyHead (c :: ·)

/-- Stuffing by line. -/
def stuffLine (line : Str) : Str :=
  match line with
  | '.' :: rest => '.' :: '.' :: rest
  | _ => line

def applyDotStuffing (body : Str) : Str := ("\r\n".toList).intercalate ((crlfLines body).map stuffLine)

end Selfhost.Mail
