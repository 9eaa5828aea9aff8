import Mathlib.Data.List.Sort
import Selfhost.Lib.Stream
import Selfhost.Mail.Receive

/-!
# The SMTP client

`services/mail/src/client.rs`: what the client says next, given the last reply of the server, and the driver that
moves the bytes. The driver is generic over the connection. An index outside a list and a cut inside a character
panic and are `none`.
-/

namespace Selfhost.Mail

open Selfhost.Lib

/-- The result of a conversation that was completed. -/
structure SmtpClient.Delivery where
  accepted : List Str
  rejected : List (Str × Str)
  lastCode : Nat
  deriving DecidableEq

/-- What the client does next. -/
inductive ClientAction where
  | send (line : Str)
  | startTls
  | sendBody
  | finished (delivery : SmtpClient.Delivery)
  | failed (reason : Str)
  deriving DecidableEq

/-- What a server can say that is not a reply, and a transport that cannot be upgraded. -/
inductive ProtocolError where
  | closedMidReply
  | lineTooShort (line : Str)
  | noStatusCode (line : Str)
  | cannotUpgrade
  deriving DecidableEq

inductive IoError where
  | failed
  | invalidUtf8
  deriving DecidableEq

inductive ClientError where
  | io (error : IoError)
  | rejected (code : Nat) (text : Str)
  | tls (text : Str)
  | protocol (error : ProtocolError)
  | noRoute (domain : Str)
  deriving DecidableEq

/-- What the client waits for a reply to. -/
inductive Phase where
  | greeting
  | ehlo
  | startTls
  | auth
  | mail
  | rcpt
  | data
  | body
  | quit
  | done
  deriving DecidableEq

structure SmtpClient where
  helo : Str
  mailFrom : Str
  recipients : List Str
  auth : Option (Str × Str)
  wantStarttls : Bool
  phase : Phase
  tlsDone : Bool
  authDone : Bool
  nextRcpt : Nat
  accepted : List Str
  rejected : List (Str × Str)
  lastCode : Nat
  deriving DecidableEq

/-! ## Base64 -/

def base64Alphabet : Str := "ABCDEFGHIJKLMNOPQRSTUVWXYZabcdefghijklmnopqrstuvwxyz0123456789+/".toList

/-- The symbol of the six bits of `bits` that stand `shift` bits from the right. -/
def base64Symbol (bits shift : Nat) : Char := base64Alphabet.getD (bits / 2 ^ shift % 64) '='

/-- Standard base64 with padding. -/
def b64Encode : Bytes → Str
  | [] => []
  | [a] =>
      let bits := a.toNat * 2 ^ 16
      [base64Symbol bits 18, base64Symbol bits 12, '=', '=']
  | [a, b] =>
      let bits := a.toNat * 2 ^ 16 + b.toNat * 2 ^ 8
      [base64Symbol bits 18, base64Symbol bits 12, base64Symbol bits 6, '=']
  | a :: b :: c :: rest =>
      let bits := a.toNat * 2 ^ 16 + b.toNat * 2 ^ 8 + c.toNat
      base64Symbol bits 18 :: base64Symbol bits 12 :: base64Symbol bits 6 :: base64Symbol bits 0 :: b64Encode rest

/-! ## The state machine -/

/-- A reply of the class `2xx`. -/
def Reply.isPositive (r : Reply) : Bool := r.code / 100 == 2

def Reply.firstLine (r : Reply) : Str := r.lines.head?.getD []

/-- The command line that names a recipient. -/
def rcptCommand (recipient : Str) : Str := "RCPT TO:<".toList ++ recipient ++ ['>']

namespace SmtpClient

def new (helo mailFrom : Str) (recipients : List Str) : SmtpClient :=
  ⟨helo, mailFrom, recipients, none, false, .greeting, false, false, 0, [], [], 0⟩

/-- A client for the recipients of one domain. -/
def forDomain (e : Envelope) (domain helo : Str) : SmtpClient :=
  .new helo e.sender.text ((e.recipients.filter fun a => eqIgnoreAsciiCase a.domain domain).map Address.text)

def withStarttls (c : SmtpClient) : SmtpClient := { c with wantStarttls := true }

def withRelayAuth (c : SmtpClient) (username password : Str) : SmtpClient :=
  { c with auth := some (username, password), wantStarttls := true }

def ehloLine (c : SmtpClient) : Str := "EHLO ".toList ++ c.helo

/-- Greets again after the handshake. -/
def afterUpgrade (c : SmtpClient) : SmtpClient × Str := ({ c with tlsDone := true, phase := .ehlo }, c.ehloLine)

def mailLine (c : SmtpClient) : Str := "MAIL FROM:".toList ++ c.mailFrom

def fail (c : SmtpClient) (reply : Reply) (context : String) : SmtpClient × ClientAction :=
  ({ c with phase := .done }, .failed (context.toList ++ ": ".toList ++ natText reply.code ++ ' ' :: reply.firstLine))

/-- Goes on to a phase when the reply is positive. -/
def expect (c : SmtpClient) (reply : Reply) (next : Phase) (onSuccess : SmtpClient → SmtpClient × ClientAction) :
    SmtpClient × ClientAction :=
  if reply.isPositive then onSuccess { c with phase := next } else c.fail reply "unexpected reply"

/-- `AUTH`, when there are credentials that were not presented, else `MAIL FROM`. -/
def beginTransaction (c : SmtpClient) : SmtpClient × ClientAction :=
  match c.auth with
  | some (user, pass) =>
      if c.authDone then ({ c with phase := .mail }, .send c.mailLine)
      else
        ({ c with phase := .auth },
          .send ("AUTH PLAIN ".toList ++ b64Encode (utf8 (Char.ofNat 0 :: user ++ Char.ofNat 0 :: pass))))
  | none => ({ c with phase := .mail }, .send c.mailLine)

def offersStarttls (reply : Reply) : Bool :=
  reply.lines.any fun line => eqIgnoreAsciiCase (trim line) "STARTTLS".toList

def afterEhlo (c : SmtpClient) (reply : Reply) : SmtpClient × ClientAction :=
  if !reply.isPositive then c.fail reply "server rejected EHLO"
  else if c.wantStarttls && !c.tlsDone && offersStarttls reply then
    ({ c with phase := .startTls }, .send "STARTTLS".toList)
  else if c.auth.isSome && !c.tlsDone then
    c.fail reply "relay requires authentication but offered no STARTTLS"
  else c.beginTransaction

def afterStarttls (c : SmtpClient) (reply : Reply) : SmtpClient × ClientAction :=
  if reply.isPositive then (c, .startTls)
  -- The server offered STARTTLS and refused it: the message goes on in the clear, unless there are credentials.
  else if c.auth.isSome then c.fail reply "server refused STARTTLS but relay auth requires it"
  else c.beginTransaction

def sendFirstRcpt (c : SmtpClient) : SmtpClient × ClientAction :=
  match c.recipients with
  | [] => (c, .failed "no recipients for this destination".toList)
  | first :: _ => ({ c with nextRcpt := 1 }, .send (rcptCommand first))

/-- Records the answer to the last `RCPT`. -/
def record (c : SmtpClient) (recipient : Str) (reply : Reply) : SmtpClient :=
  if reply.isPositive then { c with accepted := c.accepted ++ [recipient] }
  else { c with rejected := c.rejected ++ [(recipient, natText reply.code ++ ' ' :: reply.firstLine)] }

/-- The next `RCPT`, or `DATA`, once the answer to the last one is recorded. -/
def nextRecipient (c : SmtpClient) : SmtpClient × ClientAction :=
  match c.recipients[c.nextRcpt]? with
  | some next => ({ c with nextRcpt := c.nextRcpt + 1 }, .send (rcptCommand next))
  | none =>
      if c.accepted.isEmpty then (c, .failed "every recipient was refused".toList)
      else ({ c with phase := .data }, .send "DATA".toList)

/-- `none` is the panic of the index before the first recipient or behind the last. -/
def afterRcpt (c : SmtpClient) (reply : Reply) : Option (SmtpClient × ClientAction) :=
  if c.nextRcpt = 0 then none
  else (c.recipients[c.nextRcpt - 1]?).map fun recipient => (c.record recipient reply).nextRecipient

def afterData (c : SmtpClient) (reply : Reply) : SmtpClient × ClientAction :=
  if reply.code = 354 then ({ c with phase := .body }, .sendBody) else c.fail reply "server did not accept DATA"

def afterQuit (c : SmtpClient) : SmtpClient × ClientAction :=
  ({ c with phase := .done, accepted := [], rejected := [] }, .finished ⟨c.accepted, c.rejected, c.lastCode⟩)

/-- Feeds the latest reply of the server. -/
def step (c : SmtpClient) (reply : Reply) : Option (SmtpClient × ClientAction) :=
  let c := { c with lastCode := reply.code }
  match c.phase with
  | .greeting => some (c.expect reply .ehlo fun c => (c, .send c.ehloLine))
  | .ehlo => some (c.afterEhlo reply)
  | .startTls => some (c.afterStarttls reply)
  | .auth => some (c.expect reply .mail fun c => ({ c with authDone := true }, .send c.mailLine))
  | .mail => some (c.expect reply .rcpt sendFirstRcpt)
  | .rcpt => c.afterRcpt reply
  | .data => some (c.afterData reply)
  | .body => some (c.expect reply .quit fun c => (c, .send "QUIT".toList))
  | .quit => some c.afterQuit
  | .done => some (c, .failed "conversation already finished".toList)

end SmtpClient

/-! ## Routing -/

/-- A host without the dots at its end. -/
def trimDotsEnd (host : Str) : Str := host.rdropWhile (· == '.')

/-- The hosts of exchangers in order, each once. -/
def distinctHosts : List Str → List Str → List Str
  | found, [] => found
  | found, host :: rest =>
      let host := trimDotsEnd host
      distinctHosts (if host ≠ [] ∧ host ∉ found then found ++ [host] else found) rest

/-- The hosts to try for a domain, the lowest preference first. -/
def mxDeliveryOrder (mx : List (Nat × Str)) (domain : Str) : List Str :=
  let hosts := distinctHosts [] ((mx.mergeSort fun a b => a.1 ≤ b.1).map Prod.snd)
  if hosts = [] then [trimDotsEnd domain] else hosts

/-! ## Bodies -/

/-- A dot in front of every line that starts with one; `start` says whether a line starts here. -/
def dotStuff (start : Bool) : Bytes → Bytes
  | [] => []
  | b :: body => (if start && b == dot then [dot, b] else [b]) ++ dotStuff (b == lf) body

/-- A body with its terminator, as it is sent after `DATA`. -/
def frameBody (body : Bytes) : Bytes :=
  let out := dotStuff true body
  (if crlf <:+ out then out else out ++ crlf) ++ dot :: crlf

/-! ## Replies -/

def parseU16 (text : Str) : Option Nat := parseUnsigned 65535 text

/-- What one line of a reply says. -/
inductive ReplyLine where
  | bad (error : ProtocolError)
  | part (code : Nat) (text : Str) (continues : Bool)
  deriving DecidableEq

/-- Reads a line of a reply; `none` is the panic of a cut inside a character. -/
def readReplyLine (line : Str) : Option ReplyLine :=
  let trimmed := trimLineEnd line
  if byteLen trimmed < 3 then some (.bad (.lineTooShort trimmed))
  else
    (splitAtByte 3 trimmed).map fun (status, text) =>
      match parseU16 status with
      | none => .bad (.noStatusCode trimmed)
      | some code =>
          .part code (text.dropWhile fun c => c == ' ' || c == '-') (decide ((utf8 trimmed)[3]? = some 0x2D))

/-- Reads a reply of one line or several. -/
def readReplyFrom (lines : List Str) (inbox : Inbox) : Option (Except ClientError (Reply × Inbox)) :=
  match h : readUntil lf inbox with
  | none => some (.error (.io .failed))
  | some (raw, inbox') =>
      if hraw : raw = [] then some (.error (.protocol .closedMidReply))
      else
        match fromUtf8 raw with
        | none => some (.error (.io .invalidUtf8))
        | some line =>
            match readReplyLine line with
            | none => none
            | some (.bad error) => some (.error (.protocol error))
            | some (.part code text continues) =>
                if continues then readReplyFrom (lines ++ [text]) inbox'
                else some (.ok (⟨code, lines ++ [text]⟩, inbox'))
termination_by inbox.rest.length
decreasing_by
  have hpos := List.length_pos_iff.mpr hraw
  rw [rest_readUntil h, List.length_append]
  omega

def readReply (inbox : Inbox) : Option (Except ClientError (Reply × Inbox)) := readReplyFrom [] inbox

/-! ## The driver -/

/-- A connection: writing, reading a reply, and the TLS handshake. -/
structure Link (σ : Type) where
  write : σ → Bytes → Except ClientError σ
  read : σ → Option (Except ClientError (Reply × σ))
  upgrade : σ → Except ClientError σ

/-- A socket: the bytes that arrive on it, what a handshake comes to, and the writes that still succeed. -/
structure Socket where
  inbox : Inbox
  secured : Except ClientError Inbox
  writes : Nat

def socket : Link Socket where
  write s _ :=
    match s.writes with
    | 0 => .error (.io .failed)
    | n + 1 => .ok { s with writes := n }
  read s := (readReply s.inbox).map fun r => r.map fun (reply, inbox) => (reply, { s with inbox })
  -- The buffer of the plain connection is dropped.
  upgrade s := s.secured.map fun inbox => { s with inbox }

/-- What the client did before it waited for a reply. -/
inductive Said where
  | connected
  | line (l : Str)
  | upgraded (l : Str)
  | body (b : Bytes)
  deriving DecidableEq

structure Exchange where
  said : Said
  answer : Option Reply
  deriving DecidableEq

/-- How a conversation ended. -/
inductive TalkEnd where
  | finished (delivery : SmtpClient.Delivery)
  | failed (error : ClientError)
  | panicked
  | unfinished
  deriving DecidableEq

/-- A conversation in progress, with its record. -/
structure Talk (σ : Type) where
  client : SmtpClient
  link : σ
  log : List Exchange

inductive Turn (σ : Type) where
  | next (talk : Talk σ) (action : ClientAction)
  | ended (log : List Exchange) (result : TalkEnd)

namespace Talk

variable {σ : Type}

/-- Reads the reply to what was said and asks the client what to do. -/
def hear (k : Link σ) (t : Talk σ) (said : Said) : Turn σ :=
  match k.read t.link with
  | none => .ended (t.log ++ [⟨said, none⟩]) .panicked
  | some (.error e) => .ended (t.log ++ [⟨said, none⟩]) (.failed e)
  | some (.ok (reply, link)) =>
      match t.client.step reply with
      | none => .ended (t.log ++ [⟨said, some reply⟩]) .panicked
      | some (client, action) => .next ⟨client, link, t.log ++ [⟨said, some reply⟩]⟩ action

def say (k : Link σ) (t : Talk σ) (said : Said) (bytes : Bytes) : Turn σ :=
  match k.write t.link bytes with
  | .error e => .ended (t.log ++ [⟨said, none⟩]) (.failed e)
  | .ok link => hear k { t with link } said

/-- One turn of the loop. -/
def act (k : Link σ) (body : Bytes) (t : Talk σ) : ClientAction → Turn σ
  | .send line => t.say k (.line line) (utf8 line ++ crlf)
  | .sendBody => t.say k (.body (frameBody body)) (frameBody body)
  | .startTls =>
      match k.upgrade t.link with
      | .error e => .ended t.log (.failed e)
      | .ok link =>
          let (client, ehlo) := t.client.afterUpgrade
          say k { t with client, link } (.upgraded ehlo) (utf8 ehlo ++ crlf)
  | .finished delivery => .ended t.log (.finished delivery)
  | .failed reason => .ended t.log (.failed (.rejected t.client.lastCode reason))

def loop (k : Link σ) (body : Bytes) : Nat → Turn σ → List Exchange × TalkEnd
  | _, .ended log result => (log, result)
  | 0, .next t _ => (t.log, .unfinished)
  | n + 1, .next t action => loop k body n (t.act k body action)

end Talk

/-- More turns than a conversation can have. -/
def SmtpClient.turns (c : SmtpClient) : Nat := c.recipients.length + 12

/-- The conversation of a client over a connection. -/
def talk {σ : Type} (k : Link σ) (client : SmtpClient) (body : Bytes) (link : σ) : List Exchange × TalkEnd :=
  Talk.loop k body client.turns (Talk.hear k ⟨client, link, []⟩ .connected)

/-- `run_client`: on a transport that cannot be upgraded. -/
def runClient {σ : Type} (k : Link σ) (client : SmtpClient) (body : Bytes) (link : σ) : List Exchange × TalkEnd :=
  talk { k with upgrade := fun _ => .error (.protocol .cannotUpgrade) } client body link

/-- `deliver_to_host`: on a socket, which is upgraded when there is a connector for it. -/
def deliverToHost {σ : Type} (k : Link σ) (client : SmtpClient) (body : Bytes) (tls : Bool) (link : σ) :
    List Exchange × TalkEnd :=
  talk (if tls then k else { k with upgrade := fun _ => .error (.tls "no TLS connector configured".toList) })
    client body link

end Selfhost.Mail
