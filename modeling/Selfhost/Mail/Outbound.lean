import Selfhost.Mail.Client

/-!
# The outbound queue

The spool of `services/mail/src/client.rs`, the send path of `services/mail/src/outbound.rs` and the queue runner of
`app/cli/src/mail_task.rs`. What the world answers at each attempt is a parameter: the exchangers of a domain, the
connections, and what every server replies to what it has been sent. Beside the spool stand, as a record, what was
spooled and the conversations that were held for it.
-/

namespace Selfhost.Mail

open Selfhost.Lib

/-! ## The spool -/

/-- A number with zeros in front of it. -/
def padded (width n : Nat) : Str := List.replicate (width - (natText n).length) '0' ++ natText n

/-- The clock in milliseconds and the sequence number of the process. -/
def nextId (millis sequence : Nat) : Str := padded 16 millis ++ '-' :: padded 8 sequence

structure QueuedMessage where
  id : Str
  sender : Path
  recipients : List Address
  helo : Str
  message : Message
  deriving DecidableEq

/-- What `enqueue` writes. -/
def spoolBytes (e : Envelope) (m : Message) : Bytes :=
  utf8 ("FROM ".toList ++ e.sender.text) ++ [lf] ++
    (e.recipients.flatMap fun a => utf8 ("RCPT ".toList ++ a.text) ++ [lf]) ++
    utf8 ("HELO ".toList ++ e.helo) ++ [lf] ++ utf8 ("LEN ".toList ++ natText m.raw.length) ++ [lf] ++ m.raw

inductive SpoolError where
  | noLength
  | notUtf8
  | badSender
  | badRecipient
  | badLength
  | wrongLength
  | badMessage
  | noSender
  deriving DecidableEq

/-- What the lines of a spool file have said so far. -/
structure SpoolHead where
  sender : Option Path
  recipients : List Address
  helo : Str

def parseUsize (text : Str) : Option Nat := parseUnsigned u64Max text

/-- The end of the head: the rest of the file is the message. -/
def finishSpool (id : Str) (head : SpoolHead) (value : Str) (body : Bytes) : Except SpoolError QueuedMessage :=
  match parseUsize value with
  | none => .error .badLength
  | some len =>
      if body.length ≠ len then .error .wrongLength
      else
        match Message.parse body with
        | none => .error .badMessage
        | some message =>
            match head.sender with
            | none => .error .noSender
            | some sender => .ok ⟨id, sender, head.recipients, head.helo, message⟩

def parseSpoolFrom (id : Str) (head : SpoolHead) (bytes : Bytes) : Except SpoolError QueuedMessage :=
  match h : splitOnce lf bytes with
  | none => .error .noLength
  | some (raw, rest) =>
      match fromUtf8 raw with
      | none => .error .notUtf8
      | some line =>
          match stripStart "FROM ".toList line with
          | some value =>
              match Path.parse value with
              | .error _ => .error .badSender
              | .ok sender => parseSpoolFrom id { head with sender := some sender } rest
          | none =>
              match stripStart "RCPT ".toList line with
              | some value =>
                  match Address.parse value with
                  | .error _ => .error .badRecipient
                  | .ok a => parseSpoolFrom id { head with recipients := head.recipients ++ [a] } rest
              | none =>
                  match stripStart "HELO ".toList line with
                  | some value => parseSpoolFrom id { head with helo := value } rest
                  | none =>
                      match stripStart "LEN ".toList line with
                      | some value => finishSpool id head value rest
                      -- Any other line is passed over.
                      | none => parseSpoolFrom id head rest
termination_by bytes.length
decreasing_by
  all_goals
    obtain ⟨hsplit, -⟩ := splitOnce_some h
    rw [hsplit, List.length_append, List.length_cons]
    omega

def parseSpool (id : Str) (bytes : Bytes) : Except SpoolError QueuedMessage :=
  parseSpoolFrom id ⟨none, [], []⟩ bytes

/-! ## Servers -/

/-- A server: what it does, given everything that was written to it. -/
structure Server where
  takes : List Bytes → Bool
  answers : List Bytes → Option (Except ClientError Reply)
  handshake : List Bytes → Except ClientError Unit

/-- The connection to a server, which remembers what was written. -/
def Server.link (v : Server) : Link (List Bytes) where
  write sent bytes := if v.takes (sent ++ [bytes]) then .ok (sent ++ [bytes]) else .error (.io .failed)
  read sent := (v.answers sent).map fun r => r.map fun reply => (reply, sent)
  upgrade sent := (v.handshake sent).map fun _ => sent

/-! ## Sending -/

structure Relay where
  host : Str
  port : Nat
  username : Str
  password : Str

/-- What the send path needs besides the message. The signature of a message for a domain may fail. -/
structure SendContext where
  helo : Str
  signing : Option (Message → Str → Option Str)
  tls : Bool
  relay : Option Relay

/-- The world at one attempt: the exchangers of a domain, and the connection for a destination and a host. -/
structure Net where
  lookupMx : Str → List (Nat × Str)
  connect : Str → Str → Nat → Except ClientError Server
  readable : Bool
  removable : Bool

inductive SendError where
  | noHosts
  | host (name : Str) (error : ClientError)
  | relay (name : Str) (error : ClientError)
  deriving DecidableEq

/-- The conversations that were held and what came of them; `none` is a panic. -/
structure Sent (α : Type) where
  talks : List (List Exchange)
  result : Option α

def SendReport := List (Str × Except SendError SmtpClient.Delivery)

/-- Whether every destination accepted the message. -/
def SendReport.allDelivered (r : SendReport) : Bool := !r.isEmpty && r.all fun p => p.2.toBool

def sign (c : SendContext) (q : QueuedMessage) : Message :=
  match c.signing, q.sender.address with
  | some signature, some sender =>
      match signature q.message sender.domain with
      | some value => q.message.withPrependedHeader "DKIM-Signature".toList value
      | none => q.message
  | _, _ => q.message

/-- One connection of a client. -/
def deliverOnce (c : SendContext) (connection : Except ClientError Server) (client : SmtpClient) (body : Bytes) :
    Sent (Except ClientError SmtpClient.Delivery) :=
  match connection with
  | .error e => ⟨[], some (.error e)⟩
  | .ok server =>
      let (log, result) := deliverToHost server.link client body c.tls []
      ⟨[log],
        match result with
        | .finished delivery => some (.ok delivery)
        | .failed e => some (.error e)
        | _ => none⟩

/-- Tries the hosts in order until one accepts the message. -/
def tryHosts (c : SendContext) (net : Net) (domain : Str) (client : SmtpClient) (body : Bytes) :
    SendError → List Str → Sent (Except SendError SmtpClient.Delivery)
  | lastError, [] => ⟨[], some (.error lastError)⟩
  | _, host :: hosts =>
      let sent := deliverOnce c (net.connect domain host 25) client body
      match sent.result with
      | none => ⟨sent.talks, none⟩
      | some (.ok delivery) => ⟨sent.talks, some (.ok delivery)⟩
      | some (.error e) =>
          let more := tryHosts c net domain client body (.host host e) hosts
          ⟨sent.talks ++ more.talks, more.result⟩

def deliverToDomain (c : SendContext) (net : Net) (e : Envelope) (message : Message) (domain : Str) :
    Sent (Except SendError SmtpClient.Delivery) :=
  let client := SmtpClient.forDomain e domain c.helo
  let client := if c.tls then client.withStarttls else client
  tryHosts c net domain client message.raw .noHosts (mxDeliveryOrder (net.lookupMx domain) domain)

/-- The distinct domains of recipients, in order. -/
def distinctDomains : List Str → List Address → List Str
  | found, [] => found
  | found, a :: rest => distinctDomains (if a.domain ∈ found then found else found ++ [a.domain]) rest

def deliverDomains (c : SendContext) (net : Net) (e : Envelope) (message : Message) : List Str → Sent SendReport
  | [] => ⟨[], some []⟩
  | domain :: domains =>
      let sent := deliverToDomain c net e message domain
      match sent.result with
      | none => ⟨sent.talks, none⟩
      | some result =>
          let more := deliverDomains c net e message domains
          ⟨sent.talks ++ more.talks, more.result.map fun report => (domain, result) :: report⟩

def deliverDirect (c : SendContext) (net : Net) (e : Envelope) (message : Message) : Sent SendReport :=
  deliverDomains c net e message (distinctDomains [] e.recipients)

def deliverViaRelay (c : SendContext) (net : Net) (relay : Relay) (e : Envelope) (message : Message) :
    Sent SendReport :=
  let client := (SmtpClient.new c.helo e.sender.text (e.recipients.map Address.text)).withRelayAuth relay.username
    relay.password
  let sent := deliverOnce c (net.connect "relay".toList relay.host relay.port) client message.raw
  ⟨sent.talks, sent.result.map fun result => [("relay".toList, result.mapError (.relay relay.host))]⟩

/-- Signs, routes and delivers a message. -/
def deliver (c : SendContext) (net : Net) (q : QueuedMessage) : Sent SendReport :=
  let message := sign c q
  let e : Envelope := ⟨q.sender, q.recipients, q.helo⟩
  match c.relay with
  | some relay => deliverViaRelay c net relay e message
  | none => deliverDirect c net e message

/-! ## The queue -/

/-- A message that submission has accepted. -/
structure Spooled where
  id : Str
  envelope : Envelope
  message : Message
  deriving DecidableEq

/-- The files of the spool, the ids that the sweep in progress has still to take, and the record of what was spooled
and of the conversations for each id. -/
structure Queue where
  files : List (Str × Bytes)
  sequence : Nat
  todo : List Str
  spooled : List Spooled
  talks : List (Str × List Exchange)

namespace Queue

def empty : Queue := ⟨[], 0, [], [], []⟩

def file (q : Queue) (id : Str) : Option Bytes := (q.files.find? fun f => f.1 = id).map Prod.snd

/-- The id that the next message gets. -/
def nextId (q : Queue) (millis : Nat) : Str := Mail.nextId millis q.sequence

/-- Writes a file; the rename replaces a file of the same name. -/
def enqueue (q : Queue) (millis : Nat) (e : Envelope) (m : Message) : Queue :=
  let id := q.nextId millis
  { q with
    files := (q.files.filter fun f => f.1 ≠ id) ++ [(id, spoolBytes e m)]
    sequence := (q.sequence + 1) % 2 ^ 64
    spooled := q.spooled ++ [⟨id, e, m⟩] }

/-- The ids in the spool, oldest first. -/
def list (q : Queue) : List Str := (q.files.map Prod.fst).mergeSort fun a b => decide (a ≤ b)

def load (q : Queue) (id : Str) : Option (Except SpoolError QueuedMessage) := (q.file id).map (parseSpool id)

def remove (q : Queue) (id : Str) : Queue := { q with files := q.files.filter fun f => f.1 ≠ id }

/-- What is done with a message that was loaded: it is removed when every destination has accepted it. A panic ends
the sweep. -/
def send (c : SendContext) (net : Net) (q : Queue) (id : Str) (queued : QueuedMessage) : Queue :=
  let sent := deliver c net queued
  let q := { q with talks := q.talks ++ sent.talks.map fun log => (id, log) }
  match sent.result with
  | none => { q with todo := [] }
  | some report => if report.allDelivered ∧ net.removable then q.remove id else q

/-- The runner takes the next message of its sweep; one that cannot be loaded is skipped. -/
def attempt (c : SendContext) (net : Net) (q : Queue) (id : Str) : Queue :=
  if net.readable then
    match q.load id with
    | some (.ok queued) => q.send c net id queued
    | _ => q
  else q

/-- What happens to a queue: a message is submitted, a sweep lists the spool, the runner takes the next message of
the list, the process starts again. -/
inductive Event where
  | enqueue (millis : Nat) (e : Envelope) (m : Message)
  | sweep
  | attempt (net : Net)
  | restart

def step (c : SendContext) (q : Queue) : Event → Option Queue
  | .enqueue millis e m => some (q.enqueue millis e m)
  | .sweep => if q.todo = [] then some { q with todo := q.list } else none
  | .attempt net =>
      match q.todo with
      | [] => none
      | id :: ids => some (({ q with todo := ids }).attempt c net id)
  | .restart => some { q with todo := [], sequence := 0 }

end Queue

end Selfhost.Mail
