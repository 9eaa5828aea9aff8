import Selfhost.Mail.Lemmas.Smtp
import Selfhost.Mail.Receive

/-!
# A connection of the receiver

`handle_connection` and `converse` of `services/mail/src/receive.rs`, one command at a time, with what the
client was told and what was stored. The greylist is shared, so a turn finds it as the other connections left
it; which mailboxes can be written is decided at each turn.
-/

namespace Selfhost.Mail

open Selfhost.Lib

/-- The end of a message, with the history of the conversation before its content was read. -/
structure Delivery where
  history : List Event
  outcome : Outcome
  deriving DecidableEq

structure Inbound where
  isOpen : Bool
  input : Bytes
  session : Session
  /-- The commands with the replies that the client saw. -/
  log : List Event
  deliveries : List Delivery
  deriving DecidableEq

/-- What one turn of the loop finds outside of the connection. -/
structure InboundTurn where
  greylist : Option Greylist
  now : Nat
  date : Str
  writes : Address → Bool
  /-- What the client sends under TLS; `none` when the handshake is refused or fails. -/
  tlsInput : Option Bytes

namespace Inbound

def new (policy : Policy) (input : Bytes) : Inbound := ⟨true, input, .new policy, [], []⟩

def say (c : Inbound) (s : Session) (rest : Bytes) (line : Str) (reply : Reply) : Inbound :=
  { c with session := s, input := rest, log := c.log ++ [.command line (.reply reply)] }

/-- One action of the session; `none` when a slice panics. -/
def act (r : Receiver) (peer : IpAddr) (c : Inbound) (t : InboundTurn) (line : Str) (rest : Bytes) (s : Session) :
    Action → Option Inbound
  | .reply reply =>
      (refineRcpt r line reply s t.greylist t.now peer).map fun (reply, _) => c.say s rest line reply
  | .readData reply =>
      let (outcome, s, envelope, rest) := readAndStore r s rest peer t.date t.writes
      let history := c.log ++ [.command line (.readData reply)]
      some ⟨outcome.reply.isSome, rest, s, history ++ [.finishData envelope], c.deliveries ++ [⟨history, outcome⟩]⟩
  | .close reply =>
      some { c with isOpen := false, session := s, input := rest, log := c.log ++ [.command line (.close reply)] }
  | .startTls reply =>
      if !r.hasTls then some (c.say s rest line (.line 454 "TLS not available"))
      else
        match t.tlsInput with
        | none =>
            some { c.say s rest line (.line 501 "pipelining after STARTTLS is not allowed") with isOpen := false }
        | some input =>
            some ⟨true, input, s.tlsEstablished, c.log ++ [.command line (.startTls reply), .tlsEstablished],
              c.deliveries⟩
  -- The mail exchanger authenticates no one.
  | .verifyCredentials _ _ | .awaitCredentials _ _ =>
      some (c.say s rest line (.line 538 "this server does not accept authentication on port 25"))

/-- One turn of the loop: a line is read and the session's action on it is performed. -/
def turn (r : Receiver) (peer : IpAddr) (c : Inbound) (t : InboundTurn) : Option Inbound :=
  if !c.isOpen then none
  else
    let (line, read, rest) := readCommandLine c.input
    if read = 0 then some { c with isOpen := false }
    else (c.session.command line).bind fun (s, action) => c.act r peer t line rest s action

end Inbound

end Selfhost.Mail
