import Selfhost.Json.Parser
import Selfhost.Lib.Base64Url
import Selfhost.Lib.Machine
import Selfhost.Lib.Run

/-!
# Passkey ceremonies

`app/admin/src/webauthn.rs` and `services/reports/src/webauthn.rs`: what the two stores share, which is the reading of
a ceremony's body and the checks of what the browser and the authenticator wrote.
-/

namespace Selfhost.Webauthn

open Selfhost.Lib Selfhost.Json

/-- A relying party, with the digest and the signature check that `ring` provides. -/
structure Party where
  D : DoubleOps
  rpId : Str
  origin : Str
  sha256 : Bytes → Bytes
  /-- Whether a key admits a message with a signature. -/
  verify : Bytes → Bytes → Bytes → Bool

/-- The public half of a credential; the holder is the console's `user` and the reports' `account_id`. -/
structure Passkey where
  id : Str
  publicKey : Bytes
  holder : Str
  label : Str
  createdUnix : Nat
  deriving DecidableEq, Repr

abbrev Challenge (π : Type) := Ticket Str π

def challengeLifetime : Nat := 120 * nanosPerSec

def maxCredentialIdBytes : Nat := 1023

def maxLabelChars : Nat := 64

def coseEs256 : Int := -7

def flagUserPresent : UInt8 := 0x01

def flagUserVerified : UInt8 := 0x04

def flagAttestedCredential : UInt8 := 0x40

def authDataHeaderBytes : Nat := 37

def p256PointBytes : Nat := 65

/-- The key info of an uncompressed point on P-256, up to the point. -/
def p256SpkiPrefix : Bytes :=
  [0x30, 0x59, 0x30, 0x13, 0x06, 0x07, 0x2a, 0x86, 0x48, 0xce, 0x3d, 0x02, 0x01, 0x06, 0x08, 0x2a, 0x86, 0x48, 0xce,
    0x3d, 0x03, 0x01, 0x07, 0x03, 0x42, 0x00]

/-! ## Reading a body -/

section

variable {F : Type}

def textField (body : Value F) (field : Str) : Option Str := (body.get field).bind Value.asStr

def decodedField (body : Value F) (field : Str) : Option Bytes := (textField body field).bind b64urlDecode

/-- The id as it is written, which decodes to some bytes and not too many. -/
def credentialId (body : Value F) : Option Str := do
  let id ← textField body "id".toList
  let decoded ← b64urlDecode id
  if decoded.isEmpty || maxCredentialIdBytes < decoded.length then none else some id

def namedField (body : Value F) (field fallback : Str) (limit : Nat) : Str :=
  ((((textField body field).map trim).filter fun name => !name.isEmpty).getD fallback).take limit

end

def p256PointFromSpki (spki : Bytes) : Option Bytes :=
  if p256SpkiPrefix.isPrefixOf spki then
    let point := spki.drop p256SpkiPrefix.length
    if point.length = p256PointBytes ∧ point.head? = some 0x04 then some point else none
  else none

/-! ## The checks -/

/-- The value that client data are a ceremony's answer to, before it is looked up. -/
def presentedChallenge (P : Party) (ceremony : Str) (clientData : Bytes) : Option Str := do
  let text ← fromUtf8 clientData
  let value ← (parse P.D text).toOption
  if textField value "type".toList ≠ some ceremony then none
  else if textField value "origin".toList ≠ some P.origin then none
  else textField value "challenge".toList

/-- The challenge that a body is about, before anything in the body is checked. -/
def claimedChallenge (P : Party) (body : Value P.D.F) : Option Str := do
  let clientData ← decodedField body "clientDataJSON".toList
  let text ← fromUtf8 clientData
  let value ← (parse P.D text).toOption
  textField value "challenge".toList

def checkAuthData (P : Party) (authData : Bytes) (required : UInt8) : Bool :=
  decide (authDataHeaderBytes ≤ authData.length) && decide (authData.take 32 = P.sha256 (utf8 P.rpId)) &&
    decide (authData.getD 32 0 &&& required = required)

section

variable {π : Type} [DecidableEq π]

/-- A challenge is redeemed for the purpose it was issued for. -/
def redeems (presented : Str) (purpose : π) (entry : Challenge π) : Bool :=
  decide (entry.tag = purpose) && decide (entry.value = presented)

/-- `check_client_data`: the challenge it redeems, and the challenges that are left. -/
def checkClientData (P : Party) (ceremony : Str) (purpose : π) (now : Instant) (clientData : Bytes)
    (challenges : List (Challenge π)) : Option Str × List (Challenge π) :=
  match presentedChallenge P ceremony clientData with
  | none => (none, challenges)
  | some presented =>
      let left := Tickets.left challengeLifetime now (redeems presented purpose) challenges
      if Tickets.taken challengeLifetime now (redeems presented purpose) challenges = [] then (none, left)
      else (some presented, left)

/-- How a ceremony ends. -/
structure Ceremony (π α : Type) where
  challenges : List (Challenge π)
  /-- The challenge that it redeemed. -/
  taken : Option Str
  answer : Option α

/-- Both ceremonies redeem a challenge between what they read before it and what they check after it. -/
def Ceremony.ofClientData {α : Type} (P : Party) (ceremony : Str) (purpose : π) (now : Instant) (clientData : Bytes)
    (challenges : List (Challenge π)) (answer : Option α) : Ceremony π α :=
  match checkClientData P ceremony purpose now clientData challenges with
  | (none, left) => ⟨left, none, none⟩
  | (some presented, left) => ⟨left, some presented, answer⟩

/-- The id and the key of a new credential. -/
def registration (P : Party) (body : Value P.D.F) (purpose : π) (now : Instant) (challenges : List (Challenge π)) :
    Ceremony π (Str × Bytes) :=
  match credentialId body with
  | none => ⟨challenges, none, none⟩
  | some id =>
      if (body.get "algorithm".toList).bind (Value.asI64 P.D) ≠ some coseEs256 then ⟨challenges, none, none⟩
      else
        match decodedField body "clientDataJSON".toList with
        | none => ⟨challenges, none, none⟩
        | some clientData =>
            .ofClientData P "webauthn.create".toList purpose now clientData challenges do
              let authData ← decodedField body "authenticatorData".toList
              if checkAuthData P authData (flagUserPresent ||| flagUserVerified ||| flagAttestedCredential) then
                let spki ← decodedField body "publicKey".toList
                let publicKey ← p256PointFromSpki spki
                some (id, publicKey)
              else none

/-- What an assertion's signature is over. -/
def signedMessage (P : Party) (authData clientData : Bytes) : Bytes := authData ++ P.sha256 clientData

/-- `verify_login`. -/
def verifyLogin (P : Party) (purpose : π) (body : Value P.D.F) (now : Instant) (passkeys : List Passkey)
    (challenges : List (Challenge π)) : Ceremony π Passkey :=
  match (credentialId body).bind fun id => passkeys.find? fun entry => entry.id = id with
  | none => ⟨challenges, none, none⟩
  | some passkey =>
      match decodedField body "clientDataJSON".toList with
      | none => ⟨challenges, none, none⟩
      | some clientData =>
          .ofClientData P "webauthn.get".toList purpose now clientData challenges do
            let authData ← decodedField body "authenticatorData".toList
            if checkAuthData P authData (flagUserPresent ||| flagUserVerified) then
              let signature ← decodedField body "signature".toList
              if P.verify passkey.publicKey (signedMessage P authData clientData) signature then some passkey else none
            else none

end

end Selfhost.Webauthn

/-!
# The two passkey stores

The console's store, which the owner and the invite door share, and the store of the public reports door. Each is a
state with the operations that its routes make on it; the history is what they have done so far, and no operation reads
it.
-/

namespace Selfhost.Webauthn

open Selfhost.Lib Selfhost.Json

/-- A challenge that was issued or redeemed, and the person it was issued or redeemed for. -/
structure Issue (π : Type) where
  value : Str
  purpose : π
  account : Option Str
  deriving DecidableEq, Repr

structure History (π : Type) where
  issued : List (Issue π)
  redeemed : List (Issue π)
  registered : List Passkey

def History.issue {π : Type} (history : History π) (record : Issue π) : History π :=
  { history with issued := history.issued ++ [record] }

def History.redeem {π : Type} (history : History π) (taken : Option Str) (purpose : π) (account : Option Str) :
    History π :=
  match taken with
  | none => history
  | some value => { history with redeemed := history.redeemed ++ [⟨value, purpose, account⟩] }

def History.register {π : Type} (history : History π) (passkey : Passkey) : History π :=
  { history with registered := history.registered ++ [passkey] }

/-- The times a ceremony reads, and whether the file can be written at its end. -/
structure Moment where
  now : Instant
  unix : Nat
  written : Bool
  deriving DecidableEq, Repr

def credentialsOf (holder : Str) (passkeys : List Passkey) : List Passkey :=
  passkeys.filter fun entry => entry.holder = holder

/-! ## The console -/

inductive ConsolePurpose where
  | register
  | login
  | invite
  deriving DecidableEq, Repr

structure Console where
  challenges : List (Challenge ConsolePurpose)
  passkeys : List Passkey
  history : History ConsolePurpose

namespace Console

def maxChallenges : Nat := 32

def maxPasskeys : Nat := 32

def maxUserChars : Nat := 32

def defaultUser : Str := "owner".toList

def origin (rpId : Str) : Str := "https://".toList ++ rpId

/-- `Webauthn::load`, with the passkeys that were found in the file. -/
def load (passkeys : List Passkey) : Console := ⟨[], passkeys, [], [], passkeys⟩

/-- `challenges.issue`, of the random bytes that the system gave if it gave some. -/
def issue (random : Option Bytes) (purpose : ConsolePurpose) (account : Option Str) (now : Instant) (s : Console) :
    Console :=
  match random with
  | none => s
  | some bytes =>
      { s with
        challenges := Tickets.issue maxChallenges challengeLifetime ⟨b64urlEncode bytes, purpose, now⟩ s.challenges
        history := s.history.issue ⟨b64urlEncode bytes, purpose, account⟩ }

/-- What a new passkey leaves of the others. -/
def superseded (passkey : Passkey) (passkeys : List Passkey) : List Passkey :=
  passkeys.filter fun entry =>
    decide (entry.id ≠ passkey.id) && !(decide (entry.holder = passkey.holder) && decide (entry.label = passkey.label))

/-- `Passkeys::add`: whether it succeeded, and the entries in memory. -/
def add (passkey : Passkey) (written : Bool) (passkeys : List Passkey) : Bool × List Passkey :=
  let kept := superseded passkey passkeys
  if maxPasskeys ≤ kept.length then (false, kept) else (written, kept ++ [passkey])

/-- A verified registration under a name that is given, or under the name in the body. -/
def registerAs (P : Party) (body : Value P.D.F) (purpose : ConsolePurpose) (user : Option Str) (moment : Moment)
    (s : Console) : Console × Option Passkey :=
  let ceremony := registration P body purpose moment.now s.challenges
  let history := s.history.redeem ceremony.taken purpose user
  match ceremony.answer with
  | none => (⟨ceremony.challenges, s.passkeys, history⟩, none)
  | some (id, publicKey) =>
      let passkey : Passkey :=
        ⟨id, publicKey, user.getD (namedField body "user".toList defaultUser maxUserChars),
          namedField body "label".toList "passkey".toList maxLabelChars, moment.unix⟩
      let (added, passkeys) := add passkey moment.written s.passkeys
      if added then (⟨ceremony.challenges, passkeys, history.register passkey⟩, some passkey)
      else (⟨ceremony.challenges, passkeys, history⟩, none)

def login (P : Party) (body : Value P.D.F) (now : Instant) (s : Console) : Console × Option Passkey :=
  let ceremony := verifyLogin P ConsolePurpose.login body now s.passkeys s.challenges
  (⟨ceremony.challenges, s.passkeys, s.history.redeem ceremony.taken .login none⟩, ceremony.answer)

/-- `remove` changes the entries in memory also when the file cannot be written. -/
def remove (id : Str) (s : Console) : Console :=
  { s with passkeys := s.passkeys.filter fun entry => entry.id ≠ id }

inductive Event (F : Type) where
  | challenge (purpose : ConsolePurpose) (random : Option Bytes) (now : Instant)
  | inviteChallenge (name : Str) (random : Option Bytes) (now : Instant)
  /-- The owner's route. -/
  | register (body : Value F) (moment : Moment)
  /-- The invite door, with the name of the invitation. -/
  | registerInvited (name : Str) (body : Value F) (moment : Moment)
  | login (body : Value F) (now : Instant)
  | remove (id : Str)

/-- The state after an operation, and the passkey it answers with. -/
def handle (P : Party) (s : Console) : Event P.D.F → Console × Option Passkey
  | .challenge purpose random now => (s.issue random purpose none now, none)
  | .inviteChallenge name random now => (s.issue random .invite (some name) now, none)
  | .register body moment => s.registerAs P body .register none moment
  | .registerInvited name body moment => s.registerAs P body .invite (some name) moment
  | .login body now => s.login P body now
  | .remove id => (s.remove id, none)

def step (P : Party) (s : Console) (event : Event P.D.F) : Option Console := some (s.handle P event).1

/-- Whose credentials an operation may touch. -/
def Event.Authorises {F : Type} : Event F → Str → Prop
  | .register _ _, _ => True
  | .registerInvited name _ _, u => u = name
  | .remove _, _ => True
  | _, _ => False

end Console

/-! ## The reports door -/

inductive ReportsPurpose where
  | register
  | login
  deriving DecidableEq, Repr

/-- The table `bound` says for which account a registration challenge was issued. -/
structure Reports where
  challenges : List (Challenge ReportsPurpose)
  bound : List (Ticket Str Str)
  passkeys : List Passkey
  history : History ReportsPurpose

namespace Reports

def maxChallenges : Nat := 4096

def maxPasskeys : Nat := 50000

def maxPasskeysPerFiler : Nat := 10

def load (passkeys : List Passkey) : Reports := ⟨[], [], passkeys, [], [], passkeys⟩

def issue (random : Option Bytes) (purpose : ReportsPurpose) (account : Option Str) (now : Instant) (s : Reports) :
    Reports :=
  match random with
  | none => s
  | some bytes =>
      { s with
        challenges := Tickets.issue maxChallenges challengeLifetime ⟨b64urlEncode bytes, purpose, now⟩ s.challenges
        history := s.history.issue ⟨b64urlEncode bytes, purpose, account⟩ }

def startRegistration (accountId : Str) (random : Option Bytes) (now : Instant) (s : Reports) : Reports :=
  match random with
  | none => s
  | some bytes =>
      { s.issue (some bytes) .register (some accountId) now with
        bound := Tickets.issue maxChallenges challengeLifetime ⟨b64urlEncode bytes, accountId, now⟩ s.bound }

/-- `Passkeys::add`: the limits come before the entry of the same id is dropped. -/
def add (passkey : Passkey) (written : Bool) (passkeys : List Passkey) : Bool × List Passkey :=
  if maxPasskeysPerFiler ≤ (credentialsOf passkey.holder passkeys).length then (false, passkeys)
  else if maxPasskeys ≤ passkeys.length then (false, passkeys)
  else (written, (passkeys.filter fun entry => entry.id ≠ passkey.id) ++ [passkey])

def register (P : Party) (accountId : Str) (body : Value P.D.F) (moment : Moment) (s : Reports) :
    Reports × Option Passkey :=
  let ceremony := registration P body ReportsPurpose.register moment.now s.challenges
  let history := s.history.redeem ceremony.taken .register (some accountId)
  match ceremony.answer with
  | none => ({ s with challenges := ceremony.challenges, history := history }, none)
  | some (id, publicKey) =>
      let passkey : Passkey :=
        ⟨id, publicKey, accountId, namedField body "label".toList "passkey".toList maxLabelChars, moment.unix⟩
      let (added, passkeys) := add passkey moment.written s.passkeys
      if added then (⟨ceremony.challenges, s.bound, passkeys, history.register passkey⟩, some passkey)
      else (⟨ceremony.challenges, s.bound, passkeys, history⟩, none)

/-- The account that a challenge is bound to; the walk keeps the last match. -/
def binding (challenge : Str) (now : Instant) (bound : List (Ticket Str Str)) : Option Str :=
  (Tickets.taken challengeLifetime now (fun entry => entry.value = challenge) bound).getLast?.map Ticket.tag

def finishRegistration (P : Party) (body : Value P.D.F) (moment : Moment) (s : Reports) : Reports × Option Passkey :=
  match claimedChallenge P body with
  | none => (s, none)
  | some challenge =>
      let left := Tickets.left challengeLifetime moment.now (fun entry => entry.value = challenge) s.bound
      match binding challenge moment.now s.bound with
      | none => ({ s with bound := left }, none)
      | some accountId => { s with bound := left }.register P accountId body moment

def login (P : Party) (body : Value P.D.F) (now : Instant) (s : Reports) : Reports × Option Passkey :=
  let ceremony := verifyLogin P ReportsPurpose.login body now s.passkeys s.challenges
  ({ s with challenges := ceremony.challenges, history := s.history.redeem ceremony.taken .login none }, ceremony.answer)

def remove (accountId id : Str) (s : Reports) : Reports :=
  { s with passkeys := s.passkeys.filter fun entry => !(decide (entry.id = id) && decide (entry.holder = accountId)) }

inductive Event (F : Type) where
  | challenge (purpose : ReportsPurpose) (random : Option Bytes) (now : Instant)
  | startRegistration (accountId : Str) (random : Option Bytes) (now : Instant)
  | finishRegistration (body : Value F) (moment : Moment)
  | login (body : Value F) (now : Instant)
  /-- The settings of a signed-in account. -/
  | remove (accountId id : Str)

def handle (P : Party) (s : Reports) : Event P.D.F → Reports × Option Passkey
  | .challenge purpose random now => (s.issue random purpose none now, none)
  | .startRegistration accountId random now => (s.startRegistration accountId random now, none)
  | .finishRegistration body moment => s.finishRegistration P body moment
  | .login body now => s.login P body now
  | .remove accountId id => (s.remove accountId id, none)

def step (P : Party) (s : Reports) (event : Event P.D.F) : Option Reports := some (s.handle P event).1

/-- The account that the challenge of a body is bound to. -/
def accountFor (P : Party) (s : Reports) (body : Value P.D.F) (now : Instant) : Option Str :=
  (claimedChallenge P body).bind fun challenge => binding challenge now s.bound

def Authorises (P : Party) (s : Reports) : Event P.D.F → Str → Prop
  | .finishRegistration body moment, u => s.accountFor P body moment.now = some u
  | .remove accountId _, u => u = accountId
  | _, _ => False

end Reports

/-! ## What an operation may do -/

/-- An assertion for a passkey that its key admits. -/
def SignedBy (P : Party) (body : Value P.D.F) (passkey : Passkey) : Prop :=
  credentialId body = some passkey.id ∧ ∃ clientData authData signature,
    decodedField body "clientDataJSON".toList = some clientData ∧
      decodedField body "authenticatorData".toList = some authData ∧
      decodedField body "signature".toList = some signature ∧
      P.verify passkey.publicKey (signedMessage P authData clientData) signature = true

/-- An operation that touches the credentials of those it is authorised for: a registration that is refused leaves all
of them, and an assertion is answered with a credential as it was registered. -/
structure Kept (P : Party) (authorised : Str → Prop) (registers : Prop) (asserted : Option (Value P.D.F))
    (registered before after : List Passkey) (answer : Option Passkey) : Prop where
  others : ∀ u, ¬authorised u → credentialsOf u after = credentialsOf u before
  refused : registers → answer = none → after = before
  signedIn : ∀ body passkey, asserted = some body → answer = some passkey →
    passkey ∈ registered ∧ SignedBy P body passkey

/-- Each challenge is redeemed at most once, for the purpose and the person it was issued for. -/
structure History.SingleUse {π : Type} (history : History π) : Prop where
  distinct : (history.issued.map Issue.value).Nodup
  once : (history.redeemed.map Issue.value).Nodup
  genuine : history.redeemed ⊆ history.issued

namespace Console

def Event.Registers {F : Type} : Event F → Prop
  | .register _ _ | .registerInvited _ _ _ => True
  | _ => False

def Event.assertion {F : Type} : Event F → Option (Value F)
  | .login body _ => some body
  | _ => none

/-- The random bytes give a value that was never issued before. -/
def Fresh (s : Console) (random : Option Bytes) : Prop :=
  ∀ bytes ∈ random, b64urlEncode bytes ∉ s.history.issued.map Issue.value

/-- The file can be written, and at the invite door the body is about a challenge that was issued to the same name and
bears no id of somebody else's passkey. -/
def Sound (P : Party) (s : Console) : Event P.D.F → Prop
  | .challenge _ random _ => s.Fresh random
  | .inviteChallenge _ random _ => s.Fresh random
  | .register _ moment => moment.written = true
  | .registerInvited name body moment => moment.written = true ∧
      (∀ entry ∈ s.passkeys, credentialId body = some entry.id → entry.holder = name) ∧
      ∀ r ∈ s.history.issued, claimedChallenge P body = some r.value → r.purpose = .invite → r.account = some name
  | .login _ _ => True
  | .remove _ => True

instance (P : Party) (s : Console) (event : Event P.D.F) : Decidable (s.Sound P event) :=
  match event with
  | .challenge _ random _ | .inviteChallenge _ random _ =>
      inferInstanceAs (Decidable (∀ bytes ∈ random, b64urlEncode bytes ∉ s.history.issued.map Issue.value))
  | .register _ moment => inferInstanceAs (Decidable (moment.written = true))
  | .registerInvited name body moment => inferInstanceAs (Decidable (moment.written = true ∧
      (∀ entry ∈ s.passkeys, credentialId body = some entry.id → entry.holder = name) ∧
      ∀ r ∈ s.history.issued, claimedChallenge P body = some r.value → r.purpose = .invite → r.account = some name))
  | .login _ _ | .remove _ => .isTrue trivial

end Console

namespace Reports

def Event.Registers {F : Type} : Event F → Prop
  | .finishRegistration _ _ => True
  | _ => False

def Event.assertion {F : Type} : Event F → Option (Value F)
  | .login body _ => some body
  | _ => none

def Fresh (s : Reports) (random : Option Bytes) : Prop :=
  ∀ bytes ∈ random, b64urlEncode bytes ∉ s.history.issued.map Issue.value

/-- The file can be written, and no passkey of another account bears the id in the body. -/
def Sound (P : Party) (s : Reports) : Event P.D.F → Prop
  | .challenge _ random _ => s.Fresh random
  | .startRegistration _ random _ => s.Fresh random
  | .finishRegistration body moment => moment.written = true ∧
      ∀ entry ∈ s.passkeys, credentialId body = some entry.id → s.accountFor P body moment.now = some entry.holder
  | .login _ _ => True
  | .remove _ _ => True

instance (P : Party) (s : Reports) (event : Event P.D.F) : Decidable (s.Sound P event) :=
  match event with
  | .challenge _ random _ | .startRegistration _ random _ =>
      inferInstanceAs (Decidable (∀ bytes ∈ random, b64urlEncode bytes ∉ s.history.issued.map Issue.value))
  | .finishRegistration body moment => inferInstanceAs (Decidable (moment.written = true ∧
      ∀ entry ∈ s.passkeys, credentialId body = some entry.id → s.accountFor P body moment.now = some entry.holder))
  | .login _ _ | .remove _ _ => .isTrue trivial

end Reports

end Selfhost.Webauthn
