import Selfhost.Json.Parser
import Selfhost.Lib.Base64Url
import Selfhost.Lib.Buffer
import Selfhost.Mesh.Mux
import Selfhost.Mesh.Registry

/-!
# Enrolment proofs

A node proves that it holds its token by a keyed hash over the handshake it takes part in. A handshake is honoured
once.
-/

namespace Selfhost.Mesh

open Selfhost.Lib

/-- The hash functions: SHA-1, and the tag of a message under a key. -/
structure Hashes where
  sha1 : Bytes → Bytes
  hmac : Bytes → Bytes → Bytes

/-! ## Hexadecimal -/

/-- One lower-case digit. -/
def lowerHexValue (byte : UInt8) : Option UInt8 :=
  if 0x30 ≤ byte ∧ byte ≤ 0x39 then some (byte - 0x30)
  else if 0x61 ≤ byte ∧ byte ≤ 0x66 then some (byte - 0x61 + 10)
  else none

/-- Two digits for each byte. -/
def decodeHex : Bytes → Option Bytes
  | [] => some []
  | [_] => none
  | a :: b :: rest => do
      let high ← lowerHexValue a
      let low ← lowerHexValue b
      let out ← decodeHex rest
      return (high <<< 4 ||| low) :: out

/-! ## Tokens and proofs -/

def tokenLen : Nat := 32

def proofLen : Nat := 32

structure NodeToken where
  bytes : Bytes
  sized : bytes.length = tokenLen
  deriving DecidableEq

structure Proof where
  bytes : Bytes
  sized : bytes.length = proofLen
  deriving DecidableEq

inductive EnrollError where
  | malformedToken
  | malformedProof
  | badHandshakeField (field : Str)
  | noEntropy
  deriving DecidableEq, Repr

def Proof.fromHex (text : Str) : Except EnrollError Proof :=
  match decodeHex (utf8 (trim text)) with
  | none => .error .malformedProof
  | some bytes => if h : bytes.length = proofLen then .ok ⟨bytes, h⟩ else .error .malformedProof

/-! ## The handshake -/

def handshakeGuid : Str := "258EAFA5-E914-47DA-95CA-C5AB0DC85B11".toList

def standardAlphabet : Str := "ABCDEFGHIJKLMNOPQRSTUVWXYZabcdefghijklmnopqrstuvwxyz0123456789+/".toList

/-- Base64 with padding. -/
def encodeStandard (data : Bytes) : Str :=
  (sextets data).map (standardAlphabet.getD · '=') ++ List.replicate ((3 - data.length % 3) % 3) '='

def acceptKey (H : Hashes) (clientKey : Str) : Str := encodeStandard (H.sha1 (utf8 (clientKey ++ handshakeGuid)))

def proofContext : Bytes := utf8 "selfhost-mesh-v1".toList

def maxHandshakeField : Nat := 128

def isHandshakeField (value : Str) : Bool :=
  value ≠ [] && (utf8 value).length ≤ maxHandshakeField && (utf8 value).all fun byte => 0x21 ≤ byte && byte ≤ 0x7e

def checkHandshakeField (name value : Str) : Except EnrollError Unit :=
  if isHandshakeField value then .ok () else .error (.badHandshakeField name)

structure Binding where
  key : Str
  accept : Str
  node : NodeName
  deriving DecidableEq

namespace Binding

def new (key accept : Str) (node : NodeName) : Except EnrollError Binding :=
  match checkHandshakeField "sec-websocket-key".toList key with
  | .error error => .error error
  | .ok () =>
      match checkHandshakeField "sec-websocket-accept".toList accept with
      | .error error => .error error
      | .ok () => .ok ⟨key, accept, node⟩

/-- A field behind its length. -/
def field (bytes : Bytes) : Bytes := be16 (UInt16.ofNat (min bytes.length (2 ^ 16 - 1))) ++ bytes

def message (binding : Binding) : Bytes :=
  proofContext ++ field (utf8 binding.key) ++ field (utf8 binding.accept) ++ field (utf8 binding.node.text)

/-- The tag that a machine sends. -/
def prove (H : Hashes) (binding : Binding) (token : NodeToken) : Bytes := H.hmac token.bytes binding.message

def verify (H : Hashes) (binding : Binding) (token : NodeToken) (presented : Proof) : Bool :=
  H.hmac token.bytes binding.message = presented.bytes

end Binding

/-! ## Handshakes that were honoured -/

inductive Admission where
  | fresh
  | replay
  deriving DecidableEq, Repr

structure NonceLedger where
  capacity : Nat
  positive : 0 < capacity
  ttl : Duration
  order : List (Str × Instant)
  keys : List Str
  evictions : UInt64
  deriving DecidableEq

namespace NonceLedger

/-- A capacity of zero would let every replay pass, so it is raised to one. -/
def withLimits (capacity : Nat) (ttl : Duration) : NonceLedger :=
  ⟨max capacity 1, Nat.lt_of_lt_of_le Nat.zero_lt_one (Nat.le_max_right _ _), ttl, [], [], 0⟩

/-- The loop that forgets what is older than the time to live. -/
def expireLoop (ttl : Duration) (now : Instant) : List (Str × Instant) → List Str → List (Str × Instant) × List Str
  | [], keys => ([], keys)
  | (key, recorded) :: order, keys =>
      if Duration.between recorded now ≤ ttl then ((key, recorded) :: order, keys)
      else expireLoop ttl now order (keys.erase key)

def expire (ledger : NonceLedger) (now : Instant) : NonceLedger :=
  let (order, keys) := expireLoop ledger.ttl now ledger.order ledger.keys
  { ledger with order := order, keys := keys }

/-- The loop that forgets the oldest until there is room for one more. -/
def evictLoop (capacity : Nat) :
    List (Str × Instant) → List Str → UInt64 → List (Str × Instant) × List Str × UInt64
  | [], keys, evictions => ([], keys, evictions)
  | (key, recorded) :: order, keys, evictions =>
      if order.length + 1 ≥ capacity then evictLoop capacity order (keys.erase key) (saturatingAdd evictions 1)
      else ((key, recorded) :: order, keys, evictions)

/-- `admit` of the ledger. -/
def honour (ledger : NonceLedger) (handshakeKey : Str) (now : Instant) : Admission × NonceLedger :=
  let ledger := ledger.expire now
  if ledger.keys.contains handshakeKey then (.replay, ledger)
  else
    let (order, keys, evictions) := evictLoop ledger.capacity ledger.order ledger.keys ledger.evictions
    (.fresh, { ledger with
      order := order ++ [(handshakeKey, now)]
      keys := handshakeKey :: keys
      evictions := evictions })

end NonceLedger

/-! ## The greeting -/

structure Hello where
  node : NodeName
  version : UInt8
  proof : Proof
  deriving DecidableEq

inductive HelloError where
  | notUtf8
  | notJson
  | missingField (field : Str)
  | badNode (error : NameError)
  | badProof (error : EnrollError)
  deriving DecidableEq, Repr

/-- `and_then(as_u64)` and `u8::try_from`. -/
def versionOf (D : Json.DoubleOps) (json : Json.Value D.F) : Option UInt8 :=
  ((json.get "version".toList).bind (Json.Value.asU64 D)).bind fun version =>
    if version < 256 then some (UInt8.ofNat version) else none

def Hello.parse (D : Json.DoubleOps) (params : Bytes) : Except HelloError Hello :=
  match fromUtf8 params with
  | none => .error .notUtf8
  | some text =>
      match Json.parse D text with
      | .error _ => .error .notJson
      | .ok json =>
          match (json.get "node".toList).bind Json.Value.asStr with
          | none => .error (.missingField "node".toList)
          | some node =>
              match NodeName.parse node with
              | .error error => .error (.badNode error)
              | .ok node =>
                  match versionOf D json with
                  | none => .error (.missingField "version".toList)
                  | some version =>
                      match (json.get "proof".toList).bind Json.Value.asStr with
                      | none => .error (.missingField "proof".toList)
                      | some proof =>
                          match Proof.fromHex proof with
                          | .error error => .error (.badProof error)
                          | .ok proof => .ok ⟨node, version, proof⟩

end Selfhost.Mesh

/-!
# The owner's side of a link

The greeting of a machine that dialled in is read and verified. What comes of it is written to the registry.
-/

namespace Selfhost.Mesh

open Selfhost.Lib

/-- What the stream gives before the deadline for the greeting. -/
inductive Reading where
  | silent
  | failed
  | closed
  | message (bytes : Bytes)
  deriving DecidableEq, Repr

inductive Refused where
  | silent
  | noGreeting
  | notAGreeting
  | badGreeting (error : HelloError)
  | framing (error : FrameError)
  | stream
  | badHandshake
  | undeclared (node : NodeName)
  | proofFailed (node : NodeName)
  | replay (node : NodeName)
  | versionMismatch (node : NodeName) (offered : UInt8)
  deriving DecidableEq

namespace Refused

/-- The node a refusal is recorded for. -/
def node : Refused → Option NodeName
  | .proofFailed node | .replay node | .versionMismatch node _ => some node
  | .undeclared _ | .silent | .noGreeting | .notAGreeting | .badGreeting _ | .framing _ | .stream | .badHandshake => none

def dropReason : Refused → DropReason
  | .proofFailed _ | .replay _ | .undeclared _ => .proofRefused
  | .versionMismatch _ offered => .versionMismatch offered
  | .silent | .noGreeting => .timeout
  | .stream => .transportFailed
  | .notAGreeting | .badGreeting _ | .framing _ | .badHandshake => .protocolError

end Refused

def linkControlService : UInt8 := 0

/-- Exactly one frame, which opens the link-control service on channel 0. -/
def readGreeting (D : Json.DoubleOps) : Reading → Except Refused Hello
  | .silent => .error .silent
  | .failed => .error .stream
  | .closed => .error .noGreeting
  | .message message =>
      match parseFrame message with
      | .error error => .error (.framing error)
      | .ok (frame, rest) =>
          if rest ≠ [] then .error (.framing (.tooLong 0))
          else if !frame.header.channel.isControl || frame.header.kind ≠ .opening then .error .notAGreeting
          else
            match Open.parse frame.payload with
            | .error _ => .error .notAGreeting
            | .ok opening =>
                if opening.service ≠ linkControlService then .error .notAGreeting
                else
                  match Hello.parse D opening.params with
                  | .error error => .error (.badGreeting error)
                  | .ok hello => .ok hello

def decoyToken : NodeToken := ⟨List.replicate 32 0, by decide⟩

/-- What the owner keeps. -/
structure Owner where
  tokens : NodeName → Option NodeToken
  ledger : NonceLedger
  registry : Registry

/-- The checks on a greeting, in their order: the version is compared before the registry is asked. -/
def verifyGreeting (H : Hashes) (owner : Owner) (handshakeKey : Str) (moment : Instant) (greeting : Hello) :
    Except Refused NodeName × NonceLedger :=
  if greeting.version ≠ version then (.error (.versionMismatch greeting.node greeting.version), owner.ledger)
  else
    match Binding.new handshakeKey (acceptKey H handshakeKey) greeting.node with
    | .error _ => (.error .badHandshake, owner.ledger)
    | .ok binding =>
        let declared := owner.registry.isDeclared greeting.node
        let token := owner.tokens greeting.node
        let genuine := token.isSome && declared
        let proved := binding.verify H (token.getD decoyToken) greeting.proof
        if !(genuine && proved) then
          (.error (if declared then .proofFailed greeting.node else .undeclared greeting.node), owner.ledger)
        else
          match owner.ledger.honour binding.key moment with
          | (.fresh, ledger) => (.ok greeting.node, ledger)
          | (.replay, ledger) => (.error (.replay greeting.node), ledger)

/-- A dialler as the owner meets it: the key of its handshake, what is read from it, and whether the answer can be
written to it. -/
structure Dialler where
  handshakeKey : Str
  reading : Reading
  writable : Bool
  deriving DecidableEq

/-- Reads the greeting and decides whether it proves anything. -/
def verify (H : Hashes) (D : Json.DoubleOps) (owner : Owner) (dialler : Dialler) (moment : Instant) :
    Except Refused NodeName × NonceLedger :=
  match readGreeting D dialler.reading with
  | .error refusal => (.error refusal, owner.ledger)
  | .ok greeting => verifyGreeting H owner dialler.handshakeKey moment greeting

/-- `admit`: a link is recorded when the answer was written, a refusal where it names a node. -/
def admitDialler (H : Hashes) (D : Json.DoubleOps) (owner : Owner) (dialler : Dialler) (now : SystemTime)
    (moment : Instant) : Except Refused NodeName × Owner :=
  match verify H D owner dialler moment with
  | (.ok node, ledger) =>
      match encodeFrame .accept 0 [] with
      | .error error => (.error (.framing error), { owner with ledger := ledger })
      | .ok _ =>
          if dialler.writable then
            (.ok node, { owner with ledger := ledger, registry := owner.registry.declareLinked node now })
          else (.error .stream, { owner with ledger := ledger })
  | (.error refusal, ledger) =>
      match refusal.node with
      | some node => (.error refusal,
          { owner with
            ledger := ledger
            registry := owner.registry.declareDropped node now refusal.dropReason })
      | none => (.error refusal, { owner with ledger := ledger })

end Selfhost.Mesh
