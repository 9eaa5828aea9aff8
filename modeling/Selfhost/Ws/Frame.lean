import Selfhost.Lib.Buffer
import Selfhost.Lib.Stream
import Selfhost.Lib.Ip
import Selfhost.Lib.Machine
import Selfhost.Lib.Slice

/-!
# WebSocket frames

Frames as they stand on the wire, the messages that are put together from them, and the bodies of close frames.
-/

namespace Selfhost.Ws

open Selfhost.Lib

inductive Opcode where
  | continuation
  | binary
  | close
  | ping
  | pong
  deriving DecidableEq, Repr

inductive ProtocolError where
  | incomplete
  | reservedBitSet
  | textFrame
  | reservedOpcode (code : UInt8)
  | unmaskedClientFrame
  | maskedServerFrame
  | fragmentedControlFrame
  | controlFrameTooLarge (field : Nat)
  | nonMinimalLength
  | lengthHighBitSet
  | frameTooLarge (length : Nat)
  | messageTooLarge (length : Nat)
  | tooManyFragments (count : Nat)
  | unexpectedContinuation
  | interleavedDataFrame
  | controlFrameNotAMessage
  | truncatedCloseBody
  | reservedCloseCode (code : UInt16)
  deriving DecidableEq, Repr

namespace ProtocolError

/-- The text that is sent to the peer as the reason of the close. -/
def text : ProtocolError → Str
  | .incomplete => "incomplete frame".toList
  | .reservedBitSet => "reserved bit set, but ".toList ++ "no extension was negotiated".toList
  | .textFrame => "text frames are not accepted; ".toList ++ "this stack speaks binary only".toList
  | .reservedOpcode code => "reserved opcode 0x".toList ++ hexText code.toNat
  | .unmaskedClientFrame => "client frame was not masked".toList
  | .maskedServerFrame => "server frame was masked".toList
  | .fragmentedControlFrame => "control frame had FIN = 0".toList
  | .controlFrameTooLarge field =>
      "control frame length field was ".toList ++ natText field ++ ", over the 125 a control payload may be".toList
  | .nonMinimalLength => "length used a wider form than it needed".toList
  | .lengthHighBitSet => "64-bit length had its high bit set".toList
  | .frameTooLarge length => "frame declared ".toList ++ natText length ++ " bytes, over the frame ceiling".toList
  | .messageTooLarge length =>
      "message reached ".toList ++ natText length ++ " bytes, over the message ceiling".toList
  | .tooManyFragments count => "message split into ".toList ++ natText count ++ " fragments".toList
  | .unexpectedContinuation => "continuation with no message in progress".toList
  | .interleavedDataFrame => "new data frame while a fragmented message was open".toList
  | .controlFrameNotAMessage => "control frame handed to the reassembler".toList
  | .truncatedCloseBody => "close body of one byte is neither a code nor empty".toList
  | .reservedCloseCode code => "close code ".toList ++ natText code.toNat ++ " may not appear on the wire".toList

end ProtocolError

namespace Opcode

def classify (bits : UInt8) : Except ProtocolError Opcode :=
  if bits = 0x0 then .ok .continuation
  else if bits = 0x1 then .error .textFrame
  else if bits = 0x2 then .ok .binary
  else if bits = 0x8 then .ok .close
  else if bits = 0x9 then .ok .ping
  else if bits = 0xA then .ok .pong
  else .error (.reservedOpcode bits)

def bits : Opcode → UInt8
  | .continuation => 0x0
  | .binary => 0x2
  | .close => 0x8
  | .ping => 0x9
  | .pong => 0xA

def isControl : Opcode → Bool
  | .close | .ping | .pong => true
  | .continuation | .binary => false

end Opcode

/-- Which side of the connection this end is. -/
inductive Role where
  | server
  | client
  deriving DecidableEq, Repr

def Role.peer : Role → Role
  | .server => .client
  | .client => .server

/-- The ceilings of a stream. -/
structure Limits where
  maxFrame : Nat
  maxMessage : Nat
  maxFragments : Nat
  deriving DecidableEq, Repr

structure Frame where
  fin : Bool
  opcode : Opcode
  payload : Bytes
  deriving DecidableEq, Repr

structure ParsedFrame where
  frame : Frame
  consumed : Nat
  deriving DecidableEq, Repr

structure MaskKey where
  a : UInt8
  b : UInt8
  c : UInt8
  d : UInt8
  deriving DecidableEq, Repr

/-- The byte of the key for an offset in the payload. -/
def MaskKey.byte (key : MaskKey) (offset : Nat) : UInt8 :=
  match offset % 4 with
  | 0 => key.a
  | 1 => key.b
  | 2 => key.c
  | _ => key.d

def unmask (key : MaskKey) (payload : Bytes) : Bytes := payload.mapIdx fun offset byte => byte ^^^ key.byte offset

def maxControlPayload : Nat := 125

def sevenBitMax : Nat := 125

def sixteenBitMax : Nat := 65535

/-! ## Parsing -/

/-- What the first two bytes decide. -/
structure Prologue where
  fin : Bool
  opcode : Opcode
  masked : Bool
  shortLength : Nat
  deriving DecidableEq, Repr

def Prologue.maskLength (head : Prologue) : Nat := if head.masked then 4 else 0

def prologue (first second : UInt8) (role : Role) : Except ProtocolError Prologue :=
  if first &&& 0x70 ≠ 0 then .error .reservedBitSet
  else
    let fin : Bool := first &&& 0x80 ≠ 0
    match Opcode.classify (first &&& 0x0f) with
    | .error error => .error error
    | .ok opcode =>
        let masked : Bool := second &&& 0x80 ≠ 0
        match role, masked with
        | .server, false => .error .unmaskedClientFrame
        | .client, true => .error .maskedServerFrame
        | _, _ =>
            let shortLength := (second &&& 0x7f).toNat
            if opcode.isControl && !fin then .error .fragmentedControlFrame
            else if opcode.isControl && decide (shortLength > maxControlPayload) then
              .error (.controlFrameTooLarge shortLength)
            else .ok ⟨fin, opcode, masked, shortLength⟩

/-- The payload's length, and how many bytes stand before the key and the payload. -/
def extendedLength (input : Bytes) (shortLength : Nat) : Except ProtocolError (Nat × Nat) :=
  if shortLength = 126 then
    match input.drop 2 with
    | b0 :: b1 :: _ =>
        let length := (ofBe16 b0 b1).toNat
        if length ≤ sevenBitMax then .error .nonMinimalLength else .ok (length, 4)
    | _ => .error .incomplete
  else if shortLength = 127 then
    match input.drop 2 with
    | b0 :: b1 :: b2 :: b3 :: b4 :: b5 :: b6 :: b7 :: _ =>
        let length := ofBe64 (ofBe32 b0 b1 b2 b3) (ofBe32 b4 b5 b6 b7)
        if length &&& 0x8000000000000000 ≠ 0 then .error .lengthHighBitSet
        else if length.toNat ≤ sixteenBitMax then .error .nonMinimalLength
        else .ok (length.toNat, 10)
    | _ => .error .incomplete
  else .ok (shortLength, 2)

def boundedPayloadLength (declared : Nat) (limits : Limits) : Except ProtocolError Nat :=
  if declared > limits.maxFrame then .error (.frameTooLarge declared) else .ok declared

/-- The key of a masked frame, in an input that has it. -/
def keyAt (input : Bytes) (i : Nat) : MaskKey :=
  ⟨input.getD i 0, input.getD (i + 1) 0, input.getD (i + 2) 0, input.getD (i + 3) 0⟩

/-- The frame behind a header that is read. -/
def payloadAfter (input : Bytes) (head : Prologue) (declared headerLength payloadLength : Nat) :
    Except ProtocolError ParsedFrame :=
  let total := headerLength + head.maskLength + payloadLength
  if total > u64Max then .error (.frameTooLarge declared)
  else if input.length < total then .error .incomplete
  else
    let payload := (input.drop (headerLength + head.maskLength)).take payloadLength
    .ok ⟨⟨head.fin, head.opcode, if head.masked then unmask (keyAt input headerLength) payload else payload⟩, total⟩

def parse (input : Bytes) (role : Role) (limits : Limits) : Except ProtocolError ParsedFrame :=
  match input with
  | first :: second :: _ =>
      match prologue first second role with
      | .error error => .error error
      | .ok head =>
          match extendedLength input head.shortLength with
          | .error error => .error error
          | .ok (declared, headerLength) =>
              match boundedPayloadLength declared limits with
              | .error error => .error error
              | .ok payloadLength => payloadAfter input head declared headerLength payloadLength
  | _ => .error .incomplete

/-- A request for more bytes is no failure. -/
def verdict (role : Role) (limits : Limits) (input : Bytes) : Verdict ProtocolError Frame :=
  match parse input role limits with
  | .ok parsed => .item parsed.frame parsed.consumed
  | .error .incomplete => .incomplete
  | .error error => .fatal error

/-! ## Encoding -/

/-- The length, in the shortest form that fits. -/
def encodeLength (maskBit : UInt8) (length : Nat) : Bytes :=
  if length ≤ sevenBitMax then [maskBit ||| UInt8.ofNat length]
  else if length ≤ sixteenBitMax then (maskBit ||| 126) :: be16 (UInt16.ofNat length)
  else (maskBit ||| 127) :: be64 (UInt64.ofNat length)

def encode (fin : Bool) (opcode : Opcode) (payload : Bytes) (mask : Option MaskKey) : Bytes :=
  let first := (if fin then 0x80 else 0) ||| opcode.bits
  match mask with
  | some key =>
      first :: (encodeLength 0x80 payload.length ++ ([key.a, key.b, key.c, key.d] ++ unmask key payload))
  | none => first :: (encodeLength 0 payload.length ++ payload)

/-! ## Messages -/

structure Assembler where
  limits : Limits
  buffer : Bytes
  fragments : Nat
  inProgress : Bool
  deriving DecidableEq, Repr

namespace Assembler

def new (limits : Limits) : Assembler := ⟨limits, [], 0, false⟩

def reset (assembler : Assembler) : Assembler := { assembler with buffer := [], fragments := 0, inProgress := false }

def offer (assembler : Assembler) (frame : Frame) : Except ProtocolError (Option Bytes) × Assembler :=
  if frame.opcode.isControl then (.error .controlFrameNotAMessage, assembler)
  else if frame.opcode = .continuation ∧ assembler.inProgress = false then (.error .unexpectedContinuation, assembler)
  else if frame.opcode = .binary ∧ assembler.inProgress = true then (.error .interleavedDataFrame, assembler)
  else
    let fragments := assembler.fragments + 1
    if fragments > u64Max then (.error (.tooManyFragments u64Max), assembler)
    else if fragments > assembler.limits.maxFragments then (.error (.tooManyFragments fragments), assembler)
    else
      let total := assembler.buffer.length + frame.payload.length
      if total > u64Max then (.error (.messageTooLarge u64Max), assembler)
      else if total > assembler.limits.maxMessage then (.error (.messageTooLarge total), assembler)
      else
        let buffer := assembler.buffer ++ frame.payload
        if frame.fin then (.ok (some buffer), assembler.reset)
        else (.ok none, { assembler with buffer := buffer, fragments := fragments, inProgress := true })

/-- Every refusal leaves the assembler idle. -/
def accept (assembler : Assembler) (frame : Frame) : Except ProtocolError (Option Bytes) × Assembler :=
  match assembler.offer frame with
  | (.error error, after) => (.error error, after.reset)
  | (.ok message, after) => (.ok message, after)

end Assembler

/-! ## Close bodies -/

inductive CloseCode where
  | normal
  | goingAway
  | protocolError
  | unacceptableData
  | policyViolation
  | messageTooBig
  | internalError
  | other (code : UInt16)
  deriving DecidableEq, Repr

namespace CloseCode

def value : CloseCode → UInt16
  | .normal => 1000
  | .goingAway => 1001
  | .protocolError => 1002
  | .unacceptableData => 1003
  | .policyViolation => 1008
  | .messageTooBig => 1009
  | .internalError => 1011
  | .other code => code

def fromWire (code : UInt16) : Except ProtocolError CloseCode :=
  if code = 1000 then .ok .normal
  else if code = 1001 then .ok .goingAway
  else if code = 1002 then .ok .protocolError
  else if code = 1003 then .ok .unacceptableData
  else if code = 1008 then .ok .policyViolation
  else if code = 1009 then .ok .messageTooBig
  else if code = 1011 then .ok .internalError
  else if code = 1007 ∨ code = 1010 ∨ (1012 ≤ code ∧ code ≤ 1014) then .ok (.other code)
  else if 3000 ≤ code ∧ code ≤ 4999 then .ok (.other code)
  else .error (.reservedCloseCode code)

end CloseCode

structure CloseFrame where
  code : Option CloseCode
  reason : Str
  deriving DecidableEq, Repr

def parseBody (payload : Bytes) : Except ProtocolError CloseFrame :=
  match payload with
  | [] => .ok ⟨none, []⟩
  | [_] => .error .truncatedCloseBody
  | high :: low :: reason =>
      match CloseCode.fromWire (ofBe16 high low) with
      | .error error => .error error
      | .ok code => .ok ⟨some code, fromUtf8Lossy reason⟩

def maxReasonBytes : Nat := 123

/-- The longest front of a text that fits without splitting a character. -/
def truncateOnBoundary (limit : Nat) : Str → Str
  | [] => []
  | c :: rest =>
      if (utf8 [c]).length ≤ limit then c :: truncateOnBoundary (limit - (utf8 [c]).length) rest else []

def encodeBody (code : CloseCode) (reason : Str) : Bytes :=
  be16 code.value ++ utf8 (truncateOnBoundary maxReasonBytes reason)

def codeFor : ProtocolError → CloseCode
  | .textFrame => .unacceptableData
  | .frameTooLarge _ | .messageTooLarge _ | .tooManyFragments _ | .controlFrameTooLarge _ => .messageTooBig
  | .controlFrameNotAMessage | .incomplete => .internalError
  | _ => .protocolError

end Selfhost.Ws
