import Selfhost.Lib.Ip
import Selfhost.Lib.Slice

/-!
# DNS messages

`net/dns/src/wire.rs`. An encoder writes names without compression and goes on when a name is refused half way; a
decoder follows pointers, backwards only and sixteen at most.
-/

namespace Selfhost.Dns

open Selfhost.Lib

/-- The longest name, and the longest label. -/
def maxName : Nat := 255

def maxLabel : Nat := 63

def maxJumps : Nat := 16

inductive RecordType where
  | a | aaaa | ns | cname | soa | ptr | mx | txt | srv | caa
  | other (code : UInt16)
  deriving DecidableEq, Repr

namespace RecordType

def code : RecordType → UInt16
  | .a => 1
  | .ns => 2
  | .cname => 5
  | .soa => 6
  | .ptr => 12
  | .mx => 15
  | .txt => 16
  | .aaaa => 28
  | .srv => 33
  | .caa => 257
  | .other code => code

def fromCode (code : UInt16) : RecordType :=
  if code = 1 then .a
  else if code = 2 then .ns
  else if code = 5 then .cname
  else if code = 6 then .soa
  else if code = 12 then .ptr
  else if code = 15 then .mx
  else if code = 16 then .txt
  else if code = 28 then .aaaa
  else if code = 33 then .srv
  else if code = 257 then .caa
  else .other code

end RecordType

inductive ResponseCode where
  | noError | formatError | serverFailure | nameError | notImplemented | refused
  | other (code : UInt8)
  deriving DecidableEq, Repr

namespace ResponseCode

def fromBits (bits : UInt8) : ResponseCode :=
  if bits = 0 then .noError
  else if bits = 1 then .formatError
  else if bits = 2 then .serverFailure
  else if bits = 3 then .nameError
  else if bits = 4 then .notImplemented
  else if bits = 5 then .refused
  else .other bits

def toBits : ResponseCode → UInt8
  | .noError => 0
  | .formatError => 1
  | .serverFailure => 2
  | .nameError => 3
  | .notImplemented => 4
  | .refused => 5
  | .other code => code &&& 0x0F

end ResponseCode

structure Soa where
  primary : Str
  responsible : Str
  serial : UInt32
  refresh : UInt32
  retry : UInt32
  expire : UInt32
  minimum : UInt32
  deriving DecidableEq, Repr

/-- The payload of a record. `name` is an alias or a nameserver, and does not say which. -/
inductive RecordData where
  | a (address : Ipv4Addr)
  | aaaa (address : Ipv6Addr)
  | name (target : Str)
  | mx (preference : UInt16) (exchange : Str)
  | txt (text : Str)
  | soa (soa : Soa)
  | srv (priority weight port : UInt16) (target : Str)
  | unknown (recordType : RecordType) (data : Bytes)
  deriving DecidableEq, Repr

structure Record where
  name : Str
  ttl : UInt32
  data : RecordData
  deriving DecidableEq, Repr

/-- The type of a payload. `data_type`, `record_type_of` and `record_kind` in the source. -/
def dataType : RecordData → RecordType
  | .a _ => .a
  | .aaaa _ => .aaaa
  | .name _ => .cname
  | .mx .. => .mx
  | .txt _ => .txt
  | .soa _ => .soa
  | .srv .. => .srv
  | .unknown recordType _ => recordType

inductive WireError where
  | truncated | nameTooLong | compressionLoop | badName
  deriving DecidableEq, Repr

/-! ## Names -/

/-- `trim_end_matches('.')`. -/
def trimDots (name : Str) : Str := name.rdropWhile (· == '.')

/-- Labels with their lengths and the end mark, up to the first that is empty or too long. -/
def writeLabels : List Str → Bytes × Except WireError Unit
  | [] => ([0], .ok ())
  | label :: labels =>
      if label = [] ∨ maxLabel < byteLen label then ([], .error .nameTooLong)
      else
        let (out, result) := writeLabels labels
        (UInt8.ofNat (byteLen label) :: utf8 label ++ out, result)

/-- What `write_name` appends, and whether it is the whole name. -/
def writeName (name : Str) : Bytes × Except WireError Unit :=
  let trimmed := trimDots name
  if trimmed = [] then ([0], .ok ())
  else if maxName < byteLen trimmed then ([], .error .nameTooLong)
  else writeLabels (trimmed.splitOn '.')

/-- Where the decoder of a name stands. -/
structure Cursor where
  labels : List Str
  position : Nat
  jumps : Nat
  afterPointer : Option Nat
  total : Nat
  deriving DecidableEq, Repr

inductive Turn where
  | finished (result : Except WireError (Str × Nat))
  | next (cursor : Cursor)

namespace Cursor

def start (position : Nat) : Cursor := ⟨[], position, 0, none, 0⟩

def name (c : Cursor) : Str := ['.'].intercalate c.labels

/-- One turn of the loop in `read_name`. -/
def turn (buffer : Bytes) (c : Cursor) : Turn :=
  match buffer[c.position]? with
  | none => .finished (.error .truncated)
  | some length =>
      if length &&& 0xC0 = 0xC0 then
        match buffer[c.position + 1]? with
        | none => .finished (.error .truncated)
        | some second =>
            let target := length.toNat % 64 * 256 + second.toNat
            if c.position ≤ target then .finished (.error .compressionLoop)
            else if maxJumps < c.jumps + 1 then .finished (.error .compressionLoop)
            else
              .next { c with
                jumps := c.jumps + 1, afterPointer := some (c.afterPointer.getD (c.position + 2)), position := target }
      else if length = 0 then .finished (.ok (c.name, c.afterPointer.getD (c.position + 1)))
      else if maxLabel < length.toNat then .finished (.error .nameTooLong)
      else if maxName < c.total + (length.toNat + 1) then .finished (.error .nameTooLong)
      else
        let from' := c.position + 1
        match slice? buffer from' (from' + length.toNat) with
        | none => .finished (.error .truncated)
        | some bytes =>
            match fromUtf8 bytes with
            | none => .finished (.error .badName)
            | some label =>
                .next { c with
                  labels := c.labels ++ [label], position := from' + length.toNat, total := c.total + (length.toNat + 1) }

/-- The turns of the loop; `none` when `fuel` of them are not enough. -/
def run (buffer : Bytes) : Nat → Cursor → Option (Except WireError (Str × Nat))
  | 0, _ => none
  | fuel + 1, c =>
      match c.turn buffer with
      | .finished result => some result
      | .next c => run buffer fuel c

end Cursor

/-- More turns than any name takes. -/
def nameTurns : Nat := maxName + maxJumps + 1

/-- The name at an offset, and the offset behind it in the stream. -/
def readName (buffer : Bytes) (start : Nat) : Except WireError (Str × Nat) :=
  ((Cursor.start start).run buffer nameTurns).getD (.error .compressionLoop)

/-! ## Decoding -/

/-- The type in the two bytes behind a name. -/
def readType (buffer : Bytes) (position : Nat) : Except WireError RecordType :=
  match slice? buffer position (position + 2) with
  | none => .error .truncated
  | some bytes => .ok (.fromCode (u16At bytes 0))

def questionOf (buffer : Bytes) : Except WireError (Option (Str × RecordType)) :=
  if buffer.length < 12 then .error .truncated
  else if u16At buffer 4 = 0 then .ok none
  else do
    let (name, next) ← readName buffer 12
    let recordType ← readType buffer next
    return some (name, recordType)

/-- A record whose payload is not yet interpreted. -/
structure Frame where
  name : Str
  recordType : RecordType
  ttl : UInt32
  payload : Bytes
  deriving DecidableEq, Repr

/-- The framing part of `read_record`: the frame, where its payload starts and where the record ends. -/
def readFrame (buffer : Bytes) (start : Nat) : Except WireError (Frame × Nat × Nat) := do
  let (name, position) ← readName buffer start
  match slice? buffer position (position + 10) with
  | none => .error .truncated
  | some header =>
      let length := (u16At header 8).toNat
      let position := position + 10
      match slice? buffer position (position + length) with
      | none => .error .truncated
      | some payload =>
          .ok (⟨name, .fromCode (u16At header 0), u32At header 4, payload⟩, position, position + length)

/-- The chunks of a text payload, joined; each behind its length, up to one that is cut short. -/
def readTexts : Nat → Bytes → Str
  | 0, _ => []
  | _ + 1, [] => []
  | fuel + 1, chunk :: rest =>
      if chunk.toNat ≤ rest.length then
        fromUtf8Lossy (rest.take chunk.toNat) ++ readTexts fuel (rest.drop chunk.toNat)
      else []

/-- The payload part of `read_record`: names are read from the whole message, for their pointers. -/
def readData (buffer : Bytes) (position : Nat) (recordType : RecordType) (payload : Bytes) :
    Except WireError RecordData :=
  match recordType with
  | .a =>
      match payload with
      | [a, b, c, d] => .ok (.a ⟨a, b, c, d⟩)
      | _ => .ok (.unknown .a payload)
  | .aaaa => if h : payload.length = 16 then .ok (.aaaa ⟨payload, h⟩) else .ok (.unknown .aaaa payload)
  | .ns | .cname | .ptr => (readName buffer position).map fun (name, _) => .name name
  | .soa =>
      if 2 ≤ payload.length then do
        let (primary, next) ← readName buffer position
        let (responsible, after) ← readName buffer next
        match slice? buffer after (after + 20) with
        | none => .error .truncated
        | some nums =>
            .ok (.soa ⟨primary, responsible, u32At nums 0, u32At nums 4, u32At nums 8, u32At nums 12, u32At nums 16⟩)
      else .ok (.unknown .soa payload)
  | .mx =>
      if 3 ≤ payload.length then
        (readName buffer (position + 2)).map fun (exchange, _) => .mx (u16At payload 0) exchange
      else .ok (.unknown .mx payload)
  | .srv =>
      if 7 ≤ payload.length then
        (readName buffer (position + 6)).map fun (target, _) =>
          .srv (u16At payload 0) (u16At payload 2) (u16At payload 4) target
      else .ok (.unknown .srv payload)
  | .txt => .ok (.txt (readTexts payload.length payload))
  | .caa => .ok (.unknown .caa payload)
  | .other code => .ok (.unknown (.other code) payload)

def readRecord (buffer : Bytes) (start : Nat) : Except WireError (Record × Nat) := do
  let (frame, position, stop) ← readFrame buffer start
  let data ← readData buffer position frame.recordType frame.payload
  return (⟨frame.name, frame.ttl, data⟩, stop)

structure Response where
  code : ResponseCode
  answers : List Record
  authority : List Record
  additional : List Record
  deriving DecidableEq, Repr

/-- A section that is kept as far as it can be read; the offset behind it is `none` when a record is malformed. -/
def readTolerant (buffer : Bytes) : Nat → Nat → List Record × Option Nat
  | 0, position => ([], some position)
  | count + 1, position =>
      match readRecord buffer position with
      | .error _ => ([], none)
      | .ok (record, next) =>
          let (records, stop) := readTolerant buffer count next
          (record :: records, stop)

/-- A question without its type and class. -/
def readQuestion (buffer : Bytes) (position : Nat) : Except WireError (Str × Nat) :=
  (readName buffer position).map fun (name, next) => (name, next + 4)

def decodeResponse (buffer : Bytes) : Except WireError Response :=
  if buffer.length < 12 then .error .truncated
  else do
    let code := ResponseCode.fromBits (buffer.getD 3 0 &&& 0x0F)
    let (_, position) ← readMany (readQuestion buffer) (u16At buffer 4).toNat 12
    let (answers, position) ← readMany (readRecord buffer) (u16At buffer 6).toNat position
    match readTolerant buffer (u16At buffer 8).toNat position with
    | (authority, none) => return ⟨code, answers, authority, []⟩
    | (authority, some position) =>
        return ⟨code, answers, authority, (readTolerant buffer (u16At buffer 10).toNat position).1⟩

structure Query where
  id : UInt16
  name : Str
  recordType : RecordType
  recursionDesired : Bool
  deriving DecidableEq, Repr

def decodeQuery (buffer : Bytes) : Except WireError Query :=
  if buffer.length < 12 then .error .truncated
  else if u16At buffer 4 = 0 then .error .truncated
  else do
    let (name, next) ← readName buffer 12
    let recordType ← readType buffer next
    return ⟨u16At buffer 0, name, recordType, buffer.getD 2 0 &&& 0x01 ≠ 0⟩

/-! ## Encoding -/

structure ResponseFlags where
  authoritative : Bool
  truncated : Bool
  deriving DecidableEq, Repr

/-- `chunks(size)`. -/
def chunks (size : Nat) : Nat → Bytes → List Bytes
  | 0, _ => []
  | _ + 1, [] => []
  | fuel + 1, b :: l => (b :: l).take size :: chunks size fuel ((b :: l).drop size)

def writeRdata : RecordData → Bytes
  | .a address => address.octets
  | .aaaa address => address.octets
  | .name name => (writeName name).1
  | .mx preference exchange => be16 preference ++ (writeName exchange).1
  | .txt text =>
      let bytes := utf8 text
      (chunks 255 bytes.length bytes).flatMap fun chunk => UInt8.ofNat chunk.length :: chunk
  | .soa soa =>
      (writeName soa.primary).1 ++ (writeName soa.responsible).1 ++
        (be32 soa.serial ++ be32 soa.refresh ++ be32 soa.retry ++ be32 soa.expire ++ be32 soa.minimum)
  | .srv priority weight port target => be16 priority ++ be16 weight ++ be16 port ++ (writeName target).1
  | .unknown _ data => data

/-- The type a record is sent under: `nameType` decides what a name is. -/
def wireType (nameType : RecordType) : RecordData → RecordType
  | .name _ => nameType
  | data => dataType data

def writeRecord (nameType : RecordType) (record : Record) : Bytes :=
  let rdata := writeRdata record.data
  (writeName record.name).1 ++
    (be16 (wireType nameType record.data).code ++ be16 1 ++ be32 record.ttl ++ be16 (UInt16.ofNat rdata.length)) ++ rdata

/-- A name in an answer is an alias, unless nameservers were asked for. -/
def answerNameType (query : Query) : RecordType := if query.recordType = .ns then .ns else .cname

def flagsHigh (query : Query) (flags : ResponseFlags) : UInt8 :=
  0x80 ||| (if flags.authoritative then 0x04 else 0) ||| (if flags.truncated then 0x02 else 0) |||
    (if query.recursionDesired then 0x01 else 0)

def writeHeader (query : Query) (code : ResponseCode) (flags : ResponseFlags) (answers authority additional : Nat) :
    Bytes :=
  be16 query.id ++ [flagsHigh query flags, code.toBits &&& 0x0F] ++ be16 1 ++ be16 (UInt16.ofNat answers) ++
    be16 (UInt16.ofNat authority) ++ be16 (UInt16.ofNat additional)

def writeQuestion (query : Query) : Bytes := (writeName query.name).1 ++ (be16 query.recordType.code ++ be16 1)

def encodeResponse (query : Query) (code : ResponseCode) (flags : ResponseFlags)
    (answers authority additional : List Record) : Bytes :=
  writeHeader query code flags answers.length authority.length additional.length ++ writeQuestion query ++
    answers.flatMap (writeRecord (answerNameType query)) ++ authority.flatMap (writeRecord .ns) ++
    additional.flatMap (writeRecord .ns)

end Selfhost.Dns
