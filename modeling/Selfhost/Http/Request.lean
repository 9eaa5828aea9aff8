import Selfhost.Lib.Lines
import Selfhost.Lib.Machine
import Selfhost.Lib.Text

/-!
# Request heads

`foundation/http/src/request.rs`: finding the end of a head, its lines, the request line and the fields, and
how the body of a request is delimited.
-/

namespace Selfhost.Http

open Selfhost.Lib

/-- The most fields of one message. -/
def maxHeaderCount : Nat := 128

/-- The longest head, in bytes. -/
def maxHeadBytes : Nat := 64 * 1024

/-! ## Field names -/

namespace Field

def host : Str := "host".toList

def connection : Str := "connection".toList

def contentLength : Str := "content-length".toList

def transferEncoding : Str := "transfer-encoding".toList

end Field

/-! ## Fields -/

inductive HeaderError where
  | invalidName
  | invalidValue
  | tooMany
  deriving DecidableEq, Repr

/-- The bytes of an RFC 9110 token: `!#$%&'*+-.^_|~`, the grave accent, digits and letters. -/
def isTokenByte (b : UInt8) : Bool :=
  b ∈ [0x21, 0x23, 0x24, 0x25, 0x26, 0x27, 0x2A, 0x2B, 0x2D, 0x2E, 0x5E, 0x5F, 0x60, 0x7C, 0x7E] ||
    (0x30 ≤ b && b ≤ 0x39) || (0x61 ≤ b && b ≤ 0x7A) || (0x41 ≤ b && b ≤ 0x5A)

def isTokenName (name : Str) : Bool := !name.isEmpty && (utf8 name).all isTokenByte

/-- Whether a value holds none of CR, LF and NUL. -/
def isFieldValue (value : Bytes) : Bool := value.all fun b => b != cr && b != lf && b != 0

@[ext]
structure Header where
  name : Str
  value : Bytes
  name_token : isTokenName name = true
  value_plain : isFieldValue value = true
  deriving DecidableEq

def Header.new (name : Str) (value : Bytes) : Except HeaderError Header :=
  if hn : isTokenName name = true then
    if hv : isFieldValue value = true then .ok ⟨name, value, hn, hv⟩ else .error .invalidValue
  else .error .invalidName

/-- The value as text, when it is UTF-8. -/
def Header.valueStr (f : Header) : Option Str := fromUtf8 f.value

/-- Whether the field carries this name, in any case. -/
def Header.isNamed (name : Str) (f : Header) : Bool := eqIgnoreAsciiCase f.name name

@[ext]
structure Headers where
  fields : List Header
  deriving DecidableEq

namespace Headers

def empty : Headers := ⟨[]⟩

def len (hs : Headers) : Nat := hs.fields.length

/-- `append` under a ceiling of the reader's choice. -/
def appendWithin (most : Nat) (hs : Headers) (f : Header) : Except HeaderError Headers :=
  if most ≤ hs.len then .error .tooMany else .ok ⟨hs.fields ++ [f]⟩

def append (hs : Headers) (f : Header) : Except HeaderError Headers := appendWithin maxHeaderCount hs f

def remove (hs : Headers) (name : Str) : Headers := ⟨hs.fields.filter fun f => !f.isNamed name⟩

/-- Removes every field of this name, then appends the new one. -/
def set (hs : Headers) (name : Str) (value : Bytes) : Except HeaderError Headers :=
  (Header.new name value).bind (hs.remove name).append

def get (hs : Headers) (name : Str) : Option Bytes :=
  (hs.fields.find? (·.isNamed name)).map Header.value

def getStr (hs : Headers) (name : Str) : Option Str :=
  (hs.fields.find? (·.isNamed name)).bind Header.valueStr

def count (hs : Headers) (name : Str) : Nat := hs.fields.countP (·.isNamed name)

def contains (hs : Headers) (name : Str) : Bool := 0 < hs.count name

end Headers

/-- `name: value`, without its CRLF. -/
def Header.line (f : Header) : Bytes := utf8 f.name ++ utf8 ": ".toList ++ f.value

/-- The fields in wire format, each ended by CRLF. -/
def Headers.write (hs : Headers) : Bytes := lines (hs.fields.map Header.line)

end Selfhost.Http

/-! # Request heads -/

namespace Selfhost.Http

open Selfhost.Lib

inductive Method where
  | get
  | head
  | post
  | put
  | delete
  | patch
  | options
  | trace
  | connect
  | other (token : Str)
  deriving DecidableEq, Repr

namespace Method

def parse (token : Str) : Method :=
  if token = "GET".toList then .get
  else if token = "HEAD".toList then .head
  else if token = "POST".toList then .post
  else if token = "PUT".toList then .put
  else if token = "DELETE".toList then .delete
  else if token = "PATCH".toList then .patch
  else if token = "OPTIONS".toList then .options
  else if token = "TRACE".toList then .trace
  else if token = "CONNECT".toList then .connect
  else .other token

def asStr : Method → Str
  | .get => "GET".toList
  | .head => "HEAD".toList
  | .post => "POST".toList
  | .put => "PUT".toList
  | .delete => "DELETE".toList
  | .patch => "PATCH".toList
  | .options => "OPTIONS".toList
  | .trace => "TRACE".toList
  | .connect => "CONNECT".toList
  | .other token => token

def allowsResponseBody (m : Method) : Bool := m != .head

end Method

/-- How the body of a message is delimited. -/
inductive BodyLength where
  | none
  | fixed (length : Nat)
  | chunked
  deriving DecidableEq, Repr

inductive ParseError where
  | incomplete
  | badRequestLine
  | badHeader (why : HeaderError)
  | headTooLarge
  | unsupportedVersion
  | badHost
  | ambiguousFraming (why : String)
  deriving DecidableEq, Repr

@[ext]
structure Request where
  method : Method
  target : Str
  minorVersion : Nat
  headers : Headers
  deriving DecidableEq

/-- A parsed head and the number of bytes it took. -/
structure Parsed where
  request : Request
  consumed : Nat
  deriving DecidableEq

/-- The ceilings of a reader of heads. -/
structure Limits where
  headBytes : Nat
  headerCount : Nat

def limits : Limits := ⟨maxHeadBytes, maxHeaderCount⟩

/-! ## Lines of a head -/

/-- The offset just past the first blank line. -/
def findHeadEnd (lim : Limits) (input : Bytes) : Option Nat :=
  (findSub (crlf ++ crlf) (input.take (min input.length (lim.headBytes + 4)))).map (· + 4)

/-- A line without one CR at its end. -/
def stripCr (line : Bytes) : Bytes := if line.getLast? = some cr then line.dropLast else line

/-- The pieces between line feeds, each without a CR at its end; empty ones are dropped. -/
def splitCrlf (head : Bytes) : List Bytes :=
  ((head.splitOn lf).map stripCr).filter fun line => !line.isEmpty

def isOws (b : UInt8) : Bool := b == sp || b == htab

def trimOws (b : Bytes) : Bytes := (b.dropWhile isOws).rdropWhile isOws

def isMethodByte (b : UInt8) : Bool :=
  (0x30 ≤ b && b ≤ 0x39) || (0x61 ≤ b && b ≤ 0x7A) || (0x41 ≤ b && b ≤ 0x5A) || b == 0x2D || b == 0x5F

def http11 : Str := "HTTP/1.1".toList

def http10 : Str := "HTTP/1.0".toList

def parseVersion (version : Str) : Except ParseError Nat :=
  if version = http11 then .ok 1
  else if version = http10 then .ok 0
  else if "HTTP/".toList <+: version then .error .unsupportedVersion
  else .error .badRequestLine

/-- `METHOD SP target SP HTTP/1.x`. -/
def parseRequestLine (line : Bytes) : Except ParseError (Method × Str × Nat) :=
  match fromUtf8 line with
  | none => .error .badRequestLine
  | some text =>
      match text.splitOn ' ' with
      | [method, target, version] =>
          if method = [] ∨ target = [] then .error .badRequestLine
          else if !(utf8 method).all isMethodByte then .error .badRequestLine
          else (parseVersion version).map fun minor => (Method.parse method, target, minor)
      | _ => .error .badRequestLine

/-- `Name: value`, without white space around the value. -/
def parseHeaderLine (line : Bytes) : Except ParseError Header :=
  match splitOnce 0x3A line with
  | none => .error (.badHeader .invalidName)
  | some (rawName, rawValue) =>
      match fromUtf8 rawName with
      | none => .error (.badHeader .invalidName)
      | some name =>
          if name.getLast? = some ' ' ∨ name.getLast? = some '\t' then
            .error (.ambiguousFraming "whitespace before header colon")
          else (Header.new name (trimOws rawValue)).mapError .badHeader

/-- The loop over the lines after the request line. -/
def parseFields (most : Nat) : Headers → List Bytes → Except ParseError Headers
  | headers, [] => .ok headers
  | headers, line :: rest =>
      match line with
      | [] => parseFields most headers rest
      | first :: _ =>
          if isOws first then .error (.ambiguousFraming "obsolete header line folding")
          else if most ≤ headers.len then .error (.badHeader .tooMany)
          else
            match parseHeaderLine line with
            | .error e => .error e
            | .ok field =>
                match headers.appendWithin most field with
                | .error e => .error (.badHeader e)
                | .ok headers => parseFields most headers rest

/-! ## Framing -/

namespace Request

/-- The `Content-Length` fields of a list, which must be bare integers and agree. -/
def agreeLengths : Option Nat → List Header → Except ParseError (Option Nat)
  | agreed, [] => .ok agreed
  | agreed, field :: rest =>
      if !field.isNamed Field.contentLength then agreeLengths agreed rest
      else
        match field.valueStr with
        | none => .error (.ambiguousFraming "non-UTF-8 Content-Length")
        | some raw =>
            let text := trim raw
            if text = [] ∨ !text.all Char.isDigit then
              .error (.ambiguousFraming "Content-Length is not a bare integer")
            else if u64Max < decimalValue text then
              .error (.ambiguousFraming "Content-Length out of range")
            else
              match agreed with
              | none => agreeLengths (some (decimalValue text)) rest
              | some existing =>
                  if existing = decimalValue text then agreeLengths agreed rest
                  else .error (.ambiguousFraming "conflicting Content-Length values")

/-- Whether the last coding of a `Transfer-Encoding` is `chunked`. -/
def endsChunked (value : Str) : Bool :=
  toAsciiLowercase (trim ((value.splitOn ',').getLastD [])) == "chunked".toList

/-- How the body of this request is delimited; every ambiguous combination is refused. -/
def bodyLength (r : Request) : Except ParseError BodyLength :=
  let hasTe := r.headers.contains Field.transferEncoding
  let contentLengths := r.headers.count Field.contentLength
  if hasTe ∧ 0 < contentLengths then
    .error (.ambiguousFraming "both Transfer-Encoding and Content-Length present")
  else if hasTe then
    if 1 < r.headers.count Field.transferEncoding then
      .error (.ambiguousFraming "repeated Transfer-Encoding")
    else
      match r.headers.getStr Field.transferEncoding with
      | none => .error (.ambiguousFraming "non-UTF-8 Transfer-Encoding")
      | some value =>
          if endsChunked value then .ok .chunked
          else .error (.ambiguousFraming "Transfer-Encoding does not end with chunked")
  else if contentLengths = 0 then .ok .none
  else (agreeLengths none r.headers.fields).map fun agreed => .fixed (agreed.getD 0)

/-! ## Parsing -/

/-- Parses a head from the front of `input` under a reader's ceilings. -/
def parseWith (lim : Limits) (input : Bytes) : Except ParseError Parsed :=
  match findHeadEnd lim input with
  | none => .error (if lim.headBytes < input.length then .headTooLarge else .incomplete)
  | some headEnd =>
      if lim.headBytes < headEnd then .error .headTooLarge
      else
        match splitCrlf (input.take headEnd) with
        | [] => .error .badRequestLine
        | requestLine :: rest =>
            match parseRequestLine requestLine with
            | .error e => .error e
            | .ok (method, target, minorVersion) =>
                match parseFields lim.headerCount .empty rest with
                | .error e => .error e
                | .ok headers =>
                    if 1 ≤ minorVersion ∧ headers.count Field.host ≠ 1 then .error .badHost
                    else
                      let request : Request := ⟨method, target, minorVersion, headers⟩
                      -- The framing is validated here, so that an ambiguous message is never routed.
                      match request.bodyLength with
                      | .error e => .error e
                      | .ok _ => .ok ⟨request, headEnd⟩

def parse (input : Bytes) : Except ParseError Parsed := parseWith limits input

/-- The `Host` field in lower case, without its port. -/
def host (r : Request) : Option Str :=
  (r.headers.getStr Field.host).map fun value =>
    let raw := trim value
    let withoutPort :=
      if raw.head? = some '[' then
        match splitOnce ']' raw with
        | some (inside, _) => inside ++ [']']
        | none => raw
      else
        -- The last colon is the first one from the end.
        match splitOnce ':' raw.reverse with
        | some (_, before) => before.reverse
        | none => raw
    toAsciiLowercase (withoutPort.rdropWhile (· == '.'))

/-- The target without its query. -/
def path (r : Request) : Str :=
  match splitOnce '?' r.target with
  | some (path, _) => path
  | none => r.target

def wantsKeepAlive (r : Request) : Bool :=
  match r.headers.getStr Field.connection with
  | some value =>
      if eqIgnoreAsciiCase value "close".toList then false
      else if eqIgnoreAsciiCase value "keep-alive".toList then true
      else 1 ≤ r.minorVersion
  | none => 1 ≤ r.minorVersion

end Request

end Selfhost.Http

/-! # Chunked bodies -/

namespace Selfhost.Http

open Selfhost.Lib

/-- The longest chunk size, in hexadecimal digits. -/
def maxSizeDigits : Nat := 16

/-- One line and the bytes after its CRLF. -/
def splitLine (input : Bytes) : Option (Bytes × Bytes) :=
  (findSub crlf input).map fun i => (input.take i, input.drop (i + 2))

/-- The number a list of hexadecimal digits stands for. -/
def hexSize : Nat → Bytes → Except ParseError Nat
  | size, [] => .ok size
  | size, b :: rest =>
      match hexValue b with
      | none => .error (.ambiguousFraming "chunk size is not hexadecimal")
      | some digit =>
          if u64Max < size * 16 + digit then .error (.ambiguousFraming "chunk size out of range")
          else hexSize (size * 16 + digit) rest

/-- The size on a chunk's line; what follows a semicolon is ignored. -/
def chunkSize (line : Bytes) : Except ParseError Nat :=
  let hex := trimOws (line.takeWhile (· != 0x3B))
  if hex = [] ∨ maxSizeDigits < hex.length then .error (.ambiguousFraming "chunk size is empty or too long")
  else hexSize 0 hex

/-- Skips the trailer section: lines up to an empty one. -/
def skipTrailer : Nat → Bytes → Except ParseError Bytes
  | 0, _ => .error .incomplete
  | fuel + 1, trailer =>
      match splitLine trailer with
      | none => .error .incomplete
      | some (line, next) => if line = [] then .ok next else skipTrailer fuel next

/-- The loop over the chunks. Every round takes a line, so the length of the input is fuel enough. -/
def dechunkFrom : Nat → Bytes → Bytes → Except ParseError (Bytes × Bytes)
  | 0, _, _ => .error .incomplete
  | fuel + 1, decoded, rest =>
      match splitLine rest with
      | none => .error .incomplete
      | some (sizeLine, afterSize) =>
          match chunkSize sizeLine with
          | .error e => .error e
          | .ok size =>
              if size = 0 then (skipTrailer fuel afterSize).map fun behind => (decoded, behind)
              else if u64Max < size + 2 then .error (.ambiguousFraming "chunk size out of range")
              else if afterSize.length < size + 2 then .error .incomplete
              else
                let tail := afterSize.drop size
                if tail.take 2 ≠ crlf then .error (.ambiguousFraming "chunk data not terminated by CRLF")
                else dechunkFrom fuel (decoded ++ afterSize.take size) (tail.drop 2)

def dechunkRest (input : Bytes) : Except ParseError (Bytes × Bytes) := dechunkFrom (input.length + 1) [] input

/-- The body that follows a head, decoded, and what stands behind it. -/
def Request.takeMessageBody (r : Request) (input : Bytes) : Except ParseError (Bytes × Bytes) :=
  match r.bodyLength with
  | .error e => .error e
  | .ok .none => .ok ([], input)
  | .ok (.fixed length) =>
      if input.length < length then .error .incomplete else .ok (input.take length, input.drop length)
  | .ok .chunked => dechunkRest input

end Selfhost.Http

/-! # Byte ranges -/

namespace Selfhost.Http

open Selfhost.Lib

/-- An interval of positions, both inclusive. -/
structure ByteRange where
  start : Nat
  stop : Nat
  deriving DecidableEq, Repr

def ByteRange.len (r : ByteRange) : Nat := r.stop - r.start + 1

def ByteRange.contentRange (r : ByteRange) (total : Nat) : Str :=
  "bytes ".toList ++ natText r.start ++ '-' :: natText r.stop ++ '/' :: natText total

inductive RangeOutcome where
  | full
  | window (range : ByteRange)
  | unsatisfiable
  deriving DecidableEq, Repr

/-- Bare decimal digits that fit in 64 bits. -/
def parseU64 (text : Str) : Option Nat :=
  if text = [] ∨ !text.all Char.isDigit then none
  else if u64Max < decimalValue text then none
  else some (decimalValue text)

/-- The unit that a range is counted in. -/
def bytesUnit : Str := "bytes=".toList

/-- One range, with its ends as text. -/
def evaluateEnds (rawStart rawStop : Str) (total : Nat) : RangeOutcome :=
  if rawStart = [] then
    if rawStop = [] then .full
    else
      match parseU64 rawStop with
      | none => .full
      | some suffix =>
          if suffix = 0 then .unsatisfiable else .window ⟨total - suffix, total - 1⟩
  else if rawStop = [] then
    match parseU64 rawStart with
    | none => .full
    | some start => if total ≤ start then .unsatisfiable else .window ⟨start, total - 1⟩
  else
    match parseU64 rawStart, parseU64 rawStop with
    | some start, some stop =>
        if stop < start ∨ total ≤ start then .unsatisfiable else .window ⟨start, min stop (total - 1)⟩
    | _, _ => .full

def evaluate (value : Option Str) (total : Nat) : RangeOutcome :=
  match value with
  | none => .full
  | some value =>
      let value := trim value
      if bytesUnit <+: value then
        match (value.drop bytesUnit.length).splitOn ',' with
        | [spec] =>
            if total = 0 then .unsatisfiable
            else
              match splitOnce '-' (trim spec) with
              | none => .full
              | some (rawStart, rawStop) => evaluateEnds (trim rawStart) (trim rawStop) total
        | _ => .full
      else .full

end Selfhost.Http
