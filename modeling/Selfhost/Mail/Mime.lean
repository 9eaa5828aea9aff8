import Selfhost.Mail.Smtp

/-!
# The MIME tree of a message

`services/mail/src/mime.rs`: a message is parsed into a tree of parts that are ranges of its bytes. A slice that
is inverted or ends behind the message is a panic, which is `none` here.
-/

namespace Selfhost.Mail

open Selfhost.Lib

/-- The bytes from `start` up to `stop`. -/
structure Range where
  start : Nat
  stop : Nat
  deriving DecidableEq

def Range.len (r : Range) : Nat := r.stop - r.start

/-- `&raw[r]`. -/
def slice (raw : Bytes) (r : Range) : Option Bytes :=
  if r.start ≤ r.stop ∧ r.stop ≤ raw.length then some ((raw.drop r.start).take r.len) else none

/-- What is known of a part besides its children. -/
structure PartInfo where
  kind : Str
  subtype : Str
  params : List (Str × Str)
  contentId : Option Str
  description : Option Str
  encoding : Str
  header : Range
  body : Range

inductive Part where
  | node (info : PartInfo) (children : List Part)

def Part.info : Part → PartInfo
  | .node info _ => info

def Part.children : Part → List Part
  | .node _ children => children

def PartInfo.isMultipart (i : PartInfo) : Bool := i.kind == "multipart".toList

def PartInfo.isMessage (i : PartInfo) : Bool := i.kind == "message".toList && i.subtype == "rfc822".toList

/-- The lines of the body; a last line without an end counts. -/
def PartInfo.lineCount (i : PartInfo) (raw : Bytes) : Option Nat :=
  (slice raw i.body).map fun body =>
    let newlines := body.count lf
    if body.getLast?.any (· != lf) then newlines + 1 else newlines

/-! ## Header fields -/

/-- Adds a line to the unfolded lines before it. -/
def addLine (lines : List Str) (line : Str) : List Str :=
  if line = [] then lines
  else if line.head? = some ' ' ∨ line.head? = some '\t' then
    match lines.getLast? with
    | some last => lines.dropLast ++ [last ++ ' ' :: trimStart line]
    | none => lines ++ [line]
  else lines ++ [line]

def logicalHeaderLines (text : Str) : List Str :=
  ((crlfLines text).flatMap fun line => line.splitOn '\n').foldl addLine []

/-- The unfolded value of a header field; the first one counts. -/
def headerValue (header : Bytes) (name : String) : Option Str :=
  (logicalHeaderLines (fromUtf8Lossy header)).findSome? fun line =>
    (splitOnce ':' line).bind fun (field, value) =>
      if eqIgnoreAsciiCase (trim field) name.toList then some (trim value) else none

/-- The pieces between separators that are not in quotes. -/
def splitUnquoted (sep : Char) : Bool → Str → Str → List Str
  | _, current, [] => [current]
  | quoted, current, c :: rest =>
      if c = '"' then splitUnquoted sep (!quoted) (current ++ [c]) rest
      else if c = sep ∧ !quoted then current :: splitUnquoted sep quoted [] rest
      else splitUnquoted sep quoted (current ++ [c]) rest

def trimQuotes (s : Str) : Str := (s.dropWhile (· == '"')).rdropWhile (· == '"')

/-- The type, subtype and parameters of a `Content-Type`. -/
def splitContentType (value : Option Str) : Str × Str × List (Str × Str) :=
  match value with
  | none => ("text".toList, "plain".toList, [("charset".toList, "us-ascii".toList)])
  | some value =>
      let segments := splitUnquoted ';' false [] value
      let (kind, subtype) :=
        match splitOnce '/' (trim (segments.head?.getD [])) with
        | some (kind, subtype) => (toAsciiLowercase (trim kind), toAsciiLowercase (trim subtype))
        | none => ("text".toList, "plain".toList)
      let params := segments.tail.filterMap fun segment =>
        (splitOnce '=' segment).map fun (attr, value) => (toAsciiLowercase (trim attr), trimQuotes (trim value))
      (kind, subtype, params)

def boundaryParam (params : List (Str × Str)) : Option Str :=
  (params.find? fun p => p.1 = "boundary".toList).map Prod.snd

/-! ## The parts of a multipart -/

/-- The length of the header block with its blank line, or of the whole. -/
def headerLength (s : Bytes) : Nat :=
  match findSub (crlf ++ crlf) s with
  | some pos => pos + 4
  | none =>
      match findSub [lf, lf] s with
      | some pos => pos + 2
      | none => s.length

/-- The lines of a text with their ends; the last one may have none. -/
def linesOf : Bytes → List Bytes
  | [] => []
  | b :: rest =>
      if b = lf then [b] :: linesOf rest
      else
        match linesOf rest with
        | [] => [[b]]
        | line :: lines => (b :: line) :: lines

/-- A line without the line ends and spaces behind it. -/
def trimLine (line : Bytes) : Bytes := line.rdropWhile fun b => b == lf || b == cr || b == 0x20

/-- The end of what stands before the delimiter line at `pos`: the line end before it belongs to it. -/
def lineStartBeforeCrlf (raw : Bytes) (pos : Nat) : Nat :=
  if 2 ≤ pos ∧ raw[pos - 2]? = some cr ∧ raw[pos - 1]? = some lf then pos - 2
  else if 1 ≤ pos ∧ raw[pos - 1]? = some lf then pos - 1
  else pos

def isDelimiter (delimiter line : Bytes) : Bool := delimiter <+: trimLine line

/-- The delimiter that ends the multipart. -/
def isClosing (delimiter line : Bytes) : Bool := [0x2D, 0x2D] <+: (trimLine line).drop delimiter.length

/-- The ranges between delimiter lines, from the lines that are left, where they start, and where the part that is
open starts. -/
def childLoop (raw delimiter : Bytes) : List Bytes → Nat → Option Nat → List Range
  | [], pos, start => start.toList.map fun s => ⟨s, pos⟩
  | line :: rest, pos, start =>
      let next := pos + line.length
      if isDelimiter delimiter line then
        (start.toList.map fun s => ⟨s, lineStartBeforeCrlf raw pos⟩) ++
          if isClosing delimiter line then [] else childLoop raw delimiter rest next (some next)
      else childLoop raw delimiter rest next start

def delimiterOf (boundary : Str) : Bytes := utf8 ('-' :: '-' :: boundary)

def childRanges (raw : Bytes) (body : Range) (boundary : Str) : List Range :=
  childLoop raw (delimiterOf boundary) (linesOf ((raw.drop body.start).take body.len)) body.start none

/-! ## The tree -/

/-- What the header block of a part says of it. -/
def partInfo (headerBytes : Bytes) (header body : Range) : PartInfo :=
  let (kind, subtype, params) := splitContentType (headerValue headerBytes "Content-Type")
  { kind, subtype, params, header, body
    contentId := headerValue headerBytes "Content-ID"
    description := headerValue headerBytes "Content-Description"
    encoding :=
      ((headerValue headerBytes "Content-Transfer-Encoding").map fun e => toAsciiLowercase (trim e)).getD
        "7bit".toList }

/-- What is known of the part in a range whose bytes are `s`. -/
def infoOf (s : Bytes) (r : Range) : PartInfo :=
  let len := headerLength s
  partInfo (s.take len) ⟨r.start, r.start + len⟩ ⟨r.start + len, r.stop⟩

/-- The ranges of the children of a part. -/
def childrenOf (raw : Bytes) (info : PartInfo) : List Range :=
  if info.isMultipart then
    match boundaryParam info.params with
    | some boundary => childRanges raw info.body boundary
    | none => []
  else if info.isMessage ∧ info.body.start < info.body.stop then [info.body]
  else []

/-- Parses the part in a range. A part is shorter than its parent, so the fuel is the length of the message. -/
def parseRange (raw : Bytes) : Nat → Range → Option Part
  | 0, _ => none
  | fuel + 1, r =>
      (slice raw r).bind fun s =>
        ((childrenOf raw (infoOf s r)).mapM (parseRange raw fuel)).map fun children => .node (infoOf s r) children

def parse (raw : Bytes) : Option Part := parseRange raw (raw.length + 1) ⟨0, raw.length⟩

/-! ## Sections -/

/-- What a section asks of a part. -/
inductive Target where
  | content
  | mime
  | header
  | text
  deriving DecidableEq

/-- `children.get(index.checked_sub(1)?)`. -/
def numbered (children : List Part) (index : Nat) : Option Part := if index = 0 then none else children[index - 1]?

/-- The part that a path of numbers names; only the first number may stand for the body itself. -/
def descend : Bool → Part → List Nat → Option Part
  | _, part, [] => some part
  | first, part, index :: path =>
      let next : Option Part :=
        if part.info.isMultipart then numbered part.children index
        else
          match part.info.isMessage, part.children with
          | true, inner :: _ =>
              if inner.info.isMultipart then numbered inner.children index
              else if index = 1 then some inner
              else none
          | _, _ => if index = 1 ∧ first then some part else none
      next.bind fun part => descend false part path

/-- The range of the message that a section names. -/
def sectionOf (root : Part) (path : List Nat) (target : Target) : Option Range :=
  (descend true root path).bind fun part =>
    let inner := if part.info.isMessage then part.children.head? else none
    match target with
    | .content => some part.info.body
    | .mime => some part.info.header
    | .header => inner.map fun p => p.info.header
    | .text => inner.map fun p => p.info.body

end Selfhost.Mail

/-! # The structure of a message in a response -/

namespace Selfhost.Mail

open Selfhost.Lib

/-- An optional text as a quoted string. -/
def nstring : Option Str → Str
  | none => "NIL".toList
  | some text =>
      '"' :: (text.flatMap fun c =>
        if c = '"' ∨ c = '\\' then ['\\', c] else if c = '\r' ∨ c = '\n' then [' '] else [c]) ++ ['"']

/-- The addresses of a list, which commas outside quotes and angle brackets separate. -/
def splitAddresses : Bool → Bool → Str → Str → List Str
  | _, _, current, [] => if trim current = [] then [] else [current]
  | inQuote, inAngle, current, c :: rest =>
      if c = '"' then splitAddresses (!inQuote) inAngle (current ++ [c]) rest
      else if c = '<' ∧ !inQuote then splitAddresses inQuote true (current ++ [c]) rest
      else if c = '>' ∧ !inQuote then splitAddresses inQuote false (current ++ [c]) rest
      else if c = ',' ∧ !inQuote ∧ !inAngle then current :: splitAddresses inQuote inAngle [] rest
      else splitAddresses inQuote inAngle (current ++ [c]) rest

/-- The display name and the address of one entry of a list. -/
def nameAndAddress (raw : Str) : Option Str × Str :=
  match findSub ['<'] raw, findSub ['>'] raw with
  | some opening, some closing =>
      if opening < closing then
        let display := trim (trimQuotes (trim (raw.take opening)))
        (if display = [] then none else some display, trim ((raw.drop (opening + 1)).take (closing - (opening + 1))))
      else (none, raw)
  | _, _ => (none, raw)

/-- One address as a list of its parts. -/
def renderAddress (raw : Str) : Str :=
  let (name, address) := nameAndAddress raw
  let (mailbox, host) :=
    match rsplitOnce '@' address with
    | some (mailbox, host) => (mailbox, some host)
    | none => (address, none)
  '(' :: nstring name ++ " NIL ".toList ++ nstring (some mailbox) ++ ' ' :: nstring host ++ [')']

def addressList : Option Str → Str
  | none => "NIL".toList
  | some value =>
      let raws := ((splitAddresses false false [] value).map trim).filter fun raw => !raw.isEmpty
      if raws = [] then "NIL".toList else '(' :: raws.flatMap renderAddress ++ [')']

/-- The parenthesised envelope of a message. -/
def envelope (raw : Bytes) : Str :=
  let value (name : String) : Option Str := headerValue (raw.take (headerLength raw)) name
  let sent := addressList (value "From")
  let orFrom (name : String) : Str := if (value name).isSome then addressList (value name) else sent
  let fields := [nstring (value "Date"), nstring (value "Subject"), sent, orFrom "Sender", orFrom "Reply-To",
    addressList (value "To"), addressList (value "Cc"), addressList (value "Bcc"), nstring (value "In-Reply-To"),
    nstring (value "Message-ID")]
  '(' :: [' '].intercalate fields ++ [')']

/-- What the structure says of every part that is no multipart. -/
def baseFields (info : PartInfo) : Str :=
  let params : Str :=
    if info.params = [] then "NIL".toList
    else
      '(' :: [' '].intercalate (info.params.map fun (attr, value) => nstring (some attr) ++ ' ' :: nstring (some value))
        ++ [')']
  [' '].intercalate [nstring (some info.kind), nstring (some info.subtype), params, nstring info.contentId,
    nstring info.description, nstring (some info.encoding), natText info.body.len]

mutual

/-- The parenthesised structure of a message; `none` when a slice panics. -/
def bodyStructure (raw : Bytes) : Part → Option Str
  | .node info children =>
      if info.isMultipart then
        (bodyStructures raw children).map fun rendered =>
          let slots :=
            if rendered = [] then "(\"text\" \"plain\" (\"charset\" \"us-ascii\") NIL NIL \"7bit\" 0 0)".toList
            else rendered
          '(' :: slots ++ ' ' :: nstring (some info.subtype) ++ [')']
      else
        match info.isMessage, children with
        | true, inner :: _ =>
            (slice raw ⟨inner.info.header.start, inner.info.body.stop⟩).bind fun innerRaw =>
              (bodyStructure raw inner).bind fun structured =>
                (info.lineCount raw).map fun lines =>
                  '(' :: [' '].intercalate [baseFields info, envelope innerRaw, structured, natText lines] ++ [')']
        | _, _ =>
            if info.kind = "text".toList then
              (info.lineCount raw).map fun lines => '(' :: baseFields info ++ ' ' :: natText lines ++ [')']
            else some ('(' :: baseFields info ++ [')'])

/-- The structures of parts, back to back. -/
def bodyStructures (raw : Bytes) : List Part → Option Str
  | [] => some []
  | part :: parts =>
      (bodyStructure raw part).bind fun first => (bodyStructures raw parts).map fun rest => first ++ rest

end

/-- The bytes of a numbered section; a path that names no part has none. -/
def sectionBytes (raw : Bytes) (path : List Nat) (target : Target) : Option Bytes :=
  (parse raw).bind fun root =>
    match sectionOf root path target with
    | some r => slice raw r
    | none => some []

end Selfhost.Mail
