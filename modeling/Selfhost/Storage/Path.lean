import Selfhost.Lib.Text

/-!
# Request paths of a share

The path resolver of `services/storage/src/path.rs`, on unix: a request path is decoded once, split into
segments, and every segment is checked by `validateSegment`. A file-system path is the byte string of its
name, so the share's root and the joined path are `Bytes`.
-/

namespace Selfhost.Storage

open Selfhost.Lib

/-- The longest segment, in bytes. -/
def maxSegmentBytes : Nat := 255

/-- The longest path, in bytes, counting the share's root. -/
def maxPathBytes : Nat := 4096

/-- The prefix reserved for the temporary files of uploads. -/
def tempPrefix : Str := ".selfhost-tmp-".toList

/-- The characters that no name may hold. -/
def forbiddenChars : List Char := ['"', '*', ':', '<', '>', '?', '|']

/-- Why a request path was refused. -/
inductive Refusal where
  | malformedEscape
  | encodedNul
  | nul
  | notUtf8
  | traversal
  | effectivelyEmpty
  | trailingDotOrSpace
  | forbiddenCharacter (c : Char)
  | controlCharacter
  | reservedDeviceName
  | shortName
  | reservedPrefix
  | segmentTooLong
  | pathTooLong
  | notOneComponent
  deriving DecidableEq, Repr

/-! ## Checking one segment -/

/-- One component of a path, as unix reads it. -/
inductive Component where
  | rootDir
  | curDir
  | parentDir
  | normal (name : Str)
  deriving DecidableEq, Repr

/-- The component a piece between two slashes stands for. Only a leading `.` of a relative path counts. -/
def component (leading : Bool) (piece : Str) : Option Component :=
  if piece = [] then none
  else if piece = ['.'] then if leading then some .curDir else none
  else if piece = ['.', '.'] then some .parentDir
  else some (.normal piece)

/-- `Path::components` on unix. -/
def components (path : Str) : List Component :=
  match path.splitOn '/' with
  | [] => []
  | first :: rest =>
      let root := if path.head? = some '/' then [Component.rootDir] else []
      root ++ (component (path.head? ≠ some '/') first).toList ++ rest.filterMap (component false)

/-- Whether the stem of a name, the part before its first dot, is a reserved device name. -/
def isReservedDevice (segment : Str) : Bool :=
  let stem := toAsciiUppercase ((segment.splitOn '.').headD [])
  if stem ∈ ["CON".toList, "PRN".toList, "AUX".toList, "NUL".toList, "CONIN$".toList,
      "CONOUT$".toList, "CLOCK$".toList] then true
  else
    -- `COM0`–`COM9`, `LPT0`–`LPT9` and the superscript spellings.
    match stem with
    | 'C' :: 'O' :: 'M' :: [digit] | 'L' :: 'P' :: 'T' :: [digit] =>
        digit ∈ "0123456789¹²³".toList
    | _ => false

/-- Whether a name has the shape of an 8.3 short name. The length of the stem is counted in bytes. -/
def isShortName (segment : Str) : Bool :=
  match splitOnce '~' segment with
  | none => false
  | some (stem, rest) =>
      if stem = [] ∨ 6 < (utf8 stem).length ∨ '.' ∈ stem then false
      else match rest with
        | c :: _ => '0' ≤ c && c ≤ '9'
        | [] => false

/-- The loop of `validateSegment` over the characters of the segment. -/
def checkCharacters : Str → Except Refusal Unit
  | [] => .ok ()
  | c :: rest =>
      if c = '/' ∨ c = '\\' then .error .notOneComponent
      else if c ∈ forbiddenChars then .error (.forbiddenCharacter c)
      else if isControl c then .error .controlCharacter
      else checkCharacters rest

/-- Whether a character is stripped from the end of a name by Windows. -/
def isDotOrSpace (c : Char) : Bool := c == '.' || c == ' '

/-- Checks one name for everything a share must refuse. -/
def validateSegment (segment : Str) : Except Refusal Unit :=
  let effective := segment.rdropWhile isDotOrSpace
  if effective = ['.', '.'] ∨ (effective = [] ∧ ['.', '.'] <:+: segment) then .error .traversal
  else if effective = [] then .error .effectivelyEmpty
  else if effective ≠ segment then .error .trailingDotOrSpace
  else if maxSegmentBytes < (utf8 segment).length then .error .segmentTooLong
  else match checkCharacters segment with
    | .error refusal => .error refusal
    | .ok () =>
        if isReservedDevice segment then .error .reservedDeviceName
        else if isShortName segment then .error .shortName
        else if tempPrefix <+: segment then .error .reservedPrefix
        else match components segment with
          | [.normal _] => .ok ()
          | _ => .error .notOneComponent

/-! ## Relative paths -/

/-- A name that has passed `validateSegment`. -/
abbrev Segment := {s : Str // validateSegment s = .ok ()}

/-- A path relative to a share's root. Every segment carries the proof that it was validated. -/
structure RelativePath where
  segments : List Segment
  deriving DecidableEq

namespace RelativePath

/-- The names, outermost first. -/
def names (p : RelativePath) : List Str := p.segments.map Subtype.val

/-- The last name, or `none` at the root of the share. -/
def fileName (p : RelativePath) : Option Str := p.names.getLast?

/-- The containing directory. The root's parent is the root. -/
def parent (p : RelativePath) : RelativePath := ⟨p.segments.dropLast⟩

/-- Extends a path by one name, which is validated again. -/
def join (p : RelativePath) (segment : Str) : Except Refusal RelativePath :=
  match h : validateSegment segment with
  | .error refusal => .error refusal
  | .ok () => .ok ⟨p.segments ++ [⟨segment, h⟩]⟩

end RelativePath

/-! ## Percent encoding -/

/-- Whether a byte stands for itself in an encoded segment. -/
def isUnreserved (b : UInt8) : Bool :=
  (0x41 ≤ b.toNat && b.toNat ≤ 0x5A) || (0x61 ≤ b.toNat && b.toNat ≤ 0x7A) ||
    (0x30 ≤ b.toNat && b.toNat ≤ 0x39) || b.toNat ∈ [0x2D, 0x2E, 0x5F, 0x7E]

/-- One byte of a name in its encoding. -/
def encodeByte (b : UInt8) : Str :=
  if isUnreserved b then [Char.ofNat b.toNat]
  else ['%', hexDigit (b.toNat / 16), hexDigit (b.toNat % 16)]

/-- Percent-encodes one stored name. -/
def encodeSegment (name : Str) : Str := (utf8 name).flatMap encodeByte

/-- The path as it may be put in a URL: encoded segments joined with slashes. -/
def RelativePath.toUrlPath (p : RelativePath) : Str :=
  ['/'].intercalate (p.names.map encodeSegment)

/-- The loop of `percentDecode` over the bytes of the input. -/
def decodeEscapes : Bytes → Except Refusal Bytes
  | [] => .ok []
  | b :: rest =>
      if b = 0x25 then
        match rest with
        | high :: low :: rest =>
            match hexValue high, hexValue low with
            | some h, some l =>
                if h * 16 + l = 0 then .error .encodedNul
                else (decodeEscapes rest).map (UInt8.ofNat (h * 16 + l) :: ·)
            | _, _ => .error .malformedEscape
        | _ => .error .malformedEscape
      else (decodeEscapes rest).map (b :: ·)

/-- Percent-decodes a request path exactly once. -/
def percentDecode (input : Str) : Except Refusal Str :=
  match decodeEscapes (utf8 input) with
  | .error refusal => .error refusal
  | .ok out =>
      match fromUtf8 out with
      | some text => .ok text
      | none => .error .notUtf8

/-! ## Resolving -/

/-- A request path resolved against the root of a share, as text. -/
structure Resolved where
  relative : RelativePath
  full : Bytes
  trailingSlash : Bool
  deriving DecidableEq

/-- `PathBuf::push` on unix: an absolute path replaces the base, any other is joined with one slash. -/
def pushPath (base : Bytes) (segment : Str) : Bytes :=
  if segment.head? = some '/' then utf8 segment
  else if base = [] ∨ base.getLast? = some 0x2F then base ++ utf8 segment
  else base ++ 0x2F :: utf8 segment

/-- Maps `\` to `/`. -/
def normalise (decoded : Str) : Str := decoded.map fun c => if c = '\\' then '/' else c

/-- The loop of `resolve` over the pieces between slashes. -/
def collectSegments : List Str → Except Refusal (List Segment)
  | [] => .ok []
  | piece :: rest =>
      if piece = [] ∨ piece = ['.'] then collectSegments rest
      else match h : validateSegment piece with
        | .error refusal => .error refusal
        | .ok () => (collectSegments rest).map (⟨piece, h⟩ :: ·)

/-- Resolves an attacker-controlled request path against the root of one share. -/
def resolve (root : Bytes) (requestPath : Str) : Except Refusal Resolved :=
  if maxPathBytes < (utf8 requestPath).length then .error .pathTooLong
  else match percentDecode requestPath with
    | .error refusal => .error refusal
    | .ok decoded =>
        -- The decoder refuses an encoded NUL; this one arrived as a raw byte.
        if '\x00' ∈ decoded then .error .nul
        else
          let normalised := normalise decoded
          match collectSegments (normalised.splitOn '/') with
          | .error refusal => .error refusal
          | .ok segments =>
              let full := (segments.map Subtype.val).foldl pushPath root
              if maxPathBytes < full.length then .error .pathTooLong
              else .ok
                { relative := ⟨segments⟩
                  full := full
                  trailingSlash := normalised = [] ∨ normalised.getLast? = some '/' }

end Selfhost.Storage
