import Selfhost.Json.Value

/-!
# Reading JSON

`foundation/json/src/lib.rs`: the parser, by recursive descent over the characters that are left.
-/

namespace Selfhost.Json

open Selfhost.Lib

/-- Why a document is refused. -/
inductive Reason where
  | trailingInput
  | expected (c : Char)
  | expectedWord (word : Str)
  | nestedTooDeeply
  | endOfInput
  | unexpected (c : Char)
  | expectedItemEnd
  | expectedFieldEnd
  | invalidNumber (text : Str)
  | unterminatedString
  | unterminatedEscape
  | unknownEscape (c : Char)
  | rawControl
  | truncatedUnicode
  | invalidUnicode
  | unpairedHigh
  | highWithoutLow
  deriving DecidableEq, Repr

/-- Where the parser stopped, as the characters that were left there, and why. -/
structure Stop where
  rest : Str
  reason : Reason
  deriving DecidableEq, Repr

def isJsonSpace (c : Char) : Bool := c = ' ' || c = '\t' || c = '\n' || c = '\r'

def skipWhitespace (rest : Str) : Str := rest.dropWhile isJsonSpace

def expect (c : Char) : Str → Except Stop Str
  | d :: rest => if d = c then .ok rest else .error ⟨d :: rest, .expected c⟩
  | [] => .error ⟨[], .expected c⟩

def literal {α : Type} (word : Str) (value : α) (rest : Str) : Except Stop (α × Str) :=
  if word <+: rest then .ok (value, rest.drop word.length) else .error ⟨rest, .expectedWord word⟩

/-! ## Strings -/

/-- The value of a hexadecimal digit, of either case. -/
def hexDigitValue (c : Char) : Option Nat :=
  if c.isDigit then some (c.toNat - 0x30)
  else if 'a' ≤ c ∧ c ≤ 'f' then some (c.toNat - 0x57)
  else if 'A' ≤ c ∧ c ≤ 'F' then some (c.toNat - 0x37)
  else none

/-- `u32::from_str_radix` on four characters, of which the first may be a plus sign. -/
def hexNumber (a b c d : Char) : Option Nat := do
  let high ← if a = '+' then some 0 else hexDigitValue a
  some (((high * 16 + (← hexDigitValue b)) * 16 + (← hexDigitValue c)) * 16 + (← hexDigitValue d))

def hex4 : Str → Except Stop (Nat × Str)
  | a :: b :: c :: d :: rest =>
      match hexNumber a b c d with
      | some n => .ok (n, rest)
      | none => .error ⟨a :: b :: c :: d :: rest, .invalidUnicode⟩
  | rest => .error ⟨rest, .truncatedUnicode⟩

/-- `char::from_u32`. -/
def charOf (n : Nat) : Option Char := if h : n.isValidChar then some (Char.ofNatAux n h) else none

/-- `\uXXXX`, with the second half of a surrogate pair. -/
def unicodeEscape (rest : Str) : Except Stop (Char × Str) := do
  let (high, rest) ← hex4 rest
  if 0xD800 ≤ high ∧ high < 0xDC00 then
    match rest with
    | '\\' :: 'u' :: rest =>
        let (low, rest) ← hex4 rest
        if 0xDC00 ≤ low ∧ low < 0xE000 then
          match charOf (0x10000 + (high - 0xD800) * 0x400 + (low - 0xDC00)) with
          | some c => .ok (c, rest)
          | none => .error ⟨rest, .invalidUnicode⟩
        else .error ⟨rest, .highWithoutLow⟩
    | rest => .error ⟨rest, .unpairedHigh⟩
  else
    match charOf high with
    | some c => .ok (c, rest)
    | none => .error ⟨rest, .invalidUnicode⟩

/-- What stands behind a backslash. -/
def escape : Str → Except Stop (Char × Str)
  | [] => .error ⟨[], .unterminatedEscape⟩
  | c :: rest =>
      if c = '"' then .ok ('"', rest)
      else if c = '\\' then .ok ('\\', rest)
      else if c = '/' then .ok ('/', rest)
      else if c = 'b' then .ok (Char.ofNat 0x08, rest)
      else if c = 'f' then .ok (Char.ofNat 0x0C, rest)
      else if c = 'n' then .ok ('\n', rest)
      else if c = 'r' then .ok ('\r', rest)
      else if c = 't' then .ok ('\t', rest)
      else if c = 'u' then unicodeEscape rest
      else .error ⟨rest, .unknownEscape c⟩

/-- The loop of `string`, one character of the result a turn; each turn takes at least one character, so the number of
those that are left is enough. -/
def stringLoop : Nat → Str → Str → Except Stop (Str × Str)
  | 0, rest, _ => .error ⟨rest, .unterminatedString⟩
  | _ + 1, [], _ => .error ⟨[], .unterminatedString⟩
  | fuel + 1, c :: rest, out =>
      if c = '"' then .ok (out, rest)
      else if c = '\\' then do
        let (d, rest) ← escape rest
        stringLoop fuel rest (out ++ [d])
      else if c.toNat < 0x20 then .error ⟨c :: rest, .rawControl⟩
      else stringLoop fuel rest (out ++ [c])

def string (rest : Str) : Except Stop (Str × Str) := do
  let rest ← expect '"' rest
  stringLoop (rest.length + 1) rest []

/-! ## Values -/

section

variable (D : DoubleOps)

def isNumeral (c : Char) : Bool :=
  c.isDigit || c = '.' || c = 'e' || c = 'E' || c = '+' || c = '-'

def number (rest : Str) : Except Stop (Value D.F × Str) :=
  let text := rest.takeWhile isNumeral
  match D.parse text with
  | some n => .ok (.number n, rest.dropWhile isNumeral)
  | none => .error ⟨rest, .invalidNumber text⟩

/-- The loop of `array`, one item a turn. -/
def arrayLoop (value : Str → Except Stop (Value D.F × Str)) : Nat → Str → List (Value D.F) → Except Stop (Value D.F × Str)
  | 0, rest, _ => .error ⟨rest, .endOfInput⟩
  | fuel + 1, rest, items => do
      let (item, rest) ← value (skipWhitespace rest)
      match skipWhitespace rest with
      | ',' :: rest => arrayLoop value fuel rest (items ++ [item])
      | ']' :: rest => .ok (.array (items ++ [item]), rest)
      | rest => .error ⟨rest, .expectedItemEnd⟩

def array (value : Str → Except Stop (Value D.F × Str)) (rest : Str) : Except Stop (Value D.F × Str) := do
  let rest ← expect '[' rest
  match skipWhitespace rest with
  | ']' :: rest => .ok (.array [], rest)
  | rest => arrayLoop D value (rest.length + 1) rest []

/-- The loop of `object`, one field a turn. -/
def objectLoop (value : Str → Except Stop (Value D.F × Str)) :
    Nat → Str → List (Str × Value D.F) → Except Stop (Value D.F × Str)
  | 0, rest, _ => .error ⟨rest, .endOfInput⟩
  | fuel + 1, rest, map => do
      let (key, rest) ← string (skipWhitespace rest)
      let rest ← expect ':' (skipWhitespace rest)
      let (item, rest) ← value (skipWhitespace rest)
      let map := Value.insert key item map
      match skipWhitespace rest with
      | [] => .error ⟨[], .expectedFieldEnd⟩
      | c :: rest =>
          if c = ',' then objectLoop value fuel rest map
          else if c = rightBrace then .ok (.object map, rest)
          else .error ⟨c :: rest, .expectedFieldEnd⟩

def object (value : Str → Except Stop (Value D.F × Str)) (rest : Str) : Except Stop (Value D.F × Str) := do
  let rest ← expect leftBrace rest
  match skipWhitespace rest with
  | [] => objectLoop D value 1 [] []
  | c :: rest =>
      if c = rightBrace then .ok (.object [], rest) else objectLoop D value (rest.length + 2) (c :: rest) []

/-- The deepest nesting. -/
def maxDepth : Nat := 128

/-- `value`, with the number of levels that may still be opened. -/
def value : Nat → Str → Except Stop (Value D.F × Str)
  | 0, rest => .error ⟨rest, .nestedTooDeeply⟩
  | _ + 1, [] => .error ⟨[], .endOfInput⟩
  | levels + 1, c :: rest =>
      if c = 'n' then literal "null".toList .null (c :: rest)
      else if c = 't' then literal "true".toList (.bool true) (c :: rest)
      else if c = 'f' then literal "false".toList (.bool false) (c :: rest)
      else if c = '"' then do
        let (s, rest) ← string (c :: rest)
        .ok (.string s, rest)
      else if c = '[' then array D (value levels) (c :: rest)
      else if c = leftBrace then object D (value levels) (c :: rest)
      else if c = '-' || c.isDigit then number D (c :: rest)
      else .error ⟨c :: rest, .unexpected c⟩

structure ParseError where
  /-- The byte offset. -/
  position : Nat
  reason : Reason
  deriving DecidableEq, Repr

def utf8Len (text : Str) : Nat := (text.map Char.utf8Size).sum

def parse (text : Str) : Except ParseError (Value D.F) :=
  match value D (maxDepth + 1) (skipWhitespace text) with
  | .error stop => .error ⟨utf8Len text - utf8Len stop.rest, stop.reason⟩
  | .ok (value, rest) =>
      match skipWhitespace rest with
      | [] => .ok value
      | rest => .error ⟨utf8Len text - utf8Len rest, .trailingInput⟩

end

end Selfhost.Json
