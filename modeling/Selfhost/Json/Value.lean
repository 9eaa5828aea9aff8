import Selfhost.Lib.Text

/-!
# JSON values

`foundation/json/src/lib.rs`: the values of a document and the text that is written for them.
-/

namespace Selfhost.Json

open Selfhost.Lib

/-! ## Numbers -/

/-- What the code does with an `f64`. -/
structure DoubleOps where
  F : Type
  ofU64 : Nat → F
  isFinite : F → Bool
  /-- `n as i64`, for a number without a fraction and of a magnitude below `1e15`. -/
  asWhole : F → Option Int
  /-- `Display`. -/
  display : F → Str
  /-- `str::parse::<f64>`. -/
  parse : Str → Option F
  /-- `n as u64`, for a finite number from zero on and without a fraction. -/
  asU64 : F → Option Nat
  /-- `n as i64`, for a finite number without a fraction. -/
  asI64 : F → Option Int

def intText (n : Int) : Str :=
  match n with
  | .ofNat n => natText n
  | .negSucc n => '-' :: natText (n + 1)

/-- What `write` prints for a number. -/
def DoubleOps.text (D : DoubleOps) (n : D.F) : Str :=
  if D.isFinite n then
    match D.asWhole n with
    | some whole => intText whole
    | none => D.display n
  else "null".toList

/-- The documented behaviour of `f64` that a stored counter needs: integers are printed in digits and are read back
exactly, and the conversion from `u64` is exact up to `2 ^ 53` and on whatever `as_u64` gave. -/
structure Doubles extends DoubleOps where
  text_ofU64 : ∀ n, toDoubleOps.text (ofU64 n) ≠ [] ∧ ∀ c ∈ toDoubleOps.text (ofU64 n), c.isDigit = true
  parse_text : ∀ n, parse (toDoubleOps.text (ofU64 n)) = some (ofU64 n)
  asU64_ofU64 : ∀ n ≤ 2 ^ 53, asU64 (ofU64 n) = some n
  asU64_stable : ∀ x n, asU64 x = some n → asU64 (ofU64 n) = some n

/-- The doubles that are whole numbers. -/
def wholeOps : DoubleOps where
  F := Int
  ofU64 n := n
  isFinite _ := true
  asWhole n := if n.natAbs < 10 ^ 15 then some n else none
  display := intText
  parse s := if s ≠ [] ∧ s.all Char.isDigit then some (decimalValue s) else none
  asU64 n := if 0 ≤ n then some (min n.toNat (2 ^ 64 - 1)) else none
  asI64 n := some (max (-2 ^ 63) (min n (2 ^ 63 - 1)))

theorem wholeOps_text (n : Nat) : wholeOps.text (wholeOps.ofU64 n) = natText n := by
  unfold DoubleOps.text
  simp only [wholeOps, ↓reduceIte]
  split
  · rename_i whole h
    split at h
    · cases h
      rfl
    · cases h
  · rfl

def wholeDoubles : Doubles where
  toDoubleOps := wholeOps
  text_ofU64 n := by
    rw [wholeOps_text]
    exact ⟨natText_ne_nil n, fun c hc => isDigit_of_mem_natText hc⟩
  parse_text n := by
    rw [wholeOps_text]
    simp [wholeOps, natText_ne_nil, all_isDigit_natText, decimalValue_natText]
  asU64_ofU64 n hn := by
    have hmin : min n (2 ^ 64 - 1) = n := by omega
    simpa [wholeOps] using hmin
  asU64_stable x n h := by
    have hbound : ∀ x n : Nat, min x (2 ^ 64 - 1) = n → min n (2 ^ 64 - 1) = n := by omega
    simp only [wholeOps] at h ⊢
    split at h
    · have hn := hbound _ n (Option.some.inj h)
      simpa using hn
    · cases h

/-! ## Values -/

/-- A value; the fields of an object are in the order of their keys. -/
inductive Value (F : Type) where
  | null
  | bool (b : Bool)
  | number (n : F)
  | string (s : Str)
  | array (items : List (Value F))
  | object (fields : List (Str × Value F))

namespace Value

variable {F : Type}

/-- `BTreeMap::insert`. -/
@[simp] def insert (key : Str) (value : Value F) : List (Str × Value F) → List (Str × Value F)
  | [] => [(key, value)]
  | (k, v) :: rest =>
      if key = k then (key, value) :: rest
      else if key < k then (key, value) :: (k, v) :: rest
      else (k, v) :: insert key value rest

/-- `Json::object`. -/
def ofFields (entries : List (Str × Value F)) : Value F :=
  .object (entries.foldl (fun map entry => insert entry.1 entry.2 map) [])

def get (key : Str) : Value F → Option (Value F)
  | .object fields => (fields.find? fun entry => entry.1 = key).map Prod.snd
  | _ => none

def asStr : Value F → Option Str
  | .string s => some s
  | _ => none

def asArray : Value F → Option (List (Value F))
  | .array items => some items
  | _ => none

def asU64 (D : DoubleOps) : Value D.F → Option Nat
  | .number n => D.asU64 n
  | _ => none

def asI64 (D : DoubleOps) : Value D.F → Option Int
  | .number n => D.asI64 n
  | _ => none

@[simp] theorem asStr_string (s : Str) : asStr (.string s : Value F) = some s := by rw [asStr]

@[simp] theorem asArray_array (items : List (Value F)) : asArray (.array items) = some items := by rw [asArray]

@[simp] theorem asU64_number (D : DoubleOps) (n : D.F) : asU64 D (.number n) = D.asU64 n := by rw [asU64]

end Value

/-! ## Writing -/

/-- A number below `0x10` as a hexadecimal digit in lower case. -/
def hexDigit (n : Nat) : Char := if n < 10 then Char.ofNat (0x30 + n) else Char.ofNat (0x57 + n)

/-- One character inside a string literal. -/
def writeChar (c : Char) : Str :=
  if c = '"' then ['\\', '"']
  else if c = '\\' then ['\\', '\\']
  else if c = '\n' then ['\\', 'n']
  else if c = '\r' then ['\\', 'r']
  else if c = '\t' then ['\\', 't']
  else if c = Char.ofNat 0x08 then ['\\', 'b']
  else if c = Char.ofNat 0x0C then ['\\', 'f']
  else if c.toNat < 0x20 then ['\\', 'u', '0', '0', hexDigit (c.toNat / 16), hexDigit (c.toNat % 16)]
  else [c]

def writeString (text : Str) : Str := '"' :: (text.flatMap writeChar ++ ['"'])

def leftBrace : Char := Char.ofNat 0x7B

def rightBrace : Char := Char.ofNat 0x7D

section

variable (D : DoubleOps)

mutual

/-- `Json::to_text`. -/
@[simp] def toText : Value D.F → Str
  | .null => "null".toList
  | .bool true => "true".toList
  | .bool false => "false".toList
  | .number n => D.text n
  | .string s => writeString s
  | .array items => '[' :: (itemsText items ++ [']'])
  | .object fields => leftBrace :: (fieldsText fields ++ [rightBrace])

@[simp] def itemsText : List (Value D.F) → Str
  | [] => []
  | [item] => toText item
  | item :: next :: rest => toText item ++ ',' :: itemsText (next :: rest)

@[simp] def fieldsText : List (Str × Value D.F) → Str
  | [] => []
  | [(key, value)] => writeString key ++ ':' :: toText value
  | (key, value) :: next :: rest => writeString key ++ ':' :: (toText value ++ ',' :: fieldsText (next :: rest))

end

end

end Selfhost.Json
