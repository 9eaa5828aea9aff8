import Selfhost.Lib.Text

/-!
# Unpadded base64url

Three bytes as four symbols of six bits; the last group is shorter.
-/

namespace Selfhost.Lib

def base64UrlAlphabet : Str := "ABCDEFGHIJKLMNOPQRSTUVWXYZabcdefghijklmnopqrstuvwxyz0123456789-_".toList

/-- The symbol of six bits. -/
def base64UrlSymbol (n : Nat) : Char := base64UrlAlphabet.getD n '='

/-- The groups of six bits of a list of bytes. -/
def sextets : Bytes → List Nat
  | [] => []
  | [a] =>
      let bits := a.toNat * 2 ^ 16
      [bits / 2 ^ 18 % 64, bits / 2 ^ 12 % 64]
  | [a, b] =>
      let bits := a.toNat * 2 ^ 16 + b.toNat * 2 ^ 8
      [bits / 2 ^ 18 % 64, bits / 2 ^ 12 % 64, bits / 2 ^ 6 % 64]
  | a :: b :: c :: rest =>
      let bits := a.toNat * 2 ^ 16 + b.toNat * 2 ^ 8 + c.toNat
      (bits / 2 ^ 18 % 64) :: (bits / 2 ^ 12 % 64) :: (bits / 2 ^ 6 % 64) :: (bits % 64) :: sextets rest

def b64urlEncode (data : Bytes) : Str := (sextets data).map base64UrlSymbol

def base64UrlValue (c : Char) : Option Nat :=
  if 'A' ≤ c ∧ c ≤ 'Z' then some (c.toNat - 'A'.toNat)
  else if 'a' ≤ c ∧ c ≤ 'z' then some (c.toNat - 'a'.toNat + 26)
  else if c.isDigit then some (c.toNat - '0'.toNat + 52)
  else if c = '-' then some 62
  else if c = '_' then some 63
  else none

/-- The bytes of groups of six bits; a group of one symbol holds no byte. -/
def octets : List Nat → Option Bytes
  | [] => some []
  | [_] => none
  | [a, b] => some [UInt8.ofNat ((a * 2 ^ 18 + b * 2 ^ 12) / 2 ^ 16)]
  | [a, b, c] =>
      let bits := a * 2 ^ 18 + b * 2 ^ 12 + c * 2 ^ 6
      some [UInt8.ofNat (bits / 2 ^ 16), UInt8.ofNat (bits / 2 ^ 8)]
  | a :: b :: c :: d :: rest =>
      let bits := a * 2 ^ 18 + b * 2 ^ 12 + c * 2 ^ 6 + d
      (octets rest).map fun out =>
        UInt8.ofNat (bits / 2 ^ 16) :: UInt8.ofNat (bits / 2 ^ 8) :: UInt8.ofNat bits :: out

/-- Padding is skipped wherever it stands. -/
def b64urlDecode (text : Str) : Option Bytes :=
  ((text.filter fun c => c ≠ '=').mapM base64UrlValue).bind octets

/-! ## Decoding what was encoded -/

theorem base64UrlSymbol_value : ∀ n < 64, base64UrlValue (base64UrlSymbol n) = some n ∧ base64UrlSymbol n ≠ '=' := by
  delta base64UrlSymbol base64UrlAlphabet
  rewrite [String.toList_ofList]
  decide +kernel

theorem sextets_lt (data : Bytes) : ∀ n ∈ sextets data, n < 64 := by
  induction data using sextets.induct with
  | case1 => simp [sextets]
  | case2 a => simp only [sextets, List.mem_cons, List.not_mem_nil, or_false]; omega
  | case3 a b => simp only [sextets, List.mem_cons, List.not_mem_nil, or_false]; omega
  | case4 a b c rest ih =>
      intro n hn
      simp only [sextets, List.mem_cons] at hn
      rcases hn with h | h | h | h | h
      · omega
      · omega
      · omega
      · omega
      · exact ih n h

theorem mapM_base64UrlValue {symbols : List Nat} (h : ∀ n ∈ symbols, n < 64) :
    ((symbols.map base64UrlSymbol).filter fun c => c ≠ '=').mapM base64UrlValue = some symbols := by
  induction symbols with
  | nil => rfl
  | cons n symbols ih =>
      obtain ⟨hvalue, hpad⟩ := base64UrlSymbol_value n (h n List.mem_cons_self)
      rw [List.map_cons, List.filter_cons_of_pos (by simpa using hpad), List.mapM_cons, hvalue,
        ih fun m hm => h m (List.mem_cons_of_mem _ hm)]
      rfl

theorem ofNat_byte {n : Nat} {a : UInt8} (h : n % 256 = a.toNat) : UInt8.ofNat n = a := by
  apply UInt8.toNat_inj.mp
  rw [UInt8.toNat_ofNat', ← h]

theorem octets_sextets (data : Bytes) : octets (sextets data) = some data := by
  induction data using sextets.induct with
  | case1 => rfl
  | case2 a =>
      have ha := a.toNat_lt
      simp only [sextets, octets]
      rw [ofNat_byte (a := a) (by omega)]
  | case3 a b =>
      have ha := a.toNat_lt
      have hb := b.toNat_lt
      simp only [sextets, octets]
      rw [ofNat_byte (a := a) (by omega), ofNat_byte (a := b) (by omega)]
  | case4 a b c rest ih =>
      have ha := a.toNat_lt
      have hb := b.toNat_lt
      have hc := c.toNat_lt
      simp only [sextets, octets, ih, Option.map_some]
      rw [ofNat_byte (a := a) (by omega), ofNat_byte (a := b) (by omega), ofNat_byte (a := c) (by omega)]

/-- Bytes are read back from their symbols. -/
theorem b64urlDecode_encode (data : Bytes) : b64urlDecode (b64urlEncode data) = some data := by
  rw [b64urlDecode, b64urlEncode, mapM_base64UrlValue (sextets_lt data), Option.bind_some, octets_sextets]

example : b64urlDecode ['-', '_', '8', '='] = some [0xfb, 0xff] := by decide +kernel

end Selfhost.Lib
