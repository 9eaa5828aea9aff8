import Selfhost.Lib.Slice
import Mathlib.Data.List.Basic

/-!
# Binary XML

`services/mail/src/wbxml.rs`: the writer of a document, the reader of its tokens, and the integers of several bytes.
-/

namespace Selfhost.Mail.Wbxml

open Selfhost.Lib

def version : UInt8 := 0x03

def publicId : UInt8 := 0x01

def charsetUtf8 : UInt8 := 0x6A

def tokSwitchPage : UInt8 := 0x00

def tokEnd : UInt8 := 0x01

def tokStrI : UInt8 := 0x03

def tokOpaque : UInt8 := 0xC3

def flagContent : UInt8 := 0x40

/-! ## Integers of several bytes -/

/-- The groups of seven bits, the lowest first; the array has room for five. -/
def mbChunks : Nat → UInt32 → List UInt8
  | 0, _ => []
  | room + 1, v => (v &&& 0x7F).toUInt8 :: if v >>> 7 = 0 then [] else mbChunks room (v >>> 7)

def writeMbU32 (value : UInt32) : Bytes :=
  (mbChunks 5 value).zipIdx.reverse.map fun (chunk, i) => if 0 < i then chunk ||| 0x80 else chunk

def readMbLoop (value : UInt32) (consumed : Nat) : Bytes → Option (UInt32 × Nat)
  | [] => none
  | byte :: rest =>
      let value := (value <<< 7) ||| (byte &&& 0x7F).toUInt32
      if byte &&& 0x80 = 0 then some (value, consumed + 1)
      else if 5 < consumed + 1 then none
      else readMbLoop value (consumed + 1) rest

def readMbU32 (data : Bytes) (pos : Nat) : Option (UInt32 × Nat) := readMbLoop 0 0 (data.drop pos)

/-! ## The writer -/

/-- The code of a tag, from the range that collides with no other token. -/
structure TagCode where
  byte : UInt8
  lower : 0x05 ≤ byte.toNat
  upper : byte.toNat ≤ 0x3F
  deriving DecidableEq

structure Writer where
  body : Bytes
  currentPage : UInt8

def Writer.new : Writer := ⟨[], 0⟩

def Writer.switchPage (w : Writer) (page : UInt8) : Writer :=
  if page ≠ w.currentPage then ⟨w.body ++ [tokSwitchPage, page], page⟩ else w

def Writer.emptyTag (w : Writer) (code : TagCode) : Writer := { w with body := w.body ++ [code.byte &&& 0x3F] }

def Writer.startTag (w : Writer) (code : TagCode) : Writer :=
  { w with body := w.body ++ [(code.byte &&& 0x3F) ||| flagContent] }

def Writer.endTag (w : Writer) : Writer := { w with body := w.body ++ [tokEnd] }

def Writer.text (w : Writer) (value : Str) : Writer := { w with body := w.body ++ tokStrI :: utf8 value ++ [0] }

def Writer.opaqueBytes (w : Writer) (bytes : Bytes) : Writer :=
  { w with body := w.body ++ tokOpaque :: writeMbU32 (UInt32.ofNat bytes.length) ++ bytes }

def Writer.finish (w : Writer) : Bytes := [version, publicId, charsetUtf8, 0] ++ w.body

/-- A call of a writer. -/
inductive Call where
  | switchPage (page : UInt8)
  | emptyTag (code : TagCode)
  | startTag (code : TagCode)
  | endTag
  | text (value : Str)
  | opaqueBytes (bytes : Bytes)
  deriving DecidableEq

def Writer.call (w : Writer) : Call → Writer
  | .switchPage page => w.switchPage page
  | .emptyTag code => w.emptyTag code
  | .startTag code => w.startTag code
  | .endTag => w.endTag
  | .text value => w.text value
  | .opaqueBytes bytes => w.opaqueBytes bytes

/-- The document that a sequence of calls makes. -/
def document (calls : List Call) : Bytes := (calls.foldl Writer.call .new).finish

/-! ## The reader -/

inductive Token where
  | switchPage (page : UInt8)
  | tag (code : UInt8) (hasContent : Bool)
  | endTag
  | text (value : Str)
  | opaqueBytes (bytes : Bytes)
  deriving DecidableEq

/-- An index outside the byte string, where the code panics. -/
inductive Fault where
  | outOfRange
  deriving DecidableEq

/-- `data[start..stop]`. -/
def slice (data : Bytes) (start stop : Nat) : Except Fault Bytes :=
  if start ≤ stop ∧ stop ≤ data.length then .ok ((data.take stop).drop start) else .error .outOfRange

/-- `data[start..]`. -/
def sliceFrom (data : Bytes) (start : Nat) : Except Fault Bytes :=
  if start ≤ data.length then .ok (data.drop start) else .error .outOfRange

structure Reader where
  body : Bytes
  pos : Nat
  deriving DecidableEq

def Reader.new (data : Bytes) : Option Reader :=
  match data[0]? with
  | none => none
  | some v =>
      if v ≠ version then none
      else
        match readMbU32 data 1 with
        | none => none
        | some (_, len) =>
            match readMbU32 data (1 + len) with
            | none => none
            | some (charset, len') =>
                if charset ≠ charsetUtf8.toUInt32 then none
                else
                  match readMbU32 data (1 + len + len') with
                  | none => none
                  | some (stringTableLen, len'') => some ⟨data, 1 + len + len' + len'' + stringTableLen.toNat⟩

/-- The token that starts with a byte, of which the rest stands from `start` on. The code checks the sum of a position
and a length; it is far from the end of a machine word. -/
def readToken (body : Bytes) (byte : UInt8) (start : Nat) : Except Fault (Option Token × Reader) :=
  if byte = tokSwitchPage then
    match body[start]? with
    | none => .ok (none, ⟨body, start⟩)
    | some page => .ok (some (.switchPage page), ⟨body, start + 1⟩)
  else if byte = tokEnd then .ok (some .endTag, ⟨body, start⟩)
  else if byte = tokStrI then do
    let tail ← sliceFrom body start
    match tail.findIdx? (· == 0) with
    | none => .ok (none, ⟨body, start⟩)
    | some offset =>
        let stop := start + offset
        let text ← slice body start stop
        .ok (some (.text (fromUtf8Lossy text)), ⟨body, stop + 1⟩)
  else if byte = tokOpaque then
    match readMbU32 body start with
    | none => .ok (none, ⟨body, start⟩)
    | some (len, consumed) =>
        let first := start + consumed
        let stop := first + len.toNat
        -- `get(first..stop)`, which answers `None` where the slice would not fit
        if stop ≤ body.length then .ok (some (.opaqueBytes ((body.take stop).drop first)), ⟨body, stop⟩)
        else .ok (none, ⟨body, first⟩)
  else if byte &&& 0x80 = 0 then .ok (some (.tag (byte &&& 0x3F) (byte &&& flagContent ≠ 0)), ⟨body, start⟩)
  else .ok (none, ⟨body, start⟩)

def Reader.read (r : Reader) : Except Fault (Option Token × Reader) :=
  match r.body[r.pos]? with
  | none => .ok (none, r)
  | some byte => readToken r.body byte (r.pos + 1)

/-- The tokens up to the first `None`, of at most `fuel` calls. -/
def Reader.readAll : Nat → Reader → Except Fault (List Token)
  | 0, _ => .ok []
  | fuel + 1, r => do
      match ← r.read with
      | (none, _) => .ok []
      | (some token, r) => (token :: ·) <$> Reader.readAll fuel r

/-! ## Writing and reading an integer -/

theorem and_low (b : UInt8) : (b &&& 0x7F).toNat = b.toNat % 128 := by
  rw [UInt8.toNat_and]
  exact Nat.and_two_pow_sub_one_eq_mod b.toNat 7

theorem or_high {b : UInt8} (h : b.toNat < 128) : (b ||| 0x80).toNat = b.toNat + 128 := by
  have hor := Nat.two_pow_add_eq_or_of_lt (i := 7) h 1
  rw [UInt8.toNat_or, Nat.or_comm]
  exact hor.symm.trans (Nat.add_comm _ _)

theorem and_high_eq_zero_iff (b : UInt8) : b &&& 0x80 = 0 ↔ b.toNat < 128 := by
  have htable : ∀ n < 256, (UInt8.ofNat n &&& 0x80 = 0 ↔ n < 128) := by decide +kernel
  have h := htable b.toNat b.toNat_lt
  rwa [UInt8.ofNat_toNat] at h

/-- What a step of the loop makes of the value, as a number. -/
theorem step_ofNat (n : Nat) (b : UInt8) :
    (UInt32.ofNat n <<< 7) ||| (b &&& 0x7F).toUInt32 = UInt32.ofNat (n * 128 + b.toNat % 128) := by
  apply UInt32.toNat_inj.mp
  have hlow : b.toNat % 128 < 2 ^ 7 := Nat.mod_lt _ (by decide)
  have hshift : (UInt32.ofNat n <<< 7).toNat = 2 ^ 7 * (n % 2 ^ 25) := by
    rw [UInt32.toNat_shiftLeft, UInt32.toNat_ofNat', Nat.shiftLeft_eq]
    simp only [UInt32.reduceToNat, Nat.reduceMod]
    omega
  rw [UInt32.toNat_or, hshift, UInt8.toNat_toUInt32, and_low, ← Nat.two_pow_add_eq_or_of_lt hlow, UInt32.toNat_ofNat']
  omega

/-- The number that groups of seven bits stand for, the highest group first. -/
def mbValue (start : Nat) (bytes : Bytes) : Nat := bytes.foldl (fun n b => n * 128 + b.toNat % 128) start

/-- An encoding of a number: every byte but the last is marked, and there may be more bytes than are needed. -/
structure Encodes (bytes : Bytes) (n : Nat) : Prop where
  marked : ∃ front last, bytes = front ++ [last] ∧ (∀ b ∈ front, 128 ≤ b.toNat) ∧ last.toNat < 128
  value : mbValue 0 bytes = n

theorem readMbLoop_append {front : Bytes} {last : UInt8} (hfront : ∀ b ∈ front, 128 ≤ b.toNat)
    (hlast : last.toNat < 128) (n consumed : Nat) (rest : Bytes) :
    readMbLoop (UInt32.ofNat n) consumed (front ++ last :: rest) =
      if front.length = 0 ∨ consumed + front.length ≤ 5 then
        some (UInt32.ofNat (mbValue n (front ++ [last])), consumed + front.length + 1)
      else none := by
  induction front generalizing n consumed with
  | nil =>
      rw [List.nil_append, readMbLoop, step_ofNat]
      rw [if_pos ((and_high_eq_zero_iff last).mpr hlast), if_pos (.inl rfl)]
      rfl
  | cons b front ih =>
      have hb := hfront b List.mem_cons_self
      have hmark : ¬ b &&& 0x80 = 0 := fun h => absurd ((and_high_eq_zero_iff b).mp h) (by omega)
      rw [List.cons_append, readMbLoop, step_ofNat]
      rw [if_neg hmark, ih fun c hc => hfront c (List.mem_cons_of_mem _ hc)]
      have hvalue : mbValue n (b :: front ++ [last]) = mbValue (n * 128 + b.toNat % 128) (front ++ [last]) := rfl
      rw [hvalue, List.length_cons]
      split
      · rw [if_neg (by omega)]
      · rename_i hroom
        by_cases hfits : front.length = 0 ∨ consumed + 1 + front.length ≤ 5
        · rw [if_pos hfits, if_pos (by omega), Nat.add_assoc consumed 1, Nat.add_comm 1]
        · rw [if_neg hfits, if_neg (by omega)]

/-- The reader takes every encoding of at most six bytes, and what it makes of it is the number modulo `2 ^ 32`. -/
theorem readMbU32_encodes {bytes : Bytes} {n : Nat} (h : Encodes bytes n) (front rest : Bytes) :
    readMbU32 (front ++ (bytes ++ rest)) front.length =
      if bytes.length ≤ 6 then some (UInt32.ofNat n, bytes.length) else none := by
  obtain ⟨⟨marked, last, rfl, hmarked, hlast⟩, rfl⟩ := h
  have hzero : (0 : UInt32) = UInt32.ofNat 0 := rfl
  rw [readMbU32, List.drop_left, List.append_assoc, List.singleton_append, hzero, readMbLoop_append hmarked hlast,
    List.length_append, List.length_singleton, Nat.zero_add]
  by_cases hfits : marked.length + 1 ≤ 6
  · rw [if_pos hfits, if_pos (by omega)]
  · rw [if_neg hfits, if_neg (by omega)]

theorem shiftRight_toNat (v : UInt32) : (v >>> 7).toNat = v.toNat / 128 := by
  rw [UInt32.toNat_shiftRight]
  simp [Nat.shiftRight_eq_div_pow]

theorem low_toNat (v : UInt32) : ((v &&& 0x7F).toUInt8).toNat = v.toNat % 128 := by
  rw [UInt32.toNat_toUInt8, UInt32.toNat_and]
  have hand : v.toNat &&& (0x7F : UInt32).toNat = v.toNat % 2 ^ 7 := Nat.and_two_pow_sub_one_eq_mod v.toNat 7
  rw [hand]
  omega

/-- Five groups are enough: the loop ends with nothing left of the value. -/
theorem mbChunks_spec (room : Nat) (v : UInt32) (hv : v.toNat < 128 ^ (room + 1)) :
    ∃ low high, mbChunks (room + 1) v = low :: high ∧ high.length ≤ room ∧ (∀ c ∈ low :: high, c.toNat < 128) ∧
      (high.foldr (fun c n => n * 128 + c.toNat) 0) * 128 + low.toNat = v.toNat := by
  induction room generalizing v with
  | zero =>
      have hzero : v >>> 7 = 0 := by
        apply UInt32.toNat_inj.mp
        rw [shiftRight_toNat, Nat.div_eq_of_lt (by simpa using hv)]
        rfl
      refine ⟨_, _, rfl, ?_, ?_, ?_⟩
      · rw [if_pos hzero]
        exact Nat.le_refl _
      · rw [if_pos hzero]
        intro c hc
        rw [List.mem_singleton.mp hc, low_toNat]
        exact Nat.mod_lt _ (by decide)
      · rw [if_pos hzero, List.foldr_nil, low_toNat]
        omega
  | succ room ih =>
      have hnext : (v >>> 7).toNat < 128 ^ (room + 1) := by
        rw [shiftRight_toNat]
        rw [Nat.pow_succ] at hv
        omega
      refine ⟨_, _, rfl, ?_, ?_, ?_⟩
      · split
        · exact Nat.zero_le _
        · obtain ⟨low, high, hchunks, hlen, -⟩ := ih (v >>> 7) hnext
          rw [hchunks, List.length_cons]
          omega
      · intro c hc
        rcases List.mem_cons.mp hc with rfl | hc
        · rw [low_toNat]
          exact Nat.mod_lt _ (by decide)
        · split at hc
          · cases hc
          · obtain ⟨low, high, hchunks, -, hsmall, -⟩ := ih (v >>> 7) hnext
            rw [hchunks] at hc
            exact hsmall c hc
      · rw [low_toNat]
        split
        · rename_i hzero
          have hdiv := shiftRight_toNat v
          rw [hzero] at hdiv
          have : (0 : UInt32).toNat = 0 := rfl
          rw [List.foldr_nil]
          omega
        · obtain ⟨low, high, hchunks, -, -, hvalue⟩ := ih (v >>> 7) hnext
          rw [hchunks, List.foldr_cons, hvalue, shiftRight_toNat]
          omega

theorem map_zipIdx_marked (chunks : List UInt8) (k : Nat) :
    ((chunks.zipIdx (k + 1)).map fun (p : UInt8 × Nat) => if 0 < p.2 then p.1 ||| 0x80 else p.1) =
      chunks.map (· ||| 0x80) := by
  induction chunks generalizing k with
  | nil => rfl
  | cons c chunks ih => rw [List.zipIdx_cons, List.map_cons, List.map_cons, ih, if_pos (Nat.succ_pos k)]

theorem mbValue_marked {high : List UInt8} (h : ∀ c ∈ high, c.toNat < 128) :
    mbValue 0 (high.map (· ||| 0x80)).reverse = high.foldr (fun c n => n * 128 + c.toNat) 0 := by
  rw [mbValue, List.foldl_reverse, List.foldr_map]
  induction high with
  | nil => rfl
  | cons c high ih =>
      rw [List.foldr_cons, List.foldr_cons, ih fun d hd => h d (List.mem_cons_of_mem _ hd),
        or_high (h c List.mem_cons_self)]
      have := h c List.mem_cons_self
      omega

theorem encodes_writeMbU32 (v : UInt32) : Encodes (writeMbU32 v) v.toNat ∧ (writeMbU32 v).length ≤ 5 := by
  obtain ⟨low, high, hchunks, hlen, hsmall, hvalue⟩ := mbChunks_spec 4 v (Nat.lt_of_lt_of_le v.toNat_lt (by decide))
  have hlow := hsmall low List.mem_cons_self
  have hhigh : ∀ c ∈ high, c.toNat < 128 := fun c hc => hsmall c (List.mem_cons_of_mem _ hc)
  have hwrite : writeMbU32 v = (high.map (· ||| 0x80)).reverse ++ [low] := by
    rw [writeMbU32, hchunks, List.zipIdx_cons, List.reverse_cons, List.map_append, List.map_reverse,
      map_zipIdx_marked high 0]
    rfl
  rw [hwrite]
  refine ⟨⟨⟨_, low, rfl, ?_, hlow⟩, ?_⟩, ?_⟩
  · intro b hb
    obtain ⟨c, hc, rfl⟩ := List.mem_map.mp (List.mem_reverse.mp hb)
    rw [or_high (hhigh c hc)]
    omega
  · have happ : mbValue 0 ((high.map (· ||| 0x80)).reverse ++ [low]) =
        mbValue 0 (high.map (· ||| 0x80)).reverse * 128 + low.toNat % 128 := List.foldl_concat ..
    rw [happ, mbValue_marked hhigh, Nat.mod_eq_of_lt hlow, hvalue]
  · rw [List.length_append, List.length_reverse, List.length_map, List.length_singleton]
    omega

theorem readMbU32_writeMbU32 (v : UInt32) (front rest : Bytes) :
    readMbU32 (front ++ (writeMbU32 v ++ rest)) front.length = some (v, (writeMbU32 v).length) := by
  obtain ⟨hencodes, hlen⟩ := encodes_writeMbU32 v
  rw [readMbU32_encodes hencodes, if_pos (by omega), UInt32.ofNat_toNat]

/-! ## What a call writes -/

/-- The bytes of a call on a page. -/
def emit (page : UInt8) : Call → Bytes
  | .switchPage next => if next ≠ page then [tokSwitchPage, next] else []
  | .emptyTag code => [code.byte &&& 0x3F]
  | .startTag code => [(code.byte &&& 0x3F) ||| flagContent]
  | .endTag => [tokEnd]
  | .text value => tokStrI :: utf8 value ++ [0]
  | .opaqueBytes bytes => tokOpaque :: writeMbU32 (UInt32.ofNat bytes.length) ++ bytes

def pageAfter (page : UInt8) : Call → UInt8
  | .switchPage next => next
  | _ => page

/-- The token of a call; a switch to the page that is current writes none. -/
def tokenOf (page : UInt8) : Call → Option Token
  | .switchPage next => if next ≠ page then some (.switchPage next) else none
  | .emptyTag code => some (.tag code.byte false)
  | .startTag code => some (.tag code.byte true)
  | .endTag => some .endTag
  | .text value => some (.text value)
  | .opaqueBytes bytes => some (.opaqueBytes bytes)

/-- The tokens that a sequence of calls writes. -/
def tokensOf (page : UInt8) : List Call → List Token
  | [] => []
  | c :: calls => (tokenOf page c).toList ++ tokensOf (pageAfter page c) calls

def emitAll (page : UInt8) : List Call → Bytes
  | [] => []
  | c :: calls => emit page c ++ emitAll (pageAfter page c) calls

theorem Writer.call_eq (w : Writer) (c : Call) :
    w.call c = ⟨w.body ++ emit w.currentPage c, pageAfter w.currentPage c⟩ := by
  cases c with
  | switchPage next =>
      rw [Writer.call, Writer.switchPage, emit, pageAfter]
      split
      · rfl
      · rename_i hsame
        rw [List.append_nil, not_not.mp hsame]
  | emptyTag code => rfl
  | startTag code => rfl
  | endTag => rfl
  | text value => simp [Writer.call, Writer.text, emit, pageAfter]
  | opaqueBytes bytes => simp [Writer.call, Writer.opaqueBytes, emit, pageAfter]

theorem foldl_call (calls : List Call) (w : Writer) :
    (calls.foldl Writer.call w).body = w.body ++ emitAll w.currentPage calls := by
  induction calls generalizing w with
  | nil => exact (List.append_nil _).symm
  | cons c calls ih =>
      rw [List.foldl_cons, ih, Writer.call_eq, emitAll]
      exact List.append_assoc ..

theorem document_eq (calls : List Call) : document calls = [version, publicId, charsetUtf8, 0] ++ emitAll 0 calls := by
  rw [document, Writer.finish, foldl_call]
  rfl

/-! ## Reading -/

/-- The slices are inside the byte string, so nothing panics, and the position moves on and stays inside as well. -/
theorem readToken_ok {body : Bytes} {start : Nat} (byte : UInt8) (hstart : start ≤ body.length) :
    ∃ token r, readToken body byte start = .ok (token, r) ∧ r.body = body ∧
      (token ≠ none → start ≤ r.pos ∧ r.pos ≤ body.length) := by
  unfold readToken
  by_cases hpage : byte = tokSwitchPage
  · rw [if_pos hpage]
    cases hnext : body[start]? with
    | none => exact ⟨_, _, rfl, rfl, fun h => absurd rfl h⟩
    | some page =>
        have hlt := (List.getElem?_eq_some_iff.mp hnext).1
        exact ⟨_, _, rfl, rfl, fun _ => ⟨Nat.le_succ _, hlt⟩⟩
  rw [if_neg hpage]
  by_cases hend : byte = tokEnd
  · rw [if_pos hend]
    exact ⟨_, _, rfl, rfl, fun _ => ⟨Nat.le_refl _, hstart⟩⟩
  rw [if_neg hend]
  by_cases hstr : byte = tokStrI
  · rw [if_pos hstr, sliceFrom, if_pos hstart]
    dsimp only [bind, Except.bind]
    cases hnul : (body.drop start).findIdx? (· == 0) with
    | none => exact ⟨_, _, rfl, rfl, fun h => absurd rfl h⟩
    | some offset =>
        have hlt := (List.findIdx?_eq_some_iff_getElem.mp hnul).1
        rw [List.length_drop] at hlt
        dsimp only
        rw [slice, if_pos ⟨Nat.le_add_right _ _, by omega⟩]
        exact ⟨_, _, rfl, rfl, fun _ => ⟨by dsimp only; omega, by dsimp only; omega⟩⟩
  rw [if_neg hstr]
  by_cases hopaque : byte = tokOpaque
  · rw [if_pos hopaque]
    cases hlen : readMbU32 body start with
    | none => exact ⟨_, _, rfl, rfl, fun h => absurd rfl h⟩
    | some p =>
        obtain ⟨len, consumed⟩ := p
        dsimp only
        by_cases hfits : start + consumed + len.toNat ≤ body.length
        · rw [if_pos hfits]
          exact ⟨_, _, rfl, rfl, fun _ => ⟨by dsimp only; omega, hfits⟩⟩
        · rw [if_neg hfits]
          exact ⟨_, _, rfl, rfl, fun h => absurd rfl h⟩
  rw [if_neg hopaque]
  by_cases htag : byte &&& 0x80 = 0
  · rw [if_pos htag]
    exact ⟨_, _, rfl, rfl, fun _ => ⟨Nat.le_refl _, hstart⟩⟩
  · rw [if_neg htag]
    exact ⟨_, _, rfl, rfl, fun h => absurd rfl h⟩

theorem Reader.read_ok (r : Reader) : ∃ token r', r.read = .ok (token, r') ∧ r'.body = r.body ∧
    (token ≠ none → r.pos < r'.pos ∧ r'.pos ≤ r.body.length) := by
  unfold Reader.read
  cases hbyte : r.body[r.pos]? with
  | none => exact ⟨_, _, rfl, rfl, fun h => absurd rfl h⟩
  | some byte => exact readToken_ok byte (List.getElem?_eq_some_iff.mp hbyte).1

/-- All tokens that a reader gives, however often it is called. -/
def Reader.Tokens (r : Reader) (tokens : List Token) : Prop :=
  ∀ fuel, r.body.length - r.pos < fuel → r.readAll fuel = .ok tokens

/-- A reader comes to its end, after no more tokens than there are bytes left. -/
theorem Reader.exists_tokens (r : Reader) : ∃ tokens, tokens.length ≤ r.body.length - r.pos ∧ r.Tokens tokens := by
  induction hleft : r.body.length - r.pos using Nat.strongRecOn generalizing r with
  | ind left ih =>
      obtain ⟨token, r', hread, hbody, hpos⟩ := r.read_ok
      cases token with
      | none =>
          refine ⟨[], Nat.zero_le _, fun fuel hfuel => ?_⟩
          cases fuel with
          | zero => omega
          | succ fuel =>
              rw [Reader.readAll, hread]
              rfl
      | some token =>
          obtain ⟨hlt, hle⟩ := hpos (by simp)
          have hsmall : r'.body.length - r'.pos < left := by
            rw [hbody]
            omega
          obtain ⟨tokens, hcount, htokens⟩ := ih _ hsmall r' rfl
          refine ⟨token :: tokens, by rw [List.length_cons]; omega, fun fuel hfuel => ?_⟩
          cases fuel with
          | zero => omega
          | succ fuel =>
              rw [Reader.readAll, hread]
              dsimp only [bind, Except.bind]
              rw [htokens fuel (by omega)]
              rfl

theorem Reader.Tokens.of_none {r r' : Reader} {tokens : List Token} (h : r.Tokens tokens)
    (hread : r.read = .ok (none, r')) : tokens = [] := by
  have hall := h (r.body.length - r.pos + 1) (Nat.lt_succ_self _)
  rw [Reader.readAll, hread] at hall
  exact (Except.ok.inj hall).symm

theorem Reader.Tokens.of_some {r r' : Reader} {token : Token} {tokens : List Token} (h : r.Tokens tokens)
    (hread : r.read = .ok (some token, r')) : ∃ rest, tokens = token :: rest ∧ r'.Tokens rest := by
  obtain ⟨rest, -, hrest⟩ := r'.exists_tokens
  refine ⟨rest, ?_, hrest⟩
  have hall := h (r.body.length + r'.body.length + 2) (by omega)
  rw [Reader.readAll, hread] at hall
  dsimp only [bind, Except.bind] at hall
  rw [hrest (r.body.length + r'.body.length + 1) (by omega)] at hall
  exact (Except.ok.inj hall).symm

/-! ## Reading what was written -/

/-- A call whose content the format can carry. -/
def Carried : Call → Prop
  | .text value => Char.ofNat 0 ∉ value
  | .opaqueBytes bytes => bytes.length < 2 ^ 32
  | _ => True

theorem Reader.read_cons (front : Bytes) (byte : UInt8) (rest : Bytes) :
    Reader.read ⟨front ++ byte :: rest, front.length⟩ =
      readToken (front ++ byte :: rest) byte (front.length + 1) := by
  rw [Reader.read]
  simp

theorem readToken_tag {byte : UInt8} {code : TagCode} (content : Bool)
    (h : byte = if content then (code.byte &&& 0x3F) ||| flagContent else code.byte &&& 0x3F) (body : Bytes)
    (start : Nat) :
    readToken body byte start = .ok (some (.tag code.byte content), ⟨body, start⟩) := by
  have htable : ∀ n < 0x40, 0x05 ≤ n → ∀ content : Bool,
      let byte := if content then (UInt8.ofNat n &&& 0x3F) ||| flagContent else UInt8.ofNat n &&& 0x3F
      byte ≠ tokSwitchPage ∧ byte ≠ tokEnd ∧ byte ≠ tokStrI ∧ byte ≠ tokOpaque ∧ byte &&& 0x80 = 0 ∧
        byte &&& 0x3F = UInt8.ofNat n ∧ decide (byte &&& flagContent ≠ 0) = content := by decide +kernel
  have hbyte := htable code.byte.toNat (by have := code.upper; omega) code.lower content
  rw [UInt8.ofNat_toNat, ← h] at hbyte
  obtain ⟨hpage, hend, hstr, hopaque, htag, hcode, hcontent⟩ := hbyte
  rw [readToken, if_neg hpage, if_neg hend, if_neg hstr, if_neg hopaque, if_pos htag, hcode, hcontent]

theorem findIdx?_nul {l : Bytes} (h : (0 : UInt8) ∉ l) (rest : Bytes) :
    (l ++ 0 :: rest).findIdx? (· == 0) = some l.length := by
  induction l with
  | nil => rfl
  | cons b l ih =>
      have hb : (b == 0) = false := beq_eq_false_iff_ne.mpr fun hb => h (by simp [hb])
      rw [List.cons_append, List.findIdx?_cons, hb, ih fun hmem => h (List.mem_cons_of_mem _ hmem)]
      rfl

/-- A slice in the middle. -/
theorem slice_middle (front middle rest : Bytes) :
    slice (front ++ (middle ++ rest)) front.length (front.length + middle.length) = .ok middle := by
  have htake : (front ++ (middle ++ rest)).take (front.length + middle.length) = front ++ middle := by
    rw [← List.append_assoc, ← List.length_append]
    exact List.take_left
  rw [slice, if_pos ⟨Nat.le_add_right _ _, by simp⟩, htake, List.drop_left]

/-- An inline string is read up to the first NUL in it. -/
theorem readToken_text (front : Bytes) (value : Str) (rest : Bytes) :
    readToken (front ++ tokStrI :: (utf8 value ++ 0 :: rest)) tokStrI (front.length + 1) =
      .ok (some (.text (value.takeWhile (· != Char.ofNat 0))),
        ⟨front ++ tokStrI :: (utf8 value ++ 0 :: rest),
          front.length + 1 + (utf8 (value.takeWhile (· != Char.ofNat 0))).length + 1⟩) := by
  have hnul : (0 : UInt8) ∉ utf8 (value.takeWhile (· != Char.ofNat 0)) := by
    intro hmem
    have hchar : Char.ofNat 0 ∈ value.takeWhile (· != Char.ofNat 0) := mem_of_mem_utf8 hmem (by decide)
    exact absurd (List.mem_takeWhile_imp hchar) (by decide)
  have hcut : ∃ after, utf8 value ++ 0 :: rest = utf8 (value.takeWhile (· != Char.ofNat 0)) ++ 0 :: after := by
    cases htail : value.dropWhile (· != Char.ofNat 0) with
    | nil =>
        have hall := List.takeWhile_append_dropWhile (p := (· != Char.ofNat 0)) (l := value)
        rw [htail, List.append_nil] at hall
        exact ⟨rest, by rw [hall]⟩
    | cons c tail =>
        have hc := List.head?_dropWhile_not (· != Char.ofNat 0) value
        rw [htail] at hc
        have hc : c = Char.ofNat 0 := by simpa using hc
        refine ⟨utf8 tail ++ 0 :: rest, ?_⟩
        conv_lhs => rw [← List.takeWhile_append_dropWhile (p := (· != Char.ofNat 0)) (l := value), htail, hc]
        rw [utf8_append, utf8_cons, List.append_assoc, List.append_assoc]
        rfl
  obtain ⟨after, hafter⟩ := hcut
  have hsplit : front ++ tokStrI :: (utf8 value ++ 0 :: rest) =
      (front ++ [tokStrI]) ++ (utf8 (value.takeWhile (· != Char.ofNat 0)) ++ 0 :: after) := by
    rw [hafter, List.append_assoc]
    rfl
  have hlen : front.length + 1 = (front ++ [tokStrI]).length := by simp
  rw [hsplit, hlen, readToken, if_neg (by decide), if_neg (by decide), if_pos rfl, sliceFrom, if_pos (by simp),
    List.drop_left]
  dsimp only [bind, Except.bind]
  rw [findIdx?_nul hnul]
  dsimp only
  rw [slice_middle]
  dsimp only
  rw [fromUtf8Lossy_utf8]

/-- Binary content is read to the length that its number of 32 bits gives. -/
theorem readToken_opaque (front bytes rest : Bytes) :
    readToken (front ++ tokOpaque :: (writeMbU32 (UInt32.ofNat bytes.length) ++ (bytes ++ rest))) tokOpaque
        (front.length + 1) =
      .ok (some (.opaqueBytes (bytes.take (bytes.length % 2 ^ 32))),
        ⟨front ++ tokOpaque :: (writeMbU32 (UInt32.ofNat bytes.length) ++ (bytes ++ rest)),
          front.length + 1 + (writeMbU32 (UInt32.ofNat bytes.length)).length + bytes.length % 2 ^ 32⟩) := by
  have hsplit : front ++ tokOpaque :: (writeMbU32 (UInt32.ofNat bytes.length) ++ (bytes ++ rest)) =
      (front ++ [tokOpaque]) ++ (writeMbU32 (UInt32.ofNat bytes.length) ++ (bytes ++ rest)) := by
    rw [List.append_assoc]
    rfl
  have hlen : front.length + 1 = (front ++ [tokOpaque]).length := by simp
  have hcount : (UInt32.ofNat bytes.length).toNat = bytes.length % 2 ^ 32 := UInt32.toNat_ofNat'
  have hle : bytes.length % 2 ^ 32 ≤ bytes.length := Nat.mod_le _ _
  rw [hsplit, hlen, readToken, if_neg (by decide), if_neg (by decide), if_neg (by decide), if_pos rfl,
    readMbU32_writeMbU32]
  dsimp only
  rw [hcount, if_pos (by simp only [List.length_append]; omega)]
  have hpart : bytes = bytes.take (bytes.length % 2 ^ 32) ++ bytes.drop (bytes.length % 2 ^ 32) :=
    (List.take_append_drop _ _).symm
  have hmiddle := slice_middle ((front ++ [tokOpaque]) ++ writeMbU32 (UInt32.ofNat bytes.length))
    (bytes.take (bytes.length % 2 ^ 32)) (bytes.drop (bytes.length % 2 ^ 32) ++ rest)
  rw [← List.append_assoc (bytes.take _), ← hpart, List.length_take, Nat.min_eq_left hle, List.length_append,
    List.append_assoc, slice] at hmiddle
  rw [if_pos (by simp only [List.length_append]; omega)] at hmiddle
  rw [Except.ok.inj hmiddle]

/-- Every call that writes a token is read back as a token, and as its own exactly when the format can carry it. -/
theorem Reader.read_call {page : UInt8} {c : Call} {token : Token} (htoken : tokenOf page c = some token)
    (front rest : Bytes) : ∃ read r', Reader.read ⟨front ++ (emit page c ++ rest), front.length⟩ = .ok (some read, r') ∧
      (Carried c → read = token ∧ r' = ⟨front ++ (emit page c ++ rest), front.length + (emit page c).length⟩) ∧
      (¬ Carried c → read ≠ token) := by
  cases c with
  | switchPage next =>
      rw [tokenOf] at htoken
      split at htoken
      · rename_i hne
        obtain rfl := Option.some.inj htoken
        refine ⟨_, _, ?_, fun _ => ⟨rfl, rfl⟩, fun h => absurd trivial h⟩
        rw [emit, if_pos hne, List.cons_append, Reader.read_cons, readToken, if_pos rfl]
        simp
      · cases htoken
  | emptyTag code =>
      obtain rfl := Option.some.inj htoken
      refine ⟨_, _, ?_, fun _ => ⟨rfl, rfl⟩, fun h => absurd trivial h⟩
      rw [emit, List.cons_append, Reader.read_cons]
      exact readToken_tag false rfl _ _
  | startTag code =>
      obtain rfl := Option.some.inj htoken
      refine ⟨_, _, ?_, fun _ => ⟨rfl, rfl⟩, fun h => absurd trivial h⟩
      rw [emit, List.cons_append, Reader.read_cons]
      exact readToken_tag true rfl _ _
  | endTag =>
      obtain rfl := Option.some.inj htoken
      refine ⟨_, _, ?_, fun _ => ⟨rfl, rfl⟩, fun h => absurd trivial h⟩
      rw [emit, List.cons_append, Reader.read_cons]
      rfl
  | text value =>
      obtain rfl := Option.some.inj htoken
      rw [emit, List.cons_append, List.cons_append, Reader.read_cons, List.append_assoc, List.singleton_append,
        readToken_text]
      refine ⟨_, _, rfl, fun hcarried => ?_, fun hlost heq => hlost fun hmem => ?_⟩
      · have hall : value.takeWhile (· != Char.ofNat 0) = value := by
          rw [List.takeWhile_eq_self_iff]
          intro c hc
          exact bne_iff_ne.mpr fun h => hcarried (h ▸ hc)
        rw [hall]
        refine ⟨rfl, ?_⟩
        simp only [List.length_cons, List.length_append, List.length_nil]
        congr 1
        omega
      · rw [← Token.text.inj heq] at hmem
        exact absurd (List.mem_takeWhile_imp hmem) (by decide)
  | opaqueBytes bytes =>
      obtain rfl := Option.some.inj htoken
      rw [emit, List.cons_append, List.cons_append, List.append_assoc, Reader.read_cons, readToken_opaque]
      refine ⟨_, _, rfl, fun hcarried => ?_, fun hlost heq => ?_⟩
      · rw [Nat.mod_eq_of_lt hcarried, List.take_length]
        refine ⟨rfl, ?_⟩
        simp only [List.length_cons, List.length_append]
        congr 1
        omega
      · have hlen := congrArg List.length (Token.opaqueBytes.inj heq)
        rw [List.length_take, Nat.min_eq_left (Nat.mod_le _ _)] at hlen
        have hlt : bytes.length % 2 ^ 32 < 2 ^ 32 := Nat.mod_lt _ (by decide)
        exact hlost (by unfold Carried; omega)

theorem tokenOf_eq_none {page : UInt8} {c : Call} (h : tokenOf page c = none) : emit page c = [] ∧ Carried c := by
  cases c with
  | switchPage next =>
      rw [tokenOf] at h
      split at h
      · cases h
      · rename_i hsame
        rw [emit, if_neg hsame]
        exact ⟨rfl, trivial⟩
  | emptyTag code => cases h
  | startTag code => cases h
  | endTag => cases h
  | text value => cases h
  | opaqueBytes bytes => cases h

/-- What is read of the bytes of some calls is what they write exactly when the format can carry all of them. -/
theorem tokens_emitAll {page : UInt8} {calls : List Call} {front : Bytes} {tokens : List Token}
    (h : Reader.Tokens ⟨front ++ emitAll page calls, front.length⟩ tokens) :
    tokens = tokensOf page calls ↔ ∀ c ∈ calls, Carried c := by
  induction calls generalizing page front tokens with
  | nil =>
      have hread : Reader.read ⟨front ++ emitAll page [], front.length⟩ = .ok (none, ⟨front ++ [], front.length⟩) := by
        rw [Reader.read]
        simp [emitAll]
      exact iff_of_true (h.of_none hread) (by simp)
  | cons c calls ih =>
      rw [emitAll] at h
      rw [tokensOf, List.forall_mem_cons]
      cases htoken : tokenOf page c with
      | none =>
          obtain ⟨hemit, hcarried⟩ := tokenOf_eq_none htoken
          rw [hemit] at h
          exact (ih h).trans (and_iff_right hcarried).symm
      | some token =>
          obtain ⟨read, r', hread, hyes, hno⟩ := Reader.read_call htoken front (emitAll (pageAfter page c) calls)
          obtain ⟨rest, rfl, hrest⟩ := h.of_some hread
          rw [Option.toList_some, List.singleton_append, List.cons.injEq]
          by_cases hcarried : Carried c
          · obtain ⟨rfl, rfl⟩ := hyes hcarried
            rw [← List.append_assoc, ← List.length_append] at hrest
            rw [ih hrest]
            exact and_congr_left' (iff_of_true rfl hcarried)
          · exact iff_of_false (fun heq => hno hcarried heq.1) fun hall => hcarried hall.1

/-- A document gives back the tokens that were written exactly when no text has a NUL in it and no content is of
`2 ^ 32` bytes; an integer is read back, and a number that does not fit is refused exactly when it has more than six
bytes; and whatever the bytes are, the reader reads inside them and ends. -/
theorem document_tokens (calls : List Call) :
    (∃ r tokens, Reader.new (document calls) = some r ∧ r.Tokens tokens ∧
      (tokens = tokensOf 0 calls ↔ ∀ c ∈ calls, Carried c)) ∧
    (∀ v front rest, readMbU32 (front ++ (writeMbU32 v ++ rest)) front.length = some (v, (writeMbU32 v).length)) ∧
    (∀ bytes n, Encodes bytes n → ∀ front rest,
      ((2 ^ 32 ≤ n → readMbU32 (front ++ (bytes ++ rest)) front.length = none) ↔ (2 ^ 32 ≤ n → 6 < bytes.length))) ∧
    ∀ r : Reader, (∃ token r', r.read = .ok (token, r')) ∧
      ∃ tokens, tokens.length ≤ r.body.length - r.pos ∧ r.Tokens tokens := by
  refine ⟨?_, readMbU32_writeMbU32, fun bytes n h front rest => ?_, fun r => ⟨?_, r.exists_tokens⟩⟩
  · obtain ⟨tokens, -, htokens⟩ := Reader.exists_tokens ⟨document calls, 4⟩
    refine ⟨⟨document calls, 4⟩, tokens, ?_, htokens, ?_⟩
    · rw [document_eq]
      rfl
    · rw [document_eq] at htokens
      have hbody : Reader.Tokens ⟨[version, publicId, charsetUtf8, 0] ++ emitAll 0 calls,
          [version, publicId, charsetUtf8, 0].length⟩ tokens := htokens
      exact tokens_emitAll hbody
  · rw [readMbU32_encodes h]
    refine imp_congr_right fun _ => ?_
    split
    · exact iff_of_false (by simp) (by omega)
    · exact iff_of_true rfl (by omega)
  · obtain ⟨token, r', hread, -⟩ := r.read_ok
    exact ⟨token, r', hread⟩

/-- A NUL in a text ends it, and a number above 32 bits is read without its high bits. -/
theorem content_lost :
    Reader.readAll 9 ⟨document [.text ['a', Char.ofNat 0, 'b']], 4⟩ = .ok [.text ['a'], .tag 0x22 true] ∧
    tokensOf 0 [.text ['a', Char.ofNat 0, 'b']] ≠ [.text ['a'], .tag 0x22 true] ∧
    Encodes [0x90, 0x80, 0x80, 0x80, 0x00] (2 ^ 32) ∧ readMbU32 [0x90, 0x80, 0x80, 0x80, 0x00] 0 = some (0, 5) := by
  refine ⟨rfl, by decide, ⟨⟨[0x90, 0x80, 0x80, 0x80], 0x00, rfl, by decide, by decide⟩, rfl⟩, by decide⟩

end Selfhost.Mail.Wbxml
