import Selfhost.Desk.Codec
import Selfhost.Desk.Relay

/-!
# One encoding for every message

What is decoded is encoded to the bytes that it came from, and what is encoded is decoded again exactly when the decoder's
bounds hold of it.
-/

namespace Selfhost.Desk

open Selfhost.Lib

/-! ## Codes -/

example : Notice.fromCode Notice.live.code = some .live := by decide +kernel

theorem hid_injective {key other : Usage} (h : Usage.hid key = Usage.hid other) : key = other := by
  have hnodup : keys.Nodup := by decide +kernel
  have hget := List.nodup_iff_injective_get.mp hnodup h
  exact Fin.ext (congrArg (fun i => i.val) hget)

theorem hid_le (key : Usage) : Usage.hid key ≤ maxPageUsage := by
  have hall : ∀ usage ∈ keys, usage ≤ maxPageUsage := by decide +kernel
  exact hall _ (List.get_mem keys _)

theorem fromHid_eq_ok_iff {usage : UInt16} {key : Usage} : Usage.fromHid usage = .ok key ↔ usage = Usage.hid key := by
  rw [Usage.fromHid]
  constructor
  · intro h
    split at h
    · cases h
    · split at h
      · rename_i heq
        cases h
        have hfound := List.find?_some heq
        exact (of_decide_eq_true hfound).symm
      · cases h
  · rintro rfl
    rw [if_neg (UInt16.not_lt.mpr (hid_le key))]
    cases hfind : (List.finRange keyCount).find? fun other => decide (Usage.hid other = Usage.hid key) with
    | none =>
        have hnone := List.find?_eq_none.mp hfind key (List.mem_finRange key)
        exact absurd (decide_eq_true rfl) hnone
    | some other =>
        have hfound := List.find?_some hfind
        rw [hid_injective (of_decide_eq_true hfound)]

theorem TileSize.new_eq_ok_iff {edge : UInt16} {tile : TileSize} :
    TileSize.new edge.toNat = .ok tile ↔ edge = UInt16.ofNat tile.edge := by
  have hlt : tile.edge < 2 ^ 16 := by
    have := tile.legal
    simp only [List.mem_cons, List.not_mem_nil, or_false] at this
    omega
  rw [TileSize.new, ← UInt16.toNat_inj, UInt16.toNat_ofNat', Nat.mod_eq_of_lt hlt]
  constructor
  · intro h
    split at h
    · cases h
      rfl
    · cases h
  · intro h
    rw [dif_pos (h ▸ tile.legal)]
    exact congrArg Except.ok (TileSize.mk.injEq .. ▸ h)

theorem Notice.fromCode_eq_some_iff {code : UInt8} {notice : Notice} :
    Notice.fromCode code = some notice ↔ code = notice.code := by
  constructor
  · intro h
    unfold fromCode at h
    split at h <;> cases h <;> rfl
  · rintro rfl
    cases notice <;> rfl

theorem Refusal.fromCode_eq_some_iff {code : UInt8} {refusal : Refusal} :
    Refusal.fromCode code = some refusal ↔ code = refusal.code := by
  constructor
  · intro h
    unfold fromCode at h
    split at h <;> cases h <;> rfl
  · rintro rfl
    cases refusal <;> rfl

theorem Button.fromCode_eq_some_iff {code : UInt8} {button : Button} :
    Button.fromCode code = some button ↔ code = button.code := by
  constructor
  · intro h
    unfold fromCode at h
    split at h <;> cases h <;> rfl
  · rintro rfl
    cases button <;> rfl

theorem Encoding.fromCode_eq_some_iff {code : UInt8} {encoding : Encoding} :
    Encoding.fromCode code = some encoding ↔ code = encoding.code := by
  constructor
  · intro h
    unfold fromCode at h
    split at h <;> cases h <;> rfl
  · rintro rfl
    cases encoding <;> rfl

/-- No bit without a meaning, and nothing without the view. -/
def Capabilities.Coherent (set : Capabilities) : Prop :=
  set.bits &&& ~~~known = 0 ∧ (set.isEmpty = true ∨ set.contains view = true)

theorem Capabilities.fromBits_eq_some_iff {bits : UInt8} {set : Capabilities} :
    fromBits bits = some set ↔ bits = set.bits ∧ set.Coherent := by
  rw [fromBits, Coherent, isEmpty]
  constructor
  · intro h
    split at h
    · cases h
    · rename_i hknown
      split at h
      · cases h
      · rename_i hview
        cases h
        refine ⟨rfl, not_not.mp hknown, ?_⟩
        rw [beq_iff_eq]
        by_contra hnone
        rw [not_or] at hnone
        exact hview ⟨hnone.1, hnone.2⟩
  · rintro ⟨rfl, hknown, hview⟩
    rw [beq_iff_eq] at hview
    rw [if_neg (not_not.mpr hknown), if_neg (fun h => hview.elim h.1 h.2)]

namespace Wire

open Scan

example : ¬ 0x32 ∈ keys := by decide +kernel

/-! ## Fields -/

section

variable {field : String}

theorem inverts_u8 : Inverts (u8 field) (fun n => [n]) fun _ => True := Scan.inverts_u8

theorem inverts_u16 : Inverts (u16 field) be16 fun _ => True := Scan.inverts_u16

theorem inverts_u32 : Inverts (u32 field) be32 fun _ => True := Scan.inverts_u32

theorem inverts_u64 : Inverts (u64 field) be64 fun _ => True := Scan.inverts_u64

theorem inverts_i32 : Inverts (i32 field) beI32 fun _ => True := by
  intro input value rest
  rw [i32, (inverts_u32).bind_ok_iff]
  simp only [pure_ok_iff]
  constructor
  · rintro ⟨n, middle, ⟨rfl, -⟩, rfl, rfl⟩
    exact ⟨rfl, trivial⟩
  · rintro ⟨rfl, -⟩
    exact ⟨value.toUInt32, rest, ⟨rfl, trivial⟩, rfl, rfl⟩

theorem inverts_coded {α : Type} {fromCode : UInt8 → Option α} {code : α → UInt8} {Known : α → Prop}
    (hcode : ∀ n a, fromCode n = some a ↔ n = code a ∧ Known a) :
    Inverts (coded field fromCode) (fun a => [code a]) Known := by
  intro input value rest
  rw [coded, (inverts_u8).bind_ok_iff]
  constructor
  · rintro ⟨n, middle, ⟨rfl, -⟩, h⟩
    cases hn : fromCode n with
    | none =>
        rw [hn] at h
        cases h
    | some a =>
        rw [hn] at h
        obtain ⟨rfl, rfl⟩ := pure_ok_iff.mp h
        obtain ⟨rfl, hknown⟩ := (hcode n value).mp hn
        exact ⟨rfl, hknown⟩
  · rintro ⟨rfl, hknown⟩
    refine ⟨code value, rest, ⟨rfl, trivial⟩, ?_⟩
    rw [(hcode _ value).mpr ⟨rfl, hknown⟩]
    exact pure_ok_iff.mpr ⟨rfl, rfl⟩

theorem inverts_flag : Inverts (flag field) (fun b => [b.toUInt8]) fun _ => True := by
  refine inverts_coded fun n b => ?_
  rw [and_true]
  constructor
  · intro h
    split at h <;> cases h <;> rfl
  · rintro rfl
    cases b <;> rfl

theorem inverts_dimension : Inverts (dimension field) be32 fun n => n ≠ 0 ∧ n ≤ maxDimension :=
  ((inverts_u32).guard (fun n => n = 0 ∨ n > maxDimension) fun n => .badValue field n.toUInt64).congr fun n => by
    rw [true_and, not_or, gt_iff_lt, UInt32.not_lt]

theorem inverts_cursorEdge : Inverts (cursorEdge field) be16 fun n => n ≠ 0 ∧ n ≤ maxCursorEdge :=
  ((inverts_u16).guard (fun n => n = 0 ∨ n > maxCursorEdge) fun n => .badValue field n.toUInt64).congr fun n => by
    rw [true_and, not_or, gt_iff_lt, UInt16.not_lt]

theorem inverts_scale : Inverts (scale field) be16 fun n => 100 ≤ n ∧ n ≤ 10000 :=
  ((inverts_u16).guard (fun n => ¬ (100 ≤ n ∧ n ≤ 10000)) fun n => .badValue field n.toUInt64).congr fun n => by
    rw [true_and, not_not]

theorem inverts_scroll : Inverts (scroll field) beI32 fun n => -maxScroll ≤ n ∧ n ≤ maxScroll :=
  ((inverts_i32).guard (fun n => ¬ (-maxScroll ≤ n ∧ n ≤ maxScroll))
    fun n => .badValue field (UInt64.ofNat n.toInt.natAbs)).congr fun n => by rw [true_and, not_not]

theorem inverts_text {limit : Nat} (hlimit : limit < 2 ^ 16) :
    Inverts (text field limit) (fun s => be16 (UInt16.ofNat (byteLen s)) ++ utf8 s) fun s => byteLen s ≤ limit := by
  intro input value rest
  rw [text, (inverts_u16).bind_ok_iff]
  constructor
  · rintro ⟨n, middle, ⟨rfl, -⟩, h⟩
    split at h
    · cases h
    · rename_i hle
      obtain ⟨bytes, middle, hbytes, hdecode⟩ := bind_ok_iff.mp h
      obtain ⟨rfl, hlen⟩ := take_ok_iff.mp hbytes
      cases htext : fromUtf8 bytes with
      | none =>
          rw [htext] at hdecode
          cases hdecode
      | some s =>
          rw [htext] at hdecode
          obtain ⟨rfl, rfl⟩ := pure_ok_iff.mp hdecode
          have hutf8 := utf8_of_fromUtf8 htext
          subst hutf8
          have hn : UInt16.ofNat (byteLen value) = n := by
            rw [byteLen, hlen, UInt16.ofNat_toNat]
          refine ⟨?_, hlen.trans_le (Nat.le_of_not_lt hle)⟩
          change _ = be16 (UInt16.ofNat (byteLen value)) ++ utf8 value ++ rest
          rw [hn, List.append_assoc]
  · rintro ⟨rfl, hle⟩
    have hn : (UInt16.ofNat (byteLen value)).toNat = byteLen value :=
      UInt16.toNat_ofNat_of_lt' (Nat.lt_of_le_of_lt hle hlimit)
    refine ⟨_, utf8 value ++ rest, ⟨List.append_assoc .., trivial⟩, ?_⟩
    rw [hn, if_neg (Nat.not_lt.mpr hle), Scan.bind_ok_iff]
    refine ⟨utf8 value, rest, take_ok_iff.mpr ⟨rfl, rfl⟩, ?_⟩
    rw [fromUtf8_utf8]
    exact pure_ok_iff.mpr ⟨rfl, rfl⟩

theorem inverts_blob {limit : Nat} (hlimit : limit < 2 ^ 32) :
    Inverts (blob field limit) (fun bytes => be32 (UInt32.ofNat bytes.length) ++ bytes)
      fun bytes => bytes.length ≤ limit := by
  intro input value rest
  rw [blob, (inverts_u32).bind_ok_iff]
  constructor
  · rintro ⟨n, middle, ⟨rfl, -⟩, h⟩
    split at h
    · cases h
    · rename_i hle
      obtain ⟨rfl, hlen⟩ := take_ok_iff.mp h
      refine ⟨?_, hlen.trans_le (Nat.le_of_not_lt hle)⟩
      change _ = be32 (UInt32.ofNat value.length) ++ value ++ rest
      rw [hlen, UInt32.ofNat_toNat, List.append_assoc]
  · rintro ⟨rfl, hle⟩
    have hn : (UInt32.ofNat value.length).toNat = value.length :=
      UInt32.toNat_ofNat_of_lt' (Nat.lt_of_le_of_lt hle hlimit)
    refine ⟨_, value ++ rest, ⟨List.append_assoc .., trivial⟩, ?_⟩
    rw [hn, if_neg (Nat.not_lt.mpr hle)]
    exact take_ok_iff.mpr ⟨rfl, rfl⟩

theorem inverts_tileSize : Inverts tileSize (fun tile => be16 (UInt16.ofNat tile.edge)) fun _ => True := by
  have hcode : ∀ edge tile, (TileSize.new (UInt16.toNat edge)).mapError WireError.tile = .ok tile ↔
      edge = UInt16.ofNat tile.edge ∧ True := fun edge tile => by
    rw [mapError_eq_ok_iff, TileSize.new_eq_ok_iff, and_true]
  exact ((inverts_u16).decode hcode).congr fun _ => and_self_iff

theorem inverts_usage : Inverts usage (fun key => be16 (Usage.hid key)) fun _ => True := by
  have hcode : ∀ n key, (Usage.fromHid n).mapError WireError.key = .ok key ↔ n = Usage.hid key ∧ True :=
    fun n key => by rw [mapError_eq_ok_iff, fromHid_eq_ok_iff, and_true]
  exact ((inverts_u16).decode hcode).congr fun _ => and_self_iff

end

example : be16 258 = [1, 2] := by decide +kernel

/-! ## Parts of messages -/

/-- The bounds that the decoder sets for a display. -/
structure Monitor.InRange (monitor : Monitor) : Prop where
  width : monitor.width ≠ 0 ∧ monitor.width ≤ maxDimension
  height : monitor.height ≠ 0 ∧ monitor.height ≤ maxDimension
  scale : 100 ≤ monitor.scalePermille ∧ monitor.scalePermille ≤ 10000

theorem Monitor.length_encode (monitor : Monitor) : monitor.encode.length = monitorBytes := by
  simp [Monitor.encode, beI32, monitorBytes]

theorem inverts_decodeMonitor : Inverts decodeMonitor Monitor.encode Monitor.InRange := by
  intro input value rest
  rw [decodeMonitor]
  constructor
  · intro h
    simp only [(inverts_u8).bind_ok_iff, (inverts_i32).bind_ok_iff, (inverts_dimension).bind_ok_iff,
      (inverts_scale).bind_ok_iff, (inverts_flag).bind_ok_iff, pure_ok_iff] at h
    obtain ⟨id, _, ⟨rfl, -⟩, x, _, ⟨rfl, -⟩, y, _, ⟨rfl, -⟩, width, _, ⟨rfl, hwidth⟩, height, _, ⟨rfl, hheight⟩,
      scale, _, ⟨rfl, hscale⟩, primary, _, ⟨rfl, -⟩, rfl, rfl⟩ := h
    exact ⟨by simp only [Monitor.encode, List.append_assoc], hwidth, hheight, hscale⟩
  · rintro ⟨rfl, hmonitor⟩
    simp only [Monitor.encode, List.append_assoc]
    rw [(inverts_u8).run_bind trivial, (inverts_i32).run_bind trivial, (inverts_i32).run_bind trivial,
      (inverts_dimension).run_bind hmonitor.width, (inverts_dimension).run_bind hmonitor.height,
      (inverts_scale).run_bind hmonitor.scale, (inverts_flag).run_bind trivial]
    rfl

theorem inverts_decodeMonitors : Inverts decodeMonitors
    (fun monitors => [UInt8.ofNat monitors.length] ++ monitors.flatMap Monitor.encode)
    fun monitors => monitors.length ≤ maxMonitors ∧ ∀ monitor ∈ monitors, monitor.InRange := by
  intro input value rest
  rw [decodeMonitors, (inverts_u8).bind_ok_iff]
  constructor
  · rintro ⟨n, middle, ⟨rfl, -⟩, h⟩
    split at h
    · cases h
    · rename_i hcount
      change (if _ then _ else _ : Scan WireError (List Monitor)).run middle = _ at h
      split at h
      · cases h
      · obtain ⟨rfl, hlen, hrange⟩ := ((inverts_decodeMonitor).times n.toNat _ _ _).mp h
        refine ⟨?_, hlen.trans_le (Nat.le_of_not_lt hcount), hrange⟩
        change _ = [UInt8.ofNat value.length] ++ value.flatMap Monitor.encode ++ rest
        rw [hlen, UInt8.ofNat_toNat, List.append_assoc]
  · rintro ⟨rfl, hle, hrange⟩
    have hn : (UInt8.ofNat value.length).toNat = value.length :=
      UInt8.toNat_ofNat_of_lt' (Nat.lt_of_le_of_lt hle (by decide))
    refine ⟨_, value.flatMap Monitor.encode ++ rest, ⟨List.append_assoc .., trivial⟩, ?_⟩
    have hsize : (value.flatMap Monitor.encode).length = value.length * monitorBytes := by
      rw [List.length_flatMap, List.map_congr_left fun monitor _ => monitor.length_encode]
      simp
    rw [hn, if_neg (Nat.not_lt.mpr hle)]
    change (if _ then _ else _ : Scan WireError (List Monitor)).run _ = _
    rw [if_neg (by rw [List.length_append, hsize]; omega)]
    exact ((inverts_decodeMonitor).times _ _ _ _).mpr ⟨rfl, rfl, hrange⟩

/-- What is written of a greeting. -/
def Hello.encode (hello : Hello) : Bytes :=
  be16 hello.protocol ++ be16 (UInt16.ofNat hello.tile.edge) ++ [hello.maxFps] ++ [hello.capabilities.bits] ++
    [UInt8.ofNat hello.monitors.length] ++ hello.monitors.flatMap Monitor.encode

structure Hello.InRange (hello : Hello) : Prop where
  capabilities : hello.capabilities.Coherent
  monitors : ∀ monitor ∈ hello.monitors, monitor.InRange

theorem inverts_decodeHello :
    Inverts decodeHello Hello.encode fun hello => hello.monitors.length ≤ maxMonitors ∧ hello.InRange := by
  have hcaps := @inverts_coded "hello.capabilities" _ _ _ _ @Capabilities.fromBits_eq_some_iff
  intro input value rest
  rw [decodeHello]
  constructor
  · intro h
    simp only [(inverts_u16).bind_ok_iff, (inverts_tileSize).bind_ok_iff, (inverts_u8).bind_ok_iff, hcaps.bind_ok_iff,
      (inverts_decodeMonitors).bind_ok_iff, pure_ok_iff] at h
    obtain ⟨protocol, _, ⟨rfl, -⟩, tile, _, ⟨rfl, -⟩, fps, _, ⟨rfl, -⟩, set, _, ⟨rfl, hset⟩, monitors, _,
      ⟨rfl, hcount, hmonitors⟩, rfl, rfl⟩ := h
    exact ⟨by simp only [Hello.encode, List.append_assoc], hcount, hset, hmonitors⟩
  · rintro ⟨rfl, hcount, hhello⟩
    simp only [Hello.encode, List.append_assoc]
    rw [← List.append_assoc [_] (List.flatMap _ _)]
    rw [(inverts_u16).run_bind trivial, (inverts_tileSize).run_bind trivial, (inverts_u8).run_bind trivial,
      hcaps.run_bind hhello.capabilities, (inverts_decodeMonitors).run_bind ⟨hcount, hhello.monitors⟩]
    rfl

def TileMessage.encode (tile : TileMessage) : Bytes :=
  [tile.monitor] ++ be16 tile.col ++ be16 tile.row ++ [tile.encoding.code] ++
    be32 (UInt32.ofNat tile.payload.length) ++ tile.payload

theorem inverts_decodeTileMessage :
    Inverts decodeTileMessage TileMessage.encode fun tile => tile.payload.length ≤ maxMessage := by
  have hencoding := @inverts_coded "tile.encoding" _ Encoding.fromCode Encoding.code (fun _ => True) fun n a => by
    rw [and_true, Encoding.fromCode_eq_some_iff]
  have hblob := @inverts_blob "tile.payload" maxMessage (by decide)
  intro input value rest
  rw [decodeTileMessage]
  constructor
  · intro h
    simp only [(inverts_u8).bind_ok_iff, (inverts_u16).bind_ok_iff, hencoding.bind_ok_iff, hblob.bind_ok_iff,
      pure_ok_iff] at h
    obtain ⟨monitor, _, ⟨rfl, -⟩, col, _, ⟨rfl, -⟩, row, _, ⟨rfl, -⟩, encoding, _, ⟨rfl, -⟩, payload, _,
      ⟨rfl, hpayload⟩, rfl, rfl⟩ := h
    exact ⟨by simp only [TileMessage.encode, List.append_assoc], hpayload⟩
  · rintro ⟨rfl, hpayload⟩
    simp only [TileMessage.encode, List.append_assoc]
    rw [← List.append_assoc (be32 _) value.payload, (inverts_u8).run_bind trivial, (inverts_u16).run_bind trivial,
      (inverts_u16).run_bind trivial, hencoding.run_bind trivial, hblob.run_bind hpayload]
    rfl

def CursorShape.encode (shape : CursorShape) : Bytes :=
  be64 shape.shape ++ be16 shape.hotspotX ++ be16 shape.hotspotY ++ be16 shape.width ++ be16 shape.height ++
    be32 (UInt32.ofNat shape.pixels.length) ++ shape.pixels

/-- The bounds that the decoder sets for a cursor. -/
structure CursorShape.InRange (shape : CursorShape) : Prop where
  width : shape.width ≠ 0 ∧ shape.width ≤ maxCursorEdge
  height : shape.height ≠ 0 ∧ shape.height ≤ maxCursorEdge
  pixels : shape.pixels.length = shape.width.toNat * shape.height.toNat * 4
  hotspot : shape.hotspotX < shape.width ∧ shape.hotspotY < shape.height

theorem inverts_decodeCursorShape : Inverts decodeCursorShape CursorShape.encode
    fun shape => shape.pixels.length ≤ maxMessage ∧ shape.InRange := by
  have hblob := @inverts_blob "cursor.pixels" maxMessage (by decide)
  intro input value rest
  rw [decodeCursorShape]
  constructor
  · intro h
    simp only [(inverts_u64).bind_ok_iff, (inverts_u16).bind_ok_iff, (inverts_cursorEdge).bind_ok_iff,
      hblob.bind_ok_iff] at h
    obtain ⟨shape, _, ⟨rfl, -⟩, x, _, ⟨rfl, -⟩, y, _, ⟨rfl, -⟩, width, _, ⟨rfl, hwidth⟩, height, _, ⟨rfl, hheight⟩,
      pixels, _, ⟨rfl, hpixels⟩, h⟩ := h
    split at h
    · cases h
    · rename_i hsize
      split at h
      · cases h
      · rename_i hhotspot
        rw [not_or, ge_iff_le, ge_iff_le, UInt16.not_le, UInt16.not_le] at hhotspot
        obtain ⟨rfl, rfl⟩ := pure_ok_iff.mp h
        exact ⟨by simp only [CursorShape.encode, List.append_assoc], hpixels, hwidth, hheight, not_not.mp hsize,
          hhotspot⟩
  · rintro ⟨rfl, hpixels, hshape⟩
    simp only [CursorShape.encode, List.append_assoc]
    rw [← List.append_assoc (be32 _) value.pixels, (inverts_u64).run_bind trivial, (inverts_u16).run_bind trivial,
      (inverts_u16).run_bind trivial, (inverts_cursorEdge).run_bind hshape.width, (inverts_cursorEdge).run_bind hshape.height,
      hblob.run_bind hpixels, if_neg (not_not.mpr hshape.pixels), if_neg]
    · rfl
    · rw [not_or, ge_iff_le, ge_iff_le, UInt16.not_le, UInt16.not_le]
      exact hshape.hotspot

/-! ## Lengths and clipped texts -/

theorem monitorCount_eq_ok_iff {count : Nat} {n : UInt8} :
    monitorCount count = .ok n ↔ count ≤ maxMonitors ∧ n = UInt8.ofNat count := by
  rw [monitorCount]
  split
  · rename_i h
    rw [Except.ok.injEq]
    exact ⟨fun heq => ⟨h.2, heq.symm⟩, fun heq => heq.2.symm⟩
  · rename_i h
    refine iff_of_false nofun fun hle => h ⟨Nat.lt_of_le_of_lt hle.1 (by decide), hle.1⟩

theorem lengthU16_eq_ok_iff {field : String} {length : Nat} {n : UInt16} :
    lengthU16 field length = .ok n ↔ length < 2 ^ 16 ∧ n = UInt16.ofNat length := by
  rw [lengthU16]
  split
  · rename_i h
    rw [Except.ok.injEq]
    exact ⟨fun heq => ⟨h, heq.symm⟩, fun heq => heq.2.symm⟩
  · rename_i h
    exact iff_of_false nofun fun hlt => h hlt.1

theorem lengthU32_eq_ok_iff {field : String} {length : Nat} {n : UInt32} :
    lengthU32 field length = .ok n ↔ length ≤ maxMessage ∧ n = UInt32.ofNat length := by
  rw [lengthU32]
  split
  · rename_i h
    rw [Except.ok.injEq]
    exact ⟨fun heq => ⟨h.2, heq.symm⟩, fun heq => heq.2.symm⟩
  · rename_i h
    exact iff_of_false nofun fun hle => h ⟨Nat.lt_of_le_of_lt hle.1 (by decide), hle.1⟩

/-- The longest start of a text that has at most so many bytes. -/
@[grind =] def clip : Nat → Str → Str
  | _, [] => []
  | limit, c :: text => if c.utf8Size ≤ limit then c :: clip (limit - c.utf8Size) text else []

theorem clip_of_fits {limit : Nat} {text : Str} (h : byteLen text ≤ limit) : clip limit text = text := by
  induction text generalizing limit with
  | nil => rfl
  | cons c text ih =>
      rw [byteLen_cons] at h
      rw [clip, if_pos (by omega), ih (by omega)]

theorem byteLen_clip_le (limit : Nat) (text : Str) : byteLen (clip limit text) ≤ limit := by
  induction text generalizing limit with
  | nil => exact Nat.zero_le _
  | cons c text ih =>
      rw [clip]
      split
      · rename_i hc
        have := ih (limit - c.utf8Size)
        rw [byteLen_cons]
        omega
      · exact Nat.zero_le _

theorem clip_prefix (limit : Nat) (text : Str) : clip limit text <+: text := by
  induction text generalizing limit with
  | nil => exact List.prefix_rfl
  | cons c text ih =>
      rw [clip]
      split
      · exact (List.prefix_cons_inj c).mpr (ih _)
      · exact List.nil_prefix

/-- No boundary of a character lies between the clipped text and the limit. -/
theorem byteLen_clip_ge {limit : Nat} {head tail : Str} (h : byteLen head ≤ limit) :
    byteLen head ≤ byteLen (clip limit (head ++ tail)) := by
  induction head generalizing limit with
  | nil => exact Nat.zero_le _
  | cons c head ih =>
      rw [byteLen_cons] at h
      rw [List.cons_append, clip, if_pos (by omega), byteLen_cons, byteLen_cons]
      have := @ih (limit - c.utf8Size) (by omega)
      omega

theorem clampEnd_eq (text : Str) (limit : Nat) : clampEnd text limit = byteLen (clip limit text) := by
  induction limit with
  | zero => exact (Nat.le_zero.mp (byteLen_clip_le 0 text)).symm
  | succ limit ih =>
      obtain ⟨tail, htail⟩ := clip_prefix (limit + 1) text
      have hle := byteLen_clip_le (limit + 1) text
      rw [clampEnd]
      split
      · rename_i hsome
        obtain ⟨⟨head, rest⟩, hsplit⟩ := Option.isSome_iff_exists.mp hsome
        obtain ⟨rfl, hlen⟩ := splitAtByte_eq_some_iff.mp hsplit
        have := @byteLen_clip_ge (limit + 1) head rest (Nat.le_of_eq hlen)
        omega
      · rename_i hnone
        have hne : byteLen (clip (limit + 1) text) ≠ limit + 1 := fun heq =>
          hnone (Option.isSome_iff_exists.mpr ⟨_, splitAtByte_eq_some_iff.mpr ⟨htail.symm, heq⟩⟩)
        obtain ⟨tail', htail'⟩ := clip_prefix limit text
        have h₁ := @byteLen_clip_ge limit (clip (limit + 1) text) tail (by omega)
        have h₂ := @byteLen_clip_ge (limit + 1) (clip limit text) tail'
          (Nat.le_succ_of_le (byteLen_clip_le limit text))
        rw [htail] at h₁
        rw [htail'] at h₂
        omega

theorem clampUtf8_eq (text : Str) (limit : Nat) : clampUtf8 text limit = utf8 (clip limit text) := by
  rw [clampUtf8]
  split
  · rename_i h
    rw [clip_of_fits h]
  · obtain ⟨tail, htail⟩ := clip_prefix limit text
    have hutf8 : utf8 text = utf8 (clip limit text) ++ utf8 tail := by rw [← utf8_append, htail]
    rw [clampEnd_eq, hutf8, byteLen, List.take_left' rfl]

theorem length_clampUtf8_le (text : Str) (limit : Nat) : (clampUtf8 text limit).length ≤ limit := by
  rw [clampUtf8_eq]
  exact byteLen_clip_le limit text

example : clip 2 ['a', 'é'] = ['a'] := by decide +kernel

/-! ## Messages -/

/-- The decoder's bounds on the fields that the encoder writes as they are. -/
def Message.InRange : Message → Prop
  | .hello opening => opening.InRange
  | .frameBegin frame =>
      (frame.width ≠ 0 ∧ frame.width ≤ maxDimension) ∧ frame.height ≠ 0 ∧ frame.height ≤ maxDimension
  | .cursorShape shape => shape.InRange
  | .scroll dx dy => (-maxScroll ≤ dx ∧ dx ≤ maxScroll) ∧ -maxScroll ≤ dy ∧ dy ≤ maxScroll
  | _ => True

/-- No text is over its ceiling. -/
def Message.Fits : Message → Prop
  | .status _ detail => byteLen detail ≤ maxDetailBytes
  | .text content => byteLen content ≤ maxTextBytes
  | _ => True

theorem body_hello_iff {hello : Hello} {out : Bytes} :
    (Message.hello hello).body = .ok out ↔ hello.monitors.length ≤ maxMonitors ∧ out = hello.encode := by
  change Except.bind (monitorCount _) _ = _ ↔ _
  simp only [bind_eq_ok_iff, monitorCount_eq_ok_iff]
  constructor
  · rintro ⟨n, ⟨hle, rfl⟩, h⟩
    cases h
    exact ⟨hle, rfl⟩
  · rintro ⟨hle, rfl⟩
    exact ⟨_, ⟨hle, rfl⟩, rfl⟩

theorem body_tile_iff {tile : TileMessage} {out : Bytes} :
    (Message.tile tile).body = .ok out ↔ tile.payload.length ≤ maxMessage ∧ out = tile.encode := by
  change Except.bind (lengthU32 _ _) _ = _ ↔ _
  simp only [bind_eq_ok_iff, lengthU32_eq_ok_iff]
  constructor
  · rintro ⟨n, ⟨hle, rfl⟩, h⟩
    cases h
    exact ⟨hle, rfl⟩
  · rintro ⟨hle, rfl⟩
    exact ⟨_, ⟨hle, rfl⟩, rfl⟩

theorem body_cursorShape_iff {shape : CursorShape} {out : Bytes} :
    (Message.cursorShape shape).body = .ok out ↔ shape.pixels.length ≤ maxMessage ∧ out = shape.encode := by
  change Except.bind (lengthU32 _ _) _ = _ ↔ _
  simp only [bind_eq_ok_iff, lengthU32_eq_ok_iff]
  constructor
  · rintro ⟨n, ⟨hle, rfl⟩, h⟩
    cases h
    exact ⟨hle, rfl⟩
  · rintro ⟨hle, rfl⟩
    exact ⟨_, ⟨hle, rfl⟩, rfl⟩

theorem body_status (notice : Notice) (detail : Str) : (Message.status notice detail).body =
    .ok ([notice.code] ++ be16 (UInt16.ofNat (byteLen (clip maxDetailBytes detail))) ++
      utf8 (clip maxDetailBytes detail)) := by
  have hle := length_clampUtf8_le detail maxDetailBytes
  change Except.bind (lengthU16 _ (clampUtf8 detail maxDetailBytes).length) _ = _
  rw [(lengthU16_eq_ok_iff).mpr ⟨Nat.lt_of_le_of_lt hle (by decide), rfl⟩, ← clampUtf8_eq, byteLen, ← clampUtf8_eq]
  rfl

theorem body_text (text : Str) : (Message.text text).body =
    .ok (be16 (UInt16.ofNat (byteLen (clip maxTextBytes text))) ++ utf8 (clip maxTextBytes text)) := by
  have hle := length_clampUtf8_le text maxTextBytes
  change Except.bind (lengthU16 _ (clampUtf8 text maxTextBytes).length) _ = _
  rw [(lengthU16_eq_ok_iff).mpr ⟨Nat.lt_of_le_of_lt hle (by decide), rfl⟩, byteLen, ← clampUtf8_eq]
  rfl

/-- The fields of a message are read back from what is written of them, and only they. -/
theorem decodeBody_iff {kind : UInt8} {input rest : Bytes} {message : Message} :
    (decodeBody kind).run input = .ok (message, rest) ↔
      (∃ out, message.body = .ok out ∧ input = out ++ rest) ∧ message.kind = kind ∧ message.InRange ∧ message.Fits := by
  have hnotice := @inverts_coded "status.notice" _ Notice.fromCode Notice.code (fun _ => True) fun n a => by
    rw [and_true, Notice.fromCode_eq_some_iff]
  have hreason := @inverts_coded "refusal.reason" _ Refusal.fromCode Refusal.code (fun _ => True) fun n a => by
    rw [and_true, Refusal.fromCode_eq_some_iff]
  have hbutton := @inverts_coded "button.code" _ Button.fromCode Button.code (fun _ => True) fun n a => by
    rw [and_true, Button.fromCode_eq_some_iff]
  have hdetail := @inverts_text "status.detail" maxDetailBytes (by decide)
  have htext := @inverts_text "text.body" maxTextBytes (by decide)
  constructor
  · intro h
    unfold decodeBody at h
    split at h
    · simp only [(inverts_decodeHello).bind_ok_iff, pure_ok_iff] at h
      obtain ⟨hello, _, ⟨rfl, hcount, hrange⟩, rfl, rfl⟩ := h
      exact ⟨⟨_, (body_hello_iff).mpr ⟨hcount, rfl⟩, rfl⟩, rfl, hrange, trivial⟩
    · simp only [hnotice.bind_ok_iff, hdetail.bind_ok_iff, pure_ok_iff] at h
      obtain ⟨notice, _, ⟨rfl, -⟩, detail, _, ⟨rfl, hfits⟩, rfl, rfl⟩ := h
      refine ⟨⟨_, body_status notice detail, ?_⟩, rfl, trivial, hfits⟩
      rw [clip_of_fits hfits]
      simp only [List.append_assoc]
    · simp only [(inverts_u8).bind_ok_iff, (inverts_u64).bind_ok_iff, (inverts_dimension).bind_ok_iff,
        (inverts_flag).bind_ok_iff, pure_ok_iff] at h
      obtain ⟨monitor, _, ⟨rfl, -⟩, sequence, _, ⟨rfl, -⟩, width, _, ⟨rfl, hwidth⟩, height, _, ⟨rfl, hheight⟩,
        keyframe, _, ⟨rfl, -⟩, rfl, rfl⟩ := h
      exact ⟨⟨_, rfl, by simp only [List.append_assoc]⟩, rfl, ⟨hwidth, hheight⟩, trivial⟩
    · simp only [(inverts_decodeTileMessage).bind_ok_iff, pure_ok_iff] at h
      obtain ⟨tile, _, ⟨rfl, hpayload⟩, rfl, rfl⟩ := h
      exact ⟨⟨_, (body_tile_iff).mpr ⟨hpayload, rfl⟩, rfl⟩, rfl, trivial, trivial⟩
    · simp only [(inverts_u64).bind_ok_iff, pure_ok_iff] at h
      obtain ⟨sequence, _, ⟨rfl, -⟩, rfl, rfl⟩ := h
      exact ⟨⟨_, rfl, rfl⟩, rfl, trivial, trivial⟩
    · simp only [(inverts_i32).bind_ok_iff, (inverts_flag).bind_ok_iff, pure_ok_iff] at h
      obtain ⟨x, _, ⟨rfl, -⟩, y, _, ⟨rfl, -⟩, visible, _, ⟨rfl, -⟩, rfl, rfl⟩ := h
      exact ⟨⟨_, rfl, by simp only [List.append_assoc]⟩, rfl, trivial, trivial⟩
    · simp only [(inverts_decodeCursorShape).bind_ok_iff, pure_ok_iff] at h
      obtain ⟨shape, _, ⟨rfl, hpixels, hrange⟩, rfl, rfl⟩ := h
      exact ⟨⟨_, (body_cursorShape_iff).mpr ⟨hpixels, rfl⟩, rfl⟩, rfl, hrange, trivial⟩
    · simp only [hreason.bind_ok_iff, pure_ok_iff] at h
      obtain ⟨reason, _, ⟨rfl, -⟩, rfl, rfl⟩ := h
      exact ⟨⟨_, rfl, rfl⟩, rfl, trivial, trivial⟩
    · simp only [(inverts_usage).bind_ok_iff, (inverts_flag).bind_ok_iff, pure_ok_iff] at h
      obtain ⟨key, _, ⟨rfl, -⟩, down, _, ⟨rfl, -⟩, rfl, rfl⟩ := h
      exact ⟨⟨_, rfl, by simp only [List.append_assoc]⟩, rfl, trivial, trivial⟩
    · simp only [htext.bind_ok_iff, pure_ok_iff] at h
      obtain ⟨text, _, ⟨rfl, hfits⟩, rfl, rfl⟩ := h
      refine ⟨⟨_, body_text text, ?_⟩, rfl, trivial, hfits⟩
      rw [clip_of_fits hfits]
    · simp only [(inverts_u8).bind_ok_iff, (inverts_i32).bind_ok_iff, pure_ok_iff] at h
      obtain ⟨monitor, _, ⟨rfl, -⟩, x, _, ⟨rfl, -⟩, y, _, ⟨rfl, -⟩, rfl, rfl⟩ := h
      exact ⟨⟨_, rfl, by simp only [List.append_assoc]⟩, rfl, trivial, trivial⟩
    · simp only [hbutton.bind_ok_iff, (inverts_flag).bind_ok_iff, pure_ok_iff] at h
      obtain ⟨button, _, ⟨rfl, -⟩, down, _, ⟨rfl, -⟩, rfl, rfl⟩ := h
      exact ⟨⟨_, rfl, by simp only [List.append_assoc]⟩, rfl, trivial, trivial⟩
    · simp only [(inverts_scroll).bind_ok_iff, pure_ok_iff] at h
      obtain ⟨dx, _, ⟨rfl, hdx⟩, dy, _, ⟨rfl, hdy⟩, rfl, rfl⟩ := h
      exact ⟨⟨_, rfl, by simp only [List.append_assoc]⟩, rfl, ⟨hdx, hdy⟩, trivial⟩
    · obtain ⟨rfl, rfl⟩ := pure_ok_iff.mp h
      exact ⟨⟨_, rfl, rfl⟩, rfl, trivial, trivial⟩
    · simp only [(inverts_u8).bind_ok_iff, pure_ok_iff] at h
      obtain ⟨monitor, _, ⟨rfl, -⟩, rfl, rfl⟩ := h
      exact ⟨⟨_, rfl, rfl⟩, rfl, trivial, trivial⟩
    · simp only [(inverts_u32).bind_ok_iff, pure_ok_iff] at h
      obtain ⟨bytes, _, ⟨rfl, -⟩, rfl, rfl⟩ := h
      exact ⟨⟨_, rfl, rfl⟩, rfl, trivial, trivial⟩
    · cases h
  · rintro ⟨⟨out, hbody, rfl⟩, rfl, hrange, hfits⟩
    cases message with
    | hello hello =>
        obtain ⟨hcount, rfl⟩ := (body_hello_iff).mp hbody
        exact ((inverts_decodeHello).run_bind ⟨hcount, hrange⟩).trans rfl
    | status notice detail =>
        rw [body_status, clip_of_fits hfits, List.append_assoc] at hbody
        cases hbody
        change (coded _ _ >>= _).run _ = _
        rw [List.append_assoc, hnotice.run_bind trivial, hdetail.run_bind hfits]
        rfl
    | frameBegin frame =>
        cases hbody
        change (u8 _ >>= _).run _ = _
        simp only [List.append_assoc]
        rw [(inverts_u8).run_bind trivial, (inverts_u64).run_bind trivial, (inverts_dimension).run_bind hrange.1,
          (inverts_dimension).run_bind hrange.2, (inverts_flag).run_bind trivial]
        rfl
    | tile tile =>
        obtain ⟨hpayload, rfl⟩ := (body_tile_iff).mp hbody
        exact ((inverts_decodeTileMessage).run_bind hpayload).trans rfl
    | frameEnd sequence =>
        cases hbody
        exact ((inverts_u64).run_bind trivial).trans rfl
    | cursorPos cursor =>
        cases hbody
        change (i32 _ >>= _).run _ = _
        simp only [List.append_assoc]
        rw [(inverts_i32).run_bind trivial, (inverts_i32).run_bind trivial, (inverts_flag).run_bind trivial]
        rfl
    | cursorShape shape =>
        obtain ⟨hpixels, rfl⟩ := (body_cursorShape_iff).mp hbody
        exact ((inverts_decodeCursorShape).run_bind ⟨hpixels, hrange⟩).trans rfl
    | inputRefused reason =>
        cases hbody
        exact (hreason.run_bind trivial).trans rfl
    | key key down =>
        cases hbody
        change (usage >>= _).run _ = _
        rw [List.append_assoc, (inverts_usage).run_bind trivial, (inverts_flag).run_bind trivial]
        rfl
    | text text =>
        rw [body_text, clip_of_fits hfits] at hbody
        cases hbody
        exact (htext.run_bind hfits).trans rfl
    | pointerMove monitor x y =>
        cases hbody
        change (u8 _ >>= _).run _ = _
        simp only [List.append_assoc]
        rw [(inverts_u8).run_bind trivial, (inverts_i32).run_bind trivial, (inverts_i32).run_bind trivial]
        rfl
    | button button down =>
        cases hbody
        change (coded _ _ >>= _).run _ = _
        rw [List.append_assoc, hbutton.run_bind trivial, (inverts_flag).run_bind trivial]
        rfl
    | scroll dx dy =>
        cases hbody
        change (scroll _ >>= _).run _ = _
        rw [List.append_assoc, (inverts_scroll).run_bind hrange.1, (inverts_scroll).run_bind hrange.2]
        rfl
    | releaseAll =>
        cases hbody
        rfl
    | requestFullFrame monitor =>
        cases hbody
        exact ((inverts_u8).run_bind trivial).trans rfl
    | credit bytes =>
        cases hbody
        exact ((inverts_u32).run_bind trivial).trans rfl

/-- A message without its texts' ends past their ceilings. -/
def Message.clipped : Message → Message
  | .status notice detail => .status notice (clip maxDetailBytes detail)
  | .text content => .text (clip maxTextBytes content)
  | message => message

theorem encode_eq_ok_iff {message : Message} {bytes : Bytes} : message.encode = .ok bytes ↔
    ∃ body, message.body = .ok body ∧ bytes = message.kind :: body ∧ bytes.length ≤ maxMessage := by
  change Except.bind _ _ = _ ↔ _
  rw [bind_eq_ok_iff]
  constructor
  · rintro ⟨body, hbody, h⟩
    dsimp only at h
    split at h
    · cases h
    · rename_i hle
      cases h
      exact ⟨body, hbody, rfl, Nat.le_of_not_lt hle⟩
  · rintro ⟨body, hbody, rfl, hle⟩
    refine ⟨body, hbody, ?_⟩
    dsimp only
    rw [if_neg (Nat.not_lt.mpr hle)]
    rfl

/-- What is decoded are the bytes of a message within the bounds and without a clipped text, and of no other. -/
theorem decode_eq_ok_iff {bytes : Bytes} {message : Message} :
    decode bytes = .ok message ↔ message.encode = .ok bytes ∧ message.InRange ∧ message.Fits := by
  rw [encode_eq_ok_iff]
  unfold decode
  constructor
  · intro h
    split at h
    · cases h
    · rename_i hle
      cases bytes with
      | nil => cases h
      | cons kind body =>
          dsimp only at h
          split at h
          · cases h
          · rename_i hrun
            cases h
            obtain ⟨⟨out, hbody, hout⟩, rfl, hrange, hfits⟩ := (decodeBody_iff).mp hrun
            rw [List.append_nil] at hout
            exact ⟨⟨out, hbody, by rw [hout], Nat.le_of_not_lt hle⟩, hrange, hfits⟩
          · cases h
  · rintro ⟨⟨body, hbody, rfl, hle⟩, hrange, hfits⟩
    rw [if_neg (Nat.not_lt.mpr hle)]
    dsimp only
    rw [(decodeBody_iff).mpr ⟨⟨body, hbody, (List.append_nil body).symm⟩, rfl, hrange, hfits⟩]

theorem clip_clip (limit : Nat) (text : Str) : clip limit (clip limit text) = clip limit text :=
  clip_of_fits (byteLen_clip_le limit text)

theorem encode_clipped (message : Message) : message.clipped.encode = message.encode := by
  cases message with
  | status notice detail =>
      have hbody : (Message.status notice (clip maxDetailBytes detail)).body = (Message.status notice detail).body := by
        rw [body_status, body_status, clip_clip]
      rw [Message.clipped, Message.encode, hbody, Message.encode]
      rfl
  | text text =>
      have hbody : (Message.text (clip maxTextBytes text)).body = (Message.text text).body := by
        rw [body_text, body_text, clip_clip]
      rw [Message.clipped, Message.encode, hbody, Message.encode]
      rfl
  | _ => rfl

theorem inRange_clipped (message : Message) : message.clipped.InRange ↔ message.InRange := by
  cases message <;> rfl

theorem fits_clipped (message : Message) : message.clipped.Fits := by
  cases message with
  | status notice detail => exact byteLen_clip_le _ detail
  | text text => exact byteLen_clip_le _ text
  | _ => trivial

/-! ## The messages of a stream -/

/-- The message as the viewer's loop and the client's picture know it. -/
def Message.streamed : Message → Desk.Message
  | .hello _ => .hello
  | .status notice _ => .status notice
  | .frameBegin frame =>
      .frameBegin ⟨frame.monitor, frame.sequence, frame.width.toNat, frame.height.toNat, frame.keyframe⟩
  | .tile update => .tile update.monitor ⟨⟨update.col.toNat, update.row.toNat⟩, update.encoding, update.payload⟩
  | .frameEnd sequence => .frameEnd sequence
  | .cursorPos cursor => .cursorPos cursor.x.toInt cursor.y.toInt cursor.visible
  | .cursorShape shape =>
      .cursorShape shape.shape ⟨shape.hotspotX, shape.hotspotY, shape.width, shape.height, shape.pixels⟩
  | .inputRefused reason => .inputRefused reason
  | .key usage down => .key usage down
  | .text content => .text content
  | .pointerMove monitor x y => .pointerMove monitor x.toInt y.toInt
  | .button which down => .button which down
  | .scroll dx dy => .scroll dx.toInt dy.toInt
  | .releaseAll => .releaseAll
  | .requestFullFrame monitor => .requestFullFrame monitor
  | .credit bytes => .credit bytes

/-- The relay, which looks at the kind alone, sees which way a message travels. -/
theorem isToViewer_kind (message : Message) : isToViewer message.kind = !message.streamed.isToAgent := by
  cases message <;> rfl

/-- What a message costs of the client's window is what it takes up on the wire. -/
theorem length_encode {bytes : Bytes} {message : Message} (h : message.encode = .ok bytes)
    (hcharged : message.streamed.encodedLen ≠ 0) : bytes.length = message.streamed.encodedLen := by
  obtain ⟨body, hbody, rfl, -⟩ := (encode_eq_ok_iff).mp h
  cases message with
  | tile tile =>
      obtain ⟨-, rfl⟩ := (body_tile_iff).mp hbody
      simp only [TileMessage.encode, Message.streamed, Desk.Message.encodedLen, List.length_cons, List.length_append,
        length_be16, length_be32, List.length_nil]
      omega
  | cursorPos cursor =>
      cases hbody
      rfl
  | cursorShape shape =>
      obtain ⟨-, rfl⟩ := (body_cursorShape_iff).mp hbody
      simp only [CursorShape.encode, Message.streamed, Desk.Message.encodedLen, List.length_cons, List.length_append,
        length_be16, length_be32, be64]
      omega
  | _ => exact absurd rfl hcharged

/-- Whatever is decoded has no other encoding. -/
theorem one_encoding {bytes : Bytes} {message : Message} (h : decode bytes = .ok message) :
    message.encode = .ok bytes := ((decode_eq_ok_iff).mp h).1

theorem one_encoding_scroll : (Message.scroll 3 (-120)).encode = .ok [0x44, 0, 0, 0, 3, 0xFF, 0xFF, 0xFF, 0x88] :=
  one_encoding (by rfl)

/-- What is encoded is decoded, with its texts clipped, exactly when no field is out of the bounds that only the decoder
checks. -/
theorem encoded_decodes_iff {bytes : Bytes} {message : Message} (h : message.encode = .ok bytes) :
    decode bytes = .ok message.clipped ↔ message.InRange := by
  rw [decode_eq_ok_iff, encode_clipped, inRange_clipped]
  exact ⟨fun hok => hok.2.1, fun hrange => ⟨h, hrange, fits_clipped message⟩⟩

/-- The greeting of a machine with one display. -/
def sampleHello : Hello := ⟨1, ⟨64, by decide⟩, 30, ⟨3⟩, [⟨0, 0, -1080, 1920, 1080, 1000, true⟩]⟩

theorem encoded_decodes_hello : ∃ bytes, (Message.hello sampleHello).encode = .ok bytes ∧
    decode bytes = .ok (.hello sampleHello) := by
  have hrange : sampleHello.InRange := by
    refine ⟨⟨rfl, Or.inr rfl⟩, ?_⟩
    intro monitor hmonitor
    rw [List.mem_singleton.mp hmonitor]
    exact ⟨by decide, by decide, by decide⟩
  have hmessage : (Message.hello sampleHello).InRange := hrange
  exact ⟨_, rfl, (encoded_decodes_iff rfl).mpr hmessage⟩

/-- A wheel that turned further than the decoder allows is encoded all the same. -/
theorem encoded_refused : ∃ bytes, (Message.scroll 120001 0).encode = .ok bytes ∧
    decode bytes = .error (.badValue "scroll.dx" 120001) :=
  ⟨_, rfl, rfl⟩

end Wire

end Selfhost.Desk
