import Agilex.Imu.Packet
import Agilex.Lib.Binary64
import Agilex.Lib.Traced
import Agilex.Lib.Words

/-!
# The items of an IMU packet

`on_data_received` walks over the items of a payload by their tags and stores what they carry in two global variables. A
`float` is its 32 bits: copied from the payload, or rounded from a quotient (`floatDiv`). Every access to `buf` and to the
array of `receive_gwsol` is listed; one outside the array is a fault, and nothing is known of what comes after it.
-/

namespace Agilex.Imu

open Agilex.Lib

/-- `MAX_LENGTH`. -/
def maxLength : ℕ := 16

/-! ## Tags and bits -/

/-- `ItemID_t`, less `kItemEnd`, which the switch does not name. -/
inductive ItemID where
  | id | accRaw | gyrRaw | gyrRawYunjing | magRaw | rotationEul | rotationQuat | pressure | imusol | gwsol
  deriving DecidableEq, Repr

def ItemID.code : ItemID → UInt8
  | .id => 0x90
  | .accRaw => 0xA0
  | .gyrRaw => 0xB0
  | .gyrRawYunjing => 0xB1
  | .magRaw => 0xC0
  | .rotationEul => 0xD0
  | .rotationQuat => 0xD1
  | .pressure => 0xF0
  | .imusol => 0x91
  | .gwsol => 0x62

/-- The case of the switch a tag selects; `none` for `default`. -/
def ItemID.ofCode (tag : UInt8) : Option ItemID :=
  [id, accRaw, gyrRaw, gyrRawYunjing, magRaw, rotationEul, rotationQuat, pressure, imusol, gwsol].find? (·.code = tag)

@[simp] theorem ItemID.ofCode_code (i : ItemID) : ofCode i.code = some i := by cases i <;> rfl

def bitValidId : UInt8 := 0x01
def bitValidAcc : UInt8 := 0x02
def bitValidGyr : UInt8 := 0x04
def bitValidMag : UInt8 := 0x08
def bitValidEul : UInt8 := 0x10
def bitValidQuat : UInt8 := 0x20
def bitValidTimes : UInt8 := 0x40

def bitValidAll : UInt8 :=
  bitValidQuat ||| bitValidEul ||| bitValidMag ||| bitValidGyr ||| bitValidAcc ||| bitValidId ||| bitValidTimes

/-! ## Numbers -/

/-- A signed word, the lower byte first. -/
def int16At (src : List UInt8) (i : ℕ) : ℤ := (UInt16.ofNat (wordValue false (slice src (2 * i) 2))).toInt16.toInt

/-- `stream2int16`: three signed words. -/
def stream2int16 (src : List UInt8) : Vector ℤ 3 := .ofFn fun i => int16At src i

@[simp] theorem getElem_stream2int16 (src : List UInt8) {i : ℕ} (hi : i < 3) :
    (stream2int16 src)[i] = int16At src i := Vector.getElem_ofFn hi

/-- A rational as a `float`, rounded to the nearest one with ties to even. For zero and the range of normal floats. -/
def floatBits (x : ℚ) : UInt32 :=
  if x = 0 then 0
  else
    let e := Binary64.ilog2 |x|
    let m := Binary64.roundEven (|x| / Binary64.pow2 (e - 23))
    UInt32.ofNat ((if x < 0 then 2 ^ 31 else 0) + ((e + 127) * 2 ^ 23 + (m - 2 ^ 23)).toNat)

/-- `(float)n / d`. -/
def floatDiv (n d : ℤ) : UInt32 := floatBits ((n : ℚ) / d)

example : floatDiv 1000 1000 = 0x3F800000 ∧ floatDiv (-1) 10 = 0xBDCCCCCD ∧ floatDiv 0 100 = 0 := by decide +kernel

/-- `n` words of four bytes, the lowest byte first. -/
def words (n : ℕ) (src : List UInt8) : Vector UInt32 n :=
  .ofFn fun i => UInt32.ofNat (wordValue false (slice src (4 * i) 4))

/-! ## The data received -/

/-- `receive_imusol_packet_t`. -/
structure ImusolPacket where
  tag : UInt8 := 0
  id : UInt8 := 0
  times : UInt32 := 0
  acc : Vector UInt32 3 := .replicate 3 0
  gyr : Vector UInt32 3 := .replicate 3 0
  mag : Vector UInt32 3 := .replicate 3 0
  eul : Vector UInt32 3 := .replicate 3 0
  quat : Vector UInt32 4 := .replicate 4 0
  deriving DecidableEq

/-- `receive_gwsol_packet_t`. -/
structure GwsolPacket where
  tag : UInt8 := 0
  gwId : UInt8 := 0
  n : UInt8 := 0
  receiveImusol : Vector ImusolPacket maxLength := .replicate maxLength {}
  deriving DecidableEq

/-- The global variables. -/
structure Received where
  bitmap : UInt8 := 0
  receiveImusol : ImusolPacket := {}
  receiveGwsol : GwsolPacket := {}
  deriving DecidableEq

/-- A `memcpy` of 16 floats to `acc`: the fields after it are filled too. -/
def ImusolPacket.copyToAcc (src : List UInt8) (r : ImusolPacket) : ImusolPacket :=
  { r with
    acc := words 3 (slice src 0 12), gyr := words 3 (slice src 12 12), mag := words 3 (slice src 24 12)
    eul := words 3 (slice src 36 12), quat := words 4 (slice src 48 16) }

/-! ## Accesses -/

/-- A byte of `buf` read, or an element of `receive_gwsol.receive_imusol` written. -/
inductive Access where
  | byte (i : ℕ)
  | element (i : ℕ)
  deriving DecidableEq, Repr

/-- `p[i]`. -/
def Packet.read (p : Packet) (i : ℕ) : Traced Access UInt8 := ⟨[.byte i], p.buf.toList[i]?⟩

/-- The `n` bytes from `p + i` on. -/
def Packet.copy (p : Packet) (i n : ℕ) : Traced Access (List UInt8) where
  accesses := (List.range n).map fun k => .byte (i + k)
  result := if i + n ≤ maxPacketLen then some (slice p.buf.toList i n) else none

/-- `receive_gwsol.receive_imusol[i]`. -/
def element (i : ℕ) : Traced Access (Fin maxLength) where
  accesses := [.element i]
  result := if h : i < maxLength then some ⟨i, h⟩ else none

/-! ## The loop over the items -/

/-- One turn of the loop over the elements of a gateway item. -/
def gwElement (p : Packet) (i offset : ℕ) (r : Received) : Traced Access Received := do
  let tag ← p.read offset
  let i ← element i
  let id ← p.read (offset + 1)
  let src ← p.copy (offset + 12) 64
  let e := ({ r.receiveGwsol.receiveImusol[i] with tag := tag, id := id } : ImusolPacket).copyToAcc src
  pure { r with
    bitmap := bitValidAll
    receiveGwsol := { r.receiveGwsol with receiveImusol := r.receiveGwsol.receiveImusol.set i e } }

/-- The elements from `i` on, `n` of them. -/
def gwElements (p : Packet) : ℕ → ℕ → ℕ → Received → Traced Access (ℕ × Received)
  | 0, _, offset, r => pure (offset, r)
  | n + 1, i, offset, r => do
    let r ← gwElement p i offset r
    gwElements p n (i + 1) (offset + 76) r

/-- One turn of the loop over the items: the offset of the next item. -/
def onItem (p : Packet) (offset : ℕ) (r : Received) : Traced Access (ℕ × Received) := do
  let tag ← p.read offset
  match ItemID.ofCode tag with
  | some .id =>
    let id ← p.read 1
    pure (offset + 2, { r with
      bitmap := r.bitmap ||| bitValidId, receiveImusol := { r.receiveImusol with id := id } })
  | some .accRaw =>
    let temp := stream2int16 (← p.copy (offset + 1) 6)
    pure (offset + 7, { r with
      bitmap := r.bitmap ||| bitValidAcc
      receiveImusol := { r.receiveImusol with
        acc := #v[floatDiv temp[0] 1000, floatDiv temp[1] 1000, floatDiv temp[2] 1000] } })
  | some .gyrRaw | some .gyrRawYunjing =>
    let temp := stream2int16 (← p.copy (offset + 1) 6)
    pure (offset + 7, { r with
      bitmap := r.bitmap ||| bitValidGyr
      receiveImusol := { r.receiveImusol with
        gyr := #v[floatDiv temp[0] 10, floatDiv temp[1] 10, floatDiv temp[2] 10] } })
  | some .magRaw =>
    let temp := stream2int16 (← p.copy (offset + 1) 6)
    pure (offset + 7, { r with
      bitmap := r.bitmap ||| bitValidMag
      receiveImusol := { r.receiveImusol with
        mag := #v[floatDiv temp[0] 10, floatDiv temp[1] 10, floatDiv temp[2] 10] } })
  | some .rotationEul =>
    let temp := stream2int16 (← p.copy (offset + 1) 6)
    pure (offset + 7, { r with
      bitmap := r.bitmap ||| bitValidEul
      -- the first two angles change places
      receiveImusol := { r.receiveImusol with
        eul := #v[floatDiv temp[1] 100, floatDiv temp[0] 100, floatDiv temp[2] 10] } })
  | some .rotationQuat =>
    let src ← p.copy (offset + 1) 16
    pure (offset + 17, { r with
      bitmap := r.bitmap ||| bitValidQuat, receiveImusol := { r.receiveImusol with quat := words 4 src } })
  | some .pressure => pure (offset + 5, r)
  | some .imusol =>
    let id ← p.read (offset + 1)
    -- these two are read at a fixed place
    let times ← p.copy 8 4
    let src ← p.copy 12 64
    pure (offset + 76, { r with
      bitmap := bitValidAll
      receiveImusol := ({ r.receiveImusol with id := id, times := (words 1 times)[0] } : ImusolPacket).copyToAcc src })
  | some .gwsol =>
    let tag ← p.read offset
    let gwId ← p.read (offset + 1)
    let n ← p.read (offset + 2)
    gwElements p n.toNat 0 (offset + 8)
      { r with receiveGwsol := { r.receiveGwsol with tag := tag, gwId := gwId, n := n } }
  | none => pure (offset + 1, r)

/-- The loop over the items, in at most `turns` turns. -/
def onItems (p : Packet) : ℕ → ℕ → Received → Traced Access Received
  | 0, _, r => pure r
  | turns + 1, offset, r =>
    if offset < p.payloadLen.toNat then do
      let (offset, r) ← onItem p offset r
      onItems p turns offset r
    else pure r

/-- `on_data_received`. An item moves the offset, so there is a turn for every byte at most (`onItems_loop`). -/
def onDataReceived (p : Packet) (r : Received) : Traced Access Received :=
  if p.type ≠ 0xA5 then pure r else onItems p p.payloadLen.toNat 0 { r with bitmap := 0 }

end Agilex.Imu
