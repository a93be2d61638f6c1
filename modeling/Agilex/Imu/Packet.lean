import Agilex.Imu.Crc
import Agilex.Lib.Machine
import Mathlib.Data.Nat.Notation
import Mathlib.Tactic.ByContra

/-!
# The packet decoder of the IMU driver

`packet_decode` is called with one byte at a time and keeps its state in static variables: `Decoder` holds them, the
packet under construction, and the packets handed to `event_handler`. A store outside `buf` is a fault: `packetDecode`
is then `none`.
-/

namespace Agilex.Imu

open Agilex.Lib

/-- `MAX_PACKET_LEN`. -/
def maxPacketLen : ℕ := 2048

/-- `enum status`. -/
inductive Status where
  | idle | cmd | lenLow | lenHigh | crcLow | crcHigh | data
  deriving DecidableEq, Repr

/-- `packet_t`, less its field `len`, which nothing sets. -/
structure Packet where
  ofs : UInt32
  buf : Vector UInt8 maxPacketLen
  payloadLen : UInt16
  type : UInt8
  deriving DecidableEq

/-- The first `payload_len` bytes of `buf`. -/
def Packet.payload (p : Packet) : List UInt8 := p.buf.toList.take p.payloadLen.toNat

/-- The static variables of the decoder, and the packets its handler was called with. -/
structure Decoder where
  pkt : Packet
  crcReceived : UInt16 := 0
  crcCalculated : UInt16 := 0
  status : Status := .idle
  crcHeader : Vector UInt8 4 := #v[0x5A, 0xA5, 0x00, 0x00]
  frameCount : UInt32 := 0
  received : List Packet := []
  deriving DecidableEq

/-- `packet_decode_init`, before the first byte. -/
def Decoder.init : Decoder where
  pkt := ⟨0, Vector.replicate maxPacketLen 0, 0, 0⟩

/-- `CH_OK`. -/
def chOk : UInt32 := 0

/-- `CH_ERR`. -/
def chErr : UInt32 := 1

/-- `buf[ofs++] = c`. -/
def Packet.store (c : UInt8) (p : Packet) : Option Packet :=
  if h : p.ofs.toNat < maxPacketLen then some { p with buf := p.buf.set p.ofs.toNat c h, ofs := p.ofs + 1 } else none

/-- `event_handler(RxPkt)`. -/
def Decoder.handle (d : Decoder) : Decoder := { d with received := d.received ++ [d.pkt] }

/-- The CRC is checked at the end of a frame, and a packet that has its own is handed over. -/
def Decoder.checkCrc (d : Decoder) : Decoder :=
  -- calculate CRC
  let crc := crc16Update d.crcCalculated d.crcHeader.toList
  let crc := crc16Update crc (d.pkt.buf.toList.take d.pkt.ofs.toNat)
  let d := { d with crcCalculated := crc }
  -- CRC match
  let d := if crc = d.crcReceived then ({ d with frameCount := d.frameCount + 1 } : Decoder).handle else d
  { d with status := .idle }

/-- The case `kStatus_Data`, with the byte stored. -/
def Decoder.stored (d : Decoder) : UInt32 × Decoder :=
  let d :=
    if d.pkt.type = 0xA7 ∧ 8 ≤ d.pkt.ofs then
      { ({ d with pkt := { d.pkt with payloadLen := 8 } } : Decoder).handle with status := .idle }
    else d
  if maxPacketLen ≤ d.pkt.ofs.toNat then (chErr, { d with status := .idle })
  else if d.pkt.payloadLen.toNat ≤ d.pkt.ofs.toNat ∧ d.pkt.type = 0xA5 then (chOk, d.checkCrc)
  else (chOk, d)

/-- `packet_decode`: the returned code and the decoder, or a fault. -/
def packetDecode (c : UInt8) (d : Decoder) : Option (UInt32 × Decoder) :=
  match d.status with
  | .idle => some (chOk, if c = 0x5A then { d with status := .cmd } else d)
  | .cmd =>
    let d := { d with pkt := { d.pkt with type := c } }
    some (chOk, if d.pkt.type = 0xA5 then { d with status := .lenLow } else d)
  | .lenLow =>
    some (chOk, { d with
      pkt := { d.pkt with payloadLen := c.toUInt16 }, crcHeader := d.crcHeader.set 2 c, status := .lenHigh })
  | .lenHigh =>
    some (chOk, { d with
      pkt := { d.pkt with payloadLen := d.pkt.payloadLen ||| c.toUInt16 <<< 8 }
      crcHeader := d.crcHeader.set 3 c, status := .crcLow })
  | .crcLow => some (chOk, { d with crcReceived := c.toUInt16, status := .crcHigh })
  | .crcHigh =>
    some (chOk, { d with
      crcReceived := d.crcReceived ||| c.toUInt16 <<< 8, pkt := { d.pkt with ofs := 0 }, crcCalculated := 0
      status := .data })
  | .data => (d.pkt.store c).map fun pkt => ({ d with pkt := pkt } : Decoder).stored

/-- The decoder after one more byte. -/
def Decoder.next (c : UInt8) (d : Decoder) : Option Decoder := (packetDecode c d).map Prod.snd

/-- The decoder after a stream of bytes. -/
abbrev feed : List UInt8 → Decoder → Option Decoder := Machine.run Decoder.next

/-! ## Frames -/

/-- The header of a frame: the sync bytes and the length. -/
def header (n : ℕ) : List UInt8 :=
  let len := UInt16.ofNat n
  [0x5A, 0xA5, len.toUInt8, (len >>> 8).toUInt8]

/-- The frame of a payload: header, CRC of header and payload, payload. -/
def encode (payload : List UInt8) : List UInt8 :=
  let crc := crc16Update 0 (header payload.length ++ payload)
  header payload.length ++ [crc.toUInt8, (crc >>> 8).toUInt8] ++ payload

/-- The decoder that waits for a payload of `n` bytes with CRC `crc`. -/
def Decoder.expecting (n : ℕ) (crc : UInt16) (d : Decoder) : Decoder where
  pkt := { d.pkt with ofs := 0, payloadLen := UInt16.ofNat n, type := 0xA5 }
  crcReceived := crc
  status := .data
  crcHeader := (d.crcHeader.set 2 (UInt16.ofNat n).toUInt8).set 3 (UInt16.ofNat n >>> 8).toUInt8
  frameCount := d.frameCount
  received := d.received

/-- Six bytes from the idle state, the first two of them the sync bytes. -/
theorem feed_six {d : Decoder} (hs : d.status = .idle) (lenLow lenHigh crcLow crcHigh : UInt8) :
    feed [0x5A, 0xA5, lenLow, lenHigh, crcLow, crcHigh] d = some
      { pkt := { d.pkt with ofs := 0, payloadLen := lenLow.toUInt16 ||| lenHigh.toUInt16 <<< 8, type := 0xA5 }
        crcReceived := crcLow.toUInt16 ||| crcHigh.toUInt16 <<< 8
        status := .data
        crcHeader := (d.crcHeader.set 2 lenLow).set 3 lenHigh
        frameCount := d.frameCount
        received := d.received } := by
  obtain ⟨pkt, crcReceived, crcCalculated, status, crcHeader, frameCount, received⟩ := d
  obtain rfl : status = .idle := hs
  rfl

end Agilex.Imu
