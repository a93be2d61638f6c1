import Mathlib.Data.Nat.Bitwise

/-!
# The CRC of the IMU protocol

`crc16_update` works in 32 bits and stores 16. `crc16Update` follows it; the bits above the low 16 never come back
(`crcRound_low`), so it is the 16-bit loop `crcByte16` (`crc16Update_eq`), and two calls are one (`crc16Update_append`).
That loop puts a whole byte into the register; `crcBit` feeds the message in bit by bit, with the same result
(`crcByte16_bits`).
-/

namespace Agilex.Imu

/-- One round of the inner loop of `crc16_update`. -/
def crcRound (crc : UInt32) : UInt32 :=
  let temp := crc <<< 1
  if crc &&& 0x8000 ≠ 0 then temp ^^^ 0x1021 else temp

/-- One round of the outer loop. -/
def crcByte (crc : UInt32) (byte : UInt8) : UInt32 := crcRound^[8] (crc ^^^ byte.toUInt32 <<< 8)

/-- `crc16_update`: the CRC after the bytes `src`. -/
def crc16Update (crc : UInt16) (src : List UInt8) : UInt16 := (src.foldl crcByte crc.toUInt32).toUInt16

/-! ## Sixteen bits -/

/-- One round in 16 bits. -/
def crcRound16 (crc : UInt16) : UInt16 :=
  if crc &&& 0x8000 ≠ 0 then crc <<< 1 ^^^ 0x1021 else crc <<< 1

/-- One byte in 16 bits. -/
def crcByte16 (crc : UInt16) (byte : UInt8) : UInt16 := crcRound16^[8] (crc ^^^ byte.toUInt16 <<< 8)

/-- The tested bit is one of the low 16. -/
theorem top_bit (x : UInt32) : x.toUInt16 &&& 0x8000 = 0 ↔ x &&& 0x8000 = 0 := by
  have h : (x &&& 0x8000).toUInt16 = x.toUInt16 &&& 0x8000 := UInt32.toUInt16_and x 0x8000
  rw [← h]
  constructor
  · intro h0
    have hle : (x &&& 0x8000).toNat ≤ 0x8000 := by
      rw [UInt32.toNat_and]
      exact Nat.and_le_right
    have hz : (x &&& 0x8000).toNat % 2 ^ 16 = 0 := by
      rw [← UInt32.toNat_toUInt16, h0]
      rfl
    apply UInt32.toNat_inj.1
    rw [UInt32.toNat_zero]
    omega
  · intro h0
    rw [h0]
    rfl

/-- **The low 16 bits of a round** depend on the low 16 bits only. -/
theorem crcRound_low (x : UInt32) : (crcRound x).toUInt16 = crcRound16 x.toUInt16 := by
  have hs : (x <<< 1).toUInt16 = x.toUInt16 <<< 1 := UInt32.toUInt16_shiftLeft x 1 (by decide)
  unfold crcRound crcRound16
  by_cases h : x &&& 0x8000 = 0
  · rw [if_neg (not_not.2 h), if_neg (not_not.2 ((top_bit x).2 h)), hs]
  · rw [if_pos h, if_pos (mt (top_bit x).1 h), UInt32.toUInt16_xor, hs]
    rfl

theorem crcByte_low (x : UInt32) (byte : UInt8) : (crcByte x byte).toUInt16 = crcByte16 x.toUInt16 byte := by
  have hrounds : ∀ (n : ℕ) (y : UInt32), (crcRound^[n] y).toUInt16 = crcRound16^[n] y.toUInt16 := by
    intro n
    induction n with
    | zero => intro y; rfl
    | succ n ih =>
      intro y
      rw [Function.iterate_succ_apply, Function.iterate_succ_apply, ih, crcRound_low]
  have hbyte : (byte.toUInt32 <<< 8).toUInt16 = byte.toUInt16 <<< 8 := by
    rw [UInt32.toUInt16_shiftLeft _ 8 (by decide), UInt8.toUInt16_toUInt32]
    rfl
  rw [crcByte, crcByte16, hrounds, UInt32.toUInt16_xor, hbyte]

/-- **The CRC is the 16-bit one.** -/
theorem crc16Update_eq (crc : UInt16) (src : List UInt8) : crc16Update crc src = src.foldl crcByte16 crc := by
  have hfold : ∀ x : UInt32, (src.foldl crcByte x).toUInt16 = src.foldl crcByte16 x.toUInt16 := by
    induction src with
    | nil => intro x; rfl
    | cons b src ih =>
      intro x
      rw [List.foldl_cons, List.foldl_cons, ih, crcByte_low]
  rw [crc16Update, hfold]
  simp

/-- Two calls are one call on both lists. -/
theorem crc16Update_append (crc : UInt16) (a b : List UInt8) :
    crc16Update (crc16Update crc a) b = crc16Update crc (a ++ b) := by
  simp only [crc16Update_eq, List.foldl_append]

/-! ## Bit by bit -/

/-- One bit of the message enters a register of 16 bits: CRC-16 with the polynomial `0x1021`. -/
def crcBit (crc : UInt16) (bit : Bool) : UInt16 :=
  if (decide (crc &&& 0x8000 ≠ 0) ^^ bit) then crc <<< 1 ^^^ 0x1021 else crc <<< 1

/-- The first `n` bits of a byte, the most significant first. -/
def leadingBits : ℕ → UInt8 → List Bool
  | 0, _ => []
  | n + 1, byte => decide (byte &&& 0x80 ≠ 0) :: leadingBits n (byte <<< 1)

/-- The bits of a message, byte by byte. -/
def messageBits (src : List UInt8) : List Bool := src.flatMap (leadingBits 8)

/-- The topmost bit of a register, and of a byte. -/
theorem and_top (x : UInt16) : x &&& 0x8000 ≠ 0 ↔ x.toBitVec.getLsbD 15 = true := by
  have h : (x &&& 0x8000).toBitVec = if x.toBitVec.getLsbD 15 then BitVec.twoPow 16 15 else 0#16 :=
    BitVec.and_twoPow x.toBitVec 15
  rw [ne_eq, ← UInt16.toBitVec_inj, h]
  cases x.toBitVec.getLsbD 15 <;> decide

theorem byte_and_top (x : UInt8) : x &&& 0x80 ≠ 0 ↔ x.toBitVec.getLsbD 7 = true := by
  have h : (x &&& 0x80).toBitVec = if x.toBitVec.getLsbD 7 then BitVec.twoPow 8 7 else 0#8 :=
    BitVec.and_twoPow x.toBitVec 7
  rw [ne_eq, ← UInt8.toBitVec_inj, h]
  cases x.toBitVec.getLsbD 7 <;> decide

/-- A byte in the upper half of the register, moved up by one. -/
theorem byte_shift (byte : UInt8) : (byte.toUInt16 <<< 8) <<< 1 = (byte <<< 1).toUInt16 <<< 8 := by
  apply UInt16.toNat_inj.1
  have := byte.toNat_lt
  simp only [UInt16.toNat_shiftLeft, UInt8.toNat_toUInt16, UInt8.toNat_shiftLeft, Nat.shiftLeft_eq]
  simp
  omega

/-- **One round with the byte in the register** is one round with its first bit fed in, and the rest of the byte in the
register. -/
theorem crcRound16_xor (crc : UInt16) (byte : UInt8) :
    crcRound16 (crc ^^^ byte.toUInt16 <<< 8) =
      crcBit crc (decide (byte &&& 0x80 ≠ 0)) ^^^ (byte <<< 1).toUInt16 <<< 8 := by
  have htop : decide ((crc ^^^ byte.toUInt16 <<< 8) &&& 0x8000 ≠ 0) =
      (decide (crc &&& 0x8000 ≠ 0) ^^ decide (byte &&& 0x80 ≠ 0)) := by
    simp only [and_top, byte_and_top, Bool.decide_eq_true]
    simp
  have hshift : (crc ^^^ byte.toUInt16 <<< 8) <<< 1 = crc <<< 1 ^^^ (byte <<< 1).toUInt16 <<< 8 := by
    rw [UInt16.shiftLeft_xor, byte_shift]
  have hround : crcRound16 (crc ^^^ byte.toUInt16 <<< 8) =
      if decide ((crc ^^^ byte.toUInt16 <<< 8) &&& 0x8000 ≠ 0) then
        (crc ^^^ byte.toUInt16 <<< 8) <<< 1 ^^^ 0x1021 else (crc ^^^ byte.toUInt16 <<< 8) <<< 1 := by
    simp [crcRound16]
  rw [hround, crcBit, htop, hshift]
  split
  · rw [UInt16.xor_assoc, UInt16.xor_comm ((byte <<< 1).toUInt16 <<< 8), UInt16.xor_assoc]
  · rfl

theorem rounds_leadingBits (n : ℕ) (crc : UInt16) (byte : UInt8) :
    crcRound16^[n] (crc ^^^ byte.toUInt16 <<< 8) =
      (leadingBits n byte).foldl crcBit crc ^^^ ((fun x : UInt8 => x <<< 1)^[n] byte).toUInt16 <<< 8 := by
  induction n generalizing crc byte with
  | zero => rfl
  | succ n ih =>
    rw [Function.iterate_succ_apply, crcRound16_xor, ih]
    rfl

/-- Eight shifts leave nothing of a byte. -/
theorem shifted_out (byte : UInt8) : (fun x : UInt8 => x <<< 1)^[8] byte = 0 := by
  have hshift : ∀ (n : ℕ) (x : UInt8), ((fun x : UInt8 => x <<< 1)^[n] x).toNat = x.toNat * 2 ^ n % 256 := by
    intro n
    induction n with
    | zero => intro x; simp
    | succ n ih =>
      intro x
      rw [Function.iterate_succ_apply, ih]
      simp only [UInt8.toNat_shiftLeft, Nat.shiftLeft_eq, pow_succ]
      simp [Nat.mul_assoc, Nat.mul_comm, Nat.mul_left_comm]
  apply UInt8.toNat_inj.1
  rw [hshift]
  simp

/-- A byte in 16 bits, bit by bit. -/
theorem crcByte16_bits (crc : UInt16) (byte : UInt8) :
    crcByte16 crc byte = (leadingBits 8 byte).foldl crcBit crc := by
  rw [crcByte16, rounds_leadingBits, shifted_out]
  simp

/-- **The CRC is incremental and is CRC-16.** Two calls are one call on both lists, so that `packet_decode` may take the
header and the payload one after the other; and although the register has 32 bits, the result is that of the same loop
in 16 bits, which feeds the message into the register bit by bit. -/
theorem crc16_incremental (crc : UInt16) (a b : List UInt8) :
    crc16Update (crc16Update crc a) b = crc16Update crc (a ++ b) ∧
      crc16Update crc a = a.foldl crcByte16 crc ∧
      crc16Update crc a = (messageBits a).foldl crcBit crc := by
  refine ⟨crc16Update_append crc a b, crc16Update_eq crc a, ?_⟩
  rw [crc16Update_eq]
  induction a generalizing crc with
  | nil => rfl
  | cons byte a ih =>
    have hbits : messageBits (byte :: a) = leadingBits 8 byte ++ messageBits a := List.flatMap_cons
    rw [List.foldl_cons, ih, crcByte16_bits, hbits, List.foldl_append]

end Agilex.Imu
