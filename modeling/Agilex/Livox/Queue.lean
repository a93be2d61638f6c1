import Agilex.Lib.Ring
import Mathlib.Tactic.SplitIfs

/-!
# The point queue of the lidar driver

`LidarDataQueue` of `livox_ros_driver2` (`ldq.cpp`): a ring of `2 ^ k` cells between the thread that stores frames and the
thread that publishes them. The two indices count on and wrap at `2 ^ 32`; `mask` takes them to a cell.

- `initQueue_stores`: whatever size is asked for, the queue gets a power of two.
- `Stores`: what the queue holds. `Stores.write`, `Stores.advance` and `Stores.pop` say what the steps of a push and of a
  pop do to it, also where the indices wrap.
-/

namespace Agilex.Livox

open Agilex.Lib

variable {α : Type}

/-- `LidarDataQueue`; no cells stand for a null `storage_packet`. -/
structure LidarDataQueue (α : Type) where
  storagePacket : Option (ℕ → α)
  rdIdx : UInt32
  wrIdx : UInt32
  mask : UInt32
  size : UInt32

/-! ## `ldq.cpp` -/

def isPowerOf2 (size : UInt32) : Bool := size != 0 && (size &&& (size - 1)) == 0

/-- The first power of two that is large enough, or the last one there is. -/
def roundupPowerOf2 (size : UInt32) : UInt32 :=
  (((List.range 32).map fun i => (1 : UInt32) <<< UInt32.ofNat i).find? (size ≤ ·)).getD ((1 : UInt32) <<< 31)

/-- `InitQueue`, with what is in the new cells. -/
def initQueue (cells : ℕ → α) (queueSize : UInt32) : LidarDataQueue α :=
  let queueSize := if isPowerOf2 queueSize then queueSize else roundupPowerOf2 queueSize
  ⟨some cells, 0, 0, queueSize - 1, queueSize⟩

/-- `DeInitQueue`. -/
def deInitQueue : LidarDataQueue α := ⟨none, 0, 0, 0, 0⟩

namespace LidarDataQueue

variable (q : LidarDataQueue α)

/-- `QueueUsedSize`. -/
def usedSize : UInt32 := q.wrIdx - q.rdIdx

/-- `QueueIsFull`. -/
def isFull : Bool := q.mask < q.wrIdx - q.rdIdx

/-- `QueueIsEmpty`. -/
def isEmpty : Bool := q.rdIdx == q.wrIdx

/-- `QueuePrePop`. -/
def prePop : Option α := if q.isEmpty then none else q.storagePacket.map fun cells => cells (q.rdIdx &&& q.mask).toNat

/-- `QueuePopUpdate`. -/
def popUpdate : LidarDataQueue α := { q with rdIdx := q.rdIdx + 1 }

/-- `QueuePushAny`, up to its last step: the cell is filled. -/
def write (a : α) : LidarDataQueue α :=
  { q with storagePacket := q.storagePacket.map fun cells => Function.update cells (q.wrIdx &&& q.mask).toNat a }

/-- The last step of `QueuePushAny`. -/
def advance : LidarDataQueue α := { q with wrIdx := q.wrIdx + 1 }

/-- How many cells there are. -/
def capacity : ℕ := q.mask.toNat + 1

@[simp] theorem isEmpty_write (a : α) : (q.write a).isEmpty = q.isEmpty := rfl

@[simp] theorem storagePacket_popUpdate : q.popUpdate.storagePacket = q.storagePacket := rfl

@[simp] theorem capacity_popUpdate : q.popUpdate.capacity = q.capacity := rfl

end LidarDataQueue

/-! ## Sizes -/

theorem isPowerOf2_iff {n : UInt32} : isPowerOf2 n ↔ n.toNat.isPowerOfTwo := by
  rw [← Nat.ne_zero_and_sub_one_eq_zero_iff_isPowerOfTwo]
  simp only [isPowerOf2, Bool.and_eq_true, bne_iff_ne, ne_eq, beq_iff_eq, ← UInt32.toNat_inj, UInt32.toNat_and,
    UInt32.toNat_zero]
  refine and_congr_right fun h => ?_
  rw [UInt32.toNat_sub_of_le, UInt32.toNat_one]
  rw [UInt32.le_iff_toNat_le, UInt32.toNat_one]
  omega

/-- The powers of two of 32 bits. -/
theorem toNat_shift {i : ℕ} (hi : i < 32) : ((1 : UInt32) <<< UInt32.ofNat i).toNat = 2 ^ i := by
  have hall : ∀ i < 32, ((1 : UInt32) <<< UInt32.ofNat i).toNat = 2 ^ i := by decide
  exact hall i hi

theorem roundupPowerOf2_spec (n : UInt32) : ∃ k ≤ 31, (roundupPowerOf2 n).toNat = 2 ^ k ∧
    (n.toNat ≤ 2 ^ 31 → n.toNat ≤ 2 ^ k) := by
  unfold roundupPowerOf2
  cases hf : ((List.range 32).map fun i => (1 : UInt32) <<< UInt32.ofNat i).find? (n ≤ ·) with
  | none =>
    exact ⟨31, le_rfl, rfl, id⟩
  | some p =>
    obtain ⟨i, hi, rfl⟩ := List.mem_map.mp (List.mem_of_find?_eq_some hf)
    rw [List.mem_range] at hi
    have hle := List.find?_some hf
    rw [decide_eq_true_eq, UInt32.le_iff_toNat_le, toNat_shift hi] at hle
    exact ⟨i, by omega, toNat_shift hi, fun _ => hle⟩

/-! ## What a queue holds -/

/-- A power of two that fits in the indices. -/
def Rounded (n : ℕ) : Prop := ∃ k ≤ 31, n = 2 ^ k

theorem Rounded.dvd {n : ℕ} (h : Rounded n) : n ∣ 2 ^ 32 := by
  obtain ⟨k, hk, rfl⟩ := h
  exact Nat.pow_dvd_pow 2 (by omega)

theorem Rounded.le {n : ℕ} (h : Rounded n) : n ≤ 2 ^ 31 := by
  obtain ⟨k, hk, rfl⟩ := h
  exact Nat.pow_le_pow_right (by omega) hk

/-- `x & mask`. -/
theorem and_mask {x mask : UInt32} (h : Rounded (mask.toNat + 1)) : (x &&& mask).toNat = x.toNat % (mask.toNat + 1) := by
  obtain ⟨k, -, hk⟩ := h
  rw [UInt32.toNat_and, hk, show mask.toNat = 2 ^ k - 1 by omega, Nat.and_two_pow_sub_one_eq_mod]

/-- The queue holds the list; nothing, where there are no cells. -/
structure Stores (q : LidarDataQueue α) (l : List α) : Prop where
  wrIdx : q.wrIdx = q.rdIdx + UInt32.ofNat l.length
  null : q.storagePacket = none → l = []
  rounded : ∀ cells, q.storagePacket = some cells → Rounded q.capacity
  cells : ∀ cells, q.storagePacket = some cells → Ring.Holds cells q.capacity q.rdIdx.toNat l

theorem deInitQueue_stores : Stores (deInitQueue : LidarDataQueue α) [] :=
  ⟨rfl, fun _ => rfl, fun _ h => by simp [deInitQueue] at h, fun _ h => by simp [deInitQueue] at h⟩

/-- **A new queue is empty, and has a power of two cells**: as many as were asked for, if there are so many. -/
theorem initQueue_stores (cells : ℕ → α) (n : UInt32) :
    Stores (initQueue cells n) [] ∧ (n.toNat ≤ 2 ^ 31 → n.toNat ≤ (initQueue cells n).capacity) := by
  have hsize : ∃ k ≤ 31, (initQueue cells n).size.toNat = 2 ^ k ∧ (n.toNat ≤ 2 ^ 31 → n.toNat ≤ 2 ^ k) := by
    unfold initQueue
    split_ifs with hp
    · obtain ⟨k, hk⟩ := isPowerOf2_iff.mp hp
      refine ⟨k, ?_, hk, fun _ => hk.le⟩
      have hlt : 2 ^ k < 2 ^ 32 := hk ▸ n.toNat_lt
      have := (Nat.pow_lt_pow_iff_right (by omega)).mp hlt
      omega
    · exact roundupPowerOf2_spec n
  obtain ⟨k, hk, hs, hle⟩ := hsize
  have hcap : (initQueue cells n).capacity = 2 ^ k := by
    have hpos := Nat.two_pow_pos k
    have hone : (1 : UInt32) ≤ (initQueue cells n).size := by
      rw [UInt32.le_iff_toNat_le, hs, UInt32.toNat_one]
      omega
    have hmask : (initQueue cells n).mask = (initQueue cells n).size - 1 := rfl
    rw [LidarDataQueue.capacity, hmask, UInt32.toNat_sub_of_le _ _ hone, hs, UInt32.toNat_one]
    omega
  refine ⟨⟨rfl, fun _ => rfl, fun _ _ => ⟨k, hk, hcap⟩, fun _ _ => Ring.Holds.nil _ _ _⟩, ?_⟩
  rwa [hcap]

section
variable {q : LidarDataQueue α} {l : List α} {a : α}

theorem Stores.length_le (h : Stores q l) : l.length ≤ 2 ^ 31 := by
  cases hc : q.storagePacket with
  | none => simp [h.null hc]
  | some cells => exact (h.cells cells hc).fits.trans (h.rounded cells hc).le

theorem Stores.usedSize (h : Stores q l) : q.usedSize.toNat = l.length := by
  have hlen := h.length_le
  rw [LidarDataQueue.usedSize, h.wrIdx, UInt32.add_comm, UInt32.add_sub_cancel, UInt32.toNat_ofNat']
  exact Nat.mod_eq_of_lt (by omega)

theorem Stores.isEmpty (h : Stores q l) : q.isEmpty = l.isEmpty := by
  rw [Bool.eq_iff_iff, LidarDataQueue.isEmpty, beq_iff_eq, List.isEmpty_iff, ← List.length_eq_zero_iff, ← h.usedSize,
    LidarDataQueue.usedSize, ← UInt32.toNat_zero, UInt32.toNat_inj]
  constructor
  · intro he
    rw [he, UInt32.sub_self]
  · intro he
    rw [← UInt32.sub_add_cancel q.wrIdx q.rdIdx, he, UInt32.zero_add]

theorem Stores.isFull (h : Stores q l) : q.isFull = decide (q.capacity ≤ l.length) := by
  have hused := h.usedSize
  rw [LidarDataQueue.usedSize] at hused
  rw [LidarDataQueue.isFull, decide_eq_decide, UInt32.lt_iff_toNat_lt, hused]
  exact Iff.rfl

/-- The cell that a push fills is the one behind those that hold something. -/
theorem Stores.index (h : Stores q l) {cells : ℕ → α} (hc : q.storagePacket = some cells) :
    (q.wrIdx &&& q.mask).toNat = (q.rdIdx.toNat + l.length) % q.capacity := by
  have hr := h.rounded cells hc
  have hlen := h.length_le
  rw [and_mask hr, h.wrIdx, UInt32.toNat_add, UInt32.toNat_ofNat', Nat.add_mod_mod]
  exact Nat.mod_mod_of_dvd _ hr.dvd

/-- A push fills its cell while nothing else is looked at. -/
theorem Stores.write (h : Stores q l) (hroom : l.length < q.capacity) : Stores (q.write a) l where
  wrIdx := h.wrIdx
  null hn := h.null (by simpa [LidarDataQueue.write] using hn)
  rounded cells hc := by
    obtain ⟨cells', hc', -⟩ := Option.map_eq_some_iff.mp hc
    exact h.rounded cells' hc'
  cells cells hc := by
    obtain ⟨cells', hc', rfl⟩ := Option.map_eq_some_iff.mp hc
    rw [h.index hc']
    exact (h.cells cells' hc').write le_rfl hroom

/-- The cell behind those that hold something has been filled. -/
def Filled (q : LidarDataQueue α) (a : α) : Prop :=
  ∃ cells, q.storagePacket = some cells ∧ cells (q.wrIdx &&& q.mask).toNat = a

@[simp] theorem filled_popUpdate : Filled q.popUpdate a ↔ Filled q a := Iff.rfl

theorem filled_write {cells : ℕ → α} (hc : q.storagePacket = some cells) : Filled (q.write a) a :=
  ⟨_, by rw [LidarDataQueue.write, hc, Option.map_some], Function.update_self ..⟩

/-- **The last step of a push appends**, also where the index wraps. -/
theorem Stores.advance (h : Stores q l) (hroom : l.length < q.capacity) (hf : Filled q a) :
    Stores q.advance (l ++ [a]) where
  wrIdx := by
    rw [LidarDataQueue.advance, h.wrIdx, List.length_append, List.length_singleton, UInt32.ofNat_add, UInt32.add_assoc]
    rfl
  null hn := by
    obtain ⟨cells, hc, -⟩ := hf
    rw [show q.storagePacket = none from hn] at hc
    exact absurd hc (by simp)
  rounded := h.rounded
  cells cells hc := by
    obtain ⟨cells', hc', ha⟩ := hf
    obtain rfl : cells' = cells := Option.some.inj (hc'.symm.trans hc)
    rw [h.index hc'] at ha
    exact (h.cells cells' hc').push hroom ha

/-- A pop reads what came first. -/
theorem Stores.prePop (h : Stores q l) : q.prePop = l.head? := by
  rw [LidarDataQueue.prePop, h.isEmpty]
  cases l with
  | nil => rfl
  | cons a l =>
    cases hc : q.storagePacket with
    | none => simpa using h.null hc
    | some cells =>
      have hfront := (h.cells cells hc).front
      simpa [and_mask (h.rounded cells hc), LidarDataQueue.capacity] using hfront

/-- **The last step of a pop takes the first away**, also where the index wraps. -/
theorem Stores.popUpdate (h : Stores q (a :: l)) : Stores q.popUpdate l where
  wrIdx := by
    rw [LidarDataQueue.popUpdate, h.wrIdx, List.length_cons, UInt32.ofNat_add, UInt32.add_assoc,
      UInt32.add_comm (UInt32.ofNat l.length)]
    rfl
  null hn := by simpa using h.null hn
  rounded := h.rounded
  cells cells hc := by
    have hpop := (h.cells cells hc).pop
    refine hpop.congr ?_
    rw [LidarDataQueue.popUpdate, UInt32.toNat_add]
    exact ((Nat.mod_modEq _ _).of_dvd (h.rounded cells hc).dvd).symm

end

end Agilex.Livox
