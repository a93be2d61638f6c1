import Mathlib.Data.List.Basic
import Mathlib.Data.List.Induction
import Mathlib.Tactic.Ring

/-!
# Words in bytes

- `wordBytes` writes a number in a fixed count of bytes, in either byte order, and `wordValue` reads it back
  (`wordValue_wordBytes`, `wordValue_inj`);
- a list made of blocks of one length, `(List.range n).flatMap f`: a slice that lies in a block is a slice of that block
  (`slice_flatMap_range`), and counting the entries is counting by blocks (`flatMap_range_mul`).
-/

namespace Agilex.Lib

variable {α : Type}

/-! ## Byte order -/

/-- The value of bytes, the most significant first. -/
def beValue (bytes : List UInt8) : ℕ := (bytes.map UInt8.toNat).foldl (fun acc byte => acc * 256 + byte) 0

/-- A number in `w` bytes, the most significant first. -/
def beBytes : ℕ → ℕ → List UInt8
  | 0, _ => []
  | w + 1, n => beBytes w (n / 256) ++ [UInt8.ofNat (n % 256)]

/-- A number in `w` bytes. -/
def wordBytes (bigendian : Bool) (w n : ℕ) : List UInt8 :=
  if bigendian then beBytes w n else (beBytes w n).reverse

def wordValue (bigendian : Bool) (bytes : List UInt8) : ℕ := beValue (if bigendian then bytes else bytes.reverse)

@[simp] theorem length_beBytes (w n : ℕ) : (beBytes w n).length = w := by
  induction w generalizing n with
  | zero => rfl
  | succ w ih => rw [beBytes, List.length_append, ih, List.length_singleton]

@[simp] theorem length_wordBytes (bigendian : Bool) (w n : ℕ) : (wordBytes bigendian w n).length = w := by
  unfold wordBytes
  split <;> simp

theorem beValue_snoc (bytes : List UInt8) (b : UInt8) : beValue (bytes ++ [b]) = beValue bytes * 256 + b.toNat := by
  unfold beValue
  rw [List.map_append, List.foldl_append]
  rfl

theorem beValue_beBytes {w n : ℕ} (h : n < 256 ^ w) : beValue (beBytes w n) = n := by
  induction w generalizing n with
  | zero =>
    rw [pow_zero, Nat.lt_one_iff] at h
    rw [h]
    rfl
  | succ w ih =>
    rw [pow_succ] at h
    rw [beBytes, beValue_snoc, ih (Nat.div_lt_of_lt_mul (by omega))]
    have hbyte : (UInt8.ofNat (n % 256)).toNat = n % 256 := by
      rw [UInt8.toNat_ofNat']
      omega
    omega

/-- **What is written is read back**, in either byte order. -/
theorem wordValue_wordBytes {w n : ℕ} (bigendian : Bool) (h : n < 256 ^ w) :
    wordValue bigendian (wordBytes bigendian w n) = n := by
  unfold wordValue wordBytes
  cases bigendian with
  | true => exact beValue_beBytes h
  | false =>
    simp only [Bool.false_eq_true, if_false, List.reverse_reverse]
    exact beValue_beBytes h

theorem beValue_lt (bytes : List UInt8) : beValue bytes < 256 ^ bytes.length := by
  induction bytes using List.reverseRecOn with
  | nil => decide
  | append_singleton bytes b ih =>
    have hb := b.toNat_lt
    rw [beValue_snoc, List.length_append, List.length_singleton, pow_succ]
    omega

theorem beBytes_beValue (bytes : List UInt8) : beBytes bytes.length (beValue bytes) = bytes := by
  induction bytes using List.reverseRecOn with
  | nil => rfl
  | append_singleton bytes b ih =>
    have hb := b.toNat_lt
    have hdiv : (beValue bytes * 256 + b.toNat) / 256 = beValue bytes := by omega
    have hmod : (beValue bytes * 256 + b.toNat) % 256 = b.toNat := by omega
    rw [beValue_snoc, List.length_append, List.length_singleton, beBytes, hdiv, hmod, ih, UInt8.ofNat_toNat]

theorem wordValue_lt (bigendian : Bool) (bytes : List UInt8) : wordValue bigendian bytes < 256 ^ bytes.length := by
  unfold wordValue
  split
  · exact beValue_lt bytes
  · simpa using beValue_lt bytes.reverse

/-- **Words of one width are told apart by their bytes.** -/
theorem wordValue_inj {bigendian : Bool} {bytes bytes' : List UInt8} (hlen : bytes.length = bytes'.length)
    (h : wordValue bigendian bytes = wordValue bigendian bytes') : bytes = bytes' := by
  have hbe : ∀ l l' : List UInt8, l.length = l'.length → beValue l = beValue l' → l = l' := by
    intro l l' hl hv
    rw [← beBytes_beValue l, ← beBytes_beValue l', hl, hv]
  unfold wordValue at h
  cases bigendian with
  | true => exact hbe _ _ hlen h
  | false => exact List.reverse_injective (hbe _ _ (by simpa using hlen) h)

/-! ## Slices -/

/-- `w` entries from position `o` on. -/
def slice (l : List α) (o w : ℕ) : List α := (l.drop o).take w

/-- A slice read entry by entry. -/
theorem map_getD_range {l : List α} {o w : ℕ} (h : o + w ≤ l.length) (x : α) :
    ((List.range w).map fun i => l.getD (o + i) x) = slice l o w := by
  unfold slice
  refine List.ext_getElem? fun i => ?_
  by_cases hi : i < w
  · have ho : o + i < l.length := by omega
    rw [List.getElem?_map, List.getElem?_range hi, List.getElem?_take_of_lt hi, List.getElem?_drop,
      List.getElem?_eq_getElem ho]
    simp only [Option.map_some, List.getD_eq_getElem?_getD, List.getElem?_eq_getElem ho, Option.getD_some]
  · rw [List.getElem?_eq_none, List.getElem?_eq_none]
    · rw [List.length_take]
      omega
    · rw [List.length_map, List.length_range]
      omega

/-- Two lists that agree from `o` to `o + w`. -/
theorem slice_congr {l l' : List α} {o w : ℕ} (h : ∀ i < w, l[o + i]? = l'[o + i]?) : slice l o w = slice l' o w := by
  unfold slice
  refine List.ext_getElem? fun i => ?_
  by_cases hi : i < w
  · rw [List.getElem?_take_of_lt hi, List.getElem?_take_of_lt hi, List.getElem?_drop, List.getElem?_drop, h i hi]
  · rw [List.getElem?_take_eq_none (by omega), List.getElem?_take_eq_none (by omega)]

/-- A slice of the first part. -/
theorem slice_append {l l' : List α} {o w : ℕ} (h : o + w ≤ l.length) : slice (l ++ l') o w = slice l o w := by
  unfold slice
  rw [List.drop_append_of_le_length (by omega), List.take_append_of_le_length]
  rw [List.length_drop]
  omega

theorem slice_append_right (l l' : List α) (o w : ℕ) : slice (l ++ l') (l.length + o) w = slice l' o w := by
  unfold slice
  rw [List.drop_append, List.drop_eq_nil_of_le (by omega), List.nil_append, Nat.add_sub_cancel_left]

/-- A slice of a slice. -/
theorem slice_slice (l : List α) {o w o' w' : ℕ} (h : o' + w' ≤ w) : slice (slice l o w) o' w' = slice l (o + o') w' := by
  unfold slice
  rw [List.drop_take, List.drop_drop, List.take_take, min_eq_left (by omega)]

theorem length_slice {l : List α} {o w : ℕ} (h : o + w ≤ l.length) : (slice l o w).length = w := by
  unfold slice
  rw [List.length_take, List.length_drop]
  omega

/-- A slice of a list that is cut off after it. -/
theorem slice_take (l : List α) {o w m : ℕ} (h : o + w ≤ m) : slice (l.take m) o w = slice l o w := by
  unfold slice
  rw [List.drop_take, List.take_take, min_eq_left (by omega)]

/-- Lists of `n` blocks are told apart by the blocks. -/
theorem eq_of_slices {l l' : List α} {n w : ℕ} (hl : l.length = w * n) (hl' : l'.length = w * n)
    (h : ∀ i < n, slice l (w * i) w = slice l' (w * i) w) : l = l' := by
  refine List.ext_getElem? fun k => ?_
  by_cases hk : k < w * n
  · have hw : 0 < w := Nat.pos_of_ne_zero (by rintro rfl; simp at hk)
    have hblock := congrArg (·[k % w]?) (h (k / w) (Nat.div_lt_of_lt_mul hk))
    have hmod := Nat.mod_lt k hw
    simpa only [slice, List.getElem?_take_of_lt hmod, List.getElem?_drop, Nat.div_add_mod] using hblock
  · rw [List.getElem?_eq_none (by omega), List.getElem?_eq_none (by omega)]

theorem slice_self (l : List α) : slice l 0 l.length = l := List.take_length

/-! ## Blocks of one length -/

/-- A block ends inside the blocks. -/
theorem block_le {i n : ℕ} (hi : i < n) (L : ℕ) : i * L + L ≤ n * L := by
  calc i * L + L = (i + 1) * L := (Nat.succ_mul i L).symm
    _ ≤ n * L := Nat.mul_le_mul_right L hi

theorem length_flatMap_range {f : ℕ → List α} {n L : ℕ} (hf : ∀ i < n, (f i).length = L) :
    ((List.range n).flatMap f).length = n * L := by
  induction n with
  | zero => rw [Nat.zero_mul]; rfl
  | succ n ih =>
    rw [List.range_succ, List.flatMap_append, List.length_append, ih fun i hi => hf i (by omega), List.flatMap_singleton,
      hf n (by omega)]
    ring

/-- A slice within a block. -/
theorem slice_flatMap_range {f : ℕ → List α} {n L i j w : ℕ} (hf : ∀ i < n, (f i).length = L) (hi : i < n)
    (hj : j + w ≤ L) : slice ((List.range n).flatMap f) (i * L + j) w = slice (f i) j w := by
  induction n with
  | zero => omega
  | succ n ih =>
    have hf' : ∀ i < n, (f i).length = L := fun i hi => hf i (by omega)
    have hlen := length_flatMap_range hf'
    rw [List.range_succ, List.flatMap_append, List.flatMap_singleton]
    rcases Nat.lt_succ_iff_lt_or_eq.mp hi with hlt | rfl
    · have hend := block_le hlt L
      rw [slice_append (by omega), ih hf' hlt]
    · rw [← hlen, slice_append_right]

/-- An entry within a block. -/
theorem getElem?_flatMap_range {f : ℕ → List α} {n L i j : ℕ} (hf : ∀ i < n, (f i).length = L) (hi : i < n) (hj : j < L) :
    ((List.range n).flatMap f)[i * L + j]? = (f i)[j]? := by
  have hslice := congrArg List.head? (slice_flatMap_range hf hi (show j + 1 ≤ L from hj))
  unfold slice at hslice
  rwa [List.head?_take, List.head?_take, if_neg one_ne_zero, if_neg one_ne_zero, List.head?_drop, List.head?_drop] at hslice

/-- Counting by blocks. -/
theorem flatMap_range_mul (n L : ℕ) (f : ℕ → List α) :
    (List.range (n * L)).flatMap f = (List.range n).flatMap fun i => (List.range L).flatMap fun j => f (i * L + j) := by
  induction n with
  | zero => rw [Nat.zero_mul]; rfl
  | succ n ih =>
    rw [Nat.add_mul, Nat.one_mul, List.range_add, List.flatMap_append, List.flatMap_map, ih, List.range_succ,
      List.flatMap_append, List.flatMap_singleton]

theorem map_range_mul (n L : ℕ) (f : ℕ → α) :
    (List.range (n * L)).map f = (List.range n).flatMap fun i => (List.range L).map fun j => f (i * L + j) := by
  simp only [List.map_eq_flatMap, flatMap_range_mul]

end Agilex.Lib
