import Agilex.Capture.Image
import Agilex.Lib.Words

/-!
# The bytes of an image

- a `Layout` fixes encoding, size, row stride and byte order; `Layout.bytes` lays out a raster row by row, with padding
  behind each row;
- `imageArray` of these bytes is the raster (`item_layout`), whatever the padding (`SamePixels`);
- an accepted message is read inside its data (`imageArray_inside`), and the others are rejected (`imageArray_rejects`).

`image_decoding` puts these together.
-/

namespace Agilex.Capture

open Agilex.Lib

/-! ## Rows of bytes -/

/-- An encoding of the table, a size with at least one pixel, a row stride of at least a row, and a byte order. -/
structure Layout where
  encoding : String
  dtype : Dtype
  channels : ℕ
  known : formats.lookup encoding = some (dtype, channels)
  width : ℕ
  height : ℕ
  width_pos : 1 ≤ width
  height_pos : 1 ≤ height
  step : ℕ
  row_le : width * channels * dtype.itemsize ≤ step
  isBigendian : ℕ

/-- The items of an image, by row, column and channel. -/
abbrev Items := ℕ → ℕ → ℕ → ℕ

namespace Layout

variable (L : Layout)

def bigendian : Bool := L.isBigendian ≠ 0

/-- The bytes of a row, without padding. -/
def row : ℕ := L.width * L.channels * L.dtype.itemsize

/-- Every item fits its type. -/
def Fits (x : Items) : Prop :=
  ∀ r < L.height, ∀ c < L.width, ∀ k < L.channels, x r c k < 256 ^ L.dtype.itemsize

/-- The padding fills each row up to the stride. -/
def Pads (padding : ℕ → List UInt8) : Prop := ∀ r < L.height, (padding r).length = L.step - L.row

def pixelBytes (x : Items) (r c : ℕ) : List UInt8 :=
  (List.range L.channels).flatMap fun k => wordBytes L.bigendian L.dtype.itemsize (x r c k)

def rowBytes (x : Items) (r : ℕ) : List UInt8 := (List.range L.width).flatMap (L.pixelBytes x r)

/-- The raster row by row, each row with its padding. -/
def bytes (x : Items) (padding : ℕ → List UInt8) : List UInt8 :=
  (List.range L.height).flatMap fun r => L.rowBytes x r ++ padding r

/-- The message with these bytes. -/
def message (h : Header) (x : Items) (padding : ℕ → List UInt8) : Image :=
  ⟨h, L.height, L.width, L.encoding, L.isBigendian, L.step, L.bytes x padding⟩

theorem length_pixelBytes (x : Items) (r c : ℕ) : (L.pixelBytes x r c).length = L.channels * L.dtype.itemsize :=
  length_flatMap_range fun _ _ => length_wordBytes _ _ _

theorem length_rowBytes (x : Items) (r : ℕ) : (L.rowBytes x r).length = L.row :=
  (length_flatMap_range fun c _ => L.length_pixelBytes x r c).trans (Nat.mul_assoc _ _ _).symm

variable {L}

theorem length_paddedRow {padding : ℕ → List UInt8} (hpad : L.Pads padding) (x : Items) :
    ∀ r < L.height, (L.rowBytes x r ++ padding r).length = L.step := by
  intro r hr
  rw [List.length_append, L.length_rowBytes, hpad r hr]
  exact Nat.add_sub_cancel' L.row_le

theorem length_bytes {padding : ℕ → List UInt8} (hpad : L.Pads padding) (x : Items) :
    (L.bytes x padding).length = L.height * L.step := length_flatMap_range (length_paddedRow hpad x)

/-- The bytes of an item lie inside its row. -/
theorem item_inside {c k : ℕ} (hc : c < L.width) (hk : k < L.channels) :
    c * (L.channels * L.dtype.itemsize) + k * L.dtype.itemsize + L.dtype.itemsize ≤ L.row := by
  calc c * (L.channels * L.dtype.itemsize) + k * L.dtype.itemsize + L.dtype.itemsize
      = c * (L.channels * L.dtype.itemsize) + (k * L.dtype.itemsize + L.dtype.itemsize) := Nat.add_assoc _ _ _
    _ ≤ c * (L.channels * L.dtype.itemsize) + L.channels * L.dtype.itemsize := Nat.add_le_add_left (block_le hk _) _
    _ ≤ L.width * (L.channels * L.dtype.itemsize) := block_le hc _
    _ = L.row := (Nat.mul_assoc _ _ _).symm

/-- The slice of an item is the item. -/
theorem slice_bytes {padding : ℕ → List UInt8} (hpad : L.Pads padding) (x : Items) {r c k : ℕ} (hr : r < L.height)
    (hc : c < L.width) (hk : k < L.channels) :
    slice (L.bytes x padding) (r * L.step + (c * (L.channels * L.dtype.itemsize) + k * L.dtype.itemsize)) L.dtype.itemsize =
      wordBytes L.bigendian L.dtype.itemsize (x r c k) := by
  have hin := L.item_inside hc hk
  have hk' : k * L.dtype.itemsize + L.dtype.itemsize ≤ L.channels * L.dtype.itemsize := block_le hk _
  have hrow : L.row ≤ L.step := L.row_le
  calc slice (L.bytes x padding) (r * L.step + (c * (L.channels * L.dtype.itemsize) + k * L.dtype.itemsize))
        L.dtype.itemsize
      = slice (L.rowBytes x r ++ padding r) (c * (L.channels * L.dtype.itemsize) + k * L.dtype.itemsize)
          L.dtype.itemsize := slice_flatMap_range (length_paddedRow hpad x) hr (by omega)
    _ = slice (L.rowBytes x r) (c * (L.channels * L.dtype.itemsize) + k * L.dtype.itemsize) L.dtype.itemsize :=
        slice_append (by rw [L.length_rowBytes]; omega)
    _ = slice (L.pixelBytes x r c) (k * L.dtype.itemsize) L.dtype.itemsize :=
        slice_flatMap_range (fun c _ => L.length_pixelBytes x r c) hc hk'
    _ = slice (L.pixelBytes x r c) (k * L.dtype.itemsize + 0) L.dtype.itemsize := by rw [Nat.add_zero]
    _ = slice (wordBytes L.bigendian L.dtype.itemsize (x r c k)) 0 L.dtype.itemsize :=
        slice_flatMap_range (fun k _ => length_wordBytes _ _ _) hk (by omega)
    _ = wordBytes L.bigendian L.dtype.itemsize (x r c k) := by
        have hself := slice_self (wordBytes L.bigendian L.dtype.itemsize (x r c k))
        rwa [length_wordBytes] at hself

end Layout

/-! ## Decoding -/

/-- An item inside the buffer is the word in its bytes. -/
theorem NDArray.item_eq {a : NDArray} {r c k : ℕ} (h : a.offset r c k + a.dtype.itemsize ≤ a.buffer.length) :
    a.item r c k = wordValue a.bigendian (slice a.buffer (a.offset r c k) a.dtype.itemsize) := by
  unfold NDArray.item wordValue beValue
  rw [← map_getD_range h 0]
  cases a.bigendian with
  | true =>
    simp only [if_true, List.map_map]
    rfl
  | false =>
    simp only [Bool.false_eq_true, if_false, List.map_reverse, List.map_map]
    rfl

/-- The bytes of a row of the message, without padding. -/
def Image.row (m : Image) : ℕ :=
  match formats.lookup m.encoding with
  | some (fmt, channels) => m.width * channels * fmt.itemsize
  | none => 0

/-- The view of an accepted message. -/
def Image.view (m : Image) (fmt : Dtype) (channels : ℕ) : NDArray where
  height := m.height
  width := m.width
  channels := channels
  dtype := fmt
  bigendian := m.isBigendian ≠ 0
  rowStride := m.step
  pixelStride := fmt.itemsize * channels
  itemStride := fmt.itemsize
  buffer := m.data

/-- What a message is accepted for, and what it decodes to. -/
structure Decodes (m : Image) (a : NDArray) (fmt : Dtype) (channels : ℕ) : Prop where
  known : formats.lookup m.encoding = some (fmt, channels)
  width_pos : 0 < m.width
  height_pos : 0 < m.height
  row_le : m.width * channels * fmt.itemsize ≤ m.step
  length_eq : m.data.length = m.step * m.height
  view_eq : a = m.view fmt channels

theorem imageArray_ok {m : Image} {a : NDArray} :
    imageArray m = .ok a ↔ ∃ fmt channels, Decodes m a fmt channels := by
  unfold imageArray
  constructor
  · intro h
    split at h
    · cases h
    · rename_i fmt channels hknown
      simp only [ite_eq_iff, reduceCtorEq, and_false, false_or, Except.ok.injEq] at h
      obtain ⟨hok, rfl⟩ := h
      simp only [not_or, not_le, not_lt, not_ne_iff] at hok
      exact ⟨fmt, channels, hknown, hok.1, hok.2.1, hok.2.2.1, hok.2.2.2, rfl⟩
  · rintro ⟨fmt, channels, hknown, hwidth, hheight, hrow, hlength, rfl⟩
    simp only [hknown]
    rw [if_neg]
    · rfl
    · simp only [not_or, not_le, not_lt, not_ne_iff]
      exact ⟨hwidth, hheight, hrow, hlength⟩

namespace Decodes

variable {m : Image} {a : NDArray} {fmt : Dtype} {channels : ℕ}

theorem row_eq (h : Decodes m a fmt channels) : m.row = m.width * channels * fmt.itemsize := by
  unfold Image.row
  rw [h.known]

/-- An item lies inside its row. -/
theorem inside_row (h : Decodes m a fmt channels) {r c k : ℕ} (hc : c < m.width) (hk : k < channels) :
    a.offset r c k + fmt.itemsize ≤ r * m.step + m.row := by
  rw [h.row_eq, h.view_eq]
  have hin : (c * channels + k + 1) * fmt.itemsize ≤ m.width * channels * fmt.itemsize := by
    refine Nat.mul_le_mul_right _ ?_
    have hpixel := block_le hc channels
    omega
  calc r * m.step + c * (fmt.itemsize * channels) + k * fmt.itemsize + fmt.itemsize
      = r * m.step + (c * channels + k + 1) * fmt.itemsize := by ring
    _ ≤ r * m.step + m.width * channels * fmt.itemsize := Nat.add_le_add_left hin _

/-- An item lies inside the data. -/
theorem inside (h : Decodes m a fmt channels) {r c k : ℕ} (hr : r < m.height) (hc : c < m.width) (hk : k < channels) :
    a.offset r c k + fmt.itemsize ≤ m.data.length := by
  have hrow := h.inside_row (r := r) hc hk
  have hle : m.row ≤ m.step := by
    rw [h.row_eq]
    exact h.row_le
  have hend := block_le hr m.step
  rw [h.length_eq, Nat.mul_comm]
  omega

/-- An item is the word in its bytes. -/
theorem item_eq (h : Decodes m a fmt channels) {r c k : ℕ} (hr : r < m.height) (hc : c < m.width) (hk : k < channels) :
    a.item r c k = wordValue (m.isBigendian ≠ 0) (slice m.data (a.offset r c k) fmt.itemsize) := by
  have hin := h.inside hr hc hk
  obtain rfl := h.view_eq
  exact NDArray.item_eq hin

end Decodes

/-! ## Decoding what was laid out -/

/-- The array has the shape and the item type of the layout, and the items of the raster. -/
structure NDArray.Shows (a : NDArray) (L : Layout) (x : Items) : Prop where
  height_eq : a.height = L.height
  width_eq : a.width = L.width
  channels_eq : a.channels = L.channels
  dtype_eq : a.dtype = L.dtype
  item_eq : ∀ r < L.height, ∀ c < L.width, ∀ k < L.channels, a.item r c k = x r c k

/-- Two arrays with the same shape, item type and items. -/
structure NDArray.Equal (a a' : NDArray) : Prop where
  height_eq : a'.height = a.height
  width_eq : a'.width = a.width
  channels_eq : a'.channels = a.channels
  dtype_eq : a'.dtype = a.dtype
  item_eq : ∀ r < a.height, ∀ c < a.width, ∀ k < a.channels, a'.item r c k = a.item r c k

/-- The message of a layout is accepted. -/
theorem decodes_message {L : Layout} (h : Header) (x : Items) {padding : ℕ → List UInt8} (hpad : L.Pads padding) :
    Decodes (L.message h x padding) ((L.message h x padding).view L.dtype L.channels) L.dtype L.channels where
  known := L.known
  width_pos := L.width_pos
  height_pos := L.height_pos
  row_le := L.row_le
  length_eq := (Layout.length_bytes hpad x).trans (Nat.mul_comm _ _)
  view_eq := rfl

/-- **Decoding gives the raster back.** -/
theorem item_layout {L : Layout} (h : Header) {x : Items} (hx : L.Fits x) {padding : ℕ → List UInt8}
    (hpad : L.Pads padding) : ((L.message h x padding).view L.dtype L.channels).Shows L x := by
  refine ⟨rfl, rfl, rfl, rfl, fun r hr c hc k hk => ?_⟩
  have hoffset : ((L.message h x padding).view L.dtype L.channels).offset r c k =
      r * L.step + (c * (L.channels * L.dtype.itemsize) + k * L.dtype.itemsize) := by
    show r * L.step + c * (L.dtype.itemsize * L.channels) + k * L.dtype.itemsize = _
    ring
  rw [(decodes_message h x hpad).item_eq hr hc hk, hoffset]
  show wordValue L.bigendian (slice (L.bytes x padding) _ _) = _
  rw [Layout.slice_bytes hpad x hr hc hk, wordValue_wordBytes _ (hx r hr c hc k hk)]

/-- Big-endian rows of two items with two bytes of padding. -/
example : (imageArray ⟨⟨0, 0, ""⟩, 2, 2, "16UC1", 1, 6, [0, 1, 1, 0, 120, 120, 3, 232, 255, 255, 121, 121]⟩).map NDArray.items =
    .ok [1, 256, 1000, 65535] := by decide

/-! ## Padding -/

/-- Two messages that differ at most in the padding of their rows. -/
structure SamePixels (m m' : Image) : Prop where
  height_eq : m'.height = m.height
  width_eq : m'.width = m.width
  encoding_eq : m'.encoding = m.encoding
  isBigendian_eq : m'.isBigendian = m.isBigendian
  step_eq : m'.step = m.step
  length_eq : m'.data.length = m.data.length
  row_eq : ∀ r < m.height, ∀ j < m.row, m'.data[r * m.step + j]? = m.data[r * m.step + j]?

/-- Padding is not read. -/
theorem imageArray_samePixels {m m' : Image} (h : SamePixels m m') {a : NDArray} (ha : imageArray m = .ok a) :
    ∃ a', imageArray m' = .ok a' ∧ a.Equal a' := by
  obtain ⟨fmt, channels, hd⟩ := imageArray_ok.1 ha
  have hd' : Decodes m' (m'.view fmt channels) fmt channels :=
    ⟨h.encoding_eq ▸ hd.known, h.width_eq ▸ hd.width_pos, h.height_eq ▸ hd.height_pos,
      by rw [h.width_eq, h.step_eq]; exact hd.row_le,
      by rw [h.length_eq, h.step_eq, h.height_eq]; exact hd.length_eq, rfl⟩
  refine ⟨m'.view fmt channels, imageArray_ok.2 ⟨fmt, channels, hd'⟩, ?_⟩
  obtain rfl := hd.view_eq
  refine ⟨h.height_eq, h.width_eq, rfl, rfl, fun r hr c hc k hk => ?_⟩
  have hoffset : (m'.view fmt channels).offset r c k = (m.view fmt channels).offset r c k := by
    simp only [NDArray.offset, Image.view, h.step_eq]
  have hin : (m.view fmt channels).offset r c k + fmt.itemsize ≤ r * m.step + m.row := hd.inside_row hc hk
  have hfrom : r * m.step ≤ (m.view fmt channels).offset r c k := by
    show r * m.step ≤ r * m.step + c * (fmt.itemsize * channels) + k * fmt.itemsize
    omega
  have hslice : slice m'.data ((m.view fmt channels).offset r c k) fmt.itemsize =
      slice m.data ((m.view fmt channels).offset r c k) fmt.itemsize := by
    refine slice_congr fun i hi => ?_
    obtain ⟨j, hj⟩ := Nat.exists_eq_add_of_le (hfrom.trans (Nat.le_add_right _ i))
    rw [hj, h.row_eq r hr j (by omega)]
  rw [hd.item_eq hr hc hk, hd'.item_eq (h.height_eq ▸ hr) (h.width_eq ▸ hc) hk, hoffset, hslice, h.isBigendian_eq]

/-! ## Bounds and rejection -/

/-- Every byte read lies inside the data. -/
theorem imageArray_inside {m : Image} {a : NDArray} (h : imageArray m = .ok a) :
    a.buffer = m.data ∧ ∀ r < a.height, ∀ c < a.width, ∀ k < a.channels, ∀ i < a.dtype.itemsize,
      a.offset r c k + i < m.data.length := by
  obtain ⟨fmt, channels, hd⟩ := imageArray_ok.1 h
  obtain rfl := hd.view_eq
  refine ⟨rfl, fun r hr c hc k hk i hi => ?_⟩
  have hin := hd.inside hr hc hk
  have hi : i < fmt.itemsize := hi
  omega

/-- A stride below the row or a wrong length is rejected. -/
theorem imageArray_rejects {m : Image} (h : m.step < m.row ∨ m.data.length ≠ m.step * m.height) :
    ∃ err, imageArray m = .error (.value err) := by
  unfold imageArray
  unfold Image.row at h
  split
  · exact ⟨_, rfl⟩
  · rename_i fmt channels hknown
    rw [hknown] at h
    exact ⟨_, if_pos (Or.inr (Or.inr h))⟩

/-- **The image decoding law.** A raster laid out with any stride, padding and byte order decodes to itself; messages that
differ in their padding decode equally; what is accepted is read inside its data, and too small a stride or a wrong length
is rejected. -/
theorem image_decoding :
    (∀ (L : Layout) (h : Header) (x : Items) (padding : ℕ → List UInt8), L.Fits x → L.Pads padding →
      ∃ a, imageArray (L.message h x padding) = .ok a ∧ a.Shows L x) ∧
    (∀ m m', SamePixels m m' → ∀ a, imageArray m = .ok a → ∃ a', imageArray m' = .ok a' ∧ a.Equal a') ∧
    (∀ m a, imageArray m = .ok a → a.buffer = m.data ∧ ∀ r < a.height, ∀ c < a.width, ∀ k < a.channels,
      ∀ i < a.dtype.itemsize, a.offset r c k + i < m.data.length) ∧
    ∀ m : Image, m.step < m.row ∨ m.data.length ≠ m.step * m.height → ∃ err, imageArray m = .error (.value err) := by
  refine ⟨fun L h x padding hx hpad => ?_, fun m m' h a ha => imageArray_samePixels h ha,
    fun m a ha => imageArray_inside ha, fun m h => imageArray_rejects h⟩
  exact ⟨_, imageArray_ok.2 ⟨_, _, decodes_message h x hpad⟩, item_layout h hx hpad⟩

end Agilex.Capture
