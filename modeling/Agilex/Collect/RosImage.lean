import Agilex.Capture.ImageLayout

/-!
# Image messages as arrays

`rosImageToNumpy` turns an image message into an array with the channels in the order of OpenCV. It reads the bytes as they
are when the rows have no padding, and cuts the rows out and joins them when they have; but it reads all bytes as items
first, padding included.

`decoders_agree` compares it with `imageArray`.
-/

namespace Agilex.Collect

open Agilex.Lib Agilex.Capture

/-! ## Arrays -/

/-- The item types of `_ENC_MAP`. -/
inductive ItemType where
  | uint8
  | uint16
  | int16
  | float32
  deriving DecidableEq, Repr

def ItemType.itemsize : ItemType → ℕ
  | .uint8 => 1
  | .uint16 => 2
  | .int16 => 2
  | .float32 => 4

/-- `_ENC_MAP`: item type and channels of an encoding. -/
def encMap : List (String × ItemType × ℕ) :=
  [("rgb8", .uint8, 3), ("bgr8", .uint8, 3), ("rgba8", .uint8, 4), ("bgra8", .uint8, 4), ("mono8", .uint8, 1),
    ("8UC1", .uint8, 1), ("8UC3", .uint8, 3), ("16UC1", .uint16, 1), ("16SC1", .int16, 1), ("32FC1", .float32, 1)]

/-- An array: its shape, and the bits of its items in row-major order. -/
structure NpArray where
  shape : List ℕ
  dtype : ItemType
  items : List ℕ
  deriving DecidableEq, Repr

/-- `np.frombuffer(raw, dtype)`, in the byte order of the host. -/
def frombuffer (dtype : ItemType) (raw : List UInt8) : Except PyErr (List ℕ) :=
  if raw.length % dtype.itemsize ≠ 0 then .error (.value "buffer size must be a multiple of element size")
  else .ok ((List.range (raw.length / dtype.itemsize)).map fun i =>
    wordValue false (slice raw (i * dtype.itemsize) dtype.itemsize))

/-- `arr.reshape(shape)`. -/
def reshape (dtype : ItemType) (shape : List ℕ) (items : List ℕ) : Except PyErr NpArray :=
  if items.length ≠ shape.prod then
    .error (.value ("cannot reshape array of size " ++ toString items.length ++ " into shape (" ++
      ",".intercalate (shape.map toString) ++ ")"))
  else .ok ⟨shape, dtype, items⟩

/-- `arr[:, :, channels]`, of an array with three axes. -/
def NpArray.selectChannels (a : NpArray) (channels : List ℕ) : NpArray :=
  match a.shape with
  | [h, w, c] =>
    { a with
      shape := [h, w, channels.length]
      items := (List.range (h * w)).flatMap fun p => channels.map fun k => a.items.getD (p * c + k) 0 }
  | _ => a

/-- The rows without their padding, `raw[start: start + row_bytes]` joined. -/
def stripRows (raw : List UInt8) (height step rowBytes : ℕ) : List UInt8 :=
  (List.range height).flatMap fun r => slice raw (r * step) rowBytes

/-- `_ENC_MAP.get(enc_key, (np.uint8, 1))`, the key in lower case when it is not in the table as it is. -/
def lookupEncoding (encoding : String) : ItemType × ℕ :=
  let encKey := if (encMap.lookup encoding).isSome then encoding else encoding.toLower
  (encMap.lookup encKey).getD (.uint8, 1)

/-- The end of `ros_image_to_numpy`: the shape, and the channels from RGB to BGR. -/
def shapeArray (msg : Image) (dtype : ItemType) (channels : ℕ) (arr : List ℕ) : Except PyErr NpArray :=
  if channels = 1 then reshape dtype [msg.height, msg.width] arr
  else do
    let arr ← reshape dtype [msg.height, msg.width, channels] arr
    if msg.encoding ∈ ["rgb8", "RGB8"] then .ok (arr.selectChannels (List.range channels).reverse)
    else if msg.encoding ∈ ["rgba8", "RGBA8"] then .ok (arr.selectChannels [2, 1, 0, 3])
    else .ok arr

/-- `ros_image_to_numpy`. -/
def rosImageToNumpy (msg : Image) : Except PyErr NpArray := do
  let (dtype, channels) := lookupEncoding msg.encoding
  let arr ← frombuffer dtype msg.data
  let rowBytes := msg.width * channels * dtype.itemsize
  let arr ←
    if msg.step ≠ rowBytes ∧ 0 < msg.step then frombuffer dtype (stripRows msg.data msg.height msg.step rowBytes)
    else .ok arr
  shapeArray msg dtype channels arr

/-! ## The strict decoder and its result -/

/-- The item types of the strict decoder, as the host reads them. -/
def ItemType.of : Capture.Dtype → ItemType
  | .u1 => .uint8
  | .u2 => .uint16
  | .f4 => .float32

@[simp] theorem ItemType.itemsize_of (fmt : Capture.Dtype) : (ItemType.of fmt).itemsize = fmt.itemsize := by
  cases fmt <;> rfl

/-- The channel of the other decoder: red and blue change places in `rgb8` and `rgba8`. -/
def exchange (encoding : String) (k : ℕ) : ℕ :=
  if encoding ∈ ["rgb8", "rgba8"] then if k = 0 then 2 else if k = 2 then 0 else k else k

/-- The array is that of the strict decoder, up to the order of the channels. -/
structure SameArray (encoding : String) (a : NDArray) (b : NpArray) : Prop where
  shape_eq : b.shape = if a.channels = 1 then [a.height, a.width] else [a.height, a.width, a.channels]
  dtype_eq : b.dtype = ItemType.of a.dtype
  items_eq : b.items = (List.range a.height).flatMap fun r => (List.range a.width).flatMap fun c =>
    (List.range a.channels).map fun k => a.item r c (exchange encoding k)

/-- The encodings of the strict decoder. -/
theorem formats_cases {encoding : String} {fmt : Capture.Dtype} {channels : ℕ}
    (h : formats.lookup encoding = some (fmt, channels)) :
    (encoding = "rgb8" ∧ fmt = .u1 ∧ channels = 3) ∨ (encoding = "bgr8" ∧ fmt = .u1 ∧ channels = 3) ∨
      (encoding = "rgba8" ∧ fmt = .u1 ∧ channels = 4) ∨ (encoding = "bgra8" ∧ fmt = .u1 ∧ channels = 4) ∨
      (encoding = "mono8" ∧ fmt = .u1 ∧ channels = 1) ∨ (encoding = "16UC1" ∧ fmt = .u2 ∧ channels = 1) ∨
      (encoding = "32FC1" ∧ fmt = .f4 ∧ channels = 1) := by
  obtain ⟨before, after, htable, -⟩ := List.lookup_eq_some_iff.mp h
  have hmem : (encoding, fmt, channels) ∈ formats := by
    rw [htable]
    exact List.mem_append_right _ List.mem_cons_self
  simpa only [formats, List.mem_cons, List.not_mem_nil, or_false, Prod.mk.injEq] using hmem

/-- An encoding of the strict decoder is in both tables. -/
theorem lookupEncoding_formats {encoding : String} {fmt : Capture.Dtype} {channels : ℕ}
    (h : formats.lookup encoding = some (fmt, channels)) : lookupEncoding encoding = (ItemType.of fmt, channels) := by
  rcases formats_cases h with ⟨rfl, rfl, rfl⟩ | ⟨rfl, rfl, rfl⟩ | ⟨rfl, rfl, rfl⟩ | ⟨rfl, rfl, rfl⟩ | ⟨rfl, rfl, rfl⟩ |
    ⟨rfl, rfl, rfl⟩ | ⟨rfl, rfl, rfl⟩ <;> rfl

/-- The encodings whose channels change places. -/
theorem formats_order {encoding : String} {fmt : Capture.Dtype} {channels : ℕ}
    (h : formats.lookup encoding = some (fmt, channels)) :
    (encoding = "rgb8" ∧ channels = 3) ∨ (encoding = "rgba8" ∧ channels = 4) ∨
      (encoding ∉ ["rgb8", "RGB8"] ∧ encoding ∉ ["rgba8", "RGBA8"]) := by
  rcases formats_cases h with ⟨rfl, rfl, rfl⟩ | ⟨rfl, rfl, rfl⟩ | ⟨rfl, rfl, rfl⟩ | ⟨rfl, rfl, rfl⟩ | ⟨rfl, rfl, rfl⟩ |
    ⟨rfl, rfl, rfl⟩ | ⟨rfl, rfl, rfl⟩ <;> decide

/-! ## Items and rows -/

section

variable {m : Image} {a : NDArray} {fmt : Capture.Dtype} {channels : ℕ}

theorem itemsize_pos (fmt : Capture.Dtype) : 0 < fmt.itemsize := by
  cases fmt <;> decide

/-- The items of bytes that hold, word by word, the items of the array. -/
theorem frombuffer_items {l : List UInt8} (hlength : l.length = a.height * (a.width * a.channels) * a.dtype.itemsize)
    (hword : ∀ r < a.height, ∀ c < a.width, ∀ k < a.channels,
      wordValue false (slice l ((r * (a.width * a.channels) + (c * a.channels + k)) * a.dtype.itemsize) a.dtype.itemsize) =
        a.item r c k) :
    frombuffer (ItemType.of a.dtype) l = .ok a.items := by
  have hpos := itemsize_pos a.dtype
  unfold frombuffer
  rw [ItemType.itemsize_of, hlength, Nat.mul_mod_left, if_neg (not_not.mpr rfl), Nat.mul_div_cancel _ hpos,
    map_range_mul]
  congr 1
  unfold NDArray.items
  refine List.flatMap_congr fun r hr => ?_
  rw [map_range_mul]
  refine List.flatMap_congr fun c hc => List.map_congr_left fun k hk => ?_
  exact hword r (List.mem_range.mp hr) c (List.mem_range.mp hc) k (List.mem_range.mp hk)

/-- Bytes are taken just when they are whole items. -/
theorem frombuffer_ok {dtype : ItemType} {l : List UInt8} :
    (∃ items, frombuffer dtype l = .ok items) ↔ dtype.itemsize ∣ l.length := by
  unfold frombuffer
  rw [Nat.dvd_iff_mod_eq_zero]
  constructor
  · rintro ⟨items, h⟩
    by_contra hmod
    rw [if_pos hmod] at h
    cases h
  · intro hmod
    exact ⟨_, if_neg (not_not.mpr hmod)⟩

/-- Without padding the bytes are the items. -/
theorem frombuffer_unpadded (h : Decodes m a fmt channels) (hle : m.isBigendian = 0) (hstep : m.step = m.row) :
    frombuffer (ItemType.of fmt) m.data = .ok a.items := by
  have hitem := fun r hr c hc k hk => h.item_eq (r := r) (c := c) (k := k) hr hc hk
  rw [h.row_eq] at hstep
  obtain rfl := h.view_eq
  refine frombuffer_items (a := m.view fmt channels) ?_ fun r hr c hc k hk => ?_
  · rw [h.length_eq, hstep]
    show m.width * channels * fmt.itemsize * m.height = m.height * (m.width * channels) * fmt.itemsize
    ring
  · rw [hitem r hr c hc k hk, hle]
    have hoffset : (r * (m.width * channels) + (c * channels + k)) * fmt.itemsize =
        (m.view fmt channels).offset r c k := by
      show _ = r * m.step + c * (fmt.itemsize * channels) + k * fmt.itemsize
      rw [hstep]
      ring
    show wordValue false (slice m.data ((r * (m.width * channels) + (c * channels + k)) * fmt.itemsize) fmt.itemsize) = _
    rw [hoffset]
    rfl

/-- The joined rows are the items. -/
theorem frombuffer_stripRows (h : Decodes m a fmt channels) (hle : m.isBigendian = 0) :
    frombuffer (ItemType.of fmt) (stripRows m.data m.height m.step m.row) = .ok a.items := by
  have hitem := fun r hr c hc k hk => h.item_eq (r := r) (c := c) (k := k) hr hc hk
  have hinside := fun r c k hc hk => h.inside_row (r := r) (c := c) (k := k) hc hk
  have hrow := h.row_eq
  have hstep : m.row ≤ m.step := by
    rw [hrow]
    exact h.row_le
  have hblock : ∀ r < m.height, (slice m.data (r * m.step) m.row).length = m.row := by
    intro r hr
    have hend := block_le hr m.step
    rw [Nat.mul_comm m.height, ← h.length_eq] at hend
    exact length_slice (by omega)
  obtain rfl := h.view_eq
  refine frombuffer_items (a := m.view fmt channels) ?_ fun r hr c hc k hk => ?_
  · refine (length_flatMap_range hblock).trans ?_
    rw [hrow]
    show m.height * (m.width * channels * fmt.itemsize) = m.height * (m.width * channels) * fmt.itemsize
    ring
  · rw [hitem r hr c hc k hk, hle]
    have hin := hinside r c k hc hk
    have hoffset : (m.view fmt channels).offset r c k = r * m.step + (c * channels + k) * fmt.itemsize := by
      show r * m.step + c * (fmt.itemsize * channels) + k * fmt.itemsize = _
      ring
    rw [hoffset] at hin ⊢
    show wordValue false (slice (stripRows m.data m.height m.step m.row)
      ((r * (m.width * channels) + (c * channels + k)) * fmt.itemsize) fmt.itemsize) = _
    have hword : (r * (m.width * channels) + (c * channels + k)) * fmt.itemsize =
        r * m.row + (c * channels + k) * fmt.itemsize := by
      rw [hrow]
      ring
    rw [hword, stripRows, slice_flatMap_range hblock hr (by omega), slice_slice _ (by omega)]
    rfl

/-! ## The order of the channels -/

theorem length_items (a : NDArray) : a.items.length = a.height * (a.width * a.channels) := by
  unfold NDArray.items
  refine length_flatMap_range fun r _ => length_flatMap_range fun c _ => ?_
  rw [List.length_map, List.length_range]

/-- The item of a pixel, by its number. -/
theorem getD_items (a : NDArray) {r c k : ℕ} (hr : r < a.height) (hc : c < a.width) (hk : k < a.channels) :
    a.items.getD ((r * a.width + c) * a.channels + k) 0 = a.item r c k := by
  have hchannels : ∀ r c, ((List.range a.channels).map (a.item r c)).length = a.channels := by
    intro r c
    rw [List.length_map, List.length_range]
  have hpixel : c * a.channels + k < a.width * a.channels := by
    have hend := block_le hc a.channels
    omega
  have hnumber : (r * a.width + c) * a.channels + k = r * (a.width * a.channels) + (c * a.channels + k) := by ring
  rw [hnumber, List.getD_eq_getElem?_getD]
  unfold NDArray.items
  rw [getElem?_flatMap_range (fun r _ => length_flatMap_range fun c _ => hchannels r c) hr hpixel,
    getElem?_flatMap_range (fun c _ => hchannels r c) hc hk, List.getElem?_map, List.getElem?_range hk]
  rfl

/-- Channels selected from the items of the array. -/
theorem selectChannels_items (a : NDArray) {channels : List ℕ} (hchannels : ∀ k ∈ channels, k < a.channels)
    (dtype : ItemType) :
    (NpArray.selectChannels ⟨[a.height, a.width, a.channels], dtype, a.items⟩ channels).items =
      (List.range a.height).flatMap fun r => (List.range a.width).flatMap fun c => channels.map fun k => a.item r c k := by
  show ((List.range (a.height * a.width)).flatMap fun p => channels.map fun k =>
    a.items.getD (p * a.channels + k) 0) = _
  rw [flatMap_range_mul]
  refine List.flatMap_congr fun r hr => List.flatMap_congr fun c hc => List.map_congr_left fun k hk => ?_
  exact getD_items a (List.mem_range.mp hr) (List.mem_range.mp hc) (hchannels k hk)

theorem reshape_items {a : NDArray} {shape : List ℕ} (hshape : shape.prod = a.height * (a.width * a.channels))
    (dtype : ItemType) : reshape dtype shape a.items = .ok ⟨shape, dtype, a.items⟩ := by
  unfold reshape
  rw [if_neg]
  rw [not_not, length_items, hshape]

/-- No channel changes its place. -/
theorem sameArray_items {encoding : String} (a : NDArray) (he : encoding ∉ ["rgb8", "rgba8"]) :
    SameArray encoding a
      ⟨if a.channels = 1 then [a.height, a.width] else [a.height, a.width, a.channels], ItemType.of a.dtype, a.items⟩ := by
  refine ⟨rfl, rfl, ?_⟩
  simp only [exchange, if_neg he]
  rfl

/-- The channels are put in another order. -/
theorem sameArray_selectChannels {encoding : String} {a : NDArray} {channels : List ℕ} (hmany : a.channels ≠ 1)
    (he : channels = (List.range a.channels).map (exchange encoding)) (hlt : ∀ k ∈ channels, k < a.channels) :
    SameArray encoding a
      (NpArray.selectChannels ⟨[a.height, a.width, a.channels], ItemType.of a.dtype, a.items⟩ channels) := by
  have hlength : channels.length = a.channels := by rw [he, List.length_map, List.length_range]
  refine ⟨?_, rfl, ?_⟩
  · rw [if_neg hmany]
    show [a.height, a.width, channels.length] = _
    rw [hlength]
  · rw [selectChannels_items a hlt, he]
    simp only [List.map_map]
    rfl

/-- The items of the strict decoder are put in the order of OpenCV. -/
theorem shapeArray_items (h : Decodes m a fmt channels) :
    ∃ b, shapeArray m (ItemType.of fmt) channels a.items = .ok b ∧ SameArray m.encoding a b := by
  have horder := formats_order h.known
  have hreshape : reshape (ItemType.of fmt) [m.height, m.width, channels] a.items =
      .ok ⟨[m.height, m.width, channels], ItemType.of fmt, a.items⟩ := by
    refine reshape_items ?_ _
    rw [h.view_eq]
    simp [Image.view]
  obtain rfl := h.view_eq
  unfold shapeArray
  rw [hreshape]
  rcases horder with ⟨he, rfl⟩ | ⟨he, rfl⟩ | ⟨hrgb, hrgba⟩
  · rw [if_neg (by decide)]
    refine ⟨_, if_pos (by rw [he]; decide), ?_⟩
    refine sameArray_selectChannels (a := m.view fmt 3) (show 3 ≠ 1 by decide) ?_
      (show ∀ k ∈ (List.range 3).reverse, k < 3 by decide)
    rw [he]
    rfl
  · rw [if_neg (by decide)]
    refine ⟨_, (if_neg (by rw [he]; decide)).trans (if_pos (by rw [he]; decide)), ?_⟩
    refine sameArray_selectChannels (a := m.view fmt 4) (show 4 ≠ 1 by decide) ?_ (show ∀ k ∈ [2, 1, 0, 3], k < 4 by decide)
    rw [he]
    rfl
  · have he : m.encoding ∉ ["rgb8", "rgba8"] := by
      simp only [List.mem_cons, List.not_mem_nil, or_false, not_or] at hrgb hrgba ⊢
      exact ⟨hrgb.1, hrgba.1⟩
    have hsame := sameArray_items (m.view fmt channels) he
    by_cases hone : channels = 1
    · rw [if_pos (show (m.view fmt channels).channels = 1 from hone)] at hsame
      refine ⟨_, (if_pos hone).trans (reshape_items ?_ _), hsame⟩
      show [m.height, m.width].prod = m.height * (m.width * channels)
      simp [hone]
    · rw [if_neg (show (m.view fmt channels).channels ≠ 1 from hone)] at hsame
      exact ⟨_, (if_neg hone).trans ((if_neg hrgb).trans (if_neg hrgba)), hsame⟩

/-- **When the two decoders agree.** For a little-endian message that the strict decoder accepts, `ros_image_to_numpy` returns
the same array, up to the exchange of red and blue, just when the data are whole items; otherwise it raises. -/
theorem decoders_agree (ha : imageArray m = .ok a) (hle : m.isBigendian = 0) :
    (∃ b, rosImageToNumpy m = .ok b ∧ SameArray m.encoding a b) ↔ a.dtype.itemsize ∣ m.data.length := by
  obtain ⟨fmt, channels, h⟩ := imageArray_ok.1 ha
  have hdtype : a.dtype = fmt := by
    rw [h.view_eq]
    rfl
  rw [hdtype]
  unfold rosImageToNumpy
  rw [lookupEncoding_formats h.known]
  simp only [ItemType.itemsize_of]
  rw [← h.row_eq]
  constructor
  · rintro ⟨b, hb, -⟩
    obtain ⟨items, hitems, -⟩ := bind_ok.mp hb
    have hdvd := frombuffer_ok.mp ⟨items, hitems⟩
    rwa [ItemType.itemsize_of] at hdvd
  · intro hdvd
    obtain ⟨b, hb, hsame⟩ := shapeArray_items h
    refine ⟨b, ?_, hsame⟩
    by_cases hstep : m.step = m.row
    · refine bind_ok.mpr ⟨_, frombuffer_unpadded h hle hstep, (if_neg fun hno => hno.1 hstep).trans ?_⟩
      exact bind_ok.mpr ⟨_, rfl, hb⟩
    · have hpos : 0 < m.step := by
        have hrow := h.row_le
        rw [← h.row_eq] at hrow
        omega
      obtain ⟨items, hitems⟩ : ∃ items, frombuffer (ItemType.of fmt) m.data = .ok items :=
        frombuffer_ok.mpr (by rwa [ItemType.itemsize_of])
      refine bind_ok.mpr ⟨items, hitems, (if_pos ⟨hstep, hpos⟩).trans ?_⟩
      exact bind_ok.mpr ⟨_, frombuffer_stripRows h hle, hb⟩

end

/-- **A message that one decoder accepts and the other refuses**: one 16-bit pixel in a row of three bytes. -/
theorem padded_depth_refused :
    imageArray ⟨⟨0, 0, ""⟩, 1, 1, "16UC1", 0, 3, [1, 0, 0]⟩ =
        .ok (Image.view ⟨⟨0, 0, ""⟩, 1, 1, "16UC1", 0, 3, [1, 0, 0]⟩ .u2 1) ∧
      rosImageToNumpy ⟨⟨0, 0, ""⟩, 1, 1, "16UC1", 0, 3, [1, 0, 0]⟩ =
        .error (.value "buffer size must be a multiple of element size") := by
  decide

/-- Two RGB pixels, each row with a byte of padding. -/
theorem decoders_agree_padded :
    ∃ b, rosImageToNumpy ⟨⟨0, 0, ""⟩, 2, 1, "rgb8", 0, 4, [1, 2, 3, 0, 4, 5, 6, 0]⟩ = .ok b ∧
      SameArray "rgb8" (Image.view ⟨⟨0, 0, ""⟩, 2, 1, "rgb8", 0, 4, [1, 2, 3, 0, 4, 5, 6, 0]⟩ .u1 3) b :=
  (decoders_agree (m := ⟨⟨0, 0, ""⟩, 2, 1, "rgb8", 0, 4, [1, 2, 3, 0, 4, 5, 6, 0]⟩) (by decide) rfl).2 (by decide)

end Agilex.Collect
