import Agilex.Capture.Geometry

/-!
# Image decoding and frame validation

`imageArray` decodes an image message as a strided view of its bytes; `validateRgbd` checks an image pair with its
calibration and gives the fraction of valid depth pixels.
-/

namespace Agilex.Capture

open Agilex.Lib Binary64

/-! ## Decoding -/

/-- The item types of the image encodings: `u1`, `u2`, `f4`. -/
inductive Dtype where
  | u1
  | u2
  | f4
  deriving DecidableEq, Repr

def Dtype.itemsize : Dtype → ℕ
  | .u1 => 1
  | .u2 => 2
  | .f4 => 4

/-- The table `formats` of `image_array`: item type and channels of an encoding. -/
def formats : List (String × Dtype × ℕ) :=
  [("rgb8", .u1, 3), ("bgr8", .u1, 3), ("rgba8", .u1, 4), ("bgra8", .u1, 4), ("mono8", .u1, 1), ("16UC1", .u2, 1),
    ("32FC1", .f4, 1)]

/-- A strided view of a byte buffer, as `np.ndarray(shape, dtype, buffer, strides)`. -/
structure NDArray where
  height : ℕ
  width : ℕ
  channels : ℕ
  dtype : Dtype
  bigendian : Bool
  rowStride : ℕ
  pixelStride : ℕ
  itemStride : ℕ
  buffer : List UInt8
  deriving DecidableEq, Repr

namespace NDArray

/-- The position of the first byte of an item. -/
def offset (a : NDArray) (r c k : ℕ) : ℕ := r * a.rowStride + c * a.pixelStride + k * a.itemStride

/-- The bits of the item in row `r`, column `c`, channel `k`, read in the array's byte order. -/
def item (a : NDArray) (r c k : ℕ) : ℕ :=
  let bytes := (List.range a.dtype.itemsize).map fun i => (a.buffer.getD (a.offset r c k + i) 0).toNat
  (if a.bigendian then bytes else bytes.reverse).foldl (fun acc byte => acc * 256 + byte) 0

/-- The items in row, column and channel order. -/
def items (a : NDArray) : List ℕ :=
  (List.range a.height).flatMap fun r => (List.range a.width).flatMap fun c => (List.range a.channels).map (a.item r c)

end NDArray

def imageArray (msg : Image) : Except PyErr NDArray :=
  match formats.lookup msg.encoding with
  | none => .error (.value ("Unsupported image encoding: " ++ msg.encoding))
  | some (fmt, channels) =>
    let row := msg.width * channels * fmt.itemsize
    if msg.width ≤ 0 ∨ msg.height ≤ 0 ∨ msg.step < row ∨ msg.data.length ≠ msg.step * msg.height then
      .error (.value "Invalid image dimensions, row stride or payload length")
    else
      .ok { height := msg.height, width := msg.width, channels := channels, dtype := fmt,
            bigendian := msg.isBigendian ≠ 0, rowStride := msg.step, pixelStride := fmt.itemsize * channels,
            itemStride := fmt.itemsize, buffer := msg.data }

/-! ## Validation -/

/-- `np.isfinite(d) & (d > 0)` of an item: an integer above zero, or a float with sign bit clear, exponent not all ones
and some bit set. -/
def positiveItem : Dtype → ℕ → Bool
  | .f4, bits => 0 < bits && bits < 0x7F800000
  | _, bits => 0 < bits

/-- `np.mean` of a boolean array. -/
def positiveFraction (d : NDArray) : ℚ :=
  divInt (d.items.countP (positiveItem d.dtype)) d.items.length

structure Calibration where
  width : ℕ
  height : ℕ
  distortionModel : String
  K : List Double
  D : List Double
  R : List Double
  P : List Double
  binningX : ℕ
  binningY : ℕ
  roi : RegionOfInterest
  frameId : String
  deriving DecidableEq, Repr

def calibration (info : CameraInfo) : Calibration where
  width := info.width
  height := info.height
  distortionModel := info.distortionModel
  K := info.K.toList
  D := info.D
  R := info.R.toList
  P := info.P.toList
  binningX := info.binningX
  binningY := info.binningY
  roi := info.roi
  frameId := info.header.frameId

/-- `np.eye(3)`, row by row. -/
def eye3 : List ℚ := [1, 0, 0, 0, 1, 0, 0, 0, 1]

/-- The checks of one camera info in `validate_rgbd`. -/
def validateInfo (info : CameraInfo) : Except PyErr Unit :=
  match allFinite info.K.toList, allFinite info.D, allFinite info.R.toList, allFinite info.P.toList with
  | some K, some _, some R, some _ =>
    if K.getD 0 0 ≤ 0 ∨ K.getD 4 0 ≤ 0 then .error (.value "Invalid CameraInfo")
    else if info.binningX ∉ [0, 1] ∨ info.binningY ∉ [0, 1] ∨ info.roi.xOffset ≠ 0 ∨ info.roi.yOffset ≠ 0 ∨ info.roi.width ≠ 0 ∨
        info.roi.height ≠ 0 then
      .error (.value "ROI/binning requires explicit calibration handling; unsupported")
    else if ¬∀ p ∈ R.zip eye3, isclose (lit (1 / 10 ^ 6)) p.1 p.2 then
      .error (.value "Input must use the unrectified optical frame (R=I)")
    else .ok ()
  | _, _, _, _ => .error (.value "Invalid CameraInfo")

/-- The sizes and frames `validate_rgbd` compares: width, height and `frame_id`. -/
def sizeFrame (height width : ℕ) (h : Header) : ℕ × ℕ × String := (width, height, h.frameId)

def validateRgbd (rgb depth : Image) (ci di : CameraInfo) (optical : String) : Except PyErr ℚ :=
  if rgb.encoding ∉ ["rgb8", "bgr8", "rgba8", "bgra8", "mono8"] then .error (.value "Unsupported color encoding")
  else if depth.encoding ∉ ["16UC1", "32FC1"] then .error (.value "Depth must be 16UC1 or 32FC1")
  else do
    let _ ← imageArray rgb
    let d ← imageArray depth
    let expected := (rgb.width, rgb.height, optical)
    if ¬∀ s ∈ [sizeFrame rgb.height rgb.width rgb.header, sizeFrame depth.height depth.width depth.header,
        sizeFrame ci.height ci.width ci.header, sizeFrame di.height di.width di.header], s = expected then
      .error (.value "RGB/aligned-depth/calibration dimensions or optical frames disagree")
    else do
      validateInfo ci
      validateInfo di
      if calibration ci ≠ calibration di then
        .error (.value "Aligned depth must use the color pixel model; CameraInfo differs")
      else .ok (positiveFraction d)

/-! ## What validation does not read -/

/-- Two headers that name the same frame. -/
def Header.SameFrame (h h' : Header) : Prop := h.frameId = h'.frameId

theorem imageArray_header (m : Image) (h : Header) : imageArray { m with header := h } = imageArray m := rfl

theorem validateInfo_header (m : CameraInfo) (h : Header) : validateInfo { m with header := h } = validateInfo m := rfl

theorem calibration_header {m : CameraInfo} {h : Header} (e : h.SameFrame m.header) :
    calibration { m with header := h } = calibration m := by
  unfold Header.SameFrame at e
  simp only [calibration, e]

theorem sizeFrame_header {height width : ℕ} {h h' : Header} (e : h'.SameFrame h) :
    sizeFrame height width h' = sizeFrame height width h := by
  unfold Header.SameFrame at e
  simp only [sizeFrame, e]

/-- Sequence numbers and stamps play no part in validation. -/
theorem validateRgbd_header {rgb depth : Image} {ci di : CameraInfo} {optical : String} {h₁ h₂ h₃ h₄ : Header}
    (e₁ : h₁.SameFrame rgb.header) (e₂ : h₂.SameFrame depth.header) (e₃ : h₃.SameFrame ci.header)
    (e₄ : h₄.SameFrame di.header) :
    validateRgbd { rgb with header := h₁ } { depth with header := h₂ } { ci with header := h₃ }
      { di with header := h₄ } optical = validateRgbd rgb depth ci di optical := by
  simp only [validateRgbd, imageArray_header, validateInfo_header, sizeFrame_header e₁, sizeFrame_header e₂,
    sizeFrame_header e₃, sizeFrame_header e₄, calibration_header e₃, calibration_header e₄]

end Agilex.Capture
