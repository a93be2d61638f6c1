import Agilex.Lib.Binary64

/-!
# Capture configuration

`Config` with its defaults and `validate`; the integer periods and tolerances the code derives from it. The floats of a
configuration are finite doubles: `validate` refuses nan and the infinities, which the type leaves out.
-/

namespace Agilex.Capture

open Agilex.Lib Binary64

/-! ## Exceptions -/

/-- Why a queued frame is dropped: the messages of the `LookupError`s of `_make_group`, and `invalid_rgbd` for its
`ValueError`s. -/
inductive DropReason where
  | noBracketingOdometry
  | odometryGap
  | missingCameraInfo
  | missingStaticExtrinsics
  | invalidRgbd
  deriving DecidableEq, Repr

def DropReason.text : DropReason → String
  | .noBracketingOdometry => "no_bracketing_odometry"
  | .odometryGap => "odometry_gap"
  | .missingCameraInfo => "missing_camera_info"
  | .missingStaticExtrinsics => "missing_static_extrinsics"
  | .invalidRgbd => "invalid_rgbd"

/-- Every reason, once. -/
def DropReason.all : List DropReason :=
  [.noBracketingOdometry, .odometryGap, .missingCameraInfo, .missingStaticExtrinsics, .invalidRgbd]

/-- The exceptions of `lookup_transform_core`. -/
inductive Tf2Error where
  | lookup
  | connectivity
  | extrapolation
  | other
  deriving DecidableEq, Repr

/-- The Python exceptions the capture code raises. -/
inductive PyErr where
  | lookup (r : DropReason)
  | value (msg : String)
  | runtime (msg : String)
  | key
  | attribute
  | overflow
  | zeroDivision
  | tf2 (e : Tf2Error)
  deriving DecidableEq, Repr

/-- `int(x)` of a float. -/
def pyInt (x : ℚ) : Except PyErr ℤ :=
  match toInt x with
  | some n => .ok n
  | none => .error .overflow

/-- An integer of a float is its truncation. -/
theorem pyInt_ok {x : ℚ} {n : ℤ} (h : pyInt x = .ok n) : n = trunc x := by
  unfold pyInt toInt at h
  by_cases hov : Overflows x <;> simp only [hov, ↓reduceIte, reduceCtorEq, Except.ok.injEq] at h
  exact h.symm

theorem pyInt_of_fits {x : ℚ} (h : ¬Overflows x) : pyInt x = .ok (trunc x) := by
  have hint : toInt x = some (trunc x) := if_neg h
  unfold pyInt
  rw [hint]

/-- `round(x)` of a float. -/
def pyRound (x : ℚ) : Except PyErr ℤ :=
  match toIntEven x with
  | some n => .ok n
  | none => .error .overflow

/-- A decimal literal: the nearest double. -/
abbrev lit (x : ℚ) : ℚ := rnd x

/-! ## Config -/

structure Config where
  rate : ℚ := 6
  rgbdSlop : ℚ := lit (1 / 100)
  maxOdomGap : ℚ := lit (1 / 4)
  wait : ℚ := 3
  cameraTimeOffset : ℚ := 0
  depthScale : ℚ := lit (1 / 1000)
  world : String := "lio_map"
  body : String := "body"
  optical : String := "camera_color_optical_frame"
  imageBuffer : ℤ := 60
  deriving DecidableEq, Repr

namespace Config

/-- The fields `validate` wants positive, by name. -/
def positives (c : Config) : List (String × ℚ) :=
  [("rate", c.rate), ("rgbd_slop", c.rgbdSlop), ("max_odom_gap", c.maxOdomGap), ("wait", c.wait),
    ("depth_scale", c.depthScale)]

def validate (c : Config) : Except PyErr Unit :=
  match c.positives.find? fun kv => decide (kv.2 ≤ 0) with
  | some kv => .error (.value (kv.1 ++ " must be finite and positive"))
  | none =>
    if 10 < c.rate ∨ lit (1 / 20) ≤ c.rgbdSlop ∨ 1 < c.maxOdomGap then
      .error (.value "Require rate <= 10 Hz, RGB-D slop < 50 ms, odom gap <= 1 s")
    else if c.imageBuffer < 2 ∨ c.world = "" ∨ c.body = "" ∨ c.optical = "" then
      .error (.value "Invalid buffer or frame names")
    else .ok ()

/-- What `validate` accepts. -/
structure Valid (c : Config) : Prop where
  rate_pos : 0 < c.rate
  slop_pos : 0 < c.rgbdSlop
  gap_pos : 0 < c.maxOdomGap
  wait_pos : 0 < c.wait
  scale_pos : 0 < c.depthScale
  rate_le : c.rate ≤ 10
  slop_lt : c.rgbdSlop < lit (1 / 20)
  gap_le : c.maxOdomGap ≤ 1
  buffer_two : 2 ≤ c.imageBuffer
  names : c.world ≠ "" ∧ c.body ≠ "" ∧ c.optical ≠ ""

theorem validate_ok {c : Config} : c.validate = .ok () ↔ c.Valid := by
  have hpos : (c.positives.find? fun kv => decide (kv.2 ≤ 0)) = none ↔
      0 < c.rate ∧ 0 < c.rgbdSlop ∧ 0 < c.maxOdomGap ∧ 0 < c.wait ∧ 0 < c.depthScale := by
    simp [positives, List.find?_eq_none]
  constructor
  · intro h
    unfold validate at h
    split at h
    · cases h
    · rename_i hnone
      obtain ⟨h1, h2, h3, h4, h5⟩ := hpos.1 hnone
      split at h
      · cases h
      · rename_i hlim
        split at h
        · cases h
        · rename_i hbuf
          push Not at hlim hbuf
          exact ⟨h1, h2, h3, h4, h5, hlim.1, hlim.2.1, hlim.2.2, hbuf.1, hbuf.2⟩
  · intro h
    unfold validate
    rw [hpos.2 ⟨h.rate_pos, h.slop_pos, h.gap_pos, h.wait_pos, h.scale_pos⟩]
    have hlim : ¬(10 < c.rate ∨ lit (1 / 20) ≤ c.rgbdSlop ∨ 1 < c.maxOdomGap) := by
      push Not; exact ⟨h.rate_le, h.slop_lt, h.gap_le⟩
    have hbuf : ¬(c.imageBuffer < 2 ∨ c.world = "" ∨ c.body = "" ∨ c.optical = "") := by
      push Not; exact ⟨h.buffer_two, h.names⟩
    simp only [hlim, hbuf, ↓reduceIte]

/-- The defaults pass their own check. -/
theorem default_valid : ({} : Config).validate = .ok () := by decide +kernel

/-! ## Derived integers -/

/-- `int(rgbd_slop*1e9)`. -/
def slopNs (c : Config) : ℤ := trunc (mul c.rgbdSlop (10 ^ 9))

/-- A valid slop is far from overflowing. -/
theorem Valid.slop_ok {c : Config} (h : c.Valid) : pyInt (mul c.rgbdSlop (10 ^ 9)) = .ok c.slopNs ∧ 0 ≤ c.slopNs := by
  have h0 : 0 ≤ mul c.rgbdSlop (10 ^ 9) := rnd_nonneg (mul_nonneg h.slop_pos.le (by norm_num))
  have h1 : mul c.rgbdSlop (10 ^ 9) ≤ rnd (lit (1 / 20) * 10 ^ 9) :=
    rnd_mono (mul_le_mul_of_nonneg_right h.slop_lt.le (by norm_num))
  have h2 : rnd (lit (1 / 20) * 10 ^ 9) < pow2 1024 := by decide +kernel
  have hov : ¬Overflows (mul c.rgbdSlop (10 ^ 9)) := by
    unfold Overflows; rw [abs_of_nonneg h0]; exact not_le.2 (h1.trans_lt h2)
  exact ⟨pyInt_of_fits hov, trunc_nonneg h0⟩

end Config

end Agilex.Capture
