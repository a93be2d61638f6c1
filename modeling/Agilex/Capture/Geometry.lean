import Agilex.Capture.Message
import Agilex.Lib.Outcome
import Mathlib.Data.Fin.VecNotation

/-!
# Poses and interpolation

`poseMatrix`, `transformMatrix` and `interpolate`. The functions of NumPy and `tf.transformations` they call are the
fields of a `Numerics`; `Numerics.Faithful` is what the recorder relies on: turning a finite camera matrix into a pose
message and back gives a close matrix. Nothing tests whether an interpolated position or a product is finite.
-/

namespace Agilex.Capture

open Agilex.Lib Binary64

/-! ## Matrices -/

/-- A 4×4 homogeneous matrix of finite floats. -/
abbrev Mat := Fin 4 → Fin 4 → ℚ

/-- A quaternion of finite floats, `xyzw`. -/
structure Quat where
  x : ℚ
  y : ℚ
  z : ℚ
  w : ℚ
  deriving DecidableEq, Repr

/-- `np.isclose(a, b, atol=atol)`, with the default relative tolerance. -/
def isclose (atol a b : ℚ) : Prop := |sub a b| ≤ add atol (mul (lit (1 / 10 ^ 5)) |b|)

instance (atol a b : ℚ) : Decidable (isclose atol a b) := inferInstanceAs (Decidable (_ ≤ _))

theorem isclose_refl {atol : ℚ} (h : 0 ≤ atol) (a : ℚ) : isclose atol a a := by
  have hm : 0 ≤ mul (lit (1 / 10 ^ 5)) |a| := rnd_nonneg (mul_nonneg (rnd_nonneg (by norm_num)) (abs_nonneg a))
  unfold isclose
  rw [show sub a a = 0 by simp [sub, rnd_zero], abs_zero]
  exact rnd_nonneg (add_nonneg h hm)

/-- `np.allclose(a, b, atol=atol)` of matrices. -/
def allclose (atol : ℚ) (a b : Mat) : Prop := ∀ i j, isclose atol (a i j) (b i j)

instance (atol : ℚ) (a b : Mat) : Decidable (allclose atol a b) := inferInstanceAs (Decidable (∀ _ _, _))

theorem allclose_refl {atol : ℚ} (h : 0 ≤ atol) (a : Mat) : allclose atol a a := fun i j => isclose_refl h (a i j)

/-- A 4×4 matrix of floats that an operation may have driven out of range. -/
abbrev FloatMat := Fin 4 → Fin 4 → Double

def Mat.floats (m : Mat) : FloatMat := fun i j => .fin (m i j)

def FloatMat.Finite (m : FloatMat) : Prop := ∀ i j, (m i j).finite?.isSome = true

instance (m : FloatMat) : Decidable m.Finite := inferInstanceAs (Decidable (∀ _ _, _))

/-- `np.isclose` of a number and a float. -/
def iscloseTo (atol a : ℚ) : Double → Prop
  | .fin b => isclose atol a b
  | _ => False

instance (atol a : ℚ) : DecidablePred (iscloseTo atol a)
  | .fin _ => inferInstanceAs (Decidable (isclose _ _ _))
  | .inf _ => .isFalse id
  | .nan => .isFalse id

/-- `np.allclose` of a finite matrix and one that may have overflown. -/
def allcloseTo (atol : ℚ) (a : Mat) (b : FloatMat) : Prop := ∀ i j, iscloseTo atol (a i j) (b i j)

instance (atol : ℚ) (a : Mat) (b : FloatMat) : Decidable (allcloseTo atol a b) := inferInstanceAs (Decidable (∀ _ _, _))

/-- `out[:3, 3] = xyz`. -/
def withTranslation {α : Type} (m : Fin 4 → Fin 4 → α) (x y z : α) : Fin 4 → Fin 4 → α := fun i j =>
  if j = 3 then ![x, y, z, m 3 3] i else m i j

/-! ## Library functions -/

/-- `np.linalg.norm`, the functions of `tf.transformations` and the matrix product, whose entries may overflow. -/
structure Numerics where
  norm : Quat → ℚ
  quaternionMatrix : Quat → Mat
  quaternionFromMatrix : Mat → Quat
  quaternionSlerp : Quat → Quat → ℚ → Quat
  matmul : FloatMat → Mat → FloatMat

variable (N : Numerics)

/-! ## Poses -/

def Vector3.finite? (v : Vector3) : Option (ℚ × ℚ × ℚ) :=
  match v.x.finite?, v.y.finite?, v.z.finite? with
  | some x, some y, some z => some (x, y, z)
  | _, _, _ => none

def Quaternion.finite? (q : Quaternion) : Option Quat :=
  match q.x.finite?, q.y.finite?, q.z.finite?, q.w.finite? with
  | some x, some y, some z, some w => some ⟨x, y, z, w⟩
  | _, _, _, _ => none

/-- `quat / np.linalg.norm(quat)`. -/
def Quat.normalize (q : Quat) : Quat :=
  ⟨div q.x (N.norm q), div q.y (N.norm q), div q.z (N.norm q), div q.w (N.norm q)⟩

def poseMatrix (pose : Pose) : Except PyErr Mat :=
  match pose.position.finite?, pose.orientation.finite? with
  | some (x, y, z), some quat =>
    if lit (1 / 100) < |sub (N.norm quat) 1| then .error (.value "Non-finite pose or non-unit quaternion")
    else .ok (withTranslation (N.quaternionMatrix (quat.normalize N)) x y z)
  | _, _ => .error (.value "Non-finite pose or non-unit quaternion")

def transformMatrix (t : TransformStamped) : Except PyErr Mat := poseMatrix N ⟨t.translation, t.rotation⟩

/-- The message of the check `interpolate` makes of its arguments. -/
def interpolationMsg : String := "Interpolation requires two distinct bracketing odometry samples"

/-- The matrix of the body at `target` between two odometry samples, and the interpolation fraction. -/
def interpolate (a b : Odometry) (target : ℤ) : Except PyErr (FloatMat × ℚ) :=
  let ta := a.header.stamp
  let tb := b.header.stamp
  if tb ≤ ta ∨ ¬(ta ≤ target ∧ target ≤ tb) then .error (.value interpolationMsg)
  else do
    let alpha := divInt (target - ta) (tb - ta)
    let ma ← poseMatrix N a.pose
    let mb ← poseMatrix N b.pose
    let out := N.quaternionMatrix
      (N.quaternionSlerp (N.quaternionFromMatrix ma) (N.quaternionFromMatrix mb) alpha)
    let lerp (i : Fin 4) : Double := .ofResult (add (mul (sub 1 alpha) (ma i 3)) (mul alpha (mb i 3)))
    .ok (withTranslation out.floats (lerp 0) (lerp 1) (lerp 2), alpha)

/-- The pose message of a camera matrix. Only the translation can have overflown, which `quaternion_from_matrix` does not
read. -/
def cameraPose (camera : FloatMat) : Pose where
  position := ⟨camera 0 3, camera 1 3, camera 2 3⟩
  orientation :=
    let q := N.quaternionFromMatrix fun i j => (camera i j).finite?.getD 0
    ⟨.fin q.x, .fin q.y, .fin q.z, .fin q.w⟩

/-- `quaternion_from_matrix` inverts `quaternion_matrix` up to rounding: the product of two rigid transforms, if it is
finite, is close to itself when it is written as a pose message and read back. -/
def Numerics.Faithful : Prop :=
  ∀ a b target body alpha t ext, interpolate N a b target = .ok (body, alpha) → transformMatrix N t = .ok ext →
    FloatMat.Finite (N.matmul body ext) →
    ∃ m, poseMatrix N (cameraPose N (N.matmul body ext)) = .ok m ∧ allcloseTo (lit (1 / 10 ^ 6)) m (N.matmul body ext)

variable {N}

/-- What a successful interpolation says of its arguments. -/
theorem interpolate_ok {a b : Odometry} {target : ℤ} {m : FloatMat} {alpha : ℚ}
    (h : interpolate N a b target = .ok (m, alpha)) :
    a.header.stamp < b.header.stamp ∧ a.header.stamp ≤ target ∧ target ≤ b.header.stamp ∧
      alpha = divInt (target - a.header.stamp) (b.header.stamp - a.header.stamp) := by
  unfold interpolate at h
  simp only at h
  split at h
  · cases h
  · rename_i hpre
    push Not at hpre
    obtain ⟨ma, -, h⟩ := bind_ok.1 h
    obtain ⟨mb, -, h⟩ := bind_ok.1 h
    cases h
    exact ⟨hpre.1, hpre.2.1, hpre.2.2, rfl⟩

/-! ## Numerics without rotations

They agree with the libraries as long as nothing turns; for instances. -/

namespace Still

def identity : Mat := fun i j => if i = j then 1 else 0

/-- The quaternion of no rotation. -/
def noRotation : Quat := ⟨0, 0, 0, 1⟩

def numerics : Numerics where
  norm q := |q.w|
  quaternionMatrix _ := identity
  quaternionFromMatrix _ := noRotation
  quaternionSlerp q _ _ := q
  matmul a b := fun i j =>
    match (a i 0).finite?, (a i 1).finite?, (a i 2).finite?, (a i 3).finite? with
    | some x, some y, some z, some w => .ofResult (x * b 0 j + y * b 1 j + z * b 2 j + w * b 3 j)
    | _, _, _, _ => .nan

end Still

end Agilex.Capture
