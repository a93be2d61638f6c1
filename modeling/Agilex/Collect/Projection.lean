import Agilex.Lib.Scatter
import Mathlib.Algebra.Order.Floor.Ring
import Mathlib.Data.Rat.Floor
import Mathlib.Tactic.Linarith
import Mathlib.Tactic.NormNum

/-!
# Projecting a lidar cloud into the camera

`projectLidarToDepth` transforms the points into the camera frame, keeps those in front of the camera, computes their pixel,
keeps those in the image, and writes their depth from far to near. Arithmetic is exact: over any ordered field with a floor.

- `written` is the list of the points that are written, found by two masks over arrays in step (`projectLidarToDepth_eq`);
- `projection_correct`: each pixel holds the least depth assigned to it.
-/

namespace Agilex.Collect

open Agilex.Lib

/-! ## The model -/

/-- The coordinates of a point. -/
structure Point (𝕜 : Type) where
  x : 𝕜
  y : 𝕜
  z : 𝕜
  deriving DecidableEq, Repr

/-- The transform that the lookup returns: a rotation as a quaternion, and a translation. -/
structure Transform (𝕜 : Type) where
  qx : 𝕜
  qy : 𝕜
  qz : 𝕜
  qw : 𝕜
  translation : Point 𝕜

/-- A depth image: the value of the pixel in row `v` and column `u`. -/
abbrev DepthImage := ℤ × ℤ → ℕ

variable {𝕜 : Type} [Field 𝕜] [LinearOrder 𝕜]

/-- `R @ p + tv`, `R` the rotation matrix of the quaternion. -/
def Transform.apply (t : Transform 𝕜) (p : Point 𝕜) : Point 𝕜 where
  x := (1 - 2 * (t.qy * t.qy + t.qz * t.qz)) * p.x + 2 * (t.qx * t.qy - t.qz * t.qw) * p.y +
    2 * (t.qx * t.qz + t.qy * t.qw) * p.z + t.translation.x
  y := 2 * (t.qx * t.qy + t.qz * t.qw) * p.x + (1 - 2 * (t.qx * t.qx + t.qz * t.qz)) * p.y +
    2 * (t.qy * t.qz - t.qx * t.qw) * p.z + t.translation.y
  z := 2 * (t.qx * t.qz - t.qy * t.qw) * p.x + 2 * (t.qy * t.qz + t.qx * t.qw) * p.y +
    (1 - 2 * (t.qx * t.qx + t.qy * t.qy)) * p.z + t.translation.z

section

variable (K : Fin 3 → Fin 3 → 𝕜)

/-- The projected coordinates of a point in the camera frame. -/
def projectX (c : Point 𝕜) : 𝕜 := K 0 0 * c.x / c.z + K 0 2

def projectY (c : Point 𝕜) : 𝕜 := K 1 1 * c.y / c.z + K 1 2

/-- The entries of a matrix that the projection reads. -/
def intrinsics {α : Type} (A : Fin 3 → Fin 3 → α) : List α := [A 0 0, A 0 2, A 1 1, A 1 2]

variable [FloorRing 𝕜]

/-- `astype` to integers: the fraction is cut off. -/
def toInt (x : 𝕜) : ℤ := if 0 ≤ x then ⌊x⌋ else ⌈x⌉

/-- `np.clip(z * 1000, 0, 65535).astype(np.uint16)`. -/
def depthValue (z : 𝕜) : ℕ := (toInt (min (max (z * 1000) 0) 65535)).toNat

/-- The pixel is in the image. -/
def InImage (W H : ℕ) (u v : ℤ) : Prop := (0 ≤ u ∧ u < W) ∧ 0 ≤ v ∧ v < H

instance (W H : ℕ) (u v : ℤ) : Decidable (InImage W H u v) := inferInstanceAs (Decidable (_ ∧ _))

/-- `project_lidar_to_depth`, and `_project_lidar_to_depth` once the intrinsics and the lidar frame are known. -/
def projectLidarToDepth (argsort : Argsort 𝕜) (tfs : Option (Transform 𝕜)) (W H : ℕ) (pts : List (Point 𝕜)) :
    Option DepthImage :=
  match tfs with
  | none => none
  | some tfs =>
    let xyz := pts.map tfs.apply
    let front := xyz.map fun c => decide (5 / 100 < c.z)
    let xyz := compress front xyz
    if xyz.length = 0 then none
    else
      let Z := xyz.map Point.z
      let u := xyz.map fun c => toInt (projectX K c)
      let v := xyz.map fun c => toInt (projectY K c)
      let valid := (u.zip v).map fun p => decide (InImage W H p.1 p.2)
      let u := compress valid u
      let v := compress valid v
      let Z := compress valid Z
      if u.length = 0 then none
      else
        -- from far to near, so that near points overwrite far ones
        let order := (argsort.order Z).reverse
        some (scatter (fun _ => 0) (((gather order v).zip (gather order u)).zip ((gather order Z).map depthValue)))

/-! ## The points written -/

/-- A point is assigned to a pixel: it is in front of the camera, and its coordinates as integers are those of the pixel. -/
def Assigned (t : Transform 𝕜) (p : Point 𝕜) (u v : ℤ) : Prop :=
  5 / 100 < (t.apply p).z ∧ toInt (projectX K (t.apply p)) = u ∧ toInt (projectY K (t.apply p)) = v

/-- The points in the camera frame that pass both masks. -/
def written (t : Transform 𝕜) (W H : ℕ) (pts : List (Point 𝕜)) : List (Point 𝕜) :=
  ((pts.map t.apply).filter fun c => decide (5 / 100 < c.z)).filter fun c =>
    decide (InImage W H (toInt (projectX K c)) (toInt (projectY K c)))

/-- The pixel of a point, row first. -/
def pixel (c : Point 𝕜) : ℤ × ℤ := (toInt (projectY K c), toInt (projectX K c))

variable {K}

theorem mem_written {t : Transform 𝕜} {W H : ℕ} {pts : List (Point 𝕜)} {c : Point 𝕜} :
    c ∈ written K t W H pts ↔ ∃ p ∈ pts, t.apply p = c ∧ ∃ u v, InImage W H u v ∧ Assigned K t p u v := by
  unfold written
  rw [List.mem_filter, List.mem_filter, List.mem_map]
  simp only [decide_eq_true_eq]
  constructor
  · rintro ⟨⟨⟨p, hp, rfl⟩, hfront⟩, hin⟩
    exact ⟨p, hp, rfl, _, _, hin, hfront, rfl, rfl⟩
  · rintro ⟨p, hp, rfl, u, v, hin, hfront, rfl, rfl⟩
    exact ⟨⟨⟨p, hp, rfl⟩, hfront⟩, hin⟩

/-- The points in the order in which they are written. -/
def farToNear (argsort : Argsort 𝕜) (l : List (Point 𝕜)) : List (Point 𝕜) :=
  gather (argsort.order (l.map Point.z)).reverse l

omit [FloorRing 𝕜] [Field 𝕜] in
theorem mem_farToNear {argsort : Argsort 𝕜} {l : List (Point 𝕜)} {c : Point 𝕜} : c ∈ farToNear argsort l ↔ c ∈ l := by
  have hperm : (argsort.order (l.map Point.z)).Perm (List.range l.length) := by
    have hlength := argsort.perm (l.map Point.z)
    rwa [List.length_map] at hlength
  rw [farToNear, gather_reverse, List.mem_reverse]
  exact (gather_perm hperm).mem_iff

omit [FloorRing 𝕜] [Field 𝕜] in
theorem farToNear_descending (argsort : Argsort 𝕜) (l : List (Point 𝕜)) :
    (farToNear argsort l).Pairwise fun c d => d.z ≤ c.z := by
  have hsorted := argsort.sorted (l.map Point.z)
  rw [gather_map] at hsorted
  rw [farToNear, gather_reverse]
  exact List.pairwise_reverse.mpr (List.pairwise_map.mp hsorted)

/-- **The arrays stay in step**: the depths are written point by point, from far to near. -/
theorem projectLidarToDepth_eq (argsort : Argsort 𝕜) (t : Transform 𝕜) (W H : ℕ) (pts : List (Point 𝕜)) :
    projectLidarToDepth K argsort (some t) W H pts =
      if written K t W H pts = [] then none
      else some (scatter (fun _ => 0)
        ((farToNear argsort (written K t W H pts)).map fun c => (pixel K c, depthValue c.z))) := by
  have hfront : compress ((pts.map t.apply).map fun c => decide (5 / 100 < c.z)) (pts.map t.apply) =
      (pts.map t.apply).filter fun c => decide (5 / 100 < c.z) := by
    have h := compress_map (fun c : Point 𝕜 => decide (5 / 100 < c.z)) id (pts.map t.apply)
    rwa [List.map_id, List.map_id] at h
  unfold projectLidarToDepth farToNear written
  simp only [hfront]
  generalize (pts.map t.apply).filter (fun c => decide (5 / 100 < c.z)) = xyz
  simp only [List.zip_map', List.map_map, Function.comp_def]
  simp only [compress_map, gather_map, List.zip_map', List.map_map, Function.comp_def, List.length_map,
    List.length_eq_zero_iff]
  split
  · rename_i hnone
    rw [hnone, List.filter_nil, if_pos rfl]
  · rfl

theorem projectLidarToDepth_none {argsort : Argsort 𝕜} {t : Transform 𝕜} {W H : ℕ} {pts : List (Point 𝕜)} :
    projectLidarToDepth K argsort (some t) W H pts = none ↔
      ∀ p ∈ pts, ∀ u v, InImage W H u v → ¬Assigned K t p u v := by
  have hempty : written K t W H pts = [] ↔ ∀ p ∈ pts, ∀ u v, InImage W H u v → ¬Assigned K t p u v := by
    rw [List.eq_nil_iff_forall_not_mem]
    constructor
    · intro h p hp u v hin ha
      exact h _ (mem_written.mpr ⟨p, hp, rfl, u, v, hin, ha⟩)
    · rintro h c hc
      obtain ⟨p, hp, -, u, v, hin, ha⟩ := mem_written.mp hc
      exact h p hp u v hin ha
  rw [projectLidarToDepth_eq, ← hempty]
  split <;> simp_all

/-! ## The nearest point of a pixel -/

/-- A depth buffer: a pixel to which no point is assigned is zero, and the others have the depth of a nearest point. -/
structure DepthBuffer (K : Fin 3 → Fin 3 → 𝕜) (t : Transform 𝕜) (W H : ℕ) (pts : List (Point 𝕜)) (depth : DepthImage) :
    Prop where
  empty : ∀ u v, (∀ p ∈ pts, ¬(InImage W H u v ∧ Assigned K t p u v)) → depth (v, u) = 0
  nearest : ∀ u v, (∃ p ∈ pts, InImage W H u v ∧ Assigned K t p u v) →
    ∃ p ∈ pts, Assigned K t p u v ∧ (∀ q ∈ pts, Assigned K t q u v → (t.apply p).z ≤ (t.apply q).z) ∧
      depth (v, u) = depthValue (t.apply p).z

/-- The pixels written are those the points are assigned to. -/
theorem mem_entries {argsort : Argsort 𝕜} {t : Transform 𝕜} {W H : ℕ} {pts : List (Point 𝕜)} {u v : ℤ} {z : 𝕜} :
    ((v, u), z) ∈ ((farToNear argsort (written K t W H pts)).map fun c => (pixel K c, c.z)) ↔
      ∃ p ∈ pts, (InImage W H u v ∧ Assigned K t p u v) ∧ (t.apply p).z = z := by
  rw [List.mem_map]
  constructor
  · rintro ⟨c, hc, he⟩
    obtain ⟨p, hp, rfl, u', v', hin, ha⟩ := mem_written.mp (mem_farToNear.mp hc)
    obtain ⟨hpixel, rfl⟩ := Prod.mk.inj he
    obtain ⟨hv, hu⟩ := Prod.mk.inj hpixel
    have hu' : u' = u := ha.2.1.symm.trans hu
    have hv' : v' = v := ha.2.2.symm.trans hv
    rw [hu', hv'] at hin ha
    exact ⟨p, hp, ⟨hin, ha⟩, rfl⟩
  · rintro ⟨p, hp, ⟨hin, ha⟩, rfl⟩
    refine ⟨t.apply p, mem_farToNear.mpr (mem_written.mpr ⟨p, hp, rfl, u, v, hin, ha⟩), ?_⟩
    rw [pixel, ha.2.1, ha.2.2]

/-- **The code computes a depth buffer.** -/
theorem depthBuffer {argsort : Argsort 𝕜} {t : Transform 𝕜} {W H : ℕ} {pts : List (Point 𝕜)} {depth : DepthImage}
    (h : projectLidarToDepth K argsort (some t) W H pts = some depth) : DepthBuffer K t W H pts depth := by
  rw [projectLidarToDepth_eq] at h
  split at h
  · cases h
  obtain rfl := Option.some.inj h
  have hvalues : ((farToNear argsort (written K t W H pts)).map fun c => (pixel K c, depthValue c.z)) =
      ((farToNear argsort (written K t W H pts)).map fun c => (pixel K c, c.z)).map (Prod.map id depthValue) := by
    rw [List.map_map]
    rfl
  have hdescending : ((farToNear argsort (written K t W H pts)).map fun c => (pixel K c, c.z)).Pairwise
      fun p q => q.2 ≤ p.2 := List.pairwise_map.mpr (farToNear_descending argsort _)
  rw [hvalues]
  constructor
  · intro u v hno
    refine scatter_of_not_mem ?_ _
    rw [List.map_map, List.mem_map]
    rintro ⟨⟨i, z⟩, hi, rfl⟩
    obtain ⟨p, hp, hin, -⟩ := mem_entries.mp hi
    exact hno p hp hin
  · rintro u v ⟨p, hp, hin⟩
    have hi : (v, u) ∈ ((farToNear argsort (written K t W H pts)).map fun c => (pixel K c, c.z)).map Prod.fst :=
      List.mem_map_of_mem (mem_entries.mpr ⟨p, hp, hin, rfl⟩)
    obtain ⟨z, hz, hmin, hvalue⟩ := scatter_least depthValue hdescending hi fun _ => 0
    obtain ⟨q, hq, hqin, rfl⟩ := mem_entries.mp hz
    exact ⟨q, hq, hqin.2, fun r hr har => hmin _ (mem_entries.mpr ⟨r, hr, ⟨hqin.1, har⟩, rfl⟩), hvalue⟩

/-- Clouds with the same points have one depth buffer. -/
theorem DepthBuffer.unique {t : Transform 𝕜} {W H : ℕ} {pts pts' : List (Point 𝕜)} {depth depth' : DepthImage}
    (h : DepthBuffer K t W H pts depth) (h' : DepthBuffer K t W H pts' depth') (hpts : ∀ p, p ∈ pts ↔ p ∈ pts') :
    depth = depth' := by
  funext ⟨v, u⟩
  by_cases hex : ∃ p ∈ pts, InImage W H u v ∧ Assigned K t p u v
  · have hex' : ∃ p ∈ pts', InImage W H u v ∧ Assigned K t p u v := by
      obtain ⟨p, hp, hin⟩ := hex
      exact ⟨p, (hpts p).mp hp, hin⟩
    obtain ⟨p, hp, ha, hmin, hvalue⟩ := h.nearest u v hex
    obtain ⟨q, hq, ha', hmin', hvalue'⟩ := h'.nearest u v hex'
    have hz : (t.apply p).z = (t.apply q).z :=
      le_antisymm (hmin q ((hpts q).mpr hq) ha') (hmin' p ((hpts p).mp hp) ha)
    rw [hvalue, hvalue', hz]
  · have hno : ∀ p ∈ pts, ¬(InImage W H u v ∧ Assigned K t p u v) := fun p hp hin => hex ⟨p, hp, hin⟩
    rw [h.empty u v hno, h'.empty u v fun p hp => hno p ((hpts p).mpr hp)]

/-! ## Values -/

variable [IsStrictOrderedRing 𝕜]

/-- The value of a depth in front of the camera. -/
theorem depthValue_eq {z : 𝕜} (hz : 5 / 100 < z) : (depthValue z : ℤ) = ⌊min (1000 * z) 65535⌋ := by
  have hpos : 0 ≤ z * 1000 := by linarith
  have hclip : 0 ≤ min (max (z * 1000) 0) 65535 := le_min (le_max_right _ _) (by norm_num)
  unfold depthValue toInt
  rw [if_pos hclip, Int.toNat_of_nonneg (Int.floor_nonneg.mpr hclip), max_eq_left hpos, mul_comm]

/-- It is at least fifty millimetres. -/
theorem depthValue_ge {z : 𝕜} (hz : 5 / 100 < z) : 50 ≤ depthValue z := by
  have hfloor : (50 : ℤ) ≤ ⌊min (1000 * z) 65535⌋ := by
    rw [Int.le_floor]
    refine le_min ?_ (by norm_num)
    push_cast
    linarith
  rw [← depthValue_eq hz] at hfloor
  exact_mod_cast hfloor

/-- **The depth image is a correct depth buffer.** There is none just when no point is assigned to a pixel of the image; a
pixel is zero when no point is assigned to it, and else the least depth in millimetres, cut off at 65535; so no value lies
between 0 and 50, and the order of the points plays no part. -/
theorem projection_correct (argsort : Argsort 𝕜) (K : Fin 3 → Fin 3 → 𝕜) (t : Transform 𝕜) (W H : ℕ)
    (pts : List (Point 𝕜)) :
    (projectLidarToDepth K argsort (some t) W H pts = none ↔
      ∀ p ∈ pts, ∀ u v, InImage W H u v → ¬Assigned K t p u v) ∧
    (∀ depth, projectLidarToDepth K argsort (some t) W H pts = some depth → ∀ u v, InImage W H u v →
      ((∀ p ∈ pts, ¬Assigned K t p u v) → depth (v, u) = 0) ∧
      ((∃ p ∈ pts, Assigned K t p u v) → ∃ p ∈ pts, Assigned K t p u v ∧
        (∀ q ∈ pts, Assigned K t q u v → (t.apply p).z ≤ (t.apply q).z) ∧
        (depth (v, u) : ℤ) = ⌊min (1000 * (t.apply p).z) 65535⌋) ∧
      (depth (v, u) ≠ 0 → 50 ≤ depth (v, u))) ∧
    ∀ (argsort' : Argsort 𝕜) (pts' : List (Point 𝕜)), pts'.Perm pts →
      projectLidarToDepth K argsort' (some t) W H pts' = projectLidarToDepth K argsort (some t) W H pts := by
  refine ⟨projectLidarToDepth_none, fun depth hdepth u v hin => ?_, fun argsort' pts' hperm => ?_⟩
  · have hbuffer := depthBuffer hdepth
    have hnearest : (∃ p ∈ pts, Assigned K t p u v) → ∃ p ∈ pts, InImage W H u v ∧ Assigned K t p u v := by
      rintro ⟨p, hp, ha⟩
      exact ⟨p, hp, hin, ha⟩
    refine ⟨fun hno => hbuffer.empty u v fun p hp h => hno p hp h.2, fun hex => ?_, fun hne => ?_⟩
    · obtain ⟨p, hp, ha, hmin, hvalue⟩ := hbuffer.nearest u v (hnearest hex)
      refine ⟨p, hp, ha, hmin, ?_⟩
      rw [hvalue, depthValue_eq ha.1]
    · have hex : ∃ p ∈ pts, Assigned K t p u v := by
        by_contra hno
        exact hne (hbuffer.empty u v fun p hp h => hno ⟨p, hp, h.2⟩)
      obtain ⟨p, -, ha, -, hvalue⟩ := hbuffer.nearest u v (hnearest hex)
      rw [hvalue]
      exact depthValue_ge ha.1
  · have hmem : ∀ p, p ∈ pts' ↔ p ∈ pts := fun p => hperm.mem_iff
    cases h' : projectLidarToDepth K argsort' (some t) W H pts' with
    | none =>
      rw [projectLidarToDepth_none] at h'
      exact (projectLidarToDepth_none.mpr fun p hp => h' p ((hmem p).mpr hp)).symm
    | some depth' =>
      cases h : projectLidarToDepth K argsort (some t) W H pts with
      | none =>
        rw [projectLidarToDepth_none] at h
        have hnone : projectLidarToDepth K argsort' (some t) W H pts' = none :=
          projectLidarToDepth_none.mpr fun p hp => h p ((hmem p).mp hp)
        rw [h'] at hnone
        cases hnone
      | some depth => rw [(depthBuffer h').unique (depthBuffer h) hmem]

end

/-! ## Points on the optical axis -/

/-- The camera and the lidar at one place. -/
def coincident : Transform ℚ := ⟨0, 0, 0, 1, ⟨0, 0, 0⟩⟩

/-- Two points on one ray, in either order. -/
theorem projection_correct_swap :
    projectLidarToDepth (fun _ _ => 1) Argsort.stable (some coincident) 2 2 [⟨0, 0, 2⟩, ⟨0, 0, 1⟩] =
      projectLidarToDepth (fun _ _ => 1) Argsort.stable (some coincident) 2 2 [⟨0, 0, 1⟩, ⟨0, 0, 2⟩] :=
  (projection_correct Argsort.stable (fun _ _ => 1) coincident 2 2 [⟨0, 0, 1⟩, ⟨0, 0, 2⟩]).2.2 _ _ (List.Perm.swap _ _ _)

/-- The near one is seen. -/
example : (projectLidarToDepth (fun _ _ => 1) Argsort.stable (some coincident) 2 2 [⟨0, 0, 2⟩, ⟨0, 0, 1⟩]).map (· (1, 1)) =
    some 1000 := by
  decide +kernel

end Agilex.Collect
