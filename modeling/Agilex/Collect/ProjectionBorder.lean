import Agilex.Collect.Projection

/-!
# Points beyond the border of the image

Coordinates are converted to integers by cutting off the fraction, before they are compared with the size of the image: a
coordinate between -1 and 0 becomes 0 (`toInt_inside`), so that column 0 and row 0 also receive points from outside.

- `draws` is what `projectLidarToDepth` writes into the image, point by point (`projectLidarToDepth_draws`);
- `border_points` says which clouds are drawn within the image all the same.
-/

namespace Agilex.Collect

open Agilex.Lib

variable {𝕜 : Type} [Field 𝕜] [LinearOrder 𝕜] [FloorRing 𝕜]

/-! ## Cutting off the fraction -/

theorem toInt_of_nonneg {x : 𝕜} (hx : 0 ≤ x) {n : ℤ} : toInt x = n ↔ n ≤ x ∧ x < n + 1 := by
  unfold toInt
  rw [if_pos hx, Int.floor_eq_iff]

theorem toInt_of_neg {x : 𝕜} (hx : x < 0) {n : ℤ} : toInt x = n ↔ (n : 𝕜) - 1 < x ∧ x ≤ n := by
  unfold toInt
  rw [if_neg (not_le.mpr hx), Int.ceil_eq_iff]

variable [IsStrictOrderedRing 𝕜]

/-- The coordinates whose integer lies between 0 and `W`. -/
theorem toInt_inside {x : 𝕜} {W : ℕ} : (0 ≤ toInt x ∧ toInt x < W) ↔ 0 < W ∧ -1 < x ∧ x < W := by
  rcases le_or_gt 0 x with hx | hx
  · obtain ⟨hle, hlt⟩ := (toInt_of_nonneg hx).mp rfl
    constructor
    · rintro ⟨h0, hW⟩
      have hnext : (toInt x : 𝕜) + 1 ≤ W := by exact_mod_cast hW
      exact ⟨by omega, by linarith, by linarith⟩
    · rintro ⟨-, -, hW⟩
      have h0 : (-1 : ℤ) < toInt x := by
        have h0 : (-1 : 𝕜) < toInt x := by linarith
        exact_mod_cast h0
      have hless : toInt x < (W : ℤ) := by
        have hless : (toInt x : 𝕜) < W := lt_of_le_of_lt hle hW
        exact_mod_cast hless
      exact ⟨by omega, hless⟩
  · obtain ⟨hlt, hle⟩ := (toInt_of_neg hx).mp rfl
    constructor
    · rintro ⟨h0, hW⟩
      have hzero : (0 : 𝕜) ≤ toInt x := by exact_mod_cast h0
      have hwidth : (0 : 𝕜) ≤ W := Nat.cast_nonneg W
      exact ⟨by omega, by linarith, by linarith⟩
    · rintro ⟨hwidth, hx', -⟩
      have hzero : toInt x = 0 := (toInt_of_neg hx).mpr ⟨by push_cast; linarith, by push_cast; exact hx.le⟩
      rw [hzero]
      exact ⟨le_rfl, by exact_mod_cast hwidth⟩

/-! ## What is drawn -/

/-- A write to the depth image: the point in the camera frame, its pixel and its depth value. -/
structure Draw (𝕜 : Type) where
  point : Point 𝕜
  u : ℤ
  v : ℤ
  value : ℕ

section

omit [IsStrictOrderedRing 𝕜]

/-- The writes of a call, in order. -/
def draws (K : Fin 3 → Fin 3 → 𝕜) (argsort : Argsort 𝕜) (t : Transform 𝕜) (W H : ℕ) (pts : List (Point 𝕜)) :
    List (Draw 𝕜) :=
  (farToNear argsort (written K t W H pts)).map fun c =>
    ⟨c, toInt (projectX K c), toInt (projectY K c), depthValue c.z⟩

variable {K : Fin 3 → Fin 3 → 𝕜} {argsort : Argsort 𝕜} {t : Transform 𝕜} {W H : ℕ} {pts : List (Point 𝕜)}

/-- **The image is what is drawn**: the writes one after the other, over zeros. -/
theorem projectLidarToDepth_draws : projectLidarToDepth K argsort (some t) W H pts =
    if draws K argsort t W H pts = [] then none
    else some (scatter (fun _ => 0) ((draws K argsort t W H pts).map fun d => ((d.v, d.u), d.value))) := by
  have hempty : draws K argsort t W H pts = [] ↔ written K t W H pts = [] := by
    simp only [List.eq_nil_iff_forall_not_mem, draws, List.mem_map, not_exists, not_and, mem_farToNear]
    exact ⟨fun h c hc => h ⟨c, _, _, _⟩ c hc rfl, fun h _ c hc _ => h c hc⟩
  simp only [projectLidarToDepth_eq, hempty]
  split
  · rfl
  · rw [draws, List.map_map]
    rfl

/-- A point of the cloud is drawn where it is in front of the camera and its pixel is in the image. -/
theorem mem_draws {d : Draw 𝕜} : d ∈ draws K argsort t W H pts ↔
    ∃ p ∈ pts, 5 / 100 < (t.apply p).z ∧ InImage W H (toInt (projectX K (t.apply p))) (toInt (projectY K (t.apply p))) ∧
      d = ⟨t.apply p, toInt (projectX K (t.apply p)), toInt (projectY K (t.apply p)), depthValue (t.apply p).z⟩ := by
  simp only [draws, List.mem_map, mem_farToNear, mem_written]
  constructor
  · rintro ⟨c, ⟨p, hp, rfl, u, v, hin, hfront, rfl, rfl⟩, rfl⟩
    exact ⟨p, hp, hfront, hin, rfl⟩
  · rintro ⟨p, hp, hfront, hin, rfl⟩
    exact ⟨t.apply p, ⟨p, hp, rfl, _, _, hin, hfront, rfl, rfl⟩, rfl⟩

/-- A pixel that is not zero has been drawn. -/
theorem drawn_of_ne_zero {depth : DepthImage} (h : projectLidarToDepth K argsort (some t) W H pts = some depth) {u v : ℤ}
    (hne : depth (v, u) ≠ 0) : ∃ d ∈ draws K argsort t W H pts, d.u = u ∧ d.v = v ∧ d.value = depth (v, u) := by
  have hbuffer := depthBuffer h
  have hex : ∃ p ∈ pts, InImage W H u v ∧ Assigned K t p u v := by
    by_contra hno
    exact hne (hbuffer.empty u v fun p hp hin => hno ⟨p, hp, hin⟩)
  obtain ⟨p, hp, ⟨hfront, rfl, rfl⟩, -, hvalue⟩ := hbuffer.nearest u v hex
  obtain ⟨-, -, hin, -⟩ := hex
  exact ⟨_, mem_draws.mpr ⟨p, hp, hfront, hin, rfl⟩, rfl, rfl, hvalue.symm⟩

end

/-! ## The border -/

/-- A point is drawn where it belongs: its real coordinates lie in the image, and in the cell of its pixel. -/
structure DrawnInside (K : Fin 3 → Fin 3 → 𝕜) (W H : ℕ) (d : Draw 𝕜) : Prop where
  column : 0 ≤ projectX K d.point ∧ projectX K d.point < W
  row : 0 ≤ projectY K d.point ∧ projectY K d.point < H
  cellColumn : (d.u : 𝕜) ≤ projectX K d.point ∧ projectX K d.point < d.u + 1
  cellRow : (d.v : 𝕜) ≤ projectY K d.point ∧ projectY K d.point < d.v + 1

/-- A point in the camera frame that is drawn beyond the border: in front of the camera, outside the image, and less than a
pixel from its first column or row. -/
structure BeyondBorder (K : Fin 3 → Fin 3 → 𝕜) (W H : ℕ) (c : Point 𝕜) : Prop where
  front : 5 / 100 < c.z
  column : -1 < projectX K c ∧ projectX K c < W
  row : -1 < projectY K c ∧ projectY K c < H
  outside : projectX K c < 0 ∨ projectY K c < 0

/-- **Which points are drawn inside the image.** The image is made of the writes of `draws`. Of an image with at least one
pixel, every point that is written to a pixel lies in the cell of that pixel just when no point lies in the band of one
pixel before the first column or row; and then each value of the image is that of a point which lies in the cell. -/
theorem border_points (K : Fin 3 → Fin 3 → 𝕜) (argsort : Argsort 𝕜) (t : Transform 𝕜) (W H : ℕ) (pts : List (Point 𝕜)) :
    (projectLidarToDepth K argsort (some t) W H pts = if draws K argsort t W H pts = [] then none
      else some (scatter (fun _ => 0) ((draws K argsort t W H pts).map fun d => ((d.v, d.u), d.value)))) ∧
    ((∀ d ∈ draws K argsort t W H pts, DrawnInside K W H d) ↔
      (0 < W → 0 < H → ∀ p ∈ pts, ¬BeyondBorder K W H (t.apply p))) ∧
    ((0 < W → 0 < H → ∀ p ∈ pts, ¬BeyondBorder K W H (t.apply p)) →
      ∀ depth, projectLidarToDepth K argsort (some t) W H pts = some depth → ∀ u v, depth (v, u) ≠ 0 →
        ∃ p ∈ pts, depth (v, u) = depthValue (t.apply p).z ∧ DrawnInside K W H ⟨t.apply p, u, v, depth (v, u)⟩) := by
  have hiff : (∀ d ∈ draws K argsort t W H pts, DrawnInside K W H d) ↔
      (0 < W → 0 < H → ∀ p ∈ pts, ¬BeyondBorder K W H (t.apply p)) := by
    constructor
    · rintro h hW hH p hp ⟨hfront, hcolumn, hrow, houtside⟩
      have hin : InImage W H (toInt (projectX K (t.apply p))) (toInt (projectY K (t.apply p))) :=
        ⟨toInt_inside.mpr ⟨hW, hcolumn⟩, toInt_inside.mpr ⟨hH, hrow⟩⟩
      have hdrawn := h _ (mem_draws.mpr ⟨p, hp, hfront, hin, rfl⟩)
      rcases houtside with hx | hy
      · exact absurd hdrawn.column.1 (not_le.mpr hx)
      · exact absurd hdrawn.row.1 (not_le.mpr hy)
    · rintro h d hd
      obtain ⟨p, hp, hfront, hin, rfl⟩ := mem_draws.mp hd
      obtain ⟨hW, hcolumn⟩ := toInt_inside.mp hin.1
      obtain ⟨hH, hrow⟩ := toInt_inside.mp hin.2
      have hnot : ¬(projectX K (t.apply p) < 0 ∨ projectY K (t.apply p) < 0) := fun houtside =>
        h hW hH p hp ⟨hfront, hcolumn, hrow, houtside⟩
      rw [not_or, not_lt, not_lt] at hnot
      exact ⟨⟨hnot.1, hcolumn.2⟩, ⟨hnot.2, hrow.2⟩, (toInt_of_nonneg hnot.1).mp rfl, (toInt_of_nonneg hnot.2).mp rfl⟩
  refine ⟨projectLidarToDepth_draws, hiff, fun h depth hdepth u v hne => ?_⟩
  obtain ⟨d, hd, rfl, rfl, hvalue⟩ := drawn_of_ne_zero hdepth hne
  have hdrawn := hiff.mpr h d hd
  obtain ⟨p, hp, -, -, rfl⟩ := mem_draws.mp hd
  exact ⟨p, hp, hvalue.symm, hvalue ▸ hdrawn⟩

/-! ## A point left of the image -/

/-- The camera matrix with unit focal length and the principal point in the corner. -/
def unitCamera : Fin 3 → Fin 3 → ℚ := fun i j => if i = j then 1 else 0

/-- **A point that is drawn from outside the image**: the column of the only point is -1/2, and the pixel in the corner gets
its depth. -/
theorem left_point_drawn :
    (projectLidarToDepth unitCamera Argsort.stable (some coincident) 1 1 [⟨-1 / 2, 0, 1⟩]).map (· (0, 0)) = some 1000 ∧
      projectX unitCamera (coincident.apply ⟨-1 / 2, 0, 1⟩) = -1 / 2 ∧
      ¬∀ d ∈ draws unitCamera Argsort.stable coincident 1 1 [⟨-1 / 2, 0, 1⟩], DrawnInside unitCamera 1 1 d := by
  have hx : projectX unitCamera (coincident.apply ⟨-1 / 2, 0, 1⟩) = -1 / 2 := by decide +kernel
  refine ⟨by decide +kernel, hx, fun h => ?_⟩
  have hin : InImage 1 1 (toInt (projectX unitCamera (coincident.apply ⟨-1 / 2, 0, 1⟩)))
      (toInt (projectY unitCamera (coincident.apply ⟨-1 / 2, 0, 1⟩))) := by decide +kernel
  have hdrawn := h _ (mem_draws.mpr ⟨_, List.mem_singleton_self _, by decide +kernel, hin, rfl⟩)
  have hcolumn := hdrawn.column.1
  rw [hx] at hcolumn
  norm_num at hcolumn

/-- A point in the middle of the pixel is drawn inside, and one beside the image is not drawn. -/
theorem border_points_inside : ∃ depth,
    projectLidarToDepth unitCamera Argsort.stable (some coincident) 1 1 [⟨1 / 2, 1 / 2, 1⟩, ⟨3, 1 / 2, 1⟩] = some depth ∧
      depth (0, 0) = 1000 ∧ ∃ p ∈ [⟨1 / 2, 1 / 2, 1⟩, ⟨3, 1 / 2, 1⟩],
        DrawnInside unitCamera 1 1 ⟨coincident.apply p, 0, 0, depth (0, 0)⟩ := by
  have himage : (projectLidarToDepth unitCamera Argsort.stable (some coincident) 1 1
      [⟨1 / 2, 1 / 2, 1⟩, ⟨3, 1 / 2, 1⟩]).map (· (0, 0)) = some 1000 := by decide +kernel
  obtain ⟨depth, hdepth, hvalue⟩ := Option.map_eq_some_iff.mp himage
  have hx : projectX unitCamera (coincident.apply ⟨1 / 2, 1 / 2, 1⟩) = 1 / 2 := by decide +kernel
  have hx' : projectX unitCamera (coincident.apply ⟨3, 1 / 2, 1⟩) = 3 := by decide +kernel
  have hy : ∀ x ∈ [1 / 2, 3], projectY unitCamera (coincident.apply ⟨x, 1 / 2, 1⟩) = 1 / 2 := by decide +kernel
  have hnone : ∀ p ∈ [⟨1 / 2, 1 / 2, 1⟩, ⟨3, 1 / 2, 1⟩], ¬BeyondBorder unitCamera 1 1 (coincident.apply p) := by
    rintro p hp ⟨-, -, -, houtside⟩
    simp only [List.mem_cons, List.not_mem_nil, or_false] at hp
    rcases hp with rfl | rfl
    · rw [hx, hy _ (by simp)] at houtside
      norm_num at houtside
    · rw [hx', hy _ (by simp)] at houtside
      norm_num at houtside
  obtain ⟨p, hp, -, hdrawn⟩ := (border_points unitCamera Argsort.stable coincident 1 1 _).2.2 (fun _ _ => hnone) depth
    hdepth 0 0 (by rw [hvalue]; decide)
  exact ⟨depth, hdepth, hvalue, p, hp, hdrawn⟩

end Agilex.Collect
