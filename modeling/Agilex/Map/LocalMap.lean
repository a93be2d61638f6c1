import Agilex.Map.Voxels
import Mathlib.Algebra.Order.Ring.Abs

/-!
# The local map

`lasermap_fov_segment`, `map_incremental` and the part of the main loop between them: a cube around the lidar, moved when
the lidar comes near one of its faces, and the map in the k-d tree.

- `not_has_moved`, `has_cubNeedrm`: of the points of the cube, exactly those outside of the moved one are deleted.
- `run_local_map`: a point of the map is in the cube, unless it was not when it was added.
- `run_remembers`: while the voxel of a point stays in the cube, the map keeps one that is as good.
-/

namespace Agilex.Map

open Function

/-- `cube_len`, `DET_RANGE` and `filter_size_surf`. -/
structure MapParams where
  cubeLen : ℚ
  detRange : ℚ
  filterSizeSurf : ℚ

variable (S : Setting) (c : MapParams)

/-! ## `lasermap_fov_segment` -/

/-- `MOV_THRESHOLD * DET_RANGE`. -/
def movRange : ℚ := S.flt (3 / 2 * c.detRange)

/-- `mov_dist`. -/
def movDist : ℚ :=
  S.flt (max (S.dbl (S.dbl (S.dbl (c.cubeLen - S.dbl (3 * c.detRange)) * (1 / 2)) * S.dbl (9 / 10)))
    (S.flt (c.detRange * (1 / 2))))

/-- The cube around the first position. -/
def firstCube (posLid : Axis → ℚ) : Box where
  vertexMin i := S.flt (S.dbl (posLid i - S.dbl (c.cubeLen / 2)))
  vertexMax i := S.flt (S.dbl (posLid i + S.dbl (c.cubeLen / 2)))

/-- `dist_to_map_edge[i][0] <= MOV_THRESHOLD * DET_RANGE`. -/
def NearMin (box : Box) (posLid : Axis → ℚ) (i : Axis) : Prop :=
  S.flt |S.dbl (posLid i - box.vertexMin i)| ≤ movRange S c

/-- `dist_to_map_edge[i][1] <= MOV_THRESHOLD * DET_RANGE`. -/
def NearMax (box : Box) (posLid : Axis → ℚ) (i : Axis) : Prop :=
  S.flt |S.dbl (posLid i - box.vertexMax i)| ≤ movRange S c

instance (box : Box) (posLid : Axis → ℚ) : DecidablePred (NearMin S c box posLid) :=
  fun _ => inferInstanceAs (Decidable (_ ≤ _))

instance (box : Box) (posLid : Axis → ℚ) : DecidablePred (NearMax S c box posLid) :=
  fun _ => inferInstanceAs (Decidable (_ ≤ _))

/-- `need_move`. -/
def NeedMove (box : Box) (posLid : Axis → ℚ) : Prop := ∃ i, NearMin S c box posLid i ∨ NearMax S c box posLid i

instance (box : Box) (posLid : Axis → ℚ) : Decidable (NeedMove S c box posLid) :=
  inferInstanceAs (Decidable (∃ i, NearMin S c box posLid i ∨ NearMax S c box posLid i))

/-- `New_LocalMap_Points`. -/
def movedCube (box : Box) (posLid : Axis → ℚ) : Box where
  vertexMin i :=
    if NearMin S c box posLid i then S.flt (box.vertexMin i - movDist S c)
    else if NearMax S c box posLid i then S.flt (box.vertexMin i + movDist S c)
    else box.vertexMin i
  vertexMax i :=
    if NearMin S c box posLid i then S.flt (box.vertexMax i - movDist S c)
    else if NearMax S c box posLid i then S.flt (box.vertexMax i + movDist S c)
    else box.vertexMax i

/-- What is left behind along one axis. -/
def slab (box : Box) (posLid : Axis → ℚ) (i : Axis) : Option Box :=
  if NearMin S c box posLid i then
    some { box with vertexMin := update box.vertexMin i (S.flt (box.vertexMax i - movDist S c)) }
  else if NearMax S c box posLid i then
    some { box with vertexMax := update box.vertexMax i (S.flt (box.vertexMin i + movDist S c)) }
  else none

/-- `cub_needrm`. -/
def cubNeedrm (box : Box) (posLid : Axis → ℚ) : List Box := [Axis.x, .y, .z].filterMap (slab S c box posLid)

/-- `Localmap_Initialized`, `LocalMap_Points` and `ikdtree`. -/
structure MapNode where
  localmapInitialized : Bool
  localMapPoints : Box
  ikdtree : KdTree

def MapNode.init : MapNode := ⟨false, ⟨fun _ => 0, fun _ => 0⟩, .empty⟩

def lasermapFovSegment (ptrs : RebuildPtrs) (posLid : Axis → ℚ) (s : MapNode) : MapNode :=
  if !s.localmapInitialized then { s with localmapInitialized := true, localMapPoints := firstCube S c posLid }
  else if ¬ NeedMove S c s.localMapPoints posLid then s
  else
    let boxes := cubNeedrm S c s.localMapPoints posLid
    { s with
      localMapPoints := movedCube S c s.localMapPoints posLid
      ikdtree := if boxes.length > 0 then (S.exec ptrs s.ikdtree (.deletePointBoxes boxes)).1 else s.ikdtree }

/-! ## `map_incremental` -/

/-- `NUM_MATCH_POINTS`. -/
def numMatchPoints : ℕ := 5

/-- `mid_point`. -/
def surfMidPoint (p : Point) : Point := fun a =>
  S.flt (S.dbl (S.dbl (⌊S.dbl (p a / c.filterSizeSurf)⌋ * c.filterSizeSurf) + S.dbl (1 / 2 * c.filterSizeSurf)))

/-- Where a point goes: to `PointToAdd`, to `PointNoNeedDownsample`, or nowhere. -/
inductive MapChoice where
  | add
  | noNeedDownsample
  | skip
deriving DecidableEq, Repr

def mapChoice (p : Point) (pointsNear : List Point) : MapChoice :=
  match pointsNear with
  | [] => .add
  | near :: _ =>
    let mid := surfMidPoint S c p
    if ∀ a, |S.flt (near a - mid a)| > S.dbl (1 / 2 * c.filterSizeSurf) then .noNeedDownsample
    else if pointsNear.length ≥ numMatchPoints ∧
        ∃ q ∈ pointsNear.take numMatchPoints, S.calcDist q mid < S.calcDist p mid then .skip
    else .add

/-- The points of a scan, each with `Nearest_Points` of it, that are treated alike. -/
def chosen (choice : MapChoice) (points : List (Point × List Point)) : List Point :=
  (points.filter fun e => mapChoice S c e.1 e.2 = choice).map (·.1)

/-- `map_incremental`; `Rebuild_Ptr` as it stands in the two calls of `Add_Points`. -/
def mapIncremental (ptrs ptrs' : RebuildPtrs) (points : List (Point × List Point)) (s : MapNode) : MapNode :=
  let k := (S.exec ptrs s.ikdtree (.addPoints (chosen S c .add points) true)).1
  { s with ikdtree := (S.exec ptrs' k (.addPoints (chosen S c .noNeedDownsample points) false)).1 }

/-! ## The main loop -/

/-- What one iteration of the main loop works on: the position, the points of `feats_down_world` with their
`Nearest_Points`, and `Rebuild_Ptr` as it stands in the calls of `Delete_Point_Boxes` and `Add_Points`. -/
structure Iteration where
  posLid : Axis → ℚ
  points : List (Point × List Point)
  deletePtrs : RebuildPtrs
  addPtrs : RebuildPtrs
  addRawPtrs : RebuildPtrs

def Iteration.world (e : Iteration) : List Point := e.points.map (·.1)

/-- An iteration with points in `feats_undistort`, from `lasermap_fov_segment` to `map_incremental`. -/
def mapIteration (e : Iteration) (s : MapNode) : MapNode :=
  let s := lasermapFovSegment S c e.deletePtrs e.posLid s
  if s.ikdtree.rootNode.isNil then
    if e.points.length > 5 then { s with ikdtree := S.build s.ikdtree e.world } else s
  else if e.points.length < 5 then s
  else mapIncremental S c e.addPtrs e.addRawPtrs e.points s

def mapIterations (s : MapNode) : List Iteration → MapNode
  | [] => s
  | e :: es => mapIterations (mapIteration S c e s) es

/-! ## What is deleted -/

section
variable {S c} {box : Box} {posLid : Axis → ℚ} {p : Point}

/-- No point of the moved cube is deleted. -/
theorem not_has_moved (h : ∃ b ∈ cubNeedrm S c box posLid, b.Has p) : ¬ (movedCube S c box posLid).Has p := by
  obtain ⟨b, hb, hp⟩ := h
  obtain ⟨i, -, hi⟩ := List.mem_filterMap.mp hb
  intro hnew
  have hnew := hnew i
  have hp := hp i
  unfold slab at hi
  split at hi
  · next hmin =>
    obtain rfl := Option.some.inj hi
    simp only [movedCube, if_pos hmin, update_self] at hnew hp
    exact absurd hnew.2 (not_lt.mpr hp.1)
  · next hmin =>
    split at hi
    · next hmax =>
      obtain rfl := Option.some.inj hi
      simp only [movedCube, if_neg hmin, if_pos hmax, update_self] at hnew hp
      exact absurd hp.2 (not_lt.mpr hnew.1)
    · simp at hi

/-- The corners of the cube are floats. -/
def IsFloat (S : Setting) (box : Box) : Prop :=
  ∀ i, S.flt (box.vertexMin i) = box.vertexMin i ∧ S.flt (box.vertexMax i) = box.vertexMax i

theorem movDist_nonneg (h : 0 ≤ c.detRange) : 0 ≤ movDist S c := by
  refine S.flt_nonneg (le_max_of_le_right (S.flt_nonneg ?_))
  exact mul_nonneg h (by norm_num)

/-- Of the points of the cube, those outside of the moved one are deleted. -/
theorem has_cubNeedrm (hc : 0 ≤ c.detRange) (hbox : IsFloat S box) (hp : box.Has p)
    (hnew : ¬ (movedCube S c box posLid).Has p) : ∃ b ∈ cubNeedrm S c box posLid, b.Has p := by
  have hm := movDist_nonneg (S := S) hc
  obtain ⟨i, hi⟩ := not_forall.mp hnew
  have hmem : i ∈ [Axis.x, .y, .z] := by cases i <;> simp
  have hpi := hp i
  simp only [movedCube] at hi
  split at hi
  · next hmin =>
    -- the point is not below the cube that has moved down, so it is above it
    have hlow : S.flt (box.vertexMin i - movDist S c) ≤ p i := by
      refine le_trans ?_ hpi.1
      rw [← (hbox i).1]
      exact S.flt_mono (by rw [(hbox i).1]; exact sub_le_self _ hm)
    have hhigh : S.flt (box.vertexMax i - movDist S c) ≤ p i := by
      by_contra hlt
      exact hi ⟨hlow, not_le.mp hlt⟩
    refine ⟨_, List.mem_filterMap.mpr ⟨i, hmem, by rw [slab, if_pos hmin]⟩, fun a => ?_⟩
    by_cases ha : a = i
    · subst ha
      simpa using ⟨hhigh, hpi.2⟩
    · simpa [update_of_ne ha] using hp a
  · next hmin =>
    split at hi
    · next hmax =>
      have hhigh : p i < S.flt (box.vertexMax i + movDist S c) := by
        refine hpi.2.trans_le ?_
        rw [← (hbox i).2]
        exact S.flt_mono (by rw [(hbox i).2]; exact le_add_of_nonneg_right hm)
      have hlow : p i < S.flt (box.vertexMin i + movDist S c) := by
        by_contra hle
        exact hi ⟨not_lt.mp hle, hhigh⟩
      refine ⟨_, List.mem_filterMap.mpr ⟨i, hmem, by rw [slab, if_neg hmin, if_pos hmax]⟩, fun a => ?_⟩
      by_cases ha : a = i
      · subst ha
        simpa using ⟨hpi.1, hlow⟩
      · simpa [update_of_ne ha] using hp a
    · exact absurd hpi hi

end

section
variable {S c} {s : MapNode}

theorem localMapPoints_first (ptrs : RebuildPtrs) (posLid : Axis → ℚ) (hi : s.localmapInitialized = false) :
    (lasermapFovSegment S c ptrs posLid s).localMapPoints = firstCube S c posLid := by
  simp [lasermapFovSegment, hi]

theorem localMapPoints_moved (ptrs : RebuildPtrs) (posLid : Axis → ℚ) (hi : s.localmapInitialized = true) :
    (lasermapFovSegment S c ptrs posLid s).localMapPoints = movedCube S c s.localMapPoints posLid := by
  by_cases hn : NeedMove S c s.localMapPoints posLid
  · simp [lasermapFovSegment, hi, hn]
  · obtain ⟨hmin, hmax⟩ : (∀ i, ¬ NearMin S c s.localMapPoints posLid i) ∧
        ∀ i, ¬ NearMax S c s.localMapPoints posLid i :=
      ⟨fun i h => hn ⟨i, .inl h⟩, fun i h => hn ⟨i, .inr h⟩⟩
    simp [lasermapFovSegment, hi, hn, movedCube, hmin, hmax]

theorem localmapInitialized_segment (ptrs : RebuildPtrs) (posLid : Axis → ℚ) :
    (lasermapFovSegment S c ptrs posLid s).localmapInitialized = true := by
  unfold lasermapFovSegment
  cases hi : s.localmapInitialized with
  | false => rfl
  | true => simp only [Bool.not_true, Bool.false_eq_true, if_false]; split <;> simp [hi]

/-- `lasermap_fov_segment` takes the points of the boxes out of the map, and nothing else. -/
theorem lasermapFovSegment_bag (ptrs : RebuildPtrs) (posLid : Axis → ℚ) (h : s.ikdtree.rootNode.Sound) :
    (lasermapFovSegment S c ptrs posLid s).ikdtree.rootNode.Sound ∧
      (lasermapFovSegment S c ptrs posLid s).ikdtree.rootNode.isNil = s.ikdtree.rootNode.isNil ∧
        (lasermapFovSegment S c ptrs posLid s).ikdtree.rootNode.bag =
          if s.localmapInitialized ∧ NeedMove S c s.localMapPoints posLid then
            s.ikdtree.rootNode.bag.filter fun p => ∀ b ∈ cubNeedrm S c s.localMapPoints posLid, ¬ b.Has p
          else s.ikdtree.rootNode.bag := by
  unfold lasermapFovSegment
  cases hi : s.localmapInitialized with
  | false => simp [h]
  | true =>
    by_cases hn : NeedMove S c s.localMapPoints posLid
    · obtain ⟨hs, hnil, hbag, -⟩ := deletePointBoxes_abs (S := S) ptrs (cubNeedrm S c s.localMapPoints posLid) 0 h
      cases hb : cubNeedrm S c s.localMapPoints posLid with
      | nil => simp [hn, h]
      | cons b bs =>
        rw [hb] at hs hnil hbag
        simp only [hn, Setting.exec, List.length_cons, Nat.succ_pos, Bool.not_true, Bool.false_eq_true, if_false,
          not_true_eq_false, gt_iff_lt, if_true, and_self]
        exact ⟨hs, hnil, hbag⟩
    · simp [hn, h]

/-- `map_incremental` only adds points of the scan. -/
theorem mapIncremental_bag (ptrs ptrs' : RebuildPtrs) (points : List (Point × List Point)) (h : s.ikdtree.rootNode.Sound)
    (hn : s.ikdtree.rootNode.isNil = false) :
    ∃ n m m' n', (mapIncremental S c ptrs ptrs' points s).ikdtree.rootNode.Sound ∧
      (mapIncremental S c ptrs ptrs' points s).ikdtree.rootNode.isNil = false ∧
        S.AddedAll true (chosen S c .add points) s.ikdtree.rootNode.bag n m ∧
          S.AddedAll false (chosen S c .noNeedDownsample points) m n' m' ∧
            (mapIncremental S c ptrs ptrs' points s).ikdtree.rootNode.bag = m' := by
  obtain ⟨n, -, hs, hnil, hall⟩ := addPoints_abs (S := S) ptrs true (chosen S c .add points) 0 h hn
  obtain ⟨n', -, hs', hnil', hall'⟩ :=
    addPoints_abs (S := S) ptrs' false (chosen S c .noNeedDownsample points) 0 hs hnil
  refine ⟨n, _, _, n', ?_, ?_, hall, hall', ?_⟩ <;> simp only [mapIncremental, Setting.exec, hn, hnil, Bool.false_eq_true,
    if_false]
  · exact hs'
  · exact hnil'

theorem chosen_subset (choice : MapChoice) (points : List (Point × List Point)) :
    ∀ p ∈ chosen S c choice points, p ∈ points.map (·.1) := by
  intro p hp
  obtain ⟨e, he, rfl⟩ := List.mem_map.mp hp
  exact List.mem_map.mpr ⟨e, (List.mem_filter.mp he).1, rfl⟩

/-- What one iteration does to the map, after the cube has moved. -/
theorem mapIteration_bag (e : Iteration) (h : s.ikdtree.rootNode.Sound) :
    (mapIteration S c e s).ikdtree.rootNode.Sound ∧
      (mapIteration S c e s).localmapInitialized = (lasermapFovSegment S c e.deletePtrs e.posLid s).localmapInitialized ∧
      (mapIteration S c e s).localMapPoints = (lasermapFovSegment S c e.deletePtrs e.posLid s).localMapPoints ∧
      ∀ q ∈ (mapIteration S c e s).ikdtree.rootNode.bag,
        q ∈ e.world ∨ q ∈ (lasermapFovSegment S c e.deletePtrs e.posLid s).ikdtree.rootNode.bag := by
  obtain ⟨hs, -, -⟩ := lasermapFovSegment_bag (S := S) (c := c) e.deletePtrs e.posLid h
  unfold mapIteration
  generalize lasermapFovSegment S c e.deletePtrs e.posLid s = t at hs
  cases hn : t.ikdtree.rootNode.isNil with
  | true =>
    by_cases hlen : e.points.length > 5
    · simp only [hn, hlen, ↓reduceIte, true_and]
      refine ⟨(S.buildTree_spec _).1, fun q hq => .inl ?_⟩
      change q ∈ (S.buildTree e.world).bag at hq
      rwa [S.bag_buildTree] at hq
    · simp only [hn, hlen, ↓reduceIte, true_and]
      exact ⟨hs, fun q hq => .inr hq⟩
  | false =>
    by_cases hlen : e.points.length < 5
    · simp only [hn, hlen, Bool.false_eq_true, ↓reduceIte, true_and]
      exact ⟨hs, fun q hq => .inr hq⟩
    · simp only [hn, hlen, Bool.false_eq_true, ↓reduceIte]
      obtain ⟨n, m, m', n', hs', -, hadd, hraw, hbag⟩ := mapIncremental_bag (S := S) (c := c) e.addPtrs e.addRawPtrs
        e.points hs hn
      refine ⟨hs', rfl, rfl, fun q hq => ?_⟩
      rw [hbag] at hq
      rcases hraw.subset q hq with hq | hq
      · exact .inl (chosen_subset _ _ q hq)
      · exact (hadd.subset q hq).imp_left (chosen_subset _ _ q)

end

/-! ## The map and the cube -/

/-- The points that are not in the cube of the iteration that they come from. -/
def strays (s : MapNode) : List Iteration → List Point
  | [] => []
  | e :: es =>
    e.world.filter (¬ (lasermapFovSegment S c e.deletePtrs e.posLid s).localMapPoints.Has ·) ++
      strays (mapIteration S c e s) es

/-- A point of the map is in the cube, or a stray. -/
structure Localized (strays : List Point) (s : MapNode) : Prop where
  sound : s.ikdtree.rootNode.Sound
  before : s.localmapInitialized = false → s.ikdtree.rootNode.bag = 0
  isFloat : s.localmapInitialized = true → IsFloat S s.localMapPoints
  within : ∀ q ∈ s.ikdtree.rootNode.bag, s.localMapPoints.Has q ∨ q ∈ strays

section
variable {S c} {s : MapNode} {qs : List Point}

theorem isFloat_firstCube (posLid : Axis → ℚ) : IsFloat S (firstCube S c posLid) :=
  fun _ => ⟨S.flt_flt _, S.flt_flt _⟩

theorem IsFloat.moved {box : Box} (h : IsFloat S box) (posLid : Axis → ℚ) : IsFloat S (movedCube S c box posLid) := by
  intro i
  simp only [movedCube]
  split
  · exact ⟨S.flt_flt _, S.flt_flt _⟩
  · split
    · exact ⟨S.flt_flt _, S.flt_flt _⟩
    · exact h i

/-- The cube moves, and the points that it leaves behind go. -/
theorem Localized.segment (hc : 0 ≤ c.detRange) (h : Localized S qs s) (ptrs : RebuildPtrs) (posLid : Axis → ℚ) :
    Localized S qs (lasermapFovSegment S c ptrs posLid s) := by
  obtain ⟨hs, -, hbag⟩ := lasermapFovSegment_bag (S := S) (c := c) ptrs posLid h.sound
  have hinit := localmapInitialized_segment (S := S) (c := c) (s := s) ptrs posLid
  have hbefore : (lasermapFovSegment S c ptrs posLid s).localmapInitialized = false →
      (lasermapFovSegment S c ptrs posLid s).ikdtree.rootNode.bag = 0 := by
    intro hf
    rw [hinit] at hf
    cases hf
  cases hi : s.localmapInitialized with
  | false =>
    simp only [hi, Bool.false_eq_true, false_and, if_false, h.before hi] at hbag
    refine ⟨hs, hbefore, fun _ => ?_, by simp [hbag]⟩
    rw [localMapPoints_first _ _ hi]
    exact isFloat_firstCube posLid
  | true =>
    have hbox := localMapPoints_moved (S := S) (c := c) ptrs posLid hi
    refine ⟨hs, hbefore, fun _ => hbox ▸ (h.isFloat hi).moved posLid, fun q hq => ?_⟩
    by_cases hn : NeedMove S c s.localMapPoints posLid
    · rw [hbag, if_pos ⟨hi, hn⟩] at hq
      obtain ⟨hq, hkept⟩ := Multiset.mem_filter.mp hq
      refine (h.within q hq).imp_left fun hin => ?_
      rw [hbox]
      by_contra hout
      obtain ⟨b, hb, hbq⟩ := has_cubNeedrm hc (h.isFloat hi) hin hout
      exact hkept b hb hbq
    · have hsame : lasermapFovSegment S c ptrs posLid s = s := by simp [lasermapFovSegment, hi, hn]
      rw [hsame] at hq ⊢
      exact h.within q hq

theorem Localized.step (hc : 0 ≤ c.detRange) (h : Localized S qs s) (e : Iteration) :
    Localized S (qs ++ e.world.filter (¬ (lasermapFovSegment S c e.deletePtrs e.posLid s).localMapPoints.Has ·))
      (mapIteration S c e s) := by
  have ht := h.segment hc e.deletePtrs e.posLid
  have hinit := localmapInitialized_segment (S := S) (c := c) (s := s) e.deletePtrs e.posLid
  obtain ⟨hs, hi, hbox, hsub⟩ := mapIteration_bag (S := S) (c := c) e h.sound
  refine ⟨hs, fun hf => ?_, fun _ => hbox ▸ ht.isFloat hinit, fun q hq => ?_⟩
  · rw [hi, hinit] at hf
    cases hf
  · rw [hbox]
    rcases hsub q hq with hq | hq
    · by_cases hin : (lasermapFovSegment S c e.deletePtrs e.posLid s).localMapPoints.Has q
      · exact .inl hin
      · exact .inr (List.mem_append_right _ (List.mem_filter.mpr ⟨hq, by simpa using hin⟩))
    · exact (ht.within q hq).imp_right (List.mem_append_left _)

/-- A cube of a kilometre and a range of 100 m. -/
def MapParams.multi : MapParams := ⟨1000, 100, 1 / 2⟩

/-- Six points a metre ahead of a lidar that goes straight on. -/
def ahead (x : ℚ) (ptr : RebuildPtr) : Iteration :=
  ⟨fun _ => x, List.replicate 6 (fun _ => x + 1, []), fun _ => ptr, fun _ => ptr, fun _ => none⟩

/-- The lidar comes near the upper faces of the cube. -/
def threeIterations : List Iteration := [ahead 0 none, ahead 200 (some [.left]), ahead 400 (some [])]

end

/-! ## The cube and the lidar -/

/-- What keeps the lidar inside of the cube for `N` iterations: rounding is off by `ε` at most in the range `R` of the
coordinates that come up, the lidar stays in the range `P` and moves by `δ` at most along an axis between two iterations,
and sees no farther than `reach`. -/
structure Tracks (R ε P δ reach : ℚ) (N : ℕ) : Prop where
  flt : ∀ x, |x| ≤ R → |S.flt x - x| ≤ ε
  dbl : ∀ x, |x| ≤ R → |S.dbl x - x| ≤ ε
  rounding : 0 ≤ ε
  motion : 0 ≤ δ
  range : P + c.cubeLen + movDist S c + δ + (2 * N + 8) * ε ≤ R
  jump : δ + ε ≤ movDist S c
  jumpRange : δ + 4 * ε ≤ 2 * movRange S c
  sight : reach + 2 * ε < movRange S c
  width : 2 * movRange S c + movDist S c + (2 * N + 8) * ε ≤ c.cubeLen

/-- Along every axis the lidar keeps away from the faces of the cube. -/
structure Centered (ε : ℚ) (n : ℕ) (box : Box) (posLid : Axis → ℚ) : Prop where
  low : ∀ i, movRange S c - 2 * ε ≤ posLid i - box.vertexMin i
  high : ∀ i, movRange S c - 2 * ε ≤ box.vertexMax i - posLid i
  narrow : ∀ i, c.cubeLen - (2 * n + 6) * ε ≤ box.vertexMax i - box.vertexMin i
  wide : ∀ i, box.vertexMax i - box.vertexMin i ≤ c.cubeLen + (2 * n + 6) * ε

section
variable {S c} {R ε P δ reach : ℚ} {N n : ℕ} {box : Box} {posLid posLid' : Axis → ℚ}

/-- The test for a face, in floats. -/
theorem Tracks.test (h : Tracks S c R ε P δ reach N) {x : ℚ} (hx : |x| + ε ≤ R) :
    |x| - 2 * ε ≤ S.flt |S.dbl x| ∧ S.flt |S.dbl x| ≤ |x| + 2 * ε := by
  have hε := h.rounding
  have habs : |(|S.dbl x| - |x|)| ≤ ε := (abs_abs_sub_abs_le _ _).trans (h.dbl x (by linarith))
  have habs := abs_le.mp habs
  have hf := abs_le.mp (h.flt |S.dbl x| (by rw [abs_abs]; linarith))
  constructor <;> linarith

theorem Tracks.centered_first (h : Tracks S c R ε P δ reach N) (hP : ∀ i, |posLid i| ≤ P) :
    Centered S c ε 0 (firstCube S c posLid) posLid := by
  have hε := h.rounding
  have hδ := h.motion
  have hNε : 0 ≤ N * ε := mul_nonneg (Nat.cast_nonneg N) hε
  have hjump := h.jump
  have hrange := h.range
  have hwidth := h.width
  have hreach := h.jumpRange
  have hends (i : Axis) : |(firstCube S c posLid).vertexMin i - (posLid i - c.cubeLen / 2)| ≤ 3 * ε ∧
      |(firstCube S c posLid).vertexMax i - (posLid i + c.cubeLen / 2)| ≤ 3 * ε := by
    have hp := abs_le.mp (hP i)
    have hhalf := abs_le.mp (h.dbl (c.cubeLen / 2) (abs_le.mpr (by constructor <;> linarith)))
    have hlow := abs_le.mp (h.dbl (posLid i - S.dbl (c.cubeLen / 2)) (abs_le.mpr (by constructor <;> linarith)))
    have hhigh := abs_le.mp (h.dbl (posLid i + S.dbl (c.cubeLen / 2)) (abs_le.mpr (by constructor <;> linarith)))
    have hlow' := abs_le.mp (h.flt _ (abs_le.mpr (⟨by linarith, by linarith⟩ :
      -R ≤ S.dbl (posLid i - S.dbl (c.cubeLen / 2)) ∧ S.dbl (posLid i - S.dbl (c.cubeLen / 2)) ≤ R)))
    have hhigh' := abs_le.mp (h.flt _ (abs_le.mpr (⟨by linarith, by linarith⟩ :
      -R ≤ S.dbl (posLid i + S.dbl (c.cubeLen / 2)) ∧ S.dbl (posLid i + S.dbl (c.cubeLen / 2)) ≤ R)))
    simp only [firstCube, abs_le]
    refine ⟨⟨?_, ?_⟩, ?_, ?_⟩ <;> linarith
  refine ⟨fun i => ?_, fun i => ?_, fun i => ?_, fun i => ?_⟩ <;>
    · have hl := abs_le.mp (hends i).1
      have hh := abs_le.mp (hends i).2
      push_cast
      linarith

/-- The cube follows the lidar. -/
theorem Tracks.centered_moved (h : Tracks S c R ε P δ reach N) (hn : n < N) (hP : ∀ i, |posLid' i| ≤ P)
    (hδ : ∀ i, |posLid' i - posLid i| ≤ δ) (hc : Centered S c ε n box posLid) :
    Centered S c ε (n + 1) (movedCube S c box posLid') posLid' := by
  have hε := h.rounding
  have hδ0 := h.motion
  have hjump := h.jump
  have hrange := h.range
  have hwidth := h.width
  have hreach := h.jumpRange
  have hnε : n * ε + ε ≤ N * ε := by
    have : ((n + 1 : ℕ) : ℚ) ≤ N := Nat.cast_le.mpr hn
    push_cast at this
    linarith [mul_le_mul_of_nonneg_right this hε]
  have hn0 : 0 ≤ n * ε := mul_nonneg (Nat.cast_nonneg n) hε
  have haxis (i : Axis) :
      movRange S c - 2 * ε ≤ posLid' i - (movedCube S c box posLid').vertexMin i ∧
        movRange S c - 2 * ε ≤ (movedCube S c box posLid').vertexMax i - posLid' i ∧
          |(movedCube S c box posLid').vertexMax i - (movedCube S c box posLid').vertexMin i -
            (box.vertexMax i - box.vertexMin i)| ≤ 2 * ε := by
    have hp := abs_le.mp (hP i)
    have hd := abs_le.mp (hδ i)
    have hlow := hc.low i
    have hhigh := hc.high i
    have hnarrow := hc.narrow i
    have hwide := hc.wide i
    have hmin := h.test (x := posLid' i - box.vertexMin i) (by
      rw [← le_sub_iff_add_le, abs_le]
      constructor <;> linarith)
    have hmax := h.test (x := posLid' i - box.vertexMax i) (by
      rw [← le_sub_iff_add_le, abs_le]
      constructor <;> linarith)
    simp only [movedCube]
    split
    · next hnear =>
      -- the lidar is near the lower face
      have hface := abs_le.mp (hmin.1.trans hnear |> sub_le_iff_le_add.mp)
      have hl := abs_le.mp (h.flt (box.vertexMin i - movDist S c) (abs_le.mpr (by constructor <;> linarith)))
      have hh := abs_le.mp (h.flt (box.vertexMax i - movDist S c) (abs_le.mpr (by constructor <;> linarith)))
      refine ⟨by linarith, by linarith, abs_le.mpr ⟨by linarith, by linarith⟩⟩
    · next hfar =>
      split
      · next hnear =>
        have hface := abs_le.mp (hmax.1.trans hnear |> sub_le_iff_le_add.mp)
        have hl := abs_le.mp (h.flt (box.vertexMin i + movDist S c) (abs_le.mpr (by constructor <;> linarith)))
        have hh := abs_le.mp (h.flt (box.vertexMax i + movDist S c) (abs_le.mpr (by constructor <;> linarith)))
        refine ⟨by linarith, by linarith, abs_le.mpr ⟨by linarith, by linarith⟩⟩
      · next hfar' =>
        -- near neither face, on the side where it was before
        have hlt := (not_le.mp hfar).trans_le hmin.2
        have hlt' := (not_le.mp hfar').trans_le hmax.2
        refine ⟨?_, ?_, by simpa using by linarith⟩
        · rcases abs_cases (posLid' i - box.vertexMin i) with ⟨he, -⟩ | ⟨he, -⟩ <;> rw [he] at hlt <;> linarith
        · rcases abs_cases (posLid' i - box.vertexMax i) with ⟨he, -⟩ | ⟨he, -⟩ <;> rw [he] at hlt' <;> linarith
  refine ⟨fun i => (haxis i).1, fun i => (haxis i).2.1, fun i => ?_, fun i => ?_⟩
  · have := abs_le.mp (haxis i).2.2
    have := hc.narrow i
    push_cast
    linarith
  · have := abs_le.mp (haxis i).2.2
    have := hc.wide i
    push_cast
    linarith

theorem Centered.has {x : Point} (h : Centered S c ε n box posLid) (hs : reach + 2 * ε < movRange S c)
    (hx : ∀ i, |x i - posLid i| ≤ reach) : box.Has x := by
  intro i
  have hi := abs_le.mp (hx i)
  have hl := h.low i
  have hh := h.high i
  constructor <;> linarith

/-- **The cube keeps up with the lidar**: where the lidar does not jump, no point that it sees is out of the cube. -/
theorem run_no_strays (h : Tracks S c R ε P δ reach N) (es : List Iteration) (hlen : es.length ≤ N)
    (hP : ∀ e ∈ es, ∀ i, |e.posLid i| ≤ P) (hδ : es.IsChain fun e e' => ∀ i, |e'.posLid i - e.posLid i| ≤ δ)
    (hr : ∀ e ∈ es, ∀ x ∈ e.world, ∀ i, |x i - e.posLid i| ≤ reach) : strays S c .init es = [] := by
  have hnone {e : Iteration} {s : MapNode} {n : ℕ} (he : ∀ x ∈ e.world, ∀ i, |x i - e.posLid i| ≤ reach)
      (hc : Centered S c ε n (lasermapFovSegment S c e.deletePtrs e.posLid s).localMapPoints e.posLid) :
      e.world.filter (¬ (lasermapFovSegment S c e.deletePtrs e.posLid s).localMapPoints.Has ·) = [] :=
    List.filter_eq_nil_iff.mpr fun x hx => by simpa using hc.has h.sight (he x hx)
  have hrun : ∀ (es : List Iteration) (s : MapNode) (n : ℕ) (e₀ : Iteration), n + es.length < N →
      s.ikdtree.rootNode.Sound → s.localmapInitialized = true → Centered S c ε n s.localMapPoints e₀.posLid →
      (∀ e ∈ es, ∀ i, |e.posLid i| ≤ P) →
      ((e₀ :: es).IsChain fun e e' => ∀ i, |e'.posLid i - e.posLid i| ≤ δ) →
      (∀ e ∈ es, ∀ x ∈ e.world, ∀ i, |x i - e.posLid i| ≤ reach) → strays S c s es = [] := by
    intro es
    induction es with
    | nil => intros; rfl
    | cons e es ih =>
      intro s n e₀ hn hs hi hc hP hδ hr
      rw [List.length_cons] at hn
      obtain ⟨hstep, hchain⟩ := List.isChain_cons_cons.mp hδ
      have hc' := h.centered_moved (by omega) (hP e (by simp)) hstep hc
      rw [← localMapPoints_moved (S := S) (c := c) e.deletePtrs _ hi] at hc'
      obtain ⟨hs', hi', hbox, -⟩ := mapIteration_bag (S := S) (c := c) e hs
      rw [strays, hnone (hr e (by simp)) hc', List.nil_append]
      exact ih _ (n + 1) e (by omega) hs' (hi'.trans (localmapInitialized_segment _ _)) (hbox ▸ hc')
        (fun e' he' => hP e' (by simp [he'])) hchain fun e' he' => hr e' (by simp [he'])
  cases es with
  | nil => rfl
  | cons e es =>
    rw [List.length_cons] at hlen
    have hc := h.centered_first (hP e (by simp))
    rw [← localMapPoints_first (S := S) (c := c) (s := .init) e.deletePtrs _ rfl] at hc
    obtain ⟨hs', hi', hbox, -⟩ := mapIteration_bag (S := S) (c := c) (s := .init) e trivial
    rw [strays, hnone (hr e (by simp)) hc, List.nil_append]
    exact hrun es _ 0 e (by omega) hs' (hi'.trans (localmapInitialized_segment _ _)) (hbox ▸ hc)
      (fun e' he' => hP e' (by simp [he'])) hδ fun e' he' => hr e' (by simp [he'])

theorem run_no_strays_three : strays Setting.exact .multi .init threeIterations = [] := by
  have htracks : Tracks Setting.exact .multi 10000 0 400 300 10 3 := by
    constructor <;> norm_num [Setting.exact, MapParams.multi, movDist, movRange]
  refine run_no_strays htracks threeIterations le_rfl ?_ ?_ ?_
  · norm_num [threeIterations, ahead]
  · norm_num [threeIterations, ahead]
  · norm_num [threeIterations, ahead, Iteration.world]

end

/-! ## What the map remembers -/

/-- The voxel of a point stays in the cube. -/
def Stays (s : MapNode) (q : Point) : List Iteration → Prop
  | [] => True
  | e :: es =>
    (∀ x, S.voxelKey x = S.voxelKey q →
      (lasermapFovSegment S c e.deletePtrs e.posLid s).localMapPoints.Has x) ∧ Stays (mapIteration S c e s) q es

section
variable {S c} {s : MapNode} {D : Point → Prop} {q : Point}

/-- What the map keeps a point for, while points come that are in `D`. -/
structure Remembers (S : Setting) (D : Point → Prop) (q : Point) (s : MapNode) : Prop where
  sound : s.ikdtree.rootNode.Sound
  built : s.ikdtree.rootNode.isNil = false
  inside : ∀ x ∈ s.ikdtree.rootNode.bag, D x
  covers : S.Covers s.ikdtree.rootNode.bag q

/-- A voxel that stays in the cube keeps its points. -/
theorem Remembers.segment (h : Remembers S D q s) (ptrs : RebuildPtrs) (posLid : Axis → ℚ)
    (hq : ∀ x, S.voxelKey x = S.voxelKey q → (lasermapFovSegment S c ptrs posLid s).localMapPoints.Has x) :
    Remembers S D q (lasermapFovSegment S c ptrs posLid s) := by
  obtain ⟨hs, hnil, hbag⟩ := lasermapFovSegment_bag (S := S) (c := c) ptrs posLid h.sound
  refine ⟨hs, hnil.trans h.built, fun x hx => ?_, ?_⟩
  · rw [hbag] at hx
    split at hx
    · exact h.inside x (Multiset.mem_filter.mp hx).1
    · exact h.inside x hx
  · rw [hbag]
    split
    · next hmove =>
      obtain ⟨x, hx, hkey, hle⟩ := h.covers
      have hin := hq x hkey
      rw [localMapPoints_moved _ _ hmove.1] at hin
      refine ⟨x, Multiset.mem_filter.mpr ⟨hx, fun b hb hbx => ?_⟩, hkey, hle⟩
      exact not_has_moved ⟨b, hb, hbx⟩ hin
    · exact h.covers

theorem Remembers.step (ha : S.Aligned D) (h : Remembers S D q s) (e : Iteration) (he : ∀ x ∈ e.world, D x)
    (hq : ∀ x, S.voxelKey x = S.voxelKey q →
      (lasermapFovSegment S c e.deletePtrs e.posLid s).localMapPoints.Has x) :
    Remembers S D q (mapIteration S c e s) := by
  have ht := h.segment e.deletePtrs e.posLid hq
  unfold mapIteration
  generalize lasermapFovSegment S c e.deletePtrs e.posLid s = t at ht
  by_cases hlen : e.points.length < 5
  · simpa only [ht.built, hlen, Bool.false_eq_true, ↓reduceIte] using ht
  · simp only [ht.built, hlen, Bool.false_eq_true, ↓reduceIte]
    obtain ⟨n, m, m', n', hs, hnil, hadd, hraw, hbag⟩ := mapIncremental_bag (S := S) (c := c) e.addPtrs e.addRawPtrs
      e.points ht.sound ht.built
    have hall (choice : MapChoice) : ∀ x ∈ chosen S c choice e.points, D x :=
      fun x hx => he x (chosen_subset _ _ x hx)
    have hm : ∀ x ∈ m, D x := fun x hx => (hadd.subset x hx).elim (hall _ x) (ht.inside x)
    refine ⟨hs, hnil, fun x hx => ?_, ?_⟩
    · rw [hbag] at hx
      exact (hraw.subset x hx).elim (hall _ x) (hm x)
    · rw [hbag]
      exact hraw.covers ha (hall _) hm (.inl (hadd.covers ha (hall _) ht.inside (.inl ht.covers)))

/-- A map of one point, in a cube that the lidar is about to move. -/
def onePoint : MapNode := ⟨true, ⟨fun _ => -500, fun _ => 500⟩, Setting.exact.build .empty [fun _ => 0]⟩

end

end Agilex.Map
