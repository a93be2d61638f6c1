import Agilex.Map.Logged
import Mathlib.Algebra.Order.Floor.Ring
import Mathlib.Data.Rat.Floor

/-!
# The incremental k-d tree: what its callers see

The public functions of `KD_TREE` that the node calls, over a tree and the vector `Points_deleted`: `Build`, `Add_Points`,
`Delete_Point_Boxes`, `Box_Search`, `acquire_removed_points`, `size` and `validnum`. Every walk of a command is given
`Rebuild_Ptr` as it stands then.

- `Holds` is the map that the tree is for: points, each as often as it was put there, and nothing before the first build.
- `run_refines`: every run of commands is a run of that map, with the same replies.
- `run_counts`, `run_built`: `size` and `validnum` count, and `Root_Node`, once there, is never null again.
-/

namespace Agilex.Map

variable (S : Setting)

/-! ## Voxels -/

/-- `x_key`, `y_key` and `z_key`. -/
def Setting.voxelKey (p : Point) : Axis → ℤ := fun a => ⌊S.flt (p a * S.invDownsampleSize)⌋

/-- `Box_of_Point`. -/
def Setting.voxelBox (key : Axis → ℤ) : Box where
  vertexMin a := S.flt (S.flt (key a) * S.downsampleSize)
  vertexMax a := S.flt (S.flt (S.flt (key a) * S.downsampleSize) + S.downsampleSize)

/-- `mid_point`: `0.5` is a double, so the product is one, too. -/
def Setting.midPoint (key : Axis → ℤ) : Point := fun a => S.flt (S.dbl (S.dbl (key a + 1 / 2) * S.downsampleSize))

/-- `calc_dist`. -/
def Setting.calcDist (p q : Point) : ℚ :=
  let sq (a : Axis) := S.flt (S.flt (p a - q a) * S.flt (p a - q a))
  S.flt (S.flt (sq .x + sq .y) + sq .z)

/-- `EPSS`. -/
def epss : ℚ := 1 / 1000000

/-- `same_point`. -/
def Setting.SamePoint (p q : Point) : Prop := ∀ a, |S.flt (p a - q a)| < epss

instance (p q : Point) : Decidable (S.SamePoint p q) := inferInstanceAs (Decidable (∀ _, _))

/-- `downsample_result`: the new point, unless one of those in its voxel is nearer to the middle. -/
def Setting.nearest (mid p : Point) (storage : List Point) : Point :=
  storage.foldl (fun best q => if S.calcDist q mid < S.calcDist best mid then q else best) p

/-- `Rebuild_Ptr` at one walk after the other. -/
abbrev RebuildPtrs := ℕ → RebuildPtr

/-- One point of `Add_Points` with `downsample_on`; the counter says whether it was added. -/
def Setting.addDownsampled (ptrs : RebuildPtrs) (t : Tree) (p : Point) : Effect :=
  let box := S.voxelBox (S.voxelKey p)
  let found := searchByRange box (ptrs 0) t
  if found.storage = [] then
    let e := S.walk (ptrs 1) found.tree (.add p)
    { e with counter := 1, logged := found.logged ++ e.logged }
  else
    let result := S.nearest (S.midPoint (S.voxelKey p)) p found.storage
    if S.SamePoint p result then
      let e := S.walk (ptrs 1) found.tree (.delete box true)
      let f := S.walk (ptrs 2) e.tree (.add result)
      { tree := f.tree
        counter := 1
        removed := e.removed ++ f.removed
        logged := found.logged ++ e.logged ++ f.logged }
    else ⟨found.tree, 0, [], found.logged⟩

/-- The points of a first cloud, each replaced by the middle of its voxel, once for every voxel. -/
def Setting.gridded (ps : List Point) : List Point :=
  ps.foldl (fun grid p =>
    let mid := S.midPoint (S.voxelKey p)
    if grid.any fun q => S.SamePoint mid q then grid else grid ++ [mid]) []

/-! ## Commands -/

/-- `Root_Node`, and the vectors that `flatten` records in: `Points_deleted` where the main thread rebuilds,
`Multithread_Points_deleted` where the second thread does. -/
structure KdTree where
  rootNode : Tree
  pointsDeleted : List Point
  multithreadPointsDeleted : List Point

/-- A new `KD_TREE`. -/
def KdTree.empty : KdTree := ⟨.nil, [], []⟩

/-- What a walk leaves of it. -/
def KdTree.after (k : KdTree) (e : Effect) : KdTree :=
  { k with rootNode := e.tree, pointsDeleted := k.pointsDeleted ++ e.removed }

inductive Command where
  | build (ps : List Point)
  | addPoints (ps : List Point) (downsampleOn : Bool)
  | deletePointBoxes (bs : List Box)
  | boxSearch (b : Box)
  | acquireRemovedPoints
deriving DecidableEq

/-- What a command returns or writes for its caller. -/
inductive Reply where
  | done
  | count (n : ℕ)
  | points (ps : List Point)
deriving DecidableEq

/-- `Build`. -/
def Setting.build (k : KdTree) (ps : List Point) : KdTree := { k with rootNode := S.buildTree ps }

/-- One point of `Add_Points`, of a tree that is built. -/
def Setting.addPoint (downsampleOn : Bool) (ptrs : RebuildPtrs) (k : KdTree × ℕ) (p : Point) : KdTree × ℕ :=
  let e := if downsampleOn then S.addDownsampled ptrs k.1.rootNode p
    else { S.walk (ptrs 0) k.1.rootNode (.add p) with counter := 0 }
  (k.1.after e, k.2 + e.counter)

/-- One box of `Delete_Point_Boxes`. -/
def Setting.deletePointBox (ptrs : RebuildPtrs) (k : KdTree × ℕ) (b : Box) : KdTree × ℕ :=
  let e := S.walk (ptrs 0) k.1.rootNode (.delete b false)
  (k.1.after e, k.2 + e.counter)

/-- Points or boxes one after the other, with at most three walks each. -/
def inTurn {σ α : Type} (f : RebuildPtrs → σ → α → σ) : RebuildPtrs → σ → List α → σ
  | _, s, [] => s
  | ptrs, s, a :: as => inTurn f (fun i => ptrs (i + 3)) (f ptrs s a) as

def Setting.exec (ptrs : RebuildPtrs) (k : KdTree) : Command → KdTree × Reply
  | .build ps => (S.build k ps, .done)
  | .addPoints ps downsampleOn =>
    if k.rootNode.isNil then (S.build k (if downsampleOn then S.gridded ps else ps), .count 0)
    else
      let r := inTurn (S.addPoint downsampleOn) ptrs (k, 0) ps
      (r.1, .count r.2)
  | .deletePointBoxes bs =>
    let r := inTurn S.deletePointBox ptrs (k, 0) bs
    (r.1, .count r.2)
  | .boxSearch b =>
    let f := searchByRange b (ptrs 0) k.rootNode
    ({ k with rootNode := f.tree }, .points f.storage)
  | .acquireRemovedPoints =>
    ({ k with pointsDeleted := [], multithreadPointsDeleted := [] },
      .points (k.pointsDeleted ++ k.multithreadPointsDeleted))

/-- `size`; whether the second thread has `working_flag_mutex` only matters where it rebuilds the root. -/
def KdTree.size (k : KdTree) (ptr : RebuildPtr) (locked : Bool) (treesizeTmp : ℕ) : ℕ :=
  if ptr = some [] ∧ locked then treesizeTmp else k.rootNode.treeSize

/-- `Root_Node->TreeSize - Root_Node->invalid_point_num`. -/
def Tree.validnum : Tree → ℤ
  | .nil => 0
  | .node n _ _ => n.treeSize - n.invalidPointNum

/-- `validnum`. -/
def KdTree.validnum (k : KdTree) (ptr : RebuildPtr) (locked : Bool) : ℤ :=
  if ptr = some [] ∧ locked then -1 else k.rootNode.validnum

/-- Commands, each with `Rebuild_Ptr` as it stands at its walks. -/
def Setting.run (S : Setting) (k : KdTree) : List (RebuildPtrs × Command) → KdTree × List Reply
  | [] => (k, [])
  | c :: cs =>
    let r := S.exec c.1 k c.2
    let rs := S.run r.1 cs
    (rs.1, r.2 :: rs.2)

/-! ## The map it is for -/

/-- What the map holds once it is built. -/
abbrev Bag := Option (Multiset Point)

/-- Offering a point to a map with a voxel grid: it joins an empty voxel. Elsewhere the point nearest to the middle is
found, the offered one before the others; if that is the offered one, or as good as the same, it replaces all of them. -/
def Setting.Offered (p : Point) (m : Multiset Point) (n : ℕ) (m' : Multiset Point) : Prop :=
  let box := S.voxelBox (S.voxelKey p)
  let inside := m.filter box.Has
  let mid := S.midPoint (S.voxelKey p)
  (inside = 0 ∧ n = 1 ∧ m' = p ::ₘ m) ∨
    inside ≠ 0 ∧ ∃ best ∈ p ::ₘ inside, (∀ q ∈ p ::ₘ inside, S.calcDist best mid ≤ S.calcDist q mid) ∧
      if S.SamePoint p best then n = 1 ∧ m' = best ::ₘ m.filter (¬ box.Has ·) else n = 0 ∧ m' = m

/-- Points added one after the other. -/
def Setting.AddedAll (downsampleOn : Bool) : List Point → Multiset Point → ℕ → Multiset Point → Prop
  | [], m, n, m' => n = 0 ∧ m' = m
  | p :: ps, m, n, m' =>
    ∃ n₁ m₁ n₂, (if downsampleOn then S.Offered p m n₁ m₁ else n₁ = 0 ∧ m₁ = p ::ₘ m) ∧
      Setting.AddedAll downsampleOn ps m₁ n₂ m' ∧ n = n₁ + n₂

/-- What a build leaves. -/
def built (ps : List Point) : Bag := if ps = [] then none else some ps

/-- A command of the map, its reply, and the map after it. What `acquire_removed_points` gives is left open. -/
def Setting.Holds (m : Bag) : Command → Reply → Bag → Prop
  | .build ps, r, m' => r = .done ∧ m' = built ps
  | .addPoints ps downsampleOn, r, m' =>
    match m with
    | none => r = .count 0 ∧ m' = built (if downsampleOn then S.gridded ps else ps)
    | some m => ∃ n m₁, r = .count n ∧ m' = some m₁ ∧ S.AddedAll downsampleOn ps m n m₁
  | .deletePointBoxes bs, r, m' =>
    r = .count ((m.getD 0).countP fun p => ∃ b ∈ bs, b.Has p) ∧
      m' = m.map fun m => m.filter fun p => ∀ b ∈ bs, ¬ b.Has p
  | .boxSearch b, r, m' => (∃ ps : List Point, r = .points ps ∧ (ps : Multiset Point) = (m.getD 0).filter b.Has) ∧ m' = m
  | .acquireRemovedPoints, r, m' => (∃ ps, r = .points ps) ∧ m' = m

/-- A run of the map. -/
def Setting.HoldsAll (m : Bag) : List Command → List Reply → Bag → Prop
  | [], rs, m' => rs = [] ∧ m' = m
  | c :: cs, rs, m' => ∃ r m₁ rs', S.Holds m c r m₁ ∧ Setting.HoldsAll m₁ cs rs' m' ∧ rs = r :: rs'

/-! ## Refinement -/

section
variable {S} {t : Tree} (ptr : RebuildPtr) (ptrs : RebuildPtrs)

theorem walk_add (h : t.Sound) (p : Point) : Added p t (S.walk ptr t (.add p)) := by
  have := S.addByPoint_spec p (ptr != some []) ptr t.axis h
  exact ⟨this.sound, this.bag, this.graves, this.isNil⟩

theorem walk_delete (h : t.Sound) (b : Box) (d : Bool) : Deleted b d t (S.walk ptr t (.delete b d)) := by
  have := S.deleteByRange_spec b d (ptr != some []) ptr h
  exact ⟨this.sound, this.bag, this.counter, this.graves, this.spared, this.isNil⟩

theorem Tree.isNil_congr {s : Tree} (h : s.entries = t.entries) : s.isNil = t.isNil := by
  cases s with
  | nil =>
    cases t with
    | nil => rfl
    | node => exact absurd h.symm (Tree.entries_ne_nil _ _ _)
  | node =>
    cases t with
    | nil => exact absurd h (Tree.entries_ne_nil _ _ _)
    | node => rfl

/-- The nearest to the middle, of the new point and those in the voxel. -/
theorem nearest_spec (mid p : Point) (storage : List Point) :
    S.nearest mid p storage ∈ p :: storage ∧
      ∀ q ∈ p :: storage, S.calcDist (S.nearest mid p storage) mid ≤ S.calcDist q mid := by
  unfold Setting.nearest
  induction storage generalizing p with
  | nil => simp
  | cons q qs ih =>
    rw [List.foldl_cons]
    split
    · next hlt =>
      obtain ⟨hmem, hle⟩ := ih q
      refine ⟨by simp [List.mem_cons.mp hmem], fun r hr => ?_⟩
      rcases List.mem_cons.mp hr with rfl | hr
      · exact (hle q (by simp)).trans hlt.le
      · exact hle r hr
    · next hlt =>
      obtain ⟨hmem, hle⟩ := ih p
      refine ⟨?_, fun r hr => ?_⟩
      · rcases List.mem_cons.mp hmem with e | hmem
        · simp [e]
        · simp [hmem]
      · rcases List.mem_cons.mp hr with rfl | hr
        · exact hle r (by simp)
        · rcases List.mem_cons.mp hr with rfl | hr
          · exact (hle p (by simp)).trans (not_lt.mp hlt)
          · exact hle r (by simp [hr])

/-- A search leaves the tree as it was, to all who look at its points. -/
theorem search_bag (h : t.Sound) (b : Box) :
    (searchByRange b ptr t).tree.Sound ∧ (searchByRange b ptr t).tree.bag = t.bag ∧
      (searchByRange b ptr t).tree.isNil = t.isNil ∧
        ((searchByRange b ptr t).storage : Multiset Point) = t.bag.filter b.Has := by
  obtain ⟨hst, hs, he⟩ := searchByRange_spec b ptr h
  refine ⟨hs, Tree.bag_congr he, Tree.isNil_congr he, ?_⟩
  rw [hst, Tree.bag, Multiset.filter_coe]

/-- `Add_Points` with `downsample_on` offers the point to the voxel grid. -/
theorem addDownsampled_spec (h : t.Sound) (hn : t.isNil = false) (p : Point) :
    (S.addDownsampled ptrs t p).tree.Sound ∧ (S.addDownsampled ptrs t p).tree.isNil = false ∧
      S.Offered p t.bag (S.addDownsampled ptrs t p).counter (S.addDownsampled ptrs t p).tree.bag := by
  obtain ⟨hs, hb, hnil, hin⟩ := search_bag (ptrs 0) h (S.voxelBox (S.voxelKey p))
  unfold Setting.addDownsampled Setting.Offered
  simp only [← hin]
  split
  · next hempty =>
    have ha := walk_add (S := S) (ptrs 1) hs p
    exact ⟨ha.sound, ha.isNil, .inl ⟨by simp [hempty], rfl, ha.bag.trans (by rw [hb])⟩⟩
  · next hne =>
    obtain ⟨hmem, hle⟩ := nearest_spec (S := S) (S.midPoint (S.voxelKey p)) p
      (searchByRange (S.voxelBox (S.voxelKey p)) (ptrs 0) t).storage
    split
    · next hsame =>
      have hd := walk_delete (S := S) (ptrs 1) hs (S.voxelBox (S.voxelKey p)) true
      have ha := walk_add (S := S) (ptrs 2) hd.sound (S.nearest (S.midPoint (S.voxelKey p)) p
        (searchByRange (S.voxelBox (S.voxelKey p)) (ptrs 0) t).storage)
      refine ⟨ha.sound, ha.isNil, .inr ⟨by simpa using hne, _, hmem, hle, ?_⟩⟩
      rw [if_pos hsame]
      exact ⟨rfl, by rw [ha.bag, hd.bag, hb]⟩
    · next hsame =>
      refine ⟨hs, hnil.trans hn, .inr ⟨by simpa using hne, _, hmem, hle, ?_⟩⟩
      rw [if_neg hsame]
      exact ⟨rfl, hb⟩

/-- The map that a tree stands for. -/
def KdTree.abs (k : KdTree) : Bag := if k.rootNode.isNil then none else some k.rootNode.bag

theorem KdTree.abs_built {k : KdTree} (h : k.rootNode.isNil = false) : k.abs = some k.rootNode.bag := by
  rw [KdTree.abs, h]
  rfl

theorem KdTree.abs_getD (k : KdTree) : k.abs.getD 0 = k.rootNode.bag := by
  cases hn : k.rootNode.isNil with
  | true => rw [KdTree.abs, if_pos hn, Tree.bag_of_isNil hn]; rfl
  | false => rw [KdTree.abs_built hn]; rfl

theorem build_abs (k : KdTree) (ps : List Point) :
    (S.build k ps).rootNode.Sound ∧ (S.build k ps).abs = built ps := by
  refine ⟨(S.buildTree_spec ps).1, ?_⟩
  unfold built
  split
  · next hps =>
    subst hps
    have hnil : (S.build k []).rootNode = .nil := by simp [Setting.build, Setting.buildTree]
    simp [KdTree.abs, hnil, Tree.isNil]
  · next hps => rw [KdTree.abs_built (S.isNil_buildTree hps), Setting.build, S.bag_buildTree]

/-- `Add_Points` on a tree that is built. -/
theorem addPoints_abs (downsampleOn : Bool) (ps : List Point) {k : KdTree} (n : ℕ) (h : k.rootNode.Sound)
    (hn : k.rootNode.isNil = false) :
    ∃ n', (inTurn (S.addPoint downsampleOn) ptrs (k, n) ps).2 = n + n' ∧
      (inTurn (S.addPoint downsampleOn) ptrs (k, n) ps).1.rootNode.Sound ∧
        (inTurn (S.addPoint downsampleOn) ptrs (k, n) ps).1.rootNode.isNil = false ∧
          S.AddedAll downsampleOn ps k.rootNode.bag n'
            (inTurn (S.addPoint downsampleOn) ptrs (k, n) ps).1.rootNode.bag := by
  induction ps generalizing ptrs k n with
  | nil => exact ⟨0, rfl, h, hn, rfl, rfl⟩
  | cons p ps ih =>
    have hone : (S.addPoint downsampleOn ptrs (k, n) p).1.rootNode.Sound ∧
        (S.addPoint downsampleOn ptrs (k, n) p).1.rootNode.isNil = false ∧
        ∃ c, (S.addPoint downsampleOn ptrs (k, n) p).2 = n + c ∧
          if downsampleOn then S.Offered p k.rootNode.bag c (S.addPoint downsampleOn ptrs (k, n) p).1.rootNode.bag
          else c = 0 ∧ (S.addPoint downsampleOn ptrs (k, n) p).1.rootNode.bag = p ::ₘ k.rootNode.bag := by
      cases downsampleOn with
      | true =>
        obtain ⟨hs, hnil, ho⟩ := addDownsampled_spec (S := S) ptrs h hn p
        exact ⟨hs, hnil, _, rfl, ho⟩
      | false =>
        have ha := walk_add (S := S) (ptrs 0) h p
        exact ⟨ha.sound, ha.isNil, 0, rfl, rfl, ha.bag⟩
    obtain ⟨hs, hnil, c, hc, hstep⟩ := hone
    obtain ⟨n', hn', hs', hnil', hall⟩ :=
      ih (fun i => ptrs (i + 3)) (k := (S.addPoint downsampleOn ptrs (k, n) p).1) (n + c) hs hnil
    rw [inTurn]
    have hpair : S.addPoint downsampleOn ptrs (k, n) p = ((S.addPoint downsampleOn ptrs (k, n) p).1, n + c) :=
      Prod.ext rfl hc
    rw [hpair]
    exact ⟨c + n', by rw [hn', add_assoc], hs', hnil', c, _, n', hstep, hall, rfl⟩

theorem countP_or (m : Multiset Point) (p q : Point → Prop) [DecidablePred p] [DecidablePred q] :
    (m.countP fun x => p x ∨ q x) = m.countP p + m.countP fun x => q x ∧ ¬ p x := by
  induction m using Multiset.induction_on with
  | empty => rfl
  | cons a m ih => by_cases hp : p a <;> by_cases hq : q a <;> simp [hp, hq, ih] <;> omega

/-- `Delete_Point_Boxes` takes out the points that are in one of the boxes, and counts them. -/
theorem deletePointBoxes_abs (bs : List Box) {k : KdTree} (n : ℕ) (h : k.rootNode.Sound) :
    (inTurn S.deletePointBox ptrs (k, n) bs).1.rootNode.Sound ∧
      (inTurn S.deletePointBox ptrs (k, n) bs).1.rootNode.isNil = k.rootNode.isNil ∧
        (inTurn S.deletePointBox ptrs (k, n) bs).1.rootNode.bag =
            k.rootNode.bag.filter (fun p => ∀ b ∈ bs, ¬ b.Has p) ∧
          (inTurn S.deletePointBox ptrs (k, n) bs).2 = n + k.rootNode.bag.countP fun p => ∃ b ∈ bs, b.Has p := by
  induction bs generalizing ptrs k n with
  | nil => simp [inTurn, h]
  | cons b bs ih =>
    have hd := walk_delete (S := S) (ptrs 0) h b false
    obtain ⟨hs, hnil, hbag, hcount⟩ := ih (fun i => ptrs (i + 3)) (k := (S.deletePointBox ptrs (k, n) b).1)
      (n + (S.walk (ptrs 0) k.rootNode (.delete b false)).counter) hd.sound
    have hkb : (S.deletePointBox ptrs (k, n) b).1.rootNode.bag = k.rootNode.bag.filter (¬ b.Has ·) := hd.bag
    refine ⟨hs, hnil.trans hd.isNil, ?_, ?_⟩
    · rw [inTurn]
      refine hbag.trans ?_
      rw [hkb, Multiset.filter_filter]
      exact Multiset.filter_congr fun p _ => by simp [and_comm]
    · rw [inTurn]
      refine hcount.trans ?_
      rw [hkb, hd.counter, add_assoc, Multiset.countP_filter, ← countP_or]
      exact congrArg _ (Multiset.countP_congr rfl fun p _ => by simp)

/-- **Every command of the tree is one of the map**, with the same reply. -/
theorem exec_refines (k : KdTree) (h : k.rootNode.Sound) (c : Command) :
    (S.exec ptrs k c).1.rootNode.Sound ∧ S.Holds k.abs c (S.exec ptrs k c).2 (S.exec ptrs k c).1.abs := by
  have hzero : k.rootNode.isNil = true → k.abs = none := fun hn => by rw [KdTree.abs, if_pos hn]
  have hbag := k.abs_getD
  cases c with
  | build ps =>
    obtain ⟨hs, ha⟩ := build_abs (S := S) k ps
    exact ⟨hs, rfl, ha⟩
  | addPoints ps downsampleOn =>
    cases hn : k.rootNode.isNil with
    | true =>
      obtain ⟨hs, ha⟩ := build_abs (S := S) k (if downsampleOn then S.gridded ps else ps)
      simp only [Setting.exec, hn, if_true, hzero hn, Setting.Holds, true_and]
      exact ⟨hs, ha⟩
    | false =>
      obtain ⟨n, hc, hs, hnil, hall⟩ := addPoints_abs (S := S) ptrs downsampleOn ps 0 h hn
      simp only [Setting.exec, hn, Bool.false_eq_true, if_false, KdTree.abs_built hn, Setting.Holds]
      exact ⟨hs, n, _, by rw [hc, zero_add], KdTree.abs_built hnil, hall⟩
  | deletePointBoxes bs =>
    obtain ⟨hs, hnil, hb, hc⟩ := deletePointBoxes_abs (S := S) ptrs bs 0 h
    simp only [Setting.exec, Setting.Holds, hbag]
    refine ⟨hs, by rw [hc, zero_add], ?_⟩
    cases hn : k.rootNode.isNil with
    | true => rw [hzero hn, KdTree.abs, if_pos (hnil.trans hn)]; rfl
    | false => rw [KdTree.abs_built hn, KdTree.abs_built (hnil.trans hn), hb]; rfl
  | boxSearch b =>
    obtain ⟨hs, hb, hnil, hst⟩ := search_bag (ptrs 0) h b
    simp only [Setting.exec, Setting.Holds, hbag]
    refine ⟨hs, ⟨_, rfl, hst⟩, ?_⟩
    simp only [KdTree.abs, hnil, hb]
  | acquireRemovedPoints => exact ⟨h, ⟨_, rfl⟩, rfl⟩

theorem run_sound (cs : List (RebuildPtrs × Command)) (k : KdTree) (h : k.rootNode.Sound) :
    (S.run k cs).1.rootNode.Sound := by
  induction cs generalizing k with
  | nil => exact h
  | cons c cs ih => exact ih _ (exec_refines (S := S) c.1 k h c.2).1

/-- **Every run of commands is a run of the map that the tree is for**, with the same replies. -/
theorem run_refines (cs : List (RebuildPtrs × Command)) (k : KdTree) (h : k.rootNode.Sound) :
    (S.run k cs).1.rootNode.Sound ∧ S.HoldsAll k.abs (cs.map (·.2)) (S.run k cs).2 (S.run k cs).1.abs := by
  induction cs generalizing k with
  | nil => exact ⟨h, rfl, rfl⟩
  | cons c cs ih =>
    obtain ⟨hs, hstep⟩ := exec_refines (S := S) c.1 k h c.2
    obtain ⟨hs', hrest⟩ := ih _ hs
    exact ⟨hs', _, _, _, hstep, hrest, rfl⟩

/-- A first point, a nearer one in its voxel, and both asked for and deleted. -/
def twoPoints : List (RebuildPtrs × Command) :=
  let box : Box := ⟨fun _ => 0, fun _ => 1⟩
  [(fun _ => none, .addPoints [fun _ => 0] false), (fun _ => some [.left], .addPoints [fun _ => 1 / 4] true),
    (fun _ => some [], .boxSearch box), (fun _ => none, .deletePointBoxes [box]), (fun _ => none, .acquireRemovedPoints)]

theorem run_refines_two :
    (Setting.exact.run .empty twoPoints).1.rootNode.Sound ∧
      Setting.exact.HoldsAll none (twoPoints.map (·.2)) (Setting.exact.run .empty twoPoints).2
        (Setting.exact.run .empty twoPoints).1.abs :=
  run_refines twoPoints .empty trivial

/-- The root of a sound tree counts the nodes, and the points that are not deleted. -/
theorem Tree.Sound.counts (h : t.Sound) : t.treeSize = t.nodes ∧ t.validnum = t.bag.card := by
  cases t with
  | nil => exact ⟨rfl, rfl⟩
  | node n l r =>
    have hsize : n.treeSize = (Tree.node n l r).entries.length := h.2.2.1.treeSize
    refine ⟨hsize.trans (Tree.length_entries _), ?_⟩
    have hinv := h.2.2.1.invalid
    have hlen := length_live (Tree.node n l r).entries
    simp only [Tree.validnum, Tree.bag, Multiset.coe_card, Tree.live]
    omega

/-- **`size` and `validnum` count**, after every run: all points in the tree, and those that are not deleted. Only while the
root is being rebuilt and the second thread has the lock they do not look at it. -/
theorem run_counts (cs : List (RebuildPtrs × Command)) (ptr : RebuildPtr) (locked : Bool) (treesizeTmp : ℕ) :
    let k := (S.run .empty cs).1
    k.size ptr locked treesizeTmp = (if ptr = some [] ∧ locked then treesizeTmp else k.rootNode.nodes) ∧
      k.validnum ptr locked = if ptr = some [] ∧ locked then -1 else ((k.abs.getD 0).card : ℤ) := by
  intro k
  obtain ⟨hsize, hvalid⟩ := (run_sound (S := S) cs .empty trivial).counts
  rw [KdTree.size, KdTree.validnum, hsize, hvalid, k.abs_getD]
  exact ⟨rfl, rfl⟩

/-- The map stays built, but for a build of nothing. -/
theorem Setting.Holds.isSome {m m' : Bag} {c : Command} {r : Reply} (h : S.Holds m c r m') (hm : m.isSome = true)
    (hc : c ≠ .build []) : m'.isSome = true := by
  obtain ⟨m, rfl⟩ := Option.isSome_iff_exists.mp hm
  cases c with
  | build ps =>
    have hps : ps ≠ [] := fun e => hc (by rw [e])
    obtain ⟨-, rfl⟩ := h
    simp [built, hps]
  | addPoints ps downsampleOn =>
    obtain ⟨_, _, -, rfl, -⟩ := h
    rfl
  | deletePointBoxes bs =>
    obtain ⟨-, rfl⟩ := h
    rfl
  | boxSearch b =>
    obtain ⟨-, rfl⟩ := h
    rfl
  | acquireRemovedPoints =>
    obtain ⟨-, rfl⟩ := h
    rfl

theorem exec_built {k : KdTree} (h : k.rootNode.Sound) (hk : k.rootNode.isNil = false) {c : Command}
    (hc : c ≠ .build []) : (S.exec ptrs k c).1.rootNode.isNil = false := by
  obtain ⟨-, hstep⟩ := exec_refines (S := S) ptrs k h c
  have hsome := hstep.isSome (by rw [KdTree.abs_built hk]; rfl) hc
  rw [← Bool.not_eq_true]
  intro hnil
  rw [KdTree.abs, if_pos hnil] at hsome
  simp at hsome

/-- **`Root_Node`, once it is there, is never null again**, whatever is deleted and rebuilt: `Add_Points` may read it. -/
theorem run_built (cs : List (RebuildPtrs × Command)) (k : KdTree) (h : k.rootNode.Sound)
    (hk : k.rootNode.isNil = false) (hcs : ∀ c ∈ cs, c.2 ≠ .build []) : (S.run k cs).1.rootNode.isNil = false := by
  induction cs generalizing k with
  | nil => exact hk
  | cons c cs ih =>
    exact ih _ (exec_refines (S := S) c.1 k h c.2).1 (exec_built c.1 h hk (hcs c (by simp)))
      fun c' hc' => hcs c' (by simp [hc'])

theorem run_built_two :
    (Setting.exact.run (Setting.exact.build .empty [fun _ => 0]) twoPoints).1.rootNode.isNil = false :=
  run_built twoPoints _ (Setting.buildTree_spec _ _).1 (Setting.isNil_buildTree _ (by simp)) (by simp [twoPoints])

/-! ## Reports -/

/-- The deleted points that are still to be handed to the caller: in the tree, and in the two vectors. -/
def KdTree.pending (k : KdTree) : Multiset Point :=
  k.rootNode.graves + (k.pointsDeleted + k.multithreadPointsDeleted : Multiset Point)

/-- A walk leaves in the tree what it does not move to `Points_deleted`. -/
theorem KdTree.pending_after (k : KdTree) (e : Effect) :
    (k.after e).pending =
      e.tree.graves + e.removed + (k.pointsDeleted + k.multithreadPointsDeleted : Multiset Point) := by
  simp only [KdTree.pending, KdTree.after, ← Multiset.coe_add]
  abel

/-- The points that a command takes out of the map. -/
def KdTree.taken (k : KdTree) : Command → Multiset Point
  | .deletePointBoxes bs => k.rootNode.bag.filter fun p => ∃ b ∈ bs, b.Has p
  | _ => 0

/-- What `acquire_removed_points` hands over. -/
def KdTree.reported (k : KdTree) : Command → Multiset Point
  | .acquireRemovedPoints => (k.pointsDeleted ++ k.multithreadPointsDeleted : List Point)
  | _ => 0

/-- Summed up over a run. -/
def Setting.sumRun (S : Setting) (f : KdTree → Command → Multiset Point) (k : KdTree) :
    List (RebuildPtrs × Command) → Multiset Point
  | [] => 0
  | c :: cs => f k c.2 + S.sumRun f (S.exec c.1 k c.2).1 cs

/-- The command neither throws the tree away nor lets a downsampling take points. -/
def Command.Reports : Command → Prop
  | .build _ => False
  | .addPoints _ downsampleOn => downsampleOn = false
  | _ => True

theorem addDownsampled_graves (h : t.Sound) (p : Point) :
    (S.addDownsampled ptrs t p).tree.graves + (S.addDownsampled ptrs t p).removed ≤ t.graves := by
  obtain ⟨-, hs, he⟩ := searchByRange_spec (S.voxelBox (S.voxelKey p)) (ptrs 0) h
  have hg := Tree.graves_congr he
  unfold Setting.addDownsampled
  simp only
  split
  · have ha := walk_add (S := S) (ptrs 1) hs p
    exact (ha.graves.trans hg).le
  · split
    · have hd := walk_delete (S := S) (ptrs 1) hs (S.voxelBox (S.voxelKey p)) true
      have ha := walk_add (S := S) (ptrs 2) hd.sound (S.nearest (S.midPoint (S.voxelKey p)) p
        (searchByRange (S.voxelBox (S.voxelKey p)) (ptrs 0) t).storage)
      rw [← hg, ← Multiset.coe_add]
      refine le_trans (le_of_eq ?_) (hd.spared rfl)
      rw [← ha.graves]
      abel
    · simpa using hg.le

/-- The points of one box leave the map and wait to be handed over. -/
theorem deletePointBoxes_pending (bs : List Box) {k : KdTree} (n : ℕ) (h : k.rootNode.Sound) :
    (inTurn S.deletePointBox ptrs (k, n) bs).1.pending =
      k.pending + k.rootNode.bag.filter fun p => ∃ b ∈ bs, b.Has p := by
  induction bs generalizing ptrs k n with
  | nil => simp [inTurn]
  | cons b bs ih =>
    have hd := walk_delete (S := S) (ptrs 0) h b false
    have hkb : (S.deletePointBox ptrs (k, n) b).1.rootNode.bag = k.rootNode.bag.filter (¬ b.Has ·) := hd.bag
    have hkp : (S.deletePointBox ptrs (k, n) b).1.pending = k.pending + k.rootNode.bag.filter b.Has := by
      refine (k.pending_after _).trans ?_
      rw [hd.graves rfl, KdTree.pending]
      abel
    rw [inTurn]
    refine (ih (fun i => ptrs (i + 3)) (k := (S.deletePointBox ptrs (k, n) b).1) _ hd.sound).trans ?_
    rw [hkp, hkb, Multiset.filter_filter, add_assoc, ← Multiset.filter_add_not b.Has
      (k.rootNode.bag.filter fun p => ∃ b' ∈ b :: bs, b'.Has p), Multiset.filter_filter, Multiset.filter_filter]
    congr 2
    · exact Multiset.filter_congr fun p _ => ⟨fun hb => ⟨hb, b, by simp, hb⟩, fun hb => hb.1⟩
    · exact Multiset.filter_congr fun p _ => by simp; tauto

theorem addPoints_pending (downsampleOn : Bool) (ps : List Point) {k : KdTree} (n : ℕ) (h : k.rootNode.Sound)
    (hn : k.rootNode.isNil = false) :
    (inTurn (S.addPoint downsampleOn) ptrs (k, n) ps).1.pending ≤ k.pending ∧
      (downsampleOn = false → (inTurn (S.addPoint downsampleOn) ptrs (k, n) ps).1.pending = k.pending) := by
  induction ps generalizing ptrs k n with
  | nil => simp [inTurn]
  | cons p ps ih =>
    rw [inTurn]
    cases downsampleOn with
    | true =>
      obtain ⟨hs, hnil, -⟩ := addDownsampled_spec (S := S) ptrs h hn p
      obtain ⟨hle, -⟩ := ih (fun i => ptrs (i + 3)) (k := (S.addPoint true ptrs (k, n) p).1)
        (S.addPoint true ptrs (k, n) p).2 hs hnil
      refine ⟨hle.trans ?_, by simp⟩
      refine (k.pending_after _).le.trans ?_
      exact add_le_add_left (addDownsampled_graves ptrs h p) _
    | false =>
      have ha := walk_add (S := S) (ptrs 0) h p
      obtain ⟨-, heq⟩ := ih (fun i => ptrs (i + 3)) (k := (S.addPoint false ptrs (k, n) p).1)
        (S.addPoint false ptrs (k, n) p).2 ha.sound ha.isNil
      have hone : (S.addPoint false ptrs (k, n) p).1.pending = k.pending := by
        refine (k.pending_after _).trans ?_
        exact congrArg (· + _) ha.graves
      exact ⟨((heq rfl).trans hone).le, fun _ => (heq rfl).trans hone⟩

theorem exec_pending (k : KdTree) (h : k.rootNode.Sound) (c : Command) :
    (S.exec ptrs k c).1.pending + k.reported c ≤ k.pending + k.taken c ∧
      (c.Reports → (S.exec ptrs k c).1.pending + k.reported c = k.pending + k.taken c) := by
  have hbuild (ps : List Point) : (S.build k ps).pending ≤ k.pending := by
    simp only [KdTree.pending, Setting.build, S.graves_buildTree]
    exact add_le_add_left (Multiset.zero_le _) _
  cases c with
  | build ps => exact ⟨by simpa [Setting.exec, KdTree.reported, KdTree.taken] using hbuild ps, fun hr => hr.elim⟩
  | addPoints ps downsampleOn =>
    simp only [Setting.exec, KdTree.reported, KdTree.taken, add_zero, Command.Reports]
    cases hn : k.rootNode.isNil with
    | true =>
      simp only [if_true]
      refine ⟨hbuild _, fun hd => ?_⟩
      have hnil : k.rootNode.graves = 0 := by
        rw [Tree.graves, Tree.entries_of_isNil hn]
        rfl
      simp [KdTree.pending, Setting.build, S.graves_buildTree, hnil]
    | false => simpa using addPoints_pending (S := S) ptrs downsampleOn ps 0 h hn
  | deletePointBoxes bs =>
    have := deletePointBoxes_pending (S := S) ptrs bs 0 h
    simp only [Setting.exec, KdTree.reported, KdTree.taken, add_zero]
    exact ⟨this.le, fun _ => this⟩
  | boxSearch b =>
    obtain ⟨-, -, he⟩ := searchByRange_spec b (ptrs 0) h
    have := Tree.graves_congr he
    simp only [Setting.exec, KdTree.reported, KdTree.taken, add_zero, KdTree.pending, this]
    exact ⟨le_rfl, fun _ => trivial⟩
  | acquireRemovedPoints =>
    simp [Setting.exec, KdTree.reported, KdTree.taken, KdTree.pending]

/-- **No deleted point is reported twice, and none that was not deleted**: what a run hands over, and what is still to be
handed over at its end, are among the points that its boxes took. They are all of them, where no downsampling took points
and no build threw the tree away. -/
theorem run_reports (cs : List (RebuildPtrs × Command)) (k : KdTree) (h : k.rootNode.Sound) :
    (S.run k cs).1.pending + S.sumRun KdTree.reported k cs ≤ k.pending + S.sumRun KdTree.taken k cs ∧
      ((∀ c ∈ cs, c.2.Reports) →
        (S.run k cs).1.pending + S.sumRun KdTree.reported k cs = k.pending + S.sumRun KdTree.taken k cs) := by
  induction cs generalizing k with
  | nil => simp [Setting.run, Setting.sumRun]
  | cons c cs ih =>
    obtain ⟨hs, -⟩ := exec_refines (S := S) c.1 k h c.2
    obtain ⟨hle, heq⟩ := exec_pending (S := S) c.1 k h c.2
    obtain ⟨hle', heq'⟩ := ih _ hs
    have hswap : ∀ x y z : Multiset Point, x + (y + z) = x + z + y := by
      intro x y z
      abel
    simp only [Setting.run, Setting.sumRun]
    constructor
    · calc _ ≤ (S.exec c.1 k c.2).1.pending + S.sumRun KdTree.taken (S.exec c.1 k c.2).1 cs + k.reported c.2 := by
            rw [hswap]
            exact add_le_add_left hle' _
        _ = (S.exec c.1 k c.2).1.pending + k.reported c.2 + S.sumRun KdTree.taken (S.exec c.1 k c.2).1 cs := by abel
        _ ≤ k.pending + k.taken c.2 + S.sumRun KdTree.taken (S.exec c.1 k c.2).1 cs := add_le_add_left hle _
        _ = _ := by abel
    · intro hall
      have h1 := heq (hall c (by simp))
      have h2 := heq' fun c' hc' => hall c' (by simp [hc'])
      rw [hswap, h2, ← add_assoc, ← h1]
      abel

/-- Twelve points without the grid; a box takes eight of them, of which the caller asks twice. -/
def rawPoints : List (RebuildPtrs × Command) :=
  [(fun _ => none, .addPoints [fun _ => 0] false),
    (fun _ => none, .addPoints ((List.range 11).map fun i _ => i + 1) false),
    (fun _ => none, .deletePointBoxes [⟨fun _ => 0, fun _ => 8⟩]), (fun _ => none, .acquireRemovedPoints),
    (fun _ => none, .acquireRemovedPoints)]

theorem run_reports_two :
    (Setting.exact.run .empty twoPoints).1.pending + Setting.exact.sumRun KdTree.reported .empty twoPoints ≤
        KdTree.empty.pending + Setting.exact.sumRun KdTree.taken .empty twoPoints ∧
      (Setting.exact.run .empty rawPoints).1.pending + Setting.exact.sumRun KdTree.reported .empty rawPoints =
        KdTree.empty.pending + Setting.exact.sumRun KdTree.taken .empty rawPoints :=
  ⟨(run_reports twoPoints .empty trivial).1,
    (run_reports rawPoints .empty trivial).2 (by simp [rawPoints, Command.Reports])⟩

end

end Agilex.Map
