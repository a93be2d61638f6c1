import Agilex.Map.Content
import Mathlib.Data.List.Sort

/-!
# The incremental k-d tree: building and rebuilding

`BuildTree`, `flatten`, `Criterion_Check` and `Rebuild` of `ikd_Tree.cpp`.

- A float operation is the exact one, rounded by `flt`; `std::nth_element` is any function that only moves points.
- A subtree of 1500 points or more is not rebuilt in place: `Rebuild` leaves it to the background thread.
- `Rebuild_Ptr` is a path from the node at hand, or none when it does not point below that node.
-/

namespace Agilex.Map

/-- The parameters of a `KD_TREE`, and what it takes from the platform: `flt` and `dbl` round to a float and to a double. -/
structure Setting where
  flt : ℚ → ℚ
  flt_mono : Monotone flt
  flt_zero : flt 0 = 0
  flt_flt : ∀ x, flt (flt x) = flt x
  dbl : ℚ → ℚ
  nthElement : Axis → ℕ → List Point → List Point
  nthElement_perm : ∀ a k ps, (nthElement a k ps).Perm ps
  deleteCriterionParam : ℚ
  balanceCriterionParam : ℚ
  downsampleSize : ℚ
  invDownsampleSize : ℚ

/-- Exact arithmetic and points that are sorted, with voxels of half a metre. -/
def Setting.exact : Setting where
  flt x := x
  flt_mono := monotone_id
  flt_zero := rfl
  flt_flt _ := rfl
  dbl x := x
  nthElement a _ ps := ps.insertionSort fun p q => p a ≤ q a
  nthElement_perm _ _ _ := List.perm_insertionSort _ _
  deleteCriterionParam := 1 / 2
  balanceCriterionParam := 3 / 5
  downsampleSize := 1 / 2
  invDownsampleSize := 2

theorem Setting.flt_nonneg (S : Setting) {x : ℚ} (h : 0 ≤ x) : 0 ≤ S.flt x := by
  rw [← S.flt_zero]
  exact S.flt_mono h

theorem Setting.flt_nonpos (S : Setting) {x : ℚ} (h : x ≤ 0) : S.flt x ≤ 0 := by
  rw [← S.flt_zero]
  exact S.flt_mono h

inductive Side where
  | left
  | right
deriving DecidableEq, Repr

/-- `Rebuild_Ptr`, as the way there from a node. -/
abbrev RebuildPtr := Option (List Side)

/-- The way from the son on that side. -/
def RebuildPtr.toward (ptr : RebuildPtr) (s : Side) : RebuildPtr :=
  match ptr with
  | some (s' :: π) => if s = s' then some π else none
  | _ => none

/-- The son on that side is `*Rebuild_Ptr`. -/
def RebuildPtr.at (ptr : RebuildPtr) (s : Side) : Bool := ptr == some [s]

/-- `Operation_Logger_Type`: an operation on the subtree that is being rebuilt. -/
inductive Operation where
  | addPoint (p : Point)
  | deleteBox (b : Box)
  | downsampleDelete (b : Box)
  | pushDown (treeDeleted treeDownsampleDeleted : Bool)
deriving DecidableEq

/-- What `Push_Down` of a node logs, when there is a rebuild. -/
def Node.pushLog (n : Node) (ptr : RebuildPtr) (l r : Tree) : List Operation :=
  (if n.needPushDownToLeft && !l.isNil && ptr.at .left then
    [.pushDown n.treeDeleted n.treeDownsampleDeleted] else []) ++
  if n.needPushDownToRight && !r.isNil && ptr.at .right then
    [.pushDown n.treeDeleted n.treeDownsampleDeleted] else []

@[simp] theorem Tree.nodes_inherit (a b : Bool) (t : Tree) : (t.inherit a b).nodes = t.nodes := by
  cases t <;> rfl

@[simp] theorem Node.nodes_pushLeft (n : Node) (l : Tree) : (n.pushLeft l).nodes = l.nodes := by
  unfold Node.pushLeft
  split <;> simp

@[simp] theorem Node.nodes_pushRight (n : Node) (r : Tree) : (n.pushRight r).nodes = r.nodes := by
  unfold Node.pushRight
  split <;> simp

theorem Node.nodes_left_lt (n : Node) (l r : Tree) : (n.pushLeft l).nodes < (Tree.node n l r).nodes := by
  simp only [Tree.nodes, Node.nodes_pushLeft]
  omega

theorem Node.nodes_right_lt (n : Node) (l r : Tree) : (n.pushRight r).nodes < (Tree.node n l r).nodes := by
  simp only [Tree.nodes, Node.nodes_pushRight]
  omega

/-! ## `flatten` -/

/-- What `flatten` appends to `Storage` and to the vector of deleted points, the tree it leaves, and the log. -/
structure Flat where
  tree : Tree
  storage : List Point
  recorded : List Point
  logged : List Operation

def flatten (ptr : RebuildPtr) : Tree → Flat
  | .nil => ⟨.nil, [], [], []⟩
  | .node n l r =>
    let fl := flatten (ptr.toward .left) (n.pushLeft l)
    let fr := flatten (ptr.toward .right) (n.pushRight r)
    { tree := .node (n.pushed l r) fl.tree fr.tree
      storage := (if n.pointDeleted then [] else [n.point]) ++ fl.storage ++ fr.storage
      recorded := fl.recorded ++ fr.recorded ++
        if n.pointDeleted && !n.pointDownsampleDeleted then [n.point] else []
      logged := n.pushLog ptr l r ++ fl.logged ++ fr.logged }
termination_by t => t.nodes
decreasing_by all_goals first | exact Node.nodes_left_lt .. | exact Node.nodes_right_lt ..

/-- `flatten` writes the points that are not deleted, in the order of the entries. -/
theorem flatten_storage {t : Tree} (h : t.Sound) (ptr : RebuildPtr) : (flatten ptr t).storage = t.live := by
  fun_induction flatten ptr t with
  | case1 => rfl
  | case2 ptr n l r fl fr ihl ihr =>
    rw [Tree.live, h.entries_node, live_cons, live_append]
    simp only [fl, fr, ihl h.pushLeft, ihr h.pushRight]
    cases hp : n.pointDeleted <;> simp [Node.own, hp, Tree.live]

/-- `flatten` records the deleted points that no downsampling took, once each. -/
theorem flatten_recorded {t : Tree} (h : t.Sound) (ptr : RebuildPtr) :
    (flatten ptr t).recorded.Perm (dead t.entries) := by
  fun_induction flatten ptr t with
  | case1 => rfl
  | case2 ptr n l r fl fr ihl ihr =>
    rw [h.entries_node, dead_cons, dead_append]
    have hsons := (ihl h.pushLeft).append (ihr h.pushRight)
    cases hp : n.pointDeleted && !n.pointDownsampleDeleted with
    | true =>
      have := (hsons.append_right [n.point]).trans (List.perm_append_singleton n.point _)
      simpa [Node.own, hp, fl, fr] using this
    | false => simpa [Node.own, hp, fl, fr] using hsons

/-- `flatten` only pushes flags down. -/
theorem flatten_tree {t : Tree} (h : t.Sound) (ptr : RebuildPtr) :
    (flatten ptr t).tree.Sound ∧ (flatten ptr t).tree.entries = t.entries ∧
      (flatten ptr t).tree.isNil = t.isNil := by
  fun_induction flatten ptr t with
  | case1 => exact ⟨trivial, rfl, rfl⟩
  | case2 ptr n l r fl fr ihl ihr =>
    obtain ⟨hsl, hel, hnl⟩ := ihl h.pushLeft
    obtain ⟨hsr, her, hnr⟩ := ihr h.pushRight
    obtain ⟨hs, he⟩ := h.pushDown.replace hsl hsr hel her
    exact ⟨hs, he.trans h.entries_pushDown, rfl⟩

/-! ## `BuildTree` -/

/-- The first of the longest dimensions. -/
def longest (dimRange : Axis → ℚ) : Axis :=
  let a := if dimRange .y > dimRange .x then .y else .x
  if dimRange .z > dimRange a then .z else a

variable (S : Setting)

def Setting.divAxis (ps : List Point) : Axis :=
  match hull ps with
  | none => .x
  | some r => longest fun a => S.flt (r.hi a - r.lo a)

/-- `BuildTree` on the part of `Storage` from `l` to `r`. -/
def Setting.buildTree (S : Setting) (ps : List Point) : Tree :=
  if ps = [] then .nil
  else
    let mid := (ps.length - 1) / 2
    let a := S.divAxis ps
    let storage := S.nthElement a mid ps
    match storage[mid]? with
    | none => .nil
    | some p => .mk (.init p a) (S.buildTree (storage.take mid)) (S.buildTree (storage.drop (mid + 1)))
termination_by ps.length
decreasing_by
  all_goals
    have hpos := List.length_pos_iff.mpr ‹ps ≠ []›
    have hlen := (S.nthElement_perm (S.divAxis ps) ((ps.length - 1) / 2) ps).length_eq
    simp only [List.length_take, List.length_drop, hlen]
    omega

/-- The entries of points that have just been put into a new tree. -/
def news (ps : List Point) : List Entry := ps.map fun p => ⟨p, false, false⟩

@[simp] theorem live_news (ps : List Point) : live (news ps) = ps := by
  induction ps with
  | nil => rfl
  | cons p ps ih => simpa [news] using ih

@[simp] theorem dead_news (ps : List Point) : dead (news ps) = [] := by
  simp [dead, news, List.filter_map, Function.comp_def]

theorem Node.init_ready (p : Point) (a : Axis) (l r : Tree) : (Node.init p a).Ready l r where
  left h := by simp [Node.init] at h
  right h := by simp [Node.init] at h
  marked h := by simp [Node.init] at h

/-- A built tree is sound and holds the points it was built of, none of them deleted. -/
theorem Setting.buildTree_spec (ps : List Point) :
    (S.buildTree ps).Sound ∧ (S.buildTree ps).entries.Perm (news ps) := by
  fun_induction Setting.buildTree S ps with
  | case1 => exact ⟨trivial, .nil⟩
  | case2 ps hne mid a storage hmid =>
    have hlen := (S.nthElement_perm a mid ps).length_eq
    have hpos := List.length_pos_iff.mpr hne
    rw [List.getElem?_eq_none_iff] at hmid
    simp only [storage, mid] at hmid hlen
    omega
  | case3 ps hne mid a storage p hp ihl ihr =>
    have hready := Node.init_ready p a (S.buildTree (storage.take mid)) (S.buildTree (storage.drop (mid + 1)))
    refine ⟨Tree.Sound.mk hready ihl.1 ihr.1, ?_⟩
    rw [Tree.entries_mk hready ihl.1 ihr.1]
    obtain ⟨hlt, hget⟩ := List.getElem?_eq_some_iff.mp hp
    have hsplit : storage = storage.take mid ++ p :: storage.drop (mid + 1) := by
      rw [← hget, List.getElem_cons_drop, List.take_append_drop]
    have hperm : (p :: (storage.take mid ++ storage.drop (mid + 1))).Perm ps :=
      (List.perm_middle.symm.trans (hsplit ▸ List.Perm.refl _)).trans (S.nthElement_perm a mid ps)
    have hnews := hperm.map fun p => (⟨p, false, false⟩ : Entry)
    rw [List.map_cons, List.map_append] at hnews
    exact ((ihl.2.append ihr.2).cons _).trans hnews

theorem Setting.bag_buildTree (ps : List Point) : (S.buildTree ps).bag = ps := by
  have := ((S.buildTree_spec ps).2.filter (!·.deleted)).map (·.point)
  exact Multiset.coe_eq_coe.mpr (this.trans (.of_eq (live_news ps)))

theorem Setting.graves_buildTree (ps : List Point) : (S.buildTree ps).graves = 0 := by
  have := ((S.buildTree_spec ps).2.filter fun e => e.deleted && !e.downsampleDeleted).map (·.point)
  exact Multiset.coe_eq_coe.mpr (this.trans (.of_eq (dead_news ps)))

/-! ## `Rebuild` -/

/-- `Multi_Thread_Rebuild_Point_Num`. -/
def multiThreadRebuildPointNum : ℕ := 1500

/-- `Minimal_Unbalanced_Tree_Size`. -/
def minimalUnbalancedTreeSize : ℕ := 10

/-- `Criterion_Check`; the son it looks at is the left one, if there is one. -/
def Setting.criterionCheck : Tree → Bool
  | .nil => false
  | .node n l r =>
    if n.treeSize ≤ minimalUnbalancedTreeSize then false
    else
      let sonSize := ((l.root ++ r.root).map (·.treeSize)).headD 0
      let deleteEvaluation := S.flt (S.flt n.invalidPointNum / S.flt n.treeSize)
      let balanceEvaluation := S.flt (S.flt sonSize / S.flt (n.treeSize - 1))
      deleteEvaluation > S.deleteCriterionParam ||
        (balanceEvaluation > S.balanceCriterionParam || balanceEvaluation < S.flt (1 - S.balanceCriterionParam))

/-- What a walk leaves: the tree, the points it counted, the points a rebuild put into `Points_deleted`, and what it
logs when there is a rebuild. -/
structure Effect where
  tree : Tree
  counter : ℕ
  removed : List Point
  logged : List Operation

/-- `TreeSize` of the node under the pointer, `0` of the null pointer. -/
def Tree.treeSize : Tree → ℕ
  | .nil => 0
  | .node n _ _ => n.treeSize

/-- `Rebuild`. -/
def Setting.rebuild (t : Tree) : Effect :=
  if t.treeSize ≥ multiThreadRebuildPointNum then ⟨t, 0, [], []⟩
  else ⟨S.buildTree (flatten none t).storage, 0, (flatten none t).recorded, []⟩

/-- The end of every walk that changes the tree: `Update`, and `Rebuild` where it is allowed and called for. -/
def Setting.finish (allowRebuild : Bool) (n : Node) (l r : Tree) : Effect :=
  if allowRebuild && S.criterionCheck (.mk n l r) then S.rebuild (.mk n l r) else ⟨.mk n l r, 0, [], []⟩

/-- A rebuild keeps the points of the tree; the deleted ones it drops are reported, but for those that a downsampling
took. -/
structure Rebuilt (t : Tree) (e : Effect) : Prop where
  sound : e.tree.Sound
  bag : e.tree.bag = t.bag
  graves : e.tree.graves + e.removed = t.graves
  isNil : t.bag ≠ 0 → e.tree.isNil = false

theorem Rebuilt.refl {t : Tree} (h : t.Sound) : Rebuilt t ⟨t, 0, [], []⟩ where
  sound := h
  bag := rfl
  graves := by simp
  isNil hne := Bool.not_eq_true _ |>.mp fun hnil => hne (Tree.bag_of_isNil hnil)

theorem Setting.rebuild_spec {t : Tree} (h : t.Sound) : Rebuilt t (S.rebuild t) := by
  unfold Setting.rebuild
  split
  · exact .refl h
  · have hbag : (S.buildTree (flatten none t).storage).bag = t.bag := by
      rw [S.bag_buildTree, flatten_storage h]
      rfl
    have hrec : ((flatten none t).recorded : Multiset Point) = t.graves :=
      Multiset.coe_eq_coe.mpr (flatten_recorded h none)
    refine ⟨(S.buildTree_spec _).1, hbag, by simp [S.graves_buildTree, hrec], fun hne => ?_⟩
    · exact Bool.not_eq_true _ |>.mp fun hnil => hne (hbag ▸ Tree.bag_of_isNil hnil)

/-- The end of a walk keeps what the tree over the two sons holds. -/
theorem Setting.finish_spec (allowRebuild : Bool) {n : Node} {l r : Tree} (hn : n.Ready l r) (hl : l.Sound)
    (hr : r.Sound) : Rebuilt (.mk n l r) (S.finish allowRebuild n l r) := by
  unfold Setting.finish
  split
  · exact S.rebuild_spec (.mk hn hl hr)
  · exact .refl (.mk hn hl hr)

end Agilex.Map
