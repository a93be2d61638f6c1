import Agilex.Map.Rebuilding

/-!
# The incremental k-d tree: the walks around a rebuild

The walks of the main thread start at the root, and the subtree at `*Rebuild_Ptr` lies below. `walk_follows`: a walk does to
the subtree exactly the operations that it logs, in their order, each of them one that the rebuild may replay. A search logs
what it pushes down to the subtree, and does not change what the subtree holds (`search_follows`).
-/

namespace Agilex.Map

open Agilex.Lib

variable (S : Setting)

/-! ## Subtrees -/

/-- The one of two that is on a side. -/
def Side.of {α : Type} (s : Side) (a b : α) : α :=
  match s with
  | .left => a
  | .right => b

/-- The subtree at the end of a path. -/
def Tree.at : Tree → List Side → Tree
  | t, [] => t
  | .nil, _ :: _ => .nil
  | .node _ l _, .left :: π => l.at π
  | .node _ _ r, .right :: π => r.at π

@[simp] theorem Tree.at_nil (t : Tree) : t.at [] = t := by cases t <;> rfl

theorem Tree.at_left (n : Node) (l r : Tree) : (Tree.node n l r).at [.left] = l := l.at_nil

theorem Tree.length_entries (t : Tree) : t.entries.length = t.nodes := by
  induction t with
  | nil => rfl
  | node n l r ihl ihr => simp [Tree.entries, Tree.nodes, ihl, ihr]

theorem Tree.isNil_of_nodes {t : Tree} (h : 0 < t.nodes) : t.isNil = false := by
  cases t with
  | nil => simp [Tree.nodes] at h
  | node => rfl

theorem Tree.nodes_at_le (t : Tree) (π : List Side) : (t.at π).nodes ≤ t.nodes := by
  induction π generalizing t with
  | nil => simp
  | cons side π ih =>
    cases t with
    | nil => exact Nat.le_refl _
    | node n l r =>
      cases side with
      | left => exact (ih l).trans (by simp only [Tree.nodes]; omega)
      | right => exact (ih r).trans (by simp only [Tree.nodes]; omega)

theorem Setting.nodes_buildTree (ps : List Point) : (S.buildTree ps).nodes = ps.length := by
  rw [← Tree.length_entries, (S.buildTree_spec ps).2.length_eq, news, List.length_map]

/-! ## The walks of the main thread and the log -/

section
variable (s : Side) (π : List Side)

@[simp] theorem RebuildPtr.toward_none : RebuildPtr.toward none s = none := rfl

@[simp] theorem RebuildPtr.toward_here : RebuildPtr.toward (some []) s = none := rfl

@[simp] theorem RebuildPtr.toward_same : RebuildPtr.toward (some (s :: π)) s = some π := by simp [RebuildPtr.toward]

@[simp] theorem RebuildPtr.toward_left : RebuildPtr.toward (some (.left :: π)) .right = none := rfl

@[simp] theorem RebuildPtr.toward_right : RebuildPtr.toward (some (.right :: π)) .left = none := rfl

@[simp] theorem RebuildPtr.at_none : RebuildPtr.at none s = false := rfl

@[simp] theorem RebuildPtr.at_here : RebuildPtr.at (some []) s = false := rfl

@[simp] theorem RebuildPtr.at_self : RebuildPtr.at (some [s]) s = true := by simp [RebuildPtr.at]

@[simp] theorem RebuildPtr.at_deeper (s' s'' : Side) : RebuildPtr.at (some (s' :: s'' :: π)) s = false := by
  simp [RebuildPtr.at]

@[simp] theorem RebuildPtr.at_same : RebuildPtr.at (some (s :: π)) s = π.isEmpty := by
  cases π <;> simp [RebuildPtr.at]

@[simp] theorem RebuildPtr.at_left : RebuildPtr.at (some (.left :: π)) .right = false := by simp [RebuildPtr.at]

@[simp] theorem RebuildPtr.at_right : RebuildPtr.at (some (.right :: π)) .left = false := by simp [RebuildPtr.at]

end

/-- No pointer below the node, no log. -/
@[simp] theorem Node.pushLog_none (n : Node) (l r : Tree) : n.pushLog none l r = [] := by simp [Node.pushLog]

@[simp] theorem Node.pushLog_here (n : Node) (l r : Tree) : n.pushLog (some []) l r = [] := by simp [Node.pushLog]

section
variable (p : Point) (b : Box) (d allow : Bool)

theorem Setting.addByPoint_logged (a : Axis) (t : Tree) : (S.addByPoint p allow none a t).logged = [] := by
  generalize hptr : (none : RebuildPtr) = ptr
  fun_induction Setting.addByPoint S p allow ptr a t with
  | case1 => rfl
  | case2 allow ptr a n l r hlt e f ih | case3 allow ptr a n l r hlt e f ih =>
    subst hptr
    simp only [RebuildPtr.toward_none, RebuildPtr.at_none, Bool.not_false, Bool.and_true, forall_const] at ih
    simp [e, ih]

theorem Setting.deleteByRange_logged (t : Tree) : (S.deleteByRange b d allow none t).logged = [] := by
  generalize hptr : (none : RebuildPtr) = ptr
  fun_induction Setting.deleteByRange S b d allow ptr t with
  | case1 | case2 => rfl
  | case3 | case4 => subst hptr; simp
  | case5 allow ptr n l r htd hmiss hholds own el er f ihl ihr =>
    subst hptr
    simp only [RebuildPtr.toward_none, RebuildPtr.at_none, Bool.not_false, Bool.and_true, forall_const] at ihl ihr
    simp [el, er, ihl, ihr]

/-- Inside the subtree that is rebuilt a walk does not look at the pointer. -/
theorem Setting.addByPoint_here (a : Axis) (t : Tree) :
    S.addByPoint p allow (some []) a t = S.addByPoint p allow none a t := by
  cases t <;> rw [Setting.addByPoint, Setting.addByPoint]
  simp

theorem Setting.deleteByRange_here (t : Tree) :
    S.deleteByRange b d allow (some []) t = S.deleteByRange b d allow none t := by
  cases t <;> rw [Setting.deleteByRange, Setting.deleteByRange]
  simp

/-- The axis of the father is only for a new leaf. -/
theorem Setting.addByPoint_axis (ptr : RebuildPtr) (a a' : Axis) {t : Tree} (ht : t.isNil = false) :
    S.addByPoint p allow ptr a t = S.addByPoint p allow ptr a' t := by
  cases t with
  | nil => simp [Tree.isNil] at ht
  | node n l r => rw [Setting.addByPoint, Setting.addByPoint]

end

/-- A tree of this size is not rebuilt in place. -/
theorem Setting.finish_large {allow : Bool} {n : Node} {l r : Tree} (hn : n.Ready l r) (hl : l.Sound) (hr : r.Sound)
    (hsize : multiThreadRebuildPointNum ≤ l.nodes + r.nodes) :
    S.finish allow n l r = ⟨.mk n l r, 0, [], []⟩ := by
  have hts : (Tree.mk n l r).treeSize = (Tree.mk n l r).nodes := by
    rw [← Tree.length_entries]
    exact (Tree.Sound.mk hn hl hr).2.2.1.treeSize
  have hlarge : (Tree.mk n l r).treeSize ≥ multiThreadRebuildPointNum := by
    rw [hts]
    simp only [Tree.mk, Tree.nodes]
    omega
  unfold Setting.finish Setting.rebuild
  rw [if_pos hlarge, ite_self]

/-- The subtree goes the way of the operations, all of which a rebuild may replay, and stays large. -/
structure Follows (sub : Tree) (logged : List Operation) (sub' : Tree) : Prop where
  runs : sub' = S.kit.runAll sub logged
  deletes : ∀ o ∈ logged, o.Deletes
  size : multiThreadRebuildPointNum ≤ sub'.nodes

theorem Follows.append {S : Setting} {t t' t'' : Tree} {os os' : List Operation} (h : Follows S t os t')
    (h' : Follows S t' os' t'') : Follows S t (os ++ os') t'' where
  runs := by rw [h'.runs, h.runs, Handover.Kit.runAll, Handover.Kit.runAll, Handover.Kit.runAll, List.foldl_append]
  deletes o ho := (List.mem_append.mp ho).elim (h.deletes o) (h'.deletes o)
  size := h'.size

theorem Follows.refl {S : Setting} {t : Tree} (h : multiThreadRebuildPointNum ≤ t.nodes) : Follows S t [] t :=
  ⟨rfl, by simp, h⟩

section
variable {n : Node} {l r : Tree} {π : List Side}

theorem Tree.at_inherit (td tdd : Bool) (t : Tree) (s : Side) (π : List Side) :
    (t.inherit td tdd).at (s :: π) = t.at (s :: π) := by
  cases t <;> cases s <;> rfl

/-- The flag towards the son on a side. -/
def Node.need (n : Node) (s : Side) : Bool := s.of n.needPushDownToLeft n.needPushDownToRight

/-- The son on a side after `Push_Down` of its father. -/
def Node.push (n : Node) (s : Side) (t : Tree) : Tree :=
  if n.need s then t.inherit n.treeDeleted n.treeDownsampleDeleted else t

/-- A push down to the subtree is logged. -/
theorem follows_push (s : Side) (h : (Tree.node n l r).Sound)
    (hsize : multiThreadRebuildPointNum ≤ ((s.of l r).at π).nodes) :
    Follows S ((s.of l r).at π) (n.pushLog (some (s :: π)) l r) ((n.push s (s.of l r)).at π) := by
  cases π with
  | cons s' π =>
    have hat : (n.push s (s.of l r)).at (s' :: π) = (s.of l r).at (s' :: π) := by
      unfold Node.push
      split
      · exact Tree.at_inherit _ _ _ _ _
      · rfl
    rw [hat]
    simpa [Node.pushLog] using Follows.refl hsize
  | nil =>
    rw [Tree.at_nil] at hsize ⊢
    have hnil : (s.of l r).isNil = false := Tree.isNil_of_nodes (by simp only [multiThreadRebuildPointNum] at hsize; omega)
    have hlog : n.pushLog (some [s]) l r =
        if n.need s then [.pushDown n.treeDeleted n.treeDownsampleDeleted] else [] := by
      cases s with
      | left =>
        change l.isNil = false at hnil
        cases hneed : n.needPushDownToLeft <;> simp [Node.pushLog, Node.need, Side.of, hnil, hneed]
      | right =>
        change r.isNil = false at hnil
        cases hneed : n.needPushDownToRight <;> simp [Node.pushLog, Node.need, Side.of, hnil, hneed]
    rw [hlog, Node.push, Tree.at_nil]
    split
    · next hneed =>
      -- the subtree is too large for a flag without a deletion
      have htd : n.treeDeleted = true := by
        rw [← Bool.not_eq_false]
        intro htd
        have hfresh : Fresh (s.of l r).entries := by
          cases s with
          | left => exact h.2.2.2.1 hneed htd
          | right => exact h.2.2.2.2 hneed htd
        have hlen := hfresh.1
        rw [Tree.length_entries] at hlen
        simp only [multiThreadRebuildPointNum] at hsize
        omega
      exact ⟨rfl, by simp [Operation.Deletes, htd], by simpa using hsize⟩
    · exact .refl hsize

end

/-! ### Searches -/

theorem flatten_logged (t : Tree) : (flatten none t).logged = [] := by
  generalize hptr : (none : RebuildPtr) = ptr
  fun_induction flatten ptr t with
  | case1 => rfl
  | case2 ptr n l r fl fr ihl ihr =>
    subst hptr
    simp only [RebuildPtr.toward_none, forall_const] at ihl ihr
    simp [fl, fr, ihl, ihr]

theorem flatten_here (t : Tree) : flatten (some []) t = flatten none t := by
  cases t <;> rw [flatten, flatten]
  simp

theorem searchByRange_logged (b : Box) (t : Tree) : (searchByRange b none t).logged = [] := by
  generalize hptr : (none : RebuildPtr) = ptr
  fun_induction searchByRange b ptr t with
  | case1 => rfl
  | case2 => subst hptr; simp
  | case3 ptr n l r hmiss hholds f =>
    subst hptr
    simp [f, flatten_logged]
  | case4 ptr n l r hmiss hholds fl fr ihl ihr =>
    subst hptr
    simp only [RebuildPtr.toward_none, forall_const] at ihl ihr
    simp [fl, fr, ihl, ihr]

theorem searchByRange_here (b : Box) (t : Tree) : searchByRange b (some []) t = searchByRange b none t := by
  cases t <;> rw [searchByRange, searchByRange]
  simp only [Node.pushLog_here, Node.pushLog_none, RebuildPtr.toward_here, RebuildPtr.toward_none, flatten_here]

/-- The subtree goes the way of the operations, and then only its flags are pushed down. -/
structure FollowsUpTo (sub : Tree) (logged : List Operation) (sub' : Tree) : Prop where
  follows : ∃ mid, Follows S sub logged mid ∧ sub'.entries = mid.entries
  sound : sub'.Sound

theorem Follows.upTo {S : Setting} {t t' : Tree} {os : List Operation} (h : Follows S t os t') (ht : t'.Sound) :
    FollowsUpTo S t os t' :=
  ⟨⟨t', h, rfl⟩, ht⟩

theorem Follows.append_upTo {S : Setting} {t t' t'' : Tree} {os os' : List Operation} (h : Follows S t os t')
    (h' : FollowsUpTo S t' os' t'') : FollowsUpTo S t (os ++ os') t'' := by
  obtain ⟨⟨mid, hf, he⟩, hs⟩ := h'
  exact ⟨⟨mid, h.append hf, he⟩, hs⟩

theorem Tree.Sound.at {t : Tree} (h : t.Sound) (π : List Side) : (t.at π).Sound := by
  induction π generalizing t with
  | nil => simpa using h
  | cons s π ih =>
    cases t with
    | nil => trivial
    | node n l r =>
      cases s with
      | left => exact ih h.1
      | right => exact ih h.2.1

theorem flatten_follows {π : List Side} {t : Tree} (h : t.Sound) (hsize : multiThreadRebuildPointNum ≤ (t.at π).nodes) :
    FollowsUpTo S (t.at π) (flatten (some π) t).logged ((flatten (some π) t).tree.at π) := by
  induction π generalizing t with
  | nil =>
    rw [Tree.at_nil] at hsize
    rw [flatten_here, flatten_logged, Tree.at_nil, Tree.at_nil]
    obtain ⟨hs, he, -⟩ := flatten_tree h none
    exact ⟨⟨t, .refl hsize, he⟩, hs⟩
  | cons s π ih =>
    cases t with
    | nil => simp [Tree.at, Tree.nodes, multiThreadRebuildPointNum] at hsize
    | node n l r =>
      rw [flatten]
      cases s with
      | left =>
        have hpush := follows_push S .left h hsize
        simp only [RebuildPtr.toward_same, RebuildPtr.toward_left, flatten_logged, List.append_nil]
        exact hpush.append_upTo (ih h.pushLeft hpush.size)
      | right =>
        have hpush := follows_push S .right h hsize
        simp only [RebuildPtr.toward_same, RebuildPtr.toward_right, flatten_logged, List.append_nil]
        exact hpush.append_upTo (ih h.pushRight hpush.size)

/-- **A search does to the subtree that is rebuilt what it logs**, and pushes down the flags inside. -/
theorem search_follows (b : Box) {π : List Side} {t : Tree} (h : t.Sound)
    (hsize : multiThreadRebuildPointNum ≤ (t.at π).nodes) :
    FollowsUpTo S (t.at π) (searchByRange b (some π) t).logged ((searchByRange b (some π) t).tree.at π) := by
  induction π generalizing t with
  | nil =>
    rw [Tree.at_nil] at hsize
    rw [searchByRange_here, searchByRange_logged, Tree.at_nil, Tree.at_nil]
    obtain ⟨-, hs, he⟩ := searchByRange_spec b none h
    exact ⟨⟨t, .refl hsize, he⟩, hs⟩
  | cons s π ih =>
    cases t with
    | nil => simp [Tree.at, Tree.nodes, multiThreadRebuildPointNum] at hsize
    | node n l r =>
      rw [searchByRange]
      have hflat := flatten_follows S (π := s :: π) h.pushDown
      cases s with
      | left =>
        have hpush := follows_push S .left h hsize
        simp only [RebuildPtr.toward_same, RebuildPtr.toward_left, searchByRange_logged, List.append_nil]
        split
        · exact hpush.upTo (h.pushLeft.at π)
        split
        · exact hpush.append_upTo (hflat hpush.size)
        exact hpush.append_upTo (ih h.pushLeft hpush.size)
      | right =>
        have hpush := follows_push S .right h hsize
        simp only [RebuildPtr.toward_same, RebuildPtr.toward_right, searchByRange_logged, List.append_nil]
        split
        · exact hpush.upTo (h.pushRight.at π)
        split
        · exact hpush.append_upTo (hflat hpush.size)
        exact hpush.append_upTo (ih h.pushRight hpush.size)

/-! ### Additions and deletions -/

/-- The subtree itself, where the walk comes to it: one operation. -/
theorem follows_add_here (p : Point) (a : Axis) {t : Tree} (hsize : multiThreadRebuildPointNum ≤ t.nodes) :
    Follows S t [.addPoint p] (S.addByPoint p false (some []) a t).tree where
  runs := by
    have ht : t.isNil = false := Tree.isNil_of_nodes (by simp only [multiThreadRebuildPointNum] at hsize; omega)
    rw [S.addByPoint_here, S.addByPoint_axis p false none a t.axis ht]
    rfl
  deletes := by simp [Operation.Deletes]
  size := by rw [S.addByPoint_nodes]; omega

theorem follows_delete_here (b : Box) (d : Bool) {t : Tree} (hsize : multiThreadRebuildPointNum ≤ t.nodes) :
    Follows S t [.delete b d] (S.deleteByRange b d false (some []) t).tree where
  runs := by
    rw [S.deleteByRange_here]
    cases d <;> rfl
  deletes := by cases d <;> simp [Operation.delete, Operation.Deletes]
  size := by rw [S.deleteByRange_nodes]; exact hsize

/-- Adding a point below any node on the way to the subtree, that of the subtree itself included. -/
theorem follows_add (p : Point) {π : List Side} (allow : Bool) (a : Axis) {t : Tree} (h : t.Sound)
    (hsize : multiThreadRebuildPointNum ≤ (t.at π).nodes) :
    Follows S (t.at π)
      (if π.isEmpty then [.addPoint p] else (S.addByPoint p (allow && !π.isEmpty) (some π) a t).logged)
      ((S.addByPoint p (allow && !π.isEmpty) (some π) a t).tree.at π) := by
  induction π generalizing t allow a with
  | nil => simpa using follows_add_here S p a (by simpa using hsize)
  | cons s π ih =>
    cases t with
    | nil => simp [Tree.at, Tree.nodes, multiThreadRebuildPointNum] at hsize
    | node n l r =>
      rw [Setting.addByPoint]
      cases s with
      | left =>
        have hpush := follows_push S .left h hsize
        simp only [RebuildPtr.at_same, RebuildPtr.at_left, RebuildPtr.toward_same, RebuildPtr.toward_left,
          List.isEmpty_cons, Bool.not_false, Bool.and_true, Bool.false_eq_true, if_false]
        split
        · have hson := ih allow n.divisionAxis h.pushLeft hpush.size
          have hadd := S.addByPoint_spec p (allow && !π.isEmpty) (some π) n.divisionAxis h.pushLeft
          rw [S.finish_large (h.ready_with (S.addByPoint_fresh _ _ _ _) fresh_of_nil) hadd.sound h.pushRight
            ((hson.size.trans (Tree.nodes_at_le _ _)).trans (Nat.le_add_right _ _))]
          exact hpush.append hson
        · have hadd := S.addByPoint_spec p allow none n.divisionAxis h.pushRight
          rw [S.finish_large (h.ready_with fresh_of_nil (S.addByPoint_fresh _ _ _ _)) h.pushLeft hadd.sound
            ((hpush.size.trans (Tree.nodes_at_le _ _)).trans (Nat.le_add_right _ _)), S.addByPoint_logged]
          exact hpush.append (.refl hpush.size)
      | right =>
        have hpush := follows_push S .right h hsize
        simp only [RebuildPtr.at_same, RebuildPtr.at_right, RebuildPtr.toward_same, RebuildPtr.toward_right,
          List.isEmpty_cons, Bool.not_false, Bool.and_true, Bool.false_eq_true, if_false]
        split
        · have hadd := S.addByPoint_spec p allow none n.divisionAxis h.pushLeft
          rw [S.finish_large (h.ready_with (S.addByPoint_fresh _ _ _ _) fresh_of_nil) hadd.sound h.pushRight
            ((hpush.size.trans (Tree.nodes_at_le _ _)).trans (Nat.le_add_left _ _)), S.addByPoint_logged]
          exact hpush.append (.refl hpush.size)
        · have hson := ih allow n.divisionAxis h.pushRight hpush.size
          have hadd := S.addByPoint_spec p (allow && !π.isEmpty) (some π) n.divisionAxis h.pushRight
          rw [S.finish_large (h.ready_with fresh_of_nil (S.addByPoint_fresh _ _ _ _)) h.pushLeft hadd.sound
            ((hson.size.trans (Tree.nodes_at_le _ _)).trans (Nat.le_add_left _ _))]
          exact hpush.append hson

/-- Deleting a box below any node on the way to the subtree, that of the subtree itself included. -/
theorem follows_delete (b : Box) (d : Bool) {π : List Side} (allow : Bool) {t : Tree} (h : t.Sound)
    (hsize : multiThreadRebuildPointNum ≤ (t.at π).nodes) :
    Follows S (t.at π)
      (if π.isEmpty then [.delete b d] else (S.deleteByRange b d (allow && !π.isEmpty) (some π) t).logged)
      ((S.deleteByRange b d (allow && !π.isEmpty) (some π) t).tree.at π) := by
  induction π generalizing t allow with
  | nil => simpa using follows_delete_here S b d (by simpa using hsize)
  | cons s π ih =>
    cases t with
    | nil => simp [Tree.at, Tree.nodes, multiThreadRebuildPointNum] at hsize
    | node n l r =>
      rw [Setting.deleteByRange]
      simp only [List.isEmpty_cons, Bool.not_false, Bool.and_true, Bool.false_eq_true, if_false]
      cases s with
      | left =>
        have hpush := follows_push S .left h hsize
        simp only [RebuildPtr.at_same, RebuildPtr.at_left, RebuildPtr.toward_same, RebuildPtr.toward_left]
        split
        · exact .refl hsize
        split
        · exact hpush
        split
        · exact hpush
        have hson := ih allow h.pushLeft hpush.size
        have hel := S.deleteByRange_spec b d (allow && !π.isEmpty) (some π) h.pushLeft
        have her := S.deleteByRange_spec b d (allow && !false) none h.pushRight
        rw [S.finish_large ((h.ready_with (S.deleteByRange_fresh _ _ _ _) (S.deleteByRange_fresh _ _ _ _)).deletePoint
          b d) hel.sound her.sound ((hson.size.trans (Tree.nodes_at_le _ _)).trans (Nat.le_add_right _ _)),
          S.deleteByRange_logged]
        simp only [Bool.false_eq_true, if_false, List.append_nil]
        exact hpush.append hson
      | right =>
        have hpush := follows_push S .right h hsize
        simp only [RebuildPtr.at_same, RebuildPtr.at_right, RebuildPtr.toward_same, RebuildPtr.toward_right]
        split
        · exact .refl hsize
        split
        · exact hpush
        split
        · exact hpush
        have hson := ih allow h.pushRight hpush.size
        have hel := S.deleteByRange_spec b d (allow && !false) none h.pushLeft
        have her := S.deleteByRange_spec b d (allow && !π.isEmpty) (some π) h.pushRight
        rw [S.finish_large ((h.ready_with (S.deleteByRange_fresh _ _ _ _) (S.deleteByRange_fresh _ _ _ _)).deletePoint
          b d) hel.sound her.sound ((hson.size.trans (Tree.nodes_at_le _ _)).trans (Nat.le_add_left _ _)),
          S.deleteByRange_logged]
        simp only [Bool.false_eq_true, if_false, List.append_nil]
        exact hpush.append hson

/-- What the main thread does to the tree in one go. -/
inductive Walk where
  | add (p : Point)
  | delete (b : Box) (isDownsample : Bool)
deriving DecidableEq

/-- The operation that is logged when the whole tree is rebuilt. -/
def Walk.operation : Walk → Operation
  | .add p => .addPoint p
  | .delete b d => .delete b d

/-- The walk from the root, in `Add_Points` and `Delete_Point_Boxes`: nothing is rebuilt in place, and the operation is
logged, where `*Rebuild_Ptr` is the root itself. -/
def Setting.walk (ptr : RebuildPtr) (t : Tree) (w : Walk) : Effect :=
  let allowRebuild := ptr != some []
  let e := match w with
    | .add p => S.addByPoint p allowRebuild ptr t.axis t
    | .delete b d => S.deleteByRange b d allowRebuild ptr t
  { e with logged := if ptr = some [] then [w.operation] else e.logged }

theorem allowRebuild_eq (π : List Side) : ((some π : RebuildPtr) != some []) = !π.isEmpty := by cases π <;> rfl

section
variable {t : Tree} {π : List Side}

theorem follows_walkAdd (p : Point) (h : t.Sound) (hsize : multiThreadRebuildPointNum ≤ (t.at π).nodes) :
    Follows S (t.at π) (S.walk (some π) t (.add p)).logged ((S.walk (some π) t (.add p)).tree.at π) := by
  have := follows_add S p true t.axis h hsize
  cases π <;> simpa [Setting.walk, allowRebuild_eq, Walk.operation] using this

theorem follows_walkDelete (b : Box) (d : Bool) (h : t.Sound) (hsize : multiThreadRebuildPointNum ≤ (t.at π).nodes) :
    Follows S (t.at π) (S.walk (some π) t (.delete b d)).logged ((S.walk (some π) t (.delete b d)).tree.at π) := by
  have := follows_delete S b d true h hsize
  cases π <;> simpa [Setting.walk, allowRebuild_eq, Walk.operation] using this

end

/-- **A walk of the main thread does to the subtree that is rebuilt exactly what it logs**, wherever the subtree is; each
of these operations is one that the rebuild may replay. -/
theorem walk_follows (w : Walk) {t : Tree} {π : List Side} (h : t.Sound)
    (hsize : multiThreadRebuildPointNum ≤ (t.at π).nodes) :
    Follows S (t.at π) (S.walk (some π) t w).logged ((S.walk (some π) t w).tree.at π) := by
  cases w with
  | add p => exact follows_walkAdd S p h hsize
  | delete b d => exact follows_walkDelete S b d h hsize

theorem walk_follows_left :
    let t := Tree.mk (.init (fun _ => 1) .x) (Setting.exact.buildTree (List.replicate 1500 fun _ => 0)) .nil
    let e := Setting.exact.walk (some [.left]) t (.add fun _ => 0)
    Follows Setting.exact (t.at [.left]) e.logged (e.tree.at [.left]) := by
  refine walk_follows Setting.exact _ (Tree.Sound.mk (Node.init_ready _ _ _ _) (Setting.buildTree_spec _ _).1 trivial) ?_
  rw [Tree.mk, Tree.at_left, Setting.nodes_buildTree, List.length_replicate]
  exact Nat.le_refl 1500

end Agilex.Map
