import Mathlib.Algebra.Order.Field.Rat
import Mathlib.Data.List.Count
import Mathlib.Data.List.Flatten
import Mathlib.Algebra.BigOperators.Group.List.Basic
import Mathlib.Data.Fintype.Sets

/-!
# The incremental k-d tree: nodes

`KD_TREE_NODE`, `Push_Down` and `Update` of `ikd_Tree.cpp`. Floats are the rationals they stand for, never NaN.

- A node is a `Node`, its sons are the two subtrees of `Tree.node`; the null pointer is `Tree.nil`.
- The range `{INFINITY, -INFINITY}` on every axis, which `Update` starts from, is `none`.
- A son that a flag of its father is still to reach is deleted as the flag says: `Tree.entries` reads every point
  through the flags above it, and `Node.Summary` says what the counters of a node are of.
- `father_ptr`, `working_flag`, the mutexes, `radius_sq` and the two `alpha` are left out.
-/

namespace Agilex.Map

/-- `division_axis`. -/
inductive Axis where
  | x
  | y
  | z
deriving DecidableEq, Repr

instance : Fintype Axis := ⟨{.x, .y, .z}, fun a => by cases a <;> simp⟩

/-- `(axis + 1) % 3`. -/
def Axis.next : Axis → Axis
  | .x => .y
  | .y => .z
  | .z => .x

/-- The three coordinates of a point. -/
abbrev Point := Axis → ℚ

/-- `BoxPointType`. -/
structure Box where
  vertexMin : Axis → ℚ
  vertexMax : Axis → ℚ
deriving DecidableEq

/-- A point of the box: its lower faces belong to it, its upper faces do not. -/
def Box.Has (b : Box) (p : Point) : Prop := ∀ a, b.vertexMin a ≤ p a ∧ p a < b.vertexMax a

instance (b : Box) : DecidablePred b.Has := fun _ => inferInstanceAs (Decidable (∀ _, _))

/-! ## Ranges -/

/-- `node_range_x`, `node_range_y` and `node_range_z`. -/
structure Range where
  lo : Axis → ℚ
  hi : Axis → ℚ
deriving DecidableEq

/-- The range of one point. -/
def Range.of (p : Point) : Range := ⟨p, p⟩

/-- `std::min` of the lower ends and `std::max` of the upper ends. -/
def join : Option Range → Option Range → Option Range
  | none, s => s
  | some r, none => some r
  | some r, some s => some ⟨fun a => min (r.lo a) (s.lo a), fun a => max (r.hi a) (s.hi a)⟩

def joinAll (rs : List (Option Range)) : Option Range := rs.foldr join none

/-- The least range that covers all the points. -/
def hull (ps : List Point) : Option Range := joinAll (ps.map fun p => some (.of p))

/-- The test of the walks that turns back: the box and the range have nothing in common. -/
def Box.Misses (b : Box) : Option Range → Prop
  | none => True
  | some r => ∃ a, b.vertexMax a ≤ r.lo a ∨ r.hi a < b.vertexMin a

/-- The test of the walks that takes the whole subtree. -/
def Box.Holds (b : Box) : Option Range → Prop
  | none => True
  | some r => ∀ a, b.vertexMin a ≤ r.lo a ∧ r.hi a < b.vertexMax a

instance (b : Box) : DecidablePred b.Misses
  | none => inferInstanceAs (Decidable True)
  | some _ => inferInstanceAs (Decidable (∃ _, _))

instance (b : Box) : DecidablePred b.Holds
  | none => inferInstanceAs (Decidable True)
  | some _ => inferInstanceAs (Decidable (∀ _, _))

@[simp] theorem join_none_left (r : Option Range) : join none r = r := by cases r <;> rfl

@[simp] theorem join_none_right (r : Option Range) : join r none = r := by cases r <;> rfl

theorem join_comm (r s : Option Range) : join r s = join s r := by
  rcases r with _ | r <;> rcases s with _ | s <;> simp [join, min_comm, max_comm]

theorem join_assoc (r s t : Option Range) : join (join r s) t = join r (join s t) := by
  rcases r with _ | r <;> rcases s with _ | s <;> rcases t with _ | t <;> simp [join, min_assoc, max_assoc]

@[simp] theorem joinAll_nil : joinAll [] = none := rfl

@[simp] theorem joinAll_cons (r : Option Range) (rs : List (Option Range)) :
    joinAll (r :: rs) = join r (joinAll rs) := rfl

theorem joinAll_append (rs ss : List (Option Range)) : joinAll (rs ++ ss) = join (joinAll rs) (joinAll ss) := by
  induction rs with
  | nil => simp
  | cons r rs ih => simp [ih, join_assoc]

@[simp] theorem hull_nil : hull [] = none := rfl

@[simp] theorem hull_cons (p : Point) (ps : List Point) : hull (p :: ps) = join (some (.of p)) (hull ps) := rfl

theorem hull_append (ps qs : List Point) : hull (ps ++ qs) = join (hull ps) (hull qs) := by
  simp [hull, joinAll_append]

/-- The hull reaches exactly as far as its points do. -/
theorem hull_spec {ps : List Point} {r : Range} (h : hull ps = some r) :
    (∀ p ∈ ps, ∀ a, r.lo a ≤ p a ∧ p a ≤ r.hi a) ∧
      ∀ a, (∃ p ∈ ps, p a = r.lo a) ∧ ∃ p ∈ ps, p a = r.hi a := by
  induction ps generalizing r with
  | nil => simp at h
  | cons p ps ih =>
    rw [hull_cons] at h
    cases hs : hull ps with
    | none =>
      have hnil : ps = [] := by
        cases ps with
        | nil => rfl
        | cons q qs => rw [hull_cons] at hs; cases hq : hull qs <;> simp [hq, join] at hs
      rw [hs] at h
      cases h
      simp [hnil, Range.of]
    | some s =>
      obtain ⟨hcov, hends⟩ := ih hs
      rw [hs] at h
      cases h
      refine ⟨?_, fun a => ⟨?_, ?_⟩⟩
      · intro q hq a
        rcases List.mem_cons.mp hq with rfl | hq
        · simp [Range.of]
        · exact ⟨(min_le_right _ _).trans (hcov q hq a).1, (hcov q hq a).2.trans (le_max_right _ _)⟩
      · obtain ⟨q, hq, e⟩ := (hends a).1
        rcases min_choice (p a) (s.lo a) with hm | hm
        · exact ⟨p, by simp, hm.symm⟩
        · exact ⟨q, by simp [hq], e.trans hm.symm⟩
      · obtain ⟨q, hq, e⟩ := (hends a).2
        rcases max_choice (p a) (s.hi a) with hm | hm
        · exact ⟨p, by simp, hm.symm⟩
        · exact ⟨q, by simp [hq], e.trans hm.symm⟩

theorem hull_ne_none {ps : List Point} (h : ps ≠ []) : hull ps ≠ none := by
  cases ps with
  | nil => exact absurd rfl h
  | cons p ps => rw [hull_cons]; cases hull ps <;> simp [join]

/-- A box turned back at the hull has none of the points. -/
theorem Box.not_has_of_misses {b : Box} {ps : List Point} (h : b.Misses (hull ps)) : ∀ p ∈ ps, ¬ b.Has p := by
  intro p hp hb
  cases hr : hull ps with
  | none => exact hull_ne_none (List.ne_nil_of_mem hp) hr
  | some r =>
    rw [hr] at h
    obtain ⟨a, ha⟩ := h
    have hcov := (hull_spec hr).1 p hp a
    rcases ha with ha | ha
    · exact absurd (hb a).2 (not_lt.mpr (ha.trans hcov.1))
    · exact absurd (hb a).1 (not_le.mpr (hcov.2.trans_lt ha))

/-- A box that takes the whole hull has all of the points, and no other does. -/
theorem Box.holds_hull {b : Box} {ps : List Point} : b.Holds (hull ps) ↔ ∀ p ∈ ps, b.Has p := by
  cases hr : hull ps with
  | none =>
    have : ps = [] := by by_contra hne; exact hull_ne_none hne hr
    simp [this, Box.Holds]
  | some r =>
    obtain ⟨hcov, hends⟩ := hull_spec hr
    constructor
    · intro h p hp a
      exact ⟨(h a).1.trans (hcov p hp a).1, (hcov p hp a).2.trans_lt (h a).2⟩
    · intro h a
      obtain ⟨⟨p, hp, ep⟩, q, hq, eq⟩ := hends a
      exact ⟨ep ▸ (h p hp a).1, eq ▸ (h q hq a).2⟩

/-! ## Nodes -/

/-- `KD_TREE_NODE`, less its sons. -/
structure Node where
  point : Point
  divisionAxis : Axis
  treeSize : ℕ
  invalidPointNum : ℕ
  downDelNum : ℕ
  pointDeleted : Bool
  treeDeleted : Bool
  pointDownsampleDeleted : Bool
  treeDownsampleDeleted : Bool
  needPushDownToLeft : Bool
  needPushDownToRight : Bool
  nodeRange : Option Range
deriving DecidableEq

/-- `InitTreeNode`, with the point and the axis that are set right after it. -/
def Node.init (p : Point) (axis : Axis) : Node where
  point := p
  divisionAxis := axis
  treeSize := 0
  invalidPointNum := 0
  downDelNum := 0
  pointDeleted := false
  treeDeleted := false
  pointDownsampleDeleted := false
  treeDownsampleDeleted := false
  needPushDownToLeft := false
  needPushDownToRight := false
  nodeRange := some ⟨fun _ => 0, fun _ => 0⟩

inductive Tree where
  | nil
  | node (root : Node) (left right : Tree)
deriving DecidableEq

def Tree.isNil : Tree → Bool
  | .nil => true
  | .node .. => false

/-- The number of nodes. -/
def Tree.nodes : Tree → ℕ
  | .nil => 0
  | .node _ l r => l.nodes + r.nodes + 1

/-- The node under a pointer that is not null. -/
def Tree.root : Tree → List Node
  | .nil => []
  | .node n _ _ => [n]

/-- What `Push_Down` and a logged `PUSH_DOWN` write into a node: the two flags of the father. -/
def Node.inherit (treeDeleted treeDownsampleDeleted : Bool) (c : Node) : Node :=
  let tdd := c.treeDownsampleDeleted || treeDownsampleDeleted
  let pdd := c.pointDownsampleDeleted || treeDownsampleDeleted
  let td := treeDeleted || tdd
  let down := if treeDownsampleDeleted then c.treeSize else c.downDelNum
  { c with
    treeDownsampleDeleted := tdd
    pointDownsampleDeleted := pdd
    treeDeleted := td
    pointDeleted := td || pdd
    downDelNum := down
    invalidPointNum := if treeDeleted then c.treeSize else down
    needPushDownToLeft := true
    needPushDownToRight := true }

def Tree.inherit (treeDeleted treeDownsampleDeleted : Bool) : Tree → Tree
  | .nil => .nil
  | .node c l r => .node (c.inherit treeDeleted treeDownsampleDeleted) l r

/-- The left son after `Push_Down` of its father. -/
def Node.pushLeft (n : Node) (l : Tree) : Tree :=
  if n.needPushDownToLeft then l.inherit n.treeDeleted n.treeDownsampleDeleted else l

/-- The right son after `Push_Down` of its father. -/
def Node.pushRight (n : Node) (r : Tree) : Tree :=
  if n.needPushDownToRight then r.inherit n.treeDeleted n.treeDownsampleDeleted else r

/-- The node itself after `Push_Down`: a flag towards a null pointer stays. -/
def Node.pushed (n : Node) (l r : Tree) : Node :=
  { n with
    needPushDownToLeft := n.needPushDownToLeft && l.isNil
    needPushDownToRight := n.needPushDownToRight && r.isNil }

/-- `Push_Down`. -/
def Tree.pushDown : Tree → Tree
  | .nil => .nil
  | .node n l r => .node (n.pushed l r) (n.pushLeft l) (n.pushRight r)

/-- `Update`: the four branches on which sons there are, as one on the sons that there are. -/
def Node.update (n : Node) (sons : List Node) : Node :=
  let td := sons.all (·.treeDeleted) && n.pointDeleted
  { n with
    treeSize := (sons.map (·.treeSize)).sum + 1
    invalidPointNum := (sons.map (·.invalidPointNum)).sum + n.pointDeleted.toNat
    downDelNum := (sons.map (·.downDelNum)).sum + n.pointDownsampleDeleted.toNat
    treeDownsampleDeleted := sons.all (·.treeDownsampleDeleted) && n.pointDownsampleDeleted
    treeDeleted := td
    nodeRange :=
      if td || (sons.all (!·.treeDeleted) && !n.pointDeleted) then
        joinAll (sons.map (·.nodeRange) ++ [some (.of n.point)])
      else
        joinAll ((sons.filter (!·.treeDeleted)).map (·.nodeRange) ++
          if n.pointDeleted then [] else [some (.of n.point)]) }

/-- A node over two sons, with `Update` run on it. -/
def Tree.mk (n : Node) (l r : Tree) : Tree := .node (n.update (l.root ++ r.root)) l r

end Agilex.Map
