import Agilex.Map.Build
import Mathlib.Algebra.Order.Group.Multiset
import Mathlib.Tactic.Abel

/-!
# The incremental k-d tree: adding, deleting and searching

`Add_by_point`, `Delete_by_range` and `Search_by_range` of `ikd_Tree.cpp`. A walk is given `Rebuild_Ptr` as it stands
while the walk goes on: below it nothing is rebuilt, and what is done to that subtree is logged.

What each walk does to a sound tree is said once: `Setting.addByPoint_spec`, `Setting.deleteByRange_spec`,
`searchByRange_spec`.
-/

namespace Agilex.Map

variable (S : Setting)

/-- `Add_by_point`. -/
def Setting.addByPoint (S : Setting) (p : Point) (allowRebuild : Bool) (ptr : RebuildPtr) (fatherAxis : Axis) :
    Tree → Effect
  | .nil => ⟨.mk (.init p fatherAxis.next) .nil .nil, 0, [], []⟩
  | .node n l r =>
    if p n.divisionAxis < n.point n.divisionAxis then
      let e := S.addByPoint p (allowRebuild && !ptr.at .left) (ptr.toward .left) n.divisionAxis (n.pushLeft l)
      let f := S.finish allowRebuild (n.pushed l r) e.tree (n.pushRight r)
      { f with
        removed := e.removed ++ f.removed
        logged := n.pushLog ptr l r ++ if ptr.at .left then [.addPoint p] else e.logged }
    else
      let e := S.addByPoint p (allowRebuild && !ptr.at .right) (ptr.toward .right) n.divisionAxis (n.pushRight r)
      let f := S.finish allowRebuild (n.pushed l r) (n.pushLeft l) e.tree
      { f with
        removed := e.removed ++ f.removed
        logged := n.pushLog ptr l r ++ if ptr.at .right then [.addPoint p] else e.logged }
termination_by t => t.nodes
decreasing_by all_goals first | exact Node.nodes_left_lt .. | exact Node.nodes_right_lt ..

/-- The node that `Delete_by_range` leaves where the box holds the whole range. -/
def Node.deleteTree (isDownsample : Bool) (n : Node) : Node :=
  { n with
    treeDeleted := true
    pointDeleted := true
    needPushDownToLeft := true
    needPushDownToRight := true
    invalidPointNum := n.treeSize
    treeDownsampleDeleted := n.treeDownsampleDeleted || isDownsample
    pointDownsampleDeleted := n.pointDownsampleDeleted || isDownsample
    downDelNum := if isDownsample then n.treeSize else n.downDelNum }

/-- What `Delete_by_range` does to the point of the node itself. -/
def Node.deletePoint (b : Box) (isDownsample : Bool) (n : Node) : Node :=
  if !n.pointDeleted && b.Has n.point then
    { n with
      pointDeleted := true
      pointDownsampleDeleted := n.pointDownsampleDeleted || isDownsample }
  else n

/-- The operation that `Delete_by_range` logs. -/
def Operation.delete (b : Box) (isDownsample : Bool) : Operation :=
  if isDownsample then .downsampleDelete b else .deleteBox b

/-- `Delete_by_range`. -/
def Setting.deleteByRange (S : Setting) (b : Box) (isDownsample allowRebuild : Bool) (ptr : RebuildPtr) : Tree → Effect
  | .nil => ⟨.nil, 0, [], []⟩
  | .node n l r =>
    if n.treeDeleted then ⟨.node n l r, 0, [], []⟩
    else if b.Misses n.nodeRange then
      ⟨.node (n.pushed l r) (n.pushLeft l) (n.pushRight r), 0, [], n.pushLog ptr l r⟩
    else if b.Holds n.nodeRange then
      ⟨.node ((n.pushed l r).deleteTree isDownsample) (n.pushLeft l) (n.pushRight r),
        n.treeSize - n.invalidPointNum, [], n.pushLog ptr l r⟩
    else
      let own := if !n.pointDeleted && b.Has n.point then 1 else 0
      let el := S.deleteByRange b isDownsample (allowRebuild && !ptr.at .left) (ptr.toward .left) (n.pushLeft l)
      let er := S.deleteByRange b isDownsample (allowRebuild && !ptr.at .right) (ptr.toward .right) (n.pushRight r)
      let f := S.finish allowRebuild ((n.pushed l r).deletePoint b isDownsample) el.tree er.tree
      { tree := f.tree
        counter := own + el.counter + er.counter
        removed := el.removed ++ er.removed ++ f.removed
        logged := n.pushLog ptr l r ++
          (if ptr.at .left then [.delete b isDownsample] else el.logged) ++
          if ptr.at .right then [.delete b isDownsample] else er.logged }
termination_by t => t.nodes
decreasing_by all_goals first | exact Node.nodes_left_lt .. | exact Node.nodes_right_lt ..

/-- What a search appends to `Storage`, the tree it leaves, and the log. -/
structure Found where
  tree : Tree
  storage : List Point
  logged : List Operation

/-- `Search_by_range`. -/
def searchByRange (b : Box) (ptr : RebuildPtr) : Tree → Found
  | .nil => ⟨.nil, [], []⟩
  | .node n l r =>
    if b.Misses n.nodeRange then
      ⟨.node (n.pushed l r) (n.pushLeft l) (n.pushRight r), [], n.pushLog ptr l r⟩
    else if b.Holds n.nodeRange then
      let f := flatten ptr (.node (n.pushed l r) (n.pushLeft l) (n.pushRight r))
      ⟨f.tree, f.storage, n.pushLog ptr l r ++ f.logged⟩
    else
      let fl := searchByRange b (ptr.toward .left) (n.pushLeft l)
      let fr := searchByRange b (ptr.toward .right) (n.pushRight r)
      { tree := .node (n.pushed l r) fl.tree fr.tree
        storage := (if b.Has n.point && !n.pointDeleted then [n.point] else []) ++ fl.storage ++ fr.storage
        logged := n.pushLog ptr l r ++ fl.logged ++ fr.logged }
termination_by t => t.nodes
decreasing_by all_goals first | exact Node.nodes_left_lt .. | exact Node.nodes_right_lt ..

/-! ## `Add_by_point` -/

/-- What adding a point leaves. -/
structure Added (p : Point) (t : Tree) (e : Effect) : Prop where
  sound : e.tree.Sound
  bag : e.tree.bag = p ::ₘ t.bag
  graves : e.tree.graves + e.removed = t.graves
  isNil : e.tree.isNil = false

theorem Tree.Sound.leaf (p : Point) (a : Axis) :
    (Tree.mk (.init p a) .nil .nil).Sound ∧ (Tree.mk (.init p a) .nil .nil).entries = [⟨p, false, false⟩] :=
  ⟨Tree.Sound.mk (Node.init_ready p a _ _) trivial trivial,
    Tree.entries_mk (Node.init_ready p a _ _) trivial trivial⟩

/-- A son to which a flag could not be pushed down is a null pointer. -/
theorem Node.isNil_of_pushed_left {n : Node} {l r : Tree} (h : (n.pushed l r).needPushDownToLeft = true) :
    n.pushLeft l = .nil := by
  have hnil : l.isNil = true := by
    simp only [Node.pushed, Bool.and_eq_true] at h
    exact h.2
  cases l with
  | nil => unfold Node.pushLeft; split <;> rfl
  | node => simp [Tree.isNil] at hnil

theorem Node.isNil_of_pushed_right {n : Node} {l r : Tree} (h : (n.pushed l r).needPushDownToRight = true) :
    n.pushRight r = .nil := by
  have hnil : r.isNil = true := by
    simp only [Node.pushed, Bool.and_eq_true] at h
    exact h.2
  cases r with
  | nil => unfold Node.pushRight; split <;> rfl
  | node => simp [Tree.isNil] at hnil

/-- After `Push_Down` the sons may be changed, where there were any. -/
theorem Tree.Sound.ready_with {n : Node} {l r l' r' : Tree} (h : (Tree.node n l r).Sound)
    (hl : n.pushLeft l = .nil → Fresh l'.entries) (hr : n.pushRight r = .nil → Fresh r'.entries) :
    (n.pushed l r).Ready l' r' where
  left hn := hl (Node.isNil_of_pushed_left hn)
  right hn := hr (Node.isNil_of_pushed_right hn)
  marked := h.ready.marked

theorem fresh_of_nil {t : Tree} (h : t = .nil) : Fresh t.entries := by
  subst h
  simp [Fresh]

theorem Setting.addByPoint_nil (p : Point) (allow : Bool) (ptr : RebuildPtr) (a : Axis) :
    S.addByPoint p allow ptr a .nil = ⟨.mk (.init p a.next) .nil .nil, 0, [], []⟩ := by
  rw [Setting.addByPoint]

/-- A null pointer becomes a new leaf. -/
theorem Setting.addByPoint_fresh (p : Point) (allow : Bool) (ptr : RebuildPtr) (a : Axis) {t : Tree} (h : t = .nil) :
    Fresh (S.addByPoint p allow ptr a t).tree.entries := by
  rw [h, S.addByPoint_nil, (Tree.Sound.leaf p _).2]
  simp [Fresh]

/-- The end of the walk, over two sons of which one has got the point. -/
theorem Setting.added_finish (allow : Bool) {p : Point} {n : Node} {l r : Tree} {bag graves : Multiset Point}
    {removed : List Point} (hn : n.Ready l r) (hl : l.Sound) (hr : r.Sound)
    (hbag : n.ownBag + (l.bag + r.bag) = p ::ₘ bag) (hgraves : n.ownGraves + (l.graves + r.graves) + removed = graves) :
    (S.finish allow n l r).tree.Sound ∧ (S.finish allow n l r).tree.bag = p ::ₘ bag ∧
      (S.finish allow n l r).tree.graves + (removed ++ (S.finish allow n l r).removed : List Point) = graves ∧
        (S.finish allow n l r).tree.isNil = false := by
  have hf := S.finish_spec allow hn hl hr
  have hb := Tree.bag_mk hn hl hr
  refine ⟨hf.sound, by rw [hf.bag, hb, hbag], ?_, hf.isNil ?_⟩
  · rw [← hgraves, ← Tree.graves_mk hn hl hr, ← hf.graves, ← Multiset.coe_add]
    abel
  · rw [hb, hbag]
    exact Multiset.cons_ne_zero

/-- `Add_by_point` adds the point, whatever is rebuilt on the way. -/
theorem Setting.addByPoint_spec (p : Point) (allow : Bool) (ptr : RebuildPtr) (a : Axis) {t : Tree} (h : t.Sound) :
    Added p t (S.addByPoint p allow ptr a t) := by
  fun_induction Setting.addByPoint S p allow ptr a t with
  | case1 allow ptr a =>
    obtain ⟨hs, he⟩ := Tree.Sound.leaf p a.next
    exact ⟨hs, by simp [Tree.bag, Tree.live, he], by simp [Tree.graves, he], rfl⟩
  | case2 allow ptr a n l r hlt e f ih =>
    have ih : Added p (n.pushLeft l) e := ih h.pushLeft
    have hready : (n.pushed l r).Ready e.tree (n.pushRight r) := h.ready_with (S.addByPoint_fresh _ _ _ _) fresh_of_nil
    have hbag : (n.pushed l r).ownBag + (e.tree.bag + (n.pushRight r).bag) = p ::ₘ (Tree.node n l r).bag := by
      rw [ih.bag, h.bag_node, Multiset.cons_add, Multiset.add_cons]
      rfl
    have hgraves : (n.pushed l r).ownGraves + (e.tree.graves + (n.pushRight r).graves) + e.removed =
        (Tree.node n l r).graves := by
      rw [h.graves_node, ← ih.graves, show (n.pushed l r).ownGraves = n.ownGraves from rfl]
      abel
    obtain ⟨hs, hb, hg, hnil⟩ := S.added_finish allow hready ih.sound h.pushRight hbag hgraves
    exact ⟨hs, hb, hg, hnil⟩
  | case3 allow ptr a n l r hlt e f ih =>
    have ih : Added p (n.pushRight r) e := ih h.pushRight
    have hready : (n.pushed l r).Ready (n.pushLeft l) e.tree := h.ready_with fresh_of_nil (S.addByPoint_fresh _ _ _ _)
    have hbag : (n.pushed l r).ownBag + ((n.pushLeft l).bag + e.tree.bag) = p ::ₘ (Tree.node n l r).bag := by
      rw [ih.bag, h.bag_node, Multiset.add_cons, Multiset.add_cons]
      rfl
    have hgraves : (n.pushed l r).ownGraves + ((n.pushLeft l).graves + e.tree.graves) + e.removed =
        (Tree.node n l r).graves := by
      rw [h.graves_node, ← ih.graves, show (n.pushed l r).ownGraves = n.ownGraves from rfl]
      abel
    obtain ⟨hs, hb, hg, hnil⟩ := S.added_finish allow hready h.pushLeft ih.sound hbag hgraves
    exact ⟨hs, hb, hg, hnil⟩

/-! ## `Delete_by_range` -/

/-- What deleting a box leaves: exactly its points are gone and counted; those that no downsampling took are still to
be reported, the others never are. -/
structure Deleted (b : Box) (isDownsample : Bool) (t : Tree) (e : Effect) : Prop where
  sound : e.tree.Sound
  bag : e.tree.bag = t.bag.filter (¬ b.Has ·)
  counter : e.counter = t.bag.countP b.Has
  graves : isDownsample = false → e.tree.graves + e.removed = t.graves + t.bag.filter b.Has
  spared : isDownsample = true → e.tree.graves + e.removed ≤ t.graves
  isNil : e.tree.isNil = t.isNil

/-- Where the box holds the range, the node is left as if a deleted father had pushed its flags down. -/
theorem Node.deleteTree_eq (d : Bool) (n : Node) : n.deleteTree d = n.inherit true d := by
  simp [Node.deleteTree, Node.inherit]

theorem Tree.Sound.unmarked {t : Tree} (h : t.Sound) :
    ∀ e ∈ t.entries, e.downsampleDeleted = true → e.deleted = true := by
  cases t with
  | nil => simp
  | node n l r => exact h.2.2.1.marked

/-- A tree that inherits a deletion holds nothing; its points wait to be reported, unless a downsampling took them. -/
theorem Tree.Sound.inherit_deleted {t : Tree} (h : t.Sound) (d : Bool) :
    (t.inherit true d).Sound ∧ (t.inherit true d).bag = 0 ∧
      (t.inherit true d).graves = if d then 0 else t.graves + t.bag := by
  refine ⟨h.inherit (by simp) (by simp), ?_, ?_⟩
  · rw [Tree.bag, Tree.live, Tree.entries_inherit h, live_eq_nil]
    · rfl
    · simp [Entry.inherit]
  · have hm := h.unmarked
    rw [Tree.graves, Tree.graves, Tree.bag, Tree.live, Tree.entries_inherit h]
    revert hm
    generalize t.entries = es
    intro hm
    induction es with
    | nil => cases d <;> rfl
    | cons e es ih =>
      have ih := ih fun e' he' => hm e' (by simp [he'])
      rw [List.map_cons, dead_cons, dead_cons, live_cons]
      cases d with
      | true => simpa [Entry.inherit] using ih
      | false =>
        have := hm e (by simp)
        cases hdd : e.downsampleDeleted with
        | true => simpa [Entry.inherit, hdd, this hdd] using ih
        | false =>
          simp only [Bool.false_eq_true, if_false] at ih ⊢
          cases hd : e.deleted <;>
            simp [Entry.inherit, hdd, ← Multiset.cons_coe, ih]

theorem Setting.deleteByRange_fresh (b : Box) (d allow : Bool) (ptr : RebuildPtr) {t : Tree} (h : t = .nil) :
    Fresh (S.deleteByRange b d allow ptr t).tree.entries := by
  rw [h, Setting.deleteByRange]
  simp [Fresh]

section
variable (b : Box) (d : Bool) (n : Node)

theorem Node.ownBag_deletePoint : (n.deletePoint b d).ownBag = n.ownBag.filter (¬ b.Has ·) := by
  unfold Node.deletePoint Node.ownBag
  by_cases hb : b.Has n.point <;> cases hp : n.pointDeleted <;> simp [hb, hp, Multiset.filter_singleton]

theorem Node.ownGraves_deletePoint (hm : n.pointDownsampleDeleted = true → n.pointDeleted = true) :
    (n.deletePoint b d).ownGraves = n.ownGraves + if d then 0 else n.ownBag.filter b.Has := by
  unfold Node.deletePoint Node.ownBag Node.ownGraves
  cases hp : n.pointDeleted with
  | true => cases d <;> simp [hp]
  | false =>
    have hd : n.pointDownsampleDeleted = false := by
      rw [← Bool.not_eq_true]
      exact fun hd => by simp [hm hd] at hp
    by_cases hb : b.Has n.point <;> cases d <;> simp [hb, hp, hd, Multiset.filter_singleton]

theorem Node.countP_ownBag :
    n.ownBag.countP b.Has = if !n.pointDeleted && b.Has n.point then 1 else 0 := by
  unfold Node.ownBag
  by_cases hb : b.Has n.point <;> cases hp : n.pointDeleted <;> simp [hb, ← Multiset.cons_zero]

theorem Node.Ready.deletePoint {n : Node} {l r : Tree} (h : n.Ready l r) : (n.deletePoint b d).Ready l r := by
  unfold Node.deletePoint
  split
  · exact ⟨h.left, h.right, fun _ => rfl⟩
  · exact h

end

/-- `Delete_by_range` deletes the points of the box, whatever is rebuilt on the way. -/
theorem Setting.deleteByRange_spec (b : Box) (d allow : Bool) (ptr : RebuildPtr) {t : Tree} (h : t.Sound) :
    Deleted b d t (S.deleteByRange b d allow ptr t) := by
  fun_induction Setting.deleteByRange S b d allow ptr t with
  | case1 => exact ⟨trivial, rfl, rfl, fun _ => rfl, fun _ => by simp, rfl⟩
  | case2 allow ptr n l r htd =>
    have hbag : (Tree.node n l r).bag = 0 := by
      rw [Tree.bag, Tree.live, h.2.2.1.live_eq_nil htd]
      rfl
    exact ⟨h, by simp [hbag], by simp [hbag], fun _ => by simp [hbag], fun _ => by simp, rfl⟩
  | case3 allow ptr n l r htd hmiss =>
    have hnone : ∀ p ∈ (Tree.node n l r).bag, ¬ b.Has p := h.not_has hmiss
    have hbag := Tree.bag_congr h.entries_pushDown
    have hgraves := Tree.graves_congr h.entries_pushDown
    have hzero : (Tree.node n l r).bag.filter b.Has = 0 := Multiset.filter_eq_nil.mpr hnone
    have hcount : (Tree.node n l r).bag.countP b.Has = 0 := Multiset.countP_eq_zero.mpr hnone
    refine ⟨h.pushDown, ?_, hcount.symm, fun _ => ?_, fun _ => ?_, rfl⟩
    · exact hbag.trans (Multiset.filter_eq_self.mpr hnone).symm
    · rw [hzero]
      simpa [Tree.pushDown] using hgraves
    · exact (by simpa [Tree.pushDown] using hgraves.le)
  | case4 allow ptr n l r htd hmiss hholds =>
    have hall : ∀ p ∈ (Tree.node n l r).bag, b.Has p := h.has hholds
    have hbag := Tree.bag_congr h.entries_pushDown
    have hgraves := Tree.graves_congr h.entries_pushDown
    obtain ⟨hs, hb, hg⟩ := h.pushDown.inherit_deleted d
    rw [hbag, hgraves] at hg
    simp only [Tree.pushDown, Tree.inherit, ← Node.deleteTree_eq] at hs hb hg
    refine ⟨hs, ?_, ?_, fun hd => ?_, fun hd => ?_, rfl⟩
    · exact hb.trans (Multiset.filter_eq_nil.mpr fun p hp => not_not.mpr (hall p hp)).symm
    · rw [Multiset.countP_eq_card.mpr hall, h.2.2.1.treeSize, h.2.2.1.invalid]
      have := length_live (Tree.node n l r).entries
      simp only [Tree.bag, Tree.live, Multiset.coe_card]
      omega
    · rw [Multiset.filter_eq_self.mpr hall, hg, hd]
      simp
    · rw [hg, hd]
      exact Multiset.zero_le _
  | case5 allow ptr n l r htd hmiss hholds own el er f ihl ihr =>
    have ihl : Deleted b d (n.pushLeft l) el := ihl h.pushLeft
    have ihr : Deleted b d (n.pushRight r) er := ihr h.pushRight
    have hready : ((n.pushed l r).deletePoint b d).Ready el.tree er.tree :=
      (h.ready_with (S.deleteByRange_fresh _ _ _ _) (S.deleteByRange_fresh _ _ _ _)).deletePoint b d
    have hf : Rebuilt (.mk _ el.tree er.tree) f := S.finish_spec allow hready ihl.sound ihr.sound
    have hbag : f.tree.bag = (Tree.node n l r).bag.filter (¬ b.Has ·) := by
      rw [hf.bag, Tree.bag_mk hready ihl.sound ihr.sound, ihl.bag, ihr.bag, h.bag_node, Node.ownBag_deletePoint,
        Multiset.filter_add, Multiset.filter_add]
      rfl
    have hgraves : f.tree.graves + (el.removed ++ er.removed ++ f.removed : List Point) =
        n.ownGraves + (if d then 0 else n.ownBag.filter b.Has) +
          (el.tree.graves + el.removed + (er.tree.graves + er.removed)) := by
      rw [← Multiset.coe_add, ← Multiset.coe_add,
        show f.tree.graves + ((el.removed : Multiset Point) + er.removed + f.removed) =
          f.tree.graves + f.removed + (el.removed + er.removed) by abel,
        hf.graves, Tree.graves_mk hready ihl.sound ihr.sound, Node.ownGraves_deletePoint b d _ h.ready.marked]
      change n.ownGraves + (if d then 0 else n.ownBag.filter b.Has) + (el.tree.graves + er.tree.graves) +
        (el.removed + er.removed) = _
      abel
    refine ⟨hf.sound, hbag, ?_, fun hd => ?_, fun hd => ?_, ?_⟩
    · have hown : own = n.ownBag.countP b.Has := by simp [own, Node.countP_ownBag]
      rw [h.bag_node, Multiset.countP_add, Multiset.countP_add, ← hown, ← ihl.counter, ← ihr.counter, add_assoc]
    · rw [hgraves, ihl.graves hd, ihr.graves hd, h.graves_node, h.bag_node, Multiset.filter_add,
        Multiset.filter_add, hd]
      simp only [Bool.false_eq_true, if_false]
      abel
    · rw [hgraves, h.graves_node, hd, if_pos rfl, add_zero]
      exact add_le_add_right (add_le_add (ihl.spared hd) (ihr.spared hd)) _
    · -- the range is that of the points, so a box that does not hold it leaves one of them
      refine hf.isNil fun hzero => hholds ?_
      rw [← hf.bag, hbag, Multiset.filter_eq_nil] at hzero
      rw [h.2.2.1.nodeRange (Bool.not_eq_true _ |>.mp htd)]
      exact Box.holds_hull.mpr fun p hp => not_not.mp (hzero p hp)

/-! ## `Search_by_range` -/

/-- `Search_by_range` finds the points of the box, each as often as the tree holds it, and changes nothing. -/
theorem searchByRange_spec (b : Box) (ptr : RebuildPtr) {t : Tree} (h : t.Sound) :
    (searchByRange b ptr t).storage = t.live.filter b.Has ∧ (searchByRange b ptr t).tree.Sound ∧
      (searchByRange b ptr t).tree.entries = t.entries := by
  fun_induction searchByRange b ptr t with
  | case1 => exact ⟨rfl, trivial, rfl⟩
  | case2 ptr n l r hmiss =>
    refine ⟨?_, h.pushDown, h.entries_pushDown⟩
    exact (List.filter_eq_nil_iff.mpr fun p hp => by simpa using h.not_has hmiss p hp).symm
  | case3 ptr n l r hmiss hholds f =>
    obtain ⟨hs, he, -⟩ := flatten_tree h.pushDown ptr
    refine ⟨?_, hs, he.trans h.entries_pushDown⟩
    rw [List.filter_eq_self.mpr fun p hp => by simpa using h.has hholds p hp]
    exact (flatten_storage h.pushDown ptr).trans (congrArg live h.entries_pushDown)
  | case4 ptr n l r hmiss hholds fl fr ihl ihr =>
    obtain ⟨hfl, hsl, hel⟩ := ihl h.pushLeft
    obtain ⟨hfr, hsr, her⟩ := ihr h.pushRight
    obtain ⟨hs, he⟩ := h.pushDown.replace hsl hsr hel her
    refine ⟨?_, hs, he.trans h.entries_pushDown⟩
    have hlive : (Tree.node n l r).live = (if n.pointDeleted then [] else [n.point]) ++ (n.pushLeft l).live ++
        (n.pushRight r).live := by
      rw [Tree.live, h.entries_node, live_cons, live_append]
      cases hp : n.pointDeleted <;> simp [Node.own, hp, Tree.live]
    rw [hlive, List.filter_append, List.filter_append, ← hfl, ← hfr]
    cases hp : n.pointDeleted <;> by_cases hb : b.Has n.point <;> simp [hb, fl, fr]

end Agilex.Map
