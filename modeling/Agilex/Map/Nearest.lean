import Agilex.Map.Interface
import Agilex.Lib.MaxHeap
import Mathlib.Order.WithBot

/-!
# The incremental k-d tree: the nearest points

`MANUAL_HEAP`, `calc_box_dist`, `Search` and `Nearest_Search` of `ikd_Tree.cpp`. `INFINITY` is `⊤`; the flags that `Search`
pushes down on its way are read through, and not written back.

- `boxDist_le`: the distance of a range is no more than that of any point in it, in floats.
- `Kept`: what the heap holds of the points that were seen; `search_kept`: `Search` keeps it, also of the subtrees that it
  does not enter.
- `nearestSearch_spec`: the points that `Nearest_Search` returns.
-/

namespace Agilex.Map

open Agilex.Lib Function

variable (S : Setting)

/-- `PointType_CMP`. -/
structure PointCmp where
  point : Point
  dist : ℚ
deriving DecidableEq

/-- `operator<` of `PointType_CMP`: distances that are close to each other count as equal. -/
def Setting.less (e f : PointCmp) : Bool :=
  if |S.flt (e.dist - f.dist)| < 1 / 10000000000 then e.point .x < f.point .x else e.dist < f.dist

/-- `MANUAL_HEAP`; the cells from `heapSize` on are never read. -/
structure ManualHeap where
  heap : ℕ → PointCmp
  heapSize : ℕ
  cap : ℕ

def ManualHeap.top (q : ManualHeap) : PointCmp := q.heap 0

def Setting.pop (q : ManualHeap) : ManualHeap :=
  if q.heapSize = 0 then q
  else
    let heap := update q.heap 0 (q.heap (q.heapSize - 1))
    { q with heap := MaxHeap.moveDown S.less (q.heapSize - 1) (heap 0) heap 0, heapSize := q.heapSize - 1 }

def Setting.push (q : ManualHeap) (e : PointCmp) : ManualHeap :=
  if q.heapSize ≥ q.cap then q
  else
    let heap := update q.heap q.heapSize e
    { q with heap := MaxHeap.floatUp S.less (heap q.heapSize) heap q.heapSize, heapSize := q.heapSize + 1 }

/-- The square of a difference, in floats. -/
def Setting.sq (x : ℚ) : ℚ := S.flt (S.flt x * S.flt x)

/-- What `calc_box_dist` does for one axis. -/
def Setting.addAxis (r : Range) (p : Point) (minDist : ℚ) (a : Axis) : ℚ :=
  let minDist := if p a < r.lo a then S.flt (minDist + S.sq (p a - r.lo a)) else minDist
  if p a > r.hi a then S.flt (minDist + S.sq (p a - r.hi a)) else minDist

/-- `calc_box_dist` of a node that is there. -/
def Setting.rangeDist (r : Range) (p : Point) : ℚ :=
  S.addAxis r p (S.addAxis r p (S.addAxis r p 0 .x) .y) .z

/-- `calc_box_dist`. -/
def Setting.boxDist : Tree → Point → WithTop ℚ
  | .nil, _ => ⊤
  | .node n _ _, p =>
    match n.nodeRange with
    | none => ⊤
    | some r => (S.rangeDist r p : ℚ)

/-- What `Search` does with the point of a node. -/
def Setting.visit (k : ℕ) (p : Point) (maxDistSqr : WithTop ℚ) (n : Node) (q : ManualHeap) : ManualHeap :=
  if n.pointDeleted then q
  else
    let dist := S.calcDist p n.point
    if (dist : WithTop ℚ) ≤ maxDistSqr ∧ (q.heapSize < k ∨ dist < q.top.dist) then
      S.push (if q.heapSize ≥ k then S.pop q else q) ⟨n.point, dist⟩
    else q

/-- A son that may still hold a nearer point. -/
def Setting.Near (k : ℕ) (p : Point) (t : Tree) (q : ManualHeap) : Prop :=
  q.heapSize < k ∨ S.boxDist t p < q.top.dist

instance (k : ℕ) (p : Point) (t : Tree) (q : ManualHeap) : Decidable (S.Near k p t q) :=
  inferInstanceAs (Decidable (_ ∨ _))

/-- `Search`. -/
def Setting.search (S : Setting) (k : ℕ) (p : Point) (maxDistSqr : WithTop ℚ) : Tree → ManualHeap → ManualHeap
  | .nil, q => q
  | .node n l r, q =>
    if n.treeDeleted then q
    else if S.boxDist (.node n l r) p > maxDistSqr then q
    else
      let q := S.visit k p maxDistSqr n q
      let l := n.pushLeft l
      let r := n.pushRight r
      let dl := S.boxDist l p
      let dr := S.boxDist r p
      if q.heapSize < k ∨ (dl < q.top.dist ∧ dr < q.top.dist) then
        if dl ≤ dr then
          let q := S.search k p maxDistSqr l q
          if S.Near k p r q then S.search k p maxDistSqr r q else q
        else
          let q := S.search k p maxDistSqr r q
          if S.Near k p l q then S.search k p maxDistSqr l q else q
      else
        let q := if dl < q.top.dist then S.search k p maxDistSqr l q else q
        if dr < q.top.dist then S.search k p maxDistSqr r q else q
termination_by t => t.nodes
decreasing_by all_goals first | exact Node.nodes_left_lt .. | exact Node.nodes_right_lt ..

/-- The top of the heap, put before those already taken, `n` times. -/
def Setting.takeAll (S : Setting) : ℕ → ManualHeap → List PointCmp → List PointCmp
  | 0, _, es => es
  | n + 1, q, es => S.takeAll n (S.pop q) (q.top :: es)

/-- `Nearest_Search`: the points, with their distances. -/
def Setting.nearestSearch (t : Tree) (p : Point) (k : ℕ) (maxDist : WithTop ℚ) : List PointCmp :=
  let q := S.search k p (maxDist.map fun d => S.flt (d * d)) t ⟨fun _ => ⟨fun _ => 0, 0⟩, 0, 2 * k⟩
  S.takeAll (min k q.heapSize) q []

/-! ## Distances -/

section
variable {S} {p c : Point} {r : Range}

theorem Setting.sq_nonneg (x : ℚ) : 0 ≤ S.sq x := S.flt_nonneg (mul_self_nonneg _)

theorem Setting.sq_mono {x y : ℚ} (hx : 0 ≤ x) (h : x ≤ y) : S.sq x ≤ S.sq y :=
  S.flt_mono (mul_self_le_mul_self (S.flt_nonneg hx) (S.flt_mono h))

theorem Setting.sq_anti {x y : ℚ} (hx : x ≤ 0) (h : y ≤ x) : S.sq x ≤ S.sq y :=
  S.flt_mono (mul_le_mul_of_nonpos_of_nonpos (S.flt_mono h) (S.flt_mono h)
    (S.flt_nonpos (h.trans hx)) (S.flt_nonpos hx))

/-- Along one axis a range adds no more than a point in it does. -/
theorem Setting.addAxis_le {m m' : ℚ} (a : Axis) (hc : r.lo a ≤ c a ∧ c a ≤ r.hi a) (hm : m ≤ m')
    (hm' : S.flt m' = m') : S.addAxis r p m a ≤ S.flt (m' + S.sq (p a - c a)) := by
  unfold Setting.addAxis
  by_cases hlo : p a < r.lo a
  · have hhi : ¬ p a > r.hi a := not_lt.mpr (hlo.le.trans (hc.1.trans hc.2))
    rw [if_pos hlo, if_neg hhi]
    exact S.flt_mono (add_le_add hm (S.sq_anti (sub_nonpos.mpr hlo.le) (sub_le_sub_left hc.1 _)))
  · rw [if_neg hlo]
    by_cases hhi : p a > r.hi a
    · rw [if_pos hhi]
      exact S.flt_mono (add_le_add hm (S.sq_mono (sub_nonneg.mpr hhi.le) (sub_le_sub_left hc.2 _)))
    · rw [if_neg hhi]
      calc m ≤ S.flt m' := hm.trans hm'.ge
        _ ≤ S.flt (m' + S.sq (p a - c a)) := S.flt_mono (le_add_of_nonneg_right (S.sq_nonneg _))

/-- The distance to a range is no more than that to a point in it, as the two are computed. -/
theorem Setting.rangeDist_le (hc : ∀ a, r.lo a ≤ c a ∧ c a ≤ r.hi a) : S.rangeDist r p ≤ S.calcDist p c := by
  have hx := S.addAxis_le (p := p) .x (hc .x) le_rfl S.flt_zero
  have hy := S.addAxis_le (p := p) .y (hc .y) hx (S.flt_flt _)
  have hz := S.addAxis_le (p := p) .z (hc .z) hy (S.flt_flt _)
  rw [zero_add, show S.flt (S.sq (p .x - c .x)) = S.sq (p .x - c .x) from S.flt_flt _] at hz
  exact hz

/-- **No point below a node is nearer than `calc_box_dist` of the node.** -/
theorem Setting.boxDist_le {t : Tree} (h : t.Sound) (hc : c ∈ t.bag) : S.boxDist t p ≤ (S.calcDist p c : ℚ) := by
  cases t with
  | nil => simp at hc
  | node n l r =>
    have hlive : c ∈ (Tree.node n l r).live := hc
    have htd : n.treeDeleted = false := by
      rw [← Bool.not_eq_true]
      intro htd
      rw [Tree.live, h.2.2.1.live_eq_nil htd] at hlive
      simp at hlive
    obtain ⟨s, hs⟩ := Option.ne_none_iff_exists'.mp (hull_ne_none (List.ne_nil_of_mem hlive))
    have hr := (h.2.2.1.nodeRange htd).trans hs
    simp only [Setting.boxDist, hr]
    exact WithTop.coe_le_coe.mpr (S.rangeDist_le ((hull_spec hs).1 c hlive))

end

/-! ## The heap -/

/-- The elements of the heap. -/
def ManualHeap.elems (q : ManualHeap) : Multiset PointCmp := MaxHeap.bag q.heapSize q.heap

/-- No distance in the heap is above that of the top. -/
def ManualHeap.Ordered (q : ManualHeap) : Prop := MaxHeap.Ordered PointCmp.dist q.heapSize q.heap

section
variable {S} {q : ManualHeap} {e : PointCmp} {P : PointCmp → Prop}

@[simp] theorem ManualHeap.card_elems (q : ManualHeap) : q.elems.card = q.heapSize := MaxHeap.card_bag

theorem ManualHeap.top_mem (h : 0 < q.heapSize) : q.top ∈ q.elems := MaxHeap.mem_bag.mpr ⟨0, h, rfl⟩

theorem ManualHeap.Ordered.le_top (h : q.Ordered) : ∀ e ∈ q.elems, e.dist ≤ q.top.dist := by
  intro e he
  obtain ⟨j, hj, rfl⟩ := MaxHeap.mem_bag.mp he
  exact MaxHeap.Ordered.root h hj

theorem ManualHeap.holds_at (hP : ∀ f ∈ q.elems, P f) : ∀ j < q.heapSize, P (q.heap j) :=
  fun j hj => hP _ (MaxHeap.mem_bag.mpr ⟨j, hj, rfl⟩)

theorem Setting.push_eq (h : q.heapSize < q.cap) : S.push q e =
    { q with heap := MaxHeap.floatUp S.less e (update q.heap q.heapSize e) q.heapSize, heapSize := q.heapSize + 1 } := by
  simp [Setting.push, not_le.mpr h]

theorem Setting.pop_eq {n : ℕ} (h : q.heapSize = n + 1) : S.pop q =
    { q with heap := MaxHeap.moveDown S.less n (q.heap n) (update q.heap 0 (q.heap n)) 0, heapSize := n } := by
  simp [Setting.pop, h]

theorem Setting.cap_pop : (S.pop q).cap = q.cap := by
  unfold Setting.pop
  split <;> rfl

theorem Setting.elems_push (h : q.heapSize < q.cap) : (S.push q e).elems = e ::ₘ q.elems := by
  rw [S.push_eq h]
  exact MaxHeap.bag_push

theorem Setting.elems_pop (h : 0 < q.heapSize) : q.top ::ₘ (S.pop q).elems = q.elems := by
  obtain ⟨n, hn⟩ := Nat.exists_eq_succ_of_ne_zero h.ne'
  rw [S.pop_eq hn, ManualHeap.elems, ManualHeap.elems, hn]
  exact MaxHeap.bag_pop

theorem Setting.ordered_push (hf : MaxHeap.Fits S.less PointCmp.dist P) (h : q.Ordered) (hP : ∀ f ∈ q.elems, P f)
    (he : P e) (hq : q.heapSize < q.cap) : (S.push q e).Ordered := by
  rw [S.push_eq hq]
  exact MaxHeap.Ordered.push hf h he (ManualHeap.holds_at hP)

theorem Setting.ordered_pop (hf : MaxHeap.Fits S.less PointCmp.dist P) (h : q.Ordered) (hP : ∀ f ∈ q.elems, P f)
    (hq : 0 < q.heapSize) : (S.pop q).Ordered := by
  obtain ⟨n, hn⟩ := Nat.exists_eq_succ_of_ne_zero hq.ne'
  have hP := ManualHeap.holds_at hP
  rw [ManualHeap.Ordered] at h
  rw [hn] at h hP
  rw [S.pop_eq hn]
  exact MaxHeap.Ordered.pop hf h hP

end

/-! ## `Search` -/

/-- The points of a tree that `Nearest_Search` may return, with their distances. -/
def Setting.candidates (p : Point) (maxDistSqr : WithTop ℚ) (m : Multiset Point) : Multiset PointCmp :=
  (m.map fun c => ⟨c, S.calcDist p c⟩).filter fun e => (e.dist : WithTop ℚ) ≤ maxDistSqr

/-- What the heap holds of the points that were seen: `k` of them, or all, and none that is left out is nearer, where the
comparison of the heap can be relied on. -/
structure Setting.Kept (k : ℕ) (P : PointCmp → Prop) (q : ManualHeap) (seen : Multiset PointCmp) : Prop where
  cap : k ≤ q.cap
  size : q.heapSize ≤ k
  holds : ∀ e ∈ seen, P e
  rest : ∃ rest, seen = q.elems + rest ∧ (rest ≠ 0 → q.heapSize = k) ∧
    (MaxHeap.Fits S.less PointCmp.dist P → q.Ordered ∧ ∀ e ∈ q.elems, ∀ f ∈ rest, e.dist ≤ f.dist)

section
variable {S} {k : ℕ} {p : Point} {d : WithTop ℚ} {q : ManualHeap} {seen : Multiset PointCmp} {P : PointCmp → Prop}

theorem Setting.candidates_add (m m' : Multiset Point) :
    S.candidates p d (m + m') = S.candidates p d m + S.candidates p d m' := by
  simp [Setting.candidates]

theorem Setting.Kept.full (h : S.Kept k P q seen) (hk : k ≤ seen.card) : q.heapSize = k := by
  obtain ⟨rest, he, hr, -⟩ := h.rest
  by_cases hne : rest = 0
  · have := h.size
    rw [he, hne, add_zero, ManualHeap.card_elems] at hk
    omega
  · exact hr hne

theorem Setting.Kept.card_seen (h : S.Kept k P q seen) : q.heapSize ≤ seen.card := by
  obtain ⟨rest, he, -⟩ := h.rest
  rw [he, Multiset.card_add, ManualHeap.card_elems]
  exact Nat.le_add_right _ _

/-- Nothing that is as far away as the top of a full heap needs to be looked at. -/
theorem Setting.Kept.skip (h : S.Kept k P q seen) (hq : q.heapSize = k) {es : Multiset PointCmp}
    (hP : ∀ e ∈ es, P e) (hes : ∀ e ∈ es, q.top.dist ≤ e.dist) : S.Kept k P q (seen + es) := by
  obtain ⟨rest, he, hr, ho⟩ := h.rest
  refine ⟨h.cap, h.size, fun e hm => ?_, rest + es, by rw [he, add_assoc], fun _ => hq, fun hf => ?_⟩
  · exact (Multiset.mem_add.mp hm).elim (h.holds e) (hP e)
  · obtain ⟨hord, hle⟩ := ho hf
    refine ⟨hord, fun e hm f hf => ?_⟩
    rcases Multiset.mem_add.mp hf with hf | hf
    · exact hle e hm f hf
    · exact (hord.le_top e hm).trans (hes f hf)

/-- A point that is not too far away goes into the heap, for the top where the heap is full. -/
theorem Setting.Kept.push (hk : 0 < k) (h : S.Kept k P q seen) {e : PointCmp} (hP : P e)
    (hnear : q.heapSize < k ∨ e.dist < q.top.dist) :
    S.Kept k P (S.push (if q.heapSize ≥ k then S.pop q else q) e) (e ::ₘ seen) := by
  obtain ⟨rest, he, hr, ho⟩ := h.rest
  have hholds : ∀ f ∈ e ::ₘ seen, P f := fun f hm => (Multiset.mem_cons.mp hm).elim (· ▸ hP) (h.holds f)
  have hPq : ∀ f ∈ q.elems, P f := fun f hm => h.holds f (he ▸ Multiset.mem_add.mpr (.inl hm))
  have hcap := h.cap
  split
  · next hfull =>
    have hq : q.heapSize = k := le_antisymm h.size hfull
    have hpos : 0 < q.heapSize := hq ▸ hk
    have hpop := S.elems_pop hpos
    have hsize : (S.pop q).heapSize + 1 = k := by
      rw [← hq, ← ManualHeap.card_elems, ← ManualHeap.card_elems, ← hpop, Multiset.card_cons]
    have hroom : (S.pop q).heapSize < (S.pop q).cap := by
      rw [S.cap_pop]
      omega
    have hlt : e.dist < q.top.dist := hnear.resolve_left (not_lt.mpr hfull)
    have hnew : (S.push (S.pop q) e).heapSize = k := by rw [S.push_eq hroom, ← hsize]
    refine ⟨by rw [S.push_eq hroom, S.cap_pop]; exact hcap, hnew.le, hholds, q.top ::ₘ rest, ?_, fun _ => hnew,
      fun hf => ?_⟩
    · rw [S.elems_push hroom, he, ← hpop, Multiset.cons_add, Multiset.cons_add, Multiset.add_cons]
    · obtain ⟨hord, hle⟩ := ho hf
      have hsub : ∀ f ∈ (S.pop q).elems, f ∈ q.elems := fun f hm => hpop ▸ Multiset.mem_cons_of_mem hm
      refine ⟨S.ordered_push hf (S.ordered_pop hf hord hPq hpos) (fun f hm => hPq f (hsub f hm)) hP hroom, ?_⟩
      -- the top that went out is as far away as any that stayed, and farther than the new one
      have htop : ∀ f ∈ q.top ::ₘ rest, q.top.dist ≤ f.dist := fun f hm =>
        (Multiset.mem_cons.mp hm).elim (· ▸ le_rfl) (hle _ (ManualHeap.top_mem hpos) f)
      intro f hm g hg
      rw [S.elems_push hroom] at hm
      rcases Multiset.mem_cons.mp hm with rfl | hm
      · exact hlt.le.trans (htop g hg)
      · exact (hord.le_top f (hsub f hm)).trans (htop g hg)
  · next hfull =>
    have hroom : q.heapSize < q.cap := by omega
    have hrest : rest = 0 := by
      by_contra hne
      exact hfull (hr hne).ge
    refine ⟨by rw [S.push_eq hroom]; exact hcap, by rw [S.push_eq hroom]; exact not_le.mp hfull, hholds, 0, ?_,
      fun hne => absurd rfl hne, fun hf => ⟨S.ordered_push hf (ho hf).1 hPq hP hroom, by simp⟩⟩
    rw [S.elems_push hroom, he, hrest, add_zero, add_zero]

/-- What `Search` does with the point of a node. -/
theorem Setting.Kept.visit (hk : 0 < k) (h : S.Kept k P q seen) (n : Node) (hP : ∀ e ∈ S.candidates p d n.ownBag, P e) :
    S.Kept k P (S.visit k p d n q) (seen + S.candidates p d n.ownBag) := by
  unfold Setting.visit
  cases hdel : n.pointDeleted with
  | true => simpa [Node.ownBag, hdel, Setting.candidates] using h
  | false =>
    by_cases hd : (S.calcDist p n.point : WithTop ℚ) ≤ d
    · have hown : S.candidates p d n.ownBag = {⟨n.point, S.calcDist p n.point⟩} := by
        simp [Setting.candidates, Node.ownBag, hdel, hd, Multiset.filter_singleton]
      rw [hown] at hP ⊢
      have hP := hP _ (Multiset.mem_singleton_self _)
      rw [if_neg Bool.false_ne_true]
      by_cases hnear : q.heapSize < k ∨ S.calcDist p n.point < q.top.dist
      · rw [if_pos ⟨hd, hnear⟩, add_comm, Multiset.singleton_add]
        exact h.push hk hP hnear
      · rw [if_neg fun hc => hnear hc.2]
        obtain ⟨hfull, hfar⟩ := not_or.mp hnear
        refine h.skip (le_antisymm h.size (not_lt.mp hfull)) (fun e he => ?_) fun e he => ?_
        · exact Multiset.mem_singleton.mp he ▸ hP
        · exact Multiset.mem_singleton.mp he ▸ not_lt.mp hfar
    · have hown : S.candidates p d n.ownBag = 0 := by
        simp [Setting.candidates, Node.ownBag, hdel, hd, Multiset.filter_singleton]
      rw [hown, add_zero]
      simpa [hd] using h

/-- A tree that is not entered. -/
theorem Setting.Kept.skip_tree (h : S.Kept k P q seen) {t : Tree} (ht : t.Sound) (hP : ∀ e ∈ S.candidates p d t.bag, P e)
    (hfull : q.heapSize = k) (hfar : ¬ S.boxDist t p < q.top.dist) : S.Kept k P q (seen + S.candidates p d t.bag) := by
  refine h.skip hfull hP fun e he => ?_
  obtain ⟨c, hc, rfl⟩ := Multiset.mem_map.mp (Multiset.mem_filter.mp he).1
  exact WithTop.coe_le_coe.mp ((not_lt.mp hfar).trans (S.boxDist_le ht hc))

/-- **`Search` keeps what is nearest**, of what was seen before and of the points of the tree, entered or not. -/
theorem Setting.search_kept (hk : 0 < k) {t : Tree} (ht : t.Sound) (h : S.Kept k P q seen)
    (hP : ∀ e ∈ S.candidates p d t.bag, P e) : S.Kept k P (S.search k p d t q) (seen + S.candidates p d t.bag) := by
  induction hn : t.nodes using Nat.strongRecOn generalizing t q seen with
  | ind m ih =>
  subst hn
  cases t with
  | nil => simpa [Setting.search, Setting.candidates] using h
  | node n l r =>
    rw [Setting.search]
    split
    · next htd =>
      simpa [Setting.candidates, Tree.bag, Tree.live, ht.2.2.1.live_eq_nil htd] using h
    split
    · next hfar =>
      have hnone : S.candidates p d (Tree.node n l r).bag = 0 := by
        refine Multiset.filter_eq_nil.mpr fun e he hle => ?_
        obtain ⟨c, hc, rfl⟩ := Multiset.mem_map.mp he
        exact absurd (hfar.trans_le (S.boxDist_le ht hc)) (not_lt.mpr hle)
      rw [hnone, add_zero]
      exact h
    rw [ht.bag_node, S.candidates_add, S.candidates_add] at hP ⊢
    have hPo : ∀ e ∈ S.candidates p d n.ownBag, P e := fun e he => hP e (Multiset.mem_add.mpr (.inl he))
    have hPl : ∀ e ∈ S.candidates p d (n.pushLeft l).bag, P e := fun e he => hP e (by simp [he])
    have hPr : ∀ e ∈ S.candidates p d (n.pushRight r).bag, P e := fun e he => hP e (by simp [he])
    have hl {q seen} (h : S.Kept k P q seen) := ih _ (n.nodes_left_lt l r) ht.pushLeft h hPl rfl
    have hr {q seen} (h : S.Kept k P q seen) := ih _ (n.nodes_right_lt l r) ht.pushRight h hPr rfl
    have hskip {t q seen} (h : S.Kept k P q seen) (ht : t.Sound) (hP : ∀ e ∈ S.candidates p d t.bag, P e)
        (hn : ¬ S.Near k p t q) : S.Kept k P q (seen + S.candidates p d t.bag) :=
      h.skip_tree ht hP (le_antisymm h.size (not_lt.mp fun hs => hn (.inl hs))) fun hs => hn (.inr hs)
    have hv := h.visit hk n hPo
    rw [← add_assoc, ← add_assoc]
    dsimp only
    split
    · split
      · -- the left son first
        split
        · exact hr (hl hv)
        · next hn => exact hskip (hl hv) ht.pushRight hPr hn
      · -- the right son first
        rw [add_right_comm]
        split
        · exact hl (hr hv)
        · next hn => exact hskip (hr hv) ht.pushLeft hPl hn
    · next hn =>
      -- the heap is full, and stays so
      have hfull : (S.visit k p d n q).heapSize = k := le_antisymm hv.size (not_lt.mp fun hs => hn (.inl hs))
      obtain ⟨q₁, hq₁, hleft⟩ : ∃ q₁, q₁ = (if S.boxDist (n.pushLeft l) p < (S.visit k p d n q).top.dist
          then S.search k p d (n.pushLeft l) (S.visit k p d n q) else S.visit k p d n q) ∧
          S.Kept k P q₁ (seen + S.candidates p d n.ownBag + S.candidates p d (n.pushLeft l).bag) := by
        refine ⟨_, rfl, ?_⟩
        split
        · exact hl hv
        · next hfar => exact hv.skip_tree ht.pushLeft hPl hfull hfar
      rw [← hq₁]
      split
      · exact hr hleft
      · next hfar =>
        refine hleft.skip_tree ht.pushRight hPr (hleft.full ?_) hfar
        rw [Multiset.card_add]
        exact (hfull ▸ hv.card_seen).trans (Nat.le_add_right _ _)

end

/-! ## `Nearest_Search` -/

/-- Distances that differ are far enough from each other for the comparison of the heap to tell. -/
def Setting.Separated (es : Multiset PointCmp) : Prop :=
  ∀ e ∈ es, ∀ f ∈ es, e.dist = f.dist ∨ 1 / 10000000000 ≤ |S.flt (e.dist - f.dist)|

section
variable {S} {k : ℕ} {p : Point} {q : ManualHeap} {es : Multiset PointCmp}

theorem Setting.Separated.fits (h : S.Separated es) : MaxHeap.Fits S.less PointCmp.dist (· ∈ es) where
  le_of_lt e f he hf hlt := by
    unfold Setting.less at hlt
    split at hlt
    · next hclose => exact ((h e he f hf).resolve_right (not_le.mpr hclose)).le
    · exact (of_decide_eq_true hlt).le
  le_of_not_lt e f he hf hlt := by
    unfold Setting.less at hlt
    split at hlt
    · next hclose => exact ((h e he f hf).resolve_right (not_le.mpr hclose)).ge
    · exact not_lt.mp (of_decide_eq_false hlt)

/-- Taking the tops one after the other empties the heap. -/
theorem Setting.takeAll_spec (n : ℕ) (hn : q.heapSize = n) (L : List PointCmp) :
    ((S.takeAll n q L : List PointCmp) : Multiset PointCmp) = q.elems + L ∧
      (∀ P, MaxHeap.Fits S.less PointCmp.dist P → (∀ e ∈ q.elems, P e) → q.Ordered →
        L.Pairwise (·.dist ≤ ·.dist) → (∀ e ∈ q.elems, ∀ f ∈ L, e.dist ≤ f.dist) →
          (S.takeAll n q L).Pairwise (·.dist ≤ ·.dist)) := by
  induction n generalizing q L with
  | zero =>
    have helems : q.elems = 0 := by rw [← Multiset.card_eq_zero, ManualHeap.card_elems, hn]
    simp only [Setting.takeAll, helems, zero_add, true_and]
    exact fun _ _ _ _ hL _ => hL
  | succ n ih =>
    have hpos : 0 < q.heapSize := by omega
    have hpop := S.elems_pop hpos
    have hsize : (S.pop q).heapSize = n := by rw [S.pop_eq hn]
    obtain ⟨hbag, hsorted⟩ := ih hsize (q.top :: L)
    refine ⟨?_, fun P hf hP hord hL hle => ?_⟩
    · rw [Setting.takeAll, hbag, ← hpop, ← Multiset.cons_coe, Multiset.add_cons, Multiset.cons_add]
    · have hsub : ∀ f ∈ (S.pop q).elems, f ∈ q.elems := fun f hm => hpop ▸ Multiset.mem_cons_of_mem hm
      refine hsorted P hf (fun f hm => hP f (hsub f hm)) (S.ordered_pop hf hord hP hpos) ?_ fun f hm g hg => ?_
      · exact List.pairwise_cons.mpr ⟨hle _ (ManualHeap.top_mem hpos), hL⟩
      · rcases List.mem_cons.mp hg with rfl | hg
        · exact hord.le_top f (hsub f hm)
        · exact hle f (hsub f hm) g hg

/-- **`Nearest_Search` finds `k` points of the tree that are not deleted and not too far away, or all of them**, each with
its distance; where the distances are separated, they come in order and none that is left out is nearer. -/
theorem nearestSearch_spec {t : Tree} (ht : t.Sound) (hk : 0 < k) (maxDist : WithTop ℚ) :
    ∃ rest, ((S.nearestSearch t p k maxDist : List PointCmp) : Multiset PointCmp) + rest =
        S.candidates p (maxDist.map fun d => S.flt (d * d)) t.bag ∧
      (S.nearestSearch t p k maxDist).length =
        min k (S.candidates p (maxDist.map fun d => S.flt (d * d)) t.bag).card ∧
      (S.Separated (S.candidates p (maxDist.map fun d => S.flt (d * d)) t.bag) →
        (S.nearestSearch t p k maxDist).Pairwise (·.dist ≤ ·.dist) ∧
          ∀ e ∈ S.nearestSearch t p k maxDist, ∀ f ∈ rest, e.dist ≤ f.dist) := by
  unfold Setting.nearestSearch
  generalize hd : (maxDist.map fun d => S.flt (d * d)) = d
  have hempty : S.Kept k (· ∈ S.candidates p d t.bag) ⟨fun _ => ⟨fun _ => 0, 0⟩, 0, 2 * k⟩ 0 := by
    refine ⟨Nat.le_mul_of_pos_left k two_pos, Nat.zero_le k, by simp, 0, rfl, fun hne => absurd rfl hne, fun _ => ⟨?_, by simp⟩⟩
    exact fun j _ hj => absurd hj (Nat.not_lt_zero j)
  have h := Setting.search_kept hk ht hempty fun e he => he
  rw [zero_add] at h
  simp only [min_eq_right h.size]
  obtain ⟨rest, he, hr, ho⟩ := h.rest
  obtain ⟨hbag, hsorted⟩ := Setting.takeAll_spec (S := S) _ rfl []
  rw [Multiset.coe_nil, add_zero] at hbag
  refine ⟨rest, by rw [hbag, he], ?_, fun hsep => ?_⟩
  · rw [← Multiset.coe_card, hbag, ManualHeap.card_elems]
    by_cases hk : k ≤ (S.candidates p d t.bag).card
    · rw [min_eq_left hk, h.full hk]
    · have hrest : rest = 0 := by
        by_contra hne
        exact hk (hr hne ▸ h.card_seen)
      rw [min_eq_right (not_le.mp hk).le, he, hrest, add_zero, ManualHeap.card_elems]
  · obtain ⟨hord, hle⟩ := ho hsep.fits
    refine ⟨hsorted _ hsep.fits (fun e hm => h.holds e (he ▸ Multiset.mem_add.mpr (.inl hm))) hord .nil (by simp),
      fun e hm => hle e ?_⟩
    rw [← hbag]
    exact hm

end

end Agilex.Map
