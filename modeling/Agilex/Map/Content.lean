import Agilex.Map.Tree
import Mathlib.Data.Multiset.Filter

/-!
# The incremental k-d tree: what it holds

- `Tree.entries`: every point of the tree with the flags that a `Push_Down` all the way to it would leave in its node.
- `Tree.Sound`: the counters, flags and range of every node are those of the entries below it, as its father's flags
  have not changed them yet.
- `Tree.bag`: the points of the tree that are not deleted; `Tree.graves`: the deleted points that are to be reported.
- `Push_Down` keeps all of it (`Tree.entries_pushDown`, `Tree.Sound.pushDown`); `Update` restores them (`Tree.Sound.mk`).
-/

namespace Agilex.Map

/-- A point with `point_deleted` and `point_downsample_deleted` of its node. -/
structure Entry where
  point : Point
  deleted : Bool
  downsampleDeleted : Bool
deriving DecidableEq

/-- The entry once the two flags of a father have reached it. -/
def Entry.inherit (treeDeleted treeDownsampleDeleted : Bool) (e : Entry) : Entry :=
  { e with
    deleted := treeDeleted || (e.downsampleDeleted || treeDownsampleDeleted)
    downsampleDeleted := e.downsampleDeleted || treeDownsampleDeleted }

/-- The points that are not deleted. -/
def live (es : List Entry) : List Point := (es.filter (!·.deleted)).map (·.point)

def Node.own (n : Node) : Entry := ⟨n.point, n.pointDeleted, n.pointDownsampleDeleted⟩

/-- What is below a son, with the flag of its father. -/
def Node.through (n : Node) (need : Bool) (es : List Entry) : List Entry :=
  if need then es.map (Entry.inherit n.treeDeleted n.treeDownsampleDeleted) else es

def Tree.entries : Tree → List Entry
  | .nil => []
  | .node n l r =>
    n.own :: (n.through n.needPushDownToLeft l.entries ++ n.through n.needPushDownToRight r.entries)

/-- The points of the tree that are not deleted. -/
def Tree.live (t : Tree) : List Point := Map.live t.entries

/-- The deleted points that no downsampling took. -/
def dead (es : List Entry) : List Point := (es.filter fun e => e.deleted && !e.downsampleDeleted).map (·.point)

/-- The points that the tree holds, as often as it holds them. -/
def Tree.bag (t : Tree) : Multiset Point := t.live

/-- The deleted points that are still in the tree, less those that a downsampling took. -/
def Tree.graves (t : Tree) : Multiset Point := dead t.entries

/-- A node tells of the points below it. -/
structure Node.Summary (n : Node) (es : List Entry) : Prop where
  treeSize : n.treeSize = es.length
  invalid : n.invalidPointNum = es.countP (·.deleted)
  downDel : n.downDelNum = es.countP (·.downsampleDeleted)
  treeDeleted : n.treeDeleted = es.all (·.deleted)
  treeDownsampleDeleted : n.treeDownsampleDeleted = es.all (·.downsampleDeleted)
  marked : ∀ e ∈ es, e.downsampleDeleted = true → e.deleted = true
  nodeRange : n.treeDeleted = false → n.nodeRange = hull (Map.live es)

/-- At most one point, and no mark on it. -/
def Fresh (es : List Entry) : Prop :=
  es.length ≤ 1 ∧ ∀ e ∈ es, e.deleted = false ∧ e.downsampleDeleted = false

/-- A flag is on either for a deletion, or because there was no son when the deletion was pushed down; then at most a
new leaf has come there since. -/
def Node.Pending (n : Node) (need : Bool) (es : List Entry) : Prop :=
  need = true → n.treeDeleted = false → Fresh es

def Tree.Sound : Tree → Prop
  | .nil => True
  | .node n l r =>
    l.Sound ∧ r.Sound ∧ n.Summary (Tree.node n l r).entries ∧
      n.Pending n.needPushDownToLeft l.entries ∧ n.Pending n.needPushDownToRight r.entries

/-! ## Entries -/

@[simp] theorem live_nil : live [] = [] := rfl

@[simp] theorem live_cons (e : Entry) (es : List Entry) :
    live (e :: es) = if e.deleted then live es else e.point :: live es := by
  cases h : e.deleted <;> simp [live, h]

@[simp] theorem live_append (es fs : List Entry) : live (es ++ fs) = live es ++ live fs := by
  simp [live, List.filter_append]

theorem live_eq_nil {es : List Entry} (h : ∀ e ∈ es, e.deleted = true) : live es = [] := by
  simp only [live, List.map_eq_nil_iff, List.filter_eq_nil_iff]
  intro e he
  simp [h e he]

@[simp] theorem dead_nil : dead [] = [] := rfl

@[simp] theorem dead_cons (e : Entry) (es : List Entry) :
    dead (e :: es) = if e.deleted && !e.downsampleDeleted then e.point :: dead es else dead es := by
  cases h : e.deleted <;> cases h' : e.downsampleDeleted <;> simp [dead, h, h']

@[simp] theorem dead_append (es fs : List Entry) : dead (es ++ fs) = dead es ++ dead fs := by
  simp [dead, List.filter_append]

theorem length_live (es : List Entry) : (live es).length + es.countP (·.deleted) = es.length := by
  induction es with
  | nil => rfl
  | cons e es ih => cases h : e.deleted <;> simp [h] <;> omega

@[simp] theorem Entry.point_inherit (a b : Bool) (e : Entry) : (e.inherit a b).point = e.point := rfl

/-- Flags that come one after the other act as one. -/
theorem Entry.inherit_inherit (a b c d : Bool) (e : Entry) :
    (e.inherit a b).inherit c d = e.inherit (c || (b || d)) (b || d) := by
  simp only [Entry.inherit, Entry.mk.injEq, true_and]
  cases a <;> cases b <;> cases c <;> cases d <;> simp

theorem Entry.inherit_fresh {e : Entry} (h : e.deleted = false ∧ e.downsampleDeleted = false) :
    e.inherit false false = e := by
  cases e
  simp_all [Entry.inherit]

theorem map_inherit_fresh {es : List Entry} (h : Fresh es) : es.map (Entry.inherit false false) = es :=
  (List.map_congr_left fun e he => Entry.inherit_fresh (h.2 e he)).trans (List.map_id' es)

@[simp] theorem Node.through_nil (n : Node) (need : Bool) : n.through need [] = [] := by
  cases need <;> rfl

@[simp] theorem Node.length_through (n : Node) (need : Bool) (es : List Entry) :
    (n.through need es).length = es.length := by
  cases need <;> simp [Node.through]

@[simp] theorem Tree.entries_nil : Tree.nil.entries = [] := rfl

theorem Tree.entries_ne_nil (n : Node) (l r : Tree) : (Tree.node n l r).entries ≠ [] := by
  simp [Tree.entries]

/-! ## One node inherits -/

/-- A node that inherits tells of entries that inherit. -/
theorem Node.Summary.inherit {c : Node} {es : List Entry} (h : c.Summary es) {a b : Bool} (hab : b = true → a = true)
    (hf : a = false → Fresh es) :
    (c.inherit a b).Summary (es.map (Entry.inherit a b)) := by
  cases a with
  | false =>
    have hb : b = false := by cases b with
      | false => rfl
      | true => exact absurd (hab rfl) (by simp)
    subst hb
    rw [map_inherit_fresh (hf rfl)]
    have hnone : es.countP (·.deleted) = es.countP (·.downsampleDeleted) :=
      List.countP_congr fun e he => by rw [((hf rfl).2 e he).1, ((hf rfl).2 e he).2]
    have hall : es.all (·.deleted) = es.all (·.downsampleDeleted) := by
      refine Bool.eq_iff_iff.mpr ?_
      simp only [List.all_eq_true]
      exact forall₂_congr fun e he => by rw [((hf rfl).2 e he).1, ((hf rfl).2 e he).2]
    have htd : (c.inherit false false).treeDeleted = c.treeDeleted := by
      simp [Node.inherit, h.treeDeleted, h.treeDownsampleDeleted, hall]
    refine ⟨h.treeSize, ?_, ?_, ?_, ?_, h.marked, ?_⟩
    · simp [Node.inherit, h.downDel, hnone]
    · simp [Node.inherit, h.downDel]
    · rw [htd, h.treeDeleted]
    · simp [Node.inherit, h.treeDownsampleDeleted]
    · rw [htd]; exact h.nodeRange
  | true =>
    refine ⟨?_, ?_, ?_, ?_, ?_, ?_, ?_⟩
    · simpa [Node.inherit] using h.treeSize
    · simp [Node.inherit, List.countP_map, Function.comp_def, Entry.inherit, h.treeSize]
    · cases b <;> simp [Node.inherit, List.countP_map, Function.comp_def, Entry.inherit, h.treeSize, h.downDel]
    · simp [Node.inherit, Entry.inherit, List.all_map, Function.comp_def]
    · cases b <;>
        simp [Node.inherit, Entry.inherit, List.all_map, Function.comp_def, h.treeDownsampleDeleted]
    · intro e he
      obtain ⟨e', -, rfl⟩ := List.mem_map.mp he
      simp [Entry.inherit]
    · simp [Node.inherit]

/-- A son that inherits holds entries that inherit, also where its own flags have not reached its sons. -/
theorem Tree.entries_inherit {t : Tree} (h : t.Sound) (a b : Bool) :
    (t.inherit a b).entries = t.entries.map (Entry.inherit a b) := by
  cases t with
  | nil => rfl
  | node c l r =>
    obtain ⟨-, -, hs, -, -⟩ := h
    have hdd : c.treeDownsampleDeleted = true → ∀ e ∈ (Tree.node c l r).entries, e.downsampleDeleted = true := by
      intro hc
      rw [hs.treeDownsampleDeleted, List.all_eq_true] at hc
      exact hc
    have hown : (c.inherit a b).own = c.own.inherit a b := by
      have := fun hc => hdd hc c.own (by simp [Tree.entries])
      simp only [Node.own] at this
      simp only [Node.own, Node.inherit, Entry.inherit, Entry.mk.injEq, true_and, and_true]
      cases hc : c.treeDownsampleDeleted with
      | false => cases a <;> cases b <;> simp
      | true => simp [this hc]
    -- one son: its entries pass the flags of the son's father, then the new ones, or both at once
    have hson (need : Bool) (es : List Entry)
        (hmem : ∀ e ∈ c.through need es, e ∈ (Tree.node c l r).entries) :
        (c.inherit a b).through true es = (c.through need es).map (Entry.inherit a b) := by
      cases need with
      | true =>
        simp only [Node.through, if_true, List.map_map]
        refine List.map_congr_left fun e _ => ?_
        simp [Function.comp, Entry.inherit_inherit, Node.inherit]
      | false =>
        simp only [Node.through, if_true, Bool.false_eq_true, if_false]
        refine List.map_congr_left fun e he => ?_
        have hc := fun hc => hdd hc e (hmem e (by simpa [Node.through] using he))
        simp only [Entry.inherit, Node.inherit, Entry.mk.injEq, true_and]
        cases htdd : c.treeDownsampleDeleted with
        | false => cases a <;> cases b <;> simp
        | true => simp [hc htdd]
    have hL := hson c.needPushDownToLeft l.entries fun e he => by simp [Tree.entries, he]
    have hR := hson c.needPushDownToRight r.entries fun e he => by simp [Tree.entries, he]
    simp only [Tree.inherit, Tree.entries, List.map_cons, List.map_append, hown]
    rw [← hL, ← hR]
    rfl

/-- A sound son that inherits is sound. -/
theorem Tree.Sound.inherit {t : Tree} (h : t.Sound) {a b : Bool} (hab : b = true → a = true)
    (hf : a = false → Fresh t.entries) : (t.inherit a b).Sound := by
  cases t with
  | nil => trivial
  | node c l r =>
    have hent := Tree.entries_inherit h a b
    obtain ⟨hl, hr, hs, -, -⟩ := h
    have hsum := hs.inherit hab hf
    rw [← hent] at hsum
    -- without a deletion from above the node is a leaf
    have hleaf (hc : (c.inherit a b).treeDeleted = false) : l.entries.length + r.entries.length = 0 := by
      have ha : a = false := by
        cases a with
        | false => rfl
        | true => simp [Node.inherit] at hc
      have := (hf ha).1
      simp only [Tree.entries, List.length_cons, List.length_append, Node.length_through] at this
      omega
    refine ⟨hl, hr, hsum, fun _ hc => ?_, fun _ hc => ?_⟩
    · have : l.entries = [] := List.length_eq_zero_iff.mp (by have := hleaf hc; omega)
      simp [this, Fresh]
    · have : r.entries = [] := List.length_eq_zero_iff.mp (by have := hleaf hc; omega)
      simp [this, Fresh]

/-! ## `Push_Down` -/

section
variable {n : Node} {l r : Tree}

/-- A tree whose points are all marked by a downsampling has them all deleted. -/
theorem Node.Summary.deleted_of_downsample {es : List Entry} (h : n.Summary es)
    (hd : n.treeDownsampleDeleted = true) : n.treeDeleted = true := by
  rw [h.treeDownsampleDeleted, List.all_eq_true] at hd
  rw [h.treeDeleted, List.all_eq_true]
  exact fun e he => h.marked e he (hd e he)

theorem Tree.Sound.entries_pushLeft (h : (Tree.node n l r).Sound) :
    (n.pushLeft l).entries = n.through n.needPushDownToLeft l.entries := by
  cases hn : n.needPushDownToLeft with
  | false => simp [Node.pushLeft, Node.through, hn]
  | true => simp [Node.pushLeft, Node.through, hn, Tree.entries_inherit h.1]

theorem Tree.Sound.entries_pushRight (h : (Tree.node n l r).Sound) :
    (n.pushRight r).entries = n.through n.needPushDownToRight r.entries := by
  cases hn : n.needPushDownToRight with
  | false => simp [Node.pushRight, Node.through, hn]
  | true => simp [Node.pushRight, Node.through, hn, Tree.entries_inherit h.2.1]

theorem Tree.Sound.entries_node (h : (Tree.node n l r).Sound) :
    (Tree.node n l r).entries = n.own :: ((n.pushLeft l).entries ++ (n.pushRight r).entries) := by
  rw [h.entries_pushLeft, h.entries_pushRight]
  rfl

theorem Tree.Sound.pushLeft (h : (Tree.node n l r).Sound) : (n.pushLeft l).Sound := by
  obtain ⟨hl, -, hs, hpl, -⟩ := h
  unfold Node.pushLeft
  split
  · exact hl.inherit hs.deleted_of_downsample fun ha => hpl ‹_› ha
  · exact hl

theorem Tree.Sound.pushRight (h : (Tree.node n l r).Sound) : (n.pushRight r).Sound := by
  obtain ⟨-, hr, hs, -, hpr⟩ := h
  unfold Node.pushRight
  split
  · exact hr.inherit hs.deleted_of_downsample fun ha => hpr ‹_› ha
  · exact hr

@[simp] theorem Node.pushLeft_isNil : (n.pushLeft l).isNil = l.isNil := by
  unfold Node.pushLeft
  split <;> cases l <;> rfl

@[simp] theorem Node.pushRight_isNil : (n.pushRight r).isNil = r.isNil := by
  unfold Node.pushRight
  split <;> cases r <;> rfl

theorem Tree.entries_of_isNil {t : Tree} (h : t.isNil = true) : t.entries = [] := by
  cases t with
  | nil => rfl
  | node => simp [Tree.isNil] at h

@[simp] theorem Node.through_isNil (m : Node) {t : Tree} (need : Bool) :
    m.through (need && t.isNil) t.entries = t.entries := by
  cases t with
  | nil => simp
  | node => simp [Tree.isNil, Node.through]

theorem Tree.Sound.entries_pushDown {t : Tree} (h : t.Sound) : t.pushDown.entries = t.entries := by
  cases t with
  | nil => rfl
  | node n l r =>
    rw [h.entries_node, Tree.pushDown, Tree.entries]
    have hL := (n.pushed l r).through_isNil (t := n.pushLeft l) n.needPushDownToLeft
    have hR := (n.pushed l r).through_isNil (t := n.pushRight r) n.needPushDownToRight
    rw [Node.pushLeft_isNil] at hL
    rw [Node.pushRight_isNil] at hR
    simp only [Node.pushed] at hL hR ⊢
    rw [hL, hR]
    rfl

theorem Tree.Sound.pushDown {t : Tree} (h : t.Sound) : t.pushDown.Sound := by
  cases t with
  | nil => trivial
  | node n l r =>
    have hs : n.Summary (Tree.node n l r).pushDown.entries := by
      rw [h.entries_pushDown]
      exact h.2.2.1
    refine ⟨h.pushLeft, h.pushRight, ⟨hs.1, hs.2, hs.3, hs.4, hs.5, hs.6, hs.7⟩, ?_, ?_⟩
    · intro hn _
      simp only [Node.pushed, Bool.and_eq_true] at hn
      simp [Tree.entries_of_isNil (Node.pushLeft_isNil (n := n) ▸ hn.2), Fresh]
    · intro hn _
      simp only [Node.pushed, Bool.and_eq_true] at hn
      simp [Tree.entries_of_isNil (Node.pushRight_isNil (n := n) ▸ hn.2), Fresh]

end

/-- Sons that hold the same may be put in the place of the sons. -/
theorem Tree.Sound.replace {n : Node} {l r l' r' : Tree} (h : (Tree.node n l r).Sound) (hl : l'.Sound)
    (hr : r'.Sound) (el : l'.entries = l.entries) (er : r'.entries = r.entries) :
    (Tree.node n l' r').Sound ∧ (Tree.node n l' r').entries = (Tree.node n l r).entries := by
  have hent : (Tree.node n l' r').entries = (Tree.node n l r).entries := by simp only [Tree.entries, el, er]
  exact ⟨⟨hl, hr, hent ▸ h.2.2.1, el ▸ h.2.2.2.1, er ▸ h.2.2.2.2⟩, hent⟩

/-- A node tells when nothing below it is left. -/
theorem Node.Summary.live_eq_nil {n : Node} {es : List Entry} (h : n.Summary es) (htd : n.treeDeleted = true) :
    Map.live es = [] := by
  rw [h.treeDeleted, List.all_eq_true] at htd
  exact Map.live_eq_nil htd

/-- No point that is left is in a box that misses the range. -/
theorem Tree.Sound.not_has {n : Node} {l r : Tree} (h : (Tree.node n l r).Sound) {b : Box}
    (hb : b.Misses n.nodeRange) : ∀ p ∈ (Tree.node n l r).live, ¬ b.Has p := by
  cases htd : n.treeDeleted with
  | true => simp [Tree.live, h.2.2.1.live_eq_nil htd]
  | false =>
    rw [h.2.2.1.nodeRange htd] at hb
    exact Box.not_has_of_misses hb

/-- All points that are left are in a box that holds the range. -/
theorem Tree.Sound.has {n : Node} {l r : Tree} (h : (Tree.node n l r).Sound) {b : Box}
    (hb : b.Holds n.nodeRange) : ∀ p ∈ (Tree.node n l r).live, b.Has p := by
  cases htd : n.treeDeleted with
  | true => simp [Tree.live, h.2.2.1.live_eq_nil htd]
  | false =>
    rw [h.2.2.1.nodeRange htd] at hb
    exact Box.holds_hull.mp hb

/-! ## `Update` -/

/-- The ranges of the sons that are not wholly deleted, and of the others as none. -/
theorem joinAll_ranges {sons : List Node} {ess : List (List Entry)} (h : List.Forall₂ Node.Summary sons ess) :
    joinAll ((sons.filter (!·.treeDeleted)).map (·.nodeRange)) = hull (live ess.flatten) := by
  induction h with
  | nil => rfl
  | @cons c es sons ess hc _ ih =>
    rw [List.flatten_cons, live_append, hull_append, ← ih]
    cases htd : c.treeDeleted with
    | true => simp [htd, hc.live_eq_nil htd]
    | false => simp [htd, hc.nodeRange htd]

section
variable {sons : List Node} {ess : List (List Entry)}

/-- What every son counts of its entries, the sum counts of all. -/
theorem sum_sons (h : List.Forall₂ Node.Summary sons ess) (f : Node → ℕ) (g : Entry → Bool)
    (hfg : ∀ c es, c.Summary es → f c = es.countP g) : (sons.map f).sum = ess.flatten.countP g := by
  induction h with
  | nil => rfl
  | cons hc _ ih => rw [List.map_cons, List.sum_cons, List.flatten_cons, List.countP_append, ih, hfg _ _ hc]

theorem all_sons (h : List.Forall₂ Node.Summary sons ess) (f : Node → Bool) (g : Entry → Bool)
    (hfg : ∀ c es, c.Summary es → f c = es.all g) : sons.all f = ess.flatten.all g := by
  induction h with
  | nil => rfl
  | cons hc _ ih => rw [List.all_cons, List.flatten_cons, List.all_append, ih, hfg _ _ hc]

theorem marked_sons (h : List.Forall₂ Node.Summary sons ess) :
    ∀ e ∈ ess.flatten, e.downsampleDeleted = true → e.deleted = true := by
  induction h with
  | nil => simp
  | cons hc _ ih =>
    intro e he
    rcases List.mem_append.mp (List.flatten_cons ▸ he) with he | he
    · exact hc.marked e he
    · exact ih e he

end

/-- `Update` makes a node tell of its own point and of what its sons tell of. -/
theorem Node.update_summary {n : Node} {sons : List Node} {ess : List (List Entry)}
    (h : List.Forall₂ Node.Summary sons ess) (hn : n.pointDownsampleDeleted = true → n.pointDeleted = true) :
    (n.update sons).Summary (n.own :: ess.flatten) := by
  have htd := all_sons h (·.treeDeleted) (·.deleted) fun _ _ hc => hc.treeDeleted
  have hsize := sum_sons h (·.treeSize) (fun _ => true) fun _ _ hc => by simpa using hc.treeSize
  have hinv := sum_sons h (·.invalidPointNum) (·.deleted) fun _ _ hc => hc.invalid
  have hdown := sum_sons h (·.downDelNum) (·.downsampleDeleted) fun _ _ hc => hc.downDel
  have hdd := all_sons h (·.treeDownsampleDeleted) (·.downsampleDeleted) fun _ _ hc => hc.treeDownsampleDeleted
  rw [List.countP_true] at hsize
  refine ⟨?_, ?_, ?_, ?_, ?_, ?_, ?_⟩
  · simp [Node.update, hsize]
  · rw [List.countP_cons, ← hinv]
    cases hp : n.pointDeleted <;> simp [Node.update, Node.own, hp]
  · rw [List.countP_cons, ← hdown]
    cases hp : n.pointDownsampleDeleted <;> simp [Node.update, Node.own, hp]
  · simp [Node.update, htd, Node.own, Bool.and_comm]
  · simp [Node.update, hdd, Node.own, Bool.and_comm]
  · intro e he
    rcases List.mem_cons.mp he with rfl | he
    · exact hn
    · exact marked_sons h e he
  · intro hdel
    have hpart := joinAll_ranges h
    simp only [Node.update] at hdel ⊢
    rw [hdel, live_cons]
    simp only [Bool.false_or]
    split
    · next hnone =>
      -- nothing below is deleted: no son is left out either way
      rw [Bool.and_eq_true, List.all_eq_true] at hnone
      rw [List.filter_eq_self.mpr hnone.1] at hpart
      have hp : n.pointDeleted = false := by simpa using hnone.2
      rw [joinAll_append, hpart, join_comm]
      simp [Node.own, hp]
    · cases hp : n.pointDeleted with
      | true => simp [Node.own, hp, hpart]
      | false =>
        rw [joinAll_append, hpart, join_comm]
        simp [Node.own, hp]

section
variable {n : Node} {l r : Tree}

theorem Tree.Sound.roots (hl : l.Sound) (hr : r.Sound) :
    ∃ ess, List.Forall₂ Node.Summary (l.root ++ r.root) ess ∧ ess.flatten = l.entries ++ r.entries := by
  have hone {t : Tree} (ht : t.Sound) :
      ∃ ess, List.Forall₂ Node.Summary t.root ess ∧ ess.flatten = t.entries := by
    cases t with
    | nil => exact ⟨[], .nil, rfl⟩
    | node c l r => exact ⟨[_], .cons ht.2.2.1 .nil, by simp⟩
  obtain ⟨el, hel, heql⟩ := hone hl
  obtain ⟨er, her, heqr⟩ := hone hr
  exact ⟨el ++ er, List.rel_append hel her, by simp [heql, heqr]⟩

/-- What `Update` needs of the node: its flags are off, up to new leaves; and a point is marked only when deleted. -/
structure Node.Ready (n : Node) (l r : Tree) : Prop where
  left : n.needPushDownToLeft = true → Fresh l.entries
  right : n.needPushDownToRight = true → Fresh r.entries
  marked : n.pointDownsampleDeleted = true → n.pointDeleted = true

/-- The flag towards a new leaf does nothing: the leaf has made the node not wholly deleted. -/
theorem Node.Ready.through (h : n.Ready l r) (hl : l.Sound) (hr : r.Sound) :
    (n.update (l.root ++ r.root)).through n.needPushDownToLeft l.entries = l.entries ∧
      (n.update (l.root ++ r.root)).through n.needPushDownToRight r.entries = r.entries := by
  obtain ⟨ess, hess, hflat⟩ := hl.roots hr
  have hs := Node.update_summary hess h.marked
  have hson (need : Bool) (es : List Entry) (hf : need = true → Fresh es) (hsub : ∀ e ∈ es, e ∈ ess.flatten) :
      (n.update (l.root ++ r.root)).through need es = es := by
    cases need with
    | false => rfl
    | true =>
      rcases es with _ | ⟨e, es⟩
      · rfl
      · have he := (hf rfl).2 e (by simp)
        have hmem := hsub e (by simp)
        have htd : (n.update (l.root ++ r.root)).treeDeleted = false := by
          rw [hs.treeDeleted, ← Bool.not_eq_true, List.all_eq_true]
          intro hall
          have := hall e (by simp [hmem])
          simp [he.1] at this
        have htdd : (n.update (l.root ++ r.root)).treeDownsampleDeleted = false := by
          rw [← Bool.not_eq_true]
          intro hd
          simp [hs.deleted_of_downsample hd] at htd
        simp only [Node.through, if_true, htd, htdd]
        exact map_inherit_fresh (hf rfl)
  exact ⟨hson _ _ h.left (by simp +contextual [hflat]), hson _ _ h.right (by simp +contextual [hflat])⟩

theorem Tree.entries_mk (h : n.Ready l r) (hl : l.Sound) (hr : r.Sound) :
    (Tree.mk n l r).entries = n.own :: (l.entries ++ r.entries) := by
  obtain ⟨hL, hR⟩ := h.through hl hr
  calc (Tree.mk n l r).entries
      = n.own :: ((n.update (l.root ++ r.root)).through n.needPushDownToLeft l.entries ++
          (n.update (l.root ++ r.root)).through n.needPushDownToRight r.entries) := rfl
    _ = n.own :: (l.entries ++ r.entries) := by rw [hL, hR]

theorem Tree.Sound.mk (h : n.Ready l r) (hl : l.Sound) (hr : r.Sound) : (Tree.mk n l r).Sound := by
  obtain ⟨ess, hess, hflat⟩ := hl.roots hr
  have hs := Node.update_summary hess h.marked
  rw [hflat, ← Tree.entries_mk h hl hr] at hs
  exact ⟨hl, hr, hs, fun hn _ => h.left hn, fun hn _ => h.right hn⟩

/-- After `Push_Down` a node is ready. -/
theorem Tree.Sound.ready (h : (Tree.node n l r).Sound) :
    (n.pushed l r).Ready (n.pushLeft l) (n.pushRight r) where
  left hn := by
    simp only [Node.pushed, Bool.and_eq_true] at hn
    simp [Tree.entries_of_isNil (Node.pushLeft_isNil (n := n) ▸ hn.2), Fresh]
  right hn := by
    simp only [Node.pushed, Bool.and_eq_true] at hn
    simp [Tree.entries_of_isNil (Node.pushRight_isNil (n := n) ▸ hn.2), Fresh]
  marked hd := h.2.2.1.marked n.own (by simp [Tree.entries]) hd

/-! ## The bag of a tree -/

/-- The share of the node's own point. -/
def Node.ownBag (n : Node) : Multiset Point := if n.pointDeleted then 0 else {n.point}

def Node.ownGraves (n : Node) : Multiset Point :=
  if n.pointDeleted && !n.pointDownsampleDeleted then {n.point} else 0

@[simp] theorem Tree.bag_nil : Tree.nil.bag = 0 := rfl

@[simp] theorem Tree.graves_nil : Tree.nil.graves = 0 := rfl

theorem Tree.bag_of_entries {t : Tree} (h : t.entries = n.own :: (l.entries ++ r.entries)) :
    t.bag = n.ownBag + (l.bag + r.bag) := by
  simp only [Tree.bag, Tree.live, h, Node.ownBag, live_cons, live_append, Multiset.coe_add]
  cases hp : n.pointDeleted <;> simp [Node.own, hp]

theorem Tree.graves_of_entries {t : Tree} (h : t.entries = n.own :: (l.entries ++ r.entries)) :
    t.graves = n.ownGraves + (l.graves + r.graves) := by
  simp only [Tree.graves, h, Node.ownGraves, dead_cons, dead_append, Multiset.coe_add]
  cases hp : n.pointDeleted <;> cases hd : n.pointDownsampleDeleted <;> simp [Node.own, hp, hd]

theorem Tree.Sound.bag_node (h : (Tree.node n l r).Sound) :
    (Tree.node n l r).bag = n.ownBag + ((n.pushLeft l).bag + (n.pushRight r).bag) :=
  Tree.bag_of_entries h.entries_node

theorem Tree.Sound.graves_node (h : (Tree.node n l r).Sound) :
    (Tree.node n l r).graves = n.ownGraves + ((n.pushLeft l).graves + (n.pushRight r).graves) :=
  Tree.graves_of_entries h.entries_node

theorem Tree.bag_mk (h : n.Ready l r) (hl : l.Sound) (hr : r.Sound) :
    (Tree.mk n l r).bag = n.ownBag + (l.bag + r.bag) :=
  Tree.bag_of_entries (Tree.entries_mk h hl hr)

theorem Tree.graves_mk (h : n.Ready l r) (hl : l.Sound) (hr : r.Sound) :
    (Tree.mk n l r).graves = n.ownGraves + (l.graves + r.graves) :=
  Tree.graves_of_entries (Tree.entries_mk h hl hr)

end

theorem Tree.bag_congr {t s : Tree} (h : t.entries = s.entries) : t.bag = s.bag := by
  rw [Tree.bag, Tree.bag, Tree.live, Tree.live, h]

theorem Tree.graves_congr {t s : Tree} (h : t.entries = s.entries) : t.graves = s.graves := by
  rw [Tree.graves, Tree.graves, h]

theorem Tree.bag_of_isNil {t : Tree} (h : t.isNil = true) : t.bag = 0 := by
  rw [Tree.bag, Tree.live, Tree.entries_of_isNil h]
  rfl

end Agilex.Map
