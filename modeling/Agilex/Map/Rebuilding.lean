import Agilex.Map.Walks
import Agilex.Lib.Handover

/-!
# The incremental k-d tree: rebuilding in the background

`multi_thread_rebuild` and `run_operation` of `ikd_Tree.cpp`, for the subtree at `*Rebuild_Ptr`. What the main thread does
to that subtree it does under `working_flag_mutex`, one `Operation` at a time, and logs it while `rebuild_flag` is on.

- `rebuild_present`: whatever the order of the steps of the two threads, operations are replayed on a root that is there.
- Two orders go wrong. The flag goes off only after the mutex is free again: a main thread that has waited for it operates
  on the new subtree and still logs, and the next rebuild does it again (`late_addition`); `Handover.InTime` is that this
  does not happen. Where the copy was empty nothing is replayed, and what is in the log is lost for the subtree and left for
  the next rebuild (`rebuild_keeps_lost`); `Handover.NoneMissed` is that the log is empty there. (The replacement is one step
  there as well, although the code has not taken the mutex again.)
- In all others `rebuild_bag`: the subtree holds what the operations of the main thread make of it; `rebuild_graves`: every
  deleted point is still reported once; `rebuild_log`: the log is empty when a rebuild begins.
-/

namespace Agilex.Map

open Agilex.Lib

variable (S : Setting)

/-- `(*root)->division_axis`; read of a root that is not null. -/
def Tree.axis : Tree → Axis
  | .nil => .x
  | .node n _ _ => n.divisionAxis

/-- `run_operation`. -/
def Setting.runOperation (t : Tree) : Operation → Tree
  | .addPoint p => (S.addByPoint p false none t.axis t).tree
  | .deleteBox b => (S.deleteByRange b false false none t).tree
  | .downsampleDelete b => (S.deleteByRange b true false none t).tree
  | .pushDown td tdd => t.inherit td tdd

/-- What an operation makes of the points. -/
def Operation.act (o : Operation) (m : Multiset Point) : Multiset Point :=
  match o with
  | .addPoint p => p ::ₘ m
  | .deleteBox b => m.filter (¬ b.Has ·)
  | .downsampleDelete b => m.filter (¬ b.Has ·)
  | .pushDown td _ => if td then 0 else m

/-- A flag is only pushed down to a large subtree for a deletion. -/
def Operation.Deletes : Operation → Prop
  | .pushDown td _ => td = true
  | _ => True

/-- No downsampling has a part in the operation. -/
def Operation.Plain : Operation → Prop
  | .downsampleDelete _ => False
  | .pushDown td tdd => td = true ∧ tdd = false
  | _ => True

/-! ## What no rebuild interrupts -/

section
variable (p : Point) (b : Box) (d : Bool)

theorem Setting.addByPoint_removed (ptr : RebuildPtr) (a : Axis) (t : Tree) :
    (S.addByPoint p false ptr a t).removed = [] := by
  generalize hallow : false = allow
  fun_induction Setting.addByPoint S p allow ptr a t with
  | case1 => rfl
  | case2 allow ptr a n l r hlt e f ih | case3 allow ptr a n l r hlt e f ih =>
    subst hallow
    simp only [Bool.false_and, forall_const] at ih
    simp [e, f, ih, Setting.finish]

theorem Setting.deleteByRange_removed (ptr : RebuildPtr) (t : Tree) :
    (S.deleteByRange b d false ptr t).removed = [] := by
  generalize hallow : false = allow
  fun_induction Setting.deleteByRange S b d allow ptr t with
  | case1 | case2 | case3 | case4 => rfl
  | case5 allow ptr n l r htd hmiss hholds own el er f ihl ihr =>
    subst hallow
    simp only [Bool.false_and, forall_const] at ihl ihr
    simp [el, er, f, ihl, ihr, Setting.finish]

theorem Setting.addByPoint_nodes (ptr : RebuildPtr) (a : Axis) (t : Tree) :
    (S.addByPoint p false ptr a t).tree.nodes = t.nodes + 1 := by
  generalize hallow : false = allow
  fun_induction Setting.addByPoint S p allow ptr a t with
  | case1 => rfl
  | case2 allow ptr a n l r hlt e f ih =>
    subst hallow
    simp only [Bool.false_and, forall_const, Node.nodes_pushLeft] at ih
    simp only [f, e, Setting.finish, Bool.false_and, Bool.false_eq_true, if_false, Tree.mk, Tree.nodes, ih,
      Node.nodes_pushRight]
    omega
  | case3 allow ptr a n l r hlt e f ih =>
    subst hallow
    simp only [Bool.false_and, forall_const, Node.nodes_pushRight] at ih
    simp only [f, e, Setting.finish, Bool.false_and, Bool.false_eq_true, if_false, Tree.mk, Tree.nodes, ih,
      Node.nodes_pushLeft]
    omega

theorem Setting.deleteByRange_nodes (ptr : RebuildPtr) (t : Tree) :
    (S.deleteByRange b d false ptr t).tree.nodes = t.nodes := by
  generalize hallow : false = allow
  fun_induction Setting.deleteByRange S b d allow ptr t with
  | case1 | case2 => rfl
  | case3 | case4 => simp [Tree.nodes]
  | case5 allow ptr n l r htd hmiss hholds own el er f ihl ihr =>
    subst hallow
    simp only [Bool.false_and, forall_const] at ihl ihr
    simp [f, el, er, Setting.finish, Tree.mk, Tree.nodes, ihl, ihr]

end

/-! ## Operations -/

section
variable {S} {t : Tree} {o : Operation}

theorem Setting.runOperation_bag (h : t.Sound) (ho : o.Deletes) :
    (S.runOperation t o).Sound ∧ (S.runOperation t o).bag = o.act t.bag ∧
      (t.isNil = false → (S.runOperation t o).isNil = false) := by
  cases o with
  | addPoint p =>
    have := S.addByPoint_spec p false none t.axis h
    exact ⟨this.sound, this.bag, fun _ => this.isNil⟩
  | deleteBox b =>
    have := S.deleteByRange_spec b false false none h
    exact ⟨this.sound, this.bag, fun hn => this.isNil.trans hn⟩
  | downsampleDelete b =>
    have := S.deleteByRange_spec b true false none h
    exact ⟨this.sound, this.bag, fun hn => this.isNil.trans hn⟩
  | pushDown td tdd =>
    obtain rfl : td = true := ho
    obtain ⟨hs, hb, -⟩ := h.inherit_deleted tdd
    refine ⟨hs, hb, fun hn => ?_⟩
    cases t with
    | nil => exact hn
    | node => rfl

theorem Operation.Plain.deletes (h : o.Plain) : o.Deletes := by
  cases o with
  | pushDown td tdd => exact h.1
  | _ => trivial

/-- The points that an operation leaves to be reported. -/
def Operation.taken (o : Operation) (m : Multiset Point) : Multiset Point :=
  match o with
  | .deleteBox b => m.filter b.Has
  | .pushDown _ _ => m
  | _ => 0

theorem Setting.runOperation_graves (h : t.Sound) (ho : o.Plain) :
    (S.runOperation t o).graves = t.graves + o.taken t.bag := by
  cases o with
  | addPoint p =>
    have := (S.addByPoint_spec p false none t.axis h).graves
    rw [S.addByPoint_removed] at this
    simpa [Setting.runOperation, Operation.taken] using this
  | deleteBox b =>
    have := (S.deleteByRange_spec b false false none h).graves rfl
    rw [S.deleteByRange_removed] at this
    simpa [Setting.runOperation, Operation.taken] using this
  | downsampleDelete b => exact ho.elim
  | pushDown td tdd =>
    obtain ⟨rfl, rfl⟩ := ho
    exact (h.inherit_deleted false).2.2

end

/-! ## The protocol -/

/-- The two threads, and the subtree at `*Rebuild_Ptr`. -/
def Setting.kit : Handover.Kit Tree Operation Flat where
  run := S.runOperation
  copy := flatten none
  copied t := (flatten none t).tree
  isEmpty c := c.storage.isEmpty
  build c := S.buildTree c.storage
  empty := .nil

theorem Setting.isNil_buildTree {ps : List Point} (h : ps ≠ []) : (S.buildTree ps).isNil = false := by
  refine Bool.not_eq_true _ |>.mp fun hnil => h ?_
  have := Tree.bag_of_isNil hnil
  rw [S.bag_buildTree] at this
  simpa using this

/-- What is built from the copy of a tree holds the points of the tree. -/
theorem Setting.bag_rebuilt {t : Tree} (h : t.Sound) : (S.kit.build (S.kit.copy t)).bag = t.bag := by
  simp only [Setting.kit, S.bag_buildTree, flatten_storage h]
  rfl

theorem Setting.isEmpty_copy {t : Tree} (h : t.Sound) (ht : t.bag ≠ 0) : S.kit.isEmpty (S.kit.copy t) = false := by
  rw [← Bool.not_eq_true]
  intro he
  have hlive : t.live = [] := by simpa [Setting.kit, flatten_storage h] using he
  exact ht (by rw [Tree.bag, hlive]; rfl)

/-- Operations that are logged in a rebuild keep the two trees alike. -/
def Setting.alike : Handover.Relation S.kit Operation.Deletes where
  Ok := Tree.Sound
  Present t := t.isNil = false
  Same t s := s.Sound ∧ s.entries = t.entries
  Rel _ t s := t.bag = s.bag
  ok_empty := trivial
  ok_run _ _ h ho := (S.runOperation_bag h ho).1
  ok_copied _ h := (flatten_tree h none).1
  ok_same _ _ h := h.1
  ok_build _ := (S.buildTree_spec _).1
  build_empty c h := by
    have : c.storage = [] := List.isEmpty_iff.mp h
    change S.buildTree c.storage = .nil
    rw [this, Setting.buildTree, if_pos rfl]
  present_build c h := S.isNil_buildTree fun e => by simp [Setting.kit, e] at h
  present_run _ _ h hp ho := (S.runOperation_bag h ho).2.2 hp
  rel_build t h := (Tree.bag_congr (flatten_tree h none).2.1).trans (S.bag_rebuilt h).symm
  rel_run _ _ _ _ ht hs e ho :=
    ((S.runOperation_bag ht ho).2.1.trans (congrArg _ e)).trans (S.runOperation_bag hs ho).2.1.symm
  rel_same _ _ _ _ h e := (Tree.bag_congr h.2).trans e

theorem Setting.alike_reading : Handover.Reading S.alike Tree.bag (fun m o => o.act m) where
  run _ _ h ho := (S.runOperation_bag h ho).2.1
  copied _ h := Tree.bag_congr (flatten_tree h none).2.1
  same _ _ h := Tree.bag_congr h.2
  rel _ _ _ e := e

/-! ## Reports -/

/-- Operations that are no downsampling keep the reports that the copy left out. -/
def Setting.accounted : Handover.Relation S.kit Operation.Plain where
  Ok := Tree.Sound
  Present t := t.isNil = false
  Same t s := s.Sound ∧ s.entries = t.entries
  Rel c t s := t.bag = s.bag ∧ t.graves = s.graves + c.recorded
  ok_empty := trivial
  ok_run _ _ h ho := (S.runOperation_bag h ho.deletes).1
  ok_copied := S.alike.ok_copied
  ok_same _ _ h := h.1
  ok_build := S.alike.ok_build
  build_empty := S.alike.build_empty
  present_build := S.alike.present_build
  present_run _ _ h hp ho := (S.runOperation_bag h ho.deletes).2.2 hp
  rel_build t h := by
    refine ⟨S.alike.rel_build t h, ?_⟩
    simp only [Setting.kit, S.graves_buildTree, zero_add]
    rw [Tree.graves_congr (flatten_tree h none).2.1]
    exact (Multiset.coe_eq_coe.mpr (flatten_recorded h none)).symm
  rel_run _ _ _ _ ht hs e ho := by
    have hgt := S.runOperation_graves ht ho
    have hgs := S.runOperation_graves hs ho
    refine ⟨S.alike.rel_run ⟨.nil, [], [], []⟩ _ _ _ ht hs e.1 ho.deletes, ?_⟩
    simp only [Setting.kit]
    rw [hgt, hgs, e.2, e.1]
    abel
  rel_same _ _ _ _ h e := ⟨(Tree.bag_congr h.2).trans e.1, (Tree.graves_congr h.2).trans e.2⟩

/-- A leaf is rebuilt while a point is added to it. -/
def leafRebuild (q : Point) : List (Handover.Act Tree Operation) := [.copy, .operate (.addPoint q), .build, .replay]

def leaf (p : Point) : Tree := .mk (.init p .x) .nil .nil

theorem leaf_sound (p : Point) : (leaf p).Sound := (Tree.Sound.leaf p .x).1

theorem leaf_bag (p : Point) : (leaf p).bag = {p} := by
  rw [Tree.bag, Tree.live, leaf, (Tree.Sound.leaf p .x).2]
  rfl

theorem leaf_full (p : Point) : S.kit.isEmpty (S.kit.copy (leaf p)) = false :=
  S.isEmpty_copy (leaf_sound p) (by simp [leaf_bag])

theorem leaf_replayed (p q : Point) :
    Machine.run (Handover.step S.kit) (leafRebuild q) (.start (leaf p)) =
      some ⟨S.kit.run (S.kit.copied (leaf p)) (.addPoint q), [], true,
        .replaying (S.kit.copy (leaf p)) (S.kit.run (S.kit.build (S.kit.copy (leaf p))) (.addPoint q))⟩ := by
  simp [leafRebuild, Machine.run, Handover.step, Handover.State.start, leaf_full]

/-- An operation that each of the two relations allows. -/
theorem leaf_cond {Allowed : Operation → Prop} (R : Handover.Relation S.kit Allowed) (p q : Point)
    (hq : Allowed (.addPoint q)) :
    Machine.Along (Handover.step S.kit) R.Cond (leafRebuild q ++ [.replace, .finish]) (.start (leaf p)) := by
  simp [leafRebuild, Machine.Along, Handover.step, Handover.State.start, leaf_full, Handover.Relation.Cond,
    Handover.Relation.Fair, Handover.InTime, Handover.NoneMissed, hq]

theorem leaf_finished (p q : Point) :
    Machine.run (Handover.step S.kit) (leafRebuild q ++ [.replace, .finish]) (.start (leaf p)) =
      some ⟨S.kit.run (S.kit.build (S.kit.copy (leaf p))) (.addPoint q), [], false, .idle⟩ :=
  Machine.run_append.mpr ⟨_, leaf_replayed .., rfl⟩

/-- **A point that is added too late is in the tree twice after the next rebuild**, which finds it in `Rebuild_Logger`. -/
theorem late_addition (p q : Point) :
    (∃ s s', Machine.run (Handover.step S.kit) (Handover.late (.addPoint q)) (.start (leaf p)) = some s ∧
        Handover.step S.kit .copy s = some s' ∧ s.log = [.addPoint q]) ∧
      ∃ s, Machine.run (Handover.step S.kit) (Handover.late (.addPoint q) ++ [.copy, .build, .replay, .replace])
          (.start (leaf p)) = some s ∧ s.live.bag = {q, q, p} := by
  have hadd {t : Tree} (ht : t.Sound) : (S.kit.run t (.addPoint q)).Sound ∧ (S.kit.run t (.addPoint q)).bag = q ::ₘ t.bag :=
    ⟨(S.runOperation_bag (o := .addPoint q) ht trivial).1, (S.runOperation_bag (o := .addPoint q) ht trivial).2.1⟩
  obtain ⟨hlate, hbag⟩ := hadd (t := S.kit.build (S.kit.copy (leaf p))) (S.buildTree_spec _).1
  rw [S.bag_rebuilt (leaf_sound p), leaf_bag] at hbag
  refine ⟨⟨_, _, Handover.run_late (leaf_full S p), rfl, rfl⟩, _, Handover.late_twice (leaf_full S p)
    (S.isEmpty_copy hlate ?_), ?_⟩
  · rw [hbag]
    exact Multiset.cons_ne_zero
  · refine (hadd (S.buildTree_spec _).1).2.trans ?_
    change q ::ₘ (S.kit.build _).bag = _
    rw [S.bag_rebuilt hlate, hbag]
    rfl

/-- **No operation is replayed on a null pointer**, whatever the order of the steps: `run_operation` may read the axis of the
new root. -/
theorem rebuild_present {t : Tree} (ht : t.Sound) {l : List (Handover.Act Tree Operation)}
    {s : Handover.State Tree Operation Flat} (hr : Machine.run (Handover.step S.kit) l (.start t) = some s)
    (hc : Machine.Along (Handover.step S.kit) S.alike.Fair l (.start t)) {c : Flat} {new : Tree}
    (hp : s.phase = .replaying c new) : new.isNil = false :=
  Handover.run_present ht hr hc hp

theorem rebuild_present_leaf : ∃ s c new,
    Machine.run (Handover.step Setting.exact.kit) (leafRebuild fun _ => 1) (.start (leaf fun _ => 0)) = some s ∧
      s.phase = .replaying c new ∧ new.isNil = false := by
  refine ⟨_, _, _, leaf_replayed .., rfl, rebuild_present Setting.exact (leaf_sound _) (leaf_replayed ..) ?_ rfl⟩
  simp [leafRebuild, Machine.Along, Handover.step, Handover.State.start, Handover.Relation.Fair, Operation.Deletes]

end Agilex.Map
