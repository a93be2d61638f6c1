import Agilex.Map.Interface

/-!
# The incremental k-d tree: both threads

The tree of the main thread, and the second thread that copies a subtree, rebuilds it and puts it in place
(`multi_thread_rebuild`). The walks and searches of the main thread are one step each, and those of the second thread come
between them; a walk is given `Rebuild_Ptr` as it read it.

- `Tree.put` is the replacement, with the loop that runs `Update` on the nodes above. `handover_bag`: it leaves the points of
  the whole tree as they are, where no deletion is pending in the nodes that are updated; `handover_revives`: where one is,
  the deleted points come back.
- `threads_bag`: in every run of both threads that is `Orderly`, the tree is sound and holds what the walks of the main
  thread make of it.
-/

namespace Agilex.Map

open Agilex.Lib

variable (S : Setting)

/-! ## Putting the new subtree in place -/

/-- What `multi_thread_rebuild` does to the tree when it puts the new subtree in place: the pointer of the father, and
`Update` of the nodes above, from the father up. The loop does not begin where the new subtree is null; it breaks at a node
that is at work (`working` are the nodes whose `working_flag` is on), and at one to which its own father has a flag to push
down (`pending`). Whether it has come this far is the second component. -/
def Tree.put (s : Tree) (working : List Side → Bool) (pending : Bool) : Tree → List Side → Tree × Bool
  | _, [] => (s, !s.isNil)
  | .nil, _ :: _ => (.nil, false)
  | .node n l r, .left :: π =>
    let son := s.put (fun ρ => working (.left :: ρ)) n.needPushDownToLeft l π
    if son.2 && !working [] && !pending then (.mk n son.1 r, true) else (.node n son.1 r, false)
  | .node n l r, .right :: π =>
    let son := s.put (fun ρ => working (.right :: ρ)) n.needPushDownToRight r π
    if son.2 && !working [] && !pending then (.mk n l son.1, true) else (.node n l son.1, false)

/-- No deletion is still to be pushed down from the node. -/
def Node.Idle (n : Node) (l r : Tree) : Prop :=
  n.treeDeleted = true → (n.needPushDownToLeft = true → l.isNil = true) ∧ (n.needPushDownToRight = true → r.isNil = true)

/-- No deletion is still to be pushed down from a node that is updated. -/
def Tree.Idle (s : Tree) (working : List Side → Bool) (pending : Bool) : Tree → List Side → Prop
  | _, [] => True
  | .nil, _ :: _ => True
  | .node n l r, .left :: π =>
    s.Idle (fun ρ => working (.left :: ρ)) n.needPushDownToLeft l π ∧
      ((s.put working pending (.node n l r) (.left :: π)).2 = true → n.Idle l r)
  | .node n l r, .right :: π =>
    s.Idle (fun ρ => working (.right :: ρ)) n.needPushDownToRight r π ∧
      ((s.put working pending (.node n l r) (.right :: π)).2 = true → n.Idle l r)

section
variable {n : Node} {l r s t : Tree} {working : List Side → Bool} {pending : Bool} {π : List Side}

/-- What is left of the points below a son does not depend on how the son holds them. -/
theorem Node.live_through (n : Node) {need : Bool} {es fs : List Entry} (hp : n.Pending need es)
    (hlen : 1 < es.length) (h : (live es : Multiset Point) = live fs) :
    (live (n.through need es) : Multiset Point) = live (n.through need fs) := by
  cases need with
  | false => exact h
  | true =>
    cases htd : n.treeDeleted with
    | false => exact absurd (hp rfl htd).1 (by omega)
    | true => rw [live_eq_nil, live_eq_nil] <;> simp [Node.through, Entry.inherit, htd]

/-- A node over other sons, without an `Update`. -/
theorem Tree.bag_sons {l' r' : Tree}
    (hl : (Map.live (n.through n.needPushDownToLeft l'.entries) : Multiset Point) =
      Map.live (n.through n.needPushDownToLeft l.entries))
    (hr : (Map.live (n.through n.needPushDownToRight r'.entries) : Multiset Point) =
      Map.live (n.through n.needPushDownToRight r.entries)) :
    (Tree.node n l' r').bag = (Tree.node n l r).bag := by
  simp only [Tree.bag, Tree.live, Tree.entries, live_cons, live_append]
  split <;> simp [← Multiset.coe_add, ← Multiset.cons_coe, hl, hr]

/-- The flags of an idle node do nothing. -/
theorem Node.Idle.through (hi : n.Idle l r) (h : (Tree.node n l r).Sound) :
    n.through n.needPushDownToLeft l.entries = l.entries ∧ n.through n.needPushDownToRight r.entries = r.entries := by
  have hson {need : Bool} {t : Tree} (hp : n.Pending need t.entries)
      (hnil : n.treeDeleted = true → need = true → t.isNil = true) : n.through need t.entries = t.entries := by
    cases need with
    | false => rfl
    | true =>
      cases htd : n.treeDeleted with
      | true => simp [Tree.entries_of_isNil (hnil htd rfl)]
      | false =>
        have hdd : n.treeDownsampleDeleted = false := by
          rw [← Bool.not_eq_true]
          exact fun hd => by simp [h.2.2.1.deleted_of_downsample hd] at htd
        simp only [Node.through, if_true, htd, hdd]
        exact map_inherit_fresh (hp rfl htd)
  exact ⟨hson h.2.2.2.1 fun htd => (hi htd).1, hson h.2.2.2.2 fun htd => (hi htd).2⟩

/-- The flag of an idle node towards a son with more than one point is off. -/
theorem Node.Pending.off {need : Bool} (hp : n.Pending need t.entries)
    (hnil : n.treeDeleted = true → need = true → t.isNil = true) (hlen : 1 < t.entries.length) : need = false := by
  rw [← Bool.not_eq_true]
  intro hneed
  cases htd : n.treeDeleted with
  | true => simp [Tree.entries_of_isNil (hnil htd hneed)] at hlen
  | false => exact absurd (hp hneed htd).1 (by omega)

theorem Node.Pending.fresh {need : Bool} (hp : n.Pending need t.entries)
    (hnil : n.treeDeleted = true → need = true → t.isNil = true) (hneed : need = true) : Fresh t.entries := by
  cases htd : n.treeDeleted with
  | true => simp [Tree.entries_of_isNil (hnil htd hneed), Fresh]
  | false => exact hp hneed htd

/-- `Update` of an idle node over sons with the same points. -/
theorem Node.Idle.mk {l' r' : Tree} (hi : n.Idle l r) (h : (Tree.node n l r).Sound) (hl : l'.Sound) (hr : r'.Sound)
    (hbl : l'.bag = l.bag) (hbr : r'.bag = r.bag) (hfl : n.needPushDownToLeft = true → Fresh l'.entries)
    (hfr : n.needPushDownToRight = true → Fresh r'.entries) :
    (Tree.mk n l' r').bag = (Tree.node n l r).bag ∧ (Tree.mk n l' r').Sound := by
  have hready : n.Ready l' r' := ⟨hfl, hfr, h.2.2.1.marked n.own (by simp [Tree.entries])⟩
  obtain ⟨hL, hR⟩ := hi.through h
  refine ⟨?_, .mk hready hl hr⟩
  rw [Tree.bag_mk hready hl hr, hbl, hbr]
  exact (Tree.bag_of_entries (by rw [Tree.entries, hL, hR])).symm

theorem Tree.one_lt_entries (h : 1 < (t.at π).nodes) : 1 < t.entries.length := by
  rw [Tree.length_entries]
  exact h.trans_le (t.nodes_at_le π)

/-- Where the loop comes to the root, the tree is brought up to date. -/
theorem Tree.put_updated (h : t.Sound) (hs : s.Sound) (hsize : 1 < (t.at π).nodes) (hbag : s.bag = (t.at π).bag)
    (hidle : s.Idle working pending t π) (hup : (s.put working pending t π).2 = true) :
    (s.put working pending t π).1.bag = t.bag ∧ (s.put working pending t π).1.Sound := by
  induction π generalizing t working pending with
  | nil => exact ⟨by simpa [Tree.put] using hbag, by simpa [Tree.put] using hs⟩
  | cons side π ih =>
    cases t with
    | nil => simp [Tree.at, Tree.nodes] at hsize
    | node n l r =>
      cases side with
      | left =>
        have hi := hidle.2 hup
        have hoff := h.2.2.2.1.off (fun htd => (hi htd).1) (Tree.one_lt_entries (t := l) hsize)
        rw [Tree.put] at hup ⊢
        split at hup
        · next hgo =>
          obtain ⟨hb, hson⟩ := ih h.1 hsize hbag hidle.1 (by simp only [Bool.and_eq_true] at hgo; exact hgo.1.1)
          rw [if_pos hgo]
          exact hi.mk h hson h.2.1 hb rfl (by simp [hoff]) (h.2.2.2.2.fresh fun htd => (hi htd).2)
        · cases hup
      | right =>
        have hi := hidle.2 hup
        have hoff := h.2.2.2.2.off (fun htd => (hi htd).2) (Tree.one_lt_entries (t := r) hsize)
        rw [Tree.put] at hup ⊢
        split at hup
        · next hgo =>
          obtain ⟨hb, hson⟩ := ih h.2.1 hsize hbag hidle.1 (by simp only [Bool.and_eq_true] at hgo; exact hgo.1.1)
          rw [if_pos hgo]
          exact hi.mk h h.1 hson rfl hb (h.2.2.2.1.fresh fun htd => (hi htd).1) (by simp [hoff])
        · cases hup

/-- **Putting the new subtree in place leaves the points of the whole tree as they are**, wherever the loop over the nodes
above ends, if no deletion is pending in a node that it updates; and where it comes to the root the tree is sound. -/
theorem handover_bag (h : t.Sound) (hs : s.Sound) (hsize : 1 < (t.at π).nodes) (hbag : s.bag = (t.at π).bag)
    (hidle : s.Idle working pending t π) :
    (s.put working pending t π).1.bag = t.bag ∧
      ((s.put working pending t π).2 = true → (s.put working pending t π).1.Sound) := by
  refine ⟨?_, fun hup => (Tree.put_updated h hs hsize hbag hidle hup).2⟩
  induction π generalizing t working pending with
  | nil => simpa [Tree.put] using hbag
  | cons side π ih =>
    by_cases hup : (s.put working pending t (side :: π)).2 = true
    · exact (Tree.put_updated h hs hsize hbag hidle hup).1
    · cases t with
      | nil => rfl
      | node n l r =>
        -- the node keeps its flags
        cases side with
        | left =>
          have hb := ih h.1 hsize hbag hidle.1
          have hlen := Tree.one_lt_entries (t := l) hsize
          rw [Tree.put] at hup ⊢
          split at hup
          · exact absurd rfl hup
          · next hstop =>
            rw [if_neg hstop]
            exact Tree.bag_sons (n.live_through h.2.2.2.1 hlen hb.symm).symm rfl
        | right =>
          have hb := ih h.2.1 hsize hbag hidle.1
          have hlen := Tree.one_lt_entries (t := r) hsize
          rw [Tree.put] at hup ⊢
          split at hup
          · exact absurd rfl hup
          · next hstop =>
            rw [if_neg hstop]
            exact Tree.bag_sons rfl (n.live_through h.2.2.2.2 hlen hb.symm).symm

/-- Below the root the loop goes to the end; in a tree that is deleted as a whole it stops at the first node, to which the
flags of the root have still to be pushed down. -/
theorem handover_bag_left :
    let f := Tree.mk (.init (fun _ => 2) .x) (Setting.exact.buildTree [fun _ => 0, fun _ => 1]) .nil
    let t := (Tree.mk (.init (fun _ => 3) .x) f .nil).inherit true false
    let s := Setting.exact.buildTree [fun _ => 1, fun _ => 0]
    ((s.put (fun _ => false) false f [.left]).1.bag = f.bag ∧ (s.put (fun _ => false) false f [.left]).1.Sound) ∧
      ((s.put (fun _ => false) false t [.left, .left]).1.bag = 0 ∧
        (s.put (fun _ => false) false t [.left, .left]).2 = false) := by
  intro f t s
  have hl : (Setting.exact.buildTree [fun _ => 0, fun _ => 1]).Sound := (Setting.buildTree_spec _ _).1
  have hs : s.Sound := (Setting.buildTree_spec _ _).1
  have hf : f.Sound := Tree.Sound.mk (Node.init_ready _ _ _ _) hl trivial
  have hft : (Tree.mk (.init (fun _ => 3) .x) f .nil).Sound := Tree.Sound.mk (Node.init_ready _ _ _ _) hf trivial
  obtain ⟨ht, hzero, -⟩ := hft.inherit_deleted false
  have hnodes : 1 < (Setting.exact.buildTree [fun _ => 0, fun _ => 1]).nodes := by
    rw [Setting.nodes_buildTree]
    decide
  have hbag : s.bag = (Setting.exact.buildTree [fun _ => 0, fun _ => 1]).bag := by
    rw [Setting.bag_buildTree, Setting.bag_buildTree]
    exact Multiset.coe_eq_coe.mpr (.swap _ _ _)
  have hsome : s.isNil = false := Tree.isNil_of_nodes (by rw [Setting.nodes_buildTree]; decide)
  have hatf : f.at [.left] = Setting.exact.buildTree [fun _ => 0, fun _ => 1] := Tree.at_left _ _ _
  have hatt : t.at [.left, .left] = Setting.exact.buildTree [fun _ => 0, fun _ => 1] :=
    (Tree.at_inherit true false _ .left [.left]).trans hatf
  constructor
  · have hidle : s.Idle (fun _ => false) false f [.left] := by
      simp [f, Tree.mk, Tree.Idle, Node.Idle, Node.update, Node.init]
    obtain ⟨hb, hsound⟩ := handover_bag hf hs (by rwa [hatf]) (by rwa [hatf]) hidle
    exact ⟨hb, hsound (by simp [f, Tree.mk, Tree.put, hsome])⟩
  · have hidle : s.Idle (fun _ => false) false t [.left, .left] := by
      simp [t, f, Tree.mk, Tree.inherit, Tree.Idle, Tree.put, Node.inherit]
    obtain ⟨hb, -⟩ := handover_bag ht hs (by rwa [hatt]) (by rwa [hatt]) hidle
    exact ⟨hb.trans hzero, by simp [t, f, Tree.mk, Tree.inherit, Tree.put, Node.inherit]⟩

/-- A tree with a point is not deleted as a whole. -/
theorem Tree.Sound.root_live (h : s.Sound) (hne : s.bag ≠ 0) :
    (∀ c ∈ s.root, c.treeDeleted = false ∧ c.treeDownsampleDeleted = false) ∧ s.root ≠ [] := by
  cases s with
  | nil => exact absurd rfl hne
  | node c a b =>
    have htd : c.treeDeleted = false := by
      rw [← Bool.not_eq_true]
      intro htd
      exact hne (by rw [Tree.bag, Tree.live, h.2.2.1.live_eq_nil htd]; rfl)
    have hdd : c.treeDownsampleDeleted = false := by
      rw [← Bool.not_eq_true]
      exact fun hd => by simp [h.2.2.1.deleted_of_downsample hd] at htd
    simp [Tree.root, htd, hdd]

/-- Flags without a deletion bring back what no downsampling took, and leave the rest. -/
theorem live_revived {es : List Entry} (hm : ∀ e ∈ es, e.downsampleDeleted = true → e.deleted = true) :
    (live es).Sublist (live (es.map (Entry.inherit false false))) := by
  induction es with
  | nil => exact .slnil
  | cons e es ih =>
    have ih := ih fun e' he' => hm e' (by simp [he'])
    rw [List.map_cons, live_cons, live_cons]
    cases hd : e.deleted with
    | true =>
      simp only [if_true]
      split
      · exact ih
      · exact ih.cons _
    | false =>
      have hdd : e.downsampleDeleted = false := by
        rw [← Bool.not_eq_true]
        exact fun h => by simp [hm e (by simp) h] at hd
      simpa [Entry.inherit, hdd] using ih

/-- **Where a deletion is pending in the father of the new subtree, the points of that come back**: the loop looks at the
flags of the father's father, and not at those of the father. -/
theorem handover_revives (side : Side) (h : (Tree.node n l r).Sound) (hs : s.Sound) (htd : n.treeDeleted = true)
    (hneed : n.need side = true) (hne : s.bag ≠ 0) :
    (Tree.node n l r).bag = 0 ∧ s.bag ≤ (s.put (fun _ => false) false (.node n l r) [side]).1.bag := by
  have hnil : s.isNil = false := by
    rw [← Bool.not_eq_true]
    exact fun hnil => hne (Tree.bag_of_isNil hnil)
  obtain ⟨hroot, hsome⟩ := hs.root_live hne
  obtain ⟨c, hc⟩ := List.exists_mem_of_ne_nil _ hsome
  -- after the `Update` the flag towards the new subtree stands for no deletion
  have hthrough (sons : List Node) (hmem : c ∈ sons) :
      (live s.entries).Sublist (live ((n.update sons).through true s.entries)) := by
    have hoff : (n.update sons).treeDeleted = false ∧ (n.update sons).treeDownsampleDeleted = false := by
      simp only [Node.update, Bool.and_eq_false_iff, List.all_eq_false]
      exact ⟨.inl ⟨c, hmem, by simp [(hroot c hc).1]⟩, .inl ⟨c, hmem, by simp [(hroot c hc).2]⟩⟩
    simp only [Node.through, if_true, hoff.1, hoff.2]
    exact live_revived hs.unmarked
  have hsub {es fs : List Entry} {m : Node} (he : (live s.entries).Sublist (live fs)) (hfs : fs.Sublist es) :
      (live s.entries).Sublist (live (m.own :: es)) :=
    (he.trans ((hfs.filter _).map _)).trans (((List.sublist_cons_self _ _).filter _).map _)
  refine ⟨by rw [Tree.bag, Tree.live, h.2.2.1.live_eq_nil htd]; rfl, Multiset.coe_le.mpr (List.Sublist.subperm ?_)⟩
  cases side with
  | left =>
    have hflag : n.needPushDownToLeft = true := hneed
    simp only [Tree.put, hnil, Bool.not_false, Bool.and_self, if_true, Tree.mk, Tree.live, Tree.entries]
    refine hsub (hthrough (s.root ++ r.root) (by simp [hc])) ?_
    simp [Node.update, hflag]
  | right =>
    have hflag : n.needPushDownToRight = true := hneed
    simp only [Tree.put, hnil, Bool.not_false, Bool.and_self, if_true, Tree.mk, Tree.live, Tree.entries]
    refine hsub (hthrough (l.root ++ s.root) (by simp [hc])) ?_
    simp [Node.update, hflag]

end

/-! ## Both threads -/

/-- The tree with another subtree at the end of the path, and nothing else changed. -/
def Tree.set (s : Tree) : Tree → List Side → Tree
  | _, [] => s
  | .nil, _ :: _ => .nil
  | .node n l r, .left :: π => .node n (s.set l π) r
  | .node n l r, .right :: π => .node n l (s.set r π)

/-- The tree, what the two threads share of a rebuild, and where the second thread is. -/
structure Threads where
  kdTree : KdTree
  rebuildPtr : RebuildPtr
  rebuildFlag : Bool
  rebuildLogger : List Operation
  treesizeTmp : ℕ
  rebuild : Handover.Phase Tree Flat

/-- The second thread waits for a `Rebuild_Ptr`. -/
def Threads.start (k : KdTree) : Threads := ⟨k, none, false, [], 0, .idle⟩

/-- The main thread walks over the tree or searches in it, with `Rebuild_Ptr` as it has read it, asks for the removed points,
and sets `Rebuild_Ptr`; the second thread copies, builds, replays one operation, puts the new subtree in place while some
nodes are at work, and switches the flag off. -/
inductive Act where
  | walk (ptr : RebuildPtr) (w : Walk)
  | search (ptr : RebuildPtr) (b : Box)
  | acquireRemovedPoints
  | request (π : List Side)
  | copy
  | build
  | replay
  | replace (working : List Side → Bool)
  | finish

/-- The log after some operations: they are logged while there is a rebuild. -/
def Threads.logged (s : Threads) (os : List Operation) : List Operation :=
  if s.rebuildFlag then s.rebuildLogger ++ os else s.rebuildLogger

def Setting.threadStep : Act → Threads → Option Threads
  | .walk ptr w, s =>
    let e := S.walk ptr s.kdTree.rootNode w
    some { s with kdTree := s.kdTree.after e, rebuildLogger := s.logged e.logged }
  | .search ptr b, s =>
    let f := searchByRange b ptr s.kdTree.rootNode
    some { s with kdTree := { s.kdTree with rootNode := f.tree }, rebuildLogger := s.logged f.logged }
  | .acquireRemovedPoints, s => some { s with kdTree := (S.exec (fun _ => none) s.kdTree .acquireRemovedPoints).1 }
  | .request π, s =>
    -- `rebuild_ptr_mutex_lock` is free
    match s.rebuild with
    | .idle =>
      let size (π : List Side) := (s.kdTree.rootNode.at π).treeSize
      if size π ≥ multiThreadRebuildPointNum ∧ s.rebuildPtr.all (fun π' => size π > size π') then
        some { s with rebuildPtr := some π }
      else none
    | _ => none
  | .copy, s =>
    match s.rebuildPtr, s.rebuild with
    | some π, .idle =>
      let f := flatten none (s.kdTree.rootNode.at π)
      some { s with
        kdTree := { s.kdTree with
          rootNode := f.tree.set s.kdTree.rootNode π
          multithreadPointsDeleted := s.kdTree.multithreadPointsDeleted ++ f.recorded }
        rebuildFlag := true
        treesizeTmp := if π = [] then s.kdTree.rootNode.treeSize else s.treesizeTmp
        rebuild := .copied f }
    | _, _ => none
  | .build, s =>
    match s.rebuild with
    | .copied c =>
      some { s with rebuild := if c.storage.isEmpty then .emptied c else .replaying c (S.buildTree c.storage) }
    | _ => none
  | .replay, s =>
    match s.rebuild, s.rebuildLogger with
    | .replaying c new, o :: os =>
      some { s with rebuild := .replaying c (S.runOperation new o), rebuildLogger := os }
    | _, _ => none
  | .replace working, s =>
    match s.rebuildPtr, s.rebuild, s.rebuildLogger with
    | some π, .replaying _ new, [] =>
      some { s with
        kdTree := { s.kdTree with rootNode := (new.put working false s.kdTree.rootNode π).1 }
        rebuildPtr := none
        rebuild := .replaced }
    | some π, .emptied _, _ =>
      some { s with
        kdTree := { s.kdTree with rootNode := (Tree.nil.put working false s.kdTree.rootNode π).1 }
        rebuildPtr := none
        rebuild := .replaced }
    | _, _, _ => none
  | .finish, s =>
    match s.rebuild with
    | .replaced => some { s with rebuildFlag := false, rebuild := .idle }
    | _ => none

/-- No walk has waited while the second thread put its subtree in place. -/
def Act.InTime : Act → Threads → Prop
  | .walk ptr _, s => ptr = s.rebuildPtr
  | .search ptr _, s => ptr = s.rebuildPtr
  | _, _ => True

/-- Where the copy was empty, nothing has been logged since. -/
def Act.NoneMissed : Act → Threads → Prop
  | .replace _, ⟨_, _, _, log, _, .emptied _⟩ => log = []
  | _, _ => True

/-- A new subtree brings the nodes above it up to date: the whole tree is replaced, or there is a new subtree, the loop over
the nodes above comes to the root, and no deletion is pending in them. -/
def Act.Settles : Act → Threads → Prop
  | .replace working, ⟨k, some π, _, _, _, .replaying _ new⟩ =>
    π = [] ∨ (new.put working false k.rootNode π).2 = true ∧ new.Idle working false k.rootNode π
  | .replace _, ⟨_, some π, _, _, _, .emptied _⟩ => π = []
  | _, _ => True

/-- The condition on a step. -/
def Act.Orderly (a : Act) (s : Threads) : Prop := a.InTime s ∧ a.NoneMissed s ∧ a.Settles s

/-- What a step makes of the points, told from the main thread alone. -/
def Act.act : Act → Multiset Point → Multiset Point
  | .walk _ (.add p), m => p ::ₘ m
  | .walk _ (.delete b _), m => m.filter (¬ b.Has ·)
  | _, m => m

/-! ### Subtrees that take the place of others -/

section
variable {s t : Tree} {π : List Side}

theorem Tree.at_set (h : 0 < (t.at π).nodes) : (s.set t π).at π = s := by
  induction π generalizing t with
  | nil => simp [Tree.set]
  | cons side π ih =>
    cases t with
    | nil => simp [Tree.at, Tree.nodes] at h
    | node n l r =>
      cases side with
      | left => exact ih h
      | right => exact ih h

theorem Tree.Sound.set (h : t.Sound) (hs : s.Sound) (he : s.entries = (t.at π).entries) :
    (s.set t π).Sound ∧ (s.set t π).entries = t.entries := by
  induction π generalizing t with
  | nil => simpa [Tree.set] using And.intro hs he
  | cons side π ih =>
    cases t with
    | nil => exact ⟨trivial, rfl⟩
    | node n l r =>
      cases side with
      | left =>
        obtain ⟨hl, el⟩ := ih h.1 he
        exact h.replace hl h.2.1 el rfl
      | right =>
        obtain ⟨hr, er⟩ := ih h.2.1 he
        exact h.replace h.1 hr rfl er

end

/-! ### The invariant -/

/-- The rebuild, seen from the subtree at `*Rebuild_Ptr`, or from the whole tree where there is none. -/
def Threads.sub (s : Threads) : Handover.State Tree Operation Flat :=
  ⟨s.kdTree.rootNode.at (s.rebuildPtr.getD []), s.rebuildLogger, s.rebuildFlag, s.rebuild⟩

structure Setting.Threaded (S : Setting) (s : Threads) : Prop where
  sound : s.kdTree.rootNode.Sound
  sub : S.alike.Inv s.sub
  large : ∀ π, s.rebuildPtr = some π → multiThreadRebuildPointNum ≤ (s.kdTree.rootNode.at π).nodes
  waits : s.rebuildPtr = none → s.rebuild = .idle ∨ s.rebuild = .replaced
  ended : s.rebuild = .replaced → s.rebuildPtr = none

section
variable {S} {s s' : Threads} {a : Act}

theorem Setting.threaded_start {k : KdTree} (h : k.rootNode.Sound) : S.Threaded (.start k) where
  sound := h
  sub := Handover.Relation.inv_start (h.at [])
  large := by simp [Threads.start]
  waits _ := .inl rfl
  ended _ := rfl

/-- A step of the main thread that does to the subtree what it logs. -/
theorem Setting.Threaded.moved (h : S.Threaded s) {k : KdTree} {os : List Operation} (hs : k.rootNode.Sound)
    (hsome : ∀ π, s.rebuildPtr = some π → FollowsUpTo S (s.kdTree.rootNode.at π) os (k.rootNode.at π))
    (hnone : s.rebuildPtr = none → os = []) :
    S.Threaded { s with kdTree := k, rebuildLogger := s.logged os } where
  sound := hs
  large π hπ := by
    obtain ⟨⟨mid, hf, he⟩, -⟩ := hsome π hπ
    have := hf.size
    rwa [← Tree.length_entries, ← he, Tree.length_entries] at this
  waits := h.waits
  ended := h.ended
  sub := by
    obtain ⟨kdTree, ptr, flag, log, tmp, rebuild⟩ := s
    have hstands := h.sub.stands
    have hbusy (hflag : flag = true) (hrep : rebuild ≠ .replaced) (hptr : ptr ≠ none) :
        S.alike.Inv (Threads.sub ⟨k, ptr, flag, Threads.logged ⟨kdTree, ptr, flag, log, tmp, rebuild⟩ os, tmp, rebuild⟩) := by
      obtain ⟨π, rfl⟩ := Option.ne_none_iff_exists'.mp hptr
      obtain ⟨⟨mid, hf, he⟩, hsub⟩ := hsome π rfl
      have hops := h.sub.operates hflag hrep hf.deletes
      subst hflag
      exact hops.step (a := .touch (k.rootNode.at π)) ⟨⟨hsub, he.trans (congrArg _ hf.runs)⟩, trivial, trivial⟩ rfl
    cases rebuild with
    | idle =>
      obtain ⟨-, rfl⟩ : log = [] ∧ flag = false := hstands
      exact h.sub.step (a := .turn _) ⟨hs.at _, trivial, trivial⟩ rfl
    | replaced =>
      obtain rfl := h.ended rfl
      obtain rfl := hnone rfl
      have hlog : Threads.logged ⟨kdTree, none, flag, log, tmp, .replaced⟩ [] = log := by simp [Threads.logged]
      rw [hlog]
      exact h.sub.step (a := .turn _) ⟨hs.at _, trivial, trivial⟩ rfl
    | copied c | replaying c new | emptied c =>
      exact hbusy hstands.logging (by simp) fun hnone => by simpa using h.waits hnone

/-- After a replacement. -/
theorem Setting.threaded_replaced {k : KdTree} (h : k.rootNode.Sound) (flag : Bool) (tmp : ℕ) :
    S.Threaded ⟨k, none, flag, [], tmp, .replaced⟩ where
  sound := h
  sub := ⟨⟨h.at [], by simp [Threads.sub], by simp [Threads.sub]⟩, rfl⟩
  large := by simp
  waits _ := .inr rfl
  ended _ := rfl

/-- A step of the second thread, where the subtree stays as large as it is. -/
theorem Setting.Threaded.stepped (h : S.Threaded s) {b : Handover.Act Tree Operation} {log : List Operation}
    {phase : Handover.Phase Tree Flat}
    (hb : Handover.step S.kit b s.sub = some ⟨s.sub.live, log, s.rebuildFlag, phase⟩) (hc : S.alike.Cond b s.sub)
    (hphase : phase ≠ .replaced) (hbusy : s.rebuild ≠ .idle ∧ s.rebuild ≠ .replaced) :
    S.Threaded { s with rebuildLogger := log, rebuild := phase } where
  sound := h.sound
  sub := h.sub.step hc hb
  large := h.large
  waits hnone := ((h.waits hnone).elim hbusy.1 hbusy.2).elim
  ended he := absurd he hphase

theorem Setting.Threaded.step (h : S.Threaded s) (hc : a.Orderly s) (hs : S.threadStep a s = some s') :
    S.Threaded s' ∧ s'.kdTree.rootNode.bag = a.act s.kdTree.rootNode.bag := by
  obtain ⟨htime, hnone, hsettles⟩ := hc
  cases a with
  | walk ptr w =>
    obtain rfl := Option.some.inj hs
    obtain rfl : ptr = s.rebuildPtr := htime
    let e := S.walk s.rebuildPtr s.kdTree.rootNode w
    obtain ⟨hsound, hbag, hsome, hnone⟩ : e.tree.Sound ∧
        e.tree.bag = (Act.walk s.rebuildPtr w).act s.kdTree.rootNode.bag ∧
        (∀ π, s.rebuildPtr = some π → Follows S (s.kdTree.rootNode.at π) e.logged (e.tree.at π)) ∧
        (s.rebuildPtr = none → e.logged = []) := by
      cases w with
      | add p =>
        refine ⟨(walk_add _ h.sound p).sound, (walk_add _ h.sound p).bag, fun π hπ => ?_, fun hp => ?_⟩
        · simp only [e, hπ]
          exact follows_walkAdd S p h.sound (h.large π hπ)
        · simp only [e, hp]
          exact S.addByPoint_logged p _ _ _
      | delete b d =>
        refine ⟨(walk_delete _ h.sound b d).sound, (walk_delete _ h.sound b d).bag, fun π hπ => ?_, fun hp => ?_⟩
        · simp only [e, hπ]
          exact follows_walkDelete S b d h.sound (h.large π hπ)
        · simp only [e, hp]
          exact S.deleteByRange_logged b d _ _
    exact ⟨h.moved hsound (fun π hπ => (hsome π hπ).upTo (hsound.at π)) hnone, hbag⟩
  | search ptr b =>
    obtain rfl := Option.some.inj hs
    obtain rfl : ptr = s.rebuildPtr := htime
    obtain ⟨-, hsound, he⟩ := searchByRange_spec b s.rebuildPtr h.sound
    refine ⟨h.moved hsound (fun π hπ => ?_) (fun hp => ?_), Tree.bag_congr he⟩
    · rw [hπ]
      exact search_follows S b h.sound (h.large π hπ)
    · rw [hp, searchByRange_logged]
  | acquireRemovedPoints =>
    obtain rfl := Option.some.inj hs
    exact ⟨⟨h.sound, h.sub, h.large, h.waits, h.ended⟩, rfl⟩
  | request π =>
    obtain ⟨k, ptr, flag, log, tmp, rebuild⟩ := s
    cases rebuild <;> simp only [Setting.threadStep, reduceCtorEq] at hs
    split at hs
    · next hsize =>
      obtain rfl := Option.some.inj hs
      refine ⟨⟨h.sound, h.sub.step (a := .turn _) ⟨h.sound.at π, trivial, trivial⟩ rfl, fun π' hπ' => ?_, by simp,
        by simp⟩, rfl⟩
      obtain rfl := Option.some.inj hπ'
      exact hsize.1.trans (h.sound.at π).counts.1.le
    · simp at hs
  | copy =>
    obtain ⟨k, ptr, flag, log, tmp, rebuild⟩ := s
    cases ptr <;> cases rebuild <;> simp only [Setting.threadStep, reduceCtorEq] at hs
    next π =>
      obtain rfl := Option.some.inj hs
      have hlarge := h.large π rfl
      obtain ⟨hsub, he, -⟩ := flatten_tree (h.sound.at π) none
      obtain ⟨hsound, hent⟩ := h.sound.set (π := π) hsub he
      have hat : ((flatten none (k.rootNode.at π)).tree.set k.rootNode π).at π = (flatten none (k.rootNode.at π)).tree :=
        Tree.at_set (by simp only [multiThreadRebuildPointNum] at hlarge; omega)
      refine ⟨⟨hsound, ?_, fun π' hπ' => ?_, by simp, by simp⟩, Tree.bag_congr hent⟩
      · have hstep := h.sub.step (a := .copy) ⟨trivial, trivial, trivial⟩ rfl
        change S.alike.Inv ⟨((flatten none (k.rootNode.at π)).tree.set k.rootNode π).at π, log, true,
          .copied (flatten none (k.rootNode.at π))⟩
        rw [hat]
        exact hstep
      · obtain rfl := Option.some.inj hπ'
        rw [hat, ← Tree.length_entries, he, Tree.length_entries]
        exact hlarge
  | build =>
    obtain ⟨k, ptr, flag, log, tmp, rebuild⟩ := s
    cases rebuild <;> simp only [Setting.threadStep, reduceCtorEq] at hs
    next c =>
      obtain rfl := Option.some.inj hs
      refine ⟨h.stepped (b := .build) rfl ⟨trivial, trivial, trivial⟩ ?_ (by simp), rfl⟩
      split <;> simp
  | replay =>
    obtain ⟨k, ptr, flag, log, tmp, rebuild⟩ := s
    cases rebuild <;> cases log <;> simp only [Setting.threadStep, reduceCtorEq] at hs
    obtain rfl := Option.some.inj hs
    exact ⟨h.stepped (b := .replay) rfl ⟨trivial, trivial, trivial⟩ (by simp) (by simp), rfl⟩
  | replace working =>
    obtain ⟨k, ptr, flag, log, tmp, rebuild⟩ := s
    have hstands := h.sub.stands
    cases ptr <;> cases rebuild <;> cases log <;> simp only [Setting.threadStep, reduceCtorEq] at hs
    · next π c new =>
      obtain rfl := Option.some.inj hs
      have hnew : new.Sound := (h.sub.fed.new c new rfl).1
      have hbag : (k.rootNode.at π).bag = new.bag := hstands.rel
      rcases hsettles with rfl | ⟨hup, hidle⟩
      · exact ⟨S.threaded_replaced (by simpa [Tree.put] using hnew) flag tmp,
          by simpa [Tree.put, Act.act] using hbag.symm⟩
      · have hsize : 1 < (k.rootNode.at π).nodes := by
          have := h.large π rfl
          simp only [multiThreadRebuildPointNum] at this
          omega
        obtain ⟨hb, hsound⟩ := Tree.put_updated h.sound hnew hsize hbag.symm hidle hup
        exact ⟨S.threaded_replaced hsound flag tmp, hb⟩
    · next π c =>
      obtain rfl := Option.some.inj hs
      obtain rfl : π = [] := hsettles
      have hbag : (k.rootNode.at []).bag = 0 := hstands.rel
      exact ⟨S.threaded_replaced (by simp [Tree.put, Tree.Sound]) flag tmp,
        by simpa [Tree.put, Act.act] using hbag.symm⟩
    · exact absurd hnone (List.cons_ne_nil _ _)
  | finish =>
    obtain ⟨k, ptr, flag, log, tmp, rebuild⟩ := s
    cases rebuild <;> simp only [Setting.threadStep, reduceCtorEq] at hs
    obtain rfl := Option.some.inj hs
    exact ⟨⟨h.sound, h.sub.step (a := .finish) ⟨trivial, trivial, trivial⟩ rfl, h.large, fun _ => .inl rfl, by simp⟩, rfl⟩

theorem Setting.Threaded.run {l : List Act} (h : S.Threaded s) (hr : Machine.run S.threadStep l s = some s')
    (hc : Machine.Along S.threadStep Act.Orderly l s) :
    S.Threaded s' ∧ s'.kdTree.rootNode.bag = l.foldl (fun m a => a.act m) s.kdTree.rootNode.bag := by
  induction l generalizing s with
  | nil =>
    obtain rfl : s = s' := by simpa [Machine.run] using hr
    exact ⟨h, rfl⟩
  | cons a l ih =>
    obtain ⟨t, ht, hrest⟩ := Option.bind_eq_some_iff.1 hr
    obtain ⟨hstep, hbag⟩ := h.step hc.1 ht
    obtain ⟨hrun, hall⟩ := ih hstep hrest (hc.2 t ht)
    exact ⟨hrun, by rw [hall, hbag, List.foldl_cons]⟩

/-- **Both threads keep the tree**: in every run without one of the two races, in which every new subtree brings the nodes
above it up to date, the tree is sound and holds what the walks of the main thread make of it; and the log is empty when a
rebuild begins. -/
theorem threads_bag {k : KdTree} (hk : k.rootNode.Sound) {l : List Act}
    (hr : Machine.run S.threadStep l (.start k) = some s) (hc : Machine.Along S.threadStep Act.Orderly l (.start k)) :
    s.kdTree.rootNode.Sound ∧ s.kdTree.rootNode.bag = l.foldl (fun m a => a.act m) k.rootNode.bag ∧
      ∀ s', S.threadStep .copy s = some s' → s.rebuildLogger = [] := by
  obtain ⟨h, hbag⟩ := (S.threaded_start hk).run hr hc
  refine ⟨h.sound, hbag, fun s' hs => ?_⟩
  have hstands := h.sub.stands
  obtain ⟨k', ptr, flag, log, tmp, rebuild⟩ := s
  cases ptr <;> cases rebuild <;> simp only [Setting.threadStep, reduceCtorEq] at hs
  exact hstands.1

end

/-! ### A rebuild below the root -/

section
variable {S} {n : Node} {a b : Tree} {p : Point}

/-- A point is added to a large left son. -/
theorem walk_left (h : (Tree.node n a b).Sound) (hsize : multiThreadRebuildPointNum ≤ a.nodes)
    (hp : p n.divisionAxis < n.point n.divisionAxis) (hn : n.needPushDownToLeft = false) :
    ∃ a', (S.walk (some [.left]) (.node n a b) (.add p)).tree = .mk (n.pushed a b) a' (n.pushRight b) ∧
      (S.walk (some [.left]) (.node n a b) (.add p)).logged = [.addPoint p] := by
  let a' := (S.addByPoint p false none n.divisionAxis (n.pushLeft a)).tree
  have hadd := S.addByPoint_spec p false none n.divisionAxis h.pushLeft
  have hnodes : a'.nodes = (n.pushLeft a).nodes + 1 := S.addByPoint_nodes p none n.divisionAxis (n.pushLeft a)
  rw [Node.nodes_pushLeft] at hnodes
  have hfinish (allow : Bool) : S.finish allow (n.pushed a b) a' (n.pushRight b) =
      ⟨.mk (n.pushed a b) a' (n.pushRight b), 0, [], []⟩ :=
    S.finish_large (h.ready_with (S.addByPoint_fresh p false none n.divisionAxis) fresh_of_nil) hadd.sound h.pushRight
      (by omega)
  have hlog : n.pushLog (some [.left]) a b = [] := by simp [Node.pushLog, hn]
  refine ⟨a', ?_, ?_⟩
  all_goals
    simp only [Setting.walk]
    rw [Setting.addByPoint, if_pos hp]
    simp [Setting.addByPoint_here, a', hfinish, hlog]

/-- A root over a left son. -/
def onTop (a : Tree) : Tree := .mk (.init (fun _ => 1) .x) a .nil

/-- The left son is rebuilt while a point joins it. -/
def sonRun : List Act :=
  [.request [.left], .copy, .walk (some [.left]) (.add fun _ => 0), .build, .replay, .replace (fun _ => false), .finish]

theorem onTop_sound (ha : a.Sound) : (onTop a).Sound := Tree.Sound.mk (Node.init_ready _ _ _ _) ha trivial

/-- The run can be made, and is in order. -/
theorem sonRun_orderly (ha : a.Sound) (hsize : multiThreadRebuildPointNum ≤ a.nodes) (hne : a.bag ≠ 0) :
    ∃ s, Machine.run S.threadStep sonRun (.start ⟨onTop a, [], []⟩) = some s ∧
      Machine.Along S.threadStep Act.Orderly sonRun (.start ⟨onTop a, [], []⟩) := by
  obtain ⟨hflat, he, -⟩ := flatten_tree ha none
  let f := flatten none a
  let n := (Node.init (fun _ => 1) .x).update (a.root ++ [])
  have hcopied : (Tree.node n f.tree .nil).Sound :=
    (Tree.Sound.replace (onTop_sound ha) hflat (by trivial : Tree.nil.Sound) he rfl).1
  have hlarge : multiThreadRebuildPointNum ≤ f.tree.nodes := by
    rwa [← Tree.length_entries, he, Tree.length_entries]
  obtain ⟨a', htree, hlogged⟩ := walk_left (S := S) (p := fun _ => 0) hcopied hlarge (by simp [n, Node.update, Node.init])
    (by simp [n, Node.update, Node.init])
  have hfull : f.storage.isEmpty = false := S.isEmpty_copy ha hne
  let new := S.runOperation (S.buildTree f.storage) (.addPoint fun _ => 0)
  have hnew : new.isNil = false := (S.runOperation_bag (o := .addPoint fun _ => 0) (S.buildTree_spec _).1 trivial).2.2
    (S.isNil_buildTree fun h => by simp [h] at hfull)
  let k : KdTree := ⟨.mk (n.pushed f.tree .nil) a' .nil,
    (S.walk (some [.left]) (.node n f.tree .nil) (.add fun _ => 0)).removed, f.recorded⟩
  have hrequest : S.threadStep (.request [.left]) (.start ⟨onTop a, [], []⟩) =
      some ⟨⟨onTop a, [], []⟩, some [.left], false, [], 0, .idle⟩ := by
    have hat : (onTop a).at [.left] = a := Tree.at_left _ _ _
    simp [Setting.threadStep, Threads.start, hat, ha.counts.1, hsize]
  have hcopy : S.threadStep .copy ⟨⟨onTop a, [], []⟩, some [.left], false, [], 0, .idle⟩ =
      some ⟨⟨.node n f.tree .nil, [], f.recorded⟩, some [.left], true, [], 0, .copied f⟩ := by
    have hat : (onTop a).at [.left] = a := Tree.at_left _ _ _
    simp only [Setting.threadStep, hat, reduceCtorEq, if_false, List.nil_append]
    simp only [onTop, Tree.mk, Tree.set]
    rfl
  have hwalk : S.threadStep (.walk (some [.left]) (.add fun _ => 0))
      ⟨⟨.node n f.tree .nil, [], f.recorded⟩, some [.left], true, [], 0, .copied f⟩ =
        some ⟨k, some [.left], true, [.addPoint fun _ => 0], 0, .copied f⟩ := by
    simp [Setting.threadStep, KdTree.after, Threads.logged, htree, hlogged, k, Node.pushRight, Tree.inherit]
  have hbuild : S.threadStep .build ⟨k, some [.left], true, [.addPoint fun _ => 0], 0, .copied f⟩ =
      some ⟨k, some [.left], true, [.addPoint fun _ => 0], 0, .replaying f (S.buildTree f.storage)⟩ := by
    simp [Setting.threadStep, hfull]
  have hput : (new.put (fun _ => false) false k.rootNode [.left]).2 = true := by
    simp [k, Tree.mk, Tree.put, hnew]
  have hidle : new.Idle (fun _ => false) false k.rootNode [.left] := by
    simp [k, Tree.mk, Tree.Idle, Node.Idle, Node.update, n, Node.pushed, Node.init]
  refine ⟨⟨{ k with rootNode := (new.put (fun _ => false) false k.rootNode [.left]).1 }, none, false, [], 0, .idle⟩, ?_⟩
  refine Machine.run_along_cons ⟨trivial, trivial, trivial⟩ hrequest ?_
  refine Machine.run_along_cons ⟨trivial, trivial, trivial⟩ hcopy ?_
  refine Machine.run_along_cons ⟨rfl, trivial, trivial⟩ hwalk ?_
  refine Machine.run_along_cons ⟨trivial, trivial, trivial⟩ hbuild ?_
  refine Machine.run_along_cons ⟨trivial, trivial, trivial⟩ rfl ?_
  refine Machine.run_along_cons ⟨trivial, trivial, .inr ⟨hput, hidle⟩⟩ rfl ?_
  exact Machine.run_along_cons ⟨trivial, trivial, trivial⟩ rfl ⟨rfl, trivial⟩

/-- 1500 points below the root. -/
theorem threads_bag_son : ∃ s,
    let a := Setting.exact.buildTree (List.replicate 1500 fun _ => 0)
    Machine.run Setting.exact.threadStep sonRun (.start ⟨onTop a, [], []⟩) = some s ∧ s.kdTree.rootNode.Sound ∧
      s.kdTree.rootNode.bag = sonRun.foldl (fun m a => a.act m) (onTop a).bag := by
  have ha : (Setting.exact.buildTree (List.replicate 1500 fun _ => 0)).Sound := (Setting.buildTree_spec _ _).1
  obtain ⟨s, hr, hc⟩ := sonRun_orderly (S := Setting.exact) ha
    (by rw [Setting.nodes_buildTree, List.length_replicate]; exact Nat.le_refl 1500)
    (by
      rw [Setting.bag_buildTree]
      intro hzero
      have hcard := congrArg Multiset.card hzero
      rw [Multiset.coe_card, List.length_replicate, Multiset.card_zero] at hcard
      exact absurd hcard (by decide))
  obtain ⟨hs, hb, -⟩ := threads_bag (k := ⟨onTop _, [], []⟩) (onTop_sound ha) hr hc
  exact ⟨s, hr, hs, hb⟩

end

end Agilex.Map
