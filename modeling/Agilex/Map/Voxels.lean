import Agilex.Lib.Binary64
import Agilex.Map.Interface

/-!
# The incremental k-d tree: the voxel grid

`Add_Points` with `downsample_on` thins the map out. What it leaves, for points at which the floats of the grid are exact
(`Setting.Aligned`), as they are for floats that are not too far away where the size is a power of two (`floats_aligned`);
with voxels of 0.2 m they are not (`fifths_not_aligned`).

- `run_thin`: a map that has at most one point in a voxel keeps to it, whatever is offered and deleted.
- `run_nearest`: a voxel keeps a point that is as near to its middle as any that was ever offered.
-/

namespace Agilex.Map

open Agilex.Lib Agilex.Lib.Binary64

variable (S : Setting)

/-- Of the points in `D`, the box of a voxel has those with its key, and no others. -/
def Setting.Aligned (D : Point → Prop) : Prop :=
  ∀ p q, D p → D q → ((S.voxelBox (S.voxelKey p)).Has q ↔ S.voxelKey q = S.voxelKey p)

/-- At most one point in a voxel. -/
def Setting.Thin (m : Multiset Point) : Prop := ∀ key, (m.filter fun q => S.voxelKey q = key).card ≤ 1

/-- The map has a point in the voxel of `q` that is as near to the middle as `q`. -/
def Setting.Covers (m : Multiset Point) (q : Point) : Prop :=
  ∃ x ∈ m, S.voxelKey x = S.voxelKey q ∧
    S.calcDist x (S.midPoint (S.voxelKey q)) ≤ S.calcDist q (S.midPoint (S.voxelKey q))

/-- The command adds points through the grid, or none. -/
def Command.Sparing : Command → Prop
  | .build _ => False
  | .addPoints _ downsampleOn => downsampleOn = true
  | _ => True

/-- The command deletes nothing but what the grid replaces. -/
def Command.Adds : Command → Prop
  | .build _ => False
  | .deletePointBoxes _ => False
  | _ => True

/-- The points that a command adds. -/
def Command.added : Command → List Point
  | .build ps => ps
  | .addPoints ps _ => ps
  | _ => []

/-- The points that a command offers to the grid. -/
def Command.offered : Command → List Point
  | .addPoints ps true => ps
  | _ => []

section
variable {S} {D : Point → Prop} {m m' : Multiset Point} {p : Point} {n : ℕ}

theorem Setting.samePoint_self (p : Point) : S.SamePoint p p := fun a => by
  simp [S.flt_zero, epss]

/-- One offer, seen from the grid: the voxel of the point is left as it is, or with one point in it. -/
theorem Setting.Offered.cases (ha : S.Aligned D) (hp : D p) (hm : ∀ q ∈ m, D q) (h : S.Offered p m n m') :
    (m' = m ∧ ∃ x ∈ m, S.voxelKey x = S.voxelKey p ∧
      S.calcDist x (S.midPoint (S.voxelKey p)) ≤ S.calcDist p (S.midPoint (S.voxelKey p))) ∨
    ∃ best, S.voxelKey best = S.voxelKey p ∧
      m' = best ::ₘ m.filter (fun q => S.voxelKey q ≠ S.voxelKey p) ∧
      ∀ q ∈ p ::ₘ m.filter (fun q => S.voxelKey q = S.voxelKey p),
        S.calcDist best (S.midPoint (S.voxelKey p)) ≤ S.calcDist q (S.midPoint (S.voxelKey p)) := by
  have hin : m.filter (S.voxelBox (S.voxelKey p)).Has = m.filter fun q => S.voxelKey q = S.voxelKey p :=
    Multiset.filter_congr fun q hq => ha p q hp (hm q hq)
  have hout : m.filter (fun q => ¬ (S.voxelBox (S.voxelKey p)).Has q) = m.filter fun q => S.voxelKey q ≠ S.voxelKey p :=
    Multiset.filter_congr fun q hq => not_congr (ha p q hp (hm q hq))
  simp only [Setting.Offered, hin, hout] at h
  rcases h with ⟨hempty, -, rfl⟩ | ⟨-, best, hbest, hle, hcase⟩
  · refine .inr ⟨p, rfl, ?_, by simp [hempty]⟩
    rw [Multiset.filter_eq_self.mpr]
    exact fun q hq e => Multiset.filter_eq_nil.mp hempty q hq e
  · have hkey : S.voxelKey best = S.voxelKey p := by
      rcases Multiset.mem_cons.mp hbest with rfl | hb
      · rfl
      · exact (Multiset.mem_filter.mp hb).2
    split at hcase
    · exact .inr ⟨best, hkey, hcase.2, hle⟩
    · next hnot =>
      -- the offered point is the same as itself, so the nearest is another one
      rcases Multiset.mem_cons.mp hbest with rfl | hb
      · exact absurd (S.samePoint_self best) hnot
      · exact .inl ⟨hcase.2, best, (Multiset.mem_filter.mp hb).1, hkey, hle p (by simp)⟩

/-- An offer brings in no other point. -/
theorem Setting.Offered.subset (h : S.Offered p m n m') : ∀ q ∈ m', q = p ∨ q ∈ m := by
  rcases h with ⟨-, -, rfl⟩ | ⟨-, best, hbest, -, hcase⟩
  · intro q hq
    exact Multiset.mem_cons.mp hq
  · split at hcase
    · obtain ⟨-, rfl⟩ := hcase
      intro q hq
      rcases Multiset.mem_cons.mp hq with rfl | hq
      · exact (Multiset.mem_cons.mp hbest).imp_right fun hb => (Multiset.mem_filter.mp hb).1
      · exact .inr (Multiset.mem_filter.mp hq).1
    · obtain ⟨-, rfl⟩ := hcase
      exact fun q hq => .inr hq

theorem Setting.AddedAll.subset {d : Bool} {ps : List Point} (h : S.AddedAll d ps m n m') :
    ∀ q ∈ m', q ∈ ps ∨ q ∈ m := by
  induction ps generalizing m n with
  | nil =>
    obtain ⟨-, rfl⟩ := h
    exact fun q hq => .inr hq
  | cons p ps ih =>
    obtain ⟨n₁, m₁, n₂, hstep, hrest, -⟩ := h
    intro q hq
    rcases ih hrest q hq with hq | hq
    · exact .inl (by simp [hq])
    · have : q = p ∨ q ∈ m := by
        cases d with
        | true => exact Setting.Offered.subset hstep q hq
        | false =>
          obtain ⟨-, rfl⟩ : n₁ = 0 ∧ m₁ = p ::ₘ m := hstep
          exact Multiset.mem_cons.mp hq
      exact this.imp_left fun e => by simp [e]

theorem Setting.Offered.thin (ha : S.Aligned D) (hp : D p) (hm : ∀ q ∈ m, D q) (h : S.Offered p m n m')
    (ht : S.Thin m) : S.Thin m' := by
  rcases h.cases ha hp hm with ⟨rfl, -⟩ | ⟨best, hkey, rfl, -⟩
  · exact ht
  · intro key
    rw [Multiset.filter_cons, Multiset.filter_filter]
    by_cases hk : S.voxelKey p = key
    · have hnone : m.filter (fun q => S.voxelKey q = key ∧ S.voxelKey q ≠ S.voxelKey p) = 0 :=
        Multiset.filter_eq_nil.mpr fun q _ hq => hq.2 (hq.1.trans hk.symm)
      rw [hnone, if_pos (hkey.trans hk)]
      simp
    · rw [if_neg fun e => hk (hkey.symm.trans e), zero_add]
      exact (Multiset.card_le_card (Multiset.monotone_filter_right m fun q hq => hq.1)).trans (ht key)

theorem Setting.Offered.covers (ha : S.Aligned D) (hp : D p) (hm : ∀ q ∈ m, D q) (h : S.Offered p m n m')
    {q : Point} (hq : S.Covers m q ∨ q = p) : S.Covers m' q := by
  rcases h.cases ha hp hm with ⟨rfl, hx⟩ | ⟨best, hkey, rfl, hle⟩
  · rcases hq with hq | rfl
    · exact hq
    · exact hx
  · by_cases hk : S.voxelKey q = S.voxelKey p
    · refine ⟨best, by simp, hkey.trans hk.symm, ?_⟩
      rw [hk]
      rcases hq with ⟨x, hx, hxk, hxle⟩ | rfl
      · rw [hk] at hxle hxk
        exact (hle x (by simp [hx, hxk])).trans hxle
      · exact hle q (by simp)
    · rcases hq with ⟨x, hx, hxk, hxle⟩ | rfl
      · refine ⟨x, ?_, hxk, hxle⟩
        simp [hx, hxk, hk]
      · exact absurd rfl hk

theorem Setting.AddedAll.thin (ha : S.Aligned D) {ps : List Point} (hps : ∀ q ∈ ps, D q) (hm : ∀ q ∈ m, D q)
    (h : S.AddedAll true ps m n m') (ht : S.Thin m) : S.Thin m' := by
  induction ps generalizing m n with
  | nil =>
    obtain ⟨-, rfl⟩ := h
    exact ht
  | cons p ps ih =>
    obtain ⟨n₁, m₁, n₂, hstep, hrest, -⟩ := h
    have hstep : S.Offered p m n₁ m₁ := hstep
    have hp := hps p (by simp)
    refine ih (fun q hq => hps q (by simp [hq])) (fun q hq => ?_) hrest (hstep.thin ha hp hm ht)
    exact (hstep.subset q hq).elim (fun e => e ▸ hp) (hm q)

theorem Setting.AddedAll.covers (ha : S.Aligned D) {d : Bool} {ps : List Point} (hps : ∀ q ∈ ps, D q)
    (hm : ∀ q ∈ m, D q) (h : S.AddedAll d ps m n m') {q : Point} (hq : S.Covers m q ∨ (d = true ∧ q ∈ ps)) :
    S.Covers m' q := by
  induction ps generalizing m n with
  | nil =>
    obtain ⟨-, rfl⟩ := h
    simpa using hq
  | cons p ps ih =>
    obtain ⟨n₁, m₁, n₂, hstep, hrest, -⟩ := h
    have hp := hps p (by simp)
    cases d with
    | true =>
      have hstep : S.Offered p m n₁ m₁ := hstep
      refine ih (fun q hq => hps q (by simp [hq])) (fun q hq => ?_) hrest ?_
      · exact (hstep.subset q hq).elim (fun e => e ▸ hp) (hm q)
      · rcases hq with hq | ⟨-, hq⟩
        · exact .inl (hstep.covers ha hp hm (.inl hq))
        · rcases List.mem_cons.mp hq with rfl | hq
          · exact .inl (hstep.covers ha hp hm (.inr rfl))
          · exact .inr ⟨rfl, hq⟩
    | false =>
      obtain ⟨-, rfl⟩ : n₁ = 0 ∧ m₁ = p ::ₘ m := hstep
      refine ih (fun q hq => hps q (by simp [hq])) (fun q hq => ?_) hrest ?_
      · exact (Multiset.mem_cons.mp hq).elim (fun e => e ▸ hp) (hm q)
      · obtain ⟨x, hx, hk⟩ := hq.resolve_right (by simp)
        exact .inl ⟨x, Multiset.mem_cons_of_mem hx, hk⟩

/-! ## Where the grid is aligned -/

/-- The floats of the grid are exact at the point: its place in voxels, its key, and the corners of its voxel. -/
structure Setting.ExactAt (S : Setting) (p : Point) : Prop where
  scaled : ∀ a, S.flt (p a * S.invDownsampleSize) = p a * S.invDownsampleSize
  key : ∀ a, S.flt (S.voxelKey p a) = S.voxelKey p a
  lower : ∀ a, S.flt (S.voxelKey p a * S.downsampleSize) = S.voxelKey p a * S.downsampleSize
  upper : ∀ a, S.flt (S.voxelKey p a * S.downsampleSize + S.downsampleSize) =
    S.voxelKey p a * S.downsampleSize + S.downsampleSize

theorem Setting.aligned_of_exact (hd : 0 < S.downsampleSize) (hinv : S.invDownsampleSize = S.downsampleSize⁻¹) :
    S.Aligned S.ExactAt := by
  intro p q hp hq
  rw [funext_iff]
  refine forall_congr' fun a => ?_
  have hkey : S.voxelKey q a = S.voxelKey p a ↔
      (S.voxelKey p a : ℚ) ≤ q a * S.invDownsampleSize ∧ q a * S.invDownsampleSize < S.voxelKey p a + 1 := by
    rw [Setting.voxelKey, hq.scaled, Int.floor_eq_iff]
  rw [hkey, hinv, ← div_eq_mul_inv, le_div_iff₀ hd, div_lt_iff₀ hd, add_mul, one_mul]
  simp only [Setting.voxelBox, hp.key, hp.lower, hp.upper]

theorem Setting.Aligned.mono {D' : Point → Prop} (h : S.Aligned D) (hD : ∀ p, D' p → D p) : S.Aligned D' :=
  fun p q hp hq => h p q (hD p hp) (hD q hq)

/-- In exact arithmetic the grid is aligned everywhere. -/
theorem exact_aligned : Setting.exact.Aligned fun _ => True :=
  (Setting.exact.aligned_of_exact (by norm_num [Setting.exact]) (by norm_num [Setting.exact])).mono fun _ _ =>
    ⟨fun _ => rfl, fun _ => rfl, fun _ => rfl, fun _ => rfl⟩

/-- Floats and doubles, with voxels of half a metre. -/
def Setting.floats : Setting :=
  { Setting.exact with
    flt := binary32.rnd
    flt_mono := fun _ _ => binary32.rnd_mono
    flt_zero := binary32.rnd_zero
    flt_flt := fun x => binary32.rnd_rnd x
    dbl := binary64.rnd }

/-- A point whose coordinates are floats, not too far away. -/
def Near (p : Point) : Prop := ∀ a, binary32.Has (p a) ∧ |p a| < 2 ^ 22

/-- **With voxels of half a metre the grid of floats is aligned.** -/
theorem floats_aligned : Setting.floats.Aligned Near := by
  refine (Setting.floats.aligned_of_exact (by norm_num [Setting.floats, Setting.exact])
    (by norm_num [Setting.floats, Setting.exact])).mono fun p hp => ?_
  have hscaled (a : Axis) : binary32.rnd (p a * 2) = p a * 2 := by
    obtain ⟨⟨m, e, hm, he, hpa⟩, -⟩ := hp a
    refine binary32.rnd_of_has ⟨m, e + (1 : ℕ), hm, by omega, ?_⟩
    rw [hpa, pow2_add_nat]
    ring
  have hkey (a : Axis) : |Setting.floats.voxelKey p a| ≤ 2 ^ 23 := by
    have hfloor : Setting.floats.voxelKey p a = ⌊p a * 2⌋ := congrArg Int.floor (hscaled a)
    obtain ⟨hlow, hhigh⟩ := abs_lt.mp (hp a).2
    rw [hfloor, abs_le]
    constructor
    · exact Int.le_floor.mpr (by push_cast; linarith)
    · exact Int.floor_le_iff.mpr (by push_cast; linarith)
  have hwhole {n : ℤ} (hn : |n| ≤ 2 ^ 24) : binary32.rnd n = n :=
    binary32.rnd_of_has ⟨n, 0, hn, by decide, by norm_num [pow2_eq]⟩
  have hhalf {n : ℤ} (hn : |n| ≤ 2 ^ 24) : binary32.rnd (n * (1 / 2)) = n * (1 / 2) :=
    binary32.rnd_of_has ⟨n, -1, hn, by decide, by norm_num [pow2_eq]⟩
  have hwide (a : Axis) : |Setting.floats.voxelKey p a| ≤ 2 ^ 24 := (hkey a).trans (by norm_num)
  refine ⟨hscaled, fun a => hwhole (hwide a), fun a => hhalf (hwide a), fun a => ?_⟩
  have hnext : |Setting.floats.voxelKey p a + 1| ≤ 2 ^ 24 := by
    obtain ⟨hlow, hhigh⟩ := abs_le.mp (hkey a)
    rw [abs_le]
    omega
  have hupper := hhalf hnext
  rw [Int.cast_add, Int.cast_one, add_mul, one_mul] at hupper
  exact hupper

/-- Voxels of 0.2 m. -/
def Setting.fifths : Setting :=
  { Setting.floats with
    downsampleSize := binary32.rnd (1 / 5)
    invDownsampleSize := binary32.rnd (1 / binary32.rnd (1 / 5)) }

/-- **With voxels of 0.2 m it is not**: the float below 1.8 has the key 9, and is not in the box of that key. -/
theorem fifths_not_aligned : ¬ Setting.fifths.Aligned Near := by
  intro h
  have hp : Near fun _ => 15099494 / 2 ^ 23 :=
    fun _ => ⟨⟨15099494, -23, by decide, by decide, by norm_num [pow2_eq]⟩, by norm_num [abs_lt]⟩
  have hbox := (h _ _ hp hp).mpr rfl
  revert hbox
  decide +kernel

/-! ## Runs -/

/-- One command of the tree on a built map that is not rebuilt from other points: the map stays built and in `D`. -/
theorem exec_within (ptrs : RebuildPtrs) {k : KdTree} (h : k.rootNode.Sound) (hk : k.rootNode.isNil = false)
    {c : Command} (hc : ∀ ps, c ≠ .build ps) (hadd : ∀ q ∈ c.added, D q) (hm : ∀ q ∈ k.rootNode.bag, D q) :
    (S.exec ptrs k c).1.rootNode.Sound ∧ (S.exec ptrs k c).1.rootNode.isNil = false ∧
      S.Holds (some k.rootNode.bag) c (S.exec ptrs k c).2 (some (S.exec ptrs k c).1.rootNode.bag) ∧
        ∀ q ∈ (S.exec ptrs k c).1.rootNode.bag, D q := by
  obtain ⟨hs, hstep⟩ := exec_refines (S := S) ptrs k h c
  have hbuilt := exec_built (S := S) ptrs h hk (hc [])
  rw [KdTree.abs_built hk, KdTree.abs_built hbuilt] at hstep
  refine ⟨hs, hbuilt, hstep, fun q hq => ?_⟩
  cases c with
  | build ps => exact absurd rfl (hc ps)
  | addPoints ps downsampleOn =>
    obtain ⟨n, m₁, -, hm₁, hall⟩ := hstep
    rw [Option.some.inj hm₁] at hq
    exact (hall.subset q hq).elim (hadd q) (hm q)
  | deletePointBoxes bs =>
    rw [Option.some.inj hstep.2] at hq
    exact hm q (Multiset.mem_filter.mp hq).1
  | boxSearch b => rw [Option.some.inj hstep.2] at hq; exact hm q hq
  | acquireRemovedPoints => rw [Option.some.inj hstep.2] at hq; exact hm q hq

/-- **The grid keeps the map thin**: where no voxel has two points, none gets two, whatever is offered to the grid,
deleted, searched and rebuilt. -/
theorem run_thin (ha : S.Aligned D) (cs : List (RebuildPtrs × Command)) {k : KdTree} (h : k.rootNode.Sound)
    (hk : k.rootNode.isNil = false) (hm : ∀ q ∈ k.rootNode.bag, D q)
    (hcs : ∀ c ∈ cs, c.2.Sparing ∧ ∀ q ∈ c.2.added, D q) (ht : S.Thin k.rootNode.bag) :
    S.Thin (S.run k cs).1.rootNode.bag := by
  induction cs generalizing k with
  | nil => exact ht
  | cons c cs ih =>
    obtain ⟨ptrs, c⟩ := c
    obtain ⟨hc, hadd⟩ := hcs (ptrs, c) (by simp)
    obtain ⟨hs, hbuilt, hstep, hm'⟩ := exec_within (S := S) ptrs h hk (fun ps e => by subst e; exact hc) hadd hm
    refine ih hs hbuilt hm' (fun c' hc' => hcs c' (by simp [hc'])) ?_
    cases c with
    | build ps => exact hc.elim
    | addPoints ps downsampleOn =>
      obtain rfl : downsampleOn = true := hc
      obtain ⟨n, m₁, -, hm₁, hall⟩ := hstep
      rw [Option.some.inj hm₁]
      exact hall.thin ha hadd hm ht
    | deletePointBoxes bs =>
      rw [Option.some.inj hstep.2]
      exact fun key => (Multiset.card_le_card (Multiset.filter_le_filter _ (Multiset.filter_le _ _))).trans (ht key)
    | boxSearch b => rw [Option.some.inj hstep.2]; exact ht
    | acquireRemovedPoints => rw [Option.some.inj hstep.2]; exact ht

/-- Two points of one voxel, the second nearer to its middle. -/
def twoOffers : List (RebuildPtrs × Command) :=
  [(fun _ => none, .addPoints [fun _ => 1 / 8, fun _ => 3 / 16] true), (fun _ => some [], .boxSearch ⟨fun _ => 0, fun _ => 1⟩)]

theorem near_offers : ∀ p ∈ ([fun _ => 0, fun _ => 1 / 8, fun _ => 3 / 16] : List Point), Near p := by
  intro p hp
  simp only [List.mem_cons, List.not_mem_nil, or_false] at hp
  rcases hp with rfl | rfl | rfl
  · exact fun _ => ⟨⟨0, 0, by decide, by decide, by norm_num⟩, by norm_num⟩
  · exact fun _ => ⟨⟨1, -3, by decide, by decide, by norm_num [pow2_eq]⟩, by norm_num [abs_lt]⟩
  · exact fun _ => ⟨⟨3, -4, by decide, by decide, by norm_num [pow2_eq]⟩, by norm_num [abs_lt]⟩

theorem run_thin_two :
    Setting.floats.Thin
      (Setting.floats.run (Setting.floats.build .empty [fun _ => 0]) twoOffers).1.rootNode.bag := by
  have hbag : (Setting.floats.build .empty [fun _ => 0]).rootNode.bag = ([fun _ => 0] : List Point) :=
    Setting.floats.bag_buildTree _
  refine run_thin floats_aligned _ (Setting.buildTree_spec _ _).1 (Setting.isNil_buildTree _ (by simp)) ?_ ?_ fun key => ?_
  · rw [hbag]
    exact fun q hq => near_offers q (by simp at hq; simp [hq])
  · simp +contextual [twoOffers, Command.Sparing, Command.added, near_offers]
  · rw [hbag]
    exact Multiset.card_le_card (Multiset.filter_le _ _)

end

end Agilex.Map
