import Agilex.Lio.Latch
import Agilex.Lio.Undistort
import Mathlib.Data.List.Sort

/-!
# The cloud that is registered

The main loop of the bundle node: once `sync_packages` returns a bundle, `Process` refreshes `feats_undistort`, and the
iteration goes on to the map and the filter unless that cloud is empty (`processBundle`). `Process` returns early for a
bundle without IMU data or with an empty scan, and the loop then goes on with the cloud of an earlier iteration
(`stale_registered`). It does not when every such bundle comes while `feats_undistort` is empty (`registered_fresh`).
-/

namespace Agilex.Lio

open Agilex.Lib

variable {P W N M : Type}

/-- An iteration that went past the test for points: the bundle with its scans, `p_imu` before, and the cloud used. -/
structure Registered (P W N : Type) where
  meas : MeasureGroup P W
  lidar : Cloud P
  lidar2 : Cloud P
  before : ImuProcess W N
  cloud : Cloud P

structure Node (P W N : Type) where
  sync : State P W
  /-- `sync_packages` has just returned true. -/
  ready : Bool
  imu : ImuProcess W N
  featsUndistort : Cloud P
  registered : List (Registered P W N)

/-- What the main loop does next: callbacks in `spinOnce` or the call of `sync_packages`, or the rest of the iteration. -/
inductive LoopAction (P W : Type) where
  | call (a : Action P W)
  | bundle
deriving Repr

variable (cfg : Params P) (K : Kinematics P W N M) (update : Cloud P → N → N)

/-- The iteration after `sync_packages` has returned true; `update` is the part past the test, from
`lasermap_fov_segment` on. -/
def processBundle (n : Node P W N) : Node P W N :=
  let lidar := n.sync.clouds n.sync.meas.lidar.num
  let lidar2 := n.sync.clouds n.sync.meas.lidar2.num
  let (imu, feats) := process K n.sync.meas lidar lidar2 n.imu n.featsUndistort
  let n' := { n with ready := false, imu, featsUndistort := feats }
  -- `No point, skip this scan!`
  if feats.isEmpty then n'
  else
    { n' with
      imu := { imu with nav := update feats imu.nav },
      registered := n.registered ++ [⟨n.sync.meas, lidar, lidar2, n.imu, feats⟩] }

def loopStep : LoopAction P W → Node P W N → Option (Node P W N)
  | .call .sync, n =>
    if n.ready then none else (syncPackages cfg n.sync).map fun r => { n with sync := r.2, ready := r.1 }
  | .call a, n => if n.ready then none else (step cfg a n.sync).map fun s => { n with sync := s }
  | .bundle, n => if n.ready then some (processBundle K update n) else none

def Node.init (imu : ImuProcess W N) : Node P W N := ⟨.init, false, imu, [], []⟩

/-- A bundle without IMU data or with an empty scan is only processed while `feats_undistort` is empty. -/
def Refreshes (a : LoopAction P W) (n : Node P W N) : Prop :=
  match a with
  | .bundle => n.featsUndistort = [] ∨ n.sync.meas.imu ≠ [] ∧ n.sync.clouds n.sync.meas.lidar.num ≠ [] ∧
      n.sync.clouds n.sync.meas.lidar2.num ≠ []
  | .call _ => True

instance [DecidableEq P] [DecidableEq W] :
    ∀ (a : LoopAction P W) (n : Node P W N), Decidable (Refreshes a n)
  | .bundle, n => inferInstanceAs (Decidable (n.featsUndistort = [] ∨ n.sync.meas.imu ≠ [] ∧
      n.sync.clouds n.sync.meas.lidar.num ≠ [] ∧ n.sync.clouds n.sync.meas.lidar2.num ≠ []))
  | .call _, _ => inferInstanceAs (Decidable True)

variable {cfg K update} {n n' : Node P W N}

/-- What is known of the main loop while no stale cloud has been registered. -/
structure LoopInv (K : Kinematics P W N M) (n : Node P W N) : Prop where
  initialized : n.featsUndistort ≠ [] → n.imu.imuNeedInit = false
  ready : n.ready = true → ∃ b ∈ n.sync.bundles, b.meas = n.sync.meas ∧ b.cloud = n.sync.clouds n.sync.meas.lidar.num ∧
    b.cloud2 = n.sync.clouds n.sync.meas.lidar2.num
  returned : ∀ r ∈ n.registered, ∃ b ∈ n.sync.bundles, b.meas = r.meas ∧ b.cloud = r.lidar ∧ b.cloud2 = r.lidar2
  fresh : ∀ r ∈ n.registered, r.cloud = undistortedUnion K r.meas r.lidar r.lidar2 r.before

theorem LoopInv.init (imu : ImuProcess W N) : LoopInv K (Node.init imu : Node P W N) := by
  constructor <;> simp [Node.init]

/-- Callbacks and calls of `sync_packages` leave `feats_undistort` alone. -/
theorem LoopInv.call (h : LoopInv K n) {a : Action P W} (ha : loopStep cfg K update (.call a) n = some n') :
    LoopInv K n' := by
  have hstay : ∀ {s : State P W}, n.sync.bundles <+: s.bundles → ∀ r ∈ n.registered, ∃ b ∈ s.bundles,
      b.meas = r.meas ∧ b.cloud = r.lidar ∧ b.cloud2 = r.lidar2 := by
    intro s hpre r hr
    obtain ⟨b, hb, hbr⟩ := h.returned r hr
    exact ⟨b, hpre.subset hb, hbr⟩
  have hcallback : ∀ {s : State P W}, step cfg a n.sync = some s → n.ready = false → LoopInv K { n with sync := s } := by
    intro s hs hready
    refine ⟨h.initialized, fun hp => ?_, hstay (step_bundles hs), h.fresh⟩
    rw [hready] at hp
    cases hp
  cases a with
  | sync =>
    simp only [loopStep] at ha
    split_ifs at ha
    obtain ⟨⟨r, s⟩, hs, rfl⟩ := Option.map_eq_some_iff.1 ha
    have hstep : step cfg .sync n.sync = some s := by
      simp only [step, hs, Option.map_some]
    refine ⟨h.initialized, fun hr => ?_, hstay (step_bundles hstep), h.fresh⟩
    simp only at hr
    subst hr
    exact syncPackages_bundle hs
  | _ =>
    simp only [loopStep] at ha
    split_ifs at ha with hready
    obtain ⟨s, hs, rfl⟩ := Option.map_eq_some_iff.1 ha
    exact hcallback hs (Bool.eq_false_iff.2 hready)

/-- **The rest of an iteration.** -/
theorem LoopInv.bundle (h : LoopInv K n) (hready : n.ready = true) (hc : Refreshes (.bundle : LoopAction P W) n) :
    LoopInv K (processBundle K update n) := by
  have hbundle := h.ready hready
  rcases hproc : process K n.sync.meas (n.sync.clouds n.sync.meas.lidar.num) (n.sync.clouds n.sync.meas.lidar2.num) n.imu
    n.featsUndistort with ⟨imu, feats⟩
  simp only [processBundle, hproc]
  split_ifs with hempty
  · rw [List.isEmpty_iff] at hempty
    exact ⟨fun hne => absurd hempty hne, fun hr => Bool.noConfusion hr, h.returned, h.fresh⟩
  rw [List.isEmpty_iff] at hempty
  have hkept := process_stale (K := K) n.sync.meas (n.sync.clouds n.sync.meas.lidar.num)
    (n.sync.clouds n.sync.meas.lidar2.num) n.featsUndistort n.imu
  rw [hproc] at hkept
  -- a cloud that is not empty is either written now or was there before
  have hgood : n.imu.imuNeedInit = false ∧ n.sync.meas.imu ≠ [] ∧ n.sync.clouds n.sync.meas.lidar.num ≠ [] ∧
      n.sync.clouds n.sync.meas.lidar2.num ≠ [] := by
    rcases hc with hnil | ⟨himu, hl, hl2⟩
    · refine ⟨Bool.eq_false_iff.2 fun hi => ?_, fun hi => ?_, fun hi => ?_, fun hi => ?_⟩
      · exact hempty ((hkept (Or.inl hi)).trans hnil)
      · exact hempty ((hkept (Or.inr (Or.inl hi))).trans hnil)
      · exact hempty ((hkept (Or.inr (Or.inr (Or.inl hi)))).trans hnil)
      · exact hempty ((hkept (Or.inr (Or.inr (Or.inr hi)))).trans hnil)
    · refine ⟨?_, himu, hl, hl2⟩
      by_contra hi
      have hinit := Bool.eq_true_of_not_eq_false hi
      have hne : n.featsUndistort ≠ [] := fun hnil => hempty ((hkept (Or.inl hinit)).trans hnil)
      rw [h.initialized hne] at hinit
      cases hinit
  obtain ⟨hinit, himu, hl, hl2⟩ := hgood
  have hfresh := process_fresh (K := K) n.featsUndistort hinit himu hl hl2
  have hdone := process_imuNeedInit (K := K) n.sync.meas (n.sync.clouds n.sync.meas.lidar.num)
    (n.sync.clouds n.sync.meas.lidar2.num) n.featsUndistort hinit
  rw [hproc] at hfresh hdone
  refine ⟨fun _ => hdone, fun hr => Bool.noConfusion hr, fun r hr => ?_, fun r hr => ?_⟩
  · rcases List.mem_append.1 hr with hr | hr
    · exact h.returned r hr
    · obtain rfl := List.mem_singleton.1 hr
      exact hbundle
  · rcases List.mem_append.1 hr with hr | hr
    · exact h.fresh r hr
    · obtain rfl := List.mem_singleton.1 hr
      exact hfresh

/-- **The cloud that is registered belongs to the bundle**, in every run in which a bundle without IMU data or with an
empty scan only comes while `feats_undistort` is empty. -/
theorem registered_fresh {acts : List (LoopAction P W)} {imu : ImuProcess W N}
    (h : Machine.run (loopStep cfg K update) acts (.init imu) = some n)
    (hc : Machine.Along (loopStep cfg K update) Refreshes acts (.init imu)) :
    ∀ r ∈ n.registered, (∃ b ∈ n.sync.bundles, b.meas = r.meas ∧ b.cloud = r.lidar ∧ b.cloud2 = r.lidar2) ∧
      r.cloud = undistortedUnion K r.meas r.lidar r.lidar2 r.before := by
  have hinv := Machine.run_invariant_along (P := LoopInv K) (fun a n n' hc hn ha => ?_) (.init imu) h hc
  · exact fun r hr => ⟨hinv.returned r hr, hinv.fresh r hr⟩
  · cases a with
    | call a => exact hn.call ha
    | bundle =>
      simp only [loopStep] at ha
      split_ifs at ha with hready
      obtain rfl := Option.some.inj ha
      exact hn.bundle hready hc

/-- **A stale cloud is registered** whenever such a bundle comes and `feats_undistort` is not empty. -/
theorem stale_registered (hne : n.featsUndistort ≠ []) (hstale : n.sync.meas.imu = [] ∨
      n.sync.clouds n.sync.meas.lidar.num = [] ∨ n.sync.clouds n.sync.meas.lidar2.num = []) :
    (processBundle K update n).registered.map Registered.cloud = n.registered.map Registered.cloud ++ [n.featsUndistort] := by
  rcases hproc : process K n.sync.meas (n.sync.clouds n.sync.meas.lidar.num) (n.sync.clouds n.sync.meas.lidar2.num) n.imu
    n.featsUndistort with ⟨imu, feats⟩
  have hkept := process_stale (K := K) n.sync.meas (n.sync.clouds n.sync.meas.lidar.num)
    (n.sync.clouds n.sync.meas.lidar2.num) n.featsUndistort n.imu (Or.inr hstale)
  rw [hproc] at hkept
  simp only at hkept
  simp only [processBundle, hproc, hkept]
  rw [if_neg (by simpa using hne)]
  simp only [List.map_append, List.map_cons, List.map_nil]

/-- A sensor that does not move. -/
def still : Kinematics ℤ Unit Unit Unit where
  noData := ()
  reset := id
  firstMean _ := id
  average _ _ := id
  initState := id
  initDone := id
  predict _ _ _ := id
  predictEnd _ := id
  setPose6d t _ := ⟨t, ()⟩
  compensate _ _ _ _ := id
  sort := List.insertionSort fun p q => p.curvature ≤ q.curvature
  sort_perm := List.perm_insertionSort _
  sort_sorted := by
    have : Std.Total fun p q : Point ℤ => p.curvature ≤ q.curvature := ⟨fun p q => le_total p.curvature q.curvature⟩
    have : IsTrans (Point ℤ) fun p q => p.curvature ≤ q.curvature := ⟨fun _ _ _ => le_trans⟩
    exact List.pairwise_insertionSort _

/-- Two scans at a time, with points `x` and `x + 1`. -/
def scansAt (t : ℚ) (x : ℤ) : List (LoopAction ℤ Unit) :=
  [.call (.pcl .livox t [⟨x, 0⟩, ⟨x, 50⟩]), .call (.pcl2 .livox t [⟨x + 1, 0⟩, ⟨x + 1, 50⟩])]

/-- A bundle that ends the initialization, and one that is registered. -/
def startupLoop : List (LoopAction ℤ Unit) :=
  scansAt 10 0 ++ List.replicate 10 (.call (.imu ⟨10, ()⟩)) ++ [.call (.imu ⟨10 + 3 / 25, ()⟩), .call .sync, .bundle] ++
    scansAt (10 + 1 / 10) 10 ++ [.call (.imu ⟨10 + 2 / 5, ()⟩), .call .sync, .bundle]

/-- Then a bundle in a gap of the IMU data: the next sample comes after its end. -/
def gapLoop : List (LoopAction ℤ Unit) := startupLoop ++ scansAt (10 + 1 / 5) 20 ++ [.call .sync, .bundle]

theorem loop_of_any (acts : List (LoopAction ℤ Unit)) {Q : Node ℤ Unit Unit → Bool}
    (h : (Machine.run (loopStep mid360 still fun _ => id) acts (.init (.init still 0 ()))).any Q = true) :
    ∃ n, Machine.run (loopStep mid360 still fun _ => id) acts (.init (.init still 0 ())) = some n ∧ Q n = true :=
  (Option.any_eq_true _ _).1 h

theorem registered_fresh_startup : ∃ n,
    Machine.run (loopStep mid360 still fun _ => id) startupLoop (.init (.init still 0 ())) = some n ∧
    n.registered.length = 1 ∧ ∀ r ∈ n.registered,
      (∃ b ∈ n.sync.bundles, b.meas = r.meas ∧ b.cloud = r.lidar ∧ b.cloud2 = r.lidar2) ∧
      r.cloud = undistortedUnion still r.meas r.lidar r.lidar2 r.before := by
  obtain ⟨n, hn, hq⟩ := loop_of_any startupLoop (Q := fun n => decide (n.registered.length = 1))
    (by decide +kernel)
  have hc : Machine.Along (loopStep mid360 still fun _ => id) Refreshes startupLoop (.init (.init still 0 ())) :=
    Machine.along_of_check (by decide +kernel)
  exact ⟨n, hn, of_decide_eq_true hq, registered_fresh hn hc⟩

/-- **The bundle in the gap is registered with the cloud of the bundle before.** -/
theorem gap_registers_stale : ∃ n,
    Machine.run (loopStep mid360 still fun _ => id) gapLoop (.init (.init still 0 ())) = some n ∧
    ∃ r ∈ n.registered, r.meas.imu = [] ∧ r.lidar = [⟨20, 0⟩, ⟨20, 50⟩] ∧
      r.cloud = [⟨10, 0⟩, ⟨10, 50⟩, ⟨111, 0⟩, ⟨111, 50⟩] ∧
      r.cloud ≠ undistortedUnion still r.meas r.lidar r.lidar2 r.before := by
  obtain ⟨n, hn, hq⟩ := loop_of_any gapLoop (Q := fun n => n.registered.any fun r => decide
    (r.meas.imu = [] ∧ r.lidar = [⟨20, 0⟩, ⟨20, 50⟩] ∧ r.cloud = [⟨10, 0⟩, ⟨10, 50⟩, ⟨111, 0⟩, ⟨111, 50⟩] ∧
      r.cloud ≠ undistortedUnion still r.meas r.lidar r.lidar2 r.before)) (by decide +kernel)
  obtain ⟨r, hr, hq⟩ := List.any_eq_true.1 hq
  exact ⟨n, hn, r, hr, of_decide_eq_true hq⟩

end Agilex.Lio
