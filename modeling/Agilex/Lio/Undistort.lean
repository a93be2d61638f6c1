import Agilex.Lio.Sync

/-!
# Undistorting the two scans of a bundle

`ImuProcess` (`IMU_Processing.hpp`) in `multi_lidar` mode. The loops, the early returns and what is kept from one bundle to
the next are the code's; the arithmetic of the filter, in floating point, is a parameter (`Kinematics`).

- `process` writes to the cloud it is given only after the initialization, for a bundle with IMU data and two scans that
  are not empty (`process_fresh`, `process_stale`);
- what it writes then is `undistortedUnion`, which has all points of both scans (`undistortedUnion_length`).
-/

namespace Agilex.Lio

variable {P W N M : Type}

/-- `Pose6D`; `motion` is all but the time. -/
structure Pose6D (M : Type) where
  offsetTime : ℚ
  motion : M
deriving DecidableEq, Repr

/-- The arithmetic of the filter on its state and the averages `N`, and `std::sort` with `time_list`. -/
structure Kinematics (P W N M : Type) where
  /-- The data of `sensor_msgs::Imu()`. -/
  noData : W
  /-- `Reset`. -/
  reset : N → N
  /-- The averages start at the first sample. -/
  firstMean : Imu W → N → N
  /-- A round of the loop of `IMU_init`, where this is the `n`th sample. -/
  average : ℕ → Imu W → N → N
  /-- The state of the filter after the loop. -/
  initState : N → N
  /-- The covariances once the initialization is done. -/
  initDone : N → N
  /-- Propagation between two samples. -/
  predict : Imu W → Imu W → ℚ → N → N
  /-- Propagation to the end of the scans. -/
  predictEnd : ℚ → N → N
  /-- `set_pose6d`. -/
  setPose6d : ℚ → N → Pose6D M
  /-- The compensation of a point, between the poses `head` and `tail`. -/
  compensate : Pose6D M → Pose6D M → N → ℚ → P → P
  sort : Cloud P → Cloud P
  sort_perm : ∀ c, (sort c).Perm c
  sort_sorted : ∀ c, (sort c).Pairwise fun p q => p.curvature ≤ q.curvature

structure ImuProcess (W N : Type) where
  bFirstFrame : Bool
  imuNeedInit : Bool
  initIterNum : ℕ
  lastImu : Imu W
  lastLidarEndTime : ℚ
  nav : N
deriving DecidableEq, Repr

def MAX_INI_COUNT : ℕ := 10

variable (K : Kinematics P W N M)

/-- After the constructor, which leaves `last_lidar_end_time_` as it was in memory. -/
def ImuProcess.init (lastLidarEndTime : ℚ) (nav : N) : ImuProcess W N :=
  ⟨true, true, 1, ⟨0, K.noData⟩, lastLidarEndTime, nav⟩

def ImuProcess.reset (ip : ImuProcess W N) : ImuProcess W N :=
  { ip with imuNeedInit := true, initIterNum := 1, lastImu := ⟨0, K.noData⟩, nav := K.reset ip.nav }

/-- `IMU_init`. -/
def imuInit (imu : List (Imu W)) (ip : ImuProcess W N) : ImuProcess W N :=
  let ip :=
    if ip.bFirstFrame then
      let ip := ip.reset K
      { ip with bFirstFrame := false, nav := imu.head?.elim ip.nav fun front => K.firstMean front ip.nav }
    else ip
  let (nav, n) := imu.foldl (fun s m => (K.average s.2 m s.1, s.2 + 1)) (ip.nav, ip.initIterNum)
  { ip with nav := K.initState nav, initIterNum := n, lastImu := imu.getLast?.getD ip.lastImu }

/-- Forward propagation at each IMU sample, and the poses there. -/
def propagate (lastLidarEndTime pclBegTime : ℚ) : List (Imu W) → N → List (Pose6D M) → N × List (Pose6D M)
  | head :: tail :: rest, nav, poses =>
    if tail.stamp < lastLidarEndTime then propagate lastLidarEndTime pclBegTime (tail :: rest) nav poses
    else
      let dt := if head.stamp < lastLidarEndTime then tail.stamp - lastLidarEndTime else tail.stamp - head.stamp
      let nav := K.predict head tail dt nav
      propagate lastLidarEndTime pclBegTime (tail :: rest) nav
        (poses ++ [K.setPose6d (tail.stamp - pclBegTime) nav])
  | _, nav, poses => (nav, poses)

/-- The points after the pose `head`, last first: those left, and those done. At the first point of the cloud the loop
stops with that point left. -/
def compensateAfter (head tail : Pose6D M) (nav : N) : Cloud P → Cloud P → Cloud P × Cloud P
  | [], done => ([], done)
  | p :: rest, done =>
    if head.offsetTime < p.curvature / 1000 then
      let p := { p with pos := K.compensate head tail nav (p.curvature / 1000 - head.offsetTime) p.pos }
      match rest with
      | [] => ([p], done)
      | _ :: _ => compensateAfter head tail nav rest (p :: done)
    else (p :: rest, done)

/-- Backward propagation: the poses, last first, and the points left, last first. -/
def compensateAll (nav : N) : List (Pose6D M) → Cloud P → Cloud P → Cloud P
  | tail :: head :: poses, left, done =>
    let (left, done) := compensateAfter K head tail nav left done
    compensateAll nav (head :: poses) left done
  | _, left, done => left.reverse ++ done

def undistort (nav : N) (poses : List (Pose6D M)) (c : Cloud P) : Cloud P :=
  compensateAll K nav poses.reverse (K.sort c).reverse []

/-- The first part of `UndistortPclMultiLiDAR`: the filter at the end of the scans, and the poses. -/
def propagateToEnd (meas : MeasureGroup P W) (ip : ImuProcess W N) : ImuProcess W N × List (Pose6D M) :=
  let vImu := ip.lastImu :: meas.imu
  let imuEndTime := (vImu.getLast?.getD ip.lastImu).stamp
  let pclBegTime := min meas.lidarBegTime meas.lidarBegTime2
  let pclEndTime := max meas.lidarEndTime meas.lidarEndTime2
  let (nav, poses) := propagate K ip.lastLidarEndTime pclBegTime vImu ip.nav [K.setPose6d 0 ip.nav]
  let note : ℚ := if imuEndTime < pclEndTime then 1 else -1
  let nav := K.predictEnd (note * (pclEndTime - imuEndTime)) nav
  ({ ip with nav, lastImu := meas.imu.getLast?.getD ip.lastImu, lastLidarEndTime := pclEndTime }, poses)

def undistortPclMultiLiDAR (meas : MeasureGroup P W) (lidar lidar2 : Cloud P) (ip : ImuProcess W N) (pclOut : Cloud P) :
    ImuProcess W N × Cloud P :=
  let (ip, poses) := propagateToEnd K meas ip
  if lidar.isEmpty then (ip, pclOut)
  else if lidar2.isEmpty then (ip, pclOut)
  else (ip, undistort K ip.nav poses lidar ++ undistort K ip.nav poses lidar2)

/-- `Process`, for a bundle whose scans are `lidar` and `lidar2`. -/
def process (meas : MeasureGroup P W) (lidar lidar2 : Cloud P) (ip : ImuProcess W N) (curPclUn : Cloud P) :
    ImuProcess W N × Cloud P :=
  if meas.imu.isEmpty then (ip, curPclUn)
  else if ip.imuNeedInit then
    let ip := imuInit K meas.imu ip
    let ip := { ip with imuNeedInit := true, lastImu := meas.imu.getLast?.getD ip.lastImu }
    if MAX_INI_COUNT < ip.initIterNum then ({ ip with imuNeedInit := false, nav := K.initDone ip.nav }, curPclUn)
    else (ip, curPclUn)
  else undistortPclMultiLiDAR K meas lidar lidar2 ip curPclUn

/-! ## What is written -/

/-- Both scans of a bundle, undistorted. -/
def undistortedUnion (meas : MeasureGroup P W) (lidar lidar2 : Cloud P) (ip : ImuProcess W N) : Cloud P :=
  let (ip, poses) := propagateToEnd K meas ip
  undistort K ip.nav poses lidar ++ undistort K ip.nav poses lidar2

variable {K}

theorem compensateAfter_length (head tail : Pose6D M) (nav : N) (left done : Cloud P) :
    (compensateAfter K head tail nav left done).1.length + (compensateAfter K head tail nav left done).2.length =
      left.length + done.length := by
  fun_induction compensateAfter K head tail nav left done with
  | case1 => rfl
  | case2 => rfl
  | case3 p done _ _ _ _ ih =>
    rw [ih]
    simp only [List.length_cons]
    omega
  | case4 => rfl

theorem compensateAll_length (nav : N) (poses : List (Pose6D M)) (left done : Cloud P) :
    (compensateAll K nav poses left done).length = left.length + done.length := by
  fun_induction compensateAll K nav poses left done with
  | case1 tail head poses left done left' done' hsplit ih =>
    have hlen := compensateAfter_length (K := K) head tail nav left done
    rw [hsplit] at hlen
    rw [ih]
    exact hlen
  | case2 => simp

theorem undistort_length (nav : N) (poses : List (Pose6D M)) (c : Cloud P) : (undistort K nav poses c).length = c.length := by
  rw [undistort, compensateAll_length, List.length_reverse, (K.sort_perm c).length_eq, List.length_nil, Nat.add_zero]

theorem undistortedUnion_length (meas : MeasureGroup P W) (lidar lidar2 : Cloud P) (ip : ImuProcess W N) :
    (undistortedUnion K meas lidar lidar2 ip).length = lidar.length + lidar2.length := by
  simp only [undistortedUnion, List.length_append, undistort_length]

variable (meas : MeasureGroup P W) (lidar lidar2 out : Cloud P) (ip : ImuProcess W N)

/-- The initialization, or a bundle without IMU data or with an empty scan: nothing is written. -/
theorem process_stale (h : ip.imuNeedInit = true ∨ meas.imu = [] ∨ lidar = [] ∨ lidar2 = []) :
    (process K meas lidar lidar2 ip out).2 = out := by
  unfold process
  split_ifs with himu hinit
  · rfl
  · simp only
    split_ifs <;> rfl
  · simp only [undistortPclMultiLiDAR]
    rcases h with h | h | h | h
    · exact absurd h hinit
    · exact absurd (List.isEmpty_iff.2 h) himu
    · rw [if_pos (List.isEmpty_iff.2 h)]
    · split_ifs with h1 h2
      · rfl
      · rfl
      · exact absurd (List.isEmpty_iff.2 h) h2

variable {meas lidar lidar2 ip}

/-- **Otherwise both scans are written, undistorted.** -/
theorem process_fresh (hinit : ip.imuNeedInit = false) (himu : meas.imu ≠ []) (hl : lidar ≠ []) (hl2 : lidar2 ≠ []) :
    (process K meas lidar lidar2 ip out).2 = undistortedUnion K meas lidar lidar2 ip := by
  unfold process
  rw [if_neg (by simpa using himu), if_neg (by simp [hinit])]
  simp only [undistortPclMultiLiDAR]
  rw [if_neg (by simpa using hl), if_neg (by simpa using hl2)]
  rfl

variable (meas lidar lidar2)

/-- The initialization is over for good once it is over. -/
theorem process_imuNeedInit (hinit : ip.imuNeedInit = false) :
    (process K meas lidar lidar2 ip out).1.imuNeedInit = false := by
  have hprop : (propagateToEnd K meas ip).1.imuNeedInit = false := by
    simp only [propagateToEnd]
    exact hinit
  unfold process
  split_ifs with himu hneed
  · exact hinit
  · rw [hinit] at hneed
    cases hneed
  · simp only [undistortPclMultiLiDAR]
    split_ifs
    · exact hprop
    · exact hprop
    · exact hprop

end Agilex.Lio
