import Agilex.Lib.Machine
import Mathlib.Algebra.Order.Field.Rat
import Mathlib.Algebra.Order.Group.MinMax

/-!
# Bundling two lidars

The callbacks of the bundle node and `sync_packages` in `multi_lidar` mode (`laserMapping_bundle.cpp`). Times are exact;
what a point and an IMU message carry besides their times is left open (`P`, `W`).

- The globals of one lidar are a `Lidar`, so that `lidar_buffer` and `lidar_buffer2` are one field of two of them.
- Clouds are shared and mutated in place: a queue holds names (`Scan`), and `clouds` holds what they name at the moment.
- `front` and `pop_front` of an empty deque are undefined: there the model has no next state.
- `arrived`, `cleared`, `dropped`, `popped` and `bundles` are a history, which the code neither has nor reads.
-/

namespace Agilex.Lio

open Agilex.Lib

/-- A point of a cloud. `curvature` is its time offset, in milliseconds. -/
structure Point (P : Type) where
  pos : P
  curvature : ℚ
deriving DecidableEq, Repr

abbrev Cloud (P : Type) := List (Point P)

/-- A shared pointer to a cloud, named by the message the cloud was made from: how many clouds there were before, the
stamp of the message, and the points it was filled with. -/
structure Scan (P : Type) where
  num : ℕ
  stamp : ℚ
  points : Cloud P
deriving DecidableEq, Repr

structure Imu (W : Type) where
  stamp : ℚ
  data : W
deriving DecidableEq, Repr

structure MeasureGroup (P W : Type) where
  lidarBegTime : ℚ
  lidarBegTime2 : ℚ
  lidarEndTime : ℚ
  lidarEndTime2 : ℚ
  lidar : Scan P
  lidar2 : Scan P
  imu : List (Imu W)
deriving DecidableEq, Repr

/-- The globals of one lidar, and its history: what arrived, what a loop-back clear threw out, what the pairing loop
dropped, and what was popped for a returned bundle. -/
structure Lidar (P : Type) where
  buffer : List (Scan P)
  timeBuffer : List ℚ
  lastTimestamp : ℚ
  endTime : ℚ
  meanScantime : ℚ
  scanNum : ℕ
  arrived : List (Scan P)
  cleared : List (Scan P)
  dropped : List (Scan P)
  popped : List (Scan P)
deriving DecidableEq, Repr

/-- A returned `MeasureGroup`, the clouds it holds at that moment, and the stamp `publish_odometry` gives it. -/
structure Bundle (P W : Type) where
  meas : MeasureGroup P W
  cloud : Cloud P
  cloud2 : Cloud P
  odometryStamp : ℚ
deriving DecidableEq, Repr

structure State (P W : Type) where
  allocated : ℕ
  clouds : ℕ → Cloud P
  lidar : Lidar P
  lidar2 : Lidar P
  imuBuffer : List (Imu W)
  lastTimestampImu : ℚ
  firstLidarScanCheck : Bool
  lidarPushed : Bool
  meas : MeasureGroup P W
  bundles : List (Bundle P W)

/-- `bundle_max_pair_skew`, which `main` checks, and `LiDAR2_wrt_LiDAR1`. -/
structure Params (P : Type) where
  bundleMaxPairSkew : ℚ
  skew_pos : 0 < bundleMaxPairSkew
  lidar2WrtLidar1 : P → P

variable {P W : Type}

def Lidar.init : Lidar P := ⟨[], [], 0, 0, 0, 0, [], [], [], []⟩

/-- The globals at startup. `Measures` holds two empty clouds of its own. -/
def State.init : State P W :=
  { allocated := 2, clouds := fun _ => [], lidar := .init, lidar2 := .init, imuBuffer := [], lastTimestampImu := -1,
    firstLidarScanCheck := false, lidarPushed := false, meas := ⟨0, 0, 0, 0, ⟨0, 0, []⟩, ⟨1, 0, []⟩, []⟩, bundles := [] }

/-! ## The callbacks -/

/-- `lidar loop back, clear buffer`. -/
def Lidar.loopBack (stamp : ℚ) (L : Lidar P) : Lidar P :=
  if stamp < L.lastTimestamp then { L with buffer := [], timeBuffer := [], cleared := L.cleared ++ L.buffer } else L

/-- The part of `standard_pcl_cbk` and `standard_pcl_cbk2` under the lock. -/
def Lidar.standardPcl (scan : Scan P) (L : Lidar P) : Lidar P :=
  let L := L.loopBack scan.stamp
  let L := { L with buffer := L.buffer ++ [scan], timeBuffer := L.timeBuffer ++ [scan.stamp] }
  { L with lastTimestamp := scan.stamp, arrived := L.arrived ++ [scan] }

/-- The part of `livox_pcl_cbk` and `livox_pcl_cbk2` under the lock. -/
def Lidar.livoxPcl (scan : Scan P) (L : Lidar P) : Lidar P :=
  let L := { L.loopBack scan.stamp with lastTimestamp := scan.stamp }
  { L with buffer := L.buffer ++ [scan], timeBuffer := L.timeBuffer ++ [L.lastTimestamp], arrived := L.arrived ++ [scan] }

/-- The scan made of a message whose points are left by `p_pre->process`. -/
def State.newScan (stamp : ℚ) (points : Cloud P) (s : State P W) : Scan P := ⟨s.allocated, stamp, points⟩

def State.pclCbk (cbk : Scan P → Lidar P → Lidar P) (stamp : ℚ) (points : Cloud P) (s : State P W) : State P W :=
  { s with
    allocated := s.allocated + 1, clouds := Function.update s.clouds s.allocated points,
    lidar := cbk (s.newScan stamp points) s.lidar, firstLidarScanCheck := true }

def State.pclCbk2 (cbk : Scan P → Lidar P → Lidar P) (stamp : ℚ) (points : Cloud P) (s : State P W) : State P W :=
  { s with
    allocated := s.allocated + 1, clouds := Function.update s.clouds s.allocated points,
    lidar2 := cbk (s.newScan stamp points) s.lidar2, firstLidarScanCheck := true }

def standardPclCbk (stamp : ℚ) (points : Cloud P) (s : State P W) : State P W := s.pclCbk Lidar.standardPcl stamp points

def standardPclCbk2 (stamp : ℚ) (points : Cloud P) (s : State P W) : State P W := s.pclCbk2 Lidar.standardPcl stamp points

def livoxPclCbk (stamp : ℚ) (points : Cloud P) (s : State P W) : State P W := s.pclCbk Lidar.livoxPcl stamp points

def livoxPclCbk2 (stamp : ℚ) (points : Cloud P) (s : State P W) : State P W := s.pclCbk2 Lidar.livoxPcl stamp points

def imuCbk (msg : Imu W) (s : State P W) : State P W :=
  -- only IMU input before the first scan would be stacked and propagated too far
  if !s.firstLidarScanCheck then s
  else
    let s := if msg.stamp < s.lastTimestampImu then { s with imuBuffer := [] } else s
    { s with lastTimestampImu := msg.stamp, imuBuffer := s.imuBuffer ++ [msg] }

/-! ## `sync_packages` -/

/-- `front` and `pop_front` of `lidar_buffer` and `time_buffer`. -/
def Lidar.popFront (L : Lidar P) : Option (Scan P × ℚ × Lidar P) :=
  match L.buffer, L.timeBuffer with
  | p :: ps, t :: ts => some (p, t, { L with buffer := ps, timeBuffer := ts })
  | _, _ => none

def State.dropScan (s : State P W) : Option (State P W) := do
  let (p, _, L) ← s.lidar.popFront
  return { s with lidar := { L with dropped := L.dropped ++ [p] } }

def State.dropScan2 (s : State P W) : Option (State P W) := do
  let (p, _, L) ← s.lidar2.popFront
  return { s with lidar2 := { L with dropped := L.dropped ++ [p] } }

/-- The pairing loop. Each round removes a stamp, so there are no more rounds than stamps. -/
def dropUnpaired (cfg : Params P) : ℕ → State P W → Option (State P W)
  | 0, s => some s
  | n + 1, s =>
    match s.lidar.timeBuffer, s.lidar2.timeBuffer with
    | t :: _, t2 :: _ =>
      if cfg.bundleMaxPairSkew < |t - t2| then
        (if t < t2 then s.dropScan else s.dropScan2).bind (dropUnpaired cfg n)
      else some s
    | _, _ => some s

/-- The end of a scan that starts at `beg`: that of its last point, or the mean scan time if this is too little. -/
def Lidar.scanEnd (beg : ℚ) (points : Cloud P) (L : Lidar P) : Lidar P :=
  match points.getLast? with
  | none => { L with endTime := beg + L.meanScantime }
  | some last =>
    if points.length ≤ 1 then { L with endTime := beg + L.meanScantime }
    else if last.curvature / 1000 < 1 / 2 * L.meanScantime then { L with endTime := beg + L.meanScantime }
    else
      { L with
        scanNum := L.scanNum + 1, endTime := beg + last.curvature / 1000,
        meanScantime := L.meanScantime + (last.curvature / 1000 - L.meanScantime) / (L.scanNum + 1 : ℕ) }

def transformPointCloud (f : P → P) (c : Cloud P) : Cloud P := c.map fun p => { p with pos := f p.pos }

/-- `for (auto &point : points) point.curvature += offset`. -/
def addOffset (offset : ℚ) (c : Cloud P) : Cloud P := c.map fun p => { p with curvature := p.curvature + offset }

/-- The cloud a pointer names is replaced. -/
def mutate (p : Scan P) (f : Cloud P → Cloud P) (clouds : ℕ → Cloud P) : ℕ → Cloud P :=
  Function.update clouds p.num (f (clouds p.num))

/-- `push a lidar scan`, of the fronts `p` and `p2` of the queues that start at `t` and `t2`. -/
def latch (cfg : Params P) (p : Scan P) (t : ℚ) (p2 : Scan P) (t2 : ℚ) (s : State P W) : State P W :=
  let L := s.lidar.scanEnd t (s.clouds p.num)
  let clouds := mutate p2 (transformPointCloud cfg.lidar2WrtLidar1) s.clouds
  let L2 := s.lidar2.scanEnd t2 (clouds p2.num)
  let bundleStart := min t t2
  let clouds := mutate p (addOffset (1000 * (t - bundleStart))) clouds
  let clouds := mutate p2 (addOffset (1000 * (t2 - bundleStart))) clouds
  { s with
    clouds, lidar := L, lidar2 := L2, lidarPushed := true,
    meas := { s.meas with
      lidarBegTime := t, lidarBegTime2 := t2, lidarEndTime := L.endTime, lidarEndTime2 := L2.endTime,
      lidar := p, lidar2 := p2 } }

def pushScans (cfg : Params P) (s : State P W) : Option (State P W) := do
  let (p, t, _) ← s.lidar.popFront
  let (p2, t2, _) ← s.lidar2.popFront
  return latch cfg p t p2 t2 s

/-- The loop over `imu_buffer`: the samples pushed to `meas.imu` and those left. `imuTime` is the stamp looked at last. -/
def takeImu (endTime endTime2 : ℚ) : ℚ → List (Imu W) → List (Imu W) × List (Imu W)
  | _, [] => ([], [])
  | imuTime, m :: rest =>
    if imuTime < endTime ∨ imuTime < endTime2 then
      if endTime < m.stamp ∧ endTime2 < m.stamp then ([], m :: rest)
      else
        let (taken, left) := takeImu endTime endTime2 m.stamp rest
        (m :: taken, left)
    else ([], m :: rest)

/-- The stamp of the odometry and of the transform (`publish_odometry`). -/
def odometryStamp (s : State P W) : ℚ := max s.lidar.endTime s.lidar2.endTime

/-- The bundle gets its IMU data, where `front` is the oldest sample, and the fronts `p` and `p2` are popped. -/
def deliver (front : Imu W) (p : Scan P) (L : Lidar P) (p2 : Scan P) (L2 : Lidar P) (s : State P W) : State P W :=
  let (taken, left) := takeImu s.lidar.endTime s.lidar2.endTime front.stamp s.imuBuffer
  let meas := { s.meas with imu := taken }
  { s with
    imuBuffer := left, meas, lidarPushed := false,
    lidar := { L with popped := L.popped ++ [p] }, lidar2 := { L2 with popped := L2.popped ++ [p2] },
    bundles := s.bundles ++ [⟨meas, s.clouds meas.lidar.num, s.clouds meas.lidar2.num, odometryStamp s⟩] }

def returnBundle (s : State P W) : Option (State P W) := do
  let front ← s.imuBuffer.head?
  let (p, _, L) ← s.lidar.popFront
  let (p2, _, L2) ← s.lidar2.popFront
  return deliver front p L p2 L2 s

/-- What `sync_packages` does once a bundle is latched. -/
def awaitImu (s : State P W) : Option (Bool × State P W) :=
  if s.lastTimestampImu < s.lidar.endTime ∨ s.lastTimestampImu < s.lidar2.endTime then some (false, s)
  else (returnBundle s).map fun s => (true, s)

def syncPackages (cfg : Params P) (s : State P W) : Option (Bool × State P W) :=
  if s.lidar.buffer.isEmpty || s.lidar2.buffer.isEmpty || s.imuBuffer.isEmpty then some (false, s)
  else if s.lidarPushed then awaitImu s
  else do
    let s ← dropUnpaired cfg (s.lidar.timeBuffer.length + s.lidar2.timeBuffer.length) s
    if s.lidar.buffer.isEmpty || s.lidar2.buffer.isEmpty then return (false, s)
    let s ← pushScans cfg s
    awaitImu s

/-! ## Runs -/

/-- `p_pre->lidar_type` decides which callback a lidar topic has. -/
inductive Driver where
  | standard
  | livox
deriving DecidableEq, Repr

/-- A callback run by `ros::spinOnce`, or a call of `sync_packages` by the main loop. -/
inductive Action (P W : Type) where
  | pcl (driver : Driver) (stamp : ℚ) (points : Cloud P)
  | pcl2 (driver : Driver) (stamp : ℚ) (points : Cloud P)
  | imu (msg : Imu W)
  | sync
deriving Repr

def step (cfg : Params P) : Action P W → State P W → Option (State P W)
  | .pcl .standard stamp points, s => some (standardPclCbk stamp points s)
  | .pcl .livox stamp points, s => some (livoxPclCbk stamp points s)
  | .pcl2 .standard stamp points, s => some (standardPclCbk2 stamp points s)
  | .pcl2 .livox stamp points, s => some (livoxPclCbk2 stamp points s)
  | .imu msg, s => some (imuCbk msg s)
  | .sync, s => (syncPackages cfg s).map Prod.snd

/-- The messages of the first lidar, each with its stamp and what `p_pre->process` leaves of its points. -/
def pclMsgs (acts : List (Action P W)) : List (ℚ × Cloud P) :=
  acts.filterMap fun
    | .pcl _ stamp points => some (stamp, points)
    | _ => none

def pclMsgs2 (acts : List (Action P W)) : List (ℚ × Cloud P) :=
  acts.filterMap fun
    | .pcl2 _ stamp points => some (stamp, points)
    | _ => none

def imuMsgs (acts : List (Action P W)) : List (Imu W) :=
  acts.filterMap fun
    | .imu msg => some msg
    | _ => none

/-- The state after some callbacks and calls, from startup. -/
def Reaches (cfg : Params P) (acts : List (Action P W)) (s : State P W) : Prop :=
  Machine.run (step cfg) acts .init = some s

end Agilex.Lio
