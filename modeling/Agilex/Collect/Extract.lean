import Agilex.Collect.ApproxSync
import Agilex.Collect.Projection
import Agilex.Collect.RosImage
import Agilex.Lib.Decimal

/-!
# Extracting a bag

`extractBag` reads the messages of a bag once. Lidar frames go into a sliding buffer, the first camera info is kept, and
images are paired by `ApproxSync`; each pair is a frame, whose files are written and whose poses are looked up.

- a frame that fails is skipped where it fails (`saveFrame`): what was written of it stays;
- files are named after the stamp of the frame (`tsStr`), and writing an image succeeds.
-/

namespace Agilex.Collect

open Agilex.Lib Agilex.Capture Binary64

/-! ## Messages and functions called -/

/-- A lidar frame, as `parse_lidar_msg` returns it. -/
structure LidarFrame (P : Type) where
  stampSec : ℚ
  pts : List P
  frameId : String

/-- The messages of the topics that are read. -/
inductive BagMsg (P : Type) where
  /-- On `/tf` or `/tf_static`. -/
  | tf
  /-- On `/livox/lidar`, with what `parse_lidar_msg` returns. -/
  | lidar (parsed : Option (LidarFrame P))
  | cameraInfo (info : CameraInfo)
  | rgb (msg : Image)
  | depth (msg : Image)

/-- The functions that the extraction calls. -/
structure Calls (P : Type) where
  /-- `cv2.resize` to a width and a height, with `INTER_NEAREST`. -/
  resize : NpArray → ℕ × ℕ → Except PyErr NpArray
  /-- `lookup_pose` from a parent frame to the camera. -/
  lookupPose : String → ℤ → Option Pose
  /-- `tf_buf.lookup_transform_core` from a lidar frame to the camera. -/
  lookupTransform : String → ℤ → Option (Transform ℚ)
  /-- `np.argsort`. -/
  argsort : Argsort ℚ
  /-- `pts[:, :3]` of a point. -/
  xyz : P → Point ℚ

/-- `IMG_SLOP_NS` and `MAX_IMG_BUF` are the defaults of `ApproxSync`. -/
def imgSync : SyncConfig := {}

def MAX_LIDAR_BUF : ℕ := 20

/-- The literal `0.15`. -/
def LIDAR_SLOP : ℚ := rnd (15 / 100)

/-- `stamp.to_sec()`. -/
def toSec (ns : ℤ) : ℚ := add (rnd (ns / 10 ^ 9 : ℤ)) (divFloat (ns % 10 ^ 9) (10 ^ 9))

/-- `f'{stamp.secs}_{stamp.nsecs:09d}'`. -/
def tsStr (ns : ℤ) : String := toString (ns / 10 ^ 9) ++ "_" ++ zeroPad 9 (ns % 10 ^ 9).toNat

/-! ## The state of the scan -/

/-- The files of a directory, by their names without the suffix. -/
abbrev Files (A : Type) := String → Option A

/-- The file is written, over the one that was there. -/
def Files.write {A : Type} (files : Files A) (name : String) (a : A) : Files A := Function.update files name (some a)

/-- A line of a pose file: the stamp of its frame, and the pose, or `nan` throughout. -/
structure TumLine where
  stamp : ℤ
  pose : Option Pose

/-- The local variables of `extract_bag` in its loop, and the output directory. -/
structure Extraction (P : Type) where
  /-- The camera info saved, of which `K`, `img_w` and `img_h` are read. -/
  camera : Option CameraInfo := none
  sync : ApproxSync Image := {}
  lidarBuf : List (LidarFrame P) := []
  frameCnt : ℕ := 0
  odomFail : ℕ := 0
  mapFail : ℕ := 0
  lidarMiss : ℕ := 0
  rgb : Files NpArray := fun _ => none
  depthCamera : Files NpArray := fun _ => none
  lidarPcd : Files (List P) := fun _ => none
  lidarDepth : Files DepthImage := fun _ => none
  posesOdom : List TumLine := []
  posesMap : List TumLine := []

section

variable {P : Type} (D : Calls P)

/-- `(img_w, img_h)`. -/
def imgSize (camera : Option CameraInfo) : ℕ × ℕ := camera.elim (0, 0) fun info => (info.width, info.height)

/-! ## One frame -/

/-- The depth image of a frame: decoded, and resized when it has not the size of the color image. -/
def decodeDepth (size : ℕ × ℕ) (msg : Image) : Except PyErr NpArray := do
  let camD ← rosImageToNumpy msg
  if camD.shape.take 2 ≠ [size.2, size.1] ∧ 0 < size.2 then D.resize camD size else .ok camD

/-- The lidar frame nearest in time, if it is near enough. -/
def nearestLidar (lidarBuf : List (LidarFrame P)) (tsSec : ℚ) : Option (LidarFrame P) :=
  (firstMin (fun x => |sub x.stampSec tsSec|) lidarBuf).filter fun best => |sub best.stampSec tsSec| ≤ LIDAR_SLOP

/-- `np.array(msg.K, dtype=np.float64).reshape(3, 3)`. -/
def cameraMatrix (info : CameraInfo) (i j : Fin 3) : Double := info.K.get ⟨3 * i + j, by omega⟩

/-- `project_lidar_to_depth` with the matrix and the size of a camera info, in exact arithmetic. -/
def projectLidar (pts : List P) (lidarFrame : String) (info : CameraInfo) (stamp : ℤ) : Option DepthImage :=
  let K := fun i j => (cameraMatrix info i j).finite?
  -- with an intrinsic that is not finite no pixel is in the image
  if (intrinsics K).all (·.isSome) then
    projectLidarToDepth (fun i j => (K i j).getD 0) D.argsort (D.lookupTransform lidarFrame stamp) info.width info.height
      (pts.map D.xyz)
  else none

/-- The lidar files of a frame. -/
def saveLidar (s : Extraction P) (stamp : ℤ) : Extraction P :=
  match nearestLidar s.lidarBuf (toSec stamp) with
  | none => { s with lidarMiss := s.lidarMiss + 1 }
  | some lf =>
    let lidarPcd := if lf.pts.isEmpty then s.lidarPcd else s.lidarPcd.write (tsStr stamp) lf.pts
    let ld := s.camera.bind fun info => projectLidar D lf.pts lf.frameId info stamp
    { s with
      lidarPcd := lidarPcd
      lidarDepth := ld.elim s.lidarDepth fun ld => s.lidarDepth.write (tsStr stamp) ld }

/-- The pose lines of a frame, and the counters. -/
def savePoses (s : Extraction P) (stamp : ℤ) : Extraction P :=
  let op := D.lookupPose "odom" stamp
  let mp := D.lookupPose "map" stamp
  { s with
    odomFail := if op.isNone then s.odomFail + 1 else s.odomFail
    mapFail := if mp.isNone then s.mapFail + 1 else s.mapFail
    posesOdom := s.posesOdom ++ [⟨stamp, op⟩]
    posesMap := s.posesMap ++ [⟨stamp, mp⟩]
    frameCnt := s.frameCnt + 1 }

/-- A pair of images: a failure skips the rest. -/
def saveFrame (s : Extraction P) (rgbMsg depthMsg : Image) : Extraction P :=
  let stamp := rgbMsg.header.stamp
  match rosImageToNumpy rgbMsg with
  | .error _ => s
  | .ok rgbImg =>
    let s := { s with rgb := s.rgb.write (tsStr stamp) rgbImg }
    match decodeDepth D (imgSize s.camera) depthMsg with
    | .error _ => s
    | .ok camD =>
      let s := { s with depthCamera := s.depthCamera.write (tsStr stamp) camD }
      savePoses D (saveLidar D s stamp) stamp

/-! ## The loop -/

/-- The stamp that `ApproxSync` reads. -/
def stampOf (msg : Image) : ℤ := msg.header.stamp

/-- An image of either stream. -/
def onImage (s : Extraction P) (msg : Image) (isRgb : Bool) : Extraction P :=
  let (result, sync) := ApproxSync.add imgSync stampOf s.sync msg isRgb
  let s := { s with sync := sync }
  match result with
  | none => s
  | some (rgbMsg, depthMsg) => saveFrame D s rgbMsg depthMsg

/-- The body of the loop. -/
def onMessage (s : Extraction P) : BagMsg P → Extraction P
  | .tf => s
  | .lidar none => s
  | .lidar (some r) =>
    let lidarBuf := s.lidarBuf ++ [r]
    { s with lidarBuf := if MAX_LIDAR_BUF < lidarBuf.length then lidarBuf.drop 1 else lidarBuf }
  | .cameraInfo info => if s.camera.isNone then { s with camera := some info } else s
  | .rgb msg => onImage D s msg true
  | .depth msg => onImage D s msg false

/-- `extract_bag` into an empty directory, with the messages in the order in which they are read. -/
def extractBag (msgs : List (BagMsg P)) : Extraction P := msgs.foldl (onMessage D) {}

end

end Agilex.Collect
