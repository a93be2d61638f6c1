import Agilex.Capture.Config

/-!
# Messages, topics and records

The ROS messages the recorder reads and writes, with the fields the code reads; stamps are nanoseconds
(`header.stamp.to_nsec()`). The metadata of a frame group, the session and the report travel as JSON strings; they are
kept here as the values the JSON encodes. A `Record` is one message of a bag with its topic and bag time.
-/

namespace Agilex.Capture

open Agilex.Lib Binary64

/-! ## Sensor messages -/

structure Header where
  seq : ℕ := 0
  stamp : ℤ := 0
  frameId : String := ""
  deriving DecidableEq, Repr

structure Image where
  header : Header
  height : ℕ
  width : ℕ
  encoding : String
  isBigendian : ℕ
  step : ℕ
  data : List UInt8
  deriving DecidableEq, Repr

structure RegionOfInterest where
  xOffset : ℕ
  yOffset : ℕ
  height : ℕ
  width : ℕ
  doRectify : Bool
  deriving DecidableEq, Repr

structure CameraInfo where
  header : Header
  height : ℕ
  width : ℕ
  distortionModel : String
  D : List Double
  K : Vector Double 9
  R : Vector Double 9
  P : Vector Double 12
  binningX : ℕ
  binningY : ℕ
  roi : RegionOfInterest
  deriving DecidableEq, Repr

structure Vector3 where
  x : Double
  y : Double
  z : Double
  deriving DecidableEq, Repr

structure Quaternion where
  x : Double
  y : Double
  z : Double
  w : Double
  deriving DecidableEq, Repr

structure Pose where
  position : Vector3
  orientation : Quaternion
  deriving DecidableEq, Repr

structure Odometry where
  header : Header
  childFrameId : String
  pose : Pose
  deriving DecidableEq, Repr

structure TransformStamped where
  header : Header
  childFrameId : String
  translation : Vector3
  rotation : Quaternion
  deriving DecidableEq, Repr

structure PoseStamped where
  header : Header
  pose : Pose
  deriving DecidableEq, Repr

/-! ## Topics -/

/-- The two image streams. -/
inductive Cam where
  | rgb
  | depth
  deriving DecidableEq, Repr

/-- The seven topics of a frame group. -/
inductive GroupTopic where
  | rgb
  | depth
  | rgbInfo
  | depthInfo
  | cameraPose
  | bodyToCamera
  | frame
  deriving DecidableEq, Repr

/-- `GROUP`, in its order. -/
def GROUP : List GroupTopic := [.rgb, .depth, .rgbInfo, .depthInfo, .cameraPose, .bodyToCamera, .frame]

inductive Topic where
  | image (c : Cam)
  | info (c : Cam)
  | odom
  | tf
  | tfStatic
  | session
  | report
  | group (g : GroupTopic)
  | other (name : String)
  deriving DecidableEq, Repr

abbrev RGB : Topic := .image .rgb

def Topic.isGroup : Topic → Bool
  | .group _ => true
  | _ => false

/-- The topic's name in a bag. -/
def Topic.name : Topic → String
  | .image .rgb => "/camera/color/image_raw"
  | .image .depth => "/camera/aligned_depth_to_color/image_raw"
  | .info .rgb => "/camera/color/camera_info"
  | .info .depth => "/camera/aligned_depth_to_color/camera_info"
  | .odom => "/lio/odometry"
  | .tf => "/tf"
  | .tfStatic => "/tf_static"
  | .session => "/dataset/session"
  | .report => "/dataset/report"
  | .group .rgb => "/dataset/rgb/image_raw"
  | .group .depth => "/dataset/depth/image_raw"
  | .group .rgbInfo => "/dataset/rgb/camera_info"
  | .group .depthInfo => "/dataset/depth/camera_info"
  | .group .cameraPose => "/dataset/camera_pose"
  | .group .bodyToCamera => "/dataset/body_to_camera"
  | .group .frame => "/dataset/frame"
  | .other n => n

/-! ## Annotations and records -/

/-- The counters of `Engine.stats`, by their keys. -/
inductive Stat where
  | received (t : Topic)
  | duplicate (t : Topic)
  | sourceSequenceGaps (t : Topic)
  | unpaired (c : Cam)
  | paired
  | rateFiltered
  | dropped (r : DropReason)
  | frames
  deriving DecidableEq, Repr

/-- The JSON of `/dataset/frame`. -/
structure FrameMeta where
  frameIndex : ℕ
  rgbStampNs : ℤ
  depthStampNs : ℤ
  rgbOriginalSeq : ℕ
  depthOriginalSeq : ℕ
  rgbdDeltaNs : ℤ
  poseQueryStampNs : ℤ
  odomBeforeNs : ℤ
  odomAfterNs : ℤ
  interpolationAlpha : ℚ
  rgbInfoOriginalStampNs : ℤ
  depthInfoOriginalStampNs : ℤ
  depthEncoding : String
  depthScaleM : ℚ
  depthValidFraction : ℚ
  cameraFrame : String
  poseConvention : String := "T_world_camera_optical"
  worldFrame : String
  hardwareSyncVerified : Bool := false
  deriving DecidableEq, Repr

/-- The JSON of `/dataset/session`, as far as it is read back. -/
structure Session where
  schemaVersion : ℕ := 1
  config : Config
  rawSensors : Bool
  deriving DecidableEq, Repr

/-- `Engine.report()`, with what `record` adds to it. -/
structure Report where
  counts : Stat → ℕ
  frames : ℕ
  actualRateHz : ℚ
  maxObservedLioArrivalAgeS : ℚ
  firstFrameNs : Option ℤ
  lastFrameNs : Option ℤ
  pending : ℕ
  lastRejection : Option String
  configuration : Config
  status : String := ""
  error : Option String := none
  rawTopicCounts : List (Topic × ℕ) := []

inductive Msg where
  | image (m : Image)
  | cameraInfo (m : CameraInfo)
  | odometry (m : Odometry)
  | transforms (ts : List TransformStamped)
  | pose (m : PoseStamped)
  | transform (m : TransformStamped)
  | metadata (m : FrameMeta)
  | session (m : Session)
  | report (m : Report)
  | raw (data : List UInt8)

structure Record where
  topic : Topic
  msg : Msg
  time : ℤ

end Agilex.Capture
