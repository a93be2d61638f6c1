import Agilex.Lib.Binary64
import Agilex.Capture.Config
import Agilex.Lib.Outcome
import Agilex.Lib.StreamMatch
import Agilex.Capture.Geometry
import Agilex.Capture.Image
import Agilex.Capture.Engine
import Agilex.Capture.EngineRules
import Agilex.Capture.Accounting
import Agilex.Capture.PoseAssociation
import Agilex.Capture.Pairing
import Agilex.Capture.Bag
import Agilex.Capture.Groups
import Agilex.Capture.Agreement
import Agilex.Capture.RecordQueue
import Agilex.Capture.Overflow
import Agilex.Capture.QueueAccounts
import Agilex.Capture.RecordFiles
import Agilex.Capture.Publication
import Agilex.Capture.Reservation
import Agilex.Capture.RateLimit
import Agilex.Capture.Discard
import Agilex.Capture.ExactStamps
import Agilex.Capture.Mounting
import Agilex.Imu.Crc
import Agilex.Imu.Packet
import Agilex.Imu.Framing
import Agilex.Imu.FramingSound
import Agilex.Lib.Traced
import Agilex.Imu.Decode
import Agilex.Imu.DecodeBounds
import Agilex.Imu.ItemFields
import Agilex.Capture.Merge
import Agilex.Lio.Rounds
import Agilex.Lio.Latch
import Agilex.Lio.Fronts
import Agilex.Lio.ImuShare
import Agilex.Lio.EndTimes
import Agilex.Lio.Pairs
import Agilex.Lio.Undistort
import Agilex.Lio.MainLoop
import Agilex.Robot.Keyboard
import Agilex.Capture.Resolution
import Agilex.Capture.OdomTrim
import Agilex.Capture.FrameGrammar
import Agilex.Capture.Export
import Agilex.Capture.ExportMarked
import Agilex.Capture.ImageLayout
import Agilex.Collect.RosImage
import Agilex.Collect.ApproxSync
import Agilex.Collect.Projection
import Agilex.Collect.ProjectionBorder
import Agilex.Collect.Extract
import Agilex.Collect.ExtractInStep
import Agilex.Map.Voxels
import Agilex.Map.Nearest
import Agilex.Map.LocalMap
import Agilex.Map.Threads
import Agilex.Lib.Ring
import Agilex.Livox.Queue
import Agilex.Lib.Framing
import Agilex.Livox.Driver
import Agilex.Livox.Settings
import Agilex.Map.Logger
