import Agilex.Capture.Bag
import Agilex.Lib.Decimal
import Agilex.Lib.Triple

/-!
# Exporting a bag

`export` writes the frames of a validated bag into a new directory: images, `frames.jsonl`, `poses_tum.txt` and
`dataset.json`, or the marker `INCOMPLETE` when an exception ends it.

Every step may raise, before or after it has taken effect, as the environment says (`Fault`): no space, no memory, an
interrupt, a write that OpenCV refuses. The functions of OpenCV are the fields of a `Cv`. JSON lines are kept as the
values they encode, `poses_tum.txt` as the values its lines format.
-/

namespace Agilex.Capture.Export

open Agilex.Lib Binary64

/-! ## The output directory -/

/-- An image as it is stored: its items in row, column and channel order. -/
structure Raster where
  height : ℕ
  width : ℕ
  channels : ℕ
  dtype : Dtype
  items : List ℕ
  deriving DecidableEq, Repr

/-- `np.array(a, copy=True)`, and `astype(a.dtype.newbyteorder('='), copy=True)`: the items, in the byte order of the host. -/
def Raster.copy (a : NDArray) : Raster := ⟨a.height, a.width, a.channels, a.dtype, a.items⟩

/-- The paths in the output directory; the images are named by frame index and stamp. -/
inductive OutPath where
  | root
  | rgbDir
  | depthDir
  | rgb (index : ℕ) (ns : ℤ)
  | depthPng (index : ℕ) (ns : ℤ)
  | depthNpy (index : ℕ) (ns : ℤ)
  | frames
  | poses
  | dataset
  | incomplete
  deriving DecidableEq, Repr

/-- `'%06d_%d' % (meta['frame_index'], ns)`. -/
def frameName (index : ℕ) (ns : ℤ) : String := zeroPad 6 index ++ "_" ++ toString ns

/-- The path as the code writes it. -/
def OutPath.text : OutPath → String
  | .root => ""
  | .rgbDir => "rgb"
  | .depthDir => "depth"
  | .rgb index ns => "rgb/" ++ frameName index ns ++ ".png"
  | .depthPng index ns => "depth/" ++ frameName index ns ++ ".png"
  | .depthNpy index ns => "depth/" ++ frameName index ns ++ ".npy"
  | .frames => "frames.jsonl"
  | .poses => "poses_tum.txt"
  | .dataset => "dataset.json"
  | .incomplete => "INCOMPLETE"

/-- A line of `frames.jsonl`: the annotation of the frame and what `meta.update` adds. -/
structure FrameLine where
  annotation : FrameMeta
  rgbPath : String
  depthPath : String
  rectified : Bool
  tWorldCamera : Mat
  tBodyCamera : Mat
  originalCameraInfo : Calibration
  exportedCameraInfo : Calibration

/-- A line of `poses_tum.txt`: the stamp of the frame and the camera pose. -/
structure PoseLine where
  ns : ℤ
  pose : Pose
  deriving DecidableEq, Repr

/-- What `dataset.json` holds. -/
structure DatasetInfo where
  session : Session
  validation : CheckResult
  rectified : Bool
  sourceBag : String
  depthResampling : String

inductive Entry where
  | dir
  | png (image : Raster)
  | npy (image : Raster)
  | frames (lines : List FrameLine)
  /-- `poses_tum.txt`, with or without its comment line. -/
  | poses (comment : Bool) (lines : List PoseLine)
  | dataset (info : DatasetInfo)
  | marker (text : String)

/-- The output directory: what is at each path. -/
abbrev OutDir := OutPath → Option Entry

namespace OutDir

/-- Nothing is there. -/
def absent : OutDir := fun _ => none

def put (out : OutDir) (q : OutPath) (x : Entry) : OutDir := fun q' => if q' = q then some x else out q'

/-- A line is appended to `frames.jsonl`. -/
def writeFrame (out : OutDir) (line : FrameLine) : OutDir :=
  match out .frames with
  | some (.frames lines) => out.put .frames (.frames (lines ++ [line]))
  | _ => out

/-- The comment of `poses_tum.txt` is written. -/
def writeComment (out : OutDir) : OutDir :=
  match out .poses with
  | some (.poses _ lines) => out.put .poses (.poses true lines)
  | _ => out

/-- A line is appended to `poses_tum.txt`. -/
def writePose (out : OutDir) (line : PoseLine) : OutDir :=
  match out .poses with
  | some (.poses comment lines) => out.put .poses (.poses comment (lines ++ [line]))
  | _ => out

end OutDir

/-! ## Steps that may raise -/

/-- The steps for one frame. -/
inductive FrameStep where
  | read
  | decode
  | convert
  | rectify
  | remap
  | writeColor
  | writeDepth
  | writePose
  | annotate
  | writeFrame
  deriving DecidableEq, Repr

/-- The steps of `export`, those of the frames by their position in the bag. -/
inductive Step where
  | exists
  | check
  | mkdirOut
  | mkdirRgb
  | mkdirDepth
  | openBag
  | openFrames
  | openPoses
  | readSession
  | writeComment
  | frame (k : ℕ) (s : FrameStep)
  | closePoses
  | closeFrames
  | closeBag
  | writeDataset
  | writeMarker
  | print
  deriving DecidableEq, Repr

/-- Whether a step raises, before or after it has taken effect. -/
inductive Fault where
  | none
  | before
  | after
  deriving DecidableEq, Repr

inductive Exn where
  | fileExists
  /-- Raised by the code, or by the functions it calls, on the data. -/
  | py (err : PyErr)
  /-- Raised by the environment. -/
  | fault
  deriving DecidableEq, Repr

/-- A program that works on the output directory; an exception comes with the step that raised it. -/
abbrev M := EStateM (Step × Exn) OutDir

/-- The functions of OpenCV. -/
structure Cv (Maps : Type) where
  rgb2bgr : Raster → Raster
  rgba2bgra : Raster → Raster
  /-- `initUndistortRectifyMap(k, d, np.eye(3), k, (width, height), CV_32FC1)`. -/
  initUndistortRectifyMap : List Double → List Double → ℕ × ℕ → Maps
  /-- `fisheye.initUndistortRectifyMap`, with the same arguments. -/
  fisheyeInitUndistortRectifyMap : List Double → List Double → ℕ × ℕ → Maps
  /-- `remap` with `INTER_LINEAR`, and with `INTER_NEAREST`. -/
  remapLinear : Raster → Maps → Raster
  remapNearest : Raster → Maps → Raster

section

variable {Maps α : Type} (D : Deps) (cv : Cv Maps) (env : Step → Fault)

/-- A step with an effect on the output directory. -/
def perform (s : Step) (f : OutDir → OutDir) : M Unit :=
  match env s with
  | .none => modify f
  | .before => throw (s, .fault)
  | .after => do
    modify f
    throw (s, .fault)

/-- A step that computes a value. -/
def attempt (s : Step) (x : Except PyErr α) : M α :=
  match env s with
  | .none =>
    match x with
    | .ok a => pure a
    | .error err => throw (s, .py err)
  | _ => throw (s, .fault)

/-- The `with` statement over one open file: it is closed whether or not the body raises. -/
def closing (s : Step) (body : M α) : M α := do
  let a ← tryCatch body fun e => do
    perform env s id
    throw e
  perform env s id
  pure a

/-! ## Frames -/

/-- `rectify_maps`, which reads only what `calibration` keeps of the camera info. -/
def rectifyMaps (info : Calibration) : Except PyErr Maps :=
  if info.distortionModel = "plumb_bob" ∨ info.distortionModel = "rational_polynomial" then
    .ok (cv.initUndistortRectifyMap info.K info.D (info.width, info.height))
  else if info.distortionModel = "equidistant" ∧ info.D.length = 4 then
    .ok (cv.fisheyeInitUndistortRectifyMap info.K info.D (info.width, info.height))
  else .error (.value ("Unsupported distortion model for rectification: " ++ info.distortionModel))

/-- The conversion of a decoded color image for `imwrite`. -/
def convertColor (encoding : String) (color : Raster) : Raster :=
  if encoding = "rgb8" then cv.rgb2bgr color else if encoding = "rgba8" then cv.rgba2bgra color else color

/-- `np.column_stack((np.array(ci.K).reshape(3, 3), np.zeros(3)))`, row by row. -/
def rectifiedP (K : List Double) : List Double :=
  (List.range 3).flatMap fun i => (K.drop (3 * i)).take 3 ++ [.fin 0]

/-- The calibration of rectified images. -/
def rectifiedCalibration (info : Calibration) : Calibration :=
  { info with D := List.replicate 5 (.fin 0), distortionModel := "plumb_bob", R := eye3.map .fin, P := rectifiedP info.K }

/-- The floats of a calibration. -/
def calibrationFloats (info : Calibration) : List Double := info.K ++ info.D ++ info.R ++ info.P

/-- `json.dumps(meta, allow_nan=False)`. -/
def dumps (line : FrameLine) : Except PyErr FrameLine :=
  match allFinite (calibrationFloats line.originalCameraInfo ++ calibrationFloats line.exportedCameraInfo) with
  | some _ => .ok line
  | none => .error (.value "Out of range float values are not JSON compliant")

/-- The loop variables `previous_calibration` and `maps`. -/
abbrev LoopVars (Maps : Type) := Option (Calibration × Maps)

/-- The maps of the frame: computed again only when the calibration changes. -/
def currentMaps (k : ℕ) (original : Calibration) (vars : LoopVars Maps) : M Maps :=
  match vars with
  | some (previous, maps) =>
    if original ≠ previous then attempt env (.frame k .rectify) (rectifyMaps cv original) else pure maps
  | none => attempt env (.frame k .rectify) (rectifyMaps cv original)

/-- The images and the calibration of the frame, rectified or as they are. -/
def rectifyFrame (rectify : Bool) (k : ℕ) (original : Calibration) (color depth : Raster) (vars : LoopVars Maps) :
    M (Raster × Raster × Calibration × LoopVars Maps) :=
  if rectify then do
    let maps ← currentMaps cv env k original vars
    let color ← attempt env (.frame k .remap) (.ok (cv.remapLinear color maps))
    let depth ← attempt env (.frame k .remap) (.ok (cv.remapNearest depth maps))
    pure (color, depth, rectifiedCalibration original, some (original, maps))
  else pure (color, depth, original, vars)

/-- The body of the loop over the frames, for the frame at position `k`. -/
def exportFrame (rectify : Bool) (k : ℕ) (ns : ℤ) (group : GroupDict) (vars : LoopVars Maps) : M (LoopVars Maps) := do
  let g ← attempt env (.frame k .read) group.read
  let color ← attempt env (.frame k .decode) ((imageArray g.rgb).map Raster.copy)
  let depth ← attempt env (.frame k .decode) ((imageArray g.dep).map Raster.copy)
  let color ← attempt env (.frame k .convert) (.ok (convertColor cv g.rgb.encoding color))
  let original := calibration g.ci
  let (color, depth, exported, vars) ← rectifyFrame cv env rectify k original color depth vars
  let index := g.metadata.frameIndex
  let rgbPath := OutPath.rgb index ns
  perform env (.frame k .writeColor) (·.put rgbPath (.png color))
  let depthPath := if g.dep.encoding = "16UC1" then OutPath.depthPng index ns else OutPath.depthNpy index ns
  perform env (.frame k .writeDepth)
    (·.put depthPath (if g.dep.encoding = "16UC1" then .png depth else .npy depth))
  perform env (.frame k .writePose) (·.writePose ⟨ns, g.pose.pose⟩)
  let tWorldCamera ← attempt env (.frame k .annotate) (poseMatrix D.num g.pose.pose)
  let tBodyCamera ← attempt env (.frame k .annotate) (transformMatrix D.num g.ext)
  let line ← attempt env (.frame k .annotate)
    (dumps ⟨g.metadata, rgbPath.text, depthPath.text, rectify, tWorldCamera, tBodyCamera, original, exported⟩)
  perform env (.frame k .writeFrame) (·.writeFrame line)
  pure vars

/-- The loop over `frame_groups`, from position `k`; `err` is the exception that ends the generator. -/
def exportFrames (rectify : Bool) (err : Option PyErr) : ℕ → List (ℤ × GroupDict) → LoopVars Maps → M Unit
  | k, [], _ =>
    match err with
    | some e => throw (.frame k .read, .py e)
    | none => pure ()
  | k, (ns, group) :: groups, vars => do
    let vars ← exportFrame D cv env rectify k ns group vars
    exportFrames rectify err (k + 1) groups vars

/-! ## `export` -/

/-- The files written while the bag is open. -/
def exportFiles (bag : Bag) (rectify : Bool) : M Session := do
  perform env .openBag id
  closing env .closeBag do
    perform env .openFrames (·.put .frames (.frames []))
    closing env .closeFrames do
      perform env .openPoses (·.put .poses (.poses false []))
      closing env .closePoses do
        let session ← attempt env .readSession (readSession bag)
        perform env .writeComment (·.writeComment)
        let (groups, err) := frameGroups bag
        exportFrames D cv env rectify err 0 groups none
        pure session

/-- The `try` block. -/
def exportDataset (bag : Bag) (rectify : Bool) (source : String) (validation : CheckResult) : M Unit := do
  let session ← exportFiles D cv env bag rectify
  perform env .writeDataset
    (·.put .dataset (.dataset ⟨session, validation, rectify, source, if rectify then "nearest" else "none"⟩))

/-- `export`. -/
def exportBag (bag : Bag) (rectify : Bool) (source : String) : M Unit := do
  let out ← get
  if (out .root).isSome then throw (.exists, .fileExists)
  else do
    let validation ← attempt env .check (checkBag D bag)
    perform env .mkdirOut (·.put .root .dir)
    perform env .mkdirRgb (·.put .rgbDir .dir)
    perform env .mkdirDepth (·.put .depthDir .dir)
    tryCatch (exportDataset D cv env bag rectify source validation) fun e => do
      perform env .writeMarker (·.put .incomplete (.marker "Export failed; do not use as a complete dataset.\n"))
      throw e
    perform env .print id

end

end Agilex.Capture.Export
