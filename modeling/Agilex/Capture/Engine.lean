import Agilex.Capture.Image
import Agilex.Lib.Sequence

/-!
# The association engine

`Engine` with `ingest`, `_pair`, `drain`, `_make_group` and `report`. A method returns the engine it leaves, or the
exception it raised together with the engine as it then stood. `trace` is the history of the engine: what its writer was
given and what became of every image; no method reads it.

Third-party functions come as parameters: the `Numerics` of `Geometry.lean` and `lookup_transform_core` of tf2, a
function of the static transforms set so far.
-/

namespace Agilex.Capture

open Agilex.Lib Binary64

/-! ## Groups -/

/-- The seven messages of a frame group. -/
structure Group where
  rgb : Image
  dep : Image
  ci : CameraInfo
  di : CameraInfo
  pose : PoseStamped
  ext : TransformStamped
  metadata : FrameMeta
  deriving DecidableEq, Repr

def Group.msg (g : Group) : GroupTopic → Msg
  | .rgb => .image g.rgb
  | .depth => .image g.dep
  | .rgbInfo => .cameraInfo g.ci
  | .depthInfo => .cameraInfo g.di
  | .cameraPose => .pose g.pose
  | .bodyToCamera => .transform g.ext
  | .frame => .metadata g.metadata

/-- The records `drain` writes for a group, all at the RGB stamp. -/
def Group.records (g : Group) (ns : ℤ) : List Record := GROUP.map fun t => ⟨.group t, g.msg t, ns⟩

/-! ## State -/

/-- The third-party functions the engine calls. -/
structure Deps where
  num : Numerics
  /-- `lookup_transform_core(target, source, Time())` after the given `set_transform_static` calls. -/
  lookupTransform : List TransformStamped → String → String → Except Tf2Error TransformStamped

/-- What happens in an engine, in order. -/
inductive Event where
  /-- An image joins its buffer. -/
  | buffered (c : Cam) (m : Image)
  /-- An image leaves a full buffer. -/
  | evicted (c : Cam) (m : Image)
  /-- `_pair` forms a pair. -/
  | paired (rgb dep : Image)
  /-- The rate limit refuses the pair just formed. -/
  | rateFiltered (rgb dep : Image)
  /-- The pair just formed is queued. -/
  | queued (rgb dep : Image)
  /-- `_pair` gives an image up. -/
  | unpaired (c : Cam) (m : Image)
  /-- An odometry sample is accepted. -/
  | odometry (m : Odometry)
  /-- A queued frame is dropped. -/
  | dropped (r : DropReason) (rgb dep : Image)
  /-- The group of a queued frame is about to be written. -/
  | emitted (rgb dep : Image) (g : Group)
  /-- `interpolate` is called. -/
  | interpolating (a b : Odometry) (target : ℤ)
  /-- The writer is called. -/
  | written (r : Record)

/-- A frame waiting for its group: the images and the wall time of queueing. -/
structure Pending where
  rgb : Image
  dep : Image
  queued : ℚ
  deriving DecidableEq, Repr

structure Engine where
  stats : Stat → ℕ := fun _ => 0
  images : Cam → List Image := fun _ => []
  infos : Cam → List CameraInfo := fun _ => []
  odoms : List Odometry := []
  pending : List Pending := []
  last : Topic → Option ℤ := fun _ => none
  lastSeq : Topic → Option ℕ := fun _ => none
  nextDue : Option ℤ := none
  static : Dict String TransformStamped := []
  tf : List TransformStamped := []
  firstFrameNs : Option ℤ := none
  lastFrameNs : Option ℤ := none
  latestFrameWall : Option ℚ := none
  maxLioAge : ℚ := 0
  lastError : Option String := none
  acceptedExtrinsic : Option Mat := none
  trace : List Event := []

/-- The engine as `__init__` leaves it. -/
def Engine.init : Engine := {}

/-- The engine a method leaves, or its exception. -/
abbrev Res := Except (PyErr × Engine) Engine

namespace Engine

/-- `self.stats[k] += n`. -/
def add (e : Engine) (k : Stat) (n : ℕ) : Engine :=
  { e with stats := fun k' => if k' = k then e.stats k + n else e.stats k' }

def inc (e : Engine) (k : Stat) : Engine := e.add k 1

def log (e : Engine) (ev : Event) : Engine := { e with trace := e.trace ++ [ev] }

/-- `self.write(topic, msg, ns)`. -/
def write (e : Engine) (topic : Topic) (msg : Msg) (ns : ℤ) : Engine := e.log (.written ⟨topic, msg, ns⟩)

def setImages (e : Engine) (c : Cam) (l : List Image) : Engine :=
  { e with images := fun c' => if c' = c then l else e.images c' }

/-- An exception, with the engine as it stands. -/
def raise (e : Engine) {α : Type} (err : PyErr) : Except (PyErr × Engine) α := .error (err, e)

/-- A computation without effect on the engine; its exception leaves the engine as it stands. -/
def lift (e : Engine) {α : Type} (x : Except PyErr α) : Except (PyErr × Engine) α :=
  match x with
  | .ok a => .ok a
  | .error err => .error (err, e)

end Engine

/-! ## Pairing -/

/-- The next due time after a pair at `t`: the first of `due + k * period` beyond `t`. -/
def advanceDue (due t period : ℤ) : ℤ := due + ((t - due).fdiv period + 1) * period

namespace Engine

variable (cfg : Config)

/-- A frame joins the queue, and the next one is due at `due`. -/
def enqueue (due : ℤ) (p : Pending) (e : Engine) : Engine :=
  ({ e with nextDue := some due, pending := e.pending ++ [p] } : Engine).log (.queued p.rgb p.dep)

/-- The pair just formed at `t` is refused by the rate limit, or queued. -/
def select (wall : ℚ) (rgb dep : Image) (e : Engine) : Res :=
  let t := rgb.header.stamp
  if e.nextDue.any (t < ·) then .ok ((e.inc .rateFiltered).log (.rateFiltered rgb dep))
  else do
    let period ← e.lift (pyInt (div (10 ^ 9) cfg.rate))
    let due := e.nextDue.getD t
    let e := { e with nextDue := some due }
    if period = 0 then e.raise .zeroDivision
    else .ok (e.enqueue (advanceDue due t period) ⟨rgb, dep, wall⟩)

/-- The pair leaves its buffers, which keep `a` and `b`. -/
def takePair (rgb dep : Image) (a b : List Image) (e : Engine) : Engine :=
  (((e.setImages .rgb a).setImages .depth b).inc .paired).log (.paired rgb dep)

/-- The oldest image of a buffer is given up; the buffer keeps `rest`. -/
def giveUp (c : Cam) (m : Image) (rest : List Image) (e : Engine) : Engine :=
  ((e.setImages c rest).inc (.unpaired c)).log (.unpaired c m)

/-- One turn of the loop of `_pair`, with `rgb :: a` and `b₀ :: b` buffered. -/
def pairStep (slop : ℤ) (wall : ℚ) (rgb : Image) (a : List Image) (b₀ : Image) (b : List Image) (e : Engine) : Res :=
  let t := rgb.header.stamp
  -- Exact match first, otherwise nearest currently buffered depth.
  let index := argminIdx (fun m => |m.header.stamp - t|) (b₀ :: b)
  let dep := (b₀ :: b).getD index b₀
  if |dep.header.stamp - t| ≤ slop then select cfg wall rgb dep (e.takePair rgb dep a ((b₀ :: b).eraseIdx index))
  else if b₀.header.stamp < t - slop then .ok (e.giveUp .depth b₀ b)
  else .ok (e.giveUp .rgb rgb a)

/-- The loop of `_pair`; every turn takes at least one image out of a buffer. -/
def pairLoop (slop : ℤ) (wall : ℚ) : ℕ → Engine → Res
  | 0, e => .ok e
  | n + 1, e =>
    match e.images .rgb, e.images .depth with
    | rgb :: a, b₀ :: b => pairStep cfg slop wall rgb a b₀ b e >>= pairLoop slop wall n
    | _, _ => .ok e

/-- `_pair`. -/
def pair (wall : ℚ) (e : Engine) : Res := do
  let slop ← e.lift (pyInt (mul cfg.rgbdSlop (10 ^ 9)))
  pairLoop cfg slop wall ((e.images .rgb).length + (e.images .depth).length) e

end Engine

/-! ## Frame groups -/

/-- The two odometry samples around `target`: the search of `_make_group`. -/
def bracket (cfg : Config) (odoms : List Odometry) (target : ℤ) : Except DropReason (Odometry × Odometry) :=
  let times := odoms.map fun m => m.header.stamp
  let j := bisectLeft times target
  let j := if j = 0 ∧ 2 ≤ times.length ∧ times.head? = some target then 1 else j
  if j = 0 then .error .noBracketingOdometry
  else
    match odoms[j - 1]?, odoms[j]? with
    | some a, some b =>
      if cfg.maxOdomGap < divFloat (b.header.stamp - a.header.stamp) (10 ^ 9) then .error .odometryGap
      else .ok (a, b)
    | _, _ => .error .noBracketingOdometry

/-- The latest of the candidates, the first of several. -/
def latestInfo : List CameraInfo → Option CameraInfo
  | [] => none
  | m :: ms => some (ms.foldl (fun best m => if best.header.stamp < m.header.stamp then m else best) m)

namespace Engine

variable (D : Deps) (cfg : Config)

/-- `_info`. -/
def info (c : Cam) (t : ℤ) (e : Engine) : Except PyErr CameraInfo := do
  let slop ← pyInt (mul cfg.rgbdSlop (10 ^ 9))
  match latestInfo ((e.infos c).filter fun m => m.header.stamp ≤ t + slop) with
  | some m => .ok m
  | none => .error (.lookup .missingCameraInfo)

/-- The extrinsic of the frame, as a message. -/
def lookupExtrinsic (e : Engine) : Except PyErr TransformStamped :=
  match D.lookupTransform e.tf cfg.body cfg.optical with
  | .ok t => .ok t
  | .error .other => .error (.tf2 .other)
  | .error _ => .error (.lookup .missingStaticExtrinsics)

/-- What the group holds once its parts are found. -/
def assemble (e : Engine) (rgb dep : Image) (target : ℤ) (a b : Odometry) (ci di : CameraInfo) (valid : ℚ)
    (ext : TransformStamped) (matrixExt : Mat) (body : FloatMat) (alpha : ℚ) : Group :=
  let ns := rgb.header.stamp
  let index := e.stats .frames
  { rgb := { rgb with header := { rgb.header with seq := index } }
    dep := { dep with header := { dep.header with seq := index } }
    ci := { ci with header := { ci.header with seq := index, stamp := rgb.header.stamp } }
    di := { di with header := { di.header with seq := index, stamp := dep.header.stamp } }
    pose := ⟨⟨index, ns, cfg.world⟩, cameraPose D.num (D.num.matmul body matrixExt)⟩
    ext := { ext with header := { ext.header with seq := index, stamp := ns } }
    metadata :=
      { frameIndex := index, rgbStampNs := ns, depthStampNs := dep.header.stamp, rgbOriginalSeq := rgb.header.seq
        depthOriginalSeq := dep.header.seq, rgbdDeltaNs := dep.header.stamp - ns, poseQueryStampNs := target
        odomBeforeNs := a.header.stamp, odomAfterNs := b.header.stamp, interpolationAlpha := alpha
        rgbInfoOriginalStampNs := ci.header.stamp, depthInfoOriginalStampNs := di.header.stamp
        depthEncoding := dep.encoding, depthScaleM := if dep.encoding = "16UC1" then cfg.depthScale else 1
        depthValidFraction := valid, cameraFrame := cfg.optical, worldFrame := cfg.world } }

/-- `_make_group`; it may set the accepted extrinsic of the engine. -/
def makeGroup (rgb dep : Image) (e : Engine) : Except (PyErr × Engine) (Group × Engine) := do
  let ns := rgb.header.stamp
  let offset ← e.lift (pyRound (mul cfg.cameraTimeOffset (10 ^ 9)))
  let target := ns + offset
  let (a, b) ← e.lift ((bracket cfg e.odoms target).mapError .lookup)
  let ci ← e.lift (e.info cfg .rgb ns)
  let di ← e.lift (e.info cfg .depth dep.header.stamp)
  let valid ← e.lift (validateRgbd rgb dep ci di cfg.optical)
  if valid = 0 then e.raise (.value "Depth has no valid pixels")
  else do
    let ext ← e.lift (e.lookupExtrinsic D cfg)
    -- An accepted session must retain the same body-to-camera geometry.
    let matrixExt ← e.lift (transformMatrix D.num ext)
    if e.acceptedExtrinsic.any fun m => ¬allclose (lit (1 / 10 ^ 8)) matrixExt m then
      e.raise (.runtime "Body-to-camera extrinsics changed during recording; start a new bag")
    else do
      let e := ({ e with acceptedExtrinsic := some matrixExt } : Engine).log (.interpolating a b target)
      let (body, alpha) ← e.lift (interpolate D.num a b target)
      .ok (e.assemble D cfg rgb dep target a b ci di valid ext matrixExt body alpha, e)

/-! ## Draining -/

/-- The head of the queue is dropped. -/
def drop (p : Pending) (rest : List Pending) (r : DropReason) (text : String) (e : Engine) : Engine :=
  (({ e with lastError := some text, pending := rest } : Engine).inc (.dropped r)).log (.dropped r p.rgb p.dep)

/-- The head of the queue is emitted. -/
def emit (wall : ℚ) (p : Pending) (rest : List Pending) (g : Group) (e : Engine) : Engine :=
  let ns := p.rgb.header.stamp
  let e := ({ e with pending := rest } : Engine).log (.emitted p.rgb p.dep g)
  let e := (g.records ns).foldl (fun e r => e.write r.topic r.msg r.time) e
  { e.inc .frames with
    firstFrameNs := some (e.firstFrameNs.getD ns), lastFrameNs := some ns, latestFrameWall := some wall }

/-- One turn of the loop of `drain`, with `p :: rest` queued: the engine, and whether the loop goes on. -/
def drainStep (wall : ℚ) (final : Bool) (p : Pending) (rest : List Pending) (e : Engine) :
    Except (PyErr × Engine) (Engine × Bool) :=
  match makeGroup D cfg p.rgb p.dep e with
  | .ok (g, e) => .ok (emit wall p rest g e, true)
  | .error (.lookup r, e) =>
    if ¬final ∧ sub wall p.queued < cfg.wait then .ok (e, false) else .ok (drop p rest r r.text e, true)
  | .error (.value msg, e) => .ok (drop p rest .invalidRgbd msg e, true)
  | .error (err, e) => .error (err, e)

/-- The loop of `drain` on the queue `pending`. -/
def drainLoop (wall : ℚ) (final : Bool) : List Pending → Engine → Res
  | [], e => .ok e
  | p :: rest, e => do
    let (e, go) ← drainStep D cfg wall final p rest e
    if go then drainLoop wall final rest e else .ok e

/-- `drain`. -/
def drain (wall : ℚ) (final : Bool) (e : Engine) : Res := drainLoop D cfg wall final e.pending e

end Engine

/-! ## Ingesting -/

/-- What arrives on a topic. -/
inductive Input where
  | image (c : Cam) (m : Image)
  | info (c : Cam) (m : CameraInfo)
  | odom (m : Odometry)
  | tf (ts : List TransformStamped)
  | tfStatic (ts : List TransformStamped)
  | other (name : String) (data : List UInt8)
  deriving DecidableEq, Repr

namespace Input

def topic : Input → Topic
  | .image c _ => .image c
  | .info c _ => .info c
  | .odom _ => .odom
  | .tf _ => .tf
  | .tfStatic _ => .tfStatic
  | .other n _ => .other n

/-- The header of the topics whose clock is checked: RGB, DEPTH, ODOM. -/
def sourceHeader : Input → Option Header
  | .image _ m => some m.header
  | .odom m => some m.header
  | _ => none

/-- Whether `ingest` drains after the input. -/
def drains : Input → Bool
  | .tf _ | .other _ _ => false
  | _ => true

end Input

/-- Keep the last `n` elements, as a `deque(maxlen=n)` after an append. -/
def keepLast {α : Type} (n : ℕ) (l : List α) : List α := l.drop (l.length - n)

/-- The trimming loop of the odometry buffer. -/
def trimOdoms (cutoff : ℤ) : List Odometry → List Odometry
  | a :: b :: l =>
    if 2 < (a :: b :: l).length ∧ (b.header.stamp < cutoff ∨ 2000 < (a :: b :: l).length) then
      trimOdoms cutoff (b :: l)
    else a :: b :: l
  | l => l

namespace Engine

variable (D : Deps) (cfg : Config)

/-- The source clock of a topic advances: last stamp, sequence gap, last sequence number. -/
def noteSource (topic : Topic) (h : Header) (e : Engine) : Engine :=
  let e := { e with last := fun t => if t = topic then some h.stamp else e.last t }
  let e :=
    match e.lastSeq topic with
    | some previous => if previous + 1 < h.seq then e.add (.sourceSequenceGaps topic) (h.seq - previous - 1) else e
    | none => e
  { e with lastSeq := fun t => if t = topic then some h.seq else e.lastSeq t }

/-- An image is appended to its buffer; a full buffer loses its oldest. -/
def bufferImage (c : Cam) (m : Image) (e : Engine) : Engine :=
  let e := (e.setImages c (e.images c ++ [m])).log (.buffered c m)
  match e.images c with
  | old :: rest =>
    if cfg.imageBuffer < (old :: rest).length then
      ((e.setImages c rest).inc (.unpaired c)).log (.evicted c old)
    else e
  | [] => e

/-- The ODOM branch of `ingest`. -/
def ingestOdom (m : Odometry) (arrivalNs : ℤ) (e : Engine) : Res :=
  if m.header.frameId ≠ cfg.world ∨ m.childFrameId ≠ cfg.body then
    e.raise (.value "Odometry frame changed or does not match configuration")
  else do
    let _ ← e.lift (poseMatrix D.num m.pose)
    let e := ({ e with odoms := e.odoms ++ [m] } : Engine).log (.odometry m)
    -- Time and count limits prevent indefinite growth under bad clocks.
    let keep ← e.lift (pyInt (mul (Binary64.add cfg.wait 2) (10 ^ 9)))
    let e := { e with odoms := trimOdoms (m.header.stamp - keep) e.odoms }
    let e := { e with maxLioAge := max e.maxLioAge (divFloat (arrivalNs - m.header.stamp) (10 ^ 9)) }
    .ok (e.write .odom (.odometry m) arrivalNs)

/-- The loop over the transforms of a `/tf_static` message. -/
def setStatics : List TransformStamped → Engine → Res
  | [], e => .ok e
  | t :: ts, e => do
    let _ ← e.lift (transformMatrix D.num t)
    if t.header.frameId = "" ∨ t.childFrameId = "" ∨ t.header.frameId = t.childFrameId then
      e.raise (.value "Invalid static transform")
    else setStatics ts { e with static := e.static.set t.childFrameId t, tf := e.tf ++ [t] }

/-- The branches of `ingest` by topic. -/
def receive (x : Input) (arrivalNs : ℤ) (wall : ℚ) (e : Engine) : Res :=
  match x with
  | .image c m => (e.bufferImage cfg c m).pair cfg wall
  | .odom m => e.ingestOdom D cfg m arrivalNs
  | .info c m =>
    .ok (({ e with infos := fun c' => if c' = c then keepLast 240 (e.infos c ++ [m]) else e.infos c' } : Engine).write
      (.info c) (.cameraInfo m) arrivalNs)
  | .tfStatic ts => do
    let e ← e.setStatics D ts
    .ok (e.write .tfStatic (.transforms e.static.values) arrivalNs)
  | .tf ts => .ok (e.write .tf (.transforms ts) arrivalNs)
  | .other n data => .ok (e.write (.other n) (.raw data) arrivalNs)

/-- The branches of `ingest` and the `drain` that follows them. -/
def process (x : Input) (arrivalNs : ℤ) (wall : ℚ) (e : Engine) : Res := do
  let e ← e.receive D cfg x arrivalNs wall
  if x.drains then e.drain D cfg wall false else .ok e

/-- `ingest`. -/
def ingest (x : Input) (arrivalNs : ℤ) (wall : ℚ) (e : Engine) : Res :=
  let e := e.inc (.received x.topic)
  match x.sourceHeader with
  | none => e.process D cfg x arrivalNs wall
  | some h =>
    if h.stamp ≤ 0 then e.raise (.value ("Zero/negative source timestamp: " ++ x.topic.name))
    else if (e.last x.topic).any (h.stamp < ·) then
      e.raise (.value ("Source clock moved backward: " ++ x.topic.name))
    else if e.last x.topic = some h.stamp then .ok (e.inc (.duplicate x.topic))
    else (e.noteSource x.topic h).process D cfg x arrivalNs wall

/-- `report`. -/
def report (e : Engine) : Report :=
  let duration : ℚ :=
    match e.lastFrameNs, e.firstFrameNs with
    | some last, some first => divFloat (last - first) (10 ^ 9)
    | _, _ => 0
  { counts := e.stats, frames := e.stats .frames
    actualRateHz := if 0 < duration then divFloat ((e.stats .frames : ℤ) - 1) duration else 0
    maxObservedLioArrivalAgeS := e.maxLioAge, firstFrameNs := e.firstFrameNs, lastFrameNs := e.lastFrameNs
    pending := e.pending.length, lastRejection := e.lastError, configuration := cfg }

end Engine

/-! ## Calls -/

/-- A call of the engine by its owner. -/
inductive Call where
  | ingest (x : Input) (arrivalNs : ℤ) (wall : ℚ)
  | drain (wall : ℚ) (final : Bool)
  deriving DecidableEq, Repr

def Call.exec (D : Deps) (cfg : Config) : Call → Engine → Res
  | .ingest x arrivalNs wall, e => e.ingest D cfg x arrivalNs wall
  | .drain wall final, e => e.drain D cfg wall final

/-- The engine after a sequence of calls that raises nothing. -/
def runCalls (D : Deps) (cfg : Config) (cs : List Call) : Res := Outcome.run (Call.exec D cfg) cs .init

/-- The engine after any sequence of calls, whatever they raise. -/
def runAllCalls (D : Deps) (cfg : Config) (cs : List Call) : Engine := Outcome.runAll (Call.exec D cfg) cs .init

/-! ## A recording without rotations

Transforms as the libraries give them as long as nothing turns, and one-pixel messages, for instances. -/

namespace Still

/-- The transform between two equal frames. -/
def identityTransform (frame : String) : TransformStamped :=
  ⟨⟨0, 0, frame⟩, frame, ⟨.fin 0, .fin 0, .fin 0⟩, ⟨.fin 0, .fin 0, .fin 0, .fin 1⟩⟩

/-- The last transform set for the source frame, if it starts at the target. -/
def lookupTransform (tf : List TransformStamped) (target source : String) : Except Tf2Error TransformStamped :=
  if target = source then .ok (identityTransform target)
  else
    match tf.reverse.find? fun t => t.childFrameId = source with
    | some t => if t.header.frameId = target then .ok { t with header := ⟨0, 0, target⟩ } else .error .lookup
    | none => .error .lookup

def deps : Deps := ⟨numerics, lookupTransform⟩

def rgb (seq : ℕ) (stamp : ℤ) : Image := ⟨⟨seq, stamp, "camera_color_optical_frame"⟩, 1, 1, "rgb8", 0, 3, [0, 0, 0]⟩

def depth (seq : ℕ) (stamp : ℤ) : Image := ⟨⟨seq, stamp, "camera_color_optical_frame"⟩, 1, 1, "16UC1", 0, 2, [1, 0]⟩

def info (stamp : ℤ) : CameraInfo where
  header := ⟨0, stamp, "camera_color_optical_frame"⟩
  height := 1
  width := 1
  distortionModel := "plumb_bob"
  D := []
  K := #v[.fin 1, .fin 0, .fin 0, .fin 0, .fin 1, .fin 0, .fin 0, .fin 0, .fin 1]
  R := #v[.fin 1, .fin 0, .fin 0, .fin 0, .fin 1, .fin 0, .fin 0, .fin 0, .fin 1]
  P := #v[.fin 1, .fin 0, .fin 0, .fin 0, .fin 0, .fin 1, .fin 0, .fin 0, .fin 0, .fin 0, .fin 1, .fin 0]
  binningX := 0
  binningY := 0
  roi := ⟨0, 0, 0, 0, false⟩

/-- The body `x` metres from where it started. -/
def odomAt (x : ℚ) (stamp : ℤ) : Odometry :=
  ⟨⟨0, stamp, "lio_map"⟩, "body", ⟨.fin x, .fin 0, .fin 0⟩, ⟨.fin 0, .fin 0, .fin 0, .fin 1⟩⟩

def odom (stamp : ℤ) : Odometry := odomAt 0 stamp

/-- The mounting of the camera, and the pose of the body. -/
def mounting : TransformStamped :=
  ⟨⟨0, 0, "body"⟩, "camera_color_optical_frame", ⟨.fin 0, .fin 0, .fin 0⟩, ⟨.fin 0, .fin 0, .fin 0, .fin 1⟩⟩

def bodyPose : TransformStamped :=
  ⟨⟨0, 0, "lio_map"⟩, "body", ⟨.fin 0, .fin 0, .fin 0⟩, ⟨.fin 0, .fin 0, .fin 0, .fin 1⟩⟩

/-- The topics a frame needs besides its images. -/
def setting : List Call :=
  [.ingest (.tfStatic [mounting]) 1 0, .ingest (.tf [bodyPose]) 2 0, .ingest (.info .rgb (info 1)) 3 0,
    .ingest (.info .depth (info 1)) 4 0]

/-- Odometry every 100 ms; image pairs at 150 ms, of which the RGB image is received twice, at 250 ms, too early for the
rate, at 330 ms and at 520 ms; an RGB image at 180 ms and a depth image at 400 ms that are left alone; and the final
`drain`. -/
def recording : List Call :=
  setting ++
  [.ingest (.odom (odomAt 0 100000000)) 100000000 (1 / 10), .ingest (.image .rgb (rgb 7 150000000)) 150000000 (1 / 5),
    .ingest (.image .depth (depth 3 151000000)) 151000000 (1 / 5),
    .ingest (.image .rgb (rgb 7 150000000)) 152000000 (1 / 5), .ingest (.image .rgb (rgb 8 180000000)) 180000000 (1 / 5),
    .ingest (.odom (odomAt (1 / 2) 200000000)) 200000000 (1 / 4),
    .ingest (.image .rgb (rgb 9 250000000)) 250000000 (1 / 4),
    .ingest (.image .depth (depth 4 252000000)) 252000000 (1 / 4),
    .ingest (.odom (odomAt 1 300000000)) 300000000 (1 / 3),
    .ingest (.image .depth (depth 5 331000000)) 331000000 (1 / 3),
    .ingest (.image .rgb (rgb 10 330000000)) 332000000 (1 / 3),
    .ingest (.odom (odomAt (3 / 2) 400000000)) 400000000 (2 / 5),
    .ingest (.image .depth (depth 6 400000000)) 401000000 (2 / 5),
    .ingest (.odom (odomAt 2 500000000)) 500000000 (1 / 2),
    .ingest (.image .rgb (rgb 11 520000000)) 520000000 (1 / 2),
    .ingest (.image .depth (depth 7 520000000)) 521000000 (1 / 2),
    .ingest (.odom (odomAt 2 600000000)) 600000000 (3 / 5), .drain 1 true]

end Still

end Agilex.Capture
