import Agilex.Capture.EngineRules
import Mathlib.Data.List.Sort

/-!
# Bags and their validation

A bag is a list of records. `readMessages` reads it in the order of bag time; `frameGroups` splits the records of the
group topics into frame groups; `checkBag` validates a bag from its records alone.
-/

namespace Agilex.Capture

open Agilex.Lib Binary64

abbrev Bag := List Record

/-- `bag.read_messages(topics=topics)`: the records of the topics by bag time, in file order within one time. -/
def readMessages (bag : Bag) (topics : Topic → Bool) : List Record :=
  (bag.filter fun r => topics r.topic).insertionSort fun a b => a.time ≤ b.time

/-- `bag.get_message_count(topic)`. -/
def messageCount (bag : Bag) (topic : Topic) : ℕ := bag.countP fun r => r.topic = topic

/-! ## Frame groups -/

/-- The messages collected for a frame group, by topic. -/
abbrev GroupDict := Dict GroupTopic Msg

/-- `set(group) == set(GROUP)`. -/
def GroupDict.complete (group : GroupDict) : Bool := GROUP.all fun t => (group.lookup t).isSome

/-- The loop of `frame_groups`: the groups yielded, and the exception that ends the generator, if any. -/
def groupsFrom : Option ℤ → GroupDict → List Record → List (ℤ × GroupDict) × Option PyErr
  | current, group, [] =>
    if group = [] then ([], none)
    else if group.complete then ([(current.getD 0, group)], none)
    else ([], some (.value "Incomplete last frame group"))
  | current, group, r :: rest =>
    match r.topic with
    | .group t =>
      if current.any (r.time ≠ ·) ∧ ¬group.complete then
        ([], some (.value ("Incomplete frame group at " ++ toString (current.getD 0))))
      else
        let out := if current.any (r.time ≠ ·) then [(current.getD 0, group)] else []
        let group := if current.any (r.time ≠ ·) then [] else group
        if (group.lookup t).isSome then (out, some (.value "Duplicate topic in frame group"))
        else
          let (groups, err) := groupsFrom (some r.time) (Dict.set group t r.msg) rest
          (out ++ groups, err)
    | _ => groupsFrom current group rest

/-- `frame_groups`. -/
def frameGroups (bag : Bag) : List (ℤ × GroupDict) × Option PyErr :=
  groupsFrom none [] (readMessages bag Topic.isGroup)

/-! ## Session and report -/

/-- `read_session`. -/
def readSession (bag : Bag) : Except PyErr Session :=
  match readMessages bag (· = .session) with
  | [r] =>
    match r.msg with
    | .session value =>
      if value.schemaVersion ≠ 1 then .error (.value "Unsupported dataset schema") else .ok value
    | _ => .error .attribute
  | _ => .error (.value "Expected exactly one session metadata message")

/-- The recorder's report, when it does not mark the bag incomplete. -/
def readReport (bag : Bag) : Except PyErr Report :=
  match readMessages bag (· = .report) with
  | [r] =>
    match r.msg with
    | .report saved =>
      if (saved.error.any (· ≠ "")) ∨ saved.status ∉ ["RECORDED", "PASS"] then
        .error (.value "Recorder marked this bag incomplete")
      else .ok saved
    | _ => .error .attribute
  | _ => .error (.value "Missing final capture report: recording may be incomplete")

/-- The raw message counts agree with the report. -/
def checkRawCounts (bag : Bag) (session : Session) (saved : Report) : Except PyErr Unit :=
  if session.rawSensors ∧
      (saved.rawTopicCounts = [] ∨ saved.rawTopicCounts.any fun tc => messageCount bag tc.1 ≠ tc.2) then
    .error (.value "Merged raw message counts disagree with recorder report")
  else .ok ()

/-! ## Odometry and transforms -/

variable (D : Deps) (cfg : Config)

/-- The loop over the odometry records: `odoms` and `last`. -/
def readOdoms : Dict ℤ Odometry → ℤ → List Record → Except PyErr (Dict ℤ Odometry)
  | odoms, _, [] => .ok odoms
  | odoms, last, r :: rest =>
    match r.msg with
    | .odometry msg => do
      let ns := msg.header.stamp
      if ns ≤ last ∨ msg.header.frameId ≠ cfg.world ∨ msg.childFrameId ≠ cfg.body then
        .error (.value "Nonmonotonic odometry or wrong frames")
      else do
        let _ ← poseMatrix D.num msg.pose
        readOdoms (Dict.set odoms ns msg) ns rest
    | _ => .error .attribute

/-- The transforms of the records of one topic, in order. -/
def readTransforms : List Record → Except PyErr (List TransformStamped)
  | [] => .ok []
  | r :: rest =>
    match r.msg with
    | .transforms ts => do
      let rest ← readTransforms rest
      .ok (ts ++ rest)
    | _ => .error .attribute

/-- The extrinsic that the recorded static transforms give. -/
def expectedExtrinsic (statics : List TransformStamped) : Except PyErr Mat :=
  match D.lookupTransform statics cfg.body cfg.optical with
  | .ok t => transformMatrix D.num t
  | .error e => .error (.tf2 e)

/-- The loop over the recorded `/tf` transforms: whether there is an edge from the world to the body. -/
def findWorldBody : List TransformStamped → Except PyErr Bool
  | [] => .ok false
  | tr :: rest =>
    if tr.header.frameId = cfg.world ∧ tr.childFrameId = cfg.body then do
      let _ ← transformMatrix D.num tr
      let _ ← findWorldBody rest
      .ok true
    else findWorldBody rest

/-! ## Checking a group -/

/-- What the loop over the groups accumulates. -/
structure CheckState where
  count : ℕ := 0
  first : Option ℤ := none
  previous : ℤ := -1
  minValid : ℚ := 1
  maxDelta : ℚ := 0
  maxGap : ℚ := 0
  deriving DecidableEq, Repr

/-- The seven messages of a group, by topic, if they have the types of their topics. -/
def GroupDict.read (g : GroupDict) : Except PyErr Group :=
  match g.lookup .rgb, g.lookup .depth, g.lookup .rgbInfo, g.lookup .depthInfo, g.lookup .cameraPose,
    g.lookup .bodyToCamera, g.lookup .frame with
  | some (.image rgb), some (.image dep), some (.cameraInfo ci), some (.cameraInfo di), some (.pose pose),
    some (.transform ext), some (.metadata metadata) => .ok ⟨rgb, dep, ci, di, pose, ext, metadata⟩
  | _, _, _, _, _, _, _ => .error .attribute

/-- The checks of one group read from the bag. -/
def checkMessages (odoms : Dict ℤ Odometry) (expectedExt : Mat) (ns : ℤ) (g : Group) (s : CheckState) :
    Except PyErr CheckState :=
  let f := g.metadata
  if ns ≤ s.previous ∨ f.frameIndex ≠ s.count ∨
      ∃ h ∈ [g.rgb.header, g.dep.header, g.ci.header, g.di.header, g.pose.header, g.ext.header], h.seq ≠ s.count then
    .error (.value "Frame IDs are not contiguous or timestamps are not increasing")
  else if ns ≠ g.rgb.header.stamp ∨ ns ≠ g.pose.header.stamp ∨ ns ≠ f.rgbStampNs then
    .error (.value "RGB/pose association timestamp mismatch")
  else if g.ext.header.stamp ≠ ns then .error (.value "Extrinsic association timestamp mismatch")
  else if g.dep.header.stamp ≠ f.depthStampNs ∨ g.ci.header.stamp ≠ g.rgb.header.stamp ∨
      g.di.header.stamp ≠ g.dep.header.stamp then
    .error (.value "Depth/CameraInfo timestamp mismatch")
  else do
    let valid ← validateRgbd g.rgb g.dep g.ci g.di cfg.optical
    let offset ← pyRound (mul cfg.cameraTimeOffset (10 ^ 9))
    let target := ns + offset
    let delta := divFloat |f.depthStampNs - ns| (10 ^ 9)
    if f.rgbdDeltaNs ≠ f.depthStampNs - ns ∨ f.poseQueryStampNs ≠ target ∨ cfg.rgbdSlop < delta then
      .error (.value "Invalid synchronization offset")
    else
      match odoms.lookup f.odomBeforeNs, odoms.lookup f.odomAfterNs with
      | some a, some b =>
        let gap := divFloat (b.header.stamp - a.header.stamp) (10 ^ 9)
        if cfg.maxOdomGap < gap then .error (.value "Excessive odometry gap")
        else do
          let (body, alpha) ← interpolate D.num a b target
          if g.pose.header.frameId ≠ cfg.world ∨ g.ext.header.frameId ≠ cfg.body ∨ g.ext.childFrameId ≠ cfg.optical then
            .error (.value "Wrong output pose/extrinsic frames")
          else do
            let matrixExt ← transformMatrix D.num g.ext
            if ¬allclose (lit (1 / 10 ^ 7)) matrixExt expectedExt then
              .error (.value "Per-frame extrinsic disagrees with recorded TF")
            else do
              let pose ← poseMatrix D.num g.pose.pose
              if ¬allcloseTo (lit (1 / 10 ^ 6)) pose (D.num.matmul body matrixExt) ∨
                  lit (1 / 10 ^ 9) < |sub alpha f.interpolationAlpha| then
                .error (.value "Camera pose cannot be reproduced from recorded odometry/extrinsics")
              else if lit (1 / 10 ^ 6) < |sub valid f.depthValidFraction| ∨ valid = 0 then
                .error (.value "Invalid depth validity metadata")
              else
                let scale := if g.dep.encoding = "16UC1" then cfg.depthScale else 1
                if f.depthScaleM ≠ scale ∨ f.depthEncoding ≠ g.dep.encoding then
                  .error (.value "Incorrect depth units")
                else
                  .ok { count := s.count + 1, first := some (s.first.getD ns), previous := ns
                        minValid := min s.minValid valid, maxDelta := max s.maxDelta delta, maxGap := max s.maxGap gap }
      | _, _ => .error .key

def checkGroup (odoms : Dict ℤ Odometry) (expectedExt : Mat) (ns : ℤ) (g : GroupDict) (s : CheckState) :
    Except PyErr CheckState := do
  let g ← g.read
  checkMessages D cfg odoms expectedExt ns g s

/-- The loop over the groups. -/
def checkGroups (odoms : Dict ℤ Odometry) (expectedExt : Mat) : List (ℤ × GroupDict) → CheckState → Except PyErr CheckState
  | [], s => .ok s
  | (ns, g) :: rest, s => do
    let s ← checkGroup D cfg odoms expectedExt ns g s
    checkGroups odoms expectedExt rest s

/-! ## Validation -/

/-- What `check_bag` returns. -/
structure CheckResult where
  status : String := "PASS"
  frames : ℕ
  actualRateHz : ℚ
  minDepthValidFraction : ℚ
  maxRgbdDeltaS : ℚ
  maxOdomGapS : ℚ
  cameraPoseReproducedFromRawOdometry : Bool := true
  hardwareSyncVerified : Bool := false
  accuracyValidated : Bool := false
  deriving DecidableEq, Repr

def CheckState.result (s : CheckState) : CheckResult where
  frames := s.count
  actualRateHz :=
    if 1 < s.count then div (s.count - 1) (divFloat (s.previous - s.first.getD 0) (10 ^ 9)) else 0
  minDepthValidFraction := s.minValid
  maxRgbdDeltaS := s.maxDelta
  maxOdomGapS := s.maxGap

/-- `check_bag`. -/
def checkBag (bag : Bag) : Except PyErr CheckResult := do
  let session ← readSession bag
  let cfg := session.config
  cfg.validate
  let saved ← readReport bag
  checkRawCounts bag session saved
  let odoms ← readOdoms D cfg [] (-1) (readMessages bag (· = .odom))
  if messageCount bag .tf = 0 ∨ messageCount bag .tfStatic = 0 then .error (.value "Missing dynamic or static TF")
  else do
    let statics ← readTransforms (readMessages bag (· = .tfStatic))
    let expectedExt ← expectedExtrinsic D cfg statics
    let edges ← readTransforms (readMessages bag (· = .tf))
    let hasWorldBody ← findWorldBody D cfg edges
    if ¬hasWorldBody then .error (.value "Recorded TF lacks the LIO world-to-body edge")
    else do
      let (groups, err) := frameGroups bag
      let s ← checkGroups D cfg odoms expectedExt groups {}
      match err with
      | some e => .error e
      | none =>
        if saved.frames ≠ s.count then .error (.value "Final report count disagrees with actual frame groups")
        else if s.count = 0 then .error (.value "No valid complete frames")
        else .ok s.result

/-- The bag of a recording without raw sensors: the session, what the engine wrote, and the report, as `record` puts
them. -/
def recordedBag (cfg : Config) (e : Engine) (sessionNs reportNs : ℤ) : Bag :=
  ⟨.session, .session { config := cfg, rawSensors := false }, sessionNs⟩ :: e.written ++
    [⟨.report, .report { e.report cfg with status := "RECORDED", error := none }, reportNs⟩]

end Agilex.Capture
