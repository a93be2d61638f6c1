import Agilex.Collect.Extract
import Mathlib.Data.Set.Card

/-!
# Whether the outputs of an extraction stay in step

- `matchesFrom` is the list of the image pairs of a bag, with the size of the color image known at each; it follows the
  messages alone, and its pairs are those of `ApproxSync` (`matchesFrom_pairs`);
- `Written` is what a list of pairs adds to the outputs: one lemma for a frame (`saveFrame_written`), one for a message, and
  the run by induction (`foldl_written`);
- `outputs_in_step`: the outputs agree just when no frame fails after its color image has been written.
-/

namespace Agilex.Collect

open Agilex.Lib Agilex.Capture Binary64

/-! ## Names of files -/

/-- Frames with different stamps have files with different names. -/
theorem tsStr_inj {ns ns' : ℤ} (h : tsStr ns = tsStr ns') : ns = ns' := by
  have hchars := congrArg String.toList h
  unfold tsStr at hchars
  simp only [String.toList_append, List.append_assoc] at hchars
  have hsecs : '_' ∉ (toString (ns / 10 ^ 9)).toList := by
    intro hmem
    rcases mem_toString_int hmem with hno | hno <;> exact absurd hno (by decide)
  have hnsecs : '_' ∉ (zeroPad 9 (ns % 10 ^ 9).toNat).toList := fun hmem =>
    absurd (isDigit_of_mem_zeroPad hmem) (by decide)
  obtain ⟨hs, -, hn⟩ := (List.append_cons_inj_of_notMem hsecs hnsecs).mp hchars
  have hdiv : ns / 10 ^ 9 = ns' / 10 ^ 9 := toString_int_inj (String.toList_inj.mp hs)
  have hmod : (ns % 10 ^ 9).toNat = (ns' % 10 ^ 9).toNat := zeroPad_inj (String.toList_inj.mp hn)
  omega

/-! ## The pairs of a bag -/

/-- A pair of images, with the size known when it is found. -/
structure Match where
  rgb : Image
  depth : Image
  size : ℕ × ℕ

section

variable {P : Type}

namespace Match

def stamp (m : Match) : ℤ := m.rgb.header.stamp

/-- The color image can be decoded. -/
def rgbOk (m : Match) : Bool := (rosImageToNumpy m.rgb).isOk

/-- The depth image can be decoded, and resized if need be. -/
def depthOk (D : Calls P) (m : Match) : Bool := (decodeDepth D m.size m.depth).isOk

/-- The frame is written to its end. -/
def complete (D : Calls P) (m : Match) : Bool := m.rgbOk && m.depthOk D

end Match

/-- The pair that a message completes, and the camera info and the buffers after it. -/
def matchOf (camera : Option CameraInfo) (sync : ApproxSync Image) :
    BagMsg P → Option Match × Option CameraInfo × ApproxSync Image
  | .rgb msg =>
    let (pair, sync) := ApproxSync.add imgSync stampOf sync msg true
    (pair.map fun p => ⟨p.1, p.2, imgSize camera⟩, camera, sync)
  | .depth msg =>
    let (pair, sync) := ApproxSync.add imgSync stampOf sync msg false
    (pair.map fun p => ⟨p.1, p.2, imgSize camera⟩, camera, sync)
  | .cameraInfo info => (none, camera.or (some info), sync)
  | _ => (none, camera, sync)

/-- The pairs of the messages, in order. -/
def matchesFrom : Option CameraInfo → ApproxSync Image → List (BagMsg P) → List Match
  | _, _, [] => []
  | camera, sync, msg :: msgs =>
    let (m, camera, sync) := matchOf camera sync msg
    m.toList ++ matchesFrom camera sync msgs

/-- The images of the messages, color images marked. -/
def images : List (BagMsg P) → List (Image × Bool)
  | [] => []
  | .rgb msg :: msgs => (msg, true) :: images msgs
  | .depth msg :: msgs => (msg, false) :: images msgs
  | _ :: msgs => images msgs

/-- The pairs are those that `ApproxSync` returns. -/
theorem matchesFrom_pairs (camera : Option CameraInfo) (sync : ApproxSync Image) (msgs : List (BagMsg P)) :
    (matchesFrom camera sync msgs).map (fun m => (m.rgb, m.depth)) =
      (ApproxSync.addAll imgSync stampOf (images msgs) sync).1 := by
  have hpair : ∀ (pair : Option (Image × Image)) (size : ℕ × ℕ),
      (pair.map fun p => (⟨p.1, p.2, size⟩ : Match)).toList.map (fun m => (m.rgb, m.depth)) = pair.toList := by
    intro pair size
    cases pair <;> rfl
  induction msgs generalizing camera sync with
  | nil => rfl
  | cons msg msgs ih =>
    cases msg with
    | tf => exact ih camera sync
    | lidar parsed => exact ih camera sync
    | cameraInfo info => exact ih _ sync
    | rgb msg =>
      refine (List.map_append ..).trans ?_
      rw [hpair, ih]
      rfl
    | depth msg =>
      refine (List.map_append ..).trans ?_
      rw [hpair, ih]
      rfl

/-! ## What is written -/

/-- The outputs of `s'` are those of `s` and what the pairs add. -/
structure Written (D : Calls P) (ms : List Match) (s s' : Extraction P) : Prop where
  rgb : ∀ name, (s'.rgb name).isSome ↔ (s.rgb name).isSome ∨ ∃ m ∈ ms, m.rgbOk = true ∧ tsStr m.stamp = name
  depth : ∀ name, (s'.depthCamera name).isSome ↔
    (s.depthCamera name).isSome ∨ ∃ m ∈ ms, m.complete D = true ∧ tsStr m.stamp = name
  odom : s'.posesOdom.map TumLine.stamp = s.posesOdom.map TumLine.stamp ++ (ms.filter (Match.complete D)).map Match.stamp
  map : s'.posesMap.map TumLine.stamp = s.posesMap.map TumLine.stamp ++ (ms.filter (Match.complete D)).map Match.stamp
  count : s'.frameCnt = s.frameCnt + (ms.filter (Match.complete D)).length

variable {D : Calls P}

theorem Written.nil {s s' : Extraction P} (hrgb : s'.rgb = s.rgb) (hdepth : s'.depthCamera = s.depthCamera)
    (hodom : s'.posesOdom = s.posesOdom) (hmap : s'.posesMap = s.posesMap) (hcount : s'.frameCnt = s.frameCnt) :
    Written D [] s s' := by
  constructor
  · simp [hrgb]
  · simp [hdepth]
  · simp [hodom]
  · simp [hmap]
  · simp [hcount]

theorem Written.append {ms ms' : List Match} {s s' s'' : Extraction P} (h : Written D ms s s')
    (h' : Written D ms' s' s'') : Written D (ms ++ ms') s s'' := by
  constructor
  · intro name
    rw [h'.rgb, h.rgb, or_assoc]
    simp only [List.mem_append, or_and_right, exists_or]
  · intro name
    rw [h'.depth, h.depth, or_assoc]
    simp only [List.mem_append, or_and_right, exists_or]
  · rw [h'.odom, h.odom, List.filter_append, List.map_append, List.append_assoc]
  · rw [h'.map, h.map, List.filter_append, List.map_append, List.append_assoc]
  · rw [h'.count, h.count, List.filter_append, List.length_append, Nat.add_assoc]

/-- A file that is written is there, and the others as before. -/
theorem Files.isSome_write {A : Type} (files : Files A) (name name' : String) (a : A) :
    (files.write name a name').isSome ↔ (files name').isSome ∨ name = name' := by
  unfold Files.write
  by_cases h : name' = name
  · subst h
    simp
  · rw [Function.update_of_ne h]
    simp [Ne.symm h]

/-- The lidar files play no part. -/
theorem saveLidar_keeps (s : Extraction P) (stamp : ℤ) :
    ∃ lidarMiss lidarPcd lidarDepth, saveLidar D s stamp =
      { s with lidarMiss := lidarMiss, lidarPcd := lidarPcd, lidarDepth := lidarDepth } := by
  unfold saveLidar
  cases nearestLidar s.lidarBuf (toSec stamp) with
  | none => exact ⟨_, _, _, rfl⟩
  | some lf => exact ⟨_, _, _, rfl⟩

/-- The outcomes of a pair: no color image, no depth image, or all of it but perhaps the lidar files. -/
theorem saveFrame_cases (s : Extraction P) (rgbMsg depthMsg : Image) :
    ((∃ err, rosImageToNumpy rgbMsg = .error err) ∧ saveFrame D s rgbMsg depthMsg = s) ∨
    (∃ rgbImg, rosImageToNumpy rgbMsg = .ok rgbImg ∧
      (((∃ err, decodeDepth D (imgSize s.camera) depthMsg = .error err) ∧
        saveFrame D s rgbMsg depthMsg = { s with rgb := s.rgb.write (tsStr rgbMsg.header.stamp) rgbImg }) ∨
      ∃ camD lidarMiss lidarPcd lidarDepth, decodeDepth D (imgSize s.camera) depthMsg = .ok camD ∧
        saveFrame D s rgbMsg depthMsg = savePoses D
          { s with
            rgb := s.rgb.write (tsStr rgbMsg.header.stamp) rgbImg
            depthCamera := s.depthCamera.write (tsStr rgbMsg.header.stamp) camD
            lidarMiss := lidarMiss
            lidarPcd := lidarPcd
            lidarDepth := lidarDepth } rgbMsg.header.stamp)) := by
  unfold saveFrame
  cases hrgb : rosImageToNumpy rgbMsg with
  | error err => exact Or.inl ⟨⟨err, rfl⟩, rfl⟩
  | ok rgbImg =>
    refine Or.inr ⟨rgbImg, rfl, ?_⟩
    simp only
    cases hdepth : decodeDepth D (imgSize s.camera) depthMsg with
    | error err => exact Or.inl ⟨⟨err, rfl⟩, rfl⟩
    | ok camD =>
      obtain ⟨lidarMiss, lidarPcd, lidarDepth, hlidar⟩ := saveLidar_keeps (D := D)
        { s with
          rgb := s.rgb.write (tsStr rgbMsg.header.stamp) rgbImg
          depthCamera := s.depthCamera.write (tsStr rgbMsg.header.stamp) camD } rgbMsg.header.stamp
      exact Or.inr ⟨camD, lidarMiss, lidarPcd, lidarDepth, rfl, congrArg (savePoses D · rgbMsg.header.stamp) hlidar⟩

/-- **What a pair writes**: its color image if that can be decoded, and the rest if its depth image can be, too. -/
theorem saveFrame_written (s : Extraction P) (rgbMsg depthMsg : Image) :
    Written D [⟨rgbMsg, depthMsg, imgSize s.camera⟩] s (saveFrame D s rgbMsg depthMsg) := by
  rcases saveFrame_cases (D := D) s rgbMsg depthMsg with ⟨⟨err, hrgb⟩, hrun⟩ |
    ⟨rgbImg, hrgb, ⟨⟨err, hdepth⟩, hrun⟩ | ⟨camD, lidarMiss, lidarPcd, lidarDepth, hdepth, hrun⟩⟩
  · have hno : Match.rgbOk ⟨rgbMsg, depthMsg, imgSize s.camera⟩ = false := by
      simp only [Match.rgbOk, hrgb]
      rfl
    have hincomplete : Match.complete D ⟨rgbMsg, depthMsg, imgSize s.camera⟩ = false := by
      rw [Match.complete, hno, Bool.false_and]
    rw [hrun]
    constructor <;> simp [hno, hincomplete]
  · have hyes : Match.rgbOk ⟨rgbMsg, depthMsg, imgSize s.camera⟩ = true := by
      simp only [Match.rgbOk, hrgb]
      rfl
    have hincomplete : Match.complete D ⟨rgbMsg, depthMsg, imgSize s.camera⟩ = false := by
      simp only [Match.complete, Match.depthOk, hdepth]
      exact Bool.and_false _
    rw [hrun]
    constructor
    · intro name
      simp [hyes, Files.isSome_write, Match.stamp]
    all_goals simp [hincomplete]
  · have hcomplete : Match.complete D ⟨rgbMsg, depthMsg, imgSize s.camera⟩ = true := by
      simp only [Match.complete, Match.rgbOk, hrgb, Match.depthOk, hdepth]
      rfl
    have hyes : Match.rgbOk ⟨rgbMsg, depthMsg, imgSize s.camera⟩ = true := (Bool.and_eq_true_iff.mp hcomplete).1
    rw [hrun]
    constructor <;> simp [hyes, hcomplete, savePoses, Files.isSome_write, Match.stamp]

theorem saveFrame_keeps (s : Extraction P) (rgbMsg depthMsg : Image) :
    (saveFrame D s rgbMsg depthMsg).camera = s.camera ∧ (saveFrame D s rgbMsg depthMsg).sync = s.sync := by
  rcases saveFrame_cases (D := D) s rgbMsg depthMsg with ⟨-, hrun⟩ | ⟨rgbImg, -, ⟨-, hrun⟩ | ⟨camD, _, _, _, -, hrun⟩⟩
  all_goals
    rw [hrun]
    exact ⟨rfl, rfl⟩

theorem onImage_written (s : Extraction P) (msg : Image) (isRgb : Bool) :
    Written D (((ApproxSync.add imgSync stampOf s.sync msg isRgb).1.map fun p =>
        (⟨p.1, p.2, imgSize s.camera⟩ : Match)).toList) s (onImage D s msg isRgb) ∧
      (onImage D s msg isRgb).camera = s.camera ∧
      (onImage D s msg isRgb).sync = (ApproxSync.add imgSync stampOf s.sync msg isRgb).2 := by
  have hempty : Written D [] s { s with sync := (ApproxSync.add imgSync stampOf s.sync msg isRgb).2 } :=
    Written.nil rfl rfl rfl rfl rfl
  unfold onImage
  cases hpair : (ApproxSync.add imgSync stampOf s.sync msg isRgb).1 with
  | none =>
    simp only [hpair]
    exact ⟨hempty, trivial, trivial⟩
  | some pair =>
    obtain ⟨rgbMsg, depthMsg⟩ := pair
    simp only [hpair]
    exact ⟨hempty.append
        (saveFrame_written { s with sync := (ApproxSync.add imgSync stampOf s.sync msg isRgb).2 } rgbMsg depthMsg),
      saveFrame_keeps _ rgbMsg depthMsg⟩

/-- **What a message writes.** -/
theorem onMessage_written (s : Extraction P) (msg : BagMsg P) :
    Written D (matchOf s.camera s.sync msg).1.toList s (onMessage D s msg) ∧
      (onMessage D s msg).camera = (matchOf s.camera s.sync msg).2.1 ∧
      (onMessage D s msg).sync = (matchOf s.camera s.sync msg).2.2 := by
  cases msg with
  | tf => exact ⟨Written.nil rfl rfl rfl rfl rfl, rfl, rfl⟩
  | lidar parsed => cases parsed <;> exact ⟨Written.nil rfl rfl rfl rfl rfl, rfl, rfl⟩
  | cameraInfo info =>
    unfold onMessage matchOf
    cases hcamera : s.camera with
    | none => exact ⟨Written.nil rfl rfl rfl rfl rfl, rfl, rfl⟩
    | some saved => exact ⟨Written.nil rfl rfl rfl rfl rfl, hcamera, rfl⟩
  | rgb msg => exact onImage_written s msg true
  | depth msg => exact onImage_written s msg false

/-- **What a run writes.** -/
theorem foldl_written (msgs : List (BagMsg P)) (s : Extraction P) :
    Written D (matchesFrom s.camera s.sync msgs) s (msgs.foldl (onMessage D) s) := by
  induction msgs generalizing s with
  | nil => exact Written.nil rfl rfl rfl rfl rfl
  | cons msg msgs ih =>
    obtain ⟨hwritten, hcamera, hsync⟩ := onMessage_written (D := D) s msg
    have hrest := ih (onMessage D s msg)
    rw [hcamera, hsync] at hrest
    exact hwritten.append hrest

/-! ## Outputs in step -/

/-- The stamps with a file in `rgb`, with a file in `depth_camera`, and with a line in each of the pose files are the same,
and as many as the frame count says. -/
structure InStep (s : Extraction P) : Prop where
  depth : {ns | (s.depthCamera (tsStr ns)).isSome} = {ns | (s.rgb (tsStr ns)).isSome}
  odom : {ns | ns ∈ s.posesOdom.map TumLine.stamp} = {ns | (s.rgb (tsStr ns)).isSome}
  map : {ns | ns ∈ s.posesMap.map TumLine.stamp} = {ns | (s.rgb (tsStr ns)).isSome}
  count : {ns | (s.rgb (tsStr ns)).isSome}.ncard = s.frameCnt

/-- The stamps of the files of an extraction. -/
theorem extractBag_stamps (D : Calls P) (msgs : List (BagMsg P)) :
    (∀ ns, ((extractBag D msgs).rgb (tsStr ns)).isSome ↔
      ∃ m ∈ matchesFrom none {} msgs, m.rgbOk = true ∧ m.stamp = ns) ∧
    ∀ ns, ((extractBag D msgs).depthCamera (tsStr ns)).isSome ↔
      ∃ m ∈ matchesFrom none {} msgs, m.complete D = true ∧ m.stamp = ns := by
  have hwritten : Written D (matchesFrom none {} msgs) {} (extractBag D msgs) := foldl_written msgs {}
  have hname : ∀ {m : Match} {ns : ℤ}, tsStr m.stamp = tsStr ns ↔ m.stamp = ns := fun {m ns} =>
    ⟨tsStr_inj, congrArg tsStr⟩
  constructor
  · intro ns
    rw [hwritten.rgb]
    simp [hname]
  · intro ns
    rw [hwritten.depth]
    simp [hname]

/-- **When the outputs stay in step.** For a bag whose matched color images have different stamps: the outputs of an
extraction agree just when the depth image of every pair whose color image can be decoded can be decoded, too, and resized
if need be. -/
theorem outputs_in_step (D : Calls P) (msgs : List (BagMsg P))
    (hdistinct : ((ApproxSync.addAll imgSync stampOf (images msgs) {}).1.map fun p => stampOf p.1).Nodup) :
    InStep (extractBag D msgs) ↔ ∀ m ∈ matchesFrom none {} msgs, m.rgbOk = true → m.depthOk D = true := by
  have hwritten : Written D (matchesFrom none {} msgs) {} (extractBag D msgs) := foldl_written msgs {}
  have hnodup : ((matchesFrom none {} msgs).map Match.stamp).Nodup := by
    rw [← matchesFrom_pairs none {} msgs, List.map_map] at hdistinct
    exact hdistinct
  have hsame : ∀ m ∈ matchesFrom none {} msgs, ∀ m' ∈ matchesFrom none {} msgs, m.stamp = m'.stamp → m = m' :=
    fun m hm m' hm' h => List.inj_on_of_nodup_map hnodup hm hm' h
  obtain ⟨hrgb, hdepth⟩ := extractBag_stamps D msgs
  constructor
  · intro h m hm hok
    have hmem : m.stamp ∈ {ns | ((extractBag D msgs).rgb (tsStr ns)).isSome} := (hrgb m.stamp).mpr ⟨m, hm, hok, rfl⟩
    rw [← h.depth] at hmem
    obtain ⟨m', hm', hcomplete, hstamp⟩ := (hdepth m.stamp).mp hmem
    rw [hsame m hm m' hm' hstamp.symm]
    exact (Bool.and_eq_true_iff.mp hcomplete).2
  · intro h
    have hcomplete : ∀ m ∈ matchesFrom none {} msgs, m.complete D = m.rgbOk := by
      intro m hm
      unfold Match.complete
      cases hok : m.rgbOk with
      | false => rfl
      | true => rw [h m hm hok]; rfl
    have hfilter : (matchesFrom none {} msgs).filter (Match.complete D) = (matchesFrom none {} msgs).filter Match.rgbOk :=
      List.filter_congr hcomplete
    -- the stamps of the frames that are written
    have hstamps : {ns | ((extractBag D msgs).rgb (tsStr ns)).isSome} =
        {ns | ns ∈ ((matchesFrom none {} msgs).filter (Match.complete D)).map Match.stamp} := by
      refine Set.ext fun ns => (hrgb ns).trans ?_
      rw [hfilter]
      simp only [List.mem_map, List.mem_filter, and_assoc, Set.mem_ofPred_eq]
    refine ⟨?_, ?_, ?_, ?_⟩
    · refine Set.ext fun ns => (hdepth ns).trans (Iff.trans ?_ (hrgb ns).symm)
      refine exists_congr fun m => and_congr_right fun hm => ?_
      rw [hcomplete m hm]
    · rw [hstamps, hwritten.odom]
      rfl
    · rw [hstamps, hwritten.map]
      rfl
    · have hnodup' : (((matchesFrom none {} msgs).filter (Match.complete D)).map Match.stamp).Nodup :=
        hnodup.sublist (List.filter_sublist.map _)
      rw [hstamps, hwritten.count, ← List.coe_toFinset, Set.ncard_coe_finset, List.toFinset_card_of_nodup hnodup',
        List.length_map]
      exact (Nat.zero_add _).symm

end

/-! ## A bag of one pair -/

namespace Pair

/-- No poses, no lidar, and images of the right size. -/
def calls : Calls (Point ℚ) := ⟨fun image _ => .ok image, fun _ _ => none, fun _ _ => none, Argsort.stable, id⟩

/-- A color image of one pixel, and a depth image with the given bytes. -/
def bag (bytes : List UInt8) : List (BagMsg (Point ℚ)) :=
  [.rgb ⟨⟨0, 1000000000, ""⟩, 1, 1, "rgb8", 0, 3, [1, 2, 3]⟩, .depth ⟨⟨0, 1000000000, ""⟩, 1, 1, "16UC1", 0, 2, bytes⟩]

end Pair

/-- **A frame of which only the color image is there**: the depth image is one byte short. -/
theorem truncated_depth_out_of_step :
    ((ApproxSync.addAll imgSync stampOf (images (Pair.bag [1])) {}).1.map fun p => stampOf p.1).Nodup ∧
      ((extractBag Pair.calls (Pair.bag [1])).rgb (tsStr 1000000000)).isSome ∧
      (extractBag Pair.calls (Pair.bag [1])).depthCamera (tsStr 1000000000) = none ∧
      (extractBag Pair.calls (Pair.bag [1])).frameCnt = 0 ∧ ¬InStep (extractBag Pair.calls (Pair.bag [1])) := by
  have hrgb : ((extractBag Pair.calls (Pair.bag [1])).rgb (tsStr 1000000000)).isSome := by decide +kernel
  have hdepth : (extractBag Pair.calls (Pair.bag [1])).depthCamera (tsStr 1000000000) = none := by decide +kernel
  refine ⟨by decide, hrgb, hdepth, by decide +kernel, fun h => ?_⟩
  have hmem : (1000000000 : ℤ) ∈ {ns | ((extractBag Pair.calls (Pair.bag [1])).rgb (tsStr ns)).isSome} := hrgb
  rw [← h.depth] at hmem
  exact absurd hmem (by rw [Set.mem_ofPred_eq, hdepth]; simp)

/-- With both bytes the frame is complete. -/
theorem outputs_in_step_pair : InStep (extractBag Pair.calls (Pair.bag [1, 0])) :=
  (outputs_in_step Pair.calls (Pair.bag [1, 0]) (by decide)).mpr (by decide +kernel)

end Agilex.Collect
