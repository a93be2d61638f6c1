import Agilex.Capture.Export

/-!
# What an export leaves behind

An export that returns has written every frame (`Complete`), and a failed one has left the marker exactly when the step that
raised is inside the `try` block (`export_marked`): the directories `rgb` and `depth` are made before it.

- `frameOutput` is what is written for a frame, as a function of the frame alone: reusing the maps of the frame before does
  not show (`exportFrame_triple`);
- `exportFrames_triple` is the loop, by induction on the groups, and `exportDataset_triple` the `try` block;
- the files of a frame are still there at the end (`writeFrames_images`), since a bag that passes validation numbers its
  frames (`checkBag_indices`).
-/

namespace Agilex.Capture.Export

open Agilex.Lib Binary64

/-! ## Paths that an effect leaves alone -/

namespace OutDir

theorem put_other {q q' : OutPath} (x : Entry) (out : OutDir) (h : q' ≠ q) : out.put q x q' = out q' := if_neg h

theorem put_self (q : OutPath) (x : Entry) (out : OutDir) : out.put q x q = some x := if_pos rfl

theorem writeFrame_other {q : OutPath} (line : FrameLine) (out : OutDir) (h : q ≠ .frames) :
    out.writeFrame line q = out q := by
  unfold writeFrame
  cases out .frames with
  | none => rfl
  | some x => cases x <;> first | rfl | exact put_other _ out h

theorem writePose_other {q : OutPath} (line : PoseLine) (out : OutDir) (h : q ≠ .poses) :
    out.writePose line q = out q := by
  unfold writePose
  cases out .poses with
  | none => rfl
  | some x => cases x <;> first | rfl | exact put_other _ out h

theorem writeComment_other {q : OutPath} (out : OutDir) (h : q ≠ .poses) : out.writeComment q = out q := by
  unfold writeComment
  cases out .poses with
  | none => rfl
  | some x => cases x <;> first | rfl | exact put_other _ out h

theorem writeFrame_self {line : FrameLine} {out : OutDir} {lines : List FrameLine}
    (h : out .frames = some (.frames lines)) : out.writeFrame line .frames = some (.frames (lines ++ [line])) := by
  unfold writeFrame
  rw [h]
  exact put_self _ _ out

theorem writePose_self {line : PoseLine} {out : OutDir} {comment : Bool} {lines : List PoseLine}
    (h : out .poses = some (.poses comment lines)) :
    out.writePose line .poses = some (.poses comment (lines ++ [line])) := by
  unfold writePose
  rw [h]
  exact put_self _ _ out

end OutDir

/-! ## What is written for a frame -/

/-- The files and lines of a frame. -/
structure FrameOutput where
  index : ℕ
  ns : ℤ
  color : Raster
  /-- Depth goes to a PNG file, or to an NPY file. -/
  depthIsPng : Bool
  depth : Raster
  pose : Pose
  line : FrameLine

namespace FrameOutput

def depthPath (o : FrameOutput) : OutPath :=
  if o.depthIsPng then .depthPng o.index o.ns else .depthNpy o.index o.ns

def depthEntry (o : FrameOutput) : Entry := if o.depthIsPng then .png o.depth else .npy o.depth

/-- The files of the frame are written and its lines appended. -/
def write (o : FrameOutput) (out : OutDir) : OutDir :=
  (((out.put (.rgb o.index o.ns) (.png o.color)).put o.depthPath o.depthEntry).writePose ⟨o.ns, o.pose⟩).writeFrame o.line

end FrameOutput

section

variable {Maps : Type} (D : Deps) (cv : Cv Maps) (env : Step → Fault)

/-- The images of a frame and the calibration they are written with. -/
def frameImages (rectify : Bool) (g : Group) : Except PyErr (Raster × Raster × Calibration) := do
  let color ← (imageArray g.rgb).map Raster.copy
  let depth ← (imageArray g.dep).map Raster.copy
  let color := convertColor cv g.rgb.encoding color
  if rectify then do
    let maps ← rectifyMaps cv (calibration g.ci)
    .ok (cv.remapLinear color maps, cv.remapNearest depth maps, rectifiedCalibration (calibration g.ci))
  else .ok (color, depth, calibration g.ci)

/-- **What `export` writes for a frame**, as a function of the frame alone. -/
def frameOutput (rectify : Bool) (ns : ℤ) (group : GroupDict) : Except PyErr FrameOutput := do
  let g ← group.read
  let (color, depth, exported) ← frameImages cv rectify g
  let index := g.metadata.frameIndex
  let depthIsPng : Bool := g.dep.encoding = "16UC1"
  let depthPath := if depthIsPng then OutPath.depthPng index ns else OutPath.depthNpy index ns
  let tWorldCamera ← poseMatrix D.num g.pose.pose
  let tBodyCamera ← transformMatrix D.num g.ext
  let line ← dumps ⟨g.metadata, (OutPath.rgb index ns).text, depthPath.text, rectify, tWorldCamera, tBodyCamera,
    calibration g.ci, exported⟩
  .ok ⟨index, ns, color, depthIsPng, depth, g.pose.pose, line⟩

variable {D cv env}

/-! ## Steps -/

/-- The steps of the `try` block. -/
def Step.covered : Step → Bool
  | .exists | .check | .mkdirOut | .mkdirRgb | .mkdirDepth | .writeMarker | .print => false
  | _ => true

/-- How a step of the `try` block raises: there is no marker yet. -/
def Failing (e : Step × Exn) (out : OutDir) : Prop := e.1.covered = true ∧ out .incomplete = none

/-- An effect that leaves the marker alone. -/
def Unmarking (f : OutDir → OutDir) : Prop := ∀ out, (f out) .incomplete = out .incomplete

theorem Unmarking.put {q : OutPath} (hq : q ≠ .incomplete) (x : Entry) : Unmarking (·.put q x) := fun out =>
  OutDir.put_other x out (Ne.symm hq)

theorem Unmarking.writeFrame (line : FrameLine) : Unmarking (·.writeFrame line) := fun out =>
  OutDir.writeFrame_other line out (by decide)

theorem Unmarking.writePose (line : PoseLine) : Unmarking (·.writePose line) := fun out =>
  OutDir.writePose_other line out (by decide)

theorem Unmarking.writeComment : Unmarking (·.writeComment) := fun out => OutDir.writeComment_other out (by decide)

/-- A step with an effect, and what follows it. -/
theorem perform_bind {β : Type} {s : Step} (hs : s.covered = true) {f : OutDir → OutDir} (hf : Unmarking f) {out : OutDir}
    (hout : out .incomplete = none) {k : Unit → M β} {Q : β → OutDir → Prop}
    (h : (f out) .incomplete = none → Triple (· = f out) (k ()) Q Failing) :
    Triple (· = out) (perform env s f >>= k) Q Failing := by
  refine Triple.bind (R := fun _ out' => out' = f out) ?_ fun _ => h ((hf out).trans hout)
  unfold perform
  split
  · exact Triple.update fun out' h' => by rw [h']
  · exact Triple.throw fun out' h' => ⟨hs, by rw [h']; exact hout⟩
  · refine Triple.bind (R := fun _ out' => out' = f out) (Triple.update fun out' h' => by rw [h']) fun _ => ?_
    exact Triple.throw fun out' h' => ⟨hs, by rw [h', hf]; exact hout⟩

/-- A computed value, and what follows it. -/
theorem attempt_bind {α β : Type} {s : Step} (hs : s.covered = true) {x : Except PyErr α} {out : OutDir}
    (hout : out .incomplete = none) {k : α → M β} {Q : β → OutDir → Prop}
    (h : ∀ a, x = .ok a → Triple (· = out) (k a) Q Failing) : Triple (· = out) (attempt env s x >>= k) Q Failing := by
  have hfail : ∀ e : Step × Exn, e.1 = s → ∀ out', out' = out → Failing e out' := by
    intro e he out' h'
    exact ⟨by rw [he]; exact hs, by rw [h']; exact hout⟩
  unfold attempt
  split
  · cases hx : x with
    | error err => exact Triple.bind (R := fun _ _ => False) (Triple.throw (hfail _ rfl)) fun _ _ hno => hno.elim
    | ok a =>
      refine Triple.bind (R := fun b out' => b = a ∧ out' = out) (Triple.pure fun out' h' => ⟨rfl, h'⟩) fun b => ?_
      rintro out' ⟨rfl, hb⟩
      exact h b hx out' hb
  · exact Triple.bind (R := fun _ _ => False) (Triple.throw (hfail _ rfl)) fun _ _ hno => hno.elim

/-! ## The loop -/

/-- The maps kept from the frame before are those of its calibration. -/
def MapsOf (cv : Cv Maps) (vars : LoopVars Maps) : Prop :=
  ∀ c m, vars = some (c, m) → rectifyMaps cv c = .ok m

/-- A computed value, as the last thing done. -/
theorem attempt_triple {α : Type} {s : Step} (hs : s.covered = true) {x : Except PyErr α} {out : OutDir}
    (hout : out .incomplete = none) :
    Triple (· = out) (attempt env s x) (fun a out' => x = .ok a ∧ out' = out) Failing := by
  rw [← bind_pure (attempt env s x)]
  exact attempt_bind hs hout fun a ha => Triple.pure fun out' h' => ⟨ha, h'⟩

/-- The maps of the frame are those of its calibration, kept or computed. -/
theorem currentMaps_triple (k : ℕ) (original : Calibration) {vars : LoopVars Maps} (hvars : MapsOf cv vars)
    {out : OutDir} (hout : out .incomplete = none) :
    Triple (· = out) (currentMaps cv env k original vars)
      (fun maps out' => rectifyMaps cv original = .ok maps ∧ out' = out) Failing := by
  unfold currentMaps
  cases vars with
  | none => exact attempt_triple rfl hout
  | some v =>
    obtain ⟨previous, maps⟩ := v
    simp only
    split
    · exact attempt_triple rfl hout
    · rename_i hsame
      rw [not_ne_iff] at hsame
      exact Triple.pure fun out' h' => ⟨by rw [hsame]; exact hvars previous maps rfl, h'⟩

/-- The images are those of the frame alone. -/
theorem rectifyFrame_triple (rectify : Bool) (k : ℕ) {g : Group} {color depth : Raster}
    (hcolor : (imageArray g.rgb).map Raster.copy = .ok color) (hdepth : (imageArray g.dep).map Raster.copy = .ok depth)
    {vars : LoopVars Maps} (hvars : MapsOf cv vars) {out : OutDir} (hout : out .incomplete = none) :
    Triple (· = out)
      (rectifyFrame cv env rectify k (calibration g.ci) (convertColor cv g.rgb.encoding color) depth vars)
      (fun r out' => (MapsOf cv r.2.2.2 ∧ frameImages cv rectify g = .ok (r.1, r.2.1, r.2.2.1)) ∧ out' = out)
      Failing := by
  unfold rectifyFrame frameImages
  rw [hcolor, hdepth]
  split
  · refine Triple.bind (currentMaps_triple k _ hvars hout) fun maps => Triple.assume fun hmaps => ?_
    refine attempt_bind rfl hout fun color' hcolor' => attempt_bind rfl hout fun depth' hdepth' => ?_
    rw [Except.ok.injEq] at hcolor' hdepth'
    refine Triple.pure fun out' h' => ⟨⟨fun c m hcm => ?_, ?_⟩, h'⟩
    · simp only [Option.some.injEq, Prod.mk.injEq] at hcm
      obtain ⟨rfl, rfl⟩ := hcm
      exact hmaps
    · simp only [bind, Except.bind, hmaps, hcolor', hdepth']
  · exact Triple.pure fun out' h' => ⟨⟨hvars, rfl⟩, h'⟩

/-- **What one turn of the loop does**: it writes the frame, or raises in a step of the `try` block. -/
theorem exportFrame_triple (rectify : Bool) (k : ℕ) (ns : ℤ) (group : GroupDict) {vars : LoopVars Maps}
    (hvars : MapsOf cv vars) {out : OutDir} (hout : out .incomplete = none) :
    Triple (· = out) (exportFrame D cv env rectify k ns group vars)
      (fun vars' out' => MapsOf cv vars' ∧ ∃ o, frameOutput D cv rectify ns group = .ok o ∧ out' = o.write out)
      Failing := by
  unfold exportFrame
  refine attempt_bind rfl hout fun g hg => ?_
  refine attempt_bind rfl hout fun color hcolor => ?_
  refine attempt_bind rfl hout fun depth hdepth => ?_
  refine attempt_bind rfl hout fun color' hcolor' => ?_
  simp only [Except.ok.injEq] at hcolor'
  subst hcolor'
  refine Triple.bind (rectifyFrame_triple rectify k hcolor hdepth hvars hout) fun r => Triple.assume fun hr => ?_
  obtain ⟨color', depth', exported, vars'⟩ := r
  obtain ⟨hmaps, himages⟩ := hr
  simp only
  refine perform_bind rfl (Unmarking.put (by simp) _) hout fun hout => ?_
  refine perform_bind rfl (Unmarking.put (by split <;> simp) _) hout fun hout => ?_
  refine perform_bind rfl (Unmarking.writePose _) hout fun hout => ?_
  refine attempt_bind rfl hout fun tWorldCamera hworld => ?_
  refine attempt_bind rfl hout fun tBodyCamera hbody => ?_
  refine attempt_bind rfl hout fun line hline => ?_
  refine perform_bind rfl (Unmarking.writeFrame line) hout fun _ => ?_
  refine Triple.pure fun out' hout' => ⟨hmaps, ?_⟩
  refine ⟨⟨g.metadata.frameIndex, ns, color', g.dep.encoding = "16UC1", depth', g.pose.pose, line⟩, ?_, ?_⟩
  · simp only [frameOutput, bind, Except.bind, hg, himages, hworld, hbody]
    simp only [decide_eq_true_eq, hline]
  · rw [hout']
    simp only [FrameOutput.write, FrameOutput.depthPath, FrameOutput.depthEntry, decide_eq_true_eq]

theorem FrameOutput.write_unmarking (o : FrameOutput) : Unmarking o.write := by
  intro out
  have hdepth : o.depthPath ≠ .incomplete := by
    unfold FrameOutput.depthPath
    split <;> simp
  calc (o.write out) .incomplete
      = (((out.put (.rgb o.index o.ns) (.png o.color)).put o.depthPath o.depthEntry).writePose ⟨o.ns, o.pose⟩)
          .incomplete := Unmarking.writeFrame o.line _
    _ = ((out.put (.rgb o.index o.ns) (.png o.color)).put o.depthPath o.depthEntry) .incomplete :=
        Unmarking.writePose ⟨o.ns, o.pose⟩ _
    _ = (out.put (.rgb o.index o.ns) (.png o.color)) .incomplete := Unmarking.put hdepth _ _
    _ = out .incomplete := Unmarking.put (by simp) _ _

/-- The frames are written one after the other. -/
def writeFrames (os : List FrameOutput) (out : OutDir) : OutDir := os.foldl (fun out o => o.write out) out

theorem writeFrames_cons (o : FrameOutput) (os : List FrameOutput) (out : OutDir) :
    writeFrames (o :: os) out = writeFrames os (o.write out) := rfl

theorem writeFrames_unmarking (os : List FrameOutput) : Unmarking (writeFrames os) := by
  induction os with
  | nil => exact fun _ => rfl
  | cons o os ih => exact fun out => (ih (o.write out)).trans (o.write_unmarking out)

/-- The outputs of the groups. -/
def Outputs (D : Deps) (cv : Cv Maps) (rectify : Bool) (groups : List (ℤ × GroupDict)) (os : List FrameOutput) : Prop :=
  List.Forall₂ (fun g o => frameOutput D cv rectify g.1 g.2 = .ok o) groups os

/-- **What the loop does.** -/
theorem exportFrames_triple (rectify : Bool) (err : Option PyErr) (groups : List (ℤ × GroupDict)) (k : ℕ)
    {vars : LoopVars Maps} (hvars : MapsOf cv vars) {out : OutDir} (hout : out .incomplete = none) :
    Triple (· = out) (exportFrames D cv env rectify err k groups vars)
      (fun _ out' => err = none ∧ ∃ os, Outputs D cv rectify groups os ∧ out' = writeFrames os out) Failing := by
  induction groups generalizing k vars out with
  | nil =>
    unfold exportFrames
    cases err with
    | none => exact Triple.pure fun out' h' => ⟨rfl, [], .nil, h'⟩
    | some e => exact Triple.throw fun out' h' => ⟨rfl, by rw [h']; exact hout⟩
  | cons g groups ih =>
    obtain ⟨ns, group⟩ := g
    unfold exportFrames
    refine Triple.bind (exportFrame_triple rectify k ns group hvars hout) fun vars' => ?_
    refine Triple.assume fun hvars' => ?_
    rintro out' ⟨o, ho, rfl⟩
    refine Triple.conseq (ih (k + 1) hvars' ((o.write_unmarking out).trans hout)) (fun _ h' => h') ?_
      (fun _ _ h' => h') _ rfl
    rintro - out' ⟨herr, os, hos, rfl⟩
    exact ⟨herr, o :: os, .cons ho hos, rfl⟩

/-! ## The try block -/

/-- Closing a file raises like any other step. -/
theorem closing_triple {α : Type} {s : Step} (hs : s.covered = true) {body : M α} {P : OutDir → Prop}
    {Q : α → OutDir → Prop} (hQ : ∀ a out, Q a out → out .incomplete = none) (h : Triple P body Q Failing) :
    Triple P (closing env s body) Q Failing := by
  have hid : Unmarking id := fun _ => rfl
  unfold closing
  refine Triple.bind (R := Q) (Triple.tryCatch h fun e => ?_) fun a => ?_
  · rintro out ⟨he, hout⟩
    exact perform_bind hs hid hout (fun hout => Triple.throw fun out' h' => ⟨he, by rw [h']; exact hout⟩) out rfl
  · intro out hq
    have hpure : Triple (· = id out) (pure a : M α) Q Failing := Triple.pure fun out' h' => by rw [h']; exact hq
    exact perform_bind hs hid (hQ a out hq) (fun _ => hpure) out rfl

/-- The directory when the loop starts. -/
def opened (out : OutDir) : OutDir :=
  ((out.put .frames (.frames [])).put .poses (.poses false [])).writeComment

/-- What the `with` block does. -/
theorem exportFiles_triple (bag : Bag) (rectify : Bool) {out : OutDir} (hout : out .incomplete = none) :
    Triple (· = out) (exportFiles D cv env bag rectify)
      (fun session out' => readSession bag = .ok session ∧
        (∃ os, Outputs D cv rectify (frameGroups bag).1 os ∧ out' = writeFrames os (opened out)) ∧
        out' .incomplete = none) Failing := by
  unfold exportFiles
  refine perform_bind rfl (fun _ => rfl) hout fun hout => ?_
  refine closing_triple rfl (fun _ _ h => h.2.2) ?_
  refine perform_bind rfl (Unmarking.put (by simp) _) hout fun hout => ?_
  refine closing_triple rfl (fun _ _ h => h.2.2) ?_
  refine perform_bind rfl (Unmarking.put (by simp) _) hout fun hout => ?_
  refine closing_triple rfl (fun _ _ h => h.2.2) ?_
  refine attempt_bind rfl hout fun session hsession => ?_
  refine perform_bind rfl Unmarking.writeComment hout fun hout => ?_
  refine Triple.bind (exportFrames_triple rectify _ _ 0 (fun _ _ h => by simp at h) hout) fun _ => ?_
  rintro out' ⟨-, os, hos, rfl⟩
  exact ⟨hsession, ⟨os, hos, rfl⟩, (writeFrames_unmarking os _).trans hout⟩

/-! ## Frame indices -/

/-- A group that passes has the next index. -/
theorem checkMessages_index {cfg : Config} {odoms : Dict ℤ Odometry} {expectedExt : Mat} {ns : ℤ} {g : Group}
    {s s' : CheckState} (h : checkMessages D cfg odoms expectedExt ns g s = .ok s') :
    g.metadata.frameIndex = s.count ∧ s'.count = s.count + 1 := by
  unfold checkMessages at h
  simp only [bind_ok, ite_eq_iff, reduceCtorEq, and_false, false_or] at h
  obtain ⟨hids, -, -, -, valid, -, offset, -, -, h⟩ := h
  rw [not_or, not_or, not_ne_iff] at hids
  refine ⟨hids.2.1, ?_⟩
  split at h
  · simp only [bind_ok, ite_eq_iff, reduceCtorEq, and_false, false_or, Except.ok.injEq] at h
    obtain ⟨-, _, -, -, _, -, -, _, -, -, -, -, rfl⟩ := h
    rfl
  · cases h

/-- The frame that is written has the index and the stamp of its group. -/
theorem frameOutput_index {rectify : Bool} {ns : ℤ} {group : GroupDict} {o : FrameOutput}
    (h : frameOutput D cv rectify ns group = .ok o) :
    o.ns = ns ∧ ∃ g, group.read = .ok g ∧ o.index = g.metadata.frameIndex := by
  simp only [frameOutput, bind_ok, Except.ok.injEq] at h
  obtain ⟨g, hg, images, -, _, -, _, -, line, -, rfl⟩ := h
  exact ⟨rfl, g, hg, rfl⟩

/-- The outputs of groups that pass are numbered one after the other. -/
theorem checkGroups_indices {cfg : Config} {odoms : Dict ℤ Odometry} {expectedExt : Mat} {rectify : Bool}
    {groups : List (ℤ × GroupDict)} {s s' : CheckState} {os : List FrameOutput}
    (h : checkGroups D cfg odoms expectedExt groups s = .ok s') (hos : Outputs D cv rectify groups os) :
    os.map FrameOutput.index = List.range' s.count os.length := by
  induction hos generalizing s with
  | nil => rfl
  | @cons g o groups os ho hos ih =>
    obtain ⟨ns, group⟩ := g
    unfold checkGroups checkGroup at h
    simp only [bind_ok] at h
    obtain ⟨t, ⟨read, hread, ht⟩, h⟩ := h
    obtain ⟨hindex, hcount⟩ := checkMessages_index ht
    obtain ⟨-, read', hread', ho'⟩ := frameOutput_index ho
    obtain rfl : read = read' := Except.ok.inj (hread.symm.trans hread')
    rw [List.map_cons, List.length_cons, List.range'_succ, ih h, hcount, ho', hindex]

/-- The frames of a bag that passes validation are numbered from zero. -/
theorem checkBag_indices {bag : Bag} {v : CheckResult} {rectify : Bool} {os : List FrameOutput}
    (h : checkBag D bag = .ok v) (hos : Outputs D cv rectify (frameGroups bag).1 os) :
    os.map FrameOutput.index = List.range os.length := by
  simp only [checkBag, bind_ok, ite_eq_iff, reduceCtorEq, and_false, false_or] at h
  obtain ⟨session, -, _, -, saved, -, _, -, odoms, -, -, statics, -, expectedExt, -, edges, -, _, -, -, s, hs, -⟩ := h
  rw [checkGroups_indices hs hos, List.range_eq_range']

/-! ## What is found afterwards -/

namespace FrameOutput

/-- Another path than those of the frame keeps its image. -/
theorem write_other (o : FrameOutput) (out : OutDir) {q : OutPath} (hrgb : q ≠ .rgb o.index o.ns) (hdepth : q ≠ o.depthPath)
    (hframes : q ≠ .frames) (hposes : q ≠ .poses) : o.write out q = out q := by
  unfold write
  rw [OutDir.writeFrame_other _ _ hframes, OutDir.writePose_other _ _ hposes, OutDir.put_other _ _ hdepth,
    OutDir.put_other _ _ hrgb]

theorem depthPath_ne_rgb (o : FrameOutput) (index : ℕ) (ns : ℤ) : o.depthPath ≠ .rgb index ns := by
  unfold depthPath
  split <;> simp

theorem depthPath_ne_frames (o : FrameOutput) : o.depthPath ≠ .frames := by
  unfold depthPath
  split <;> simp

theorem depthPath_ne_poses (o : FrameOutput) : o.depthPath ≠ .poses := by
  unfold depthPath
  split <;> simp

/-- Depth files of different frames are different. -/
theorem depthPath_inj {o o' : FrameOutput} (h : o.depthPath = o'.depthPath) : o.index = o'.index := by
  unfold depthPath at h
  split at h <;> split at h <;> simp at h <;> exact h.1

theorem write_rgb (o : FrameOutput) (out : OutDir) : o.write out (.rgb o.index o.ns) = some (.png o.color) := by
  unfold write
  rw [OutDir.writeFrame_other _ _ (by simp), OutDir.writePose_other _ _ (by simp),
    OutDir.put_other _ _ (o.depthPath_ne_rgb _ _).symm, OutDir.put_self]

theorem write_depth (o : FrameOutput) (out : OutDir) : o.write out o.depthPath = some o.depthEntry := by
  unfold write
  rw [OutDir.writeFrame_other _ _ o.depthPath_ne_frames, OutDir.writePose_other _ _ o.depthPath_ne_poses, OutDir.put_self]

theorem write_frames {o : FrameOutput} {out : OutDir} {lines : List FrameLine} (h : out .frames = some (.frames lines)) :
    o.write out .frames = some (.frames (lines ++ [o.line])) := by
  refine OutDir.writeFrame_self ?_
  rw [OutDir.writePose_other _ _ (by simp), OutDir.put_other _ _ o.depthPath_ne_frames.symm, OutDir.put_other _ _ (by simp), h]

theorem write_poses {o : FrameOutput} {out : OutDir} {comment : Bool} {lines : List PoseLine}
    (h : out .poses = some (.poses comment lines)) :
    o.write out .poses = some (.poses comment (lines ++ [⟨o.ns, o.pose⟩])) := by
  unfold write
  rw [OutDir.writeFrame_other _ _ (by simp)]
  refine OutDir.writePose_self ?_
  rw [OutDir.put_other _ _ o.depthPath_ne_poses.symm, OutDir.put_other _ _ (by simp), h]

end FrameOutput

/-- The frames written after the others leave a path alone that is none of theirs. -/
theorem writeFrames_other {q : OutPath} {os : List FrameOutput} (hframes : q ≠ .frames) (hposes : q ≠ .poses)
    (h : ∀ o ∈ os, q ≠ .rgb o.index o.ns ∧ q ≠ o.depthPath) (out : OutDir) : writeFrames os out q = out q := by
  induction os generalizing out with
  | nil => rfl
  | cons o os ih =>
    obtain ⟨hrgb, hdepth⟩ := h o List.mem_cons_self
    exact (ih (fun o' ho' => h o' (List.mem_cons_of_mem _ ho')) (o.write out)).trans
      (o.write_other out hrgb hdepth hframes hposes)

/-- Each frame is found, image by image, when no two have the same index. -/
theorem writeFrames_images {os : List FrameOutput} (hnodup : (os.map FrameOutput.index).Nodup) (out : OutDir) :
    ∀ o ∈ os, writeFrames os out (.rgb o.index o.ns) = some (.png o.color) ∧
      writeFrames os out o.depthPath = some o.depthEntry := by
  induction os generalizing out with
  | nil => exact fun o ho => absurd ho List.not_mem_nil
  | cons o os ih =>
    rw [List.map_cons, List.nodup_cons] at hnodup
    have hne : ∀ o' ∈ os, o.index ≠ o'.index := by
      intro o' ho' he
      exact hnodup.1 (he ▸ List.mem_map_of_mem ho')
    intro p hp
    rw [writeFrames_cons]
    rcases List.mem_cons.mp hp with rfl | hp
    · constructor
      · refine (writeFrames_other (by simp) (by simp) (fun o' ho' => ⟨?_, (o'.depthPath_ne_rgb _ _).symm⟩) _).trans
          (p.write_rgb out)
        intro he
        rw [OutPath.rgb.injEq] at he
        exact hne o' ho' he.1
      · refine (writeFrames_other p.depthPath_ne_frames p.depthPath_ne_poses
          (fun o' ho' => ⟨p.depthPath_ne_rgb _ _, ?_⟩) _).trans (p.write_depth out)
        intro he
        exact hne o' ho' (FrameOutput.depthPath_inj he)
    · exact ih hnodup.2 (o.write out) p hp

theorem writeFrames_frames {os : List FrameOutput} {out : OutDir} {lines : List FrameLine}
    (h : out .frames = some (.frames lines)) :
    writeFrames os out .frames = some (.frames (lines ++ os.map FrameOutput.line)) := by
  induction os generalizing out lines with
  | nil => rw [List.map_nil, List.append_nil]; exact h
  | cons o os ih =>
    refine (ih (FrameOutput.write_frames h)).trans ?_
    rw [List.map_cons, List.append_assoc]
    rfl

theorem writeFrames_poses {os : List FrameOutput} {out : OutDir} {comment : Bool} {lines : List PoseLine}
    (h : out .poses = some (.poses comment lines)) :
    writeFrames os out .poses = some (.poses comment (lines ++ os.map fun o => ⟨o.ns, o.pose⟩)) := by
  induction os generalizing out lines with
  | nil => rw [List.map_nil, List.append_nil]; exact h
  | cons o os ih =>
    refine (ih (FrameOutput.write_poses h)).trans ?_
    rw [List.map_cons, List.append_assoc]
    rfl

/-- A complete dataset: no marker, `dataset.json`, and for every frame of the bag its images, its line of `frames.jsonl` and
its line of `poses_tum.txt`. -/
structure Complete (D : Deps) (cv : Cv Maps) (bag : Bag) (rectify : Bool) (source : String) (validation : CheckResult)
    (out : OutDir) : Prop where
  unmarked : out .incomplete = none
  dataset : ∃ session, readSession bag = .ok session ∧
    out .dataset = some (.dataset ⟨session, validation, rectify, source, if rectify then "nearest" else "none"⟩)
  written : ∃ os, Outputs D cv rectify (frameGroups bag).1 os ∧ os.map FrameOutput.index = List.range os.length ∧
    (∀ o ∈ os, out (.rgb o.index o.ns) = some (.png o.color) ∧ out o.depthPath = some o.depthEntry) ∧
    out .frames = some (.frames (os.map FrameOutput.line)) ∧
    out .poses = some (.poses true (os.map fun o => ⟨o.ns, o.pose⟩))

/-- **What the `try` block does**: the dataset is complete, or a step of the block has raised and there is no marker. -/
theorem exportDataset_triple {bag : Bag} {validation : CheckResult} (hbag : checkBag D bag = .ok validation)
    (rectify : Bool) (source : String) {out : OutDir} (hout : out .incomplete = none) :
    Triple (· = out) (exportDataset D cv env bag rectify source validation)
      (fun _ out' => Complete D cv bag rectify source validation out') Failing := by
  unfold exportDataset
  refine Triple.bind (exportFiles_triple bag rectify hout) fun session => ?_
  rintro out' ⟨hsession, ⟨os, hos, rfl⟩, hout⟩
  rw [← bind_pure (perform _ _ _)]
  refine perform_bind rfl (Unmarking.put (by simp) _) hout (fun hout => Triple.pure ?_) _ rfl
  rintro out' rfl
  have hindices := checkBag_indices hbag hos
  have hnodup : (os.map FrameOutput.index).Nodup := by
    rw [hindices]
    exact List.nodup_range
  have hother : ∀ q ≠ OutPath.dataset, ∀ x, (writeFrames os (opened out)).put .dataset x q = writeFrames os (opened out) q :=
    fun q hq x => OutDir.put_other x _ hq
  refine ⟨hout, ⟨session, hsession, OutDir.put_self _ _ _⟩, os, hos, hindices, ?_, ?_, ?_⟩
  · intro o ho
    have himages := writeFrames_images hnodup (opened out) o ho
    rw [hother _ (by simp), hother _ (by unfold FrameOutput.depthPath; split <;> simp)]
    exact himages
  · rw [hother _ (by simp)]
    exact writeFrames_frames (show opened out .frames = some (.frames []) from rfl)
  · rw [hother _ (by simp)]
    exact writeFrames_poses (show opened out .poses = some (.poses true []) from rfl)

/-! ## The whole export -/

/-- The steps taken after the output directory has been made. -/
def Step.later : Step → Bool
  | .exists | .check | .mkdirOut => false
  | _ => true

/-- An export that returns has written a complete dataset, and one that fails after it has made the directory leaves the
marker in it. -/
def Marked (D : Deps) (cv : Cv Maps) (bag : Bag) (rectify : Bool) (source : String) (validation : CheckResult) :
    EStateM.Result (Step × Exn) OutDir Unit → Prop
  | .ok _ out => Complete D cv bag rectify source validation out
  | .error e out => e.1.later = true → ∃ text, out .incomplete = some (.marker text)

/-- The directory when the `try` block starts. -/
def prepared : OutDir := ((OutDir.absent.put .root .dir).put .rgbDir .dir).put .depthDir .dir

/-- The `try` block raises, in the directory it starts from. -/
def TryRaises (D : Deps) (cv : Cv Maps) (env : Step → Fault) (bag : Bag) (rectify : Bool) (source : String)
    (validation : CheckResult) : Prop :=
  ∃ e out, exportDataset D cv env bag rectify source validation prepared = .error e out

theorem perform_none {s : Step} (h : env s = .none) (f : OutDir → OutDir) (out : OutDir) :
    perform env s f out = .ok ⟨⟩ (f out) := by
  unfold perform
  rw [h]
  rfl

theorem attempt_none {α : Type} {s : Step} (h : env s = .none) (a : α) (out : OutDir) :
    attempt env s (.ok a) out = .ok a out := by
  unfold attempt
  rw [h]
  rfl

/-- A step at which the environment intervenes raises. -/
theorem perform_fault {s : Step} (h : env s ≠ .none) (f : OutDir → OutDir) (out : OutDir) :
    ∃ out', perform env s f out = .error (s, .fault) out' ∧ (out' = out ∨ out' = f out) := by
  unfold perform
  cases hs : env s with
  | none => exact absurd hs h
  | before => exact ⟨out, rfl, Or.inl rfl⟩
  | after => exact ⟨f out, rfl, Or.inr rfl⟩

theorem attempt_fault {α : Type} {s : Step} (h : env s ≠ .none) (x : Except PyErr α) (out : OutDir) :
    attempt env s x out = .error (s, .fault) out := by
  unfold attempt
  cases hs : env s with
  | none => exact absurd hs h
  | before => rfl
  | after => rfl

/-- An effect on the directory that raises before the `try` block leaves no marker. -/
theorem not_marked_of_fault {bag : Bag} {rectify : Bool} {source : String} {validation : CheckResult}
    {s : Step} (hlater : s.later = true) (hs : env s ≠ .none) {f : OutDir → OutDir} (hf : Unmarking f) {out : OutDir}
    (hout : out .incomplete = none) {k : Unit → M Unit} :
    ¬Marked D cv bag rectify source validation ((perform env s f >>= k) out) := by
  obtain ⟨out', hrun, hout'⟩ := perform_fault hs f out
  rw [bind_of_error hrun]
  intro h
  obtain ⟨text, htext⟩ := h hlater
  have hnone : out' .incomplete = none := by
    rcases hout' with rfl | rfl
    · exact hout
    · exact (hf out).trans hout
  rw [hnone] at htext
  cases htext

/-- **When a failed export is marked.** Once the bag is validated, and provided that the marker can be written: an export
fails to be complete, or to be marked, just when making `rgb` or `depth` raises, or the message at the end. -/
theorem export_marked {bag : Bag} {validation : CheckResult} (hbag : checkBag D bag = .ok validation)
    (hmarker : env .writeMarker = .none) (rectify : Bool) (source : String) :
    Marked D cv bag rectify source validation (exportBag D cv env bag rectify source .absent) ↔
      (env .check = .none → env .mkdirOut = .none → env .mkdirRgb = .none ∧ env .mkdirDepth = .none ∧
        (env .print = .none ∨ TryRaises D cv env bag rectify source validation)) := by
  unfold exportBag
  rw [bind_of_ok (show (get : M OutDir) .absent = .ok .absent .absent from rfl),
    if_neg (by rw [OutDir.absent]; simp), hbag]
  -- the steps before the directory exists
  by_cases hcheck : env .check = .none
  swap
  · rw [bind_of_error (attempt_fault hcheck _ _)]
    exact ⟨fun _ h => absurd h hcheck, fun _ h => by simp [Step.later] at h⟩
  rw [bind_of_ok (attempt_none hcheck _ _)]
  by_cases hout : env .mkdirOut = .none
  swap
  · obtain ⟨out, hrun, -⟩ := perform_fault hout (·.put .root .dir) OutDir.absent
    rw [bind_of_error hrun]
    exact ⟨fun _ _ h => absurd h hout, fun _ h => by simp [Step.later] at h⟩
  rw [bind_of_ok (perform_none hout _ _)]
  -- the steps that are not covered
  by_cases hrgb : env .mkdirRgb = .none
  swap
  · exact ⟨fun h => absurd h (not_marked_of_fault rfl hrgb (Unmarking.put (by simp) _) rfl),
      fun h => absurd (h hcheck hout).1 hrgb⟩
  rw [bind_of_ok (perform_none hrgb _ _)]
  by_cases hdepth : env .mkdirDepth = .none
  swap
  · exact ⟨fun h => absurd h (not_marked_of_fault rfl hdepth (Unmarking.put (by simp) _) rfl),
      fun h => absurd (h hcheck hout).2.1 hdepth⟩
  rw [bind_of_ok (perform_none hdepth _ _)]
  -- the `try` block
  rw [forall_prop_of_true hcheck, forall_prop_of_true hout]
  simp only [hrgb, hdepth, true_and]
  rw [show ((OutDir.absent.put .root .dir).put .rgbDir .dir).put .depthDir .dir = prepared from rfl]
  have htriple : Triple (· = prepared) (exportDataset D cv env bag rectify source validation)
      (fun _ out => Complete D cv bag rectify source validation out) Failing := exportDataset_triple hbag rectify source rfl
  have htry := htriple prepared rfl
  cases hrun : exportDataset D cv env bag rectify source validation prepared with
  | error e out =>
    rw [hrun] at htry
    rw [bind_of_error ((tryCatch_of_error hrun).trans (bind_of_ok (perform_none hmarker _ _)))]
    exact ⟨fun _ => Or.inr ⟨e, out, hrun⟩, fun _ _ => ⟨_, OutDir.put_self _ _ _⟩⟩
  | ok u out =>
    rw [hrun] at htry
    rw [bind_of_ok (tryCatch_of_ok hrun)]
    have hno : ¬TryRaises D cv env bag rectify source validation := by
      rintro ⟨e, out', h⟩
      rw [hrun] at h
      cases h
    by_cases hprint : env .print = .none
    · rw [perform_none hprint]
      exact ⟨fun _ => Or.inl hprint, fun _ => htry⟩
    · rw [← bind_pure (perform _ _ _)]
      refine ⟨fun h => absurd h (not_marked_of_fault rfl hprint (fun _ => rfl) htry.unmarked), fun h => ?_⟩
      exact (h.elim hprint hno).elim

end

/-! ## A recording of three frames -/

namespace Still

open Capture.Still

/-- The bag of the recording with the default configuration. -/
def bag : Bag := recordedBag {} (runAllCalls deps {} recording) 0 1000000000

theorem bag_valid : ∃ validation, checkBag deps bag = .ok validation := by
  have hok : (checkBag deps bag).isOk = true := by decide +kernel
  cases h : checkBag deps bag with
  | ok validation => exact ⟨validation, rfl⟩
  | error e =>
    rw [h] at hok
    cases hok

/-- Images are left as they are. -/
def cv : Cv Unit := ⟨id, id, fun _ _ _ => (), fun _ _ _ => (), fun image _ => image, fun image _ => image⟩

/-- There is no space for another directory after the first. -/
def noSpace (s : Step) : Fault := if s = .mkdirRgb then .before else .none

end Still

/-- **A failed export that is not marked.** The bag is valid, `rgb` cannot be made, and the directory is left without the
marker. -/
theorem mkdirRgb_unmarked :
    ∃ validation, checkBag Capture.Still.deps Still.bag = .ok validation ∧ Still.noSpace .writeMarker = .none ∧
      ∃ out, exportBag Capture.Still.deps Still.cv Still.noSpace Still.bag false "" .absent =
        .error (.mkdirRgb, .fault) out ∧ (out .root).isSome ∧ out .incomplete = none := by
  obtain ⟨validation, hbag⟩ := Still.bag_valid
  refine ⟨validation, hbag, rfl, OutDir.absent.put .root .dir, ?_, rfl, rfl⟩
  unfold exportBag
  rw [bind_of_ok (show (get : M OutDir) .absent = .ok .absent .absent from rfl),
    if_neg (by rw [OutDir.absent]; simp), hbag, bind_of_ok (attempt_none rfl _ _), bind_of_ok (perform_none rfl _ _)]
  exact bind_of_error rfl

/-- The export of the bag, where nothing goes wrong but closing a file, is marked. -/
theorem export_marked_closing :
    ∃ validation, checkBag Capture.Still.deps Still.bag = .ok validation ∧
      Marked Capture.Still.deps Still.cv Still.bag false "" validation
        (exportBag Capture.Still.deps Still.cv (fun s => if s = .closeFrames then .after else .none) Still.bag false ""
          .absent) := by
  obtain ⟨validation, hbag⟩ := Still.bag_valid
  refine ⟨validation, hbag, ?_⟩
  generalize Still.bag = bag at hbag ⊢
  exact (export_marked hbag rfl false "").2 fun _ _ => ⟨rfl, rfl, Or.inl rfl⟩

end Agilex.Capture.Export
