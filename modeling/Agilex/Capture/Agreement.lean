import Agilex.Capture.FrameGrammar
import Agilex.Capture.Groups
import Mathlib.Tactic.FinCases

/-!
# Recorder and validator agree

`frameGroups` and `checkBag` on the bag of a run that raises nothing.

- the records of every topic are read back in the order written (`Recording.read`);
- `frameGroups` yields the groups (`Recording.frameGroups`), and each passes the checks (`checkMessages_ok`);
- so `checkBag` accepts the bag (`recording_checked`), provided that the slop in nanoseconds does not let a pair through
  that the slop in seconds refuses, that tf2 keeps the static transforms as they are given, and that there are any.
-/

namespace Agilex.Capture

open Agilex.Lib Binary64 Outcome

/-! ## Frame groups -/

/-- The dictionary `frame_groups` collects for a group. -/
def Group.dict (g : Group) : GroupDict := GROUP.map fun t => (t, g.msg t)

theorem Group.read_dict (g : Group) : g.dict.read = .ok g := rfl

theorem Group.dict_complete (g : Group) : g.dict.complete = true := rfl

/-- The entries of a dictionary for some of the topics. -/
def Group.entries (g : Group) (ts : List GroupTopic) : GroupDict := ts.map fun t => (t, g.msg t)

/-- The records of a group on some of the topics. -/
def Group.recordsOn (g : Group) (ns : ℤ) (ts : List GroupTopic) : List GroupRecord := ts.map fun t => ⟨t, g.msg t, ns⟩

theorem Group.entries_recordsOn (g : Group) (ns : ℤ) (ts : List GroupTopic) :
    GroupRecord.entries (g.recordsOn ns ts) = g.entries ts := by
  rw [GroupRecord.entries, Group.recordsOn, List.map_map]
  rfl

theorem Group.recordsOn_topics (g : Group) (ns : ℤ) (ts : List GroupTopic) :
    (g.recordsOn ns ts).map GroupRecord.topic = ts := by
  rw [Group.recordsOn, List.map_map]
  exact List.map_id ts

/-- The records of the first group. -/
theorem groupsFrom_first (g : Group) (ns : ℤ) (rest : List Record) :
    groupsFrom none [] (g.records ns ++ rest) = groupsFrom (some ns) g.dict rest := by
  have htime : ∀ m ∈ g.recordsOn ns GROUP.tail, m.time = ns := by
    intro m hm
    obtain ⟨t, -, rfl⟩ := List.mem_map.1 hm
    rfl
  have hnodup : ((g.recordsOn ns GROUP).map GroupRecord.topic).Nodup := by
    rw [g.recordsOn_topics]
    decide
  have hcollect := GroupRecord.groupsFrom_collect rest (g.recordsOn ns GROUP.tail) [⟨.rgb, g.msg .rgb, ns⟩] htime hnodup
  calc groupsFrom none [] (g.records ns ++ rest)
      = groupsFrom (some ns) (GroupRecord.entries [⟨.rgb, g.msg .rgb, ns⟩])
          ((g.recordsOn ns GROUP.tail).map GroupRecord.record ++ rest) :=
        GroupRecord.groupsFrom_open ⟨.rgb, g.msg .rgb, ns⟩ _
    _ = groupsFrom (some ns) (GroupRecord.entries (g.recordsOn ns GROUP)) rest := hcollect
    _ = groupsFrom (some ns) g.dict rest := by
        rw [g.entries_recordsOn]
        rfl

/-- The records of one group, after a complete group at another stamp. -/
theorem groupsFrom_records (g : Group) {ns c : ℤ} (hc : c ≠ ns) {d : GroupDict} (hd : d.complete = true)
    (rest : List Record) :
    groupsFrom (some c) d (g.records ns ++ rest) =
      ((c, d) :: (groupsFrom (some ns) g.dict rest).1, (groupsFrom (some ns) g.dict rest).2) := by
  rw [← groupsFrom_first]
  exact GroupRecord.groupsFrom_next hd ⟨.rgb, g.msg .rgb, ns⟩ hc.symm _

/-- The groups with their stamps, as `frame_groups` yields them. -/
def yielded (gs : List Group) : List (ℤ × GroupDict) := gs.map fun g => (g.rgb.stamp, g.dict)

/-- Stamps increase from group to group. -/
def GroupsIncreasing (gs : List Group) : Prop := gs.Pairwise fun g g' => g.rgb.stamp < g'.rgb.stamp

theorem groupsFrom_groups (gs : List Group) (g : Group) (h : GroupsIncreasing (g :: gs)) :
    groupsFrom (some g.rgb.stamp) g.dict (Engine.groupRecords gs) = (yielded (g :: gs), none) := by
  induction gs generalizing g with
  | nil =>
    rw [Engine.groupRecords, List.flatMap_nil, groupsFrom, if_neg (by simp [Group.dict, GROUP]), g.dict_complete]
    rfl
  | cons g' gs ih =>
    obtain ⟨hlt, h'⟩ := List.pairwise_cons.1 h
    have hne : g.rgb.stamp ≠ g'.rgb.header.stamp := (hlt g' List.mem_cons_self).ne
    rw [Engine.groupRecords, List.flatMap_cons, groupsFrom_records g' hne g.dict_complete]
    rw [show gs.flatMap (fun g => g.records g.rgb.header.stamp) = Engine.groupRecords gs from rfl,
      show g'.rgb.header.stamp = g'.rgb.stamp from rfl, ih g' h']
    rfl

/-- **`frame_groups` yields the groups written.** -/
theorem groupsFrom_recorded (gs : List Group) (h : GroupsIncreasing gs) :
    groupsFrom none [] (Engine.groupRecords gs) = (yielded gs, none) := by
  cases gs with
  | nil => rfl
  | cons g gs =>
    rw [Engine.groupRecords, List.flatMap_cons, groupsFrom_first]
    exact groupsFrom_groups gs g h

/-- The records of increasing groups are in the order of time. -/
theorem groupRecords_sorted (gs : List Group) (h : GroupsIncreasing gs) :
    (Engine.groupRecords gs).Pairwise fun a b => a.time ≤ b.time := by
  refine List.pairwise_flatMap.2 ⟨fun g _ => ?_, h.imp fun {g g'} hlt x hx y hy => ?_⟩
  · refine List.pairwise_of_forall_mem_list fun x hx y hy => ?_
    obtain ⟨t, -, rfl⟩ := List.mem_map.1 hx
    obtain ⟨t', -, rfl⟩ := List.mem_map.1 hy
    exact le_rfl
  · obtain ⟨t, -, rfl⟩ := List.mem_map.1 hx
    obtain ⟨t', -, rfl⟩ := List.mem_map.1 hy
    exact le_of_lt hlt

/-! ## Reading messages -/

variable {D : Deps} {cfg : Config}

/-- The loop over the odometry records keeps every sample under its stamp. -/
theorem readOdoms_ok (D : Deps) (cfg : Config) (ms : List Odometry) (rs : List Record)
    (hrs : rs.map Record.msg = ms.map Msg.odometry)
    (hinc : Increasing ms) (hok : ∀ m ∈ ms, m.header.frameId = cfg.world ∧ m.childFrameId = cfg.body ∧
      ∃ mat, poseMatrix D.num m.pose = .ok mat) (odoms : Dict ℤ Odometry) (last : ℤ)
    (hlast : ∀ m ∈ ms, last < m.header.stamp) :
    ∃ odoms', readOdoms D cfg odoms last rs = .ok odoms' ∧
      (∀ m ∈ ms, List.lookup m.header.stamp odoms' = some m) ∧
      ∀ ns, (∀ m ∈ ms, m.header.stamp ≠ ns) → List.lookup ns odoms' = List.lookup ns odoms := by
  induction ms generalizing rs odoms last with
  | nil =>
    obtain rfl : rs = [] := by simpa using hrs
    exact ⟨odoms, rfl, by simp, fun _ _ => rfl⟩
  | cons m ms ih =>
    cases rs with
    | nil => simp at hrs
    | cons r rs =>
      simp only [List.map_cons, List.cons.injEq] at hrs
      obtain ⟨hm, hinc'⟩ := List.pairwise_cons.1 hinc
      obtain ⟨h1, h2, mat, h3⟩ := hok m List.mem_cons_self
      obtain ⟨odoms', hr, hall, hother⟩ := ih rs hrs.2 hinc' (fun x hx => hok x (List.mem_cons_of_mem _ hx))
        (Dict.set odoms m.header.stamp m) m.header.stamp hm
      have hnew : ¬(m.header.stamp ≤ last ∨ m.header.frameId ≠ cfg.world ∨ m.childFrameId ≠ cfg.body) := by
        push Not
        exact ⟨hlast m List.mem_cons_self, h1, h2⟩
      refine ⟨odoms', ?_, fun x hx => ?_, fun ns hns => ?_⟩
      · rw [readOdoms, hrs.1]
        simp only [hnew, ↓reduceIte, h3]
        exact hr
      · rcases List.mem_cons.1 hx with rfl | hx
        · rw [hother x.header.stamp fun y hy => (hm y hy).ne', Dict.lookup_set, if_pos rfl]
        · exact hall x hx
      · rw [hother ns fun y hy => hns y (List.mem_cons_of_mem _ hy), Dict.lookup_set,
          if_neg (hns m List.mem_cons_self).symm]

theorem readTransforms_ok (ls : List (List TransformStamped)) (rs : List Record)
    (hrs : rs.map Record.msg = ls.map Msg.transforms) : readTransforms rs = .ok ls.flatten := by
  induction ls generalizing rs with
  | nil =>
    obtain rfl : rs = [] := by simpa using hrs
    rfl
  | cons l ls ih =>
    cases rs with
    | nil => simp at hrs
    | cons r rs =>
      simp only [List.map_cons, List.cons.injEq] at hrs
      rw [readTransforms, hrs.1]
      simp only [ih rs hrs.2, List.flatten_cons]
      rfl

/-- Whether a transform is an edge from the world to the body. -/
abbrev TransformStamped.worldBody (cfg : Config) (t : TransformStamped) : Prop :=
  t.header.frameId = cfg.world ∧ t.childFrameId = cfg.body

theorem findWorldBody_ok (D : Deps) (cfg : Config) (ts : List TransformStamped)
    (hok : ∀ t ∈ ts, t.worldBody cfg → ∃ m, transformMatrix D.num t = .ok m) :
    ∃ found, findWorldBody D cfg ts = .ok found ∧ ((∃ t ∈ ts, t.worldBody cfg) → found = true) := by
  induction ts with
  | nil => exact ⟨false, rfl, by simp⟩
  | cons t ts ih =>
    obtain ⟨found, hf, himp⟩ := ih fun x hx => hok x (List.mem_cons_of_mem _ hx)
    by_cases hw : t.worldBody cfg
    · obtain ⟨m, hm⟩ := hok t List.mem_cons_self hw
      refine ⟨true, ?_, fun _ => rfl⟩
      rw [findWorldBody, if_pos hw, hm, hf]
      rfl
    · refine ⟨found, by rw [findWorldBody, if_neg hw, hf], fun ⟨x, hx, hxw⟩ => himp ?_⟩
      rcases List.mem_cons.1 hx with rfl | hx
      · exact absurd hxw hw
      · exact ⟨x, hx, hxw⟩

/-! ## Checking groups -/

/-- A number agrees with itself within any tolerance. -/
theorem sub_self_le (x : ℚ) {tol : ℚ} (h : 0 ≤ tol) : ¬lit tol < |sub x x| := by
  rw [show sub x x = 0 by simp [sub, rnd_zero], abs_zero, not_lt]
  exact rnd_nonneg h

/-- The camera pose at `target` does not overflow. -/
def PoseFits (D : Deps) (a b : Odometry) (target : ℤ) (ext : Mat) : Prop :=
  ∀ m, interpolate D.num a b target = .ok m → FloatMat.Finite (D.num.matmul m.1 ext)

instance (D : Deps) (a b : Odometry) (target : ℤ) (ext : Mat) : Decidable (PoseFits D a b target ext) :=
  match h : interpolate D.num a b target with
  | .ok m => decidable_of_iff (FloatMat.Finite (D.num.matmul m.1 ext)) (by simp [PoseFits, h])
  | .error _ => .isTrue (by simp [PoseFits, h])

/-- No camera pose at one of the stamps, between two of the samples, overflows. -/
def PosesFit (D : Deps) (cfg : Config) (acc : List Odometry) (stamps : List ℤ) (ext : Mat) : Prop :=
  ∀ a ∈ acc, ∀ b ∈ acc, ∀ t ∈ stamps, ∀ offset, pyRound (mul cfg.cameraTimeOffset (10 ^ 9)) = .ok offset →
    PoseFits D a b (t + offset) ext

/-- **A sound group passes the checks**, if the slop in seconds admits it, its extrinsic is the expected one and its pose
has not overflown. -/
theorem checkMessages_ok (hnum : D.num.Faithful) {odoms : Dict ℤ Odometry} {expectedExt : Mat} {g : Group} {s : CheckState}
    {acc : List Odometry} {stamps : List ℤ} (hfit : PosesFit D cfg acc stamps expectedExt) (hstamp : g.rgb.stamp ∈ stamps)
    (h : Sound D cfg acc s.count g) (hl : ∀ m ∈ acc, List.lookup m.header.stamp odoms = some m)
    (hprev : s.previous < g.rgb.stamp) (hslop : divFloat |g.dep.stamp - g.rgb.stamp| (10 ^ 9) ≤ cfg.rgbdSlop)
    (hext : transformMatrix D.num g.ext = .ok expectedExt) :
    ∃ s', checkMessages D cfg odoms expectedExt g.rgb.stamp g s = .ok s' ∧ s'.count = s.count + 1 ∧
      s'.previous = g.rgb.stamp := by
  obtain ⟨a, ha, b, hb, hat, hbt, hgap, body, ext, hi, hext', hpose⟩ := h.pose
  obtain rfl : ext = expectedExt := by
    rw [hext] at hext'
    exact (Except.ok.inj hext').symm
  have hfin := hfit a ha b hb _ hstamp _ h.query
  rw [add_sub_cancel] at hfin
  obtain ⟨m, hm, hclose⟩ := hnum a b _ body _ _ ext hi hext (hfin _ hi)
  rw [← hpose] at hm
  have hla := hl a ha
  have hlb := hl b hb
  rw [hat] at hla
  rw [hbt] at hlb
  obtain ⟨hw, hbody, hoptical⟩ := h.frames
  obtain ⟨hscale, henc⟩ := h.units
  have hids : ¬(g.rgb.stamp ≤ s.previous ∨ g.metadata.frameIndex ≠ s.count ∨
      ∃ x ∈ [g.rgb.header, g.dep.header, g.ci.header, g.di.header, g.pose.header, g.ext.header], x.seq ≠ s.count) := by
    push Not
    exact ⟨hprev, h.index, h.seqs⟩
  have hquery : g.rgb.stamp + (g.metadata.poseQueryStampNs - g.rgb.stamp) = g.metadata.poseQueryStampNs := by omega
  have hslop' : ¬cfg.rgbdSlop < divFloat |g.dep.header.stamp - g.rgb.header.stamp| (10 ^ 9) := not_lt.2 hslop
  have hrepro : ¬(¬allcloseTo (lit (1 / 10 ^ 6)) m (D.num.matmul body ext) ∨
      lit (1 / 10 ^ 9) < |sub g.metadata.interpolationAlpha g.metadata.interpolationAlpha|) := by
    rw [not_or, not_not]
    exact ⟨hclose, sub_self_le _ (by norm_num)⟩
  have hvalid : ¬(lit (1 / 10 ^ 6) < |sub g.metadata.depthValidFraction g.metadata.depthValidFraction| ∨
      g.metadata.depthValidFraction = 0) := by
    rw [not_or]
    exact ⟨sub_self_le _ (by norm_num), h.valid_ne⟩
  have hsame : allclose (lit (1 / 10 ^ 7)) ext ext := allclose_refl (rnd_nonneg (by norm_num)) ext
  unfold checkMessages
  simp only [hids, h.poseStamp, h.rgbStamp, h.extStamp, h.depthStamp, h.infoStamps.1, h.infoStamps.2, h.valid, h.query,
    hquery, h.delta, hslop', hla, hlb, not_lt.2 hgap, hi, hw, hbody, hoptical, hext, hsame, hm, hrepro, hvalid, hscale, henc,
    Image.stamp, bind, Except.bind, ne_eq, not_true_eq_false, or_self, ↓reduceIte]
  exact ⟨_, rfl, rfl, rfl⟩

theorem checkGroups_ok (hnum : D.num.Faithful) {odoms : Dict ℤ Odometry} {expectedExt : Mat} {acc : List Odometry}
    {stamps : List ℤ} (hfit : PosesFit D cfg acc stamps expectedExt)
    (hl : ∀ m ∈ acc, List.lookup m.header.stamp odoms = some m) (gs : List Group) (s : CheckState)
    (hs : ∀ i g, gs[i]? = some g → Sound D cfg acc (s.count + i) g) (hinc : GroupsIncreasing gs)
    (hprev : ∀ g ∈ gs, s.previous < g.rgb.stamp) (hstamps : ∀ g ∈ gs, g.rgb.stamp ∈ stamps)
    (hslop : ∀ g ∈ gs, divFloat |g.dep.stamp - g.rgb.stamp| (10 ^ 9) ≤ cfg.rgbdSlop)
    (hext : ∀ g ∈ gs, transformMatrix D.num g.ext = .ok expectedExt) :
    ∃ s', checkGroups D cfg odoms expectedExt (yielded gs) s = .ok s' ∧ s'.count = s.count + gs.length := by
  induction gs generalizing s with
  | nil => exact ⟨s, rfl, rfl⟩
  | cons g gs ih =>
    obtain ⟨hlt, hinc'⟩ := List.pairwise_cons.1 hinc
    obtain ⟨t, ht, hc, hp⟩ := checkMessages_ok hnum hfit (hstamps g List.mem_cons_self) (by simpa using hs 0 g rfl) hl
      (hprev g List.mem_cons_self)
      (hslop g List.mem_cons_self) (hext g List.mem_cons_self)
    obtain ⟨s', hs', hcount⟩ := ih t
      (fun i g' hi => by
        have := hs (i + 1) g' (by simpa using hi)
        rwa [show s.count + (i + 1) = t.count + i by omega] at this)
      hinc' (fun g' hg' => by rw [hp]; exact hlt g' hg') (fun g' hg' => hstamps g' (List.mem_cons_of_mem _ hg'))
      (fun g' hg' => hslop g' (List.mem_cons_of_mem _ hg'))
      (fun g' hg' => hext g' (List.mem_cons_of_mem _ hg'))
    refine ⟨s', ?_, by rw [hcount, hc, List.length_cons]; omega⟩
    simp only [yielded, List.map_cons, checkGroups, checkGroup, g.read_dict, bind, Except.bind, ht]
    exact hs'

/-! ## The recorded bag -/

/-- A recording: calls that raise nothing, in the order of arrival, with a frame emitted, a sound edge from the world to
the body, and an extrinsic that stays. -/
structure Recording (D : Deps) (cfg : Config) (cs : List Call) (e : Engine) : Prop where
  valid : cfg.validate = .ok ()
  run : runCalls D cfg cs = .ok e
  drained : ∃ cs' wall, cs = cs' ++ [.drain wall true]
  ordered : (arrivals cs).Pairwise (· ≤ ·)
  frames : 0 < e.stats .frames
  edge : ∃ t ∈ (tfMessages cs).flatten, t.worldBody cfg
  edges : ∀ t ∈ (tfMessages cs).flatten, t.worldBody cfg → ∃ m, transformMatrix D.num t = .ok m
  steady : ExtrinsicSteady D cfg cs e

/-- The condition on the calls under which recorder and validator agree: the slop in nanoseconds lets no pair of images
through that the slop in seconds refuses, tf2 keeps the static transforms as they are given, there are any unless the
body is the camera, and no camera pose overflows. -/
structure Agreeing (D : Deps) (cfg : Config) (cs : List Call) : Prop where
  slop : ∀ rgb ∈ Engine.delivered .rgb cs, ∀ dep ∈ Engine.delivered .depth cs, |dep.stamp - rgb.stamp| ≤ cfg.slopNs →
    divFloat |dep.stamp - rgb.stamp| (10 ^ 9) ≤ cfg.rgbdSlop
  statics : cfg.body ≠ cfg.optical ∨ staticMessages cs ≠ []
  storable : ∀ t ∈ (staticMessages cs).flatten, t.Storable
  fits : ∀ ext, expectedExtrinsic D cfg (staticMessages cs).flatten = .ok ext →
    PosesFit D cfg (odometryMessages cs) ((Engine.delivered .rgb cs).map Image.stamp) ext

variable {cs : List Call} {e : Engine} {sessionNs reportNs : ℤ}

/-- The session and the report are on topics of their own. -/
theorem recordedBag_filter (topics : Topic → Bool) (hs : topics .session = false) (hr : topics .report = false) :
    (recordedBag cfg e sessionNs reportNs).filter (fun r => topics r.topic) =
      e.written.filter fun r => topics r.topic := by
  simp [recordedBag, List.filter_append, hs, hr]

/-- The records of a message topic are read in the order written. -/
theorem Recording.read (h : Recording D cfg cs e) (sessionNs reportNs : ℤ) {t : Topic} (hg : t.isGroup = false)
    (hs : t ≠ .session) (hr : t ≠ .report) : readMessages (recordedBag cfg e sessionNs reportNs) (· = t) = e.recordsOn t := by
  have hfilter : (recordedBag cfg e sessionNs reportNs).filter (fun r => decide (r.topic = t)) = e.recordsOn t :=
    recordedBag_filter (fun t' => decide (t' = t)) (by simpa using Ne.symm hs) (by simpa using Ne.symm hr)
  have hsub : (e.recordsOn t).Sublist e.messageRecords := by
    have hsame : e.recordsOn t = e.messageRecords.filter fun r => r.topic = t := by
      rw [Engine.messageRecords, List.filter_filter, Engine.recordsOn]
      refine List.filter_congr fun r _ => ?_
      by_cases hrt : r.topic = t <;> simp [hrt, hg]
    rw [hsame]
    exact List.filter_sublist
  have hsorted : (e.recordsOn t).Pairwise fun a b => a.time ≤ b.time :=
    (List.pairwise_map.1 (h.ordered.sublist (Engine.messageRecords_times h.run))).sublist hsub
  rw [readMessages, hfilter]
  exact hsorted.insertionSort_eq

/-- A topic the engine never writes has the one record it was given. -/
theorem readSession_recorded (hs : ∀ r ∈ e.written, r.topic ≠ .session) :
    readSession (recordedBag cfg e sessionNs reportNs) = .ok { config := cfg, rawSensors := false } := by
  have hnone : e.written.filter (fun r => decide (r.topic = .session)) = [] := by simpa [List.filter_eq_nil_iff] using hs
  have hread : readMessages (recordedBag cfg e sessionNs reportNs) (· = .session) =
      [⟨.session, .session { config := cfg, rawSensors := false }, sessionNs⟩] := by
    simp [readMessages, recordedBag, List.filter_append, hnone]
  rw [readSession, hread]
  rfl

theorem readReport_recorded (hr : ∀ r ∈ e.written, r.topic ≠ .report) :
    readReport (recordedBag cfg e sessionNs reportNs) =
      .ok { e.report cfg with status := "RECORDED", error := none } := by
  have hnone : e.written.filter (fun r => decide (r.topic = .report)) = [] := by simpa [List.filter_eq_nil_iff] using hr
  have hread : readMessages (recordedBag cfg e sessionNs reportNs) (· = .report) =
      [⟨.report, .report { e.report cfg with status := "RECORDED", error := none }, reportNs⟩] := by
    simp [readMessages, recordedBag, List.filter_append, hnone]
  rw [readReport, hread]
  simp

/-- The groups of a recording have increasing positive stamps and delivered images within the slop. -/
theorem Recording.groups (htf : Tf2Laws D) (h : Recording D cfg cs e) :
    GroupsIncreasing e.groups ∧ ∀ g ∈ e.groups, 0 < g.rgb.stamp ∧
      ∃ rgb ∈ Engine.delivered .rgb cs, ∃ dep ∈ Engine.delivered .depth cs, rgb.stamp = g.rgb.stamp ∧ dep.stamp = g.dep.stamp ∧
        |dep.stamp - rgb.stamp| ≤ cfg.slopNs := by
  have hlog := Engine.GroupLog.run htf h.run
  have hbuf := Engine.PairBuffers.run D cfg cs
  rw [show runAllCalls D cfg cs = e from runAll_of_run h.run] at hbuf
  have hsub : (e.groups.map Group.stamps).Sublist (e.pairs.map pairStamps) :=
    (List.sublist_append_left _ _).trans hlog.queue
  constructor
  · have hpw : (e.pairs.map pairStamps).Pairwise fun p q => p.1 < q.1 := List.pairwise_map.2 hbuf.ordered
    have hgs : (e.groups.map Group.stamps).Pairwise fun p q => p.1 < q.1 := hpw.sublist hsub
    exact (List.pairwise_map (f := Group.stamps)).1 hgs
  · intro g hg
    obtain ⟨p, hp, hps⟩ := List.mem_map.1 (hsub.subset (List.mem_map_of_mem hg))
    obtain ⟨h1, h2, h3⟩ := hbuf.sound p hp
    simp only [pairStamps, Group.stamps, Prod.mk.injEq] at hps
    obtain ⟨hd1, hpos⟩ := Engine.images_delivered h.run .rgb p.1 h1
    obtain ⟨hd2, -⟩ := Engine.images_delivered h.run .depth p.2 h2
    exact ⟨hps.1 ▸ hpos, p.1, hd1, p.2, hd2, hps.1, hps.2, h3⟩

/-- The extrinsic of every group is the one the recorded static transforms give. -/
theorem Recording.extrinsic (htf : Tf2Laws D) (h : Recording D cfg cs e)
    {tf : List TransformStamped} (hst : ∀ t ∈ e.tf, t.Storable) (hst' : ∀ t ∈ tf, t.Storable)
    (hlast : ∀ child, lastTransform child tf = lastTransform child e.tf) :
    ∀ g ∈ e.groups, transformMatrix D.num g.ext = expectedExtrinsic D cfg tf := by
  intro g hg
  obtain ⟨cs₁, cs₂, e₁, hcs, hrun, hpos, hres⟩ := Engine.extrinsic_resolved htf h.run g hg
  rw [h.steady cs₁ cs₂ e₁ hcs hrun hpos, resolved] at hres
  cases hl : D.lookupTransform e.tf cfg.body cfg.optical with
  | error err => simp [hl, Except.toOption] at hres
  | ok t =>
    obtain ⟨t', ht', h1, h2⟩ := htf.last e.tf tf _ _ t hst hst' (fun child => (hlast child).symm) hl
    simp only [hl, Except.toOption, Option.map_some, Option.some.injEq, Prod.mk.injEq] at hres
    rw [expectedExtrinsic, ht', transformMatrix, ← hres.1, ← hres.2, ← h1, ← h2]
    rfl

/-- **`frame_groups` yields the groups `drain` wrote, in their order.** -/
theorem Recording.frameGroups (htf : Tf2Laws D) (h : Recording D cfg cs e)
    (sessionNs reportNs : ℤ) : frameGroups (recordedBag cfg e sessionNs reportNs) = (yielded e.groups, none) := by
  have hlog := Engine.GroupLog.run htf h.run
  obtain ⟨hinc, -⟩ := h.groups htf
  have hfilter : (recordedBag cfg e sessionNs reportNs).filter (fun r => r.topic.isGroup) = Engine.groupRecords e.groups :=
    (recordedBag_filter Topic.isGroup rfl rfl).trans hlog.records
  have hread : readMessages (recordedBag cfg e sessionNs reportNs) Topic.isGroup = Engine.groupRecords e.groups := by
    rw [readMessages, hfilter]
    exact (groupRecords_sorted e.groups hinc).insertionSort_eq
  rw [Agilex.Capture.frameGroups, hread]
  exact groupsFrom_recorded e.groups hinc

/-- The messages on a topic are counted. -/
theorem Recording.count (h : Recording D cfg cs e) (sessionNs reportNs : ℤ) {t : Topic} (hg : t.isGroup = false)
    (hs : t ≠ .session) (hr : t ≠ .report) : messageCount (recordedBag cfg e sessionNs reportNs) t = (e.recordsOn t).length := by
  have hlen := congrArg List.length (h.read sessionNs reportNs hg hs hr)
  rw [readMessages, List.length_insertionSort] at hlen
  rw [messageCount, List.countP_eq_length_filter, hlen]

/-- **Recorder and validator agree.** A recording's bag is accepted, with as many frames as groups were emitted, whenever
the calls are `Agreeing`; and `frame_groups` yields just those groups. -/
theorem recording_checked (hnum : D.num.Faithful) (htf : Tf2Laws D) (h : Recording D cfg cs e) (ha : Agreeing D cfg cs)
    (sessionNs reportNs : ℤ) :
    frameGroups (recordedBag cfg e sessionNs reportNs) = (yielded e.groups, none) ∧
      ∃ result, checkBag D (recordedBag cfg e sessionNs reportNs) = .ok result ∧ result.frames = e.groups.length ∧
        e.groups.length = e.stats .frames := by
  have hlog := Engine.GroupLog.run htf h.run
  have hodom := Engine.OdomLog.run h.run
  have htfs := Engine.TfLog.run h.run
  have hbuf := Engine.OdomBuffer.run D cfg cs
  rw [show runAllCalls D cfg cs = e from runAll_of_run h.run] at hbuf
  obtain ⟨hinc, hgroups⟩ := h.groups htf
  have hframes := h.frameGroups htf sessionNs reportNs
  refine ⟨hframes, ?_⟩
  -- the odometry, found again by its stamps
  obtain ⟨odoms, hread, hlook, -⟩ := readOdoms_ok D cfg e.accepted (e.recordsOn .odom) hodom.records
    hbuf.increasing (fun m hm => (hodom.samples m hm).2) [] (-1) (fun m hm => by
      have := (hodom.samples m hm).1
      omega)
  -- the static transforms give the extrinsic of every group
  obtain ⟨ls, hls, hlen, hlast, hmem⟩ := htfs.static
  have hst : ∀ t ∈ e.tf, t.Storable := fun t ht => ha.storable t (htfs.set ▸ ht)
  have hext := h.extrinsic htf hst (fun t ht => hst t (hmem t ht)) hlast
  have hext' := h.extrinsic htf hst hst fun _ => rfl
  have hpos : 0 < e.groups.length := hlog.frames ▸ h.frames
  obtain ⟨g₀, hg₀⟩ : ∃ g, e.groups[0]? = some g := ⟨_, List.getElem?_eq_getElem hpos⟩
  have hg₀m := List.mem_of_getElem? hg₀
  obtain ⟨expected, hexp⟩ : ∃ m, expectedExtrinsic D cfg ls.flatten = .ok m := by
    obtain ⟨_, _, _, _, _, _, _, _, m, _, hm, _⟩ := (hlog.sound 0 g₀ hg₀).pose
    exact ⟨m, (hext g₀ hg₀m).symm.trans hm⟩
  -- there are transforms of both kinds
  have htfCount : messageCount (recordedBag cfg e sessionNs reportNs) .tf ≠ 0 := by
    rw [h.count sessionNs reportNs rfl (by simp) (by simp), ← List.length_map (f := Record.msg), htfs.tf, List.length_map]
    obtain ⟨t, ht, -⟩ := h.edge
    intro h0
    rw [List.length_eq_zero_iff.1 h0] at ht
    simp at ht
  have hstaticCount : messageCount (recordedBag cfg e sessionNs reportNs) .tfStatic ≠ 0 := by
    rw [h.count sessionNs reportNs rfl (by simp) (by simp), ← List.length_map (f := Record.msg), hls, List.length_map, hlen]
    intro h0
    have hnil := List.length_eq_zero_iff.1 h0
    obtain ⟨cs₁, cs₂, e₁, hcs, hrun, hpos, hres⟩ := Engine.extrinsic_resolved htf h.run g₀ hg₀m
    rw [h.steady cs₁ cs₂ e₁ hcs hrun hpos, resolved, htfs.set, hnil, List.flatten_nil] at hres
    cases hl : D.lookupTransform [] cfg.body cfg.optical with
    | error err => simp [hl, Except.toOption] at hres
    | ok t => exact htf.empty _ _ t (ha.statics.resolve_right (not_not.2 hnil)) hl
  -- the loop over the groups
  have hfit : PosesFit D cfg e.accepted ((Engine.delivered .rgb cs).map Image.stamp) expected := fun a ha' b hb => by
    refine ha.fits expected ?_ a (hodom.given a ha') b (hodom.given b hb)
    rw [← htfs.set, ← hext' g₀ hg₀m, hext g₀ hg₀m, hexp]
  obtain ⟨s, hs, hcount⟩ := checkGroups_ok hnum hfit hlook e.groups {}
    (fun i g hi => by simpa using hlog.sound i g hi) hinc
    (fun g hg => by
      show (-1 : ℤ) < _
      have := (hgroups g hg).1
      omega)
    (fun g hg => by
      obtain ⟨-, rgb, hrgb, -, -, h1, -⟩ := hgroups g hg
      exact List.mem_map.2 ⟨rgb, hrgb, h1⟩)
    (fun g hg => by
      obtain ⟨-, rgb, hrgb, dep, hdep, h1, h2, h3⟩ := hgroups g hg
      rw [← h1, ← h2]
      exact ha.slop rgb hrgb dep hdep h3)
    (fun g hg => (hext g hg).trans hexp)
  obtain ⟨found, hfound, hedge⟩ := findWorldBody_ok D cfg (tfMessages cs).flatten h.edges
  have hcount' : s.count = e.groups.length := by simpa using hcount
  have hsaved : ¬e.stats .frames ≠ s.count := by rw [hcount', hlog.frames]; simp
  have hne : ¬s.count = 0 := by omega
  refine ⟨s.result, ?_, hcount', hlog.frames.symm⟩
  unfold checkBag
  simp only [readSession_recorded fun r hr => (hlog.sources r hr).1, readReport_recorded fun r hr => (hlog.sources r hr).2,
    bind, Except.bind, h.valid, checkRawCounts, Bool.false_eq_true, false_and, ↓reduceIte,
    h.read sessionNs reportNs (t := .odom) rfl (by simp) (by simp),
    h.read sessionNs reportNs (t := .tf) rfl (by simp) (by simp),
    h.read sessionNs reportNs (t := .tfStatic) rfl (by simp) (by simp),
    hread, htfCount, hstaticCount, or_self, readTransforms_ok _ _ htfs.tf, readTransforms_ok _ _ hls, hexp, hfound,
    hedge h.edge, not_true_eq_false, hframes, hs, Engine.report, hsaved, hne]

/-! ## Two recordings without rotations -/

namespace Still

/-- A pose without rotation. -/
theorem poseMatrix_noRotation (x y z : ℚ) :
    poseMatrix numerics ⟨⟨.fin x, .fin y, .fin z⟩, ⟨.fin 0, .fin 0, .fin 0, .fin 1⟩⟩ =
      .ok (withTranslation identity x y z) := by
  have hunit : ¬lit (1 / 100) < |sub (numerics.norm ⟨0, 0, 0, 1⟩) 1| := by
    rw [show numerics.norm ⟨0, 0, 0, 1⟩ = 1 from abs_one]
    exact sub_self_le 1 (by norm_num)
  simp only [poseMatrix, Vector3.finite?, Quaternion.finite?, Double.finite?_fin, hunit, ↓reduceIte]
  rfl

/-- Nothing turns. -/
theorem poseMatrix_ok {p : Pose} {m : Mat} (h : poseMatrix numerics p = .ok m) :
    ∃ x y z, m = withTranslation identity x y z := by
  unfold poseMatrix at h
  split at h
  · rename_i x y z q _ _
    split at h
    · cases h
    · cases h
      exact ⟨x, y, z, rfl⟩
  · cases h

theorem interpolate_translation {a b : Odometry} {target : ℤ} {m : FloatMat} {alpha : ℚ}
    (h : interpolate numerics a b target = .ok (m, alpha)) : ∃ x y z, m = withTranslation identity.floats x y z := by
  unfold interpolate at h
  simp only at h
  split at h
  · cases h
  · obtain ⟨ma, -, h⟩ := bind_ok.1 h
    obtain ⟨mb, -, h⟩ := bind_ok.1 h
    cases h
    exact ⟨_, _, _, rfl⟩

/-- The product of two translations, if it is finite. -/
theorem matmul_translation {x y z : Double} {x' y' z' : ℚ}
    (hfin : FloatMat.Finite
      (numerics.matmul (withTranslation identity.floats x y z) (withTranslation identity x' y' z'))) :
    ∃ u v w, numerics.matmul (withTranslation identity.floats x y z) (withTranslation identity x' y' z') =
      Mat.floats (withTranslation identity u v w) := by
  have hx := hfin 0 3
  have hy := hfin 1 3
  have hz := hfin 2 3
  cases x <;> cases y <;> cases z <;> simp [numerics, withTranslation, identity, Mat.floats] at hx hy hz
  next x y z =>
    refine ⟨x' + x, y' + y, z' + z, ?_⟩
    funext i j
    fin_cases i <;> fin_cases j <;>
      simp [numerics, withTranslation, identity, Mat.floats, Double.ofResult_eq hx, Double.ofResult_eq hy,
        Double.ofResult_eq hz]

theorem numerics_faithful : numerics.Faithful := by
  intro a b target body alpha t ext hi ht hfin
  obtain ⟨x, y, z, rfl⟩ := interpolate_translation hi
  obtain ⟨x', y', z', rfl⟩ := poseMatrix_ok ht
  obtain ⟨u, v, w, heq⟩ := matmul_translation hfin
  rw [heq]
  exact ⟨_, poseMatrix_noRotation u v w, fun i j => isclose_refl (rnd_nonneg (by norm_num)) _⟩

theorem deps_laws : Tf2Laws deps := by
  refine ⟨fun tf target source t h => ?_, fun target source t hne h => ?_, fun tf tf' target source t _ _ hlast h => ?_⟩
  · simp only [deps, lookupTransform] at h
    split at h
    · rename_i heq
      cases h
      exact ⟨rfl, heq⟩
    · split at h
      · rename_i t' hfind
        split at h
        · cases h
          exact ⟨rfl, by simpa using List.find?_some hfind⟩
        · cases h
      · cases h
  · simp [deps, lookupTransform, hne] at h
  · refine ⟨t, ?_, rfl, rfl⟩
    have hl : (tf.reverse.find? fun t => t.childFrameId = source) = tf'.reverse.find? fun t => t.childFrameId = source :=
      hlast source
    simp only [deps, lookupTransform, hl] at h ⊢
    exact h

/-- When all static transforms come first, the extrinsic stays. -/
theorem steady_of_first {D : Deps} {cfg : Config} {c : Call} {cs : List Call} {e : Engine}
    (hr : runCalls D cfg (c :: cs) = .ok e) (hcs : staticMessages cs = []) : ExtrinsicSteady D cfg (c :: cs) e := by
  intro cs₁ cs₂ e₁ heq hr₁ hpos
  cases cs₁ with
  | nil =>
    cases hr₁
    simp [Engine.init] at hpos
  | cons c' cs₁ =>
    simp only [List.cons_append, List.cons.injEq] at heq
    obtain ⟨rfl, rfl⟩ := heq
    rw [staticMessages_append, List.append_eq_nil_iff] at hcs
    have h₁ : staticMessages (c :: cs₁) = staticMessages [c] := by
      rw [show c :: cs₁ = [c] ++ cs₁ from rfl, staticMessages_append, hcs.1, List.append_nil]
    have h₂ : staticMessages (c :: (cs₁ ++ cs₂)) = staticMessages [c] := by
      rw [show c :: (cs₁ ++ cs₂) = [c] ++ (cs₁ ++ cs₂) from rfl, staticMessages_append, staticMessages_append, hcs.1, hcs.2]
      simp
    rw [(Engine.TfLog.run hr₁).set, (Engine.TfLog.run hr).set, h₁, h₂]

/-- A run that raises nothing. -/
theorem run_ok {D : Deps} {cfg : Config} {cs : List Call} (h : (runCalls D cfg cs).isOk = true) :
    runCalls D cfg cs = .ok (runAllCalls D cfg cs) := by
  cases hr : runCalls D cfg cs with
  | error err => simp [hr, Except.isOk, Except.toBool] at h
  | ok e => rw [show runAllCalls D cfg cs = e from runAll_of_run hr]

/-- A slop just below 35 ms. -/
def fineConfig : Config := { rgbdSlop := lit (34999999999999996 / 10 ^ 18) }

/-- A depth image 35 ms after its RGB image. -/
def fineRecording : List Call :=
  setting ++
  [.ingest (.odom (odom 100000000)) 100000000 (1 / 10), .ingest (.image .rgb (rgb 7 150000000)) 150000000 (1 / 5),
    .ingest (.image .depth (depth 3 185000000)) 185000000 (1 / 5), .ingest (.odom (odom 200000000)) 200000000 (1 / 4),
    .drain 1 true]

/-- A recording that begins with the mounting of the camera, and moves the body once. -/
theorem recording_of_run {cfg : Config} {cs rest : List Call} (hfirst : cs = .ingest (.tfStatic [mounting]) 1 0 :: rest)
    (hrest : staticMessages rest = []) (htf : tfMessages cs = [[bodyPose]]) (hlast : cs.getLast? = some (.drain 1 true))
    (hv : cfg.validate = .ok ()) (hrun : (runCalls deps cfg cs).isOk = true) (hord : (arrivals cs).Pairwise (· ≤ ·))
    (hframes : 0 < (runAllCalls deps cfg cs).stats .frames) (hw : cfg.world = "lio_map") (hb : cfg.body = "body") :
    Recording deps cfg cs (runAllCalls deps cfg cs) := by
  obtain ⟨cs', hcs'⟩ := List.getLast?_eq_some_iff.1 hlast
  refine ⟨hv, run_ok hrun, ⟨cs', 1, hcs'⟩, hord, hframes, ⟨bodyPose, by simp [htf], hw ▸ rfl, hb ▸ rfl⟩, fun t ht _ => ?_,
    ?_⟩
  · obtain rfl : t = bodyPose := by simpa [htf] using ht
    exact ⟨_, poseMatrix_noRotation 0 0 0⟩
  · subst hfirst
    exact steady_of_first (run_ok hrun) hrest

end Still

/-- **The validator refuses a bag the recorder wrote without complaint**: the pair is 35 000 000 ns apart, as many as the
slop of 0.034999999999999996 s truncates to, but more than the slop in seconds. -/
theorem recording_refused :
    Still.numerics.Faithful ∧ Tf2Laws Still.deps ∧
      Recording Still.deps Still.fineConfig Still.fineRecording
        (runAllCalls Still.deps Still.fineConfig Still.fineRecording) ∧
      checkBag Still.deps (recordedBag Still.fineConfig
        (runAllCalls Still.deps Still.fineConfig Still.fineRecording) 0 1000000000) =
          .error (.value "Invalid synchronization offset") := by
  refine ⟨Still.numerics_faithful, Still.deps_laws, ?_, by decide +kernel⟩
  exact Still.recording_of_run rfl rfl rfl rfl (by decide +kernel) (by decide +kernel) (by decide +kernel)
    (by decide +kernel) rfl rfl

/-- All poses of the recording are within two metres of the start. -/
theorem Still.poses_fit : PosesFit deps {} (odometryMessages recording) ((Engine.delivered .rgb recording).map Image.stamp)
    (withTranslation identity 0 0 0) := by
  have hoffset : pyRound (mul (Config.cameraTimeOffset {}) (10 ^ 9)) = .ok 0 := by decide +kernel
  have hall : ∀ a ∈ odometryMessages recording, ∀ b ∈ odometryMessages recording,
      ∀ t ∈ (Engine.delivered .rgb recording).map Image.stamp,
        PoseFits deps a b (t + 0) (withTranslation identity 0 0 0) := by decide +kernel
  intro a ha b hb t ht offset ho
  rw [hoffset] at ho
  cases ho
  exact hall a ha b hb t ht

/-- The recording with the default configuration is accepted, with its three frames: one pair is left out for the rate, and
two images are left without a partner. -/
theorem recording_checked_default :
    ∃ result, checkBag Still.deps (recordedBag {} (runAllCalls Still.deps {} Still.recording) 0 1000000000) = .ok result ∧
      result.frames = 3 := by
  have hr : Recording Still.deps {} Still.recording (runAllCalls Still.deps {} Still.recording) :=
    Still.recording_of_run rfl rfl rfl rfl (by decide +kernel) (by decide +kernel) (by decide +kernel)
      (by decide +kernel) rfl rfl
  have ha : Agreeing Still.deps {} Still.recording := by
    refine ⟨by decide +kernel, Or.inl (by decide), fun t ht => ?_, fun ext hext => ?_⟩
    · obtain rfl : t = Still.mounting := by simpa [Still.recording, Still.setting, staticMessages] using ht
      exact ⟨by decide +kernel, by decide +kernel, ⟨0, 0, 0, 1⟩, rfl, by decide +kernel⟩
    · have hmount : expectedExtrinsic Still.deps {} (staticMessages Still.recording).flatten =
          .ok (withTranslation Still.identity 0 0 0) := Still.poseMatrix_noRotation 0 0 0
      rw [hmount] at hext
      cases hext
      exact Still.poses_fit
  obtain ⟨-, result, h1, h2, h3⟩ :=
    recording_checked (D := Still.deps) Still.numerics_faithful Still.deps_laws hr ha 0 1000000000
  have hframes : (runAllCalls Still.deps {} Still.recording).stats .frames = 3 := by decide +kernel
  exact ⟨result, h1, by omega⟩

end Agilex.Capture
