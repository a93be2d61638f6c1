import Agilex.Capture.Log

/-!
# The groups of a run

- `Sound` is what the checks of a bag want of its `k`-th group, apart from the slop and the static transforms;
- `makeGroup_sound`: `_make_group` builds sound groups;
- `GroupLog`: the group records are the groups, all sound, and the RGB stamps increase through the queue;
- `extrinsic_resolved`: the extrinsic of a group was resolved after some call before the end.
-/

namespace Agilex.Capture

open Agilex.Lib Binary64 Outcome

/-! ## Sound groups -/

/-- What the `k`-th group of a bag is checked for, with the odometry samples `acc`. -/
structure Sound (D : Deps) (cfg : Config) (acc : List Odometry) (k : ℕ) (g : Group) : Prop where
  index : g.metadata.frameIndex = k
  seqs : ∀ h ∈ [g.rgb.header, g.dep.header, g.ci.header, g.di.header, g.pose.header, g.ext.header], h.seq = k
  poseStamp : g.pose.header.stamp = g.rgb.stamp
  rgbStamp : g.metadata.rgbStampNs = g.rgb.stamp
  extStamp : g.ext.header.stamp = g.rgb.stamp
  depthStamp : g.metadata.depthStampNs = g.dep.stamp
  infoStamps : g.ci.header.stamp = g.rgb.stamp ∧ g.di.header.stamp = g.dep.stamp
  delta : g.metadata.rgbdDeltaNs = g.dep.stamp - g.rgb.stamp
  query : pyRound (mul cfg.cameraTimeOffset (10 ^ 9)) = .ok (g.metadata.poseQueryStampNs - g.rgb.stamp)
  valid : validateRgbd g.rgb g.dep g.ci g.di cfg.optical = .ok g.metadata.depthValidFraction
  valid_ne : g.metadata.depthValidFraction ≠ 0
  pose : ∃ a ∈ acc, ∃ b ∈ acc, a.header.stamp = g.metadata.odomBeforeNs ∧ b.header.stamp = g.metadata.odomAfterNs ∧
    divFloat (b.header.stamp - a.header.stamp) (10 ^ 9) ≤ cfg.maxOdomGap ∧
    ∃ body ext, interpolate D.num a b g.metadata.poseQueryStampNs = .ok (body, g.metadata.interpolationAlpha) ∧
      transformMatrix D.num g.ext = .ok ext ∧ g.pose.pose = cameraPose D.num (D.num.matmul body ext)
  frames : g.pose.header.frameId = cfg.world ∧ g.ext.header.frameId = cfg.body ∧ g.ext.childFrameId = cfg.optical
  units : g.metadata.depthScaleM = (if g.dep.encoding = "16UC1" then cfg.depthScale else 1) ∧
    g.metadata.depthEncoding = g.dep.encoding

/-- The stamps of a group, of a queued frame, and of a pair. -/
def Group.stamps (g : Group) : ℤ × ℤ := (g.rgb.stamp, g.dep.stamp)

def Pending.stamps (p : Pending) : ℤ × ℤ := (p.rgb.stamp, p.dep.stamp)

def pairStamps (p : Image × Image) : ℤ × ℤ := (p.1.stamp, p.2.stamp)

theorem Sound.mono {D : Deps} {cfg : Config} {acc acc' : List Odometry} {k : ℕ} {g : Group} (h : Sound D cfg acc k g)
    (ha : ∀ m ∈ acc, m ∈ acc') : Sound D cfg acc' k g := by
  obtain ⟨a, hma, b, hmb, hp⟩ := h.pose
  exact { h with pose := ⟨a, ha a hma, b, ha b hmb, hp⟩ }

/-! ## Static transforms -/

/-- What tf2 keeps of a transform exactly as it is given: no frame name starts with a slash, which tf2 would strip, and
the squared norm of the rotation is within its tolerance, outside of which tf2 ignores the transform. -/
def TransformStamped.Storable (t : TransformStamped) : Prop :=
  t.header.frameId.front ≠ '/' ∧ t.childFrameId.front ≠ '/' ∧
    ∃ q, t.rotation.finite? = some q ∧
      |sub (add (add (add (mul q.w q.w) (mul q.x q.x)) (mul q.y q.y)) (mul q.z q.z)) 1| < lit (1 / 100)

/-- What is used of `set_transform_static` and `lookup_transform_core`: the result is labelled with the frames asked for;
nothing connects two different frames at first; and what has been found is found again, with the same numbers, from
other storable transforms that give each child frame the same last parent and numbers. -/
structure Tf2Laws (D : Deps) : Prop where
  frames : ∀ tf target source t, D.lookupTransform tf target source = .ok t →
    t.header.frameId = target ∧ t.childFrameId = source
  empty : ∀ target source t, target ≠ source → D.lookupTransform [] target source ≠ .ok t
  last : ∀ tf tf' target source t, (∀ x ∈ tf, x.Storable) → (∀ x ∈ tf', x.Storable) →
    (∀ child, lastTransform child tf = lastTransform child tf') → D.lookupTransform tf target source = .ok t →
    ∃ t', D.lookupTransform tf' target source = .ok t' ∧ t'.translation = t.translation ∧ t'.rotation = t.rotation

/-- The translation and rotation of the extrinsic after some static transforms. -/
def resolved (D : Deps) (cfg : Config) (tf : List TransformStamped) : Option (Vector3 × Quaternion) :=
  (D.lookupTransform tf cfg.body cfg.optical).toOption.map fun t => (t.translation, t.rotation)

/-- After the first frame is emitted, the extrinsic stays what it is at the end. -/
def ExtrinsicSteady (D : Deps) (cfg : Config) (cs : List Call) (e : Engine) : Prop :=
  ∀ cs₁ cs₂ e₁, cs = cs₁ ++ cs₂ → runCalls D cfg cs₁ = .ok e₁ → 0 < e₁.stats .frames →
    resolved D cfg e₁.tf = resolved D cfg e.tf

namespace Engine

variable {D : Deps} {cfg : Config}

theorem bracket_mem {l : List Odometry} {target : ℤ} {a b : Odometry} (h : bracket cfg l target = .ok (a, b)) :
    a ∈ l ∧ b ∈ l ∧ divFloat (b.header.stamp - a.header.stamp) (10 ^ 9) ≤ cfg.maxOdomGap := by
  obtain ⟨k, ha, hb, hgap, -⟩ := bracket_at h
  exact ⟨List.mem_of_getElem? ha, List.mem_of_getElem? hb, hgap⟩

/-- The infos used for a frame carry the optical frame. -/
theorem validateRgbd_infos {rgb dep : Image} {ci di : CameraInfo} {optical : String} {v : ℚ}
    (h : validateRgbd rgb dep ci di optical = .ok v) (seq : ℕ) :
    validateRgbd { rgb with header := { rgb.header with seq := seq } } { dep with header := { dep.header with seq := seq } }
      { ci with header := { ci.header with seq := seq, stamp := rgb.header.stamp } }
      { di with header := { di.header with seq := seq, stamp := dep.header.stamp } } optical = .ok v := by
  rw [← h]
  exact validateRgbd_header rfl rfl rfl rfl

/-- **`_make_group` builds sound groups**, with the stamps of the images and the extrinsic of the moment. -/
theorem makeGroup_sound (htf : Tf2Laws D) {rgb dep : Image} {e e' : Engine} {g : Group}
    (h : makeGroup D cfg rgb dep e = .ok (g, e')) :
    Sound D cfg e.odoms (e.stats .frames) g ∧ g.rgb.stamp = rgb.stamp ∧ g.dep.stamp = dep.stamp ∧
      resolved D cfg e.tf = some (g.ext.translation, g.ext.rotation) := by
  obtain ⟨target, a, b, ci, di, valid, ext, mExt, body, alpha, hp, -, rfl⟩ := makeGroup_ok h
  obtain ⟨ha, hb, hgap⟩ := bracket_mem hp.bracket_ok
  obtain ⟨h1, h2⟩ := htf.frames _ _ _ _ hp.ext_ok
  refine ⟨?_, rfl, rfl, ?_⟩
  · constructor
    case seqs => simp [assemble]
    case query => exact hp.target_eq
    case valid => exact validateRgbd_infos hp.valid_ok _
    case valid_ne => exact hp.valid_ne
    case pose => exact ⟨a, ha, b, hb, rfl, rfl, hgap, body, mExt, hp.interpolate_ok, hp.matrix_ok, rfl⟩
    case frames => exact ⟨rfl, h1, h2⟩
    all_goals first | rfl | exact ⟨rfl, rfl⟩
  · rw [resolved, hp.ext_ok]
    rfl

/-! ## The log of groups -/

/-- The groups and the queue follow the pairs formed. -/
def Queue (e : Engine) : Prop :=
  (e.groups.map Group.stamps ++ e.pending.map Pending.stamps).Sublist (e.pairs.map pairStamps)

theorem Queue.same {e e' : Engine} (h : Queue e) (hg : e'.groups = e.groups) (hp : e'.pending = e.pending)
    (ha : e'.pairs = e.pairs) : Queue e' := by
  rw [Queue, hg, hp, ha]
  exact h

theorem Queue.takePair {e : Engine} (h : Queue e) (rgb dep : Image) (a b : List Image) :
    Queue (e.takePair rgb dep a b) ∧
      ∀ wall, ((e.takePair rgb dep a b).groups.map Group.stamps ++
        ((e.takePair rgb dep a b).pending ++ [(⟨rgb, dep, wall⟩ : Pending)]).map Pending.stamps).Sublist
          ((e.takePair rgb dep a b).pairs.map pairStamps) := by
  have hg : (e.takePair rgb dep a b).groups = e.groups := by simp [Engine.takePair, Event.group]
  have hp : (e.takePair rgb dep a b).pairs = e.pairs ++ [(rgb, dep)] := by simp [Engine.takePair, Event.pair]
  have hq : (e.takePair rgb dep a b).pending = e.pending := rfl
  constructor
  · rw [Queue, hg, hp, hq, List.map_append]
    exact List.Sublist.trans h (List.sublist_append_left _ _)
  · intro wall
    rw [hg, hp, hq, List.map_append, List.map_append, ← List.append_assoc]
    exact h.append (List.Sublist.refl _)

theorem Queue.pair (cfg : Config) {e : Engine} (h : Queue e) (wall : ℚ) : Queue (Outcome.final (e.pair cfg wall)) := by
  unfold Engine.pair
  cases pyInt (mul cfg.rgbdSlop (10 ^ 9)) with
  | error err => exact h
  | ok slop =>
    refine pairLoop_rule (P := Queue) (fun rgb a b₀ b t ht _ _ => ?_) _ e h
    rcases pairStep_cases cfg slop wall rgb a b₀ b t with ⟨b₁, dep, b₂, -, -, hs⟩ | ⟨-, -, hs⟩ | ⟨-, -, hs⟩ <;> rw [hs]
    · obtain ⟨hsame, hmore⟩ := ht.takePair rgb dep a (b₁ ++ b₂)
      rcases select_cases cfg wall rgb dep (t.takePair rgb dep a (b₁ ++ b₂)) with
        ⟨due, -, -, hs'⟩ | ⟨period, -, -, hs'⟩ | ⟨err, x, hs'⟩ <;> rw [hs']
      · exact hsame.same (by simp [Event.group]) rfl (by simp [Event.pair])
      · rw [final_ok, Queue, groups, history_enqueue, pairs, history_enqueue, enqueue_pending]
        simpa [Event.pair, Event.group] using hmore wall
      · exact hsame.same rfl rfl rfl
    · exact ht.same (by simp [Engine.giveUp, Event.group]) rfl (by simp [Engine.giveUp, Event.pair])
    · exact ht.same (by simp [Engine.giveUp, Event.group]) rfl (by simp [Engine.giveUp, Event.pair])

/-- The group records are the groups, each of them sound, and the groups and the queue follow the pairs formed. -/
structure GroupLog (D : Deps) (cfg : Config) (e : Engine) : Prop where
  frames : e.stats .frames = e.groups.length
  records : (e.written.filter fun r => r.topic.isGroup) = groupRecords e.groups
  sources : ∀ r ∈ e.written, r.topic ≠ .session ∧ r.topic ≠ .report
  buffer : ∀ m ∈ e.odoms, m ∈ e.accepted
  sound : ∀ k g, e.groups[k]? = some g → Sound D cfg e.accepted k g
  queue : Queue e

theorem GroupLog.init : GroupLog D cfg .init := by
  constructor <;> simp [Engine.init, history, groupRecords, Queue]

/-- Nothing of the log changes. -/
theorem GroupLog.same {e e' : Engine} (h : GroupLog D cfg e) (hf : e'.stats .frames = e.stats .frames)
    (hg : e'.groups = e.groups) (hw : e'.written = e.written) (ho : e'.odoms = e.odoms) (ha : e'.accepted = e.accepted)
    (hq : Queue e') : GroupLog D cfg e' := by
  refine ⟨?_, ?_, ?_, ?_, ?_, hq⟩
  · rw [hf, hg]; exact h.frames
  · rw [hw, hg]; exact h.records
  · rw [hw]; exact h.sources
  · rw [ho, ha]; exact h.buffer
  · rw [hg, ha]; exact h.sound

/-- A sound group is emitted. -/
theorem GroupLog.emit (htf : Tf2Laws D) {e e' : Engine} (h : GroupLog D cfg e') {wall : ℚ}
    {p : Pending} {rest : List Pending} {g : Group} (hp : e'.pending = p :: rest)
    (hg : makeGroup D cfg p.rgb p.dep e = .ok (g, e')) : GroupLog D cfg (Engine.emit wall p rest g e') := by
  obtain ⟨hs, h1, h2, -⟩ := makeGroup_sound htf hg
  obtain ⟨_, _, _, _, _, _, _, _, _, _, -, he', -⟩ := makeGroup_ok hg
  have hodom : e.odoms = e'.odoms := by rw [he']; rfl
  have hframes : e.stats .frames = e'.stats .frames := by rw [he']; rfl
  have hgrp : (Engine.emit wall p rest g e').groups = e'.groups ++ [g] := emit_groups
  have hwr : (Engine.emit wall p rest g e').written = e'.written ++ g.records g.rgb.stamp := by
    rw [emit_written, show p.rgb.header.stamp = g.rgb.stamp from h1.symm]
  have hacc : (Engine.emit wall p rest g e').accepted = e'.accepted := emit_skip rfl fun _ => rfl
  have hprs : (Engine.emit wall p rest g e').pairs = e'.pairs := emit_skip rfl fun _ => rfl
  have hone : ((g.records g.rgb.stamp).filter fun r => r.topic.isGroup) = g.records g.rgb.stamp := by
    simp [Group.records, Topic.isGroup]
  refine ⟨?_, ?_, ?_, ?_, ?_, ?_⟩
  · rw [hgrp, emit_eq, List.length_append, ← h.frames]
    rfl
  · rw [hwr, hgrp, List.filter_append, h.records, hone, groupRecords, groupRecords, List.flatMap_append]
    simp
  · rw [hwr]
    intro r hr
    rcases List.mem_append.1 hr with hr | hr
    · exact h.sources r hr
    · obtain ⟨t, -, rfl⟩ := List.mem_map.1 hr
      simp
  · rw [hacc, emit_eq]
    exact h.buffer
  · rw [hgrp, hacc]
    intro k x hk
    by_cases hlt : k < e'.groups.length
    · rw [List.getElem?_append_left hlt] at hk
      exact h.sound k x hk
    · rw [List.getElem?_append_right (by omega)] at hk
      obtain ⟨hk0, rfl⟩ : k - e'.groups.length = 0 ∧ g = x := by
        cases hd : k - e'.groups.length with
        | zero => rw [hd] at hk; exact ⟨rfl, by simpa using hk⟩
        | succ n => rw [hd] at hk; simp at hk
      obtain rfl : k = e.stats .frames := by rw [hframes, h.frames]; omega
      exact hs.mono fun m hm => h.buffer m (hodom ▸ hm)
  · have hq : (Engine.emit wall p rest g e').pending = rest := by rw [emit_eq]
    have hstamps : g.stamps = p.stamps := by simp only [Group.stamps, Pending.stamps, h1, h2]
    have := h.queue
    rw [Queue, hp] at this
    rw [Queue, hgrp, hq, hprs]
    simpa [hstamps] using this

theorem GroupLog.drain (htf : Tf2Laws D) {e : Engine} (h : GroupLog D cfg e) (wall : ℚ)
    (final : Bool) : GroupLog D cfg (Outcome.final (Engine.drain D cfg wall final e)) := by
  refine drainLoop_rule (P := GroupLog D cfg) (fun t t' ht htry => ?_) (fun p rest r text t ht hp => ?_)
    (fun p rest g t t' ht hp hg => ht.emit htf hp hg) e.pending e h rfl
  · rcases htry with rfl | ⟨x, a, b, target, -, rfl⟩
    · exact ht
    · have hskip : ∀ {α : Type} (f : Event → Option α), f (.interpolating a b target) = none →
          (({ t with acceptedExtrinsic := x } : Engine).log (.interpolating a b target)).history f = t.history f :=
        fun f hf => history_skip [_] rfl (by simp [hf])
      exact ht.same rfl (hskip _ rfl) (hskip _ rfl) rfl (hskip _ rfl)
        (ht.queue.same (hskip _ rfl) rfl (hskip _ rfl))
  · have hskip : ∀ {α : Type} (f : Event → Option α), f (.dropped r p.rgb p.dep) = none →
        (Engine.drop p rest r text t).history f = t.history f :=
      fun f hf => history_skip [_] rfl (by simp [hf])
    refine ht.same rfl (hskip _ rfl) (hskip _ rfl) rfl (hskip _ rfl) ?_
    have hq := ht.queue
    rw [Queue, hp] at hq
    rw [Queue, groups, hskip _ rfl, pairs, hskip _ rfl]
    exact ((List.sublist_cons_self _ _).append_left _).trans hq

theorem GroupLog.receive {e e' : Engine} (h : GroupLog D cfg e) {x : Input} {arrivalNs : ℤ} {wall : ℚ}
    (hs : e.receive D cfg x arrivalNs wall = .ok e') : GroupLog D cfg e' := by
  have hrec := receive_ok hs
  have hr : ∀ r ∈ (x.record arrivalNs e'.static.values).toList,
      r.topic ≠ .session ∧ r.topic ≠ .report ∧ r.topic.isGroup = false := by
    cases x <;> simp [Input.record, Topic.isGroup]
  refine ⟨?_, ?_, ?_, ?_, ?_, ?_⟩
  · rw [hrec.frames, hrec.groups]; exact h.frames
  · rw [hrec.written, hrec.groups, List.filter_append, h.records,
      List.filter_eq_nil_iff.2 (fun r hm => by simp [(hr r hm).2.2]), List.append_nil]
  · rw [hrec.written]
    intro r hm
    rcases List.mem_append.1 hm with hm | hm
    · exact h.sources r hm
    · exact ⟨(hr r hm).1, (hr r hm).2.1⟩
  · rw [hrec.accepted]
    intro m hm
    rcases List.mem_append.1 (hrec.odoms m hm) with hm | hm
    · exact List.mem_append_left _ (h.buffer m hm)
    · exact List.mem_append_right _ hm
  · rw [hrec.groups, hrec.accepted]
    exact fun k g hk => (h.sound k g hk).mono fun m hm => List.mem_append_left _ hm
  · by_cases hx : ∃ c m, x = .image c m
    · obtain ⟨c, m, rfl⟩ := hx
      have hb : Queue (e.bufferImage cfg c m) := by
        rcases bufferImage_cases cfg c m e with hc | ⟨old, rest, -, hc⟩ <;> rw [hc]
        · exact h.queue.same (by simp [join, Event.group]) rfl (by simp [join, Event.pair])
        · exact h.queue.same (by simp [join, Event.group]) rfl (by simp [join, Event.pair])
      have := hb.pair cfg wall
      rwa [show (e.bufferImage cfg c m).pair cfg wall = .ok e' from hs] at this
    · have hq := receive_quiet D cfg arrivalNs wall (e := e)
        fun c m hxm => hx ⟨c, m, hxm⟩
      rw [hs, final_ok] at hq
      exact h.queue.same hrec.groups hq.pending hq.pairs

theorem GroupLog.run (htf : Tf2Laws D) {cs : List Call} {e : Engine}
    (hr : runCalls D cfg cs = .ok e) : GroupLog D cfg e := by
  have hstats : ∀ {e : Engine} {st : Stat → ℕ} {l : Topic → Option ℤ} {ls : Topic → Option ℕ}, GroupLog D cfg e →
      st .frames = e.stats .frames → GroupLog D cfg { e with stats := st, last := l, lastSeq := ls } :=
    fun h hst => ⟨hst.trans h.frames, h.records, h.sources, h.buffer, h.sound, h.queue⟩
  refine runCalls_rule (P := fun _ e => GroupLog D cfg e) .init ?_ (fun _ _ _ _ h => h) ?_ ?_ hr
  · intro cs wall final e e' h hd
    have := h.drain htf wall final
    rwa [hd, final_ok] at this
  · intro cs x arrivalNs wall e hd h _ _
    exact h.same rfl rfl rfl rfl rfl h.queue
  · intro cs x arrivalNs wall e e₀ e₁ h hn hs
    obtain ⟨st, l, ls, rfl, hst⟩ := hn.eq
    exact (hstats h (hst .frames rfl)).receive hs

/-! ## The extrinsic of a group -/

/-- Draining resolves the extrinsics of its groups from the static transforms of the moment. -/
theorem drain_resolved (cfg : Config) (htf : Tf2Laws D) (wall : ℚ) (final : Bool) (e : Engine) :
    ∀ g ∈ (Outcome.final (e.drain D cfg wall final)).groups,
      g ∈ e.groups ∨ resolved D cfg e.tf = some (g.ext.translation, g.ext.rotation) := by
  refine (drainLoop_rule (P := fun t : Engine => t.tf = e.tf ∧ ∀ g ∈ t.groups,
    g ∈ e.groups ∨ resolved D cfg e.tf = some (g.ext.translation, g.ext.rotation)) ?_ ?_ ?_ e.pending e
      ⟨rfl, fun g hg => Or.inl hg⟩ rfl).2
  · rintro t t' ⟨h1, h2⟩ (rfl | ⟨x, a, b, target, -, rfl⟩)
    · exact ⟨h1, h2⟩
    · refine ⟨h1, ?_⟩
      rwa [groups, history_skip (e := t) [.interpolating a b target] rfl (by simp [Event.group])]
  · rintro p rest r text t ⟨h1, h2⟩ -
    refine ⟨h1, ?_⟩
    rwa [groups, history_skip (e := t) [.dropped r p.rgb p.dep] rfl (by simp [Event.group])]
  · rintro p rest g t t' ⟨h1, h2⟩ - hg
    obtain ⟨_, _, _, _, _, _, _, _, _, _, -, he', -⟩ := makeGroup_ok hg
    refine ⟨by rw [emit_eq]; exact h1, fun x hx => ?_⟩
    rw [emit_groups, List.mem_append] at hx
    rcases hx with hx | hx
    · exact h2 x hx
    · obtain rfl := List.mem_singleton.1 hx
      obtain ⟨-, -, -, hres⟩ := makeGroup_sound htf hg
      rw [show t.tf = t'.tf by rw [he']; rfl, h1] at hres
      exact Or.inr hres

/-- The groups of a call come with an extrinsic resolved from the static transforms known after the call. -/
theorem exec_resolved (htf : Tf2Laws D) {c : Call} {e e' : Engine} (h : c.exec D cfg e = .ok e') :
    ∀ g ∈ e'.groups, g ∈ e.groups ∨ resolved D cfg e'.tf = some (g.ext.translation, g.ext.rotation) := by
  have hdrain : ∀ {wall : ℚ} {final : Bool} {e e' : Engine}, e.drain D cfg wall final = .ok e' → ∀ g ∈ e'.groups,
      g ∈ e.groups ∨ resolved D cfg e'.tf = some (g.ext.translation, g.ext.rotation) := by
    intro wall final e e' hd
    have h1 := drain_resolved cfg htf wall final e
    have h2 := (drain_draining D cfg wall final e).tf
    rw [hd, final_ok] at h1 h2
    rwa [h2]
  rcases exec_ok h with ⟨wall, final, rfl, hd⟩ | ⟨x, arrivalNs, wall, hd, rfl, -, -, rfl⟩ |
    ⟨x, arrivalNs, wall, e₀, e₁, rfl, hn, h₁, hrest⟩
  · exact hdrain hd
  · exact fun g hg => Or.inl hg
  · have hg₁ : e₁.groups = e.groups := by
      rw [(receive_ok h₁).groups]
      obtain ⟨st, l, ls, rfl, -⟩ := hn.eq
      rfl
    rcases hrest with hd | rfl
    · rw [← hg₁]
      exact hdrain hd
    · exact fun g hg => Or.inl (hg₁ ▸ hg)

/-- The extrinsic of every group was resolved after some of the calls, with a frame emitted. -/
theorem extrinsic_resolved (htf : Tf2Laws D) {cs : List Call} {e : Engine}
    (hr : runCalls D cfg cs = .ok e) : ∀ g ∈ e.groups, ∃ cs₁ cs₂ e₁, cs = cs₁ ++ cs₂ ∧ runCalls D cfg cs₁ = .ok e₁ ∧
      0 < e₁.stats .frames ∧ resolved D cfg e₁.tf = some (g.ext.translation, g.ext.rotation) := by
  refine (run_induction (P := fun cs e => runCalls D cfg cs = .ok e ∧ ∀ g ∈ e.groups,
    ∃ cs₁ cs₂ e₁, cs = cs₁ ++ cs₂ ∧ runCalls D cfg cs₁ = .ok e₁ ∧ 0 < e₁.stats .frames ∧
      resolved D cfg e₁.tf = some (g.ext.translation, g.ext.rotation)) ?_ ?_ cs hr).2
  · exact ⟨rfl, by simp [Engine.init, history]⟩
  · rintro cs s c s' hrun ⟨-, ih⟩ hc
    have hrun' : runCalls D cfg (cs ++ [c]) = .ok s' :=
      run_append_ok.2 ⟨s, hrun, bind_ok.2 ⟨s', hc, rfl⟩⟩
    refine ⟨hrun', fun g hg => ?_⟩
    rcases exec_resolved htf hc g hg with hold | hnew
    · obtain ⟨cs₁, cs₂, e₁, rfl, h⟩ := ih g hold
      exact ⟨cs₁, cs₂ ++ [c], e₁, List.append_assoc _ _ _, h⟩
    · refine ⟨cs ++ [c], [], s', (List.append_nil _).symm, hrun', ?_, hnew⟩
      rw [(GroupLog.run htf hrun').frames]
      exact List.length_pos_of_mem hg

end Engine

end Agilex.Capture
