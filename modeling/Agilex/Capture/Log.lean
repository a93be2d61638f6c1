import Agilex.Capture.Bag
import Agilex.Capture.Pairing
import Agilex.Capture.PoseAssociation

/-!
# What the engine writes

Invariants of the records of a run that raises nothing, in terms of its calls:

- the records of messages have the arrival times of the calls (`Timed`);
- the odometry records are the accepted samples (`OdomLog`);
- the `/tf` records are the messages, and the `/tf_static` records give each child frame the transform set last (`TfLog`);
- an image that joined a buffer was delivered with a positive stamp (`images_delivered`).
-/

namespace Agilex.Capture

open Agilex.Lib Binary64 Outcome

/-! ## The calls of a run -/

/-- The arrival times of the messages. -/
def arrivals (cs : List Call) : List ℤ :=
  cs.filterMap fun
    | .ingest _ arrivalNs _ => some arrivalNs
    | _ => none

/-- The odometry samples. -/
def odometryMessages (cs : List Call) : List Odometry :=
  cs.filterMap fun
    | .ingest (.odom m) _ _ => some m
    | _ => none

/-- The messages on `/tf`. -/
def tfMessages (cs : List Call) : List (List TransformStamped) :=
  cs.filterMap fun
    | .ingest (.tf ts) _ _ => some ts
    | _ => none

/-- The messages on `/tf_static`. -/
def staticMessages (cs : List Call) : List (List TransformStamped) :=
  cs.filterMap fun
    | .ingest (.tfStatic ts) _ _ => some ts
    | _ => none

theorem arrivals_append (cs cs' : List Call) : arrivals (cs ++ cs') = arrivals cs ++ arrivals cs' :=
  List.filterMap_append

theorem odometryMessages_append (cs cs' : List Call) :
    odometryMessages (cs ++ cs') = odometryMessages cs ++ odometryMessages cs' :=
  List.filterMap_append

theorem tfMessages_append (cs cs' : List Call) : tfMessages (cs ++ cs') = tfMessages cs ++ tfMessages cs' :=
  List.filterMap_append

theorem staticMessages_append (cs cs' : List Call) :
    staticMessages (cs ++ cs') = staticMessages cs ++ staticMessages cs' := List.filterMap_append

/-- A message with a header is no transform message. -/
theorem tfMessages_header {x : Input} {hd : Header} (hx : x.sourceHeader = some hd) (arrivalNs : ℤ) (wall : ℚ) :
    tfMessages [.ingest x arrivalNs wall] = [] := by
  cases x with
  | tf => cases hx
  | _ => rfl

theorem staticMessages_of_ne {x : Input} (hx : ∀ ts, x ≠ .tfStatic ts) (arrivalNs : ℤ) (wall : ℚ) :
    staticMessages [.ingest x arrivalNs wall] = [] := by
  cases x with
  | tfStatic ts => exact absurd rfl (hx ts)
  | _ => rfl

/-- The transform a child frame was given last. -/
abbrev lastTransform (child : String) (ts : List TransformStamped) : Option TransformStamped :=
  lastWith TransformStamped.childFrameId child ts

namespace Input

/-- The odometry sample of an input. -/
def sample : Input → Option Odometry
  | .odom m => some m
  | _ => none

/-- The static transforms of an input. -/
def statics : Input → List TransformStamped
  | .tfStatic ts => ts
  | _ => []

theorem statics_of_ne {x : Input} (hx : ∀ ts, x ≠ .tfStatic ts) : x.statics = [] := by
  cases x with
  | tfStatic ts => exact absurd rfl (hx ts)
  | _ => rfl

/-- The record written for an input, with the static transforms known after it. -/
def record (x : Input) (arrivalNs : ℤ) (known : List TransformStamped) : Option Record :=
  match x with
  | .image _ _ => none
  | .odom m => some ⟨.odom, .odometry m, arrivalNs⟩
  | .info c m => some ⟨.info c, .cameraInfo m, arrivalNs⟩
  | .tf ts => some ⟨.tf, .transforms ts, arrivalNs⟩
  | .tfStatic _ => some ⟨.tfStatic, .transforms known, arrivalNs⟩
  | .other n data => some ⟨.other n, .raw data, arrivalNs⟩

end Input

namespace Engine

variable {D : Deps} {cfg : Config}

/-! ## What receiving and draining write -/

theorem setStatics_ok {ts : List TransformStamped} {e e' : Engine} (h : e.setStatics D ts = .ok e') :
    e' = { e with static := ts.foldl (fun d t => d.set t.childFrameId t) e.static, tf := e.tf ++ ts } := by
  induction ts generalizing e with
  | nil =>
    cases h
    simp
  | cons t ts ih =>
    obtain ⟨mat, -, h⟩ := bind_ok.1 h
    split at h
    · cases h
    · rw [ih h]
      simp

/-- What receiving an input does to the records, the samples and the static transforms. -/
structure Received (D : Deps) (cfg : Config) (x : Input) (arrivalNs : ℤ) (e e' : Engine) : Prop where
  written : e'.written = e.written ++ (x.record arrivalNs e'.static.values).toList
  groups : e'.groups = e.groups
  accepted : e'.accepted = e.accepted ++ x.sample.toList
  odoms : ∀ m ∈ e'.odoms, m ∈ e.odoms ++ x.sample.toList
  tf : e'.tf = e.tf ++ x.statics
  static : e'.static = x.statics.foldl (fun d t => d.set t.childFrameId t) e.static
  frames : e'.stats .frames = e.stats .frames
  sample : ∀ m, x = .odom m → m.header.frameId = cfg.world ∧ m.childFrameId = cfg.body ∧
    ∃ mat, poseMatrix D.num m.pose = .ok mat

theorem receive_ok {x : Input} {arrivalNs : ℤ} {wall : ℚ} {e e' : Engine}
    (h : e.receive D cfg x arrivalNs wall = .ok e') : Received D cfg x arrivalNs e e' := by
  have hwrite : ∀ (t : Topic) (m : Msg) (e : Engine), (e.write t m arrivalNs).written = e.written ++ [⟨t, m, arrivalNs⟩] ∧
      (e.write t m arrivalNs).groups = e.groups ∧ (e.write t m arrivalNs).accepted = e.accepted := fun t m e => by
    simp [Engine.write, Event.record, Event.group, Event.acceptance]
  cases x with
  | image c m =>
    have hi := (bufferImage_imaging cfg c m e).trans (pair_imaging cfg wall (e.bufferImage cfg c m))
    rw [show e.receive D cfg (.image c m) arrivalNs wall = (e.bufferImage cfg c m).pair cfg wall from rfl] at h
    rw [h, final_ok] at hi
    refine ⟨?_, hi.groups, ?_, by simp [Input.sample, hi.odoms], by simp [Input.statics, hi.tf], hi.static, hi.frames,
      by simp⟩
    · rw [hi.written]
      simp [Input.record]
    · rw [hi.accepted]
      simp [Input.sample]
  | odom m =>
    simp only [receive] at h
    rcases ingestOdom_cases D cfg m arrivalNs e with ⟨err, hi⟩ | ⟨hw, hb, hp, ⟨err, -, hi⟩ | ⟨keep, -, hi⟩⟩ <;> rw [hi] at h <;>
      cases h
    refine ⟨?_, ?_, ?_, fun m' hm => (trimOdoms_suffix _ _).subset hm, (List.append_nil _).symm, rfl, rfl,
      fun m' hm => ?_⟩
    · exact history_append [.odometry m, .written ⟨.odom, .odometry m, arrivalNs⟩] rfl
    · exact history_skip [.odometry m, .written ⟨.odom, .odometry m, arrivalNs⟩] rfl (by simp [Event.group])
    · exact history_append [.odometry m, .written ⟨.odom, .odometry m, arrivalNs⟩] rfl
    · cases hm
      exact ⟨hw, hb, hp⟩
  | info c m =>
    cases h
    obtain ⟨h1, h2, h3⟩ := hwrite (.info c) (.cameraInfo m)
      { e with infos := fun c' => if c' = c then keepLast 240 (e.infos c ++ [m]) else e.infos c' }
    exact ⟨h1, h2, h3.trans (List.append_nil _).symm, fun m hm => List.mem_append_left _ hm,
      (List.append_nil _).symm, rfl, rfl, by simp⟩
  | tf ts =>
    cases h
    obtain ⟨h1, h2, h3⟩ := hwrite .tf (.transforms ts) e
    exact ⟨h1, h2, h3.trans (List.append_nil _).symm, fun m hm => List.mem_append_left _ hm,
      (List.append_nil _).symm, rfl, rfl, by simp⟩
  | tfStatic ts =>
    obtain ⟨t, ht, h⟩ := bind_ok.1 h
    have := setStatics_ok ht
    subst this
    cases h
    obtain ⟨h1, h2, h3⟩ := hwrite .tfStatic
      (.transforms (Dict.values (ts.foldl (fun d t => d.set t.childFrameId t) e.static)))
      { e with static := ts.foldl (fun d t => d.set t.childFrameId t) e.static, tf := e.tf ++ ts }
    exact ⟨h1, h2, h3.trans (List.append_nil _).symm, fun m hm => List.mem_append_left _ hm, rfl, rfl, rfl, by simp⟩
  | other n data =>
    cases h
    obtain ⟨h1, h2, h3⟩ := hwrite (.other n) (.raw data) e
    exact ⟨h1, h2, h3.trans (List.append_nil _).symm, fun m hm => List.mem_append_left _ hm,
      (List.append_nil _).symm, rfl, rfl, by simp⟩

/-- The records of a list of groups. -/
def groupRecords (gs : List Group) : List Record := gs.flatMap fun g => g.records g.rgb.header.stamp

/-- Draining writes the records of its groups. -/
theorem drain_written (D : Deps) (cfg : Config) (wall : ℚ) (final : Bool) (e : Engine) :
    ∃ gs, (Outcome.final (e.drain D cfg wall final)).groups = e.groups ++ gs ∧
      (Outcome.final (e.drain D cfg wall final)).written = e.written ++ groupRecords gs := by
  refine drainLoop_rule (P := fun t : Engine => ∃ gs, t.groups = e.groups ++ gs ∧
    t.written = e.written ++ groupRecords gs) ?_ ?_ ?_ e.pending e ⟨[], by simp [groupRecords]⟩ rfl
  · rintro t t' ⟨gs, h1, h2⟩ (rfl | ⟨x, a, b, target, -, rfl⟩)
    · exact ⟨gs, h1, h2⟩
    · refine ⟨gs, ?_, ?_⟩
      · rw [← h1]
        exact history_skip [_] rfl (by simp [Event.group])
      · rw [← h2]
        exact history_skip [_] rfl (by simp [Event.record])
  · rintro p rest r text t ⟨gs, h1, h2⟩ -
    refine ⟨gs, ?_, ?_⟩
    · rw [← h1]
      exact history_skip [.dropped r p.rgb p.dep] rfl (by simp [Event.group])
    · rw [← h2]
      exact history_skip [.dropped r p.rgb p.dep] rfl (by simp [Event.record])
  · rintro p rest g t t' ⟨gs, h1, h2⟩ - hg
    obtain ⟨target, a, b, ci, di, valid, ext, mExt, body, alpha, -, -, hgrp⟩ := makeGroup_ok hg
    have hstamp : g.rgb.header.stamp = p.rgb.header.stamp := by rw [hgrp]; rfl
    refine ⟨gs ++ [g], ?_, ?_⟩
    · rw [emit_groups, h1, List.append_assoc]
    · rw [emit_written, h2, groupRecords, groupRecords, List.flatMap_append, List.flatMap_singleton, hstamp,
        List.append_assoc]

/-- The records on one topic. -/
def recordsOn (e : Engine) (t : Topic) : List Record := e.written.filter fun r => r.topic = t

theorem groupRecords_isGroup {gs : List Group} {r : Record} (h : r ∈ groupRecords gs) : r.topic.isGroup := by
  obtain ⟨g, -, hr⟩ := List.mem_flatMap.1 h
  obtain ⟨t, -, rfl⟩ := List.mem_map.1 hr
  rfl

/-- Draining leaves the records of messages as they are. -/
theorem drain_recordsOn {wall : ℚ} {final : Bool} {e e' : Engine} (h : e.drain D cfg wall final = .ok e') {t : Topic}
    (ht : t.isGroup = false) : e'.recordsOn t = e.recordsOn t := by
  obtain ⟨gs, -, hw⟩ := drain_written D cfg wall final e
  rw [h, final_ok] at hw
  have hnone : (groupRecords gs).filter (fun r => r.topic = t) = [] := by
    rw [List.filter_eq_nil_iff]
    intro r hr hrt
    have := groupRecords_isGroup hr
    simp_all
  rw [recordsOn, hw, List.filter_append, hnone, List.append_nil, recordsOn]

/-- Receiving an input adds its record, on its topic. -/
theorem Received.recordsOn {x : Input} {arrivalNs : ℤ} {e e' : Engine} (h : Received D cfg x arrivalNs e e') (t : Topic) :
    e'.recordsOn t = e.recordsOn t ++
      ((x.record arrivalNs e'.static.values).toList.filter fun r => r.topic = t) := by
  rw [Engine.recordsOn, h.written, List.filter_append, Engine.recordsOn]

/-! ## Times of message records -/

/-- The records outside the group topics. -/
def messageRecords (e : Engine) : List Record := e.written.filter fun r => !r.topic.isGroup

/-- Message records have the times at which messages arrived, in order. -/
theorem messageRecords_times {cs : List Call} {e : Engine} (hr : runCalls D cfg cs = .ok e) :
    (e.messageRecords.map Record.time).Sublist (arrivals cs) := by
  refine runCalls_rule (P := fun cs e => (e.messageRecords.map Record.time).Sublist (arrivals cs)) ?_ ?_ ?_ ?_ ?_ hr
  · simp [Engine.init, messageRecords, history]
  · intro cs wall final e e' h hd
    obtain ⟨gs, -, hw⟩ := drain_written D cfg wall final e
    rw [hd, final_ok] at hw
    have hnone : (groupRecords gs).filter (fun r => !r.topic.isGroup) = [] := by
      rw [List.filter_eq_nil_iff]
      intro r hr
      simp [groupRecords_isGroup hr]
    rwa [messageRecords, hw, List.filter_append, hnone, List.append_nil]
  · intro cs wall final e h
    rw [arrivals_append]
    exact h.trans (List.sublist_append_left _ _)
  · intro cs x arrivalNs wall e hd h _ _
    rw [arrivals_append]
    exact List.Sublist.trans h (List.sublist_append_left _ _)
  · intro cs x arrivalNs wall e e₀ e₁ h hn hs
    have hsame : e₀.written = e.written := by
      obtain ⟨st, l, ls, rfl, -⟩ := hn.eq
      rfl
    rw [messageRecords, (receive_ok hs).written, hsame, List.filter_append, List.map_append, arrivals_append]
    refine h.append ?_
    cases x <;> simp [Input.record, arrivals, Topic.isGroup]

/-! ## Odometry -/

/-- The odometry records are the accepted samples, all of them given and sound. -/
structure OdomLog (D : Deps) (cfg : Config) (cs : List Call) (e : Engine) : Prop where
  records : (e.recordsOn .odom).map Record.msg = e.accepted.map Msg.odometry
  given : ∀ m ∈ e.accepted, m ∈ odometryMessages cs
  samples : ∀ m ∈ e.accepted, 0 < m.header.stamp ∧ m.header.frameId = cfg.world ∧ m.childFrameId = cfg.body ∧
    ∃ mat, poseMatrix D.num m.pose = .ok mat

theorem OdomLog.append {cs : List Call} {e : Engine} (h : OdomLog D cfg cs e) (cs' : List Call) :
    OdomLog D cfg (cs ++ cs') e := by
  refine ⟨h.records, fun m hm => ?_, h.samples⟩
  rw [odometryMessages_append]
  exact List.mem_append_left _ (h.given m hm)

theorem OdomLog.run {cs : List Call} {e : Engine} (hr : runCalls D cfg cs = .ok e) : OdomLog D cfg cs e := by
  refine runCalls_rule (P := OdomLog D cfg) ?_ ?_ (fun _ _ _ _ h => h.append _) ?_ ?_ hr
  · constructor <;> simp [Engine.init, Engine.recordsOn, history]
  · intro cs wall final e e' h hd
    have ha : e'.accepted = e.accepted := by
      have := drain_draining D cfg wall final e
      rw [hd, final_ok] at this
      exact this.accepted
    exact ⟨by rw [drain_recordsOn hd rfl, ha]; exact h.records, by rw [ha]; exact h.given, by rw [ha]; exact h.samples⟩
  · intro cs x arrivalNs wall e hd h _ _
    have := h.append [.ingest x arrivalNs wall]
    exact ⟨this.records, this.given, this.samples⟩
  · intro cs x arrivalNs wall e e₀ e₁ h hn hs
    have hrec := receive_ok hs
    have h₀ : OdomLog D cfg cs e₀ := by
      obtain ⟨st, l, ls, rfl, -⟩ := hn.eq
      exact ⟨h.records, h.given, h.samples⟩
    constructor
    · rw [hrec.recordsOn, hrec.accepted, List.map_append, List.map_append, h₀.records]
      cases x <;> simp [Input.record, Input.sample]
    · intro m hm
      rw [hrec.accepted, List.mem_append] at hm
      rw [odometryMessages_append, List.mem_append]
      exact hm.imp (h₀.given m) fun hm => by cases x <;> simp_all [Input.sample, odometryMessages]
    · intro m hm
      rw [hrec.accepted, List.mem_append] at hm
      rcases hm with hm | hm
      · exact h₀.samples m hm
      · obtain rfl : x = .odom m := by cases x <;> simp_all [Input.sample]
        obtain ⟨h1, h2, h3⟩ := hrec.sample m rfl
        exact ⟨(hn.last.2 m.header rfl).1, h1, h2, h3⟩

/-! ## Transforms -/

/-- The `/tf` records are the messages. The `/tf_static` records, one for each message, give each child frame the
transform it was given last. -/
structure TfLog (cs : List Call) (e : Engine) : Prop where
  tf : (e.recordsOn .tf).map Record.msg = (tfMessages cs).map Msg.transforms
  set : e.tf = (staticMessages cs).flatten
  keyed : Dict.Keyed TransformStamped.childFrameId e.static
  known : ∀ child, List.lookup child e.static = lastTransform child e.tf
  sub : ∀ t ∈ e.static.values, t ∈ e.tf
  static : ∃ ls : List (List TransformStamped), (e.recordsOn .tfStatic).map Record.msg = ls.map Msg.transforms ∧
    ls.length = (staticMessages cs).length ∧ (∀ child, lastTransform child ls.flatten = lastTransform child e.tf) ∧
    ∀ t ∈ ls.flatten, t ∈ e.tf

/-- `self.static[t.child_frame_id] = t` for each transform. -/
def setAll (d : Dict String TransformStamped) (ts : List TransformStamped) : Dict String TransformStamped :=
  ts.foldl (fun d t => Dict.set d t.childFrameId t) d

/-- Setting transforms one by one keeps the dictionary up to date. -/
theorem setAll_known (ts : List TransformStamped) {d : Dict String TransformStamped} {l : List TransformStamped}
    (hk : Dict.Keyed TransformStamped.childFrameId d) (hl : ∀ child, List.lookup child d = lastTransform child l)
    (hs : ∀ t ∈ d.values, t ∈ l) :
    Dict.Keyed TransformStamped.childFrameId (setAll d ts) ∧
      (∀ child, List.lookup child (setAll d ts) = lastTransform child (l ++ ts)) ∧
      ∀ t ∈ (setAll d ts).values, t ∈ l ++ ts := by
  induction ts generalizing d l with
  | nil => exact ⟨hk, by simpa [setAll] using hl, by simpa [setAll] using hs⟩
  | cons t ts ih =>
    have := ih (d := Dict.set d t.childFrameId t) (l := l ++ [t]) (hk.set rfl) (fun child => ?_) (fun x hx => ?_)
    · simpa [setAll] using this
    · rw [Dict.lookup_set, lastTransform, lastWith_append, lastWith_singleton, hl]
      by_cases hc : child = t.childFrameId
      · simp [hc]
      · simp [hc, Ne.symm hc]
    · rcases Dict.mem_values_set hx with rfl | hx
      · simp
      · exact List.mem_append_left _ (hs x hx)

/-- A call without transforms changes nothing. -/
theorem TfLog.skip {cs cs' : List Call} {e : Engine} (h : TfLog cs e) (htf : tfMessages cs' = [])
    (hst : staticMessages cs' = []) : TfLog (cs ++ cs') e := by
  have h1 : tfMessages (cs ++ cs') = tfMessages cs := by rw [tfMessages_append, htf, List.append_nil]
  have h2 : staticMessages (cs ++ cs') = staticMessages cs := by rw [staticMessages_append, hst, List.append_nil]
  exact ⟨by rw [h1]; exact h.tf, by rw [h2]; exact h.set, h.keyed, h.known, h.sub, by rw [h2]; exact h.static⟩

theorem TfLog.run {cs : List Call} {e : Engine} (hr : runCalls D cfg cs = .ok e) : TfLog cs e := by
  refine runCalls_rule (P := TfLog) ?_ ?_ ?_ ?_ ?_ hr
  · refine ⟨rfl, rfl, ⟨by simp [init], by simp [init]⟩, fun _ => rfl, by simp [init, Dict.values], [], rfl, rfl,
      fun _ => rfl, by simp⟩
  · intro cs wall final e e' h hd
    have hdr := drain_draining D cfg wall final e
    rw [hd, final_ok] at hdr
    refine ⟨?_, ?_, ?_, ?_, ?_, ?_⟩
    · rw [drain_recordsOn hd rfl]; exact h.tf
    · rw [hdr.tf]; exact h.set
    · rw [hdr.static]; exact h.keyed
    · rw [hdr.static, hdr.tf]; exact h.known
    · rw [hdr.static, hdr.tf]; exact h.sub
    · rw [drain_recordsOn hd rfl, hdr.tf]; exact h.static
  · exact fun cs wall final e h => h.skip rfl rfl
  · intro cs x arrivalNs wall e hd h hx _
    have hst : ∀ ts, x ≠ .tfStatic ts := by
      rintro ts rfl
      cases hx
    exact TfLog.skip ⟨h.tf, h.set, h.keyed, h.known, h.sub, h.static⟩ (tfMessages_header hx _ _)
      (staticMessages_of_ne hst _ _)
  · intro cs x arrivalNs wall e e₀ e₁ h hn hs
    have hrec := receive_ok hs
    obtain ⟨st, l, ls, rfl, -⟩ := hn.eq
    have htf : ∀ t, ({ e with stats := st, last := l, lastSeq := ls } : Engine).recordsOn t = e.recordsOn t :=
      fun _ => rfl
    have hset := setAll_known x.statics h.keyed h.known h.sub
    rw [show setAll e.static x.statics = e₁.static from hrec.static.symm,
      show e.tf ++ x.statics = e₁.tf from hrec.tf.symm] at hset
    refine ⟨?_, ?_, hset.1, hset.2.1, hset.2.2, ?_⟩
    · rw [hrec.recordsOn, htf, List.map_append, h.tf, tfMessages_append, List.map_append]
      cases x <;> simp [Input.record, tfMessages]
    · rw [hrec.tf, staticMessages_append, List.flatten_append, ← h.set]
      cases x <;> simp [Input.statics, staticMessages]
    · obtain ⟨ms, h1, h2, h3, h4⟩ := h.static
      rw [hrec.recordsOn, htf, List.map_append, h1, staticMessages_append]
      by_cases hx : ∃ ts, x = .tfStatic ts
      · obtain ⟨ts, rfl⟩ := hx
        refine ⟨ms ++ [e₁.static.values], by simp [Input.record], by simp [h2, staticMessages], fun child => ?_, ?_⟩
        · have h3' : lastWith TransformStamped.childFrameId child ms.flatten = _ := h3 child
          rw [List.flatten_append, List.flatten_singleton, lastTransform, lastWith_append, lastWith_values hset.1,
            hset.2.1, h3', hrec.tf, lastTransform, lastTransform, lastWith_append]
          cases lastWith TransformStamped.childFrameId child (Input.tfStatic ts).statics <;> simp
        · intro t ht
          rw [List.flatten_append, List.flatten_singleton, List.mem_append] at ht
          rcases ht with ht | ht
          · rw [hrec.tf]
            exact List.mem_append_left _ (h4 t ht)
          · exact hset.2.2 t ht
      · have hx : ∀ ts, x ≠ .tfStatic ts := fun ts hts => hx ⟨ts, hts⟩
        have htf' : e₁.tf = e.tf := by
          rw [hrec.tf, Input.statics_of_ne hx]
          exact List.append_nil _
        rw [htf', staticMessages_of_ne hx, List.append_nil]
        refine ⟨ms, ?_, h2, h3, h4⟩
        cases x with
        | tfStatic ts => exact absurd rfl (hx ts)
        | _ => exact List.append_nil _

/-! ## Images -/

/-- The images that joined a buffer were delivered, with positive stamps. -/
theorem images_delivered {cs : List Call} {e : Engine} (hr : runCalls D cfg cs = .ok e) (c : Cam) :
    ∀ m ∈ e.arrived c, m ∈ delivered c cs ∧ 0 < m.stamp := by
  refine runCalls_rule (P := fun cs e => ∀ m ∈ e.arrived c, m ∈ delivered c cs ∧ 0 < m.stamp) ?_ ?_ ?_ ?_ ?_ hr
  · simp [Engine.init, history]
  · intro cs wall final e e' h hd
    have hdr := drain_draining D cfg wall final e
    rw [hd, final_ok] at hdr
    rwa [hdr.arrived]
  · intro cs wall final e h m hm
    rw [delivered_append]
    exact (h m hm).imp_left (List.mem_append_left _)
  · intro cs x arrivalNs wall e hd h _ _ m hm
    rw [delivered_append]
    exact (h m hm).imp_left (List.mem_append_left _)
  · intro cs x arrivalNs wall e e₀ e₁ h hn hs m hm
    have hpos := hn.last.2
    obtain ⟨st, l, ls, rfl, -⟩ := hn.eq
    have hold : ∀ m ∈ e.arrived c, m ∈ delivered c (cs ++ [.ingest x arrivalNs wall]) ∧ 0 < m.stamp := fun m hm => by
      rw [delivered_append]
      exact (h m hm).imp_left (List.mem_append_left _)
    by_cases hx : ∃ c m, x = .image c m
    · obtain ⟨c', m', rfl⟩ := hx
      have harr := pair_arrived cfg wall
        (({ e with stats := st, last := l, lastSeq := ls } : Engine).bufferImage cfg c' m') c
      rw [show (Engine.bufferImage cfg c' m' { e with stats := st, last := l, lastSeq := ls }).pair cfg wall = .ok e₁ from hs,
        final_ok, bufferImage_arrived] at harr
      rw [harr] at hm
      split at hm
      · rename_i hcc
        subst hcc
        rcases List.mem_append.1 hm with hm | hm
        · exact hold m hm
        · obtain rfl := List.mem_singleton.1 hm
          refine ⟨?_, (hpos m.header rfl).1⟩
          rw [delivered_append]
          rw [delivered_image]
          exact List.mem_append_right _ List.mem_cons_self
      · exact hold m hm
    · have hq := receive_quiet D cfg arrivalNs wall
        (e := { e with stats := st, last := l, lastSeq := ls }) fun c m hxm => hx ⟨c, m, hxm⟩
      rw [hs, final_ok] at hq
      rw [hq.arrived c] at hm
      exact hold m hm

end Engine

end Agilex.Capture
