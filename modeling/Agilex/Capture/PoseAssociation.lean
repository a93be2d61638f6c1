import Agilex.Capture.EngineRules

/-!
# Pose association

The buffer of odometry samples is a suffix of the accepted sequence, whose stamps increase (`OdomBuffer`); `bracket`
finds two neighbours around the query in it (`bracket_ok`). So in every run, whatever is raised, a frame is associated
with two neighbours of the accepted sequence around its query, and `interpolate` is called inside its precondition
(`poses_associated`).
-/

namespace Agilex.Capture

open Agilex.Lib Binary64 Outcome

/-! ## The buffer of odometry samples -/

theorem trimOdoms_suffix (cutoff : ℤ) : ∀ l : List Odometry, trimOdoms cutoff l <:+ l
  | [] => List.suffix_refl _
  | [a] => List.suffix_refl _
  | a :: b :: l => by
    rw [trimOdoms]
    split
    · exact (trimOdoms_suffix cutoff (b :: l)).trans (List.suffix_cons a _)
    · exact List.suffix_refl _

/-- Stamps increase from sample to sample. -/
def Increasing (l : List Odometry) : Prop := l.Pairwise fun x y => x.header.stamp < y.header.stamp

/-- Two neighbours of the samples `l` around the query of a frame, as its metadata records them. -/
structure Associated (cfg : Config) (l : List Odometry) (f : FrameMeta) : Prop where
  query : pyRound (mul cfg.cameraTimeOffset (10 ^ 9)) = .ok (f.poseQueryStampNs - f.rgbStampNs)
  adjacent : ∃ a b, Adjacent l a b ∧ a.header.stamp = f.odomBeforeNs ∧ b.header.stamp = f.odomAfterNs
  before_le : f.odomBeforeNs ≤ f.poseQueryStampNs
  le_after : f.poseQueryStampNs ≤ f.odomAfterNs
  distinct : f.odomBeforeNs < f.odomAfterNs
  gap : divFloat (f.odomAfterNs - f.odomBeforeNs) (10 ^ 9) ≤ cfg.maxOdomGap
  alpha : 0 ≤ f.interpolationAlpha ∧ f.interpolationAlpha ≤ 1

theorem Associated.mono {cfg : Config} {l l' : List Odometry} {f : FrameMeta} (h : Associated cfg l f)
    (hl : l <+: l') : Associated cfg l' f := by
  obtain ⟨a, b, hab, ha, hb⟩ := h.adjacent
  exact { h with adjacent := ⟨a, b, hab.infix hl.isInfix, ha, hb⟩ }

/-- **What `bracket` finds**: two neighbours around the target, no further apart than allowed. -/
theorem bracket_ok {cfg : Config} {l : List Odometry} (hl : Increasing l) {target : ℤ} {a b : Odometry}
    (h : bracket cfg l target = .ok (a, b)) :
    Adjacent l a b ∧ a.header.stamp ≤ target ∧ target ≤ b.header.stamp ∧ a.header.stamp < b.header.stamp ∧
      divFloat (b.header.stamp - a.header.stamp) (10 ^ 9) ≤ cfg.maxOdomGap := by
  obtain ⟨k, ha, hb, hgap, hk⟩ := bracket_at h
  have hadj := adjacent_of_getElem? ha hb
  have hlt : a.header.stamp < b.header.stamp := by
    obtain ⟨pre, post, rfl⟩ := hadj
    exact (List.pairwise_cons.1 (List.pairwise_append.1 hl).2.1).1 b List.mem_cons_self
  have ha' : (l.map fun m => m.header.stamp)[k]? = some a.header.stamp := by simp [ha]
  have hb' : (l.map fun m => m.header.stamp)[k + 1]? = some b.header.stamp := by simp [hb]
  rcases hk with hk | ⟨rfl, holdest⟩
  · rw [← hk] at hb'
    exact ⟨hadj, (bisectLeft_lt (by omega) ha').le, bisectLeft_ge hb', hlt, hgap⟩
  · -- the oldest sample is the query itself
    rw [← List.head?_eq_getElem?, holdest] at ha'
    obtain rfl : target = a.header.stamp := Option.some.inj ha'
    exact ⟨hadj, le_rfl, hlt.le, hlt, hgap⟩

/-! ## Runs -/

namespace Engine

/-- The record that annotates a frame. -/
def metadataRecord (f : FrameMeta) (ns : ℤ) : Record := ⟨.group .frame, .metadata f, ns⟩

/-- The buffer is a suffix of the accepted samples, which increase up to the last stamp seen, and all frames and all calls
of `interpolate` use neighbours of the accepted samples. -/
structure OdomBuffer (cfg : Config) (e : Engine) : Prop where
  suffix : e.odoms <:+ e.accepted
  increasing : Increasing e.accepted
  last : ∀ m ∈ e.accepted, ∃ l, e.last .odom = some l ∧ m.header.stamp ≤ l
  calls : ∀ q ∈ e.interpolations, q.1.header.stamp < q.2.1.header.stamp ∧ q.1.header.stamp ≤ q.2.2 ∧
    q.2.2 ≤ q.2.1.header.stamp
  frames : ∀ f ns, metadataRecord f ns ∈ e.written → Associated cfg e.accepted f

theorem OdomBuffer.init (cfg : Config) : OdomBuffer cfg .init := by
  constructor <;> simp [Engine.init, history, Increasing]

variable {D : Deps} {cfg : Config}

/-- Events that accept no sample, call nothing and annotate nothing. -/
theorem OdomBuffer.skip {e e' : Engine} (h : OdomBuffer cfg e) (ho : e'.odoms = e.odoms)
    (hl : e'.last .odom = e.last .odom) (evs : List Event) (ht : e'.trace = e.trace ++ evs)
    (hacc : ∀ ev ∈ evs, ev.acceptance = none) (hcall : ∀ ev ∈ evs, ev.interpolation = none)
    (hrec : ∀ f ns, metadataRecord f ns ∉ evs.filterMap Event.record) : OdomBuffer cfg e' := by
  have ha : e'.accepted = e.accepted := history_skip _ ht hacc
  have hi : e'.interpolations = e.interpolations := history_skip _ ht hcall
  refine ⟨by rw [ho, ha]; exact h.suffix, by rw [ha]; exact h.increasing, by rw [ha, hl]; exact h.last,
    by rw [hi]; exact h.calls, fun f ns hf => ?_⟩
  rw [written, history_append _ ht, List.mem_append] at hf
  rw [ha]
  exact hf.elim (h.frames f ns) fun hf => absurd hf (hrec f ns)

theorem OdomBuffer.imaging {e e' : Engine} (h : OdomBuffer cfg e) (hi : Imaging e e') : OdomBuffer cfg e' := by
  obtain ⟨evs, ht, hev⟩ := hi.trace
  have hnone : ∀ {α : Type} (f : Event → Option α), (∀ ev, ev.imaging → f ev = none) → ∀ ev ∈ evs, f ev = none :=
    fun f hf ev hm => hf ev (hev ev hm)
  refine h.skip hi.odoms (by rw [hi.last]) _ ht (hnone _ ?_) (hnone _ ?_) fun f ns => ?_
  · intro ev; cases ev <;> simp [Event.imaging, Event.acceptance]
  · intro ev; cases ev <;> simp [Event.imaging, Event.interpolation]
  · rw [List.filterMap_eq_nil_iff.2 (hnone _ (by intro ev; cases ev <;> simp [Event.imaging, Event.record]))]
    simp

/-- A call of `interpolate` is between neighbours around its target. -/
theorem OdomBuffer.tried {e e' : Engine} (h : OdomBuffer cfg e) (ht : Tried cfg e e') : OdomBuffer cfg e' := by
  rcases ht with rfl | ⟨x, a, b, target, hab, rfl⟩
  · exact h
  · have hinc : Increasing e.odoms := h.increasing.sublist h.suffix.sublist
    obtain ⟨-, h1, h2, h3, -⟩ := bracket_ok hinc hab
    have hacc : (({ e with acceptedExtrinsic := x } : Engine).log (.interpolating a b target)).accepted = e.accepted :=
      history_skip [_] rfl (by simp [Event.acceptance])
    refine ⟨by rw [hacc]; exact h.suffix, by rw [hacc]; exact h.increasing, by rw [hacc]; exact h.last,
      fun q hq => ?_, fun f ns hf => ?_⟩
    · rw [interpolations, history_append [_] rfl, List.mem_append] at hq
      rcases hq with hq | hq
      · exact h.calls q hq
      · simp [Event.interpolation] at hq
        subst hq
        exact ⟨h3, h1, h2⟩
    · rw [written, history_append [_] rfl, List.mem_append] at hf
      rw [hacc]
      exact hf.elim (h.frames f ns) fun hf => by simp [Event.record] at hf

theorem metadata_mem_records {g : Group} {f : FrameMeta} {ns ns' : ℤ} (h : metadataRecord f ns' ∈ g.records ns) :
    f = g.metadata := by
  simp only [Group.records, GROUP, List.mem_map, metadataRecord] at h
  obtain ⟨t, -, ht⟩ := h
  cases t <;> simp_all [Group.msg]

/-- An emitted group is annotated with the neighbours its pose was interpolated from. -/
theorem OdomBuffer.emit {e e' : Engine} (h : OdomBuffer cfg e') {wall : ℚ} {p : Pending} {rest : List Pending}
    {g : Group} (hg : makeGroup D cfg p.rgb p.dep e = .ok (g, e')) : OdomBuffer cfg (Engine.emit wall p rest g e') := by
  obtain ⟨target, a, b, ci, di, valid, ext, mExt, body, alpha, hp, he', hgrp⟩ := makeGroup_ok hg
  have hab : bracket cfg e'.odoms target = .ok (a, b) := by rw [he']; exact hp.bracket_ok
  obtain ⟨hadj, h1, h2, h3, hgap⟩ := bracket_ok (h.increasing.sublist h.suffix.sublist) hab
  obtain ⟨-, -, -, halpha⟩ := interpolate_ok hp.interpolate_ok
  have hassoc : Associated cfg e'.accepted g.metadata := by
    rw [hgrp]
    refine ⟨hp.target_eq, ⟨a, b, hadj.infix h.suffix.isInfix, rfl, rfl⟩, h1, h2, h3, hgap, ?_⟩
    rw [assemble, halpha]
    exact divInt_unit (by omega) (by omega) (by omega)
  have hacc : (Engine.emit wall p rest g e').accepted = e'.accepted := emit_skip rfl fun _ => rfl
  have hcalls : (Engine.emit wall p rest g e').interpolations = e'.interpolations := emit_skip rfl fun _ => rfl
  refine ⟨?_, by rw [hacc]; exact h.increasing, ?_, by rw [hcalls]; exact h.calls, fun f ns hf => ?_⟩
  · rw [hacc, emit_eq]
    exact h.suffix
  · rw [hacc, emit_eq]
    exact h.last
  · rw [hacc]
    rw [emit_written, List.mem_append] at hf
    rcases hf with hf | hf
    · exact h.frames f ns hf
    · rw [metadata_mem_records hf]
      exact hassoc

theorem OdomBuffer.drain {e : Engine} (h : OdomBuffer cfg e) (wall : ℚ) (final : Bool) :
    OdomBuffer cfg (Outcome.final (Engine.drain D cfg wall final e)) := by
  refine drainLoop_rule (P := OdomBuffer cfg) (fun e e' h ht => h.tried ht) (fun p rest r text e h _ => ?_)
    (fun p rest g e e' h _ hg => h.emit hg) e.pending e h rfl
  exact h.skip rfl rfl [.dropped r p.rgb p.dep] rfl (by simp [Event.acceptance]) (by simp [Event.interpolation])
    (by simp [Event.record])

/-- A sample newer than all before it is accepted; the buffer may be trimmed. -/
theorem OdomBuffer.accept {e e' : Engine} (h : OdomBuffer cfg e) {m : Odometry} {s : ℤ} (hs : e.last .odom = some s)
    (hnew : ∀ x ∈ e.accepted, x.header.stamp < m.header.stamp) (hm : m.header.stamp ≤ s)
    (ho : e'.odoms <:+ e.odoms ++ [m]) (hl : e'.last = e.last) (evs : List Event)
    (ht : e'.trace = e.trace ++ .odometry m :: evs) (hacc : ∀ ev ∈ evs, ev.acceptance = none)
    (hcall : ∀ ev ∈ evs, ev.interpolation = none) (hrec : ∀ f ns, metadataRecord f ns ∉ evs.filterMap Event.record) :
    OdomBuffer cfg e' := by
  have ha : e'.accepted = e.accepted ++ [m] := by
    rw [accepted, history_append _ ht, List.filterMap_cons, List.filterMap_eq_nil_iff.2 hacc]
    rfl
  have hi : e'.interpolations = e.interpolations := history_skip _ ht fun ev hev => by
    rcases List.mem_cons.1 hev with rfl | hev
    · rfl
    · exact hcall ev hev
  refine ⟨?_, ?_, ?_, by rw [hi]; exact h.calls, fun f ns hf => ?_⟩
  · rw [ha]
    obtain ⟨old, hold⟩ := h.suffix
    exact ho.trans ⟨old, by rw [← List.append_assoc, hold]⟩
  · rw [ha]
    refine List.pairwise_append.2 ⟨h.increasing, by simp, fun x hx y hy => ?_⟩
    obtain rfl := List.mem_singleton.1 hy
    exact hnew x hx
  · rw [ha, hl]
    intro x hx
    rcases List.mem_append.1 hx with hx | hx
    · exact h.last x hx
    · obtain rfl := List.mem_singleton.1 hx
      exact ⟨s, hs, hm⟩
  · rw [ha]
    rw [written, history_append _ ht, List.mem_append] at hf
    rcases hf with hf | hf
    · exact (h.frames f ns hf).mono (List.prefix_append _ _)
    · exact absurd (by simpa [Event.record, List.filterMap_cons] using hf) (hrec f ns)

/-- An input is noted; a sample of it is newer than all accepted ones. -/
theorem OdomBuffer.noted {e e₀ : Engine} {x : Input} (h : OdomBuffer cfg e) (hn : Noted e x e₀) :
    OdomBuffer cfg e₀ ∧ ∀ m, x = .odom m →
      e₀.last .odom = some m.header.stamp ∧ ∀ y ∈ e₀.accepted, y.header.stamp < m.header.stamp := by
  obtain ⟨hother, htopic⟩ := hn.last
  obtain ⟨st, l, ls, rfl, -⟩ := hn.eq
  refine ⟨⟨h.suffix, h.increasing, fun m hm => ?_, h.calls, h.frames⟩, fun m hm => ?_⟩
  · obtain ⟨s, hs, hms⟩ := h.last m hm
    cases hx : x.sourceHeader with
    | none => exact ⟨s, (hother .odom (Or.inl hx)).trans hs, hms⟩
    | some hd =>
      by_cases ht : Topic.odom = x.topic
      · obtain ⟨-, h1, h2⟩ := htopic hd hx
        rw [← ht] at h1 h2
        exact ⟨hd.stamp, h1, hms.trans (h2 s hs).le⟩
      · exact ⟨s, (hother .odom (Or.inr ht)).trans hs, hms⟩
  · subst hm
    obtain ⟨-, h1, h2⟩ := htopic m.header rfl
    refine ⟨h1, fun y hy => ?_⟩
    obtain ⟨s, hs, hys⟩ := h.last y hy
    exact hys.trans_lt (h2 s hs)

theorem OdomBuffer.receive {e : Engine} (h : OdomBuffer cfg e) {x : Input} (arrivalNs : ℤ) (wall : ℚ)
    (hx : ∀ m, x = .odom m →
      e.last .odom = some m.header.stamp ∧ ∀ y ∈ e.accepted, y.header.stamp < m.header.stamp) :
    OdomBuffer cfg (Outcome.final (e.receive D cfg x arrivalNs wall)) := by
  cases x with
  | image c m => exact (h.imaging (bufferImage_imaging cfg c m e)).imaging (pair_imaging cfg wall _)
  | odom m =>
    obtain ⟨hlast, hnew⟩ := hx m rfl
    have hsuf := trimOdoms_suffix
    simp only [Engine.receive]
    rcases ingestOdom_cases D cfg m arrivalNs e with ⟨err, hi⟩ | ⟨-, -, -, ⟨err, -, hi⟩ | ⟨keep, -, hi⟩⟩ <;> rw [hi]
    · exact h
    · exact h.accept hlast hnew le_rfl (List.suffix_refl _) rfl [] rfl (by simp) (by simp) (by simp)
    · exact h.accept hlast hnew le_rfl (trimOdoms_suffix _ _) rfl [.written ⟨.odom, .odometry m, arrivalNs⟩]
        rfl (by simp [Event.acceptance]) (by simp [Event.interpolation]) (by simp [Event.record, metadataRecord])
  | info c m =>
    exact h.skip rfl rfl [.written ⟨.info c, .cameraInfo m, arrivalNs⟩] rfl (by simp [Event.acceptance])
      (by simp [Event.interpolation]) (by simp [Event.record, metadataRecord])
  | tf ts =>
    exact h.skip rfl rfl [.written ⟨.tf, .transforms ts, arrivalNs⟩] rfl (by simp [Event.acceptance])
      (by simp [Event.interpolation]) (by simp [Event.record, metadataRecord])
  | other n data =>
    exact h.skip rfl rfl [.written ⟨.other n, .raw data, arrivalNs⟩] rfl (by simp [Event.acceptance])
      (by simp [Event.interpolation]) (by simp [Event.record, metadataRecord])
  | tfStatic ts =>
    obtain ⟨set, rest, -, hfin⟩ := setStatics_final D ts e
    refine final_bind (P := OdomBuffer cfg) ?_ fun s hs => ?_
    · rw [hfin]
      exact ⟨h.suffix, h.increasing, h.last, h.calls, h.frames⟩
    · exact hs.skip rfl rfl [.written ⟨.tfStatic, .transforms s.static.values, arrivalNs⟩] rfl
        (by simp [Event.acceptance]) (by simp [Event.interpolation]) (by simp [Event.record, metadataRecord])

/-- **Every call keeps the buffer a suffix of the accepted samples**, whatever it raises. -/
theorem OdomBuffer.exec {e : Engine} (h : OdomBuffer cfg e) (c : Call) :
    OdomBuffer cfg (Outcome.final (c.exec D cfg e)) := by
  refine exec_rule h (fun e k _ h => ⟨h.suffix, h.increasing, h.last, h.calls, h.frames⟩)
    (fun wall final e h => h.drain wall final) (fun x arrivalNs wall e₀ hn => ?_) c
  obtain ⟨h₀, hx⟩ := h.noted hn
  exact h₀.receive arrivalNs wall hx

theorem OdomBuffer.run (D : Deps) (cfg : Config) (cs : List Call) : OdomBuffer cfg (runAllCalls D cfg cs) :=
  runAll_invariant (P := OdomBuffer cfg) (fun c _ h => h.exec c) cs (.init cfg)

end Engine

/-- **Poses are interpolated between neighbouring samples, never extrapolated.** After any calls, whatever they raised:
each frame written is associated with two neighbours, around its query, of the odometry samples accepted so far, with an
interpolation fraction in `[0, 1]`; every call of `interpolate` was inside its precondition; and a frame for the same
RGB stamp from any other run with the same accepted samples has the same neighbours, unless the query is the very sample
that both share. -/
theorem poses_associated (D : Deps) (cfg : Config) (cs : List Call) :
    (∀ f ns, Engine.metadataRecord f ns ∈ (runAllCalls D cfg cs).written →
      Associated cfg (runAllCalls D cfg cs).accepted f) ∧
    (∀ q ∈ (runAllCalls D cfg cs).interpolations, q.1.header.stamp < q.2.1.header.stamp ∧
      q.1.header.stamp ≤ q.2.2 ∧ q.2.2 ≤ q.2.1.header.stamp) ∧
    ∀ D' cs', (runAllCalls D' cfg cs').accepted = (runAllCalls D cfg cs).accepted →
      ∀ f ns f' ns', Engine.metadataRecord f ns ∈ (runAllCalls D cfg cs).written →
        Engine.metadataRecord f' ns' ∈ (runAllCalls D' cfg cs').written → f.rgbStampNs = f'.rgbStampNs →
          Associated cfg (runAllCalls D cfg cs).accepted f' ∧ f.poseQueryStampNs = f'.poseQueryStampNs ∧
          (f.odomBeforeNs = f'.odomBeforeNs ∧ f.odomAfterNs = f'.odomAfterNs ∨
            f.odomAfterNs = f.poseQueryStampNs ∧ f'.odomBeforeNs = f.poseQueryStampNs ∨
            f'.odomAfterNs = f.poseQueryStampNs ∧ f.odomBeforeNs = f.poseQueryStampNs) := by
  have h := Engine.OdomBuffer.run D cfg cs
  refine ⟨h.frames, h.calls, fun D' cs' hacc f ns f' ns' hf hf' hstamp => ?_⟩
  have h1 := h.frames f ns hf
  have h2 := (Engine.OdomBuffer.run D' cfg cs').frames f' ns' hf'
  rw [hacc] at h2
  have hq : f.poseQueryStampNs = f'.poseQueryStampNs := by
    have heq := h1.query.symm.trans h2.query
    simp only [Except.ok.injEq] at heq
    omega
  obtain ⟨a, b, hab, ha, hb⟩ := h1.adjacent
  obtain ⟨a', b', hab', ha', hb'⟩ := h2.adjacent
  have b1 := h1.before_le
  have b2 := h1.le_after
  have b3 := h2.before_le
  have b4 := h2.le_after
  have hround := hab.around h.increasing hab' (q := f.poseQueryStampNs) (by omega) (by omega) (by omega) (by omega)
  rw [ha, hb, ha', hb'] at hround
  exact ⟨h2, hq, hround⟩

end Agilex.Capture
