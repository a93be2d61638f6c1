import Agilex.Capture.Log

/-!
# The mounting of the camera

`_make_group` compares the body-to-optical matrix of a frame with the one accepted last, and then accepts it in its
place. The comparison is not transitive, so a mounting that creeps is never refused (`mounting_creeps`). All frames are
close to the first one when no message of static transforms makes the mounting drift (`Drifts`): close to the matrix accepted
last and not to that of the first frame (`mounting_kept`).
-/

namespace Agilex.Capture

open Agilex.Lib Binary64 Outcome

namespace Engine

variable (D : Deps) (cfg : Config)

/-- The body-to-optical matrix the transforms lead to. -/
def Mounts (tf : List TransformStamped) (m : Mat) : Prop :=
  ∃ ext, D.lookupTransform tf cfg.body cfg.optical = .ok ext ∧ transformMatrix D.num ext = .ok m

/-- Static transforms `ts` make the mounting drift: the new matrix is close to the one accepted last, and not to the one of
the first emitted frame. -/
def Drifts (e : Engine) (ts : List TransformStamped) : Prop :=
  ∃ m accepted first m₀, Mounts D cfg (e.tf ++ ts) m ∧ e.acceptedExtrinsic = some accepted ∧
    allclose (lit (1 / 10 ^ 8)) m accepted ∧ e.groups.head? = some first ∧ transformMatrix D.num first.ext = .ok m₀ ∧
    ¬allclose (lit (1 / 10 ^ 8)) m m₀

/-- Whether they do, computed. -/
def drifts (e : Engine) (ts : List TransformStamped) : Bool :=
  match D.lookupTransform (e.tf ++ ts) cfg.body cfg.optical, e.acceptedExtrinsic, e.groups.head? with
  | .ok ext, some accepted, some first =>
    match transformMatrix D.num ext, transformMatrix D.num first.ext with
    | .ok m, .ok m₀ => decide (allclose (lit (1 / 10 ^ 8)) m accepted) && !decide (allclose (lit (1 / 10 ^ 8)) m m₀)
    | _, _ => false
  | _, _, _ => false

variable {D cfg}

theorem Drifts.computed {e : Engine} {ts : List TransformStamped} (h : Drifts D cfg e ts) : drifts D cfg e ts = true := by
  obtain ⟨m, accepted, first, m₀, ⟨ext, hext, hm⟩, hacc, hclose, hfirst, hm₀, hfar⟩ := h
  simp only [drifts, hext, hacc, hfirst, hm, hm₀, hclose, hfar, decide_true, decide_false, Bool.not_false, Bool.and_self]

def driftsAt (D : Deps) (cfg : Config) (e : Engine) : Call → Bool
  | .ingest (.tfStatic ts) _ _ => drifts D cfg e ts
  | _ => false

/-- No call of the rest of a run makes the mounting drift. -/
def steady (D : Deps) (cfg : Config) (e : Engine) : List Call → Bool
  | [] => true
  | c :: cs => !driftsAt D cfg e c &&
    match c.exec D cfg e with
    | .ok e' => steady D cfg e' cs
    | .error _ => true

theorem not_drifts_of_steady {cs cs₁ cs₂ : List Call} {ts : List TransformStamped} {arrivalNs : ℤ} {wall : ℚ} {s e : Engine}
    (h : steady D cfg s cs = true) (hcs : cs = cs₁ ++ .ingest (.tfStatic ts) arrivalNs wall :: cs₂)
    (hr : run (Call.exec D cfg) cs₁ s = .ok e) : ¬Drifts D cfg e ts := by
  intro hd
  induction cs₁ generalizing cs s with
  | nil =>
    subst hcs
    cases hr
    simp [steady, driftsAt, hd.computed] at h
  | cons c cs₁ ih =>
    subst hcs
    obtain ⟨s', hs', hr⟩ := run_cons_ok hr
    rw [List.cons_append, steady, hs', Bool.and_eq_true] at h
    exact ih h.2 rfl hr

theorem Mounts.unique {tf : List TransformStamped} {m m' : Mat} (h : Mounts D cfg tf m) (h' : Mounts D cfg tf m') :
    m = m' := by
  obtain ⟨ext, h1, h2⟩ := h
  obtain ⟨ext', h1', h2'⟩ := h'
  rw [h1, Except.ok.injEq] at h1'
  subst h1'
  rw [h2, Except.ok.injEq] at h2'
  exact h2'

theorem close_refl (m : Mat) : allclose (lit (1 / 10 ^ 8)) m m := allclose_refl (rnd_nonneg (by norm_num)) m

/-- **What `_make_group` accepts**: nothing, or the matrix of the transforms, which is close to the one accepted before. -/
theorem makeGroup_accepts (D : Deps) (cfg : Config) (rgb dep : Image) (e : Engine) :
    (afterGroup (makeGroup D cfg rgb dep e)).acceptedExtrinsic = e.acceptedExtrinsic ∨
    ∃ m, Mounts D cfg e.tf m ∧ (∀ acc, e.acceptedExtrinsic = some acc → allclose (lit (1 / 10 ^ 8)) m acc) ∧
      (afterGroup (makeGroup D cfg rgb dep e)).acceptedExtrinsic = some m := by
  unfold makeGroup
  simp only
  have hlift : ∀ {α : Type} (x : Except PyErr α) (f : α → Except (PyErr × Engine) (Group × Engine)),
      (∀ a, x = .ok a → (afterGroup (f a)).acceptedExtrinsic = e.acceptedExtrinsic ∨
        ∃ m, Mounts D cfg e.tf m ∧ (∀ acc, e.acceptedExtrinsic = some acc → allclose (lit (1 / 10 ^ 8)) m acc) ∧
          (afterGroup (f a)).acceptedExtrinsic = some m) →
      (afterGroup (e.lift x >>= f)).acceptedExtrinsic = e.acceptedExtrinsic ∨
        ∃ m, Mounts D cfg e.tf m ∧ (∀ acc, e.acceptedExtrinsic = some acc → allclose (lit (1 / 10 ^ 8)) m acc) ∧
          (afterGroup (e.lift x >>= f)).acceptedExtrinsic = some m := by
    intro α x f hf
    cases x with
    | error err => exact Or.inl rfl
    | ok a => exact hf a rfl
  refine hlift _ _ fun offset _ => hlift _ _ fun ab _ => hlift _ _ fun ci _ => hlift _ _ fun di _ =>
    hlift _ _ fun valid _ => ?_
  split
  · exact Or.inl rfl
  refine hlift _ _ fun ext hext => hlift _ _ fun m hm => ?_
  split
  · exact Or.inl rfl
  · rename_i hclose
    refine Or.inr ⟨m, ⟨ext, lookupExtrinsic_ok hext, hm⟩, fun acc hacc => ?_, ?_⟩
    · simpa [hacc] using hclose
    · cases interpolate D.num ab.1 ab.2 (rgb.header.stamp + offset) <;> rfl

/-- What is known of the mounting: all frames are close to the first, and what is close to the matrix accepted last is
close to the first frame, as far as the transforms lead to it. -/
structure Mounted (D : Deps) (cfg : Config) (e : Engine) : Prop where
  close : ∀ first ∈ e.groups.head?, ∀ g ∈ e.groups, ∃ m₀ m, transformMatrix D.num first.ext = .ok m₀ ∧
    transformMatrix D.num g.ext = .ok m ∧ allclose (lit (1 / 10 ^ 8)) m m₀
  next : ∀ first ∈ e.groups.head?, ∀ m₀, transformMatrix D.num first.ext = .ok m₀ → ∃ accepted,
    e.acceptedExtrinsic = some accepted ∧
      ∀ m, Mounts D cfg e.tf m → allclose (lit (1 / 10 ^ 8)) m accepted → allclose (lit (1 / 10 ^ 8)) m m₀

theorem Mounted.init : Mounted D cfg .init := by
  constructor <;> simp [Engine.init, history]

/-- The mounting does not change with what concerns other things. -/
theorem Mounted.same {e e' : Engine} (h : Mounted D cfg e) (hg : e'.groups = e.groups) (ht : e'.tf = e.tf)
    (ha : e'.acceptedExtrinsic = e.acceptedExtrinsic) : Mounted D cfg e' := by
  constructor
  · rw [hg]
    exact h.close
  · rw [hg, ht, ha]
    exact h.next

/-- `_make_group` accepts a matrix. -/
theorem Mounted.accept {e e' : Engine} (h : Mounted D cfg e) {m : Mat} (hm : Mounts D cfg e.tf m)
    (hclose : ∀ acc, e.acceptedExtrinsic = some acc → allclose (lit (1 / 10 ^ 8)) m acc) (hg : e'.groups = e.groups)
    (ht : e'.tf = e.tf) (ha : e'.acceptedExtrinsic = some m) : Mounted D cfg e' := by
  constructor
  · rw [hg]
    exact h.close
  · rw [hg, ht, ha]
    intro first hfirst m₀ hm₀
    refine ⟨m, rfl, fun m' hm' _ => ?_⟩
    obtain ⟨acc, hacc, hnext⟩ := h.next first hfirst m₀ hm₀
    obtain rfl := hm.unique hm'
    exact hnext m hm (hclose acc hacc)

/-- A group is emitted with the matrix just accepted. -/
theorem Mounted.emit {e e' : Engine} (h : Mounted D cfg e) {m : Mat} {g : Group} (hm : Mounts D cfg e.tf m)
    (hacc : e.acceptedExtrinsic = some m) (hgm : transformMatrix D.num g.ext = .ok m) (hg : e'.groups = e.groups ++ [g])
    (ht : e'.tf = e.tf) (ha : e'.acceptedExtrinsic = e.acceptedExtrinsic) : Mounted D cfg e' := by
  cases hgs : e.groups with
  | nil =>
    -- the first frame of all
    rw [hgs, List.nil_append] at hg
    constructor
    · rw [hg]
      intro first hfirst g' hg'
      obtain rfl : g = first := by simpa using hfirst
      obtain rfl := List.mem_singleton.1 hg'
      exact ⟨m, m, hgm, hgm, close_refl m⟩
    · rw [hg, ht, ha, hacc]
      intro first hfirst m₀ hm₀
      obtain rfl : g = first := by simpa using hfirst
      rw [hgm, Except.ok.injEq] at hm₀
      subst hm₀
      exact ⟨m, rfl, fun m' _ hclose => hclose⟩
  | cons first rest =>
    have hhead : e.groups.head? = some first := by rw [hgs]; rfl
    have hhead' : e'.groups.head? = some first := by rw [hg, hgs]; rfl
    constructor
    · rw [hhead', hg]
      intro first' hfirst g' hg'
      obtain rfl : first = first' := by simpa using hfirst
      rcases List.mem_append.1 hg' with hg' | hg'
      · exact h.close first hhead g' hg'
      · obtain rfl := List.mem_singleton.1 hg'
        obtain ⟨m₀, -, hm₀, -, -⟩ := h.close first hhead first (by rw [hgs]; exact List.mem_cons_self)
        obtain ⟨acc, hacc', hnext⟩ := h.next first hhead m₀ hm₀
        obtain rfl : m = acc := by simpa [hacc] using hacc'
        exact ⟨m₀, m, hm₀, hgm, hnext m hm (close_refl m)⟩
    · rw [hhead', ht, ha]
      intro first' hfirst m₀ hm₀
      exact h.next first' (by rw [hhead]; exact hfirst) m₀ hm₀

/-- **Draining keeps all frames close to the first one.** -/
theorem Mounted.drain {e : Engine} (h : Mounted D cfg e) (wall : ℚ) (final : Bool) :
    Mounted D cfg (Outcome.final (Engine.drain D cfg wall final e)) := by
  refine drainLoop_group_rule (P := Mounted D cfg) (fun rgb dep e h => ?_) (fun p rest r text e h _ => ?_)
    (fun p rest g e e' h _ hg => ?_) e.pending e h rfl
  · have htried := afterGroup_tried D cfg rgb dep e
    have hgroups : (afterGroup (makeGroup D cfg rgb dep e)).groups = e.groups := by
      rcases htried with heq | ⟨x, a, b, target, -, heq⟩ <;> rw [heq]
      exact history_skip [_] rfl (by simp [Event.group])
    have htf : (afterGroup (makeGroup D cfg rgb dep e)).tf = e.tf := by
      rcases htried with heq | ⟨x, a, b, target, -, heq⟩ <;> rw [heq]
      rfl
    rcases makeGroup_accepts D cfg rgb dep e with hacc | ⟨m, hm, hclose, hacc⟩
    · exact h.same hgroups htf hacc
    · exact h.accept hm hclose hgroups htf hacc
  · exact h.same (history_skip [.dropped r p.rgb p.dep] rfl (by simp [Event.group])) rfl rfl
  · obtain ⟨target, a, b, ci, di, valid, ext, m, body, alpha, hp, he, hgrp⟩ := makeGroup_ok hg
    refine h.emit (m := m) (g := g) ⟨ext, ?_, hp.matrix_ok⟩ (by rw [he]; rfl) ?_ emit_groups (by rw [emit_eq])
      (by rw [emit_eq])
    · rw [he]
      exact hp.ext_ok
    · rw [hgrp]
      exact hp.matrix_ok

/-- Static transforms that do not make the mounting drift are received. -/
theorem Mounted.tfStatic {e e' : Engine} (h : Mounted D cfg e) {ts : List TransformStamped} (hd : ¬Drifts D cfg e ts)
    (hg : e'.groups = e.groups) (ht : e'.tf = e.tf ++ ts) (ha : e'.acceptedExtrinsic = e.acceptedExtrinsic) :
    Mounted D cfg e' := by
  constructor
  · rw [hg]
    exact h.close
  · rw [hg, ht, ha]
    intro first hfirst m₀ hm₀
    obtain ⟨acc, hacc, -⟩ := h.next first hfirst m₀ hm₀
    refine ⟨acc, hacc, fun m hm hclose => ?_⟩
    by_contra hfar
    exact hd ⟨m, acc, first, m₀, hm, hacc, hclose, hfirst, hm₀, hfar⟩

/-- Nothing but `_make_group` accepts a matrix. -/
theorem receive_acceptedExtrinsic {x : Input} {arrivalNs : ℤ} {wall : ℚ} {e e' : Engine}
    (h : e.receive D cfg x arrivalNs wall = .ok e') : e'.acceptedExtrinsic = e.acceptedExtrinsic := by
  cases x with
  | image c m =>
    have hi := (bufferImage_imaging cfg c m e).trans (pair_imaging cfg wall (e.bufferImage cfg c m))
    rw [show (e.bufferImage cfg c m).pair cfg wall = .ok e' from h, final_ok] at hi
    exact hi.acceptedExtrinsic
  | odom m =>
    simp only [receive] at h
    rcases ingestOdom_cases D cfg m arrivalNs e with ⟨err, hi⟩ | ⟨-, -, -, ⟨err, -, hi⟩ | ⟨keep, -, hi⟩⟩ <;> rw [hi] at h <;>
      cases h
    rfl
  | tfStatic ts =>
    obtain ⟨t, ht, h⟩ := bind_ok.1 h
    rw [setStatics_ok ht] at h
    cases h
    rfl
  | info c m => cases h; rfl
  | tf ts => cases h; rfl
  | other n data => cases h; rfl

/-- **Every call keeps all frames close to the first one**, unless it makes the mounting drift. -/
theorem Mounted.exec {e e' : Engine} (h : Mounted D cfg e) {c : Call}
    (hd : ∀ ts arrivalNs wall, c = .ingest (.tfStatic ts) arrivalNs wall → ¬Drifts D cfg e ts)
    (hc : c.exec D cfg e = .ok e') : Mounted D cfg e' := by
  have hdrain : ∀ {wall final} {e e' : Engine}, Mounted D cfg e → Engine.drain D cfg wall final e = .ok e' →
      Mounted D cfg e' := by
    intro wall final e e' h hs
    have := h.drain wall final
    rwa [hs, final_ok] at this
  rcases exec_ok hc with ⟨wall, final, rfl, hdr⟩ | ⟨x, arrivalNs, wall, hdup, rfl, -, -, rfl⟩ |
    ⟨x, arrivalNs, wall, e₀, e₁, rfl, hn, h₁, hrest⟩
  · exact hdrain h hdr
  · exact h.same rfl rfl rfl
  · have hr := receive_ok h₁
    have hacc := receive_acceptedExtrinsic h₁
    obtain ⟨st, l, ls, rfl, -⟩ := hn.eq
    have hm : Mounted D cfg e₁ := by
      by_cases hx : ∃ ts, x = .tfStatic ts
      · obtain ⟨ts, rfl⟩ := hx
        exact h.tfStatic (hd ts arrivalNs wall rfl) hr.groups hr.tf hacc
      · refine h.same hr.groups ?_ hacc
        rw [hr.tf, Input.statics_of_ne (fun ts hts => hx ⟨ts, hts⟩), List.append_nil]
    rcases hrest with hdr | rfl
    · exact hdrain hm hdr
    · exact hm

end Engine

/-- **One session, one mounting**: in a run that raises nothing, and in which no message of static transforms makes the mounting
drift, the body-to-optical matrix of every emitted group is close to that of the first one. -/
theorem mounting_kept (D : Deps) (cfg : Config) (cs : List Call)
    (hdrift : ∀ cs₁ ts arrivalNs wall cs₂ e, cs = cs₁ ++ .ingest (.tfStatic ts) arrivalNs wall :: cs₂ →
      runCalls D cfg cs₁ = .ok e → ¬Engine.Drifts D cfg e ts) {e : Engine} (hr : runCalls D cfg cs = .ok e) :
    ∀ first ∈ e.groups.head?, ∀ g ∈ e.groups, ∃ m₀ m, transformMatrix D.num first.ext = .ok m₀ ∧
      transformMatrix D.num g.ext = .ok m ∧ allclose (lit (1 / 10 ^ 8)) m m₀ := by
  refine (run_induction (P := fun cs e => (∀ cs₁ ts arrivalNs wall cs₂ e,
    cs = cs₁ ++ .ingest (.tfStatic ts) arrivalNs wall :: cs₂ → runCalls D cfg cs₁ = .ok e → ¬Engine.Drifts D cfg e ts) →
      Engine.Mounted D cfg e) (fun _ => .init) (fun cs s c s' hs h hc hd => ?_) cs hr hdrift).close
  have hm := h fun cs₁ ts arrivalNs wall cs₂ e hsplit => hd cs₁ ts arrivalNs wall (cs₂ ++ [c]) e (by rw [hsplit]; simp)
  exact hm.exec (fun ts arrivalNs wall hts => hd cs ts arrivalNs wall [] s (by rw [hts]) hs) hc

/-- The camera `x` metres in front of the body. -/
def Still.mountingAt (x : ℚ) : TransformStamped := { mounting with translation := ⟨.fin x, .fin 0, .fin 0⟩ }

/-- Three frames, with the mounting at the three places. -/
def Still.mountedAt (x y z : ℚ) : List Call :=
  [.ingest (.tfStatic [mountingAt x]) 1 0, .ingest (.info .rgb (info 1)) 2 0, .ingest (.info .depth (info 1)) 3 0,
    .ingest (.odom (odom 100000000)) 4 0, .ingest (.image .rgb (rgb 1 150000000)) 5 0,
    .ingest (.image .depth (depth 1 150000000)) 6 0, .ingest (.odom (odom 200000000)) 7 0,
    .ingest (.tfStatic [mountingAt y]) 8 0, .ingest (.odom (odom 300000000)) 9 0,
    .ingest (.image .rgb (rgb 2 350000000)) 10 0, .ingest (.image .depth (depth 2 350000000)) 11 0,
    .ingest (.odom (odom 400000000)) 12 0, .ingest (.tfStatic [mountingAt z]) 13 0,
    .ingest (.odom (odom 500000000)) 14 0, .ingest (.image .rgb (rgb 3 550000000)) 15 0,
    .ingest (.image .depth (depth 3 550000000)) 16 0, .ingest (.odom (odom 600000000)) 17 0]

/-- A step of 9 µm and back. -/
theorem mounting_kept_swaying :
    ∃ e, runCalls Still.deps {} (Still.mountedAt 1 (lit (1000009 / 1000000)) 1) = .ok e ∧ e.groups.length = 3 ∧
      ∀ first ∈ e.groups.head?, ∀ g ∈ e.groups, ∃ m₀ m, transformMatrix Still.numerics first.ext = .ok m₀ ∧
        transformMatrix Still.numerics g.ext = .ok m ∧ allclose (lit (1 / 10 ^ 8)) m m₀ := by
  have h : (runCalls Still.deps {} (Still.mountedAt 1 (lit (1000009 / 1000000)) 1)).toOption.map
      (fun e => e.groups.length) = some 3 := by decide +kernel
  have hsteady : Engine.steady Still.deps {} .init (Still.mountedAt 1 (lit (1000009 / 1000000)) 1) = true := by
    decide +kernel
  obtain ⟨e, hr, hthree⟩ := ok_of_toOption h
  exact ⟨e, hr, hthree, mounting_kept Still.deps {} _
    (fun _ _ _ _ _ _ hsplit hr' => Engine.not_drifts_of_steady hsteady hsplit hr') hr⟩

/-- Two steps of 9 µm. -/
def Still.creep : List Call := mountedAt 1 (lit (1000009 / 1000000)) (lit (1000018 / 1000000))

/-- Of three frames, the last one's mounting is not close to that of the first. -/
def Still.creptApart (e : Engine) : Bool :=
  match e.groups with
  | [first, _, g] =>
    match transformMatrix numerics first.ext, transformMatrix numerics g.ext with
    | .ok m₀, .ok m => !decide (allclose (lit (1 / 10 ^ 8)) m m₀)
    | _, _ => false
  | _ => false

/-- **A mounting that creeps is not refused**: the run raises nothing, and the last of its frames is not close to the
first. -/
theorem mounting_creeps :
    Config.validate {} = .ok () ∧ ∃ e first g m₀ m, runCalls Still.deps {} Still.creep = .ok e ∧
      e.groups.head? = some first ∧ g ∈ e.groups ∧ transformMatrix Still.numerics first.ext = .ok m₀ ∧
      transformMatrix Still.numerics g.ext = .ok m ∧ ¬allclose (lit (1 / 10 ^ 8)) m m₀ := by
  refine ⟨Config.default_valid, ?_⟩
  have h : (runCalls Still.deps {} Still.creep).toOption.any Still.creptApart = true := by decide +kernel
  cases hr : runCalls Still.deps {} Still.creep with
  | error err => rw [hr] at h; cases h
  | ok e =>
    rw [hr] at h
    simp only [Except.toOption, Option.any_some, Still.creptApart] at h
    split at h
    · rename_i first g' g hgs
      split at h
      · rename_i m₀ m hm₀ hm
        exact ⟨e, first, g, m₀, m, rfl, by rw [hgs]; rfl, by rw [hgs]; simp, hm₀, hm, by simpa using h⟩
      · cases h
    · cases h

end Agilex.Capture
