import Agilex.Capture.Mounting
import Agilex.Capture.RateLimit

/-!
# The resolution of queued frames

Every frame leaves the queue by a verdict of `_make_group`, in the order of queueing, and `drain` passes the verdicts that
the engine in which it is called would pass on all of them (`frames_resolved`).

- `verdict_agreeing`: what the earlier turns of a `drain` change does not change a verdict;
- `Resolves` is what one `drain` does to the queue, `drainLoop_resolves` its proof by induction on the queue;
- `Queued` keeps the queue sorted by the time of queueing, so that the frames behind one that waits have waited less.
-/

namespace Agilex.Capture

open Agilex.Lib Binary64 Outcome

/-- The time at which a call is made. -/
def Call.wall : Call → ℚ
  | .ingest _ _ wall => wall
  | .drain wall _ => wall

/-! ## Verdicts -/

/-- What `_make_group` says of a queued frame. -/
inductive Verdict where
  | complete
  /-- Data are missing, or invalid: the reason for which the frame would be dropped. -/
  | incomplete (r : DropReason)
  /-- `drain` raises. -/
  | fatal
  deriving DecidableEq, Repr

/-- The verdict an exception of `_make_group` stands for. -/
def PyErr.verdict : PyErr → Verdict
  | .lookup r => .incomplete r
  | .value _ => .incomplete .invalidRgbd
  | _ => .fatal

/-- The frame that leaves the queue, and the verdict by which it does. -/
def Event.exit : Event → Option ((Image × Image) × Verdict)
  | .emitted rgb dep _ => some ((rgb, dep), .complete)
  | .dropped r rgb dep => some ((rgb, dep), .incomplete r)
  | _ => none

namespace Engine

/-- The frames that left the queue so far, with their verdicts. -/
abbrev exits (e : Engine) : List ((Image × Image) × Verdict) := e.history Event.exit

/-- The verdict an outcome of `_make_group` stands for. -/
def verdictOf {α : Type} : Except (PyErr × Engine) α → Verdict
  | .ok _ => .complete
  | .error (err, _) => err.verdict

/-- The verdict on a queued frame in the engine `e`. -/
def verdict (D : Deps) (cfg : Config) (e : Engine) (p : Pending) : Verdict := verdictOf (makeGroup D cfg p.rgb p.dep e)

variable {D : Deps} {cfg : Config}

/-- An engine in which `_make_group` decides as in `e₀`: it reads the same data, and the accepted extrinsic is the same or
the one that `e₀` accepts. -/
structure Agreeing (D : Deps) (cfg : Config) (e₀ e : Engine) : Prop where
  odoms : e.odoms = e₀.odoms
  infos : e.infos = e₀.infos
  tf : e.tf = e₀.tf
  extrinsic : e.acceptedExtrinsic = e₀.acceptedExtrinsic ∨
    ∃ m, Mounts D cfg e₀.tf m ∧ (∀ acc, e₀.acceptedExtrinsic = some acc → allclose (lit (1 / 10 ^ 8)) m acc) ∧
      e.acceptedExtrinsic = some m

theorem Agreeing.refl (e : Engine) : Agreeing D cfg e e := ⟨rfl, rfl, rfl, Or.inl rfl⟩

/-- A verdict on a sequence of two computations, the first without effect. -/
theorem verdictOf_lift {α β : Type} (e : Engine) (x : Except PyErr α) (f : α → Except (PyErr × Engine) β) :
    verdictOf (e.lift x >>= f) = match x with
      | .ok a => verdictOf (f a)
      | .error err => err.verdict := by
  cases x <;> rfl

/-- The check of the extrinsic gives the same answer in agreeing engines. -/
theorem Agreeing.check {e₀ e : Engine} (h : Agreeing D cfg e₀ e) {m : Mat} (hm : Mounts D cfg e₀.tf m) :
    (e.acceptedExtrinsic.any fun m' => ¬allclose (lit (1 / 10 ^ 8)) m m') =
      e₀.acceptedExtrinsic.any fun m' => ¬allclose (lit (1 / 10 ^ 8)) m m' := by
  rcases h.extrinsic with he | ⟨m', hm', hclose, he⟩
  · rw [he]
  · -- the matrix just accepted is compared with itself
    obtain rfl := hm.unique hm'
    rw [he]
    cases hacc : e₀.acceptedExtrinsic with
    | none => simp only [Option.any_some, Option.any_none, close_refl m, not_true_eq_false, decide_false]
    | some acc => simp only [Option.any_some, close_refl m, hclose acc hacc, not_true_eq_false, decide_false]

/-- **Agreeing engines pass the same verdicts.** -/
theorem verdict_agreeing {e₀ e : Engine} (h : Agreeing D cfg e₀ e) (p : Pending) :
    verdict D cfg e p = verdict D cfg e₀ p := by
  have hinfo : ∀ c t, e.info cfg c t = e₀.info cfg c t := fun c t => by simp only [info, h.infos]
  have hext : e.lookupExtrinsic D cfg = e₀.lookupExtrinsic D cfg := by simp only [lookupExtrinsic, h.tf]
  unfold verdict makeGroup
  simp only [verdictOf_lift, hinfo, hext, h.odoms]
  cases pyRound (mul cfg.cameraTimeOffset (10 ^ 9)) with
  | error err => rfl
  | ok offset =>
  simp only
  cases (bracket cfg e₀.odoms (p.rgb.header.stamp + offset)).mapError PyErr.lookup with
  | error err => rfl
  | ok ab =>
  simp only
  cases e₀.info cfg .rgb p.rgb.header.stamp with
  | error err => rfl
  | ok ci =>
  simp only
  cases e₀.info cfg .depth p.dep.header.stamp with
  | error err => rfl
  | ok di =>
  simp only
  cases validateRgbd p.rgb p.dep ci di cfg.optical with
  | error err => rfl
  | ok valid =>
  simp only
  split
  · rfl
  cases hx : e₀.lookupExtrinsic D cfg with
  | error err => simp only [verdictOf_lift]
  | ok ext =>
  simp only [verdictOf_lift]
  cases hm : transformMatrix D.num ext with
  | error err => rfl
  | ok m =>
  have hmm : Mounts D cfg e₀.tf m := ⟨ext, lookupExtrinsic_ok hx, hm⟩
  simp only [h.check hmm]
  split
  · rfl
  · simp only [verdictOf_lift]
    cases interpolate D.num ab.1 ab.2 (p.rgb.header.stamp + offset) <;> rfl

/-- `_make_group` leaves an agreeing engine. -/
theorem Agreeing.tried {e₀ e : Engine} (h : Agreeing D cfg e₀ e) (rgb dep : Image) :
    Agreeing D cfg e₀ (afterGroup (makeGroup D cfg rgb dep e)) := by
  obtain ⟨ho, hi, ht⟩ : (afterGroup (makeGroup D cfg rgb dep e)).odoms = e.odoms ∧
      (afterGroup (makeGroup D cfg rgb dep e)).infos = e.infos ∧
      (afterGroup (makeGroup D cfg rgb dep e)).tf = e.tf := by
    rcases afterGroup_tried D cfg rgb dep e with he | ⟨x, a, b, target, -, he⟩ <;> rw [he] <;> exact ⟨rfl, rfl, rfl⟩
  refine ⟨ho.trans h.odoms, hi.trans h.infos, ht.trans h.tf, ?_⟩
  rcases makeGroup_accepts D cfg rgb dep e with he | ⟨m, hm, hclose, he⟩
  · rw [he]
    exact h.extrinsic
  · rw [h.tf] at hm
    refine Or.inr ⟨m, hm, fun acc hacc => ?_, he⟩
    rcases h.extrinsic with hx | ⟨m', hm', hclose', -⟩
    · exact hclose acc (hx.trans hacc)
    · obtain rfl := hm.unique hm'
      exact hclose' acc hacc

/-! ## One `drain` -/

/-- What `drain`, called at `wall` in `e₀` with the queue `l`, leaves in `e`: the first frames of the queue have left it, in
order, each by the verdict in `e₀`, and none for missing data before it was due. -/
def Resolves (D : Deps) (cfg : Config) (wall : ℚ) (final : Bool) (e₀ : Engine) (l : List Pending) (e e' : Engine) : Prop :=
  ∃ done, l = done ++ e'.pending ∧ e'.exits = e.exits ++ done.map (fun p => (p.images, e₀.verdict D cfg p)) ∧
    ∀ p ∈ done, ∀ r, r ≠ .invalidRgbd → e₀.verdict D cfg p = .incomplete r → final = true ∨ cfg.wait ≤ sub wall p.queued

/-- The head of a queue that is left waits: its data are missing, and it is not due. -/
def Waits (D : Deps) (cfg : Config) (wall : ℚ) (final : Bool) (e₀ e' : Engine) : Prop :=
  ∀ p ∈ e'.pending.head?, final = false ∧ sub wall p.queued < cfg.wait ∧ ∃ r, e₀.verdict D cfg p = .incomplete r

theorem drop_exits (p : Pending) (rest : List Pending) (r : DropReason) (text : String) (e : Engine) :
    (drop p rest r text e).exits = e.exits ++ [(p.images, .incomplete r)] := by
  rw [exits, drop, history_log]
  rfl

theorem emit_exits (wall : ℚ) (p : Pending) (rest : List Pending) (g : Group) (e : Engine) :
    (emit wall p rest g e).exits = e.exits ++ [(p.images, .complete)] := by
  rw [exits]
  exact emit_once rfl fun _ => rfl

/-- No frame has left the queue. -/
theorem Resolves.none {wall : ℚ} {final : Bool} {e₀ e e' : Engine} {l : List Pending} (hp : e'.pending = l)
    (he : e'.exits = e.exits) : Resolves D cfg wall final e₀ l e e' := ⟨[], hp.symm, by simpa using he, by simp⟩

/-- The first frame has left the queue by its verdict; the others follow. -/
theorem Resolves.cons {wall : ℚ} {final : Bool} {e₀ e t e' : Engine} {p : Pending} {rest : List Pending}
    (h : Resolves D cfg wall final e₀ rest t e') (ht : t.exits = e.exits ++ [(p.images, e₀.verdict D cfg p)])
    (hdue : ∀ r, r ≠ .invalidRgbd → e₀.verdict D cfg p = .incomplete r → final = true ∨ cfg.wait ≤ sub wall p.queued) :
    Resolves D cfg wall final e₀ (p :: rest) e e' := by
  obtain ⟨done, hrest, hexits, hall⟩ := h
  refine ⟨p :: done, by rw [hrest, List.cons_append], ?_, ?_⟩
  · rw [hexits, ht, List.map_cons, List.append_assoc, List.singleton_append]
  · intro q hq
    rcases List.mem_cons.1 hq with rfl | hq
    · exact hdue
    · exact hall q hq

/-- **What `drain` does to the queue**, by induction on it; the engine stays in agreement with the one it started from. -/
theorem drainLoop_resolves (D : Deps) (cfg : Config) (wall : ℚ) (final : Bool) {e₀ : Engine} (l : List Pending) (e : Engine)
    (h : Agreeing D cfg e₀ e) (hl : e.pending = l) :
    Resolves D cfg wall final e₀ l e (Outcome.final (drainLoop D cfg wall final l e)) ∧
      ∀ e', drainLoop D cfg wall final l e = .ok e' → Waits D cfg wall final e₀ e' := by
  induction l generalizing e with
  | nil =>
    refine ⟨⟨[], ?_, by simp [drainLoop], by simp⟩, fun e' he p hp => ?_⟩
    · rw [drainLoop, final_ok, hl, List.nil_append]
    · cases he
      rw [hl] at hp
      cases hp
  | cons p rest ih =>
    have htried := h.tried p.rgb p.dep
    have hverdict := verdict_agreeing h p
    have hpend := (afterGroup_tried D cfg p.rgb p.dep e).pending.trans hl
    have hexits : (afterGroup (makeGroup D cfg p.rgb p.dep e)).exits = e.exits :=
      (afterGroup_tried D cfg p.rgb p.dep e).quiet.toPlain.history (by intro ev; cases ev <;> simp [Event.plain, Event.exit])
    unfold verdict verdictOf at hverdict
    rw [drainLoop]
    rcases drainStep_cases D cfg wall final p rest e with
      ⟨g, e₁, hg, hs⟩ | ⟨err, e₁, r, text, hg, hr, hs⟩ | ⟨r, e₁, hg, hf, hw, hs⟩ | ⟨err, e₁, hg, hs⟩ <;>
      rw [hg] at htried hverdict hpend hexits <;> rw [hs]
    · have hv : e₀.verdict D cfg p = .complete := hverdict.symm
      obtain ⟨hres, hwait⟩ := ih (emit wall p rest g e₁)
        (by rw [emit_eq]; exact ⟨htried.odoms, htried.infos, htried.tf, htried.extrinsic⟩) (by rw [emit_eq])
      refine ⟨hres.cons ?_ fun r _ hr => ?_, hwait⟩
      · rw [emit_exits, hv]
        exact congrArg (· ++ _) hexits
      · rw [hv] at hr
        cases hr
    · have hv : e₀.verdict D cfg p = .incomplete r := by
        rcases hr with ⟨rfl, -⟩ | ⟨rfl, msg, rfl⟩ <;> exact hverdict.symm
      obtain ⟨hres, hwait⟩ := ih (drop p rest r text e₁)
        ⟨htried.odoms, htried.infos, htried.tf, htried.extrinsic⟩ rfl
      refine ⟨hres.cons ?_ fun r' hne hr' => ?_, hwait⟩
      · rw [drop_exits, hv]
        exact congrArg (· ++ _) hexits
      · rw [hv, Verdict.incomplete.injEq] at hr'
        subst hr'
        rcases hr with ⟨-, hdue⟩ | ⟨hinv, -⟩
        · exact hdue
        · exact absurd hinv hne
    · -- the head waits, and so do the frames behind it
      refine ⟨.none hpend hexits, fun e' he q hq => ?_⟩
      obtain rfl : e₁ = e' := Except.ok.inj he
      have hpend : e₁.pending = p :: rest := hpend
      rw [hpend] at hq
      obtain rfl : p = q := by simpa using hq
      exact ⟨hf, hw, r, hverdict.symm⟩
    · exact ⟨.none hpend hexits, fun e' he => by cases he⟩

/-! ## The calls that drain -/

/-- The call, made in the engine `e`, calls `drain(wall, final)` in the engine `e₁`. -/
inductive Drains (D : Deps) (cfg : Config) (e : Engine) : Call → Engine → ℚ → Bool → Prop where
  | call (wall : ℚ) (final : Bool) : Drains D cfg e (.drain wall final) e wall final
  | ingest {x : Input} {arrivalNs : ℤ} {wall : ℚ} {e₀ e₁ : Engine} (hn : Noted e x e₀)
      (hr : e₀.receive D cfg x arrivalNs wall = .ok e₁) (hx : x.drains = true) :
      Drains D cfg e (.ingest x arrivalNs wall) e₁ wall false

/-- A noted input is processed. -/
theorem Noted.ingest {e e₀ : Engine} {x : Input} (h : Noted e x e₀) (arrivalNs : ℤ) (wall : ℚ) :
    e.ingest D cfg x arrivalNs wall = e₀.process D cfg x arrivalNs wall := by
  have hlast : (e.inc (.received x.topic)).last = e.last := rfl
  unfold Engine.ingest
  simp only [hlast]
  rcases h with ⟨hs, rfl⟩ | ⟨hd, hs, hpos, hnew, rfl⟩
  · rw [hs]
  · have h1 : ¬((e.last x.topic).any fun p => decide (hd.stamp < p)) = true := by
      cases hl : e.last x.topic with
      | none => simp
      | some p => simpa using (hnew p hl).le
    have h2 : e.last x.topic ≠ some hd.stamp := fun hl => lt_irrefl _ (hnew _ hl)
    rw [hs]
    simp only
    rw [if_neg (by omega), if_neg h1, if_neg h2, noteSource_inc]

/-- No frame leaves the queue while an input is received. -/
theorem receive_exits (D : Deps) (cfg : Config) (x : Input) (arrivalNs : ℤ) (wall : ℚ) (e : Engine) :
    (Outcome.final (e.receive D cfg x arrivalNs wall)).exits = e.exits := by
  by_cases hi : ∃ c m, x = .image c m
  · obtain ⟨c, m, rfl⟩ := hi
    refine ((bufferImage_imaging cfg c m e).trans (pair_imaging cfg wall _)).skip fun ev hev => ?_
    cases ev <;> first | rfl | cases hev
  · push Not at hi
    exact (receive_quiet D cfg arrivalNs wall hi).toPlain.history (by intro ev; cases ev <;> simp [Event.plain, Event.exit])

theorem Noted.exits {e e₀ : Engine} {x : Input} (h : Noted e x e₀) : e₀.exits = e.exits :=
  h.toPlain.history (by intro ev; cases ev <;> simp [Event.plain, Event.exit])

/-- The `drain` of a call is its last step, and no frame has left the queue before. -/
theorem Drains.exec {e e₁ : Engine} {c : Call} {wall : ℚ} {final : Bool} (h : Drains D cfg e c e₁ wall final) :
    c.exec D cfg e = e₁.drain D cfg wall final ∧ e₁.exits = e.exits ∧ c.wall = wall := by
  cases h with
  | call => exact ⟨rfl, rfl, rfl⟩
  | @ingest x arrivalNs wall e₀ e₁ hn hr hx =>
    have hexits := receive_exits D cfg x arrivalNs wall e₀
    rw [hr] at hexits
    refine ⟨?_, hexits.trans hn.exits, rfl⟩
    rw [Call.exec, hn.ingest, process, hr]
    exact if_pos hx

/-- A call without a `drain` lets no frame leave the queue. -/
theorem exec_exits {e : Engine} {c : Call} (h : ∀ e₁ wall final, ¬Drains D cfg e c e₁ wall final) :
    (Outcome.final (c.exec D cfg e)).exits = e.exits := by
  cases c with
  | drain wall final => exact absurd (.call wall final) (h e wall final)
  | ingest x arrivalNs wall =>
    rw [Call.exec]
    rcases ingest_cases D cfg x arrivalNs wall e with ⟨err, hi⟩ | ⟨hd, -, -, hi⟩ | ⟨e₀, hn, hi⟩ <;> rw [hi]
    · rfl
    · rfl
    · have hexits := (receive_exits D cfg x arrivalNs wall e₀).trans hn.exits
      rw [process]
      cases hr : e₀.receive D cfg x arrivalNs wall with
      | error err => rw [hr] at hexits; exact hexits
      | ok e₁ =>
        rw [hr] at hexits
        have hx : x.drains ≠ true := fun hx => h e₁ wall false (.ingest hn hr hx)
        change (Outcome.final (if x.drains = true then e₁.drain D cfg wall false else .ok e₁) : Engine).exits = e.exits
        rw [if_neg hx]
        exact hexits

/-! ## The queue over a run -/

/-- The queue holds frames in the order of their times of queueing, the latest not after `w`. -/
def Queued (w : ℚ) (e : Engine) : Prop :=
  (e.pending.Pairwise fun p q => p.queued ≤ q.queued) ∧ ∀ p ∈ e.pending, p.queued ≤ w

theorem Queued.same {w : ℚ} {e e' : Engine} (h : Queued w e) (hp : e'.pending = e.pending) : Queued w e' := by
  unfold Queued
  rw [hp]
  exact h

theorem Queued.pairStep {wall : ℚ} {e : Engine} (h : Queued wall e) (slop : ℤ) (rgb : Image) (a : List Image)
    (b₀ : Image) (b : List Image) : Queued wall (Outcome.final (pairStep cfg slop wall rgb a b₀ b e)) := by
  rcases pairStep_cases cfg slop wall rgb a b₀ b e with ⟨b₁, dep, b₂, -, -, hs⟩ | ⟨-, -, hs⟩ | ⟨-, -, hs⟩ <;> rw [hs]
  · rcases select_cases cfg wall rgb dep (e.takePair rgb dep a (b₁ ++ b₂)) with
      ⟨due, -, -, hs'⟩ | ⟨period, -, -, hs'⟩ | ⟨err, x, hs'⟩ <;> rw [hs']
    · exact h.same rfl
    · have hp : ∀ due, ((e.takePair rgb dep a (b₁ ++ b₂)).enqueue due ⟨rgb, dep, wall⟩).pending =
          e.pending ++ [⟨rgb, dep, wall⟩] := fun due => rfl
      constructor
      · rw [final_ok, hp]
        refine List.pairwise_append.2 ⟨h.1, List.pairwise_singleton _ _, fun p hp q hq => ?_⟩
        obtain rfl := List.mem_singleton.1 hq
        exact h.2 p hp
      · rw [final_ok, hp]
        intro p hp
        rcases List.mem_append.1 hp with hp | hp
        · exact h.2 p hp
        · obtain rfl := List.mem_singleton.1 hp
          exact le_rfl
    · exact h.same rfl
  · exact h.same rfl
  · exact h.same rfl

theorem Queued.receive {wall : ℚ} {e : Engine} (h : Queued wall e) (D : Deps) (cfg : Config) (x : Input) (arrivalNs : ℤ) :
    Queued wall (Outcome.final (e.receive D cfg x arrivalNs wall)) := by
  by_cases hi : ∃ c m, x = .image c m
  · obtain ⟨c, m, rfl⟩ := hi
    have hb : Queued wall (e.bufferImage cfg c m) := by
      refine h.same ?_
      rcases bufferImage_cases cfg c m e with hc | ⟨old, rest, -, hc⟩ <;> rw [hc] <;> rfl
    simp only [Engine.receive, Engine.pair]
    cases pyInt (mul cfg.rgbdSlop (10 ^ 9)) with
    | error err => exact hb
    | ok slop => exact pairLoop_rule (P := Queued wall) (fun rgb a b₀ b t ht _ _ => ht.pairStep slop rgb a b₀ b) _ _ hb
  · push Not at hi
    exact h.same (receive_quiet D cfg arrivalNs wall hi).pending

theorem Queued.drain {w : ℚ} {e : Engine} (h : Queued w e) (D : Deps) (cfg : Config) (wall : ℚ) (final : Bool) :
    Queued w (Outcome.final (e.drain D cfg wall final)) := by
  obtain ⟨⟨done, hdone, -⟩, -⟩ := drainLoop_resolves D cfg wall final e.pending e
    (.refl e) rfl
  have hsub : (Outcome.final (e.drain D cfg wall final)).pending.Sublist e.pending := by
    conv_rhs => rw [hdone]
    exact List.sublist_append_right _ _
  exact ⟨h.1.sublist hsub, fun p hp => h.2 p (hsub.subset hp)⟩

/-- The queue in which a call drains is sorted up to the time of the call. -/
theorem Queued.drains {w wall : ℚ} {final : Bool} {e e₁ : Engine} {c : Call} (h : Queued w e) (hw : w ≤ wall)
    (hc : Drains D cfg e c e₁ wall final) : Queued wall e₁ := by
  have hw' : Queued wall e := ⟨h.1, fun p hp => (h.2 p hp).trans hw⟩
  cases hc with
  | call => exact hw'
  | @ingest x arrivalNs _ e₀ _ hn hr hx =>
    have := (hw'.same hn.toPlain.pending).receive D cfg x arrivalNs
    rw [hr] at this
    exact this

theorem Queued.exec {w : ℚ} {e : Engine} (h : Queued w e) (D : Deps) (cfg : Config) {c : Call} (hw : w ≤ c.wall) :
    Queued c.wall (Outcome.final (c.exec D cfg e)) := by
  have hw' : Queued c.wall e := ⟨h.1, fun p hp => (h.2 p hp).trans hw⟩
  cases c with
  | drain wall final => exact hw'.drain D cfg wall final
  | ingest x arrivalNs wall =>
    rw [Call.exec]
    rcases ingest_cases D cfg x arrivalNs wall e with ⟨err, hi⟩ | ⟨hd, -, -, hi⟩ | ⟨e₀, hn, hi⟩ <;> rw [hi]
    · exact hw'
    · exact hw'
    · refine final_bind (P := Queued wall) ((hw'.same hn.toPlain.pending).receive D cfg x arrivalNs) fun e₁ h₁ => ?_
      split
      · exact h₁.drain D cfg wall false
      · exact h₁

theorem runAllCalls_snoc (D : Deps) (cfg : Config) (cs : List Call) (c : Call) :
    runAllCalls D cfg (cs ++ [c]) = Outcome.final (c.exec D cfg (runAllCalls D cfg cs)) :=
  show runAll (Call.exec D cfg) (cs ++ [c]) Engine.init = _ from runAll_append cs [c] Engine.init

/-- With times that do not decrease, the queue stays sorted, by induction on the calls. -/
theorem Queued.run {cs : List Call} (hwall : (cs.map Call.wall).Pairwise (· ≤ ·)) {w : ℚ} (hw : ∀ c ∈ cs, c.wall ≤ w) :
    Queued w (runAllCalls D cfg cs) := by
  induction cs using List.reverseRecOn generalizing w with
  | nil => exact ⟨List.Pairwise.nil, by simp [runAllCalls, runAll, Engine.init]⟩
  | append_singleton cs c ih =>
    rw [List.map_append, List.pairwise_append] at hwall
    obtain ⟨hcs, -, hlast⟩ := hwall
    have hbefore : ∀ c' ∈ cs, c'.wall ≤ c.wall := fun c' hc' => hlast _ (List.mem_map_of_mem hc') _ (by simp)
    have hq := (ih hcs hbefore).exec D cfg le_rfl
    rw [runAllCalls_snoc]
    exact ⟨hq.1, fun p hp => (hq.2 p hp).trans (hw c (by simp))⟩

/-- The frames behind one that waits have waited less. -/
theorem Waits.all {wall : ℚ} {final : Bool} {e₀ e' : Engine} (h : Waits D cfg wall final e₀ e')
    (hsorted : e'.pending.Pairwise fun p q => p.queued ≤ q.queued) :
    ∀ p ∈ e'.pending, final = false ∧ sub wall p.queued < cfg.wait := by
  cases hp : e'.pending with
  | nil => simp
  | cons q rest =>
    obtain ⟨hf, hw, -⟩ := h q (by rw [hp]; rfl)
    rw [hp, List.pairwise_cons] at hsorted
    intro p hmem
    refine ⟨hf, ?_⟩
    rcases List.mem_cons.1 hmem with rfl | hmem
    · exact hw
    · have hle : sub wall p.queued ≤ sub wall q.queued := rnd_mono (by linarith [hsorted.1 p hmem])
      exact hle.trans_lt hw

/-- The frames that leave the queue do so in the order of queueing; the emitted ones are numbered. -/
structure InOrder (e : Engine) : Prop where
  queue : e.selected = e.exits.map Prod.fst ++ e.pending.map Pending.images
  selection : e.selected.Sublist e.pairs
  emitted : e.groups.map (fun g => g.rgb.stamp) = (e.exits.filter fun x => x.2 = .complete).map fun x => x.1.1.stamp
  counted : e.stats .frames = e.groups.length
  numbered : e.groups.map (fun g => g.metadata.frameIndex) = List.range e.groups.length

/-- Nothing leaves the queue or joins it. -/
theorem InOrder.same {e e' : Engine} (h : InOrder e) (hp : e'.pending = e.pending)
    (hf : e'.stats .frames = e.stats .frames) (hpairs : e.pairs.Sublist e'.pairs) (hsel : e'.selected = e.selected)
    (hex : e'.exits = e.exits) (hg : e'.groups = e.groups) : InOrder e' := by
  refine ⟨?_, ?_, ?_, ?_, ?_⟩
  · rw [hsel, hex, hp]; exact h.queue
  · rw [hsel]; exact h.selection.trans hpairs
  · rw [hg, hex]; exact h.emitted
  · rw [hf, hg]; exact h.counted
  · rw [hg]; exact h.numbered

theorem InOrder.emit {e e' : Engine} (h : InOrder e') {wall : ℚ} {p : Pending} {rest : List Pending} {g : Group}
    (hp : e'.pending = p :: rest) (hg : makeGroup D cfg p.rgb p.dep e = .ok (g, e')) :
    InOrder (Engine.emit wall p rest g e') := by
  have hgrp : (Engine.emit wall p rest g e').groups = e'.groups ++ [g] := emit_groups
  have hsel : (Engine.emit wall p rest g e').selected = e'.selected := emit_skip rfl fun _ => rfl
  have hpairs : (Engine.emit wall p rest g e').pairs = e'.pairs := emit_skip rfl fun _ => rfl
  have hex := emit_exits wall p rest g e'
  obtain ⟨_, _, _, _, _, _, _, _, _, _, -, he', hgeq⟩ := makeGroup_ok hg
  have hframes : e.stats .frames = e'.stats .frames := by rw [he']; rfl
  have hstamp : g.rgb.stamp = p.rgb.stamp := by rw [hgeq]; rfl
  have hindex : g.metadata.frameIndex = e'.groups.length := by rw [← h.counted, ← hframes, hgeq]; rfl
  refine ⟨?_, ?_, ?_, ?_, ?_⟩
  · rw [hsel, hex, h.queue, hp, emit_eq, List.map_append, List.append_assoc]
    rfl
  · rw [hsel, hpairs]; exact h.selection
  · rw [hgrp, hex, List.map_append, h.emitted, List.filter_append, List.map_append]
    simp [hstamp, Pending.images]
  · rw [hgrp, List.length_append, ← h.counted, emit_eq]
    rfl
  · rw [hgrp, List.map_append, h.numbered, List.length_append, List.length_singleton, List.range_succ, List.map_singleton,
      hindex]

/-- A pair is formed and decided. -/
theorem InOrder.pairStep {e : Engine} (h : InOrder e) (slop : ℤ) (wall : ℚ) (rgb : Image) (a : List Image) (b₀ : Image)
    (b : List Image) : InOrder (Outcome.final (pairStep cfg slop wall rgb a b₀ b e)) := by
  rcases pairStep_cases cfg slop wall rgb a b₀ b e with ⟨b₁, dep, b₂, -, -, hs⟩ | ⟨-, -, hs⟩ | ⟨-, -, hs⟩ <;> rw [hs]
  · have ht : InOrder (e.takePair rgb dep a (b₁ ++ b₂)) :=
      h.same rfl rfl (by simp [takePair, Event.pair]) (by simp [takePair, Event.selection])
        (by simp [takePair, Event.exit]) (by simp [takePair, Event.group])
    rcases select_cases cfg wall rgb dep (e.takePair rgb dep a (b₁ ++ b₂)) with
      ⟨due, -, -, hs'⟩ | ⟨period, -, -, hs'⟩ | ⟨err, x, hs'⟩ <;> rw [hs', Outcome.final]
    · exact ht.same rfl rfl (by simp [Event.pair]) (by simp [Event.selection]) (by simp [Event.exit])
        (by simp [Event.group])
    · -- the pair just formed joins the queue
      generalize advanceDue _ _ _ = due
      refine ⟨?_, ?_, ?_, ?_, ?_⟩
      · simp [Event.selection, Event.exit, ht.queue, Pending.images]
      · have hsel : e.selected.Sublist e.pairs := h.selection
        simpa [takePair, Event.selection, Event.pair] using hsel
      · simpa [Event.group, Event.exit] using ht.emitted
      · simpa [Event.group] using ht.counted
      · simpa [Event.group] using ht.numbered
    · exact ht.same rfl rfl (List.Sublist.refl _) rfl rfl rfl
  · exact h.same rfl rfl (by simp [giveUp, Event.pair]) (by simp [giveUp, Event.selection])
      (by simp [giveUp, Event.exit]) (by simp [giveUp, Event.group])
  · exact h.same rfl rfl (by simp [giveUp, Event.pair]) (by simp [giveUp, Event.selection])
      (by simp [giveUp, Event.exit]) (by simp [giveUp, Event.group])

theorem InOrder.run (D : Deps) (cfg : Config) (cs : List Call) : InOrder (runAllCalls D cfg cs) := by
  refine runAllCalls_rule (P := InOrder) ?_ (fun e e' h hp => ?_) (fun c m e _ _ h => ?_)
    (fun wall rgb a b₀ b e _ h _ _ => h.pairStep _ wall rgb a b₀ b) (fun p rest r text e h hp => ?_)
    (fun wall p rest g e e' h hp hg => h.emit hp hg) cs
  · constructor <;> simp [Engine.init, history]
  · have hpairs : e'.pairs = e.pairs := hp.history (by intro ev; cases ev <;> simp [Event.plain, Event.pair])
    refine h.same hp.pending (hp.stats _ rfl) (by rw [hpairs]) (hp.history ?_) (hp.history ?_) (hp.history ?_)
    all_goals intro ev; cases ev <;> simp [Event.plain, Event.selection, Event.exit, Event.group]
  · rcases bufferImage_cases cfg c m e with hc | ⟨old, rest, -, hc⟩ <;> rw [hc]
    · exact h.same rfl rfl (by simp [join, Event.pair]) (by simp [join, Event.selection]) (by simp [join, Event.exit])
        (by simp [join, Event.group])
    · exact h.same rfl rfl (by simp [join, Event.pair]) (by simp [join, Event.selection]) (by simp [join, Event.exit])
        (by simp [join, Event.group])
  · have ht : (drop p rest r text e).trace = e.trace ++ [.dropped r p.rgb p.dep] := rfl
    have hgrp : (drop p rest r text e).groups = e.groups := history_skip _ ht (by simp [Event.group])
    have hsel : (drop p rest r text e).selected = e.selected := history_skip _ ht (by simp [Event.selection])
    have hpairs : (drop p rest r text e).pairs = e.pairs := history_skip _ ht (by simp [Event.pair])
    have hex := drop_exits p rest r text e
    refine ⟨?_, ?_, ?_, ?_, ?_⟩
    · rw [hsel, hex, h.queue, hp, List.map_append, List.append_assoc]
      rfl
    · rw [hsel, hpairs]; exact h.selection
    · rw [hgrp, hex, h.emitted, List.filter_append]
      simp
    · rw [hgrp, ← h.counted]; rfl
    · rw [hgrp]; exact h.numbered

/-- Emitted frames have increasing RGB stamps: they are some of the pairs formed. -/
theorem InOrder.increasing {e : Engine} (h : InOrder e) (hb : PairBuffers cfg e) :
    e.groups.Pairwise fun g g' => g.rgb.stamp < g'.rgb.stamp := by
  have hsub : (e.groups.map fun g => g.rgb.stamp).Sublist (e.pairs.map fun p => p.1.stamp) := by
    rw [h.emitted]
    refine (List.filter_sublist.map _).trans (List.Sublist.trans ?_ (h.selection.map fun p => p.1.stamp))
    rw [h.queue, List.map_append, List.map_map]
    exact List.sublist_append_left _ _
  have hpairs : (e.pairs.map fun p => p.1.stamp).Pairwise (· < ·) := List.pairwise_map.2 hb.ordered
  exact List.pairwise_map.1 (hpairs.sublist hsub)

/-- A complete frame leaves the queue by a `drain` that returns, when no frame before it can stay. -/
theorem Resolves.complete {wall : ℚ} {final : Bool} {e₀ e e' : Engine} {l before after : List Pending} {p : Pending}
    (h : Resolves D cfg wall final e₀ l e e') (hw : Waits D cfg wall final e₀ e') (hl : l = before ++ p :: after)
    (hp : e₀.verdict D cfg p = .complete)
    (hbefore : ∀ q ∈ before, final = true ∨ cfg.wait ≤ sub wall q.queued ∨ e₀.verdict D cfg q = .complete) :
    ∃ left, e'.exits = e.exits ++ left ∧ (p.images, .complete) ∈ left := by
  obtain ⟨done, hdone, hexits, -⟩ := h
  refine ⟨_, hexits, ?_⟩
  suffices hmem : p ∈ done from List.mem_map.2 ⟨p, hmem, by rw [hp]⟩
  rw [hl] at hdone
  rcases List.append_eq_append_iff.1 hdone with ⟨mid, hd, hrest⟩ | ⟨mid, hb, hrest⟩
  · cases mid with
    | nil =>
      -- the frame would be the head that waits
      have hhead : e'.pending.head? = some p := by rw [← List.nil_append e'.pending, ← hrest]; rfl
      obtain ⟨-, -, r, hr⟩ := hw p hhead
      rw [hp] at hr
      cases hr
    | cons q mid =>
      rw [List.cons_append, List.cons.injEq] at hrest
      rw [hd, hrest.1]
      simp
  · cases mid with
    | nil =>
      have hhead : e'.pending.head? = some p := by rw [hrest]; rfl
      obtain ⟨-, -, r, hr⟩ := hw p hhead
      rw [hp] at hr
      cases hr
    | cons q mid =>
      -- a frame before it would be the head that waits
      have hhead : e'.pending.head? = some q := by rw [hrest]; rfl
      obtain ⟨hf, hlt, r, hr⟩ := hw q hhead
      rcases hbefore q (by rw [hb]; simp) with h1 | h1 | h1
      · rw [hf] at h1
        cases h1
      · exact absurd h1 (not_le.2 hlt)
      · rw [hr] at h1
        cases h1

end Engine

/-- **Queued frames are resolved in order and in bounded time.** After any calls at times that do not decrease, whatever
they raised: the frames that left the queue are the first of those queued, in order; the groups emitted have increasing RGB
stamps and the indices 0, 1, 2, …. Frames leave the queue only in the `drain`s of the calls, from the front, each by the
verdict on it in the engine in which `drain` was called, and none for missing data unless the call is final or the frame
has waited at least `cfg.wait`. A `drain` that returns leaves only frames that have waited less, none when it is final, and
emits a complete frame when no frame before it can stay. -/
theorem frames_resolved (D : Deps) (cfg : Config) (cs : List Call) (hwall : (cs.map Call.wall).Pairwise (· ≤ ·)) :
    let e := runAllCalls D cfg cs
    e.selected = e.exits.map Prod.fst ++ e.pending.map Pending.images ∧
    e.groups.map (fun g => g.rgb.stamp) = (e.exits.filter fun x => x.2 = .complete).map (fun x => x.1.1.stamp) ∧
    (e.groups.Pairwise fun g g' => g.rgb.stamp < g'.rgb.stamp) ∧
    e.groups.map (fun g => g.metadata.frameIndex) = List.range e.groups.length ∧
    ∀ pre c post, cs = pre ++ c :: post →
      let s := runAllCalls D cfg pre
      let s' := runAllCalls D cfg (pre ++ [c])
      ((∀ e₁ wall final, ¬Engine.Drains D cfg s c e₁ wall final) → s'.exits = s.exits) ∧
      ∀ e₁ wall final, Engine.Drains D cfg s c e₁ wall final →
        Engine.Resolves D cfg wall final e₁ e₁.pending s s' ∧
        ∀ t, e₁.drain D cfg wall final = .ok t → s' = t ∧ Engine.Waits D cfg wall final e₁ s' ∧
          (∀ p ∈ s'.pending, final = false ∧ sub wall p.queued < cfg.wait) ∧ (final = true → s'.pending = []) ∧
          ∀ before p after, e₁.pending = before ++ p :: after → e₁.verdict D cfg p = .complete →
            (∀ q ∈ before, final = true ∨ cfg.wait ≤ sub wall q.queued ∨ e₁.verdict D cfg q = .complete) →
            ∃ left, s'.exits = s.exits ++ left ∧ (p.images, .complete) ∈ left := by
  have hord := Engine.InOrder.run D cfg cs
  refine ⟨hord.queue, hord.emitted, hord.increasing (Engine.PairBuffers.run D cfg cs), hord.numbered,
    fun pre c post hcs => ⟨fun hno => ?_, fun e₁ wall final hdr => ?_⟩⟩
  · rw [Engine.runAllCalls_snoc]
    exact Engine.exec_exits hno
  · obtain ⟨hexec, hexits, hcw⟩ := hdr.exec
    have hs' : runAllCalls D cfg (pre ++ [c]) = Outcome.final (e₁.drain D cfg wall final) := by
      rw [Engine.runAllCalls_snoc, hexec]
    obtain ⟨hres, hwaits⟩ := Engine.drainLoop_resolves D cfg wall final e₁.pending e₁
      (.refl e₁) rfl
    have hres : Engine.Resolves D cfg wall final e₁ e₁.pending (runAllCalls D cfg pre)
        (runAllCalls D cfg (pre ++ [c])) := by
      obtain ⟨done, hd, hx, hall⟩ := hres
      rw [hs']
      exact ⟨done, hd, by rw [← hexits]; exact hx, hall⟩
    refine ⟨hres, fun t ht => ?_⟩
    have hw : Engine.Waits D cfg wall final e₁ t := hwaits t ht
    rw [ht, final_ok] at hs'
    -- the calls before this one were not made later
    rw [hcs, List.map_append, List.map_cons, List.pairwise_append] at hwall
    obtain ⟨hpre, -, hlast⟩ := hwall
    have hq : Engine.Queued wall e₁ :=
      (Engine.Queued.run hpre (w := c.wall) fun c' hc' => hlast _ (List.mem_map_of_mem hc') _ (by simp)).drains hcw.le hdr
    have hsorted : t.pending.Pairwise fun p q => p.queued ≤ q.queued := by
      have := (hq.drain D cfg wall final).1
      rwa [ht] at this
    have hall := hw.all hsorted
    refine ⟨hs', hs' ▸ hw, hs' ▸ hall, fun hf => ?_, fun before p after hl hp hb => ?_⟩
    · rw [hs', List.eq_nil_iff_forall_not_mem]
      intro p hp
      rw [(hall p hp).1] at hf
      cases hf
    · exact hres.complete (hs' ▸ hw) hl hp hb

/-- A frame at 50 ms, before any odometry, and a complete one at 250 ms behind it; the first has waited long enough at the
last call. -/
def Still.stalled : List Call :=
  setting ++
  [.ingest (.image .rgb (rgb 1 50000000)) 50000000 (1 / 10), .ingest (.image .depth (depth 1 50000000)) 50000000 (1 / 10),
    .ingest (.odom (odom 200000000)) 200000000 (1 / 5), .ingest (.image .rgb (rgb 2 250000000)) 250000000 (1 / 4),
    .ingest (.image .depth (depth 2 250000000)) 250000000 (1 / 4), .ingest (.odom (odom 300000000)) 300000000 (1 / 3),
    .drain 4 false]

theorem frames_resolved_stalled :
    let e := runAllCalls Still.deps {} Still.stalled
    e.exits.map Prod.snd = [.incomplete .noBracketingOdometry, .complete] ∧ e.selected = e.exits.map Prod.fst ∧
      e.groups.map (fun g => g.metadata.frameIndex) = [0] := by
  obtain ⟨hqueue, -, -, hindex, -⟩ := frames_resolved Still.deps {} Still.stalled (by decide +kernel)
  have hexits : (runAllCalls Still.deps {} Still.stalled).exits.map Prod.snd =
      [.incomplete .noBracketingOdometry, .complete] := by decide +kernel
  have hpending : (runAllCalls Still.deps {} Still.stalled).pending = [] := by decide +kernel
  have hgroups : (runAllCalls Still.deps {} Still.stalled).groups.length = 1 := by decide +kernel
  refine ⟨hexits, ?_, ?_⟩
  · rw [hpending, List.map_nil, List.append_nil] at hqueue
    exact hqueue
  · rw [hgroups] at hindex
    exact hindex

end Agilex.Capture
