import Agilex.Capture.Engine

/-!
# Rules for the engine

What each method can do, said once.

- `makeGroup_ok` lists the parts of a group; `makeGroup_tried` and `makeGroup_error_tried` say that nothing but the
  accepted extrinsic changes;
- `drainLoop_rule` and `pairLoop_rule` are the induction rules of the two loops, for any outcome, and `pairLoop_ok_rule`
  for the outcomes that raise nothing;
- `Quiet`, `Imaging` and `Draining` relate the engines before and after what concerns no images, only images, only
  frames;
- `ingest_cases` splits `ingest` by what the clock check decides; `exec_rule` is what a call keeps, whatever it raises, and
  `exec_ok` what one that raises nothing can do; `runCalls_rule` is the induction rule of a run that raises nothing.
-/

namespace Agilex.Capture

open Agilex.Lib Binary64 Outcome

/-! ## Histories -/

namespace Event

/-- The odometry sample an event accepts. -/
def acceptance : Event → Option Odometry
  | .odometry m => some m
  | _ => none

/-- The image an event adds to a buffer. -/
def arrival (c : Cam) : Event → Option Image
  | .buffered c' m => if c' = c then some m else none
  | _ => none

/-- The image a buffer gives up. -/
def lost (c : Cam) : Event → Option Image
  | .evicted c' m | .unpaired c' m => if c' = c then some m else none
  | _ => none

/-- The pair an event forms. -/
def pair : Event → Option (Image × Image)
  | .paired rgb dep => some (rgb, dep)
  | _ => none

/-- The pair the rate limit lets through. -/
def selection : Event → Option (Image × Image)
  | .queued rgb dep => some (rgb, dep)
  | _ => none

/-- The pair whose fate is decided. -/
def settled : Event → Option (Image × Image)
  | .rateFiltered rgb dep | .dropped _ rgb dep | .emitted rgb dep _ => some (rgb, dep)
  | _ => none

/-- The group of an emitted frame. -/
def group : Event → Option Group
  | .emitted _ _ g => some g
  | _ => none

/-- The record an event writes. -/
def record : Event → Option Record
  | .written r => some r
  | _ => none

/-- A full buffer loses an image. -/
def overflow : Event → Option Image
  | .evicted _ m => some m
  | _ => none

/-- The arguments of a call of `interpolate`. -/
def interpolation : Event → Option (Odometry × Odometry × ℤ)
  | .interpolating a b target => some (a, b, target)
  | _ => none

/-- The events of buffering and pairing. -/
def imaging : Event → Bool
  | .buffered _ _ | .evicted _ _ | .paired _ _ | .rateFiltered _ _ | .queued _ _ | .unpaired _ _ => true
  | _ => false

/-- The events of draining. -/
def draining : Event → Bool
  | .dropped _ _ _ | .emitted _ _ _ | .interpolating _ _ _ | .written _ => true
  | _ => false

/-- The events that concern neither images nor frames. -/
def plain : Event → Bool
  | .odometry _ | .interpolating _ _ _ | .written _ => true
  | _ => false

end Event

/-- The counters of events on images and frames; the others count messages. -/
def Stat.ofEvent : Stat → Bool
  | .received _ | .duplicate _ | .sourceSequenceGaps _ => false
  | .unpaired _ | .paired | .rateFiltered | .dropped _ | .frames => true

namespace Engine

/-- What the events of the engine say, in order. -/
def history {α : Type} (e : Engine) (f : Event → Option α) : List α := e.trace.filterMap f

/-- The odometry samples accepted so far. -/
abbrev accepted (e : Engine) : List Odometry := e.history Event.acceptance

/-- The images that joined a buffer so far. -/
abbrev arrived (e : Engine) (c : Cam) : List Image := e.history (Event.arrival c)

/-- The images given up so far. -/
abbrev lost (e : Engine) (c : Cam) : List Image := e.history (Event.lost c)

/-- The pairs formed so far. -/
abbrev pairs (e : Engine) : List (Image × Image) := e.history Event.pair

/-- The pairs the rate limit let through so far. -/
abbrev selected (e : Engine) : List (Image × Image) := e.history Event.selection

/-- The pairs rate filtered, dropped or emitted so far. -/
abbrev settled (e : Engine) : List (Image × Image) := e.history Event.settled

/-- The groups `drain` has written so far. -/
abbrev groups (e : Engine) : List Group := e.history Event.group

/-- The records written so far. -/
abbrev written (e : Engine) : List Record := e.history Event.record

/-- The images full buffers lost so far. -/
abbrev overflowed (e : Engine) : List Image := e.history Event.overflow

/-- The arguments of the calls of `interpolate` so far. -/
abbrev interpolations (e : Engine) : List (Odometry × Odometry × ℤ) := e.history Event.interpolation

variable {α : Type} {f : Event → Option α}

theorem history_append {e e' : Engine} (evs : List Event) (h : e'.trace = e.trace ++ evs) :
    e'.history f = e.history f ++ evs.filterMap f := by
  rw [history, h, List.filterMap_append, history]

theorem mem_arrived {e : Engine} {c : Cam} {m : Image} : m ∈ e.arrived c ↔ .buffered c m ∈ e.trace := by
  constructor
  · intro h
    obtain ⟨ev, hev, hm⟩ := List.mem_filterMap.1 h
    cases ev with
    | buffered c' m' =>
      simp only [Event.arrival, Option.ite_none_right_eq_some, Option.some.injEq] at hm
      obtain ⟨rfl, rfl⟩ := hm
      exact hev
    | _ => cases hm
  · exact fun h => List.mem_filterMap.2 ⟨_, h, if_pos rfl⟩

@[simp] theorem history_log (e : Engine) (ev : Event) : (e.log ev).history f = e.history f ++ (f ev).toList := by
  rw [history_append (e := e) _ rfl]
  cases h : f ev <;> simp [h]

@[simp] theorem history_add (e : Engine) (k : Stat) (n : ℕ) : (e.add k n).history f = e.history f := rfl

@[simp] theorem history_inc (e : Engine) (k : Stat) : (e.inc k).history f = e.history f := rfl

@[simp] theorem history_setImages (e : Engine) (c : Cam) (l : List Image) :
    (e.setImages c l).history f = e.history f := rfl

@[simp] theorem history_enqueue (e : Engine) (due : ℤ) (p : Pending) :
    (e.enqueue due p).history f = e.history f ++ (f (.queued p.rgb p.dep)).toList := by
  rw [enqueue, history_log]
  rfl

/-- A history that skips some events does not change with them. -/
theorem history_skip {e e' : Engine} (evs : List Event) (h : e'.trace = e.trace ++ evs) (hf : ∀ ev ∈ evs, f ev = none) :
    e'.history f = e.history f := by
  rw [history_append _ h, List.filterMap_eq_nil_iff.2 hf, List.append_nil]

/-- Plain events do not show in a history of images and frames. -/
theorem history_plain {e e' : Engine} {evs : List Event} (hf : ∀ ev, ev.plain → f ev = none)
    (h : e'.trace = e.trace ++ evs) (hev : ∀ ev ∈ evs, ev.plain) : e'.history f = e.history f :=
  history_skip _ h fun ev hm => hf ev (hev ev hm)

@[simp] theorem add_stats (e : Engine) (k : Stat) (n : ℕ) (k' : Stat) :
    (e.add k n).stats k' = if k' = k then e.stats k + n else e.stats k' := rfl

@[simp] theorem inc_stats (e : Engine) (k k' : Stat) :
    (e.inc k).stats k' = if k' = k then e.stats k + 1 else e.stats k' := rfl

@[simp] theorem setImages_images (e : Engine) (c c' : Cam) (l : List Image) :
    (e.setImages c l).images c' = if c' = c then l else e.images c' := rfl

@[simp] theorem setImages_stats (e : Engine) (c : Cam) (l : List Image) : (e.setImages c l).stats = e.stats := rfl

@[simp] theorem log_stats (e : Engine) (ev : Event) : (e.log ev).stats = e.stats := rfl

@[simp] theorem log_images (e : Engine) (ev : Event) : (e.log ev).images = e.images := rfl

@[simp] theorem inc_images (e : Engine) (k : Stat) : (e.inc k).images = e.images := rfl

@[simp] theorem log_pending (e : Engine) (ev : Event) : (e.log ev).pending = e.pending := rfl

@[simp] theorem inc_pending (e : Engine) (k : Stat) : (e.inc k).pending = e.pending := rfl

@[simp] theorem setImages_pending (e : Engine) (c : Cam) (l : List Image) :
    (e.setImages c l).pending = e.pending := rfl

@[simp] theorem enqueue_stats (e : Engine) (due : ℤ) (p : Pending) : (e.enqueue due p).stats = e.stats := rfl

@[simp] theorem enqueue_images (e : Engine) (due : ℤ) (p : Pending) : (e.enqueue due p).images = e.images := rfl

@[simp] theorem enqueue_pending (e : Engine) (due : ℤ) (p : Pending) :
    (e.enqueue due p).pending = e.pending ++ [p] := rfl

/-! ## Reading a lifted computation -/

theorem lift_ok {e : Engine} {α : Type} {x : Except PyErr α} {a : α} : e.lift x = .ok a ↔ x = .ok a := by
  cases x <;> simp [lift]

/-- A lifted computation followed by another raises in one of the two. -/
theorem lift_bind_error {e e' : Engine} {α β : Type} {x : Except PyErr α} {f : α → Except (PyErr × Engine) β}
    {err : PyErr} (h : (e.lift x >>= f) = .error (err, e')) :
    (x = .error err ∧ e' = e) ∨ ∃ a, x = .ok a ∧ f a = .error (err, e') := by
  cases x with
  | error err' =>
    simp only [lift, bind, Except.bind, Except.error.injEq, Prod.mk.injEq] at h
    exact Or.inl ⟨by rw [h.1], h.2.symm⟩
  | ok a => exact Or.inr ⟨a, rfl, h⟩

end Engine

/-- **What `bracket` finds**: two neighbours no further apart than allowed, the second at the insertion point of the target
or, when the oldest sample is the target, after it. -/
theorem bracket_at {cfg : Config} {l : List Odometry} {target : ℤ} {a b : Odometry}
    (h : bracket cfg l target = .ok (a, b)) :
    ∃ k, l[k]? = some a ∧ l[k + 1]? = some b ∧ divFloat (b.header.stamp - a.header.stamp) (10 ^ 9) ≤ cfg.maxOdomGap ∧
      (bisectLeft (l.map fun m => m.header.stamp) target = k + 1 ∨
        k = 0 ∧ (l.map fun m => m.header.stamp).head? = some target) := by
  unfold bracket at h
  simp only at h
  generalize hj : (if bisectLeft (l.map fun m => m.header.stamp) target = 0 ∧ 2 ≤ (l.map fun m => m.header.stamp).length ∧
    (l.map fun m => m.header.stamp).head? = some target then 1
    else bisectLeft (l.map fun m => m.header.stamp) target) = j at h
  split at h
  · cases h
  · rename_i hj0
    obtain ⟨k, rfl⟩ : ∃ k, j = k + 1 := ⟨j - 1, by omega⟩
    simp only [Nat.add_sub_cancel] at h
    split at h
    · rename_i a' b' ha hb
      split at h
      · cases h
      · rename_i hgap
        simp only [Except.ok.injEq, Prod.mk.injEq] at h
        obtain ⟨rfl, rfl⟩ := h
        refine ⟨k, ha, hb, not_lt.1 hgap, ?_⟩
        split at hj
        · rename_i holdest
          exact Or.inr ⟨by omega, holdest.2.2⟩
        · exact Or.inl hj
    · cases h

theorem mapError_ok {α : Type} {x : Except DropReason α} {a : α} (h : x.mapError PyErr.lookup = .ok a) : x = .ok a := by
  cases x with
  | error r => simp [Except.mapError] at h
  | ok b => simpa [Except.mapError] using h

/-! ## `_make_group` -/

namespace Engine

variable {D : Deps} {cfg : Config}

/-- The parts of a group built by `_make_group` in the engine `e`. -/
structure Parts (D : Deps) (cfg : Config) (e : Engine) (rgb dep : Image) (target : ℤ) (a b : Odometry)
    (ci di : CameraInfo) (valid : ℚ) (ext : TransformStamped) (matrixExt : Mat) (body : FloatMat) (alpha : ℚ) : Prop where
  target_eq : pyRound (mul cfg.cameraTimeOffset (10 ^ 9)) = .ok (target - rgb.header.stamp)
  bracket_ok : bracket cfg e.odoms target = .ok (a, b)
  rgb_info : e.info cfg .rgb rgb.header.stamp = .ok ci
  depth_info : e.info cfg .depth dep.header.stamp = .ok di
  valid_ok : validateRgbd rgb dep ci di cfg.optical = .ok valid
  valid_ne : valid ≠ 0
  ext_ok : D.lookupTransform e.tf cfg.body cfg.optical = .ok ext
  matrix_ok : transformMatrix D.num ext = .ok matrixExt
  interpolate_ok : interpolate D.num a b target = .ok (body, alpha)

theorem lookupExtrinsic_ok {e : Engine} {t : TransformStamped} (h : e.lookupExtrinsic D cfg = .ok t) :
    D.lookupTransform e.tf cfg.body cfg.optical = .ok t := by
  unfold lookupExtrinsic at h
  split at h
  · rename_i heq; rw [heq]; simpa using h
  · cases h
  · cases h

/-- **What `_make_group` builds.** -/
theorem makeGroup_ok {rgb dep : Image} {e e' : Engine} {g : Group} (h : makeGroup D cfg rgb dep e = .ok (g, e')) :
    ∃ target a b ci di valid ext matrixExt body alpha,
      Parts D cfg e rgb dep target a b ci di valid ext matrixExt body alpha ∧
        e' = ({ e with acceptedExtrinsic := some matrixExt } : Engine).log (.interpolating a b target) ∧
        g = e.assemble D cfg rgb dep target a b ci di valid ext matrixExt body alpha := by
  unfold makeGroup at h
  simp only at h
  obtain ⟨offset, hoff, h⟩ := bind_ok.1 h
  obtain ⟨⟨a, b⟩, hab, h⟩ := bind_ok.1 h
  obtain ⟨ci, hci, h⟩ := bind_ok.1 h
  obtain ⟨di, hdi, h⟩ := bind_ok.1 h
  obtain ⟨valid, hv, h⟩ := bind_ok.1 h
  rw [lift_ok] at hoff hci hdi hv hab
  split at h
  · cases h
  · rename_i hne
    obtain ⟨ext, hext, h⟩ := bind_ok.1 h
    obtain ⟨matrixExt, hm, h⟩ := bind_ok.1 h
    rw [lift_ok] at hext hm
    split at h
    · cases h
    · obtain ⟨⟨body, alpha⟩, hi, h⟩ := bind_ok.1 h
      rw [lift_ok] at hi
      simp only [Except.ok.injEq, Prod.mk.injEq] at h
      refine ⟨rgb.header.stamp + offset, a, b, ci, di, valid, ext, matrixExt, body, alpha,
        ⟨?_, mapError_ok hab, hci, hdi, hv, hne, lookupExtrinsic_ok hext, hm, hi⟩, h.2.symm, h.1.symm⟩
      rw [hoff, add_sub_cancel_left]

/-- An engine after `_make_group`, which may have set the accepted extrinsic and called `interpolate` between samples
that `bracket` found. -/
def Tried (cfg : Config) (e e' : Engine) : Prop :=
  e' = e ∨ ∃ x a b target, bracket cfg e.odoms target = .ok (a, b) ∧
    e' = ({ e with acceptedExtrinsic := x } : Engine).log (.interpolating a b target)

theorem makeGroup_tried {rgb dep : Image} {e e' : Engine} {g : Group} (h : makeGroup D cfg rgb dep e = .ok (g, e')) :
    Tried cfg e e' := by
  obtain ⟨target, a, b, _, _, _, _, m, _, _, hp, he, _⟩ := makeGroup_ok h
  exact Or.inr ⟨some m, a, b, target, hp.bracket_ok, he⟩

theorem makeGroup_error_tried {rgb dep : Image} {e e' : Engine} {err : PyErr}
    (h : makeGroup D cfg rgb dep e = .error (err, e')) : Tried cfg e e' := by
  unfold makeGroup at h
  simp only at h
  rcases lift_bind_error h with ⟨-, rfl⟩ | ⟨offset, -, h⟩
  · exact Or.inl rfl
  rcases lift_bind_error h with ⟨-, rfl⟩ | ⟨⟨a, b⟩, hab, h⟩
  · exact Or.inl rfl
  rcases lift_bind_error h with ⟨-, rfl⟩ | ⟨ci, -, h⟩
  · exact Or.inl rfl
  rcases lift_bind_error h with ⟨-, rfl⟩ | ⟨di, -, h⟩
  · exact Or.inl rfl
  rcases lift_bind_error h with ⟨-, rfl⟩ | ⟨valid, -, h⟩
  · exact Or.inl rfl
  split at h
  · cases h; exact Or.inl rfl
  rcases lift_bind_error h with ⟨-, rfl⟩ | ⟨ext, -, h⟩
  · exact Or.inl rfl
  rcases lift_bind_error h with ⟨-, rfl⟩ | ⟨m, -, h⟩
  · exact Or.inl rfl
  split at h
  · cases h; exact Or.inl rfl
  rcases lift_bind_error h with ⟨-, rfl⟩ | ⟨⟨body, alpha⟩, -, h⟩
  · exact Or.inr ⟨some m, a, b, _, mapError_ok hab, rfl⟩
  · cases h

theorem Tried.pending {e e' : Engine} (h : Tried cfg e e') : e'.pending = e.pending := by
  rcases h with rfl | ⟨x, a, b, target, -, rfl⟩ <;> rfl

/-! ## The loops -/

/-- Writing a list of records adds them to the history, and nothing else. -/
theorem foldl_write (l : List Record) (e : Engine) :
    l.foldl (fun e r => e.write r.topic r.msg r.time) e = { e with trace := e.trace ++ l.map .written } := by
  induction l generalizing e with
  | nil => simp
  | cons r l ih => rw [List.foldl_cons, ih]; simp [write, log]

theorem emit_eq (wall : ℚ) (p : Pending) (rest : List Pending) (g : Group) (e : Engine) :
    emit wall p rest g e =
      { e with
        pending := rest
        trace := e.trace ++ .emitted p.rgb p.dep g :: (g.records p.rgb.header.stamp).map .written
        stats := fun k => if k = .frames then e.stats .frames + 1 else e.stats k
        firstFrameNs := some (e.firstFrameNs.getD p.rgb.header.stamp), lastFrameNs := some p.rgb.header.stamp
        latestFrameWall := some wall } := by
  simp only [emit, foldl_write, inc, add, log, List.append_assoc, List.singleton_append]

section Emit

variable {α : Type} {f : Event → Option α} {wall : ℚ} {p : Pending} {rest : List Pending} {g : Group} {e : Engine}

theorem emit_trace : (emit wall p rest g e).trace =
    e.trace ++ .emitted p.rgb p.dep g :: (g.records p.rgb.header.stamp).map .written := by
  rw [emit_eq]

/-- Emitting a group shows in no history but those of frames and records. -/
theorem emit_skip (hf : f (.emitted p.rgb p.dep g) = none) (hw : ∀ r, f (.written r) = none) :
    (emit wall p rest g e).history f = e.history f := by
  refine history_skip _ emit_trace fun ev hev => ?_
  rcases List.mem_cons.1 hev with rfl | hev
  · exact hf
  · obtain ⟨r, -, rfl⟩ := List.mem_map.1 hev
    exact hw r

/-- In a history of frames it shows once. -/
theorem emit_once {x : α} (hf : f (.emitted p.rgb p.dep g) = some x) (hw : ∀ r, f (.written r) = none) :
    (emit wall p rest g e).history f = e.history f ++ [x] := by
  have hrecords : ((g.records p.rgb.header.stamp).map Event.written).filterMap f = [] := by
    rw [List.filterMap_map]
    exact List.filterMap_eq_nil_iff.2 fun r _ => hw r
  rw [history_append _ emit_trace, List.filterMap_cons_some hf, hrecords]

theorem emit_groups : (emit wall p rest g e).groups = e.groups ++ [g] := emit_once rfl fun _ => rfl

theorem emit_written : (emit wall p rest g e).written = e.written ++ g.records p.rgb.header.stamp := by
  rw [written, history_append _ emit_trace, List.filterMap_cons_none rfl, List.filterMap_map]
  exact congrArg _ List.filterMap_some

end Emit

/-- **What one turn of `drain` does**: emit the head of the queue, drop it, wait, or raise. -/
theorem drainStep_cases (D : Deps) (cfg : Config) (wall : ℚ) (final : Bool) (p : Pending) (rest : List Pending) (e : Engine) :
    (∃ g e', makeGroup D cfg p.rgb p.dep e = .ok (g, e') ∧
      drainStep D cfg wall final p rest e = .ok (emit wall p rest g e', true)) ∨
    (∃ err e' r text, makeGroup D cfg p.rgb p.dep e = .error (err, e') ∧
      (err = .lookup r ∧ (final = true ∨ cfg.wait ≤ sub wall p.queued) ∨ r = .invalidRgbd ∧ ∃ msg, err = .value msg) ∧
      drainStep D cfg wall final p rest e = .ok (drop p rest r text e', true)) ∨
    (∃ r e', makeGroup D cfg p.rgb p.dep e = .error (.lookup r, e') ∧ final = false ∧ sub wall p.queued < cfg.wait ∧
      drainStep D cfg wall final p rest e = .ok (e', false)) ∨
    (∃ err e', makeGroup D cfg p.rgb p.dep e = .error (err, e') ∧
      drainStep D cfg wall final p rest e = .error (err, e')) := by
  unfold drainStep
  split
  · rename_i g e' hg
    exact Or.inl ⟨g, e', hg, rfl⟩
  · rename_i r e' hg
    split
    · rename_i hw
      exact Or.inr (Or.inr (Or.inl ⟨r, e', hg, by simpa using hw.1, hw.2, rfl⟩))
    · rename_i hw
      have hdue : final = true ∨ cfg.wait ≤ sub wall p.queued := by
        cases final with
        | true => exact Or.inl rfl
        | false => exact Or.inr (not_lt.1 fun h => hw ⟨by simp, h⟩)
      exact Or.inr (Or.inl ⟨_, e', r, r.text, hg, Or.inl ⟨rfl, hdue⟩, rfl⟩)
  · rename_i msg e' hg
    exact Or.inr (Or.inl ⟨_, e', .invalidRgbd, msg, hg, Or.inr ⟨rfl, msg, rfl⟩, rfl⟩)
  · rename_i err e' _ _ hg
    exact Or.inr (Or.inr (Or.inr ⟨err, e', hg, rfl⟩))

/-- The engine `_make_group` leaves, with a group or an exception. -/
def afterGroup : Except (PyErr × Engine) (Group × Engine) → Engine
  | .ok (_, e) => e
  | .error (_, e) => e

theorem afterGroup_tried (D : Deps) (cfg : Config) (rgb dep : Image) (e : Engine) :
    Tried cfg e (afterGroup (makeGroup D cfg rgb dep e)) := by
  cases h : makeGroup D cfg rgb dep e with
  | ok r => exact makeGroup_tried h
  | error err => exact makeGroup_error_tried h

/-- **Induction rule of `drain`**, whatever it raises, from what `_make_group` does. -/
theorem drainLoop_group_rule {P : Engine → Prop} {wall : ℚ} {final : Bool}
    (hgroup : ∀ rgb dep e, P e → P (afterGroup (makeGroup D cfg rgb dep e)))
    (hdrop : ∀ p rest r text e, P e → e.pending = p :: rest → P (drop p rest r text e))
    (hemit : ∀ p rest g e e', P e' → e'.pending = p :: rest → makeGroup D cfg p.rgb p.dep e = .ok (g, e') →
      P (emit wall p rest g e'))
    (l : List Pending) (e : Engine) (h : P e) (hl : e.pending = l) :
    P (Outcome.final (drainLoop D cfg wall final l e)) := by
  induction l generalizing e with
  | nil => exact h
  | cons p rest ih =>
    have hg' := hgroup p.rgb p.dep e h
    have hpend := (afterGroup_tried D cfg p.rgb p.dep e).pending.trans hl
    rw [drainLoop]
    rcases drainStep_cases D cfg wall final p rest e with
      ⟨g, e', hg, hs⟩ | ⟨err, e', r, text, hg, -, hs⟩ | ⟨r, e', hg, -, -, hs⟩ | ⟨err, e', hg, hs⟩ <;>
      rw [hg] at hg' hpend <;> rw [hs]
    · exact ih _ (hemit p rest g e e' hg' hpend hg) (by rw [emit_eq])
    · exact ih _ (hdrop p rest r text e' hg' hpend) rfl
    · exact hg'
    · exact hg'

/-- **Induction rule of `drain`**, whatever it raises. -/
theorem drainLoop_rule {P : Engine → Prop} {wall : ℚ} {final : Bool} (htry : ∀ e e', P e → Tried cfg e e' → P e')
    (hdrop : ∀ p rest r text e, P e → e.pending = p :: rest → P (drop p rest r text e))
    (hemit : ∀ p rest g e e', P e' → e'.pending = p :: rest → makeGroup D cfg p.rgb p.dep e = .ok (g, e') →
      P (emit wall p rest g e'))
    (l : List Pending) (e : Engine) (h : P e) (hl : e.pending = l) :
    P (Outcome.final (drainLoop D cfg wall final l e)) :=
  drainLoop_group_rule (fun rgb dep e h => htry e _ h (afterGroup_tried D cfg rgb dep e)) hdrop hemit l e h hl

/-- **What becomes of a pair just formed**: refused by the rate limit, queued, or an exception. -/
theorem select_cases (cfg : Config) (wall : ℚ) (rgb dep : Image) (e : Engine) :
    (∃ due, e.nextDue = some due ∧ rgb.header.stamp < due ∧
      select cfg wall rgb dep e = .ok ((e.inc .rateFiltered).log (.rateFiltered rgb dep))) ∨
    (∃ period, pyInt (div (10 ^ 9) cfg.rate) = .ok period ∧ (∀ due, e.nextDue = some due → due ≤ rgb.header.stamp) ∧
      select cfg wall rgb dep e =
        .ok (e.enqueue (advanceDue (e.nextDue.getD rgb.header.stamp) rgb.header.stamp period) ⟨rgb, dep, wall⟩)) ∨
    (∃ err x, select cfg wall rgb dep e = .error (err, { e with nextDue := x })) := by
  unfold select
  simp only
  by_cases hdue : (e.nextDue.any fun due => decide (rgb.header.stamp < due)) = true
  · rw [if_pos hdue]
    cases hn : e.nextDue with
    | none => simp [hn] at hdue
    | some due => exact Or.inl ⟨due, rfl, by simpa [hn] using hdue, rfl⟩
  · rw [if_neg hdue]
    have hle : ∀ due, e.nextDue = some due → due ≤ rgb.header.stamp := by
      intro due h
      rw [h] at hdue
      simpa using hdue
    cases hp : pyInt (div (10 ^ 9) cfg.rate) with
    | error err => exact Or.inr (Or.inr ⟨err, e.nextDue, rfl⟩)
    | ok period =>
      by_cases h0 : period = 0
      · refine Or.inr (Or.inr ⟨.zeroDivision, some (e.nextDue.getD rgb.header.stamp), ?_⟩)
        simp only [lift, bind, Except.bind, h0, ↓reduceIte, raise]
      · refine Or.inr (Or.inl ⟨period, rfl, hle, ?_⟩)
        simp only [lift, bind, Except.bind, h0, ↓reduceIte]
        rfl

/-- One turn of `_pair` looks at the nearest depth image. -/
theorem pairStep_nearest (cfg : Config) (slop : ℤ) (wall : ℚ) (rgb : Image) (a : List Image) (b₀ : Image) (b : List Image)
    (e : Engine) :
    ∃ b₁ dep b₂, b₀ :: b = b₁ ++ dep :: b₂ ∧
      (∀ m ∈ b₀ :: b, |dep.header.stamp - rgb.header.stamp| ≤ |m.header.stamp - rgb.header.stamp|) ∧
      pairStep cfg slop wall rgb a b₀ b e =
        if |dep.header.stamp - rgb.header.stamp| ≤ slop then select cfg wall rgb dep (e.takePair rgb dep a (b₁ ++ b₂))
        else if b₀.header.stamp < rgb.header.stamp - slop then .ok (e.giveUp .depth b₀ b)
        else .ok (e.giveUp .rgb rgb a) := by
  obtain ⟨b₁, dep, b₂, hl, hget, hers, hmin, -⟩ :=
    argminIdx_spec (fun m : Image => |m.header.stamp - rgb.header.stamp|) b₀ (l := b₀ :: b) (by simp)
  refine ⟨b₁, dep, b₂, hl, hmin, ?_⟩
  unfold pairStep
  simp only [hget, hers]

/-- **What one turn of `_pair` does**: take the nearest depth image, the first of several, or give one image up when none
is within the slop. -/
theorem pairStep_cases (cfg : Config) (slop : ℤ) (wall : ℚ) (rgb : Image) (a : List Image) (b₀ : Image) (b : List Image)
    (e : Engine) :
    (∃ b₁ dep b₂, b₀ :: b = b₁ ++ dep :: b₂ ∧ |dep.header.stamp - rgb.header.stamp| ≤ slop ∧
      pairStep cfg slop wall rgb a b₀ b e = select cfg wall rgb dep (e.takePair rgb dep a (b₁ ++ b₂))) ∨
    ((∀ m ∈ b₀ :: b, slop < |m.header.stamp - rgb.header.stamp|) ∧ b₀.header.stamp < rgb.header.stamp - slop ∧
      pairStep cfg slop wall rgb a b₀ b e = .ok (e.giveUp .depth b₀ b)) ∨
    ((∀ m ∈ b₀ :: b, slop < |m.header.stamp - rgb.header.stamp|) ∧ rgb.header.stamp - slop ≤ b₀.header.stamp ∧
      pairStep cfg slop wall rgb a b₀ b e = .ok (e.giveUp .rgb rgb a)) := by
  obtain ⟨b₁, dep, b₂, hl, hmin, hs⟩ := pairStep_nearest cfg slop wall rgb a b₀ b e
  rw [hs]
  by_cases hd : |dep.header.stamp - rgb.header.stamp| ≤ slop
  · exact Or.inl ⟨b₁, dep, b₂, hl, hd, by rw [if_pos hd]⟩
  · have hfar : ∀ m ∈ b₀ :: b, slop < |m.header.stamp - rgb.header.stamp| := fun m hm =>
      (not_le.1 hd).trans_le (hmin m hm)
    rw [if_neg hd]
    by_cases hb : b₀.header.stamp < rgb.header.stamp - slop
    · exact Or.inr (Or.inl ⟨hfar, hb, by rw [if_pos hb]⟩)
    · exact Or.inr (Or.inr ⟨hfar, not_lt.1 hb, by rw [if_neg hb]⟩)

/-- **Induction rule of `_pair`**, whatever it raises. -/
theorem pairLoop_rule {P : Engine → Prop} {slop : ℤ} {wall : ℚ}
    (hstep : ∀ rgb a b₀ b e, P e → e.images .rgb = rgb :: a → e.images .depth = b₀ :: b →
      P (Outcome.final (pairStep cfg slop wall rgb a b₀ b e))) :
    ∀ (n : ℕ) (e : Engine), P e → P (Outcome.final (pairLoop cfg slop wall n e))
  | 0, _, h => h
  | n + 1, e, h => by
    unfold pairLoop
    split
    · rename_i rgb a b₀ b ha hb
      exact final_bind (hstep rgb a b₀ b e h ha hb) fun s hs => pairLoop_rule hstep n s hs
    · exact h

/-- **Induction rule of `_pair`** when it raises nothing. -/
theorem pairLoop_ok_rule {P : Engine → Prop} {slop : ℤ} {wall : ℚ}
    (hstep : ∀ rgb a b₀ b e e', P e → e.images .rgb = rgb :: a → e.images .depth = b₀ :: b →
      pairStep cfg slop wall rgb a b₀ b e = .ok e' → P e') :
    ∀ (n : ℕ) (e e' : Engine), P e → pairLoop cfg slop wall n e = .ok e' → P e'
  | 0, _, _, h, hr => by cases hr; exact h
  | n + 1, e, e', h, hr => by
    unfold pairLoop at hr
    split at hr
    · rename_i rgb a b₀ b ha hb
      obtain ⟨t, ht, hr⟩ := bind_ok.1 hr
      exact pairLoop_ok_rule hstep n t e' (hstep rgb a b₀ b e t h ha hb ht) hr
    · cases hr; exact h

/-- The turns of `_pair` are enough to empty a buffer. -/
theorem pairLoop_done {slop : ℤ} {wall : ℚ} (n : ℕ) {e e' : Engine}
    (hn : (e.images .rgb).length + (e.images .depth).length ≤ n) (h : pairLoop cfg slop wall n e = .ok e') :
    e'.images .rgb = [] ∨ e'.images .depth = [] := by
  induction n generalizing e with
  | zero =>
    cases h
    exact Or.inl (List.length_eq_zero_iff.1 (by omega))
  | succ n ih =>
    rw [pairLoop] at h
    split at h
    · rename_i rgb a b₀ b ha hb
      obtain ⟨t, ht, h⟩ := bind_ok.1 h
      have hlen : (t.images .rgb).length + (t.images .depth).length ≤ n := by
        rw [ha, hb] at hn
        simp only [List.length_cons] at hn
        rcases pairStep_cases cfg slop wall rgb a b₀ b e with ⟨b₁, dep, b₂, hl, -, hs⟩ | ⟨-, -, hs⟩ | ⟨-, -, hs⟩
        · have hb' := congrArg List.length hl
          simp only [List.length_cons, List.length_append] at hb'
          rcases select_cases cfg wall rgb dep (e.takePair rgb dep a (b₁ ++ b₂)) with
            ⟨_, -, -, hs'⟩ | ⟨_, -, -, hs'⟩ | ⟨_, _, hs'⟩ <;> rw [hs, hs'] at ht <;> cases ht <;>
            simp [takePair, setImages, inc, add, log] <;> omega
        · rw [hs] at ht
          cases ht
          simp [giveUp, setImages, inc, add, log, ha]
          omega
        · rw [hs] at ht
          cases ht
          simp [giveUp, setImages, inc, add, log, hb]
          omega
      exact ih hlen h
    · rename_i hne
      cases h
      cases ha : e'.images .rgb with
      | nil => exact Or.inl rfl
      | cons rgb a =>
        cases hb : e'.images .depth with
        | nil => exact Or.inr rfl
        | cons b₀ b => exact absurd hb (hne rgb a b₀ b ha)

/-- A final `drain` that raises nothing empties the queue. -/
theorem drainLoop_final {wall : ℚ} {l : List Pending} {e e' : Engine} (hl : e.pending = l)
    (h : drainLoop D cfg wall true l e = .ok e') : e'.pending = [] := by
  induction l generalizing e with
  | nil => cases h; exact hl
  | cons p rest ih =>
    rw [drainLoop] at h
    rcases drainStep_cases D cfg wall true p rest e with
      ⟨g, e₁, -, hs⟩ | ⟨err, e₁, r, text, -, -, hs⟩ | ⟨r, e₁, -, hf, -⟩ | ⟨err, e₁, -, hs⟩
    · rw [hs] at h
      exact ih (by rw [emit_eq]) h
    · rw [hs] at h
      exact ih rfl h
    · cases hf
    · rw [hs] at h
      cases h

/-! ## `ingest` -/

/-- The source clock of a topic and its sequence numbers advance; only a gap counter changes besides. -/
theorem noteSource_eq (topic : Topic) (h : Header) (e : Engine) :
    ∃ n, e.noteSource topic h =
      { e.add (.sourceSequenceGaps topic) n with
        last := fun t => if t = topic then some h.stamp else e.last t
        lastSeq := fun t => if t = topic then some h.seq else e.lastSeq t } := by
  have hzero : e.add (.sourceSequenceGaps topic) 0 = e := by
    have hs : (fun k' => if k' = Stat.sourceSequenceGaps topic then e.stats (.sourceSequenceGaps topic) + 0
        else e.stats k') = e.stats := by
      funext k'
      split
      · rename_i hk; rw [hk, Nat.add_zero]
      · rfl
    unfold add
    rw [hs]
  unfold noteSource
  simp only
  cases e.lastSeq topic with
  | none => exact ⟨0, by rw [hzero]⟩
  | some previous =>
    simp only
    split
    · exact ⟨h.seq - previous - 1, rfl⟩
    · exact ⟨0, by rw [hzero]⟩

@[simp] theorem noteSource_last (topic t : Topic) (h : Header) (e : Engine) :
    (e.noteSource topic h).last t = if t = topic then some h.stamp else e.last t := by
  obtain ⟨n, hn⟩ := noteSource_eq topic h e
  rw [hn]

/-- Counting a message and noting its header are independent. -/
theorem noteSource_inc (topic : Topic) (h : Header) (e : Engine) :
    (e.inc (.received topic)).noteSource topic h = (e.noteSource topic h).inc (.received topic) := by
  unfold noteSource
  simp only [inc, add]
  cases e.lastSeq topic with
  | none => rfl
  | some previous =>
    simp only
    split
    · congr 1
      funext k
      by_cases h1 : k = .received topic
      · subst h1
        simp
      · simp [h1]
    · rfl

/-- **What becomes of an odometry sample**: refused, or accepted before the trimming raised, or accepted and written. -/
theorem ingestOdom_cases (D : Deps) (cfg : Config) (m : Odometry) (arrivalNs : ℤ) (e : Engine) :
    (∃ err, e.ingestOdom D cfg m arrivalNs = .error (err, e)) ∨
    m.header.frameId = cfg.world ∧ m.childFrameId = cfg.body ∧ (∃ mat, poseMatrix D.num m.pose = .ok mat) ∧
      ((∃ err, pyInt (mul (Binary64.add cfg.wait 2) (10 ^ 9)) = .error err ∧ e.ingestOdom D cfg m arrivalNs =
        .error (err, ({ e with odoms := e.odoms ++ [m] } : Engine).log (.odometry m))) ∨
      ∃ keep, pyInt (mul (Binary64.add cfg.wait 2) (10 ^ 9)) = .ok keep ∧ e.ingestOdom D cfg m arrivalNs =
        .ok { e with
          odoms := trimOdoms (m.header.stamp - keep) (e.odoms ++ [m])
          maxLioAge := max e.maxLioAge (divFloat (arrivalNs - m.header.stamp) (10 ^ 9))
          trace := e.trace ++ [.odometry m, .written ⟨.odom, .odometry m, arrivalNs⟩] }) := by
  unfold ingestOdom
  by_cases hf : m.header.frameId ≠ cfg.world ∨ m.childFrameId ≠ cfg.body
  · exact Or.inl ⟨_, by rw [if_pos hf]; rfl⟩
  · rw [if_neg hf]
    push Not at hf
    cases hm : poseMatrix D.num m.pose with
    | error err => exact Or.inl ⟨err, rfl⟩
    | ok mat =>
      refine Or.inr ⟨hf.1, hf.2, ⟨mat, rfl⟩, ?_⟩
      cases hk : pyInt (mul (Binary64.add cfg.wait 2) (10 ^ 9)) with
      | error err => exact Or.inl ⟨err, rfl, rfl⟩
      | ok keep =>
        refine Or.inr ⟨keep, rfl, ?_⟩
        simp only [lift, bind, Except.bind, log, write, List.append_assoc, List.cons_append, List.nil_append]

/-- The transforms of a message are set one by one, up to the one that raises. -/
theorem setStatics_final (D : Deps) (ts : List TransformStamped) (e : Engine) :
    ∃ set rest, ts = set ++ rest ∧ Outcome.final (e.setStatics D ts) =
      { e with
        static := set.foldl (fun d t => d.set t.childFrameId t) e.static
        tf := e.tf ++ set } := by
  induction ts generalizing e with
  | nil => exact ⟨[], [], rfl, by simp [setStatics]⟩
  | cons t ts ih =>
    unfold setStatics
    cases hm : transformMatrix D.num t with
    | error err => exact ⟨[], t :: ts, rfl, by simp [lift, bind, Except.bind]⟩
    | ok mat =>
      simp only [lift, bind, Except.bind]
      split
      · exact ⟨[], t :: ts, rfl, by simp [raise]⟩
      · obtain ⟨set, rest, rfl, hfin⟩ := ih { e with static := e.static.set t.childFrameId t, tf := e.tf ++ [t] }
        exact ⟨t :: set, rest, rfl, by rw [hfin]; simp⟩

/-- Two engines with the same images, frames and message counts. -/
structure Quiet (e e' : Engine) : Prop where
  images : e'.images = e.images
  pending : e'.pending = e.pending
  nextDue : e'.nextDue = e.nextDue
  stats : ∀ k, k.ofEvent → e'.stats k = e.stats k
  received : ∀ c, e'.stats (.received (.image c)) = e.stats (.received (.image c))
  duplicate : ∀ c, e'.stats (.duplicate (.image c)) = e.stats (.duplicate (.image c))
  trace : ∃ evs, e'.trace = e.trace ++ evs ∧ ∀ ev ∈ evs, ev.plain

theorem Tried.quiet {e e' : Engine} (h : Tried cfg e e') : Quiet e e' := by
  rcases h with rfl | ⟨x, a, b, target, -, rfl⟩
  · exact ⟨rfl, rfl, rfl, fun _ _ => rfl, fun _ => rfl, fun _ => rfl, [], (List.append_nil _).symm, by simp⟩
  · exact ⟨rfl, rfl, rfl, fun _ _ => rfl, fun _ => rfl, fun _ => rfl, [_], rfl, by simp [Event.plain]⟩

/-- Inputs that are no images concern neither images nor frames. -/
theorem receive_quiet (D : Deps) (cfg : Config) {x : Input} (arrivalNs : ℤ) (wall : ℚ) {e : Engine}
    (hx : ∀ c m, x ≠ .image c m) :
    Quiet e (Outcome.final (e.receive D cfg x arrivalNs wall)) := by
  cases x with
  | image c m => exact absurd rfl (hx c m)
  | info c m => exact ⟨rfl, rfl, rfl, fun _ _ => rfl, fun _ => rfl, fun _ => rfl, [_], rfl, by simp [Event.plain]⟩
  | odom m =>
    simp only [receive]
    rcases ingestOdom_cases D cfg m arrivalNs e with ⟨err, h⟩ | ⟨-, -, -, ⟨err, -, h⟩ | ⟨keep, -, h⟩⟩ <;> rw [h]
    · exact ⟨rfl, rfl, rfl, fun _ _ => rfl, fun _ => rfl, fun _ => rfl, [], (List.append_nil _).symm, by simp⟩
    · exact ⟨rfl, rfl, rfl, fun _ _ => rfl, fun _ => rfl, fun _ => rfl, [_], rfl, by simp [Event.plain]⟩
    · exact ⟨rfl, rfl, rfl, fun _ _ => rfl, fun _ => rfl, fun _ => rfl, _, rfl, by simp [Event.plain]⟩
  | tf ts => exact ⟨rfl, rfl, rfl, fun _ _ => rfl, fun _ => rfl, fun _ => rfl, [_], rfl, by simp [Event.plain]⟩
  | tfStatic ts =>
    obtain ⟨set, rest, -, hfin⟩ := setStatics_final D ts e
    simp only [receive]
    cases hs : e.setStatics D ts with
    | error err =>
      rw [hs, final] at hfin
      simp only [bind, Except.bind, final, hfin]
      exact ⟨rfl, rfl, rfl, fun _ _ => rfl, fun _ => rfl, fun _ => rfl, [], (List.append_nil _).symm, by simp⟩
    | ok e' =>
      rw [hs, final_ok] at hfin
      simp only [bind, Except.bind, final, hfin]
      exact ⟨rfl, rfl, rfl, fun _ _ => rfl, fun _ => rfl, fun _ => rfl, [_], rfl, by simp [Event.plain]⟩
  | other n data => exact ⟨rfl, rfl, rfl, fun _ _ => rfl, fun _ => rfl, fun _ => rfl, [_], rfl, by simp [Event.plain]⟩

theorem Quiet.arrived {e e' : Engine} (h : Quiet e e') (c : Cam) : e'.arrived c = e.arrived c := by
  obtain ⟨evs, ht, hev⟩ := h.trace
  exact history_plain (by intro ev; cases ev <;> simp [Event.plain, Event.arrival]) ht hev

theorem Quiet.lost {e e' : Engine} (h : Quiet e e') (c : Cam) : e'.lost c = e.lost c := by
  obtain ⟨evs, ht, hev⟩ := h.trace
  exact history_plain (by intro ev; cases ev <;> simp [Event.plain, Event.lost]) ht hev

theorem Quiet.pairs {e e' : Engine} (h : Quiet e e') : e'.pairs = e.pairs := by
  obtain ⟨evs, ht, hev⟩ := h.trace
  exact history_plain (by intro ev; cases ev <;> simp [Event.plain, Event.pair]) ht hev

theorem Quiet.settled {e e' : Engine} (h : Quiet e e') : e'.settled = e.settled := by
  obtain ⟨evs, ht, hev⟩ := h.trace
  exact history_plain (by intro ev; cases ev <;> simp [Event.plain, Event.settled]) ht hev

theorem Quiet.selected {e e' : Engine} (h : Quiet e e') : e'.selected = e.selected := by
  obtain ⟨evs, ht, hev⟩ := h.trace
  exact history_plain (by intro ev; cases ev <;> simp [Event.plain, Event.selection]) ht hev

theorem Quiet.overflowed {e e' : Engine} (h : Quiet e e') : e'.overflowed = e.overflowed := by
  obtain ⟨evs, ht, hev⟩ := h.trace
  exact history_plain (by intro ev; cases ev <;> simp [Event.plain, Event.overflow]) ht hev

theorem noteSource_quiet (topic : Topic) (h : Header) (e : Engine) : Quiet e (e.noteSource topic h) := by
  obtain ⟨n, hn⟩ := noteSource_eq topic h e
  rw [hn]
  refine ⟨rfl, rfl, rfl, fun k hk => ?_, fun c => ?_, fun c => ?_, [], (List.append_nil _).symm, by simp⟩
  · cases k <;> simp_all [add, Stat.ofEvent]
  · simp [add]
  · simp [add]

/-- An image is appended to its buffer. -/
def join (c : Cam) (m : Image) (e : Engine) : Engine := (e.setImages c (e.images c ++ [m])).log (.buffered c m)

/-- **What buffering an image does**: append it, or append it and lose the oldest. -/
theorem bufferImage_cases (cfg : Config) (c : Cam) (m : Image) (e : Engine) :
    e.bufferImage cfg c m = e.join c m ∨
    ∃ old rest, (e.join c m).images c = old :: rest ∧
      e.bufferImage cfg c m = (((e.join c m).setImages c rest).inc (.unpaired c)).log (.evicted c old) := by
  unfold bufferImage
  simp only
  split
  · rename_i old rest hl
    split
    · exact Or.inr ⟨old, rest, hl, rfl⟩
    · exact Or.inl rfl
  · exact Or.inl rfl

theorem join_arrived (c c' : Cam) (m : Image) (e : Engine) :
    (e.join c m).arrived c' = if c' = c then e.arrived c ++ [m] else e.arrived c' := by
  by_cases hcc : c' = c
  · subst hcc
    simp [join, Event.arrival]
  · simp [join, Event.arrival, hcc, Ne.symm hcc]

theorem join_pairs (c : Cam) (m : Image) (e : Engine) : (e.join c m).pairs = e.pairs := by simp [join, Event.pair]

/-- Two engines that differ in their images, the queue, its due time and counters of images. -/
structure Imaging (e e' : Engine) : Prop where
  odoms : e'.odoms = e.odoms
  infos : e'.infos = e.infos
  last : e'.last = e.last
  static : e'.static = e.static
  tf : e'.tf = e.tf
  acceptedExtrinsic : e'.acceptedExtrinsic = e.acceptedExtrinsic
  firstFrameNs : e'.firstFrameNs = e.firstFrameNs
  lastFrameNs : e'.lastFrameNs = e.lastFrameNs
  frames : e'.stats .frames = e.stats .frames
  trace : ∃ evs, e'.trace = e.trace ++ evs ∧ ∀ ev ∈ evs, ev.imaging

theorem Imaging.refl (e : Engine) : Imaging e e :=
  ⟨rfl, rfl, rfl, rfl, rfl, rfl, rfl, rfl, rfl, [], (List.append_nil _).symm, by simp⟩

theorem Imaging.trans {e₁ e₂ e₃ : Engine} (h : Imaging e₁ e₂) (h' : Imaging e₂ e₃) : Imaging e₁ e₃ := by
  obtain ⟨evs, ht, hev⟩ := h.trace
  obtain ⟨evs', ht', hev'⟩ := h'.trace
  refine ⟨h'.odoms.trans h.odoms, h'.infos.trans h.infos, h'.last.trans h.last, h'.static.trans h.static,
    h'.tf.trans h.tf, h'.acceptedExtrinsic.trans h.acceptedExtrinsic, h'.firstFrameNs.trans h.firstFrameNs,
    h'.lastFrameNs.trans h.lastFrameNs, h'.frames.trans h.frames, evs ++ evs', ?_, ?_⟩
  · rw [ht', ht, List.append_assoc]
  · intro ev hm
    exact (List.mem_append.1 hm).elim (hev ev) (hev' ev)

theorem Imaging.skip {e e' : Engine} (h : Imaging e e') {α : Type} {f : Event → Option α}
    (hf : ∀ ev, ev.imaging → f ev = none) : e'.history f = e.history f := by
  obtain ⟨evs, ht, hev⟩ := h.trace
  exact history_skip _ ht fun ev hm => hf ev (hev ev hm)

theorem Imaging.accepted {e e' : Engine} (h : Imaging e e') : e'.accepted = e.accepted :=
  h.skip fun ev hev => by cases ev <;> first | rfl | cases hev

theorem Imaging.groups {e e' : Engine} (h : Imaging e e') : e'.groups = e.groups :=
  h.skip fun ev hev => by cases ev <;> first | rfl | cases hev

theorem Imaging.written {e e' : Engine} (h : Imaging e e') : e'.written = e.written :=
  h.skip fun ev hev => by cases ev <;> first | rfl | cases hev

theorem bufferImage_imaging (cfg : Config) (c : Cam) (m : Image) (e : Engine) : Imaging e (e.bufferImage cfg c m) := by
  have hb : Imaging e (e.join c m) := ⟨rfl, rfl, rfl, rfl, rfl, rfl, rfl, rfl, rfl, [_], rfl, by simp [Event.imaging]⟩
  rcases bufferImage_cases cfg c m e with h | ⟨old, rest, -, h⟩ <;> rw [h]
  · exact hb
  · exact hb.trans ⟨rfl, rfl, rfl, rfl, rfl, rfl, rfl, rfl, rfl, [_], rfl, by simp [Event.imaging]⟩

/-- `_pair` concerns nothing but the images and the queue. -/
theorem pair_imaging (cfg : Config) (wall : ℚ) (e : Engine) : Imaging e (Outcome.final (e.pair cfg wall)) := by
  unfold pair
  cases pyInt (mul cfg.rgbdSlop (10 ^ 9)) with
  | error err => exact Imaging.refl e
  | ok slop =>
    refine pairLoop_rule (P := Imaging e) (fun rgb a b₀ b t ht _ _ => ht.trans ?_) _ e (Imaging.refl e)
    rcases pairStep_cases cfg slop wall rgb a b₀ b t with ⟨b₁, dep, b₂, -, -, hs⟩ | ⟨-, -, hs⟩ | ⟨-, -, hs⟩ <;> rw [hs]
    · rcases select_cases cfg wall rgb dep (t.takePair rgb dep a (b₁ ++ b₂)) with
        ⟨due, -, -, hs'⟩ | ⟨period, -, -, hs'⟩ | ⟨err, x, hs'⟩ <;> rw [hs']
      · exact ⟨rfl, rfl, rfl, rfl, rfl, rfl, rfl, rfl, rfl, [.paired rgb dep, .rateFiltered rgb dep],
          List.append_assoc _ _ _, by simp [Event.imaging]⟩
      · exact ⟨rfl, rfl, rfl, rfl, rfl, rfl, rfl, rfl, rfl, [.paired rgb dep, .queued rgb dep],
          List.append_assoc _ _ _, by simp [Event.imaging]⟩
      · exact ⟨rfl, rfl, rfl, rfl, rfl, rfl, rfl, rfl, rfl, [.paired rgb dep], rfl, by simp [Event.imaging]⟩
    · exact ⟨rfl, rfl, rfl, rfl, rfl, rfl, rfl, rfl, rfl, [_], rfl, by simp [Event.imaging]⟩
    · exact ⟨rfl, rfl, rfl, rfl, rfl, rfl, rfl, rfl, rfl, [_], rfl, by simp [Event.imaging]⟩

theorem bufferImage_arrived (cfg : Config) (c c' : Cam) (m : Image) (e : Engine) :
    (e.bufferImage cfg c m).arrived c' = if c' = c then e.arrived c ++ [m] else e.arrived c' := by
  rw [← join_arrived]
  rcases bufferImage_cases cfg c m e with h | ⟨old, rest, -, h⟩ <;> rw [h]
  simp [Event.arrival]

/-- A turn of `_pair` does not show in a history without pairs and images given up. -/
theorem pairStep_skip {α : Type} {f : Event → Option α} (hp : ∀ r d, f (.paired r d) = none)
    (hr : ∀ r d, f (.rateFiltered r d) = none) (hq : ∀ r d, f (.queued r d) = none) (hu : ∀ c m, f (.unpaired c m) = none)
    (cfg : Config) (slop : ℤ) (wall : ℚ) (rgb : Image) (a : List Image) (b₀ : Image) (b : List Image) (e : Engine) :
    (Outcome.final (pairStep cfg slop wall rgb a b₀ b e)).history f = e.history f := by
  rcases pairStep_cases cfg slop wall rgb a b₀ b e with ⟨b₁, dep, b₂, -, -, hs⟩ | ⟨-, -, hs⟩ | ⟨-, -, hs⟩ <;> rw [hs]
  · rcases select_cases cfg wall rgb dep (e.takePair rgb dep a (b₁ ++ b₂)) with
      ⟨due, -, -, hs'⟩ | ⟨period, -, -, hs'⟩ | ⟨err, x, hs'⟩ <;> rw [hs']
    · simp [takePair, hp, hr]
    · simp [takePair, hp, hq]
    · exact history_skip [_] rfl (by simp [hp])
  · simp [giveUp, hu]
  · simp [giveUp, hu]

/-- No image arrives while `_pair` runs. -/
theorem pair_arrived (cfg : Config) (wall : ℚ) (e : Engine) (c : Cam) :
    (Outcome.final (e.pair cfg wall)).arrived c = e.arrived c := by
  unfold pair
  cases pyInt (mul cfg.rgbdSlop (10 ^ 9)) with
  | error err => rfl
  | ok slop =>
    refine pairLoop_rule (P := fun t : Engine => t.arrived c = e.arrived c) (fun rgb a b₀ b t ht _ _ => ?_) _ e rfl
    rw [← ht]
    exact pairStep_skip (fun _ _ => rfl) (fun _ _ => rfl) (fun _ _ => rfl) (fun _ _ => rfl) cfg slop wall rgb a b₀ b t

/-- Two engines that differ in the queue, the accepted extrinsic, and what concerns frames only. -/
structure Draining (e e' : Engine) : Prop where
  images : e'.images = e.images
  nextDue : e'.nextDue = e.nextDue
  odoms : e'.odoms = e.odoms
  infos : e'.infos = e.infos
  last : e'.last = e.last
  static : e'.static = e.static
  tf : e'.tf = e.tf
  trace : ∃ evs, e'.trace = e.trace ++ evs ∧ ∀ ev ∈ evs, ev.draining

theorem Draining.refl (e : Engine) : Draining e e :=
  ⟨rfl, rfl, rfl, rfl, rfl, rfl, rfl, [], (List.append_nil _).symm, by simp⟩

theorem Draining.trans {e₁ e₂ e₃ : Engine} (h : Draining e₁ e₂) (h' : Draining e₂ e₃) : Draining e₁ e₃ := by
  obtain ⟨evs, ht, hev⟩ := h.trace
  obtain ⟨evs', ht', hev'⟩ := h'.trace
  refine ⟨h'.images.trans h.images, h'.nextDue.trans h.nextDue, h'.odoms.trans h.odoms, h'.infos.trans h.infos,
    h'.last.trans h.last, h'.static.trans h.static, h'.tf.trans h.tf, evs ++ evs', ?_, ?_⟩
  · rw [ht', ht, List.append_assoc]
  · intro ev hm
    exact (List.mem_append.1 hm).elim (hev ev) (hev' ev)

/-- `drain` concerns nothing but the queue and frames. -/
theorem drain_draining (D : Deps) (cfg : Config) (wall : ℚ) (final : Bool) (e : Engine) :
    Draining e (Outcome.final (e.drain D cfg wall final)) := by
  refine drainLoop_rule (P := Draining e) (fun t t' h ht => h.trans ?_) (fun p rest r text t h _ => h.trans ?_)
    (fun p rest g t t' h _ _ => h.trans ?_) e.pending e (Draining.refl e) rfl
  · rcases ht with rfl | ⟨x, a, b, target, -, rfl⟩
    · exact Draining.refl t'
    · exact ⟨rfl, rfl, rfl, rfl, rfl, rfl, rfl, [_], rfl, by simp [Event.draining]⟩
  · exact ⟨rfl, rfl, rfl, rfl, rfl, rfl, rfl, [_], rfl, by simp [Event.draining]⟩
  · rw [emit_eq]
    exact ⟨rfl, rfl, rfl, rfl, rfl, rfl, rfl, _, rfl, by simp [Event.draining]⟩

theorem Draining.skip {e e' : Engine} (h : Draining e e') {α : Type} {f : Event → Option α}
    (hf : ∀ ev, ev.draining → f ev = none) : e'.history f = e.history f := by
  obtain ⟨evs, ht, hev⟩ := h.trace
  exact history_skip _ ht fun ev hm => hf ev (hev ev hm)

theorem Draining.accepted {e e' : Engine} (h : Draining e e') : e'.accepted = e.accepted :=
  h.skip fun ev hev => by cases ev <;> first | rfl | cases hev

theorem Draining.arrived {e e' : Engine} (h : Draining e e') (c : Cam) : e'.arrived c = e.arrived c :=
  h.skip fun ev hev => by cases ev <;> first | rfl | cases hev

theorem Draining.pairs {e e' : Engine} (h : Draining e e') : e'.pairs = e.pairs :=
  h.skip fun ev hev => by cases ev <;> first | rfl | cases hev

theorem Draining.selected {e e' : Engine} (h : Draining e e') : e'.selected = e.selected :=
  h.skip fun ev hev => by cases ev <;> first | rfl | cases hev

theorem Draining.overflowed {e e' : Engine} (h : Draining e e') : e'.overflowed = e.overflowed :=
  h.skip fun ev hev => by cases ev <;> first | rfl | cases hev

/-- Processing an input leaves the source clocks as they are. -/
theorem receive_last (D : Deps) (cfg : Config) (x : Input) (arrivalNs : ℤ) (wall : ℚ) (e : Engine) :
    (Outcome.final (e.receive D cfg x arrivalNs wall)).last = e.last := by
  cases x with
  | image c m => exact ((bufferImage_imaging cfg c m e).trans (pair_imaging cfg wall _)).last
  | odom m =>
    simp only [receive]
    rcases ingestOdom_cases D cfg m arrivalNs e with ⟨err, h⟩ | ⟨-, -, -, ⟨err, -, h⟩ | ⟨keep, -, h⟩⟩ <;> rw [h] <;> rfl
  | tfStatic ts =>
    obtain ⟨set, rest, -, hfin⟩ := setStatics_final D ts e
    refine final_bind (P := fun t : Engine => t.last = e.last) ?_ fun s hs => ?_
    · rw [hfin]
    · exact hs
  | info c m => rfl
  | tf ts => rfl
  | other n data => rfl

/-- The engine in which an input is processed: the message is counted and its header noted, which, on the topics whose
clock is checked, is newer than the last. -/
def Noted (e : Engine) (x : Input) (e₀ : Engine) : Prop :=
  (x.sourceHeader = none ∧ e₀ = e.inc (.received x.topic)) ∨
    ∃ h, x.sourceHeader = some h ∧ 0 < h.stamp ∧ (∀ s, e.last x.topic = some s → s < h.stamp) ∧
      e₀ = (e.noteSource x.topic h).inc (.received x.topic)

/-- **What `ingest` can do**: refuse the input, count a duplicate, or process it. -/
theorem ingest_cases (D : Deps) (cfg : Config) (x : Input) (arrivalNs : ℤ) (wall : ℚ) (e : Engine) :
    (∃ err, e.ingest D cfg x arrivalNs wall = .error (err, e.inc (.received x.topic))) ∨
    (∃ h, x.sourceHeader = some h ∧ e.last x.topic = some h.stamp ∧
      e.ingest D cfg x arrivalNs wall = .ok ((e.inc (.received x.topic)).inc (.duplicate x.topic))) ∨
    ∃ e₀, Noted e x e₀ ∧ e.ingest D cfg x arrivalNs wall = e₀.process D cfg x arrivalNs wall := by
  have hlast : (e.inc (.received x.topic)).last = e.last := rfl
  unfold ingest
  simp only [hlast]
  cases hs : x.sourceHeader with
  | none => exact Or.inr (Or.inr ⟨_, Or.inl ⟨hs, rfl⟩, rfl⟩)
  | some h =>
    simp only
    by_cases h0 : h.stamp ≤ 0
    · exact Or.inl ⟨_, by rw [if_pos h0]; rfl⟩
    by_cases h1 : ((e.last x.topic).any fun p => decide (h.stamp < p)) = true
    · exact Or.inl ⟨_, by rw [if_neg h0, if_pos h1]; rfl⟩
    by_cases h2 : e.last x.topic = some h.stamp
    · exact Or.inr (Or.inl ⟨h, rfl, h2, by rw [if_neg h0, if_neg h1, if_pos h2]⟩)
    · refine Or.inr (Or.inr ⟨_, Or.inr ⟨h, hs, by omega, fun p hp => ?_, rfl⟩, ?_⟩)
      · rw [hp] at h1 h2
        simp only [Option.any_some, decide_eq_true_eq, Option.some.injEq] at h1 h2
        omega
      · rw [if_neg h0, if_neg h1, if_neg h2, noteSource_inc]

/-- Noting a message changes clocks and message counts only. -/
theorem Noted.eq {e e₀ : Engine} {x : Input} (h : Noted e x e₀) :
    ∃ st l ls, e₀ = { e with stats := st, last := l, lastSeq := ls } ∧ ∀ k, k.ofEvent → st k = e.stats k := by
  rcases h with ⟨-, rfl⟩ | ⟨hd, -, -, -, rfl⟩
  · refine ⟨_, e.last, e.lastSeq, rfl, fun k hk => ?_⟩
    cases k <;> simp_all [Stat.ofEvent]
  · obtain ⟨n, hn⟩ := noteSource_eq x.topic hd e
    rw [hn]
    refine ⟨_, _, _, rfl, fun k hk => ?_⟩
    cases k <;> simp_all [Stat.ofEvent]

/-- The clock of the topic shows the header that was noted; the other clocks stay. -/
theorem Noted.last {e e₀ : Engine} {x : Input} (h : Noted e x e₀) :
    (∀ t, (x.sourceHeader = none ∨ t ≠ x.topic) → e₀.last t = e.last t) ∧
      ∀ hd, x.sourceHeader = some hd →
        0 < hd.stamp ∧ e₀.last x.topic = some hd.stamp ∧ ∀ s, e.last x.topic = some s → s < hd.stamp := by
  rcases h with ⟨hs, rfl⟩ | ⟨hd, hs, hpos, hnew, rfl⟩
  · exact ⟨fun t _ => rfl, fun hd hhd => by simp [hs] at hhd⟩
  · have hl : ∀ t, ((e.noteSource x.topic hd).inc (.received x.topic)).last t =
        if t = x.topic then some hd.stamp else e.last t := fun t => noteSource_last x.topic t hd e
    refine ⟨fun t ht => ?_, fun hd' hhd => ?_⟩
    · rw [hl, if_neg (ht.resolve_left (by simp [hs]))]
    · obtain rfl : hd = hd' := by simpa [hs] using hhd
      exact ⟨hpos, by rw [hl, if_pos rfl], hnew⟩

/-- **What a call keeps**, whatever it raises: what counting messages, draining and receiving a noted input keep. -/
theorem exec_rule {P : Engine → Prop} {e : Engine} (h : P e)
    (hcount : ∀ e k, k.ofEvent = false → P e → P (e.inc k))
    (hdrain : ∀ wall final e, P e → P (Outcome.final (Engine.drain D cfg wall final e)))
    (hreceive : ∀ x arrivalNs wall e₀, Noted e x e₀ → P (Outcome.final (e₀.receive D cfg x arrivalNs wall))) (c : Call) :
    P (Outcome.final (c.exec D cfg e)) := by
  cases c with
  | drain wall final => exact hdrain wall final e h
  | ingest x arrivalNs wall =>
    rw [Call.exec]
    rcases ingest_cases D cfg x arrivalNs wall e with ⟨err, hi⟩ | ⟨hd, -, -, hi⟩ | ⟨e₀, hn, hi⟩ <;> rw [hi]
    · exact hcount e _ rfl h
    · exact hcount _ _ rfl (hcount e _ rfl h)
    · refine final_bind (P := P) (hreceive x arrivalNs wall e₀ hn) fun e₁ h₁ => ?_
      split
      · exact hdrain wall false e₁ h₁
      · exact h₁

/-- **What a call that raises nothing can do**: drain, count a duplicate, or receive a noted input and perhaps drain. -/
theorem exec_ok {c : Call} {e e' : Engine} (h : c.exec D cfg e = .ok e') :
    (∃ wall final, c = .drain wall final ∧ e.drain D cfg wall final = .ok e') ∨
    (∃ x arrivalNs wall hd, c = .ingest x arrivalNs wall ∧ x.sourceHeader = some hd ∧
      e.last x.topic = some hd.stamp ∧ e' = (e.inc (.received x.topic)).inc (.duplicate x.topic)) ∨
    ∃ x arrivalNs wall e₀ e₁, c = .ingest x arrivalNs wall ∧ Noted e x e₀ ∧
      e₀.receive D cfg x arrivalNs wall = .ok e₁ ∧ (e₁.drain D cfg wall false = .ok e' ∨ e' = e₁) := by
  cases c with
  | drain wall final => exact Or.inl ⟨wall, final, rfl, h⟩
  | ingest x arrivalNs wall =>
    rw [Call.exec] at h
    rcases ingest_cases D cfg x arrivalNs wall e with ⟨err, hi⟩ | ⟨hd, hsrc, hlast, hi⟩ | ⟨e₀, hn, hi⟩ <;> rw [hi] at h
    · cases h
    · cases h
      exact Or.inr (Or.inl ⟨x, arrivalNs, wall, hd, rfl, hsrc, hlast, rfl⟩)
    · obtain ⟨e₁, h₁, h⟩ := bind_ok.1 h
      refine Or.inr (Or.inr ⟨x, arrivalNs, wall, e₀, e₁, rfl, hn, h₁, ?_⟩)
      split at h
      · exact Or.inl h
      · exact Or.inr (Except.ok.inj h).symm

/-- **Induction rule of a run that raises nothing**: what draining, counting a duplicate and receiving a noted input
keep. -/
theorem runCalls_rule {P : List Call → Engine → Prop} (h0 : P [] .init)
    (hdrain : ∀ cs wall final e e', P cs e → e.drain D cfg wall final = .ok e' → P cs e')
    (hskip : ∀ cs wall final e, P cs e → P (cs ++ [.drain wall final]) e)
    (hdup : ∀ cs x arrivalNs wall e hd, P cs e → x.sourceHeader = some hd → e.last x.topic = some hd.stamp →
      P (cs ++ [.ingest x arrivalNs wall]) ((e.inc (.received x.topic)).inc (.duplicate x.topic)))
    (hreceive : ∀ cs x arrivalNs wall e e₀ e₁, P cs e → Noted e x e₀ →
      e₀.receive D cfg x arrivalNs wall = .ok e₁ → P (cs ++ [.ingest x arrivalNs wall]) e₁)
    {cs : List Call} {e : Engine} (hr : runCalls D cfg cs = .ok e) : P cs e := by
  refine run_induction (P := P) h0 (fun cs s c s' _ hP hc => ?_) cs hr
  rcases exec_ok hc with ⟨wall, final, rfl, hd⟩ | ⟨x, arrivalNs, wall, hd, rfl, hsrc, hlast, rfl⟩ |
    ⟨x, arrivalNs, wall, e₀, e₁, rfl, hn, h₁, hrest⟩
  · exact hdrain _ wall final s s' (hskip cs wall final s hP) hd
  · exact hdup cs x arrivalNs wall s hd hP hsrc hlast
  · have hP₁ := hreceive cs x arrivalNs wall s e₀ e₁ hP hn h₁
    rcases hrest with hd | rfl
    · exact hdrain _ wall false e₁ s' hP₁ hd
    · exact hP₁

/-- Two engines that differ in what concerns neither images nor frames. -/
structure Plain (e e' : Engine) : Prop where
  images : e'.images = e.images
  pending : e'.pending = e.pending
  nextDue : e'.nextDue = e.nextDue
  stats : ∀ k, k.ofEvent → e'.stats k = e.stats k
  trace : ∃ evs, e'.trace = e.trace ++ evs ∧ ∀ ev ∈ evs, ev.plain

theorem Quiet.toPlain {e e' : Engine} (h : Quiet e e') : Plain e e' := ⟨h.images, h.pending, h.nextDue, h.stats, h.trace⟩

theorem Noted.toPlain {e e₀ : Engine} {x : Input} (h : Noted e x e₀) : Plain e e₀ := by
  obtain ⟨st, l, ls, rfl, hst⟩ := h.eq
  exact ⟨rfl, rfl, rfl, hst, [], (List.append_nil _).symm, by simp⟩

theorem Plain.inc (e : Engine) {k : Stat} (hk : k.ofEvent = false) : Plain e (e.inc k) := by
  refine ⟨rfl, rfl, rfl, fun k' hk' => ?_, [], (List.append_nil _).symm, by simp⟩
  have hne : k' ≠ k := by
    rintro rfl
    rw [hk] at hk'
    cases hk'
  simp [Engine.inc, hne]

theorem Plain.history {e e' : Engine} (h : Plain e e') {α : Type} {f : Event → Option α}
    (hf : ∀ ev, ev.plain → f ev = none) : e'.history f = e.history f := by
  obtain ⟨evs, ht, hev⟩ := h.trace
  exact history_plain hf ht hev

end Engine

end Agilex.Capture
