import Mathlib.Data.List.Induction

/-!
# Machines: partial steps, runs, invariants

A machine is a function `step : A → S → Option S`: the state after an action, or nothing when the action is not enabled.
Interleavings of several parties are runs of one machine whose actions name the party that moves.

- `run` performs actions one after the other (`run_append`, `run_snoc`);
- `run_induction` is the induction rule of a run from a fixed start, and `run_invariant` what every step keeps;
- `Along` says that every step of a run meets a condition on the state before it, and `run_filter` is the simulation of a
  run by some of its actions alone;
- `withHistory` is the machine that also keeps the actions it has performed, for conditions on these.
-/

namespace Agilex.Lib.Machine

variable {S A : Type}

/-- The state after some actions, if every one is enabled in its turn. -/
def run (step : A → S → Option S) : List A → S → Option S
  | [], s => some s
  | a :: l, s => (step a s).bind (run step l)

variable {step : A → S → Option S}

theorem run_append {l l' : List A} {s s' : S} :
    run step (l ++ l') s = some s' ↔ ∃ t, run step l s = some t ∧ run step l' t = some s' := by
  induction l generalizing s with
  | nil => simp [run]
  | cons a l ih =>
    simp only [List.cons_append, run, Option.bind_eq_some_iff, ih]
    constructor
    · rintro ⟨t, ht, u, hu, h⟩; exact ⟨u, ⟨t, ht, hu⟩, h⟩
    · rintro ⟨u, ⟨t, ht, hu⟩, h⟩; exact ⟨t, ht, u, hu, h⟩

theorem run_snoc {l : List A} {a : A} {s s' : S} :
    run step (l ++ [a]) s = some s' ↔ ∃ t, run step l s = some t ∧ step a t = some s' := by
  rw [run_append]
  simp [run]

/-- Induction on a run, from its beginning. -/
theorem run_induction {P : List A → S → Prop} {s₀ : S} (h0 : P [] s₀)
    (hstep : ∀ l s a s', run step l s₀ = some s → P l s → step a s = some s' → P (l ++ [a]) s') {l : List A} {s : S}
    (hr : run step l s₀ = some s) : P l s := by
  induction l using List.reverseRecOn generalizing s with
  | nil =>
    obtain rfl : s₀ = s := by simpa [run] using hr
    exact h0
  | append_singleton l a ih =>
    obtain ⟨t, ht, ha⟩ := run_snoc.1 hr
    exact hstep l t a s ht (ih ht) ha

/-- What every step keeps holds after every run. -/
theorem run_invariant {P : S → Prop} (hstep : ∀ a s s', P s → step a s = some s' → P s') {l : List A} {s s' : S}
    (h : P s) (hr : run step l s = some s') : P s' :=
  run_induction (P := fun _ s => P s) h (fun _ s a s' _ hP ha => hstep a s s' hP ha) hr

/-! ## Conditions on the steps of a run -/

/-- Every step of a run meets a condition on the state before it. -/
def Along (step : A → S → Option S) (C : A → S → Prop) : List A → S → Prop
  | [], _ => True
  | a :: l, s => C a s ∧ ∀ s', step a s = some s' → Along step C l s'

/-- `Along`, computed. -/
def checkAlong (step : A → S → Option S) (C : A → S → Bool) : List A → S → Bool
  | [], _ => true
  | a :: l, s => C a s && (step a s).all (checkAlong step C l)

theorem along_of_check {C : A → S → Prop} [∀ a s, Decidable (C a s)] {l : List A} {s : S}
    (h : checkAlong step (fun a s => decide (C a s)) l s = true) : Along step C l s := by
  induction l generalizing s with
  | nil => trivial
  | cons a l ih =>
    simp only [checkAlong, Bool.and_eq_true, decide_eq_true_eq] at h
    refine ⟨h.1, fun s' hs => ih ?_⟩
    have hall := h.2
    rw [hs] at hall
    exact hall

/-- A run and its conditions, step by step. -/
theorem run_along_cons {C : A → S → Prop} {a : A} {l : List A} {s t s' : S} (hc : C a s) (hs : step a s = some t)
    (h : run step l t = some s' ∧ Along step C l t) : run step (a :: l) s = some s' ∧ Along step C (a :: l) s := by
  refine ⟨Option.bind_eq_some_iff.2 ⟨t, hs, h.1⟩, hc, fun t' ht' => ?_⟩
  obtain rfl : t = t' := Option.some.inj (hs.symm.trans ht')
  exact h.2

theorem Along.and {C C' : A → S → Prop} {l : List A} {s : S} (h : Along step C l s) (h' : Along step C' l s) :
    Along step (fun a s => C a s ∧ C' a s) l s := by
  induction l generalizing s with
  | nil => trivial
  | cons a l ih => exact ⟨⟨h.1, h'.1⟩, fun s' hs => ih (h.2 s' hs) (h'.2 s' hs)⟩

theorem Along.append_left {C : A → S → Prop} {l l' : List A} {s : S} (h : Along step C (l ++ l') s) : Along step C l s := by
  induction l generalizing s with
  | nil => trivial
  | cons a l ih => exact ⟨h.1, fun s' hs => ih (h.2 s' hs)⟩

/-- The condition at one step of the run. -/
theorem Along.at {C : A → S → Prop} {l l' : List A} {a : A} {s t : S} (h : Along step C (l ++ a :: l') s)
    (hr : run step l s = some t) : C a t := by
  induction l generalizing s with
  | nil =>
    obtain rfl : s = t := by simpa [run] using hr
    exact h.1
  | cons b l ih =>
    obtain ⟨u, hu, hrest⟩ := Option.bind_eq_some_iff.1 hr
    exact ih (h.2 u hu) hrest

/-- What holds at the end of a run and of the state before each step that leads to it holds all along. -/
theorem along_of_end {Q : S → Prop} (hback : ∀ a s s', step a s = some s' → Q s' → Q s) {l : List A} {s s' : S}
    (hr : run step l s = some s') (hQ : Q s') : Q s ∧ Along step (fun a s => ∀ s', step a s = some s' → Q s') l s := by
  induction l generalizing s with
  | nil =>
    obtain rfl : s = s' := by simpa [run] using hr
    exact ⟨hQ, trivial⟩
  | cons a l ih =>
    obtain ⟨t, ht, hrest⟩ := Option.bind_eq_some_iff.1 hr
    obtain ⟨hQt, hal⟩ := ih hrest
    refine ⟨hback a s t ht hQt, fun t' ht' => ?_, fun t' ht' => ?_⟩
    all_goals
      obtain rfl : t = t' := Option.some.inj (ht.symm.trans ht')
      assumption

/-- What every step that meets the condition keeps holds after a run along it. -/
theorem run_invariant_along {C : A → S → Prop} {P : S → Prop}
    (hstep : ∀ a s s', C a s → P s → step a s = some s' → P s') {l : List A} {s s' : S} (h : P s)
    (hr : run step l s = some s') (hc : Along step C l s) : P s' := by
  induction l generalizing s with
  | nil =>
    obtain rfl : s = s' := by simpa [run] using hr
    exact h
  | cons a l ih =>
    obtain ⟨t, ht, hrest⟩ := Option.bind_eq_some_iff.1 hr
    exact ih (hstep a s t hc.1 h ht) hrest (hc.2 t ht)

/-- What every step that meets the condition keeps, and gives another condition with it. -/
theorem Along.of_invariant {C C' : A → S → Prop} {P : S → Prop}
    (hstep : ∀ a s s', C a s → P s → step a s = some s' → P s') (hgive : ∀ a s, C a s → P s → C' a s) {l : List A} {s : S}
    (h : P s) (hc : Along step C l s) : Along step C' l s := by
  induction l generalizing s with
  | nil => trivial
  | cons a l ih => exact ⟨hgive a s hc.1 h, fun s' hs => ih (hstep a s s' hc.1 h hs) (hc.2 s' hs)⟩

/-- **A run is simulated by the actions that are kept**, when these keep a relation step by step and the others keep it
alone. -/
theorem run_filter {C : A → S → Prop} {R : S → S → Prop} (keep : A → Bool)
    (hkeep : ∀ a s s' t, keep a = true → C a s → R s t → step a s = some s' → ∃ t', step a t = some t' ∧ R s' t')
    (hskip : ∀ a s s' t, keep a = false → C a s → R s t → step a s = some s' → R s' t) {l : List A} {s s' t : S}
    (h : R s t) (hr : run step l s = some s') (hc : Along step C l s) :
    ∃ t', run step (l.filter keep) t = some t' ∧ R s' t' := by
  induction l generalizing s t with
  | nil =>
    obtain rfl : s = s' := by simpa [run] using hr
    exact ⟨t, rfl, h⟩
  | cons a l ih =>
    obtain ⟨u, hu, hrest⟩ := Option.bind_eq_some_iff.1 hr
    cases hk : keep a with
    | true =>
      obtain ⟨t', ht', hR⟩ := hkeep a s u t hk hc.1 h hu
      obtain ⟨v, hv, hRv⟩ := ih hR hrest (hc.2 u hu)
      refine ⟨v, ?_, hRv⟩
      rw [List.filter_cons_of_pos hk]
      exact Option.bind_eq_some_iff.2 ⟨t', ht', hv⟩
    | false =>
      rw [List.filter_cons_of_neg (by simp [hk])]
      exact ih (hskip a s u t hk hc.1 h hu) hrest (hc.2 u hu)

/-! ## The actions so far -/

/-- The machine that also keeps the actions it has performed. -/
def withHistory (step : A → S → Option S) (a : A) (s : List A × S) : Option (List A × S) :=
  (step a s.2).map fun s' => (s.1 ++ [a], s')

theorem withHistory_eq_some {a : A} {h : List A} {s : S} {t : List A × S} :
    withHistory step a (h, s) = some t ↔ ∃ s', step a s = some s' ∧ t = (h ++ [a], s') := by
  rw [withHistory, Option.map_eq_some_iff]
  exact exists_congr fun s' => and_congr_right fun _ => eq_comm

end Agilex.Lib.Machine
