import Mathlib.Data.List.Induction

/-!
# Stateful computations that may raise

The outcome of a computation is the state it ends in, or the exception it raised together with the state it left behind
(`Except (ε × σ) σ`): an exception does not undo what was done before it. Sequences of calls are run in two ways:

- `run` stops at the first exception, so `run cs s = .ok s'` says that no call raised (`run_ok`);
- `runAll` goes on from the state left behind (`runAll_invariant`), and agrees with `run` when nothing is raised
  (`runAll_of_run`) and up to the first exception (`final_run`).

`run_invariant` and `run_induction` are the induction rules of a run.
-/

namespace Agilex.Lib

/-- A sequence of two computations succeeds iff both do. -/
theorem bind_ok {α β γ : Type} {x : Except α β} {f : β → Except α γ} {r : γ} :
    (x >>= f) = .ok r ↔ ∃ a, x = .ok a ∧ f a = .ok r := by
  cases x with
  | error e => simp [bind, Except.bind]
  | ok a => simp [bind, Except.bind]

/-- A value computed from a result shows that there is one. -/
theorem ok_of_toOption {ε α β : Type} {x : Except ε α} {f : α → β} {b : β} (h : x.toOption.map f = some b) :
    ∃ a, x = .ok a ∧ f a = b := by
  cases x with
  | error e => cases h
  | ok a => exact ⟨a, rfl, Option.some.inj h⟩

namespace Outcome

variable {ε σ κ : Type}

/-- The state reached, whether or not an exception was raised. -/
def final : Except (ε × σ) σ → σ
  | .ok s => s
  | .error (_, s) => s

@[simp] theorem final_ok (s : σ) : final (.ok s : Except (ε × σ) σ) = s := rfl

@[simp] theorem final_error (e : ε) (s : σ) : final (.error (e, s) : Except (ε × σ) σ) = s := rfl

/-- A property of the state reached by a sequence of two computations. -/
theorem final_bind {P : σ → Prop} {x : Except (ε × σ) σ} {f : σ → Except (ε × σ) σ} (hx : P (final x))
    (hf : ∀ s, P s → P (final (f s))) : P (final (x >>= f)) := by
  cases x with
  | error e => exact hx
  | ok s => exact hf s hx

/-! ## Runs -/

variable (exec : κ → σ → Except (ε × σ) σ)

/-- The calls one after the other, up to the first exception. -/
def run : List κ → σ → Except (ε × σ) σ
  | [], s => .ok s
  | c :: cs, s => exec c s >>= run cs

/-- The calls one after the other, each from the state the one before left, raised or not. -/
def runAll : List κ → σ → σ
  | [], s => s
  | c :: cs, s => runAll cs (final (exec c s))

variable {exec}

theorem run_cons_ok {c : κ} {cs : List κ} {s s' : σ} (h : run exec (c :: cs) s = .ok s') :
    ∃ t, exec c s = .ok t ∧ run exec cs t = .ok s' := bind_ok.1 h

theorem run_append_ok {cs ds : List κ} {s s' : σ} :
    run exec (cs ++ ds) s = .ok s' ↔ ∃ t, run exec cs s = .ok t ∧ run exec ds t = .ok s' := by
  induction cs generalizing s with
  | nil => simp [run]
  | cons c cs ih =>
    simp only [List.cons_append, run, bind_ok, ih]
    constructor
    · rintro ⟨t, ht, u, hu, h⟩; exact ⟨u, ⟨t, ht, hu⟩, h⟩
    · rintro ⟨u, ⟨t, ht, hu⟩, h⟩; exact ⟨t, ht, u, hu, h⟩

/-- A run that raises nothing ends where `runAll` does. -/
theorem runAll_of_run {cs : List κ} {s s' : σ} (h : run exec cs s = .ok s') : runAll exec cs s = s' := by
  induction cs generalizing s with
  | nil => simp only [run, Except.ok.injEq] at h; exact h
  | cons c cs ih =>
    obtain ⟨t, ht, hr⟩ := run_cons_ok h
    simp only [runAll, ht, final_ok]
    exact ih hr

theorem runAll_append (cs ds : List κ) (s : σ) : runAll exec (cs ++ ds) s = runAll exec ds (runAll exec cs s) := by
  induction cs generalizing s with
  | nil => rfl
  | cons c cs ih => exact ih (final (exec c s))

/-- What every call keeps, raised or not, holds after every run. -/
theorem runAll_invariant {P : σ → Prop} (hstep : ∀ c s, P s → P (final (exec c s))) (cs : List κ) {s : σ} (h : P s) :
    P (runAll exec cs s) := by
  induction cs generalizing s with
  | nil => exact h
  | cons c cs ih => exact ih (hstep c s h)

/-- A run up to the first exception ends where `runAll` of its first calls does. -/
theorem final_run (cs : List κ) (s : σ) : ∃ pre, pre <+: cs ∧ final (run exec cs s) = runAll exec pre s := by
  induction cs generalizing s with
  | nil => exact ⟨[], List.prefix_refl _, rfl⟩
  | cons c cs ih =>
    rw [run]
    cases hc : exec c s with
    | error err => exact ⟨[c], ⟨cs, rfl⟩, by simp only [runAll, hc]; rfl⟩
    | ok t =>
      obtain ⟨pre, hpre, h⟩ := ih t
      exact ⟨c :: pre, List.cons_prefix_cons.2 ⟨rfl, hpre⟩, by simp only [runAll, hc]; exact h⟩

/-- What the calls that raise nothing keep, and what a call makes of it in any case, at the end of a run up to the first
exception. -/
theorem final_run_rule {P Q : σ → Prop} (hok : ∀ c s s', P s → exec c s = .ok s' → P s')
    (hfinal : ∀ c s, P s → Q (final (exec c s))) (hPQ : ∀ s, P s → Q s) (cs : List κ) {s : σ} (h : P s) :
    Q (final (run exec cs s)) := by
  induction cs generalizing s with
  | nil => exact hPQ s h
  | cons c cs ih =>
    rw [run]
    cases hc : exec c s with
    | error err =>
      have := hfinal c s h
      rwa [hc] at this
    | ok t => exact ih (hok c s t h hc)

/-- Induction on a run that raises nothing, from its beginning. -/
theorem run_induction {P : List κ → σ → Prop} {s₀ : σ} (h0 : P [] s₀)
    (hstep : ∀ cs s c s', run exec cs s₀ = .ok s → P cs s → exec c s = .ok s' → P (cs ++ [c]) s') (cs : List κ) {s : σ}
    (hr : run exec cs s₀ = .ok s) : P cs s := by
  induction cs using List.reverseRecOn generalizing s with
  | nil => simp only [run, Except.ok.injEq] at hr; exact hr ▸ h0
  | append_singleton cs c ih =>
    obtain ⟨t, ht, hc⟩ := run_append_ok.1 hr
    obtain ⟨u, hu, hr'⟩ := run_cons_ok hc
    simp only [run, Except.ok.injEq] at hr'
    exact hstep cs t c s ht (ih ht) (hr' ▸ hu)

end Outcome

end Agilex.Lib
