import Mathlib.Data.List.Basic

/-!
# Programs with a state and exceptions

A program is an `EStateM ε σ α`: from a state it returns a value or raises an exception, and an exception undoes nothing of
what was done before it. `Triple P m Q E` says that `m`, started in a state of `P`, returns in `Q` or raises in `E`.

- one rule for each way programs are put together: `pure`, `throw`, `update`, `bind`, `tryCatch`;
- `conseq` weakens a triple;
- `bind_of_ok` and the like run a program whose first part is known to return, or to raise.
-/

namespace Agilex.Lib

variable {ε σ α β : Type}

/-! ## Runs -/

section

variable {m : EStateM ε σ α} {s t : σ} {a : α} {e : ε}

theorem bind_of_ok {f : α → EStateM ε σ β} (h : m s = .ok a t) : (m >>= f) s = f a t := by
  show EStateM.bind m f s = _
  unfold EStateM.bind
  rw [h]

theorem bind_of_error {f : α → EStateM ε σ β} (h : m s = .error e t) : (m >>= f) s = .error e t := by
  show EStateM.bind m f s = _
  unfold EStateM.bind
  rw [h]

theorem tryCatch_of_ok {handle : ε → EStateM ε σ α} (h : m s = .ok a t) : MonadExcept.tryCatch m handle s = .ok a t := by
  show EStateM.tryCatch m handle s = _
  unfold EStateM.tryCatch
  rw [h]

/-- A handler starts where the program raised. -/
theorem tryCatch_of_error {handle : ε → EStateM ε σ α} (h : m s = .error e t) :
    MonadExcept.tryCatch m handle s = handle e t := by
  show EStateM.tryCatch m handle s = _
  unfold EStateM.tryCatch
  rw [h]
  rfl

end

/-! ## Triples -/

/-- Started in `P`, the program returns in `Q` or raises in `E`. -/
def Triple (P : σ → Prop) (m : EStateM ε σ α) (Q : α → σ → Prop) (E : ε → σ → Prop) : Prop :=
  ∀ s, P s → match m s with
    | .ok a s' => Q a s'
    | .error e s' => E e s'

namespace Triple

variable {P : σ → Prop} {Q : α → σ → Prop} {E : ε → σ → Prop}

theorem pure {a : α} (h : ∀ s, P s → Q a s) : Triple P (Pure.pure a : EStateM ε σ α) Q E := h

theorem throw {e : ε} (h : ∀ s, P s → E e s) : Triple P (MonadExcept.throw e : EStateM ε σ α) Q E := h

theorem update {f : σ → σ} {Q : PUnit → σ → Prop} (h : ∀ s, P s → Q ⟨⟩ (f s)) :
    Triple P (modify f : EStateM ε σ PUnit) Q E := h

/-- Two programs one after the other. -/
theorem bind {m : EStateM ε σ α} {f : α → EStateM ε σ β} {R : α → σ → Prop} {Q : β → σ → Prop} (hm : Triple P m R E)
    (hf : ∀ a, Triple (R a) (f a) Q E) : Triple P (m >>= f) Q E := by
  intro s hs
  have h := hm s hs
  cases hms : m s with
  | ok a t =>
    rw [hms] at h
    rw [bind_of_ok hms]
    exact hf a t h
  | error e t =>
    rw [hms] at h
    rw [bind_of_error hms]
    exact h

/-- A handler takes over where the program raises. -/
theorem tryCatch {m : EStateM ε σ α} {handle : ε → EStateM ε σ α} {F : ε → σ → Prop} (hm : Triple P m Q F)
    (hh : ∀ e, Triple (F e) (handle e) Q E) : Triple P (MonadExcept.tryCatch m handle) Q E := by
  intro s hs
  have h := hm s hs
  cases hms : m s with
  | ok a t =>
    rw [hms] at h
    rw [tryCatch_of_ok hms]
    exact h
  | error e t =>
    rw [hms] at h
    rw [tryCatch_of_error hms]
    exact hh e t h

/-- A fact about the values at hand may be assumed. -/
theorem assume {p : Prop} {m : EStateM ε σ α} (h : p → Triple P m Q E) : Triple (fun s => p ∧ P s) m Q E :=
  fun s hs => h hs.1 s hs.2

/-- A weaker triple. -/
theorem conseq {m : EStateM ε σ α} {P' : σ → Prop} {Q' : α → σ → Prop} {E' : ε → σ → Prop} (h : Triple P' m Q' E')
    (hP : ∀ s, P s → P' s) (hQ : ∀ a s, Q' a s → Q a s) (hE : ∀ e s, E' e s → E e s) : Triple P m Q E := by
  intro s hs
  have h := h s (hP s hs)
  cases hms : m s with
  | ok a t =>
    rw [hms] at h
    exact hQ a t h
  | error e t =>
    rw [hms] at h
    exact hE e t h

end Triple

end Agilex.Lib
