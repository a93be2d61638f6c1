import Mathlib.Data.Nat.Notation

/-!
# Computations that list what they access

`Traced E α` is a computation that may fault, with the list of its accesses to some memory, those of a computation that
faults included. `All P` says that every access meets `P`:

- `all_bind` is the rule of a sequence: the first part, and the second where the first gives a value;
- `bind_congr_of_all` compares two computations on memories that agree where `P` holds.
-/

namespace Agilex.Lib

/-- A computation with its accesses; no result when it faults. -/
structure Traced (E α : Type) where
  accesses : List E
  result : Option α

namespace Traced

variable {E α β : Type} {P : E → Prop}

protected def pure (a : α) : Traced E α := ⟨[], some a⟩

/-- The second computation runs on the result of the first, unless that faults. -/
protected def bind (x : Traced E α) (f : α → Traced E β) : Traced E β :=
  match x.result with
  | none => ⟨x.accesses, none⟩
  | some a => ⟨x.accesses ++ (f a).accesses, (f a).result⟩

instance : Monad (Traced E) where
  pure := Traced.pure
  bind := Traced.bind

/-- Every access meets `P`. -/
def All (P : E → Prop) (x : Traced E α) : Prop := ∀ e ∈ x.accesses, P e

@[simp] theorem result_pure (a : α) : (pure a : Traced E α).result = some a := rfl

@[simp] theorem all_pure (a : α) : (pure a : Traced E α).All P := fun _ h => nomatch h

@[simp] theorem result_bind (x : Traced E α) (f : α → Traced E β) :
    (x >>= f).result = x.result.bind fun a => (f a).result := by
  change (Traced.bind x f).result = _
  unfold Traced.bind
  cases x.result <;> rfl

/-- A sequence whose first part gives `a`. -/
theorem bind_of_result {x : Traced E α} {a : α} (h : x.result = some a) (f : α → Traced E β) :
    x >>= f = ⟨x.accesses ++ (f a).accesses, (f a).result⟩ := by
  change Traced.bind x f = _
  unfold Traced.bind
  rw [h]

/-- **The accesses of a sequence.** -/
theorem all_bind {x : Traced E α} {f : α → Traced E β} :
    (x >>= f).All P ↔ x.All P ∧ ∀ a, x.result = some a → (f a).All P := by
  cases h : x.result with
  | none =>
    have hbind : x >>= f = ⟨x.accesses, none⟩ := by
      change Traced.bind x f = _
      unfold Traced.bind
      rw [h]
    rw [hbind]
    simp [All]
  | some a =>
    rw [bind_of_result h]
    simp only [All, List.mem_append, Option.some.injEq, forall_eq']
    constructor
    · exact fun hall => ⟨fun e he => hall e (Or.inl he), fun e he => hall e (Or.inr he)⟩
    · exact fun hall e he => he.elim (hall.1 e) (hall.2 e)

/-- Two sequences that agree as long as the accesses meet `P`. -/
theorem bind_congr_of_all {x y : Traced E α} {f g : α → Traced E β} (h : (x >>= f).All P) (hx : x.All P → x = y)
    (hf : ∀ a, x.result = some a → (f a).All P → f a = g a) : x >>= f = y >>= g := by
  obtain ⟨hall, hrest⟩ := all_bind.1 h
  obtain rfl := hx hall
  change Traced.bind x f = Traced.bind x g
  unfold Traced.bind
  cases hr : x.result with
  | none => rfl
  | some a => simp only [hf a hr (hrest a hr)]

end Traced

end Agilex.Lib
