import Mathlib.Data.List.Induction
import Mathlib.Data.List.Pairwise
import Mathlib.Data.List.Sort
import Mathlib.Tactic.Linarith
import Mathlib.Tactic.Ring

/-!
# A rate limiter on a lattice of time slots

`limit` lets an element through when its time has reached the due time, and then moves the due time on along the lattice
`t₀ + k * P` started by the first element, beyond the element.

- `due_eq`: after an element the due time is the start of the slot after the one of the last element let through;
- `mem_limit_iff`: of the elements with increasing times, those let through are the first of their slots;
- `limit_apart`: the elements let through are in different slots, so the `n`-th next is more than `n - 1` periods later.
-/

namespace Agilex.Lib.PhaseLimit

variable {A : Type}

/-- The first of `due + k * P` beyond `t`. -/
def advance (due t P : ℤ) : ℤ := due + ((t - due).fdiv P + 1) * P

/-- The limiter on one element: the due time, and what it has let through. -/
def limit (f : A → ℤ) (P : ℤ) (s : Option ℤ × List A) (x : A) : Option ℤ × List A :=
  if s.1.any (f x < ·) then s else (some (advance (s.1.getD (f x)) (f x) P), s.2 ++ [x])

/-- The slot of a time, counted from `t₀`. -/
def slot (t₀ P t : ℤ) : ℤ := (t - t₀).fdiv P

variable {f : A → ℤ} {P t₀ : ℤ}

theorem slot_le (hP : 0 < P) (t : ℤ) : t₀ + slot t₀ P t * P ≤ t := by
  have h := Int.mul_fdiv_add_fmod (t - t₀) P
  have hm := Int.fmod_nonneg_of_pos (t - t₀) hP
  unfold slot
  nlinarith

theorem lt_slot (hP : 0 < P) (t : ℤ) : t < t₀ + (slot t₀ P t + 1) * P := by
  have h := Int.mul_fdiv_add_fmod (t - t₀) P
  have hm := Int.fmod_lt_of_pos (t - t₀) hP
  unfold slot
  nlinarith

/-- The slots are the half-open intervals of the lattice. -/
theorem slot_eq_iff (hP : 0 < P) (t k : ℤ) : slot t₀ P t = k ↔ t₀ + k * P ≤ t ∧ t < t₀ + (k + 1) * P := by
  have h1 : t₀ + slot t₀ P t * P ≤ t := slot_le hP t
  have h2 : t < t₀ + (slot t₀ P t + 1) * P := lt_slot hP t
  constructor
  · rintro rfl
    exact ⟨h1, h2⟩
  · rintro ⟨h3, h4⟩
    have h5 : slot t₀ P t * P < (k + 1) * P := by linarith
    have h6 : k * P < (slot t₀ P t + 1) * P := by linarith
    have h7 := lt_of_mul_lt_mul_right h5 hP.le
    have h8 := lt_of_mul_lt_mul_right h6 hP.le
    omega

/-- From a point of the lattice that has been reached, the due time moves to the end of the slot. -/
theorem advance_eq (hP : 0 < P) (k t : ℤ) : advance (t₀ + k * P) t P = t₀ + (slot t₀ P t + 1) * P := by
  have h : (t - (t₀ + k * P)).fdiv P = slot t₀ P t - k := by
    rw [show t - (t₀ + k * P) = (t - t₀) + (-k) * P by ring, Int.add_mul_fdiv_right _ _ hP.ne']
    unfold slot
    ring
  rw [advance, h]
  ring

/-! ## What is let through -/

/-- Where the limiter stands after the elements `l`: the due time, and the elements let through. -/
structure Limited (f : A → ℤ) (P t₀ : ℤ) (l : List A) (due : ℤ) (kept : List A) : Prop where
  sublist : kept.Sublist l
  first : ∀ x ∈ l, ∃ y ∈ kept, slot t₀ P (f y) = slot t₀ P (f x) ∧ f y ≤ f x
  apart : kept.Pairwise fun x y => slot t₀ P (f x) < slot t₀ P (f y)
  due_eq : ∃ y ∈ kept, due = t₀ + (slot t₀ P (f y) + 1) * P ∧ ∀ x ∈ l, slot t₀ P (f x) ≤ slot t₀ P (f y)

variable {l kept : List A} {due : ℤ}

/-- The first element is let through. -/
theorem Limited.start (hP : 0 < P) (x : A) : Limited f P (f x) [x] (advance (f x) (f x) P) [x] := by
  refine ⟨List.Sublist.refl _, fun y hy => ⟨y, hy, rfl, le_rfl⟩, List.pairwise_singleton _ _, x, by simp, ?_, ?_⟩
  · have h : advance (f x + 0 * P) (f x) P = f x + (slot (f x) P (f x) + 1) * P := advance_eq hP 0 (f x)
    rwa [zero_mul, add_zero] at h
  · intro y hy
    obtain rfl : y = x := by simpa using hy
    exact le_rfl

/-- **An element is refused** when it is in the slot of the last element let through. -/
theorem Limited.refuse (h : Limited f P t₀ l due kept) (hP : 0 < P) {x : A} (hx : ∀ y ∈ l, f y < f x) (hlt : f x < due) :
    Limited f P t₀ (l ++ [x]) due kept := by
  obtain ⟨y, hy, hdue, hall⟩ := h.due_eq
  have hle : f y ≤ f x := (hx y (h.sublist.subset hy)).le
  have hslot : slot t₀ P (f x) = slot t₀ P (f y) := (slot_eq_iff hP _ _).2 ⟨(slot_le hP _).trans hle, hdue ▸ hlt⟩
  refine ⟨h.sublist.trans (List.sublist_append_left l [x]), fun z hz => ?_, h.apart, y, hy, hdue, fun z hz => ?_⟩
  · rcases List.mem_append.1 hz with hz | hz
    · exact h.first z hz
    · obtain rfl : z = x := by simpa using hz
      exact ⟨y, hy, hslot.symm, hle⟩
  · rcases List.mem_append.1 hz with hz | hz
    · exact hall z hz
    · obtain rfl : z = x := by simpa using hz
      exact hslot.le

/-- **An element is let through** when it is in a later slot. -/
theorem Limited.accept (h : Limited f P t₀ l due kept) (hP : 0 < P) {x : A} (hle : due ≤ f x) :
    Limited f P t₀ (l ++ [x]) (advance due (f x) P) (kept ++ [x]) := by
  obtain ⟨y, hy, rfl, hall⟩ := h.due_eq
  have hlater : slot t₀ P (f y) < slot t₀ P (f x) := by
    by_contra hlt
    have hend : f x < t₀ + (slot t₀ P (f x) + 1) * P := lt_slot hP (f x)
    have hmul : (slot t₀ P (f x) + 1) * P ≤ (slot t₀ P (f y) + 1) * P := mul_le_mul_of_nonneg_right (by omega) hP.le
    omega
  have hslot : ∀ z ∈ l, slot t₀ P (f z) < slot t₀ P (f x) := fun z hz => (hall z hz).trans_lt hlater
  refine ⟨h.sublist.append (List.Sublist.refl [x]), fun z hz => ?_, ?_, x, by simp, advance_eq hP _ (f x), fun z hz => ?_⟩
  · rcases List.mem_append.1 hz with hz | hz
    · obtain ⟨w, hw, hwz⟩ := h.first z hz
      exact ⟨w, List.mem_append_left _ hw, hwz⟩
    · obtain rfl : z = x := by simpa using hz
      exact ⟨z, by simp, rfl, le_rfl⟩
  · refine List.pairwise_append.2 ⟨h.apart, List.pairwise_singleton _ _, fun w hw z hz => ?_⟩
    obtain rfl : z = x := by simpa using hz
    exact hslot w (h.sublist.subset hw)
  · rcases List.mem_append.1 hz with hz | hz
    · exact (hslot z hz).le
    · obtain rfl : z = x := by simpa using hz
      exact le_rfl

/-- The limiter on elements of increasing times. -/
theorem limited_foldl (hP : 0 < P) {x₀ : A} {l : List A} (hl : (x₀ :: l).Pairwise fun x y => f x < f y) :
    ∃ due kept, (x₀ :: l).foldl (limit f P) (none, []) = (some due, kept) ∧ Limited f P (f x₀) (x₀ :: l) due kept := by
  induction l using List.reverseRecOn with
  | nil => exact ⟨_, _, rfl, Limited.start hP x₀⟩
  | append_singleton l x ih =>
    rw [← List.cons_append] at hl ⊢
    obtain ⟨hl', -, hx⟩ := List.pairwise_append.1 hl
    obtain ⟨due, kept, hfold, h⟩ := ih hl'
    rw [List.foldl_append, hfold, List.foldl_cons, List.foldl_nil]
    by_cases hlt : f x < due
    · refine ⟨due, kept, ?_, h.refuse hP (fun y hy => hx y hy x (by simp)) hlt⟩
      simp [limit, hlt]
    · refine ⟨advance due (f x) P, kept ++ [x], ?_, h.accept hP (not_lt.1 hlt)⟩
      simp [limit, hlt]

/-- **An element is let through iff it is the first of its slot.** -/
theorem mem_limit_iff (hP : 0 < P) {x₀ x : A} {l l₁ l₂ : List A} (hl : (x₀ :: l).Pairwise fun x y => f x < f y)
    (hx : x₀ :: l = l₁ ++ x :: l₂) : x ∈ ((x₀ :: l).foldl (limit f P) (none, [])).2 ↔
      ∀ y ∈ l₁, slot (f x₀) P (f y) ≠ slot (f x₀) P (f x) := by
  obtain ⟨due, kept, hfold, h⟩ := limited_foldl hP hl
  rw [hfold]
  rw [hx] at hl h
  obtain ⟨-, hafter, hbefore⟩ := List.pairwise_append.1 hl
  have hmem : x ∈ l₁ ++ x :: l₂ := by simp
  constructor
  · intro hk y hy heq
    obtain ⟨z, hz, hslot, hle⟩ := h.first y (by simp [hy])
    have hlt : f z < f x := hle.trans_lt (hbefore y hy x (by simp))
    have hzx : z ≠ x := fun hzx => by rw [hzx] at hlt; exact lt_irrefl _ hlt
    have hsymm : Std.Symm fun x y => slot (f x₀) P (f x) ≠ slot (f x₀) P (f y) := ⟨fun _ _ h => h.symm⟩
    exact (h.apart.imp fun h => h.ne).forall hz hk hzx (hslot.trans heq)
  · intro hfirst
    obtain ⟨z, hz, hslot, hle⟩ := h.first x hmem
    rcases List.mem_append.1 (h.sublist.subset hz) with hz' | hz'
    · exact absurd hslot (hfirst z hz')
    · rcases List.mem_cons.1 hz' with rfl | hz'
      · exact hz
      · have := (List.pairwise_cons.1 hafter).1 z hz'
        omega

theorem pairwise_getElem? {R : A → A → Prop} {l : List A} (h : l.Pairwise R) {i j : ℕ} (hij : i < j) {x y : A}
    (hx : l[i]? = some x) (hy : l[j]? = some y) : R x y := by
  obtain ⟨hi, rfl⟩ := List.getElem?_eq_some_iff.1 hx
  obtain ⟨hj, rfl⟩ := List.getElem?_eq_some_iff.1 hy
  exact List.pairwise_iff_getElem.1 h i j hi hj hij

/-- **Elements in different slots are apart**: the one `n` places on is more than `n - 1` periods later. -/
theorem limit_apart (hP : 0 < P) {l : List A} (h : l.Pairwise fun x y => slot t₀ P (f x) < slot t₀ P (f y)) {i j : ℕ}
    (hij : i < j) {x y : A} (hx : l[i]? = some x) (hy : l[j]? = some y) : ((j : ℤ) - i - 1) * P < f y - f x := by
  have hslots : ∀ (n : ℕ) z, l[i + 1 + n]? = some z → slot t₀ P (f x) + n + 1 ≤ slot t₀ P (f z) := by
    intro n
    induction n with
    | zero =>
      intro z hz
      have := pairwise_getElem? h (Nat.lt_succ_self i) hx hz
      omega
    | succ n ih =>
      intro z hz
      obtain ⟨hn, -⟩ := List.getElem?_eq_some_iff.1 hz
      have hw : l[i + 1 + n]? = some l[i + 1 + n] := List.getElem?_eq_getElem (by omega)
      have := ih _ hw
      have := pairwise_getElem? h (by omega) hw hz
      push_cast
      omega
  obtain ⟨n, rfl⟩ : ∃ n, j = i + 1 + n := ⟨j - i - 1, by omega⟩
  have hs := hslots n y hy
  have h1 : f x < t₀ + (slot t₀ P (f x) + 1) * P := lt_slot hP (f x)
  have h2 : t₀ + slot t₀ P (f y) * P ≤ f y := slot_le hP (f y)
  have h3 : (slot t₀ P (f x) + n + 1) * P ≤ slot t₀ P (f y) * P := mul_le_mul_of_nonneg_right hs hP.le
  push_cast
  linarith

end Agilex.Lib.PhaseLimit
