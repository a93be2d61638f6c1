import Mathlib.Data.Multiset.Range
import Mathlib.Algebra.Order.Group.Multiset
import Mathlib.Logic.Function.Basic
import Mathlib.Order.Defs.LinearOrder

/-!
# Binary heaps in an array

A heap in the first `n` cells of an array `f`, and the two walks that restore its order around a hole: `moveDown` after the
root is replaced, `floatUp` after a cell is appended. The comparison `lt` need not be an order; what is proved of the order
of the heap is about a key that it `Fits` on the elements at hand.

- `bag_moveDown`, `bag_floatUp`: the walks only move elements.
- `DownHole.moveDown`, `UpHole.floatUp`: they restore the order.
- `bag_push`, `Ordered.push`, `bag_pop`, `Ordered.pop`: an element is appended, the root is taken out.
- `Ordered.root`: no key is above that of the root.
-/

namespace Agilex.Lib.MaxHeap

open Function

variable {β γ : Type}

/-- The elements in the first `n` cells. -/
def bag (n : ℕ) (f : ℕ → β) : Multiset β := (Multiset.range n).map f

variable (lt : β → β → Bool)

/-- Moves the hole at `i` down until `tmp` may be put there. -/
def moveDown (n : ℕ) (tmp : β) (f : ℕ → β) (i : ℕ) : ℕ → β :=
  if 2 * i + 1 < n then
    let c := if 2 * i + 2 < n && lt (f (2 * i + 1)) (f (2 * i + 2)) then 2 * i + 2 else 2 * i + 1
    if lt tmp (f c) then moveDown n tmp (update f i (f c)) c else update f i tmp
  else update f i tmp
termination_by n - i
decreasing_by
  have : i < c := by
    simp only [c]
    split <;> omega
  omega

/-- Moves the hole at `i` up until `tmp` may be put there. -/
def floatUp (tmp : β) (f : ℕ → β) (i : ℕ) : ℕ → β :=
  if 0 < i then
    let a := (i - 1) / 2
    if lt (f a) tmp then floatUp tmp (update f i (f a)) a else update f i tmp
  else update f i tmp
termination_by i
decreasing_by omega

/-! ## Elements -/

section
variable {lt} {n i : ℕ} {f : ℕ → β} {x tmp : β}

theorem bag_update (hi : i < n) : f i ::ₘ bag n (update f i x) = x ::ₘ bag n f := by
  have hmem : i ∈ Multiset.range n := Multiset.mem_range.mpr hi
  have hrest : ((Multiset.range n).erase i).map (update f i x) = ((Multiset.range n).erase i).map f := by
    refine Multiset.map_congr rfl fun j hj => update_of_ne ?_ _ _
    exact ((Multiset.nodup_range n).mem_erase_iff.mp hj).1
  unfold bag
  rw [← Multiset.cons_erase hmem, Multiset.map_cons, Multiset.map_cons, hrest, update_self, Multiset.cons_swap]

/-- Two cells exchanged. -/
theorem bag_exchange {c : ℕ} (hi : i < n) (hc : c < n) (hne : c ≠ i) :
    bag n (update (update f i (f c)) c tmp) = bag n (update f i tmp) := by
  have h1 := bag_update (f := update f i (f c)) (x := tmp) hc
  have h2 := bag_update (f := f) (x := f c) hi
  have h3 := bag_update (f := f) (x := tmp) hi
  rw [update_of_ne hne] at h1
  have h : f i ::ₘ f c ::ₘ bag n (update (update f i (f c)) c tmp) = f i ::ₘ f c ::ₘ bag n (update f i tmp) := by
    rw [h1, Multiset.cons_swap, h2, Multiset.cons_swap (f i), h3, Multiset.cons_swap]
  exact (Multiset.cons_inj_right _).mp ((Multiset.cons_inj_right _).mp h)

theorem bag_succ : bag (n + 1) f = f n ::ₘ bag n f := by
  simp [bag, Multiset.range_succ]

theorem bag_congr {g : ℕ → β} (h : ∀ j < n, f j = g j) : bag n f = bag n g :=
  Multiset.map_congr rfl fun j hj => h j (Multiset.mem_range.mp hj)

theorem mem_bag : x ∈ bag n f ↔ ∃ j < n, f j = x := by
  simp [bag]

@[simp] theorem card_bag : (bag n f).card = n := by
  simp [bag]

theorem bag_moveDown (hi : i < n) : bag n (moveDown lt n tmp f i) = bag n (update f i tmp) := by
  fun_induction moveDown lt n tmp f i with
  | case1 f i hl c hlt ih =>
    have hc : i < c ∧ c < n := by
      simp only [c]
      split
      · next h =>
        simp only [Bool.and_eq_true, decide_eq_true_eq] at h
        omega
      · omega
    rw [ih hc.2, bag_exchange hi hc.2 (by omega)]
  | case2 => rfl
  | case3 => rfl

theorem bag_floatUp (hi : i < n) : bag n (floatUp lt tmp f i) = bag n (update f i tmp) := by
  fun_induction floatUp lt tmp f i with
  | case1 f i hpos a hlt ih =>
    have ha : a < i := by simp only [a]; omega
    rw [ih (ha.trans hi), bag_exchange hi (ha.trans hi) (by omega)]
  | case2 => rfl
  | case3 => rfl

/-- An element written behind the others, and moved up. -/
theorem bag_push : bag (n + 1) (floatUp lt x (update f n x) n) = x ::ₘ bag n f := by
  rw [bag_floatUp (Nat.lt_succ_self n), update_idem, bag_succ, update_self,
    bag_congr fun j hj => update_of_ne (by omega) x f]

/-- The last element written over the root, and moved down. -/
theorem bag_pop : f 0 ::ₘ bag n (moveDown lt n (f n) (update f 0 (f n)) 0) = bag (n + 1) f := by
  rcases Nat.eq_zero_or_pos n with rfl | hpos
  · simp [bag]
  · rw [bag_moveDown hpos, update_idem, bag_update hpos, bag_succ]

end

/-! ## Order -/

section
variable [LinearOrder γ] (key : β → γ)

/-- The comparison tells of the keys of these elements, up to equal keys. -/
structure Fits (P : β → Prop) : Prop where
  le_of_lt : ∀ x y, P x → P y → lt x y = true → key x ≤ key y
  le_of_not_lt : ∀ x y, P x → P y → lt x y = false → key y ≤ key x

/-- No key is above that of the cell above it, for cells that satisfy `Q`. -/
def OrderedAt (n : ℕ) (f : ℕ → β) (Q : ℕ → Prop) : Prop :=
  ∀ j, 0 < j → j < n → Q j → key (f j) ≤ key (f ((j - 1) / 2))

/-- No key is above that of the cell above it. -/
def Ordered (n : ℕ) (f : ℕ → β) : Prop := OrderedAt key n f fun _ => True

variable {lt key} {P : β → Prop} {n i : ℕ} {f : ℕ → β} {tmp : β}

/-- **No key is above that of the root.** -/
theorem Ordered.root (h : Ordered key n f) {j : ℕ} (hj : j < n) : key (f j) ≤ key (f 0) := by
  induction j using Nat.strongRecOn with
  | ind j ih =>
    rcases Nat.eq_zero_or_pos j with rfl | hpos
    · exact le_rfl
    · exact (h j hpos hj trivial).trans (ih _ (by omega) (by omega))

/-- With `tmp` in the hole, the order may fail between the hole and the cells below it; these are in order with the cell
above it. -/
structure DownHole (key : β → γ) (n : ℕ) (f : ℕ → β) (i : ℕ) (tmp : β) : Prop where
  others : OrderedAt key n (update f i tmp) fun j => (j - 1) / 2 ≠ i
  across : ∀ j, 0 < j → j < n → (j - 1) / 2 = i → 0 < i → key (f j) ≤ key (f ((i - 1) / 2))

/-- With `tmp` in the hole, the order may fail between the hole and the cell above it. -/
structure UpHole (key : β → γ) (n : ℕ) (f : ℕ → β) (i : ℕ) (tmp : β) : Prop where
  others : OrderedAt key n (update f i tmp) fun j => j ≠ i
  across : ∀ j, 0 < j → j < n → (j - 1) / 2 = i → 0 < i → key (f j) ≤ key (f ((i - 1) / 2))

/-- `moveDown` restores the order. -/
theorem DownHole.moveDown (hf : Fits lt key P) (h : DownHole key n f i tmp) (hi : i < n) (htmp : P tmp)
    (hP : ∀ j < n, P (f j)) : Ordered key n (moveDown lt n tmp f i) := by
  fun_induction MaxHeap.moveDown lt n tmp f i with
  | case1 f i hl c hlt ih =>
    obtain ⟨hic, hcn, hpar, hmax⟩ : i < c ∧ c < n ∧ (c - 1) / 2 = i ∧
        ∀ j, 0 < j → j < n → (j - 1) / 2 = i → key (f j) ≤ key (f c) := by
      simp only [c]
      split
      · next hc =>
        simp only [Bool.and_eq_true, decide_eq_true_eq] at hc
        refine ⟨by omega, hc.1, by omega, fun j hj hjn hp => ?_⟩
        rcases (show j = 2 * i + 1 ∨ j = 2 * i + 2 by omega) with rfl | rfl
        · exact hf.le_of_lt _ _ (hP _ hjn) (hP _ hc.1) hc.2
        · exact le_rfl
      · next hc =>
        refine ⟨by omega, hl, by omega, fun j hj hjn hp => ?_⟩
        rcases (show j = 2 * i + 1 ∨ j = 2 * i + 2 by omega) with rfl | rfl
        · exact le_rfl
        · have : lt (f (2 * i + 1)) (f (2 * i + 2)) = false := by simpa [hjn] using hc
          exact hf.le_of_not_lt _ _ (hP _ hl) (hP _ hjn) this
    have hle := hf.le_of_lt _ _ htmp (hP c hcn) hlt
    refine ih ⟨fun j hj hjn hp => ?_, fun j hj hjn hp _ => ?_⟩ hcn fun j hjn => ?_
    · have hjold := h.others j hj hjn
      by_cases hji : j = i
      · -- the cell of the old hole, below the cell that was above it
        subst hji
        have hpne : (j - 1) / 2 ≠ j := by omega
        rw [update_of_ne (by omega), update_self, update_of_ne (by omega), update_of_ne hpne]
        exact h.across c (by omega) hcn hpar hj
      · by_cases hjc : j = c
        · subst hjc
          rw [update_self, hpar, update_of_ne (by omega), update_self]
          exact hle
        · rw [update_of_ne hjc, update_of_ne hji, update_of_ne hp]
          by_cases hpi : (j - 1) / 2 = i
          · rw [hpi, update_self]
            exact hmax j hj hjn hpi
          · have := hjold hpi
            rw [update_of_ne hji, update_of_ne hpi] at this
            rw [update_of_ne hpi]
            exact this
    · -- the cells below the new hole, and the cell that moved up from it
      have := h.others j hj hjn (by omega)
      rw [update_of_ne (by omega), update_of_ne (by omega), hp] at this
      rw [update_of_ne (by omega), hpar, update_self]
      exact this
    · by_cases hji : j = i
      · subst hji
        rw [update_self]
        exact hP c hcn
      · rw [update_of_ne hji]
        exact hP j hjn
  | case2 f i hl c hlt =>
    intro j hj hjn _
    by_cases hpi : (j - 1) / 2 = i
    · rw [hpi, update_self, update_of_ne (by omega)]
      have hlt : lt tmp (f c) = false := by simpa using hlt
      have hcn : c < n := by
        simp only [c]
        split
        · next hc => simp only [Bool.and_eq_true, decide_eq_true_eq] at hc; exact hc.1
        · exact hl
      refine le_trans ?_ (hf.le_of_not_lt _ _ htmp (hP c hcn) hlt)
      simp only [c]
      split
      · next hc =>
        simp only [Bool.and_eq_true, decide_eq_true_eq] at hc
        rcases (show j = 2 * i + 1 ∨ j = 2 * i + 2 by omega) with rfl | rfl
        · exact hf.le_of_lt _ _ (hP _ hjn) (hP _ hc.1) hc.2
        · exact le_rfl
      · next hc =>
        rcases (show j = 2 * i + 1 ∨ j = 2 * i + 2 by omega) with rfl | rfl
        · exact le_rfl
        · have : lt (f (2 * i + 1)) (f (2 * i + 2)) = false := by simpa [hjn] using hc
          exact hf.le_of_not_lt _ _ (hP _ hl) (hP _ hjn) this
    · exact h.others j hj hjn hpi
  | case3 f i hl =>
    intro j hj hjn _
    exact h.others j hj hjn (by omega)

/-- `floatUp` restores the order. -/
theorem UpHole.floatUp (hf : Fits lt key P) (h : UpHole key n f i tmp) (hi : i < n) (htmp : P tmp)
    (hP : ∀ j < n, j ≠ i → P (f j)) : Ordered key n (floatUp lt tmp f i) := by
  fun_induction MaxHeap.floatUp lt tmp f i with
  | case1 f i hpos a hlt ih =>
    have hai : a < i := by simp only [a]; omega
    have hpa : (i - 1) / 2 = a := rfl
    have hle := hf.le_of_lt _ _ (hP a (hai.trans hi) (by omega)) htmp hlt
    refine ih ⟨fun j hj hjn hja => ?_, fun j hj hjn hp hapos => ?_⟩ (hai.trans hi) fun j hjn hja => ?_
    · by_cases hji : j = i
      · subst hji
        rw [update_of_ne hja, update_self, hpa, update_self]
        exact hle
      · have := h.others j hj hjn hji
        rw [update_of_ne hja, update_of_ne hji]
        by_cases hpi : (j - 1) / 2 = i
        · rw [hpi, update_of_ne (by omega), update_self]
          exact h.across j hj hjn hpi hpos
        · rw [update_of_ne hji, update_of_ne hpi] at this
          by_cases hpa' : (j - 1) / 2 = a
          · rw [hpa', update_self]
            rw [hpa'] at this
            exact this.trans hle
          · rw [update_of_ne hpa', update_of_ne hpi]
            exact this
    · have ha := h.others a hapos (hai.trans hi) (by omega)
      rw [update_of_ne (by omega), update_of_ne (by omega)] at ha
      rw [update_of_ne (show (a - 1) / 2 ≠ i by omega)]
      by_cases hji : j = i
      · subst hji
        rw [update_self]
        exact ha
      · rw [update_of_ne hji]
        have := h.others j hj hjn hji
        rw [update_of_ne hji, update_of_ne (by omega), hp] at this
        exact this.trans ha
    · by_cases hji : j = i
      · subst hji
        rw [update_self]
        exact hP a (hai.trans hi) (by omega)
      · rw [update_of_ne hji]
        exact hP j hjn hji
  | case2 f i hpos a hlt =>
    intro j hj hjn _
    by_cases hji : j = i
    · subst hji
      have hlt : lt (f a) tmp = false := by simpa using hlt
      rw [update_self, update_of_ne (by omega)]
      exact hf.le_of_not_lt _ _ (hP a (by simp only [a]; omega) (by simp only [a]; omega)) htmp hlt
    · exact h.others j hj hjn hji
  | case3 f i hpos =>
    intro j hj hjn _
    exact h.others j hj hjn (by omega)

theorem Ordered.push (hf : Fits lt key P) (h : Ordered key n f) (htmp : P tmp) (hP : ∀ j < n, P (f j)) :
    Ordered key (n + 1) (floatUp lt tmp (update f n tmp) n) := by
  refine UpHole.floatUp hf ⟨fun j hj hjn hne => ?_, fun j hj hjn hp => by omega⟩ (Nat.lt_succ_self n) htmp
    fun j hjn hne => ?_
  · rw [update_idem, update_of_ne hne, update_of_ne (by omega)]
    exact h j hj (by omega) trivial
  · rw [update_of_ne hne]
    exact hP j (by omega)

theorem Ordered.pop (hf : Fits lt key P) (h : Ordered key (n + 1) f) (hP : ∀ j < n + 1, P (f j)) :
    Ordered key n (moveDown lt n (f n) (update f 0 (f n)) 0) := by
  rcases Nat.eq_zero_or_pos n with rfl | hpos
  · exact fun j hj hjn => by omega
  · refine DownHole.moveDown hf ⟨fun j hj hjn hne => ?_, fun j _ _ _ hz => by omega⟩ hpos
      (hP n (Nat.lt_succ_self n)) fun j hjn => ?_
    · rw [update_idem, update_of_ne (by omega), update_of_ne hne]
      exact h j hj (by omega) trivial
    · by_cases hj0 : j = 0
      · rw [hj0, update_self]
        exact hP n (Nat.lt_succ_self n)
      · rw [update_of_ne hj0]
        exact hP j (by omega)

end

end Agilex.Lib.MaxHeap
