import Mathlib.Data.List.Basic
import Mathlib.Data.List.Sort
import Mathlib.Logic.Function.Basic

/-!
# Masks, index arrays and scattered writes

Operations on arrays that share their positions:

- `compress mask l` keeps the entries of `l` where the mask is set, `gather order l` takes the entries at the positions of
  `order`; both commute with `List.map`, so arrays computed from one list stay aligned (`compress_map`, `gather_map`);
- `Argsort` is an index array that sorts, whatever it does with equal keys;
- `scatter base l` writes the pairs of `l` one after the other, so that the last write to an index stays; written in
  descending order of a key, that is the value of the least key (`scatter_least`).
-/

namespace Agilex.Lib

variable {α β I V K : Type}

/-! ## Masks -/

/-- `l[mask]`, for a mask as long as the list. -/
def compress : List Bool → List α → List α
  | true :: mask, a :: l => a :: compress mask l
  | false :: mask, _ :: l => compress mask l
  | _, _ => []

/-- A mask computed from the entries. -/
theorem compress_map (p : α → Bool) (f : α → β) (l : List α) : compress (l.map p) (l.map f) = (l.filter p).map f := by
  induction l with
  | nil => rfl
  | cons a l ih =>
    cases h : p a with
    | true =>
      rw [List.filter_cons_of_pos h, List.map_cons, List.map_cons, List.map_cons, h]
      exact congrArg (f a :: ·) ih
    | false =>
      rw [List.filter_cons_of_neg (by simp [h]), List.map_cons, List.map_cons, h]
      exact ih

/-! ## Index arrays -/

/-- `l[order]`. -/
def gather (order : List ℕ) (l : List α) : List α := order.filterMap fun i => l[i]?

theorem gather_map (order : List ℕ) (f : α → β) (l : List α) : gather order (l.map f) = (gather order l).map f := by
  unfold gather
  rw [List.map_filterMap]
  refine List.filterMap_congr fun i _ => ?_
  exact List.getElem?_map

theorem gather_reverse (order : List ℕ) (l : List α) : gather order.reverse l = (gather order l).reverse :=
  List.filterMap_reverse

theorem gather_range (l : List α) : gather (List.range l.length) l = l := by
  induction l with
  | nil => rfl
  | cons a l ih =>
    have hfirst : (fun i => (a :: l)[i]?) 0 = some a := rfl
    unfold gather at ih ⊢
    rw [List.length_cons, List.range_succ_eq_map, List.filterMap_cons_some hfirst, List.filterMap_map]
    exact congrArg (a :: ·) ih

/-- A permutation of the positions takes each entry once. -/
theorem gather_perm {order : List ℕ} {l : List α} (h : order.Perm (List.range l.length)) : (gather order l).Perm l := by
  have hperm := h.filterMap fun i => l[i]?
  rwa [show (List.range l.length).filterMap (fun i => l[i]?) = l from gather_range l] at hperm

/-- A function that gives positions in ascending order of the entries: a permutation, with any order among equal entries. -/
structure Argsort (K : Type) [LE K] where
  order : List K → List ℕ
  perm : ∀ l, (order l).Perm (List.range l.length)
  sorted : ∀ l, (gather (order l) l).Pairwise (· ≤ ·)

/-- Positions are taken where the entries are. -/
theorem gather_positions {order : List (K × ℕ)} {l : List K} (h : ∀ p ∈ order, l[p.2]? = some p.1) :
    gather (order.map Prod.snd) l = order.map Prod.fst := by
  induction order with
  | nil => rfl
  | cons p order ih =>
    have hrest := ih fun q hq => h q (List.mem_cons_of_mem _ hq)
    unfold gather at hrest ⊢
    rw [List.map_cons, List.filterMap_cons_some (h p List.mem_cons_self), hrest, List.map_cons]

/-- Sorting the entries with their positions. -/
def Argsort.stable [LinearOrder K] : Argsort K where
  order l := (l.zipIdx.insertionSort fun p q => p.1 ≤ q.1).map Prod.snd
  perm l := by
    have hperm := (List.perm_insertionSort (fun p q : K × ℕ => p.1 ≤ q.1) l.zipIdx).map Prod.snd
    rwa [List.zipIdx_map_snd, ← List.range_eq_range'] at hperm
  sorted l := by
    have htotal : Std.Total fun p q : K × ℕ => p.1 ≤ q.1 := ⟨fun p q => le_total p.1 q.1⟩
    have htrans : IsTrans (K × ℕ) fun p q => p.1 ≤ q.1 := ⟨fun _ _ _ => le_trans⟩
    rw [gather_positions]
    · exact List.pairwise_map.mpr (List.pairwise_insertionSort (fun p q : K × ℕ => p.1 ≤ q.1) l.zipIdx)
    · intro p hp
      have hmem := (List.perm_insertionSort (fun p q : K × ℕ => p.1 ≤ q.1) l.zipIdx).mem_iff.mp hp
      exact List.mem_zipIdx_iff_getElem?.mp hmem

/-! ## Scattered writes -/

section Scatter

variable [DecidableEq I]

/-- The pairs of a list are written one after the other. -/
def scatter (base : I → V) : List (I × V) → I → V
  | [] => base
  | (i, v) :: l => scatter (Function.update base i v) l

/-- An index that is not written keeps its value. -/
theorem scatter_of_not_mem {i : I} {l : List (I × V)} (h : i ∉ l.map Prod.fst) (base : I → V) :
    scatter base l i = base i := by
  induction l generalizing base with
  | nil => rfl
  | cons p l ih =>
    rw [List.map_cons, List.mem_cons, not_or] at h
    exact (ih h.2 _).trans (Function.update_of_ne h.1 _ _)

/-- **The least key stays.** Values `f k` are written at indices in descending order of their keys `k`. -/
theorem scatter_least [LinearOrder K] (f : K → V) {l : List (I × K)} (hsorted : l.Pairwise fun p q => q.2 ≤ p.2) {i : I}
    (hi : i ∈ l.map Prod.fst) (base : I → V) :
    ∃ k, (i, k) ∈ l ∧ (∀ k', (i, k') ∈ l → k ≤ k') ∧ scatter base (l.map (Prod.map id f)) i = f k := by
  induction l generalizing base with
  | nil => cases hi
  | cons p l ih =>
    obtain ⟨j, k₀⟩ := p
    obtain ⟨hfirst, hrest⟩ := List.pairwise_cons.mp hsorted
    by_cases hl : i ∈ l.map Prod.fst
    · obtain ⟨k, hk, hmin, hvalue⟩ := ih hrest hl (Function.update base j (f k₀))
      refine ⟨k, List.mem_cons_of_mem _ hk, fun k' hk' => ?_, hvalue⟩
      rcases List.mem_cons.mp hk' with he | hk'
      · have hk₀ : k' = k₀ := congrArg Prod.snd he
        rw [hk₀]
        exact hfirst (i, k) hk
      · exact hmin k' hk'
    · have hj : i = j := (List.mem_cons.mp hi).resolve_right hl
      subst hj
      have hnot : i ∉ (l.map (Prod.map id f)).map Prod.fst := by
        rw [List.map_map]
        exact hl
      refine ⟨k₀, List.mem_cons_self, fun k' hk' => ?_, ?_⟩
      · rcases List.mem_cons.mp hk' with he | hk'
        · exact (congrArg Prod.snd he).symm.le
        · exact absurd (List.mem_map_of_mem hk') hl
      · refine (scatter_of_not_mem hnot _).trans ?_
        exact Function.update_self i (f k₀) base

end Scatter

end Agilex.Lib
