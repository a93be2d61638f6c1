import Mathlib.Data.List.Sort
import Mathlib.Order.Basic

/-!
# Stable sorting and merging by a key

- `insertionSort_filter`: sorting by a key keeps the order of the elements a filter selects;
- `merge`: two lists merged by a key, elements of the first list before equal ones of the second (`mergeSides_ordered`);
- `merge_filter_left`, `merge_filter_right`: what only one of the lists has stands in the merge as in that list.
-/

namespace Agilex.Lib.StableMerge

variable {A B K : Type} [LinearOrder K] {key : A → K}

/-! ## Sorting -/

/-- The elements in the order of the key, equal ones in the order of the list. -/
def sort (key : A → K) (l : List A) : List A := l.insertionSort fun a b => key a ≤ key b

theorem sort_perm (l : List A) : (sort key l).Perm l := List.perm_insertionSort _ l

theorem sort_sorted (l : List A) : (sort key l).Pairwise fun a b => key a ≤ key b := by
  have htotal : Std.Total fun a b : A => key a ≤ key b := ⟨fun a b => le_total (key a) (key b)⟩
  have htrans : IsTrans A fun a b => key a ≤ key b := ⟨fun a b c => le_trans⟩
  exact List.pairwise_insertionSort _ l

theorem sort_of_sorted {l : List A} (h : l.Pairwise fun a b => key a ≤ key b) : sort key l = l := h.insertionSort_eq

theorem sort_cons (a : A) (l : List A) : sort key (a :: l) = (sort key l).orderedInsert (fun a b => key a ≤ key b) a := rfl

theorem sort_map (f : B → A) (l : List B) : sort key (l.map f) = (sort (key ∘ f) l).map f :=
  (List.map_insertionSort _ (fun a b => key a ≤ key b) f l fun _ _ _ _ => Iff.rfl).symm

/-- Inserting into a sorted list and selecting. -/
theorem orderedInsert_filter (p : A → Bool) (a : A) {l : List A} (h : l.Pairwise fun a b => key a ≤ key b) :
    (l.orderedInsert (fun a b => key a ≤ key b) a).filter p =
      if p a then (l.filter p).orderedInsert (fun a b => key a ≤ key b) a else l.filter p := by
  induction l with
  | nil => simp [List.filter_cons]
  | cons b l ih =>
    obtain ⟨hb, hl⟩ := List.pairwise_cons.1 h
    by_cases hab : key a ≤ key b
    · -- all selected elements come after the new one
      have hall : ∀ x ∈ (b :: l).filter p, key a ≤ key x := by
        intro x hx
        rcases List.mem_cons.1 (List.mem_of_mem_filter hx) with rfl | hx
        · exact hab
        · exact hab.trans (hb x hx)
      rw [List.orderedInsert_cons_of_le _ l hab, List.filter_cons]
      split
      · cases hf : (b :: l).filter p with
        | nil => rfl
        | cons x xs =>
          rw [hf] at hall
          exact (List.orderedInsert_cons_of_le _ xs (hall x List.mem_cons_self)).symm
      · rfl
    · rw [List.orderedInsert_of_not_le _ l hab, List.filter_cons, ih hl, List.filter_cons]
      by_cases hpa : p a <;> by_cases hpb : p b
      · simp only [hpa, hpb, if_true]
        exact (List.orderedInsert_of_not_le (fun a b => key a ≤ key b) (l.filter p) hab).symm
      · simp [hpa, hpb]
      · simp [hpa, hpb]
      · simp [hpa, hpb]

/-- **Sorting keeps the order of what a filter selects.** -/
theorem sort_filter (p : A → Bool) (l : List A) : (sort key l).filter p = sort key (l.filter p) := by
  induction l with
  | nil => rfl
  | cons a l ih =>
    rw [sort_cons, orderedInsert_filter p a (sort_sorted l), ih, List.filter_cons]
    split <;> rfl

/-! ## Merging -/

/-- Two lists merged by the key, elements of the first before equal ones of the second. -/
def merge (key : A → K) (l r : List A) : List A := l.merge r fun a b => key a ≤ key b

@[simp] theorem merge_nil_left (r : List A) : merge key [] r = r := List.nil_merge r

@[simp] theorem merge_nil_right (l : List A) : merge key l [] = l := List.merge_right l

theorem merge_cons_cons (a b : A) (l r : List A) :
    merge key (a :: l) (b :: r) = if key a ≤ key b then a :: merge key l (b :: r) else b :: merge key (a :: l) r := by
  rw [merge, List.cons_merge_cons]
  simp only [decide_eq_true_eq]
  rfl

theorem merge_perm (l r : List A) : (merge key l r).Perm (l ++ r) := List.merge_perm_append _

theorem mem_merge {l r : List A} {x : A} : x ∈ merge key l r ↔ x ∈ l ∨ x ∈ r := List.mem_merge

theorem merge_map (f : B → A) (l r : List B) : (merge (key ∘ f) l r).map f = merge key (l.map f) (r.map f) :=
  List.map_merge fun _ _ _ _ => rfl

/-- What only the first list has stands in the merge as in that list. -/
theorem merge_filterMap_left (f : A → Option B) {l r : List A} (h : ∀ x ∈ r, f x = none) :
    (merge key l r).filterMap f = l.filterMap f := by
  induction l generalizing r with
  | nil =>
    rw [merge_nil_left]
    exact List.filterMap_eq_nil_iff.2 h
  | cons a l ihl =>
    induction r with
    | nil => rw [merge_nil_right]
    | cons b r ihr =>
      rw [merge_cons_cons]
      split
      · rw [List.filterMap_cons, List.filterMap_cons, ihl h]
      · rw [List.filterMap_cons, h b List.mem_cons_self]
        exact ihr fun x hx => h x (List.mem_cons_of_mem _ hx)

/-- What only the second list has stands in the merge as in that list. -/
theorem merge_filterMap_right (f : A → Option B) {l r : List A} (h : ∀ x ∈ l, f x = none) :
    (merge key l r).filterMap f = r.filterMap f := by
  induction l generalizing r with
  | nil => rw [merge_nil_left]
  | cons a l ihl =>
    induction r with
    | nil =>
      rw [merge_nil_right]
      exact List.filterMap_eq_nil_iff.2 h
    | cons b r ihr =>
      rw [merge_cons_cons]
      split
      · rw [List.filterMap_cons, h a List.mem_cons_self]
        exact ihl fun x hx => h x (List.mem_cons_of_mem _ hx)
      · rw [List.filterMap_cons, List.filterMap_cons, ihr]

theorem merge_filter_left (p : A → Bool) {l r : List A} (h : ∀ x ∈ r, p x = false) :
    (merge key l r).filter p = l.filter p := by
  rw [← List.filterMap_eq_filter]
  exact merge_filterMap_left _ fun x hx => by simp [Option.guard, h x hx]

theorem merge_filter_right (p : A → Bool) {l r : List A} (h : ∀ x ∈ l, p x = false) :
    (merge key l r).filter p = r.filter p := by
  rw [← List.filterMap_eq_filter]
  exact merge_filterMap_right _ fun x hx => by simp [Option.guard, h x hx]

/-- A relation that holds along both lists, and across them as the keys compare, holds along the merge. -/
theorem merge_pairwise {S : A → A → Prop} {l r : List A} (hl : l.Pairwise fun a b => key a ≤ key b ∧ S a b)
    (hr : r.Pairwise fun a b => key a ≤ key b ∧ S a b) (hlr : ∀ a ∈ l, ∀ b ∈ r, key a ≤ key b → S a b)
    (hrl : ∀ a ∈ l, ∀ b ∈ r, key b < key a → S b a) : (merge key l r).Pairwise fun a b => key a ≤ key b ∧ S a b := by
  induction l generalizing r with
  | nil =>
    rw [merge_nil_left]
    exact hr
  | cons a l ihl =>
    obtain ⟨ha, hl'⟩ := List.pairwise_cons.1 hl
    induction r with
    | nil =>
      rw [merge_nil_right]
      exact hl
    | cons b r ihr =>
      obtain ⟨hb, hr'⟩ := List.pairwise_cons.1 hr
      rw [merge_cons_cons]
      split
      · rename_i hab
        refine List.pairwise_cons.2 ⟨fun x hx => ?_, ihl hl' hr (fun x hx => hlr x (List.mem_cons_of_mem _ hx))
          fun x hx => hrl x (List.mem_cons_of_mem _ hx)⟩
        rcases mem_merge.1 hx with hx | hx
        · exact ha x hx
        · have hle : key a ≤ key x := by
            rcases List.mem_cons.1 hx with rfl | hx
            · exact hab
            · exact hab.trans (hb x hx).1
          exact ⟨hle, hlr a List.mem_cons_self x hx hle⟩
      · rename_i hab
        refine List.pairwise_cons.2 ⟨fun x hx => ?_, ihr hr' (fun x hx y hy => hlr x hx y (List.mem_cons_of_mem _ hy))
          fun x hx y hy => hrl x hx y (List.mem_cons_of_mem _ hy)⟩
        rcases mem_merge.1 hx with hx | hx
        · have hlt : key b < key x := by
            rcases List.mem_cons.1 hx with rfl | hx
            · exact not_le.1 hab
            · exact (not_le.1 hab).trans_le (ha x hx).1
          exact ⟨hlt.le, hrl x hx b List.mem_cons_self hlt⟩
        · exact hb x hx

theorem merge_sorted {l r : List A} (hl : l.Pairwise fun a b => key a ≤ key b) (hr : r.Pairwise fun a b => key a ≤ key b) :
    (merge key l r).Pairwise fun a b => key a ≤ key b :=
  (merge_pairwise (S := fun _ _ => True) (hl.imp fun h => ⟨h, trivial⟩) (hr.imp fun h => ⟨h, trivial⟩)
    (fun _ _ _ _ _ => trivial) fun _ _ _ _ _ => trivial).imp And.left

/-! ## Where the elements come from -/

/-- The merge with the list each element is from. -/
def mergeSides (key : A → K) (l r : List A) : List (A ⊕ A) := merge (Sum.elim key key) (l.map .inl) (r.map .inr)

theorem mergeSides_map (l r : List A) : (mergeSides key l r).map (Sum.elim id id) = merge key l r := by
  have hkey : (Sum.elim key key : A ⊕ A → K) = key ∘ Sum.elim id id := by
    funext x
    cases x <;> rfl
  have hid : ∀ f : A → A ⊕ A, (∀ a, Sum.elim id id (f a) = a) → ∀ l : List A, (l.map f).map (Sum.elim id id) = l := by
    intro f hf l
    rw [List.map_map]
    exact List.map_id'' hf l
  rw [mergeSides, hkey, merge_map, hid .inl (fun _ => rfl), hid .inr (fun _ => rfl)]

theorem mergeSides_left (l r : List A) : (mergeSides key l r).filterMap Sum.getLeft? = l := by
  rw [mergeSides, merge_filterMap_left _ (by simp), List.filterMap_map]
  exact List.filterMap_some

theorem mergeSides_right (l r : List A) : (mergeSides key l r).filterMap Sum.getRight? = r := by
  rw [mergeSides, merge_filterMap_right _ (by simp), List.filterMap_map]
  exact List.filterMap_some

/-- **The merge is sorted, and elements of the first list come before equal ones of the second.** -/
theorem mergeSides_ordered {l r : List A} (hl : l.Pairwise fun a b => key a ≤ key b)
    (hr : r.Pairwise fun a b => key a ≤ key b) :
    (mergeSides key l r).Pairwise fun x y => Sum.elim key key x ≤ Sum.elim key key y ∧
      (Sum.elim key key x = Sum.elim key key y → x.isRight → y.isRight) := by
  refine merge_pairwise (List.pairwise_map.2 (hl.imp fun h => ⟨h, by simp⟩))
    (List.pairwise_map.2 (hr.imp fun h => ⟨h, by simp⟩)) (fun x hx y hy _ => ?_) fun x hx y hy hlt heq => ?_
  · obtain ⟨a, -, rfl⟩ := List.mem_map.1 hx
    simp
  · exact absurd heq hlt.ne

end Agilex.Lib.StableMerge
