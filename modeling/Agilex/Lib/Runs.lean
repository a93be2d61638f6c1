import Mathlib.Data.List.SplitBy
import Mathlib.Data.List.TakeWhile

/-!
# Maximal runs of equal keys

`keyRuns key l` splits a list into its maximal runs of consecutive elements with the same key.

- `keyRuns_flatten`: the runs make up the list;
- `keyRuns_append` splits the first run off, and `keyRuns_induction` is the induction rule by runs.
-/

namespace Agilex.Lib

variable {A K : Type} [DecidableEq K]

/-- The maximal runs of consecutive elements with the same key. -/
def keyRuns (key : A → K) (l : List A) : List (List A) := l.splitBy fun a b => key a = key b

variable {key : A → K}

@[simp] theorem keyRuns_nil : keyRuns key [] = [] := rfl

theorem keyRuns_flatten (l : List A) : (keyRuns key l).flatten = l := List.flatten_splitBy _ l

/-- Elements of one key are one run. -/
theorem keyRuns_same {a : A} {l : List A} (h : ∀ b ∈ l, key b = key a) : keyRuns key (a :: l) = [a :: l] := by
  refine List.splitBy_of_isChain (List.cons_ne_nil a l) ?_
  refine List.Pairwise.isChain (List.pairwise_of_forall_mem_list fun x hx y hy => ?_)
  have hkey : ∀ z ∈ a :: l, key z = key a := by
    intro z hz
    rcases List.mem_cons.1 hz with rfl | hz
    · rfl
    · exact h z hz
  rw [decide_eq_true_eq, hkey x hx, hkey y hy]

/-- The first run ends where the key changes. -/
theorem keyRuns_append {a : A} {run rest : List A} (hrun : ∀ b ∈ run, key b = key a)
    (hrest : ∀ b ∈ rest.head?, key b ≠ key a) : keyRuns key (a :: run ++ rest) = (a :: run) :: keyRuns key rest := by
  have happ : keyRuns key (a :: run ++ rest) = keyRuns key (a :: run) ++ keyRuns key rest := by
    refine List.splitBy_append fun x hx y hy => ?_
    have hx' : key x = key a := by
      rcases List.mem_cons.1 (List.mem_of_getLast? hx) with rfl | hx
      · rfl
      · exact hrun x hx
    rw [decide_eq_false_iff_not, hx']
    exact fun h => hrest y hy h.symm
  rw [happ, keyRuns_same hrun, List.singleton_append]

/-- **Induction by runs**: a list is empty, or a run of one key before a list that begins with another. -/
theorem keyRuns_induction (key : A → K) {P : List A → Prop} (h0 : P [])
    (hrun : ∀ a run rest, (∀ b ∈ run, key b = key a) → (∀ b ∈ rest.head?, key b ≠ key a) → P rest → P (a :: run ++ rest))
    (l : List A) : P l := by
  induction hn : l.length using Nat.strong_induction_on generalizing l with
  | _ n ih =>
    cases l with
    | nil => exact h0
    | cons a l =>
      have hl := List.takeWhile_append_dropWhile (p := fun b => decide (key b = key a)) (l := l)
      have hlen := (List.dropWhile_sublist (fun b => decide (key b = key a)) (l := l)).length_le
      rw [← hl]
      refine hrun a _ _ (fun b hb => ?_) (fun b hb => ?_) (ih _ ?_ _ rfl)
      · simpa using List.mem_takeWhile_imp hb
      · have := List.head?_dropWhile_not (fun b => decide (key b = key a)) l
        rw [Option.mem_def.1 hb] at this
        simpa using this
      · rw [← hn, List.length_cons]
        omega

end Agilex.Lib
