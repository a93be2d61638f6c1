import Mathlib.Data.Nat.ModEq
import Mathlib.Logic.Function.Basic

/-!
# Queues in a ring of cells

The cells of a ring are written one after the other and round again; a queue is a stretch of them.

- `Holds.push`, `Holds.front`, `Holds.pop`: while there is room, writing behind the stretch appends, and its first cell is
  the front.
- `Holds.write`: a cell outside of the stretch may be written at any time.
-/

namespace Agilex.Lib.Ring

open Function

variable {α : Type} {cells : ℕ → α} {size head : ℕ} {l : List α} {a : α}

/-- The cells from `head` on, round the ring, hold the list. -/
structure Holds (cells : ℕ → α) (size head : ℕ) (l : List α) : Prop where
  fits : l.length ≤ size
  cell : ∀ i (hi : i < l.length), cells ((head + i) % size) = l[i]

theorem Holds.nil (cells : ℕ → α) (size head : ℕ) : Holds cells size head [] := ⟨by simp, by simp⟩

/-- Places less than a round apart are different cells. -/
theorem mod_ne {i j : ℕ} (hij : i < j) (hj : j < size) : (head + i) % size ≠ (head + j) % size := by
  intro h
  have hmod : i ≡ j [MOD size] := Nat.ModEq.add_left_cancel' head h
  rw [Nat.ModEq, Nat.mod_eq_of_lt (hij.trans hj), Nat.mod_eq_of_lt hj] at hmod
  omega

/-- A cell outside of the stretch does not matter. -/
theorem Holds.write (h : Holds cells size head l) {i : ℕ} (hi : l.length ≤ i) (hsize : i < size) :
    Holds (update cells ((head + i) % size) a) size head l where
  fits := h.fits
  cell j hj := by
    rw [update_of_ne (mod_ne (hj.trans_le hi) hsize)]
    exact h.cell j hj

theorem Holds.push (h : Holds cells size head l) (hroom : l.length < size)
    (hcell : cells ((head + l.length) % size) = a) : Holds cells size head (l ++ [a]) where
  fits := by simp; omega
  cell i hi := by
    by_cases hlt : i < l.length
    · rw [List.getElem_append_left hlt]
      exact h.cell i hlt
    · obtain rfl : i = l.length := by simp at hi; omega
      simpa using hcell

theorem Holds.front (h : Holds cells size head (a :: l)) : cells (head % size) = a := h.cell 0 (by simp)

theorem Holds.pop (h : Holds cells size head (a :: l)) : Holds cells size (head + 1) l where
  fits := by
    have := h.fits
    simp at this
    omega
  cell i hi := by
    have := h.cell (i + 1) (by simpa using hi)
    rwa [List.getElem_cons_succ, show head + (i + 1) = head + 1 + i by omega] at this

/-- Only the cell at which the stretch begins matters. -/
theorem Holds.congr (h : Holds cells size head l) {head' : ℕ} (hmod : head ≡ head' [MOD size]) :
    Holds cells size head' l where
  fits := h.fits
  cell i hi := by
    rw [← h.cell i hi]
    exact congrArg cells (hmod.symm.add_right i)

end Agilex.Lib.Ring
