import Mathlib.Data.Int.Notation
import Mathlib.Data.List.Basic

/-!
# Decimal notation

- `zeroPad w n` is `n` in decimal, with leading zeros up to `w` digits; numbers are told apart by it (`zeroPad_inj`);
- so are integers by `toString` (`toString_int_inj`).
-/

namespace Agilex.Lib

/-- `'%0wd' % n`. -/
def zeroPad (w n : ℕ) : String :=
  String.ofList (List.replicate (w - (Nat.toDigits 10 n).length) '0' ++ Nat.toDigits 10 n)

theorem toList_zeroPad (w n : ℕ) :
    (zeroPad w n).toList = List.replicate (w - (Nat.toDigits 10 n).length) '0' ++ Nat.toDigits 10 n :=
  String.toList_ofList

/-- The value of a decimal. -/
theorem ofDigitChars_zeroPad (w n : ℕ) : Nat.ofDigitChars 10 (zeroPad w n).toList 0 = n := by
  rw [toList_zeroPad, Nat.ofDigitChars_append, Nat.ofDigitChars_replicate_zero, Nat.mul_zero,
    Nat.ofDigitChars_ten_toDigits]

theorem zeroPad_inj {w n n' : ℕ} (h : zeroPad w n = zeroPad w n') : n = n' := by
  rw [← ofDigitChars_zeroPad w n, ← ofDigitChars_zeroPad w n', h]

/-- A decimal is made of digits. -/
theorem isDigit_of_mem_zeroPad {w n : ℕ} {c : Char} (h : c ∈ (zeroPad w n).toList) : c.isDigit = true := by
  rw [toList_zeroPad, List.mem_append] at h
  rcases h with h | h
  · rw [List.eq_of_mem_replicate h]
    rfl
  · exact Nat.isDigit_of_mem_toDigits (by decide) (by decide) h

theorem repr_inj {n n' : ℕ} (h : n.repr = n'.repr) : n = n' := by
  have hdigits := congrArg String.toList h
  rw [Nat.toList_repr, Nat.toList_repr] at hdigits
  rw [← Nat.ofDigitChars_ten_toDigits (n := n), ← Nat.ofDigitChars_ten_toDigits (n := n'), hdigits]

/-- The characters of an integer are digits and the sign. -/
theorem mem_toString_int {i : ℤ} {c : Char} (h : c ∈ (toString i).toList) : c = '-' ∨ c.isDigit = true := by
  rw [Int.toString_eq_repr, Int.repr_eq_if] at h
  split at h
  · rw [Nat.toList_repr] at h
    exact Or.inr (Nat.isDigit_of_mem_toDigits (by decide) (by decide) h)
  · rw [String.toList_append, List.mem_append, Nat.toList_repr] at h
    rcases h with h | h
    · exact Or.inl (by simpa using h)
    · exact Or.inr (Nat.isDigit_of_mem_toDigits (by decide) (by decide) h)

/-- A number without sign is not one with sign. -/
theorem repr_ne_neg (n n' : ℕ) : n.repr ≠ "-" ++ n'.repr := by
  intro h
  have hmem : '-' ∈ n.repr.toList := by
    rw [h, String.toList_append]
    exact List.mem_append_left _ (by decide)
  rw [Nat.toList_repr] at hmem
  exact absurd (Nat.isDigit_of_mem_toDigits (by decide) (by decide) hmem) (by decide)

theorem toString_int_inj {i i' : ℤ} (h : toString i = toString i') : i = i' := by
  rw [Int.toString_eq_repr, Int.toString_eq_repr, Int.repr_eq_if, Int.repr_eq_if] at h
  split at h <;> split at h
  · have hnat := repr_inj h
    omega
  · exact absurd h (repr_ne_neg _ _)
  · exact absurd h.symm (repr_ne_neg _ _)
  · rw [← String.toList_inj, String.toList_append, String.toList_append, List.append_cancel_left_eq, String.toList_inj] at h
    have hnat := repr_inj h
    omega

end Agilex.Lib
