import Mathlib.Data.Rat.Floor
import Mathlib.Algebra.Order.Field.Power
import Mathlib.Tactic.Linarith
import Mathlib.Tactic.Ring
import Mathlib.Tactic.NormNum
import Mathlib.Tactic.Positivity

/-!
# Binary64 arithmetic on exact rationals

A finite IEEE double is a rational number; an operation on doubles is the exact operation followed by `rnd`, rounding
to the nearest double with ties to even. Everything is computable in the kernel.

- `roundEven`, rounding to an integer, is monotone and fixes integers (`roundEven_mono`, `roundEven_int`);
- `ilog2` is the binary exponent of a positive rational (`ilog2_spec`);
- `Format.rnd`, rounding to a binary format, is monotone (`Format.rnd_mono`), and what it fixes are the numbers of the
  format (`Format.rnd_of_has`, `Format.has_rnd`); `rnd` rounds to a double;
- on top of it: `mul`, `div`, `add`, `sub`, the quotients `divInt` (two integers) and `divFloat` (an integer by a
  double), and the conversions `toInt` and `toIntEven` to an integer, which fail on overflow;
- `Double` is a double as data carries it, infinities and nan included.
-/

namespace Agilex.Lib.Binary64

/-! ## Powers of two -/

/-- `2 ^ e` as a rational. -/
def pow2 : ℤ → ℚ
  | .ofNat n => ((2 ^ n : ℕ) : ℚ)
  | .negSucc n => 1 / ((2 ^ (n + 1) : ℕ) : ℚ)

theorem pow2_eq (e : ℤ) : pow2 e = (2 : ℚ) ^ e := by
  cases e with
  | ofNat n => simp [pow2]
  | negSucc n => simp [pow2, zpow_negSucc]

theorem pow2_pos (e : ℤ) : 0 < pow2 e := by rw [pow2_eq]; positivity

theorem pow2_mono {a b : ℤ} (h : a ≤ b) : pow2 a ≤ pow2 b := by
  rw [pow2_eq, pow2_eq]; exact zpow_le_zpow_right₀ (by norm_num) h

theorem pow2_le_iff {a b : ℤ} : pow2 a ≤ pow2 b ↔ a ≤ b := by
  rw [pow2_eq, pow2_eq]; exact zpow_le_zpow_iff_right₀ (by norm_num)

theorem pow2_add_nat (a : ℤ) (k : ℕ) : pow2 (a + k) = pow2 a * 2 ^ k := by
  rw [pow2_eq, pow2_eq, zpow_add₀ (by norm_num), zpow_natCast]

/-! ## Rounding to an integer -/

/-- The nearest integer, ties to even. -/
def roundEven (x : ℚ) : ℤ :=
  let f := ⌊x⌋
  if x - f < 1 / 2 then f else if 1 / 2 < x - f then f + 1 else if f % 2 = 0 then f else f + 1

/-- Rounding moves a number by at most a half. -/
theorem roundEven_near (x : ℚ) : x - 1 / 2 ≤ roundEven x ∧ roundEven x ≤ x + 1 / 2 := by
  have h0 := Int.floor_le x
  have h1 := Int.lt_floor_add_one x
  unfold roundEven
  simp only
  split
  · constructor <;> linarith
  · split
    · push_cast; constructor <;> linarith
    · split <;> push_cast <;> constructor <;> linarith

theorem roundEven_int (n : ℤ) : roundEven (n : ℚ) = n := by simp [roundEven]

/-- Rounding is monotone: two numbers that round apart in the wrong order would be the same tie. -/
theorem roundEven_mono {x y : ℚ} (h : x ≤ y) : roundEven x ≤ roundEven y := by
  by_contra hlt
  have hx := (roundEven_near x).2
  have hy := (roundEven_near y).1
  have hc : (roundEven y : ℚ) + 1 ≤ roundEven x := by exact_mod_cast (by omega : roundEven y + 1 ≤ roundEven x)
  have he : x = y := by linarith
  subst he
  omega

/-- Rounding on a grid of step `pow2 b` fixes the coarser powers of two. -/
theorem roundEven_grid {a b : ℤ} (h : b ≤ a) : (roundEven (pow2 a / pow2 b) : ℚ) * pow2 b = pow2 a := by
  obtain ⟨k, hk⟩ := Int.le.dest h
  have hb : pow2 b ≠ 0 := (pow2_pos b).ne'
  have hq : pow2 a / pow2 b = ((2 ^ k : ℤ) : ℚ) := by
    rw [← hk, pow2_add_nat]; push_cast; field_simp
  rw [hq, roundEven_int, ← hq, div_mul_cancel₀ _ hb]

/-! ## The binary exponent -/

/-- The exponent `e` with `2 ^ e ≤ x < 2 ^ (e + 1)`, for a positive `x`. -/
def ilog2 (x : ℚ) : ℤ :=
  let e : ℤ := (Nat.log2 x.num.natAbs : ℤ) - Nat.log2 x.den
  if pow2 e ≤ x then e else e - 1

/-- A quotient of two positive integers lies between the powers of two around the difference of their logarithms. -/
theorem log2_quotient {n d : ℕ} (hn : n ≠ 0) (hd : d ≠ 0) :
    pow2 ((n.log2 : ℤ) - d.log2 - 1) ≤ (n : ℚ) / d ∧ (n : ℚ) / d < pow2 ((n.log2 : ℤ) - d.log2 + 1) := by
  obtain ⟨hn1, hn2⟩ := (Nat.log2_eq_iff hn).1 rfl
  obtain ⟨hd1, hd2⟩ := (Nat.log2_eq_iff hd).1 rfl
  have hdp : (0 : ℚ) < d := by positivity
  have hnl : (2 : ℚ) ^ n.log2 ≤ n := by exact_mod_cast hn1
  have hnu : (n : ℚ) < 2 ^ (n.log2 + 1) := by exact_mod_cast hn2
  have hdl : (2 : ℚ) ^ d.log2 ≤ d := by exact_mod_cast hd1
  have hdu : (d : ℚ) ≤ 2 ^ (d.log2 + 1) := by exact_mod_cast hd2.le
  constructor
  · rw [show (n.log2 : ℤ) - d.log2 - 1 = (n.log2 : ℕ) - (d.log2 + 1 : ℕ) by push_cast; ring, pow2_eq,
      zpow_sub₀ (by norm_num), zpow_natCast, zpow_natCast, div_le_div_iff₀ (by positivity) hdp]
    exact mul_le_mul hnl hdu hdp.le (by positivity)
  · rw [show (n.log2 : ℤ) - d.log2 + 1 = (n.log2 + 1 : ℕ) - (d.log2 : ℕ) by push_cast; ring, pow2_eq,
      zpow_sub₀ (by norm_num), zpow_natCast, zpow_natCast, div_lt_div_iff₀ hdp (by positivity)]
    exact mul_lt_mul hnu hdl (by positivity) (by positivity)

theorem ilog2_spec {x : ℚ} (hx : 0 < x) : pow2 (ilog2 x) ≤ x ∧ x < pow2 (ilog2 x + 1) := by
  have hpos := Rat.num_pos.2 hx
  have hxe : (x.num.natAbs : ℚ) / x.den = x := by
    have hp : (x.num.natAbs : ℤ) = x.num := by omega
    rw [← Int.cast_natCast, hp]; exact Rat.num_div_den x
  obtain ⟨hl, hu⟩ := log2_quotient (n := x.num.natAbs) (by omega) x.den_ne_zero
  rw [hxe] at hl hu
  unfold ilog2
  simp only
  split
  · exact ⟨by assumption, hu⟩
  · rename_i h
    exact ⟨hl, by simpa using h⟩

@[simp] theorem ilog2_pow2 (a : ℤ) : ilog2 (pow2 a) = a := by
  obtain ⟨hl, hu⟩ := ilog2_spec (pow2_pos a)
  have hle := pow2_le_iff.1 hl
  have hlt := lt_of_not_ge (mt pow2_mono hu.not_ge)
  omega

/-- The exponent is monotone. -/
theorem ilog2_mono {x y : ℚ} (hx : 0 < x) (h : x ≤ y) : ilog2 x ≤ ilog2 y := by
  by_contra hlt
  have hm : pow2 (ilog2 y + 1) ≤ pow2 (ilog2 x) := pow2_mono (by omega)
  linarith [(ilog2_spec hx).1, (ilog2_spec (hx.trans_le h)).2]

/-! ## Rounding to a format -/

/-- A binary format: the bits after the leading one, and the exponent of the least positive number. -/
structure Format where
  fraction : ℕ
  minExp : ℤ

def binary64 : Format := ⟨52, -1074⟩

def binary32 : Format := ⟨23, -149⟩

/-- The exponent of the last place of a positive number: not below the subnormals. -/
def Format.ulpExp (F : Format) (x : ℚ) : ℤ := max (ilog2 x - F.fraction) F.minExp

/-- A positive number, rounded. -/
def Format.rndPos (F : Format) (x : ℚ) : ℚ := roundEven (x / pow2 (F.ulpExp x)) * pow2 (F.ulpExp x)

/-- **Rounding to the nearest number of the format, ties to even.** The exponent has no upper bound. -/
def Format.rnd (F : Format) (x : ℚ) : ℚ := if 0 < x then F.rndPos x else if x < 0 then -F.rndPos (-x) else 0

/-- The numbers of the format. -/
def Format.Has (F : Format) (x : ℚ) : Prop :=
  ∃ m e : ℤ, |m| ≤ 2 ^ (F.fraction + 1) ∧ F.minExp ≤ e ∧ x = m * pow2 e

section
variable (F : Format) {x y : ℚ}

@[simp] theorem Format.rnd_zero : F.rnd 0 = 0 := by simp [Format.rnd]

theorem Format.rnd_of_pos (hx : 0 < x) : F.rnd x = F.rndPos x := if_pos hx

theorem Format.rnd_of_neg (hx : x < 0) : F.rnd x = -F.rndPos (-x) := by
  rw [Format.rnd, if_neg (by linarith), if_pos hx]

theorem Format.rndPos_nonneg (hx : 0 < x) : 0 ≤ F.rndPos x := by
  have h : roundEven ((0 : ℤ) : ℚ) ≤ roundEven (x / pow2 (F.ulpExp x)) :=
    roundEven_mono (by push_cast; exact (div_pos hx (pow2_pos _)).le)
  rw [roundEven_int] at h
  exact mul_nonneg (by exact_mod_cast h) (pow2_pos _).le

/-- Rounding is monotone on the positive numbers: on one grid by `roundEven_mono`, across grids because the power of
two between the arguments is on both. -/
theorem Format.rndPos_mono (hx : 0 < x) (h : x ≤ y) : F.rndPos x ≤ F.rndPos y := by
  have hl := ilog2_mono hx h
  have hy := hx.trans_le h
  by_cases he : F.ulpExp x = F.ulpExp y
  · unfold Format.rndPos
    rw [he]
    have hr := roundEven_mono ((div_le_div_iff_of_pos_right (pow2_pos (F.ulpExp y))).2 h)
    exact mul_le_mul_of_nonneg_right (by exact_mod_cast hr) (pow2_pos _).le
  · have hlt : ilog2 x + 1 ≤ ilog2 y := by unfold Format.ulpExp at he; omega
    have hux : F.ulpExp x ≤ ilog2 y := by unfold Format.ulpExp at *; omega
    have huy : F.ulpExp y ≤ ilog2 y := by unfold Format.ulpExp at *; omega
    have hxp : x ≤ pow2 (ilog2 y) := (ilog2_spec hx).2.le.trans (pow2_mono hlt)
    have h1 : F.rndPos x ≤ pow2 (ilog2 y) := by
      rw [← roundEven_grid hux]
      have hr := roundEven_mono ((div_le_div_iff_of_pos_right (pow2_pos (F.ulpExp x))).2 hxp)
      exact mul_le_mul_of_nonneg_right (by exact_mod_cast hr) (pow2_pos _).le
    have h2 : pow2 (ilog2 y) ≤ F.rndPos y := by
      conv_lhs => rw [← roundEven_grid huy]
      have hr := roundEven_mono ((div_le_div_iff_of_pos_right (pow2_pos (F.ulpExp y))).2 (ilog2_spec hy).1)
      exact mul_le_mul_of_nonneg_right (by exact_mod_cast hr) (pow2_pos _).le
    exact h1.trans h2

theorem Format.rnd_nonneg (hx : 0 ≤ x) : 0 ≤ F.rnd x := by
  rcases hx.eq_or_lt with h | h
  · rw [← h, F.rnd_zero]
  · rw [F.rnd_of_pos h]; exact F.rndPos_nonneg h

theorem Format.rnd_nonpos (hx : x ≤ 0) : F.rnd x ≤ 0 := by
  rcases hx.eq_or_lt with h | h
  · rw [h, F.rnd_zero]
  · rw [F.rnd_of_neg h]; linarith [F.rndPos_nonneg (x := -x) (by linarith)]

/-- **Rounding is monotone.** -/
theorem Format.rnd_mono (h : x ≤ y) : F.rnd x ≤ F.rnd y := by
  rcases le_or_gt x 0 with hx | hx
  · rcases le_or_gt 0 y with hy | hy
    · exact (F.rnd_nonpos hx).trans (F.rnd_nonneg hy)
    · have := F.rndPos_mono (x := -y) (y := -x) (by linarith) (by linarith)
      rw [F.rnd_of_neg hy, F.rnd_of_neg (h.trans_lt hy)]
      linarith
  · rw [F.rnd_of_pos hx, F.rnd_of_pos (hx.trans_le h)]
    exact F.rndPos_mono hx h

variable {F}

theorem Format.Has.neg (h : F.Has x) : F.Has (-x) := by
  obtain ⟨m, e, hm, he, rfl⟩ := h
  exact ⟨-m, e, by rwa [abs_neg], he, by push_cast; ring⟩

/-- A multiple of a place of the format that has not too many digits is a number of the format. -/
theorem Format.has_mul {m e : ℤ} (hm : |m| ≤ 2 ^ (F.fraction + 1)) (he : F.minExp ≤ e) : F.Has (m * pow2 e) :=
  ⟨m, e, hm, he, rfl⟩

/-- A rounded number is one of the format. -/
theorem Format.has_rnd (x : ℚ) : F.Has (F.rnd x) := by
  have hpos {x : ℚ} (hx : 0 < x) : F.Has (F.rndPos x) := by
    refine F.has_mul ?_ (le_max_right _ _)
    have hx2 : x ≤ pow2 (F.ulpExp x) * 2 ^ (F.fraction + 1) := by
      rw [← pow2_add_nat]
      exact (ilog2_spec hx).2.le.trans (pow2_mono (by unfold Format.ulpExp; push_cast; omega))
    have hle : x / pow2 (F.ulpExp x) ≤ ((2 ^ (F.fraction + 1) : ℤ) : ℚ) := by
      rw [div_le_iff₀ (pow2_pos _)]
      push_cast
      linarith
    have hup := roundEven_mono hle
    have hlow := roundEven_mono (x := ((0 : ℤ) : ℚ)) (by push_cast; exact (div_pos hx (pow2_pos (F.ulpExp x))).le)
    rw [roundEven_int] at hup hlow
    rwa [abs_of_nonneg hlow]
  rcases lt_trichotomy x 0 with hx | rfl | hx
  · rw [F.rnd_of_neg hx]
    exact (hpos (by linarith)).neg
  · exact ⟨0, F.minExp, by simp, le_rfl, by simp⟩
  · rw [F.rnd_of_pos hx]
    exact hpos hx

/-- **A number of the format is rounded to itself**: where its last place is coarser than its exponent, it is the power of
two at which the exponent changes. -/
theorem Format.rnd_of_has (h : F.Has x) : F.rnd x = x := by
  have hpos {x : ℚ} (h : F.Has x) (hx : 0 < x) : F.rndPos x = x := by
    obtain ⟨m, e, hm, he, rfl⟩ := h
    have hm0 : 0 < m := by
      have := pos_of_mul_pos_left hx (pow2_pos e).le
      exact_mod_cast this
    rw [abs_of_pos hm0] at hm
    have hspec := ilog2_spec hx
    unfold Format.rndPos
    rcases le_or_gt (F.ulpExp (m * pow2 e)) e with hle | hlt
    · obtain ⟨k, hk⟩ := Int.le.dest hle
      have hq : (m : ℚ) * pow2 e / pow2 (F.ulpExp (m * pow2 e)) = ((m * 2 ^ k : ℤ) : ℚ) := by
        rw [div_eq_iff (pow2_pos _).ne']
        conv_lhs => rw [← hk, pow2_add_nat]
        push_cast
        ring
      rw [hq, roundEven_int, ← hq, div_mul_cancel₀ _ (pow2_pos _).ne']
    · -- the number is at least the power of two at which the last place becomes coarser
      have hulp : F.ulpExp (m * pow2 e) = ilog2 (m * pow2 e) - F.fraction := by
        unfold Format.ulpExp at hlt ⊢
        omega
      have hexp : e + (F.fraction + 1 : ℕ) ≤ ilog2 (m * pow2 e) := by push_cast; omega
      have hge : pow2 e * 2 ^ (F.fraction + 1) ≤ m * pow2 e := by
        rw [← pow2_add_nat]
        exact (pow2_mono hexp).trans hspec.1
      have hmq : ((2 : ℚ) ^ (F.fraction + 1)) ≤ m := by
        rw [mul_comm] at hge
        exact le_of_mul_le_mul_right hge (pow2_pos e)
      have hmeq : m = 2 ^ (F.fraction + 1) := le_antisymm hm (by exact_mod_cast hmq)
      have hx' : (m : ℚ) * pow2 e = pow2 (e + (F.fraction + 1 : ℕ)) := by
        rw [pow2_add_nat, hmeq]
        push_cast
        ring
      rw [hx']
      refine roundEven_grid ?_
      rw [Format.ulpExp, ilog2_pow2]
      omega
  rcases lt_trichotomy x 0 with hx | rfl | hx
  · rw [F.rnd_of_neg hx, hpos h.neg (by linarith), neg_neg]
  · exact F.rnd_zero
  · rw [F.rnd_of_pos hx, hpos h hx]

@[simp] theorem Format.rnd_rnd (x : ℚ) : F.rnd (F.rnd x) = F.rnd x := F.rnd_of_has (F.has_rnd x)

end

/-! ## Rounding to a double -/

/-- **Rounding to the nearest double, ties to even.** A result of `2 ^ 1024` or more stands for an infinity. -/
def rnd (x : ℚ) : ℚ := binary64.rnd x

theorem rnd_zero : rnd 0 = 0 := binary64.rnd_zero

theorem rnd_nonneg {x : ℚ} (hx : 0 ≤ x) : 0 ≤ rnd x := binary64.rnd_nonneg hx

theorem rnd_mono {x y : ℚ} (h : x ≤ y) : rnd x ≤ rnd y := binary64.rnd_mono h

theorem rnd_one : rnd 1 = 1 := by decide +kernel

/-! ## Operations -/

def mul (x y : ℚ) : ℚ := rnd (x * y)

def div (x y : ℚ) : ℚ := rnd (x / y)

def add (x y : ℚ) : ℚ := rnd (x + y)

def sub (x y : ℚ) : ℚ := rnd (x - y)

/-- The quotient of two integers, rounded once. -/
def divInt (a b : ℤ) : ℚ := rnd ((a : ℚ) / b)

/-- The quotient of an integer, first converted to a double, by a double. -/
def divFloat (a : ℤ) (x : ℚ) : ℚ := div (rnd a) x

/-- The quotient of two integers is in the unit interval when the exact one is. -/
theorem divInt_unit {a b : ℤ} (ha : 0 ≤ a) (hab : a ≤ b) (hb : 0 < b) : 0 ≤ divInt a b ∧ divInt a b ≤ 1 := by
  have hbq : (0 : ℚ) < b := by exact_mod_cast hb
  constructor
  · exact rnd_nonneg (div_nonneg (by exact_mod_cast ha) hbq.le)
  · rw [← rnd_one]
    exact rnd_mono ((div_le_one hbq).2 (by exact_mod_cast hab))

/-- Truncation towards zero. -/
def trunc (x : ℚ) : ℤ := if x < 0 then -⌊-x⌋ else ⌊x⌋

theorem trunc_nonneg {x : ℚ} (hx : 0 ≤ x) : 0 ≤ trunc x := by
  rw [trunc, if_neg (by linarith)]; exact Int.floor_nonneg.2 hx

/-- Whether a result is an infinity. -/
def Overflows (x : ℚ) : Prop := pow2 1024 ≤ |x|

instance (x : ℚ) : Decidable (Overflows x) := inferInstanceAs (Decidable (_ ≤ _))

/-- A double truncated to an integer; an infinity has no integer. -/
def toInt (x : ℚ) : Option ℤ := if Overflows x then none else some (trunc x)

/-- A double rounded to an integer, ties to even; an infinity has no integer. -/
def toIntEven (x : ℚ) : Option ℤ := if Overflows x then none else some (roundEven x)

/-! ## Doubles as data -/

/-- A double as data carries it: a number, an infinity, or not a number. -/
inductive Double where
  | fin (x : ℚ)
  | inf (neg : Bool)
  | nan
  deriving DecidableEq, Repr

/-- The result of an operation, as data. -/
def Double.ofResult (x : ℚ) : Double := if Overflows x then .inf (x < 0) else .fin x

/-- The number, if it is one. -/
def Double.finite? : Double → Option ℚ
  | .fin x => some x
  | _ => none

@[simp] theorem Double.finite?_fin (x : ℚ) : (Double.fin x).finite? = some x := rfl
@[simp] theorem Double.finite?_inf (neg : Bool) : (Double.inf neg).finite? = none := rfl
@[simp] theorem Double.finite?_nan : Double.nan.finite? = none := rfl

theorem Double.ofResult_eq {x : ℚ} (h : (Double.ofResult x).finite?.isSome = true) : Double.ofResult x = .fin x := by
  unfold Double.ofResult at h ⊢
  split at h
  · simp at h
  · next hx => rw [if_neg hx]

@[simp] theorem Double.ofResult_zero : Double.ofResult 0 = .fin 0 := by decide +kernel

@[simp] theorem Double.ofResult_one : Double.ofResult 1 = .fin 1 := by decide +kernel

/-- The numbers of a list, if all are. -/
def allFinite (l : List Double) : Option (List ℚ) := l.mapM Double.finite?

end Agilex.Lib.Binary64
