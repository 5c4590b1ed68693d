import CodeReview.Py.Double
import Mathlib.Algebra.Order.Field.Power

/-!
# Rounding to a double

A `float` has a significand of 53 bits and an exponent of at least -1074.  `nearest q` is the double
nearest to a value in the range, with ties to the even significand, and `rounded` rounds the result
of an operation.

* `exponent_le`, `lt_exponent` : the binary exponent of a value;
* `isDouble_nearest` : what is rounded is a double;
* `nearest_of_isDouble` : **a double is kept as it is.**
-/

namespace Py

namespace Double

/-- A power of two. -/
def twoPow : ℤ → ℚ
  | .ofNat n => (2 ^ n : ℕ)
  | .negSucc n => 1 / (2 ^ (n + 1) : ℕ)

theorem twoPow_eq (e : ℤ) : twoPow e = 2 ^ e := by
  cases e with
  | ofNat n => simp [twoPow]
  | negSucc n => simp [twoPow, zpow_negSucc]

/-- The binary exponent of a value that is not zero. -/
def exponent (q : ℚ) : ℤ :=
  let e : ℤ := (q.num.natAbs.log2 : ℤ) - q.den.log2
  if twoPow e ≤ |q| then e else e - 1

/-- The exponent of the last bit of the significand. -/
def ulpExponent (q : ℚ) : ℤ := max (exponent q - 52) (-1074)

/-- The nearest double; of two that are equally near, the one with an even significand. -/
def nearest (q : ℚ) : ℚ := roundEven (q / twoPow (ulpExponent q)) * twoPow (ulpExponent q)

/-- The result of an operation, rounded. -/
def rounded : Double → Double
  | fin q => fin (nearest q)
  | x => x

/-- The value is that of a double, but for the range. -/
def IsDouble (q : ℚ) : Prop :=
  ∃ m k : ℤ, |m| ≤ 2 ^ 53 ∧ -1074 ≤ k ∧ q = m * 2 ^ k

/-- The double that a decimal of the source stands for. -/
def literal (q : ℚ) : Double := rounded (fin q)

/-- `round(x, digits)`: the decimal nearest to the double, as a double. -/
def roundDigits (digits : ℕ) (x : Double) : Double := (x.round digits).rounded

example : nearest (3 / 100) = 1080863910568919 / 36028797018963968 := by decide +kernel

/-! ### The exponent -/

theorem abs_eq_natAbs_div (q : ℚ) : |q| = q.num.natAbs / q.den := by
  have hden : (0 : ℚ) < q.den := by exact_mod_cast q.den_pos
  have hnum : |(q.num : ℚ)| = q.num.natAbs := by rw [Nat.cast_natAbs, Int.cast_abs]
  rw [← hnum, ← abs_of_pos hden, ← abs_div, Rat.num_div_den]

/-- The value lies within a factor of two of the quotient of the leading bits. -/
theorem two_zpow_log_bounds {q : ℚ} (hq : q ≠ 0) :
    (2 : ℚ) ^ ((q.num.natAbs.log2 : ℤ) - q.den.log2 - 1) ≤ |q| ∧
      |q| < 2 ^ ((q.num.natAbs.log2 : ℤ) - q.den.log2 + 1) := by
  have hnum : q.num.natAbs ≠ 0 := by simpa using hq
  have hden : (0 : ℚ) < q.den := by exact_mod_cast q.den_pos
  have hn : (2 : ℚ) ^ q.num.natAbs.log2 ≤ q.num.natAbs := by exact_mod_cast Nat.log2_self_le hnum
  have hn' : (q.num.natAbs : ℚ) < 2 ^ (q.num.natAbs.log2 + 1) := by exact_mod_cast Nat.lt_log2_self
  have hd : (2 : ℚ) ^ q.den.log2 ≤ q.den := by exact_mod_cast Nat.log2_self_le q.den_nz
  have hd' : (q.den : ℚ) < 2 ^ (q.den.log2 + 1) := by exact_mod_cast Nat.lt_log2_self
  rw [abs_eq_natAbs_div]
  constructor
  · rw [le_div_iff₀ hden]
    calc (2 : ℚ) ^ ((q.num.natAbs.log2 : ℤ) - q.den.log2 - 1) * q.den
        ≤ 2 ^ ((q.num.natAbs.log2 : ℤ) - q.den.log2 - 1) * 2 ^ (q.den.log2 + 1) := by gcongr
      _ = 2 ^ q.num.natAbs.log2 := by
          rw [← zpow_natCast, ← zpow_add₀ two_ne_zero, ← zpow_natCast]
          congr 1
          push_cast
          ring
      _ ≤ q.num.natAbs := hn
  · rw [div_lt_iff₀ hden]
    calc (q.num.natAbs : ℚ) < 2 ^ (q.num.natAbs.log2 + 1) := hn'
      _ = 2 ^ ((q.num.natAbs.log2 : ℤ) - q.den.log2 + 1) * 2 ^ q.den.log2 := by
          rw [← zpow_natCast, ← zpow_natCast, ← zpow_add₀ two_ne_zero]
          congr 1
          push_cast
          ring
      _ ≤ 2 ^ ((q.num.natAbs.log2 : ℤ) - q.den.log2 + 1) * q.den := by gcongr

theorem exponent_le {q : ℚ} (hq : q ≠ 0) : (2 : ℚ) ^ exponent q ≤ |q| := by
  unfold exponent
  simp only [twoPow_eq]
  split_ifs with h
  · exact h
  · exact (two_zpow_log_bounds hq).1

theorem lt_exponent {q : ℚ} (hq : q ≠ 0) : |q| < 2 ^ (exponent q + 1) := by
  unfold exponent
  simp only [twoPow_eq]
  split_ifs with h
  · exact (two_zpow_log_bounds hq).2
  · rw [sub_add_cancel]
    exact not_le.1 h

/-! ### Rounding -/

theorem roundEven_intCast (n : ℤ) : roundEven n = n := by
  rw [roundEven, Int.floor_intCast, sub_self, if_pos (by norm_num)]

/-- Rounding does not leave a symmetric interval with integer ends. -/
theorem abs_roundEven_le {q : ℚ} {n : ℤ} (h : |q| ≤ n) : |roundEven q| ≤ n := by
  obtain ⟨hlo, hhi⟩ := abs_le.1 h
  have hfloor : -n ≤ ⌊q⌋ := Int.le_floor.2 (by exact_mod_cast hlo)
  have hfloor' : ⌊q⌋ ≤ n := by exact_mod_cast (Int.floor_le q).trans hhi
  have hceil (hpos : 0 < q - ⌊q⌋) : ⌊q⌋ + 1 ≤ n := by
    have hlt : (⌊q⌋ : ℚ) < n := (sub_pos.1 hpos).trans_le hhi
    exact_mod_cast hlt
  rw [abs_le]
  unfold roundEven
  split_ifs with hdown hup
  · exact ⟨hfloor, hfloor'⟩
  · exact ⟨hfloor.trans (by omega), hceil (by linarith)⟩
  · exact ⟨hfloor, hfloor'⟩
  · exact ⟨hfloor.trans (by omega), hceil (by linarith)⟩

/-- **What is rounded is a double.** -/
theorem isDouble_nearest (q : ℚ) : IsDouble (nearest q) := by
  refine ⟨roundEven (q / twoPow (ulpExponent q)), ulpExponent q, ?_, le_max_right _ _, ?_⟩
  · refine abs_roundEven_le ?_
    have hpos : (0 : ℚ) < 2 ^ ulpExponent q := zpow_pos two_pos _
    rw [twoPow_eq, abs_div, abs_of_pos hpos]
    by_cases hq : q = 0
    · rw [hq, abs_zero, zero_div]
      positivity
    · rw [div_le_iff₀ hpos]
      have hexp : exponent q + 1 ≤ 53 + ulpExponent q := by
        have hle : exponent q - 52 ≤ ulpExponent q := le_max_left _ _
        omega
      calc |q| ≤ 2 ^ (exponent q + 1) := (lt_exponent hq).le
        _ ≤ 2 ^ (53 + ulpExponent q) := zpow_le_zpow_right₀ one_le_two hexp
        _ = _ := by
          rw [zpow_add₀ two_ne_zero]
          norm_num
  · rw [nearest, twoPow_eq]

theorem isDouble_zero : IsDouble 0 := ⟨0, 0, by norm_num, by norm_num, by norm_num⟩

/-- The integers up to `2 ^ 53` are doubles. -/
theorem isDouble_intCast {n : ℤ} (h : |n| ≤ 2 ^ 53) : IsDouble n :=
  ⟨n, 0, h, by norm_num, by rw [zpow_zero, mul_one]⟩

/-- **A double is kept as it is.** -/
theorem nearest_of_isDouble {q : ℚ} (h : IsDouble q) : nearest q = q := by
  by_cases hq : q = 0
  · rw [hq, nearest, zero_div]
    have hzero : roundEven 0 = 0 := by exact_mod_cast roundEven_intCast 0
    rw [hzero, Int.cast_zero, zero_mul]
  · -- the last bit of the significand reaches down to that of the double
    obtain ⟨m, k, hm, hk, rfl⟩ : ∃ m k : ℤ, |m| < 2 ^ 53 ∧ -1074 ≤ k ∧ q = m * 2 ^ k := by
      obtain ⟨m, k, hm, hk, rfl⟩ := h
      rcases hm.lt_or_eq with hlt | heq
      · exact ⟨m, k, hlt, hk, rfl⟩
      · have hhalf : m = m / 2 * 2 := by
          rcases abs_eq (by positivity : (0 : ℤ) ≤ 2 ^ 53) |>.1 heq with rfl | rfl <;> norm_num
        have hsmall : |m / 2| < 2 ^ 53 := by
          rcases abs_eq (by positivity : (0 : ℤ) ≤ 2 ^ 53) |>.1 heq with rfl | rfl <;> norm_num
        refine ⟨m / 2, k + 1, hsmall, by omega, ?_⟩
        rw [zpow_add₀ two_ne_zero, zpow_one, mul_comm ((2 : ℚ) ^ k), ← mul_assoc]
        congr 1
        exact_mod_cast hhalf
    have hexp : exponent (m * 2 ^ k) < 53 + k := by
      have hlt : (2 : ℚ) ^ exponent (m * 2 ^ k) < 2 ^ (53 + k) := by
        have hpos : (0 : ℚ) < 2 ^ k := zpow_pos two_pos _
        refine (exponent_le hq).trans_lt ?_
        rw [abs_mul, abs_of_pos hpos, zpow_add₀ two_ne_zero]
        refine mul_lt_mul_of_pos_right ?_ hpos
        exact_mod_cast hm
      exact (zpow_lt_zpow_iff_right₀ one_lt_two).1 hlt
    have hulp : ulpExponent (m * 2 ^ k) ≤ k := max_le (by omega) hk
    obtain ⟨n, hn⟩ := Int.le.dest hulp
    have hquotient : (m * 2 ^ k : ℚ) / 2 ^ ulpExponent (m * 2 ^ k) = (m * 2 ^ n : ℤ) := by
      have hdiff : k - ulpExponent (m * 2 ^ k) = n := by omega
      rw [mul_div_assoc, ← zpow_sub₀ two_ne_zero, hdiff, zpow_natCast]
      push_cast
      rfl
    rw [nearest, twoPow_eq, hquotient, roundEven_intCast, ← hquotient,
      div_mul_cancel₀ _ (zpow_ne_zero _ two_ne_zero)]

/-- Rounding twice is rounding once. -/
@[simp] theorem rounded_rounded (x : Double) : x.rounded.rounded = x.rounded := by
  cases x with
  | fin q => exact congrArg fin (nearest_of_isDouble (isDouble_nearest q))
  | _ => rfl

end Double

end Py
