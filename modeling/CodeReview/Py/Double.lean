import CodeReview.Py.Result
import Mathlib.Data.Rat.Floor
import Mathlib.Algebra.Order.Field.Rat
import Mathlib.Tactic.NormNum
import Mathlib.Tactic.Positivity

/-!
# Python floats

A `float` is an IEEE double: `fin q` is the finite double with value `q`, and a result too large in
magnitude becomes an infinity (`ofRat`).  Within the range the operations of this file are exact;
`Py.Binary64` rounds their results, where the last bits decide something.  Conversions that raise
in Python raise here: an integer outside the range has no `float` (`ofInt`), an infinity and a NaN
have no `int` (`trunc`).
-/

namespace Py

/-- A Python `float`. -/
inductive Double where
  | fin (q : ℚ)
  | inf
  | ninf
  | nan
  deriving DecidableEq, Repr

namespace Double

/-- The least magnitude that rounds to an infinity. -/
def bound : ℚ := 2 ^ 1024 - 2 ^ 970

/-- The double of an exact value. -/
def ofRat (q : ℚ) : Double := if bound ≤ q then inf else if q ≤ -bound then ninf else fin q

/-- `float(n)` for an integer. -/
def ofInt (n : ℤ) : Result Double :=
  if bound ≤ |(n : ℚ)| then .error .overflowError else .ok (fin n)

/-- `int(x)`: truncation towards zero. -/
def trunc : Double → Result ℤ
  | fin q => .ok (q.num.tdiv q.den)
  | inf => .error .overflowError
  | ninf => .error .overflowError
  | nan => .error .valueError

/-- `x + y`. -/
def add : Double → Double → Double
  | nan, _ => nan
  | _, nan => nan
  | inf, ninf => nan
  | ninf, inf => nan
  | inf, _ => inf
  | _, inf => inf
  | ninf, _ => ninf
  | _, ninf => ninf
  | fin p, fin q => ofRat (p + q)

/-- The product of an infinity with a value of sign `q`. -/
def infMul (q : ℚ) : Double := if q = 0 then nan else if 0 < q then inf else ninf

/-- `x * y`. -/
def mul : Double → Double → Double
  | nan, _ => nan
  | _, nan => nan
  | fin p, fin q => ofRat (p * q)
  | inf, fin q => infMul q
  | fin q, inf => infMul q
  | ninf, fin q => infMul (-q)
  | fin q, ninf => infMul (-q)
  | inf, inf => inf
  | ninf, ninf => inf
  | inf, ninf => ninf
  | ninf, inf => ninf

/-- `x == y`; a NaN equals nothing. -/
def eq : Double → Double → Bool
  | fin p, fin q => decide (p = q)
  | inf, inf => true
  | ninf, ninf => true
  | _, _ => false

/-- `x < y`; every comparison with a NaN is false. -/
def lt : Double → Double → Bool
  | fin p, fin q => decide (p < q)
  | nan, _ => false
  | _, nan => false
  | ninf, ninf => false
  | ninf, _ => true
  | _, ninf => false
  | _, inf => true
  | inf, _ => false

/-- `-x`. -/
def neg : Double → Double
  | fin q => fin (-q)
  | inf => ninf
  | ninf => inf
  | nan => nan

/-- `x - y`. -/
def sub (x y : Double) : Double := add x (neg y)

/-- `x / y`, where `y` is not zero. -/
def div : Double → Double → Double
  | nan, _ => nan
  | _, nan => nan
  | fin p, fin q => ofRat (p / q)
  | fin _, _ => fin 0
  | inf, fin q => infMul q
  | ninf, fin q => infMul (-q)
  | _, _ => nan

/-- The nearest integer; a half goes to the even neighbour. -/
def roundEven (q : ℚ) : ℤ :=
  if q - ⌊q⌋ < 1 / 2 then ⌊q⌋
  else if 1 / 2 < q - ⌊q⌋ then ⌊q⌋ + 1
  else if ⌊q⌋ % 2 = 0 then ⌊q⌋ else ⌊q⌋ + 1

/-- `round(x, digits)`. -/
def round (digits : ℕ) : Double → Double
  | fin q => fin (roundEven (q * 10 ^ digits) / 10 ^ digits)
  | x => x

/-- `x <= y`. -/
def le (x y : Double) : Bool := lt x y || eq x y

/-- `x >= y`. -/
def ge (x y : Double) : Bool := lt y x || eq x y

/-- Truth value: everything but zero. -/
def truthy (x : Double) : Bool := !eq x (fin 0)

/-- Neither an infinity nor a NaN. -/
def IsFinite (x : Double) : Prop := ∃ q, x = fin q

theorem bound_pos : 0 < bound := by
  have h : (2 : ℚ) ^ 970 < 2 ^ 1024 := pow_lt_pow_right₀ (by norm_num) (by norm_num)
  exact sub_pos.2 h

theorem two_pow_970_lt_bound : (2 : ℚ) ^ 970 < bound := by
  have h971 : (2 : ℚ) ^ 970 * 2 < 2 ^ 1024 := by
    rw [← pow_succ]
    exact pow_lt_pow_right₀ (by norm_num) (by norm_num)
  calc (2 : ℚ) ^ 970 = 2 ^ 970 * 2 - 2 ^ 970 := by rw [mul_two, add_sub_cancel_right]
    _ < bound := sub_lt_sub_right h971 _

theorem one_lt_bound : 1 < bound :=
  (one_lt_pow₀ (by norm_num) (by norm_num)).trans two_pow_970_lt_bound

theorem ofRat_eq_fin {q : ℚ} (h : |q| < bound) : ofRat q = fin q := by
  obtain ⟨hl, hr⟩ := abs_lt.1 h
  rw [ofRat, if_neg (not_le.2 hr), if_neg (not_le.2 hl)]

theorem ofInt_eq_ok {n : ℤ} (h : |(n : ℚ)| < bound) : ofInt n = .ok (fin n) := by
  rw [ofInt, if_neg (not_le.2 h)]

/-- The first power of two without a float. -/
def maxExponent : ℕ := 1024

theorem ofInt_two_pow {k : ℕ} (h : k < maxExponent) : ofInt (2 ^ k) = .ok (fin (2 ^ k)) := by
  have hgap : (2 : ℚ) ^ 970 < 2 ^ 1023 := pow_lt_pow_right₀ (by norm_num) (by norm_num)
  have hlt : (2 : ℚ) ^ k < bound := calc
    (2 : ℚ) ^ k ≤ 2 ^ 1023 := pow_le_pow_right₀ (by norm_num) (Nat.le_of_lt_succ h)
    _ = 2 ^ 1023 * 2 - 2 ^ 1023 := by rw [mul_two, add_sub_cancel_right]
    _ = 2 ^ 1024 - 2 ^ 1023 := by rw [← pow_succ]
    _ < bound := sub_lt_sub_left hgap _
  have hcast : (((2 : ℤ) ^ k : ℤ) : ℚ) = 2 ^ k := by push_cast; rfl
  rw [ofInt_eq_ok (by rwa [hcast, abs_of_pos (by positivity)]), hcast]

theorem ofInt_two_pow_of_le {k : ℕ} (h : maxExponent ≤ k) :
    ofInt (2 ^ k) = .error .overflowError := by
  have hle : bound ≤ 2 ^ k := calc
    bound ≤ 2 ^ 1024 := sub_le_self _ (by positivity)
    _ ≤ 2 ^ k := pow_le_pow_right₀ (by norm_num) h
  have hcast : (((2 : ℤ) ^ k : ℤ) : ℚ) = 2 ^ k := by push_cast; rfl
  rw [ofInt, if_pos (by rwa [hcast, abs_of_pos (by positivity)])]

@[simp] theorem trunc_ok_iff {x : Double} : Result.Ok (trunc x) ↔ x.IsFinite := by
  cases x <;> simp [trunc, IsFinite]

/-- Truncation does not increase the magnitude. -/
theorem abs_trunc_le (q : ℚ) : |((q.num.tdiv q.den : ℤ) : ℚ)| ≤ |q| := by
  have hd : (0 : ℚ) < q.den := by exact_mod_cast q.den_pos
  have hq : |q| = (q.num.natAbs : ℚ) / q.den := by
    conv_lhs => rw [← Rat.num_div_den q, abs_div, abs_of_pos hd]
    rw [Nat.cast_natAbs, Int.cast_abs]
  have hn : (q.num.tdiv q.den).natAbs = q.num.natAbs / q.den := by
    rw [Int.natAbs_tdiv, Int.natAbs_natCast]; rfl
  rw [hq, ← Int.cast_abs, Int.abs_eq_natAbs, hn, le_div_iff₀ hd, Int.cast_natCast]
  exact_mod_cast Nat.div_mul_le_self q.num.natAbs q.den

/-- A finite sum is exact. -/
theorem add_eq_fin {x y : Double} {q : ℚ} (h : x.add y = .fin q) :
    ∃ a b, x = .fin a ∧ y = .fin b ∧ q = a + b := by
  cases x <;> cases y <;> try cases h
  case fin.fin a b =>
    refine ⟨a, b, rfl, rfl, ?_⟩
    have hsum : ofRat (a + b) = .fin q := h
    unfold ofRat at hsum
    split_ifs at hsum
    exact (Double.fin.inj hsum).symm

/-- An integer is not cut. -/
theorem trunc_intCast (n : ℤ) : trunc (.fin n) = .ok n := by
  show Except.ok ((n : ℚ).num.tdiv (n : ℚ).den) = _
  rw [Rat.num_intCast, Rat.den_intCast, Nat.cast_one, Int.tdiv_one]

end Double

end Py
