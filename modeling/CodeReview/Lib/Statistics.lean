import Mathlib.Algebra.Order.BigOperators.Group.List
import Mathlib.Algebra.Order.Floor.Semiring
import Mathlib.Algebra.Order.Field.Basic
import Mathlib.Data.List.GetD
import Mathlib.Data.List.Sort
import Mathlib.Tactic.Linarith
import Mathlib.Tactic.Ring

/-!
# Means and quantiles

The statistics of a list of numbers: its mean, its values in order, and the quantiles between them
by linear interpolation.

* `mean_neg`, `quantile_neg` : **the statistics of the negated numbers are those of the numbers,
  negated and at the mirrored level**;
* `quantile_mono` : a higher level has a higher quantile;
* `quantile_replicate` : all quantiles of one value are that value.
-/

namespace Statistics

variable {K : Type*} [Field K]

/-- The arithmetic mean. -/
def mean (xs : List K) : K := xs.sum / xs.length

theorem mean_neg (xs : List K) : mean (xs.map (- ·)) = -mean xs := by
  have hsum : (xs.map (- ·)).sum = -xs.sum := by
    induction xs with
    | nil => simp
    | cons x xs ih =>
      rw [List.map_cons, List.sum_cons, List.sum_cons, ih]
      ring
  rw [mean, hsum, List.length_map, mean, neg_div]

theorem mean_replicate [CharZero K] {n : ℕ} (hn : n ≠ 0) (x : K) :
    mean (List.replicate n x) = x := by
  have hcast : (n : K) ≠ 0 := Nat.cast_ne_zero.2 hn
  rw [mean, List.sum_replicate, List.length_replicate, nsmul_eq_mul]
  exact mul_div_cancel_left₀ x hcast

/-! ### Interpolation -/

variable [LinearOrder K] [IsStrictOrderedRing K] [FloorSemiring K]

/-- A sequence at a position between the integers. -/
def interpolate (s : ℕ → K) (p : K) : K := s ⌊p⌋₊ + (p - ⌊p⌋₊) * (s (⌊p⌋₊ + 1) - s ⌊p⌋₊)

/-- The segment on either side of an integer gives its value. -/
theorem interpolate_eq (s : ℕ → K) {p : K} {k : ℕ} (h : k ≤ p) (h' : p ≤ k + 1) :
    interpolate s p = s k + (p - k) * (s (k + 1) - s k) := by
  have hp : 0 ≤ p := (Nat.cast_nonneg k).trans h
  rcases h'.lt_or_eq with hlt | rfl
  · have hfloor : ⌊p⌋₊ = k := (Nat.floor_eq_iff hp).2 ⟨h, hlt⟩
    rw [interpolate, hfloor]
  · have hfloor : ⌊(k + 1 : K)⌋₊ = k + 1 := by
      rw [Nat.floor_eq_iff hp]
      push_cast
      exact ⟨le_refl _, by linarith⟩
    rw [interpolate, hfloor]
    push_cast
    ring

theorem le_interpolate {s : ℕ → K} (hs : Monotone s) {p : K} (hp : 0 ≤ p) :
    s ⌊p⌋₊ ≤ interpolate s p := by
  have hstep : s ⌊p⌋₊ ≤ s (⌊p⌋₊ + 1) := hs (Nat.le_succ _)
  have hfloor : (⌊p⌋₊ : K) ≤ p := Nat.floor_le hp
  have hprod : 0 ≤ (p - ⌊p⌋₊) * (s (⌊p⌋₊ + 1) - s ⌊p⌋₊) :=
    mul_nonneg (by linarith) (by linarith)
  rw [interpolate]
  linarith

theorem interpolate_le {s : ℕ → K} (hs : Monotone s) (p : K) :
    interpolate s p ≤ s (⌊p⌋₊ + 1) := by
  have hstep : s ⌊p⌋₊ ≤ s (⌊p⌋₊ + 1) := hs (Nat.le_succ _)
  have hfloor : p < ⌊p⌋₊ + 1 := Nat.lt_floor_add_one p
  have hprod : (p - ⌊p⌋₊) * (s (⌊p⌋₊ + 1) - s ⌊p⌋₊) ≤ 1 * (s (⌊p⌋₊ + 1) - s ⌊p⌋₊) :=
    mul_le_mul_of_nonneg_right (by linarith) (by linarith)
  rw [interpolate]
  linarith

/-- Interpolation keeps the order. -/
theorem interpolate_mono {s : ℕ → K} (hs : Monotone s) {p q : K} (hp : 0 ≤ p) (h : p ≤ q) :
    interpolate s p ≤ interpolate s q := by
  rcases (Nat.floor_mono h).eq_or_lt with hfloor | hlt
  · have hstep : s ⌊p⌋₊ ≤ s (⌊p⌋₊ + 1) := hs (Nat.le_succ _)
    have hprod : (p - ⌊p⌋₊) * (s (⌊p⌋₊ + 1) - s ⌊p⌋₊) ≤ (q - ⌊p⌋₊) * (s (⌊p⌋₊ + 1) - s ⌊p⌋₊) :=
      mul_le_mul_of_nonneg_right (by linarith) (by linarith)
    rw [interpolate, interpolate, ← hfloor]
    linarith
  · calc interpolate s p ≤ s (⌊p⌋₊ + 1) := interpolate_le hs p
      _ ≤ s ⌊q⌋₊ := hs hlt
      _ ≤ interpolate s q := le_interpolate hs (hp.trans h)

/-- A sequence read backwards and negated, at the mirrored position. -/
theorem interpolate_reflect (s : ℕ → K) {n : ℕ} {p : K} (hp : 0 ≤ p) (hn : p ≤ n) :
    interpolate (fun i => -s (n - i)) (n - p) = -interpolate s p := by
  by_cases hend : p = n
  · have hzero := interpolate_eq (fun i => -s (n - i)) (p := (n : K) - p) (k := 0)
      (by rw [hend]; simp) (by rw [hend]; simp)
    have hlast := interpolate_eq s (p := p) (k := n) (by rw [hend]) (by rw [hend]; linarith)
    rw [hzero, hlast, hend]
    simp
  · have hlt : ⌊p⌋₊ < n := by
      rw [Nat.floor_lt hp]
      exact lt_of_le_of_ne hn hend
    obtain ⟨m, rfl⟩ := Nat.exists_eq_add_of_lt hlt
    have hfloor : (⌊p⌋₊ : K) ≤ p := Nat.floor_le hp
    have hnext : p < ⌊p⌋₊ + 1 := Nat.lt_floor_add_one p
    have hcast : ((⌊p⌋₊ + m + 1 : ℕ) : K) = ⌊p⌋₊ + m + 1 := by push_cast; ring
    have hmirror := interpolate_eq (fun i => -s (⌊p⌋₊ + m + 1 - i))
      (p := ((⌊p⌋₊ + m + 1 : ℕ) : K) - p) (k := m) (by rw [hcast]; linarith)
      (by rw [hcast]; linarith)
    have hindex : ⌊p⌋₊ + m + 1 - m = ⌊p⌋₊ + 1 := by omega
    have hindex' : ⌊p⌋₊ + m + 1 - (m + 1) = ⌊p⌋₊ := by omega
    rw [hmirror, hindex, hindex', interpolate, hcast]
    ring

/-! ### Values in order -/

/-- The values in order; beyond the last one the sequence stays there. -/
def ordered (xs : List K) (i : ℕ) : K :=
  (xs.insertionSort (· ≤ ·)).getD (min i (xs.length - 1)) 0

/-- The value at level `q`, by linear interpolation of the values in order. -/
def quantile (xs : List K) (q : K) : K := interpolate (ordered xs) (q * (xs.length - 1 : ℕ))

omit [IsStrictOrderedRing K] [FloorSemiring K] in
theorem monotone_ordered (xs : List K) : Monotone (ordered xs) := by
  intro i j hij
  have hlen : (xs.insertionSort (· ≤ ·)).length = xs.length := List.length_insertionSort _ _
  by_cases hempty : xs.length = 0
  · have hnil : xs = [] := List.length_eq_zero_iff.1 hempty
    rw [hnil]
    exact le_refl _
  · have hi : min i (xs.length - 1) < (xs.insertionSort (· ≤ ·)).length := by omega
    have hj : min j (xs.length - 1) < (xs.insertionSort (· ≤ ·)).length := by omega
    rw [ordered, ordered, List.getD_eq_getElem _ _ hi, List.getD_eq_getElem _ _ hj]
    rcases Nat.lt_or_ge (min i (xs.length - 1)) (min j (xs.length - 1)) with hlt | hge
    · exact List.pairwise_iff_getElem.1 (List.pairwise_insertionSort _ _) _ _ hi hj hlt
    · have heq : min i (xs.length - 1) = min j (xs.length - 1) := by omega
      simp only [heq, le_refl]

omit [FloorSemiring K] in
/-- The negated values stand in the opposite order. -/
theorem insertionSort_neg (xs : List K) : (xs.map (- ·)).insertionSort (· ≤ ·) =
    ((xs.insertionSort (· ≤ ·)).map (- ·)).reverse := by
  refine List.Perm.eq_of_pairwise' (List.pairwise_insertionSort _ _) ?_ ?_
  · rw [List.pairwise_reverse, List.pairwise_map]
    exact (List.pairwise_insertionSort (· ≤ ·) xs).imp fun hle => neg_le_neg hle
  · have hsorted : ((xs.insertionSort (· ≤ ·)).map (- ·)).Perm (xs.map (- ·)) :=
      (List.perm_insertionSort (· ≤ ·) xs).map _
    exact (List.perm_insertionSort _ _).trans (hsorted.symm.trans (List.reverse_perm _).symm)

omit [FloorSemiring K] in
theorem ordered_neg (xs : List K) :
    ordered (xs.map (- ·)) = fun i => -ordered xs (xs.length - 1 - i) := by
  funext i
  have hlen : (xs.insertionSort (· ≤ ·)).length = xs.length := List.length_insertionSort _ _
  by_cases hempty : xs.length = 0
  · have hnil : xs = [] := List.length_eq_zero_iff.1 hempty
    rw [hnil]
    exact neg_zero.symm
  · have hi : min i (xs.length - 1) <
        ((xs.insertionSort (· ≤ ·)).map (- ·)).reverse.length := by
      rw [List.length_reverse, List.length_map]
      omega
    have hj : min (xs.length - 1 - i) (xs.length - 1) < (xs.insertionSort (· ≤ ·)).length := by
      omega
    have hindex : (xs.insertionSort (· ≤ ·)).length - 1 - min i (xs.length - 1) =
        min (xs.length - 1 - i) (xs.length - 1) := by omega
    rw [ordered, ordered, List.length_map, insertionSort_neg, List.getD_eq_getElem _ _ hi,
      List.getD_eq_getElem _ _ hj, List.getElem_reverse, List.getElem_map]
    simp only [List.length_map, hindex]

/-- **The quantiles of the negated values are those of the values, negated and at the mirrored
level.** -/
theorem quantile_neg (xs : List K) {q : K} (h : 0 ≤ q) (h' : q ≤ 1) :
    quantile (xs.map (- ·)) (1 - q) = -quantile xs q := by
  have hlast : (0 : K) ≤ (xs.length - 1 : ℕ) := Nat.cast_nonneg _
  have hmirror : (1 - q) * ((xs.length - 1 : ℕ) : K) =
      (xs.length - 1 : ℕ) - q * (xs.length - 1 : ℕ) := by ring
  rw [quantile, List.length_map, ordered_neg, hmirror, quantile]
  refine interpolate_reflect _ (mul_nonneg h hlast) ?_
  calc q * ((xs.length - 1 : ℕ) : K) ≤ 1 * (xs.length - 1 : ℕ) :=
        mul_le_mul_of_nonneg_right h' hlast
    _ = (xs.length - 1 : ℕ) := one_mul _

/-- A higher level has a higher quantile. -/
theorem quantile_mono (xs : List K) {p q : K} (hp : 0 ≤ p) (h : p ≤ q) :
    quantile xs p ≤ quantile xs q := by
  have hlast : (0 : K) ≤ (xs.length - 1 : ℕ) := Nat.cast_nonneg _
  exact interpolate_mono (monotone_ordered xs) (mul_nonneg hp hlast)
    (mul_le_mul_of_nonneg_right h hlast)

omit [IsStrictOrderedRing K] in
/-- All quantiles of one value are that value. -/
theorem quantile_replicate {n : ℕ} (hn : n ≠ 0) (x q : K) :
    quantile (List.replicate n x) q = x := by
  have hordered (i : ℕ) : ordered (List.replicate n x) i = x := by
    have hlen : ((List.replicate n x).insertionSort (· ≤ ·)).length = n := by
      rw [List.length_insertionSort, List.length_replicate]
    have hi : min i ((List.replicate n x).length - 1) <
        ((List.replicate n x).insertionSort (· ≤ ·)).length := by
      rw [hlen, List.length_replicate]
      omega
    rw [ordered, List.getD_eq_getElem _ _ hi]
    exact List.eq_of_mem_replicate ((List.mem_insertionSort (· ≤ ·)).1 (List.getElem_mem hi))
  rw [quantile, interpolate, hordered, hordered, sub_self, mul_zero, add_zero]

end Statistics
