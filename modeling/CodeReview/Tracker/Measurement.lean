import CodeReview.Lib.Statistics
import CodeReview.Py.Order
import Mathlib.Tactic.NormNum

/-!
# Measurements

A round counts the true and false positives and the false negatives of every pull request, and a
measurement is a list of rounds.  Two measurements are compared on the pull requests that both have:
the differences are resampled, and the quantiles of the resampled means bound the difference.

Arithmetic is exact.  The generator is seeded anew for every interval, so that what it draws is a
function of the number of pull requests and of resamples, which stays a parameter.

* `pairedDeltaCi_swap` : **swapping the two measurements negates the point and swaps and negates the
  bounds of the interval**;
* `lo_le_hi` : the lower bound is not above the upper one.
-/

namespace CodeReview

open Py Statistics

/-- The counts of one pull request. -/
structure Counts where
  tp : ℚ
  fp : ℚ
  fn : ℚ
  deriving DecidableEq, Repr

/-- Counts that a round does not have. -/
def Counts.zero : Counts := ⟨0, 0, 0⟩

/-- A round, by the id of the pull request. -/
abbrev PRCounts := List (String × Counts)

/-! ### The metrics -/

/-- `_safe_div`. -/
def safeDiv (num den : ℚ) : ℚ := if den = 0 then 0 else num / den

/-- `recall_from_counts`. -/
def recallFromCounts (c : Counts) : ℚ := safeDiv c.tp (c.tp + c.fn)

/-- `precision_from_counts`. -/
def precisionFromCounts (c : Counts) : ℚ := safeDiv c.tp (c.tp + c.fp)

/-- `f1_from_counts`. -/
def f1FromCounts (c : Counts) : ℚ :=
  safeDiv (2 * precisionFromCounts c * recallFromCounts c)
    (precisionFromCounts c + recallFromCounts c)

/-- A metric. -/
inductive Metric where
  | recallMetric
  | precisionMetric
  | f1Metric
  deriving DecidableEq, Repr

/-- `_METRIC_FNS`. -/
def Metric.fn : Metric → Counts → ℚ
  | recallMetric => recallFromCounts
  | precisionMetric => precisionFromCounts
  | f1Metric => f1FromCounts

/-! ### Pooling -/

/-- `_ordered_prs`. -/
def orderedPrs (round : PRCounts) : List String := sortedSet (round.map Prod.fst)

/-- `_ordered_prs_union`. -/
def orderedPrsUnion (rounds : List PRCounts) : List String :=
  sortedSet (rounds.flatMap fun round => round.map Prod.fst)

/-- `_counts_matrix`. -/
def countsMatrix (round : PRCounts) (prIds : List String) : List Counts :=
  prIds.map fun id => (Assoc.get? round id).getD .zero

/-- The counts of a pull request, averaged over the rounds. -/
def pooledCounts (rounds : List PRCounts) (id : String) : Counts :=
  let counts := rounds.map fun round => (Assoc.get? round id).getD .zero
  ⟨mean (counts.map Counts.tp), mean (counts.map Counts.fp), mean (counts.map Counts.fn)⟩

/-- `_pool_rounds`. -/
def poolRounds (rounds : List PRCounts) (prIds : List String) : List Counts :=
  if rounds = [] then prIds.map fun _ => .zero else prIds.map (pooledCounts rounds)

/-- `_metric_over_matrix`. -/
def metricOverMatrix (mat : List Counts) (metric : Metric) : ℚ :=
  metric.fn ⟨(mat.map Counts.tp).sum, (mat.map Counts.fp).sum, (mat.map Counts.fn).sum⟩

/-- `fp_per_pr_mean`. -/
def fpPerPrMean (rounds : List PRCounts) : ℚ :=
  let mat := poolRounds rounds (orderedPrsUnion rounds)
  if mat = [] then 0 else (mat.map Counts.fp).sum / mat.length

/-! ### Intervals -/

/-- What the seeded generator draws: for `n` pull requests and `b` resamples, `b` rows of `n`
indices. -/
abbrev Resample := ℕ → ℕ → List (List ℕ)

/-- The share of the resamples that an interval leaves out. -/
abbrev Level := {alpha : ℚ // 0 ≤ alpha ∧ alpha ≤ 1}

/-- The level of a 95 % interval. -/
def defaultLevel : Level := ⟨5 / 100, by norm_num, by norm_num⟩

/-- `B_DEFAULT`. -/
def bDefault : ℕ := 10000

/-- `CI`. -/
structure CI where
  point : ℚ
  lo : ℚ
  hi : ℚ
  deriving DecidableEq, Repr

/-- The interval of the opposite difference. -/
def CI.mirror (ci : CI) : CI := ⟨-ci.point, -ci.hi, -ci.lo⟩

/-- The interval between the quantiles of the resampled values. -/
def percentileCi (point : ℚ) (reps : List ℚ) (alpha : Level) : CI :=
  ⟨point, quantile reps (alpha.1 / 2), quantile reps (1 - alpha.1 / 2)⟩

/-- `bootstrap_ci`. -/
def bootstrapCi (idx : Resample) (rounds : List PRCounts) (metric : Metric) (b : ℕ)
    (alpha : Level) : CI :=
  let mat := poolRounds rounds (orderedPrsUnion rounds)
  let point := metricOverMatrix mat metric
  if mat.length = 0 then ⟨point, point, point⟩
  else percentileCi point ((idx mat.length b).map fun row =>
    metricOverMatrix (row.map fun i => mat.getD i .zero) metric) alpha

/-- The means of the resampled differences. -/
def resampledMeans (idx : Resample) (delta : List ℚ) (b : ℕ) : List ℚ :=
  (idx delta.length b).map fun row => mean (row.map fun i => delta.getD i 0)

/-- `_paired_bootstrap_ci`. -/
def pairedBootstrapCi (idx : Resample) (delta : List ℚ) (b : ℕ) (alpha : Level) : CI :=
  if delta.length = 0 then ⟨0, 0, 0⟩
  else percentileCi (mean delta) (resampledMeans idx delta b) alpha

/-- The pull requests of both measurements. -/
def sharedPrs (baseline candidate : List PRCounts) : List String :=
  sortedSet ((orderedPrsUnion baseline).filter (· ∈ orderedPrsUnion candidate))

/-- `_per_pr_metric_vectors`. -/
def perPrMetricVectors (baseline candidate : List PRCounts) (metric : Metric) :
    List ℚ × List ℚ × List String :=
  let shared := sharedPrs baseline candidate
  ((poolRounds baseline shared).map metric.fn, (poolRounds candidate shared).map metric.fn, shared)

/-- `c_vec - b_vec`. -/
def difference (b c : List ℚ) : List ℚ := List.zipWith (fun x y => y - x) b c

/-- `paired_delta_ci`. -/
def pairedDeltaCi (idx : Resample) (baseline candidate : List PRCounts) (metric : Metric) (b : ℕ)
    (alpha : Level) : CI :=
  let vectors := perPrMetricVectors baseline candidate metric
  pairedBootstrapCi idx (difference vectors.1 vectors.2.1) b alpha

/-- `_fp_per_pr_delta_ci`. -/
def fpPerPrDeltaCi (idx : Resample) (baseline candidate : List PRCounts) (b : ℕ) (alpha : Level) :
    CI :=
  let shared := sharedPrs baseline candidate
  pairedBootstrapCi idx (difference ((poolRounds baseline shared).map Counts.fp)
    ((poolRounds candidate shared).map Counts.fp)) b alpha

/-! ### Swapping the measurements -/

theorem difference_swap (b c : List ℚ) : difference c b = (difference b c).map (- ·) := by
  rw [difference, difference, List.map_zipWith, List.zipWith_comm]
  congr
  funext x y
  exact (neg_sub y x).symm

theorem sharedPrs_swap (baseline candidate : List PRCounts) :
    sharedPrs candidate baseline = sharedPrs baseline candidate := by
  refine sortedSet_congr ?_
  intro id
  rw [List.mem_filter, List.mem_filter, decide_eq_true_iff, decide_eq_true_iff]
  exact and_comm

theorem resampledMeans_neg (idx : Resample) (delta : List ℚ) (b : ℕ) :
    resampledMeans idx (delta.map (- ·)) b = (resampledMeans idx delta b).map (- ·) := by
  rw [resampledMeans, resampledMeans, List.length_map, List.map_map]
  refine List.map_congr_left ?_
  intro row _
  have hrow : (row.map fun i => (delta.map (- ·)).getD i 0) =
      (row.map fun i => delta.getD i 0).map (- ·) := by
    rw [List.map_map]
    refine List.map_congr_left ?_
    intro i _
    show (delta.map (- ·)).getD i 0 = -delta.getD i 0
    rw [← neg_zero, List.getD_map, neg_zero]
  show mean (row.map fun i => (delta.map (- ·)).getD i 0) = -mean _
  rw [hrow, mean_neg]

theorem percentileCi_neg (point : ℚ) (reps : List ℚ) (alpha : Level) :
    percentileCi (-point) (reps.map (- ·)) alpha = (percentileCi point reps alpha).mirror := by
  obtain ⟨alpha, h, h'⟩ := alpha
  have hlo := quantile_neg reps (q := 1 - alpha / 2) (by linarith) (by linarith)
  have hhi := quantile_neg reps (q := alpha / 2) (by linarith) (by linarith)
  rw [sub_sub_cancel] at hlo
  rw [percentileCi, percentileCi, CI.mirror, hlo, hhi]

/-- The interval of the negated differences. -/
theorem pairedBootstrapCi_neg (idx : Resample) (delta : List ℚ) (b : ℕ) (alpha : Level) :
    pairedBootstrapCi idx (delta.map (- ·)) b alpha =
      (pairedBootstrapCi idx delta b alpha).mirror := by
  rw [pairedBootstrapCi, pairedBootstrapCi, List.length_map]
  split_ifs with hempty
  · rfl
  · rw [mean_neg, resampledMeans_neg, percentileCi_neg]

/-- **Swapping the measurements mirrors the interval.** -/
theorem pairedDeltaCi_swap (idx : Resample) (baseline candidate : List PRCounts) (metric : Metric)
    (b : ℕ) (alpha : Level) : pairedDeltaCi idx candidate baseline metric b alpha =
      (pairedDeltaCi idx baseline candidate metric b alpha).mirror := by
  rw [pairedDeltaCi, pairedDeltaCi, perPrMetricVectors, perPrMetricVectors, sharedPrs_swap,
    ← pairedBootstrapCi_neg, ← difference_swap]

/-- The lower bound is not above the upper one. -/
theorem lo_le_hi (idx : Resample) (delta : List ℚ) (b : ℕ) (alpha : Level) :
    (pairedBootstrapCi idx delta b alpha).lo ≤ (pairedBootstrapCi idx delta b alpha).hi := by
  rw [pairedBootstrapCi]
  split_ifs with hempty
  · exact le_refl _
  · obtain ⟨alpha, h, h'⟩ := alpha
    exact quantile_mono _ (by linarith) (by linarith)

theorem point_bootstrapCi (idx : Resample) (rounds : List PRCounts) (metric : Metric) (b : ℕ)
    (alpha : Level) : (bootstrapCi idx rounds metric b alpha).point =
      metricOverMatrix (poolRounds rounds (orderedPrsUnion rounds)) metric := by
  by_cases hempty : (poolRounds rounds (orderedPrsUnion rounds)).length = 0
  · exact congrArg CI.point (if_pos hempty)
  · exact congrArg CI.point (if_neg hempty)

/-! ### Equal differences -/

/-- The generator draws `b` rows of `n` indices below `n`. -/
def Draws (idx : Resample) : Prop :=
  ∀ n b, (idx n b).length = b ∧ ∀ row ∈ idx n b, row.length = n ∧ ∀ i ∈ row, i < n

/-- Where every pull request has the same difference, so has every resample. -/
theorem pairedBootstrapCi_replicate {idx : Resample} (hidx : Draws idx) {n b : ℕ} (hn : n ≠ 0)
    (hb : b ≠ 0) (d : ℚ) (alpha : Level) :
    pairedBootstrapCi idx (List.replicate n d) b alpha = ⟨d, d, d⟩ := by
  have hreps : resampledMeans idx (List.replicate n d) b = List.replicate b d := by
    rw [resampledMeans, List.length_replicate]
    refine List.eq_replicate_iff.2 ⟨by rw [List.length_map, (hidx n b).1], ?_⟩
    intro m hm
    obtain ⟨row, hrow, rfl⟩ := List.mem_map.1 hm
    obtain ⟨hlen, hbelow⟩ := (hidx n b).2 row hrow
    have hdrawn : (row.map fun i => (List.replicate n d).getD i 0) = List.replicate n d := by
      refine List.eq_replicate_iff.2 ⟨by rw [List.length_map, hlen], ?_⟩
      intro x hx
      obtain ⟨i, hi, rfl⟩ := List.mem_map.1 hx
      have hlt : i < (List.replicate n d).length := by
        rw [List.length_replicate]
        exact hbelow i hi
      rw [List.getD_eq_getElem _ _ hlt, List.getElem_replicate]
    rw [hdrawn, mean_replicate hn]
  rw [pairedBootstrapCi, List.length_replicate, if_neg hn, percentileCi, hreps, mean_replicate hn,
    quantile_replicate hb, quantile_replicate hb]

end CodeReview
