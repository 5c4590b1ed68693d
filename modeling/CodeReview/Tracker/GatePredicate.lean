import CodeReview.Tracker.Measurement
import CodeReview.Tracker.SummaryGate
import Mathlib.Analysis.Real.Sqrt

/-!
# The gate over measurements

`gate_predicate` decides from the rounds of two measurements whether the candidate replaces the
baseline.

* `gate4Stability_iff` : the fourth gate compares standard deviations, without a square root;
* `GateFlags.verdict_eq_promote` : what a promotion takes;
* `promotion_antisymm` : **no two measurements promote each other.**
-/

namespace CodeReview

open Py Statistics

/-! ### Stability and cost -/

/-- `f1_per_round`. -/
def f1PerRound (rounds : List PRCounts) : List ℚ :=
  rounds.map fun round => metricOverMatrix (countsMatrix round (orderedPrs round)) .f1Metric

/-- The square of `_stdev`. -/
def variance (values : List ℚ) : ℚ :=
  if values.length < 2 then 0 else mean (values.map fun x => (x - mean values) ^ 2)

/-- The standard deviation with the variance `v` is at most that with the variance `w` and the
slack. -/
def stdevAtMost (v w slack : ℚ) : Bool :=
  v - w - slack ^ 2 ≤ 0 || (v - w - slack ^ 2) ^ 2 ≤ 4 * slack ^ 2 * w

/-- `mean_cost`. -/
def meanCost (perRoundCost : Option (List Double)) : Option Double :=
  match perRoundCost with
  | some (c :: cs) =>
    some (((c :: cs).foldl Double.add (.fin 0)).div (.fin ((c :: cs).length : ℕ)))
  | _ => none

/-- The cost guard; it is passed where a cost was not recorded. -/
def costGuard : Option Double → Option Double → Bool
  | some b, some c => c.le (Double.mul (.fin gate5CostMultiplier) b)
  | _, _ => true

/-! ### The predicate -/

/-- The intervals and numbers that the verdict rests on; of the standard deviations their
squares. -/
structure PredicateDetail where
  recallBaseline : CI
  recallCandidate : CI
  recallDeltaCi : CI
  f1Baseline : CI
  f1Candidate : CI
  f1DeltaCi : CI
  fpPerPrBaseline : ℚ
  fpPerPrCandidate : ℚ
  fpPerPrDeltaCiHi : ℚ
  f1VarianceBaseline : ℚ
  f1VarianceCandidate : ℚ
  costBaseline : Option Double
  costCandidate : Option Double
  notes : List String
  deriving DecidableEq, Repr

/-- The mapping that `gate_predicate` returns. -/
structure PredicateReturn where
  verdict : GateVerdict
  nSharedPrs : ℕ
  underpowered : Bool
  gates : GateFlags
  detail : PredicateDetail

/-- What a measurement is judged by: its rounds, and the cost of each round. -/
structure Measurement where
  rounds : List PRCounts
  cost : Option (List Double)

section

variable (idx : Resample) (baseline candidate : Measurement) (b : ℕ)

/-- The five gates. -/
def predicateGates : GateFlags :=
  let base := baseline.rounds
  let cand := candidate.rounds
  { gate1Recall :=
      (bootstrapCi idx base .recallMetric b defaultLevel).point ≤
          (bootstrapCi idx cand .recallMetric b defaultLevel).point &&
        gate1RecallDeltaFloor ≤ (pairedDeltaCi idx base cand .recallMetric b defaultLevel).lo
    gate2Noise := fpPerPrMean cand ≤ fpPerPrMean base &&
      (fpPerPrDeltaCi idx base cand b defaultLevel).hi ≤ gate2FpDeltaCeiling
    gate3Progress := 0 < (pairedDeltaCi idx base cand .f1Metric b defaultLevel).lo
    gate4Stability :=
      stdevAtMost (variance (f1PerRound cand)) (variance (f1PerRound base)) gate4StdevSlack
    gate5Cost := costGuard (meanCost baseline.cost) (meanCost candidate.cost) }

/-- The number of pull requests of both measurements. -/
def nShared : ℕ := (perPrMetricVectors baseline.rounds candidate.rounds .f1Metric).2.2.length

/-- Some cost was not recorded. -/
def costUnrecorded : Bool :=
  (meanCost baseline.cost).isNone || (meanCost candidate.cost).isNone

/-- The gates that tell a regression are green. -/
def GateFlags.noRegression (g : GateFlags) : Bool :=
  g.gate1Recall && g.gate2Noise && g.gate4Stability && g.gate5Cost

/-- The verdict, with `n` shared pull requests. -/
def GateFlags.verdict (g : GateFlags) (n : ℕ) (minPrs : ℤ) : GateVerdict :=
  if n < minPrs then .inconclusive
  else if g.noRegression && g.gate3Progress then .promote
  else if g.noRegression && !g.gate3Progress then .inconclusive
  else .revert

/-- The note on the verdict. -/
def GateFlags.notes (g : GateFlags) (n : ℕ) (minPrs : ℤ) : List String :=
  if n < minPrs then ["underpowered: " ++ toString n ++ " shared PRs < min_prs=" ++
    toString minPrs ++ "; cannot PROMOTE"]
  else if g.noRegression && !g.gate3Progress then
    ["only GATE-3 straddles zero; retry at next rung"]
  else []

/-- `gate_predicate`. -/
def gatePredicate (minPrs : ℤ) : PredicateReturn :=
  let base := baseline.rounds
  let cand := candidate.rounds
  let gates := predicateGates idx baseline candidate b
  let n := nShared baseline candidate
  { verdict := gates.verdict n minPrs
    nSharedPrs := n
    underpowered := n < minPrs
    gates := gates
    detail :=
      { recallBaseline := bootstrapCi idx base .recallMetric b defaultLevel
        recallCandidate := bootstrapCi idx cand .recallMetric b defaultLevel
        recallDeltaCi := pairedDeltaCi idx base cand .recallMetric b defaultLevel
        f1Baseline := bootstrapCi idx base .f1Metric b defaultLevel
        f1Candidate := bootstrapCi idx cand .f1Metric b defaultLevel
        f1DeltaCi := pairedDeltaCi idx base cand .f1Metric b defaultLevel
        fpPerPrBaseline := fpPerPrMean base
        fpPerPrCandidate := fpPerPrMean cand
        fpPerPrDeltaCiHi := (fpPerPrDeltaCi idx base cand b defaultLevel).hi
        f1VarianceBaseline := variance (f1PerRound base)
        f1VarianceCandidate := variance (f1PerRound cand)
        costBaseline := meanCost baseline.cost
        costCandidate := meanCost candidate.cost
        notes := (if costUnrecorded baseline candidate then
          ["cost not recorded for both arms; GATE-5 treated as pass"] else []) ++
            gates.notes n minPrs } }

end

/-- The fourth gate compares the square roots of the variances. -/
theorem stdevAtMost_iff {v w slack : ℚ} (hv : 0 ≤ v) (hw : 0 ≤ w) (hslack : 0 < slack) :
    stdevAtMost v w slack ↔ √(v : ℝ) ≤ √(w : ℝ) + slack := by
  have hv' : (0 : ℝ) ≤ v := by exact_mod_cast hv
  have hw' : (0 : ℝ) ≤ w := by exact_mod_cast hw
  have hslack' : (0 : ℝ) < slack := by exact_mod_cast hslack
  have hsum : 0 ≤ √(w : ℝ) + slack := add_nonneg (Real.sqrt_nonneg _) hslack'.le
  have hsq : √(w : ℝ) ^ 2 = w := Real.sq_sqrt hw'
  have hprod : 0 ≤ 2 * (slack : ℝ) * √(w : ℝ) := by positivity
  have hsquare : (2 * (slack : ℝ) * √(w : ℝ)) ^ 2 = 4 * slack ^ 2 * w := by
    rw [mul_pow, mul_pow, hsq]
    norm_num
  -- squared once, the comparison has a single root left
  have hdelta : √(v : ℝ) ≤ √(w : ℝ) + slack ↔
      (v : ℝ) - w - slack ^ 2 ≤ 2 * slack * √(w : ℝ) := by
    rw [Real.sqrt_le_left hsum, add_sq, hsq]
    constructor <;> intro h <;> linarith
  rw [hdelta, stdevAtMost, Bool.or_eq_true, decide_eq_true_iff, decide_eq_true_iff]
  have hcast : (v - w - slack ^ 2) ^ 2 ≤ 4 * slack ^ 2 * w ↔
      ((v : ℝ) - w - slack ^ 2) ^ 2 ≤ 4 * slack ^ 2 * w := by exact_mod_cast Iff.rfl
  have hcast' : v - w - slack ^ 2 ≤ 0 ↔ (v : ℝ) - w - slack ^ 2 ≤ 0 := by
    exact_mod_cast Iff.rfl
  rw [hcast, hcast', ← hsquare]
  constructor
  -- the left side is negative, or both sides may be squared again
  · rintro (hneg | hsmall)
    · exact hneg.trans hprod
    · exact le_of_sq_le_sq hsmall hprod
  · intro h
    by_cases hneg : (v : ℝ) - w - slack ^ 2 ≤ 0
    · exact .inl hneg
    · exact .inr (pow_le_pow_left₀ (not_le.1 hneg).le h 2)

theorem variance_nonneg (values : List ℚ) : 0 ≤ variance values := by
  unfold variance
  split_ifs
  · exact le_refl _
  · refine div_nonneg (List.sum_nonneg fun x hx => ?_) (Nat.cast_nonneg _)
    obtain ⟨y, -, rfl⟩ := List.mem_map.1 hx
    exact sq_nonneg _

/-- **GATE-4**: the standard deviation of the candidate's F1 values is at most that of the
baseline's and the slack. -/
theorem gate4Stability_iff (idx : Resample) (baseline candidate : Measurement) (b : ℕ) :
    (predicateGates idx baseline candidate b).gate4Stability ↔
      √(variance (f1PerRound candidate.rounds) : ℝ) ≤
        √(variance (f1PerRound baseline.rounds) : ℝ) + gate4StdevSlack :=
  stdevAtMost_iff (variance_nonneg _) (variance_nonneg _) (by norm_num [gate4StdevSlack])

/-! ### Two measurements -/

theorem GateFlags.verdict_eq_promote {g : GateFlags} {n : ℕ} {minPrs : ℤ} :
    g.verdict n minPrs = .promote ↔ minPrs ≤ n ∧ g.noRegression ∧ g.gate3Progress := by
  unfold verdict
  by_cases hpower : (n : ℤ) < minPrs
  · simp [hpower]
  · cases hregression : g.noRegression <;> cases hprogress : g.gate3Progress <;>
      simp [hpower, not_lt.1 hpower]

/-- A promotion shows progress. -/
theorem progress_of_promote {idx : Resample} {baseline candidate : Measurement} {b : ℕ} {minPrs : ℤ}
    (h : (gatePredicate idx baseline candidate b minPrs).verdict = .promote) :
    0 < (pairedDeltaCi idx baseline.rounds candidate.rounds .f1Metric b defaultLevel).lo := by
  have hprogress := (GateFlags.verdict_eq_promote.1 h).2.2
  exact of_decide_eq_true hprogress

/-- **The gate is antisymmetric**: swapping two measurements mirrors the interval of every metric,
and no two measurements promote each other. -/
theorem promotion_antisymm (idx : Resample) (baseline candidate : Measurement) (b : ℕ) :
    (∀ (metric : Metric) (alpha : Level),
        pairedDeltaCi idx candidate.rounds baseline.rounds metric b alpha =
          (pairedDeltaCi idx baseline.rounds candidate.rounds metric b alpha).mirror) ∧
      ∀ minPrs minPrs' : ℤ,
        ¬ ((gatePredicate idx baseline candidate b minPrs).verdict = .promote ∧
          (gatePredicate idx candidate baseline b minPrs').verdict = .promote) := by
  refine ⟨fun metric alpha => pairedDeltaCi_swap idx _ _ metric b alpha, ?_⟩
  rintro minPrs minPrs' ⟨hforth, hback⟩
  have hlo := progress_of_promote hforth
  have hhi := progress_of_promote hback
  -- the lower bound of the way back is the upper bound of the way forth, negated
  rw [pairedDeltaCi_swap] at hhi
  have hle : (pairedDeltaCi idx baseline.rounds candidate.rounds .f1Metric b defaultLevel).lo ≤
      (pairedDeltaCi idx baseline.rounds candidate.rounds .f1Metric b defaultLevel).hi :=
    lo_le_hi idx _ b defaultLevel
  have hneg : 0 <
      -(pairedDeltaCi idx baseline.rounds candidate.rounds .f1Metric b defaultLevel).hi := hhi
  linarith

end CodeReview
