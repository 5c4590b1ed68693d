import CodeReview.Py.Binary64
import CodeReview.Py.Text
import Mathlib.Data.List.Infix

/-!
# The gate over summary statistics

`summary_stat_gate` decides from the columns of two rows whether a candidate replaces its baseline.
Five gates compare statistics of the rows; a sixth test asks whether the candidate was measured on
enough pull requests.  The comparisons are those of doubles: what is read, the constants and the
result of every operation are rounded.

* `promotes_iff` : what a promotion takes, as inequalities between the columns;
* `failsClosed_iff` : **a missing statistic promotes exactly where the inequalities hold with 0 in
  its place**;
* `floorKept_iff` : **an experiment on too few pull requests, or on an unknown number of them,
  promotes exactly where the digits of its id do not make a number below the floor.**
-/

namespace CodeReview

open Py

/-- `GATE1_RECALL_DELTA_FLOOR`. -/
def gate1RecallDeltaFloor : ℚ := -3 / 100

/-- `GATE2_FP_DELTA_CEILING`. -/
def gate2FpDeltaCeiling : ℚ := 30 / 100

/-- `GATE4_STDEV_SLACK`. -/
def gate4StdevSlack : ℚ := 2 / 100

/-- `GATE5_COST_MULTIPLIER`. -/
def gate5CostMultiplier : ℚ := 125 / 100

/-- `MIN_PRS_FOR_PROMOTE`. -/
def minPrsForPromote : ℕ := 12

/-- A verdict of the gate. -/
inductive GateVerdict where
  | promote
  | revert
  | inconclusive
  deriving DecidableEq, Repr

/-- Its text in the tracker. -/
def GateVerdict.text : GateVerdict → String
  | promote => "promote"
  | revert => "revert"
  | inconclusive => "inconclusive"

/-- Which gates are green. -/
structure GateFlags where
  gate1Recall : Bool
  gate2Noise : Bool
  gate3Progress : Bool
  gate4Stability : Bool
  gate5Cost : Bool
  deriving DecidableEq, Repr

/-- `all(gates.values())`. -/
def GateFlags.all (g : GateFlags) : Bool :=
  g.gate1Recall && g.gate2Noise && g.gate3Progress && g.gate4Stability && g.gate5Cost

/-- The mapping that a gate returns. -/
structure GateReturn (δ : Type) where
  verdict : GateVerdict
  gates : GateFlags
  detail : δ

/-! ### Reading the rows -/

/-- `s.isdigit()`, where `isDigit` tells the digits of Unicode. -/
def strIsDigit (isDigit : Char → Bool) (s : String) : Bool := s ≠ "" && s.toList.all isDigit

/-- The text where it consists of digits; only a `str` has `isdigit`. -/
def digitsOf (isDigit : Char → Bool) : Value → Result String
  | .str s => .ok (if strIsDigit isDigit s then s else "")
  | _ => .error .attributeError

/-- `_pr_set_rung`: the digits of the id, wherever they stand. -/
def prSetRung (isDigit : Char → Bool) (rt : Runtime) (prSetId : Value) : Result (Option ℤ) :=
  if prSetId.truthy then do
    let parts ← (← prSetId.iter).mapM (digitsOf isDigit)
    if String.join parts = "" then return none
    return some (← rt.toInt (.str (String.join parts)))
  else .ok none

/-- A statistic of a row; a missing one is read as 0. -/
def stat (rt : Runtime) (row : Dict) (key : String) : Result Double :=
  match row.get key with
  | .none => .ok (.fin 0)
  | v => Double.rounded <$> rt.toFloat v

/-- The cost of a row, if it is a number. -/
def costMean (row : Dict) : Result (Option Double) :=
  match row.get "cost_mean" with
  | .int n => (fun x => some x.rounded) <$> Double.ofInt n
  | .float x => .ok (some x.rounded)
  | _ => .ok none

/-- What the gates read of a baseline `B` and a candidate `C`. -/
structure SummaryStats where
  recB : Double
  recC : Double
  fpB : Double
  fpC : Double
  f1B : Double
  f1C : Double
  f1LoB : Double
  f1HiB : Double
  f1LoC : Double
  stdB : Double
  stdC : Double
  costB : Option Double
  costC : Option Double
  nPrs : Option ℤ
  deriving DecidableEq, Repr

/-- The first half of `summary_stat_gate`. -/
def readStats (isDigit : Char → Bool) (rt : Runtime) (baseline candidate : Dict) :
    Result SummaryStats := do
  let recB ← stat rt baseline "recall_mean"
  let recC ← stat rt candidate "recall_mean"
  let fpB ← stat rt baseline "fp_per_pr_mean"
  let fpC ← stat rt candidate "fp_per_pr_mean"
  let f1B ← stat rt baseline "f1_mean"
  let f1C ← stat rt candidate "f1_mean"
  let f1LoB ← stat rt baseline "f1_ci_lo"
  let f1HiB ← stat rt baseline "f1_ci_hi"
  let f1LoC ← stat rt candidate "f1_ci_lo"
  let stdB ← stat rt baseline "f1_stdev"
  let stdC ← stat rt candidate "f1_stdev"
  let costB ← costMean baseline
  let costC ← costMean candidate
  let nPrs ← prSetRung isDigit rt (candidate.get "pr_set_id")
  return { recB, recC, fpB, fpC, f1B, f1C, f1LoB, f1HiB, f1LoC, stdB, stdC, costB, costC, nPrs }

/-! ### The gates -/

/-- A cost that is not positive is missing telemetry. -/
def costMissing (cost : Option Double) : Bool := cost.elim true fun x => x.le (.fin 0)

/-- The cost guard; a missing cost fails it. -/
def costWithin : Option Double → Option Double → Bool
  | some b, some c =>
    !costMissing (some b) && !costMissing (some c) &&
      c.le (Double.mul (.literal gate5CostMultiplier) b).rounded
  | _, _ => false

namespace SummaryStats

variable (s : SummaryStats)

/-- The confidence intervals of the F1 values do not overlap. -/
def f1CiSeparated : Bool := s.f1HiB.lt s.f1LoC

/-- The five gates. -/
def gates : GateFlags where
  gate1Recall := (s.recC.sub s.recB).rounded.ge (.literal gate1RecallDeltaFloor)
  gate2Noise := (s.fpC.sub s.fpB).rounded.le (.literal gate2FpDeltaCeiling)
  gate3Progress := s.f1B.lt s.f1C && s.f1CiSeparated
  gate4Stability := s.stdC.le (s.stdB.add (.literal gate4StdevSlack)).rounded
  gate5Cost := costWithin s.costB s.costC

-- a drop from 0.5 to 0.47 is a little more than 0.03 between doubles
example : ((Double.literal 0.47).sub (.literal 0.5)).rounded.ge (.literal gate1RecallDeltaFloor) =
    false := by decide +kernel

/-- The number of pull requests is known to be below the floor. -/
def underpowered : Bool := s.nPrs.elim false fun n => n < minPrsForPromote

/-- Some cost is missing. -/
def anyCostMissing : Bool := costMissing s.costB || costMissing s.costC

/-- The verdict. -/
def verdict : GateVerdict :=
  let g := s.gates
  let hardGatesOk := g.gate1Recall && g.gate2Noise && g.gate4Stability && g.gate5Cost
  let costBlocked := s.anyCostMissing && g.gate1Recall && g.gate2Noise && g.gate4Stability
  if s.underpowered then .inconclusive
  else if g.all then .promote
  else if costBlocked || hardGatesOk && !g.gate3Progress then .inconclusive
  else .revert

/-- The ratio of the costs, where both are there. -/
def costRatio : Option Double :=
  match s.costB, s.costC with
  | some b, some c => if s.anyCostMissing then none else some ((c.div b).rounded.roundDigits 4)
  | _, _ => none

end SummaryStats

/-- The field `detail` of the result. -/
structure SummaryDetail where
  recallDelta : Double
  fpPerPrDelta : Double
  f1Delta : Double
  f1CiSeparated : Bool
  baselineF1Ci : Double × Double
  candidateF1CiLo : Double
  stdevDelta : Double
  costRatio : Option Double
  nPrs : Option ℤ
  engine : String
  underpowered : Bool
  notes : List String
  deriving DecidableEq, Repr

/-- What the gates were decided on. -/
def SummaryStats.detail (s : SummaryStats) : SummaryDetail where
  recallDelta := (s.recC.sub s.recB).rounded.roundDigits 4
  fpPerPrDelta := (s.fpC.sub s.fpB).rounded.roundDigits 4
  f1Delta := (s.f1C.sub s.f1B).rounded.roundDigits 4
  f1CiSeparated := s.f1CiSeparated
  baselineF1Ci := (s.f1LoB, s.f1HiB)
  candidateF1CiLo := s.f1LoC
  stdevDelta := (s.stdC.sub s.stdB).rounded.roundDigits 4
  costRatio := s.costRatio
  nPrs := s.nPrs
  engine := "fallback-stdlib"
  underpowered := s.underpowered
  notes := (if costMissing s.costB then ["cost_baseline_missing"] else []) ++
    (if costMissing s.costC then ["cost_candidate_missing"] else [])

/-- `summary_stat_gate`. -/
def summaryStatGate (isDigit : Char → Bool) (rt : Runtime) (baseline candidate : Dict) :
    Result (GateReturn SummaryDetail) := do
  let s ← readStats isDigit rt baseline candidate
  return { verdict := s.verdict, gates := s.gates, detail := s.detail }

/-! ### What a promotion takes -/

/-- The inequalities that the gates check, between doubles. -/
structure SummaryStats.Clears (s : SummaryStats) : Prop where
  recallKept : (s.recC.sub s.recB).rounded.ge (.literal gate1RecallDeltaFloor)
  noise : (s.fpC.sub s.fpB).rounded.le (.literal gate2FpDeltaCeiling)
  progress : s.f1B.lt s.f1C
  separated : s.f1HiB.lt s.f1LoC
  stability : s.stdC.le (s.stdB.add (.literal gate4StdevSlack)).rounded
  cost : costWithin s.costB s.costC

theorem SummaryStats.all_gates_iff (s : SummaryStats) : s.gates.all ↔ s.Clears := by
  simp only [GateFlags.all, gates, f1CiSeparated, Bool.and_eq_true]
  constructor
  · rintro ⟨⟨⟨⟨hrecall, hnoise⟩, hprogress, hseparated⟩, hstability⟩, hcost⟩
    exact ⟨hrecall, hnoise, hprogress, hseparated, hstability, hcost⟩
  · intro h
    exact ⟨⟨⟨⟨h.recallKept, h.noise⟩, h.progress, h.separated⟩, h.stability⟩, h.cost⟩

theorem SummaryStats.verdict_eq_promote (s : SummaryStats) :
    s.verdict = .promote ↔ s.Clears ∧ s.underpowered = false := by
  rw [← s.all_gates_iff, verdict]
  cases hpower : s.underpowered with
  | true => simp
  | false =>
    cases hall : s.gates.all with
    | true => simp
    | false =>
      simp only [Bool.false_eq_true, if_false, false_and, iff_false]
      split_ifs <;> decide

/-- The gate promotes the candidate. -/
def Promotes (isDigit : Char → Bool) (rt : Runtime) (baseline candidate : Dict) : Prop :=
  ∃ r, summaryStatGate isDigit rt baseline candidate = .ok r ∧ r.verdict = .promote

/-- The columns, a missing one read as 0, satisfy the inequalities. -/
def RowsClear (isDigit : Char → Bool) (rt : Runtime) (baseline candidate : Dict) : Prop :=
  ∃ s, readStats isDigit rt baseline candidate = .ok s ∧ s.Clears

/-- The digits of the id make a number below the floor. -/
def RungBelow (isDigit : Char → Bool) (rt : Runtime) (prSetId : Value) : Prop :=
  ∃ n : ℤ, prSetRung isDigit rt prSetId = .ok (some n) ∧ n < minPrsForPromote

section

variable {isDigit : Char → Bool} {rt : Runtime} {baseline candidate : Dict}

/-- A gate compares doubles: what it reads of a column is one. -/
theorem rounded_of_stat {row : Dict} {key : String} {x : Double} (h : stat rt row key = .ok x) :
    x.rounded = x := by
  cases hvalue : row.get key with
  | none =>
    rw [stat, hvalue] at h
    rw [← Except.ok.inj h]
    exact congrArg Double.fin (Double.nearest_of_isDouble Double.isDouble_zero)
  | _ =>
    rw [stat, hvalue] at h
    obtain ⟨y, -, rfl⟩ := Result.map_eq_ok.1 h
    exact y.rounded_rounded

/-- The costs and the rung are read last. -/
theorem of_readStats {s : SummaryStats} (h : readStats isDigit rt baseline candidate = .ok s) :
    costMean baseline = .ok s.costB ∧ costMean candidate = .ok s.costC ∧
      prSetRung isDigit rt (candidate.get "pr_set_id") = .ok s.nPrs := by
  unfold readStats at h
  iterate 11 obtain ⟨_, -, h⟩ := Result.bind_eq_ok.1 h
  obtain ⟨costB, hcostB, h⟩ := Result.bind_eq_ok.1 h
  obtain ⟨costC, hcostC, h⟩ := Result.bind_eq_ok.1 h
  obtain ⟨nPrs, hrung, h⟩ := Result.bind_eq_ok.1 h
  rw [← Except.ok.inj h]
  exact ⟨hcostB, hcostC, hrung⟩

theorem underpowered_iff {s : SummaryStats} (h : readStats isDigit rt baseline candidate = .ok s) :
    s.underpowered ↔ RungBelow isDigit rt (candidate.get "pr_set_id") := by
  rw [RungBelow, (of_readStats h).2.2, SummaryStats.underpowered]
  cases hrung : s.nPrs with
  | none => simp
  | some n => simp

/-- A candidate is promoted when the inequalities hold and its rung is not known to be too low. -/
theorem promotes_iff : Promotes isDigit rt baseline candidate ↔
    RowsClear isDigit rt baseline candidate ∧
      ¬ RungBelow isDigit rt (candidate.get "pr_set_id") := by
  constructor
  · rintro ⟨r, hr, hpromote⟩
    obtain ⟨s, hs, hr⟩ := Result.bind_eq_ok.1 hr
    rw [← Except.ok.inj hr] at hpromote
    obtain ⟨hclears, hpower⟩ := s.verdict_eq_promote.1 hpromote
    refine ⟨⟨s, hs, hclears⟩, ?_⟩
    rw [← underpowered_iff hs, hpower]
    exact Bool.false_ne_true
  · rintro ⟨⟨s, hs, hclears⟩, hrung⟩
    rw [← underpowered_iff hs, Bool.not_eq_true] at hrung
    refine ⟨⟨s.verdict, s.gates, s.detail⟩, ?_, s.verdict_eq_promote.2 ⟨hclears, hrung⟩⟩
    rw [summaryStatGate, hs]
    rfl

end

/-! ### Two rows -/

/-- A character `0` to `9`. -/
def isAsciiDigit (c : Char) : Bool := 48 ≤ c.toNat && c.toNat ≤ 57

/-- The number that decimal digits make. -/
def decimal (digits : List Char) : ℕ := digits.foldl (fun n c => 10 * n + (c.toNat - 48)) 0

/-- A runtime that reads decimal digits. -/
def Runtime.decimal : Runtime :=
  { Runtime.ascii with
    parseInt := fun s => if s.toList.all isAsciiDigit then some (CodeReview.decimal s.toList)
      else none }

/-- A baseline row. -/
def baselineRow : Dict :=
  [("recall_mean", .float (.literal 0.5)), ("fp_per_pr_mean", .float (.literal 2)),
    ("f1_mean", .float (.literal 0.5)), ("f1_ci_lo", .float (.literal 0.4)),
    ("f1_ci_hi", .float (.literal 0.6)), ("f1_stdev", .float (.literal 0)),
    ("cost_mean", .float (.literal 1))]

/-- A candidate row that clears all gates. -/
def candidateRow (prSetId : String) : Dict :=
  [("recall_mean", .float (.literal 0.6)), ("fp_per_pr_mean", .float (.literal 1)),
    ("f1_mean", .float (.literal 0.7)), ("f1_ci_lo", .float (.literal 0.65)),
    ("f1_ci_hi", .float (.literal 0.75)), ("f1_stdev", .float (.literal 0)),
    ("cost_mean", .float (.literal 1)), ("pr_set_id", .str prSetId)]

/-! ### Missing statistics -/

/-- The statistics that the gates read of a baseline. -/
def baselineStats : List String :=
  ["recall_mean", "fp_per_pr_mean", "f1_mean", "f1_stdev", "f1_ci_hi"]

/-- The statistics that the gates read of a candidate. -/
def candidateStats : List String :=
  ["recall_mean", "fp_per_pr_mean", "f1_mean", "f1_stdev", "f1_ci_lo"]

/-- Some statistic that a gate reads is null. -/
def StatMissing (baseline candidate : Dict) : Prop :=
  (∃ key ∈ baselineStats, baseline.get key = .none) ∨
    ∃ key ∈ candidateStats, candidate.get key = .none

/-- **A missing statistic lets a candidate through exactly where the inequalities hold with 0 in its
place**, and the rung is not known to be too low. -/
theorem failsClosed_iff (isDigit : Char → Bool) (rt : Runtime) (baseline candidate : Dict) :
    (StatMissing baseline candidate → ¬ Promotes isDigit rt baseline candidate) ↔
      (StatMissing baseline candidate → RowsClear isDigit rt baseline candidate →
        RungBelow isDigit rt (candidate.get "pr_set_id")) := by
  refine imp_congr_right ?_
  intro _
  rw [promotes_iff, not_and, not_not]

/-- A baseline without the upper end of its interval. -/
theorem missingCi_promotes : ¬ ∀ (isDigit : Char → Bool) (rt : Runtime) (baseline candidate : Dict),
    StatMissing baseline candidate → ¬ Promotes isDigit rt baseline candidate := by
  intro h
  refine h isAsciiDigit Runtime.decimal (baselineRow.filter fun e => e.1 ≠ "f1_ci_hi")
    (candidateRow "pr16") (.inl ⟨"f1_ci_hi", by decide, rfl⟩) ?_
  exact ⟨_, rfl, by decide +kernel⟩

/-! ### The floor -/

/-- The number after `pr`. -/
def statedCount (id : String) : Option ℕ :=
  id.toList.tails.findSome? fun rest =>
    match rest with
    | 'p' :: 'r' :: cs =>
      let digits := cs.takeWhile isAsciiDigit
      if digits = [] then none else some (decimal digits)
    | _ => none

/-- The id states a count of pull requests, and that is enough of them. -/
def StatesEnough (prSetId : Value) : Prop :=
  ∃ id n, prSetId = .str id ∧ statedCount id = some n ∧ minPrsForPromote ≤ n

/-- **A candidate whose id does not state enough pull requests is let through exactly where the
inequalities hold and the digits of the id do not make a number below the floor.** -/
theorem floorKept_iff (isDigit : Char → Bool) (rt : Runtime) (baseline candidate : Dict) :
    (Promotes isDigit rt baseline candidate → StatesEnough (candidate.get "pr_set_id")) ↔
      (RowsClear isDigit rt baseline candidate →
        StatesEnough (candidate.get "pr_set_id") ∨
          RungBelow isDigit rt (candidate.get "pr_set_id")) := by
  rw [promotes_iff]
  constructor
  · intro h hclear
    by_cases hrung : RungBelow isDigit rt (candidate.get "pr_set_id")
    · exact .inr hrung
    · exact .inl (h ⟨hclear, hrung⟩)
  · rintro h ⟨hclear, hrung⟩
    exact (h hclear).resolve_right hrung

/-- A pull request set of unknown size. -/
theorem unknownSet_promotes : ¬ ∀ (isDigit : Char → Bool) (rt : Runtime)
    (baseline candidate : Dict), Promotes isDigit rt baseline candidate →
      StatesEnough (candidate.get "pr_set_id") := by
  intro h
  obtain ⟨id, n, hid, hcount, -⟩ := h isAsciiDigit Runtime.decimal baselineRow
    (candidateRow "unknown") ⟨_, rfl, by decide +kernel⟩
  have hnone : statedCount "unknown" = none := by decide
  rw [← Value.str.inj hid, hnone] at hcount
  cases hcount

example : statedCount "pr8-v20" = some 8 := by decide

example : prSetRung isAsciiDigit Runtime.decimal "pr8-v20" = .ok (some 820) := rfl

end CodeReview
