import CodeReview.Runner.Loop
import Mathlib.Data.List.Sort

/-!
# The timings of a run

The runner measures every state and every specialist, and puts what it has measured so far into the
environment before each inline state.  `timingsArtifact` is that document; the clock is read outside
of it.
-/

namespace CodeReview

open Py

/-- A row of `stage_timings`. -/
structure StageTiming where
  scope : String
  name : String
  iterationN : Option ℕ
  wallMs : ℕ
  deriving DecidableEq, Repr

/-- The row as a JSON object. -/
def StageTiming.toDict (t : StageTiming) : Dict :=
  [("scope", .str t.scope), ("name", .str t.name),
    ("iteration_n", t.iterationN.elim .none fun n => .int n), ("wall_ms", .int t.wallMs)]

/-- The order of `sorted(unit_results.items())`; no two units have one key. -/
def unitLe (e e' : UnitKey × Dict) : Prop := e.1.1 < e'.1.1 ∨ e.1.1 = e'.1.1 ∧ e.1.2 ≤ e'.1.2

instance : DecidableRel unitLe := fun _ _ => inferInstanceAs (Decidable (_ ∨ _))

/-- The units by leaf id and number of the slice. -/
def sortedUnits (m : ResultMap) : List (UnitKey × Dict) := m.entries.insertionSort unitLe

/-- The entry of a unit. -/
def specialistTiming (e : UnitKey × Dict) : Dict :=
  [("leaf_id", .str e.1.1), ("wall_ms", e.2.get "wall_ms"), ("tokens_in", e.2.get "tokens_in"),
    ("tokens_out", e.2.get "tokens_out"), ("cost_usd", e.2.get "cost_usd"),
    ("est_cost", e.2.get "est_cost"), ("tier", e.2.get "tier")]

/-- `_per_specialist_timings`. -/
def perSpecialistTimings (m : ResultMap) : List Dict := (sortedUnits m).map specialistTiming

/-- `_timings_artifact`. -/
def timingsArtifact (stats : RunnerStats) (stages : List StageTiming) (wholeReviewMs : ℕ)
    (m : ResultMap) : Dict :=
  [("whole_review_ms", .int wholeReviewMs),
    ("stage_timings", .list (stages.map fun t => .dict t.toDict)),
    ("specialists", .list ((perSpecialistTimings m).map .dict)),
    ("cost", .dict [("total_in_tokens", .int stats.totalInTokens),
      ("total_out_tokens", .int stats.totalOutTokens),
      ("total_cost_usd", .float stats.totalCostUsd),
      ("total_est_cost", .float stats.totalEstCost)])]

end CodeReview
