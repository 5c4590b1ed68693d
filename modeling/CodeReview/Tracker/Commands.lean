import CodeReview.Tracker.PromoteGate
import CodeReview.Tracker.Timings
import CodeReview.Py.JsonDump
import Mathlib.Data.List.MinMax
import Mathlib.Data.Prod.Lex
import Mathlib.Data.String.Basic

/-!
# The commands of the tracker

The tracker is a table of experiments and the commands that work on it: `record` stores a row, `ci`
attaches intervals, `gate` decides whether a row replaces its baseline.  The live baseline is the
latest row with a proven verdict.

* `toDict_noRounds` : a row of the table carries no rounds, so a gate always decides over the
  summary statistics;
* `step_cases` : what one command can do to a row;
* `latestProven_gated` : **after any commands the live baseline was either proven before them, or a
  `gate --apply` among them promoted it: the inequalities held between the rows stored then, and
  only its intervals changed since.**
-/

namespace CodeReview

open Py

/-! ### The table -/

/-- `EXPERIMENT_COLUMNS`. -/
inductive ExperimentColumn where
  | runId
  | ts
  | gitSha
  | prSetId
  | baselineTag
  | backend
  | configJson
  | lever
  | hypothesis
  | diffStat
  | nRounds
  | recallMean
  | recallCiLo
  | recallCiHi
  | precisionMean
  | f1Mean
  | f1CiLo
  | f1CiHi
  | fpPerPrMean
  | costMean
  | f1Stdev
  | verdict
  | gateDetailJson
  | calibrationTag
  | notes
  deriving DecidableEq, Repr

/-- The type that a column is declared with. -/
inductive Affinity where
  | text
  | integer
  | real
  deriving DecidableEq, Repr

namespace ExperimentColumn

/-- The columns, in order. -/
def all : List ExperimentColumn :=
  [runId, ts, gitSha, prSetId, baselineTag, backend, configJson, lever, hypothesis, diffStat,
    nRounds, recallMean, recallCiLo, recallCiHi, precisionMean, f1Mean, f1CiLo, f1CiHi,
    fpPerPrMean, costMean, f1Stdev, verdict, gateDetailJson, calibrationTag, notes]

/-- The name of a column. -/
def name : ExperimentColumn → String
  | runId => "run_id"
  | ts => "ts"
  | gitSha => "git_sha"
  | prSetId => "pr_set_id"
  | baselineTag => "baseline_tag"
  | backend => "backend"
  | configJson => "config_json"
  | lever => "lever"
  | hypothesis => "hypothesis"
  | diffStat => "diff_stat"
  | nRounds => "n_rounds"
  | recallMean => "recall_mean"
  | recallCiLo => "recall_ci_lo"
  | recallCiHi => "recall_ci_hi"
  | precisionMean => "precision_mean"
  | f1Mean => "f1_mean"
  | f1CiLo => "f1_ci_lo"
  | f1CiHi => "f1_ci_hi"
  | fpPerPrMean => "fp_per_pr_mean"
  | costMean => "cost_mean"
  | f1Stdev => "f1_stdev"
  | verdict => "verdict"
  | gateDetailJson => "gate_detail_json"
  | calibrationTag => "calibration_tag"
  | notes => "notes"

/-- The type of a column. -/
def affinity : ExperimentColumn → Affinity
  | nRounds => .integer
  | recallMean | recallCiLo | recallCiHi | precisionMean | f1Mean | f1CiLo | f1CiHi | fpPerPrMean
  | costMean | f1Stdev => .real
  | _ => .text

/-- The columns of the intervals. -/
def isInterval : ExperimentColumn → Bool
  | recallCiLo | recallCiHi | f1CiLo | f1CiHi => true
  | _ => false

end ExperimentColumn

/-- A row: a value in each column. -/
abbrev ExperimentRow := ExperimentColumn → Value

/-- `dict(r)`. -/
def ExperimentRow.toDict (row : ExperimentRow) : Dict :=
  ExperimentColumn.all.map fun c => (c.name, row c)

/-- The `experiments` table, by the primary key. -/
abbrev Experiments := OrdMap String ExperimentRow

/-- A text, or NULL. -/
def textOrNull (s : Option String) : Value := s.elim .none .str

/-- A float, or NULL. -/
def realOrNull (x : Option Double) : Value := x.elim .none .float

/-! ### Storing a value -/

/-- What the database does to a value of another type than the column has. -/
structure Sqlite where
  convert : Affinity → Value → Value

/-- Why a value cannot be bound, if so. -/
def bindError : Value → Option Exc
  | .int n => if FitsInteger n then none else some .overflowError
  | .list _ | .dict _ => some (.user "ProgrammingError" "")
  | _ => none

/-- A bound value: a `bool` is a number, and NaN is NULL. -/
def bound : Value → Value
  | .bool b => .int b.toNat
  | .float .nan => .none
  | v => v

/-- What a column keeps of a value. -/
def Sqlite.keep (db : Sqlite) (affinity : Affinity) (v : Value) : Value :=
  match affinity, bound v with
  | _, .none => .none
  | .text, .str s => .str s
  | .integer, .int n => .int n
  | .real, .float x => .float x
  | affinity, v => db.convert affinity v

mutual

/-- The value with the keys of its objects in order. -/
def sortKeys : Value → Value
  | .list xs => .list (sortItems xs)
  | .dict kvs => .dict ((sortMembers kvs).insertionSort fun e e' => e.1 ≤ e'.1)
  | v => v

/-- The items, sorted inside. -/
def sortItems : List Value → List Value
  | [] => []
  | x :: xs => sortKeys x :: sortItems xs

/-- The members, sorted inside. -/
def sortMembers : List (String × Value) → List (String × Value)
  | [] => []
  | (k, v) :: kvs => (k, sortKeys v) :: sortMembers kvs

end

section

variable (rt : Runtime) (db : Sqlite)

/-- `json.dumps(v, sort_keys=True)`. -/
def dumpsSorted (v : Value) : Value := .str (String.ofList (Json.dumps rt (sortKeys v)))

/-- A `dict` or a `list` is stored as its JSON. -/
def encodeJson : Value → Value
  | .list xs => dumpsSorted rt (.list xs)
  | .dict kvs => dumpsSorted rt (.dict kvs)
  | v => v

/-- The row as it is bound. -/
def experimentPayload (row : ExperimentRow) : ExperimentRow
  | .configJson => encodeJson rt (row .configJson)
  | .gateDetailJson => encodeJson rt (row .gateDetailJson)
  | c => row c

/-- `upsert_experiment`, of a row with the key `runId`. -/
def upsertExperiment (table : Experiments) (runId : String) (row : ExperimentRow) :
    Result Experiments :=
  let payload := experimentPayload rt row
  match ExperimentColumn.all.findSome? fun c => bindError (payload c) with
  | some exc => .error exc
  | none => .ok (table.set runId fun c => db.keep c.affinity (payload c))

end

/-! ### The gate -/

/-- `PROVEN_VERDICTS`. -/
def provenVerdicts : List String := ["promote", "ramp"]

/-- The row is a proven baseline. -/
def ExperimentRow.proven (row : ExperimentRow) : Bool :=
  match row .verdict with
  | .str s => s ∈ provenVerdicts
  | _ => false

/-- The gates by name. -/
def GateFlags.toDict (g : GateFlags) : Dict :=
  [("gate_1_recall", .bool g.gate1Recall), ("gate_2_noise", .bool g.gate2Noise),
    ("gate_3_progress", .bool g.gate3Progress), ("gate_4_stability", .bool g.gate4Stability),
    ("gate_5_cost", .bool g.gate5Cost)]

/-- The field `detail`, as a `dict`. -/
def PromoteDetail.toDict : PromoteDetail → Dict
  | predicate nSharedPrs underpowered notes =>
    [("engine", "scripts.stats.gate_predicate"), ("n_shared_prs", .int nSharedPrs),
      ("underpowered", .bool underpowered), ("notes", ofStrs notes)]
  | summary d =>
    [("recall_delta", .float d.recallDelta), ("fp_per_pr_delta", .float d.fpPerPrDelta),
      ("f1_delta", .float d.f1Delta), ("f1_ci_separated", .bool d.f1CiSeparated),
      ("baseline_f1_ci", .list [.float d.baselineF1Ci.1, .float d.baselineF1Ci.2]),
      ("candidate_f1_ci_lo", .float d.candidateF1CiLo), ("stdev_delta", .float d.stdevDelta),
      ("cost_ratio", realOrNull d.costRatio), ("n_prs", d.nPrs.elim .none .int),
      ("engine", .str d.engine), ("underpowered", .bool d.underpowered), ("notes", ofStrs d.notes)]

/-- What the commands run with: the interpreter, the database, the generator of the resamples, and
whether `scripts.stats` can be imported. -/
structure Bench where
  rt : Runtime
  isDigit : Char → Bool
  idx : Resample
  db : Sqlite
  importsStats : Bool

/-- The exit with a message. -/
def systemExit (msg : String) : Exc := .user "SystemExit" msg

section

variable (bench : Bench)

/-- `GateResult.to_json`. -/
def gateJson (r : GateReturn PromoteDetail) : Value :=
  dumpsSorted bench.rt (.dict [("verdict", .str r.verdict.text), ("gates", .dict r.gates.toDict),
    ("detail", .dict r.detail.toDict)])

/-- `run_gate`. -/
def runGate (table : Experiments) (candidateRun baselineRun : String) :
    Result (GateReturn PromoteDetail) :=
  match table.get? baselineRun, table.get? candidateRun with
  | none, _ => .error (systemExit ("baseline run not found: " ++ baselineRun))
  | _, none => .error (systemExit ("candidate run not found: " ++ candidateRun))
  | some baseline, some candidate =>
    if bench.importsStats then
      promoteGate bench.isDigit bench.rt bench.idx baseline.toDict candidate.toDict
    else do
      let r ← summaryStatGate bench.isDigit bench.rt baseline.toDict candidate.toDict
      return { verdict := r.verdict, gates := r.gates, detail := .summary r.detail }

end

/-! ### The commands -/

/-- The arguments of `record`, the JSON of the configuration already read. -/
structure RecordArgs where
  runId : String
  prSet : Option String := none
  baselineTag : Option String := none
  backend : Option String := none
  lever : Option String := none
  hypothesis : Option String := none
  diffStat : Option String := none
  nRounds : Option ℤ := none
  recallMean : Option Double := none
  recallCiLo : Option Double := none
  recallCiHi : Option Double := none
  precision : Option Double := none
  f1 : Option Double := none
  f1CiLo : Option Double := none
  f1CiHi : Option Double := none
  fpPerPr : Option Double := none
  cost : Option Double := none
  f1Stdev : Option Double := none
  verdict : Option String := none
  calibrationTag : Option String := none
  notes : Option String := none
  gitSha : Option String := none
  config : Value := .none

/-- `args.git_sha or _git_sha()`. -/
def RecordArgs.sha (args : RecordArgs) (headSha : Option String) : Option String :=
  match args.gitSha with
  | some sha => if sha = "" then headSha else some sha
  | none => headSha

/-- The row that `record` builds. -/
def recordRow (now : String) (headSha : Option String) (args : RecordArgs) : ExperimentRow
  | .runId => .str args.runId
  | .ts => .str now
  | .gitSha => textOrNull (args.sha headSha)
  | .prSetId => textOrNull args.prSet
  | .baselineTag => textOrNull args.baselineTag
  | .backend => textOrNull args.backend
  | .configJson => args.config
  | .lever => textOrNull args.lever
  | .hypothesis => textOrNull args.hypothesis
  | .diffStat => textOrNull args.diffStat
  | .nRounds => args.nRounds.elim .none .int
  | .recallMean => realOrNull args.recallMean
  | .recallCiLo => realOrNull args.recallCiLo
  | .recallCiHi => realOrNull args.recallCiHi
  | .precisionMean => realOrNull args.precision
  | .f1Mean => realOrNull args.f1
  | .f1CiLo => realOrNull args.f1CiLo
  | .f1CiHi => realOrNull args.f1CiHi
  | .fpPerPrMean => realOrNull args.fpPerPr
  | .costMean => realOrNull args.cost
  | .f1Stdev => realOrNull args.f1Stdev
  | .verdict => textOrNull args.verdict
  | .gateDetailJson => .none
  | .calibrationTag => textOrNull args.calibrationTag
  | .notes => textOrNull args.notes

/-- The intervals that `ci` was given. -/
structure IntervalArgs where
  recallCiLo : Option Double := none
  recallCiHi : Option Double := none
  f1CiLo : Option Double := none
  f1CiHi : Option Double := none

/-- The value for a column, if one was given. -/
def IntervalArgs.update (args : IntervalArgs) : ExperimentColumn → Option Double
  | .recallCiLo => args.recallCiLo
  | .recallCiHi => args.recallCiHi
  | .f1CiLo => args.f1CiLo
  | .f1CiHi => args.f1CiHi
  | _ => none

/-- A command with its arguments, and what it finds around it: the time, the commit, and whether the
metric and finding rows of a `record` could be stored. -/
inductive Command where
  | init (apply : Bool)
  | record (now : String) (headSha : Option String) (args : RecordArgs) (otherRows : Result Unit)
      (apply : Bool)
  | ci (runId : String) (args : IntervalArgs) (apply : Bool)
  | gate (runId baseline : String) (apply : Bool)
  /-- `compare`, `history`, `leaderboard`, `state`, `status`, `slowest` and `check` only read. -/
  | view

section

variable (bench : Bench)

/-- `cmd_record`. -/
def cmdRecord (table : Experiments) (now : String) (headSha : Option String) (args : RecordArgs)
    (otherRows : Result Unit) (apply : Bool) : Result Experiments :=
  if args.verdict.any (· ∈ provenVerdicts) then
    .error (systemExit ("refusing to record verdict '" ++ args.verdict.getD "" ++ "'"))
  else if apply then do
    let table ← upsertExperiment bench.rt bench.db table args.runId (recordRow now headSha args)
    otherRows
    return table
  else .ok table

/-- `cmd_ci`. -/
def cmdCi (table : Experiments) (runId : String) (args : IntervalArgs) (apply : Bool) :
    Result Experiments :=
  match table.get? runId with
  | none => .error (systemExit ("run not found: " ++ runId))
  | some row =>
    if apply then
      .ok (table.set runId fun c =>
        (args.update c).elim (row c) fun x => bench.db.keep c.affinity (.float x))
    else .ok table

/-- The row after a gate. -/
def gatedRow (row : ExperimentRow) (r : GateReturn PromoteDetail) : ExperimentRow
  | .verdict => bench.db.keep .text (.str r.verdict.text)
  | .gateDetailJson => bench.db.keep .text (gateJson bench r)
  | c => row c

/-- `cmd_gate`. -/
def cmdGate (table : Experiments) (runId baseline : String) (apply : Bool) :
    Result Experiments := do
  let r ← runGate bench table runId baseline
  if apply then
    return (table.get? runId).elim table fun row => table.set runId (gatedRow bench row r)
  else return table

/-- A command. -/
def runCommand (table : Experiments) : Command → Result Experiments
  | .init _ => .ok table
  | .record now headSha args otherRows apply =>
    cmdRecord bench table now headSha args otherRows apply
  | .ci runId args apply => cmdCi bench table runId args apply
  | .gate runId baseline apply => cmdGate bench table runId baseline apply
  | .view => .ok table

/-- The table after a command; one that raises commits nothing. -/
def stepCommand (table : Experiments) (cmd : Command) : Experiments :=
  match runCommand bench table cmd with
  | .ok table => table
  | .error _ => table

/-- The table after a list of commands. -/
def runCommands (table : Experiments) (cmds : List Command) : Experiments :=
  cmds.foldl (stepCommand bench) table

end

/-! ### The live baseline -/

/-- The text in a column. -/
def ExperimentRow.text (row : ExperimentRow) (c : ExperimentColumn) : String :=
  match row c with
  | .str s => s
  | _ => ""

/-- What `ORDER BY ts, run_id` compares. -/
def ExperimentRow.orderKey (row : ExperimentRow) : String ×ₗ String :=
  toLex (row.text .ts, row.text .runId)

/-- `latest_proven`. -/
def latestProven (table : Experiments) : Option ExperimentRow :=
  (table.values.filter ExperimentRow.proven).argmax ExperimentRow.orderKey

/-! ### What a gate decides on -/

/-- A row of the table has the values of its columns. -/
theorem toDict_get (row : ExperimentRow) (c : ExperimentColumn) :
    row.toDict.get c.name = row c := by
  cases c <;> rfl

/-- **A row of the table carries no rounds.** -/
theorem toDict_noRounds (rt : Runtime) (row : ExperimentRow) :
    embeddedRounds rt row.toDict = .ok none := rfl

variable {bench : Bench}

/-- A gate decides over the summary statistics of the two rows. -/
theorem runGate_ok {table : Experiments} {candidateRun baselineRun : String}
    {r : GateReturn PromoteDetail} (h : runGate bench table candidateRun baselineRun = .ok r) :
    ∃ baseline candidate, table.get? baselineRun = some baseline ∧
      table.get? candidateRun = some candidate ∧
      (r.verdict = .promote →
        Promotes bench.isDigit bench.rt baseline.toDict candidate.toDict) := by
  unfold runGate at h
  split at h
  · cases h
  · cases h
  · rename_i baseline candidate hbaseline hcandidate
    have hsummary : (do
        let r ← summaryStatGate bench.isDigit bench.rt baseline.toDict candidate.toDict
        return { verdict := r.verdict, gates := r.gates, detail := .summary r.detail :
          GateReturn PromoteDetail }) = .ok r := by
      split_ifs at h
      · rwa [promoteGate, toDict_noRounds, toDict_noRounds] at h
      · exact h
    obtain ⟨raw, hraw, hdone⟩ := Result.bind_eq_ok.1 hsummary
    obtain rfl := Except.ok.inj hdone
    exact ⟨baseline, candidate, hbaseline, hcandidate, fun hpromote => ⟨raw, hraw, hpromote⟩⟩

/-! ### What a command does to a row -/

/-- How a row of the table after a command came about. -/
inductive RowStep (bench : Bench) (table : Experiments) (runId : String) (row : ExperimentRow) :
    Command → Prop
  | kept {cmd : Command} (h : table.get? runId = some row) : RowStep bench table runId row cmd
  | recorded {cmd : Command} (h : row.proven = false) : RowStep bench table runId row cmd
  | intervals {args : IntervalArgs} {before : ExperimentRow} (h : table.get? runId = some before)
      (hrow : ∀ c, c.isInterval = false → row c = before c) :
      RowStep bench table runId row (.ci runId args true)
  | gated {baseline : String} {seen : ExperimentRow} {r : GateReturn PromoteDetail}
      (h : table.get? runId = some seen) (hgate : runGate bench table runId baseline = .ok r)
      (hrow : row = gatedRow bench seen r) :
      RowStep bench table runId row (.gate runId baseline true)

theorem keep_text (db : Sqlite) (s : String) : db.keep .text (.str s) = .str s := rfl

/-- A row with a verdict that `record` accepts is not proven. -/
theorem recorded_not_proven {verdict : Option String}
    (h : verdict.any (· ∈ provenVerdicts) = false) {row : ExperimentRow}
    (hrow : row .verdict = bench.db.keep .text (textOrNull verdict)) : row.proven = false := by
  rw [ExperimentRow.proven, hrow]
  cases verdict with
  | none => rfl
  | some s =>
    rw [textOrNull, Option.elim_some, keep_text]
    exact h

/-- **What one command can do to a row.** -/
theorem step_cases {table : Experiments} {cmd : Command} {runId : String} {row : ExperimentRow}
    (h : (stepCommand bench table cmd).get? runId = some row) :
    RowStep bench table runId row cmd := by
  unfold stepCommand at h
  split at h
  · rename_i table' hrun
    cases cmd with
    | init apply =>
      cases hrun
      exact .kept h
    | view =>
      cases hrun
      exact .kept h
    | record now headSha args otherRows apply =>
      simp only [runCommand, cmdRecord, upsertExperiment] at hrun
      split_ifs at hrun with hverdict happly
      · obtain ⟨stored, hstored, hrun⟩ := Result.bind_eq_ok.1 hrun
        obtain ⟨-, -, hrun⟩ := Result.bind_eq_ok.1 hrun
        obtain rfl := Except.ok.inj hrun
        split at hstored
        · cases hstored
        · obtain rfl := Except.ok.inj hstored
          rw [OrdMap.get?_set] at h
          split_ifs at h with hid
          · obtain rfl := Option.some.inj h
            exact .recorded (recorded_not_proven (Bool.eq_false_iff.2 hverdict) rfl)
          · exact .kept h
      · cases hrun
        exact .kept h
    | ci runId' args apply =>
      simp only [runCommand, cmdCi] at hrun
      split at hrun
      · cases hrun
      · rename_i before hbefore
        split_ifs at hrun with happly
        · obtain rfl := Except.ok.inj hrun
          rw [OrdMap.get?_set] at h
          split_ifs at h with hid
          · subst hid happly
            obtain rfl := Option.some.inj h
            refine .intervals hbefore fun c hc => ?_
            have hnone : args.update c = none := by
              cases c <;> first | rfl | cases hc
            rw [hnone, Option.elim_none]
          · exact .kept h
        · cases hrun
          exact .kept h
    | gate runId' baseline apply =>
      obtain ⟨r, hgate, hrun⟩ := Result.bind_eq_ok.1 hrun
      split_ifs at hrun with happly
      · obtain rfl := Except.ok.inj hrun
        cases hseen : table.get? runId' with
        | none =>
          rw [hseen] at h
          exact .kept h
        | some seen =>
          rw [hseen, Option.elim_some, OrdMap.get?_set] at h
          split_ifs at h with hid
          · subst hid happly
            exact .gated hseen hgate (Option.some.inj h).symm
          · exact .kept h
      · cases hrun
        exact .kept h
  · exact .kept h

/-! ### Where a proven row came from -/

/-- The rows agree but for their intervals. -/
def SameButIntervals (row other : ExperimentRow) : Prop :=
  ∀ c, c.isInterval = false → row c = other c

/-- The rows agree but for their intervals and what a gate writes. -/
def SameMeasurement (row other : ExperimentRow) : Prop :=
  ∀ c, c.isInterval = false → c ≠ .verdict → c ≠ .gateDetailJson → row c = other c

/-- In this table the candidate `seen` clears the gates against the baseline. -/
structure ClearsGate (bench : Bench) (table : Experiments) (runId baseline : String)
    (seen : ExperimentRow) : Prop where
  candidate : table.get? runId = some seen
  clears : ∃ row, table.get? baseline = some row ∧
    RowsClear bench.isDigit bench.rt row.toDict seen.toDict
  powered : ¬ RungBelow bench.isDigit bench.rt (seen .prSetId)

/-- A proven row: it was proven at the start, or a gate promoted it. -/
inductive Proven (bench : Bench) (start : Experiments) (cmds : List Command) (runId : String)
    (row : ExperimentRow) : Prop
  | before {row₀ : ExperimentRow} (h : start.get? runId = some row₀) (hproven : row₀.proven = true)
      (hsame : SameButIntervals row row₀) : Proven bench start cmds runId row
  | gated {before after : List Command} {baseline : String} {seen : ExperimentRow}
      (hcmds : cmds = before ++ .gate runId baseline true :: after)
      (hclears : ClearsGate bench (runCommands bench start before) runId baseline seen)
      (hverdict : row .verdict = "promote") (hsame : SameMeasurement row seen) :
      Proven bench start cmds runId row

theorem runCommands_concat (start : Experiments) (cmds : List Command) (cmd : Command) :
    runCommands bench start (cmds ++ [cmd]) =
      stepCommand bench (runCommands bench start cmds) cmd := by
  rw [runCommands, List.foldl_append]
  rfl

/-- A proven row that only got other intervals stays one. -/
theorem Proven.concat {start : Experiments} {cmds : List Command} {runId : String}
    {row row' : ExperimentRow} (h : Proven bench start cmds runId row)
    (hsame : SameButIntervals row' row) (cmd : Command) :
    Proven bench start (cmds ++ [cmd]) runId row' := by
  cases h with
  | before h hproven hsame₀ =>
    exact .before h hproven fun c hc => (hsame c hc).trans (hsame₀ c hc)
  | @gated before after baseline seen hcmds hclears hverdict hsame₀ =>
    have hcmds' : cmds ++ [cmd] = before ++ .gate runId baseline true :: (after ++ [cmd]) := by
      rw [hcmds, List.append_assoc, List.cons_append]
    exact .gated hcmds' hclears ((hsame .verdict rfl).trans hverdict)
      fun c hc hv hd => (hsame c hc).trans (hsame₀ c hc hv hd)

theorem proven_congr {row other : ExperimentRow} (h : row .verdict = other .verdict) :
    row.proven = other.proven := by
  rw [ExperimentRow.proven, ExperimentRow.proven, h]

/-- The verdict of a gate is proven when it is a promotion. -/
theorem gatedRow_proven {seen : ExperimentRow} {r : GateReturn PromoteDetail}
    (h : (gatedRow bench seen r).proven = true) : r.verdict = .promote := by
  rw [ExperimentRow.proven, gatedRow, keep_text] at h
  cases hverdict : r.verdict with
  | promote => rfl
  | revert =>
    rw [hverdict] at h
    exact absurd h (by decide)
  | inconclusive =>
    rw [hverdict] at h
    exact absurd h (by decide)

/-- **Every proven row was proven at the start, or a gate promoted it.** -/
theorem proven_of_get? {start : Experiments} (cmds : List Command) {runId : String}
    {row : ExperimentRow} (h : (runCommands bench start cmds).get? runId = some row)
    (hproven : row.proven = true) : Proven bench start cmds runId row := by
  induction cmds using List.reverseRecOn generalizing row with
  | nil => exact .before h hproven fun c _ => rfl
  | append_singleton cmds cmd ih =>
    rw [runCommands_concat] at h
    cases step_cases h with
    | kept hget => exact (ih hget hproven).concat (fun c _ => rfl) cmd
    | recorded hnot =>
      rw [hnot] at hproven
      cases hproven
    | intervals hget hrow =>
      exact (ih hget ((proven_congr (hrow .verdict rfl)).symm.trans hproven)).concat hrow _
    | @gated baseline seen r hseen hgate hrow =>
      subst hrow
      have hpromote := gatedRow_proven hproven
      obtain ⟨base, candidate, hbase, hcandidate, hpromotes⟩ := runGate_ok hgate
      obtain rfl := Option.some.inj (hseen.symm.trans hcandidate)
      obtain ⟨hclears, hrung⟩ := promotes_iff.1 (hpromotes hpromote)
      rw [show "pr_set_id" = ExperimentColumn.prSetId.name from rfl, toDict_get] at hrung
      refine .gated rfl ⟨hseen, ⟨base, hbase, hclears⟩, hrung⟩ ?_ fun c hc hv hd => ?_
      · show bench.db.keep .text (.str r.verdict.text) = _
        rw [hpromote, keep_text]
        rfl
      · cases c <;> first | rfl | exact absurd rfl hv | exact absurd rfl hd

/-- **The live baseline is the latest proven row, and it was proven at the start or a gate promoted
it.** -/
theorem latestProven_gated {start : Experiments} {cmds : List Command} {row : ExperimentRow}
    (h : latestProven (runCommands bench start cmds) = some row) :
    (∀ other ∈ (runCommands bench start cmds).values, other.proven = true →
        other.orderKey ≤ row.orderKey) ∧
      ∃ runId, (runCommands bench start cmds).get? runId = some row ∧
        Proven bench start cmds runId row := by
  obtain ⟨hmem, hproven⟩ := List.mem_filter.1 (List.argmax_mem h)
  obtain ⟨runId, hget⟩ := (OrdMap.mem_values_iff _).1 hmem
  exact ⟨fun other hother hp => List.le_of_mem_argmax (List.mem_filter.2 ⟨hother, hp⟩) h,
    runId, hget, proven_of_get? cmds hget hproven⟩

/-! ### A promotion -/

/-- A bench with decimal digits. -/
def decimalBench : Bench where
  rt := Runtime.decimal
  isDigit := isAsciiDigit
  idx := everyPr
  db := ⟨fun _ v => v⟩
  importsStats := true

/-- A measurement on twelve pull requests. -/
def measurementArgs (runId : String) (f1 lo hi : ℚ) : RecordArgs where
  runId := runId
  prSet := some "pr12"
  recallMean := some (.fin (1 / 2))
  f1 := some (.fin f1)
  f1CiLo := some (.fin lo)
  f1CiHi := some (.fin hi)
  fpPerPr := some (.fin 2)
  cost := some (.fin 1)
  f1Stdev := some (.fin 0)

/-- Two measurements and the gate between them. -/
def promotion : List Command :=
  [.record "t0" none (measurementArgs "base" (1 / 2) (2 / 5) (3 / 5)) (.ok ()) true,
    .record "t1" none (measurementArgs "next" (4 / 5) (7 / 10) (9 / 10)) (.ok ()) true,
    .gate "next" "base" true]

theorem latestProven_gated_promotion :
    ∃ row runId, latestProven (runCommands decimalBench OrdMap.empty promotion) = some row ∧
      row.text .runId = "next" ∧ Proven decimalBench OrdMap.empty promotion runId row := by
  have hlatest : (latestProven (runCommands decimalBench OrdMap.empty promotion)).map
      (fun row => row.text .runId) = some "next" := by
    decide +kernel
  obtain ⟨row, hrow, hid⟩ := Option.map_eq_some_iff.1 hlatest
  obtain ⟨-, runId, -, hproven⟩ := latestProven_gated hrow
  exact ⟨row, runId, hrow, hid, hproven⟩

end CodeReview
