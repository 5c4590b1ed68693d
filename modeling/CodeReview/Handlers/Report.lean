import CodeReview.Handlers.Findings

/-!
# Building the report

`build_report_payload` turns the environment at the end of a review into the canonical report.

* `buildIssue_ok_iff` : an issue is built exactly when its severity is one of the three and its
  corroboration is a number;
* `buildReportPayload_ok_iff` : the report is built exactly when the verdict is valid, the
  methodology can be read and every issue is built.
-/

namespace CodeReview

open Py

/-- `_METHODOLOGY_PRINCIPLES`. -/
def methodologyPrinciples : List String :=
  ["SRP", "OCP", "LSP", "ISP", "DIP", "DRY", "KISS", "YAGNI"]

/-- `_VALID_VERDICTS`. -/
def validVerdicts : List String := [Verdict.go.text, Verdict.noGo.text, Verdict.conditional.text]

/-- The verdicts of a principle. -/
def principleVerdicts : List String := ["PASS", "FAIL", "N/A"]

/-- `split_or_null`. -/
def splitOrNull (raw : Value) : Value :=
  match raw with
  | .str s =>
    let tokens := ((Text.split ',' s).map Text.strip).filter (· ≠ "")
    if Text.strip s = "" ∨ tokens = [] then .none else ofStrs tokens
  | _ => .none

/-- `_build_scope`. -/
def buildScope (args : Dict) : Dict :=
  [("dirs", splitOrNull (args.get "scope-dir")), ("langs", splitOrNull (args.get "scope-lang")),
    ("frameworks", splitOrNull (args.get "scope-framework")),
    ("reviewers", splitOrNull (args.get "scope-reviewer")),
    ("severity_filter", splitOrNull (args.get "scope-severity")),
    ("gates_filter", splitOrNull (args.get "scope-gate"))]

/-- The entry of a principle; an unhashable value raises. -/
def methodologyEntry (provided : Dict) (principle : String) : Result (String × Value) := do
  let value := provided.get principle
  if ← Value.contains? principleVerdicts value then return (principle, value)
  else return (principle, "N/A")

/-- `_build_methodology`. -/
def buildMethodology (env : Dict) : Result Dict :=
  methodologyPrinciples.mapM (methodologyEntry (ensureDict (env.get "methodology")))

section

variable (rt : Runtime)

/-- The strings of `flagged_by`, sorted; what is no list counts as empty. -/
def sortedFlagged (finding : Dict) : List String :=
  (strs (ensureList (flaggedBy finding))).insertionSort (· ≤ ·)

/-- `_build_issue`. -/
def buildIssue (finding : Dict) (idx : ℕ) : Result Dict := do
  let flagged := sortedFlagged finding
  let severity := finding.get "severity"
  if ← Value.contains? validSeverities severity then
    let corroboration ← rt.toInt (finding.getD "corroboration" (.int flagged.length))
    return [("id", .int (idx + 1)), ("severity", severity),
      ("specialist", (finding.get "winner").or (flagged.head?.elim .none .str)),
      ("file", finding.get "file"), ("line", finding.get "line"), ("title", finding.get "title"),
      ("description", finding.get "description"), ("impact", finding.get "impact"),
      ("fix", finding.get "fix"), ("principle", finding.get "principle"),
      ("primary", .bool (finding.getD "primary" (.bool false)).truthy),
      ("corroboration", .int corroboration),
      ("confidence", finding.getD "defect_confidence" (finding.get "confidence"))]
  else throw .valueError

/-- The findings of a severity. -/
def ofSeverity (findings : List Value) (severity : String) : List Dict :=
  (dicts findings).filter fun f => (f.get "severity").eqv (.str severity)

/-- `first_with`: the first title that is a string. -/
def firstWith (findings : List Value) (severity : String) : Value :=
  (((ofSeverity findings severity).filterMap fun f => (f.get "title").asStr?).head?).elim .none .str

/-- `_build_specialist_row`. -/
def buildSpecialistRow (specialist : Dict) : Dict :=
  let isCompleted := (specialist.get "status").eqv (.str "completed")
  let findings := if isCompleted then ensureList (specialist.get "findings") else []
  let critical := (ofSeverity findings "critical").length
  let important := (ofSeverity findings "important").length
  [("id", specialist.get "id"),
    ("status", if isCompleted ∧ critical = 0 ∧ important = 0 then "pass" else "fail"),
    ("critical", .int critical), ("important", .int important),
    ("minor", .int (ofSeverity findings "minor").length),
    ("key_finding", (((firstWith findings "critical").or (firstWith findings "important")).or
      (specialist.get "skip_reason")).or .none)]

/-- `_build_gate_row`. -/
def buildGateRow (gate : Dict) : Dict :=
  [("number", gate.get "number"), ("name", gate.get "name"), ("status", gate.get "status"),
    ("blockers", gate.getD "blocker_count" (.int 0))]

/-- `_build_tool_row`. -/
def buildToolRow (tool : Dict) : Dict :=
  let row := [("name", tool.get "name"), ("status", tool.get "status"),
    ("findings", tool.get "findings"), ("specialist", tool.get "specialist"),
    ("output_summary", (tool.get "output_summary").or (tool.get "output"))]
  if (tool.get "status").eqv (.str "skipped") && !(tool.get "reason").isNone then
    row ++ [("reason", tool.get "reason")]
  else row

/-- The row of a file in the coverage table. -/
def coverageRow (row : Dict) : Dict :=
  [("file", row.get "file"), ("reviewers", .list (ensureList (row.get "reviewers")))]

/-- The stack, as given or else read off the project profile. -/
def reportStack (env : Dict) : List Value :=
  match env.get "stack" with
  | .list stack => stack
  | _ =>
    let profile := ensureDict (env.get "project_profile")
    ensureList (profile.get "languages") ++ ensureList (profile.get "frameworks")

/-- The number of elements of a list, or else a default. -/
def lengthOr (v : Value) (default : ℕ) : ℕ :=
  match v with
  | .list xs => xs.length
  | _ => default

/-- The summary of the report. -/
def reportSummary (specialistsTotal : ℕ) (env : Dict) : Dict :=
  let args := ensureDict (env.get "args")
  [("description", ((env.get "description").or (args.get "description")).or (.str "")),
    ("range", .dict [("base", env.get "base_sha"), ("head", env.get "head_sha")]),
    ("mode", if (args.get "full").truthy then "full" else "diff"),
    ("files_changed", .int (lengthOr (env.get "changed_paths") 0)),
    ("stack", .list (reportStack env)),
    ("specialists_dispatched", .int (lengthOr (env.get "picked_leaves")
      (ensureList (env.get "specialist_outputs")).length)),
    ("specialists_total", .int specialistsTotal), ("scope", .dict (buildScope args))]

/-- The rows of a table: one for each dictionary in a list. -/
def rowsOf (row : Dict → Dict) (v : Value) : Value :=
  .list ((dicts (ensureList v)).map fun d => .dict (row d))

/-- The issues, numbered by their place among all findings. -/
def buildIssues (findings : List Value) : Result (List Dict) :=
  (findings.zipIdx.filterMap fun f => f.1.asDict?.map fun d => (d, f.2)).mapM fun f =>
    buildIssue rt f.1 f.2

/-- `build_report_payload`, with the number of leaves in the wiki. -/
def buildReportPayload (specialistsTotal : ℕ) (env : Dict) : Result Dict := do
  if ← Value.contains? validVerdicts (env.get "verdict") then
    let methodology ← buildMethodology env
    let issues ← buildIssues rt (ensureList (env.get "findings"))
    return [("verdict", env.get "verdict"), ("summary", .dict (reportSummary specialistsTotal env)),
      ("methodology", .dict methodology), ("issues", .list (issues.map .dict)),
      ("strengths", .list (ensureList (env.get "strengths"))),
      ("tool_results", rowsOf buildToolRow (env.get "tool_results")),
      ("specialists", rowsOf buildSpecialistRow (env.get "specialist_outputs")),
      ("gates", rowsOf buildGateRow (env.get "gates")),
      ("coverage", rowsOf coverageRow (env.get "coverage_matrix"))]
  else throw .valueError

end

variable {rt : Runtime}

/-! ### When it returns -/

/-- The methodology can be read: no principle has an unhashable value. -/
def MethodologyReadable (env : Dict) : Prop :=
  ∀ principle ∈ methodologyPrinciples,
    ((ensureDict (env.get "methodology")).get principle).hashable = true

theorem contains?_ok_iff {names : List String} {v : Value} :
    Result.Ok (Value.contains? names v) ↔ v.hashable = true := by
  unfold Value.contains?
  split_ifs with h
  · simp [h]
  · simp [h]

theorem buildMethodology_ok_iff {env : Dict} :
    Result.Ok (buildMethodology env) ↔ MethodologyReadable env := by
  constructor
  · rintro ⟨methodology, h⟩ principle hprinciple
    obtain ⟨entry, -, hentry⟩ := Result.exists_of_mapM_left h hprinciple
    obtain ⟨b, hb, -⟩ := Result.bind_eq_ok.1 hentry
    exact contains?_ok_iff.1 ⟨b, hb⟩
  · intro h
    refine Result.mapM_ok fun principle hprinciple => ?_
    obtain ⟨b, hb⟩ := contains?_ok_iff.2 (h principle hprinciple)
    rw [methodologyEntry, hb, Result.ok_bind]
    cases b <;> exact ⟨_, rfl⟩

/-- An issue can be built of the finding. -/
structure Issuable (rt : Runtime) (finding : Dict) : Prop where
  severity : ∃ s ∈ validSeverities, finding.get "severity" = .str s
  corroboration : Result.Ok (rt.toInt
    (finding.getD "corroboration" (.int (sortedFlagged finding).length)))

theorem buildIssue_ok_iff {finding : Dict} {idx : ℕ} :
    Result.Ok (buildIssue rt finding idx) ↔ Issuable rt finding := by
  constructor
  · rintro ⟨issue, h⟩
    obtain ⟨b, hb, h⟩ := Result.bind_eq_ok.1 h
    cases b with
    | false => cases h
    | true =>
      obtain ⟨n, hn, -⟩ := Result.bind_eq_ok.1 h
      exact ⟨Value.contains?_eq_true.1 hb, n, hn⟩
  · rintro ⟨hseverity, n, hn⟩
    have hcontains := Value.contains?_eq_true.2 hseverity
    simp only [buildIssue, hcontains, Result.ok_bind, if_true, hn]
    exact ⟨_, rfl⟩

theorem buildIssues_ok_iff {findings : List Value} :
    Result.Ok (buildIssues rt findings) ↔ ∀ f : Dict, .dict f ∈ findings → Issuable rt f := by
  constructor
  · rintro ⟨issues, h⟩ f hf
    obtain ⟨i, hi⟩ := List.mem_iff_getElem?.1 hf
    have hmem : (f, i) ∈ findings.zipIdx.filterMap fun f => f.1.asDict?.map fun d => (d, f.2) :=
      List.mem_filterMap.2 ⟨(.dict f, i), List.mem_zipIdx_iff_getElem?.2 hi, rfl⟩
    obtain ⟨issue, -, hissue⟩ := Result.exists_of_mapM_left h hmem
    exact buildIssue_ok_iff.1 ⟨issue, hissue⟩
  · intro h
    refine Result.mapM_ok fun f hf => ?_
    obtain ⟨⟨v, i⟩, hv, hmap⟩ := List.mem_filterMap.1 hf
    obtain ⟨d, hd, rfl⟩ := Option.map_eq_some_iff.1 hmap
    refine buildIssue_ok_iff.2 (h d ?_)
    have hvd : v = .dict d := by cases v <;> simp_all [Value.asDict?]
    exact hvd ▸ List.fst_mem_of_mem_zipIdx hv

/-- **When the report is built.** -/
theorem buildReportPayload_ok_iff {specialistsTotal : ℕ} {env : Dict} :
    Result.Ok (buildReportPayload rt specialistsTotal env) ↔
      (∃ s ∈ validVerdicts, env.get "verdict" = .str s) ∧ MethodologyReadable env ∧
        ∀ f : Dict, .dict f ∈ ensureList (env.get "findings") → Issuable rt f := by
  rw [← buildIssues_ok_iff, ← buildMethodology_ok_iff, ← Value.contains?_eq_true]
  constructor
  · rintro ⟨report, h⟩
    obtain ⟨b, hb, h⟩ := Result.bind_eq_ok.1 h
    cases b with
    | false => cases h
    | true =>
      obtain ⟨methodology, hmethodology, h⟩ := Result.bind_eq_ok.1 h
      obtain ⟨issues, hissues, -⟩ := Result.bind_eq_ok.1 h
      exact ⟨hb, ⟨methodology, hmethodology⟩, issues, hissues⟩
  · rintro ⟨hverdict, ⟨methodology, hmethodology⟩, issues, hissues⟩
    rw [buildReportPayload, hverdict, Result.ok_bind, if_pos rfl, hmethodology, Result.ok_bind,
      hissues, Result.ok_bind]
    exact ⟨_, rfl⟩

end CodeReview
