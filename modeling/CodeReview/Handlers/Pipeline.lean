import CodeReview.Handlers.Collectable
import CodeReview.Handlers.Report
import CodeReview.Dispatch.Rank
import CodeReview.Runner.Conforms

/-!
# From the specialists' outputs to the report

The collector, the ranker's decisions and the report, one after the other.  The merge schema says
nothing about a finding, so each stage meets whatever the specialists wrote.

* `ranked_corroboration`, `ranked_severity` : what the report reads of a ranked finding;
* `reportPipeline_ok_iff` : **on findings that can be read the collector and the ranker return, and
  the report is built exactly when every finding that is kept has one of the three severities.**
-/

namespace CodeReview

open Py

section

variable (rt : Runtime) (embed : Embed)

/-- The environment after the outputs of two states are written. -/
def reportEnv (env : Dict) (collected : Collected) (ranked : Ranked) : Dict :=
  Assoc.update (Assoc.update env collected.toDict) ranked.toDict

/-- `handle_collect_findings`, `_apply_rank_decisions` and `build_report_payload`. -/
def reportPipeline (specialistsTotal : ℕ) (env : Dict) (decisions : Value) : Result Dict := do
  let collected ← collectFindings rt embed env
  let ranked ← applyRankDecisions rt collected.findings decisions (ensureDict (env.get "args"))
  buildReportPayload rt specialistsTotal (reportEnv env collected ranked)

end

variable {rt : Runtime} {embed : Embed}

/-! ### What the report reads -/

/-- The severity is one of the three. -/
def Graded (finding : Dict) : Prop := ∃ s ∈ validSeverities, finding.get "severity" = .str s

theorem get?_reportEnv {env : Dict} {collected : Collected} {ranked : Ranked} {k : String}
    (hk : k ∉ ["findings", "severity_counts", "primary_count"]) :
    Assoc.get? (reportEnv env collected ranked) k = Assoc.get? env k := by
  simp only [List.mem_cons, List.not_mem_nil, or_false, not_or] at hk
  unfold reportEnv
  rw [Assoc.get?_update_of_notMem, Assoc.get?_update_of_notMem]
  · simp [Collected.toDict, hk]
  · simp [Ranked.toDict, hk]

theorem get_reportEnv {env : Dict} {collected : Collected} {ranked : Ranked} {k : String}
    (hk : k ∉ ["findings", "severity_counts", "primary_count"]) :
    (reportEnv env collected ranked).get k = env.get k := by
  rw [Dict.get, get?_reportEnv hk]
  rfl

theorem findings_reportEnv (env : Dict) (collected : Collected) (ranked : Ranked) :
    (reportEnv env collected ranked).get "findings" = .list (ranked.findings.map .dict) := by
  have hnodup : (ranked.toDict.map Prod.fst).Nodup := by simp [Ranked.toDict]
  rw [reportEnv, Dict.get, Assoc.get?_update_of_nodup _ hnodup]
  rfl

/-- The threshold of the collector is the threshold of the ranker. -/
theorem rankThreshold_ok {args : Dict} (h : ThresholdReadable rt args) :
    Result.Ok (rankThreshold rt args) := by
  refine orOnBadNumber_ok ?_ fun e he => toFloat_error he
  cases htruthy : (args.get "primary-threshold").truthy with
  | true => rwa [Value.or_of_truthy _ htruthy]
  | false =>
    rw [Value.or_of_falsy _ htruthy]
    exact nofun

section

variable {findings : List Dict} {decisions : Value} {args : Dict} {ranked : Ranked}
  (h : applyRankDecisions rt findings decisions args = .ok ranked)

include h

/-- A ranked finding keeps the corroboration that the collector counted. -/
theorem ranked_corroboration
    (hcounted : ∀ f ∈ findings, ∃ n, f.get "corroboration" = .int n) :
    ∀ g ∈ ranked.findings, ∃ n, Assoc.get? g "corroboration" = some (.int n) := by
  intro g hg
  obtain ⟨f, hf, hsame⟩ := ranked_findings h g hg
  obtain ⟨n, hn⟩ := hcounted f hf
  refine ⟨n, ?_⟩
  rw [hsame _ (by decide) (by decide)]
  unfold Dict.get at hn
  cases hget : Assoc.get? f "corroboration" with
  | none =>
    rw [hget] at hn
    cases hn
  | some v =>
    rw [hget] at hn
    exact congrArg some hn

/-- A ranked finding keeps its severity. -/
theorem ranked_severity {P : Value → Prop} (hsev : ∀ f ∈ findings, P (f.get "severity")) :
    ∀ g ∈ ranked.findings, P (g.get "severity") := by
  intro g hg
  obtain ⟨f, hf, hsame⟩ := ranked_findings h g hg
  have hget : g.get "severity" = f.get "severity" := by
    rw [Dict.get, hsame _ (by decide) (by decide)]
    rfl
  rw [hget]
  exact hsev f hf

end

/-- The id of a report whose specialist conforms to the schema is a string. -/
theorem reports_conform {outputs : List Value}
    (h : ∀ out : Dict, .dict out ∈ outputs → Conforms out) :
    ∀ r ∈ reports outputs, ∃ s, r.1 = .str s := by
  intro r hr
  obtain ⟨out, hout, hr⟩ := List.mem_flatMap.1 hr
  split_ifs at hr
  · obtain ⟨finding, -, rfl⟩ := List.mem_map.1 hr
    obtain ⟨v, hv, s, rfl⟩ := (h out (mem_dicts.1 hout)).id
    exact ⟨s, by rw [Dict.getD, hv]; rfl⟩
  · cases hr

/-! ### The pipeline -/

/-- **The collector and the ranker return on findings that can be read; the report is then built
exactly when every finding that is kept is graded, and each has the severity of a reported one.** -/
theorem reportPipeline_ok_iff {env : Dict} {decisions : Value} {specialistsTotal : ℕ}
    (hconforms : ∀ out : Dict, .dict out ∈ ensureList (env.get "specialist_outputs") →
      Conforms out)
    (hfindings : ∀ r ∈ reports (ensureList (env.get "specialist_outputs")), Collectable rt r.2)
    (hdecisions : DecisionsReadable rt decisions)
    (hthreshold : ThresholdReadable rt (ensureDict (env.get "args")))
    (hverdict : ∃ s ∈ validVerdicts, env.get "verdict" = .str s)
    (hmethodology : MethodologyReadable env) :
    ∃ collected ranked, collectFindings rt embed env = .ok collected ∧
      applyRankDecisions rt collected.findings decisions (ensureDict (env.get "args")) =
        .ok ranked ∧
      (Result.Ok (reportPipeline rt embed specialistsTotal env decisions) ↔
        ∀ g ∈ ranked.findings, Graded g) ∧
      ∀ g ∈ ranked.findings, ∃ r ∈ reports (ensureList (env.get "specialist_outputs")),
        g.get "severity" = r.2.get "severity" := by
  obtain ⟨collected, hcollect, hentries⟩ :=
    @collectFindings_ok rt embed env (reports_conform hconforms) hfindings hthreshold
  obtain ⟨ranked, hranked⟩ : Result.Ok (applyRankDecisions rt collected.findings decisions
      (ensureDict (env.get "args"))) :=
    applyRankDecisions_ok (rankThreshold_ok hthreshold) hdecisions
  refine ⟨collected, ranked, hcollect, hranked, ?_, ?_⟩
  · have hcounted := ranked_corroboration hranked fun f hf => (hentries f hf).1
    rw [reportPipeline, hcollect, Result.ok_bind, hranked, Result.ok_bind,
      buildReportPayload_ok_iff, get_reportEnv (by decide), findings_reportEnv]
    have hmethodology' : MethodologyReadable (reportEnv env collected ranked) := by
      intro principle hprinciple
      rw [get_reportEnv (by decide)]
      exact hmethodology principle hprinciple
    constructor
    · rintro ⟨-, -, hissues⟩ g hg
      exact (hissues g (List.mem_map_of_mem hg)).severity
    · intro hgraded
      -- the ranker has stamped a corroboration count on every finding
      refine ⟨hverdict, hmethodology', fun g hg => ?_⟩
      obtain ⟨g', hg', heq⟩ := List.mem_map.1 hg
      obtain rfl := Value.dict.inj heq
      obtain ⟨n, hn⟩ := hcounted g' hg'
      exact ⟨hgraded g' hg', n, by rw [Dict.getD, hn]; rfl⟩
  · refine ranked_severity hranked (P := fun v => ∃ r ∈ reports _, v = r.2.get "severity") ?_
    intro f hf
    obtain ⟨-, r, hr, hsame⟩ := hentries f hf
    exact ⟨r, hr, hsame.severity⟩

/-- One specialist reports one finding of the given severity. -/
def oneFinding (severity : String) : Dict :=
  [("specialist_outputs", .list [.dict [("id", "quality"), ("status", "completed"),
      ("findings", .list [.dict [("severity", .str severity), ("file", "a.py"),
        ("title", "Race")]])]]),
    ("verdict", "NO-GO")]

theorem oneFinding_conforms (severity : String) : ∀ out : Dict,
    .dict out ∈ ensureList ((oneFinding severity).get "specialist_outputs") → Conforms out := by
  intro out hout
  obtain rfl := Value.dict.inj (List.mem_singleton.1 hout)
  refine ⟨⟨_, rfl, "quality", rfl⟩, ⟨_, rfl, "completed", by decide, rfl⟩, ⟨_, rfl, _, rfl⟩, ?_⟩
  intro v hv
  cases hv

theorem oneFinding_collectable (severity : String) :
    ∀ r ∈ reports (ensureList ((oneFinding severity).get "specialist_outputs")),
      Collectable Runtime.ascii r.2 := by
  intro r hr
  obtain rfl := List.mem_singleton.1 hr
  exact ⟨rfl, ⟨"a.py", rfl⟩, ⟨_, rfl⟩, ⟨"", rfl⟩⟩

theorem reportPipeline_ok_iff_oneFinding :
    ∃ collected ranked,
      collectFindings Runtime.ascii (fun _ => none) (oneFinding "critical") = .ok collected ∧
      applyRankDecisions Runtime.ascii collected.findings .none [] = .ok ranked ∧
      (Result.Ok (reportPipeline Runtime.ascii (fun _ => none) 0 (oneFinding "critical") .none) ↔
        ∀ g ∈ ranked.findings, Graded g) ∧
      ∀ g ∈ ranked.findings,
        ∃ r ∈ reports (ensureList ((oneFinding "critical").get "specialist_outputs")),
          g.get "severity" = r.2.get "severity" :=
  reportPipeline_ok_iff (oneFinding_conforms "critical") (oneFinding_collectable "critical")
    nofun nofun ⟨"NO-GO", by decide, rfl⟩ fun principle hprinciple => by
      revert principle
      decide

/-- A severity in another case goes through the collector and the ranker, and the report refuses
it. -/
theorem oneFinding_raises :
    (∀ out : Dict, .dict out ∈ ensureList ((oneFinding "Critical").get "specialist_outputs") →
      Conforms out) ∧
    reportPipeline Runtime.ascii (fun _ => none) 0 (oneFinding "Critical") .none =
      .error .valueError :=
  ⟨oneFinding_conforms "Critical", rfl⟩

end CodeReview
