import CodeReview.Py.Value

/-!
# The state machine

The states of the review pipeline and what the specification declares of each: its kind, the
inputs of its worker, its outputs, its post-validations and its transitions.  Conditions are kept
as the expressions the engine evaluates; the engine itself is not part of the repository.
-/

namespace CodeReview

open Py

/-- The states. -/
inductive StateId where
  | scanProject
  | riskTierTriage
  | activateLeaves
  | treeDescend
  | llmTrim
  | toolDiscovery
  | planSpecialistBatches
  | dispatchSpecialists
  | mergeSpecialistOutputs
  | collectFindings
  | rankFindings
  | verifyCoverage
  | synthesizeReleaseReadiness
  | writeRunDirectory
  | emitStdout
  | shortCircuitExit
  | stageAEmpty
  | verifierStuck
  | terminal
  deriving DecidableEq, Repr

/-- How a state runs. -/
inductive StateKind where
  | worker
  | inline
  | loop
  | terminal
  deriving DecidableEq, Repr

/-- A transition; `when = none` is `TransitionKind.always`. -/
structure Transition where
  target : StateId
  cond : Option String
  deriving DecidableEq, Repr

namespace StateId

/-- The id in the specification. -/
def text : StateId → String
  | scanProject => "scan_project"
  | riskTierTriage => "risk_tier_triage"
  | activateLeaves => "activate_leaves"
  | treeDescend => "tree_descend"
  | llmTrim => "llm_trim"
  | toolDiscovery => "tool_discovery"
  | planSpecialistBatches => "plan_specialist_batches"
  | dispatchSpecialists => "dispatch_specialists"
  | mergeSpecialistOutputs => "merge_specialist_outputs"
  | collectFindings => "collect_findings"
  | rankFindings => "rank_findings"
  | verifyCoverage => "verify_coverage"
  | synthesizeReleaseReadiness => "synthesize_release_readiness"
  | writeRunDirectory => "write_run_directory"
  | emitStdout => "emit_stdout"
  | shortCircuitExit => "short_circuit_exit"
  | stageAEmpty => "stage_a_empty"
  | verifierStuck => "verifier_stuck"
  | terminal => "terminal"

/-- `state.kind`. -/
def kind : StateId → StateKind
  | scanProject | treeDescend | llmTrim | toolDiscovery | rankFindings => .worker
  | dispatchSpecialists => .loop
  | terminal => .terminal
  | _ => .inline

/-- `state.worker.inputs`. -/
def workerInputs : StateId → List String
  | scanProject => ["args"]
  | treeDescend => ["project_profile", "changed_paths", "tier", "activated_leaves"]
  | llmTrim => ["project_profile", "changed_paths", "tier", "cap", "stage_a_candidates"]
  | toolDiscovery => ["picked_leaves", "args"]
  | rankFindings => ["findings", "changed_paths", "args"]
  | _ => []

/-- `state.outputs`. -/
def outputs : StateId → List String
  | scanProject => ["project_profile", "changed_paths", "diff_stats"]
  | riskTierTriage =>
    ["tier", "cap", "tier_rationale", "risk_signals", "scope_overrides_present"]
  | activateLeaves => ["activated_leaves"]
  | treeDescend => ["stage_a_candidates", "descent_path"]
  | llmTrim => ["picked_leaves", "rejected_leaves", "coverage_rescues"]
  | toolDiscovery => ["tool_results"]
  | planSpecialistBatches => ["specialist_batches", "total_batches", "total_files_planned"]
  | dispatchSpecialists => ["batch_index", "iter_outputs", "loop_done"]
  | mergeSpecialistOutputs => ["specialist_outputs"]
  | collectFindings => ["findings", "severity_counts"]
  | rankFindings => ["findings", "severity_counts"]
  | verifyCoverage => ["coverage_matrix", "coverage_gaps", "coverage_rule_violated"]
  | synthesizeReleaseReadiness => ["gates", "verdict"]
  | writeRunDirectory => ["run_dir_path"]
  | emitStdout => []
  | shortCircuitExit =>
    ["findings", "severity_counts", "coverage_matrix", "coverage_gaps", "gates", "verdict",
      "short_circuited"]
  | stageAEmpty =>
    ["findings", "severity_counts", "coverage_matrix", "coverage_gaps", "gates", "verdict",
      "degraded_run"]
  | verifierStuck =>
    ["verifier_stuck", "degraded_run", "verifier_rejection_counts", "failed_units"]
  | terminal => []

/-- The post-validations of the inline states. -/
def postValidations : StateId → List String
  | riskTierTriage =>
    ["tier == 'trivial' OR tier == 'lite' OR tier == 'full' OR tier == 'sensitive'",
      "cap >= 3 AND cap <= 50"]
  | activateLeaves => ["len(activated_leaves) >= 0"]
  | planSpecialistBatches =>
    ["len(specialist_batches) >= 0", "total_batches >= 0", "total_files_planned >= 0",
      "(len(picked_leaves) == 0) OR (total_batches > 0)"]
  | mergeSpecialistOutputs => ["len(specialist_outputs) >= 0"]
  | collectFindings => ["len(findings) >= 0"]
  | verifyCoverage => ["len(coverage_matrix) >= 0"]
  | synthesizeReleaseReadiness =>
    ["verdict == 'GO' OR verdict == 'CONDITIONAL' OR verdict == 'NO-GO'", "len(gates) == 8"]
  | writeRunDirectory => ["len(run_dir_path) > 0"]
  | shortCircuitExit => ["verdict == 'GO'", "len(findings) == 0"]
  | stageAEmpty => ["verdict == 'CONDITIONAL'", "degraded_run == true"]
  | verifierStuck => ["degraded_run == true"]
  | _ => []

/-- The unconditional transition. -/
def always (s : StateId) : Transition := ⟨s, none⟩

/-- `_verifier_stuck_predicate`: the state has reached the rejection cap. -/
def toVerifierStuck (s : StateId) : Transition :=
  ⟨verifierStuck, some ("verifier_rejection_counts." ++ s.text ++ " >= 3")⟩

/-- `state.transitions`, in order. -/
def transitions : StateId → List Transition
  | scanProject => [toVerifierStuck scanProject, always riskTierTriage]
  | riskTierTriage =>
    [⟨shortCircuitExit, some ("tier == 'trivial' AND len(risk_signals) == 0 " ++
      "AND NOT scope_overrides_present")⟩, always activateLeaves]
  | activateLeaves => [⟨stageAEmpty, some "len(activated_leaves) == 0"⟩, always treeDescend]
  | treeDescend =>
    [toVerifierStuck treeDescend, ⟨stageAEmpty, some "len(stage_a_candidates) == 0"⟩,
      always llmTrim]
  | llmTrim => [toVerifierStuck llmTrim, always toolDiscovery]
  | toolDiscovery => [toVerifierStuck toolDiscovery, always planSpecialistBatches]
  | planSpecialistBatches =>
    [⟨mergeSpecialistOutputs, some "total_batches == 0"⟩, always dispatchSpecialists]
  | dispatchSpecialists => [toVerifierStuck dispatchSpecialists, always mergeSpecialistOutputs]
  | mergeSpecialistOutputs => [always collectFindings]
  | collectFindings => [always rankFindings]
  | rankFindings => [toVerifierStuck rankFindings, always verifyCoverage]
  | verifyCoverage => [always synthesizeReleaseReadiness]
  | synthesizeReleaseReadiness => [always writeRunDirectory]
  | writeRunDirectory => [always emitStdout]
  | emitStdout => [always terminal]
  | shortCircuitExit => [always writeRunDirectory]
  | stageAEmpty => [always writeRunDirectory]
  | verifierStuck => [always synthesizeReleaseReadiness]
  | terminal => []

theorem eq_terminal_of_kind {s : StateId} (h : s.kind = .terminal) : s = terminal := by
  revert h
  cases s <;> decide

end StateId

end CodeReview
