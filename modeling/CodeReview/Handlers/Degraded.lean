import CodeReview.Handlers.Readiness
import CodeReview.Spec

/-!
# Degraded runs

Two handlers flag a run as degraded: `stage_a_empty`, which answers CONDITIONAL itself, and
`verifier_stuck`, which leaves the verdict to the synthesiser it always leads to.

* `handleVerifierStuck_frame` : `verifier_stuck` changes none of the keys the synthesiser reads;
* `degraded_not_go_iff` : **a degraded run is kept from GO exactly by the conditions that keep any
  run from GO.**
-/

namespace CodeReview

open Py

/-! ### The handlers -/

/-- `_VERIFIER_REJECTION_LIMIT`. -/
def verifierRejectionLimit : ℤ := 3

/-- `_read_verifier_rejection_counts`: entries that are no count are dropped. -/
def readVerifierRejectionCounts (env : Dict) : List (String × ℤ) :=
  (ensureDict (env.get "verifier_rejection_counts")).filterMap fun kv =>
    kv.2.asInt?.bind fun n => if 0 ≤ n then some (kv.1, n) else none

/-- The outputs of `verifier_stuck`. -/
structure VerifierStuck where
  stuckStateId : Option String
  rejectionCount : ℤ
  verifierRejectionCounts : List (String × ℤ)
  failedUnits : List Dict

/-- The outputs as a dictionary. -/
def VerifierStuck.toDict (v : VerifierStuck) : Dict :=
  [("verifier_stuck", .dict [("stuck_state_id", .str (v.stuckStateId.getD "")),
      ("rejection_count", .int v.rejectionCount), ("limit", .int verifierRejectionLimit)]),
    ("degraded_run", .bool true),
    ("verifier_rejection_counts",
      .dict (v.verifierRejectionCounts.map fun kn => (kn.1, .int kn.2))),
    ("failed_units", .list (v.failedUnits.map .dict))]

/-- The state the panel is stuck in: the explicit one, else the first at the limit. -/
def stuckState (env : Dict) (counts : List (String × ℤ)) : Option String :=
  match env.get "stuck_state_id" with
  | .str s => if s ≠ "" then some s else firstAtLimit
  | _ => firstAtLimit
where
  firstAtLimit := (counts.find? fun kn => verifierRejectionLimit ≤ kn.2).map Prod.fst

/-- The leaf and the batch that owned the rejected commit. -/
def stuckUnits (env : Dict) : List Dict :=
  (match env.get "current_leaf_id" with
    | .str s => if s ≠ "" then [[("leaf_id", .str s), ("reason", "verifier_stuck")]] else []
    | _ => []) ++
  (match (env.get "current_batch_index").asInt? with
    | some n => [[("batch_index", .int n), ("reason", "verifier_stuck")]]
    | none => [])

/-- `handle_verifier_stuck`. -/
def handleVerifierStuck (env : Dict) : VerifierStuck :=
  let counts := readVerifierRejectionCounts env
  let stuckStateId := stuckState env counts
  { stuckStateId
    rejectionCount := (Assoc.get? counts (stuckStateId.getD "")).getD 0
    verifierRejectionCounts := stuckStateId.elim counts fun s => Assoc.set counts s 0
    failedUnits := stuckUnits env }

/-- `handle_stage_a_empty`. -/
def handleStageAEmpty (env : Dict) : Dict :=
  let safePaths := strs (ensureList (env.get "changed_paths"))
  [("findings", .list []),
    ("severity_counts", .dict (validSeverities.map fun s => (s, .int 0))),
    ("coverage_matrix", .list (safePaths.map fun file =>
      .dict [("file", .str file), ("reviewers", .list [])])),
    ("coverage_gaps", ofStrs safePaths),
    ("gates", .list (gateTable.map fun gate =>
      (GateRow.mk gate.1 gate.2 .notApplicable [] 0).toValue)),
    ("verdict", .str Verdict.conditional.text),
    ("degraded_run", .bool true)]

/-! ### From a stuck panel to the verdict -/

/-- The outputs of `verifier_stuck` are the declared ones. -/
theorem keys_handleVerifierStuck (env : Dict) :
    (handleVerifierStuck env).toDict.map Prod.fst = StateId.verifierStuck.outputs := rfl

theorem keys_handleStageAEmpty (env : Dict) :
    (handleStageAEmpty env).map Prod.fst = StateId.stageAEmpty.outputs := rfl

/-- The environment in which the synthesiser runs after `verifier_stuck`. -/
def afterStuck (env : Dict) : Dict := Assoc.update env (handleVerifierStuck env).toDict

theorem afterStuck_degraded (env : Dict) : (afterStuck env).get "degraded_run" = .bool true := by
  simp [afterStuck, VerifierStuck.toDict, Assoc.update]

/-- `verifier_stuck` changes no other key than its outputs. -/
theorem get_afterStuck (env : Dict) {k : String} (h : k ∉ StateId.verifierStuck.outputs) :
    (afterStuck env).get k = env.get k := by
  rw [Dict.get, afterStuck, Assoc.get?_update_of_notMem _ _ (keys_handleVerifierStuck env ▸ h)]
  rfl

/-- What keeps a run from GO: a finding the synthesiser cannot read, a violated coverage rule, or a
blocking finding at a gate. -/
def Lowered (env : Dict) : Prop :=
  (∃ f, .dict f ∈ ensureList (env.get "findings") ∧ ¬ Readable f) ∨
    (env.get "coverage_rule_violated").truthy = true ∨ BlockedAtGate env

/-- The synthesiser does not answer GO. -/
def NotGo (env : Dict) : Prop := ∀ r, synthesizeReleaseReadiness env = .ok r → r.verdict ≠ .go

theorem notGo_iff (env : Dict) : NotGo env ↔ Lowered env := by
  by_cases hread : ∀ f, .dict f ∈ ensureList (env.get "findings") → Readable f
  · obtain ⟨r, hr⟩ := synthesize_ok_iff.2 hread
    have hnot : NotGo env ↔ r.verdict ≠ .go :=
      ⟨fun h => h r hr, fun h r' hr' => by simp only [hr, Except.ok.injEq] at hr'; exact hr' ▸ h⟩
    have hfind : ¬ ∃ f, .dict f ∈ ensureList (env.get "findings") ∧ ¬ Readable f :=
      fun ⟨f, hf, hn⟩ => hn (hread f hf)
    rw [hnot, ne_eq, synthesize_go_iff hr, Lowered, or_iff_right hfind]
    cases (env.get "coverage_rule_violated").truthy <;> simp
  · have hraise : ∀ r, synthesizeReleaseReadiness env ≠ .ok r :=
      fun r hr => hread (synthesize_ok_iff.1 ⟨r, hr⟩)
    push Not at hread
    exact ⟨fun _ => .inl hread, fun _ r hr => absurd hr (hraise r)⟩

theorem lowered_afterStuck_iff (env : Dict) : Lowered (afterStuck env) ↔ Lowered env := by
  rw [Lowered, Lowered, BlockedAtGate, BlockedAtGate, get_afterStuck env (by decide),
    get_afterStuck env (by decide), get_afterStuck env (by decide)]

/-- **The degraded flag lowers no verdict.**  In an environment that has the flag set, and on every
path from `verifier_stuck` to the synthesiser, the verdict differs from GO exactly under the
conditions that keep a run without the flag from GO. -/
theorem degraded_not_go_iff (env : Dict) :
    (env.get "degraded_run" = .bool true → (NotGo env ↔ Lowered env)) ∧
      StateId.verifierStuck.transitions = [StateId.always .synthesizeReleaseReadiness] ∧
      (afterStuck env).get "degraded_run" = .bool true ∧
      (NotGo (afterStuck env) ↔ Lowered env) :=
  ⟨fun _ => notGo_iff env, rfl, afterStuck_degraded env,
    (notGo_iff _).trans (lowered_afterStuck_iff env)⟩

/-- A degraded environment whose coverage rule was violated is not signed off. -/
theorem degraded_not_go_iff_violated :
    NotGo [("degraded_run", .bool true), ("coverage_rule_violated", .bool true)] :=
  ((degraded_not_go_iff _).1 rfl).2 (.inr (.inl rfl))

/-- A run whose panel got stuck before anything was reviewed is signed off. -/
theorem degraded_go :
    ¬ ((∀ env : Dict, env.get "degraded_run" = .bool true → NotGo env) ∧
      ∀ env : Dict, NotGo (afterStuck env)) := by
  rintro ⟨-, hpath⟩
  have hgo : (synthesizeReleaseReadiness (afterStuck [])).map Readiness.verdict = .ok .go := by
    decide
  obtain ⟨r, hr, hv⟩ := Result.map_eq_ok.1 hgo
  exact hpath [] r hr hv

end CodeReview
