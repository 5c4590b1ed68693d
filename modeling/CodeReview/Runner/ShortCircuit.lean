import CodeReview.Handlers.Triage
import CodeReview.Runner.Routing

/-!
# The short circuit

A diff that the triage finds trivial and without risk is approved without any review.

* `next_riskTierTriage_iff` : where the outputs of the triage lead;
* `rounds_shortCircuit` : from `short_circuit_exit` on nothing is dispatched, and the verdict is GO;
* `shortCircuit_sound` : **the short circuit is taken exactly on a small change of one file in which
  nothing is risky and nothing overridden**, and never past a risk signal.
-/

namespace CodeReview

open Py Proc

variable {rt : Runtime} {maxRetries : ℕ} {E : Engine}

/-! ### The transition -/

/-- The condition of the transition to `short_circuit_exit`. -/
def shortCircuitCond : String :=
  "tier == 'trivial' AND len(risk_signals) == 0 " ++ "AND NOT scope_overrides_present"

/-- That condition means what it says. -/
def Engine.ReadsTriage (E : Engine) : Prop :=
  ∀ (env : Dict) (tier : String) (signals : List Value) (overrides : Bool),
    env.get "tier" = .str tier → env.get "risk_signals" = .list signals →
    env.get "scope_overrides_present" = .bool overrides →
      (E.holds shortCircuitCond env = true ↔ tier = "trivial" ∧ signals = [] ∧ overrides = false)

theorem get_triage {env : Dict} {t : Triage} {k : String} {v : Value}
    (h : Assoc.get? t.toDict k = some v) : Dict.get (Assoc.update env t.toDict) k = v := by
  have hnodup : (t.toDict.map Prod.fst).Nodup := by
    show StateId.riskTierTriage.outputs.Nodup
    decide
  exact get_merge_of_some hnodup h

theorem text_eq_trivial {tier : RiskTier} : tier.text = "trivial" ↔ tier = .trivial := by
  cases tier <;> decide

/-- Where the outputs of the triage lead. -/
theorem next_riskTierTriage (hE : E.ReadsTriage) (env : Dict) (t : Triage) :
    E.next .riskTierTriage (Assoc.update env t.toDict) =
      some (if t.tier = .trivial ∧ t.riskSignals = [] ∧ t.scopeOverridesPresent = false then
        .shortCircuitExit else .activateLeaves) := by
  have hcond := hE (Assoc.update env t.toDict) t.tier.text (t.riskSignals.map .str)
    t.scopeOverridesPresent (get_triage rfl) (get_triage rfl) (get_triage rfl)
  rw [text_eq_trivial, List.map_eq_nil_iff] at hcond
  have hfind : E.next .riskTierTriage (Assoc.update env t.toDict) =
      ([⟨.shortCircuitExit, some shortCircuitCond⟩, StateId.always .activateLeaves].find?
        fun tr => tr.cond.all fun cond => E.holds cond (Assoc.update env t.toDict)).map
          Transition.target := rfl
  rw [hfind]
  by_cases htrivial : t.tier = .trivial ∧ t.riskSignals = [] ∧ t.scopeOverridesPresent = false
  · rw [if_pos htrivial]
    simp only [List.find?_cons, Option.all_some, hcond.2 htrivial]
    rfl
  · rw [if_neg htrivial]
    simp only [List.find?_cons, Option.all_some, Bool.eq_false_iff.2 (mt hcond.1 htrivial)]
    rfl

/-- A change that needs no review: one file, at most ten lines, no risky path, no infrastructure in
the profile, and no argument that narrows the scope. -/
structure SafeToSkip (rt : Runtime) (env : Dict) : Prop where
  oneFile : CountIs env "files_changed" 1
  tenLines : ∃ lines : ℕ, CountIs env "lines_changed" lines ∧ lines ≤ 10
  noRiskyPath : ∀ path ∈ changedFiles env, ¬ RiskyPath rt path
  noInfrastructure : Dict.has (ensureDict (env.get "project_profile")) "iac" = false ∨
    Dict.get (ensureDict (env.get "project_profile")) "iac" = .list []
  noOverride : ∀ key ∈ scopeOverrideKeys, ((ensureDict (env.get "args")).get key).isNone = true

/-- In a scan output no infrastructure is an empty list or none. -/
theorem ScanOutput.iac_iff {env : Dict} (h : ScanOutput env) :
    ensureList (Dict.get (ensureDict (env.get "project_profile")) "iac") = [] ↔
      Dict.has (ensureDict (env.get "project_profile")) "iac" = false ∨
        Dict.get (ensureDict (env.get "project_profile")) "iac" = .list [] := by
  obtain ⟨profile, hprofile, hiac⟩ := h.profile
  rw [hprofile, ensureDict_dict]
  cases hget : Assoc.get? profile "iac" with
  | none =>
    rw [Dict.get, Dict.has, hget]
    exact ⟨fun _ => .inl rfl, fun _ => rfl⟩
  | some iac =>
    obtain ⟨entries, rfl⟩ := hiac _ hget
    rw [Dict.get, Dict.has, hget]
    show entries.map Value.str = [] ↔ true = false ∨ Value.list (entries.map .str) = .list []
    rw [Value.list.injEq]
    exact ⟨.inr, fun h => h.resolve_left Bool.noConfusion⟩

/-- **On a scan output the short circuit is taken exactly when the change is safe to skip.** -/
theorem shortCircuit_iff (hE : E.ReadsTriage) {env : Dict} (hscan : ScanOutput env) {t : Triage}
    (h : handleRiskTierTriage rt env = .ok t) :
    E.next .riskTierTriage (Assoc.update env t.toDict) = some .shortCircuitExit ↔
      SafeToSkip rt env := by
  obtain ⟨lines, files, hlines, hfiles, htier⟩ := @triageTier_of_scan rt env hscan
  obtain ⟨rationale, htier'⟩ := handleRiskTierTriage_tier h
  obtain ⟨hsignals, hoverrides⟩ := handleRiskTierTriage_reads h
  -- the tier that is answered is that of the counted lines and files
  have hbucket : (bucket (envRiskSignals rt env) lines files).1 = t.tier := by
    rw [htier] at htier'
    exact congrArg Prod.fst (Except.ok.inj htier')
  have hnil : envRiskSignals rt env = [] ↔ _ := detectRiskSignals_eq_nil_iff
  rw [hscan.iac_iff] at hnil
  have hfires : E.next .riskTierTriage (Assoc.update env t.toDict) = some .shortCircuitExit ↔
      t.tier = .trivial ∧ t.riskSignals = [] ∧ t.scopeOverridesPresent = false := by
    rw [next_riskTierTriage hE, Option.some.injEq]
    split_ifs with htrivial
    · exact ⟨fun _ => htrivial, fun _ => rfl⟩
    · exact ⟨fun h => h.elim, fun h => absurd h htrivial⟩
  rw [hfires, hsignals, hoverrides, ← hbucket, bucket_trivial_iff,
    detectScopeOverrides_eq_false_iff]
  constructor
  · rintro ⟨⟨hempty, hten, hone⟩, -, hnone⟩
    obtain ⟨hpaths, hiac⟩ := hnil.1 hempty
    exact ⟨hone ▸ hfiles, ⟨lines, hlines, by omega⟩, hpaths, hiac, hnone⟩
  · intro hsafe
    obtain ⟨lines', hlines', hten⟩ := hsafe.tenLines
    have hempty := hnil.2 ⟨hsafe.noRiskyPath, hsafe.noInfrastructure⟩
    have hone := hfiles.unique hsafe.oneFile
    have hsame := hlines.unique hlines'
    exact ⟨⟨hempty, by omega, hone⟩, hempty, hsafe.noOverride⟩

/-- **A risky path makes the tier sensitive and blocks the short circuit.** -/
theorem riskyPath_blocks (hE : E.ReadsTriage) {env : Dict} (hscan : ScanOutput env) {path : String}
    (hpath : path ∈ changedFiles env) (hrisky : RiskyPath rt path) :
    (∃ rationale, triageTier rt env = .ok (.sensitive, rationale)) ∧
      ∀ t, handleRiskTierTriage rt env = .ok t → t.tier = .sensitive ∧
        E.next .riskTierTriage (Assoc.update env t.toDict) = some .activateLeaves := by
  obtain ⟨lines, files, -, -, htier⟩ := @triageTier_of_scan rt env hscan
  have hsignals : envRiskSignals rt env ≠ [] := fun hempty =>
    (detectRiskSignals_eq_nil_iff.1 hempty).1 path hpath hrisky
  have hsensitive : (bucket (envRiskSignals rt env) lines files).1 = .sensitive :=
    bucket_sensitive_iff.2 hsignals
  refine ⟨⟨(bucket (envRiskSignals rt env) lines files).2, ?_⟩, fun t ht => ?_⟩
  · rw [htier, ← hsensitive]
  · obtain ⟨rationale, htier'⟩ := handleRiskTierTriage_tier ht
    have ht' : t.tier = .sensitive := by
      rw [htier] at htier'
      rw [← hsensitive, Except.ok.inj htier']
    refine ⟨ht', ?_⟩
    rw [next_riskTierTriage hE, if_neg fun htrivial => ?_]
    rw [ht'] at htrivial
    exact RiskTier.noConfusion htrivial.1

/-! ### What follows -/

/-- The effect sends no unit to a specialist. -/
def NotDispatch : RunEffect → Prop
  | .dispatch .. => False
  | .foreignBatches _ => False
  | _ => True

theorem performs_inline (s : RunState) : Performs NotDispatch (inlineStep s) :=
  .vis trivial fun measured => .vis trivial fun reply => by
    cases reply with
    | fault reason detail => exact .ret _
    | ok outputs => exact .vis trivial fun reply => by cases reply <;> exact .ret _

/-- The engine and the handlers of the last states answer as they should. -/
def ExitLawful (E : Engine) (ev : Event RunEffect RunReply) : Prop :=
  EventLawful E reservedKeys ev ∧ match ev with
    | ⟨.inline .shortCircuitExit _, .ok outputs⟩ => outputs = handleShortCircuitExit
    | _ => True

/-- The review is answered with GO. -/
def Approved (s : RunState) : Prop :=
  s.stateId = .shortCircuitExit ∨
    (s.stateId ∈ [StateId.writeRunDirectory, .emitStdout, .terminal] ∧
      s.env.get "verdict" = .str Verdict.go.text)

theorem approved_next {s s' : RunState} {trace : RunTrace} (hlaw : ∀ ev ∈ trace, ExitLawful E ev)
    (hs : Approved s) (h : Runs (reviewStep rt maxRetries s) trace (.next s')) : Approved s' := by
  have hevents : ∀ ev ∈ trace, EventLawful E reservedKeys ev := fun ev hev => (hlaw ev hev).1
  rcases hs with hstate | ⟨hstate, hverdict⟩
  · simp only [reviewStep, hstate, StateId.kind] at h
    obtain ⟨measured, outputs, rest, rfl, -, -, hnext, henv, -⟩ :=
      inline_next h hevents (by rw [hstate]; decide)
    have houtputs := (hlaw _ (List.mem_cons_of_mem _ List.mem_cons_self)).2
    rw [hstate] at houtputs
    rw [show (s.timed measured).stateId = .shortCircuitExit from hstate] at hnext
    obtain rfl : outputs = handleShortCircuitExit := houtputs
    rw [next_of_always rfl] at hnext
    refine .inr ⟨by rw [← Option.some.inj hnext]; decide, ?_⟩
    have hnodup : (handleShortCircuitExit.map Prod.fst).Nodup := by
      show StateId.shortCircuitExit.outputs.Nodup
      decide
    rw [henv]
    exact get_merge_of_some hnodup rfl
  · obtain ⟨hstate', hkept⟩ := verdict_next hevents hstate h
    exact .inr ⟨hstate', hkept.trans hverdict⟩

/-- **From `short_circuit_exit` on no unit is dispatched, and a review that does not fault is
approved.** -/
theorem rounds_shortCircuit {rounds : ℕ} {s : RunState} {steps : List (RunState × RunTrace)}
    {outcome : Outcome} (h : Rounds rt maxRetries rounds s steps outcome)
    (hlaw : ∀ st ∈ steps, ∀ ev ∈ st.2, ExitLawful E ev) (hs : s.stateId = .shortCircuitExit) :
    (∀ st ∈ steps, ∀ ev ∈ st.2, NotDispatch ev.1) ∧
      ∀ r, outcome = .ok r → r.faulted = false → r.verdict = .str Verdict.go.text := by
  refine ⟨fun st hst ev hev => ?_, fun r hr hfaulted => ?_⟩
  · have hending : s.stateId ∈ endings := by rw [hs]; decide
    obtain ⟨hstate, res, hrun⟩ := states_ending h (fun st hst ev hev => (hlaw st hst ev hev).1)
      hending st hst
    rcases kind_of_ending hstate with hkind | hkind
    · simp only [reviewStep, hkind] at hrun
      exact (performs_inline st.1).of_mem hrun ev hev
    · simp only [reviewStep, hkind] at hrun
      obtain ⟨hnil, -⟩ := runs_ret.1 hrun
      rw [hnil] at hev
      exact absurd hev List.not_mem_nil
  · refine rounds_verdict approved_next (fun s hs hkind => ?_) h hlaw (.inl hs) hr hfaulted
    rcases hs with hstate | ⟨-, hverdict⟩
    · rw [hstate] at hkind
      cases hkind
    · exact hverdict

/-- **The short circuit is sound**: it is taken exactly on a change that is safe to skip, a risky
path makes the tier sensitive and blocks it, and what follows it dispatches nothing and approves. -/
theorem shortCircuit_sound (hE : E.ReadsTriage) {env : Dict} (hscan : ScanOutput env) :
    (∀ t, handleRiskTierTriage rt env = .ok t →
      (E.next .riskTierTriage (Assoc.update env t.toDict) = some .shortCircuitExit ↔
        SafeToSkip rt env)) ∧
    (∀ path ∈ changedFiles env, RiskyPath rt path →
      (∃ rationale, triageTier rt env = .ok (.sensitive, rationale)) ∧
        ∀ t, handleRiskTierTriage rt env = .ok t → t.tier = .sensitive ∧
          E.next .riskTierTriage (Assoc.update env t.toDict) = some .activateLeaves) ∧
    ∀ (rounds : ℕ) (s : RunState) (steps : List (RunState × RunTrace)) (outcome : Outcome),
      Rounds rt maxRetries rounds s steps outcome → s.stateId = .shortCircuitExit →
      (∀ st ∈ steps, ∀ ev ∈ st.2, ExitLawful E ev) →
        (∀ st ∈ steps, ∀ ev ∈ st.2, NotDispatch ev.1) ∧
          ∀ r, outcome = .ok r → r.faulted = false → r.verdict = .str Verdict.go.text :=
  ⟨fun _ ht => shortCircuit_iff hE hscan ht, fun _ hpath => riskyPath_blocks hE hscan hpath,
    fun _ _ _ _ h hs hlaw => rounds_shortCircuit h hlaw hs⟩

/-- An engine that evaluates the condition of the short circuit. -/
def triageEngine : Engine where
  holds cond env :=
    if cond = shortCircuitCond then
      (env.get "tier").eqv (.str "trivial") && (ensureList (env.get "risk_signals")).isEmpty &&
        !(env.get "scope_overrides_present").truthy
    else false

theorem triageEngine_reads : triageEngine.ReadsTriage := by
  intro env tier signals overrides htier hsignals hoverrides
  simp [triageEngine, htier, hsignals, hoverrides, Value.truthy, and_assoc]

/-- A diff of two lines in one file. -/
def smallScan : Dict :=
  [("project_profile", .dict [("languages", ofStrs ["python"]), ("frameworks", ofStrs []),
      ("monorepo", .bool false)]),
    ("changed_paths", ofStrs ["src/util.py"]),
    ("diff_stats", .dict [("lines_changed", .int 2), ("files_changed", .int 1)])]

/-- Its triage. -/
def smallTriage : Triage := ⟨.trivial, 3, "Single-file change ≤ 10 lines, no risk path.", [], false⟩

/-- The theorem applied to it. -/
theorem shortCircuit_sound_smallScan : handleRiskTierTriage .ascii smallScan = .ok smallTriage ∧
    (triageEngine.next .riskTierTriage (Assoc.update smallScan smallTriage.toDict) =
      some .shortCircuitExit ↔ SafeToSkip .ascii smallScan) := by
  have hscan : ScanOutput smallScan := by
    refine ⟨⟨_, rfl, fun iac h => ?_⟩, ⟨_, rfl⟩, ⟨_, rfl, fun field hfield => ?_⟩⟩
    · cases h
    · rcases List.mem_cons.1 hfield with rfl | hfield
      · exact ⟨_, rfl, 2, .inl rfl⟩
      · rw [List.mem_singleton.1 hfield]
        exact ⟨_, rfl, 1, .inl rfl⟩
  have htriage : handleRiskTierTriage .ascii smallScan = .ok smallTriage := by decide
  exact ⟨htriage, (@shortCircuit_sound .ascii 0 _ triageEngine_reads _ hscan).1 _ htriage⟩

end CodeReview
