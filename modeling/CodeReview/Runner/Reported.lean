import CodeReview.Dispatch.Dispatchers
import CodeReview.Handlers.Components
import CodeReview.Handlers.Origin
import CodeReview.Handlers.Triage
import CodeReview.Runner.Published

/-!
# Where the findings of a review come from

The findings of a review travel through the environment: the pool's results are recorded iteration
by iteration, merged, collected and ranked.

* `EnvSourced` : what stands under those keys goes back to the outputs of the pool;
* `step_sourced` : a round keeps that, whatever the engine does;
* `review_findings_reported` : **every finding that a review returns has the fields of one that a
  specialist reported in that review.**
-/

namespace CodeReview

open Py Proc

/-! ### What the states may return -/

/-- The keys that findings travel under. -/
def findingKeys : List String :=
  ["specialist_batches", "loop_iters", "specialist_outputs_by_iter", "specialist_outputs",
    "findings"]

theorem forall_findingKeys {p : String → Prop} :
    (∀ k ∈ findingKeys, p k) ↔ p "specialist_batches" ∧ p "loop_iters" ∧
      p "specialist_outputs_by_iter" ∧ p "specialist_outputs" ∧ p "findings" := by
  simp [findingKeys]

/-- The outputs have none of those keys. -/
def Apart (outputs : Dict) : Prop := ∀ k ∈ findingKeys, Assoc.get? outputs k = none

/-- The outputs of a handler are what it returns on the environment; the other states have none. -/
def HandlerReports (rt : Runtime) (embed : Embed) (env outputs : Dict) : StateId → Prop
  | .riskTierTriage => ∃ t, handleRiskTierTriage rt env = .ok t ∧ outputs = t.toDict
  | .activateLeaves => ∃ activated, outputs = handleActivateLeaves activated
  | .planSpecialistBatches => outputs = handlePlanSpecialistBatches env
  | .mergeSpecialistOutputs => ∃ merged, handleMergeSpecialistOutputs rt env = .ok merged ∧
      outputs = [("specialist_outputs", .list (merged.specialistOutputs.map .dict))]
  | .collectFindings => ∃ c, collectFindings rt embed env = .ok c ∧ outputs = c.toDict
  | .verifyCoverage => ∃ wiki c, verifyCoverage wiki env = .ok c ∧ outputs = c.toDict
  | .synthesizeReleaseReadiness =>
    ∃ r, synthesizeReleaseReadiness env = .ok r ∧ outputs = r.toDict
  | .shortCircuitExit => outputs = handleShortCircuitExit
  | .stageAEmpty => outputs = handleStageAEmpty env
  | .verifierStuck => outputs = (handleVerifierStuck env).toDict
  | .writeRunDirectory => ∃ path, outputs = [("run_dir_path", .str path)]
  | .emitStdout => outputs = []
  | _ => Apart outputs

/-- The outputs of a worker: the ranker's are those of `dispatch_worker`, whatever the backend
answers, and the others stay apart. -/
def WorkerReports (inputs outputs : Dict) : StateId → Prop
  | .rankFindings => ∃ s run wallMs,
    dispatchWorker s run wallMs "rank_findings" inputs = .ok outputs
  | _ => Apart outputs

/-- The handlers and the workers return that. -/
def Reporting (rt : Runtime) (embed : Embed) : Event RunEffect RunReply → Prop
  | ⟨.inline state env, .ok outputs⟩ => HandlerReports rt embed env outputs state
  | ⟨.worker state inputs, .ok outputs⟩ => WorkerReports inputs outputs state
  | _ => True

/-- The specialist outputs that the pools of a run returned. -/
def poolOutputs (trace : RunTrace) : List Dict :=
  trace.flatMap fun
    | ⟨.dispatch _ _, reply⟩ =>
      match reply.results with
      | .ok m => m.values
      | .error _ => []
    | _ => []

/-! ### Findings with a source -/

/-- The fields that the collector and the ranker write. -/
def writtenFields : List String := "defect_confidence" :: ownFields

/-- The finding has the fields of one that an output reports, but for the written ones. -/
def Sourced (outs : List Dict) (g : Dict) : Prop :=
  ∃ out ∈ outs, ∃ f, Reports out f ∧ ∀ k ∉ writtenFields, Assoc.get? g k = Assoc.get? f k

/-- What an output reports, one of the outputs reports. -/
def Covered (outs : List Dict) (out : Dict) : Prop := ∀ f, Reports out f → ∃ o ∈ outs, Reports o f

/-- What travels through the environment goes back to the outputs. -/
structure EnvSourced (outs : List Dict) (env : Dict) : Prop where
  plan : (readPlan (env.get "specialist_batches")).isSome
  iterations : ∃ payloads : List Dict,
    Assoc.get? env "loop_iters" = some (.list (payloads.map .dict)) ∧
      ∀ payload ∈ payloads, ∀ entry recorded : Dict,
        .dict entry ∈ ensureList (payload.get "iter_outputs") →
          entry.get "specialist_output" = .dict recorded → Covered outs recorded
  noOverride : Assoc.get? env "specialist_outputs_by_iter" = none
  outputs : ∀ out : Dict, .dict out ∈ ensureList (env.get "specialist_outputs") → Covered outs out
  findings : ∃ gs : List Dict, env.getD "findings" (.list []) = .list (gs.map .dict) ∧
    ∀ g ∈ gs, Sourced outs g

variable {rt : Runtime} {embed : Embed} {maxRetries : ℕ} {outs outs' : List Dict}
    {env outputs : Dict}

theorem Sourced.mono (hsub : outs ⊆ outs') {g : Dict} (h : Sourced outs g) : Sourced outs' g := by
  obtain ⟨out, hout, hrest⟩ := h
  exact ⟨out, hsub hout, hrest⟩

theorem Covered.mono (hsub : outs ⊆ outs') {out : Dict} (h : Covered outs out) :
    Covered outs' out := by
  intro f hf
  obtain ⟨o, ho, hreports⟩ := h f hf
  exact ⟨o, hsub ho, hreports⟩

theorem EnvSourced.mono (hsub : outs ⊆ outs') (h : EnvSourced outs env) : EnvSourced outs' env where
  plan := h.plan
  iterations := by
    obtain ⟨payloads, hget, hpayloads⟩ := h.iterations
    exact ⟨payloads, hget, fun payload hpayload entry recorded hentry hrecorded =>
      (hpayloads payload hpayload entry recorded hentry hrecorded).mono hsub⟩
  noOverride := h.noOverride
  outputs out hout := (h.outputs out hout).mono hsub
  findings := by
    obtain ⟨gs, hget, hgs⟩ := h.findings
    exact ⟨gs, hget, fun g hg => (hgs g hg).mono hsub⟩

/-- A field of the environment that the outputs lack. -/
theorem getD_merge_of_none {k : String} {v : Value} (h : Assoc.get? outputs k = none) :
    Dict.getD (Assoc.update env outputs) k v = env.getD k v := by
  rw [Dict.getD, get?_merge_of_none h, Dict.getD]

/-- Outputs that stay apart change nothing of it. -/
theorem EnvSourced.apart (h : EnvSourced outs env) (hapart : Apart outputs) :
    EnvSourced outs (Assoc.update env outputs) where
  plan := by
    rw [get_merge_of_none (hapart _ (by decide))]
    exact h.plan
  iterations := by
    rw [get?_merge_of_none (hapart _ (by decide))]
    exact h.iterations
  noOverride := by
    rw [get?_merge_of_none (hapart _ (by decide))]
    exact h.noOverride
  outputs := by
    rw [get_merge_of_none (hapart _ (by decide))]
    exact h.outputs
  findings := by
    rw [getD_merge_of_none (hapart _ (by decide))]
    exact h.findings

/-- Outputs that have findings, each with a source, and stay apart otherwise. -/
theorem EnvSourced.rewrite (h : EnvSourced outs env) (hnodup : (outputs.map Prod.fst).Nodup)
    (hapart : ∀ k ∈ findingKeys, k ≠ "findings" → Assoc.get? outputs k = none) {gs : List Dict}
    (hfindings : Assoc.get? outputs "findings" = some (.list (gs.map .dict)))
    (hgs : ∀ g ∈ gs, Sourced outs g) : EnvSourced outs (Assoc.update env outputs) where
  plan := by
    rw [get_merge_of_none (hapart _ (by decide) (by decide))]
    exact h.plan
  iterations := by
    rw [get?_merge_of_none (hapart _ (by decide) (by decide))]
    exact h.iterations
  noOverride := by
    rw [get?_merge_of_none (hapart _ (by decide) (by decide))]
    exact h.noOverride
  outputs := by
    rw [get_merge_of_none (hapart _ (by decide) (by decide))]
    exact h.outputs
  findings := by
    refine ⟨gs, ?_, hgs⟩
    rw [Dict.getD, Assoc.get?_update_of_nodup _ hnodup, hfindings]
    rfl

/-! ### The handlers and the ranker -/

/-- The plan that the planner writes can be read. -/
theorem readPlan_planned (batches : List (List PlanUnit)) :
    (readPlan (batchesToValue batches)).isSome := by
  by_cases h : batches = []
  · subst h
    rfl
  · rw [readPlan_batchesToValue h]
    rfl

theorem EnvSourced.planned (h : EnvSourced outs env) :
    EnvSourced outs (Assoc.update env (handlePlanSpecialistBatches env)) := by
  have hnone : ∀ k ∈ findingKeys, k ≠ "specialist_batches" →
      Assoc.get? (handlePlanSpecialistBatches env) k = none :=
    forall_findingKeys.2 ⟨fun hne => absurd rfl hne, fun _ => rfl, fun _ => rfl, fun _ => rfl,
      fun _ => rfl⟩
  have hnodup : ((handlePlanSpecialistBatches env).map Prod.fst).Nodup := by
    simp [handlePlanSpecialistBatches]
  constructor
  · rw [get_merge_of_some hnodup rfl]
    exact readPlan_planned _
  · rw [get?_merge_of_none (hnone _ (by decide) (by decide))]
    exact h.iterations
  · rw [get?_merge_of_none (hnone _ (by decide) (by decide))]
    exact h.noOverride
  · rw [get_merge_of_none (hnone _ (by decide) (by decide))]
    exact h.outputs
  · rw [getD_merge_of_none (hnone _ (by decide) (by decide))]
    exact h.findings

/-- The iterations that the merge reads are the recorded ones. -/
theorem resolveIterationPayloads_eq {payloads : List Dict}
    (hnone : Assoc.get? env "specialist_outputs_by_iter" = none)
    (hiters : Assoc.get? env "loop_iters" = some (.list (payloads.map .dict))) :
    resolveIterationPayloads env = payloads := by
  have hget : env.get "specialist_outputs_by_iter" = .none := by
    rw [Dict.get, hnone]
    rfl
  rw [resolveIterationPayloads, hget, Dict.get_of_get? hiters]
  exact dicts_map payloads

theorem EnvSourced.merged (h : EnvSourced outs env) {merged : Merged}
    (hmerged : handleMergeSpecialistOutputs rt env = .ok merged) :
    EnvSourced outs (Assoc.update env
      [("specialist_outputs", .list (merged.specialistOutputs.map .dict))]) := by
  have hnone {k : String} (hne : k ≠ "specialist_outputs") :
      Assoc.get? [("specialist_outputs", Value.list (merged.specialistOutputs.map .dict))] k =
        none := by
    rw [Assoc.get?_cons, if_neg hne.symm, Assoc.get?_nil]
  obtain ⟨payloads, hget, hpayloads⟩ := h.iterations
  constructor
  · rw [get_merge_of_none (hnone (by decide))]
    exact h.plan
  · rw [get?_merge_of_none (hnone (by decide))]
    exact ⟨payloads, hget, hpayloads⟩
  · rw [get?_merge_of_none (hnone (by decide))]
    exact h.noOverride
  · intro out hout f hf
    have hnodup : ([("specialist_outputs", Value.list (merged.specialistOutputs.map .dict))].map
        Prod.fst).Nodup := List.nodup_singleton _
    rw [get_merge_of_some hnodup rfl, ensureList_list, ← mem_dicts, dicts_map] at hout
    obtain ⟨payload, hpayload, entry, recorded, hentry, hrecorded, hreports⟩ :=
      merge_reports hmerged hout hf
    rw [resolveIterationPayloads_eq h.noOverride hget] at hpayload
    exact hpayloads payload hpayload entry recorded hentry hrecorded f hreports
  · rw [getD_merge_of_none (hnone (by decide))]
    exact h.findings

theorem EnvSourced.collected (h : EnvSourced outs env) {c : Collected}
    (hcollected : collectFindings rt embed env = .ok c) :
    EnvSourced outs (Assoc.update env c.toDict) := by
  have hnodup : (c.toDict.map Prod.fst).Nodup := by simp [Collected.toDict]
  refine h.rewrite hnodup (forall_findingKeys.2 ⟨fun _ => rfl, fun _ => rfl, fun _ => rfl,
    fun _ => rfl, fun hne => absurd rfl hne⟩) rfl fun g hg => ?_
  obtain ⟨out, f, hout, hf, hsame⟩ := collected_origin hcollected g hg
  obtain ⟨o, ho, hreports⟩ := h.outputs out hout f hf
  exact ⟨o, ho, f, hreports, fun k hk => hsame k fun hown => hk (List.mem_cons_of_mem _ hown)⟩

/-- The two early exits have no findings. -/
theorem EnvSourced.noFindings (h : EnvSourced outs env) (hnodup : (outputs.map Prod.fst).Nodup)
    (hapart : ∀ k ∈ findingKeys, k ≠ "findings" → Assoc.get? outputs k = none)
    (hfindings : Assoc.get? outputs "findings" = some (.list (List.map .dict []))) :
    EnvSourced outs (Assoc.update env outputs) :=
  h.rewrite hnodup hapart hfindings fun _ hg => absurd hg List.not_mem_nil

/-- **The handlers that pass no findings on stay apart.** -/
theorem apart_of_reports {state : StateId} (houtputs : HandlerReports rt embed env outputs state)
    (hstate : state ∉ [StateId.planSpecialistBatches, .mergeSpecialistOutputs, .collectFindings,
      .shortCircuitExit, .stageAEmpty]) : Apart outputs := by
  refine forall_findingKeys.2 ?_
  cases state with
  | planSpecialistBatches | mergeSpecialistOutputs | collectFindings | shortCircuitExit
  | stageAEmpty => exact absurd (by decide) hstate
  | riskTierTriage =>
    obtain ⟨t, -, rfl⟩ := houtputs
    exact ⟨rfl, rfl, rfl, rfl, rfl⟩
  | activateLeaves =>
    obtain ⟨activated, rfl⟩ := houtputs
    exact ⟨rfl, rfl, rfl, rfl, rfl⟩
  | verifyCoverage =>
    obtain ⟨wiki, c, -, rfl⟩ := houtputs
    exact ⟨rfl, rfl, rfl, rfl, rfl⟩
  | synthesizeReleaseReadiness =>
    obtain ⟨r, -, rfl⟩ := houtputs
    exact ⟨rfl, rfl, rfl, rfl, rfl⟩
  | verifierStuck =>
    obtain rfl : outputs = (handleVerifierStuck env).toDict := houtputs
    exact ⟨rfl, rfl, rfl, rfl, rfl⟩
  | writeRunDirectory =>
    obtain ⟨path, rfl⟩ := houtputs
    exact ⟨rfl, rfl, rfl, rfl, rfl⟩
  | emitStdout =>
    obtain rfl : outputs = [] := houtputs
    exact ⟨rfl, rfl, rfl, rfl, rfl⟩
  | _ => exact forall_findingKeys.1 houtputs

theorem EnvSourced.handled (h : EnvSourced outs env) {state : StateId}
    (houtputs : HandlerReports rt embed env outputs state) :
    EnvSourced outs (Assoc.update env outputs) := by
  cases state with
  | planSpecialistBatches =>
    obtain rfl : outputs = handlePlanSpecialistBatches env := houtputs
    exact h.planned
  | mergeSpecialistOutputs =>
    obtain ⟨merged, hmerged, rfl⟩ := houtputs
    exact h.merged hmerged
  | collectFindings =>
    obtain ⟨c, hcollected, rfl⟩ := houtputs
    exact h.collected hcollected
  | shortCircuitExit =>
    obtain rfl : outputs = handleShortCircuitExit := houtputs
    exact h.noFindings (by decide) (by decide) rfl
  | stageAEmpty =>
    obtain rfl : outputs = handleStageAEmpty env := houtputs
    exact h.noFindings (by simp [handleStageAEmpty]) (forall_findingKeys.2
      ⟨fun _ => rfl, fun _ => rfl, fun _ => rfl, fun _ => rfl, fun hne => absurd rfl hne⟩) rfl
  | _ => exact h.apart (apart_of_reports houtputs (by decide))

/-- The findings that the ranker is given are those of the environment. -/
theorem rankFindings_inputs {gs : List Dict}
    (h : env.getD "findings" (.list []) = .list (gs.map .dict)) :
    rankFindings (inputsOf .rankFindings env) = .ok gs := by
  have hor : ((inputsOf .rankFindings env).get "findings").or (.list []) =
      .list (gs.map .dict) := by
    have hget : (inputsOf .rankFindings env).get "findings" = env.get "findings" := rfl
    rw [hget, Dict.get]
    rw [Dict.getD] at h
    cases hfindings : Assoc.get? env "findings" with
    | none =>
      rw [hfindings] at h
      exact h
    | some v =>
      rw [hfindings] at h
      obtain rfl : v = .list (gs.map .dict) := h
      exact Value.list_or_nil _
  rw [rankFindings, hor]
  refine Result.mapM_eq_ok.2 (List.forall₂_map_left_iff.2 (List.forall₂_same.2 fun g _ => rfl))

/-- The ranker passes the findings on: what it writes beside them is a count and the telemetry. -/
theorem EnvSourced.ranked (h : EnvSourced outs env)
    (houtputs : WorkerReports (inputsOf .rankFindings env) outputs .rankFindings) :
    EnvSourced outs (Assoc.update env outputs) := by
  obtain ⟨gs, hget, hgs⟩ := h.findings
  obtain ⟨s, run, wallMs, hdispatch⟩ := houtputs
  rw [dispatchWorker, if_pos rfl] at hdispatch
  obtain ⟨findings, hfindings, hdispatch⟩ := Result.bind_eq_ok.1 hdispatch
  rw [rankFindings_inputs hget] at hfindings
  obtain rfl := Except.ok.inj hfindings
  obtain ⟨prompt, -, hdispatch⟩ := Result.bind_eq_ok.1 hdispatch
  obtain ⟨returned, -, hdispatch⟩ := Result.bind_eq_ok.1 hdispatch
  obtain ⟨parsed, -, hdispatch⟩ := Result.bind_eq_ok.1 hdispatch
  obtain ⟨args, -, hdispatch⟩ := Result.bind_eq_ok.1 hdispatch
  obtain ⟨ranked, hranked, hdispatch⟩ := Result.bind_eq_ok.1 hdispatch
  have hstamped : stampCall wallMs ⟨prompt, "cheap", ranked.toDict⟩ (callBackend returned).1
      returned.usage = .ok outputs := hdispatch
  obtain ⟨hsame, hnodup⟩ := stampCall_spec hstamped
  have hapart : ∀ k ∈ findingKeys, k ∉ telemetryKeys := forall_findingKeys.2 (by decide)
  have hother {k : String} (hk : k ∈ findingKeys) :
      Assoc.get? outputs k = Assoc.get? ranked.toDict k := (hsame k (hapart k hk)).symm
  have hnone : ∀ k ∈ findingKeys, k ≠ "findings" → Assoc.get? ranked.toDict k = none :=
    forall_findingKeys.2 ⟨fun _ => rfl, fun _ => rfl, fun _ => rfl, fun _ => rfl,
      fun hne => absurd rfl hne⟩
  refine h.rewrite (hnodup (by simp [Ranked.toDict]))
    (fun k hk hne => (hother hk).trans (hnone k hk hne)) ((hother (by decide)).trans rfl)
    fun g hg => ?_
  obtain ⟨f, hf, hfields⟩ := ranked_findings (raised_eq_ok.1 hranked) g hg
  obtain ⟨out, hout, source, hreports, hsource⟩ := hgs f hf
  refine ⟨out, hout, source, hreports, fun k hk => ?_⟩
  rw [hfields k (fun heq => hk (heq ▸ by decide)) (fun heq => hk (heq ▸ by decide)), hsource k hk]

/-- What a worker returns keeps it. -/
theorem EnvSourced.worked (h : EnvSourced outs env) {state : StateId}
    (houtputs : WorkerReports (inputsOf state env) outputs state) :
    EnvSourced outs (Assoc.update env outputs) := by
  cases state with
  | rankFindings => exact h.ranked houtputs
  | _ => exact h.apart houtputs

/-- The floor repairs what stays apart. -/
theorem repaired_apart {state : StateId} {inputs final : Dict}
    (h : coverageFloor rt state inputs outputs env = .ok (some final))
    (houtputs : WorkerReports inputs outputs state) : Apart final := by
  by_cases hstate : state = .llmTrim
  · subst hstate
    obtain ⟨hnone, -⟩ | ⟨_, _, picked, -, -, -, hfinal⟩ := coverageFloor_llmTrim h
    · cases hnone
    · obtain rfl := Option.some.inj hfinal
      have hdeclared : ∀ k ∈ findingKeys, k ∉ StateId.llmTrim.outputs :=
        forall_findingKeys.2 (by decide)
      exact fun k hk => (get?_repairedWith (hdeclared k hk)).trans (houtputs k hk)
  · rw [coverageFloor, if_pos hstate] at h
    cases h

/-! ### The loop -/

/-- What an iteration records goes back to the results of the units. -/
theorem loopOutputs_covered {plan : List (List PlanUnit)} {m : ResultMap} {k : ℕ}
    (hm : m.values ⊆ outs) {entry recorded : Dict}
    (hentry : .dict entry ∈ ensureList ((loopOutputs env plan m k).get "iter_outputs"))
    (hrecorded : entry.get "specialist_output" = .dict recorded) : Covered outs recorded := by
  have hlist : (loopOutputs env plan m k).get "iter_outputs" =
      .list ((plan.getD (k - 1) []).map fun u => .dict (iterOutput m u)) := rfl
  rw [hlist, ensureList_list] at hentry
  obtain ⟨u, -, heq⟩ := List.mem_map.1 hentry
  obtain rfl := Value.dict.inj heq
  have hvalue : (iterOutput m u).get "specialist_output" =
      .dict ((m.get? u.key).getD (failedOutput u "no result")) := rfl
  rw [hvalue] at hrecorded
  obtain rfl := Value.dict.inj hrecorded
  intro f hf
  cases hget : m.get? u.key with
  | none =>
    -- a unit without a result counts as failed, and reports nothing
    rw [hget] at hf
    have hstatus : ((failedOutput u "no result").get "status").eqv (.str "completed") = false := rfl
    exact absurd (hstatus ▸ hf.1) Bool.false_ne_true
  | some out =>
    rw [hget] at hf
    exact ⟨out, hm (List.mem_map_of_mem ((OrdMap.mem_entries_iff _).2 hget)), hf⟩

theorem EnvSourced.recorded {env' payload : Dict} (h : EnvSourced outs env)
    (happend : appendIter env payload = .ok env')
    (hpayload : ∀ entry recorded : Dict, .dict entry ∈ ensureList (payload.get "iter_outputs") →
      entry.get "specialist_output" = .dict recorded → Covered outs recorded) :
    EnvSourced outs env' := by
  obtain ⟨payloads, hget, hpayloads⟩ := h.iterations
  rw [appendIter, hget] at happend
  obtain rfl := Except.ok.inj happend
  have hother {k : String} (hk : k ≠ "loop_iters") (v : Value) :
      Assoc.get? (Assoc.set env "loop_iters" v) k = Assoc.get? env k := by
    rw [Assoc.get?_set, if_neg hk.symm]
  constructor
  · rw [Dict.get, hother (by decide)]
    exact h.plan
  · refine ⟨payloads ++ [payload], ?_, List.forall_mem_append.2 ⟨hpayloads, ?_⟩⟩
    · rw [Assoc.get?_set, if_pos rfl, List.map_append]
      rfl
    · intro payload' hmem
      rw [List.mem_singleton.1 hmem]
      exact hpayload
  · rw [hother (by decide)]
    exact h.noOverride
  · rw [Dict.get, hother (by decide)]
    exact h.outputs
  · rw [Dict.getD, hother (by decide)]
    exact h.findings

/-! ### The rounds -/

/-- What travels through the environment, and the results at hand, go back to the outputs. -/
structure StateSourced (outs : List Dict) (s : RunState) : Prop where
  env : EnvSourced outs s.env
  results : s.unitResults.values ⊆ outs

section

variable {s s' : RunState} {trace : RunTrace}

theorem StateSourced.mono (hsub : outs ⊆ outs') (h : StateSourced outs s) : StateSourced outs' s :=
  ⟨h.env.mono hsub, List.Subset.trans h.results hsub⟩

theorem poolOutputs_append (before after : RunTrace) :
    poolOutputs (before ++ after) = poolOutputs before ++ poolOutputs after :=
  List.flatMap_append

theorem advance_sourced (h : Runs (advanceStep s outputs) trace (.next s'))
    (henv : EnvSourced outs (Assoc.update s.env outputs)) (hresults : s.unitResults.values ⊆ outs) :
    StateSourced outs s' := by
  refine ⟨advance_env h ▸ henv, ?_⟩
  rw [advanceStep, perform_bind, runs_vis] at h
  obtain ⟨reply, rest, -, h⟩ := h
  cases reply with
  | fault reason errors =>
    obtain ⟨-, h⟩ := runs_ret.1 h
    cases h
  | loopContinue n | terminal | next target =>
    obtain ⟨-, h⟩ := runs_ret.1 h
    cases h
    exact hresults

/-- The timings are none of those keys. -/
theorem EnvSourced.timed (h : EnvSourced outs s.env) (measured : ClockReading) :
    EnvSourced outs (s.timed measured).env :=
  have hapart : Apart [("timings", .dict (s.timings measured))] :=
    forall_findingKeys.2 ⟨rfl, rfl, rfl, rfl, rfl⟩
  h.apart hapart

theorem inline_sourced (h : Runs (inlineStep s) trace (.next s'))
    (hlaw : ∀ ev ∈ trace, Reporting rt embed ev) (hs : StateSourced outs s) :
    StateSourced outs s' := by
  obtain ⟨measured, ⟨reason, detail, -, hfault⟩ | ⟨outputs, rest, rfl, hadvance⟩⟩ :=
    runs_inlineStep h
  · cases hfault
  · have houtputs : HandlerReports rt embed (s.timed measured).env outputs s.stateId :=
      hlaw _ (List.mem_cons_of_mem _ List.mem_cons_self)
    exact advance_sourced hadvance ((hs.env.timed measured).handled houtputs) hs.results

theorem accept_sourced (h : Runs (acceptOutputs rt s (inputsOf s.stateId s.env) outputs) trace
      (.next s'))
    (houtputs : WorkerReports (inputsOf s.stateId s.env) outputs s.stateId)
    (hs : StateSourced outs s) : StateSourced outs s' := by
  unfold acceptOutputs at h
  split at h
  · obtain ⟨-, h⟩ := runs_ret.1 h
    cases h
  · split at h
    · obtain ⟨-, h⟩ := runs_ret.1 h
      cases h
    · exact advance_sourced h (hs.env.worked houtputs) hs.results
    · rename_i hfloor
      exact advance_sourced h (hs.env.apart (repaired_apart hfloor houtputs)) hs.results

theorem worker_sourced (h : Runs (workerStep rt maxRetries s) trace (.next s'))
    (hlaw : ∀ ev ∈ trace, Reporting rt embed ev) (hs : StateSourced outs s) :
    StateSourced outs s' := by
  rw [workerStep, runs_bind] at h
  obtain ⟨before, ⟨stats, answer⟩, after, rfl, hcall, h⟩ := h
  -- only `tool_discovery` has a fallback, which stays apart
  have hfailed {cls msg : String}
      (hrun : Runs (workerFailed rt { s with stats } (inputsOf s.stateId s.env) cls msg) after
        (.next s')) : StateSourced outs s' := by
    unfold workerFailed at hrun
    split at hrun
    · obtain ⟨-, hrun⟩ := runs_ret.1 hrun
      cases hrun
    · rename_i fallback hfallback
      have hstate := eq_toolDiscovery_of_degradable hfallback
      refine accept_sourced hrun ?_ ⟨hs.env, hs.results⟩
      rw [hstate] at hfallback ⊢
      obtain rfl := Option.some.inj hfallback
      exact forall_findingKeys.2 ⟨rfl, rfl, rfl, rfl, rfl⟩
  cases answer with
  | ok outputs =>
    have hanswer := hlaw _ (List.mem_append_left after (answer_mem hcall))
    exact accept_sourced h hanswer ⟨hs.env, hs.results⟩
  | error failure =>
    cases failure with
    | other exc =>
      obtain ⟨-, h⟩ := runs_ret.1 h
      cases h
    | rateLimit msg | contextOverflow msg => exact hfailed h

/-- The results that an iteration records were dispatched in it or before. -/
theorem unitReply_values {plan : List (List PlanUnit)} {reply : PoolReply} {m : ResultMap}
    (h : Runs (unitReply s plan) trace reply) (hm : reply.results = .ok m)
    (hresults : s.unitResults.values ⊆ outs) : m.values ⊆ outs ++ poolOutputs trace := by
  unfold unitReply at h
  split_ifs at h
  · obtain ⟨reply', rest, rfl, hrest⟩ := runs_vis.1 h
    obtain ⟨rfl, rfl⟩ := runs_ret.1 hrest
    have hpool : poolOutputs [⟨.dispatch s.stats plan.flatten, reply'⟩] = m.values := by
      simp [poolOutputs, hm]
    rw [hpool]
    exact List.subset_append_right _ _
  · obtain ⟨-, rfl⟩ := runs_ret.1 h
    obtain rfl := Except.ok.inj hm
    exact List.Subset.trans hresults (List.subset_append_left _ _)

theorem loop_sourced (h : Runs (loopStep s) trace (.next s')) (hs : StateSourced outs s) :
    StateSourced (outs ++ poolOutputs trace) s' := by
  unfold loopStep at h
  split at h
  · rename_i hplan
    exact absurd hs.env.plan (by simp [hplan])
  · rename_i plan hplan
    rw [runs_bind] at h
    obtain ⟨before, reply, after, rfl, hreply, h⟩ := h
    split at h
    · obtain ⟨-, h⟩ := runs_ret.1 h
      cases h
    · rename_i m hm
      have hvalues : m.values ⊆ outs ++ poolOutputs (before ++ after) := by
        rw [poolOutputs_append, ← List.append_assoc]
        exact List.Subset.trans (unitReply_values hreply hm hs.results)
          (List.subset_append_left _ _)
      have henv := hs.env.mono (List.subset_append_left outs (poolOutputs (before ++ after)))
      unfold recordIteration at h
      simp only at h
      split at h
      · obtain ⟨-, h⟩ := runs_ret.1 h
        cases h
      · rename_i env' happend
        have hrecorded := henv.recorded happend fun entry recorded =>
          loopOutputs_covered hvalues
        exact advance_sourced h
          (hrecorded.apart (forall_findingKeys.2 ⟨rfl, rfl, rfl, rfl, rfl⟩)) hvalues

/-- **A round adds to the sources what the pool returned in it, and keeps the rest.** -/
theorem step_sourced (h : Runs (reviewStep rt maxRetries s) trace (.next s'))
    (hlaw : ∀ ev ∈ trace, Reporting rt embed ev) (hs : StateSourced outs s) :
    StateSourced (outs ++ poolOutputs trace) s' := by
  unfold reviewStep at h
  split at h
  · obtain ⟨-, h⟩ := runs_ret.1 h
    cases h
  · exact (inline_sourced h hlaw hs).mono (List.subset_append_left _ _)
  · exact loop_sourced h hs
  · exact (worker_sourced h hlaw hs).mono (List.subset_append_left _ _)

/-- A review that ends without a fault returns findings with a source. -/
theorem rounds_sourced {rounds : ℕ} {steps : List (RunState × RunTrace)} {outcome : Outcome}
    {r : RunResult} (h : Rounds rt maxRetries rounds s steps outcome)
    (hlaw : ∀ st ∈ steps, ∀ ev ∈ st.2, Reporting rt embed ev) (hr : outcome = .ok r)
    (hfaulted : r.faulted = false) (hs : StateSourced outs s) :
    ∃ gs : List Dict, r.findings = .list (gs.map .dict) ∧
      ∀ g ∈ gs, Sourced (outs ++ poolOutputs (steps.flatMap Prod.snd)) g := by
  induction h generalizing outs with
  | exhausted s =>
    obtain rfl := Except.ok.inj hr
    cases hfaulted
  | @done rounds s trace outcome hstep =>
    by_cases hkind : s.stateId.kind = .terminal
    · simp only [reviewStep, hkind] at hstep
      obtain ⟨rfl, hdone⟩ := runs_ret.1 hstep
      obtain rfl := StepResult.done.inj hdone
      obtain rfl := Except.ok.inj hr
      obtain ⟨gs, hget, hgs⟩ := hs.env.findings
      exact ⟨gs, hget, fun g hg => (hgs g hg).mono (List.subset_append_left _ _)⟩
    · rw [step_ends hkind hstep r hr] at hfaulted
      cases hfaulted
  | @next rounds s s' trace steps outcome hstep hrest ih =>
    obtain ⟨gs, hget, hgs⟩ := ih (fun st hst => hlaw st (List.mem_cons_of_mem _ hst)) hr
      (step_sourced hstep (hlaw _ List.mem_cons_self) hs)
    refine ⟨gs, hget, fun g hg => ?_⟩
    rw [List.flatMap_cons, poolOutputs_append, ← List.append_assoc]
    exact hgs g hg

end

/-- A review starts without findings. -/
theorem start_sourced (args : Dict) : StateSourced [] (.start args) where
  env :=
    { plan := rfl
      iterations := ⟨[], rfl, fun _ hpayload => absurd hpayload List.not_mem_nil⟩
      noOverride := rfl
      outputs := fun _ hout => absurd hout List.not_mem_nil
      findings := ⟨[], rfl, fun _ hg => absurd hg List.not_mem_nil⟩ }
  results := List.nil_subset _

/-- **Every finding that a review returns was reported in it: it has the fields of a finding that a
completed output of the pool has, but for those that the collector and the ranker write.** -/
theorem review_findings_reported {retries : ℤ} {args : Dict} {trace : RunTrace} {r : RunResult}
    (h : Runs (runReview rt retries args) trace (.ok r))
    (hlaw : ∀ ev ∈ trace, Reporting rt embed ev)
    (hfaulted : r.faulted = false) :
    ∃ gs : List Dict, r.findings = .list (gs.map .dict) ∧
      ∀ g ∈ gs, Sourced (poolOutputs trace) g := by
  obtain ⟨steps, hsteps, rfl⟩ := runs_review.1 h
  exact rounds_sourced hsteps (fun st hst ev hev => hlaw ev (List.mem_flatMap.2 ⟨st, hst, hev⟩)) rfl
    hfaulted (start_sourced args)

/-! ### A review with a finding -/

/-- A specialist's output with one finding. -/
def reportedOutput : Dict :=
  [("id", "quality"), ("status", "completed"),
    ("findings", .list [.dict [("title", "unused variable"), ("severity", "important"),
      ("file", "a.py"), ("line", .int 3)]])]

/-- A backend that answers with an empty object and a usage block. -/
def quietBackend : AgentRun :=
  answering "ok" (some (.dict [("in_tokens", .int 9), ("out_tokens", .int 3)]))

/-- The outputs of a handler that returned. -/
def returned {α : Type} (write : α → Dict) : Result α → Option Dict
  | .ok a => some (write a)
  | .error _ => none

theorem returned_eq_some {α : Type} {write : α → Dict} {res : Result α} {outputs : Dict}
    (h : returned write res = some outputs) : ∃ a, res = .ok a ∧ outputs = write a := by
  cases res with
  | ok a => exact ⟨a, rfl, (Option.some.inj h).symm⟩
  | error exc => cases h

/-- What the handlers of that review return on the environment. -/
def reportedOutputs (env : Dict) : StateId → Option Dict
  | .riskTierTriage => returned Triage.toDict (handleRiskTierTriage .ascii env)
  | .mergeSpecialistOutputs =>
    returned (fun merged => [("specialist_outputs", .list (merged.specialistOutputs.map .dict))])
      (handleMergeSpecialistOutputs .ascii env)
  | .collectFindings => returned Collected.toDict (collectFindings .ascii noEmbed env)
  | .verifyCoverage => returned Coverage.toDict (verifyCoverage noWiki env)
  | .synthesizeReleaseReadiness => returned Readiness.toDict (synthesizeReleaseReadiness env)
  | .shortCircuitExit => some handleShortCircuitExit
  | .verifierStuck => some (handleVerifierStuck env).toDict
  | state => some (plainOutputs env state)

/-- A review in which every unit reports that output. -/
def reportedReview : (e : RunEffect) → RunReply e
  | .worker .rankFindings inputs =>
    match dispatchWorker bareSetup quietBackend 0 "rank_findings" inputs with
    | .ok outputs => .ok outputs
    | .error _ => .error (.other .keyError)
  | .inline state env =>
    match reportedOutputs env state with
    | some outputs => .ok outputs
    | none => .fault "handler_error" ""
  | .dispatch stats units =>
    ⟨stats, .ok (OrdMap.ofList (units.map fun u => (u.key, reportedOutput)))⟩
  | e => plainReview (routedBy oneCandidate) e

theorem reportedOutputs_reports {env outputs : Dict} {state : StateId}
    (h : reportedOutputs env state = some outputs) :
    HandlerReports .ascii noEmbed env outputs state := by
  cases state with
  | riskTierTriage | mergeSpecialistOutputs | collectFindings | synthesizeReleaseReadiness =>
    exact returned_eq_some h
  | verifyCoverage => exact ⟨_, returned_eq_some h⟩
  | activateLeaves | writeRunDirectory => exact ⟨_, (Option.some.inj h).symm⟩
  | planSpecialistBatches | shortCircuitExit | stageAEmpty | verifierStuck | emitStdout =>
    exact (Option.some.inj h).symm
  | _ =>
    obtain rfl := Option.some.inj h
    exact forall_findingKeys.2 ⟨rfl, rfl, rfl, rfl, rfl⟩

theorem reportedReview_reports (e : RunEffect) :
    Reporting .ascii noEmbed ⟨e, reportedReview e⟩ := by
  cases e with
  | worker state inputs =>
    cases state with
    | rankFindings =>
      simp only [reportedReview]
      cases hranked : dispatchWorker bareSetup quietBackend 0 "rank_findings" inputs with
      | ok outputs => exact ⟨_, _, _, hranked⟩
      | error exc => trivial
    | _ => exact forall_findingKeys.2 ⟨rfl, rfl, rfl, rfl, rfl⟩
  | inline state env =>
    simp only [reportedReview]
    cases houtputs : reportedOutputs env state with
    | some outputs => exact reportedOutputs_reports houtputs
    | none => trivial
  | _ => trivial

/-- The run of that review. -/
def reportedRun : RunTrace × Outcome :=
  exec (fun _ => reportedReview) [] (runReview .ascii 0 [])

theorem reportedRun_runs : Runs (runReview .ascii 0 []) reportedRun.1 reportedRun.2 := by
  obtain ⟨trace, htrace, hrun⟩ := exec_runs (fun _ => reportedReview) [] (runReview .ascii 0 [])
  rw [reportedRun, htrace]
  exact hrun

theorem reportedRun_reports : ∀ ev ∈ reportedRun.1, Reporting .ascii noEmbed ev := by
  rintro ⟨e, reply⟩ hev
  obtain rfl : reply = reportedReview e := by
    simpa using exec_answers reportedReview [] _ _ hev
  exact reportedReview_reports e

/-- The run ended without a fault, with findings. -/
def endsWithFindings : Outcome → Bool
  | .ok r => !r.faulted && r.findings.truthy
  | .error _ => false

theorem review_findings_reported_oneFinding :
    ∃ (r : RunResult) (g : Dict) (gs : List Dict), reportedRun.2 = .ok r ∧
      r.findings = .list ((g :: gs).map .dict) ∧
      ∀ f ∈ g :: gs, Sourced (poolOutputs reportedRun.1) f := by
  have hends : endsWithFindings reportedRun.2 = true := by decide +kernel
  have hruns := reportedRun_runs
  cases hr : reportedRun.2 with
  | error exc =>
    rw [hr] at hends
    cases hends
  | ok r =>
    rw [hr] at hends hruns
    simp only [endsWithFindings, Bool.and_eq_true, Bool.not_eq_true'] at hends
    obtain ⟨gs, hfindings, hgs⟩ := review_findings_reported hruns reportedRun_reports hends.1
    cases gs with
    | nil =>
      rw [hfindings] at hends
      cases hends.2
    | cons g gs => exact ⟨r, g, gs, rfl, hfindings, hgs⟩

end CodeReview
