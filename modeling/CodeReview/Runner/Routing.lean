import CodeReview.Runner.Engine

/-!
# From activation to dispatch

Two routing workers narrow the activated leaves down.  The coverage floor repairs what `llm_trim`
leaves empty; a review whose `tree_descend` leaves no candidate goes to `stage_a_empty`, which
answers CONDITIONAL.

* `OnRoute` is the invariant between the two: with activated leaves, then with picked leaves, then
  with a plan, nothing dispatched yet;
* `onRoute_next` : a step on the route dispatches a unit, stays on the route, or leaves it for
  `stage_a_empty` because `tree_descend` left no candidate;
* `activated_dispatches` : **a review with activated leaves that ends without a fault dispatched a
  unit, or `tree_descend` left no candidate and the verdict is CONDITIONAL.**
-/

namespace CodeReview

open Py Proc

variable {rt : Runtime} {maxRetries : ℕ} {E : Engine}

/-! ### What a run did -/

/-- The units that were dispatched. -/
def dispatchedUnits (trace : RunTrace) : List PlanUnit :=
  trace.flatMap fun
    | ⟨.dispatch _ units, _⟩ => units
    | _ => []

/-- At least one unit was dispatched. -/
def Dispatches (trace : RunTrace) : Prop := dispatchedUnits trace ≠ []

/-- The candidates that `tree_descend` left, each time it answered. -/
def candidateLists (trace : RunTrace) : List Value :=
  trace.filterMap fun
    | ⟨.worker .treeDescend _, .ok outputs⟩ => some (outputs.get "stage_a_candidates")
    | _ => none

/-- `tree_descend` left no candidate. -/
def LeavesNoCandidate (trace : RunTrace) : Prop := .list [] ∈ candidateLists trace

/-- The leaves that `activate_leaves` returned. -/
def activatedLeaves (trace : RunTrace) : List Value :=
  trace.flatMap fun
    | ⟨.inline .activateLeaves _, .ok outputs⟩ => ensureList (outputs.get "activated_leaves")
    | _ => []

/-- Some leaf was activated. -/
def Activates (trace : RunTrace) : Prop := activatedLeaves trace ≠ []

theorem activates_iff {trace : RunTrace} :
    Activates trace ↔ ∃ env outputs,
      (⟨.inline .activateLeaves env, .ok outputs⟩ : Event RunEffect RunReply) ∈ trace ∧
        ensureList (outputs.get "activated_leaves") ≠ [] := by
  rw [Activates, activatedLeaves, ne_eq, List.flatMap_eq_nil_iff]
  constructor
  · intro h
    push Not at h
    obtain ⟨ev, hev, hne⟩ := h
    split at hne
    · rename_i env outputs
      exact ⟨env, outputs, hev, hne⟩
    · exact absurd rfl hne
  · rintro ⟨env, outputs, hev, hne⟩ h
    exact hne (h _ hev)

theorem Dispatches.append_right {before after : RunTrace} (h : Dispatches after) :
    Dispatches (before ++ after) := by
  rw [Dispatches, dispatchedUnits, List.flatMap_append]
  exact List.append_ne_nil_of_right_ne_nil _ h

theorem Dispatches.append_left {before after : RunTrace} (h : Dispatches before) :
    Dispatches (before ++ after) := by
  rw [Dispatches, dispatchedUnits, List.flatMap_append]
  exact List.append_ne_nil_of_left_ne_nil h _

theorem LeavesNoCandidate.append_right {before after : RunTrace} (h : LeavesNoCandidate after) :
    LeavesNoCandidate (before ++ after) := by
  rw [LeavesNoCandidate, candidateLists, List.filterMap_append]
  exact List.mem_append_right _ h

theorem LeavesNoCandidate.append_left {before after : RunTrace} (h : LeavesNoCandidate before) :
    LeavesNoCandidate (before ++ after) := by
  rw [LeavesNoCandidate, candidateLists, List.filterMap_append]
  exact List.mem_append_left _ h

/-! ### The environment on the route -/

/-- No panel has counted a rejection. -/
def NotRejected (env : Dict) : Prop := Assoc.get? env "verifier_rejection_counts" = none

/-- The cap is positive. -/
def Capped (env : Dict) : Prop := ∃ cap, env.get "cap" = .int cap ∧ 1 ≤ cap

/-- Some leaf was activated, and all of them can be picked. -/
def Active (env : Dict) : Prop :=
  ∃ leaf leaves, env.get "activated_leaves" = .list (leaf :: leaves) ∧
    ∀ v ∈ leaf :: leaves, ∃ d, v = .dict d ∧ Pickable d

/-- Some leaf was picked. -/
def Picked (env : Dict) : Prop := ∃ leaf leaves, env.get "picked_leaves" = .list (leaf :: leaves)

/-- Some unit was planned. -/
def Planned (env : Dict) : Prop :=
  ∃ plan, readPlan (env.get "specialist_batches") = some plan ∧ plan.flatten ≠ []

/-- A state between activation and dispatch. -/
structure OnRoute (s : RunState) : Prop where
  idle : s.unitResults.entries = []
  holds : match s.stateId with
    | .treeDescend | .llmTrim => NotRejected s.env ∧ Capped s.env ∧ Active s.env
    | .toolDiscovery => NotRejected s.env ∧ Picked s.env
    | .planSpecialistBatches => Picked s.env
    | .dispatchSpecialists => Planned s.env
    | _ => False

section

variable {env outputs : Dict} {k : String} {v : Value}

/-- A key that the outputs lack keeps its value. -/
theorem get?_merge_of_none (h : Assoc.get? outputs k = none) :
    Assoc.get? (Assoc.update env outputs) k = Assoc.get? env k :=
  Assoc.get?_update_of_notMem _ _ (Assoc.get?_eq_none_iff.1 h)

theorem get_merge_of_none (h : Assoc.get? outputs k = none) :
    Dict.get (Assoc.update env outputs) k = Dict.get env k := by
  rw [Dict.get, get?_merge_of_none h]
  rfl

theorem get_merge_of_some (hnodup : (outputs.map Prod.fst).Nodup)
    (h : Assoc.get? outputs k = some v) : Dict.get (Assoc.update env outputs) k = v := by
  rw [Dict.get, Assoc.get?_update_of_nodup _ hnodup, h]
  rfl

theorem NotRejected.merge (h : NotRejected env)
    (hnone : Assoc.get? outputs "verifier_rejection_counts" = none) :
    NotRejected (Assoc.update env outputs) := by
  rw [NotRejected, get?_merge_of_none hnone]
  exact h

theorem Capped.merge (h : Capped env) (hnone : Assoc.get? outputs "cap" = none) :
    Capped (Assoc.update env outputs) := by
  rw [Capped, get_merge_of_none hnone]
  exact h

theorem Active.merge (h : Active env) (hnone : Assoc.get? outputs "activated_leaves" = none) :
    Active (Assoc.update env outputs) := by
  rw [Active, get_merge_of_none hnone]
  exact h

theorem Picked.merge (h : Picked env) (hnone : Assoc.get? outputs "picked_leaves" = none) :
    Picked (Assoc.update env outputs) := by
  rw [Picked, get_merge_of_none hnone]
  exact h

theorem NotRejected.timed {s : RunState} (h : NotRejected s.env) (measured : ClockReading) :
    NotRejected (s.timed measured).env := by
  rw [NotRejected, RunState.get?_timed (by decide)]
  exact h

theorem Capped.timed {s : RunState} (h : Capped s.env) (measured : ClockReading) :
    Capped (s.timed measured).env := by
  rw [Capped, RunState.get_timed (by decide)]
  exact h

theorem Picked.timed {s : RunState} (h : Picked s.env) (measured : ClockReading) :
    Picked (s.timed measured).env := by
  rw [Picked, RunState.get_timed (by decide)]
  exact h

/-- The plan for a picked leaf, where the planner's outputs passed their checks. -/
theorem planned_merge (hE : E.Lawful) (hpicked : Picked env)
    (hpost : ∀ cond ∈ StateId.planSpecialistBatches.postValidations,
      E.holds cond (Assoc.update env (handlePlanSpecialistBatches env)) = true) :
    planBatches env ≠ [] ∧ Planned (Assoc.update env (handlePlanSpecialistBatches env)) := by
  have hnodup : ((handlePlanSpecialistBatches env).map Prod.fst).Nodup := by
    simp only [handlePlanSpecialistBatches, List.map_cons, List.map_nil]
    decide
  have hunpicked : Assoc.get? (handlePlanSpecialistBatches env) "picked_leaves" = none := rfl
  obtain ⟨leaf, leaves, hleaves⟩ := hpicked.merge hunpicked
  have htotal : Dict.get (Assoc.update env (handlePlanSpecialistBatches env)) "total_batches" =
      .int (planBatches env).length := get_merge_of_some hnodup rfl
  have hne : planBatches env ≠ [] := by
    rcases (hE.plansPicked _ _ _ hleaves htotal).1
      (hpost "(len(picked_leaves) == 0) OR (total_batches > 0)" (by decide)) with hnil | hpos
    · cases hnil
    · intro hnil
      simp [hnil] at hpos
  refine ⟨hne, planBatches env, ?_, ?_⟩
  · rw [get_merge_of_some hnodup rfl]
    exact readPlan_batchesToValue hne
  · -- a batch is never empty
    obtain ⟨batch, hbatch⟩ := List.exists_mem_of_ne_nil _ hne
    obtain ⟨u, hu⟩ := List.exists_mem_of_ne_nil _ (ne_nil_of_mem_planBatches hbatch)
    exact List.ne_nil_of_mem (List.mem_flatten.2 ⟨batch, hbatch, hu⟩)

end

/-! ### Steps on the route -/

/-- Only the outputs of `llm_trim` are repaired. -/
theorem floored_eq {s : RunState} {outputs final : Dict} (hstate : s.stateId ≠ .llmTrim)
    (h : Floored rt s outputs final) : final = outputs := by
  have hnone : coverageFloor rt s.stateId (inputsOf s.stateId s.env) outputs s.env = .ok none := by
    unfold coverageFloor
    rw [if_pos hstate]
    rfl
  rcases h with ⟨-, rfl⟩ | h
  · rfl
  · rw [hnone] at h
    cases h

/-- The outputs that `llm_trim` advances with have a picked leaf. -/
theorem picked_of_floored {s : RunState} {outputs final : Dict} (hstate : s.stateId = .llmTrim)
    (houtputs : WorkerOutputs (reservedKeys s.stateId) s.stateId outputs) (hcap : Capped s.env)
    (hactive : Active s.env) (h : Floored rt s outputs final) :
    (∃ leaf leaves, Assoc.get? final "picked_leaves" = some (.list (leaf :: leaves))) ∧
      (final.map Prod.fst).Nodup ∧
      Assoc.get? final "verifier_rejection_counts" = none := by
  obtain ⟨cap, hget, hpos⟩ := hcap
  obtain ⟨leaf, leaves, hleaves, hpick⟩ := hactive
  obtain ⟨xs, hxs⟩ := houtputs.picked hstate
  have hreserved := houtputs.reserved "verifier_rejection_counts" (by rw [hstate]; decide)
  obtain ⟨res, hres, hfinal⟩ : ∃ res, coverageFloor rt .llmTrim (inputsOf s.stateId s.env) outputs
      s.env = .ok res ∧ final = res.getD outputs := by
    rw [Floored, hstate] at h
    rcases h with ⟨h, rfl⟩ | h
    · exact ⟨none, hstate ▸ h, rfl⟩
    · exact ⟨some final, hstate ▸ h, rfl⟩
  rcases coverageFloor_picks hres hleaves hpick hget hpos with ⟨rfl, htruthy⟩ | ⟨picked, hne, rfl⟩
  · -- the worker picked a leaf itself
    rw [hfinal, Option.getD_none]
    refine ⟨?_, houtputs.nodup, hreserved⟩
    rw [Dict.get_of_get? hxs] at htruthy
    cases xs with
    | nil => cases htruthy
    | cons leaf leaves => exact ⟨leaf, leaves, hxs⟩
  · rw [hfinal, Option.getD_some]
    obtain ⟨leaf, leaves, rfl⟩ := List.exists_cons_of_ne_nil hne
    refine ⟨⟨leaf, leaves, picked_repairedWith⟩, nodup_repairedWith houtputs.nodup, ?_⟩
    rw [get?_repairedWith (by decide)]
    exact hreserved

section

variable {s s' : RunState} {trace : RunTrace} (hE : E.Lawful)
  (hlaw : ∀ ev ∈ trace, EventLawful E reservedKeys ev)

include hE hlaw

theorem treeDescend_next (hstate : s.stateId = .treeDescend) (hidle : s.unitResults.entries = [])
    (henv : NotRejected s.env ∧ Capped s.env ∧ Active s.env)
    (h : Runs (workerStep rt maxRetries s) trace (.next s')) :
    OnRoute s' ∨ (LeavesNoCandidate trace ∧ s'.stateId = .stageAEmpty) := by
  obtain ⟨hrejected, hcap, hactive⟩ := henv
  obtain ⟨outputs, final, houtputs, hevent, hfloor, hnext, henv', hresults⟩ :=
    worker_next h hlaw (by rw [hstate]; decide) (by decide)
  obtain rfl := floored_eq (by rw [hstate]; decide) hfloor
  have hnone (k : String) (hk : k ∈ reservedKeys .treeDescend) : Assoc.get? final k = none :=
    houtputs.reserved k (by rw [hstate]; exact hk)
  obtain ⟨xs, hxs⟩ := houtputs.candidates hstate
  have hrejected' := hrejected.merge (hnone _ (by decide))
  rw [hstate, next_treeDescend hE hrejected' (get_merge_of_some houtputs.nodup hxs)] at hnext
  have hnext := (Option.some.inj hnext).symm
  by_cases hempty : xs = []
  · -- the engine leaves for `stage_a_empty`
    rw [if_pos hempty] at hnext
    obtain ⟨inputs, hmem⟩ := hevent (by rw [hstate]; decide)
    rw [hstate] at hmem
    have hlist : final.get "stage_a_candidates" = .list [] := by rw [Dict.get_of_get? hxs, hempty]
    exact .inr ⟨List.mem_filterMap.2 ⟨_, hmem, congrArg some hlist⟩, hnext⟩
  · rw [if_neg hempty] at hnext
    refine .inl ⟨by rw [hresults, hidle], ?_⟩
    rw [hnext, henv']
    exact ⟨hrejected', hcap.merge (hnone _ (by decide)), hactive.merge (hnone _ (by decide))⟩

theorem llmTrim_next (hstate : s.stateId = .llmTrim) (hidle : s.unitResults.entries = [])
    (henv : NotRejected s.env ∧ Capped s.env ∧ Active s.env)
    (h : Runs (workerStep rt maxRetries s) trace (.next s')) : OnRoute s' := by
  obtain ⟨hrejected, hcap, hactive⟩ := henv
  obtain ⟨outputs, final, houtputs, -, hfloor, hnext, henv', hresults⟩ :=
    worker_next h hlaw (by rw [hstate]; decide) (by decide)
  obtain ⟨⟨leaf, leaves, hpicked⟩, hnodup, hnone⟩ :=
    picked_of_floored hstate houtputs hcap hactive hfloor
  have hrejected' := hrejected.merge hnone
  rw [hstate, next_of_notStuck hE rfl hrejected'] at hnext
  refine ⟨by rw [hresults, hidle], ?_⟩
  rw [← Option.some.inj hnext, henv']
  exact ⟨hrejected', leaf, leaves, get_merge_of_some hnodup hpicked⟩

theorem toolDiscovery_next (hstate : s.stateId = .toolDiscovery)
    (hidle : s.unitResults.entries = []) (henv : NotRejected s.env ∧ Picked s.env)
    (h : Runs (workerStep rt maxRetries s) trace (.next s')) : OnRoute s' := by
  obtain ⟨hrejected, hpicked⟩ := henv
  obtain ⟨outputs, final, houtputs, -, hfloor, hnext, henv', hresults⟩ :=
    worker_next h hlaw (by rw [hstate]; decide) (by decide)
  obtain rfl := floored_eq (by rw [hstate]; decide) hfloor
  have hnone (k : String) (hk : k ∈ reservedKeys .toolDiscovery) : Assoc.get? final k = none :=
    houtputs.reserved k (by rw [hstate]; exact hk)
  rw [hstate, next_of_notStuck hE rfl (hrejected.merge (hnone _ (by decide)))] at hnext
  refine ⟨by rw [hresults, hidle], ?_⟩
  rw [← Option.some.inj hnext, henv']
  exact hpicked.merge (hnone _ (by decide))

theorem planSpecialistBatches_next (hstate : s.stateId = .planSpecialistBatches)
    (hidle : s.unitResults.entries = []) (henv : Picked s.env)
    (h : Runs (inlineStep s) trace (.next s')) : OnRoute s' := by
  obtain ⟨measured, outputs, rest, -, houtputs, hpost, hnext, henv', hresults⟩ :=
    inline_next h hlaw (by rw [hstate]; decide)
  have hstate' : (s.timed measured).stateId = .planSpecialistBatches := hstate
  rw [hstate] at houtputs hpost
  rw [hstate'] at hnext
  obtain rfl : outputs = handlePlanSpecialistBatches (s.timed measured).env := houtputs
  obtain ⟨hne, hplanned⟩ := planned_merge hE (henv.timed measured) hpost
  have htotal : Dict.get (Assoc.update (s.timed measured).env
      (handlePlanSpecialistBatches (s.timed measured).env)) "total_batches" =
      .int (planBatches (s.timed measured).env).length := by
    refine get_merge_of_some ?_ rfl
    simp only [handlePlanSpecialistBatches, List.map_cons, List.map_nil]
    decide
  rw [next_planSpecialistBatches hE htotal (by simpa using hne)] at hnext
  refine ⟨(congrArg OrdMap.entries hresults).trans hidle, ?_⟩
  rw [← Option.some.inj hnext, henv']
  exact hplanned

end

theorem dispatchSpecialists_dispatches {s : RunState} {trace : RunTrace} {res : StepResult}
    (hidle : s.unitResults.entries = []) (henv : Planned s.env)
    (h : Runs (loopStep s) trace res) : Dispatches trace := by
  obtain ⟨plan, hplan, hne⟩ := henv
  rw [loopStep, hplan] at h
  simp only [unitReply, if_pos hidle, perform_bind, runs_vis] at h
  obtain ⟨reply, rest, rfl, -⟩ := h
  exact List.append_ne_nil_of_left_ne_nil hne _

/-- **A step on the route dispatches a unit, stays on the route, or leaves it for `stage_a_empty`
because `tree_descend` left no candidate.** -/
theorem onRoute_next (hE : E.Lawful) {s s' : RunState} {trace : RunTrace}
    (hlaw : ∀ ev ∈ trace, EventLawful E reservedKeys ev) (hroute : OnRoute s)
    (h : Runs (reviewStep rt maxRetries s) trace (.next s')) :
    Dispatches trace ∨ OnRoute s' ∨ (LeavesNoCandidate trace ∧ s'.stateId = .stageAEmpty) := by
  obtain ⟨hidle, hholds⟩ := hroute
  cases hstate : s.stateId with
  | treeDescend =>
    simp only [hstate] at hholds
    simp only [reviewStep, hstate, StateId.kind] at h
    exact .inr (treeDescend_next hE hlaw hstate hidle hholds h)
  | llmTrim =>
    simp only [hstate] at hholds
    simp only [reviewStep, hstate, StateId.kind] at h
    exact .inr (.inl (llmTrim_next hE hlaw hstate hidle hholds h))
  | toolDiscovery =>
    simp only [hstate] at hholds
    simp only [reviewStep, hstate, StateId.kind] at h
    exact .inr (.inl (toolDiscovery_next hE hlaw hstate hidle hholds h))
  | planSpecialistBatches =>
    simp only [hstate] at hholds
    simp only [reviewStep, hstate, StateId.kind] at h
    exact .inr (.inl (planSpecialistBatches_next hE hlaw hstate hidle hholds h))
  | dispatchSpecialists =>
    simp only [hstate] at hholds
    simp only [reviewStep, hstate, StateId.kind] at h
    exact .inl (dispatchSpecialists_dispatches hidle hholds h)
  | _ => simp only [hstate] at hholds

/-! ### Ends -/

/-- The states that lead straight to `terminal`. -/
def endings : List StateId :=
  [.shortCircuitExit, .stageAEmpty, .writeRunDirectory, .emitStdout, .terminal]

theorem kind_of_ending {state : StateId} (h : state ∈ endings) :
    state.kind = .inline ∨ state.kind = .terminal := by
  revert h
  cases state <;> decide

/-- The review is answered with CONDITIONAL. -/
def Conditional (s : RunState) : Prop :=
  s.stateId = .stageAEmpty ∨
    (s.stateId ∈ [StateId.writeRunDirectory, .emitStdout, .terminal] ∧
      s.env.get "verdict" = .str Verdict.conditional.text)

/-- Behind the state that answers it, a review keeps its verdict. -/
theorem verdict_next {s s' : RunState} {trace : RunTrace}
    (hlaw : ∀ ev ∈ trace, EventLawful E reservedKeys ev)
    (hs : s.stateId ∈ [StateId.writeRunDirectory, .emitStdout, .terminal])
    (h : Runs (reviewStep rt maxRetries s) trace (.next s')) :
    s'.stateId ∈ [StateId.writeRunDirectory, .emitStdout, .terminal] ∧
      s'.env.get "verdict" = s.env.get "verdict" := by
  -- no outputs of these states have a verdict
  have hkeeps {target : StateId} {measured : ClockReading} {outputs : Dict}
      (hadvanced : Advanced E (s.timed measured) s' outputs)
      (ht : s.stateId.transitions = [StateId.always target])
      (htarget : target ∈ [StateId.writeRunDirectory, .emitStdout, .terminal])
      (hnone : Assoc.get? outputs "verdict" = none) :
      s'.stateId ∈ [StateId.writeRunDirectory, .emitStdout, .terminal] ∧
        s'.env.get "verdict" = s.env.get "verdict" := by
    have hnext := (next_of_always ht).symm.trans hadvanced.next
    refine ⟨Option.some.inj hnext ▸ htarget, ?_⟩
    rw [hadvanced.env, get_merge_of_none hnone, RunState.get_timed (by decide)]
  simp only [List.mem_cons, List.not_mem_nil, or_false] at hs
  rcases hs with hstate | hstate | hstate
  · simp only [reviewStep, hstate, StateId.kind] at h
    obtain ⟨measured, outputs, rest, -, houtputs, -, hadvanced⟩ :=
      inline_next h hlaw (by rw [hstate]; decide)
    rw [hstate] at houtputs
    refine @hkeeps .emitStdout _ _ hadvanced (by rw [hstate]; rfl) (by decide) ?_
    exact Assoc.get?_eq_none_iff.2 fun hmem => absurd (houtputs _ hmem) (by decide)
  · simp only [reviewStep, hstate, StateId.kind] at h
    obtain ⟨measured, outputs, rest, -, houtputs, -, hadvanced⟩ :=
      inline_next h hlaw (by rw [hstate]; decide)
    rw [hstate] at houtputs
    refine @hkeeps .terminal _ _ hadvanced (by rw [hstate]; rfl) (by decide) ?_
    exact Assoc.get?_eq_none_iff.2 fun hmem => absurd (houtputs _ hmem) (by decide)
  · simp only [reviewStep, hstate, StateId.kind] at h
    obtain ⟨-, h⟩ := runs_ret.1 h
    cases h

theorem conditional_next {s s' : RunState} {trace : RunTrace}
    (hlaw : ∀ ev ∈ trace, EventLawful E reservedKeys ev) (hs : Conditional s)
    (h : Runs (reviewStep rt maxRetries s) trace (.next s')) : Conditional s' := by
  rcases hs with hstate | ⟨hstate, hverdict⟩
  · simp only [reviewStep, hstate, StateId.kind] at h
    obtain ⟨measured, outputs, rest, -, houtputs, -, hnext, henv, -⟩ :=
      inline_next h hlaw (by rw [hstate]; decide)
    rw [hstate] at houtputs
    obtain rfl : outputs = handleStageAEmpty (s.timed measured).env := houtputs
    rw [show (s.timed measured).stateId = .stageAEmpty from hstate, next_of_always rfl] at hnext
    refine .inr ⟨by rw [← Option.some.inj hnext]; decide, ?_⟩
    rw [henv]
    exact get_merge_of_some (by rw [keys_handleStageAEmpty]; decide) rfl
  · obtain ⟨hstate', hkept⟩ := verdict_next hlaw hstate h
    exact .inr ⟨hstate', hkept.trans hverdict⟩

theorem ending_next {s s' : RunState} {trace : RunTrace}
    (hlaw : ∀ ev ∈ trace, EventLawful E reservedKeys ev) (hs : s.stateId ∈ endings)
    (h : Runs (reviewStep rt maxRetries s) trace (.next s')) : s'.stateId ∈ endings := by
  rcases kind_of_ending hs with hkind | hkind
  · simp only [reviewStep, hkind] at h
    obtain ⟨measured, outputs, rest, -, -, -, hnext, -, -⟩ :=
      inline_next h hlaw (by rw [hkind]; decide)
    obtain ⟨t, ht, htarget⟩ := exists_transition hnext
    replace ht : t ∈ s.stateId.transitions := ht
    rw [← htarget]
    clear hnext htarget h hkind
    revert ht
    simp only [endings, List.mem_cons, List.not_mem_nil, or_false] at hs
    rcases hs with hs | hs | hs | hs | hs <;> rw [hs] <;> revert t <;> decide
  · simp only [reviewStep, hkind] at h
    obtain ⟨-, h⟩ := runs_ret.1 h
    cases h

/-- A step activates leaves only in `activate_leaves`. -/
theorem not_activates {s : RunState} {trace : RunTrace} {res : StepResult}
    (hstate : s.stateId ≠ .activateLeaves) (h : Runs (reviewStep rt maxRetries s) trace res) :
    ¬ Activates trace := by
  intro hactive
  obtain ⟨env, outputs, hmem, -⟩ := activates_iff.1 hactive
  exact hstate (inline_mem h hmem).1.symm

theorem not_activates_append {before after : RunTrace} (hbefore : ¬ Activates before)
    (hafter : ¬ Activates after) : ¬ Activates (before ++ after) := by
  rw [Activates, not_not] at hbefore hafter ⊢
  rw [activatedLeaves, List.flatMap_append]
  exact List.append_eq_nil_iff.2 ⟨hbefore, hafter⟩

/-- From the states that lead straight to `terminal`, a run visits no others. -/
theorem states_ending {rounds : ℕ} {s : RunState} {steps : List (RunState × RunTrace)}
    {outcome : Outcome} (h : Rounds rt maxRetries rounds s steps outcome)
    (hlaw : ∀ st ∈ steps, ∀ ev ∈ st.2, EventLawful E reservedKeys ev) (hs : s.stateId ∈ endings) :
    ∀ st ∈ steps, st.1.stateId ∈ endings ∧ ∃ res,
      Runs (reviewStep rt maxRetries st.1) st.2 res := by
  induction h with
  | exhausted s => exact fun st hst => absurd hst List.not_mem_nil
  | done hstep =>
    intro st hst
    rw [List.mem_singleton.1 hst]
    exact ⟨hs, _, hstep⟩
  | next hstep _ ih =>
    intro st hst
    rcases List.mem_cons.1 hst with rfl | hrest
    · exact ⟨hs, _, hstep⟩
    · exact ih (fun st hst => hlaw st (List.mem_cons_of_mem _ hst))
        (ending_next (hlaw _ List.mem_cons_self) hs hstep) st hrest

/-- From there no leaf is activated. -/
theorem rounds_ending {rounds : ℕ} {s : RunState} {steps : List (RunState × RunTrace)}
    {outcome : Outcome} (h : Rounds rt maxRetries rounds s steps outcome)
    (hlaw : ∀ st ∈ steps, ∀ ev ∈ st.2, EventLawful E reservedKeys ev) (hs : s.stateId ∈ endings) :
    ¬ Activates (steps.flatMap Prod.snd) := by
  intro hactive
  obtain ⟨env, outputs, hmem, hleaves⟩ := activates_iff.1 hactive
  obtain ⟨st, hst, hev⟩ := List.mem_flatMap.1 hmem
  obtain ⟨hending, res, hrun⟩ := states_ending h hlaw hs st hst
  have hne : st.1.stateId ≠ .activateLeaves := by
    intro hstate
    rw [hstate] at hending
    exact absurd hending (by decide)
  exact not_activates hne hrun (activates_iff.2 ⟨env, outputs, hev, hleaves⟩)

/-- A review ends with a verdict, or with a fault, that an invariant of its states fixes for the
terminal one. -/
theorem rounds_verdict {lawful : Event RunEffect RunReply → Prop} {P : RunState → Prop} {v : Value}
    (hnext : ∀ {s s' : RunState} {trace : RunTrace}, (∀ ev ∈ trace, lawful ev) → P s →
      Runs (reviewStep rt maxRetries s) trace (.next s') → P s')
    (hend : ∀ s : RunState, P s → s.stateId.kind = .terminal → s.env.get "verdict" = v)
    {rounds : ℕ} {s : RunState} {steps : List (RunState × RunTrace)} {outcome : Outcome}
    (h : Rounds rt maxRetries rounds s steps outcome)
    (hlaw : ∀ st ∈ steps, ∀ ev ∈ st.2, lawful ev) (hs : P s) {r : RunResult} (hr : outcome = .ok r)
    (hfaulted : r.faulted = false) : r.verdict = v := by
  induction h with
  | exhausted s =>
    obtain rfl := Except.ok.inj hr
    cases hfaulted
  | @done rounds s trace outcome hstep =>
    by_cases hkind : s.stateId.kind = .terminal
    · simp only [reviewStep, hkind, pure_eq_ret, runs_ret] at hstep
      obtain ⟨-, hstep⟩ := hstep
      cases hstep
      obtain rfl := Except.ok.inj hr
      exact hend s hs hkind
    · rw [step_ends hkind hstep r hr] at hfaulted
      cases hfaulted
  | next hstep _ ih =>
    exact ih (fun st hst => hlaw st (List.mem_cons_of_mem _ hst))
      (hnext (hlaw _ List.mem_cons_self) hs hstep) hr

/-- A review that is answered with CONDITIONAL ends with that verdict, or with a fault. -/
theorem rounds_conditional {rounds : ℕ} {s : RunState} {steps : List (RunState × RunTrace)}
    {outcome : Outcome} (h : Rounds rt maxRetries rounds s steps outcome)
    (hlaw : ∀ st ∈ steps, ∀ ev ∈ st.2, EventLawful E reservedKeys ev) (hs : Conditional s)
    {r : RunResult} (hr : outcome = .ok r) (hfaulted : r.faulted = false) :
    r.verdict = .str Verdict.conditional.text := by
  refine rounds_verdict conditional_next (fun s hs hkind => ?_) h hlaw hs hr hfaulted
  rcases hs with hstate | ⟨-, hverdict⟩
  · rw [hstate] at hkind
    cases hkind
  · exact hverdict

/-! ### Before activation -/

/-- A state before activation. -/
structure BeforeActivation (s : RunState) : Prop where
  idle : s.unitResults.entries = []
  notRejected : NotRejected s.env
  holds : match s.stateId with
    | .scanProject | .riskTierTriage => True
    | .activateLeaves => Capped s.env
    | _ => False

section

variable {s s' : RunState} {trace : RunTrace} (hE : E.Lawful)
  (hlaw : ∀ ev ∈ trace, EventLawful E reservedKeys ev)

include hE hlaw

theorem scanProject_next (hstate : s.stateId = .scanProject) (hs : BeforeActivation s)
    (h : Runs (workerStep rt maxRetries s) trace (.next s')) : BeforeActivation s' := by
  obtain ⟨outputs, final, houtputs, -, hfloor, hnext, henv', hresults⟩ :=
    worker_next h hlaw (by rw [hstate]; decide) (by decide)
  obtain rfl := floored_eq (by rw [hstate]; decide) hfloor
  have hrejected := hs.notRejected.merge
    (houtputs.reserved "verifier_rejection_counts" (by rw [hstate]; decide))
  rw [hstate, next_of_notStuck hE rfl hrejected] at hnext
  refine ⟨by rw [hresults, hs.idle], by rw [henv']; exact hrejected, ?_⟩
  rw [← Option.some.inj hnext]
  trivial

theorem riskTierTriage_next (hstate : s.stateId = .riskTierTriage) (hs : BeforeActivation s)
    (h : Runs (inlineStep s) trace (.next s')) :
    BeforeActivation s' ∨ s'.stateId ∈ endings := by
  obtain ⟨measured, outputs, rest, -, houtputs, hpost, hnext, henv', hresults⟩ :=
    inline_next h hlaw (by rw [hstate]; decide)
  rw [hstate] at houtputs hpost
  rw [show (s.timed measured).stateId = .riskTierTriage from hstate] at hnext
  obtain ⟨hkeys, cap, hcap⟩ : outputs.map Prod.fst = StateId.riskTierTriage.outputs ∧
      ∃ cap : ℤ, outputs.get "cap" = .int cap := houtputs
  have hnodup : (outputs.map Prod.fst).Nodup := by rw [hkeys]; decide
  have hunrejected : Assoc.get? outputs "verifier_rejection_counts" = none :=
    Assoc.get?_eq_none_iff.2 (by rw [hkeys]; decide)
  have hrejected := (hs.notRejected.timed measured).merge hunrejected
  have hget : Dict.get (Assoc.update (s.timed measured).env outputs) "cap" = .int cap := by
    refine get_merge_of_some hnodup ?_
    have hsome : (Assoc.get? outputs "cap").isSome :=
      Assoc.get?_isSome_iff.2 (by rw [hkeys]; decide)
    obtain ⟨v, hv⟩ := Option.isSome_iff_exists.1 hsome
    rw [hv, ← hcap, Dict.get_of_get? hv]
  have hrange := (hE.capRange _ _ hget).1 (hpost "cap >= 3 AND cap <= 50" (by decide))
  obtain ⟨t, ht, htarget⟩ := exists_transition hnext
  simp only [StateId.transitions, StateId.always, List.mem_cons, List.not_mem_nil, or_false] at ht
  -- either the short circuit, or on to `activate_leaves`
  rcases ht with rfl | rfl
  · right
    rw [← htarget]
    decide
  · left
    refine ⟨(congrArg OrdMap.entries hresults).trans hs.idle, by rw [henv']; exact hrejected, ?_⟩
    rw [← htarget, henv']
    exact ⟨cap, hget, by omega⟩

theorem activateLeaves_next (hstate : s.stateId = .activateLeaves) (hs : BeforeActivation s)
    (h : Runs (inlineStep s) trace (.next s')) :
    OnRoute s' ∨ (¬ Activates trace ∧ s'.stateId ∈ endings) := by
  obtain ⟨hidle, hrejected, hcap⟩ := hs
  simp only [hstate] at hcap
  obtain ⟨measured, outputs, rest, htrace, houtputs, -, hnext, henv', hresults⟩ :=
    inline_next h hlaw (by rw [hstate]; decide)
  rw [hstate] at houtputs
  rw [show (s.timed measured).stateId = .activateLeaves from hstate] at hnext
  obtain ⟨activated, rfl⟩ : ∃ activated, outputs = handleActivateLeaves activated := houtputs
  have hleaves : Dict.get (Assoc.update (s.timed measured).env (handleActivateLeaves activated))
      "activated_leaves" = .list (activated.map fun l => .dict (activatedEntry l.1.fields l.2)) :=
    get_merge_of_some (List.nodup_singleton _) rfl
  rw [next_activateLeaves hE hleaves] at hnext
  have hnext := (Option.some.inj hnext).symm
  cases activated with
  | nil =>
    right
    refine ⟨?_, by rw [hnext]; decide⟩
    -- the only call of the handler is the one that activated nothing
    intro hactive
    obtain ⟨env, outputs, hmem, hne⟩ := activates_iff.1 hactive
    have hrun : Runs (reviewStep .ascii 0 s) trace (.next s') := by
      simpa only [reviewStep, hstate, StateId.kind] using h
    obtain ⟨-, measured', rest', htrace'⟩ := inline_mem hrun hmem
    rw [htrace] at htrace'
    cases htrace'
    exact hne rfl
  | cons l activated =>
    left
    refine ⟨(congrArg OrdMap.entries hresults).trans hidle, ?_⟩
    rw [if_neg (by simp)] at hnext
    rw [hnext, henv']
    refine ⟨(hrejected.timed measured).merge rfl, (hcap.timed measured).merge rfl, _, _, hleaves,
      ?_⟩
    intro v hv
    have hv : v ∈ (l :: activated).map fun l => Value.dict (activatedEntry l.1.fields l.2) := hv
    obtain ⟨l', -, rfl⟩ := List.mem_map.1 hv
    exact ⟨_, rfl, pickable_activatedEntry l'.1 l'.2⟩

end

/-- A step before activation stays before it, enters the route, or ends the review unactivated. -/
theorem beforeActivation_next (hE : E.Lawful) {s s' : RunState} {trace : RunTrace}
    (hlaw : ∀ ev ∈ trace, EventLawful E reservedKeys ev) (hs : BeforeActivation s)
    (h : Runs (reviewStep rt maxRetries s) trace (.next s')) :
    OnRoute s' ∨ (¬ Activates trace ∧ (BeforeActivation s' ∨ s'.stateId ∈ endings)) := by
  have hholds := hs.holds
  cases hstate : s.stateId with
  | scanProject =>
    refine .inr ⟨not_activates (by rw [hstate]; decide) h, .inl ?_⟩
    simp only [reviewStep, hstate, StateId.kind] at h
    exact scanProject_next hE hlaw hstate hs h
  | riskTierTriage =>
    refine .inr ⟨not_activates (by rw [hstate]; decide) h, ?_⟩
    simp only [reviewStep, hstate, StateId.kind] at h
    exact riskTierTriage_next hE hlaw hstate hs h
  | activateLeaves =>
    simp only [reviewStep, hstate, StateId.kind] at h
    rcases activateLeaves_next hE hlaw hstate hs h with hroute | ⟨hnot, hend⟩
    · exact .inl hroute
    · exact .inr ⟨hnot, .inr hend⟩
  | _ => simp only [hstate] at hholds

/-! ### Runs -/

/-- What a review with activated leaves comes to. -/
def RouteEnds (trace : RunTrace) (r : RunResult) : Prop :=
  Dispatches trace ∨ (LeavesNoCandidate trace ∧ r.verdict = .str Verdict.conditional.text)

theorem RouteEnds.append {before after : RunTrace} {r : RunResult} (h : RouteEnds after r) :
    RouteEnds (before ++ after) r :=
  h.imp Dispatches.append_right fun h => ⟨h.1.append_right, h.2⟩

theorem OnRoute.kind_ne {s : RunState} (h : OnRoute s) : s.stateId.kind ≠ .terminal := by
  intro hkind
  have hholds := h.holds
  rw [StateId.eq_terminal_of_kind hkind] at hholds
  exact hholds

theorem BeforeActivation.kind_ne {s : RunState} (h : BeforeActivation s) :
    s.stateId.kind ≠ .terminal := by
  intro hkind
  have hholds := h.holds
  rw [StateId.eq_terminal_of_kind hkind] at hholds
  exact hholds

theorem rounds_onRoute (hE : E.Lawful) {rounds : ℕ} {s : RunState}
    {steps : List (RunState × RunTrace)} {outcome : Outcome}
    (h : Rounds rt maxRetries rounds s steps outcome)
    (hlaw : ∀ st ∈ steps, ∀ ev ∈ st.2, EventLawful E reservedKeys ev) (hs : OnRoute s)
    {r : RunResult}
    (hr : outcome = .ok r) (hfaulted : r.faulted = false) :
    RouteEnds (steps.flatMap Prod.snd) r := by
  induction h with
  | exhausted s =>
    obtain rfl := Except.ok.inj hr
    cases hfaulted
  | @done rounds s trace outcome hstep =>
    rw [step_ends hs.kind_ne hstep r hr] at hfaulted
    cases hfaulted
  | next hstep hrest ih =>
    rw [List.flatMap_cons]
    have hrestlaw := fun st hst => hlaw st (List.mem_cons_of_mem _ hst)
    rcases onRoute_next hE (hlaw _ List.mem_cons_self) hs hstep with
      hdispatch | hroute | ⟨hnone, hstate⟩
    · exact .inl hdispatch.append_left
    · exact (ih hrestlaw hroute hr).append
    · exact .inr ⟨hnone.append_left,
        rounds_conditional hrest hrestlaw (.inl hstate) hr hfaulted⟩

theorem rounds_activates (hE : E.Lawful) {rounds : ℕ} {s : RunState}
    {steps : List (RunState × RunTrace)} {outcome : Outcome}
    (h : Rounds rt maxRetries rounds s steps outcome)
    (hlaw : ∀ st ∈ steps, ∀ ev ∈ st.2, EventLawful E reservedKeys ev) (hs : BeforeActivation s)
    (hactive : Activates (steps.flatMap Prod.snd)) {r : RunResult} (hr : outcome = .ok r)
    (hfaulted : r.faulted = false) : RouteEnds (steps.flatMap Prod.snd) r := by
  induction h with
  | exhausted s =>
    obtain rfl := Except.ok.inj hr
    cases hfaulted
  | @done rounds s trace outcome hstep =>
    rw [step_ends hs.kind_ne hstep r hr] at hfaulted
    cases hfaulted
  | @next rounds s s' trace steps outcome hstep hrest ih =>
    rw [List.flatMap_cons] at hactive ⊢
    have hrestlaw := fun st hst => hlaw st (List.mem_cons_of_mem _ hst)
    rcases beforeActivation_next hE (hlaw _ List.mem_cons_self) hs hstep with
      hroute | ⟨hnot, hs' | hend⟩
    · exact (rounds_onRoute hE hrest hrestlaw hroute hr hfaulted).append
    · refine (ih hrestlaw hs' ?_ hr).append
      by_contra hnone
      exact not_activates_append hnot hnone hactive
    · exact absurd hactive (not_activates_append hnot (rounds_ending hrest hrestlaw hend))

/-- An engine that knows the conditions on the way. -/
def plainEngine : Engine where
  holds cond env :=
    if Text.startsWith cond "verifier_rejection_counts." then
      (Assoc.get? env "verifier_rejection_counts").isSome
    else if cond = "len(activated_leaves) == 0" then
      (ensureList (env.get "activated_leaves")).isEmpty
    else if cond = "len(stage_a_candidates) == 0" then
      (ensureList (env.get "stage_a_candidates")).isEmpty
    else if cond = "total_batches == 0" then (env.get "total_batches").eqv (.int 0)
    else if cond = "(len(picked_leaves) == 0) OR (total_batches > 0)" then
      (ensureList (env.get "picked_leaves")).isEmpty ||
        0 < ((env.get "total_batches").asInt?.getD 0)
    else if cond = "cap >= 3 AND cap <= 50" then
      (env.get "cap").asInt?.any fun cap => 3 ≤ cap ∧ cap ≤ 50
    else if Text.startsWith cond "tier == 'trivial' AND" then false
    else true

theorem startsWith_append (p s : String) : Text.startsWith (p ++ s) p = true := by
  rw [Text.startsWith, String.toList_append, List.isPrefixOf_iff_prefix]
  exact List.prefix_append ..

theorem plainEngine_lawful : plainEngine.Lawful := by
  constructor
  · intro env xs h
    have hstuck : Text.startsWith "len(activated_leaves) == 0" "verifier_rejection_counts." =
        false := by decide
    simp [plainEngine, hstuck, h]
  · intro env xs h
    have hstuck : Text.startsWith "len(stage_a_candidates) == 0" "verifier_rejection_counts." =
        false := by decide
    simp [plainEngine, hstuck, h]
  · intro env n h
    have hstuck : Text.startsWith "total_batches == 0" "verifier_rejection_counts." = false := by
      decide
    simp [plainEngine, hstuck, h, Value.eqv, Value.eqvNum, Value.num?, Double.eq]
  · intro env xs n h h'
    have hstuck : Text.startsWith "(len(picked_leaves) == 0) OR (total_batches > 0)"
        "verifier_rejection_counts." = false := by decide
    simp [plainEngine, hstuck, h, h', Value.asInt?]
  · intro env n h
    have hstuck : Text.startsWith "cap >= 3 AND cap <= 50" "verifier_rejection_counts." =
        false := by decide
    simp [plainEngine, hstuck, h, Value.asInt?]
  · intro state env h
    have hstuck := startsWith_append "verifier_rejection_counts." (state.text ++ " >= 3")
    rw [← String.append_assoc] at hstuck
    simp only [plainEngine, hstuck, if_true, h, Option.isSome_none]

/-- The leaf of the runs below. -/
def qualityLeaf : WikiLeaf where
  fields := [("id", "quality"), ("path", "quality.md")]
  id := "quality"
  path := "quality.md"
  id_ne := by decide
  path_ne := by decide
  get_id := rfl
  get_path := rfl

/-- The outputs of the handlers in the runs below; nothing is asked of those that do not matter. -/
def plainOutputs (env : Dict) : StateId → Dict
  | .riskTierTriage => [("tier", "full"), ("cap", .int 20), ("tier_rationale", ""),
      ("risk_signals", .list []), ("scope_overrides_present", .bool false)]
  | .activateLeaves => handleActivateLeaves [(qualityLeaf, ["structural_signals"])]
  | .planSpecialistBatches => handlePlanSpecialistBatches env
  | .stageAEmpty => handleStageAEmpty env
  | .writeRunDirectory => [("run_dir_path", "run")]
  | _ => []

/-- A review in which the workers answer with `worker`. -/
def plainReview (worker : StateId → Dict) : (e : RunEffect) → RunReply e
  | .worker state _ => .ok (worker state)
  | .sleep _ => ()
  | .clock => ⟨0, []⟩
  | .inline state env =>
    if state.postValidations.all fun cond =>
        plainEngine.holds cond (Assoc.update env (plainOutputs env state)) then
      .ok (plainOutputs env state)
    else .fault "validation_failed" ""
  | .advance state _ env outputs =>
    match plainEngine.next state (Assoc.update env outputs) with
    | some target => .next (some target)
    | none => .fault "no_transition" ""
  | .dispatch stats units => ⟨stats, .ok (OrdMap.ofList (units.map fun u => (u.key, [])))⟩
  | .foreignBatches _ => (⟨{}, .ok OrdMap.empty⟩, [])

/-- The run of that review. -/
def plainRun (worker : StateId → Dict) : RunTrace × Outcome :=
  exec (fun _ => plainReview worker) [] (runReview .ascii 0 [])

theorem plainRun_runs (worker : StateId → Dict) :
    Runs (runReview .ascii 0 []) (plainRun worker).1 (plainRun worker).2 := by
  obtain ⟨trace, htrace, hrun⟩ := exec_runs (fun _ => plainReview worker) []
    (runReview .ascii 0 [])
  rw [plainRun, htrace]
  exact hrun

theorem plainRun_lawful {worker : StateId → Dict} {reserved : StateId → List String}
    (hworker : ∀ state, WorkerOutputs (reserved state) state (worker state)) :
    ∀ ev ∈ (plainRun worker).1, EventLawful plainEngine reserved ev := by
  intro ev hev
  obtain ⟨e, reply⟩ := ev
  obtain rfl : reply = plainReview worker e := by
    simpa using exec_answers (plainReview worker) [] _ _ hev
  cases e with
  | worker state inputs => exact hworker state
  | inline state env =>
    simp only [plainReview]
    split
    · rename_i hall
      refine ⟨?_, fun cond hcond => List.all_eq_true.1 hall cond hcond⟩
      cases state with
      | riskTierTriage => exact ⟨rfl, 20, rfl⟩
      | activateLeaves => exact ⟨_, rfl⟩
      | planSpecialistBatches => exact rfl
      | stageAEmpty => exact rfl
      | writeRunDirectory => exact fun k hk => hk
      | emitStdout => exact fun k hk => hk
      | _ => trivial
    · trivial
  | advance state iterationN env outputs =>
    simp only [plainReview]
    split
    · rename_i target htarget
      exact htarget
    · trivial
  | _ => trivial

/-- The run ended at `terminal` without a fault, and some leaf was activated. -/
def endsActivated : RunTrace × Outcome → Bool
  | (trace, .ok r) => !r.faulted && !(activatedLeaves trace).isEmpty
  | (_, .error _) => false

theorem exists_of_endsActivated {run : RunTrace × Outcome} (h : endsActivated run = true) :
    ∃ r, run.2 = .ok r ∧ r.faulted = false ∧ Activates run.1 := by
  obtain ⟨trace, outcome⟩ := run
  cases outcome with
  | error exc => cases h
  | ok r =>
    simp only [endsActivated, Bool.and_eq_true, Bool.not_eq_true', List.isEmpty_eq_false_iff] at h
    exact ⟨r, rfl, h.1, h.2⟩

/-- The routing workers leave these candidates and pick nothing. -/
def routedBy (candidates : Dict) : StateId → Dict
  | .treeDescend => candidates
  | .llmTrim => [("picked_leaves", .list [])]
  | _ => []

theorem routedBy_outputs {reserved : StateId → List String} {candidates : Dict}
    (hcandidates : WorkerOutputs (reserved .treeDescend) .treeDescend candidates)
    (hpicked : "picked_leaves" ∉ reserved .llmTrim) (state : StateId) :
    WorkerOutputs (reserved state) state (routedBy candidates state) := by
  cases state with
  | treeDescend => exact hcandidates
  | llmTrim =>
    refine ⟨List.nodup_singleton _, nofun, fun _ => ⟨_, rfl⟩, fun k hk =>
      Assoc.get?_eq_none_iff.2 fun hmem => ?_⟩
    rw [List.mem_singleton.1 hmem] at hk
    exact hpicked hk
  | _ => exact ⟨List.nodup_nil, nofun, nofun, fun k _ => rfl⟩

/-- One candidate. -/
def oneCandidate : Dict := [("stage_a_candidates", .list [.dict [("id", "quality")]])]

theorem oneCandidate_outputs :
    WorkerOutputs (reservedKeys .treeDescend) .treeDescend oneCandidate :=
  ⟨by decide, fun _ => ⟨_, rfl⟩, nofun, by decide⟩

/-- No candidate. -/
def noCandidate : Dict := [("stage_a_candidates", .list []), ("descent_path", .list [])]

theorem noCandidate_outputs : WorkerOutputs (reservedKeys .treeDescend) .treeDescend noCandidate :=
  ⟨by decide, fun _ => ⟨_, rfl⟩, nofun, by decide⟩

/-- A candidate without a path, and no activated leaves any more. -/
def overwritten : Dict :=
  [("stage_a_candidates", .list [.dict [("id", "quality"), ("path", ""),
      ("activation_match", .list ["focus_only"])]]),
    ("descent_path", .list []), ("activated_leaves", .list [])]

theorem overwritten_outputs : WorkerOutputs [] .treeDescend overwritten :=
  ⟨by decide, fun _ => ⟨_, rfl⟩, nofun, fun k hk => absurd hk List.not_mem_nil⟩

end CodeReview
