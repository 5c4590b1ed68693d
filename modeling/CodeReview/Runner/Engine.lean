import CodeReview.Handlers.Activation
import CodeReview.Handlers.Degraded
import CodeReview.Runner.Review

/-!
# The engine

The engine that runs the specification is a package of its own.  It is a parameter here: an `Engine`
evaluates conditions, `Engine.Lawful` says what it answers on the conditions of the specification,
and `EventLawful` how it answers the driver.

* `inline_next`, `worker_next` : what a step that goes on did, and where it goes;
* `step_done_faulted` : a step that ends a run before `terminal` ends it with a fault;
* `inline_mem` : a step runs no other handler than that of its state.
-/

namespace CodeReview

open Py Proc

/-- How the engine evaluates the conditions of the specification. -/
structure Engine where
  holds : String → Dict → Bool

/-- The target of the first transition whose condition holds. -/
def Engine.next (E : Engine) (state : StateId) (env : Dict) : Option StateId :=
  (state.transitions.find? fun t => t.cond.all fun cond => E.holds cond env).map (·.target)

/-- The conditions mean what they say. -/
structure Engine.Lawful (E : Engine) : Prop where
  noActivated : ∀ env xs, Dict.get env "activated_leaves" = .list xs →
    (E.holds "len(activated_leaves) == 0" env = true ↔ xs = [])
  noCandidates : ∀ env xs, Dict.get env "stage_a_candidates" = .list xs →
    (E.holds "len(stage_a_candidates) == 0" env = true ↔ xs = [])
  noBatches : ∀ env n, Dict.get env "total_batches" = .int n →
    (E.holds "total_batches == 0" env = true ↔ n = 0)
  plansPicked : ∀ env xs n, Dict.get env "picked_leaves" = .list xs →
    Dict.get env "total_batches" = .int n →
      (E.holds "(len(picked_leaves) == 0) OR (total_batches > 0)" env = true ↔ xs = [] ∨ 0 < n)
  capRange : ∀ env n, Dict.get env "cap" = .int n →
    (E.holds "cap >= 3 AND cap <= 50" env = true ↔ 3 ≤ n ∧ n ≤ 50)
  notStuck : ∀ state env, Assoc.get? env "verifier_rejection_counts" = none →
    E.holds ("verifier_rejection_counts." ++ StateId.text state ++ " >= 3") env = false

/-- The outputs that a state's handler may return, for the handlers a route to dispatch rests on. -/
def HandlerOutputs (state : StateId) (env outputs : Dict) : Prop :=
  match state with
  | .riskTierTriage =>
    outputs.map Prod.fst = StateId.riskTierTriage.outputs ∧ ∃ cap : ℤ, outputs.get "cap" = .int cap
  | .activateLeaves => ∃ activated, outputs = handleActivateLeaves activated
  | .planSpecialistBatches => outputs = handlePlanSpecialistBatches env
  | .stageAEmpty => outputs = handleStageAEmpty env
  | .writeRunDirectory => ∀ k ∈ outputs.map Prod.fst, k ∈ StateId.writeRunDirectory.outputs
  | .emitStdout => ∀ k ∈ outputs.map Prod.fst, k ∈ StateId.emitStdout.outputs
  | _ => True

/-- The outputs of a worker: a dictionary without the `reserved` keys, and with arrays where the
schema of a routing worker asks for them. -/
structure WorkerOutputs (reserved : List String) (state : StateId) (outputs : Dict) : Prop where
  nodup : (outputs.map Prod.fst).Nodup
  candidates : state = .treeDescend →
    ∃ xs, Assoc.get? outputs "stage_a_candidates" = some (.list xs)
  picked : state = .llmTrim → ∃ xs, Assoc.get? outputs "picked_leaves" = some (.list xs)
  reserved : ∀ k ∈ reserved, Assoc.get? outputs k = none

/-- The workers, the handlers and the engine answer as they should. -/
def EventLawful (E : Engine) (reserved : StateId → List String) : Event RunEffect RunReply → Prop
  | ⟨.worker state _, .ok outputs⟩ => WorkerOutputs (reserved state) state outputs
  | ⟨.inline state env, .ok outputs⟩ => HandlerOutputs state env outputs ∧
      ∀ cond ∈ state.postValidations, E.holds cond (Assoc.update env outputs) = true
  | ⟨.advance state _ _ _, .loopContinue _⟩ => state.kind = .loop
  | ⟨.advance state _ env outputs, .terminal⟩ =>
      E.next state (Assoc.update env outputs) = some .terminal
  | ⟨.advance state _ env outputs, .next target⟩ =>
      E.next state (Assoc.update env outputs) = some (target.getD .terminal)
  | _ => True

/-- The keys of other states that an answer of a worker would overwrite on the way to dispatch. -/
def reservedKeys : StateId → List String
  | .treeDescend => ["verifier_rejection_counts", "activated_leaves", "cap"]
  | .toolDiscovery => ["verifier_rejection_counts", "picked_leaves"]
  | _ => ["verifier_rejection_counts"]

variable {rt : Runtime} {maxRetries : ℕ} {E : Engine} {reserved : StateId → List String}

/-! ### Transitions -/

section

variable (hE : E.Lawful) {env : Dict}

include hE

/-- A worker state whose panel is not stuck goes on. -/
theorem next_of_notStuck {state target : StateId}
    (ht : state.transitions = [state.toVerifierStuck, StateId.always target])
    (h : Assoc.get? env "verifier_rejection_counts" = none) : E.next state env = some target := by
  have hnot := hE.notStuck state env h
  simp [Engine.next, ht, StateId.toVerifierStuck, StateId.always, hnot]

omit hE in
/-- A state with one unconditional transition takes it. -/
theorem next_of_always {state target : StateId} (ht : state.transitions = [StateId.always target]) :
    E.next state env = some target := by
  simp [Engine.next, ht, StateId.always]

omit hE in
/-- The engine goes where some transition of the state leads. -/
theorem exists_transition {state target : StateId} (h : E.next state env = some target) :
    ∃ t ∈ state.transitions, t.target = target := by
  obtain ⟨t, ht, rfl⟩ := Option.map_eq_some_iff.1 h
  exact ⟨t, List.mem_of_find?_eq_some ht, rfl⟩

theorem next_activateLeaves {xs : List Value} (h : env.get "activated_leaves" = .list xs) :
    E.next .activateLeaves env = some (if xs = [] then .stageAEmpty else .treeDescend) := by
  have hiff := hE.noActivated env xs h
  by_cases hxs : xs = []
  · simp [Engine.next, StateId.transitions, hiff.2 hxs, hxs]
  · simp [Engine.next, StateId.transitions, StateId.always, mt hiff.1 hxs, hxs]

theorem next_treeDescend {xs : List Value}
    (hnone : Assoc.get? env "verifier_rejection_counts" = none)
    (h : env.get "stage_a_candidates" = .list xs) :
    E.next .treeDescend env = some (if xs = [] then .stageAEmpty else .llmTrim) := by
  have hnot := hE.notStuck .treeDescend env hnone
  have hiff := hE.noCandidates env xs h
  by_cases hxs : xs = []
  · simp [Engine.next, StateId.transitions, StateId.toVerifierStuck, hnot, hiff.2 hxs, hxs]
  · simp [Engine.next, StateId.transitions, StateId.toVerifierStuck, StateId.always, hnot,
      mt hiff.1 hxs, hxs]

theorem next_planSpecialistBatches {n : ℤ} (h : env.get "total_batches" = .int n) (hn : n ≠ 0) :
    E.next .planSpecialistBatches env = some .dispatchSpecialists := by
  have hiff := hE.noBatches env n h
  simp [Engine.next, StateId.transitions, StateId.always, mt hiff.1 hn]

end

/-! ### Steps -/

/-- A step that goes on merges its outputs and follows the engine. -/
structure Advanced (E : Engine) (s s' : RunState) (outputs : Dict) : Prop where
  next : E.next s.stateId (Assoc.update s.env outputs) = some s'.stateId
  env : s'.env = Assoc.update s.env outputs
  unitResults : s'.unitResults = s.unitResults

theorem advance_next {s s' : RunState} {outputs : Dict} {trace : RunTrace}
    (h : Runs (advanceStep s outputs) trace (.next s'))
    (hlaw : ∀ ev ∈ trace, EventLawful E reserved ev)
    (hkind : s.stateId.kind ≠ .loop) : Advanced E s s' outputs := by
  rw [advanceStep, perform_bind, runs_vis] at h
  obtain ⟨reply, rest, rfl, h⟩ := h
  have hreply := hlaw _ List.mem_cons_self
  cases reply with
  | fault reason errors =>
    obtain ⟨-, h⟩ := runs_ret.1 h
    cases h
  | loopContinue n => exact absurd hreply hkind
  | terminal =>
    obtain ⟨-, h⟩ := runs_ret.1 h
    cases h
    exact ⟨hreply, rfl, rfl⟩
  | next target =>
    obtain ⟨-, h⟩ := runs_ret.1 h
    cases h
    exact ⟨hreply, rfl, rfl⟩

/-- An inline step that goes on did so with outputs of its handler. -/
theorem inline_next {s s' : RunState} {trace : RunTrace}
    (h : Runs (inlineStep s) trace (.next s')) (hlaw : ∀ ev ∈ trace, EventLawful E reserved ev)
    (hkind : s.stateId.kind ≠ .loop) :
    ∃ measured outputs rest, trace = ⟨.clock, measured⟩ ::
        ⟨.inline s.stateId (s.timed measured).env, .ok outputs⟩ :: rest ∧
      HandlerOutputs s.stateId (s.timed measured).env outputs ∧
      (∀ cond ∈ s.stateId.postValidations,
        E.holds cond (Assoc.update (s.timed measured).env outputs) = true) ∧
      Advanced E (s.timed measured) s' outputs := by
  obtain ⟨measured, ⟨reason, detail, -, hfault⟩ | ⟨outputs, rest, rfl, hadvance⟩⟩ :=
    runs_inlineStep h
  · cases hfault
  · obtain ⟨houtputs, hpost⟩ : HandlerOutputs s.stateId (s.timed measured).env outputs ∧ _ :=
      hlaw _ (List.mem_cons_of_mem _ List.mem_cons_self)
    have hrest (ev : Event RunEffect RunReply) (hev : ev ∈ rest) : EventLawful E reserved ev :=
      hlaw ev (List.mem_cons_of_mem _ (List.mem_cons_of_mem _ hev))
    exact ⟨measured, outputs, rest, rfl, houtputs, hpost, advance_next hadvance hrest hkind⟩

/-- The outputs that a worker step advances with: those it got, or what the floor repaired. -/
def Floored (rt : Runtime) (s : RunState) (outputs final : Dict) : Prop :=
  (coverageFloor rt s.stateId (inputsOf s.stateId s.env) outputs s.env = .ok none ∧
      final = outputs) ∨
    coverageFloor rt s.stateId (inputsOf s.stateId s.env) outputs s.env = .ok (some final)

theorem accept_next {s s' : RunState} {outputs : Dict} {trace : RunTrace}
    (h : Runs (acceptOutputs rt s (inputsOf s.stateId s.env) outputs) trace (.next s'))
    (hlaw : ∀ ev ∈ trace, EventLawful E reserved ev) (hkind : s.stateId.kind ≠ .loop) :
    ∃ final, Floored rt s outputs final ∧ Advanced E s s' final := by
  unfold acceptOutputs at h
  split at h
  · obtain ⟨-, h⟩ := runs_ret.1 h
    cases h
  · split at h
    · obtain ⟨-, h⟩ := runs_ret.1 h
      cases h
    · rename_i hfloor
      obtain ⟨hnext, henv, hresults⟩ := advance_next h hlaw hkind
      exact ⟨outputs, .inl ⟨hfloor, rfl⟩, hnext, henv, hresults⟩
    · rename_i final hfloor
      obtain ⟨hnext, henv, hresults⟩ := advance_next h hlaw hkind
      exact ⟨final, .inr hfloor, hnext, henv, hresults⟩

theorem workerOutputs_fallback {keys : List String} (h : "tool_results" ∉ keys) :
    WorkerOutputs keys .toolDiscovery [("tool_results", .list [])] := by
  refine ⟨by decide, nofun, nofun, fun k hk => Assoc.get?_eq_none_iff.2 fun hmem => ?_⟩
  rw [List.mem_singleton.1 hmem] at hk
  exact h hk

/-- A worker step that goes on did so with outputs of its worker, or with a fallback. -/
theorem worker_next {s s' : RunState} {trace : RunTrace}
    (h : Runs (workerStep rt maxRetries s) trace (.next s'))
    (hlaw : ∀ ev ∈ trace, EventLawful E reserved ev) (hkind : s.stateId.kind ≠ .loop)
    (hfallback : "tool_results" ∉ reserved .toolDiscovery) :
    ∃ outputs final, WorkerOutputs (reserved s.stateId) s.stateId outputs ∧
      (s.stateId ≠ .toolDiscovery → ∃ inputs,
        (⟨.worker s.stateId inputs, .ok outputs⟩ : Event RunEffect RunReply) ∈ trace) ∧
      Floored rt s outputs final ∧ Advanced E s s' final := by
  rw [workerStep, runs_bind] at h
  obtain ⟨before, ⟨stats, answer⟩, after, rfl, hcall, h⟩ := h
  have hafter (ev : Event RunEffect RunReply) (hev : ev ∈ after) : EventLawful E reserved ev :=
    hlaw ev (List.mem_append_right _ hev)
  -- a worker that keeps failing goes on only with a fallback, which only `tool_discovery` has
  have hfailed {cls msg : String}
      (hrun : Runs (workerFailed rt { s with stats } (inputsOf s.stateId s.env) cls msg) after
        (.next s')) :
      s.stateId = .toolDiscovery ∧ ∃ final,
        Floored rt s [("tool_results", .list [])] final ∧ Advanced E s s' final := by
    unfold workerFailed at hrun
    split at hrun
    · obtain ⟨-, hrun⟩ := runs_ret.1 hrun
      cases hrun
    · rename_i fallback hfallback
      have hstate := eq_toolDiscovery_of_degradable hfallback
      obtain rfl : [("tool_results", .list [])] = fallback := by
        rw [hstate] at hfallback
        exact Option.some.inj hfallback
      obtain ⟨final, hfloor, hnext, henv, hresults⟩ := accept_next hrun hafter hkind
      exact ⟨hstate, final, hfloor, hnext, henv, hresults⟩
  match answer with
  | .ok outputs =>
    have hmem := List.mem_append_left after (answer_mem hcall)
    obtain ⟨final, hfloor, hnext, henv, hresults⟩ := accept_next h hafter hkind
    exact ⟨outputs, final, hlaw _ hmem, fun _ => ⟨_, hmem⟩, hfloor, hnext, henv, hresults⟩
  | .error (.other exc) =>
    obtain ⟨-, h⟩ := runs_ret.1 h
    cases h
  | .error (.rateLimit msg) | .error (.contextOverflow msg) =>
    obtain ⟨hstate, final, hfloor, hadvanced⟩ := hfailed h
    exact ⟨_, final, hstate ▸ workerOutputs_fallback hfallback, fun hne => absurd hstate hne,
      hfloor, hadvanced⟩

/-! ### Ends -/

/-- A step that ends the run does so with an exception or a fault. -/
def EndsFaulted : StepResult → Prop
  | .next _ => True
  | .done outcome => ∀ r, outcome = .ok r → r.faulted = true

theorem endsFaulted_error (exc : Exc) : EndsFaulted (.done (.error exc)) := by
  intro r hr
  cases hr

theorem endsFaulted_faulted (stats : RunnerStats) (fault : String) :
    EndsFaulted (.done (faulted stats fault)) := by
  intro r hr
  obtain rfl := Except.ok.inj hr
  rfl

theorem advance_ends {s : RunState} {outputs : Dict} {trace : RunTrace} {res : StepResult}
    (h : Runs (advanceStep s outputs) trace res) : EndsFaulted res := by
  rw [advanceStep, perform_bind, runs_vis] at h
  obtain ⟨reply, rest, rfl, h⟩ := h
  cases reply <;> obtain ⟨-, rfl⟩ := runs_ret.1 h
  · exact endsFaulted_faulted _ _
  · trivial
  · trivial
  · trivial

theorem accept_ends {s : RunState} {inputs outputs : Dict} {trace : RunTrace} {res : StepResult}
    (h : Runs (acceptOutputs rt s inputs outputs) trace res) : EndsFaulted res := by
  unfold acceptOutputs at h
  split at h
  · obtain ⟨-, rfl⟩ := runs_ret.1 h
    exact endsFaulted_error _
  · split at h
    · obtain ⟨-, rfl⟩ := runs_ret.1 h
      exact endsFaulted_error _
    · exact advance_ends h
    · exact advance_ends h

theorem record_ends {s : RunState} {outputs : Dict} {trace : RunTrace} {res : StepResult}
    (h : Runs (recordIteration s outputs) trace res) : EndsFaulted res := by
  unfold recordIteration at h
  split at h
  · obtain ⟨-, rfl⟩ := runs_ret.1 h
    exact endsFaulted_error _
  · exact advance_ends h

theorem loop_ends {s : RunState} {trace : RunTrace} {res : StepResult}
    (h : Runs (loopStep s) trace res) : EndsFaulted res := by
  unfold loopStep at h
  split at h
  · rw [perform_bind, runs_vis] at h
    obtain ⟨⟨reply, outputs⟩, rest, rfl, h⟩ := h
    simp only at h
    split at h
    · obtain ⟨-, rfl⟩ := runs_ret.1 h
      exact endsFaulted_error _
    · exact record_ends h
  · rw [runs_bind] at h
    obtain ⟨before, reply, after, -, -, h⟩ := h
    split at h
    · obtain ⟨-, rfl⟩ := runs_ret.1 h
      exact endsFaulted_error _
    · exact record_ends h

theorem worker_ends {s : RunState} {trace : RunTrace} {res : StepResult}
    (h : Runs (workerStep rt maxRetries s) trace res) : EndsFaulted res := by
  rw [workerStep, runs_bind] at h
  obtain ⟨before, ⟨stats, answer⟩, after, rfl, -, h⟩ := h
  have hfailed {cls msg : String}
      (hrun : Runs (workerFailed rt { s with stats } (inputsOf s.stateId s.env) cls msg) after
        res) : EndsFaulted res := by
    unfold workerFailed at hrun
    split at hrun
    · obtain ⟨-, rfl⟩ := runs_ret.1 hrun
      exact endsFaulted_faulted _ _
    · exact accept_ends hrun
  match answer with
  | .ok outputs => exact accept_ends h
  | .error (.other exc) =>
    obtain ⟨-, rfl⟩ := runs_ret.1 h
    exact endsFaulted_error _
  | .error (.rateLimit msg) | .error (.contextOverflow msg) => exact hfailed h

/-- **Before `terminal`, a step ends the run only with an exception or a fault.** -/
theorem step_ends {s : RunState} {trace : RunTrace} {res : StepResult}
    (hkind : s.stateId.kind ≠ .terminal) (h : Runs (reviewStep rt maxRetries s) trace res) :
    EndsFaulted res := by
  unfold reviewStep at h
  split at h
  · rename_i hterminal
    exact absurd hterminal hkind
  · obtain ⟨measured, ⟨reason, detail, -, rfl⟩ | ⟨outputs, rest, -, h⟩⟩ := runs_inlineStep h
    · exact endsFaulted_faulted _ _
    · exact advance_ends h
  · exact loop_ends h
  · exact worker_ends h

/-! ### Handlers -/

/-- The effect is no call of a handler. -/
def NotInline : RunEffect → Prop
  | .inline .. => False
  | _ => True

theorem performs_advance (s : RunState) (outputs : Dict) :
    Performs NotInline (advanceStep s outputs) :=
  .vis trivial fun reply => by cases reply <;> exact .ret _

theorem performs_accept (s : RunState) (inputs outputs : Dict) :
    Performs NotInline (acceptOutputs rt s inputs outputs) := by
  unfold acceptOutputs
  split
  · exact .ret _
  · split
    · exact .ret _
    · exact performs_advance ..
    · exact performs_advance ..

theorem performs_record (s : RunState) (outputs : Dict) :
    Performs NotInline (recordIteration s outputs) := by
  unfold recordIteration
  split
  · exact .ret _
  · exact performs_advance ..

theorem performs_pauseWorker {attempt : ℕ} {stats : RunnerStats}
    {next : Driver (RunnerStats × Except WorkerError Dict)} (h : Performs NotInline next) :
    Performs NotInline (pauseWorker attempt stats next) := by
  unfold pauseWorker
  split
  · exact .ret _
  · exact .vis trivial fun _ => h

theorem performs_callWorker (state : StateId) (inputs : Dict) (left : ℕ) (stats : RunnerStats) :
    Performs NotInline (callWorker maxRetries state inputs left stats) := by
  induction left generalizing stats with
  | zero => exact .vis trivial fun answer => by cases answer <;> exact .ret _
  | succ left ih =>
    refine .vis trivial ?_
    intro answer
    match answer with
    | .ok outputs | .error (.other exc) => exact .ret _
    | .error (.rateLimit msg) | .error (.contextOverflow msg) => exact performs_pauseWorker (ih _)

theorem performs_loop (s : RunState) : Performs NotInline (loopStep s) := by
  unfold loopStep
  split
  · refine .bind (.vis trivial fun _ => .ret _) ?_
    rintro ⟨reply, outputs⟩
    simp only
    split
    · exact .ret _
    · exact performs_record ..
  · refine .bind ?_ fun reply => ?_
    · unfold unitReply
      split
      · exact .vis trivial fun _ => .ret _
      · exact .ret _
    · split
      · exact .ret _
      · exact performs_record ..

theorem performs_worker (s : RunState) : Performs NotInline (workerStep rt maxRetries s) := by
  have hfailed (s : RunState) (inputs : Dict) (cls msg : String) :
      Performs NotInline (workerFailed rt s inputs cls msg) := by
    unfold workerFailed
    split
    · exact .ret _
    · exact performs_accept ..
  refine .bind (performs_callWorker ..) ?_
  intro reply
  match reply with
  | (stats, .ok outputs) => exact performs_accept ..
  | (stats, .error (.other exc)) => exact .ret _
  | (stats, .error (.rateLimit msg)) | (stats, .error (.contextOverflow msg)) => exact hfailed ..

/-- **A step runs the handler of its own state, at its start, and no other.** -/
theorem inline_mem {s : RunState} {trace : RunTrace} {res : StepResult} {state : StateId}
    {env : Dict} {reply : InlineReply} (h : Runs (reviewStep rt maxRetries s) trace res)
    (hmem : (⟨.inline state env, reply⟩ : Event RunEffect RunReply) ∈ trace) :
    state = s.stateId ∧ ∃ measured rest, trace = ⟨.clock, measured⟩ ::
      ⟨.inline s.stateId (s.timed measured).env, reply⟩ :: rest := by
  unfold reviewStep at h
  split at h
  · obtain ⟨rfl, -⟩ := runs_ret.1 h
    cases hmem
  · obtain ⟨measured, ⟨reason, detail, rfl, -⟩ | ⟨outputs, rest, rfl, hadvance⟩⟩ :=
      runs_inlineStep h
    · rcases List.mem_cons.1 hmem with heq | hlater
      · cases heq
      · cases List.mem_singleton.1 hlater
        exact ⟨rfl, measured, [], rfl⟩
    · rcases List.mem_cons.1 hmem with heq | hlater
      · cases heq
      · rcases List.mem_cons.1 hlater with heq | hlater
        · cases heq
          exact ⟨rfl, measured, rest, rfl⟩
        · exact absurd ((performs_advance _ outputs).of_mem hadvance _ hlater) id
  · exact absurd ((performs_loop s).of_mem h _ hmem) id
  · exact absurd ((performs_worker s).of_mem h _ hmem) id

end CodeReview
