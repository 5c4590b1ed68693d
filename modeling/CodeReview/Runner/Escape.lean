import CodeReview.Runner.Review

/-!
# Exceptions that escape from a review

The driver catches two exception classes, and only from the worker hook.  Any other exception of
the hook escapes, and so does one raised while the driver handles an answer.

* `StepMeets` is the condition on the answers of one step under which nothing is raised, and
  `step_returns` says so;
* `runReview_returns` : **a run whose steps all meet it returns a result**, and a degradable worker
  that keeps failing is answered by its fallback.
-/

namespace CodeReview

open Py Proc DispatchTree

variable {rt : Runtime} {maxRetries : ℕ}

/-- The driver can handle an answer of the worker hook: one of the two exceptions it catches, or
outputs whose stamp can be converted and which the coverage floor can read or need not repair. -/
def HandledAnswer (rt : Runtime) (s : RunState) : Except WorkerError Dict → Prop
  | .ok outputs =>
    StampConvertible outputs ∧
      (s.stateId = .llmTrim → (outputs.get "picked_leaves").truthy = false →
        ∀ leaf leaves, floorSource (inputsOf s.stateId s.env) s.env = .list (leaf :: leaves) →
          FloorReadable rt s.env (leaf :: leaves))
  | .error (.other _) => False
  | .error _ => True

/-- The pool's reply is made of dispatches in which no step raises. -/
def PoolReturns (maxRetries : ℕ) (units : List PlanUnit) (reply : PoolReply) : Prop :=
  ∃ trees : Fin units.length → DispatchTree,
    (∀ i, (trees i).unit = units.get i ∧ (trees i).Valid maxRetries maxRetries ∧
      (trees i).Returns) ∧
    reply.results = collectResults units fun i => (trees i).result

/-- The driver can handle what an effect of the step is answered with. -/
def EventMeets (rt : Runtime) (maxRetries : ℕ) (s : RunState) : Event RunEffect RunReply → Prop
  | ⟨.worker .., answer⟩ => HandledAnswer rt s answer
  | ⟨.dispatch _ units, reply⟩ => PoolReturns maxRetries units reply
  | ⟨.foreignBatches _, (reply, _)⟩ => Result.Ok reply.results
  | _ => True

/-- The condition on a step: the answers can be handled, no back-off raises, and in the loop state
the iterations are still recorded in a list. -/
structure StepMeets (rt : Runtime) (maxRetries : ℕ) (s : RunState) (trace : RunTrace) : Prop where
  answers : ∀ ev ∈ trace, EventMeets rt maxRetries s ev
  backOffs : BackOffs maxRetries trace
  loopIters : s.stateId.kind = .loop → ∃ xs, Assoc.get? s.env "loop_iters" = some (.list xs)

/-- The step raised no exception. -/
def NoEscape : StepResult → Prop
  | .next _ => True
  | .done outcome => Result.Ok outcome

/-! ### Steps -/

theorem advance_returns {s : RunState} {outputs : Dict} {trace : RunTrace} {res : StepResult}
    (h : Runs (advanceStep s outputs) trace res) :
    NoEscape res ∧ ∃ reply, (⟨.advance s.stateId s.iterationN s.env outputs, reply⟩ :
      Event RunEffect RunReply) ∈ trace := by
  rw [advanceStep, perform_bind, runs_vis] at h
  obtain ⟨reply, rest, rfl, h⟩ := h
  refine ⟨?_, reply, List.mem_cons_self⟩
  cases reply <;> obtain ⟨-, rfl⟩ := runs_ret.1 h
  · exact ⟨_, rfl⟩
  · trivial
  · trivial
  · trivial

theorem inline_returns {s : RunState} {trace : RunTrace} {res : StepResult}
    (h : Runs (inlineStep s) trace res) : NoEscape res := by
  obtain ⟨measured, ⟨reason, detail, -, rfl⟩ | ⟨outputs, rest, -, h⟩⟩ := runs_inlineStep h
  · exact ⟨_, rfl⟩
  · exact (advance_returns h).1

theorem record_returns {s : RunState} {outputs : Dict} {trace : RunTrace} {res : StepResult}
    (hiters : ∃ xs, Assoc.get? s.env "loop_iters" = some (.list xs))
    (h : Runs (recordIteration s outputs) trace res) : NoEscape res := by
  obtain ⟨xs, hxs⟩ := hiters
  rw [recordIteration, appendIter, hxs] at h
  exact (advance_returns h).1

theorem loop_returns {s : RunState} {trace : RunTrace} {res : StepResult}
    (hkind : s.stateId.kind = .loop) (hmeets : StepMeets rt maxRetries s trace)
    (h : Runs (loopStep s) trace res) : NoEscape res := by
  have hiters := hmeets.loopIters hkind
  unfold loopStep at h
  cases hplan : readPlan (s.env.get "specialist_batches") with
  | none =>
    simp only [hplan, perform_bind, runs_vis] at h
    obtain ⟨⟨reply, outputs⟩, rest, rfl, h⟩ := h
    obtain ⟨m, hm⟩ : Result.Ok reply.results := hmeets.answers _ List.mem_cons_self
    rw [hm] at h
    exact record_returns (s := { s with unitResults := m, stats := reply.stats }) hiters h
  | some plan =>
    simp only [hplan] at h
    by_cases hempty : s.unitResults.entries = []
    · rw [unitReply, if_pos hempty, perform_bind, runs_vis] at h
      obtain ⟨reply, rest, rfl, h⟩ := h
      obtain ⟨trees, htrees, hresults⟩ := hmeets.answers _ List.mem_cons_self
      -- every unit's dispatch returned, so the results were collected
      obtain ⟨m, hm⟩ := collectResults_ok fun i => (result_ok_iff (trees i)).2 (htrees i).2.2
      rw [hresults, hm] at h
      exact record_returns (s := { s with unitResults := m, stats := reply.stats }) hiters h
    · -- the units were dispatched in an earlier iteration
      rw [unitReply, if_neg hempty, pure_eq_ret, ret_bind] at h
      exact record_returns (s := { s with unitResults := s.unitResults, stats := s.stats }) hiters h

theorem accept_returns {s : RunState} {inputs outputs : Dict} {trace : RunTrace} {res : StepResult}
    (hstamp : StampConvertible outputs)
    (hfloor : Result.Ok (coverageFloor rt s.stateId inputs outputs s.env))
    (h : Runs (acceptOutputs rt s inputs outputs) trace res) : NoEscape res := by
  obtain ⟨repaired, hrepaired⟩ := hfloor
  unfold acceptOutputs at h
  rw [accumulateCost_ok_iff.2 hstamp] at h
  simp only [hrepaired] at h
  cases repaired with
  | none => exact (advance_returns h).1
  | some outputs' => exact (advance_returns h).1

theorem stampConvertible_fallback : StampConvertible [("tool_results", .list [])] := by
  refine ⟨?_, ?_, ?_, ?_⟩ <;> rintro x ⟨⟩

/-- A failure that the driver catches does not escape; a degradable worker falls back. -/
theorem failed_returns {s : RunState} {inputs : Dict} {cls msg : String} {trace : RunTrace}
    {res : StepResult} (h : Runs (workerFailed rt s inputs cls msg) trace res) :
    NoEscape res ∧ ∀ fallback, degradableWorkers s.stateId = some fallback →
      ∃ reply, (⟨.advance s.stateId s.iterationN s.env fallback, reply⟩ :
        Event RunEffect RunReply) ∈ trace := by
  unfold workerFailed at h
  by_cases hstate : s.stateId = .toolDiscovery
  · simp only [hstate, degradableWorkers, acceptOutputs,
      accumulateCost_ok_iff.2 stampConvertible_fallback] at h
    have hadvance := advance_returns h
    refine ⟨hadvance.1, fun fallback hfallback => ?_⟩
    simp only [hstate, degradableWorkers, Option.some.injEq] at hfallback
    subst hfallback
    rw [hstate]
    exact hadvance.2
  · have hnone : degradableWorkers s.stateId = none := by
      cases hs : s.stateId <;> first | rfl | exact absurd hs hstate
    rw [hnone] at h
    obtain ⟨-, rfl⟩ := runs_ret.1 h
    exact ⟨⟨_, rfl⟩, fun fallback hfallback => by simp [hnone] at hfallback⟩

/-- The worker hook failed in a way that the driver catches, whenever it was called. -/
def KeepsFailing (trace : RunTrace) : Prop :=
  ∀ state inputs (answer : Except WorkerError Dict),
    (⟨.worker state inputs, answer⟩ : Event RunEffect RunReply) ∈ trace →
      ∃ e, answer = .error e ∧ ∀ exc, e ≠ .other exc

/-- Less happened, so no back-off raised either. -/
theorem BackOffs.of_append {before after : RunTrace} (h : BackOffs maxRetries (before ++ after)) :
    BackOffs maxRetries before := by
  refine h.imp_right fun hle => ?_
  rw [workerFailures_append] at hle
  exact (Nat.le_add_right _ _).trans hle

/-- A worker step returns when its answers can be handled; a degradable worker that keeps failing
is answered by its fallback. -/
theorem worker_returns {s : RunState} {trace : RunTrace} {res : StepResult}
    (h : Runs (workerStep rt maxRetries s) trace res) :
    (StepMeets rt maxRetries s trace → NoEscape res) ∧
      (KeepsFailing trace → BackOffs maxRetries trace → ∀ fallback,
        degradableWorkers s.stateId = some fallback →
        ∃ reply, (⟨.advance s.stateId s.iterationN s.env fallback, reply⟩ :
          Event RunEffect RunReply) ∈ trace) := by
  rw [workerStep, runs_bind] at h
  obtain ⟨before, ⟨stats, answer⟩, after, rfl, hcall, h⟩ := h
  have hmem (hback : BackOffs maxRetries (before ++ after)) :=
    List.mem_append_left after (answer_mem_of_backOffs hcall hback.of_append)
  match answer with
  | .ok outputs =>
    refine ⟨fun hmeets => ?_, fun hfails hback => ?_⟩
    · obtain ⟨hstamp, hfloor⟩ := hmeets.answers _ (hmem hmeets.backOffs)
      exact accept_returns (s := { s with stats := stats }) hstamp (coverageFloor_ok_iff.2 hfloor) h
    -- a worker that answers has not kept failing
    · obtain ⟨e, he, -⟩ := hfails _ _ _ (hmem hback)
      cases he
  | .error (.other exc) =>
    refine ⟨fun hmeets => absurd (hmeets.answers _ (hmem hmeets.backOffs)) id,
      fun hfails hback => ?_⟩
    obtain ⟨e, he, hother⟩ := hfails _ _ _ (hmem hback)
    exact absurd (Except.error.inj he).symm (hother exc)
  | .error (.rateLimit msg) | .error (.contextOverflow msg) =>
    have hfailed := failed_returns h
    refine ⟨fun _ => hfailed.1, fun _ _ fallback hfallback => ?_⟩
    obtain ⟨reply, hreply⟩ := hfailed.2 fallback hfallback
    exact ⟨reply, List.mem_append_right _ hreply⟩

/-- **A step whose answers can be handled raises nothing.** -/
theorem step_returns {s : RunState} {trace : RunTrace} {res : StepResult}
    (hmeets : StepMeets rt maxRetries s trace)
    (h : Runs (reviewStep rt maxRetries s) trace res) : NoEscape res := by
  unfold reviewStep at h
  cases hkind : s.stateId.kind with
  | terminal =>
    simp only [hkind, pure_eq_ret, runs_ret] at h
    rw [← h.2]
    exact ⟨_, rfl⟩
  | inline => exact inline_returns (by simpa only [hkind] using h)
  | loop => exact loop_returns hkind hmeets (by simpa only [hkind] using h)
  | worker => exact (worker_returns (by simpa only [hkind] using h)).1 hmeets

/-- A run whose steps all meet the condition returns. -/
theorem rounds_returns {rounds : ℕ} {s : RunState} {steps : List (RunState × RunTrace)}
    {outcome : Outcome} (h : Rounds rt maxRetries rounds s steps outcome)
    (hmeets : ∀ st ∈ steps, StepMeets rt maxRetries st.1 st.2) : Result.Ok outcome := by
  induction h with
  | exhausted s => exact ⟨_, rfl⟩
  | done hstep => exact step_returns (hmeets _ List.mem_cons_self) hstep
  | next hstep _ ih => exact ih fun st hst => hmeets st (List.mem_cons_of_mem _ hst)

/-- In every round of a run, a degradable worker that keeps failing is answered by its fallback. -/
theorem rounds_fallback {rounds : ℕ} {s : RunState} {steps : List (RunState × RunTrace)}
    {outcome : Outcome} (h : Rounds rt maxRetries rounds s steps outcome) :
    ∀ st ∈ steps, KeepsFailing st.2 → BackOffs maxRetries st.2 →
      ∀ fallback, degradableWorkers st.1.stateId = some fallback →
      ∃ reply, (⟨.advance st.1.stateId st.1.iterationN st.1.env fallback, reply⟩ :
        Event RunEffect RunReply) ∈ st.2 := by
  have hworker {s : RunState} {trace : RunTrace} {res : StepResult}
      (hstep : Runs (reviewStep rt maxRetries s) trace res) (hfails : KeepsFailing trace)
      (hback : BackOffs maxRetries trace) (fallback : Dict)
      (hfallback : degradableWorkers s.stateId = some fallback) :
      ∃ reply, (⟨.advance s.stateId s.iterationN s.env fallback, reply⟩ :
        Event RunEffect RunReply) ∈ trace := by
    have hkind : s.stateId.kind = .worker := by
      rw [eq_toolDiscovery_of_degradable hfallback]
      rfl
    unfold reviewStep at hstep
    simp only [hkind] at hstep
    exact (worker_returns hstep).2 hfails hback fallback hfallback
  induction h with
  | exhausted s => exact fun st hst => absurd hst List.not_mem_nil
  | done hstep =>
    intro st hst
    obtain rfl := List.mem_singleton.1 hst
    exact hworker hstep
  | next hstep _ ih =>
    intro st hst
    rcases List.mem_cons.1 hst with rfl | hst
    · exact hworker hstep
    · exact ih st hst

/-- **A run whose steps all meet the condition returns a result, and a degradable worker that keeps
failing is answered by its fallback, unless a back-off raises.** -/
theorem runReview_returns {retries : ℤ} {args : Dict} {trace : RunTrace} {outcome : Outcome}
    (h : Runs (runReview rt retries args) trace outcome) :
    ∃ steps, Rounds rt retries.toNat maxSteps (.start args) steps outcome ∧
      trace = steps.flatMap Prod.snd ∧
      ((∀ st ∈ steps, StepMeets rt retries.toNat st.1 st.2) → ∃ r, outcome = .ok r) ∧
      ∀ st ∈ steps, KeepsFailing st.2 → BackOffs retries.toNat st.2 →
        ∀ fallback, degradableWorkers st.1.stateId = some fallback →
          ∃ reply, (⟨.advance st.1.stateId st.1.iterationN st.1.env fallback, reply⟩ :
            Event RunEffect RunReply) ∈ st.2 := by
  obtain ⟨steps, hsteps, htrace⟩ := runs_review.1 h
  exact ⟨steps, hsteps, htrace, rounds_returns hsteps, rounds_fallback hsteps⟩

/-- The answer to each effect of a review in which every worker call is answered by `answer`. -/
def constantWorker (answer : Except WorkerError Dict) : (e : RunEffect) → RunReply e
  | .worker .. => answer
  | .sleep _ => ()
  | .clock => ⟨0, []⟩
  | .inline .. => .ok []
  | .advance .. => .next none
  | .dispatch stats _ => ⟨stats, .ok OrdMap.empty⟩
  | .foreignBatches _ => (⟨{}, .ok OrdMap.empty⟩, [])

/-- A review in which every worker call gets this answer. -/
def constantReview (answer : Except WorkerError Dict) : RunTrace × Outcome :=
  exec (fun _ => constantWorker answer) [] (runReview .ascii 2 [])

theorem constantReview_runs (answer : Except WorkerError Dict) :
    Runs (runReview .ascii 2 []) (constantReview answer).1 (constantReview answer).2 := by
  obtain ⟨trace, htrace, hrun⟩ := exec_runs (fun _ => constantWorker answer) []
    (runReview .ascii 2 [])
  rw [constantReview, htrace]
  exact hrun

theorem runReview_returns_rateLimited :
    ∃ steps, Rounds .ascii 2 maxSteps (.start []) steps
        (constantReview (.error (.rateLimit "429"))).2 ∧
      (constantReview (.error (.rateLimit "429"))).1 = steps.flatMap Prod.snd ∧
      ((∀ st ∈ steps, StepMeets .ascii 2 st.1 st.2) →
        ∃ r, (constantReview (.error (.rateLimit "429"))).2 = .ok r) ∧
      ∀ st ∈ steps, KeepsFailing st.2 → BackOffs 2 st.2 →
        ∀ fallback, degradableWorkers st.1.stateId = some fallback →
          ∃ reply, (⟨.advance st.1.stateId st.1.iterationN st.1.env fallback, reply⟩ :
            Event RunEffect RunReply) ∈ st.2 :=
  runReview_returns (constantReview_runs _)

/-- `claude_run` exits with an error, and the exception that it raises leaves the review. -/
theorem runtimeError_escapes :
    ∃ trace, Runs (runReview .ascii 2 []) trace
      (.error (.user "RuntimeError" "claude exit 1: no credentials")) :=
  ⟨_, constantReview_runs (.error (.other (.user "RuntimeError" "claude exit 1: no credentials")))⟩

end CodeReview
