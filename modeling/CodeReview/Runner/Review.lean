import CodeReview.Runner.Floor
import CodeReview.Runner.StageTimings

/-!
# Driving a review

`run_review` drives the state machine from its entry to `terminal`.  It is a process: the worker
hook, the engine (`execute_inline`, `advance`), the pool and the clock answer its effects.

* `runs_review` : a run of the driver is a sequence of runs of its steps;
* the steps are `inlineStep`, `loopStep` and `workerStep`, by the kind of the state;
* `runs_callWorker` : a worker call ends with an answer of the hook, or its back-off raises.
-/

namespace CodeReview

open Py Proc

/-! ### Effects -/

/-- What the worker hook can raise. -/
inductive WorkerError where
  | rateLimit (msg : String)
  | contextOverflow (msg : String)
  | other (exc : Exc)
  deriving DecidableEq, Repr

/-- `execute_inline`: the handler's outputs, or a fault. -/
inductive InlineReply where
  | ok (outputs : Dict)
  | fault (reason detail : String)

/-- `advance`. -/
inductive AdvanceReply where
  | fault (reason errors : String)
  | loopContinue (iterationN : ℕ)
  | terminal
  | next (state : Option StateId)

/-- What the pool leaves: the counters, and the results or the exception that a unit raised. -/
structure PoolReply where
  stats : RunnerStats
  results : Result ResultMap

/-- What is measured by now: the time since the start, and the rows of `_record_stage`. -/
structure ClockReading where
  wholeReviewMs : ℕ
  stageTimings : List StageTiming

/-- What the driver does that others can see. -/
inductive RunEffect where
  /-- `dispatch_worker(state_id, inputs)`. -/
  | worker (state : StateId) (inputs : Dict)
  /-- `sleep(base_backoff * 2 ** exponent)`. -/
  | sleep (exponent : ℕ)
  /-- `time.perf_counter()`. -/
  | clock
  | inline (state : StateId) (env : Dict)
  | advance (state : StateId) (iterationN : Option ℕ) (env outputs : Dict)
  /-- `_dispatch_units`. -/
  | dispatch (stats : RunnerStats) (units : List PlanUnit)
  /-- The loop branch on batches that are not of the planner's form. -/
  | foreignBatches (env : Dict)

/-- The answers. -/
abbrev RunReply : RunEffect → Type
  | .worker .. => Except WorkerError Dict
  | .sleep _ => Unit
  | .clock => ClockReading
  | .inline .. => InlineReply
  | .advance .. => AdvanceReply
  | .dispatch .. => PoolReply
  | .foreignBatches _ => PoolReply × Dict

/-- A piece of the driver. -/
abbrev Driver (α : Type) := Proc RunEffect RunReply α

/-! ### State and result -/

/-- `RunResult`. -/
structure RunResult where
  verdict : Value := .none
  runDirPath : Value := .none
  findings : Value := .list []
  stats : RunnerStats
  faulted : Bool := false
  fault : Option String := none

/-- A review returns a result, or an exception escapes from it. -/
abbrev Outcome := Result RunResult

/-- A faulted result. -/
def faulted (stats : RunnerStats) (fault : String) : Outcome :=
  .ok { stats, faulted := true, fault := some fault }

/-- The variables of the driver's loop. -/
structure RunState where
  env : Dict
  stateId : StateId
  iterationN : Option ℕ
  unitResults : ResultMap
  stats : RunnerStats

/-- The state before the first step. -/
def RunState.start (args : Dict) : RunState where
  env := [("args", .dict args), ("loop_iters", .list [])]
  stateId := .scanProject
  iterationN := none
  unitResults := OrdMap.empty
  stats := {}

/-- A step leads to another state or ends the run. -/
inductive StepResult where
  | next (s : RunState)
  | done (outcome : Outcome)

/-! ### Workers -/

/-- The counter that a worker's failure bumps. -/
def WorkerError.count (stats : RunnerStats) : WorkerError → RunnerStats
  | rateLimit _ => stats.bump .rateLimitEvents
  | contextOverflow _ => stats.bump .overflowSplits
  | other _ => stats

/-- `sleep(base_backoff * (2 ** attempt))` and what follows; the product raises when the power has
no float. -/
def pauseWorker (attempt : ℕ) (stats : RunnerStats)
    (next : Driver (RunnerStats × Except WorkerError Dict)) :
    Driver (RunnerStats × Except WorkerError Dict) :=
  match Double.ofInt (2 ^ attempt) with
  | .error exc => return (stats, .error (.other exc))
  | .ok _ => do
    perform (RunEffect.sleep attempt)
    next

/-- `_call_worker_resilient` with `left` retries to go, out of `maxRetries`. -/
def callWorker (maxRetries : ℕ) (state : StateId) (inputs : Dict) :
    ℕ → RunnerStats → Driver (RunnerStats × Except WorkerError Dict)
  | 0, stats => do
    match ← perform (RunEffect.worker state inputs) with
    | .ok outputs => return (stats, .ok outputs)
    | .error e => return (e.count stats, .error e)
  | left + 1, stats => do
    match ← perform (RunEffect.worker state inputs) with
    | .ok outputs => return (stats, .ok outputs)
    | .error (.other exc) => return (stats, .error (.other exc))
    | .error e =>
      pauseWorker (maxRetries - (left + 1)) (e.count stats)
        (callWorker maxRetries state inputs left (e.count stats))

/-- `_DEGRADABLE_WORKERS`. -/
def degradableWorkers : StateId → Option Dict
  | .toolDiscovery => some [("tool_results", .list [])]
  | _ => none

theorem eq_toolDiscovery_of_degradable {state : StateId} {fallback : Dict}
    (h : degradableWorkers state = some fallback) : state = .toolDiscovery := by
  cases state <;> first | rfl | cases h

/-- The inputs of a worker: `{k: env.get(k) for k in st.worker.inputs}`. -/
def inputsOf (state : StateId) (env : Dict) : Dict := state.workerInputs.map fun k => (k, env.get k)

/-! ### Reading the plan -/

/-- A natural number. -/
def readNat : Value → Option ℕ
  | .int n => if 0 ≤ n then some n.toNat else none
  | _ => none

/-- A list of strings. -/
def readStrs : Value → Option (List String)
  | .list xs => xs.mapM Value.asStr?
  | _ => none

/-- A unit of the planner's form. -/
def readUnit (v : Value) : Option PlanUnit := do
  let u ← v.asDict?
  return ⟨← (u.get "leaf_id").asStr?, ← readNat (u.get "sub_index"), ← readNat (u.get "total_subs"),
    ← readStrs (u.get "files")⟩

/-- A batch of the planner's form. -/
def readBatch (v : Value) : Option (List PlanUnit) := do
  let batch ← v.asDict?
  let units ← (batch.get "units").asList?
  units.mapM readUnit

/-- `env.get("specialist_batches") or []`, where it is of the planner's form. -/
def readPlan (v : Value) : Option (List (List PlanUnit)) := do
  let batches ← (v.or (.list [])).asList?
  batches.mapM readBatch

/-- Reading back a list of written elements. -/
theorem mapM_write {α β : Type} {write : α → β} {read : β → Option α}
    (h : ∀ a, read (write a) = some a) (xs : List α) : (xs.map write).mapM read = some xs := by
  induction xs with
  | nil => rfl
  | cons a xs ih => simp [h, ih]

theorem readUnit_toDict (u : PlanUnit) : readUnit (.dict u.toDict) = some u := by
  have hstr (s : String) : (Value.str s).asStr? = some s := rfl
  have hfiles : readStrs (ofStrs u.files) = some u.files := mapM_write hstr u.files
  have hnat (n : ℕ) : readNat (.int n) = some n := by simp [readNat]
  have hread : readUnit (.dict u.toDict) = (do
      return ⟨u.leafId, ← readNat (.int u.subIndex), ← readNat (.int u.totalSubs),
        ← readStrs (ofStrs u.files)⟩) := rfl
  rw [hread, hnat, hnat, hfiles]
  rfl

/-- **The driver reads back the plan that the planner wrote.** -/
theorem readPlan_batchesToValue {batches : List (List PlanUnit)} (h : batches ≠ []) :
    readPlan (batchesToValue batches) = some batches := by
  have hbatch (b : List PlanUnit × ℕ) :
      readBatch (.dict (batchToDict (b.2 + 1) b.1)) = some b.1 :=
    mapM_write readUnit_toDict b.1
  have htruthy : (batchesToValue batches).truthy = true := by
    cases batches with
    | nil => exact absurd rfl h
    | cons batch rest => rfl
  have hmap (xs : List (List PlanUnit × ℕ)) :
      (xs.map fun b => Value.dict (batchToDict (b.2 + 1) b.1)).mapM readBatch =
        some (xs.map Prod.fst) := by
    induction xs with
    | nil => rfl
    | cons b xs ih => simp [hbatch, ih]
  rw [readPlan, Value.or_of_truthy _ htruthy]
  exact (hmap batches.zipIdx).trans (congrArg some (List.zipIdx_map_fst 0 batches))

/-! ### The steps -/

section

variable (rt : Runtime) (maxRetries : ℕ)

/-- Hand the outputs to the engine and follow it. -/
def advanceStep (s : RunState) (outputs : Dict) : Driver StepResult := do
  let env := Assoc.update s.env outputs
  match ← perform (RunEffect.advance s.stateId s.iterationN s.env outputs) with
  | .fault reason errors => return .done (faulted s.stats ("advance:" ++ reason ++ ":" ++ errors))
  | .loopContinue n => return .next { s with env, iterationN := some n }
  | .terminal => return .next { s with env, stateId := .terminal }
  | .next state => return .next { s with env, stateId := state.getD .terminal, iterationN := none }

/-- `_timings_artifact(stats, unit_results, run_t0)`. -/
def RunState.timings (s : RunState) (measured : ClockReading) : Dict :=
  timingsArtifact s.stats measured.stageTimings measured.wholeReviewMs s.unitResults

/-- `env["timings"] = ...`. -/
def RunState.timed (s : RunState) (measured : ClockReading) : RunState :=
  { s with env := Assoc.set s.env "timings" (.dict (s.timings measured)) }

/-- Only the timings change. -/
theorem RunState.get?_timed {s : RunState} {measured : ClockReading} {k : String}
    (h : k ≠ "timings") : Assoc.get? (s.timed measured).env k = Assoc.get? s.env k := by
  rw [timed, Assoc.get?_set, if_neg h.symm]

theorem RunState.get_timed {s : RunState} {measured : ClockReading} {k : String}
    (h : k ≠ "timings") : (s.timed measured).env.get k = s.env.get k := by
  rw [Dict.get, get?_timed h]
  rfl

/-- An inline state. -/
def inlineStep (s : RunState) : Driver StepResult := do
  let s := s.timed (← perform RunEffect.clock)
  match ← perform (RunEffect.inline s.stateId s.env) with
  | .fault reason detail =>
    return .done (faulted s.stats ("inline:" ++ s.stateId.text ++ ":" ++ reason ++ ":" ++ detail))
  | .ok outputs => advanceStep s outputs

/-- `env["loop_iters"].append(outputs)`. -/
def appendIter (env outputs : Dict) : Result Dict :=
  match Assoc.get? env "loop_iters" with
  | some (.list xs) => .ok (Assoc.set env "loop_iters" (.list (xs ++ [.dict outputs])))
  | some _ => .error .attributeError
  | none => .error .keyError

/-- The end of the loop branch: record the outputs, and advance. -/
def recordIteration (s : RunState) (outputs : Dict) : Driver StepResult :=
  match appendIter s.env outputs with
  | .error exc => return .done (.error exc)
  | .ok env => advanceStep { s with env } outputs

/-- The results of the units: dispatched in the first iteration, at hand in the later ones. -/
def unitReply (s : RunState) (plan : List (List PlanUnit)) : Driver PoolReply :=
  if s.unitResults.entries = [] then perform (RunEffect.dispatch s.stats plan.flatten)
  else return ⟨s.stats, .ok s.unitResults⟩

/-- The loop state. -/
def loopStep (s : RunState) : Driver StepResult := do
  match readPlan (s.env.get "specialist_batches") with
  | none =>
    let (reply, outputs) ← perform (RunEffect.foreignBatches s.env)
    match reply.results with
    | .error exc => return .done (.error exc)
    | .ok m => recordIteration { s with unitResults := m, stats := reply.stats } outputs
  | some plan =>
    let reply ← unitReply s plan
    match reply.results with
    | .error exc => return .done (.error exc)
    | .ok m =>
      -- `iteration_n or 1`
      let batchIndex := if s.iterationN.getD 1 = 0 then 1 else s.iterationN.getD 1
      recordIteration { s with unitResults := m, stats := reply.stats }
        (loopOutputs s.env plan m batchIndex)

/-- `stats.coverage_floor_used += 1`. -/
def RunnerStats.useFloor (stats : RunnerStats) : RunnerStats :=
  { stats with coverageFloorUsed := stats.coverageFloorUsed + 1 }

/-- `stats.degraded_workers += 1`. -/
def RunnerStats.degrade (stats : RunnerStats) : RunnerStats :=
  { stats with degradedWorkers := stats.degradedWorkers + 1 }

/-- The part of the worker branch after the worker's outputs are there. -/
def acceptOutputs (s : RunState) (inputs outputs : Dict) : Driver StepResult :=
  match (accumulateCost outputs).2 with
  | some exc => return .done (.error exc)
  | none =>
    let stats := (accumulateCost outputs).1.foldl RunnerStats.add s.stats
    match coverageFloor rt s.stateId inputs outputs s.env with
    | .error exc => return .done (.error exc)
    | .ok none => advanceStep { s with stats } outputs
    | .ok (some repaired) => advanceStep { s with stats := stats.useFloor } repaired

/-- The class and the text of a failure that the driver catches. -/
def workerFault (state : StateId) (cls msg : String) : String :=
  "worker:" ++ state.text ++ ":" ++ cls ++ ":" ++ msg

/-- A failure that the driver catches: a degradable worker falls back, another one faults. -/
def workerFailed (s : RunState) (inputs : Dict) (cls msg : String) : Driver StepResult :=
  match degradableWorkers s.stateId with
  | none => return .done (faulted s.stats (workerFault s.stateId cls msg))
  | some fallback => acceptOutputs rt { s with stats := s.stats.degrade } inputs fallback

/-- A worker state. -/
def workerStep (s : RunState) : Driver StepResult := do
  let inputs := inputsOf s.stateId s.env
  let (stats, answer) ← callWorker maxRetries s.stateId inputs maxRetries s.stats
  let s := { s with stats }
  match answer with
  | .ok outputs => acceptOutputs rt s inputs outputs
  | .error (.rateLimit msg) => workerFailed rt s inputs "RateLimitError" msg
  | .error (.contextOverflow msg) => workerFailed rt s inputs "ContextOverflowError" msg
  | .error (.other exc) => return .done (.error exc)

/-- The result at the end. -/
def terminalResult (s : RunState) : RunResult where
  verdict := s.env.get "verdict"
  runDirPath := s.env.get "run_dir_path"
  findings := s.env.getD "findings" (.list [])
  stats := s.stats

/-- One round of the loop. -/
def reviewStep (s : RunState) : Driver StepResult :=
  match s.stateId.kind with
  | .terminal => return .done (.ok (terminalResult s))
  | .inline => inlineStep s
  | .loop => loopStep s
  | .worker => workerStep rt maxRetries s

/-- The loop, with a number of rounds to go. -/
def review : ℕ → RunState → Driver Outcome
  | 0, s => return faulted s.stats "max_steps_exceeded"
  | rounds + 1, s => do
    match ← reviewStep rt maxRetries s with
    | .next s' => review rounds s'
    | .done outcome => return outcome

/-- `_MAX_STEPS`. -/
def maxSteps : ℕ := 512

/-- `run_review`; a negative `max_retries` allows no retry. -/
def runReview (maxRetries : ℤ) (args : Dict) : Driver Outcome :=
  review rt maxRetries.toNat maxSteps (.start args)

end

/-! ### Runs -/

/-- The visible steps of the driver. -/
abbrev RunTrace := List (Event RunEffect RunReply)

variable {rt : Runtime} {maxRetries : ℕ}

/-- The worker hook failed in a way that is retried. -/
def IsWorkerFailure : Event RunEffect RunReply → Bool
  | ⟨.worker .., .error (.rateLimit _)⟩ => true
  | ⟨.worker .., .error (.contextOverflow _)⟩ => true
  | _ => false

/-- The number of these failures. -/
def workerFailures (trace : RunTrace) : ℕ := trace.countP IsWorkerFailure

theorem workerFailures_failed {ev : Event RunEffect RunReply} (h : IsWorkerFailure ev = true)
    (trace : RunTrace) : workerFailures (ev :: trace) = workerFailures trace + 1 :=
  List.countP_cons_of_pos h

theorem workerFailures_sleep (attempt : ℕ) (trace : RunTrace) :
    workerFailures (⟨.sleep attempt, ()⟩ :: trace) = workerFailures trace :=
  List.countP_cons_of_neg (by simp [IsWorkerFailure])

theorem workerFailures_append (before after : RunTrace) :
    workerFailures (before ++ after) = workerFailures before + workerFailures after :=
  List.countP_append

/-- No back-off raises: there are not as many retries, or the hook does not fail as often. -/
def BackOffs (maxRetries : ℕ) (trace : RunTrace) : Prop :=
  maxRetries ≤ Double.maxExponent ∨ workerFailures trace ≤ Double.maxExponent

theorem runs_pauseWorker {attempt : ℕ} {stats : RunnerStats}
    {next : Driver (RunnerStats × Except WorkerError Dict)} {trace : RunTrace}
    {res : RunnerStats × Except WorkerError Dict}
    (h : Runs (pauseWorker attempt stats next) trace res) :
    (∃ rest, trace = ⟨.sleep attempt, ()⟩ :: rest ∧ Runs next rest res) ∨
      (trace = [] ∧ Double.maxExponent ≤ attempt ∧ res.2 = .error (.other .overflowError)) := by
  unfold pauseWorker at h
  rcases Nat.lt_or_ge attempt Double.maxExponent with hlt | hge
  · simp only [Double.ofInt_two_pow hlt, perform_bind, runs_vis] at h
    obtain ⟨_, rest, rfl, h⟩ := h
    exact .inl ⟨rest, rfl, h⟩
  · simp only [Double.ofInt_two_pow_of_le hge, pure_eq_ret, runs_ret] at h
    obtain ⟨rfl, rfl⟩ := h
    exact .inr ⟨rfl, hge, rfl⟩

/-- A worker call ends with an answer of the hook, or a back-off raises. -/
theorem runs_callWorker {state : StateId} {inputs : Dict} {left : ℕ} {stats : RunnerStats}
    {trace : RunTrace} {res : RunnerStats × Except WorkerError Dict}
    (h : Runs (callWorker maxRetries state inputs left stats) trace res) :
    (⟨.worker state inputs, res.2⟩ : Event RunEffect RunReply) ∈ trace ∨
      (res.2 = .error (.other .overflowError) ∧ Double.maxExponent < maxRetries ∧
        Double.maxExponent < maxRetries - left + workerFailures trace) := by
  induction left generalizing stats trace with
  | zero =>
    rw [callWorker, perform_bind, runs_vis] at h
    obtain ⟨answer, rest, rfl, h⟩ := h
    cases answer <;> obtain ⟨-, rfl⟩ := runs_ret.1 h <;> exact .inl List.mem_cons_self
  | succ left ih =>
    rw [callWorker, perform_bind, runs_vis] at h
    obtain ⟨answer, rest, rfl, h⟩ := h
    match answer with
    | .ok outputs | .error (.other exc) =>
      obtain ⟨-, rfl⟩ := runs_ret.1 h
      exact .inl List.mem_cons_self
    | .error (.rateLimit msg) | .error (.contextOverflow msg) =>
      obtain ⟨later, rfl, hrun⟩ | ⟨rfl, hge, hres⟩ := runs_pauseWorker h
      · rcases ih hrun with hmem | ⟨hres, hretries, hfailures⟩
        · exact .inl (List.mem_cons_of_mem _ (List.mem_cons_of_mem _ hmem))
        · refine .inr ⟨hres, hretries, hfailures.trans_le ?_⟩
          rw [workerFailures_failed rfl, workerFailures_sleep]
          omega
      · have hpos : 0 < Double.maxExponent := by decide
        refine .inr ⟨hres, by omega, ?_⟩
        rw [workerFailures_failed rfl]
        omega

/-- A worker call that ends with outputs ends with an answer of the hook. -/
theorem answer_mem {state : StateId} {inputs : Dict} {left : ℕ} {stats stats' : RunnerStats}
    {trace : RunTrace} {outputs : Dict}
    (h : Runs (callWorker maxRetries state inputs left stats) trace (stats', .ok outputs)) :
    (⟨.worker state inputs, .ok outputs⟩ : Event RunEffect RunReply) ∈ trace := by
  rcases runs_callWorker h with hmem | ⟨hover, -⟩
  · exact hmem
  · cases hover

/-- Where no back-off raises, every worker call ends with an answer of the hook. -/
theorem answer_mem_of_backOffs {state : StateId} {inputs : Dict} {stats : RunnerStats}
    {trace : RunTrace} {res : RunnerStats × Except WorkerError Dict}
    (h : Runs (callWorker maxRetries state inputs maxRetries stats) trace res)
    (hback : BackOffs maxRetries trace) :
    (⟨.worker state inputs, res.2⟩ : Event RunEffect RunReply) ∈ trace := by
  refine (runs_callWorker h).resolve_right ?_
  rintro ⟨-, hretries, hfailures⟩
  rw [Nat.sub_self, Nat.zero_add] at hfailures
  exact hback.elim hretries.not_ge hfailures.not_ge

/-- An inline step reads the clock and runs its handler; it ends with the handler's fault, or hands
the outputs to the engine. -/
theorem runs_inlineStep {s : RunState} {trace : RunTrace} {res : StepResult}
    (h : Runs (inlineStep s) trace res) :
    ∃ measured,
      (∃ reason detail, trace = [⟨.clock, measured⟩,
          ⟨.inline s.stateId (s.timed measured).env, .fault reason detail⟩] ∧
        res = .done (faulted s.stats
          ("inline:" ++ s.stateId.text ++ ":" ++ reason ++ ":" ++ detail))) ∨
      ∃ outputs rest, trace = ⟨.clock, measured⟩ ::
          ⟨.inline s.stateId (s.timed measured).env, .ok outputs⟩ :: rest ∧
        Runs (advanceStep (s.timed measured) outputs) rest res := by
  rw [inlineStep, perform_bind, runs_vis] at h
  simp only [perform_bind, runs_vis] at h
  obtain ⟨measured, _, rfl, reply, rest, rfl, h⟩ := h
  cases reply with
  | fault reason detail =>
    obtain ⟨rfl, rfl⟩ := runs_ret.1 h
    exact ⟨measured, .inl ⟨reason, detail, rfl, rfl⟩⟩
  | ok outputs => exact ⟨measured, .inr ⟨outputs, rest, rfl, h⟩⟩

/-- The rounds of a run: the state before each, and what was done in it. -/
inductive Rounds (rt : Runtime) (maxRetries : ℕ) :
    ℕ → RunState → List (RunState × RunTrace) → Outcome → Prop where
  | exhausted (s : RunState) : Rounds rt maxRetries 0 s [] (faulted s.stats "max_steps_exceeded")
  | done {rounds : ℕ} {s : RunState} {trace : RunTrace} {outcome : Outcome}
      (hstep : Runs (reviewStep rt maxRetries s) trace (.done outcome)) :
      Rounds rt maxRetries (rounds + 1) s [(s, trace)] outcome
  | next {rounds : ℕ} {s s' : RunState} {trace : RunTrace} {steps : List (RunState × RunTrace)}
      {outcome : Outcome} (hstep : Runs (reviewStep rt maxRetries s) trace (.next s'))
      (hrest : Rounds rt maxRetries rounds s' steps outcome) :
      Rounds rt maxRetries (rounds + 1) s ((s, trace) :: steps) outcome

/-- **A run of the driver is a sequence of runs of its steps.** -/
theorem runs_review {rounds : ℕ} {s : RunState} {trace : RunTrace} {outcome : Outcome} :
    Runs (review rt maxRetries rounds s) trace outcome ↔
      ∃ steps, Rounds rt maxRetries rounds s steps outcome ∧ trace = steps.flatMap Prod.snd := by
  induction rounds generalizing s trace with
  | zero =>
    rw [review, pure_eq_ret, runs_ret]
    constructor
    · rintro ⟨rfl, rfl⟩
      exact ⟨[], .exhausted s, rfl⟩
    · rintro ⟨steps, h, rfl⟩
      cases h
      exact ⟨rfl, rfl⟩
  | succ rounds ih =>
    -- a round more is a step before the other rounds, unless the step ends the run
    rw [review, runs_bind]
    constructor
    · rintro ⟨before, res, after, rfl, hstep, h⟩
      cases res with
      | next s' =>
        obtain ⟨steps, hsteps, rfl⟩ := ih.1 h
        exact ⟨_, .next hstep hsteps, rfl⟩
      | done outcome' =>
        simp only [pure_eq_ret, runs_ret] at h
        obtain ⟨rfl, rfl⟩ := h
        exact ⟨_, .done hstep, by simp⟩
    · rintro ⟨steps, h, rfl⟩
      cases h with
      | done hstep => exact ⟨_, _, [], by simp, hstep, .ret _⟩
      | next hstep hrest => exact ⟨_, _, _, rfl, hstep, ih.2 ⟨_, hrest, rfl⟩⟩

end CodeReview
