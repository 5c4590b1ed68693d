import CodeReview.Handlers.LastWins
import CodeReview.Runner.Stamps

/-!
# The dispatch loop

`_dispatch_units` runs `_dispatch_one` for every planned unit, each in a thread of its own, and keys
the results by unit.  The loop state drives one iteration for each batch: the first one dispatches
all units, and each records the outputs of its batch's units.

* `drives_payloads` : all iterations record outputs of one dispatch;
* `plan_dispatch_merge` : **whatever the schedule, the recorded iterations cover the plan**, and the
  merge returns one output for each planned unit.
-/

namespace CodeReview

open Py Proc DispatchTree

/-! ### The pool -/

/-- The results of `_dispatch_units`. -/
abbrev ResultMap := OrdMap UnitKey Dict

/-- What the limiter, the counters and the hook may answer, and how that changes what the threads
share. -/
abbrev Environment (σ : Type) := σ → (e : Effect) → Reply e → σ → Prop

variable {σ : Type} {n : ℕ}

/-- The pool that `_dispatch_units` starts: one thread for each unit. -/
def startPool (shared : σ) (maxRetries : ℤ) (units : List PlanUnit) :
    Pool (Fin units.length) σ Effect Reply (Result Dict) :=
  ⟨shared, fun i => dispatchOne maxRetries units[i]⟩

/-- The schedule `log` runs every thread to its end. -/
def PoolEnds (world : Environment σ) (p : Pool (Fin n) σ Effect Reply (Result Dict))
    (log : List (Fin n × Event Effect Reply)) (results : Fin n → Result Dict) : Prop :=
  ∃ p', Pool.Run (fun s _ => world s) p log p' ∧ ∀ i, p'.procs i = .ret (results i)

/-- `results[key] = fut.result()` for every unit, in order. -/
def collectResults (units : List PlanUnit) (results : Fin units.length → Result Dict) :
    Result ResultMap :=
  (List.finRange units.length).foldlM (fun m i => do return m.set units[i].key (← results i))
    OrdMap.empty

/-- A run of `_dispatch_units`. -/
structure DispatchUnits (world : Environment σ) (shared : σ) (maxRetries : ℤ)
    (units : List PlanUnit) (log : List (Fin units.length × Event Effect Reply))
    (m : Result ResultMap) : Prop where
  ends : ∃ results, PoolEnds world (startPool shared maxRetries units) log results ∧
    m = collectResults units results

/-- The hook returns findings only as arrays. -/
def ListHook (world : Environment σ) : Prop :=
  ∀ s v out s', world s (.call v) (.ok out) s' → ListFindings out

theorem mem_acceptedAnswers {trace : Trace} {out : Dict} (h : out ∈ acceptedAnswers trace) :
    ∃ v, called v (.ok out) ∈ trace := by
  obtain ⟨⟨e, ans⟩, hev, hsome⟩ := List.mem_filterMap.1 h
  split at hsome
  · rename_i v out' heq
    obtain rfl := Option.some.inj hsome
    rw [heq] at hev
    exact ⟨v, hev⟩
  · cases hsome

theorem mem_stepsOf {log : List (Fin n × Event Effect Reply)} {i : Fin n}
    {ev : Event Effect Reply} (h : ev ∈ Pool.stepsOf log i) : (i, ev) ∈ log := by
  obtain ⟨l, hl, hev⟩ := List.mem_filterMap.1 h
  split_ifs at hev with hi
  obtain rfl := Option.some.inj hev
  rwa [← hi]

/-- Each thread of the pool performed a run of `_dispatch_one`, with answers of the hook. -/
theorem runs_of_poolEnds {world : Environment σ} {shared : σ} {maxRetries : ℤ}
    {units : List PlanUnit} {log : List (Fin units.length × Event Effect Reply)}
    {results : Fin units.length → Result Dict} (hhook : ListHook world)
    (h : PoolEnds world (startPool shared maxRetries units) log results) (i : Fin units.length) :
    Runs (dispatchOne maxRetries units[i]) (Pool.stepsOf log i) (results i) ∧
      ∀ out ∈ acceptedAnswers (Pool.stepsOf log i), ListFindings out := by
  obtain ⟨p', hrun, hend⟩ := h
  refine ⟨Pool.project hrun (hend i), ?_⟩
  intro out hout
  obtain ⟨v, hcall⟩ := mem_acceptedAnswers hout
  obtain ⟨s, s', hans⟩ := hrun.admitted _ (mem_stepsOf hcall)
  exact hhook s v out s' hans

/-- Any valid answers can be given, one thread after the other, where nothing shared changes. -/
theorem exists_poolEnds {world : Environment σ} {shared : σ} {maxRetries : ℤ}
    {units : List PlanUnit} (trees : Fin units.length → DispatchTree)
    (hunit : ∀ i, (trees i).unit = units[i])
    (hvalid : ∀ i, (trees i).Valid maxRetries.toNat maxRetries.toNat)
    (hans : ∀ i, ∀ ev ∈ (trees i).traceFrom 0, world shared ev.1 ev.2 shared) :
    ∃ log, PoolEnds world (startPool shared maxRetries units) log fun i => (trees i).result := by
  have hruns : ∀ i ∈ List.finRange units.length, Runs (dispatchOne maxRetries units[i])
      ((trees i).traceFrom 0) (trees i).result :=
    fun i _ => runs_dispatchOne.2 ⟨trees i, hunit i, hvalid i, rfl, rfl⟩
  obtain ⟨log, hrun⟩ : ∃ log, Pool.Run (fun s _ => world s) (startPool shared maxRetries units) log
      ⟨shared, fun i => if i ∈ List.finRange units.length then .ret (trees i).result
        else dispatchOne maxRetries units[i]⟩ :=
    Pool.exists_run_sequential (List.nodup_finRange _) hruns fun i _ => hans i
  exact ⟨log, _, hrun, fun i => if_pos (List.mem_finRange i)⟩

/-- The findings of a result are an array. -/
theorem findings_of_runs {maxRetries : ℤ} {u : PlanUnit} {trace : Trace} {out : Dict}
    (h : Runs (dispatchOne maxRetries u) trace (.ok out))
    (hlist : ∀ out ∈ acceptedAnswers trace, ListFindings out) :
    ∃ v, Assoc.get? out "findings" = some v ∧ IsArray v := by
  obtain ⟨t, -, -, rfl, hres⟩ := runs_dispatchOne.1 h
  rw [acceptedAnswers_traceFrom] at hlist
  cases t with
  | answered u failures answer =>
    obtain ⟨-, rfl⟩ := result_eq_ok_answered.1 hres.symm
    rw [get?_withDefaults, if_pos rfl]
    cases hget : Assoc.get? answer "findings" with
    | none => exact ⟨_, rfl, [], rfl⟩
    | some v => exact ⟨v, rfl, hlist answer (by simp [answers, slices]) v hget⟩
  | gaveUp u failures last =>
    obtain rfl := Except.ok.inj hres
    exact (conforms_failedOutput _ _).findings
  | stranded u failures last => cases hres
  | tooLarge u failures =>
    obtain rfl := Except.ok.inj hres
    exact (conforms_failedOutput _ _).findings
  | split u failures l r =>
    obtain ⟨outL, outR, fl, fr, -, -, -, -, hmerged⟩ := result_eq_ok_split.1 hres.symm
    exact (conforms_mergedOutput hmerged).findings
  | cut u failures exc l => cases hres

theorem collectResults_ok {units : List PlanUnit} {results : Fin units.length → Result Dict}
    (h : ∀ i, Result.Ok (results i)) : Result.Ok (collectResults units results) := by
  have hstep (m : ResultMap) (i : Fin units.length) (_ : i ∈ List.finRange units.length)
      (_ : True) : ∃ m', (do return m.set units[i].key (← results i)) = .ok m' ∧ True := by
    obtain ⟨out, hout⟩ := h i
    exact ⟨m.set units[i].key out, by rw [hout]; rfl, trivial⟩
  obtain ⟨m, hm, -⟩ := Result.foldlM_ok (fun _ => True) (b := OrdMap.empty) trivial hstep
  exact ⟨m, hm⟩

/-- Collecting the results raises exactly when a dispatch did. -/
theorem collectResults_ok_iff {units : List PlanUnit} {results : Fin units.length → Result Dict} :
    Result.Ok (collectResults units results) ↔ ∀ i, Result.Ok (results i) := by
  refine ⟨?_, collectResults_ok⟩
  rintro ⟨m, hm⟩ i
  refine Result.foldlM_induct (fun done (_ : ResultMap) => ∀ i ∈ done, Result.Ok (results i)) hm
    (fun i hi => absurd hi List.not_mem_nil) ?_ i (List.mem_finRange i)
  rintro done m i m' hdone hstep j hj
  obtain ⟨out, hout, -⟩ := Result.bind_eq_ok.1 hstep
  rcases List.mem_append.1 hj with hj | hj
  · exact hdone j hj
  · rw [List.mem_singleton.1 hj]
    exact ⟨out, hout⟩

/-- The collected map has a result for every unit, and only results of units with the key. -/
theorem collectResults_spec {units : List PlanUnit} {results : Fin units.length → Result Dict}
    {m : ResultMap} (h : collectResults units results = .ok m) :
    (∀ u ∈ units, u.key ∈ m.keys) ∧
      ∀ key out, m.get? key = some out → ∃ i, units[i].key = key ∧ results i = .ok out := by
  have hinv : (∀ i ∈ List.finRange units.length, units[i].key ∈ m.keys) ∧
      ∀ key out, m.get? key = some out → ∃ i, units[i].key = key ∧ results i = .ok out := by
    refine Result.foldlM_induct (fun done (m : ResultMap) => (∀ i ∈ done, units[i].key ∈ m.keys) ∧
      ∀ key out, m.get? key = some out → ∃ i, units[i].key = key ∧ results i = .ok out) h
      ⟨by simp, fun key out hget => by simp at hget⟩ ?_
    rintro done m i m' ⟨hkeys, hget⟩ hstep
    obtain ⟨out, hout, hset⟩ := Result.bind_eq_ok.1 hstep
    simp only [Result.pure_eq_ok, Except.ok.injEq] at hset
    subst hset
    refine ⟨fun j hj => ?_, fun key out' hout' => ?_⟩
    · rw [OrdMap.mem_keys_set]
      rcases List.mem_append.1 hj with hj | hj
      · exact .inr (hkeys j hj)
      · exact .inl (by rw [List.mem_singleton.1 hj])
    · rw [OrdMap.get?_set] at hout'
      split_ifs at hout' with hkey
      · exact ⟨i, hkey, by rw [hout, Option.some.inj hout']⟩
      · exact hget key out' hout'
  refine ⟨fun u hu => ?_, hinv.2⟩
  obtain ⟨i, hi, rfl⟩ := List.mem_iff_getElem.1 hu
  exact hinv.1 ⟨i, hi⟩ (List.mem_finRange _)

/-! ### The iterations -/

/-- The entry of a unit; a unit without a result counts as failed. -/
def iterOutput (m : ResultMap) (u : PlanUnit) : Dict :=
  [("leaf_id", .str u.leafId), ("sub_index", .int u.subIndex),
    ("specialist_output", .dict ((m.get? u.key).getD (failedOutput u "no result")))]

/-- The outputs of the loop branch. -/
def loopOutputs (env : Dict) (plan : List (List PlanUnit)) (m : ResultMap)
    (batchIndex : ℕ) : Dict :=
  [("batch_index", .int batchIndex),
    ("iter_outputs", .list ((plan.getD (batchIndex - 1) []).map fun u => .dict (iterOutput m u))),
    ("loop_done",
      .bool ((Value.int batchIndex).eqv (env.getD "total_batches" (.int batchIndex))))]

/-- What the driver keeps between iterations. -/
structure LoopState where
  unitResults : ResultMap
  loopIters : List Dict

/-- The state before the first iteration. -/
def LoopState.start : LoopState := ⟨OrdMap.empty, []⟩

/-- One iteration; `dispatch` says which results the units can be dispatched with. -/
inductive LoopStep (dispatch : ResultMap → Prop) (env : Dict) (plan : List (List PlanUnit)) :
    LoopState → ℕ → LoopState → Prop where
  | first {s : LoopState} {m : ResultMap} {k : ℕ} (hempty : s.unitResults.entries = [])
      (hdispatch : dispatch m) :
      LoopStep dispatch env plan s k ⟨m, s.loopIters ++ [loopOutputs env plan m k]⟩
  | later {s : LoopState} {k : ℕ} (hfilled : s.unitResults.entries ≠ []) :
      LoopStep dispatch env plan s k
        ⟨s.unitResults, s.loopIters ++ [loopOutputs env plan s.unitResults k]⟩

/-- The iterations that the engine numbers so. -/
inductive Drives (dispatch : ResultMap → Prop) (env : Dict) (plan : List (List PlanUnit)) :
    LoopState → List ℕ → LoopState → Prop where
  | nil (s : LoopState) : Drives dispatch env plan s [] s
  | cons {s s' s'' : LoopState} {k : ℕ} {ks : List ℕ} (hstep : LoopStep dispatch env plan s k s')
      (hrest : Drives dispatch env plan s' ks s'') : Drives dispatch env plan s (k :: ks) s''

section

variable {dispatch : ResultMap → Prop} {env : Dict} {plan : List (List PlanUnit)}
  {s s' : LoopState} {ks : List ℕ}

theorem Drives.mono {dispatch' : ResultMap → Prop} (h : Drives dispatch env plan s ks s')
    (hle : ∀ m, dispatch m → dispatch' m) : Drives dispatch' env plan s ks s' := by
  induction h with
  | nil s => exact .nil s
  | cons hstep _ ih =>
    refine .cons ?_ ih
    cases hstep with
    | first hempty hm => exact .first hempty (hle _ hm)
    | later hfilled => exact .later hfilled

/-- With results at hand, the iterations only record. -/
theorem drives_later (h : Drives dispatch env plan s ks s') (hfilled : s.unitResults.entries ≠ []) :
    s' = ⟨s.unitResults, s.loopIters ++ ks.map (loopOutputs env plan s.unitResults)⟩ := by
  induction h with
  | nil s => simp
  | cons hstep _ ih =>
    cases hstep with
    | first hempty _ => exact absurd hempty hfilled
    | later _ => rw [ih hfilled]; simp

/-- **All iterations record outputs of one dispatch.** -/
theorem drives_payloads (h : Drives dispatch env plan .start ks s') (hks : ks ≠ [])
    (hdispatch : ∀ m, dispatch m → m.entries ≠ []) :
    ∃ m, dispatch m ∧ s'.loopIters = ks.map (loopOutputs env plan m) := by
  cases h with
  | nil => exact absurd rfl hks
  | cons hstep hrest =>
    cases hstep with
    | first _ hm =>
      rw [drives_later hrest (hdispatch _ hm)]
      exact ⟨_, hm, rfl⟩
    | later hfilled => exact absurd rfl hfilled

/-- The entries of a recorded iteration are those of its batch. -/
theorem payloadEntries_loopOutputs (m : ResultMap) (k iterN : ℕ) :
    payloadEntries (loopOutputs env plan m k) iterN =
      (plan.getD (k - 1) []).map fun u => (u.key, ⟨iterN, iterOutput m u⟩) := by
  have hentries : ensureList ((loopOutputs env plan m k).get "iter_outputs") =
      (plan.getD (k - 1) []).map fun u => .dict (iterOutput m u) := rfl
  rw [payloadEntries, hentries, dicts_map_dict, List.filterMap_map, ← List.filterMap_eq_map]
  rfl

/-- The planned iterations. -/
def iterations (plan : List (List PlanUnit)) : List ℕ := List.range' 1 plan.length

/-- The entries recorded for a plan are those of its units. -/
theorem mem_iterEntries_drive {m : ResultMap} {e : UnitKey × IterEntry} :
    e ∈ iterEntries ((iterations plan).map (loopOutputs env plan m)) ↔
      ∃ (j : ℕ) (batch : List PlanUnit), plan[j]? = some batch ∧
        ∃ u ∈ batch, e = (u.key, ⟨j + 1, iterOutput m u⟩) := by
  have hget (j : ℕ) : ((iterations plan).map (loopOutputs env plan m))[j]? =
      plan[j]?.map fun _ => loopOutputs env plan m (j + 1) := by
    rw [List.getElem?_map, iterations]
    by_cases hj : j < plan.length
    · rw [List.getElem?_range' (by simpa using hj), List.getElem?_eq_getElem hj]
      simp [Nat.add_comm]
    · rw [List.getElem?_eq_none (by simpa using hj), List.getElem?_eq_none (by simpa using hj)]
      rfl
  simp only [iterEntries, List.mem_flatMap, Prod.exists, List.mem_zipIdx_iff_getElem?, hget,
    Option.map_eq_some_iff]
  constructor
  · rintro ⟨_, j, ⟨batch, hbatch, rfl⟩, he⟩
    rw [payloadEntries_loopOutputs, Nat.add_sub_cancel, List.getD_eq_getElem?_getD, hbatch] at he
    obtain ⟨u, hu, rfl⟩ := List.mem_map.1 he
    exact ⟨j, batch, hbatch, u, hu, rfl⟩
  · rintro ⟨j, batch, hbatch, u, hu, rfl⟩
    refine ⟨_, j, ⟨batch, hbatch, rfl⟩, ?_⟩
    rw [payloadEntries_loopOutputs, Nat.add_sub_cancel, List.getD_eq_getElem?_getD, hbatch]
    exact List.mem_map.2 ⟨u, hu, rfl⟩

/-- The keys recorded for a plan are those of its units. -/
theorem mem_keys_drive {m : ResultMap} {key : UnitKey} :
    key ∈ (iterEntries ((iterations plan).map (loopOutputs env plan m))).map Prod.fst ↔
      ∃ u ∈ plan.flatten, u.key = key := by
  simp only [List.mem_map, mem_iterEntries_drive, List.mem_flatten]
  constructor
  · rintro ⟨_, ⟨j, batch, hbatch, u, hu, rfl⟩, rfl⟩
    exact ⟨u, ⟨batch, List.mem_of_getElem? hbatch, hu⟩, rfl⟩
  · rintro ⟨u, ⟨batch, hbatch, hu⟩, rfl⟩
    obtain ⟨j, hj⟩ := List.mem_iff_getElem?.1 hbatch
    exact ⟨_, ⟨j, batch, hj, u, hu, rfl⟩, rfl⟩

/-- Recorded results with array findings are well formed. -/
theorem wellFormed_drive {m : ResultMap}
    (hm : ∀ key out, m.get? key = some out → ∃ v, Assoc.get? out "findings" = some v ∧ IsArray v) :
    WellFormedPayloads ((iterations plan).map (loopOutputs env plan m)) := by
  have hsized {out : Dict} (h : ∃ v, Assoc.get? out "findings" = some v ∧ IsArray v) :
      FindingsSized out := by
    obtain ⟨_, hget, xs, rfl⟩ := h
    unfold FindingsSized
    rw [Dict.get_of_get? hget]
    cases xs <;> exact ⟨_, rfl⟩
  intro e he
  obtain ⟨j, batch, -, u, -, rfl⟩ := mem_iterEntries_drive.1 he
  refine ⟨_, rfl, hsized ?_⟩
  cases hget : m.get? u.key with
  | none => exact (conforms_failedOutput u "no result").findings
  | some out => exact hm _ out hget

end

/-! ### Planning, dispatching and merging -/

/-- The results that some schedule dispatches the units with. -/
def CanDispatch (world : Environment σ) (shared : σ) (maxRetries : ℤ) (units : List PlanUnit)
    (m : ResultMap) : Prop := ∃ log, DispatchUnits world shared maxRetries units log (.ok m)

/-- The environment after planning. -/
def envPlanned (env : Dict) : Dict := Assoc.update env (handlePlanSpecialistBatches env)

/-- The environment of the merge. -/
def envLooped (env : Dict) (payloads : List Dict) : Dict :=
  Assoc.set (envPlanned env) "loop_iters" (.list (payloads.map .dict))

/-- The merge finds the plan and the recorded iterations in it. -/
theorem mergeEnv_envLooped {env : Dict} {payloads : List Dict}
    (h : ∀ xs, env.get "specialist_outputs_by_iter" ≠ .list xs) :
    MergeEnv (envLooped env payloads) (planBatches env) payloads := by
  have hnodup : ((handlePlanSpecialistBatches env).map Prod.fst).Nodup := by
    simp only [handlePlanSpecialistBatches, List.map_cons, List.map_nil]
    decide
  have hget (k : String) (hk : k ≠ "loop_iters") : Dict.get (envLooped env payloads) k =
      ((Assoc.get? (handlePlanSpecialistBatches env) k).or (Assoc.get? env k)).getD .none := by
    rw [envLooped, Dict.get_set, if_neg (Ne.symm hk), Dict.get, envPlanned,
      Assoc.get?_update_of_nodup _ hnodup]
  refine ⟨?_, ?_, ?_⟩
  · rw [hget _ (by decide)]
    rfl
  · rw [hget _ (by decide), flatten_planBatches]
    rfl
  · have hiters : Dict.get (envLooped env payloads) "loop_iters" = .list (payloads.map .dict) := by
      rw [envLooped, Dict.get_set, if_pos rfl]
    have hbyIter : Dict.get (envLooped env payloads) "specialist_outputs_by_iter" =
        env.get "specialist_outputs_by_iter" := by
      rw [hget _ (by decide)]
      rfl
    rw [resolveIterationPayloads_of_loopIters (hbyIter ▸ h) hiters]
    exact dicts_map payloads

/-- A pool is made of dispatches. -/
theorem trees_of_dispatchUnits {world : Environment σ} {shared : σ} {maxRetries : ℤ}
    {units : List PlanUnit} {log : List (Fin units.length × Event Effect Reply)}
    {m : Result ResultMap} (h : DispatchUnits world shared maxRetries units log m) :
    ∃ trees : Fin units.length → DispatchTree,
      (∀ i, (trees i).unit = units[i] ∧ (trees i).Valid maxRetries.toNat maxRetries.toNat ∧
        Pool.stepsOf log i = (trees i).traceFrom 0) ∧
      m = collectResults units fun i => (trees i).result := by
  obtain ⟨results, ⟨p', hrun, hend⟩, rfl⟩ := h.ends
  have hdispatch (i : Fin units.length) := runs_dispatchOne.1 (Pool.project hrun (hend i))
  choose trees hunit hvalid htrace hres using hdispatch
  exact ⟨trees, fun i => ⟨hunit i, hvalid i, htrace i⟩, by rw [funext hres]⟩

/-- The pool returns exactly when no step of its dispatches raises. -/
theorem collectTrees_ok_iff {units : List PlanUnit} {trees : Fin units.length → DispatchTree} :
    Result.Ok (collectResults units fun i => (trees i).result) ↔ ∀ i, (trees i).Returns :=
  collectResults_ok_iff.trans (forall_congr' fun i => result_ok_iff (trees i))

/-- What a dispatch leaves for the merge. -/
theorem findings_of_dispatchUnits {world : Environment σ} {shared : σ} {maxRetries : ℤ}
    {units : List PlanUnit} {m : ResultMap} (hhook : ListHook world)
    (h : CanDispatch world shared maxRetries units m) :
    (∀ u ∈ units, u.key ∈ m.keys) ∧ ∀ key out, m.get? key = some out →
      ∃ v, Assoc.get? out "findings" = some v ∧ IsArray v := by
  obtain ⟨log, results, hends, hm⟩ := h
  obtain ⟨hkeys, hvalues⟩ := collectResults_spec hm.symm
  refine ⟨hkeys, ?_⟩
  intro key out hget
  obtain ⟨i, -, hi⟩ := hvalues key out hget
  obtain ⟨hruns, hlist⟩ := runs_of_poolEnds hhook hends i
  rw [hi] at hruns
  exact findings_of_runs hruns hlist

/-- What a drive records: the outputs of one dispatch, or nothing where nothing was planned. -/
theorem payloads_of_drive {dispatch : ResultMap → Prop} {env : Dict} {s : LoopState}
    (hkeys : ∀ m, dispatch m → ∀ u ∈ planUnits env, u.key ∈ m.keys)
    (h : Drives dispatch (envPlanned env) (planBatches env) .start
      (iterations (planBatches env)) s) :
    (planUnits env = [] ∧ s.loopIters = []) ∨
      ∃ m, dispatch m ∧ s.loopIters =
        (iterations (planBatches env)).map (loopOutputs (envPlanned env) (planBatches env) m) := by
  have hflat := flatten_planBatches env
  by_cases hplan : planBatches env = []
  · rw [hplan] at h hflat
    cases h
    exact .inl ⟨hflat.symm, rfl⟩
  · obtain ⟨batch, hbatch⟩ := List.exists_mem_of_ne_nil _ hplan
    obtain ⟨u, hu⟩ := List.exists_mem_of_ne_nil _ (ne_nil_of_mem_planBatches hbatch)
    have hunit : u ∈ planUnits env := hflat ▸ List.mem_flatten.2 ⟨batch, hbatch, hu⟩
    have hiters : iterations (planBatches env) ≠ [] := by simpa [iterations] using hplan
    refine .inr (drives_payloads h hiters ?_)
    intro m hm hempty
    have hkey := hkeys m hm u hunit
    rw [OrdMap.keys, hempty] at hkey
    cases hkey

/-- The payloads of a drive are well formed, and their keys are the planned ones. -/
theorem wellFormed_of_drive {world : Environment σ} (hhook : ListHook world) {shared : σ}
    {maxRetries : ℤ} {env : Dict} {s : LoopState}
    (h : Drives (CanDispatch world shared maxRetries (planUnits env)) (envPlanned env)
      (planBatches env) .start (iterations (planBatches env)) s) :
    WellFormedPayloads s.loopIters ∧ ∀ key,
      key ∈ (iterEntries s.loopIters).map Prod.fst ↔ ∃ u ∈ planUnits env, u.key = key := by
  rcases payloads_of_drive (fun m hm => (findings_of_dispatchUnits hhook hm).1) h with
    ⟨hunits, hloop⟩ | ⟨m, hm, hloop⟩
  · rw [hunits, hloop]
    exact ⟨fun e he => absurd he List.not_mem_nil, fun key => by simp [iterEntries]⟩
  · rw [hloop]
    refine ⟨wellFormed_drive (findings_of_dispatchUnits hhook hm).2, ?_⟩
    intro key
    rw [mem_keys_drive, flatten_planBatches]

/-- Driven through all batches, the merge returns. -/
theorem merge_of_drive {world : Environment σ} (hhook : ListHook world) {rt : Runtime}
    {shared : σ} {maxRetries : ℤ} {env env' : Dict} {s : LoopState}
    (h : Drives (CanDispatch world shared maxRetries (planUnits env)) (envPlanned env)
      (planBatches env) .start (iterations (planBatches env)) s)
    (henv : MergeEnv env' (planBatches env) s.loopIters) :
    Result.Ok (handleMergeSpecialistOutputs rt env') := by
  obtain ⟨hwf, hkeys⟩ := wellFormed_of_drive hhook h
  refine merge_ok henv hwf fun u hu => (hkeys _).2 ⟨u, ?_, rfl⟩
  rwa [flatten_planBatches] at hu

/-- The pool returned, and driven through all batches with its results, the merge returns one output
for each planned unit. -/
def Composes (rt : Runtime) (env : Dict) (m : Result ResultMap) : Prop :=
  ∃ results, m = .ok results ∧ ∀ s env',
    Drives (· = results) (envPlanned env) (planBatches env) .start
      (iterations (planBatches env)) s →
    MergeEnv env' (planBatches env) s.loopIters →
    ∃ merged, handleMergeSpecialistOutputs rt env' = .ok merged ∧
      ∃ keys, KeepsLast rt s.loopIters keys merged.specialistOutputs ∧
        ∀ key, key ∈ keys ↔ ∃ u ∈ planUnits env, u.key = key

/-- A pool that returned composes with the rest. -/
theorem composes_of_ok {world : Environment σ} (hhook : ListHook world) {rt : Runtime} {shared : σ}
    {maxRetries : ℤ} {env : Dict}
    {log : List (Fin (planUnits env).length × Event Effect Reply)} {m : Result ResultMap}
    (h : DispatchUnits world shared maxRetries (planUnits env) log m) (hok : Result.Ok m) :
    Composes rt env m := by
  obtain ⟨results, rfl⟩ := hok
  refine ⟨results, rfl, fun s env' hdrive henv => ?_⟩
  have hcan : ∀ m', m' = results → CanDispatch world shared maxRetries (planUnits env) m' := by
    rintro m' rfl
    exact ⟨log, h⟩
  have hdrive := hdrive.mono hcan
  obtain ⟨hwf, hkeys⟩ := wellFormed_of_drive hhook hdrive
  obtain ⟨merged, hmerged⟩ : Result.Ok (handleMergeSpecialistOutputs rt env') :=
    merge_of_drive hhook hdrive henv
  obtain ⟨keys, hkeeps⟩ := merge_keeps_last henv (hasOutputs_of_wellFormed hwf) hmerged
  exact ⟨merged, hmerged, keys, hkeeps, fun key => (hkeeps.mem_keys key).trans (hkeys key)⟩

/-- With stamps that stay in range, and retries for which the back-offs have a float, it
composes. -/
theorem composes_of_inRange {world : Environment σ} (hhook : ListHook world) {rt : Runtime}
    {shared : σ} {maxRetries : ℤ} {env : Dict}
    {log : List (Fin (planUnits env).length × Event Effect Reply)} {m : Result ResultMap}
    (h : DispatchUnits world shared maxRetries (planUnits env) log m)
    (hretries : maxRetries.toNat ≤ Double.maxExponent)
    (hrange : ∀ i, StampsInRange (acceptedAnswers (Pool.stepsOf log i))) : Composes rt env m := by
  refine composes_of_ok hhook h ?_
  obtain ⟨trees, htrees, rfl⟩ := trees_of_dispatchUnits h
  refine collectTrees_ok_iff.2 fun i => ?_
  obtain ⟨-, hvalid, htrace⟩ := htrees i
  have hlist : ∀ out ∈ (trees i).answers, ListFindings out := by
    rw [← acceptedAnswers_traceFrom 0, ← htrace]
    intro out hout
    obtain ⟨v, hcall⟩ := mem_acceptedAnswers hout
    obtain ⟨results, ⟨p', hrun, -⟩, -⟩ := h.ends
    obtain ⟨s, s', hans⟩ := hrun.admitted _ (mem_stepsOf hcall)
    exact hhook s v out s' hans
  have hrange := hrange i
  rw [htrace, acceptedAnswers_traceFrom] at hrange
  exact (returns_of_inRange hvalid le_rfl hretries hlist hrange).1

/-- One leaf and one changed file. -/
def oneLeaf : Dict :=
  [("picked_leaves", .list [.dict [("id", "quality")]]), ("changed_paths", .list ["a.py"])]

/-- A hook that always gives the same answer, and a limiter that never blocks. -/
def fixedAnswers (out : Dict) : Environment Unit := fun _ e =>
  match e with
  | .signal _ => fun _ _ => True
  | .call _ => fun ans _ => ans = .ok out

theorem fixedAnswers_lists {out : Dict} (h : ListFindings out) : ListHook (fixedAnswers out) := by
  intro s v out' s' hans
  obtain rfl : out' = out := Except.ok.inj hans
  exact h

/-- The one leaf can be driven with any answer whose stamp can be converted. -/
theorem oneLeaf_drives {out : Dict} (h : StampConvertible out) :
    ∃ log m s, DispatchUnits (fixedAnswers out) () 0 (planUnits oneLeaf) log (.ok m) ∧
      (∀ key r, m.get? key = some r → ∃ u, r = withDefaults u out) ∧
      Drives (· = m) (envPlanned oneLeaf) (planBatches oneLeaf) .start
        (iterations (planBatches oneLeaf)) s := by
  let trees (i : Fin (planUnits oneLeaf).length) := answered (planUnits oneLeaf)[i] [] out
  have hadmits (i : Fin (planUnits oneLeaf).length) : ∀ ev ∈ (trees i).traceFrom 0,
      fixedAnswers out () ev.1 ev.2 () := by
    intro ev hev
    simp only [trees, traceFrom, retried, acceptedAttempt, List.nil_append, List.mem_cons,
      List.not_mem_nil, or_false] at hev
    rcases hev with rfl | rfl | rfl | rfl | rfl | rfl <;> trivial
  obtain ⟨log, hends⟩ : ∃ log, PoolEnds (fixedAnswers out) (startPool () 0 (planUnits oneLeaf)) log
      fun i => (trees i).result :=
    exists_poolEnds trees (fun _ => rfl) (fun _ => retriable_start) hadmits
  obtain ⟨m, hm⟩ := collectResults_ok fun i => (result_ok_iff (trees i)).2 h
  have hanswers (key : UnitKey) (r : Dict) (hr : m.get? key = some r) :
      ∃ u, r = withDefaults u out := by
    obtain ⟨i, -, hi⟩ := (collectResults_spec hm).2 key r hr
    exact ⟨_, (result_eq_ok_answered.1 hi).2⟩
  have hone : iterations (planBatches oneLeaf) = [1] := by decide
  rw [hone]
  exact ⟨log, m, _, ⟨_, hends, hm.symm⟩, hanswers, .cons (.first rfl rfl) (.nil _)⟩

theorem stampConvertible_nil : StampConvertible [] := by
  refine ⟨?_, ?_, ?_, ?_⟩ <;> rintro x ⟨⟩

/-- One leaf and two changed files. -/
def twoFiles : Dict :=
  [("picked_leaves", .list [.dict [("id", "quality")]]), ("changed_paths", .list ["a.py", "b.py"])]

/-- A hook that cannot take two files at once, and waits long for one. -/
def longWaiting : Environment Unit := fun _ e =>
  match e with
  | .signal _ => fun _ _ => True
  | .call u => fun ans _ =>
    ans = if 1 < u.files.length then .error .contextOverflow else .ok longWait

theorem longWaiting_answers {s s' : Unit} {v : PlanUnit} {out : Dict}
    (h : longWaiting s (.call v) (.ok out) s') : out = longWait := by
  have hans : (.ok out : Answer) =
      if 1 < v.files.length then .error .contextOverflow else .ok longWait := h
  split_ifs at hans
  exact Except.ok.inj hans

end CodeReview
