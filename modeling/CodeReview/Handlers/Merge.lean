import CodeReview.Handlers.Plan
import CodeReview.Py.Json

/-!
# Merging the iterations

`handle_merge_specialist_outputs` folds the recorded loop iterations into one list of specialist
outputs.  It keeps the last entry of each unit, raises when a planned unit or a planned file is
missing, and trims the findings of the largest outputs when the total is too large.
-/

namespace CodeReview

open Py

/-- `(leaf_id, sub_index)`. -/
abbrev UnitKey := String × ℤ

/-- The key of a unit or of an iteration's entry. -/
def unitKey (d : Dict) : Option UnitKey := do
  let leafId ← (d.get "leaf_id").asStr?
  let subIndex ← (d.get "sub_index").asInt?
  return (leafId, subIndex)

/-- `batch.get("units") or []`, the entries that are dictionaries. -/
def batchUnits (batch : Dict) : Result (List Dict) :=
  dicts <$> ((batch.get "units").or (.list [])).iter

/-- `planned_units`. -/
def plannedKeys (batches : List Dict) : Result (List UnitKey) := do
  let units ← batches.mapM batchUnits
  return (units.flatten.filterMap unitKey).dedup

/-- `_resolve_iteration_payloads`. -/
def resolveIterationPayloads (env : Dict) : List Dict :=
  match env.get "specialist_outputs_by_iter", env.get "loop_iters", env.get "iteration_outputs",
    env.get "iter_outputs" with
  | .list xs, _, _, _ => dicts xs
  | _, .list xs, _, _ => dicts xs
  | _, _, .list xs, _ => dicts xs
  | _, _, _, .list xs =>
    [[("batch_index", env.getD "batch_index" (.int 1)), ("iter_outputs", .list xs),
      ("loop_done", .bool (env.getD "loop_done" (.bool true)).truthy)]]
  | _, _, _, _ => []

/-- One entry of an iteration, with the number of the iteration. -/
structure IterEntry where
  iterN : ℕ
  entry : Dict

/-- The entries of an iteration that have a key. -/
def payloadEntries (payload : Dict) (iterN : ℕ) : List (UnitKey × IterEntry) :=
  (dicts (ensureList (payload.get "iter_outputs"))).filterMap fun unitOut =>
    (unitKey unitOut).map fun key => (key, ⟨iterN, unitOut⟩)

/-- The entries of all iterations, in order. -/
def iterEntries (payloads : List Dict) : List (UnitKey × IterEntry) :=
  payloads.zipIdx.flatMap fun p => payloadEntries p.1 (p.2 + 1)

/-- `deduped`: the last entry of each key. -/
def dedupeEntries (payloads : List Dict) : OrdMap UnitKey IterEntry :=
  OrdMap.ofList (iterEntries payloads)

/-- The order of `sorted` on keys. -/
def keyLe (a b : UnitKey) : Bool := a.1 < b.1 || (a.1 = b.1 && a.2 ≤ b.2)

/-- `DispatchLoopExitedEarlyError`. -/
def loopExitedEarly (planned : ℕ) (missing : List UnitKey) : Exc :=
  let sample := Text.join ", " ((missing.take 10).map fun k => k.1 ++ "#" ++ toString k.2)
  let suffix :=
    if missing.length > 10 then " (+" ++ toString (missing.length - 10) ++ " more)" else ""
  .user "DispatchLoopExitedEarlyError" ("merge_specialist_outputs: " ++ toString missing.length ++
    " of " ++ toString planned ++ " planned (leaf_id, sub_index) units missing from loop_iters; " ++
    "the dispatch_specialists Loop exited before draining all batches. The orchestrator must " ++
    "keep polling fsm.get_brief(run_id) after each iteration's commit until the brief's " ++
    "state_id moves off dispatch_specialists. Missing: " ++ sample ++ suffix ++ ".")

/-- `MissedFileError`. -/
def missedFile (files planned : ℤ) : Exc :=
  .user "MissedFileError" ("merge_specialist_outputs: union of unit files (" ++ toString files ++
    ") is below planner's total_files_planned (" ++ toString planned ++
    "); the loop body dropped one or more planned units")

/-- The output with the leaf's id, unless it has a string for an id. -/
def stampId (leafId : String) (out : Dict) : Dict :=
  if (out.get "id").asStr?.isNone then Assoc.set out "id" (.str leafId) else out

/-- The stamped specialist output of an entry. -/
def stampedOutput (leafId : String) (entry : Dict) : Option Dict :=
  (entry.get "specialist_output").asDict?.map (stampId leafId)

/-- A unit of the plan has the key. -/
def hasKey (key : UnitKey) (unit : Dict) : Bool :=
  (unit.get "leaf_id").eqv (.str key.1) && (unit.get "sub_index").eqv (.int key.2)

/-- The files of a unit. -/
def unitFiles (unit : Dict) : Result (List String) :=
  strs <$> ((unit.get "files").or (.list [])).iter

/-- The files planned for a key. -/
def filesOfKey (batches : List Dict) (key : UnitKey) : Result (List String) := do
  let units ← batches.mapM batchUnits
  let files ← (units.flatten.filter (hasKey key)).mapM unitFiles
  return files.flatten

/-! ### The size guard -/

/-- `_AGGREGATE_OUTPUT_BUDGET_BYTES`. -/
def aggregateOutputBudget : ℤ := 100 * 1024 * 1024

section

variable (rt : Runtime)

/-- `_serialised_size`. -/
def serialisedSize (out : Dict) : ℕ := Json.size rt (.dict out) + 1

/-- `_severity_rank`. -/
def trimRank (finding : Value) : ℕ :=
  match (ensureDict finding).get "severity" with
  | .str sev => (Assoc.get? severityRank (rt.lower sev)).getD 0
  | _ => 0

/-- The position of the first largest output. -/
def largestIndex : List Dict → ℕ
  | [] => 0
  | [_] => 0
  | out :: outs =>
    let i := largestIndex outs
    if serialisedSize rt out < serialisedSize rt (outs.getD i []) then i + 1 else 0

/-- `_trim_lowest_priority_unit`: the trimmed outputs and the bytes freed. -/
def trimLowestPriorityUnit (outs : List Dict) : Option (List Dict × ℕ) :=
  let i := largestIndex rt outs
  match outs[i]? with
  | none => none
  | some target =>
    match target.get "findings" with
    | .list (f :: fs) =>
      let sorted := (f :: fs).mergeSort fun a b => trimRank rt a ≤ trimRank rt b
      let trimmed := Assoc.set target "findings" (.list sorted.tail)
      let before := serialisedSize rt target
      let after := serialisedSize rt trimmed
      if before ≤ after then none else some (outs.set i trimmed, before - after)
    | _ => none

/-- The sum of the serialised sizes. -/
def totalSize (outs : List Dict) : ℕ := (outs.map (serialisedSize rt)).sum

/-- The outputs with the running total. -/
structure Guard where
  outputs : List Dict
  aggregateBytes : ℤ

/-- The trimming loop for any budget, with `passes` to go. -/
def guardLoop (budget : ℤ) : ℕ → Guard → Guard
  | 0, g => g
  | passes + 1, g =>
    if g.aggregateBytes ≤ budget then g
    else
      match trimLowestPriorityUnit rt g.outputs with
      | none => g
      | some (outs, freed) => guardLoop budget passes ⟨outs, g.aggregateBytes - freed⟩

/-- The guard for any budget: `len(out.get("findings") or [])` raises on a value without a
length. -/
def sizeGuard (budget : ℤ) (outs : List Dict) : Result Guard :=
  let aggregate : ℤ := totalSize rt outs
  if aggregate ≤ budget then .ok ⟨outs, aggregate⟩
  else do
    let lens ← outs.mapM fun out => ((out.get "findings").or (.list [])).len?
    return guardLoop rt budget lens.sum ⟨outs, aggregate⟩

/-- The guard with the handler's budget. -/
def trimToBudget (outs : List Dict) : Result (List Dict) :=
  Guard.outputs <$> sizeGuard rt aggregateOutputBudget outs

/-! ### The handler -/

/-- The outputs, and the shard files written for them. -/
structure Merged where
  specialistOutputs : List Dict
  shards : List String

/-- The name of a shard file. -/
def shardName (key : UnitKey) (iterN : ℕ) : String :=
  key.1 ++ "__sub" ++ toString key.2 ++ "__iter" ++ toString iterN ++ ".json"

/-- `handle_merge_specialist_outputs`, where the shards can be written. -/
def handleMergeSpecialistOutputs (env : Dict) : Result Merged := do
  let batches := dicts (ensureList (env.get "specialist_batches"))
  let totalFilesPlanned := (env.get "total_files_planned").asInt?.getD 0
  let planned ← plannedKeys batches
  let deduped := dedupeEntries (resolveIterationPayloads env)
  let missing := (planned.filter (· ∉ deduped.keys)).mergeSort keyLe
  if missing ≠ [] then throw (loopExitedEarly planned.length missing)
  let kept := deduped.entries.filterMap fun e =>
    (stampedOutput e.1.1 e.2.entry).map fun out => (e.1, e.2.iterN, out)
  let files ← kept.mapM fun k => filesOfKey batches k.1
  let outputs ← trimToBudget rt (kept.map (·.2.2))
  let unionFiles : ℤ := files.flatten.dedup.length
  if unionFiles < totalFilesPlanned then throw (missedFile unionFiles totalFilesPlanned)
  return ⟨outputs, kept.map fun k => shardName k.1 k.2.1⟩

end

end CodeReview
