import CodeReview.Handlers.SizeGuard
import Mathlib.Data.List.Perm.Subperm

/-!
# Which entries a merge keeps

The merge on the planner's own batches.

* `trimToBudget_spec` : the size guard drops findings, never an output;
* `merge_ok` : the merge returns when every planned unit occurs in the iterations;
* `merge_keeps_last` : **it keeps one output for each key, made from the key's last entry.**
-/

namespace CodeReview

open Py

variable {rt : Runtime}

/-! ### Reading the plan back -/

/-- The batches of a plan, as the handlers read them. -/
def planDicts (plan : List (List PlanUnit)) : List Dict :=
  plan.zipIdx.map fun b => batchToDict (b.2 + 1) b.1

@[simp] theorem dicts_batchesToValue (plan : List (List PlanUnit)) :
    dicts (ensureList (batchesToValue plan)) = planDicts plan := dicts_map_dict _ _

@[simp] theorem batchUnits_batchToDict (index : ℕ) (units : List PlanUnit) :
    batchUnits (batchToDict index units) = .ok (units.map PlanUnit.toDict) := by
  have hunits : ((batchToDict index units).get "units").or (.list []) =
      .list (units.map fun u => .dict u.toDict) := by
    cases units <;> rfl
  rw [batchUnits, hunits, Value.iter_list, ← dicts_map_dict]
  rfl

theorem mapM_batchUnits_planDicts (plan : List (List PlanUnit)) :
    ((planDicts plan).mapM batchUnits) = .ok (plan.map (·.map PlanUnit.toDict)) := by
  rw [Result.mapM_eq_ok, planDicts, List.forall₂_map_left_iff]
  have hplan : plan.map (·.map PlanUnit.toDict) =
      plan.zipIdx.map fun b => b.1.map PlanUnit.toDict := by
    rw [← List.zipIdx_map_fst 0 plan, List.map_map, List.zipIdx_map_fst]
    rfl
  rw [hplan, List.forall₂_map_right_iff]
  exact List.forall₂_same.2 fun b _ => batchUnits_batchToDict _ _

@[simp] theorem unitKey_toDict (u : PlanUnit) : unitKey u.toDict = some u.key := rfl

theorem flatten_map_toDict (plan : List (List PlanUnit)) :
    (plan.map (·.map PlanUnit.toDict)).flatten = plan.flatten.map PlanUnit.toDict :=
  List.map_flatten.symm

theorem plannedKeys_planDicts (plan : List (List PlanUnit)) :
    plannedKeys (planDicts plan) = .ok (plan.flatten.map PlanUnit.key).dedup := by
  have hkeys : (plan.flatten.map PlanUnit.toDict).filterMap unitKey =
      plan.flatten.map PlanUnit.key := by
    rw [List.filterMap_map, ← List.filterMap_eq_map (f := PlanUnit.key)]
    rfl
  rw [plannedKeys, mapM_batchUnits_planDicts, Result.ok_bind, flatten_map_toDict, hkeys]
  rfl

theorem hasKey_toDict (key : UnitKey) (u : PlanUnit) :
    hasKey key u.toDict = decide (u.key = key) := by
  obtain ⟨leafId, subIndex⟩ := key
  have hleaf : (Value.str u.leafId).eqv (.str leafId) = decide (u.leafId = leafId) := rfl
  have hsub : (Value.int u.subIndex).eqv (.int subIndex) =
      decide ((u.subIndex : ℤ) = subIndex) := by
    simp only [Value.eqv, Value.eqvNum, Value.num?, Double.eq, Rat.intCast_inj]
  have hget : (u.toDict.get "leaf_id", u.toDict.get "sub_index") =
      (Value.str u.leafId, Value.int u.subIndex) := rfl
  simp only [Prod.mk.injEq] at hget
  rw [hasKey, hget.1, hget.2, hleaf, hsub]
  simp [PlanUnit.key]

theorem unitFiles_toDict (u : PlanUnit) : unitFiles u.toDict = .ok u.files := by
  have hfiles : (u.toDict.get "files").or (.list []) = ofStrs u.files := by
    change (ofStrs u.files).or (.list []) = ofStrs u.files
    unfold ofStrs
    cases u.files <;> rfl
  rw [unitFiles, hfiles, ofStrs, Value.iter_list]
  change Except.ok (strs _) = _
  rw [strs_map_str]

/-- The files planned for a key are those of the units with that key. -/
theorem filesOfKey_planDicts (plan : List (List PlanUnit)) (key : UnitKey) :
    filesOfKey (planDicts plan) key =
      .ok ((plan.flatten.filter fun u => u.key = key).flatMap (·.files)) := by
  have hfilter : (plan.flatten.map PlanUnit.toDict).filter (hasKey key) =
      (plan.flatten.filter fun u => u.key = key).map PlanUnit.toDict := by
    rw [List.filter_map]
    congr 2
    funext u
    exact hasKey_toDict key u
  have hfiles (units : List PlanUnit) :
      (units.map PlanUnit.toDict).mapM unitFiles = .ok (units.map (·.files)) := by
    rw [Result.mapM_eq_ok, List.forall₂_map_left_iff, List.forall₂_map_right_iff]
    exact List.forall₂_same.2 fun u _ => unitFiles_toDict u
  rw [filesOfKey, mapM_batchUnits_planDicts, Result.ok_bind, flatten_map_toDict, hfilter, hfiles]
  rfl

/-! ### The size guard -/

/-- The output lost findings and nothing else. -/
structure Trims (before after : Dict) : Prop where
  others : ∀ k ≠ "findings", Assoc.get? after k = Assoc.get? before k
  findings : Assoc.get? after "findings" = Assoc.get? before "findings" ∨
    ∃ fs gs, before.get "findings" = .list fs ∧ after.get "findings" = .list gs ∧ gs.Subperm fs

theorem Pruned.trims {before after : Dict} (h : Pruned rt before after) : Trims before after := by
  refine ⟨h.others, h.findings.imp_right ?_⟩
  rintro ⟨fs, kept, dropped, hbefore, hafter, hperm, -⟩
  have hsub : kept.Subperm (dropped ++ kept) := (List.sublist_append_right dropped kept).subperm
  exact ⟨fs, kept, hbefore, hafter, hsub.trans hperm.subperm⟩

/-- The size of all outputs is within the budget. -/
def WithinBudget (rt : Runtime) (outs : List Dict) : Prop :=
  ((outs.map (serialisedSize rt)).sum : ℤ) ≤ aggregateOutputBudget

theorem trimToBudget_ok {outs : List Dict} (h : ∀ out ∈ outs, FindingsSized out) :
    Result.Ok (trimToBudget rt outs) := by
  obtain ⟨g, hguard⟩ := @sizeGuard_ok rt outs h aggregateOutputBudget
  exact ⟨g.outputs, Result.map_eq_ok.2 ⟨g, hguard, rfl⟩⟩

/-- **The size guard drops findings, never an output**, and nothing within the budget. -/
theorem trimToBudget_spec {outs outs' : List Dict} (h : trimToBudget rt outs = .ok outs') :
    List.Forall₂ Trims outs outs' ∧ (WithinBudget rt outs → outs' = outs) := by
  obtain ⟨g, hguard, rfl⟩ := Result.map_eq_ok.1 h
  obtain ⟨hpruned, -, hfits⟩ := sizeGuard_spec hguard
  exact ⟨hpruned.imp fun _ _ => Pruned.trims, hfits⟩

/-! ### The merge -/

/-- The merge runs on a plan and on recorded payloads. -/
structure MergeEnv (env : Dict) (plan : List (List PlanUnit)) (payloads : List Dict) : Prop where
  batches : env.get "specialist_batches" = batchesToValue plan
  total : env.get "total_files_planned" = .int (totalFilesPlanned plan.flatten)
  payloads : resolveIterationPayloads env = payloads

/-- The recorded iterations are read unless there is a list under the explicit key. -/
theorem resolveIterationPayloads_of_loopIters {env : Dict} {xs : List Value}
    (h : ∀ ys, env.get "specialist_outputs_by_iter" ≠ .list ys)
    (hiters : env.get "loop_iters" = .list xs) : resolveIterationPayloads env = dicts xs := by
  unfold resolveIterationPayloads
  rw [hiters]
  cases hkey : env.get "specialist_outputs_by_iter" with
  | list ys => exact absurd hkey (h ys)
  | _ => rfl

/-- Every entry with a key carries an output. -/
def HasOutputs (payloads : List Dict) : Prop :=
  ∀ e ∈ iterEntries payloads, ∃ out : Dict, e.2.entry.get "specialist_output" = .dict out

/-- Every entry with a key carries an output whose findings have a length. -/
def WellFormedPayloads (payloads : List Dict) : Prop :=
  ∀ e ∈ iterEntries payloads, ∃ out : Dict, e.2.entry.get "specialist_output" = .dict out ∧
    FindingsSized out

theorem hasOutputs_of_wellFormed {payloads : List Dict} (h : WellFormedPayloads payloads) :
    HasOutputs payloads := fun e he =>
  let ⟨out, hout, _⟩ := h e he
  ⟨out, hout⟩

/-- Every planned unit occurs. -/
def CoversPlan (plan : List (List PlanUnit)) (payloads : List Dict) : Prop :=
  ∀ u ∈ plan.flatten, u.key ∈ (iterEntries payloads).map Prod.fst

/-- The output is made from the last entry with the key. -/
def FromLast (payloads : List Dict) (key : UnitKey) (out : Dict) : Prop :=
  ∃ e, OrdMap.lastOf (iterEntries payloads) key = some e ∧ stampedOutput key.1 e.entry = some out

/-- The merged outputs, one for each key that occurs. -/
structure KeepsLast (rt : Runtime) (payloads : List Dict) (keys : List UnitKey)
    (outputs : List Dict) : Prop where
  nodup : keys.Nodup
  mem_keys : ∀ key, key ∈ keys ↔ key ∈ (iterEntries payloads).map Prod.fst
  last : ∃ kept, List.Forall₂ (FromLast payloads) keys kept ∧ List.Forall₂ Trims kept outputs ∧
    (WithinBudget rt kept → outputs = kept)

variable {env : Dict} {plan : List (List PlanUnit)} {payloads : List Dict}

theorem stampedOutput_eq_some {leafId : String} {entry out : Dict}
    (h : entry.get "specialist_output" = .dict out) :
    stampedOutput leafId entry = some (stampId leafId out) := by
  rw [stampedOutput, h]
  rfl

/-- The stamp leaves the findings alone. -/
theorem findingsSized_stampedOutput {leafId : String} {entry out out' : Dict}
    (h : entry.get "specialist_output" = .dict out) (hsized : FindingsSized out)
    (hout : stampedOutput leafId entry = some out') : FindingsSized out' := by
  rw [stampedOutput_eq_some h, Option.some.injEq] at hout
  subst hout
  unfold FindingsSized stampId
  split_ifs
  · rwa [Dict.get_set, if_neg (by decide)]
  · exact hsized

/-- `deduped`, materialised: each key with its output. -/
def keptOutputs (payloads : List Dict) : List (UnitKey × ℕ × Dict) :=
  (dedupeEntries payloads).entries.filterMap fun e =>
    (stampedOutput e.1.1 e.2.entry).map fun out => (e.1, e.2.iterN, out)

theorem lastOf_of_mem_entries {e : UnitKey × IterEntry}
    (h : e ∈ (dedupeEntries payloads).entries) :
    OrdMap.lastOf (iterEntries payloads) e.1 = some e.2 := by
  rw [← OrdMap.get?_ofList]
  exact (OrdMap.mem_entries_iff _).1 h

theorem mem_iterEntries_of_lastOf {e : UnitKey × IterEntry}
    (h : OrdMap.lastOf (iterEntries payloads) e.1 = some e.2) : e ∈ iterEntries payloads :=
  List.mem_reverse.1 (Assoc.mem_of_get? h)

/-- What is kept is made from the last entry. -/
theorem fromLast_of_mem_kept {k : UnitKey × ℕ × Dict} (h : k ∈ keptOutputs payloads) :
    FromLast payloads k.1 k.2.2 := by
  obtain ⟨e, he, hk⟩ := List.mem_filterMap.1 h
  obtain ⟨out, hout, rfl⟩ := Option.map_eq_some_iff.1 hk
  exact ⟨e.2, lastOf_of_mem_entries he, hout⟩

/-- Every key that occurs is kept. -/
theorem keys_keptOutputs (h : HasOutputs payloads) :
    (keptOutputs payloads).map Prod.fst = (dedupeEntries payloads).keys := by
  have hmap : keptOutputs payloads = (dedupeEntries payloads).entries.map fun e =>
      (e.1, e.2.iterN, (stampedOutput e.1.1 e.2.entry).getD []) := by
    rw [keptOutputs, ← List.filterMap_eq_map]
    refine List.filterMap_congr ?_
    intro e he
    obtain ⟨out, hout⟩ := h e (mem_iterEntries_of_lastOf (lastOf_of_mem_entries he))
    simp [stampedOutput_eq_some hout]
  rw [hmap, List.map_map]
  rfl

/-- When every planned key is kept, so is every planned file. -/
theorem totalFilesPlanned_le {units : List PlanUnit} {keys : List UnitKey}
    (h : ∀ u ∈ units, u.key ∈ keys) :
    totalFilesPlanned units ≤
      (keys.map fun k =>
        (units.filter fun u => u.key = k).flatMap (·.files)).flatten.dedup.length := by
  refine (List.Nodup.subperm (List.nodup_dedup _) ?_).length_le
  intro file hfile
  obtain ⟨u, hu, hfile⟩ := List.mem_flatMap.1 (List.mem_dedup.1 hfile)
  refine List.mem_dedup.2 (List.mem_flatten.2 ⟨_, List.mem_map.2 ⟨u.key, h u hu, rfl⟩, ?_⟩)
  exact List.mem_flatMap.2 ⟨u, List.mem_filter.2 ⟨hu, by simp⟩, hfile⟩

/-- The handler on a plan, with its two checks. -/
theorem merge_eq (henv : MergeEnv env plan payloads) :
    handleMergeSpecialistOutputs rt env = (do
      let planned := (plan.flatten.map PlanUnit.key).dedup
      let missing := (planned.filter (· ∉ (dedupeEntries payloads).keys)).mergeSort keyLe
      if missing ≠ [] then throw (loopExitedEarly planned.length missing)
      let files := (keptOutputs payloads).map fun k =>
        (plan.flatten.filter fun u => u.key = k.1).flatMap (·.files)
      let outputs ← trimToBudget rt ((keptOutputs payloads).map (·.2.2))
      let unionFiles : ℤ := files.flatten.dedup.length
      if unionFiles < totalFilesPlanned plan.flatten then
        throw (missedFile unionFiles (totalFilesPlanned plan.flatten))
      return ⟨outputs, (keptOutputs payloads).map fun k => shardName k.1 k.2.1⟩) := by
  have hfiles : ((keptOutputs payloads).mapM fun k => filesOfKey (planDicts plan) k.1) =
      .ok ((keptOutputs payloads).map fun k =>
        (plan.flatten.filter fun u => u.key = k.1).flatMap (·.files)) := by
    rw [Result.mapM_eq_ok, List.forall₂_map_right_iff]
    exact List.forall₂_same.2 fun k _ => filesOfKey_planDicts plan k.1
  unfold handleMergeSpecialistOutputs
  simp only [henv.batches, henv.total, henv.payloads, dicts_batchesToValue, Value.asInt?,
    Option.getD_some, plannedKeys_planDicts, Result.ok_bind]
  rw [show ((dedupeEntries payloads).entries.filterMap fun e =>
    (stampedOutput e.1.1 e.2.entry).map fun out => (e.1, e.2.iterN, out)) = keptOutputs payloads
    from rfl, hfiles]
  rfl

/-- No unit is missing where the payloads cover the plan. -/
theorem missing_eq_nil (hcovers : CoversPlan plan payloads) :
    ((plan.flatten.map PlanUnit.key).dedup.filter
      (· ∉ (dedupeEntries payloads).keys)).mergeSort keyLe = [] := by
  rw [List.filter_eq_nil_iff.2, List.mergeSort_nil]
  intro key hkey
  obtain ⟨u, hu, rfl⟩ := List.mem_map.1 (List.mem_dedup.1 hkey)
  have hkept : u.key ∈ (dedupeEntries payloads).keys :=
    (OrdMap.mem_keys_ofList _).2 (hcovers u hu)
  simpa using hkept

/-- The merge returns on payloads that cover the plan. -/
theorem merge_ok (henv : MergeEnv env plan payloads) (hwf : WellFormedPayloads payloads)
    (hcovers : CoversPlan plan payloads) : Result.Ok (handleMergeSpecialistOutputs rt env) := by
  have hout := hasOutputs_of_wellFormed hwf
  have hcovered (u : PlanUnit) (hu : u ∈ plan.flatten) :
      u.key ∈ (dedupeEntries payloads).keys := (OrdMap.mem_keys_ofList _).2 (hcovers u hu)
  have hsized : ∀ out ∈ (keptOutputs payloads).map (·.2.2), FindingsSized out := by
    intro out hmem
    obtain ⟨k, hk, rfl⟩ := List.mem_map.1 hmem
    obtain ⟨e, hlast, hstamp⟩ := fromLast_of_mem_kept hk
    obtain ⟨raw, hraw, hsized⟩ := hwf (k.1, e) (mem_iterEntries_of_lastOf hlast)
    exact findingsSized_stampedOutput hraw hsized hstamp
  obtain ⟨outputs, houtputs⟩ : Result.Ok (trimToBudget rt ((keptOutputs payloads).map (·.2.2))) :=
    trimToBudget_ok hsized
  have htotal : ¬ ((((keptOutputs payloads).map fun k => (plan.flatten.filter fun u =>
      u.key = k.1).flatMap (·.files)).flatten.dedup.length : ℤ) <
        totalFilesPlanned plan.flatten) := by
    have hkept : ∀ u ∈ plan.flatten, u.key ∈ (keptOutputs payloads).map Prod.fst := by
      rwa [keys_keptOutputs hout]
    have hle := totalFilesPlanned_le hkept
    rw [List.map_map] at hle
    exact not_lt.2 (by exact_mod_cast hle)
  rw [merge_eq henv]
  simp only [missing_eq_nil hcovers, houtputs, ne_eq, not_true_eq_false, if_false, htotal]
  exact ⟨_, rfl⟩

/-- **A merge that returns keeps one output for each key, made from the key's last entry.** -/
theorem merge_keeps_last (henv : MergeEnv env plan payloads) (hout : HasOutputs payloads)
    {merged : Merged} (h : handleMergeSpecialistOutputs rt env = .ok merged) :
    ∃ keys, KeepsLast rt payloads keys merged.specialistOutputs := by
  rw [merge_eq henv] at h
  simp only [Result.throw_eq_error, Result.error_bind] at h
  split_ifs at h
  · obtain ⟨_, -, h⟩ := Result.bind_eq_ok.1 h
    cases h
  obtain ⟨outputs, houtputs, h⟩ := Result.bind_eq_ok.1 h
  have hmerged : merged.specialistOutputs = outputs :=
    congrArg Merged.specialistOutputs (Except.ok.inj h).symm
  obtain ⟨htrims, hfits⟩ := trimToBudget_spec houtputs
  rw [← hmerged] at htrims hfits
  refine ⟨(keptOutputs payloads).map Prod.fst, ?_, fun key => ?_, _, ?_, htrims, hfits⟩
  · rw [keys_keptOutputs hout]
    exact OrdMap.keys_nodup _
  · rw [keys_keptOutputs hout]
    exact OrdMap.mem_keys_ofList _
  · rw [List.forall₂_map_left_iff, List.forall₂_map_right_iff]
    exact List.forall₂_same.2 fun k hk => fromLast_of_mem_kept hk

end CodeReview
