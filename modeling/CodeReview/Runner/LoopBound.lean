import CodeReview.Runner.KeyClash

/-!
# The bound of the dispatch loop

The loop records one batch for each iteration and makes at most `maxIterations`; the planner does
not look at that bound.

* `length_planBatches_le_iff` : the batches fit exactly when the units do;
* `length_planUnits` : how many units are planned, from the picks and their files;
* `drains_iff` : **the loop drains the plan exactly when the units fit into its iterations.**
-/

namespace CodeReview

open Py

/-- `max_iterations` of `dispatch_specialists`. -/
def maxIterations : ℕ := 64

/-- The iterations that the loop makes. -/
def loopIterations (plan : List (List PlanUnit)) : List ℕ := (iterations plan).take maxIterations

/-- What the iterations of the loop record of the results `m`. -/
def loopRecords (env : Dict) (m : ResultMap) : List Dict :=
  (loopIterations (planBatches env)).map (loopOutputs (envPlanned env) (planBatches env) m)

/-! ### Counting -/

theorem lt_mathCeil {num den k : ℕ} (h : 0 < den) : k < mathCeil num den ↔ k * den < num := by
  rw [mathCeil, if_neg h.ne', Nat.lt_iff_add_one_le, Nat.le_div_iff_mul_le h, Nat.succ_mul]
  omega

theorem lt_length_chunks {α : Type} {size count k : ℕ} {xs : List α}
    (h : xs.length ≤ count * size) :
    k < (chunks size xs count 0).length ↔ k * size < xs.length := by
  have hget := getElem?_chunks size xs count 0 k
  rw [Nat.zero_add] at hget
  constructor
  · intro hk
    rw [List.getElem?_eq_getElem hk] at hget
    split_ifs at hget with hlt
    exact hlt.2
  · intro hk
    have hcount : k < count := by
      by_contra hge
      have hle := Nat.mul_le_mul_right size (not_lt.1 hge)
      omega
    rw [if_pos ⟨hcount, hk⟩] at hget
    exact (List.getElem?_eq_some_iff.1 hget).1

theorem length_chunks {α : Type} {size count : ℕ} {xs : List α} (hsize : 0 < size)
    (h : xs.length ≤ count * size) :
    (chunks size xs count 0).length = mathCeil xs.length size :=
  eq_of_forall_lt_iff fun _ => (lt_length_chunks h).trans (lt_mathCeil hsize).symm

/-- **The batches fit exactly when the units do.** -/
theorem length_planBatches_le_iff {env : Dict} {n : ℕ} :
    (planBatches env).length ≤ n ↔ (planUnits env).length ≤ n * batchSize env := by
  rw [← not_lt, ← not_lt, planBatches]
  refine not_congr (lt_length_chunks ?_)
  exact Nat.le_mul_of_pos_right _ (batchSize_pos env)

/-- The number of files of a leaf: each matched path once, or the full diff. -/
def fileCount (leaf : Dict) (changed : List String) : ℕ :=
  match leafGlobs leaf with
  | .list (g :: gs) => (changed.filter (globsMatch (g :: gs))).dedup.length
  | _ => changed.length

/-- The number of units for a number of files. -/
def unitCount (maxTokens count : ℕ) : ℕ :=
  if maxTokens < count * tokensPerFile then mathCeil count (sliceSize maxTokens count) else 1

theorem length_leafFileSet (leaf : Dict) (changed : List String) :
    (leafFileSet leaf changed).length = fileCount leaf changed := by
  unfold fileCount
  split
  · rename_i g gs hglobs
    -- both list the matched paths, each once
    refine List.Perm.length_eq ((List.perm_ext_iff_of_nodup
      (nodup_leafFileSet ⟨g, gs, hglobs⟩ changed) (List.nodup_dedup _)).2 fun path => ?_)
    rw [mem_leafFileSet hglobs, List.mem_dedup, List.mem_filter]
  · rename_i hnot
    rw [leafFileSet_of_not_hasGlobs fun ⟨g, gs, hglobs⟩ => hnot g gs hglobs]

theorem length_leafUnits {maxTokens : ℕ} (hmax : 0 < maxTokens) (leafId : String)
    (files : List String) :
    (leafUnits maxTokens leafId files).length = unitCount maxTokens files.length := by
  unfold leafUnits unitCount
  by_cases hempty : files = []
  · simp [hempty]
  · rw [if_neg hempty]
    split_ifs with hsplit
    · have hlen : 0 < files.length := List.length_pos_iff.2 hempty
      have hcount : 0 < mathCeil (files.length * tokensPerFile) maxTokens :=
        mathCeil_pos (by rw [tokensPerFile]; omega) hmax
      rw [List.length_map, List.length_zipIdx, length_chunks (mathCeil_pos hlen hcount)
        (by rw [Nat.mul_comm]; exact le_mathCeil_mul hcount)]
      rfl
    · rfl

/-- **The units that are planned, from the picks and the numbers of their files.** -/
theorem length_planUnits (env : Dict) : (planUnits env).length =
    ((plannedLeaves env).map fun pick =>
      unitCount (maxLeafTokens env) (fileCount pick.2 (changedFiles env))).sum := by
  rw [planUnits_eq, List.length_flatMap]
  refine congrArg List.sum (List.map_congr_left ?_)
  intro pick _
  rw [pickUnits, length_leafUnits (maxLeafTokens_pos env), length_leafFileSet]

/-! ### Draining the plan -/

/-- The plan has no more batches than the loop has iterations, and the merge on what they record
misses no unit. -/
structure Drains (env : Dict) : Prop where
  bound : (planBatches env).length ≤ maxIterations
  drained : ∀ (rt : Runtime) (m : ResultMap) (env' : Dict),
    MergeEnv env' (planBatches env) (loopRecords env m) → ∀ planned missing,
      handleMergeSpecialistOutputs rt env' ≠ .error (loopExitedEarly planned missing)

/-- The merge misses no unit on payloads that cover the plan. -/
theorem not_loopExitedEarly {rt : Runtime} {env : Dict} {plan : List (List PlanUnit)}
    {payloads : List Dict} (henv : MergeEnv env plan payloads) (hcovers : CoversPlan plan payloads)
    (planned : ℕ) (missing : List UnitKey) :
    handleMergeSpecialistOutputs rt env ≠ .error (loopExitedEarly planned missing) := by
  rw [merge_eq henv]
  simp only [missing_eq_nil hcovers, ne_eq, not_true_eq_false, if_false]
  intro herror
  rcases Result.bind_eq_error.1 herror with herror | ⟨_, -, herror⟩
  · -- the size guard raises only where findings have no length
    obtain ⟨out, -, hlen⟩ := exists_of_sizeGuard_error (Result.map_eq_error.1 herror)
    exact absurd (Value.len?_error hlen) (by simp [loopExitedEarly])
  · split_ifs at herror
    · have hclass := Exc.user.inj (Except.error.inj herror)
      exact absurd hclass.1 (by decide)
    · cases herror

/-- The loop records the batches that its iterations reach. -/
theorem loopRecords_eq (env : Dict) (m : ResultMap) : loopRecords env m =
    (iterations ((planBatches env).take maxIterations)).map
      (loopOutputs (envPlanned env) ((planBatches env).take maxIterations) m) := by
  have htake : loopIterations (planBatches env) =
      iterations ((planBatches env).take maxIterations) := by
    rw [loopIterations, iterations, iterations, List.length_take]
    rcases le_total (planBatches env).length maxIterations with hle | hge
    · rw [List.take_range'_of_length_le hle, min_eq_right hle]
    · rw [List.take_range'_of_length_ge hge, min_eq_left hge]
  rw [loopRecords, htake]
  refine List.map_congr_left ?_
  intro k hk
  obtain ⟨j, hj, rfl⟩ := List.mem_range'.1 hk
  have hlt : j < maxIterations := by
    rw [List.length_take] at hj
    exact lt_of_lt_of_le hj (min_le_left _ _)
  have hbatch : (planBatches env).getD (1 + 1 * j - 1) [] =
      ((planBatches env).take maxIterations).getD (1 + 1 * j - 1) [] := by
    rw [List.getD_eq_getElem?_getD, List.getD_eq_getElem?_getD,
      List.getElem?_take_of_lt (by omega)]
  rw [loopOutputs, loopOutputs, hbatch]

/-- The units that are recorded. -/
theorem mem_keys_loopRecords {env : Dict} {m : ResultMap} {key : UnitKey} :
    key ∈ (iterEntries (loopRecords env m)).map Prod.fst ↔
      ∃ u ∈ ((planBatches env).take maxIterations).flatten, u.key = key := by
  rw [loopRecords_eq, mem_keys_drive]

/-- **Where no leaf is picked twice, a plan that is too long ends in an error of the merge.** -/
theorem exitsEarly_of_lt {rt : Runtime} {env env' : Dict} {m : ResultMap}
    (hpicks : (pickIds env).Nodup) (hlong : maxIterations < (planBatches env).length)
    (henv : MergeEnv env' (planBatches env) (loopRecords env m)) :
    ∃ planned missing, missing ≠ [] ∧
      handleMergeSpecialistOutputs rt env' = .error (loopExitedEarly planned missing) := by
  -- a unit of the first batch that no iteration reaches
  obtain ⟨batch, hbatch⟩ : ∃ batch, (planBatches env)[maxIterations]? = some batch :=
    ⟨_, List.getElem?_eq_getElem hlong⟩
  obtain ⟨u, hu⟩ := List.exists_mem_of_ne_nil _
    (ne_nil_of_mem_planBatches (List.mem_of_getElem? hbatch))
  have hlate : u ∈ ((planBatches env).drop maxIterations).flatten := by
    refine List.mem_flatten.2 ⟨batch, ?_, hu⟩
    rw [List.mem_iff_getElem?]
    exact ⟨0, by rw [List.getElem?_drop, Nat.add_zero, hbatch]⟩
  have hsplit : ((planBatches env).take maxIterations).flatten ++
      ((planBatches env).drop maxIterations).flatten = planUnits env := by
    rw [← List.flatten_append, List.take_append_drop, flatten_planBatches]
  have hunrecorded : u.key ∉ (dedupeEntries (loopRecords env m)).keys := by
    rw [dedupeEntries, OrdMap.mem_keys_ofList, mem_keys_loopRecords]
    rintro ⟨v, hv, hkey⟩
    have hnodup := nodup_keys_planUnits.2 hpicks
    rw [← hsplit, List.map_append] at hnodup
    exact List.disjoint_of_nodup_append hnodup (List.mem_map_of_mem hv)
      (hkey ▸ List.mem_map_of_mem hlate)
  have hplanned : u.key ∈ ((planBatches env).flatten.map PlanUnit.key).dedup := by
    rw [flatten_planBatches, ← hsplit]
    exact List.mem_dedup.2 (List.mem_map_of_mem (List.mem_append_right _ hlate))
  have hmissing : (((planBatches env).flatten.map PlanUnit.key).dedup.filter
      (· ∉ (dedupeEntries (loopRecords env m)).keys)).mergeSort keyLe ≠ [] := by
    refine List.ne_nil_of_mem (a := u.key) (List.mem_mergeSort.2 (List.mem_filter.2 ⟨hplanned, ?_⟩))
    exact decide_eq_true hunrecorded
  refine ⟨((planBatches env).flatten.map PlanUnit.key).dedup.length, _, hmissing, ?_⟩
  rw [merge_eq henv]
  simp only [if_pos hmissing]
  rfl

/-- **The loop drains the plan exactly when the planned units fit into its iterations**, batch by
batch. -/
theorem drains_iff (env : Dict) : Drains env ↔
    ((plannedLeaves env).map fun pick =>
      unitCount (maxLeafTokens env) (fileCount pick.2 (changedFiles env))).sum ≤
        maxIterations * batchSize env := by
  rw [← length_planUnits, ← length_planBatches_le_iff]
  refine ⟨Drains.bound, fun hbound => ⟨hbound, ?_⟩⟩
  intro rt m env' henv planned missing
  refine not_loopExitedEarly henv (fun u hu => ?_) planned missing
  rw [mem_keys_loopRecords, List.take_of_length_le hbound]
  exact ⟨u, hu, rfl⟩

/-- One leaf that gets 65 files, one for each unit, and batches of one unit. -/
def manyFiles : Dict :=
  [("picked_leaves", .list [pickOf "quality"]),
    ("changed_paths", .list ((List.range 65).map fun i => .str ("f" ++ toString i ++ ".py"))),
    ("args", .dict [("max_leaf_tokens", .int 500), ("batch_size", .int 1)])]

/-- The loop ends one batch short. -/
theorem manyFiles_undrained : ¬ Drains manyFiles := by
  intro h
  have hfiles : (changedFiles manyFiles).length = 65 := by
    have hpaths : changedFiles manyFiles =
        strs (((List.range 65).map fun i => "f" ++ toString i ++ ".py").map Value.str) := by
      rw [List.map_map]
      rfl
    rw [hpaths, strs_map_str, List.length_map, List.length_range]
  have hleaves : plannedLeaves manyFiles = [("quality", ensureDict (pickOf "quality"))] := rfl
  have hmax : maxLeafTokens manyFiles = 500 := rfl
  have hcount (changed : List String) :
      fileCount (ensureDict (pickOf "quality")) changed = changed.length := rfl
  have hunits : (planUnits manyFiles).length = unitCount 500 (changedFiles manyFiles).length := by
    rw [length_planUnits, hleaves, hmax, List.map_cons, List.map_nil, List.sum_singleton, hcount]
  have hbound := length_planBatches_le_iff.1 h.bound
  rw [hunits, hfiles] at hbound
  exact absurd hbound (by decide)

end CodeReview
