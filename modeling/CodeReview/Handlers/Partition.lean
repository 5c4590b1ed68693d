import CodeReview.Handlers.Plan
import Mathlib.Data.Finset.Card

/-!
# The planner partitions the work

Two rounds of chunking: the files of a leaf are cut into units, and the units are packed into
batches.

* `cuts_leafUnits`, `packs_planBatches` : each round keeps everything, in order;
* `planner_partitions` : **so every leaf's files are planned once, and every unit is in one batch**;
* `keepsBudget_iff` : **the units of a leaf keep to the token budget, and announce their own
  number, exactly when the announced number of units can hold its files.**
-/

namespace CodeReview

open Py

/-- The units of one leaf hold its files, in order, and are numbered from 1 on. -/
structure Cuts (leafId : String) (files : List String) (units : List PlanUnit) : Prop where
  leafId_eq : ∀ u ∈ units, u.leafId = leafId
  files_eq : units.flatMap (·.files) = files
  subIndex_eq : units.map (·.subIndex) = List.range' 1 units.length
  eq_of_nil : files = [] → units = [⟨leafId, 1, 1, []⟩]

/-- The batches hold the units, in order, and only the last one may be short. -/
structure Packs (size : ℕ) (units : List PlanUnit) (batches : List (List PlanUnit)) : Prop where
  flatten_eq : batches.flatten = units
  length_le : ∀ batch ∈ batches, batch.length ≤ size
  length_eq : ∀ batch ∈ batches.dropLast, batch.length = size

/-- The field `batch_index` of every batch. -/
def batchIndices (batches : Value) : List Value :=
  (dicts (ensureList batches)).map (·.get "batch_index")

theorem map_succ_zipIdx {α : Type} (xs : List α) :
    (xs.zipIdx.map fun x => x.2 + 1) = List.range' 1 xs.length := by
  have hmap := congrArg (List.map (1 + ·)) (List.zipIdx_map_snd 0 xs)
  rw [List.map_map, List.map_add_range'] at hmap
  rw [← hmap]
  exact List.map_congr_left fun x _ => Nat.add_comm _ _

theorem subIndex_leafUnits (maxTokens : ℕ) (leafId : String) (files : List String) :
    (leafUnits maxTokens leafId files).map (·.subIndex) =
      List.range' 1 (leafUnits maxTokens leafId files).length := by
  unfold leafUnits
  split_ifs
  · rfl
  · rw [List.map_map, List.length_map, List.length_zipIdx, ← map_succ_zipIdx]
    rfl
  · rfl

/-- **The units of a leaf hold its files.** -/
theorem cuts_leafUnits {maxTokens : ℕ} (hmax : 0 < maxTokens) (leafId : String)
    (files : List String) : Cuts leafId files (leafUnits maxTokens leafId files) where
  leafId_eq _ hu := leafId_of_mem_leafUnits _ _ hu
  files_eq := files_leafUnits hmax leafId files
  subIndex_eq := subIndex_leafUnits maxTokens leafId files
  eq_of_nil hnil := if_pos hnil

/-- **The batches hold the units.** -/
theorem packs_planBatches (env : Dict) :
    Packs (batchSize env) (planUnits env) (planBatches env) where
  flatten_eq := flatten_planBatches env
  length_le _ h := length_le_of_mem_chunks h
  length_eq _ h := length_of_mem_dropLast_chunks h

theorem batchIndices_batchesToValue (batches : List (List PlanUnit)) :
    batchIndices (batchesToValue batches) =
      (List.range' 1 batches.length).map fun k : ℕ => Value.int k := by
  have hdicts : dicts (ensureList (batchesToValue batches)) =
      batches.zipIdx.map fun b => batchToDict (b.2 + 1) b.1 := by
    have hmap := dicts_map (batches.zipIdx.map fun b => batchToDict (b.2 + 1) b.1)
    rwa [List.map_map] at hmap
  rw [batchIndices, hdicts, ← map_succ_zipIdx, List.map_map, List.map_map]
  rfl

/-- **The planner partitions the work**: there is one cut of its files for every planned leaf, the
batches pack the cuts of all leaves, and the handler returns these batches with their numbers. -/
theorem planner_partitions (env : Dict) :
    ∃ (cuts : List (List PlanUnit)) (batches : List (List PlanUnit)),
      List.Forall₂ (fun pick units => Cuts pick.1 (leafFileSet pick.2 (changedFiles env)) units)
        (plannedLeaves env) cuts ∧
      Packs (batchSize env) cuts.flatten batches ∧
      (handlePlanSpecialistBatches env).get "specialist_batches" = batchesToValue batches ∧
      batchIndices ((handlePlanSpecialistBatches env).get "specialist_batches") =
        (List.range' 1 batches.length).map (fun k : ℕ => Value.int k) ∧
      (handlePlanSpecialistBatches env).get "total_batches" = .int batches.length ∧
      (handlePlanSpecialistBatches env).get "total_files_planned" =
        .int (cuts.flatten.flatMap (·.files)).toFinset.card := by
  have hunits : ((plannedLeaves env).map (pickUnits env)).flatten = planUnits env := by
    rw [planUnits_eq, List.flatMap_def]
  refine ⟨(plannedLeaves env).map (pickUnits env), planBatches env, ?_, ?_, rfl, ?_, rfl, ?_⟩
  · refine List.forall₂_map_right_iff.2 (List.forall₂_same.2 ?_)
    intro pick _
    exact cuts_leafUnits (maxLeafTokens_pos env) _ _
  · rw [hunits]
    exact packs_planBatches env
  · exact batchIndices_batchesToValue _
  · rw [hunits, List.card_toFinset]
    rfl

/-! ### The token budget -/

/-- Every unit keeps to the budget, and announces the number of units. -/
def KeepsBudget (maxTokens : ℕ) (units : List PlanUnit) : Prop :=
  ∀ u ∈ units, u.files.length * tokensPerFile ≤ maxTokens ∧ u.totalSubs = units.length

instance (maxTokens : ℕ) (units : List PlanUnit) : Decidable (KeepsBudget maxTokens units) :=
  inferInstanceAs (Decidable (∀ u ∈ units, _))

/-- The announced number of units holds the files, where each takes as many as the budget allows. -/
def Holds (maxTokens count : ℕ) : Prop :=
  count ≤ mathCeil (count * tokensPerFile) maxTokens * (maxTokens / tokensPerFile)

theorem mathCeil_le_iff {num den bound : ℕ} (h : 0 < den) :
    mathCeil num den ≤ bound ↔ num ≤ bound * den := by
  rw [mathCeil, if_neg h.ne', Nat.div_le_iff_le_mul h]
  omega

theorem sliceSize_le_iff {maxTokens count : ℕ} (hmax : 0 < maxTokens) (hcount : 0 < count) :
    sliceSize maxTokens count * tokensPerFile ≤ maxTokens ↔ Holds maxTokens count := by
  have hsubs : 0 < mathCeil (count * tokensPerFile) maxTokens :=
    mathCeil_pos (by rw [tokensPerFile]; omega) hmax
  rw [← Nat.le_div_iff_mul_le (by decide), sliceSize, mathCeil_le_iff hsubs, Nat.mul_comm]
  rfl

/-- Leaves that fit into one unit are within the budget. -/
theorem holds_of_not_isSplit {maxTokens count : ℕ} (hmax : 0 < maxTokens)
    (h : ¬ IsSplit maxTokens count) : Holds maxTokens count := by
  by_cases hzero : count = 0
  · rw [hzero]
    exact Nat.zero_le _
  · have hsubs : 0 < mathCeil (count * tokensPerFile) maxTokens :=
      mathCeil_pos (by rw [tokensPerFile]; omega) hmax
    calc count ≤ maxTokens / tokensPerFile := by
          rw [Nat.le_div_iff_mul_le (by decide)]
          exact Nat.le_of_not_lt h
      _ ≤ _ := Nat.le_mul_of_pos_left _ hsubs

/-- The slices of a leaf that is split. -/
def slicesOf (maxTokens : ℕ) (files : List String) : List (List String) :=
  chunks (sliceSize maxTokens files.length) files
    (mathCeil (files.length * tokensPerFile) maxTokens) 0

theorem leafUnits_of_isSplit {maxTokens : ℕ} {files : List String}
    (h : IsSplit maxTokens files.length) (leafId : String) :
    leafUnits maxTokens leafId files = (slicesOf maxTokens files).zipIdx.map fun s =>
      ⟨leafId, s.2 + 1, mathCeil (files.length * tokensPerFile) maxTokens, s.1⟩ := by
  have hne : files ≠ [] := by
    rintro rfl
    rw [IsSplit, List.length_nil, Nat.zero_mul] at h
    exact Nat.not_lt_zero _ h
  unfold leafUnits
  rw [if_neg hne]
  exact if_pos h

theorem length_slicesOf_pos {maxTokens : ℕ} {files : List String} (hmax : 0 < maxTokens)
    (h : IsSplit maxTokens files.length) : 0 < files.length ∧
      0 < mathCeil (files.length * tokensPerFile) maxTokens := by
  rw [IsSplit, tokensPerFile] at h
  have hpos : 0 < files.length * tokensPerFile := by
    rw [tokensPerFile]
    omega
  exact ⟨by omega, mathCeil_pos hpos hmax⟩

/-- The first slice is full. -/
theorem exists_full_slice {maxTokens : ℕ} {files : List String} (hmax : 0 < maxTokens)
    (h : IsSplit maxTokens files.length) :
    ∃ slice, (slicesOf maxTokens files)[0]? = some slice ∧
      slice.length = sliceSize maxTokens files.length := by
  obtain ⟨hlen, hsubs⟩ := length_slicesOf_pos hmax h
  have hle : sliceSize maxTokens files.length ≤ files.length :=
    (mathCeil_le_iff hsubs).2 (Nat.le_mul_of_pos_right _ hsubs)
  refine ⟨files.take (sliceSize maxTokens files.length), ?_, ?_⟩
  · rw [slicesOf, getElem?_chunks, if_pos ⟨hsubs, by omega⟩, Nat.zero_mul, List.drop_zero]
  · rw [List.length_take]
    omega

/-- Where the slices keep to the budget, the planner cuts as many as it announces. -/
theorem length_slicesOf {maxTokens : ℕ} {files : List String} (hmax : 0 < maxTokens)
    (hsplit : IsSplit maxTokens files.length)
    (h : sliceSize maxTokens files.length * tokensPerFile ≤ maxTokens) :
    (slicesOf maxTokens files).length = mathCeil (files.length * tokensPerFile) maxTokens := by
  obtain ⟨hlen, hsubs⟩ := length_slicesOf_pos hmax hsplit
  refine Nat.le_antisymm (length_chunks_le _ _ _ _) ((mathCeil_le_iff hmax).2 ?_)
  have hcover : files.length ≤
      (slicesOf maxTokens files).length * sliceSize maxTokens files.length := by
    refine length_le_length_chunks_mul ?_
    rw [Nat.mul_comm]
    exact le_mathCeil_mul hsubs
  calc files.length * tokensPerFile
    _ ≤ (slicesOf maxTokens files).length * sliceSize maxTokens files.length * tokensPerFile :=
        Nat.mul_le_mul_right _ hcover
    _ = (slicesOf maxTokens files).length * (sliceSize maxTokens files.length * tokensPerFile) :=
        Nat.mul_assoc _ _ _
    _ ≤ (slicesOf maxTokens files).length * maxTokens := Nat.mul_le_mul_left _ h

theorem keepsBudget_leafUnits {maxTokens : ℕ} (hmax : 0 < maxTokens) (leafId : String)
    (files : List String) :
    KeepsBudget maxTokens (leafUnits maxTokens leafId files) ↔ Holds maxTokens files.length := by
  by_cases hsplit : IsSplit maxTokens files.length
  · rw [← sliceSize_le_iff hmax (length_slicesOf_pos hmax hsplit).1, leafUnits_of_isSplit hsplit,
      KeepsBudget, List.forall_mem_map, List.length_map, List.length_zipIdx]
    constructor
    · intro hkeeps
      obtain ⟨slice, hfirst, hfull⟩ := exists_full_slice hmax hsplit
      have hslice := hkeeps (slice, 0) (List.mem_zipIdx_iff_getElem?.2 hfirst)
      rw [← hfull]
      exact hslice.1
    · intro hsize s hs
      have hslice : s.1.length ≤ sliceSize maxTokens files.length :=
        length_le_of_mem_chunks (List.fst_mem_of_mem_zipIdx hs)
      exact ⟨(Nat.mul_le_mul_right _ hslice).trans hsize, (length_slicesOf hmax hsplit hsize).symm⟩
  · have hfit := holds_of_not_isSplit hmax hsplit
    refine iff_of_true ?_ hfit
    intro u hu
    unfold leafUnits at hu ⊢
    split_ifs at hu ⊢ with hempty hlarge
    · rw [List.mem_singleton.1 hu]
      exact ⟨by simp, rfl⟩
    · exact absurd hlarge hsplit
    · rw [List.mem_singleton.1 hu]
      exact ⟨Nat.le_of_not_lt hlarge, rfl⟩

/-- **The units of a leaf keep to the budget and announce their number exactly when the announced
number of units can hold its files.** -/
theorem keepsBudget_iff (env : Dict) (pick : String × Dict) :
    KeepsBudget (maxLeafTokens env) (pickUnits env pick) ↔
      Holds (maxLeafTokens env) (leafFileSet pick.2 (changedFiles env)).length :=
  keepsBudget_leafUnits (maxLeafTokens_pos env) _ _

/-- Five paths, where a unit has tokens for one file. -/
def fivePaths : Dict :=
  [("args", .dict [("max_leaf_tokens", .int 700)]),
    ("picked_leaves", .list [.dict [("id", .str "leaf")]]),
    ("changed_paths", ofStrs ["a.py", "b.py", "c.py", "d.py", "e.py"])]

/-- The planner announces four units, cuts three, and gives two of them two files. -/
theorem fivePaths_overfull : ¬ ∀ (env : Dict) (pick : String × Dict), pick ∈ plannedLeaves env →
    tokensPerFile ≤ maxLeafTokens env → KeepsBudget (maxLeafTokens env) (pickUnits env pick) := by
  intro h
  have hkeeps := h fivePaths ("leaf", [("id", .str "leaf")]) (List.mem_singleton_self _)
    (by decide)
  revert hkeeps
  decide

end CodeReview
