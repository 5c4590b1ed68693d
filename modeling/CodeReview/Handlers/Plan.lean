import CodeReview.Handlers.Common
import CodeReview.Handlers.Glob
import CodeReview.Py.Chunks

/-!
# Planning the batches

`handle_plan_specialist_batches` gives every picked leaf its files, cuts the files of a leaf that
would overflow the context into several units, and packs the units into batches.

* `flatten_planBatches` : the batches hold the planned units, in order;
* `files_leafUnits` : the units of a leaf hold its files, in order.
-/

namespace CodeReview

open Py

/-- One slice of a leaf's files. -/
structure PlanUnit where
  leafId : String
  subIndex : ℕ
  totalSubs : ℕ
  files : List String
  deriving DecidableEq, Repr

/-- The unit as a JSON object. -/
def PlanUnit.toDict (u : PlanUnit) : Dict :=
  [("leaf_id", .str u.leafId), ("sub_index", .int u.subIndex), ("total_subs", .int u.totalSubs),
    ("files", ofStrs u.files)]

/-- What units are told apart by. -/
def PlanUnit.key (u : PlanUnit) : String × ℤ := (u.leafId, u.subIndex)

/-- `_TIER_BATCH_SIZE`. -/
def tierBatchSize : List (String × ℕ) :=
  [("trivial", 3), ("lite", 4), ("full", 5), ("sensitive", 3)]

/-- `_DEFAULT_MAX_LEAF_TOKENS`. -/
def defaultMaxLeafTokens : ℕ := 80000

/-- `_TOKENS_PER_FILE`. -/
def tokensPerFile : ℕ := 500

/-- `_math_ceil`. -/
def mathCeil (num den : ℕ) : ℕ := if den = 0 then 0 else (num + den - 1) / den

/-- A positive integer, or else the default. -/
def positiveOr (v : Value) (default : ℕ) : ℕ :=
  match v.asInt? with
  | some n => if 0 < n then n.toNat else default
  | none => default

/-- The default batch size of a tier. -/
def defaultBatchSize (tier : Value) : ℕ := (Assoc.get? tierBatchSize (tier.asStr?.getD "")).getD 4

/-- The number of units in a batch. -/
def batchSize (env : Dict) : ℕ :=
  positiveOr ((ensureDict (env.get "args")).get "batch_size") (defaultBatchSize (env.get "tier"))

/-- The tokens that a unit may take. -/
def maxLeafTokens (env : Dict) : ℕ :=
  positiveOr ((ensureDict (env.get "args")).get "max_leaf_tokens") defaultMaxLeafTokens

/-- The leaf's globs, from its activation block or hoisted onto the leaf. -/
def leafGlobs (leaf : Dict) : Value :=
  let globs := (ensureDict (leaf.get "activation")).get "file_globs"
  if globs.isNone then leaf.get "file_globs" else globs

/-- Some glob of the list matches. -/
def globsMatch (globs : List Value) (path : String) : Bool :=
  (strs globs).any fun glob => glob ≠ "" && minimatch path glob

/-- `_leaf_file_set`; without globs a leaf gets the full diff. -/
def leafFileSet (leaf : Dict) (changed : List String) : List String :=
  match leafGlobs leaf with
  | .list (g :: gs) =>
    changed.foldl (fun matched path =>
      if globsMatch (g :: gs) path ∧ path ∉ matched then matched ++ [path] else matched) []
  | _ => changed

/-- The units of a leaf. -/
def leafUnits (maxTokens : ℕ) (leafId : String) (files : List String) : List PlanUnit :=
  if files = [] then [⟨leafId, 1, 1, []⟩]
  else if maxTokens < files.length * tokensPerFile then
    let subCount := mathCeil (files.length * tokensPerFile) maxTokens
    let chunkSize := mathCeil files.length subCount
    (chunks chunkSize files subCount 0).zipIdx.map fun s => ⟨leafId, s.2 + 1, subCount, s.1⟩
  else [⟨leafId, 1, 1, files⟩]

/-- The picked leaves with a non-empty string id, with that id. -/
def plannedLeaves (env : Dict) : List (String × Dict) :=
  (dicts (ensureList (env.get "picked_leaves"))).filterMap fun leaf =>
    match leaf.get "id" with
    | .str leafId => if leafId = "" then none else some (leafId, leaf)
    | _ => none

/-- The units of all picked leaves. -/
def planUnits (env : Dict) : List PlanUnit :=
  (plannedLeaves env).flatMap fun leaf =>
    leafUnits (maxLeafTokens env) leaf.1 (leafFileSet leaf.2 (changedFiles env))

/-- The batches. -/
def planBatches (env : Dict) : List (List PlanUnit) :=
  let units := planUnits env
  chunks (batchSize env) units units.length 0

/-- The size of `union_files`. -/
def totalFilesPlanned (units : List PlanUnit) : ℕ := (units.flatMap (·.files)).dedup.length

/-- A batch as a JSON object. -/
def batchToDict (index : ℕ) (units : List PlanUnit) : Dict :=
  [("batch_index", .int index), ("units", .list (units.map fun u => .dict u.toDict))]

/-- `specialist_batches`. -/
def batchesToValue (batches : List (List PlanUnit)) : Value :=
  .list (batches.zipIdx.map fun b => .dict (batchToDict (b.2 + 1) b.1))

/-- `handle_plan_specialist_batches`. -/
def handlePlanSpecialistBatches (env : Dict) : Dict :=
  let batches := planBatches env
  [("specialist_batches", batchesToValue batches), ("total_batches", .int batches.length),
    ("total_files_planned", .int (totalFilesPlanned (planUnits env)))]

theorem positiveOr_pos (v : Value) {default : ℕ} (h : 0 < default) : 0 < positiveOr v default := by
  unfold positiveOr
  split
  · split_ifs with hn
    · omega
    · exact h
  · exact h

theorem batchSize_pos (env : Dict) : 0 < batchSize env := by
  refine positiveOr_pos _ ?_
  unfold defaultBatchSize
  cases hsize : Assoc.get? tierBatchSize ((env.get "tier").asStr?.getD "") with
  | none => decide
  | some n =>
    have hmem := Assoc.mem_of_get? hsize
    simp only [tierBatchSize, List.mem_cons, Prod.mk.injEq, List.not_mem_nil, or_false] at hmem
    rcases hmem with ⟨-, rfl⟩ | ⟨-, rfl⟩ | ⟨-, rfl⟩ | ⟨-, rfl⟩ <;> decide

theorem maxLeafTokens_pos (env : Dict) : 0 < maxLeafTokens env := positiveOr_pos _ (by decide)

theorem le_mathCeil_mul {num den : ℕ} (h : 0 < den) : num ≤ mathCeil num den * den := by
  rw [mathCeil, if_neg h.ne']
  have hdiv := Nat.div_add_mod (num + den - 1) den
  have hmod := Nat.mod_lt (num + den - 1) h
  rw [Nat.mul_comm] at hdiv
  omega

theorem mathCeil_pos {num den : ℕ} (hnum : 0 < num) (hden : 0 < den) : 0 < mathCeil num den := by
  have hle := @le_mathCeil_mul num den hden
  by_contra hzero
  rw [Nat.eq_zero_of_not_pos hzero, Nat.zero_mul] at hle
  omega

/-- The batches hold the planned units, in order. -/
theorem flatten_planBatches (env : Dict) : (planBatches env).flatten = planUnits env := by
  unfold planBatches
  rw [flatten_chunks, List.drop_zero]
  rw [Nat.zero_add]
  exact Nat.le_mul_of_pos_right _ (batchSize_pos env)

theorem ne_nil_of_mem_planBatches {env : Dict} {batch : List PlanUnit}
    (h : batch ∈ planBatches env) : batch ≠ [] := ne_nil_of_mem_chunks (batchSize_pos env) h

/-- The units of a leaf hold its files, in order. -/
theorem files_leafUnits {maxTokens : ℕ} (hmax : 0 < maxTokens) (leafId : String)
    (files : List String) : (leafUnits maxTokens leafId files).flatMap (·.files) = files := by
  unfold leafUnits
  split_ifs with hempty hlarge
  · simp [hempty]
  · have hlen : 0 < files.length := List.length_pos_iff.2 hempty
    have hcount : 0 < mathCeil (files.length * tokensPerFile) maxTokens :=
      mathCeil_pos (by rw [tokensPerFile]; omega) hmax
    have hflat : (chunks (mathCeil files.length
        (mathCeil (files.length * tokensPerFile) maxTokens)) files
        (mathCeil (files.length * tokensPerFile) maxTokens) 0).flatten = files := by
      rw [flatten_chunks, List.drop_zero]
      rw [Nat.zero_add, Nat.mul_comm]
      exact le_mathCeil_mul hcount
    rw [List.flatMap_map, List.flatMap_def]
    have hfst := List.zipIdx_map_fst 0 (chunks (mathCeil files.length
        (mathCeil (files.length * tokensPerFile) maxTokens)) files
        (mathCeil (files.length * tokensPerFile) maxTokens) 0)
    rw [← hfst] at hflat
    exact hflat
  · simp

/-- The files of a leaf that is split are cut into slices of this size. -/
def sliceSize (maxTokens count : ℕ) : ℕ :=
  mathCeil count (mathCeil (count * tokensPerFile) maxTokens)

/-- The files of a leaf do not fit into one unit. -/
def IsSplit (maxTokens count : ℕ) : Prop := maxTokens < count * tokensPerFile

/-! ### The files of a leaf -/

/-- The leaf has a list of globs; without one it gets the full diff. -/
def HasGlobs (leaf : Dict) : Prop := ∃ g gs, leafGlobs leaf = .list (g :: gs)

theorem leafFileSet_of_not_hasGlobs {leaf : Dict} (h : ¬ HasGlobs leaf) (changed : List String) :
    leafFileSet leaf changed = changed := by
  unfold leafFileSet
  split
  · rename_i g gs hglobs
    exact absurd ⟨g, gs, hglobs⟩ h
  · rfl

/-- The files that globs match are listed once. -/
theorem nodup_leafFileSet {leaf : Dict} (h : HasGlobs leaf) (changed : List String) :
    (leafFileSet leaf changed).Nodup := by
  obtain ⟨g, gs, hglobs⟩ := h
  suffices ∀ matched : List String, matched.Nodup → (changed.foldl (fun matched path =>
      if globsMatch (g :: gs) path ∧ path ∉ matched then matched ++ [path] else matched)
        matched).Nodup by
    have hset := this [] List.nodup_nil
    rwa [leafFileSet, hglobs]
  induction changed with
  | nil => exact fun _ hmatched => hmatched
  | cons path changed ih =>
    intro matched hmatched
    rw [List.foldl_cons]
    split_ifs with hnew
    · exact ih _ (hmatched.append (List.nodup_singleton path)
        (List.disjoint_singleton.2 hnew.2))
    · exact ih _ hmatched

/-- Globs match the changed paths that one of them matches. -/
theorem mem_leafFileSet {leaf : Dict} {g : Value} {gs : List Value}
    (hglobs : leafGlobs leaf = .list (g :: gs)) {changed : List String} {path : String} :
    path ∈ leafFileSet leaf changed ↔ path ∈ changed ∧ globsMatch (g :: gs) path := by
  suffices ∀ matched : List String, path ∈ changed.foldl (fun matched path =>
      if globsMatch (g :: gs) path ∧ path ∉ matched then matched ++ [path] else matched) matched ↔
        path ∈ matched ∨ path ∈ changed ∧ globsMatch (g :: gs) path by
    have hset := this []
    rw [leafFileSet, hglobs]
    simpa using hset
  -- the loop appends to what has matched, each path once
  induction changed with
  | nil => simp
  | cons p changed ih =>
    intro matched
    rw [List.foldl_cons, ih, List.mem_cons]
    by_cases hp : globsMatch (g :: gs) p ∧ p ∉ matched
    · rw [if_pos hp, List.mem_append, List.mem_singleton]
      constructor
      · rintro ((hmem | rfl) | hmem)
        · exact .inl hmem
        · exact .inr ⟨.inl rfl, hp.1⟩
        · exact .inr ⟨.inr hmem.1, hmem.2⟩
      · rintro (hmem | ⟨rfl | hmem, hmatch⟩)
        · exact .inl (.inl hmem)
        · exact .inl (.inr rfl)
        · exact .inr ⟨hmem, hmatch⟩
    · rw [if_neg hp]
      constructor
      · rintro (hmem | hmem)
        · exact .inl hmem
        · exact .inr ⟨.inr hmem.1, hmem.2⟩
      · rintro (hmem | ⟨rfl | hmem, hmatch⟩)
        · exact .inl hmem
        · exact .inl (by_contra fun hnot => hp ⟨hmatch, hnot⟩)
        · exact .inr ⟨hmem, hmatch⟩

/-! ### The units of a pick -/

theorem leafId_of_mem_leafUnits {maxTokens : ℕ} (leafId : String) (files : List String)
    {u : PlanUnit} (hu : u ∈ leafUnits maxTokens leafId files) : u.leafId = leafId := by
  unfold leafUnits at hu
  split_ifs at hu
  · rw [List.mem_singleton.1 hu]
  · obtain ⟨s, -, rfl⟩ := List.mem_map.1 hu
    rfl
  · rw [List.mem_singleton.1 hu]

/-- The ids of the picks that are planned. -/
def pickIds (env : Dict) : List String := (plannedLeaves env).map Prod.fst

/-- The units of one pick. -/
def pickUnits (env : Dict) (pick : String × Dict) : List PlanUnit :=
  leafUnits (maxLeafTokens env) pick.1 (leafFileSet pick.2 (changedFiles env))

theorem planUnits_eq (env : Dict) :
    planUnits env = (plannedLeaves env).flatMap (pickUnits env) := rfl

theorem leafId_of_mem_pickUnits {env : Dict} {pick : String × Dict} {u : PlanUnit}
    (hu : u ∈ pickUnits env pick) : u.leafId = pick.1 := leafId_of_mem_leafUnits _ _ hu

/-- The files of a pick's units are those of the leaf. -/
theorem mem_files_pickUnits {env : Dict} {pick : String × Dict} {file : String} :
    (∃ u ∈ pickUnits env pick, file ∈ u.files) ↔
      file ∈ leafFileSet pick.2 (changedFiles env) := by
  rw [← files_leafUnits (maxLeafTokens_pos env) pick.1 (leafFileSet pick.2 (changedFiles env)),
    List.mem_flatMap]
  rfl

end CodeReview
