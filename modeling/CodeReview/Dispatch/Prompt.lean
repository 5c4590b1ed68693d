import CodeReview.Dispatch.Leaves
import CodeReview.Py.JsonDump

/-!
# The inputs in a routing prompt

`dispatch_worker` writes the compact inputs as JSON into the prompt, and cuts the text at
`_WORKER_INPUT_CAP` characters.

* `writes_inputBlock` : an uncut block is well-formed and has the id of every leaf;
* `keepsLeaves_iff` : **every leaf reaches the prompt exactly when the block is not cut.**
-/

namespace CodeReview

open Py JsonText

variable {rt : Runtime}

/-- `_WORKER_INPUT_CAP`. -/
def workerInputCap : ℕ := 160000

/-- The JSON block in the prompt of a worker. -/
def inputBlock (rt : Runtime) (inputs : Dict) : List Char :=
  (Json.dumps rt (.dict (compactInputs inputs))).take workerInputCap

/-- The prompt of a worker, around the block; `role` and `rule` are the texts that
`_load_prompt(_ROLE_BY_STATE[state_id])` and `_OUTPUT_RULE` give. -/
def workerPrompt (rt : Runtime) (role base head rule : String) (inputs : Dict) : String :=
  role ++ "\n\n## RUN INPUTS (review base " ++ base ++ "..head " ++ head ++
    " in this repo)\n```json\n" ++ String.ofList (inputBlock rt inputs) ++ "\n```" ++ rule

/-- The block is well-formed JSON, and the id of every leaf of the list stands in it. -/
def KeepsLeaves (rt : Runtime) (key : String) (leaves : List Value) (block : List Char) : Prop :=
  ∃ members items, Writes (.value (.obj members)) block ∧ (units key.toList, .arr items) ∈ members ∧
    ∀ leaf id, .dict leaf ∈ leaves → Assoc.get? leaf "id" = some id →
      ∃ fields, .obj fields ∈ items ∧ (units "id".toList, Json.treeOf rt id) ∈ fields

/-- A compact leaf has the id of the leaf. -/
theorem get?_compactLeaf_id (leaf : Dict) :
    Assoc.get? (compactLeaf leaf) "id" = Assoc.get? leaf "id" := by
  have hlight : Assoc.get? (Assoc.without leaf heavyLeafKeys) "id" = Assoc.get? leaf "id" :=
    Assoc.get?_without _ _ (by decide)
  unfold compactLeaf
  split
  · rw [Assoc.get?_set, if_neg (by decide), hlight]
  · exact hlight

/-- The tree of the compact inputs has the id of every leaf. -/
theorem ids_in_tree {inputs : Dict} {key : String} (hkey : key ∈ leafListKeys) {leaves : List Value}
    (hleaves : inputs.get key = .list leaves) :
    ∃ items, (units key.toList, .arr items) ∈ Json.membersOf rt (compactInputs inputs) ∧
      ∀ leaf id, .dict leaf ∈ leaves → Assoc.get? leaf "id" = some id →
        ∃ fields, .obj fields ∈ items ∧ (units "id".toList, Json.treeOf rt id) ∈ fields := by
  have hget : Assoc.get? (compactInputs inputs) key = some (.list (leaves.map compactItem)) := by
    have h := compactInputs_get inputs key
    rw [if_pos hkey, hleaves, Dict.get] at h
    cases hk : Assoc.get? (compactInputs inputs) key with
    | none => simp [hk, compactValue] at h
    | some v =>
      rw [hk] at h
      exact congrArg some h
  refine ⟨(leaves.map compactItem).map (Json.treeOf rt), ?_, fun leaf id hleaf hid => ?_⟩
  · rw [Json.membersOf_eq, List.mem_map]
    refine ⟨_, Assoc.mem_of_get? hget, ?_⟩
    rw [Json.treeOf, Json.treesOf_eq]
  · refine ⟨Json.membersOf rt (compactLeaf leaf), ?_, ?_⟩
    · rw [List.map_map, List.mem_map]
      exact ⟨.dict leaf, hleaf, rfl⟩
    · rw [← get?_compactLeaf_id] at hid
      rw [Json.membersOf_eq, List.mem_map]
      exact ⟨_, Assoc.mem_of_get? hid, rfl⟩

theorem writes_inputBlock (hfloat : Json.FloatRepr rt) {inputs : Dict} {key : String}
    (hkey : key ∈ leafListKeys) {leaves : List Value} (hleaves : inputs.get key = .list leaves)
    (hcap : Json.dumpSize rt (.dict (compactInputs inputs)) ≤ workerInputCap) :
    KeepsLeaves rt key leaves (inputBlock rt inputs) := by
  obtain ⟨items, hitems, hids⟩ := @ids_in_tree rt _ _ hkey _ hleaves
  refine ⟨_, items, ?_, hitems, hids⟩
  rw [inputBlock, List.take_of_length_le (by rwa [Json.length_dumps])]
  exact Json.writes_dumps hfloat (.dict (compactInputs inputs))

/-- A block that is cut is not well-formed, whatever it was to hold. -/
theorem not_writes_inputBlock (hfloat : Json.FloatRepr rt) {inputs : Dict}
    (hcap : workerInputCap < Json.dumpSize rt (.dict (compactInputs inputs))) (node : Node) :
    ¬ Writes node (inputBlock rt inputs) := by
  have hlength : workerInputCap < (Json.dumps rt (.dict (compactInputs inputs))).length := by
    rwa [Json.length_dumps]
  have hclosed : Closed (Json.dumpMembers rt (compactInputs inputs)) := by
    cases h : compactInputs inputs with
    | nil => exact .nil
    | cons kv kvs =>
      exact (Json.writes_dumpMembers hfloat (kv :: kvs) (List.cons_ne_nil _ _) []
        Json.blank_nil).closed
  have hcut : inputBlock rt inputs ++
      (Json.dumps rt (.dict (compactInputs inputs))).drop workerInputCap =
        '\x7b' :: Json.dumpMembers rt (compactInputs inputs) ++ ['\x7d'] :=
    List.take_append_drop _ _
  refine not_writes_of_cut hclosed ?_ ?_ hcut node
  · refine List.ne_nil_of_length_pos ?_
    rw [inputBlock, List.length_take_of_le hlength.le]
    decide
  · refine List.ne_nil_of_length_pos ?_
    rw [List.length_drop]
    omega

/-- **Every leaf reaches the routing prompt exactly when the compact inputs fit in the cap.** -/
theorem keepsLeaves_iff (hfloat : Json.FloatRepr rt) {inputs : Dict} {key : String}
    (hkey : key ∈ leafListKeys) {leaves : List Value} (hleaves : inputs.get key = .list leaves) :
    KeepsLeaves rt key leaves (inputBlock rt inputs) ↔
      Json.dumpSize rt (.dict (compactInputs inputs)) ≤ workerInputCap := by
  constructor
  · rintro ⟨members, _, hwrites, -⟩
    exact not_lt.1 fun hcap => not_writes_inputBlock hfloat hcap _ hwrites
  · exact writes_inputBlock hfloat hkey hleaves

/-- A runtime for inputs without floats. -/
def halfRuntime : Runtime := { Runtime.ascii with repr := fun _ => "0.5" }

theorem floatRepr_halfRuntime : Json.FloatRepr halfRuntime := by
  intro q
  have hhalf : IsNumber ([] ++ (['0'] ++ (['.', '5'] ++ []))) :=
    .mk (by decide) (.inl rfl) (.inr ⟨['5'], ⟨by decide, by simp⟩, rfl⟩) (.inl rfl)
  have htext : "0.5".toList = ['0', '.', '5'] := by decide
  change IsNumber "0.5".toList
  rw [htext]
  exact hhalf

/-- One leaf with a `focus`. -/
def focusInputs (focus : String) : Dict :=
  [("activated_leaves", .list [.dict [("id", .str "quality"), ("focus", .str focus)]])]

theorem dumpSize_focusInputs (focus : String) :
    Json.dumpSize halfRuntime (.dict (compactInputs (focusInputs focus))) =
      52 + Json.strSize focus := by
  change 2 + (Json.strSize "activated_leaves" + 2 + (2 + (2 + (Json.strSize "id" + 2 +
    Json.strSize "quality" + 2 + (Json.strSize "focus" + 2 + Json.strSize focus))))) = _
  rw [show Json.strSize "activated_leaves" = 18 by decide, show Json.strSize "id" = 4 by decide,
    show Json.strSize "quality" = 9 by decide, show Json.strSize "focus" = 7 by decide]
  omega

/-- Three leaves, of which one has heavy fields and one no id. -/
def threeLeaves : List Value :=
  [.dict [("id", .str "quality"), ("covers", .list ["names", "tests", "comments", "errors"]),
      ("audit_surface", .list ["handlers"])],
    .dict [("id", .str "sec-input"), ("focus", .str "inputs")],
    .dict [("focus", .str "docs")]]

theorem keepsLeaves_iff_threeLeaves : KeepsLeaves halfRuntime "activated_leaves" threeLeaves
    (inputBlock halfRuntime [("activated_leaves", .list threeLeaves)]) := by
  refine (@keepsLeaves_iff halfRuntime floatRepr_halfRuntime
    [("activated_leaves", .list threeLeaves)] "activated_leaves" (by decide) threeLeaves rfl).2 ?_
  decide +kernel

theorem not_writes_longFocus {n : ℕ} (h : workerInputCap ≤ n) (node : Node) :
    ¬ Writes node (inputBlock halfRuntime
      (focusInputs (String.ofList (List.replicate n 'f')))) := by
  refine not_writes_inputBlock floatRepr_halfRuntime ?_ node
  rw [dumpSize_focusInputs, Json.strSize, String.toList_ofList, List.map_replicate,
    List.sum_replicate_nat, show Json.charSize 'f' = 1 by decide]
  omega

/-- **A long field of one leaf leaves no well-formed block.** -/
theorem longFocus_cut : ¬ ∃ tree, Writes (.value tree)
    (inputBlock halfRuntime (focusInputs (String.ofList (List.replicate 160000 'f')))) :=
  fun ⟨_, hwrites⟩ => not_writes_longFocus le_rfl _ hwrites

end CodeReview
