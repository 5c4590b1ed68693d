import CodeReview.Handlers.Common
import Mathlib.Data.List.Forall2

/-!
# Compact leaves

A worker is shown the leaves without their heavy fields and answers with some of them; what was
left out is put back from the full leaves by id.

* `compactInputs_get` : what a worker is shown of a list of leaves;
* `rehydrate_compact_iff` : **leaves that are echoed as shown are restored exactly when none has
  more than three `covers`.**
-/

namespace CodeReview

open Py

/-- `_LEAF_LIST_KEYS`. -/
def leafListKeys : List String := ["activated_leaves", "stage_a_candidates", "candidate_leaves"]

/-- `_HEAVY_LEAF_KEYS`. -/
def heavyLeafKeys : List String := ["covers", "audit_surface"]

/-- `_compact_leaf`. -/
def compactLeaf (leaf : Dict) : Dict :=
  let out := Assoc.without leaf heavyLeafKeys
  match leaf.get "covers" with
  | .list (c :: cs) => Assoc.set out "covers" (.list ((c :: cs).take 3))
  | _ => out

/-- An entry of a leaf list as it is shown: only dicts are leaves. -/
def compactItem : Value → Value
  | .dict leaf => .dict (compactLeaf leaf)
  | v => v

/-- One key of `_compact_inputs`. -/
def compactKey (out : Dict) (k : String) : Dict :=
  match out.get k with
  | .list v => Assoc.set out k (.list (v.map compactItem))
  | _ => out

/-- `_compact_inputs`. -/
def compactInputs (inputs : Dict) : Dict := leafListKeys.foldl compactKey inputs

/-- `_index_by_id`. -/
def indexById : Value → OrdMap String Dict
  | .list leaves =>
    OrdMap.ofList ((dicts leaves).filterMap fun lf => (lf.get "id").asStr?.map fun id => (id, lf))
  | _ => OrdMap.empty

/-- `v not in (None, [], "")`. -/
def isFilled (v : Value) : Bool :=
  !(v.eqv .none || v.eqv (.list []) || v.eqv (.str ""))

/-- `source_by_id.get(v)`: only a string can be a key, and an unhashable value raises. -/
def sourceLeaf (source : OrdMap String Dict) (id : Value) : Result (Option Dict) :=
  if id.hashable then .ok (id.asStr?.bind source.get?) else .error .typeError

/-- One entry of `_rehydrate`. -/
def rehydrateLeaf (source : OrdMap String Dict) (p : Dict) : Result Dict := do
  match ← sourceLeaf source (p.getD "id" (.str "")) with
  | some (kv :: full) => return Assoc.update (kv :: full) (p.filter fun kv => isFilled kv.2)
  | _ => return p

/-- `_rehydrate`. -/
def rehydrate (picked : Value) (source : OrdMap String Dict) : Result (List Dict) :=
  (dicts (ensureList picked)).mapM (rehydrateLeaf source)

/-! ### What is shown -/

/-- The value of a leaf list as it is shown. -/
def compactValue : Value → Value
  | .list v => .list (v.map compactItem)
  | v => v

theorem compactKey_get (out : Dict) (k k' : String) :
    (compactKey out k).get k' = if k = k' then compactValue (out.get k) else out.get k' := by
  unfold compactKey
  by_cases h : k = k'
  · subst h
    cases hv : out.get k <;> simp [hv, compactValue]
  · cases hv : out.get k <;> simp [h]

/-- **A leaf list is shown leaf by leaf, and no other input is changed.** -/
theorem compactInputs_get (inputs : Dict) (k : String) :
    (compactInputs inputs).get k =
      if k ∈ leafListKeys then compactValue (inputs.get k) else inputs.get k := by
  simp only [compactInputs, leafListKeys, List.foldl_cons, List.foldl_nil, compactKey_get]
  by_cases h₁ : "activated_leaves" = k
  · subst h₁
    simp
  · by_cases h₂ : "stage_a_candidates" = k
    · subst h₂
      simp
    · by_cases h₃ : "candidate_leaves" = k
      · subst h₃
        simp
      · simp [h₁, h₂, h₃, Ne.symm h₁, Ne.symm h₂, Ne.symm h₃]

/-! ### What is put back -/

/-- A leaf: a dict with a string id. -/
structure Leaf where
  fields : Dict
  nodup : (fields.map Prod.fst).Nodup
  id : String
  id_eq : Assoc.get? fields "id" = some (.str id)

/-- The fields that are not heavy are echoed as they are. -/
theorem update_light (p : Leaf) :
    Assoc.update p.fields ((Assoc.without p.fields heavyLeafKeys).filter fun kv => isFilled kv.2) =
      p.fields := by
  refine Assoc.update_of_agree ?_
  intro kv hkv
  exact Assoc.get?_of_mem p.nodup (List.mem_of_mem_filter (List.mem_of_mem_filter hkv))

/-- Written back over its leaf, a shortened list of covers replaces the covers and nothing else. -/
theorem update_covers (p : Leaf) (c : Value) (cs : List Value) :
    Assoc.update p.fields ((Assoc.set (Assoc.without p.fields heavyLeafKeys) "covers"
        (.list ((c :: cs).take 3))).filter fun kv => isFilled kv.2) =
      Assoc.set p.fields "covers" (.list ((c :: cs).take 3)) := by
  have hset : Assoc.set (Assoc.without p.fields heavyLeafKeys) "covers"
      (.list ((c :: cs).take 3)) =
        Assoc.without p.fields heavyLeafKeys ++ [("covers", .list ((c :: cs).take 3))] := by
    have hlight : Assoc.get? (Assoc.without p.fields heavyLeafKeys) "covers" = none :=
      Assoc.get?_without_of_mem (by decide)
    have h := Assoc.set_append hlight [] (Value.list ((c :: cs).take 3))
    rwa [List.append_nil] at h
  have hfilled : ([("covers", Value.list ((c :: cs).take 3))] : Dict).filter
      (fun kv => isFilled kv.2) = [("covers", .list ((c :: cs).take 3))] := rfl
  rw [hset, List.filter_append, hfilled, Assoc.update_append, update_light]
  rfl

/-- The leaf that the echo of `p` is completed to: only `covers` can differ. -/
theorem update_compactLeaf (p : Leaf) :
    Assoc.update p.fields ((compactLeaf p.fields).filter fun kv => isFilled kv.2) = p.fields ↔
      ∀ cs, p.fields.get "covers" = .list cs → cs.length ≤ 3 := by
  unfold compactLeaf
  split
  · rename_i c cs hcovers
    have hget : Assoc.get? p.fields "covers" = some (.list (c :: cs)) := by
      rw [Dict.get] at hcovers
      cases h : Assoc.get? p.fields "covers" <;> simp_all
    rw [update_covers]
    constructor
    · intro h cs' hcs'
      have htake : Assoc.get? p.fields "covers" = some (.list ((c :: cs).take 3)) := by
        conv_lhs => rw [← h]
        simp
      rw [hget, Option.some.injEq, Value.list.injEq] at htake
      obtain rfl := Value.list.inj (hcovers.symm.trans hcs')
      exact List.take_eq_self_iff _ |>.1 htake.symm
    · intro h
      rw [List.take_of_length_le (h _ hcovers)]
      exact Assoc.set_of_get? hget
  · -- no covers, or none in the list: nothing was cut
    rename_i hcovers
    refine iff_of_true (update_light p) ?_
    intro cs hcs
    cases cs with
    | nil => exact Nat.zero_le _
    | cons c cs => exact absurd hcs (hcovers c cs)

theorem get?_indexById {source : List Leaf} (hdistinct : (source.map Leaf.id).Nodup) {p : Leaf}
    (hp : p ∈ source) :
    (indexById (.list (source.map fun l => .dict l.fields))).get? p.id = some p.fields := by
  have hentries : (dicts (source.map fun l => .dict l.fields)).filterMap
      (fun lf => (lf.get "id").asStr?.map fun id => (id, lf)) =
        source.map fun l => (l.id, l.fields) := by
    rw [dicts_map_dict, List.filterMap_map, ← List.filterMap_eq_map]
    refine List.filterMap_congr ?_
    intro l _
    simp [Dict.get, l.id_eq, Value.asStr?]
  rw [indexById, hentries, OrdMap.get?_ofList, OrdMap.lastOf]
  refine Assoc.get?_of_mem ?_ (List.mem_reverse.2 (List.mem_map.2 ⟨p, hp, rfl⟩))
  rw [List.map_reverse, List.nodup_reverse, List.map_map]
  exact hdistinct

theorem id_compactLeaf (p : Leaf) : Assoc.get? (compactLeaf p.fields) "id" = some (.str p.id) := by
  have hlight : Assoc.get? (Assoc.without p.fields heavyLeafKeys) "id" = some (.str p.id) := by
    rw [Assoc.get?_without _ _ (by decide), p.id_eq]
  unfold compactLeaf
  split
  · rw [Assoc.get?_set, if_neg (by decide), hlight]
  · exact hlight

theorem rehydrateLeaf_compact {source : List Leaf} (hdistinct : (source.map Leaf.id).Nodup)
    {p : Leaf} (hp : p ∈ source) :
    rehydrateLeaf (indexById (.list (source.map fun l => .dict l.fields))) (compactLeaf p.fields) =
      .ok (Assoc.update p.fields ((compactLeaf p.fields).filter fun kv => isFilled kv.2)) := by
  have hsource : sourceLeaf (indexById (.list (source.map fun l => .dict l.fields)))
      ((compactLeaf p.fields).getD "id" (.str "")) = .ok (some p.fields) := by
    rw [Dict.getD, id_compactLeaf]
    exact congrArg Except.ok (get?_indexById hdistinct hp)
  rw [rehydrateLeaf, hsource, Result.ok_bind]
  cases hfields : p.fields with
  | nil => simpa [hfields] using p.id_eq
  | cons kv full => rfl

/-- **Compaction and rehydration restore the leaves that are short of four `covers`.** -/
theorem rehydrate_compact_iff {source : List Leaf} (hdistinct : (source.map Leaf.id).Nodup)
    {picked : List Leaf} (hpicked : ∀ p ∈ picked, p ∈ source) :
    rehydrate (.list (picked.map fun p => .dict (compactLeaf p.fields)))
        (indexById (.list (source.map fun l => .dict l.fields))) = .ok (picked.map Leaf.fields) ↔
      ∀ p ∈ picked, ∀ cs, p.fields.get "covers" = .list cs → cs.length ≤ 3 := by
  rw [rehydrate, ensureList_list, dicts_map_dict, Result.mapM_eq_ok, List.forall₂_map_left_iff,
    List.forall₂_map_right_iff, List.forall₂_same]
  refine forall₂_congr ?_
  intro p hp
  rw [rehydrateLeaf_compact hdistinct (hpicked p hp), Except.ok.injEq, update_compactLeaf]

/-- A leaf with the given `covers`. -/
def leafCovering (covers : List Value) : Leaf where
  fields := [("id", .str "quality"), ("path", .str "quality.md"), ("covers", .list covers),
    ("audit_surface", .list [.str "handlers"])]
  nodup := show ["id", "path", "covers", "audit_surface"].Nodup by decide
  id := "quality"
  id_eq := rfl

/-- A leaf without `covers`. -/
def focusedLeaf : Leaf where
  fields := [("id", .str "sec-input"), ("path", .str "sec/input.md"), ("focus", .str "inputs"),
    ("audit_surface", .list [.str "parsers"])]
  nodup := show ["id", "path", "focus", "audit_surface"].Nodup by decide
  id := "sec-input"
  id_eq := rfl

/-- Two leaves are picked, in the other order. -/
theorem rehydrate_compact_iff_two :
    rehydrate (.list ([leafCovering ["a", "b", "c"], focusedLeaf].map fun p =>
        .dict (compactLeaf p.fields)))
      (indexById (.list ([focusedLeaf, leafCovering ["a", "b", "c"]].map fun l =>
        .dict l.fields))) =
        .ok ([leafCovering ["a", "b", "c"], focusedLeaf].map Leaf.fields) := by
  have hdistinct : ([focusedLeaf, leafCovering ["a", "b", "c"]].map Leaf.id).Nodup :=
    show ["sec-input", "quality"].Nodup by decide
  refine (@rehydrate_compact_iff [focusedLeaf, leafCovering ["a", "b", "c"]] hdistinct
    [leafCovering ["a", "b", "c"], focusedLeaf] ?_).2 ?_
  · rintro p hp
    exact List.mem_pair.2 (List.mem_pair.1 hp).symm
  · intro p hp cs hcs
    rcases List.mem_pair.1 hp with rfl | rfl
    · obtain rfl := Value.list.inj hcs
      exact le_rfl
    · cases hcs

/-- **A fourth cover is lost.** -/
theorem fourth_cover_lost :
    rehydrate (.list [.dict (compactLeaf (leafCovering ["a", "b", "c", "d"]).fields)])
      (indexById (.list [.dict (leafCovering ["a", "b", "c", "d"]).fields])) =
        .ok [(leafCovering ["a", "b", "c"]).fields] ∧
      (leafCovering ["a", "b", "c"]).fields ≠ (leafCovering ["a", "b", "c", "d"]).fields := by
  refine ⟨rfl, ?_⟩
  intro h
  simp [leafCovering] at h

end CodeReview
