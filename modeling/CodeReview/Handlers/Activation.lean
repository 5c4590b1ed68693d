import CodeReview.Handlers.Common

/-!
# The activated leaves

`handle_activate_leaves` passes on the leaves of the wiki whose activation fired, each with the
predicates that fired and its v2 fields.

* `pickable_activatedEntry` : **every activated leaf has an id and a path**, as the coverage floor
  asks of the leaves it picks.
-/

namespace CodeReview

open Py

/-- `_V2_FIELDS`. -/
def v2Fields : List String :=
  ["focus", "dimensions", "audit_surface", "languages", "tools", "tags", "covers", "type"]

/-- A leaf as `_enumerate_wiki_leaves` reads it: a file without an id is skipped, and the path below
the wiki is that of a file. -/
structure WikiLeaf where
  fields : Dict
  id : String
  path : String
  id_ne : id ≠ ""
  path_ne : path ≠ ""
  get_id : fields.get "id" = .str id
  get_path : fields.get "path" = .str path

/-- The v2 fields of a leaf that are set. -/
def v2Of (leaf : Dict) : Dict :=
  v2Fields.filterMap fun field =>
    if (leaf.get field).isNone then none else some (field, leaf.get field)

/-- The entry of an activated leaf, with the names of the predicates that fired. -/
def activatedEntry (leaf : Dict) (signals : List String) : Dict :=
  let entry := [("id", leaf.get "id"), ("path", leaf.get "path"),
    ("activation_match", ofStrs signals)]
  let entry := match leaf.get "file_globs" with
    | .list globs => Assoc.set entry "file_globs" (.list globs)
    | _ => entry
  Assoc.update entry (v2Of leaf)

/-- `handle_activate_leaves`, on the leaves that `_evaluate_activation` leaves over. -/
def handleActivateLeaves (activated : List (WikiLeaf × List String)) : Dict :=
  [("activated_leaves", .list (activated.map fun l => .dict (activatedEntry l.1.fields l.2)))]

theorem keys_v2Of {leaf : Dict} {k : String} (h : k ∈ (v2Of leaf).map Prod.fst) : k ∈ v2Fields := by
  obtain ⟨kv, hkv, rfl⟩ := List.mem_map.1 h
  obtain ⟨field, hfield, hsome⟩ := List.mem_filterMap.1 hkv
  split_ifs at hsome
  obtain rfl := Option.some.inj hsome
  exact hfield

/-- The v2 fields and the globs leave the other keys alone. -/
theorem get_activatedEntry {leaf : Dict} {signals : List String} {k : String}
    (hk : k = "id" ∨ k = "path") : (activatedEntry leaf signals).get k = leaf.get k := by
  have hv2 : k ∉ v2Fields := by rcases hk with rfl | rfl <;> decide
  have hglobs : "file_globs" ≠ k := by rcases hk with rfl | rfl <;> decide
  unfold activatedEntry
  rw [Dict.get, Assoc.get?_update_of_notMem _ _ fun h => hv2 (keys_v2Of h), ← Dict.get]
  cases leaf.get "file_globs" with
  | list globs =>
    simp only [Dict.get_set, if_neg hglobs]
    rcases hk with rfl | rfl <;> rfl
  | _ => rcases hk with rfl | rfl <;> rfl

/-- The leaf can be picked: it has an id and a path. -/
def Pickable (leaf : Dict) : Prop :=
  (leaf.get "id").truthy = true ∧ (leaf.get "path").truthy = true

/-- **Every activated leaf can be picked.** -/
theorem pickable_activatedEntry (leaf : WikiLeaf) (signals : List String) :
    Pickable (activatedEntry leaf.fields signals) := by
  refine ⟨?_, ?_⟩
  · rw [get_activatedEntry (.inl rfl), leaf.get_id]
    simpa using leaf.id_ne
  · rw [get_activatedEntry (.inr rfl), leaf.get_path]
    simpa using leaf.path_ne

end CodeReview
