import CodeReview.Py.Text
import CodeReview.Py.Value

/-!
# The frontmatter of a leaf

The scripts that edit `reviewers.src/` load a leaf, rewrite its metadata, put the keys into the
canonical order and write the leaf back.  Here the metadata is what the loader gives; the texts that
it reads and the dumper writes are left out.

* `get?_ordered` : ordering keeps every authored field and drops the generated ones.
-/

namespace CodeReview

open Py

/-- `KEY_ORDER`. -/
def keyOrder : List String :=
  ["id", "type", "focus", "parents", "aliases", "covers", "dimensions", "audit_surface",
    "languages", "tags", "activation", "tools"]

/-- `GENERATED`. -/
def generated : List String := ["depth_role", "source"]

/-- The keys of the canonical order that the metadata has. -/
def canonicalFields (front : Dict) : Dict :=
  keyOrder.filterMap fun k => (Assoc.get? front k).map (k, ·)

/-- An authored key that the canonical order does not name is kept at the end. -/
def keepAuthored (out : Dict) (kv : String × Value) : Dict :=
  if Dict.has out kv.1 ∨ kv.1 ∈ generated then out else Assoc.set out kv.1 kv.2

/-- `_ordered`. -/
def ordered (front : Dict) : Dict := front.foldl keepAuthored (canonicalFields front)

/-! ### Ordering -/

theorem get?_canonicalFields (front : Dict) (k : String) :
    Assoc.get? (canonicalFields front) k = if k ∈ keyOrder then Assoc.get? front k else none := by
  rw [canonicalFields]
  induction keyOrder with
  | nil => rfl
  | cons k' ks ih =>
    rw [List.filterMap_cons]
    by_cases hk : k' = k
    · subst hk
      cases hget : Assoc.get? front k' with
      | none => simp [ih, hget]
      | some v => simp [Assoc.get?_cons]
    · have hne : ¬ k = k' := fun h => hk h.symm
      cases hget : Assoc.get? front k' with
      | none => simp [ih, hne]
      | some v => simp [Assoc.get?_cons, hk, ih, hne]

theorem get?_keepAuthored (out : Dict) (kv : String × Value) (k : String) :
    Assoc.get? (keepAuthored out kv) k =
      if Dict.has out k ∨ k ∈ generated then Assoc.get? out k
      else if kv.1 = k then some kv.2 else Assoc.get? out k := by
  rw [keepAuthored]
  by_cases hk : kv.1 = k
  · subst hk
    rw [if_pos rfl]
    split_ifs
    · rfl
    · simp
  · rw [if_neg hk, ite_self]
    split_ifs
    · rfl
    · simp [hk]

/-- Folding in more fields: what is there stays, and the first field of a new key is added. -/
theorem get?_foldl_keepAuthored (front out : Dict) (k : String) :
    Assoc.get? (front.foldl keepAuthored out) k =
      if Dict.has out k ∨ k ∈ generated then Assoc.get? out k else Assoc.get? front k := by
  induction front generalizing out with
  | nil =>
    rw [List.foldl_nil]
    split_ifs with h
    · rfl
    · exact Option.not_isSome_iff_eq_none.1 fun hsome => h (.inl hsome)
  | cons kv front ih =>
    rw [List.foldl_cons, ih, Dict.has, get?_keepAuthored, Assoc.get?_cons]
    by_cases hkeep : Dict.has out k ∨ k ∈ generated
    · rw [if_pos hkeep, if_pos hkeep]
      exact if_pos hkeep
    · obtain ⟨hout, hgen⟩ := not_or.1 hkeep
      rw [if_neg hkeep, if_neg hkeep]
      by_cases hk : kv.1 = k
      · simp [hk]
      · rw [if_neg hk, if_neg hk]
        exact if_neg hkeep

/-- **Ordering keeps every authored field and drops the generated ones.** -/
theorem get?_ordered (front : Dict) (k : String) :
    Assoc.get? (ordered front) k = if k ∈ generated then none else Assoc.get? front k := by
  have hnone {k : String} (h : k ∈ generated) : k ∉ keyOrder := by
    revert k
    decide
  rw [ordered, get?_foldl_keepAuthored, Dict.has, get?_canonicalFields]
  by_cases hgen : k ∈ generated
  · simp [hgen, hnone hgen]
  · by_cases hkey : k ∈ keyOrder
    · cases Assoc.get? front k <;> simp [hgen, hkey]
    · simp [hgen, hkey]

theorem get_ordered {front : Dict} {k : String} (h : k ∉ generated) :
    (ordered front).get k = front.get k := by
  rw [Dict.get, get?_ordered, if_neg h, Dict.get]

end CodeReview
