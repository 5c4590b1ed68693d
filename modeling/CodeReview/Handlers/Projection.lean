import CodeReview.Handlers.Activation
import CodeReview.Py.Yaml

/-!
# The projection of frontmatter

At run time a leaf keeps those of its v2 fields whose values have the shape that the rest of the
program expects; any other value is dropped without a word.

* `get?_projectV2Fields` : what the projection has under a v2 field;
* `keepsField_iff` : **a declared field is kept, unchanged, exactly when it passes its own check.**
-/

namespace CodeReview

open Py

/-- `_is_string_array`. -/
def isStringArray : Yaml → Bool
  | .list xs => xs.all Yaml.isStr
  | _ => false

/-- `isinstance(v, str) and v`. -/
def isFilledStr : Yaml → Bool
  | .str s => s ≠ ""
  | _ => false

/-- An entry that `_is_tool_array` accepts. -/
def isTool : Yaml → Bool
  | .map entry =>
    let command := (Yaml.lookup entry "command").getD (.str "")
    isFilledStr (Yaml.get entry "name") && isFilledStr (Yaml.get entry "purpose") &&
      (command.isNull || command.isStr)
  | _ => false

/-- `_is_tool_array`. -/
def isToolArray : Yaml → Bool
  | .list xs => xs.all isTool
  | _ => false

/-- The texts of `languages`: `all`, or a list that is not empty. -/
def isLanguages : Yaml → Bool
  | .str s => s = "all"
  | .list xs => isStringArray (.list xs) && 0 < xs.length
  | _ => false

/-- The check of a v2 field; `_validate_v2_field` returns the value when it passes. -/
def passesV2 (field : String) (value : Yaml) : Bool :=
  if field ∈ ["focus", "type"] then value.isStr
  else if field ∈ ["dimensions", "audit_surface", "tags", "covers"] then isStringArray value
  else if field = "tools" then isToolArray value
  else if field = "languages" then isLanguages value
  else false

/-- `_validate_v2_field`. -/
def validateV2Field (field : String) (value : Yaml) : Option Yaml :=
  if passesV2 field value then some value else none

/-- The entry of a field in the projection. -/
def projectField (data : Yaml.Mapping) (field : String) : Option Yaml :=
  if (Yaml.get data field).isNull then none else validateV2Field field (Yaml.get data field)

/-- `_project_v2_fields`. -/
def projectV2Fields (data : Yaml.Mapping) : List (String × Yaml) :=
  v2Fields.filterMap fun field => (projectField data field).map (field, ·)

/-- The field is declared with this value, and not null. -/
def Declares (data : Yaml.Mapping) (field : String) (value : Yaml) : Prop :=
  Yaml.lookup data field = some value ∧ value.isNull = false

/-- The projection keeps what the frontmatter declares for the field. -/
def KeepsField (data : Yaml.Mapping) (field : String) : Prop :=
  ∀ value, Declares data field value → Assoc.get? (projectV2Fields data) field = some value

theorem get?_filterMap_fields {fields : List String} {f : String → Option Yaml} {k : String}
    (hk : k ∈ fields) :
    Assoc.get? (fields.filterMap fun field => (f field).map (field, ·)) k = f k := by
  induction fields with
  | nil => cases hk
  | cons field fields ih =>
    by_cases heq : field = k
    · subst heq
      cases h : f field with
      | some v => simp [h, Assoc.get?_cons]
      | none =>
        rw [List.filterMap_cons, h, Option.map_none, Assoc.get?_eq_none_iff]
        intro hmem
        obtain ⟨kv, hkv, hfst⟩ := List.mem_map.1 hmem
        obtain ⟨field', -, hsome⟩ := List.mem_filterMap.1 hkv
        obtain ⟨v, hv, rfl⟩ := Option.map_eq_some_iff.1 hsome
        obtain rfl : field' = field := hfst
        rw [h] at hv
        cases hv
    · have hmem : k ∈ fields := (List.mem_cons.1 hk).resolve_left (Ne.symm heq)
      cases h : f field with
      | some v => simp [h, Assoc.get?_cons, heq, ih hmem]
      | none => simp [h, ih hmem]

/-- **The projection, field by field.** -/
theorem get?_projectV2Fields (data : Yaml.Mapping) {field : String} (hfield : field ∈ v2Fields) :
    Assoc.get? (projectV2Fields data) field = projectField data field :=
  get?_filterMap_fields hfield

/-- **A declared field is kept exactly when its value passes the check.** -/
theorem keepsField_iff {data : Yaml.Mapping} {field : String} (hfield : field ∈ v2Fields) :
    KeepsField data field ↔ ∀ value, Declares data field value → passesV2 field value = true := by
  refine forall₂_congr ?_
  intro value hdeclares
  rw [get?_projectV2Fields data hfield, projectField, Yaml.get_of_lookup hdeclares.1, hdeclares.2,
    validateV2Field]
  cases passesV2 field value <;> simp

end CodeReview
