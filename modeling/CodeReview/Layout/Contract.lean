import CodeReview.Handlers.Projection

/-!
# The frontmatter contract

`_check_contract` of the layout validator checks the frontmatter of a leaf against the contract of
`reviewers.layout.yaml`.  Its shape rules are to mirror the checks of the projection at run time, so
that a leaf without findings loses no field there.

* `checkContract_eq_nil_iff` : when there is no finding;
* `keepsFields_iff` : **a leaf without findings keeps its v2 fields exactly when its focus is a
  text, its dimensions are a list, and its covers, tags and audit surface are lists of texts.**
-/

namespace CodeReview

open Py

/-- A `Finding` of the validator. -/
structure LayoutFinding where
  severity : String
  code : String
  target : String
  message : String
  deriving DecidableEq, Repr

/-- How the validator prints values. -/
structure YamlPrint where
  /-- `str(v)`. -/
  text : Yaml → String
  /-- `str(xs)` of a list. -/
  texts : List Yaml → String

/-- The `leaf` part of a frontmatter contract. -/
structure LeafContract where
  required : List String
  /-- `enums.type`, if there is one. -/
  types : Option (List String)
  /-- `enums.dimensions`; empty for none. -/
  dimensions : List String
  requireNonempty : List String
  /-- The forbidden values at a path. -/
  forbid : List (String × List String)

/-- The `frontmatter_contract` of `reviewers.layout.yaml`. -/
def repositoryContract : LeafContract where
  required := ["id", "type", "focus", "covers", "dimensions", "audit_surface", "languages", "tags",
    "activation"]
  types := some ["primary", "overlay", "universal"]
  dimensions := ["architecture", "correctness", "documentation", "performance", "readability",
    "security", "tests"]
  requireNonempty := ["covers", "tags", "dimensions", "audit_surface", "languages"]
  forbid := [("activation.file_globs", ["**/*", "*", "**", "**/**"])]

section

variable (pr : YamlPrint) (spec : LeafContract) (lid : String) (front : Yaml.Mapping)

/-- A finding of `_check_contract`. -/
def contractFinding (message : String) : LayoutFinding := ⟨"error", "LAYOUT-CONTRACT", lid, message⟩

/-- A finding, when something is wrong. -/
def findingIf (wrong : Bool) (message : String) : List LayoutFinding :=
  if wrong then [contractFinding lid message] else []

/-- The value is one of some texts. -/
def oneOf (names : List String) (v : Yaml) : Bool := names.any fun name => v.eqStr name

/-- The required fields that are missing. -/
def missingFindings : List LayoutFinding :=
  spec.required.flatMap fun field =>
    findingIf lid (Yaml.lookup front field).isNone ("missing required field '" ++ field ++ "'")

/-- The check of `type`. -/
def typeFindings : List LayoutFinding :=
  match Yaml.lookup front "type", spec.types with
  | some v, some types => findingIf lid (!oneOf types v)
      ("type '" ++ pr.text v ++ "' not in " ++ pr.texts (types.map .str))
  | _, _ => []

/-- The values that are not in a closed set; one without a hash raises. -/
def outside (names : List String) : List Yaml → Result (List Yaml)
  | [] => .ok []
  | v :: vs =>
    if v.hashable then do
      let rest ← outside names vs
      return if oneOf names v then rest else v :: rest
    else .error .typeError

/-- The items of a list; any other value is one item. -/
def asItems : Yaml → List Yaml
  | .list xs => xs
  | v => [v]

/-- The check of `dimensions`. -/
def dimensionFindings : Result (List LayoutFinding) :=
  let dims := Yaml.get front "dimensions"
  if dims.isNull || spec.dimensions.isEmpty then .ok []
  else do
    let bad ← outside spec.dimensions (asItems dims)
    return findingIf lid (!bad.isEmpty) ("dimensions not in closed set: " ++ pr.texts bad)

/-- The value is null, or has a length and that is zero. -/
def isVacant (v : Yaml) : Bool := v.isNull || v.len? = some 0

/-- The fields that are there and empty. -/
def emptyFindings : List LayoutFinding :=
  spec.requireNonempty.flatMap fun field =>
    findingIf lid ((Yaml.lookup front field).any isVacant) ("'" ++ field ++ "' present but empty")

/-- The text `all`, or a list of texts that is not empty. -/
def validLanguages (langs : Yaml) : Bool :=
  langs.eqStr "all" ||
    match langs with
    | .list xs => !xs.isEmpty && xs.all Yaml.isStr
    | _ => false

/-- The check of `languages`. -/
def languageFindings : List LayoutFinding :=
  let langs := Yaml.get front "languages"
  findingIf lid (!langs.isNull && !validLanguages langs)
    "languages must be 'all' or a non-empty string list"

/-- An entry of `tools` that the validator accepts. -/
def validTool : Yaml → Bool
  | .map entry =>
    isFilledStr (Yaml.get entry "name") && isFilledStr (Yaml.get entry "purpose") &&
      ((Yaml.get entry "command").isNull || (Yaml.get entry "command").isStr)
  | _ => false

/-- A list of such entries. -/
def validTools : Yaml → Bool
  | .list xs => xs.all validTool
  | _ => false

/-- The check of `tools`. -/
def toolFindings : List LayoutFinding :=
  let tools := Yaml.get front "tools"
  findingIf lid (!tools.isNull && !validTools tools) "tools must be [\x7bname,purpose,command?\x7d]"

/-- `_get`. -/
def getDotted (dotted : String) : Yaml := (Yaml.map front).dig (Text.split '.' dotted)

/-- The forbidden values that are there. -/
def forbiddenFindings : List LayoutFinding :=
  spec.forbid.flatMap fun rule =>
    match getDotted front rule.1 with
    | .list xs =>
      let hit := xs.filter (oneOf rule.2)
      findingIf lid (!hit.isEmpty) (rule.1 ++ " contains forbidden " ++ pr.texts hit)
    | _ => []

/-- `_check_contract`. -/
def checkContract : Result (List LayoutFinding) := do
  let dimensions ← dimensionFindings pr spec lid front
  return missingFindings spec lid front ++ typeFindings pr spec lid front ++ dimensions ++
    emptyFindings spec lid front ++ languageFindings lid front ++ toolFindings lid front ++
    forbiddenFindings pr spec lid front

end

variable {pr : YamlPrint} {spec : LeafContract} {lid : String} {front : Yaml.Mapping}

/-! ### No findings -/

theorem findingIf_eq_nil {wrong : Bool} {message : String} :
    findingIf lid wrong message = [] ↔ wrong = false := by
  cases wrong <;> simp [findingIf]

theorem oneOf_iff {names : List String} {v : Yaml} :
    oneOf names v = true ↔ ∃ name ∈ names, v = .str name := by
  simp only [oneOf, List.any_eq_true, Yaml.eqStr_iff]

theorem outside_eq_nil_iff {names : List String} {vs : List Yaml} :
    outside names vs = .ok [] ↔ ∀ v ∈ vs, oneOf names v = true := by
  induction vs with
  | nil => simp [outside]
  | cons v vs ih =>
    rw [List.forall_mem_cons, ← ih, outside]
    by_cases hhash : v.hashable = true
    · rw [if_pos hhash]
      cases outside names vs with
      | error e => simp
      | ok rest => cases oneOf names v <;> simp
    · -- a value without a hash is no text
      have hno : ¬ oneOf names v = true := by
        intro hone
        obtain ⟨name, -, rfl⟩ := oneOf_iff.1 hone
        exact hhash rfl
      rw [if_neg hhash]
      simp [hno]

/-- What the contract asks of a leaf. -/
structure Clean (spec : LeafContract) (front : Yaml.Mapping) : Prop where
  required : ∀ field ∈ spec.required, (Yaml.lookup front field).isSome = true
  type : ∀ v types, Yaml.lookup front "type" = some v → spec.types = some types →
    oneOf types v = true
  dimensions : Yaml.get front "dimensions" = .null ∨ spec.dimensions = [] ∨
    ∀ d ∈ asItems (Yaml.get front "dimensions"), oneOf spec.dimensions d = true
  nonempty : ∀ field ∈ spec.requireNonempty, ∀ v, Yaml.lookup front field = some v →
    isVacant v = false
  languages : Yaml.get front "languages" = .null ∨
    validLanguages (Yaml.get front "languages") = true
  tools : Yaml.get front "tools" = .null ∨ validTools (Yaml.get front "tools") = true
  forbid : ∀ rule ∈ spec.forbid, ∀ xs, getDotted front rule.1 = .list xs →
    ∀ x ∈ xs, oneOf rule.2 x = false

theorem missingFindings_eq_nil_iff : missingFindings spec lid front = [] ↔
    ∀ field ∈ spec.required, (Yaml.lookup front field).isSome = true := by
  simp only [missingFindings, List.flatMap_eq_nil_iff, findingIf_eq_nil, Option.isNone_eq_false_iff]

theorem typeFindings_eq_nil_iff : typeFindings pr spec lid front = [] ↔
    ∀ v types, Yaml.lookup front "type" = some v → spec.types = some types →
      oneOf types v = true := by
  rw [typeFindings]
  cases Yaml.lookup front "type" with
  | none => simp
  | some v =>
    cases spec.types with
    | none => simp
    | some types => simp [findingIf_eq_nil]

theorem dimensionFindings_eq_nil_iff : dimensionFindings pr spec lid front = .ok [] ↔
    Yaml.get front "dimensions" = .null ∨ spec.dimensions = [] ∨
      ∀ d ∈ asItems (Yaml.get front "dimensions"), oneOf spec.dimensions d = true := by
  have hskip : ((Yaml.get front "dimensions").isNull || spec.dimensions.isEmpty) = true ↔
      Yaml.get front "dimensions" = .null ∨ spec.dimensions = [] := by
    rw [Bool.or_eq_true, Yaml.isNull_iff, List.isEmpty_iff]
  rw [← outside_eq_nil_iff, ← or_assoc, ← hskip]
  simp only [dimensionFindings]
  split_ifs with h
  · simp [h]
  · rw [or_iff_right h]
    cases outside spec.dimensions (asItems (Yaml.get front "dimensions")) with
    | error e => simp
    | ok bad => cases bad <;> simp [findingIf]

theorem emptyFindings_eq_nil_iff : emptyFindings spec lid front = [] ↔
    ∀ field ∈ spec.requireNonempty, ∀ v, Yaml.lookup front field = some v → isVacant v = false := by
  rw [emptyFindings, List.flatMap_eq_nil_iff]
  refine forall₂_congr ?_
  intro field _
  rw [findingIf_eq_nil]
  cases Yaml.lookup front field <;> simp

theorem languageFindings_eq_nil_iff : languageFindings lid front = [] ↔
    Yaml.get front "languages" = .null ∨ validLanguages (Yaml.get front "languages") = true := by
  rw [languageFindings, findingIf_eq_nil, ← Yaml.isNull_iff]
  cases (Yaml.get front "languages").isNull <;> simp

theorem toolFindings_eq_nil_iff : toolFindings lid front = [] ↔
    Yaml.get front "tools" = .null ∨ validTools (Yaml.get front "tools") = true := by
  rw [toolFindings, findingIf_eq_nil, ← Yaml.isNull_iff]
  cases (Yaml.get front "tools").isNull <;> simp

theorem forbiddenFindings_eq_nil_iff : forbiddenFindings pr spec lid front = [] ↔
    ∀ rule ∈ spec.forbid, ∀ xs, getDotted front rule.1 = .list xs →
      ∀ x ∈ xs, oneOf rule.2 x = false := by
  rw [forbiddenFindings, List.flatMap_eq_nil_iff]
  refine forall₂_congr ?_
  intro rule _
  cases getDotted front rule.1 with
  | list xs => simp [findingIf_eq_nil]
  | _ => simp

/-- **When the validator finds nothing.** -/
theorem checkContract_eq_nil_iff :
    checkContract pr spec lid front = .ok [] ↔ Clean spec front := by
  have hparts : checkContract pr spec lid front = .ok [] ↔
      missingFindings spec lid front = [] ∧ typeFindings pr spec lid front = [] ∧
        dimensionFindings pr spec lid front = .ok [] ∧ emptyFindings spec lid front = [] ∧
        languageFindings lid front = [] ∧ toolFindings lid front = [] ∧
        forbiddenFindings pr spec lid front = [] := by
    rw [checkContract]
    cases dimensionFindings pr spec lid front with
    | error e => simp
    | ok bad => simp
  rw [hparts, missingFindings_eq_nil_iff, typeFindings_eq_nil_iff, dimensionFindings_eq_nil_iff,
    emptyFindings_eq_nil_iff, languageFindings_eq_nil_iff, toolFindings_eq_nil_iff,
    forbiddenFindings_eq_nil_iff]
  constructor
  · rintro ⟨hrequired, htype, hdims, hempty, hlangs, htools, hforbid⟩
    exact ⟨hrequired, htype, hdims, hempty, hlangs, htools, hforbid⟩
  · rintro ⟨hrequired, htype, hdims, hempty, hlangs, htools, hforbid⟩
    exact ⟨hrequired, htype, hdims, hempty, hlangs, htools, hforbid⟩

/-! ### The rules that mirror the projection -/

theorem validLanguages_eq (v : Yaml) : validLanguages v = passesV2 "languages" v := by
  have hpasses : passesV2 "languages" v = isLanguages v := rfl
  rw [hpasses]
  cases v with
  | str s => simp [validLanguages, isLanguages, Yaml.eqStr]
  | list xs => cases xs <;> simp [validLanguages, isLanguages, isStringArray, Yaml.eqStr]
  | _ => rfl

theorem validTool_eq (t : Yaml) : validTool t = isTool t := by
  cases t with
  | map entry =>
    simp only [validTool, isTool, Yaml.get]
    -- an absent command passes either way
    cases Yaml.lookup entry "command" <;> simp [Yaml.isNull, Yaml.isStr]
  | _ => rfl

theorem validTools_eq (v : Yaml) : validTools v = passesV2 "tools" v := by
  have hpasses : passesV2 "tools" v = isToolArray v := rfl
  have htool : validTool = isTool := by
    funext t
    exact validTool_eq t
  rw [hpasses]
  cases v with
  | list xs => rw [validTools, isToolArray, htool]
  | _ => rfl

/-! ### The rules that do not -/

/-- The fields have the shapes of the projection where the contract does not ask for them. -/
structure RuntimeShaped (front : Yaml.Mapping) : Prop where
  focus : Yaml.get front "focus" = .null ∨ ∃ s, Yaml.get front "focus" = .str s
  dimensions : ∃ ds, Yaml.get front "dimensions" = .list ds
  lists : ∀ field ∈ ["covers", "tags", "audit_surface"],
    isStringArray (Yaml.get front field) = true

theorem isStringArray_list {v : Yaml} (h : isStringArray v = true) : ∃ xs, v = .list xs := by
  cases v with
  | list xs => exact ⟨xs, rfl⟩
  | _ => cases h

/-- A required field that must not be empty is declared. -/
theorem Clean.declares (h : Clean repositoryContract front) {field : String}
    (hrequired : field ∈ repositoryContract.required)
    (hnonempty : field ∈ repositoryContract.requireNonempty) :
    Declares front field (Yaml.get front field) := by
  obtain ⟨v, hv⟩ := Option.isSome_iff_exists.1 (h.required field hrequired)
  have hvacant := h.nonempty field hnonempty v hv
  rw [Yaml.get_of_lookup hv]
  exact ⟨hv, (Bool.or_eq_false_iff.1 hvacant).1⟩

theorem Clean.dimension_isStr (h : Clean repositoryContract front) {ds : List Yaml}
    (hds : Yaml.get front "dimensions" = .list ds) : isStringArray (.list ds) = true := by
  refine List.all_eq_true.2 ?_
  intro d hd
  rcases h.dimensions with hnull | hnone | hitems
  · rw [hds] at hnull
    cases hnull
  · cases hnone
  · rw [hds] at hitems
    obtain ⟨name, -, rfl⟩ := oneOf_iff.1 (hitems d hd)
    rfl

/-- **A leaf without findings keeps its fields exactly when they have the shapes of the
projection.** -/
theorem keepsFields_iff (pr : YamlPrint) (lid : String) {front : Yaml.Mapping}
    (h : checkContract pr repositoryContract lid front = .ok []) :
    (∀ field ∈ v2Fields, KeepsField front field) ↔ RuntimeShaped front := by
  have hclean := checkContract_eq_nil_iff.1 h
  have hlist {field : String} (hfield : field ∈ ["dimensions", "covers", "tags", "audit_surface"]) :
      field ∈ v2Fields ∧ Declares front field (Yaml.get front field) ∧
        ∀ v, passesV2 field v = isStringArray v := by
    simp only [List.mem_cons, List.not_mem_nil, or_false] at hfield
    rcases hfield with rfl | rfl | rfl | rfl <;>
      exact ⟨by decide, hclean.declares (by decide) (by decide), fun v => rfl⟩
  constructor
  · intro hall
    -- the four fields of texts are there, and kept
    have harray {field : String}
        (hfield : field ∈ ["dimensions", "covers", "tags", "audit_surface"]) :
        isStringArray (Yaml.get front field) = true := by
      obtain ⟨hv2, hdeclares, hpasses⟩ := hlist hfield
      rw [← hpasses]
      exact (keepsField_iff hv2).1 (hall field hv2) _ hdeclares
    refine ⟨?_, ?_, ?_⟩
    · obtain ⟨v, hv⟩ := Option.isSome_iff_exists.1 (hclean.required "focus" (by decide))
      have hkept := (keepsField_iff (by decide)).1 (hall "focus" (by decide)) v
      rw [Yaml.get_of_lookup hv]
      cases hnull : v.isNull with
      | true => exact .inl (Yaml.isNull_iff.1 hnull)
      | false => exact .inr (Yaml.isStr_iff.1 (hkept ⟨hv, hnull⟩))
    · exact isStringArray_list (harray (by decide))
    · intro field hfield
      exact harray (List.mem_cons_of_mem _ hfield)
  · intro hshaped field hfield
    refine (keepsField_iff hfield).2 ?_
    intro v hdeclares
    obtain ⟨hlookup, hnull⟩ := hdeclares
    have hget := Yaml.get_of_lookup hlookup
    have hnot : Yaml.get front field ≠ .null := by
      rw [hget]
      rintro rfl
      cases hnull
    have hfields : field ∈ ["covers", "tags", "audit_surface"] → passesV2 field v = true := by
      intro hmem
      rw [(hlist (List.mem_cons_of_mem _ hmem)).2.2, ← hget]
      exact hshaped.lists field hmem
    simp only [v2Fields, List.mem_cons, List.not_mem_nil, or_false] at hfield
    rcases hfield with rfl | rfl | rfl | rfl | rfl | rfl | rfl | rfl
    · obtain ⟨s, hs⟩ := hshaped.focus.resolve_left hnot
      rw [← hget, hs]
      rfl
    · obtain ⟨ds, hds⟩ := hshaped.dimensions
      rw [(hlist (by decide)).2.2, ← hget, hds]
      exact hclean.dimension_isStr hds
    · exact hfields (by decide)
    · rw [← validLanguages_eq, ← hget]
      exact hclean.languages.resolve_left hnot
    · rw [← validTools_eq, ← hget]
      exact hclean.tools.resolve_left hnot
    · exact hfields (by decide)
    · exact hfields (by decide)
    · obtain ⟨name, -, rfl⟩ := oneOf_iff.1 (hclean.type v _ hlookup rfl)
      rfl

/-- The frontmatter of a small leaf. -/
def leafFront (focus dimensions : Yaml) : Yaml.Mapping :=
  [(.str "id", .str "leaf"), (.str "type", .str "primary"), (.str "focus", focus),
    (.str "covers", .list [.str "a"]), (.str "dimensions", dimensions),
    (.str "audit_surface", .list [.str "b"]), (.str "languages", .str "all"),
    (.str "tags", .list [.str "c"]), (.str "activation", .map [])]

/-- Texts as they are, and in quotes within a list. -/
def plainPrint : YamlPrint where
  text
    | .str s => s
    | _ => ""
  texts xs := "[" ++ ", ".intercalate (xs.map fun
    | .str s => "'" ++ s ++ "'"
    | _ => "") ++ "]"

theorem keepsFields_iff_leaf :
    (∀ field ∈ v2Fields, KeepsField (leafFront (.str "f") (.list [.str "security"])) field) ↔
      RuntimeShaped (leafFront (.str "f") (.list [.str "security"])) :=
  keepsFields_iff plainPrint "leaf" (by rfl)

/-- **A bare dimension passes the validator, and is lost.** -/
theorem bareDimension_lost :
    checkContract plainPrint repositoryContract "leaf" (leafFront (.str "f") (.str "security")) =
        .ok [] ∧
      ¬ ∀ field ∈ v2Fields, KeepsField (leafFront (.str "f") (.str "security")) field := by
  refine ⟨by rfl, ?_⟩
  intro h
  have hkept := h "dimensions" (by decide) (.str "security") ⟨rfl, rfl⟩
  cases hkept

end CodeReview
