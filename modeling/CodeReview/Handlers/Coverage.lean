import CodeReview.Handlers.Glob
import CodeReview.Handlers.Readiness

/-!
# Coverage

`handle_verify_coverage` credits changed files to reviewers from three sources: the leaves that
flag a finding in the file, the picked leaves whose globs match it, and the rescues.  A leaf whose
frontmatter has no activation block is credited with every changed file.

* `mem_credits` : who is credited with a file;
* `verifyCoverage_spec` : what the matrix lists.

The handler raises on a finding whose `flagged_by` cannot be iterated, and on a picked leaf whose
frontmatter the parser refuses.
-/

namespace CodeReview

open Py

/-- The reviewer wiki on disk: the frontmatter of the leaf file that a path names in it, `none`
where there is no such file or reading it raises an `OSError` or a `ValueError`, and any other
exception of the lookup or the parser. -/
abbrev Wiki := String → Result (Option Dict)

/-- A wiki without files. -/
def noWiki : Wiki := fun _ => .ok none

variable (wiki : Wiki)

/-- The globs in the frontmatter of a leaf, if it has an activation block. -/
def activationGlobs (data : Dict) : Option (List String) :=
  (data.get "activation").asDict?.map fun activation =>
    strs (ensureList (activation.get "file_globs"))

/-- `_read_leaf_globs`: `none` stands for broad credit. -/
def readLeafGlobs (leafPath : Value) : Result (Option (List String)) :=
  match leafPath with
  | .str path => if path = "" then .ok none else do return (← wiki path).bind activationGlobs
  | _ => .ok none

/-- A credit: this reviewer for this file. -/
abbrev Credit := String × String

/-- Source (a): the strings that flag a finding in a changed file. -/
def findingCredits (changed : List String) (finding : Dict) : Result (List Credit) :=
  match finding.get "file" with
  | .str file =>
    if file ∈ changed then do
      let flags ← (flaggedBy finding).iter
      return (strs flags).map fun leafId => (file, leafId)
    else .ok []
  | _ => .ok []

/-- The file is in scope of the globs, or credited broadly. -/
def inScope (globs : Option (List String)) (file : String) : Bool :=
  globs.all fun globs => globs.any (minimatch file)

/-- The leaf can be read, and is credited with the file through its globs, or broadly. -/
def leafCovers (leaf : Dict) (file : String) : Bool :=
  match readLeafGlobs wiki (leaf.get "path") with
  | .ok globs => inScope globs file
  | .error _ => false

/-- Source (b): the changed files in the leaf's scope. -/
def leafCredits (changed : List String) (leaf : Dict) : Result (List Credit) :=
  match leaf.get "id" with
  | .str leafId =>
    if leafId = "" then .ok []
    else do
      let globs ← readLeafGlobs wiki (leaf.get "path")
      return (changed.filter (inScope globs)).map fun file => (file, leafId)
  | _ => .ok []

/-- Source (c): a rescue of a changed file. -/
def rescueCredits (changed : List String) (rescue : Dict) : List Credit :=
  match rescue.get "file", rescue.get "rescued_leaf" with
  | .str file, .str rescued => if file ∈ changed then [(file, rescued)] else []
  | _, _ => []

/-- `reviewers_by_file`, as the credits in the order they are given. -/
def credits (env : Dict) : Result (List Credit) := do
  let changed := strs (ensureList (env.get "changed_paths"))
  let fromFindings ← (dicts (ensureList (env.get "findings"))).mapM (findingCredits changed)
  let fromLeaves ← (dicts (ensureList (env.get "picked_leaves"))).mapM (leafCredits wiki changed)
  let fromRescues :=
    (dicts (ensureList (env.get "coverage_rescues"))).flatMap (rescueCredits changed)
  return fromFindings.flatten ++ fromLeaves.flatten ++ fromRescues

/-- One row of the coverage matrix. -/
structure CoverageRow where
  file : String
  reviewers : List String
  deriving DecidableEq, Repr

/-- The row as a JSON object. -/
def CoverageRow.toValue (row : CoverageRow) : Value :=
  .dict [("file", .str row.file), ("reviewers", ofStrs row.reviewers)]

/-- The outputs of the coverage check. -/
structure Coverage where
  coverageMatrix : List CoverageRow
  coverageGaps : List String
  coverageRuleViolated : Bool
  deriving DecidableEq, Repr

/-- The outputs as a dictionary. -/
def Coverage.toDict (c : Coverage) : Dict :=
  [("coverage_matrix", .list (c.coverageMatrix.map CoverageRow.toValue)),
    ("coverage_gaps", ofStrs c.coverageGaps),
    ("coverage_rule_violated", .bool c.coverageRuleViolated)]

/-- The reviewers credited with a file. -/
def reviewersOf (given : List Credit) (file : String) : List String :=
  sortedSet ((given.filter (·.1 = file)).map Prod.snd)

/-- `handle_verify_coverage`. -/
def verifyCoverage (env : Dict) : Result Coverage := do
  let given ← credits wiki env
  let coverageMatrix := (sortedSet (strs (ensureList (env.get "changed_paths")))).map fun file =>
    { file, reviewers := reviewersOf given file : CoverageRow }
  let coverageGaps :=
    (coverageMatrix.filter fun row => decide (row.reviewers.length < 2)).map CoverageRow.file
  return { coverageMatrix, coverageGaps, coverageRuleViolated := !coverageGaps.isEmpty }

/-! ### Who is credited -/

variable {wiki}

/-- A finding in the file is flagged by `s`. -/
def CreditedByFinding (env : Dict) (file s : String) : Prop :=
  ∃ f : Dict, .dict f ∈ ensureList (env.get "findings") ∧ f.get "file" = .str file ∧ Flags f s

/-- A picked leaf of id `s` covers the file. -/
def CreditedByLeaf (wiki : Wiki) (env : Dict) (file s : String) : Prop :=
  ∃ leaf : Dict, .dict leaf ∈ ensureList (env.get "picked_leaves") ∧ leaf.get "id" = .str s ∧
    s ≠ "" ∧ leafCovers wiki leaf file = true

/-- A rescue names `s` for the file. -/
def CreditedByRescue (env : Dict) (file s : String) : Prop :=
  ∃ rescue : Dict, .dict rescue ∈ ensureList (env.get "coverage_rescues") ∧
    rescue.get "file" = .str file ∧ rescue.get "rescued_leaf" = .str s

theorem mem_findingCredits {changed : List String} {f : Dict} {given : List Credit}
    (h : findingCredits changed f = .ok given) {file s : String} :
    (file, s) ∈ given ↔ f.get "file" = .str file ∧ file ∈ changed ∧ Flags f s := by
  rw [findingCredits] at h
  cases hfile : f.get "file" with
  | str file' =>
    simp only [hfile] at h
    split_ifs at h with hch
    · obtain ⟨vs, hvs, h⟩ := Result.bind_eq_ok.1 h
      simp only [Result.pure_eq_ok, Except.ok.injEq] at h
      have hflags : Flags f s ↔ .str s ∈ vs :=
        ⟨fun ⟨ws, hws, hs⟩ => by simp only [hvs, Except.ok.injEq] at hws; exact hws ▸ hs,
          fun hs => ⟨vs, hvs, hs⟩⟩
      rw [← h, hflags]
      simp only [List.mem_map, mem_strs, Prod.mk.injEq, Value.str.injEq]
      constructor
      · rintro ⟨s', hs', rfl, rfl⟩; exact ⟨rfl, hch, hs'⟩
      · rintro ⟨rfl, -, hs⟩; exact ⟨s, hs, rfl, rfl⟩
    · simp only [Except.ok.injEq] at h
      simp only [← h, List.not_mem_nil, Value.str.injEq, false_iff]
      rintro ⟨rfl, hmem, -⟩
      exact hch hmem
  | _ =>
    simp only [hfile, Except.ok.injEq] at h
    simp [← h]

theorem mem_leafCredits {changed : List String} {leaf : Dict} {given : List Credit}
    (h : leafCredits wiki changed leaf = .ok given) {file s : String} :
    (file, s) ∈ given ↔
      leaf.get "id" = .str s ∧ s ≠ "" ∧ file ∈ changed ∧ leafCovers wiki leaf file = true := by
  rw [leafCredits] at h
  cases hid : leaf.get "id" with
  | str s' =>
    simp only [hid] at h
    split_ifs at h with hempty
    · obtain rfl := Except.ok.inj h
      simp only [List.not_mem_nil, Value.str.injEq, false_iff]
      rintro ⟨rfl, hne, -⟩
      exact hne hempty
    · obtain ⟨globs, hglobs, h⟩ := Result.bind_eq_ok.1 h
      obtain rfl := Except.ok.inj h
      rw [leafCovers, hglobs]
      simp only [List.mem_map, List.mem_filter, Prod.mk.injEq, Value.str.injEq]
      constructor
      · rintro ⟨file', ⟨hf, hc⟩, rfl, rfl⟩; exact ⟨rfl, hempty, hf, hc⟩
      · rintro ⟨rfl, -, hf, hc⟩; exact ⟨file, ⟨hf, hc⟩, rfl, rfl⟩
  | _ =>
    simp only [hid, Except.ok.injEq] at h
    simp [← h]

/-- The frontmatter of every picked leaf with an id can be read. -/
def PicksReadable (wiki : Wiki) (env : Dict) : Prop :=
  ∀ leaf : Dict, .dict leaf ∈ ensureList (env.get "picked_leaves") →
    ∀ s, leaf.get "id" = .str s → s ≠ "" → Result.Ok (readLeafGlobs wiki (leaf.get "path"))

theorem leafCredits_ok_iff {changed : List String} {leaf : Dict} :
    Result.Ok (leafCredits wiki changed leaf) ↔
      ∀ s, leaf.get "id" = .str s → s ≠ "" → Result.Ok (readLeafGlobs wiki (leaf.get "path")) := by
  rw [leafCredits]
  cases hid : leaf.get "id" with
  | str s' =>
    simp only
    split_ifs with hempty
    · refine iff_of_true (Result.ok_ok _) ?_
      rintro s ⟨⟩ hne
      exact absurd hempty hne
    · constructor
      · rintro ⟨given, hgiven⟩ s - -
        obtain ⟨globs, hglobs, -⟩ := Result.bind_eq_ok.1 hgiven
        exact ⟨globs, hglobs⟩
      · intro h
        obtain ⟨globs, hglobs⟩ := h s' rfl hempty
        exact ⟨_, Result.bind_eq_ok.2 ⟨globs, hglobs, rfl⟩⟩
  | _ => exact iff_of_true (Result.ok_ok _) fun s hs => by cases hs

theorem mem_rescueCredits {changed : List String} {rescue : Dict} {file s : String} :
    (file, s) ∈ rescueCredits changed rescue ↔
      rescue.get "file" = .str file ∧ rescue.get "rescued_leaf" = .str s ∧ file ∈ changed := by
  rw [rescueCredits]
  split
  · rename_i file' s' hf hs
    rw [hf, hs]
    split_ifs with hch <;> simp only [List.mem_singleton, List.not_mem_nil, Prod.mk.injEq,
      Value.str.injEq, false_iff]
    · constructor
      · rintro ⟨rfl, rfl⟩; exact ⟨rfl, rfl, hch⟩
      · rintro ⟨rfl, rfl, -⟩; exact ⟨rfl, rfl⟩
    · rintro ⟨rfl, -, hmem⟩; exact hch hmem
  · rename_i hno
    simp only [List.not_mem_nil, false_iff]
    rintro ⟨hf, hs, -⟩
    exact hno _ _ hf hs

/-- **Who is listed for a changed file.** -/
theorem mem_credits {env : Dict} {given : List Credit} (h : credits wiki env = .ok given)
    {file s : String} :
    (file, s) ∈ given ↔ file ∈ changedFiles env ∧ (CreditedByFinding env file s ∨
      CreditedByLeaf wiki env file s ∨ CreditedByRescue env file s) := by
  obtain ⟨fromFindings, hff, h⟩ := Result.bind_eq_ok.1 h
  obtain ⟨fromLeaves, hfl, h⟩ := Result.bind_eq_ok.1 h
  simp only [Result.pure_eq_ok, Except.ok.injEq] at h
  have hfinding : (file, s) ∈ fromFindings.flatten ↔
      file ∈ changedFiles env ∧ CreditedByFinding env file s := by
    rw [List.mem_flatten]
    constructor
    · rintro ⟨cs, hcs, hmem⟩
      obtain ⟨f, hf, hfc⟩ := Result.exists_of_mapM_right hff hcs
      obtain ⟨hfile, hch, hflag⟩ := (mem_findingCredits hfc).1 hmem
      exact ⟨hch, f, mem_dicts.1 hf, hfile, hflag⟩
    · rintro ⟨hch, f, hf, hfile, hflag⟩
      obtain ⟨cs, hcs, hfc⟩ := Result.exists_of_mapM_left hff (mem_dicts.2 hf)
      exact ⟨cs, hcs, (mem_findingCredits hfc).2 ⟨hfile, hch, hflag⟩⟩
  have hleaf : (file, s) ∈ fromLeaves.flatten ↔
      file ∈ changedFiles env ∧ CreditedByLeaf wiki env file s := by
    rw [List.mem_flatten]
    constructor
    · rintro ⟨cs, hcs, hmem⟩
      obtain ⟨leaf, hl, hlc⟩ := Result.exists_of_mapM_right hfl hcs
      obtain ⟨hid, hne, hch, hcovers⟩ := (mem_leafCredits hlc).1 hmem
      exact ⟨hch, leaf, mem_dicts.1 hl, hid, hne, hcovers⟩
    · rintro ⟨hch, leaf, hl, hid, hne, hcovers⟩
      obtain ⟨cs, hcs, hlc⟩ := Result.exists_of_mapM_left hfl (mem_dicts.2 hl)
      exact ⟨cs, hcs, (mem_leafCredits hlc).2 ⟨hid, hne, hch, hcovers⟩⟩
  rw [← h, List.mem_append, List.mem_append, hfinding, hleaf]
  simp only [List.mem_flatMap, mem_dicts, mem_rescueCredits, CreditedByRescue, changedFiles]
  grind

theorem mem_reviewersOf {given : List Credit} {file s : String} :
    s ∈ reviewersOf given file ↔ (file, s) ∈ given := by
  simp [reviewersOf]

/-- The matrix lists every changed file with those credited with it. -/
theorem verifyCoverage_spec {env : Dict} {cov : Coverage} (h : verifyCoverage wiki env = .ok cov) :
    ∃ given, credits wiki env = .ok given ∧
      (∀ row, row ∈ cov.coverageMatrix ↔
        row.file ∈ changedFiles env ∧ row.reviewers = reviewersOf given row.file) ∧
      (cov.coverageRuleViolated = false ↔
        ∀ file ∈ changedFiles env, 2 ≤ (reviewersOf given file).length) := by
  obtain ⟨given, hgiven, h⟩ := Result.bind_eq_ok.1 h
  simp only [Result.pure_eq_ok, Except.ok.injEq] at h
  subst h
  refine ⟨given, hgiven, fun row => ?_, ?_⟩
  · simp only [List.mem_map, mem_sortedSet, ← changedFiles.eq_def]
    constructor
    · rintro ⟨file, hfile, rfl⟩; exact ⟨hfile, rfl⟩
    · rintro ⟨hfile, hrev⟩; exact ⟨row.file, hfile, by rw [← hrev]⟩
  · simp only [Bool.not_eq_eq_eq_not, Bool.not_false, List.isEmpty_iff, List.map_eq_nil_iff,
      List.filter_eq_nil_iff, List.mem_map, mem_sortedSet, ← changedFiles.eq_def,
      decide_eq_true_eq]
    constructor
    · intro hall file hfile
      exact not_lt.1 (hall _ ⟨file, hfile, rfl⟩)
    · rintro hall row ⟨file, hfile, rfl⟩
      exact not_lt.2 (hall file hfile)

end CodeReview
