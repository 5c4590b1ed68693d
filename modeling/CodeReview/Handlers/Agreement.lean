import CodeReview.Handlers.CompletedCoverage
import CodeReview.Handlers.Plan

/-!
# The planner and the coverage check on one leaf

Both read the globs of a picked leaf: the planner from the pick, the coverage check from the
frontmatter of the leaf file.  On the same globs they differ in two places.  Without globs in its
activation block a leaf is given the full diff and credited with nothing, and an empty glob, which
the planner skips, is a match for the coverage check.

* `leafCovers_iff`, `mem_leafFileSet_iff` : what either reads off the frontmatter;
* `agrees_iff` : **they agree on a leaf exactly when neither difference shows**, as long as every
  picked leaf can be read.
-/

namespace CodeReview

open Py

variable {rt : Runtime} {embed : Embed} {wiki : Wiki}

/-! ### The frontmatter of a leaf -/

/-- The frontmatter of the leaf file, when there is one. -/
def frontmatterOf (wiki : Wiki) (leaf : Dict) : Result (Option Dict) :=
  match leaf.get "path" with
  | .str path => if path = "" then .ok none else wiki path
  | _ => .ok none

/-- The activation block in it, when it can be read and has one. -/
def frontmatterActivation (wiki : Wiki) (leaf : Dict) : Option Dict :=
  match frontmatterOf wiki leaf with
  | .ok (some data) => (data.get "activation").asDict?
  | _ => none

/-- `file_globs` of the frontmatter; `None` where it has no activation block. -/
def frontmatterGlobs (wiki : Wiki) (leaf : Dict) : Value :=
  (frontmatterActivation wiki leaf).elim .none fun activation => activation.get "file_globs"

/-- The frontmatter was read, and its globs reached the pick as it has them. -/
structure Carried (wiki : Wiki) (leaf : Dict) : Prop where
  readable : Result.Ok (frontmatterOf wiki leaf)
  globs : leafGlobs leaf = frontmatterGlobs wiki leaf

theorem readLeafGlobs_eq_bind (wiki : Wiki) (leaf : Dict) : readLeafGlobs wiki (leaf.get "path") =
    do return (← frontmatterOf wiki leaf).bind activationGlobs := by
  unfold readLeafGlobs frontmatterOf
  cases leaf.get "path" with
  | str path =>
    simp only
    split_ifs <;> rfl
  | _ => rfl

theorem readLeafGlobs_eq {leaf : Dict} (h : Result.Ok (frontmatterOf wiki leaf)) :
    readLeafGlobs wiki (leaf.get "path") = .ok ((frontmatterActivation wiki leaf).map
      fun activation => strs (ensureList (activation.get "file_globs"))) := by
  obtain ⟨data, hdata⟩ := h
  rw [readLeafGlobs_eq_bind, frontmatterActivation, hdata]
  cases data <;> rfl

/-- An activation block without globs: the leaf is activated by keywords or structure alone. -/
def KeywordOnly (wiki : Wiki) (leaf : Dict) : Prop :=
  (frontmatterActivation wiki leaf).isSome ∧ ensureList (frontmatterGlobs wiki leaf) = []

/-! ### What either reads off it -/

/-- Without an activation block a leaf covers every file, with one those that a glob matches. -/
theorem leafCovers_iff {leaf : Dict} (hcarried : Carried wiki leaf) {file : String} :
    leafCovers wiki leaf file = true ↔
      frontmatterActivation wiki leaf = none ∨
        ∃ glob, .str glob ∈ ensureList (frontmatterGlobs wiki leaf) ∧
          minimatch file glob = true := by
  rw [leafCovers, readLeafGlobs_eq hcarried.readable, frontmatterGlobs]
  cases frontmatterActivation wiki leaf with
  | none => simp [inScope]
  | some activation =>
    show (strs (ensureList (activation.get "file_globs"))).any (minimatch file) = true ↔ _
    simp [List.any_eq_true]

theorem globsMatch_iff {globs : List Value} {file : String} : globsMatch globs file = true ↔
    ∃ glob, .str glob ∈ globs ∧ glob ≠ "" ∧ minimatch file glob = true := by
  simp [globsMatch, List.any_eq_true]

/-- Without globs the planner gives a leaf every file, with globs those that one of them, not
empty, matches. -/
theorem mem_leafFileSet_iff {leaf : Dict} (hcarried : Carried wiki leaf) {changed : List String}
    {file : String} : file ∈ leafFileSet leaf changed ↔ file ∈ changed ∧
      (ensureList (frontmatterGlobs wiki leaf) = [] ∨ ∃ glob,
        .str glob ∈ ensureList (frontmatterGlobs wiki leaf) ∧ glob ≠ "" ∧
          minimatch file glob = true) := by
  rw [← hcarried.globs]
  by_cases hglobs : HasGlobs leaf
  · obtain ⟨g, gs, hlist⟩ := hglobs
    rw [mem_leafFileSet hlist, globsMatch_iff, hlist]
    simp
  · have hempty : ensureList (leafGlobs leaf) = [] := by
      cases hvalue : leafGlobs leaf with
      | list globs =>
        cases globs with
        | nil => rfl
        | cons g gs => exact absurd ⟨g, gs, hvalue⟩ hglobs
      | _ => rfl
    rw [leafFileSet_of_not_hasGlobs hglobs]
    exact ⟨fun hfile => ⟨hfile, .inl hempty⟩, And.left⟩

/-- The empty glob matches no text, or a newline alone. -/
theorem minimatch_empty {file : String} : minimatch file "" = true ↔ file = "" ∨ file = "\n" := by
  show decide (file.toList = [] ∨ file.toList = ['\n']) = true ↔ _
  rw [decide_eq_true_iff]
  constructor
  · rintro (h | h)
    · exact .inl (String.toList_inj.1 h)
    · exact .inr (String.toList_inj.1 h)
  · rintro (rfl | rfl)
    · exact .inl rfl
    · exact .inr rfl

/-! ### Agreement -/

/-- The specialist has outputs, and all of them completed. -/
def AllCompleted (outputs : List Value) (leafId : String) : Prop :=
  (∃ o : Dict, .dict o ∈ outputs ∧ o.get "id" = .str leafId) ∧
    ∀ o : Dict, .dict o ∈ outputs → o.get "id" = .str leafId → o.get "status" = .str "completed"

/-- The planner and the coverage check agree on who covers what, for one picked leaf on one set of
changed paths: a file the leaf reviewed is listed under it, where the picked leaves can be read, and
a file credited to it through its globs was assigned to it. -/
structure Agrees (rt : Runtime) (embed : Embed) (wiki : Wiki) (leafId : String) (leaf : Dict)
    (changed : List String) : Prop where
  listed : ∀ (env : Dict) (c : Collected), .dict leaf ∈ ensureList (env.get "picked_leaves") →
    PicksReadable wiki env → changedFiles env = changed → collectFindings rt embed env = .ok c →
    AllCompleted (ensureList (env.get "specialist_outputs")) leafId →
      ∃ cov, verifyCoverage wiki (withFindings env c) = .ok cov ∧
        ∀ u ∈ pickUnits env (leafId, leaf), ∀ file ∈ u.files,
          ∃ row ∈ cov.coverageMatrix, row.file = file ∧ leafId ∈ row.reviewers
  assigned : ∀ env : Dict, changedFiles env = changed →
    ∀ globs, readLeafGlobs wiki (leaf.get "path") = .ok (some globs) →
      ∀ file ∈ changed, globs.any (minimatch file) = true →
        ∃ u ∈ pickUnits env (leafId, leaf), file ∈ u.files

/-- A leaf with an activation block but no globs meets no changed path, and a path that an empty
glob matches is matched by another glob. -/
structure ScopeFits (wiki : Wiki) (leaf : Dict) (changed : List String) : Prop where
  keywordOnly : KeywordOnly wiki leaf → changed = []
  emptyGlob : ∀ file ∈ changed, file = "" ∨ file = "\n" →
    .str "" ∈ ensureList (frontmatterGlobs wiki leaf) →
      ∃ glob, .str glob ∈ ensureList (frontmatterGlobs wiki leaf) ∧ glob ≠ "" ∧
        minimatch file glob = true

/-- A review by the leaf alone, completed without findings. -/
def reviewBy (leafId : String) (leaf : Dict) (changed : List String) : Dict :=
  [("picked_leaves", .list [.dict leaf]), ("changed_paths", ofStrs changed),
    ("specialist_outputs", .list [.dict [("id", .str leafId), ("status", .str "completed"),
      ("findings", .list [])]])]

theorem changedFiles_reviewBy (leafId : String) (leaf : Dict) (changed : List String) :
    changedFiles (reviewBy leafId leaf changed) = changed := strs_map_str changed

theorem collectFindings_reviewBy (leafId : String) (leaf : Dict) (changed : List String) :
    collectFindings rt embed (reviewBy leafId leaf changed) = .ok nothingFound := rfl

theorem allCompleted_reviewBy (leafId : String) (leaf : Dict) (changed : List String) :
    AllCompleted (ensureList ((reviewBy leafId leaf changed).get "specialist_outputs")) leafId := by
  refine ⟨⟨_, List.mem_singleton_self _, rfl⟩, ?_⟩
  intro o ho _
  obtain rfl := Value.dict.inj (List.mem_singleton.1 ho)
  rfl

theorem picksReadable_reviewBy {leaf : Dict} (hcarried : Carried wiki leaf) (leafId : String)
    (changed : List String) : PicksReadable wiki (reviewBy leafId leaf changed) := by
  intro leaf' hleaf' s _ _
  obtain rfl := Value.dict.inj (List.mem_singleton.1 hleaf')
  exact ⟨_, readLeafGlobs_eq hcarried.readable⟩

/-- The only credits of that review are the leaf's own. -/
theorem leafCovers_of_listed {leafId : String} {leaf : Dict} {changed : List String}
    {cov : Coverage}
    (hcov : verifyCoverage wiki
      (withFindings (reviewBy leafId leaf changed) nothingFound) = .ok cov)
    {file : String} (hlisted : ∃ row ∈ cov.coverageMatrix, row.file = file ∧
      leafId ∈ row.reviewers) :
    leafCovers wiki leaf file = true := by
  obtain ⟨given, hgiven, hrows, -⟩ := verifyCoverage_spec hcov
  obtain ⟨row, hrow, rfl, hmem⟩ := hlisted
  rw [((hrows row).1 hrow).2, mem_reviewersOf] at hmem
  rcases (mem_credits hgiven).1 hmem with
    ⟨-, ⟨f, hf, -⟩ | ⟨leaf', hleaf', -, -, hcovers⟩ | ⟨rescue, hrescue, -⟩⟩
  · exact absurd hf List.not_mem_nil
  · obtain rfl := Value.dict.inj (List.mem_singleton.1 hleaf')
    exact hcovers
  · exact absurd hrescue List.not_mem_nil

/-- A picked leaf is listed for every changed file it covers. -/
theorem listed_of_leafCovers {env : Dict} {c : Collected} {cov : Coverage}
    (hcov : verifyCoverage wiki (withFindings env c) = .ok cov) {leafId : String} {leaf : Dict}
    (hpicked : .dict leaf ∈ ensureList (env.get "picked_leaves"))
    (hid : leaf.get "id" = .str leafId)
    (hne : leafId ≠ "") {file : String} (hfile : file ∈ changedFiles env)
    (hcovers : leafCovers wiki leaf file = true) :
    ∃ row ∈ cov.coverageMatrix, row.file = file ∧ leafId ∈ row.reviewers := by
  obtain ⟨given, hgiven, hrows, -⟩ := verifyCoverage_spec hcov
  have hfile' : file ∈ changedFiles (withFindings env c) := by
    simpa [withFindings, changedFiles] using hfile
  have hcredit : (file, leafId) ∈ given := by
    refine (mem_credits hgiven).2 ⟨hfile', .inr (.inl ⟨leaf, ?_, hid, hne, hcovers⟩)⟩
    simpa [withFindings] using hpicked
  exact ⟨⟨file, reviewersOf given file⟩, (hrows _).2 ⟨hfile', rfl⟩, rfl,
    mem_reviewersOf.2 hcredit⟩

/-- The planner gives a leaf no file that it does not cover, where no keyword-only leaf meets a
changed path. -/
theorem leafCovers_of_mem {leaf : Dict} (hcarried : Carried wiki leaf) {changed : List String}
    (hkeyword : KeywordOnly wiki leaf → changed = []) {file : String}
    (hfile : file ∈ leafFileSet leaf changed) : leafCovers wiki leaf file = true := by
  obtain ⟨hmem, hempty | ⟨glob, hglob, -, hmatch⟩⟩ := (mem_leafFileSet_iff hcarried).1 hfile
  · rw [leafCovers_iff hcarried]
    left
    by_contra hsome
    have hnil := hkeyword ⟨Option.isSome_iff_ne_none.2 hsome, hempty⟩
    exact absurd hmem (hnil ▸ List.not_mem_nil)
  · exact (leafCovers_iff hcarried).2 (.inr ⟨glob, hglob, hmatch⟩)

theorem frontmatterGlobs_of_some {leaf activation : Dict}
    (hsome : frontmatterActivation wiki leaf = some activation) :
    frontmatterGlobs wiki leaf = activation.get "file_globs" := by
  rw [frontmatterGlobs, hsome]
  rfl

/-- Where they agree, no keyword-only leaf meets a changed path. -/
theorem Agrees.changed_eq_nil {leafId : String} {leaf : Dict} {changed : List String}
    (h : Agrees rt embed wiki leafId leaf changed) (hcarried : Carried wiki leaf)
    (hkeyword : KeywordOnly wiki leaf) : changed = [] := by
  obtain ⟨hsome, hnil⟩ := hkeyword
  by_contra hchanged
  obtain ⟨file, hfile⟩ := List.exists_mem_of_ne_nil changed hchanged
  -- the review by the leaf alone is given the file, and the leaf gets no credit for it
  obtain ⟨cov, hcov, hall⟩ := h.listed (reviewBy leafId leaf changed) nothingFound
    (List.mem_singleton_self _) (picksReadable_reviewBy hcarried leafId changed)
    (changedFiles_reviewBy leafId leaf changed) (collectFindings_reviewBy leafId leaf changed)
      (allCompleted_reviewBy leafId leaf changed)
  have hgiven : file ∈ leafFileSet leaf (changedFiles (reviewBy leafId leaf changed)) := by
    rw [changedFiles_reviewBy]
    exact (mem_leafFileSet_iff hcarried).2 ⟨hfile, .inl hnil⟩
  obtain ⟨u, hu, hmem⟩ := (@mem_files_pickUnits _ (leafId, leaf) file).2 hgiven
  have hcovers := leafCovers_of_listed hcov (hall u hu file hmem)
  rcases (leafCovers_iff hcarried).1 hcovers with hnone | ⟨glob, hglob, -⟩
  · rw [hnone] at hsome
    exact absurd hsome Bool.false_ne_true
  · rw [hnil] at hglob
    exact absurd hglob List.not_mem_nil

/-- Where they agree, a path that the empty glob matches is matched by another one. -/
theorem Agrees.exists_glob {leafId : String} {leaf : Dict} {changed : List String}
    (h : Agrees rt embed wiki leafId leaf changed) (hcarried : Carried wiki leaf) {file : String}
    (hfile : file ∈ changed) (hnewline : file = "" ∨ file = "\n")
    (hglob : .str "" ∈ ensureList (frontmatterGlobs wiki leaf)) :
    ∃ glob, .str glob ∈ ensureList (frontmatterGlobs wiki leaf) ∧ glob ≠ "" ∧
      minimatch file glob = true := by
  cases hactivation : frontmatterActivation wiki leaf with
  | none =>
    rw [frontmatterGlobs, hactivation] at hglob
    exact absurd hglob List.not_mem_nil
  | some activation =>
    have hread : readLeafGlobs wiki (leaf.get "path") =
        .ok (some (strs (ensureList (frontmatterGlobs wiki leaf)))) := by
      rw [readLeafGlobs_eq hcarried.readable, frontmatterGlobs_of_some hactivation, hactivation]
      rfl
    have hmatch : (strs (ensureList (frontmatterGlobs wiki leaf))).any (minimatch file) = true :=
      List.any_eq_true.2 ⟨"", mem_strs.2 hglob, minimatch_empty.2 hnewline⟩
    have hunit := h.assigned (reviewBy leafId leaf changed)
      (changedFiles_reviewBy leafId leaf changed) _ hread file hfile hmatch
    rcases ((mem_leafFileSet_iff hcarried).1 (mem_files_pickUnits.1 hunit)).2 with hnil | hother
    · rw [hnil] at hglob
      exact absurd hglob List.not_mem_nil
    · exact hother

/-- **The planner and the coverage check agree on a leaf exactly when it has globs or no activation
block, or nothing changed, and no path is matched by an empty glob alone.**  With a picked leaf that
cannot be read the check raises. -/
theorem agrees_iff {leafId : String} {leaf : Dict} (hid : leaf.get "id" = .str leafId)
    (hne : leafId ≠ "") (hcarried : Carried wiki leaf) (changed : List String) :
    (Agrees rt embed wiki leafId leaf changed ↔ ScopeFits wiki leaf changed) ∧
      ∀ env c, collectFindings rt embed env = .ok c →
        (Result.Ok (verifyCoverage wiki (withFindings env c)) ↔ PicksReadable wiki env) := by
  refine ⟨?_, fun env c hcollect => verifyCoverage_ok_iff wiki hcollect⟩
  constructor
  · intro h
    exact ⟨h.changed_eq_nil hcarried, fun file hfile => h.exists_glob hcarried hfile⟩
  · intro hfits
    refine ⟨fun env c hpicked hreadable hchanged hcollect _ => ?_,
      fun env hchanged globs hread file hfile
      hmatch => ?_⟩
    · obtain ⟨cov, hcov⟩ := (verifyCoverage_ok_iff wiki hcollect).2 hreadable
      refine ⟨cov, hcov, ?_⟩
      intro u hu file hmem
      have hset := mem_files_pickUnits.1 ⟨u, hu, hmem⟩
      have hkeyword : KeywordOnly wiki leaf → changedFiles env = [] := hchanged ▸ hfits.keywordOnly
      exact listed_of_leafCovers hcov hpicked hid hne ((mem_leafFileSet_iff hcarried).1 hset).1
        (leafCovers_of_mem hcarried hkeyword hset)
    · rw [readLeafGlobs_eq hcarried.readable, Except.ok.injEq, Option.map_eq_some_iff] at hread
      obtain ⟨activation, hsome, rfl⟩ := hread
      obtain ⟨glob, hglob, hmatch⟩ := List.any_eq_true.1 hmatch
      rw [mem_strs, ← frontmatterGlobs_of_some hsome] at hglob
      refine mem_files_pickUnits.2 ((mem_leafFileSet_iff hcarried).2 ⟨hchanged ▸ hfile, .inr ?_⟩)
      by_cases hempty : glob = ""
      · rw [hempty] at hglob hmatch
        exact hfits.emptyGlob file hfile (minimatch_empty.1 hmatch) hglob
      · exact ⟨glob, hglob, hempty, hmatch⟩

/-- A leaf that is activated by keywords alone, as the activation step passes it on. -/
def keywordLeaf : Dict :=
  [("id", .str "sec-secrets"), ("path", .str "sec-secrets.md"),
    ("activation_match", ofStrs ["keyword_matches"])]

/-- Its frontmatter. -/
def keywordWiki : Wiki := fun path =>
  .ok (if path = "sec-secrets.md" then
    some [("id", .str "sec-secrets"),
      ("activation", .dict [("keyword_matches", ofStrs ["password"])])]
  else none)

/-- A leaf for Python files, as the activation step passes it on. -/
def pythonLeaf : Dict :=
  [("id", .str "lang-python"), ("path", .str "lang-python.md"),
    ("activation_match", ofStrs ["file_globs"]), ("file_globs", ofStrs ["**/*.py"])]

/-- Its frontmatter. -/
def pythonWiki : Wiki := fun path =>
  .ok (if path = "lang-python.md" then
    some [("id", .str "lang-python"), ("activation", .dict [("file_globs", ofStrs ["**/*.py"])])]
  else none)

/-- The theorem applied to a leaf with a glob, on which planner and coverage check agree. -/
theorem agrees_iff_python : ScopeFits pythonWiki pythonLeaf ["src/a.py"] ∧
    Agrees .ascii (fun _ => none) pythonWiki "lang-python" pythonLeaf ["src/a.py"] := by
  have hglobs : frontmatterGlobs pythonWiki pythonLeaf = ofStrs ["**/*.py"] := rfl
  have hfits : ScopeFits pythonWiki pythonLeaf ["src/a.py"] := by
    refine ⟨fun ⟨_, hnil⟩ => ?_, fun file hfile hnewline _ => ?_⟩
    · rw [hglobs] at hnil
      exact absurd hnil (List.cons_ne_nil _ _)
    · rw [List.mem_singleton.1 hfile] at hnewline
      exact absurd hnewline (by decide)
  have hid : pythonLeaf.get "id" = .str "lang-python" := rfl
  have hcarried : Carried pythonWiki pythonLeaf := ⟨⟨_, rfl⟩, rfl⟩
  exact ⟨hfits, (agrees_iff hid (by decide) hcarried _).1.2 hfits⟩

/-- A keyword-only leaf reviews the full diff and is credited with none of it. -/
theorem keywordLeaf_uncredited :
    ¬ Agrees .ascii (fun _ => none) keywordWiki "sec-secrets" keywordLeaf ["a.py"] := by
  intro h
  have hcarried : Carried keywordWiki keywordLeaf := ⟨⟨_, rfl⟩, rfl⟩
  have hkeyword : KeywordOnly keywordWiki keywordLeaf := ⟨rfl, rfl⟩
  exact absurd (h.changed_eq_nil hcarried hkeyword) (List.cons_ne_nil _ _)

end CodeReview
