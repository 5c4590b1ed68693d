import CodeReview.Dispatch.Prompt
import CodeReview.Handlers.Coverage
import CodeReview.Lib.FileTree
import CodeReview.Py.Path

/-!
# The leaf of a specialist

The path of a picked leaf is resolved twice: `_read_leaf_globs` tries it below the wiki and below
the skill root, and keeps what lies inside the wiki; `dispatch_specialist` joins it to the wiki and
reads what is there into the prompt.  Permissions are left out.

* `embedsCredited_iff` : **the specialist reads the file that coverage credits exactly when the
  path names a text file inside the wiki, or no file under either reading**;
* `namesLeaf_of_below` : the names from the wiki down to a text file are such a path.
-/

namespace CodeReview

open Py FileTree

/-- The files on disk, with the text of those that are UTF-8. -/
abbrev Disk := FileTree.Tree (Option String)

variable (disk : Disk)

/-- `skill_root / "reviewers.wiki"`. -/
def wikiRoot (skillRoot : List String) : List String := skillRoot ++ ["reviewers.wiki"]

/-- `path.exists()`, and the place that is found.  It passes over missing files and loops of links,
not over names that are too long. -/
def findExisting (path : List String) : Result (Option Place) :=
  match disk.stat path with
  | .ok place => .ok (some place)
  | .error .missing => .ok none
  | .error .tooLong => .error (.user "OSError" "File name too long")

/-- What reading a place that exists returns or raises. -/
def readText (place : Place) : Result String :=
  match disk.entry place with
  | some (.file (some text)) => .ok text
  | some (.file none) => .error .valueError
  | _ => .error (.user "IsADirectoryError" "")

/-- `frontmatter.load` where an `OSError` and a `ValueError` are passed over: a directory, a text
that is not UTF-8, and a `ValueError` of the parser. -/
def loadFrontmatter {μ : Type} (frontmatter : String → Result μ) (place : Place) :
    Result (Option μ) :=
  match readText disk place with
  | .ok text =>
    match frontmatter text with
    | .ok data => .ok (some data)
    | .error .valueError => .ok none
    | .error exc => .error exc
  | .error _ => .ok none

/-! ### The coverage check -/

/-- The place is inside the wiki, and not the wiki itself. -/
def strictlyInside (wiki place : Place) : Bool := wiki <+: place ∧ place ≠ wiki

/-- What `_read_leaf_globs` makes of one reading of a path. -/
def candidatePlace (wiki : Place) (candidate : List String) : Result (Option Place) := do
  match ← findExisting disk candidate with
  | none => return none
  | some _ => return (disk.realpath candidate).filter (strictlyInside wiki)

/-- The `abs_path` of `_read_leaf_globs`. -/
def leafPlace (skillRoot : List String) (path : String) : Result (Option Place) :=
  if path = "" then .ok none
  else
    match disk.realpath (wikiRoot skillRoot) with
    | none => .ok none
    | some wiki => do
      match ← candidatePlace disk wiki (Path.join (wikiRoot skillRoot) path) with
      | some place => return some place
      | none => candidatePlace disk wiki (Path.join skillRoot path)

/-- The wiki that the coverage check reads. -/
def wikiOf (frontmatter : String → Result Dict) (skillRoot : List String) : Wiki := fun path => do
  match ← leafPlace disk skillRoot path with
  | none => return none
  | some place => loadFrontmatter disk frontmatter place

/-- There is a file at the place. -/
def isFile (place : Place) : Bool :=
  match disk.entry place with
  | some (.file _) => true
  | _ => false

/-- The file that `_read_leaf_globs` resolves the path to. -/
def creditedFile (skillRoot : List String) (path : String) : Result (Option Place) :=
  (Option.filter (isFile disk)) <$> leafPlace disk skillRoot path

/-! ### The specialist -/

/-- The file that `dispatch_specialist` reads, with the text that it puts into the prompt. -/
def leafRead (wiki : List String) (path : Value) : Result (Option (Place × String)) :=
  match path with
  | .str path =>
    if path = "" then .ok none
    else do
      match ← findExisting disk (Path.join wiki path) with
      | none => return none
      | some place => return some (place, Text.universalNewlines (← readText disk place))
  | path => if path.truthy then .error .typeError else .ok none

/-- The prompt of a specialist; `role` and `rule` are the texts that `_load_prompt("specialist")`
and `_OUTPUT_RULE` give. -/
def specialistPrompt (rt : Runtime) (role base head rule leafId leafBody : String)
    (files profile : Value) : String :=
  role ++ "\n\n## YOUR LEAF: " ++ leafId ++ "\n" ++ leafBody ++
    "\n\n## REVIEW TARGET\nRun `git diff " ++ base ++ ".." ++ head ++ "` here; your files: " ++
    String.ofList (Json.dumps rt files) ++ ". Read import-connected files to verify.\n" ++
    "## PROJECT\n```json\n" ++ String.ofList ((Json.dumps rt profile).take 4000) ++ "\n```" ++
    rule ++ "Return \x7b\"id\":\"" ++ leafId ++
    "\",\"status\":\"completed\",\"findings\":[...]\x7d."

variable {disk}

/-! ### What both make of a path -/

theorem strictlyInside_iff {wiki place : Place} :
    strictlyInside wiki place = true ↔ wiki <+: place ∧ place ≠ wiki := by
  simp [strictlyInside]

theorem isFile_iff {place : Place} :
    isFile disk place = true ↔ ∃ content, disk.entry place = some (.file content) := by
  rw [isFile]
  rcases disk.entry place with - | - | - | - <;> simp

theorem readText_eq_ok {place : Place} {text : String} :
    readText disk place = .ok text ↔ disk.entry place = some (.file (some text)) := by
  rw [readText]
  rcases disk.entry place with - | ⟨text' | -⟩ | - | - <;> simp

theorem candidatePlace_eq_some {wiki place : Place} {candidate : List String} :
    candidatePlace disk wiki candidate = .ok (some place) ↔
      disk.stat candidate = .ok place ∧ disk.realpath candidate = some place ∧
        strictlyInside wiki place = true := by
  rw [candidatePlace, findExisting]
  rcases hstat : disk.stat candidate with (- | -) | p
  · simp
  · simp
  · simp only [Result.ok_bind, Result.pure_eq_ok, Except.ok.injEq, Option.filter_eq_some_iff]
    constructor
    · rintro ⟨hreal, hinside⟩
      exact ⟨(FileTree.Tree.eq_of_stat hstat hreal).symm, hreal, hinside⟩
    · rintro ⟨-, hreal, hinside⟩
      exact ⟨hreal, hinside⟩

theorem candidatePlace_eq_none {wiki : Place} {candidate : List String} :
    candidatePlace disk wiki candidate = .ok none ↔ disk.stat candidate ≠ .error .tooLong ∧
      ∀ place, disk.stat candidate = .ok place → disk.realpath candidate = some place →
        strictlyInside wiki place = false := by
  rw [candidatePlace, findExisting]
  rcases hstat : disk.stat candidate with (- | -) | p
  · simp
  · simp
  · simp only [Result.ok_bind, Result.pure_eq_ok, Except.ok.injEq, Option.filter_eq_none_iff,
      Bool.not_eq_true, ne_eq, reduceCtorEq, not_false_eq_true, true_and]
    constructor
    · exact fun h place _ hreal => h place hreal
    · exact fun h place hreal => h place (FileTree.Tree.eq_of_stat hstat hreal).symm hreal

/-- The place is inside the wiki of the skill root. -/
def InsideWiki (disk : Disk) (skillRoot : List String) (place : Place) : Prop :=
  ∃ wiki, disk.realpath (wikiRoot skillRoot) = some wiki ∧ strictlyInside wiki place = true

/-- Below the wiki, the path names a text file inside it, and resolves to that file; where its real
path is too long for the system, it does so below the skill root. -/
structure NamesLeaf (disk : Disk) (skillRoot : List String) (path : String) (place : Place)
    (text : String) : Prop where
  found : disk.stat (Path.join (wikiRoot skillRoot) path) = .ok place
  inside : InsideWiki disk skillRoot place
  file : disk.entry place = some (.file (some text))
  real : disk.realpath (Path.join (wikiRoot skillRoot) path) = some place ∨
    disk.realpath (Path.join (wikiRoot skillRoot) path) = none ∧
      disk.stat (Path.join skillRoot path) = .ok place ∧
      disk.realpath (Path.join skillRoot path) = some place

/-- Below the wiki the path names nothing, and below the skill root no file inside the wiki. -/
structure NamesNoLeaf (disk : Disk) (skillRoot : List String) (path : String) : Prop where
  missing : disk.stat (Path.join (wikiRoot skillRoot) path) = .error .missing
  other : ∀ wiki, disk.realpath (wikiRoot skillRoot) = some wiki →
    disk.stat (Path.join skillRoot path) ≠ .error .tooLong ∧
      ∀ place content, disk.stat (Path.join skillRoot path) = .ok place →
        disk.realpath (Path.join skillRoot path) = some place →
          strictlyInside wiki place = true → disk.entry place ≠ some (.file content)

/-- The specialist reads the file that the coverage check resolves the path to, and nothing when
there is none. -/
def EmbedsCredited (disk : Disk) (skillRoot : List String) (path : String) : Prop :=
  ∃ read, leafRead disk (wikiRoot skillRoot) (.str path) = .ok read ∧
    creditedFile disk skillRoot path = .ok (read.map Prod.fst)

section

variable {skillRoot : List String} {path : String}

/-- What a path that names something below the wiki is credited as. -/
theorem leafPlace_eq_some (hpath : path ≠ "") {place : Place}
    (hfound : disk.stat (Path.join (wikiRoot skillRoot) path) = .ok place) :
    leafPlace disk skillRoot path = .ok (some place) ↔ InsideWiki disk skillRoot place ∧
      (disk.realpath (Path.join (wikiRoot skillRoot) path) = some place ∨
        disk.realpath (Path.join (wikiRoot skillRoot) path) = none ∧
          disk.stat (Path.join skillRoot path) = .ok place ∧
          disk.realpath (Path.join skillRoot path) = some place) := by
  rw [leafPlace, if_neg hpath, InsideWiki]
  cases hwiki : disk.realpath (wikiRoot skillRoot) with
  | none => simp
  | some wiki =>
    simp only [Option.some.injEq, exists_eq_left']
    cases hreal : disk.realpath (Path.join (wikiRoot skillRoot) path) with
    | none =>
      have hfirst : candidatePlace disk wiki (Path.join (wikiRoot skillRoot) path) = .ok none :=
        candidatePlace_eq_none.2 ⟨by simp [hfound], by simp [hreal]⟩
      rw [hfirst, Result.ok_bind]
      simp only [candidatePlace_eq_some, reduceCtorEq, false_or, true_and]
      tauto
    | some q =>
      obtain rfl := FileTree.Tree.eq_of_stat hfound hreal
      cases hinside : strictlyInside wiki q with
      | true =>
        rw [candidatePlace_eq_some.2 ⟨hfound, hreal, hinside⟩]
        simp
      | false =>
        have hfirst : candidatePlace disk wiki (Path.join (wikiRoot skillRoot) path) =
            .ok none := by
          refine candidatePlace_eq_none.2 ⟨by simp [hfound], fun place hplace _ => ?_⟩
          obtain rfl := Except.ok.inj (hfound.symm.trans hplace)
          exact hinside
        rw [hfirst, Result.ok_bind]
        simp only [candidatePlace_eq_some, hinside]
        simp

/-- The coverage check reads the globs off the file that is credited. -/
theorem wikiOf_of_credited (frontmatter : String → Result Dict) {place : Place}
    (h : creditedFile disk skillRoot path = .ok (some place)) :
    wikiOf disk frontmatter skillRoot path = loadFrontmatter disk frontmatter place := by
  obtain ⟨found, hfound, hfile⟩ := Result.map_eq_ok.1 h
  obtain ⟨rfl, -⟩ := Option.filter_eq_some_iff.1 hfile
  rw [wikiOf, hfound]
  rfl

/-- A path that names nothing below the wiki is looked up below the skill root. -/
theorem creditedFile_eq_none (hpath : path ≠ "")
    (hmissing : disk.stat (Path.join (wikiRoot skillRoot) path) = .error .missing) :
    creditedFile disk skillRoot path = .ok none ↔ NamesNoLeaf disk skillRoot path := by
  have hnames : NamesNoLeaf disk skillRoot path ↔
      ∀ wiki, disk.realpath (wikiRoot skillRoot) = some wiki →
        disk.stat (Path.join skillRoot path) ≠ .error .tooLong ∧
          ∀ place content, disk.stat (Path.join skillRoot path) = .ok place →
            disk.realpath (Path.join skillRoot path) = some place →
              strictlyInside wiki place = true → disk.entry place ≠ some (.file content) :=
    ⟨NamesNoLeaf.other, fun h => ⟨hmissing, h⟩⟩
  rw [hnames, creditedFile, leafPlace, if_neg hpath]
  cases hwiki : disk.realpath (wikiRoot skillRoot) with
  | none => simp
  | some wiki =>
    have hfirst : candidatePlace disk wiki (Path.join (wikiRoot skillRoot) path) = .ok none :=
      candidatePlace_eq_none.2 ⟨by simp [hmissing], by simp [hmissing]⟩
    simp only [hfirst, Result.ok_bind, Option.some.injEq, forall_eq']
    rw [candidatePlace, findExisting]
    rcases hstat : disk.stat (Path.join skillRoot path) with (- | -) | p
    · simp
    · simp
    · simp only [Result.ok_bind, Result.pure_eq_ok, Except.map_ok, Except.ok.injEq,
        Option.filter_eq_none_iff, Option.filter_eq_some_iff, isFile_iff, not_exists, ne_eq,
        reduceCtorEq, not_false_eq_true, true_and]
      constructor
      · rintro h place content rfl hreal hinside
        exact h _ ⟨hreal, hinside⟩ content
      · rintro h place ⟨hreal, hinside⟩ content
        exact h place content (FileTree.Tree.eq_of_stat hstat hreal).symm hreal hinside

/-- A leaf inside the wiki is read, and credited. -/
theorem NamesLeaf.embedded {place : Place} {text : String} (hpath : path ≠ "")
    (h : NamesLeaf disk skillRoot path place text) :
    leafRead disk (wikiRoot skillRoot) (.str path) =
        .ok (some (place, Text.universalNewlines text)) ∧
      creditedFile disk skillRoot path = .ok (some place) := by
  refine ⟨?_, ?_⟩
  · simp [leafRead, hpath, findExisting, h.found, readText_eq_ok.2 h.file]
  · rw [creditedFile, (leafPlace_eq_some hpath h.found).2 ⟨h.inside, h.real⟩]
    have hfile : Option.filter (isFile disk) (some place) = some place :=
      Option.filter_eq_some_iff.2 ⟨rfl, isFile_iff.2 ⟨_, h.file⟩⟩
    exact congrArg Except.ok hfile

/-- A leaf that is read and credited is named. -/
theorem namesLeaf_of_embedded {place : Place} (hpath : path ≠ "")
    (hfound : disk.stat (Path.join (wikiRoot skillRoot) path) = .ok place)
    (h : EmbedsCredited disk skillRoot path) :
    ∃ text, NamesLeaf disk skillRoot path place text := by
  obtain ⟨read, hread, hcredited⟩ := h
  simp only [leafRead, hpath, if_false, findExisting, hfound, Result.ok_bind] at hread
  obtain ⟨text, htext, hsome⟩ := Result.bind_eq_ok.1 hread
  obtain rfl := Except.ok.inj hsome
  obtain ⟨credited, hleaf, hfile⟩ := Result.map_eq_ok.1 hcredited
  -- the file that is credited is the one that is read
  obtain ⟨rfl, -⟩ := Option.filter_eq_some_iff.1 hfile
  obtain ⟨hinside, hreal⟩ := (leafPlace_eq_some hpath hfound).1 hleaf
  exact ⟨text, hfound, hinside, readText_eq_ok.1 htext, hreal⟩

end

/-- **The specialist reads what coverage credits.** -/
theorem embedsCredited_iff (disk : Disk) (skillRoot : List String) (path : String) :
    EmbedsCredited disk skillRoot path ↔ path = "" ∨
      (∃ place text, NamesLeaf disk skillRoot path place text) ∨
        NamesNoLeaf disk skillRoot path := by
  by_cases hpath : path = ""
  · refine iff_of_true ⟨none, ?_, ?_⟩ (.inl hpath)
    · simp [leafRead, hpath]
    · simp [creditedFile, leafPlace, hpath]
  rw [or_iff_right hpath]
  cases hfirst : disk.stat (Path.join (wikiRoot skillRoot) path) with
  | error e =>
    have hleaf : ¬ ∃ place text, NamesLeaf disk skillRoot path place text := by
      rintro ⟨place, text, h⟩
      rw [h.found] at hfirst
      cases hfirst
    rw [or_iff_right hleaf]
    cases e with
    | missing =>
      have hread : leafRead disk (wikiRoot skillRoot) (.str path) = .ok none := by
        simp [leafRead, hpath, findExisting, hfirst]
      rw [← creditedFile_eq_none hpath hfirst, EmbedsCredited, hread]
      simp
    | tooLong =>
      -- `exists` raises
      have hnot : ¬ NamesNoLeaf disk skillRoot path := fun h => by
        rw [h.missing] at hfirst
        cases hfirst
      refine iff_of_false ?_ hnot
      rintro ⟨read, hread, -⟩
      simp [leafRead, hpath, findExisting, hfirst] at hread
  | ok place =>
    have hnot : ¬ NamesNoLeaf disk skillRoot path := fun h => by
      rw [h.missing] at hfirst
      cases hfirst
    rw [or_iff_left hnot]
    constructor
    · intro h
      exact ⟨place, namesLeaf_of_embedded hpath hfirst h⟩
    · rintro ⟨place', text, h⟩
      obtain ⟨hread, hcredited⟩ := h.embedded hpath
      exact ⟨_, hread, hcredited⟩

/-- A wiki with one leaf, and a file beside it. -/
def smallWiki : Disk where
  entries := [([], .dir), (["skill"], .dir), (["skill", "reviewers.wiki"], .dir),
    (["skill", "reviewers.wiki", "sec"], .dir),
    (["skill", "reviewers.wiki", "sec", "jwt.md"], .file (some "Check the signature.")),
    (["skill", "notes.md"], .file (some "Not a leaf."))]
  isDir_root := rfl
  isDir_parent := by decide
  isName := by decide +kernel

/-- **The repo-relative form is not read, and a path that leaves the wiki is.** -/
theorem repo_relative_not_read :
    (leafRead smallWiki (wikiRoot ["skill"]) (.str "reviewers.wiki/sec/jwt.md") = .ok none ∧
      creditedFile smallWiki ["skill"] "reviewers.wiki/sec/jwt.md" =
        .ok (some ["skill", "reviewers.wiki", "sec", "jwt.md"]) ∧
      ¬ EmbedsCredited smallWiki ["skill"] "reviewers.wiki/sec/jwt.md") ∧
    leafRead smallWiki (wikiRoot ["skill"]) (.str "../notes.md") =
      .ok (some (["skill", "notes.md"], "Not a leaf.")) ∧
    creditedFile smallWiki ["skill"] "../notes.md" = .ok none ∧
    ¬ EmbedsCredited smallWiki ["skill"] "../notes.md" := by
  have hread : leafRead smallWiki (wikiRoot ["skill"]) (.str "reviewers.wiki/sec/jwt.md") =
      .ok none := by decide +kernel
  have hcredited : creditedFile smallWiki ["skill"] "reviewers.wiki/sec/jwt.md" =
      .ok (some ["skill", "reviewers.wiki", "sec", "jwt.md"]) := by decide +kernel
  have hread' : leafRead smallWiki (wikiRoot ["skill"]) (.str "../notes.md") =
      .ok (some (["skill", "notes.md"], "Not a leaf.")) := by decide +kernel
  have hcredited' : creditedFile smallWiki ["skill"] "../notes.md" = .ok none := by decide +kernel
  refine ⟨⟨hread, hcredited, ?_⟩, hread', hcredited', ?_⟩
  · rintro ⟨read, hok, hfile⟩
    obtain rfl := Except.ok.inj (hread.symm.trans hok)
    rw [hcredited] at hfile
    cases hfile
  · rintro ⟨read, hok, hfile⟩
    obtain rfl := Except.ok.inj (hread'.symm.trans hok)
    rw [hcredited'] at hfile
    cases hfile

/-- **The names from the wiki's real place down to a text file name it as a leaf**, unless they make
too long a path. -/
theorem namesLeaf_of_below {skillRoot : List String} {wiki : Place} {path : String}
    (hexists : disk.stat (wikiRoot skillRoot) = .ok wiki)
    (hwiki : disk.realpath (wikiRoot skillRoot) = some wiki)
    (hrelative : Path.isAbsolute path = false) (hpath : Path.parts path ≠ [])
    (hshort : pathBytes (Path.join (wikiRoot skillRoot) path) ≤ pathMax)
    (hfits : pathBytes (wiki ++ Path.parts path) ≤ pathMax) {text : String}
    (hentry : disk.entry (wiki ++ Path.parts path) = some (.file (some text))) :
    NamesLeaf disk skillRoot path (wiki ++ Path.parts path) text := by
  have hend : disk.IsEnd (wiki ++ Path.parts path) := .inr ⟨_, hentry⟩
  have hjoin : Path.join (wikiRoot skillRoot) path = wikiRoot skillRoot ++ Path.parts path := by
    rw [Path.join, hrelative]
    rfl
  rw [hjoin] at hshort
  refine ⟨?_, ⟨wiki, hwiki, strictlyInside_iff.2 ⟨List.prefix_append .., by simpa using hpath⟩⟩,
    hentry, .inl ?_⟩
  · rw [hjoin]
    exact FileTree.Tree.stat_below hexists hend hshort
  · rw [hjoin]
    exact FileTree.Tree.realpath_below hwiki hend hfits

end CodeReview
