import CodeReview.Dispatch.Specialist
import CodeReview.Handlers.Projection
import CodeReview.Lib.Traverse
import CodeReview.Handlers.RunDirectory
import CodeReview.Py.Printing
import Mathlib.Data.List.ReduceOption

/-!
# The leaves of the wiki

Two functions walk the wiki: `_enumerate_wiki_leaves` lists its leaves for the activation, and
`_count_wiki_leaves` counts its files for the report.  Both resolve symbolic links, stay inside the
wiki, and expand a directory once.  What an entry is, they ask the system, which gives up sooner
than they do.

* `wikiFiles_spec` : **a walk ends, and visits every directory of the wiki once**, whatever the
  links;
* `wiki_walks_agree` : the two walks see the same files, and the count is of those that the system
  finds too;
* `listed_credited` : **every leaf that is listed can be read by a specialist, and is credited by
  the coverage check.**
-/

namespace CodeReview

open Py FileTree Traverse

/-! ### The walk -/

/-- The names in a directory. -/
def namesIn (disk : Disk) (dir : Place) : List String :=
  (disk.entries.filterMap fun e => if e.1.dropLast = dir then e.1.getLast? else none).dedup

/-- A name that ends in `.md`. -/
def isMarkdown (name : String) : Bool := ".md".toList.isSuffixOf name.toList

/-- A file of the wiki: where the walk met it, and where that resolves to. -/
structure WikiFile where
  met : Place
  real : Place
  deriving DecidableEq, Repr

section

variable (disk : Disk)

/-- `path.is_dir()`, for a path that is not too long. -/
def isDirAt (path : Place) : Bool :=
  match disk.stat path with
  | .ok place => disk.isDir place
  | .error _ => false

/-- `path.is_file()`, likewise. -/
def isFileAt (path : Place) : Bool :=
  match disk.stat path with
  | .ok place => isFile disk place
  | .error _ => false

/-- One entry of a directory: a directory to walk, a file, or nothing. -/
def wikiItem (root current : Place) (name : String) : Option (Place ⊕ WikiFile) :=
  if Text.startsWith name "." then none
  else
    match disk.realpath (current ++ [name]) with
    | none => none
    | some real =>
      -- what leads out of the wiki is rejected
      if root <+: real then
        if isDirAt disk (current ++ [name]) then some (.inl real)
        -- the name of the entry counts, not that of the file
        else if isMarkdown name ∧ name ≠ "index.md" then some (.inr ⟨current ++ [name], real⟩)
        else none
      else none

/-- The listing of a directory, its names in this order. -/
def wikiListing (names : Place → List String) (root current : Place) : List (Place ⊕ WikiFile) :=
  (names current).filterMap (wikiItem disk root current)

/-- The files of the wiki; `none` when the walk does not end. -/
def wikiFiles (names : Place → List String) (root : Place) : Option (List WikiFile) :=
  traverse (wikiListing disk names root) disk.entries.length root

/-- The directory that a walk starts in, if there is a wiki. -/
def wikiStart (skillRoot : List String) : Result (Option Place) := do
  match ← findExisting disk (wikiRoot skillRoot) with
  | none => return none
  | some _ => return disk.realpath (wikiRoot skillRoot)

/-- `_count_wiki_leaves`, for directories that are listed in the order `names`. -/
def countWikiLeaves (names : Place → List String) (skillRoot : List String) : Option (Result ℕ) :=
  match wikiStart disk skillRoot with
  | .error exc => some (.error exc)
  | .ok none => some (.ok 0)
  | .ok (some root) =>
    (wikiFiles disk names root).map fun files => .ok (files.countP fun f => isFileAt disk f.met)

/-- `sorted(current.iterdir())`. -/
def sortedNames (dir : Place) : List String := (namesIn disk dir).insertionSort (· ≤ ·)

/-! ### The leaves -/

/-- A leaf, as the activation reads it. -/
structure ListedLeaf where
  id : String
  path : String
  activation : Yaml
  fileGlobs : Option Yaml
  v2 : List (String × Yaml)

/-- The path of a file below the wiki. -/
def wikiPath (root place : Place) : String :=
  Text.replaceChar '\\' "/" (Text.join "/" (place.drop root.length))

/-- The globs of an activation, if they are texts. -/
def leafFileGlobs (activation : Yaml) : Option Yaml :=
  match activation with
  | .map entries =>
    let globs := Yaml.get entries "file_globs"
    if isStringArray globs then some globs else none
  | _ => none

/-- The leaf of a file, if it has an id. -/
def wikiLeaf (frontmatter : String → Result Yaml.Mapping) (root place : Place) :
    Result (Option ListedLeaf) := do
  match ← loadFrontmatter disk frontmatter place with
  | none => return none
  | some data =>
    match Yaml.get data "id" with
    | .str id =>
      if id = "" then return none
      else return some {
        id
        path := wikiPath root place
        activation := Yaml.get data "activation"
        fileGlobs := leafFileGlobs (Yaml.get data "activation")
        v2 := projectV2Fields data }
    | _ => return none

/-- The leaves of the files, by id. -/
def leavesOf (frontmatter : String → Result Yaml.Mapping) (root : Place) (files : List Place) :
    Result (List ListedLeaf) := do
  let leaves ← files.mapM (wikiLeaf disk frontmatter root)
  return leaves.reduceOption.insertionSort fun leaf leaf' => leaf.id ≤ leaf'.id

/-- `_enumerate_wiki_leaves`; the walk does not depend on what it reads. -/
def enumerateWikiLeaves (frontmatter : String → Result Yaml.Mapping) (skillRoot : List String) :
    Option (Result (List ListedLeaf)) :=
  match wikiStart disk skillRoot with
  | .error exc => some (.error exc)
  | .ok none => some (.ok [])
  | .ok (some root) => (wikiFiles disk (sortedNames disk) root).map fun files =>
      leavesOf disk frontmatter root (files.map WikiFile.real)

end

/-! ### The walk ends -/

variable {disk : Disk} {root : Place}

theorem mem_namesIn {dir : Place} {name : String} :
    name ∈ namesIn disk dir ↔ (disk.entry (dir ++ [name])).isSome = true := by
  rw [namesIn, List.mem_dedup, List.mem_filterMap, FileTree.Tree.entry, List.lookup_isSome_iff]
  constructor
  · rintro ⟨e, he, hname⟩
    split_ifs at hname with hdir
    have hplace : e.1 = dir ++ [name] := by
      rw [← hdir]
      exact (List.dropLast_append_getLast? name hname).symm
    exact ⟨e, he, by simpa using hplace.symm⟩
  · rintro ⟨e, he, hplace⟩
    have hplace : dir ++ [name] = e.1 := by simpa using hplace
    exact ⟨e, he, by simp [← hplace]⟩

/-- In the directory the visible name stands for a place inside the wiki. -/
structure Shows (disk : Disk) (root dir : Place) (name : String) (real : Place) : Prop where
  mem : name ∈ namesIn disk dir
  visible : Text.startsWith name "." = false
  resolves : disk.realpath (dir ++ [name]) = some real
  inside : root <+: real

/-- One directory of the wiki leads to another. -/
def LeadsInto (disk : Disk) (root dir dir' : Place) : Prop :=
  ∃ name, Shows disk root dir name dir' ∧ isDirAt disk (dir ++ [name]) = true

/-- A directory of the wiki. -/
def InWiki (disk : Disk) (root : Place) : Place → Prop :=
  Relation.ReflTransGen (LeadsInto disk root) root

/-- The files of the wiki in a directory. -/
def filesIn (disk : Disk) (root dir : Place) : List WikiFile :=
  resultsOf (wikiListing disk (namesIn disk) root dir)

theorem wikiItem_eq_some {dir : Place} {name : String} {item : Place ⊕ WikiFile}
    (hmem : name ∈ namesIn disk dir) (h : wikiItem disk root dir name = some item) :
    ∃ real, Shows disk root dir name real ∧
      ((isDirAt disk (dir ++ [name]) = true ∧ item = .inl real) ∨
        (isDirAt disk (dir ++ [name]) = false ∧ isMarkdown name = true ∧ name ≠ "index.md" ∧
          item = .inr ⟨dir ++ [name], real⟩)) := by
  unfold wikiItem at h
  cases hvisible : Text.startsWith name "." with
  | true =>
    rw [if_pos hvisible] at h
    cases h
  | false =>
    rw [if_neg (Bool.eq_false_iff.1 hvisible)] at h
    cases hreal : disk.realpath (dir ++ [name]) with
    | none =>
      rw [hreal] at h
      cases h
    | some real =>
      rw [hreal] at h
      simp only at h
      split_ifs at h with hinside hdir hfile
      · exact ⟨real, ⟨hmem, hvisible, hreal, hinside⟩, .inl ⟨hdir, (Option.some.inj h).symm⟩⟩
      · exact ⟨real, ⟨hmem, hvisible, hreal, hinside⟩,
          .inr ⟨Bool.eq_false_iff.2 hdir, hfile.1, hfile.2, (Option.some.inj h).symm⟩⟩

theorem lists_iff {dir dir' : Place} :
    Lists (wikiListing disk (namesIn disk) root) dir dir' ↔ LeadsInto disk root dir dir' := by
  constructor
  · intro h
    obtain ⟨item, hitem, hleft⟩ := List.mem_filterMap.1 h
    obtain ⟨name, hname, hitem⟩ := List.mem_filterMap.1 hitem
    obtain ⟨real, hshows, ⟨hdir, rfl⟩ | ⟨-, -, -, rfl⟩⟩ := wikiItem_eq_some hname hitem
    · obtain rfl := Option.some.inj hleft
      exact ⟨name, hshows, hdir⟩
    · cases hleft
  · rintro ⟨name, hshows, hdir⟩
    refine List.mem_filterMap.2 ⟨.inl dir', List.mem_filterMap.2 ⟨name, hshows.mem, ?_⟩, rfl⟩
    simp only [wikiItem, hshows.visible, hshows.resolves, hshows.inside, hdir, if_true,
      Bool.false_eq_true, if_false]

theorem reaches_iff {dir : Place} :
    Reaches (wikiListing disk (namesIn disk) root) root dir ↔ InWiki disk root dir := by
  have hlists : Lists (wikiListing disk (namesIn disk) root) = LeadsInto disk root :=
    funext fun dir => funext fun dir' => propext lists_iff
  rw [Reaches, hlists, InWiki]

/-- A place that a path resolves to. -/
structure Resolved (disk : Disk) (place : Place) : Prop where
  isEnd : disk.IsEnd place
  fits : pathBytes place ≤ pathMax

theorem Resolved.of_realpath {path : List String} {place : Place}
    (h : disk.realpath path = some place) : Resolved disk place :=
  ⟨FileTree.Tree.isEnd_of_real (.inl (FileTree.Tree.entry_nil disk)) h,
    FileTree.Tree.pathBytes_of_real (Nat.zero_le _) h⟩

theorem resolved_of_inWiki (hroot : Resolved disk root) {dir : Place} (h : InWiki disk root dir) :
    Resolved disk dir := by
  cases h with
  | refl => exact hroot
  | tail _ hlead =>
    obtain ⟨name, hshows, -⟩ := hlead
    exact .of_realpath hshows.resolves

/-- A directory of the wiki is an entry of the disk. -/
theorem mem_entries_of_inWiki (hroot : Resolved disk root) {dir : Place}
    (h : InWiki disk root dir) : dir ∈ disk.entries.map Prod.fst := by
  obtain ⟨entry, hentry⟩ := (resolved_of_inWiki hroot h).isEnd.exists_entry
  have hsome : (disk.entry dir).isSome = true := by
    rw [hentry]
    rfl
  rw [FileTree.Tree.entry, List.lookup_isSome_iff] at hsome
  obtain ⟨e, he, heq⟩ := hsome
  exact List.mem_map.2 ⟨e, he, (by simpa using heq : dir = e.1).symm⟩

/-- The system does not refuse what a walk meets for its length. -/
theorem stat_ne_tooLong (hroot : Resolved disk root) {dir : Place} (h : InWiki disk root dir)
    {name : String} {real : Place} (hshows : Shows disk root dir name real) :
    disk.stat (dir ++ [name]) ≠ .error .tooLong := by
  obtain ⟨hend, hfits⟩ := resolved_of_inWiki hroot h
  obtain ⟨e, he⟩ := Option.isSome_iff_exists.1 (mem_namesIn.1 hshows.mem)
  obtain ⟨before, after, hentries, -⟩ := List.lookup_eq_some_iff.1 he
  have hnames : ∀ name' ∈ dir ++ [name], IsName name' :=
    disk.isName (dir ++ [name], e) (by simp [hentries])
  have hshort := FileTree.Tree.pathBytes_of_realpath hend hfits
    (hnames name (List.mem_append_right _ List.mem_cons_self)) hshows.resolves
  rcases FileTree.Tree.stat_of_realpath (FileTree.Tree.hasNul_of_isName hnames) hshort
    hshows.resolves with hstat | hstat <;> simp [hstat]

/-- **A walk ends, and visits every directory of the wiki once.** -/
theorem wikiFiles_spec {names : Place → List String}
    (hnames : ∀ dir, (names dir).Perm (namesIn disk dir)) (hroot : Resolved disk root) :
    ∃ dirs : List Place, dirs.Nodup ∧ (∀ dir, dir ∈ dirs ↔ InWiki disk root dir) ∧
      wikiFiles disk names root =
        some (dirs.flatMap fun dir => resultsOf (wikiListing disk names root dir)) := by
  have hlisting (dir : Place) : (wikiListing disk names root dir).Perm
      (wikiListing disk (namesIn disk) root dir) := (hnames dir).filterMap _
  have hreaches (dir : Place) : Reaches (wikiListing disk names root) root dir ↔
      InWiki disk root dir := (reaches_congr hlisting root dir).trans reaches_iff
  have hlength : (disk.entries.map Prod.fst).length ≤ disk.entries.length := (List.length_map _).le
  obtain ⟨dirs, hnodup, hmem, hfiles⟩ := traverse_spec
    (fun dir hdir => mem_entries_of_inWiki hroot ((hreaches dir).1 hdir)) hlength
  exact ⟨dirs, hnodup, fun dir => (hmem dir).trans (hreaches dir), hfiles⟩

/-- The leaves of the files, sorted. -/
theorem leavesOf_ok {frontmatter : String → Result Yaml.Mapping} {files : List Place}
    {leaves : List ListedLeaf} (h : leavesOf disk frontmatter root files = .ok leaves) :
    (leaves.Pairwise fun leaf leaf' => leaf.id ≤ leaf'.id) ∧
      ∃ found, files.mapM (wikiLeaf disk frontmatter root) = .ok found ∧
        leaves.Perm found.reduceOption := by
  obtain ⟨found, hfound, hdone⟩ := Result.bind_eq_ok.1 h
  obtain rfl := Except.ok.inj hdone
  refine ⟨?_, found, hfound, List.perm_insertionSort ..⟩
  have : IsTrans ListedLeaf fun leaf leaf' => leaf.id ≤ leaf'.id := ⟨fun _ _ _ => le_trans⟩
  have : Std.Total fun leaf leaf' : ListedLeaf => leaf.id ≤ leaf'.id := ⟨fun _ _ => le_total _ _⟩
  exact List.pairwise_insertionSort _ _

theorem realpath_of_wikiStart {skillRoot : List String}
    (h : wikiStart disk skillRoot = .ok (some root)) :
    disk.stat (wikiRoot skillRoot) = .ok root ∧ disk.realpath (wikiRoot skillRoot) = some root := by
  rw [wikiStart, findExisting] at h
  rcases hstat : disk.stat (wikiRoot skillRoot) with (- | -) | place <;> rw [hstat] at h
  · cases h
  · cases h
  · have hreal : disk.realpath (wikiRoot skillRoot) = some root := Except.ok.inj h
    exact ⟨congrArg _ (FileTree.Tree.eq_of_stat hstat hreal).symm, hreal⟩

/-- **The two walks of the wiki end and see the same files**, those of every directory that its
links lead to, each directory once.  The count is of the files that the system finds too, and asking
it does not raise. -/
theorem wiki_walks_agree {names : Place → List String}
    (hnames : ∀ dir, (names dir).Perm (namesIn disk dir))
    (frontmatter : String → Result Yaml.Mapping) {skillRoot : List String}
    (hstart : wikiStart disk skillRoot = .ok (some root)) :
    ∃ (dirs : List Place) (files : List WikiFile), dirs.Nodup ∧
      (∀ dir, dir ∈ dirs ↔ InWiki disk root dir) ∧
      files.Perm (dirs.flatMap (filesIn disk root)) ∧
      (∀ dir ∈ dirs, ∀ name real, Shows disk root dir name real →
        disk.stat (dir ++ [name]) ≠ .error .tooLong) ∧
      countWikiLeaves disk names skillRoot =
        some (.ok (files.countP fun f => isFileAt disk f.met)) ∧
      enumerateWikiLeaves disk frontmatter skillRoot =
        some (leavesOf disk frontmatter root (files.map WikiFile.real)) ∧
      ∀ leaves, leavesOf disk frontmatter root (files.map WikiFile.real) = .ok leaves →
        (leaves.Pairwise fun leaf leaf' => leaf.id ≤ leaf'.id) ∧ leaves.length ≤ files.length := by
  have hend : Resolved disk root := .of_realpath (realpath_of_wikiStart hstart).2
  have hsorted (dir : Place) : (sortedNames disk dir).Perm (namesIn disk dir) :=
    List.perm_insertionSort ..
  obtain ⟨dirs, hnodup, hmem, hfiles⟩ := wikiFiles_spec hsorted hend
  obtain ⟨dirs', hnodup', hmem', hfiles'⟩ := wikiFiles_spec hnames hend
  have hdirs : dirs'.Perm dirs := (List.perm_ext_iff_of_nodup hnodup' hnodup).2 fun dir => by
    rw [hmem, hmem']
  have hitems {names : Place → List String} (h : ∀ dir, (names dir).Perm (namesIn disk dir))
      (dir : Place) : (resultsOf (wikiListing disk names root dir)).Perm (filesIn disk root dir) :=
    ((h dir).filterMap _).filterMap _
  refine ⟨dirs, _, hnodup, hmem, List.Perm.flatMap_left dirs fun dir _ => hitems hsorted dir,
    fun dir hdir name real => stat_ne_tooLong hend ((hmem dir).1 hdir), ?_, ?_,
    fun leaves hleaves => ?_⟩
  · rw [countWikiLeaves, hstart]
    simp only [hfiles', Option.map_some, Option.some.injEq, Except.ok.injEq]
    exact (hdirs.flatMap fun dir _ =>
      (hitems hnames dir).trans (hitems hsorted dir).symm).countP_eq _
  · rw [enumerateWikiLeaves, hstart]
    simp only [hfiles, Option.map_some]
  · obtain ⟨hpairwise, found, hfound, hperm⟩ := leavesOf_ok hleaves
    refine ⟨hpairwise, ?_⟩
    calc leaves.length = found.reduceOption.length := hperm.length_eq
      _ ≤ found.length := List.reduceOption_length_le found
      _ = _ := (Result.mapM_eq_ok.1 hfound).length_eq.symm
      _ = _ := List.length_map _

/-- A wiki in which links lead to a leaf and back to the wiki. -/
def linkedWiki : Disk where
  entries := [([], .dir), (["skill"], .dir), (["skill", "reviewers.wiki"], .dir),
    (["skill", "reviewers.wiki", "sec"], .dir),
    (["skill", "reviewers.wiki", "sec", "jwt.md"], .file (some "Check the signature.")),
    (["skill", "reviewers.wiki", "sec", "up"], .link false [".."]),
    (["skill", "reviewers.wiki", "also.md"], .link false ["sec", "jwt.md"]),
    (["skill", "reviewers.wiki", "index.md"], .file (some "No leaf."))]
  isDir_root := rfl
  isDir_parent := by decide
  isName := by decide +kernel

/-- A frontmatter with an id. -/
def plainFrontmatter (_ : String) : Result Yaml.Mapping := .ok [(.str "id", .str "jwt")]

example : countWikiLeaves linkedWiki (namesIn linkedWiki) ["skill"] = some (.ok 2) := by
  decide +kernel

theorem wiki_walks_agree_linked :
    ∃ files : List WikiFile, countWikiLeaves linkedWiki (namesIn linkedWiki) ["skill"] =
        some (.ok (files.countP fun f => isFileAt linkedWiki f.met)) ∧
      enumerateWikiLeaves linkedWiki plainFrontmatter ["skill"] =
        some (leavesOf linkedWiki plainFrontmatter ["skill", "reviewers.wiki"]
          (files.map WikiFile.real)) := by
  obtain ⟨dirs, files, -, -, -, -, hcount, hleaves, -⟩ :=
    @wiki_walks_agree linkedWiki ["skill", "reviewers.wiki"] (namesIn linkedWiki)
      (fun dir => .refl _) plainFrontmatter ["skill"] (by decide +kernel)
  exact ⟨files, hcount, hleaves⟩

/-! ### The paths of the leaves -/

/-- No name on the disk has a backslash, which the listed path turns into a separator. -/
def PlainNames (disk : Disk) : Prop := ∀ e ∈ disk.entries, ∀ name ∈ e.1, '\\' ∉ name.toList

theorem mem_toList_join {c : Char} (hc : c ≠ '/') {names : List String}
    (h : c ∈ (Text.join "/" names).toList) : ∃ name ∈ names, c ∈ name.toList := by
  induction names with
  | nil => cases h
  | cons name names ih =>
    cases names with
    | nil => exact ⟨name, List.mem_cons_self, h⟩
    | cons name' names =>
      rw [join_cons_cons, String.toList_append, String.toList_append] at h
      rcases List.mem_append.1 h with h | h
      · rcases List.mem_append.1 h with h | h
        · exact ⟨name, List.mem_cons_self, h⟩
        · exact absurd (List.mem_singleton.1 h) hc
      · obtain ⟨name'', hmem, hin⟩ := ih h
        exact ⟨name'', List.mem_cons_of_mem _ hmem, hin⟩

theorem replaceChar_of_notMem {c : Char} {new s : String} (h : c ∉ s.toList) :
    Text.replaceChar c new s = s := by
  have hkeep : (s.toList.flatMap fun d => if d = c then new.toList else [d]) =
      s.toList.flatMap fun d => [d] :=
    List.flatMap_congr fun d hd => if_neg (ne_of_mem_of_not_mem hd h)
  rw [Text.replaceChar, hkeep, List.flatMap_singleton', String.ofList_toList]

/-- **The path of a leaf leads back to its file.** -/
theorem wikiPath_join (hplain : PlainNames disk) {below : List String}
    {e : FileTree.Entry (Option String)} (hentry : disk.entry (root ++ below) = some e)
    (hbelow : below ≠ []) : Path.parts (wikiPath root (root ++ below)) = below ∧
      Path.isAbsolute (wikiPath root (root ++ below)) = false := by
  obtain ⟨before, after, hentries, -⟩ := List.lookup_eq_some_iff.1 hentry
  have hmem : (root ++ below, e) ∈ disk.entries := by simp [hentries]
  have hparts : IsParts below := fun name hname => by
    have hname' := disk.isName _ hmem name (List.mem_append_right _ hname)
    obtain ⟨hempty, hdot, -⟩ : name ≠ "" ∧ name ≠ "." ∧ name ≠ ".." := by simpa using hname'.plain
    exact ⟨hempty, hdot, hname'.oneName⟩
  have hpath : wikiPath root (root ++ below) = relativeText below := by
    rw [wikiPath, List.drop_left, relativeText, if_neg hbelow]
    refine replaceChar_of_notMem fun hin => ?_
    obtain ⟨name, hname, hin⟩ := mem_toList_join (by decide) hin
    exact hplain _ hmem name (List.mem_append_right _ hname) hin
  rw [hpath]
  exact ⟨parts_relativeText hparts, isAbsolute_relativeText hparts⟩

/-- The root of a wiki with files is a directory. -/
theorem isDir_root_of_inWiki {dir : Place} (h : InWiki disk root dir)
    (hdir : disk.entry dir = some .dir) : disk.entry root = some .dir := by
  rcases Relation.ReflTransGen.cases_head h with rfl | ⟨dir', ⟨name, hshows, -⟩, -⟩
  · exact hdir
  · obtain ⟨e, he⟩ := Option.isSome_iff_exists.1 (mem_namesIn.1 hshows.mem)
    simpa using FileTree.Tree.isDir_dropLast he

/-- A file that the walk meets resolves to a place below the root, which is a directory. -/
theorem mem_filesIn {dir : Place} {file : WikiFile} (hdir : InWiki disk root dir)
    (h : file ∈ filesIn disk root dir) :
    disk.entry root = some .dir ∧ root <+: file.real ∧ Resolved disk file.real := by
  obtain ⟨item, hitem, hright⟩ := List.mem_filterMap.1 h
  obtain ⟨name, hname, hitem⟩ := List.mem_filterMap.1 hitem
  obtain ⟨real, hshows, ⟨-, rfl⟩ | ⟨-, -, -, rfl⟩⟩ := wikiItem_eq_some hname hitem
  · cases hright
  obtain rfl := Option.some.inj hright
  obtain ⟨e, he⟩ := Option.isSome_iff_exists.1 (mem_namesIn.1 hshows.mem)
  have hparent : disk.entry dir = some .dir := by simpa using FileTree.Tree.isDir_dropLast he
  exact ⟨isDir_root_of_inWiki hdir hparent, hshows.inside, .of_realpath hshows.resolves⟩

/-- What a leaf was read from. -/
theorem wikiLeaf_eq_some {frontmatter : String → Result Yaml.Mapping} {place : Place}
    {leaf : ListedLeaf} (h : wikiLeaf disk frontmatter root place = .ok (some leaf)) :
    ∃ text data, disk.entry place = some (.file (some text)) ∧ frontmatter text = .ok data ∧
      Yaml.get data "id" = .str leaf.id ∧ leaf.id ≠ "" ∧ leaf.path = wikiPath root place := by
  obtain ⟨loaded, hloaded, h⟩ := Result.bind_eq_ok.1 h
  cases loaded with
  | none => cases h
  | some data =>
    unfold loadFrontmatter at hloaded
    split at hloaded
    · rename_i text htext
      split at hloaded
      · rename_i data' hdata
        obtain rfl := Option.some.inj (Except.ok.inj hloaded)
        simp only at h
        split at h
        · rename_i id hid
          split_ifs at h with hempty
          · cases h
          obtain rfl := Option.some.inj (Except.ok.inj h)
          exact ⟨text, data', readText_eq_ok.1 htext, hdata, hid, hempty, rfl⟩
        · cases h
      · cases hloaded
      · cases hloaded
    · cases hloaded

/-- A leaf that is listed was made of a file that the walk met. -/
theorem exists_met_of_listed {frontmatter : String → Result Yaml.Mapping} {skillRoot : List String}
    {leaves : List ListedLeaf}
    (h : enumerateWikiLeaves disk frontmatter skillRoot = some (.ok leaves)) {leaf : ListedLeaf}
    (hleaf : leaf ∈ leaves) : ∃ root dir file, wikiStart disk skillRoot = .ok (some root) ∧
      InWiki disk root dir ∧ file ∈ filesIn disk root dir ∧
      wikiLeaf disk frontmatter root file.real = .ok (some leaf) := by
  unfold enumerateWikiLeaves at h
  rcases hstart : wikiStart disk skillRoot with exc | - | root <;> rw [hstart] at h
  · cases Option.some.inj h
  · obtain rfl := Except.ok.inj (Option.some.inj h)
    cases hleaf
  · have hsorted (dir : Place) : (sortedNames disk dir).Perm (namesIn disk dir) :=
      List.perm_insertionSort ..
    obtain ⟨dirs, -, hmem, hfiles⟩ :=
      wikiFiles_spec hsorted (.of_realpath (realpath_of_wikiStart hstart).2)
    simp only [hfiles, Option.map_some, Option.some.injEq] at h
    obtain ⟨-, found, hfound, hperm⟩ := leavesOf_ok h
    have hsome : some leaf ∈ found := List.reduceOption_mem_iff.1 (hperm.mem_iff.1 hleaf)
    obtain ⟨place, hplace, hread⟩ := Result.exists_of_mapM_right hfound hsome
    obtain ⟨file, hfile, rfl⟩ := List.mem_map.1 hplace
    obtain ⟨dir, hdir, hfile⟩ := List.mem_flatMap.1 hfile
    have hitems : (resultsOf (wikiListing disk (sortedNames disk) root dir)).Perm
        (filesIn disk root dir) := ((hsorted dir).filterMap _).filterMap _
    exact ⟨root, dir, file, rfl, (hmem dir).1 hdir, hitems.mem_iff.1 hfile, hread⟩

/-- **Every leaf that is listed can be read by a specialist, and is credited by the coverage
check**, unless its path from the wiki's own is too long.  What the specialist reads has the id of
the leaf, and the coverage check reads the frontmatter of the same file. -/
theorem listed_credited (hplain : PlainNames disk) {frontmatter : String → Result Yaml.Mapping}
    {skillRoot : List String} {leaves : List ListedLeaf}
    (h : enumerateWikiLeaves disk frontmatter skillRoot = some (.ok leaves)) :
    ∀ leaf ∈ leaves, pathBytes (Path.join (wikiRoot skillRoot) leaf.path) ≤ pathMax →
      ∃ place text data,
        leafRead disk (wikiRoot skillRoot) (.str leaf.path) =
          .ok (some (place, Text.universalNewlines text)) ∧
        creditedFile disk skillRoot leaf.path = .ok (some place) ∧
        (∀ globs, wikiOf disk globs skillRoot leaf.path = loadFrontmatter disk globs place) ∧
        disk.entry place = some (.file (some text)) ∧ frontmatter text = .ok data ∧
        Yaml.get data "id" = .str leaf.id ∧ leaf.id ≠ "" := by
  intro leaf hleaf hshort
  obtain ⟨root, dir, file, hstart, hdir, hfile, hread⟩ := exists_met_of_listed h hleaf
  obtain ⟨hexists, hwiki⟩ := realpath_of_wikiStart hstart
  obtain ⟨hroot, ⟨below, hreal⟩, hresolved⟩ := mem_filesIn hdir hfile
  obtain ⟨text, data, hentry, hdata, hid, hne, hpath⟩ := wikiLeaf_eq_some hread
  rw [← hreal] at hentry hresolved hpath
  -- the wiki itself is no file
  have hbelow : below ≠ [] := by
    rintro rfl
    rw [List.append_nil, hroot] at hentry
    cases hentry
  obtain ⟨hparts, hrelative⟩ := wikiPath_join hplain hentry hbelow
  rw [← hpath] at hparts hrelative
  have hnamed : NamesLeaf disk skillRoot leaf.path (root ++ Path.parts leaf.path) text :=
    namesLeaf_of_below hexists hwiki hrelative (hparts.symm ▸ hbelow) hshort
      (hparts.symm ▸ hresolved.fits) (hparts.symm ▸ hentry)
  have hpath_ne : leaf.path ≠ "" := by
    intro hempty
    rw [hempty, Path.parts_empty] at hparts
    exact hbelow hparts.symm
  obtain ⟨hreads, hcredited⟩ := hnamed.embedded hpath_ne
  exact ⟨_, text, data, hreads, hcredited, fun globs => wikiOf_of_credited globs hcredited,
    hnamed.file, hdata, hid, hne⟩

theorem listed_credited_linked :
    ∃ leaves, enumerateWikiLeaves linkedWiki plainFrontmatter ["skill"] = some (.ok leaves) ∧
      leaves.map ListedLeaf.path = ["sec/jwt.md", "sec/jwt.md"] ∧ ∀ leaf ∈ leaves, ∃ place,
        creditedFile linkedWiki ["skill"] leaf.path = .ok (some place) := by
  have hpaths : (enumerateWikiLeaves linkedWiki plainFrontmatter ["skill"]).bind
      (fun res => res.toOption.map (List.map ListedLeaf.path)) =
        some ["sec/jwt.md", "sec/jwt.md"] := by
    decide +kernel
  obtain ⟨res, hres, hpaths⟩ := Option.bind_eq_some_iff.1 hpaths
  cases res with
  | error exc => cases hpaths
  | ok leaves =>
    have hpaths := Option.some.inj hpaths
    have hplain : PlainNames linkedWiki := by
      unfold PlainNames
      decide
    refine ⟨leaves, hres, hpaths, fun leaf hleaf => ?_⟩
    have hpath : leaf.path = "sec/jwt.md" := by
      simpa [hpaths] using List.mem_map_of_mem (f := ListedLeaf.path) hleaf
    have hshort : pathBytes (Path.join (wikiRoot ["skill"]) leaf.path) ≤ pathMax := by
      rw [hpath]
      decide +kernel
    obtain ⟨place, -, -, -, hcredited, -⟩ := listed_credited hplain hres leaf hleaf hshort
    exact ⟨place, hcredited⟩

end CodeReview
