import CodeReview.Handlers.Escalation
import CodeReview.Handlers.GlobGrammar
import CodeReview.Source.Frontmatter

/-!
# Replacing the broad globs

`fix_broad_globs` rewrites the leaves whose file globs match every path: the broad globs give way to
one that matches the code files only.  The activation gate reads the globs it leaves behind.

* `minimatch_codeGlob` : the replacement matches the paths that end in a code extension;
* `fires_fixed`, `fires_of_fixed` : what the rewriting does to a leaf;
* `fixBroadGlobs_activation` : **the pass activates no leaf more, and on a change that touches code
  it changes nothing**: the same leaves, for the same reasons.
-/

namespace CodeReview

open Py

/-- `BROAD`. -/
def broadGlobs : List String := ["**/*", "*", "**", "**/**"]

/-- `CODE_GLOB`. -/
def codeGlob : String :=
  "**/*.\x7bpy,pyi,ts,tsx,js,jsx,mjs,cjs,go,rs,java,kt,rb,swift,cs,php,cpp,cc,c,h,hpp," ++
    "scala,ex,exs,erl,clj,dart,lua,r,m,sh,sql\x7d"

/-- `g.strip() in BROAD`; only strings have a `strip`. -/
def isBroad : Value → Result Bool
  | .str glob => .ok (Text.strip glob ∈ broadGlobs)
  | _ => .error .attributeError

/-- The globs that are not broad, and the glob for code. -/
def narrowed (globs : List Value) : Result (List Value) := do
  let kept ← Result.filter? (fun glob => do return !(← isBroad glob)) globs
  return if kept.any (Value.eqv (.str codeGlob)) then kept else kept ++ [.str codeGlob]

/-- The body of the loop of `fix_broad_globs.main`: the metadata it writes, unless no glob is
broad. -/
def fixBroadGlobs (leaf : Dict) : Result (Option Dict) := do
  let activation ← activationOf leaf
  let globs ← ((activation.get "file_globs").or (.list [])).iter
  if ← Result.any? isBroad globs then
    let kept ← narrowed globs
    -- `fixed.append(meta["id"])`
    if leaf.has "id" then
      return some (ordered (Assoc.set leaf "activation"
        (.dict (Assoc.set activation "file_globs" (.list kept)))))
    else throw .keyError
  else return none

/-- The leaves after the pass. -/
def fixAll (leaves : List Dict) : Result (List Dict) :=
  leaves.mapM fun leaf => do return (← fixBroadGlobs leaf).getD leaf

/-! ### The glob for code -/

/-- The extensions in the glob. -/
def codeExtensions : List (List Char) :=
  ["py", "pyi", "ts", "tsx", "js", "jsx", "mjs", "cjs", "go", "rs", "java", "kt", "rb", "swift",
    "cs", "php", "cpp", "cc", "c", "h", "hpp", "scala", "ex", "exs", "erl", "clj", "dart", "lua",
    "r", "m", "sh", "sql"].map String.toList

/-- The path ends in a dot and a code extension. -/
def IsCode (path : String) : Prop := ∃ ext ∈ codeExtensions, '.' :: ext <:+ path.toList

theorem compileGlob_codeGlob :
    compileGlob codeGlob = [.anyDirs, .anySegment, .lit '.', .choice codeExtensions] := by
  decide +kernel

/-- On a path without newlines a glob matches when its pieces cut the path. -/
theorem minimatch_iff_cut {path glob : String} (h : '\n' ∉ path.toList) :
    minimatch path glob = true ↔ Cut (compileGlob glob) path.toList := by
  rw [minimatch, matchPieces_iff]
  constructor
  · rintro ⟨m, a, hpath, hcut, rfl | rfl⟩
    · rwa [hpath, List.append_nil]
    · exact absurd (hpath ▸ by simp) h
  · intro hcut
    exact ⟨path.toList, [], by simp, hcut, .inl rfl⟩

/-- A text is one that ends in `/`, or is empty, and one without `/`. -/
theorem exists_lastSegment (cs : List Char) :
    ∃ dirs name, cs = dirs ++ name ∧ '/' ∉ name ∧ (dirs = [] ∨ ∃ d, dirs = d ++ ['/']) := by
  induction cs with
  | nil => exact ⟨[], [], rfl, List.not_mem_nil, .inl rfl⟩
  | cons c cs ih =>
    obtain ⟨dirs, name, rfl, hname, rfl | ⟨d, rfl⟩⟩ := ih
    · by_cases hc : c = '/'
      · exact ⟨['/'], name, by simp [hc], hname, .inr ⟨[], rfl⟩⟩
      · exact ⟨[], c :: name, rfl, by simp [Ne.symm hc, hname], .inl rfl⟩
    · exact ⟨c :: d ++ ['/'], name, by simp, hname, .inr ⟨c :: d, rfl⟩⟩

/-- **The glob for code matches the paths that end in a code extension.** -/
theorem minimatch_codeGlob {path : String} (h : '\n' ∉ path.toList) :
    minimatch path codeGlob = true ↔ IsCode path := by
  rw [minimatch_iff_cut h, compileGlob_codeGlob]
  constructor
  · intro hcut
    obtain ⟨dirs, path₁, hpath, -, hcut₁⟩ := cut_cons.1 hcut
    obtain ⟨name, path₂, rfl, -, hcut₂⟩ := cut_cons.1 hcut₁
    obtain ⟨dot, path₃, rfl, rfl, hcut₃⟩ := cut_cons.1 hcut₂
    obtain ⟨ext, path₄, rfl, hext, hcut₄⟩ := cut_cons.1 hcut₃
    obtain rfl := cut_nil.1 hcut₄
    exact ⟨ext, hext, dirs ++ name, by simp [hpath]⟩
  · rintro ⟨ext, hext, stem, hpath⟩
    obtain ⟨dirs, name, rfl, hname, hdirs⟩ := exists_lastSegment stem
    rw [← hpath] at h ⊢
    simp only [List.mem_append, not_or] at h
    have hdirs' : GlobPiece.anyDirs.Matched dirs := by
      refine hdirs.imp_right ?_
      rintro ⟨d, rfl⟩
      exact ⟨d, fun hd => h.1.1 (by simp [hd]), rfl⟩
    refine cut_cons.2 ⟨dirs, name ++ '.' :: ext, by simp, hdirs', ?_⟩
    refine cut_cons.2 ⟨name, '.' :: ext, rfl, hname, ?_⟩
    refine cut_cons.2 ⟨['.'], ext, rfl, rfl, ?_⟩
    exact cut_cons.2 ⟨ext, [], by simp, hext, cut_nil.2 rfl⟩

/-- The broad globs that match every path; `*` matches the paths without a directory only. -/
def universalGlobs : List String := ["**/*", "**", "**/**"]

theorem minimatch_universal {path glob : String} (h : '\n' ∉ path.toList)
    (hglob : glob ∈ universalGlobs) : minimatch path glob = true := by
  rw [minimatch_iff_cut h]
  simp only [universalGlobs, List.mem_cons, List.not_mem_nil, or_false] at hglob
  rcases hglob with rfl | rfl | rfl
  · obtain ⟨dirs, name, hpath, hname, hdirs⟩ := exists_lastSegment path.toList
    rw [hpath] at h ⊢
    refine cut_cons.2 ⟨dirs, name, rfl, hdirs.imp_right ?_, ?_⟩
    · rintro ⟨d, rfl⟩
      exact ⟨d, fun hd => h (by simp [hd]), rfl⟩
    · exact cut_cons.2 ⟨name, [], by simp, hname, cut_nil.2 rfl⟩
  · exact cut_cons.2 ⟨path.toList, [], by simp, h, cut_nil.2 rfl⟩
  · refine cut_cons.2 ⟨[], path.toList, rfl, .inl rfl, ?_⟩
    exact cut_cons.2 ⟨path.toList, [], by simp, h, cut_nil.2 rfl⟩

/-! ### One leaf -/

/-- The file globs that the gate reads. -/
def fileGlobs (leaf : Dict) : List String := strs (ensureList ((blockOf leaf).get "file_globs"))

/-- The file globs of the leaf are a list of strings, or are not set. -/
def GlobsListed (leaf : Dict) : Prop :=
  ((blockOf leaf).get "file_globs").or (.list []) = ofStrs (fileGlobs leaf)

/-- One of the file globs is broad. -/
def HasBroadGlob (leaf : Dict) : Prop := ∃ glob ∈ fileGlobs leaf, Text.strip glob ∈ broadGlobs

instance (leaf : Dict) : Decidable (HasBroadGlob leaf) :=
  inferInstanceAs (Decidable (∃ glob ∈ fileGlobs leaf, Text.strip glob ∈ broadGlobs))

/-- The globs that are not broad, and the glob for code. -/
def narrowedGlobs (globs : List String) : List String :=
  let kept := globs.filter fun glob => Text.strip glob ∉ broadGlobs
  if codeGlob ∈ kept then kept else kept ++ [codeGlob]

/-- The activation block after the pass. -/
def narrowedBlock (leaf : Dict) : Dict :=
  Assoc.set (blockOf leaf) "file_globs" (ofStrs (narrowedGlobs (fileGlobs leaf)))

/-- The leaf after the pass. -/
def fixed (leaf : Dict) : Dict :=
  if HasBroadGlob leaf then ordered (Assoc.set leaf "activation" (.dict (narrowedBlock leaf)))
  else leaf

theorem mem_narrowedGlobs {globs : List String} {glob : String} :
    glob ∈ narrowedGlobs globs ↔
      glob = codeGlob ∨ glob ∈ globs ∧ Text.strip glob ∉ broadGlobs := by
  rw [narrowedGlobs]
  by_cases hkept : codeGlob ∈ globs.filter fun glob => Text.strip glob ∉ broadGlobs
  · rw [if_pos hkept]
    constructor
    · intro h
      exact .inr (by simpa using h)
    · rintro (rfl | h)
      · exact hkept
      · simpa using h
  · rw [if_neg hkept]
    simp [or_comm]

theorem any_eqv_str (globs : List String) (glob : String) :
    (globs.map Value.str).any (Value.eqv (.str glob)) = decide (glob ∈ globs) := by
  induction globs with
  | nil => rfl
  | cons g globs ih =>
    have heqv : Value.eqv (.str glob) (.str g) = decide (glob = g) := by rw [Value.eqv]
    rw [List.map_cons, List.any_cons, ih, heqv]
    simp only [List.mem_cons, Bool.decide_or]

theorem narrowed_map_str (globs : List String) :
    narrowed (globs.map .str) = .ok ((narrowedGlobs globs).map .str) := by
  have htest : ∀ v ∈ globs.map Value.str, (do return !(← isBroad v) : Result Bool) =
      .ok (v.asStr?.all fun glob => Text.strip glob ∉ broadGlobs) := by
    intro v hv
    obtain ⟨glob, -, rfl⟩ := List.mem_map.1 hv
    simp [isBroad, Value.asStr?]
  have hkept : (globs.map Value.str).filter
        (fun v => v.asStr?.all fun glob => Text.strip glob ∉ broadGlobs) =
      (globs.filter fun glob => Text.strip glob ∉ broadGlobs).map .str := by
    rw [List.filter_map]
    rfl
  rw [narrowed, Result.filter?_ok htest, Result.ok_bind, hkept, any_eqv_str, narrowedGlobs]
  simp only [decide_eq_true_eq]
  split_ifs
  · rfl
  · simp

/-- **What the loop does with a leaf.** -/
theorem fixBroadGlobs_eq {leaf : Dict} (hblock : activationOf leaf = .ok (blockOf leaf))
    (hlisted : GlobsListed leaf) (hid : leaf.has "id" = true) :
    fixBroadGlobs leaf = .ok (if HasBroadGlob leaf then some (fixed leaf) else none) := by
  have htest : ∀ v ∈ (fileGlobs leaf).map Value.str, isBroad v =
      .ok (v.asStr?.any fun glob => Text.strip glob ∈ broadGlobs) := by
    intro v hv
    obtain ⟨glob, -, rfl⟩ := List.mem_map.1 hv
    rfl
  have hany : Result.any? isBroad ((fileGlobs leaf).map .str) =
      .ok (decide (HasBroadGlob leaf)) := by
    rw [Result.any?_ok htest, List.any_map]
    refine congrArg Except.ok ?_
    rw [Bool.eq_iff_iff, List.any_eq_true, decide_eq_true_eq]
    simp [HasBroadGlob, Value.asStr?]
  rw [fixBroadGlobs, hblock, Result.ok_bind, hlisted, ofStrs, Value.iter, Result.ok_bind, hany,
    Result.ok_bind]
  by_cases hbroad : HasBroadGlob leaf
  · simp [hbroad, narrowed_map_str, hid, fixed, narrowedBlock, ofStrs]
  · simp [hbroad]

/-! ### The leaf after the pass -/

theorem get_fixed {leaf : Dict} {k : String} (hk : k ≠ "activation") (hgen : k ∉ generated) :
    (fixed leaf).get k = leaf.get k := by
  rw [fixed]
  split_ifs
  · rw [get_ordered hgen, Dict.get, Assoc.get?_set, if_neg hk.symm, Dict.get]
  · rfl

@[simp] theorem sortId_fixed (leaf : Dict) : sortId (fixed leaf) = sortId leaf := by
  rw [sortId, get_fixed (by decide) (by decide), sortId]

theorem activationOf_fixed {leaf : Dict} (hblock : activationOf leaf = .ok (blockOf leaf)) :
    activationOf (fixed leaf) =
      .ok (if HasBroadGlob leaf then narrowedBlock leaf else blockOf leaf) := by
  rw [fixed]
  split_ifs
  · have hget : (ordered (Assoc.set leaf "activation" (.dict (narrowedBlock leaf)))).get
        "activation" = .dict (narrowedBlock leaf) := by
      rw [get_ordered (by decide), Dict.get, Assoc.get?_set, if_pos rfl, Option.getD_some]
    have htruthy : (Value.dict (narrowedBlock leaf)).truthy = true := by
      rw [Value.truthy_dict, narrowedBlock]
      cases blockOf leaf with
      | nil => rfl
      | cons kv block =>
        rw [Assoc.set]
        split_ifs <;> rfl
    rw [activationOf, hget, Value.or_of_truthy _ htruthy]
  · exact hblock

theorem blockOf_fixed {leaf : Dict} (hblock : activationOf leaf = .ok (blockOf leaf)) :
    blockOf (fixed leaf) = if HasBroadGlob leaf then narrowedBlock leaf else blockOf leaf := by
  rw [blockOf, activationOf_fixed hblock]

/-- The other fields of the block stay. -/
theorem get_blockOf_fixed {leaf : Dict} (hblock : activationOf leaf = .ok (blockOf leaf))
    {k : String} (hk : k ≠ "file_globs") :
    (blockOf (fixed leaf)).get k = (blockOf leaf).get k := by
  rw [blockOf_fixed hblock]
  split_ifs
  · rw [narrowedBlock, Dict.get, Assoc.get?_set, if_neg hk.symm, Dict.get]
  · rfl

theorem get_keywordMatches_fixed {leaf : Dict} (hblock : activationOf leaf = .ok (blockOf leaf)) :
    (blockOf (fixed leaf)).get "keyword_matches" = (blockOf leaf).get "keyword_matches" :=
  get_blockOf_fixed hblock (by decide)

theorem get_structuralSignals_fixed {leaf : Dict}
    (hblock : activationOf leaf = .ok (blockOf leaf)) :
    (blockOf (fixed leaf)).get "structural_signals" = (blockOf leaf).get "structural_signals" :=
  get_blockOf_fixed hblock (by decide)

theorem get_fileGlobs_narrowedBlock (leaf : Dict) :
    (narrowedBlock leaf).get "file_globs" = ofStrs (narrowedGlobs (fileGlobs leaf)) := by
  rw [narrowedBlock, Dict.get, Assoc.get?_set, if_pos rfl, Option.getD_some]

theorem fileGlobs_fixed {leaf : Dict} (hblock : activationOf leaf = .ok (blockOf leaf)) :
    fileGlobs (fixed leaf) =
      if HasBroadGlob leaf then narrowedGlobs (fileGlobs leaf) else fileGlobs leaf := by
  rw [fileGlobs, blockOf_fixed hblock]
  split_ifs
  · rw [get_fileGlobs_narrowedBlock, ofStrs, ensureList_list, strs_map_str]
  · rfl

theorem globsListed_fixed {leaf : Dict} (hblock : activationOf leaf = .ok (blockOf leaf))
    (hlisted : GlobsListed leaf) : GlobsListed (fixed leaf) := by
  rw [GlobsListed, fileGlobs_fixed hblock, blockOf_fixed hblock]
  split_ifs
  · rw [get_fileGlobs_narrowedBlock]
    exact Value.list_or_nil _
  · exact hlisted

/-- No broad glob is left. -/
theorem not_hasBroadGlob_fixed {leaf : Dict} (hblock : activationOf leaf = .ok (blockOf leaf)) :
    ¬ HasBroadGlob (fixed leaf) := by
  rintro ⟨glob, hmem, hbroad⟩
  rw [fileGlobs_fixed hblock] at hmem
  split_ifs at hmem with h
  · rcases mem_narrowedGlobs.1 hmem with rfl | ⟨-, hnot⟩
    · revert hbroad
      decide +kernel
    · exact hnot hbroad
  · exact h ⟨glob, hmem, hbroad⟩

/-! ### What fires after the pass -/

section

variable {rt : Runtime} {ct : CharTable} {change : Change} {leaf : Dict}

/-- A path of the change ends in a code extension. -/
def TouchesCode (change : Change) : Prop := ∃ path ∈ strs change.changedPaths, IsCode path

/-- No path of the change has a line break. -/
def OneLinePaths (change : Change) : Prop :=
  ∀ path ∈ strs change.changedPaths, '\n' ∉ path.toList

theorem fileGlobsMatch_iff {paths : List Value} :
    fileGlobsMatch ((blockOf leaf).get "file_globs") paths = true ↔
      ∃ glob ∈ fileGlobs leaf, glob ≠ "" ∧ ∃ path ∈ strs paths, minimatch path glob = true := by
  simp only [fileGlobsMatch, fileGlobs, List.any_eq_true, Bool.and_eq_true, decide_eq_true_eq]

theorem fileGlobsMatch_fixed (hblock : activationOf leaf = .ok (blockOf leaf))
    (hpaths : OneLinePaths change) (hcode : TouchesCode change)
    (h : fileGlobsMatch ((blockOf leaf).get "file_globs") change.changedPaths = true) :
    fileGlobsMatch ((blockOf (fixed leaf)).get "file_globs") change.changedPaths = true := by
  obtain ⟨glob, hglob, hne, hmatch⟩ := fileGlobsMatch_iff.1 h
  rw [fileGlobsMatch_iff, fileGlobs_fixed hblock]
  split_ifs
  · by_cases hbroad : Text.strip glob ∈ broadGlobs
    -- the glob for code stands in for the broad one
    · obtain ⟨path, hpath, hext⟩ := hcode
      exact ⟨codeGlob, mem_narrowedGlobs.2 (.inl rfl), by decide +kernel, path, hpath,
        (minimatch_codeGlob (hpaths path hpath)).2 hext⟩
    · exact ⟨glob, mem_narrowedGlobs.2 (.inr ⟨hglob, hbroad⟩), hne, hmatch⟩
  · exact ⟨glob, hglob, hne, hmatch⟩

theorem fileGlobsMatch_of_fixed (hblock : activationOf leaf = .ok (blockOf leaf))
    (hpaths : OneLinePaths change)
    (huniversal : HasBroadGlob leaf → ∃ glob ∈ fileGlobs leaf, glob ∈ universalGlobs)
    (h : fileGlobsMatch ((blockOf (fixed leaf)).get "file_globs") change.changedPaths = true) :
    fileGlobsMatch ((blockOf leaf).get "file_globs") change.changedPaths = true := by
  obtain ⟨glob, hglob, hne, path, hpath, hmatch⟩ := fileGlobsMatch_iff.1 h
  rw [fileGlobs_fixed hblock] at hglob
  rw [fileGlobsMatch_iff]
  split_ifs at hglob with hbroad
  · rcases mem_narrowedGlobs.1 hglob with rfl | ⟨hglob, -⟩
    -- what the glob for code matches, a universal one has matched before
    · obtain ⟨glob, hglob, huniv⟩ := huniversal hbroad
      refine ⟨glob, hglob, ?_, path, hpath, minimatch_universal (hpaths path hpath) huniv⟩
      rintro rfl
      revert huniv
      decide
    · exact ⟨glob, hglob, hne, path, hpath, hmatch⟩
  · exact ⟨glob, hglob, hne, path, hpath, hmatch⟩

/-- A change that touches code fires a leaf after the pass if it did before. -/
theorem fires_fixed (hblock : activationOf leaf = .ok (blockOf leaf)) (hpaths : OneLinePaths change)
    (hcode : TouchesCode change) (h : Fires rt ct change leaf) :
    Fires rt ct change (fixed leaf) := by
  rw [Fires, get_keywordMatches_fixed hblock, get_structuralSignals_fixed hblock]
  exact h.imp_left (fileGlobsMatch_fixed hblock hpaths hcode)

/-- A leaf that fires after the pass fired before. -/
theorem fires_of_fixed (hblock : activationOf leaf = .ok (blockOf leaf))
    (hpaths : OneLinePaths change)
    (huniversal : HasBroadGlob leaf → ∃ glob ∈ fileGlobs leaf, glob ∈ universalGlobs)
    (h : Fires rt ct change (fixed leaf)) : Fires rt ct change leaf := by
  rw [Fires, get_keywordMatches_fixed hblock, get_structuralSignals_fixed hblock] at h
  exact h.imp_left (fileGlobsMatch_of_fixed hblock hpaths huniversal)

/-- On a change that touches code, for the same reasons. -/
theorem signalsOf_fixed (hblock : activationOf leaf = .ok (blockOf leaf))
    (hpaths : OneLinePaths change)
    (huniversal : HasBroadGlob leaf → ∃ glob ∈ fileGlobs leaf, glob ∈ universalGlobs)
    (hcode : TouchesCode change) :
    signalsOf rt ct change (fixed leaf) = signalsOf rt ct change leaf := by
  have hglobs : fileGlobsMatch ((blockOf (fixed leaf)).get "file_globs") change.changedPaths =
      fileGlobsMatch ((blockOf leaf).get "file_globs") change.changedPaths :=
    Bool.eq_iff_iff.2 ⟨fileGlobsMatch_of_fixed hblock hpaths huniversal,
      fileGlobsMatch_fixed hblock hpaths hcode⟩
  have hfired : firedSignals rt ct change (blockOf (fixed leaf)) =
      firedSignals rt ct change (blockOf leaf) := by
    rw [firedSignals, hglobs, get_keywordMatches_fixed hblock, get_structuralSignals_fixed hblock,
      firedSignals]
  rw [signalsOf, hfired, signalsOf]

end

/-! ### The leaves after the pass -/

/-- Every leaf with a broad glob has one that matches every path. -/
def BroadUniversal (leaves : List Dict) : Prop :=
  ∀ leaf ∈ leaves, HasBroadGlob leaf → ∃ glob ∈ fileGlobs leaf, glob ∈ universalGlobs

section

variable {leaves : List Dict}

theorem wellTyped_fixed (hleaves : WellTyped leaves) : WellTyped (leaves.map fixed) where
  id leaf hleaf := by
    obtain ⟨before, hbefore, rfl⟩ := List.mem_map.1 hleaf
    obtain ⟨id, hid, hne⟩ := hleaves.id before hbefore
    exact ⟨id, (get_fixed (by decide) (by decide)).trans hid, hne⟩
  distinct := by
    have hids : (leaves.map fixed).map sortId = leaves.map sortId := by
      rw [List.map_map]
      exact List.map_congr_left fun leaf _ => sortId_fixed leaf
    rw [hids]
    exact hleaves.distinct
  block leaf hleaf := by
    obtain ⟨before, hbefore, rfl⟩ := List.mem_map.1 hleaf
    exact ⟨_, activationOf_fixed (hleaves.activationOf_eq hbefore)⟩

/-- **The pass rewrites every leaf, and raises nothing.** -/
theorem fixAll_eq (hleaves : WellTyped leaves) (hlisted : ∀ leaf ∈ leaves, GlobsListed leaf) :
    fixAll leaves = .ok (leaves.map fixed) := by
  rw [fixAll, Result.mapM_eq_ok, List.forall₂_map_right_iff, List.forall₂_same]
  intro leaf hleaf
  have hid : leaf.has "id" = true := by
    obtain ⟨id, hid, -⟩ := hleaves.id leaf hleaf
    cases hget : Assoc.get? leaf "id" with
    | none => simp [Dict.get, hget] at hid
    | some v => rw [Dict.has, hget, Option.isSome_some]
  rw [fixBroadGlobs_eq (hleaves.activationOf_eq hleaf) (hlisted leaf hleaf) hid, Result.ok_bind]
  by_cases hbroad : HasBroadGlob leaf
  · rw [if_pos hbroad]
    rfl
  · rw [if_neg hbroad, fixed, if_neg hbroad]
    rfl

/-- A second pass changes nothing. -/
theorem map_fixed_fixed (hleaves : WellTyped leaves) :
    (leaves.map fixed).map fixed = leaves.map fixed := by
  rw [List.map_map]
  refine List.map_congr_left fun leaf hleaf => ?_
  rw [Function.comp_apply]
  exact if_neg (not_hasBroadGlob_fixed (hleaves.activationOf_eq hleaf))

variable {rt : Runtime} {ct : CharTable} {change : Change}

theorem escalationFrom_fixed {leaf : Dict} (hblock : activationOf leaf = .ok (blockOf leaf)) :
    escalationFrom (blockOf (fixed leaf)) = escalationFrom (blockOf leaf) := by
  rw [escalationFrom, get_blockOf_fixed hblock (by decide), escalationFrom]

/-- An active leaf is active after the pass, on a change that touches code. -/
theorem active_fixed (hleaves : WellTyped leaves) (hpaths : OneLinePaths change)
    (hcode : TouchesCode change) {leaf : Dict} (h : IsActive rt ct leaves change leaf) :
    IsActive rt ct (leaves.map fixed) change (fixed leaf) := by
  refine h.map fixed ?_ ?_
  · rintro leaf ⟨hleaf, hfires⟩
    exact ⟨List.mem_map_of_mem hleaf,
      fires_fixed (hleaves.activationOf_eq hleaf) hpaths hcode hfires⟩
  · rintro parent leaf ⟨hleaf, hfrom⟩
    refine ⟨List.mem_map_of_mem hleaf, ?_⟩
    rwa [sortId_fixed, escalationFrom_fixed (hleaves.activationOf_eq hleaf)]

/-- A leaf that is active after the pass was active before. -/
theorem active_of_fixed (hleaves : WellTyped leaves) (hpaths : OneLinePaths change)
    (huniversal : BroadUniversal leaves) {leaf : Dict}
    (h : IsActive rt ct (leaves.map fixed) change leaf) :
    ∃ before, leaf = fixed before ∧ IsActive rt ct leaves change before := by
  let S : Set Dict :=
    {leaf | ∃ before, leaf = fixed before ∧ IsActive rt ct leaves change before}
  suffices hmem : leaf ∈ S from hmem
  refine h.mem_of_closed ?_ ?_
  · rintro leaf ⟨hleaf, hfires⟩
    obtain ⟨before, hbefore, rfl⟩ := List.mem_map.1 hleaf
    exact ⟨before, rfl, .seed ⟨hbefore, fires_of_fixed (hleaves.activationOf_eq hbefore) hpaths
      (huniversal before hbefore) hfires⟩⟩
  · rintro parent ⟨before, rfl, hactive⟩ leaf ⟨hleaf, hfrom⟩
    obtain ⟨child, hchild, rfl⟩ := List.mem_map.1 hleaf
    refine ⟨child, rfl, .step hactive ⟨hchild, ?_⟩⟩
    rwa [sortId_fixed, escalationFrom_fixed (hleaves.activationOf_eq hchild)] at hfrom

end

/-- **Replacing the broad globs activates no leaf more, and on a change that touches code it changes
nothing.**  The pass goes through, and a second one changes nothing. -/
theorem fixBroadGlobs_activation (rt : Runtime) (ct : CharTable) {leaves : List Dict}
    (hleaves : WellTyped leaves) (hlisted : ∀ leaf ∈ leaves, GlobsListed leaf)
    (huniversal : BroadUniversal leaves) :
    ∃ leaves', fixAll leaves = .ok leaves' ∧ fixAll leaves' = .ok leaves' ∧
      ∀ change, OneLinePaths change → ∃ active signals active' signals',
        evaluateActivation rt ct leaves change = .ok (active, signals) ∧
        evaluateActivation rt ct leaves' change = .ok (active', signals') ∧
        active'.map sortId ⊆ active.map sortId ∧
        (TouchesCode change → active'.map sortId = active.map sortId ∧ signals' = signals) := by
  have hleaves' := wellTyped_fixed hleaves
  refine ⟨leaves.map fixed, fixAll_eq hleaves hlisted, ?_, ?_⟩
  · have hlisted' : ∀ leaf ∈ leaves.map fixed, GlobsListed leaf := by
      rintro leaf hleaf
      obtain ⟨before, hbefore, rfl⟩ := List.mem_map.1 hleaf
      exact globsListed_fixed (hleaves.activationOf_eq hbefore) (hlisted before hbefore)
    rw [fixAll_eq hleaves' hlisted', map_fixed_fixed hleaves]
  intro change hpaths
  obtain ⟨active, heval, hmem, hsorted⟩ := evaluate_spec rt ct change hleaves (Nat.lt_succ_self _)
  obtain ⟨active', heval', hmem', hsorted'⟩ :=
    evaluate_spec rt ct change hleaves' (Nat.lt_succ_self _)
  refine ⟨active, _, active', _, heval, heval', ?_, ?_⟩
  · intro id hid
    obtain ⟨leaf, hleaf, rfl⟩ := List.mem_map.1 hid
    obtain ⟨before, rfl, hbefore⟩ :=
      active_of_fixed hleaves hpaths huniversal ((hmem' leaf).1 hleaf)
    rw [sortId_fixed]
    exact List.mem_map_of_mem ((hmem before).2 hbefore)
  · intro hcode
    -- both lists are sorted by id, and have the same leaves
    have hsame : active' = active.map fixed := by
      refine eq_of_sorted_ids hsorted' ?_ fun leaf => ?_
      · refine List.pairwise_map.2 (hsorted.imp fun hlt => ?_)
        rwa [sortId_fixed, sortId_fixed]
      · rw [hmem', List.mem_map]
        constructor
        · intro h
          obtain ⟨before, rfl, hbefore⟩ := active_of_fixed hleaves hpaths huniversal h
          exact ⟨before, (hmem before).2 hbefore, rfl⟩
        · rintro ⟨before, hbefore, rfl⟩
          exact active_fixed hleaves hpaths hcode ((hmem before).1 hbefore)
    rw [hsame, List.map_map, List.map_map]
    refine ⟨List.map_congr_left fun leaf _ => sortId_fixed leaf,
      List.map_congr_left fun leaf hleaf => ?_⟩
    have hin : leaf ∈ leaves := mem_of_active ((hmem leaf).1 hleaf)
    rw [Function.comp_apply, sortId_fixed,
      signalsOf_fixed (hleaves.activationOf_eq hin) hpaths (huniversal leaf hin) hcode]

/-- A leaf for every file. -/
def catchAllLeaf : Dict :=
  [("id", .str "smell"), ("activation", .dict [("file_globs", ofStrs ["**/*", "docs/*.md"])])]

/-- A leaf that the pass rewrites, and one that escalates from it. -/
def broadLeaves : List Dict := [catchAllLeaf, escalatingLeaf "b" "smell"]

theorem wellTyped_broadLeaves : WellTyped broadLeaves where
  id leaf hleaf := by
    simp only [broadLeaves, List.mem_cons, List.not_mem_nil, or_false] at hleaf
    rcases hleaf with rfl | rfl
    · exact ⟨"smell", rfl, by decide⟩
    · exact ⟨"b", rfl, by decide⟩
  distinct := by decide +kernel
  block leaf hleaf := by
    simp only [broadLeaves, List.mem_cons, List.not_mem_nil, or_false] at hleaf
    rcases hleaf with rfl | rfl <;> exact ⟨_, rfl⟩

theorem fixBroadGlobs_activation_broadLeaves :
    WellTyped broadLeaves ∧ (∀ leaf ∈ broadLeaves, GlobsListed leaf) ∧ BroadUniversal broadLeaves ∧
      ∃ leaves', fixAll broadLeaves = .ok leaves' ∧ fixAll leaves' = .ok leaves' ∧
        ∀ change, OneLinePaths change → ∃ active signals active' signals',
          evaluateActivation Runtime.ascii CharTable.ascii broadLeaves change =
            .ok (active, signals) ∧
          evaluateActivation Runtime.ascii CharTable.ascii leaves' change =
            .ok (active', signals') ∧
          active'.map sortId ⊆ active.map sortId ∧
          (TouchesCode change → active'.map sortId = active.map sortId ∧ signals' = signals) := by
  have hlisted : ∀ leaf ∈ broadLeaves, GlobsListed leaf := by
    intro leaf hleaf
    simp only [broadLeaves, List.mem_cons, List.not_mem_nil, or_false] at hleaf
    rcases hleaf with rfl | rfl <;> rfl
  have huniversal : BroadUniversal broadLeaves := by
    intro leaf hleaf hbroad
    simp only [broadLeaves, List.mem_cons, List.not_mem_nil, or_false] at hleaf
    rcases hleaf with rfl | rfl
    · exact ⟨"**/*", by decide +kernel, by decide +kernel⟩
    · obtain ⟨glob, hglob, -⟩ := hbroad
      cases hglob
  exact ⟨wellTyped_broadLeaves, hlisted, huniversal,
    fixBroadGlobs_activation Runtime.ascii CharTable.ascii wellTyped_broadLeaves hlisted huniversal⟩

end CodeReview
