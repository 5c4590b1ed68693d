import CodeReview.Handlers.ReportTables
import CodeReview.Handlers.Shards
import CodeReview.Py.JsonLoads

/-!
# The run directory

`write_run_artefacts` writes the report, as JSON and as Markdown, a manifest and the timings into a
directory of its own.

* `parts_join` : a path that is written out and read back is the same path;
* `join_portable` : **the path that the handler returns leads back to the run directory**, whether
  it lies under the working directory or not;
* `writeRunArtefacts_ok` : what is written when nothing raises;
* `writeRunArtefacts_frame` : no file outside the run directory is touched, whatever raises.
-/

namespace CodeReview

open Py

/-! ### Paths -/

/-- The parts of a path: none is empty, a dot, or has a separator. -/
def IsParts (ps : List String) : Prop := ∀ p ∈ ps, p ≠ "" ∧ p ≠ "." ∧ '/' ∉ p.toList

/-- `str(path)` of a relative path. -/
def relativeText (ps : List String) : String := if ps = [] then "." else Text.join "/" ps

/-- `str(path)` of an absolute path. -/
def absoluteText (ps : List String) : String := "/" ++ Text.join "/" ps

/-- `path.relative_to(base)`, where it does not raise. -/
def relativeTo (base path : List String) : Option (List String) :=
  if base.isPrefixOf path then some (path.drop base.length) else none

/-! ### The host -/

/-- What a review finds around it: the working directory, the installation, the clock and the hash
function.  The text of a date has eight digits and that of a time six. -/
structure Host where
  cwd : List String
  skillRoot : List String
  /-- `_specialists_total`. -/
  specialistsTotal : ℕ
  /-- `%Y%m%d` and `%H%M%S` of the current time. -/
  date : List Char
  time : List Char
  /-- `sha256(key).hexdigest()`. -/
  sha256 : String → HexDigest
  cwd_parts : IsParts cwd
  skillRoot_parts : IsParts skillRoot
  date_digits : date.length = 8 ∧ ∀ c ∈ date, c.isDigit
  time_digits : time.length = 6 ∧ ∀ c ∈ time, c.isDigit

/-- Files by their path. -/
abbrev Files := List (List String × String)

/-- `_atomic_write_text`. -/
def atomicWriteText (files : Files) (path : List String) (contents : String) : Files :=
  Assoc.set files path contents

/-! ### Where the artefacts go -/

/-- `_legacy_run_id_for`. -/
def legacyRunIdFor (host : Host) (runUuid : String) : String :=
  String.ofList (host.date ++ '-' :: host.time ++ '-' :: (host.sha256 runUuid).digits.take 7)

/-- The date and the hash of a run id: `(\d{4})(\d{2})(\d{2})-\d{6}-([0-9a-f]{7})`, for ASCII
digits. -/
def matchRunId (id : List Char) : Option (List Char × List Char) :=
  match id.drop 8 with
  | '-' :: rest =>
    match rest.drop 6 with
    | '-' :: hash =>
      if (id.take 8).all Char.isDigit ∧ rest.length = 14 ∧ (rest.take 6).all Char.isDigit ∧
          hash.all fun c => "0123456789abcdef".toList.contains c then
        some (id.take 8, hash)
      else none
    | _ => none
  | _ => none

/-- `_run_dir_path`. -/
def runDirPath (host : Host) (runId : String) (storageRoot : List String)
    (shardKey : Option String) : Result (List String) :=
  match matchRunId runId.toList with
  | none => .error .valueError
  | some (date, hash) => do
    let shards ← match shardKey with
      | some key => shardSegments host.sha256 key [2, 5]
      | none => pure [String.ofList (hash.take 2), String.ofList (hash.drop 2)]
    return ([String.ofList (date.take 4), String.ofList ((date.drop 4).take 2),
      String.ofList (date.drop 6)] ++ shards).foldl Path.join storageRoot

/-! ### The report as text -/

section

variable (rt : Runtime) (up : UpperCase)

/-- `render_report_json`. -/
def renderReportJson (payload : Dict) : String :=
  String.ofList (Json.dumpIndent rt 0 (.dict payload) ++ ['\n'])

/-- `v.get`, for the value of a key that may be missing or empty. -/
def dictOr (v : Value) : Result Dict :=
  match v.or (.dict []) with
  | .dict d => .ok d
  | _ => .error .attributeError

/-- The issues of each severity; an unhashable severity raises. -/
def countIssues (severity : String) : List Value → Result ℕ
  | [] => .ok 0
  | issue :: issues => do
    let sev := match issue with
      | .dict d => Dict.get d "severity"
      | _ => .none
    let known ← Value.contains? validSeverities sev
    let rest ← countIssues severity issues
    return if known ∧ sev.eqv (.str severity) then rest + 1 else rest

/-- The range of the change. -/
def rangeText (range : Dict) : String :=
  if (range.get "base").truthy ∧ (range.get "head").truthy then
    rt.str (range.get "base") ++ ".." ++ rt.str (range.get "head")
  else if (range.get "head").truthy then rt.str (range.get "head")
  else "—"

/-- `_render_verdict_table`. -/
def renderVerdictTable (payload : Dict) : Result (List String) := do
  let issues ← ((payload.get "issues").or (.list [])).iter
  let critical ← countIssues "critical" issues
  let important ← countIssues "important" issues
  let blocking := if critical > 0 ∨ important > 0 then
      toString critical ++ " critical, " ++ toString important ++ " important"
    else "none"
  let summary ← dictOr (payload.get "summary")
  let range ← dictOr (summary.get "range")
  let stack ← joinTexts (summary.get "stack")
  let description := summary.get "description"
  return ["## Verdict", "", "| | |", "|---|---|",
      "| **Decision** | **" ++ rt.str ((payload.get "verdict").or "(unknown)") ++ "** |",
      "| **Blocking** | " ++ blocking ++ " |"] ++
    (if description.isNone || description.eqv "" || description.eqv (.list []) then []
      else ["| **Reviewed** | " ++ mdcell rt description ++ " |"]) ++
    ["| **Range** | " ++ rangeText rt range ++ " |",
      "| **Files** | " ++ rt.str (summary.getD "files_changed" (.int 0)) ++ " files changed |",
      "| **Stack** | " ++ (if stack = "" then "—" else stack) ++ " |",
      "| **Mode** | " ++ rt.str (summary.getD "mode" "diff") ++ " |",
      "| **Specialists** | " ++ rt.str (summary.getD "specialists_dispatched" (.int 0)) ++ " of " ++
        rt.str (summary.getD "specialists_total" "?") ++ " dispatched |",
      ""]

/-- `_render_methodology`. -/
def renderMethodology (payload : Dict) : Result (List String) := do
  let m ← dictOr (payload.get "methodology")
  return ["## SOLID Compliance", "", "| Principle | Status | Finding |",
      "|-----------|--------|---------|"] ++
    methodologyPrinciples.map
      (fun p => "| " ++ p ++ " | " ++ rt.str (m.getD p "N/A") ++ " | — |") ++
    [""]

/-- `_render_strengths`. -/
def renderStrengths (strengths : List Value) : Result ReportPart :=
  if strengths.isEmpty then .ok ⟨[], []⟩
  else .ok ⟨["## Strengths", ""] ++ (dicts strengths).map (fun s =>
      "- **[" ++ rt.str ((s.get "specialist").or "—") ++ "]** " ++
        rt.str ((s.get "description").or "")) ++ [""], []⟩

/-- `_render_gates`. -/
def renderGates : List Value → Result ReportPart :=
  tablePart "## Release Gates" "| # | Gate | Status | Blockers |" "|---|------|--------|----------|"
    fun g => .ok [rt.str (g.get "number"), rt.str (g.get "name"), rt.str (g.get "status"),
      rt.str (g.getD "blockers" (.int 0))]

/-- `render_report_markdown`. -/
def renderReportMarkdown (payload : Dict) : Result String := do
  let verdict ← renderVerdictTable rt payload
  let methodology ← renderMethodology rt payload
  let issues ← partAt payload "issues" (renderIssues rt)
  let strengths ← partAt payload "strengths" (renderStrengths rt)
  let tools ← partAt payload "tool_results" (renderToolResults rt up)
  let specialists ← partAt payload "specialists" (renderSpecialists rt up)
  let gates ← partAt payload "gates" (renderGates rt)
  let coverage ← partAt payload "coverage" (renderCoverage rt)
  return Text.join "\n" (["# Code Review Report", ""] ++ verdict ++ methodology ++ issues.lines ++
    strengths.lines ++ tools.lines ++ specialists.lines ++ gates.lines ++ coverage.lines) ++ "\n"

/-! ### Writing -/

/-- `bool(v)`, as a value. -/
def boolOf (v : Value) : Value := .bool v.truthy

/-- `v` where it is a list, and else `[]`. -/
def listOr (v : Value) : Value := .list (ensureList v)

/-- The manifest. -/
def manifest (runId runUuid : String) (env payload : Dict) : Dict :=
  [("run_id", .str runId), ("fsm_run_id", .str runUuid), ("verdict", payload.get "verdict"),
    ("report_path", "report.md"), ("report_json_path", "report.json"), ("tier", env.get "tier"),
    ("tier_cap", env.get "cap"), ("tier_rationale", env.get "tier_rationale"),
    ("short_circuited", boolOf (env.get "short_circuited")),
    ("degraded_run", boolOf (env.get "degraded_run")),
    ("severity_counts", (env.get "severity_counts").or (.dict [("critical", .int 0),
      ("important", .int 0), ("minor", .int 0)])),
    ("coverage_gaps", listOr (env.get "coverage_gaps")),
    ("routing", .dict [("stage_a", .dict [("candidates",
        (env.get "stage_a_candidates").or (.list []))]),
      ("stage_b", .dict [("picked", (env.get "picked_leaves").or (.list [])),
        ("rejected", (env.get "rejected_leaves").or (.list [])),
        ("coverage_rescues", (env.get "coverage_rescues").or (.list []))])])]

/-- The timings that are written, if the runner left any. -/
def timingsDoc (runId runUuid : String) (env : Dict) : Option Dict :=
  match env.get "timings" with
  | .dict timings => some [("run_id", .str runId), ("fsm_run_id", .str runUuid),
      ("whole_review_ms", Dict.get timings "whole_review_ms"),
      ("stage_timings", listOr (Dict.get timings "stage_timings")),
      ("specialists", listOr (Dict.get timings "specialists")),
      ("cost", .dict (ensureDict (Dict.get timings "cost")))]
  | _ => none

/-- Where the artefacts of a run are stored. -/
def storageOf (host : Host) (env : Dict) : List String :=
  let args := ensureDict (env.get "args")
  resolveStorageRoot (coerceAbsoluteProjectRoot (args.get "project_root") host.skillRoot)
    (args.get "storage_root")

/-- `write_run_artefacts`: the files it leaves, and the run directory or what it raises. -/
def writeRunArtefacts (host : Host) (runUuid : String) (env : Dict) (files : Files) :
    Files × Result (List String) :=
  let runId := legacyRunIdFor host runUuid
  match runDirPath host runId (storageOf host env) (some runUuid) with
  | .error exc => (files, .error exc)
  | .ok dir =>
    match buildReportPayload rt host.specialistsTotal env with
    | .error exc => (files, .error exc)
    | .ok payload =>
      let files := atomicWriteText files (dir ++ ["report.json"]) (renderReportJson rt payload)
      match renderReportMarkdown rt up payload with
      -- the JSON report stays behind
      | .error exc => (files, .error exc)
      | .ok text =>
        let files := atomicWriteText files (dir ++ ["report.md"]) text
        let files := atomicWriteText files (dir ++ ["manifest.json"])
          (renderReportJson rt (manifest runId runUuid env payload))
        let files := match timingsDoc runId runUuid env with
          | some doc => atomicWriteText files (dir ++ ["timings.json"]) (renderReportJson rt doc)
          | none => files
        (files, .ok dir)

/-- The run directory as the handler returns it. -/
def portable (host : Host) (dir : List String) : String :=
  match relativeTo host.cwd dir with
  | some rel => relativeText rel
  | none => absoluteText dir

/-- `handle_write_run_directory`. -/
def handleWriteRunDirectory (host : Host) (runUuid : String) (env : Dict) (files : Files) :
    Files × Result Dict :=
  let (files, dir) := writeRunArtefacts rt up host runUuid env files
  (files, dir.map fun dir => [("run_dir_path", .str (portable host dir))])

end

/-! ### Paths that read back -/

theorem join_cons_cons (p q : String) (ps : List String) :
    Text.join "/" (p :: q :: ps) = p ++ "/" ++ Text.join "/" (q :: ps) := by
  rw [← String.toList_inj]
  simp only [Text.join, String.toList_intercalate, String.toList_append, List.map_cons,
    List.intercalate_cons_cons]

theorem parts_of_isPart {p : String} (h : p ≠ "" ∧ p ≠ "." ∧ '/' ∉ p.toList) :
    Path.parts p = [p] :=
  Path.parts_of_not_mem h.2.2 h.1 h.2.1

/-- **A path that is written out reads back.** -/
theorem parts_join {ps : List String} (h : IsParts ps) : Path.parts (Text.join "/" ps) = ps := by
  induction ps with
  | nil => rfl
  | cons p ps ih =>
    obtain ⟨hp, hps⟩ := List.forall_mem_cons.1 h
    cases ps with
    | nil => exact parts_of_isPart hp
    | cons q ps => rw [join_cons_cons, Path.parts_append_sep, parts_of_isPart hp, ih hps]; rfl

theorem parts_absoluteText {ps : List String} (h : IsParts ps) :
    Path.parts (absoluteText ps) = ps := by
  have hroot : absoluteText ps = "" ++ "/" ++ Text.join "/" ps := rfl
  rw [hroot, Path.parts_append_sep, Path.parts_empty, List.nil_append, parts_join h]

theorem isAbsolute_absoluteText (ps : List String) : Path.isAbsolute (absoluteText ps) = true := by
  rw [Path.isAbsolute, Text.startsWith, absoluteText, String.toList_append,
    List.isPrefixOf_iff_prefix]
  exact List.prefix_append ..

/-- A relative path does not start with a separator. -/
theorem isAbsolute_relativeText {ps : List String} (h : IsParts ps) :
    Path.isAbsolute (relativeText ps) = false := by
  rw [relativeText]
  split_ifs with hnil
  · decide
  · obtain ⟨p, ps, rfl⟩ := List.exists_cons_of_ne_nil hnil
    obtain ⟨⟨hne, -, hsep⟩, -⟩ := List.forall_mem_cons.1 h
    obtain ⟨c, cs, hp⟩ := List.exists_cons_of_ne_nil (mt String.toList_eq_nil_iff.1 hne)
    have hc : c ≠ '/' := fun heq => hsep (by rw [hp, heq]; exact List.mem_cons_self)
    have hhead : ∃ rest, (Text.join "/" (p :: ps)).toList = c :: rest := by
      cases ps with
      | nil => exact ⟨cs, hp⟩
      | cons q ps =>
        rw [join_cons_cons, String.toList_append, String.toList_append, hp]
        exact ⟨_, rfl⟩
    obtain ⟨rest, hrest⟩ := hhead
    rw [Path.isAbsolute, Text.startsWith, hrest]
    simp [List.isPrefixOf, hc.symm]

theorem parts_relativeText {ps : List String} (h : IsParts ps) :
    Path.parts (relativeText ps) = ps := by
  rw [relativeText]
  split_ifs with hnil
  · rw [hnil]
    decide
  · exact parts_join h

theorem relativeTo_eq_some {base path rel : List String} (h : relativeTo base path = some rel) :
    path = base ++ rel := by
  unfold relativeTo at h
  split_ifs at h with hprefix
  obtain ⟨rest, rfl⟩ := List.isPrefixOf_iff_prefix.1 hprefix
  obtain rfl := Option.some.inj h
  rw [List.drop_left]

/-- **The path that the handler returns leads back to the run directory.** -/
theorem join_portable {host : Host} {dir : List String} (h : IsParts dir) :
    Path.join host.cwd (portable host dir) = dir := by
  unfold portable
  cases hrel : relativeTo host.cwd dir with
  | some rel =>
    obtain rfl := relativeTo_eq_some hrel
    have hparts : IsParts rel := fun p hp => h p (List.mem_append_right _ hp)
    simp only [Path.join, isAbsolute_relativeText hparts, parts_relativeText hparts]
    rfl
  | none => simp only [Path.join, isAbsolute_absoluteText, if_true, parts_absoluteText h]

/-- No piece of a split text has the separator. -/
theorem not_mem_of_mem_splitOn {a : Char} {cs piece : List Char} (h : piece ∈ cs.splitOn a) :
    a ∉ piece := by
  induction cs generalizing piece with
  | nil =>
    rw [List.splitOn_nil, List.mem_singleton] at h
    rw [h]
    exact List.not_mem_nil
  | cons c cs ih =>
    rw [List.splitOn_cons_eq_if_modifyHead] at h
    split_ifs at h with hc
    · rcases List.mem_cons.1 h with rfl | h
      · exact List.not_mem_nil
      · exact ih h
    · obtain ⟨first, rest, hsplit⟩ := List.exists_cons_of_ne_nil (List.splitOn_ne_nil a cs)
      rw [hsplit, List.modifyHead_cons] at h
      rcases List.mem_cons.1 h with rfl | h
      · intro hmem
        rcases List.mem_cons.1 hmem with rfl | hmem
        · exact hc (beq_self_eq_true a)
        · exact ih (hsplit ▸ List.mem_cons_self) hmem
      · exact ih (hsplit ▸ List.mem_cons_of_mem _ h)

/-- The parts of a path are parts. -/
theorem isParts_parts (path : String) : IsParts (Path.parts path) := by
  intro p hp
  obtain ⟨hmem, hfilter⟩ := List.mem_filter.1 hp
  obtain ⟨hne, hdot⟩ := of_decide_eq_true hfilter
  obtain ⟨piece, hpiece, rfl⟩ := List.mem_map.1 hmem
  rw [String.toList_ofList]
  exact ⟨hne, hdot, not_mem_of_mem_splitOn hpiece⟩

theorem isParts_append {ps qs : List String} (hps : IsParts ps) (hqs : IsParts qs) :
    IsParts (ps ++ qs) := List.forall_mem_append.2 ⟨hps, hqs⟩

theorem isParts_coerce (value : Value) {fallback : List String} (h : IsParts fallback) :
    IsParts (coerceAbsoluteProjectRoot value fallback) := by
  unfold coerceAbsoluteProjectRoot
  split
  · split_ifs
    · exact isParts_parts _
    · exact h
  · exact h

/-! ### The name of the run directory -/

/-- **The id of a run is of the form that the directory is cut from.** -/
theorem matchRunId_legacy (host : Host) (runUuid : String) :
    matchRunId (legacyRunIdFor host runUuid).toList =
      some (host.date, (host.sha256 runUuid).digits.take 7) := by
  set hash := (host.sha256 runUuid).digits.take 7 with hhash
  have hlength : hash.length = 7 := by
    rw [hhash, List.length_take, (host.sha256 runUuid).length_eq]
    rfl
  have hid : (legacyRunIdFor host runUuid).toList =
      host.date ++ '-' :: (host.time ++ '-' :: hash) := by
    rw [legacyRunIdFor, String.toList_ofList, List.append_assoc]
    rfl
  obtain ⟨hdate, hdateDigits⟩ := host.date_digits
  obtain ⟨htime, htimeDigits⟩ := host.time_digits
  have hhex : (hash.all fun c => "0123456789abcdef".toList.contains c) = true :=
    List.all_eq_true.2 fun c hc => List.contains_iff_mem.2
      ((host.sha256 runUuid).hex c (List.mem_of_mem_take (hhash ▸ hc)))
  rw [hid, matchRunId, List.drop_left' hdate, List.take_left' hdate]
  simp only [List.drop_left' htime, List.take_left' htime]
  refine if_pos ⟨List.all_eq_true.2 hdateDigits, ?_, List.all_eq_true.2 htimeDigits, hhex⟩
  rw [List.length_append, List.length_cons, htime, hlength]

/-- A piece of a date is a name. -/
theorem isPart_digits {digits : List Char} (hne : digits ≠ []) (h : ∀ c ∈ digits, c.isDigit) :
    IsPart (String.ofList digits) := by
  refine isPart_hex hne fun c hc => ?_
  have hhex : ∀ n : Fin 10, Char.ofNat (48 + n) ∈ "0123456789abcdef".toList := by decide
  obtain ⟨hlow, hhigh⟩ := Char.isDigit_iff_toNat.1 (h c hc)
  change 48 ≤ c.toNat at hlow
  change c.toNat ≤ 57 at hhigh
  have hmem := hhex ⟨c.toNat - 48, by omega⟩
  rwa [Nat.add_sub_cancel' hlow, Char.ofNat_toNat] at hmem

/-- The five directories of a run below its storage. -/
def runDirNames (host : Host) (runUuid : String) : List String :=
  [String.ofList (host.date.take 4), String.ofList ((host.date.drop 4).take 2),
    String.ofList (host.date.drop 6)] ++ cutPieces [2, 5] (host.sha256 runUuid).digits

/-- **The run directory lies five directories below the storage**, named by the date and the
hash. -/
theorem runDirPath_legacy (host : Host) (runUuid : String) (storageRoot : List String) :
    runDirPath host (legacyRunIdFor host runUuid) storageRoot (some runUuid) =
      .ok (storageRoot ++ runDirNames host runUuid) ∧
      ∀ name ∈ runDirNames host runUuid, IsPart name := by
  obtain ⟨hdate, hdigits⟩ := host.date_digits
  have hnames : ∀ name ∈ runDirNames host runUuid, IsPart name := by
    refine List.forall_mem_append.2 ⟨?_, ?_⟩
    · refine List.forall_mem_cons.2 ⟨?_,
        List.forall_mem_cons.2 ⟨?_, List.forall_mem_singleton.2 ?_⟩⟩
      · refine isPart_digits (List.ne_nil_of_length_pos ?_) fun c hc =>
          hdigits c (List.mem_of_mem_take hc)
        rw [List.length_take, hdate]
        decide
      · refine isPart_digits (List.ne_nil_of_length_pos ?_) fun c hc =>
          hdigits c (List.mem_of_mem_drop (List.mem_of_mem_take hc))
        rw [List.length_take, List.length_drop, hdate]
        decide
      · refine isPart_digits (List.ne_nil_of_length_pos ?_) fun c hc =>
          hdigits c (List.mem_of_mem_drop hc)
        rw [List.length_drop, hdate]
        decide
    · exact isPart_of_mem_cutPieces (by rw [(host.sha256 runUuid).length_eq]; decide) (by decide)
        (host.sha256 runUuid).hex
  refine ⟨?_, hnames⟩
  rw [runDirPath, matchRunId_legacy]
  simp only [shardSegments, if_neg (show ¬ 64 < [2, 5].sum by decide), Result.ok_bind,
    Result.pure_eq_ok]
  rw [← runDirNames, foldl_join hnames]

theorem isParts_of_isPart {names : List String} (h : ∀ name ∈ names, IsPart name) :
    IsParts names := by
  intro name hname
  have hparts : Path.parts name = [name] := by
    have hjoin := (h name hname).1 []
    rw [Path.join] at hjoin
    split_ifs at hjoin
    · exact hjoin
    · exact hjoin
  exact isParts_parts name name (by rw [hparts]; exact List.mem_singleton_self _)

/-! ### What is written -/

/-- The run directory. -/
def runDirOf (host : Host) (runUuid : String) (env : Dict) : List String :=
  storageOf host env ++ runDirNames host runUuid

theorem isParts_runDirOf (host : Host) (runUuid : String) (env : Dict) :
    IsParts (runDirOf host runUuid env) := by
  refine isParts_append (isParts_coerce _
    (isParts_append (isParts_coerce _ host.skillRoot_parts) ?_))
    (isParts_of_isPart (runDirPath_legacy host runUuid []).2)
  exact isParts_of_isPart (List.forall_mem_singleton.2 ⟨fun root => rfl, by decide⟩)

section

variable {rt : Runtime} {up : UpperCase} {host : Host} {runUuid : String} {env : Dict}
  {files files' : Files}

/-- A file outside the directory. -/
theorem get?_atomicWriteText {dir path : List String} (h : ¬ dir <+: path)
    (name contents : String) :
    Assoc.get? (atomicWriteText files (dir ++ [name]) contents) path = Assoc.get? files path := by
  rw [atomicWriteText, Assoc.get?_set, if_neg]
  rintro rfl
  exact h (List.prefix_append ..)

/-- **No file outside the run directory is touched, whatever raises.** -/
theorem writeRunArtefacts_frame {path : List String} (h : ¬ runDirOf host runUuid env <+: path) :
    Assoc.get? (writeRunArtefacts rt up host runUuid env files).1 path = Assoc.get? files path := by
  have hdir : runDirPath host (legacyRunIdFor host runUuid) (storageOf host env) (some runUuid) =
      .ok (runDirOf host runUuid env) := (runDirPath_legacy host runUuid (storageOf host env)).1
  unfold writeRunArtefacts
  simp only
  rw [hdir]
  simp only
  split
  · rfl
  · split
    · exact get?_atomicWriteText h _ _
    · simp only
      split
      · rw [get?_atomicWriteText h, get?_atomicWriteText h, get?_atomicWriteText h,
          get?_atomicWriteText h]
      · rw [get?_atomicWriteText h, get?_atomicWriteText h, get?_atomicWriteText h]

/-- The artefacts of a run. -/
structure Written (rt : Runtime) (up : UpperCase) (host : Host) (runUuid : String) (env : Dict)
    (files : Files) (payload : Dict) (text : String) : Prop where
  built : buildReportPayload rt host.specialistsTotal env = .ok payload
  rendered : renderReportMarkdown rt up payload = .ok text
  json : Assoc.get? files (runDirOf host runUuid env ++ ["report.json"]) =
    some (renderReportJson rt payload)
  markdown : Assoc.get? files (runDirOf host runUuid env ++ ["report.md"]) = some text
  manifest : Assoc.get? files (runDirOf host runUuid env ++ ["manifest.json"]) =
    some (renderReportJson rt (manifest (legacyRunIdFor host runUuid) runUuid env payload))
  timings : ∀ doc ∈ timingsDoc (legacyRunIdFor host runUuid) runUuid env,
    Assoc.get? files (runDirOf host runUuid env ++ ["timings.json"]) =
      some (renderReportJson rt doc)

/-- **What is there when nothing raises.** -/
theorem writeRunArtefacts_ok {dir : List String}
    (h : writeRunArtefacts rt up host runUuid env files = (files', .ok dir)) :
    dir = runDirOf host runUuid env ∧
      ∃ payload text, Written rt up host runUuid env files' payload text := by
  have hdir : runDirPath host (legacyRunIdFor host runUuid) (storageOf host env) (some runUuid) =
      .ok (runDirOf host runUuid env) := (runDirPath_legacy host runUuid (storageOf host env)).1
  unfold writeRunArtefacts at h
  simp only at h
  rw [hdir] at h
  simp only at h
  split at h
  · cases h
  · rename_i payload hpayload
    split at h
    · cases h
    · rename_i text htext
      obtain ⟨hfiles, hok⟩ := Prod.mk.inj h
      have hother (a b : String) (hab : a ≠ b) :
          runDirOf host runUuid env ++ [a] ≠ runDirOf host runUuid env ++ [b] := fun heq =>
        hab (List.singleton_inj.1 (List.append_cancel_left heq))
      refine ⟨(Except.ok.inj hok).symm, payload, text, hpayload, htext, ?_, ?_, ?_, ?_⟩
      case refine_4 =>
        intro doc hdoc
        rw [← hfiles, Option.mem_def.1 hdoc]
        exact (Assoc.get?_set ..).trans (if_pos rfl)
      all_goals
        rw [← hfiles]
        split <;> simp [atomicWriteText, Assoc.get?_set, hother]

end

end CodeReview
