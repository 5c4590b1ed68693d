import CodeReview.Handlers.OrderFree
import CodeReview.Handlers.RunDirectory

/-!
# Printing the report

`handle_emit_stdout` prints the report that was written, or a part of it: only the issues of a
severity or more, only some of the gates.

* `emit_prints` : **what is printed is the report that was written, filtered, in the format asked
  for**: reading the files back loses nothing;
* `applyScopeFilters_spec` : **the filters keep the issues of the severity or more and the gates
  named, in their order, and change nothing else**; filters compose.
-/

namespace CodeReview

open Py

/-! ### What is asked for -/

/-- The formats that can be printed. -/
inductive ReportFormat where
  | markdown
  | json
  deriving DecidableEq, Repr

section

variable (rt : Runtime) (up : UpperCase)

/-- `_resolve_format`. -/
def resolveFormat (args : Dict) (isTty : Bool) : ReportFormat :=
  let requested := match args.get "format" with
    | .str s => rt.lower s
    | _ => "auto"
  if requested = "markdown" then .markdown
  else if requested = "json" then .json
  else if requested = "yaml" then .markdown
  else if isTty then .markdown else .json

/-- `_parse_severity_threshold`. -/
def parseSeverityThreshold : Value → Option ℕ
  | .str s => if Text.strip s = "" then none else Assoc.get? severityRank (rt.lower (Text.strip s))
  | _ => none

/-- `_parse_gate_filter`. -/
def parseGateFilter (raw : Value) : Option (List ℤ) :=
  if raw.isNone then none
  else
    let numbers := ((Text.split ',' (rt.str raw)).filterMap fun tok =>
      rt.parseInt (Text.strip tok)).filter fun n => 1 ≤ n ∧ n ≤ 8
    if numbers = [] then none else some numbers

/-! ### Filters -/

/-- The issues of a severity or more; an unhashable severity raises. -/
def keepSeverity (threshold : ℕ) : List Dict → Result (List Dict)
  | [] => .ok []
  | f :: rest => do
    let rank ← rankOf (f.getD "severity" "")
    let kept ← keepSeverity threshold rest
    return if threshold ≤ rank then f :: kept else kept

/-- The gates of the given numbers; an unhashable number raises. -/
def keepGates (numbers : List ℤ) : List Dict → Result (List Dict)
  | [] => .ok []
  | g :: rest =>
    if (g.get "number").hashable then do
      let kept ← keepGates numbers rest
      return if numbers.any fun n => (g.get "number").eqv (.int n) then g :: kept else kept
    else .error .typeError

/-- `counts`, of the issues that were kept. -/
def severityCounts (kept : List Value) : Value :=
  .dict (validSeverities.map fun s => (s, .int (ofSeverity kept s).length))

/-- Replace a list of the payload. -/
def setIfList (payload : Dict) (key : String) (kept : List Value) (filtered : Dict) : Dict :=
  match payload.get key with
  | .list _ => Assoc.set filtered key (.list kept)
  | _ => filtered

/-- The severity filter of `_apply_scope_filters`. -/
def applySeverity (payload : Dict) (threshold : ℕ) : Result Dict := do
  let source ← (((payload.get "issues").or (payload.get "findings")).or (.list [])).iter
  let found ← keepSeverity threshold (dicts source)
  let kept := found.map Value.dict
  let counts := severityCounts kept
  let filtered := setIfList payload "findings" kept (setIfList payload "issues" kept payload)
  let filtered := match filtered.get "_meta" with
    | .dict info => Assoc.set filtered "_meta" (.dict (Assoc.set info "severity_counts" counts))
    | _ => filtered
  return if payload.has "severity_counts" then Assoc.set filtered "severity_counts" counts
    else filtered

/-- The gate filter of `_apply_scope_filters`; an empty one is none. -/
def applyGates (payload filtered : Dict) : Option (List ℤ) → Result Dict
  | none | some [] => .ok filtered
  | some numbers => do
    let source ← ((payload.get "gates").or (.list [])).iter
    let kept ← keepGates numbers (dicts source)
    return Assoc.set filtered "gates" (.list (kept.map .dict))

/-- `_apply_scope_filters`. -/
def applyScopeFilters (payload : Dict) (threshold : Option ℕ) (gates : Option (List ℤ)) :
    Result Dict := do
  let filtered ← threshold.elim (.ok payload) (applySeverity payload)
  applyGates payload filtered gates

/-! ### Printing -/

/-- What a handler prints. -/
structure Emission where
  stdout : String
  stderr : String
  deriving DecidableEq, Repr

/-- The file of a format. -/
def ReportFormat.fileName : ReportFormat → String
  | markdown => "report.md"
  | json => "report.json"

/-- `_read_report_text`; a relative path starts at the working directory, and `read_text` folds the
line breaks. -/
def readReportText (host : Host) (files : Files) (runDirPath : String) (fmt : ReportFormat) :
    Option String :=
  (Assoc.get? files (Path.join host.cwd runDirPath ++ [fmt.fileName])).map Text.universalNewlines

/-- The report in a format. -/
def renderAs (payload : Dict) : ReportFormat → Result String
  | .json => .ok (renderReportJson rt payload)
  | .markdown => renderReportMarkdown rt up payload

/-- The filters that the arguments ask for. -/
def requestedFilters (args : Dict) : Option ℕ × Option (List ℤ) :=
  (parseSeverityThreshold rt (args.get "scope-severity"),
    parseGateFilter rt (args.get "scope-gate"))

/-- What is printed of a report: what the filters leave of it, or else the file, whose line breaks
are folded. -/
def printedBody (payload : Dict) (filters : Option ℕ × Option (List ℤ)) (fmt : ReportFormat) :
    Result String := do
  let filtered ← applyScopeFilters payload filters.1 filters.2
  let body ← renderAs rt up filtered fmt
  return if filters = (none, none) then Text.universalNewlines body else body

/-- The body, and a notice where there is none or the filters could not be used. -/
def reportBody (host : Host) (files : Files) (runDirPath : String) (fmt : ReportFormat)
    (filters : Option ℕ × Option (List ℤ)) : Result (Option String × String) :=
  if filters.1.isSome ∨ filters.2.isSome then
    match readReportText host files runDirPath .json with
    | none => .ok (none, "(emit_stdout: filtered output requested but report.json not found " ++
        "under " ++ runDirPath ++ ")\n")
    | some raw =>
      match Json.loads rt raw.toList with
      | none => .ok (readReportText host files runDirPath fmt,
          "(emit_stdout: report.json is malformed; falling back to unfiltered output)\n")
      | some (.dict parsed) => do
        let filtered ← applyScopeFilters parsed filters.1 filters.2
        let body ← renderAs rt up filtered fmt
        return (some body, "")
      | some _ => .error .attributeError
  else
    match readReportText host files runDirPath fmt with
    | none => .ok (none, "(emit_stdout: report file for format=" ++
        (if fmt = .markdown then "markdown" else "json") ++ " not found under " ++ runDirPath ++
          ")\n")
    | some body => .ok (some body, "")

/-- The line that points to the manifest. -/
def manifestLine (host : Host) (runDirPath : String) : String :=
  let path := Path.parts runDirPath ++ ["manifest.json"]
  "Manifest: " ++
    (if Path.isAbsolute runDirPath then
      match relativeTo host.cwd path with
      | some rel => relativeText rel
      | none => absoluteText path
    else relativeText path) ++ "\n"

/-- The text ends with a line break. -/
def withNewline (body : String) : String :=
  if body.toList.getLast? = some '\n' then body else body ++ "\n"

/-- What is printed of a body: to a reader the manifest follows it, to a program it goes
elsewhere. -/
def emission (host : Host) (runDirPath : String) (fmt : ReportFormat) (body : Option String)
    (notice : String) : Emission :=
  match fmt, body with
  | .markdown, some body => ⟨withNewline body ++ manifestLine host runDirPath, notice⟩
  | _, body => ⟨body.elim "" withNewline, notice ++ manifestLine host runDirPath⟩

/-- The notice that YAML cannot be printed. -/
def yamlNotice (args : Dict) : String :=
  match args.get "format" with
  | .str s => if rt.lower s = "yaml" then
      "(emit_stdout: --format=yaml requested but no YAML serializer is bundled — falling " ++
        "back to markdown)\n"
    else ""
  | _ => ""

/-- `handle_emit_stdout`, on a terminal or not. -/
def handleEmitStdout (host : Host) (isTty : Bool) (files : Files) (env : Dict) : Result Emission :=
  match env.get "run_dir_path" with
  | .str runDirPath =>
    if runDirPath = "" then
      .ok ⟨"", "(emit_stdout: no run_dir_path in env — write_run_directory " ++
        "may have been skipped)\n"⟩
    else do
      let args := ensureDict (env.get "args")
      let fmt := resolveFormat rt args isTty
      let (body, notice) ← reportBody rt up host files runDirPath fmt (requestedFilters rt args)
      return emission host runDirPath fmt body (yamlNotice rt args ++ notice)
  | _ => .ok ⟨"", "(emit_stdout: no run_dir_path in env — write_run_directory " ++
      "may have been skipped)\n"⟩

end

variable {rt : Runtime} {up : UpperCase} {host : Host}

/-! ### Reading back what was written -/

theorem portable_ne_empty {dir : List String} (h : IsParts dir) : portable host dir ≠ "" := by
  intro hempty
  unfold portable at hempty
  split at hempty
  · rename_i rel hrel
    obtain rfl := relativeTo_eq_some hrel
    have hparts : IsParts rel := fun p hp => h p (List.mem_append_right _ hp)
    have hread := parts_relativeText hparts
    rw [hempty, Path.parts_empty] at hread
    rw [← hread] at hempty
    exact absurd hempty (by decide)
  · have habsolute := isAbsolute_absoluteText dir
    rw [hempty] at habsolute
    exact absurd habsolute (by decide)

theorem applyScopeFilters_none (payload : Dict) :
    applyScopeFilters payload none none = .ok payload :=
  rfl

/-- The JSON report has no carriage return, so it is read as it was written. -/
theorem universalNewlines_renderReportJson {payload : Dict}
    (h : Json.Readable rt (.dict payload)) :
    Text.universalNewlines (renderReportJson rt payload) = renderReportJson rt payload := by
  refine Text.universalNewlines_of_notMem fun hmem => ?_
  rw [renderReportJson, String.toList_ofList] at hmem
  rcases List.mem_append.1 hmem with hmem | hmem
  · exact absurd (Json.lines_dumpIndent 0 _ h _ hmem) (by decide)
  · exact absurd hmem (by decide)

/-- **The JSON report reads back.** -/
theorem loads_renderReportJson {payload : Dict} (h : Json.Readable rt (.dict payload)) :
    Json.loads rt (Text.universalNewlines (renderReportJson rt payload)).toList =
      some (.dict payload) := by
  rw [universalNewlines_renderReportJson h, renderReportJson, String.toList_ofList]
  exact (Json.loads_dumpIndent h).2

/-- **What is printed is the report that was written, filtered.** -/
theorem emit_prints {runUuid : String} {env env' : Dict} {files files' : Files} {dir : List String}
    {payload : Dict} {isTty : Bool}
    (h : writeRunArtefacts rt up host runUuid env files = (files', .ok dir))
    (hpayload : buildReportPayload rt host.specialistsTotal env = .ok payload)
    (hpath : env'.get "run_dir_path" = .str (portable host dir))
    (hread : requestedFilters rt (ensureDict (env'.get "args")) ≠ (none, none) →
      Json.Readable rt (.dict payload)) :
    handleEmitStdout rt up host isTty files' env' = (do
      let args := ensureDict (env'.get "args")
      let fmt := resolveFormat rt args isTty
      let body ← printedBody rt up payload (requestedFilters rt args) fmt
      return emission host (portable host dir) fmt (some body) (yamlNotice rt args)) := by
  obtain ⟨rfl, payload', text, hwritten⟩ := writeRunArtefacts_ok h
  obtain rfl : payload = payload' := Except.ok.inj (hpayload.symm.trans hwritten.built)
  have hparts := isParts_runDirOf host runUuid env
  have hfile (fmt : ReportFormat) :
      readReportText host files' (portable host (runDirOf host runUuid env)) fmt =
        (Assoc.get? files' (runDirOf host runUuid env ++ [fmt.fileName])).map
          Text.universalNewlines := by
    rw [readReportText, join_portable hparts]
  rw [handleEmitStdout, hpath]
  simp only
  rw [if_neg (portable_ne_empty hparts)]
  generalize resolveFormat rt (ensureDict (env'.get "args")) isTty = fmt
  generalize hfilters : requestedFilters rt (ensureDict (env'.get "args")) = filters at hread ⊢
  obtain ⟨threshold, gates⟩ := filters
  by_cases hnone : threshold = none ∧ gates = none
  · -- the file is printed as it is
    obtain ⟨rfl, rfl⟩ := hnone
    rw [reportBody, if_neg (by simp), hfile, printedBody, applyScopeFilters_none]
    cases fmt with
    | json =>
      simp only [ReportFormat.fileName, hwritten.json, renderAs, Option.map_some, if_true,
        Result.ok_bind, Result.pure_eq_ok, String.append_empty]
    | markdown =>
      simp only [ReportFormat.fileName, hwritten.markdown, renderAs, hwritten.rendered,
        Option.map_some, if_true, Result.ok_bind, Result.pure_eq_ok, String.append_empty]
  · -- the JSON report is read back and filtered
    have hsome : threshold.isSome = true ∨ gates.isSome = true := by
      by_contra hcon
      push Not at hcon
      exact hnone ⟨by simpa using hcon.1, by simpa using hcon.2⟩
    have hfiltered : (threshold, gates) ≠ (none, none) := fun heq => hnone (Prod.mk.inj heq)
    have hloads := loads_renderReportJson (hread hfiltered)
    rw [reportBody, if_pos hsome, hfile, ReportFormat.fileName, hwritten.json, printedBody]
    simp only [Option.map_some, hloads, Result.pure_eq_ok, if_neg hfiltered]
    cases applyScopeFilters payload threshold gates with
    | error exc => rfl
    | ok filtered =>
      simp only [Result.ok_bind]
      cases renderAs rt up filtered fmt with
      | error exc => rfl
      | ok body => simp only [Result.ok_bind, String.append_empty]

/-! ### What the filters keep -/

/-- The issue has the severity asked for, or more. -/
def meetsSeverity (threshold : Option ℕ) (f : Dict) : Bool := threshold.all (· ≤ rankValue f)

/-- The gate is one of those asked for. -/
def meetsGates (gates : Option (List ℤ)) (g : Dict) : Bool :=
  match gates with
  | none | some [] => true
  | some numbers => numbers.any fun n => (g.get "number").eqv (.int n)

theorem keepSeverity_eq {threshold : ℕ} {fs kept : List Dict}
    (h : keepSeverity threshold fs = .ok kept) :
    kept = fs.filter (meetsSeverity (some threshold)) := by
  induction fs generalizing kept with
  | nil =>
    cases h
    rfl
  | cons f fs ih =>
    obtain ⟨rank, hrank, h⟩ := Result.bind_eq_ok.1 h
    obtain ⟨rest, hrest, h⟩ := Result.bind_eq_ok.1 h
    have hget : rank = rankValue f := by
      rw [rankOf_getD, rankOf] at hrank
      split_ifs at hrank
      exact (Except.ok.inj hrank).symm
    obtain rfl := Except.ok.inj h
    rw [ih hrest, hget, List.filter_cons]
    simp only [meetsSeverity, Option.all_some, decide_eq_true_eq]

theorem keepGates_eq {numbers : List ℤ} (hne : numbers ≠ []) {gs kept : List Dict}
    (h : keepGates numbers gs = .ok kept) : kept = gs.filter (meetsGates (some numbers)) := by
  obtain ⟨n, ns, rfl⟩ := List.exists_cons_of_ne_nil hne
  induction gs generalizing kept with
  | nil =>
    cases h
    rfl
  | cons g gs ih =>
    rw [keepGates] at h
    by_cases hhash : (g.get "number").hashable = true
    · rw [if_pos hhash] at h
      obtain ⟨rest, hrest, h⟩ := Result.bind_eq_ok.1 h
      obtain rfl := Except.ok.inj h
      rw [ih hrest, List.filter_cons]
      rfl
    · rw [if_neg hhash] at h
      cases h

/-- A report: its issues and gates are dictionaries, and it has nothing else that is filtered. -/
structure ReportShaped (payload : Dict) (issues gates : List Dict) : Prop where
  issues : Assoc.get? payload "issues" = some (.list (issues.map .dict))
  gates : Assoc.get? payload "gates" = some (.list (gates.map .dict))
  others : ∀ k ∈ ["findings", "_meta", "severity_counts"], Assoc.get? payload k = none

theorem rowsOf_eq (row : Dict → Dict) (v : Value) :
    rowsOf row v = .list ((dicts (ensureList (rowsOf row v))).map .dict) := by
  rw [rowsOf, ensureList_list, dicts_map_dict, List.map_map]
  rfl

/-- The built report is one. -/
theorem reportShaped_of_built {total : ℕ} {env payload : Dict}
    (h : buildReportPayload rt total env = .ok payload) :
    ReportShaped payload (rowsAt payload "issues") (rowsAt payload "gates") := by
  obtain ⟨valid, -, h⟩ := Result.bind_eq_ok.1 h
  cases valid with
  | false => cases h
  | true =>
    obtain ⟨methodology, -, h⟩ := Result.bind_eq_ok.1 h
    obtain ⟨issues, -, h⟩ := Result.bind_eq_ok.1 h
    obtain rfl := Except.ok.inj h
    refine ⟨?_, ?_, ?_⟩
    · exact congrArg (fun ds : List Dict => some (Value.list (ds.map .dict)))
        (dicts_map issues).symm
    · exact congrArg some (rowsOf_eq buildGateRow (env.get "gates"))
    · intro k hk
      simp only [List.mem_cons, List.not_mem_nil, or_false] at hk
      rcases hk with rfl | rfl | rfl <;> rfl

/-- The report with other issues and gates. -/
def withRows (payload : Dict) (issues gates : List Dict) : Dict :=
  Assoc.set (Assoc.set payload "issues" (.list (issues.map .dict))) "gates"
    (.list (gates.map .dict))

section

variable {payload filtered : Dict} {issues gates issues' gates' : List Dict}
  {threshold : Option ℕ} {numbers : Option (List ℤ)}

theorem ReportShaped.get_eq (h : ReportShaped payload issues gates) :
    payload.get "issues" = .list (issues.map .dict) ∧
      payload.get "gates" = .list (gates.map .dict) :=
  ⟨Dict.get_of_get? h.issues, Dict.get_of_get? h.gates⟩

theorem ReportShaped.withRows (h : ReportShaped payload issues gates) :
    ReportShaped (withRows payload issues' gates') issues' gates' := by
  refine ⟨?_, ?_, fun k hk => ?_⟩
  · rw [CodeReview.withRows, Assoc.get?_set, if_neg (by decide), Assoc.get?_set, if_pos rfl]
  · rw [CodeReview.withRows, Assoc.get?_set, if_pos rfl]
  · rw [CodeReview.withRows, Assoc.get?_set, if_neg, Assoc.get?_set, if_neg, h.others k hk]
    all_goals
      rintro rfl
      exact absurd hk (by decide)

/-- Other rows replace other rows. -/
theorem withRows_withRows (issues₁ gates₁ issues₂ gates₂ : List Dict) :
    CodeReview.withRows (CodeReview.withRows payload issues₁ gates₁) issues₂ gates₂ =
      CodeReview.withRows payload issues₂ gates₂ := by
  have hissues : (Assoc.get? (Assoc.set payload "issues" (.list (issues₁.map .dict)))
      "issues").isSome = true := by
    rw [Assoc.get?_set, if_pos rfl]
    rfl
  rw [CodeReview.withRows, CodeReview.withRows, CodeReview.withRows,
    ← Assoc.set_comm (by decide) hissues, Assoc.set_set, Assoc.set_set]

theorem applySeverity_eq (h : ReportShaped payload issues gates) {t : ℕ}
    (happly : applySeverity payload t = .ok filtered) :
    filtered = Assoc.set payload "issues"
      (.list ((issues.filter (meetsSeverity (some t))).map .dict)) := by
  obtain ⟨source, hsource, hrest⟩ := Result.bind_eq_ok.1 happly
  obtain ⟨found, hfound, hdone⟩ := Result.bind_eq_ok.1 hrest
  have hnone (k : String) (hk : k ∈ ["findings", "_meta", "severity_counts"]) :
      payload.get k = .none := by
    rw [Dict.get, h.others k hk]
    rfl
  have hrows : dicts source = issues := by
    rw [h.get_eq.1, hnone "findings" (by decide)] at hsource
    cases issues with
    | nil =>
      obtain rfl := Except.ok.inj hsource
      rfl
    | cons issue rest =>
      obtain rfl := Except.ok.inj hsource
      exact dicts_map (issue :: rest)
  have hfound' := keepSeverity_eq hfound
  rw [hrows] at hfound'
  have hissues : setIfList payload "issues" (found.map .dict) payload =
      Assoc.set payload "issues" (.list (found.map .dict)) := by
    rw [setIfList, h.get_eq.1]
  have hfindings (d : Dict) : setIfList payload "findings" (found.map .dict) d = d := by
    rw [setIfList, hnone "findings" (by decide)]
  have hmeta : Dict.get (Assoc.set payload "issues" (.list (found.map .dict))) "_meta" = .none := by
    rw [Dict.get_set, if_neg (by decide), hnone "_meta" (by decide)]
  have hcounts : payload.has "severity_counts" = false := by
    rw [Dict.has, h.others "severity_counts" (by decide)]
    rfl
  simp only [hissues, hfindings, hmeta, hcounts, Result.pure_eq_ok] at hdone
  rw [← Except.ok.inj hdone, hfound']
  rfl

theorem meetsSeverity_none (fs : List Dict) : fs.filter (meetsSeverity none) = fs :=
  List.filter_eq_self.2 fun _ _ => rfl

/-- **A filtered report is the report with the rows that the filters keep.** -/
theorem applyScopeFilters_eq (h : ReportShaped payload issues gates)
    (happly : applyScopeFilters payload threshold numbers = .ok filtered) :
    filtered = withRows payload (issues.filter (meetsSeverity threshold))
      (gates.filter (meetsGates numbers)) := by
  obtain ⟨first, hfirst, happly⟩ := Result.bind_eq_ok.1 happly
  have hfirst' : first = Assoc.set payload "issues"
      (.list ((issues.filter (meetsSeverity threshold)).map .dict)) := by
    cases threshold with
    | none =>
      rw [meetsSeverity_none, Assoc.set_of_get? h.issues]
      exact (Except.ok.inj hfirst).symm
    | some t => exact applySeverity_eq h hfirst
  have hgates : Assoc.get? first "gates" = some (.list (gates.map .dict)) := by
    rw [hfirst', Assoc.get?_set, if_neg (by decide), h.gates]
  rw [withRows, ← hfirst']
  have hall : gates.filter (meetsGates none) = gates := List.filter_eq_self.2 fun _ _ => rfl
  match numbers with
  | none =>
    obtain rfl := Except.ok.inj happly
    rw [hall, Assoc.set_of_get? hgates]
  | some [] =>
    obtain rfl := Except.ok.inj happly
    have hempty : gates.filter (meetsGates (some [])) = gates := hall
    rw [hempty, Assoc.set_of_get? hgates]
  | some (n :: ns) =>
    obtain ⟨source, hsource, hrest⟩ := Result.bind_eq_ok.1 happly
    obtain ⟨kept, hkept, hdone⟩ := Result.bind_eq_ok.1 hrest
    rw [h.get_eq.2, Value.list_or_nil, Value.iter_list] at hsource
    obtain rfl := Except.ok.inj hsource
    rw [dicts_map] at hkept
    rw [← Except.ok.inj hdone, keepGates_eq (List.cons_ne_nil n ns) hkept]

end

/-- **The filters of a report keep the issues of the severity or more and the gates named, in their
order, and nothing else changes; filtering again keeps what both filters keep.** -/
theorem applyScopeFilters_spec {total : ℕ} {env payload filtered : Dict} {threshold : Option ℕ}
    {numbers : Option (List ℤ)} (hbuilt : buildReportPayload rt total env = .ok payload)
    (h : applyScopeFilters payload threshold numbers = .ok filtered) :
    rowsAt filtered "issues" = (rowsAt payload "issues").filter (meetsSeverity threshold) ∧
      rowsAt filtered "gates" = (rowsAt payload "gates").filter (meetsGates numbers) ∧
      (∀ k, k ≠ "issues" → k ≠ "gates" → Assoc.get? filtered k = Assoc.get? payload k) ∧
      ∀ threshold' numbers' again,
        applyScopeFilters filtered threshold' numbers' = .ok again →
          again = withRows payload
            ((rowsAt payload "issues").filter fun f =>
              meetsSeverity threshold f && meetsSeverity threshold' f)
            ((rowsAt payload "gates").filter fun g =>
              meetsGates numbers g && meetsGates numbers' g) := by
  have hshape := reportShaped_of_built hbuilt
  have hfiltered := applyScopeFilters_eq hshape h
  have hshape' : ReportShaped filtered _ _ := hfiltered ▸ hshape.withRows
  refine ⟨?_, ?_, fun k hissues hgates => ?_, fun threshold' numbers' again hagain => ?_⟩
  · rw [rowsAt_list hshape'.get_eq.1, dicts_map]
  · rw [rowsAt_list hshape'.get_eq.2, dicts_map]
  · rw [hfiltered, withRows, Assoc.get?_set, if_neg (Ne.symm hgates), Assoc.get?_set,
      if_neg (Ne.symm hissues)]
  · rw [applyScopeFilters_eq hshape' hagain, hfiltered, withRows_withRows, List.filter_filter,
      List.filter_filter]
    congr 2
    · funext f
      exact Bool.and_comm ..
    · funext g
      exact Bool.and_comm ..

/-- The end of a review with a critical and a minor finding, a failed gate and a passed one. -/
def gatedReview : Dict :=
  [("verdict", "NO-GO"),
    ("findings", .list [
      .dict [("severity", "critical"), ("winner", "a"), ("file", "x"), ("line", .int 3),
        ("title", "t"), ("impact", "i"), ("fix", "f")],
      .dict [("severity", "minor"), ("winner", "b"), ("file", "y"), ("line", .int 5),
        ("title", "u"), ("impact", "j"), ("fix", "g")]]),
    ("gates", .list [
      .dict [("number", .int 1), ("name", "n"), ("status", "FAIL"), ("blocker_count", .int 1)],
      .dict [("number", .int 2), ("name", "m"), ("status", "PASS"), ("blocker_count", .int 0)]])]

theorem applyScopeFilters_spec_small :
    ∃ payload filtered, buildReportPayload .ascii 0 gatedReview = .ok payload ∧
      applyScopeFilters payload (some 2) (some [1]) = .ok filtered ∧
      (rowsAt payload "issues").length = 2 ∧ (rowsAt payload "gates").length = 2 ∧
      rowsAt filtered "issues" = (rowsAt payload "issues").filter (meetsSeverity (some 2)) ∧
      rowsAt filtered "gates" = (rowsAt payload "gates").filter (meetsGates (some [1])) := by
  have hspec := @applyScopeFilters_spec .ascii 0 gatedReview _ _ (some 2) (some [1]) rfl rfl
  exact ⟨_, _, rfl, rfl, rfl, rfl, hspec.1, hspec.2.1⟩

end CodeReview
