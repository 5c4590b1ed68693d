import CodeReview.Dispatch.Dispatchers
import CodeReview.Handlers.Report
import CodeReview.Tracker.Score

/-!
# The labels of findings

The calibrator learns from labelled findings.  `build_judge_input_prod.py` shows the issues of a
report to the judge as bare texts and keeps their confidence and severity aside; the judge answers
with the positions that match a golden; `ingest_verdicts.py` joins the two by position and writes a
row for every finding into the tracker.

* `judgeInput_aligned` : the text at a position and the label at that position are of one issue;
* `isCorrectness_iff_strong` : the scoped issues are those of the leaves that the dispatch routes to
  the strong tier;
* `labels_sound` : **after any ingests, a labelled row is about a finding of a judged review, shown
  to the judge at the position that the row's label was joined on**;
* `labels_complete` : every finding that the judge was shown last has such a row;
* `labels_joined` : **labels and findings are joined by position.**
-/

namespace CodeReview

open Py

/-! ### The judge input -/

/-- `_CORRECTNESS_RE`: the ids that start so. -/
def correctnessPrefixes : List String :=
  ["sec-", "lang-", "fw-", "orm-", "footgun-", "reliability-", "data-"]

/-- `_CORRECTNESS_EXTRA`. -/
def correctnessExtra : List String := ["principle-fail-fast"]

/-- `_is_correctness`. -/
def isCorrectness (issue : Dict) : Result Bool := do
  match (issue.getD "reviewer_id" (.str "")).or (issue.getD "specialist" (.str "")) with
  | .str spec =>
    if correctnessPrefixes.any (Text.startsWith spec) || spec ∈ correctnessExtra then return true
    else if ← hasDimension "security" (issue.get "dimensions") then return true
    else hasDimension "correctness" (issue.get "dimensions")
  | _ => throw .typeError

/-- `v or ""`, which is concatenated. -/
def textOrEmpty (v : Value) : Result String :=
  (v.or (.str "")).asStr?.elim (.error .typeError) .ok

/-- `_text`. -/
def issueText (i : Dict) : Result String := do
  let title ← textOrEmpty (i.get "title")
  let description ← textOrEmpty (i.get "description")
  return Text.strip (title ++ ". " ++ description)

/-- The label of an issue, as the judge input carries it. -/
def issueLabel (i : Dict) (idx : ℕ) : Dict :=
  [("defect_confidence", i.get "confidence"), ("severity", i.get "severity"), ("idx", .int idx)]

/-- `_skill_meta`. -/
def skillMeta (issues : List Dict) : Value :=
  .list (issues.zipIdx.map fun i => .dict (issueLabel i.1 i.2))

/-- The issues that count as scoped. -/
def isScoped (i : Dict) : Result Bool :=
  if (i.get "severity").eqv (.str "critical") || (i.get "severity").eqv (.str "important") then
    isCorrectness i
  else .ok false

/-- `skill_issue_sets`. -/
def skillIssueSets (issues : List Dict) : Result (List (String × List Dict)) := do
  let inScope ← Result.filter? isScoped issues
  return [("skill-prod", issues),
    ("skill-prod-primary", issues.filter fun i => (i.get "primary").truthy),
    ("skill-prod-scoped", inScope)]

/-- `COMPETITORS`. -/
def competitors : List String :=
  ["coderabbit", "greptile-v4-1", "bugbot", "copilot", "graphite", "macroscope", "cubic-v2"]

/-- The entry of a pull request in the index of the benchmark. -/
structure IndexEntry where
  originalKey : Value
  lang : Value
  golden : List Value

/-- The candidates of the competitors; one without a text is left out. -/
def competitorTools (comp : List (String × List String)) : Dict :=
  competitors.filterMap fun t =>
    (Assoc.get? comp t).map fun texts => (t, ofStrs (texts.filter (· ≠ "")))

/-- The candidates of a skill tool, `_skill_candidates`. -/
def skillTool (set : String × List Dict) : Result (String × Value) := do
  return (set.1, ofStrs (← set.2.mapM issueText))

/-- The judge input of a pull request, with the issues of its report. -/
def judgeInput (prId : String) (entry : IndexEntry) (comp : List (String × List String))
    (issues : List Dict) : Result Dict := do
  let sets ← skillIssueSets issues
  let tools ← sets.mapM skillTool
  return [("pr_id", .str prId), ("original_key", entry.originalKey), ("lang", entry.lang),
    ("n_issues_prod", .int issues.length), ("golden", .list entry.golden),
    ("tools", .dict (Assoc.update tools (competitorTools comp))),
    ("skill_meta", .dict (sets.map fun set => (set.1, skillMeta set.2)))]

/-! ### The rows -/

/-- `SKILL_TOOL_PREFIX`. -/
def skillToolPrefix : String := "skill-"

/-- `_is_skill_tool`. -/
def isSkillTool (name : String) (verdict : Dict) : Bool :=
  Text.startsWith name skillToolPrefix || Dict.has verdict "matched"

/-- A row of the `findings` table; `none` is NULL. -/
structure FindingRow where
  runId : String
  prId : String
  tool : String
  findingIdx : ℕ
  defectConfidence : Option Double
  severity : Option String
  isMatched : Bool
  goldenCount : ℕ
  deriving DecidableEq, Repr

/-- The columns of the primary key. -/
abbrev FindingKey := String × String × String × ℕ

/-- The primary key of a row. -/
def FindingRow.key (row : FindingRow) : FindingKey :=
  (row.runId, row.prId, row.tool, row.findingIdx)

/-- The table. -/
abbrev FindingTable := OrdMap FindingKey FindingRow

section

variable (rt : Runtime)

/-- `float(conf) if isinstance(conf, int | float) else None`. -/
def labelConfidence (v : Value) : Result (Option Double) :=
  if v.num?.isSome then some <$> rt.toFloat v else .ok none

/-- `str(sev) if sev is not None else None`. -/
def labelSeverity (v : Value) : Option String := if v.isNone then none else some (rt.str v)

/-- `_label_from_meta`. -/
def labelFromMeta : Value → Result (Option Double × Option String)
  | .dict d => do
    return (← labelConfidence rt (Dict.get d "defect_confidence"),
      labelSeverity rt (Dict.get d "severity"))
  | _ => .ok (none, none)

/-- The positions that the judge listed. -/
def matchedIndices (tv : Dict) : Result (List ℤ) := do
  (← (tv.getD "matched" (.list [])).iter).mapM rt.toInt

/-- The row of a candidate. -/
def findingRow (runId prId tool : String) (goldenCount : ℕ) (listed : List ℤ)
    (labels : List Value) (cand : Value × ℕ) : Result FindingRow := do
  let (conf, sev) ← labelFromMeta rt (labels.getD cand.2 cand.1)
  return ⟨runId, prId, tool, cand.2, conf, sev, (cand.2 : ℤ) ∈ listed, goldenCount⟩

/-- The rows of a tool of the verdict. -/
def rowsForTool (runId prId : String) (goldenCount : ℕ) (input : Dict) (entry : String × Value) :
    Result (List FindingRow) := do
  match entry.2 with
  | .dict tv =>
    if isSkillTool entry.1 tv then
      let listed ← matchedIndices rt tv
      let inTools ← (input.getD "tools" (.dict [])).asDict?.elim (.error .attributeError) .ok
      let candidates ← (inTools.getD entry.1 (.list [])).iter
      let skillLabels ← (input.getD "skill_meta" (.dict [])).asDict?.elim
        (.error .attributeError) .ok
      let labels ← (skillLabels.getD entry.1 (.list [])).asList?.elim (.error .typeError) .ok
      candidates.zipIdx.mapM (findingRow rt runId prId entry.1 goldenCount listed labels)
    else return []
  | _ => return []

/-- `rows_for_pr`, with what the two files hold. -/
def rowsForPr (runId prId : String) (verdict : Value) (input : Dict) :
    Result (List FindingRow) := do
  let goldenCount ← (input.getD "golden" (.list [])).len?
  let tools ← toolVerdicts verdict
  return (← tools.mapM (rowsForTool rt runId prId goldenCount input)).flatten

/-- A float as the database binds it: NaN is NULL. -/
def boundReal (x : Option Double) : Option Double := x.filter fun x => x ≠ .nan

/-- The row as it is stored. -/
def FindingRow.stored (row : FindingRow) : FindingRow :=
  { row with defectConfidence := boundReal row.defectConfidence }

/-- `INSERT OR REPLACE`, for every row. -/
def writeFindings (table : FindingTable) (rows : List FindingRow) : FindingTable :=
  rows.foldl (fun table row => table.set row.key row.stored) table

/-! ### A judged review -/

/-- A review of a pull request that was judged: the environment that its report was built from, and
the verdict of the judge. -/
structure JudgedReview where
  runId : String
  prId : String
  entry : IndexEntry
  comp : List (String × List String)
  env : Dict
  verdict : Value
  /-- A JSON object has a key once. -/
  nodup : ∀ tools, toolVerdicts verdict = .ok tools → (tools.map Prod.fst).Nodup

/-- What the judge was shown: the issues of the report. -/
def JudgedReview.input (j : JudgedReview) : Result Dict := do
  judgeInput j.prId j.entry j.comp (← buildIssues rt (ensureList (j.env.get "findings")))

/-- The rows of the review. -/
def JudgedReview.rows (j : JudgedReview) : Result (List FindingRow) := do
  rowsForPr rt j.runId j.prId j.verdict (← j.input rt)

/-- The ingests of some reviews, one after the other. -/
def ingestAll (table : FindingTable) (js : List JudgedReview) : Result FindingTable :=
  js.foldlM (fun table j => return writeFindings table (← j.rows rt)) table

end

variable {rt : Runtime}

/-! ### The sets of issues -/

/-- The scoped issues are those of the leaves that the dispatch routes to the strong tier. -/
theorem isCorrectness_iff_strong {issue : Dict} {spec tier : String}
    (hspec : (issue.getD "reviewer_id" (.str "")).or
      (issue.getD "specialist" (.str "")) = .str spec)
    (h : routeTier spec (issue.get "dimensions") = .ok tier) :
    isCorrectness issue = .ok (decide (tier = "strong")) := by
  obtain ⟨security, hsecurity, h⟩ := Result.bind_eq_ok.1 h
  have hextra : spec ∈ correctnessExtra ↔ spec = "principle-fail-fast" := List.mem_singleton
  rw [isCorrectness, hspec]
  by_cases hid : correctnessPrefixes.any (Text.startsWith spec) = true ∨
      spec = "principle-fail-fast"
  · -- the id decides, whatever the dimensions are
    have hstrong (b : Bool) : (b || strongPrefixes.any (Text.startsWith spec) ||
        decide (spec = "principle-fail-fast")) = true := by
      rw [Bool.or_assoc, Bool.or_eq_true, Bool.or_eq_true, decide_eq_true_eq]
      exact .inr hid
    have htier : tier = "strong" := by
      cases security with
      | true => exact (Except.ok.inj ((if_pos (hstrong true)).symm.trans h)).symm
      | false =>
        obtain ⟨correctness, -, h⟩ := Result.bind_eq_ok.1 h
        exact (Except.ok.inj ((if_pos (hstrong correctness)).symm.trans h)).symm
    rw [htier]
    exact if_pos (by simpa [hextra] using hid)
  · have hstrong (b : Bool) : (b || strongPrefixes.any (Text.startsWith spec) ||
        decide (spec = "principle-fail-fast")) = b := by
      obtain ⟨hstarts, hff⟩ := not_or.1 hid
      have hstarts : strongPrefixes.any (Text.startsWith spec) = false :=
        Bool.eq_false_iff.2 hstarts
      rw [hstarts, decide_eq_false hff, Bool.or_false, Bool.or_false]
    refine (if_neg (by simpa [hextra] using hid)).trans ?_
    rw [hsecurity, Result.ok_bind]
    cases security with
    | true =>
      have htier := Except.ok.inj ((if_pos (hstrong true)).symm.trans h)
      rw [← htier]
      rfl
    | false =>
      obtain ⟨correctness, hcorrectness, h⟩ := Result.bind_eq_ok.1 h
      refine Eq.trans hcorrectness ?_
      cases correctness with
      | true =>
        have htier := Except.ok.inj ((if_pos (hstrong true)).symm.trans h)
        rw [← htier]
        rfl
      | false =>
        have htier := Except.ok.inj
          ((if_neg (by rw [hstrong]; exact Bool.false_ne_true)).symm.trans h)
        rw [← htier]
        rfl

/-- The tools that stand for a set of issues. -/
def skillSetNames : List String := ["skill-prod", "skill-prod-primary", "skill-prod-scoped"]

theorem skillIssueSets_spec {issues : List Dict} {sets : List (String × List Dict)}
    (h : skillIssueSets issues = .ok sets) :
    sets.map Prod.fst = skillSetNames ∧ ∀ set ∈ sets, ∀ issue ∈ set.2, issue ∈ issues := by
  obtain ⟨inScope, hscoped, h⟩ := Result.bind_eq_ok.1 h
  obtain rfl := Except.ok.inj h
  refine ⟨rfl, ?_⟩
  simp only [List.forall_mem_cons]
  refine ⟨fun issue hissue => hissue, fun issue hissue => List.mem_of_mem_filter hissue,
    Result.mem_of_filter? hscoped, fun set hset => nomatch hset⟩

/-- The candidates of a set are its texts. -/
theorem get?_skillTools {sets : List (String × List Dict)} {tools : Dict}
    (h : sets.mapM skillTool = .ok tools) (tool : String) :
    (Assoc.get? sets tool = none ∧ Assoc.get? tools tool = none) ∨
      ∃ set texts, Assoc.get? sets tool = some set ∧ set.mapM issueText = .ok texts ∧
        Assoc.get? tools tool = some (ofStrs texts) := by
  induction sets generalizing tools with
  | nil =>
    obtain rfl := Except.ok.inj h
    exact .inl ⟨rfl, rfl⟩
  | cons set sets ih =>
    rw [List.mapM_cons] at h
    obtain ⟨first, hfirst, h⟩ := Result.bind_eq_ok.1 h
    obtain ⟨rest, hrest, h⟩ := Result.bind_eq_ok.1 h
    obtain rfl := Except.ok.inj h
    obtain ⟨texts, htexts, hfirst⟩ := Result.bind_eq_ok.1 hfirst
    obtain rfl := Except.ok.inj hfirst
    rw [Assoc.get?_cons, Assoc.get?_cons]
    by_cases hname : set.1 = tool
    · rw [if_pos hname, if_pos hname]
      exact .inr ⟨_, texts, rfl, htexts, rfl⟩
    · rw [if_neg hname, if_neg hname]
      exact ih hrest

/-- The labels of a set are those of its issues. -/
theorem get?_skillMeta (sets : List (String × List Dict)) (tool : String) :
    Assoc.get? (sets.map fun set => (set.1, skillMeta set.2)) tool =
      (Assoc.get? sets tool).map skillMeta := by
  induction sets with
  | nil => rfl
  | cons set sets ih =>
    rw [List.map_cons, Assoc.get?_cons, Assoc.get?_cons, ih]
    split_ifs <;> rfl

/-! ### What the judge is shown -/

/-- The competitors' candidates are bare texts, under their own names. -/
theorem competitorTools_spec (comp : List (String × List String)) :
    ((competitorTools comp).map Prod.fst).Nodup ∧ ∀ tool v, (tool, v) ∈ competitorTools comp →
      tool ∈ competitors ∧ ∃ texts, v = ofStrs texts := by
  constructor
  · have hkeys : (competitorTools comp).map Prod.fst =
        competitors.filter fun t => (Assoc.get? comp t).isSome := by
      rw [competitorTools]
      induction competitors with
      | nil => rfl
      | cons t ts ih =>
        cases hget : Assoc.get? comp t with
        | none => simpa [hget] using ih
        | some texts => simpa [hget] using ih
    rw [hkeys]
    exact List.Nodup.filter _ (by decide)
  · intro tool v hmem
    obtain ⟨t, ht, heq⟩ := List.mem_filterMap.1 hmem
    obtain ⟨texts, -, heq⟩ := Option.map_eq_some_iff.1 heq
    obtain ⟨rfl, rfl⟩ := Prod.mk.inj heq
    exact ⟨ht, _, rfl⟩

/-- The candidates of a tool. -/
def candidatesOf (input : Dict) (tool : String) : List Value :=
  ((ensureDict (input.getD "tools" (.dict []))).getD tool (.list [])).iter.toOption.getD []

/-- The labels of a tool. -/
def labelsOf (input : Dict) (tool : String) : List Value :=
  ensureList ((ensureDict (input.getD "skill_meta" (.dict []))).getD tool (.list []))

/-- The text and the label at a position are of one issue; a competitor has texts only. -/
inductive Aligned (issues : List Dict) (tool : String) (candidates labels : List Value) : Prop
  | skill (set : List Dict) (texts : List String) (name : tool ∈ skillSetNames)
      (reported : ∀ issue ∈ set, issue ∈ issues) (shown : set.mapM issueText = .ok texts)
      (candidates_eq : candidates = texts.map .str)
      (labels_eq : labels = set.zipIdx.map fun i => .dict (issueLabel i.1 i.2))
  | other (texts : List String) (name : tool ∉ skillSetNames)
      (candidates_eq : candidates = texts.map .str) (labels_eq : labels = [])

/-- Where a text stands, the label is that of the issue with the text; a competitor has none. -/
theorem Aligned.at_position {issues : List Dict} {tool : String} {candidates labels : List Value}
    (h : Aligned issues tool candidates labels) {cand : Value} {idx : ℕ}
    (hcand : candidates[idx]? = some cand) :
    (∃ issue ∈ issues, ∃ text, issueText issue = .ok text ∧ cand = .str text ∧
        labels.getD idx cand = .dict (issueLabel issue idx)) ∨
      tool ∉ skillSetNames ∧ ∃ text, labels.getD idx cand = .str text := by
  cases h with
  | skill set texts _ hreported htexts hcandidates hlabels =>
    rw [hcandidates, List.getElem?_map] at hcand
    obtain ⟨text, htext, rfl⟩ := Option.map_eq_some_iff.1 hcand
    obtain ⟨hlength, halike⟩ := List.forall₂_iff_get.1 (Result.mapM_eq_ok.1 htexts)
    obtain ⟨hidx, htextAt⟩ := List.getElem?_eq_some_iff.1 htext
    have hset : idx < set.length := hlength.symm ▸ hidx
    have hissue : issueText set[idx] = .ok text := htextAt ▸ halike idx hset hidx
    refine .inl ⟨set[idx], hreported _ (List.getElem_mem hset), text, hissue, rfl, ?_⟩
    rw [hlabels]
    simp [hset]
  | other texts hname hcandidates hlabels =>
    rw [hcandidates, List.getElem?_map] at hcand
    obtain ⟨text, -, rfl⟩ := Option.map_eq_some_iff.1 hcand
    exact .inr ⟨hname, text, by rw [hlabels]; rfl⟩

section

variable {prId : String} {entry : IndexEntry} {comp : List (String × List String)}
  {issues : List Dict} {input : Dict}

theorem judgeInput_aligned (h : judgeInput prId entry comp issues = .ok input) (tool : String) :
    Aligned issues tool (candidatesOf input tool) (labelsOf input tool) := by
  obtain ⟨sets, hsets, h⟩ := Result.bind_eq_ok.1 h
  obtain ⟨tools, htools, h⟩ := Result.bind_eq_ok.1 h
  have hinput := Except.ok.inj h
  obtain ⟨hnames, hreported⟩ := skillIssueSets_spec hsets
  obtain ⟨hnodup, hcompetitor⟩ := competitorTools_spec comp
  have hcandidates : candidatesOf input tool = (((Assoc.get? (competitorTools comp) tool).or
      (Assoc.get? tools tool)).getD (.list [])).iter.toOption.getD [] := by
    rw [← hinput, ← Assoc.get?_update_of_nodup tools hnodup tool]
    rfl
  have hlabels : labelsOf input tool = ensureList
      (((Assoc.get? sets tool).map skillMeta).getD (.list [])) := by
    rw [← hinput, ← get?_skillMeta]
    rfl
  rw [hcandidates, hlabels]
  have hname : tool ∈ skillSetNames ↔ (Assoc.get? sets tool).isSome := by
    rw [Assoc.get?_isSome_iff, hnames]
  obtain ⟨hnone, hnotool⟩ | ⟨set, texts, hset, htexts, htool⟩ := get?_skillTools htools tool
  · rw [hnone, hnotool, Option.or_none]
    rw [hnone] at hname
    cases hget : Assoc.get? (competitorTools comp) tool with
    | none => exact .other [] (by simp [hname]) rfl rfl
    | some v =>
      obtain ⟨-, texts, rfl⟩ := hcompetitor tool v (Assoc.mem_of_get? hget)
      exact .other texts (by simp [hname]) rfl rfl
  · rw [hset] at hname ⊢
    have hskill : tool ∈ skillSetNames := hname.2 rfl
    have hget : Assoc.get? (competitorTools comp) tool = none := by
      rw [Assoc.get?_eq_none_iff]
      intro hmem
      obtain ⟨kv, hkv, rfl⟩ := List.mem_map.1 hmem
      have hdisjoint : ∀ t ∈ skillSetNames, t ∉ competitors := by decide
      exact hdisjoint _ hskill (hcompetitor kv.1 kv.2 hkv).1
    rw [hget, htool]
    exact .skill set texts hskill (hreported (tool, set) (Assoc.mem_of_get? hset)) htexts rfl rfl

end

/-! ### The rows of a review -/

/-- The verdict on a tool. -/
def JudgedReview.entryOf (j : JudgedReview) (tool : String) : Option Value :=
  (toolVerdicts j.verdict).toOption.bind (Assoc.get? · tool)

/-- The row is about the finding: the judge was shown the finding at the position that the row has,
and the verdict and the label are those of that position. -/
structure JudgedReview.Labels (rt : Runtime) (j : JudgedReview) (row : FindingRow)
    (finding : Dict) : Prop where
  runId : row.runId = j.runId
  prId : row.prId = j.prId
  reported : .dict finding ∈ ensureList (j.env.get "findings")
  shown : ∃ input text, j.input rt = .ok input ∧ issueText finding = .ok text ∧
    (candidatesOf input row.tool)[row.findingIdx]? = some (.str text)
  judged : ∃ tv listed, j.entryOf row.tool = some (.dict tv) ∧ matchedIndices rt tv = .ok listed ∧
    row.isMatched = decide ((row.findingIdx : ℤ) ∈ listed)
  confidence : ∃ conf, labelConfidence rt
    (finding.getD "defect_confidence" (finding.get "confidence")) = .ok conf ∧
      row.defectConfidence = boundReal conf
  severity : row.severity = labelSeverity rt (finding.get "severity")
  goldenCount : row.goldenCount = j.entry.golden.length

/-- The text and the label of an issue are those of its finding. -/
theorem labels_buildIssue {finding issue : Dict} {idx : ℕ}
    (h : buildIssue rt finding idx = .ok issue) : issueText issue = issueText finding ∧
      issue.get "confidence" = finding.getD "defect_confidence" (finding.get "confidence") ∧
      issue.get "severity" = finding.get "severity" := by
  obtain ⟨known, -, h⟩ := Result.bind_eq_ok.1 h
  cases known with
  | false => cases h
  | true =>
    obtain ⟨corroboration, -, h⟩ := Result.bind_eq_ok.1 h
    obtain rfl := Except.ok.inj h
    exact ⟨rfl, rfl, rfl⟩

theorem finding_of_issue {findings : List Value} {issues : List Dict}
    (h : buildIssues rt findings = .ok issues) {issue : Dict} (hissue : issue ∈ issues) :
    ∃ finding idx, .dict finding ∈ findings ∧ buildIssue rt finding idx = .ok issue := by
  obtain ⟨f, hf, hbuild⟩ := Result.exists_of_mapM_right h hissue
  obtain ⟨⟨v, idx⟩, hv, heq⟩ := List.mem_filterMap.1 hf
  obtain ⟨d, hd, rfl⟩ := Option.map_eq_some_iff.1 heq
  cases v with
  | dict kvs =>
    obtain rfl := Option.some.inj hd
    exact ⟨kvs, idx, List.fst_mem_of_mem_zipIdx hv, hbuild⟩
  | _ => cases hd

theorem ensureDict_of_elim {v : Value} {d : Dict} {exc : Exc}
    (h : v.asDict?.elim (.error exc) .ok = (.ok d : Result Dict)) : ensureDict v = d := by
  cases v with
  | dict kvs => exact Except.ok.inj h
  | _ => cases h

theorem ensureList_of_elim {v : Value} {xs : List Value} {exc : Exc}
    (h : v.asList?.elim (.error exc) .ok = (.ok xs : Result (List Value))) : ensureList v = xs := by
  cases v with
  | list ys => exact Except.ok.inj h
  | _ => cases h

/-- A tool has a row for every candidate, when the verdict on it is a mapping that says so. -/
theorem rowsForTool_spec {runId prId : String} {goldenCount : ℕ} {input : Dict}
    {entry : String × Value} {rows : List FindingRow}
    (h : rowsForTool rt runId prId goldenCount input entry = .ok rows) :
    (rows = [] ∧ ∀ tv, entry.2 = .dict tv → isSkillTool entry.1 tv = false) ∨
      ∃ tv listed, entry.2 = .dict tv ∧ matchedIndices rt tv = .ok listed ∧
        (candidatesOf input entry.1).zipIdx.mapM
          (findingRow rt runId prId entry.1 goldenCount listed
            (labelsOf input entry.1)) = .ok rows := by
  obtain ⟨tool, verdict⟩ := entry
  cases verdict with
  | dict tv =>
    by_cases hskill : isSkillTool tool tv = true
    · replace h := (if_pos hskill).symm.trans h
      obtain ⟨listed, hlisted, h⟩ := Result.bind_eq_ok.1 h
      obtain ⟨inTools, htools, h⟩ := Result.bind_eq_ok.1 h
      obtain ⟨candidates, hcandidates, h⟩ := Result.bind_eq_ok.1 h
      obtain ⟨skillLabels, hskillLabels, h⟩ := Result.bind_eq_ok.1 h
      obtain ⟨labels, hlabels, h⟩ := Result.bind_eq_ok.1 h
      have hshown : candidatesOf input tool = candidates := by
        rw [candidatesOf, ensureDict_of_elim htools, hcandidates]
        rfl
      have hkept : labelsOf input tool = labels := by
        rw [labelsOf, ensureDict_of_elim hskillLabels, ensureList_of_elim hlabels]
      refine .inr ⟨tv, listed, rfl, hlisted, ?_⟩
      rw [hshown, hkept]
      exact h
    · have hskill := Bool.eq_false_iff.2 hskill
      refine .inl ⟨Except.ok.inj ((if_neg (by simp [hskill])).symm.trans h).symm, ?_⟩
      intro tv' htv
      rwa [← Value.dict.inj htv]
  | _ => exact .inl ⟨(Except.ok.inj h).symm, fun tv htv => nomatch htv⟩

/-- The row of a candidate. -/
theorem findingRow_spec {runId prId tool : String} {goldenCount : ℕ} {listed : List ℤ}
    {labels : List Value} {cand : Value × ℕ} {row : FindingRow}
    (h : findingRow rt runId prId tool goldenCount listed labels cand = .ok row) :
    labelFromMeta rt (labels.getD cand.2 cand.1) = .ok (row.defectConfidence, row.severity) ∧
      row = ⟨runId, prId, tool, cand.2, row.defectConfidence, row.severity,
        decide ((cand.2 : ℤ) ∈ listed), goldenCount⟩ := by
  obtain ⟨⟨conf, sev⟩, hlabel, h⟩ := Result.bind_eq_ok.1 h
  obtain rfl := Except.ok.inj h
  exact ⟨hlabel, rfl⟩

section

variable {j : JudgedReview} {rows : List FindingRow}

/-- The rows are those of the tools that the verdict has an entry for. -/
theorem rows_spec (h : j.rows rt = .ok rows) :
    ∃ issues input, buildIssues rt (ensureList (j.env.get "findings")) = .ok issues ∧
      j.input rt = .ok input ∧ judgeInput j.prId j.entry j.comp issues = .ok input ∧
      (∀ row ∈ rows, ∃ tool v toolRows, j.entryOf tool = some v ∧ row ∈ toolRows ∧
        rowsForTool rt j.runId j.prId j.entry.golden.length input (tool, v) = .ok toolRows) ∧
      ∀ tool v, j.entryOf tool = some v → ∃ toolRows, toolRows ⊆ rows ∧
        rowsForTool rt j.runId j.prId j.entry.golden.length input (tool, v) = .ok toolRows := by
  obtain ⟨input, hinput, h⟩ := Result.bind_eq_ok.1 h
  obtain ⟨issues, hissues, haligned⟩ := Result.bind_eq_ok.1 hinput
  obtain ⟨goldenCount, hgolden, h⟩ := Result.bind_eq_ok.1 h
  obtain ⟨tools, htools, h⟩ := Result.bind_eq_ok.1 h
  obtain ⟨rowss, hrowss, h⟩ := Result.bind_eq_ok.1 h
  obtain rfl := Except.ok.inj h
  have hcount : goldenCount = j.entry.golden.length := by
    obtain ⟨sets, -, h⟩ := Result.bind_eq_ok.1 haligned
    obtain ⟨tools, -, h⟩ := Result.bind_eq_ok.1 h
    obtain rfl := Except.ok.inj h
    exact (Except.ok.inj hgolden).symm
  rw [hcount] at hrowss
  have hentry (tool : String) (v : Value) : j.entryOf tool = some v ↔ (tool, v) ∈ tools := by
    rw [JudgedReview.entryOf, htools]
    exact ⟨Assoc.mem_of_get?, Assoc.get?_of_mem (j.nodup tools htools)⟩
  refine ⟨issues, input, hissues, hinput, haligned, ?_, ?_⟩
  · intro row hrow
    obtain ⟨toolRows, hmem, hrow⟩ := List.mem_flatten.1 hrow
    obtain ⟨⟨tool, v⟩, htool, hrows⟩ := Result.exists_of_mapM_right hrowss hmem
    exact ⟨tool, v, toolRows, (hentry tool v).2 htool, hrow, hrows⟩
  · intro tool v hv
    obtain ⟨toolRows, hmem, hrows⟩ := Result.exists_of_mapM_left hrowss ((hentry tool v).1 hv)
    exact ⟨toolRows, fun row hrow => List.mem_flatten.2 ⟨toolRows, hmem, hrow⟩, hrows⟩

/-- **A row is about a finding, or it is one of a tool without labels.** -/
theorem labels_of_mem_rows (h : j.rows rt = .ok rows) {row : FindingRow} (hrow : row ∈ rows) :
    row.runId = j.runId ∧ row.prId = j.prId ∧ ((∃ finding, j.Labels rt row.stored finding) ∨
      (row.tool ∉ skillSetNames ∧ row.defectConfidence = none ∧ row.severity = none)) := by
  obtain ⟨issues, input, hissues, hinput, haligned, hmem, -⟩ := rows_spec h
  obtain ⟨tool, v, toolRows, hentry, hrow, hrows⟩ := hmem row hrow
  obtain ⟨rfl, -⟩ | ⟨tv, listed, rfl, hlisted, hrows⟩ := rowsForTool_spec hrows
  · cases hrow
  obtain ⟨⟨cand, idx⟩, hcand, hmade⟩ := Result.exists_of_mapM_right hrows hrow
  replace hcand := List.mem_zipIdx_iff_getElem?.1 hcand
  obtain ⟨hlabel, hfields⟩ := findingRow_spec hmade
  obtain ⟨runId, prId, tool', idx', conf, sev, isMatched, goldenCount⟩ := row
  obtain ⟨rfl, rfl, rfl, rfl, rfl, rfl⟩ :
      runId = j.runId ∧ prId = j.prId ∧ tool' = tool ∧ idx' = idx ∧
        isMatched = decide ((idx : ℤ) ∈ listed) ∧ goldenCount = j.entry.golden.length := by
    simpa using hfields
  refine ⟨rfl, rfl, ?_⟩
  obtain ⟨issue, hissue, text, htext, rfl, hat⟩ | ⟨hname, text, hat⟩ :=
    (judgeInput_aligned haligned tool').at_position hcand
  · left
    rw [hat] at hlabel
    obtain ⟨conf', hconf, hlabel⟩ := Result.bind_eq_ok.1 hlabel
    obtain ⟨rfl, rfl⟩ := Prod.mk.inj (Except.ok.inj hlabel)
    obtain ⟨finding, k, hfinding, hbuild⟩ := finding_of_issue hissues hissue
    obtain ⟨hsame, hconfidence, hseverity⟩ := labels_buildIssue hbuild
    refine ⟨finding, rfl, rfl, hfinding, ⟨input, text, hinput, hsame ▸ htext, hcand⟩,
      ⟨tv, listed, hentry, hlisted, rfl⟩, ?_, ?_, rfl⟩
    · exact ⟨_, hconfidence ▸ hconf, rfl⟩
    · exact congrArg (labelSeverity rt) hseverity
  · right
    rw [hat] at hlabel
    obtain ⟨rfl, rfl⟩ := Prod.mk.inj (Except.ok.inj hlabel)
    exact ⟨hname, rfl, rfl⟩

/-- Every candidate of a judged skill tool has a row. -/
theorem exists_row (h : j.rows rt = .ok rows) {tool : String} (hname : tool ∈ skillSetNames)
    {tv : Dict} (hentry : j.entryOf tool = some (.dict tv)) {input : Dict}
    (hinput : j.input rt = .ok input) {idx : ℕ} (hidx : idx < (candidatesOf input tool).length) :
    ∃ row ∈ rows, row.key = (j.runId, j.prId, tool, idx) := by
  obtain ⟨-, input', -, hinput', -, -, hrows⟩ := rows_spec h
  obtain rfl := Except.ok.inj (hinput.symm.trans hinput')
  obtain ⟨toolRows, hsubset, hrows⟩ := hrows tool _ hentry
  obtain ⟨-, hnot⟩ | ⟨tv', listed, -, -, hrows⟩ := rowsForTool_spec hrows
  · have hskill : ∀ t ∈ skillSetNames, Text.startsWith t skillToolPrefix = true := by decide
    have hnot := hnot tv rfl
    rw [isSkillTool, hskill tool hname] at hnot
    cases hnot
  · have hcand : ((candidatesOf input tool)[idx], idx) ∈ (candidatesOf input tool).zipIdx :=
      List.mem_zipIdx_iff_getElem?.2 (List.getElem?_eq_getElem hidx)
    obtain ⟨row, hrow, hmade⟩ := Result.exists_of_mapM_left hrows hcand
    refine ⟨row, hsubset hrow, ?_⟩
    rw [(findingRow_spec hmade).2]
    rfl

end

/-! ### The table -/

/-- The last row of a key is the one that is kept. -/
theorem get?_writeFindings (table : FindingTable) (rows : List FindingRow) (key : FindingKey) :
    (∃ row ∈ rows, row.key = key ∧ (writeFindings table rows).get? key = some row.stored) ∨
      ((∀ row ∈ rows, row.key ≠ key) ∧ (writeFindings table rows).get? key = table.get? key) := by
  induction rows generalizing table with
  | nil => exact .inr ⟨List.forall_mem_nil _, rfl⟩
  | cons row rows ih =>
    obtain ⟨row', hrow', hkey, hget⟩ | ⟨hne, hget⟩ := ih (table.set row.key row.stored)
    · exact .inl ⟨row', List.mem_cons_of_mem _ hrow', hkey, hget⟩
    · rw [OrdMap.get?_set] at hget
      by_cases hkey : row.key = key
      · rw [if_pos hkey] at hget
        exact .inl ⟨row, List.mem_cons_self, hkey, hget⟩
      · rw [if_neg hkey] at hget
        exact .inr ⟨List.forall_mem_cons.2 ⟨hkey, hne⟩, hget⟩

/-- A key has the row that an ingest wrote last, or none wrote it. -/
theorem ingest_spec {start table : FindingTable} {js : List JudgedReview}
    (h : ingestAll rt start js = .ok table) (key : FindingKey) :
    (∃ j ∈ js, ∃ rows row, j.rows rt = .ok rows ∧ row ∈ rows ∧ row.key = key ∧
        table.get? key = some row.stored) ∨
      table.get? key = start.get? key := by
  refine Result.foldlM_induct (fun done (table : FindingTable) =>
    (∃ j ∈ done, ∃ rows row, j.rows rt = .ok rows ∧ row ∈ rows ∧ row.key = key ∧
        table.get? key = some row.stored) ∨
      table.get? key = start.get? key) h (.inr rfl) ?_
  intro done table j table' ih hstep
  obtain ⟨rows, hrows, hstep⟩ := Result.bind_eq_ok.1 hstep
  obtain rfl := Except.ok.inj hstep
  obtain ⟨row, hrow, hkey, hget⟩ | ⟨-, hget⟩ := get?_writeFindings table rows key
  · exact .inl ⟨j, List.mem_append_right _ (List.mem_singleton_self _), rows, row, hrows,
      hrow, hkey, hget⟩
  · rw [hget]
    refine ih.imp_left ?_
    rintro ⟨j', hj', hrest⟩
    exact ⟨j', List.mem_append_left _ hj', hrest⟩

/-- **A labelled row is about a finding of one of the reviews.** -/
theorem labels_sound {js : List JudgedReview} {table : FindingTable}
    (h : ingestAll rt OrdMap.empty js = .ok table) {key : FindingKey} {row : FindingRow}
    (hget : table.get? key = some row)
    (hlabel : row.defectConfidence ≠ none ∨ row.severity ≠ none) :
    row.key = key ∧ ∃ j ∈ js, ∃ finding, j.Labels rt row finding := by
  obtain ⟨j, hj, rows, row', hrows, hrow, hkey, hget'⟩ | hnone := ingest_spec h key
  · obtain rfl := Option.some.inj (hget.symm.trans hget')
    obtain ⟨-, -, hfinding | ⟨-, hconf, hsev⟩⟩ := labels_of_mem_rows hrows hrow
    · exact ⟨hkey, j, hj, hfinding⟩
    · have hstored : row'.stored.defectConfidence = none := by
        rw [FindingRow.stored, hconf]
        rfl
      exact absurd hlabel (not_or.2 ⟨not_not.2 hstored, not_not.2 hsev⟩)
  · rw [hget] at hnone
    cases hnone

/-- **Until the pull request is judged again in the run, every finding that the judge was shown has
its row.** -/
theorem labels_complete {start table : FindingTable} {before after : List JudgedReview}
    {j : JudgedReview} (h : ingestAll rt start (before ++ j :: after) = .ok table)
    (hlast : ∀ j' ∈ after, j'.runId = j.runId → j'.prId ≠ j.prId) {tool : String}
    (hname : tool ∈ skillSetNames) {tv : Dict} (hentry : j.entryOf tool = some (.dict tv))
    {input : Dict} (hinput : j.input rt = .ok input) {idx : ℕ}
    (hidx : idx < (candidatesOf input tool).length) :
    ∃ row finding, table.get? (j.runId, j.prId, tool, idx) = some row ∧
      j.Labels rt row finding := by
  rw [ingestAll, List.foldlM_append] at h
  obtain ⟨mid, -, h⟩ := Result.bind_eq_ok.1 h
  rw [List.foldlM_cons] at h
  obtain ⟨written, hstep, hafter⟩ := Result.bind_eq_ok.1 h
  obtain ⟨rows, hrows, hstep⟩ := Result.bind_eq_ok.1 hstep
  obtain rfl := Except.ok.inj hstep
  -- the review wrote the row, and no later one touches its key
  have hkept : table.get? (j.runId, j.prId, tool, idx) =
      (writeFindings mid rows).get? (j.runId, j.prId, tool, idx) := by
    obtain ⟨j', hj', rows', row, hrows', hrow, hkey, -⟩ | hkept :=
      ingest_spec hafter (j.runId, j.prId, tool, idx)
    · obtain ⟨hrun, hpr, -⟩ := labels_of_mem_rows hrows' hrow
      obtain ⟨hrun', hkey⟩ := Prod.mk.inj hkey
      exact absurd (hpr.symm.trans (Prod.mk.inj hkey).1) (hlast j' hj' (hrun.symm.trans hrun'))
    · exact hkept
  obtain ⟨row, hrow, hkey, hget⟩ | ⟨hne, -⟩ :=
    get?_writeFindings mid rows (j.runId, j.prId, tool, idx)
  · have htool : row.tool = tool := (Prod.mk.inj (Prod.mk.inj (Prod.mk.inj hkey).2).2).1
    obtain ⟨-, -, ⟨finding, hfinding⟩ | ⟨hnot, -⟩⟩ := labels_of_mem_rows hrows hrow
    · exact ⟨row.stored, finding, hkept.trans hget, hfinding⟩
    · exact absurd (htool ▸ hname) hnot
  · obtain ⟨row, hrow, hkey⟩ := exists_row hrows hname hentry hinput hidx
    exact absurd hkey (hne row hrow)

/-- **Labels and findings are joined by position**: a labelled row is about a finding of a judged
review, and every finding that the judge was shown last has its row. -/
theorem labels_joined {js : List JudgedReview} {table : FindingTable}
    (h : ingestAll rt OrdMap.empty js = .ok table) :
    (∀ key row, table.get? key = some row → row.defectConfidence ≠ none ∨ row.severity ≠ none →
        row.key = key ∧ ∃ j ∈ js, ∃ finding, j.Labels rt row finding) ∧
      ∀ before j after, js = before ++ j :: after →
        (∀ j' ∈ after, j'.runId = j.runId → j'.prId ≠ j.prId) →
        ∀ tool ∈ skillSetNames, ∀ tv, j.entryOf tool = some (.dict tv) →
        ∀ input, j.input rt = .ok input → ∀ idx < (candidatesOf input tool).length,
          ∃ row finding, table.get? (j.runId, j.prId, tool, idx) = some row ∧
            j.Labels rt row finding := by
  refine ⟨fun key row hget hlabel => labels_sound h hget hlabel, ?_⟩
  rintro before j after rfl hlast tool hname tv hentry input hinput idx hidx
  exact labels_complete h hlast hname hentry hinput hidx

/-- A review of a pull request with two findings, and the verdict on it. -/
def rejudged (severity : String) (listed : List Value) : JudgedReview where
  runId := "prod"
  prId := "a"
  entry := ⟨.str "a", .str "python", [.str "the query is built from user input"]⟩
  comp := []
  env := [("findings", .list [
    .dict [("severity", .str severity), ("winner", .str "sec-injection"), ("title", .str "SQL"),
      ("description", .str "injection"), ("confidence", .float (.fin (1 / 2)))],
    .dict [("severity", .str "minor"), ("winner", .str "lang-python"), ("title", .str "Name")]])]
  verdict := .dict [("tools", .dict [("skill-prod", .dict [("matched", .list listed)])])]
  nodup tools htools := by
    obtain rfl := Except.ok.inj htools
    exact List.nodup_singleton _

/-- The second verdict is the one that is kept. -/
theorem labels_joined_rejudged : ∃ table row finding,
    ingestAll .ascii OrdMap.empty [rejudged "minor" [], rejudged "critical" [.int 0]] = .ok table ∧
      table.get? ("prod", "a", "skill-prod", 0) = some row ∧
      (rejudged "critical" [.int 0]).Labels .ascii row finding ∧
      row.severity = some "critical" ∧ row.isMatched = true := by
  have hrow : (ingestAll .ascii OrdMap.empty [rejudged "minor" [], rejudged "critical" [.int 0]]
      |>.toOption.bind fun table => table.get? ("prod", "a", "skill-prod", 0)) =
        some ⟨"prod", "a", "skill-prod", 0, some (.fin (1 / 2)), some "critical", true, 1⟩ := by
    decide +kernel
  have hshown : ((rejudged "critical" [.int 0]).input .ascii).toOption.map (fun input =>
      (candidatesOf input "skill-prod").length) = some 2 := by decide +kernel
  cases hrun : ingestAll .ascii OrdMap.empty [rejudged "minor" [],
    rejudged "critical" [.int 0]] with
  | error exc =>
    rw [hrun] at hrow
    cases hrow
  | ok table =>
    rw [hrun] at hrow
    cases hinput : (rejudged "critical" [.int 0]).input .ascii with
    | error exc =>
      rw [hinput] at hshown
      cases hshown
    | ok input =>
      rw [hinput] at hshown
      obtain ⟨row, finding, hget, hlabels⟩ := (labels_joined hrun).2 [rejudged "minor" []] _ [] rfl
        (List.forall_mem_nil _) "skill-prod" (by decide) _ rfl input hinput 0
        (Nat.two_pos.trans_eq (Option.some.inj hshown).symm)
      obtain rfl := Option.some.inj (hget.symm.trans hrow)
      exact ⟨table, _, finding, rfl, hget, hlabels, rfl, rfl⟩

end CodeReview
