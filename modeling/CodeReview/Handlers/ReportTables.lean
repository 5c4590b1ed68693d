import CodeReview.Handlers.Render

/-!
# The tables are well formed

Every row of a table is to be one line with as many cells as the header.  Three kinds of text are
put into a cell: escaped by `_mdcell`, which leaves a carriage return that no newline follows; in a
link, which escapes neither the file nor the line; and as it is, for the findings of a tool.

* `parts_rendered` : the tables are rendered when statuses and reviewers are texts;
* `tablesWellFormed_iff` : **the tables of a report are well formed exactly when no escaped text has
  a lone carriage return and no other text breaks the line or has a pipe of its own.**
-/

namespace CodeReview

open Py Cells

/-- Every row is one line, with the cells of the header. -/
def Table.WellFormed (t : Table) : Prop :=
  ∀ row ∈ t.rows, IsRow markdown (cells markdown t.header.toList).length row.toList

/-- Every table that a renderer returns is well formed. -/
def RowsWellFormed (part : Result ReportPart) : Prop :=
  ∀ p, part = .ok p → ∀ t ∈ p.tables, t.WellFormed

/-- What a renderer returns on a list of the payload. -/
def partAt (payload : Dict) (key : String) (render : List Value → Result ReportPart) :
    Result ReportPart := do
  let rows ← ((payload.get key).or (.list [])).iter
  render rows

/-- The rows of every table in the report are well formed. -/
structure TablesWellFormed (rt : Runtime) (up : UpperCase) (payload : Dict) : Prop where
  issues : RowsWellFormed (partAt payload "issues" (renderIssues rt))
  tools : RowsWellFormed (partAt payload "tool_results" (renderToolResults rt up))
  specialists : RowsWellFormed (partAt payload "specialists" (renderSpecialists rt up))
  coverage : RowsWellFormed (partAt payload "coverage" (renderCoverage rt))

/-- No carriage return without a newline. -/
def NoLoneReturn (rt : Runtime) (v : Value) : Prop := Text.loneReturn (rt.str v).toList = false

/-- The texts of an issue fit into their cells. -/
structure IssueFits (rt : Runtime) (issue : Dict) : Prop where
  escaped : ∀ field ∈ ["specialist", "title", "fix"], NoLoneReturn rt (issue.get field)
  /-- The table of the minor issues has no impact. -/
  impact : issue.get "severity" ≠ .str "minor" → NoLoneReturn rt (issue.get "impact")
  link : LinkFits rt (issue.get "file") (issue.get "line")

/-- The status of a tool is a text, or none. -/
def StatusIsText (tool : Dict) : Prop :=
  (tool.get "status").truthy = true → ∃ s, tool.get "status" = .str s

/-- The texts of a tool fit into their cells. -/
structure ToolFits (rt : Runtime) (tool : Dict) : Prop where
  escaped : ∀ field ∈ ["name", "specialist"], NoLoneReturn rt (tool.get field)
  status : ∀ s, tool.get "status" = .str s → Text.loneReturn s.toList = false
  /-- The reason of a tool that was skipped stands in the place of its status. -/
  reason : tool.get "status" = .str "skipped" → (tool.get "reason").truthy = true →
    NoLoneReturn rt (tool.get "reason")
  findings : Fits markdown (rt.str (tool.get "findings")).toList

/-- The texts of a specialist fit into their cells. -/
def SpecialistFits (rt : Runtime) (specialist : Dict) : Prop :=
  ∀ field ∈ ["id", "key_finding"], NoLoneReturn rt (specialist.get field)

/-- The reviewers of a file are texts. -/
def ReviewersAreTexts (row : Dict) : Prop :=
  ∀ v ∈ ensureList (row.get "reviewers"), ∃ s, v = .str s

/-- The texts of a file fit into their cells. -/
structure CoverageFits (rt : Runtime) (row : Dict) : Prop where
  file : NoLoneReturn rt (row.get "file")
  reviewers : ∀ s, .str s ∈ ensureList (row.get "reviewers") → Text.loneReturn s.toList = false

/-- The rows of a table in the payload. -/
def rowsAt (payload : Dict) (key : String) : List Dict := dicts (ensureList (payload.get key))

/-- The texts of the payload fit into their cells.  A table with a status or a reviewer that is no
text is not rendered. -/
structure PayloadFits (rt : Runtime) (payload : Dict) : Prop where
  issues : ∀ issue ∈ rowsAt payload "issues", IssueFits rt issue
  tools : (∀ tool ∈ rowsAt payload "tool_results", StatusIsText tool) →
    ∀ tool ∈ rowsAt payload "tool_results", ToolFits rt tool
  specialists : ∀ specialist ∈ rowsAt payload "specialists", SpecialistFits rt specialist
  coverage : (∀ row ∈ rowsAt payload "coverage", ReviewersAreTexts row) →
    ∀ row ∈ rowsAt payload "coverage", CoverageFits rt row

variable {rt : Runtime} {up : UpperCase}

/-! ### Tables -/

theorem isRow_tableRow_iff {n : ℕ} {texts : List String} (hlength : texts.length = n) (hn : n ≠ 0) :
    IsRow markdown n (tableRow texts).toList ↔ ∀ text ∈ texts, Fits markdown text.toList := by
  have hrow : (tableRow texts).toList = row markdown (texts.map String.toList) := by
    rw [tableRow, Text.join, String.toList_append, String.toList_append, String.toList_intercalate]
    rfl
  have hne : texts.map String.toList ≠ [] := by
    rw [Ne, List.map_eq_nil_iff]
    rintro rfl
    exact hn hlength.symm
  have hcount : (texts.map String.toList).length = n := by rw [List.length_map, hlength]
  rw [hrow, ← hcount, isRow_row_iff hne, List.forall_mem_map]

/-- Without rows there is no table. -/
theorem tablePart_cases (title header divider : String) (cellsOf : Dict → Result (List String))
    (rows : List Value) :
    (dicts rows = [] ∧ tablePart title header divider cellsOf rows = .ok ⟨[], []⟩) ∨
      tablePart title header divider cellsOf rows = (do
        let texts ← (dicts rows).mapM cellsOf
        return ⟨[], [⟨[title, ""], header, divider :: texts.map tableRow⟩]⟩) := by
  by_cases hempty : rows.isEmpty = true
  · refine .inl ⟨?_, if_pos hempty⟩
    rw [List.isEmpty_iff.1 hempty]
    rfl
  · exact .inr (if_neg hempty)

/-- A table is well formed when the texts of its rows fit; it is rendered when every row is. -/
theorem rowsWellFormed_tablePart_iff {title header divider : String}
    {cellsOf : Dict → Result (List String)} {n : ℕ} (hn : n ≠ 0)
    (hheader : (cells markdown header.toList).length = n)
    (hdivider : IsRow markdown n divider.toList) {rows : List Value} {P Q : Dict → Prop}
    (hok : ∀ d ∈ dicts rows, Result.Ok (cellsOf d) ↔ P d)
    (hcells : ∀ d ∈ dicts rows, ∀ texts, cellsOf d = .ok texts →
      texts.length = n ∧ ((∀ text ∈ texts, Fits markdown text.toList) ↔ Q d)) :
    RowsWellFormed (tablePart title header divider cellsOf rows) ↔
      ((∀ d ∈ dicts rows, P d) → ∀ d ∈ dicts rows, Q d) := by
  rcases tablePart_cases title header divider cellsOf rows with ⟨hnil, hpart⟩ | hpart
  · rw [hpart, hnil]
    refine iff_of_true ?_ ?_
    · intro p hp t ht
      cases hp
      cases ht
    · intro _ d hd
      cases hd
  · rw [hpart]
    constructor
    · intro h hP d hd
      obtain ⟨rowTexts, hrows⟩ := Result.mapM_ok fun d hd => (hok d hd).2 (hP d hd)
      obtain ⟨texts, hmem, htexts⟩ := Result.exists_of_mapM_left hrows hd
      obtain ⟨hlength, hfits⟩ := hcells d hd texts htexts
      rw [hrows] at h
      have hrow := h _ rfl _ (.head _) _ (.tail _ (List.mem_map_of_mem hmem))
      rw [hheader] at hrow
      exact hfits.1 ((isRow_tableRow_iff hlength hn).1 hrow)
    · intro h p hp t ht row hrow
      obtain ⟨rowTexts, hrows, hp⟩ := Result.bind_eq_ok.1 hp
      obtain rfl := Except.ok.inj hp
      rw [List.mem_singleton] at ht
      subst ht
      rw [hheader]
      rcases List.mem_cons.1 hrow with rfl | hrow
      · exact hdivider
      · obtain ⟨texts, htexts, rfl⟩ := List.mem_map.1 hrow
        obtain ⟨d, hd, hcellsOf⟩ := Result.exists_of_mapM_right hrows htexts
        obtain ⟨hlength, hfits⟩ := hcells d hd texts hcellsOf
        have hP : ∀ d ∈ dicts rows, P d := by
          intro d hd
          obtain ⟨texts, -, htexts⟩ := Result.exists_of_mapM_left hrows hd
          exact (hok d hd).1 ⟨texts, htexts⟩
        exact (isRow_tableRow_iff hlength hn).2 (hfits.2 (h hP d hd))

/-! ### Tools -/

theorem loneReturn_upper (s : String) :
    Text.loneReturn (up.upper s).toList = Text.loneReturn s.toList := by
  rw [UpperCase.upper, String.toList_ofList, Text.loneReturn_flatMap (Text.keepsBreaks_upper up)]

theorem loneReturn_skip (reason : String) :
    Text.loneReturn ("SKIP (" ++ reason ++ ")").toList = Text.loneReturn reason.toList := by
  rw [String.toList_append, String.toList_append, List.append_assoc,
    Text.loneReturn_append_of_notMem (by decide)]
  exact (Text.loneReturn_append_cons (by decide) (by decide) _ _).trans (Bool.or_false _)

theorem upperOf_ok_iff {v : Value} : Result.Ok (upperOf up v) ↔ ∃ s, v = .str s := by
  cases v <;> simp [upperOf]

/-- The status of a tool is shown when it is a text, and keeps its lone carriage returns. -/
theorem toolStatus_eq {tool : Dict} (h : StatusIsText tool) :
    ∃ status, toolStatus rt up tool = .ok status ∧
      (Text.loneReturn status.toList = false ↔
        (∀ s, tool.get "status" = .str s → Text.loneReturn s.toList = false) ∧
          (tool.get "status" = .str "skipped" → (tool.get "reason").truthy = true →
            NoLoneReturn rt (tool.get "reason"))) := by
  rw [toolStatus]
  by_cases htruthy : (tool.get "status").truthy = true
  · obtain ⟨s, hs⟩ := h htruthy
    rw [Value.or_of_truthy _ htruthy, Value.or_of_truthy _ htruthy, hs]
    by_cases hskip : s = "skipped" ∧ (tool.get "reason").truthy = true
    · obtain ⟨rfl, hreason⟩ := hskip
      refine ⟨"SKIP (" ++ rt.str (tool.get "reason") ++ ")", ?_, ?_⟩
      · exact if_pos (Bool.and_eq_true_iff.2 ⟨(Value.eqv_str _ _).2 rfl, hreason⟩)
      · rw [loneReturn_skip]
        constructor
        · intro hlone
          refine ⟨?_, fun _ _ => hlone⟩
          intro t ht
          obtain rfl := Value.str.inj ht
          decide
        · rintro ⟨-, hlone⟩
          exact hlone rfl hreason
    · refine ⟨up.upper s, ?_, ?_⟩
      · refine if_neg ?_
        intro hand
        obtain ⟨heqv, hreason⟩ := Bool.and_eq_true_iff.1 hand
        exact hskip ⟨Value.str.inj ((Value.eqv_str _ _).1 heqv), hreason⟩
      · rw [loneReturn_upper]
        constructor
        · intro hlone
          refine ⟨?_, ?_⟩
          · intro t ht
            exact Value.str.inj ht ▸ hlone
          · intro hs' hreason
            exact absurd ⟨Value.str.inj hs', hreason⟩ hskip
        · rintro ⟨hlone, -⟩
          exact hlone s rfl
  · -- without a status, a dash is shown
    rw [Value.or_of_falsy _ (Bool.not_eq_true _ ▸ htruthy)]
    refine ⟨up.upper "—", rfl, ?_⟩
    refine iff_of_true ?_ ⟨?_, ?_⟩
    · rw [loneReturn_upper]
      decide
    · intro s hs
      have hnil : s = "" := by simpa [hs] using htruthy
      rw [hnil]
      decide
    · intro hs
      exact absurd (by rw [hs]; decide) htruthy

theorem ok_toolCells_iff {tool : Dict} : Result.Ok (toolCells rt up tool) ↔ StatusIsText tool := by
  constructor
  · rintro ⟨texts, h⟩ htruthy
    obtain ⟨status, hstatus, -⟩ := Result.bind_eq_ok.1 h
    simp only [toolStatus, Value.or_of_truthy _ htruthy] at hstatus
    split_ifs at hstatus with hskip
    · exact ⟨_, (Value.eqv_str _ _).1 (Bool.and_eq_true_iff.1 hskip).1⟩
    · exact upperOf_ok_iff.1 ⟨status, hstatus⟩
  · intro h
    obtain ⟨status, hstatus, -⟩ := @toolStatus_eq rt up tool h
    rw [toolCells, hstatus]
    exact ⟨_, rfl⟩

theorem fits_toolCells_iff {tool : Dict} {texts : List String}
    (h : toolCells rt up tool = .ok texts) :
    (∀ text ∈ texts, Fits markdown text.toList) ↔ ToolFits rt tool := by
  obtain ⟨status, hstatus, hreturns⟩ := @toolStatus_eq rt up tool (ok_toolCells_iff.1 ⟨texts, h⟩)
  rw [toolCells, hstatus, Result.ok_bind] at h
  obtain rfl := Except.ok.inj h
  have hfindings : Fits markdown (if (tool.get "findings").isNone then "—"
      else rt.str (tool.get "findings")).toList ↔
        Fits markdown (rt.str (tool.get "findings")).toList := by
    cases tool.get "findings" with
    | none => exact iff_of_true fits_dash fits_none
    | _ => rfl
  have hcell : Fits markdown (mdcell rt (.str status)).toList ↔
      Text.loneReturn status.toList = false := fits_mdcell_iff _
  simp only [List.forall_mem_cons, List.not_mem_nil, false_implies, implies_true, and_true]
  rw [fits_mdcell_iff, hcell, hreturns, hfindings, fits_mdcell_iff]
  constructor
  · rintro ⟨hname, ⟨htext, hreason⟩, hfits, hspecialist⟩
    exact ⟨List.forall_mem_cons.2 ⟨hname, List.forall_mem_singleton.2 hspecialist⟩, htext, hreason,
      hfits⟩
  · rintro ⟨hescaped, htext, hreason, hfits⟩
    exact ⟨hescaped _ (.head _), ⟨htext, hreason⟩, hfits, hescaped _ (.tail _ (.head _))⟩

theorem renderToolResults_iff (tools : List Value) :
    RowsWellFormed (renderToolResults rt up tools) ↔
      ((∀ tool ∈ dicts tools, StatusIsText tool) → ∀ tool ∈ dicts tools, ToolFits rt tool) := by
  refine rowsWellFormed_tablePart_iff (show 4 ≠ 0 by decide) (by decide) (by decide)
    (fun tool _ => ok_toolCells_iff) ?_
  intro tool _ texts h
  refine ⟨?_, fits_toolCells_iff h⟩
  obtain ⟨status, -, h⟩ := Result.bind_eq_ok.1 h
  obtain rfl := Except.ok.inj h
  rfl

/-! ### Specialists -/

theorem upper_of_ascii {s : String} (h : ∀ c ∈ s.toList, c.toNat < 128) :
    up.upper s = String.ofList (s.toList.map Char.toUpper) := by
  have hchars : s.toList.flatMap up.onChar = s.toList.flatMap fun c => [c.toUpper] :=
    List.flatMap_congr fun c hc => up.onChar_ascii c (h c hc)
  rw [UpperCase.upper, hchars, ← List.map_eq_flatMap]

/-- A specialist passed or failed. -/
theorem status_buildSpecialistRow (specialist : Dict) :
    ∃ s ∈ ["pass", "fail"], (buildSpecialistRow specialist).get "status" = .str s := by
  have hstatus (p : Prop) [Decidable p] :
      ∃ s ∈ ["pass", "fail"], (if p then Value.str "pass" else .str "fail") = .str s := by
    split_ifs
    · exact ⟨"pass", by decide, rfl⟩
    · exact ⟨"fail", by decide, rfl⟩
  exact hstatus _

theorem count_buildSpecialistRow (specialist : Dict) {field : String}
    (hfield : field ∈ ["critical", "important", "minor"]) :
    ∃ n, (buildSpecialistRow specialist).getD field (.int 0) = .int n := by
  simp only [List.mem_cons, List.not_mem_nil, or_false] at hfield
  rcases hfield with rfl | rfl | rfl <;> exact ⟨_, rfl⟩

theorem fits_upper_status {s : String} (h : s ∈ ["pass", "fail"]) :
    Fits markdown (up.upper s).toList := by
  simp only [List.mem_cons, List.not_mem_nil, or_false] at h
  rcases h with rfl | rfl
  · rw [upper_of_ascii (by simp), String.toList_ofList]
    decide
  · rw [upper_of_ascii (by simp), String.toList_ofList]
    decide

/-- The row of a specialist is rendered, and its status and its numbers fit. -/
theorem fits_specialistCells_iff (specialist : Dict) :
    ∃ texts, specialistCells rt up (buildSpecialistRow specialist) = .ok texts ∧
      texts.length = 6 ∧ ((∀ text ∈ texts, Fits markdown text.toList) ↔
        SpecialistFits rt (buildSpecialistRow specialist)) := by
  obtain ⟨status, hmem, hstatus⟩ := status_buildSpecialistRow specialist
  obtain ⟨critical, hcritical⟩ := @count_buildSpecialistRow specialist "critical" (by decide)
  obtain ⟨important, himportant⟩ := @count_buildSpecialistRow specialist "important" (by decide)
  obtain ⟨minor, hminor⟩ := @count_buildSpecialistRow specialist "minor" (by decide)
  have htruthy : (Value.str status).truthy = true := by
    simp only [List.mem_cons, List.not_mem_nil, or_false] at hmem
    rcases hmem with rfl | rfl <;> decide
  rw [specialistCells, hstatus, Value.or_of_truthy _ htruthy, hcritical, himportant, hminor]
  refine ⟨_, rfl, rfl, ?_⟩
  have hint (n : ℤ) : Fits markdown (rt.str (.int n)).toList := fits_toString n
  simp only [List.forall_mem_cons, List.not_mem_nil, false_implies, implies_true, and_true]
  rw [fits_mdcell_iff, and_iff_right (fits_upper_status hmem), and_iff_right (hint critical),
    and_iff_right (hint important), and_iff_right (hint minor), fits_mdcell_iff, SpecialistFits]
  simp only [List.forall_mem_cons, List.not_mem_nil, false_implies, implies_true, and_true]
  rfl

theorem renderSpecialists_iff (specialists : List Dict) :
    RowsWellFormed (renderSpecialists rt up
        (specialists.map fun s => .dict (buildSpecialistRow s))) ↔
      ∀ s ∈ specialists, SpecialistFits rt (buildSpecialistRow s) := by
  have hrows : dicts (specialists.map fun s => .dict (buildSpecialistRow s)) =
      specialists.map buildSpecialistRow := dicts_map_dict _ _
  have hpart := @rowsWellFormed_tablePart_iff "## Specialist Results"
    "| Specialist | Status | C | I | M | Key Finding |"
    "|-----------|--------|---|---|---|-------------|" (specialistCells rt up) 6 (by decide)
    (by decide) (by decide) (specialists.map fun s => .dict (buildSpecialistRow s))
    (fun _ => True) (SpecialistFits rt) ?_ ?_
  · rw [renderSpecialists, hpart, hrows]
    simp
  · rw [hrows]
    intro d hd
    obtain ⟨s, -, rfl⟩ := List.mem_map.1 hd
    obtain ⟨texts, htexts, -, -⟩ := @fits_specialistCells_iff rt up s
    exact iff_of_true ⟨texts, htexts⟩ trivial
  · rw [hrows]
    intro d hd texts h
    obtain ⟨s, -, rfl⟩ := List.mem_map.1 hd
    obtain ⟨texts', htexts, hlength, hfits⟩ := @fits_specialistCells_iff rt up s
    obtain rfl := Except.ok.inj (h.symm.trans htexts)
    exact ⟨hlength, hfits⟩

/-! ### Coverage -/

theorem mapM_textOf {vs : List Value} {texts : List String} :
    vs.mapM textOf = .ok texts ↔ vs = texts.map .str := by
  have htext (v : Value) (s : String) : textOf v = .ok s ↔ v = .str s := by
    cases v <;> simp [textOf]
  rw [Result.mapM_eq_ok]
  simp only [htext]
  rw [← List.forall₂_eq_eq_eq, List.forall₂_map_right_iff]

theorem joinTexts_list {vs : List Value} {joined : String} :
    joinTexts (.list vs) = .ok joined ↔
      ∃ texts, vs = texts.map .str ∧ Text.join ", " texts = joined := by
  rw [joinTexts, Value.list_or_nil, Value.iter_list, Result.ok_bind, Result.bind_eq_ok]
  simp only [mapM_textOf, Result.pure_eq_ok, Except.ok.injEq]

theorem ok_coverageCells_iff {row : Dict} {vs : List Value}
    (hvs : row.get "reviewers" = .list vs) :
    Result.Ok (coverageCells rt row) ↔ ReviewersAreTexts row := by
  rw [ReviewersAreTexts, coverageCells, hvs, ensureList_list]
  constructor
  · rintro ⟨texts, h⟩ v hv
    obtain ⟨joined, hjoined, -⟩ := Result.bind_eq_ok.1 h
    obtain ⟨reviewers, rfl, -⟩ := joinTexts_list.1 hjoined
    obtain ⟨s, -, rfl⟩ := List.mem_map.1 hv
    exact ⟨s, rfl⟩
  · intro htexts
    have hok : ∀ v ∈ vs, Result.Ok (textOf v) := by
      intro v hv
      obtain ⟨s, rfl⟩ := htexts v hv
      exact ⟨s, rfl⟩
    obtain ⟨reviewers, hreviewers⟩ := Result.mapM_ok hok
    rw [joinTexts_list.2 ⟨reviewers, mapM_textOf.1 hreviewers, rfl⟩]
    exact ⟨_, rfl⟩

theorem noLoneReturn_or_dash (s : String) :
    NoLoneReturn rt ((Value.str s).or "—") ↔ Text.loneReturn s.toList = false := by
  by_cases hs : s = ""
  · subst hs
    have hdash : NoLoneReturn rt ((Value.str "").or "—") := by
      change Text.loneReturn "—".toList = false
      decide
    exact iff_of_true hdash rfl
  · have htruthy : (Value.str s).truthy = true := decide_eq_true hs
    rw [Value.or_of_truthy _ htruthy]
    rfl

theorem fits_coverageCells_iff {row : Dict} {vs : List Value} {texts : List String}
    (hvs : row.get "reviewers" = .list vs) (h : coverageCells rt row = .ok texts) :
    texts.length = 2 ∧ ((∀ text ∈ texts, Fits markdown text.toList) ↔ CoverageFits rt row) := by
  rw [coverageCells, hvs] at h
  obtain ⟨joined, hjoined, h⟩ := Result.bind_eq_ok.1 h
  obtain ⟨reviewers, rfl, rfl⟩ := joinTexts_list.1 hjoined
  obtain rfl := Except.ok.inj h
  refine ⟨rfl, ?_⟩
  have hcell : Fits markdown
      (mdcell rt ((Value.str (Text.join ", " reviewers)).or "—")).toList ↔
        ∀ s, .str s ∈ ensureList (row.get "reviewers") → Text.loneReturn s.toList = false := by
    rw [fits_mdcell_iff, ← NoLoneReturn, noLoneReturn_or_dash, Text.loneReturn_join, hvs]
    simp
  simp only [List.forall_mem_cons, List.not_mem_nil, false_implies, implies_true, and_true]
  rw [hcell, fits_mdcell_iff]
  constructor
  · rintro ⟨hfile, hreviewers⟩
    exact ⟨hfile, hreviewers⟩
  · rintro ⟨hfile, hreviewers⟩
    exact ⟨hfile, hreviewers⟩

theorem renderCoverage_iff {rows : List Value}
    (hrows : ∀ row ∈ dicts rows, ∃ vs, row.get "reviewers" = .list vs) :
    RowsWellFormed (renderCoverage rt rows) ↔
      ((∀ row ∈ dicts rows, ReviewersAreTexts row) → ∀ row ∈ dicts rows, CoverageFits rt row) := by
  refine rowsWellFormed_tablePart_iff (show 2 ≠ 0 by decide) (by decide) (by decide)
    ?_ ?_
  · intro row hrow
    obtain ⟨vs, hvs⟩ := hrows row hrow
    exact ok_coverageCells_iff hvs
  · intro row hrow texts h
    obtain ⟨vs, hvs⟩ := hrows row hrow
    exact fits_coverageCells_iff hvs h

/-! ### Issues -/

theorem wellFormed_bucketTable_iff {title header divider : String} {cellsOf : Dict → List String}
    {n : ℕ} (hn : n ≠ 0) (hheader : (cells markdown header.toList).length = n)
    (hdivider : IsRow markdown n divider.toList) {bucket : List Dict} {Q : Dict → Prop}
    (hcells : ∀ d ∈ bucket, (cellsOf d).length = n ∧
      ((∀ text ∈ cellsOf d, Fits markdown text.toList) ↔ Q d)) :
    (∀ t ∈ bucketTable title header divider cellsOf bucket, t.WellFormed) ↔
      ∀ d ∈ bucket, Q d := by
  by_cases hempty : bucket.isEmpty = true
  · rw [bucketTable, if_pos hempty, List.isEmpty_iff.1 hempty]
    simp
  · rw [bucketTable, if_neg hempty, List.forall_mem_singleton, Table.WellFormed, hheader,
      List.forall_mem_cons, and_iff_right hdivider, List.forall_mem_map]
    refine forall₂_congr ?_
    intro d hd
    obtain ⟨hlength, hfits⟩ := hcells d hd
    rw [isRow_tableRow_iff hlength hn, hfits]

theorem bucketed_eq {issues : List Dict}
    (h : ∀ issue ∈ issues, ∃ s ∈ validSeverities, issue.get "severity" = .str s) :
    bucketed issues = .ok issues := by
  induction issues with
  | nil => rfl
  | cons issue issues ih =>
    have hknown := Value.contains?_eq_true.2 (h issue (.head _))
    rw [bucketed, hknown, Result.ok_bind, ih fun i hi => h i (.tail _ hi)]
    rfl

theorem fits_issueCells_iff {issue : Dict} {n : ℤ} (hid : issue.getD "id" "" = .int n)
    (impact : Bool) :
    (∀ text ∈ issueCells rt impact issue, Fits markdown text.toList) ↔
      (∀ field ∈ ["specialist", "title", "fix"], NoLoneReturn rt (issue.get field)) ∧
        (impact = true → NoLoneReturn rt (issue.get "impact")) ∧
        LinkFits rt (issue.get "file") (issue.get "line") := by
  have hnumber : Fits markdown (rt.str (issue.getD "id" "")).toList := by
    rw [hid]
    exact fits_toString n
  have himpact : (∀ text ∈ (if impact = true then [mdcell rt (issue.get "impact")] else []),
      Fits markdown text.toList) ↔ (impact = true → NoLoneReturn rt (issue.get "impact")) := by
    cases impact with
    | false => simp
    | true => simp [fits_mdcell_iff, NoLoneReturn]
  rw [issueCells, List.forall_mem_append, List.forall_mem_append, himpact]
  simp only [List.forall_mem_cons, List.not_mem_nil, false_implies, implies_true, and_true]
  rw [fits_mdcell_iff, fits_fileLink_iff, fits_mdcell_iff, fits_mdcell_iff]
  constructor
  · rintro ⟨⟨⟨-, hspecialist, hlink, htitle⟩, himpact⟩, hfix⟩
    exact ⟨⟨hspecialist, htitle, hfix⟩, himpact, hlink⟩
  · rintro ⟨⟨hspecialist, htitle, hfix⟩, himpact, hlink⟩
    exact ⟨⟨⟨hnumber, hspecialist, hlink, htitle⟩, himpact⟩, hfix⟩

/-- What the cells of an issue ask is asked of it in the table of its severity. -/
theorem issueFits_iff {issue : Dict} {severity : String} {impact : Bool}
    (hseverity : issue.get "severity" = .str severity)
    (himpact : impact = true ↔ severity ≠ "minor") :
    IssueFits rt issue ↔
      (∀ field ∈ ["specialist", "title", "fix"], NoLoneReturn rt (issue.get field)) ∧
        (impact = true → NoLoneReturn rt (issue.get "impact")) ∧
        LinkFits rt (issue.get "file") (issue.get "line") := by
  have hminor : impact = true ↔ issue.get "severity" ≠ .str "minor" := by
    rw [himpact, hseverity, Ne, Ne, Value.str.injEq]
  constructor
  · rintro ⟨hescaped, himpact, hlink⟩
    exact ⟨hescaped, fun h => himpact (hminor.1 h), hlink⟩
  · rintro ⟨hescaped, himpact, hlink⟩
    exact ⟨hescaped, fun h => himpact (hminor.2 h), hlink⟩

/-- Every issue is in the bucket of its severity. -/
theorem forall_bucketOf_iff {issues : List Dict} {Q : Dict → Prop}
    (hseverity : ∀ issue ∈ issues, ∃ s ∈ validSeverities, issue.get "severity" = .str s) :
    (∀ issue ∈ issues, Q issue) ↔
      (∀ issue ∈ bucketOf "critical" issues, Q issue) ∧
        (∀ issue ∈ bucketOf "important" issues, Q issue) ∧
        ∀ issue ∈ bucketOf "minor" issues, Q issue := by
  constructor
  · intro h
    exact ⟨fun issue hi => h issue (List.mem_of_mem_filter hi),
      fun issue hi => h issue (List.mem_of_mem_filter hi),
      fun issue hi => h issue (List.mem_of_mem_filter hi)⟩
  · rintro ⟨hcritical, himportant, hminor⟩ issue hissue
    obtain ⟨severity, hmem, hs⟩ := hseverity issue hissue
    have hbucket : issue ∈ bucketOf severity issues :=
      List.mem_filter.2 ⟨hissue, (Value.eqv_str _ _).2 hs⟩
    simp only [validSeverities, List.mem_cons, List.not_mem_nil, or_false] at hmem
    rcases hmem with rfl | rfl | rfl
    · exact hcritical issue hbucket
    · exact himportant issue hbucket
    · exact hminor issue hbucket

theorem renderIssues_iff {issues : List Dict}
    (hseverity : ∀ issue ∈ issues, ∃ s ∈ validSeverities, issue.get "severity" = .str s)
    (hid : ∀ issue ∈ issues, ∃ n, issue.getD "id" "" = .int n) :
    RowsWellFormed (renderIssues rt (issues.map .dict)) ↔
      ∀ issue ∈ issues, IssueFits rt issue := by
  have hcells (severity : String) (impact : Bool) (himpact : impact = true ↔ severity ≠ "minor") :
      ∀ issue ∈ bucketOf severity issues,
        (∀ text ∈ issueCells rt impact issue, Fits markdown text.toList) ↔ IssueFits rt issue := by
    intro issue hissue
    obtain ⟨hmem, heqv⟩ := List.mem_filter.1 hissue
    obtain ⟨n, hn⟩ := hid issue hmem
    rw [fits_issueCells_iff hn, issueFits_iff ((Value.eqv_str _ _).1 heqv) himpact]
  have hcritical : (∀ t ∈ criticalTable rt issues, t.WellFormed) ↔
      ∀ issue ∈ bucketOf "critical" issues, IssueFits rt issue :=
    wellFormed_bucketTable_iff (show 6 ≠ 0 by decide) (by decide) (by decide)
      fun issue hissue => ⟨rfl, hcells "critical" true (by decide) issue hissue⟩
  have himportant : (∀ t ∈ importantTable rt issues, t.WellFormed) ↔
      ∀ issue ∈ bucketOf "important" issues, IssueFits rt issue :=
    wellFormed_bucketTable_iff (show 6 ≠ 0 by decide) (by decide) (by decide)
      fun issue hissue => ⟨rfl, hcells "important" true (by decide) issue hissue⟩
  have hminor : (∀ t ∈ minorTable rt issues, t.WellFormed) ↔
      ∀ issue ∈ bucketOf "minor" issues, IssueFits rt issue :=
    wellFormed_bucketTable_iff (show 5 ≠ 0 by decide) (by decide) (by decide)
      fun issue hissue => ⟨rfl, hcells "minor" false (by decide) issue hissue⟩
  rw [forall_bucketOf_iff hseverity, ← hcritical, ← himportant, ← hminor]
  by_cases hempty : (issues.map Value.dict).isEmpty = true
  · have hnil : issues = [] := by simpa using hempty
    rw [renderIssues, if_pos hempty, hnil]
    refine iff_of_true ?_ ⟨by simp [criticalTable, bucketOf, bucketTable],
      by simp [importantTable, bucketOf, bucketTable], by simp [minorTable, bucketOf, bucketTable]⟩
    intro p hp t ht
    cases hp
    cases ht
  · rw [renderIssues, if_neg hempty, dicts_map, bucketed_eq hseverity, Result.ok_bind]
    constructor
    · intro h
      have htables := h _ rfl
      simp only [List.mem_append, or_imp, forall_and] at htables
      exact ⟨htables.1.1, htables.1.2, htables.2⟩
    · rintro ⟨hcritical, himportant, hminor⟩ p hp t ht
      obtain rfl := Except.ok.inj hp
      simp only [List.mem_append] at ht
      rcases ht with (ht | ht) | ht
      · exact hcritical t ht
      · exact himportant t ht
      · exact hminor t ht

/-! ### The report -/

/-- An issue has a number and one of the severities. -/
theorem buildIssue_spec {finding issue : Dict} {idx : ℕ}
    (h : buildIssue rt finding idx = .ok issue) :
    (∃ s ∈ validSeverities, issue.get "severity" = .str s) ∧
      ∃ n, issue.getD "id" "" = .int n := by
  obtain ⟨known, hknown, h⟩ := Result.bind_eq_ok.1 h
  cases known with
  | false => cases h
  | true =>
    obtain ⟨s, hs, hseverity⟩ := Value.contains?_eq_true.1 hknown
    obtain ⟨corroboration, -, h⟩ := Result.bind_eq_ok.1 h
    obtain rfl := Except.ok.inj h
    exact ⟨⟨s, hs, hseverity⟩, idx + 1, rfl⟩

theorem buildIssues_spec {findings : List Value} {issues : List Dict}
    (h : buildIssues rt findings = .ok issues) :
    ∀ issue ∈ issues, (∃ s ∈ validSeverities, issue.get "severity" = .str s) ∧
      ∃ n, issue.getD "id" "" = .int n := by
  intro issue hissue
  obtain ⟨f, -, hf⟩ := Result.exists_of_mapM_right h hissue
  exact buildIssue_spec hf

/-- The lists of the payload that the tables are rendered from. -/
theorem buildReportPayload_spec {total : ℕ} {env payload : Dict}
    (h : buildReportPayload rt total env = .ok payload) :
    (∃ issues, buildIssues rt (ensureList (env.get "findings")) = .ok issues ∧
        payload.get "issues" = .list (issues.map .dict)) ∧
      payload.get "tool_results" = rowsOf buildToolRow (env.get "tool_results") ∧
      payload.get "specialists" = rowsOf buildSpecialistRow (env.get "specialist_outputs") ∧
      payload.get "coverage" = rowsOf coverageRow (env.get "coverage_matrix") := by
  obtain ⟨valid, -, h⟩ := Result.bind_eq_ok.1 h
  cases valid with
  | false => cases h
  | true =>
    obtain ⟨methodology, -, h⟩ := Result.bind_eq_ok.1 h
    obtain ⟨issues, hissues, h⟩ := Result.bind_eq_ok.1 h
    obtain rfl := Except.ok.inj h
    exact ⟨⟨issues, hissues, rfl⟩, rfl, rfl, rfl⟩

/-- A list of the payload is rendered as it is. -/
theorem partAt_list {payload : Dict} {key : String} {render : List Value → Result ReportPart}
    {rows : List Value} (h : payload.get key = .list rows) :
    partAt payload key render = render rows := by
  rw [partAt, h, Value.list_or_nil, Value.iter_list, Result.ok_bind]

theorem rowsAt_list {payload : Dict} {key : String} {rows : List Value}
    (h : payload.get key = .list rows) : rowsAt payload key = dicts rows := by
  rw [rowsAt, h, ensureList_list]

theorem ok_tablePart_iff {title header divider : String} {cellsOf : Dict → Result (List String)}
    (rows : List Value) :
    Result.Ok (tablePart title header divider cellsOf rows) ↔
      ∀ d ∈ dicts rows, Result.Ok (cellsOf d) := by
  rcases tablePart_cases title header divider cellsOf rows with ⟨hnil, hpart⟩ | hpart
  · rw [hpart, hnil]
    exact iff_of_true ⟨_, rfl⟩ (by simp)
  · rw [hpart, Result.ok_bind_iff]
    constructor
    · rintro ⟨texts, h, -⟩ d hd
      obtain ⟨text, -, htext⟩ := Result.exists_of_mapM_left h hd
      exact ⟨text, htext⟩
    · intro h
      obtain ⟨texts, htexts⟩ := Result.mapM_ok h
      exact ⟨texts, htexts, _, rfl⟩

/-- **A report with texts for statuses and reviewers is rendered.** -/
theorem parts_rendered (rt : Runtime) (up : UpperCase) {total : ℕ} {env payload : Dict}
    (h : buildReportPayload rt total env = .ok payload)
    (hstatus : ∀ tool ∈ rowsAt payload "tool_results", StatusIsText tool)
    (hreviewers : ∀ row ∈ rowsAt payload "coverage", ReviewersAreTexts row) :
    Result.Ok (partAt payload "issues" (renderIssues rt)) ∧
      Result.Ok (partAt payload "tool_results" (renderToolResults rt up)) ∧
      Result.Ok (partAt payload "specialists" (renderSpecialists rt up)) ∧
      Result.Ok (partAt payload "coverage" (renderCoverage rt)) := by
  obtain ⟨⟨issues, hbuilt, hissues⟩, htools, hspecialists, hcoverage⟩ := buildReportPayload_spec h
  have hspec := buildIssues_spec hbuilt
  rw [rowsAt_list htools] at hstatus
  rw [rowsAt_list hcoverage, dicts_map_dict] at hreviewers
  refine ⟨?_, ?_, ?_, ?_⟩
  · rw [partAt_list hissues, renderIssues, dicts_map,
      bucketed_eq fun issue hi => (hspec issue hi).1]
    split_ifs
    · exact ⟨_, rfl⟩
    · exact ⟨_, rfl⟩
  · rw [partAt_list htools]
    exact (ok_tablePart_iff _).2 fun tool ht => ok_toolCells_iff.2 (hstatus tool ht)
  · rw [partAt_list hspecialists]
    refine (ok_tablePart_iff _).2 ?_
    rw [dicts_map_dict, List.forall_mem_map]
    intro specialist _
    obtain ⟨texts, htexts, -⟩ := @fits_specialistCells_iff rt up specialist
    exact ⟨texts, htexts⟩
  · rw [partAt_list hcoverage]
    refine (ok_tablePart_iff _).2 ?_
    rw [dicts_map_dict]
    intro row hrow
    obtain ⟨d, -, rfl⟩ := List.mem_map.1 hrow
    have hvs : (coverageRow d).get "reviewers" = .list (ensureList (d.get "reviewers")) := rfl
    exact (ok_coverageCells_iff hvs).2 (hreviewers _ hrow)

/-- **The tables of a report are well formed exactly when its texts fit into their cells.** -/
theorem tablesWellFormed_iff (rt : Runtime) (up : UpperCase) {total : ℕ} {env payload : Dict}
    (h : buildReportPayload rt total env = .ok payload) :
    TablesWellFormed rt up payload ↔ PayloadFits rt payload := by
  obtain ⟨⟨issues, hbuilt, hissues⟩, htools, hspecialists, hcoverage⟩ := buildReportPayload_spec h
  have hspec := buildIssues_spec hbuilt
  have hissueRows : RowsWellFormed (partAt payload "issues" (renderIssues rt)) ↔
      ∀ issue ∈ rowsAt payload "issues", IssueFits rt issue := by
    rw [partAt_list hissues, rowsAt_list hissues, dicts_map]
    exact renderIssues_iff (fun issue hi => (hspec issue hi).1) fun issue hi => (hspec issue hi).2
  have htoolRows : RowsWellFormed (partAt payload "tool_results" (renderToolResults rt up)) ↔
      ((∀ tool ∈ rowsAt payload "tool_results", StatusIsText tool) →
        ∀ tool ∈ rowsAt payload "tool_results", ToolFits rt tool) := by
    rw [partAt_list htools, rowsAt_list htools]
    exact renderToolResults_iff _
  have hspecialistRows :
      RowsWellFormed (partAt payload "specialists" (renderSpecialists rt up)) ↔
        ∀ specialist ∈ rowsAt payload "specialists", SpecialistFits rt specialist := by
    rw [partAt_list hspecialists, rowsAt_list hspecialists, dicts_map_dict, List.forall_mem_map]
    exact renderSpecialists_iff _
  have hcoverageRows : RowsWellFormed (partAt payload "coverage" (renderCoverage rt)) ↔
      ((∀ row ∈ rowsAt payload "coverage", ReviewersAreTexts row) →
        ∀ row ∈ rowsAt payload "coverage", CoverageFits rt row) := by
    rw [partAt_list hcoverage, rowsAt_list hcoverage]
    refine renderCoverage_iff ?_
    intro row hrow
    rw [dicts_map_dict] at hrow
    obtain ⟨d, -, rfl⟩ := List.mem_map.1 hrow
    exact ⟨_, rfl⟩
  constructor
  · rintro ⟨hi, ht, hs, hc⟩
    exact ⟨hissueRows.1 hi, htoolRows.1 ht, hspecialistRows.1 hs, hcoverageRows.1 hc⟩
  · rintro ⟨hi, ht, hs, hc⟩
    exact ⟨hissueRows.2 hi, htoolRows.2 ht, hspecialistRows.2 hs, hcoverageRows.2 hc⟩

/-- The end of a review with one critical finding, one tool, one specialist and one covered file. -/
def smallReview (file : String) : Dict :=
  [("verdict", "NO-GO"),
    ("findings", .list [.dict [("severity", "critical"), ("winner", "a"), ("file", file),
      ("line", .int 3), ("title", "t"), ("impact", "i"), ("fix", "f")]]),
    ("tool_results", .list [.dict [("name", "l"), ("status", "pass"), ("findings", .int 2)]]),
    ("specialist_outputs", .list [.dict [("id", "a"), ("status", "completed")]]),
    ("coverage_matrix", .list [.dict [("file", file), ("reviewers", .list ["a", "b"])]])]

theorem tablesWellFormed_iff_small :
    ∃ payload, buildReportPayload .ascii 0 (smallReview "x") = .ok payload ∧
      (TablesWellFormed .ascii .ascii payload ↔ PayloadFits .ascii payload) :=
  ⟨_, rfl, @tablesWellFormed_iff .ascii .ascii 0 (smallReview "x") _ rfl⟩

/-- **A pipe in the name of a file makes another cell.** -/
theorem pipedFile_splits :
    ∃ payload, buildReportPayload .ascii 0 (smallReview "a|b") = .ok payload ∧
      ¬ TablesWellFormed .ascii .ascii payload := by
  refine ⟨_, rfl, ?_⟩
  intro h
  have hrow := h.issues _ rfl _ (.head _)
    "| 1 | a | [a|b:3](../../../a%7Cb#L3) | t | i | f |" (.tail _ (.head _))
  exact absurd hrow.length (by decide)

end CodeReview
