import CodeReview.Handlers.Report
import CodeReview.Lib.Cells
import CodeReview.Py.Printing

/-!
# The tables of the Markdown report

The renderers of issues, tools, specialists and coverage, and which texts their cells hold safely.

* `fits_mdcell_iff` : a text escaped by `_mdcell` fits into a cell exactly when it has no carriage
  return without a newline;
* `fits_fileLink_iff` : a link to a file fits exactly when its file and its line do.
-/

namespace CodeReview

open Py Cells

/-- Markdown: cells between pipes, a backslash escapes, and carriage returns and newlines end a
line. -/
def markdown : Marks Char where
  bar := '|'
  esc := '\\'
  blank := ' '
  isBreak c := c = '\n' ∨ c = '\r'
  bar_ne_esc := by decide
  blank_ne_bar := by decide
  blank_ne_esc := by decide
  isBreak_bar := by decide
  isBreak_blank := by decide

/-- A table of the report. -/
structure Table where
  /-- The lines above it. -/
  title : List String
  header : String
  /-- The lines below the header. -/
  rows : List String
  deriving DecidableEq, Repr

/-- The lines of a table. -/
def Table.lines (t : Table) : List String := t.title ++ [t.header] ++ t.rows ++ [""]

/-- What a renderer returns. -/
structure ReportPart where
  front : List String
  tables : List Table
  deriving DecidableEq, Repr

/-- The lines of a part. -/
def ReportPart.lines (p : ReportPart) : List String := p.front ++ p.tables.flatMap Table.lines

/-- `"| " + " | ".join(cells) + " |"`. -/
def tableRow (cells : List String) : String := "| " ++ Text.join " | " cells ++ " |"

section

variable (rt : Runtime) (up : UpperCase)

/-- `_mdcell`. -/
def mdcell : Value → String
  | .none => "—"
  | v =>
    let text := rt.str v
    let text := Text.replaceChar '|' "\\|" (Text.replaceChar '\\' "\\\\" text)
    Text.replaceChar '\n' " " (Text.replaceCrlf text)

/-- `_file_link`. -/
def fileLink (file line : Value) : String :=
  match file with
  | .str file =>
    if file = "" then "—"
    else
      let encoded := Text.join "/" ((Text.split '/' file).map Text.quote)
      match line with
      | .none => "\x60" ++ file ++ "\x60"
      | line => "[" ++ file ++ ":" ++ rt.str line ++ "](../../../" ++ encoded ++ "#L" ++
        rt.str line ++ ")"
  | _ => "—"

/-- `v.upper()`. -/
def upperOf : Value → Result String
  | .str s => .ok (up.upper s)
  | _ => .error .attributeError

/-- A part that can be joined. -/
def textOf : Value → Result String
  | .str s => .ok s
  | _ => .error .typeError

/-- `", ".join(v or [])`. -/
def joinTexts (v : Value) : Result String := do
  let parts ← (v.or (.list [])).iter
  let texts ← parts.mapM textOf
  return Text.join ", " texts

/-- The cells of an issue, with or without its impact. -/
def issueCells (impact : Bool) (issue : Dict) : List String :=
  [rt.str (issue.getD "id" ""), mdcell rt (issue.get "specialist"),
    fileLink rt (issue.get "file") (issue.get "line"), mdcell rt (issue.get "title")] ++
  (if impact then [mdcell rt (issue.get "impact")] else []) ++ [mdcell rt (issue.get "fix")]

/-- The issues that have a bucket; an unhashable severity raises. -/
def bucketed : List Dict → Result (List Dict)
  | [] => .ok []
  | issue :: issues => do
    let known ← Value.contains? validSeverities (issue.get "severity")
    let rest ← bucketed issues
    return if known then issue :: rest else rest

/-- The table of a bucket, unless it is empty. -/
def bucketTable (title header divider : String) (cells : Dict → List String) (bucket : List Dict) :
    List Table :=
  if bucket.isEmpty then []
  else [⟨[title, ""], header, divider :: bucket.map fun issue => tableRow (cells issue)⟩]

/-- The issues of a severity. -/
def bucketOf (severity : String) (issues : List Dict) : List Dict :=
  issues.filter fun issue => (issue.get "severity").eqv (.str severity)

/-- The table of the critical issues. -/
def criticalTable (issues : List Dict) : List Table :=
  bucketTable "### Critical — Blocks Merge" "| # | Specialist | Location | Title | Impact | Fix |"
    "|---|-----------|----------|-------|--------|-----|" (issueCells rt true)
    (bucketOf "critical" issues)

/-- The table of the important issues. -/
def importantTable (issues : List Dict) : List Table :=
  bucketTable "### Important — Should Fix Before Merge"
    "| # | Specialist | Location | Title | Impact | Fix |"
    "|---|-----------|----------|-------|--------|-----|" (issueCells rt true)
    (bucketOf "important" issues)

/-- The table of the minor issues, which has no impact. -/
def minorTable (issues : List Dict) : List Table :=
  bucketTable "### Minor — Advisory" "| # | Specialist | Location | Title | Fix |"
    "|---|-----------|----------|-------|-----|" (issueCells rt false) (bucketOf "minor" issues)

/-- `_render_issues`. -/
def renderIssues (issues : List Value) : Result ReportPart :=
  if issues.isEmpty then .ok ⟨[], []⟩
  else do
    let buckets ← bucketed (dicts issues)
    return ⟨["## Issues", ""],
      criticalTable rt buckets ++ importantTable rt buckets ++ minorTable rt buckets⟩

/-- A part that is one table with a row for each dictionary. -/
def tablePart (title header divider : String) (cells : Dict → Result (List String))
    (rows : List Value) : Result ReportPart :=
  if rows.isEmpty then .ok ⟨[], []⟩
  else do
    let rows ← (dicts rows).mapM cells
    return ⟨[], [⟨[title, ""], header, divider :: rows.map tableRow⟩]⟩

/-- The status of a tool, as the table shows it. -/
def toolStatus (tool : Dict) : Result String :=
  let status := (tool.get "status").or ""
  if status.eqv "skipped" && (tool.get "reason").truthy then
    .ok ("SKIP (" ++ rt.str (tool.get "reason") ++ ")")
  else upperOf up (status.or "—")

/-- The cells of a tool. -/
def toolCells (tool : Dict) : Result (List String) := do
  let status ← toolStatus rt up tool
  return [mdcell rt (tool.get "name"), mdcell rt (.str status),
    if (tool.get "findings").isNone then "—" else rt.str (tool.get "findings"),
    mdcell rt (tool.get "specialist")]

/-- `_render_tool_results`. -/
def renderToolResults : List Value → Result ReportPart :=
  tablePart "## Tool Results" "| Tool | Status | Findings | Specialist |"
    "|------|--------|----------|-----------|" (toolCells rt up)

/-- The cells of a specialist. -/
def specialistCells (specialist : Dict) : Result (List String) := do
  let status ← upperOf up ((specialist.get "status").or "—")
  return [mdcell rt (specialist.get "id"), status, rt.str (specialist.getD "critical" (.int 0)),
    rt.str (specialist.getD "important" (.int 0)), rt.str (specialist.getD "minor" (.int 0)),
    mdcell rt (specialist.get "key_finding")]

/-- `_render_specialists`. -/
def renderSpecialists : List Value → Result ReportPart :=
  tablePart "## Specialist Results" "| Specialist | Status | C | I | M | Key Finding |"
    "|-----------|--------|---|---|---|-------------|" (specialistCells rt up)

/-- The cells of a file. -/
def coverageCells (row : Dict) : Result (List String) := do
  let reviewers ← joinTexts (row.get "reviewers")
  return [mdcell rt (row.get "file"), mdcell rt ((Value.str reviewers).or "—")]

/-- `_render_coverage`. -/
def renderCoverage : List Value → Result ReportPart :=
  tablePart "## Coverage" "| File | Reviewed By |" "|------|-----------|" (coverageCells rt)

end

variable {rt : Runtime}

/-! ### Plain text -/

theorem plain_of_isAlphanum {c : Char} (h : c.isAlphanum = true) : Plain markdown c := by
  refine ⟨?_, ?_, ?_⟩
  · rintro rfl
    exact absurd h (by decide)
  · rintro rfl
    exact absurd h (by decide)
  · refine decide_eq_false ?_
    rintro (rfl | rfl)
    · exact absurd h (by decide)
    · exact absurd h (by decide)

theorem fits_toString (n : ℤ) : Fits markdown (toString n).toList := by
  refine fits_of_plain ?_
  intro c hc
  rcases Text.mem_toString hc with hdigit | rfl
  · exact plain_of_isAlphanum (by rw [Char.isAlphanum, hdigit, Bool.or_true])
  · exact ⟨by decide, by decide, by decide⟩

theorem fits_dash : Fits markdown "—".toList := by decide

theorem fits_none : Fits markdown (rt.str .none).toList := by
  change Fits markdown "None".toList
  decide

theorem plain_of_isUnreserved {c : Char} (h : Text.isUnreserved c = true) : Plain markdown c := by
  rcases Bool.or_eq_true _ _ ▸ h with halpha | hother
  · exact plain_of_isAlphanum halpha
  · have hmem : c ∈ ['_', '.', '-', '~'] := of_decide_eq_true hother
    simp only [List.mem_cons, List.not_mem_nil, or_false] at hmem
    rcases hmem with rfl | rfl | rfl | rfl <;> exact ⟨by decide, by decide, by decide⟩

theorem fits_quote (s : String) : Fits markdown (Text.quote s).toList := by
  refine fits_of_plain ?_
  intro c hc
  rcases Text.mem_quote hc with hkept | rfl
  · exact plain_of_isUnreserved hkept
  · exact ⟨by decide, by decide, by decide⟩

/-! ### Escaped text -/

/-- Blanks for the ends of lines change no bar. -/
theorem bars_blankCrlf (escaped : Bool) (cs : List Char) :
    bars markdown escaped (Text.blankCrlf cs) = bars markdown escaped cs := by
  induction cs using Text.blankCrlf.induct generalizing escaped with
  | case1 cs ih =>
    rw [Text.blankCrlf, bars_cons_of_ne (by decide) (by decide), ih,
      bars_cons_of_ne (by decide) (by decide), bars_cons_of_ne (by decide) (by decide)]
  | case2 c cs hpair ih =>
    rw [Text.blankCrlf, bars, bars, ih, ih]
    exact hpair
  | case3 => rfl

/-- The character that takes the place of a newline. -/
theorem bars_replaceNewline (escaped : Bool) (cs : List Char) :
    bars markdown escaped (cs.flatMap fun c => if c = '\n' then [' '] else [c]) =
      bars markdown escaped cs := by
  induction cs generalizing escaped with
  | nil => rfl
  | cons c cs ih =>
    rw [List.flatMap_cons]
    split_ifs with hc
    · rw [hc, List.singleton_append, bars_cons_of_ne (by decide) (by decide),
        bars_cons_of_ne (by decide) (by decide), ih]
    · rw [List.singleton_append, bars, bars, ih, ih]

theorem keepsBreaks_replaceChar {old : Char} {new : List Char} (hcr : '\r' ≠ old) (hlf : '\n' ≠ old)
    (hne : new ≠ []) (hnew : ∀ d ∈ new, d ≠ '\r' ∧ d ≠ '\n') :
    Text.KeepsBreaks fun c => if c = old then new else [c] where
  cr := if_neg hcr
  lf := if_neg hlf
  ne_nil c := by
    split_ifs
    · exact hne
    · exact List.cons_ne_nil _ _
  other c hc hc' d hd := by
    split_ifs at hd
    · exact hnew d hd
    · rw [List.mem_singleton] at hd
      exact hd ▸ ⟨hc, hc'⟩

/-- Escaping adds no end of a line. -/
theorem loneReturn_escape (cs : List Char) :
    Text.loneReturn (escape markdown cs) = Text.loneReturn cs := by
  have hesc : Text.KeepsBreaks fun c =>
      if c = markdown.esc then [markdown.esc, markdown.esc] else [c] :=
    keepsBreaks_replaceChar (by decide) (by decide) (by simp) (by simp [markdown])
  have hbar : Text.KeepsBreaks fun c =>
      if c = markdown.bar then [markdown.esc, markdown.bar] else [c] :=
    keepsBreaks_replaceChar (by decide) (by decide) (by simp) (by simp [markdown])
  rw [escape, Text.loneReturn_flatMap hbar, Text.loneReturn_flatMap hesc]

/-- Without newlines, only carriage returns end a line. -/
theorem unbroken_replaceNewline (cs : List Char) :
    (∀ c ∈ cs.flatMap fun c => if c = '\n' then [' '] else [c], markdown.isBreak c = false) ↔
      '\r' ∉ cs := by
  constructor
  · intro h hmem
    have hbreak := h '\r' (List.mem_flatMap.2 ⟨'\r', hmem, by simp⟩)
    exact absurd hbreak (by decide)
  · intro h c hc
    obtain ⟨d, hd, hc⟩ := List.mem_flatMap.1 hc
    split_ifs at hc with hlf
    · rw [List.mem_singleton.1 hc]
      decide
    · rw [List.mem_singleton.1 hc]
      refine decide_eq_false ?_
      rintro (rfl | rfl)
      · exact hlf rfl
      · exact h hd

theorem toList_mdcell {v : Value} (h : v ≠ .none) : (mdcell rt v).toList =
    (Text.blankCrlf (escape markdown (rt.str v).toList)).flatMap fun c =>
      if c = '\n' then [' '] else [c] := by
  have hcell : mdcell rt v = Text.replaceChar '\n' " " (Text.replaceCrlf
      (Text.replaceChar '|' "\\|" (Text.replaceChar '\\' "\\\\" (rt.str v)))) := by
    cases v with
    | none => exact absurd rfl h
    | _ => rfl
  rw [hcell, Text.replaceChar, Text.replaceCrlf, Text.replaceChar, Text.replaceChar]
  simp only [String.toList_ofList]
  rfl

/-- **An escaped text fits into a cell exactly when it has no lone carriage return.** -/
theorem fits_mdcell_iff (v : Value) :
    Fits markdown (mdcell rt v).toList ↔ Text.loneReturn (rt.str v).toList = false := by
  by_cases hv : v = .none
  · subst hv
    have hreturn : Text.loneReturn (rt.str .none).toList = false := by
      change Text.loneReturn "None".toList = false
      decide
    exact iff_of_true fits_dash hreturn
  · have hbars : bars markdown false (mdcell rt v).toList = 0 := by
      rw [toList_mdcell hv, bars_replaceNewline, bars_blankCrlf, bars_escape]
    have hline : (∀ c ∈ (mdcell rt v).toList, markdown.isBreak c = false) ↔
        Text.loneReturn (rt.str v).toList = false := by
      rw [toList_mdcell hv, unbroken_replaceNewline, Text.mem_blankCrlf, loneReturn_escape,
        Bool.not_eq_true]
    exact ⟨fun h => hline.1 h.unbroken, fun h => ⟨hline.2 h, hbars⟩⟩

/-! ### Links -/

/-- The file and the line of a link fit into a cell; a link without a file shows neither. -/
def LinkFits (rt : Runtime) (file line : Value) : Prop :=
  ∀ s, file = .str s → s ≠ "" →
    Fits markdown s.toList ∧ Fits markdown (rt.str line).toList

theorem fits_encoded (parts : List String) :
    Fits markdown (Text.join "/" (parts.map Text.quote)).toList := by
  have hslash : Plain markdown '/' := ⟨by decide, by decide, by decide⟩
  rw [Text.join, String.toList_intercalate]
  refine fits_intercalate hslash ?_
  intro text htext
  obtain ⟨t, ht, rfl⟩ := List.mem_map.1 htext
  obtain ⟨part, -, rfl⟩ := List.mem_map.1 ht
  exact fits_quote part

theorem fits_backquoted (s : String) :
    Fits markdown ("\x60" ++ s ++ "\x60").toList ↔ Fits markdown s.toList := by
  have hquote : Plain markdown '\x60' := ⟨by decide, by decide, by decide⟩
  have hlist : ("\x60" ++ s ++ "\x60").toList = '\x60' :: (s.toList ++ '\x60' :: []) := by simp
  rw [hlist, fits_cons hquote, fits_append_cons hquote, and_iff_left fits_nil]

/-- The characters of a link around its parts. -/
theorem plain_link : ∀ c ∈ ['[', ':', ']', '(', '.', '/', '#', 'L', ')'], Plain markdown c := by
  intro c hc
  simp only [List.mem_cons, List.not_mem_nil, or_false] at hc
  rcases hc with rfl | rfl | rfl | rfl | rfl | rfl | rfl | rfl | rfl <;>
    exact ⟨by decide, by decide, by decide⟩

theorem fits_link {file line up encoded : List Char} (hup : Fits markdown up)
    (hencoded : Fits markdown encoded) :
    Fits markdown ('[' :: (file ++ ':' :: (line ++ ']' :: (up ++ '/' ::
        (encoded ++ '#' :: 'L' :: (line ++ [')'])))))) ↔
      Fits markdown file ∧ Fits markdown line := by
  rw [fits_cons (plain_link '[' (by simp)), fits_append_cons (plain_link ':' (by simp)),
    fits_append_cons (plain_link ']' (by simp)), fits_append_cons (plain_link '/' (by simp)),
    fits_append_cons (plain_link '#' (by simp)), fits_cons (plain_link 'L' (by simp)),
    fits_append_cons (plain_link ')' (by simp)), and_iff_left fits_nil, and_iff_right hup,
    and_iff_right hencoded, and_self]

theorem fits_linked (s line encoded : String) (hencoded : Fits markdown encoded.toList) :
    Fits markdown ("[" ++ s ++ ":" ++ line ++ "](../../../" ++ encoded ++ "#L" ++ line ++
      ")").toList ↔ Fits markdown s.toList ∧ Fits markdown line.toList := by
  have hlist : ("[" ++ s ++ ":" ++ line ++ "](../../../" ++ encoded ++ "#L" ++ line ++ ")").toList =
      '[' :: (s.toList ++ ':' :: (line.toList ++ ']' :: ("(../../..".toList ++ '/' ::
        (encoded.toList ++ '#' :: 'L' :: (line.toList ++ [')']))))) := by
    simp
  have hchars : "(../../..".toList ⊆ ['[', ':', ']', '(', '.', '/', '#', 'L', ')'] := by decide
  have hup : Fits markdown "(../../..".toList := by
    refine fits_of_plain ?_
    intro c hc
    exact plain_link c (hchars hc)
  rw [hlist]
  exact fits_link hup hencoded

/-- **A link fits into a cell exactly when its file and its line do.** -/
theorem fits_fileLink_iff (file line : Value) :
    Fits markdown (fileLink rt file line).toList ↔ LinkFits rt file line := by
  cases file with
  | str s =>
    by_cases hs : s = ""
    · subst hs
      refine iff_of_true fits_dash ?_
      intro t ht hne
      exact absurd (Value.str.inj ht).symm hne
    · have hlink : LinkFits rt (.str s) line ↔
          Fits markdown s.toList ∧ Fits markdown (rt.str line).toList := by
        constructor
        · intro h
          exact h s rfl hs
        · rintro h t ht -
          exact Value.str.inj ht ▸ h
      have hencoded := fits_encoded (Text.split '/' s)
      rw [hlink, fileLink]
      simp only [if_neg hs]
      cases line with
      | none =>
        rw [and_iff_left fits_none]
        exact fits_backquoted s
      | _ => exact fits_linked s _ _ hencoded
  | _ =>
    refine iff_of_true fits_dash ?_
    intro t ht
    cases ht

end CodeReview
