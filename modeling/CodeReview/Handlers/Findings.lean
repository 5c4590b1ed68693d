import CodeReview.Handlers.Common
import CodeReview.Lib.UnionFind

/-!
# Consolidating findings

`handle_collect_findings` groups the findings of all completed specialists by file, line and title,
sorts them, merges the entries that describe the same bug in other words, and tags each entry with
its corroboration and a `primary` flag.  The stages are separate functions here: `groupFindings`,
`sortFindings`, `mergeGroups` with `mergeGroup`, and `tagFinding`.

The embedding command is a parameter: on a list of texts it gives their vectors, or nothing when no
command is configured or it fails.
-/

namespace CodeReview

open Py

/-- The embedding command. -/
abbrev Embed := List String → Option (List (List Double))

variable (rt : Runtime) (embed : Embed)

/-! ### Exact grouping -/

/-- `_normalise_title`. -/
def normaliseTitle : Value → String
  | .str title => Text.collapseSpace (rt.lower (Text.strip title))
  | _ => ""

/-- `_dedup_key`. -/
def dedupKey (finding : Dict) : String :=
  let file := rt.str ((finding.get "file").or (.str ""))
  let line := match finding.get "line" with
    | .none => ""
    | v => rt.str v
  file ++ "::" ++ line ++ "::" ++ normaliseTitle rt (finding.get "title")

/-- `_pick_winner(a, b) is a`. -/
def firstWins (a b : Dict) : Result Bool := do
  let aSev ← rankOf (a.getD "severity" (.str ""))
  let bSev ← rankOf (b.getD "severity" (.str ""))
  if aSev ≠ bSev then return decide (bSev < aSev)
  else
    let origin (d : Dict) := ((d.get "__winner").or (d.get "__origin")).or (.str "")
    Value.le? (origin a) (origin b)

/-- `set.add`. -/
def setAdd (vs : List Value) (v : Value) : Result (List Value) :=
  if v.hashable then .ok (if vs.any (·.eqv v) then vs else vs ++ [v]) else .error .typeError

/-- `set(vs)`. -/
def setOf (vs : List Value) : Result (List Value) := vs.foldlM setAdd []

/-- Who flagged the record so far. -/
def flaggedSet (existing : Option Dict) : Result (List Value) :=
  match existing with
  | some record => do setOf (← (flaggedBy record).iter)
  | none => .ok []

/-- `source_ids`: who flagged the record so far, and the specialist at hand. -/
def sourceIds (existing : Option Dict) (specialistId : Value) : Result (List Value) := do
  setAdd (← flaggedSet existing) specialistId

/-- The winner of the old record and the new finding, with its origin. -/
def pickWinner (existing : Option Dict) (specialistId : Value) (stamped : Dict) :
    Result (Dict × Value) :=
  match existing with
  | none => .ok (stamped, specialistId)
  | some record => do
    if ← firstWins record stamped then
      return (record, (record.get "__winner").or (record.get "__origin"))
    else return (stamped, specialistId)

/-- The record that replaces `existing` once `finding` is folded in.  A record is never empty, so
`if existing` asks whether there is one. -/
def foldRecord (existing : Option Dict) (specialistId : Value) (finding : Dict) :
    Result Dict := do
  let sources ← sourceIds existing specialistId
  let (winner, winnerOrigin) ←
    pickWinner existing specialistId (Assoc.set finding "__origin" specialistId)
  let flagged ← sorted? Value.lt? sources
  return Assoc.set
    (Assoc.set (Assoc.without winner ["__origin", "__winner"]) "flagged_by" (.list flagged))
    "__winner" (winnerOrigin.or specialistId)

/-- One finding of one specialist. -/
def absorb (merged : List (String × Dict)) (report : Value × Dict) :
    Result (List (String × Dict)) := do
  let key := dedupKey rt report.2
  let record ← foldRecord (Assoc.get? merged key) report.1 report.2
  return Assoc.set merged key record

/-- The findings of the completed specialists, each with the specialist's id. -/
def reports (specialistOutputs : List Value) : List (Value × Dict) :=
  (dicts specialistOutputs).flatMap fun specialist =>
    if (specialist.get "status").eqv (.str "completed") then
      (dicts (ensureList (specialist.get "findings"))).map fun finding =>
        (specialist.getD "id" (.str ""), finding)
    else []

/-- `merged`: the records by key, in order of first report. -/
def groupFindings (specialistOutputs : List Value) : Result (List (String × Dict)) :=
  (reports specialistOutputs).foldlM (absorb rt) []

/-- Publish the winner's origin under its final name. -/
def finishRecord (record : Dict) : Dict :=
  let rest := Assoc.without record ["__winner"]
  match record.get "__winner" with
  | .none => rest
  | winner => Assoc.set rest "winner" winner

/-! ### Sorting -/

/-- `_sort_key`, with the rank not yet negated. -/
structure SortKey where
  rank : ℕ
  file : Value
  line : ℤ
  title : String

/-- `_sort_key`. -/
def sortKey (f : Dict) : Result SortKey := do
  let rank ← rankOf (f.getD "severity" (.str ""))
  return {
    rank
    file := (f.get "file").or (.str "")
    line := (f.get "line").asInt?.getD 0
    title := normaliseTitle rt (f.get "title") }

/-- The order of the key tuples: higher severity first. -/
def SortKey.lt? (a b : SortKey) : Result Bool :=
  if a.rank ≠ b.rank then .ok (decide (b.rank < a.rank))
  else if !a.file.eqv b.file then Value.lt? a.file b.file
  else if a.line ≠ b.line then .ok (decide (a.line < b.line))
  else .ok (decide (a.title < b.title))

/-- `findings_out.sort(key=_sort_key)`. -/
def sortFindings (findings : List Dict) : Result (List Dict) := do
  let keyed ← Result.withKeys (sortKey rt) findings
  return (← sorted? (fun a b => SortKey.lt? a.1 b.1) keyed).map Prod.snd

/-! ### Semantic merge -/

/-- `_finding_text`. -/
def findingText (f : Dict) : String :=
  Text.strip (rt.str (f.getD "title" (.str "")) ++ ". " ++ rt.str (f.getD "description" (.str "")))

/-- `_embed_texts`: an answer of the wrong length is no answer. -/
def embedTexts (texts : List String) : Option (List (List Double)) :=
  (embed texts).filter fun vecs => vecs.length = texts.length

/-- `_cosine`. -/
def cosine (a b : List Double) : Double :=
  (List.zipWith Double.mul a b).foldl Double.add (.fin 0)

/-- `_token_jaccard(a, b) >= 0.5`: half of the union of the tokens is shared. -/
def similarTokens (a b : String) : Bool :=
  let ta := (Text.words (rt.lower a)).dedup
  let tb := (Text.words (rt.lower b)).dedup
  let union := (ta ∪ tb).length
  let inter := (ta.filter (· ∈ tb)).length
  union ≠ 0 && union ≤ 2 * inter

/-- The similarity test between the findings at two positions. -/
def similarAt (texts : List String) (vecs : Option (List (List Double))) (i j : ℕ) : Bool :=
  match vecs with
  | some vecs => (cosine (vecs.getD i []) (vecs.getD j [])).ge (.fin (4 / 5))
  | none => similarTokens rt (texts.getD i "") (texts.getD j "")

/-- The pair is reported in the same file, and at the same line or in similar words. -/
def sameBug (findings : List Dict) (texts : List String) (vecs : Option (List (List Double)))
    (i j : ℕ) : Bool :=
  let fi := findings.getD i []
  let fj := findings.getD j []
  let sameLoc := !(fi.get "line").isNone && (fi.get "line").eqv (fj.get "line")
  ((fi.get "file").or (.str "")).eqv ((fj.get "file").or (.str "")) &&
    (sameLoc || similarAt rt texts vecs i j)

/-- The pairs `i < j < n`, in the order of the two loops. -/
def pairsBelow (n : ℕ) : List (ℕ × ℕ) :=
  (List.range n).flatMap fun i => ((List.range n).filter (i < ·)).map fun j => (i, j)

/-- `groups.setdefault(find(i), []).append(i)`. -/
def groupStep (s : UnionFind × List (ℕ × List ℕ)) (i : ℕ) : UnionFind × List (ℕ × List ℕ) :=
  ((s.1.find i).2, Assoc.set s.2 (s.1.find i).1 ((Assoc.get? s.2 (s.1.find i).1).getD [] ++ [i]))

/-- The positions below `n` by their root. -/
def groupByRoot (n : ℕ) (forest : UnionFind) : List (ℕ × List ℕ) :=
  ((List.range n).foldl groupStep (forest, [])).2

/-- The groups of positions that `_semantic_merge` collapses; below two findings it does nothing. -/
def mergeGroups (findings : List Dict) : List (List ℕ) :=
  let n := findings.length
  if n < 2 then (List.range n).map ([·])
  else
    let texts := findings.map (findingText rt)
    let vecs := embedTexts embed texts
    let forest := (pairsBelow n).foldl (fun u p =>
      if sameBug rt findings texts vecs p.1 p.2 then u.union p.1 p.2 else u) UnionFind.singletons
    (groupByRoot n forest).map Prod.snd

/-- `float(f.get("confidence") or 0.0)`. -/
def confidence (f : Dict) : Result Double :=
  rt.toFloat ((f.get "confidence").or (.float (.fin 0)))

/-- The key of the representative: severity, then confidence. -/
def repKey (f : Dict) : Result (ℕ × Double) := do
  let rank ← rankOf (f.getD "severity" (.str ""))
  return (rank, ← confidence rt f)

/-- `key > best` for two such keys. -/
def keyGt (key best : ℕ × Double) : Bool :=
  if key.1 ≠ best.1 then decide (best.1 < key.1)
  else !key.2.eq best.2 && best.2.lt key.2

/-- `max(members, key=...)`: the first member whose key no later one exceeds. -/
def maxBy {α : Type} (gt : α → α → Bool) (first : α) (rest : List α) : α :=
  rest.foldl (fun best a => if gt a best then a else best) first

/-- The strings of `f.get("flagged_by") or []`. -/
def flagsOf (f : Dict) : Result (List String) := strs <$> (flaggedBy f).iter

/-- The entry that a group of findings collapses to; a group of one is kept as it is. -/
def mergeEntries : List Dict → Result Dict
  | [] => .ok []
  | [f] => .ok f
  | f :: g :: fs => do
    let keyed ← Result.withKeys (repKey rt) (f :: g :: fs)
    let rep := match keyed with
      | [] => f
      | k :: ks => (maxBy (fun a b => keyGt a.1 b.1) k ks).2
    let flags ← (f :: g :: fs).mapM flagsOf
    let confs ← (f :: g :: fs).mapM (confidence rt)
    let conf := confs.foldl (fun best c => if best.lt c then c else best) (.fin 0)
    let out := Assoc.set rep "flagged_by" (ofStrs (sortedSet flags.flatten))
    let out := if conf.truthy then Assoc.set out "confidence" (.float conf) else out
    return Assoc.set out "merged_count" (.int (f :: g :: fs).length)

/-- The merged entry of the findings at the given positions. -/
def mergeGroup (findings : List Dict) (members : List ℕ) : Result Dict :=
  mergeEntries rt (members.map fun m => findings.getD m [])

/-- `_semantic_merge`. -/
def semanticMerge (findings : List Dict) : Result (List Dict) :=
  (mergeGroups rt embed findings).mapM (mergeGroup rt findings)

/-! ### Tags and counts -/

/-- `try: x except (TypeError, ValueError): fallback`. -/
def orOnBadNumber {α : Type} (x : Result α) (fallback : α) : Result α :=
  match x with
  | .error .typeError => .ok fallback
  | .error .valueError => .ok fallback
  | x => x

/-- The `primary-threshold` argument, 0.75 by default. -/
def primaryThreshold (args : Dict) : Result Double :=
  orOnBadNumber (rt.toFloat (args.getD "primary-threshold" (.float (.fin (3 / 4)))))
    (.fin (3 / 4))

/-- The `primary` flag: by confidence when the entry has one, else by severity and
corroboration. -/
def isPrimary (threshold : Double) (f : Dict) (corroboration : ℕ) : Result Bool :=
  let critical := (f.get "severity").eqv (.str "critical")
  match f.get "confidence" with
  | .none =>
    .ok (critical || (f.get "severity").eqv (.str "important") && decide (2 ≤ corroboration))
  | conf => orOnBadNumber (do return (← rt.toFloat conf).ge threshold) critical

/-- Corroboration and the `primary` flag of one entry. -/
def tagFinding (threshold : Double) (f : Dict) : Result Dict := do
  let corroboration ← (flaggedBy f).len?
  let primary ← isPrimary rt threshold f corroboration
  return Assoc.set (Assoc.set f "corroboration" (.int corroboration)) "primary" (.bool primary)

/-- One more finding of its severity, when that is a known one. -/
def countSeverity (counts : List (String × ℕ)) (sev : Value) : Result (List (String × ℕ)) := do
  if ← Value.contains? (counts.map Prod.fst) sev then
    return counts.map fun c => if sev.eqv (.str c.1) then (c.1, c.2 + 1) else c
  else return counts

/-- No finding of any severity. -/
def noCounts : List (String × ℕ) := validSeverities.map (·, 0)

/-- The outputs of the collector. -/
structure Collected where
  findings : List Dict
  severityCounts : List (String × ℕ)
  primaryCount : ℕ

/-- The outputs as a dictionary. -/
def Collected.toDict (c : Collected) : Dict :=
  [("findings", .list (c.findings.map .dict)),
    ("severity_counts", .dict (c.severityCounts.map fun sn => (sn.1, .int sn.2))),
    ("primary_count", .int c.primaryCount)]

/-- The entries before they are tagged, in their final order. -/
def consolidate (specialistOutputs : List Value) : Result (List Dict) := do
  let merged ← groupFindings rt specialistOutputs
  let sorted ← sortFindings rt (merged.map fun kr => finishRecord kr.2)
  sortFindings rt (← semanticMerge rt embed sorted)

/-- `handle_collect_findings`. -/
def collectFindings (env : Dict) : Result Collected := do
  let entries ← consolidate rt embed (ensureList (env.get "specialist_outputs"))
  let threshold ← primaryThreshold rt (ensureDict (env.get "args"))
  let findings ← entries.mapM (tagFinding rt threshold)
  let severityCounts ← findings.foldlM (fun c f => countSeverity c (f.get "severity")) noCounts
  return { findings, severityCounts, primaryCount := findings.countP fun f =>
    (f.get "primary").truthy }

end CodeReview
