import CodeReview.Handlers.Common
import Mathlib.Data.List.Infix

/-!
# Release readiness

`handle_synthesize_release_readiness` routes every picked leaf into the gates it matches, marks a
gate as failed when a leaf in it has raised a blocking finding, and answers GO unless a gate failed
or the coverage rule was violated.

* `mem_blockingFlaggedBy` : the blocking set holds the strings that flag a critical or important
  finding;
* `synthesize_go_iff` : **the verdict is GO exactly when coverage holds and no blocking finding is
  flagged by a picked leaf that matches a gate**;
* `exists_gate_of_dimension` : each of the seven review dimensions leads to a gate.
-/

namespace CodeReview

open Py

/-! ### Gates -/

/-- `_tags_like_from_leaf`: the id, its segments, and every run of two to four segments. -/
def tagsLikeFromLeaf (leaf : Dict) : List String :=
  match leaf.get "id" with
  | .str leafId =>
    if leafId = "" then []
    else
      let segments := Text.split '-' leafId
      sortedSet <| leafId :: (List.range segments.length).flatMap fun i =>
        [1, 2, 3, 4].filterMap fun n =>
          if i + n ≤ segments.length then some (Text.join "-" ((segments.drop i).take n)) else none
  | _ => []

/-- `name in dims`: membership in a list, a substring of a string, a key of a dict. -/
def inDims (name : String) : Value → Result Bool
  | .list xs => .ok (xs.any fun x => x.eqv (.str name))
  | .str s => .ok (decide (name.toList <:+: s.toList))
  | .dict kvs => .ok (Dict.has kvs name)
  | _ => .error .typeError

/-- `any(d in {...} for d in dims)`. -/
def anyDimIn (names : List String) (dims : Value) : Result Bool := do
  Result.any? (Value.contains? names) (← dims.iter)

/-- `any(t in {...} for t in tags_like)`. -/
def anyTagIn (names tagsLike : List String) : Bool := tagsLike.any (· ∈ names)

/-- `a or b`, where `b` runs only when `a` is false. -/
def orElse (a : Result Bool) (b : Unit → Result Bool) : Result Bool := do
  if ← a then return true else b ()

/-- `_gate_matches`. -/
def gateMatches (number : ℕ) (leaf : Dict) (tagsLike : List String) : Result Bool :=
  let dims := (leaf.get "dimensions").or (.list [])
  let leafId := leaf.getD "id" (.str "")
  match number with
  | 1 => orElse (inDims "readability" dims) fun _ => .ok <| anyTagIn
      ["solid", "dry", "kiss", "yagni", "clean-code", "naming", "complexity"] tagsLike
  | 2 => do
    if ← inDims "correctness" dims then
      return anyTagIn ["error-handling", "resilience", "fault-tolerance", "retry",
        "circuit-breaker", "concurrency", "async"] tagsLike
    else return false
  | 3 => orElse (inDims "correctness" dims) fun _ => .ok <| anyTagIn
      ["type-safety", "idioms", "dead-code", "language-quality", "initialization", "startup",
        "shutdown"] tagsLike
  | 4 => inDims "tests" dims
  | 5 => orElse (anyDimIn ["architecture", "performance"] dims) fun _ => .ok <| anyTagIn
      ["api-design", "module-boundaries", "dependencies", "layering", "ddd", "microservices"]
      tagsLike
  | 6 => orElse (inDims "security" dims) fun _ => .ok <| anyTagIn
      ["hooks-safety", "supply-chain", "dependencies-security"] tagsLike
  | 7 => inDims "documentation" dims
  | 8 =>
    orElse (.ok (anyTagIn ["cli", "api", "observability"] tagsLike)) fun _ =>
      orElse (.ok (tagsLike.any (Text.startsWith · "domain-"))) fun _ =>
        match leafId with
        | .str s => .ok (["domain-", "obs-", "cli-", "api-"].any (Text.startsWith s))
        | _ => .error .attributeError
  | _ => .ok false

/-- The leaf contributes to the gate; a predicate that raises counts as no match. -/
def contributes (number : ℕ) (leaf : Dict) : Bool :=
  match gateMatches number leaf (tagsLikeFromLeaf leaf) with
  | .ok b => b
  | .error _ => false

/-! ### The verdict -/

/-- The strings that flag one finding, when it blocks. -/
def blockersOf (f : Dict) : Result (List String) := do
  if ← Value.contains? blockingSeverities (f.get "severity") then
    return strs (← (flaggedBy f).iter)
  else return []

/-- `blocking_flagged_by`, as the list of what is added to the set. -/
def blockingFlaggedBy (findings : List Value) : Result (List String) :=
  List.flatten <$> (dicts findings).mapM blockersOf

/-- The leaf's id is a string of the blocking set. -/
def isBlocker (blocking : List String) (leaf : Dict) : Bool :=
  (leaf.get "id").asStr?.elim false (· ∈ blocking)

/-- One gate over the picked leaves. -/
def gateRow (blocking : List String) (picked : List Dict) (gate : ℕ × String) : GateRow :=
  let contributing := picked.filter (contributes gate.1)
  let blockerCount := contributing.countP (isBlocker blocking)
  { number := gate.1
    name := gate.2
    status := if contributing.isEmpty then .notApplicable
      else if blockerCount = 0 then .pass else .fail
    contributingLeaves := (strs (contributing.map (·.get "id"))).insertionSort (· ≤ ·)
    blockerCount }

/-- The outputs of the synthesiser. -/
structure Readiness where
  gates : List GateRow
  verdict : Verdict
  deriving DecidableEq, Repr

/-- The outputs as a dictionary. -/
def Readiness.toDict (r : Readiness) : Dict :=
  [("gates", .list (r.gates.map GateRow.toValue)), ("verdict", .str r.verdict.text)]

/-- `handle_synthesize_release_readiness`. -/
def synthesizeReleaseReadiness (env : Dict) : Result Readiness := do
  let blocking ← blockingFlaggedBy (ensureList (env.get "findings"))
  let picked := dicts (ensureList (env.get "picked_leaves"))
  let gates := gateTable.map (gateRow blocking picked)
  let anyFail := gates.any fun g => g.status = .fail
  let coverageRuleViolated := (env.get "coverage_rule_violated").truthy
  return { gates, verdict := if anyFail || coverageRuleViolated then .noGo else .go }

/-! ### What a verdict says -/

/-- The finding has a severity that blocks a release. -/
def Blocking (f : Dict) : Prop := ∃ sev ∈ blockingSeverities, f.get "severity" = .str sev

/-- The finding's `flagged_by` yields the string `s`. -/
def Flags (f : Dict) (s : String) : Prop :=
  ∃ xs, (flaggedBy f).iter = .ok xs ∧ .str s ∈ xs

/-- The leaf lands in one of the eight gates. -/
def MatchesGate (leaf : Dict) : Prop := ∃ gate ∈ gateTable, contributes gate.1 leaf = true

/-- Some blocking finding is flagged by the id of a picked leaf that lands in a gate. -/
def BlockedAtGate (env : Dict) : Prop :=
  ∃ f leaf s, .dict f ∈ ensureList (env.get "findings") ∧ Blocking f ∧ Flags f s ∧
    .dict leaf ∈ ensureList (env.get "picked_leaves") ∧ leaf.get "id" = .str s ∧ MatchesGate leaf

/-- The finding can be read: its severity has a hash, and when it blocks its `flagged_by` is empty
or can be iterated. -/
def Readable (f : Dict) : Prop :=
  (f.get "severity").hashable = true ∧
    (Blocking f → Result.Ok (flaggedBy f).iter)

theorem blockersOf_ok_iff {f : Dict} : Result.Ok (blockersOf f) ↔ Readable f := by
  rw [blockersOf, Result.ok_bind_iff]
  by_cases hh : (f.get "severity").hashable = true
  · simp only [Readable, hh, true_and, Value.contains?, if_true]
    constructor
    · rintro ⟨b, hb, hok⟩ ⟨sev, hsev, hf⟩
      simp only [Except.ok.injEq] at hb
      rw [← hb, hf] at hok
      obtain ⟨xs, hxs, -⟩ := Result.ok_bind_iff.1 (by simpa [Value.asStr?, hsev] using hok)
      exact ⟨xs, hxs⟩
    · intro h
      refine ⟨_, rfl, ?_⟩
      split_ifs with hb
      · have hblock : Blocking f := by
          cases hs : f.get "severity" with
          | str s =>
            refine ⟨s, ?_, hs⟩
            simpa [hs, Value.asStr?] using hb
          | _ => simp [hs, Value.asStr?] at hb
        obtain ⟨xs, hxs⟩ := h hblock
        simp [hxs]
      · exact Result.ok_ok _
  · simp [Readable, hh, Value.contains?]

theorem mem_of_blockersOf {f : Dict} {bs : List String} (h : blockersOf f = .ok bs) {s : String} :
    s ∈ bs ↔ Blocking f ∧ Flags f s := by
  obtain ⟨b, hb, h⟩ := Result.bind_eq_ok.1 h
  cases b with
  | true =>
    obtain ⟨sev, hsev, hf⟩ := Value.contains?_eq_true.1 hb
    obtain ⟨xs, hxs, h⟩ := Result.bind_eq_ok.1 (by simpa using h)
    simp only [Except.ok.injEq] at h
    have hflags : Flags f s ↔ .str s ∈ xs := by
      constructor
      · rintro ⟨ys, hys, hs⟩
        simp only [hxs, Except.ok.injEq] at hys
        exact hys ▸ hs
      · exact fun hs => ⟨xs, hxs, hs⟩
    rw [← h, mem_strs, hflags]
    exact (and_iff_right ⟨sev, hsev, hf⟩).symm
  | false =>
    simp only [Bool.false_eq_true, if_false, Result.pure_eq_ok, Except.ok.injEq] at h
    simp only [← h, List.not_mem_nil, false_iff, not_and]
    rintro ⟨sev, hsev, hf⟩
    rw [Value.contains?_eq_true.2 ⟨sev, hsev, hf⟩] at hb
    simp at hb

/-- Collecting the blocking leaves raises exactly on an unreadable finding. -/
theorem blockingFlaggedBy_ok_iff {findings : List Value} :
    Result.Ok (blockingFlaggedBy findings) ↔ ∀ f, .dict f ∈ findings → Readable f := by
  constructor
  · rintro ⟨bs, h⟩ f hf
    obtain ⟨bss, hbss, -⟩ := Result.map_eq_ok.1 h
    obtain ⟨b, -, hb⟩ := Result.exists_of_mapM_left hbss (mem_dicts.2 hf)
    exact blockersOf_ok_iff.1 ⟨b, hb⟩
  · intro h
    obtain ⟨bss, hbss⟩ := Result.mapM_ok (f := blockersOf) fun f hf =>
      blockersOf_ok_iff.2 (h f (mem_dicts.1 hf))
    exact ⟨bss.flatten, by rw [blockingFlaggedBy, hbss]; rfl⟩

/-- The blocking set holds the strings that flag a blocking finding. -/
theorem mem_blockingFlaggedBy {findings : List Value} {bs : List String}
    (h : blockingFlaggedBy findings = .ok bs) {s : String} :
    s ∈ bs ↔ ∃ f, .dict f ∈ findings ∧ Blocking f ∧ Flags f s := by
  obtain ⟨bss, hbss, rfl⟩ := Result.map_eq_ok.1 h
  rw [List.mem_flatten]
  constructor
  · rintro ⟨b, hb, hs⟩
    obtain ⟨f, hf, hfb⟩ := Result.exists_of_mapM_right hbss hb
    exact ⟨f, mem_dicts.1 hf, (mem_of_blockersOf hfb).1 hs⟩
  · rintro ⟨f, hf, hs⟩
    obtain ⟨b, hb, hfb⟩ := Result.exists_of_mapM_left hbss (mem_dicts.2 hf)
    exact ⟨b, hb, (mem_of_blockersOf hfb).2 hs⟩

/-- A gate fails when a leaf in it is a blocker. -/
theorem gateRow_fail_iff {blocking : List String} {picked : List Dict} {gate : ℕ × String} :
    (gateRow blocking picked gate).status = .fail ↔
      ∃ leaf ∈ picked, contributes gate.1 leaf = true ∧ isBlocker blocking leaf = true := by
  have hcount : (picked.filter (contributes gate.1)).countP (isBlocker blocking) ≠ 0 ↔
      ∃ leaf ∈ picked, contributes gate.1 leaf = true ∧ isBlocker blocking leaf = true := by
    rw [← Nat.pos_iff_ne_zero, List.countP_pos_iff]
    simp only [List.mem_filter, and_assoc]
  rw [← hcount]
  simp only [gateRow]
  split_ifs with hempty hzero
  · simp [List.isEmpty_iff.1 hempty]
  · simp [hzero]
  · simp [hzero]

theorem isBlocker_iff {blocking : List String} {leaf : Dict} :
    isBlocker blocking leaf = true ↔ ∃ s ∈ blocking, leaf.get "id" = .str s := by
  cases h : leaf.get "id" <;> simp [isBlocker, h, Value.asStr?]

/-- The synthesiser raises exactly on an unreadable finding. -/
theorem synthesize_ok_iff {env : Dict} :
    Result.Ok (synthesizeReleaseReadiness env) ↔
      ∀ f, .dict f ∈ ensureList (env.get "findings") → Readable f := by
  rw [← blockingFlaggedBy_ok_iff, synthesizeReleaseReadiness, Result.ok_bind_iff]
  exact ⟨fun ⟨bs, hbs, _⟩ => ⟨bs, hbs⟩, fun ⟨bs, hbs⟩ => ⟨bs, hbs, Result.ok_ok _⟩⟩

/-- **The verdict is GO exactly when the coverage rule holds and no blocking finding is flagged by
a picked leaf that lands in a gate.** -/
theorem synthesize_go_iff {env : Dict} {r : Readiness}
    (h : synthesizeReleaseReadiness env = .ok r) :
    r.verdict = .go ↔
      (env.get "coverage_rule_violated").truthy = false ∧ ¬ BlockedAtGate env := by
  obtain ⟨bs, hbs, h⟩ := Result.bind_eq_ok.1 h
  simp only [Result.pure_eq_ok, Except.ok.injEq] at h
  subst h
  set picked := dicts (ensureList (env.get "picked_leaves")) with hpicked
  have hfail : (gateTable.map (gateRow bs picked)).any (fun g => g.status = .fail) = true ↔
      BlockedAtGate env := by
    simp only [List.any_map, List.any_eq_true, Function.comp, decide_eq_true_eq, gateRow_fail_iff,
      isBlocker_iff, mem_blockingFlaggedBy hbs, hpicked, mem_dicts]
    constructor
    · rintro ⟨gate, hgate, leaf, hleaf, hc, s, ⟨f, hf, hb, hs⟩, hid⟩
      exact ⟨f, leaf, s, hf, hb, hs, hleaf, hid, gate, hgate, hc⟩
    · rintro ⟨f, leaf, s, hf, hb, hs, hleaf, hid, gate, hgate, hc⟩
      exact ⟨gate, hgate, leaf, hleaf, hc, s, ⟨f, hf, hb, hs⟩, hid⟩
  rw [← hfail]
  cases (gateTable.map (gateRow bs picked)).any fun g => g.status = .fail <;>
    cases (env.get "coverage_rule_violated").truthy <;> simp

/-! ### Dimensions lead to gates -/

/-- The closed vocabulary of review dimensions. -/
def reviewDimensions : List String :=
  ["architecture", "correctness", "documentation", "performance", "readability", "security",
    "tests"]

/-- The number of the gate a dimension leads to. -/
def gateOfDimension : String → ℕ
  | "readability" => 1
  | "correctness" => 3
  | "tests" => 4
  | "architecture" => 5
  | "performance" => 5
  | "security" => 6
  | _ => 7

theorem inDims_of_mem {name : String} {dims : List Value} (h : .str name ∈ dims) :
    inDims name (.list dims) = .ok true := by
  simp only [inDims, Except.ok.injEq, List.any_eq_true]
  exact ⟨_, h, by simp⟩

/-- A list of strings is searched without raising. -/
theorem anyDimIn_of_mem {names dims : List String} {name : String} (hn : name ∈ names)
    (h : name ∈ dims) : anyDimIn names (ofStrs dims) = .ok true := by
  simp only [anyDimIn, ofStrs, Value.iter_list, Result.ok_bind]
  induction dims with
  | nil => cases h
  | cons d dims ih =>
    by_cases hd : d ∈ names
    · simp [Result.any?, hd]
    · have hne : name ≠ d := fun e => hd (e ▸ hn)
      simp [Result.any?, hd, ih ((List.mem_cons.1 h).resolve_left hne)]

/-- A leaf that lists one of the seven dimensions, all of them strings, lands in a gate. -/
theorem exists_gate_of_dimension {leaf : Dict} {dims : List String} {name : String}
    (hdims : leaf.get "dimensions" = ofStrs dims) (hname : name ∈ reviewDimensions)
    (h : name ∈ dims) : MatchesGate leaf := by
  have hor : (leaf.get "dimensions").or (.list []) = ofStrs dims := by
    have hne : dims ≠ [] := List.ne_nil_of_mem h
    rw [hdims, Value.or_of_truthy]
    simpa [ofStrs] using hne
  have hin : inDims name (ofStrs dims) = .ok true := inDims_of_mem (List.mem_map_of_mem h)
  have hany : name ∈ ["architecture", "performance"] →
      anyDimIn ["architecture", "performance"] (ofStrs dims) = .ok true :=
    fun hn => anyDimIn_of_mem hn h
  have hgate : ∀ gate ∈ gateTable, gate.1 = gateOfDimension name → MatchesGate leaf := by
    intro gate hg hnum
    refine ⟨gate, hg, ?_⟩
    rw [contributes, hnum]
    simp only [reviewDimensions, List.mem_cons, List.not_mem_nil, or_false] at hname
    rcases hname with rfl | rfl | rfl | rfl | rfl | rfl | rfl <;>
      simp only [gateOfDimension, gateMatches, hor] <;>
      first
      | rw [hin]; rfl
      | rw [hany (by simp)]; rfl
      | simp only [hin]
  -- the table of the gates has the number of each dimension
  have hnum : ∃ gate ∈ gateTable, gate.1 = gateOfDimension name := by
    simp only [reviewDimensions, List.mem_cons, List.not_mem_nil, or_false] at hname
    rcases hname with rfl | rfl | rfl | rfl | rfl | rfl | rfl <;> decide
  obtain ⟨gate, hg, hnum⟩ := hnum
  exact hgate gate hg hnum

/-! ### Blocking findings and GO -/

/-- **GO leaves no blocking finding at a gate.**  The verdict is GO exactly when coverage holds and
no critical or important finding is flagged by the id of a picked leaf that lands in a gate; so no
such finding is flagged by a leaf that lists one of the seven review dimensions. -/
theorem go_leaves_no_gated_blocker {env : Dict} {r : Readiness}
    (h : synthesizeReleaseReadiness env = .ok r) :
    (r.verdict = .go ↔
      (env.get "coverage_rule_violated").truthy = false ∧ ¬ BlockedAtGate env) ∧
    (r.verdict = .go → ∀ (f leaf : Dict) (s : String) (dims : List String),
      .dict f ∈ ensureList (env.get "findings") → Blocking f → Flags f s →
      .dict leaf ∈ ensureList (env.get "picked_leaves") → leaf.get "id" = .str s →
      leaf.get "dimensions" = ofStrs dims → ∀ name ∈ reviewDimensions, name ∉ dims) := by
  refine ⟨synthesize_go_iff h, ?_⟩
  intro hgo f leaf s dims hf hb hs hleaf hid hdims name hname hmem
  have hgate : MatchesGate leaf := exists_gate_of_dimension hdims hname hmem
  exact ((synthesize_go_iff h).1 hgo).2 ⟨f, leaf, s, hf, hb, hs, hleaf, hid, hgate⟩

/-- A critical finding as the collector returns it, flagged by the leaf `footgun-timezones`. -/
def criticalFinding : Dict :=
  [("severity", "critical"), ("file", "a.py"), ("line", .int 3), ("title", "naive datetime"),
    ("flagged_by", ofStrs ["footgun-timezones"]), ("winner", "footgun-timezones"),
    ("corroboration", .int 1), ("primary", .bool true)]

/-- The outputs the synthesiser reads, with one picked leaf of the given dimensions. -/
def reviewedBy (dimensions : List String) : Dict :=
  [("findings", .list [.dict criticalFinding]),
    ("picked_leaves", .list [.dict [("id", "footgun-timezones"),
      ("path", "footgun/footgun-timezones.md"), ("justification", "dates are parsed"),
      ("dimensions", ofStrs dimensions)]]),
    ("coverage_rule_violated", .bool false)]

/-- A leaf without dimensions, whose id names no gate, has its critical finding ignored. -/
theorem go_with_critical_finding :
    ¬ ∀ env r, synthesizeReleaseReadiness env = .ok r → r.verdict = .go →
      ∀ f, .dict f ∈ ensureList (env.get "findings") → ¬ Blocking f := by
  intro h
  have hgo : (synthesizeReleaseReadiness (reviewedBy [])).map Readiness.verdict = .ok .go := by
    decide
  obtain ⟨r, hr, hv⟩ := Result.map_eq_ok.1 hgo
  exact h _ r hr hv criticalFinding (by simp [reviewedBy, Dict.get_cons])
    ⟨"critical", by decide, rfl⟩

/-- The same finding, once its leaf lists a dimension: NO-GO. -/
theorem go_leaves_no_gated_blocker_correctness :
    ∃ r, synthesizeReleaseReadiness (reviewedBy ["correctness"]) = .ok r ∧ r.verdict ≠ .go := by
  have hok : Result.Ok (synthesizeReleaseReadiness (reviewedBy ["correctness"])) := by
    refine synthesize_ok_iff.2 ?_
    intro f hf
    obtain rfl : f = criticalFinding := by simpa [reviewedBy, Dict.get_cons] using hf
    exact ⟨rfl, fun _ => ⟨_, rfl⟩⟩
  obtain ⟨r, hr⟩ := hok
  refine ⟨r, hr, ?_⟩
  intro hgo
  exact (go_leaves_no_gated_blocker hr).2 hgo criticalFinding _ "footgun-timezones" ["correctness"]
    (by simp [reviewedBy, Dict.get_cons]) ⟨"critical", by decide, rfl⟩
    ⟨_, rfl, by simp⟩ (by simp [reviewedBy, Dict.get_cons]; rfl) rfl rfl "correctness" (by decide)
    (by decide)

end CodeReview
