import CodeReview.Tracker.PromoteGate

/-!
# Scoring a run

`score.py` reads the judge's verdict on every pull request of a run.  The leaderboard pools the
verdicts by tool; the intervals read the counts of one tool by pull request.

* `aggregate_spec` : the totals of a tool add up the verdicts on it, in the order of the pull
  requests;
* `perPrCounts_spec` : the round of a tool has the counts of the same verdicts;
* `leaderboard_measured` : **the leaderboard and the intervals agree on every tool.**

The counts are natural numbers, whose sums floats hold; quotients and decimals are rounded to
doubles.
-/

namespace CodeReview

open Py Statistics

/-! ### The verdicts -/

/-- The judge's verdicts on a run: what the verdict file of a pull request holds, where there is
one. -/
structure JudgeFiles where
  /-- The parsed file. -/
  verdict : String → Option Value
  /-- A JSON object has a key once. -/
  nodup : ∀ (id : String) (data tools : Dict), verdict id = some (.dict data) →
    data.getD "tools" (.dict []) = .dict tools → (tools.map Prod.fst).Nodup

/-- `data.get("tools", {})`, as the mapping that it is read as. -/
def toolVerdicts (data : Value) : Result Dict := do
  let data ← data.asDict?.elim (.error .attributeError) .ok
  (data.getD "tools" (.dict [])).asDict?.elim (.error .attributeError) .ok

/-! ### The leaderboard -/

/-- The totals of a tool. -/
structure ToolTotals where
  tp : ℚ := 0
  fp : ℚ := 0
  fn : ℚ := 0
  nPrs : ℕ := 0
  nCand : ℚ := 0
  prs : List String := []

/-- A number that is added to a total. -/
def addend (v : Value) : Result ℚ := v.num?.elim (.error .typeError) exactCount

/-- The totals with one more verdict. -/
def ToolTotals.add (a : ToolTotals) (id : String) (v : Value) : Result ToolTotals := do
  let v ← v.asDict?.elim (.error .attributeError) .ok
  let tp ← addend (v.getD "tp" (.int 0))
  let fp ← addend (v.getD "fp" (.int 0))
  let fn ← addend (v.getD "fn" (.int 0))
  let nCand ← addend (v.getD "n_candidates" (.int 0))
  return ⟨a.tp + tp, a.fp + fp, a.fn + fn, a.nPrs + 1, a.nCand + nCand, a.prs ++ [id]⟩

/-- One tool of a verdict. -/
def addTool (id : String) (agg : OrdMap String ToolTotals) (tv : String × Value) :
    Result (OrdMap String ToolTotals) := do
  return agg.set tv.1 (← ((agg.get? tv.1).getD {}).add id tv.2)

/-- The verdict on a pull request. -/
def addVerdict (files : JudgeFiles) (agg : OrdMap String ToolTotals) (id : String) :
    Result (OrdMap String ToolTotals) :=
  match files.verdict id with
  | none => .ok agg
  | some data => do (← toolVerdicts data).foldlM (addTool id) agg

/-- `_aggregate`. -/
def aggregate (files : JudgeFiles) (prIds : List String) : Result (OrdMap String ToolTotals) :=
  prIds.foldlM (addVerdict files) OrdMap.empty

/-- `round(x, n)`. -/
def roundTo (n : ℕ) (q : ℚ) : ℚ := Double.nearest (Double.roundEven (q * 10 ^ n) / 10 ^ n)

/-- `num / den` as a double, or 0 over a zero. -/
def floatDiv (num den : ℚ) : ℚ := if den = 0 then 0 else Double.nearest (num / den)

/-- The harmonic mean of two doubles. -/
def floatF1 (prec caught : ℚ) : ℚ :=
  floatDiv (Double.nearest (Double.nearest (2 * prec) * caught)) (Double.nearest (prec + caught))

/-- A row of the leaderboard. -/
structure LeaderboardRow where
  tool : String
  tp : ℚ
  fp : ℚ
  fn : ℚ
  golden : ℚ
  nPrs : ℕ
  nCand : ℚ
  precision : ℚ
  recallRate : ℚ
  f1 : ℚ
  fpPerPr : ℚ
  deriving DecidableEq

/-- The row of a tool. -/
def leaderboardRow (tool : String) (a : ToolTotals) : LeaderboardRow :=
  let prec := floatDiv a.tp (a.tp + a.fp)
  let caught := floatDiv a.tp (a.tp + a.fn)
  { tool, tp := a.tp, fp := a.fp, fn := a.fn, golden := a.tp + a.fn, nPrs := a.nPrs
    nCand := a.nCand, precision := roundTo 4 prec, recallRate := roundTo 4 caught
    f1 := roundTo 4 (floatF1 prec caught)
    fpPerPr := if a.nPrs = 0 then 0 else roundTo 2 (Double.nearest (a.fp / a.nPrs)) }

-- the double nearest to 1.015 lies below it
example : (leaderboardRow "skill-prod" { fp := 203, nPrs := 200 }).fpPerPr =
    Double.nearest 1.01 := by
  decide +kernel

/-- `_rows`. -/
def leaderboardRows (agg : OrdMap String ToolTotals) : List LeaderboardRow :=
  (agg.entries.map fun ta => leaderboardRow ta.1 ta.2).mergeSort fun a b => b.f1 ≤ a.f1

/-! ### The counts of one tool -/

section

variable (rt : Runtime)

/-- The counts of a tool in a verdict, where it has an entry. -/
def countsIn (tool : String) (data : Value) : Result (Option Counts) := do
  match Assoc.get? (← toolVerdicts data) tool with
  | some (.dict v) => return some (← coerceCounts rt v)
  | _ => return none

/-- One more pull request of the round. -/
def addCounts (files : JudgeFiles) (tool : String) (round : PRCounts) (id : String) :
    Result PRCounts :=
  match files.verdict id with
  | none => .ok round
  | some data => do
    match ← countsIn rt tool data with
    | some c => return Assoc.set round id c
    | none => return round

/-- `per_pr_counts`. -/
def perPrCounts (files : JudgeFiles) (prIds : List String) (tool : String) : Result PRCounts :=
  prIds.foldlM (addCounts rt files tool) []

end

variable {rt : Runtime} {files : JudgeFiles}

/-! ### What both read -/

/-- The entry of a tool in the verdict on a pull request. -/
def toolEntry (files : JudgeFiles) (tool id : String) : Option Value :=
  (files.verdict id).bind fun data => (toolVerdicts data).toOption.bind (Assoc.get? · tool)

/-- The entries of a tool, in the order of the pull requests. -/
def entriesOf (files : JudgeFiles) (tool : String) (prIds : List String) : List (String × Value) :=
  prIds.filterMap fun id => (toolEntry files tool id).map (id, ·)

theorem entriesOf_append (tool : String) (prIds prIds' : List String) :
    entriesOf files tool (prIds ++ prIds') = entriesOf files tool prIds ++
      entriesOf files tool prIds' := List.filterMap_append

theorem entriesOf_singleton (tool id : String) :
    entriesOf files tool [id] = ((toolEntry files tool id).map (id, ·)).toList := by
  cases h : toolEntry files tool id <;> simp [entriesOf, h]

theorem mem_of_mem_entriesOf {tool : String} {prIds : List String} {e : String × Value}
    (h : e ∈ entriesOf files tool prIds) : e.1 ∈ prIds := by
  obtain ⟨id, hid, he⟩ := List.mem_filterMap.1 h
  obtain ⟨v, -, rfl⟩ := Option.map_eq_some_iff.1 he
  exact hid

theorem toolEntry_eq {tool id : String} {data : Value} {tools : Dict}
    (hverdict : files.verdict id = some data) (htools : toolVerdicts data = .ok tools) :
    toolEntry files tool id = Assoc.get? tools tool := by
  rw [toolEntry, hverdict, Option.bind_some, htools]
  rfl

theorem nodup_toolVerdicts {id : String} {data : Value} {tools : Dict}
    (hverdict : files.verdict id = some data) (htools : toolVerdicts data = .ok tools) :
    (tools.map Prod.fst).Nodup := by
  obtain ⟨d, hd, htools⟩ := Result.bind_eq_ok.1 htools
  cases data with
  | dict kvs =>
    obtain rfl := Except.ok.inj hd
    cases hget : Dict.getD kvs "tools" (.dict []) with
    | dict kvs' =>
      rw [hget] at htools
      obtain rfl := Except.ok.inj htools
      exact files.nodup id kvs kvs' hverdict hget
    | _ =>
      rw [hget] at htools
      cases htools
  | _ => cases hd

/-! ### The totals -/

/-- The totals of the entries of a tool. -/
def entryTotals (entries : List (String × Value)) : Result ToolTotals :=
  entries.foldlM (fun a e => a.add e.1 e.2) {}

theorem entryTotals_append_singleton {entries : List (String × Value)} {a a' : ToolTotals}
    {id : String} {v : Value} (h : entryTotals entries = .ok a) (hadd : a.add id v = .ok a') :
    entryTotals (entries ++ [(id, v)]) = .ok a' := by
  rw [entryTotals, List.foldlM_append]
  exact Result.bind_eq_ok.2 ⟨a, h, Result.bind_eq_ok.2 ⟨a', hadd, rfl⟩⟩

/-- A verdict adds to every tool that it has an entry for, and to no other. -/
theorem addTools_spec {id : String} {tools : Dict} {agg agg' : OrdMap String ToolTotals}
    (hnodup : (tools.map Prod.fst).Nodup) (h : tools.foldlM (addTool id) agg = .ok agg')
    (tool : String) :
    (Assoc.get? tools tool = none ∧ agg'.get? tool = agg.get? tool) ∨
      ∃ v a, Assoc.get? tools tool = some v ∧ ((agg.get? tool).getD {}).add id v = .ok a ∧
        agg'.get? tool = some a := by
  induction tools generalizing agg with
  | nil =>
    obtain rfl := Except.ok.inj h
    exact .inl ⟨rfl, rfl⟩
  | cons tv tools ih =>
    rw [List.foldlM_cons] at h
    obtain ⟨agg₁, hone, hrest⟩ := Result.bind_eq_ok.1 h
    obtain ⟨a, hadd, hset⟩ := Result.bind_eq_ok.1 hone
    obtain rfl := Except.ok.inj hset
    obtain ⟨hnotin, hnodup⟩ := List.nodup_cons.1 hnodup
    rw [Assoc.get?_cons]
    by_cases htool : tv.1 = tool
    · subst htool
      -- the later entries are of other tools
      have hlater : Assoc.get? tools tv.1 = none := Assoc.get?_eq_none_iff.2 hnotin
      obtain ⟨-, hsame⟩ | ⟨v, -, hsome, -⟩ := ih hnodup hrest
      · refine .inr ⟨tv.2, a, if_pos rfl, hadd, ?_⟩
        rw [hsame, OrdMap.get?_set, if_pos rfl]
      · rw [hlater] at hsome
        cases hsome
    · rw [if_neg htool]
      have hkept : (agg.set tv.1 a).get? tool = agg.get? tool := by
        rw [OrdMap.get?_set, if_neg htool]
      rw [← hkept]
      exact ih hnodup hrest

/-- **The totals of a tool are those of its entries, and a tool without entries has none.** -/
theorem aggregate_spec {prIds : List String} {agg : OrdMap String ToolTotals}
    (h : aggregate files prIds = .ok agg) (tool : String) :
    entryTotals (entriesOf files tool prIds) = .ok ((agg.get? tool).getD {}) ∧
      ((agg.get? tool).isSome ↔ entriesOf files tool prIds ≠ []) := by
  refine Result.foldlM_induct (fun done (agg : OrdMap String ToolTotals) =>
    entryTotals (entriesOf files tool done) = .ok ((agg.get? tool).getD {}) ∧
      ((agg.get? tool).isSome ↔ entriesOf files tool done ≠ [])) h ?_ ?_
  · exact ⟨rfl, by simp [entriesOf]⟩
  rintro done agg id agg' ⟨htotals, hsome⟩ hstep
  have hunchanged (hentry : toolEntry files tool id = none) :
      entriesOf files tool (done ++ [id]) = entriesOf files tool done := by
    rw [entriesOf_append, entriesOf_singleton, hentry]
    exact List.append_nil _
  rw [addVerdict] at hstep
  cases hverdict : files.verdict id with
  | none =>
    rw [hverdict] at hstep
    obtain rfl := Except.ok.inj hstep
    rw [hunchanged (by rw [toolEntry, hverdict]; rfl)]
    exact ⟨htotals, hsome⟩
  | some data =>
    rw [hverdict] at hstep
    obtain ⟨tools, htools, hstep⟩ := Result.bind_eq_ok.1 hstep
    have hentry : toolEntry files tool id = Assoc.get? tools tool := toolEntry_eq hverdict htools
    obtain ⟨hnone, hsame⟩ | ⟨v, a, hget, hadd, hset⟩ :=
      addTools_spec (nodup_toolVerdicts hverdict htools) hstep tool
    · rw [hunchanged (hentry.trans hnone), hsame]
      exact ⟨htotals, hsome⟩
    · have hmore : entriesOf files tool (done ++ [id]) =
          entriesOf files tool done ++ [(id, v)] := by
        rw [entriesOf_append, entriesOf_singleton, hentry.trans hget]
        rfl
      rw [hmore, hset]
      exact ⟨entryTotals_append_singleton htotals hadd, by simp⟩

/-! ### The round -/

/-- The counts of an entry, under its pull request. -/
def ReadsCounts (rt : Runtime) (e : String × Value) (rc : String × Counts) : Prop :=
  rc.1 = e.1 ∧ ∃ d, e.2 = .dict d ∧ coerceCounts rt d = .ok rc.2

/-- The entries that are mappings. -/
def mappings (entries : List (String × Value)) : List (String × Value) :=
  entries.filter fun e => e.2.asDict?.isSome

theorem mappings_append (entries entries' : List (String × Value)) :
    mappings (entries ++ entries') = mappings entries ++ mappings entries' :=
  List.filter_append ..

theorem notMem_of_reads {entries : List (String × Value)} {round : PRCounts} {id : String}
    (h : List.Forall₂ (ReadsCounts rt) entries round) (hid : ∀ e ∈ entries, e.1 ≠ id) :
    Assoc.get? round id = none := by
  rw [Assoc.get?_eq_none_iff]
  intro hmem
  obtain ⟨rc, hrc, heq⟩ := List.mem_map.1 hmem
  obtain ⟨e, he, hreads⟩ := Result.exists_of_forall₂_right h hrc
  exact hid e he (hreads.1.symm.trans heq)

/-- One more pull request keeps what the round was read from. -/
theorem reads_addCounts {done : List String} {id tool : String} {round round' : PRCounts}
    (hreads : List.Forall₂ (ReadsCounts rt) (mappings (entriesOf files tool done)) round)
    (hnew : id ∉ done) (hstep : addCounts rt files tool round id = .ok round') :
    List.Forall₂ (ReadsCounts rt) (mappings (entriesOf files tool (done ++ [id]))) round' := by
  rw [entriesOf_append, mappings_append, entriesOf_singleton]
  rw [addCounts] at hstep
  cases hverdict : files.verdict id with
  | none =>
    rw [hverdict] at hstep
    obtain rfl := Except.ok.inj hstep
    rw [toolEntry, hverdict]
    exact (List.append_nil (mappings (entriesOf files tool done))).symm ▸ hreads
  | some data =>
    rw [hverdict] at hstep
    obtain ⟨counts, hcounts, hstep⟩ := Result.bind_eq_ok.1 hstep
    obtain ⟨tools, htools, hcounts⟩ := Result.bind_eq_ok.1 hcounts
    rw [toolEntry_eq hverdict htools]
    have hskip : mappings (((Assoc.get? tools tool).map (id, ·)).toList) = [] →
        counts = none → List.Forall₂ (ReadsCounts rt) (mappings (entriesOf files tool done) ++
          mappings (((Assoc.get? tools tool).map (id, ·)).toList)) round' := by
      rintro hempty rfl
      obtain rfl := Except.ok.inj hstep
      rw [hempty, List.append_nil]
      exact hreads
    cases hget : Assoc.get? tools tool with
    | none =>
      rw [hget] at hcounts hskip
      exact hskip rfl (Except.ok.inj hcounts).symm
    | some v =>
      rw [hget] at hcounts hskip
      cases v with
      | dict d =>
        obtain ⟨c, hc, hcounts⟩ := Result.bind_eq_ok.1 hcounts
        obtain rfl := Except.ok.inj hcounts
        obtain rfl := Except.ok.inj hstep
        have hfresh : Assoc.get? round id = none := notMem_of_reads hreads fun e he =>
          ne_of_mem_of_not_mem (mem_of_mem_entriesOf (List.mem_of_mem_filter he)) hnew
        have hset : Assoc.set round id c = round ++ [(id, c)] := by
          have happend := Assoc.set_append hfresh [] c
          rwa [List.append_nil] at happend
        rw [hset]
        exact List.rel_append hreads (.cons ⟨rfl, d, rfl, hc⟩ .nil)
      | _ => exact hskip rfl (Except.ok.inj hcounts).symm

/-- **The round of a tool has the counts of its entries, in the order of the pull requests.** -/
theorem perPrCounts_spec {prIds : List String} (hids : prIds.Nodup) {tool : String}
    {round : PRCounts} (h : perPrCounts rt files prIds tool = .ok round) :
    List.Forall₂ (ReadsCounts rt) (mappings (entriesOf files tool prIds)) round := by
  refine Result.foldlM_induct (fun done (round : PRCounts) => done.Nodup →
    List.Forall₂ (ReadsCounts rt) (mappings (entriesOf files tool done)) round) h
    (fun _ => .nil) ?_ hids
  intro done round id round' ih hstep hnodup
  obtain ⟨hdone, -, hnew⟩ := List.nodup_append.1 hnodup
  exact reads_addCounts (ih hdone) (fun hmem => hnew id hmem id List.mem_cons_self rfl) hstep

theorem nodup_perPrCounts {prIds : List String} {tool : String} {round : PRCounts}
    (h : perPrCounts rt files prIds tool = .ok round) : (round.map Prod.fst).Nodup := by
  refine Result.foldlM_induct (fun _ (round : PRCounts) => (round.map Prod.fst).Nodup) h
    List.nodup_nil ?_
  intro _ round id round' hnodup hstep
  rw [addCounts] at hstep
  cases hverdict : files.verdict id with
  | none =>
    rw [hverdict] at hstep
    exact Except.ok.inj hstep ▸ hnodup
  | some data =>
    rw [hverdict] at hstep
    obtain ⟨counts, -, hstep⟩ := Result.bind_eq_ok.1 hstep
    cases counts with
    | none => exact Except.ok.inj hstep ▸ hnodup
    | some c => exact Except.ok.inj hstep ▸ Assoc.nodup_keys_set hnodup id c

/-! ### The totals are those of the round -/

/-- Entries that add up are mappings. -/
theorem mappings_of_totals {entries : List (String × Value)} {a₀ a : ToolTotals}
    (h : entries.foldlM (fun a e => a.add e.1 e.2) a₀ = .ok a) : mappings entries = entries := by
  induction entries generalizing a₀ with
  | nil => rfl
  | cons e entries ih =>
    rw [List.foldlM_cons] at h
    obtain ⟨a₁, hadd, h⟩ := Result.bind_eq_ok.1 h
    obtain ⟨d, hd, -⟩ := Result.bind_eq_ok.1 hadd
    have hdict : e.2.asDict?.isSome = true := by
      cases hv : e.2.asDict? with
      | some d => rfl
      | none =>
        rw [hv] at hd
        cases hd
    rw [mappings, List.filter_cons_of_pos (p := fun e : String × Value => e.2.asDict?.isSome) hdict]
    exact congrArg (e :: ·) (ih h)

theorem coerceCount_eq {d : Dict} {k : String} {x y : ℚ} (h : addend (d.getD k (.int 0)) = .ok x)
    (h' : coerceCount rt d k = .ok y) : y = x := by
  obtain ⟨z, hz, hy⟩ := Result.bind_eq_ok.1 h'
  rw [Dict.getD] at h hz
  cases hget : Assoc.get? d k with
  | none =>
    rw [hget] at h hz
    obtain rfl := Except.ok.inj hz
    exact Except.ok.inj (hy.symm.trans h)
  | some v =>
    rw [hget] at h hz
    cases v with
    | bool b | float z' =>
      obtain rfl := Except.ok.inj hz
      exact Except.ok.inj (hy.symm.trans h)
    | int n =>
      have hfin : z = .fin n := by
        simp only [Option.getD_some, Runtime.toFloat, Value.toFloat?, Double.ofInt] at hz
        split_ifs at hz
        exact (Except.ok.inj hz).symm
      rw [hfin] at hy
      exact Except.ok.inj (hy.symm.trans h)
    | none | str s | list xs | dict kvs => cases h

/-- The totals of entries that are read as counts. -/
structure SumsUp (a₀ a : ToolTotals) (round : PRCounts) : Prop where
  tp : a.tp = a₀.tp + (round.map fun rc => rc.2.tp).sum
  fp : a.fp = a₀.fp + (round.map fun rc => rc.2.fp).sum
  fn : a.fn = a₀.fn + (round.map fun rc => rc.2.fn).sum
  nPrs : a.nPrs = a₀.nPrs + round.length

theorem sumsUp_of_totals {entries : List (String × Value)} {round : PRCounts} {a₀ a : ToolTotals}
    (h : entries.foldlM (fun a e => a.add e.1 e.2) a₀ = .ok a)
    (hreads : List.Forall₂ (ReadsCounts rt) (mappings entries) round) : SumsUp a₀ a round := by
  induction entries generalizing a₀ round with
  | nil =>
    obtain rfl := Except.ok.inj h
    cases hreads
    exact ⟨by simp, by simp, by simp, rfl⟩
  | cons e entries ih =>
    rw [List.foldlM_cons] at h
    obtain ⟨a₁, hadd, h⟩ := Result.bind_eq_ok.1 h
    obtain ⟨d, hd, hadd⟩ := Result.bind_eq_ok.1 hadd
    obtain ⟨tp, htp, hadd⟩ := Result.bind_eq_ok.1 hadd
    obtain ⟨fp, hfp, hadd⟩ := Result.bind_eq_ok.1 hadd
    obtain ⟨fn, hfn, hadd⟩ := Result.bind_eq_ok.1 hadd
    obtain ⟨nCand, -, hadd⟩ := Result.bind_eq_ok.1 hadd
    obtain rfl := Except.ok.inj hadd
    -- an entry that is added is a mapping
    obtain ⟨id, v⟩ := e
    cases v with
    | dict kvs =>
      obtain rfl := Except.ok.inj hd
      rw [mappings, List.filter_cons_of_pos rfl] at hreads
      cases hreads with
      | cons hhead htail =>
        rename_i rc round
        obtain ⟨-, d', hd', hcounts⟩ := hhead
        obtain rfl := Value.dict.inj hd'
        obtain ⟨tp', htp', hcounts⟩ := Result.bind_eq_ok.1 hcounts
        obtain ⟨fp', hfp', hcounts⟩ := Result.bind_eq_ok.1 hcounts
        obtain ⟨fn', hfn', hcounts⟩ := Result.bind_eq_ok.1 hcounts
        have hrc := Except.ok.inj hcounts
        obtain rfl := coerceCount_eq htp htp'
        obtain rfl := coerceCount_eq hfp hfp'
        obtain rfl := coerceCount_eq hfn hfn'
        have hrest := ih h htail
        constructor
        · rw [hrest.tp, List.map_cons, List.sum_cons, ← hrc, add_assoc]
        · rw [hrest.fp, List.map_cons, List.sum_cons, ← hrc, add_assoc]
        · rw [hrest.fn, List.map_cons, List.sum_cons, ← hrc, add_assoc]
        · rw [hrest.nPrs, List.length_cons, Nat.add_comm round.length, ← Nat.add_assoc]
    | _ => cases hd

/-! ### The metrics of one round -/

theorem mean_singleton (x : ℚ) : mean [x] = x := by simp [mean]

theorem poolRounds_singleton (round : PRCounts) (prIds : List String) :
    poolRounds [round] prIds = prIds.map fun id => (Assoc.get? round id).getD .zero := by
  rw [poolRounds, if_neg (List.cons_ne_nil _ _)]
  refine List.map_congr_left fun id _ => ?_
  simp only [pooledCounts, List.map_cons, List.map_nil, mean_singleton]

/-- The pooled counts of one round are those of the round. -/
theorem pooled_perm {round : PRCounts} (hnodup : (round.map Prod.fst).Nodup) :
    (poolRounds [round] (orderedPrsUnion [round])).Perm (round.map Prod.snd) := by
  have hids : (orderedPrsUnion [round]).Perm (round.map Prod.fst) := by
    rw [orderedPrsUnion, List.flatMap_cons, List.flatMap_nil, List.append_nil, sortedSet,
      hnodup.dedup]
    exact List.perm_insertionSort _ _
  rw [poolRounds_singleton]
  refine (hids.map _).trans (List.Perm.of_eq ?_)
  rw [List.map_map]
  refine List.map_congr_left fun rc hrc => ?_
  rw [Function.comp, Assoc.get?_of_mem hnodup hrc]
  rfl

/-- A metric, computed in floats. -/
def Metric.floatFn : Metric → Counts → ℚ
  | recallMetric, c => floatDiv c.tp (Double.nearest (c.tp + c.fn))
  | precisionMetric, c => floatDiv c.tp (Double.nearest (c.tp + c.fp))
  | f1Metric, c => floatF1 (floatDiv c.tp (Double.nearest (c.tp + c.fp)))
      (floatDiv c.tp (Double.nearest (c.tp + c.fn)))

/-- The point of `bootstrap_ci`, computed in floats from the sums of the columns. -/
def floatPoint (rounds : List PRCounts) (metric : Metric) : ℚ :=
  let mat := poolRounds rounds (orderedPrsUnion rounds)
  metric.floatFn ⟨(mat.map Counts.tp).sum, (mat.map Counts.fp).sum, (mat.map Counts.fn).sum⟩

theorem floatDiv_eq_nearest (num den : ℚ) :
    floatDiv num den = Double.nearest (safeDiv num den) := by
  rw [floatDiv, safeDiv]
  split_ifs with h
  · exact (Double.nearest_of_isDouble Double.isDouble_zero).symm
  · rfl

/-- The sums of a tool are natural numbers. -/
structure ToolTotals.Natural (a : ToolTotals) : Prop where
  tp : ∃ n : ℕ, a.tp = n
  fp : ∃ n : ℕ, a.fp = n
  fn : ∃ n : ℕ, a.fn = n

/-- The count of an entry, if it is a mapping, is a natural number. -/
def naturalCount (v : Value) (key : String) : Bool :=
  v.asDict?.all fun d =>
    match d.getD key (.int 0) with
    | .int n => 0 ≤ n
    | _ => false

/-- The judge counts in natural numbers. -/
def CountsNatural (files : JudgeFiles) (prIds : List String) : Prop :=
  ∀ id ∈ prIds, ∀ data tools, files.verdict id = some data → toolVerdicts data = .ok tools →
    ∀ tv ∈ tools, ∀ key ∈ ["tp", "fp", "fn"], naturalCount tv.2 key

theorem CountsNatural.entries {prIds : List String} (h : CountsNatural files prIds) {tool : String}
    {e : String × Value} (he : e ∈ entriesOf files tool prIds) :
    ∀ key ∈ ["tp", "fp", "fn"], naturalCount e.2 key := by
  obtain ⟨id, hid, he⟩ := List.mem_filterMap.1 he
  obtain ⟨v, hv, rfl⟩ := Option.map_eq_some_iff.1 he
  obtain ⟨data, hverdict, hv⟩ := Option.bind_eq_some_iff.1 hv
  cases htools : toolVerdicts data with
  | error exc =>
    rw [htools] at hv
    cases hv
  | ok tools =>
    rw [htools] at hv
    exact h id hid data tools hverdict htools (tool, v) (Assoc.mem_of_get? hv)

theorem natural_add {d : Dict} {key : String} {x y : ℚ} (hnatural : naturalCount (.dict d) key)
    (hx : ∃ n : ℕ, x = n) (h : addend (d.getD key (.int 0)) = .ok y) : ∃ n : ℕ, x + y = n := by
  obtain ⟨m, rfl⟩ := hx
  have hvalue : (match d.getD key (.int 0) with
    | .int n => decide (0 ≤ n)
    | _ => false) = true := hnatural
  cases hget : d.getD key (.int 0) with
  | int n =>
    rw [hget] at h hvalue
    obtain rfl : (n : ℚ) = y := Except.ok.inj h
    obtain ⟨k, rfl⟩ := Int.eq_ofNat_of_zero_le (of_decide_eq_true hvalue)
    exact ⟨m + k, by push_cast; rfl⟩
  | _ =>
    rw [hget] at hvalue
    cases hvalue

theorem natural_of_totals {entries : List (String × Value)} {a : ToolTotals}
    (hnatural : ∀ e ∈ entries, ∀ key ∈ ["tp", "fp", "fn"], naturalCount e.2 key)
    (h : entryTotals entries = .ok a) : a.Natural := by
  refine Result.foldlM_induct (fun done (a : ToolTotals) => (∀ e ∈ done, e ∈ entries) → a.Natural) h
    (fun _ => ⟨⟨0, Nat.cast_zero.symm⟩, ⟨0, Nat.cast_zero.symm⟩, ⟨0, Nat.cast_zero.symm⟩⟩) ?_
    fun e he => he
  intro done a e a' ih hadd hmem
  obtain ⟨htps, hfps, hfns⟩ := ih fun e he => hmem e (List.mem_append_left _ he)
  have hentry := hnatural e (hmem e (List.mem_append_right _ (List.mem_singleton_self _)))
  obtain ⟨d, hd, hadd⟩ := Result.bind_eq_ok.1 hadd
  obtain ⟨tp, htp, hadd⟩ := Result.bind_eq_ok.1 hadd
  obtain ⟨fp, hfp, hadd⟩ := Result.bind_eq_ok.1 hadd
  obtain ⟨fn, hfn, hadd⟩ := Result.bind_eq_ok.1 hadd
  obtain ⟨nCand, -, hadd⟩ := Result.bind_eq_ok.1 hadd
  obtain rfl := Except.ok.inj hadd
  obtain ⟨id, v⟩ := e
  cases v with
  | dict kvs =>
    obtain rfl := Except.ok.inj hd
    exact ⟨natural_add (hentry "tp" (by simp)) htps htp,
      natural_add (hentry "fp" (by simp)) hfps hfp, natural_add (hentry "fn" (by simp)) hfns hfn⟩
  | _ => cases hd

/-- Floats add the sums of a tool exactly. -/
structure SmallSums (a : ToolTotals) : Prop where
  natural : a.Natural
  small : a.tp + a.fp + a.fn ≤ 2 ^ 53

theorem SmallSums.nearest_add {a : ToolTotals} (h : SmallSums a) :
    Double.nearest (a.tp + a.fp) = a.tp + a.fp ∧ Double.nearest (a.tp + a.fn) = a.tp + a.fn := by
  obtain ⟨⟨⟨tp, htp⟩, ⟨fp, hfp⟩, ⟨fn, hfn⟩⟩, hsmall⟩ := h
  rw [htp, hfp, hfn] at hsmall ⊢
  have hbound : tp + fp + fn ≤ 2 ^ 53 := by exact_mod_cast hsmall
  have hdouble (n : ℕ) (hn : n ≤ 2 ^ 53) : Double.nearest (n : ℚ) = n :=
    Double.nearest_of_isDouble (Double.isDouble_intCast (n := n) (by rw [abs_of_nonneg] <;> omega))
  constructor
  · exact_mod_cast hdouble (tp + fp) (by omega)
  · exact_mod_cast hdouble (tp + fn) (by omega)

section

variable (idx : Resample) (b : ℕ) (alpha : Level) {round : PRCounts}

/-- The sums of one round are those of its counts. -/
theorem pooledSum_singleton (hnodup : (round.map Prod.fst).Nodup) (f : Counts → ℚ) :
    ((poolRounds [round] (orderedPrsUnion [round])).map f).sum =
      (round.map fun rc => f rc.2).sum := by
  rw [((pooled_perm hnodup).map f).sum_eq, List.map_map]
  rfl

theorem fpPerPrMean_singleton (hnodup : (round.map Prod.fst).Nodup) (hne : round ≠ []) :
    fpPerPrMean [round] = (round.map fun rc => rc.2.fp).sum / round.length := by
  have hperm := pooled_perm hnodup
  have hlength : (poolRounds [round] (orderedPrsUnion [round])).length = round.length := by
    rw [hperm.length_eq, List.length_map]
  have hpool : poolRounds [round] (orderedPrsUnion [round]) ≠ [] := by
    rw [← List.length_pos_iff, hlength]
    exact List.length_pos_iff.2 hne
  rw [fpPerPrMean, if_neg hpool, hlength, (hperm.map Counts.fp).sum_eq, List.map_map]
  rfl

/-! ### The leaderboard and the intervals -/

/-- The numbers of a row are those that the round of its tool is measured by. -/
structure Measures (row : LeaderboardRow) (round : PRCounts) : Prop where
  nPrs : row.nPrs = round.length
  precision : row.precision = roundTo 4 (floatPoint [round] .precisionMetric)
  recallRate : row.recallRate = roundTo 4 (floatPoint [round] .recallMetric)
  f1 : row.f1 = roundTo 4 (floatPoint [round] .f1Metric)
  fpPerPr : row.fpPerPr = roundTo 2 (Double.nearest (fpPerPrMean [round]))
  exactPrecision : floatPoint [round] .precisionMetric =
    Double.nearest (bootstrapCi idx [round] .precisionMetric b alpha).point
  exactRecall : floatPoint [round] .recallMetric =
    Double.nearest (bootstrapCi idx [round] .recallMetric b alpha).point

theorem row_measures {tool : String} {a : ToolTotals} (hnodup : (round.map Prod.fst).Nodup)
    (hne : round ≠ []) (h : SumsUp {} a round) (hsums : SmallSums a) :
    Measures idx b alpha (leaderboardRow tool a) round := by
  have htp : a.tp = (round.map fun rc => rc.2.tp).sum := h.tp.trans (zero_add _)
  have hfp : a.fp = (round.map fun rc => rc.2.fp).sum := h.fp.trans (zero_add _)
  have hfn : a.fn = (round.map fun rc => rc.2.fn).sum := h.fn.trans (zero_add _)
  have hprs : a.nPrs = round.length := h.nPrs.trans (Nat.zero_add _)
  have hpos : a.nPrs ≠ 0 := by
    rw [hprs]
    exact fun hzero => hne (List.length_eq_zero_iff.1 hzero)
  obtain ⟨hprecision, hrecall⟩ := hsums.nearest_add
  -- the sums that floats add are the totals of the tool
  have hpoint (metric : Metric) :
      floatPoint [round] metric = metric.floatFn ⟨a.tp, a.fp, a.fn⟩ := by
    rw [floatPoint, pooledSum_singleton hnodup, pooledSum_singleton hnodup,
      pooledSum_singleton hnodup, ← htp, ← hfp, ← hfn]
  have hexact (metric : Metric) : (bootstrapCi idx [round] metric b alpha).point =
      metric.fn ⟨a.tp, a.fp, a.fn⟩ := by
    rw [point_bootstrapCi, metricOverMatrix, pooledSum_singleton hnodup,
      pooledSum_singleton hnodup, pooledSum_singleton hnodup, ← htp, ← hfp, ← hfn]
  refine ⟨hprs, ?_, ?_, ?_, ?_, ?_, ?_⟩
  · rw [hpoint, Metric.floatFn, hprecision]
    rfl
  · rw [hpoint, Metric.floatFn, hrecall]
    rfl
  · rw [hpoint, Metric.floatFn, hprecision, hrecall]
    rfl
  · rw [leaderboardRow, if_neg hpos, fpPerPrMean_singleton hnodup hne, ← hfp, ← hprs]
  · rw [hpoint, hexact, Metric.floatFn, hprecision, floatDiv_eq_nearest]
    rfl
  · rw [hpoint, hexact, Metric.floatFn, hrecall, floatDiv_eq_nearest]
    rfl

end

theorem mem_leaderboardRows {agg : OrdMap String ToolTotals} {row : LeaderboardRow} :
    row ∈ leaderboardRows agg ↔ ∃ tool a, agg.get? tool = some a ∧ leaderboardRow tool a = row := by
  rw [leaderboardRows, (List.mergeSort_perm _ _).mem_iff, List.mem_map]
  constructor
  · rintro ⟨⟨tool, a⟩, hmem, rfl⟩
    exact ⟨tool, a, (OrdMap.mem_entries_iff _).1 hmem, rfl⟩
  · rintro ⟨tool, a, hget, rfl⟩
    exact ⟨(tool, a), (OrdMap.mem_entries_iff _).2 hget, rfl⟩

/-- The best come first. -/
theorem pairwise_leaderboardRows (agg : OrdMap String ToolTotals) :
    (leaderboardRows agg).Pairwise fun row row' => row'.f1 ≤ row.f1 := by
  have htrans (a b c : LeaderboardRow) (hab : decide (b.f1 ≤ a.f1) = true)
      (hbc : decide (c.f1 ≤ b.f1) = true) : decide (c.f1 ≤ a.f1) = true :=
    decide_eq_true (le_trans (of_decide_eq_true hbc) (of_decide_eq_true hab))
  have htotal (a b : LeaderboardRow) : (decide (b.f1 ≤ a.f1) || decide (a.f1 ≤ b.f1)) = true := by
    rw [Bool.or_eq_true, decide_eq_true_eq, decide_eq_true_eq]
    exact le_total b.f1 a.f1
  exact (List.pairwise_mergeSort htrans htotal _).imp of_decide_eq_true

/-- **The leaderboard has one row for every tool with a verdict, best first, and its numbers are the
point estimates of the intervals over the same verdicts.** -/
theorem leaderboard_measured (idx : Resample) (b : ℕ) (alpha : Level) {prIds : List String}
    (hids : prIds.Nodup) (hnatural : CountsNatural files prIds) {agg : OrdMap String ToolTotals}
    (hsmall : ∀ tool a, agg.get? tool = some a → a.tp + a.fp + a.fn ≤ 2 ^ 53)
    (h : aggregate files prIds = .ok agg) :
    ((leaderboardRows agg).map LeaderboardRow.tool).Nodup ∧
      (∀ tool, tool ∈ (leaderboardRows agg).map LeaderboardRow.tool ↔
        ∃ id ∈ prIds, (toolEntry files tool id).isSome) ∧
      (leaderboardRows agg).Pairwise (fun row row' => row'.f1 ≤ row.f1) ∧
      ∀ row ∈ leaderboardRows agg, ∀ round, perPrCounts rt files prIds row.tool = .ok round →
        Measures idx b alpha row round := by
  have hentries (tool : String) : entriesOf files tool prIds ≠ [] ↔
      ∃ id ∈ prIds, (toolEntry files tool id).isSome := by
    simp [entriesOf, Option.isSome_iff_exists, ← Option.ne_none_iff_exists']
  refine ⟨?_, fun tool => ?_, ?_, ?_⟩
  · have htools : (agg.entries.map fun ta => leaderboardRow ta.1 ta.2).map LeaderboardRow.tool =
        agg.entries.map Prod.fst := by
      rw [List.map_map]
      rfl
    rw [leaderboardRows, ((List.mergeSort_perm _ _).map _).nodup_iff, htools]
    exact agg.nodup
  · rw [← hentries, ← (aggregate_spec h tool).2, Option.isSome_iff_exists, List.mem_map]
    constructor
    · rintro ⟨row, hrow, rfl⟩
      obtain ⟨tool, a, hget, rfl⟩ := mem_leaderboardRows.1 hrow
      exact ⟨a, hget⟩
    · rintro ⟨a, hget⟩
      exact ⟨_, mem_leaderboardRows.2 ⟨tool, a, hget, rfl⟩, rfl⟩
  · exact pairwise_leaderboardRows agg
  · intro row hrow round hround
    obtain ⟨tool, a, hget, rfl⟩ := mem_leaderboardRows.1 hrow
    obtain ⟨htotals, hsome⟩ := aggregate_spec h tool
    rw [hget] at htotals hsome
    have hreads : List.Forall₂ (ReadsCounts rt) (mappings (entriesOf files tool prIds)) round :=
      perPrCounts_spec hids hround
    have hne : round ≠ [] := by
      rintro rfl
      rw [mappings_of_totals htotals] at hreads
      exact hsome.1 rfl (List.forall₂_nil_right_iff.1 hreads)
    exact row_measures idx b alpha (nodup_perPrCounts hround) hne (sumsUp_of_totals htotals hreads)
      ⟨natural_of_totals (fun e he => hnatural.entries he) htotals, hsmall tool a hget⟩

/-- Three verdicts, one of them without the tool. -/
def threeVerdicts : JudgeFiles where
  verdict id :=
    if id = "a" then some (.dict [("tools", .dict [("skill-prod", .dict [("tp", .int 3),
      ("fp", .int 1), ("fn", .int 0)])])])
    else if id = "b" then some (.dict [("tools", .dict [("skill-prod", .dict [("tp", .int 1),
      ("fn", .int 2)]), ("copilot", .dict [("tp", .int 1)])])])
    else if id = "c" then some (.dict [("tools", .dict [("copilot", .dict [("fp", .int 2)])])])
    else none
  nodup id data tools hverdict htools := by
    split_ifs at hverdict
    all_goals
      obtain rfl := Value.dict.inj (Option.some.inj hverdict)
      obtain rfl := Value.dict.inj htools
      decide

theorem countsNatural_threeVerdicts (prIds : List String) : CountsNatural threeVerdicts prIds := by
  intro id _ data tools hverdict htools
  simp only [threeVerdicts] at hverdict
  split_ifs at hverdict
  all_goals
    obtain rfl := Option.some.inj hverdict
    obtain rfl := Except.ok.inj htools
    decide

theorem leaderboard_measured_threeVerdicts :
    ∃ agg row round, aggregate threeVerdicts ["c", "b", "a"] = .ok agg ∧
      row ∈ leaderboardRows agg ∧ row.tool = "skill-prod" ∧
      row.recallRate = Double.nearest (6667 / 10000) ∧
      perPrCounts .ascii threeVerdicts ["c", "b", "a"] "skill-prod" = .ok round ∧
      Measures everyPr 0 defaultLevel row round := by
  have hrate : (aggregate threeVerdicts ["c", "b", "a"]).toOption.bind (fun agg =>
      (agg.get? "skill-prod").map fun a => (leaderboardRow "skill-prod" a).recallRate) =
        some (Double.nearest (6667 / 10000)) := by decide +kernel
  have hsmall : ∀ agg, aggregate threeVerdicts ["c", "b", "a"] = .ok agg → ∀ ta ∈ agg.entries,
      ta.2.tp + ta.2.fp + ta.2.fn ≤ 2 ^ 53 := by
    intro agg hagg
    obtain rfl := Except.ok.inj hagg
    decide +kernel
  have hround : perPrCounts .ascii threeVerdicts ["c", "b", "a"] "skill-prod" =
      .ok [("b", ⟨1, 0, 2⟩), ("a", ⟨3, 1, 0⟩)] := by decide +kernel
  cases hagg : aggregate threeVerdicts ["c", "b", "a"] with
  | error exc =>
    rw [hagg] at hrate
    cases hrate
  | ok agg =>
    rw [hagg] at hrate
    obtain ⟨a, hget, hcaught⟩ := Option.map_eq_some_iff.1 hrate
    have hrow : leaderboardRow "skill-prod" a ∈ leaderboardRows agg :=
      mem_leaderboardRows.2 ⟨_, a, hget, rfl⟩
    have hmeasures :=
      (leaderboard_measured everyPr 0 defaultLevel (by decide) (countsNatural_threeVerdicts _)
        (fun tool a h => hsmall agg hagg (tool, a) ((OrdMap.mem_entries_iff _).2 h)) hagg).2.2.2
        _ hrow _ hround
    exact ⟨agg, _, _, rfl, hrow, rfl, hcaught, hround, hmeasures⟩

end CodeReview
