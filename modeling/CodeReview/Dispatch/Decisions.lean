import CodeReview.Dispatch.Rank
import CodeReview.Handlers.OrderFree

/-!
# What the ranker's decisions do

`_apply_rank_decisions` overlays a list of edits, of any shape, on the findings.

* `get?_decisionsByIndex` : the table of decisions has the last one that names an index;
* `applyRankDecisions_ok_iff` : when it returns;
* `applyRankDecisions_faithful` : **it returns, in order, the findings that are not dropped, and
  nothing but their scores is changed.**
-/

namespace CodeReview

open Py

variable {rt : Runtime}

/-- The last decision that names an index: a dict whose `i` is that number. -/
def lastNaming (decisions : Value) (i : ℕ) : Option Dict :=
  (dicts (ensureList decisions)).reverse.find? fun d => (d.get "i").asInt? = some (i : ℤ)

/-- A finding is dropped when the last decision naming it says so. -/
def Dropped (decisions : Value) (i : ℕ) : Prop :=
  ∃ d, lastNaming decisions i = some d ∧ (d.get "drop").truthy

instance (decisions : Value) (i : ℕ) : Decidable (Dropped decisions i) :=
  decidable_of_iff ((lastNaming decisions i).any fun d => (d.get "drop").truthy) <| by
    cases h : lastNaming decisions i <;> simp [Dropped, h]

/-! ### The table of decisions -/

/-- Of entries kept by key, the first one of a key is found by searching for it. -/
theorem get?_filterMap_key {α κ : Type} [DecidableEq κ] (key : α → Option κ) (xs : List α) (k : κ) :
    Assoc.get? (xs.filterMap fun a => (key a).map fun i => (i, a)) k =
      xs.find? fun a => key a = some k := by
  induction xs with
  | nil => rfl
  | cons a xs ih =>
    cases hk : key a with
    | none => simp [hk, ih]
    | some i =>
      rw [List.filterMap_cons_some (by rw [hk]; rfl), Assoc.get?_cons, ih, List.find?_cons]
      by_cases hi : i = k <;> simp [hk, hi]

/-- **The table has the last decision that names the index.** -/
theorem get?_decisionsByIndex (decisions : Value) (i : ℕ) :
    (decisionsByIndex decisions).get? i = lastNaming decisions i := by
  have hother : ∀ v : Value, ensureList v = [] → lastNaming v i = none := fun v hv => by
    rw [lastNaming, hv]
    rfl
  cases decisions with
  | list ds =>
    rw [decisionsByIndex, OrdMap.get?_ofList, OrdMap.lastOf, ← List.filterMap_reverse,
      get?_filterMap_key]
    rfl
  | _ => exact (hother _ rfl).symm

theorem decisionAt_eq (decisions : Value) (i : ℕ) :
    decisionAt decisions i = (lastNaming decisions i).getD [] := by
  rw [decisionAt, get?_decisionsByIndex]

/-- An index that no decision names is not dropped. -/
theorem drop_decisionAt (decisions : Value) (i : ℕ) :
    ((decisionAt decisions i).get "drop").truthy = decide (Dropped decisions i) := by
  rw [decisionAt_eq]
  cases h : lastNaming decisions i <;> simp [Dropped, h]

/-- The findings that stay, with their index. -/
def staying (findings : List Dict) (decisions : Value) : List (Dict × ℕ) :=
  findings.zipIdx.filter fun fi => ¬ Dropped decisions fi.2

theorem keptFindings_eq (findings : List Dict) (decisions : Value) :
    keptFindings findings decisions =
      (staying findings decisions).map fun fi => (fi.1, decisionAt decisions fi.2) := by
  rw [keptFindings, staying, ← List.filterMap_eq_map, List.filterMap_filter]
  refine List.filterMap_congr ?_
  intro fi _
  rw [drop_decisionAt]
  by_cases h : Dropped decisions fi.2 <;> simp [h]

/-! ### When it returns -/

/-- The scores that are applied have a float. -/
def ScoresReadable (rt : Runtime) (findings : List Dict) (decisions : Value) : Prop :=
  ∀ i < findings.length, ¬ Dropped decisions i →
    ∀ d, lastNaming decisions i = some d → HasFloat rt (d.get "defect_confidence")

theorem mem_staying {findings : List Dict} {decisions : Value} {fi : Dict × ℕ} :
    fi ∈ staying findings decisions ↔ findings[fi.2]? = some fi.1 ∧ ¬ Dropped decisions fi.2 := by
  rw [staying, List.mem_filter, List.mem_zipIdx_iff_getElem?]
  simp

theorem rankFinding_ok_iff {thr : Double} {f d : Dict} :
    Result.Ok (rankFinding rt thr f d) ↔ HasFloat rt (d.get "defect_confidence") := by
  have hok : Result.Ok (rankFinding rt thr f d) ↔ Result.Ok (decidedConf rt d f) := by
    rw [rankFinding, Result.ok_bind_iff]
    constructor
    · rintro ⟨c, hc, -⟩
      exact ⟨c, hc⟩
    · rintro ⟨c, hc⟩
      exact ⟨c, hc, _, rfl⟩
  rw [hok, decidedConf, HasFloat]
  split_ifs with hnum
  · exact ⟨fun h _ => h, fun h => h hnum⟩
  · exact ⟨fun _ h => absurd h hnum, fun _ => ⟨_, rfl⟩⟩

/-- **When the decisions can be applied.** -/
theorem applyRankDecisions_ok_iff {findings : List Dict} {decisions : Value} {args : Dict} :
    Result.Ok (applyRankDecisions rt findings decisions args) ↔
      Result.Ok (rankThreshold rt args) ∧ ScoresReadable rt findings decisions := by
  have hscore (thr : Double) (fi : Dict × ℕ) :
      Result.Ok (rankFinding rt thr fi.1 (decisionAt decisions fi.2)) ↔
        ∀ d, lastNaming decisions fi.2 = some d → HasFloat rt (d.get "defect_confidence") := by
    rw [rankFinding_ok_iff, decisionAt_eq]
    cases h : lastNaming decisions fi.2 with
    | none => simp [HasFloat, Value.num?]
    | some d => simp
  rw [applyRankDecisions, Result.ok_bind_iff]
  constructor
  · rintro ⟨thr, hthr, r, h⟩
    refine ⟨⟨thr, hthr⟩, fun i hi hdrop => (hscore thr (findings[i], i)).1 ?_⟩
    obtain ⟨out, hout, -⟩ := Result.bind_eq_ok.1 h
    have hmem : (findings[i], decisionAt decisions i) ∈ keptFindings findings decisions := by
      rw [keptFindings_eq, List.mem_map]
      exact ⟨(findings[i], i), mem_staying.2 ⟨List.getElem?_eq_getElem hi, hdrop⟩, rfl⟩
    obtain ⟨g, -, hg⟩ := Result.exists_of_mapM_left hout hmem
    exact ⟨g, hg⟩
  · rintro ⟨⟨thr, hthr⟩, hreadable⟩
    obtain ⟨out, hout⟩ : Result.Ok ((keptFindings findings decisions).mapM fun fd =>
        rankFinding rt thr fd.1 fd.2) := by
      refine Result.mapM_ok ?_
      intro fd hfd
      rw [keptFindings_eq] at hfd
      obtain ⟨⟨f, i⟩, hfi, rfl⟩ := List.mem_map.1 hfd
      obtain ⟨hget, hdrop⟩ := mem_staying.1 hfi
      exact (hscore thr (f, i)).2
        (hreadable i (List.getElem?_eq_some_iff.1 hget).1 hdrop)
    exact ⟨thr, hthr, _, by rw [hout]; rfl⟩

/-! ### What it returns -/

/-- What becomes of a finding that stays. -/
structure Rescored (rt : Runtime) (decisions : Value) (fi : Dict × ℕ) (g : Dict) : Prop where
  /-- The other fields are as they were. -/
  unchanged : ∀ k, k ≠ "defect_confidence" → k ≠ "primary" → Assoc.get? g k = Assoc.get? fi.1 k
  /-- Without a decision the severity gives the score. -/
  default : lastNaming decisions fi.2 = none →
    g.get "defect_confidence" = .float (defaultConf rt fi.1)

/-- The findings that stay, in order and rescored, and their counts. -/
structure Faithful (rt : Runtime) (findings : List Dict) (decisions : Value) (r : Ranked) :
    Prop where
  kept : List.Forall₂ (Rescored rt decisions) (staying findings decisions) r.findings
  counts : r.severityCounts =
    validSeverities.map fun sev => (sev, r.findings.countP fun g => severityText rt g = sev)

theorem rescored_of_rankFinding {thr : Double} {decisions : Value} {fi : Dict × ℕ} {g : Dict}
    (h : rankFinding rt thr fi.1 (decisionAt decisions fi.2) = .ok g) :
    Rescored rt decisions fi g := by
  obtain ⟨conf, hconf, h⟩ := Result.bind_eq_ok.1 h
  obtain rfl := Except.ok.inj h
  refine ⟨fun k hk hk' => ?_, fun hnone => ?_⟩
  · rw [Assoc.get?_set, if_neg (Ne.symm hk'), Assoc.get?_set, if_neg (Ne.symm hk)]
  · rw [decisionAt_eq, hnone] at hconf
    have hdefault : conf = defaultConf rt fi.1 := (Except.ok.inj hconf).symm
    rw [Dict.get_set, if_neg (by decide), Dict.get_set, if_pos rfl, hdefault]

/-- The loop counts the findings of each known severity. -/
theorem foldl_countRanked (out : List Dict) (counts : List (String × ℕ)) :
    out.foldl (countRanked rt) counts =
      counts.map fun c => (c.1, c.2 + out.countP fun g => severityText rt g = c.1) := by
  induction out generalizing counts with
  | nil => simp
  | cons g out ih =>
    rw [List.foldl_cons, ih, countRanked, List.map_map]
    refine List.map_congr_left ?_
    intro c _
    by_cases h : severityText rt g = c.1 <;> simp [h, Nat.add_assoc, Nat.add_comm]

theorem faithful_of_ok {findings : List Dict} {decisions : Value} {args : Dict} {r : Ranked}
    (h : applyRankDecisions rt findings decisions args = .ok r) :
    Faithful rt findings decisions r := by
  obtain ⟨thr, -, h⟩ := Result.bind_eq_ok.1 h
  obtain ⟨out, hout, h⟩ := Result.bind_eq_ok.1 h
  obtain rfl := Except.ok.inj h
  refine ⟨?_, ?_⟩
  · rw [keptFindings_eq, Result.mapM_eq_ok, List.forall₂_map_left_iff] at hout
    exact hout.imp fun fi g hg => rescored_of_rankFinding hg
  · simp [foldl_countRanked, noCounts, Function.comp_def]

/-- **The ranker's decisions are applied faithfully**: whenever the numbers that are applied have a
float, and then nothing is lost, reordered or rescored. -/
theorem applyRankDecisions_faithful (rt : Runtime) (findings : List Dict) (decisions : Value)
    (args : Dict) :
    (Result.Ok (applyRankDecisions rt findings decisions args) ↔
      Result.Ok (rankThreshold rt args) ∧ ScoresReadable rt findings decisions) ∧
    ∀ r, applyRankDecisions rt findings decisions args = .ok r →
      Faithful rt findings decisions r :=
  ⟨applyRankDecisions_ok_iff, fun _ => faithful_of_ok⟩

end CodeReview
