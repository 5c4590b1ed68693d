import CodeReview.Handlers.Findings

/-!
# Applying the ranker's decisions

The finding ranker answers with decisions by index; `_apply_rank_decisions` attaches them to the
findings.

* `applyRankDecisions_ok` : it returns when the numbers of the decisions have a float.
-/

namespace CodeReview

open Py

/-- `_SEV_DEFAULT_CONF`. -/
def sevDefaultConf : List (String × ℚ) :=
  [("critical", 9 / 10), ("important", 7 / 10), ("minor", 1 / 4)]

section

variable (rt : Runtime)

/-- `str(finding.get("severity", "")).lower()`. -/
def severityText (finding : Dict) : String := rt.lower (rt.str (finding.getD "severity" (.str "")))

/-- `_default_conf`. -/
def defaultConf (finding : Dict) : Double :=
  .fin ((Assoc.get? sevDefaultConf (severityText rt finding)).getD (1 / 2))

/-- The threshold: `args.get("primary-threshold") or 0.75`. -/
def rankThreshold (args : Dict) : Result Double :=
  orOnBadNumber (rt.toFloat ((args.get "primary-threshold").or (.float (.fin (3 / 4)))))
    (.fin (3 / 4))

/-- `by_i`: the last decision for each index. -/
def decisionsByIndex (decisions : Value) : OrdMap ℤ Dict :=
  match decisions with
  | .list ds => OrdMap.ofList ((dicts ds).filterMap fun d => (d.get "i").asInt?.map fun i => (i, d))
  | _ => OrdMap.empty

/-- The decision for an index. -/
def decisionAt (decisions : Value) (i : ℕ) : Dict := ((decisionsByIndex decisions).get? i).getD []

/-- The decided confidence, where it is a number. -/
def decidedConf (decision finding : Dict) : Result Double :=
  if (decision.get "defect_confidence").num?.isSome then
    rt.toFloat (decision.get "defect_confidence")
  else .ok (defaultConf rt finding)

/-- The finding with its scores. -/
def rankFinding (thr : Double) (finding decision : Dict) : Result Dict := do
  let conf ← decidedConf rt decision finding
  let primary := match decision.get "primary" with
    | .bool b => b
    | _ => conf.ge thr
  return Assoc.set (Assoc.set finding "defect_confidence" (.float conf)) "primary" (.bool primary)

/-- The findings that are not dropped, each with its decision. -/
def keptFindings (findings : List Dict) (decisions : Value) : List (Dict × Dict) :=
  findings.zipIdx.filterMap fun f =>
    if ((decisionAt decisions f.2).get "drop").truthy then none
    else some (f.1, decisionAt decisions f.2)

/-- One more finding of its severity, when that is a known one. -/
def countRanked (counts : List (String × ℕ)) (finding : Dict) : List (String × ℕ) :=
  counts.map fun c => if severityText rt finding = c.1 then (c.1, c.2 + 1) else c

/-- The outputs of the ranker. -/
structure Ranked where
  findings : List Dict
  severityCounts : List (String × ℕ)

/-- The outputs as a dictionary. -/
def Ranked.toDict (r : Ranked) : Dict :=
  [("findings", .list (r.findings.map .dict)),
    ("severity_counts", .dict (r.severityCounts.map fun sn => (sn.1, .int sn.2)))]

/-- `_apply_rank_decisions`. -/
def applyRankDecisions (findings : List Dict) (decisions : Value) (args : Dict) :
    Result Ranked := do
  let thr ← rankThreshold rt args
  let out ← (keptFindings findings decisions).mapM fun fd => rankFinding rt thr fd.1 fd.2
  return { findings := out, severityCounts := out.foldl (countRanked rt) noCounts }

end

variable {rt : Runtime}

/-! ### When it returns -/

/-- The number, where there is one, has a float. -/
def HasFloat (rt : Runtime) (v : Value) : Prop := v.num?.isSome → Result.Ok (rt.toFloat v)

/-- The numbers of the decisions have a float. -/
def DecisionsReadable (rt : Runtime) (decisions : Value) : Prop :=
  ∀ d : Dict, .dict d ∈ ensureList decisions → HasFloat rt (d.get "defect_confidence")

theorem mem_decisionsByIndex {decisions : Value} {i : ℤ} {d : Dict}
    (h : (decisionsByIndex decisions).get? i = some d) : .dict d ∈ ensureList decisions := by
  unfold decisionsByIndex at h
  split at h
  · rename_i ds
    rw [OrdMap.get?_ofList] at h
    have hmem := Assoc.mem_of_get? h
    rw [List.mem_reverse, List.mem_filterMap] at hmem
    obtain ⟨d', hd', hmap⟩ := hmem
    obtain ⟨i', -, heq⟩ := Option.map_eq_some_iff.1 hmap
    cases heq
    exact mem_dicts.1 hd'
  · cases h

theorem decidedConf_ok {decisions : Value} (h : DecisionsReadable rt decisions) (i : ℕ)
    (finding : Dict) : Result.Ok (decidedConf rt (decisionAt decisions i) finding) := by
  unfold decidedConf
  split_ifs with hnum
  · unfold decisionAt at hnum ⊢
    cases hget : (decisionsByIndex decisions).get? i with
    | none =>
      rw [hget] at hnum
      cases hnum
    | some d =>
      rw [hget] at hnum
      exact h d (mem_decisionsByIndex hget) hnum
  · exact ⟨_, rfl⟩

/-- **The decisions are applied without raising when their numbers have a float.** -/
theorem applyRankDecisions_ok {findings : List Dict} {decisions : Value} {args : Dict}
    (hthr : Result.Ok (rankThreshold rt args)) (h : DecisionsReadable rt decisions) :
    Result.Ok (applyRankDecisions rt findings decisions args) := by
  obtain ⟨thr, hthr⟩ := hthr
  obtain ⟨out, hout⟩ : Result.Ok ((keptFindings findings decisions).mapM fun fd =>
      rankFinding rt thr fd.1 fd.2) := by
    refine Result.mapM_ok ?_
    intro fd hfd
    obtain ⟨⟨f, i⟩, -, hkept⟩ := List.mem_filterMap.1 hfd
    split_ifs at hkept
    obtain rfl := Option.some.inj hkept
    obtain ⟨conf, hconf⟩ := decidedConf_ok h i f
    exact ⟨_, by rw [rankFinding, hconf]; rfl⟩
  exact ⟨_, by rw [applyRankDecisions, hthr, Result.ok_bind, hout]; rfl⟩

/-- A ranked finding is one of the findings, with other scores. -/
theorem ranked_findings {findings : List Dict} {decisions : Value} {args : Dict} {r : Ranked}
    (h : applyRankDecisions rt findings decisions args = .ok r) :
    ∀ g ∈ r.findings, ∃ f ∈ findings, ∀ k, k ≠ "defect_confidence" → k ≠ "primary" →
      Assoc.get? g k = Assoc.get? f k := by
  obtain ⟨thr, -, h⟩ := Result.bind_eq_ok.1 h
  obtain ⟨out, hout, h⟩ := Result.bind_eq_ok.1 h
  obtain rfl := Except.ok.inj h
  intro g hg
  obtain ⟨⟨f, d⟩, hfd, hrank⟩ := Result.exists_of_mapM_right hout hg
  obtain ⟨⟨f', i⟩, hfi, hkept⟩ := List.mem_filterMap.1 hfd
  split_ifs at hkept
  cases hkept
  obtain ⟨conf, -, hrank⟩ := Result.bind_eq_ok.1 hrank
  obtain rfl := Except.ok.inj hrank
  refine ⟨f', ?_, fun k hconf hprimary => ?_⟩
  · exact List.fst_mem_of_mem_zipIdx hfi
  · rw [Assoc.get?_set, if_neg (Ne.symm hprimary), Assoc.get?_set, if_neg (Ne.symm hconf)]

end CodeReview
