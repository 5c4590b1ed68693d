import CodeReview.Tracker.GatePredicate

/-!
# Two engines

`promote_gate` judges two rows of the tracker.  Where both carry the rounds of their measurements it
runs the predicate over them, and otherwise the gate over the summary statistics.  The two engines
treat a missing cost differently.

* `promoteGate_costMissing` : **without a cost the summary engine never promotes, and the predicate
  passes the cost guard and promotes on the other gates.**
-/

namespace CodeReview

open Py

/-! ### Embedded rounds -/

/-- `_ROUNDS_KEYS`. -/
def roundsKeys : List String := ["rounds", "per_pr_rounds", "per_pr"]

/-- `_COST_KEYS`. -/
def costKeys : List String := ["per_round_cost", "round_costs", "costs"]

/-- The exact value of a count; the arithmetic of the predicate is that of finite counts. -/
def exactCount : Double → Result ℚ
  | .fin q => .ok q
  | _ => .error (.user "NonFinite" "")

section

variable (rt : Runtime)

/-- One count of a pull request. -/
def coerceCount (counts : Dict) (key : String) : Result ℚ := do
  exactCount (← rt.toFloat (counts.getD key (.float (.fin 0))))

/-- The counts of a pull request. -/
def coerceCounts (counts : Dict) : Result Counts := do
  let tp ← coerceCount rt counts "tp"
  let fp ← coerceCount rt counts "fp"
  let fn ← coerceCount rt counts "fn"
  return ⟨tp, fp, fn⟩

/-- One round; `none` where its shape is not recognised. -/
def coerceRound : List (String × Value) → Result (Option PRCounts)
  | [] => .ok (some [])
  | (id, .dict counts) :: entries => do
    let c ← coerceCounts rt counts
    return (← coerceRound entries).map fun round => (id, c) :: round
  | _ => .ok none

/-- The rounds of a list. -/
def coerceRoundList : List Value → Result (Option (List PRCounts))
  | [] => .ok (some [])
  | .dict entries :: rounds => do
    match ← coerceRound rt entries with
    | some round => return (← coerceRoundList rounds).map (round :: ·)
    | none => return none
  | _ => .ok none

/-- `_coerce_rounds`. -/
def coerceRounds : Value → Result (Option (List PRCounts))
  | .list (r :: rs) => coerceRoundList rt (r :: rs)
  | _ => .ok none

/-- The first of the keys that holds rounds. -/
def embeddedRoundsAt (row : Dict) : List String → Result (Option (List PRCounts))
  | [] => .ok none
  | key :: keys =>
    match Assoc.get? row key with
    | some value => do
      match ← coerceRounds rt value with
      | some rounds => return some rounds
      | none => embeddedRoundsAt row keys
    | none => embeddedRoundsAt row keys

/-- `_embedded_rounds`. -/
def embeddedRounds (row : Dict) : Result (Option (List PRCounts)) :=
  embeddedRoundsAt rt row roundsKeys

/-- The first of the keys that holds a list decides. -/
def embeddedCostAt (row : Dict) : List String → Result (Option (List Double))
  | [] => .ok none
  | key :: keys =>
    match row.get key with
    | .list (x :: xs) =>
      match (x :: xs).mapM rt.toFloat with
      | .ok costs => .ok (some costs)
      | .error .typeError => .ok none
      | .error .valueError => .ok none
      | .error e => .error e
    | _ => embeddedCostAt row keys

/-- `_embedded_cost`. -/
def embeddedCost (row : Dict) : Result (Option (List Double)) := embeddedCostAt rt row costKeys

end

/-! ### The gate -/

/-- The field `detail`, by the engine that decided. -/
inductive PromoteDetail where
  | predicate (nSharedPrs : ℕ) (underpowered : Bool) (notes : List String)
  | summary (detail : SummaryDetail)

/-- The field `engine` of it. -/
def PromoteDetail.engine : PromoteDetail → String
  | predicate .. => "scripts.stats.gate_predicate"
  | summary detail => detail.engine

/-- The field `notes` of it. -/
def PromoteDetail.notes : PromoteDetail → List String
  | predicate _ _ notes => notes
  | summary detail => detail.notes

/-- The result of the predicate, in the tracker's terms. -/
def PredicateReturn.toGateReturn (raw : PredicateReturn) : GateReturn PromoteDetail where
  verdict := raw.verdict
  gates := raw.gates
  detail := .predicate raw.nSharedPrs raw.underpowered raw.detail.notes

section

variable (isDigit : Char → Bool) (rt : Runtime) (idx : Resample)

/-- `promote_gate`. -/
def promoteGate (baseline candidate : Dict) : Result (GateReturn PromoteDetail) := do
  let baseRounds ← embeddedRounds rt baseline
  let candRounds ← embeddedRounds rt candidate
  match baseRounds, candRounds with
  | some base, some cand =>
    let baseCost ← embeddedCost rt baseline
    let candCost ← embeddedCost rt candidate
    return (gatePredicate idx ⟨base, baseCost⟩ ⟨cand, candCost⟩ bDefault
      minPrsForPromote).toGateReturn
  | _, _ =>
    let r ← summaryStatGate isDigit rt baseline candidate
    return { verdict := r.verdict, gates := r.gates, detail := .summary r.detail }

end

/-! ### Missing costs -/

/-- Both rows carry rounds. -/
def BothEmbedded (rt : Runtime) (baseline candidate : Dict) : Prop :=
  ∃ base cand, embeddedRounds rt baseline = .ok (some base) ∧
    embeddedRounds rt candidate = .ok (some cand)

/-- The row carries no cost of its rounds. -/
def NoRoundCost (rt : Runtime) (row : Dict) : Prop := embeddedCost rt row = .ok none

/-- The row carries no mean cost, or one that is not positive. -/
def NoMeanCost (row : Dict) : Prop := ∃ cost, costMean row = .ok cost ∧ costMissing cost

/-- The note that the predicate leaves. -/
def costNote : String := "cost not recorded for both arms; GATE-5 treated as pass"

theorem costWithin_of_missing {b c : Option Double} (h : costMissing b ∨ costMissing c) :
    costWithin b c = false := by
  cases b with
  | none => rfl
  | some x =>
    cases c with
    | none => rfl
    | some y =>
      show (!costMissing (some x) && !costMissing (some y) && _) = false
      rcases h with h | h
      · rw [h]
        rfl
      · rw [h, Bool.not_true, Bool.and_false, Bool.false_and]

theorem costGuard_of_none {b c : Option Double} (h : b = none ∨ c = none) :
    costGuard b c = true := by
  rcases h with rfl | rfl
  · rfl
  · cases b <;> rfl

section

variable {isDigit : Char → Bool} {rt : Runtime} {idx : Resample} {baseline candidate : Dict}

/-- Where both rows carry rounds, the predicate decides. -/
theorem promoteGate_embedded {base cand : List PRCounts} {r : GateReturn PromoteDetail}
    (hbase : embeddedRounds rt baseline = .ok (some base))
    (hcand : embeddedRounds rt candidate = .ok (some cand))
    (h : promoteGate isDigit rt idx baseline candidate = .ok r) :
    ∃ baseCost candCost, embeddedCost rt baseline = .ok baseCost ∧
      embeddedCost rt candidate = .ok candCost ∧
      r = (gatePredicate idx ⟨base, baseCost⟩ ⟨cand, candCost⟩ bDefault
        minPrsForPromote).toGateReturn := by
  rw [promoteGate, hbase, hcand, Result.ok_bind, Result.ok_bind] at h
  obtain ⟨baseCost, hbaseCost, h⟩ := Result.bind_eq_ok.1 h
  obtain ⟨candCost, hcandCost, h⟩ := Result.bind_eq_ok.1 h
  exact ⟨baseCost, candCost, hbaseCost, hcandCost, (Except.ok.inj h).symm⟩

/-- Otherwise the summary statistics do. -/
theorem promoteGate_summary {r : GateReturn PromoteDetail}
    (hsummary : ¬ BothEmbedded rt baseline candidate)
    (h : promoteGate isDigit rt idx baseline candidate = .ok r) :
    ∃ s, readStats isDigit rt baseline candidate = .ok s ∧ r.verdict = s.verdict ∧
      r.gates = s.gates := by
  obtain ⟨base, hbase, h⟩ := Result.bind_eq_ok.1 h
  obtain ⟨cand, hcand, h⟩ := Result.bind_eq_ok.1 h
  have hreturns (h : (do
      let r ← summaryStatGate isDigit rt baseline candidate
      return { verdict := r.verdict, gates := r.gates, detail := .summary r.detail :
        GateReturn PromoteDetail }) = Except.ok r) :
      ∃ s, readStats isDigit rt baseline candidate = .ok s ∧ r.verdict = s.verdict ∧
        r.gates = s.gates := by
    obtain ⟨raw, hraw, h⟩ := Result.bind_eq_ok.1 h
    obtain ⟨s, hs, hraw⟩ := Result.bind_eq_ok.1 hraw
    rw [← Except.ok.inj h, ← Except.ok.inj hraw]
    exact ⟨s, hs, rfl, rfl⟩
  cases base with
  | none => exact hreturns h
  | some base =>
    cases cand with
    | none => exact hreturns h
    | some cand => exact absurd ⟨base, cand, hbase, hcand⟩ hsummary

theorem costMissing_of_noMeanCost {s : SummaryStats}
    (hs : readStats isDigit rt baseline candidate = .ok s)
    (h : NoMeanCost baseline ∨ NoMeanCost candidate) :
    costMissing s.costB ∨ costMissing s.costC := by
  obtain ⟨hcostB, hcostC, -⟩ := of_readStats hs
  rcases h with ⟨cost, hcost, hmissing⟩ | ⟨cost, hcost, hmissing⟩
  · rw [hcostB] at hcost
    rw [Except.ok.inj hcost]
    exact .inl hmissing
  · rw [hcostC] at hcost
    rw [Except.ok.inj hcost]
    exact .inr hmissing

/-- **A missing cost**: over summary statistics nothing is promoted without both costs; over
embedded rounds the cost guard is passed then, which a note says, and the other gates decide. -/
theorem promoteGate_costMissing {r : GateReturn PromoteDetail}
    (h : promoteGate isDigit rt idx baseline candidate = .ok r) :
    (¬ BothEmbedded rt baseline candidate → NoMeanCost baseline ∨ NoMeanCost candidate →
        r.verdict ≠ .promote) ∧
      (BothEmbedded rt baseline candidate → NoRoundCost rt baseline ∨ NoRoundCost rt candidate →
        r.gates.gate5Cost = true ∧ costNote ∈ r.detail.notes ∧
          ∃ n underpowered notes, r.detail = .predicate n underpowered notes ∧
            (r.verdict = .promote ↔ minPrsForPromote ≤ n ∧ r.gates.gate1Recall ∧
              r.gates.gate2Noise ∧ r.gates.gate3Progress ∧ r.gates.gate4Stability)) := by
  constructor
  · intro hsummary hcost hpromote
    obtain ⟨s, hs, hverdict, -⟩ := promoteGate_summary hsummary h
    have hclears := (s.verdict_eq_promote.1 (hverdict.symm.trans hpromote)).1
    -- a promotion clears the cost gate, which a missing cost fails
    have hwithin := hclears.cost
    rw [costWithin_of_missing (costMissing_of_noMeanCost hs hcost)] at hwithin
    cases hwithin
  · rintro ⟨base, cand, hbase, hcand⟩ hcost
    obtain ⟨baseCost, candCost, hbaseCost, hcandCost, rfl⟩ := promoteGate_embedded hbase hcand h
    have hnone : meanCost baseCost = none ∨ meanCost candCost = none := by
      rcases hcost with hcost | hcost
      · rw [NoRoundCost, hbaseCost] at hcost
        rw [Except.ok.inj hcost]
        exact .inl rfl
      · rw [NoRoundCost, hcandCost] at hcost
        rw [Except.ok.inj hcost]
        exact .inr rfl
    have hguard : costGuard (meanCost baseCost) (meanCost candCost) = true :=
      costGuard_of_none hnone
    have hunrecorded : costUnrecorded ⟨base, baseCost⟩ ⟨cand, candCost⟩ = true := by
      rw [costUnrecorded, Bool.or_eq_true, Option.isNone_iff_eq_none, Option.isNone_iff_eq_none]
      exact hnone
    -- the guard is passed for want of a cost, so the other four gates decide
    refine ⟨hguard, ?_, _, _, _, rfl, ?_⟩
    · show costNote ∈
        (if costUnrecorded ⟨base, baseCost⟩ ⟨cand, candCost⟩ then [costNote] else []) ++ _
      rw [if_pos hunrecorded]
      exact List.mem_append_left _ (List.mem_singleton_self _)
    · rw [← Int.ofNat_le]
      refine GateFlags.verdict_eq_promote.trans (and_congr_right ?_)
      intro _
      show (_ && _ && _ && costGuard (meanCost baseCost) (meanCost candCost)) = true ∧ _ ↔ _
      rw [hguard, Bool.and_true, Bool.and_eq_true, Bool.and_eq_true]
      constructor
      · rintro ⟨⟨⟨hrecall, hnoise⟩, hstability⟩, hprogress⟩
        exact ⟨hrecall, hnoise, hprogress, hstability⟩
      · rintro ⟨hrecall, hnoise, hprogress, hstability⟩
        exact ⟨⟨⟨hrecall, hnoise⟩, hstability⟩, hprogress⟩

end

/-! ### A promotion without costs -/

/-- Twelve pull requests with the same counts. -/
def twelvePrs (tp fn : ℚ) : PRCounts :=
  ["a", "b", "c", "d", "e", "f", "g", "h", "i", "j", "k", "l"].map fun id => (id, ⟨tp, 0, fn⟩)

/-- A row that carries one round of them, and no cost. -/
def roundRow (tp fn : ℚ) : Dict :=
  [("rounds", .list [.dict ((twelvePrs tp fn).map fun pr => (pr.1, .dict
    [("tp", .float (.fin pr.2.tp)), ("fp", .float (.fin pr.2.fp)),
      ("fn", .float (.fin pr.2.fn))]))])]

/-- A generator that draws every pull request once. -/
def everyPr : Resample := fun n b => List.replicate b (List.range n)

theorem draws_everyPr : Draws everyPr := by
  refine fun n b => ⟨List.length_replicate, ?_⟩
  intro row hrow
  rw [List.eq_of_mem_replicate hrow]
  exact ⟨List.length_range, fun i hi => List.mem_range.1 hi⟩

section

variable {idx : Resample} (hidx : Draws idx)
include hidx

theorem twelvePrs_deltaCi {metric : Metric} (h : metric ≠ .precisionMetric) :
    pairedDeltaCi idx [twelvePrs 0 1] [twelvePrs 1 0] metric bDefault defaultLevel = ⟨1, 1, 1⟩ := by
  have hdelta : difference (perPrMetricVectors [twelvePrs 0 1] [twelvePrs 1 0] metric).1
      (perPrMetricVectors [twelvePrs 0 1] [twelvePrs 1 0] metric).2.1 = List.replicate 12 1 := by
    cases metric with
    | recallMetric => decide +kernel
    | precisionMetric => exact absurd rfl h
    | f1Metric => decide +kernel
  rw [pairedDeltaCi, hdelta, pairedBootstrapCi_replicate hidx (by decide) (by decide)]

theorem twelvePrs_fpDeltaCi : fpPerPrDeltaCi idx [twelvePrs 0 1] [twelvePrs 1 0] bDefault
    defaultLevel = ⟨0, 0, 0⟩ := by
  have hdelta : difference ((poolRounds [twelvePrs 0 1] (sharedPrs [twelvePrs 0 1]
      [twelvePrs 1 0])).map Counts.fp) ((poolRounds [twelvePrs 1 0] (sharedPrs [twelvePrs 0 1]
        [twelvePrs 1 0])).map Counts.fp) = List.replicate 12 0 := by
    decide +kernel
  rw [fpPerPrDeltaCi, hdelta, pairedBootstrapCi_replicate hidx (by decide) (by decide)]

/-- The candidate finds everything, the baseline nothing. -/
theorem twelvePrs_promote : (gatePredicate idx ⟨[twelvePrs 0 1], none⟩ ⟨[twelvePrs 1 0], none⟩
    bDefault minPrsForPromote).verdict = .promote := by
  have hgates : predicateGates idx ⟨[twelvePrs 0 1], none⟩ ⟨[twelvePrs 1 0], none⟩ bDefault =
      ⟨true, true, true, true, true⟩ := by
    rw [predicateGates]
    dsimp only
    rw [point_bootstrapCi, point_bootstrapCi, twelvePrs_deltaCi hidx (by decide),
      twelvePrs_deltaCi hidx (by decide), twelvePrs_fpDeltaCi hidx]
    decide +kernel
  have hshared : (minPrsForPromote : ℤ) ≤
      nShared ⟨[twelvePrs 0 1], none⟩ ⟨[twelvePrs 1 0], none⟩ := by decide +kernel
  refine GateFlags.verdict_eq_promote.2 ⟨hshared, ?_, ?_⟩
  · rw [hgates]
    rfl
  · rw [hgates]

end

/-- Neither row carries a cost. -/
def NoCost (rt : Runtime) (row : Dict) : Prop := NoMeanCost row ∧ NoRoundCost rt row

/-- **Without a cost the predicate promotes.** -/
theorem costMissing_promotes : ¬ ∀ (isDigit : Char → Bool) (rt : Runtime) (idx : Resample),
    Draws idx → ∀ (baseline candidate : Dict) (r : GateReturn PromoteDetail),
      promoteGate isDigit rt idx baseline candidate = .ok r →
        NoCost rt baseline ∨ NoCost rt candidate → r.verdict ≠ .promote := by
  intro h
  refine h isAsciiDigit Runtime.ascii everyPr draws_everyPr (roundRow 0 1) (roundRow 1 0) _ rfl
    (.inl ⟨⟨none, rfl, rfl⟩, rfl⟩) ?_
  exact twelvePrs_promote draws_everyPr

theorem promoteGate_costMissing_twelvePrs :
    ∃ r, promoteGate isAsciiDigit Runtime.ascii everyPr (roundRow 0 1) (roundRow 1 0) = .ok r ∧
      r.gates.gate5Cost = true ∧ costNote ∈ r.detail.notes := by
  have hreturns : promoteGate isAsciiDigit Runtime.ascii everyPr (roundRow 0 1) (roundRow 1 0) =
      .ok _ := rfl
  obtain ⟨hguard, hnote, -⟩ := (promoteGate_costMissing hreturns).2
    ⟨[twelvePrs 0 1], [twelvePrs 1 0], rfl, rfl⟩ (.inl rfl)
  exact ⟨_, hreturns, hguard, hnote⟩

end CodeReview
