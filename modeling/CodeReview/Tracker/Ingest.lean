import CodeReview.Runner.StageTimings
import CodeReview.Tracker.Timings
import Mathlib.Algebra.BigOperators.Ring.List
import Mathlib.Data.List.ReduceOption

/-!
# From a run to the timings table

The runner lists one entry for each unit of a leaf, without the number of the slice.  The table
keeps one row for each leaf, so that of a leaf in several slices only the last measured one is kept.

* `measuredRows_artifact` : the rows that the document of a run gives;
* `agentTotal_add` : what the table has for the specialists and what is lost of them add up to the
  entries;
* `keepsTelemetry_iff` : **no telemetry is lost exactly when the slices before the last of their
  leaf add up to nothing**, and the integers fit the table.
-/

namespace CodeReview

open Py

/-! ### What is measured -/

/-- The telemetry of a specialist. -/
inductive Telemetry where
  | wallMs
  | tokensIn
  | tokensOut
  | cost
  deriving DecidableEq, Repr

/-- Its key in an output and in an entry. -/
def Telemetry.field : Telemetry → String
  | wallMs => "wall_ms"
  | tokensIn => "tokens_in"
  | tokensOut => "tokens_out"
  | cost => "est_cost"

/-- The amount that a value stands for. -/
def amount : Value → ℚ
  | .int n => n
  | .float (.fin q) => q
  | _ => 0

/-- The amount in a column of the table; NULL counts for nothing. -/
def Telemetry.column (t : Telemetry) (row : TimingRow) : ℚ :=
  match t with
  | wallMs => row.wallMs
  | tokensIn => row.tokensIn.getD 0
  | tokensOut => row.tokensOut.getD 0
  | cost => row.cost.elim 0 fun x => amount (.float x)

/-- The stamp of a measured output: a wall time, token counts and a cost where there are any. -/
structure Measured (out : Dict) : Prop where
  wall : ∃ n : ℕ, out.get "wall_ms" = .int n
  tokensIn : out.get "tokens_in" = .none ∨ ∃ n : ℤ, out.get "tokens_in" = .int n
  tokensOut : out.get "tokens_out" = .none ∨ ∃ n : ℤ, out.get "tokens_out" = .int n
  cost : out.get "est_cost" = .none ∨ ∃ q : ℚ, out.get "est_cost" = .float (.fin q)

/-- The output of a unit that was measured, or that failed and carries no stamp. -/
def Stamped (out : Dict) : Prop := Measured out ∨ ∀ t : Telemetry, out.get t.field = .none

/-- The output has a wall time. -/
def Timed (e : UnitKey × Dict) : Prop := isReal (e.2.get "wall_ms") = true

instance : DecidablePred Timed := fun _ => inferInstanceAs (Decidable (_ = true))

theorem Measured.timed {e : UnitKey × Dict} (h : Measured e.2) : Timed e := by
  obtain ⟨n, hn⟩ := h.wall
  rw [Timed, hn]
  rfl

theorem Stamped.measured {e : UnitKey × Dict} (h : Stamped e.2) (htimed : Timed e) :
    Measured e.2 := by
  rcases h with hmeasured | hnone
  · exact hmeasured
  · rw [Timed, show e.2.get "wall_ms" = .none from hnone .wallMs] at htimed
    exact absurd htimed Bool.false_ne_true

theorem Stamped.amount_eq_zero {e : UnitKey × Dict} (h : Stamped e.2) (htimed : ¬ Timed e)
    (t : Telemetry) : amount (e.2.get t.field) = 0 := by
  rcases h with hmeasured | hnone
  · exact absurd hmeasured.timed htimed
  · rw [hnone t]
    rfl

/-! ### The rows -/

variable {runId prId : String}

/-- The row of a measured unit. -/
def agentRow (runId prId : String) (e : UnitKey × Dict) : TimingRow where
  runId := runId
  prId := prId
  scope := .agent
  name := e.1.1
  wallMs := (e.2.get "wall_ms").asInt?.getD 0
  tokensIn := (e.2.get "tokens_in").asInt?
  tokensOut := (e.2.get "tokens_out").asInt?
  cost := (e.2.get "est_cost").num?

theorem readTokens_eq {v : Value} (h : v = .none ∨ ∃ n : ℤ, v = .int n) :
    readTokens v = .ok v.asInt? := by
  rcases h with rfl | ⟨n, rfl⟩ <;> rfl

theorem readCost_eq {v : Value} (h : v = .none ∨ ∃ q : ℚ, v = .float (.fin q)) :
    readCost v = .ok v.num? := by
  rcases h with rfl | ⟨q, rfl⟩ <;> rfl

/-- The entry of a unit gives its row, if it was measured. -/
theorem specialistRow_timing {e : UnitKey × Dict} (h : Stamped e.2) :
    specialistRow runId prId (specialistTiming e) =
      .ok (if Timed e then some (agentRow runId prId e) else none) := by
  by_cases htimed : Timed e
  · obtain ⟨⟨n, hn⟩, hin, hout, hcost⟩ := h.measured htimed
    have hreal : isReal (e.2.get "wall_ms") = true := htimed
    rw [if_pos htimed]
    show (if isReal (e.2.get "wall_ms") then _ else _) = _
    rw [if_pos hreal]
    show ((e.2.get "wall_ms").toInt? >>= fun wallMs => readTokens (e.2.get "tokens_in") >>=
      fun tokensIn => readTokens (e.2.get "tokens_out") >>= fun tokensOut =>
        readCost (e.2.get "est_cost") >>= fun cost => _) = _
    rw [readTokens_eq hin, readTokens_eq hout, readCost_eq hcost, agentRow, hn]
    rfl
  · have hreal : ¬ isReal (e.2.get "wall_ms") = true := htimed
    rw [if_neg htimed]
    show (if isReal (e.2.get "wall_ms") then _ else _) = _
    rw [if_neg hreal]

theorem column_agentRow {e : UnitKey × Dict} (h : Measured e.2) (t : Telemetry) :
    t.column (agentRow runId prId e) = amount (e.2.get t.field) := by
  obtain ⟨⟨n, hn⟩, hin, hout, hcost⟩ := h
  cases t with
  | wallMs =>
    show (((e.2.get "wall_ms").asInt?.getD 0 : ℤ) : ℚ) = amount (e.2.get "wall_ms")
    rw [hn]
    rfl
  | tokensIn =>
    show (((e.2.get "tokens_in").asInt?.getD 0 : ℤ) : ℚ) = amount (e.2.get "tokens_in")
    rcases hin with hin | ⟨k, hin⟩ <;> rw [hin]
    · exact Int.cast_zero
    · rfl
  | tokensOut =>
    show (((e.2.get "tokens_out").asInt?.getD 0 : ℤ) : ℚ) = amount (e.2.get "tokens_out")
    rcases hout with hout | ⟨k, hout⟩ <;> rw [hout]
    · exact Int.cast_zero
    · rfl
  | cost =>
    show (e.2.get "est_cost").num?.elim 0 (fun x => amount (.float x)) = amount (e.2.get "est_cost")
    rcases hcost with hcost | ⟨q, hcost⟩ <;> rw [hcost] <;> rfl

/-! ### The document of a run -/

/-- The wall time of a state. -/
def stageTotal (stages : List StageTiming) (name : String) : ℤ :=
  ((stages.filter fun t => t.name = name).map fun t => (t.wallMs : ℤ)).sum

/-- The number of its timings. -/
def stageCount (stages : List StageTiming) (name : String) : ℤ :=
  (stages.filter fun t => t.name = name).length

theorem stageTotal_concat (stages : List StageTiming) (t : StageTiming) (name : String) :
    stageTotal (stages ++ [t]) name =
      stageTotal stages name + if t.name = name then (t.wallMs : ℤ) else 0 := by
  unfold stageTotal
  rw [List.filter_append, List.map_append, List.sum_append]
  by_cases hname : t.name = name <;> simp [hname]

theorem stageCount_concat (stages : List StageTiming) (t : StageTiming) (name : String) :
    stageCount (stages ++ [t]) name = stageCount stages name + if t.name = name then 1 else 0 := by
  unfold stageCount
  rw [List.filter_append, List.length_append]
  by_cases hname : t.name = name <;> simp [hname]

/-- A state that is not listed has no timings. -/
theorem filter_name_eq_nil {stages : List StageTiming} {name : String}
    (h : name ∉ stages.map StageTiming.name) : stages.filter (fun t => t.name = name) = [] := by
  rw [List.filter_eq_nil_iff]
  intro t ht heq
  exact h (List.mem_map.2 ⟨t, ht, of_decide_eq_true heq⟩)

/-- The buckets of the states hold their totals. -/
theorem addStage_fold (stages : List StageTiming) : ∃ agg,
    (stages.map StageTiming.toDict).foldlM addStage OrdMap.empty = .ok agg ∧
      ∀ name, agg.get? name = if name ∈ stages.map StageTiming.name then
        some (stageTotal stages name, stageCount stages name) else none := by
  rw [List.foldlM_map]
  refine Result.foldlM_total (fun done (agg : OrdMap String (ℤ × ℤ)) => ∀ name, agg.get? name =
    if name ∈ done.map StageTiming.name then some (stageTotal done name, stageCount done name)
    else none) (fun name => rfl) fun done agg t _ hagg => ?_
  refine ⟨agg.set t.name (((agg.get? t.name).getD (0, 0)).1 + t.wallMs,
    ((agg.get? t.name).getD (0, 0)).2 + 1), rfl, fun name => ?_⟩
  have hmem : name ∈ (done ++ [t]).map StageTiming.name ↔
      name ∈ done.map StageTiming.name ∨ name = t.name := by
    rw [List.map_append, List.mem_append, List.map_singleton, List.mem_singleton]
  rw [OrdMap.get?_set, stageTotal_concat, stageCount_concat]
  by_cases hname : t.name = name
  · have hbucket : (agg.get? name).getD (0, 0) = (stageTotal done name, stageCount done name) := by
      rw [hagg name]
      split_ifs with hdone
      · rfl
      · rw [stageTotal, stageCount, filter_name_eq_nil hdone]
        rfl
    rw [if_pos hname, if_pos hname, if_pos hname, hname, hbucket, if_pos (hmem.2 (.inr hname.symm))]
  · rw [if_neg hname, if_neg hname, if_neg hname, add_zero, add_zero, hagg name]
    exact if_congr (hmem.trans (or_iff_left (Ne.symm hname))).symm rfl rfl

/-- The integers of a document fit the table. -/
structure IntegersFit (stages : List StageTiming) (wholeReviewMs : ℕ) (m : ResultMap) : Prop where
  whole : FitsInteger wholeReviewMs
  stages : ∀ name, FitsInteger (stageTotal stages name) ∧ FitsInteger (stageCount stages name)
  units : ∀ e ∈ m.entries, ∀ t : Telemetry, ∀ n : ℤ, e.2.get t.field = .int n → FitsInteger n

/-- The rows of the measured units. -/
def agentRows (runId prId : String) (m : ResultMap) : List TimingRow :=
  ((sortedUnits m).filter Timed).map (agentRow runId prId)

theorem mem_sortedUnits {m : ResultMap} {e : UnitKey × Dict} : e ∈ sortedUnits m ↔ e ∈ m.entries :=
  List.mem_insertionSort _

theorem reduceOption_ite {α β : Type} (p : α → Prop) [DecidablePred p] (f : α → β) (xs : List α) :
    (xs.map fun x => if p x then some (f x) else none).reduceOption = (xs.filter p).map f := by
  induction xs with
  | nil => rfl
  | cons x xs ih =>
    rw [List.map_cons, List.filter_cons]
    by_cases hx : p x
    · rw [if_pos hx, if_pos (decide_eq_true hx), List.reduceOption_cons_of_some, ih, List.map_cons]
    · rw [if_neg hx, if_neg (by simpa using hx), List.reduceOption_cons_of_none, ih]

/-- The specialist entries of a run give the rows of its measured units. -/
theorem specialistRows_artifact (stats : RunnerStats) (stages : List StageTiming)
    (wholeReviewMs : ℕ) {m : ResultMap} (hstamped : ∀ e ∈ m.entries, Stamped e.2) :
    specialistRows runId prId (timingsArtifact stats stages wholeReviewMs m) =
      .ok (agentRows runId prId m) := by
  have hentries : (perSpecialistTimings m).mapM (specialistRow runId prId) =
      .ok ((sortedUnits m).map fun e =>
        if Timed e then some (agentRow runId prId e) else none) := by
    rw [Result.mapM_eq_ok, perSpecialistTimings, List.forall₂_map_left_iff,
      List.forall₂_map_right_iff, List.forall₂_same]
    exact fun e he => specialistRow_timing (hstamped e (mem_sortedUnits.1 he))
  have hlist : ((timingsArtifact stats stages wholeReviewMs m).get "specialists").or (.list []) =
      .list ((perSpecialistTimings m).map .dict) := Value.list_or_nil _
  rw [specialistRows, hlist, Value.iter_list, Result.ok_bind, dicts_map, hentries,
    Result.ok_bind, reduceOption_ite]
  rfl

/-- The row of the review. -/
theorem processRows_artifact (stats : RunnerStats) (stages : List StageTiming) (wholeReviewMs : ℕ)
    (m : ResultMap) : ∃ row, processRows runId prId (timingsArtifact stats stages wholeReviewMs m) =
      .ok [row] ∧ row.scope = .process ∧ (row.Storable ↔ FitsInteger wholeReviewMs) := by
  have hcost : Result.Ok (reviewCost (timingsArtifact stats stages wholeReviewMs m)) := by
    show Result.Ok (if isNumber (.float stats.totalEstCost) &&
      (some stats.totalEstCost).any fun x => Double.lt (.fin 0) x then _ else _)
    split_ifs
    · exact ⟨some stats.totalEstCost, rfl⟩
    · exact Result.ok_ok _
  obtain ⟨cost, hcost⟩ := hcost
  refine ⟨{ runId, prId, scope := .process, name := "whole_review", wallMs := wholeReviewMs, cost },
    ?_, rfl, ?_⟩
  · rw [processRows, hcost]
    rfl
  · have hone : FitsInteger 1 := by decide
    constructor
    · exact fun h => h.1
    · intro h
      exact ⟨h, fun n hn => (nomatch hn), fun n hn => (nomatch hn), hone⟩

/-- The rows of the states. -/
theorem stageRows_artifact (stats : RunnerStats) (stages : List StageTiming) (wholeReviewMs : ℕ)
    (m : ResultMap) : ∃ rows,
      stageRows runId prId (timingsArtifact stats stages wholeReviewMs m) = .ok rows ∧
        (∀ row ∈ rows, row.scope = .fsmState) ∧ ((∀ row ∈ rows, row.Storable) ↔
          ∀ name, FitsInteger (stageTotal stages name) ∧ FitsInteger (stageCount stages name)) := by
  obtain ⟨agg, hagg, hget⟩ := addStage_fold stages
  have hlist : ((timingsArtifact stats stages wholeReviewMs m).get "stage_timings").or (.list []) =
      .list ((stages.map StageTiming.toDict).map .dict) := by
    rw [List.map_map]
    exact Value.list_or_nil _
  -- the buckets are the states with their totals
  have hmem {b : String × ℤ × ℤ} : b ∈ agg.entries.insertionSort (fun b b' => b.1 ≤ b'.1) ↔
      b.1 ∈ stages.map StageTiming.name ∧ b.2 = (stageTotal stages b.1, stageCount stages b.1) := by
    obtain ⟨name, bucket⟩ := b
    rw [List.mem_insertionSort, OrdMap.mem_entries_iff, hget]
    split_ifs with hname
    · rw [Option.some.injEq]
      exact ⟨fun h => ⟨hname, h.symm⟩, fun h => h.2.symm⟩
    · exact ⟨fun h => (nomatch h), fun h => absurd h.1 hname⟩
  have hstorable (b : String × ℤ × ℤ) : (stageRow runId prId b).Storable ↔
      FitsInteger b.2.1 ∧ FitsInteger b.2.2 := by
    constructor
    · exact fun h => ⟨h.1, h.2.2.2⟩
    · intro h
      exact ⟨h.1, fun n hn => (nomatch hn), fun n hn => (nomatch hn), h.2⟩
  refine ⟨(agg.entries.insertionSort fun b b' => b.1 ≤ b'.1).map (stageRow runId prId), ?_,
    fun row hrow => ?_, ?_⟩
  · rw [stageRows, hlist, Value.iter_list, Result.ok_bind, dicts_map, hagg, Result.ok_bind]
    rfl
  · obtain ⟨b, -, rfl⟩ := List.mem_map.1 hrow
    rfl
  · rw [List.forall_mem_map]
    constructor
    · intro h name
      by_cases hname : name ∈ stages.map StageTiming.name
      · exact (hstorable _).1 (h (name, stageTotal stages name, stageCount stages name)
          (hmem.2 ⟨hname, rfl⟩))
      · -- a state without timings has no row, and its totals are zero
        rw [stageTotal, stageCount, filter_name_eq_nil hname]
        decide
    · intro h b hb
      rw [hstorable, (hmem.1 hb).2]
      exact h b.1

/-- **The rows that the document of a run gives**: those of its measured units, behind others that
are stored when the totals of the document fit. -/
theorem measuredRows_artifact (stats : RunnerStats) (stages : List StageTiming) (wholeReviewMs : ℕ)
    {m : ResultMap} (hstamped : ∀ e ∈ m.entries, Stamped e.2) : ∃ others,
      measuredRows runId prId (timingsArtifact stats stages wholeReviewMs m) =
          .ok (others ++ agentRows runId prId m) ∧
        (∀ row ∈ others, row.scope ≠ .agent) ∧ ((∀ row ∈ others, row.Storable) ↔
          FitsInteger wholeReviewMs ∧
            ∀ name, FitsInteger (stageTotal stages name) ∧
              FitsInteger (stageCount stages name)) := by
  obtain ⟨process, hprocess, hscope, hwhole⟩ :=
    @processRows_artifact runId prId stats stages wholeReviewMs m
  obtain ⟨states, hstates, hscopes, htotals⟩ :=
    @stageRows_artifact runId prId stats stages wholeReviewMs m
  refine ⟨[process] ++ states, ?_, fun row hrow => ?_, ?_⟩
  · rw [measuredRows, hprocess, hstates,
      specialistRows_artifact stats stages wholeReviewMs hstamped]
    rfl
  · rcases List.mem_append.1 hrow with hrow | hrow
    · rw [List.mem_singleton.1 hrow, hscope]
      exact TimingScope.noConfusion
    · rw [hscopes row hrow]
      exact TimingScope.noConfusion
  · rw [List.forall_mem_append, List.forall_mem_singleton, hwhole, htotals]

/-- The row of a measured unit is stored when its integers fit. -/
theorem storable_agentRow {e : UnitKey × Dict} (h : Measured e.2) :
    (agentRow runId prId e).Storable ↔
      ∀ t : Telemetry, ∀ n : ℤ, e.2.get t.field = .int n → FitsInteger n := by
  have hone : FitsInteger 1 := by decide
  obtain ⟨⟨wall, hwall⟩, hin, hout, hcost⟩ := h
  have hrow : (agentRow runId prId e).wallMs = wall := by
    show (e.2.get "wall_ms").asInt?.getD 0 = wall
    rw [hwall]
    rfl
  -- a token count that is missing is stored as NULL
  have htokens {v : Value} (hv : v = .none ∨ ∃ n : ℤ, v = .int n) :
      (∀ n ∈ v.asInt?, FitsInteger n) ↔ ∀ n : ℤ, v = .int n → FitsInteger n := by
    rcases hv with rfl | ⟨k, rfl⟩
    · exact ⟨fun _ n h => (nomatch h), fun _ n h => (nomatch h)⟩
    · exact ⟨fun h n hn => h n (congrArg some (Value.int.inj hn)),
        fun h n hn => h n (congrArg Value.int (Option.some.inj hn))⟩
  constructor
  · rintro ⟨h, hfitsIn, hfitsOut, -⟩ t n hn
    cases t with
    | wallMs =>
      rw [show e.2.get "wall_ms" = .int n from hn] at hwall
      rw [hrow, ← Value.int.inj hwall] at h
      exact h
    | tokensIn => exact (htokens hin).1 hfitsIn n hn
    | tokensOut => exact (htokens hout).1 hfitsOut n hn
    | cost =>
      -- a cost is a float, which fits any column
      rcases hcost with hcost | ⟨q, hcost⟩ <;>
        exact absurd (hcost.symm.trans hn) (by simp)
  · intro h
    exact ⟨hrow ▸ h .wallMs wall hwall, (htokens hin).2 (h .tokensIn),
      (htokens hout).2 (h .tokensOut), hone⟩

theorem storable_agentRows {m : ResultMap} (hstamped : ∀ e ∈ m.entries, Stamped e.2) :
    (∀ row ∈ agentRows runId prId m, row.Storable) ↔
      ∀ e ∈ m.entries, ∀ t : Telemetry, ∀ n : ℤ, e.2.get t.field = .int n → FitsInteger n := by
  rw [agentRows, List.forall_mem_map]
  constructor
  · intro h e he t n hn
    by_cases htimed : Timed e
    · have hmem : e ∈ (sortedUnits m).filter Timed :=
        List.mem_filter.2 ⟨mem_sortedUnits.2 he, decide_eq_true htimed⟩
      exact (storable_agentRow ((hstamped e he).measured htimed)).1 (h e hmem) t n hn
    · rcases hstamped e he with hmeasured | hnone
      · exact absurd hmeasured.timed htimed
      · rw [hnone t] at hn
        cases hn
  · intro h e he
    obtain ⟨hmem, htimed⟩ := List.mem_filter.1 he
    have hentry := mem_sortedUnits.1 hmem
    exact (storable_agentRow ((hstamped e hentry).measured (of_decide_eq_true htimed))).2
      (h e hentry)

/-! ### What the table keeps -/

/-- The specialists' total in the table, for one review. -/
def agentTotal (runId prId : String) (table : TimingTable) (t : Telemetry) : ℚ :=
  ((table.values.filter fun row =>
    row.scope = .agent ∧ row.runId = runId ∧ row.prId = prId).map t.column).sum

/-- The total of the specialist entries. -/
def entriesTotal (entries : List Dict) (t : Telemetry) : ℚ :=
  (entries.map fun entry => amount (entry.get t.field)).sum

/-- A later slice of the unit's leaf was measured. -/
def Superseded (m : ResultMap) (e : UnitKey × Dict) : Prop :=
  ∃ e' ∈ m.entries, Timed e' ∧ e'.1.1 = e.1.1 ∧ e.1.2 < e'.1.2

instance (m : ResultMap) : DecidablePred (Superseded m) :=
  fun _ => inferInstanceAs (Decidable (∃ e' ∈ m.entries, _))

/-- What the units before the last measured one of their leaf add up to. -/
def supersededTotal (m : ResultMap) (t : Telemetry) : ℚ :=
  ((m.entries.filter (Superseded m)).map fun e => amount (e.2.get t.field)).sum

theorem sum_map_filter {α : Type} (p : α → Prop) [DecidablePred p] (f : α → ℚ) (xs : List α) :
    ((xs.filter p).map f).sum = (xs.map fun x => if p x then f x else 0).sum := by
  simp [List.sum_map_ite]

/-- The units of a leaf stand in the order of their slices. -/
theorem pairwise_sortedUnits (m : ResultMap) :
    (sortedUnits m).Pairwise fun e e' => e.1.1 = e'.1.1 → e.1.2 < e'.1.2 := by
  have htrans : ∀ a b c, unitLe a b → unitLe b c → unitLe a c := by
    rintro a b c (hab | ⟨hab, hab'⟩) (hbc | ⟨hbc, hbc'⟩)
    · exact .inl (hab.trans hbc)
    · exact .inl (hbc ▸ hab)
    · exact .inl (hab ▸ hbc)
    · exact .inr ⟨hab.trans hbc, hab'.trans hbc'⟩
  have htotal : ∀ a b, unitLe a b ∨ unitLe b a := by
    intro a b
    rcases lt_trichotomy a.1.1 b.1.1 with h | h | h
    · exact .inl (.inl h)
    · rcases le_total a.1.2 b.1.2 with h' | h'
      · exact .inl (.inr ⟨h, h'⟩)
      · exact .inr (.inr ⟨h.symm, h'⟩)
    · exact .inr (.inl h)
  have : IsTrans (UnitKey × Dict) unitLe := ⟨htrans⟩
  have : Std.Total (unitLe : UnitKey × Dict → UnitKey × Dict → Prop) := ⟨htotal⟩
  have hsorted : (sortedUnits m).Pairwise unitLe := List.pairwise_insertionSort unitLe m.entries
  have hkeys : (sortedUnits m).Pairwise fun e e' => e.1 ≠ e'.1 := by
    have hperm := (List.perm_insertionSort unitLe m.entries).map Prod.fst
    exact List.pairwise_map.1 (hperm.nodup_iff.2 m.nodup)
  -- within a leaf the order is that of the slices, and no two units have one key
  refine (hsorted.and hkeys).imp fun {e e'} h hleaf => ?_
  obtain ⟨hlt | ⟨-, hle⟩, hne⟩ := h
  · exact absurd hleaf hlt.ne
  · refine lt_of_le_of_ne hle fun hsub => hne ?_
    exact Prod.ext hleaf hsub

/-- What a row counts for in the total. -/
def countedFor (runId prId : String) (t : Telemetry) (row : TimingRow) : ℚ :=
  if row.scope = .agent ∧ row.runId = runId ∧ row.prId = prId then t.column row else 0

theorem countedFor_agentRow {e : UnitKey × Dict} (h : Measured e.2) (t : Telemetry) :
    countedFor runId prId t (agentRow runId prId e) = amount (e.2.get t.field) := by
  rw [countedFor, if_pos ⟨rfl, rfl, rfl⟩, column_agentRow h]

theorem countedFor_other {row : TimingRow} (h : row.scope ≠ .agent) (t : Telemetry) :
    countedFor runId prId t row = 0 := if_neg fun hagent => h hagent.1

theorem amount_timing (e : UnitKey × Dict) (t : Telemetry) :
    amount ((specialistTiming e).get t.field) = amount (e.2.get t.field) := by
  cases t <;> rfl

/-- The rows of the measured units count for the entries. -/
theorem sum_countedFor_agentRows {m : ResultMap} (hstamped : ∀ e ∈ m.entries, Stamped e.2)
    (t : Telemetry) : ((agentRows runId prId m).map (countedFor runId prId t)).sum =
      entriesTotal (perSpecialistTimings m) t := by
  rw [agentRows, List.map_map, sum_map_filter, entriesTotal, perSpecialistTimings, List.map_map]
  refine congrArg List.sum (List.map_congr_left ?_)
  intro e he
  have hentry := hstamped e (mem_sortedUnits.1 he)
  show (if Timed e then countedFor runId prId t (agentRow runId prId e) else 0) =
    amount ((specialistTiming e).get t.field)
  rw [amount_timing]
  by_cases htimed : Timed e
  · rw [if_pos htimed, countedFor_agentRow (hentry.measured htimed)]
  · rw [if_neg htimed, hentry.amount_eq_zero htimed]

/-- The rows that are replaced are those of the superseded units. -/
theorem sum_overwritten_agentRows {m : ResultMap} (hstamped : ∀ e ∈ m.entries, Stamped e.2)
    (t : Telemetry) : ((OrdMap.overwritten (keyedRows (agentRows runId prId m))).map fun kv =>
      countedFor runId prId t kv.2).sum = supersededTotal m t := by
  have hkeyed : keyedRows (agentRows runId prId m) = ((sortedUnits m).filter Timed).map fun e =>
      ((runId, prId, TimingScope.agent, e.1.1), agentRow runId prId e) := by
    rw [keyedRows, agentRows, List.map_map]
    rfl
  have hleaf {e e' : UnitKey × Dict} :
      (runId, prId, TimingScope.agent, e.1.1) = (runId, prId, TimingScope.agent, e'.1.1) ↔
        e.1.1 = e'.1.1 := by
    simp only [Prod.mk.injEq, true_and]
  have hordered : ((sortedUnits m).filter Timed).Pairwise fun e e' =>
      (runId, prId, TimingScope.agent, e.1.1) = (runId, prId, TimingScope.agent, e'.1.1) →
        e.1.2 < e'.1.2 :=
    ((pairwise_sortedUnits m).filter _).imp fun hlt hkey => hlt (hleaf.1 hkey)
  rw [hkeyed, OrdMap.overwritten_eq_filter (fun e e' => e.1.2 < e'.1.2)
    (fun e e' h => not_lt_of_gt h) _ _ hordered, List.map_map, sum_map_filter, sum_map_filter,
    supersededTotal, sum_map_filter]
  have hperm : (sortedUnits m).Perm m.entries := List.perm_insertionSort _ _
  rw [← (hperm.map fun e => if Superseded m e then amount (e.2.get t.field) else 0).sum_eq]
  refine congrArg List.sum (List.map_congr_left ?_)
  intro e he
  have hentry := hstamped e (mem_sortedUnits.1 he)
  -- a row is replaced by that of a later timed slice of its leaf
  have hsuperseded : (∃ e' ∈ (sortedUnits m).filter Timed,
      (runId, prId, TimingScope.agent, e'.1.1) = (runId, prId, TimingScope.agent, e.1.1) ∧
        e.1.2 < e'.1.2) ↔ Superseded m e := by
    constructor
    · rintro ⟨e', he', hkey, hlt⟩
      obtain ⟨hmem, htimed⟩ := List.mem_filter.1 he'
      exact ⟨e', mem_sortedUnits.1 hmem, of_decide_eq_true htimed, hleaf.1 hkey, hlt⟩
    · rintro ⟨e', hmem, htimed, hkey, hlt⟩
      exact ⟨e', List.mem_filter.2 ⟨mem_sortedUnits.2 hmem, decide_eq_true htimed⟩, hleaf.2 hkey,
        hlt⟩
  by_cases htimed : Timed e
  · rw [if_pos htimed]
    refine if_congr hsuperseded ?_ rfl
    exact countedFor_agentRow (hentry.measured htimed) t
  · rw [if_neg htimed, hentry.amount_eq_zero htimed, ite_self]

/-- **What the table has for the specialists and what is lost of them add up to the entries.** -/
theorem agentTotal_add {m : ResultMap} (hstamped : ∀ e ∈ m.entries, Stamped e.2)
    {others : List TimingRow} (hothers : ∀ row ∈ others, row.scope ≠ .agent) (t : Telemetry) :
    agentTotal runId prId (OrdMap.ofList (keyedRows (others ++ agentRows runId prId m))) t +
      supersededTotal m t = entriesTotal (perSpecialistTimings m) t := by
  have hzero : ∀ kv ∈ keyedRows others, countedFor runId prId t kv.2 = 0 := by
    intro kv hkv
    obtain ⟨row, hrow, rfl⟩ := List.mem_map.1 hkv
    exact countedFor_other (hothers row hrow) t
  have happend : keyedRows (others ++ agentRows runId prId m) =
      keyedRows others ++ keyedRows (agentRows runId prId m) := List.map_append
  have hsum := OrdMap.sum_ofList (countedFor runId prId t)
    (keyedRows (others ++ agentRows runId prId m))
  have hrows : ((keyedRows (others ++ agentRows runId prId m)).map fun kv =>
      countedFor runId prId t kv.2).sum = entriesTotal (perSpecialistTimings m) t := by
    have hnothing : ((keyedRows others).map fun kv => countedFor runId prId t kv.2).sum = 0 :=
      List.sum_eq_zero (List.forall_mem_map.2 hzero)
    rw [happend, List.map_append, List.sum_append, hnothing, zero_add, ←
      sum_countedFor_agentRows hstamped, keyedRows, List.map_map]
    rfl
  rw [hrows, happend, OrdMap.sum_overwritten_append hzero,
    sum_overwritten_agentRows hstamped] at hsum
  rw [← hsum, happend, agentTotal, sum_map_filter]
  rfl

/-! ### Whether telemetry is lost -/

/-- Once the document of the run is stored, the table has the totals of its entries. -/
def KeepsTelemetry (runId prId : String) (doc : Dict) (entries : List Dict) : Prop :=
  ∃ rows table, measuredRows runId prId doc = .ok rows ∧ writeRows rows = .ok table ∧
    ∀ t, agentTotal runId prId table t = entriesTotal entries t

/-- **No telemetry is lost exactly when the units before the last measured one of their leaf add up
to nothing**, and the integers of the document fit the table. -/
theorem keepsTelemetry_iff (runId prId : String) (stats : RunnerStats) (stages : List StageTiming)
    (wholeReviewMs : ℕ) {units : List PlanUnit} {results : Fin units.length → Result Dict}
    {m : ResultMap} (hm : collectResults units results = .ok m)
    (hstamped : ∀ i out, results i = .ok out → Stamped out) :
    KeepsTelemetry runId prId (timingsArtifact stats stages wholeReviewMs m)
        (perSpecialistTimings m) ↔
      IntegersFit stages wholeReviewMs m ∧ ∀ t, supersededTotal m t = 0 := by
  have hentries : ∀ e ∈ m.entries, Stamped e.2 := by
    rintro ⟨key, out⟩ he
    obtain ⟨i, -, hi⟩ := (collectResults_spec hm).2 key out ((m.mem_entries_iff).1 he)
    exact hstamped i out hi
  obtain ⟨others, hrows, hscopes, hothers⟩ :=
    @measuredRows_artifact runId prId stats stages wholeReviewMs m hentries
  have hwrite (table : TimingTable) :
      writeRows (others ++ agentRows runId prId m) = .ok table ↔
        IntegersFit stages wholeReviewMs m ∧
          table = OrdMap.ofList (keyedRows (others ++ agentRows runId prId m)) := by
    rw [writeRows_eq_ok_iff, List.forall_mem_append, hothers, storable_agentRows hentries]
    exact and_congr_left fun _ =>
      ⟨fun h => ⟨h.1.1, h.1.2, h.2⟩, fun h => ⟨⟨h.whole, h.stages⟩, h.units⟩⟩
  -- what the table has and what is superseded add up to what the document has
  have hlost (t : Telemetry) :
      agentTotal runId prId (OrdMap.ofList (keyedRows (others ++ agentRows runId prId m))) t =
        entriesTotal (perSpecialistTimings m) t ↔ supersededTotal m t = 0 := by
    rw [← agentTotal_add hentries hscopes t]
    exact ⟨fun h => by linarith, fun h => by linarith⟩
  constructor
  · rintro ⟨rows, table, hrows', htable, htotals⟩
    obtain rfl := Except.ok.inj (hrows.symm.trans hrows')
    obtain ⟨hfit, rfl⟩ := (hwrite table).1 htable
    exact ⟨hfit, fun t => (hlost t).1 (htotals t)⟩
  · rintro ⟨hfit, hzero⟩
    exact ⟨_, _, hrows, (hwrite _).2 ⟨hfit, rfl⟩, fun t => (hlost t).2 (hzero t)⟩

/-- The output of a unit that took `wallMs` milliseconds. -/
def timedOutput (leafId : String) (wallMs : ℕ) : Dict :=
  [("id", .str leafId), ("status", .str "completed"), ("findings", .list []),
    ("wall_ms", .int wallMs), ("tokens_in", .int 4), ("tokens_out", .int 50),
    ("est_cost", .float (.fin (1 / 1000)))]

theorem stamped_timedOutput (leafId : String) (wallMs : ℕ) : Stamped (timedOutput leafId wallMs) :=
  .inl ⟨⟨wallMs, rfl⟩, .inr ⟨4, rfl⟩, .inr ⟨50, rfl⟩, .inr ⟨1 / 1000, rfl⟩⟩

/-- The results of two slices of one leaf, of 10 ms and of 20 ms. -/
def splitResults : ResultMap :=
  OrdMap.ofList [(("quality", 1), timedOutput "quality" 10),
    (("quality", 2), timedOutput "quality" 20)]

/-- The results of two leaves. -/
def leafResults : ResultMap :=
  OrdMap.ofList [(("lang-python", 1), timedOutput "lang-python" 10),
    (("quality", 1), timedOutput "quality" 20)]

/-- The theorem applied to two leaves in one unit each. -/
theorem keepsTelemetry_iff_leafResults :
    KeepsTelemetry "iter1" "demo-1" (timingsArtifact {} [] 30 leafResults)
        (perSpecialistTimings leafResults) ↔
      IntegersFit [] 30 leafResults ∧ ∀ t, supersededTotal leafResults t = 0 := by
  let units : List PlanUnit := [⟨"lang-python", 1, 1, ["a.py"]⟩, ⟨"quality", 1, 1, ["a.py"]⟩]
  let results : Fin units.length → Result Dict := fun i =>
    .ok (timedOutput (units.get i).leafId (10 * (i + 1)))
  have hm : collectResults units results = .ok leafResults := rfl
  refine keepsTelemetry_iff "iter1" "demo-1" {} [] 30 hm ?_
  intro i out hout
  rw [← Except.ok.inj hout]
  exact stamped_timedOutput _ _

/-- Of two slices of one leaf the table keeps the second. -/
theorem splitResults_lose :
    ¬ KeepsTelemetry "iter1" "demo-1" (timingsArtifact {} [] 30 splitResults)
    (perSpecialistTimings splitResults) := by
  rintro ⟨rows, table, hrows, htable, htotals⟩
  have hstamped : ∀ e ∈ splitResults.entries, Stamped e.2 := by
    intro e he
    rcases List.mem_cons.1 he with rfl | he
    · exact stamped_timedOutput _ _
    · rw [List.mem_singleton.1 he]
      exact stamped_timedOutput _ _
  obtain ⟨others, hrows', hscopes, -⟩ :=
    @measuredRows_artifact "iter1" "demo-1" {} [] 30 _ hstamped
  obtain rfl := Except.ok.inj (hrows'.symm.trans hrows)
  obtain ⟨-, rfl⟩ := writeRows_eq_ok_iff.1 htable
  have hadd := @agentTotal_add "iter1" "demo-1" _ hstamped _ hscopes .wallMs
  rw [htotals .wallMs] at hadd
  have hlost : supersededTotal splitResults .wallMs = 10 := by
    decide +kernel
  rw [hlost] at hadd
  linarith

end CodeReview
