import CodeReview.Runner.DispatchTree

/-!
# When a dispatch returns

`_dispatch_one` raises only where it handles an output that the hook returned, when the output's
cost stamp is added to the totals, when the findings of the halves are concatenated, and when the
stamps of the halves are summed, and where a slice has failed so often that its back-off is too long
for a float.

* `result_ok_iff` : **a run returns exactly when these steps succeed on the accepted answers.**
-/

namespace CodeReview

open Py Proc

variable {u : PlanUnit} {out : Dict}

theorem get?_withDefaults (u : PlanUnit) (out : Dict) (k : String) :
    Assoc.get? (withDefaults u out) k =
      if k = "findings" then some ((Assoc.get? out k).getD (.list []))
      else if k = "status" then some ((Assoc.get? out k).getD "completed")
      else if k = "id" then some ((Assoc.get? out k).getD (.str u.leafId))
      else Assoc.get? out k := by
  simp only [withDefaults, Assoc.get?_setdefault, eq_comm (b := k)]
  by_cases hf : k = "findings"
  · subst hf; simp
  · by_cases hs : k = "status"
    · subst hs; simp
    · by_cases hid : k = "id"
      · subst hid; simp
      · simp [hf, hs, hid]

theorem get_withDefaults_of_stamp {k : String} (h : k ∈ stampNames) :
    Dict.get (withDefaults u out) k = out.get k := by
  have hk : k ≠ "findings" ∧ k ≠ "status" ∧ k ≠ "id" := by
    refine ⟨?_, ?_, ?_⟩ <;> rintro rfl <;> revert h <;> decide
  rw [Dict.get, Dict.get, get?_withDefaults, if_neg hk.1, if_neg hk.2.1, if_neg hk.2.2]

theorem get_failedOutput_of_stamp {reason k : String} (h : k ∈ stampNames) :
    Dict.get (failedOutput u reason) k = .none := by
  revert h
  simp only [stampNames, stampKeys, List.map_cons, List.map_nil, List.cons_append,
    List.nil_append, List.mem_cons, List.not_mem_nil, or_false]
  rintro (rfl | rfl | rfl | rfl | rfl | rfl) <;> rfl

theorem findingsOf_withDefaults : findingsOf (withDefaults u out) = findingsOf out := by
  unfold findingsOf Dict.getD
  rw [get?_withDefaults, if_pos rfl]
  rfl

theorem mergedOutput_eq_ok {findings : List Value} {results : List Dict} {merged : Dict} :
    mergedOutput u findings results = .ok merged ↔ ∃ stamp, sumCostStamp results = .ok stamp ∧
      merged = Assoc.update (overflowOut u findings) stamp := by
  unfold mergedOutput
  rw [Result.bind_eq_ok]
  simp only [Result.pure_eq_ok, Except.ok.injEq, eq_comm]

/-- The stamp does not touch what a merged output is made with. -/
theorem get?_overflowOut {findings : List Value} {results : List Dict} {sums : Dict}
    (h : sumCostStamp results = .ok sums) (k : String) :
    Assoc.get? (Assoc.update (overflowOut u findings) sums) k =
      if k ∈ stampNames then Assoc.get? sums k else Assoc.get? (overflowOut u findings) k := by
  split_ifs with hk
  · rw [Assoc.get?_update_of_nodup _ (sumCostStamp_nodup h)]
    have hbase : Assoc.get? (overflowOut u findings) k = none := by
      rw [Assoc.get?_eq_none_iff]
      intro hbase
      revert hk
      simp only [overflowOut, List.map_cons, List.map_nil, List.mem_cons, List.not_mem_nil,
        or_false] at hbase
      rcases hbase with rfl | rfl | rfl <;> decide
    rw [hbase, Option.or_none]
  · exact Assoc.get?_update_of_notMem _ _ fun hmem => hk ((sumCostStamp_keys h).subset hmem)

namespace DispatchTree

/-- The stamp of the output: that of the accepted answer, or the sums over the halves. -/
def stamp : DispatchTree → Dict
  | split _ _ left right => (sumCostStamp [left.stamp, right.stamp]).toOption.getD []
  | answered _ _ out => out
  | _ => []

/-- `merged.extend` accepts the findings of the output. -/
def FindingsIterable : DispatchTree → Prop
  | answered _ _ out => Result.Ok (findingsOf out)
  | _ => True

/-- No step of the run raises. -/
def Returns : DispatchTree → Prop
  | answered _ _ out => StampConvertible out
  | split _ _ left right =>
    left.Returns ∧ right.Returns ∧ left.FindingsIterable ∧ right.FindingsIterable ∧
      Result.Ok (sumCostStamp [left.stamp, right.stamp])
  | stranded .. => False
  | cut .. => False
  | _ => True

theorem result_eq_ok_answered {u : PlanUnit} {failures : List Failure} {out r : Dict} :
    (answered u failures out).result = .ok r ↔ StampConvertible out ∧ r = withDefaults u out := by
  rw [← accumulateCost_ok_iff]
  unfold result acceptResult
  split <;> simp_all [eq_comm]

/-- The parts of a split output. -/
theorem result_eq_ok_split {u : PlanUnit} {failures : List Failure} {l r : DispatchTree}
    {merged : Dict} :
    (split u failures l r).result = .ok merged ↔
      ∃ outL outR fl fr, l.result = .ok outL ∧ r.result = .ok outR ∧ findingsOf outL = .ok fl ∧
        findingsOf outR = .ok fr ∧ mergedOutput u (fl ++ fr) [outL, outR] = .ok merged := by
  simp only [result, joinResult, halfOf, Result.bind_eq_ok, Result.pure_eq_ok, Except.ok.injEq]
  constructor
  · rintro ⟨_, ⟨outL, hl, fl, hfl, rfl⟩, _, ⟨outR, hr, fr, hfr, rfl⟩, h⟩
    exact ⟨outL, outR, fl, fr, hl, hr, hfl, hfr, h⟩
  · rintro ⟨outL, outR, fl, fr, hl, hr, hfl, hfr, h⟩
    exact ⟨_, ⟨outL, hl, fl, hfl, rfl⟩, _, ⟨outR, hr, fr, hfr, rfl⟩, h⟩

/-- The output of a run carries the tree's stamp. -/
theorem get_of_result {t : DispatchTree} {r : Dict} (h : t.result = .ok r) :
    ∀ k ∈ stampNames, r.get k = t.stamp.get k := by
  induction t generalizing r with
  | answered u failures out =>
    obtain ⟨-, rfl⟩ := result_eq_ok_answered.1 h
    exact fun k hk => get_withDefaults_of_stamp hk
  | gaveUp u failures last =>
    obtain rfl := Except.ok.inj h
    exact fun k hk => get_failedOutput_of_stamp hk
  | stranded u failures last => cases h
  | tooLarge u failures =>
    obtain rfl := Except.ok.inj h
    exact fun k hk => get_failedOutput_of_stamp hk
  | split u failures left right ihl ihr =>
    obtain ⟨outL, outR, fl, fr, hl, hr, -, -, hmerged⟩ := result_eq_ok_split.1 h
    obtain ⟨sums, hsums, rfl⟩ := mergedOutput_eq_ok.1 hmerged
    have hstamp : sumCostStamp [left.stamp, right.stamp] = .ok sums := by
      rw [← hsums]
      refine sumCostStamp_congr ?_
      intro k hk
      simp [ihl hl k hk, ihr hr k hk]
    intro k hk
    rw [Dict.get, get?_overflowOut hsums, if_pos hk, stamp, hstamp]
    rfl
  | cut u failures exc left ih => cases h

theorem findingsOf_ok_iff {t : DispatchTree} {r : Dict} (h : t.result = .ok r) :
    Result.Ok (findingsOf r) ↔ t.FindingsIterable := by
  cases t with
  | answered u failures out =>
    obtain ⟨-, rfl⟩ := result_eq_ok_answered.1 h
    rw [findingsOf_withDefaults]
    rfl
  | gaveUp u failures last =>
    obtain rfl := Except.ok.inj h
    exact iff_of_true ⟨[], rfl⟩ trivial
  | stranded u failures last => cases h
  | tooLarge u failures =>
    obtain rfl := Except.ok.inj h
    exact iff_of_true ⟨[], rfl⟩ trivial
  | split u failures left right =>
    obtain ⟨outL, outR, fl, fr, -, -, -, -, hmerged⟩ := result_eq_ok_split.1 h
    obtain ⟨sums, hsums, rfl⟩ := mergedOutput_eq_ok.1 hmerged
    refine iff_of_true ⟨fl ++ fr, ?_⟩ trivial
    unfold findingsOf Dict.getD
    rw [get?_overflowOut hsums, if_neg (by decide)]
    rfl
  | cut u failures exc left => cases h

/-- The sums over the halves' outputs are those over the trees' stamps. -/
theorem sumCostStamp_of_results {left right : DispatchTree} {outL outR : Dict}
    (hl : left.result = .ok outL) (hr : right.result = .ok outR) :
    sumCostStamp [outL, outR] = sumCostStamp [left.stamp, right.stamp] := by
  refine sumCostStamp_congr ?_
  intro k hk
  simp [get_of_result hl k hk, get_of_result hr k hk]

/-- **A run returns exactly when no step raises on the accepted answers.** -/
theorem result_ok_iff (t : DispatchTree) : Result.Ok t.result ↔ t.Returns := by
  induction t with
  | answered u failures out => simp [Result.Ok, result_eq_ok_answered, Returns]
  | gaveUp u failures last => exact iff_of_true ⟨_, rfl⟩ trivial
  | stranded u failures last => exact iff_of_false (Result.not_ok_error _) id
  | tooLarge u failures => exact iff_of_true ⟨_, rfl⟩ trivial
  | split u failures left right ihl ihr =>
    rw [Returns, ← ihl, ← ihr]
    constructor
    · rintro ⟨merged, h⟩
      obtain ⟨outL, outR, fl, fr, hl, hr, hfl, hfr, hmerged⟩ := result_eq_ok_split.1 h
      obtain ⟨sums, hsums, -⟩ := mergedOutput_eq_ok.1 hmerged
      exact ⟨⟨outL, hl⟩, ⟨outR, hr⟩, (findingsOf_ok_iff hl).1 ⟨fl, hfl⟩,
        (findingsOf_ok_iff hr).1 ⟨fr, hfr⟩, sums, by rw [← sumCostStamp_of_results hl hr, hsums]⟩
    · rintro ⟨⟨outL, hl⟩, ⟨outR, hr⟩, hfl, hfr, sums, hsums⟩
      obtain ⟨fl, hfl⟩ := (findingsOf_ok_iff hl).2 hfl
      obtain ⟨fr, hfr⟩ := (findingsOf_ok_iff hr).2 hfr
      rw [← sumCostStamp_of_results hl hr] at hsums
      exact ⟨_, result_eq_ok_split.2 ⟨outL, outR, fl, fr, hl, hr, hfl, hfr,
        mergedOutput_eq_ok.2 ⟨sums, hsums, rfl⟩⟩⟩
  | cut u failures exc left => exact iff_of_false (Result.not_ok_error exc) id

end DispatchTree

end CodeReview
