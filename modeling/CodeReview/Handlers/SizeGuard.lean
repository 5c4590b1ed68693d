import CodeReview.Handlers.Merge
import CodeReview.Lib.Ladder

/-!
# The size guard

When the outputs together exceed the budget, the guard drops the least severe finding of the largest
output, again and again, and keeps the total by differences.

* `trimLowestPriorityUnit_eq` : a pass lowers the first largest output, and never undoes itself;
* `guard_trims_safely` : **the guard drops least severe findings and nothing else**, and its running
  total is the actual one;
* `guard_reaches_iff` : **it reaches the budget, or drops every finding, exactly when the outputs do
  that are each trimmed to the size of the largest output without findings.**
-/

namespace CodeReview

open Py

/-! ### The guard -/

variable {rt : Runtime}

theorem sizeGuard_of_le {budget : ℤ} {outs : List Dict} (h : (totalSize rt outs : ℤ) ≤ budget) :
    sizeGuard rt budget outs = .ok ⟨outs, totalSize rt outs⟩ := if_pos h

theorem sizeGuard_of_not_le {budget : ℤ} {outs : List Dict}
    (h : ¬ (totalSize rt outs : ℤ) ≤ budget) : sizeGuard rt budget outs = (do
      let lens ← outs.mapM fun out => ((out.get "findings").or (.list [])).len?
      return guardLoop rt budget lens.sum ⟨outs, totalSize rt outs⟩) := if_neg h

/-- `len` of the findings, or of `[]`. -/
def FindingsSized (out : Dict) : Prop := Result.Ok ((out.get "findings").or (.list [])).len?

/-- The guard returns where the findings have a length. -/
theorem sizeGuard_ok {outs : List Dict} (h : ∀ out ∈ outs, FindingsSized out) (budget : ℤ) :
    Result.Ok (sizeGuard rt budget outs) := by
  by_cases hfits : ((totalSize rt outs : ℕ) : ℤ) ≤ budget
  · rw [sizeGuard_of_le hfits]
    exact Result.ok_ok _
  · obtain ⟨lens, hlens⟩ := Result.mapM_ok h
    rw [sizeGuard_of_not_le hfits, hlens]
    exact Result.ok_ok _

/-- The guard raises only where findings have no length. -/
theorem exists_of_sizeGuard_error {budget : ℤ} {outs : List Dict} {exc : Exc}
    (h : sizeGuard rt budget outs = .error exc) :
    ∃ out ∈ outs, ((out.get "findings").or (.list [])).len? = .error exc := by
  by_cases hfits : ((totalSize rt outs : ℕ) : ℤ) ≤ budget
  · rw [sizeGuard_of_le hfits] at h
    cases h
  · rw [sizeGuard_of_not_le hfits] at h
    rcases Result.bind_eq_error.1 h with h | ⟨_, -, h⟩
    · exact Result.exists_of_mapM_error h
    · cases h

/-! ### One pass -/

/-- The findings, least severe first. -/
def byRank (rt : Runtime) (findings : List Value) : List Value :=
  findings.mergeSort fun a b => trimRank rt a ≤ trimRank rt b

theorem pairwise_byRank (findings : List Value) :
    (byRank rt findings).Pairwise fun a b => trimRank rt a ≤ trimRank rt b :=
  pairwise_mergeSort_key (trimRank rt) findings

/-- The output without its least severe finding. -/
def dropLowest (rt : Runtime) (out : Dict) : Option Dict :=
  match out.get "findings" with
  | .list (f :: fs) => some (Assoc.set out "findings" (.list (byRank rt (f :: fs)).tail))
  | _ => none

/-- The number of findings that can be dropped. -/
def findingCount (out : Dict) : ℕ :=
  match out.get "findings" with
  | .list fs => fs.length
  | _ => 0

theorem dropLowest_eq_some {out out' : Dict} : dropLowest rt out = some out' ↔
    ∃ fs x rest, out.get "findings" = .list fs ∧ byRank rt fs = x :: rest ∧
      out' = Assoc.set out "findings" (.list rest) := by
  have hperm (fs : List Value) : (byRank rt fs).Perm fs := List.mergeSort_perm _ _
  unfold dropLowest
  constructor
  · intro h
    split at h
    · rename_i f fs hfindings
      obtain rfl := Option.some.inj h
      cases hsorted : byRank rt (f :: fs) with
      | nil =>
        have hnil := hperm (f :: fs)
        rw [hsorted] at hnil
        cases hnil.symm.eq_nil
      | cons x rest => exact ⟨_, x, rest, hfindings, hsorted, rfl⟩
    · cases h
  · rintro ⟨fs, x, rest, hfindings, hsorted, rfl⟩
    rw [hfindings]
    cases fs with
    | nil =>
      rw [byRank, List.mergeSort_nil] at hsorted
      cases hsorted
    | cons f fs =>
      show some (Assoc.set out "findings" (.list (byRank rt (f :: fs)).tail)) = _
      rw [hsorted]
      rfl

theorem perm_of_byRank {fs rest : List Value} {x : Value} (h : byRank rt fs = x :: rest) :
    (x :: rest).Perm fs := h ▸ List.mergeSort_perm _ _

theorem get?_findings {out : Dict} {fs : List Value} (h : out.get "findings" = .list fs) :
    Assoc.get? out "findings" = some (.list fs) := by
  unfold Dict.get at h
  cases hget : Assoc.get? out "findings" with
  | none =>
    rw [hget] at h
    cases h
  | some v =>
    rw [hget] at h
    exact congrArg some h

@[simp] theorem get_set_findings (out : Dict) (v : Value) :
    Dict.get (Assoc.set out "findings" v) "findings" = v := by
  rw [Dict.get, Assoc.get?_set, if_pos rfl]
  rfl

/-- **A finding less makes an output smaller**, so that no pass undoes itself. -/
theorem serialisedSize_dropLowest {out out' : Dict} (h : dropLowest rt out = some out') :
    serialisedSize rt out' < serialisedSize rt out := by
  obtain ⟨fs, x, rest, hfindings, hsorted, rfl⟩ := dropLowest_eq_some.1 h
  refine Nat.succ_lt_succ (Json.sizeAt_set_lt 0 (get?_findings hfindings) ?_)
  exact Json.sizeAt_list_lt 1 (perm_of_byRank hsorted)

theorem findingCount_dropLowest {out out' : Dict} (h : dropLowest rt out = some out') :
    findingCount out = findingCount out' + 1 := by
  obtain ⟨fs, x, rest, hfindings, hsorted, rfl⟩ := dropLowest_eq_some.1 h
  unfold findingCount
  rw [hfindings, get_set_findings]
  exact (perm_of_byRank hsorted).length_eq.symm

theorem exists_dropLowest {out : Dict} (h : 0 < findingCount out) :
    ∃ out', dropLowest rt out = some out' := by
  unfold findingCount at h
  unfold dropLowest
  split at h
  · rename_i fs hfindings
    rw [hfindings]
    cases fs with
    | nil => exact absurd h (lt_irrefl _)
    | cons f fs => exact ⟨_, rfl⟩
  · exact absurd h (lt_irrefl _)

/-- The ladder of an output: its findings, dropped one by one. -/
def findingsLadder (rt : Runtime) : Ladder Dict where
  size := serialisedSize rt
  lower := dropLowest rt
  rungs := findingCount
  size_lt := serialisedSize_dropLowest
  rungs_eq := findingCount_dropLowest
  rungs_pos := exists_dropLowest

theorem isFirstLargest_largestIndex {outs : List Dict} (h : outs ≠ []) :
    ∃ out, (findingsLadder rt).IsFirstLargest outs (largestIndex rt outs) out := by
  induction outs with
  | nil => exact absurd rfl h
  | cons out outs ih =>
    cases outs with
    | nil =>
      refine ⟨out, rfl, fun j y hy => ?_, fun j y hy hj => absurd hj (Nat.not_lt_zero j)⟩
      obtain ⟨-, rfl⟩ := List.getElem?_eq_some_iff.1 hy
      simp
    | cons out' outs =>
      obtain ⟨best, hmem, hlargest, hfirst⟩ := ih (List.cons_ne_nil _ _)
      have hbest : (out' :: outs).getD (largestIndex rt (out' :: outs)) [] = best := by
        rw [List.getD_eq_getElem?_getD, hmem]
        rfl
      unfold largestIndex
      simp only [hbest]
      -- the first output gives way only to one that is strictly larger
      split_ifs with hlt
      · refine ⟨best, hmem, fun j y hy => ?_, fun j y hy hj => ?_⟩
        · cases j with
          | zero =>
            obtain rfl := Option.some.inj hy
            exact hlt.le
          | succ j => exact hlargest j y hy
        · cases j with
          | zero =>
            obtain rfl := Option.some.inj hy
            exact hlt
          | succ j => exact hfirst j y hy (Nat.lt_of_succ_lt_succ hj)
      · refine ⟨out, rfl, fun j y hy => ?_, fun j y hy hj => absurd hj (Nat.not_lt_zero j)⟩
        cases j with
        | zero =>
          obtain rfl := Option.some.inj hy
          exact le_rfl
        | succ j => exact (hlargest j y hy).trans (not_lt.1 hlt)

/-- **A pass lowers the first largest output**, and frees what it lost. -/
theorem trimLowestPriorityUnit_eq {outs : List Dict} (h : outs ≠ []) :
    ∃ i out, (findingsLadder rt).IsFirstLargest outs i out ∧ trimLowestPriorityUnit rt outs =
      (dropLowest rt out).map fun out' =>
        (outs.set i out', serialisedSize rt out - serialisedSize rt out') := by
  obtain ⟨out, hout⟩ := @isFirstLargest_largestIndex rt outs h
  refine ⟨largestIndex rt outs, out, hout, ?_⟩
  have hnone (hdrop : dropLowest rt out = none) : (dropLowest rt out).map (fun out' =>
      (outs.set (largestIndex rt outs) out', serialisedSize rt out - serialisedSize rt out')) =
      none := by rw [hdrop, Option.map_none]
  unfold trimLowestPriorityUnit
  simp only [hout.mem]
  cases hfindings : out.get "findings" with
  | list fs =>
    cases fs with
    | nil => exact (hnone (by rw [dropLowest, hfindings])).symm
    | cons f fs =>
      have hdrop : dropLowest rt out =
          some (Assoc.set out "findings" (.list (byRank rt (f :: fs)).tail)) := by
        rw [dropLowest, hfindings]
      rw [hdrop]
      exact if_neg (not_le.2 (serialisedSize_dropLowest hdrop))
  | _ => exact (hnone (by rw [dropLowest, hfindings])).symm

/-- A pass, without the bytes it frees. -/
def trimPass (rt : Runtime) (outs : List Dict) : Option (List Dict) :=
  (trimLowestPriorityUnit rt outs).map Prod.fst

theorem lowers_trimPass : (findingsLadder rt).Lowers (trimPass rt) := by
  refine ⟨rfl, ?_⟩
  intro outs hne
  obtain ⟨i, out, hout, htrim⟩ := @trimLowestPriorityUnit_eq rt outs hne
  refine ⟨i, out, hout, ?_⟩
  rw [trimPass, htrim, Option.map_map]
  rfl

/-! ### The running total -/

/-- The bytes that a pass frees are those that the total loses. -/
theorem totalSize_of_trim {outs outs' : List Dict} {freed : ℕ}
    (h : trimLowestPriorityUnit rt outs = some (outs', freed)) :
    totalSize rt outs' + freed = totalSize rt outs := by
  have hne : outs ≠ [] := by
    rintro rfl
    cases h
  obtain ⟨i, out, hout, htrim⟩ := @trimLowestPriorityUnit_eq rt outs hne
  obtain ⟨out', hdrop, heq⟩ := Option.map_eq_some_iff.1 (htrim.symm.trans h)
  obtain ⟨rfl, rfl⟩ := Prod.mk.inj heq
  have hsum := Ladder.sum_map_set (f := serialisedSize rt) (y := out') hout.mem
  have hlt := serialisedSize_dropLowest hdrop
  unfold totalSize
  omega

/-- The loop of the guard is the greedy one, and its running total is the actual one. -/
theorem guardLoop_eq (budget : ℤ) (passes : ℕ) (outs : List Dict) :
    guardLoop rt budget passes ⟨outs, totalSize rt outs⟩ =
      let outs' := (findingsLadder rt).descend (trimPass rt) budget passes outs
      ⟨outs', totalSize rt outs'⟩ := by
  induction passes generalizing outs with
  | zero => rfl
  | succ passes ih =>
    unfold guardLoop Ladder.descend
    have htotal : (findingsLadder rt).total outs = totalSize rt outs := rfl
    simp only [htotal, trimPass]
    split_ifs
    · rfl
    · cases htrim : trimLowestPriorityUnit rt outs with
      | none => rfl
      | some r =>
        obtain ⟨outs', freed⟩ := r
        have hfreed := totalSize_of_trim htrim
        have hrunning : ((totalSize rt outs : ℕ) : ℤ) - freed = totalSize rt outs' := by omega
        show guardLoop rt budget passes ⟨outs', (totalSize rt outs : ℤ) - freed⟩ = _
        rw [hrunning]
        exact ih outs'

/-! ### What the guard drops -/

/-- The output lost findings, none more severe than one it kept, and nothing else. -/
structure Pruned (rt : Runtime) (orig out : Dict) : Prop where
  keys : out.map Prod.fst = orig.map Prod.fst
  others : ∀ k ≠ "findings", Assoc.get? out k = Assoc.get? orig k
  findings : Assoc.get? out "findings" = Assoc.get? orig "findings" ∨
    ∃ fs kept dropped, orig.get "findings" = .list fs ∧ out.get "findings" = .list kept ∧
      (dropped ++ kept).Perm fs ∧ ∀ d ∈ dropped, ∀ f ∈ kept, trimRank rt d ≤ trimRank rt f

theorem Pruned.refl (out : Dict) : Pruned rt out out := ⟨rfl, fun _ _ => rfl, .inl rfl⟩

/-- One finding more is dropped. -/
theorem Pruned.drop {orig out out' : Dict} (h : Pruned rt orig out)
    (hdrop : dropLowest rt out = some out') : Pruned rt orig out' := by
  obtain ⟨fs, x, rest, hfindings, hsorted, rfl⟩ := dropLowest_eq_some.1 hdrop
  have hperm := perm_of_byRank hsorted
  have hlowest : ∀ f ∈ rest, trimRank rt x ≤ trimRank rt f := by
    have hpairwise := @pairwise_byRank rt fs
    rw [hsorted] at hpairwise
    exact (List.pairwise_cons.1 hpairwise).1
  refine ⟨?_, fun k hk => ?_, .inr ?_⟩
  · have hkey : "findings" ∈ out.map Prod.fst :=
      Assoc.get?_isSome_iff.1 (by rw [get?_findings hfindings]; rfl)
    rw [Assoc.keys_set, if_pos hkey, h.keys]
  · rw [Assoc.get?_set, if_neg (Ne.symm hk)]
    exact h.others k hk
  · rcases h.findings with hsame | ⟨fs', kept, dropped, horig, hkept, hall, hranks⟩
    · have horig : orig.get "findings" = .list fs := by
        rw [← hfindings, Dict.get, Dict.get, hsame]
      refine ⟨fs, rest, [x], horig, get_set_findings _ _, hperm, ?_⟩
      exact List.forall_mem_singleton.2 hlowest
    · obtain rfl := Value.list.inj (hkept.symm.trans hfindings)
      refine ⟨fs', rest, x :: dropped, horig, get_set_findings _ _, ?_, ?_⟩
      · have hmiddle : (dropped ++ x :: rest).Perm (x :: (dropped ++ rest)) := List.perm_middle
        exact hmiddle.symm.trans ((hperm.append_left dropped).trans hall)
      · refine List.forall_mem_cons.2 ⟨hlowest, ?_⟩
        intro d hd f hf
        exact hranks d hd f (hperm.subset (List.mem_cons_of_mem _ hf))

theorem pruned_of_below {orig out : Dict} (h : (findingsLadder rt).Below orig out) :
    Pruned rt orig out := by
  induction h with
  | refl => exact Pruned.refl orig
  | tail _ hdrop ih => exact ih.drop hdrop

/-- What the guard returns is pruned, and within the budget it is what was given. -/
theorem sizeGuard_spec {budget : ℤ} {outs : List Dict} {g : Guard}
    (h : sizeGuard rt budget outs = .ok g) :
    List.Forall₂ (Pruned rt) outs g.outputs ∧ g.aggregateBytes = totalSize rt g.outputs ∧
      ((totalSize rt outs : ℤ) ≤ budget → g.outputs = outs) := by
  by_cases hfits : ((totalSize rt outs : ℕ) : ℤ) ≤ budget
  · rw [sizeGuard_of_le hfits] at h
    obtain rfl := Except.ok.inj h
    exact ⟨List.forall₂_same.2 fun out _ => Pruned.refl out, rfl, fun _ => rfl⟩
  · rw [sizeGuard_of_not_le hfits] at h
    obtain ⟨lens, -, h⟩ := Result.bind_eq_ok.1 h
    rw [guardLoop_eq] at h
    obtain rfl := Except.ok.inj h
    refine ⟨?_, rfl, fun hfits' => absurd hfits' hfits⟩
    exact (Ladder.descend_below lowers_trimPass lens.sum outs).imp fun _ _ => pruned_of_below

/-- There is a pass for every finding. -/
theorem exists_passes {outs : List Dict} (h : ∀ out ∈ outs, FindingsSized out) (budget : ℤ) :
    ∃ passes, (outs.map findingCount).sum ≤ passes ∧
      sizeGuard rt budget outs = .ok (guardLoop rt budget passes ⟨outs, totalSize rt outs⟩) := by
  by_cases hfits : ((totalSize rt outs : ℕ) : ℤ) ≤ budget
  · refine ⟨(outs.map findingCount).sum, le_rfl, ?_⟩
    rw [sizeGuard_of_le hfits]
    cases (outs.map findingCount).sum with
    | zero => rfl
    | succ passes => exact congrArg Except.ok (if_pos hfits).symm
  · obtain ⟨lens, hlens⟩ := Result.mapM_ok h
    refine ⟨lens.sum, ?_, by rw [sizeGuard_of_not_le hfits, hlens]; rfl⟩
    have hall := Result.mapM_eq_ok.1 hlens
    clear hfits hlens h
    induction hall with
    | nil => exact le_rfl
    | @cons out len outs lens hlen _ ih =>
      refine Nat.add_le_add ?_ ih
      unfold findingCount
      split
      · rename_i fs hfindings
        rw [hfindings] at hlen
        cases fs with
        | nil => exact Nat.zero_le _
        | cons f fs => exact (Except.ok.inj hlen).le
      · exact Nat.zero_le _

/-- **The guard drops least severe findings and nothing else, its running total is the actual one,
and within the budget it changes nothing.** -/
theorem guard_trims_safely (budget : ℤ) {outs : List Dict} (h : ∀ out ∈ outs, FindingsSized out) :
    ∃ g, sizeGuard rt budget outs = .ok g ∧ List.Forall₂ (Pruned rt) outs g.outputs ∧
      g.aggregateBytes = totalSize rt g.outputs ∧
        ((totalSize rt outs : ℤ) ≤ budget → g.outputs = outs) := by
  obtain ⟨g, hguard⟩ := @sizeGuard_ok rt outs h budget
  exact ⟨g, hguard, sizeGuard_spec hguard⟩

/-- An output of 122 bytes without a finding. -/
def failedOut : Dict :=
  [("id", .str "quality"), ("status", .str "failed"), ("findings", .list []),
    ("skip_reason", .str "context overflow; single file too large")]

/-- An output of 152 bytes with two findings. -/
def mixedOut : Dict :=
  [("id", .str "lang-python"), ("status", .str "completed"),
    ("findings", .list [.dict [("severity", .str "critical")], .dict [("severity", .str "minor")]])]

theorem findingsSized_mixed : ∀ out ∈ [failedOut, mixedOut], FindingsSized out :=
  List.forall_mem_cons.2 ⟨⟨0, rfl⟩, List.forall_mem_singleton.2 ⟨2, rfl⟩⟩

theorem guard_trims_safely_mixed : ∃ g, sizeGuard .ascii 250 [failedOut, mixedOut] = .ok g ∧
    List.Forall₂ (Pruned .ascii) [failedOut, mixedOut] g.outputs ∧
      g.aggregateBytes = totalSize .ascii g.outputs := by
  obtain ⟨g, hguard, hpruned, htotal, -⟩ :=
    @guard_trims_safely .ascii 250 [failedOut, mixedOut] findingsSized_mixed
  exact ⟨g, hguard, hpruned, htotal⟩

/-! ### Whether the guard reaches the budget -/

/-- The outputs are within the budget, or no finding is left. -/
def FitsOrEmpty (rt : Runtime) (budget : ℤ) (outs : List Dict) : Prop :=
  (totalSize rt outs : ℤ) ≤ budget ∨ ∀ out ∈ outs, findingCount out = 0

instance (budget : ℤ) (outs : List Dict) : Decidable (FitsOrEmpty rt budget outs) :=
  inferInstanceAs (Decidable (_ ∨ _))

/-- Each output trimmed by itself, least severe findings first, until it is no larger than the
largest output without findings, and smaller than that where it stands before the first such
output. -/
def levelled (rt : Runtime) (outs : List Dict) : List Dict := (findingsLadder rt).level outs

theorem fitsOrEmpty_iff {budget : ℤ} {outs : List Dict} :
    FitsOrEmpty rt budget outs ↔ (findingsLadder rt).FitsOrBottom budget outs := by
  refine or_congr Iff.rfl (forall₂_congr ?_)
  intro out _
  exact (Ladder.atBottom_iff (L := findingsLadder rt)).symm

/-- **The guard reaches the budget, or drops every finding, exactly when the levelled outputs
do.** -/
theorem guard_reaches_iff (budget : ℤ) {outs : List Dict} (h : ∀ out ∈ outs, FindingsSized out) :
    ∃ g, sizeGuard rt budget outs = .ok g ∧
      (FitsOrEmpty rt budget g.outputs ↔ FitsOrEmpty rt budget (levelled rt outs)) := by
  obtain ⟨passes, hpasses, hguard⟩ := @exists_passes rt outs h budget
  rw [guardLoop_eq] at hguard
  refine ⟨_, hguard, ?_⟩
  rw [fitsOrEmpty_iff, fitsOrEmpty_iff]
  exact Ladder.fits_or_bottom_iff lowers_trimPass hpasses

theorem guard_reaches_iff_mixed : ∃ g, sizeGuard .ascii 250 [failedOut, mixedOut] = .ok g ∧
    (FitsOrEmpty .ascii 250 g.outputs ↔
      FitsOrEmpty .ascii 250 (levelled .ascii [failedOut, mixedOut])) :=
  @guard_reaches_iff .ascii 250 [failedOut, mixedOut] findingsSized_mixed

/-- An output of 110 bytes, 41 of them for its finding. -/
def minorOut : Dict :=
  [("id", .str "lang-python"), ("status", .str "completed"),
    ("findings", .list [.dict [("severity", .str "minor")]])]

/-- **The guard gives up at the output without findings**, although the other one's finding would
free enough. -/
theorem failedOut_blocks : ¬ ∀ (budget : ℤ) (outs : List Dict), (∀ out ∈ outs, FindingsSized out) →
    ∃ g, sizeGuard .ascii budget outs = .ok g ∧ FitsOrEmpty .ascii budget g.outputs := by
  intro h
  have hsized : ∀ out ∈ [failedOut, minorOut], FindingsSized out :=
    List.forall_mem_cons.2 ⟨⟨0, rfl⟩, List.forall_mem_singleton.2 ⟨1, rfl⟩⟩
  obtain ⟨g, hguard, hfits⟩ := h 200 [failedOut, minorOut] hsized
  have hover : ¬ ((totalSize .ascii [failedOut, minorOut] : ℕ) : ℤ) ≤ 200 := by decide +kernel
  have hnone : trimLowestPriorityUnit .ascii [failedOut, minorOut] = none :=
    Option.isNone_iff_eq_none.1 (by decide +kernel)
  -- one pass at most, and it trims nothing
  have hloop : guardLoop .ascii 200 1
      ⟨[failedOut, minorOut], totalSize .ascii [failedOut, minorOut]⟩ =
      ⟨[failedOut, minorOut], totalSize .ascii [failedOut, minorOut]⟩ := by
    unfold guardLoop
    rw [if_neg hover, hnone]
  have hlens : [failedOut, minorOut].mapM (fun out =>
      ((out.get "findings").or (.list [])).len?) = .ok [0, 1] := rfl
  rw [sizeGuard_of_not_le hover, hlens, Result.ok_bind, Result.pure_eq_ok] at hguard
  have hone : [0, 1].sum = 1 := rfl
  rw [hone, hloop] at hguard
  obtain rfl := Except.ok.inj hguard
  exact absurd hfits (by decide +kernel)

end CodeReview
