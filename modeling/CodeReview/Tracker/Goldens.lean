import CodeReview.Tracker.Score

/-!
# Goldens of two runs

On the recall axis two runs are compared golden by golden: which of the defects that both were
judged on did each of them catch?

* `perPrGoldenCaught_spec` : what is read for a pull request does not depend on the others;
* `mcnemarVectors_spec` : the two vectors are about the same goldens, in the same order;
* `mcnemar_discordant` : **the table counts the goldens of both runs, and the runs exchanged give
  the table transposed.**
-/

namespace CodeReview

open Py

/-- The goldens of a pull request: how many there are, and which were caught. -/
structure GoldenVerdict where
  n : ℕ
  caught : List ℤ
  deriving DecidableEq, Repr

/-- The golden was caught. -/
def GoldenVerdict.catches (v : GoldenVerdict) (g : ℕ) : Bool := (g : ℤ) ∈ v.caught

section

variable (rt : Runtime)

/-- The caught goldens that are in range. -/
def caughtGoldens (n : ℕ) (v : Dict) : Result (List ℤ) := do
  let listed ← ((v.get "matched_golden").or (.list [])).iter
  let indices ← listed.mapM rt.toInt
  return indices.filter fun g => 0 ≤ g ∧ g < n

/-- The goldens of a verdict, where it says how many there are and has an entry for the tool. -/
def goldensIn (tool : String) (data : Value) : Result (Option GoldenVerdict) := do
  let d ← data.asDict?.elim (.error .attributeError) .ok
  match (d.get "n_golden").asInt? with
  | none => return none
  | some n =>
    if n ≤ 0 then return none
    else
      match Assoc.get? (← toolVerdicts data) tool with
      | some (.dict v) => return some ⟨n.toNat, ← caughtGoldens rt n.toNat v⟩
      | _ => return none

/-- One more pull request. -/
def addGoldens (files : JudgeFiles) (tool : String) (out : List (String × GoldenVerdict))
    (id : String) : Result (List (String × GoldenVerdict)) :=
  match files.verdict id with
  | none => .ok out
  | some data => do
    match ← goldensIn rt tool data with
    | some v => return Assoc.set out id v
    | none => return out

/-- `per_pr_golden_caught`. -/
def perPrGoldenCaught (files : JudgeFiles) (prIds : List String) (tool : String) :
    Result (List (String × GoldenVerdict)) :=
  prIds.foldlM (addGoldens rt files tool) []

end

/-- One more golden for both vectors. -/
def appendGolden (base cand : GoldenVerdict) (vectors : List Bool × List Bool) (g : ℕ) :
    List Bool × List Bool :=
  (vectors.1 ++ [base.catches g], vectors.2 ++ [cand.catches g])

/-- The goldens that a pull request has in both runs. -/
def appendPr (cand base : List (String × GoldenVerdict)) (vectors : List Bool × List Bool)
    (id : String) : List Bool × List Bool :=
  match Assoc.get? cand id, Assoc.get? base id with
  | some c, some b => (List.range (min c.n b.n)).foldl (appendGolden b c) vectors
  | _, _ => vectors

/-- A run that is scored: its verdicts and its pull requests. -/
structure ScoredRun where
  files : JudgeFiles
  prIds : List String

/-- `_mcnemar_vectors`: first the baseline's. -/
def mcnemarVectors (rt : Runtime) (cand base : ScoredRun) (tool : String) :
    Result (List Bool × List Bool) := do
  let cand ← perPrGoldenCaught rt cand.files cand.prIds tool
  let base ← perPrGoldenCaught rt base.files base.prIds tool
  let shared := sortedSet ((cand.map Prod.fst).filter (· ∈ base.map Prod.fst))
  return shared.foldl (appendPr cand base) ([], [])

/-- The table that the exact test is run on. -/
structure McNemarTable where
  both : ℕ
  bOnly : ℕ
  cOnly : ℕ
  neither : ℕ
  deriving DecidableEq, Repr

/-- The table of the exchanged runs. -/
def McNemarTable.transpose (t : McNemarTable) : McNemarTable :=
  ⟨t.both, t.cOnly, t.bOnly, t.neither⟩

/-- `mcnemar_recall`, up to the test. -/
def mcnemarRecall (baseline candidate : List Bool) : Result McNemarTable :=
  if baseline.length ≠ candidate.length then
    .error (.user "ValueError" "baseline_caught and candidate_caught must align per golden")
  else
    .ok {
      both := (List.zipWith (fun b c => b && c) baseline candidate).count true
      bOnly := (List.zipWith (fun b c => b && !c) baseline candidate).count true
      cOnly := (List.zipWith (fun b c => !b && c) baseline candidate).count true
      neither := (List.zipWith (fun b c => !b && !c) baseline candidate).count true }

variable {rt : Runtime}

/-! ### What is read for a pull request -/

/-- The goldens that a run reads for a pull request. -/
def ScoredRun.goldens (rt : Runtime) (run : ScoredRun) (tool id : String) : Option GoldenVerdict :=
  if id ∈ run.prIds then
    (run.files.verdict id).bind fun data => (goldensIn rt tool data).toOption.join
  else none

theorem perPrGoldenCaught_spec {run : ScoredRun} {tool : String}
    {out : List (String × GoldenVerdict)}
    (h : perPrGoldenCaught rt run.files run.prIds tool = .ok out)
    (id : String) : Assoc.get? out id = run.goldens rt tool id := by
  obtain ⟨files, prIds⟩ := run
  refine Result.foldlM_induct (fun done (out : List (String × GoldenVerdict)) =>
    Assoc.get? out id = ScoredRun.goldens rt ⟨files, done⟩ tool id) h rfl ?_
  intro done out id' out' ih hstep
  -- a pull request read again gives the same
  have hother (hne : id' ≠ id) : ScoredRun.goldens rt ⟨files, done ++ [id']⟩ tool id =
      ScoredRun.goldens rt ⟨files, done⟩ tool id := by
    simp [ScoredRun.goldens, Ne.symm hne]
  have hhere : ScoredRun.goldens rt ⟨files, done ++ [id']⟩ tool id' =
      (files.verdict id').bind fun data => (goldensIn rt tool data).toOption.join :=
    if_pos (List.mem_append_right _ (List.mem_singleton_self _))
  have hkept (hnone : ((files.verdict id').bind fun data =>
      (goldensIn rt tool data).toOption.join) = none) :
      Assoc.get? out id = ScoredRun.goldens rt ⟨files, done ++ [id']⟩ tool id := by
    by_cases hid : id' = id
    · subst hid
      rw [ih, hhere, ScoredRun.goldens, hnone, ite_self]
    · rw [ih, hother hid]
  rw [addGoldens] at hstep
  cases hverdict : files.verdict id' with
  | none =>
    rw [hverdict] at hstep
    obtain rfl := Except.ok.inj hstep
    exact hkept (by rw [hverdict]; rfl)
  | some data =>
    rw [hverdict] at hstep
    obtain ⟨v, hv, hstep⟩ := Result.bind_eq_ok.1 hstep
    cases v with
    | none =>
      obtain rfl := Except.ok.inj hstep
      exact hkept (by rw [hverdict, Option.bind_some, hv]; rfl)
    | some v =>
      obtain rfl := Except.ok.inj hstep
      rw [Assoc.get?_set]
      by_cases hid : id' = id
      · subst hid
        rw [if_pos rfl, hhere, hverdict, Option.bind_some, hv]
        rfl
      · rw [if_neg hid, ih, hother hid]

/-! ### The goldens of both runs -/

/-- The run was judged on the golden. -/
def ScoredRun.Judged (rt : Runtime) (run : ScoredRun) (tool : String) (x : String × ℕ) : Prop :=
  ∃ v, run.goldens rt tool x.1 = some v ∧ x.2 < v.n

/-- The run caught the golden. -/
def ScoredRun.catches (rt : Runtime) (run : ScoredRun) (tool : String) (x : String × ℕ) : Bool :=
  (run.goldens rt tool x.1).any fun v => v.catches x.2

/-- The pull requests that both runs were judged on, in order. -/
def judgedInBoth (rt : Runtime) (cand base : ScoredRun) (tool : String) : List String :=
  sortedSet (cand.prIds.filter fun id =>
    (cand.goldens rt tool id).isSome && (base.goldens rt tool id).isSome)

/-- The goldens that a pull request has in both runs. -/
def goldensInBoth (rt : Runtime) (cand base : ScoredRun) (tool id : String) : List (String × ℕ) :=
  match cand.goldens rt tool id, base.goldens rt tool id with
  | some c, some b => (List.range (min c.n b.n)).map (id, ·)
  | _, _ => []

/-- The goldens that both runs were judged on, in order. -/
def sharedGoldens (rt : Runtime) (cand base : ScoredRun) (tool : String) : List (String × ℕ) :=
  (judgedInBoth rt cand base tool).flatMap (goldensInBoth rt cand base tool)

variable {cand base : ScoredRun} {tool : String}

theorem mem_prIds_of_goldens {run : ScoredRun} {id : String} {v : GoldenVerdict}
    (h : run.goldens rt tool id = some v) : id ∈ run.prIds := by
  by_contra hid
  rw [ScoredRun.goldens, if_neg hid] at h
  cases h

theorem mem_judgedInBoth {id : String} : id ∈ judgedInBoth rt cand base tool ↔
    (cand.goldens rt tool id).isSome ∧ (base.goldens rt tool id).isSome := by
  rw [judgedInBoth, mem_sortedSet, List.mem_filter, Bool.and_eq_true, and_iff_right_iff_imp]
  rintro ⟨hcand, -⟩
  obtain ⟨v, hv⟩ := Option.isSome_iff_exists.1 hcand
  exact mem_prIds_of_goldens hv

/-- A list of the pull requests that both runs were judged on, sorted. -/
theorem sortedSet_eq_judgedInBoth {ids : List String} (h : ∀ id, id ∈ ids ↔
    (cand.goldens rt tool id).isSome ∧ (base.goldens rt tool id).isSome) :
    sortedSet ids = judgedInBoth rt cand base tool :=
  sortedSet_congr fun id => (h id).trans (mem_judgedInBoth.symm.trans mem_sortedSet)

theorem judgedInBoth_swap : judgedInBoth rt base cand tool = judgedInBoth rt cand base tool :=
  sortedSet_eq_judgedInBoth fun _ =>
    (mem_sortedSet.symm.trans mem_judgedInBoth).trans and_comm

theorem goldensInBoth_swap (id : String) :
    goldensInBoth rt base cand tool id = goldensInBoth rt cand base tool id := by
  rw [goldensInBoth, goldensInBoth]
  cases cand.goldens rt tool id <;> cases base.goldens rt tool id
  · rfl
  · rfl
  · rfl
  · simp only [min_comm]

/-- The exchanged runs share the same goldens. -/
theorem sharedGoldens_swap : sharedGoldens rt base cand tool = sharedGoldens rt cand base tool := by
  rw [sharedGoldens, sharedGoldens, judgedInBoth_swap]
  exact congrArg (List.flatMap · _) (funext goldensInBoth_swap)

theorem mem_goldensInBoth {id : String} {x : String × ℕ} :
    x ∈ goldensInBoth rt cand base tool id ↔
      x.1 = id ∧ cand.Judged rt tool x ∧ base.Judged rt tool x := by
  constructor
  · intro hx
    rw [goldensInBoth] at hx
    cases hc : cand.goldens rt tool id with
    | none =>
      rw [hc] at hx
      cases hx
    | some c =>
      cases hb : base.goldens rt tool id with
      | none =>
        rw [hc, hb] at hx
        cases hx
      | some b =>
        rw [hc, hb] at hx
        obtain ⟨g, hg, rfl⟩ := List.mem_map.1 hx
        obtain ⟨hgc, hgb⟩ := lt_min_iff.1 (List.mem_range.1 hg)
        exact ⟨rfl, ⟨c, hc, hgc⟩, b, hb, hgb⟩
  · rintro ⟨rfl, ⟨c, hc, hgc⟩, b, hb, hgb⟩
    rw [goldensInBoth, hc, hb]
    exact List.mem_map.2 ⟨x.2, List.mem_range.2 (lt_min hgc hgb), rfl⟩

theorem mem_sharedGoldens {x : String × ℕ} : x ∈ sharedGoldens rt cand base tool ↔
    cand.Judged rt tool x ∧ base.Judged rt tool x := by
  rw [sharedGoldens, List.mem_flatMap]
  constructor
  · rintro ⟨id, -, hx⟩
    exact (mem_goldensInBoth.1 hx).2
  · rintro ⟨hcand, hbase⟩
    refine ⟨x.1, mem_judgedInBoth.2 ⟨?_, ?_⟩, mem_goldensInBoth.2 ⟨rfl, hcand, hbase⟩⟩
    · obtain ⟨v, hv, -⟩ := hcand
      rw [hv]
      rfl
    · obtain ⟨v, hv, -⟩ := hbase
      rw [hv]
      rfl

theorem nodup_sharedGoldens : (sharedGoldens rt cand base tool).Nodup := by
  refine List.nodup_flatMap.2 ⟨fun id _ => ?_, ?_⟩
  · rw [goldensInBoth]
    cases cand.goldens rt tool id <;> cases base.goldens rt tool id
    · exact List.nodup_nil
    · exact List.nodup_nil
    · exact List.nodup_nil
    · exact List.nodup_range.map fun g g' h => (Prod.mk.inj h).2
  · refine (nodup_sortedSet _).imp ?_
    intro id id' hne x hx hx'
    exact hne ((mem_goldensInBoth.1 hx).1.symm.trans (mem_goldensInBoth.1 hx').1)

/-! ### The vectors -/

theorem foldl_appendGolden (b c : GoldenVerdict) (gs : List ℕ) (vectors : List Bool × List Bool) :
    gs.foldl (appendGolden b c) vectors =
      (vectors.1 ++ gs.map b.catches, vectors.2 ++ gs.map c.catches) := by
  induction gs generalizing vectors with
  | nil => simp
  | cons g gs ih => simp [ih, appendGolden]

/-- One pull request adds its goldens to both vectors. -/
theorem appendPr_eq {cand' base' : List (String × GoldenVerdict)} {id : String}
    (hcand : Assoc.get? cand' id = cand.goldens rt tool id)
    (hbase : Assoc.get? base' id = base.goldens rt tool id) (vectors : List Bool × List Bool) :
    appendPr cand' base' vectors id =
      (vectors.1 ++ (goldensInBoth rt cand base tool id).map (base.catches rt tool),
        vectors.2 ++ (goldensInBoth rt cand base tool id).map (cand.catches rt tool)) := by
  rw [appendPr, hcand, hbase, goldensInBoth]
  cases hc : cand.goldens rt tool id with
  | none => simp
  | some c =>
    cases hb : base.goldens rt tool id with
    | none => simp
    | some b =>
      have hcaught (run : ScoredRun) (v : GoldenVerdict) (hv : run.goldens rt tool id = some v) :
          ((List.range (min c.n b.n)).map (id, ·)).map (run.catches rt tool) =
            (List.range (min c.n b.n)).map v.catches := by
        rw [List.map_map]
        refine List.map_congr_left fun g _ => ?_
        rw [Function.comp, ScoredRun.catches, hv]
        rfl
      rw [hcaught base b hb, hcaught cand c hc]
      exact foldl_appendGolden b c _ vectors

theorem foldl_appendPr {cand' base' : List (String × GoldenVerdict)}
    (hcand : ∀ id, Assoc.get? cand' id = cand.goldens rt tool id)
    (hbase : ∀ id, Assoc.get? base' id = base.goldens rt tool id) (ids : List String)
    (vectors : List Bool × List Bool) :
    ids.foldl (appendPr cand' base') vectors =
      (vectors.1 ++ (ids.flatMap (goldensInBoth rt cand base tool)).map (base.catches rt tool),
        vectors.2 ++ (ids.flatMap (goldensInBoth rt cand base tool)).map
          (cand.catches rt tool)) := by
  induction ids generalizing vectors with
  | nil => simp
  | cons id ids ih =>
    rw [List.foldl_cons, ih, appendPr_eq (hcand id) (hbase id), List.flatMap_cons, List.map_append,
      List.map_append, List.append_assoc, List.append_assoc]

/-- **The two vectors are about the goldens of both runs, in the same order.** -/
theorem mcnemarVectors_spec {vectors : List Bool × List Bool}
    (h : mcnemarVectors rt cand base tool = .ok vectors) :
    vectors = ((sharedGoldens rt cand base tool).map (base.catches rt tool),
      (sharedGoldens rt cand base tool).map (cand.catches rt tool)) := by
  obtain ⟨cand', hcand, h⟩ := Result.bind_eq_ok.1 h
  obtain ⟨base', hbase, h⟩ := Result.bind_eq_ok.1 h
  obtain rfl := Except.ok.inj h
  have hids : sortedSet ((cand'.map Prod.fst).filter (· ∈ base'.map Prod.fst)) =
      judgedInBoth rt cand base tool := by
    refine sortedSet_eq_judgedInBoth fun id => ?_
    rw [List.mem_filter, decide_eq_true_iff, ← Assoc.get?_isSome_iff, ← Assoc.get?_isSome_iff,
      perPrGoldenCaught_spec hcand, perPrGoldenCaught_spec hbase]
  rw [hids, foldl_appendPr (perPrGoldenCaught_spec hcand) (perPrGoldenCaught_spec hbase)]
  rfl

/-! ### The table -/

/-- The elements that `f` and `g` hold of, counted. -/
def tableOf {α : Type} (f g : α → Bool) (xs : List α) : McNemarTable where
  both := xs.countP fun x => f x && g x
  bOnly := xs.countP fun x => f x && !g x
  cOnly := xs.countP fun x => !f x && g x
  neither := xs.countP fun x => !f x && !g x

theorem tableOf_swap {α : Type} (f g : α → Bool) (xs : List α) :
    tableOf g f xs = (tableOf f g xs).transpose := by
  simp only [tableOf, McNemarTable.transpose, Bool.and_comm]

/-- The table of two vectors over the same goldens. -/
theorem mcnemarRecall_map {α : Type} (f g : α → Bool) (xs : List α) :
    mcnemarRecall (xs.map f) (xs.map g) = .ok (tableOf f g xs) := by
  have hcount (p : Bool → Bool → Bool) :
      (List.zipWith p (xs.map f) (xs.map g)).count true = xs.countP fun x => p (f x) (g x) := by
    rw [List.zipWith_map, List.zipWith_self, List.count, List.countP_map]
    refine List.countP_congr fun x _ => ?_
    simp
  rw [mcnemarRecall, if_neg (by simp), hcount, hcount, hcount, hcount]
  rfl

/-- The four entries count every element once. -/
theorem total_tableOf {α : Type} (f g : α → Bool) (xs : List α) :
    (tableOf f g xs).both + (tableOf f g xs).bOnly + (tableOf f g xs).cOnly +
      (tableOf f g xs).neither = xs.length := by
  simp only [tableOf]
  induction xs with
  | nil => rfl
  | cons x xs ih =>
    simp only [List.countP_cons, List.length_cons, ← ih]
    cases f x <;> cases g x <;> simp <;> omega

/-- The vectors of the exchanged runs. -/
theorem mcnemarVectors_swap {vectors : List Bool × List Bool}
    (h : mcnemarVectors rt cand base tool = .ok vectors) :
    mcnemarVectors rt base cand tool = .ok (vectors.2, vectors.1) := by
  obtain ⟨cand', hcand, hrest⟩ := Result.bind_eq_ok.1 h
  obtain ⟨base', hbase, -⟩ := Result.bind_eq_ok.1 hrest
  obtain ⟨vectors', hback⟩ : Result.Ok (mcnemarVectors rt base cand tool) :=
    ⟨_, Result.bind_eq_ok.2 ⟨base', hbase, Result.bind_eq_ok.2 ⟨cand', hcand, rfl⟩⟩⟩
  rw [hback, mcnemarVectors_spec hback, mcnemarVectors_spec h, sharedGoldens_swap]

/-- **The vectors and the table are about the goldens that both runs were judged on, and the runs
exchanged give the table transposed.** -/
theorem mcnemar_discordant {bs cs : List Bool}
    (h : mcnemarVectors rt cand base tool = .ok (bs, cs)) :
    ∃ (shared : List (String × ℕ)) (table : McNemarTable), shared.Nodup ∧
      (∀ x, x ∈ shared ↔ cand.Judged rt tool x ∧ base.Judged rt tool x) ∧
      bs = shared.map (base.catches rt tool) ∧ cs = shared.map (cand.catches rt tool) ∧
      mcnemarRecall bs cs = .ok table ∧
      table.both = (shared.countP fun x => base.catches rt tool x && cand.catches rt tool x) ∧
      table.bOnly = (shared.countP fun x => base.catches rt tool x && !cand.catches rt tool x) ∧
      table.cOnly = (shared.countP fun x => !base.catches rt tool x && cand.catches rt tool x) ∧
      table.neither = (shared.countP fun x => !base.catches rt tool x && !cand.catches rt tool x) ∧
      table.both + table.bOnly + table.cOnly + table.neither = shared.length ∧
      mcnemarVectors rt base cand tool = .ok (cs, bs) ∧
      mcnemarRecall cs bs = .ok table.transpose := by
  obtain ⟨hbs, hcs⟩ := Prod.mk.inj (mcnemarVectors_spec h)
  refine ⟨sharedGoldens rt cand base tool,
    tableOf (base.catches rt tool) (cand.catches rt tool) (sharedGoldens rt cand base tool),
    nodup_sharedGoldens, fun x => mem_sharedGoldens, hbs, hcs, ?_, rfl, rfl, rfl, rfl,
    total_tableOf _ _ _, mcnemarVectors_swap h, ?_⟩
  · rw [hbs, hcs, mcnemarRecall_map]
  · rw [hbs, hcs, mcnemarRecall_map, tableOf_swap]

/-- The verdicts of a run on two pull requests with two goldens each. -/
def twoVerdicts (caught caught' : List Value) : JudgeFiles where
  verdict id :=
    if id = "a" then some (.dict [("n_golden", .int 2), ("tools", .dict [("skill-prod",
      .dict [("matched_golden", .list caught)])])])
    else if id = "b" then some (.dict [("n_golden", .int 2), ("tools", .dict [("skill-prod",
      .dict [("matched_golden", .list caught')])])])
    else none
  nodup id data tools hverdict htools := by
    split_ifs at hverdict
    all_goals
      obtain rfl := Value.dict.inj (Option.some.inj hverdict)
      obtain rfl := Value.dict.inj htools
      exact List.nodup_singleton _

/-- The candidate caught the second golden of the one and, in the other, what the baseline
missed. -/
theorem mcnemar_discordant_twoVerdicts :
    ∃ (table : McNemarTable) (bs cs : List Bool),
      mcnemarVectors .ascii ⟨twoVerdicts [.int 1] [.int 0], ["a", "b"]⟩
        ⟨twoVerdicts [.int 0, .int 1] [], ["b", "a"]⟩ "skill-prod" = .ok (bs, cs) ∧
      mcnemarRecall bs cs = .ok table ∧ table = ⟨1, 1, 1, 1⟩ ∧
      mcnemarRecall cs bs = .ok table.transpose := by
  have hvectors : mcnemarVectors .ascii ⟨twoVerdicts [.int 1] [.int 0], ["a", "b"]⟩
      ⟨twoVerdicts [.int 0, .int 1] [], ["b", "a"]⟩ "skill-prod" =
        .ok ([true, true, false, false], [false, true, true, false]) := by decide +kernel
  obtain ⟨-, table, -, -, -, -, htable, -, -, -, -, -, -, hback⟩ := mcnemar_discordant hvectors
  refine ⟨table, _, _, hvectors, htable, ?_, hback⟩
  exact Except.ok.inj (htable.symm.trans (by decide))

end CodeReview
