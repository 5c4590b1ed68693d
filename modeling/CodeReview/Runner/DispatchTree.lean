import CodeReview.Runner.Dispatch

/-!
# Dispatch trees

A run of `_dispatch_one` is determined by what the hook answered for each slice of the unit.  A
`DispatchTree` holds these answers: the failures that were retried, and then an accepted answer, a
last failure, an overflow of a single file, or a split into two subtrees.

* `runs_dispatchOne` : **the runs of `_dispatch_one` are the traces of the valid trees**, each with
  the tree's result;
* `called_ok_mem_traceFrom` : the accepted answers of a trace are those of the tree's slices.
-/

namespace CodeReview

open Py Proc

/-- The answers of one run, by slice.  `stranded` is a slice whose last back-off raised, and `cut` a
split whose left half raised `exc`. -/
inductive DispatchTree where
  | answered (u : PlanUnit) (failures : List Failure) (out : Dict)
  | gaveUp (u : PlanUnit) (failures : List Failure) (last : Failure)
  | stranded (u : PlanUnit) (failures : List Failure) (last : Failure)
  | tooLarge (u : PlanUnit) (failures : List Failure)
  | split (u : PlanUnit) (failures : List Failure) (left right : DispatchTree)
  | cut (u : PlanUnit) (failures : List Failure) (exc : Exc) (left : DispatchTree)

/-- Failed attempts that were retried, from the `i`-th on. -/
def retried (u : PlanUnit) : ℕ → List Failure → Trace
  | _, [] => []
  | i, f :: failures => failedAttempt u f ++ did (.sleep i) :: retried u (i + 1) failures

namespace DispatchTree

/-- The slice the tree is about. -/
def unit : DispatchTree → PlanUnit
  | answered u _ _ => u
  | gaveUp u _ _ => u
  | stranded u _ _ => u
  | tooLarge u _ => u
  | split u _ _ _ => u
  | cut u _ _ _ => u

/-- The steps of the run, when `i` attempts at the tree's slice have failed before. -/
def traceFrom : ℕ → DispatchTree → Trace
  | i, answered u failures out => retried u i failures ++ acceptedAttempt u out
  | i, gaveUp u failures last =>
    retried u i failures ++ (failedAttempt u last ++ [did (.bump .failed)])
  | i, stranded u failures last => retried u i failures ++ failedAttempt u last
  | i, tooLarge u failures => retried u i failures ++ (overflowAttempt u ++ [did (.bump .failed)])
  | i, split u failures left right =>
    retried u i failures ++ (overflowAttempt u ++
      did (.bump .overflowSplits) :: (left.traceFrom 0 ++ right.traceFrom 0))
  | i, cut u failures _ left =>
    retried u i failures ++ (overflowAttempt u ++ did (.bump .overflowSplits) :: left.traceFrom 0)

/-- The result that the answers lead to. -/
def result : DispatchTree → Result Dict
  | answered u _ out => acceptResult u out
  | gaveUp u _ last => .ok (failedOutput u last.reason)
  | stranded .. => .error .overflowError
  | tooLarge u _ => .ok (failedOutput u tooLargeReason)
  | split u _ left right => do joinResult u (← halfOf left.result) right.result
  | cut _ _ exc _ => .error exc

/-- The failures can be retried with `left` retries to go: there are retries for them, and their
back-offs do not raise. -/
structure Retriable (maxRetries left : ℕ) (failures : List Failure) : Prop where
  length_le : failures.length ≤ left
  backOffs : maxRetries - left + failures.length ≤ Double.maxExponent

/-- The tree can arise with `left` retries to go: failures at its slice that can be retried, halves
where the unit can be split, and nothing after an exception. -/
def Valid (maxRetries : ℕ) : ℕ → DispatchTree → Prop
  | left, answered _ failures _ => Retriable maxRetries left failures
  | left, gaveUp _ failures _ => Retriable maxRetries left failures ∧ failures.length = left
  | left, stranded _ failures _ =>
    failures.length < left ∧ maxRetries - left + failures.length = Double.maxExponent
  | left, tooLarge u failures => Retriable maxRetries left failures ∧ splitUnit u = none
  | left, split u failures l r =>
    Retriable maxRetries left failures ∧ splitUnit u = some (l.unit, r.unit) ∧
      l.Valid maxRetries maxRetries ∧ r.Valid maxRetries maxRetries ∧ Result.Ok (halfOf l.result)
  | left, cut u failures exc l =>
    Retriable maxRetries left failures ∧ (∃ b, splitUnit u = some (l.unit, b)) ∧
      l.Valid maxRetries maxRetries ∧ halfOf l.result = .error exc

/-- The slices that were not split further, with the answer accepted for each, if one was. -/
def slices : DispatchTree → List (PlanUnit × Option Dict)
  | answered u _ out => [(u, some out)]
  | gaveUp u _ _ => [(u, none)]
  | stranded u _ _ => [(u, none)]
  | tooLarge u _ => [(u, none)]
  | split _ _ left right => left.slices ++ right.slices
  | cut _ _ _ left => left.slices

/-- The first attempt that did not fail overflowed, and the unit was split. -/
def IsSplit : DispatchTree → Prop
  | split .. => True
  | cut .. => True
  | _ => False

/-- One more failure before everything else. -/
def retry (f : Failure) : DispatchTree → DispatchTree
  | answered u failures out => answered u (f :: failures) out
  | gaveUp u failures last => gaveUp u (f :: failures) last
  | stranded u failures last => stranded u (f :: failures) last
  | tooLarge u failures => tooLarge u (f :: failures)
  | split u failures l r => split u (f :: failures) l r
  | cut u failures exc l => cut u (f :: failures) exc l

variable {maxRetries left : ℕ} {u : PlanUnit} {trace : Trace} {res : Result Dict}

@[simp] theorem unit_retry (f : Failure) (t : DispatchTree) : (t.retry f).unit = t.unit := by
  cases t <;> rfl

@[simp] theorem result_retry (f : Failure) (t : DispatchTree) : (t.retry f).result = t.result := by
  cases t <;> rfl

theorem retriable_nil (h : maxRetries - left ≤ Double.maxExponent) :
    Retriable maxRetries left [] := ⟨Nat.zero_le _, h⟩

/-- With all retries to go, nothing was retried yet. -/
theorem retriable_start : Retriable maxRetries maxRetries [] := retriable_nil (by simp)

theorem retriable_cons {f : Failure} {failures : List Failure} (h : left < maxRetries) :
    Retriable maxRetries (left + 1) (f :: failures) ↔ Retriable maxRetries left failures := by
  have hnext : maxRetries - (left + 1) + (failures.length + 1) =
      maxRetries - left + failures.length := by omega
  constructor
  · rintro ⟨hlen, hback⟩
    rw [List.length_cons] at hlen hback
    exact ⟨Nat.le_of_succ_le_succ hlen, hnext ▸ hback⟩
  · rintro ⟨hlen, hback⟩
    exact ⟨Nat.succ_le_succ hlen, hnext.trans_le hback⟩

theorem valid_retry {f : Failure} {t : DispatchTree} (h : left < maxRetries) :
    (t.retry f).Valid maxRetries (left + 1) ↔ t.Valid maxRetries left := by
  have hnext (n : ℕ) : maxRetries - (left + 1) + (n + 1) = maxRetries - left + n := by omega
  cases t <;> simp [retry, Valid, retriable_cons h, hnext]

theorem traceFrom_retry (i : ℕ) (f : Failure) (t : DispatchTree) :
    (t.retry f).traceFrom i =
      failedAttempt t.unit f ++ did (.sleep i) :: t.traceFrom (i + 1) := by
  cases t <;> simp [retry, traceFrom, retried, unit]

@[simp] theorem called_ne_did {v : PlanUnit} {answer : Answer} {sig : Signal} :
    called v answer ≠ did sig := by simp [called, did]

@[simp] theorem called_inj {v w : PlanUnit} {a b : Answer} :
    called v a = called w b ↔ v = w ∧ a = b := by simp [called]

@[simp] theorem called_ok_notMem_failedAttempt {v : PlanUnit} {out : Dict} {f : Failure} :
    called v (.ok out) ∉ failedAttempt u f := by
  cases f <;> simp [failedAttempt]

@[simp] theorem called_ok_notMem_retried {v : PlanUnit} {out : Dict} {i : ℕ}
    {failures : List Failure} : called v (.ok out) ∉ retried u i failures := by
  induction failures generalizing i with
  | nil => exact List.not_mem_nil
  | cons f failures ih => simp [retried, ih]

/-- The accepted answers of the trace, by slice. -/
theorem called_ok_mem_traceFrom {v : PlanUnit} {out : Dict} (i : ℕ) (t : DispatchTree) :
    called v (.ok out) ∈ t.traceFrom i ↔ (v, some out) ∈ t.slices := by
  induction t generalizing i with
  | answered u failures out' => simp [traceFrom, slices, acceptedAttempt]
  | gaveUp u failures last => simp [traceFrom, slices]
  | stranded u failures last => simp [traceFrom, slices]
  | tooLarge u failures => simp [traceFrom, slices, overflowAttempt]
  | split u failures l r ihl ihr => simp [traceFrom, slices, overflowAttempt, ihl, ihr]
  | cut u failures exc l ih => simp [traceFrom, slices, overflowAttempt, ih]

end DispatchTree

open DispatchTree

variable {maxRetries left : ℕ} {u : PlanUnit} {trace : Trace} {res : Result Dict}

/-- Retried failures, and then a run with the retries that are left. -/
theorem runs_retried {failures : List Failure} (hretriable : Retriable maxRetries left failures)
    (hleft : left ≤ maxRetries)
    (h : Runs (dispatchFrom maxRetries u (left - failures.length)) trace res) :
    Runs (dispatchFrom maxRetries u left)
      (retried u (maxRetries - left) failures ++ trace) res := by
  induction failures generalizing left with
  | nil => exact h
  | cons f failures ih =>
    obtain ⟨hlen, hback⟩ := hretriable
    simp only [List.length_cons] at hlen hback h
    obtain ⟨left, rfl⟩ := Nat.exists_eq_add_of_le' (show 1 ≤ left by omega)
    have hrest : Runs (dispatchFrom maxRetries u left)
        (retried u (maxRetries - left) failures ++ trace) res :=
      ih ⟨by omega, by omega⟩ (by omega) (by rwa [Nat.add_sub_add_right] at h)
    have hnext : maxRetries - (left + 1) + 1 = maxRetries - left := by omega
    refine runs_dispatchFrom.2 (.inr (.inr (.inl ⟨f, left, _, rfl, by omega, ?_, hrest⟩)))
    rw [retried, hnext]
    simp

/-- A split run is spelled out by the trees of its halves. -/
theorem exists_tree_of_joinHalves {a b : PlanUnit} (hsplit : splitUnit u = some (a, b))
    (ih : ∀ v ∈ [a, b], ∀ trace res, Runs (dispatchFrom maxRetries v maxRetries) trace res →
      ∃ t : DispatchTree, t.unit = v ∧ t.Valid maxRetries maxRetries ∧ trace = t.traceFrom 0 ∧
        res = t.result)
    (h : Runs (joinHalves u (dispatchFrom maxRetries a maxRetries)
      (dispatchFrom maxRetries b maxRetries)) trace res)
    (hback : maxRetries - left ≤ Double.maxExponent) (i : ℕ) :
    ∃ t : DispatchTree, t.unit = u ∧ t.Valid maxRetries left ∧
      overflowAttempt u ++ did (.bump .overflowSplits) :: trace = t.traceFrom i ∧
      res = t.result := by
  rcases runs_joinHalves.1 h with ⟨resL, exc, hl, hhalf, rfl⟩ |
    ⟨before, after, resL, resR, half, rfl, hl, hhalf, hr, rfl⟩
  · -- the left half raised
    obtain ⟨l, rfl, hvalid, rfl, rfl⟩ := ih a (by simp) _ _ hl
    refine ⟨.cut u [] exc l, rfl, ⟨retriable_nil hback, ⟨b, hsplit⟩, hvalid, hhalf⟩, ?_, rfl⟩
    simp [traceFrom, retried]
  · obtain ⟨l, rfl, hvalidL, rfl, rfl⟩ := ih a (by simp) _ _ hl
    obtain ⟨r, rfl, hvalidR, rfl, rfl⟩ := ih b (by simp) _ _ hr
    refine ⟨.split u [] l r, rfl,
      ⟨retriable_nil hback, hsplit, hvalidL, hvalidR, half, hhalf⟩, ?_, ?_⟩
    · simp [traceFrom, retried]
    · simp [result, hhalf]

/-- **Every run spells out a valid tree.** -/
theorem exists_tree_of_runs (h : Runs (dispatchFrom maxRetries u left) trace res)
    (hleft : left ≤ maxRetries) (hback : maxRetries - left ≤ Double.maxExponent) :
    ∃ t : DispatchTree, t.unit = u ∧ t.Valid maxRetries left ∧
      trace = t.traceFrom (maxRetries - left) ∧ res = t.result := by
  -- on the number of files, and at each slice on the retries left
  induction hn : u.files.length using Nat.strong_induction_on generalizing u left trace res with
  | _ n ihn =>
    subst hn
    have hsmaller (v : PlanUnit) (hv : v.files.length < u.files.length) (trace : Trace)
        (res : Result Dict) (hrun : Runs (dispatchFrom maxRetries v maxRetries) trace res) :
        ∃ t : DispatchTree, t.unit = v ∧ t.Valid maxRetries maxRetries ∧ trace = t.traceFrom 0 ∧
          res = t.result := by
      have hv := ihn _ hv hrun le_rfl (by simp) rfl
      rwa [Nat.sub_self] at hv
    induction left using Nat.strong_induction_on generalizing trace with
    | _ left ih =>
      rcases runs_dispatchFrom.1 h with ⟨out, rfl, rfl⟩ | ⟨f, rfl, rfl, rfl⟩ |
        ⟨f, left', rest, rfl, hlt, rfl, hrest⟩ | ⟨f, left', rfl, hge, rfl, rfl⟩ |
        ⟨hsplit, rfl, rfl⟩ | ⟨a, b, rest, hsplit, rfl, hrest⟩
      · exact ⟨.answered u [] out, rfl, retriable_nil hback, by simp [traceFrom, retried], rfl⟩
      · exact ⟨.gaveUp u [] f, rfl, ⟨retriable_nil hback, rfl⟩, by simp [traceFrom, retried], rfl⟩
      · obtain ⟨t, rfl, hvalid, rfl, rfl⟩ :=
          ih left' (Nat.lt_succ_self _) hrest (by omega) (by omega)
        have hnext : maxRetries - (left' + 1) + 1 = maxRetries - left' := by omega
        exact ⟨t.retry f, by simp, (valid_retry (by omega)).2 hvalid,
          by rw [traceFrom_retry, hnext], by simp⟩
      · -- the attempts before it used up the back-offs
        exact ⟨.stranded u [] f, rfl, ⟨Nat.succ_pos _, le_antisymm hback hge⟩,
          by simp [traceFrom, retried], rfl⟩
      · exact ⟨.tooLarge u [], rfl, ⟨retriable_nil hback, hsplit⟩,
          by simp [traceFrom, retried], rfl⟩
      · obtain ⟨-, -, -, -, ha, hb⟩ := splitUnit_eq_some hsplit
        refine exists_tree_of_joinHalves hsplit ?_ hrest hback _
        intro v hv
        rcases List.mem_pair.1 hv with rfl | rfl
        · exact hsmaller _ ha
        · exact hsmaller _ hb

/-- **Every valid tree is spelled out by a run.** -/
theorem runs_traceFrom {t : DispatchTree} (hvalid : t.Valid maxRetries left)
    (hleft : left ≤ maxRetries) :
    Runs (dispatchFrom maxRetries t.unit left) (t.traceFrom (maxRetries - left)) t.result := by
  induction t generalizing left with
  | answered u failures out =>
    exact runs_retried hvalid hleft (runs_dispatchFrom.2 (.inl ⟨out, rfl, rfl⟩))
  | gaveUp u failures last =>
    obtain ⟨hretriable, hlen⟩ := hvalid
    refine runs_retried hretriable hleft (runs_dispatchFrom.2 (.inr (.inl ⟨last, ?_, rfl, rfl⟩)))
    omega
  | stranded u failures last =>
    obtain ⟨hlen, hback⟩ := hvalid
    refine runs_retried ⟨hlen.le, hback.le⟩ hleft (runs_dispatchFrom.2 (.inr (.inr (.inr (.inl
      ⟨last, left - failures.length - 1, ?_, ?_, rfl, rfl⟩)))))
    · omega
    · omega
  | tooLarge u failures =>
    exact runs_retried hvalid.1 hleft
      (runs_dispatchFrom.2 (.inr (.inr (.inr (.inr (.inl ⟨hvalid.2, rfl, rfl⟩))))))
  | split u failures l r ihl ihr =>
    obtain ⟨hretriable, hsplit, hl, hr, half, hhalf⟩ := hvalid
    have hrunL := ihl hl le_rfl
    have hrunR := ihr hr le_rfl
    -- each half starts with all its retries
    rw [Nat.sub_self] at hrunL hrunR
    refine runs_retried hretriable hleft (runs_dispatchFrom.2 (.inr (.inr (.inr (.inr (.inr
      ⟨_, _, _, hsplit, rfl, ?_⟩))))))
    refine runs_joinHalves.2 (.inr ⟨_, _, _, _, half, rfl, hrunL, hhalf, hrunR, ?_⟩)
    simp [result, hhalf, unit]
  | cut u failures exc l ih =>
    obtain ⟨hretriable, ⟨b, hsplit⟩, hl, hhalf⟩ := hvalid
    have hrun := ih hl le_rfl
    rw [Nat.sub_self] at hrun
    exact runs_retried hretriable hleft (runs_dispatchFrom.2 (.inr (.inr (.inr (.inr (.inr
      ⟨_, _, _, hsplit, rfl, runs_joinHalves.2 (.inl ⟨_, exc, hrun, hhalf, rfl⟩)⟩))))))

/-- **The runs of `_dispatch_one` are the traces of the valid trees, each with its result.** -/
theorem runs_dispatchOne {n : ℤ} :
    Runs (dispatchOne n u) trace res ↔
      ∃ t : DispatchTree, t.unit = u ∧ t.Valid n.toNat n.toNat ∧ trace = t.traceFrom 0 ∧
        res = t.result := by
  constructor
  · intro h
    obtain ⟨t, hunit, hvalid, htrace, hres⟩ := exists_tree_of_runs h le_rfl (by simp)
    exact ⟨t, hunit, hvalid, by rwa [Nat.sub_self] at htrace, hres⟩
  · rintro ⟨t, rfl, hvalid, rfl, rfl⟩
    have hrun := runs_traceFrom hvalid le_rfl
    rwa [Nat.sub_self] at hrun

end CodeReview
