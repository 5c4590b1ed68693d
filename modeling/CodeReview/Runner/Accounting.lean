import CodeReview.Runner.Overflow
import CodeReview.Runner.Schedule

/-!
# Accounting for a dispatch

Every split leaves two smaller units, so that the number of slices, and with it the number of calls,
is bounded by the number of files.

* `hookCalls_le` : a dispatch of `n` files makes at most `(max_retries + 1) * max(1, 2 * n - 1)`
  calls;
* `counter_statsAfter`, `ended_traceFrom` : every slice that is not split further is counted once;
* `dispatchOne_accounts_iff` : **the files and the counters of a dispatch add up exactly when no
  step raises on the answers of the hook**, nor a back-off after too many failures.
-/

namespace CodeReview

open Py Proc DispatchTree

/-! ### Counting steps -/

/-- The number of calls of the hook. -/
def hookCalls (trace : Trace) : ℕ := trace.countP fun ev => ev.1.callee?.isSome

/-- The step bumps the counter. -/
def isBump (counter : Counter) : Effect → Bool
  | .signal (.bump c) => c = counter
  | _ => false

/-- How often the steps bump the counter. -/
def bumps (counter : Counter) (trace : Trace) : ℕ := trace.countP fun ev => isBump counter ev.1

theorem hookCalls_append (a b : Trace) : hookCalls (a ++ b) = hookCalls a + hookCalls b :=
  List.countP_append

theorem bumps_append (counter : Counter) (a b : Trace) :
    bumps counter (a ++ b) = bumps counter a + bumps counter b := List.countP_append

theorem hookCalls_did (s : Signal) (trace : Trace) : hookCalls (did s :: trace) = hookCalls trace :=
  List.countP_cons_of_neg Bool.false_ne_true

theorem counter_add (s : RunnerStats) (a : CostAdd) : (s.add a).counter = s.counter := by
  funext counter
  cases a <;> cases counter <;> rfl

theorem counter_signal (s : RunnerStats) (sig : Signal) (counter : Counter) :
    (s.signal sig).counter counter =
      s.counter counter + if isBump counter (.signal sig) then 1 else 0 := by
  cases sig with
  | bump c => cases c <;> cases counter <;> rfl
  | addCosts adds =>
    show (adds.foldl .add s).counter counter = s.counter counter + 0
    induction adds generalizing s with
    | nil => rfl
    | cons a adds ih => rw [List.foldl_cons, ih, counter_add]
  | _ => rfl

/-- The counters count the bumps. -/
theorem counter_statsAfter (s : RunnerStats) (trace : Trace) (counter : Counter) :
    (statsAfter s trace).counter counter = s.counter counter + bumps counter trace := by
  unfold statsAfter
  induction trace generalizing s with
  | nil => rfl
  | cons ev trace ih =>
    obtain ⟨e, ans⟩ := ev
    rw [List.foldl_cons, ih, bumps, bumps, List.countP_cons]
    cases e with
    | call u => rfl
    | signal sig =>
      rw [counter_signal, Nat.add_assoc]
      exact congrArg _ (Nat.add_comm _ _)

/-! ### The steps of a tree -/

theorem hookCalls_retried (u : PlanUnit) (i : ℕ) (failures : List Failure) :
    hookCalls (retried u i failures) = failures.length := by
  induction failures generalizing i with
  | nil => rfl
  | cons f failures ih =>
    have hattempt : hookCalls (failedAttempt u f) = 1 := by cases f <;> rfl
    rw [retried, hookCalls_append, hookCalls_did, ih, hattempt, List.length_cons]
    omega

/-- Only an attempt that fails for good, one that is accepted, and a split are counted so. -/
theorem bumps_retried {counter : Counter} (h : counter ≠ .retries)
    (h' : counter ≠ .rateLimitEvents) (u : PlanUnit) (i : ℕ) (failures : List Failure) :
    bumps counter (retried u i failures) = 0 := by
  induction failures generalizing i with
  | nil => rfl
  | cons f failures ih =>
    have hattempt : bumps counter (failedAttempt u f) = 0 := by
      cases counter <;> first | exact absurd rfl h | exact absurd rfl h' | (cases f <;> rfl)
    rw [retried, bumps_append, hattempt, ← List.singleton_append, bumps_append, ih]
    cases counter <;> rfl

namespace DispatchTree

variable {maxRetries left : ℕ} {t : DispatchTree}

/-- The number of splits. -/
def splits : DispatchTree → ℕ
  | split _ _ l r => l.splits + r.splits + 1
  | cut _ _ _ l => l.splits + 1
  | _ => 0

/-- **The calls of a dispatch are bounded by the number of its files.** -/
theorem hookCalls_le (h : t.Valid maxRetries left) (hleft : left ≤ maxRetries) (i : ℕ) :
    hookCalls (t.traceFrom i) ≤ (maxRetries + 1) * max 1 (2 * t.unit.files.length - 1) := by
  have hone (n : ℕ) : maxRetries + 1 ≤ (maxRetries + 1) * max 1 n :=
    Nat.le_mul_of_pos_right _ (by omega)
  induction t generalizing left i with
  | answered u failures out =>
    have hlen := Retriable.length_le h
    have hattempt : hookCalls (acceptedAttempt u out) = 1 := rfl
    rw [traceFrom, hookCalls_append, hookCalls_retried, hattempt]
    exact le_trans (by omega) (hone _)
  | gaveUp u failures last =>
    have hlen : failures.length = left := h.2
    have hattempt : hookCalls (failedAttempt u last ++ [did (.bump .failed)]) = 1 := by
      cases last <;> rfl
    rw [traceFrom, hookCalls_append, hookCalls_retried, hattempt]
    exact le_trans (by omega) (hone _)
  | stranded u failures last =>
    have hlen : failures.length < left := h.1
    have hattempt : hookCalls (failedAttempt u last) = 1 := by cases last <;> rfl
    rw [traceFrom, hookCalls_append, hookCalls_retried, hattempt]
    exact le_trans (by omega) (hone _)
  | tooLarge u failures =>
    have hlen := h.1.length_le
    have hattempt : hookCalls (overflowAttempt u ++ [did (.bump .failed)]) = 1 := rfl
    rw [traceFrom, hookCalls_append, hookCalls_retried, hattempt]
    exact le_trans (by omega) (hone _)
  | split u failures l r ihl ihr =>
    obtain ⟨⟨hlen, -⟩, hsplit, hl, hr, -⟩ := h
    obtain ⟨-, -, -, hfiles, hltl, hltr⟩ := splitUnit_eq_some hsplit
    have hcount := congrArg List.length hfiles
    rw [List.length_append] at hcount
    have hattempt : hookCalls (overflowAttempt u) = 1 := rfl
    have hcallsL := ihl hl le_rfl 0
    have hcallsR := ihr hr le_rfl 0
    -- both halves have files, so that `1 + (2 * a - 1) + (2 * b - 1) = 2 * (a + b) - 1`
    have hsum : max 1 (2 * u.files.length - 1) =
        1 + max 1 (2 * l.unit.files.length - 1) + max 1 (2 * r.unit.files.length - 1) := by omega
    rw [traceFrom, hookCalls_append, hookCalls_retried, hookCalls_append, hattempt, hookCalls_did,
      hookCalls_append, unit, hsum, Nat.mul_add, Nat.mul_add, Nat.mul_one]
    omega
  | cut u failures exc l ih =>
    obtain ⟨⟨hlen, -⟩, ⟨b, hsplit⟩, hl, -⟩ := h
    obtain ⟨hmany, -, -, -, hltl, -⟩ := splitUnit_eq_some hsplit
    have hattempt : hookCalls (overflowAttempt u) = 1 := rfl
    have hcalls := ih hl le_rfl 0
    have hsum : 1 + max 1 (2 * l.unit.files.length - 1) ≤ max 1 (2 * u.files.length - 1) := by omega
    have hmul := Nat.mul_le_mul_left (maxRetries + 1) hsum
    rw [Nat.mul_add, Nat.mul_one] at hmul
    rw [traceFrom, hookCalls_append, hookCalls_retried, hookCalls_append, hattempt, hookCalls_did,
      unit]
    omega

theorem bumps_did (counter c : Counter) (trace : Trace) :
    bumps counter (did (.bump c) :: trace) = bumps counter trace +
      if c = counter then 1 else 0 := by
  rw [bumps, List.countP_cons, bumps]
  congr 1
  exact if_congr decide_eq_true_iff rfl rfl

theorem bumps_overflowAttempt (counter : Counter) (u : PlanUnit) :
    bumps counter (overflowAttempt u) = 0 := by
  cases counter <;> rfl

/-- When the run returns, every slice that is not split further is dispatched or failed. -/
theorem ended_traceFrom {t : DispatchTree} (hreturns : t.Returns) (i : ℕ) :
    bumps .dispatched (t.traceFrom i) + bumps .failed (t.traceFrom i) = t.slices.length := by
  -- a retry bumps neither counter
  have hretried (counter : Counter) (h : counter = .dispatched ∨ counter = .failed) (u : PlanUnit)
      (i : ℕ) (failures : List Failure) : bumps counter (retried u i failures) = 0 := by
    rcases h with rfl | rfl
    · exact bumps_retried (by decide) (by decide) u i failures
    · exact bumps_retried (by decide) (by decide) u i failures
  induction t generalizing i with
  | answered u failures out =>
    rw [traceFrom, bumps_append, bumps_append .failed, hretried _ (.inl rfl), hretried _ (.inr rfl)]
    rfl
  | gaveUp u failures last =>
    rw [traceFrom, bumps_append, bumps_append .failed, hretried _ (.inl rfl), hretried _ (.inr rfl)]
    cases last <;> rfl
  | tooLarge u failures =>
    rw [traceFrom, bumps_append, bumps_append .failed, hretried _ (.inl rfl), hretried _ (.inr rfl)]
    rfl
  | split u failures l r ihl ihr =>
    have hl := ihl hreturns.1 0
    have hr := ihr hreturns.2.1 0
    simp only [traceFrom, bumps_append, hretried _ (.inl rfl), hretried _ (.inr rfl),
      bumps_overflowAttempt, bumps_did, slices, List.length_append]
    simp only [reduceCtorEq, if_false]
    omega
  | stranded u failures last => cases hreturns
  | cut u failures exc l ih => cases hreturns

theorem splits_traceFrom (t : DispatchTree) (i : ℕ) :
    bumps .overflowSplits (t.traceFrom i) = t.splits := by
  have hretried (u : PlanUnit) (i : ℕ) (failures : List Failure) :
      bumps .overflowSplits (retried u i failures) = 0 :=
    bumps_retried (by decide) (by decide) u i failures
  induction t generalizing i with
  | answered u failures out =>
    rw [traceFrom, bumps_append, hretried]
    rfl
  | gaveUp u failures last =>
    rw [traceFrom, bumps_append, hretried]
    cases last <;> rfl
  | stranded u failures last =>
    rw [traceFrom, bumps_append, hretried]
    cases last <;> rfl
  | tooLarge u failures =>
    rw [traceFrom, bumps_append, hretried]
    rfl
  | split u failures l r ihl ihr =>
    rw [traceFrom, bumps_append, hretried, bumps_append, bumps_overflowAttempt, bumps_did,
      bumps_append, ihl, ihr, if_pos rfl, splits]
    omega
  | cut u failures exc l ih =>
    rw [traceFrom, bumps_append, hretried, bumps_append, bumps_overflowAttempt, bumps_did, ih,
      if_pos rfl, splits]
    omega

end DispatchTree

/-! ### A dispatch -/

/-- The dispatch with the answers of the tree returns, and the calls, the files and the counters add
up. -/
structure Accounts (maxRetries : ℤ) (t : DispatchTree) (trace : Trace) (res : Result Dict) :
    Prop where
  calls : hookCalls trace ≤ (maxRetries.toNat + 1) * max 1 (2 * t.unit.files.length - 1)
  returns : Result.Ok res
  files : t.slices.flatMap (fun s => s.1.files) = t.unit.files
  ended : ∀ s : RunnerStats, (statsAfter s trace).dispatched + (statsAfter s trace).failed =
    s.dispatched + s.failed + t.slices.length
  splits : ∀ s : RunnerStats, (statsAfter s trace).overflowSplits = s.overflowSplits + t.splits

theorem accounts_iff {maxRetries : ℤ} {t : DispatchTree}
    (h : t.Valid maxRetries.toNat maxRetries.toNat) :
    Accounts maxRetries t (t.traceFrom 0) t.result ↔ t.Returns := by
  constructor
  · exact fun haccounts => (result_ok_iff t).1 haccounts.returns
  · intro hreturns
    refine ⟨hookCalls_le h le_rfl 0, (result_ok_iff t).2 hreturns, slices_files h hreturns,
      fun s => ?_, fun s => ?_⟩
    · have hdispatched := counter_statsAfter s (t.traceFrom 0) .dispatched
      have hfailed := counter_statsAfter s (t.traceFrom 0) .failed
      have hended := ended_traceFrom hreturns 0
      simp only [RunnerStats.counter] at hdispatched hfailed
      omega
    · have hsplits := counter_statsAfter s (t.traceFrom 0) .overflowSplits
      rwa [splits_traceFrom] at hsplits

/-- Finite stamps that stay in the range of a double together are accounted for. -/
theorem accounts_of_inRange {maxRetries : ℤ} {t : DispatchTree}
    (h : t.Valid maxRetries.toNat maxRetries.toNat)
    (hretries : maxRetries.toNat ≤ Double.maxExponent) (hlist : ∀ out ∈ t.answers, ListFindings out)
    (hrange : StampsInRange t.answers) : Accounts maxRetries t (t.traceFrom 0) t.result :=
  (accounts_iff h).2 (returns_of_inRange h le_rfl hretries hlist hrange).1

theorem longWaits_runs :
    Runs (dispatchOne 0 longWaits.unit) (longWaits.traceFrom 0) longWaits.result :=
  runs_dispatchOne.2 ⟨longWaits, rfl, longWaits_valid, rfl, rfl⟩

end CodeReview
