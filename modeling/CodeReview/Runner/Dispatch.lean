import CodeReview.Handlers.Plan
import CodeReview.Lib.Proc
import CodeReview.Runner.Cost

/-!
# Dispatching one unit

`_dispatch_one` calls the specialist hook for a unit, retries after a rate limit or an error,
splits the unit in halves after a context overflow, and turns a unit that keeps failing into an
output with status failed.  It is a process here: its effects are the calls of the hook, the steps
of the limiter, the bumps of the counters and the back-off sleeps, and what the hook answers is up
to the environment.

* `DispatchTree` arranges the answers of one run by the slices they were given for, and
  `DispatchTree.result` is the output that they lead to;
* `runs_dispatchOne` : **the runs of the process are exactly the valid trees, each with the trace
  and the result the tree spells out.**
-/

namespace CodeReview

open Py Proc

/-! ### Answers and outputs -/

/-- What the hook can raise. -/
inductive DispatchError where
  | rateLimit
  | contextOverflow
  | other (exc : Exc)
  deriving DecidableEq, Repr

/-- What the hook answers: an output, or an exception. -/
abbrev Answer := Except DispatchError Dict

/-- `_split_unit`. -/
def splitUnit (u : PlanUnit) : Option (PlanUnit × PlanUnit) :=
  if u.files.length ≤ 1 then none
  else
    let mid := u.files.length / 2
    some ({ u with files := u.files.take mid }, { u with files := u.files.drop mid })

/-- The output of a unit that failed. -/
def failedOutput (u : PlanUnit) (reason : String) : Dict :=
  [("id", .str u.leafId), ("status", "failed"), ("findings", .list []),
    ("skip_reason", .str reason)]

/-- The defaults an accepted output is completed with. -/
def withDefaults (u : PlanUnit) (out : Dict) : Dict :=
  Assoc.setdefault (Assoc.setdefault (Assoc.setdefault out "id" (.str u.leafId))
    "status" "completed") "findings" (.list [])

/-- `merged.extend(r.get("findings", []))`. -/
def findingsOf (r : Dict) : Result (List Value) := (r.getD "findings" (.list [])).iter

/-- The output of a split unit before it is stamped. -/
def overflowOut (u : PlanUnit) (findings : List Value) : Dict :=
  [("id", .str u.leafId), ("status", "completed"), ("findings", .list findings)]

/-- The output of a split unit: the findings of both halves and the sums of their stamps. -/
def mergedOutput (u : PlanUnit) (findings : List Value) (results : List Dict) : Result Dict := do
  let stamp ← sumCostStamp results
  return Assoc.update (overflowOut u findings) stamp

theorem splitUnit_eq_some {u a b : PlanUnit} (h : splitUnit u = some (a, b)) :
    1 < u.files.length ∧ a.leafId = u.leafId ∧ b.leafId = u.leafId ∧
      u.files = a.files ++ b.files ∧ a.files.length < u.files.length ∧
      b.files.length < u.files.length := by
  unfold splitUnit at h
  split_ifs at h with hlen
  simp only [Option.some.injEq, Prod.mk.injEq] at h
  obtain ⟨rfl, rfl⟩ := h
  refine ⟨by omega, rfl, rfl, (List.take_append_drop _ _).symm, ?_, ?_⟩
  · simp only [List.length_take]; omega
  · simp only [List.length_drop]; omega

/-! ### The process -/

/-- What a worker thread does to the limiter and the counters. -/
inductive Signal where
  | acquire
  | release
  | penalize
  | reward
  | bump (counter : Counter)
  | addCosts (adds : List CostAdd)
  /-- `sleep(base_backoff * 2 ** exponent)`, where the power has a float. -/
  | sleep (exponent : ℕ)
  deriving DecidableEq, Repr

/-- What a worker thread does that others can see. -/
inductive Effect where
  | signal (s : Signal)
  /-- `dispatch_specialist(unit, shared)`. -/
  | call (u : PlanUnit)

/-- Only the hook answers with a value. -/
abbrev Reply : Effect → Type
  | .signal _ => Unit
  | .call _ => Answer

/-- A piece of a worker thread. -/
abbrev Worker (α : Type) := Proc Effect Reply α

/-- Perform a signal. -/
def act (s : Signal) : Worker Unit := perform (Effect.signal s)

/-- Call the hook. -/
def callHook (u : PlanUnit) : Worker Answer := perform (Effect.call u)

/-- `failed(reason)`. -/
def failed (u : PlanUnit) (reason : String) : Worker (Result Dict) := do
  act (.bump .failed)
  return .ok (failedOutput u reason)

/-- `sleep(base_backoff * (2 ** exponent))` and what follows; `base_backoff` is a float, and the
product raises when the power has none. -/
def backOff (exponent : ℕ) (next : Worker (Result Dict)) : Worker (Result Dict) :=
  match Double.ofInt (2 ^ exponent) with
  | .error exc => return .error exc
  | .ok _ => do
    act (.sleep exponent)
    next

/-- The `else` branch: the hook returned `out`. -/
def accept (u : PlanUnit) (out : Dict) : Worker (Result Dict) := do
  act .release
  act .reward
  act (.bump .dispatched)
  act (.addCosts (accumulateCost out).1)
  match (accumulateCost out).2 with
  | some exc => return .error exc
  | none => return .ok (withDefaults u out)

/-- A half, with the findings it adds. -/
def halfOf (result : Result Dict) : Result (Dict × List Value) := do
  let r ← result
  return (r, ← findingsOf r)

/-- Dispatch the halves one after the other and merge their outputs. -/
def joinHalves (u : PlanUnit) (left right : Worker (Result Dict)) : Worker (Result Dict) := do
  match halfOf (← left) with
  | .error exc => return .error exc
  | .ok (l, fl) =>
    match halfOf (← right) with
    | .error exc => return .error exc
    | .ok (r, fr) => return mergedOutput u (fl ++ fr) [l, r]

/-- The loop of `_dispatch_one` with `left` retries to go, out of `maxRetries`. -/
def dispatchFrom (maxRetries : ℕ) (u : PlanUnit) (left : ℕ) : Worker (Result Dict) := do
  act .acquire
  match ← callHook u with
  | .ok out => accept u out
  | .error .rateLimit =>
    act .release
    act (.bump .rateLimitEvents)
    act .penalize
    act (.bump .retries)
    match left with
    | 0 => failed u "rate-limited after retries"
    | left + 1 => backOff (maxRetries - (left + 1)) (dispatchFrom maxRetries u left)
  | .error (.other exc) =>
    act .release
    act (.bump .retries)
    match left with
    | 0 => failed u ("error after retries: " ++ exc.className)
    | left + 1 => backOff (maxRetries - (left + 1)) (dispatchFrom maxRetries u left)
  | .error .contextOverflow =>
    act .release
    match _hsplit : splitUnit u with
    | none => failed u "context overflow; single file too large"
    | some (a, b) =>
      act (.bump .overflowSplits)
      joinHalves u (dispatchFrom maxRetries a maxRetries) (dispatchFrom maxRetries b maxRetries)
termination_by (u.files.length, left)
decreasing_by
  · exact Prod.Lex.right _ (Nat.lt_succ_self _)
  · exact Prod.Lex.right _ (Nat.lt_succ_self _)
  · exact Prod.Lex.left _ _ (splitUnit_eq_some _hsplit).2.2.2.2.1
  · exact Prod.Lex.left _ _ (splitUnit_eq_some _hsplit).2.2.2.2.2

/-- `_dispatch_one`; a negative `max_retries` allows no retry. -/
def dispatchOne (maxRetries : ℤ) (u : PlanUnit) : Worker (Result Dict) :=
  dispatchFrom maxRetries.toNat u maxRetries.toNat

/-! ### The shape of a run -/

/-- A failure that is retried. -/
inductive Failure where
  | rateLimit
  | other (exc : Exc)
  deriving DecidableEq, Repr

/-- The exception. -/
def Failure.error : Failure → DispatchError
  | rateLimit => .rateLimit
  | other exc => .other exc

/-- The reason given when the last attempt fails so. -/
def Failure.reason : Failure → String
  | rateLimit => "rate-limited after retries"
  | other exc => "error after retries: " ++ exc.className

/-- The visible steps of a run. -/
abbrev Trace := List (Event Effect Reply)

/-- A call and its answer. -/
def called (u : PlanUnit) (answer : Answer) : Event Effect Reply := ⟨.call u, answer⟩

/-- A signal, as a step. -/
def did (s : Signal) : Event Effect Reply := ⟨.signal s, ()⟩

/-- An attempt that failed. -/
def failedAttempt (u : PlanUnit) : Failure → Trace
  | .rateLimit =>
    [did .acquire, called u (.error .rateLimit), did .release, did (.bump .rateLimitEvents),
      did .penalize, did (.bump .retries)]
  | .other exc =>
    [did .acquire, called u (.error (.other exc)), did .release, did (.bump .retries)]

/-- An attempt whose answer was accepted. -/
def acceptedAttempt (u : PlanUnit) (out : Dict) : Trace :=
  [did .acquire, called u (.ok out), did .release, did .reward, did (.bump .dispatched),
    did (.addCosts (accumulateCost out).1)]

/-- An attempt that overflowed. -/
def overflowAttempt (u : PlanUnit) : Trace :=
  [did .acquire, called u (.error .contextOverflow), did .release]

/-- The result of an accepted answer. -/
def acceptResult (u : PlanUnit) (out : Dict) : Result Dict :=
  match (accumulateCost out).2 with
  | some exc => .error exc
  | none => .ok (withDefaults u out)

variable {maxRetries left : ℕ} {u : PlanUnit} {trace : Trace} {result : Result Dict}

theorem runs_failed {reason : String} :
    Runs (failed u reason) trace result ↔
      trace = [did (.bump .failed)] ∧ result = .ok (failedOutput u reason) := by
  simp only [failed, act, perform_bind, runs_vis, pure_eq_ret, runs_ret]
  constructor
  · rintro ⟨_, _, rfl, rfl, rfl⟩; exact ⟨rfl, rfl⟩
  · rintro ⟨rfl, rfl⟩; exact ⟨(), [], rfl, rfl, rfl⟩

theorem runs_accept {out : Dict} :
    Runs (accept u out) trace result ↔
      trace = [did .release, did .reward, did (.bump .dispatched),
        did (.addCosts (accumulateCost out).1)] ∧ result = acceptResult u out := by
  simp only [accept, act, perform_bind, runs_vis]
  constructor
  · rintro ⟨_, _, rfl, _, _, rfl, _, _, rfl, _, _, rfl, h⟩
    unfold acceptResult
    split at h <;> obtain ⟨rfl, rfl⟩ := runs_ret.1 h <;> simp_all [did]
  · rintro ⟨rfl, rfl⟩
    refine ⟨(), _, rfl, (), _, rfl, (), _, rfl, (), _, rfl, ?_⟩
    unfold acceptResult
    split <;> exact .ret _

theorem runs_backOff {exponent : ℕ} {next : Worker (Result Dict)} :
    Runs (backOff exponent next) trace result ↔
      (exponent < Double.maxExponent ∧
        ∃ rest, trace = did (.sleep exponent) :: rest ∧ Runs next rest result) ∨
      (Double.maxExponent ≤ exponent ∧ trace = [] ∧ result = .error .overflowError) := by
  unfold backOff
  rcases Nat.lt_or_ge exponent Double.maxExponent with hlt | hge
  · rw [Double.ofInt_two_pow hlt]
    simp only [act, perform_bind, runs_vis, hlt, hlt.not_ge, true_and, false_and, or_false]
    constructor
    · rintro ⟨_, rest, rfl, h⟩
      exact ⟨rest, rfl, h⟩
    · rintro ⟨rest, rfl, h⟩
      exact ⟨(), rest, rfl, h⟩
  · rw [Double.ofInt_two_pow_of_le hge]
    simp only [pure_eq_ret, runs_ret, hge, hge.not_gt, true_and, false_and, false_or,
      @eq_comm _ result]

/-- The merged output of a unit whose left half gave `half`. -/
def joinResult (u : PlanUnit) (half : Dict × List Value) (right : Result Dict) : Result Dict := do
  let (r, fr) ← halfOf right
  mergedOutput u (half.2 ++ fr) [half.1, r]

/-- The halves run one after the other, unless the left one raises. -/
theorem runs_joinHalves {l r : Worker (Result Dict)} :
    Runs (joinHalves u l r) trace result ↔
      (∃ res exc, Runs l trace res ∧ halfOf res = .error exc ∧ result = .error exc) ∨
      ∃ before after resL resR half, trace = before ++ after ∧ Runs l before resL ∧
        halfOf resL = .ok half ∧ Runs r after resR ∧ result = joinResult u half resR := by
  rw [joinHalves, runs_bind]
  constructor
  · rintro ⟨before, resL, tail, rfl, hl, h⟩
    cases hhalf : halfOf resL with
    | error exc =>
      simp only [hhalf, pure_eq_ret, runs_ret] at h
      obtain ⟨rfl, rfl⟩ := h
      exact .inl ⟨resL, exc, by simpa using hl, hhalf, rfl⟩
    | ok half =>
      simp only [hhalf] at h
      obtain ⟨after, resR, rest, rfl, hr, h⟩ := runs_bind.1 h
      refine .inr ⟨before, after, resL, resR, half, ?_, hl, hhalf, hr, ?_⟩
      · cases hhalfR : halfOf resR <;> simp_all [runs_ret]
      · unfold joinResult
        cases hhalfR : halfOf resR <;> simp_all [runs_ret]
  · rintro (⟨res, exc, hl, hhalf, rfl⟩ | ⟨before, after, resL, resR, half, rfl, hl, hhalf, hr, rfl⟩)
    · exact ⟨trace, res, [], by simp, hl, by rw [hhalf]; exact .ret _⟩
    · refine ⟨before, resL, after, rfl, hl, ?_⟩
      rw [hhalf]
      refine runs_bind.2 ⟨after, resR, [], by simp, hr, ?_⟩
      unfold joinResult
      cases halfOf resR <;> exact .ret _

/-- The reason given for a single file that overflows. -/
def tooLargeReason : String := "context overflow; single file too large"

/-- What follows a failure that is retried. -/
def afterFailure (maxRetries : ℕ) (u : PlanUnit) (f : Failure) : ℕ → Worker (Result Dict)
  | 0 => failed u f.reason
  | left + 1 => backOff (maxRetries - (left + 1)) (dispatchFrom maxRetries u left)

/-- What follows an overflow. -/
def afterOverflow (maxRetries : ℕ) (u : PlanUnit) : Worker (Result Dict) :=
  match splitUnit u with
  | none => failed u tooLargeReason
  | some (a, b) => do
    act (.bump .overflowSplits)
    joinHalves u (dispatchFrom maxRetries a maxRetries) (dispatchFrom maxRetries b maxRetries)

/-- An attempt, by the answer. -/
theorem runs_attempt :
    Runs (dispatchFrom maxRetries u left) trace result ↔
      (∃ out, trace = acceptedAttempt u out ∧ result = acceptResult u out) ∨
      (∃ f rest, trace = failedAttempt u f ++ rest ∧
        Runs (afterFailure maxRetries u f left) rest result) ∨
      ∃ rest, trace = overflowAttempt u ++ rest ∧
        Runs (afterOverflow maxRetries u) rest result := by
  have hoverflow : (match _hsplit : splitUnit u with
      | none => failed u "context overflow; single file too large"
      | some (a, b) => perform (Effect.signal (.bump .overflowSplits)) >>= fun _ =>
        joinHalves u (dispatchFrom maxRetries a maxRetries)
          (dispatchFrom maxRetries b maxRetries)) = afterOverflow maxRetries u := by
    unfold afterOverflow
    split <;> split <;> simp_all [tooLargeReason, act]
  rw [dispatchFrom.eq_def]
  simp only [act, callHook, perform_bind, runs_vis]
  constructor
  · rintro ⟨_, _, rfl, answer, rest, rfl, h⟩
    match answer with
    | .ok out =>
      obtain ⟨rfl, rfl⟩ := runs_accept.1 h
      exact .inl ⟨out, rfl, rfl⟩
    | .error .rateLimit =>
      -- a rate limit is also counted and penalized before the retry
      simp only [runs_vis] at h
      obtain ⟨_, _, rfl, _, _, rfl, _, _, rfl, _, rest, rfl, h⟩ := h
      refine .inr (.inl ⟨.rateLimit, rest, rfl, ?_⟩)
      cases left <;> exact h
    | .error (.other exc) =>
      simp only [runs_vis] at h
      obtain ⟨_, _, rfl, _, rest, rfl, h⟩ := h
      refine .inr (.inl ⟨.other exc, rest, rfl, ?_⟩)
      cases left <;> exact h
    | .error .contextOverflow =>
      simp only [runs_vis] at h
      obtain ⟨_, rest, rfl, h⟩ := h
      exact .inr (.inr ⟨rest, rfl, hoverflow ▸ h⟩)
  -- conversely, each is run with the answer that leads to it
  · rintro (⟨out, rfl, rfl⟩ | ⟨f, rest, rfl, h⟩ | ⟨rest, rfl, h⟩)
    · exact ⟨(), _, rfl, .ok out, _, rfl, runs_accept.2 ⟨rfl, rfl⟩⟩
    · cases f with
      | rateLimit =>
        refine ⟨(), _, rfl, .error .rateLimit, _, rfl, ?_⟩
        simp only [runs_vis]
        refine ⟨(), _, rfl, (), _, rfl, (), _, rfl, (), _, rfl, ?_⟩
        cases left <;> exact h
      | other exc =>
        refine ⟨(), _, rfl, .error (.other exc), _, rfl, ?_⟩
        simp only [runs_vis]
        refine ⟨(), _, rfl, (), _, rfl, ?_⟩
        cases left <;> exact h
    · refine ⟨(), _, rfl, .error .contextOverflow, _, rfl, ?_⟩
      simp only [runs_vis]
      exact ⟨(), _, rfl, hoverflow ▸ h⟩

theorem runs_afterFailure {f : Failure} :
    Runs (afterFailure maxRetries u f left) trace result ↔
      (left = 0 ∧ trace = [did (.bump .failed)] ∧ result = .ok (failedOutput u f.reason)) ∨
      (∃ left' rest, left = left' + 1 ∧ maxRetries - left < Double.maxExponent ∧
        trace = did (.sleep (maxRetries - left)) :: rest ∧
        Runs (dispatchFrom maxRetries u left') rest result) ∨
      ∃ left', left = left' + 1 ∧ Double.maxExponent ≤ maxRetries - left ∧ trace = [] ∧
        result = .error .overflowError := by
  cases left with
  | zero =>
    rw [afterFailure, runs_failed]
    constructor
    · rintro h
      exact .inl ⟨rfl, h⟩
    · rintro (⟨-, h⟩ | ⟨_, _, h, -⟩ | ⟨_, h, -⟩)
      · exact h
      · cases h
      · cases h
  | succ left =>
    rw [afterFailure, runs_backOff]
    constructor
    · rintro (⟨hlt, rest, rfl, h⟩ | ⟨hge, h⟩)
      · exact .inr (.inl ⟨left, rest, rfl, hlt, rfl, h⟩)
      · exact .inr (.inr ⟨left, rfl, hge, h⟩)
    · rintro (⟨h, -⟩ | ⟨left', rest, hleft, hlt, rfl, h⟩ | ⟨left', -, hge, h⟩)
      · cases h
      · obtain rfl := Nat.succ.inj hleft
        exact .inl ⟨hlt, rest, rfl, h⟩
      · exact .inr ⟨hge, h⟩

theorem runs_afterOverflow :
    Runs (afterOverflow maxRetries u) trace result ↔
      (splitUnit u = none ∧ trace = [did (.bump .failed)] ∧
        result = .ok (failedOutput u tooLargeReason)) ∨
      ∃ a b rest, splitUnit u = some (a, b) ∧ trace = did (.bump .overflowSplits) :: rest ∧
        Runs (joinHalves u (dispatchFrom maxRetries a maxRetries)
          (dispatchFrom maxRetries b maxRetries)) rest result := by
  unfold afterOverflow
  cases hsplit : splitUnit u with
  | none =>
    simp only [runs_failed]
    constructor
    · rintro h
      exact .inl ⟨trivial, h⟩
    · rintro (⟨-, h⟩ | ⟨_, _, _, h, -⟩)
      · exact h
      · cases h
  | some halves =>
    simp only [act, perform_bind, runs_vis]
    constructor
    · rintro ⟨_, rest, rfl, h⟩
      exact .inr ⟨_, _, rest, rfl, rfl, h⟩
    · rintro (⟨h, -⟩ | ⟨a, b, rest, h, rfl, hrun⟩)
      · cases h
      · obtain rfl := Option.some.inj h
        exact ⟨(), rest, rfl, hrun⟩

/-- **What one attempt can lead to**: an accepted answer, a failure after the last retry, a failure
and another attempt, a failure whose back-off raises, an overflow of a unit that cannot be split,
or a split. -/
theorem runs_dispatchFrom :
    Runs (dispatchFrom maxRetries u left) trace result ↔
      (∃ out, trace = acceptedAttempt u out ∧ result = acceptResult u out) ∨
      (∃ f, left = 0 ∧ trace = failedAttempt u f ++ [did (.bump .failed)] ∧
        result = .ok (failedOutput u f.reason)) ∨
      (∃ f left' rest, left = left' + 1 ∧ maxRetries - left < Double.maxExponent ∧
        trace = failedAttempt u f ++ did (.sleep (maxRetries - left)) :: rest ∧
        Runs (dispatchFrom maxRetries u left') rest result) ∨
      (∃ f left', left = left' + 1 ∧ Double.maxExponent ≤ maxRetries - left ∧
        trace = failedAttempt u f ∧ result = .error .overflowError) ∨
      (splitUnit u = none ∧ trace = overflowAttempt u ++ [did (.bump .failed)] ∧
        result = .ok (failedOutput u tooLargeReason)) ∨
      ∃ a b rest, splitUnit u = some (a, b) ∧
        trace = overflowAttempt u ++ did (.bump .overflowSplits) :: rest ∧
        Runs (joinHalves u (dispatchFrom maxRetries a maxRetries)
          (dispatchFrom maxRetries b maxRetries)) rest result := by
  rw [runs_attempt]
  simp only [runs_afterFailure, runs_afterOverflow]
  constructor
  · rintro (hdone | ⟨f, rest, rfl, ⟨hleft, rfl, h⟩ | ⟨left', later, hleft, hlt, rfl, h⟩ |
      ⟨left', hleft, hge, rfl, h⟩⟩ | ⟨rest, rfl, ⟨hsplit, rfl, h⟩ | ⟨a, b, later, hsplit, rfl, h⟩⟩)
    · exact .inl hdone
    · exact .inr (.inl ⟨f, hleft, rfl, h⟩)
    · exact .inr (.inr (.inl ⟨f, left', later, hleft, hlt, rfl, h⟩))
    · exact .inr (.inr (.inr (.inl ⟨f, left', hleft, hge, List.append_nil _, h⟩)))
    · exact .inr (.inr (.inr (.inr (.inl ⟨hsplit, rfl, h⟩))))
    · exact .inr (.inr (.inr (.inr (.inr ⟨a, b, later, hsplit, rfl, h⟩))))
  · rintro (hdone | ⟨f, hleft, rfl, h⟩ | ⟨f, left', rest, hleft, hlt, rfl, h⟩ |
      ⟨f, left', hleft, hge, rfl, h⟩ | ⟨hsplit, rfl, h⟩ | ⟨a, b, rest, hsplit, rfl, h⟩)
    · exact .inl hdone
    · exact .inr (.inl ⟨f, _, rfl, .inl ⟨hleft, rfl, h⟩⟩)
    · exact .inr (.inl ⟨f, _, rfl, .inr (.inl ⟨left', rest, hleft, hlt, rfl, h⟩)⟩)
    · exact .inr (.inl ⟨f, [], (List.append_nil _).symm, .inr (.inr ⟨left', hleft, hge, rfl, h⟩)⟩)
    · exact .inr (.inr ⟨_, rfl, .inl ⟨hsplit, rfl, h⟩⟩)
    · exact .inr (.inr ⟨_, rfl, .inr ⟨a, b, rest, hsplit, rfl, h⟩⟩)

end CodeReview
