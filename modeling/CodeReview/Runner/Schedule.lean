import CodeReview.Runner.Limiter
import Mathlib.Algebra.BigOperators.Fin

/-!
# Schedules do not matter

Where the hook answers the `k`-th call for a slice of a unit by the slice and `k` alone, and no two
units share a key, no thread can tell which others run beside it.  What it does is the run that
`_dispatch_one` performs alone, and what it adds to the counters commutes.

* `calls_of_tree` : a thread calls the hook for slices of its own unit only;
* `consistent_stepsOf` : whatever the schedule, the hook answers a thread as if it ran alone;
* `totalsOf_signal` : every step adds its tally to the totals;
* `dispatch_inOrder` : **a completed pool returns the map, and leaves the totals, of running
  `_dispatch_one` on the units one after another.**
-/

namespace CodeReview

open Py Proc DispatchTree

/-! ### A hook that answers by slice and count -/

/-- What the hook answers to each call for a slice, counted from 0. -/
abbrev Responses := PlanUnit → ℕ → Answer

/-- The hook, remembering how often it was called for each slice. -/
def counted (resp : Responses) : Hook (PlanUnit → ℕ) := fun calls u answer calls' =>
  answer = resp u (calls u) ∧ calls' = Function.update calls u (calls u + 1)

/-- The slice that an effect calls the hook for. -/
def Effect.callee? : Effect → Option PlanUnit
  | .call u => some u
  | .signal _ => none

/-- How often the hook was called for a slice. -/
def callsOf (u : PlanUnit) (history : Trace) : ℕ :=
  history.countP fun ev => ev.1.callee? = some u

/-- The answer after a history. -/
def respond (resp : Responses) (history : Trace) : (e : Effect) → Reply e
  | .signal _ => ()
  | .call u => resp u (callsOf u history)

@[simp] theorem callsOf_nil (u : PlanUnit) : callsOf u [] = 0 := rfl

theorem callsOf_append (u : PlanUnit) (before after : Trace) :
    callsOf u (before ++ after) = callsOf u before + callsOf u after := List.countP_append ..

/-- One more call counts for its slice. -/
theorem callsOf_concat_call (u v : PlanUnit) (history : Trace) (answer : Reply (.call v)) :
    callsOf u (history ++ [⟨.call v, answer⟩]) = callsOf u history + if v = u then 1 else 0 := by
  rw [callsOf_append]
  congr 1
  by_cases h : v = u
  · simp [callsOf, Effect.callee?, h]
  · simp [callsOf, Effect.callee?, h]

theorem callsOf_concat_signal (u : PlanUnit) (sig : Signal) (history : Trace)
    (answer : Reply (.signal sig)) :
    callsOf u (history ++ [⟨.signal sig, answer⟩]) = callsOf u history := callsOf_append ..

/-- The steps call the hook only for slices with the key. -/
def CallsOnly (key : UnitKey) (trace : Trace) : Prop :=
  ∀ ev ∈ trace, ∀ v, ev.1.callee? = some v → v.key = key

theorem CallsOnly.append {key : UnitKey} {before after : Trace} (hb : CallsOnly key before)
    (ha : CallsOnly key after) : CallsOnly key (before ++ after) := by
  intro ev hev
  rcases List.mem_append.1 hev with hev | hev
  · exact hb ev hev
  · exact ha ev hev

theorem callsOnly_cons {key : UnitKey} {ev : Event Effect Reply} {trace : Trace} :
    CallsOnly key (ev :: trace) ↔
      (∀ v, ev.1.callee? = some v → v.key = key) ∧ CallsOnly key trace := List.forall_mem_cons

theorem callsOnly_nil (key : UnitKey) : CallsOnly key [] := fun _ h => absurd h List.not_mem_nil

theorem callsOnly_did {key : UnitKey} (sig : Signal) {trace : Trace} (h : CallsOnly key trace) :
    CallsOnly key (did sig :: trace) := callsOnly_cons.2 ⟨nofun, h⟩

theorem callsOnly_called {u : PlanUnit} (answer : Answer) {trace : Trace}
    (h : CallsOnly u.key trace) : CallsOnly u.key (called u answer :: trace) := by
  refine callsOnly_cons.2 ⟨fun v hv => ?_, h⟩
  rw [← Option.some.inj hv]

theorem callsOnly_failedAttempt (u : PlanUnit) (f : Failure) :
    CallsOnly u.key (failedAttempt u f) := by
  cases f with
  | rateLimit =>
    exact callsOnly_did _ (callsOnly_called _ (callsOnly_did _ (callsOnly_did _ (callsOnly_did _
      (callsOnly_did _ (callsOnly_nil _))))))
  | other exc =>
    exact callsOnly_did _ (callsOnly_called _ (callsOnly_did _ (callsOnly_did _
      (callsOnly_nil _))))

theorem callsOnly_retried (u : PlanUnit) (i : ℕ) (failures : List Failure) :
    CallsOnly u.key (retried u i failures) := by
  induction failures generalizing i with
  | nil => exact callsOnly_nil _
  | cons f failures ih => exact (callsOnly_failedAttempt u f).append (callsOnly_did _ (ih _))

theorem callsOnly_overflowAttempt (u : PlanUnit) : CallsOnly u.key (overflowAttempt u) :=
  callsOnly_did _ (callsOnly_called _ (callsOnly_did _ (callsOnly_nil _)))

theorem key_of_splitUnit {u a b : PlanUnit} (h : splitUnit u = some (a, b)) :
    a.key = u.key ∧ b.key = u.key := by
  unfold splitUnit at h
  split_ifs at h
  obtain ⟨rfl, rfl⟩ := Prod.mk.inj (Option.some.inj h)
  exact ⟨rfl, rfl⟩

/-- **A thread calls the hook for slices of its own unit only.** -/
theorem calls_of_tree {maxRetries left : ℕ} {t : DispatchTree} (h : t.Valid maxRetries left)
    (i : ℕ) : CallsOnly t.unit.key (t.traceFrom i) := by
  induction t generalizing left i with
  | answered u failures out =>
    refine (callsOnly_retried u i failures).append (callsOnly_did _ (callsOnly_called _ ?_))
    exact callsOnly_did _ (callsOnly_did _ (callsOnly_did _ (callsOnly_did _ (callsOnly_nil _))))
  | gaveUp u failures last =>
    exact (callsOnly_retried u i failures).append
      ((callsOnly_failedAttempt u last).append (callsOnly_did _ (callsOnly_nil _)))
  | stranded u failures last =>
    exact (callsOnly_retried u i failures).append (callsOnly_failedAttempt u last)
  | tooLarge u failures =>
    exact (callsOnly_retried u i failures).append
      ((callsOnly_overflowAttempt u).append (callsOnly_did _ (callsOnly_nil _)))
  | split u failures l r ihl ihr =>
    obtain ⟨-, hsplit, hl, hr, -⟩ := h
    obtain ⟨hkeyL, hkeyR⟩ := key_of_splitUnit hsplit
    refine (callsOnly_retried u i failures).append
      ((callsOnly_overflowAttempt u).append (callsOnly_did _ (CallsOnly.append ?_ ?_)))
    · exact hkeyL ▸ ihl hl 0
    · exact hkeyR ▸ ihr hr 0
  | cut u failures exc l ih =>
    obtain ⟨-, ⟨b, hsplit⟩, hl, -⟩ := h
    refine (callsOnly_retried u i failures).append
      ((callsOnly_overflowAttempt u).append (callsOnly_did _ ?_))
    exact (key_of_splitUnit hsplit).1 ▸ ih hl 0

theorem callsOnly_of_runs {n : ℤ} {u : PlanUnit} {trace : Trace} {res : Result Dict}
    (h : Runs (dispatchOne n u) trace res) : CallsOnly u.key trace := by
  obtain ⟨t, rfl, hvalid, rfl, -⟩ := runs_dispatchOne.1 h
  exact calls_of_tree hvalid 0

/-- Steps for another key do not call the hook for the slice. -/
theorem callsOf_eq_zero {key : UnitKey} {trace : Trace} (h : CallsOnly key trace) {v : PlanUnit}
    (hv : v.key ≠ key) : callsOf v trace = 0 := by
  refine List.countP_eq_zero.2 fun ev hev hcall => hv ?_
  exact h ev hev v (by simpa using hcall)

/-! ### One thread among others -/

variable {n : ℕ} {resp : Responses} {α : Type}

/-- **Whatever the schedule, the hook answers a thread as if only its own calls had been made.** -/
theorem consistent_stepsOf {p p' : Pool (Fin n) (SharedState (PlanUnit → ℕ)) Effect Reply α}
    {log : List (Fin n × Event Effect Reply)}
    (hrun : Pool.Run (fun s _ => limited (counted resp) s) p log p') {keys : Fin n → UnitKey}
    (hkeys : Function.Injective keys)
    (hown : ∀ l ∈ log, ∀ v, l.2.1.callee? = some v → v.key = keys l.1) (i : Fin n)
    {history : Trace} (hcalls : ∀ v, v.key = keys i → p.shared.hook v = callsOf v history) :
    Consistent (respond resp) history (Pool.stepsOf log i) := by
  induction hrun generalizing history with
  | nil p => trivial
  | @cons p p₁ p₂ l log hstep _ ih =>
    have hrest := fun l' hl' => hown l' (List.mem_cons_of_mem _ hl')
    cases hstep with
    | @perform s s' procs j e k ans hj hans =>
      cases e with
      | signal sig =>
        obtain ⟨-, rfl⟩ := hans
        have hhook (s : SharedState (PlanUnit → ℕ)) : (s.signal sig).hook = s.hook := by
          cases sig <;> rfl
        by_cases hij : j = i
        · subst hij
          rw [Pool.stepsOf_cons_self]
          refine ⟨rfl, ih hrest ?_⟩
          intro v hv
          rw [callsOf_concat_signal, ← hcalls v hv]
          exact congrFun (hhook s) v
        · rw [Pool.stepsOf_cons_of_ne hij]
          refine ih hrest ?_
          intro v hv
          rw [← hcalls v hv]
          exact congrFun (hhook s) v
      | call w =>
        obtain ⟨calls, ⟨hanswer, rfl⟩, rfl⟩ := hans
        have hkey : w.key = keys j := hown _ List.mem_cons_self w rfl
        by_cases hij : j = i
        · subst hij
          rw [Pool.stepsOf_cons_self]
          refine ⟨?_, ih hrest fun v hv => ?_⟩
          · show ans = resp w (callsOf w history)
            rw [hanswer, ← hcalls w hkey]
          · rw [callsOf_concat_call, ← hcalls v hv]
            show Function.update s.hook w (s.hook w + 1) v = s.hook v + if w = v then 1 else 0
            by_cases hwv : w = v
            · subst hwv
              rw [Function.update_self, if_pos rfl]
            · rw [Function.update_of_ne (Ne.symm hwv), if_neg hwv, Nat.add_zero]
        · -- a call of another thread is for a slice of another unit
          rw [Pool.stepsOf_cons_of_ne hij]
          refine ih hrest ?_
          intro v hv
          have hne : v ≠ w := by
            rintro rfl
            exact hij (hkeys (hkey.symm.trans hv))
          show Function.update s.hook w (s.hook w + 1) v = callsOf v history
          rw [Function.update_of_ne hne]
          exact hcalls v hv

/-! ### Totals -/

/-- The totals that a run leaves: a number for each counter, and the token counts. -/
abbrev Totals := (Counter → ℕ) × ℤ × ℤ

/-- One of the counters. -/
def RunnerStats.counter (s : RunnerStats) : Counter → ℕ
  | .dispatched => s.dispatched
  | .failed => s.failed
  | .retries => s.retries
  | .rateLimitEvents => s.rateLimitEvents
  | .overflowSplits => s.overflowSplits

/-- The totals among the statistics. -/
def totalsOf (s : RunnerStats) : Totals := (s.counter, s.totalInTokens, s.totalOutTokens)

/-- What an addition adds to the totals. -/
def CostAdd.tally : CostAdd → Totals
  | .inTokens n => (0, n, 0)
  | .outTokens n => (0, 0, n)
  | _ => 0

/-- What a signal adds to the totals. -/
def Signal.tally : Signal → Totals
  | .bump counter => (Pi.single counter 1, 0, 0)
  | .addCosts adds => (adds.map CostAdd.tally).sum
  | _ => 0

/-- What a step adds to the totals. -/
def tally (ev : Event Effect Reply) : Totals :=
  match ev.1 with
  | .signal sig => sig.tally
  | .call _ => 0

/-- What a signal does to the statistics. -/
def RunnerStats.signal (s : RunnerStats) : Signal → RunnerStats
  | .bump counter => s.bump counter
  | .addCosts adds => adds.foldl .add s
  | _ => s

/-- The statistics after the steps of a history. -/
def statsAfter (s : RunnerStats) (history : Trace) : RunnerStats :=
  history.foldl (fun s ev =>
    match ev.1 with
    | .signal sig => s.signal sig
    | .call _ => s) s

theorem totalsOf_bump (s : RunnerStats) (counter : Counter) :
    totalsOf (s.bump counter) = totalsOf s + (Pi.single counter 1, 0, 0) := by
  have hcounter : (s.bump counter).counter = s.counter + Pi.single counter 1 := by
    funext c
    cases c <;> cases counter <;> rfl
  refine Prod.ext hcounter (Prod.ext ?_ ?_) <;> cases counter <;> exact (add_zero _).symm

theorem totalsOf_add (s : RunnerStats) (a : CostAdd) :
    totalsOf (s.add a) = totalsOf s + a.tally := by
  have hcounter : (s.add a).counter = s.counter + 0 := by
    funext c
    cases c <;> cases a <;> rfl
  cases a with
  | inTokens n => exact Prod.ext hcounter (Prod.ext rfl (add_zero _).symm)
  | outTokens n => exact Prod.ext hcounter (Prod.ext (add_zero _).symm rfl)
  | costUsd x => exact Prod.ext hcounter (Prod.ext (add_zero _).symm (add_zero _).symm)
  | estCost x => exact Prod.ext hcounter (Prod.ext (add_zero _).symm (add_zero _).symm)

/-- **Every signal adds its tally.** -/
theorem totalsOf_signal (s : RunnerStats) (sig : Signal) :
    totalsOf (s.signal sig) = totalsOf s + sig.tally := by
  cases sig with
  | bump counter => exact totalsOf_bump s counter
  | addCosts adds =>
    show totalsOf (adds.foldl .add s) = totalsOf s + (adds.map CostAdd.tally).sum
    induction adds generalizing s with
    | nil => simp
    | cons a adds ih =>
      rw [List.foldl_cons, ih, totalsOf_add, List.map_cons, List.sum_cons, add_assoc]
  | _ => exact (add_zero _).symm

theorem totalsOf_statsAfter (s : RunnerStats) (history : Trace) :
    totalsOf (statsAfter s history) = totalsOf s + (history.map tally).sum := by
  unfold statsAfter
  induction history generalizing s with
  | nil => simp
  | cons ev history ih =>
    rw [List.foldl_cons, ih, List.map_cons, List.sum_cons, ← add_assoc]
    congr 1
    obtain ⟨e, ans⟩ := ev
    cases e with
    | signal sig => exact totalsOf_signal s sig
    | call u => exact (add_zero _).symm

/-- A schedule leaves the tallies of all its steps. -/
theorem totalsOf_run {τ : Type} {hook : Hook τ}
    {p p' : Pool (Fin n) (SharedState τ) Effect Reply α} {log : List (Fin n × Event Effect Reply)}
    (hrun : Pool.Run (fun s _ => limited hook s) p log p') :
    totalsOf p'.shared.stats = totalsOf p.shared.stats + (log.map fun l => tally l.2).sum := by
  induction hrun with
  | nil p => simp
  | @cons p p₁ p₂ l log hstep _ ih =>
    rw [ih, List.map_cons, List.sum_cons, ← add_assoc]
    congr 1
    cases hstep with
    | @perform s s' procs j e k ans hj hans =>
      cases e with
      | call u =>
        obtain ⟨t, -, rfl⟩ := hans
        exact (add_zero _).symm
      | signal sig =>
        obtain ⟨-, rfl⟩ := hans
        have hstats : (s.signal sig).stats = s.stats.signal sig := by cases sig <;> rfl
        show totalsOf (s.signal sig).stats = totalsOf s.stats + sig.tally
        rw [hstats, totalsOf_signal]

/-! ### One unit after another -/

/-- `for u in units: results[key(u)] = _dispatch_one(u, ...)`: the steps so far, and the map. -/
def dispatchInOrder (resp : Responses) (maxRetries : ℤ) :
    Trace → ResultMap → List PlanUnit → Result (Trace × ResultMap)
  | history, m, [] => .ok (history, m)
  | history, m, u :: us => do
    let (history', result) := exec (respond resp) history (dispatchOne maxRetries u)
    dispatchInOrder resp maxRetries history' (m.set u.key (← result)) us

/-- What `_dispatch_one` does when it runs alone. -/
def alone (resp : Responses) (maxRetries : ℤ) (u : PlanUnit) : Trace × Result Dict :=
  exec (respond resp) [] (dispatchOne maxRetries u)

variable {maxRetries : ℤ}

theorem alone_runs (resp : Responses) (maxRetries : ℤ) (u : PlanUnit) :
    Runs (dispatchOne maxRetries u) (alone resp maxRetries u).1 (alone resp maxRetries u).2 ∧
      Consistent (respond resp) [] (alone resp maxRetries u).1 := by
  obtain ⟨trace, htrace, hrun, hans⟩ := exec_consistent (respond resp) [] (dispatchOne maxRetries u)
  have hsteps : (alone resp maxRetries u).1 = trace := congrArg Prod.fst htrace
  rw [hsteps]
  exact ⟨hrun, hans⟩

/-- After a history without calls for the unit, it runs as it does alone. -/
theorem exec_after {history : Trace} {u : PlanUnit}
    (hfresh : ∀ v, v.key = u.key → callsOf v history = 0) :
    exec (respond resp) history (dispatchOne maxRetries u) =
      (history ++ (alone resp maxRetries u).1, (alone resp maxRetries u).2) := by
  obtain ⟨hrun, hans⟩ := alone_runs resp maxRetries u
  refine exec_of_runs hrun (hans.congr ?_)
  intro before ev after htrace
  have hcalls := callsOnly_of_runs hrun ev (by rw [htrace]; simp)
  obtain ⟨e, ans⟩ := ev
  cases e with
  | signal sig => rfl
  | call v =>
    show resp v (callsOf v (history ++ before)) = resp v (callsOf v ([] ++ before))
    rw [callsOf_append, hfresh v (hcalls v rfl), Nat.zero_add]
    rfl

/-- **In order, every unit runs as it does alone.** -/
theorem dispatchInOrder_eq {units : List PlanUnit} (hkeys : (units.map PlanUnit.key).Nodup)
    {history : Trace} (hfresh : ∀ u ∈ units, ∀ v, v.key = u.key → callsOf v history = 0)
    {m m' : ResultMap}
    (hm : units.foldlM (fun m u => do return m.set u.key (← (alone resp maxRetries u).2)) m =
      .ok m') :
    dispatchInOrder resp maxRetries history m units =
      .ok (history ++ (units.map fun u => (alone resp maxRetries u).1).flatten, m') := by
  induction units generalizing history m with
  | nil =>
    obtain rfl := Except.ok.inj hm
    simp [dispatchInOrder]
  | cons u units ih =>
    obtain ⟨hu, hkeys⟩ := List.nodup_cons.1 hkeys
    rw [List.foldlM_cons] at hm
    obtain ⟨m₁, hm₁, hm⟩ := Result.bind_eq_ok.1 hm
    obtain ⟨out, hout, hset⟩ := Result.bind_eq_ok.1 hm₁
    obtain rfl := Except.ok.inj hset
    have hcalls := callsOnly_of_runs (alone_runs resp maxRetries u).1
    rw [dispatchInOrder, exec_after (hfresh u List.mem_cons_self)]
    simp only [hout, Result.ok_bind]
    rw [ih hkeys (fun w hw v hv => ?_) hm, List.map_cons, List.flatten_cons, List.append_assoc]
    -- the calls of `u` are for another key
    have hne : v.key ≠ u.key := fun h => hu (h ▸ hv ▸ List.mem_map_of_mem hw)
    rw [callsOf_append, hfresh w (List.mem_cons_of_mem _ hw) v hv, callsOf_eq_zero hcalls hne]

/-! ### No wait -/

/-- The limiter after an effect. -/
def Limiter.after (l : Limiter) : Effect → Limiter
  | .signal .acquire => l.acquire
  | .signal .release => l.release
  | .signal .penalize => l.penalize
  | .signal .reward => l.reward
  | _ => l

/-- No acquire among the steps waits. -/
def NeverWaits : Limiter → Trace → Prop
  | _, [] => True
  | l, ev :: trace => (ev.1 = .signal .acquire → l.Admits) ∧ NeverWaits (l.after ev.1) trace

/-- A single thread never waits for a permit. -/
theorem neverWaits {minimum limit : ℤ} (hmin : 1 ≤ minimum) (hle : minimum ≤ limit) {l : Limiter}
    (inv : LimiterInv minimum limit l) {held held' : Bool} {trace : Trace}
    (hinflight : l.inflight = held.toNat) (h : permitAfter permitRole held trace = some held') :
    NeverWaits l trace := by
  induction trace generalizing l held with
  | nil => trivial
  | cons ev trace ih =>
    obtain ⟨b, hb, hrest⟩ := Option.bind_eq_some_iff.1 h
    obtain ⟨e, ans⟩ := ev
    -- with one thread the permits that are out are its own
    have hnone (hout : held = false) : l.Admits := by
      have hlo := inv.min_le
      rw [hout] at hinflight
      show l.inflight < l.limit
      rw [hinflight]
      show (0 : ℤ) < l.limit
      omega
    have hkeep (hsame : (l.after e).inflight = l.inflight) (hb : b = held)
        (inv' : LimiterInv minimum limit (l.after e)) : NeverWaits (l.after e) trace :=
      ih inv' (by rw [hsame, hinflight, hb]) hrest
    cases e with
    | call u =>
      refine ⟨nofun, hkeep rfl ?_ inv⟩
      cases held <;> cases hb
      rfl
    | signal sig =>
      cases sig with
      | acquire =>
        have hout : held = false := by cases held with
          | false => rfl
          | true => cases hb
        subst hout
        obtain rfl := Option.some.inj hb
        refine ⟨fun _ => hnone rfl, ih (inv.acquire (hnone rfl)) ?_ hrest⟩
        show l.inflight + 1 = 1
        rw [hinflight]
        rfl
      | release =>
        have hin : held = true := by cases held with
          | false => cases hb
          | true => rfl
        subst hin
        obtain rfl := Option.some.inj hb
        refine ⟨nofun, ih inv.release ?_ hrest⟩
        show l.inflight - 1 = 0
        rw [hinflight]
        rfl
      | penalize =>
        refine ⟨nofun, hkeep rfl ?_ (inv.penalize hmin hle)⟩
        cases held <;> cases hb
        rfl
      | reward =>
        refine ⟨nofun, hkeep ?_ ?_ inv.reward⟩
        · show l.reward.inflight = l.inflight
          unfold Limiter.reward
          split_ifs <;> rfl
        · cases held <;> cases hb
          rfl
      | _ =>
        refine ⟨nofun, hkeep rfl ?_ inv⟩
        cases held <;> cases hb
        rfl

/-- The runs of some threads, one after the other, are disciplined. -/
theorem permitAfter_alone (units : List PlanUnit) :
    permitAfter permitRole false (units.map fun u => (alone resp maxRetries u).1).flatten =
      some false := by
  induction units with
  | nil => rfl
  | cons u units ih =>
    have hrun := (alone_runs resp maxRetries u).1
    rw [List.map_cons, List.flatten_cons, permitAfter_append,
      (disciplined_dispatchOne maxRetries u).permitAfter_of_runs hrun]
    exact ih

/-! ### The pool -/

/-- The results are collected in the order of the units. -/
theorem collectResults_eq (units : List PlanUnit) (result : PlanUnit → Result Dict) :
    collectResults units (fun i => result (units.get i)) =
      units.foldlM (fun m u => do return m.set u.key (← result u)) OrdMap.empty := by
  conv_rhs => rw [← List.map_getElem_finRange units, List.foldlM_map]
  rfl

/-- **A completed pool returns the map, and leaves the totals, of running `_dispatch_one` on the
units one after another, where no acquire waits.** -/
theorem dispatch_inOrder {units : List PlanUnit} (hkeys : (units.map PlanUnit.key).Nodup)
    {minimum limit : ℤ} (hmin : 1 ≤ minimum) (hle : minimum ≤ limit) (stats : RunnerStats)
    {log : List (Fin units.length × Event Effect Reply)}
    {p : Pool (Fin units.length) (SharedState (PlanUnit → ℕ)) Effect Reply (Result Dict)}
    (hrun : Pool.Run (fun s _ => limited (counted resp) s)
      (startPool ⟨Limiter.init limit minimum, stats, fun _ => 0⟩ maxRetries units) log p)
    {results : Fin units.length → Result Dict} (hend : ∀ i, p.procs i = .ret (results i))
    {m : ResultMap} (hm : collectResults units results = .ok m) :
    ∃ history, dispatchInOrder resp maxRetries [] .empty units = .ok (history, m) ∧
      totalsOf p.shared.stats = totalsOf (statsAfter stats history) ∧
      NeverWaits (Limiter.init limit minimum) history := by
  have hown : ∀ l ∈ log, ∀ v, l.2.1.callee? = some v → v.key = units[l.1].key := by
    intro l hl
    have hmem : l.2 ∈ Pool.stepsOf log l.1 := by
      refine List.mem_filterMap.2 ⟨l, hl, if_pos rfl⟩
    exact callsOnly_of_runs (Pool.project hrun (hend l.1)) l.2 hmem
  have hinj : Function.Injective fun i : Fin units.length => units[i].key := by
    have hdistinct := List.pairwise_iff_getElem.1 (List.pairwise_map.1 hkeys)
    intro i j hij
    rcases lt_trichotomy i j with hlt | heq | hgt
    · exact absurd hij (hdistinct i j i.isLt j.isLt hlt)
    · exact heq
    · exact absurd hij.symm (hdistinct j i j.isLt i.isLt hgt)
  -- each thread did what it does alone
  have halone (i : Fin units.length) :
      alone resp maxRetries units[i] = (Pool.stepsOf log i, results i) :=
    exec_of_runs (Pool.project hrun (hend i)) (consistent_stepsOf hrun hinj hown i fun _ _ => rfl)
  have hresults : results = fun i => (alone resp maxRetries (units.get i)).2 := by
    funext i
    exact (congrArg Prod.snd (halone i)).symm
  have hcollect := collectResults_eq units fun u => (alone resp maxRetries u).2
  rw [hresults, hcollect] at hm
  refine ⟨_, dispatchInOrder_eq hkeys (fun _ _ _ _ => rfl) hm, ?_, ?_⟩
  · have hsteps (i : Fin units.length) : ((Pool.stepsOf log i).map tally).sum =
        ((alone resp maxRetries units[i]).1.map tally).sum := by rw [halone i]
    rw [totalsOf_run hrun, totalsOf_statsAfter, Pool.sum_stepsOf, List.nil_append,
      List.map_flatten, List.sum_flatten, List.map_map, List.map_map]
    congr 1
    rw [Finset.sum_congr rfl fun i _ => hsteps i]
    exact Fin.sum_univ_fun_getElem units fun u => ((alone resp maxRetries u).1.map tally).sum
  · exact neverWaits hmin hle (limiterInv_init hmin hle) rfl (permitAfter_alone units)

/-- A hook that answers every call with an empty output. -/
def emptyAnswers : Responses := fun _ _ => .ok []

/-- Two units on one file. -/
def twoUnits : List PlanUnit := [⟨"quality", 1, 1, ["a.py"]⟩, ⟨"security", 1, 1, ["a.py"]⟩]

/-- Any state that admits a thread serves a unit to its end. -/
theorem serves_emptyAnswers (u : PlanUnit) {s : SharedState (PlanUnit → ℕ)}
    (h : s.limiter.Admits) (i : Fin 2) :
    ∃ s', Pool.Serves (fun s _ => limited (counted emptyAnswers) s) i s (acceptedAttempt u [])
      s' ∧ s'.limiter = (s.limiter.acquire.release).reward := by
  have hhook (s : SharedState (PlanUnit → ℕ)) : limited (counted emptyAnswers) s (.call u) (.ok [])
      { s with hook := Function.update s.hook u (s.hook u + 1) } := ⟨_, ⟨rfl, rfl⟩, rfl⟩
  exact ⟨_, .cons ⟨h, rfl⟩ (.cons (hhook _) (.cons ⟨trivial, rfl⟩ (.cons ⟨trivial, rfl⟩
    (.cons ⟨trivial, rfl⟩ (.cons ⟨trivial, rfl⟩ (.nil _)))))), rfl⟩

theorem dispatch_inOrder_twoUnits :
    ∃ history m, dispatchInOrder emptyAnswers 0 [] .empty twoUnits = .ok (history, m) ∧
      NeverWaits (Limiter.init 1 1) history := by
  have hruns (u : PlanUnit) :
      Runs (dispatchOne 0 u) (acceptedAttempt u []) (.ok (withDefaults u [])) :=
    runs_dispatchOne.2 ⟨.answered u [] [], rfl, retriable_start, rfl, rfl⟩
  let start : SharedState (PlanUnit → ℕ) := ⟨Limiter.init 1 1, {}, fun _ => 0⟩
  let procs : Fin 2 → Worker (Result Dict) := fun i => dispatchOne 0 (twoUnits.get i)
  let results : Fin 2 → Result Dict := fun i => .ok (withDefaults (twoUnits.get i) [])
  have hstart : start.limiter.Admits := by
    show (0 : ℤ) < 1
    decide
  obtain ⟨s₁, hserves₁, hlimiter⟩ := serves_emptyAnswers twoUnits[0] hstart 0
  have hnext : s₁.limiter.Admits := by
    rw [hlimiter]
    exact hstart
  obtain ⟨s₂, hserves₂, -⟩ := serves_emptyAnswers twoUnits[1] hnext 1
  have hfirst := Pool.run_of_runs (hruns _) hserves₁ (rfl : procs 0 = dispatchOne 0 _)
  have hsecond : Function.update procs 0 (.ret (results 0)) 1 = dispatchOne 0 twoUnits[1] := rfl
  have hrun : Pool.Run (fun s (_ : Fin twoUnits.length) => limited (counted emptyAnswers) s)
      (startPool start 0 twoUnits) _ ⟨s₂, _⟩ :=
    hfirst.append (Pool.run_of_runs (hruns _) hserves₂ hsecond)
  have hkeys : (twoUnits.map PlanUnit.key).Nodup := by decide
  have hend (i : Fin 2) : Function.update (Function.update procs 0 (.ret (results 0))) 1
      (.ret (results 1)) i = .ret (results i) := by
    match i with
    | 0 => rfl
    | 1 => rfl
  obtain ⟨m, hm⟩ : Result.Ok (collectResults twoUnits results) :=
    collectResults_ok fun _ => ⟨_, rfl⟩
  obtain ⟨history, horder, -, hwaits⟩ := dispatch_inOrder hkeys le_rfl le_rfl {} hrun hend hm
  exact ⟨history, m, horder, hwaits⟩

end CodeReview
