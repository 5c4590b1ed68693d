import CodeReview.Lib.Permit
import CodeReview.Runner.Loop

/-!
# The adaptive limiter

The threads of `_dispatch_units` share one `_AdaptiveLimiter`, the counters and the hook.  The
limiter lets a thread through while fewer permits are out than its limit, halves the limit after a
rate limit and raises it by one after a success.

The limit can drop below the number of permits already out, so `inflight ≤ limit` is no invariant:
what holds is that the permits out are those of the threads between their acquire and its release,
and that one was taken only below a limit that never exceeds the maximum.

* `disciplined_dispatchOne` : a thread takes a permit, calls the hook and gives the permit back,
  whatever the hook does, and sleeps and splits without one;
* `LimiterInv.step`, `limiterInv_run` : the invariant, over one step and over a schedule;
* `limiter_safe` : **in every reachable state the limiter is in range, its count is that of the
  holders, and a blocked thread waits for one that is not.**
-/

namespace CodeReview

open Py Proc

/-- `_AdaptiveLimiter`. -/
structure Limiter where
  limit : ℤ
  max : ℤ
  min : ℤ
  inflight : ℤ
  statsMin : ℤ
  statsMax : ℤ
  deriving DecidableEq, Repr

namespace Limiter

/-- `__init__`. -/
def init (limit minimum : ℤ) : Limiter where
  limit := limit
  max := limit
  min := Max.max 1 minimum
  inflight := 0
  statsMin := limit
  statsMax := limit

/-- The loop of `acquire` ends. -/
def Admits (l : Limiter) : Prop := l.inflight < l.limit

/-- `acquire`, once admitted. -/
def acquire (l : Limiter) : Limiter := { l with inflight := l.inflight + 1 }

/-- `release`. -/
def release (l : Limiter) : Limiter := { l with inflight := l.inflight - 1 }

/-- `penalize`. -/
def penalize (l : Limiter) : Limiter :=
  let limit := Max.max l.min (l.limit / 2)
  { l with limit, statsMin := Min.min l.statsMin limit }

/-- `reward`. -/
def reward (l : Limiter) : Limiter :=
  if l.limit < l.max then
    { l with limit := l.limit + 1, statsMax := Max.max l.statsMax (l.limit + 1) }
  else l

end Limiter

/-! ### What the threads share -/

/-- The limiter, the counters, and what the hook remembers. -/
structure SharedState (τ : Type) where
  limiter : Limiter
  stats : RunnerStats
  hook : τ

/-- What a signal does. -/
def SharedState.signal {τ : Type} (s : SharedState τ) : Signal → SharedState τ
  | .acquire => { s with limiter := s.limiter.acquire }
  | .release => { s with limiter := s.limiter.release }
  | .penalize => { s with limiter := s.limiter.penalize }
  | .reward => { s with limiter := s.limiter.reward }
  | .bump counter => { s with stats := s.stats.bump counter }
  | .addCosts adds => { s with stats := adds.foldl .add s.stats }
  | .sleep _ => s

/-- How the hook may answer, and what it remembers then. -/
abbrev Hook (τ : Type) := τ → PlanUnit → Answer → τ → Prop

variable {τ : Type} {hook : Hook τ}

/-- The signal can be performed: an acquire waits until it is admitted. -/
def SharedState.Ready (s : SharedState τ) : Signal → Prop
  | .acquire => s.limiter.Admits
  | _ => True

/-- What the threads of a pool meet. -/
def limited (hook : Hook τ) : Environment (SharedState τ) := fun s e =>
  match e with
  | .signal sig => fun _ s' => s.Ready sig ∧ s' = s.signal sig
  | .call u => fun answer s' => ∃ t, hook s.hook u answer t ∧ s' = { s with hook := t }

/-! ### One thread -/

/-- Only the hook is called under a permit. -/
def permitRole : Effect → Role
  | .signal .acquire => .acquire
  | .signal .release => .release
  | .signal _ => .outside
  | .call _ => .inside

theorem disciplined_failed (u : PlanUnit) (reason : String) :
    Disciplined permitRole false (failed u reason) := .vis rfl fun _ => .ret _

theorem disciplined_accept (u : PlanUnit) (out : Dict) :
    Disciplined permitRole true (accept u out) := by
  refine .vis rfl fun _ => .vis rfl fun _ => .vis rfl fun _ => .vis rfl fun _ => ?_
  split <;> exact .ret _

/-- A back-off sleeps, or raises, without a permit. -/
theorem disciplined_backOff (exponent : ℕ) {next : Worker (Result Dict)}
    (h : Disciplined permitRole false next) :
    Disciplined permitRole false (backOff exponent next) := by
  unfold backOff
  split
  · exact .ret _
  · exact .vis rfl fun _ => h

theorem disciplined_joinHalves (u : PlanUnit) {l r : Worker (Result Dict)}
    (hl : Disciplined permitRole false l) (hr : Disciplined permitRole false r) :
    Disciplined permitRole false (joinHalves u l r) := by
  refine hl.bind fun resL => ?_
  cases halfOf resL with
  | error exc => exact .ret _
  | ok half =>
    refine hr.bind fun resR => ?_
    cases halfOf resR with
    | error exc => exact .ret _
    | ok half' => exact .ret _

/-- One attempt, where the attempts after it are disciplined. -/
theorem disciplined_attempt {maxRetries left : ℕ} {u : PlanUnit}
    (hretry : ∀ left', left = left' + 1 →
      Disciplined permitRole false (dispatchFrom maxRetries u left'))
    (hsplit : ∀ a b, splitUnit u = some (a, b) → ∀ v ∈ [a, b],
      Disciplined permitRole false (dispatchFrom maxRetries v maxRetries)) :
    Disciplined permitRole false (dispatchFrom maxRetries u left) := by
  rw [dispatchFrom.eq_def]
  simp only [act, callHook, perform_bind]
  refine .vis rfl fun _ => .vis rfl fun answer => ?_
  cases answer with
  | ok out => exact disciplined_accept u out
  | error e =>
    cases e with
    | rateLimit =>
      refine .vis rfl fun _ => .vis rfl fun _ => .vis rfl fun _ => .vis rfl fun _ => ?_
      cases left with
      | zero => exact disciplined_failed _ _
      | succ left => exact disciplined_backOff _ (hretry left rfl)
    | other exc =>
      refine .vis rfl fun _ => .vis rfl fun _ => ?_
      cases left with
      | zero => exact disciplined_failed _ _
      | succ left => exact disciplined_backOff _ (hretry left rfl)
    | contextOverflow =>
      refine .vis rfl fun _ => ?_
      split
      · exact disciplined_failed _ _
      · rename_i a b hab
        -- the permit is back before the halves are dispatched
        refine .vis rfl fun _ => disciplined_joinHalves u ?_ ?_
        · exact hsplit a b hab a (by simp)
        · exact hsplit a b hab b (by simp)

theorem disciplined_dispatchFrom (maxRetries : ℕ) (u : PlanUnit) (left : ℕ) :
    Disciplined permitRole false (dispatchFrom maxRetries u left) := by
  -- on the number of files, and at each slice on the retries left
  induction hn : u.files.length using Nat.strong_induction_on generalizing u left with
  | _ n ihn =>
    subst hn
    induction left using Nat.strong_induction_on with
    | _ left ih =>
      refine disciplined_attempt (fun left' hleft => ih left' (by omega)) fun a b hab v hv => ?_
      obtain ⟨-, -, -, -, ha, hb⟩ := splitUnit_eq_some hab
      rcases List.mem_pair.1 hv with rfl | rfl
      · exact ihn _ ha _ _ rfl
      · exact ihn _ hb _ _ rfl

/-- **A thread calls the hook under a permit and does everything else without one.** -/
theorem disciplined_dispatchOne (n : ℤ) (u : PlanUnit) :
    Disciplined permitRole false (dispatchOne n u) := disciplined_dispatchFrom _ _ _

/-! ### The limiter -/

/-- The limit stays in its range, and permits are only taken below it. -/
structure LimiterInv (minimum limit : ℤ) (l : Limiter) : Prop where
  max_eq : l.max = limit
  min_eq : l.min = minimum
  min_le : minimum ≤ l.limit
  le_max : l.limit ≤ limit
  inflight_le : l.inflight ≤ limit

theorem limiterInv_init {minimum limit : ℤ} (hmin : 1 ≤ minimum) (hle : minimum ≤ limit) :
    LimiterInv minimum limit (Limiter.init limit minimum) where
  max_eq := rfl
  min_eq := max_eq_right hmin
  min_le := hle
  le_max := le_rfl
  inflight_le := by
    show (0 : ℤ) ≤ limit
    omega

section

variable {minimum limit : ℤ} {l : Limiter} (inv : LimiterInv minimum limit l)

include inv

theorem LimiterInv.acquire (hadmits : l.Admits) : LimiterInv minimum limit l.acquire where
  max_eq := inv.max_eq
  min_eq := inv.min_eq
  min_le := inv.min_le
  le_max := inv.le_max
  inflight_le := by
    have hlimit := inv.le_max
    unfold Limiter.Admits at hadmits
    show l.inflight + 1 ≤ limit
    omega

theorem LimiterInv.release : LimiterInv minimum limit l.release where
  max_eq := inv.max_eq
  min_eq := inv.min_eq
  min_le := inv.min_le
  le_max := inv.le_max
  inflight_le := by
    have hinflight := inv.inflight_le
    show l.inflight - 1 ≤ limit
    omega

theorem LimiterInv.penalize (hmin : 1 ≤ minimum) (hle : minimum ≤ limit) :
    LimiterInv minimum limit l.penalize where
  max_eq := inv.max_eq
  min_eq := inv.min_eq
  min_le := by
    show minimum ≤ max l.min (l.limit / 2)
    rw [inv.min_eq]
    exact le_max_left _ _
  le_max := by
    have hlo := inv.min_le
    have hhi := inv.le_max
    show max l.min (l.limit / 2) ≤ limit
    rw [inv.min_eq]
    omega
  inflight_le := inv.inflight_le

theorem LimiterInv.reward : LimiterInv minimum limit l.reward := by
  have hlo := inv.min_le
  have hmax := inv.max_eq
  unfold Limiter.reward
  split_ifs with hlt
  · exact ⟨hmax, inv.min_eq, by show minimum ≤ l.limit + 1; omega,
      by show l.limit + 1 ≤ limit; omega, inv.inflight_le⟩
  · exact inv

end

/-- **Every step keeps the invariant.** -/
theorem LimiterInv.step {minimum limit : ℤ} {s s' : SharedState τ} {e : Effect} {ans : Reply e}
    (hmin : 1 ≤ minimum) (hle : minimum ≤ limit) (inv : LimiterInv minimum limit s.limiter)
    (h : limited hook s e ans s') : LimiterInv minimum limit s'.limiter := by
  cases e with
  | call u =>
    obtain ⟨t, -, rfl⟩ := h
    exact inv
  | signal sig =>
    obtain ⟨hready, rfl⟩ := h
    cases sig with
    | acquire => exact inv.acquire hready
    | release => exact inv.release
    | penalize => exact inv.penalize hmin hle
    | reward => exact inv.reward
    | bump counter => exact inv
    | addCosts adds => exact inv
    | sleep exponent => exact inv

variable {n : ℕ}

/-- A schedule keeps the invariant. -/
theorem limiterInv_run {minimum limit : ℤ}
    {p p' : Pool (Fin n) (SharedState τ) Effect Reply (Result Dict)}
    {log : List (Fin n × Event Effect Reply)} (hmin : 1 ≤ minimum) (hle : minimum ≤ limit)
    (hrun : Pool.Run (fun s _ => limited hook s) p log p')
    (inv : LimiterInv minimum limit p.shared.limiter) :
    LimiterInv minimum limit p'.shared.limiter := by
  induction hrun with
  | nil p => exact inv
  | cons hstep _ ih =>
    cases hstep with
    | perform hi hans => exact ih (inv.step hmin hle hans)

/-- The limiter counts the permits that are taken and given back. -/
theorem limited_follows : Pool.Follows permitRole (fun s (_ : Fin n) => limited hook s)
    fun s => s.limiter.inflight := by
  intro s i e ans s' h
  cases e with
  | call u =>
    obtain ⟨t, -, rfl⟩ := h
    rfl
  | signal sig =>
    obtain ⟨-, rfl⟩ := h
    cases sig with
    | reward =>
      show (Limiter.reward s.limiter).inflight = s.limiter.inflight
      unfold Limiter.reward
      split_ifs <;> rfl
    | _ => rfl

/-! ### Reachable states -/

/-- The thread took a permit and has not given it back. -/
def holdsPermit (log : List (Fin n × Event Effect Reply)) (i : Fin n) : Bool :=
  permitAfter permitRole false (Pool.stepsOf log i) = some true

/-- The thread waits in `acquire`. -/
def Blocked (p : Pool (Fin n) (SharedState τ) Effect Reply (Result Dict)) (i : Fin n) : Prop :=
  (∃ k, p.procs i = .vis (.signal .acquire) k) ∧ ¬ p.shared.limiter.Admits

/-- The thread has not ended. -/
def Unfinished (p : Pool (Fin n) (SharedState τ) Effect Reply (Result Dict)) (i : Fin n) : Prop :=
  ∃ e k, p.procs i = .vis e k

/-- What holds of the limiter and the threads after the steps of `log`. -/
structure LimiterSafe (minimum limit : ℤ)
    (p : Pool (Fin n) (SharedState τ) Effect Reply (Result Dict))
    (log : List (Fin n × Event Effect Reply)) : Prop where
  max_eq : p.shared.limiter.max = limit
  limit_range : minimum ≤ p.shared.limiter.limit ∧ p.shared.limiter.limit ≤ p.shared.limiter.max
  inflight_eq : p.shared.limiter.inflight = Pool.holders (holdsPermit log)
  inflight_le : p.shared.limiter.inflight ≤ p.shared.limiter.max
  /-- No thread took a second permit, gave one back twice, or slept or split while it held one. -/
  noBreach : ∀ i, permitAfter permitRole false (Pool.stepsOf log i) ≠ none
  /-- A thread holds a permit exactly while it is in the hook. -/
  holds_iff : ∀ i e k, p.procs i = .vis e k →
    (holdsPermit log i = true ↔ permitRole e = .inside ∨ permitRole e = .release)
  /-- Who ended has given back every permit it took. -/
  matched : ∀ i r, p.procs i = .ret r →
    countRole permitRole .acquire (Pool.stepsOf log i) =
      countRole permitRole .release (Pool.stepsOf log i)
  drained : (∀ i, ¬ Unfinished p i) → p.shared.limiter.inflight = 0
  /-- Who is blocked waits for a thread that is not. -/
  progress : ∀ i, Blocked p i → ∃ j, holdsPermit log j = true ∧ Unfinished p j ∧ ¬ Blocked p j
  noDeadlock : ¬ ((∃ i, Unfinished p i) ∧ ∀ i, Unfinished p i → Blocked p i)

theorem next_eq_some {r : Role} {held held' : Bool} (h : r.next held = some held') :
    held = true ↔ r = .inside ∨ r = .release := by
  cases r <;> cases held <;> cases h <;> decide

/-- **The limiter is safe in every state that a schedule reaches.** -/
theorem limiter_safe {minimum limit : ℤ} (hmin : 1 ≤ minimum) (hle : minimum ≤ limit)
    (hook : Hook τ) (t : τ) (stats : RunnerStats) (maxRetries : ℤ) (units : List PlanUnit)
    {log : List (Fin units.length × Event Effect Reply)}
    {p : Pool (Fin units.length) (SharedState τ) Effect Reply (Result Dict)}
    (hrun : Pool.Run (fun s _ => limited hook s)
      (startPool ⟨Limiter.init limit minimum, stats, t⟩ maxRetries units) log p) :
    LimiterSafe minimum limit p log := by
  have inv := limiterInv_run hmin hle hrun (limiterInv_init hmin hle)
  obtain ⟨held, hheld⟩ : ∃ held : Fin units.length → Bool, ∀ i,
      permitAfter permitRole false (Pool.stepsOf log i) = some (held i) ∧
        Disciplined permitRole (held i) (p.procs i) :=
    Pool.disciplined hrun fun i => disciplined_dispatchOne maxRetries units[i]
  have hpermits (i : Fin units.length) : holdsPermit log i = held i := by
    unfold holdsPermit
    rw [(hheld i).1]
    cases held i <;> rfl
  have hcount : p.shared.limiter.inflight - Pool.holders held = 0 - Pool.holders fun _ => false :=
    Pool.permitsOut limited_follows hrun fun i => (hheld i).1
  have hinflight : p.shared.limiter.inflight = Pool.holders (holdsPermit log) := by
    have hstart : Pool.holders (fun _ : Fin units.length => false) = 0 :=
      Finset.sum_eq_zero fun _ _ => rfl
    rw [funext hpermits]
    omega
  have hholds (i : Fin units.length) (e : Effect) (k : Reply e → Worker (Result Dict))
      (hi : p.procs i = .vis e k) :
      holdsPermit log i = true ↔ permitRole e = .inside ∨ permitRole e = .release := by
    have hdisciplined := (hheld i).2
    rw [hi] at hdisciplined
    obtain ⟨b, hb, -⟩ := hdisciplined.of_vis
    rw [hpermits]
    exact next_eq_some hb
  have hended (i : Fin units.length) (r : Result Dict) (hi : p.procs i = .ret r) :
      held i = false := by
    have hdisciplined := (hheld i).2
    rw [hi] at hdisciplined
    exact hdisciplined.of_ret
  -- where the limiter admits nobody, a permit is out, and its holder can go on
  have hprogress (i : Fin units.length) (hblocked : Blocked p i) :
      ∃ j, holdsPermit log j = true ∧ Unfinished p j ∧ ¬ Blocked p j := by
    have hout : 0 < Pool.holders (holdsPermit log) := by
      have hfull := hblocked.2
      have hlo := inv.min_le
      unfold Limiter.Admits at hfull
      omega
    obtain ⟨j, hj⟩ := Pool.exists_holder hout
    refine ⟨j, hj, ?_, ?_⟩
    · cases hprocs : p.procs j with
      | ret r =>
        rw [hpermits, hended j r hprocs] at hj
        cases hj
      | vis e k => exact ⟨e, k, hprocs⟩
    · rintro ⟨⟨k, hk⟩, -⟩
      rcases (hholds j _ k hk).1 hj with hrole | hrole <;> cases hrole
  refine ⟨inv.max_eq, ⟨inv.min_le, ?_⟩, hinflight, ?_, fun i => ?_, hholds, fun i r hi => ?_,
    fun hall => ?_, hprogress, ?_⟩
  · rw [inv.max_eq]
    exact inv.le_max
  · rw [inv.max_eq]
    exact inv.inflight_le
  · rw [(hheld i).1]
    exact Option.some_ne_none _
  · have hmonitor := (hheld i).1
    rw [hended i r hi] at hmonitor
    simpa using countRole_of_permitAfter hmonitor
  · rw [hinflight]
    refine Finset.sum_eq_zero fun i _ => if_neg ?_
    rw [hpermits]
    cases hprocs : p.procs i with
    | ret r => simp [hended i r hprocs]
    | vis e k => exact absurd ⟨e, k, hprocs⟩ (hall i)
  · rintro ⟨⟨i, hi⟩, hall⟩
    obtain ⟨j, -, hj, hfree⟩ := hprogress i (hall i hi)
    exact hfree (hall j hj)

/-- Two units and one permit: the first thread took it. -/
theorem limiter_safe_twoUnits :
    ∃ p : Pool (Fin 2) (SharedState Unit) Effect Reply (Result Dict),
      LimiterSafe 1 1 p [(0, did .acquire)] ∧ Blocked p 1 := by
  let units : List PlanUnit := [⟨"quality", 1, 1, ["a.py"]⟩, ⟨"security", 1, 1, ["a.py"]⟩]
  have hacquires (u : PlanUnit) : ∃ k, dispatchOne 0 u = .vis (.signal .acquire) k := by
    rw [dispatchOne, dispatchFrom.eq_def]
    exact ⟨_, rfl⟩
  obtain ⟨k, hk⟩ := hacquires units[0]
  obtain ⟨k', hk'⟩ := hacquires units[1]
  let start := startPool (⟨Limiter.init 1 1, {}, ()⟩ : SharedState Unit) 0 units
  have hrun : Pool.Run (fun s _ => limited (fun _ _ _ _ => True) s) start [(0, did .acquire)]
      ⟨start.shared.signal .acquire, Function.update start.procs 0 (k ())⟩ :=
    .cons (.perform hk ⟨by show (0 : ℤ) < 1; decide, rfl⟩) (.nil _)
  exact ⟨_, limiter_safe le_rfl le_rfl _ _ _ 0 units hrun, ⟨k', hk'⟩, by
    show ¬ (1 : ℤ) < 1
    decide⟩

end CodeReview
