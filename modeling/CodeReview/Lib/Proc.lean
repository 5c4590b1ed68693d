import Mathlib.Logic.Function.Basic
import Mathlib.Data.List.Basic
import Mathlib.Data.Fintype.BigOperators
import Mathlib.Tactic.Common
import Mathlib.Tactic.SplitIfs

/-!
# Processes

A process performs effects `e : E` one after the other, each answered by the environment with a
value of `A e`, and ends with a result.  It is a tree with a branch for every answer, so every run
of it is finite, and a statement about all its runs is one about every behaviour of the
environment.

* `runs_bind` : the runs of a sequence are the concatenated runs of its parts;
* `Performs.of_mem` : the effects of a run are among those that the process can perform;
* `exec_runs`, `exec_of_runs` : an environment that answers from the history of the run so far is
  one such behaviour, and a run with its answers is the execution against it;
* `Pool.project` : **in every interleaving of several processes, each one performs a run of its
  own**; `Pool.exists_run_sequential` is the interleaving that runs one after the other.
-/

/-- A process with effects `E`, answers `A` and results `α`. -/
inductive Proc (E : Type) (A : E → Type) (α : Type) where
  | ret (a : α)
  | vis (e : E) (k : A e → Proc E A α)

namespace Proc

variable {E : Type} {A : E → Type} {α β : Type}

/-- An effect with its answer. -/
abbrev Event (E : Type) (A : E → Type) := Σ e : E, A e

/-- Run `p`, then the process its result selects. -/
def bind : Proc E A α → (α → Proc E A β) → Proc E A β
  | ret a, f => f a
  | vis e k, f => vis e fun ans => bind (k ans) f

instance : Monad (Proc E A) where
  pure := ret
  bind := bind

/-- Perform one effect and return its answer. -/
def perform (e : E) : Proc E A (A e) := vis e ret

@[simp] theorem pure_eq_ret (a : α) : (pure a : Proc E A α) = ret a := rfl

@[simp] theorem ret_bind (a : α) (f : α → Proc E A β) : (ret a >>= f) = f a := rfl

@[simp] theorem vis_bind (e : E) (k : A e → Proc E A α) (f : α → Proc E A β) :
    (vis e k >>= f) = vis e fun ans => k ans >>= f := rfl

@[simp] theorem perform_bind (e : E) (f : A e → Proc E A β) :
    (perform e >>= f) = vis e f := rfl

/-- `Runs p trace a` : with the answers of `trace` the process performs exactly its effects and
returns `a`. -/
inductive Runs : Proc E A α → List (Event E A) → α → Prop where
  | ret (a : α) : Runs (ret a) [] a
  | vis {e : E} {k : A e → Proc E A α} (ans : A e) {trace : List (Event E A)} {a : α}
      (h : Runs (k ans) trace a) : Runs (vis e k) (⟨e, ans⟩ :: trace) a

@[simp] theorem runs_ret {a b : α} {trace : List (Event E A)} :
    Runs (ret a) trace b ↔ trace = [] ∧ a = b := by
  constructor
  · rintro ⟨⟩; exact ⟨rfl, rfl⟩
  · rintro ⟨rfl, rfl⟩; exact .ret a

theorem runs_vis {e : E} {k : A e → Proc E A α} {trace : List (Event E A)} {a : α} :
    Runs (vis e k) trace a ↔ ∃ ans rest, trace = ⟨e, ans⟩ :: rest ∧ Runs (k ans) rest a := by
  constructor
  · intro h
    cases h with
    | vis ans h => exact ⟨ans, _, rfl, h⟩
  · rintro ⟨ans, rest, rfl, h⟩
    exact .vis ans h

theorem runs_bind {p : Proc E A α} {f : α → Proc E A β} {trace : List (Event E A)} {b : β} :
    Runs (p >>= f) trace b ↔
      ∃ before a after, trace = before ++ after ∧ Runs p before a ∧ Runs (f a) after b := by
  induction p generalizing trace with
  | ret a =>
    constructor
    · intro h
      exact ⟨[], a, trace, rfl, .ret a, h⟩
    · rintro ⟨before, a', after, rfl, hp, hf⟩
      obtain ⟨rfl, rfl⟩ := runs_ret.1 hp
      exact hf
  | vis e k ih =>
    rw [vis_bind, runs_vis]
    constructor
    · rintro ⟨ans, rest, rfl, h⟩
      obtain ⟨before, a, after, rfl, hp, hf⟩ := (ih ans).1 h
      exact ⟨⟨e, ans⟩ :: before, a, after, rfl, .vis ans hp, hf⟩
    · rintro ⟨before, a, after, rfl, hp, hf⟩
      obtain ⟨ans, rest, rfl, hrest⟩ := runs_vis.1 hp
      exact ⟨ans, rest ++ after, rfl, (ih ans).2 ⟨rest, a, after, rfl, hrest, hf⟩⟩

/-- Every effect that the process can perform satisfies `P`. -/
inductive Performs (P : E → Prop) : Proc E A α → Prop where
  | ret (a : α) : Performs P (ret a)
  | vis {e : E} {k : A e → Proc E A α} (he : P e) (hk : ∀ ans, Performs P (k ans)) :
      Performs P (vis e k)

theorem Performs.bind {P : E → Prop} {p : Proc E A α} {f : α → Proc E A β} (hp : Performs P p)
    (hf : ∀ a, Performs P (f a)) : Performs P (p >>= f) := by
  induction hp with
  | ret a => exact hf a
  | vis he _ ih => exact .vis he ih

theorem Performs.of_mem {P : E → Prop} {p : Proc E A α} {trace : List (Event E A)} {a : α}
    (hp : Performs P p) (h : Runs p trace a) : ∀ ev ∈ trace, P ev.1 := by
  induction h with
  | ret a => exact fun ev hev => absurd hev List.not_mem_nil
  | vis ans _ ih =>
    cases hp with
    | vis he hk =>
      intro ev hev
      rcases List.mem_cons.1 hev with rfl | hev
      · exact he
      · exact ih (hk ans) ev hev

/-- Run against an environment that answers each effect from the history so far. -/
def exec (respond : List (Event E A) → (e : E) → A e) :
    List (Event E A) → Proc E A α → List (Event E A) × α
  | history, ret a => (history, a)
  | history, vis e k =>
    let ans := respond history e
    exec respond (history ++ [⟨e, ans⟩]) (k ans)

/-- Such an execution is a run. -/
theorem exec_runs (respond : List (Event E A) → (e : E) → A e) (history : List (Event E A))
    (p : Proc E A α) :
    ∃ trace, (exec respond history p).1 = history ++ trace ∧
      Runs p trace (exec respond history p).2 := by
  induction p generalizing history with
  | ret a => exact ⟨[], by simp [exec], .ret a⟩
  | vis e k ih =>
    obtain ⟨trace, htrace, hrun⟩ := ih (respond history e) (history ++ [⟨e, respond history e⟩])
    exact ⟨⟨e, respond history e⟩ :: trace, by rw [exec, htrace]; simp, .vis _ hrun⟩

/-- Answers that do not depend on the history are the answers of the run. -/
theorem exec_answers (answer : (e : E) → A e) (history : List (Event E A)) (p : Proc E A α) :
    ∀ ev ∈ (exec (fun _ => answer) history p).1, ev ∈ history ∨ ev.2 = answer ev.1 := by
  induction p generalizing history with
  | ret a => exact fun ev hev => .inl hev
  | vis e k ih =>
    intro ev hev
    rcases ih (answer e) (history ++ [⟨e, answer e⟩]) ev hev with hmem | hans
    · rcases List.mem_append.1 hmem with hmem | hmem
      · exact .inl hmem
      · right
        rw [List.mem_singleton.1 hmem]
    · exact .inr hans

/-- Every answer is the one given to the history before it. -/
def Consistent (respond : List (Event E A) → (e : E) → A e) :
    List (Event E A) → List (Event E A) → Prop
  | _, [] => True
  | history, ev :: trace =>
    ev.2 = respond history ev.1 ∧ Consistent respond (history ++ [ev]) trace

/-- **A run with the answers of the environment is the execution against it.** -/
theorem exec_of_runs {respond : List (Event E A) → (e : E) → A e} {history : List (Event E A)}
    {p : Proc E A α} {trace : List (Event E A)} {a : α} (h : Runs p trace a)
    (hans : Consistent respond history trace) : exec respond history p = (history ++ trace, a) := by
  induction h generalizing history with
  | ret a => rw [exec, List.append_nil]
  | @vis e k ans trace a _ ih =>
    obtain ⟨hfirst, hrest⟩ := hans
    have hanswer : ans = respond history e := hfirst
    rw [exec, ← hanswer, ih hrest, List.append_assoc]
    rfl

/-- An execution against an environment has its answers. -/
theorem exec_consistent (respond : List (Event E A) → (e : E) → A e) (history : List (Event E A))
    (p : Proc E A α) :
    ∃ trace, exec respond history p = (history ++ trace, (exec respond history p).2) ∧
      Runs p trace (exec respond history p).2 ∧ Consistent respond history trace := by
  induction p generalizing history with
  | ret a => exact ⟨[], by simp [exec], .ret a, trivial⟩
  | vis e k ih =>
    obtain ⟨trace, htrace, hrun, hans⟩ :=
      ih (respond history e) (history ++ [⟨e, respond history e⟩])
    refine ⟨⟨e, respond history e⟩ :: trace, ?_, .vis _ hrun, rfl, hans⟩
    rw [exec, htrace, List.append_assoc]
    rfl

/-- Environments that answer alike to what a trace asks are alike for it. -/
theorem Consistent.congr {respond respond' : List (Event E A) → (e : E) → A e}
    {history history' trace : List (Event E A)} (h : Consistent respond history trace)
    (heq : ∀ before ev after, trace = before ++ ev :: after →
      respond' (history' ++ before) ev.1 = respond (history ++ before) ev.1) :
    Consistent respond' history' trace := by
  induction trace generalizing history history' with
  | nil => trivial
  | cons ev trace ih =>
    obtain ⟨hfirst, hrest⟩ := h
    have hhead := heq [] ev trace rfl
    rw [List.append_nil, List.append_nil] at hhead
    refine ⟨hfirst.trans hhead.symm, ih hrest ?_⟩
    intro before ev' after htrace
    have hlater := heq (ev :: before) ev' after (by rw [htrace]; rfl)
    rwa [List.append_assoc, List.append_assoc]

/-! ### Interleaving -/

variable {ι σ : Type}

/-- The shared state goes from `s` to `s'` as it answers one process. -/
inductive Pool.Serves (answers : σ → ι → (e : E) → A e → σ → Prop) (i : ι) :
    σ → List (Event E A) → σ → Prop where
  | nil (s : σ) : Pool.Serves answers i s [] s
  | cons {s s₁ s' : σ} {ev : Event E A} {trace : List (Event E A)}
      (hans : answers s i ev.1 ev.2 s₁) (hrest : Pool.Serves answers i s₁ trace s') :
      Pool.Serves answers i s (ev :: trace) s'

/-- A shared state that no answer changes. -/
theorem Pool.Serves.of_same {answers : σ → ι → (e : E) → A e → σ → Prop} {s : σ} {i : ι}
    {trace : List (Event E A)} (hans : ∀ ev ∈ trace, answers s i ev.1 ev.2 s) :
    Pool.Serves answers i s trace s := by
  induction trace with
  | nil => exact .nil s
  | cons ev trace ih =>
    exact .cons (hans ev List.mem_cons_self) (ih fun ev' h => hans ev' (List.mem_cons_of_mem _ h))

variable [DecidableEq ι]

/-- What is left to run of each process, beside a state `σ` that the processes share. -/
structure Pool (ι σ : Type) (E : Type) (A : E → Type) (α : Type) where
  shared : σ
  procs : ι → Proc E A α

namespace Pool

/-- One process performs its next effect; `answers` says how the shared state may answer. -/
inductive Step (answers : σ → ι → (e : E) → A e → σ → Prop) :
    Pool ι σ E A α → ι × Event E A → Pool ι σ E A α → Prop where
  | perform {s s' : σ} {procs : ι → Proc E A α} {i : ι} {e : E} {k : A e → Proc E A α} {ans : A e}
      (hi : procs i = vis e k) (hans : answers s i e ans s') :
      Step answers ⟨s, procs⟩ (i, ⟨e, ans⟩) ⟨s', Function.update procs i (k ans)⟩

/-- A schedule: the steps taken, with the process that took each. -/
inductive Run (answers : σ → ι → (e : E) → A e → σ → Prop) :
    Pool ι σ E A α → List (ι × Event E A) → Pool ι σ E A α → Prop where
  | nil (p : Pool ι σ E A α) : Run answers p [] p
  | cons {p p' p'' : Pool ι σ E A α} {l : ι × Event E A} {log : List (ι × Event E A)}
      (hstep : Step answers p l p') (hrun : Run answers p' log p'') : Run answers p (l :: log) p''

/-- The steps of one process. -/
def stepsOf (log : List (ι × Event E A)) (i : ι) : List (Event E A) :=
  log.filterMap fun l => if l.1 = i then some l.2 else none

theorem stepsOf_cons_self (i : ι) (ev : Event E A) (log : List (ι × Event E A)) :
    stepsOf ((i, ev) :: log) i = ev :: stepsOf log i := by simp [stepsOf]

theorem stepsOf_cons_of_ne {i j : ι} (h : j ≠ i) (ev : Event E A) (log : List (ι × Event E A)) :
    stepsOf ((j, ev) :: log) i = stepsOf log i := by simp [stepsOf, h]

theorem stepsOf_map_self (i : ι) (trace : List (Event E A)) :
    stepsOf (trace.map fun ev => (i, ev)) i = trace := by
  induction trace with
  | nil => rfl
  | cons ev trace ih => rw [List.map_cons, stepsOf_cons_self, ih]

/-- What a schedule adds up to, process by process. -/
theorem sum_stepsOf {M : Type} [AddCommMonoid M] [Fintype ι] (f : Event E A → M)
    (log : List (ι × Event E A)) :
    (log.map fun l => f l.2).sum = ∑ i, ((stepsOf log i).map f).sum := by
  induction log with
  | nil => simp [stepsOf]
  | cons l log ih =>
    obtain ⟨j, ev⟩ := l
    have hsteps (i : ι) : ((stepsOf ((j, ev) :: log) i).map f).sum =
        (if i = j then f ev else 0) + ((stepsOf log i).map f).sum := by
      by_cases hij : i = j
      · subst hij
        rw [stepsOf_cons_self, if_pos rfl, List.map_cons, List.sum_cons]
      · rw [stepsOf_cons_of_ne (Ne.symm hij), if_neg hij, zero_add]
    simp only [List.map_cons, List.sum_cons, hsteps, Finset.sum_add_distrib, ih]
    rw [Finset.sum_ite_eq' Finset.univ j fun _ => f ev, if_pos (Finset.mem_univ j)]

/-- **Whatever the schedule, each process that ended performed a run of its own.** -/
theorem project {answers : σ → ι → (e : E) → A e → σ → Prop} {p p' : Pool ι σ E A α}
    {log : List (ι × Event E A)} (h : Run answers p log p') {i : ι} {a : α}
    (hend : p'.procs i = ret a) : Runs (p.procs i) (stepsOf log i) a := by
  induction h with
  | nil p => rw [hend]; exact .ret a
  | @cons p p₁ p₂ l log hstep hrun ih =>
    specialize ih hend
    cases hstep with
    | @perform s s' procs j e k ans hj hans =>
      by_cases hij : j = i
      · subst hij
        simp only [Function.update_self] at ih
        rw [stepsOf_cons_self]
        simp only [hj]
        exact .vis ans ih
      · simp only [Function.update_of_ne (Ne.symm hij)] at ih
        rw [stepsOf_cons_of_ne hij]
        exact ih

/-- Every step of a schedule is one that the shared state admits. -/
theorem Run.admitted {answers : σ → ι → (e : E) → A e → σ → Prop} {p p' : Pool ι σ E A α}
    {log : List (ι × Event E A)} (h : Run answers p log p') :
    ∀ l ∈ log, ∃ s s', answers s l.1 l.2.1 l.2.2 s' := by
  induction h with
  | nil p => exact fun l hl => absurd hl List.not_mem_nil
  | cons hstep hrun ih =>
    intro l hl
    rcases List.mem_cons.1 hl with rfl | hl
    · cases hstep with
      | perform hi hans => exact ⟨_, _, hans⟩
    · exact ih l hl

/-- A process can run to its end while the others wait. -/
theorem run_of_runs {answers : σ → ι → (e : E) → A e → σ → Prop} {s s' : σ} {i : ι}
    {q : Proc E A α} {trace : List (Event E A)} {a : α} (h : Runs q trace a)
    (hserves : Serves answers i s trace s') {procs : ι → Proc E A α} (hi : procs i = q) :
    Run answers ⟨s, procs⟩ (trace.map fun ev => (i, ev)) ⟨s', Function.update procs i (ret a)⟩ := by
  induction h generalizing s procs with
  | ret a =>
    cases hserves
    rw [← hi, Function.update_eq_self]
    exact .nil _
  | @vis e k ans trace a hk ih =>
    cases hserves with
    | cons hans hrest =>
      have hnext : Function.update procs i (k ans) i = k ans := by simp
      have hrun := ih hrest hnext
      rw [Function.update_idem] at hrun
      exact .cons (.perform hi hans) hrun

theorem Run.append {answers : σ → ι → (e : E) → A e → σ → Prop} {p p' p'' : Pool ι σ E A α}
    {log log' : List (ι × Event E A)} (h : Run answers p log p') (h' : Run answers p' log' p'') :
    Run answers p (log ++ log') p'' := by
  induction h with
  | nil p => exact h'
  | cons hstep _ ih => exact .cons hstep (ih h')

/-- Some processes can run one after the other. -/
theorem exists_run_sequential {answers : σ → ι → (e : E) → A e → σ → Prop} {s : σ} {is : List ι}
    {procs : ι → Proc E A α} {traces : ι → List (Event E A)} {results : ι → α}
    (hnodup : is.Nodup) (hruns : ∀ i ∈ is, Runs (procs i) (traces i) (results i))
    (hans : ∀ i ∈ is, ∀ ev ∈ traces i, answers s i ev.1 ev.2 s) :
    ∃ log, Run answers ⟨s, procs⟩ log
      ⟨s, fun i => if i ∈ is then ret (results i) else procs i⟩ := by
  induction is generalizing procs with
  | nil => exact ⟨[], by simpa using Run.nil _⟩
  | cons i is ih =>
    obtain ⟨hi, hnodup⟩ := List.nodup_cons.1 hnodup
    -- the first process runs to its end, and the others from what it leaves
    have hfirst := run_of_runs (hruns i List.mem_cons_self) (.of_same (hans i List.mem_cons_self))
      (rfl : procs i = procs i)
    obtain ⟨log, hlog⟩ := @ih (Function.update procs i (ret (results i))) hnodup
      (fun j hj => by
        have hji : j ≠ i := fun h => hi (h ▸ hj)
        rw [Function.update_of_ne hji]
        exact hruns j (List.mem_cons_of_mem _ hj))
      fun j hj => hans j (List.mem_cons_of_mem _ hj)
    have hend : (fun j => if j ∈ is then ret (results j)
        else Function.update procs i (ret (results i)) j) =
        fun j => if j ∈ i :: is then ret (results j) else procs j := by
      funext j
      by_cases hji : j = i
      · subst hji
        simp [hi]
      · simp [hji]
    rw [hend] at hlog
    exact ⟨_, hfirst.append hlog⟩

end Pool

end Proc
