import CodeReview.Lib.Proc
import Mathlib.Algebra.Order.BigOperators.Group.Finset
import Mathlib.Data.Fintype.BigOperators

/-!
# Permits

Processes that take a permit, do some effects while they hold it, and give it back.  A monitor reads
the steps of a process and rejects a second permit, a permit given back twice, and an effect done on
the wrong side.

* `Disciplined.bind` : a disciplined process followed by disciplined ones is disciplined;
* `Pool.disciplined` : **in every interleaving of disciplined processes the monitor accepts the
  steps of each, and knows whether it holds a permit;**
* `Pool.permitsOut` : a counter that follows the permits taken and given back counts the holders.
-/

namespace Proc

/-- What an effect has to do with the permit. -/
inductive Role where
  | acquire
  | release
  /-- done while a permit is held -/
  | inside
  /-- done while none is held -/
  | outside
  deriving DecidableEq, Repr

/-- One effect of a process that holds a permit or not; `none` is a breach. -/
def Role.next : Role → Bool → Option Bool
  | acquire, false => some true
  | release, true => some false
  | inside, true => some true
  | outside, false => some false
  | _, _ => none

variable {E : Type} {A : E → Type} {α β : Type}

/-- Whether a process holds a permit after the steps, when it started so; `none` after a breach. -/
def permitAfter (role : E → Role) : Bool → List (Event E A) → Option Bool
  | held, [] => some held
  | held, ev :: trace => ((role ev.1).next held).bind fun held' => permitAfter role held' trace

/-- The steps of a role. -/
def countRole (role : E → Role) (r : Role) (trace : List (Event E A)) : ℕ :=
  trace.countP fun ev => role ev.1 = r

/-- Every permit taken is given back, but for the one that is held. -/
theorem countRole_of_permitAfter {role : E → Role} {held held' : Bool} {trace : List (Event E A)}
    (h : permitAfter role held trace = some held') :
    countRole role .acquire trace + held.toNat = countRole role .release trace + held'.toNat := by
  induction trace generalizing held with
  | nil =>
    obtain rfl := Option.some.inj h
    rfl
  | cons ev trace ih =>
    obtain ⟨b, hb, hrest⟩ := Option.bind_eq_some_iff.1 h
    have hcount := ih hrest
    unfold countRole at hcount ⊢
    rw [List.countP_cons, List.countP_cons]
    cases hrole : role ev.1 <;> rw [hrole] at hb <;> cases held <;> cases hb <;>
      simp only [decide_true, decide_false, reduceCtorEq, if_true, Bool.false_eq_true, if_false,
        Bool.toNat_false, Bool.toNat_true] at hcount ⊢ <;> omega

/-- Whatever the answers, the process commits no breach and ends without a permit. -/
inductive Disciplined (role : E → Role) : Bool → Proc E A α → Prop where
  | ret (a : α) : Disciplined role false (ret a)
  | vis {held held' : Bool} {e : E} {k : A e → Proc E A α} (he : (role e).next held = some held')
      (hk : ∀ ans, Disciplined role held' (k ans)) : Disciplined role held (vis e k)

variable {role : E → Role}

theorem Disciplined.bind {held : Bool} {p : Proc E A α} {f : α → Proc E A β}
    (hp : Disciplined role held p) (hf : ∀ a, Disciplined role false (f a)) :
    Disciplined role held (p >>= f) := by
  induction hp with
  | ret a => exact hf a
  | vis he _ ih => exact .vis he ih

/-- A process that ended holds nothing. -/
theorem Disciplined.of_ret {held : Bool} {a : α}
    (h : Disciplined role held (Proc.ret a : Proc E A α)) : held = false := by
  cases h
  rfl

/-- What the first effect does to the permit. -/
theorem Disciplined.of_vis {held : Bool} {e : E} {k : A e → Proc E A α}
    (h : Disciplined role held (Proc.vis e k)) :
    ∃ held', (role e).next held = some held' ∧ ∀ ans, Disciplined role held' (k ans) := by
  cases h with
  | vis he hk => exact ⟨_, he, hk⟩

/-- A run of a disciplined process gives back every permit. -/
theorem Disciplined.permitAfter_of_runs {held : Bool} {p : Proc E A α} {trace : List (Event E A)}
    {a : α} (hp : Disciplined role held p) (h : Runs p trace a) :
    permitAfter role held trace = some false := by
  induction h generalizing held with
  | ret a => rw [permitAfter, hp.of_ret]
  | vis ans _ ih =>
    obtain ⟨held', hnext, hk⟩ := hp.of_vis
    rw [permitAfter, hnext]
    exact ih (hk ans)

theorem permitAfter_append {held : Bool} {before after : List (Event E A)} :
    permitAfter role held (before ++ after) =
      (permitAfter role held before).bind fun held' => permitAfter role held' after := by
  induction before generalizing held with
  | nil => rfl
  | cons ev before ih =>
    rw [List.cons_append, permitAfter, permitAfter, Option.bind_assoc]
    simp only [ih]

namespace Pool

variable {ι σ : Type} {answers : σ → ι → (e : E) → A e → σ → Prop}
  {p p' : Pool ι σ E A α} {log : List (ι × Event E A)}

/-- The number of holders. -/
def holders [Fintype ι] (held : ι → Bool) : ℤ := ∑ i, if held i then 1 else 0

/-- Where permits are out, somebody holds one. -/
theorem exists_holder [Fintype ι] {held : ι → Bool} (h : 0 < holders held) :
    ∃ i, held i = true := by
  by_contra hnone
  have hzero : holders held = 0 := Finset.sum_eq_zero fun i _ => by
    rw [if_neg fun hi => hnone ⟨i, hi⟩]
  omega

/-- How a counter of the shared state follows the permits. -/
def Follows (role : E → Role) (answers : σ → ι → (e : E) → A e → σ → Prop) (count : σ → ℤ) : Prop :=
  ∀ s i e ans s', answers s i e ans s' →
    count s' = match role e with
      | .acquire => count s + 1
      | .release => count s - 1
      | _ => count s

variable [DecidableEq ι]

/-- **The monitor accepts the steps of every process.** -/
theorem disciplined {held : ι → Bool} (hrun : Run answers p log p')
    (h : ∀ i, Disciplined role (held i) (p.procs i)) :
    ∃ held' : ι → Bool, ∀ i, permitAfter role (held i) (stepsOf log i) = some (held' i) ∧
      Disciplined role (held' i) (p'.procs i) := by
  induction hrun generalizing held with
  | nil p => exact ⟨held, fun i => ⟨rfl, h i⟩⟩
  | @cons p p₁ p₂ l log hstep _ ih =>
    cases hstep with
    | @perform s s' procs j e k ans hj hans =>
      obtain ⟨b, he, hk⟩ := (hj ▸ h j : Disciplined role (held j) (vis e k)).of_vis
      ·         -- only the process that took the step moves its monitor
        obtain ⟨held', hheld'⟩ := @ih (Function.update held j b) fun i => by
          by_cases hij : i = j
          · subst hij
            simpa using hk ans
          · simpa [Function.update_of_ne hij] using h i
        refine ⟨held', fun i => ⟨?_, (hheld' i).2⟩⟩
        have hmonitor := (hheld' i).1
        by_cases hij : i = j
        · subst hij
          rw [Function.update_self] at hmonitor
          rw [stepsOf_cons_self, permitAfter, he]
          exact hmonitor
        · rw [Function.update_of_ne hij] at hmonitor
          rw [stepsOf_cons_of_ne (Ne.symm hij)]
          exact hmonitor

/-- **The counter counts the holders.** -/
theorem permitsOut [Fintype ι] {count : σ → ℤ} (hcount : Follows role answers count)
    {held held' : ι → Bool} (hrun : Run answers p log p')
    (h : ∀ i, permitAfter role (held i) (stepsOf log i) = some (held' i)) :
    count p'.shared - holders held' = count p.shared - holders held := by
  induction hrun generalizing held with
  | nil p =>
    have hsame : held = held' := by
      funext i
      exact Option.some.inj (h i)
    rw [hsame]
  | @cons p p₁ p₂ l log hstep _ ih =>
    cases hstep with
    | @perform s s' procs j e k ans hj hans =>
      have hjm := h j
      rw [stepsOf_cons_self, permitAfter] at hjm
      obtain ⟨b, hb, hrest⟩ := Option.bind_eq_some_iff.1 hjm
      have hnext := @ih (Function.update held j b) fun i => by
        by_cases hij : i = j
        · subst hij
          rwa [Function.update_self]
        · rw [Function.update_of_ne hij, ← stepsOf_cons_of_ne (Ne.symm hij) ⟨e, ans⟩]
          exact h i
      -- the count and the holders change by the same amount
      have hsum : holders (Function.update held j b) - holders held =
          (if b then 1 else 0) - if held j then 1 else 0 := by
        unfold holders
        rw [← Finset.sum_sub_distrib, Finset.sum_eq_single j]
        · rw [Function.update_self]
        · intro i _ hij
          rw [Function.update_of_ne hij, sub_self]
        · exact fun hmem => absurd (Finset.mem_univ j) hmem
      have hcounted := hcount s j e ans s' hans
      show count p₂.shared - holders held' = count s - holders held
      have hstep : count s' - count s = (if b then 1 else 0) - if held j then 1 else 0 := by
        rw [hcounted]
        cases hrole : role e <;> rw [hrole] at hb <;> cases hheld : held j <;> rw [hheld] at hb <;>
          cases hb <;> simp
      have hnext' : count p₂.shared - holders held' =
          count s' - holders (Function.update held j b) := hnext
      omega

end Pool

end Proc
