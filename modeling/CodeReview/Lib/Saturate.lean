import Mathlib.Data.List.Basic
import Mathlib.Data.Set.Defs
import Mathlib.Order.Basic
import Mathlib.Tactic.Common
import Mathlib.Tactic.SplitIfs

/-!
# Sweeping to saturation

A sweep goes through some rules in order and applies each one that adds something, so that the later
rules of a sweep see what the earlier ones added.  Sweeps are repeated until one adds nothing, or up
to a cap.

* `sweep_spec` : a sweep that adds nothing leaves a state to which no rule adds anything;
* `saturate_spec` : **with more sweeps than additions, no rule is left that adds anything**;
* `Reached` is what the rules should reach, the least set that has the seeds and is closed.
-/

namespace Saturate

variable {σ ι : Type}

/-- Apply a rule, and note whether it added something. -/
def applied (rule : σ → ι → Option σ) (acc : σ × Bool) (i : ι) : σ × Bool :=
  match rule acc.1 i with
  | some s => (s, true)
  | none => acc

/-- One sweep: the state, and whether a rule added something. -/
def sweep (rule : σ → ι → Option σ) (rules : List ι) (s : σ) : σ × Bool :=
  rules.foldl (applied rule) (s, false)

/-- Sweep until nothing is added, at most so many times. -/
def saturate (rule : σ → ι → Option σ) (rules : List ι) : ℕ → σ → σ
  | 0, s => s
  | n + 1, s =>
    let swept := sweep rule rules s
    if swept.2 then saturate rule rules n swept.1 else swept.1

/-- What the rules add keeps the invariant, and enlarges a measure that is bounded. -/
structure Grows (rule : σ → ι → Option σ) (rules : List ι) (Inv : σ → Prop) (measure : σ → ℕ)
    (bound : ℕ) : Prop where
  inv : ∀ {s i s'}, i ∈ rules → Inv s → rule s i = some s' → Inv s'
  lt : ∀ {s i s'}, i ∈ rules → Inv s → rule s i = some s' → measure s < measure s'
  le : ∀ {s}, Inv s → measure s ≤ bound

variable {rule : σ → ι → Option σ} {rules : List ι} {Inv : σ → Prop} {measure : σ → ℕ} {bound : ℕ}

/-- Some rules either change nothing, because none adds anything, or enlarge the measure. -/
theorem foldl_applied (h : Grows rule rules Inv measure bound) {is : List ι} (his : is ⊆ rules)
    {acc : σ × Bool} (hinv : Inv acc.1) :
    Inv (is.foldl (applied rule) acc).1 ∧
      (is.foldl (applied rule) acc = acc ∧ (∀ i ∈ is, rule acc.1 i = none) ∨
        (is.foldl (applied rule) acc).2 = true ∧
          measure acc.1 < measure (is.foldl (applied rule) acc).1) := by
  induction is generalizing acc with
  | nil => exact ⟨hinv, .inl ⟨rfl, fun i hi => absurd hi List.not_mem_nil⟩⟩
  | cons i is ih =>
    obtain ⟨hi, his⟩ := List.cons_subset.1 his
    rw [List.foldl_cons]
    -- a rule that adds nothing leaves the rest with the same state
    cases hrule : rule acc.1 i with
    | none =>
      have happlied : applied rule acc i = acc := by rw [applied, hrule]
      rw [happlied]
      obtain ⟨hlast, hsame | hgrown⟩ := @ih his acc hinv
      · exact ⟨hlast, .inl ⟨hsame.1, List.forall_mem_cons.2 ⟨hrule, hsame.2⟩⟩⟩
      · exact ⟨hlast, .inr hgrown⟩
    | some s =>
      have happlied : applied rule acc i = (s, true) := by rw [applied, hrule]
      have hlt := h.lt hi hinv hrule
      rw [happlied]
      obtain ⟨hlast, hsame | hgrown⟩ := @ih his (s, true) (h.inv hi hinv hrule)
      · refine ⟨hlast, .inr ?_⟩
        rw [hsame.1]
        exact ⟨rfl, hlt⟩
      · exact ⟨hlast, .inr ⟨hgrown.1, Nat.lt_trans hlt hgrown.2⟩⟩

/-- **A sweep that reports no change leaves a state to which no rule adds anything.** -/
theorem sweep_spec (h : Grows rule rules Inv measure bound) {s : σ} (hinv : Inv s) :
    Inv (sweep rule rules s).1 ∧
      (sweep rule rules s = (s, false) ∧ (∀ i ∈ rules, rule s i = none) ∨
        (sweep rule rules s).2 = true ∧ measure s < measure (sweep rule rules s).1) :=
  @foldl_applied _ _ _ _ _ _ _ h rules (List.Subset.refl rules) (s, false) hinv

/-- **With more sweeps than additions, no rule is left that adds anything.** -/
theorem saturate_spec (h : Grows rule rules Inv measure bound) {n : ℕ} {s : σ} (hinv : Inv s)
    (hn : bound < n + measure s) :
    Inv (saturate rule rules n s) ∧ ∀ i ∈ rules, rule (saturate rule rules n s) i = none := by
  induction n generalizing s with
  | zero =>
    have hle := h.le hinv
    omega
  | succ n ih =>
    obtain ⟨hlast, hsame | hgrown⟩ := sweep_spec h hinv
    · rw [saturate, hsame.1]
      exact ⟨hinv, hsame.2⟩
    · rw [saturate]
      simp only [hgrown.1, if_true]
      exact ih hlast (by omega)

/-! ### What saturation reaches -/

/-- What is reached from the seeds along the edges. -/
inductive Reached {α : Type} (seed : α → Prop) (edge : α → α → Prop) : α → Prop where
  | seed {a : α} (h : seed a) : Reached seed edge a
  | step {a b : α} (ha : Reached seed edge a) (h : edge a b) : Reached seed edge b

namespace Reached

variable {α : Type} {seed seed' : α → Prop} {edge edge' : α → α → Prop}

/-- A set that has the seeds and is closed under the edges has everything that is reached. -/
theorem mem_of_closed {S : Set α} (hseed : ∀ a, seed a → a ∈ S)
    (hedge : ∀ a ∈ S, ∀ b, edge a b → b ∈ S) {a : α} (h : Reached seed edge a) : a ∈ S := by
  induction h with
  | seed h => exact hseed _ h
  | step _ h ih => exact hedge _ ih _ h

/-- More seeds and more edges reach more. -/
theorem mono (hseed : ∀ a, seed a → seed' a) (hedge : ∀ a b, edge a b → edge' a b) {a : α}
    (h : Reached seed edge a) : Reached seed' edge' a := by
  induction h with
  | seed h => exact .seed (hseed _ h)
  | step _ h ih => exact .step ih (hedge _ _ h)

/-- A map that takes seeds to seeds and edges to edges takes what is reached to what is reached. -/
theorem map {β : Type} {seed' : β → Prop} {edge' : β → β → Prop} (f : α → β)
    (hseed : ∀ a, seed a → seed' (f a)) (hedge : ∀ a b, edge a b → edge' (f a) (f b)) {a : α}
    (h : Reached seed edge a) : Reached seed' edge' (f a) := by
  induction h with
  | seed h => exact .seed (hseed _ h)
  | step _ h ih => exact .step ih (hedge _ _ h)

end Reached

end Saturate
