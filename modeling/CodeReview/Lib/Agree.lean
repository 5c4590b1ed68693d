import Mathlib.Tactic.Common

/-!
# Two runs that agree

A function that may raise is run twice on inputs that differ in something that must not matter.
The runs agree when both return related values or both raise the same exception.

* `Agree.symm`, `Agree.trans` : agreement is as symmetric and as transitive as the relation;
* `Agree.bind` : runs that agree go on in agreement, when their continuations do.
-/

namespace TwoRuns

variable {ε α β : Type} {R : α → α → Prop} {S : β → β → Prop}

/-- Both return related values, or both raise the same exception. -/
inductive Agree (R : α → α → Prop) : Except ε α → Except ε α → Prop
  | ok {a b : α} : R a b → Agree R (.ok a) (.ok b)
  | error (e : ε) : Agree R (.error e) (.error e)

namespace Agree

@[simp] theorem ok_iff {a b : α} : Agree R (.ok a : Except ε α) (.ok b) ↔ R a b :=
  ⟨fun h => by cases h; assumption, .ok⟩

@[simp] theorem error_iff {e : ε} {y : Except ε α} : Agree R (.error e) y ↔ y = .error e := by
  constructor
  · intro h
    cases h
    rfl
  · rintro rfl
    exact .error e

theorem symm (hR : ∀ {a b}, R a b → R b a) {x y : Except ε α} (h : Agree R x y) : Agree R y x := by
  cases h with
  | ok h => exact .ok (hR h)
  | error e => exact .error e

theorem trans (hR : ∀ {a b c}, R a b → R b c → R a c) {x y z : Except ε α} (h : Agree R x y)
    (h' : Agree R y z) : Agree R x z := by
  cases h with
  | ok h =>
    cases h' with
    | ok h' => exact .ok (hR h h')
  | error e => exact h'

/-- **Runs that agree go on in agreement.** -/
theorem bind {x y : Except ε α} (h : Agree R x y) {f g : α → Except ε β}
    (hfg : ∀ a b, R a b → Agree S (f a) (g b)) : Agree S (x >>= f) (y >>= g) := by
  cases h with
  | ok h => exact hfg _ _ h
  | error e => exact .error e

end Agree

end TwoRuns
