import Mathlib.Data.Fintype.Card
import Mathlib.Logic.Relation
import Mathlib.Tactic.Common

/-!
# Following pointers

Every node has at most one pointer, and some nodes are goals.

* `Reaches` : following the pointers from a node, for one step or more, leads to a goal;
* `forall_reaches_iff` : **over finitely many nodes each one that is no goal reaches one exactly
  when all of them have a pointer and none lies on a cycle of others.**
-/

namespace Chase

variable {ι : Type} {next : ι → Option ι} {goal : ι → Prop}

/-- The pointer of `i` leads to `j`. -/
def Points (next : ι → Option ι) (i j : ι) : Prop := next i = some j

/-- Following the pointers from `i` leads to a goal. -/
def Reaches (next : ι → Option ι) (goal : ι → Prop) (i : ι) : Prop :=
  ∃ j, Relation.TransGen (Points next) i j ∧ goal j

/-- A pointer between two nodes that are no goals. -/
def Hop (next : ι → Option ι) (goal : ι → Prop) (i j : ι) : Prop :=
  ¬ goal i ∧ ¬ goal j ∧ next i = some j

theorem Reaches.isSome {i : ι} (h : Reaches next goal i) : (next i).isSome := by
  obtain ⟨j, hchain, -⟩ := h
  obtain ⟨k, hk, -⟩ := Relation.TransGen.head'_iff.1 hchain
  rw [show next i = some k from hk]
  rfl

/-- The pointer of a node on a cycle of hops stays on the cycle. -/
theorem cycle_of_points {i j : ι} (hcycle : Relation.TransGen (Hop next goal) i i)
    (h : Points next i j) : Relation.TransGen (Hop next goal) j j := by
  obtain ⟨k, hk, hback⟩ := Relation.TransGen.head'_iff.1 hcycle
  obtain rfl : k = j := Option.some.inj (hk.2.2.symm.trans h)
  exact .tail' hback hk

theorem cycle_of_chain {i j : ι} (hcycle : Relation.TransGen (Hop next goal) i i)
    (h : Relation.TransGen (Points next) i j) : Relation.TransGen (Hop next goal) j j := by
  induction h with
  | single hij => exact cycle_of_points hcycle hij
  | tail _ hjk ih => exact cycle_of_points ih hjk

theorem not_cycle_of_reaches {i : ι} (h : Reaches next goal i) :
    ¬ Relation.TransGen (Hop next goal) i i := by
  obtain ⟨j, hchain, hgoal⟩ := h
  intro hcycle
  obtain ⟨k, hk, -⟩ := Relation.TransGen.head'_iff.1 (cycle_of_chain hcycle hchain)
  exact hk.1 hgoal

/-- Without a cycle the hops come to an end. -/
theorem wellFounded_hop [Finite ι] (h : ∀ i, ¬ Relation.TransGen (Hop next goal) i i) :
    WellFounded (fun i j => Hop next goal j i) := by
  have hwf : WellFounded (fun i j => Relation.TransGen (Hop next goal) j i) := by
    have : IsTrans ι fun i j => Relation.TransGen (Hop next goal) j i :=
      ⟨fun _ _ _ hij hjk => hjk.trans hij⟩
    have : Std.Irrefl fun i j => Relation.TransGen (Hop next goal) j i := ⟨h⟩
    exact Finite.wellFounded_of_trans_of_irrefl _
  exact Subrelation.wf (fun hij => Relation.TransGen.single hij) hwf

/-- **When every node that is no goal reaches one.** -/
theorem forall_reaches_iff [Finite ι] :
    (∀ i, ¬ goal i → Reaches next goal i) ↔
      (∀ i, ¬ goal i → (next i).isSome) ∧ ∀ i, ¬ Relation.TransGen (Hop next goal) i i := by
  constructor
  · intro h
    refine ⟨fun i hi => (h i hi).isSome, ?_⟩
    intro i hcycle
    obtain ⟨k, hk, -⟩ := Relation.TransGen.head'_iff.1 hcycle
    exact not_cycle_of_reaches (h i hk.1) hcycle
  · rintro ⟨hnext, hacyclic⟩ i
    -- induction along the hops, which come to an end
    induction i using (wellFounded_hop hacyclic).induction with
    | h i ih =>
      intro hi
      obtain ⟨j, hj⟩ := Option.isSome_iff_exists.1 (hnext i hi)
      by_cases hgoal : goal j
      · exact ⟨j, .single hj, hgoal⟩
      · obtain ⟨k, hchain, hk⟩ := ih j ⟨hi, hgoal, hj⟩ hgoal
        exact ⟨k, .head hj hchain, hk⟩

end Chase
