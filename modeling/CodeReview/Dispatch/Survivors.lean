import CodeReview.Dispatch.Decisions
import CodeReview.Lib.Chase
import Mathlib.Data.Fintype.EquivFin

/-!
# Whether a dropped duplicate survives elsewhere

The ranker drops a duplicate with `drop` and names the finding that survives in `merge_into`.
`_apply_rank_decisions` reads the first and not the second.

* `dropped_reach_survivors_iff` : **every dropped finding leads to one that is returned exactly when
  each drop names a finding of the list and no drops form a cycle.**
-/

namespace CodeReview

open Py

variable {rt : Runtime}

/-- The positions of the findings that are returned. -/
def survivors (findings : List Dict) (decisions : Value) : List ℕ :=
  (staying findings decisions).map Prod.snd

/-- The finding of the list that the last decision for `i` merges it into. -/
def mergeTarget (n : ℕ) (decisions : Value) (i : Fin n) : Option (Fin n) :=
  (lastNaming decisions i).bind fun d => (d.get "merge_into").asInt?.bind fun j =>
    if h : 0 ≤ j ∧ j.toNat < n then some ⟨j.toNat, h.2⟩ else none

/-- One dropped finding is merged into another. -/
def DropsInto (n : ℕ) (decisions : Value) (i j : Fin n) : Prop :=
  Dropped decisions i ∧ Dropped decisions j ∧ mergeTarget n decisions i = some j

instance (n : ℕ) (decisions : Value) (i j : Fin n) : Decidable (DropsInto n decisions i j) :=
  inferInstanceAs (Decidable (_ ∧ _ ∧ _))

theorem mem_survivors {findings : List Dict} {decisions : Value} {i : Fin findings.length} :
    (i : ℕ) ∈ survivors findings decisions ↔ ¬ Dropped decisions i := by
  rw [survivors, List.mem_map]
  constructor
  · rintro ⟨⟨f, j⟩, hmem, rfl⟩
    exact (mem_staying.1 hmem).2
  · exact fun h => ⟨(findings[i], i), mem_staying.2 ⟨List.getElem?_eq_getElem i.2, h⟩, rfl⟩

/-- **Which duplicates are dropped safely.** -/
theorem dropped_reach_survivors_iff (rt : Runtime) {findings : List Dict} {decisions : Value}
    {args : Dict} {r : Ranked} (h : applyRankDecisions rt findings decisions args = .ok r) :
    List.Forall₂ (Rescored rt decisions) (staying findings decisions) r.findings ∧
      ((∀ i : Fin findings.length, (i : ℕ) ∉ survivors findings decisions →
          Chase.Reaches (mergeTarget _ decisions) (fun j => (j : ℕ) ∈ survivors findings decisions)
            i) ↔
        (∀ i : Fin findings.length, Dropped decisions i → (mergeTarget _ decisions i).isSome) ∧
          ∀ i, ¬ Relation.TransGen (DropsInto findings.length decisions) i i) := by
  refine ⟨(faithful_of_ok h).kept, Chase.forall_reaches_iff.trans ?_⟩
  have hhop : Chase.Hop (mergeTarget findings.length decisions)
      (fun j => (j : ℕ) ∈ survivors findings decisions) = DropsInto findings.length decisions := by
    funext i j
    simp only [Chase.Hop, DropsInto, mem_survivors, not_not]
  rw [hhop]
  simp only [mem_survivors, not_not]

/-- A decision that drops a finding. -/
def dropInto (i j : ℤ) : Value :=
  .dict [("i", .int i), ("defect_confidence", .float (.fin (1 / 5))), ("primary", .bool false),
    ("drop", .bool true), ("merge_into", .int j)]

theorem dropped_reach_survivors_iff_pair : ∃ r, applyRankDecisions Runtime.ascii
      [[("title", .str "Race")], [("title", .str "Race again")]] (.list [dropInto 1 0]) [] = .ok r ∧
    r.findings.length = 1 ∧
    Chase.Reaches (mergeTarget 2 (.list [dropInto 1 0]))
      (fun j => (j : ℕ) ∈ survivors [[("title", .str "Race")], [("title", .str "Race again")]]
        (.list [dropInto 1 0])) 1 := by
  obtain ⟨r, hr⟩ : Result.Ok (applyRankDecisions Runtime.ascii
      [[("title", .str "Race")], [("title", .str "Race again")]] (.list [dropInto 1 0]) []) :=
    ⟨_, rfl⟩
  obtain ⟨hkept, hiff⟩ := dropped_reach_survivors_iff Runtime.ascii hr
  refine ⟨r, hr, hkept.length_eq.symm, hiff.2 ⟨by decide, fun i hcycle => ?_⟩ 1 (by decide)⟩
  -- only 1 is dropped, and it is merged into 0
  have hhop : ∀ i k : Fin 2, ¬ DropsInto 2 (.list [dropInto 1 0]) i k := by decide
  obtain ⟨k, hk, -⟩ := Relation.TransGen.head'_iff.1 hcycle
  exact hhop i k hk

/-- **Two findings that are dropped into each other are both lost.** -/
theorem mutual_drop_loses_both :
    (∃ r, applyRankDecisions Runtime.ascii
        [[("title", .str "Race")], [("title", .str "Race again")]]
        (.list [dropInto 0 1, dropInto 1 0]) [] = .ok r ∧ r.findings = []) ∧
      ¬ Chase.Reaches (mergeTarget 2 (.list [dropInto 0 1, dropInto 1 0]))
        (fun j => (j : ℕ) ∈ survivors [[("title", .str "Race")], [("title", .str "Race again")]]
          (.list [dropInto 0 1, dropInto 1 0])) 0 := by
  refine ⟨⟨_, rfl, rfl⟩, ?_⟩
  intro h
  obtain ⟨j, -, hj⟩ := h
  revert j
  decide

end CodeReview
