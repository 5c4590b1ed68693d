import Mathlib.Data.List.Nodup
import Mathlib.Data.List.Perm.Lattice
import Mathlib.Data.List.Perm.Subperm
import Mathlib.Logic.Relation
import Mathlib.Tactic.Common

/-!
# Traversals

A traversal keeps a stack of nodes to expand and the nodes it has seen.  Expanding a node lists
nodes, which are pushed unless they were seen, and results, which are collected.

* `loop_ends` : **a traversal of finitely many nodes ends, and expands every node that can be
  reached once**, whatever the cycles;
* `reaches_congr` : the order of the listings does not matter for it.
-/

namespace Traverse

variable {ν ρ σ : Type}

/-- The nodes of a listing. -/
def nodesOf (items : List (ν ⊕ ρ)) : List ν := items.filterMap Sum.getLeft?

/-- The results of a listing. -/
def resultsOf (items : List (ν ⊕ ρ)) : List ρ := items.filterMap Sum.getRight?

@[simp] theorem resultsOf_node (n : ν) (items : List (ν ⊕ ρ)) :
    resultsOf (.inl n :: items) = resultsOf items := rfl

@[simp] theorem resultsOf_result (r : ρ) (items : List (ν ⊕ ρ)) :
    resultsOf (.inr r :: items) = r :: resultsOf items := rfl

@[simp] theorem nodesOf_node (n : ν) (items : List (ν ⊕ ρ)) :
    nodesOf (.inl n :: items) = n :: nodesOf items := rfl

@[simp] theorem nodesOf_result (r : ρ) (items : List (ν ⊕ ρ)) :
    nodesOf (.inr r :: items) = nodesOf items := rfl

/-- One node is listed by the other. -/
def Lists (expand : ν → List (ν ⊕ ρ)) (n m : ν) : Prop := m ∈ nodesOf (expand n)

/-- The node can be reached. -/
def Reaches (expand : ν → List (ν ⊕ ρ)) : ν → ν → Prop := Relation.ReflTransGen (Lists expand)

/-- The nodes seen, those still to expand, and the results so far. -/
structure State (ν ρ : Type) where
  visited : List ν
  stack : List ν
  found : List ρ

/-- The start at a node. -/
def State.start (root : ν) : State ν ρ := ⟨[root], [root], []⟩

/-! ### The invariant -/

variable {expand : ν → List (ν ⊕ ρ)} {root : ν}

/-- The invariant of the loop, after the nodes of `order` were expanded. -/
structure Invariant (expand : ν → List (ν ⊕ ρ)) (root : ν) (order : List ν) (s : State ν ρ) :
    Prop where
  perm : s.visited.Perm (order ++ s.stack)
  nodup : s.visited.Nodup
  rooted : root ∈ s.visited
  reached : ∀ n ∈ s.visited, Reaches expand root n
  closed : ∀ n ∈ order, ∀ m ∈ nodesOf (expand n), m ∈ s.visited
  found : s.found = order.flatMap fun n => resultsOf (expand n)

theorem Invariant.start : Invariant expand root [] (.start root) where
  perm := List.Perm.refl _
  nodup := List.nodup_singleton root
  rooted := List.mem_singleton_self root
  reached n hn := by
    rw [List.mem_singleton.1 hn]
    exact .refl
  closed := nofun
  found := rfl

/-- At its end the loop has expanded every node that can be reached. -/
theorem Invariant.mem_iff {order : List ν} {s : State ν ρ} (h : Invariant expand root order s)
    (hstack : s.stack = []) {n : ν} : n ∈ order ↔ Reaches expand root n := by
  have hmem (m : ν) : m ∈ s.visited ↔ m ∈ order := by
    rw [h.perm.mem_iff, hstack, List.append_nil]
  constructor
  · exact fun hn => h.reached n ((hmem n).2 hn)
  · intro hn
    induction hn with
    | refl => exact (hmem root).1 h.rooted
    | tail _ hlist ih => exact (hmem _).1 (h.closed _ ih _ hlist)

/-! ### The loop -/

section

variable [DecidableEq ν]

/-- One item of a listing. -/
def State.push (s : State ν ρ) : ν ⊕ ρ → State ν ρ
  | .inl n =>
    if n ∈ s.visited then s
    else { s with visited := n :: s.visited, stack := n :: s.stack }
  | .inr r => { s with found := s.found ++ [r] }

/-- The loop; `none` when it has not come to an end. -/
def loop (expand : ν → List (ν ⊕ ρ)) (fuel : ℕ) (s : State ν ρ) : Option (State ν ρ) :=
  match s.stack, fuel with
  | [], _ => some s
  | _ :: _, 0 => none
  | n :: stack, fuel + 1 => loop expand fuel ((expand n).foldl State.push { s with stack })

/-- The results of a traversal. -/
def traverse (expand : ν → List (ν ⊕ ρ)) (fuel : ℕ) (root : ν) : Option (List ρ) :=
  (loop expand fuel (.start root)).map State.found

/-! ### One listing -/

/-- What a listing pushes and finds. -/
theorem foldl_push (items : List (ν ⊕ ρ)) (s : State ν ρ) :
    ∃ fresh, items.foldl State.push s =
        ⟨fresh ++ s.visited, fresh ++ s.stack, s.found ++ resultsOf items⟩ ∧
      (s.visited.Nodup → (fresh ++ s.visited).Nodup) ∧
      (∀ n ∈ fresh, n ∈ nodesOf items) ∧ ∀ n ∈ nodesOf items, n ∈ fresh ++ s.visited := by
  induction items generalizing s with
  | nil => exact ⟨[], by simp [resultsOf], id, nofun, nofun⟩
  | cons item items ih =>
    rw [List.foldl_cons]
    cases item with
    | inr r =>
      obtain ⟨fresh, heq, hnodup, hfresh, hall⟩ := ih { s with found := s.found ++ [r] }
      refine ⟨fresh, ?_, hnodup, hfresh, hall⟩
      rw [State.push, heq, resultsOf_result, List.append_assoc, List.singleton_append]
    | inl n =>
      rw [State.push]
      split_ifs with hseen
      · obtain ⟨fresh, heq, hnodup, hfresh, hall⟩ := ih s
        refine ⟨fresh, ?_, hnodup, fun m hm => List.mem_cons_of_mem _ (hfresh m hm), ?_⟩
        · rw [heq, resultsOf_node]
        · intro m hm
          rcases List.mem_cons.1 hm with rfl | hm
          · exact List.mem_append_right _ hseen
          · exact hall m hm
      · obtain ⟨fresh, heq, hnodup, hfresh, hall⟩ :=
          ih { s with visited := n :: s.visited, stack := n :: s.stack }
        refine ⟨fresh ++ [n], ?_, fun h => ?_, ?_, ?_⟩
        · rw [heq, resultsOf_node]
          simp only [List.append_assoc, List.singleton_append]
        · rw [List.append_assoc, List.singleton_append]
          exact hnodup (List.nodup_cons.2 ⟨hseen, h⟩)
        · intro m hm
          rcases List.mem_append.1 hm with hm | hm
          · exact List.mem_cons_of_mem _ (hfresh m hm)
          · rw [List.mem_singleton.1 hm]
            exact List.mem_cons_self
        · intro m hm
          rw [List.append_assoc, List.singleton_append]
          rcases List.mem_cons.1 hm with rfl | hm
          · exact List.mem_append_right _ List.mem_cons_self
          · exact hall m hm

/-- Expanding the next node keeps it. -/
theorem Invariant.step {order stack : List ν} {s : State ν ρ} {n : ν}
    (h : Invariant expand root order s) (hstack : s.stack = n :: stack) :
    Invariant expand root (order ++ [n]) ((expand n).foldl State.push { s with stack }) := by
  obtain ⟨fresh, heq, hnodup, hfresh, hall⟩ := foldl_push (expand n) { s with stack }
  have hn : n ∈ s.visited := h.perm.mem_iff.2 (by simp [hstack])
  rw [heq]
  refine ⟨?_, hnodup h.nodup, List.mem_append_right _ h.rooted, fun m hm => ?_, fun m hm k hk => ?_,
    ?_⟩
  · have hperm := h.perm
    rw [hstack] at hperm
    calc (fresh ++ s.visited).Perm (fresh ++ (order ++ n :: stack)) := hperm.append_left fresh
      _ = fresh ++ ((order ++ [n]) ++ stack) := by simp
      List.Perm _ ((order ++ [n]) ++ (fresh ++ stack)) := List.perm_append_comm_assoc ..
  · rcases List.mem_append.1 hm with hm | hm
    · exact (h.reached n hn).tail (hfresh m hm)
    · exact h.reached m hm
  · rcases List.mem_append.1 hm with hm | hm
    · exact List.mem_append_right _ (h.closed m hm k hk)
    · rw [List.mem_singleton.1 hm] at hk
      exact hall k hk
  · rw [h.found, List.flatMap_append, List.flatMap_singleton]

theorem loop_nil (fuel : ℕ) {s : State ν ρ} (h : s.stack = []) : loop expand fuel s = some s := by
  unfold loop
  rw [h]

theorem loop_cons (fuel : ℕ) {s : State ν ρ} {n : ν} {stack : List ν} (h : s.stack = n :: stack) :
    loop expand (fuel + 1) s =
      loop expand fuel ((expand n).foldl State.push { s with stack }) := by
  conv_lhs => unfold loop
  rw [h]

/-- **The loop ends** when there is a step for every node of a list that has those that can be
reached. -/
theorem loop_ends {nodes : List ν} (hnodes : ∀ n, Reaches expand root n → n ∈ nodes) {fuel : ℕ}
    {order : List ν} {s : State ν ρ} (h : Invariant expand root order s)
    (hfuel : nodes.length ≤ order.length + fuel) :
    ∃ order' s', loop expand fuel s = some s' ∧ s'.stack = [] ∧
      Invariant expand root order' s' := by
  induction fuel generalizing order s with
  | zero =>
    cases hstack : s.stack with
    | nil => exact ⟨order, s, loop_nil 0 hstack, hstack, h⟩
    | cons n stack =>
      -- more nodes than there are would have been seen
      have hsub : s.visited ⊆ nodes := fun m hm => hnodes m (h.reached m hm)
      have hlength := (h.nodup.subperm hsub).length_le
      rw [h.perm.length_eq, hstack, List.length_append, List.length_cons] at hlength
      omega
  | succ fuel ih =>
    cases hstack : s.stack with
    | nil => exact ⟨order, s, loop_nil _ hstack, hstack, h⟩
    | cons n stack =>
      rw [loop_cons fuel hstack]
      refine ih (h.step hstack) ?_
      rw [List.length_append, List.length_singleton]
      omega

/-- **A traversal expands every node that can be reached, once.** -/
theorem traverse_spec {nodes : List ν} (hnodes : ∀ n, Reaches expand root n → n ∈ nodes) {fuel : ℕ}
    (hfuel : nodes.length ≤ fuel) :
    ∃ order : List ν, order.Nodup ∧ (∀ n, n ∈ order ↔ Reaches expand root n) ∧
      traverse expand fuel root = some (order.flatMap fun n => resultsOf (expand n)) := by
  have hstart : Invariant expand root [] (.start root) := .start
  have hlength : nodes.length ≤ ([] : List ν).length + fuel := by
    rw [List.length_nil, Nat.zero_add]
    exact hfuel
  obtain ⟨order, s, hloop, hstack, h⟩ := loop_ends hnodes hstart hlength
  refine ⟨order, ?_, fun n => h.mem_iff hstack, ?_⟩
  · have hnodup := h.perm.nodup_iff.1 h.nodup
    rw [hstack, List.append_nil] at hnodup
    exact hnodup
  · rw [traverse, hloop, ← h.found]
    rfl

end

/-! ### The order of the listings -/

/-- Listings with the same items reach the same nodes. -/
theorem reaches_congr {expand expand' : ν → List (ν ⊕ ρ)} (h : ∀ n, (expand n).Perm (expand' n))
    (root n : ν) : Reaches expand root n ↔ Reaches expand' root n := by
  have hlists : Lists expand = Lists expand' :=
    funext fun n => funext fun m => propext ((h n).filterMap Sum.getLeft?).mem_iff
  rw [Reaches, Reaches, hlists]

end Traverse
