import Mathlib.Logic.Function.Basic
import Mathlib.Logic.Relation
import Mathlib.Tactic.Common
import Mathlib.Tactic.SplitIfs

/-!
# Union-find with path halving

A disjoint-set forest over the natural numbers, kept as its parent function.  Every chain of
parents ends in a root after at most as many steps as unions were made; the structure carries this
as a field, so following a chain is a total function.

* `find_isRoot` : the answer of `find` is a root;
* `root_find` : `find` shortens chains and changes no root;
* `root_union` : **a union sends one class to the root of the other and changes nothing else;**
* `root_foldl_eq_iff` : **a loop of unions computes the connected components of its pairs.**
-/

namespace UnionFind

/-- The chain of `x` ends in the root `r` after at most `k` steps. -/
inductive RootIn (p : ℕ → ℕ) : ℕ → ℕ → ℕ → Prop where
  | root {k r : ℕ} (h : p r = r) : RootIn p k r r
  | step {k x r : ℕ} (h : p x ≠ x) (hr : RootIn p k (p x) r) : RootIn p (k + 1) x r

namespace RootIn

variable {p : ℕ → ℕ} {k x r s : ℕ}

theorem isRoot (h : RootIn p k x r) : p r = r := by
  induction h with
  | root h => exact h
  | step _ _ ih => exact ih

theorem mono {l : ℕ} (h : RootIn p k x r) (hl : k ≤ l) : RootIn p l x r := by
  induction h generalizing l with
  | root h => exact .root h
  | step hx _ ih =>
    obtain ⟨l, rfl⟩ := Nat.exists_eq_add_of_le' (Nat.one_le_of_lt hl)
    exact .step hx (ih (by omega))

theorem unique {l : ℕ} (h : RootIn p k x r) (h' : RootIn p l x s) : r = s := by
  induction h generalizing l with
  | root h =>
    cases h' with
    | root _ => rfl
    | step hx _ => exact absurd h hx
  | step hx _ ih =>
    cases h' with
    | root h => exact absurd h hx
    | step _ hr => exact ih hr

theorem eq_of_root (h : RootIn p k x r) (hx : p x = x) : x = r :=
  (RootIn.root (k := 0) hx).unique h

/-- The chain of the parent is shorter by one. -/
theorem tail (h : RootIn p (k + 1) x r) (hx : p x ≠ x) : RootIn p k (p x) r := by
  cases h with
  | root h => exact absurd h hx
  | step _ hr => exact hr

/-- Halving: pointing `x` at its grandparent lengthens no chain and keeps every root. -/
theorem halve (h : RootIn p k x r) (y : ℕ) (hy : p y ≠ y) :
    RootIn (Function.update p y (p (p y))) k x r := by
  induction h with
  | @root k r hr =>
    have hry : r ≠ y := by rintro rfl; exact hy hr
    exact .root (by rw [Function.update_of_ne hry, hr])
  | @step k x r hx hr ih =>
    by_cases hxy : x = y
    · subst hxy
      have hself : Function.update p x (p (p x)) x = p (p x) := Function.update_self ..
      have hpar : Function.update p x (p (p x)) (p x) = p (p x) := Function.update_of_ne hx ..
      generalize Function.update p x (p (p x)) = p' at ih hself hpar ⊢
      by_cases hroot : p (p x) = p x
      · -- the parent is the root: `x` keeps pointing at it
        exact .step (by rwa [hself, hroot]) (by rwa [hself, hroot])
      · cases k with
        | zero =>
          cases hr with
          | root hp => exact absurd hp hroot
        | succ k =>
          have hgrand : RootIn p' k (p (p x)) r := by
            have htail := ih.tail (by rwa [hpar])
            rwa [hpar] at htail
          -- the grandparent may be `x` itself, whose chain is then already found
          by_cases hcycle : p (p x) = x
          · rw [hcycle] at hgrand
            exact hgrand.mono (by omega)
          · refine .step (by rwa [hself]) ?_
            rw [hself]
            exact hgrand.mono (by omega)
    · have hux : Function.update p y (p (p y)) x = p x := Function.update_of_ne hxy ..
      exact .step (by rwa [hux]) (hux ▸ ih)

/-- Linking: below a root that is pointed at another root every chain grows by one step. -/
theorem link (h : RootIn p k x r) {a b : ℕ} (ha : p a = a) (hb : p b = b) :
    RootIn (Function.update p a b) (k + 1) x (if r = a then b else r) := by
  by_cases hab : a = b
  · subst hab
    rw [Function.update_eq_self_iff.2 ha.symm]
    split_ifs with hr
    · exact (hr ▸ h).mono (by omega)
    · exact h.mono (by omega)
  · induction h with
    | @root k r h =>
      split_ifs with hr
      · subst hr
        have hb' : Function.update p r b b = b := by rw [Function.update_of_ne (Ne.symm hab), hb]
        refine .step (by rw [Function.update_self]; exact Ne.symm hab) ?_
        rw [Function.update_self]
        exact .root hb'
      · exact .root (by rw [Function.update_of_ne hr, h])
    | @step k x r hx hr ih =>
      have hxa : x ≠ a := fun e => hx (e ▸ ha)
      have hux : Function.update p a b x = p x := Function.update_of_ne hxa ..
      exact .step (by rwa [hux]) (hux ▸ ih)

end RootIn

/-- Follow parents from `x`, pointing each node passed at its grandparent. -/
def findLoop : ℕ → (ℕ → ℕ) → ℕ → ℕ × (ℕ → ℕ)
  | 0, p, x => (x, p)
  | k + 1, p, x =>
    if p x = x then (x, p)
    else
      let p' := Function.update p x (p (p x))
      findLoop k p' (p' x)

theorem findLoop_spec {k x r : ℕ} {p : ℕ → ℕ} (h : RootIn p k x r) :
    (findLoop k p x).1 = r ∧
      ∀ l y s, RootIn p l y s → RootIn (findLoop k p x).2 l y s := by
  induction k generalizing p x with
  | zero =>
    cases h with
    | root _ => exact ⟨rfl, fun _ _ _ h => h⟩
  | succ k ih =>
    rw [findLoop]
    split_ifs with hx
    · exact ⟨h.eq_of_root hx, fun _ _ _ h => h⟩
    · have htail : RootIn p k (p (p x)) r := by
        have hp := h.tail hx
        by_cases hroot : p (p x) = p x
        · rwa [hroot]
        · cases hp with
          | root hp => exact absurd hp hroot
          | step _ hr => exact hr.mono (by omega)
      obtain ⟨hr, hkeep⟩ := ih (p := Function.update p x (p (p x))) (x := p (p x))
        (htail.halve x hx)
      simp only [Function.update_self]
      exact ⟨hr, fun l y s hy => hkeep l y s (hy.halve x hx)⟩

end UnionFind

/-- A disjoint-set forest. -/
structure UnionFind where
  /-- The parent of every node; a root is its own parent. -/
  parent : ℕ → ℕ
  /-- The number of unions made. -/
  unions : ℕ
  /-- No chain is longer than the number of unions. -/
  rooted : ∀ x, ∃ r, UnionFind.RootIn parent unions x r

namespace UnionFind

/-- Every node is a root. -/
def singletons : UnionFind := ⟨id, 0, fun _ => ⟨_, .root rfl⟩⟩

/-- The root of `x`, and the forest with the chain of `x` halved. -/
def find (u : UnionFind) (x : ℕ) : ℕ × UnionFind :=
  ((findLoop u.unions u.parent x).1,
    { parent := (findLoop u.unions u.parent x).2
      unions := u.unions
      rooted := fun y =>
        let ⟨_, hx⟩ := u.rooted x
        let ⟨s, hy⟩ := u.rooted y
        ⟨s, (findLoop_spec hx).2 _ _ _ hy⟩ })

/-- The root of `x`. -/
def root (u : UnionFind) (x : ℕ) : ℕ := (u.find x).1

theorem rootIn_root (u : UnionFind) (x : ℕ) : RootIn u.parent u.unions x (u.root x) := by
  obtain ⟨r, hr⟩ := u.rooted x
  have : u.root x = r := (findLoop_spec hr).1
  rwa [this]

theorem root_eq_of_rootIn {u : UnionFind} {k x r : ℕ} (h : RootIn u.parent k x r) :
    u.root x = r := (u.rootIn_root x).unique h

/-- The answer of `find` is a root. -/
theorem find_isRoot (u : UnionFind) (x : ℕ) : u.parent (u.root x) = u.root x :=
  (u.rootIn_root x).isRoot

@[simp] theorem root_singletons (x : ℕ) : singletons.root x = x :=
  root_eq_of_rootIn (k := 0) (.root rfl)

@[simp] theorem root_root (u : UnionFind) (x : ℕ) : u.root (u.root x) = u.root x :=
  root_eq_of_rootIn (k := 0) (.root (u.find_isRoot x))

/-- `find` changes no root. -/
@[simp] theorem root_find (u : UnionFind) (x y : ℕ) : (u.find x).2.root y = u.root y :=
  root_eq_of_rootIn ((findLoop_spec (u.rootIn_root x)).2 _ _ _ (u.rootIn_root y))

/-- Point the root of `i` at the root of `j`: the right-hand side is searched first. -/
def union (u : UnionFind) (i j : ℕ) : UnionFind :=
  let fj := u.find j
  let fi := fj.2.find i
  { parent := Function.update fi.2.parent fi.1 fj.1
    unions := u.unions + 1
    rooted := fun x => by
      have hroot : ∀ y, fi.2.parent (u.root y) = u.root y := fun y => by
        have hy := fi.2.find_isRoot y
        simpa only [fi, fj, root_find] using hy
      have hi : fi.1 = u.root i := root_find u j i
      exact ⟨_, (fi.2.rootIn_root x).link (hi ▸ hroot i) (hroot j)⟩ }

/-- **A union moves the class of `i` to the root of `j` and nothing else.** -/
theorem root_union (u : UnionFind) (i j x : ℕ) :
    (u.union i j).root x = if u.root x = u.root i then u.root j else u.root x := by
  have hp : ∀ y, ((u.find j).2.find i).2.root y = u.root y := fun y => by simp
  have hroot : ∀ y, ((u.find j).2.find i).2.parent (u.root y) = u.root y := fun y => by
    have h := ((u.find j).2.find i).2.find_isRoot y
    rwa [hp] at h
  have hi : ((u.find j).2.find i).1 = u.root i := root_find u j i
  have h := (((u.find j).2.find i).2.rootIn_root x).link (hroot i) (hroot j)
  rw [hp, ← hi] at h
  rw [← hi]
  exact root_eq_of_rootIn (u := u.union i j) h

/-- Nodes of one class have one label. -/
def Respects {α : Type} (u : UnionFind) (label : ℕ → α) : Prop := ∀ x, label (u.root x) = label x

theorem respects_singletons {α : Type} (label : ℕ → α) : singletons.Respects label :=
  fun x => by rw [root_singletons]

/-- Unions of nodes with one label keep the classes uniform. -/
theorem Respects.union {α : Type} {u : UnionFind} {label : ℕ → α} (h : u.Respects label)
    {i j : ℕ} (hij : label i = label j) : (u.union i j).Respects label := by
  intro x
  rw [root_union]
  split_ifs with hroot
  · calc label (u.root j) = label i := (h j).trans hij.symm
      _ = label (u.root x) := by rw [hroot, h i]
      _ = label x := h x
  · exact h x

/-- A loop that unites nodes of one label only. -/
theorem Respects.foldl {α : Type} {label : ℕ → α} {test : ℕ × ℕ → Bool} {ps : List (ℕ × ℕ)}
    (h : ∀ p ∈ ps, test p → label p.1 = label p.2) {u : UnionFind} (hu : u.Respects label) :
    (ps.foldl (fun u p => if test p then u.union p.1 p.2 else u) u).Respects label := by
  induction ps generalizing u with
  | nil => exact hu
  | cons p ps ih =>
    refine ih (fun q hq => h q (List.mem_cons_of_mem _ hq)) ?_
    show (if test p then u.union p.1 p.2 else u).Respects label
    split_ifs with hp
    · exact hu.union (h p List.mem_cons_self hp)
    · exact hu

/-! ### Connected components -/

/-- The pairs that a loop unites. -/
def Edge (test : ℕ × ℕ → Bool) (ps : List (ℕ × ℕ)) (i j : ℕ) : Prop := (i, j) ∈ ps ∧ test (i, j)

/-- Unions never part what has one root. -/
theorem root_union_congr (u : UnionFind) (i j : ℕ) {x y : ℕ} (h : u.root x = u.root y) :
    (u.union i j).root x = (u.union i j).root y := by rw [root_union, root_union, h]

theorem root_foldl_congr {test : ℕ × ℕ → Bool} (ps : List (ℕ × ℕ)) {u : UnionFind} {x y : ℕ}
    (h : u.root x = u.root y) :
    (ps.foldl (fun u p => if test p then u.union p.1 p.2 else u) u).root x =
      (ps.foldl (fun u p => if test p then u.union p.1 p.2 else u) u).root y := by
  induction ps generalizing u with
  | nil => exact h
  | cons p ps ih =>
    refine ih ?_
    show (if test p then u.union p.1 p.2 else u).root x =
      (if test p then u.union p.1 p.2 else u).root y
    split_ifs
    · exact u.root_union_congr p.1 p.2 h
    · exact h

theorem root_foldl_of_edge {test : ℕ × ℕ → Bool} {ps : List (ℕ × ℕ)} {i j : ℕ}
    (h : Edge test ps i j) (u : UnionFind) :
    (ps.foldl (fun u p => if test p then u.union p.1 p.2 else u) u).root i =
      (ps.foldl (fun u p => if test p then u.union p.1 p.2 else u) u).root j := by
  obtain ⟨hmem, htest⟩ := h
  obtain ⟨before, after, rfl⟩ := List.append_of_mem hmem
  rw [List.foldl_append, List.foldl_cons, if_pos htest]
  refine root_foldl_congr after ?_
  rw [root_union, root_union, if_pos rfl, ite_self]

/-- **After a loop of unions two nodes have one root exactly when its pairs connect them.** -/
theorem root_foldl_eq_iff (test : ℕ × ℕ → Bool) (ps : List (ℕ × ℕ)) (x y : ℕ) :
    (ps.foldl (fun u p => if test p then u.union p.1 p.2 else u) singletons).root x =
        (ps.foldl (fun u p => if test p then u.union p.1 p.2 else u) singletons).root y ↔
      Relation.EqvGen (Edge test ps) x y := by
  constructor
  · intro h
    -- the component of a node is a label that every union of the loop respects
    have hlabel : (ps.foldl (fun u p => if test p then u.union p.1 p.2 else u)
        singletons).Respects (Quot.mk (Edge test ps)) :=
      Respects.foldl (fun p hp ht => Quot.sound ⟨hp, ht⟩) (respects_singletons _)
    exact Quot.eqvGen_exact (by rw [← hlabel x, h, hlabel y])
  · intro h
    induction h with
    | rel _ _ h => exact root_foldl_of_edge h singletons
    | refl => rfl
    | symm _ _ _ ih => exact ih.symm
    | trans _ _ _ _ _ ih ih' => exact ih.trans ih'

end UnionFind
