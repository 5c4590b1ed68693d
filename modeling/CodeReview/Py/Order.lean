import CodeReview.Py.Value
import Mathlib.Data.List.Sort
import Mathlib.Data.List.Dedup

/-!
# Sorting

`sorted` is stable, and raises when it meets two elements that cannot be compared.  Two elements
that end up next to each other have been compared, so the outcome is the same as that of comparing
every pair first, which is how `sorted?` is written.

* `sorted?_ok` : over a class of comparable elements `sorted?` returns, and `mem_of_sorted?` says
  that it keeps the elements;
* `sortedSet` is `sorted(...)` of a set of strings.
-/

namespace Py

variable {α : Type} {lt? : α → α → Result Bool}

/-- Compare every element with every later one. -/
def comparePairs (lt? : α → α → Result Bool) : List α → Result Unit
  | [] => .ok ()
  | x :: xs => do
    let _ ← xs.mapM (lt? · x)
    comparePairs lt? xs

/-- `sorted(xs)`: `a` stays before `b` unless `b < a`. -/
def sorted? (lt? : α → α → Result Bool) (xs : List α) : Result (List α) := do
  comparePairs lt? xs
  return xs.insertionSort fun a b => lt? b a ≠ .ok true

theorem comparePairs_ok {xs : List α} (h : ∀ x ∈ xs, ∀ y ∈ xs, Result.Ok (lt? x y)) :
    comparePairs lt? xs = .ok () := by
  induction xs with
  | nil => rfl
  | cons x xs ih =>
    obtain ⟨bs, hbs⟩ := Result.mapM_ok (f := (lt? · x)) fun y hy =>
      h y (List.mem_cons_of_mem _ hy) x List.mem_cons_self
    rw [comparePairs, hbs, Result.ok_bind]
    exact ih fun y hy z hz => h y (List.mem_cons_of_mem _ hy) z (List.mem_cons_of_mem _ hz)

/-- Elements that can all be compared are sorted without raising. -/
theorem sorted?_ok {xs : List α} (h : ∀ x ∈ xs, ∀ y ∈ xs, Result.Ok (lt? x y)) :
    sorted? lt? xs = .ok (xs.insertionSort fun a b => lt? b a ≠ .ok true) := by
  rw [sorted?, comparePairs_ok h]; rfl

theorem perm_of_sorted? {xs ys : List α} (h : sorted? lt? xs = .ok ys) : ys.Perm xs := by
  obtain ⟨-, -, h⟩ := Result.bind_eq_ok.1 h
  simp only [Result.pure_eq_ok, Except.ok.injEq] at h
  exact h ▸ List.perm_insertionSort _ _

theorem mem_of_sorted? {xs ys : List α} (h : sorted? lt? xs = .ok ys) {a : α} :
    a ∈ ys ↔ a ∈ xs := (perm_of_sorted? h).mem_iff

/-- `sorted(xs, key=key)`, for keys that can all be compared, is in the order of the keys. -/
theorem pairwise_mergeSort_key {κ : Type} [LinearOrder κ] (key : α → κ) (xs : List α) :
    (xs.mergeSort fun a b => key a ≤ key b).Pairwise fun a b => key a ≤ key b := by
  have hsorted := @List.pairwise_mergeSort α (fun a b => decide (key a ≤ key b))
    (fun a b c hab hbc => decide_eq_true (le_trans (of_decide_eq_true hab) (of_decide_eq_true hbc)))
    (fun a b => by
      rw [Bool.or_eq_true, decide_eq_true_eq, decide_eq_true_eq]
      exact le_total (key a) (key b)) xs
  exact hsorted.imp of_decide_eq_true

/-- Strings are sorted as strings. -/
theorem sorted?_strs (ss : List String) :
    sorted? Value.lt? (ss.map .str) = .ok ((ss.insertionSort (· ≤ ·)).map .str) := by
  have hcomparable : ∀ x ∈ ss.map Value.str, ∀ y ∈ ss.map Value.str,
      Result.Ok (Value.lt? x y) := by
    intro x hx y hy
    obtain ⟨s, -, rfl⟩ := List.mem_map.1 hx
    obtain ⟨t, -, rfl⟩ := List.mem_map.1 hy
    exact ⟨_, Value.lt?_str s t⟩
  have hle (s t : String) : s ≤ t ↔ Value.lt? (.str t) (.str s) ≠ .ok true := by
    simp [-String.lt_iff_ltb]
  rw [sorted?_ok hcomparable]
  exact congrArg Except.ok (List.map_insertionSort (· ≤ ·)
    (fun a b => Value.lt? b a ≠ .ok true) Value.str ss fun s _ t _ => hle s t).symm

/-- `sorted(set(xs))`. -/
def sortedSet (xs : List String) : List String := xs.dedup.insertionSort (· ≤ ·)

@[simp] theorem mem_sortedSet {xs : List String} {s : String} : s ∈ sortedSet xs ↔ s ∈ xs := by
  rw [sortedSet, List.mem_insertionSort, List.mem_dedup]

theorem nodup_sortedSet (xs : List String) : (sortedSet xs).Nodup :=
  (List.perm_insertionSort _ _).nodup_iff.2 (List.nodup_dedup xs)

/-- The strings stand in order, each once. -/
theorem pairwise_sortedSet (xs : List String) : (sortedSet xs).Pairwise (· < ·) := by
  have hle : (sortedSet xs).Pairwise (· ≤ ·) := List.pairwise_insertionSort _ _
  exact (hle.and (nodup_sortedSet xs)).imp fun ⟨hst, hne⟩ => lt_of_le_of_ne hst hne

/-- Elements listed once and sorted are the sorted set of them. -/
theorem insertionSort_eq_sortedSet {l xs : List String} (hnodup : l.Nodup)
    (hmem : ∀ s, s ∈ l ↔ s ∈ xs) : l.insertionSort (· ≤ ·) = sortedSet xs := by
  refine List.Perm.eq_of_pairwise' (List.pairwise_insertionSort _ _)
    (List.pairwise_insertionSort _ _) ?_
  refine (List.perm_insertionSort _ _).trans (.trans ?_ (List.perm_insertionSort _ _).symm)
  refine (List.perm_ext_iff_of_nodup hnodup (List.nodup_dedup xs)).2 ?_
  intro s
  rw [List.mem_dedup, hmem]

theorem sortedSet_congr {xs ys : List String} (h : ∀ s, s ∈ xs ↔ s ∈ ys) :
    sortedSet xs = sortedSet ys :=
  insertionSort_eq_sortedSet (List.nodup_dedup xs) fun s => by rw [List.mem_dedup, h]

end Py
