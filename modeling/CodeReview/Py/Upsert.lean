import CodeReview.Py.Assoc
import Mathlib.Algebra.BigOperators.Group.List.Basic
import Mathlib.Data.List.Perm.Basic

/-!
# What a loop of assignments overwrites

A loop that stores its values under keys keeps the last value of every key.  The others are
`overwritten`, and nothing else is lost.

* `sum_ofList` : **the values that are kept and those that are overwritten add up to all**;
* `overwritten_eq_filter` : in a list that is ordered within every key, an assignment is overwritten
  when there is a greater one of the same key.
-/

namespace Py

namespace OrdMap

variable {κ β M : Type} [DecidableEq κ]

/-- The assignments that a later one of the same key replaces. -/
def overwritten : List (κ × β) → List (κ × β)
  | [] => []
  | kv :: kvs => if kv.1 ∈ kvs.map Prod.fst then kv :: overwritten kvs else overwritten kvs

omit [DecidableEq κ] in
theorem nodup_entries (m : OrdMap κ β) : m.entries.Nodup := List.Nodup.of_map _ m.nodup

theorem perm_entries {m m' : OrdMap κ β} (h : ∀ k, m.get? k = m'.get? k) :
    m.entries.Perm m'.entries := by
  refine (List.perm_ext_iff_of_nodup m.nodup_entries m'.nodup_entries).2 ?_
  rintro ⟨k, v⟩
  rw [mem_entries_iff, mem_entries_iff, h]

theorem lastOf_cons (kv : κ × β) (kvs : List (κ × β)) (k : κ) :
    lastOf (kv :: kvs) k = (lastOf kvs k).or (if kv.1 = k then some kv.2 else none) := by
  rw [lastOf, List.reverse_cons, Assoc.get?_append, Assoc.get?_cons, Assoc.get?_nil, lastOf]

/-- An assignment that is replaced leaves no trace. -/
theorem perm_ofList_cons_of_mem {kv : κ × β} {kvs : List (κ × β)} (h : kv.1 ∈ kvs.map Prod.fst) :
    (ofList (kv :: kvs)).entries.Perm (ofList kvs).entries := by
  refine perm_entries ?_
  intro k
  rw [get?_ofList, get?_ofList, lastOf_cons]
  by_cases hk : kv.1 = k
  · rw [← mem_keys_ofList, mem_keys_iff, get?_ofList, hk] at h
    obtain ⟨v, hv⟩ := Option.isSome_iff_exists.1 h
    rw [hv, Option.some_or]
  · rw [if_neg hk, Option.or_none]

/-- One that is not replaced stays beside the rest. -/
theorem perm_ofList_cons_of_notMem {kv : κ × β} {kvs : List (κ × β)}
    (h : kv.1 ∉ kvs.map Prod.fst) :
    (ofList (kv :: kvs)).entries.Perm (kv :: (ofList kvs).entries) := by
  have hnone : (ofList kvs).get? kv.1 = none := by
    rw [← mem_keys_ofList, mem_keys_iff] at h
    exact Option.not_isSome_iff_eq_none.1 h
  have hnodup : (kv :: (ofList kvs).entries).Nodup := by
    refine List.nodup_cons.2 ⟨fun hmem => ?_, (ofList kvs).nodup_entries⟩
    obtain ⟨k, v⟩ := kv
    rw [mem_entries_iff, hnone] at hmem
    cases hmem
  refine (List.perm_ext_iff_of_nodup (nodup_entries _) hnodup).2 ?_
  rintro ⟨k, v⟩
  rw [List.mem_cons, mem_entries_iff, mem_entries_iff, get?_ofList, lastOf_cons, ← get?_ofList]
  by_cases hk : kv.1 = k
  · rw [if_pos hk, ← hk, hnone, Option.none_or]
    constructor
    · rintro ⟨⟩
      exact .inl rfl
    · rintro (heq | hmem)
      · rw [← heq]
      · cases hmem
  · rw [if_neg hk, Option.or_none]
    constructor
    · exact .inr
    · rintro (rfl | hmem)
      · exact absurd rfl hk
      · exact hmem

/-- **The values that are kept and those that are overwritten add up to all.** -/
theorem sum_ofList [AddCommMonoid M] (f : β → M) (kvs : List (κ × β)) :
    ((ofList kvs).values.map f).sum + ((overwritten kvs).map fun kv => f kv.2).sum =
      (kvs.map fun kv => f kv.2).sum := by
  have hvalues (kvs : List (κ × β)) : ((ofList kvs).values.map f).sum =
      ((ofList kvs).entries.map fun kv => f kv.2).sum := by
    rw [values, List.map_map]
    rfl
  induction kvs with
  | nil => simp [overwritten, ofList, empty, values]
  | cons kv kvs ih =>
    rw [hvalues] at ih
    rw [hvalues, overwritten, List.map_cons, List.sum_cons, ← ih]
    by_cases hmem : kv.1 ∈ kvs.map Prod.fst
    · rw [if_pos hmem, ((perm_ofList_cons_of_mem hmem).map _).sum_eq, List.map_cons, List.sum_cons,
        add_left_comm]
    · rw [if_neg hmem, ((perm_ofList_cons_of_notMem hmem).map _).sum_eq, List.map_cons,
        List.sum_cons, add_assoc]

/-- Assignments that count for nothing may be dropped from the front. -/
theorem sum_overwritten_append [AddCommMonoid M] {f : β → M} {kvs : List (κ × β)}
    (hzero : ∀ kv ∈ kvs, f kv.2 = 0) (kvs' : List (κ × β)) :
    ((overwritten (kvs ++ kvs')).map fun kv => f kv.2).sum =
      ((overwritten kvs').map fun kv => f kv.2).sum := by
  induction kvs with
  | nil => rfl
  | cons kv kvs ih =>
    have hrest := ih fun kv' hkv' => hzero kv' (List.mem_cons_of_mem _ hkv')
    rw [List.cons_append, overwritten]
    split_ifs
    · rw [List.map_cons, List.sum_cons, hzero kv List.mem_cons_self, zero_add, hrest]
    · exact hrest

/-- **In a list that is ordered within every key, an assignment is overwritten when there is a
greater one of its key.** -/
theorem overwritten_eq_filter {ι : Type} (rel : ι → ι → Prop) [DecidableRel rel]
    (hirr : ∀ i j, rel i j → ¬ rel j i) (key : ι → κ) (value : ι → β) {xs : List ι}
    (hordered : xs.Pairwise fun x y => key x = key y → rel x y) :
    overwritten (xs.map fun x => (key x, value x)) =
      (xs.filter fun x => decide (∃ y ∈ xs, key y = key x ∧ rel x y)).map
        fun x => (key x, value x) := by
  induction xs with
  | nil => rfl
  | cons x xs ih =>
    obtain ⟨hx, hordered⟩ := List.pairwise_cons.1 hordered
    have hself : ¬ rel x x := fun h => hirr x x h h
    -- the head is overwritten when its key comes again, and then by something greater
    have hhead : (∃ y ∈ x :: xs, key y = key x ∧ rel x y) ↔
        key x ∈ (xs.map fun x => (key x, value x)).map Prod.fst := by
      rw [List.map_map, List.mem_map]
      constructor
      · rintro ⟨y, hy, hkey, hrel⟩
        rcases List.mem_cons.1 hy with rfl | hy
        · exact absurd hrel hself
        · exact ⟨y, hy, hkey⟩
      · rintro ⟨y, hy, hkey⟩
        exact ⟨y, List.mem_cons_of_mem _ hy, hkey, hx y hy hkey.symm⟩
    -- the head itself overwrites none of the later ones
    have htail : xs.filter (fun z => decide (∃ y ∈ x :: xs, key y = key z ∧ rel z y)) =
        xs.filter fun z => decide (∃ y ∈ xs, key y = key z ∧ rel z y) := by
      refine List.filter_congr fun z hz => decide_eq_decide.2 ?_
      constructor
      · rintro ⟨y, hy, hkey, hrel⟩
        rcases List.mem_cons.1 hy with rfl | hy
        · exact absurd hrel (hirr _ _ (hx z hz hkey))
        · exact ⟨y, hy, hkey, hrel⟩
      · rintro ⟨y, hy, hkey, hrel⟩
        exact ⟨y, List.mem_cons_of_mem _ hy, hkey, hrel⟩
    rw [List.map_cons, overwritten, List.filter_cons, htail, ih hordered]
    by_cases hmem : key x ∈ (xs.map fun x => (key x, value x)).map Prod.fst
    · rw [if_pos hmem, if_pos (decide_eq_true (hhead.2 hmem)), List.map_cons]
    · rw [if_neg hmem, if_neg (by simpa using mt hhead.1 hmem)]

end OrdMap

end Py
