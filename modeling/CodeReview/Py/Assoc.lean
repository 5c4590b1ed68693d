import CodeReview.Py.Result
import Mathlib.Data.List.Induction
import Mathlib.Data.List.Nodup
import Mathlib.Tactic.Common
import Mathlib.Tactic.SplitIfs

/-!
# Insertion-ordered dictionaries

A Python `dict` keeps its keys in the order of their first insertion, and assigning to a key it
has keeps the key's place.  `Assoc` is the raw list of entries, with lookup and assignment;
`OrdMap` is the list together with the fact that no key occurs twice.

* `get?_set` is lookup after assignment;
* `OrdMap.mem_entries_iff` : an entry of the map is what its key looks up;
* `OrdMap.ofList` is the loop `for k, v in ...: d[k] = v`, and `OrdMap.get?_ofList` says that it
  keeps, for each key, the last value assigned.
-/

namespace Py

namespace Assoc

variable {κ β : Type} [DecidableEq κ]

/-- `d.get(k)`, where a missing key is told apart. -/
def get? : List (κ × β) → κ → Option β
  | [], _ => none
  | (k', v) :: d, k => if k' = k then some v else get? d k

/-- `d[k] = v`. -/
def set : List (κ × β) → κ → β → List (κ × β)
  | [], k, v => [(k, v)]
  | (k', v') :: d, k, v => if k' = k then (k', v) :: d else (k', v') :: set d k v

/-- `{**d, **e}`. -/
def update (d e : List (κ × β)) : List (κ × β) := e.foldl (fun d kv => set d kv.1 kv.2) d

/-- `d.setdefault(k, v)`. -/
def setdefault (d : List (κ × β)) (k : κ) (v : β) : List (κ × β) :=
  match get? d k with
  | some _ => d
  | none => set d k v

/-- `{k: v for k, v in d.items() if k not in ks}`. -/
def without (d : List (κ × β)) (ks : List κ) : List (κ × β) := d.filter fun kv => kv.1 ∉ ks

@[simp] theorem get?_nil (k : κ) : get? ([] : List (κ × β)) k = none := rfl

theorem get?_cons (k' : κ) (v : β) (d : List (κ × β)) (k : κ) :
    get? ((k', v) :: d) k = if k' = k then some v else get? d k := rfl

@[simp] theorem get?_set (d : List (κ × β)) (k k' : κ) (v : β) :
    get? (set d k v) k' = if k = k' then some v else get? d k' := by
  induction d with
  | nil => rfl
  | cons e d ih =>
    obtain ⟨k₀, v₀⟩ := e
    simp only [set]
    split_ifs with h h' h'
    · simp [get?_cons, h, h']
    · simp [get?_cons, h, h']
    · have : k₀ ≠ k' := fun e => h (e.trans h'.symm)
      rw [get?_cons, if_neg this, ih, if_pos h']
    · simp only [get?_cons, ih, if_neg h']

theorem get?_setdefault (d : List (κ × β)) (k k' : κ) (v : β) :
    get? (setdefault d k v) k' = if k = k' then some ((get? d k).getD v) else get? d k' := by
  unfold setdefault
  cases h : get? d k with
  | none => simp
  | some w =>
    split_ifs with hk
    · simp [← hk, h]
    · rfl

theorem get?_update_cons (d : List (κ × β)) (kv : κ × β) (e : List (κ × β)) :
    update d (kv :: e) = update (set d kv.1 kv.2) e := rfl

/-- A key that the second dictionary lacks keeps its value. -/
theorem get?_update_of_notMem (d e : List (κ × β)) {k : κ} (h : k ∉ e.map Prod.fst) :
    get? (update d e) k = get? d k := by
  induction e generalizing d with
  | nil => rfl
  | cons kv e ih =>
    simp only [List.map_cons, List.mem_cons, not_or] at h
    rw [get?_update_cons, ih _ h.2, get?_set, if_neg (Ne.symm h.1)]

theorem get?_update_of_nodup (d : List (κ × β)) {e : List (κ × β)} (h : (e.map Prod.fst).Nodup)
    (k : κ) : get? (update d e) k = (get? e k).or (get? d k) := by
  induction e generalizing d with
  | nil => rfl
  | cons kv e ih =>
    obtain ⟨k', v⟩ := kv
    obtain ⟨hk', he⟩ := List.nodup_cons.1 h
    rw [get?_update_cons]
    by_cases hk : k' = k
    · subst hk
      rw [get?_update_of_notMem _ _ hk', get?_set, if_pos rfl, get?_cons, if_pos rfl,
        Option.some_or]
    · rw [ih _ he, get?_set, if_neg hk, get?_cons, if_neg hk]

/-- Setting a key to the value it has changes nothing. -/
theorem set_of_get? {d : List (κ × β)} {k : κ} {v : β} (h : get? d k = some v) : set d k v = d := by
  induction d with
  | nil => cases h
  | cons kv d ih =>
    obtain ⟨k', v'⟩ := kv
    rw [get?_cons] at h
    rw [set]
    split_ifs at h ⊢ with hk
    · obtain rfl := Option.some.inj h
      rw [hk]
    · rw [ih h]

/-- The later assignment to a key counts. -/
theorem set_set (d : List (κ × β)) (k : κ) (v w : β) : set (set d k v) k w = set d k w := by
  induction d with
  | nil => rw [set, set, set, if_pos rfl]
  | cons kv d ih =>
    obtain ⟨k', v'⟩ := kv
    rw [set, set]
    split_ifs with hk
    · rw [set, if_pos hk]
    · rw [set, if_neg hk, ih]

/-- A key that is there keeps its place, whatever else is assigned. -/
theorem set_comm {d : List (κ × β)} {k k' : κ} (hne : k ≠ k') (h : (get? d k).isSome) (v w : β) :
    set (set d k v) k' w = set (set d k' w) k v := by
  induction d with
  | nil => cases h
  | cons kv d ih =>
    obtain ⟨k₀, v₀⟩ := kv
    rw [get?_cons] at h
    by_cases hk : k₀ = k
    · have hk' : k₀ ≠ k' := fun heq => hne (hk.symm.trans heq)
      rw [set, if_pos hk, set, if_neg hk', set, if_neg hk', set, if_pos hk]
    · rw [if_neg hk] at h
      by_cases hk' : k₀ = k'
      · rw [set, if_neg hk, set, if_pos hk', set, if_pos hk', set, if_neg hk]
      · rw [set, if_neg hk, set, if_neg hk', set, if_neg hk', set, if_neg hk, ih h]

/-- Nothing is updated by entries that are there already. -/
theorem update_of_agree {d e : List (κ × β)} (h : ∀ kv ∈ e, get? d kv.1 = some kv.2) :
    update d e = d := by
  induction e with
  | nil => rfl
  | cons kv e ih =>
    obtain ⟨hkv, he⟩ := List.forall_mem_cons.1 h
    rw [get?_update_cons, set_of_get? hkv, ih he]

theorem update_append (d e e' : List (κ × β)) : update d (e ++ e') = update (update d e) e' :=
  List.foldl_append ..

theorem get?_without (d : List (κ × β)) (ks : List κ) {k : κ} (h : k ∉ ks) :
    get? (without d ks) k = get? d k := by
  induction d with
  | nil => rfl
  | cons e d ih =>
    obtain ⟨k₀, v₀⟩ := e
    simp only [without, List.filter_cons]
    split_ifs with hk
    · rw [get?_cons, get?_cons]; split_ifs
      · rfl
      · exact ih
    · have : k₀ ≠ k := fun e => hk (by simpa [e] using h)
      rw [get?_cons, if_neg this]; exact ih

theorem mem_of_get? {d : List (κ × β)} {k : κ} {v : β} (h : get? d k = some v) : (k, v) ∈ d := by
  induction d with
  | nil => cases h
  | cons e d ih =>
    obtain ⟨k₀, v₀⟩ := e
    rw [get?_cons] at h
    split_ifs at h with hk
    · simp only [Option.some.injEq] at h; rw [← hk, ← h]; exact List.mem_cons_self
    · exact List.mem_cons_of_mem _ (ih h)

theorem get?_isSome_iff {d : List (κ × β)} {k : κ} :
    (get? d k).isSome ↔ k ∈ d.map Prod.fst := by
  induction d with
  | nil => simp
  | cons e d ih =>
    obtain ⟨k₀, v₀⟩ := e
    rw [get?_cons]
    split_ifs with hk
    · simp [hk]
    · simp only [ih, List.map_cons, List.mem_cons, Ne.symm hk, false_or]

theorem get?_eq_none_iff {d : List (κ × β)} {k : κ} :
    get? d k = none ↔ k ∉ d.map Prod.fst := by
  rw [← get?_isSome_iff]; cases get? d k <;> simp

theorem get?_append (d e : List (κ × β)) (k : κ) :
    get? (d ++ e) k = (get? d k).or (get? e k) := by
  induction d with
  | nil => rfl
  | cons kv d ih =>
    obtain ⟨k', v⟩ := kv
    rw [List.cons_append, get?_cons, get?_cons, ih]
    split_ifs <;> rfl

/-- In a concatenation of parts that each hold one key of their own, a key is found in its part. -/
theorem get?_flatten {ι : Type} {name : ι → κ} {P : ι → List (κ × β) → Prop} {is : List ι}
    {parts : List (List (κ × β))} (h : List.Forall₂ P is parts)
    (hname : ∀ i part, P i part → ∀ k ∈ part.map Prod.fst, k = name i)
    (hnodup : (is.map name).Nodup) :
    ∀ i ∈ is, ∃ part, P i part ∧ get? parts.flatten (name i) = get? part (name i) := by
  induction h with
  | nil => exact fun i hi => absurd hi List.not_mem_nil
  | @cons j part is parts hj hrest ih =>
    obtain ⟨hfresh, hnodup⟩ := List.nodup_cons.1 hnodup
    intro i hi
    rw [List.flatten_cons]
    rcases List.mem_cons.1 hi with rfl | hi
    · refine ⟨part, hj, ?_⟩
      -- the later parts do not have the key
      have hlater : get? parts.flatten (name i) = none := by
        rw [get?_eq_none_iff]
        intro hmem
        obtain ⟨kv, hkv, hkey⟩ := List.mem_map.1 hmem
        obtain ⟨part', hpart', hkv⟩ := List.mem_flatten.1 hkv
        obtain ⟨i', hi', hP⟩ := Result.exists_of_forall₂_right hrest hpart'
        have hsame := hname i' part' hP kv.1 (List.mem_map_of_mem hkv)
        exact hfresh (List.mem_map.2 ⟨i', hi', by rw [← hsame, hkey]⟩)
      rw [get?_append, hlater, Option.or_none]
    · obtain ⟨part', hP, hget⟩ := ih hnodup i hi
      refine ⟨part', hP, ?_⟩
      have hfirst : get? part (name i) = none := by
        rw [get?_eq_none_iff]
        intro hmem
        have hsame := hname j part hj _ hmem
        exact hfresh (List.mem_map.2 ⟨i, hi, hsame⟩)
      rw [get?_append, hfirst, Option.none_or, hget]

theorem get?_without_of_mem {d : List (κ × β)} {ks : List κ} {k : κ} (h : k ∈ ks) :
    get? (without d ks) k = none := by
  rw [get?_eq_none_iff, List.mem_map]
  rintro ⟨kv, hkv, rfl⟩
  exact of_decide_eq_true (List.mem_filter.1 hkv).2 h

/-- A key that the first part has not is set in the second. -/
theorem set_append {d : List (κ × β)} {k : κ} (h : get? d k = none) (e : List (κ × β)) (v : β) :
    set (d ++ e) k v = d ++ set e k v := by
  induction d with
  | nil => rfl
  | cons kv d ih =>
    obtain ⟨k', v'⟩ := kv
    rw [get?_cons] at h
    split_ifs at h with hne
    rw [List.cons_append, set, if_neg hne, ih h, List.cons_append]

/-- Entries without a repeated key are inserted as they stand. -/
theorem update_of_fresh {d e : List (κ × β)} (h : ((d ++ e).map Prod.fst).Nodup) :
    update d e = d ++ e := by
  induction e generalizing d with
  | nil => rw [List.append_nil]; rfl
  | cons kv e ih =>
    have hfresh : get? d kv.1 = none := by
      rw [get?_eq_none_iff]
      rw [List.map_append, List.map_cons] at h
      exact fun hmem => (List.nodup_append.1 h).2.2 _ hmem _ List.mem_cons_self rfl
    have hset : set d kv.1 kv.2 = d ++ [kv] := by
      have happend := set_append hfresh [] kv.2
      rwa [List.append_nil] at happend
    have hsplit : d ++ kv :: e = d ++ [kv] ++ e := by simp
    rw [get?_update_cons, hset, hsplit]
    exact ih (by rwa [← hsplit])

theorem without_append (d e : List (κ × β)) (ks : List κ) :
    without (d ++ e) ks = without d ks ++ without e ks := List.filter_append ..

/-- Nothing to leave out. -/
theorem without_of_none {d : List (κ × β)} {ks : List κ} (h : ∀ k ∈ ks, get? d k = none) :
    without d ks = d := by
  refine List.filter_eq_self.2 fun kv hkv => decide_eq_true ?_
  intro hmem
  exact get?_eq_none_iff.1 (h _ hmem) (List.mem_map_of_mem hkv)

theorem keys_set (d : List (κ × β)) (k : κ) (v : β) :
    (set d k v).map Prod.fst =
      if k ∈ d.map Prod.fst then d.map Prod.fst else d.map Prod.fst ++ [k] := by
  induction d with
  | nil => rfl
  | cons e d ih =>
    obtain ⟨k₀, v₀⟩ := e
    simp only [set]
    by_cases hk : k₀ = k
    · simp [hk]
    · simp only [if_neg hk, List.map_cons, ih, List.mem_cons, Ne.symm hk, false_or]
      split_ifs <;> rfl

theorem nodup_keys_set {d : List (κ × β)} (h : (d.map Prod.fst).Nodup) (k : κ) (v : β) :
    ((set d k v).map Prod.fst).Nodup := by
  rw [keys_set]
  split_ifs with hk
  · exact h
  · exact List.nodup_append.2 ⟨h, List.nodup_singleton k, fun a ha b hb =>
      (List.mem_singleton.1 hb).symm ▸ fun e => hk (e ▸ ha)⟩

theorem nodup_keys_setdefault {d : List (κ × β)} (h : (d.map Prod.fst).Nodup) (k : κ) (v : β) :
    ((setdefault d k v).map Prod.fst).Nodup := by
  unfold setdefault
  cases get? d k with
  | none => exact nodup_keys_set h k v
  | some w => exact h

theorem nodup_keys_update {d : List (κ × β)} (h : (d.map Prod.fst).Nodup) (e : List (κ × β)) :
    ((update d e).map Prod.fst).Nodup := by
  induction e generalizing d with
  | nil => exact h
  | cons kv e ih => exact ih (nodup_keys_set h kv.1 kv.2)

theorem get?_of_mem {d : List (κ × β)} (h : (d.map Prod.fst).Nodup) {k : κ} {v : β}
    (hm : (k, v) ∈ d) : get? d k = some v := by
  induction d with
  | nil => cases hm
  | cons e d ih =>
    obtain ⟨k₀, v₀⟩ := e
    simp only [List.map_cons, List.nodup_cons] at h
    rw [get?_cons]
    rcases List.mem_cons.1 hm with he | he
    · simp only [Prod.mk.injEq] at he
      rw [if_pos he.1.symm, he.2]
    · have hk : k₀ ≠ k := fun e => h.1 (e ▸ List.mem_map_of_mem he)
      rw [if_neg hk]; exact ih h.2 he

end Assoc

/-- A dictionary: its entries in insertion order, no key twice. -/
structure OrdMap (κ β : Type) where
  /-- The entries. -/
  entries : List (κ × β)
  /-- No key occurs twice. -/
  nodup : (entries.map Prod.fst).Nodup

namespace OrdMap

variable {κ β : Type} [DecidableEq κ]

/-- The empty dictionary. -/
def empty : OrdMap κ β := ⟨[], List.nodup_nil⟩

/-- `d.get(k)`. -/
def get? (m : OrdMap κ β) (k : κ) : Option β := Assoc.get? m.entries k

/-- `d[k] = v`. -/
def set (m : OrdMap κ β) (k : κ) (v : β) : OrdMap κ β :=
  ⟨Assoc.set m.entries k v, Assoc.nodup_keys_set m.nodup k v⟩

/-- The keys, in order. -/
def keys (m : OrdMap κ β) : List κ := m.entries.map Prod.fst

/-- The values, in order. -/
def values (m : OrdMap κ β) : List β := m.entries.map Prod.snd

/-- `for k, v in kvs: d[k] = v`, from the empty dictionary. -/
def ofList (kvs : List (κ × β)) : OrdMap κ β := kvs.foldl (fun m kv => m.set kv.1 kv.2) empty

@[simp] theorem get?_empty (k : κ) : (empty : OrdMap κ β).get? k = none := rfl

@[simp] theorem get?_set (m : OrdMap κ β) (k k' : κ) (v : β) :
    (m.set k v).get? k' = if k = k' then some v else m.get? k' := Assoc.get?_set ..

omit [DecidableEq κ] in
theorem keys_nodup (m : OrdMap κ β) : m.keys.Nodup := m.nodup

theorem mem_entries_iff (m : OrdMap κ β) {k : κ} {v : β} :
    (k, v) ∈ m.entries ↔ m.get? k = some v :=
  ⟨Assoc.get?_of_mem m.nodup, Assoc.mem_of_get?⟩

theorem mem_values_iff (m : OrdMap κ β) {v : β} : v ∈ m.values ↔ ∃ k, m.get? k = some v := by
  simp only [values, List.mem_map, Prod.exists, exists_eq_right, mem_entries_iff]

theorem mem_keys_iff (m : OrdMap κ β) {k : κ} : k ∈ m.keys ↔ (m.get? k).isSome :=
  Assoc.get?_isSome_iff.symm

theorem mem_keys_set (m : OrdMap κ β) {k k' : κ} {v : β} :
    k' ∈ (m.set k v).keys ↔ k' = k ∨ k' ∈ m.keys := by
  rw [mem_keys_iff, mem_keys_iff, get?_set]
  split_ifs with h
  · simp [h]
  · simp [Ne.symm h]

/-- The value of `k` that the list of assignments `kvs` assigns last. -/
def lastOf (kvs : List (κ × β)) (k : κ) : Option β := Assoc.get? kvs.reverse k

theorem get?_foldl_set (kvs : List (κ × β)) (m : OrdMap κ β) (k : κ) :
    (kvs.foldl (fun m kv => m.set kv.1 kv.2) m).get? k =
      (lastOf kvs k).or (m.get? k) := by
  induction kvs using List.reverseRecOn with
  | nil => rfl
  | append_singleton kvs kv ih =>
    obtain ⟨k₀, v₀⟩ := kv
    simp only [List.foldl_append, List.foldl_cons, List.foldl_nil, get?_set, lastOf,
      List.reverse_append, List.reverse_cons, List.reverse_nil, List.nil_append,
      List.singleton_append, Assoc.get?_cons]
    split_ifs
    · rfl
    · exact ih

/-- **The loop of assignments keeps the last value of every key.** -/
theorem get?_ofList (kvs : List (κ × β)) (k : κ) : (ofList kvs).get? k = lastOf kvs k := by
  rw [ofList, get?_foldl_set]; cases lastOf kvs k <;> rfl

theorem mem_keys_ofList (kvs : List (κ × β)) {k : κ} :
    k ∈ (ofList kvs).keys ↔ k ∈ kvs.map Prod.fst := by
  rw [mem_keys_iff, get?_ofList, lastOf, Assoc.get?_isSome_iff, List.map_reverse,
    List.mem_reverse]

end OrdMap

end Py
