import Mathlib.Data.List.Basic
import Mathlib.Tactic.Common
import Mathlib.Tactic.SplitIfs

/-!
# Chunks of a list

A loop over `range(n)` or `range(0, len(xs), size)` that cuts the slices `xs[i:i + size]` out of a
list, and ends or breaks at the end of the list.

* `flatten_chunks` : **with enough chunks nothing is lost and nothing is repeated.**
* `length_of_mem_dropLast_chunks` : all chunks but the last are full;
* `pairwise_disjoint_chunks` : two chunks share an element only where the list repeats it.
-/

namespace Py

variable {α : Type}

/-- At most `count` chunks of `size` elements, from position `start` on. -/
def chunks (size : ℕ) (xs : List α) : ℕ → ℕ → List (List α)
  | 0, _ => []
  | count + 1, start =>
    if xs.length ≤ start then []
    else (xs.drop start).take size :: chunks size xs count (start + size)

theorem flatten_chunks {size count start : ℕ} {xs : List α}
    (h : xs.length ≤ start + count * size) :
    (chunks size xs count start).flatten = xs.drop start := by
  induction count generalizing start with
  | zero =>
    rw [Nat.zero_mul, Nat.add_zero] at h
    rw [chunks, List.flatten_nil, List.drop_eq_nil_of_le h]
  | succ count ih =>
    unfold chunks
    split_ifs with hend
    · rw [List.flatten_nil, List.drop_eq_nil_of_le hend]
    · have hrest : (chunks size xs count (start + size)).flatten = xs.drop (start + size) := by
        refine ih ?_
        rw [Nat.succ_mul] at h
        omega
      rw [List.flatten_cons, hrest, ← List.drop_drop, List.take_append_drop]

/-- No slice is empty. -/
theorem ne_nil_of_mem_chunks {size count start : ℕ} {xs slice : List α} (hsize : 0 < size)
    (h : slice ∈ chunks size xs count start) : slice ≠ [] := by
  induction count generalizing start with
  | zero => cases h
  | succ count ih =>
    unfold chunks at h
    split_ifs at h with hend
    · cases h
    · rcases List.mem_cons.1 h with rfl | h
      · have hlen : 0 < ((xs.drop start).take size).length := by
          rw [List.length_take, List.length_drop]
          omega
        exact List.length_pos_iff.1 hlen
      · exact ih h

/-- The chunk at a position. -/
theorem getElem?_chunks (size : ℕ) (xs : List α) (count start k : ℕ) :
    (chunks size xs count start)[k]? =
      if k < count ∧ start + k * size < xs.length then some ((xs.drop (start + k * size)).take size)
      else none := by
  induction count generalizing start k with
  | zero => rw [chunks, if_neg (by omega), List.getElem?_nil]
  | succ count ih =>
    unfold chunks
    by_cases hend : xs.length ≤ start
    · have hle : start ≤ start + k * size := Nat.le_add_right _ _
      rw [if_pos hend, if_neg (by omega), List.getElem?_nil]
    · rw [if_neg hend]
      cases k with
      | zero =>
        rw [List.getElem?_cons_zero, if_pos ⟨Nat.succ_pos _, by omega⟩, Nat.zero_mul, Nat.add_zero]
      | succ k =>
        have hstart : start + size + k * size = start + (k + 1) * size := by
          rw [Nat.succ_mul]
          omega
        rw [List.getElem?_cons_succ, ih, hstart]
        by_cases hk : k < count ∧ start + (k + 1) * size < xs.length
        · rw [if_pos hk, if_pos ⟨by omega, hk.2⟩]
        · rw [if_neg hk, if_neg fun h => hk ⟨by omega, h.2⟩]

theorem length_chunks_le (size : ℕ) (xs : List α) (count start : ℕ) :
    (chunks size xs count start).length ≤ count := by
  induction count generalizing start with
  | zero => exact Nat.le_refl 0
  | succ count ih =>
    unfold chunks
    split_ifs
    · exact Nat.zero_le _
    · exact Nat.succ_le_succ (ih _)

theorem length_le_of_mem_chunks {size count start : ℕ} {xs slice : List α}
    (h : slice ∈ chunks size xs count start) : slice.length ≤ size := by
  obtain ⟨k, hk⟩ := List.mem_iff_getElem?.1 h
  rw [getElem?_chunks] at hk
  split_ifs at hk
  rw [← Option.some.inj hk]
  exact List.length_take_le _ _

/-- Only the last chunk may be short. -/
theorem length_of_mem_dropLast_chunks {size count start : ℕ} {xs slice : List α}
    (h : slice ∈ (chunks size xs count start).dropLast) : slice.length = size := by
  obtain ⟨k, hk⟩ := List.mem_iff_getElem?.1 h
  rw [List.getElem?_dropLast] at hk
  split_ifs at hk with hlast
  -- the chunk after this one starts within the list
  have hnext : ∃ next, (chunks size xs count start)[k + 1]? = some next :=
    ⟨_, List.getElem?_eq_getElem (by omega)⟩
  obtain ⟨next, hnext⟩ := hnext
  rw [getElem?_chunks] at hk hnext
  split_ifs at hk hnext with hstart hstart'
  have hmul : (k + 1) * size = k * size + size := Nat.succ_mul k size
  rw [← Option.some.inj hk, List.length_take, List.length_drop]
  omega

/-- So many chunks hold the list. -/
theorem length_le_length_chunks_mul {size count : ℕ} {xs : List α} (h : xs.length ≤ count * size) :
    xs.length ≤ (chunks size xs count 0).length * size := by
  -- there is no chunk after the last
  have hnext := getElem?_chunks size xs count 0 (chunks size xs count 0).length
  rw [List.getElem?_eq_none (Nat.le_refl _), Nat.zero_add] at hnext
  split_ifs at hnext with hstart
  by_cases hcount : (chunks size xs count 0).length < count
  · exact Nat.le_of_not_lt fun hlt => hstart ⟨hcount, hlt⟩
  · exact Nat.le_trans h (Nat.mul_le_mul_right size (Nat.le_of_not_lt hcount))

/-- The elements of a chunk, by their position in the list. -/
theorem mem_chunk {size count k : ℕ} (hsize : 0 < size) {xs slice : List α}
    (hk : (chunks size xs count 0)[k]? = some slice) {a : α} :
    a ∈ slice ↔ ∃ i : ℕ, i / size = k ∧ xs[i]? = some a := by
  rw [getElem?_chunks] at hk
  split_ifs at hk
  rw [← Option.some.inj hk, Nat.zero_add, List.mem_iff_getElem?]
  simp only [List.getElem?_take, List.getElem?_drop]
  constructor
  · rintro ⟨j, hj⟩
    split_ifs at hj with hlt
    exact ⟨k * size + j, by rw [Nat.mul_comm, Nat.mul_add_div hsize, Nat.div_eq_of_lt hlt,
      Nat.add_zero], hj⟩
  · rintro ⟨i, rfl, hi⟩
    refine ⟨i % size, ?_⟩
    rw [if_pos (Nat.mod_lt i hsize), Nat.mul_comm, Nat.div_add_mod]
    exact hi

/-- **Two chunks share an element only where the list repeats it.** -/
theorem pairwise_disjoint_chunks {size count : ℕ} (hsize : 0 < size) {xs : List α}
    (h : xs.length ≤ count * size) : (chunks size xs count 0).Pairwise List.Disjoint ↔
      ∀ (i j : ℕ) a, xs[i]? = some a → xs[j]? = some a → i / size = j / size := by
  have hchunk (i : ℕ) (a : α) (hi : xs[i]? = some a) :
      ∃ slice, (chunks size xs count 0)[i / size]? = some slice := by
    obtain ⟨hlt, -⟩ := List.getElem?_eq_some_iff.1 hi
    have hle := Nat.div_mul_le_self i size
    have hcount : i / size < count := Nat.div_lt_of_lt_mul (by rw [Nat.mul_comm]; omega)
    exact ⟨_, by rw [getElem?_chunks, if_pos ⟨hcount, by omega⟩]⟩
  constructor
  · intro hpairwise
    -- an element of two chunks would be in both of them
    have hlt (i j : ℕ) (a : α) (hi : xs[i]? = some a) (hj : xs[j]? = some a) :
        ¬ i / size < j / size := by
      intro hij
      obtain ⟨slice, hslice⟩ := hchunk i a hi
      obtain ⟨slice', hslice'⟩ := hchunk j a hj
      obtain ⟨hk, rfl⟩ := List.getElem?_eq_some_iff.1 hslice
      obtain ⟨hl, rfl⟩ := List.getElem?_eq_some_iff.1 hslice'
      exact List.pairwise_iff_getElem.1 hpairwise _ _ hk hl hij
        ((mem_chunk hsize hslice).2 ⟨i, rfl, hi⟩) ((mem_chunk hsize hslice').2 ⟨j, rfl, hj⟩)
    intro i j a hi hj
    have hle := hlt i j a hi hj
    have hge := hlt j i a hj hi
    omega
  · intro hsame
    refine List.pairwise_iff_getElem.2 ?_
    intro k l hk hl hkl a hak hal
    obtain ⟨i, hik, hi⟩ := (mem_chunk hsize (List.getElem?_eq_getElem hk)).1 hak
    obtain ⟨j, hjl, hj⟩ := (mem_chunk hsize (List.getElem?_eq_getElem hl)).1 hal
    have hij := hsame i j a hi hj
    omega

example : chunks 2 [1, 2, 3, 4, 5] 9 0 = [[1, 2], [3, 4], [5]] := by decide

end Py
