import Mathlib.Data.List.DropRight
import Mathlib.Tactic.Common

/-!
# Lexical paths

A path as the list of its parts, of which one value, `up`, stands for the directory above.
Normalising a path from the root reads its parts onto a stack.

* `normalise_append` : a relative path acts on a directory through its reduced form, so many steps
  up and then down along names;
* `prefix_apply_iff` : when that ends below a directory which lies above the first.
-/

namespace LexPath

variable {α : Type} [DecidableEq α] (up : α)

/-- One part onto the stack of names. -/
def push (stack : List α) (part : α) : List α :=
  if part = up then stack.dropLast else stack ++ [part]

/-- The names of an absolute path, from the root. -/
def normalise (parts : List α) : List α := parts.foldl (push up) []

/-- A relative path in reduced form. -/
structure Reduced (α : Type) where
  ups : ℕ
  names : List α
  deriving DecidableEq, Repr

/-- One part onto a reduced path. -/
def Reduced.push (r : Reduced α) (part : α) : Reduced α :=
  if part ≠ up then { r with names := r.names ++ [part] }
  else if r.names = [] then { r with ups := r.ups + 1 }
  else { r with names := r.names.dropLast }

/-- The reduced form of a relative path. -/
def reduce (parts : List α) : Reduced α := parts.foldl (Reduced.push up) ⟨0, []⟩

/-- Where a reduced path leads from a directory. -/
def Reduced.apply (r : Reduced α) (stack : List α) : List α := stack.rdrop r.ups ++ r.names

variable {up}

theorem push_apply (r : Reduced α) (stack : List α) (part : α) :
    push up (r.apply stack) part = (r.push up part).apply stack := by
  by_cases hpart : part = up
  · by_cases hnames : r.names = []
    · simp [push, Reduced.push, Reduced.apply, hpart, hnames, List.rdrop, List.dropLast_eq_take,
        List.take_take]
      omega
    · simp [push, Reduced.push, Reduced.apply, hpart, hnames, List.dropLast_append_of_ne_nil]
  · simp [push, Reduced.push, Reduced.apply, hpart]

theorem foldl_push_apply (parts : List α) (r : Reduced α) (stack : List α) :
    parts.foldl (push up) (r.apply stack) = (parts.foldl (Reduced.push up) r).apply stack := by
  induction parts generalizing r with
  | nil => rfl
  | cons part parts ih => rw [List.foldl_cons, List.foldl_cons, push_apply, ih]

theorem foldl_push_eq (parts stack : List α) :
    parts.foldl (push up) stack = (reduce up parts).apply stack := by
  have h := @foldl_push_apply α _ up parts ⟨0, []⟩ stack
  rwa [Reduced.apply, List.rdrop_zero, List.append_nil] at h

/-- **A path acts on a directory through its reduced form.** -/
theorem normalise_append (parts more : List α) :
    normalise up (parts ++ more) = (reduce up more).apply (normalise up parts) := by
  rw [normalise, List.foldl_append, foldl_push_eq more]
  rfl

/-- From the root there is no way up. -/
theorem normalise_eq_names (parts : List α) : normalise up parts = (reduce up parts).names := by
  rw [normalise, foldl_push_eq]
  simp [Reduced.apply]

/-- A name at the end stays. -/
theorem reduce_concat (parts : List α) {part : α} (h : part ≠ up) :
    reduce up (parts ++ [part]) =
      ⟨(reduce up parts).ups, (reduce up parts).names ++ [part]⟩ := by
  simp [reduce, List.foldl_append, Reduced.push, h]

theorem normalise_append_names (parts : List α) {names : List α} (h : ∀ part ∈ names, part ≠ up) :
    normalise up (parts ++ names) = normalise up parts ++ names := by
  induction names using List.reverseRecOn with
  | nil => simp
  | append_singleton names part ih =>
    have hpart : part ≠ up := h part (by simp)
    have hnames := ih fun part' h' => h part' (List.mem_append_left _ h')
    have hpush : normalise up (parts ++ names ++ [part]) =
        push up (normalise up (parts ++ names)) part := List.foldl_append ..
    rw [← List.append_assoc, hpush, hnames, push, if_neg hpart, List.append_assoc]

omit [DecidableEq α] in
/-- **When a path from a directory below `root` stays below `root`**: it does not leave it, or it
comes back along the names that it left. -/
theorem prefix_apply_iff {r : Reduced α} {root extra : List α} :
    root <+: r.apply (root ++ extra) ↔
      r.ups ≤ extra.length ∨ root.rtake (r.ups - extra.length) <+: r.names := by
  rw [Reduced.apply]
  by_cases hups : r.ups ≤ extra.length
  · have hkept : (root ++ extra).rdrop r.ups = root ++ extra.rdrop r.ups := by
      rw [List.rdrop, List.rdrop, List.length_append, Nat.add_sub_assoc hups,
        List.take_length_add_append]
    rw [hkept, List.append_assoc, iff_true_intro (List.prefix_append ..), true_iff]
    exact .inl hups
  · -- the names that are left are the last ones of `root`
    have hleft : (root ++ extra).rdrop r.ups = root.rdrop (r.ups - extra.length) := by
      rw [List.rdrop, List.rdrop, List.length_append, List.take_append_of_le_length (by omega)]
      congr 1
      omega
    rw [hleft, or_iff_right hups]
    conv_lhs => lhs; rw [← List.take_append_drop (root.length - (r.ups - extra.length)) root]
    exact List.prefix_append_right_inj _

end LexPath
