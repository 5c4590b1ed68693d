import Mathlib.Data.List.Infix
import Mathlib.Tactic.Common

/-!
# Fields joined by a separator

Three fields joined by a doubled separator, of which only the middle one is free of it.  Such a
text can be cut at other places too, when a field that ends before a separator swallows it.

* `text_eq_iff` : **two texts are equal exactly when their fields are, or when one is the other cut
  at a later place.**
-/

namespace Joined

variable {α : Type*}

/-- Three fields. -/
structure Fields (α : Type*) where
  first : List α
  middle : List α
  last : List α

/-- The fields, with the doubled separator between them. -/
def Fields.text (c : α) (t : Fields α) : List α :=
  t.first ++ (c :: c :: (t.middle ++ c :: c :: t.last))

/-- The text of `t` can also be cut as that of `u`, whose first field is longer. -/
inductive Recut (c : α) (t u : Fields α) : Prop
  /-- By one separator: both middle fields are empty. -/
  | one : u.first = t.first ++ [c] → t.middle = [] → u.middle = [] → t.last = c :: u.last →
      Recut c t u
  /-- By the middle field. -/
  | middle : u.first = t.first ++ c :: c :: t.middle → t.last = u.middle ++ c :: c :: u.last →
      Recut c t u
  /-- By the middle field and one separator. -/
  | half : u.first = t.first ++ c :: c :: (t.middle ++ [c]) →
      t.last = c :: (u.middle ++ c :: c :: u.last) → Recut c t u
  /-- By the middle field and a part of the last one. -/
  | inner (part : List α) : u.first = t.first ++ c :: c :: (t.middle ++ c :: c :: part) →
      t.last = part ++ c :: c :: (u.middle ++ c :: c :: u.last) → Recut c t u

variable {c : α} {t u : Fields α}

/-! ### A later cut has the same text -/

theorem Recut.text_eq (h : Recut c t u) : t.text c = u.text c := by
  cases h with
  | one hfirst hmiddle hmiddle' hlast => simp [Fields.text, hfirst, hmiddle, hmiddle', hlast]
  | middle hfirst hlast => simp [Fields.text, hfirst, hlast]
  | half hfirst hlast => simp [Fields.text, hfirst, hlast]
  | inner part hfirst hlast => simp [Fields.text, hfirst, hlast]

theorem Recut.length_lt (h : Recut c t u) : t.first.length < u.first.length := by
  cases h with
  | one hfirst _ _ _ => simp [hfirst]
  | middle hfirst _ => simp [hfirst]
  | half hfirst _ => simp [hfirst]
  | inner part hfirst _ => simp [hfirst]

/-! ### An equal text is a later cut -/

/-- A field without separators ends at the same place. -/
theorem field_eq {m m' r r' : List α} (hm : c ∉ m) (hm' : c ∉ m')
    (h : m ++ c :: r = m' ++ c :: r') : m = m' ∧ r = r' := by
  induction m generalizing m' with
  | nil =>
    cases m' with
    | nil => exact ⟨rfl, (List.cons.inj h).2⟩
    | cons d m' => exact absurd (List.mem_cons.2 (.inl (List.cons.inj h).1)) hm'
  | cons d m ih =>
    cases m' with
    | nil => exact absurd (List.mem_cons.2 (.inl (List.cons.inj h).1.symm)) hm
    | cons d' m' =>
      obtain ⟨rfl, htail⟩ := List.cons.inj h
      obtain ⟨rfl, hr⟩ := ih (fun hmem => hm (List.mem_cons_of_mem _ hmem))
        (fun hmem => hm' (List.mem_cons_of_mem _ hmem)) htail
      exact ⟨rfl, hr⟩

/-- A field without separators is swallowed whole by a text that ends before a separator. -/
theorem prefix_of_append_eq {m rest part after : List α} (hm : c ∉ m)
    (h : part ++ c :: after = m ++ c :: rest) : m <+: part := by
  have hpart : part <+: m ++ c :: rest := h ▸ List.prefix_append part _
  rcases List.prefix_or_prefix_of_prefix hpart (List.prefix_append m _) with ⟨tail, rfl⟩ | hle
  · rw [List.append_assoc, List.append_cancel_left_eq] at h
    cases tail with
    | nil => rw [List.append_nil]
    | cons d tail =>
      obtain ⟨rfl, -⟩ := List.cons.inj h
      exact absurd (List.mem_append_right _ List.mem_cons_self) hm
  · exact hle

theorem eq_nil_of_append_eq {m rest after : List α} (hm : c ∉ m) (h : m ++ rest = c :: after) :
    m = [] := by
  cases m with
  | nil => rfl
  | cons d m => exact absurd (List.mem_cons.2 (.inl (List.cons.inj h).1.symm)) hm

/-- An equal text whose first field is longer is cut at a later place. -/
theorem recut_of_text_eq (ht : c ∉ t.middle) (hu : c ∉ u.middle) {more : List α}
    (hmore : u.first = t.first ++ more) (hne : more ≠ []) (h : t.text c = u.text c) :
    Recut c t u := by
  rw [Fields.text, Fields.text, hmore, List.append_assoc, List.append_cancel_left_eq] at h
  -- by how much the first field is longer
  rcases more with _ | ⟨d, _ | ⟨d', more⟩⟩
  · exact absurd rfl hne
  · simp only [List.cons_append, List.nil_append, List.cons.injEq] at h
    obtain ⟨rfl, -, h⟩ := h
    have hmiddle := eq_nil_of_append_eq ht h
    rw [hmiddle, List.nil_append, List.cons.injEq] at h
    have hmiddle' := eq_nil_of_append_eq hu h.2.symm
    rw [hmiddle', List.nil_append, List.cons.injEq] at h
    exact .one hmore hmiddle hmiddle' h.2.2
  · simp only [List.cons_append, List.cons.injEq] at h
    obtain ⟨rfl, rfl, h⟩ := h
    obtain ⟨part, rfl⟩ := prefix_of_append_eq ht h.symm
    rw [List.append_assoc, List.append_cancel_left_eq] at h
    -- by how much it goes past the middle field
    rcases part with _ | ⟨e, _ | ⟨e', part⟩⟩
    · simp only [List.nil_append, List.cons.injEq, true_and] at h
      exact .middle (by simpa using hmore) h
    · simp only [List.cons_append, List.nil_append, List.cons.injEq, true_and] at h
      obtain ⟨rfl, h⟩ := h
      exact .half hmore h
    · simp only [List.cons_append, List.cons.injEq] at h
      obtain ⟨rfl, rfl, h⟩ := h
      exact .inner part hmore h

theorem eq_of_text_eq (ht : c ∉ t.middle) (hu : c ∉ u.middle) (hfirst : t.first = u.first)
    (h : t.text c = u.text c) : t = u := by
  obtain ⟨first, middle, last⟩ := t
  obtain ⟨first', middle', last'⟩ := u
  obtain rfl : first = first' := hfirst
  simp only [Fields.text, List.append_cancel_left_eq, List.cons.injEq, true_and] at h
  obtain ⟨rfl, hlast⟩ := field_eq ht hu h
  rw [(List.cons.inj hlast).2]

/-- **When two texts of joined fields are equal.** -/
theorem text_eq_iff (ht : c ∉ t.middle) (hu : c ∉ u.middle) :
    t.text c = u.text c ↔ t = u ∨ Recut c t u ∨ Recut c u t := by
  constructor
  · intro h
    by_cases hfirst : t.first = u.first
    · exact .inl (eq_of_text_eq ht hu hfirst h)
    have hprefix : t.first <+: u.text c := h ▸ List.prefix_append t.first _
    have hne {more : List α} {xs ys : List α} (hxs : xs ≠ ys) (hmore : xs ++ more = ys) :
        more ≠ [] := by
      rintro rfl
      exact hxs (by rw [← hmore, List.append_nil])
    rcases List.prefix_or_prefix_of_prefix hprefix (List.prefix_append u.first _) with
      ⟨more, hmore⟩ | ⟨more, hmore⟩
    · exact .inr (.inl (recut_of_text_eq ht hu hmore.symm (hne hfirst hmore) h))
    · exact .inr (.inr (recut_of_text_eq hu ht hmore.symm (hne (Ne.symm hfirst) hmore) h.symm))
  · rintro (rfl | h | h)
    · rfl
    · exact h.text_eq
    · exact h.text_eq.symm

end Joined
