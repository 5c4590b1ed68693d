import Mathlib.Data.List.DropRight
import Mathlib.Tactic.Common

/-!
# Cutting a text out of its surroundings

Trimming a text from either side stops at the first element that is kept.  A text that begins and
ends with kept elements therefore comes out whole, whatever it holds inside.

* `trim_surrounded` : trimming both sides leaves the text alone;
* `trim_eq` : where the surroundings can be trimmed completely the text is what is left.
-/

namespace Cut

variable {α : Type*} {p q : α → Bool} {text : List α} {a : α}

theorem dropWhile_surrounded (hhead : text.head? = some a) (ha : p a = false)
    (before after : List α) :
    (before ++ text ++ after).dropWhile p = before.dropWhile p ++ text ++ after := by
  obtain ⟨rest, rfl⟩ := List.head?_eq_some_iff.1 hhead
  have hkept : (a :: rest ++ after).dropWhile p = a :: rest ++ after := by
    rw [List.cons_append, List.dropWhile_cons_of_neg (by simp [ha])]
  rw [List.append_assoc, List.dropWhile_append, hkept, List.append_assoc]
  split_ifs with hempty
  · rw [List.isEmpty_iff.1 hempty, List.nil_append]
  · rfl

theorem rdropWhile_surrounded (hlast : text.getLast? = some a) (ha : q a = false)
    (before after : List α) :
    (before ++ text ++ after).rdropWhile q = before ++ text ++ after.rdropWhile q := by
  have hhead : text.reverse.head? = some a := by rwa [List.head?_reverse]
  have hreverse := dropWhile_surrounded hhead ha after.reverse before.reverse
  rw [List.rdropWhile, List.reverse_append, List.reverse_append, ← List.append_assoc, hreverse,
    List.rdropWhile]
  simp

/-- **Trimming leaves a text between kept elements alone.** -/
theorem trim_surrounded {b : α} (hhead : text.head? = some a) (hlast : text.getLast? = some b)
    (ha : p a = false) (hb : q b = false) (before after : List α) :
    ((before ++ text ++ after).dropWhile p).rdropWhile q =
      before.dropWhile p ++ text ++ after.rdropWhile q := by
  rw [dropWhile_surrounded hhead ha, rdropWhile_surrounded hlast hb]

/-- **Surroundings that can be trimmed are trimmed away.** -/
theorem trim_eq {b : α} (hhead : text.head? = some a) (hlast : text.getLast? = some b)
    (ha : p a = false) (hb : q b = false) {before after : List α} (hbefore : ∀ c ∈ before, p c)
    (hafter : ∀ c ∈ after, q c) :
    ((before ++ text ++ after).dropWhile p).rdropWhile q = text := by
  rw [trim_surrounded hhead hlast ha hb, List.dropWhile_eq_nil_iff.2 hbefore,
    List.rdropWhile_eq_nil_iff.2 hafter, List.nil_append, List.append_nil]

/-- A prefix without the element behind a text is a prefix of the text. -/
theorem prefix_of_notMem {pre before rest : List α} (h : pre <+: before ++ a :: rest)
    (ha : a ∉ pre) : pre <+: before := by
  rcases List.prefix_or_prefix_of_prefix h (List.prefix_append before _) with hpre | ⟨tail, rfl⟩
  · exact hpre
  · rw [List.prefix_append_right_inj] at h
    cases tail with
    | nil => simp
    | cons c tail =>
      obtain ⟨rfl, -⟩ := List.cons_prefix_cons.1 h
      exact absurd (List.mem_append_right _ List.mem_cons_self) ha

end Cut
