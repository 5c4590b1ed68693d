import Mathlib.Data.List.Basic
import Mathlib.Tactic.Common

/-!
# Rows of cells

A row is a line of cells between bars, and a bar behind an escape belongs to the text of its cell.

* `bars_escape` : an escaped text has no bar of its own;
* `isRow_row_iff` : **a row is one line of as many cells as it is built from exactly when each cell
  fits: it does not break the line and has no bar of its own.**
-/

namespace Cells

/-- The characters that make up a table. -/
structure Marks (α : Type*) where
  /-- What separates two cells. -/
  bar : α
  /-- What makes the next character a plain one. -/
  esc : α
  /-- What stands around a cell. -/
  blank : α
  /-- The characters that end a line. -/
  isBreak : α → Bool
  bar_ne_esc : bar ≠ esc
  blank_ne_bar : blank ≠ bar
  blank_ne_esc : blank ≠ esc
  isBreak_bar : isBreak bar = false
  isBreak_blank : isBreak blank = false

variable {α : Type*} [DecidableEq α] (m : Marks α)

/-- The texts between the bars; `escaped` says whether an escape stands before. -/
def pieces (escaped : Bool) : List α → List (List α)
  | [] => [[]]
  | c :: cs =>
    if !escaped && c = m.bar then [] :: pieces false cs
    else (pieces (!escaped && c = m.esc) cs).modifyHead (c :: ·)

/-- The cells of a row: what stands outside the outer bars is none. -/
def cells (line : List α) : List (List α) := (pieces m false line).tail.dropLast

/-- The number of bars that are not escaped. -/
def bars (escaped : Bool) : List α → ℕ
  | [] => 0
  | c :: cs =>
    if !escaped && c = m.bar then bars false cs + 1 else bars (!escaped && c = m.esc) cs

/-- A row with some cells. -/
def row (texts : List (List α)) : List α :=
  m.bar :: m.blank :: ([m.blank, m.bar, m.blank].intercalate texts ++ [m.blank, m.bar])

/-- Escapes are doubled, and bars escaped. -/
def escape (text : List α) : List α :=
  (text.flatMap fun c => if c = m.esc then [m.esc, m.esc] else [c]).flatMap fun c =>
    if c = m.bar then [m.esc, m.bar] else [c]

/-- The text is one line of `n` cells. -/
structure IsRow (n : ℕ) (line : List α) : Prop where
  unbroken : ∀ c ∈ line, m.isBreak c = false
  length : (cells m line).length = n

/-- The text fits into one cell. -/
structure Fits (text : List α) : Prop where
  unbroken : ∀ c ∈ text, m.isBreak c = false
  bars : bars m false text = 0

/-- A character that has no part in the layout. -/
structure Plain (c : α) : Prop where
  ne_bar : c ≠ m.bar
  ne_esc : c ≠ m.esc
  unbroken : m.isBreak c = false

instance (text : List α) : Decidable (Fits m text) :=
  decidable_of_iff ((text.all fun c => !m.isBreak c) = true ∧ bars m false text = 0)
    ⟨fun h => ⟨by simpa using h.1, h.2⟩, fun h => ⟨by simpa using h.unbroken, h.bars⟩⟩

instance (n : ℕ) (line : List α) : Decidable (IsRow m n line) :=
  decidable_of_iff ((line.all fun c => !m.isBreak c) = true ∧ (cells m line).length = n)
    ⟨fun h => ⟨by simpa using h.1, h.2⟩, fun h => ⟨by simpa using h.unbroken, h.length⟩⟩

variable {m}

/-! ### Counting bars -/

@[simp] theorem bars_nil (escaped : Bool) : bars m escaped [] = 0 := rfl

@[simp] theorem bars_bar (cs : List α) : bars m false (m.bar :: cs) = bars m false cs + 1 := by
  simp [bars]

theorem bars_esc (c : α) (cs : List α) : bars m false (m.esc :: c :: cs) = bars m false cs := by
  simp [bars, m.bar_ne_esc.symm]

theorem bars_cons_of_ne {c : α} (hbar : c ≠ m.bar) (hesc : c ≠ m.esc) (escaped : Bool)
    (cs : List α) : bars m escaped (c :: cs) = bars m false cs := by
  simp [bars, hbar, hesc]

/-- There is one piece more than there are bars. -/
theorem length_pieces (escaped : Bool) (cs : List α) :
    (pieces m escaped cs).length = bars m escaped cs + 1 := by
  induction cs generalizing escaped with
  | nil => rfl
  | cons c cs ih =>
    rw [pieces, bars]
    split_ifs
    · rw [List.length_cons, ih]
    · rw [List.length_modifyHead, ih]

theorem length_cells (line : List α) : (cells m line).length = bars m false line - 1 := by
  rw [cells, List.length_dropLast, List.length_tail, length_pieces, Nat.add_sub_cancel]

/-- A plain character ends any escape before it. -/
theorem bars_append_cons {c : α} (hbar : c ≠ m.bar) (hesc : c ≠ m.esc) (escaped : Bool)
    (cs ds : List α) :
    bars m escaped (cs ++ c :: ds) = bars m escaped cs + bars m false ds := by
  induction cs generalizing escaped with
  | nil => rw [List.nil_append, bars_cons_of_ne hbar hesc, bars_nil, Nat.zero_add]
  | cons d cs ih =>
    rw [List.cons_append, bars, bars]
    split_ifs
    · rw [ih, Nat.add_right_comm]
    · exact ih _

/-- **An escaped text has no bar of its own.** -/
theorem bars_escape (text : List α) : bars m false (escape m text) = 0 := by
  induction text with
  | nil => rfl
  | cons c text ih =>
    rw [escape, List.flatMap_cons, List.flatMap_append, ← escape]
    by_cases hesc : c = m.esc
    · have hescape : ([m.esc, m.esc].flatMap fun c => if c = m.bar then [m.esc, m.bar] else [c]) =
          [m.esc, m.esc] := by
        simp [m.bar_ne_esc.symm]
      rw [if_pos hesc, hescape, List.cons_append, List.cons_append, bars_esc]
      exact ih
    · rw [if_neg hesc, List.flatMap_singleton]
      by_cases hbar : c = m.bar
      · rw [if_pos hbar, List.cons_append, List.cons_append, bars_esc]
        exact ih
      · rw [if_neg hbar, List.cons_append, bars_cons_of_ne hbar hesc]
        exact ih

/-! ### What fits into a cell -/

theorem fits_nil : Fits m [] := ⟨by simp, rfl⟩

/-- A plain character cuts a text into parts that fit or not on their own. -/
theorem fits_append_cons {c : α} (hc : Plain m c) (cs ds : List α) :
    Fits m (cs ++ c :: ds) ↔ Fits m cs ∧ Fits m ds := by
  constructor
  · rintro ⟨hline, hbars⟩
    rw [bars_append_cons hc.ne_bar hc.ne_esc] at hbars
    exact ⟨⟨fun d hd => hline d (List.mem_append_left _ hd), by omega⟩,
      ⟨fun d hd => hline d (List.mem_append_right _ (.tail _ hd)), by omega⟩⟩
  · rintro ⟨hcs, hds⟩
    refine ⟨?_, ?_⟩
    · intro d hd
      rcases List.mem_append.1 hd with hd | hd
      · exact hcs.unbroken d hd
      · rcases List.mem_cons.1 hd with rfl | hd
        · exact hc.unbroken
        · exact hds.unbroken d hd
    · rw [bars_append_cons hc.ne_bar hc.ne_esc, hcs.bars, hds.bars]

theorem fits_cons {c : α} (hc : Plain m c) (cs : List α) : Fits m (c :: cs) ↔ Fits m cs := by
  rw [← List.nil_append (c :: cs), fits_append_cons hc, and_iff_right fits_nil]

theorem fits_of_plain {cs : List α} (h : ∀ c ∈ cs, Plain m c) : Fits m cs := by
  induction cs with
  | nil => exact fits_nil
  | cons c cs ih =>
    exact (fits_cons (h c (.head _)) cs).2 (ih fun d hd => h d (.tail _ hd))

theorem fits_intercalate {c : α} (hc : Plain m c) {texts : List (List α)}
    (h : ∀ text ∈ texts, Fits m text) : Fits m ([c].intercalate texts) := by
  induction texts with
  | nil => exact fits_nil
  | cons text texts ih =>
    have hrest := ih fun text ht => h text (.tail _ ht)
    cases texts with
    | nil => simpa using h text (.head _)
    | cons text' texts =>
      rw [List.intercalate_cons_cons, List.append_assoc, List.singleton_append]
      exact (fits_append_cons hc _ _).2 ⟨h text (.head _), hrest⟩

/-! ### Rows -/

/-- Every text is followed by a bar; there is no other exactly when no text has one of its own. -/
theorem bars_intercalate {texts : List (List α)} (h : texts ≠ []) :
    texts.length ≤
        bars m false ([m.blank, m.bar, m.blank].intercalate texts ++ [m.blank, m.bar]) ∧
      (bars m false ([m.blank, m.bar, m.blank].intercalate texts ++ [m.blank, m.bar]) =
          texts.length ↔ ∀ text ∈ texts, bars m false text = 0) := by
  induction texts with
  | nil => exact absurd rfl h
  | cons text texts ih =>
    cases texts with
    | nil => simp [bars_append_cons m.blank_ne_bar m.blank_ne_esc]
    | cons text' texts =>
      obtain ⟨hle, hiff⟩ := ih (List.cons_ne_nil _ _)
      rw [List.intercalate_cons_cons, List.append_assoc, List.append_assoc, List.cons_append,
        bars_append_cons m.blank_ne_bar m.blank_ne_esc, List.cons_append, bars_bar,
        List.cons_append, bars_cons_of_ne m.blank_ne_bar m.blank_ne_esc, List.nil_append,
        List.forall_mem_cons, ← hiff, List.length_cons]
      omega

omit [DecidableEq α] in
theorem line_intercalate {texts : List (List α)} :
    (∀ c ∈ [m.blank, m.bar, m.blank].intercalate texts ++ [m.blank, m.bar], m.isBreak c = false) ↔
      ∀ text ∈ texts, ∀ c ∈ text, m.isBreak c = false := by
  have hsep (ds : List α) :
      (∀ c ∈ [m.blank, m.bar, m.blank] ++ ds, m.isBreak c = false) ↔
        ∀ c ∈ ds, m.isBreak c = false := by
    simp [m.isBreak_bar, m.isBreak_blank]
  induction texts with
  | nil => simp [m.isBreak_bar, m.isBreak_blank]
  | cons text texts ih =>
    cases texts with
    | nil => simp [or_imp, forall_and, m.isBreak_bar, m.isBreak_blank]
    | cons text' texts =>
      rw [List.intercalate_cons_cons, List.append_assoc, List.append_assoc, List.forall_mem_append,
        hsep, List.forall_mem_cons]
      exact and_congr_right fun _ => ih

/-- **A row has the cells that it is built from exactly when each of them fits.** -/
theorem isRow_row_iff {texts : List (List α)} (h : texts ≠ []) :
    IsRow m texts.length (row m texts) ↔ ∀ text ∈ texts, Fits m text := by
  have hline : (∀ c ∈ row m texts, m.isBreak c = false) ↔
      ∀ text ∈ texts, ∀ c ∈ text, m.isBreak c = false := by
    rw [row, List.forall_mem_cons, List.forall_mem_cons, line_intercalate,
      and_iff_right m.isBreak_bar, and_iff_right m.isBreak_blank]
  have hlength : (cells m (row m texts)).length = texts.length ↔
      ∀ text ∈ texts, bars m false text = 0 := by
    rw [length_cells, row, bars_bar, bars_cons_of_ne m.blank_ne_bar m.blank_ne_esc,
      Nat.add_sub_cancel]
    exact (bars_intercalate h).2
  constructor
  · rintro ⟨hl, hn⟩ text htext
    exact ⟨hline.1 hl text htext, hlength.1 hn text htext⟩
  · intro hfits
    exact ⟨hline.2 fun text htext => (hfits text htext).unbroken,
      hlength.2 fun text htext => (hfits text htext).bars⟩

end Cells
