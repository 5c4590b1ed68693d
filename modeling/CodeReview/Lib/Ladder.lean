import Mathlib.Algebra.GroupWithZero.Nat
import Mathlib.Algebra.Order.BigOperators.Group.List
import Mathlib.Data.List.Forall2
import Mathlib.Logic.Relation
import Mathlib.Tactic.Common

/-!
# Lowering the largest

Every element stands on a ladder: it can be lowered, one rung at a time, and each rung makes it
smaller, until it is at the bottom.  A greedy loop lowers the first largest element of a list until
the sizes together fit a budget, and gives up when that element is at the bottom.

* `descend_below`, `descend_ends` : the loop only lowers, and has enough rungs to end by itself;
* `below_descend_of_trap` : a list at which the loop gives up is never passed;
* `trap_iff` : every such list lies below the level list, where each element is lowered by itself to
  the size of the largest bottom;
* `fits_or_bottom_iff` : **the loop fits the budget, or lowers everything to the bottom, exactly
  when the level list does.**
-/

/-- What elements weigh and how they are lowered. -/
structure Ladder (α : Type) where
  size : α → ℕ
  /-- One rung down; `none` at the bottom. -/
  lower : α → Option α
  /-- The number of rungs down to the bottom. -/
  rungs : α → ℕ
  size_lt : ∀ {a b}, lower a = some b → size b < size a
  rungs_eq : ∀ {a b}, lower a = some b → rungs a = rungs b + 1
  rungs_pos : ∀ {a}, 0 < rungs a → ∃ b, lower a = some b

namespace Ladder

variable {α : Type} (L : Ladder α)

/-- Somewhere down the ladder. -/
def Below : α → α → Prop := Relation.ReflTransGen fun a b => L.lower a = some b

/-- Nothing is left to lower. -/
def AtBottom (a : α) : Prop := L.lower a = none

/-- The size of a list. -/
def total (xs : List α) : ℕ := (xs.map L.size).sum

variable {L}

theorem size_le_of_below {a b : α} (h : L.Below a b) : L.size b ≤ L.size a := by
  induction h with
  | refl => exact le_rfl
  | tail _ hstep ih => exact (L.size_lt hstep).le.trans ih

theorem eq_of_below {a b : α} (h : L.Below a b) (hsize : L.size a ≤ L.size b) : a = b := by
  rcases h.cases_head with heq | ⟨c, hstep, hrest⟩
  · exact heq
  · have hlt := L.size_lt hstep
    have hle := size_le_of_below hrest
    omega

theorem AtBottom.eq_of_below {a b : α} (ha : L.AtBottom a) (h : L.Below a b) : a = b := by
  rcases h.cases_head with heq | ⟨c, hstep, -⟩
  · exact heq
  · cases ha.symm.trans hstep

/-- A ladder has one way down. -/
theorem below_of_lower {a b c : α} (hstep : L.lower a = some b) (h : L.Below a c) :
    a = c ∨ L.Below b c := by
  rcases h.cases_head with heq | ⟨b', hstep', hrest⟩
  · exact .inl heq
  · obtain rfl := Option.some.inj (hstep.symm.trans hstep')
    exact .inr hrest

theorem not_atBottom_of_below {a b : α} (h : L.Below a b) (hb : ¬ L.AtBottom b) :
    ¬ L.AtBottom a := fun ha => hb (ha.eq_of_below h ▸ ha)

theorem atBottom_iff {a : α} : L.AtBottom a ↔ L.rungs a = 0 := by
  constructor
  · intro h
    by_contra hpos
    obtain ⟨b, hb⟩ := L.rungs_pos (Nat.pos_of_ne_zero hpos)
    cases h.symm.trans hb
  · intro h
    cases hlower : L.lower a with
    | none => exact hlower
    | some b =>
      have heq := L.rungs_eq hlower
      omega

/-! ### Lowering one element -/

variable (L)

/-- Lower while the size is above the bound. -/
def lowerWhile (bound : ℕ) : ℕ → α → α
  | 0, a => a
  | n + 1, a =>
    if bound < L.size a then
      match L.lower a with
      | none => a
      | some b => lowerWhile bound n b
    else a

/-- The first element down the ladder that is no larger than the bound, or the bottom. -/
def lowerTo (bound : ℕ) (a : α) : α := L.lowerWhile bound (L.rungs a) a

/-- The bottom of the ladder. -/
def bottom (a : α) : α := L.lowerTo 0 a

variable {L}

theorem lowerWhile_spec {bound n : ℕ} {a : α} (h : L.rungs a ≤ n) :
    L.Below a (L.lowerWhile bound n a) ∧
      (L.size (L.lowerWhile bound n a) ≤ bound ∨ L.AtBottom (L.lowerWhile bound n a)) ∧
        ∀ c, L.Below a c → L.size c ≤ bound → L.Below (L.lowerWhile bound n a) c := by
  induction n generalizing a with
  | zero => exact ⟨.refl, .inr (atBottom_iff.2 (Nat.le_zero.1 h)), fun c hc _ => hc⟩
  | succ n ih =>
    unfold lowerWhile
    split_ifs with hbound
    · cases hlower : L.lower a with
      | none => exact ⟨.refl, .inr hlower, fun c hc _ => hc⟩
      | some b =>
        have hrungs := L.rungs_eq hlower
        obtain ⟨hbelow, hend, hleast⟩ := @ih b (by omega)
        refine ⟨.head hlower hbelow, hend, ?_⟩
        intro c hc hsize
        rcases below_of_lower hlower hc with rfl | hrest
        · omega
        · exact hleast c hrest hsize
    · exact ⟨.refl, .inl (not_lt.1 hbound), fun c hc _ => hc⟩

theorem below_lowerTo (bound : ℕ) (a : α) : L.Below a (L.lowerTo bound a) :=
  (lowerWhile_spec le_rfl).1

theorem lowerTo_le_or (bound : ℕ) (a : α) :
    L.size (L.lowerTo bound a) ≤ bound ∨ L.AtBottom (L.lowerTo bound a) :=
  (lowerWhile_spec le_rfl).2.1

/-- It is not lowered further than necessary. -/
theorem lowerTo_below {bound : ℕ} {a c : α} (h : L.Below a c) (hsize : L.size c ≤ bound) :
    L.Below (L.lowerTo bound a) c := (lowerWhile_spec le_rfl).2.2 c h hsize

theorem atBottom_bottom (a : α) : L.AtBottom (L.bottom a) := by
  rcases @lowerTo_le_or α L 0 a with hsize | hbottom
  · cases hlower : L.lower (L.bottom a) with
    | none => exact hlower
    | some b =>
      have hlt := L.size_lt hlower
      have hzero : L.size (L.bottom a) ≤ 0 := hsize
      omega
  · exact hbottom

/-- Every way down ends at the bottom. -/
theorem below_bottom {a b : α} (h : L.Below a b) : L.Below b (L.bottom a) := by
  have hunique : Relator.RightUnique fun a b => L.lower a = some b := fun a b c hb hc =>
    Option.some.inj (hb.symm.trans hc)
  rcases Relation.ReflTransGen.total_of_right_unique hunique h (below_lowerTo 0 a) with hdown | hup
  · exact hdown
  · have heq := (atBottom_bottom a).eq_of_below hup
    exact heq ▸ .refl

theorem eq_bottom {a b : α} (h : L.Below a b) (hb : L.AtBottom b) : b = L.bottom a :=
  hb.eq_of_below (below_bottom h)

/-! ### The greedy loop -/

/-- The first largest element of the list, and where it is. -/
structure IsFirstLargest (L : Ladder α) (xs : List α) (i : ℕ) (x : α) : Prop where
  mem : xs[i]? = some x
  largest : ∀ (j : ℕ) (y : α), xs[j]? = some y → L.size y ≤ L.size x
  first : ∀ (j : ℕ) (y : α), xs[j]? = some y → j < i → L.size y < L.size x

/-- The step lowers the first largest element, where it is not at the bottom. -/
structure Lowers (L : Ladder α) (step : List α → Option (List α)) : Prop where
  nil : step [] = none
  cons : ∀ xs ≠ [], ∃ i x, L.IsFirstLargest xs i x ∧ step xs = (L.lower x).map (xs.set i)

/-- Lower until the list fits the budget, for at most so many steps. -/
def descend (L : Ladder α) (step : List α → Option (List α)) (budget : ℤ) : ℕ → List α → List α
  | 0, xs => xs
  | n + 1, xs =>
    if (L.total xs : ℤ) ≤ budget then xs
    else
      match step xs with
      | none => xs
      | some ys => L.descend step budget n ys

theorem IsFirstLargest.unique {xs : List α} {i j : ℕ} {x y : α} (h : L.IsFirstLargest xs i x)
    (h' : L.IsFirstLargest xs j y) : i = j ∧ x = y := by
  have hle := h.largest _ _ h'.mem
  have hge := h'.largest _ _ h.mem
  have hij : i = j := by
    rcases lt_trichotomy i j with hlt | heq | hgt
    · have hlt' := h'.first _ _ h.mem hlt
      omega
    · exact heq
    · have hlt' := h.first _ _ h'.mem hgt
      omega
  refine ⟨hij, Option.some.inj ?_⟩
  rw [← h.mem, ← h'.mem, hij]

theorem sum_map_set {f : α → ℕ} {xs : List α} {i : ℕ} {x y : α} (h : xs[i]? = some x) :
    ((xs.set i y).map f).sum + f x = (xs.map f).sum + f y := by
  induction xs generalizing i with
  | nil => cases h
  | cons a xs ih =>
    cases i with
    | zero =>
      obtain rfl := Option.some.inj h
      simp only [List.set_cons_zero, List.map_cons, List.sum_cons]
      omega
    | succ i =>
      have hrest := @ih i h
      simp only [List.set_cons_succ, List.map_cons, List.sum_cons]
      omega

/-- Two lists, element by element. -/
theorem forall₂_set {β : Type} {R : α → β → Prop} {xs : List α} {ys : List β} {i : ℕ} {a : α}
    (h : List.Forall₂ R xs ys) (ha : ∀ b, ys[i]? = some b → R a b) :
    List.Forall₂ R (xs.set i a) ys := by
  induction h generalizing i with
  | nil => exact .nil
  | @cons x b xs ys hxb hrest ih =>
    cases i with
    | zero => exact .cons (ha b rfl) hrest
    | succ i => exact .cons hxb (ih fun c hc => ha c hc)

theorem exists_of_forall₂ {β : Type} {R : α → β → Prop} {xs : List α} {ys : List β}
    (h : List.Forall₂ R xs ys) {i : ℕ} {a : α} (hi : xs[i]? = some a) :
    ∃ b, ys[i]? = some b ∧ R a b := by
  induction h generalizing i with
  | nil => cases hi
  | @cons x b xs ys hxb hrest ih =>
    cases i with
    | zero => exact ⟨b, rfl, Option.some.inj hi ▸ hxb⟩
    | succ i => exact ih hi

theorem below_trans {xs ys zs : List α} (h : List.Forall₂ L.Below xs ys)
    (h' : List.Forall₂ L.Below ys zs) : List.Forall₂ L.Below xs zs := by
  induction h generalizing zs with
  | nil => exact h'
  | cons hab _ ih =>
    cases h' with
    | cons hbc hrest => exact .cons (hab.trans hbc) (ih hrest)

theorem total_le_of_below {xs ys : List α} (h : List.Forall₂ L.Below xs ys) :
    L.total ys ≤ L.total xs := by
  induction h with
  | nil => exact le_rfl
  | cons hab _ ih => exact Nat.add_le_add (size_le_of_below hab) ih

/-- The element above the one at a place. -/
theorem exists_above {xs ys : List α} (h : List.Forall₂ L.Below xs ys) {i : ℕ} {y : α}
    (hi : ys[i]? = some y) : ∃ x, xs[i]? = some x ∧ L.Below x y := by
  have hflip : List.Forall₂ (flip L.Below) ys xs := List.Forall₂.flip h
  exact exists_of_forall₂ hflip hi

theorem exists_not_atBottom {xs ys : List α} (h : List.Forall₂ L.Below xs ys)
    (hys : ∃ y ∈ ys, ¬ L.AtBottom y) : ∃ x ∈ xs, ¬ L.AtBottom x := by
  obtain ⟨y, hy, hleft⟩ := hys
  obtain ⟨i, hi⟩ := List.mem_iff_getElem?.1 hy
  obtain ⟨x, hx, hxy⟩ := exists_above h hi
  exact ⟨x, List.mem_iff_getElem?.2 ⟨i, hx⟩, not_atBottom_of_below hxy hleft⟩

section

variable {step : List α → Option (List α)} {budget : ℤ} (hstep : L.Lowers step)
include hstep

/-- One step lowers one element. -/
theorem below_of_step {xs ys : List α} (h : step xs = some ys) :
    List.Forall₂ L.Below xs ys ∧ (ys.map L.rungs).sum + 1 = (xs.map L.rungs).sum := by
  by_cases hnil : xs = []
  · subst hnil
    cases hstep.nil.symm.trans h
  obtain ⟨i, x, hx, hsome⟩ := hstep.cons xs hnil
  obtain ⟨b, hb, rfl⟩ := Option.map_eq_some_iff.1 (hsome.symm.trans h)
  constructor
  · have hrefl : List.Forall₂ (flip L.Below) xs xs :=
      List.forall₂_same.2 fun a _ => (.refl : L.Below a a)
    refine List.Forall₂.flip (forall₂_set hrefl ?_)
    intro c hc
    obtain rfl := Option.some.inj (hx.mem.symm.trans hc)
    exact (.single hb : L.Below x b)
  · have hsum := @sum_map_set α L.rungs xs i x b hx.mem
    have hrungs := L.rungs_eq hb
    omega

/-- The loop only lowers. -/
theorem descend_below (n : ℕ) (xs : List α) :
    List.Forall₂ L.Below xs (L.descend step budget n xs) := by
  have hrefl (xs : List α) : List.Forall₂ L.Below xs xs := List.forall₂_same.2 fun _ _ => .refl
  induction n generalizing xs with
  | zero => exact hrefl xs
  | succ n ih =>
    unfold descend
    split_ifs
    · exact hrefl xs
    · cases hys : step xs with
      | none => exact hrefl xs
      | some ys =>
        exact below_trans (below_of_step hstep hys).1 (ih ys)

/-- With a step for every rung, the loop ends within the budget or where it gives up. -/
theorem descend_ends {n : ℕ} {xs : List α} (hn : (xs.map L.rungs).sum ≤ n) :
    (L.total (L.descend step budget n xs) : ℤ) ≤ budget ∨
      step (L.descend step budget n xs) = none := by
  induction n generalizing xs with
  | zero =>
    right
    show step xs = none
    cases hys : step xs with
    | none => rfl
    | some ys =>
      have hrungs := (below_of_step hstep hys).2
      omega
  | succ n ih =>
    unfold descend
    split_ifs with hfits
    · exact .inl hfits
    · cases hys : step xs with
      | none => exact .inr hys
      | some ys =>
        have hrungs := (below_of_step hstep hys).2
        exact ih (by omega)

/-- The list fits the budget, or nothing of it can be lowered. -/
def FitsOrBottom (L : Ladder α) (budget : ℤ) (xs : List α) : Prop :=
  (L.total xs : ℤ) ≤ budget ∨ ∀ x ∈ xs, L.AtBottom x

/-- A list further down that is over the budget and not at the bottom, where the loop gives up. -/
structure Trap (L : Ladder α) (step : List α → Option (List α)) (budget : ℤ) (xs ys : List α) :
    Prop where
  below : List.Forall₂ L.Below xs ys
  exceeds : budget < L.total ys
  left : ∃ y ∈ ys, ¬ L.AtBottom y
  stuck : step ys = none

/-- A first largest element that is not at the bottom is lowered. -/
theorem step_ne_none {xs : List α} {i : ℕ} {x b : α} (hx : L.IsFirstLargest xs i x)
    (hb : L.lower x = some b) : step xs ≠ none := by
  intro hnone
  have hne : xs ≠ [] := by
    rintro rfl
    cases hx.mem
  obtain ⟨j, y, hy, hsome⟩ := hstep.cons xs hne
  rw [← (hx.unique hy).2, hb, hnone] at hsome
  cases hsome

/-- **The loop never passes a trap.** -/
theorem below_descend_of_trap {xs ys : List α} (h : L.Trap step budget xs ys) (n : ℕ) :
    List.Forall₂ L.Below (L.descend step budget n xs) ys := by
  obtain ⟨hbelow, -, -, hstuck⟩ := h
  induction n generalizing xs with
  | zero => exact hbelow
  | succ n ih =>
    unfold descend
    split_ifs
    · exact hbelow
    · cases hzs : step xs with
      | none => exact hbelow
      | some zs =>
        have hne : xs ≠ [] := by
          rintro rfl
          cases hstep.nil.symm.trans hzs
        obtain ⟨i, x, hx, hsome⟩ := hstep.cons xs hne
        obtain ⟨b, hb, rfl⟩ := Option.map_eq_some_iff.1 (hsome.symm.trans hzs)
        obtain ⟨y, hy, hxy⟩ := exists_of_forall₂ hbelow hx.mem
        refine ih (forall₂_set hbelow ?_)
        intro c hc
        obtain rfl := Option.some.inj (hy.symm.trans hc)
        -- were the element as low as in the trap, it would be the first largest there
        refine (below_of_lower hb hxy).resolve_left ?_
        intro heq
        subst heq
        refine step_ne_none hstep ⟨hy, fun j z hz => ?_, fun j z hz hj => ?_⟩ hb hstuck
        · obtain ⟨w, hw, hwz⟩ := exists_above hbelow hz
          exact (size_le_of_below hwz).trans (hx.largest j w hw)
        · obtain ⟨w, hw, hwz⟩ := exists_above hbelow hz
          exact (size_le_of_below hwz).trans_lt (hx.first j w hw hj)

/-- The loop fits the budget or ends at the bottom, unless there is a trap. -/
theorem fitsOrBottom_descend_iff {n : ℕ} {xs : List α} (hn : (xs.map L.rungs).sum ≤ n) :
    L.FitsOrBottom budget (L.descend step budget n xs) ↔
      ¬ ∃ ys, L.Trap step budget xs ys := by
  constructor
  · rintro hend ⟨ys, htrap⟩
    have hbelow := below_descend_of_trap hstep htrap n
    rcases hend with hfits | hbottom
    · have hle : (L.total ys : ℤ) ≤ L.total (L.descend step budget n xs) := by
        exact_mod_cast total_le_of_below hbelow
      have hover := htrap.exceeds
      omega
    · obtain ⟨x, hx, hleft⟩ := exists_not_atBottom hbelow htrap.left
      exact hleft (hbottom x hx)
  · intro hfree
    by_contra hend
    rw [FitsOrBottom, not_or, not_le] at hend
    obtain ⟨hover, hleft⟩ := hend
    push Not at hleft
    have hstuck := (descend_ends hstep hn).resolve_left (not_le.2 hover)
    exact hfree ⟨_, descend_below hstep n xs, hover, hleft, hstuck⟩

end

/-! ### The level list -/

variable (L)

/-- The size of the largest bottom. -/
def largestBottom (xs : List α) : ℕ := (xs.map fun x => L.size (L.bottom x)).foldr max 0

/-- The first element with a bottom of that size. -/
def firstBottom (xs : List α) : ℕ :=
  xs.findIdx fun x => L.size (L.bottom x) = L.largestBottom xs

/-- Every element lowered by itself to the largest bottom, and below it before the first one. -/
def level (xs : List α) : List α :=
  xs.mapIdx fun i x =>
    L.lowerTo (if i < L.firstBottom xs then L.largestBottom xs - 1 else L.largestBottom xs) x

variable {L}

theorem bottom_le_largestBottom {xs : List α} {x : α} (h : x ∈ xs) :
    L.size (L.bottom x) ≤ L.largestBottom xs := by
  induction xs with
  | nil => cases h
  | cons a xs ih =>
    show L.size (L.bottom x) ≤ max (L.size (L.bottom a)) (L.largestBottom xs)
    rcases List.mem_cons.1 h with rfl | h
    · exact le_max_left _ _
    · exact (ih h).trans (le_max_right _ _)

theorem exists_largestBottom {xs : List α} (h : xs ≠ []) :
    ∃ x ∈ xs, L.size (L.bottom x) = L.largestBottom xs := by
  induction xs with
  | nil => exact absurd rfl h
  | cons a xs ih =>
    have hmax : L.largestBottom (a :: xs) = max (L.size (L.bottom a)) (L.largestBottom xs) := rfl
    by_cases hxs : xs = []
    · subst hxs
      exact ⟨a, List.mem_cons_self, (max_eq_left (Nat.zero_le _)).symm⟩
    · obtain ⟨x, hx, hsize⟩ := ih hxs
      rcases le_total (L.size (L.bottom a)) (L.largestBottom xs) with hle | hle
      · exact ⟨x, List.mem_cons_of_mem _ hx, by rw [hmax, max_eq_right hle, hsize]⟩
      · exact ⟨a, List.mem_cons_self, by rw [hmax, max_eq_left hle]⟩

/-- The first largest among the bottoms. -/
theorem isFirstLargest_bottom {xs : List α} (h : xs ≠ []) : ∃ x, xs[L.firstBottom xs]? = some x ∧
    L.size (L.bottom x) = L.largestBottom xs ∧
      ∀ (j : ℕ) (y : α), xs[j]? = some y → j < L.firstBottom xs →
        L.size (L.bottom y) < L.largestBottom xs := by
  obtain ⟨a, ha, hsize⟩ := @exists_largestBottom α L xs h
  have hlt : L.firstBottom xs < xs.length :=
    List.findIdx_lt_length_of_exists ⟨a, ha, decide_eq_true hsize⟩
  refine ⟨_, List.getElem?_eq_getElem hlt, of_decide_eq_true (List.findIdx_getElem (w := hlt)), ?_⟩
  intro j y hy hj
  have hne := List.not_of_lt_findIdx hj
  obtain ⟨hjlt, rfl⟩ := List.getElem?_eq_some_iff.1 hy
  refine lt_of_le_of_ne (bottom_le_largestBottom (List.getElem_mem hjlt)) ?_
  exact of_decide_eq_false hne

theorem forall₂_of_getElem? {β : Type} {R : α → β → Prop} {xs : List α} {ys : List β}
    (hlen : xs.length = ys.length)
    (h : ∀ (i : ℕ) (x : α) (y : β), xs[i]? = some x → ys[i]? = some y → R x y) :
    List.Forall₂ R xs ys :=
  List.forall₂_iff_get.2 ⟨hlen, fun i h₁ h₂ =>
    h i _ _ (List.getElem?_eq_getElem h₁) (List.getElem?_eq_getElem h₂)⟩

/-- The bound of an element. -/
theorem exists_of_level {xs : List α} {i : ℕ} {y : α} (h : (L.level xs)[i]? = some y) :
    ∃ x, xs[i]? = some x ∧ y = L.lowerTo
      (if i < L.firstBottom xs then L.largestBottom xs - 1 else L.largestBottom xs) x := by
  rw [level, List.getElem?_mapIdx, Option.map_eq_some_iff] at h
  obtain ⟨x, hx, rfl⟩ := h
  exact ⟨x, hx, rfl⟩

theorem below_level (xs : List α) : List.Forall₂ L.Below xs (L.level xs) := by
  refine forall₂_of_getElem? (List.length_mapIdx).symm ?_
  intro i x y hx hy
  obtain ⟨x', hx', rfl⟩ := exists_of_level hy
  obtain rfl := Option.some.inj (hx.symm.trans hx')
  exact below_lowerTo _ _

/-- In the level list the largest element is at the bottom. -/
theorem isFirstLargest_level {xs : List α} (h : xs ≠ []) :
    ∃ i x, L.IsFirstLargest (L.level xs) i x ∧ L.AtBottom x := by
  obtain ⟨x₀, hx₀, hsize, hfirst⟩ := @isFirstLargest_bottom α L xs h
  have hlevel : L.lowerTo (L.largestBottom xs) x₀ = L.bottom x₀ := by
    rcases lowerTo_le_or (L.largestBottom xs) x₀ with hle | hbottom
    · exact eq_of_below (below_bottom (below_lowerTo _ _)) (hle.trans hsize.ge)
    · exact eq_bottom (below_lowerTo _ _) hbottom
  refine ⟨L.firstBottom xs, L.bottom x₀, ⟨?_, fun j y hy => ?_, fun j y hy hj => ?_⟩,
    atBottom_bottom _⟩
  · rw [level, List.getElem?_mapIdx, hx₀, Option.map_some, if_neg (lt_irrefl _), hlevel]
  · obtain ⟨x, hx, rfl⟩ := exists_of_level hy
    rw [hsize]
    rcases lowerTo_le_or (if j < L.firstBottom xs then L.largestBottom xs - 1
      else L.largestBottom xs) x with hle | hbottom
    · refine hle.trans ?_
      split_ifs <;> omega
    · rw [eq_bottom (below_lowerTo _ _) hbottom]
      exact bottom_le_largestBottom (List.mem_iff_getElem?.2 ⟨j, hx⟩)
  · obtain ⟨x, hx, rfl⟩ := exists_of_level hy
    have hlt := hfirst j x hx hj
    rw [hsize, if_pos hj]
    rcases @lowerTo_le_or α L (L.largestBottom xs - 1) x with hle | hbottom
    · omega
    · rwa [eq_bottom (below_lowerTo _ _) hbottom]

/-- **The level list is a trap if there is any, and every trap lies below it.** -/
theorem trap_iff {step : List α → Option (List α)} (hstep : L.Lowers step) {budget : ℤ}
    {xs : List α} : (∃ ys, L.Trap step budget xs ys) ↔
      budget < L.total (L.level xs) ∧ ∃ y ∈ L.level xs, ¬ L.AtBottom y := by
  constructor
  · rintro ⟨ys, hbelow, hover, hleft, hstuck⟩
    have hys : ys ≠ [] := by
      rintro rfl
      obtain ⟨y, hy, -⟩ := hleft
      cases hy
    have hxs : xs ≠ [] := by
      rintro rfl
      cases hbelow
      exact hys rfl
    obtain ⟨j, y, hy, hnone⟩ := hstep.cons ys hys
    rw [hstuck, eq_comm, Option.map_eq_none_iff] at hnone
    obtain ⟨x, hx, hxy⟩ := exists_above hbelow hy.mem
    obtain rfl := eq_bottom hxy hnone
    -- the largest element of the trap is the first largest bottom
    obtain ⟨x₀, hx₀, hsize, hfirst⟩ := @isFirstLargest_bottom α L xs hxs
    obtain ⟨y₀, hy₀, hxy₀⟩ := exists_of_forall₂ hbelow hx₀
    have hle : L.size (L.bottom x) ≤ L.largestBottom xs :=
      bottom_le_largestBottom (List.mem_iff_getElem?.2 ⟨j, hx⟩)
    have hge := size_le_of_below (below_bottom hxy₀)
    have hlargest := hy.largest _ y₀ hy₀
    have hj : j = L.firstBottom xs := by
      rcases lt_trichotomy j (L.firstBottom xs) with hlt | heq | hgt
      · have hlt' := hfirst j x hx hlt
        omega
      · exact heq
      · have hlt' := hy.first _ y₀ hy₀ hgt
        omega
    have hlevel : List.Forall₂ L.Below (L.level xs) ys := by
      refine forall₂_of_getElem? ((List.length_mapIdx).trans hbelow.length_eq) ?_
      intro i z w hz hw
      obtain ⟨v, hv, rfl⟩ := exists_of_level hz
      obtain ⟨w', hw', hvw⟩ := exists_of_forall₂ hbelow hv
      obtain rfl := Option.some.inj (hw.symm.trans hw')
      refine lowerTo_below hvw ?_
      split_ifs with hi
      · have hlt := hy.first i w hw (hj ▸ hi)
        omega
      · exact (hy.largest i w hw).trans hle
    refine ⟨hover.trans_le ?_, exists_not_atBottom hlevel hleft⟩
    exact_mod_cast total_le_of_below hlevel
  · rintro ⟨hover, hleft⟩
    have hxs : xs ≠ [] := by
      rintro rfl
      obtain ⟨y, hy, -⟩ := hleft
      cases hy
    refine ⟨L.level xs, below_level xs, hover, hleft, ?_⟩
    obtain ⟨i, x, hx, hbottom⟩ := @isFirstLargest_level α L xs hxs
    have hne : L.level xs ≠ [] := by
      intro hnil
      obtain ⟨y, hy, -⟩ := hleft
      rw [hnil] at hy
      cases hy
    obtain ⟨j, y, hy, hsome⟩ := hstep.cons _ hne
    have hlower : L.lower x = none := hbottom
    rw [hsome, ← (hx.unique hy).2, hlower]
    rfl

/-- **The loop fits the budget, or lowers everything to the bottom, exactly when the level list
does.** -/
theorem fits_or_bottom_iff {step : List α → Option (List α)} (hstep : L.Lowers step) {budget : ℤ}
    {n : ℕ} {xs : List α} (hn : (xs.map L.rungs).sum ≤ n) :
    L.FitsOrBottom budget (L.descend step budget n xs) ↔ L.FitsOrBottom budget (L.level xs) := by
  rw [fitsOrBottom_descend_iff hstep hn, trap_iff hstep, FitsOrBottom]
  push Not
  constructor
  · intro h
    rcases le_or_gt ((L.total (L.level xs) : ℕ) : ℤ) budget with hfits | hover
    · exact .inl hfits
    · exact .inr (h hover)
  · rintro (hfits | hbottom) hover
    · omega
    · exact hbottom

end Ladder
