import Mathlib.Tactic.Common
import Mathlib.Tactic.SplitIfs
import Mathlib.Data.List.Forall2

/-!
# Results of Python code

A Python function that may raise is a function into `Result`: it returns a value or raises an
exception.  Only what a caller can tell apart is kept of an exception, its class, and for the
classes a program declares itself also its message.

* `bind_eq_ok`, `bind_eq_error` invert one sequencing step; every longer block is peeled apart
  with them, without unfolding the monad;
* `any?` is the builtin `any` over a generator whose test may raise;
* `mapM_eq_ok` says what a loop that calls a raising function once per element returns.
-/

namespace Py

/-- Exceptions.  `user` is an exception class that the interpreter itself does not raise. -/
inductive Exc where
  | typeError
  | valueError
  | overflowError
  | keyError
  | attributeError
  | user (cls msg : String)
  deriving DecidableEq, Repr

/-- `type(exc).__name__`. -/
def Exc.className : Exc → String
  | .typeError => "TypeError"
  | .valueError => "ValueError"
  | .overflowError => "OverflowError"
  | .keyError => "KeyError"
  | .attributeError => "AttributeError"
  | .user cls _ => cls

/-- The result of running a piece of Python. -/
abbrev Result (α : Type) := Except Exc α

namespace Result

variable {ε α β : Type}

@[simp] theorem pure_eq_ok (a : α) : (pure a : Except ε α) = .ok a := rfl

@[simp] theorem ok_bind (a : α) (f : α → Except ε β) : (Except.ok a >>= f) = f a := rfl

@[simp] theorem error_bind (e : ε) (f : α → Except ε β) :
    ((Except.error e : Except ε α) >>= f) = .error e := rfl

@[simp] theorem throw_eq_error (e : ε) : (throw e : Except ε α) = .error e := rfl

theorem bind_eq_ok {x : Except ε α} {f : α → Except ε β} {b : β} :
    (x >>= f) = .ok b ↔ ∃ a, x = .ok a ∧ f a = .ok b := by
  cases x <;> simp

theorem bind_eq_error {x : Except ε α} {f : α → Except ε β} {e : ε} :
    (x >>= f) = .error e ↔ x = .error e ∨ ∃ a, x = .ok a ∧ f a = .error e := by
  cases x <;> simp

/-- The code returned, whatever it returned. -/
def Ok (x : Except ε α) : Prop := ∃ a, x = .ok a

@[simp] theorem ok_ok (a : α) : Ok (.ok a : Except ε α) := ⟨a, rfl⟩

@[simp] theorem not_ok_error (e : ε) : ¬ Ok (.error e : Except ε α) := fun ⟨_, h⟩ => nomatch h

theorem ok_bind_iff {x : Except ε α} {f : α → Except ε β} :
    Ok (x >>= f) ↔ ∃ a, x = .ok a ∧ Ok (f a) := by
  cases x <;> simp

/-- `any(test(a) for a in xs)`: tests are made in order, up to the first one that holds or
raises. -/
def any? (test : α → Except ε Bool) : List α → Except ε Bool
  | [] => .ok false
  | a :: xs => do if ← test a then return true else any? test xs

/-- `[a for a in xs if test(a)]`. -/
def filter? (test : α → Except ε Bool) : List α → Except ε (List α)
  | [] => .ok []
  | a :: xs => do
    let keep ← test a
    let kept ← filter? test xs
    return if keep then a :: kept else kept

theorem mapM_eq_ok {f : α → Except ε β} {xs : List α} {ys : List β} :
    xs.mapM f = .ok ys ↔ List.Forall₂ (fun a b => f a = .ok b) xs ys := by
  induction xs generalizing ys with
  | nil => simp [eq_comm]
  | cons a xs ih =>
    rw [List.mapM_cons, bind_eq_ok]
    constructor
    · rintro ⟨b, hb, h⟩
      obtain ⟨bs, hbs, h⟩ := bind_eq_ok.1 h
      simp only [pure_eq_ok, Except.ok.injEq] at h
      exact h ▸ .cons hb (ih.1 hbs)
    · rintro (_ | ⟨hb, hbs⟩)
      exact ⟨_, hb, by rw [ih.2 hbs]; rfl⟩

theorem map_eq_error {g : α → β} {x : Except ε α} {e : ε} :
    g <$> x = .error e ↔ x = .error e := by
  cases x <;> simp [Functor.map, Except.map]

theorem map_eq_ok {g : α → β} {x : Except ε α} {b : β} :
    g <$> x = .ok b ↔ ∃ a, x = .ok a ∧ g a = b := by
  cases x <;> simp [Functor.map, Except.map]

theorem exists_of_forall₂_left {R : α → β → Prop} {xs : List α} {ys : List β}
    (h : List.Forall₂ R xs ys) {a : α} (ha : a ∈ xs) : ∃ b ∈ ys, R a b := by
  induction h with
  | nil => cases ha
  | cons hab _ ih =>
    rcases List.mem_cons.1 ha with rfl | ha
    · exact ⟨_, List.mem_cons_self, hab⟩
    · obtain ⟨b, hb, hf⟩ := ih ha
      exact ⟨b, List.mem_cons_of_mem _ hb, hf⟩

theorem exists_of_forall₂_right {R : α → β → Prop} {xs : List α} {ys : List β}
    (h : List.Forall₂ R xs ys) {b : β} (hb : b ∈ ys) : ∃ a ∈ xs, R a b :=
  exists_of_forall₂_left h.flip hb

/-- Every element has its result in the list. -/
theorem exists_of_mapM_left {f : α → Except ε β} {xs : List α} {ys : List β}
    (h : xs.mapM f = .ok ys) {a : α} (ha : a ∈ xs) : ∃ b ∈ ys, f a = .ok b :=
  exists_of_forall₂_left (mapM_eq_ok.1 h) ha

/-- Every result in the list is that of an element. -/
theorem exists_of_mapM_right {f : α → Except ε β} {xs : List α} {ys : List β}
    (h : xs.mapM f = .ok ys) {b : β} (hb : b ∈ ys) : ∃ a ∈ xs, f a = .ok b :=
  exists_of_forall₂_right (mapM_eq_ok.1 h) hb

/-- A loop calling `f` on every element returns when every call does. -/
theorem mapM_ok {f : α → Except ε β} {xs : List α} (h : ∀ a ∈ xs, Ok (f a)) :
    Ok (xs.mapM f) := by
  induction xs with
  | nil => exact ⟨[], by simp⟩
  | cons a xs ih =>
    obtain ⟨b, hb⟩ := h a List.mem_cons_self
    obtain ⟨bs, hbs⟩ := ih fun a ha => h a (List.mem_cons_of_mem _ ha)
    exact ⟨b :: bs, by rw [List.mapM_cons, hb, hbs]; rfl⟩

/-- Every element gives a result that is related to it. -/
theorem mapM_forall₂ {f : α → Except ε β} {R : α → β → Prop} {xs : List α}
    (h : ∀ a ∈ xs, ∃ b, f a = .ok b ∧ R a b) :
    ∃ ys, xs.mapM f = .ok ys ∧ List.Forall₂ R xs ys := by
  induction xs with
  | nil => exact ⟨[], rfl, .nil⟩
  | cons a xs ih =>
    obtain ⟨b, hb, hR⟩ := h a List.mem_cons_self
    obtain ⟨bs, hbs, hRs⟩ := ih fun a' ha' => h a' (List.mem_cons_of_mem _ ha')
    exact ⟨b :: bs, by rw [List.mapM_cons, hb, hbs]; rfl, .cons hR hRs⟩

theorem any?_ok {test : α → Except ε Bool} {holds : α → Bool} {xs : List α}
    (h : ∀ a ∈ xs, test a = .ok (holds a)) : any? test xs = .ok (xs.any holds) := by
  induction xs with
  | nil => rfl
  | cons a xs ih =>
    obtain ⟨ha, hxs⟩ := List.forall_mem_cons.1 h
    rw [any?, ha, ok_bind, List.any_cons]
    cases holds a with
    | true => rfl
    | false => exact ih hxs

theorem filter?_ok {test : α → Except ε Bool} {keep : α → Bool} {xs : List α}
    (h : ∀ a ∈ xs, test a = .ok (keep a)) : filter? test xs = .ok (xs.filter keep) := by
  induction xs with
  | nil => rfl
  | cons a xs ih =>
    obtain ⟨ha, hxs⟩ := List.forall_mem_cons.1 h
    rw [filter?, ha, ok_bind, ih hxs, ok_bind, List.filter_cons]
    rfl

/-- What is kept is of the list. -/
theorem mem_of_filter? {test : α → Except ε Bool} {xs kept : List α}
    (h : filter? test xs = .ok kept) : ∀ a ∈ kept, a ∈ xs := by
  induction xs generalizing kept with
  | nil =>
    obtain rfl := Except.ok.inj h
    exact fun a ha => ha
  | cons x xs ih =>
    obtain ⟨keep, -, h⟩ := bind_eq_ok.1 h
    obtain ⟨kept', hkept, h⟩ := bind_eq_ok.1 h
    obtain rfl := Except.ok.inj h
    intro a ha
    cases keep with
    | true =>
      rcases List.mem_cons.1 ha with rfl | ha
      · exact List.mem_cons_self
      · exact List.mem_cons_of_mem _ (ih hkept a ha)
    | false => exact List.mem_cons_of_mem _ (ih hkept a ha)

/-- A loop that raises does so at one of the elements. -/
theorem exists_of_mapM_error {f : α → Except ε β} {xs : List α} {e : ε}
    (h : xs.mapM f = .error e) : ∃ a ∈ xs, f a = .error e := by
  induction xs with
  | nil => cases h
  | cons a xs ih =>
    rw [List.mapM_cons] at h
    rcases bind_eq_error.1 h with h | ⟨b, -, h⟩
    · exact ⟨a, List.mem_cons_self, h⟩
    · rcases bind_eq_error.1 h with h | ⟨bs, -, h⟩
      · obtain ⟨a', ha', hraise⟩ := ih h
        exact ⟨a', List.mem_cons_of_mem _ ha', hraise⟩
      · cases h

/-- Every element with its key, as `sort` and `max` compute the keys first. -/
def withKeys (key : α → Except ε β) (xs : List α) : Except ε (List (β × α)) :=
  xs.mapM fun a => do return (← key a, a)

/-- The keyed list is the list, each element with its own key. -/
theorem withKeys_eq_ok {key : α → Except ε β} {xs : List α} {ys : List (β × α)}
    (h : withKeys key xs = .ok ys) :
    ys.map Prod.snd = xs ∧ ∀ ka ∈ ys, key ka.2 = .ok ka.1 := by
  have hall := mapM_eq_ok.1 h
  clear h
  induction hall with
  | nil => exact ⟨rfl, by simp⟩
  | cons hab _ ih =>
    obtain ⟨k, hk, hb⟩ := bind_eq_ok.1 hab
    simp only [pure_eq_ok, Except.ok.injEq] at hb
    subst hb
    refine ⟨by rw [List.map_cons, ih.1], ?_⟩
    intro ka hka
    rcases List.mem_cons.1 hka with rfl | hka
    · exact hk
    · exact ih.2 ka hka

theorem withKeys_ok {key : α → Except ε β} {xs : List α} (h : ∀ a ∈ xs, Ok (key a)) :
    Ok (withKeys key xs) :=
  mapM_ok fun a ha => let ⟨k, hk⟩ := h a ha; ⟨(k, a), by rw [hk]; rfl⟩

/-- An invariant over the elements handled so far, kept by every step of a loop. -/
theorem foldlM_induct {f : β → α → Except ε β} (P : List α → β → Prop) {b b' : β} {xs : List α}
    (h : xs.foldlM f b = .ok b') (hinit : P [] b)
    (hstep : ∀ done b a b', P done b → f b a = .ok b' → P (done ++ [a]) b') : P xs b' := by
  suffices ∀ done, P done b → P (done ++ xs) b' by simpa using this [] hinit
  clear hinit
  induction xs generalizing b with
  | nil =>
    simp only [List.foldlM_nil, pure_eq_ok, Except.ok.injEq] at h
    intro done hdone
    rwa [List.append_nil, ← h]
  | cons a xs ih =>
    intro done hdone
    rw [List.foldlM_cons] at h
    obtain ⟨b₁, hb₁, h⟩ := bind_eq_ok.1 h
    have hrest := ih h (done ++ [a]) (hstep done b a b₁ hdone hb₁)
    rwa [List.append_assoc] at hrest

/-- A loop returns when every step from a state satisfying the invariant does and keeps it. -/
theorem foldlM_ok {f : β → α → Except ε β} (Q : β → Prop) {b : β} {xs : List α} (hinit : Q b)
    (hstep : ∀ b, ∀ a ∈ xs, Q b → ∃ b', f b a = .ok b' ∧ Q b') :
    ∃ b', xs.foldlM f b = .ok b' ∧ Q b' := by
  induction xs generalizing b with
  | nil => exact ⟨b, rfl, hinit⟩
  | cons a xs ih =>
    obtain ⟨b₁, hb₁, hq⟩ := hstep b a List.mem_cons_self hinit
    obtain ⟨b', hb', hq'⟩ := ih hq fun b a ha => hstep b a (List.mem_cons_of_mem _ ha)
    exact ⟨b', by rw [List.foldlM_cons, hb₁]; exact hb', hq'⟩

/-- A loop returns and establishes an invariant over the elements handled so far, when every step
does. -/
theorem foldlM_total {f : β → α → Except ε β} (P : List α → β → Prop) {b : β} {xs : List α}
    (hinit : P [] b) (hstep : ∀ done b, ∀ a ∈ xs, P done b → ∃ b', f b a = .ok b' ∧
      P (done ++ [a]) b') :
    ∃ b', xs.foldlM f b = .ok b' ∧ P xs b' := by
  suffices ∀ done, P done b → ∃ b', xs.foldlM f b = .ok b' ∧ P (done ++ xs) b' by
    simpa using this [] hinit
  clear hinit
  induction xs generalizing b with
  | nil => exact fun done hdone => ⟨b, rfl, by rwa [List.append_nil]⟩
  | cons a xs ih =>
    intro done hdone
    obtain ⟨b₁, hb₁, hP⟩ := hstep done b a List.mem_cons_self hdone
    obtain ⟨b', hb', hP'⟩ :=
      ih (fun done b a ha => hstep done b a (List.mem_cons_of_mem _ ha)) (done ++ [a]) hP
    refine ⟨b', by rw [List.foldlM_cons, hb₁]; exact hb', ?_⟩
    rwa [List.append_assoc] at hP'

/-- Two runs end alike: both return, what they return is related, or both raise the same. -/
inductive Rel (R : α → β → Prop) : Except ε α → Except ε β → Prop where
  | ok {a : α} {b : β} (h : R a b) : Rel R (.ok a) (.ok b)
  | error (e : ε) : Rel R (.error e) (.error e)

end Result

end Py
