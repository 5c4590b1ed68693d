import Mathlib.Data.List.Basic
import Mathlib.Data.List.Infix
import Mathlib.Tactic.Common
import Mathlib.Tactic.SplitIfs

/-!
# Regular expressions

The part of the usual notation that has characters, escapes, `.`, `[^c]`, `(?:...|...)`, `*`, `?`
and the anchors.  A text outside of it is not compiled.

* `Regex.Matches` is the meaning: the span matched, between what stands before and after it;
* `Regex.compile` reads the notation with a stack of open groups;
* `Regex.Reads` says that a text is read as an expression wherever it stands, and its lemmas build
  the reading of a text from that of its parts.
-/

/-- A regular expression. -/
inductive Regex where
  /-- The empty text. -/
  | empty
  /-- One character. -/
  | lit (c : Char)
  /-- `.`, any character but a newline. -/
  | any
  /-- `[^c]`. -/
  | notChar (c : Char)
  /-- `^`. -/
  | start
  /-- `$`. -/
  | stop
  | seq (r s : Regex)
  | alt (r s : Regex)
  | star (r : Regex)
  | opt (r : Regex)
  deriving DecidableEq, Repr

namespace Regex

/-! ### Meaning -/

/-- Repetitions of what `P` matches, each before what the others match. -/
inductive Star (P : List Char → List Char → List Char → Prop) :
    List Char → List Char → List Char → Prop
  | nil {b a : List Char} : Star P b [] a
  | cons {b m n a : List Char} : P b m (n ++ a) → Star P (b ++ m) n a → Star P b (m ++ n) a

/-- `r.Matches b m a`: in the text `b ++ m ++ a`, the span `m` is a match of `r`. -/
def Matches : Regex → List Char → List Char → List Char → Prop
  | empty, _, m, _ => m = []
  | lit c, _, m, _ => m = [c]
  | any, _, m, _ => ∃ c, c ≠ '\n' ∧ m = [c]
  | notChar d, _, m, _ => ∃ c, c ≠ d ∧ m = [c]
  | start, b, m, _ => m = [] ∧ b = []
  | stop, _, m, a => m = [] ∧ (a = [] ∨ a = ['\n'])
  | seq r s, b, m, a => ∃ m₁ m₂, m = m₁ ++ m₂ ∧ r.Matches b m₁ (m₂ ++ a) ∧ s.Matches (b ++ m₁) m₂ a
  | alt r s, b, m, a => r.Matches b m a ∨ s.Matches b m a
  | star r, b, m, a => Star r.Matches b m a
  | opt r, b, m, a => m = [] ∨ r.Matches b m a

/-- A match at the start of a text. -/
def MatchesStart (r : Regex) (text : List Char) : Prop :=
  ∃ m a, text = m ++ a ∧ r.Matches [] m a

/-- `r` matches the texts of `L`, whatever stands around them. -/
def Accepts (r : Regex) (L : List Char → Prop) : Prop :=
  ∀ b m a, r.Matches b m a ↔ L m

/-- Repeated characters satisfying `p`. -/
theorem Accepts.star {r : Regex} {p : Char → Prop}
    (h : r.Accepts fun m => ∃ c, p c ∧ m = [c]) : (r.star).Accepts fun m => ∀ c ∈ m, p c := by
  intro b m a
  change Star r.Matches b m a ↔ _
  constructor
  · intro hm
    induction hm with
    | nil => simp
    | cons hr _ ih =>
      obtain ⟨c, hc, rfl⟩ := (h _ _ _).1 hr
      simpa using ⟨hc, ih⟩
  · intro hp
    induction m generalizing b with
    | nil => exact .nil
    | cons c m ih =>
      have hc : r.Matches b [c] (m ++ a) := (h _ _ _).2 ⟨c, hp c List.mem_cons_self, rfl⟩
      exact Star.cons hc (ih _ fun d hd => hp d (List.mem_cons_of_mem _ hd))

theorem Accepts.seq {r s : Regex} {L M : List Char → Prop} (hr : r.Accepts L) (hs : s.Accepts M) :
    (r.seq s).Accepts fun m => ∃ m₁ m₂, m = m₁ ++ m₂ ∧ L m₁ ∧ M m₂ := by
  intro b m a
  change (∃ m₁ m₂, m = m₁ ++ m₂ ∧ r.Matches b m₁ (m₂ ++ a) ∧ s.Matches (b ++ m₁) m₂ a) ↔ _
  simp only [hr _ _ _, hs _ _ _]

theorem Accepts.opt {r : Regex} {L : List Char → Prop} (h : r.Accepts L) :
    (r.opt).Accepts fun m => m = [] ∨ L m :=
  fun b m a => or_congr_right (h b m a)

theorem accepts_empty : empty.Accepts (· = []) := fun _ _ _ => Iff.rfl

theorem accepts_lit (c : Char) : (lit c).Accepts (· = [c]) := fun _ _ _ => Iff.rfl

theorem accepts_any : any.Accepts fun m => ∃ c, c ≠ '\n' ∧ m = [c] := fun _ _ _ => Iff.rfl

theorem accepts_notChar (d : Char) : (notChar d).Accepts fun m => ∃ c, c ≠ d ∧ m = [c] :=
  fun _ _ _ => Iff.rfl

/-- The expressions one after another. -/
def seqs (rs : List Regex) : Regex := rs.foldr seq empty

/-- One of the expressions. -/
def alts : Regex → List Regex → Regex
  | r, [] => r
  | r, s :: rs => r.alt (alts s rs)

theorem accepts_literal (cs : List Char) : (seqs (cs.map lit)).Accepts (· = cs) := by
  induction cs with
  | nil => exact accepts_empty
  | cons c cs ih =>
    intro b m a
    refine ((accepts_lit c).seq ih b m a).trans ?_
    simp

theorem accepts_alts {ι : Type} {f : ι → Regex} {L : ι → List Char → Prop}
    (h : ∀ i, (f i).Accepts (L i)) (i : ι) (is : List ι) :
    (alts (f i) (is.map f)).Accepts fun m => ∃ j ∈ i :: is, L j m := by
  intro b m a
  induction is generalizing i with
  | nil => simpa [alts] using h i b m a
  | cons j is ih =>
    have hor : (alts (f i) ((j :: is).map f)).Matches b m a ↔
        (f i).Matches b m a ∨ (alts (f j) (is.map f)).Matches b m a := Iff.rfl
    rw [hor, h i b m a, ih j]
    simp

theorem seqs_append {rs ss : List Regex} {b m a : List Char} :
    (seqs (rs ++ ss)).Matches b m a ↔
      ∃ m₁ m₂, m = m₁ ++ m₂ ∧ (seqs rs).Matches b m₁ (m₂ ++ a) ∧
        (seqs ss).Matches (b ++ m₁) m₂ a := by
  induction rs generalizing b m with
  | nil => simp [seqs, Matches]
  | cons r rs ih =>
    have hcons : ∀ {b m a : List Char} (ts : List Regex), (seqs (r :: ts)).Matches b m a ↔
        ∃ m₁ m₂, m = m₁ ++ m₂ ∧ r.Matches b m₁ (m₂ ++ a) ∧ (seqs ts).Matches (b ++ m₁) m₂ a :=
      fun _ => Iff.rfl
    rw [List.cons_append, hcons]
    constructor
    · rintro ⟨m₁, m', rfl, hr, h⟩
      obtain ⟨m₂, m₃, rfl, hrs, hss⟩ := ih.1 h
      refine ⟨m₁ ++ m₂, m₃, by simp, (hcons rs).2 ⟨m₁, m₂, rfl, by simpa using hr, hrs⟩, ?_⟩
      simpa using hss
    · rintro ⟨m', m₃, rfl, h, hss⟩
      obtain ⟨m₁, m₂, rfl, hr, hrs⟩ := (hcons rs).1 h
      refine ⟨m₁, m₂ ++ m₃, by simp, by simpa using hr, ih.2 ⟨m₂, m₃, rfl, hrs, ?_⟩⟩
      simpa using hss

/-! ### Notation -/

/-- A symbol of the notation. -/
inductive Token where
  /-- What stands for itself: a character, a class or an anchor. -/
  | atom (r : Regex)
  /-- `(?:`. -/
  | opened
  /-- `)`. -/
  | closed
  /-- `|`. -/
  | bar
  /-- `*`. -/
  | star
  /-- `?`. -/
  | opt
  deriving DecidableEq, Repr

/-- The characters with a meaning of their own. -/
def metachars : List Char := "\\^$.|?*+()[]\x7b\x7d".toList

/-- The symbols of a text. -/
def tokens : List Char → Option (List Token)
  | [] => some []
  | '(' :: '?' :: ':' :: cs => (tokens cs).map (.opened :: ·)
  | '[' :: '^' :: c :: ']' :: cs =>
    -- a class that has an escape, a range or a bracket is left out
    if c ∈ metachars ∨ c = '-' then none else (tokens cs).map (.atom (notChar c) :: ·)
  | '\\' :: c :: cs =>
    -- an escaped letter or digit has a meaning of its own
    if c.isAlphanum then none else (tokens cs).map (.atom (lit c) :: ·)
  | c :: cs =>
    if c = ')' then (tokens cs).map (.closed :: ·)
    else if c = '|' then (tokens cs).map (.bar :: ·)
    else if c = '*' then (tokens cs).map (.star :: ·)
    else if c = '?' then (tokens cs).map (.opt :: ·)
    else if c = '.' then (tokens cs).map (.atom any :: ·)
    else if c = '^' then (tokens cs).map (.atom start :: ·)
    else if c = '$' then (tokens cs).map (.atom stop :: ·)
    else if c ∈ metachars then none
    else (tokens cs).map (.atom (lit c) :: ·)

/-- An open group: its alternatives and the items of the last one, each the last first. -/
structure Group where
  alternatives : List Regex
  items : List Regex

namespace Group

/-- A group that was just opened. -/
def new : Group := ⟨[], []⟩

/-- One more item. -/
def push (g : Group) (r : Regex) : Group := { g with items := r :: g.items }

/-- The next alternative. -/
def next (g : Group) : Group := ⟨seqs g.items.reverse :: g.alternatives, []⟩

/-- The expression of a group. -/
def close (g : Group) : Regex :=
  match g.next.alternatives.reverse with
  | [] => empty
  | r :: rs => alts r rs

end Group

/-- Whether a repetition may follow: not after an anchor or another repetition. -/
def repeatable : Regex → Bool
  | start | stop | star _ | opt _ => false
  | _ => true

/-- Apply a repetition to the last item. -/
def repeatLast (f : Regex → Regex) (g : Group) : Option Group :=
  match g.items with
  | r :: rs => if r.repeatable then some { g with items := f r :: rs } else none
  | [] => none

/-- Read the symbols in an open group, inside the groups of a stack. -/
def parse : Group → List Group → List Token → Option Regex
  | g, [], [] => some g.close
  | _, _ :: _, [] => none
  | g, gs, .atom r :: ts => parse (g.push r) gs ts
  | g, gs, .opened :: ts => parse .new (g :: gs) ts
  | g, g' :: gs, .closed :: ts => parse (g'.push g.close) gs ts
  | _, [], .closed :: _ => none
  | g, gs, .bar :: ts => parse g.next gs ts
  | g, gs, .star :: ts => (repeatLast .star g).bind (parse · gs ts)
  | g, gs, .opt :: ts => (repeatLast .opt g).bind (parse · gs ts)

/-- The expression of a text. -/
def compile (text : List Char) : Option Regex := (tokens text).bind (parse .new [])

section Symbols

variable (cs : List Char)

theorem tokens_opened : tokens ("(?:".toList ++ cs) = (tokens cs).map (.opened :: ·) := rfl

theorem tokens_closed : tokens (')' :: cs) = (tokens cs).map (.closed :: ·) := rfl

theorem tokens_bar : tokens ('|' :: cs) = (tokens cs).map (.bar :: ·) := rfl

theorem tokens_star : tokens ('*' :: cs) = (tokens cs).map (.star :: ·) := rfl

theorem tokens_opt : tokens ('?' :: cs) = (tokens cs).map (.opt :: ·) := rfl

theorem tokens_notChar {c : Char} (h : c ∉ metachars) (h' : c ≠ '-') :
    tokens ('[' :: '^' :: c :: ']' :: cs) = (tokens cs).map (.atom (notChar c) :: ·) :=
  if_neg (not_or.2 ⟨h, h'⟩)

theorem tokens_escaped {c : Char} (h : c.isAlphanum = false) :
    tokens ('\\' :: c :: cs) = (tokens cs).map (.atom (lit c) :: ·) :=
  if_neg (Bool.not_eq_true _ ▸ h)

end Symbols

section Parse

variable (g : Group) (gs : List Group) (ts : List Token)

theorem parse_atom (r : Regex) : parse g gs (.atom r :: ts) = parse (g.push r) gs ts := by
  cases gs <;> rfl

theorem parse_opened : parse g gs (.opened :: ts) = parse .new (g :: gs) ts := by
  cases gs <;> rfl

theorem parse_closed (g' : Group) :
    parse g (g' :: gs) (.closed :: ts) = parse (g'.push g.close) gs ts := rfl

theorem parse_bar : parse g gs (.bar :: ts) = parse g.next gs ts := by
  cases gs <;> rfl

theorem parse_star : parse g gs (.star :: ts) = (repeatLast .star g).bind (parse · gs ts) := by
  cases gs <;> rfl

theorem parse_opt : parse g gs (.opt :: ts) = (repeatLast .opt g).bind (parse · gs ts) := by
  cases gs <;> rfl

end Parse

/-- The text is read as these items, wherever it stands. -/
def Reads (text : List Char) (rs : List Regex) : Prop :=
  ∃ ts, (∀ rest, tokens (text ++ rest) = (tokens rest).map (ts ++ ·)) ∧
    ∀ g gs rest, parse g gs (ts ++ rest) = parse { g with items := rs.reverse ++ g.items } gs rest

theorem Reads.nil : Reads [] [] := ⟨[], fun _ => by simp, fun _ _ _ => rfl⟩

theorem Reads.append {t u : List Char} {rs ss : List Regex} (ht : Reads t rs) (hu : Reads u ss) :
    Reads (t ++ u) (rs ++ ss) := by
  obtain ⟨ts, htok, hparse⟩ := ht
  obtain ⟨us, hutok, huparse⟩ := hu
  refine ⟨ts ++ us, fun rest => ?_, fun g gs rest => ?_⟩
  · rw [List.append_assoc, htok, hutok, Option.map_map]
    simp [Function.comp_def]
  · rw [List.append_assoc, hparse, huparse]
    simp

theorem Reads.flatMap {ι : Type} {f : ι → List Char} {r : ι → Regex}
    (h : ∀ i, Reads (f i) [r i]) (is : List ι) : Reads (is.flatMap f) (is.map r) := by
  induction is with
  | nil => exact .nil
  | cons i is ih => exact (h i).append ih

/-- An atom whose text is read as one symbol. -/
theorem Reads.atom {t : List Char} {r : Regex}
    (h : ∀ rest, tokens (t ++ rest) = (tokens rest).map (.atom r :: ·)) : Reads t [r] :=
  ⟨[.atom r], h, fun g gs rest => parse_atom g gs rest r⟩

theorem reads_any : Reads ['.'] [any] := .atom fun _ => rfl

theorem reads_start : Reads ['^'] [start] := .atom fun _ => rfl

theorem reads_stop : Reads ['$'] [stop] := .atom fun _ => rfl

theorem reads_notChar {c : Char} (h : c ∉ metachars) (h' : c ≠ '-') :
    Reads ['[', '^', c, ']'] [notChar c] := .atom fun rest => tokens_notChar rest h h'

theorem reads_escaped {c : Char} (h : c.isAlphanum = false) : Reads ['\\', c] [lit c] :=
  .atom fun rest => tokens_escaped rest h

theorem reads_lit {c : Char} (h : c ∉ metachars) : Reads [c] [lit c] := by
  have hne : ∀ d ∈ metachars, c ≠ d := fun d hd heq => h (heq ▸ hd)
  refine .atom ?_
  intro rest
  rw [List.singleton_append, tokens]
  · simp [h, hne _ (show ')' ∈ metachars by decide), hne _ (show '|' ∈ metachars by decide),
      hne _ (show '*' ∈ metachars by decide), hne _ (show '?' ∈ metachars by decide),
      hne _ (show '.' ∈ metachars by decide), hne _ (show '^' ∈ metachars by decide),
      hne _ (show '$' ∈ metachars by decide)]
  · rintro cs rfl
    exact absurd rfl (hne _ (by decide))
  · rintro d cs rfl
    exact absurd rfl (hne _ (by decide))
  · rintro d cs rfl
    exact absurd rfl (hne _ (by decide))

/-- A repetition of an item that allows one. -/
theorem Reads.star {t : List Char} {r : Regex} (h : Reads t [r]) (hr : r.repeatable = true) :
    Reads (t ++ ['*']) [r.star] := by
  obtain ⟨ts, htok, hparse⟩ := h
  refine ⟨ts ++ [.star], fun rest => ?_, fun g gs rest => ?_⟩
  · rw [List.append_assoc, htok, List.singleton_append, tokens_star]
    simp [Function.comp_def]
  · rw [List.append_assoc, hparse, List.singleton_append, parse_star]
    simp [repeatLast, hr]

theorem Reads.opt {t : List Char} {r : Regex} (h : Reads t [r]) (hr : r.repeatable = true) :
    Reads (t ++ ['?']) [r.opt] := by
  obtain ⟨ts, htok, hparse⟩ := h
  refine ⟨ts ++ [.opt], fun rest => ?_, fun g gs rest => ?_⟩
  · rw [List.append_assoc, htok, List.singleton_append, tokens_opt]
    simp [Function.comp_def]
  · rw [List.append_assoc, hparse, List.singleton_append, parse_opt]
    simp [repeatLast, hr]

/-- The text of a group of alternatives. -/
def groupText (texts : List (List Char)) : List Char :=
  "(?:".toList ++ ['|'].intercalate texts ++ [')']

/-- The alternatives of a group, read after others of the same group. -/
theorem parse_alternatives {ι : Type} {text : ι → List Char} {items : ι → List Regex}
    (h : ∀ i, Reads (text i) (items i)) (i : ι) (is : List ι) :
    ∃ ts, (∀ rest, tokens (['|'].intercalate ((i :: is).map text) ++ rest) =
        (tokens rest).map (ts ++ ·)) ∧
      ∀ done gs rest, parse ⟨done, []⟩ gs (ts ++ rest) =
        parse ⟨((i :: is).dropLast.map fun j => seqs (items j)).reverse ++ done,
          (items ((i :: is).getLast (List.cons_ne_nil _ _))).reverse⟩ gs rest := by
  induction is generalizing i with
  | nil =>
    obtain ⟨ts, htok, hparse⟩ := h i
    exact ⟨ts, fun rest => by simpa using htok rest, fun done gs rest => by simp [hparse]⟩
  | cons j is ih =>
    obtain ⟨ts, htok, hparse⟩ := h i
    obtain ⟨us, hutok, huparse⟩ := ih j
    refine ⟨ts ++ .bar :: us, fun rest => ?_, fun done gs rest => ?_⟩
    · have hjoin : ['|'].intercalate ((i :: j :: is).map text) =
          text i ++ '|' :: ['|'].intercalate ((j :: is).map text) := by
        simp [List.intercalate]
      rw [hjoin, List.append_assoc, htok, List.cons_append, tokens_bar, hutok, Option.map_map,
        Option.map_map]
      simp [Function.comp_def]
    · rw [List.append_assoc, hparse, List.cons_append, parse_bar]
      simp [Group.next, huparse]

theorem Reads.group {ι : Type} {text : ι → List Char} {items : ι → List Regex}
    (h : ∀ i, Reads (text i) (items i)) (i : ι) (is : List ι) :
    Reads (groupText ((i :: is).map text))
      [alts (seqs (items i)) (is.map fun j => seqs (items j))] := by
  obtain ⟨ts, htok, hparse⟩ := parse_alternatives h i is
  refine ⟨.opened :: ts ++ [.closed], fun rest => ?_, fun g gs rest => ?_⟩
  · rw [groupText, List.append_assoc, List.append_assoc, tokens_opened, htok, List.singleton_append,
      tokens_closed, Option.map_map, Option.map_map]
    simp [Function.comp_def]
  · rw [List.append_assoc, List.cons_append, parse_opened, Group.new, hparse]
    have hsplit : (i :: is).dropLast ++ [(i :: is).getLast (List.cons_ne_nil _ _)] = i :: is :=
      List.dropLast_append_getLast _
    have hclose : Group.close ⟨((i :: is).dropLast.map fun j => seqs (items j)).reverse ++ [],
        (items ((i :: is).getLast (List.cons_ne_nil _ _))).reverse⟩ =
          alts (seqs (items i)) (is.map fun j => seqs (items j)) := by
      have hrev : ((i :: is).dropLast.map fun j => seqs (items j)) ++
          [seqs (items ((i :: is).getLast (List.cons_ne_nil _ _)))] =
            (i :: is).map fun j => seqs (items j) := by
        conv_rhs => rw [← hsplit]
        simp
      simp only [Group.close, Group.next, List.append_nil, List.reverse_cons, List.reverse_reverse,
        hrev, List.map_cons]
    rw [List.singleton_append, parse_closed, hclose]
    rfl

/-- **A text read as some items compiles, to their sequence.** -/
theorem Reads.compile {t : List Char} {rs : List Regex} (h : Reads t rs) :
    compile t = some (seqs rs) := by
  obtain ⟨ts, htok, hparse⟩ := h
  have hnil : tokens [] = some [] := rfl
  have ht : tokens t = some ts := by simpa [hnil] using htok []
  have hp : parse .new [] ts = parse ⟨[], rs.reverse⟩ [] [] := by
    simpa [Group.new] using hparse .new [] []
  have hend (g : Group) : parse g [] [] = some g.close := rfl
  rw [Regex.compile, ht, Option.bind_some, hp, hend]
  simp [Group.close, Group.next, alts]

example : compile "^(?:a|[^/]*\\.)?$".toList =
    some (seqs [start, .opt (alts (seqs [lit 'a']) [seqs [.star (notChar '/'), lit '.']]),
      stop]) := by
  decide

end Regex
