import CodeReview.Handlers.Glob
import CodeReview.Lib.Regex

/-!
# The grammar of globs

The regular expression that `_compile_glob` writes, its meaning, and the grammar it implements.

* `compile_globPattern` : every glob is written as a text that compiles;
* `matchesStart_iff_minimatch` : the expression matches a path exactly when `minimatch` does;
* `minimatch_iff_grammar` : **on paths without newlines both implement the grammar `GlobMatches`**.
-/

namespace CodeReview

/-! ### The text of the regular expression -/

/-- The characters that `re.escape` puts a backslash before. -/
def escapedChars : List Char :=
  "()[]\x7b\x7d?*+-|^$\\.&~# \t\n\r".toList ++ [Char.ofNat 11, Char.ofNat 12]

/-- `re.escape`. -/
def reEscape (text : List Char) : List Char :=
  text.flatMap fun c => if c ∈ escapedChars then ['\\', c] else [c]

/-- The text `_compile_glob` appends for a piece. -/
def GlobPiece.text : GlobPiece → List Char
  | anyDirs => "(?:.*/)?".toList
  | anyText => ".*".toList
  | anySegment => "[^/]*".toList
  | anyChar => "[^/]".toList
  | choice alternatives => Regex.groupText (alternatives.map reEscape)
  | lit c => reEscape [c]

/-- The pattern given to `re.compile`. -/
def globPattern (glob : String) : List Char :=
  '^' :: (compileGlob glob).flatMap GlobPiece.text ++ ['$']

/-! ### The regular expression -/

open Regex in
/-- The regular expression of a piece. -/
def GlobPiece.regex : GlobPiece → Regex
  | anyDirs => (seqs [star any, Regex.lit '/']).opt
  | anyText => any.star
  | anySegment => (notChar '/').star
  | anyChar => notChar '/'
  | choice [] => empty
  | choice (a :: as) => alts (seqs (a.map Regex.lit)) (as.map fun a => seqs (a.map Regex.lit))
  | lit c => Regex.lit c

theorem reads_reEscape (text : List Char) : Regex.Reads (reEscape text) (text.map Regex.lit) := by
  have hmeta : Regex.metachars ⊆ escapedChars := by decide
  have halpha (c : Char) (hc : c ∈ escapedChars) : c.isAlphanum = false := by
    have hall : escapedChars.all (fun c => !c.isAlphanum) = true := by decide
    simpa using List.all_eq_true.1 hall c hc
  refine Regex.Reads.flatMap (fun c => ?_) text
  by_cases hc : c ∈ escapedChars
  · rw [if_pos hc]
    exact Regex.reads_escaped (halpha c hc)
  · rw [if_neg hc]
    exact Regex.reads_lit fun h => hc (hmeta h)

/-- Only braces make a choice, and they always hold an alternative. -/
def GlobPiece.Nonempty : GlobPiece → Prop
  | choice alternatives => alternatives ≠ []
  | _ => True

theorem reads_piece {piece : GlobPiece} (h : piece.Nonempty) :
    Regex.Reads piece.text [piece.regex] := by
  have hslash : Regex.Reads ['[', '^', '/', ']'] [.notChar '/'] :=
    Regex.reads_notChar (by decide) (by decide)
  cases piece with
  | anyDirs =>
    have hdirs : Regex.Reads ".*/".toList [.star .any, .lit '/'] :=
      (Regex.reads_any.star rfl).append (Regex.reads_lit (c := '/') (by decide))
    have hgroup := Regex.Reads.group (fun _ : Unit => hdirs) () []
    exact hgroup.opt rfl
  | anyText => exact Regex.reads_any.star rfl
  | anySegment => exact hslash.star rfl
  | anyChar => exact hslash
  | choice alternatives =>
    cases alternatives with
    | nil => exact absurd rfl h
    | cons a as => exact Regex.Reads.group reads_reEscape a as
  | lit c => exact reads_reEscape [c]

theorem splitOn_ne_nil (cs : List Char) : cs.splitOn ',' ≠ [] := by
  cases cs <;> simp [List.splitOn, List.splitOnP_ne_nil]

/-- One theorem for the two states of the scanner. -/
theorem nonempty_of_mem_compilePieces {choices : Option (List Char)} {cs : List Char} :
    ∀ piece ∈ compilePieces choices cs, piece.Nonempty := by
  fun_induction compilePieces choices cs with
  | case8 choices cs ih =>
    exact List.forall_mem_cons.2 ⟨splitOn_ne_nil _, ih⟩
  | case9 => assumption
  | case10 => simp
  | _ => simp_all [GlobPiece.Nonempty]

/-- The expression of a glob. -/
def globRegex (glob : String) : Regex :=
  Regex.seqs (.start :: (compileGlob glob).map GlobPiece.regex ++ [.stop])

/-- **Compilation fails on no glob.** -/
theorem compile_globPattern (glob : String) :
    Regex.compile (globPattern glob) = some (globRegex glob) := by
  have hpieces : Regex.Reads ((compileGlob glob).flatMap GlobPiece.text)
      ((compileGlob glob).map GlobPiece.regex) := by
    have hne := @nonempty_of_mem_compilePieces none glob.toList
    rw [compileGlob]
    generalize compilePieces none glob.toList = pieces at hne ⊢
    induction pieces with
    | nil => exact .nil
    | cons piece pieces ih =>
      obtain ⟨hpiece, hpieces⟩ := List.forall_mem_cons.1 hne
      exact (reads_piece hpiece).append (ih hpieces)
  exact ((Regex.reads_start.append hpieces).append Regex.reads_stop).compile

/-! ### Its meaning -/

/-- The texts a piece matches. -/
def GlobPiece.Matched : GlobPiece → List Char → Prop
  | anyDirs, m => m = [] ∨ ∃ d, '\n' ∉ d ∧ m = d ++ ['/']
  | anyText, m => '\n' ∉ m
  | anySegment, m => '/' ∉ m
  | anyChar, m => ∃ c, c ≠ '/' ∧ m = [c]
  | choice alternatives, m => m ∈ alternatives
  | lit c, m => m = [c]

theorem forall_ne_iff {c : Char} {m : List Char} : (∀ d ∈ m, d ≠ c) ↔ c ∉ m :=
  ⟨fun h hc => h c hc rfl, fun h _ hd heq => h (heq ▸ hd)⟩

theorem accepts_regex {piece : GlobPiece} (h : piece.Nonempty) :
    piece.regex.Accepts piece.Matched := by
  intro b m a
  cases piece with
  | anyDirs =>
    have hdirs := (Regex.accepts_any.star.seq
      ((Regex.accepts_lit '/').seq Regex.accepts_empty)).opt b m a
    refine hdirs.trans (or_congr_right ?_)
    simp only [forall_ne_iff]
    constructor
    · rintro ⟨d, m', rfl, hd, m₁, m₂, rfl, rfl, rfl⟩
      exact ⟨d, hd, rfl⟩
    · rintro ⟨d, hd, rfl⟩
      exact ⟨d, ['/'], rfl, hd, ['/'], [], rfl, rfl, rfl⟩
  | anyText => exact (Regex.accepts_any.star b m a).trans forall_ne_iff
  | anySegment => exact ((Regex.accepts_notChar '/').star b m a).trans forall_ne_iff
  | anyChar => exact Iff.rfl
  | choice alternatives =>
    cases alternatives with
    | nil => exact absurd rfl h
    | cons x xs =>
      refine (Regex.accepts_alts Regex.accepts_literal x xs b m a).trans ?_
      simp [GlobPiece.Matched]
  | lit c => exact Iff.rfl

/-- The path is cut into parts that the pieces match one by one. -/
def Cut (pieces : List GlobPiece) (path : List Char) : Prop :=
  ∃ parts, List.Forall₂ GlobPiece.Matched pieces parts ∧ path = parts.flatten

theorem cut_nil {path : List Char} : Cut [] path ↔ path = [] := by
  constructor
  · rintro ⟨parts, h, rfl⟩
    cases h
    rfl
  · rintro rfl
    exact ⟨[], .nil, rfl⟩

theorem cut_cons {piece : GlobPiece} {pieces : List GlobPiece} {path : List Char} :
    Cut (piece :: pieces) path ↔ ∃ m rest, path = m ++ rest ∧ piece.Matched m ∧
      Cut pieces rest := by
  constructor
  · rintro ⟨parts, h, rfl⟩
    cases h with
    | cons hm hparts => exact ⟨_, _, rfl, hm, _, hparts, rfl⟩
  · rintro ⟨m, rest, rfl, hm, parts, hparts, rfl⟩
    exact ⟨m :: parts, .cons hm hparts, rfl⟩

theorem seqs_regex {pieces : List GlobPiece} (h : ∀ piece ∈ pieces, piece.Nonempty)
    {b m a : List Char} :
    (Regex.seqs (pieces.map GlobPiece.regex)).Matches b m a ↔ Cut pieces m := by
  induction pieces generalizing b m with
  | nil => exact cut_nil.symm
  | cons piece pieces ih =>
    obtain ⟨hpiece, hpieces⟩ := List.forall_mem_cons.1 h
    have hseq : (Regex.seqs ((piece :: pieces).map GlobPiece.regex)).Matches b m a ↔
        ∃ m₁ m₂, m = m₁ ++ m₂ ∧ piece.regex.Matches b m₁ (m₂ ++ a) ∧
          (Regex.seqs (pieces.map GlobPiece.regex)).Matches (b ++ m₁) m₂ a := Iff.rfl
    rw [hseq, cut_cons]
    simp only [accepts_regex hpiece _ _ _, ih hpieces]

/-- Where the whole expression matches: `$` leaves at most a final newline. -/
theorem matchesStart_globRegex (glob : String) (path : List Char) :
    (globRegex glob).MatchesStart path ↔
      ∃ m a, path = m ++ a ∧ Cut (compileGlob glob) m ∧ (a = [] ∨ a = ['\n']) := by
  have hne := @nonempty_of_mem_compilePieces none glob.toList
  have hregex : ∀ m a, (globRegex glob).Matches [] m a ↔
      Cut (compileGlob glob) m ∧ (a = [] ∨ a = ['\n']) := by
    intro m a
    rw [globRegex, Regex.seqs_append]
    constructor
    · rintro ⟨m₁, m₂, rfl, ⟨m₃, m₄, rfl, ⟨rfl, -⟩, hm⟩, m₅, m₆, rfl, ⟨rfl, ha⟩, rfl⟩
      simpa [seqs_regex hne] using ⟨(seqs_regex hne).1 hm, ha⟩
    · rintro ⟨hm, ha⟩
      refine ⟨m, [], by simp, ⟨[], m, rfl, ⟨rfl, rfl⟩, (seqs_regex hne).2 hm⟩, [], [], rfl, ?_, rfl⟩
      exact ⟨rfl, by simpa using ha⟩
  simp only [Regex.MatchesStart, hregex]

/-! ### The backtracking matcher -/

theorem mem_suffixesWhile {p : Char → Bool} {cs rest : List Char} :
    rest ∈ suffixesWhile p cs ↔ ∃ m, cs = m ++ rest ∧ ∀ c ∈ m, p c = true := by
  induction cs with
  | nil => simp +contextual [suffixesWhile]
  | cons c cs ih =>
    rw [suffixesWhile, List.mem_cons]
    constructor
    · rintro (rfl | h)
      · exact ⟨[], rfl, by simp⟩
      · split_ifs at h with hc
        · obtain ⟨m, rfl, hm⟩ := ih.1 h
          exact ⟨c :: m, rfl, List.forall_mem_cons.2 ⟨hc, hm⟩⟩
        · exact absurd h List.not_mem_nil
    · rintro ⟨m, hcs, hm⟩
      cases m with
      | nil => exact .inl hcs.symm
      | cons d m =>
        obtain ⟨rfl, rfl⟩ := List.cons_eq_cons.1 hcs
        obtain ⟨hc, hm⟩ := List.forall_mem_cons.1 hm
        rw [if_pos hc]
        exact .inr (ih.2 ⟨m, rfl, hm⟩)

/-- What a piece leaves is what follows a text it matches. -/
theorem mem_rests {piece : GlobPiece} {cs rest : List Char} :
    rest ∈ piece.rests cs ↔ ∃ m, cs = m ++ rest ∧ piece.Matched m := by
  cases piece with
  | anyDirs =>
    simp only [GlobPiece.rests, List.mem_cons, List.mem_filterMap, mem_suffixesWhile,
      GlobPiece.Matched]
    constructor
    · rintro (rfl | ⟨s, ⟨d, rfl, hd⟩, hs⟩)
      · exact ⟨[], rfl, .inl rfl⟩
      · split at hs
        · obtain rfl := Option.some.inj hs
          exact ⟨d ++ ['/'], by simp, .inr ⟨d, by simpa [forall_ne_iff] using hd, rfl⟩⟩
        · cases hs
    · rintro ⟨m, rfl, rfl | ⟨d, hd, rfl⟩⟩
      · exact .inl rfl
      · exact .inr ⟨'/' :: rest, ⟨d, by simp, by simpa [forall_ne_iff] using hd⟩, rfl⟩
  | anyText => simp [GlobPiece.rests, GlobPiece.Matched, mem_suffixesWhile, forall_ne_iff]
  | anySegment => simp [GlobPiece.rests, GlobPiece.Matched, mem_suffixesWhile, forall_ne_iff]
  | anyChar =>
    cases cs with
    | nil => simp [GlobPiece.rests, GlobPiece.Matched]
    | cons c cs => simp only [GlobPiece.rests, GlobPiece.Matched]; split_ifs <;> simp_all [eq_comm]
  | choice alternatives =>
    simp only [GlobPiece.rests, GlobPiece.Matched, List.mem_filterMap]
    constructor
    · rintro ⟨x, hx, hrest⟩
      split_ifs at hrest with hprefix
      · obtain ⟨t, rfl⟩ := List.isPrefixOf_iff_prefix.1 hprefix
        obtain rfl := Option.some.inj hrest
        exact ⟨x, by simp, hx⟩
    · rintro ⟨m, rfl, hm⟩
      exact ⟨m, hm, by simp⟩
  | lit c =>
    cases cs with
    | nil => simp [GlobPiece.rests, GlobPiece.Matched]
    | cons d cs => simp only [GlobPiece.rests, GlobPiece.Matched]; split_ifs <;> simp_all [eq_comm]

theorem matchPieces_iff {pieces : List GlobPiece} {path : List Char} :
    matchPieces pieces path = true ↔
      ∃ m a, path = m ++ a ∧ Cut pieces m ∧ (a = [] ∨ a = ['\n']) := by
  induction pieces generalizing path with
  | nil => simp [matchPieces, cut_nil]
  | cons piece pieces ih =>
    rw [matchPieces, List.any_eq_true]
    simp only [mem_rests, ih, cut_cons]
    constructor
    · rintro ⟨rest, ⟨m, rfl, hm⟩, m', a, rfl, hcut, ha⟩
      exact ⟨m ++ m', a, by simp, ⟨m, m', rfl, hm, hcut⟩, ha⟩
    · rintro ⟨m', a, rfl, ⟨m, rest, rfl, hm, hcut⟩, ha⟩
      exact ⟨rest ++ a, ⟨m, by simp, hm⟩, rest, a, rfl, hcut, ha⟩

/-- **`minimatch` is the match of the compiled pattern, whatever the path.** -/
theorem matchesStart_iff_minimatch (glob path : String) :
    (globRegex glob).MatchesStart path.toList ↔ minimatch path glob = true := by
  rw [matchesStart_globRegex, minimatch, matchPieces_iff]

/-! ### The grammar -/

/-- What a glob means, read left to right: each token stands for a part of the path. -/
inductive GlobMatches : List Char → List Char → Prop
  | nil : GlobMatches [] []
  /-- `**/`: nothing, or any text ending in `/`. -/
  | anyDirs {p g path : List Char} : p = [] ∨ (∃ d, p = d ++ ['/']) → GlobMatches g path →
      GlobMatches ('*' :: '*' :: '/' :: g) (p ++ path)
  /-- Any other `**`: any text. -/
  | anyText {p g path : List Char} : g.head? ≠ some '/' → GlobMatches g path →
      GlobMatches ('*' :: '*' :: g) (p ++ path)
  /-- `*`: a text without `/`. -/
  | anySegment {p g path : List Char} : g.head? ≠ some '*' → '/' ∉ p → GlobMatches g path →
      GlobMatches ('*' :: g) (p ++ path)
  /-- `?`: a character but `/`. -/
  | anyChar {c : Char} {g path : List Char} : c ≠ '/' → GlobMatches g path →
      GlobMatches ('?' :: g) (c :: path)
  /-- `{a,b}`, up to the first `}`: one of the texts between the commas. -/
  | choice {body p g path : List Char} : '}' ∉ body → p ∈ body.splitOn ',' → GlobMatches g path →
      GlobMatches ('{' :: body ++ '}' :: g) (p ++ path)
  /-- A brace that is never closed. -/
  | unclosed {g path : List Char} : '}' ∉ g → GlobMatches g path →
      GlobMatches ('{' :: g) ('{' :: path)
  | lit {c : Char} {g path : List Char} : c ∉ ['*', '?', '{'] → GlobMatches g path →
      GlobMatches (c :: g) (c :: path)

theorem compilePieces_choice {choices body g : List Char} (h : '}' ∉ body) :
    compilePieces (some choices) (body ++ '}' :: g) =
      .choice ((choices.reverse ++ body).splitOn ',') :: compilePieces none g := by
  induction body generalizing choices with
  | nil => simp [compilePieces]
  | cons c body ih =>
    obtain ⟨hc, hbody⟩ := not_or.1 (mt List.mem_cons.2 h)
    rw [List.cons_append, compilePieces, ih hbody]
    · simp
    · exact fun heq => hc heq.symm

theorem compilePieces_anyText {g : List Char} (h : g.head? ≠ some '/') :
    compilePieces none ('*' :: '*' :: g) = .anyText :: compilePieces none g := by
  rw [compilePieces]
  rintro cs rfl
  exact h rfl

theorem compilePieces_anySegment {g : List Char} (h : g.head? ≠ some '*') :
    compilePieces none ('*' :: g) = .anySegment :: compilePieces none g := by
  rw [compilePieces] <;> rintro cs rfl <;> exact h rfl

theorem compilePieces_lit {c : Char} {g : List Char} (h : c ∉ ['*', '?', '{']) :
    compilePieces none (c :: g) = .lit c :: compilePieces none g := by
  simp only [List.mem_cons, List.not_mem_nil, or_false, not_or] at h
  obtain ⟨hstar, hquest, hbrace⟩ := h
  rw [compilePieces] <;> simp [hstar, hquest, hbrace]

theorem cut_of_globMatches {g path : List Char} (h : GlobMatches g path) (hpath : '\n' ∉ path) :
    Cut (compilePieces none g) path := by
  induction h with
  | nil => exact cut_nil.2 rfl
  | @anyDirs p g path hp _ ih =>
    simp only [List.mem_append, not_or] at hpath
    refine cut_cons.2 ⟨p, path, rfl, hp.imp_right ?_, ih hpath.2⟩
    rintro ⟨d, rfl⟩
    exact ⟨d, fun hd => hpath.1 (List.mem_append_left _ hd), rfl⟩
  | @anyText p g path hg _ ih =>
    simp only [List.mem_append, not_or] at hpath
    rw [compilePieces_anyText hg]
    exact cut_cons.2 ⟨p, path, rfl, hpath.1, ih hpath.2⟩
  | @anySegment p g path hg hp _ ih =>
    simp only [List.mem_append, not_or] at hpath
    rw [compilePieces_anySegment hg]
    exact cut_cons.2 ⟨p, path, rfl, hp, ih hpath.2⟩
  | @anyChar c g path hc _ ih =>
    exact cut_cons.2 ⟨[c], path, rfl, ⟨c, hc, rfl⟩, ih fun hm => hpath (List.mem_cons_of_mem _ hm)⟩
  | @choice body p g path hbody hp _ ih =>
    simp only [List.mem_append, not_or] at hpath
    rw [List.cons_append, compilePieces, if_pos (by simp), compilePieces_choice hbody]
    exact cut_cons.2 ⟨p, path, rfl, hp, ih hpath.2⟩
  | @unclosed g path hg _ ih =>
    rw [compilePieces, if_neg hg]
    exact cut_cons.2 ⟨['{'], path, rfl, rfl, ih fun hm => hpath (List.mem_cons_of_mem _ hm)⟩
  | @lit c g path hc _ ih =>
    rw [compilePieces_lit hc]
    exact cut_cons.2 ⟨[c], path, rfl, rfl, ih fun hm => hpath (List.mem_cons_of_mem _ hm)⟩

/-- A token stands first in every glob but the empty one. -/
theorem globMatches_of_cut {g path : List Char} (h : Cut (compilePieces none g) path) :
    GlobMatches g path := by
  induction hn : g.length using Nat.strong_induction_on generalizing g path with
  | h n ih =>
    subst hn
    -- the part of the path that the first token stands for, and the rest by induction
    have step {piece : GlobPiece} {g' : List Char} (hlen : g'.length < g.length)
        (hcut : Cut (piece :: compilePieces none g') path) :
        ∃ p rest, path = p ++ rest ∧ piece.Matched p ∧ GlobMatches g' rest := by
      obtain ⟨p, rest, rfl, hp, hrest⟩ := cut_cons.1 hcut
      exact ⟨p, rest, rfl, hp, ih _ hlen hrest rfl⟩
    cases g with
    | nil =>
      obtain rfl := cut_nil.1 h
      exact .nil
    | cons c g =>
      by_cases hc : c ∈ ['*', '?', '{']
      · simp only [List.mem_cons, List.not_mem_nil, or_false] at hc
        rcases hc with rfl | rfl | rfl
        · by_cases hstar : g.head? = some '*'
          · obtain ⟨g, rfl⟩ := List.head?_eq_some_iff.1 hstar
            by_cases hslash : g.head? = some '/'
            · obtain ⟨g, rfl⟩ := List.head?_eq_some_iff.1 hslash
              obtain ⟨p, rest, rfl, hp, hrest⟩ := step (by simp only [List.length_cons]; omega) h
              exact .anyDirs (hp.imp_right fun ⟨d, _, hd⟩ => ⟨d, hd⟩) hrest
            · rw [compilePieces_anyText hslash] at h
              obtain ⟨p, rest, rfl, -, hrest⟩ := step (by simp only [List.length_cons]; omega) h
              exact .anyText hslash hrest
          · rw [compilePieces_anySegment hstar] at h
            obtain ⟨p, rest, rfl, hp, hrest⟩ := step (by simp) h
            exact .anySegment hstar hp hrest
        · obtain ⟨p, rest, rfl, ⟨c, hc, rfl⟩, hrest⟩ := step (by simp) h
          exact .anyChar hc hrest
        · by_cases hclose : '}' ∈ g
          · obtain ⟨body, g, rfl, hbody⟩ := List.eq_append_cons_of_mem hclose
            rw [compilePieces, if_pos hclose, compilePieces_choice hbody] at h
            obtain ⟨p, rest, rfl, hp, hrest⟩ := step (by simp; omega) h
            exact .choice hbody hp hrest
          · rw [compilePieces, if_neg hclose] at h
            obtain ⟨p, rest, rfl, rfl, hrest⟩ := step (by simp) h
            exact .unclosed hclose hrest
      · rw [compilePieces_lit hc] at h
        obtain ⟨p, rest, rfl, rfl, hrest⟩ := step (by simp) h
        exact .lit hc hrest

/-- **On paths without newlines the compiled glob implements its grammar.** -/
theorem minimatch_iff_grammar (glob path : String) (h : '\n' ∉ path.toList) :
    Regex.compile (globPattern glob) = some (globRegex glob) ∧
      ((globRegex glob).MatchesStart path.toList ↔ GlobMatches glob.toList path.toList) ∧
      (minimatch path glob = true ↔ GlobMatches glob.toList path.toList) := by
  have hgrammar : minimatch path glob = true ↔ GlobMatches glob.toList path.toList := by
    rw [minimatch, matchPieces_iff]
    constructor
    · rintro ⟨m, a, hpath, hcut, rfl | rfl⟩
      · rw [hpath, List.append_nil]
        exact globMatches_of_cut hcut
      · exact absurd (hpath ▸ by simp) h
    · intro hm
      exact ⟨path.toList, [], by simp, cut_of_globMatches hm h, .inl rfl⟩
  exact ⟨compile_globPattern glob, (matchesStart_iff_minimatch glob path).trans hgrammar, hgrammar⟩

theorem minimatch_iff_grammar_source :
    minimatch "src/a/b.py" "src/**/*.{py,pyi}" = true ∧
      GlobMatches "src/**/*.{py,pyi}".toList "src/a/b.py".toList := by
  have h := minimatch_iff_grammar "src/**/*.{py,pyi}" "src/a/b.py" (by decide)
  have hmatch : minimatch "src/a/b.py" "src/**/*.{py,pyi}" = true := by decide
  exact ⟨hmatch, h.2.2.1 hmatch⟩

end CodeReview
