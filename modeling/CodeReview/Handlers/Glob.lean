import Mathlib.Data.List.Basic
import Mathlib.Data.List.Infix
import Mathlib.Tactic.Common

/-!
# Globs

`_compile_glob` turns a glob into a regular expression, a sequence of pieces, and `_minimatch` asks
for a match of the whole path.  A piece is modelled by what it can leave of a text it starts at.
-/

namespace CodeReview

/-- A piece of a compiled glob. -/
inductive GlobPiece where
  /-- `(?:.*/)?`, from `**/`. -/
  | anyDirs
  /-- `.*`, from any other `**`. -/
  | anyText
  /-- `[^/]*`, from `*`. -/
  | anySegment
  /-- `[^/]`, from `?`. -/
  | anyChar
  /-- `(?:a|b)`, from `{a,b}`. -/
  | choice (alternatives : List (List Char))
  /-- Any other character. -/
  | lit (c : Char)
  deriving DecidableEq, Repr

/-- `_compile_glob`; `choices` is the reversed text of the braces being read, if any. -/
def compilePieces : Option (List Char) → List Char → List GlobPiece
  | none, '*' :: '*' :: '/' :: cs => .anyDirs :: compilePieces none cs
  | none, '*' :: '*' :: cs => .anyText :: compilePieces none cs
  | none, '*' :: cs => .anySegment :: compilePieces none cs
  | none, '?' :: cs => .anyChar :: compilePieces none cs
  | none, '{' :: cs =>
    -- without a closing brace the opening one is a literal
    if '}' ∈ cs then compilePieces (some []) cs else .lit '{' :: compilePieces none cs
  | none, c :: cs => .lit c :: compilePieces none cs
  | some choices, '}' :: cs => .choice (choices.reverse.splitOn ',') :: compilePieces none cs
  | some choices, c :: cs => compilePieces (some (c :: choices)) cs
  | _, [] => []

/-- `_compile_glob`. -/
def compileGlob (glob : String) : List GlobPiece := compilePieces none glob.toList

/-- The suffixes left after a prefix of characters satisfying `p`. -/
def suffixesWhile (p : Char → Bool) : List Char → List (List Char)
  | [] => [[]]
  | c :: cs => (c :: cs) :: if p c then suffixesWhile p cs else []

/-- What a piece can leave of a text; `.` matches no newline. -/
def GlobPiece.rests : GlobPiece → List Char → List (List Char)
  | anyDirs, cs =>
    cs :: (suffixesWhile (· ≠ '\n') cs).filterMap fun
      | '/' :: rest => some rest
      | _ => none
  | anyText, cs => suffixesWhile (· ≠ '\n') cs
  | anySegment, cs => suffixesWhile (· ≠ '/') cs
  | anyChar, c :: cs => if c ≠ '/' then [cs] else []
  | anyChar, [] => []
  | choice alternatives, cs =>
    alternatives.filterMap fun a => if a.isPrefixOf cs then some (cs.drop a.length) else none
  | lit c, c' :: cs => if c = c' then [cs] else []
  | lit _, [] => []

/-- A match of `^...$`: `$` also holds before a final newline. -/
def matchPieces : List GlobPiece → List Char → Bool
  | [], cs => cs = [] ∨ cs = ['\n']
  | piece :: pieces, cs => (piece.rests cs).any (matchPieces pieces)

/-- `_minimatch`. -/
def minimatch (path glob : String) : Bool := matchPieces (compileGlob glob) path.toList

example : minimatch "src/a/b.py" "src/**/*.{py,pyi}" = true := by decide
example : minimatch "src/a/b.py" "src/*.py" = false := by decide

end CodeReview
