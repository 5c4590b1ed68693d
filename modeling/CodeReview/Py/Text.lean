import CodeReview.Py.Value
import Mathlib.Data.List.Infix

/-!
# Text

The `str` methods a program uses, on the list of characters, and the parts of the interpreter that
stay abstract: `Runtime` holds Unicode lower-casing, the text of floats and containers, and the
number parser of `float()`.  Nothing is assumed of them unless a theorem says so.
-/

namespace Py

/-- The parts of the interpreter whose output is only passed on. -/
structure Runtime where
  /-- `s.lower()`. -/
  lower : String → String
  /-- `str(v)` of a float, a list or a dict. -/
  repr : Value → String
  /-- The number that `float(s)` reads from a text, if it is one. -/
  parseFloat : String → Option Double
  /-- The number that `int(s)` reads from a text, if it is one. -/
  parseInt : String → Option ℤ

/-- A runtime on ASCII text that renders no container and parses no number. -/
def Runtime.ascii : Runtime where
  lower s := String.ofList (s.toList.map Char.toLower)
  repr _ := ""
  parseFloat _ := none
  parseInt _ := none

/-- `str(v)`. -/
def Runtime.str (rt : Runtime) : Value → String
  | .none => "None"
  | .bool b => if b then "True" else "False"
  | .int n => toString n
  | .str s => s
  | v => rt.repr v

/-- `float(v)`. -/
def Runtime.toFloat (rt : Runtime) (v : Value) : Result Double := v.toFloat? rt.parseFloat

/-- `int(v)`. -/
def Runtime.toInt (rt : Runtime) : Value → Result ℤ
  | .str s => (rt.parseInt s).elim (.error .valueError) .ok
  | v => v.toInt?

namespace Text

/-- `c.isspace()`. -/
def isSpace (c : Char) : Bool :=
  (9 ≤ c.toNat ∧ c.toNat ≤ 13) ∨ (28 ≤ c.toNat ∧ c.toNat ≤ 32) ∨ c.toNat = 0x85 ∨
    c.toNat = 0xA0 ∨ c.toNat = 0x1680 ∨ (0x2000 ≤ c.toNat ∧ c.toNat ≤ 0x200A) ∨
    c.toNat = 0x2028 ∨ c.toNat = 0x2029 ∨ c.toNat = 0x202F ∨ c.toNat = 0x205F ∨ c.toNat = 0x3000

/-- `s.strip()`. -/
def strip (s : String) : String :=
  String.ofList (((s.toList.dropWhile isSpace).reverse.dropWhile isSpace).reverse)

/-- The line breaks as a text file that is read has them: a carriage return, also before a line
feed, is a line feed. -/
def foldNewlines : List Char → List Char
  | [] => []
  | '\r' :: '\n' :: cs => '\n' :: foldNewlines cs
  | '\r' :: cs => '\n' :: foldNewlines cs
  | c :: cs => c :: foldNewlines cs

/-- What `read_text` gives of a text that was written. -/
def universalNewlines (s : String) : String := String.ofList (foldNewlines s.toList)

theorem foldNewlines_of_notMem {cs : List Char} (h : '\r' ∉ cs) : foldNewlines cs = cs := by
  fun_induction foldNewlines cs with
  | case1 => rfl
  | case2 cs ih => exact absurd List.mem_cons_self h
  | case3 cs hnext ih => exact absurd List.mem_cons_self h
  | case4 c cs hcr hne ih => rw [ih fun hmem => h (List.mem_cons_of_mem _ hmem)]

/-- A text without carriage returns is read as it was written. -/
theorem universalNewlines_of_notMem {s : String} (h : '\r' ∉ s.toList) :
    universalNewlines s = s := by
  rw [universalNewlines, foldNewlines_of_notMem h, String.ofList_toList]

example : universalNewlines "a\r\nb\rc\nd" = "a\nb\nc\nd" := by decide

/-- One blank for every run of whitespace; `inRun` says that the run's blank is already there. -/
def collapseRuns (inRun : Bool) : List Char → List Char
  | [] => []
  | c :: cs =>
    if isSpace c then
      if inRun then collapseRuns true cs else ' ' :: collapseRuns true cs
    else c :: collapseRuns false cs

/-- `re.sub(r"\s+", " ", s)`. -/
def collapseSpace (s : String) : String := String.ofList (collapseRuns false s.toList)

/-- `part in s`. -/
def contains (s part : String) : Bool := decide (part.toList <:+: s.toList)

/-- `s.startswith(p)`. -/
def startsWith (s p : String) : Bool := p.toList.isPrefixOf s.toList

/-- `s.split(sep)` for a separator of one character. -/
def split (sep : Char) (s : String) : List String := (s.toList.splitOn sep).map String.ofList

/-- `sep.join(parts)`. -/
def join (sep : String) (parts : List String) : String := sep.intercalate parts

/-- The maximal runs of characters satisfying `p`; `run` is the reversed run being read. -/
def runs (p : Char → Bool) (run : List Char) : List Char → List (List Char)
  | [] => if run.isEmpty then [] else [run.reverse]
  | c :: cs =>
    if p c then runs p (c :: run) cs
    else if run.isEmpty then runs p [] cs else run.reverse :: runs p [] cs

/-- A character of `[a-z0-9_]`. -/
def isWordChar (c : Char) : Bool :=
  (97 ≤ c.toNat ∧ c.toNat ≤ 122) ∨ (48 ≤ c.toNat ∧ c.toNat ≤ 57) ∨ c = '_'

/-- `re.findall(r"[a-z0-9_]+", s)`. -/
def words (s : String) : List String := (runs isWordChar [] s.toList).map String.ofList

example : strip " a b\n" = "a b" := by decide
example : collapseSpace "a \n b" = "a b" := by decide
example : words "fix: x_1 (y)" = ["fix", "x_1", "y"] := by decide

end Text

end Py
