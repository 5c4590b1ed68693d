import CodeReview.Lib.LexPath
import CodeReview.Py.Text
import Mathlib.Data.List.DropRight

/-!
# Paths

`pathlib` on POSIX: a path is split into its parts, and joining keeps the second path alone when it
is absolute.  Absolute paths are given by their parts here.
-/

namespace Py

namespace Path

/-- `PurePath(path).parts`, without the root. -/
def parts (path : String) : List String :=
  (Text.split '/' path).filter fun part => part ≠ "" ∧ part ≠ "."

/-- `PurePath(path).is_absolute()`. -/
def isAbsolute (path : String) : Bool := Text.startsWith path "/"

/-- `base / path`, for an absolute `base`. -/
def join (base : List String) (path : String) : List String :=
  if isAbsolute path then parts path else base ++ parts path

/-- `os.path.normpath` of an absolute path. -/
def normpath (path : List String) : List String := LexPath.normalise ".." path

/-- The parts up to the last separator. -/
def dirParts (path : String) : List String :=
  parts (String.ofList (path.toList.rdropWhile (· ≠ '/')))

@[simp] theorem parts_empty : parts "" = [] := rfl

theorem parts_append_sep (a b : String) : parts (a ++ "/" ++ b) = parts a ++ parts b := by
  have hsplit : Text.split '/' (a ++ "/" ++ b) = Text.split '/' a ++ Text.split '/' b := by
    rw [Text.split, String.toList_append, String.toList_append, List.append_assoc]
    change List.map _ (List.splitOn '/' (a.toList ++ '/' :: b.toList)) = _
    rw [List.splitOn_append_cons_self, List.map_append]
    rfl
  rw [parts, hsplit, List.filter_append]
  rfl

/-- A text without a separator is one part. -/
theorem parts_of_not_mem {s : String} (h : '/' ∉ s.toList) (hempty : s ≠ "") (hdot : s ≠ ".") :
    parts s = [s] := by
  rw [parts, Text.split, List.splitOn_eq_singleton h]
  simp [hempty, hdot]

/-- What follows the last separator of a path. -/
theorem exists_last (path : String) : ('/' ∉ path.toList ∧ dirParts path = []) ∨
    ∃ dir last, path = dir ++ "/" ++ last ∧ '/' ∉ last.toList ∧ dirParts path = parts dir := by
  set notSep : Char → Bool := (· ≠ '/') with hnotSep
  have happend := List.rdropWhile_append_rtakeWhile (p := notSep) (l := path.toList)
  have hlast : '/' ∉ path.toList.rtakeWhile notSep := fun h => by
    simpa [hnotSep] using List.mem_rtakeWhile_imp h
  by_cases hdir : path.toList.rdropWhile notSep = []
  · rw [hdir, List.nil_append] at happend
    exact .inl ⟨happend ▸ hlast, by rw [dirParts, hdir]; rfl⟩
  · -- the text up to the last separator ends in it
    have hsep : (path.toList.rdropWhile notSep).getLast hdir = '/' := by
      simpa [hnotSep] using List.rdropWhile_last_not notSep path.toList hdir
    have hcut := List.dropLast_append_getLast hdir
    rw [hsep] at hcut
    refine .inr ⟨String.ofList (path.toList.rdropWhile notSep).dropLast,
      String.ofList (path.toList.rtakeWhile notSep), ?_, by simpa using hlast, ?_⟩
    · have htext := calc
        path.toList = path.toList.rdropWhile notSep ++ path.toList.rtakeWhile notSep := happend.symm
        _ = (path.toList.rdropWhile notSep).dropLast ++ ['/'] ++ path.toList.rtakeWhile notSep := by
          rw [hcut]
      rw [← String.toList_inj]
      simpa using htext
    · have hdirText : String.ofList (path.toList.rdropWhile notSep) =
          String.ofList (path.toList.rdropWhile notSep).dropLast ++ "/" ++ "" := by
        rw [← String.toList_inj]
        simpa using hcut.symm
      rw [dirParts, hdirText, parts_append_sep, parts_empty, List.append_nil]

end Path

end Py
