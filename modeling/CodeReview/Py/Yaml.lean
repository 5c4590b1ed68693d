import CodeReview.Py.Double
import Mathlib.Tactic.Common

/-!
# YAML values

What `yaml.safe_load` makes of a document, as far as a program can tell without knowing the classes:
the values of JSON, mappings with keys of any kind, and the others (dates, times, bytes, sets,
pairs), of which only the length and the hash are known.
-/

namespace Py

/-- A YAML value. -/
inductive Yaml where
  | null
  | bool (b : Bool)
  | int (n : ℤ)
  | float (x : Double)
  | str (s : String)
  | list (xs : List Yaml)
  | map (entries : List (Yaml × Yaml))
  /-- A date, a time, bytes, a set or a pair: its length if it has one, and whether it has a
  hash. -/
  | other (len : Option ℕ) (hashable : Bool)

namespace Yaml

/-- A mapping. -/
abbrev Mapping := List (Yaml × Yaml)

/-- `v is None`. -/
def isNull : Yaml → Bool
  | null => true
  | _ => false

/-- `isinstance(v, str)`. -/
def isStr : Yaml → Bool
  | str _ => true
  | _ => false

/-- `v == name`. -/
def eqStr (name : String) : Yaml → Bool
  | str s => s = name
  | _ => false

/-- `len(v)`, where there is one. -/
def len? : Yaml → Option ℕ
  | str s => some s.length
  | list xs => some xs.length
  | map entries => some entries.length
  | other len _ => len
  | _ => none

/-- Whether `hash(v)` exists. -/
def hashable : Yaml → Bool
  | list _ => false
  | map _ => false
  | other _ hashable => hashable
  | _ => true

/-- The value under a name. -/
def lookup : Mapping → String → Option Yaml
  | [], _ => none
  | (key, v) :: entries, name => if key.eqStr name then some v else lookup entries name

/-- `mapping.get(name)`. -/
def get (entries : Mapping) (name : String) : Yaml := (lookup entries name).getD null

/-- The value at a path of names. -/
def dig : Yaml → List String → Yaml
  | v, [] => v
  | map entries, name :: path => (get entries name).dig path
  | _, _ :: _ => null

theorem eqStr_iff {v : Yaml} {name : String} : v.eqStr name = true ↔ v = str name := by
  cases v <;> simp [eqStr]

theorem isStr_iff {v : Yaml} : v.isStr = true ↔ ∃ s, v = str s := by
  cases v <;> simp [isStr]

theorem isNull_iff {v : Yaml} : v.isNull = true ↔ v = null := by
  cases v <;> simp [isNull]

theorem get_of_lookup {entries : Mapping} {name : String} {v : Yaml}
    (h : lookup entries name = some v) : get entries name = v := by
  rw [get, h, Option.getD_some]

end Yaml

end Py
