import CodeReview.Py.Order
import CodeReview.Py.Text

/-!
# What the inline handlers share

Every inline handler reads the run's `env`, a dictionary of JSON values, and returns a dictionary
of outputs.  This file has the defensive readers (`ensureList`, `ensureDict`), the closed
vocabularies of severities and verdicts, and the names of the eight gates.
-/

namespace CodeReview

open Py

/-- `_ensure_list`. -/
def ensureList : Value → List Value
  | .list xs => xs
  | _ => []

/-- `_ensure_dict`. -/
def ensureDict : Value → Dict
  | .dict kvs => kvs
  | _ => []

/-- The entries of a list that are dictionaries; the handlers skip all others. -/
def dicts (xs : List Value) : List Dict := xs.filterMap Value.asDict?

/-- The entries of a list that are strings. -/
def strs (xs : List Value) : List String := xs.filterMap Value.asStr?

/-- A list of strings as a JSON array. -/
def ofStrs (xs : List String) : Value := .list (xs.map .str)

@[simp] theorem mem_dicts {xs : List Value} {d : Dict} : d ∈ dicts xs ↔ .dict d ∈ xs := by
  simp only [dicts, List.mem_filterMap]
  constructor
  · rintro ⟨v, hv, h⟩
    cases v <;> simp only [Value.asDict?, Option.some.injEq, reduceCtorEq] at h
    exact h ▸ hv
  · exact fun h => ⟨_, h, rfl⟩

@[simp] theorem mem_strs {xs : List Value} {s : String} : s ∈ strs xs ↔ .str s ∈ xs := by
  simp only [strs, List.mem_filterMap]
  constructor
  · rintro ⟨v, hv, h⟩
    cases v <;> simp only [Value.asStr?, Option.some.injEq, reduceCtorEq] at h
    exact h ▸ hv
  · exact fun h => ⟨_, h, rfl⟩

@[simp] theorem strs_map_str (xs : List String) : strs (xs.map .str) = xs := by
  induction xs with
  | nil => rfl
  | cons s xs ih => simpa [strs, Value.asStr?] using ih

@[simp] theorem dicts_map (ds : List Dict) : dicts (ds.map .dict) = ds := by
  induction ds with
  | nil => rfl
  | cons d ds ih => simpa [dicts, Value.asDict?] using ih

theorem dicts_map_dict {α : Type} (f : α → Dict) (xs : List α) :
    dicts (xs.map fun a => .dict (f a)) = xs.map f := by
  rw [← dicts_map (xs.map f), List.map_map]
  rfl

@[simp] theorem ensureList_list (xs : List Value) : ensureList (.list xs) = xs := rfl

@[simp] theorem ensureDict_dict (d : Dict) : ensureDict (.dict d) = d := rfl

/-- The files of the change. -/
def changedFiles (env : Dict) : List String := strs (ensureList (env.get "changed_paths"))

/-- `f.get("flagged_by") or []`. -/
def flaggedBy (f : Dict) : Value := (f.get "flagged_by").or (.list [])

/-- `_SEVERITY_RANK`. -/
def severityRank : List (String × ℕ) := [("critical", 3), ("important", 2), ("minor", 1)]

/-- `_VALID_SEVERITIES`. -/
def validSeverities : List String := ["critical", "important", "minor"]

/-- The severities that block a release. -/
def blockingSeverities : List String := ["critical", "important"]

/-- `_SEVERITY_RANK.get(v, 0)`: an unhashable key raises. -/
def rankOf (v : Value) : Result ℕ :=
  if v.hashable then .ok (v.asStr?.elim 0 fun s => (Assoc.get? severityRank s).getD 0)
  else .error .typeError

/-- The verdicts of a review. -/
inductive Verdict where
  | go
  | noGo
  | conditional
  deriving DecidableEq, Repr

/-- The text of a verdict. -/
def Verdict.text : Verdict → String
  | go => "GO"
  | noGo => "NO-GO"
  | conditional => "CONDITIONAL"

/-- `_GATE_NAMES`. -/
def gateNames : List String :=
  ["SOLID & Clean Code", "Error Handling & Resilience", "Code Quality & Type Safety",
    "Test Coverage", "Architecture & Design", "Security & Safety", "Documentation",
    "Domain-specific quality"]

/-- The gates with their numbers, from 1. -/
def gateTable : List (ℕ × String) := gateNames.zipIdx.map fun p => (p.2 + 1, p.1)

/-- The status of a gate. -/
inductive GateStatus where
  | pass
  | fail
  | notApplicable
  deriving DecidableEq, Repr

/-- The text of a gate status. -/
def GateStatus.text : GateStatus → String
  | pass => "PASS"
  | fail => "FAIL"
  | notApplicable => "N/A"

/-- One row of the gate table. -/
structure GateRow where
  number : ℕ
  name : String
  status : GateStatus
  contributingLeaves : List String
  blockerCount : ℕ
  deriving DecidableEq, Repr

/-- The row as a JSON object. -/
def GateRow.toValue (g : GateRow) : Value :=
  .dict [("number", .int g.number), ("name", .str g.name), ("status", .str g.status.text),
    ("contributing_leaves", ofStrs g.contributingLeaves), ("blocker_count", .int g.blockerCount)]

end CodeReview
