import CodeReview.Runner.Returns
import Mathlib.Data.List.Pairwise

/-!
# Overflow splitting and unreviewed files

The merged output of a split unit has status completed whatever became of the halves.  So a half
that failed is hidden: the unit counts as reviewed, and the files of the failed half were not.

* `slices_files` : a run that returns has its unit's files divided among the slices;
* `files_reviewed_iff` : **a completed unit had all its files reviewed exactly when no file was left
  to the slices without a completed review**, and with no file listed twice this means that every
  slice was completed.
-/

namespace CodeReview

open Py Proc

/-- The answer accepted for a slice has status completed, which is what a missing status means. -/
def Completed (u : PlanUnit) (out : Dict) : Prop :=
  Dict.get (withDefaults u out) "status" = .str "completed"

/-- A call for a slice with the file returned an output with status completed. -/
def FileReviewed (trace : Trace) (file : String) : Prop :=
  ∃ (v : PlanUnit) (out : Dict), called v (.ok out) ∈ trace ∧ file ∈ v.files ∧ Completed v out

/-- If the unit's output has status completed, all its files were reviewed. -/
def FilesReviewed (u : PlanUnit) (trace : Trace) (res : Result Dict) : Prop :=
  ∀ out : Dict, res = .ok out → out.get "status" = .str "completed" →
    ∀ file ∈ u.files, FileReviewed trace file

namespace DispatchTree

/-- The last call for the slice returned an output with status completed. -/
def SliceCompleted (s : PlanUnit × Option Dict) : Prop := ∃ out, s.2 = some out ∧ Completed s.1 out

/-- What the slices without a completed review have left, other slices have reviewed. -/
def LossesCovered (t : DispatchTree) : Prop :=
  ∀ s ∈ t.slices, ¬ SliceCompleted s → ∀ file ∈ s.1.files,
    ∃ s' ∈ t.slices, SliceCompleted s' ∧ file ∈ s'.1.files

variable {maxRetries left : ℕ} {t : DispatchTree}

/-- The slices of a run that returns divide the files. -/
theorem slices_files (hvalid : t.Valid maxRetries left) (hreturns : t.Returns) :
    t.slices.flatMap (fun s => s.1.files) = t.unit.files := by
  induction t generalizing left with
  | answered u failures out => simp [slices, unit]
  | gaveUp u failures last => simp [slices, unit]
  | stranded u failures last => cases hreturns
  | tooLarge u failures => simp [slices, unit]
  | split u failures l r ihl ihr =>
    obtain ⟨-, hsplit, hl, hr, -⟩ := hvalid
    obtain ⟨-, -, -, hfiles, -⟩ := splitUnit_eq_some hsplit
    rw [slices, List.flatMap_append, ihl hl hreturns.1, ihr hr hreturns.2.1, unit, hfiles]
  | cut u failures exc l ih => cases hreturns

/-- A unit with a file has no slice without one. -/
theorem slices_nonempty (hvalid : t.Valid maxRetries left) (hfiles : t.unit.files ≠ []) :
    ∀ s ∈ t.slices, s.1.files ≠ [] := by
  have hhalves {u a b : PlanUnit} (hsplit : splitUnit u = some (a, b)) :
      a.files ≠ [] ∧ b.files ≠ [] := by
    obtain ⟨-, -, -, happend, ha, hb⟩ := splitUnit_eq_some hsplit
    rw [happend, List.length_append] at ha hb
    refine ⟨fun h => ?_, fun h => ?_⟩ <;> rw [h, List.length_nil] at ha hb <;> omega
  induction t generalizing left with
  | answered u failures out => simpa [slices, unit] using hfiles
  | gaveUp u failures last => simpa [slices, unit] using hfiles
  | stranded u failures last => simpa [slices, unit] using hfiles
  | tooLarge u failures => simpa [slices, unit] using hfiles
  | split u failures l r ihl ihr =>
    obtain ⟨-, hsplit, hl, hr, -⟩ := hvalid
    intro s hs
    rcases List.mem_append.1 hs with hs | hs
    · exact ihl hl (hhalves hsplit).1 s hs
    · exact ihr hr (hhalves hsplit).2 s hs
  | cut u failures exc l ih =>
    obtain ⟨-, ⟨b, hsplit⟩, hl, -⟩ := hvalid
    exact ih hl (hhalves hsplit).1

theorem files_ne_nil_of_split (hvalid : t.Valid maxRetries left) (hsplit : t.IsSplit) :
    t.unit.files ≠ [] := by
  have hlen : 1 < t.unit.files.length := by
    cases t with
    | split u failures l r => exact (splitUnit_eq_some hvalid.2.1).1
    | cut u failures exc l =>
      obtain ⟨b, hb⟩ := hvalid.2.1
      exact (splitUnit_eq_some hb).1
    | _ => cases hsplit
  intro h
  rw [h] at hlen
  cases hlen

/-- A file is reviewed in the trace when a slice with it was completed. -/
theorem fileReviewed_iff {file : String} :
    FileReviewed (t.traceFrom 0) file ↔
      ∃ s ∈ t.slices, SliceCompleted s ∧ file ∈ s.1.files := by
  constructor
  · rintro ⟨v, out, hcall, hfile, hcompleted⟩
    exact ⟨(v, some out), (called_ok_mem_traceFrom 0 t).1 hcall, ⟨out, rfl, hcompleted⟩, hfile⟩
  · rintro ⟨⟨v, answer⟩, hs, ⟨out, rfl, hcompleted⟩, hfile⟩
    exact ⟨v, out, (called_ok_mem_traceFrom 0 t).2 hs, hfile, hcompleted⟩

/-- With no file listed twice, no slice makes up for another. -/
theorem lossesCovered_iff_of_nodup (hvalid : t.Valid maxRetries left) (hreturns : t.Returns)
    (hfiles : t.unit.files ≠ []) (hnodup : t.unit.files.Nodup) :
    t.LossesCovered ↔ ∀ s ∈ t.slices, SliceCompleted s := by
  constructor
  · intro hcovered s hs
    by_contra hlost
    obtain ⟨file, hfile⟩ := List.exists_mem_of_ne_nil _ (slices_nonempty hvalid hfiles s hs)
    obtain ⟨s', hs', hcompleted, hfile'⟩ := hcovered s hs hlost file hfile
    rw [← slices_files hvalid hreturns, List.nodup_flatMap] at hnodup
    -- two different slices have no file in common
    have hne : s ≠ s' := by
      rintro rfl
      exact hlost hcompleted
    have : Std.Symm (Function.onFun List.Disjoint fun s : PlanUnit × Option Dict => s.1.files) :=
      ⟨fun _ _ hst _ ht hs => hst hs ht⟩
    exact hnodup.2.forall hs hs' hne hfile hfile'
  · intro hall s hs hlost
    exact absurd (hall s hs) hlost

/-- The output of a split unit has status completed. -/
theorem status_of_split {out : Dict} (hsplit : t.IsSplit) (h : t.result = .ok out) :
    out.get "status" = .str "completed" := by
  cases t with
  | split u failures l r =>
    obtain ⟨outL, outR, fl, fr, -, -, -, -, hmerged⟩ := result_eq_ok_split.1 h
    obtain ⟨sums, hsums, rfl⟩ := mergedOutput_eq_ok.1 hmerged
    rw [Dict.get, get?_overflowOut hsums, if_neg (by decide)]
    rfl
  | cut u failures exc l => cases h
  | _ => cases hsplit

/-- An output that was not merged is the hook's or has status failed. -/
theorem filesReviewed_of_not_split (hsplit : ¬ t.IsSplit) :
    FilesReviewed t.unit (t.traceFrom 0) t.result := by
  intro out h hstatus file hfile
  cases t with
  | answered u failures out' =>
    obtain ⟨-, rfl⟩ := result_eq_ok_answered.1 h
    exact fileReviewed_iff.2 ⟨_, List.mem_singleton_self _, ⟨out', rfl, hstatus⟩, hfile⟩
  | gaveUp u failures last =>
    obtain rfl := Except.ok.inj h
    simp [failedOutput, Dict.get, Assoc.get?] at hstatus
  | stranded u failures last => cases h
  | tooLarge u failures =>
    obtain rfl := Except.ok.inj h
    simp [failedOutput, Dict.get, Assoc.get?] at hstatus
  | _ => exact absurd trivial hsplit

theorem filesReviewed_iff_of_split (hvalid : t.Valid maxRetries left) (hsplit : t.IsSplit) :
    FilesReviewed t.unit (t.traceFrom 0) t.result ↔ (t.Returns → t.LossesCovered) := by
  constructor
  · intro hreviewed hreturns s hs _ file hfile
    obtain ⟨out, hout⟩ := (result_ok_iff t).2 hreturns
    have hunit : file ∈ t.unit.files := by
      rw [← slices_files hvalid hreturns]
      exact List.mem_flatMap.2 ⟨s, hs, hfile⟩
    exact fileReviewed_iff.1 (hreviewed out hout (status_of_split hsplit hout) file hunit)
  · intro hcovered out hout _ file hfile
    have hreturns := (result_ok_iff t).1 ⟨out, hout⟩
    rw [← slices_files hvalid hreturns] at hfile
    obtain ⟨s, hs, hmem⟩ := List.mem_flatMap.1 hfile
    rw [fileReviewed_iff]
    by_cases hcompleted : SliceCompleted s
    · exact ⟨s, hs, hcompleted, hmem⟩
    · exact hcovered hreturns s hs hcompleted file hmem

end DispatchTree

open DispatchTree

/-- **A unit with status completed had every file reviewed exactly when, if it was split and no
step raised, what the slices without a completed review left was reviewed in other slices.** -/
theorem files_reviewed_iff {n : ℤ} {u : PlanUnit} {trace : Trace} {res : Result Dict}
    (h : Runs (dispatchOne n u) trace res) :
    ∃ t : DispatchTree, t.unit = u ∧ t.Valid n.toNat n.toNat ∧ trace = t.traceFrom 0 ∧
      (FilesReviewed u trace res ↔ (t.IsSplit → t.Returns → t.LossesCovered)) ∧
      (u.files.Nodup → t.IsSplit → t.Returns →
        (t.LossesCovered ↔ ∀ s ∈ t.slices, SliceCompleted s)) := by
  obtain ⟨t, rfl, hvalid, rfl, rfl⟩ := runs_dispatchOne.1 h
  refine ⟨t, rfl, hvalid, rfl, ?_, fun hnodup hsplit hreturns => ?_⟩
  · by_cases hsplit : t.IsSplit
    · rw [filesReviewed_iff_of_split hvalid hsplit]
      exact ⟨fun h _ => h, fun h => h hsplit⟩
    · exact iff_of_true (filesReviewed_of_not_split hsplit) fun hs => absurd hs hsplit
  · exact lossesCovered_iff_of_nodup hvalid hreturns (files_ne_nil_of_split hvalid hsplit) hnodup

/-- Two files that overflow together; the hook reviews the first and is rate-limited on the
second. -/
def halfLost : DispatchTree :=
  .split ⟨"quality", 1, 1, ["a.py", "b.py"]⟩ []
    (.answered ⟨"quality", 1, 1, ["a.py"]⟩ [] [("id", "quality"), ("status", "completed")])
    (.gaveUp ⟨"quality", 1, 1, ["b.py"]⟩ [] .rateLimit)

theorem halfLost_valid : halfLost.Valid 0 0 :=
  ⟨retriable_start, rfl, retriable_start, ⟨retriable_start, rfl⟩, _, rfl⟩

theorem halfLost_runs : Runs (dispatchOne 0 halfLost.unit) (halfLost.traceFrom 0) halfLost.result :=
  runs_dispatchOne.2 ⟨halfLost, rfl, halfLost_valid, rfl, rfl⟩

theorem files_reviewed_iff_halfLost :
    Runs (dispatchOne 0 halfLost.unit) (halfLost.traceFrom 0) halfLost.result ∧
    ∃ t : DispatchTree, t.unit = halfLost.unit ∧ t.Valid 0 0 ∧
      halfLost.traceFrom 0 = t.traceFrom 0 ∧
      (FilesReviewed halfLost.unit (halfLost.traceFrom 0) halfLost.result ↔
        (t.IsSplit → t.Returns → t.LossesCovered)) ∧
      (halfLost.unit.files.Nodup → t.IsSplit → t.Returns →
        (t.LossesCovered ↔ ∀ s ∈ t.slices, SliceCompleted s)) :=
  ⟨halfLost_runs, files_reviewed_iff (n := 0) halfLost_runs⟩

/-- The second file is in no call that was answered, and the unit has status completed. -/
theorem completed_with_lost_file :
    ∃ trace res, Runs (dispatchOne 0 ⟨"quality", 1, 1, ["a.py", "b.py"]⟩) trace res ∧
      (∃ out : Dict, res = .ok out ∧ out.get "status" = .str "completed") ∧
      ¬ FilesReviewed ⟨"quality", 1, 1, ["a.py", "b.py"]⟩ trace res := by
  refine ⟨_, _, halfLost_runs, ⟨_, rfl, rfl⟩, ?_⟩
  intro h
  obtain ⟨s, hs, ⟨out, hout, -⟩, hfile⟩ :=
    fileReviewed_iff.1 (h _ rfl rfl "b.py" (by decide))
  -- the only slice with the file has no accepted answer
  simp only [halfLost, slices, List.cons_append, List.nil_append, List.mem_cons,
    List.not_mem_nil, or_false] at hs
  rcases hs with rfl | rfl
  · revert hfile; decide
  · cases hout

end CodeReview
