import CodeReview.Handlers.Coverage
import CodeReview.Handlers.FlaggedBy

/-!
# Coverage and completed reviews

The coverage check reads the findings and the picked leaves, never the specialists' outputs.  On
findings collected from a list of outputs, the credits through findings all go to completed
specialists; those through globs need not.

* `verifyCoverage_ok_iff` : it raises on a picked leaf that cannot be read, and on no other;
* `reviewers_completed_iff` : **it returns, and every listed reviewer completed, exactly when every
  picked leaf can be read and those that cover a changed file completed**; then GO means two
  completed reviewers for every changed file.
-/

namespace CodeReview

open Py

variable {rt : Runtime} {embed : Embed} {wiki : Wiki}

/-- `s` is the id of an output with status completed; the collector reads a missing id as `""`. -/
def CompletedBy (outputs : List Value) (s : String) : Prop :=
  ∃ o : Dict, .dict o ∈ outputs ∧ o.get "status" = .str "completed" ∧
    o.getD "id" (.str "") = .str s

/-- Every picked leaf that covers a changed file is a completed specialist. -/
def CoveringLeavesCompleted (wiki : Wiki) (env : Dict) : Prop :=
  ∀ file ∈ changedFiles env, ∀ s, CreditedByLeaf wiki env file s →
    CompletedBy (ensureList (env.get "specialist_outputs")) s

theorem completedBy_of_report {outputs : List Value} {s : String} {finding : Dict}
    (h : (.str s, finding) ∈ reports outputs) : CompletedBy outputs s := by
  obtain ⟨o, ho, hmem⟩ := List.mem_flatMap.1 h
  split_ifs at hmem with hstatus
  · obtain ⟨f, -, hf⟩ := List.mem_map.1 hmem
    simp only [Prod.mk.injEq] at hf
    exact ⟨o, mem_dicts.1 ho, (Value.eqv_str _ _).1 hstatus, hf.1⟩
  · cases hmem

/-- The environment the coverage check runs in after the collector. -/
def withFindings (env : Dict) (c : Collected) : Dict :=
  Assoc.set env "findings" (.list (c.findings.map .dict))

/-- On collected findings the coverage check returns when every picked leaf can be read. -/
theorem verifyCoverage_ok_iff (wiki : Wiki) {env : Dict} {c : Collected}
    (h : collectFindings rt embed env = .ok c) :
    Result.Ok (verifyCoverage wiki (withFindings env c)) ↔ PicksReadable wiki env := by
  have hread : ∀ f ∈ dicts (c.findings.map Value.dict),
      Result.Ok (findingCredits (changedFiles env) f) := by
    intro f hf
    have hf' : f ∈ c.findings := by simpa using hf
    obtain ⟨xs, hxs⟩ := collectFindings_flaggedBy_ok h hf'
    rw [findingCredits]
    split
    · split_ifs
      · exact ⟨_, by rw [hxs]; rfl⟩
      · exact ⟨_, rfl⟩
    · exact ⟨_, rfl⟩
  obtain ⟨given, hgiven⟩ := Result.mapM_ok hread
  have hfindings : (dicts (ensureList ((withFindings env c).get "findings"))).mapM
      (findingCredits (strs (ensureList ((withFindings env c).get "changed_paths")))) =
        .ok given := by
    simpa [withFindings, changedFiles] using hgiven
  have hpicks : ensureList ((withFindings env c).get "picked_leaves") =
      ensureList (env.get "picked_leaves") := by
    simp [withFindings]
  constructor
  · rintro ⟨cov, hcov⟩ leaf hleaf
    obtain ⟨all, hall, -⟩ := Result.bind_eq_ok.1 hcov
    obtain ⟨_, -, hall⟩ := Result.bind_eq_ok.1 hall
    obtain ⟨fromLeaves, hfl, -⟩ := Result.bind_eq_ok.1 hall
    rw [hpicks] at hfl
    obtain ⟨cs, -, hcs⟩ := Result.exists_of_mapM_left hfl (mem_dicts.2 hleaf)
    exact leafCredits_ok_iff.1 ⟨cs, hcs⟩
  · intro hpick
    obtain ⟨fromLeaves, hfl⟩ : Result.Ok
        ((dicts (ensureList ((withFindings env c).get "picked_leaves"))).mapM
          (leafCredits wiki (strs (ensureList ((withFindings env c).get "changed_paths"))))) :=
      Result.mapM_ok fun leaf hleaf =>
        leafCredits_ok_iff.2 (hpick leaf (hpicks ▸ mem_dicts.1 hleaf))
    exact ⟨_, Result.bind_eq_ok.2 ⟨_, Result.bind_eq_ok.2 ⟨given, hfindings,
      Result.bind_eq_ok.2 ⟨fromLeaves, hfl, rfl⟩⟩, rfl⟩⟩

/-- Without rescues a credit comes from a completed specialist or a covering leaf. -/
theorem credit_completed_or_leaf {env : Dict} {c : Collected}
    (h : collectFindings rt embed env = .ok c)
    (hrescues : ensureList (env.get "coverage_rescues") = []) {given : List Credit}
    (hgiven : credits wiki (withFindings env c) = .ok given) {file s : String}
    (hmem : (file, s) ∈ given) :
    file ∈ changedFiles env ∧ (CompletedBy (ensureList (env.get "specialist_outputs")) s ∨
      CreditedByLeaf wiki env file s) := by
  obtain ⟨hfile, hsource⟩ := (mem_credits hgiven).1 hmem
  refine ⟨by simpa [withFindings, changedFiles] using hfile, ?_⟩
  rcases hsource with ⟨f, hf, -, hflag⟩ | ⟨leaf, hleaf, hid⟩ | ⟨rescue, hres, -⟩
  · have hf' : f ∈ c.findings := by simpa [withFindings] using hf
    obtain ⟨finding, hreport⟩ := collectFindings_flags h hf' hflag
    exact .inl (completedBy_of_report hreport)
  · exact .inr ⟨leaf, by simpa [withFindings] using hleaf, hid⟩
  · simp [withFindings, hrescues] at hres

/-- Every reviewer in the matrix is a completed specialist. -/
def ReviewersCompleted (outputs : List Value) (cov : Coverage) : Prop :=
  ∀ row ∈ cov.coverageMatrix, ∀ s ∈ row.reviewers, CompletedBy outputs s

/-- A GO on these coverage outputs means two completed reviewers for every changed file. -/
def GoMeansReviewed (outputs : List Value) (env : Dict) (cov : Coverage) : Prop :=
  ∀ r, synthesizeReleaseReadiness (Assoc.update env cov.toDict) = .ok r → r.verdict = .go →
    ∀ file ∈ changedFiles env, ∃ row ∈ cov.coverageMatrix, row.file = file ∧
      ∃ s₁ ∈ row.reviewers, ∃ s₂ ∈ row.reviewers, s₁ ≠ s₂ ∧
        CompletedBy outputs s₁ ∧ CompletedBy outputs s₂

/-- Two entries of a list without repetitions differ. -/
theorem exists_ne_of_two_le {α : Type} {xs : List α} (hn : xs.Nodup) (h : 2 ≤ xs.length) :
    ∃ a ∈ xs, ∃ b ∈ xs, a ≠ b := by
  match xs, h with
  | a :: b :: _, _ =>
    refine ⟨a, List.mem_cons_self, b, List.mem_cons_of_mem _ List.mem_cons_self, ?_⟩
    rintro rfl
    exact (List.nodup_cons.1 hn).1 List.mem_cons_self

theorem goMeansReviewed_of_completed {outputs : List Value} {env : Dict} {cov : Coverage}
    (h : verifyCoverage wiki env = .ok cov) (hall : ReviewersCompleted outputs cov) :
    GoMeansReviewed outputs env cov := by
  intro r hr hgo file hfile
  obtain ⟨given, -, hrows, hviolated⟩ := verifyCoverage_spec h
  have hflag : Dict.get (Assoc.update env cov.toDict) "coverage_rule_violated" =
      .bool cov.coverageRuleViolated := by
    simp [Coverage.toDict, Assoc.update]
  have hkept := ((synthesize_go_iff hr).1 hgo).1
  rw [hflag] at hkept
  have htwo := hviolated.1 (by simpa [Value.truthy] using hkept) file hfile
  have hrow : CoverageRow.mk file (reviewersOf given file) ∈ cov.coverageMatrix :=
    (hrows _).2 ⟨hfile, rfl⟩
  obtain ⟨s₁, h₁, s₂, h₂, hne⟩ := exists_ne_of_two_le (nodup_sortedSet _) htwo
  exact ⟨_, hrow, rfl, s₁, h₁, s₂, h₂, hne, hall _ hrow _ h₁, hall _ hrow _ h₂⟩

/-- **The check returns, every listed reviewer completed, and GO means two completed reviewers a
file, exactly when every picked leaf can be read and those that cover a changed file completed.** -/
theorem reviewers_completed_iff {env : Dict} {c : Collected}
    (h : collectFindings rt embed env = .ok c)
    (hrescues : ensureList (env.get "coverage_rescues") = []) :
    (∃ cov, verifyCoverage wiki (withFindings env c) = .ok cov ∧
        ReviewersCompleted (ensureList (env.get "specialist_outputs")) cov ∧
        GoMeansReviewed (ensureList (env.get "specialist_outputs")) (withFindings env c) cov) ↔
      PicksReadable wiki env ∧ CoveringLeavesCompleted wiki env := by
  rw [← verifyCoverage_ok_iff wiki h]
  constructor
  -- a covering leaf is credited with the file, and the credited have completed
  · rintro ⟨cov, hcov, hall, -⟩
    obtain ⟨given, hgiven, hrows, -⟩ := verifyCoverage_spec hcov
    refine ⟨⟨cov, hcov⟩, fun file hfile s hleaf => ?_⟩
    have hfile' : file ∈ changedFiles (withFindings env c) := by
      simpa [withFindings, changedFiles] using hfile
    have hcredit : (file, s) ∈ given := by
      refine (mem_credits hgiven).2 ⟨hfile', .inr (.inl ?_)⟩
      obtain ⟨leaf, hl, hrest⟩ := hleaf
      exact ⟨leaf, by simpa [withFindings] using hl, hrest⟩
    exact hall ⟨file, reviewersOf given file⟩ ((hrows _).2 ⟨hfile', rfl⟩) s
      (mem_reviewersOf.2 hcredit)
  · rintro ⟨⟨cov, hcov⟩, hcond⟩
    obtain ⟨given, hgiven, hrows, -⟩ := verifyCoverage_spec hcov
    have hall : ReviewersCompleted (ensureList (env.get "specialist_outputs")) cov := by
      intro row hrow s hs
      obtain ⟨hfile, hrev⟩ := (hrows row).1 hrow
      rw [hrev, mem_reviewersOf] at hs
      obtain ⟨hch, hdone | hleaf⟩ := credit_completed_or_leaf h hrescues hgiven hs
      · exact hdone
      · exact hcond _ hch s hleaf
    exact ⟨cov, hcov, hall, goMeansReviewed_of_completed hcov hall⟩

/-- One changed file, two picked leaves without an activation block, and their outputs. -/
def pairReview (status : String) : Dict :=
  [("changed_paths", ofStrs ["a.py"]),
    ("picked_leaves", .list (["lang-python", "sec-input"].map fun s =>
      .dict [("id", .str s), ("path", .str (s ++ ".md")), ("dimensions", ofStrs ["correctness"])])),
    ("specialist_outputs", .list (["lang-python", "sec-input"].map fun s =>
      .dict [("id", .str s), ("status", .str status), ("findings", .list [])]))]

/-- Nothing was found in it. -/
def nothingFound : Collected := ⟨[], noCounts, 0⟩

/-- Two specialists that both completed, and the theorem applied to them. -/
theorem reviewers_completed_iff_pair :
    ∃ cov, verifyCoverage noWiki (withFindings (pairReview "completed") nothingFound) = .ok cov ∧
      ReviewersCompleted (ensureList ((pairReview "completed").get "specialist_outputs")) cov ∧
      GoMeansReviewed (ensureList ((pairReview "completed").get "specialist_outputs"))
        (withFindings (pairReview "completed") nothingFound) cov := by
  refine (@reviewers_completed_iff .ascii (fun _ => none) noWiki (pairReview "completed")
    nothingFound rfl rfl).2 ⟨?_, ?_⟩
  · intro leaf hleaf s _ _
    obtain ⟨path, hpath⟩ : ∃ path, leaf.get "path" = .str path := by
      simp only [pairReview, ensureList, Dict.get_cons, List.map_cons, List.map_nil] at hleaf
      simp at hleaf
      rcases hleaf with rfl | rfl <;> exact ⟨_, rfl⟩
    rw [hpath, readLeafGlobs]
    split_ifs <;> exact Result.ok_ok _
  · rintro file - s ⟨leaf, hleaf, hid, -, -⟩
    simp only [pairReview, ensureList, Dict.get_cons, List.map_cons, List.map_nil] at hleaf
    simp at hleaf
    rcases hleaf with rfl | rfl
    · obtain rfl := Value.str.inj hid
      exact ⟨_, List.mem_cons_self, rfl, rfl⟩
    · obtain rfl := Value.str.inj hid
      exact ⟨_, List.mem_cons_of_mem _ List.mem_cons_self, rfl, rfl⟩

/-- Two specialists that both failed are listed as reviewers. -/
theorem failed_reviewers_credited :
    ¬ ∀ (rt : Runtime) (embed : Embed) (wiki : Wiki) (env : Dict) (c : Collected) (cov : Coverage),
      collectFindings rt embed env = .ok c → ensureList (env.get "coverage_rescues") = [] →
      verifyCoverage wiki (withFindings env c) = .ok cov →
      ReviewersCompleted (ensureList (env.get "specialist_outputs")) cov ∧
        GoMeansReviewed (ensureList (env.get "specialist_outputs")) (withFindings env c) cov := by
  intro h
  have hcov : verifyCoverage noWiki (withFindings (pairReview "failed") nothingFound) =
      .ok ⟨[⟨"a.py", ["lang-python", "sec-input"]⟩], [], false⟩ := by decide
  obtain ⟨hall, -⟩ := h .ascii (fun _ => none) noWiki _ nothingFound _ rfl rfl hcov
  obtain ⟨o, ho, hstatus, -⟩ := hall _ List.mem_cons_self "lang-python" List.mem_cons_self
  simp only [pairReview, ensureList, Dict.get_cons, List.map_cons, List.map_nil] at ho
  simp at ho
  rcases ho with rfl | rfl <;> simp [Dict.get_cons] at hstatus

end CodeReview
