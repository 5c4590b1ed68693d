import CodeReview.Handlers.Collectable
import CodeReview.Handlers.LastWins

/-!
# Where findings come from

The merge, the collector and the ranker pass findings on.  None of them makes one up: whatever they
return, they were given.

* `merge_origin`, `merge_reports` : a merged output is a recorded one, and so are its findings;
* `collected_origin` : a collected entry keeps the fields of a reported finding.
-/

namespace CodeReview

open Py

/-- A completed specialist output has the finding. -/
def Reports (out f : Dict) : Prop :=
  (out.get "status").eqv (.str "completed") = true ∧ .dict f ∈ ensureList (out.get "findings")

/-- The reports of a list of outputs are what its outputs report. -/
theorem exists_reports {outputs : List Value} {r : Value × Dict} (h : r ∈ reports outputs) :
    ∃ out : Dict, .dict out ∈ outputs ∧ Reports out r.2 := by
  obtain ⟨out, hout, hr⟩ := List.mem_flatMap.1 h
  split_ifs at hr with hstatus
  · obtain ⟨finding, hfinding, rfl⟩ := List.mem_map.1 hr
    exact ⟨out, mem_dicts.1 hout, hstatus, mem_dicts.1 hfinding⟩
  · cases hr

variable {rt : Runtime} {embed : Embed}

/-! ### The merge -/

/-- A stamp changes the id alone. -/
theorem reports_stampId {leafId : String} {out f : Dict} (h : Reports (stampId leafId out) f) :
    Reports out f := by
  have hother (k : String) (hk : k ≠ "id") : Dict.get (stampId leafId out) k = out.get k := by
    rw [stampId]
    split_ifs
    · rw [Dict.get_set, if_neg (Ne.symm hk)]
    · rfl
  rwa [Reports, hother _ (by decide), hother _ (by decide)] at h

/-- Trimming makes no finding up. -/
theorem Trims.reports {before after f : Dict} (h : Trims before after) (hf : Reports after f) :
    Reports before f := by
  have hget {k : String} (hsame : Assoc.get? after k = Assoc.get? before k) :
      Dict.get before k = Dict.get after k := by
    rw [Dict.get, Dict.get, hsame]
  refine ⟨?_, ?_⟩
  · rw [hget (h.others _ (by decide))]
    exact hf.1
  · obtain hsame | ⟨fs, gs, hfs, hgs, hsub⟩ := h.findings
    · rw [hget hsame]
      exact hf.2
    · have hmem := hf.2
      rw [hgs] at hmem
      rw [hfs]
      exact hsub.subset hmem

/-- A deduplicated entry is one that an iteration recorded. -/
theorem recorded_of_mem_dedupe {payloads : List Dict} {key : UnitKey} {e : IterEntry}
    (h : (key, e) ∈ (dedupeEntries payloads).entries) :
    ∃ payload ∈ payloads, .dict e.entry ∈ ensureList (payload.get "iter_outputs") := by
  have hlast := (OrdMap.mem_entries_iff _).1 h
  rw [dedupeEntries, OrdMap.get?_ofList] at hlast
  have hmem : (key, e) ∈ iterEntries payloads := List.mem_reverse.1 (Assoc.mem_of_get? hlast)
  obtain ⟨⟨payload, n⟩, hpayload, hmem⟩ := List.mem_flatMap.1 hmem
  obtain ⟨entry, hentry, hkey⟩ := List.mem_filterMap.1 hmem
  obtain ⟨key', -, heq⟩ := Option.map_eq_some_iff.1 hkey
  cases heq
  exact ⟨payload, List.fst_mem_of_mem_zipIdx hpayload, mem_dicts.1 hentry⟩

/-- A merged output is one that an iteration recorded, stamped and trimmed. -/
theorem merge_origin {env : Dict} {merged : Merged}
    (h : handleMergeSpecialistOutputs rt env = .ok merged) {out : Dict}
    (hout : out ∈ merged.specialistOutputs) :
    ∃ payload ∈ resolveIterationPayloads env, ∃ (entry recorded : Dict) (leafId : String),
      .dict entry ∈ ensureList (payload.get "iter_outputs") ∧
        entry.get "specialist_output" = .dict recorded ∧ Trims (stampId leafId recorded) out := by
  rw [handleMergeSpecialistOutputs] at h
  obtain ⟨planned, -, h⟩ := Result.bind_eq_ok.1 h
  simp only [Result.throw_eq_error, Result.error_bind] at h
  split_ifs at h
  obtain ⟨files, -, h⟩ := Result.bind_eq_ok.1 h
  obtain ⟨outputs, houtputs, h⟩ := Result.bind_eq_ok.1 h
  split_ifs at h
  obtain rfl := Except.ok.inj h
  -- the output before the size guard, and the entry that it was stamped from
  obtain ⟨kept, hkept, htrims⟩ := Result.exists_of_forall₂_right (trimToBudget_spec houtputs).1 hout
  obtain ⟨⟨key, iterN, stamped⟩, hk, rfl⟩ := List.mem_map.1 hkept
  obtain ⟨⟨key', e⟩, he, hstamped⟩ := List.mem_filterMap.1 hk
  obtain ⟨out', hout', heq⟩ := Option.map_eq_some_iff.1 hstamped
  cases heq
  obtain ⟨payload, hpayload, hentry⟩ := recorded_of_mem_dedupe he
  obtain ⟨recorded, hrecorded, rfl⟩ := Option.map_eq_some_iff.1 hout'
  refine ⟨payload, hpayload, e.entry, recorded, key'.1, hentry, ?_, htrims⟩
  cases hget : e.entry.get "specialist_output" with
  | dict d =>
    rw [hget] at hrecorded
    exact congrArg Value.dict (Option.some.inj hrecorded)
  | _ =>
    rw [hget] at hrecorded
    cases hrecorded

/-- **A finding of a merged output is one of an output that an iteration recorded.** -/
theorem merge_reports {env : Dict} {merged : Merged}
    (h : handleMergeSpecialistOutputs rt env = .ok merged) {out f : Dict}
    (hout : out ∈ merged.specialistOutputs) (hf : Reports out f) :
    ∃ payload ∈ resolveIterationPayloads env, ∃ entry recorded : Dict,
      .dict entry ∈ ensureList (payload.get "iter_outputs") ∧
        entry.get "specialist_output" = .dict recorded ∧ Reports recorded f := by
  obtain ⟨payload, hpayload, entry, recorded, leafId, hentry, hrecorded, htrims⟩ :=
    merge_origin h hout
  exact ⟨payload, hpayload, entry, recorded, hentry, hrecorded, reports_stampId (htrims.reports hf)⟩

/-! ### The collector -/

/-- The record has the fields of what was there or of the finding. -/
theorem foldRecord_origin {existing : Option Dict} {id : Value} {finding record : Dict}
    (h : foldRecord existing id finding = .ok record) :
    SameFields finding record ∨ ∃ r, existing = some r ∧ SameFields r record := by
  rw [foldRecord] at h
  obtain ⟨sources, -, h⟩ := Result.bind_eq_ok.1 h
  obtain ⟨⟨winner, origin⟩, hwinner, h⟩ := Result.bind_eq_ok.1 h
  obtain ⟨flagged, -, h⟩ := Result.bind_eq_ok.1 h
  obtain rfl := Except.ok.inj h
  have hclose {f : Dict} (hf : SameFields f winner) : SameFields f
      (Assoc.set (Assoc.set (Assoc.without winner ["__origin", "__winner"]) "flagged_by"
        (.list flagged)) "__winner" (origin.or id)) :=
    ((hf.without (by decide)).set (by decide) _).set (by decide) _
  have hstamped : SameFields finding (Assoc.set finding "__origin" id) :=
    (SameFields.refl finding).set (by decide) _
  cases existing with
  | none =>
    obtain ⟨rfl, -⟩ := Prod.mk.inj (Except.ok.inj hwinner)
    exact .inl (hclose hstamped)
  | some record =>
    obtain ⟨first, -, hwinner⟩ := Result.bind_eq_ok.1 hwinner
    cases first with
    | true =>
      obtain ⟨rfl, -⟩ := Prod.mk.inj (Except.ok.inj hwinner)
      exact .inr ⟨record, rfl, hclose (.refl record)⟩
    | false =>
      obtain ⟨rfl, -⟩ := Prod.mk.inj (Except.ok.inj hwinner)
      exact .inl (hclose hstamped)

/-- Every record has the fields of a report. -/
theorem groupFindings_origin {outputs : List Value} {merged : List (String × Dict)}
    (h : groupFindings rt outputs = .ok merged) {key : String} {record : Dict}
    (hrecord : Assoc.get? merged key = some record) :
    ∃ r ∈ reports outputs, SameFields r.2 record := by
  suffices hall : ∀ key record, Assoc.get? merged key = some record →
      ∃ r ∈ reports outputs, SameFields r.2 record from hall key record hrecord
  refine Result.foldlM_induct (fun done (merged : List (String × Dict)) => ∀ key record,
    Assoc.get? merged key = some record → ∃ r ∈ done, SameFields r.2 record) h
    (fun key record hget => nomatch hget) ?_
  intro done merged report merged' ih hstep key record hget
  obtain ⟨folded, hfolded, hset⟩ := Result.bind_eq_ok.1 hstep
  obtain rfl := Except.ok.inj hset
  have hold {key : String} {record : Dict} (hget : Assoc.get? merged key = some record) :
      ∃ r ∈ done ++ [report], SameFields r.2 record := by
    obtain ⟨r, hr, hsame⟩ := ih key record hget
    exact ⟨r, List.mem_append_left _ hr, hsame⟩
  rw [Assoc.get?_set] at hget
  split_ifs at hget
  · obtain rfl := Option.some.inj hget
    rcases foldRecord_origin hfolded with hsame | ⟨existing, hexisting, hsame⟩
    · exact ⟨report, List.mem_append_right _ (List.mem_singleton_self _), hsame⟩
    · obtain ⟨r, hr, hfirst⟩ := hold hexisting
      exact ⟨r, hr, hfirst.trans hsame⟩
  · exact hold hget

/-- A merged entry has the fields of one of its findings. -/
theorem mergeEntries_origin {fs : List Dict} {g : Dict} (hne : fs ≠ [])
    (h : mergeEntries rt fs = .ok g) : ∃ f ∈ fs, SameFields f g := by
  match fs, hne with
  | [f], _ =>
    obtain rfl := Except.ok.inj h
    exact ⟨f, List.mem_cons_self, .refl f⟩
  | f :: f' :: fs, _ =>
    rw [mergeEntries] at h
    obtain ⟨keyed, hkeyed, h⟩ := Result.bind_eq_ok.1 h
    obtain ⟨flags, hflags, h⟩ := Result.bind_eq_ok.1 h
    obtain ⟨confs, hconfs, h⟩ := Result.bind_eq_ok.1 h
    obtain ⟨hmap, -⟩ := Result.withKeys_eq_ok hkeyed
    cases keyed with
    | nil => cases hmap
    | cons k ks =>
      have hrep : (maxBy (fun a b => keyGt a.1 b.1) k ks).2 ∈ f :: f' :: fs := by
        rw [← hmap]
        exact List.mem_map_of_mem (maxBy_mem ..)
      obtain rfl := Except.ok.inj h
      exact ⟨_, hrep, sameFields_mergedEntry _ _ _ _⟩

theorem semanticMerge_origin {fs gs : List Dict} (h : semanticMerge rt embed fs = .ok gs) :
    ∀ g ∈ gs, ∃ f ∈ fs, SameFields f g := by
  intro g hg
  obtain ⟨members, hmembers, hmerge⟩ := Result.exists_of_mapM_right h hg
  have hne : members.map (fun m => fs.getD m []) ≠ [] := by
    simpa using ne_nil_of_mem_mergeGroups hmembers
  obtain ⟨f, hf, hsame⟩ := mergeEntries_origin hne hmerge
  exact ⟨f, member_of_mem_mergeGroups hmembers f hf, hsame⟩

theorem tagFinding_origin {threshold : Double} {f g : Dict}
    (h : tagFinding rt threshold f = .ok g) : SameFields f g := by
  obtain ⟨corroboration, -, h⟩ := Result.bind_eq_ok.1 h
  obtain ⟨primary, -, h⟩ := Result.bind_eq_ok.1 h
  obtain rfl := Except.ok.inj h
  exact ((SameFields.refl f).set (by decide) _).set (by decide) _

/-- **A collected entry keeps the fields of a finding that a specialist reported.** -/
theorem collected_origin {env : Dict} {c : Collected} (h : collectFindings rt embed env = .ok c) :
    ∀ g ∈ c.findings, ∃ out f : Dict, .dict out ∈ ensureList (env.get "specialist_outputs") ∧
      Reports out f ∧ SameFields f g := by
  obtain ⟨entries, hentries, h⟩ := Result.bind_eq_ok.1 h
  obtain ⟨threshold, -, h⟩ := Result.bind_eq_ok.1 h
  obtain ⟨findings, htagged, h⟩ := Result.bind_eq_ok.1 h
  obtain ⟨counts, -, h⟩ := Result.bind_eq_ok.1 h
  obtain rfl := Except.ok.inj h
  obtain ⟨merged, hmerged, hentries⟩ := Result.bind_eq_ok.1 hentries
  obtain ⟨sorted, hsorted, hentries⟩ := Result.bind_eq_ok.1 hentries
  obtain ⟨grouped, hgrouped, hentries⟩ := Result.bind_eq_ok.1 hentries
  intro g hg
  -- back through the tags, the last sort, the semantic merge, the first sort and the grouping
  obtain ⟨e, he, htag⟩ := Result.exists_of_mapM_right htagged hg
  obtain ⟨f, hf, hmerge⟩ :=
    semanticMerge_origin hgrouped e ((perm_of_sortFindings hentries).mem_iff.1 he)
  obtain ⟨⟨key, record⟩, hkr, rfl⟩ := List.mem_map.1 ((perm_of_sortFindings hsorted).mem_iff.1 hf)
  obtain ⟨r, hr, hrecord⟩ :=
    groupFindings_origin hmerged (Assoc.get?_of_mem (nodup_keys_groupFindings hmerged) hkr)
  obtain ⟨out, hout, hreports⟩ := exists_reports hr
  exact ⟨out, r.2, hout, hreports,
    ((hrecord.trans (sameFields_finishRecord record)).trans hmerge).trans (tagFinding_origin htag)⟩

end CodeReview
