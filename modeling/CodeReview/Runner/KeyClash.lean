import CodeReview.Runner.Loop

/-!
# Key clashes

The pool's map and the merge both keep one result for each `(leaf_id, sub_index)`.  The planner
numbers the units of each pick on its own, so a leaf that is picked twice plans its keys twice, and
a path that is listed twice can end up in two slices of a leaf.

* `nodup_keys_planUnits` : the keys are distinct exactly when the picks are;
* `pairwise_disjoint_leafUnits` : the slices of a pick share a file only where its files repeat it;
* `noClash_iff` : **no result is lost and no file is planned twice for a leaf exactly when the picks
  are distinct and every repeated path stays within one slice.**
-/

namespace CodeReview

open Py

/-! ### The units of one leaf -/

/-- Where a file is listed more than once, it is in one slice. -/
def RepeatsTogether (size : ℕ) (files : List String) : Prop :=
  ∀ (i j : ℕ) file, files[i]? = some file → files[j]? = some file → i / size = j / size

theorem repeatsTogether_of_nodup {files : List String} (h : files.Nodup) (size : ℕ) :
    RepeatsTogether size files := by
  intro i j file hi hj
  obtain ⟨hlt, hi⟩ := List.getElem?_eq_some_iff.1 hi
  obtain ⟨hlt', hj⟩ := List.getElem?_eq_some_iff.1 hj
  rw [(List.Nodup.getElem_inj_iff h).1 (hi.trans hj.symm)]

section

variable {maxTokens : ℕ} (leafId : String) (files : List String)

/-- The first unit of a leaf has the number 1. -/
theorem exists_first_leafUnits (hmax : 0 < maxTokens) : ∃ u ∈ leafUnits maxTokens leafId files,
    u.key = (leafId, 1) := by
  unfold leafUnits
  split_ifs with hempty hlarge
  · exact ⟨_, List.mem_singleton_self _, rfl⟩
  · have hlen : 0 < files.length := List.length_pos_iff.2 hempty
    have hcount : 0 < mathCeil (files.length * tokensPerFile) maxTokens :=
      mathCeil_pos (by rw [tokensPerFile]; omega) hmax
    obtain ⟨slice, hslice⟩ : ∃ slice, (chunks (mathCeil files.length
        (mathCeil (files.length * tokensPerFile) maxTokens)) files
        (mathCeil (files.length * tokensPerFile) maxTokens) 0)[0]? = some slice :=
      ⟨_, by rw [getElem?_chunks, if_pos ⟨hcount, by omega⟩]⟩
    refine ⟨_, List.mem_map.2 ⟨(slice, 0), ?_, rfl⟩, rfl⟩
    exact List.mem_zipIdx_iff_getElem?.2 hslice
  · exact ⟨_, List.mem_singleton_self _, rfl⟩

/-- The units of a leaf are numbered apart. -/
theorem nodup_keys_leafUnits : ((leafUnits maxTokens leafId files).map PlanUnit.key).Nodup := by
  unfold leafUnits
  split_ifs
  · exact List.nodup_singleton _
  · rw [List.map_map]
    have hindices (slices : List (List String)) :
        (slices.zipIdx.map fun s => ((leafId, ((s.2 + 1 : ℕ) : ℤ)) : UnitKey)).Nodup := by
      have hsnd : (slices.zipIdx.map Prod.snd).Nodup := by
        rw [List.zipIdx_map_snd]
        exact List.nodup_range'
      have hinj : Function.Injective fun k : ℕ => ((leafId, ((k + 1 : ℕ) : ℤ)) : UnitKey) := by
        intro k l hkl
        have hint := (Prod.mk.inj hkl).2
        omega
      have hmap := hsnd.map hinj
      rwa [List.map_map] at hmap
    exact hindices _
  · exact List.nodup_singleton _

/-- **The slices of a pick share a file only where its files repeat it.** -/
theorem pairwise_disjoint_leafUnits (hmax : 0 < maxTokens) :
    (leafUnits maxTokens leafId files).Pairwise (fun u v => u.files.Disjoint v.files) ↔
      (IsSplit maxTokens files.length →
        RepeatsTogether (sliceSize maxTokens files.length) files) := by
  unfold leafUnits IsSplit
  split_ifs with hempty hlarge
  · rw [hempty]
    simp
  · have hlen : 0 < files.length := List.length_pos_iff.2 hempty
    have hcount : 0 < mathCeil (files.length * tokensPerFile) maxTokens :=
      mathCeil_pos (by rw [tokensPerFile]; omega) hmax
    have hslices (slices : List (List String)) (f : List String × ℕ → PlanUnit)
        (hf : ∀ s, (f s).files = s.1) : (slices.zipIdx.map f).Pairwise
          (fun u v => u.files.Disjoint v.files) ↔ slices.Pairwise List.Disjoint := by
      have hfst : slices.zipIdx.map Prod.fst = slices := List.zipIdx_map_fst 0 slices
      conv_rhs => rw [← hfst]
      rw [List.pairwise_map, List.pairwise_map]
      simp only [hf]
    rw [hslices _ _ fun s => rfl, pairwise_disjoint_chunks (mathCeil_pos hlen hcount)
      (by rw [Nat.mul_comm]; exact le_mathCeil_mul hcount)]
    exact ⟨fun h _ => h, fun h => h hlarge⟩
  · simp [hlarge]

end

/-! ### The units of all picks -/

/-- **The keys of a plan are distinct exactly when the picks are.** -/
theorem nodup_keys_planUnits {env : Dict} :
    ((planUnits env).map PlanUnit.key).Nodup ↔ (pickIds env).Nodup := by
  rw [planUnits_eq, List.map_flatMap, pickIds]
  constructor
  · -- every pick plans the key with the number 1
    intro hnodup
    have hdisjoint := (List.nodup_flatMap.1 hnodup).2
    refine List.pairwise_map.2 (hdisjoint.imp fun {pick pick'} hkeys heq => ?_)
    obtain ⟨u, hu, hukey⟩ := exists_first_leafUnits pick.1
      (leafFileSet pick.2 (changedFiles env)) (maxLeafTokens_pos env)
    obtain ⟨v, hv, hvkey⟩ := exists_first_leafUnits pick'.1
      (leafFileSet pick'.2 (changedFiles env)) (maxLeafTokens_pos env)
    refine hkeys (List.mem_map_of_mem hu) ?_
    rw [hukey, heq, ← hvkey]
    exact List.mem_map_of_mem hv
  · intro hnodup
    refine List.nodup_flatMap.2 ⟨fun pick _ => nodup_keys_leafUnits _ _, ?_⟩
    refine (List.pairwise_map.1 hnodup).imp fun {pick pick'} hne key hkey hkey' => hne ?_
    obtain ⟨u, hu, rfl⟩ := List.mem_map.1 hkey
    obtain ⟨v, hv, hkeys⟩ := List.mem_map.1 hkey'
    calc pick.1 = u.leafId := (leafId_of_mem_pickUnits hu).symm
      _ = v.leafId := (congrArg Prod.fst hkeys).symm
      _ = pick'.1 := leafId_of_mem_pickUnits hv

/-- A pick that gets the full diff is split, and a repeated path stays within one slice. -/
def RepeatsFit (env : Dict) : Prop :=
  (∃ pick ∈ plannedLeaves env, ¬ HasGlobs pick.2) →
    IsSplit (maxLeafTokens env) (changedFiles env).length →
      RepeatsTogether (sliceSize (maxLeafTokens env) (changedFiles env).length) (changedFiles env)

/-- The slices of one leaf have no file in common, where no leaf is picked twice. -/
theorem disjoint_slices_iff {env : Dict} (hnodup : (pickIds env).Nodup) :
    (planUnits env).Pairwise (fun u v => u.leafId = v.leafId → u.files.Disjoint v.files) ↔
      RepeatsFit env := by
  have hpick (pick : String × Dict) : (pickUnits env pick).Pairwise
      (fun u v => u.leafId = v.leafId → u.files.Disjoint v.files) ↔
        (¬ HasGlobs pick.2 → IsSplit (maxLeafTokens env) (changedFiles env).length →
          RepeatsTogether (sliceSize (maxLeafTokens env) (changedFiles env).length)
            (changedFiles env)) := by
    have hsame : (pickUnits env pick).Pairwise
        (fun u v => u.leafId = v.leafId → u.files.Disjoint v.files) ↔
          (pickUnits env pick).Pairwise (fun u v => u.files.Disjoint v.files) := by
      refine List.Pairwise.iff_of_mem fun {u v} hu hv => ?_
      have hids : u.leafId = v.leafId :=
        (leafId_of_mem_pickUnits hu).trans (leafId_of_mem_pickUnits hv).symm
      exact ⟨fun h => h hids, fun h _ => h⟩
    rw [hsame, pickUnits, pairwise_disjoint_leafUnits _ _ (maxLeafTokens_pos env)]
    by_cases hglobs : HasGlobs pick.2
    · have hfiles := nodup_leafFileSet hglobs (changedFiles env)
      exact ⟨fun _ h => absurd hglobs h, fun _ _ => repeatsTogether_of_nodup hfiles _⟩
    · rw [leafFileSet_of_not_hasGlobs hglobs]
      exact ⟨fun h _ => h, fun h => h hglobs⟩
  rw [planUnits_eq, List.pairwise_flatMap]
  constructor
  · rintro ⟨hslices, -⟩ ⟨pick, hmem, hglobs⟩
    exact (hpick pick).1 (hslices pick hmem) hglobs
  · intro hfit
    refine ⟨fun pick hmem => (hpick pick).2 fun hglobs => hfit ⟨pick, hmem, hglobs⟩, ?_⟩
    -- units of two picks are of two leaves
    refine (List.pairwise_map.1 hnodup).imp fun {pick pick'} hne u hu v hv hids => absurd ?_ hne
    rw [← leafId_of_mem_pickUnits hu, hids, leafId_of_mem_pickUnits hv]

/-! ### What the dictionaries keep -/

/-- With distinct keys, the pool's map keeps the result of every unit. -/
theorem get?_collectResults {units : List PlanUnit} (hkeys : (units.map PlanUnit.key).Nodup)
    {results : Fin units.length → Result Dict} {m : ResultMap}
    (h : collectResults units results = .ok m) (i : Fin units.length) :
    ∃ out, results i = .ok out ∧ m.get? (units.get i).key = some out := by
  obtain ⟨hmem, hvalues⟩ := collectResults_spec h
  have hkey := hmem _ (List.get_mem units i)
  rw [OrdMap.mem_keys_iff] at hkey
  obtain ⟨out, hout⟩ := Option.isSome_iff_exists.1 hkey
  obtain ⟨j, hj, hresult⟩ := hvalues _ _ hout
  have hij : j = i := by
    have hinj := List.nodup_iff_injective_get.1 (List.Nodup.of_map _ hkeys)
    refine hinj ?_
    exact List.inj_on_of_nodup_map hkeys (List.get_mem units j) (List.get_mem units i) hj
  exact ⟨out, hij ▸ hresult, hout⟩

/-- The iterations that record the results `m` of a plan. -/
def recordedIterations (env : Dict) (m : ResultMap) : List Dict :=
  (iterations (planBatches env)).map (loopOutputs (envPlanned env) (planBatches env) m)

/-- The merge keeps, for a planned key, the result that the pool's map has. -/
theorem get?_dedupeEntries {env : Dict} {m : ResultMap} {u : PlanUnit} (hu : u ∈ planUnits env)
    {out : Dict} (hout : m.get? u.key = some out) :
    ∃ e, (dedupeEntries (recordedIterations env m)).get? u.key = some e ∧
      e.entry.get "specialist_output" = .dict out := by
  have hkey : u.key ∈ (dedupeEntries (recordedIterations env m)).keys := by
    rw [dedupeEntries, OrdMap.mem_keys_ofList, recordedIterations, mem_keys_drive,
      flatten_planBatches]
    exact ⟨u, hu, rfl⟩
  rw [OrdMap.mem_keys_iff] at hkey
  obtain ⟨e, he⟩ := Option.isSome_iff_exists.1 hkey
  have hlast : OrdMap.lastOf (iterEntries (recordedIterations env m)) u.key = some e := by
    rw [← OrdMap.get?_ofList]
    exact he
  obtain ⟨j, batch, -, v, -, heq⟩ := mem_iterEntries_drive.1 (mem_iterEntries_of_lastOf
    (e := (u.key, e)) hlast)
  obtain ⟨hkeys, rfl⟩ := Prod.mk.inj heq
  refine ⟨_, he, ?_⟩
  show Value.dict ((m.get? v.key).getD (failedOutput v "no result")) = .dict out
  rw [← hkeys, hout, Option.getD_some]

/-- No two units of the plan have one key, no two slices of a leaf a file in common, and both
dictionaries keep the result of every unit. -/
structure NoClash (env : Dict) : Prop where
  keys : ((planUnits env).map PlanUnit.key).Nodup
  slices : (planUnits env).Pairwise fun u v => u.leafId = v.leafId → u.files.Disjoint v.files
  kept : ∀ (results : Fin (planUnits env).length → Result Dict) (m : ResultMap),
    collectResults (planUnits env) results = .ok m → ∀ i, ∃ out, results i = .ok out ∧
      m.get? ((planUnits env).get i).key = some out ∧
      ∃ e, (dedupeEntries (recordedIterations env m)).get? ((planUnits env).get i).key = some e ∧
        e.entry.get "specialist_output" = .dict out

/-- **No result is lost to a clash exactly when the picks are distinct and, where a pick gets the
full diff in slices, every repeated path stays within one of them.** -/
theorem noClash_iff (env : Dict) : NoClash env ↔ (pickIds env).Nodup ∧ RepeatsFit env := by
  constructor
  · intro h
    have hnodup := nodup_keys_planUnits.1 h.keys
    exact ⟨hnodup, (disjoint_slices_iff hnodup).1 h.slices⟩
  · rintro ⟨hnodup, hfit⟩
    refine ⟨nodup_keys_planUnits.2 hnodup, (disjoint_slices_iff hnodup).2 hfit, ?_⟩
    intro results m hm i
    obtain ⟨out, hresult, hout⟩ := get?_collectResults (nodup_keys_planUnits.2 hnodup) hm i
    exact ⟨out, hresult, hout, get?_dedupeEntries (List.get_mem _ i) hout⟩

/-- A pick of a leaf that is activated without globs. -/
def pickOf (leafId : String) : Value :=
  .dict [("id", .str leafId), ("path", "quality.md"), ("justification", "code changed"),
    ("dimensions", .list [])]

/-- One leaf is picked twice. -/
def pickedTwice : Dict :=
  [("picked_leaves", .list [pickOf "quality", pickOf "quality"]), ("changed_paths", .list ["a.py"])]

/-- One path is listed twice, for a leaf that is split. -/
def listedTwice : Dict :=
  [("picked_leaves", .list [pickOf "quality"]), ("changed_paths", .list ["a.py", "a.py"]),
    ("args", .dict [("max_leaf_tokens", .int 500)])]

/-- The second unit of a leaf that is picked twice has the key of the first, and a path that is
listed twice is in two slices. -/
theorem pickedTwice_clashes : ¬ NoClash pickedTwice ∧ ¬ NoClash listedTwice := by
  constructor
  · intro h
    have hkeys : (planUnits pickedTwice).map PlanUnit.key = [("quality", 1), ("quality", 1)] := rfl
    have hnodup := h.keys
    rw [hkeys] at hnodup
    exact absurd hnodup (by decide)
  · intro h
    have hunits : planUnits listedTwice =
        [⟨"quality", 1, 2, ["a.py"]⟩, ⟨"quality", 2, 2, ["a.py"]⟩] := rfl
    have hslices := h.slices
    rw [hunits] at hslices
    have hdisjoint := (List.pairwise_cons.1 hslices).1 _ (List.mem_singleton_self _) rfl
    exact hdisjoint (List.mem_singleton_self "a.py") (List.mem_singleton_self "a.py")

end CodeReview
