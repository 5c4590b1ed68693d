import CodeReview.Handlers.OrderFree

/-!
# What deduplication conserves

A finding is folded into the record of its key and the record into a merged group, and of each one
representative is kept.  No reporter is lost on the way and no severity is lowered.

* `leadOf` is the report that a key's record is made of, and `groupReports_leads` says that the
  grouping returns when every key has one;
* `mergeGroups_sameFile` : only entries of one file are merged;
* `conserves_iff` : **the collector returns entries that conserve every finding, reporter and
  severity exactly when the leads can be decided and their confidence has a `float`.**
-/

namespace CodeReview

open Py

variable {rt : Runtime} {embed : Embed}

/-! ### Findings with typed fields -/

/-- A finding whose fields have the types of the specialists' schema. -/
structure TypedFinding (f : Dict) : Prop where
  file : ∃ s, f.get "file" = .str s
  title : ∃ s, f.get "title" = .str s
  severity : ∃ s, f.get "severity" = .str s
  line : f.get "line" = .none ∨ ∃ n, f.get "line" = .int n
  confidence : f.get "confidence" = .none ∨ (∃ n, f.get "confidence" = .int n) ∨
    ∃ x, f.get "confidence" = .float x

/-- Outputs with string ids and typed findings. -/
structure TypedOutputs (outputs : List Value) : Prop where
  ids : ∀ out : Dict, .dict out ∈ outputs → ∃ s, out.get "id" = .str s
  findings : ∀ r ∈ reports outputs, TypedFinding r.2

theorem TypedFinding.hashable {f : Dict} (h : TypedFinding f) :
    (f.get "severity").hashable = true := by
  obtain ⟨s, hs⟩ := h.severity
  rw [hs]
  rfl

theorem TypedOutputs.exists_id {outputs : List Value} (h : TypedOutputs outputs)
    {r : Value × Dict} (hr : r ∈ reports outputs) : ∃ s, r.1 = .str s := by
  obtain ⟨v, hv, hrv⟩ := mem_reports.1 hr
  obtain ⟨d, hd, -⟩ := List.mem_flatMap.1 hrv
  obtain rfl : Value.dict d = v := by simpa using hd
  obtain ⟨s, hs⟩ := h.ids d hv
  have hid : idOf (.dict d) = .str s := hs
  exact ⟨s, fst_of_mem_reports hid hrv⟩

/-- `flagged_by` lists names in order, each once. -/
def Listed (f : Dict) : Prop :=
  ∃ ids : List String, f.get "flagged_by" = ofStrs ids ∧ ids.Pairwise (· < ·)

/-! ### The report that leads its key -/

/-- The finding that a record is made of, and the name that decides a tie. -/
structure Lead where
  origin : String
  finding : Dict

/-- The lead stays against the finding `f` by `s`; a tie compares names, and a finding may carry
one along. -/
def Lead.keeps (lead : Lead) (s : String) (f : Dict) : Result Bool :=
  if rankValue lead.finding ≠ rankValue f then
    .ok (decide (rankValue f < rankValue lead.finding))
  else Value.le? (.str lead.origin) (((f.get "__winner").or (.str s)).or (.str ""))

/-- The lead after one report more; an empty name is replaced by the next one. -/
def Lead.next (lead : Lead) (s : String) (f : Dict) : Result Lead := do
  if ← lead.keeps s f then return ⟨if lead.origin = "" then s else lead.origin, lead.finding⟩
  else return ⟨s, f⟩

/-- The first report leads. -/
def leadStep (lead : Option Lead) (r : String × Dict) : Result (Option Lead) :=
  match lead with
  | none => .ok (some ⟨r.1, r.2⟩)
  | some lead => do return some (← lead.next r.1 r.2)

/-- The lead after all reports of a key. -/
def leadOf (rs : List (String × Dict)) : Result (Option Lead) := rs.foldlM leadStep none

/-- The reports of a key. -/
def reportsOf (rt : Runtime) (rs : List (Value × Dict)) (key : String) : List (String × Dict) :=
  rs.filterMap fun r => if dedupKey rt r.2 = key then r.1.asStr?.map (·, r.2) else none

/-- Every key has a lead, whose confidence has a `float`. -/
def LeadsReadable (rt : Runtime) (rs : List (Value × Dict)) : Prop :=
  ∀ key, ∃ lead, leadOf (reportsOf rt rs key) = .ok lead ∧
    ∀ l ∈ lead, Result.Ok (confidence rt l.finding)

theorem mem_reportsOf {rs : List (Value × Dict)} {key s : String} {f : Dict} :
    (s, f) ∈ reportsOf rt rs key ↔ (.str s, f) ∈ rs ∧ dedupKey rt f = key := by
  rw [reportsOf, List.mem_filterMap]
  constructor
  · rintro ⟨⟨v, g⟩, hmem, h⟩
    split_ifs at h with hkey
    cases v with
    | str t =>
      simp only [Value.asStr?, Option.map_some, Option.some.injEq, Prod.mk.injEq] at h
      obtain ⟨rfl, rfl⟩ := h
      exact ⟨hmem, hkey⟩
    | _ => simp [Value.asStr?] at h
  · rintro ⟨hmem, hkey⟩
    exact ⟨(.str s, f), hmem, by rw [if_pos hkey]; rfl⟩

theorem reportsOf_append (rs : List (Value × Dict)) (s : String) (f : Dict) (key : String) :
    reportsOf rt (rs ++ [(.str s, f)]) key =
      if dedupKey rt f = key then reportsOf rt rs key ++ [(s, f)] else reportsOf rt rs key := by
  have happend : reportsOf rt (rs ++ [(.str s, f)]) key =
      reportsOf rt rs key ++ reportsOf rt [(.str s, f)] key := List.filterMap_append ..
  have hone : reportsOf rt [(.str s, f)] key = if dedupKey rt f = key then [(s, f)] else [] := by
    rw [reportsOf, List.filterMap_cons, List.filterMap_nil]
    simp only [Value.asStr?, Option.map_some]
    split_ifs <;> rfl
  rw [happend, hone]
  split_ifs
  · rfl
  · rw [List.append_nil]

theorem leadOf_append (rs : List (String × Dict)) (r : String × Dict) :
    leadOf (rs ++ [r]) = leadOf rs >>= fun lead => leadStep lead r := by
  rw [leadOf, List.foldlM_append]
  refine congrArg _ (funext ?_)
  intro lead
  rw [List.foldlM_cons]
  cases leadStep lead r <;> rfl

/-- A lead is one of the reports. -/
theorem mem_of_leadOf {rs : List (String × Dict)} {lead : Option Lead}
    (h : leadOf rs = .ok lead) : ∀ l ∈ lead, ∃ s, (s, l.finding) ∈ rs := by
  refine Result.foldlM_induct (fun done lead => ∀ l ∈ lead, ∃ s, (s, l.finding) ∈ done) h
    (by simp) ?_
  intro done lead r lead' ih hstep l hl
  cases lead with
  | none =>
    obtain rfl := Except.ok.inj hstep
    obtain rfl := Option.some.inj hl
    exact ⟨r.1, List.mem_append_right _ (List.mem_singleton_self _)⟩
  | some old =>
    obtain ⟨new, hnew, hstep⟩ := Result.bind_eq_ok.1 hstep
    obtain rfl := Except.ok.inj hstep
    obtain rfl := Option.some.inj hl
    obtain ⟨b, -, hb⟩ := Result.bind_eq_ok.1 hnew
    cases b with
    | true =>
      rw [← Except.ok.inj hb]
      obtain ⟨s, hs⟩ := ih old rfl
      exact ⟨s, List.mem_append_left _ hs⟩
    | false =>
      rw [← Except.ok.inj hb]
      exact ⟨r.1, List.mem_append_right _ (List.mem_singleton_self _)⟩

/-! ### Records are made of leads -/

/-- The record is made of the lead. -/
structure LeadsRecord (l : Lead) (record : Dict) : Prop where
  same : ∀ k ∉ ["flagged_by", "__winner", "__origin"], record.get k = l.finding.get k
  winner : record.get "__winner" = .str l.origin
  origin : record.get "__origin" = .none
  listed : Listed record

theorem leadsRecord_closeRecord {winner f : Dict}
    (h : ∀ k ∉ ["flagged_by", "__winner", "__origin"], winner.get k = f.get k) (ids : List String)
    (origin : String) :
    LeadsRecord ⟨origin, f⟩ (closeRecord winner (sortedSet ids) (.str origin)) where
  same k hk := (get_closeRecord hk).trans (h k hk)
  winner := winner_closeRecord ..
  origin := origin_closeRecord ..
  listed := ⟨sortedSet ids, flagged_closeRecord .., pairwise_sortedSet ids⟩

theorem str_or_self (s : String) : (Value.str s).or (.str s) = .str s := by
  unfold Value.or
  split_ifs <;> rfl

/-- An empty name counts as none. -/
theorem str_or_none_or (s t : String) :
    ((Value.str s).or .none).or (.str t) = .str (if s = "" then t else s) := by
  by_cases hs : s = ""
  · rw [hs]
    rfl
  · rw [or_str_of_ne hs, or_str_of_ne hs, if_neg hs]

/-- `_pick_winner` decides between a record and a report as its lead does. -/
theorem firstWins_lead {l : Lead} {record f : Dict} (h : LeadsRecord l record)
    (hl : (l.finding.get "severity").hashable = true) (hf : (f.get "severity").hashable = true)
    (s : String) : firstWins record (Assoc.set f "__origin" (.str s)) = l.keeps s f := by
  have hseverity : record.get "severity" = l.finding.get "severity" := h.same _ (by decide)
  have hstamped (k : String) (hk : k ≠ "__origin") :
      Dict.get (Assoc.set f "__origin" (.str s)) k = f.get k := by
    rw [Dict.get_set, if_neg (Ne.symm hk)]
  have hrank := rankOf_eq (f := record) (by rw [hseverity]; exact hl)
  have hrank' := rankOf_eq (f := Assoc.set f "__origin" (.str s))
    (by rw [hstamped _ (by decide)]; exact hf)
  rw [rankValue_congr hseverity] at hrank
  rw [rankValue_congr (hstamped _ (by decide))] at hrank'
  have horigin : ((record.get "__winner").or (record.get "__origin")).or (.str "") =
      .str l.origin := by
    rw [h.winner, h.origin, str_or_none_or]
    split_ifs with hempty
    · rw [hempty]
    · rfl
  rw [firstWins, hrank, Result.ok_bind, hrank', Result.ok_bind, Lead.keeps]
  simp only [horigin, hstamped _ (show "__winner" ≠ "__origin" by decide), Dict.get_set, if_true]
  rfl

/-- **One report more changes the record as it changes the lead.** -/
theorem foldRecord_lead {lead : Option Lead} {existing : Option Dict}
    (h : Option.Rel LeadsRecord lead existing)
    (hlead : ∀ l ∈ lead, (l.finding.get "severity").hashable = true) {s : String} {f : Dict}
    (hf : (f.get "severity").hashable = true) :
    Result.Rel (fun lead record => Option.Rel LeadsRecord lead (some record))
      (leadStep lead (s, f)) (foldRecord existing (.str s) f) := by
  have hstamped (k : String) (hk : k ∉ ["flagged_by", "__winner", "__origin"]) :
      Dict.get (Assoc.set f "__origin" (.str s)) k = f.get k := by
    simp only [List.mem_cons, List.not_mem_nil, or_false, not_or] at hk
    rw [Dict.get_set, if_neg (Ne.symm hk.2.2)]
  cases h with
  | none =>
    -- the first report of its key
    have hsorted : sorted? Value.lt? [Value.str s] = .ok ([s].map .str) := sorted?_strs [s]
    have hfold : foldRecord none (.str s) f =
        .ok (closeRecord (Assoc.set f "__origin" (.str s)) (sortedSet [s]) (.str s)) := by
      rw [foldRecord, sourceIds_none, Result.ok_bind, pickWinner, Result.ok_bind]
      simp only [hsorted, Result.ok_bind, str_or_self]
      rfl
    rw [hfold]
    exact .ok (.some (leadsRecord_closeRecord hstamped [s] s))
  | @some l record h =>
    obtain ⟨ids, hids, -⟩ := h.listed
    rw [foldRecord, sourceIds_some hids, Result.ok_bind, pickWinner,
      firstWins_lead h (hlead l rfl) hf, leadStep, Lead.next]
    simp only [sorted?_strs, sorted_addStr]
    cases hkeeps : l.keeps s f with
    | error e => exact .error e
    | ok b =>
      cases b with
      | false =>
        simp only [Result.ok_bind, Bool.false_eq_true, if_false, Result.pure_eq_ok, str_or_self]
        exact .ok (.some (leadsRecord_closeRecord hstamped _ s))
      | true =>
        simp only [Result.ok_bind, if_true, Result.pure_eq_ok, h.winner, h.origin, str_or_none_or]
        exact .ok (.some (leadsRecord_closeRecord h.same _ _))

/-- The records are made of the leads of their keys. -/
def LeadsAgree (rt : Runtime) (rs : List (Value × Dict)) (merged : List (String × Dict)) : Prop :=
  ∀ key, ∃ lead, leadOf (reportsOf rt rs key) = .ok lead ∧
    Option.Rel LeadsRecord lead (Assoc.get? merged key)

/-- **The grouping returns when every key has a lead**, and then its records are made of them. -/
theorem groupReports_leads {rs : List (Value × Dict)}
    (h : ∀ r ∈ rs, (∃ s, r.1 = .str s) ∧ (r.2.get "severity").hashable = true) :
    (∃ merged, rs.foldlM (absorb rt) [] = .ok merged ∧ LeadsAgree rt rs merged) ∨
      ¬ Result.Ok (rs.foldlM (absorb rt) []) ∧ ∃ key,
        ¬ Result.Ok (leadOf (reportsOf rt rs key)) := by
  induction rs using List.reverseRecOn with
  | nil => exact .inl ⟨[], rfl, fun key => ⟨none, rfl, .none⟩⟩
  | append_singleton rs r ih =>
    obtain ⟨⟨s, hs⟩, hsev⟩ := h r (by simp)
    obtain ⟨v, f⟩ := r
    obtain rfl : v = Value.str s := hs
    have hfold : (rs ++ [(Value.str s, f)]).foldlM (absorb rt) [] =
        rs.foldlM (absorb rt) [] >>= fun merged => absorb rt merged (.str s, f) := by
      rw [List.foldlM_append]
      refine congrArg _ (funext ?_)
      intro merged
      rw [List.foldlM_cons]
      cases absorb rt merged (.str s, f) <;> rfl
    rw [hfold]
    -- either the reports before return, and the last one is folded in, or they already raise
    rcases ih fun r hr => h r (List.mem_append_left _ hr) with ⟨merged, hmerged, hagree⟩ |
        ⟨herror, key, hkey⟩
    · obtain ⟨lead, hlead, hrel⟩ := hagree (dedupKey rt f)
      have hhash : ∀ l ∈ lead, (l.finding.get "severity").hashable = true := by
        intro l hl
        obtain ⟨t, ht⟩ := mem_of_leadOf hlead l hl
        exact (h (.str t, l.finding) (List.mem_append_left _ (mem_reportsOf.1 ht).1)).2
      have hstep := foldRecord_lead hrel hhash (s := s) hsev
      rw [hmerged, Result.ok_bind]
      have habsorb : absorb rt merged (.str s, f) = (do
          let record ← foldRecord (Assoc.get? merged (dedupKey rt f)) (.str s) f
          return Assoc.set merged (dedupKey rt f) record) := rfl
      have hlast : leadOf (reportsOf rt (rs ++ [(.str s, f)]) (dedupKey rt f)) =
          leadStep lead (s, f) := by
        rw [reportsOf_append, if_pos rfl, leadOf_append, hlead, Result.ok_bind]
      -- the lead and the record take the same step, and raise together
      generalize hls : leadStep lead (s, f) = next at hstep hlast
      generalize hfr : foldRecord (Assoc.get? merged (dedupKey rt f)) (.str s) f = record
        at hstep habsorb
      cases hstep with
      | @ok lead' record hlead' =>
        refine .inl ⟨Assoc.set merged (dedupKey rt f) record, habsorb, ?_⟩
        intro key
        rw [Assoc.get?_set]
        by_cases hkey : dedupKey rt f = key
        · rw [if_pos hkey, ← hkey]
          exact ⟨lead', hlast, hlead'⟩
        · rw [if_neg hkey, reportsOf_append, if_neg hkey]
          exact hagree key
      | error e =>
        refine .inr ⟨?_, dedupKey rt f, ?_⟩
        · rw [habsorb]
          exact Result.not_ok_error e
        · rw [hlast]
          exact Result.not_ok_error e
    · refine .inr ⟨fun hok => ?_, key, fun hok => hkey ?_⟩
      · obtain ⟨merged, hmerged, -⟩ := Result.ok_bind_iff.1 hok
        exact herror ⟨merged, hmerged⟩
      · rw [reportsOf_append] at hok
        split_ifs at hok
        · rw [leadOf_append] at hok
          obtain ⟨lead, hlead, -⟩ := Result.ok_bind_iff.1 hok
          exact ⟨lead, hlead⟩
        · exact hok

/-! ### Files -/

/-- A file name without a colon is what stands before the first one in the key. -/
theorem file_of_dedupKey {f g : Dict} {s t : String} (hf : f.get "file" = .str s)
    (hg : g.get "file" = .str t) (hs : ':' ∉ s.toList) (ht : ':' ∉ t.toList)
    (h : dedupKey rt f = dedupKey rt g) : s = t := by
  have hprefix (u : String) (hu : ':' ∉ u.toList) (rest : List Char) :
      (u.toList ++ (':' :: rest)).takeWhile (· ≠ ':') = u.toList := by
    have hall : ∀ c ∈ u.toList, decide (c ≠ ':') = true := fun c hc =>
      decide_eq_true fun e => hu (e ▸ hc)
    rw [List.takeWhile_append_of_pos hall, List.takeWhile_cons_of_neg (by simp), List.append_nil]
  have hkey (d : Dict) (u : String) (hd : d.get "file" = .str u) :
      ∃ rest, (dedupKey rt d).toList = u.toList ++ (':' :: rest) := by
    rw [dedupKey, hd, or_empty]
    exact ⟨_, by simp [String.toList_append, Runtime.str]; rfl⟩
  obtain ⟨rest, hrest⟩ := hkey f s hf
  obtain ⟨rest', hrest'⟩ := hkey g t hg
  have hlists : s.toList = t.toList := by
    rw [← hprefix s hs rest, ← hprefix t ht rest', ← hrest, ← hrest', h]
  exact String.toList_inj.1 hlists

/-- **Only entries of one file are merged.** -/
theorem mergeGroups_sameFile {fs : List Dict} (h : ∀ f ∈ fs, Textual (f.get "file"))
    {members : List ℕ} (hmembers : members ∈ mergeGroups rt embed fs) {i j : ℕ} (hi : i ∈ members)
    (hj : j ∈ members) : ((fs.getD i []).get "file").or (.str "") =
      ((fs.getD j []).get "file").or (.str "") := by
  have hlabel (k : ℕ) : ∃ s, ((fs.getD k []).get "file").or (.str "") = .str s := by
    rw [List.getD_eq_getElem?_getD]
    cases hk : fs[k]? with
    | none => exact ⟨"", rfl⟩
    | some f => exact h f (List.mem_of_getElem? hk)
  rw [mergeGroups] at hmembers
  split_ifs at hmembers
  · obtain ⟨k, -, rfl⟩ := List.mem_map.1 hmembers
    rw [List.mem_singleton.1 hi, List.mem_singleton.1 hj]
  · obtain ⟨⟨root, members'⟩, hentry, rfl⟩ := List.mem_map.1 hmembers
    have hget := Assoc.get?_of_mem (nodup_keys_groupByRoot _ _) hentry
    have hrespects : (((pairsBelow fs.length).foldl (fun u p =>
        if sameBug rt fs (fs.map (findingText rt)) (embedTexts embed (fs.map (findingText rt)))
          p.1 p.2 then u.union p.1 p.2 else u) UnionFind.singletons).Respects fun k =>
            ((fs.getD k []).get "file").or (.str "")) := by
      refine UnionFind.Respects.foldl (fun p _ hbug => ?_) (UnionFind.respects_singletons _)
      -- two positions that are united report in the same file
      obtain ⟨s, hs⟩ := hlabel p.1
      obtain ⟨t, ht⟩ := hlabel p.2
      rw [sameBug, Bool.and_eq_true, hs, ht] at hbug
      rw [hs, ht, (Value.eqv_str _ _).1 hbug.1]
    have hroot (k : ℕ) (hk : k ∈ members') : ((fs.getD root []).get "file").or (.str "") =
        ((fs.getD k []).get "file").or (.str "") := by
      have hlabelled := hrespects k
      rwa [root_of_mem_groupByRoot hget hk] at hlabelled
    rw [← hroot i hi, hroot j hj]

/-! ### Confidence -/

theorem toFloat_of_typed {f : Dict} (h : TypedFinding f)
    (hfloat : rt.toFloat (f.get "confidence") ≠ .error .overflowError) :
    Result.Ok (confidence rt f) := by
  rw [confidence]
  rcases h.confidence with hnone | ⟨n, hn⟩ | ⟨x, hx⟩
  · rw [hnone]
    exact ⟨_, rfl⟩
  · rw [hn] at hfloat ⊢
    unfold Value.or
    split_ifs
    · cases hfloat' : rt.toFloat (.int n) with
      | ok x => exact ⟨x, rfl⟩
      | error e =>
        have hoverflow : e = .overflowError := by
          have herror : Double.ofInt n = .error e := hfloat'
          rw [Double.ofInt] at herror
          split_ifs at herror
          exact (Except.error.inj herror).symm
        rw [hfloat', hoverflow] at hfloat
        exact absurd rfl hfloat
    · exact ⟨_, rfl⟩
  · rw [hx]
    unfold Value.or
    split_ifs <;> exact ⟨_, rfl⟩

/-- A number that is too large is caught nowhere. -/
theorem confidence_of_isPrimary {threshold : Double} {f : Dict} {n : ℕ}
    (h : Result.Ok (isPrimary rt threshold f n)) :
    rt.toFloat (f.get "confidence") ≠ .error .overflowError := by
  intro hoverflow
  obtain ⟨b, hb⟩ := h
  unfold isPrimary at hb
  simp only at hb
  split at hb
  · rename_i hnone
    rw [hnone] at hoverflow
    cases hoverflow
  · rw [hoverflow, Result.error_bind] at hb
    cases hb

/-- A tagged entry has a confidence that could be read. -/
theorem confidence_of_tagFinding {threshold : Double} {f g : Dict}
    (h : tagFinding rt threshold f = .ok g) :
    rt.toFloat (f.get "confidence") ≠ .error .overflowError := by
  obtain ⟨n, -, h⟩ := Result.bind_eq_ok.1 h
  obtain ⟨primary, hprimary, -⟩ := Result.bind_eq_ok.1 h
  exact confidence_of_isPrimary ⟨primary, hprimary⟩

/-- The members of a merged group have a confidence; a group of one is not merged. -/
theorem confidence_of_mergeEntries {fs : List Dict} {g : Dict} (h : mergeEntries rt fs = .ok g)
    {f : Dict} (hf : f ∈ fs) : Result.Ok (confidence rt f) ∨ g = f := by
  match fs with
  | [f'] =>
    rw [List.mem_singleton.1 hf]
    exact .inr (Except.ok.inj h).symm
  | f₁ :: f₂ :: fs =>
    obtain ⟨keyed, -, h⟩ := Result.bind_eq_ok.1 h
    obtain ⟨flags, -, h⟩ := Result.bind_eq_ok.1 h
    obtain ⟨confs, hconfs, -⟩ := Result.bind_eq_ok.1 h
    obtain ⟨x, -, hx⟩ := Result.exists_of_mapM_left hconfs hf
    exact .inl ⟨x, hx⟩

/-! ### Counts and lists -/

theorem countSeverity_eq {sev : Value} (h : sev.hashable = true) (counts : List (String × ℕ)) :
    countSeverity counts sev =
      .ok (counts.map fun sn => (sn.1, sn.2 + if sev.eqv (.str sn.1) then 1 else 0)) := by
  have hcontains : ∃ b, Value.contains? (counts.map Prod.fst) sev = .ok b := by
    rw [Value.contains?, if_pos h]
    exact ⟨_, rfl⟩
  obtain ⟨b, hb⟩ := hcontains
  rw [countSeverity, hb, Result.ok_bind]
  cases b with
  | true =>
    refine congrArg Except.ok (List.map_congr_left ?_)
    intro sn _
    split_ifs <;> rfl
  | false =>
    -- the severity is not one of those counted
    have hnot : ∀ sn ∈ counts, ¬ sev.eqv (.str sn.1) := by
      intro sn hsn heqv
      have htrue : Value.contains? (counts.map Prod.fst) sev = .ok true :=
        Value.contains?_eq_true.2 ⟨sn.1, List.mem_map_of_mem hsn, (Value.eqv_str _ _).1 heqv⟩
      rw [hb] at htrue
      cases htrue
    refine congrArg Except.ok (Eq.symm ?_)
    calc counts.map (fun sn => (sn.1, sn.2 + if sev.eqv (.str sn.1) then 1 else 0))
        = counts.map id := List.map_congr_left fun sn hsn => by rw [if_neg (hnot sn hsn)]; rfl
      _ = counts := List.map_id _

/-- The loop counts the entries of each severity. -/
theorem foldlM_countSeverity {fs : List Dict} (h : ∀ f ∈ fs, (f.get "severity").hashable = true)
    (counts : List (String × ℕ)) :
    fs.foldlM (fun c f => countSeverity c (f.get "severity")) counts =
      .ok (counts.map fun sn =>
        (sn.1, sn.2 + fs.countP fun f => (f.get "severity").eqv (.str sn.1))) := by
  induction fs generalizing counts with
  | nil => simp
  | cons f fs ih =>
    rw [List.foldlM_cons, countSeverity_eq (h f List.mem_cons_self), Result.ok_bind,
      ih fun g hg => h g (List.mem_cons_of_mem _ hg), List.map_map]
    refine congrArg Except.ok (List.map_congr_left ?_)
    intro sn _
    simp only [Function.comp_apply, List.countP_cons, Prod.mk.injEq, true_and]
    omega

/-- A merged group lists its reporters in order. -/
theorem listed_mergeEntries {fs : List Dict} {g : Dict} (h : mergeEntries rt fs = .ok g)
    (hne : fs ≠ []) (hfs : ∀ f ∈ fs, Listed f) : Listed g := by
  match fs, hne with
  | [f], _ =>
    rw [← Except.ok.inj h]
    exact hfs f List.mem_cons_self
  | f₁ :: f₂ :: fs, _ =>
    obtain ⟨keyed, -, h⟩ := Result.bind_eq_ok.1 h
    obtain ⟨flags, -, h⟩ := Result.bind_eq_ok.1 h
    obtain ⟨confs, -, h⟩ := Result.bind_eq_ok.1 h
    refine ⟨sortedSet flags.flatten, ?_, pairwise_sortedSet _⟩
    rw [← Except.ok.inj h]
    exact flagged_mergedEntry ..

/-! ### What the answer conserves -/

/-- `s` is the id of a specialist that completed. -/
def CompletedId (outputs : List Value) (s : String) : Prop :=
  ∃ out : Dict, .dict out ∈ outputs ∧ out.get "status" = .str "completed" ∧ out.get "id" = .str s

/-- No reported file name has a colon. -/
def ColonFree (outputs : List Value) : Prop :=
  ∀ r ∈ reports outputs, ∀ file, r.2.get "file" = .str file → ':' ∉ file.toList

/-- The entries conserve the findings of the completed specialists. -/
structure Conserves (outputs : List Value) (c : Collected) : Prop where
  kept : ∀ s f, (.str s, f) ∈ reports outputs → ∃ g ∈ c.findings, Flags g s ∧
    rankValue f ≤ rankValue g ∧ (ColonFree outputs → g.get "file" = f.get "file")
  completed : ∀ g ∈ c.findings, ∀ s, Flags g s → CompletedId outputs s
  listed : ∀ g ∈ c.findings, Listed g
  counts : c.severityCounts = validSeverities.map fun s =>
    (s, c.findings.countP fun g => (g.get "severity").eqv (.str s))

theorem completedId_of_mem_reports {outputs : List Value} (h : TypedOutputs outputs) {s : String}
    {f : Dict} (hr : (.str s, f) ∈ reports outputs) : CompletedId outputs s := by
  obtain ⟨d, hd, hr⟩ := List.mem_flatMap.1 hr
  split_ifs at hr with hstatus
  · obtain ⟨f', -, heq⟩ := List.mem_map.1 hr
    obtain ⟨t, ht⟩ := h.ids d (mem_dicts.1 hd)
    refine ⟨d, mem_dicts.1 hd, (Value.eqv_str _ _).1 hstatus, ?_⟩
    have hid : d.getD "id" (.str "") = .str s := (Prod.mk.inj heq).1
    rw [Dict.getD] at hid
    rw [Dict.get] at ht ⊢
    cases hget : Assoc.get? d "id" with
    | none => simp [hget] at ht
    | some v => simpa [hget] using hid
  · cases hr

theorem rankValue_le_of_notBelow {f g : Dict} (h : NotBelow f g)
    (hf : (f.get "severity").hashable = true) : rankValue f ≤ rankValue g := by
  have hrank := rankOf_eq hf
  rw [rankOf_getD] at hrank
  obtain ⟨n, hn, hle⟩ := h _ hrank
  have hg := rankOf_eq (rankOf_ok_iff.1 ⟨n, hn⟩)
  rw [rankOf_getD, hn] at hg
  exact hle.trans (Except.ok.inj hg).le

/-- Every record is made of a reported finding of its key. -/
theorem record_of_leadsAgree {rs : List (Value × Dict)} {merged : List (String × Dict)}
    (hagree : LeadsAgree rt rs merged) {key : String} {record : Dict}
    (hget : Assoc.get? merged key = some record) :
    ∃ l, leadOf (reportsOf rt rs key) = .ok (some l) ∧ LeadsRecord l record ∧
      ∃ r ∈ rs, r.2 = l.finding ∧ dedupKey rt l.finding = key := by
  obtain ⟨lead, hlead, hrel⟩ := hagree key
  rw [hget] at hrel
  cases hrel with
  | @some l _ hl =>
    obtain ⟨s, hs⟩ := mem_of_leadOf hlead l rfl
    obtain ⟨hmem, hkey⟩ := mem_reportsOf.1 hs
    exact ⟨l, hlead, hl, _, hmem, rfl, hkey⟩

/-- A finished record has the fields of its lead. -/
theorem finishRecord_lead {l : Lead} {record : Dict} (hl : LeadsRecord l record) {k : String}
    (hk : k ∉ ["flagged_by", "__winner", "__origin", "winner"]) :
    (finishRecord record).get k = l.finding.get k := by
  simp only [List.mem_cons, List.not_mem_nil, or_false, not_or] at hk
  rw [finishRecord_get _ hk.2.1 hk.2.2.2]
  exact hl.same k (by simp [hk.1, hk.2.1, hk.2.2.1])

theorem listed_finishRecord {l : Lead} {record : Dict} (hl : LeadsRecord l record) :
    Listed (finishRecord record) := by
  obtain ⟨ids, hids, hsorted⟩ := hl.listed
  exact ⟨ids, by rw [finishRecord_get _ (by decide) (by decide), hids], hsorted⟩

/-- A finished record can be read when the confidence of its lead can. -/
theorem entry_of_lead {l : Lead} {record : Dict} (hl : LeadsRecord l record)
    (htyped : TypedFinding l.finding) (hconf : Result.Ok (confidence rt l.finding)) :
    Entry rt (finishRecord record) := by
  obtain ⟨ids, hids, -⟩ := listed_finishRecord hl
  obtain ⟨file, hfile⟩ := htyped.file
  refine ⟨?_, ?_, ?_, ids, hids⟩
  · rw [finishRecord_lead hl (by decide)]
    exact htyped.hashable
  · rw [finishRecord_lead hl (by decide), hfile]
    exact textual_str file
  · rw [confidence_congr (finishRecord_lead hl (by decide))]
    exact hconf

/-- The grouping of typed outputs, when it returns. -/
theorem leadsAgree_of_groupFindings {outputs : List Value} (h : TypedOutputs outputs)
    {merged : List (String × Dict)} (hmerged : groupFindings rt outputs = .ok merged) :
    LeadsAgree rt (reports outputs) merged := by
  rcases @groupReports_leads rt _ fun r hr => ⟨h.exists_id hr, (h.findings r hr).hashable⟩ with
    ⟨merged', hmerged', hagree⟩ | ⟨herror, -⟩
  · rw [groupFindings, hmerged'] at hmerged
    exact Except.ok.inj hmerged ▸ hagree
  · exact absurd ⟨merged, hmerged⟩ herror

/-- A collector that returns has read the confidence of every lead. -/
theorem leadsReadable_of_ok {env : Dict} {c : Collected}
    (h : TypedOutputs (ensureList (env.get "specialist_outputs")))
    (hc : collectFindings rt embed env = .ok c) :
    LeadsReadable rt (reports (ensureList (env.get "specialist_outputs"))) := by
  obtain ⟨merged, sorted, entries, threshold, hmerged, hsorted, -, hgroups, htag⟩ :=
    collectFindings_stages hc
  have hagree := leadsAgree_of_groupFindings h hmerged
  intro key
  obtain ⟨lead, hlead, hrel⟩ := hagree key
  refine ⟨lead, hlead, ?_⟩
  intro l hl
  obtain rfl : lead = some l := hl
  generalize hget : Assoc.get? merged key = existing at hrel
  cases hrel with
  | @some _ record hrecord =>
    obtain ⟨l', hlead', -, r, hr, hfinding, -⟩ := record_of_leadsAgree hagree hget
    obtain rfl : l = l' := Option.some.inj (Except.ok.inj (hlead.symm.trans hlead'))
    have htyped : TypedFinding l.finding := hfinding ▸ h.findings r hr
    -- the position of the record among the sorted ones, and its merged group
    have hin : finishRecord record ∈ sorted := (perm_of_sortFindings hsorted).mem_iff.2
      (List.mem_map.2 ⟨_, Assoc.mem_of_get? hget, rfl⟩)
    obtain ⟨i, hi⟩ := List.mem_iff_getElem?.1 hin
    obtain ⟨members, hmembers, him⟩ :=
      exists_mem_mergeGroups rt embed (List.getElem?_eq_some_iff.1 hi).1
    obtain ⟨g, hg, hmerge⟩ := hgroups members hmembers
    have hmem : finishRecord record ∈ members.map fun m => sorted.getD m [] :=
      List.mem_map.2 ⟨i, him, by rw [List.getD_eq_getElem?_getD, hi]; rfl⟩
    have hconfidence : (finishRecord record).get "confidence" = l.finding.get "confidence" :=
      finishRecord_lead hrecord (by decide)
    rcases confidence_of_mergeEntries hmerge hmem with hconf | rfl
    · rwa [confidence_congr hconfidence] at hconf
    · obtain ⟨entry, -, htagged⟩ := Result.exists_of_mapM_left htag hg
      have hread := confidence_of_tagFinding htagged
      rw [hconfidence] at hread
      exact toFloat_of_typed htyped hread

/-- A collector that returns has read the threshold. -/
theorem thresholdReadable_of_ok {env : Dict} {c : Collected}
    (hc : collectFindings rt embed env = .ok c) :
    ThresholdReadable rt (ensureDict (env.get "args")) := by
  obtain ⟨entries, -, hc⟩ := Result.bind_eq_ok.1 hc
  obtain ⟨threshold, hthreshold, -⟩ := Result.bind_eq_ok.1 hc
  intro hoverflow
  rw [primaryThreshold, Dict.getD] at hthreshold
  rw [Dict.get] at hoverflow
  cases hget : Assoc.get? (ensureDict (env.get "args")) "primary-threshold" with
  | none =>
    rw [hget] at hoverflow
    cases hoverflow
  | some v =>
    rw [hget, Option.getD_some] at hoverflow hthreshold
    rw [hoverflow] at hthreshold
    cases hthreshold

/-- The collector returns on leads whose confidence can be read. -/
theorem collectFindings_of_leads {env : Dict}
    (h : TypedOutputs (ensureList (env.get "specialist_outputs")))
    (hthreshold : ThresholdReadable rt (ensureDict (env.get "args")))
    (hleads : LeadsReadable rt (reports (ensureList (env.get "specialist_outputs")))) :
    ∃ c merged, collectFindings rt embed env = .ok c ∧
      groupFindings rt (ensureList (env.get "specialist_outputs")) = .ok merged ∧
      (∀ f ∈ merged.map fun kr => finishRecord kr.2,
        Entry rt f ∧ Listed f ∧ ∃ s, f.get "file" = .str s) ∧
      ∀ g ∈ c.findings, ∃ f ∈ merged.map fun kr => finishRecord kr.2, SameFields f g := by
  rcases @groupReports_leads rt _ fun r hr => ⟨h.exists_id hr, (h.findings r hr).hashable⟩ with
    ⟨merged, hmerged, hagree⟩ | ⟨-, key, hkey⟩
  · have hrecords : ∀ f ∈ merged.map fun kr => finishRecord kr.2,
        Entry rt f ∧ Listed f ∧ ∃ s, f.get "file" = .str s := by
      intro f hf
      obtain ⟨⟨key, record⟩, hkr, rfl⟩ := List.mem_map.1 hf
      have hget := Assoc.get?_of_mem (nodup_keys_groupFindings hmerged) hkr
      obtain ⟨l, hlead, hl, r, hr, hfinding, -⟩ := record_of_leadsAgree hagree hget
      obtain ⟨lead, hlead', hconf⟩ := hleads key
      obtain rfl : lead = some l := Except.ok.inj (hlead'.symm.trans hlead)
      have htyped : TypedFinding l.finding := hfinding ▸ h.findings r hr
      refine ⟨entry_of_lead hl htyped (hconf l rfl), listed_finishRecord hl, ?_⟩
      rw [finishRecord_lead hl (by decide)]
      exact htyped.file
    obtain ⟨c, hc, hentries⟩ := @collectFindings_of_records rt embed env merged hmerged
      (fun f hf => (hrecords f hf).1) hthreshold
    exact ⟨c, merged, hc, hmerged, hrecords, fun g hg => (hentries g hg).2⟩
  · obtain ⟨lead, hlead, -⟩ := hleads key
    exact absurd ⟨lead, hlead⟩ hkey

/-- What the collector returns conserves the findings. -/
theorem conserves_of_ok {env : Dict} {c : Collected}
    (h : TypedOutputs (ensureList (env.get "specialist_outputs")))
    (hc : collectFindings rt embed env = .ok c) :
    Conserves (ensureList (env.get "specialist_outputs")) c := by
  obtain ⟨c', merged, hc', hmerged, hrecords, hfields⟩ := @collectFindings_of_leads rt embed env h
    (thresholdReadable_of_ok hc) (leadsReadable_of_ok h hc)
  obtain rfl : c = c' := Except.ok.inj (hc.symm.trans hc')
  have hsortedRecords {sorted : List Dict}
      (hsorted : sortFindings rt (merged.map fun kr => finishRecord kr.2) = .ok sorted) :
      ∀ f ∈ sorted, Entry rt f ∧ Listed f ∧ ∃ s, f.get "file" = .str s :=
    fun f hf => hrecords f ((perm_of_sortFindings hsorted).mem_iff.1 hf)
  refine ⟨fun s f hreport => ?_, fun g hg s hs => ?_, fun entry hentry => ?_, ?_⟩
  · obtain ⟨entry, hentry, hends, hflags, hrank⟩ := collectFindings_endsIn hc hreport
    refine ⟨entry, hentry, hflags,
      rankValue_le_of_notBelow hrank (h.findings _ hreport).hashable, fun hcolon => ?_⟩
    obtain ⟨merged', record, sorted, i, members, g, threshold, hmerged', hget, hsorted, hi,
      hmembers, him, hmerge, htag⟩ := hends
    obtain rfl : merged = merged' := Except.ok.inj (hmerged.symm.trans hmerged')
    have hentries := hsortedRecords hsorted
    -- the record has the file of the finding
    obtain ⟨l, -, hl, r, hr, hfinding, hkey⟩ :=
      record_of_leadsAgree (leadsAgree_of_groupFindings h hmerged) hget
    obtain ⟨file, hfile⟩ := (h.findings _ hreport).file
    obtain ⟨file', hfile'⟩ := (h.findings r hr).file
    have hsame : file' = file := file_of_dedupKey hfile' hfile (hcolon r hr file' hfile')
      (hcolon _ hreport file hfile) (by rw [hfinding]; exact hkey)
    have hrecord : (finishRecord record).get "file" = .str file := by
      rw [finishRecord_lead hl (by decide), ← hfinding, hfile', hsame]
    -- and so has the member that represents the group
    have hgetD : sorted.getD i [] = finishRecord record := by
      rw [List.getD_eq_getElem?_getD, hi]
      rfl
    have hne : members.map (fun m => sorted.getD m []) ≠ [] :=
      List.ne_nil_of_mem (List.mem_map.2 ⟨i, him, rfl⟩)
    obtain ⟨g', hg', -, rep, hrep, hfields'⟩ :=
      mergeEntries_ok hne fun f hf => (hentries f (member_of_mem_mergeGroups hmembers f hf)).1
    obtain rfl : g = g' := Except.ok.inj (hmerge.symm.trans hg')
    obtain ⟨j, hj, rfl⟩ := List.mem_map.1 hrep
    have hgroup := mergeGroups_sameFile (fun f hf => (hentries f hf).1.file) hmembers hj him
    obtain ⟨fileⱼ, hfileⱼ⟩ := (hentries _ (member_of_mem_mergeGroups hmembers _ hrep)).2.2
    rw [hgetD, hrecord, hfileⱼ, or_empty, or_empty] at hgroup
    rw [tagFinding_get htag (by decide) (by decide), hfields'.file, hfileⱼ, hgroup, hfile]
  · obtain ⟨f, hf⟩ := collectFindings_flags hc hg hs
    exact completedId_of_mem_reports h hf
  · obtain ⟨merged', sorted, entries, threshold, hmerged', hsorted, hmem, -, htag⟩ :=
      collectFindings_stages hc
    obtain rfl : merged = merged' := Except.ok.inj (hmerged.symm.trans hmerged')
    obtain ⟨g, hg, hge⟩ := Result.exists_of_mapM_right htag hentry
    obtain ⟨members, hmembers, hmerge⟩ := (hmem g).1 hg
    have hne : members.map (fun m => sorted.getD m []) ≠ [] := by
      simpa using ne_nil_of_mem_mergeGroups hmembers
    obtain ⟨ids, hids, hordered⟩ := listed_mergeEntries hmerge hne fun f hf =>
      (hsortedRecords hsorted f (member_of_mem_mergeGroups hmembers f hf)).2.1
    exact ⟨ids, by rw [tagFinding_get hge (by decide) (by decide), hids], hordered⟩
  · have hseverity : ∀ g ∈ c.findings, (g.get "severity").hashable = true := by
      intro g hg
      obtain ⟨f, hf, hsame⟩ := hfields g hg
      rw [hsame.severity]
      exact (hrecords f hf).1.severity
    obtain ⟨entries, -, hrest⟩ := Result.bind_eq_ok.1 hc
    obtain ⟨threshold, -, hrest⟩ := Result.bind_eq_ok.1 hrest
    obtain ⟨findings, -, hrest⟩ := Result.bind_eq_ok.1 hrest
    obtain ⟨counts, hcounts, hrest⟩ := Result.bind_eq_ok.1 hrest
    obtain rfl := Except.ok.inj hrest
    rw [foldlM_countSeverity hseverity] at hcounts
    rw [← Except.ok.inj hcounts, noCounts, List.map_map]
    refine List.map_congr_left ?_
    intro s _
    simp only [Function.comp_apply, Nat.zero_add]

/-- **Deduplication conserves the findings exactly when the lead of every key can be decided and
the confidence of the leads, and the threshold, have a `float`.** -/
theorem conserves_iff {env : Dict}
    (h : TypedOutputs (ensureList (env.get "specialist_outputs"))) :
    (∃ c, collectFindings rt embed env = .ok c ∧
      Conserves (ensureList (env.get "specialist_outputs")) c) ↔
    ThresholdReadable rt (ensureDict (env.get "args")) ∧
      LeadsReadable rt (reports (ensureList (env.get "specialist_outputs"))) := by
  constructor
  · rintro ⟨c, hc, -⟩
    exact ⟨thresholdReadable_of_ok hc, leadsReadable_of_ok h hc⟩
  · rintro ⟨hthreshold, hleads⟩
    obtain ⟨c, -, hc, -⟩ := @collectFindings_of_leads rt embed env h hthreshold hleads
    exact ⟨c, hc, conserves_of_ok h hc⟩

/-- A race, reported with the given confidence. -/
def confidentFinding (confidence : ℤ) : Dict :=
  [("severity", "critical"), ("file", "a.py"), ("title", "Race"), ("confidence", .int confidence)]

/-- One specialist reports the race. -/
def confidentRace (confidence : ℤ) : Dict :=
  [("specialist_outputs", .list [.dict [("id", "quality"), ("status", "completed"),
    ("findings", .list [.dict (confidentFinding confidence)])]])]

theorem typedOutputs_confidentRace (confidence : ℤ) :
    TypedOutputs (ensureList ((confidentRace confidence).get "specialist_outputs")) where
  ids out hout := by
    obtain rfl := Value.dict.inj (List.mem_singleton.1 hout)
    exact ⟨"quality", rfl⟩
  findings r hr := by
    obtain rfl := List.mem_singleton.1 hr
    exact ⟨⟨_, rfl⟩, ⟨_, rfl⟩, ⟨_, rfl⟩, .inl rfl, .inr (.inl ⟨_, rfl⟩)⟩

/-- Two specialists report the race, one of them as a minor finding. -/
def nearDuplicates : Dict :=
  [("specialist_outputs", .list [
    .dict [("id", "quality"), ("status", "completed"),
      ("findings", .list [.dict (confidentFinding 1)])],
    .dict [("id", "sec-input"), ("status", "completed"),
      ("findings", .list [.dict (Assoc.set (confidentFinding 2) "severity" "minor")])]])]

theorem typedOutputs_nearDuplicates :
    TypedOutputs (ensureList (nearDuplicates.get "specialist_outputs")) where
  ids out hout := by
    rcases List.mem_pair.1 hout with hout | hout <;> obtain rfl := Value.dict.inj hout
    · exact ⟨"quality", rfl⟩
    · exact ⟨"sec-input", rfl⟩
  findings r hr := by
    rcases List.mem_pair.1 hr with rfl | rfl <;>
      exact ⟨⟨_, rfl⟩, ⟨_, rfl⟩, ⟨_, rfl⟩, .inl rfl, .inr (.inl ⟨_, rfl⟩)⟩

/-- The two reports become one finding, which both flag. -/
theorem conserves_iff_nearDuplicates :
    ∃ c, collectFindings Runtime.ascii (fun _ => none) nearDuplicates = .ok c ∧
      Conserves (ensureList (nearDuplicates.get "specialist_outputs")) c ∧
      c.findings.map (fun g => strs (ensureList (g.get "flagged_by"))) =
        [["quality", "sec-input"]] := by
  have hflags : (collectFindings Runtime.ascii (fun _ => none) nearDuplicates).toOption.map
      (fun c => c.findings.map fun g => strs (ensureList (g.get "flagged_by"))) =
        some [["quality", "sec-input"]] := by
    decide +kernel
  cases hc : collectFindings Runtime.ascii (fun _ => none) nearDuplicates with
  | error exc =>
    rw [hc] at hflags
    cases hflags
  | ok c =>
    rw [hc] at hflags
    obtain ⟨c', hc', hconserves⟩ := (conserves_iff typedOutputs_nearDuplicates).2
      ⟨thresholdReadable_of_ok hc, leadsReadable_of_ok typedOutputs_nearDuplicates hc⟩
    obtain rfl := Except.ok.inj (hc'.symm.trans hc)
    exact ⟨c', rfl, hconserves, Option.some.inj hflags⟩

/-- The race leads its key. -/
theorem leadOf_confidentRace (confidence : ℤ) :
    leadOf (reportsOf Runtime.ascii
      (reports (ensureList ((confidentRace confidence).get "specialist_outputs"))) "a.py::::race") =
        .ok (some ⟨"quality", confidentFinding confidence⟩) := rfl

theorem confidence_overflows {n : ℤ} (hn : n ≠ 0) (hbound : Double.bound ≤ |(n : ℚ)|) :
    confidence rt (confidentFinding n) = .error .overflowError := by
  have htruthy : (Value.int n).truthy = true := decide_eq_true hn
  calc confidence rt (confidentFinding n)
      = Double.ofInt n := congrArg rt.toFloat (Value.or_of_truthy _ htruthy)
    _ = .error .overflowError := if_pos hbound

/-- `10 ** 400` has no `float`. -/
theorem bound_le_pow : Double.bound ≤ |((10 ^ 400 : ℤ) : ℚ)| := by
  rw [Int.cast_pow, abs_of_nonneg (by positivity)]
  calc Double.bound ≤ 2 ^ 1024 := sub_le_self _ (by positivity)
    _ ≤ 2 ^ (3 * 400) := pow_le_pow_right₀ (by norm_num) (by norm_num)
    _ = (2 ^ 3) ^ 400 := pow_mul ..
    _ ≤ ((10 : ℤ) : ℚ) ^ 400 := pow_le_pow_left₀ (by norm_num) (by norm_num) _

/-- A confidence that has no `float` makes the collector raise, and the finding is lost. -/
theorem hugeConfidence_lost :
    TypedOutputs (ensureList ((confidentRace (10 ^ 400)).get "specialist_outputs")) ∧
    ¬ ∃ c, collectFindings Runtime.ascii (fun _ => none) (confidentRace (10 ^ 400)) = .ok c ∧
      Conserves (ensureList ((confidentRace (10 ^ 400)).get "specialist_outputs")) c := by
  refine ⟨typedOutputs_confidentRace _, ?_⟩
  rintro ⟨c, hc, -⟩
  obtain ⟨lead, hlead, hconf⟩ :=
    leadsReadable_of_ok (typedOutputs_confidentRace _) hc "a.py::::race"
  rw [leadOf_confidentRace] at hlead
  obtain rfl := Except.ok.inj hlead
  obtain ⟨x, hx⟩ := hconf _ rfl
  rw [confidence_overflows (by positivity) bound_le_pow] at hx
  cases hx

end CodeReview
