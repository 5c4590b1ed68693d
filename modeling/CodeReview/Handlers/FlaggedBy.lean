import CodeReview.Handlers.Findings
import CodeReview.Handlers.Readiness

/-!
# Who flags a consolidated finding

`flagged_by` through the stages of the collector.  Every finding that a completed specialist
reports ends in an entry that lists the specialist and is at least as severe, and an entry lists
nobody else.

* `groupFindings_inv` : exact grouping, by induction over the reports;
* `mergeGroup_spec` : one group of the semantic merge;
* `collectFindings_flags` : **an entry is flagged only by specialists that reported a finding;**
* `collectFindings_endsIn` : **every report ends in an entry flagged by its specialist, of at least
  its severity.**
-/

namespace CodeReview

open Py

variable {rt : Runtime} {embed : Embed}

/-! ### Severity -/

/-- `g` is at least as severe as `f`, when `f` has a severity to compare. -/
def NotBelow (f g : Dict) : Prop :=
  ∀ m, rankOf (f.get "severity") = .ok m → ∃ n, rankOf (g.get "severity") = .ok n ∧ m ≤ n

theorem NotBelow.of_eq {f g : Dict} (h : g.get "severity" = f.get "severity") : NotBelow f g :=
  fun m hm => ⟨m, h ▸ hm, le_rfl⟩

theorem NotBelow.trans {f g h : Dict} (hfg : NotBelow f g) (hgh : NotBelow g h) :
    NotBelow f h := fun m hm =>
  let ⟨_, hn, hmn⟩ := hfg m hm
  let ⟨k, hk, hnk⟩ := hgh _ hn
  ⟨k, hk, hmn.trans hnk⟩

/-- A missing severity ranks like an unknown one. -/
theorem rankOf_getD (f : Dict) :
    rankOf (f.getD "severity" (.str "")) = rankOf (f.get "severity") := by
  rw [Dict.getD, Dict.get]
  cases Assoc.get? f "severity" <;> rfl

/-- The ranks of the blocking severities are those from 2 on. -/
theorem blocking_iff_rank {f : Dict} :
    Blocking f ↔ ∃ n, rankOf (f.get "severity") = .ok n ∧ 2 ≤ n := by
  constructor
  · rintro ⟨sev, hsev, hf⟩
    rw [hf]
    simp only [blockingSeverities, List.mem_cons, List.not_mem_nil, or_false] at hsev
    rcases hsev with rfl | rfl
    · exact ⟨3, rfl, by decide⟩
    · exact ⟨2, rfl, by decide⟩
  · rintro ⟨n, hn, h2⟩
    cases hs : f.get "severity" with
    | str s =>
      refine ⟨s, ?_, hs⟩
      simp only [hs, rankOf, Value.hashable, if_true, Value.asStr?, Option.elim, severityRank,
        Assoc.get?_cons, Except.ok.injEq] at hn
      simp only [blockingSeverities, List.mem_cons, List.not_mem_nil, or_false]
      split_ifs at hn with h3 h2' h1 <;> first | exact .inl h3.symm | exact .inr h2'.symm | skip
      all_goals simp at hn; omega
    | list xs => simp [hs, rankOf, Value.hashable] at hn
    | dict kvs => simp [hs, rankOf, Value.hashable] at hn
    | _ =>
      simp only [hs, rankOf, Value.hashable, if_true, Value.asStr?, Option.elim,
        Except.ok.injEq] at hn
      omega

theorem Blocking.of_notBelow {f g : Dict} (h : NotBelow f g) (hf : Blocking f) : Blocking g := by
  obtain ⟨m, hm, h2⟩ := blocking_iff_rank.1 hf
  obtain ⟨n, hn, hmn⟩ := h m hm
  exact blocking_iff_rank.2 ⟨n, hn, h2.trans hmn⟩

/-! ### Sets of reporters -/

theorem flags_of_list {f : Dict} {vs : List Value} (h : f.get "flagged_by" = .list vs)
    {s : String} : Flags f s ↔ .str s ∈ vs := by
  have hiter : (flaggedBy f).iter = .ok vs := by
    rw [flaggedBy, h, Value.or]
    cases vs <;> rfl
  constructor
  · rintro ⟨ws, hws, hs⟩
    simp only [hiter, Except.ok.injEq] at hws
    exact hws ▸ hs
  · exact fun hs => ⟨vs, hiter, hs⟩

theorem flags_of_ofStrs {f : Dict} {ids : List String} (h : f.get "flagged_by" = ofStrs ids)
    {s : String} : Flags f s ↔ s ∈ ids := by
  rw [flags_of_list h]; simp

theorem mem_setAdd_str {vs ws : List Value} {v : Value} (h : setAdd vs v = .ok ws) {s : String} :
    .str s ∈ ws ↔ .str s ∈ vs ∨ v = .str s := by
  rw [setAdd] at h
  split_ifs at h with hh hany <;> simp only [Except.ok.injEq] at h
  · subst h
    refine ⟨.inl, fun hs => hs.elim id ?_⟩
    rintro rfl
    obtain ⟨w, hw, hws⟩ := List.any_eq_true.1 hany
    exact (Value.eqv_str w s).1 hws ▸ hw
  · simp [← h, eq_comm]

theorem mem_setOf_str {vs ws : List Value} (h : setOf vs = .ok ws) {s : String} :
    .str s ∈ ws ↔ .str s ∈ vs := by
  refine Result.foldlM_induct (fun done ws => .str s ∈ ws ↔ .str s ∈ done) h Iff.rfl ?_
  intro done ws v ws' ih hadd
  rw [mem_setAdd_str hadd, ih, List.mem_append, List.mem_singleton, eq_comm (a := v)]

theorem mem_sourceIds {existing : Option Dict} {specialistId : Value} {vs : List Value}
    (h : sourceIds existing specialistId = .ok vs) {s : String} :
    .str s ∈ vs ↔ (∃ record, existing = some record ∧ Flags record s) ∨ specialistId = .str s := by
  obtain ⟨old, hold, hadd⟩ := Result.bind_eq_ok.1 h
  rw [mem_setAdd_str hadd]
  cases existing with
  | none =>
    simp only [flaggedSet, Except.ok.injEq] at hold
    simp [← hold]
  | some record =>
    obtain ⟨ws, hws, hset⟩ := Result.bind_eq_ok.1 hold
    have hflags : Flags record s ↔ .str s ∈ ws :=
      ⟨fun ⟨us, hus, hs⟩ => by
        have : ws = us := by simpa [hus] using hws.symm
        exact this ▸ hs, fun hs => ⟨ws, hws, hs⟩⟩
    simp [mem_setOf_str hset, hflags]

/-! ### Exact grouping -/

theorem firstWins_rank {a b : Dict} {w : Bool} (h : firstWins a b = .ok w) :
    if w then NotBelow b a else NotBelow a b := by
  obtain ⟨m, hm, h⟩ := Result.bind_eq_ok.1 h
  obtain ⟨n, hn, h⟩ := Result.bind_eq_ok.1 h
  rw [rankOf_getD] at hm hn
  have hab : m ≤ n → NotBelow a b := fun hmn k hk => ⟨n, hn, by simp_all⟩
  have hba : n ≤ m → NotBelow b a := fun hnm k hk => ⟨m, hm, by simp_all⟩
  split_ifs at h with hne
  · simp only [Result.pure_eq_ok, Except.ok.injEq] at h
    cases w <;> simp only [decide_eq_true_eq, decide_eq_false_iff_not] at h
    · exact hab (by omega)
    · exact hba (by omega)
  · have hmn : m = n := not_not.1 hne
    cases w
    · exact hab hmn.le
    · exact hba hmn.ge

/-- The winner has the severity of the record or of the finding, whichever is higher. -/
theorem pickWinner_rank {existing : Option Dict} {specialistId : Value} {finding winner : Dict}
    {origin : Value}
    (h : pickWinner existing specialistId (Assoc.set finding "__origin" specialistId) =
      .ok (winner, origin)) :
    NotBelow finding winner ∧ ∀ record, existing = some record → NotBelow record winner := by
  have hstamp : NotBelow finding (Assoc.set finding "__origin" specialistId) :=
    .of_eq (by simp)
  cases existing with
  | none =>
    simp only [pickWinner, Except.ok.injEq, Prod.mk.injEq] at h
    exact ⟨h.1 ▸ hstamp, fun _ hr => nomatch hr⟩
  | some record =>
    obtain ⟨w, hw, h⟩ := Result.bind_eq_ok.1 h
    have hrank := firstWins_rank hw
    cases w <;> simp only [if_true, Bool.false_eq_true, if_false, Result.pure_eq_ok,
      Except.ok.injEq, Prod.mk.injEq] at h hrank <;> obtain ⟨rfl, -⟩ := h
    · exact ⟨hstamp, fun _ hr => by cases hr; exact hrank⟩
    · exact ⟨hstamp.trans hrank, fun _ hr => by cases hr; exact .of_eq rfl⟩

/-- **What one folding step does to `flagged_by` and the severity.** -/
theorem foldRecord_spec {existing : Option Dict} {specialistId : Value} {finding record' : Dict}
    (h : foldRecord existing specialistId finding = .ok record') :
    (∃ vs, record'.get "flagged_by" = .list vs ∧ ∀ s, .str s ∈ vs ↔
      (∃ record, existing = some record ∧ Flags record s) ∨ specialistId = .str s) ∧
    NotBelow finding record' ∧ ∀ record, existing = some record → NotBelow record record' := by
  obtain ⟨sources, hsources, h⟩ := Result.bind_eq_ok.1 h
  obtain ⟨⟨winner, origin⟩, hwin, h⟩ := Result.bind_eq_ok.1 h
  obtain ⟨vs, hvs, h⟩ := Result.bind_eq_ok.1 h
  simp only [Result.pure_eq_ok, Except.ok.injEq] at h
  have hsev : NotBelow winner record' := by
    refine .of_eq ?_
    rw [← h, Dict.get_set, Dict.get_set, if_neg (by decide), if_neg (by decide), Dict.get,
      Assoc.get?_without _ _ (by decide)]
    rfl
  obtain ⟨hf, hr⟩ := pickWinner_rank hwin
  refine ⟨⟨vs, ?_, fun s => ?_⟩, hf.trans hsev, fun record hrec => (hr record hrec).trans hsev⟩
  · rw [← h, Dict.get_set, Dict.get_set, if_neg (by decide), if_pos rfl]
  · rw [mem_of_sorted? hvs, mem_sourceIds hsources]

/-- The state of the grouping after the reports `done`. -/
structure GroupInv (rt : Runtime) (done : List (Value × Dict)) (merged : List (String × Dict)) :
    Prop where
  /-- Records are flagged by reporters only. -/
  flagged : ∀ key record, Assoc.get? merged key = some record →
    ∃ vs, record.get "flagged_by" = .list vs ∧
      ∀ s, .str s ∈ vs → ∃ finding, (.str s, finding) ∈ done
  /-- Every report is in the record of its key. -/
  lands : ∀ s finding, (.str s, finding) ∈ done →
    ∃ record, Assoc.get? merged (dedupKey rt finding) = some record ∧ Flags record s ∧
      NotBelow finding record

theorem GroupInv.absorb {done : List (Value × Dict)} {merged merged' : List (String × Dict)}
    {report : Value × Dict} (inv : GroupInv rt done merged)
    (h : CodeReview.absorb rt merged report = .ok merged') :
    GroupInv rt (done ++ [report]) merged' := by
  obtain ⟨record', hrec, h⟩ := Result.bind_eq_ok.1 h
  simp only [Result.pure_eq_ok, Except.ok.injEq] at h
  obtain ⟨⟨vs, hvs, hmem⟩, hfind, hold⟩ := foldRecord_spec hrec
  refine ⟨fun key record hget => ?_, fun s finding hdone => ?_⟩
  -- an id of the new record is one of the old record or that of the report
  · rw [← h, Assoc.get?_set] at hget
    split_ifs at hget with hkey
    · simp only [Option.some.injEq] at hget
      subst hget
      refine ⟨vs, hvs, ?_⟩
      intro s hs
      rcases (hmem s).1 hs with ⟨record, hex, hflag⟩ | hid
      · obtain ⟨ws, hws, hsub⟩ := inv.flagged _ _ hex
        obtain ⟨finding, hf⟩ := hsub s ((flags_of_list hws).1 hflag)
        exact ⟨finding, List.mem_append_left _ hf⟩
      · exact ⟨report.2, by rw [← hid]; simp⟩
    · obtain ⟨ws, hws, hsub⟩ := inv.flagged _ _ hget
      refine ⟨ws, hws, ?_⟩
      intro s hs
      obtain ⟨finding, hf⟩ := hsub s hs
      exact ⟨finding, List.mem_append_left _ hf⟩
  · rw [← h, Assoc.get?_set]
    rcases List.mem_append.1 hdone with hdone | hlast
    · obtain ⟨record, hget, hflag, hrank⟩ := inv.lands s finding hdone
      split_ifs with hkey
      · -- the record of the key is the one being replaced
        rw [← hkey] at hget
        exact ⟨record', rfl, (flags_of_list hvs).2 ((hmem s).2 (.inl ⟨record, hget, hflag⟩)),
          hrank.trans (hold record hget)⟩
      · exact ⟨record, hget, hflag, hrank⟩
    · obtain rfl := List.mem_singleton.1 hlast
      rw [if_pos rfl]
      exact ⟨record', rfl, (flags_of_list hvs).2 ((hmem s).2 (.inr rfl)), hfind⟩

/-- The grouping of all reports keeps the invariant. -/
theorem groupFindings_inv {outputs : List Value} {merged : List (String × Dict)}
    (h : groupFindings rt outputs = .ok merged) : GroupInv rt (reports outputs) merged :=
  Result.foldlM_induct (GroupInv rt) h ⟨by simp, by simp⟩
    fun _ _ _ _ inv hstep => inv.absorb hstep

theorem nodup_keys_groupFindings {outputs : List Value} {merged : List (String × Dict)}
    (h : groupFindings rt outputs = .ok merged) : (merged.map Prod.fst).Nodup := by
  refine Result.foldlM_induct (fun _ merged => (merged.map Prod.fst).Nodup) h List.nodup_nil ?_
  intro done merged report merged' hnodup hstep
  obtain ⟨record, -, hset⟩ := Result.bind_eq_ok.1 hstep
  simp only [Result.pure_eq_ok, Except.ok.injEq] at hset
  exact hset ▸ Assoc.nodup_keys_set hnodup _ _

/-! ### From records to entries -/

@[simp] theorem finishRecord_get (record : Dict) {k : String} (hk : k ≠ "__winner")
    (hw : k ≠ "winner") : (finishRecord record).get k = record.get k := by
  have hrest : Dict.get (Assoc.without record ["__winner"]) k = record.get k := by
    rw [Dict.get, Assoc.get?_without _ _ (by simpa using hk)]; rfl
  rw [finishRecord]
  split
  · exact hrest
  · rw [Dict.get_set, if_neg (Ne.symm hw), hrest]

theorem perm_of_sortFindings {xs ys : List Dict} (h : sortFindings rt xs = .ok ys) :
    ys.Perm xs := by
  obtain ⟨keyed, hkeyed, h⟩ := Result.bind_eq_ok.1 h
  obtain ⟨sorted, hsorted, h⟩ := Result.bind_eq_ok.1 h
  simp only [Result.pure_eq_ok, Except.ok.injEq] at h
  rw [← h, ← (Result.withKeys_eq_ok hkeyed).1]
  exact (perm_of_sorted? hsorted).map _

/-! ### The semantic merge -/

/-- The state of the grouping of the positions `done`. -/
structure PartitionInv (done : List ℕ) (groups : List (ℕ × List ℕ)) : Prop where
  /-- Every position is in a group. -/
  covers : ∀ i ∈ done, ∃ root members, Assoc.get? groups root = some members ∧ i ∈ members
  /-- A group has no other positions. -/
  only : ∀ root members, Assoc.get? groups root = some members → ∀ i ∈ members, i ∈ done

theorem PartitionInv.append {done : List ℕ} {groups : List (ℕ × List ℕ)}
    (inv : PartitionInv done groups) (i root : ℕ) :
    PartitionInv (done ++ [i])
      (Assoc.set groups root ((Assoc.get? groups root).getD [] ++ [i])) := by
  refine ⟨fun j hj => ?_, fun root' members hget j hj => ?_⟩
  · rcases List.mem_append.1 hj with hj | hj
    · obtain ⟨root', members, hget, hmem⟩ := inv.covers j hj
      by_cases hroot : root = root'
      · refine ⟨root, _, by rw [Assoc.get?_set, if_pos rfl], List.mem_append_left _ ?_⟩
        rwa [hroot, hget]
      · exact ⟨root', members, by rw [Assoc.get?_set, if_neg hroot, hget], hmem⟩
    · exact ⟨root, _, by rw [Assoc.get?_set, if_pos rfl], List.mem_append_right _ hj⟩
  · rw [Assoc.get?_set] at hget
    split_ifs at hget with hroot
    · simp only [Option.some.injEq] at hget
      rw [← hget] at hj
      rcases List.mem_append.1 hj with hj | hj
      · cases hold : Assoc.get? groups root with
        | none => simp [hold] at hj
        | some members' =>
          exact List.mem_append_left _ (inv.only root members' hold j (by simpa [hold] using hj))
      · exact List.mem_append_right _ hj
    · exact List.mem_append_left _ (inv.only root' members hget j hj)

/-- The groups by root are a cover of the positions below `n`. -/
theorem groupByRoot_inv (n : ℕ) (forest : UnionFind) :
    PartitionInv (List.range n) (groupByRoot n forest) := by
  suffices ∀ (is done : List ℕ) (s : UnionFind × List (ℕ × List ℕ)), PartitionInv done s.2 →
      PartitionInv (done ++ is) (is.foldl groupStep s).2 by
    exact this (List.range n) [] (forest, []) ⟨by simp, by simp⟩
  intro is
  induction is with
  | nil => intro done s inv; simpa using inv
  | cons i is ih =>
    intro done s inv
    have hstep := ih (done ++ [i]) (groupStep s i) (inv.append i (s.1.find i).1)
    rwa [List.append_assoc] at hstep

theorem nodup_keys_groupByRoot (n : ℕ) (forest : UnionFind) :
    ((groupByRoot n forest).map Prod.fst).Nodup := by
  suffices ∀ (is : List ℕ) (s : UnionFind × List (ℕ × List ℕ)), (s.2.map Prod.fst).Nodup →
      ((is.foldl groupStep s).2.map Prod.fst).Nodup by
    exact this (List.range n) (forest, []) List.nodup_nil
  intro is
  induction is with
  | nil => exact fun _ h => h
  | cons i is ih => exact fun s h => ih (groupStep s i) (Assoc.nodup_keys_set h _ _)

/-- The positions of a group have the group's root. -/
theorem root_of_mem_groupByRoot {n : ℕ} {forest : UnionFind} {root : ℕ} {members : List ℕ}
    (hget : Assoc.get? (groupByRoot n forest) root = some members) {i : ℕ} (hi : i ∈ members) :
    forest.root i = root := by
  suffices ∀ (is : List ℕ) (s : UnionFind × List (ℕ × List ℕ)), (∀ x, s.1.root x = forest.root x) →
      (∀ root members, Assoc.get? s.2 root = some members → ∀ i ∈ members, forest.root i = root) →
      ∀ root members, Assoc.get? (is.foldl groupStep s).2 root = some members →
        ∀ i ∈ members, forest.root i = root by
    exact this (List.range n) (forest, []) (fun _ => rfl) (fun _ _ h => by cases h) root members
      hget i hi
  intro is
  induction is with
  | nil => exact fun _ _ h => h
  | cons j is ih =>
    intro s hforest hs
    -- a step halves paths, which keeps every root, and files one position
    refine ih (groupStep s j) (fun x => ?_) fun root members hget i hi => ?_
    · rw [← hforest x]
      exact s.1.root_find j x
    · rw [groupStep, Assoc.get?_set] at hget
      split_ifs at hget with hroot
      · rw [← Option.some.inj hget] at hi
        rcases List.mem_append.1 hi with hi | hi
        · cases hold : Assoc.get? s.2 (s.1.find j).1 with
          | none => simp [hold] at hi
          | some members' => exact hroot ▸ hs _ members' hold i (by simpa [hold] using hi)
        · rw [List.mem_singleton.1 hi, ← hforest j]
          exact hroot
      · exact hs root members hget i hi

/-- Every position is in one of the merged groups. -/
theorem exists_mem_mergeGroups (rt : Runtime) (embed : Embed) {findings : List Dict} {i : ℕ}
    (hi : i < findings.length) : ∃ members ∈ mergeGroups rt embed findings, i ∈ members := by
  rw [mergeGroups]
  split_ifs
  · exact ⟨[i], List.mem_map.2 ⟨i, List.mem_range.2 hi, rfl⟩, List.mem_singleton_self i⟩
  · obtain ⟨root, members, hget, hmem⟩ :=
      (groupByRoot_inv findings.length _).covers i (List.mem_range.2 hi)
    exact ⟨members, List.mem_map.2 ⟨_, Assoc.mem_of_get? hget, rfl⟩, hmem⟩

/-- The merged groups have no other positions. -/
theorem lt_of_mem_mergeGroups {findings : List Dict} {members : List ℕ} {i : ℕ}
    (h : members ∈ mergeGroups rt embed findings) (hi : i ∈ members) : i < findings.length := by
  rw [mergeGroups] at h
  split_ifs at h
  · obtain ⟨j, hj, rfl⟩ := List.mem_map.1 h
    rw [List.mem_singleton.1 hi]
    exact List.mem_range.1 hj
  · obtain ⟨⟨root, members'⟩, hentry, rfl⟩ := List.mem_map.1 h
    have hget := Assoc.get?_of_mem (nodup_keys_groupByRoot _ _) hentry
    exact List.mem_range.1 ((groupByRoot_inv findings.length _).only root members' hget i hi)

/-- The members of a group are findings. -/
theorem member_of_mem_mergeGroups {findings : List Dict} {members : List ℕ}
    (h : members ∈ mergeGroups rt embed findings) :
    ∀ f ∈ members.map fun m => findings.getD m [], f ∈ findings := by
  intro f hf
  obtain ⟨i, hi, rfl⟩ := List.mem_map.1 hf
  have hlt := lt_of_mem_mergeGroups h hi
  rw [List.getD_eq_getElem?_getD, List.getElem?_eq_getElem hlt]
  exact List.getElem_mem hlt

/-- `max` returns one of the elements. -/
theorem maxBy_mem {α : Type} (gt : α → α → Bool) (first : α) (rest : List α) :
    maxBy gt first rest ∈ first :: rest := by
  induction rest generalizing first with
  | nil => exact List.mem_cons_self
  | cons a rest ih =>
    have := ih (if gt a first then a else first)
    rw [maxBy, List.foldl_cons]
    rcases List.mem_cons.1 this with h | h
    · rw [maxBy] at h
      rw [h]
      split_ifs <;> simp
    · exact List.mem_cons_of_mem _ (List.mem_cons_of_mem _ h)

/-- `max` returns an element at least as large as each, for an order that `gt` refines. -/
theorem le_maxBy {α κ : Type} [Preorder κ] (gt : α → α → Bool) (rank : α → κ)
    (first : α) (rest : List α)
    (h : ∀ a ∈ first :: rest, ∀ b ∈ first :: rest,
      (gt a b = true → rank b ≤ rank a) ∧ (gt a b = false → rank a ≤ rank b)) :
    ∀ a ∈ first :: rest, rank a ≤ rank (maxBy gt first rest) := by
  induction rest generalizing first with
  | nil => intro a ha; rw [List.mem_singleton.1 ha]; exact le_rfl
  | cons b rest ih =>
    intro a ha
    have hb := h b (by simp) first (by simp)
    have hmem : (if gt b first then b else first) ∈ [first, b] := by split_ifs <;> simp
    have hsub : (if gt b first then b else first) :: rest ⊆ first :: b :: rest :=
      List.cons_subset.2 ⟨(List.subset_append_left [first, b] rest) hmem,
        fun x hx => List.mem_cons_of_mem _ (List.mem_cons_of_mem _ hx)⟩
    have hnext := ih (if gt b first then b else first) fun x hx y hy => h x (hsub hx) y (hsub hy)
    rw [maxBy, List.foldl_cons]
    have hfirst : rank first ≤ rank (if gt b first then b else first) ∧
        rank b ≤ rank (if gt b first then b else first) := by
      cases hgt : gt b first
      · exact ⟨le_rfl, hb.2 hgt⟩
      · exact ⟨hb.1 hgt, le_rfl⟩
    rcases List.mem_cons.1 ha with rfl | ha
    · exact hfirst.1.trans (hnext _ List.mem_cons_self)
    · rcases List.mem_cons.1 ha with rfl | ha
      · exact hfirst.2.trans (hnext _ List.mem_cons_self)
      · exact hnext a (List.mem_cons_of_mem _ ha)

theorem mem_flagsOf {f : Dict} {ids : List String} (h : flagsOf f = .ok ids) {s : String} :
    s ∈ ids ↔ Flags f s := by
  obtain ⟨vs, hvs, rfl⟩ := Result.map_eq_ok.1 h
  rw [mem_strs]
  constructor
  · exact fun hs => ⟨vs, hvs, hs⟩
  · rintro ⟨ws, hws, hs⟩
    have : vs = ws := by simpa [hws] using hvs.symm
    exact this ▸ hs

/-- The reviewers of the merged entry are those of the members. -/
theorem mem_mergedFlags {fs : List Dict} {flags : List (List String)}
    (hflags : fs.mapM flagsOf = .ok flags) (s : String) :
    s ∈ sortedSet flags.flatten ↔ ∃ a ∈ fs, Flags a s := by
  rw [mem_sortedSet, List.mem_flatten]
  constructor
  · rintro ⟨ids, hids, hs⟩
    obtain ⟨a, ha, hfa⟩ := Result.exists_of_mapM_right hflags hids
    exact ⟨a, ha, (mem_flagsOf hfa).1 hs⟩
  · rintro ⟨a, ha, hs⟩
    obtain ⟨ids, hids, hfa⟩ := Result.exists_of_mapM_left hflags ha
    exact ⟨ids, hids, (mem_flagsOf hfa).2 hs⟩

theorem keyGt_rank {a b : ℕ × Double} :
    (keyGt a b = true → b.1 ≤ a.1) ∧ (keyGt a b = false → a.1 ≤ b.1) := by
  rw [keyGt]
  split_ifs with h
  · simp only [decide_eq_true_eq, decide_eq_false_iff_not]
    omega
  · have hab : a.1 = b.1 := not_not.1 h
    exact ⟨fun _ => hab.ge, fun _ => hab.le⟩

/-- **One merged group**: it is flagged by exactly those that flag a member, and at least as severe
as every member. -/
theorem mergeEntries_spec {fs : List Dict} {g : Dict} (h : mergeEntries rt fs = .ok g)
    (hne : fs ≠ []) :
    (∀ s, Flags g s ↔ ∃ f ∈ fs, Flags f s) ∧ ∀ f ∈ fs, NotBelow f g := by
  match fs, hne with
  | [f], _ =>
    simp only [mergeEntries, Except.ok.injEq] at h
    subst h
    simpa using NotBelow.of_eq rfl
  | f :: f' :: fs, _ =>
    obtain ⟨keyed, hkeyed, h⟩ := Result.bind_eq_ok.1 h
    obtain ⟨flags, hflags, h⟩ := Result.bind_eq_ok.1 h
    obtain ⟨confs, -, h⟩ := Result.bind_eq_ok.1 h
    simp only [Result.pure_eq_ok, Except.ok.injEq] at h
    obtain ⟨hsnd, hkey⟩ := Result.withKeys_eq_ok hkeyed
    -- the confidence and the count are set after the ids
    have hflag : g.get "flagged_by" = ofStrs (sortedSet flags.flatten) := by
      rw [← h, Dict.get_set, if_neg (by decide)]
      split_ifs
      · rw [Dict.get_set, if_neg (by decide), Dict.get_set, if_pos rfl]
      · rw [Dict.get_set, if_pos rfl]
    constructor
    · intro s
      rw [flags_of_ofStrs hflag, mem_mergedFlags hflags]
    · match keyed, hsnd with
      | k :: ks, hsnd =>
        have hrep : g.get "severity" =
            (maxBy (fun a b => keyGt a.1 b.1) k ks).2.get "severity" := by
          rw [← h, Dict.get_set, if_neg (by decide)]
          split_ifs
          · rw [Dict.get_set, if_neg (by decide), Dict.get_set, if_neg (by decide)]
          · rw [Dict.get_set, if_neg (by decide)]
        have hrank : ∀ ka ∈ k :: ks, rankOf (ka.2.get "severity") = .ok ka.1.1 := by
          intro ka hka
          obtain ⟨n, hn, hrest⟩ := Result.bind_eq_ok.1 (hkey ka hka)
          obtain ⟨c, -, hc⟩ := Result.bind_eq_ok.1 hrest
          simp only [Result.pure_eq_ok, Except.ok.injEq] at hc
          rw [← rankOf_getD, hn, ← hc]
        intro a ha m hm
        rw [← hsnd] at ha
        obtain ⟨ka, hka, rfl⟩ := List.mem_map.1 ha
        -- the representative is a member of the greatest key, so also of the greatest rank
        have hmax := maxBy_mem (fun a b : (ℕ × Double) × Dict => keyGt a.1 b.1) k ks
        have hle := le_maxBy (fun a b : (ℕ × Double) × Dict => keyGt a.1 b.1) (fun ka => ka.1.1)
          k ks (fun _ _ _ _ => keyGt_rank) ka hka
        have hmka : m = ka.1.1 := by
          have := hrank ka hka
          rw [hm] at this
          simpa using this
        exact ⟨_, by rw [hrep]; exact hrank _ hmax, hmka ▸ hle⟩

/-! ### The collected entries -/

theorem tagFinding_get {threshold : Double} {f entry : Dict}
    (h : tagFinding rt threshold f = .ok entry) {k : String} (hc : k ≠ "corroboration")
    (hp : k ≠ "primary") : entry.get k = f.get k := by
  obtain ⟨corroboration, -, h⟩ := Result.bind_eq_ok.1 h
  obtain ⟨primary, -, h⟩ := Result.bind_eq_ok.1 h
  simp only [Result.pure_eq_ok, Except.ok.injEq] at h
  rw [← h, Dict.get_set, if_neg (Ne.symm hp), Dict.get_set, if_neg (Ne.symm hc)]

/-- The finding's record is at a position whose merged group becomes the entry. -/
def EndsIn (rt : Runtime) (embed : Embed) (outputs : List Value) (finding entry : Dict) : Prop :=
  ∃ merged record sorted i members g threshold,
    groupFindings rt outputs = .ok merged ∧
    Assoc.get? merged (dedupKey rt finding) = some record ∧
    sortFindings rt (merged.map fun kr => finishRecord kr.2) = .ok sorted ∧
    sorted[i]? = some (finishRecord record) ∧
    members ∈ mergeGroups rt embed sorted ∧ i ∈ members ∧
    mergeGroup rt sorted members = .ok g ∧ tagFinding rt threshold g = .ok entry

theorem flags_congr {f g : Dict} (h : f.get "flagged_by" = g.get "flagged_by") {s : String} :
    Flags f s ↔ Flags g s := by rw [Flags, Flags, flaggedBy, flaggedBy, h]

/-- The stages of a collection that returned. -/
theorem collectFindings_stages {env : Dict} {c : Collected}
    (h : collectFindings rt embed env = .ok c) :
    ∃ merged sorted entries threshold,
      groupFindings rt (ensureList (env.get "specialist_outputs")) = .ok merged ∧
      sortFindings rt (merged.map fun kr => finishRecord kr.2) = .ok sorted ∧
      (∀ g, g ∈ entries ↔
        ∃ members ∈ mergeGroups rt embed sorted, mergeGroup rt sorted members = .ok g) ∧
      (∀ members ∈ mergeGroups rt embed sorted, ∃ g ∈ entries,
        mergeGroup rt sorted members = .ok g) ∧
      (entries : List Dict).mapM (tagFinding rt threshold) = .ok c.findings := by
  obtain ⟨entries, hentries, h⟩ := Result.bind_eq_ok.1 h
  obtain ⟨threshold, -, h⟩ := Result.bind_eq_ok.1 h
  obtain ⟨findings, hfindings, h⟩ := Result.bind_eq_ok.1 h
  obtain ⟨counts, -, h⟩ := Result.bind_eq_ok.1 h
  simp only [Result.pure_eq_ok, Except.ok.injEq] at h
  obtain ⟨merged, hmerged, hentries⟩ := Result.bind_eq_ok.1 hentries
  obtain ⟨sorted, hsorted, hentries⟩ := Result.bind_eq_ok.1 hentries
  obtain ⟨grouped, hgrouped, hentries⟩ := Result.bind_eq_ok.1 hentries
  have hperm := perm_of_sortFindings hentries
  refine ⟨merged, sorted, entries, threshold, hmerged, hsorted, fun g => ?_, fun ms hms => ?_, ?_⟩
  · rw [hperm.mem_iff]
    exact ⟨fun hg => Result.exists_of_mapM_right hgrouped hg, fun ⟨ms, hms, hg⟩ => by
      obtain ⟨g', hg', heq⟩ := Result.exists_of_mapM_left hgrouped hms
      rw [hg] at heq
      simp only [Except.ok.injEq] at heq
      exact heq ▸ hg'⟩
  · obtain ⟨g, hg, heq⟩ := Result.exists_of_mapM_left hgrouped hms
    exact ⟨g, hperm.mem_iff.2 hg, heq⟩
  · rw [← h]; exact hfindings

/-- The entries have a `flagged_by` that can be iterated. -/
theorem collectFindings_flaggedBy_ok {env : Dict} {c : Collected}
    (h : collectFindings rt embed env = .ok c) {entry : Dict} (hentry : entry ∈ c.findings) :
    Result.Ok (flaggedBy entry).iter := by
  obtain ⟨_, _, entries, threshold, -, -, -, -, htag⟩ := collectFindings_stages h
  obtain ⟨g, -, hge⟩ := Result.exists_of_mapM_right htag hentry
  rw [flaggedBy, tagFinding_get hge (by decide) (by decide)]
  obtain ⟨n, hn, -⟩ := Result.bind_eq_ok.1 hge
  obtain ⟨xs, hxs, -⟩ := Result.map_eq_ok.1 hn
  exact ⟨xs, hxs⟩

/-- **An entry is flagged only by specialists that reported a finding.** -/
theorem collectFindings_flags {env : Dict} {c : Collected}
    (h : collectFindings rt embed env = .ok c) {entry : Dict} (hentry : entry ∈ c.findings)
    {s : String} (hs : Flags entry s) :
    ∃ finding, (.str s, finding) ∈ reports (ensureList (env.get "specialist_outputs")) := by
  obtain ⟨merged, sorted, entries, threshold, hmerged, hsorted, hmem, -, htag⟩ :=
    collectFindings_stages h
  obtain ⟨g, hg, hge⟩ := Result.exists_of_mapM_right htag hentry
  have hgs : Flags g s :=
    (flags_congr (tagFinding_get hge (by decide) (by decide))).1 hs
  obtain ⟨members, hgroup, hmerge⟩ := (hmem g).1 hg
  obtain ⟨i, hi, hfs⟩ : ∃ i ∈ members, Flags (sorted.getD i []) s := by
    -- a group of none would be flagged by nobody
    have hne : members.map (fun m => sorted.getD m []) ≠ [] := by
      rintro hnil
      rw [mergeGroup, hnil] at hmerge
      simp only [mergeEntries, Except.ok.injEq] at hmerge
      obtain ⟨xs, hxs, hsx⟩ := hgs
      rw [← hmerge] at hxs
      simp only [flaggedBy, Dict.get_nil, Value.or, Value.truthy_none, Bool.false_eq_true, if_false,
        Value.iter_list, Except.ok.injEq] at hxs
      simp [← hxs] at hsx
    obtain ⟨f, hf, hfs⟩ := ((mergeEntries_spec hmerge hne).1 s).1 hgs
    obtain ⟨i, hi, rfl⟩ := List.mem_map.1 hf
    exact ⟨i, hi, hfs⟩
  have hlt := lt_of_mem_mergeGroups hgroup hi
  have hrec : sorted.getD i [] ∈ merged.map fun kr => finishRecord kr.2 := by
    rw [← (perm_of_sortFindings hsorted).mem_iff, List.getD_eq_getElem?_getD,
      List.getElem?_eq_getElem hlt]
    exact List.getElem_mem hlt
  obtain ⟨⟨key, record⟩, hkr, hfin⟩ := List.mem_map.1 hrec
  have hget := Assoc.get?_of_mem (nodup_keys_groupFindings hmerged) hkr
  obtain ⟨vs, hvs, hsub⟩ := (groupFindings_inv hmerged).flagged key record hget
  refine hsub s ((flags_of_list hvs).1 ?_)
  exact (flags_congr (by rw [← hfin, finishRecord_get _ (by decide) (by decide)])).1 hfs

/-- **Every report ends in an entry** that its specialist flags and that is at least as severe. -/
theorem collectFindings_endsIn {env : Dict} {c : Collected}
    (h : collectFindings rt embed env = .ok c) {s : String} {finding : Dict}
    (hreport : (.str s, finding) ∈ reports (ensureList (env.get "specialist_outputs"))) :
    ∃ entry ∈ c.findings,
      EndsIn rt embed (ensureList (env.get "specialist_outputs")) finding entry ∧
      Flags entry s ∧ NotBelow finding entry := by
  obtain ⟨merged, sorted, entries, threshold, hmerged, hsorted, -, hgroups, htag⟩ :=
    collectFindings_stages h
  obtain ⟨record, hget, hflag, hrank⟩ := (groupFindings_inv hmerged).lands s finding hreport
  have hin : finishRecord record ∈ sorted :=
    (perm_of_sortFindings hsorted).mem_iff.2
      (List.mem_map.2 ⟨_, Assoc.mem_of_get? hget, rfl⟩)
  obtain ⟨i, hi⟩ := List.mem_iff_getElem?.1 hin
  have hlt : i < sorted.length := (List.getElem?_eq_some_iff.1 hi).1
  have hgetD : sorted.getD i [] = finishRecord record := by
    rw [List.getD_eq_getElem?_getD, hi]; rfl
  obtain ⟨members, hgroup, him⟩ := exists_mem_mergeGroups rt embed hlt
  obtain ⟨g, hg, hmerge⟩ := hgroups members hgroup
  obtain ⟨entry, hentry, hge⟩ := Result.exists_of_mapM_left htag hg
  have hpos : sorted.getD i [] ∈ members.map fun m => sorted.getD m [] :=
    List.mem_map.2 ⟨i, him, rfl⟩
  obtain ⟨hflags, hranks⟩ := mergeEntries_spec hmerge (List.ne_nil_of_mem hpos)
  refine ⟨entry, hentry, ⟨merged, record, sorted, i, members, g, threshold, hmerged, hget,
    hsorted, hi, hgroup, him, hmerge, hge⟩, ?_, ?_⟩
  · refine (flags_congr (tagFinding_get hge (by decide) (by decide))).2 ((hflags s).2 ⟨_, hpos, ?_⟩)
    rw [hgetD]
    exact (flags_congr (finishRecord_get _ (by decide) (by decide))).2 hflag
  · have hrec : NotBelow record (sorted.getD i []) :=
      .of_eq (by rw [hgetD, finishRecord_get _ (by decide) (by decide)])
    exact ((hrank.trans hrec).trans (hranks _ hpos)).trans
      (.of_eq (tagFinding_get hge (by decide) (by decide)))

end CodeReview
