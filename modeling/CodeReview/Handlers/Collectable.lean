import CodeReview.Handlers.FlaggedBy

/-!
# When the collector returns

The collector reads the severity, the file and the confidence of a finding, and a field
`__winner` of its own that a finding may carry along.  Where these can be read, no stage raises.

* `Collectable` is the condition on a finding, `Entry` what every stage keeps;
* `foldRecord_ok`, `mergeEntries_ok`, `tagFinding_ok` : the single steps, with what they keep;
* `collectFindings_ok` : **the collector returns on collectable findings**, and each entry keeps
  the fields of one of them.
-/

namespace CodeReview

open Py

variable {rt : Runtime} {embed : Embed}

/-- `v or ""` is a string. -/
def Textual (v : Value) : Prop := ∃ s, v.or (.str "") = .str s

/-- The fields that the collector reads can be read. -/
structure Collectable (rt : Runtime) (finding : Dict) : Prop where
  severity : (finding.get "severity").hashable = true
  file : Textual (finding.get "file")
  confidence : Result.Ok (confidence rt finding)
  winner : Textual (finding.get "__winner")

/-- What every stage keeps of a record or an entry. -/
structure Entry (rt : Runtime) (f : Dict) : Prop where
  severity : (f.get "severity").hashable = true
  file : Textual (f.get "file")
  confidence : Result.Ok (confidence rt f)
  flagged : ∃ ids, f.get "flagged_by" = ofStrs ids

/-! ### Readers -/

theorem rankOf_ok_iff {v : Value} : Result.Ok (rankOf v) ↔ v.hashable = true := by
  unfold rankOf
  split_ifs with h
  · simp [h]
  · simp [h]

theorem hashable_getD (f : Dict) :
    (f.getD "severity" (.str "")).hashable = (f.get "severity").hashable := by
  rw [Dict.getD, Dict.get]
  cases Assoc.get? f "severity" <;> rfl

theorem rankOf_getD_ok {f : Dict} (h : (f.get "severity").hashable = true) :
    Result.Ok (rankOf (f.getD "severity" (.str ""))) := by
  rw [rankOf_ok_iff, hashable_getD]
  exact h

theorem textual_str (s : String) : Textual (.str s) := by
  by_cases h : s = ""
  · exact ⟨"", by rw [h]; rfl⟩
  · exact ⟨s, by rw [Value.or_of_truthy _ (by simpa using h)]⟩

/-- A string or a falsy value, where the alternative is textual. -/
theorem Textual.or {v w : Value} (hv : Textual v) (hw : Textual w) : Textual (v.or w) := by
  cases h : v.truthy with
  | true => rwa [Value.or_of_truthy _ h]
  | false => rwa [Value.or_of_falsy _ h]

/-- What is read of a record or a finding does not depend on its other fields. -/
theorem confidence_congr {f g : Dict} (h : g.get "confidence" = f.get "confidence") :
    confidence rt g = confidence rt f := by rw [confidence, confidence, h]

/-! ### Exact grouping -/

/-- A record of the grouping: an entry with its winner still in its private field. -/
structure Record (rt : Runtime) (record : Dict) : Prop extends Entry rt record where
  winner : ∃ s, record.get "__winner" = .str s
  origin : record.get "__origin" = .none

/-- `set.add` of a string to strings. -/
def addStr (ids : List String) (s : String) : List String := if s ∈ ids then ids else ids ++ [s]

theorem setAdd_strs (ids : List String) (s : String) :
    setAdd (ids.map .str) (.str s) = .ok ((addStr ids s).map .str) := by
  have hany : ((ids.map Value.str).any fun v => v.eqv (.str s)) = decide (s ∈ ids) := by
    rw [Bool.eq_iff_iff, List.any_eq_true, decide_eq_true_iff]
    constructor
    · rintro ⟨v, hv, heq⟩
      rw [(Value.eqv_str v s).1 heq] at hv
      simpa using hv
    · exact fun h => ⟨.str s, List.mem_map_of_mem h, (Value.eqv_str _ s).2 rfl⟩
  have hhash : (Value.str s).hashable = true := rfl
  rw [setAdd, if_pos hhash, hany, addStr]
  by_cases h : s ∈ ids
  · simp [h]
  · simp [h]

theorem setOf_strs (ids : List String) :
    setOf (ids.map .str) = .ok ((ids.foldl addStr []).map .str) := by
  have hfold (acc : List String) :
      (ids.map Value.str).foldlM setAdd (acc.map .str) =
        .ok ((ids.foldl addStr acc).map .str) := by
    induction ids generalizing acc with
    | nil => rfl
    | cons s ids ih =>
      rw [List.map_cons, List.foldlM_cons, setAdd_strs, Result.ok_bind, ih, List.foldl_cons]
  exact hfold []

theorem flaggedBy_iter {f : Dict} {ids : List String} (h : f.get "flagged_by" = ofStrs ids) :
    (flaggedBy f).iter = .ok (ids.map .str) := by
  rw [flaggedBy, h]
  cases ids <;> rfl

/-- The ids of a record's reporters. -/
theorem sourceIds_none (s : String) : sourceIds none (.str s) = .ok [.str s] := rfl

theorem sourceIds_some {record : Dict} {ids : List String}
    (h : record.get "flagged_by" = ofStrs ids) (s : String) :
    sourceIds (some record) (.str s) = .ok ((addStr (ids.foldl addStr []) s).map .str) := by
  rw [sourceIds, flaggedSet, flaggedBy_iter h, Result.ok_bind, setOf_strs, Result.ok_bind,
    setAdd_strs]

theorem sourceIds_ok {existing : Option Dict} (hexisting : ∀ r, existing = some r → Record rt r)
    (s : String) : ∃ ids : List String, sourceIds existing (.str s) = .ok (ids.map .str) := by
  cases existing with
  | none => exact ⟨[s], rfl⟩
  | some record =>
    obtain ⟨ids, hids⟩ := (hexisting record rfl).flagged
    exact ⟨_, sourceIds_some hids s⟩

/-- The origin of a textual winner and a textual origin is a string. -/
theorem firstWins_ok {a b : Dict} (ha : (a.get "severity").hashable = true)
    (hb : (b.get "severity").hashable = true)
    (haw : Textual ((a.get "__winner").or (a.get "__origin")))
    (hbw : Textual ((b.get "__winner").or (b.get "__origin"))) : Result.Ok (firstWins a b) := by
  obtain ⟨m, hm⟩ := rankOf_getD_ok ha
  obtain ⟨n, hn⟩ := rankOf_getD_ok hb
  obtain ⟨s, hs⟩ := haw
  obtain ⟨t, ht⟩ := hbw
  rw [firstWins, hm, Result.ok_bind, hn, Result.ok_bind]
  split_ifs
  · exact ⟨_, rfl⟩
  · simp only [hs, ht]
    exact Value.le?_str_ok s t

/-- The winner that is picked, with an origin that is a string or falls back to one. -/
theorem pickWinner_ok {existing : Option Dict} (hexisting : ∀ r, existing = some r → Record rt r)
    {s : String} {finding : Dict} (hfinding : Collectable rt finding) :
    ∃ winner origin, pickWinner existing (.str s) (Assoc.set finding "__origin" (.str s)) =
        .ok (winner, origin) ∧
      (winner = Assoc.set finding "__origin" (.str s) ∨ existing = some winner) ∧
      ∃ w, origin.or (.str s) = .str w := by
  have hself : ∃ w, (Value.str s).or (.str s) = .str w := by
    unfold Value.or
    split_ifs <;> exact ⟨s, rfl⟩
  cases existing with
  | none => exact ⟨_, _, rfl, .inl rfl, hself⟩
  | some record =>
    have hrecord := hexisting record rfl
    obtain ⟨w, hw⟩ := hrecord.winner
    have hstamped (k : String) (hk : k ≠ "__origin") :
        Dict.get (Assoc.set finding "__origin" (.str s)) k = finding.get k := by
      rw [Dict.get_set, if_neg (Ne.symm hk)]
    have hwins : Result.Ok (firstWins record (Assoc.set finding "__origin" (.str s))) := by
      refine firstWins_ok hrecord.severity ?_ ?_ ?_
      · rw [hstamped _ (by decide)]
        exact hfinding.severity
      · rw [hw, hrecord.origin]
        exact (textual_str w).or ⟨"", rfl⟩
      · rw [hstamped _ (by decide), Dict.get_set, if_pos rfl]
        exact hfinding.winner.or (textual_str s)
    -- either the finding at hand wins, or the record keeps its winner
    obtain ⟨b, hb⟩ := hwins
    rw [pickWinner, hb, Result.ok_bind]
    cases b with
    | false => exact ⟨_, _, rfl, .inl rfl, hself⟩
    | true =>
      refine ⟨_, _, rfl, .inr rfl, ?_⟩
      rw [hw, hrecord.origin]
      cases htruthy : (Value.str w).truthy with
      | true => exact ⟨w, by rw [Value.or_of_truthy _ htruthy, Value.or_of_truthy _ htruthy]⟩
      | false => exact ⟨s, by rw [Value.or_of_falsy _ htruthy]; rfl⟩

/-- The fields that the stages write. -/
def ownFields : List String :=
  ["flagged_by", "__winner", "__origin", "winner", "confidence", "merged_count", "corroboration",
    "primary"]

/-- The entry has the fields of the finding, but for those that the stages write. -/
def SameFields (f g : Dict) : Prop := ∀ k ∉ ownFields, Assoc.get? g k = Assoc.get? f k

theorem SameFields.refl (f : Dict) : SameFields f f := fun _ _ => rfl

theorem SameFields.trans {f g h : Dict} (hfg : SameFields f g) (hgh : SameFields g h) :
    SameFields f h := fun k hk => (hgh k hk).trans (hfg k hk)

theorem SameFields.get {f g : Dict} (h : SameFields f g) {k : String} (hk : k ∉ ownFields) :
    g.get k = f.get k := by
  rw [Dict.get, h k hk]
  rfl

theorem SameFields.set {f g : Dict} (h : SameFields f g) {k : String} (hk : k ∈ ownFields)
    (v : Value) : SameFields f (Assoc.set g k v) := by
  intro k' hk'
  have hne : k ≠ k' := fun e => hk' (e ▸ hk)
  rw [Assoc.get?_set, if_neg hne]
  exact h k' hk'

theorem SameFields.without {f g : Dict} (h : SameFields f g) {ks : List String}
    (hks : ∀ k ∈ ks, k ∈ ownFields) : SameFields f (Assoc.without g ks) := by
  intro k hk
  rw [Assoc.get?_without _ _ fun hmem => hk (hks k hmem)]
  exact h k hk

theorem SameFields.severity {f g : Dict} (h : SameFields f g) :
    g.get "severity" = f.get "severity" := h.get (by decide)

theorem SameFields.file {f g : Dict} (h : SameFields f g) : g.get "file" = f.get "file" :=
  h.get (by decide)

/-- The record that the winner of a fold becomes. -/
def closeRecord (winner : Dict) (flagged : List String) (origin : Value) : Dict :=
  Assoc.set (Assoc.set (Assoc.without winner ["__origin", "__winner"]) "flagged_by"
    (ofStrs flagged)) "__winner" origin

theorem get_closeRecord {winner : Dict} {flagged : List String} {origin : Value} {k : String}
    (hk : k ∉ ["flagged_by", "__winner", "__origin"]) :
    (closeRecord winner flagged origin).get k = winner.get k := by
  simp only [List.mem_cons, List.not_mem_nil, or_false, not_or] at hk
  have hwithout : k ∉ ["__origin", "__winner"] := by simp [hk.2.1, hk.2.2]
  rw [closeRecord, Dict.get_set, if_neg (Ne.symm hk.2.1), Dict.get_set, if_neg (Ne.symm hk.1),
    Dict.get, Assoc.get?_without _ _ hwithout]
  rfl

theorem sameFields_closeRecord (winner : Dict) (flagged : List String) (origin : Value) :
    SameFields winner (closeRecord winner flagged origin) :=
  (((SameFields.refl winner).without (by decide)).set (by decide) _).set (by decide) _

theorem winner_closeRecord (winner : Dict) (flagged : List String) (origin : Value) :
    (closeRecord winner flagged origin).get "__winner" = origin := by
  rw [closeRecord, Dict.get_set, if_pos rfl]

theorem flagged_closeRecord (winner : Dict) (flagged : List String) (origin : Value) :
    (closeRecord winner flagged origin).get "flagged_by" = ofStrs flagged := by
  rw [closeRecord, Dict.get_set, if_neg (by decide), Dict.get_set, if_pos rfl]

/-- The stamp of a report is gone. -/
theorem origin_closeRecord (winner : Dict) (flagged : List String) (origin : Value) :
    (closeRecord winner flagged origin).get "__origin" = .none := by
  rw [closeRecord, Dict.get_set, if_neg (by decide), Dict.get_set, if_neg (by decide), Dict.get]
  have hnone : Assoc.get? (Assoc.without winner ["__origin", "__winner"]) "__origin" = none := by
    refine Assoc.get?_eq_none_iff.2 fun hmem => ?_
    obtain ⟨kv, hkv, hkey⟩ := List.mem_map.1 hmem
    have hout := (List.mem_filter.1 hkv).2
    rw [hkey] at hout
    exact absurd hout (by decide)
  rw [hnone]
  rfl

/-- A record that is closed over the fields of a collectable winner. -/
theorem record_closeRecord {winner : Dict} (hseverity : (winner.get "severity").hashable = true)
    (hfile : Textual (winner.get "file")) (hconfidence : Result.Ok (confidence rt winner))
    (flagged : List String) (w : String) : Record rt (closeRecord winner flagged (.str w)) where
  severity := by rwa [get_closeRecord (by decide)]
  file := by rwa [get_closeRecord (by decide)]
  confidence := by rwa [confidence_congr (get_closeRecord (by decide))]
  flagged := ⟨flagged, flagged_closeRecord ..⟩
  winner := ⟨w, winner_closeRecord ..⟩
  origin := origin_closeRecord ..

/-- One finding is folded into a record without raising; the record keeps the fields of the old
record or of the finding. -/
theorem foldRecord_ok {existing : Option Dict} (hexisting : ∀ r, existing = some r → Record rt r)
    {s : String} {finding : Dict} (hfinding : Collectable rt finding) :
    ∃ record, foldRecord existing (.str s) finding = .ok record ∧ Record rt record ∧
      (SameFields finding record ∨ ∃ r, existing = some r ∧ SameFields r record) := by
  obtain ⟨ids, hids⟩ := sourceIds_ok hexisting s
  obtain ⟨winner, origin, hpick, hwinner, w, hw⟩ := pickWinner_ok hexisting (s := s) hfinding
  have hfold : foldRecord existing (.str s) finding =
      .ok (closeRecord winner (ids.insertionSort (· ≤ ·)) (origin.or (.str s))) := by
    rw [foldRecord, hids, Result.ok_bind, hpick, Result.ok_bind]
    simp only [sorted?_strs, Result.ok_bind]
    rfl
  rw [hw] at hfold
  refine ⟨_, hfold, ?_⟩
  rcases hwinner with rfl | hwinner
  · have hget (k : String) (hk : k ≠ "__origin") :
        Dict.get (Assoc.set finding "__origin" (.str s)) k = finding.get k := by
      rw [Dict.get_set, if_neg (Ne.symm hk)]
    refine ⟨record_closeRecord ?_ ?_ ?_ _ w, .inl ?_⟩
    · rw [hget _ (by decide)]
      exact hfinding.severity
    · rw [hget _ (by decide)]
      exact hfinding.file
    · rw [confidence_congr (hget _ (by decide))]
      exact hfinding.confidence
    · have hstamped : SameFields finding (Assoc.set finding "__origin" (.str s)) :=
        (SameFields.refl finding).set (by decide) _
      exact hstamped.trans (sameFields_closeRecord _ _ _)
  · have hrecord := hexisting winner hwinner
    exact ⟨record_closeRecord hrecord.severity hrecord.file hrecord.confidence _ w,
      .inr ⟨winner, hwinner, sameFields_closeRecord _ _ _⟩⟩

/-- The grouping returns; each record keeps the fields of a reported finding of its key. -/
theorem groupFindings_ok {outputs : List Value}
    (h : ∀ r ∈ reports outputs, (∃ s, r.1 = .str s) ∧ Collectable rt r.2) :
    ∃ merged, groupFindings rt outputs = .ok merged ∧
      ∀ key record, Assoc.get? merged key = some record → Record rt record ∧
        ∃ r ∈ reports outputs, dedupKey rt r.2 = key ∧ SameFields r.2 record := by
  refine Result.foldlM_ok (fun merged : List (String × Dict) =>
    ∀ key record, Assoc.get? merged key = some record → Record rt record ∧
      ∃ r ∈ reports outputs, dedupKey rt r.2 = key ∧ SameFields r.2 record)
    (fun key record hget => by cases hget) ?_
  intro merged r hr inv
  obtain ⟨⟨s, hs⟩, hcollectable⟩ := h r hr
  obtain ⟨record, hfold, hrecord, hsame⟩ :=
    foldRecord_ok (fun existing hexisting => (inv _ existing hexisting).1) (s := s) hcollectable
  refine ⟨Assoc.set merged (dedupKey rt r.2) record, ?_, fun key record' hget => ?_⟩
  · rw [absorb, hs, hfold]
    rfl
  · rw [Assoc.get?_set] at hget
    split_ifs at hget with hkey
    · obtain rfl := Option.some.inj hget
      refine ⟨hrecord, ?_⟩
      rcases hsame with hsame | ⟨old, hold, hsame⟩
      · exact ⟨r, hr, hkey, hsame⟩
      · obtain ⟨-, r', hr', hkey', hsame'⟩ := inv _ old hold
        exact ⟨r', hr', hkey'.trans hkey, hsame'.trans hsame⟩
    · exact inv key record' hget

/-! ### Sorting and merging -/

theorem sameFields_finishRecord (record : Dict) : SameFields record (finishRecord record) := by
  have hrest : SameFields record (Assoc.without record ["__winner"]) :=
    (SameFields.refl record).without (by decide)
  unfold finishRecord
  simp only
  split
  · exact hrest
  · exact hrest.set (by decide) _

theorem Record.finish {record : Dict} (h : Record rt record) : Entry rt (finishRecord record) where
  severity := by
    rw [finishRecord_get _ (by decide) (by decide)]
    exact h.severity
  file := by
    rw [finishRecord_get _ (by decide) (by decide)]
    exact h.file
  confidence := by
    rw [confidence_congr (finishRecord_get _ (by decide) (by decide))]
    exact h.confidence
  flagged := by
    rw [finishRecord_get _ (by decide) (by decide)]
    exact h.flagged

/-- Entries are sorted without raising. -/
theorem sortFindings_ok {fs : List Dict} (h : ∀ f ∈ fs, Entry rt f) :
    Result.Ok (sortFindings rt fs) := by
  have hkeys : ∀ f ∈ fs, Result.Ok (sortKey rt f) := fun f hf => by
    obtain ⟨rank, hrank⟩ := rankOf_getD_ok (h f hf).severity
    exact ⟨_, by rw [sortKey, hrank]; rfl⟩
  obtain ⟨keyed, hkeyed⟩ := Result.withKeys_ok hkeys
  obtain ⟨hmap, hkey⟩ := Result.withKeys_eq_ok hkeyed
  have hfile : ∀ ka ∈ keyed, ∃ s, ka.1.file = .str s := by
    intro ka hka
    have hmem : ka.2 ∈ fs := hmap ▸ List.mem_map_of_mem hka
    obtain ⟨s, hs⟩ := (h _ hmem).file
    obtain ⟨rank, -, hrest⟩ := Result.bind_eq_ok.1 (hkey ka hka)
    obtain hkey' := Except.ok.inj hrest
    exact ⟨s, by rw [← hkey']; exact hs⟩
  have hcomparable : ∀ a ∈ keyed, ∀ b ∈ keyed, Result.Ok (SortKey.lt? a.1 b.1) := by
    intro a ha b hb
    obtain ⟨s, hs⟩ := hfile a ha
    obtain ⟨t, ht⟩ := hfile b hb
    unfold SortKey.lt?
    split_ifs
    · exact ⟨_, rfl⟩
    · rw [hs, ht]
      exact ⟨_, Value.lt?_str s t⟩
    · exact ⟨_, rfl⟩
    · exact ⟨_, rfl⟩
  exact ⟨_, by rw [sortFindings, hkeyed, Result.ok_bind, sorted?_ok hcomparable]; rfl⟩

theorem flagsOf_ok {f : Dict} (h : Entry rt f) : Result.Ok (flagsOf f) := by
  obtain ⟨ids, hids⟩ := h.flagged
  exact ⟨_, by rw [flagsOf, flaggedBy_iter hids]; rfl⟩

theorem repKey_ok {f : Dict} (h : Entry rt f) : Result.Ok (repKey rt f) := by
  obtain ⟨rank, hrank⟩ := rankOf_getD_ok h.severity
  obtain ⟨conf, hconf⟩ := h.confidence
  exact ⟨(rank, conf), by rw [repKey, hrank, Result.ok_bind, hconf]; rfl⟩

/-- The confidence that the merge writes is one. -/
theorem confidence_float {f : Dict} {x : Double} (h : f.get "confidence" = .float x) :
    Result.Ok (confidence rt f) := by
  rw [confidence, h]
  unfold Value.or
  split_ifs <;> exact ⟨_, rfl⟩

/-- The entry that a representative becomes. -/
def mergedEntry (rep : Dict) (flagged : List String) (conf : Double) (count : ℕ) : Dict :=
  let out := Assoc.set rep "flagged_by" (ofStrs flagged)
  let out := if conf.truthy then Assoc.set out "confidence" (.float conf) else out
  Assoc.set out "merged_count" (.int count)

section

variable (rep : Dict) (flagged : List String) (conf : Double) (count : ℕ)

theorem get?_mergedEntry {k : String} (hk : k ∉ ["flagged_by", "confidence", "merged_count"]) :
    Assoc.get? (mergedEntry rep flagged conf count) k = Assoc.get? rep k := by
  simp only [List.mem_cons, List.not_mem_nil, or_false, not_or] at hk
  rw [mergedEntry, Assoc.get?_set, if_neg (Ne.symm hk.2.2)]
  split_ifs
  · rw [Assoc.get?_set, if_neg (Ne.symm hk.2.1), Assoc.get?_set, if_neg (Ne.symm hk.1)]
  · rw [Assoc.get?_set, if_neg (Ne.symm hk.1)]

theorem get_mergedEntry {k : String} (hk : k ∉ ["flagged_by", "confidence", "merged_count"]) :
    (mergedEntry rep flagged conf count).get k = rep.get k := by
  rw [Dict.get, get?_mergedEntry _ _ _ _ hk]
  rfl

theorem flagged_mergedEntry :
    (mergedEntry rep flagged conf count).get "flagged_by" = ofStrs flagged := by
  rw [mergedEntry, Dict.get_set, if_neg (by decide)]
  split_ifs
  · rw [Dict.get_set, if_neg (by decide), Dict.get_set, if_pos rfl]
  · rw [Dict.get_set, if_pos rfl]

theorem confidence_mergedEntry : (mergedEntry rep flagged conf count).get "confidence" =
    if conf.truthy then .float conf else rep.get "confidence" := by
  rw [mergedEntry, Dict.get_set, if_neg (by decide)]
  split_ifs
  · rw [Dict.get_set, if_pos rfl]
  · rw [Dict.get_set, if_neg (by decide)]

theorem sameFields_mergedEntry : SameFields rep (mergedEntry rep flagged conf count) := by
  have hflagged : SameFields rep (Assoc.set rep "flagged_by" (ofStrs flagged)) :=
    (SameFields.refl rep).set (by decide) _
  unfold mergedEntry
  split_ifs
  · exact (hflagged.set (by decide) _).set (by decide) _
  · exact hflagged.set (by decide) _

variable {rep}

theorem Entry.merged (h : Entry rt rep) : Entry rt (mergedEntry rep flagged conf count) where
  severity := by
    rw [get_mergedEntry _ _ _ _ (by decide)]
    exact h.severity
  file := by
    rw [get_mergedEntry _ _ _ _ (by decide)]
    exact h.file
  confidence := by
    have hconf := confidence_mergedEntry rep flagged conf count
    split_ifs at hconf
    · exact confidence_float hconf
    · rw [confidence_congr hconf]
      exact h.confidence
  flagged := ⟨flagged, flagged_mergedEntry ..⟩

end

/-- Every step leaves only groups with a position. -/
theorem groupByRoot_filled (n : ℕ) (forest : UnionFind) :
    ∀ root members, Assoc.get? (groupByRoot n forest) root = some members → members ≠ [] := by
  suffices ∀ (is : List ℕ) (s : UnionFind × List (ℕ × List ℕ)),
      (∀ root members, Assoc.get? s.2 root = some members → members ≠ []) →
        ∀ root members, Assoc.get? (is.foldl groupStep s).2 root = some members → members ≠ [] by
    exact this (List.range n) (forest, []) fun root members h => by cases h
  intro is
  induction is with
  | nil => exact fun _ h => h
  | cons i is ih =>
    refine fun s h => ih (groupStep s i) ?_
    intro root members hget
    rw [groupStep, Assoc.get?_set] at hget
    split_ifs at hget with hroot
    · rw [← Option.some.inj hget]
      exact List.append_ne_nil_of_right_ne_nil _ (List.cons_ne_nil _ _)
    · exact h root members hget

/-- A merged group is never empty. -/
theorem ne_nil_of_mem_mergeGroups {findings : List Dict} {members : List ℕ}
    (h : members ∈ mergeGroups rt embed findings) : members ≠ [] := by
  rw [mergeGroups] at h
  split_ifs at h
  · obtain ⟨i, -, rfl⟩ := List.mem_map.1 h
    exact List.cons_ne_nil _ _
  · obtain ⟨⟨root, members'⟩, hentry, rfl⟩ := List.mem_map.1 h
    exact groupByRoot_filled _ _ root members'
      (Assoc.get?_of_mem (nodup_keys_groupByRoot _ _) hentry)

/-- The entry of a group of two or more, once everything it reads could be read. -/
theorem mergeEntries_eq {f f' : Dict} {fs : List Dict} {k : (ℕ × Double) × Dict}
    {ks : List ((ℕ × Double) × Dict)} {flags : List (List String)} {confs : List Double}
    (hkeyed : Result.withKeys (repKey rt) (f :: f' :: fs) = .ok (k :: ks))
    (hflags : (f :: f' :: fs).mapM flagsOf = .ok flags)
    (hconfs : (f :: f' :: fs).mapM (confidence rt) = .ok confs) :
    mergeEntries rt (f :: f' :: fs) =
      .ok (mergedEntry (maxBy (fun a b => keyGt a.1 b.1) k ks).2 (sortedSet flags.flatten)
        (confs.foldl (fun best c => if best.lt c then c else best) (.fin 0))
        (f :: f' :: fs).length) := by
  rw [mergeEntries, hkeyed, Result.ok_bind, hflags, Result.ok_bind, hconfs, Result.ok_bind]
  rfl

/-- A group of entries is merged without raising, into one that keeps the fields of a member. -/
theorem mergeEntries_ok {fs : List Dict} (hne : fs ≠ []) (h : ∀ f ∈ fs, Entry rt f) :
    ∃ g, mergeEntries rt fs = .ok g ∧ Entry rt g ∧ ∃ f ∈ fs, SameFields f g := by
  match fs, hne with
  | [f], _ =>
    exact ⟨f, rfl, h f List.mem_cons_self, f, List.mem_cons_self, .refl f⟩
  | f :: f' :: fs, _ =>
    obtain ⟨keyed, hkeyed⟩ := Result.withKeys_ok fun a ha => repKey_ok (h a ha)
    obtain ⟨flags, hflags⟩ := Result.mapM_ok fun a ha => flagsOf_ok (h a ha)
    obtain ⟨confs, hconfs⟩ := Result.mapM_ok fun a ha => (h a ha).confidence
    obtain ⟨hmap, -⟩ := Result.withKeys_eq_ok hkeyed
    cases keyed with
    | nil => cases hmap
    | cons k ks =>
      -- the representative is one of the members
      have hrep : (maxBy (fun a b => keyGt a.1 b.1) k ks).2 ∈ f :: f' :: fs := by
        rw [← hmap]
        exact List.mem_map_of_mem (maxBy_mem ..)
      exact ⟨_, mergeEntries_eq hkeyed hflags hconfs, (h _ hrep).merged .., _, hrep,
        sameFields_mergedEntry _ _ _ _⟩

/-- The entries are merged without raising; each keeps the fields of one of them. -/
theorem semanticMerge_ok {fs : List Dict} (h : ∀ f ∈ fs, Entry rt f) :
    ∃ gs, semanticMerge rt embed fs = .ok gs ∧
      ∀ g ∈ gs, Entry rt g ∧ ∃ f ∈ fs, SameFields f g := by
  have hgroup : ∀ members ∈ mergeGroups rt embed fs, ∃ g, mergeGroup rt fs members = .ok g ∧
      Entry rt g ∧ ∃ f ∈ fs, SameFields f g := by
    intro members hmembers
    have hmem := member_of_mem_mergeGroups hmembers
    have hne : members.map (fun m => fs.getD m []) ≠ [] := by
      have := ne_nil_of_mem_mergeGroups hmembers
      simpa using this
    obtain ⟨g, hg, hentry, f, hf, hsame⟩ := mergeEntries_ok hne fun f hf => h f (hmem f hf)
    exact ⟨g, hg, hentry, f, hmem f hf, hsame⟩
  obtain ⟨gs, hgs⟩ := Result.mapM_ok fun members hmembers =>
    (hgroup members hmembers).imp fun g hg => hg.1
  refine ⟨gs, hgs, ?_⟩
  intro g hg
  obtain ⟨members, hmembers, hmerge⟩ := Result.exists_of_mapM_right hgs hg
  obtain ⟨g', hg', hrest⟩ := hgroup members hmembers
  rw [hmerge] at hg'
  obtain rfl := Except.ok.inj hg'
  exact hrest

/-! ### Tags -/

/-- `float(v)` raises nothing but the two exceptions that are caught, unless the number is too
large. -/
theorem orOnBadNumber_ok {α : Type} {x : Result α} {fallback : α}
    (h : x ≠ .error .overflowError) (hclass : ∀ e, x = .error e →
      e = .typeError ∨ e = .valueError ∨ e = .overflowError) :
    Result.Ok (orOnBadNumber x fallback) := by
  cases x with
  | ok a => exact ⟨a, rfl⟩
  | error e =>
    rcases hclass e rfl with rfl | rfl | rfl
    · exact ⟨_, rfl⟩
    · exact ⟨_, rfl⟩
    · exact absurd rfl h

theorem toFloat_error {v : Value} {e : Exc} (h : rt.toFloat v = .error e) :
    e = .typeError ∨ e = .valueError ∨ e = .overflowError := by
  unfold Runtime.toFloat Value.toFloat? at h
  cases v with
  | int n =>
    simp only [Double.ofInt] at h
    split_ifs at h
    exact .inr (.inr (Except.error.inj h).symm)
  | str s =>
    simp only at h
    cases hparse : rt.parseFloat s with
    | none =>
      rw [hparse] at h
      exact .inr (.inl (Except.error.inj h).symm)
    | some x =>
      rw [hparse] at h
      cases h
  | bool b => cases h
  | float x => cases h
  | _ => exact .inl (Except.error.inj h).symm

/-- A falsy value is never too large a number. -/
theorem toFloat_falsy {v : Value} (h : v.truthy = false) :
    rt.toFloat v ≠ .error .overflowError := by
  unfold Runtime.toFloat Value.toFloat?
  cases v with
  | int n =>
    have hzero : n = 0 := by simpa [Value.truthy] using h
    simp only [hzero, Double.ofInt]
    rw [if_neg (by simpa using Double.bound_pos)]
    simp
  | str s =>
    simp only
    cases rt.parseFloat s <;> simp
  | _ => simp

/-- A float is a number already. -/
theorem toFloat_float (x : Double) : rt.toFloat (.float x) ≠ .error .overflowError := by
  intro h
  cases h

theorem isPrimary_ok {threshold : Double} {f : Dict} {n : ℕ} (h : Result.Ok (confidence rt f)) :
    Result.Ok (isPrimary rt threshold f n) := by
  unfold isPrimary
  simp only
  split
  · exact ⟨_, rfl⟩
  · have hfloat : rt.toFloat (f.get "confidence") ≠ .error .overflowError := by
      cases htruthy : (f.get "confidence").truthy with
      | false => exact toFloat_falsy htruthy
      | true =>
        obtain ⟨x, hx⟩ := h
        rw [confidence, Value.or_of_truthy _ htruthy] at hx
        rw [hx]
        exact nofun
    refine orOnBadNumber_ok ?_ ?_
    · cases hx : rt.toFloat (f.get "confidence") with
      | ok x => exact nofun
      | error e =>
        rw [hx] at hfloat
        exact fun he => hfloat (by simpa using he)
    · intro e he
      rcases Result.bind_eq_error.1 he with he | ⟨x, -, he⟩
      · exact toFloat_error he
      · cases he

/-- An entry is tagged without raising, and keeps its fields. -/
theorem tagFinding_ok {threshold : Double} {f : Dict} (h : Entry rt f) :
    ∃ g n, tagFinding rt threshold f = .ok g ∧ SameFields f g ∧ g.get "corroboration" = .int n := by
  obtain ⟨ids, hids⟩ := h.flagged
  have hlen : (flaggedBy f).len? = .ok (ids.map Value.str).length := by
    rw [Value.len?, flaggedBy_iter hids]
    rfl
  obtain ⟨primary, hprimary⟩ : Result.Ok (isPrimary rt threshold f (ids.map Value.str).length) :=
    isPrimary_ok h.confidence
  have htag : tagFinding rt threshold f = .ok (Assoc.set
      (Assoc.set f "corroboration" (.int (ids.map Value.str).length)) "primary"
        (.bool primary)) := by
    rw [tagFinding, hlen, Result.ok_bind, hprimary, Result.ok_bind]
    rfl
  refine ⟨_, ((ids.map Value.str).length : ℤ), htag, ?_, ?_⟩
  · have hcorroboration := (SameFields.refl f).set (k := "corroboration") (by decide)
      (.int (ids.map Value.str).length)
    exact hcorroboration.set (by decide) _
  · rw [Dict.get_set, if_neg (by decide), Dict.get_set, if_pos rfl]

theorem countSeverity_ok {counts : List (String × ℕ)} {sev : Value} (h : sev.hashable = true) :
    Result.Ok (countSeverity counts sev) := by
  unfold countSeverity
  rw [Value.contains?, if_pos h, Result.ok_bind]
  split_ifs <;> exact ⟨_, rfl⟩

/-- The threshold is not too large a number. -/
def ThresholdReadable (rt : Runtime) (args : Dict) : Prop :=
  rt.toFloat (args.get "primary-threshold") ≠ .error .overflowError

theorem primaryThreshold_ok {args : Dict} (h : ThresholdReadable rt args) :
    Result.Ok (primaryThreshold rt args) := by
  refine orOnBadNumber_ok ?_ fun e he => toFloat_error he
  rw [Dict.getD]
  unfold ThresholdReadable Dict.get at h
  cases hget : Assoc.get? args "primary-threshold" with
  | none => exact toFloat_float _
  | some v =>
    rw [hget] at h
    exact h

/-! ### The collector -/

/-- The collector returns on records that can be read, and each entry keeps the fields of one of
them. -/
theorem collectFindings_of_records {env : Dict} {merged : List (String × Dict)}
    (hmerged : groupFindings rt (ensureList (env.get "specialist_outputs")) = .ok merged)
    (hrecords : ∀ f ∈ merged.map fun kr => finishRecord kr.2, Entry rt f)
    (hthreshold : ThresholdReadable rt (ensureDict (env.get "args"))) :
    ∃ c, collectFindings rt embed env = .ok c ∧ ∀ g ∈ c.findings,
      (∃ n, g.get "corroboration" = .int n) ∧
        ∃ f ∈ merged.map fun kr => finishRecord kr.2, SameFields f g := by
  obtain ⟨sorted, hsorted⟩ := sortFindings_ok hrecords
  have hsortedmem := fun f => (perm_of_sortFindings hsorted).mem_iff (a := f)
  obtain ⟨grouped, hgrouped, hentries⟩ := @semanticMerge_ok rt embed sorted
    fun f hf => hrecords f ((hsortedmem f).1 hf)
  obtain ⟨entries, hentriesOk⟩ := sortFindings_ok fun f hf => (hentries f hf).1
  have hentriesmem := fun f => (perm_of_sortFindings hentriesOk).mem_iff (a := f)
  obtain ⟨threshold, hthreshold⟩ := primaryThreshold_ok hthreshold
  have htag : ∀ f ∈ entries, ∃ g n, tagFinding rt threshold f = .ok g ∧ SameFields f g ∧
      g.get "corroboration" = .int n :=
    fun f hf => tagFinding_ok (hentries f ((hentriesmem f).1 hf)).1
  obtain ⟨findings, htagged⟩ := Result.mapM_ok fun f hf =>
    let ⟨g, _, hg, _⟩ := htag f hf
    (⟨g, hg⟩ : Result.Ok (tagFinding rt threshold f))
  -- an entry of the answer, back through tagging and merging
  have horigin : ∀ g ∈ findings, (g.get "severity").hashable = true ∧
      (∃ n, g.get "corroboration" = .int n) ∧
        ∃ f ∈ merged.map fun kr => finishRecord kr.2, SameFields f g := by
    intro g hg
    obtain ⟨f, hf, hfg⟩ := Result.exists_of_mapM_right htagged hg
    obtain ⟨g', n, hg', hsame, hn⟩ := htag f hf
    rw [hfg] at hg'
    obtain rfl := Except.ok.inj hg'
    obtain ⟨hentry, e, he, hmerge⟩ := hentries f ((hentriesmem f).1 hf)
    refine ⟨?_, ⟨n, hn⟩, e, (hsortedmem e).1 he, hmerge.trans hsame⟩
    rw [hsame.severity]
    exact hentry.severity
  have hstep (c : List (String × ℕ)) (g : Dict) (hg : g ∈ findings) (_ : True) :
      ∃ c', countSeverity c (Dict.get g "severity") = .ok c' ∧ True := by
    obtain ⟨c', hc'⟩ := countSeverity_ok (horigin g hg).1
    exact ⟨c', hc', trivial⟩
  obtain ⟨counts, hcounts, -⟩ := Result.foldlM_ok (fun _ => True) (b := noCounts) trivial hstep
  refine ⟨⟨findings, counts, findings.countP fun f => (f.get "primary").truthy⟩, ?_,
    fun g hg => (horigin g hg).2⟩
  have hconsolidate : consolidate rt embed (ensureList (env.get "specialist_outputs")) =
      .ok entries := by
    rw [consolidate, hmerged, Result.ok_bind, hsorted, Result.ok_bind, hgrouped, Result.ok_bind]
    exact hentriesOk
  rw [collectFindings, hconsolidate, Result.ok_bind, hthreshold, Result.ok_bind, htagged,
    Result.ok_bind, hcounts, Result.ok_bind]
  rfl

/-- **The collector returns on collectable findings, and each entry keeps the fields of one of
them.** -/
theorem collectFindings_ok {env : Dict}
    (hids : ∀ r ∈ reports (ensureList (env.get "specialist_outputs")), ∃ s, r.1 = .str s)
    (hfindings : ∀ r ∈ reports (ensureList (env.get "specialist_outputs")), Collectable rt r.2)
    (hthreshold : ThresholdReadable rt (ensureDict (env.get "args"))) :
    ∃ c, collectFindings rt embed env = .ok c ∧ ∀ g ∈ c.findings,
      (∃ n, g.get "corroboration" = .int n) ∧
        ∃ r ∈ reports (ensureList (env.get "specialist_outputs")), SameFields r.2 g := by
  obtain ⟨merged, hmerged, hrecords⟩ := groupFindings_ok fun r hr => ⟨hids r hr, hfindings r hr⟩
  have hfinished : ∀ f ∈ merged.map fun kr => finishRecord kr.2, Entry rt f ∧
      ∃ r ∈ reports (ensureList (env.get "specialist_outputs")), SameFields r.2 f := by
    intro f hf
    obtain ⟨⟨key, record⟩, hkr, rfl⟩ := List.mem_map.1 hf
    obtain ⟨hrecord, r, hr, -, hsame⟩ := hrecords key record
      (Assoc.get?_of_mem (nodup_keys_groupFindings hmerged) hkr)
    exact ⟨hrecord.finish, r, hr, hsame.trans (sameFields_finishRecord record)⟩
  obtain ⟨c, hc, hentries⟩ := @collectFindings_of_records rt embed env merged hmerged
    (fun f hf => (hfinished f hf).1) hthreshold
  refine ⟨c, hc, ?_⟩
  intro g hg
  obtain ⟨hn, f, hf, hsame⟩ := hentries g hg
  obtain ⟨-, r, hr, hgroup⟩ := hfinished f hf
  exact ⟨hn, r, hr, hgroup.trans hsame⟩

end CodeReview
