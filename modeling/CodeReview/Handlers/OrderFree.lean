import CodeReview.Handlers.Collectable
import Mathlib.Data.Prod.Lex

/-!
# The order in which specialists finish

The collector folds the findings of all specialists into records by their key, sorts the records,
merges and sorts again.  Every stage has ties; none is decided by the order of the specialists.

* `RecordOf` says what the record of a key is without an order: the best finding of the key, with
  everybody who reported one;
* `recordOf_groupReports` : the fold computes it, and `RecordOf.unique` : it is determined;
* `sortFindings_eq` : the sort is the one by a linear key, which tells any two records apart;
* `collectFindings_perm` : **the collector's answer is the same for every order of the
  specialists.**
-/

namespace CodeReview

open Py

variable {rt : Runtime} {embed : Embed}

/-! ### The sort key as a linear order -/

/-- The rank of a severity that has one. -/
def rankValue (f : Dict) : ℕ :=
  (f.get "severity").asStr?.elim 0 fun s => (Assoc.get? severityRank s).getD 0

theorem rankOf_eq {f : Dict} (h : (f.get "severity").hashable = true) :
    rankOf (f.getD "severity" (.str "")) = .ok (rankValue f) := by
  rw [rankOf_getD, rankOf, if_pos h]
  rfl

/-- The key tuple: higher severity first, then file, line and title. -/
abbrev LinearKey := ℕᵒᵈ ×ₗ String ×ₗ ℤ ×ₗ String

/-- The key of a finding. -/
def linearKey (rt : Runtime) (f : Dict) : LinearKey :=
  toLex (.toDual (rankValue f), toLex (((f.get "file").asStr?).getD "",
    toLex ((f.get "line").asInt?.getD 0, normaliseTitle rt (f.get "title"))))

/-- The severity and the file can be compared. -/
structure Sortable (f : Dict) : Prop where
  severity : (f.get "severity").hashable = true
  file : ∃ s, f.get "file" = .str s

theorem or_empty (s : String) : (Value.str s).or (.str "") = .str s := by
  unfold Value.or
  split_ifs with h
  · rfl
  · have hs : s = "" := by simpa using h
    rw [hs]

/-- The key as `_sort_key` computes it. -/
def keyOf (rt : Runtime) (f : Dict) : SortKey where
  rank := rankValue f
  file := (f.get "file").or (.str "")
  line := (f.get "line").asInt?.getD 0
  title := normaliseTitle rt (f.get "title")

theorem sortKey_eq {f : Dict} (h : Sortable f) : sortKey rt f = .ok (keyOf rt f) := by
  rw [sortKey, rankOf_eq h.severity]
  rfl

/-- The tuples are compared as their linear keys. -/
theorem lt?_keyOf {f g : Dict} (hf : Sortable f) (hg : Sortable g) :
    SortKey.lt? (keyOf rt f) (keyOf rt g) = .ok (decide (linearKey rt f < linearKey rt g)) := by
  obtain ⟨s, hs⟩ := hf.file
  obtain ⟨t, ht⟩ := hg.file
  have hlt : linearKey rt f < linearKey rt g ↔
      rankValue g < rankValue f ∨ rankValue f = rankValue g ∧ (s < t ∨ s = t ∧
        ((f.get "line").asInt?.getD 0 < (g.get "line").asInt?.getD 0 ∨
          (f.get "line").asInt?.getD 0 = (g.get "line").asInt?.getD 0 ∧
            normaliseTitle rt (f.get "title") < normaliseTitle rt (g.get "title"))) := by
    simp only [linearKey, Prod.Lex.toLex_lt_toLex, OrderDual.toDual_lt_toDual, hs, ht,
      Value.asStr?, Option.getD_some, OrderDual.toDual_inj]
  unfold SortKey.lt?
  simp only [keyOf, hs, ht, or_empty]
  -- `SortKey.lt?` looks at the next component only where the two agree so far
  by_cases hrank : rankValue f = rankValue g
  · rw [if_neg (not_not.2 hrank)]
    by_cases hfile : s = t
    · have heqv : (Value.str s).eqv (.str t) = true := (Value.eqv_str _ _).2 (by rw [hfile])
      rw [heqv, if_neg (by decide)]
      by_cases hline : (f.get "line").asInt?.getD 0 = (g.get "line").asInt?.getD 0
      · rw [if_neg (not_not.2 hline)]
        refine congrArg _ (decide_eq_decide.2 ?_)
        rw [hlt]
        simp only [hrank, hfile, hline, lt_irrefl, false_or, true_and]
      · rw [if_pos hline]
        refine congrArg _ (decide_eq_decide.2 ?_)
        rw [hlt]
        simp only [hrank, hfile, hline, lt_irrefl, false_or, true_and, false_and, or_false]
    · have heqv : (Value.str s).eqv (.str t) = false := by
        refine Bool.eq_false_iff.2 fun h => hfile ?_
        exact Value.str.inj ((Value.eqv_str _ _).1 h)
      rw [heqv, if_pos (by decide), Value.lt?_str]
      refine congrArg _ (decide_eq_decide.2 ?_)
      rw [hlt]
      simp only [hrank, hfile, lt_irrefl, false_or, true_and, false_and, or_false]
  · rw [if_pos hrank]
    refine congrArg _ (decide_eq_decide.2 ?_)
    rw [hlt]
    simp only [hrank, false_and, or_false]

/-- The order of the sort. -/
def ByKey (rt : Runtime) (f g : Dict) : Prop := linearKey rt f ≤ linearKey rt g

instance (rt : Runtime) : DecidableRel (ByKey rt) := fun f g =>
  inferInstanceAs (Decidable (linearKey rt f ≤ linearKey rt g))

instance (rt : Runtime) : Std.Total (ByKey rt) := ⟨fun _ _ => le_total _ _⟩

instance (rt : Runtime) : IsTrans Dict (ByKey rt) := ⟨fun _ _ _ => le_trans⟩

/-- **Sortable findings are sorted by their linear keys.** -/
theorem sortFindings_eq {fs : List Dict} (h : ∀ f ∈ fs, Sortable f) :
    sortFindings rt fs = .ok (fs.insertionSort (ByKey rt)) := by
  have hkeyed : Result.withKeys (sortKey rt) fs = .ok (fs.map fun f => (keyOf rt f, f)) := by
    refine Result.mapM_eq_ok.2 (List.forall₂_map_right_iff.2 (List.forall₂_same.2 ?_))
    intro f hf
    rw [sortKey_eq (h f hf)]
    rfl
  have hlt (f g : Dict) (hf : f ∈ fs) (hg : g ∈ fs) :
      SortKey.lt? (keyOf rt f) (keyOf rt g) = .ok (decide (linearKey rt f < linearKey rt g)) :=
    lt?_keyOf (h f hf) (h g hg)
  have hcomparable : ∀ x ∈ fs.map fun f => (keyOf rt f, f), ∀ y ∈ fs.map fun f => (keyOf rt f, f),
      Result.Ok (SortKey.lt? x.1 y.1) := by
    intro x hx y hy
    obtain ⟨f, hf, rfl⟩ := List.mem_map.1 hx
    obtain ⟨g, hg, rfl⟩ := List.mem_map.1 hy
    exact ⟨_, hlt f g hf hg⟩
  have hmap := List.map_insertionSort (ByKey rt)
    (fun a b : SortKey × Dict => SortKey.lt? b.1 a.1 ≠ .ok true) (fun f => (keyOf rt f, f)) fs
    fun f hf g hg => by
      show linearKey rt f ≤ linearKey rt g ↔ SortKey.lt? (keyOf rt g) (keyOf rt f) ≠ .ok true
      rw [hlt g f hg hf, ← not_lt]
      simp
  rw [sortFindings, hkeyed, Result.ok_bind, sorted?_ok hcomparable, ← hmap, Result.ok_bind]
  exact congrArg Except.ok (List.map_map.trans (List.map_id _))

/-- Two orders of findings that their keys tell apart are sorted alike. -/
theorem sortFindings_perm {fs gs : List Dict} (hperm : fs.Perm gs) (h : ∀ f ∈ fs, Sortable f)
    (hkey : ∀ f ∈ fs, ∀ g ∈ fs, linearKey rt f = linearKey rt g → f = g) :
    sortFindings rt fs = sortFindings rt gs := by
  rw [sortFindings_eq h, sortFindings_eq fun g hg => h g (hperm.mem_iff.2 hg)]
  refine congrArg _ (List.Perm.eq_of_pairwise ?_ (List.pairwise_insertionSort _ fs)
    (List.pairwise_insertionSort _ gs) ?_)
  · intro f g hf hg hfg hgf
    refine hkey f ((List.mem_insertionSort _).1 hf) g ?_ (le_antisymm hfg hgf)
    exact hperm.mem_iff.2 ((List.mem_insertionSort _).1 hg)
  · exact (List.perm_insertionSort _ fs).trans (hperm.trans (List.perm_insertionSort _ gs).symm)

/-! ### The record of a key -/

/-- A finding as a specialist writes it: without the collector's own stamps, with a string for the
severity and the file, and a positive line or none. -/
structure SpecialistFinding (f : Dict) : Prop where
  unstamped : ∀ k ∈ ["flagged_by", "__winner", "__origin"], Assoc.get? f k = none
  severity : ∃ s, f.get "severity" = .str s
  file : ∃ s, f.get "file" = .str s
  line : f.get "line" = .none ∨ ∃ n : ℤ, 0 < n ∧ f.get "line" = .int n

/-- The record of a finding that `s` reported, flagged by `ids`. -/
def recordOf (f : Dict) (ids : List String) (s : String) : Dict :=
  f ++ [("flagged_by", ofStrs ids), ("__winner", .str s)]

theorem get?_recordOf {f : Dict} {ids : List String} {s k : String}
    (hk : k ∉ ["flagged_by", "__winner"]) :
    Assoc.get? (recordOf f ids s) k = Assoc.get? f k := by
  simp only [List.mem_cons, List.not_mem_nil, or_false, not_or] at hk
  rw [recordOf, Assoc.get?_append, Assoc.get?_cons, if_neg (Ne.symm hk.1), Assoc.get?_cons,
    if_neg (Ne.symm hk.2), Assoc.get?_nil, Option.or_none]

theorem get_recordOf {f : Dict} {ids : List String} {s k : String}
    (hk : k ∉ ["flagged_by", "__winner"]) : (recordOf f ids s).get k = f.get k := by
  rw [Dict.get, get?_recordOf hk]
  rfl

section

variable {f : Dict} (h : ∀ k ∈ ["flagged_by", "__winner", "__origin"], Assoc.get? f k = none)

include h

theorem closeRecord_stamped (v : Value) (ids : List String) (s : String) :
    closeRecord (Assoc.set f "__origin" v) ids (.str s) = recordOf f ids s := by
  have horigin : Assoc.set f "__origin" v = f ++ [("__origin", v)] := by
    rw [← List.append_nil f, Assoc.set_append (h _ (by decide)), List.append_nil]
    rfl
  have hflagged := h "flagged_by" (by decide)
  have hwinner := h "__winner" (by decide)
  rw [closeRecord, horigin, Assoc.without_append, Assoc.without_of_none (d := f) (by
    intro k hk
    exact h k (by revert hk; simp; tauto))]
  show Assoc.set (Assoc.set (f ++ []) "flagged_by" _) "__winner" _ = _
  rw [Assoc.set_append hflagged, Assoc.set_append hwinner]
  rfl

theorem closeRecord_recordOf (ids ids' : List String) (w s : String) :
    closeRecord (recordOf f ids w) ids' (.str s) = recordOf f ids' s := by
  have hflagged := h "flagged_by" (by decide)
  have hwinner := h "__winner" (by decide)
  rw [closeRecord, recordOf, Assoc.without_append, Assoc.without_of_none (d := f) (by
    intro k hk
    exact h k (by revert hk; simp; tauto))]
  show Assoc.set (Assoc.set (f ++ [("flagged_by", ofStrs ids)]) "flagged_by" _) "__winner" _ = _
  rw [Assoc.set_append hflagged, Assoc.set_append hwinner]
  rfl

theorem flagged_recordOf (ids : List String) (s : String) :
    (recordOf f ids s).get "flagged_by" = ofStrs ids := by
  rw [Dict.get, recordOf, Assoc.get?_append, h _ (by decide)]
  rfl

theorem winner_recordOf (ids : List String) (s : String) :
    (recordOf f ids s).get "__winner" = .str s := by
  rw [Dict.get, recordOf, Assoc.get?_append, h _ (by decide)]
  rfl

end

/-! ### Folding in one report -/

theorem mem_addStr {ids : List String} {s t : String} : t ∈ addStr ids s ↔ t ∈ ids ∨ t = s := by
  unfold addStr
  split_ifs with h
  · constructor
    · exact .inl
    · rintro (ht | rfl)
      · exact ht
      · exact h
  · simp

theorem nodup_addStr {ids : List String} (h : ids.Nodup) (s : String) : (addStr ids s).Nodup := by
  unfold addStr
  split_ifs with hs
  · exact h
  · exact List.nodup_append.2 ⟨h, List.nodup_singleton s, fun a ha b hb hab => by
      rw [List.mem_singleton.1 hb] at hab
      exact hs (hab ▸ ha)⟩

/-- `set(ids)`, listed. -/
theorem foldl_addStr (ids acc : List String) (h : acc.Nodup) :
    (ids.foldl addStr acc).Nodup ∧ ∀ t, t ∈ ids.foldl addStr acc ↔ t ∈ acc ∨ t ∈ ids := by
  induction ids generalizing acc with
  | nil => exact ⟨h, fun t => by simp⟩
  | cons s ids ih =>
    obtain ⟨hnodup, hmem⟩ := ih (addStr acc s) (nodup_addStr h s)
    refine ⟨hnodup, ?_⟩
    intro t
    rw [List.foldl_cons, hmem, mem_addStr, List.mem_cons, or_assoc]

/-- The reporters, with one more, as they are listed. -/
theorem sorted_addStr (ids : List String) (s : String) :
    (addStr (ids.foldl addStr []) s).insertionSort (· ≤ ·) = sortedSet (ids ++ [s]) := by
  obtain ⟨hnodup, hmem⟩ := foldl_addStr ids [] List.nodup_nil
  refine insertionSort_eq_sortedSet (nodup_addStr hnodup s) ?_
  intro t
  rw [mem_addStr, hmem, List.mem_append, List.mem_singleton]
  simp

theorem or_str_of_ne {s : String} (hs : s ≠ "") (v : Value) : (Value.str s).or v = .str s :=
  Value.or_of_truthy v (by simpa using hs)

/-- The first finding of a key becomes its record. -/
theorem foldRecord_none {f : Dict} (hf : SpecialistFinding f) {s : String} (hs : s ≠ "") :
    foldRecord none (.str s) f = .ok (recordOf f [s] s) := by
  have hsorted : sorted? Value.lt? [Value.str s] = .ok [.str s] := sorted?_strs [s]
  rw [foldRecord, sourceIds_none, Result.ok_bind, pickWinner, Result.ok_bind]
  simp only [hsorted, Result.ok_bind, or_str_of_ne hs]
  exact congrArg Except.ok (closeRecord_stamped hf.unstamped _ [s] s)

/-- The record of `f₀` by `s₀` wins over the finding `f` by `s`. -/
def Keeps (f₀ : Dict) (s₀ : String) (f : Dict) (s : String) : Prop :=
  rankValue f < rankValue f₀ ∨ rankValue f = rankValue f₀ ∧ s₀ ≤ s

instance (f₀ : Dict) (s₀ : String) (f : Dict) (s : String) : Decidable (Keeps f₀ s₀ f s) :=
  inferInstanceAs (Decidable (_ ∨ _))

theorem SpecialistFinding.hashable {f : Dict} (h : SpecialistFinding f) :
    (f.get "severity").hashable = true := by
  obtain ⟨s, hs⟩ := h.severity
  rw [hs]
  rfl

theorem rankValue_congr {f g : Dict} (h : g.get "severity" = f.get "severity") :
    rankValue g = rankValue f := by rw [rankValue, rankValue, h]

/-- `_pick_winner` between a record and a stamped finding. -/
theorem firstWins_recordOf {f₀ f : Dict} (h₀ : SpecialistFinding f₀) (hf : SpecialistFinding f)
    {ids : List String} {s₀ s : String} (hs₀ : s₀ ≠ "") (hs : s ≠ "") :
    firstWins (recordOf f₀ ids s₀) (Assoc.set f "__origin" (.str s)) =
      .ok (decide (Keeps f₀ s₀ f s)) := by
  have hseverity : (recordOf f₀ ids s₀).get "severity" = f₀.get "severity" :=
    get_recordOf (by decide)
  have hstamped : Dict.get (Assoc.set f "__origin" (.str s)) "severity" = f.get "severity" := by
    rw [Dict.get_set, if_neg (by decide)]
  have hwinner : Dict.get (Assoc.set f "__origin" (.str s)) "__winner" = .none := by
    rw [Dict.get_set, if_neg (by decide), Dict.get, hf.unstamped _ (by decide)]
    rfl
  have horigin₀ (v : Value) :
      (((recordOf f₀ ids s₀).get "__winner").or v).or (.str "") = .str s₀ := by
    rw [winner_recordOf h₀.unstamped, or_str_of_ne hs₀, or_str_of_ne hs₀]
  have horigin : ((Dict.get (Assoc.set f "__origin" (.str s)) "__winner").or
      (Dict.get (Assoc.set f "__origin" (.str s)) "__origin")).or (.str "") = .str s := by
    rw [hwinner, Dict.get_set, if_pos rfl, @Value.or_of_falsy .none (.str s) rfl, or_str_of_ne hs]
  have hrank₀ := rankOf_eq (f := recordOf f₀ ids s₀) (by rw [hseverity]; exact h₀.hashable)
  have hrank := rankOf_eq (f := Assoc.set f "__origin" (.str s))
    (by rw [hstamped]; exact hf.hashable)
  rw [rankValue_congr hseverity] at hrank₀
  rw [rankValue_congr hstamped] at hrank
  rw [firstWins, hrank₀, Result.ok_bind, hrank, Result.ok_bind]
  simp only [horigin₀, horigin, Value.le?_str, Keeps]
  by_cases hne : rankValue f₀ = rankValue f
  · rw [if_neg (not_not.2 hne)]
    simp [hne]
  · rw [if_pos hne]
    simp [Ne.symm hne]

/-- A later finding of a key is folded into its record. -/
theorem foldRecord_some {f₀ f : Dict} (h₀ : SpecialistFinding f₀) (hf : SpecialistFinding f)
    {ids : List String} {s₀ s : String} (hs₀ : s₀ ≠ "") (hs : s ≠ "") :
    foldRecord (some (recordOf f₀ ids s₀)) (.str s) f =
      .ok (if Keeps f₀ s₀ f s then recordOf f₀ (sortedSet (ids ++ [s])) s₀
        else recordOf f (sortedSet (ids ++ [s])) s) := by
  have hsources := sourceIds_some (flagged_recordOf h₀.unstamped ids s₀) s
  rw [foldRecord, hsources, Result.ok_bind, pickWinner, firstWins_recordOf h₀ hf hs₀ hs,
    Result.ok_bind]
  simp only [sorted?_strs, sorted_addStr, decide_eq_true_eq, winner_recordOf h₀.unstamped]
  split_ifs with hkeeps
  · simp only [Result.pure_eq_ok, Result.ok_bind, or_str_of_ne hs₀]
    exact congrArg Except.ok (closeRecord_recordOf h₀.unstamped ..)
  · simp only [Result.pure_eq_ok, Result.ok_bind, or_str_of_ne hs]
    exact congrArg Except.ok (closeRecord_stamped hf.unstamped ..)

theorem Keeps.refl (f : Dict) (s : String) : Keeps f s f s := .inr ⟨rfl, le_rfl⟩

/-- What the old record wins over, its successor wins over. -/
theorem Keeps.of_not {f₀ f f' : Dict} {s₀ s s' : String} (h : Keeps f₀ s₀ f' s')
    (hnot : ¬ Keeps f₀ s₀ f s) : Keeps f s f' s' := by
  simp only [Keeps, not_or, not_lt, not_and, not_le] at h hnot ⊢
  obtain ⟨hrank, hid⟩ := hnot
  rcases h with h | ⟨hf', hs'⟩
  · exact .inl (by omega)
  · by_cases heq : rankValue f = rankValue f₀
    · exact .inr ⟨by omega, (hid heq).le.trans hs'⟩
    · exact .inl (by omega)

/-- Of two that win over each other, both are from one specialist. -/
theorem Keeps.antisymm {f g : Dict} {s t : String} (h : Keeps f s g t) (h' : Keeps g t f s) :
    s = t := by
  rcases h with h | ⟨heq, hst⟩ <;> rcases h' with h' | ⟨heq', hts⟩
  · omega
  · omega
  · omega
  · exact le_antisymm hst hts

/-! ### The record of a key, without an order -/

/-- A report with a name and a finding as a specialist writes it. -/
structure PlainReport (r : Value × Dict) : Prop where
  id : ∃ s, s ≠ "" ∧ r.1 = .str s
  finding : SpecialistFinding r.2

/-- Who reported a finding of the key. -/
def reporters (rt : Runtime) (rs : List (Value × Dict)) (key : String) : List String :=
  sortedSet (strs ((rs.filter fun r => dedupKey rt r.2 = key).map Prod.fst))

/-- The report of the key that wins over every other. -/
structure Best (rt : Runtime) (rs : List (Value × Dict)) (key s : String) (f : Dict) : Prop where
  mem : (.str s, f) ∈ rs
  key_eq : dedupKey rt f = key
  wins : ∀ s' f', (.str s', f') ∈ rs → dedupKey rt f' = key → Keeps f s f' s'

/-- The record of the key: its best finding, flagged by everybody who reported one. -/
def RecordOf (rt : Runtime) (rs : List (Value × Dict)) (key : String) (record : Dict) : Prop :=
  ∃ s f, Best rt rs key s f ∧ record = recordOf f (reporters rt rs key) s

theorem mem_reporters {rs : List (Value × Dict)} {key s : String} :
    s ∈ reporters rt rs key ↔ ∃ f, (.str s, f) ∈ rs ∧ dedupKey rt f = key := by
  rw [reporters, mem_sortedSet, mem_strs, List.mem_map]
  constructor
  · rintro ⟨⟨v, f⟩, hmem, rfl⟩
    obtain ⟨hmem, hkey⟩ := List.mem_filter.1 hmem
    exact ⟨f, hmem, of_decide_eq_true hkey⟩
  · rintro ⟨f, hmem, hkey⟩
    exact ⟨(.str s, f), List.mem_filter.2 ⟨hmem, decide_eq_true hkey⟩, rfl⟩

/-- The reporters are listed once each, in order. -/
theorem sortedSet_eq_reporters {rs : List (Value × Dict)} {key : String} {ids : List String}
    (h : ∀ s, s ∈ ids ↔ ∃ f, (.str s, f) ∈ rs ∧ dedupKey rt f = key) :
    sortedSet ids = reporters rt rs key := by
  refine sortedSet_congr ?_
  intro s
  rw [h, ← mem_reporters, reporters, mem_sortedSet]

/-- Only the reports of the key matter. -/
theorem RecordOf.congr {rs rs' : List (Value × Dict)} {key : String} {record : Dict}
    (h : ∀ r, dedupKey rt r.2 = key → (r ∈ rs ↔ r ∈ rs')) (hrecord : RecordOf rt rs key record) :
    RecordOf rt rs' key record := by
  obtain ⟨s, f, hbest, rfl⟩ := hrecord
  have hreporters : reporters rt rs key = reporters rt rs' key := by
    have hids : sortedSet (reporters rt rs key) = reporters rt rs key :=
      sortedSet_eq_reporters fun t => mem_reporters
    rw [← hids]
    refine sortedSet_eq_reporters ?_
    intro t
    rw [mem_reporters]
    constructor
    · exact fun ⟨g, hg, hkey⟩ => ⟨g, (h (.str t, g) hkey).1 hg, hkey⟩
    · exact fun ⟨g, hg, hkey⟩ => ⟨g, (h (.str t, g) hkey).2 hg, hkey⟩
  refine ⟨s, f, ⟨(h (.str s, f) hbest.key_eq).1 hbest.mem, hbest.key_eq,
    fun s' f' hmem hkey => ?_⟩, ?_⟩
  · exact hbest.wins s' f' ((h (.str s', f') hkey).2 hmem) hkey
  · rw [hreporters]

/-- **The record of a key is determined**, where no specialist reports a key twice. -/
theorem RecordOf.unique {rs : List (Value × Dict)} {key : String} {record record' : Dict}
    (honce : ∀ r ∈ rs, ∀ r' ∈ rs, r.1 = r'.1 → dedupKey rt r.2 = dedupKey rt r'.2 → r = r')
    (h : RecordOf rt rs key record) (h' : RecordOf rt rs key record') : record = record' := by
  obtain ⟨s, f, hbest, rfl⟩ := h
  obtain ⟨s', f', hbest', rfl⟩ := h'
  have hid : s = s' := Keeps.antisymm (hbest.wins s' f' hbest'.mem hbest'.key_eq)
    (hbest'.wins s f hbest.mem hbest.key_eq)
  have hsame := honce _ hbest.mem _ hbest'.mem (congrArg Value.str hid)
    (hbest.key_eq.trans hbest'.key_eq.symm)
  rw [hid, (Prod.mk.inj hsame).2]

/-- What the fold has computed from the reports handled so far. -/
structure FoldInv (rt : Runtime) (done : List (Value × Dict)) (merged : List (String × Dict)) :
    Prop where
  plain : ∀ r ∈ done, PlainReport r
  fresh : ∀ key, Assoc.get? merged key = none → ∀ r ∈ done, dedupKey rt r.2 ≠ key
  record : ∀ key record, Assoc.get? merged key = some record → RecordOf rt done key record

/-- One report more. -/
theorem FoldInv.step {done : List (Value × Dict)} {merged : List (String × Dict)}
    (inv : FoldInv rt done merged) {r : Value × Dict} (hr : PlainReport r) :
    ∃ merged', absorb rt merged r = .ok merged' ∧ FoldInv rt (done ++ [r]) merged' := by
  obtain ⟨v, f⟩ := r
  obtain ⟨⟨s, hs, rfl⟩, hf⟩ := hr
  obtain ⟨record, hfold, hrecord⟩ : ∃ record,
      foldRecord (Assoc.get? merged (dedupKey rt f)) (.str s) f = .ok record ∧
        RecordOf rt (done ++ [(.str s, f)]) (dedupKey rt f) record := by
    cases hold : Assoc.get? merged (dedupKey rt f) with
    | none =>
      -- no report of the key yet: the new one is the best, and the only one
      have honly : ∀ s' f', (Value.str s', f') ∈ done ++ [(.str s, f)] →
          dedupKey rt f' = dedupKey rt f → s' = s ∧ f' = f := by
        intro s' f' hmem hkey
        rcases List.mem_append.1 hmem with hmem | hmem
        · exact absurd hkey (inv.fresh _ hold (.str s', f') hmem)
        · simpa using hmem
      have hids : sortedSet [s] = reporters rt (done ++ [(.str s, f)]) (dedupKey rt f) := by
        refine sortedSet_eq_reporters ?_
        intro t
        rw [List.mem_singleton]
        constructor
        · rintro rfl
          exact ⟨f, by simp, rfl⟩
        · rintro ⟨f', hmem, hkey⟩
          exact (honly t f' hmem hkey).1
      refine ⟨_, foldRecord_none hf hs, s, f, ⟨by simp, rfl, fun s' f' hmem hkey => ?_⟩, ?_⟩
      · obtain ⟨rfl, rfl⟩ := honly s' f' hmem hkey
        exact .refl _ _
      · rw [← hids]
        rfl
    | some record₀ =>
      obtain ⟨s₀, f₀, hbest, rfl⟩ := inv.record _ _ hold
      obtain ⟨⟨s₁, hs₁, heq⟩, hf₀⟩ := inv.plain (.str s₀, f₀) hbest.mem
      have hs₀ : s₀ ≠ "" := Value.str.inj heq ▸ hs₁
      refine ⟨_, foldRecord_some hf₀ hf hs₀ hs, ?_⟩
      have hids : sortedSet (reporters rt done (dedupKey rt f) ++ [s]) =
          reporters rt (done ++ [(.str s, f)]) (dedupKey rt f) := by
        refine sortedSet_eq_reporters ?_
        intro t
        rw [List.mem_append, mem_reporters, List.mem_singleton]
        constructor
        · rintro (⟨f', hmem, hkey⟩ | rfl)
          · exact ⟨f', List.mem_append_left _ hmem, hkey⟩
          · exact ⟨f, by simp, rfl⟩
        · rintro ⟨f', hmem, hkey⟩
          rcases List.mem_append.1 hmem with hmem | hmem
          · exact .inl ⟨f', hmem, hkey⟩
          · simp only [List.mem_singleton, Prod.mk.injEq, Value.str.injEq] at hmem
            exact .inr hmem.1
      rw [hids]
      split_ifs with hkeeps
      · refine ⟨s₀, f₀, ⟨List.mem_append_left _ hbest.mem, hbest.key_eq, ?_⟩, rfl⟩
        intro s' f' hmem hkey
        rcases List.mem_append.1 hmem with hmem | hmem
        · exact hbest.wins s' f' hmem hkey
        · simp only [List.mem_singleton, Prod.mk.injEq, Value.str.injEq] at hmem
          obtain ⟨rfl, rfl⟩ := hmem
          exact hkeeps
      · refine ⟨s, f, ⟨by simp, rfl, fun s' f' hmem hkey => ?_⟩, rfl⟩
        rcases List.mem_append.1 hmem with hmem | hmem
        · exact (hbest.wins s' f' hmem hkey).of_not hkeeps
        · simp only [List.mem_singleton, Prod.mk.injEq, Value.str.injEq] at hmem
          obtain ⟨rfl, rfl⟩ := hmem
          exact .refl _ _
  refine ⟨Assoc.set merged (dedupKey rt f) record, ?_, fun r hmem => ?_, fun key hnone r hmem => ?_,
    fun key record' hget => ?_⟩
  · show (do
      let record ← foldRecord (Assoc.get? merged (dedupKey rt f)) (.str s) f
      return Assoc.set merged (dedupKey rt f) record) = _
    rw [hfold]
    rfl
  · rcases List.mem_append.1 hmem with hmem | hmem
    · exact inv.plain r hmem
    · obtain rfl := List.mem_singleton.1 hmem
      exact ⟨⟨s, hs, rfl⟩, hf⟩
  · rw [Assoc.get?_set] at hnone
    split_ifs at hnone with hkey
    rcases List.mem_append.1 hmem with hmem | hmem
    · exact inv.fresh key hnone r hmem
    · obtain rfl := List.mem_singleton.1 hmem
      exact hkey
  · rw [Assoc.get?_set] at hget
    split_ifs at hget with hkey
    · obtain rfl := Option.some.inj hget
      exact hkey ▸ hrecord
    · refine (inv.record key record' hget).congr ?_
      intro r hrkey
      rw [List.mem_append, List.mem_singleton]
      constructor
      · exact .inl
      · rintro (hmem | rfl)
        · exact hmem
        · exact absurd hrkey hkey

/-- The fold computes the record of every reported key. -/
theorem recordOf_groupReports {outputs : List Value} (h : ∀ r ∈ reports outputs, PlainReport r) :
    ∃ merged, groupFindings rt outputs = .ok merged ∧ FoldInv rt (reports outputs) merged := by
  refine Result.foldlM_total (FoldInv rt) ⟨by simp, by simp, by simp⟩ ?_
  intro done merged r hr inv
  exact inv.step (h r hr)

/-! ### Two orders of the specialists -/

/-- The id of a specialist's output. -/
def idOf (v : Value) : Value := (ensureDict v).get "id"

/-- What the specialists of one batch hand in: distinct ids, plain findings, and from no specialist
two findings of one key. -/
structure DistinctSpecialists (rt : Runtime) (outputs : List Value) : Prop where
  ids : ∃ ids : List String, ids.Nodup ∧ "" ∉ ids ∧ outputs.map idOf = ids.map .str
  findings : ∀ r ∈ reports outputs, SpecialistFinding r.2
  keys : ∀ v ∈ outputs, ((reports [v]).map fun r => dedupKey rt r.2).Nodup

theorem mem_reports {outputs : List Value} {r : Value × Dict} :
    r ∈ reports outputs ↔ ∃ v ∈ outputs, r ∈ reports [v] := by
  have hone (d : Dict) : reports [.dict d] =
      if (d.get "status").eqv (.str "completed") then
        (dicts (ensureList (d.get "findings"))).map fun finding =>
          (d.getD "id" (.str ""), finding)
      else [] := by
    rw [reports, dicts, List.filterMap_cons, List.filterMap_nil]
    exact List.flatMap_singleton ..
  constructor
  · intro h
    obtain ⟨d, hd, hr⟩ := List.mem_flatMap.1 h
    exact ⟨.dict d, mem_dicts.1 hd, by rw [hone]; exact hr⟩
  · rintro ⟨v, hv, hr⟩
    obtain ⟨d, hd, -⟩ := List.mem_flatMap.1 hr
    obtain rfl : Value.dict d = v := by simpa using hd
    rw [hone] at hr
    exact List.mem_flatMap.2 ⟨d, mem_dicts.2 hv, hr⟩

/-- A report carries its specialist's id. -/
theorem fst_of_mem_reports {v : Value} {s : String} (hid : idOf v = .str s) {r : Value × Dict}
    (hr : r ∈ reports [v]) : r.1 = .str s := by
  obtain ⟨d, hd, hmem⟩ := List.mem_flatMap.1 hr
  obtain rfl : Value.dict d = v := by simpa using hd
  have hgetD : d.getD "id" (.str "") = .str s := by
    rw [idOf, ensureDict_dict, Dict.get] at hid
    rw [Dict.getD]
    cases hget : Assoc.get? d "id" with
    | none => simp [hget] at hid
    | some w => simpa [hget] using hid
  split_ifs at hmem
  · obtain ⟨f, -, rfl⟩ := List.mem_map.1 hmem
    exact hgetD
  · cases hmem

namespace DistinctSpecialists

variable {outputs outputs' : List Value} (h : DistinctSpecialists rt outputs)

include h

theorem exists_id {v : Value} (hv : v ∈ outputs) : ∃ s, s ≠ "" ∧ idOf v = .str s := by
  obtain ⟨ids, -, hne, hids⟩ := h.ids
  have hmem : idOf v ∈ ids.map Value.str := hids ▸ List.mem_map_of_mem hv
  obtain ⟨s, hs, heq⟩ := List.mem_map.1 hmem
  exact ⟨s, fun e => hne (e ▸ hs), heq.symm⟩

theorem plainReport {r : Value × Dict} (hr : r ∈ reports outputs) : PlainReport r := by
  obtain ⟨v, hv, hrv⟩ := mem_reports.1 hr
  obtain ⟨s, hs, hid⟩ := h.exists_id hv
  exact ⟨⟨s, hs, fst_of_mem_reports hid hrv⟩, h.findings r hr⟩

/-- Two reports of one specialist and one key are one report. -/
theorem once : ∀ r ∈ reports outputs, ∀ r' ∈ reports outputs, r.1 = r'.1 →
    dedupKey rt r.2 = dedupKey rt r'.2 → r = r' := by
  intro r hr r' hr' hfst hkey
  obtain ⟨v, hv, hrv⟩ := mem_reports.1 hr
  obtain ⟨v', hv', hrv'⟩ := mem_reports.1 hr'
  obtain ⟨s, -, hid⟩ := h.exists_id hv
  obtain ⟨s', -, hid'⟩ := h.exists_id hv'
  rw [fst_of_mem_reports hid hrv, fst_of_mem_reports hid' hrv'] at hfst
  -- the two come from one output, as no other has the id
  have hsame : v = v' := by
    obtain ⟨ids, hnodup, -, hids⟩ := h.ids
    have hmap : (outputs.map idOf).Nodup := by
      rw [hids]
      exact hnodup.map fun _ _ => Value.str.inj
    exact List.inj_on_of_nodup_map hmap hv hv' (by rw [hid, hid', hfst])
  subst hsame
  exact List.inj_on_of_nodup_map (h.keys v hv) hrv hrv' hkey

theorem perm (hperm : outputs.Perm outputs') : DistinctSpecialists rt outputs' := by
  obtain ⟨ids, hnodup, hne, hids⟩ := h.ids
  refine ⟨?_, fun r hr => ?_, fun v hv => h.keys v (hperm.mem_iff.2 hv)⟩
  · -- the ids of the other order are the strings among its ids
    have hmap : (outputs'.map idOf).Perm (ids.map Value.str) := hids ▸ (hperm.map idOf).symm
    have hstrs : (strs (outputs'.map idOf)).Perm ids := by
      have := hmap.filterMap Value.asStr?
      rwa [show (ids.map Value.str).filterMap Value.asStr? = ids from strs_map_str ids] at this
    refine ⟨strs (outputs'.map idOf), hstrs.nodup_iff.2 hnodup, fun hmem => ?_, ?_⟩
    · exact hne (hstrs.mem_iff.1 hmem)
    · have hall : ∀ w ∈ outputs'.map idOf, ∃ s, w = .str s := by
        intro w hw
        obtain ⟨s, -, heq⟩ := List.mem_map.1 (hmap.mem_iff.1 hw)
        exact ⟨s, heq.symm⟩
      generalize outputs'.map idOf = ws at hall
      induction ws with
      | nil => rfl
      | cons w ws ih =>
        obtain ⟨s, rfl⟩ := hall _ List.mem_cons_self
        have hrest := ih fun w hw => hall w (List.mem_cons_of_mem _ hw)
        exact congrArg (Value.str s :: ·) hrest
  · obtain ⟨v, hv, hrv⟩ := mem_reports.1 hr
    exact h.findings r (mem_reports.2 ⟨v, hperm.mem_iff.2 hv, hrv⟩)

end DistinctSpecialists

/-- The records that the fold leaves are those of the reported keys, in some order. -/
theorem FoldInv.perm {rs rs' : List (Value × Dict)} {merged merged' : List (String × Dict)}
    (hmem : ∀ r, r ∈ rs ↔ r ∈ rs')
    (honce : ∀ r ∈ rs, ∀ r' ∈ rs, r.1 = r'.1 → dedupKey rt r.2 = dedupKey rt r'.2 → r = r')
    (inv : FoldInv rt rs merged) (inv' : FoldInv rt rs' merged')
    (hnodup : (merged.map Prod.fst).Nodup) (hnodup' : (merged'.map Prod.fst).Nodup) :
    merged.Perm merged' := by
  -- a record of one fold is the record of the same key in the other
  have hsub {qs qs' : List (Value × Dict)} {m m' : List (String × Dict)}
      (hqs : ∀ r, r ∈ qs ↔ r ∈ qs') (hq : FoldInv rt qs m) (hq' : FoldInv rt qs' m')
      (honce : ∀ r ∈ qs, ∀ r' ∈ qs, r.1 = r'.1 → dedupKey rt r.2 = dedupKey rt r'.2 → r = r')
      (hm : (m.map Prod.fst).Nodup) : ∀ kr ∈ m, kr ∈ m' := by
    rintro ⟨key, record⟩ hkr
    have hrecord := hq.record key record (Assoc.get?_of_mem hm hkr)
    obtain ⟨s, f, hbest, -⟩ := id hrecord
    cases hget : Assoc.get? m' key with
    | none => exact absurd hbest.key_eq (hq'.fresh key hget (.str s, f) ((hqs _).1 hbest.mem))
    | some record' =>
      have hsame := hrecord.unique honce
        ((hq'.record key record' hget).congr fun r _ => (hqs r).symm)
      rw [hsame]
      exact Assoc.mem_of_get? hget
  have honce' : ∀ r ∈ rs', ∀ r' ∈ rs', r.1 = r'.1 → dedupKey rt r.2 = dedupKey rt r'.2 → r = r' :=
    fun r hr r' hr' => honce r ((hmem r).2 hr) r' ((hmem r').2 hr')
  refine (List.perm_ext_iff_of_nodup hnodup.of_map hnodup'.of_map).2 fun kr => ⟨?_, ?_⟩
  · exact hsub hmem inv inv' honce hnodup kr
  · exact hsub (fun r => (hmem r).symm) inv' inv honce' hnodup' kr

theorem sameFields_recordOf (f : Dict) (ids : List String) (s : String) :
    SameFields f (recordOf f ids s) := by
  intro k hk
  refine get?_recordOf fun hmem => hk ?_
  revert hmem
  simp only [List.mem_cons, List.not_mem_nil, or_false]
  rintro (rfl | rfl) <;> decide

theorem linearKey_congr {f g : Dict} (h : SameFields f g) : linearKey rt g = linearKey rt f := by
  rw [linearKey, linearKey, rankValue_congr h.severity, h.file, h.get (k := "line") (by decide),
    h.get (k := "title") (by decide)]

/-- The sort key tells findings of different keys apart: only a missing line reads as 0. -/
theorem dedupKey_of_linearKey {f g : Dict} (hf : SpecialistFinding f) (hg : SpecialistFinding g)
    (h : linearKey rt f = linearKey rt g) : dedupKey rt f = dedupKey rt g := by
  obtain ⟨s, hs⟩ := hf.file
  obtain ⟨t, ht⟩ := hg.file
  simp only [linearKey, EmbeddingLike.apply_eq_iff_eq, Prod.mk.injEq, hs, ht, Value.asStr?,
    Option.getD_some] at h
  obtain ⟨-, hfile, hline, htitle⟩ := h
  have hlines : f.get "line" = g.get "line" := by
    rcases hf.line with hf | ⟨m, hm, hf⟩ <;> rcases hg.line with hg | ⟨n, hn, hg⟩ <;>
      rw [hf, hg] at hline ⊢ <;> simp only [Value.asInt?, Option.getD_some,
        Option.getD_none] at hline
    · omega
    · omega
    · rw [hline]
  rw [dedupKey, dedupKey, hs, ht, hfile, hlines, htitle]

/-- The finished records of a fold, sorted. -/
theorem sortFindings_foldInv {rs : List (Value × Dict)} {merged merged' : List (String × Dict)}
    (honce : ∀ r ∈ rs, ∀ r' ∈ rs, r.1 = r'.1 → dedupKey rt r.2 = dedupKey rt r'.2 → r = r')
    (inv : FoldInv rt rs merged) (hnodup : (merged.map Prod.fst).Nodup)
    (hperm : merged.Perm merged') :
    sortFindings rt (merged.map fun kr => finishRecord kr.2) =
      sortFindings rt (merged'.map fun kr => finishRecord kr.2) := by
  have horigin : ∀ kr ∈ merged, RecordOf rt rs kr.1 kr.2 ∧
      ∃ f, SpecialistFinding f ∧ dedupKey rt f = kr.1 ∧ SameFields f (finishRecord kr.2) := by
    rintro ⟨key, record⟩ hkr
    have hrecord := inv.record key record (Assoc.get?_of_mem hnodup hkr)
    obtain ⟨s, f, hbest, hrec⟩ := id hrecord
    refine ⟨hrecord, f, (inv.plain _ hbest.mem).finding, hbest.key_eq, ?_⟩
    rw [hrec]
    exact SameFields.trans (sameFields_recordOf f _ s) (sameFields_finishRecord _)
  refine sortFindings_perm (hperm.map _) (fun f hf => ?_) fun f hf g hg hkey => ?_
  · obtain ⟨kr, hkr, rfl⟩ := List.mem_map.1 hf
    obtain ⟨-, f₀, hf₀, -, hsame⟩ := horigin kr hkr
    refine ⟨?_, ?_⟩
    · rw [hsame.severity]
      exact hf₀.hashable
    · rw [hsame.file]
      exact hf₀.file
  -- records with the same linear key have one deduplication key, so they are one record
  · obtain ⟨kr, hkr, rfl⟩ := List.mem_map.1 hf
    obtain ⟨kr', hkr', rfl⟩ := List.mem_map.1 hg
    obtain ⟨hrecord, f₀, hf₀, hkeyf, hsame⟩ := horigin kr hkr
    obtain ⟨hrecord', g₀, hg₀, hkeyg, hsame'⟩ := horigin kr' hkr'
    rw [linearKey_congr hsame, linearKey_congr hsame'] at hkey
    have hkeys : kr.1 = kr'.1 :=
      hkeyf.symm.trans ((dedupKey_of_linearKey hf₀ hg₀ hkey).trans hkeyg)
    have hrecord₂ : RecordOf rt rs kr'.1 kr.2 := hkeys ▸ hrecord
    rw [hrecord₂.unique honce hrecord']

/-- **The collector's answer does not depend on the order in which the specialists finish.** -/
theorem collectFindings_perm (rt : Runtime) (embed : Embed) (env : Dict)
    {outputs outputs' : List Value} (h : DistinctSpecialists rt outputs)
    (hperm : outputs.Perm outputs') :
    collectFindings rt embed (Assoc.set env "specialist_outputs" (.list outputs)) =
      collectFindings rt embed (Assoc.set env "specialist_outputs" (.list outputs')) := by
  have hmem : ∀ r, r ∈ reports outputs ↔ r ∈ reports outputs' := fun r => by
    rw [mem_reports, mem_reports]
    exact exists_congr fun v => and_congr_left fun _ => hperm.mem_iff
  obtain ⟨merged, hmerged, inv⟩ := @recordOf_groupReports rt outputs fun r hr => h.plainReport hr
  obtain ⟨merged', hmerged', inv'⟩ :=
    @recordOf_groupReports rt outputs' fun r hr => (h.perm hperm).plainReport hr
  have hnodup := nodup_keys_groupFindings hmerged
  have hsorted := sortFindings_foldInv h.once inv hnodup
    (inv.perm hmem h.once inv' hnodup (nodup_keys_groupFindings hmerged'))
  have hconsolidate : consolidate rt embed outputs = consolidate rt embed outputs' := by
    rw [consolidate, consolidate, hmerged, hmerged', Result.ok_bind, Result.ok_bind, hsorted]
  have hargs (v : Value) : Dict.get (Assoc.set env "specialist_outputs" v) "args" =
      env.get "args" := by
    rw [Dict.get_set, if_neg (by decide)]
  simp only [collectFindings, Dict.get_set, if_pos, ensureList_list, hconsolidate, hargs]

/-- The output of a specialist that reports one race. -/
def raceBy (id severity : String) : Value :=
  .dict [("id", .str id), ("status", "completed"),
    ("findings", .list [.dict [("severity", .str severity), ("file", "a.py"), ("line", .int 3),
      ("title", "Race")]])]

theorem distinctSpecialists_raceBy :
    DistinctSpecialists Runtime.ascii [raceBy "quality" "minor", raceBy "security" "critical"] where
  ids := ⟨["quality", "security"], by decide, by decide, rfl⟩
  findings r hr := by
    have hfinding (severity : String) : SpecialistFinding [("severity", .str severity),
        ("file", "a.py"), ("line", .int 3), ("title", "Race")] :=
      ⟨by simp [Assoc.get?_cons], ⟨_, rfl⟩, ⟨_, rfl⟩, .inr ⟨3, by decide, rfl⟩⟩
    rcases List.mem_cons.1 hr with rfl | hr
    · exact hfinding "minor"
    · obtain rfl := List.mem_singleton.1 hr
      exact hfinding "critical"
  keys v hv := by
    rcases List.mem_cons.1 hv with rfl | hv
    · exact List.nodup_singleton _
    · obtain rfl := List.mem_singleton.1 hv
      exact List.nodup_singleton _

theorem collectFindings_perm_raceBy :
    collectFindings Runtime.ascii (fun _ => none) (Assoc.set [] "specialist_outputs"
        (.list [raceBy "quality" "minor", raceBy "security" "critical"])) =
      collectFindings Runtime.ascii (fun _ => none) (Assoc.set [] "specialist_outputs"
        (.list [raceBy "security" "critical", raceBy "quality" "minor"])) :=
  collectFindings_perm Runtime.ascii (fun _ => none) [] distinctSpecialists_raceBy
    (List.Perm.swap ..)

end CodeReview
