import CodeReview.Handlers.OrderFree
import Mathlib.Algebra.Order.Field.Basic
import Mathlib.Algebra.BigOperators.Ring.Finset
import Mathlib.Algebra.GroupWithZero.Nat
import Mathlib.Data.Finset.Card
import Mathlib.Data.Finset.Dedup
import Mathlib.Data.Prod.Lex
import Mathlib.Tactic.Linarith
import Mathlib.Tactic.NormNum

/-!
# The semantic merge by token overlap

Without an embedding command `_semantic_merge` compares the findings by their words.  It returns
one entry for every connected component of a relation that is not transitive itself.

* `mem_mergeGroups_iff` : a group is a component of the pairs that are found to be the same bug;
* `mergeEntries_merged` : the entry of a component;
* `semanticMerge_components` : **one entry for each component, and merging once is enough.**
-/

namespace CodeReview

open Py

variable {rt : Runtime} {embed : Embed}

/-! ### Groups -/

theorem mem_pairsBelow {n i j : ℕ} : (i, j) ∈ pairsBelow n ↔ i < j ∧ j < n := by
  simp only [pairsBelow, List.mem_flatMap, List.mem_map, List.mem_filter, List.mem_range,
    decide_eq_true_eq, Prod.mk.injEq]
  constructor
  · rintro ⟨i, -, j, ⟨hj, hij⟩, rfl, rfl⟩
    exact ⟨hij, hj⟩
  · rintro ⟨hij, hj⟩
    exact ⟨i, hij.trans hj, j, ⟨hj, hij⟩, rfl, rfl⟩

/-- Filing a position under its root adds it and nothing else. -/
theorem flatten_file (groups : List (ℕ × List ℕ)) (root i : ℕ) :
    ((Assoc.set groups root ((Assoc.get? groups root).getD [] ++ [i])).map Prod.snd).flatten.Perm
      ((groups.map Prod.snd).flatten ++ [i]) := by
  induction groups with
  | nil => simp [Assoc.set]
  | cons group groups ih =>
    obtain ⟨root', members⟩ := group
    by_cases h : root' = root
    · simp only [Assoc.set, Assoc.get?_cons, if_pos h, List.map_cons, List.flatten_cons,
        Option.getD_some, List.append_assoc]
      exact List.perm_append_comm.append_left members
    · simp only [Assoc.set, Assoc.get?_cons, if_neg h, List.map_cons, List.flatten_cons,
        List.append_assoc]
      exact ih.append_left members

theorem foldl_groupStep_succ (n : ℕ) (s : UnionFind × List (ℕ × List ℕ)) :
    (List.range (n + 1)).foldl groupStep s = groupStep ((List.range n).foldl groupStep s) n := by
  rw [List.range_succ, List.foldl_append]
  rfl

theorem groupStep_snd (s : UnionFind × List (ℕ × List ℕ)) (i : ℕ) : (groupStep s i).2 =
    Assoc.set s.2 (s.1.root i) ((Assoc.get? s.2 (s.1.root i)).getD [] ++ [i]) := rfl

/-- Searching the roots changes none of them. -/
theorem root_foldl_groupStep (n : ℕ) (forest : UnionFind) (x : ℕ) :
    ((List.range n).foldl groupStep (forest, [])).1.root x = forest.root x := by
  induction n with
  | zero => rfl
  | succ n ih =>
    rw [foldl_groupStep_succ, ← ih]
    exact UnionFind.root_find _ n x

/-- Every position is filed once. -/
theorem groupByRoot_perm (n : ℕ) (forest : UnionFind) :
    ((groupByRoot n forest).map Prod.snd).flatten.Perm (List.range n) := by
  induction n with
  | zero => exact .refl _
  | succ n ih =>
    rw [groupByRoot, foldl_groupStep_succ, List.range_succ]
    exact (flatten_file _ _ n).trans (ih.append_right [n])

theorem mergeGroups_perm (rt : Runtime) (embed : Embed) (fs : List Dict) :
    (mergeGroups rt embed fs).flatten.Perm (List.range fs.length) := by
  rw [mergeGroups]
  split_ifs
  · rw [← List.flatMap_def, List.flatMap_singleton']
  · exact groupByRoot_perm _ _

/-- The pairs of positions that are found to be the same bug. -/
def Paired (rt : Runtime) (embed : Embed) (fs : List Dict) : ℕ → ℕ → Prop :=
  UnionFind.Edge (fun p => sameBug rt fs (fs.map (findingText rt))
    (embedTexts embed (fs.map (findingText rt))) p.1 p.2) (pairsBelow fs.length)

/-- **A group is a connected component.** -/
theorem mem_mergeGroups_iff {fs : List Dict} {members : List ℕ}
    (h : members ∈ mergeGroups rt embed fs) {i j : ℕ} (hi : i ∈ members) (hj : j < fs.length) :
    j ∈ members ↔ Relation.EqvGen (Paired rt embed fs) i j := by
  have hlt := lt_of_mem_mergeGroups h hi
  rw [mergeGroups] at h
  split_ifs at h with hn
  · -- a single finding is a component of its own
    obtain ⟨k, -, rfl⟩ := List.mem_map.1 h
    obtain rfl : j = k := by
      have := List.mem_singleton.1 hi
      omega
    obtain rfl := List.mem_singleton.1 hi
    exact ⟨fun _ => .refl _, fun _ => List.mem_singleton_self _⟩
  · obtain ⟨⟨root, members'⟩, hentry, rfl⟩ := List.mem_map.1 h
    have hget := Assoc.get?_of_mem (nodup_keys_groupByRoot _ _) hentry
    have hroot := root_of_mem_groupByRoot hget hi
    rw [Paired, ← UnionFind.root_foldl_eq_iff, hroot]
    constructor
    · intro hmem
      exact (root_of_mem_groupByRoot hget hmem).symm
    · intro heq
      obtain ⟨root', members'', hget', hmem⟩ :=
        (groupByRoot_inv fs.length _).covers j (List.mem_range.2 hj)
      have hroot' := root_of_mem_groupByRoot hget' hmem
      rw [← heq] at hroot'
      subst hroot'
      rw [hget] at hget'
      exact Option.some.inj hget' ▸ hmem

/-- Without an edge there is nothing to unite. -/
theorem foldl_union_of_not_edge {test : ℕ × ℕ → Bool} {ps : List (ℕ × ℕ)}
    (h : ∀ i j, ¬ UnionFind.Edge test ps i j) (u : UnionFind) :
    ps.foldl (fun u p => if test p then u.union p.1 p.2 else u) u = u := by
  induction ps with
  | nil => rfl
  | cons p ps ih =>
    rw [List.foldl_cons, if_neg fun hp => h p.1 p.2 ⟨List.mem_cons_self, hp⟩]
    exact ih fun i j hij => h i j ⟨List.mem_cons_of_mem _ hij.1, hij.2⟩

/-- Where nothing was united every finding is a group. -/
theorem groupByRoot_singletons (n : ℕ) :
    groupByRoot n UnionFind.singletons = (List.range n).map fun i => (i, [i]) := by
  induction n with
  | zero => rfl
  | succ n ih =>
    have hroot : ((List.range n).foldl groupStep (UnionFind.singletons, [])).1.root n = n := by
      rw [root_foldl_groupStep, UnionFind.root_singletons]
    have hnew : Assoc.get? ((List.range n).map fun i => (i, [i])) n = none := by
      rw [Assoc.get?_eq_none_iff]
      simp
    have hset := Assoc.set_append hnew [] [n]
    rw [groupByRoot] at ih
    rw [groupByRoot, foldl_groupStep_succ, groupStep_snd, hroot, ih, hnew, List.range_succ,
      List.map_append]
    simpa [Assoc.set] using hset

/-- Where no pair is found, every finding is a group of its own. -/
theorem mergeGroups_of_not_paired {fs : List Dict} (h : ∀ i j, ¬ Paired rt embed fs i j) :
    mergeGroups rt embed fs = (List.range fs.length).map ([·]) := by
  rw [mergeGroups]
  split_ifs
  · rfl
  · simp only [foldl_union_of_not_edge h, groupByRoot_singletons, List.map_map, Function.comp_def]

/-! ### The relation -/

/-- The words of a finding's text. -/
def tokensOf (rt : Runtime) (f : Dict) : Finset String :=
  (Text.words (rt.lower (findingText rt f))).toFinset

/-- `_token_jaccard`, exactly; two empty sets have none. -/
def jaccard (s t : Finset String) : ℚ := (s ∩ t).card / (s ∪ t).card

/-- Reported in the same file, and at the same line or in similar words. -/
def SameIssue (rt : Runtime) (f g : Dict) : Prop :=
  f.get "file" = g.get "file" ∧
    (f.get "line" ≠ .none ∧ f.get "line" = g.get "line" ∨
      1 / 2 ≤ jaccard (tokensOf rt f) (tokensOf rt g))

/-- A finding with a file and, maybe, a line. -/
structure Located (f : Dict) : Prop where
  file : ∃ s, f.get "file" = .str s
  line : f.get "line" = .none ∨ ∃ n, f.get "line" = .int n

/-- A finding as the merge is given it: the collector's grouping leaves a list in `flagged_by`. -/
structure Mergeable (f : Dict) : Prop extends Located f where
  severity : (f.get "severity").hashable = true
  confidence : f.get "confidence" = .none ∨
    ∃ q, (f.get "confidence").num? = some (.fin q) ∧ 0 ≤ q ∧ q ≤ 1
  flagged : Result.Ok (flaggedBy f).iter
  count : f.get "merged_count" = .none

theorem jaccard_comm (s t : Finset String) : jaccard s t = jaccard t s := by
  rw [jaccard, jaccard, Finset.inter_comm, Finset.union_comm]

theorem SameIssue.symm {f g : Dict} (h : SameIssue rt f g) : SameIssue rt g f := by
  obtain ⟨hfile, ⟨hline, heq⟩ | hwords⟩ := h
  · exact ⟨hfile.symm, .inl ⟨heq ▸ hline, heq.symm⟩⟩
  · exact ⟨hfile.symm, .inr (jaccard_comm _ _ ▸ hwords)⟩

/-- Comparing the counts is comparing the quotient with one half. -/
theorem similarTokens_iff (a b : String) : similarTokens rt a b = true ↔
    1 / 2 ≤ jaccard (Text.words (rt.lower a)).toFinset (Text.words (rt.lower b)).toFinset := by
  have hunion : ((Text.words (rt.lower a)).dedup ∪ (Text.words (rt.lower b)).dedup).length =
      ((Text.words (rt.lower a)).toFinset ∪ (Text.words (rt.lower b)).toFinset).card := by
    rw [← List.toFinset_card_of_nodup ((List.nodup_dedup _).union _)]
    congr 1
    ext s
    simp
  have hinter : ((Text.words (rt.lower a)).dedup.filter
      (· ∈ (Text.words (rt.lower b)).dedup)).length =
      ((Text.words (rt.lower a)).toFinset ∩ (Text.words (rt.lower b)).toFinset).card := by
    rw [← List.toFinset_card_of_nodup ((List.nodup_dedup _).filter _)]
    congr 1
    ext s
    simp
  simp only [similarTokens, hunion, hinter, jaccard]
  generalize ((Text.words (rt.lower a)).toFinset ∪ _).card = u
  generalize ((Text.words (rt.lower a)).toFinset ∩ _).card = v
  rcases Nat.eq_zero_or_pos u with rfl | hu
  · norm_num
  · have hu' : (0 : ℚ) < u := by exact_mod_cast hu
    rw [div_le_div_iff₀ two_pos hu', Bool.and_eq_true, decide_eq_true_eq, decide_eq_true_eq]
    constructor
    · rintro ⟨-, h⟩
      have : (u : ℚ) ≤ 2 * v := by exact_mod_cast h
      linarith
    · intro h
      have : (u : ℚ) ≤ 2 * v := by linarith
      exact ⟨hu.ne', by exact_mod_cast this⟩

/-- The test of the double loop decides the relation. -/
theorem sameBug_iff {fs : List Dict} {i j : ℕ} (hi : i < fs.length) (hj : j < fs.length)
    (h : ∀ f ∈ fs, Located f) :
    sameBug rt fs (fs.map (findingText rt)) none i j = true ↔ SameIssue rt fs[i] fs[j] := by
  have hgetD (k : ℕ) (hk : k < fs.length) : fs.getD k [] = fs[k] := by
    rw [List.getD_eq_getElem?_getD, List.getElem?_eq_getElem hk]
    rfl
  have htext (k : ℕ) (hk : k < fs.length) :
      (fs.map (findingText rt)).getD k "" = findingText rt fs[k] := by
    rw [List.getD_eq_getElem?_getD, List.getElem?_map, List.getElem?_eq_getElem hk]
    rfl
  have hmi := h _ (List.getElem_mem hi)
  have hmj := h _ (List.getElem_mem hj)
  obtain ⟨s, hs⟩ := hmi.file
  obtain ⟨t, ht⟩ := hmj.file
  have hfile : (((fs[i]).get "file").or (.str "")).eqv (((fs[j]).get "file").or (.str "")) = true ↔
      (fs[i]).get "file" = (fs[j]).get "file" := by
    rw [hs, ht, or_empty, or_empty, Value.str_eqv, eq_comm]
  have hline : (!((fs[i]).get "line").isNone &&
      ((fs[i]).get "line").eqv ((fs[j]).get "line")) = true ↔
        (fs[i]).get "line" ≠ .none ∧ (fs[i]).get "line" = (fs[j]).get "line" := by
    rcases hmi.line with hi | ⟨m, hm⟩
    · simp [hi, Value.isNone]
    · rcases hmj.line with hj | ⟨n, hn⟩
      · simp [hm, hj, Value.eqv, Value.eqvNum, Value.num?]
      · simp [hm, hn, Value.eqv, Value.eqvNum, Value.num?, Value.isNone, Double.eq]
  rw [sameBug, hgetD i hi, hgetD j hj, Bool.and_eq_true, Bool.or_eq_true, hfile, hline, similarAt,
    htext i hi, htext j hj, similarTokens_iff]
  rfl

/-! ### The entry of a component -/

/-- The confidence as a number; an absent one counts as 0. -/
def confidenceOf (f : Dict) : ℚ :=
  match (f.get "confidence").num? with
  | some (.fin q) => q
  | _ => 0

/-- What the representative is chosen by. -/
def lexKey (f : Dict) : ℕ ×ₗ ℚ := toLex (rankValue f, confidenceOf f)

/-- The entry that two or more findings become. -/
structure MergedFrom (fs : List Dict) (g : Dict) : Prop where
  /-- It is a greatest member, apart from the three fields below. -/
  rep : ∃ f ∈ fs, (∀ f' ∈ fs, lexKey f' ≤ lexKey f) ∧
    ∀ k ∉ ["flagged_by", "confidence", "merged_count"], Assoc.get? g k = Assoc.get? f k
  /-- It is flagged by whoever flags a member, in order. -/
  flagged : ∃ ids, g.get "flagged_by" = ofStrs ids ∧ ids.Pairwise (· < ·) ∧
    ∀ s, s ∈ ids ↔ ∃ f ∈ fs, Flags f s
  /-- Its confidence is the greatest one. -/
  confidence : (∀ f ∈ fs, confidenceOf f ≤ confidenceOf g) ∧ ∃ f ∈ fs,
    confidenceOf f = confidenceOf g
  count : g.get "merged_count" = .int fs.length

theorem confidenceOf_nonneg {f : Dict} (h : Mergeable f) : 0 ≤ confidenceOf f := by
  rw [confidenceOf]
  rcases h.confidence with hnone | ⟨q, hq, h0, -⟩
  · simp [hnone, Value.num?]
  · simpa [hq] using h0

/-- A number in the unit interval reads as itself. -/
theorem confidence_eq {f : Dict} (h : Mergeable f) :
    confidence rt f = .ok (.fin (confidenceOf f)) := by
  rw [confidence, confidenceOf]
  rcases h.confidence with hnone | ⟨q, hq, h0, h1⟩
  · rw [hnone]
    rfl
  · rw [hq]
    cases hv : f.get "confidence" <;> rw [hv] at hq <;> simp only [Value.num?, reduceCtorEq,
      Option.some.injEq, Double.fin.injEq] at hq
    case bool b =>
      subst hq
      cases b <;> rfl
    case int n =>
      subst hq
      have hn : 0 ≤ n ∧ n ≤ 1 := by exact_mod_cast And.intro h0 h1
      obtain rfl | rfl : n = 0 ∨ n = 1 := by omega
      · rfl
      · have hone : Double.ofInt 1 = .ok (.fin ((1 : ℤ) : ℚ)) :=
          Double.ofInt_eq_ok (by simpa using Double.one_lt_bound)
        exact hone
    case float x =>
      subst hq
      unfold Value.or
      split_ifs with ht
      · rfl
      · have hzero : q = 0 := by simpa [Value.truthy, Double.truthy, Double.eq] using ht
        rw [hzero]
        rfl

theorem repKey_eq {f : Dict} (h : Mergeable f) :
    repKey rt f = .ok (rankValue f, .fin (confidenceOf f)) := by
  rw [repKey, rankOf_eq h.severity, Result.ok_bind, confidence_eq h]
  rfl

/-- On readable keys the comparison of `max` is the lexicographic order. -/
theorem keyGt_iff {f g : Dict} : keyGt (rankValue f, .fin (confidenceOf f))
    (rankValue g, .fin (confidenceOf g)) = true ↔ lexKey g < lexKey f := by
  rw [lexKey, lexKey, Prod.Lex.toLex_lt_toLex, keyGt]
  split_ifs with hne
  · simp only [decide_eq_true_eq]
    constructor
    · exact .inl
    · rintro (hlt | ⟨heq, -⟩)
      · exact hlt
      · exact absurd heq.symm hne
  · have heq : rankValue f = rankValue g := not_not.1 hne
    simp only [Double.eq, Double.lt, Bool.and_eq_true, Bool.not_eq_true', decide_eq_false_iff_not,
      decide_eq_true_eq, heq, lt_irrefl, false_or, true_and]
    exact ⟨And.right, fun hlt => ⟨hlt.ne', hlt⟩⟩

/-- The loop over the confidences keeps the greatest. -/
theorem foldl_best (qs : List ℚ) (q : ℚ) :
    ∃ m, (qs.map Double.fin).foldl (fun best c => if best.lt c then c else best) (.fin q) = .fin m ∧
      (∀ x ∈ q :: qs, x ≤ m) ∧ m ∈ q :: qs := by
  induction qs generalizing q with
  | nil => exact ⟨q, rfl, by simp, List.mem_singleton_self q⟩
  | cons x qs ih =>
    have hstep : (if (Double.fin q).lt (.fin x) then Double.fin x else .fin q) =
        .fin (max q x) := by
      rcases lt_or_ge q x with h | h
      · simp [Double.lt, h, h.le]
      · simp [Double.lt, not_lt.2 h, h]
    obtain ⟨m, hm, hle, hmem⟩ := ih (max q x)
    refine ⟨m, by rw [List.map_cons, List.foldl_cons, hstep, hm], fun y hy => ?_, ?_⟩
    · have hmax := hle (max q x) List.mem_cons_self
      rcases List.mem_cons.1 hy with rfl | hy
      · exact (le_max_left _ _).trans hmax
      · rcases List.mem_cons.1 hy with rfl | hy
        · exact (le_max_right _ _).trans hmax
        · exact hle y (List.mem_cons_of_mem _ hy)
    · rcases List.mem_cons.1 hmem with rfl | hmem
      · rcases max_choice q x with h | h <;> simp [h]
      · exact List.mem_cons_of_mem _ (List.mem_cons_of_mem _ hmem)

theorem confidenceOf_mergedEntry (rep : Dict) (flagged : List String) (m : ℚ) (count : ℕ) :
    confidenceOf (mergedEntry rep flagged (.fin m) count) =
      if m = 0 then confidenceOf rep else m := by
  rw [confidenceOf, confidence_mergedEntry]
  by_cases hm : m = 0
  · simp [hm, Double.truthy, Double.eq, confidenceOf]
  · simp [hm, Double.truthy, Double.eq, Value.num?]

/-- The member with the greatest key is a greatest member. -/
theorem greatest_rep {fs : List Dict} (h : ∀ f ∈ fs, Mergeable f) {k : (ℕ × Double) × Dict}
    {ks : List ((ℕ × Double) × Dict)} (hkeyed : Result.withKeys (repKey rt) fs = .ok (k :: ks)) :
    (maxBy (fun a b => keyGt a.1 b.1) k ks).2 ∈ fs ∧
      ∀ a ∈ fs, lexKey a ≤ lexKey (maxBy (fun a b => keyGt a.1 b.1) k ks).2 := by
  obtain ⟨hsnd, hkey⟩ := Result.withKeys_eq_ok hkeyed
  have hkeys : ∀ ka ∈ k :: ks, ka.1 = (rankValue ka.2, .fin (confidenceOf ka.2)) ∧ ka.2 ∈ fs := by
    intro ka hka
    have hmem : ka.2 ∈ fs := hsnd ▸ List.mem_map_of_mem hka
    have heq := hkey ka hka
    rw [repKey_eq (h _ hmem)] at heq
    exact ⟨(Except.ok.inj heq).symm, hmem⟩
  have hgreatest := le_maxBy (fun a b : (ℕ × Double) × Dict => keyGt a.1 b.1)
    (fun ka => lexKey ka.2) k ks fun a ha b hb => by
      rw [(hkeys a ha).1, (hkeys b hb).1]
      exact ⟨fun hgt => (keyGt_iff.1 hgt).le,
        fun hgt => not_lt.1 fun hlt => by simp [keyGt_iff.2 hlt] at hgt⟩
  refine ⟨(hkeys _ (maxBy_mem ..)).2, ?_⟩
  intro a ha
  obtain ⟨ka, hka, rfl⟩ := List.mem_map.1 (hsnd ▸ ha)
  exact hgreatest ka hka

/-- The confidence of the merged entry is the greatest of its members. -/
theorem greatest_confidence {fs : List Dict} (h : ∀ f ∈ fs, Mergeable f) {rep : Dict}
    (hrep : rep ∈ fs) {m : ℚ} (hle : ∀ x ∈ 0 :: fs.map confidenceOf, x ≤ m)
    (hmem : m ∈ 0 :: fs.map confidenceOf) :
    (∀ f ∈ fs, confidenceOf f ≤ if m = 0 then confidenceOf rep else m) ∧
      ∃ f ∈ fs, confidenceOf f = if m = 0 then confidenceOf rep else m := by
  have hle' : ∀ a ∈ fs, confidenceOf a ≤ m := fun a ha =>
    hle _ (List.mem_cons_of_mem _ (List.mem_map_of_mem ha))
  split_ifs with hm
  · -- every member's confidence is 0
    have hzero : ∀ a ∈ fs, confidenceOf a = 0 := fun a ha =>
      le_antisymm (hm ▸ hle' a ha) (confidenceOf_nonneg (h a ha))
    exact ⟨fun a ha => by rw [hzero a ha, hzero _ hrep], rep, hrep, rfl⟩
  · rcases List.mem_cons.1 hmem with rfl | hmem
    · exact absurd rfl hm
    · obtain ⟨a, ha, heq⟩ := List.mem_map.1 hmem
      exact ⟨hle', a, ha, heq⟩

/-- **The entry of a component of two or more.** -/
theorem mergeEntries_merged {fs : List Dict} (hlen : 2 ≤ fs.length) (h : ∀ f ∈ fs, Mergeable f) :
    ∃ g, mergeEntries rt fs = .ok g ∧ MergedFrom fs g := by
  match fs, hlen with
  | f :: f' :: fs, _ =>
    obtain ⟨keyed, hkeyed⟩ : Result.Ok (Result.withKeys (repKey rt) (f :: f' :: fs)) :=
      Result.withKeys_ok fun a ha => ⟨_, repKey_eq (h a ha)⟩
    obtain ⟨flags, hflags⟩ := Result.mapM_ok fun a ha =>
      let ⟨vs, hvs⟩ := (h a ha).flagged
      (⟨strs vs, by rw [flagsOf, hvs]; rfl⟩ : Result.Ok (flagsOf a))
    have hconfs : (f :: f' :: fs).mapM (confidence rt) =
        .ok (((f :: f' :: fs).map confidenceOf).map Double.fin) := by
      rw [Result.mapM_eq_ok, List.map_map, List.forall₂_map_right_iff]
      exact List.forall₂_same.2 fun a ha => confidence_eq (h a ha)
    cases keyed with
    | nil => cases (Result.withKeys_eq_ok hkeyed).1
    | cons k ks =>
      have hmerge := mergeEntries_eq hkeyed hflags hconfs
      obtain ⟨hrep, hgreatest⟩ := greatest_rep h hkeyed
      obtain ⟨m, hm, hle, hmem⟩ := foldl_best ((f :: f' :: fs).map confidenceOf) 0
      rw [hm] at hmerge
      refine ⟨_, hmerge, ⟨_, hrep, hgreatest, ?_⟩, ⟨_, flagged_mergedEntry .., pairwise_sortedSet _,
        mem_mergedFlags hflags⟩, ?_, ?_⟩
      · exact fun k hk => get?_mergedEntry _ _ _ _ hk
      · rw [confidenceOf_mergedEntry]
        exact greatest_confidence h hrep hle hmem
      · rw [mergedEntry, Dict.get_set, if_pos rfl]

/-! ### One entry for each component -/

/-- No embedding command. -/
def noEmbed : Embed := fun _ => none

/-- The findings at two positions are the same issue. -/
def Related (rt : Runtime) (fs : List Dict) (i j : ℕ) : Prop :=
  ∃ (hi : i < fs.length) (hj : j < fs.length), SameIssue rt fs[i] fs[j]

theorem related_of_paired {fs : List Dict} (h : ∀ f ∈ fs, Located f) {i j : ℕ}
    (hij : Paired rt noEmbed fs i j) : Related rt fs i j := by
  obtain ⟨hmem, hbug⟩ := hij
  obtain ⟨hlt, hj⟩ := mem_pairsBelow.1 hmem
  exact ⟨hlt.trans hj, hj, (sameBug_iff (hlt.trans hj) hj h).1 hbug⟩

theorem paired_of_related {fs : List Dict} (h : ∀ f ∈ fs, Located f) {i j : ℕ} (hlt : i < j)
    (hij : Related rt fs i j) : Paired rt noEmbed fs i j := by
  obtain ⟨hi, hj, hsame⟩ := hij
  exact ⟨mem_pairsBelow.2 ⟨hlt, hj⟩, (sameBug_iff hi hj h).2 hsame⟩

/-- The loop tests each pair in one order only, which is enough. -/
theorem eqvGen_paired {fs : List Dict} (h : ∀ f ∈ fs, Located f) {i j : ℕ} :
    Relation.EqvGen (Paired rt noEmbed fs) i j ↔ Relation.EqvGen (Related rt fs) i j := by
  constructor
  · exact Relation.EqvGen.mono (fun i j hij => related_of_paired h hij) i j
  · intro hij
    induction hij with
    | rel i j hij =>
      rcases lt_trichotomy i j with hlt | rfl | hgt
      · exact .rel _ _ (paired_of_related h hlt hij)
      · exact .refl _
      · obtain ⟨hi, hj, hsame⟩ := hij
        exact .symm _ _ (.rel _ _ (paired_of_related h hgt ⟨hj, hi, hsame.symm⟩))
    | refl => exact .refl _
    | symm _ _ _ ih => exact .symm _ _ ih
    | trans _ _ _ _ _ ih ih' => exact .trans _ _ _ ih ih'

/-- The positions of the findings, by component. -/
structure ComponentsOf (rt : Runtime) (fs : List Dict) (groups : List (List ℕ)) : Prop where
  /-- Every position is in one group, once. -/
  once : groups.flatten.Perm (List.range fs.length)
  filled : ∀ members ∈ groups, members ≠ []
  component : ∀ members ∈ groups, ∀ i ∈ members, ∀ j < fs.length,
    j ∈ members ↔ Relation.EqvGen (Related rt fs) i j

/-- The entry of a component: its only finding, or what its findings are merged into. -/
def EntryOf (fs : List Dict) (members : List ℕ) (g : Dict) : Prop :=
  (∃ i, members = [i] ∧ g = fs.getD i []) ∨
    2 ≤ members.length ∧ MergedFrom (members.map fun i => fs.getD i []) g

/-- `merged_count`, 1 when it is absent. -/
def mergedCount (g : Dict) : ℤ := (g.get "merged_count").asInt?.getD 1

theorem componentsOf_mergeGroups {fs : List Dict} (h : ∀ f ∈ fs, Mergeable f) :
    ComponentsOf rt fs (mergeGroups rt noEmbed fs) where
  once := mergeGroups_perm ..
  filled _ hmembers := ne_nil_of_mem_mergeGroups hmembers
  component _ hmembers _ hi _ hj :=
    (mem_mergeGroups_iff hmembers hi hj).trans (eqvGen_paired fun f hf => (h f hf).toLocated)

theorem mem_of_getD {fs : List Dict} {i : ℕ} (hi : i < fs.length) : fs.getD i [] ∈ fs := by
  rw [List.getD_eq_getElem?_getD, List.getElem?_eq_getElem hi]
  exact List.getElem_mem hi

theorem mergeGroup_entryOf {fs : List Dict} (h : ∀ f ∈ fs, Mergeable f) {members : List ℕ}
    (hmembers : members ∈ mergeGroups rt embed fs) :
    ∃ g, mergeGroup rt fs members = .ok g ∧ EntryOf fs members g := by
  have hlt : ∀ i ∈ members, i < fs.length := fun i hi => lt_of_mem_mergeGroups hmembers hi
  match members, ne_nil_of_mem_mergeGroups hmembers with
  | [i], _ => exact ⟨fs.getD i [], rfl, .inl ⟨i, rfl, rfl⟩⟩
  | i :: j :: is, _ =>
    have hmerge : ∀ f ∈ (i :: j :: is).map fun k => fs.getD k [], Mergeable f := by
      intro f hf
      obtain ⟨k, hk, rfl⟩ := List.mem_map.1 hf
      exact h _ (mem_of_getD (hlt k hk))
    obtain ⟨g, hg, hmerged⟩ : ∃ g, mergeEntries rt ((i :: j :: is).map fun k => fs.getD k []) =
        .ok g ∧ MergedFrom _ g := mergeEntries_merged (by simp) hmerge
    exact ⟨g, hg, .inr ⟨by simp, hmerged⟩⟩

/-- The fields that the relation reads. -/
def comparedFields : List String := ["file", "line", "title", "description"]

theorem findingText_congr {f g : Dict} (h : ∀ k ∈ comparedFields, Assoc.get? g k = Assoc.get? f k) :
    findingText rt g = findingText rt f := by
  rw [findingText, findingText, Dict.getD, Dict.getD, Dict.getD, Dict.getD, h _ (by decide),
    h _ (by decide)]

theorem get_congr {f g : Dict} (h : ∀ k ∈ comparedFields, Assoc.get? g k = Assoc.get? f k)
    {k : String} (hk : k ∈ comparedFields) : g.get k = f.get k := by
  rw [Dict.get, h k hk]
  rfl

theorem sameIssue_congr {f f' g g' : Dict}
    (h : ∀ k ∈ comparedFields, Assoc.get? g k = Assoc.get? f k)
    (h' : ∀ k ∈ comparedFields, Assoc.get? g' k = Assoc.get? f' k) :
    SameIssue rt g g' ↔ SameIssue rt f f' := by
  rw [SameIssue, SameIssue, tokensOf, tokensOf, findingText_congr h, findingText_congr h',
    get_congr h (k := "file") (by decide), get_congr h (k := "line") (by decide),
    get_congr h' (k := "file") (by decide), get_congr h' (k := "line") (by decide)]
  rfl

/-- An entry stands where one of its component's findings stands. -/
theorem EntryOf.stands {fs : List Dict} {members : List ℕ} {g : Dict} (h : EntryOf fs members g) :
    ∃ i ∈ members, ∀ k ∈ comparedFields, Assoc.get? g k = Assoc.get? (fs.getD i []) k := by
  rcases h with ⟨i, rfl, rfl⟩ | ⟨-, hmerged⟩
  · exact ⟨i, List.mem_singleton_self i, fun _ _ => rfl⟩
  · obtain ⟨f, hf, -, hfields⟩ := hmerged.rep
    obtain ⟨i, hi, rfl⟩ := List.mem_map.1 hf
    refine ⟨i, hi, fun k hk => hfields k ?_⟩
    revert k
    decide

theorem EntryOf.mergedCount {fs : List Dict} (hfs : ∀ f ∈ fs, Mergeable f) {members : List ℕ}
    (hlt : ∀ i ∈ members, i < fs.length) {g : Dict} (h : EntryOf fs members g) :
    mergedCount g = members.length := by
  rcases h with ⟨i, rfl, rfl⟩ | ⟨-, hmerged⟩
  · rw [CodeReview.mergedCount, (hfs _ (mem_of_getD (hlt i (by simp)))).count]
    rfl
  · rw [CodeReview.mergedCount, hmerged.count, List.length_map]
    rfl

/-- An entry stands for one of its members, which is a finding of the list. -/
theorem EntryOf.exists_member {fs : List Dict} {members : List ℕ}
    (hlt : ∀ i ∈ members, i < fs.length) {g : Dict} (h : EntryOf fs members g) :
    ∃ i, ∃ hi : i < fs.length, i ∈ members ∧
      ∀ k ∈ comparedFields, Assoc.get? g k = Assoc.get? fs[i] k := by
  obtain ⟨i, hi, hfields⟩ := h.stands
  have hilt := hlt i hi
  refine ⟨i, hilt, hi, fun k hk => (hfields k hk).trans ?_⟩
  rw [List.getD_eq_getElem?_getD, List.getElem?_eq_getElem hilt]
  rfl

/-- Entries of different components are not related. -/
theorem not_paired_entries {fs gs : List Dict} (hfs : ∀ f ∈ fs, Mergeable f)
    {groups : List (List ℕ)} (hgroups : ComponentsOf rt fs groups)
    (hentries : List.Forall₂ (EntryOf fs) groups gs) (a b : ℕ) : ¬ Paired rt noEmbed gs a b := by
  have hlen := hentries.length_eq
  have hlt : ∀ members ∈ groups, ∀ i ∈ members, i < fs.length := fun members hm i hi =>
    List.mem_range.1 (hgroups.once.mem_iff.1 (List.mem_flatten.2 ⟨members, hm, hi⟩))
  have hstands (a : ℕ) (ha : a < gs.length) (hga : a < groups.length) :
      ∃ i, ∃ hi : i < fs.length, i ∈ groups[a] ∧
        ∀ k ∈ comparedFields, Assoc.get? gs[a] k = Assoc.get? fs[i] k :=
    (hentries.get hga ha).exists_member (hlt _ (List.getElem_mem hga))
  have hlocated : ∀ g ∈ gs, Located g := by
    intro g hg
    obtain ⟨a, ha, rfl⟩ := List.mem_iff_getElem.1 hg
    obtain ⟨i, hi, -, hfields⟩ := hstands a ha (hlen ▸ ha)
    have hf := (hfs _ (List.getElem_mem hi)).toLocated
    refine ⟨?_, ?_⟩
    · rw [get_congr hfields (by decide)]
      exact hf.file
    · rw [get_congr hfields (by decide)]
      exact hf.line
  intro hpaired
  obtain ⟨ha, hb, hsame⟩ := related_of_paired hlocated hpaired
  have hab := (mem_pairsBelow.1 hpaired.1).1
  have hga : a < groups.length := hlen ▸ ha
  have hgb : b < groups.length := hlen ▸ hb
  obtain ⟨i, hi, hia, hfi⟩ := hstands a ha hga
  obtain ⟨j, hj, hjb, hfj⟩ := hstands b hb hgb
  -- the findings they stand for are related, so of one component
  have hrelated : Related rt fs i j := ⟨hi, hj, (sameIssue_congr hfi hfj).1 hsame⟩
  have hja : j ∈ groups[a] :=
    (hgroups.component _ (List.getElem_mem hga) i hia j hj).2 (.rel _ _ hrelated)
  have hdisjoint := (List.nodup_flatten.1 (hgroups.once.nodup_iff.2 List.nodup_range)).2
  exact List.pairwise_iff_getElem.1 hdisjoint a b hga hgb hab hja hjb

theorem map_mergedCount {fs gs : List Dict} (hfs : ∀ f ∈ fs, Mergeable f) {groups : List (List ℕ)}
    (hlt : ∀ members ∈ groups, ∀ i ∈ members, i < fs.length)
    (hentries : List.Forall₂ (EntryOf fs) groups gs) :
    gs.map mergedCount = groups.map fun members => (members.length : ℤ) := by
  induction hentries with
  | nil => rfl
  | cons hentry _ ih =>
    obtain ⟨hfirst, hrest⟩ := List.forall_mem_cons.1 hlt
    rw [List.map_cons, List.map_cons, hentry.mergedCount hfs hfirst, ih hrest]

/-- **The semantic merge computes connected components.** -/
theorem semanticMerge_components (rt : Runtime) {fs : List Dict} (h : ∀ f ∈ fs, Mergeable f) :
    ∃ groups gs, semanticMerge rt noEmbed fs = .ok gs ∧ ComponentsOf rt fs groups ∧
      List.Forall₂ (EntryOf fs) groups gs ∧ (gs.map mergedCount).sum = fs.length ∧
      semanticMerge rt noEmbed gs = .ok gs := by
  have hgroups : ComponentsOf rt fs (mergeGroups rt noEmbed fs) := componentsOf_mergeGroups h
  obtain ⟨gs, hgs, hentries⟩ : ∃ gs, (mergeGroups rt noEmbed fs).mapM (mergeGroup rt fs) =
      .ok gs ∧ List.Forall₂ (EntryOf fs) (mergeGroups rt noEmbed fs) gs :=
    Result.mapM_forall₂ fun _ hmembers => mergeGroup_entryOf h hmembers
  refine ⟨_, gs, hgs, hgroups, hentries, ?_, ?_⟩
  · -- the groups hold every position once
    have hcounts := map_mergedCount h (fun _ hm _ hi => lt_of_mem_mergeGroups hm hi) hentries
    have hlength := hgroups.once.length_eq
    rw [List.length_flatten, List.length_range] at hlength
    rw [hcounts, ← hlength, Nat.cast_list_sum, List.map_map]
    rfl
  · rw [semanticMerge, mergeGroups_of_not_paired (not_paired_entries h hgroups hentries),
      Result.mapM_eq_ok, List.forall₂_map_left_iff]
    refine List.forall₂_iff_get.2 ⟨by simp, ?_⟩
    intro i hi hi'
    rw [mergeGroup, List.map_singleton, List.getD_eq_getElem?_getD]
    simp [mergeEntries, hi']

/-- A finding of the tests. -/
def issueAt (line : Value) (title : String) : Dict :=
  [("severity", .str "minor"), ("file", .str "a.py"), ("line", line), ("title", .str title),
    ("flagged_by", .list [.str "quality"])]

theorem semanticMerge_components_pair : ∃ gs,
    semanticMerge Runtime.ascii noEmbed [issueAt (.int 3) "Race", issueAt (.int 3) "Leak"] =
      .ok gs ∧ (gs.map mergedCount).sum = 2 := by
  have h : ∀ f ∈ [issueAt (.int 3) "Race", issueAt (.int 3) "Leak"], Mergeable f := by
    intro f hf
    have hissue (title : String) : Mergeable (issueAt (.int 3) title) :=
      { file := ⟨_, rfl⟩
        line := .inr ⟨3, rfl⟩
        severity := rfl
        confidence := .inl rfl
        flagged := ⟨_, rfl⟩
        count := rfl }
    rcases List.mem_cons.1 hf with rfl | hf
    · exact hissue _
    · rw [List.mem_singleton.1 hf]
      exact hissue _
  obtain ⟨_, gs, hgs, -, -, hsum, -⟩ := semanticMerge_components Runtime.ascii h
  exact ⟨gs, hgs, hsum⟩

end CodeReview
