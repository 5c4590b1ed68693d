import CodeReview.Runner.Conforms
import Mathlib.Algebra.Order.BigOperators.Group.List
import Mathlib.Algebra.Order.Group.Abs
import Mathlib.Tactic.Linarith

/-!
# Stamps in range

A sum of finite floats can overflow to an infinity, which has no `int`.  When the magnitudes of all
accepted stamps together stay in the range of a double, no conversion and no sum of a dispatch
raises, however the unit was split.

* `sumCostStamp_inRange` : sums of stamps in range are no larger than the magnitudes they sum;
* `returns_of_inRange` : **a dispatch whose accepted stamps are in range returns**, with retries for
  which the back-offs have a float.
-/

namespace CodeReview

open Py Proc

/-- The magnitude of a finite number; no number counts nothing. -/
def magnitude : Value → ℚ
  | .int n => |(n : ℚ)|
  | .float (.fin q) => |q|
  | _ => 0

/-- The value is no number, or a finite one of a magnitude up to `b`. -/
structure Within (b : ℚ) (v : Value) : Prop where
  finite : IntConvertible v
  magnitude_le : magnitude v ≤ b

theorem magnitude_nonneg (v : Value) : 0 ≤ magnitude v := by
  unfold magnitude
  split
  · exact abs_nonneg _
  · exact abs_nonneg _
  · exact le_rfl

/-- A finite number in range has a float. -/
theorem numToFloat_of_within {b : ℚ} {v : Value} (h : Within b v) (hb : b < Double.bound)
    (hnum : isNumber v = true) : ∃ q, numToFloat v = .ok (.fin q) ∧ |q| = magnitude v := by
  cases v with
  | int n =>
    refine ⟨n, ?_, rfl⟩
    exact Double.ofInt_eq_ok (lt_of_le_of_lt h.magnitude_le hb)
  | float x =>
    obtain ⟨q, rfl⟩ := h.finite x rfl
    exact ⟨q, rfl, rfl⟩
  | _ => cases hnum

/-- A sum of floats in range is finite, and no larger than the magnitudes. -/
theorem foldl_add_fin {vals : List ℚ} {acc : ℚ}
    (h : |acc| + (vals.map abs).sum < Double.bound) :
    ∃ q, (vals.map Double.fin).foldl Double.add (.fin acc) = .fin q ∧
      |q| ≤ |acc| + (vals.map abs).sum := by
  induction vals generalizing acc with
  | nil => exact ⟨acc, rfl, by simp⟩
  | cons v vals ih =>
    simp only [List.map_cons, List.sum_cons] at h ⊢
    have hrest : 0 ≤ (vals.map abs).sum :=
      List.sum_nonneg fun x hx => by
        obtain ⟨y, -, rfl⟩ := List.mem_map.1 hx
        exact abs_nonneg y
    have hsum := abs_add_le acc v
    have hadd : (Double.fin acc).add (.fin v) = .fin (acc + v) := Double.ofRat_eq_fin (by linarith)
    have hbound : |acc + v| + (vals.map abs).sum < Double.bound := by linarith
    obtain ⟨q, hq, hle⟩ := ih hbound
    exact ⟨q, by rw [List.foldl_cons, hadd, hq], by linarith⟩

/-- The numbers under a key, as floats. -/
theorem stampValues_of_within {results : List Dict} {key : String} {b : ℚ}
    (h : ∀ r ∈ results, Within b (r.get key)) (hb : b < Double.bound) :
    ∃ vals : List ℚ, stampValues results key = .ok (vals.map .fin) ∧
      (vals.map abs).sum = (results.map fun r => magnitude (r.get key)).sum := by
  induction results with
  | nil => exact ⟨[], rfl, rfl⟩
  | cons r results ih =>
    obtain ⟨vals, hvals, hsum⟩ := ih fun r' hr' => h r' (List.mem_cons_of_mem _ hr')
    unfold stampValues at hvals ⊢
    rw [List.map_cons, List.filter_cons]
    cases hnum : isNumber (r.get key) with
    | false =>
      refine ⟨vals, by simpa using hvals, ?_⟩
      have hzero : magnitude (r.get key) = 0 := by
        revert hnum
        cases r.get key <;> simp [isNumber, magnitude]
      simp [hsum, hzero]
    | true =>
      obtain ⟨q, hq, habs⟩ := numToFloat_of_within (h r List.mem_cons_self) hb hnum
      refine ⟨q :: vals, ?_, by simp [hsum, habs]⟩
      rw [if_pos rfl, List.mapM_cons, hq, Result.ok_bind, hvals]
      rfl

/-- One sum in range. -/
theorem sumKey_of_within {results : List Dict} {key : String} (asInt : Bool) {b : ℚ}
    (h : ∀ r ∈ results, Within b (r.get key)) (hb : b < Double.bound)
    (hsum : (results.map fun r => magnitude (r.get key)).sum < Double.bound) :
    ∃ part, sumKey results key asInt = .ok part ∧
      Within (results.map fun r => magnitude (r.get key)).sum (Dict.get part key) := by
  have hnonneg : 0 ≤ (results.map fun r => magnitude (r.get key)).sum :=
    List.sum_nonneg fun x hx => by
      obtain ⟨r, -, rfl⟩ := List.mem_map.1 hx
      exact magnitude_nonneg _
  obtain ⟨vals, hvals, habs⟩ := stampValues_of_within h hb
  have hfin : |(0 : ℚ)| + (vals.map abs).sum < Double.bound := by simpa [habs] using hsum
  obtain ⟨q, hq, hle⟩ := foldl_add_fin hfin
  rw [abs_zero, zero_add, habs] at hle
  unfold sumKey
  rw [hvals, Result.ok_bind]
  -- no stamp at all, an integer sum, or a float sum
  split_ifs with hempty
  · exact ⟨[], rfl, ⟨(by rintro x ⟨⟩), hnonneg⟩⟩
  · refine ⟨[(key, .int (q.num.tdiv q.den))], ?_, ?_⟩
    · rw [sumFloats, hq]
      rfl
    · rw [Dict.get_cons, if_pos rfl]
      exact ⟨(by rintro x ⟨⟩), (Double.abs_trunc_le q).trans hle⟩
  · refine ⟨[(key, .float (.fin q))], ?_, ?_⟩
    · rw [sumFloats, hq]
      rfl
    · rw [Dict.get_cons, if_pos rfl]
      refine ⟨?_, hle⟩
      rintro x ⟨⟩
      exact ⟨q, rfl⟩

/-- The numbers of a stamp. -/
def stampNumbers : List String := stampKeys.map Prod.fst

/-- The magnitudes under a key. -/
def totalMagnitude (outs : List Dict) (key : String) : ℚ :=
  (outs.map fun out => magnitude (out.get key)).sum

/-- The stamps are finite numbers, and in range together. -/
structure StampsInRange (outs : List Dict) : Prop where
  finite : ∀ out ∈ outs, ∀ key ∈ stampNumbers, IntConvertible (out.get key)
  total : ∀ key ∈ stampNumbers, totalMagnitude outs key < Double.bound

/-- Each key of the sums is the sum of its own numbers. -/
theorem get_sumCostStamp {results : List Dict} {stamp : Dict}
    (h : sumCostStamp results = .ok stamp) {k : String × Bool} (hk : k ∈ stampKeys) :
    ∃ part, sumKey results k.1 k.2 = .ok part ∧ Dict.get stamp k.1 = Dict.get part k.1 := by
  obtain ⟨parts, hparts, hstamp⟩ := Result.bind_eq_ok.1 h
  obtain rfl := Except.ok.inj hstamp
  have hnamed (k : String × Bool) (part : Dict) (hpart : sumKey results k.1 k.2 = .ok part) :
      ∀ k' ∈ part.map Prod.fst, k' = Prod.fst k := fun k' hk' =>
    List.mem_singleton.1 ((sumKey_keys hpart).subset hk')
  obtain ⟨part, hpart, hflat⟩ :=
    Assoc.get?_flatten (Result.mapM_eq_ok.1 hparts) hnamed (by decide) k hk
  have htier : Assoc.get? (((results.map (·.get "tier")).find? fun v => !v.isNone).elim []
      fun v => [("tier", v)]) k.1 = none := by
    have hne : k.1 ≠ "tier" := by
      intro heq
      revert hk
      rw [← Prod.mk.eta (p := k), heq]
      cases k.2 <;> decide
    cases (results.map (·.get "tier")).find? fun v => !v.isNone with
    | none => rfl
    | some v => simp [Assoc.get?_cons, Ne.symm hne]
  refine ⟨part, hpart, ?_⟩
  rw [Dict.get, Assoc.get?_append, htier, Option.or_none, hflat]
  rfl

/-- Sums of stamps in range are no larger than the magnitudes they sum. -/
theorem sumCostStamp_inRange {results : List Dict}
    (h : ∀ key ∈ stampNumbers, ∀ r ∈ results, IntConvertible (r.get key))
    (hsum : ∀ key ∈ stampNumbers, totalMagnitude results key < Double.bound) :
    ∃ stamp, sumCostStamp results = .ok stamp ∧
      ∀ key ∈ stampNumbers, Within (totalMagnitude results key) (Dict.get stamp key) := by
  have hkey (k : String × Bool) (hk : k ∈ stampKeys) :
      ∃ part, sumKey results k.1 k.2 = .ok part ∧
        Within (totalMagnitude results k.1) (Dict.get part k.1) := by
    have hmem : k.1 ∈ stampNumbers := List.mem_map_of_mem hk
    refine sumKey_of_within k.2 (fun r hr => ⟨h k.1 hmem r hr, ?_⟩) (hsum k.1 hmem) (hsum k.1 hmem)
    refine List.single_le_sum ?_ _ (List.mem_map_of_mem hr)
    intro x hx
    obtain ⟨r', -, rfl⟩ := List.mem_map.1 hx
    exact magnitude_nonneg _
  obtain ⟨parts, hparts⟩ := Result.mapM_ok (f := fun k : String × Bool => sumKey results k.1 k.2)
    fun k hk => let ⟨part, hpart, _⟩ := hkey k hk; ⟨part, hpart⟩
  have hstamp : Result.Ok (sumCostStamp results) := ⟨_, by rw [sumCostStamp, hparts]; rfl⟩
  obtain ⟨stamp, hstamp⟩ := hstamp
  refine ⟨stamp, hstamp, ?_⟩
  intro key hmem
  obtain ⟨k, hk, rfl⟩ := List.mem_map.1 hmem
  obtain ⟨part, hpart, hwithin⟩ := hkey k hk
  obtain ⟨part', hpart', hget⟩ := get_sumCostStamp hstamp hk
  obtain rfl : part' = part := Except.ok.inj (hpart'.symm.trans hpart)
  rw [hget]
  exact hwithin

/-! ### The answers of a run -/

/-- The accepted answers of a trace, in order. -/
def acceptedAnswers (trace : Trace) : List Dict :=
  trace.filterMap fun
    | ⟨.call _, .ok out⟩ => some out
    | _ => none

namespace DispatchTree

/-- The accepted answers of the slices, in order. -/
def answers (t : DispatchTree) : List Dict := t.slices.filterMap Prod.snd

theorem acceptedAnswers_failedAttempt {u : PlanUnit} {f : Failure} :
    acceptedAnswers (failedAttempt u f) = [] := by cases f <;> rfl

theorem acceptedAnswers_append (a b : Trace) :
    acceptedAnswers (a ++ b) = acceptedAnswers a ++ acceptedAnswers b := List.filterMap_append

theorem acceptedAnswers_did (s : Signal) (trace : Trace) :
    acceptedAnswers (did s :: trace) = acceptedAnswers trace := rfl

theorem acceptedAnswers_retried {u : PlanUnit} {i : ℕ} {failures : List Failure} :
    acceptedAnswers (retried u i failures) = [] := by
  induction failures generalizing i with
  | nil => rfl
  | cons f failures ih =>
    rw [retried, acceptedAnswers_append, acceptedAnswers_failedAttempt, acceptedAnswers_did, ih]
    rfl

/-- The trace and the tree have the same accepted answers. -/
theorem acceptedAnswers_traceFrom (i : ℕ) (t : DispatchTree) :
    acceptedAnswers (t.traceFrom i) = t.answers := by
  induction t generalizing i with
  | answered u failures out =>
    rw [traceFrom, acceptedAnswers_append, acceptedAnswers_retried]
    rfl
  | gaveUp u failures last =>
    rw [traceFrom, acceptedAnswers_append, acceptedAnswers_retried, acceptedAnswers_append,
      acceptedAnswers_failedAttempt]
    rfl
  | stranded u failures last =>
    rw [traceFrom, acceptedAnswers_append, acceptedAnswers_retried, acceptedAnswers_failedAttempt]
    rfl
  | tooLarge u failures =>
    rw [traceFrom, acceptedAnswers_append, acceptedAnswers_retried]
    rfl
  | split u failures l r ihl ihr =>
    have hhalves : (split u failures l r).answers = l.answers ++ r.answers :=
      List.filterMap_append
    rw [traceFrom, acceptedAnswers_append, acceptedAnswers_retried, List.nil_append,
      acceptedAnswers_append, acceptedAnswers_did, acceptedAnswers_append, ihl, ihr, hhalves]
    rfl
  | cut u failures exc l ih =>
    rw [traceFrom, acceptedAnswers_append, acceptedAnswers_retried, List.nil_append,
      acceptedAnswers_append, acceptedAnswers_did, ih]
    rfl

end DispatchTree

open DispatchTree

/-- The findings of an answer are an array, where it has any. -/
def ListFindings (out : Dict) : Prop := ∀ v, Assoc.get? out "findings" = some v → IsArray v

theorem findingsOf_ok_of_list {out : Dict} (h : ListFindings out) : Result.Ok (findingsOf out) := by
  unfold findingsOf Dict.getD
  cases hget : Assoc.get? out "findings" with
  | none => exact ⟨[], rfl⟩
  | some v =>
    obtain ⟨xs, rfl⟩ := h v hget
    exact ⟨xs, rfl⟩

theorem totalMagnitude_append (a b : List Dict) (key : String) :
    totalMagnitude (a ++ b) key = totalMagnitude a key + totalMagnitude b key := by
  simp [totalMagnitude]

theorem totalMagnitude_nonneg (outs : List Dict) (key : String) : 0 ≤ totalMagnitude outs key := by
  refine List.sum_nonneg ?_
  intro x hx
  obtain ⟨out, -, rfl⟩ := List.mem_map.1 hx
  exact magnitude_nonneg _

/-- Both halves of a list in range are. -/
theorem StampsInRange.of_append {a b : List Dict} (h : StampsInRange (a ++ b)) :
    StampsInRange a ∧ StampsInRange b := by
  refine ⟨⟨fun out hout => h.finite out (List.mem_append_left _ hout), fun key hkey => ?_⟩,
    ⟨fun out hout => h.finite out (List.mem_append_right _ hout), fun key hkey => ?_⟩⟩
  all_goals
    have htotal := h.total key hkey
    rw [totalMagnitude_append] at htotal
    have ha := totalMagnitude_nonneg a key
    have hb := totalMagnitude_nonneg b key
    linarith

/-- A stamp in range can be converted. -/
theorem stampConvertible_of_inRange {out : Dict} (h : StampsInRange [out]) :
    StampConvertible out := by
  have hfloat (key : String) (hkey : key ∈ stampNumbers) : FloatConvertible (out.get key) := by
    intro n hn
    have htotal := h.total key hkey
    simpa [totalMagnitude, hn, magnitude] using htotal
  exact ⟨h.finite out List.mem_cons_self _ (by decide),
    h.finite out List.mem_cons_self _ (by decide), hfloat _ (by decide), hfloat _ (by decide)⟩

namespace DispatchTree

/-- **A dispatch whose accepted stamps are in range returns**, with a stamp no larger, when there
are not too many retries for the back-offs. -/
theorem returns_of_inRange {maxRetries left : ℕ} {t : DispatchTree}
    (hvalid : t.Valid maxRetries left) (hleft : left ≤ maxRetries)
    (hretries : maxRetries ≤ Double.maxExponent) (hlist : ∀ out ∈ t.answers, ListFindings out)
    (hrange : StampsInRange t.answers) :
    t.Returns ∧ t.FindingsIterable ∧
      ∀ key ∈ stampNumbers, Within (totalMagnitude t.answers key) (t.stamp.get key) := by
  have hnone (t : DispatchTree) (key : String) : Within (totalMagnitude t.answers key) .none :=
    ⟨(by rintro x ⟨⟩), totalMagnitude_nonneg _ _⟩
  induction t generalizing left with
  | answered u failures out =>
    refine ⟨stampConvertible_of_inRange hrange, findingsOf_ok_of_list (hlist out (by
      simp [answers, slices])), fun key hkey => ?_⟩
    refine ⟨hrange.finite out (by simp [answers, slices]) key hkey, ?_⟩
    simp [totalMagnitude, answers, slices, stamp]
  | gaveUp u failures last => exact ⟨trivial, trivial, fun key _ => hnone _ key⟩
  | stranded u failures last =>
    -- more back-offs than retries
    obtain ⟨hlen, hback⟩ := hvalid
    omega
  | tooLarge u failures => exact ⟨trivial, trivial, fun key _ => hnone _ key⟩
  | split u failures l r ihl ihr =>
    obtain ⟨-, -, hl, hr, -⟩ := hvalid
    have happend : (split u failures l r).answers = l.answers ++ r.answers :=
      List.filterMap_append
    rw [happend] at hlist hrange ⊢
    obtain ⟨hrangeL, hrangeR⟩ := hrange.of_append
    obtain ⟨hretL, hfindL, hstampL⟩ :=
      ihl hl le_rfl (fun out hout => hlist out (List.mem_append_left _ hout)) hrangeL
    obtain ⟨hretR, hfindR, hstampR⟩ :=
      ihr hr le_rfl (fun out hout => hlist out (List.mem_append_right _ hout)) hrangeR
    -- the stamps of the halves are no larger than the answers they stand for
    have hle (key : String) (hkey : key ∈ stampNumbers) :
        totalMagnitude [l.stamp, r.stamp] key ≤ totalMagnitude (l.answers ++ r.answers) key := by
      have hmagL := (hstampL key hkey).magnitude_le
      have hmagR := (hstampR key hkey).magnitude_le
      rw [totalMagnitude_append]
      simp only [totalMagnitude, List.map_cons, List.map_nil, List.sum_cons, List.sum_nil] at *
      linarith
    have hfinite : ∀ key ∈ stampNumbers, ∀ s ∈ [l.stamp, r.stamp], IntConvertible (s.get key) := by
      intro key hkey s hs
      rcases List.mem_pair.1 hs with rfl | rfl
      · exact (hstampL key hkey).finite
      · exact (hstampR key hkey).finite
    obtain ⟨sums, hsums, hwithin⟩ := sumCostStamp_inRange hfinite fun key hkey =>
      lt_of_le_of_lt (hle key hkey) (hrange.total key hkey)
    refine ⟨⟨hretL, hretR, hfindL, hfindR, sums, hsums⟩, trivial, ?_⟩
    intro key hkey
    rw [stamp, hsums]
    exact ⟨(hwithin key hkey).finite, (hwithin key hkey).magnitude_le.trans (hle key hkey)⟩
  | cut u failures exc l ih =>
    obtain ⟨-, -, hl, hhalf⟩ := hvalid
    obtain ⟨hret, hfind, -⟩ := ih hl le_rfl hlist hrange
    -- then the left half has an output with findings, and does not raise
    obtain ⟨out, hout⟩ := (result_ok_iff l).2 hret
    obtain ⟨fl, hfl⟩ := (findingsOf_ok_iff hout).2 hfind
    rw [hout, halfOf, Result.ok_bind, hfl] at hhalf
    cases hhalf

end DispatchTree

/-! ### Stamps out of range -/

/-- A wall time near the end of the range. -/
def longWait : Dict := [("wall_ms", .float (.fin (10 ^ 308)))]

/-- Two files that overflow together; both halves are answered with it. -/
def longWaits : DispatchTree :=
  .split ⟨"quality", 1, 1, ["a.py", "b.py"]⟩ []
    (.answered ⟨"quality", 1, 1, ["a.py"]⟩ [] longWait)
    (.answered ⟨"quality", 1, 1, ["b.py"]⟩ [] longWait)

theorem longWaits_valid : longWaits.Valid 0 0 :=
  ⟨retriable_start, rfl, retriable_start, retriable_start, _, rfl⟩

/-- The sum of the wall times is an infinity, which has no `int`. -/
theorem sumCostStamp_longWait : sumCostStamp [longWait, longWait] = .error .overflowError := by
  have hbound : Double.bound ≤ 0 + 10 ^ 308 + 10 ^ 308 := by decide +kernel
  have habs : |(0 : ℚ) + 10 ^ 308| < Double.bound := by decide +kernel
  have hsum : Double.add (.fin (0 + 10 ^ 308)) (.fin (10 ^ 308)) = .inf := if_pos hbound
  have hfirst : Double.add (.fin 0) (.fin (10 ^ 308)) = .fin (0 + 10 ^ 308) :=
    Double.ofRat_eq_fin habs
  have hkey : sumKey [longWait, longWait] "wall_ms" true = .error .overflowError := by
    show (do return [("wall_ms", Value.int (← (Double.trunc
      ((Double.add (.fin 0) (.fin (10 ^ 308))).add (.fin (10 ^ 308))))))]) = _
    rw [hfirst, hsum]
    rfl
  rw [sumCostStamp, stampKeys, List.mapM_cons, hkey]
  rfl

/-- The dispatch raises. -/
theorem longWaits_not_returns : ¬ longWaits.Returns := by
  rintro ⟨-, -, -, -, sums, hsums⟩
  have hraises := sumCostStamp_longWait.symm.trans hsums
  cases hraises

/-- Finite numbers. -/
theorem intConvertible_longWait : ∀ key ∈ stampNumbers, IntConvertible (longWait.get key) := by
  intro key hkey
  revert hkey
  simp only [stampNumbers, stampKeys, List.map_cons, List.map_nil, List.mem_cons,
    List.not_mem_nil, or_false]
  rintro (rfl | rfl | rfl | rfl | rfl) x hx
  · exact ⟨_, (Value.float.inj hx).symm⟩
  all_goals cases hx

theorem listFindings_longWait : ListFindings longWait := by
  rintro v ⟨⟩

end CodeReview
