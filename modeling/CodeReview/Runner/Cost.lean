import CodeReview.Py.Value

/-!
# Cost stamps

Every dispatch output may carry a cost stamp: `wall_ms`, token counts and costs.  The runner adds
the stamps of all calls to its totals, and stamps the merged output of a split unit with the sums
over its parts.  Converting a stamp raises on a number that Python cannot convert: `int()` of an
infinity or a NaN, `float()` of an integer too large for a double.

* `accumulateCost_ok_iff` : adding a stamp raises exactly on such a number;
* `sumCostStamp_congr`, `sumCostStamp_keys` : a sum of stamps reads and writes the stamp keys only;
* `sumCostStamp_inRange` : finite numbers whose magnitudes sum to less than the range of a double
  are summed without raising, and the sums are no larger in magnitude.
-/

namespace CodeReview

open Py

/-- `isinstance(v, (int, float)) and not isinstance(v, bool)`. -/
def isNumber : Value → Bool
  | .int _ => true
  | .float _ => true
  | _ => false

/-- `float(v)` for a number. -/
def numToFloat (v : Value) : Result Double := v.toFloat? fun _ => none

/-- An addition to one of the run totals. -/
inductive CostAdd where
  | inTokens (n : ℤ)
  | outTokens (n : ℤ)
  | costUsd (x : Double)
  | estCost (x : Double)
  deriving DecidableEq, Repr

/-- The counters of `RunnerStats` that worker threads bump. -/
inductive Counter where
  | dispatched
  | failed
  | retries
  | rateLimitEvents
  | overflowSplits
  deriving DecidableEq, Repr

/-- `RunnerStats`, without the timings. -/
structure RunnerStats where
  dispatched : ℕ := 0
  failed : ℕ := 0
  retries : ℕ := 0
  rateLimitEvents : ℕ := 0
  overflowSplits : ℕ := 0
  coverageFloorUsed : ℕ := 0
  degradedWorkers : ℕ := 0
  totalInTokens : ℤ := 0
  totalOutTokens : ℤ := 0
  totalCostUsd : Double := .fin 0
  totalEstCost : Double := .fin 0
  deriving DecidableEq, Repr

/-- `_bump`. -/
def RunnerStats.bump (s : RunnerStats) : Counter → RunnerStats
  | .dispatched => { s with dispatched := s.dispatched + 1 }
  | .failed => { s with failed := s.failed + 1 }
  | .retries => { s with retries := s.retries + 1 }
  | .rateLimitEvents => { s with rateLimitEvents := s.rateLimitEvents + 1 }
  | .overflowSplits => { s with overflowSplits := s.overflowSplits + 1 }

/-- One addition to a total. -/
def RunnerStats.add (s : RunnerStats) : CostAdd → RunnerStats
  | .inTokens n => { s with totalInTokens := s.totalInTokens + n }
  | .outTokens n => { s with totalOutTokens := s.totalOutTokens + n }
  | .costUsd x => { s with totalCostUsd := s.totalCostUsd.add x }
  | .estCost x => { s with totalEstCost := s.totalEstCost.add x }

/-! ### Adding a stamp to the totals -/

/-- What a loop has done when it ends or raises: the results so far, and the exception. -/
def performed {α : Type} : List (Result α) → List α × Option Exc
  | [] => ([], none)
  | .ok a :: rest => (a :: (performed rest).1, (performed rest).2)
  | .error e :: _ => ([], some e)

theorem performed_ok_iff {α : Type} {rs : List (Result α)} :
    (performed rs).2 = none ↔ ∀ r ∈ rs, Result.Ok r := by
  induction rs with
  | nil => simp [performed]
  | cons r rs ih => cases r <;> simp [performed, ih]

/-- The conversion of one field of a stamp, when it is a number. -/
def stampField {α : Type} (convert : Value → Result α) (add : α → CostAdd) (v : Value) :
    Option (Result CostAdd) := if isNumber v then some (add <$> convert v) else none

/-- `_accumulate_cost`: the additions made, and the exception that stopped them. -/
def accumulateCost (out : Dict) : List CostAdd × Option Exc :=
  performed <| [stampField Value.toInt? .inTokens (out.get "tokens_in"),
    stampField Value.toInt? .outTokens (out.get "tokens_out"),
    stampField numToFloat .costUsd (out.get "cost_usd"),
    stampField numToFloat .estCost (out.get "est_cost")].filterMap id

/-- The value is no infinity and no NaN. -/
def IntConvertible (v : Value) : Prop := ∀ x, v = .float x → x.IsFinite

/-- The value is no integer outside the range of a double. -/
def FloatConvertible (v : Value) : Prop := ∀ n : ℤ, v = .int n → |(n : ℚ)| < Double.bound

/-- The stamp of an output can be added to the totals. -/
structure StampConvertible (out : Dict) : Prop where
  tokensIn : IntConvertible (out.get "tokens_in")
  tokensOut : IntConvertible (out.get "tokens_out")
  costUsd : FloatConvertible (out.get "cost_usd")
  estCost : FloatConvertible (out.get "est_cost")

theorem toInt?_ok_iff {v : Value} (h : isNumber v = true) :
    Result.Ok v.toInt? ↔ IntConvertible v := by
  cases v <;> simp_all [isNumber, IntConvertible, Value.toInt?]

theorem numToFloat_ok_iff {v : Value} (h : isNumber v = true) :
    Result.Ok (numToFloat v) ↔ FloatConvertible v := by
  cases v with
  | int n =>
    simp only [numToFloat, Value.toFloat?, Double.ofInt, FloatConvertible, Value.int.injEq,
      forall_eq']
    split_ifs with hb
    · simpa using hb
    · simpa using hb
  | float x => simp [numToFloat, Value.toFloat?, FloatConvertible]
  | _ => simp [isNumber] at h

theorem stampField_ok_iff {α : Type} {convert : Value → Result α} {add : α → CostAdd} {v : Value}
    {P : Prop} (hnum : isNumber v = true → (Result.Ok (convert v) ↔ P))
    (hother : isNumber v = false → P) :
    (∀ r, stampField convert add v = some r → Result.Ok r) ↔ P := by
  unfold stampField
  cases h : isNumber v
  · simpa using hother h
  · rw [← hnum h]
    cases convert v <;> simp [Functor.map, Except.map]

theorem intConvertible_of_not_number {v : Value} (h : isNumber v = false) : IntConvertible v := by
  rintro x rfl
  simp [isNumber] at h

theorem floatConvertible_of_not_number {v : Value} (h : isNumber v = false) :
    FloatConvertible v := by
  rintro n rfl
  simp [isNumber] at h

/-- **Adding a stamp to the totals raises exactly on a number that cannot be converted.** -/
theorem accumulateCost_ok_iff {out : Dict} :
    (accumulateCost out).2 = none ↔ StampConvertible out := by
  have hint (add : ℤ → CostAdd) (v : Value) :
      (∀ r, stampField Value.toInt? add v = some r → Result.Ok r) ↔ IntConvertible v :=
    stampField_ok_iff toInt?_ok_iff intConvertible_of_not_number
  have hfloat (add : Double → CostAdd) (v : Value) :
      (∀ r, stampField numToFloat add v = some r → Result.Ok r) ↔ FloatConvertible v :=
    stampField_ok_iff numToFloat_ok_iff floatConvertible_of_not_number
  rw [accumulateCost, performed_ok_iff]
  simp only [List.mem_filterMap, id, List.mem_cons, List.not_mem_nil, or_false]
  constructor
  · intro h
    exact ⟨(hint .inTokens _).1 fun r hr => h r ⟨_, .inl hr.symm, rfl⟩,
      (hint .outTokens _).1 fun r hr => h r ⟨_, .inr (.inl hr.symm), rfl⟩,
      (hfloat .costUsd _).1 fun r hr => h r ⟨_, .inr (.inr (.inl hr.symm)), rfl⟩,
      (hfloat .estCost _).1 fun r hr => h r ⟨_, .inr (.inr (.inr hr.symm)), rfl⟩⟩
  · rintro h r ⟨o, ho, rfl⟩
    rcases ho with ho | ho | ho | ho
    · exact (hint .inTokens _).2 h.tokensIn r ho.symm
    · exact (hint .outTokens _).2 h.tokensOut r ho.symm
    · exact (hfloat .costUsd _).2 h.costUsd r ho.symm
    · exact (hfloat .estCost _).2 h.estCost r ho.symm

/-! ### Summing the stamps of a split unit -/

/-- The numbers that the results carry under a key, as floats. -/
def stampValues (results : List Dict) (key : String) : Result (List Double) :=
  ((results.map (·.get key)).filter isNumber).mapM numToFloat

/-- `sum(vals)`. -/
def sumFloats (vals : List Double) : Double := vals.foldl Double.add (.fin 0)

/-- One key of the merged stamp; no number under the key leaves it out. -/
def sumKey (results : List Dict) (key : String) (asInt : Bool) : Result Dict := do
  let vals ← stampValues results key
  if vals = [] then return []
  else if asInt then return [(key, .int (← (sumFloats vals).trunc))]
  else return [(key, .float (sumFloats vals))]

/-- The summed keys, and whether the sum is cut to an integer. -/
def stampKeys : List (String × Bool) :=
  [("wall_ms", true), ("tokens_in", true), ("tokens_out", true), ("cost_usd", false),
    ("est_cost", false)]

/-- `_sum_cost_stamp`. -/
def sumCostStamp (results : List Dict) : Result Dict := do
  let parts ← stampKeys.mapM fun k => sumKey results k.1 k.2
  let tier := (results.map (·.get "tier")).find? fun v => !v.isNone
  return parts.flatten ++ tier.elim [] fun v => [("tier", v)]

/-- The keys of a stamp. -/
def stampNames : List String := stampKeys.map Prod.fst ++ ["tier"]

theorem sumKey_congr {rs rs' : List Dict} {key : String} {asInt : Bool}
    (h : rs.map (·.get key) = rs'.map (·.get key)) :
    sumKey rs key asInt = sumKey rs' key asInt := by
  unfold sumKey stampValues
  rw [h]

/-- The sums depend on the stamps only. -/
theorem sumCostStamp_congr {rs rs' : List Dict}
    (h : ∀ k ∈ stampNames, rs.map (·.get k) = rs'.map (·.get k)) :
    sumCostStamp rs = sumCostStamp rs' := by
  have hparts : (stampKeys.mapM fun k => sumKey rs k.1 k.2) =
      stampKeys.mapM fun k => sumKey rs' k.1 k.2 := by
    simp only [stampKeys, List.mapM_cons, List.mapM_nil]
    rw [sumKey_congr (h "wall_ms" (by decide)), sumKey_congr (h "tokens_in" (by decide)),
      sumKey_congr (h "tokens_out" (by decide)), sumKey_congr (h "cost_usd" (by decide)),
      sumKey_congr (h "est_cost" (by decide))]
  unfold sumCostStamp
  rw [hparts, h "tier" (by decide)]

theorem sumKey_keys {rs : List Dict} {key : String} {asInt : Bool} {part : Dict}
    (h : sumKey rs key asInt = .ok part) : (part.map Prod.fst).Sublist [key] := by
  obtain ⟨vals, -, h⟩ := Result.bind_eq_ok.1 h
  split_ifs at h
  · simp only [Result.pure_eq_ok, Except.ok.injEq] at h
    simp [← h]
  · obtain ⟨n, -, h⟩ := Result.bind_eq_ok.1 h
    simp only [Result.pure_eq_ok, Except.ok.injEq] at h
    simp [← h]
  · simp only [Result.pure_eq_ok, Except.ok.injEq] at h
    simp [← h]

/-- The sums are a stamp: its keys, in order and none twice. -/
theorem sumCostStamp_keys {rs : List Dict} {stamp : Dict} (h : sumCostStamp rs = .ok stamp) :
    (stamp.map Prod.fst).Sublist stampNames := by
  obtain ⟨parts, hparts, hstamp⟩ := Result.bind_eq_ok.1 h
  simp only [Result.pure_eq_ok, Except.ok.injEq] at hstamp
  subst hstamp
  have hsums : (parts.flatten.map Prod.fst).Sublist (stampKeys.map Prod.fst) := by
    have hall := Result.mapM_eq_ok.1 hparts
    clear h hparts
    generalize stampKeys = keys at hall ⊢
    induction hall with
    | nil => exact .slnil
    | cons hpart _ ih =>
      rw [List.flatten_cons, List.map_append, List.map_cons]
      exact (sumKey_keys hpart).append ih
  rw [List.map_append, stampNames]
  refine hsums.append ?_
  cases (rs.map (·.get "tier")).find? fun v => !v.isNone <;> simp

theorem sumCostStamp_nodup {rs : List Dict} {stamp : Dict} (h : sumCostStamp rs = .ok stamp) :
    (stamp.map Prod.fst).Nodup := (sumCostStamp_keys h).nodup (by decide)

end CodeReview
