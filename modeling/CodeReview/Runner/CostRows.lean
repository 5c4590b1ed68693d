import CodeReview.Runner.KeyClash
import CodeReview.Runner.Schedule
import CodeReview.Tracker.Ingest

/-!
# Rows and totals

A cost stamp is counted twice: `_accumulate_cost` adds it to the totals as soon as the hook returns,
and `_sum_cost_stamp` carries it up to the row of its unit, through every split.

* `sumKey_exact` : a sum that is finite is the exact sum of its numbers;
* `DispatchTree.amount_stamp` : the stamp of a unit is the sum of the stamps that the hook returned;
* `total_run` : the totals grow by the stamps that the hook returned, whatever the schedule;
* `rows_agree` : **the rows add up to what the units added to the totals**, and a row is empty where
  no answer for its unit carried the field.
-/

namespace CodeReview

open Py Proc DispatchTree

/-! ### Exact sums -/

/-- A finite sum of floats is exact. -/
theorem foldl_add_exact {vals : List Double} {acc : Double} {q : ℚ}
    (h : vals.foldl Double.add acc = .fin q) :
    ∃ a, ∃ qs : List ℚ, acc = .fin a ∧ vals = qs.map .fin ∧ q = a + qs.sum := by
  induction vals generalizing acc with
  | nil => exact ⟨q, [], h, rfl, by simp⟩
  | cons v vals ih =>
    obtain ⟨a, qs, hacc, rfl, rfl⟩ := ih h
    obtain ⟨b, c, rfl, rfl, rfl⟩ := Double.add_eq_fin hacc
    exact ⟨b, c :: qs, rfl, rfl, by rw [List.sum_cons, add_assoc]⟩

theorem amount_of_not_number {v : Value} (h : isNumber v = false) : amount v = 0 := by
  cases v with
  | int n => cases h
  | float x => cases h
  | _ => rfl

/-- The float of a number has its amount. -/
theorem amount_of_numToFloat {v : Value} {q : ℚ} (hnum : isNumber v = true)
    (h : numToFloat v = .ok (.fin q)) : amount v = q ∧ IntConvertible v := by
  cases v with
  | int n =>
    have hint : Double.ofInt n = .ok (.fin q) := h
    unfold Double.ofInt at hint
    split_ifs at hint
    exact ⟨Double.fin.inj (Except.ok.inj hint), by rintro x ⟨⟩⟩
  | float x =>
    obtain rfl : x = .fin q := Except.ok.inj h
    refine ⟨rfl, ?_⟩
    rintro x ⟨⟩
    exact ⟨q, rfl⟩
  | _ => cases hnum

/-- The value is the sum of some values, and missing exactly where all of them are. -/
structure SumsTo (v : Value) (vs : List Value) : Prop where
  amount_eq : amount v = (vs.map amount).sum
  none_iff : v = .none ↔ ∀ w ∈ vs, w = .none

/-- A sum of two sums. -/
theorem SumsTo.append {v a b : Value} {as bs : List Value} (h : SumsTo v [a, b])
    (ha : SumsTo a as) (hb : SumsTo b bs) : SumsTo v (as ++ bs) := by
  constructor
  · rw [h.amount_eq, List.map_append, List.sum_append, ← ha.amount_eq, ← hb.amount_eq]
    simp
  · rw [h.none_iff, List.forall_mem_append, ← ha.none_iff, ← hb.none_iff]
    simp

/-- The floats of the numbers among some values have their amounts. -/
theorem mapM_numToFloat_exact {vs : List Value} {qs : List ℚ}
    (h : (vs.filter isNumber).mapM numToFloat = .ok (qs.map .fin)) :
    qs.sum = (vs.map amount).sum ∧ (∀ v ∈ vs, IntConvertible v) ∧
      (qs = [] ↔ ∀ v ∈ vs, isNumber v = false) := by
  induction vs generalizing qs with
  | nil =>
    obtain rfl : qs = [] := List.map_eq_nil_iff.1 (Except.ok.inj h).symm
    exact ⟨rfl, by simp, by simp⟩
  | cons v vs ih =>
    rw [List.filter_cons] at h
    rw [List.map_cons, List.sum_cons, List.forall_mem_cons, List.forall_mem_cons]
    cases hnum : isNumber v with
    | false =>
      -- a value that is no number adds nothing
      rw [hnum, if_neg Bool.false_ne_true] at h
      obtain ⟨hsum, hfinite, hempty⟩ := ih h
      refine ⟨?_, ⟨intConvertible_of_not_number hnum, hfinite⟩, ?_⟩
      · rw [amount_of_not_number hnum, zero_add, hsum]
      · rw [hempty, and_iff_right rfl]
    | true =>
      rw [hnum, if_pos rfl, List.mapM_cons] at h
      obtain ⟨x, hx, h⟩ := Result.bind_eq_ok.1 h
      obtain ⟨rest, hrest, h⟩ := Result.bind_eq_ok.1 h
      obtain _ | ⟨q, qs⟩ := qs
      · cases Except.ok.inj h
      · obtain ⟨rfl, rfl⟩ := List.cons.inj (Except.ok.inj h)
        obtain ⟨hamount, hfin⟩ := amount_of_numToFloat hnum hx
        obtain ⟨hsum, hfinite, -⟩ := ih hrest
        refine ⟨?_, ⟨hfin, hfinite⟩, iff_of_false (List.cons_ne_nil _ _) fun h => ?_⟩
        · rw [List.sum_cons, hamount, hsum]
        · cases h.1

/-! ### The fields of a cost stamp -/

/-- The fields that both the totals and the rows have. -/
inductive CostField where
  | tokensIn
  | tokensOut
  | costUsd
  | estCost
  deriving DecidableEq, Repr

namespace CostField

/-- Its key in an output and in a row. -/
def field : CostField → String
  | tokensIn => "tokens_in"
  | tokensOut => "tokens_out"
  | costUsd => "cost_usd"
  | estCost => "est_cost"

/-- Sums of token counts are cut to integers. -/
def isTokens : CostField → Bool
  | tokensIn => true
  | tokensOut => true
  | _ => false

/-- No token count or an integer; no cost or a number. -/
def Typed (f : CostField) (v : Value) : Prop :=
  v = .none ∨ if f.isTokens then ∃ n : ℤ, v = .int n else isNumber v = true

theorem mem_stampKeys (f : CostField) : (f.field, f.isTokens) ∈ stampKeys := by
  cases f <;> decide

theorem mem_stampNames (f : CostField) : f.field ∈ stampNames := by
  cases f <;> decide

variable {f : CostField} {v : Value}

theorem Typed.none_iff (h : f.Typed v) : v = .none ↔ isNumber v = false := by
  constructor
  · rintro rfl
    rfl
  · intro hnum
    rcases h with h | h
    · exact h
    · split_ifs at h
      · obtain ⟨n, rfl⟩ := h
        cases hnum
      · cases h.symm.trans hnum

/-- Integers add up to an integer. -/
theorem exists_sum_amount (hf : f.isTokens = true) {vs : List Value} (h : ∀ v ∈ vs, f.Typed v) :
    ∃ n : ℤ, (vs.map amount).sum = n := by
  induction vs with
  | nil => exact ⟨0, by simp⟩
  | cons v vs ih =>
    obtain ⟨n, hn⟩ := ih fun w hw => h w (List.mem_cons_of_mem _ hw)
    rw [List.map_cons, List.sum_cons, hn]
    have hv := h v List.mem_cons_self
    rw [Typed, if_pos hf] at hv
    rcases hv with rfl | ⟨k, rfl⟩
    · exact ⟨n, zero_add _⟩
    · exact ⟨k + n, (Int.cast_add k n).symm⟩

/-- A sum is typed as its numbers are. -/
theorem typed_sumKey {results : List Dict} {part : Dict}
    (h : sumKey results f.field f.isTokens = .ok part) : f.Typed (Dict.get part f.field) := by
  obtain ⟨vals, -, h⟩ := Result.bind_eq_ok.1 h
  split_ifs at h with hempty hf
  · obtain rfl := Except.ok.inj h
    exact .inl rfl
  · obtain ⟨n, -, h⟩ := Result.bind_eq_ok.1 h
    obtain rfl := Except.ok.inj h
    rw [Typed, if_pos hf, Dict.get_cons, if_pos rfl]
    exact .inr ⟨n, rfl⟩
  · obtain rfl := Except.ok.inj h
    rw [Typed, if_neg hf, Dict.get_cons, if_pos rfl]
    exact .inr rfl

/-- **A finite sum of a stamp is exact**, and none of its numbers is lost. -/
theorem sumKey_exact {results : List Dict} {part : Dict}
    (h : sumKey results f.field f.isTokens = .ok part)
    (htyped : ∀ r ∈ results, f.Typed (r.get f.field))
    (hfinite : IntConvertible (Dict.get part f.field)) :
    SumsTo (Dict.get part f.field) (results.map (·.get f.field)) ∧
      ∀ r ∈ results, IntConvertible (r.get f.field) := by
  obtain ⟨vals, hvals, h⟩ := Result.bind_eq_ok.1 h
  have hnone : (∀ w ∈ results.map (·.get f.field), w = .none) ↔
      ∀ w ∈ results.map (·.get f.field), isNumber w = false := by
    rw [List.forall_mem_map, List.forall_mem_map]
    exact forall₂_congr fun r hr => (htyped r hr).none_iff
  -- the floats are finite, whether the sum is cut or not
  have hsums (qs : List ℚ) (hqs : vals = qs.map .fin) :
      qs.sum = ((results.map (·.get f.field)).map amount).sum ∧
        (∀ r ∈ results, IntConvertible (r.get f.field)) ∧
        (qs = [] ↔ ∀ w ∈ results.map (·.get f.field), w = .none) := by
    subst hqs
    obtain ⟨hsum, hfin, hempty⟩ := mapM_numToFloat_exact hvals
    exact ⟨hsum, List.forall_mem_map.1 hfin, hempty.trans hnone.symm⟩
  split_ifs at h with hempty hf
  · obtain rfl := Except.ok.inj h
    obtain ⟨hsum, hfin, hmissing⟩ := hsums [] hempty
    exact ⟨⟨hsum, iff_of_true rfl (hmissing.1 rfl)⟩, hfin⟩
  · obtain ⟨n, hn, h⟩ := Result.bind_eq_ok.1 h
    obtain rfl := Except.ok.inj h
    obtain ⟨q, hq⟩ := Double.trunc_ok_iff.1 ⟨n, hn⟩
    obtain ⟨a, qs, ha, rfl, rfl⟩ := foldl_add_exact hq
    obtain rfl := Double.fin.inj ha
    obtain ⟨hsum, hfin, hmissing⟩ := hsums qs rfl
    obtain ⟨m, hm⟩ := exists_sum_amount hf (List.forall_mem_map.2 htyped)
    rw [hq, zero_add, hsum, hm, Double.trunc_intCast] at hn
    obtain rfl := Except.ok.inj hn
    rw [Dict.get_cons, if_pos rfl]
    refine ⟨⟨hm.symm, iff_of_false nofun ?_⟩, hfin⟩
    rw [← hmissing]
    rintro rfl
    exact hempty rfl
  · obtain rfl := Except.ok.inj h
    rw [Dict.get_cons, if_pos rfl] at hfinite ⊢
    obtain ⟨q, hq⟩ := hfinite _ rfl
    obtain ⟨a, qs, ha, rfl, rfl⟩ := foldl_add_exact hq
    obtain rfl := Double.fin.inj ha
    obtain ⟨hsum, hfin, hmissing⟩ := hsums qs rfl
    rw [hq, zero_add]
    refine ⟨⟨hsum, iff_of_false nofun ?_⟩, hfin⟩
    rw [← hmissing]
    rintro rfl
    exact hempty rfl

end CostField

/-- The fields of the stamp are typed. -/
def CostTyped (out : Dict) : Prop := ∀ f : CostField, f.Typed (out.get f.field)

namespace DispatchTree

variable {t : DispatchTree} {f : CostField}

theorem typed_stamp (h : ∀ out ∈ t.answers, CostTyped out) (f : CostField) :
    f.Typed (t.stamp.get f.field) := by
  cases t with
  | answered u failures out => exact h out List.mem_cons_self f
  | split u failures l r =>
    rw [stamp]
    cases hsums : sumCostStamp [l.stamp, r.stamp] with
    | error exc => exact .inl rfl
    | ok sums =>
      obtain ⟨part, hpart, hget⟩ := get_sumCostStamp hsums f.mem_stampKeys
      show f.Typed (Dict.get sums f.field)
      rw [hget]
      exact CostField.typed_sumKey hpart
  | _ => exact .inl rfl

/-- **The stamp of a unit is the sum of the stamps that the hook returned for it.** -/
theorem amount_stamp (hreturns : t.Returns) (htyped : ∀ out ∈ t.answers, CostTyped out)
    (hfinite : IntConvertible (t.stamp.get f.field)) :
    SumsTo (t.stamp.get f.field) (t.answers.map (·.get f.field)) := by
  have hnothing : SumsTo .none [] := ⟨rfl, iff_of_true rfl (by simp)⟩
  induction t with
  | answered u failures out =>
    have hself (v : Value) : SumsTo v [v] := ⟨List.sum_singleton.symm, by simp⟩
    exact hself _
  | gaveUp u failures last => exact hnothing
  | stranded u failures last => exact hreturns.elim
  | tooLarge u failures => exact hnothing
  | split u failures l r ihl ihr =>
    obtain ⟨hl, hr, -, -, sums, hsums⟩ := hreturns
    have happend : (split u failures l r).answers = l.answers ++ r.answers :=
      List.filterMap_append
    rw [happend] at htyped ⊢
    have htypedL := fun out hout => htyped out (List.mem_append_left _ hout)
    have htypedR := fun out hout => htyped out (List.mem_append_right _ hout)
    obtain ⟨part, hpart, hget⟩ := get_sumCostStamp hsums f.mem_stampKeys
    have hstamp : (split u failures l r).stamp.get f.field = Dict.get part f.field := by
      rw [stamp, hsums]
      exact hget
    rw [hstamp] at hfinite ⊢
    have hhalves : ∀ r' ∈ [l.stamp, r.stamp], f.Typed (r'.get f.field) :=
      List.forall_mem_cons.2 ⟨typed_stamp htypedL f,
        List.forall_mem_singleton.2 (typed_stamp htypedR f)⟩
    -- the sum is finite only if both halves are, so both are sums of their answers
    obtain ⟨hsum, hfin⟩ := CostField.sumKey_exact hpart hhalves hfinite
    obtain ⟨hfinL, hfinR⟩ := List.forall_mem_cons.1 hfin
    rw [List.map_append]
    exact hsum.append (ihl hl htypedL hfinL) (ihr hr htypedR (hfinR _ List.mem_cons_self))
  | cut u failures exc l ih => exact hreturns.elim

end DispatchTree

/-! ### The totals -/

namespace CostField

/-- The total of a field. -/
def total (f : CostField) (s : RunnerStats) : Value :=
  match f with
  | tokensIn => .int s.totalInTokens
  | tokensOut => .int s.totalOutTokens
  | costUsd => .float s.totalCostUsd
  | estCost => .float s.totalEstCost

/-- What an addition adds to it. -/
def added : CostField → CostAdd → ℚ
  | tokensIn, .inTokens n => n
  | tokensOut, .outTokens n => n
  | costUsd, .costUsd x => amount (.float x)
  | estCost, .estCost x => amount (.float x)
  | _, _ => 0

/-- What a step adds to it. -/
def addedBy (f : CostField) (ev : Event Effect Reply) : ℚ :=
  match ev.1 with
  | .signal (.addCosts adds) => (adds.map f.added).sum
  | _ => 0

variable {f : CostField}

/-- A total that is finite after an addition was finite before, and the addition is exact. -/
theorem total_add {s : RunnerStats} {a : CostAdd} (h : IntConvertible (f.total (s.add a))) :
    IntConvertible (f.total s) ∧
      amount (f.total (s.add a)) = amount (f.total s) + f.added a := by
  have hfloat {x y : Double} (hsum : IntConvertible (.float (x.add y))) :
      IntConvertible (.float x) ∧
        amount (.float (x.add y)) = amount (.float x) + amount (.float y) := by
    obtain ⟨q, hq⟩ := hsum _ rfl
    obtain ⟨a, b, rfl, rfl, rfl⟩ := Double.add_eq_fin hq
    rw [hq]
    exact ⟨fun x hx => ⟨a, (Value.float.inj hx).symm⟩, rfl⟩
  cases f <;> cases a
  case tokensIn.inTokens n => exact ⟨(by rintro x ⟨⟩), Int.cast_add _ _⟩
  case tokensOut.outTokens n => exact ⟨(by rintro x ⟨⟩), Int.cast_add _ _⟩
  case costUsd.costUsd x => exact hfloat h
  case estCost.estCost x => exact hfloat h
  -- another total
  all_goals exact ⟨h, (add_zero _).symm⟩

theorem total_bump (s : RunnerStats) (counter : Counter) :
    f.total (s.bump counter) = f.total s := by
  cases f <;> cases counter <;> rfl

theorem total_signal {s : RunnerStats} {sig : Signal}
    (h : IntConvertible (f.total (s.signal sig))) : IntConvertible (f.total s) ∧
      amount (f.total (s.signal sig)) = amount (f.total s) + f.addedBy (did sig) := by
  cases sig with
  | bump counter =>
    show IntConvertible (f.total s) ∧ amount (f.total (s.bump counter)) = amount (f.total s) + 0
    have hfinite : IntConvertible (f.total (s.bump counter)) := h
    rw [total_bump] at hfinite ⊢
    exact ⟨hfinite, (add_zero _).symm⟩
  | addCosts adds =>
    have hfinite : IntConvertible (f.total (adds.foldl .add s)) := h
    show IntConvertible (f.total s) ∧
      amount (f.total (adds.foldl .add s)) = amount (f.total s) + (adds.map f.added).sum
    clear h
    induction adds generalizing s with
    | nil => exact ⟨hfinite, (add_zero _).symm⟩
    | cons a adds ih =>
      obtain ⟨hfirst, hrest⟩ := ih hfinite
      obtain ⟨hstart, hadd⟩ := total_add hfirst
      refine ⟨hstart, ?_⟩
      rw [List.foldl_cons, hrest, hadd, List.map_cons, List.sum_cons, add_assoc]
  | _ => exact ⟨h, (add_zero _).symm⟩

/-- **The totals grow by what the steps add, whatever the schedule.** -/
theorem total_run {n : ℕ} {α τ : Type} {hook : Hook τ}
    {p p' : Pool (Fin n) (SharedState τ) Effect Reply α} {log : List (Fin n × Event Effect Reply)}
    (hrun : Pool.Run (fun s _ => limited hook s) p log p')
    (h : IntConvertible (f.total p'.shared.stats)) :
    IntConvertible (f.total p.shared.stats) ∧
      amount (f.total p'.shared.stats) =
        amount (f.total p.shared.stats) + (log.map fun l => f.addedBy l.2).sum := by
  induction hrun with
  | nil p => exact ⟨h, (add_zero _).symm⟩
  | @cons p p₁ p₂ l log hstep _ ih =>
    obtain ⟨hnext, hrest⟩ := ih h
    have hfirst : IntConvertible (f.total p.shared.stats) ∧
        amount (f.total p₁.shared.stats) = amount (f.total p.shared.stats) + f.addedBy l.2 := by
      cases hstep with
      | @perform s s' procs j e k ans hj hans =>
        -- a call adds nothing by itself; its stamps are added by the signals after it
        cases e with
        | call u =>
          obtain ⟨t, -, rfl⟩ := hans
          exact ⟨hnext, (add_zero _).symm⟩
        | signal sig =>
          obtain ⟨-, rfl⟩ := hans
          have hstats : (s.signal sig).stats = s.stats.signal sig := by cases sig <;> rfl
          have hfinite : IntConvertible (f.total (s.signal sig).stats) := hnext
          show IntConvertible (f.total s.stats) ∧ amount (f.total (s.signal sig).stats) =
            amount (f.total s.stats) + f.addedBy (did sig)
          rw [hstats] at hfinite ⊢
          exact total_signal hfinite
    refine ⟨hfirst.1, ?_⟩
    rw [hrest, hfirst.2, List.map_cons, List.sum_cons, add_assoc]

end CostField

/-! ### What an answer adds -/

/-- What the additions that are made add up to, field by field. -/
theorem sum_performed {w : CostAdd → ℚ} {fields : List (Option (Result CostAdd))}
    (h : (performed (fields.filterMap id)).2 = none) :
    ((performed (fields.filterMap id)).1.map w).sum =
      (fields.map fun o => o.elim 0 fun r => r.toOption.elim 0 w).sum := by
  induction fields with
  | nil => rfl
  | cons o fields ih =>
    cases o with
    | none =>
      rw [List.map_cons, List.sum_cons]
      exact (ih h).trans (zero_add _).symm
    | some r =>
      cases r with
      | error exc => cases h
      | ok a =>
        rw [List.map_cons, List.sum_cons, ← ih h]
        rfl

namespace CostField

variable {f : CostField}

/-- What the conversion of a field adds. -/
def converted (f : CostField) (o : Option (Result CostAdd)) : ℚ :=
  o.elim 0 fun r => r.toOption.elim 0 f.added

/-- The field of another total adds nothing. -/
theorem converted_other {α : Type} {convert : Value → Result α} {add : α → CostAdd}
    (h : ∀ a, f.added (add a) = 0) (v : Value) : f.converted (stampField convert add v) = 0 := by
  unfold stampField
  split_ifs
  · cases convert v with
    | error exc => rfl
    | ok a => exact h a
  · rfl

theorem converted_tokens {add : ℤ → CostAdd} (h : ∀ n : ℤ, f.added (add n) = n) {v : Value}
    (hv : v = .none ∨ ∃ n : ℤ, v = .int n) :
    f.converted (stampField Value.toInt? add v) = amount v := by
  rcases hv with rfl | ⟨n, rfl⟩
  · rfl
  · exact h n

theorem converted_cost {add : Double → CostAdd} (h : ∀ x, f.added (add x) = amount (.float x))
    {v : Value} (hv : v = .none ∨ isNumber v = true) (hconvert : FloatConvertible v) :
    f.converted (stampField numToFloat add v) = amount v := by
  rcases hv with rfl | hnum
  · rfl
  · rw [stampField, if_pos hnum]
    cases v with
    | int n =>
      have hint : numToFloat (.int n) = .ok (.fin n) := Double.ofInt_eq_ok (hconvert n rfl)
      rw [hint]
      exact h _
    | float x => exact h x
    | _ => cases hnum

/-- An accepted answer adds its stamp. -/
theorem sum_accumulateCost {out : Dict} (h : StampConvertible out) (htyped : CostTyped out)
    (f : CostField) : ((accumulateCost out).1.map f.added).sum = amount (out.get f.field) := by
  rw [accumulateCost, sum_performed (accumulateCost_ok_iff.2 h)]
  show f.converted _ + (f.converted _ + (f.converted _ + (f.converted _ + 0))) = _
  have hin : out.get "tokens_in" = .none ∨ ∃ n : ℤ, out.get "tokens_in" = .int n := htyped tokensIn
  have hout : out.get "tokens_out" = .none ∨ ∃ n : ℤ, out.get "tokens_out" = .int n :=
    htyped tokensOut
  have husd : out.get "cost_usd" = .none ∨ isNumber (out.get "cost_usd") = true := htyped costUsd
  have hest : out.get "est_cost" = .none ∨ isNumber (out.get "est_cost") = true := htyped estCost
  cases f with
  | tokensIn =>
    rw [converted_tokens (fun _ => rfl) hin, converted_other (fun _ => rfl),
      converted_other (fun _ => rfl), converted_other (fun _ => rfl)]
    simp only [add_zero, field]
  | tokensOut =>
    rw [converted_other (fun _ => rfl), converted_tokens (fun _ => rfl) hout,
      converted_other (fun _ => rfl), converted_other (fun _ => rfl)]
    simp only [add_zero, zero_add, field]
  | costUsd =>
    rw [converted_other (fun _ => rfl), converted_other (fun _ => rfl),
      converted_cost (fun _ => rfl) husd h.costUsd, converted_other (fun _ => rfl)]
    simp only [add_zero, zero_add, field]
  | estCost =>
    rw [converted_other (fun _ => rfl), converted_other (fun _ => rfl),
      converted_other (fun _ => rfl), converted_cost (fun _ => rfl) hest h.estCost]
    simp only [add_zero, zero_add, field]

/-- What the steps of a trace add. -/
def addedIn (f : CostField) (trace : Trace) : ℚ := (trace.map f.addedBy).sum

theorem addedIn_append (f : CostField) (a b : Trace) :
    f.addedIn (a ++ b) = f.addedIn a + f.addedIn b := by
  rw [addedIn, List.map_append, List.sum_append]
  rfl

theorem addedIn_bump (f : CostField) (counter : Counter) (trace : Trace) :
    f.addedIn (did (.bump counter) :: trace) = f.addedIn trace := zero_add _

theorem addedIn_failedAttempt (f : CostField) (u : PlanUnit) (failure : Failure) :
    f.addedIn (failedAttempt u failure) = 0 := by
  cases failure with
  | rateLimit =>
    show (0 : ℚ) + (0 + (0 + (0 + (0 + (0 + 0))))) = 0
    norm_num
  | other exc =>
    show (0 : ℚ) + (0 + (0 + (0 + 0))) = 0
    norm_num

theorem addedIn_overflowAttempt (f : CostField) (u : PlanUnit) :
    f.addedIn (overflowAttempt u) = 0 := by
  show (0 : ℚ) + (0 + (0 + 0)) = 0
  norm_num

theorem addedIn_retried (f : CostField) (u : PlanUnit) (i : ℕ) (failures : List Failure) :
    f.addedIn (retried u i failures) = 0 := by
  induction failures generalizing i with
  | nil => rfl
  | cons failure failures ih =>
    have hsleep (trace : Trace) : f.addedIn (did (.sleep i) :: trace) = f.addedIn trace :=
      zero_add _
    rw [retried, addedIn_append, addedIn_failedAttempt, hsleep, ih, zero_add]

/-- **A dispatch adds the stamps that the hook returned for its slices.** -/
theorem addedIn_traceFrom {t : DispatchTree} (hreturns : t.Returns)
    (htyped : ∀ out ∈ t.answers, CostTyped out) (f : CostField) (i : ℕ) :
    f.addedIn (t.traceFrom i) = (t.answers.map fun out => amount (out.get f.field)).sum := by
  induction t generalizing i with
  | answered u failures out =>
    have hout : CostTyped out := htyped out List.mem_cons_self
    -- of an accepted attempt only the last signal adds costs
    have hadds : f.addedIn (acceptedAttempt u out) = ((accumulateCost out).1.map f.added).sum := by
      show (0 : ℚ) + (0 + (0 + (0 + (0 + (((accumulateCost out).1.map f.added).sum + 0))))) = _
      simp only [zero_add, add_zero]
    rw [traceFrom, addedIn_append, addedIn_retried, zero_add, hadds,
      sum_accumulateCost hreturns hout]
    exact List.sum_singleton.symm
  | gaveUp u failures last =>
    rw [traceFrom, addedIn_append, addedIn_retried, addedIn_append, addedIn_failedAttempt,
      addedIn_bump, zero_add, zero_add]
    rfl
  | stranded u failures last => exact hreturns.elim
  | tooLarge u failures =>
    rw [traceFrom, addedIn_append, addedIn_retried, addedIn_append, addedIn_overflowAttempt,
      addedIn_bump, zero_add, zero_add]
    rfl
  | split u failures l r ihl ihr =>
    obtain ⟨hl, hr, -⟩ := hreturns
    have happend : (split u failures l r).answers = l.answers ++ r.answers :=
      List.filterMap_append
    rw [happend] at htyped ⊢
    rw [traceFrom, addedIn_append, addedIn_retried, addedIn_append, addedIn_overflowAttempt,
      addedIn_bump, addedIn_append, ihl hl fun out hout => htyped out (List.mem_append_left _ hout),
      ihr hr fun out hout => htyped out (List.mem_append_right _ hout), List.map_append,
      List.sum_append, zero_add, zero_add]
  | cut u failures exc l ih => exact hreturns.elim

end CostField

/-! ### The rows -/

/-- With distinct keys, the map has one entry for each unit. -/
theorem perm_collectResults {units : List PlanUnit} (hkeys : (units.map PlanUnit.key).Nodup)
    {results : Fin units.length → Result Dict} {m : ResultMap}
    (h : collectResults units results = .ok m) :
    ∃ outs : Fin units.length → Dict, (∀ i, results i = .ok (outs i)) ∧
      m.entries.Perm ((List.finRange units.length).map fun i => ((units.get i).key, outs i)) := by
  choose outs hresults hget using get?_collectResults hkeys h
  have hnodup : ((List.finRange units.length).map fun i => ((units.get i).key, outs i)).Nodup := by
    refine List.Nodup.of_map Prod.fst ?_
    have hfst : ((List.finRange units.length).map fun i =>
        ((units.get i).key, outs i)).map Prod.fst = units.map PlanUnit.key := by
      conv_rhs => rw [← List.map_getElem_finRange units, List.map_map]
      rw [List.map_map]
      rfl
    rw [hfst]
    exact hkeys
  refine ⟨outs, hresults, (List.perm_ext_iff_of_nodup m.nodup_entries hnodup).2 ?_⟩
  rintro ⟨key, out⟩
  rw [m.mem_entries_iff, List.mem_map]
  constructor
  · intro hout
    obtain ⟨i, hi, hresult⟩ := (collectResults_spec h).2 key out hout
    refine ⟨i, List.mem_finRange i, Prod.ext hi ?_⟩
    exact Except.ok.inj ((hresults i).symm.trans hresult)
  · rintro ⟨i, -, hi⟩
    obtain ⟨rfl, rfl⟩ := Prod.mk.inj hi
    exact hget i

theorem get_specialistTiming (f : CostField) (e : UnitKey × Dict) :
    (specialistTiming e).get f.field = e.2.get f.field := by
  cases f <;> rfl

/-- No sum of the run overflowed: every total and every sum in a row is finite. -/
structure Exact (m : ResultMap) (stats : RunnerStats) : Prop where
  total : ∀ f : CostField, IntConvertible (f.total stats)
  row : ∀ row ∈ perSpecialistTimings m, ∀ f : CostField, IntConvertible (row.get f.field)

/-- The answers that the hook gave to the calls for a unit. -/
def answersFor {n : ℕ} (log : List (Fin n × Event Effect Reply)) (i : Fin n) : List Dict :=
  acceptedAnswers (Pool.stepsOf log i)

/-- **The rows add up to what the units added to the totals, and a row has no value where no answer
for its unit had one.** -/
theorem rows_agree {τ : Type} {hook : Hook τ} {units : List PlanUnit}
    (hkeys : (units.map PlanUnit.key).Nodup) {maxRetries : ℤ} {start : SharedState τ}
    {log : List (Fin units.length × Event Effect Reply)}
    {p : Pool (Fin units.length) (SharedState τ) Effect Reply (Result Dict)}
    (hrun : Pool.Run (fun s _ => limited hook s) (startPool start maxRetries units) log p)
    {results : Fin units.length → Result Dict} (hend : ∀ i, p.procs i = .ret (results i))
    {m : ResultMap} (hm : collectResults units results = .ok m)
    (htyped : ∀ i, ∀ out ∈ answersFor log i, CostTyped out) (hexact : Exact m p.shared.stats) :
    (∀ f : CostField, ((perSpecialistTimings m).map fun row => amount (row.get f.field)).sum =
        amount (f.total p.shared.stats) - amount (f.total start.stats)) ∧
      ∃ rows : Fin units.length → Dict,
        (perSpecialistTimings m).Perm ((List.finRange units.length).map rows) ∧
          ∀ i, (rows i).get "leaf_id" = .str (units.get i).leafId ∧ ∀ f : CostField,
            (rows i).get f.field = .none ↔ ∀ out ∈ answersFor log i, out.get f.field = .none := by
  obtain ⟨outs, hresults, hperm⟩ := perm_collectResults hkeys hm
  -- one row for each unit
  have hrows : (perSpecialistTimings m).Perm ((List.finRange units.length).map fun i =>
      specialistTiming ((units.get i).key, outs i)) := by
    have hsorted := ((List.perm_insertionSort unitLe m.entries).trans hperm).map specialistTiming
    rw [List.map_map] at hsorted
    exact hsorted
  -- each thread ran a dispatch of its own, which returned
  have htree (i : Fin units.length) : ∃ t : DispatchTree, t.Returns ∧ t.answers = answersFor log i ∧
      Pool.stepsOf log i = t.traceFrom 0 ∧ ∀ f : CostField,
        (outs i).get f.field = t.stamp.get f.field := by
    obtain ⟨t, -, -, htrace, hres⟩ := runs_dispatchOne.1 (Pool.project hrun (hend i))
    rw [hresults i] at hres
    refine ⟨t, (result_ok_iff t).1 ⟨_, hres.symm⟩, ?_, htrace, fun f => ?_⟩
    · rw [answersFor, htrace, acceptedAnswers_traceFrom]
    · exact get_of_result hres.symm _ f.mem_stampNames
  choose trees hreturns hanswers htraces hstamps using htree
  have hsums (i : Fin units.length) (f : CostField) :
      SumsTo ((outs i).get f.field) ((answersFor log i).map (·.get f.field)) := by
    have hmem : specialistTiming ((units.get i).key, outs i) ∈ perSpecialistTimings m :=
      hrows.mem_iff.2 (List.mem_map_of_mem (List.mem_finRange i))
    have hfinite := hexact.row _ hmem f
    rw [get_specialistTiming, hstamps] at hfinite
    rw [hstamps, ← hanswers]
    exact amount_stamp (hreturns i) (hanswers i ▸ htyped i) hfinite
  refine ⟨fun f => ?_, _, hrows, fun i => ⟨rfl, fun f => ?_⟩⟩
  · obtain ⟨-, htotal⟩ := CostField.total_run hrun (hexact.total f)
    have hadded (i : Fin units.length) : ((Pool.stepsOf log i).map f.addedBy).sum =
        amount ((outs i).get f.field) := by
      have hsteps := CostField.addedIn_traceFrom (hreturns i) (hanswers i ▸ htyped i) f 0
      rw [← htraces, hanswers] at hsteps
      rw [(hsums i f).amount_eq, List.map_map]
      exact hsteps
    have hrowsSum := (hrows.map fun row => amount (row.get f.field)).sum_eq
    rw [hrowsSum, htotal, Pool.sum_stepsOf, Finset.sum_congr rfl fun i _ => hadded i, List.map_map,
      Fin.sum_univ_def]
    simp only [Function.comp_def, get_specialistTiming]
    exact (add_sub_cancel_left _ _).symm
  · rw [get_specialistTiming, (hsums i f).none_iff, List.forall_mem_map]

/-- A hook that may answer anything. -/
def anyAnswer : Hook Unit := fun _ _ _ _ => True

/-- A thread that never waits can take all its steps. -/
theorem serves_of_neverWaits {n : ℕ} (i : Fin n) {s : SharedState Unit} {trace : Trace}
    (h : NeverWaits s.limiter trace) :
    ∃ s', Pool.Serves (fun s _ => limited anyAnswer s) i s trace s' ∧
      s'.stats = statsAfter s.stats trace := by
  induction trace generalizing s with
  | nil => exact ⟨s, .nil s, rfl⟩
  | cons ev trace ih =>
    obtain ⟨hacquire, hrest⟩ := h
    obtain ⟨e, ans⟩ := ev
    cases e with
    | call u =>
      obtain ⟨s', hserves, hstats⟩ := @ih s hrest
      exact ⟨s', .cons ⟨(), trivial, rfl⟩ hserves, hstats⟩
    | signal sig =>
      have hlimiter : (s.signal sig).limiter = s.limiter.after (.signal sig) := by
        cases sig <;> rfl
      have hready : s.Ready sig := by
        cases sig with
        | acquire => exact hacquire rfl
        | _ => trivial
      have hsignal : (s.signal sig).stats = s.stats.signal sig := by cases sig <;> rfl
      obtain ⟨s', hserves, hstats⟩ := @ih (s.signal sig) (by rwa [hlimiter])
      rw [hsignal] at hstats
      exact ⟨s', .cons ⟨hready, rfl⟩ hserves, hstats⟩

/-- Two files that overflow together; the first half costs something, the second carries no
stamp. -/
def splitCosts : DispatchTree :=
  .split ⟨"quality", 1, 1, ["a.py", "b.py"]⟩ []
    (.answered ⟨"quality", 1, 1, ["a.py"]⟩ []
      [("tokens_in", .int 3), ("est_cost", .float (.fin (1 / 2)))])
    (.answered ⟨"quality", 1, 1, ["b.py"]⟩ [] [])

/-- What it leaves. -/
def splitStats : RunnerStats where
  dispatched := 2
  overflowSplits := 1
  totalInTokens := 3
  totalEstCost := .fin (1 / 2)

theorem rows_agree_splitCosts : ∃ (m : ResultMap) (stats : RunnerStats),
    collectResults [splitCosts.unit] (fun _ => splitCosts.result) = .ok m ∧
      ∀ f : CostField, ((perSpecialistTimings m).map fun row => amount (row.get f.field)).sum =
        amount (f.total stats) - amount (f.total {}) := by
  have hvalid : splitCosts.Valid 0 0 :=
    ⟨retriable_start, rfl, retriable_start, retriable_start, _, rfl⟩
  have hanswer : ∀ out ∈ splitCosts.answers, CostTyped out := by
    intro out hout f
    rcases List.mem_pair.1 hout with rfl | rfl
    · cases f with
      | tokensIn => exact .inr ⟨3, rfl⟩
      | estCost => exact .inr rfl
      | _ => exact .inl rfl
    · exact .inl (by cases f <;> rfl)
  have hlist : ∀ out ∈ splitCosts.answers, ListFindings out := by
    intro out hout v hv
    rcases List.mem_pair.1 hout with rfl | rfl <;> cases hv
  have hrange : StampsInRange splitCosts.answers := by
    refine ⟨fun out hout key hkey => ?_, by decide +kernel⟩
    revert hkey
    simp only [stampNumbers, stampKeys, List.map_cons, List.map_nil, List.mem_cons,
      List.not_mem_nil, or_false]
    rcases List.mem_pair.1 hout with rfl | rfl
    · rintro (rfl | rfl | rfl | rfl | rfl) x hx
      case inr.inr.inr.inr => exact ⟨_, (Value.float.inj hx).symm⟩
      all_goals cases hx
    · rintro (rfl | rfl | rfl | rfl | rfl) x hx <;> cases hx
  obtain ⟨hreturns, -, hwithin⟩ := returns_of_inRange hvalid le_rfl (by decide) hlist hrange
  have hruns : Runs (dispatchOne 0 splitCosts.unit) (splitCosts.traceFrom 0) splitCosts.result :=
    runs_dispatchOne.2 ⟨splitCosts, rfl, hvalid, rfl, rfl⟩
  -- the only thread runs to its end
  let start : SharedState Unit := ⟨Limiter.init 1 1, {}, ()⟩
  let results : Fin [splitCosts.unit].length → Result Dict := fun _ => splitCosts.result
  have hwaits : NeverWaits start.limiter (splitCosts.traceFrom 0) :=
    neverWaits le_rfl le_rfl (limiterInv_init le_rfl le_rfl) rfl
      ((disciplined_dispatchOne 0 splitCosts.unit).permitAfter_of_runs hruns)
  obtain ⟨s', hserves, hstats⟩ := serves_of_neverWaits (0 : Fin 1) hwaits
  have hrun := Pool.run_of_runs hruns hserves
    (rfl : (startPool start 0 [splitCosts.unit]).procs 0 = dispatchOne 0 splitCosts.unit)
  have hend (i : Fin 1) : Function.update (startPool start 0 [splitCosts.unit]).procs 0
      (.ret splitCosts.result) i = .ret (results i) := by
    rw [Subsingleton.elim i 0]
    rfl
  obtain ⟨m, hm⟩ : Result.Ok (collectResults [splitCosts.unit] results) :=
    collectResults_ok fun _ => (result_ok_iff _).2 hreturns
  have hanswers (i : Fin 1) :
      answersFor ((splitCosts.traceFrom 0).map fun ev => ((0 : Fin 1), ev)) i =
      splitCosts.answers := by
    rw [Subsingleton.elim i 0, answersFor, Pool.stepsOf_map_self, acceptedAnswers_traceFrom]
  have hfinal : s'.stats = splitStats := by
    rw [hstats]
    decide +kernel
  have hexact : Exact m s'.stats := by
    constructor
    · rw [hfinal]
      rintro (_ | _ | _ | _) x hx
      · cases hx
      · cases hx
      · exact ⟨_, (Value.float.inj hx).symm⟩
      · exact ⟨_, (Value.float.inj hx).symm⟩
    · intro row hrow f
      obtain ⟨e, he, rfl⟩ := List.mem_map.1 hrow
      obtain ⟨i, -, hout⟩ := (collectResults_spec hm).2 e.1 e.2
        ((m.mem_entries_iff).1 (mem_sortedUnits.1 he))
      rw [get_specialistTiming, get_of_result hout _ f.mem_stampNames]
      exact (hwithin _ (List.mem_map_of_mem f.mem_stampKeys)).finite
  have hkeys : ([splitCosts.unit].map PlanUnit.key).Nodup := List.nodup_singleton _
  obtain ⟨hsums, -⟩ := rows_agree hkeys hrun hend hm
    (fun i out hout => hanswer out (hanswers i ▸ hout)) hexact
  exact ⟨m, s'.stats, hm, hsums⟩

end CodeReview
