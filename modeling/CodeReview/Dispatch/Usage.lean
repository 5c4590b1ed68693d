import CodeReview.Handlers.Common
import CodeReview.Runner.Cost

/-!
# The cost stamp of a call

`_call_backend` takes the text and the usage that a backend returns apart, and `call_cost_fields`
turns the usage into the stamp of a dispatch output.  Without a usage block, or without a count in
it, the counts are estimated from the lengths of the texts.

* `callCostFields_ok_iff` : **the stamp is built exactly when every number of the usage block can be
  converted**;
* `usageFromEnvelope_ok_iff` : the same for reading the block out of an envelope.
-/

namespace CodeReview

open Py

/-! ### `dispatch._call_backend` -/

/-- What a backend returns: `usage` is the second entry of a pair, and `text` the `str` of the first
entry, or of anything that is not a pair. -/
structure Returned where
  text : String
  usage : Option Value

/-- `_call_backend` on what the backend returned. -/
def callBackend (out : Returned) : String × Option Dict := (out.text, out.usage.bind Value.asDict?)

/-! ### `cost.py` -/

/-- A row of `PRICE_TABLE`, in dollars for a token. -/
structure Price where
  input : ℚ
  output : ℚ
  cacheWrite : ℚ
  cacheRead : ℚ

/-- `_row`. -/
def priceRow (inPerMtok outPerMtok : ℚ) : Price where
  input := inPerMtok / 1000000
  output := outPerMtok / 1000000
  cacheWrite := inPerMtok / 1000000 * (5 / 4)
  cacheRead := inPerMtok / 1000000 * (1 / 10)

/-- `_price`. -/
def price (tier : String) : Price := if tier = "strong" then priceRow 5 25 else priceRow 3 15

/-- `sys.maxsize`. -/
def maxSize : ℕ := 2 ^ 63 - 1

/-- `est_tokens_from_chars`; no text is longer than `sys.maxsize`. -/
def estTokensFromChars (text : String) : ℤ := ((min text.length maxSize + 3) / 4 : ℕ)

/-- A number of tokens at a price. -/
def charge (n : ℤ) (perToken : ℚ) : Result Double := do
  let x ← Double.ofInt n
  return x.mul (.fin perToken)

/-- `est_cost`. -/
def estimateCost (tier : String) (inTokens outTokens cacheWrite cacheRead : ℤ) : Result Double := do
  let p := price tier
  let a ← charge inTokens p.input
  let b ← charge outTokens p.output
  let c ← charge cacheWrite p.cacheWrite
  let d ← charge cacheRead p.cacheRead
  return ((a.add b).add c).add d

/-- `_as_int`. -/
def asInt (v : Value) : Result (Option ℤ) := if isNumber v then some <$> v.toInt? else .ok none

/-- `_as_int(usage.get(key)) or 0`. -/
def tokenCount (usage : Dict) (key : String) : Result ℤ :=
  do return (← asInt (usage.get key)).getD 0

/-- A cost, where it is a number. -/
def asCost (v : Value) : Result (Option Double) :=
  if isNumber v then some <$> numToFloat v else .ok none

/-- `usage_from_envelope`. -/
def usageFromEnvelope (env : Value) : Result (Option Dict) :=
  match env with
  | .dict fields => do
    let usage := Dict.get fields "usage"
    let cost := Dict.get fields "total_cost_usd"
    if usage.asDict?.isNone && cost.num?.isNone then return none
    let u := ensureDict usage
    let inTokens ← tokenCount u "input_tokens"
    let outTokens ← tokenCount u "output_tokens"
    let cacheCreate ← tokenCount u "cache_creation_input_tokens"
    let cacheRead ← tokenCount u "cache_read_input_tokens"
    let costUsd ← asCost cost
    return some [("in_tokens", .int inTokens), ("out_tokens", .int outTokens),
      ("cache_create", .int cacheCreate), ("cache_read", .int cacheRead),
      ("cost_usd", costUsd.elim .none .float)]
  | _ => .ok none

/-- The fields of a stamp. -/
structure CostFields where
  tier : String
  tokensIn : ℤ
  tokensOut : ℤ
  cacheCreate : ℤ
  cacheRead : ℤ
  costUsd : Option Double
  estCost : Double

/-- The counts and the cost of a usage block. -/
structure UsageCounts where
  inTokens : ℤ
  outTokens : ℤ
  cacheCreate : ℤ
  cacheRead : ℤ
  costUsd : Option Double

/-- The estimate from the texts. -/
def estimatedCounts (prompt text : String) (costUsd : Option Double) : UsageCounts where
  inTokens := estTokensFromChars prompt
  outTokens := estTokensFromChars text
  cacheCreate := 0
  cacheRead := 0
  costUsd := costUsd

/-- The counts of a usage block, as they are. -/
def liveCounts (usage : Dict) : Result UsageCounts := do
  let inTokens ← tokenCount usage "in_tokens"
  let outTokens ← tokenCount usage "out_tokens"
  let cacheCreate ← tokenCount usage "cache_create"
  let cacheRead ← tokenCount usage "cache_read"
  let costUsd ← asCost (usage.get "cost_usd")
  return { inTokens, outTokens, cacheCreate, cacheRead, costUsd }

/-- A block without a count: a free call, unless a text was sent or received. -/
def UsageCounts.orEstimate (c : UsageCounts) (prompt text : String) : UsageCounts :=
  if c.inTokens = 0 ∧ c.outTokens = 0 ∧ c.cacheCreate = 0 ∧ c.cacheRead = 0 ∧
      (prompt ≠ "" ∨ text ≠ "") then estimatedCounts prompt text c.costUsd
  else c

/-- The counts that a call is stamped with. -/
def callCounts (usage : Option Dict) (prompt text : String) : Result UsageCounts :=
  match usage with
  | some usage => do return (← liveCounts usage).orEstimate prompt text
  | none => .ok (estimatedCounts prompt text none)

/-- `call_cost_fields`. -/
def callCostFields (tier : String) (usage : Option Dict) (prompt text : String) :
    Result CostFields := do
  let c ← callCounts usage prompt text
  let estCost ← estimateCost tier c.inTokens c.outTokens c.cacheCreate c.cacheRead
  return ⟨tier, c.inTokens, c.outTokens, c.cacheCreate, c.cacheRead, c.costUsd, estCost⟩

/-- The fields as `_stamp_cost` writes them. -/
def CostFields.toDict (f : CostFields) : Dict :=
  [("tier", .str f.tier), ("tokens_in", .int f.tokensIn), ("tokens_out", .int f.tokensOut),
    ("cache_create", .int f.cacheCreate), ("cache_read", .int f.cacheRead),
    ("cost_usd", f.costUsd.elim .none .float), ("est_cost", .float f.estCost)]

/-- `_stamp_cost`. -/
def stampCost (out : Dict) (tier : String) (usage : Option Dict) (prompt text : String) :
    Result Dict := do
  let fields ← callCostFields tier usage prompt text
  return Assoc.update out fields.toDict

/-! ### When the stamp is built -/

/-- A number, if it is one, with an `int` that has a `float`. -/
def TokenReadable (v : Value) : Prop :=
  isNumber v = true → ∃ n, v.toInt? = .ok n ∧ |(n : ℚ)| < Double.bound

/-- The counts of a usage block. -/
def tokenKeys : List String := ["in_tokens", "out_tokens", "cache_create", "cache_read"]

/-- Every number of a usage block can be converted. -/
structure UsageReadable (usage : Dict) : Prop where
  tokens : ∀ key ∈ tokenKeys, TokenReadable (usage.get key)
  cost : FloatConvertible (usage.get "cost_usd")

theorem charge_ok_iff {n : ℤ} {perToken : ℚ} :
    Result.Ok (charge n perToken) ↔ |(n : ℚ)| < Double.bound := by
  rw [charge, Double.ofInt]
  split_ifs with h
  · simpa using h
  · simpa using h

/-- The counts have a price. -/
structure UsageCounts.InRange (c : UsageCounts) : Prop where
  inTokens : |(c.inTokens : ℚ)| < Double.bound
  outTokens : |(c.outTokens : ℚ)| < Double.bound
  cacheCreate : |(c.cacheCreate : ℚ)| < Double.bound
  cacheRead : |(c.cacheRead : ℚ)| < Double.bound

theorem estimateCost_ok_iff {tier : String} {c : UsageCounts} :
    Result.Ok (estimateCost tier c.inTokens c.outTokens c.cacheCreate c.cacheRead) ↔
      c.InRange := by
  simp only [estimateCost, Result.ok_bind_iff, Result.pure_eq_ok, Result.ok_ok, and_true]
  constructor
  · rintro ⟨a, ha, b, hb, c, hc, hd⟩
    exact ⟨charge_ok_iff.1 ⟨a, ha⟩, charge_ok_iff.1 ⟨b, hb⟩, charge_ok_iff.1 ⟨c, hc⟩,
      charge_ok_iff.1 hd⟩
  · intro h
    obtain ⟨a, ha⟩ := charge_ok_iff.2 h.inTokens
    obtain ⟨b, hb⟩ := charge_ok_iff.2 h.outTokens
    obtain ⟨c, hc⟩ := charge_ok_iff.2 h.cacheCreate
    exact ⟨a, ha, b, hb, c, hc, charge_ok_iff.2 h.cacheRead⟩

theorem estTokensFromChars_inRange (text : String) :
    |(estTokensFromChars text : ℚ)| < Double.bound := by
  have hle : (min text.length maxSize + 3) / 4 ≤ 2 ^ 63 := by
    have hmin : min text.length maxSize ≤ 2 ^ 63 - 1 := min_le_right ..
    omega
  have hcast : |(estTokensFromChars text : ℚ)| = ((min text.length maxSize + 3) / 4 : ℕ) := by
    rw [estTokensFromChars, Int.cast_natCast, Nat.abs_cast]
  calc |(estTokensFromChars text : ℚ)| ≤ 2 ^ 63 := by
        rw [hcast]
        exact_mod_cast hle
    _ ≤ 2 ^ 970 := pow_le_pow_right₀ (by norm_num) (by norm_num)
    _ < Double.bound := Double.two_pow_970_lt_bound

theorem zero_inRange : |((0 : ℤ) : ℚ)| < Double.bound := by
  simpa using Double.bound_pos

theorem estimatedCounts_inRange (prompt text : String) (costUsd : Option Double) :
    (estimatedCounts prompt text costUsd).InRange :=
  ⟨estTokensFromChars_inRange prompt, estTokensFromChars_inRange text, zero_inRange, zero_inRange⟩

/-- The fallback is taken only on counts that are zero. -/
theorem UsageCounts.inRange_orEstimate {c : UsageCounts} {prompt text : String} :
    (c.orEstimate prompt text).InRange ↔ c.InRange := by
  rw [UsageCounts.orEstimate]
  split_ifs with h
  · obtain ⟨hin, hout, hcreate, hread, -⟩ := h
    refine iff_of_true (estimatedCounts_inRange ..) ⟨?_, ?_, ?_, ?_⟩
    · exact hin ▸ zero_inRange
    · exact hout ▸ zero_inRange
    · exact hcreate ▸ zero_inRange
    · exact hread ▸ zero_inRange
  · rfl

theorem tokenReadable_iff {usage : Dict} {key : String} :
    TokenReadable (usage.get key) ↔
      ∃ n, tokenCount usage key = .ok n ∧ |(n : ℚ)| < Double.bound := by
  rw [TokenReadable, tokenCount, asInt]
  cases hnum : isNumber (usage.get key) with
  | false => simpa using Double.bound_pos
  | true => cases (usage.get key).toInt? <;> simp [Functor.map, Except.map]

theorem asCost_ok_iff {v : Value} : Result.Ok (asCost v) ↔ FloatConvertible v := by
  rw [asCost]
  cases hnum : isNumber v with
  | false => simpa using floatConvertible_of_not_number hnum
  | true =>
    rw [← numToFloat_ok_iff hnum]
    cases numToFloat v <;> simp [Functor.map, Except.map]

/-- The counts of a block are there, and have a price, exactly when its numbers can be read. -/
theorem liveCounts_inRange_iff {usage : Dict} :
    (∃ c, liveCounts usage = .ok c ∧ c.InRange) ↔ UsageReadable usage := by
  constructor
  · rintro ⟨c, h, hrange⟩
    obtain ⟨inTokens, hin, h⟩ := Result.bind_eq_ok.1 h
    obtain ⟨outTokens, hout, h⟩ := Result.bind_eq_ok.1 h
    obtain ⟨cacheCreate, hcreate, h⟩ := Result.bind_eq_ok.1 h
    obtain ⟨cacheRead, hread, h⟩ := Result.bind_eq_ok.1 h
    obtain ⟨costUsd, hcost, h⟩ := Result.bind_eq_ok.1 h
    obtain rfl := Except.ok.inj h
    refine ⟨?_, asCost_ok_iff.1 ⟨_, hcost⟩⟩
    simp only [tokenKeys, List.forall_mem_cons, tokenReadable_iff]
    exact ⟨⟨_, hin, hrange.inTokens⟩, ⟨_, hout, hrange.outTokens⟩,
      ⟨_, hcreate, hrange.cacheCreate⟩, ⟨_, hread, hrange.cacheRead⟩, by simp⟩
  · rintro ⟨htokens, hcost⟩
    simp only [tokenKeys, List.forall_mem_cons, tokenReadable_iff] at htokens
    obtain ⟨⟨a, ha, ha'⟩, ⟨b, hb, hb'⟩, ⟨c, hc, hc'⟩, ⟨d, hd, hd'⟩, -⟩ := htokens
    obtain ⟨x, hx⟩ := asCost_ok_iff.2 hcost
    exact ⟨⟨a, b, c, d, x⟩, by rw [liveCounts, ha, hb, hc, hd, hx]; rfl, ha', hb', hc', hd'⟩

/-- **The stamp is built exactly when every number of the usage block can be converted.** -/
theorem callCostFields_ok_iff {tier : String} {usage : Dict} {prompt text : String} :
    Result.Ok (callCostFields tier (some usage) prompt text) ↔ UsageReadable usage := by
  rw [← liveCounts_inRange_iff, callCostFields, callCounts]
  simp only [Result.ok_bind_iff, Result.bind_eq_ok, Result.pure_eq_ok, Except.ok.injEq]
  constructor
  · rintro ⟨c, ⟨live, hlive, rfl⟩, cost, hcost, -⟩
    exact ⟨live, hlive, UsageCounts.inRange_orEstimate.1 (estimateCost_ok_iff.1 ⟨cost, hcost⟩)⟩
  · rintro ⟨live, hlive, hrange⟩
    obtain ⟨cost, hcost⟩ := estimateCost_ok_iff.2 (UsageCounts.inRange_orEstimate.2 hrange)
    exact ⟨_, ⟨live, hlive, rfl⟩, cost, hcost, Result.ok_ok _⟩

/-- Without a usage block the stamp is always built. -/
theorem callCostFields_none (tier prompt text : String) :
    Result.Ok (callCostFields tier none prompt text) := by
  obtain ⟨cost, hcost⟩ := estimateCost_ok_iff.2 (estimatedCounts_inRange prompt text none)
  exact ⟨_, by rw [callCostFields, callCounts, Result.ok_bind, hcost]; rfl⟩

/-! ### What is raised -/

/-- The exceptions of a number that cannot be converted. -/
def IsConversionError (e : Exc) : Prop := e = .overflowError ∨ e = .valueError

/-- A computation that raises nothing else. -/
def OnlyConversions {α : Type} (x : Result α) : Prop := ∀ e, x = .error e → IsConversionError e

theorem OnlyConversions.bind {α β : Type} {x : Result α} {f : α → Result β}
    (hx : OnlyConversions x) (hf : ∀ a, OnlyConversions (f a)) : OnlyConversions (x >>= f) := by
  intro e h
  rcases Result.bind_eq_error.1 h with h | ⟨a, -, h⟩
  · exact hx e h
  · exact hf a e h

theorem onlyConversions_ok {α : Type} (a : α) : OnlyConversions (.ok a) := fun _ h => nomatch h

theorem onlyConversions_asInt (v : Value) : OnlyConversions (asInt v) := by
  intro e h
  cases v with
  | int n => cases h
  | float x => cases x <;> cases h <;> simp [IsConversionError]
  | _ => cases h

theorem onlyConversions_tokenCount (usage : Dict) (key : String) :
    OnlyConversions (tokenCount usage key) :=
  (onlyConversions_asInt _).bind fun _ => onlyConversions_ok _

theorem onlyConversions_ofInt (n : ℤ) : OnlyConversions (Double.ofInt n) := by
  intro e h
  rw [Double.ofInt] at h
  split_ifs at h
  exact .inl (Except.error.inj h).symm

theorem onlyConversions_asCost (v : Value) : OnlyConversions (asCost v) := by
  cases v with
  | int n =>
    have hcost : asCost (.int n) = (Double.ofInt n >>= fun x => .ok (some x)) := by
      change some <$> Double.ofInt n = _
      cases Double.ofInt n <;> rfl
    rw [hcost]
    exact (onlyConversions_ofInt n).bind fun _ => onlyConversions_ok _
  | _ => exact onlyConversions_ok _

theorem onlyConversions_charge (n : ℤ) (perToken : ℚ) : OnlyConversions (charge n perToken) :=
  (onlyConversions_ofInt n).bind fun _ => onlyConversions_ok _

/-- **Building a stamp raises nothing else.** -/
theorem onlyConversions_callCostFields (tier : String) (usage : Option Dict)
    (prompt text : String) : OnlyConversions (callCostFields tier usage prompt text) := by
  refine OnlyConversions.bind ?_ fun c => ?_
  · cases usage with
    | none => exact onlyConversions_ok _
    | some usage =>
      refine OnlyConversions.bind ?_ fun _ => onlyConversions_ok _
      exact (onlyConversions_tokenCount _ _).bind fun _ => (onlyConversions_tokenCount _ _).bind
        fun _ => (onlyConversions_tokenCount _ _).bind fun _ =>
        (onlyConversions_tokenCount _ _).bind fun _ => (onlyConversions_asCost _).bind
        fun _ => onlyConversions_ok _
  · refine OnlyConversions.bind ?_ fun _ => onlyConversions_ok _
    exact (onlyConversions_charge _ _).bind fun _ => (onlyConversions_charge _ _).bind
      fun _ => (onlyConversions_charge _ _).bind fun _ => (onlyConversions_charge _ _).bind
      fun _ => onlyConversions_ok _

/-! ### The block of an envelope -/

theorem tokenCount_ok_iff {usage : Dict} {key : String} :
    Result.Ok (tokenCount usage key) ↔ IntConvertible (usage.get key) := by
  rw [tokenCount, asInt]
  cases hnum : isNumber (usage.get key) with
  | false => simpa using intConvertible_of_not_number hnum
  | true =>
    rw [← toInt?_ok_iff hnum]
    cases (usage.get key).toInt? <;> simp [Functor.map, Except.map]

/-- The counts of the usage block in an envelope. -/
def envelopeKeys : List String :=
  ["input_tokens", "output_tokens", "cache_creation_input_tokens", "cache_read_input_tokens"]

/-- **Reading the block out of an envelope raises exactly on a number that cannot be converted.** -/
theorem usageFromEnvelope_ok_iff {fields : Dict} :
    Result.Ok (usageFromEnvelope (.dict fields)) ↔
      (∀ key ∈ envelopeKeys, IntConvertible ((ensureDict (fields.get "usage")).get key)) ∧
        FloatConvertible (fields.get "total_cost_usd") := by
  simp only [envelopeKeys, List.forall_mem_cons, ← tokenCount_ok_iff, ← asCost_ok_iff]
  simp only [usageFromEnvelope, Result.pure_eq_ok]
  split_ifs with hnone
  · -- there is nothing to read, and nothing raises
    simp only [Bool.and_eq_true, Option.isNone_iff_eq_none] at hnone
    have husage : ensureDict (fields.get "usage") = [] := by
      cases h : fields.get "usage" <;> simp_all [ensureDict, Value.asDict?]
    have hcost : asCost (fields.get "total_cost_usd") = .ok none := by
      cases h : fields.get "total_cost_usd" <;> simp_all [asCost, isNumber, Value.num?]
    simp [husage, hcost, tokenCount, asInt, isNumber]
  · simp only [Result.ok_bind_iff, Result.ok_ok, and_true]
    constructor
    · rintro ⟨a, ha, b, hb, c, hc, d, hd, hcost⟩
      exact ⟨⟨⟨a, ha⟩, ⟨b, hb⟩, ⟨c, hc⟩, ⟨d, hd⟩, by simp⟩, hcost⟩
    · rintro ⟨⟨⟨a, ha⟩, ⟨b, hb⟩, ⟨c, hc⟩, ⟨d, hd⟩, -⟩, hcost⟩
      exact ⟨a, ha, b, hb, c, hc, d, hd, hcost⟩

end CodeReview
