import CodeReview.Runner.Dispatch
import Mathlib.Data.List.DropRight

/-!
# The response of an agent

`_parse_json` cuts the outermost braces out of an agent's final text and loads them.  A text that
cannot be loaded is a transient failure, unless its words say that the context was too long.

* `parseJson_error` : it raises nothing but the two exceptions that the runner waits or splits for;
* `nodup_of_parseJson` : an output has no key twice.
-/

namespace CodeReview

open Py

/-- `json.loads`: a value, or `none` for a `JSONDecodeError`.  An object has no key twice. -/
structure JsonLoads where
  load : String → Option Value
  nodup : ∀ {text : String} {d : Dict}, load text = some (.dict d) → (d.map Prod.fst).Nodup

variable (rt : Runtime)

/-- The exception that `_raise_for_signal` raises on a text, if it raises one. -/
def raiseForSignal (text : String) : Option DispatchError :=
  let has := Text.contains (rt.lower text)
  if has "rate" && has "limit" || has "429" || has "overloaded" then some .rateLimit
  else if has "context" && (has "overflow" || has "too long" || has "exceed") then
    some .contextOverflow
  else if has "prompt is too long" || has "maximum context" then some .contextOverflow
  else none

/-- The text before the last occurrence of `sep`. -/
def beforeLast (sep : List Char) : List Char → Option (List Char)
  | [] => none
  | c :: cs =>
    match beforeLast sep cs with
    | some before => some (c :: before)
    | none => if sep.isPrefixOf (c :: cs) then some [] else none

/-- What follows an opening fence, its language and its line end. -/
def afterFence (cs : List Char) : List Char :=
  match (cs.drop 3).dropWhile Char.isAlpha with
  | '\n' :: rest => rest
  | rest => rest

/-- A stripped text without its fences. -/
def unfence (cs : List Char) : List Char :=
  let fence := "```".toList
  if fence.isPrefixOf cs then (beforeLast fence (afterFence cs)).getD (afterFence cs) else cs

/-- From the first opening brace to the last closing one, when they stand in this order. -/
def outerBraces (cs : List Char) : List Char :=
  let opened := cs.dropWhile (· ≠ '{')
  if '}' ∈ opened then opened.rdropWhile (· ≠ '}') else cs

/-- The JSON text in a response. -/
def jsonText (text : String) : String :=
  String.ofList (outerBraces (unfence (Text.strip text).toList))

/-- The output that a loaded value stands for. -/
def responseObject : Value → Dict
  | .dict obj => obj
  | obj => [("_raw", obj)]

/-- `_parse_json`. -/
def parseJson (json : JsonLoads) (text : String) : Except DispatchError Dict :=
  if Text.strip text = "" then .error .rateLimit
  else
    match json.load (jsonText text) with
    | some obj => .ok (responseObject obj)
    | none => .error ((raiseForSignal rt text).getD .rateLimit)

variable {rt}

theorem raiseForSignal_eq_some {text : String} {e : DispatchError}
    (h : raiseForSignal rt text = some e) : e = .rateLimit ∨ e = .contextOverflow := by
  simp only [raiseForSignal] at h
  split_ifs at h
  · exact .inl (Option.some.inj h).symm
  · exact .inr (Option.some.inj h).symm
  · exact .inr (Option.some.inj h).symm

/-- **A response is transient or too long, when it cannot be parsed.** -/
theorem parseJson_error {json : JsonLoads} {text : String} {e : DispatchError}
    (h : parseJson rt json text = .error e) : e = .rateLimit ∨ e = .contextOverflow := by
  unfold parseJson at h
  split_ifs at h with hempty
  · exact .inl (Except.error.inj h).symm
  · cases hload : json.load (jsonText text) with
    | some v =>
      rw [hload] at h
      cases h
    | none =>
      rw [hload] at h
      obtain rfl := Except.error.inj h
      cases hsignal : raiseForSignal rt text with
      | none => exact .inl rfl
      | some e => exact raiseForSignal_eq_some hsignal

theorem nodup_of_parseJson {json : JsonLoads} {text : String} {out : Dict}
    (h : parseJson rt json text = .ok out) : (out.map Prod.fst).Nodup := by
  unfold parseJson at h
  split_ifs at h
  cases hload : json.load (jsonText text) with
  | some v =>
    rw [hload] at h
    obtain rfl := Except.ok.inj h
    cases v with
    | dict d => exact json.nodup hload
    | _ => exact List.nodup_singleton _
  | none =>
    rw [hload] at h
    cases h

example : outerBraces (unfence "```json\n\x7b\"a\": 1\x7d\n```".toList) =
    "\x7b\"a\": 1\x7d".toList := by decide

end CodeReview
