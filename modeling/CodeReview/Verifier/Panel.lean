import CodeReview.Py.Text

/-!
# The verifier panel

`llm_verifier_handler` asks a dispatcher once for each slot of the panel and turns every answer, or
exception, into a vote.  The dispatcher may keep a state of its own between the calls.

* `votes_eq` : the votes are the replies, each turned into a vote by itself;
* `panelFailsClosed_iff` : **the panel fails closed, within the schema of its votes, exactly when
  no reply is an object with a long unknown verdict.**
-/

namespace CodeReview

open Py

/-! ### Votes -/

/-- `VerifierVerdict`. -/
inductive VerifierVerdict where
  | passed
  | rejected
  deriving DecidableEq, Repr

/-- `VerifierVerdict.value`. -/
def VerifierVerdict.value : VerifierVerdict → String
  | passed => "passed"
  | rejected => "rejected"

/-- `VerifierVote`. -/
structure VerifierVote where
  verdict : VerifierVerdict
  reason : String
  deriving DecidableEq, Repr

/-- The vote as a JSON object. -/
def VerifierVote.toValue (vote : VerifierVote) : Value :=
  .dict [("verdict", .str vote.verdict.value), ("reason", .str vote.reason)]

/-- The `maxLength` of a reason. -/
def maxReason : ℕ := 280

/-- `_VERIFIER_VOTE_SCHEMA` accepts the value. -/
def conformsToVoteSchema : Value → Bool
  | .dict vote =>
    (Dict.get vote "verdict").asStr?.any (fun verdict => verdict ∈ ["passed", "rejected"]) &&
      (Dict.get vote "reason").asStr?.any fun reason => reason.length ≤ maxReason
  | _ => false

/-! ### The interpreter -/

/-- A `JSONDecodeError`: one of the decoder's messages, and where in the text it stopped. -/
structure JsonDecodeError where
  msg : String
  lineno : ℕ
  colno : ℕ
  pos : ℕ
  msg_le : msg.length ≤ 64
  lineno_lt : lineno < 10 ^ 20
  colno_lt : colno < 10 ^ 20
  pos_lt : pos < 10 ^ 20

/-- `str(exc)`. -/
def JsonDecodeError.text (exc : JsonDecodeError) : String :=
  exc.msg ++ ": line " ++ toString exc.lineno ++ " column " ++ toString exc.colno ++ " (char " ++
    toString exc.pos ++ ")"

/-- What the panel uses of the interpreter. -/
structure PanelRuntime where
  rt : Runtime
  /-- `json.loads`. -/
  loads : String → Except JsonDecodeError Value
  /-- `repr(v)`. -/
  repr : Value → String

/-- `type(v).__name__`. -/
def typeName : Value → String
  | .none => "NoneType"
  | .bool _ => "bool"
  | .int _ => "int"
  | .float _ => "float"
  | .str _ => "str"
  | .list _ => "list"
  | .dict _ => "dict"

/-- `text[:280]`. -/
def cutReason (text : String) : String := String.ofList (text.toList.take maxReason)

/-! ### The handler -/

/-- What a call of the dispatcher comes to. -/
inductive DispatcherReply where
  | answered (raw : String)
  | raised (cls text : String)
  deriving DecidableEq, Repr

variable (py : PanelRuntime)

/-- The vote of a response that is an object. -/
def objectVote (payload : Dict) : VerifierVote :=
  let verdictRaw := payload.get "verdict"
  let reason := cutReason (py.rt.str (payload.getD "reason" (.str "")))
  if verdictRaw.eqv (.str VerifierVerdict.passed.value) then ⟨.passed, reason⟩
  else if verdictRaw.eqv (.str VerifierVerdict.rejected.value) then ⟨.rejected, reason⟩
  else ⟨.rejected, "unknown_verdict: " ++ py.repr verdictRaw⟩

/-- `_parse_vote`. -/
def parseVote (raw : String) : VerifierVote :=
  match py.loads raw with
  | .error exc => ⟨.rejected, "verifier_response_not_json: " ++ exc.text⟩
  | .ok (.dict payload) => objectVote py payload
  | .ok payload => ⟨.rejected, "verifier_response_not_object: " ++ typeName payload⟩

/-- The vote of one slot. -/
def voteOf : DispatcherReply → VerifierVote
  | .answered raw => parseVote py raw
  | .raised cls text => ⟨.rejected, cutReason ("dispatcher_raised: " ++ cls ++ ": " ++ text)⟩

/-- What the handler reads of a `VerifierSpec`. -/
structure VerifierSpec where
  role : String
  promptTemplate : String
  parallelCount : ℕ

/-- What the handler reads of a `Brief`; `dump` is `brief.model_dump(mode="json")`. -/
structure Brief where
  state : String
  runId : String
  dump : Value

/-- The context of one call. -/
structure CallContext where
  role : String
  slot : ℕ
  stateId : String
  runId : String

/-- A dispatcher with a state. -/
abbrev LlmDispatcher (σ : Type) := String → CallContext → σ → DispatcherReply × σ

/-- One run of the handler: the dispatcher, if one is registered, in its state, and the
arguments. -/
structure Panel (σ : Type) where
  dispatcher : LlmDispatcher σ
  start : σ
  /-- `renderer.render`, of a template in a state with its metadata. -/
  render : String → String → Value → String
  verifier : VerifierSpec
  brief : Brief
  outputs : Dict

namespace Panel

variable {σ : Type} (p : Panel σ)

/-- `rendered_prompt`. -/
def prompt : String :=
  p.render p.verifier.promptTemplate p.brief.state (.dict [("brief", p.brief.dump),
    ("outputs", .dict p.outputs), ("verifier_role", .str p.verifier.role)])

/-- The call for a slot. -/
def call (slot : ℕ) (st : σ) : DispatcherReply × σ :=
  p.dispatcher p.prompt ⟨p.verifier.role, slot, p.brief.state, p.brief.runId⟩ st

/-- The votes of some slots, one call after the other. -/
def castVotes : List ℕ → σ → List VerifierVote
  | [], _ => []
  | slot :: slots, st => voteOf py (p.call slot st).1 :: castVotes slots (p.call slot st).2

/-- The replies of some slots. -/
def repliesFrom : List ℕ → σ → List DispatcherReply
  | [], _ => []
  | slot :: slots, st => (p.call slot st).1 :: repliesFrom slots (p.call slot st).2

/-- The votes of a run. -/
def votes : List VerifierVote := p.castVotes py (List.range p.verifier.parallelCount) p.start

/-- What the dispatcher came to, slot by slot. -/
def replies : List DispatcherReply := p.repliesFrom (List.range p.verifier.parallelCount) p.start

end Panel

/-- `llm_verifier_handler`; `registered` says that there is a dispatcher. -/
def llmVerifierHandler {σ : Type} (registered : Bool) (p : Panel σ) : List VerifierVote :=
  if registered then p.votes py
  else List.replicate p.verifier.parallelCount ⟨.rejected, "no_llm_dispatcher_registered"⟩

variable {py}

/-! ### One reply -/

theorem length_cutReason_le (text : String) : (cutReason text).length ≤ maxReason := by
  rw [cutReason, String.length_ofList]
  exact List.length_take_le ..

/-- A vote conforms exactly when its reason is short. -/
theorem conformsToVoteSchema_iff (vote : VerifierVote) :
    conformsToVoteSchema vote.toValue = true ↔ vote.reason.length ≤ maxReason := by
  have hverdict : vote.verdict.value = "passed" ∨ vote.verdict.value = "rejected" := by
    cases vote.verdict with
    | passed => exact .inl rfl
    | rejected => exact .inr rfl
  simp [conformsToVoteSchema, VerifierVote.toValue, Dict.get_cons, Value.asStr?, hverdict]

/-- The text of a decoder's error is short. -/
theorem JsonDecodeError.length_text_le (exc : JsonDecodeError) : exc.text.length ≤ 200 := by
  have hdigits {n : ℕ} (hn : n < 10 ^ 20) : (toString n).length ≤ 20 :=
    (Nat.length_repr_le_iff (by decide)).2 hn
  have hline := hdigits exc.lineno_lt
  have hcol := hdigits exc.colno_lt
  have hpos := hdigits exc.pos_lt
  have hmsg := exc.msg_le
  simp only [JsonDecodeError.text, String.length_append]
  have h₁ : ": line ".length = 7 := rfl
  have h₂ : " column ".length = 8 := rfl
  have h₃ : " (char ".length = 7 := rfl
  have h₄ : ")".length = 1 := rfl
  omega

/-- The object that a reply is, if it is one. -/
def objectOf (py : PanelRuntime) : DispatcherReply → Option Dict
  | .answered raw => (py.loads raw).toOption.bind Value.asDict?
  | .raised _ _ => none

/-- The reply is an object whose verdict is exactly `passed`. -/
def Passing (py : PanelRuntime) (reply : DispatcherReply) : Prop :=
  ∃ payload, objectOf py reply = some payload ∧ Dict.get payload "verdict" = .str "passed"

instance (reply : DispatcherReply) : Decidable (Passing py reply) :=
  decidable_of_iff ((objectOf py reply).any fun payload =>
      (Dict.get payload "verdict").eqv (.str "passed"))
    (by simp [Passing, Option.any_eq_true])

/-- The reply is an object whose verdict is neither of the two, and long in print. -/
def HasLongVerdict (py : PanelRuntime) (reply : DispatcherReply) : Prop :=
  ∃ payload, objectOf py reply = some payload ∧ Dict.get payload "verdict" ≠ .str "passed" ∧
    Dict.get payload "verdict" ≠ .str "rejected" ∧
    263 < (py.repr (Dict.get payload "verdict")).length

theorem voteOf_object {reply : DispatcherReply} {payload : Dict}
    (h : objectOf py reply = some payload) : voteOf py reply = objectVote py payload := by
  cases reply with
  | raised cls text => cases h
  | answered raw =>
    obtain ⟨v, hv, hdict⟩ := Option.bind_eq_some_iff.1 h
    have hload : py.loads raw = .ok v := by
      cases hload : py.loads raw with
      | error exc => simp [hload, Except.toOption] at hv
      | ok w => simpa [hload, Except.toOption] using hv
    obtain rfl : v = .dict payload := by cases v <;> simp_all [Value.asDict?]
    rw [voteOf, parseVote, hload]

theorem length_typeName_le (v : Value) : (typeName v).length ≤ 8 := by
  cases v <;> simp only [typeName] <;> decide

/-- A reply that is no object is rejected, with a short reason. -/
theorem voteOf_noObject {reply : DispatcherReply} (h : objectOf py reply = none) :
    (voteOf py reply).verdict = .rejected ∧ (voteOf py reply).reason.length ≤ maxReason := by
  cases reply with
  | raised cls text => exact ⟨rfl, length_cutReason_le _⟩
  | answered raw =>
    rw [voteOf, parseVote]
    rw [objectOf] at h
    cases hload : py.loads raw with
    | error exc =>
      refine ⟨rfl, ?_⟩
      have htext := exc.length_text_le
      have hprefix : "verifier_response_not_json: ".length = 28 := rfl
      simp only [String.length_append, maxReason]
      omega
    | ok v =>
      rw [hload] at h
      have hname := length_typeName_le v
      have hprefix : "verifier_response_not_object: ".length = 30 := rfl
      have hreason : ("verifier_response_not_object: " ++ typeName v).length ≤ maxReason := by
        simp only [String.length_append, maxReason]
        omega
      cases v with
      | dict payload => cases h
      | _ => exact ⟨rfl, hreason⟩

/-- The three votes of an object. -/
theorem objectVote_cases (payload : Dict) :
    (payload.get "verdict" = .str "passed" ∧ (objectVote py payload).verdict = .passed ∧
        (objectVote py payload).reason.length ≤ maxReason) ∨
      (payload.get "verdict" = .str "rejected" ∧ (objectVote py payload).verdict = .rejected ∧
        (objectVote py payload).reason.length ≤ maxReason) ∨
      (payload.get "verdict" ≠ .str "passed" ∧ payload.get "verdict" ≠ .str "rejected" ∧
        objectVote py payload =
          ⟨.rejected, "unknown_verdict: " ++ py.repr (payload.get "verdict")⟩) := by
  by_cases hpassed : payload.get "verdict" = .str "passed"
  · have heq : (payload.get "verdict").eqv (.str VerifierVerdict.passed.value) = true :=
      (Value.eqv_str _ _).2 hpassed
    have hvote : objectVote py payload =
        ⟨.passed, cutReason (py.rt.str (payload.getD "reason" (.str "")))⟩ := by
      rw [objectVote, if_pos heq]
    rw [hvote]
    exact .inl ⟨hpassed, rfl, length_cutReason_le _⟩
  have hnot : ¬ (payload.get "verdict").eqv (.str VerifierVerdict.passed.value) = true :=
    fun h => hpassed ((Value.eqv_str _ _).1 h)
  by_cases hrejected : payload.get "verdict" = .str "rejected"
  · have heq : (payload.get "verdict").eqv (.str VerifierVerdict.rejected.value) = true :=
      (Value.eqv_str _ _).2 hrejected
    have hvote : objectVote py payload =
        ⟨.rejected, cutReason (py.rt.str (payload.getD "reason" (.str "")))⟩ := by
      rw [objectVote, if_neg hnot, if_pos heq]
    rw [hvote]
    exact .inr (.inl ⟨hrejected, rfl, length_cutReason_le _⟩)
  · have hnot' : ¬ (payload.get "verdict").eqv (.str VerifierVerdict.rejected.value) = true :=
      fun h => hrejected ((Value.eqv_str _ _).1 h)
    refine .inr (.inr ⟨hpassed, hrejected, ?_⟩)
    rw [objectVote, if_neg hnot, if_neg hnot']

/-- **A vote is passed exactly on an object whose verdict is exactly `passed`.** -/
theorem voteOf_passed_iff {reply : DispatcherReply} :
    (voteOf py reply).verdict = .passed ↔ Passing py reply := by
  rw [Passing]
  cases hobject : objectOf py reply with
  | none => simp [(voteOf_noObject hobject).1]
  | some payload =>
    rw [voteOf_object hobject]
    rcases @objectVote_cases py payload with ⟨h, hvote, -⟩ | ⟨h, hvote, -⟩ | ⟨h, -, hvote⟩
    · simp [h, hvote]
    · simp [h, hvote]
    · simp [h, hvote]

/-- **A reason is too long exactly on a long unknown verdict.** -/
theorem voteOf_conforms_iff {reply : DispatcherReply} :
    (voteOf py reply).reason.length ≤ maxReason ↔ ¬ HasLongVerdict py reply := by
  rw [HasLongVerdict]
  cases hobject : objectOf py reply with
  | none => simp [(voteOf_noObject hobject).2]
  | some payload =>
    rw [voteOf_object hobject]
    rcases @objectVote_cases py payload with ⟨h, -, hlen⟩ | ⟨h, -, hlen⟩ | ⟨h, h', hvote⟩
    · simp [h, hlen]
    · simp [h, hlen]
    · have hprefix : "unknown_verdict: ".length = 17 := rfl
      simp only [hvote, String.length_append, hprefix, maxReason, Option.some.injEq,
        exists_eq_left', h, h', ne_eq, not_false_eq_true, true_and, not_lt]
      omega

/-! ### The panel -/

namespace Panel

variable {σ : Type} {p : Panel σ}

theorem castVotes_eq (slots : List ℕ) (st : σ) :
    p.castVotes py slots st = (p.repliesFrom slots st).map (voteOf py) := by
  induction slots generalizing st with
  | nil => rfl
  | cons slot slots ih => rw [castVotes, repliesFrom, List.map_cons, ih]

theorem length_repliesFrom (slots : List ℕ) (st : σ) :
    (p.repliesFrom slots st).length = slots.length := by
  induction slots generalizing st with
  | nil => rfl
  | cons slot slots ih => rw [repliesFrom, List.length_cons, List.length_cons, ih]

/-- **Every vote is made of its own reply.** -/
theorem votes_eq : p.votes py = p.replies.map (voteOf py) := castVotes_eq ..

theorem length_replies : p.replies.length = p.verifier.parallelCount := by
  rw [replies, length_repliesFrom, List.length_range]

end Panel

/-- Without a dispatcher every slot is rejected, within the schema. -/
theorem llmVerifierHandler_unregistered {σ : Type} (p : Panel σ) {vote : VerifierVote}
    (h : vote ∈ llmVerifierHandler py false p) :
    vote.verdict = .rejected ∧ conformsToVoteSchema vote.toValue = true := by
  rw [llmVerifierHandler, if_neg (by decide)] at h
  obtain rfl := List.eq_of_mem_replicate h
  exact ⟨rfl, (conformsToVoteSchema_iff _).2 (by decide)⟩

/-- The panel fails closed: as many votes as slots, each within the schema, each by its own reply
and passed exactly on a passing one, so that a majority of passes is one of passing replies. -/
structure PanelFailsClosed {σ : Type} (py : PanelRuntime) (p : Panel σ) : Prop where
  count : (llmVerifierHandler py true p).length = p.verifier.parallelCount
  conforms : ∀ vote ∈ llmVerifierHandler py true p, conformsToVoteSchema vote.toValue = true
  slotwise : ∀ {τ : Type} (other : Panel τ) (i : ℕ), other.replies[i]? = p.replies[i]? →
    (llmVerifierHandler py true other)[i]? = (llmVerifierHandler py true p)[i]?
  passed_iff : List.Forall₂ (fun reply vote => vote.verdict = .passed ↔ Passing py reply) p.replies
    (llmVerifierHandler py true p)
  majority : (llmVerifierHandler py true p).countP (fun vote => vote.verdict = .passed) =
    p.replies.countP (fun reply => Passing py reply)

/-- **The verifier panel fails closed.** -/
theorem panelFailsClosed_iff {σ : Type} (py : PanelRuntime) (p : Panel σ) :
    PanelFailsClosed py p ↔ ∀ reply ∈ p.replies, ¬ HasLongVerdict py reply := by
  have hvotes {τ : Type} (other : Panel τ) :
      llmVerifierHandler py true other = other.replies.map (voteOf py) := Panel.votes_eq
  constructor
  · intro h reply hreply
    have hmem : voteOf py reply ∈ llmVerifierHandler py true p := by
      rw [hvotes]
      exact List.mem_map_of_mem hreply
    exact voteOf_conforms_iff.1 ((conformsToVoteSchema_iff _).1 (h.conforms _ hmem))
  · intro h
    refine ⟨?_, ?_, ?_, ?_, ?_⟩
    · rw [hvotes, List.length_map, Panel.length_replies]
    · rw [hvotes]
      intro vote hvote
      obtain ⟨reply, hreply, rfl⟩ := List.mem_map.1 hvote
      exact (conformsToVoteSchema_iff _).2 (voteOf_conforms_iff.2 (h reply hreply))
    · intro τ other i hi
      rw [hvotes, hvotes, List.getElem?_map, List.getElem?_map, hi]
    · rw [hvotes, List.forall₂_map_right_iff, List.forall₂_same]
      exact fun reply _ => voteOf_passed_iff
    · rw [hvotes, List.countP_map]
      refine List.countP_congr ?_
      intro reply _
      rw [Function.comp_apply, decide_eq_true_iff, decide_eq_true_iff]
      exact voteOf_passed_iff

/-- A runtime that reads one answer, and prints a text between quotes. -/
def PanelRuntime.reading (answer : String) (payload : Dict) : PanelRuntime where
  rt := Runtime.ascii
  loads raw :=
    if raw = answer then .ok (.dict payload)
    else .error ⟨"Expecting value", 1, 1, 0, by decide, by decide, by decide, by decide⟩
  repr v := "'" ++ Runtime.ascii.str v ++ "'"

/-- A text of `n` letters. -/
def longWord (n : ℕ) : String := String.ofList (List.replicate n 'a')

/-- The JSON text of an object whose verdict is a long word. -/
def longAnswer (n : ℕ) : String := "\x7b\"verdict\": \"" ++ longWord n ++ "\"\x7d"

/-- A panel of three whose dispatcher always gives one answer. -/
def Panel.answering (answer : String) : Panel Unit where
  dispatcher _ _ st := (.answered answer, st)
  start := ()
  render template _ _ := template
  verifier := ⟨"verify-tree-descender", "vote", 3⟩
  brief := ⟨"tree-descender", "1", .none⟩
  outputs := []

theorem length_longWord (n : ℕ) : (longWord n).length = n := by
  rw [longWord, String.length_ofList, List.length_replicate]

theorem longWord_ne {n : ℕ} {s : String} (h : s.length ≠ n) : Value.str (longWord n) ≠ .str s := by
  intro heq
  rw [← Value.str.inj heq, length_longWord] at h
  exact h rfl

/-- **A long unknown verdict makes a vote that its schema refuses.** -/
theorem long_verdict_breaks_schema :
    ¬ PanelFailsClosed (.reading (longAnswer 300) [("verdict", .str (longWord 300))])
      (.answering (longAnswer 300)) := by
  intro h
  have hlong : HasLongVerdict (.reading (longAnswer 300) [("verdict", .str (longWord 300))])
      (.answered (longAnswer 300)) := by
    refine ⟨[("verdict", .str (longWord 300))], ?_, longWord_ne (by decide),
      longWord_ne (by decide), ?_⟩
    · simp [objectOf, PanelRuntime.reading, Except.toOption, Value.asDict?]
    · -- the two quotes are printed as well
      have hprint : ("'" ++ longWord 300 ++ "'").length = 302 := by
        rw [String.length_append, String.length_append, length_longWord]
        rfl
      exact lt_of_lt_of_eq (by decide) hprint.symm
  exact voteOf_conforms_iff.1 ((conformsToVoteSchema_iff _).1 (h.conforms _ (.head _))) hlong

end CodeReview
