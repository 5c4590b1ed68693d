import CodeReview.Dispatch.Rank
import CodeReview.Dispatch.Response
import CodeReview.Dispatch.Specialist
import CodeReview.Dispatch.Usage
import CodeReview.Lib.Agree

/-!
# The dispatch functions

`make_dispatchers` closes over a repository, its wiki and a backend.  A dispatch builds a prompt,
calls the backend, parses the response and stamps the output with the cost of the call; a worker's
leaves are then completed, and a specialist's nulls dropped.

* `undisturbed_iff` : **a usage value changes nothing of a dispatch but its stamp, exactly when
  every number of it can be converted or the dispatch raises before it stamps.**
-/

namespace CodeReview

open Py TwoRuns

/-- A backend: what it returns for a prompt and a tier, or raises. -/
abbrev AgentRun := String → String → Except DispatchError Returned

/-- What the dispatch functions are closed over, but for the backend. -/
structure Setup where
  rt : Runtime
  json : JsonLoads
  /-- `_load_prompt`. -/
  loadPrompt : String → String
  disk : Disk
  wiki : List String
  base : String
  head : String

/-- `_ROLE_BY_STATE`. -/
def roleByState : List (String × String) :=
  [("scan_project", "project-scanner"), ("tree_descend", "tree-descender"),
    ("llm_trim", "trim-candidates"), ("tool_discovery", "tool-runner"),
    ("rank_findings", "finding-ranker")]

/-- `_OUTPUT_RULE`. -/
def outputRule : String :=
  "\n\n## OUTPUT CONTRACT\nReturn ONLY a single raw JSON object matching this " ++
  "worker's response schema as your final message — no prose, no markdown " ++
  "fences, no file writes.\n"

/-- An exception that the dispatch functions do not know. -/
def raised {α : Type} (x : Result α) : Except DispatchError α := x.mapError .other

/-! ### The ranker -/

/-- `v[:n]`. -/
def sliceTo (n : ℕ) : Value → Result Value
  | .str s => .ok (.str (String.ofList (s.toList.take n)))
  | .list vs => .ok (.list (vs.take n))
  | .dict _ => .error .keyError
  | _ => .error .typeError

/-- `inputs.get("findings") or []`, as the ranker needs them: the entries have a `get`. -/
def rankFindings (inputs : Dict) : Result (List Dict) := do
  let items ← ((inputs.get "findings").or (.list [])).iter
  items.mapM fun item => item.asDict?.elim (.error .attributeError) .ok

/-- A finding as the ranker is shown it. -/
def indexedFinding (f : Dict) (i : ℕ) : Result Value := do
  let description ← sliceTo 240 ((f.get "description").or (.str ""))
  return .dict [("i", .int i), ("severity", f.get "severity"), ("file", f.get "file"),
    ("line", f.get "line"), ("title", f.get "title"), ("description", description),
    ("flagged_by", (f.get "flagged_by").or (.list [])), ("corroboration", f.get "corroboration")]

/-- The prompt of the ranker. -/
def rankPrompt (rt : Runtime) (role : String) (inputs : Dict) (findings : List Dict) :
    Result String := do
  let indexed ← findings.zipIdx.mapM fun fi => indexedFinding fi.1 fi.2
  let shown := Value.dict [("findings", .list indexed),
    ("changed_paths", (inputs.get "changed_paths").or (.list [])),
    ("args", (inputs.get "args").or (.dict []))]
  return role ++ "\n\n## RUN INPUTS\n```json\n" ++
    String.ofList ((Json.dumps rt shown).take workerInputCap) ++
    "\n```\n\n## OUTPUT CONTRACT\nReturn ONLY \x7b\"decisions\":[...]\x7d as " ++
    "described above — no prose, no markdown fences, no file writes.\n"

/-- `inputs.get("args") or {}`, which must have a `get`. -/
def rankArgs (inputs : Dict) : Result Dict :=
  ((inputs.get "args").or (.dict [])).asDict?.elim (.error .attributeError) .ok

/-! ### The workers -/

/-- The leaves under a key of the output, completed from the leaves of the inputs. -/
def rehydrateKey (key : String) (source : Value) (out : Dict) : Result Dict :=
  match (out.get key).asList? with
  | some picked => do
    let leaves ← rehydrate (.list picked) (indexById source)
    return Assoc.set out key (.list (leaves.map .dict))
  | none => .ok out

/-- What a worker's output is completed to. -/
def completeOutput (stateId : String) (inputs out : Dict) : Result Dict :=
  if stateId = "tree_descend" then
    rehydrateKey "stage_a_candidates" (inputs.get "activated_leaves") out
  else if stateId = "llm_trim" then
    rehydrateKey "picked_leaves" (inputs.get "stage_a_candidates") out
  else .ok out

variable (s : Setup) (run : AgentRun) (wallMs : ℤ)

/-- `dispatch_worker`. -/
def dispatchWorker (stateId : String) (inputs : Dict) : Except DispatchError Dict :=
  if stateId = "rank_findings" then do
    let findings ← raised (rankFindings inputs)
    let prompt ← raised (rankPrompt s.rt (s.loadPrompt "finding-ranker") inputs findings)
    let returned ← run prompt "cheap"
    let (text, usage) := callBackend returned
    let parsed ← parseJson s.rt s.json text
    let args ← raised (rankArgs inputs)
    let ranked ← raised (applyRankDecisions s.rt findings (parsed.get "decisions") args)
    let out := Assoc.set ranked.toDict "wall_ms" (.int wallMs)
    raised (stampCost out "cheap" usage prompt text)
  else do
    let role ← raised ((Assoc.get? roleByState stateId).elim (.error .keyError) .ok)
    let prompt := workerPrompt s.rt (s.loadPrompt role) s.base s.head outputRule inputs
    let returned ← run prompt "cheap"
    let (text, usage) := callBackend returned
    let out ← parseJson s.rt s.json text
    let out := Assoc.set out "wall_ms" (.int wallMs)
    let out ← raised (stampCost out "cheap" usage prompt text)
    raised (completeOutput stateId inputs out)

/-! ### The specialists -/

mutual

/-- `_strip_nulls`. -/
def stripNulls : Value → Value
  | .dict kvs => .dict (stripEntries kvs)
  | .list vs => .list (stripList vs)
  | v => v

/-- The entries with a value, stripped. -/
def stripEntries : List (String × Value) → List (String × Value)
  | [] => []
  | (k, v) :: kvs => if v.isNone then stripEntries kvs else (k, stripNulls v) :: stripEntries kvs

/-- The elements, stripped. -/
def stripList : List Value → List Value
  | [] => []
  | v :: vs => stripNulls v :: stripList vs

end

/-- One entry of `picked`. -/
def pickedEntry : Value → Result (Value × Dict)
  | .dict lf =>
    let id := Dict.get lf "id"
    if id.hashable then .ok (id, lf) else .error .typeError
  | _ => .error .attributeError

/-- The leaf of a specialist: the last picked leaf with its id. -/
def pickedLeaf (shared : Dict) (leafId : String) : Result Dict := do
  let leaves ← ((shared.get "picked_leaves").or (.list [])).iter
  let picked ← leaves.mapM pickedEntry
  return ((picked.reverse.find? fun lf => lf.1.eqv (.str leafId)).map Prod.snd).getD []

/-- `name in dims`, for `dims = dimensions or []`. -/
def hasDimension (name : String) (dimensions : Value) : Result Bool :=
  match dimensions.or (.list []) with
  | .list dims => .ok (dims.any fun d => d.eqv (.str name))
  | .dict dims => .ok (Dict.has dims name)
  | .str dims => .ok (Text.contains dims name)
  | _ => .error .typeError

/-- The ids of `_route_tier` that start so are routed to the strong tier. -/
def strongPrefixes : List String :=
  ["sec-", "lang-", "fw-", "orm-", "footgun-", "reliability-", "data-"]

/-- `_route_tier`. -/
def routeTier (leafId : String) (dimensions : Value) : Result String := do
  let security ← hasDimension "security" dimensions
  let correctness ← if security then pure true else hasDimension "correctness" dimensions
  if correctness || strongPrefixes.any (Text.startsWith leafId) ||
      leafId = "principle-fail-fast" then
    return "strong"
  else return "cheap"

/-- `dispatch_specialist`. -/
def dispatchSpecialist (u : PlanUnit) (shared : Dict) : Except DispatchError Dict := do
  let leaf ← raised (pickedLeaf shared u.leafId)
  let read ← raised (leafRead s.disk s.wiki (leaf.get "path"))
  let prompt := specialistPrompt s.rt (s.loadPrompt "specialist") s.base s.head outputRule u.leafId
    (read.elim "" Prod.snd) (ofStrs u.files) ((shared.get "project_profile").or (.dict []))
  let tier ← raised (routeTier u.leafId (leaf.get "dimensions"))
  let returned ← run prompt tier
  let (text, usage) := callBackend returned
  let out ← parseJson s.rt s.json text
  let out := Assoc.set out "wall_ms" (.int wallMs)
  let out ← raised (stampCost out tier usage prompt text)
  return stripEntries (Assoc.setdefault out "id" (.str u.leafId))

/-! ### A dispatch, cut at the stamp -/

/-- What one dispatch is asked for. -/
inductive Request where
  | worker (stateId : String) (inputs : Dict)
  | specialist (u : PlanUnit) (shared : Dict)

/-- The dispatch of a request. -/
def dispatch : Request → Except DispatchError Dict
  | .worker stateId inputs => dispatchWorker s run wallMs stateId inputs
  | .specialist u shared => dispatchSpecialist s run wallMs u shared

/-- A backend that answers with one text and one usage value; `none` is a bare string. -/
def answering (text : String) (usage : Option Value) : AgentRun := fun _ _ => .ok ⟨text, usage⟩

/-- A call that has been answered. -/
structure Call where
  prompt : String
  tier : String
  out : Dict

/-- A dispatch up to the stamp, for the text of the response. -/
def beforeStamp (text : String) : Request → Except DispatchError Call
  | .worker stateId inputs =>
    if stateId = "rank_findings" then do
      let findings ← raised (rankFindings inputs)
      let prompt ← raised (rankPrompt s.rt (s.loadPrompt "finding-ranker") inputs findings)
      let parsed ← parseJson s.rt s.json text
      let args ← raised (rankArgs inputs)
      let ranked ← raised (applyRankDecisions s.rt findings (parsed.get "decisions") args)
      return ⟨prompt, "cheap", ranked.toDict⟩
    else do
      let role ← raised ((Assoc.get? roleByState stateId).elim (.error .keyError) .ok)
      let out ← parseJson s.rt s.json text
      return ⟨workerPrompt s.rt (s.loadPrompt role) s.base s.head outputRule inputs, "cheap", out⟩
  | .specialist u shared => do
    let leaf ← raised (pickedLeaf shared u.leafId)
    let read ← raised (leafRead s.disk s.wiki (leaf.get "path"))
    let prompt := specialistPrompt s.rt (s.loadPrompt "specialist") s.base s.head outputRule
      u.leafId (read.elim "" Prod.snd) (ofStrs u.files)
      ((shared.get "project_profile").or (.dict []))
    let tier ← raised (routeTier u.leafId (leaf.get "dimensions"))
    let out ← parseJson s.rt s.json text
    return ⟨prompt, tier, out⟩

/-- What becomes of a stamped output. -/
def afterStamp : Request → Dict → Except DispatchError Dict
  | .worker stateId inputs, out =>
    if stateId = "rank_findings" then .ok out else raised (completeOutput stateId inputs out)
  | .specialist u _, out => .ok (stripEntries (Assoc.setdefault out "id" (.str u.leafId)))

/-- The call with its stamp. -/
def stampCall (c : Call) (text : String) (usage : Option Value) : Except DispatchError Dict :=
  raised (stampCost (Assoc.set c.out "wall_ms" (.int wallMs)) c.tier (usage.bind Value.asDict?)
    c.prompt text)

/-- **A dispatch stamps the answered call and completes it.** -/
theorem dispatch_answering (text : String) (usage : Option Value) (req : Request) :
    dispatch s (answering text usage) wallMs req =
      beforeStamp s text req >>= fun c => stampCall wallMs c text usage >>= afterStamp req := by
  cases req with
  | worker stateId inputs =>
    by_cases hrank : stateId = "rank_findings"
    · have hafter : afterStamp (.worker stateId inputs) = pure := by
        funext out
        exact if_pos hrank
      rw [hafter]
      simp only [dispatch, dispatchWorker, beforeStamp, answering, callBackend, stampCall, hrank,
        if_true, Result.ok_bind, bind_assoc, pure_bind, bind_pure]
    · have hafter : afterStamp (.worker stateId inputs) = fun out =>
          raised (completeOutput stateId inputs out) := by
        funext out
        exact if_neg hrank
      rw [hafter]
      simp only [dispatch, dispatchWorker, beforeStamp, answering, callBackend, stampCall, hrank,
        if_false, Result.ok_bind, bind_assoc, pure_bind]
  | specialist u shared =>
    simp only [dispatch, dispatchSpecialist, beforeStamp, answering, callBackend, stampCall,
      bind_assoc, Result.ok_bind, pure_bind]
    rfl

/-! ### What the stamp leaves alone -/

/-- `wall_ms`, and the keys of the cost stamp. -/
def telemetryKeys : List String :=
  ["wall_ms", "tier", "tokens_in", "tokens_out", "cache_create", "cache_read", "cost_usd",
    "est_cost"]

/-- The outputs differ in their telemetry only. -/
def SameReview (d d' : Dict) : Prop := ∀ k ∉ telemetryKeys, Assoc.get? d k = Assoc.get? d' k

variable {s wallMs}

theorem get_of_sameReview {d d' : Dict} (h : SameReview d d') {k : String}
    (hk : k ∉ telemetryKeys) : d.get k = d'.get k := by rw [Dict.get, Dict.get, h k hk]

theorem SameReview.set {d d' : Dict} (h : SameReview d d') (k : String) (v : Value) :
    SameReview (Assoc.set d k v) (Assoc.set d' k v) := by
  intro k' hk'
  rw [Assoc.get?_set, Assoc.get?_set, h k' hk']

theorem SameReview.setdefault {d d' : Dict} (h : SameReview d d') {k : String}
    (hk : k ∉ telemetryKeys) (v : Value) :
    SameReview (Assoc.setdefault d k v) (Assoc.setdefault d' k v) := by
  intro k' hk'
  rw [Assoc.get?_setdefault, Assoc.get?_setdefault, h k' hk', h k hk]

theorem get?_stripEntries {d : Dict} (h : (d.map Prod.fst).Nodup) (k : String) :
    Assoc.get? (stripEntries d) k =
      ((Assoc.get? d k).filter fun v => !v.isNone).map stripNulls := by
  induction d with
  | nil => rfl
  | cons kv d ih =>
    obtain ⟨k', v⟩ := kv
    rw [List.map_cons, List.nodup_cons] at h
    rw [stripEntries, Assoc.get?_cons]
    by_cases hk : k' = k
    · subst hk
      have hnone : Assoc.get? d k' = none := Assoc.get?_eq_none_iff.2 h.1
      cases hv : v.isNone with
      | false => simp [hv, Assoc.get?_cons]
      | true => simp [hv, ih h.2, hnone]
    · cases hv : v.isNone with
      | false => simp [hk, Assoc.get?_cons, ih h.2]
      | true => simp [hk, ih h.2]

theorem SameReview.stripEntries {d d' : Dict} (h : SameReview d d') (hd : (d.map Prod.fst).Nodup)
    (hd' : (d'.map Prod.fst).Nodup) :
    SameReview (CodeReview.stripEntries d) (CodeReview.stripEntries d') := by
  intro k hk
  rw [get?_stripEntries hd, get?_stripEntries hd', h k hk]

theorem rehydrateKey_agree {d d' : Dict} (h : SameReview d d') {key : String}
    (hkey : key ∉ telemetryKeys) (source : Value) :
    Agree SameReview (raised (rehydrateKey key source d))
      (raised (rehydrateKey key source d')) := by
  rw [rehydrateKey, rehydrateKey, ← get_of_sameReview h hkey]
  cases (d.get key).asList? with
  | none => exact .ok h
  | some picked =>
    simp only []
    cases rehydrate (.list picked) (indexById source) with
    | error e => exact .error _
    | ok leaves => exact .ok (h.set key _)

/-- **What becomes of an output does not depend on its telemetry.** -/
theorem afterStamp_agree {d d' : Dict} (h : SameReview d d') (hd : (d.map Prod.fst).Nodup)
    (hd' : (d'.map Prod.fst).Nodup) (req : Request) :
    Agree SameReview (afterStamp req d) (afterStamp req d') := by
  cases req with
  | worker stateId inputs =>
    simp only [afterStamp, completeOutput]
    split_ifs
    · exact .ok h
    · exact rehydrateKey_agree h (by decide) _
    · exact rehydrateKey_agree h (by decide) _
    · exact .ok h
  | specialist u shared =>
    exact .ok ((h.setdefault (by decide) _).stripEntries (Assoc.nodup_keys_setdefault hd _ _)
      (Assoc.nodup_keys_setdefault hd' _ _))

theorem rehydrateLeaf_error {source : OrdMap String Dict} {p : Dict} {e : Exc}
    (h : rehydrateLeaf source p = .error e) : e = .typeError := by
  rcases Result.bind_eq_error.1 h with hsource | ⟨full, -, hleaf⟩
  · unfold sourceLeaf at hsource
    split_ifs at hsource
    exact (Except.error.inj hsource).symm
  · rcases full with _ | _ | _ <;> cases hleaf

/-- Completing an output raises only on an id that is no key. -/
theorem rehydrateKey_error {key : String} {source : Value} {out : Dict} {e : Exc}
    (h : rehydrateKey key source out = .error e) : e = .typeError := by
  unfold rehydrateKey at h
  cases hget : (out.get key).asList? with
  | none =>
    rw [hget] at h
    cases h
  | some picked =>
    rw [hget] at h
    rcases Result.bind_eq_error.1 h with h | ⟨leaves, -, h⟩
    · obtain ⟨p, -, hp⟩ := Result.exists_of_mapM_error h
      exact rehydrateLeaf_error hp
    · cases h

theorem raised_eq_error {α : Type} {x : Result α} {e : DispatchError} (h : raised x = .error e) :
    ∃ exc, x = .error exc ∧ e = .other exc := by
  cases x with
  | ok a => cases h
  | error exc => exact ⟨exc, rfl, (Except.error.inj h).symm⟩

theorem afterStamp_error {req : Request} {out : Dict} {e : DispatchError}
    (h : afterStamp req out = .error e) : e = .other .typeError := by
  cases req with
  | worker stateId inputs =>
    simp only [afterStamp, completeOutput] at h
    split_ifs at h
    · obtain ⟨exc, hexc, rfl⟩ := raised_eq_error h
      rw [rehydrateKey_error hexc]
    · obtain ⟨exc, hexc, rfl⟩ := raised_eq_error h
      rw [rehydrateKey_error hexc]
    · cases h
  | specialist u shared => cases h

/-! ### The stamp -/

/-- The usage value has no number that cannot be converted. -/
def UsageValueReadable (usage : Option Value) : Prop :=
  ∀ d : Dict, usage = some (.dict d) → UsageReadable d

/-- An answered call has no key twice. -/
theorem nodup_of_beforeStamp {text : String} {req : Request} {c : Call}
    (h : beforeStamp s text req = .ok c) : (c.out.map Prod.fst).Nodup := by
  cases req with
  | worker stateId inputs =>
    simp only [beforeStamp] at h
    split_ifs at h
    · obtain ⟨findings, -, h⟩ := Result.bind_eq_ok.1 h
      obtain ⟨prompt, -, h⟩ := Result.bind_eq_ok.1 h
      obtain ⟨parsed, -, h⟩ := Result.bind_eq_ok.1 h
      obtain ⟨args, -, h⟩ := Result.bind_eq_ok.1 h
      obtain ⟨ranked, -, h⟩ := Result.bind_eq_ok.1 h
      obtain rfl := Except.ok.inj h
      exact show ["findings", "severity_counts"].Nodup by decide
    · obtain ⟨role, -, h⟩ := Result.bind_eq_ok.1 h
      obtain ⟨out, hout, h⟩ := Result.bind_eq_ok.1 h
      obtain rfl := Except.ok.inj h
      exact nodup_of_parseJson hout
  | specialist u shared =>
    obtain ⟨leaf, -, h⟩ := Result.bind_eq_ok.1 h
    obtain ⟨read, -, h⟩ := Result.bind_eq_ok.1 h
    obtain ⟨tier, -, h⟩ := Result.bind_eq_ok.1 h
    obtain ⟨out, hout, h⟩ := Result.bind_eq_ok.1 h
    obtain rfl := Except.ok.inj h
    exact nodup_of_parseJson hout

theorem raised_eq_ok {α : Type} {x : Result α} {a : α} : raised x = .ok a ↔ x = .ok a := by
  cases x <;> simp [raised, Except.mapError]

theorem stampCall_ok_iff {c : Call} {text : String} {usage : Option Value} :
    Result.Ok (stampCall wallMs c text usage) ↔ UsageValueReadable usage := by
  have hstamp : Result.Ok (stampCall wallMs c text usage) ↔
      Result.Ok (callCostFields c.tier (usage.bind Value.asDict?) c.prompt text) := by
    simp only [Result.Ok, stampCall, raised_eq_ok, stampCost, Result.bind_eq_ok, Result.pure_eq_ok]
    constructor
    · rintro ⟨d, fields, hfields, -⟩
      exact ⟨fields, hfields⟩
    · rintro ⟨fields, hfields⟩
      exact ⟨_, fields, hfields, rfl⟩
  rw [hstamp, UsageValueReadable]
  cases hdict : usage.bind Value.asDict? with
  | none =>
    refine iff_of_true (callCostFields_none ..) ?_
    rintro d rfl
    cases hdict
  | some d =>
    obtain ⟨v, rfl, hv⟩ := Option.bind_eq_some_iff.1 hdict
    obtain rfl : v = .dict d := by cases v <;> simp_all [Value.asDict?]
    rw [callCostFields_ok_iff]
    simp

theorem stampCall_error {c : Call} {text : String} {usage : Option Value} {e : DispatchError}
    (h : stampCall wallMs c text usage = .error e) :
    ∃ exc, e = .other exc ∧ IsConversionError exc := by
  obtain ⟨exc, hexc, rfl⟩ := raised_eq_error h
  rcases Result.bind_eq_error.1 hexc with hfields | ⟨fields, -, hfields⟩
  · exact ⟨exc, rfl, onlyConversions_callCostFields _ _ _ _ exc hfields⟩
  · cases hfields

/-- **A stamp changes the telemetry only.** -/
theorem stampCall_spec {c : Call} {text : String} {usage : Option Value} {d : Dict}
    (h : stampCall wallMs c text usage = .ok d) :
    SameReview c.out d ∧ ((c.out.map Prod.fst).Nodup → (d.map Prod.fst).Nodup) := by
  obtain ⟨fields, -, hfields⟩ := Result.bind_eq_ok.1 (raised_eq_ok.1 h)
  obtain rfl := Except.ok.inj hfields
  refine ⟨fun k hk => ?_, fun hout => ?_⟩
  · have hstamp : ∀ k' ∈ fields.toDict.map Prod.fst, k' ∈ telemetryKeys := by
      simp [CostFields.toDict, telemetryKeys]
    rw [Assoc.get?_update_of_notMem _ _ fun hmem => hk (hstamp k hmem), Assoc.get?_set, if_neg]
    rintro rfl
    exact hk (by decide)
  · exact Assoc.nodup_keys_update (Assoc.nodup_keys_set hout _ _) _

/-! ### Usage and outcome -/

theorem SameReview.symm {d d' : Dict} (h : SameReview d d') : SameReview d' d :=
  fun k hk => (h k hk).symm

theorem SameReview.trans {d d' d'' : Dict} (h : SameReview d d') (h' : SameReview d' d'') :
    SameReview d d'' := fun k hk => (h k hk).trans (h' k hk)

theorem usageValueReadable_none : UsageValueReadable none := fun _ h => nomatch h

/-- What two stamps of one call have in common. -/
def StampedAlike (d d' : Dict) : Prop :=
  SameReview d d' ∧ (d.map Prod.fst).Nodup ∧ (d'.map Prod.fst).Nodup

theorem stampCall_agree {c : Call} (hnodup : (c.out.map Prod.fst).Nodup) {text : String}
    {usage : Option Value} {wallMs' : ℤ} (h : UsageValueReadable usage) :
    Agree StampedAlike (stampCall wallMs c text usage) (stampCall wallMs' c text none) := by
  obtain ⟨d, hd⟩ : Result.Ok (stampCall wallMs c text usage) := stampCall_ok_iff.2 h
  obtain ⟨d', hd'⟩ : Result.Ok (stampCall wallMs' c text none) :=
    stampCall_ok_iff.2 usageValueReadable_none
  obtain ⟨hsame, hkeys⟩ := stampCall_spec hd
  obtain ⟨hsame', hkeys'⟩ := stampCall_spec hd'
  rw [hd, hd', Agree.ok_iff]
  exact ⟨hsame.symm.trans hsame', hkeys hnodup, hkeys' hnodup⟩

/-- A call that can be stamped comes to the same as without a usage value. -/
theorem dispatch_agree {req : Request} {text : String} {usage : Option Value} {wallMs' : ℤ}
    (h : ¬ Result.Ok (beforeStamp s text req) ∨ UsageValueReadable usage) :
    Agree SameReview (dispatch s (answering text usage) wallMs req)
      (dispatch s (answering text none) wallMs' req) := by
  rw [dispatch_answering, dispatch_answering]
  cases hcall : beforeStamp s text req with
  | error e => exact .error e
  | ok c =>
    have hread := h.resolve_left fun hbefore => hbefore ⟨c, hcall⟩
    exact (stampCall_agree (nodup_of_beforeStamp hcall) hread).bind
      fun d d' halike => afterStamp_agree halike.1 halike.2.1 halike.2.2 req

/-- A stamp that cannot be built raises what a bare return never raises. -/
theorem readable_of_agree {req : Request} {text : String} {usage : Option Value} {wallMs' : ℤ}
    (hcall : Result.Ok (beforeStamp s text req))
    (h : Agree SameReview (dispatch s (answering text usage) wallMs req)
      (dispatch s (answering text none) wallMs' req)) : UsageValueReadable usage := by
  obtain ⟨c, hc⟩ := hcall
  rw [dispatch_answering, dispatch_answering, hc, Result.ok_bind, Result.ok_bind] at h
  by_contra hread
  cases hstamp : stampCall wallMs c text usage with
  | ok d => exact hread (stampCall_ok_iff.1 ⟨d, hstamp⟩)
  | error e =>
    obtain ⟨exc, rfl, hexc⟩ := stampCall_error hstamp
    obtain ⟨d, hd⟩ : Result.Ok (stampCall wallMs' c text none) :=
      stampCall_ok_iff.2 usageValueReadable_none
    rw [hstamp, hd, Result.error_bind, Agree.error_iff] at h
    -- completing the output raises a `TypeError` at most
    obtain rfl := DispatchError.other.inj (afterStamp_error h)
    rcases hexc with hexc | hexc <;> cases hexc

/-- **Cost capture affects a review only through a number that cannot be converted.** -/
theorem undisturbed_iff (s : Setup) (req : Request) (text : String) (usage₁ usage₂ : Option Value)
    (wallMs₁ wallMs₂ wallMs : ℤ) :
    (Agree SameReview (dispatch s (answering text usage₁) wallMs₁ req)
        (dispatch s (answering text usage₂) wallMs₂ req) ∧
      Agree SameReview (dispatch s (answering text usage₁) wallMs₁ req)
        (dispatch s (answering text none) wallMs req) ∧
      Agree SameReview (dispatch s (answering text usage₂) wallMs₂ req)
        (dispatch s (answering text none) wallMs req)) ↔
      ¬ Result.Ok (beforeStamp s text req) ∨
        UsageValueReadable usage₁ ∧ UsageValueReadable usage₂ := by
  constructor
  · rintro ⟨-, h₁, h₂⟩
    by_cases hcall : Result.Ok (beforeStamp s text req)
    · exact .inr ⟨readable_of_agree hcall h₁, readable_of_agree hcall h₂⟩
    · exact .inl hcall
  · intro h
    have h₁ (w : ℤ) : Agree SameReview (dispatch s (answering text usage₁) wallMs₁ req)
        (dispatch s (answering text none) w req) := dispatch_agree (h.imp_right And.left)
    have h₂ (w : ℤ) : Agree SameReview (dispatch s (answering text usage₂) wallMs₂ req)
        (dispatch s (answering text none) w req) := dispatch_agree (h.imp_right And.right)
    -- the two runs meet in the bare return
    have h₂' := Agree.symm (R := SameReview) SameReview.symm (h₂ wallMs)
    exact ⟨Agree.trans (R := SameReview) SameReview.trans (h₁ wallMs) h₂', h₁ _, h₂ _⟩

/-- A setup without files, whose responses all load as an empty object. -/
def bareSetup : Setup where
  rt := .ascii
  json := ⟨fun _ => some (.dict []), by rintro _ _ ⟨⟩; exact List.nodup_nil⟩
  loadPrompt _ := ""
  disk := ⟨[([], .dir)], rfl, by decide, by decide⟩
  wiki := []
  base := "base"
  head := "head"

/-- A usage block whose count is infinite. -/
def infiniteUsage : Value := .dict [("in_tokens", .float .inf)]

/-- The request of one unit. -/
def oneUnit : Request := .specialist ⟨"quality", 0, 1, []⟩ []

/-- **An infinite count ends the dispatch.** -/
theorem infinite_count_raises :
    dispatch bareSetup (answering "ok" (some infiniteUsage)) 0 oneUnit =
        .error (.other .overflowError) ∧
      (∃ out, dispatch bareSetup (answering "ok" none) 0 oneUnit = .ok out) ∧
      ¬ Agree SameReview (dispatch bareSetup (answering "ok" (some infiniteUsage)) 0 oneUnit)
        (dispatch bareSetup (answering "ok" none) 0 oneUnit) := by
  obtain ⟨c, hc⟩ : ∃ c, beforeStamp bareSetup "ok" oneUnit = .ok c := ⟨_, rfl⟩
  obtain ⟨d, hd⟩ : Result.Ok (stampCall 0 c "ok" none) := stampCall_ok_iff.2 usageValueReadable_none
  have hinf : dispatch bareSetup (answering "ok" (some infiniteUsage)) 0 oneUnit =
      .error (.other .overflowError) := by
    rw [dispatch_answering, hc]
    rfl
  obtain ⟨out, hout⟩ : ∃ out, dispatch bareSetup (answering "ok" none) 0 oneUnit = .ok out := by
    rw [dispatch_answering, hc, Result.ok_bind, hd]
    exact ⟨_, rfl⟩
  refine ⟨hinf, ⟨out, hout⟩, ?_⟩
  rw [hinf, hout, Agree.error_iff]
  exact fun h => nomatch h

end CodeReview
