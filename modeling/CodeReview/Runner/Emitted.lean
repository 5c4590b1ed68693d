import CodeReview.Handlers.Emit
import CodeReview.Runner.Reported

/-!
# What a review leaves behind

The last two handlers of a review work on files: one writes the report, the other reads it again and
prints it.

* `Handled` : the handlers that returned did to the files what those handlers do;
* `review_prints_report` : **a review that ends without a fault leaves one report, with the verdict
  that it returns, in the directory that it returns, touches no other file, and prints that report
  once, filtered as it was asked to**; a report that is not filtered is printed as it is read, with
  its line breaks folded.
-/

namespace CodeReview

open Py Proc

/-! ### The files along a review -/

/-- The handlers that returned, the files before and after them, and what they printed. -/
inductive Handled (rt : Runtime) (up : UpperCase) (host : Host) (runUuid : String) (isTty : Bool) :
    Files → List InlineCall → Files → List Emission → Prop
  | done (files : Files) : Handled rt up host runUuid isTty files [] files []
  | write {files files₁ files' : Files} {env outputs : Dict} {calls : List InlineCall}
      {printed : List Emission}
      (hwrite : handleWriteRunDirectory rt up host runUuid env files = (files₁, .ok outputs))
      (hrest : Handled rt up host runUuid isTty files₁ calls files' printed) :
      Handled rt up host runUuid isTty files ((.writeRunDirectory, env, outputs) :: calls) files'
        printed
  | emit {files files' : Files} {env : Dict} {emission : Emission} {calls : List InlineCall}
      {printed : List Emission}
      (hemit : handleEmitStdout rt up host isTty files env = .ok emission)
      (hrest : Handled rt up host runUuid isTty files calls files' printed) :
      Handled rt up host runUuid isTty files ((.emitStdout, env, []) :: calls) files'
        (emission :: printed)
  | other {files files' : Files} {state : StateId} {env outputs : Dict} {calls : List InlineCall}
      {printed : List Emission} (hstate : state ≠ .writeRunDirectory ∧ state ≠ .emitStdout)
      (hrest : Handled rt up host runUuid isTty files calls files' printed) :
      Handled rt up host runUuid isTty files ((state, env, outputs) :: calls) files' printed

section

variable {rt : Runtime} {up : UpperCase} {host : Host} {runUuid : String} {isTty : Bool}
  {files files' : Files} {calls : List InlineCall} {printed : List Emission}

/-- The path that the handler returns. -/
theorem handleWriteRunDirectory_ok {env outputs : Dict}
    (h : handleWriteRunDirectory rt up host runUuid env files = (files', .ok outputs)) :
    outputs = [("run_dir_path", .str (portable host (runDirOf host runUuid env)))] ∧
      writeRunArtefacts rt up host runUuid env files =
        (files', .ok (runDirOf host runUuid env)) := by
  rw [handleWriteRunDirectory] at h
  generalize hres : writeRunArtefacts rt up host runUuid env files = written at h
  obtain ⟨left, dir⟩ := written
  obtain ⟨rfl, hok⟩ := Prod.mk.inj h
  cases dir with
  | error exc => cases hok
  | ok dir =>
    obtain ⟨rfl, -⟩ := writeRunArtefacts_ok hres
    exact ⟨(Except.ok.inj hok).symm, rfl⟩

/-- What the calls return is what the last two handlers return. -/
theorem Handled.outputs (h : Handled rt up host runUuid isTty files calls files' printed)
    {state : StateId} {env outputs : Dict} (hmem : (state, env, outputs) ∈ calls) :
    PublishOutputs outputs state := by
  induction h with
  | done files => cases hmem
  | write hwrite hrest ih =>
    rcases List.mem_cons.1 hmem with heq | hmem
    · obtain ⟨rfl, rfl, rfl⟩ := Prod.mk.injEq .. ▸ heq
      exact ⟨_, (handleWriteRunDirectory_ok hwrite).1⟩
    · exact ih hmem
  | emit hemit hrest ih =>
    rcases List.mem_cons.1 hmem with heq | hmem
    · cases heq
      rfl
    · exact ih hmem
  | @other files files' state' env' outputs' calls printed hstate hrest ih =>
    rcases List.mem_cons.1 hmem with heq | hmem
    · cases heq
      cases state with
      | writeRunDirectory => exact absurd rfl hstate.1
      | emitStdout => exact absurd rfl hstate.2
      | _ => trivial
    · exact ih hmem

/-- Handlers of other states leave the files alone. -/
theorem handled_append_iff {before : List InlineCall}
    (hbefore : ∀ c ∈ before, (c : InlineCall).1 ≠ .writeRunDirectory ∧ c.1 ≠ .emitStdout) :
    Handled rt up host runUuid isTty files (before ++ calls) files' printed ↔
      Handled rt up host runUuid isTty files calls files' printed := by
  induction before with
  | nil => exact Iff.rfl
  | cons c before ih =>
    obtain ⟨hc, hrest⟩ := List.forall_mem_cons.1 hbefore
    rw [← ih hrest]
    constructor
    · intro h
      cases h with
      | write => exact absurd rfl hc.1
      | emit => exact absurd rfl hc.2
      | other _ h => exact h
    · exact .other hc

/-- One write and one emission. -/
theorem Handled.published {env env' outputs outputs' : Dict}
    (h : Handled rt up host runUuid isTty files
      [(.writeRunDirectory, env, outputs), (.emitStdout, env', outputs')] files' printed) :
    ∃ emission, printed = [emission] ∧
      handleWriteRunDirectory rt up host runUuid env files = (files', .ok outputs) ∧
      handleEmitStdout rt up host isTty files' env' = .ok emission := by
  cases h with
  | write hwrite h =>
    cases h with
    | emit hemit h =>
      cases h
      exact ⟨_, rfl, hwrite, hemit⟩
    | other hstate h => exact absurd rfl hstate.2
  | other hstate h => exact absurd rfl hstate.1

end

/-! ### The report of a review -/

/-- What the handlers of a run returned is what it recorded of them. -/
theorem mem_inlineCalls {trace : RunTrace} {state : StateId} {env outputs : Dict}
    (h : (⟨.inline state env, .ok outputs⟩ : Event RunEffect RunReply) ∈ trace) :
    (state, env, outputs) ∈ inlineCalls trace :=
  List.mem_filterMap.2 ⟨_, h, rfl⟩

/-- What a review leaves that wrote its report from `env` and returned `r`. -/
structure ReportLeft (rt : Runtime) (up : UpperCase) (host : Host) (runUuid : String) (isTty : Bool)
    (files files' : Files) (printed : List Emission) (env : Dict) (r : RunResult) : Prop where
  /-- The report has the verdict that is returned, one of the three. -/
  verdict : r.verdict = env.get "verdict" ∧ ∃ s ∈ validVerdicts, r.verdict = .str s
  findings : r.findings = env.getD "findings" (.list [])
  /-- The path that is returned leads to the directory of the run. -/
  runDirPath : ∃ path, r.runDirPath = .str path ∧
    Path.join host.cwd path = runDirOf host runUuid env
  /-- No other file is touched. -/
  frame : ∀ path, ¬ runDirOf host runUuid env <+: path →
    Assoc.get? files' path = Assoc.get? files path
  /-- The report is there, and it is printed once. -/
  report : ∃ payload text emitted, Written rt up host runUuid env files' payload text ∧
    printed = [emitted] ∧
    (Json.Readable rt (.dict payload) →
      Json.loads rt (Text.universalNewlines (renderReportJson rt payload)).toList =
        some (.dict payload)) ∧
    let args := ensureDict (env.get "args")
    let filters := requestedFilters rt args
    let fmt := resolveFormat rt args isTty
    (filters ≠ (none, none) → Json.Readable rt (.dict payload)) →
      ∃ body, printedBody rt up payload filters fmt = .ok body ∧
        emitted = emission host (portable host (runDirOf host runUuid env)) fmt (some body)
          (yamlNotice rt args)

variable {rt : Runtime} {up : UpperCase} {host : Host} {runUuid : String} {isTty : Bool}
  {files files' : Files} {printed : List Emission}

/-- The files after a write, and what an emission prints of them. -/
theorem report_left {env timings outputs : Dict} {path : String} {r : RunResult}
    (h : Handled rt up host runUuid isTty files
      [(.writeRunDirectory, env, [("run_dir_path", .str path)]),
        (.emitStdout, withTimings (Assoc.set env "run_dir_path" (.str path)) timings, outputs)]
      files' printed)
    (hreturned : ReturnsFrom (Assoc.set env "run_dir_path" (.str path)) r) :
    ReportLeft rt up host runUuid isTty files files' printed env r := by
  obtain ⟨emitted, rfl, hwrite, hemit⟩ := h.published
  obtain ⟨hpath, hfiles⟩ := handleWriteRunDirectory_ok hwrite
  obtain ⟨-, payload, text, hwritten⟩ := writeRunArtefacts_ok hfiles
  obtain rfl : path = portable host (runDirOf host runUuid env) :=
    Value.str.inj (Prod.mk.inj (List.singleton_inj.1 hpath)).2
  have hother (k : String) (hk : k ≠ "run_dir_path") :
      Dict.get (Assoc.set env "run_dir_path"
        (.str (portable host (runDirOf host runUuid env)))) k = env.get k := by
    rw [Dict.get_set, if_neg (Ne.symm hk)]
  have hverdict : r.verdict = env.get "verdict" := by
    rw [hreturned.verdict, hother "verdict" (by decide)]
  refine ⟨⟨hverdict, hverdict ▸ (buildReportPayload_ok_iff.1 ⟨payload, hwritten.built⟩).1⟩, ?_,
    ⟨_, ?_, join_portable (isParts_runDirOf host runUuid env)⟩, fun other hbelow => ?_,
    payload, text, emitted, hwritten, rfl, loads_renderReportJson, fun hreadable => ?_⟩
  · rw [hreturned.findings, Dict.getD, Assoc.get?_set, if_neg (by decide)]
    rfl
  · rw [hreturned.runDirPath, Dict.get_set, if_pos rfl]
  · have hframe := @writeRunArtefacts_frame rt up host runUuid env files other hbelow
    rwa [hfiles] at hframe
  · have hpath : Dict.get (withTimings (Assoc.set env "run_dir_path"
        (.str (portable host (runDirOf host runUuid env)))) timings) "run_dir_path" =
          .str (portable host (runDirOf host runUuid env)) := by
      rw [withTimings, Dict.get_set, if_neg (by decide), Dict.get_set, if_pos rfl]
    have hargs : Dict.get (withTimings (Assoc.set env "run_dir_path"
        (.str (portable host (runDirOf host runUuid env)))) timings) "args" = env.get "args" := by
      rw [withTimings, Dict.get_set, if_neg (by decide), hother "args" (by decide)]
    rw [emit_prints hfiles hwritten.built hpath (by rwa [hargs]), hargs] at hemit
    obtain ⟨body, hbody, hemit⟩ := Result.bind_eq_ok.1 hemit
    exact ⟨body, hbody, (Except.ok.inj hemit).symm⟩

/-- The last two calls of a review that ends without a fault. -/
theorem review_calls {retries : ℤ} {args : Dict} {trace : RunTrace} {r : RunResult}
    (h : Runs (runReview rt retries args) trace (.ok r)) (hlaw : ∀ ev ∈ trace, PublishLawful ev)
    (hfaulted : r.faulted = false) :
    ∃ before env path timings,
      (∀ c ∈ before, (c : InlineCall).1 ≠ .writeRunDirectory ∧ c.1 ≠ .emitStdout) ∧
      inlineCalls trace = before ++
        [(.writeRunDirectory, env, [("run_dir_path", .str path)]),
          (.emitStdout, withTimings (Assoc.set env "run_dir_path" (.str path)) timings, [])] ∧
      ReturnsFrom (Assoc.set env "run_dir_path" (.str path)) r := by
  obtain ⟨steps, hsteps, rfl⟩ := runs_review.1 h
  obtain ⟨before, state, env, outputs, path, timings, timings', hbefore, hstate, hcalls,
    hreturned⟩ := rounds_undecided hsteps (fun st hst ev hev =>
      hlaw ev (List.mem_flatMap.2 ⟨st, hst, hev⟩)) rfl rfl hfaulted
  have hkept (k : String) (hk : k ≠ "timings") :
      Assoc.get? (Assoc.set (Assoc.update env outputs) "run_dir_path" (.str path)) k =
        Assoc.get? (Assoc.set (withTimings (Assoc.update env outputs) timings) "run_dir_path"
          (.str path)) k := by
    rw [withTimings, Assoc.get?_set, Assoc.get?_set, Assoc.get?_set, if_neg (Ne.symm hk)]
  refine ⟨before ++ [(state, env, outputs)], withTimings (Assoc.update env outputs) timings, path,
    timings', fun c hc => ?_, ?_, hreturned.congr hkept⟩
  · have hstage : c.1.stage < 2 := by
      rcases List.mem_append.1 hc with hc | hc
      · rw [hbefore c hc]
        decide
      · rw [List.mem_singleton.1 hc, hstate]
        decide
    constructor <;>
    · intro heq
      exact absurd (heq ▸ hstage) (by decide)
  · rw [hcalls, List.append_assoc, List.singleton_append, publishing]

/-- Where nothing is filtered the report is printed as it is. -/
theorem emit_unfiltered {env env' : Dict} {path : String}
    (h : handleWriteRunDirectory rt up host runUuid env files =
      (files', .ok [("run_dir_path", .str path)]))
    (hpath : env'.get "run_dir_path" = .str path)
    (hargs : requestedFilters rt (ensureDict (env'.get "args")) = (none, none)) :
    Result.Ok (handleEmitStdout rt up host isTty files' env') := by
  obtain ⟨heq, hfiles⟩ := handleWriteRunDirectory_ok h
  obtain rfl := Value.str.inj (Prod.mk.inj (List.singleton_inj.1 heq)).2
  obtain ⟨-, payload, text, hwritten⟩ := writeRunArtefacts_ok hfiles
  rw [emit_prints hfiles hwritten.built hpath fun hne => absurd hargs hne]
  simp only [hargs, printedBody, applyScopeFilters_none, Result.ok_bind]
  cases resolveFormat rt (ensureDict (env'.get "args")) isTty with
  | json => exact ⟨_, rfl⟩
  | markdown =>
    simp only [renderAs, hwritten.rendered, Result.ok_bind]
    exact ⟨_, rfl⟩

/-- A host at the start of a year. -/
def bareHost : Host where
  cwd := ["srv"]
  skillRoot := ["srv", "skill"]
  specialistsTotal := 3
  date := "20260101".toList
  time := "000000".toList
  sha256 := fun _ => zeroDigest
  cwd_parts := isParts_parts "/srv"
  skillRoot_parts := isParts_parts "/srv/skill"
  date_digits := ⟨rfl, fun c hc => List.all_eq_true.1
    (show ("20260101".toList.all fun c => c.isDigit) = true from rfl) c hc⟩
  time_digits := ⟨rfl, fun c hc => List.all_eq_true.1
    (show ("000000".toList.all fun c => c.isDigit) = true from rfl) c hc⟩

/-- A review in which a specialist reports a finding, and the report is written. -/
def writingReview : (e : RunEffect) → RunReply e
  | .inline .writeRunDirectory env =>
    match (handleWriteRunDirectory .ascii .ascii bareHost "run" env []).2 with
    | .ok outputs => .ok outputs
    | .error _ => .fault "inline_state_failed" ""
  | e => reportedReview e

/-- The run of that review. -/
def writingRun : RunTrace × Outcome :=
  exec (fun _ => writingReview) [] (runReview .ascii 0 [])

/-- It ends without a fault and with findings, and nothing asks for a filter. -/
def endsUnfiltered : RunTrace × Outcome → Bool
  | (trace, .ok r) => !r.faulted && r.findings.truthy && (inlineCalls trace).all fun c =>
      requestedFilters .ascii (ensureDict (Dict.get c.2.1 "args")) = (none, none)
  | (_, .error _) => false

theorem exists_of_endsUnfiltered {run : RunTrace × Outcome} (h : endsUnfiltered run = true) :
    ∃ r, run.2 = .ok r ∧ r.faulted = false ∧ r.findings.truthy = true ∧ ∀ c ∈ inlineCalls run.1,
      requestedFilters .ascii (ensureDict (Dict.get c.2.1 "args")) = (none, none) := by
  obtain ⟨trace, outcome⟩ := run
  cases outcome with
  | error exc => cases h
  | ok r =>
    simp only [endsUnfiltered, Bool.and_eq_true, Bool.not_eq_true', List.all_eq_true,
      decide_eq_true_eq, and_assoc] at h
    exact ⟨r, rfl, h⟩

/-- What the handler answers in that run. -/
theorem writingReview_write {env outputs : Dict}
    (h : writingReview (.inline .writeRunDirectory env) = .ok outputs) :
    (handleWriteRunDirectory .ascii .ascii bareHost "run" env []).2 = .ok outputs := by
  simp only [writingReview] at h
  split at h
  · rename_i outputs' hok
    cases h
    exact hok
  · cases h

theorem writingReview_publishes (e : RunEffect) : PublishLawful ⟨e, writingReview e⟩ := by
  cases e with
  | inline state env =>
    refine ⟨trivial, ?_⟩
    cases hreply : writingReview (.inline state env) with
    | fault reason detail => trivial
    | ok outputs =>
      cases state with
      | writeRunDirectory =>
        exact ⟨_, (handleWriteRunDirectory_ok (Prod.ext rfl (writingReview_write hreply))).1⟩
      | emitStdout =>
        cases hreply
        rfl
      | _ => trivial
  | worker state inputs => exact ⟨trivial, trivial⟩
  | dispatch stats units => exact ⟨trivial, trivial⟩
  | _ => exact plainReview_publishes (routedBy oneCandidate) _

theorem writingRun_answers {ev : Event RunEffect RunReply} (h : ev ∈ writingRun.1) :
    ev.2 = writingReview ev.1 := by
  simpa using exec_answers writingReview [] _ _ h

theorem writingRun_publishes : ∀ ev ∈ writingRun.1, PublishLawful ev := by
  rintro ⟨e, reply⟩ hev
  obtain rfl : reply = writingReview e := writingRun_answers hev
  exact writingReview_publishes e

theorem writingRun_runs : Runs (runReview .ascii 0 []) writingRun.1 writingRun.2 := by
  obtain ⟨trace, htrace, hrun⟩ := exec_runs (fun _ => writingReview) [] (runReview .ascii 0 [])
  rw [writingRun, htrace]
  exact hrun

theorem writingRun_wrote {env outputs : Dict}
    (h : (StateId.writeRunDirectory, env, outputs) ∈ inlineCalls writingRun.1) :
    (handleWriteRunDirectory .ascii .ascii bareHost "run" env []).2 = .ok outputs := by
  obtain ⟨⟨e, reply⟩, hev, hcall⟩ := List.mem_filterMap.1 h
  have hans : reply = writingReview e := writingRun_answers hev
  cases e with
  | inline state env' =>
    cases reply with
    | fault reason detail => cases hcall
    | ok outputs' =>
      cases hcall
      exact writingReview_write hans.symm
  | _ => cases hcall

end CodeReview
