import CodeReview.Handlers.Triage
import CodeReview.Runner.Budget

/-!
# What a review publishes

Three handlers decide a verdict.  After them the run directory is written, the report is printed and
the review ends.

* `Leads.stage` : the transitions keep to that order;
* `step_calls` : a round that goes on calls the handler of its state and merges what it returns;
* `decides_of_outputs` : the verdict and the findings that the three handlers leave;
* `review_publishes` : **in a review that ends without a fault one handler decided the verdict,
  once, after every other handler; the run directory was written once, from the environment that it
  left, then printed once; and the verdict, the findings and the path that the review returns are
  those.**
-/

namespace CodeReview

open Py Proc

/-! ### The order of the states -/

/-- The states whose handlers decide a verdict. -/
def deciders : List StateId := [.synthesizeReleaseReadiness, .shortCircuitExit, .stageAEmpty]

/-- How far the states are: before the verdict, at the verdict, and after it. -/
def StateId.stage : StateId → ℕ
  | synthesizeReleaseReadiness | shortCircuitExit | stageAEmpty => 1
  | writeRunDirectory => 2
  | emitStdout => 3
  | terminal => 4
  | _ => 0

theorem stage_eq_one_iff {state : StateId} : state.stage = 1 ↔ state ∈ deciders := by
  cases state <;> decide

/-- **Before the verdict a state leads no further than to it; from there on, to the next one.** -/
theorem Leads.stage {state target : StateId} (h : Leads state target) :
    target.stage = state.stage + 1 ∨ (state.stage = 0 ∧ target.stage = 0) := by
  have hall : (state.transitions.all fun t => decide (t.target.stage = state.stage + 1 ∨
      (state.stage = 0 ∧ t.target.stage = 0))) = true := by
    cases state <;> rfl
  obtain ⟨t, ht, rfl⟩ := h
  exact of_decide_eq_true (List.all_eq_true.1 hall t ht)

theorem Forward.stage {s s' : RunState} (h : Forward s s') :
    s'.stateId.stage = s.stateId.stage + 1 ∨ (s.stateId.stage = 0 ∧ s'.stateId.stage = 0) := by
  cases h with
  | along hleads _ => exact hleads.stage
  | again hs hs' =>
    rw [hs, hs']
    exact .inr ⟨rfl, rfl⟩

theorem kind_of_stage {state : StateId} (hpos : state.stage ≠ 0) (hend : state.stage ≠ 4) :
    state.kind = .inline := by
  cases state <;> first | rfl | exact absurd rfl hpos | exact absurd rfl hend

/-! ### The calls of the handlers -/

/-- A handler that ran: its state, the environment it got, and what it returned. -/
abbrev InlineCall := StateId × Dict × Dict

/-- The handlers that returned, in order. -/
def inlineCalls (trace : RunTrace) : List InlineCall :=
  trace.filterMap fun
    | ⟨.inline state env, .ok outputs⟩ => some (state, env, outputs)
    | _ => none

theorem inlineCalls_append (before after : RunTrace) :
    inlineCalls (before ++ after) = inlineCalls before ++ inlineCalls after :=
  List.filterMap_append

theorem inlineCalls_of_performs {α : Type} {p : Driver α} {trace : RunTrace} {res : α}
    (hp : Performs NotInline p) (h : Runs p trace res) : inlineCalls trace = [] := by
  refine List.filterMap_eq_nil_iff.2 fun ev hev => ?_
  have hnot := hp.of_mem h ev hev
  obtain ⟨e, reply⟩ := ev
  cases e with
  | inline state env => exact hnot.elim
  | _ => rfl

theorem advance_env {s s' : RunState} {outputs : Dict} {trace : RunTrace}
    (h : Runs (advanceStep s outputs) trace (.next s')) : s'.env = Assoc.update s.env outputs := by
  rw [advanceStep, perform_bind, runs_vis] at h
  obtain ⟨reply, rest, rfl, h⟩ := h
  cases reply with
  | fault reason errors =>
    obtain ⟨-, h⟩ := runs_ret.1 h
    cases h
  | loopContinue n | terminal | next target =>
    obtain ⟨-, h⟩ := runs_ret.1 h
    cases h
    rfl

variable {rt : Runtime} {maxRetries : ℕ}

/-- **A round that goes on calls the handler of an inline state, with the timings in its
environment, and merges what it returns; in another state it calls none.** -/
theorem step_calls {s s' : RunState} {trace : RunTrace}
    (h : Runs (reviewStep rt maxRetries s) trace (.next s')) :
    (s.stateId.kind = .inline ∧ ∃ measured outputs,
        inlineCalls trace = [(s.stateId, (s.timed measured).env, outputs)] ∧
        (⟨.inline s.stateId (s.timed measured).env, .ok outputs⟩ : Event RunEffect RunReply) ∈
          trace ∧
        s'.env = Assoc.update (s.timed measured).env outputs) ∨
      (s.stateId.kind ≠ .inline ∧ inlineCalls trace = []) := by
  unfold reviewStep at h
  split at h
  · obtain ⟨-, h⟩ := runs_ret.1 h
    cases h
  · rename_i hkind
    obtain ⟨measured, ⟨reason, detail, -, hfault⟩ | ⟨outputs, rest, rfl, hadvance⟩⟩ :=
      runs_inlineStep h
    · cases hfault
    · have hrest : inlineCalls rest = [] :=
        inlineCalls_of_performs (performs_advance _ outputs) hadvance
      exact .inl ⟨hkind, measured, outputs, congrArg _ hrest,
        List.mem_cons_of_mem _ List.mem_cons_self, advance_env hadvance⟩
  · rename_i hkind
    exact .inr ⟨by rw [hkind]; decide, inlineCalls_of_performs (performs_loop s) h⟩
  · rename_i hkind
    exact .inr ⟨by rw [hkind]; decide, inlineCalls_of_performs (performs_worker s) h⟩

/-! ### The deciders -/

/-- What the three handlers return. -/
def DeciderOutputs (env outputs : Dict) : StateId → Prop
  | .synthesizeReleaseReadiness =>
    ∃ r, synthesizeReleaseReadiness env = .ok r ∧ outputs = r.toDict
  | .shortCircuitExit => outputs = handleShortCircuitExit
  | .stageAEmpty => outputs = handleStageAEmpty env
  | _ => True

/-- The verdict that a decider reaches, and the findings that it leaves. -/
inductive Decides (env : Dict) : StateId → Verdict → Value → Prop
  | synthesized {r : Readiness} (h : synthesizeReleaseReadiness env = .ok r) :
    Decides env .synthesizeReleaseReadiness r.verdict (env.getD "findings" (.list []))
  | shortCircuited : Decides env .shortCircuitExit .go (.list [])
  | unstaffed : Decides env .stageAEmpty .conditional (.list [])

/-- **What a decider returns has its verdict, and findings only where it clears them.** -/
theorem decides_of_outputs {env outputs : Dict} {state : StateId} (hstate : state ∈ deciders)
    (h : DeciderOutputs env outputs state) :
    ∃ v, Decides env state v (Dict.getD (Assoc.update env outputs) "findings" (.list [])) ∧
      Dict.get (Assoc.update env outputs) "verdict" = .str v.text := by
  simp only [deciders, List.mem_cons, List.not_mem_nil, or_false] at hstate
  have hget (k : String) : Assoc.get? (Assoc.update env outputs) k =
      (Assoc.get? outputs k).or (Assoc.get? env k) := by
    refine Assoc.get?_update_of_nodup env ?_ k
    rcases hstate with rfl | rfl | rfl
    · obtain ⟨r, -, rfl⟩ := h
      show ["gates", "verdict"].Nodup
      decide
    · obtain rfl : outputs = handleShortCircuitExit := h
      decide
    · obtain rfl : outputs = handleStageAEmpty env := h
      rw [keys_handleStageAEmpty]
      decide
  rw [Dict.getD, Dict.get, hget, hget]
  rcases hstate with rfl | rfl | rfl
  · obtain ⟨r, hr, rfl⟩ := h
    exact ⟨r.verdict, .synthesized hr, rfl⟩
  · obtain rfl : outputs = handleShortCircuitExit := h
    exact ⟨.go, .shortCircuited, rfl⟩
  · obtain rfl : outputs = handleStageAEmpty env := h
    exact ⟨.conditional, .unstaffed, rfl⟩

/-! ### The end of a review -/

/-- What the last two handlers return: the path of the run directory, and nothing. -/
def PublishOutputs (outputs : Dict) : StateId → Prop
  | .writeRunDirectory => ∃ path, outputs = [("run_dir_path", .str path)]
  | .emitStdout => outputs = []
  | _ => True

/-- Those handlers answer with that. -/
def Publishes : Event RunEffect RunReply → Prop
  | ⟨.inline state _, .ok outputs⟩ => PublishOutputs outputs state
  | _ => True

/-- The engine follows the specification, and the last two handlers return what they do. -/
def PublishLawful (ev : Event RunEffect RunReply) : Prop := FollowsSpec ev ∧ Publishes ev

/-- The environment with these timings. -/
def withTimings (env timings : Dict) : Dict := Assoc.set env "timings" (.dict timings)

/-- The calls that publish what a decider left in `env`, with the timings at the moment of each. -/
def publishing (env : Dict) (path : String) (timings timings' : Dict) : List InlineCall :=
  [(.writeRunDirectory, withTimings env timings, [("run_dir_path", .str path)]),
    (.emitStdout, withTimings (Assoc.set (withTimings env timings) "run_dir_path" (.str path))
      timings', [])]

/-- The review returned what stands in the environment. -/
structure ReturnsFrom (env : Dict) (r : RunResult) : Prop where
  verdict : r.verdict = env.get "verdict"
  findings : r.findings = env.getD "findings" (.list [])
  runDirPath : r.runDirPath = env.get "run_dir_path"

/-- What is returned depends on three keys only. -/
theorem ReturnsFrom.congr {env env' : Dict} {r : RunResult} (h : ReturnsFrom env r)
    (hkept : ∀ k, k ≠ "timings" → Assoc.get? env k = Assoc.get? env' k) : ReturnsFrom env' r := by
  obtain ⟨hverdict, hfindings, hpath⟩ := h
  rw [Dict.get, hkept _ (by decide)] at hverdict hpath
  rw [Dict.getD, hkept _ (by decide)] at hfindings
  exact ⟨hverdict, hfindings, hpath⟩

section

variable {rounds : ℕ} {s : RunState} {steps : List (RunState × RunTrace)} {outcome : Outcome}
  {r : RunResult}

/-- A review that is at `terminal` returns. -/
theorem rounds_terminal (h : Rounds rt maxRetries rounds s steps outcome)
    (hs : s.stateId.stage = 4) (hr : outcome = .ok r) (hfaulted : r.faulted = false) :
    inlineCalls (steps.flatMap Prod.snd) = [] ∧ ReturnsFrom s.env r := by
  have hkind : s.stateId.kind = .terminal := by
    revert hs
    cases s.stateId <;> decide
  cases h with
  | exhausted =>
    obtain rfl := Except.ok.inj hr
    cases hfaulted
  | done hstep =>
    simp only [reviewStep, hkind] at hstep
    obtain ⟨rfl, hdone⟩ := runs_ret.1 hstep
    obtain rfl := StepResult.done.inj hdone
    obtain rfl := Except.ok.inj hr
    exact ⟨rfl, ⟨rfl, rfl, rfl⟩⟩
  | next hstep =>
    simp only [reviewStep, hkind] at hstep
    obtain ⟨-, hnext⟩ := runs_ret.1 hstep
    cases hnext

/-- From the verdict on, a review that does not fault goes on from state to state. -/
theorem rounds_decided (h : Rounds rt maxRetries rounds s steps outcome)
    (hlaw : ∀ st ∈ steps, ∀ ev ∈ st.2, PublishLawful ev) (hs : s.stateId.kind = .inline)
    (hr : outcome = .ok r) (hfaulted : r.faulted = false) :
    ∃ measured outputs trace rounds' s' steps',
      inlineCalls trace = [(s.stateId, (s.timed measured).env, outputs)] ∧
      (⟨.inline s.stateId (s.timed measured).env, .ok outputs⟩ : Event RunEffect RunReply) ∈ trace ∧
      steps = (s, trace) :: steps' ∧ s'.env = Assoc.update (s.timed measured).env outputs ∧
      Forward s s' ∧ Rounds rt maxRetries rounds' s' steps' outcome := by
  have hne : s.stateId.kind ≠ .terminal := by
    rw [hs]
    decide
  cases h with
  | exhausted =>
    obtain rfl := Except.ok.inj hr
    cases hfaulted
  | done hstep =>
    rw [step_ends hne hstep r hr] at hfaulted
    cases hfaulted
  | next hstep hrest =>
    obtain ⟨-, measured, outputs, hcalls, hmem, henv⟩ | ⟨hnot, -⟩ := step_calls hstep
    · have hforward : Forward s _ :=
        step_leads hstep fun ev hev => (hlaw _ List.mem_cons_self ev hev).1
      exact ⟨measured, outputs, _, _, _, _, hcalls, hmem, rfl, henv, hforward, hrest⟩
    · exact absurd hs hnot

theorem Forward.stage_succ {s s' : RunState} (h : Forward s s') {n : ℕ}
    (hs : s.stateId.stage = n + 1) : s'.stateId.stage = n + 2 := by
  rcases h.stage with hnext | ⟨hzero, -⟩
  · rw [hnext, hs]
  · omega

/-- What follows the verdict. -/
theorem rounds_publish (h : Rounds rt maxRetries rounds s steps outcome)
    (hlaw : ∀ st ∈ steps, ∀ ev ∈ st.2, PublishLawful ev) (hs : s.stateId.stage = 1)
    (hr : outcome = .ok r) (hfaulted : r.faulted = false) :
    ∃ env outputs path timings timings', inlineCalls (steps.flatMap Prod.snd) =
        (s.stateId, env, outputs) :: publishing (Assoc.update env outputs) path timings timings' ∧
      ReturnsFrom (Assoc.set (Assoc.update env outputs) "run_dir_path" (.str path)) r := by
  obtain ⟨measured, outputs, trace, rounds₂, s₂, steps₂, hcalls, -, rfl, henv₂, hforward, h₂⟩ :=
    rounds_decided h hlaw (kind_of_stage (by omega) (by omega)) hr hfaulted
  have hlaw₂ := fun st hst => hlaw st (List.mem_cons_of_mem _ hst)
  have hstage₂ : s₂.stateId.stage = 2 := hforward.stage_succ hs
  have hwrite : s₂.stateId = .writeRunDirectory := by
    revert hstage₂
    cases s₂.stateId <;> decide
  obtain ⟨measured₂, written, trace₂, rounds₃, s₃, steps₃, hcalls₂, hmem₂, rfl, henv₃, hforward₂,
    h₃⟩ :=
    rounds_decided h₂ hlaw₂ (kind_of_stage (by omega) (by omega)) hr hfaulted
  have hlaw₃ := fun st hst => hlaw₂ st (List.mem_cons_of_mem _ hst)
  have hstage₃ : s₃.stateId.stage = 3 := hforward₂.stage_succ hstage₂
  have hemit : s₃.stateId = .emitStdout := by
    revert hstage₃
    cases s₃.stateId <;> decide
  obtain ⟨measured₃, emitted, trace₃, rounds₄, s₄, steps₄, hcalls₃, hmem₃, rfl, henv₄, hforward₃,
    h₄⟩ :=
    rounds_decided h₃ hlaw₃ (kind_of_stage (by omega) (by omega)) hr hfaulted
  obtain ⟨hnone, hreturned⟩ := rounds_terminal h₄ (hforward₃.stage_succ hstage₃) hr hfaulted
  -- what the last two handlers return
  obtain ⟨path, rfl⟩ : ∃ path, written = [("run_dir_path", Value.str path)] := by
    have hlawful : PublishOutputs written s₂.stateId := (hlaw₂ _ List.mem_cons_self _ hmem₂).2
    rw [hwrite] at hlawful
    exact hlawful
  obtain rfl : emitted = [] := by
    have hlawful : PublishOutputs emitted s₃.stateId := (hlaw₃ _ List.mem_cons_self _ hmem₃).2
    rw [hemit] at hlawful
    exact hlawful
  have hpath : s₃.env = Assoc.set (s₂.timed measured₂).env "run_dir_path" (.str path) := henv₃
  have hkept (k : String) (hk : k ≠ "timings") : Assoc.get? s₄.env k =
      Assoc.get? (Assoc.set s₂.env "run_dir_path" (.str path)) k := by
    rw [show s₄.env = (s₃.timed measured₃).env from henv₄, RunState.get?_timed hk, hpath,
      Assoc.get?_set, Assoc.get?_set, RunState.get?_timed hk]
  have hprinted : (s₃.timed measured₃).env = withTimings (Assoc.set (withTimings s₂.env
      (s₂.timings measured₂)) "run_dir_path" (.str path)) (s₃.timings measured₃) := by
    rw [RunState.timed, hpath]
    rfl
  refine ⟨(s.timed measured).env, outputs, path, s₂.timings measured₂, s₃.timings measured₃, ?_, ?_⟩
  · simp only [List.flatMap_cons, inlineCalls_append, hcalls, hcalls₂, hcalls₃, hnone, hwrite,
      hemit, List.cons_append, List.nil_append, List.append_nil, publishing, ← henv₂, hprinted]
    rfl
  · rw [← henv₂]
    exact hreturned.congr hkept

/-- Before the verdict no handler of a later state is called. -/
theorem rounds_undecided (h : Rounds rt maxRetries rounds s steps outcome)
    (hlaw : ∀ st ∈ steps, ∀ ev ∈ st.2, PublishLawful ev) (hs : s.stateId.stage = 0)
    (hr : outcome = .ok r) (hfaulted : r.faulted = false) :
    ∃ before state env outputs path timings timings',
      (∀ c ∈ before, (c : InlineCall).1.stage = 0) ∧ state.stage = 1 ∧
      inlineCalls (steps.flatMap Prod.snd) = before ++
        (state, env, outputs) :: publishing (Assoc.update env outputs) path timings timings' ∧
      ReturnsFrom (Assoc.set (Assoc.update env outputs) "run_dir_path" (.str path)) r := by
  induction h with
  | exhausted s =>
    obtain rfl := Except.ok.inj hr
    cases hfaulted
  | @done rounds s trace outcome hstep =>
    have hne : s.stateId.kind ≠ .terminal := fun hkind => by
      rw [StateId.eq_terminal_of_kind hkind] at hs
      cases hs
    rw [step_ends hne hstep r hr] at hfaulted
    cases hfaulted
  | @next rounds s s' trace steps outcome hstep hrest ih =>
    have hrestlaw := fun st hst => hlaw st (List.mem_cons_of_mem _ hst)
    have hforward : Forward s s' :=
      step_leads hstep fun ev hev => (hlaw _ List.mem_cons_self ev hev).1
    have hhere : ∀ c ∈ inlineCalls trace, (c : InlineCall).1.stage = 0 := by
      obtain ⟨-, measured, outputs, hcalls, -⟩ | ⟨-, hcalls⟩ := step_calls hstep
      · rw [hcalls]
        intro c hc
        rw [List.mem_singleton.1 hc]
        exact hs
      · rw [hcalls]
        exact nofun
    rw [List.flatMap_cons, inlineCalls_append]
    rcases hforward.stage with hdecided | ⟨-, hundecided⟩
    · rw [hs] at hdecided
      obtain ⟨env, outputs, path, timings, timings', hcalls, hreturned⟩ :=
        rounds_publish hrest hrestlaw hdecided hr hfaulted
      exact ⟨_, _, env, outputs, path, timings, timings', hhere, hdecided, by rw [hcalls],
        hreturned⟩
    · obtain ⟨before, state, env, outputs, path, timings, timings', hbefore, hstate, hcalls,
        hreturned⟩ := ih hrestlaw hundecided hr
      refine ⟨inlineCalls trace ++ before, state, env, outputs, path, timings, timings', ?_, hstate,
        ?_, hreturned⟩
      · exact List.forall_mem_append.2 ⟨hhere, hbefore⟩
      · rw [hcalls, List.append_assoc]

end

/-- **What a review returns is what it published.** -/
theorem review_publishes {retries : ℤ} {args : Dict} {trace : RunTrace} {r : RunResult}
    (h : Runs (runReview rt retries args) trace (.ok r)) (hlaw : ∀ ev ∈ trace, PublishLawful ev)
    (hfaulted : r.faulted = false) :
    ∃ before state env outputs path timings timings',
      (∀ c ∈ before, (c : InlineCall).1 ∉ deciders ++ [.writeRunDirectory, .emitStdout]) ∧
      state ∈ deciders ∧
      inlineCalls trace = before ++
        (state, env, outputs) :: publishing (Assoc.update env outputs) path timings timings' ∧
      r.verdict = Dict.get (Assoc.update env outputs) "verdict" ∧
      r.findings = Dict.getD (Assoc.update env outputs) "findings" (.list []) ∧
      r.runDirPath = .str path ∧
      (DeciderOutputs env outputs state →
        ∃ v, Decides env state v r.findings ∧ r.verdict = .str v.text) := by
  obtain ⟨steps, hsteps, rfl⟩ := runs_review.1 h
  have hlaw' : ∀ st ∈ steps, ∀ ev ∈ st.2, PublishLawful ev := fun st hst ev hev =>
    hlaw ev (List.mem_flatMap.2 ⟨st, hst, hev⟩)
  obtain ⟨before, state, env, outputs, path, timings, timings', hbefore, hstate, hcalls,
    hreturned⟩ := rounds_undecided hsteps hlaw' rfl rfl hfaulted
  refine ⟨before, state, env, outputs, path, timings, timings', fun c hc hmem => ?_,
    stage_eq_one_iff.1 hstate, hcalls, ?_, ?_, ?_, fun houtputs => ?_⟩
  · have hzero := hbefore c hc
    revert hzero hmem
    cases c.1 <;> decide
  · rw [hreturned.verdict, Dict.get_set, if_neg (by decide)]
  · rw [hreturned.findings, Dict.getD, Assoc.get?_set, if_neg (by decide)]
    rfl
  · rw [hreturned.runDirPath, Dict.get_set, if_pos rfl]
  · obtain ⟨v, hdecides, hverdict⟩ := decides_of_outputs (stage_eq_one_iff.1 hstate) houtputs
    refine ⟨v, ?_, ?_⟩
    · rw [hreturned.findings, Dict.getD, Assoc.get?_set, if_neg (by decide)]
      exact hdecides
    · rw [hreturned.verdict, Dict.get_set, if_neg (by decide)]
      exact hverdict

theorem plainReview_publishes (worker : StateId → Dict) (e : RunEffect) :
    PublishLawful ⟨e, plainReview worker e⟩ := by
  refine ⟨plainReview_follows worker e, ?_⟩
  cases e with
  | inline state env =>
    simp only [plainReview]
    split
    · cases state with
      | writeRunDirectory => exact ⟨"run", rfl⟩
      | emitStdout => rfl
      | _ => trivial
    · trivial
  | _ => trivial

theorem plainRun_publishes (worker : StateId → Dict) :
    ∀ ev ∈ (plainRun worker).1, PublishLawful ev := by
  rintro ⟨e, reply⟩ hev
  obtain rfl : reply = plainReview worker e := plainRun_answers hev
  exact plainReview_publishes worker e

theorem review_publishes_oneCandidate :
    ∃ r state env outputs path before timings timings',
      (plainRun (routedBy oneCandidate)).2 = .ok r ∧ state ∈ deciders ∧
      inlineCalls (plainRun (routedBy oneCandidate)).1 = before ++
        (state, env, outputs) :: publishing (Assoc.update env outputs) path timings timings' ∧
      r.runDirPath = .str path := by
  have hends : endsActivated (plainRun (routedBy oneCandidate)) = true := by decide +kernel
  obtain ⟨r, hr, hfaulted, -⟩ := exists_of_endsActivated hends
  have hruns := plainRun_runs (routedBy oneCandidate)
  rw [hr] at hruns
  obtain ⟨before, state, env, outputs, path, timings, timings', -, hstate, hcalls, -, -,
    hpath, -⟩ :=
    review_publishes hruns (plainRun_publishes _) hfaulted
  exact ⟨r, state, env, outputs, path, before, timings, timings', hr, hstate, hcalls, hpath⟩

end CodeReview
