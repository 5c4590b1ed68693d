import CodeReview.Runner.LoopBound
import CodeReview.Runner.Routing

/-!
# The way of a review

The transitions only lead forward, and the one state that repeats does so a bounded number of
times.  So `_MAX_STEPS` is out of reach, whatever the workers and the handlers answer.

* `depth` : how many rounds a review has left at most in a state, the loop not repeating;
* `step_leads` : a step that goes on follows a transition or repeats the loop;
* `Rounds.forward` : a review never comes back to a state that it has left;
* `review_within_budget` : **a review ends within 79 rounds, never because of the step limit, and
  runs every state at most once, but for the loop, which it runs 64 times at most.**
-/

namespace CodeReview

open Py Proc

/-! ### The transitions -/

/-- Some transition of the state leads to the target. -/
def Leads (state target : StateId) : Prop := ∃ t ∈ state.transitions, t.target = target

/-- The rounds that are left from a state on, its repetitions not counted. -/
def StateId.depth : StateId → ℕ
  | terminal => 1
  | emitStdout => 2
  | writeRunDirectory => 3
  | synthesizeReleaseReadiness | shortCircuitExit | stageAEmpty => 4
  | verifyCoverage | verifierStuck => 5
  | rankFindings => 6
  | collectFindings => 7
  | mergeSpecialistOutputs => 8
  | dispatchSpecialists => 9
  | planSpecialistBatches => 73
  | toolDiscovery => 74
  | llmTrim => 75
  | treeDescend => 76
  | activateLeaves => 77
  | riskTierTriage => 78
  | scanProject => 79

/-- The rounds that a fresh visit of the state leaves. -/
def StateId.visit (state : StateId) : ℕ :=
  state.depth + if state = dispatchSpecialists then maxIterations - 1 else 0

/-- **Every transition leads forward.** -/
theorem Leads.visit_lt {state target : StateId} (h : Leads state target) :
    target.visit < state.depth := by
  have hall : (state.transitions.all fun t => decide (t.target.visit < state.depth)) = true := by
    cases state <;> rfl
  obtain ⟨t, ht, rfl⟩ := h
  exact of_decide_eq_true (List.all_eq_true.1 hall t ht)

theorem Leads.depth_lt {state target : StateId} (h : Leads state target) :
    target.depth < state.depth :=
  Nat.lt_of_le_of_lt (Nat.le_add_right _ _) h.visit_lt

theorem eq_dispatch_of_loop {state : StateId} (h : state.kind = .loop) :
    state = .dispatchSpecialists := by
  cases state <;> first | rfl | cases h

/-! ### The engine -/

/-- `iteration_n or 1`. -/
def currentIteration (iterationN : Option ℕ) : ℕ := max 1 (iterationN.getD 1)

theorem currentIteration_of_lt {iterationN : Option ℕ} {n : ℕ}
    (h : currentIteration iterationN < n) : currentIteration (some n) = n :=
  max_eq_right ((le_max_left _ _).trans h.le)

/-- The engine follows the specification: it takes a transition, or it repeats the loop state with
the next iteration, up to its bound. -/
def FollowsSpec : Event RunEffect RunReply → Prop
  | ⟨.advance state iterationN _ _, .loopContinue n⟩ =>
      state.kind = .loop ∧ currentIteration iterationN < n ∧ n ≤ maxIterations
  | ⟨.advance state _ _ _, .terminal⟩ => Leads state .terminal
  | ⟨.advance state _ _ _, .next target⟩ => Leads state (target.getD .terminal)
  | _ => True

/-- A round goes forward: along a transition, or to the next iteration of the loop. -/
inductive Forward (s s' : RunState) : Prop where
  | along (hleads : Leads s.stateId s'.stateId)
      (hfresh : s'.stateId = .dispatchSpecialists → s'.iterationN = none)
  | again (hs : s.stateId = .dispatchSpecialists) (hs' : s'.stateId = .dispatchSpecialists) {n : ℕ}
      (hn : s'.iterationN = some n) (hnext : currentIteration s.iterationN < n)
      (hbound : n ≤ maxIterations)

/-- What ended the run, if the step did. -/
def StepFault (fault : String) : Prop :=
  ∃ rest, fault = "inline:" ++ rest ∨ fault = "advance:" ++ rest ∨ fault = "worker:" ++ rest

/-- A step goes forward, or it ends the run with a fault of its own. -/
def Steps (s : RunState) : StepResult → Prop
  | .next s' => Forward s s'
  | .done outcome => ∀ r fault, outcome = .ok r → r.fault = some fault → StepFault fault

variable {rt : Runtime} {maxRetries : ℕ}

theorem steps_error (s : RunState) (exc : Exc) : Steps s (.done (.error exc)) := by
  intro r fault hr
  cases hr

theorem steps_faulted {s : RunState} {stats : RunnerStats} {text : String} (h : StepFault text) :
    Steps s (.done (faulted stats text)) := by
  intro r fault hr hfault
  obtain rfl := Except.ok.inj hr
  obtain rfl := Option.some.inj hfault
  exact h

/-- A step depends on the place of the run alone. -/
theorem Steps.congr {s s₀ : RunState} {res : StepResult} (h : Steps s₀ res)
    (hstate : s₀.stateId = s.stateId) (hiter : s₀.iterationN = s.iterationN) : Steps s res := by
  cases res with
  | done outcome => exact h
  | next s' =>
    cases h with
    | along hleads hfresh => exact .along (hstate ▸ hleads) hfresh
    | again hs hs' hn hnext hbound => exact .again (hstate ▸ hs) hs' hn (hiter ▸ hnext) hbound

/-! ### Steps -/

theorem advance_leads {s : RunState} {outputs : Dict} {trace : RunTrace} {res : StepResult}
    (h : Runs (advanceStep s outputs) trace res) (hlaw : ∀ ev ∈ trace, FollowsSpec ev) :
    Steps s res := by
  rw [advanceStep, perform_bind, runs_vis] at h
  obtain ⟨reply, rest, rfl, h⟩ := h
  have hreply := hlaw _ List.mem_cons_self
  cases reply with
  | fault reason errors =>
    obtain ⟨-, rfl⟩ := runs_ret.1 h
    refine steps_faulted ⟨reason ++ ":" ++ errors, .inr (.inl ?_)⟩
    simp only [String.append_assoc]
  | loopContinue n =>
    obtain ⟨-, rfl⟩ := runs_ret.1 h
    obtain ⟨hkind, hnext, hbound⟩ := hreply
    have hstate := eq_dispatch_of_loop hkind
    exact .again hstate hstate rfl hnext hbound
  | terminal =>
    obtain ⟨-, rfl⟩ := runs_ret.1 h
    exact .along hreply fun hkind => by cases hkind
  | next target =>
    obtain ⟨-, rfl⟩ := runs_ret.1 h
    exact .along hreply fun _ => rfl

theorem inline_leads {s : RunState} {trace : RunTrace} {res : StepResult}
    (h : Runs (inlineStep s) trace res) (hlaw : ∀ ev ∈ trace, FollowsSpec ev) : Steps s res := by
  obtain ⟨measured, ⟨reason, detail, -, rfl⟩ | ⟨outputs, rest, rfl, hadvance⟩⟩ := runs_inlineStep h
  · refine steps_faulted ⟨s.stateId.text ++ ":" ++ reason ++ ":" ++ detail, .inl ?_⟩
    simp only [String.append_assoc]
  · have hrest (ev : Event RunEffect RunReply) (hev : ev ∈ rest) : FollowsSpec ev :=
      hlaw ev (List.mem_cons_of_mem _ (List.mem_cons_of_mem _ hev))
    exact (advance_leads hadvance hrest).congr rfl rfl

theorem record_leads {s : RunState} {outputs : Dict} {trace : RunTrace} {res : StepResult}
    (h : Runs (recordIteration s outputs) trace res) (hlaw : ∀ ev ∈ trace, FollowsSpec ev) :
    Steps s res := by
  unfold recordIteration at h
  split at h
  · obtain ⟨-, rfl⟩ := runs_ret.1 h
    exact steps_error _ _
  · exact (advance_leads h hlaw).congr rfl rfl

theorem loop_leads {s : RunState} {trace : RunTrace} {res : StepResult}
    (h : Runs (loopStep s) trace res) (hlaw : ∀ ev ∈ trace, FollowsSpec ev) : Steps s res := by
  unfold loopStep at h
  split at h
  · rw [perform_bind, runs_vis] at h
    obtain ⟨⟨reply, outputs⟩, rest, rfl, h⟩ := h
    simp only at h
    split at h
    · obtain ⟨-, rfl⟩ := runs_ret.1 h
      exact steps_error _ _
    · exact (record_leads h fun ev hev => hlaw ev (List.mem_cons_of_mem _ hev)).congr rfl rfl
  · rw [runs_bind] at h
    obtain ⟨before, reply, after, rfl, -, h⟩ := h
    split at h
    · obtain ⟨-, rfl⟩ := runs_ret.1 h
      exact steps_error _ _
    · exact (record_leads h fun ev hev => hlaw ev (List.mem_append_right _ hev)).congr rfl rfl

theorem accept_leads {s : RunState} {inputs outputs : Dict} {trace : RunTrace} {res : StepResult}
    (h : Runs (acceptOutputs rt s inputs outputs) trace res)
    (hlaw : ∀ ev ∈ trace, FollowsSpec ev) : Steps s res := by
  unfold acceptOutputs at h
  split at h
  · obtain ⟨-, rfl⟩ := runs_ret.1 h
    exact steps_error _ _
  · split at h
    · obtain ⟨-, rfl⟩ := runs_ret.1 h
      exact steps_error _ _
    · exact (advance_leads h hlaw).congr rfl rfl
    · exact (advance_leads h hlaw).congr rfl rfl

theorem worker_leads {s : RunState} {trace : RunTrace} {res : StepResult}
    (h : Runs (workerStep rt maxRetries s) trace res) (hlaw : ∀ ev ∈ trace, FollowsSpec ev) :
    Steps s res := by
  rw [workerStep, runs_bind] at h
  obtain ⟨before, ⟨stats, answer⟩, after, rfl, -, h⟩ := h
  have hafter (ev : Event RunEffect RunReply) (hev : ev ∈ after) : FollowsSpec ev :=
    hlaw ev (List.mem_append_right _ hev)
  have hfailed {cls msg : String}
      (hrun : Runs (workerFailed rt { s with stats } (inputsOf s.stateId s.env) cls msg) after
        res) : Steps s res := by
    unfold workerFailed at hrun
    split at hrun
    · obtain ⟨-, rfl⟩ := runs_ret.1 hrun
      refine steps_faulted ⟨s.stateId.text ++ ":" ++ cls ++ ":" ++ msg, .inr (.inr ?_)⟩
      simp only [workerFault, String.append_assoc]
    · exact (accept_leads hrun hafter).congr rfl rfl
  cases answer with
  | ok outputs => exact (accept_leads h hafter).congr rfl rfl
  | error exc =>
    cases exc with
    | other exc =>
      obtain ⟨-, rfl⟩ := runs_ret.1 h
      exact steps_error _ _
    | rateLimit msg => exact hfailed h
    | contextOverflow msg => exact hfailed h

/-- **A step goes forward, or it ends the run at `terminal` or with a fault of its own.** -/
theorem step_leads {s : RunState} {trace : RunTrace} {res : StepResult}
    (h : Runs (reviewStep rt maxRetries s) trace res) (hlaw : ∀ ev ∈ trace, FollowsSpec ev) :
    Steps s res := by
  unfold reviewStep at h
  split at h
  · obtain ⟨-, rfl⟩ := runs_ret.1 h
    intro r fault hr hfault
    obtain rfl := Except.ok.inj hr
    cases hfault
  · exact inline_leads h hlaw
  · exact loop_leads h hlaw
  · exact worker_leads h hlaw

/-! ### Rounds -/

/-- The rounds that are left. -/
def RunState.remaining (s : RunState) : ℕ :=
  s.stateId.depth +
    if s.stateId = .dispatchSpecialists then maxIterations - currentIteration s.iterationN else 0

theorem RunState.remaining_pos (s : RunState) : 0 < s.remaining := by
  refine Nat.lt_of_lt_of_le ?_ (Nat.le_add_right _ _)
  cases s.stateId <;> decide

theorem Forward.remaining_lt {s s' : RunState} (h : Forward s s') : s'.remaining < s.remaining := by
  cases h with
  | along hleads hfresh =>
    refine Nat.lt_of_lt_of_le (Nat.lt_of_le_of_lt ?_ hleads.visit_lt) (Nat.le_add_right _ _)
    by_cases hstate : s'.stateId = .dispatchSpecialists
    · rw [RunState.remaining, StateId.visit, hfresh hstate]
      rfl
    · rw [RunState.remaining, if_neg hstate]
      exact Nat.le_add_right _ _
  | again hs hs' hn hnext hbound =>
    rw [RunState.remaining, RunState.remaining, hs, hs', hn, if_pos rfl, if_pos rfl,
      currentIteration_of_lt hnext]
    omega

/-- The states of the rounds. -/
def visited (steps : List (RunState × RunTrace)) : List StateId := steps.map (·.1.stateId)

/-- The first of two states is left for good, unless both are the loop. -/
def Before (state later : StateId) : Prop :=
  later.depth < state.depth ∨ (state = .dispatchSpecialists ∧ later = .dispatchSpecialists)

theorem Forward.before {s s' : RunState} (h : Forward s s') : Before s.stateId s'.stateId := by
  cases h with
  | along hleads _ => exact .inl hleads.depth_lt
  | again hs hs' => exact .inr ⟨hs, hs'⟩

theorem Before.trans {a b c : StateId} (hab : Before a b) (hbc : Before b c) : Before a c := by
  rcases hab with hab | ⟨rfl, rfl⟩
  · rcases hbc with hbc | ⟨rfl, rfl⟩
    · exact .inl (hbc.trans hab)
    · exact .inl hab
  · exact hbc

section

variable {rounds : ℕ} {s : RunState} {steps : List (RunState × RunTrace)} {outcome : Outcome}

/-- **A review never comes back to a state that it has left.** -/
theorem Rounds.forward (h : Rounds rt maxRetries rounds s steps outcome)
    (hlaw : ∀ st ∈ steps, ∀ ev ∈ st.2, FollowsSpec ev) :
    (visited steps).Pairwise Before ∧
      ∀ state ∈ visited steps, state = s.stateId ∨ Before s.stateId state := by
  induction h with
  | exhausted s => exact ⟨.nil, nofun⟩
  | @done rounds s trace outcome hstep =>
    refine ⟨List.pairwise_singleton _ _, fun state hstate => .inl ?_⟩
    exact List.mem_singleton.1 hstate
  | @next rounds s s' trace steps outcome hstep hrest ih =>
    obtain ⟨hpairwise, hfrom⟩ := ih fun st hst => hlaw st (List.mem_cons_of_mem _ hst)
    have hforward : Forward s s' := step_leads hstep (hlaw _ List.mem_cons_self)
    have hbefore (state : StateId) (hstate : state ∈ visited steps) : Before s.stateId state := by
      rcases hfrom state hstate with rfl | hlater
      · exact hforward.before
      · exact hforward.before.trans hlater
    refine ⟨List.pairwise_cons.2 ⟨hbefore, hpairwise⟩, fun state hstate => ?_⟩
    rcases List.mem_cons.1 hstate with rfl | hlater
    · exact .inl rfl
    · exact .inr (hbefore state hlater)

/-- The iterations that are left. -/
def RunState.loops (s : RunState) : ℕ :=
  if s.stateId = .dispatchSpecialists then maxIterations + 1 - currentIteration s.iterationN
  else if StateId.depth .dispatchSpecialists < s.stateId.depth then maxIterations
  else 0

/-- The iteration is one of the loop's. -/
def RunState.InLoop (s : RunState) : Prop :=
  s.stateId = .dispatchSpecialists → currentIteration s.iterationN ≤ maxIterations

theorem Forward.inLoop {s s' : RunState} (h : Forward s s') : s'.InLoop := by
  intro hstate
  cases h with
  | along _ hfresh =>
    rw [hfresh hstate]
    decide
  | again _ _ hn hnext hbound =>
    rw [hn, currentIteration_of_lt hnext]
    exact hbound

theorem RunState.loops_pos {s : RunState} (hstate : s.stateId = .dispatchSpecialists)
    (hs : s.InLoop) : 1 ≤ s.loops := by
  have hbound := hs hstate
  rw [RunState.loops, if_pos hstate]
  omega

/-- Every round of the loop uses an iteration up. -/
theorem Forward.loops_le {s s' : RunState} (h : Forward s s') (hs : s.InLoop) :
    s'.loops + (if s.stateId = .dispatchSpecialists then 1 else 0) ≤ s.loops := by
  cases h with
  | along hleads hfresh =>
    have hdepth := hleads.depth_lt
    by_cases hstate : s.stateId = .dispatchSpecialists
    · -- after the loop there is no way back to it
      have hnone : s'.loops = 0 := by
        rw [hstate] at hdepth
        have hne : s'.stateId ≠ .dispatchSpecialists := fun heq => by
          rw [heq] at hdepth
          exact absurd hdepth (lt_irrefl _)
        rw [RunState.loops, if_neg hne, if_neg hdepth.le.not_gt]
      rw [hnone, if_pos hstate]
      exact RunState.loops_pos hstate hs
    · rw [if_neg hstate, Nat.add_zero, RunState.loops, RunState.loops, if_neg hstate]
      by_cases hstate' : s'.stateId = .dispatchSpecialists
      · rw [if_pos hstate', hfresh hstate', if_pos (hstate' ▸ hdepth)]
        decide
      · rw [if_neg hstate']
        split_ifs <;> omega
  | again hs₁ hs' hn hnext hbound =>
    have hin := hs hs₁
    rw [RunState.loops, RunState.loops, if_pos hs₁, if_pos hs', if_pos hs₁, hn,
      currentIteration_of_lt hnext]
    omega

/-- A review runs the loop no more often than it has iterations left. -/
theorem Rounds.count_loop (h : Rounds rt maxRetries rounds s steps outcome)
    (hlaw : ∀ st ∈ steps, ∀ ev ∈ st.2, FollowsSpec ev) (hs : s.InLoop) :
    (visited steps).count .dispatchSpecialists ≤ s.loops := by
  induction h with
  | exhausted s => exact Nat.zero_le _
  | @done rounds s trace outcome hstep =>
    by_cases hstate : s.stateId = .dispatchSpecialists
    · exact List.count_le_length.trans (RunState.loops_pos hstate hs)
    · rw [visited, List.map_singleton, List.count_singleton, if_neg (by simpa using hstate)]
      exact Nat.zero_le _
  | @next rounds s s' trace steps outcome hstep hrest ih =>
    have hforward : Forward s s' := step_leads hstep (hlaw _ List.mem_cons_self)
    have hlater := ih (fun st hst => hlaw st (List.mem_cons_of_mem _ hst)) hforward.inLoop
    refine le_trans ?_ (hforward.loops_le hs)
    rw [visited, List.map_cons, List.count_cons]
    simp only [beq_iff_eq]
    exact Nat.add_le_add_right hlater _

/-- A run with enough rounds left does not use them up. -/
theorem Rounds.within (h : Rounds rt maxRetries rounds s steps outcome)
    (hlaw : ∀ st ∈ steps, ∀ ev ∈ st.2, FollowsSpec ev) (hrounds : s.remaining ≤ rounds) :
    steps.length ≤ s.remaining ∧
      ∀ r fault, outcome = .ok r → r.fault = some fault → StepFault fault := by
  induction h with
  | exhausted s =>
    exact absurd s.remaining_pos (by omega)
  | @done rounds s trace outcome hstep =>
    exact ⟨s.remaining_pos, step_leads hstep (hlaw _ List.mem_cons_self)⟩
  | @next rounds s s' trace steps outcome hstep hrest ih =>
    have hforward : Forward s s' := step_leads hstep (hlaw _ List.mem_cons_self)
    have hless := hforward.remaining_lt
    obtain ⟨hlength, hfault⟩ := ih (fun st hst => hlaw st (List.mem_cons_of_mem _ hst)) (by omega)
    exact ⟨by rw [List.length_cons]; omega, hfault⟩

end

/-- The step limit is not a fault of a step. -/
theorem not_stepFault_maxSteps : ¬ StepFault "max_steps_exceeded" := by
  have hhead (name rest : String) (hname : name.toList.head? ≠ some 'm' ∧ name.toList ≠ []) :
      "max_steps_exceeded" ≠ name ++ rest := by
    intro heq
    have hlist := congrArg (fun s => s.toList.head?) heq
    rw [String.toList_append, List.head?_append_of_ne_nil _ hname.2] at hlist
    exact hname.1 hlist.symm
  rintro ⟨rest, h | h | h⟩
  · exact hhead _ _ (by decide) h
  · exact hhead _ _ (by decide) h
  · exact hhead _ _ (by decide) h

/-- **A review ends within 79 rounds, never because of the step limit; it runs every state at most
once, but for the loop, which it runs at most 64 times.** -/
theorem review_within_budget {retries : ℤ} {args : Dict} {trace : RunTrace} {outcome : Outcome}
    (h : Runs (runReview rt retries args) trace outcome) (hlaw : ∀ ev ∈ trace, FollowsSpec ev) :
    ∃ steps, Rounds rt retries.toNat maxSteps (.start args) steps outcome ∧
      trace = steps.flatMap Prod.snd ∧ steps.length ≤ 79 ∧
      (∀ r, outcome = .ok r → r.fault ≠ some "max_steps_exceeded") ∧
      ((visited steps).filter (· ≠ .dispatchSpecialists)).Nodup ∧
      (visited steps).count .dispatchSpecialists ≤ maxIterations := by
  obtain ⟨steps, hsteps, rfl⟩ := runs_review.1 h
  have hlaw' : ∀ st ∈ steps, ∀ ev ∈ st.2, FollowsSpec ev := fun st hst ev hev =>
    hlaw ev (List.mem_flatMap.2 ⟨st, hst, hev⟩)
  have hstart : (RunState.start args).remaining = 79 := rfl
  obtain ⟨hlength, hfault⟩ := hsteps.within hlaw' (by rw [hstart]; decide)
  refine ⟨steps, hsteps, rfl, hlength, fun r hr hexceeded => ?_, ?_, ?_⟩
  · exact not_stepFault_maxSteps (hfault r _ hr hexceeded)
  · -- two visits of one state are two of the loop
    refine List.Pairwise.imp_of_mem (fun {a b} ha hb hbefore => ?_)
      ((hsteps.forward hlaw').1.filter _)
    rcases hbefore with hless | ⟨rfl, -⟩
    · rintro rfl
      exact absurd hless (lt_irrefl _)
    · exact absurd (List.mem_filter.1 ha).2 (by decide)
  · refine (hsteps.count_loop hlaw' fun hstate => ?_).trans_eq rfl
    cases hstate

/-- The engine of the plain reviews follows the specification. -/
theorem plainReview_follows (worker : StateId → Dict) (e : RunEffect) :
    FollowsSpec ⟨e, plainReview worker e⟩ := by
  cases e with
  | advance state iterationN env outputs =>
    simp only [plainReview]
    split
    · rename_i target htarget
      exact exists_transition htarget
    · trivial
  | _ => trivial

theorem plainRun_answers {worker : StateId → Dict} {ev : Event RunEffect RunReply}
    (h : ev ∈ (plainRun worker).1) : ev.2 = plainReview worker ev.1 := by
  simpa using exec_answers (plainReview worker) [] _ _ h

theorem plainRun_follows (worker : StateId → Dict) :
    ∀ ev ∈ (plainRun worker).1, FollowsSpec ev := by
  rintro ⟨e, reply⟩ hev
  obtain rfl : reply = plainReview worker e := plainRun_answers hev
  exact plainReview_follows worker e

theorem review_within_budget_oneCandidate :
    ∃ steps, Rounds .ascii 0 maxSteps (.start []) steps (plainRun (routedBy oneCandidate)).2 ∧
      steps.length ≤ 79 := by
  obtain ⟨steps, hsteps, -, hlength, -⟩ :=
    review_within_budget (plainRun_runs (routedBy oneCandidate)) (plainRun_follows _)
  exact ⟨steps, hsteps, hlength⟩

end CodeReview
