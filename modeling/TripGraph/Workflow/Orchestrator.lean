import TripGraph.Plan.Soundness
import TripGraph.Workflow.Budget

/-! # Plan-driven orchestration

A plan is created, executed and judged, and replaced and executed again as long as the critic
asks for it and the controller applies a replacement. Requests that share an orchestrator share
the counter of its controller.
-/

namespace TripGraph

open Interaction

/-- What an orchestrated request answers. The plans of the history are live objects, which later
turns change under it, so a result is kept without its plan. -/
structure PlanExecuteResponse where
  sessionId : String
  plan : Plan
  executionTrace : List ExecutionTraceEntry
  finalResult : String
  stateSummary : PlanStateSummary
  executionCritique : Option ExecutionCritique
  replanHistory : List ReplanReport
deriving DecidableEq

namespace PlanOrchestrator

/-- `_build_execution_trace`: without a trace each step is reported from its result. -/
def buildExecutionTrace (state : PlanState) : Except RaisedError (List ExecutionTraceEntry) :=
  if state.executionTrace ≠ [] then .ok state.executionTrace
  else (sortById state.plan.steps).mapM fun step => do
    let status ← state.getStepStatus step.id
    pure (match state.stepResults.get? step.id with
      | some result =>
          { stepId := step.id, task := step.task, status := status, toolName := result.toolName,
            success := some (decide (result.status = .completed)), error := result.error,
            attempt := result.attempt, recoveryAction := result.recoveryAction }
      | none =>
          { stepId := step.id, task := step.task, status := status, toolName := step.toolHint })

/-- Where the loop ends. -/
structure Settled where
  state : PlanState
  critique : Option ExecutionCritique
  history : List ReplanReport
deriving DecidableEq

variable (deps : RuntimeDependencies)

/-- Execute the plan of the state. -/
def execute (state : PlanState) : Runtime PlanState :=
  (PlanExecutor.execute deps.executor deps.planLoopFuel state.plan state).mapError Raised.error

/-- The loop of `run`; `none` where it takes more turns than these. -/
def turns : Nat → PlanState → List ReplanReport → Runtime (Option Settled)
  | 0, _, _ => pure none
  | fuel + 1, state, history =>
      if deps.criticEnabled then do
        let answer ← ask (.evaluate state (deps.synthesizeFinalResult state.plan state))
        let critique ← Program.ofExcept answer
        if critique.needReplan then do
          let outcome ← ReplanningController.handle deps.registry deps.replanning critique state
          if outcome.result.replanned then do
            let executed ← execute deps outcome.updatedState
            turns fuel executed (history ++ [outcome.result.toReplanReport])
          else
            -- a refused or failed replan has still been recorded in the state
            pure (some
              ⟨outcome.updatedState, some critique, history ++ [outcome.result.toReplanReport]⟩)
        else pure (some ⟨state, some critique, history⟩)
      else pure (some ⟨state, none, history⟩)

/-- The state a plan is first executed in. -/
def begin (plan : Plan) (userQuery sessionId : String) : PlanState :=
  let fresh := PlanState.fromPlan plan sessionId
  { fresh with globalContext := { fresh.globalContext with
    misc := fresh.globalContext.misc.update
      (.ofList (deps.enrichContextFromQuery userQuery)) } }

/-- The response to a request, from where its loop has ended. -/
def respond (sessionId : String) (settled : Settled) : Except RaisedError PlanExecuteResponse := do
  let state := settled.state
  let trace ← buildExecutionTrace state
  pure
    { sessionId := sessionId
      plan := state.plan
      executionTrace := trace
      finalResult := deps.synthesizeFinalResult state.plan state
      stateSummary := state.summary
      executionCritique := settled.critique
      replanHistory := settled.history }

/-- `PlanOrchestrator.run`; `none` where its loop takes more turns than these. -/
def run (fuel : Nat) (userQuery sessionId : String) : Runtime (Option PlanExecuteResponse) := do
  let answer ← ask (.createPlan userQuery)
  let plan ← Program.ofExcept answer
  Program.ofExcept (PlanValidator.assertValid deps.registry plan)
  let executed ← execute deps (begin deps plan userQuery sessionId)
  let ended ← turns deps fuel executed []
  match ended with
  | none => pure none
  | some settled => some <$> Program.ofExcept (respond deps sessionId settled)

/-! ## Only valid plans are run -/

variable {deps}

theorem assertValid_ok {registry : List String} {plan : Plan}
    (h : PlanValidator.assertValid registry plan = .ok ()) : plan.WellFormed registry := by
  unfold PlanValidator.assertValid at h
  dsimp only at h
  split at h
  next hsuccess => exact PlanValidator.wellFormed_of_validate hsuccess
  next => cases h

/-- The last replan of a history has failed its validation. -/
def FailedLast (history : List ReplanReport) : Prop :=
  ∃ result, history.getLast? = some result ∧ result.replanned = false ∧
    result.skippedReason = some "replan_validation_failed"

theorem respond_ok {sessionId : String} {settled : Settled} {response : PlanExecuteResponse}
    (h : respond deps sessionId settled = .ok response) :
    response.plan = settled.state.plan ∧ response.executionCritique = settled.critique ∧
      response.replanHistory = settled.history ∧
      response.finalResult = deps.synthesizeFinalResult settled.state.plan settled.state := by
  unfold respond at h
  dsimp only at h
  cases htrace : buildExecutionTrace settled.state with
  | ok trace =>
      rw [htrace] at h
      cases h
      exact ⟨rfl, rfl, rfl, rfl⟩
  | error error =>
      rw [htrace] at h
      cases h

section Sound

variable (hregistry : deps.executor.registry = deps.registry)
  (hvalidates : deps.executor.failurePolicy = .replan →
    deps.executor.validatorConfigured = true)
include hregistry hvalidates

theorem sound_execute {state : PlanState} (h : state.plan.WellFormed deps.registry) :
    Program.Respects (S := runtimeSig) (Op.Sound deps.registry)
      (fun after => after.plan.WellFormed deps.registry) (execute deps state) := by
  have hown : PlanExecutor.Accepted deps.executor state := by
    unfold PlanExecutor.Accepted
    rwa [hregistry]
  have hsound : Program.Respects (S := runtimeSig) (Op.Sound deps.executor.registry)
      (PlanExecutor.Accepted deps.executor) (execute deps state) :=
    (PlanExecutor.sound_execute hvalidates hown).mapError
  rw [hregistry] at hsound
  refine hsound.mono (fun _ h => h) fun after hafter => ?_
  exact hregistry ▸ hafter

theorem sound_turns {fuel : Nat} {state : PlanState} {history : List ReplanReport}
    (h : state.plan.WellFormed deps.registry) :
    Program.Respects (S := runtimeSig) (Op.Sound deps.registry)
      (fun ended => ∀ settled, ended = some settled →
        settled.state.plan.WellFormed deps.registry ∨ FailedLast settled.history)
      (turns deps fuel state history) := by
  induction fuel generalizing state history with
  | zero => exact fun _ hnone => by cases hnone
  | succ fuel ih =>
      have hstays : ∀ critique, ∀ settled : Settled,
          some (⟨state, critique, history⟩ : Settled) = some settled →
          settled.state.plan.WellFormed deps.registry ∨ FailedLast settled.history := by
        rintro critique settled heq
        exact Or.inl (Option.some.inj heq ▸ h)
      rw [turns]
      split
      · apply respects_asking trivial
        intro answer
        refine Program.Respects.bind (Q := fun _ => True) (by simp) fun critique _ => ?_
        split
        · apply (ReplanningController.sound_handle h).bind
          intro outcome houtcome
          split
          next hreplanned =>
            have hplan : outcome.updatedState.plan.WellFormed deps.registry := by
              rcases houtcome with hplan | ⟨hnot, -⟩
              · exact hplan
              · rw [hnot] at hreplanned
                cases hreplanned
            apply (sound_execute hregistry hvalidates hplan).bind
            intro executed hexecuted
            exact ih hexecuted
          next =>
            rintro settled heq
            obtain rfl := Option.some.inj heq
            apply houtcome.imp_right
            rintro ⟨hnot, hfailed⟩
            exact ⟨outcome.result.toReplanReport, List.getLast?_concat, hnot, hfailed⟩
        · exact hstays _
      · exact hstays _

/-- Whatever the planner, the critic and the tools answer, only plans that the validator accepts
are run and only registered tools are called; and the plan that is returned is accepted too,
unless the last replan has failed its validation. -/
theorem run_sound {fuel : Nat} {userQuery sessionId : String} {trace : List Event}
    {result : Except RaisedError (Option PlanExecuteResponse)}
    (hrun : Runs (run deps fuel userQuery sessionId) trace result) :
    (∀ event ∈ trace, event.op.Sound deps.registry) ∧
      ∀ response, result = .ok (some response) →
        (PlanValidator.validate deps.registry response.plan).success = true ∨
          FailedLast response.replanHistory := by
  have hrespects : Program.Respects (S := runtimeSig) (Op.Sound deps.registry)
      (fun answered => ∀ response, answered = some response →
        (PlanValidator.validate deps.registry response.plan).success = true ∨
          FailedLast response.replanHistory) (run deps fuel userQuery sessionId) := by
    apply respects_asking trivial
    intro answer
    refine Program.Respects.bind (Q := fun _ => True) (by simp) fun plan _ => ?_
    refine Program.Respects.bind (Q := fun _ => plan.WellFormed deps.registry)
      (Program.respects_ofExcept_iff.mpr fun _ hassert => assertValid_ok hassert) fun _ hplan => ?_
    apply (sound_execute hregistry hvalidates
      (show (begin deps plan userQuery sessionId).plan.WellFormed deps.registry from hplan)).bind
    intro executed hexecuted
    apply (sound_turns hregistry hvalidates hexecuted).bind
    intro ended hended
    cases ended with
    | none => exact fun _ hnone => by cases hnone
    | some settled =>
        refine Program.Respects.bind
          (Q := fun response => respond deps sessionId settled = .ok response)
          (Program.respects_ofExcept_iff.mpr fun _ hrespond => hrespond) fun response hrespond => ?_
        obtain ⟨hplan, -, hhistory, -⟩ := respond_ok hrespond
        rintro other heq
        obtain rfl := Option.some.inj heq
        rw [hhistory, PlanValidator.validate_success_iff, hplan]
        exact hended settled rfl
  obtain ⟨hasks, hreturns⟩ := hrespects.of_runs hrun
  constructor
  · exact hasks
  · intro response hresult
    exact hreturns _ hresult response rfl

end Sound

/-- A runtime whose critic is never content. -/
def demandingDependencies : RuntimeDependencies :=
  { plainDependencies .replan ["weather", "map"] {} with planLoopFuel := 3 }

/-- A planner that knows one more step, and a critic that is never content. -/
def demandingComponents : Components where
  createPlan _ := .ok weatherPlan
  evaluate _ _ := .ok ⟨0, "", true, false, []⟩
  replanFromCritique _ _ _ := .ok [⟨1, "查询上海地图", some "map", none⟩]

def demandingRequest : Outcome runtimeSig RaisedError (Option PlanExecuteResponse)
    (SharedObjects × Unit) :=
  demandingComponents.exec {} (run demandingDependencies 3 "上海" "default")

theorem run_sound_demandingRequest :
    (∀ event ∈ demandingRequest.trace, event.op.Sound ["weather", "map"]) ∧
      ∃ response, demandingRequest.result = .ok (some response) ∧
        ((PlanValidator.validate ["weather", "map"] response.plan).success = true ∨
          FailedLast response.replanHistory) := by
  have hrun := (demandingComponents.runs_exec {} (run demandingDependencies 3 "上海" "default")).1
  obtain ⟨hsound, hvalid⟩ := @run_sound demandingDependencies rfl (fun _ => rfl) _ _ _ _ _ hrun
  refine ⟨hsound, ?_⟩
  have hanswered : (demandingRequest.result.map Option.isSome) = .ok true := by decide +kernel
  cases hresult : demandingRequest.result with
  | error error =>
      rw [hresult] at hanswered
      cases hanswered
  | ok answered =>
      cases answered with
      | none =>
          rw [hresult] at hanswered
          cases hanswered
      | some response => exact ⟨response, rfl, hvalid response hresult⟩

/-! ## Executions in a trace -/

/-- The operation starts the execution of a plan. -/
def startsPlan : Op → Bool
  | .newPlanGraph .. => true
  | _ => false

/-- The operation neither starts a plan nor concerns the counter of the controller. -/
def Aside (op : Op) : Prop := startsPlan op = false ∧ op.uncounted = true

/-- How many plans a trace starts to execute. -/
def executions (trace : List Event) : Nat := trace.countP fun event => startsPlan event.op

@[simp] theorem executions_append (first second : List Event) :
    executions (first ++ second) = executions first + executions second := List.countP_append

theorem executions_eq_zero {trace : List Event} (h : ∀ event ∈ trace, startsPlan event.op = false) :
    executions trace = 0 := by
  apply List.countP_eq_zero.mpr
  intro event hmem
  simp [h event hmem]

theorem executions_evaluate {state : PlanState} {text : String}
    {reply : Except RaisedError ExecutionCritique} (trace : List Event) :
    executions (⟨.evaluate state text, reply⟩ :: trace) = executions trace :=
  List.countP_cons_of_neg Bool.false_ne_true

theorem aside_of_mayAsk {config : ExecutorConfig} {op : Op}
    (h : PlanExecutor.mayAsk config op = true) : Aside op := by
  cases op <;> simp [PlanExecutor.mayAsk, PlanExecutor.mayCall, PlanExecutor.mayReplan] at h <;>
    exact ⟨rfl, rfl⟩

theorem aside_orRaise {α : Type} (state : PlanState) (value : Except RaisedError α) :
    Program.Asks Aside (orRaise state value) := by
  cases value <;> trivial

theorem aside_syncGraph (state : PlanState) :
    Program.Asks Aside (PlanExecutor.syncGraph state) :=
  respects_asking ⟨rfl, rfl⟩ fun _ => aside_orRaise _ _

theorem aside_executeLoop {config : ExecutorConfig} (fuel : Nat) (state : PlanState) :
    Program.Asks Aside (PlanExecutor.executeLoop config fuel state) := by
  induction fuel generalizing state with
  | zero => trivial
  | succ fuel ih =>
      rw [PlanExecutor.executeLoop]
      apply (aside_orRaise _ _).bind
      intro finished _
      split
      · trivial
      apply (aside_orRaise _ _).bind
      intro next _
      split
      · apply (aside_orRaise _ _).bind
        intro unfinished _
        split <;> trivial
      · apply (aside_orRaise _ _).bind
        intro step _
        apply Program.Respects.bind (Q := fun _ => True)
        · exact (PlanExecutor.within_runStepWithRecovery _ _).mono
            (fun _ h => aside_of_mayAsk h) fun _ _ => trivial
        · intro after _
          exact (aside_syncGraph after).bind fun _ _ => ih after

/-- Executing a plan starts one plan and leaves the counter of the controller alone. -/
theorem runs_execute {state : PlanState} {trace : List Event}
    {result : Except RaisedError PlanState} (h : Runs (execute deps state) trace result) :
    executions trace = 1 ∧ ∀ event ∈ trace, event.op.uncounted = true := by
  obtain ⟨own, hrun, -⟩ := runs_mapError_iff.mp h
  obtain ⟨reply, rest, rfl, hrest⟩ := runs_asking_iff.mp hrun
  have haside : ∀ event ∈ rest, Aside event.op := by
    have hasks : Program.Asks (S := runtimeSig) Aside (do
        PlanExecutor.syncGraph state
        let ended ← PlanExecutor.executeLoop deps.executor deps.planLoopFuel state
        PlanExecutor.syncGraph { ended with currentStep := none }
        pure { ended with currentStep := none } : Execution PlanState) :=
      (aside_syncGraph _).bind fun _ _ => (aside_executeLoop _ _).bind fun _ _ =>
        (aside_syncGraph _).bind fun _ _ => trivial
    exact hasks.asks_of_runs hrest
  constructor
  · have hzero := executions_eq_zero fun event hmem => (haside event hmem).1
    simpa [executions, startsPlan] using hzero
  · exact List.forall_mem_cons.mpr ⟨rfl, fun event hmem => (haside event hmem).2⟩

/-! ## What a handled critique counts -/

/-- The operation asks the planner for replacement steps. -/
def asksPlanner : Op → Bool
  | .replanFromCritique .. | .rulebasedReplanFromCritique .. => true
  | _ => false

theorem aside_of_asksPlanner {op : Op} (h : asksPlanner op = true) : Aside op := by
  cases op <;> first | exact ⟨rfl, rfl⟩ | cases h

theorem attempted_resultOf (attempt : ReplanningController.Attempt) (reason : String) (used : Nat) :
    (ReplanningController.resultOf attempt reason used).attempted = true := by
  cases happlied : attempt.applied <;>
    simp [ReplanReport.attempted, ReplanningController.resultOf, happlied]

theorem runs_replan {registry : List String} {critique : ExecutionCritique} {state : PlanState}
    {trace : List Event} {outcome : ReplanningOutcome}
    (h : Runs (ReplanningController.replan registry critique state) trace (.ok outcome)) :
    outcome.result.attempted = true ∧ ∃ calls,
      trace = ⟨.countAttempt, ()⟩ :: (calls ++ [⟨.attemptsUsed, outcome.result.replanAttempt⟩]) ∧
      ∀ event ∈ calls, asksPlanner event.op = true := by
  obtain ⟨_, _, rfl, h₁⟩ := runs_asking_iff.mp h
  obtain ⟨anchorStepId, _, _, hanchor, h₂, rfl⟩ := runs_bind_ok_iff.mp h₁
  obtain ⟨rfl, -⟩ := runs_ofExcept_iff.mp hanchor
  obtain ⟨answer, _, rfl, h₃⟩ := runs_asking_iff.mp h₂
  obtain ⟨newSteps, _, _, hsteps, h₄, rfl⟩ := runs_bind_ok_iff.mp h₃
  obtain ⟨rfl, -⟩ := runs_ofExcept_iff.mp hsteps
  dsimp only at h₄
  split at h₄
  · obtain ⟨used, _, rfl, hpure⟩ := runs_asking_iff.mp h₄
    obtain ⟨rfl, houtcome⟩ := runs_pure_iff.mp hpure
    obtain rfl := Except.ok.inj houtcome
    exact ⟨attempted_resultOf _ _ _, [⟨_, answer⟩], rfl, by simp [asksPlanner]⟩
  · obtain ⟨reply, _, rfl, h₅⟩ := runs_asking_iff.mp h₄
    obtain ⟨_, _, _, hmore, h₆, rfl⟩ := runs_bind_ok_iff.mp h₅
    obtain ⟨rfl, -⟩ := runs_ofExcept_iff.mp hmore
    obtain ⟨used, _, rfl, hpure⟩ := runs_asking_iff.mp h₆
    obtain ⟨rfl, houtcome⟩ := runs_pure_iff.mp hpure
    obtain rfl := Except.ok.inj houtcome
    exact ⟨attempted_resultOf _ _ _, [⟨_, answer⟩, ⟨_, reply⟩], rfl, by simp [asksPlanner]⟩

theorem runs_noReplan {state : PlanState} {reason : String} {trace : List Event}
    {outcome : ReplanningOutcome} (hreason : reason ≠ "replan_validation_failed")
    (h : Runs (ReplanningController.noReplan state reason) trace (.ok outcome)) :
    outcome.result.attempted = false ∧ outcome.result.replanned = false ∧
      ∃ used, trace = [⟨.attemptsUsed, used⟩] := by
  obtain ⟨used, rest, rfl, hpure⟩ := runs_asking_iff.mp h
  obtain ⟨rfl, houtcome⟩ := runs_pure_iff.mp hpure
  obtain rfl := Except.ok.inj houtcome
  exact ⟨by simp [ReplanReport.attempted, hreason], rfl, used, rfl⟩

/-- What handling a critique does to the counter of the controller, which goes from one value to
another, and how its result is numbered. -/
inductive Tally (maxReplanAttempts : Nat) (others : Bool) (count next : Nat)
    (result : ReplanReport) : Prop
  | skipped (attempted : result.attempted = false) (replanned : result.replanned = false)
      (grows : count ≤ next) (alone : others = false → next = count)
  | tried (attempted : result.attempted = true) (left : count < maxReplanAttempts)
      (later : count < result.replanAttempt) (grows : result.replanAttempt ≤ next)
      (alone : others = false → result.replanAttempt = count + 1 ∧ next = count + 1)

open AgentWorkflowBuilder in
theorem tally_handle {registry : List String} {config : ReplanningConfig}
    {critique : ExecutionCritique} {state : PlanState} {trace : List Event}
    {outcome : ReplanningOutcome} {others : Bool} {count next : Nat}
    (h : Runs (ReplanningController.handle registry config critique state) trace (.ok outcome))
    (hfollows : Follows (CounterStep others) count trace next) :
    executions trace = 0 ∧
      Tally config.maxReplanAttempts others count next outcome.result.toReplanReport := by
  have hskipped : ∀ {reason count own}, reason ≠ "replan_validation_failed" →
      Runs (ReplanningController.noReplan state reason) own (.ok outcome) →
      Follows (CounterStep others) count own next →
      executions own = 0 ∧
        Tally config.maxReplanAttempts others count next outcome.result.toReplanReport := by
    intro reason count own hreason hrun hfollows
    obtain ⟨hattempted, hreplanned, used, rfl⟩ := runs_noReplan hreason hrun
    obtain ⟨hseen, halone, hnil⟩ := counter_of_attemptsUsed hfollows
    obtain rfl := Follows.nil_iff.mp hnil
    exact ⟨rfl, .skipped hattempted hreplanned hseen halone⟩
  unfold ReplanningController.handle at h
  split at h
  · exact hskipped (by decide) h hfollows
  split at h
  · exact hskipped (by decide) h hfollows
  obtain ⟨used, rest, rfl, hrest⟩ := runs_asking_iff.mp h
  obtain ⟨hseen, halone, hbehind⟩ := counter_of_attemptsUsed hfollows
  split at hrest
  next =>
    have hreason : s!"max_replan_attempts={config.maxReplanAttempts}" ≠
        "replan_validation_failed" := by
      intro heq
      have hhead : ("max_replan_attempts=" ++ toString config.maxReplanAttempts).toList.head? =
          some 'r' := by
        rw [show "max_replan_attempts=" ++ toString config.maxReplanAttempts =
          "replan_validation_failed" from heq]
        decide
      simp at hhead
    obtain ⟨hzero, htally⟩ := hskipped hreason hrest hbehind
    refine ⟨hzero, ?_⟩
    cases htally with
    | skipped hattempted hreplanned hgrows hsame =>
        exact .skipped hattempted hreplanned (hseen.trans hgrows)
          fun hothers => (hsame hothers).trans (halone hothers)
    | tried hattempted =>
        obtain ⟨hnot, -⟩ := runs_noReplan hreason hrest
        rw [hnot] at hattempted
        cases hattempted
  next hleft =>
    replace hleft : config.maxReplanAttempts > used := Nat.lt_of_not_le hleft
    obtain ⟨hattempted, calls, rfl, hcalls⟩ := runs_replan hrest
    obtain ⟨raised, ⟨middle, hmiddle, hmiddle', rfl⟩, hcalled⟩ := Follows.cons_iff.mp hbehind
    obtain ⟨asked, hasked, hlast⟩ := Follows.append_iff.mp hcalled
    obtain ⟨hgrows, hsame⟩ := counter_of_uncounted
      (fun event hmem => (aside_of_asksPlanner (hcalls event hmem)).2) hasked
    obtain ⟨hread, hread', hnil⟩ := counter_of_attemptsUsed hlast
    obtain rfl := Follows.nil_iff.mp hnil
    constructor
    · have hzero := executions_eq_zero fun event hmem =>
        (aside_of_asksPlanner (hcalls event hmem)).1
      simpa [executions, startsPlan] using hzero
    · refine .tried hattempted (by omega) (by omega) le_rfl fun hothers => ?_
      have h₁ := halone hothers
      have h₂ := hmiddle' hothers
      have h₃ := hsame hothers
      have h₄ := hread' hothers
      omega

/-! ## Turns within the budget -/

/-- The numbers of the attempts in a history. -/
def numbers (history : List ReplanReport) : List Nat :=
  (history.filter ReplanReport.attempted).map ReplanReport.replanAttempt

theorem numbers_cons_of_attempted {result : ReplanReport} (h : result.attempted = true)
    (history : List ReplanReport) :
    numbers (result :: history) = result.replanAttempt :: numbers history := by
  simp [numbers, h]

theorem numbers_singleton_of_skipped {result : ReplanReport} (h : result.attempted = false) :
    numbers [result] = [] := by
  simp [numbers, h]

/-- The attempts are numbered by a counter that starts at this value, each in its turn, and there
are no more of them than the budget leaves. -/
structure Numbered (maxReplanAttempts : Nat) (others : Bool) (count : Nat)
    (history : List ReplanReport) : Prop where
  increasing : (numbers history).Pairwise (· < ·)
  later : ∀ number ∈ numbers history, count < number
  alone : others = false → numbers history = List.range' (count + 1) (numbers history).length
  budget : (numbers history).length ≤ maxReplanAttempts - count

section Numbered

variable {maxReplanAttempts count next : Nat} {others : Bool} {result : ReplanReport}
  {history : List ReplanReport}

theorem numbered_of_none (h : numbers history = []) :
    Numbered maxReplanAttempts others count history := by
  refine ⟨?_, ?_, fun _ => ?_, ?_⟩ <;> simp [h]

/-- Attempts that are numbered from a later value of the counter. -/
theorem Numbered.of_later (h : Numbered maxReplanAttempts others next history)
    (hle : count ≤ next) (halone : others = false → next = count) :
    Numbered maxReplanAttempts others count history where
  increasing := h.increasing
  later number hmem := lt_of_le_of_lt hle (h.later number hmem)
  alone hothers := halone hothers ▸ h.alone hothers
  budget := h.budget.trans (by omega)

/-- A counted attempt in front of attempts that are numbered from where it leaves the counter. -/
theorem Numbered.cons (h : Tally maxReplanAttempts others count next result)
    (hattempted : result.attempted = true)
    (hrest : Numbered maxReplanAttempts others next history) :
    Numbered maxReplanAttempts others count (result :: history) := by
  cases h with
  | skipped hnot =>
      rw [hnot] at hattempted
      cases hattempted
  | tried _ hleft hlater hgrows halone =>
      have hnumbers := numbers_cons_of_attempted hattempted history
      refine ⟨?_, ?_, fun hothers => ?_, ?_⟩
      · rw [hnumbers]
        exact List.pairwise_cons.mpr
          ⟨fun number hmem => lt_of_le_of_lt hgrows (hrest.later number hmem), hrest.increasing⟩
      · rw [hnumbers]
        refine List.forall_mem_cons.mpr ⟨hlater, fun number hmem => ?_⟩
        have := hrest.later number hmem
        omega
      · obtain ⟨hown, hnext⟩ := halone hothers
        have htail := hrest.alone hothers
        rw [hnext] at htail
        rw [hnumbers, List.length_cons, List.range'_succ, ← htail, hown]
      · have := hrest.budget
        rw [hnumbers, List.length_cons]
        omega

end Numbered

/-- The turns of a request: every critique that asks for a replan gets one result, and every
result but the last is an applied replan, which is executed. -/
structure Turned (criticEnabled : Bool) (critique : Option ExecutionCritique)
    (history : List ReplanReport) (executed : Nat) : Prop where
  critic : critique.isSome = criticEnabled
  turns : ∃ applied, ∃ last : Option ReplanReport, history = applied ++ last.toList ∧
    (∀ result ∈ applied, result.replanned = true) ∧
    (∀ result ∈ last, result.replanned = false) ∧ executed = applied.length ∧
    (last.isSome = true ↔ ∃ own, critique = some own ∧ own.needReplan = true)

theorem Turned.cons {criticEnabled : Bool} {critique : Option ExecutionCritique}
    {result : ReplanReport} {history : List ReplanReport} {executed : Nat}
    (hreplanned : result.replanned = true) (h : Turned criticEnabled critique history executed) :
    Turned criticEnabled critique (result :: history) (executed + 1) := by
  obtain ⟨hcritic, applied, last, rfl, happlied, hlast, rfl, hasked⟩ := h
  exact ⟨hcritic, result :: applied, last, rfl, List.forall_mem_cons.mpr ⟨hreplanned, happlied⟩,
    hlast, rfl, hasked⟩

open AgentWorkflowBuilder in
theorem runs_turns {fuel : Nat} {state : PlanState} {history : List ReplanReport}
    {trace : List Event} {ended : Option Settled} {others : Bool} {count next : Nat}
    (hfuel : deps.replanning.maxReplanAttempts - count < fuel)
    (h : Runs (turns deps fuel state history) trace (.ok ended))
    (hfollows : Follows (CounterStep others) count trace next) :
    ∃ settled added, ended = some settled ∧ settled.history = history ++ added ∧
      Turned deps.criticEnabled settled.critique added (executions trace) ∧
      Numbered deps.replanning.maxReplanAttempts others count added := by
  -- induction on the turns left; what the counter has grown by pays for each of them
  induction fuel generalizing state history trace count with
  | zero => omega
  | succ fuel ih =>
      rw [turns] at h
      split at h
      next henabled =>
        obtain ⟨answer, rest, rfl, hrest⟩ := runs_asking_iff.mp h
        obtain ⟨judged, ⟨raised, hraised, hraised', rfl⟩, hbehind⟩ := Follows.cons_iff.mp hfollows
        obtain ⟨critique, first, behind, hcritique, hturn, rfl⟩ := runs_bind_ok_iff.mp hrest
        obtain ⟨rfl, -⟩ := runs_ofExcept_iff.mp hcritique
        rw [List.nil_append] at hbehind ⊢
        split at hturn
        next hneed =>
          obtain ⟨outcome, handling, later, hhandle, hafter, rfl⟩ := runs_bind_ok_iff.mp hturn
          obtain ⟨handled, hhandling, hlater⟩ := Follows.append_iff.mp hbehind
          obtain ⟨hzero, htally⟩ := tally_handle hhandle hhandling
          split at hafter
          next hreplanned =>
            have hattempted : outcome.result.attempted = true := by
              cases htally with
              | skipped _ hnot =>
                  rw [hnot] at hreplanned
                  cases hreplanned
              | tried hattempted => exact hattempted
            have hspent : judged < deps.replanning.maxReplanAttempts ∧ judged < handled := by
              cases htally with
              | skipped hnot =>
                  rw [hnot] at hattempted
                  cases hattempted
              | tried _ hleft hfirst hgrows => exact ⟨hleft, lt_of_lt_of_le hfirst hgrows⟩
            obtain ⟨executed, running, remaining, hexecute, hturns, rfl⟩ :=
              runs_bind_ok_iff.mp hafter
            obtain ⟨hone, huncounted⟩ := runs_execute hexecute
            obtain ⟨ran, hrunning, hremaining⟩ := Follows.append_iff.mp hlater
            obtain ⟨hran, hran'⟩ := counter_of_uncounted huncounted hrunning
            obtain ⟨settled, added, rfl, hhistory, hturned, hnumbered⟩ :=
              ih (by omega) hturns hremaining
            refine ⟨settled, outcome.result.toReplanReport :: added, rfl, ?_, ?_, ?_⟩
            · rw [hhistory, List.append_assoc, List.singleton_append]
            · rw [executions_evaluate, executions_append, executions_append, hzero, hone,
                Nat.zero_add, Nat.add_comm]
              exact hturned.cons hreplanned
            · exact (Numbered.cons htally hattempted (hnumbered.of_later hran hran')).of_later
                hraised hraised'
          next hnot =>
            obtain ⟨rfl, hended⟩ := runs_pure_iff.mp hafter
            obtain rfl := Except.ok.inj hended
            refine ⟨_, [outcome.result.toReplanReport], rfl, rfl,
              ⟨by simp [henabled], [], some outcome.result.toReplanReport, rfl, ?_, ?_, ?_, ?_⟩, ?_⟩
            · simp
            · simpa using hnot
            · rw [List.append_nil, executions_evaluate, hzero]
              rfl
            · simp [hneed]
            · cases hattempted : outcome.result.attempted with
              | true =>
                  exact (Numbered.cons htally hattempted (numbered_of_none rfl)).of_later hraised
                    hraised'
              | false => exact numbered_of_none (numbers_singleton_of_skipped hattempted)
        next hneed =>
          obtain ⟨rfl, hended⟩ := runs_pure_iff.mp hturn
          obtain rfl := Except.ok.inj hended
          refine ⟨_, [], rfl, (List.append_nil _).symm, ⟨by simp [henabled], [], none, rfl, ?_, ?_,
            rfl, ?_⟩, numbered_of_none rfl⟩
          all_goals simp [hneed]
      next hdisabled =>
        obtain ⟨rfl, hended⟩ := runs_pure_iff.mp h
        obtain rfl := Except.ok.inj hended
        refine ⟨_, [], rfl, (List.append_nil _).symm, ⟨by simp [hdisabled], [], none, rfl, ?_, ?_,
          rfl, ?_⟩, numbered_of_none rfl⟩
        all_goals simp

/-- A request that shares the controller with others, however these interleave with it, executes
one plan and one more for each applied replan; its attempts are numbered in their order within
what is left of the budget; and as many turns as that are enough. -/
theorem run_within_budget {fuel : Nat} {userQuery sessionId : String} {trace : List Event}
    {answered : Option PlanExecuteResponse} {others : Bool} {count next : Nat}
    (hfuel : deps.replanning.maxReplanAttempts - count < fuel)
    (hrun : Runs (run deps fuel userQuery sessionId) trace (.ok answered))
    (hfollows : Follows (AgentWorkflowBuilder.CounterStep others) count trace next) :
    ∃ response executed, answered = some response ∧ executions trace = 1 + executed ∧
      Turned deps.criticEnabled response.executionCritique response.replanHistory executed ∧
      Numbered deps.replanning.maxReplanAttempts others count response.replanHistory := by
  obtain ⟨answer, rest, rfl, hrest⟩ := runs_asking_iff.mp hrun
  obtain ⟨planned, ⟨raised, hraised, hraised', rfl⟩, hbehind⟩ := Follows.cons_iff.mp hfollows
  obtain ⟨plan, first, behind, hplan, h₁, rfl⟩ := runs_bind_ok_iff.mp hrest
  obtain ⟨rfl, -⟩ := runs_ofExcept_iff.mp hplan
  obtain ⟨_, second, behind, hvalid, h₂, rfl⟩ := runs_bind_ok_iff.mp h₁
  obtain ⟨rfl, -⟩ := runs_ofExcept_iff.mp hvalid
  obtain ⟨executed, running, behind, hexecute, h₃, rfl⟩ := runs_bind_ok_iff.mp h₂
  obtain ⟨ended, turning, responding, hturns, hrespond, rfl⟩ := runs_bind_ok_iff.mp h₃
  obtain ⟨hone, huncounted⟩ := runs_execute hexecute
  rw [List.nil_append, List.nil_append] at hbehind ⊢
  obtain ⟨ran, hrunning, hlater⟩ := Follows.append_iff.mp hbehind
  obtain ⟨turned, hturning, -⟩ := Follows.append_iff.mp hlater
  obtain ⟨hran, hran'⟩ := AgentWorkflowBuilder.counter_of_uncounted huncounted hrunning
  obtain ⟨settled, added, rfl, hhistory, hturned, hnumbered⟩ :=
    runs_turns (by omega) hturns hturning
  obtain ⟨response, own, _, hown, hsome, rfl⟩ := runs_bind_ok_iff.mp hrespond
  obtain ⟨rfl, hresponse⟩ := runs_ofExcept_iff.mp hown
  obtain ⟨rfl, hanswered⟩ := runs_pure_iff.mp hsome
  obtain ⟨-, hcritique, hreplans, -⟩ := respond_ok hresponse.symm
  rw [List.nil_append] at hhistory
  rw [hhistory] at hreplans
  refine ⟨response, executions turning, Except.ok.inj hanswered, ?_, ?_, ?_⟩
  · rw [List.append_nil, List.append_nil]
    have hcreated : executions (⟨.createPlan userQuery, answer⟩ :: (running ++ turning)) =
        executions (running ++ turning) := List.countP_cons_of_neg Bool.false_ne_true
    rw [hcreated, executions_append, hone]
  · rw [hcritique, hreplans]
    exact hturned
  · rw [hreplans]
    exact hnumbered.of_later (hraised.trans hran)
      fun hothers => (hran' hothers).trans (hraised' hothers)

theorem run_within_budget_demandingRequest :
    ∃ trace response executed, Runs (run demandingDependencies 3 "上海" "default") trace
        (.ok (some response)) ∧ executions trace = 1 + executed ∧
      Turned true response.executionCritique response.replanHistory executed ∧
      Numbered 2 false 0 response.replanHistory := by
  obtain ⟨answered, hrun, hfollows⟩ := Components.exists_runs_exec
    (show demandingRequest.result.isOk = true by decide +kernel)
  have hcounter : Follows (AgentWorkflowBuilder.CounterStep false) 0 demandingRequest.trace _ :=
    AgentWorkflowBuilder.counter_of_follows hfollows
  obtain ⟨response, executed, rfl, hturned⟩ := run_within_budget (by decide) hrun hcounter
  exact ⟨_, response, executed, hrun, hturned⟩

end PlanOrchestrator

end TripGraph
