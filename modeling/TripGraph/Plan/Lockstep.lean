import TripGraph.Foundation.Oracle
import TripGraph.Plan.Exposure

/-! # Steps without a policy engine

Without a policy engine, a compression or a replan, running a step leaves the plan as it is
and does not look at the policy decisions in the context. Whatever drives the plan, the step
then makes the same calls and comes to the same end.
-/

namespace TripGraph

open Interaction

namespace PlanState

/-- The state with these policy decisions in its context. -/
def withDecisions (decisions : Option StoredDecisions) (state : PlanState) :
    PlanState :=
  { state with globalContext := { state.globalContext with toolPolicyDecisions := decisions } }

theorem allSettled_withDecisions (decisions : Option StoredDecisions)
    (state : PlanState) (steps : List PlanStep) :
    (state.withDecisions decisions).allSettled steps = state.allSettled steps := by
  induction steps with
  | nil => rfl
  | cons step rest ih =>
      rw [allSettled, allSettled, ih]
      rfl

end PlanState

/-- The exception with these policy decisions in the state it leaves behind. -/
def Raised.withDecisions (decisions : Option StoredDecisions) (raised : Raised) :
    Raised :=
  { raised with state := raised.state.withDecisions decisions }

/-- The operation gives the executor a graph. -/
def Op.opensPlanGraph : Op → Bool
  | .newPlanGraph .. => true
  | _ => false

namespace PlanExecutor

/-- An executor that neither replans nor compresses nor has a policy engine. -/
structure Plain (config : ExecutorConfig) : Prop where
  policy : config.failurePolicy ≠ .replan
  engine : config.policyEngineConfigured = false
  compression : config.compressionEnabled = false

variable {config : ExecutorConfig}

/-! ## The call of a step -/

variable (config) in
/-- The result of a step for which no other tool is tried. -/
def callStep (step : PlanStep) (state : PlanState) (attempt : Nat) : Execution StepResult :=
  match step.toolHint with
  | none => pure (executeStep.withoutTool step attempt)
  | some hint =>
      if hint = "" then pure (executeStep.withoutTool step attempt)
      else
        match StepToolResolver.resolve config.lower step state with
        | none => pure
            { stepId := step.id, task := step.task, status := .skipped, toolName := some hint,
              error := some s!"No arguments resolved for tool_hint={hint}", attempt := attempt }
        | some toolArgs => do
            let observation ← ask (.executeLlmCall hint toolArgs s!"plan-step-{step.id}-a{attempt}")
            pure (toolResult step toolArgs attempt observation hint none)

/-- Without an engine no fallback is tried: neither the step nor the state changes. -/
theorem executeStep_of_noEngine (h : config.policyEngineConfigured = false) (step : PlanStep)
    (state : PlanState) (attempt : Nat) :
    executeStep config step state attempt = (do
      let result ← callStep config step state attempt
      pure (result, step, state)) := by
  cases hhint : step.toolHint with
  | none => simp only [executeStep, callStep, hhint, pure_bind]
  | some hint =>
      by_cases hempty : hint = ""
      · simp only [executeStep, callStep, hhint, hempty, if_true, pure_bind]
      · cases hargs : StepToolResolver.resolve config.lower step state with
        | none => simp only [executeStep, callStep, hhint, hempty, hargs, if_false, pure_bind]
        | some toolArgs =>
            simp only [executeStep, callStep, hhint, hempty, hargs, if_false, bind_assoc, pure_bind]
            refine congrArg (ask _ >>= ·) (funext fun observation => ?_)
            split
            · rfl
            · cases applicableDecision config state step.id with
              | none => rfl
              | some decision => simp [tryPolicyFallback, h]

/-- An attempt is an update of the graph, a call and what follows it. -/
theorem runAttempts_succ (h : config.policyEngineConfigured = false) (remaining : Nat)
    (step : PlanStep) (state : PlanState) :
    runAttempts config (remaining + 1) step state = (do
      updateGraphNode (startAttempt step state) step.id .running
      let result ← callStep config step (startAttempt step state) (maxAttempts config - remaining)
      afterAttempt config remaining (result, step, startAttempt step state)) := by
  have hsplit : runAttempts config (remaining + 1) step state = (do
      updateGraphNode (startAttempt step state) step.id .running
      let executed ← executeStep config step (startAttempt step state)
        (maxAttempts config - remaining)
      afterAttempt config remaining executed) := rfl
  rw [hsplit, executeStep_of_noEngine h]
  simp only [bind_assoc, pure_bind]

/-! ## Footprint -/

/-- A deterministic outcome for every tool call. -/
def toolOracle (oracle : String → Args → String → ToolObservation) : (op : Op) → Option op.Reply
  | .executeLlmCall tool args callId => some (oracle tool args callId)
  | _ => none

/-- An update of the graph raises nothing. -/
def updateOracle : (op : Op) → Option op.Reply
  | .updatePlanNode .. => some (.ok ())
  | _ => none

/-- Both together. -/
def stepOracle (oracle : String → Args → String → ToolObservation) : (op : Op) → Option op.Reply
  | .executeLlmCall tool args callId => some (oracle tool args callId)
  | .updatePlanNode .. => some (.ok ())
  | _ => none

variable {oracle : String → Args → String → ToolObservation}

/-- Tools that answer each call alike are an oracle. -/
theorem answers_components (components : Components) (objects : SharedObjects) {ε α : Type}
    (p : Effect ε α) : Answers (toolOracle components.executeLlmCall)
      (components.exec objects p).trace := by
  refine answers_exec (fun op state reply hreply => ?_) p (objects, ())
  cases op with
  | executeLlmCall tool args callId => exact Option.some.inj hreply
  | _ => cases hreply

theorem answers_stepOracle {trace : List Event} (htools : Answers (toolOracle oracle) trace)
    (hupdates : Answers updateOracle trace) : Answers (stepOracle oracle) trace := by
  intro event hmem reply hreply
  have htool := htools event hmem
  have hupdate := hupdates event hmem
  obtain ⟨op, own⟩ := event
  cases op with
  | executeLlmCall tool args callId => exact htool reply hreply
  | updatePlanNode stepId status => exact hupdate reply hreply
  | _ => cases hreply

/-- The operations to which the step oracle has an answer. -/
abbrev Foreseen (oracle : String → Args → String → ToolObservation) (op : Op) : Prop :=
  (stepOracle oracle op).isSome = true

theorem foreseen_updateGraphNode (state : PlanState) (stepId : Int) (status : GraphNodeStatus) :
    (updateGraphNode state stepId status).Asks (Foreseen oracle) :=
  respects_asking rfl fun answer => by cases answer <;> trivial

theorem foreseen_callStep (step : PlanStep) (state : PlanState) (attempt : Nat) :
    (callStep config step state attempt).Asks (Foreseen oracle) := by
  unfold callStep
  split
  · trivial
  · split
    · trivial
    · split
      · trivial
      · exact respects_asking rfl fun _ => trivial

theorem plan_mergeObservation (state : PlanState) (stepId : Int) (result : StepResult) :
    (state.mergeObservation stepId result).plan = state.plan := by
  unfold PlanState.mergeObservation
  split
  · dsimp only
    split <;> rfl
  · rfl

/-- Running a step only calls tools and updates the graph, and it keeps the plan. -/
theorem respects_runAttempts (h : Plain config) (remaining : Nat) (step : PlanStep)
    (state : PlanState) : (runAttempts config remaining step state).Respects (Foreseen oracle)
      fun after => after.plan = state.plan := by
  induction remaining generalizing state with
  | zero => trivial
  | succ remaining ih =>
      rw [runAttempts_succ h.engine]
      refine (foreseen_updateGraphNode _ _ _).bind fun _ _ => ?_
      refine (foreseen_callStep _ _ _).bind fun result _ => ?_
      unfold afterAttempt
      dsimp only
      split
      · rw [ContextCompressor.maybeCompress, h.compression, Bool.false_and,
          if_neg Bool.false_ne_true]
        exact plan_mergeObservation _ _ _
      split
      · exact (foreseen_updateGraphNode _ _ _).bind fun _ _ =>
          ih ((recordAttempt step result (startAttempt step state)).resetStepForRetry step.id)
      · unfold recover
        split
        · rfl
        next hpolicy => exact absurd hpolicy h.policy
        · trivial

theorem keepsPlan_runAttempts (h : Plain config) (remaining : Nat) (step : PlanStep)
    (state : PlanState) :
    (runAttempts config remaining step state).Returns fun after => after.plan = state.plan :=
  (@respects_runAttempts config (fun tool args _ => { tool := tool, args := args }) h remaining step
    state).mono (fun _ _ => trivial) fun _ hplan => hplan

/-! ## Policy decisions -/

variable {decisions : Option StoredDecisions}

theorem updateGraphNode_withDecisions (state : PlanState) (stepId : Int)
    (status : GraphNodeStatus) : updateGraphNode (state.withDecisions decisions) stepId status =
      (updateGraphNode state stepId status).translate (Raised.withDecisions decisions) id := by
  refine congrArg (Program.ask _) (funext fun answer => ?_)
  cases answer <;> rfl

theorem callStep_withDecisions (step : PlanStep) (state : PlanState) (attempt : Nat) :
    callStep config step (state.withDecisions decisions) attempt =
      (callStep config step state attempt).translate (Raised.withDecisions decisions) id := by
  have hresolve : StepToolResolver.resolve config.lower step (state.withDecisions decisions) =
      StepToolResolver.resolve config.lower step state := rfl
  unfold callStep
  rw [hresolve]
  split
  · rfl
  · split
    · rfl
    · split <;> rfl

theorem mergeObservation_withDecisions (state : PlanState) (stepId : Int) (result : StepResult) :
    (state.withDecisions decisions).mergeObservation stepId result =
      (state.mergeObservation stepId result).withDecisions decisions := by
  unfold PlanState.mergeObservation
  split
  · dsimp only
    split <;> rfl
  · rfl

/-- The decisions are carried along, and change nothing else. -/
theorem runAttempts_withDecisions (h : Plain config) (remaining : Nat) (step : PlanStep)
    (state : PlanState) : runAttempts config remaining step (state.withDecisions decisions) =
      (runAttempts config remaining step state).translate (Raised.withDecisions decisions)
        (PlanState.withDecisions decisions) := by
  induction remaining generalizing state with
  | zero => rfl
  | succ remaining ih =>
      have hstart : startAttempt step (state.withDecisions decisions) =
          (startAttempt step state).withDecisions decisions := rfl
      rw [runAttempts_succ h.engine, runAttempts_succ h.engine, hstart,
        updateGraphNode_withDecisions, callStep_withDecisions]
      refine Program.translate_bind fun _ => Program.translate_bind fun result => ?_
      unfold afterAttempt
      dsimp only [id]
      split
      · simp only [ContextCompressor.maybeCompress, h.compression, Bool.false_and,
          Bool.false_eq_true, if_false, pure_bind]
        have hrecord :
          recordAttempt step result ((startAttempt step state).withDecisions decisions) =
            (recordAttempt step result (startAttempt step state)).withDecisions decisions := rfl
        rw [hrecord, mergeObservation_withDecisions]
        rfl
      split
      · rw [show (recordAttempt step result ((startAttempt step state).withDecisions decisions)
          ).resetStepForRetry step.id = ((recordAttempt step result (startAttempt step state)
          ).resetStepForRetry step.id).withDecisions decisions from rfl,
          updateGraphNode_withDecisions]
        exact Program.translate_bind fun _ => ih _
      · unfold recover
        split
        · rfl
        next hpolicy => exact absurd hpolicy h.policy
        · rfl

/-- Two runs of a step that get the same answers make the same exchanges and end alike. -/
theorem runs_lockstep (h : Plain config) {step : PlanStep} {state : PlanState}
    {trace trace' : List Event} {result result' : Except Raised PlanState}
    (hrun : Runs (runStepWithRecovery config step (state.withDecisions decisions)) trace result)
    (hrun' : Runs (runStepWithRecovery config step state) trace' result')
    (hanswers : Answers (stepOracle oracle) trace)
    (hanswers' : Answers (stepOracle oracle) trace') :
    trace = trace' ∧ result =
      translated (Raised.withDecisions decisions) (PlanState.withDecisions decisions) result' := by
  rw [runStepWithRecovery, runAttempts_withDecisions h] at hrun
  obtain ⟨own, hown, rfl⟩ := runs_translate_iff.mp hrun
  have hasks : (runAttempts config (maxAttempts config) step state).Asks (Foreseen oracle) :=
    (respects_runAttempts h _ _ _).asks
  obtain ⟨rfl, rfl⟩ := hown.eq_of_answers hasks hrun' hanswers hanswers'
  exact ⟨rfl, rfl⟩

/-! ## The updates of the graph -/

variable {ids : List Int} {spent : Nat} {objects last : SharedObjects}

theorem updateOracle_of_withinStep {op : Op} (h : op.withinStep = true) :
    updateOracle op = none := by
  cases op <;> first | rfl | cases h

/-- With a node for the step, its updates raise nothing. -/
theorem Keeping.answers {stepId : Int} {trace : List Event} (h : Keeping ids spent objects)
    (hmem : stepId ∈ ids) (hevents : ∀ event ∈ trace, OfStep stepId event)
    (hfollows : Follows SharedObjects.Step objects trace last) : Answers updateOracle trace := by
  induction trace generalizing objects with
  | nil => exact answers_nil
  | cons event rest ih =>
      obtain ⟨hevent, hrest⟩ := List.forall_mem_cons.mp hevents
      obtain ⟨middle, hstep, htail⟩ := Follows.cons_iff.mp hfollows
      rw [answers_cons]
      rcases hevent with hwithin | ⟨status, hop⟩
      · refine ⟨fun reply hreply => ?_, ih ?_ hrest htail⟩
        · rw [updateOracle_of_withinStep hwithin] at hreply
          cases hreply
        · exact h.of_withinStep (List.forall_mem_singleton.mpr hwithin)
            (Follows.cons_iff.mpr ⟨middle, hstep, .nil middle⟩)
      · obtain ⟨op, own⟩ := event
        obtain rfl : op = .updatePlanNode stepId status := hop
        obtain ⟨rfl, hmiddle⟩ := h.updatePlanNode hmem hstep
        refine ⟨fun reply hreply => ?_, ih hmiddle hrest htail⟩
        exact Option.some.inj hreply

/-- Without a graph, an update raises nothing, and only `newPlanGraph` makes one. -/
theorem step_of_noGraph {next : SharedObjects} {event : Event} (hnone : objects.planGraph = none)
    (hnew : event.op.opensPlanGraph = false) (hstep : SharedObjects.Step objects event next) :
    next.planGraph = none ∧ ∀ reply, updateOracle event.op = some reply → event.reply = reply := by
  by_cases hchanges : event.op.changesPlanGraph = true
  · obtain ⟨op, own⟩ := event
    cases op with
    | newPlanGraph plan sessionId => cases hnew
    | syncPlanGraph state =>
        simp only [SharedObjects.Step, SharedObjects.answer, SharedObjects.syncPlanGraph,
          hnone] at hstep
        exact ⟨hstep.2 ▸ hnone, fun reply hreply => by cases hreply⟩
    | updatePlanNode stepId status =>
        simp only [SharedObjects.Step, SharedObjects.answer, SharedObjects.updatePlanNode,
          hnone] at hstep
        exact ⟨hstep.2 ▸ hnone, fun reply hreply => hstep.1.trans (Option.some.inj hreply)⟩
    | rebuildPlanGraph plan =>
        simp only [SharedObjects.Step, SharedObjects.answer, hnone, Option.map_none] at hstep
        exact ⟨hstep.2 ▸ rfl, fun reply hreply => by cases hreply⟩
    | _ => cases hchanges
  · refine ⟨(SharedObjects.planGraph_of_step (Bool.not_eq_true _ ▸ hchanges) hstep).trans hnone,
      fun reply hreply => ?_⟩
    obtain ⟨op, own⟩ := event
    cases op <;> first | exact absurd rfl hchanges | cases hreply

/-- Without a graph, updates raise nothing. -/
theorem answers_of_noGraph {trace : List Event} (hnone : objects.planGraph = none)
    (hnew : ∀ event ∈ trace, event.op.opensPlanGraph = false)
    (hfollows : Follows SharedObjects.Step objects trace last) : Answers updateOracle trace := by
  induction trace generalizing objects with
  | nil => exact answers_nil
  | cons event rest ih =>
      obtain ⟨hevent, hrest⟩ := List.forall_mem_cons.mp hnew
      obtain ⟨middle, hstep, htail⟩ := Follows.cons_iff.mp hfollows
      obtain ⟨hmiddle, hreply⟩ := step_of_noGraph hnone hevent hstep
      exact answers_cons.mpr ⟨hreply, ih hmiddle hrest htail⟩

/-! ## A round of the loop -/

/-- A round runs the next step to its end and hands the state to the graph, or it raises. -/
theorem runs_executeLoop_next (h : Plain config) {finished fuel : Nat} {state : PlanState}
    {step : PlanStep} (hfront : PlanState.Front finished state) (hstep : step ∈ state.plan.steps)
    (hid : step.id = finished + 1) (hkeeping : Keeping state.plan.ids spent objects)
    {trace : List Event} {result : Except Raised PlanState}
    (hfollows : Follows SharedObjects.Step objects trace last)
    (hrun : Runs (executeLoop config (fuel + 1) state) trace result) :
    ∃ own ended, Runs (runStepWithRecovery config step state) own ended ∧
      Answers updateOracle own ∧ attempts own ≠ [] ∧
      ((∃ raised message, ended = .error raised ∧ result = .error raised ∧ trace = own ∧
          raised.error = .agentLoop message) ∨
        ∃ after reply rest middle, ended = .ok after ∧
          trace = own ++ ⟨.syncPlanGraph after, reply⟩ :: rest ∧
          PlanState.Front (finished + 1) after ∧ after.plan = state.plan ∧
          Keeping after.plan.ids spent middle ∧ Follows SharedObjects.Step middle rest last ∧
          Runs (executeLoop config fuel after) rest result) := by
  have hmem : step.id ∈ state.plan.ids := List.mem_map_of_mem hstep
  have hlt : finished < state.plan.steps.length := by
    have := (hfront.sequential.mem_ids_iff.mp hmem).2
    omega
  rw [executeLoop_of_front hfront hstep hid] at hrun
  rcases runs_bind_iff.mp hrun with
    ⟨after, own, later, hown, hlater, rfl⟩ | ⟨raised, hown, rfl⟩
  · obtain ⟨middle, hbefore, hbehind⟩ := Follows.append_iff.mp hfollows
    obtain ⟨hevents, hmiddle, count, hpos, -, hattempts, htried⟩ :=
      runs_runStepWithRecovery h.policy h.compression hkeeping hmem hbefore hown
    refine ⟨own, .ok after, hown, hkeeping.answers hmem hevents hbefore, ?_, Or.inr ?_⟩
    · rw [hattempts, Ne, List.replicate_eq_nil_iff]
      omega
    cases htried with
    | ended hended =>
        have hsettled : Settled (finished + 1) state after := by
          have := hended.settled
          rwa [hid] at this
        have hnext := front_settled hfront hlt hsettled hended.outline
        rcases runs_bind_iff.mp hlater with
          ⟨_, second, rest, hsecond, hrest, rfl⟩ | ⟨error, hsecond, -⟩
        · obtain ⟨next, hsync, htail⟩ := Follows.append_iff.mp hbehind
          obtain ⟨rfl, -, hkept⟩ := runs_syncGraph hnext hmiddle hsync hsecond
          exact ⟨after, _, rest, next, rfl, rfl, hnext,
            (keepsPlan_runAttempts h _ _ _).returns_of_runs hown, hkept, htail, hrest⟩
        · obtain ⟨-, hresult, -⟩ := runs_syncGraph hnext hmiddle hbehind hsecond
          cases hresult
  · obtain ⟨hevents, -, count, hpos, -, hattempts, htried⟩ :=
      runs_runStepWithRecovery h.policy h.compression hkeeping hmem hfollows hown
    refine ⟨trace, .error raised, hown, hkeeping.answers hmem hevents hfollows, ?_, Or.inl ?_⟩
    · rw [hattempts, Ne, List.replicate_eq_nil_iff]
      omega
    cases htried with
    | exhausted _ _ hexhausted =>
        obtain ⟨failed, -, -, herror⟩ := hexhausted.failed
        exact ⟨raised, _, rfl, rfl, rfl, herror⟩

end PlanExecutor

end TripGraph
