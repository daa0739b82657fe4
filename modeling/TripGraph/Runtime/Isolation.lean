import TripGraph.Foundation.Sharing
import TripGraph.Plan.Replans

/-! # Plan runs that share an executor

Of an executor's fields the runs only share the replan counter and the execution graph.
Everything else a run asks goes to a world of its own.
-/

namespace TripGraph

open Interaction

/-! ## The fields of an executor -/

namespace SharedObjects

/-- The operations on the fields of the plan executor. -/
def answerExecutor (objects : SharedObjects) : (op : Op) → Option (op.Reply × SharedObjects)
  | .replanBudgetSpent limit => objects.answer (.replanBudgetSpent limit)
  | .countReplan => objects.answer .countReplan
  | .newPlanGraph plan sessionId => objects.answer (.newPlanGraph plan sessionId)
  | .syncPlanGraph state => objects.answer (.syncPlanGraph state)
  | .updatePlanNode stepId status => objects.answer (.updatePlanNode stepId status)
  | .rebuildPlanGraph plan => objects.answer (.rebuildPlanGraph plan)
  | _ => none

/-- An executor, as the object that plan runs share. -/
def executor : SharedObject runtimeSig SharedObjects := ⟨{}, answerExecutor⟩

/-- The executor keeps no graph, or one that lists the step. -/
def takesNode (objects : SharedObjects) (stepId : Int) : Bool :=
  objects.planGraph.all fun graph => graph.steps.contains stepId

/-- What the other runs left in the executor makes no difference to this operation: the
budget is spent for it only if the run has spent it, and the graph at hand takes it as the
run's own would. -/
def Separate (current own : SharedObjects) : Op → Prop
  | .replanBudgetSpent limit => limit ≤ current.replanAttempts ↔ limit ≤ own.replanAttempts
  | .updatePlanNode stepId _ => current.takesNode stepId = own.takesNode stepId
  | .syncPlanGraph state => current.planGraph.isSome = own.planGraph.isSome ∨
      ∀ step ∈ state.plan.steps, state.stepStatus.contains step.id = true
  | _ => True

instance separateDecidable (current own : SharedObjects) (op : Op) :
    Decidable (Separate current own op) := by
  cases op <;> dsimp only [Separate] <;> infer_instance

/-- What a sync raises depends on the plan state alone. -/
theorem syncSteps_fst_eq (state : PlanState) (steps : List PlanStep)
    (graph graph' : PlanExecutionGraph) :
    (PlanExecutionGraph.syncSteps state steps graph).1 =
      (PlanExecutionGraph.syncSteps state steps graph').1 := by
  induction steps generalizing graph graph' with
  | nil => rfl
  | cons step rest ih =>
      rw [PlanExecutionGraph.syncSteps, PlanExecutionGraph.syncSteps]
      cases state.getStepStatus step.id with
      | error error => rfl
      | ok status => exact ih _ _

theorem syncSteps_ok_iff (state : PlanState) (steps : List PlanStep) (graph : PlanExecutionGraph) :
    (PlanExecutionGraph.syncSteps state steps graph).1 = .ok () ↔
      ∀ step ∈ steps, state.stepStatus.contains step.id = true := by
  induction steps generalizing graph with
  | nil => simp [PlanExecutionGraph.syncSteps]
  | cons step rest ih =>
      rw [PlanExecutionGraph.syncSteps, List.forall_mem_cons]
      cases hstatus : state.stepStatus.get? step.id with
      | none => simp [PlanState.getStepStatus, hstatus, Dict.contains]
      | some status => simp [PlanState.getStepStatus, hstatus, Dict.contains, ih]

variable {current own : SharedObjects}

theorem syncPlanGraph_fst_eq_iff {state : PlanState} :
    (current.syncPlanGraph state).1 = (own.syncPlanGraph state).1 ↔
      (current.planGraph.isSome = own.planGraph.isSome ∨
        ∀ step ∈ state.plan.steps, state.stepStatus.contains step.id = true) := by
  unfold syncPlanGraph PlanExecutionGraph.syncFromState
  cases current.planGraph with
  | none =>
      cases own.planGraph with
      | none => simp
      | some graph =>
          rw [eq_comm]
          simp [syncSteps_ok_iff]
  | some graph =>
      cases own.planGraph with
      | none => simp [syncSteps_ok_iff]
      | some graph' => simpa using syncSteps_fst_eq state _ _ _

theorem updatePlanNode_fst (objects : SharedObjects) (stepId : Int) (status : GraphNodeStatus) :
    (objects.updatePlanNode stepId status).1 =
      if objects.takesNode stepId then .ok ()
      else .error (.keyError s!"Unknown graph node: {stepId}") := by
  unfold updatePlanNode takesNode PlanExecutionGraph.setNodeStatus
  cases objects.planGraph with
  | none => rfl
  | some graph => cases hcontains : graph.steps.contains stepId <;> simp [hcontains]

theorem updatePlanNode_fst_eq_iff {stepId : Int} {status : GraphNodeStatus} :
    (current.updatePlanNode stepId status).1 = (own.updatePlanNode stepId status).1 ↔
      current.takesNode stepId = own.takesNode stepId := by
  rw [updatePlanNode_fst, updatePlanNode_fst]
  cases current.takesNode stepId <;> cases own.takesNode stepId <;> simp

/-- The condition says exactly that the executor replies as the run's own would. -/
theorem sameReply_iff_separate (op : Op) :
    executor.SameReply current own op ↔ Separate current own op := by
  cases op <;>
    simp [SharedObject.SameReply, executor, answerExecutor, answer, Separate,
      syncPlanGraph_fst_eq_iff, updatePlanNode_fst_eq_iff]

end SharedObjects

/-! ## Plan runs -/

/-- What drives a plan: the loop of the executor, or the nodes of the compiled graph. -/
inductive PlanRun
  | execute (fuel : Nat) (plan : Plan) (state : PlanState)
  | compiled (deps : RuntimeDependencies) (mergeStrategy : MergeStrategy) (plan : Plan)
      (streamed : Bool) (policy : ExecutionPolicy) (state : AgentState)

/-- An exception of a plan run, with the plan state that a loop leaves behind. -/
structure PlanFailure where
  error : RaisedError
  planState : Option PlanState
deriving DecidableEq

/-- What a plan run comes to, and how many replans it was allowed. -/
structure PlanOutcome where
  result : Except PlanFailure (Option PlanState)
  replansAllowed : Nat
deriving DecidableEq

/-- How many replans these exchanges have counted. -/
def replansAllowed (trace : List Event) : Nat :=
  trace.countP fun event => decide (event.op = .countReplan)

namespace PlanRun

/-- The run as a program, on an executor with this configuration. -/
def program (config : ExecutorConfig) : PlanRun → Effect PlanFailure (Option PlanState)
  | .execute fuel plan state => do
      let ended ← (PlanExecutor.execute config fuel plan state).mapError fun raised =>
        ⟨raised.error, some raised.state⟩
      pure (some ended)
  | .compiled deps mergeStrategy plan streamed policy state => do
      let deps := { deps with executor := config }
      let ended ← (Graph.run deps.digest (PlanGraphCompiler.compile deps mergeStrategy plan)
        streamed policy state).mapError fun error => ⟨error, none⟩
      pure ended.planState

variable {ι σ : Type} (config : ExecutorConfig)

/-- What the run comes to with a fresh executor. -/
def alone (run : PlanRun) (world : Handler runtimeSig σ) (state : σ) : PlanOutcome :=
  let ended := (run.program config).exec (SharedObjects.executor.handler world) ({}, state)
  ⟨ended.result, replansAllowed ended.trace⟩

/-- What a run has come to, once it has ended. -/
def outcome? (task : Task runtimeSig PlanFailure (Option PlanState) σ) : Option PlanOutcome :=
  task.result?.map fun result => ⟨result, replansAllowed task.trace⟩

variable [DecidableEq ι]

/-- Runs that take turns on one executor. -/
def together (runs : ι → PlanRun) (worlds : ι → Handler runtimeSig σ) (states : ι → σ)
    (schedule : List ι) : Crowd runtimeSig PlanFailure (Option PlanState) σ SharedObjects ι :=
  SharedObjects.executor.run worlds schedule
    (SharedObjects.executor.start (fun who => (runs who).program config) states)

/-- At no turn of a run what the others left in the executor makes a difference to it. -/
def SeparateThroughout (runs : ι → PlanRun) (worlds : ι → Handler runtimeSig σ) (states : ι → σ)
    (schedule : List ι) : Prop :=
  SharedObjects.executor.Throughout worlds SharedObjects.Separate schedule
    (SharedObjects.executor.start (fun who => (runs who).program config) states)

variable {config} {runs : ι → PlanRun} {worlds : ι → Handler runtimeSig σ} {states : ι → σ}
  {schedule : List ι}

/-- Runs to which the executor's fields make no difference come to what they come to alone. -/
theorem outcome_eq_alone (hseparate : SeparateThroughout config runs worlds states schedule)
    (who : ι) {outcome : PlanOutcome}
    (hended : outcome? ((together config runs worlds states schedule).tasks who) = some outcome) :
    outcome = (runs who).alone config (worlds who) (states who) := by
  obtain ⟨result, hresult, rfl⟩ := Option.map_eq_some_iff.mp hended
  have halone := SharedObject.alone_run
    (fun current own op h => (SharedObjects.sameReply_iff_separate op).mpr h) hseparate
    (fun who => SharedObject.alone_start ((runs who).program config) (states who)) who
  obtain ⟨htrace, hsame⟩ := halone.ended hresult
  exact congrArg₂ PlanOutcome.mk hsame.symm (congrArg replansAllowed htrace.symm)

/-- A world in which the tool fails and the planner has another step. -/
def indoorWorld : Handler runtimeSig Unit where
  answer op state :=
    (Components.reply
      { executeLlmCall := fun tool args _ => { success := false, tool := tool, args := args }
        replanUnfinishedSteps := fun _ _ _ => .ok [⟨7, "改为室内行程", none, some [1]⟩] } op, state)

/-- The same trip for two requests. -/
def indoorTrips : Bool → PlanRun := fun _ =>
  .execute 4 PlanExecutor.indoorTrip
    (PlanExecutor.begun PlanExecutor.indoorTrip "default" {})

/-- One request after the other. -/
def inTurn : List Bool := List.replicate 30 true ++ List.replicate 30 false

theorem outcome_eq_alone_indoorTrips :
    ∃ outcome, outcome? ((together (plainExecutor .replan ["weather"]) indoorTrips
        (fun _ => indoorWorld) (fun _ => ()) inTurn).tasks false) = some outcome ∧
      outcome = (indoorTrips false).alone (plainExecutor .replan ["weather"]) indoorWorld () := by
  have hseparate : SeparateThroughout (plainExecutor .replan ["weather"]) indoorTrips
      (fun _ => indoorWorld) (fun _ => ()) inTurn := by
    unfold SeparateThroughout
    decide +kernel
  obtain ⟨outcome, hended⟩ := Option.isSome_iff_exists.mp
    (show (outcome? ((together (plainExecutor .replan ["weather"]) indoorTrips
        (fun _ => indoorWorld) (fun _ => ()) inTurn).tasks false)).isSome = true by decide +kernel)
  exact ⟨outcome, hended, outcome_eq_alone hseparate false hended⟩

/-- An executor that replans once. -/
def replansOnce : ExecutorConfig :=
  { plainExecutor .replan ["weather"] with maxReplanAttempts := 1 }

/-- The first request spends the budget of the second, which alone comes to its end. -/
theorem not_outcome_eq_alone_indoorTrips :
    (PlanValidator.validate ["weather"] PlanExecutor.indoorTrip).success = true ∧
      ∃ outcome, outcome? ((together replansOnce indoorTrips (fun _ => indoorWorld) (fun _ => ())
          inTurn).tasks false) = some outcome ∧
        outcome ≠ (indoorTrips false).alone replansOnce indoorWorld () := by
  have hended : (outcome? ((together replansOnce indoorTrips (fun _ => indoorWorld) (fun _ => ())
      inTurn).tasks false)).map (fun outcome => outcome.result.isOk) = some false := by
    decide +kernel
  have halone : ((indoorTrips false).alone replansOnce indoorWorld ()).result.isOk = true := by
    decide +kernel
  obtain ⟨outcome, houtcome, hraised⟩ := Option.map_eq_some_iff.mp hended
  refine ⟨by decide +kernel, outcome, houtcome, fun hsame => ?_⟩
  rw [hsame, halone] at hraised
  exact Bool.noConfusion hraised

end PlanRun

end TripGraph
