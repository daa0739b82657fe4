import TripGraph.Plan.State

/-! # The plan execution graph

The view of plan steps and dependencies that `PlanExecutor` keeps beside the plan state.
-/

namespace TripGraph

open Interaction

inductive GraphNodeStatus
  | pending
  | running
  | success
  | failed
deriving DecidableEq

structure PlanGraphEdge where
  source : Int
  target : Int
deriving DecidableEq

/-- DAG view of plan steps and dependencies with live execution status. -/
structure PlanExecutionGraph where
  goal : String
  sessionId : String
  steps : Dict Int PlanStep
  status : Dict Int GraphNodeStatus
  errors : Dict Int (Option String)
  edges : List PlanGraphEdge
  currentStep : Option Int
deriving DecidableEq

/-- A node of the exported graph. -/
structure PlanGraphNode where
  id : Int
  task : String
  toolHint : Option String
  status : GraphNodeStatus
  error : Option String
deriving DecidableEq

structure PlanExecutionGraphSnapshot where
  goal : String
  sessionId : String
  currentStep : Option Int
  nodes : List PlanGraphNode
  edges : List PlanGraphEdge
deriving DecidableEq

namespace PlanExecutionGraph

def buildEdges (steps : List PlanStep) : List PlanGraphEdge :=
  steps.flatMap fun step => step.deps.map fun dep => ⟨dep, step.id⟩

def stepsById (steps : List PlanStep) : Dict Int PlanStep :=
  .ofList (steps.map fun step => (step.id, step))

def fromPlan (plan : Plan) (sessionId : String) : PlanExecutionGraph where
  goal := plan.goal
  sessionId := sessionId
  steps := stepsById plan.steps
  status := .ofList (plan.steps.map fun step => (step.id, .pending))
  errors := .ofList (plan.steps.map fun step => (step.id, none))
  edges := buildEdges plan.steps
  currentStep := none

def mapStatus : StepStatus → GraphNodeStatus
  | .pending => .pending
  | .running => .running
  | .completed => .success
  | .failed => .failed
  | .skipped => .success

/-- The loop of `sync_from_state` over the steps of the plan; when a step has no status it
raises and leaves the graph as far as it got. -/
def syncSteps (state : PlanState) : List PlanStep → PlanExecutionGraph →
    Except RaisedError Unit × PlanExecutionGraph
  | [], graph => (.ok (), graph)
  | step :: rest, graph =>
      match state.getStepStatus step.id with
      | .error error => (.error error, graph)
      | .ok status =>
          syncSteps state rest { graph with
            status := graph.status.set step.id (mapStatus status)
            errors :=
              graph.errors.set step.id ((state.stepResults.get? step.id).bind StepResult.error) }

/-- Refresh node statuses from the plan state. -/
def syncFromState (graph : PlanExecutionGraph) (state : PlanState) :
    Except RaisedError Unit × PlanExecutionGraph :=
  let steps := stepsById state.plan.steps
  syncSteps state state.plan.steps
    { goal := state.plan.goal
      sessionId := state.sessionId
      steps := steps
      status := graph.status.filterKeys steps.contains
      errors := graph.errors.filterKeys steps.contains
      edges := buildEdges state.plan.steps
      currentStep := state.currentStep }

def setNodeStatus (graph : PlanExecutionGraph) (stepId : Int) (status : GraphNodeStatus)
    (error : Option String) : Except RaisedError PlanExecutionGraph :=
  if graph.steps.contains stepId then
    .ok { graph with
      status := graph.status.set stepId status
      errors := if error.isSome then graph.errors.set stepId error else graph.errors }
  else .error (.keyError s!"Unknown graph node: {stepId}")

/-- Rebuild the topology after replanning. -/
def rebuildFromPlan (graph : PlanExecutionGraph) (plan : Plan) : PlanExecutionGraph :=
  let missing := plan.steps.filter fun step => !graph.status.contains step.id
  { graph with
    steps := stepsById plan.steps
    edges := buildEdges plan.steps
    status := missing.foldl (fun acc step => acc.set step.id .pending) graph.status
    errors := missing.foldl (fun acc step => acc.set step.id none) graph.errors }

/-- The node of a step; a step without a status raises. -/
def node (graph : PlanExecutionGraph) (step : PlanStep) : Except RaisedError PlanGraphNode :=
  match graph.status.get? step.id with
  | some status => .ok
      { id := step.id
        task := step.task
        toolHint := step.toolHint
        status := status
        error := (graph.errors.get? step.id).join }
  | none => .error (.keyError (toString step.id))

def nodes (graph : PlanExecutionGraph) : List PlanStep → Except RaisedError (List PlanGraphNode)
  | [] => .ok []
  | step :: rest => do
      let first ← graph.node step
      let others ← graph.nodes rest
      return first :: others

def getGraphSnapshot (graph : PlanExecutionGraph) :
    Except RaisedError PlanExecutionGraphSnapshot := do
  let nodes ← graph.nodes (sortById graph.steps.values)
  return {
    goal := graph.goal
    sessionId := graph.sessionId
    currentStep := graph.currentStep
    nodes := nodes
    edges := graph.edges }

/-- The graph lists a step exactly when the plan it was built from does. -/
@[simp] theorem contains_stepsById {steps : List PlanStep} {stepId : Int} :
    (stepsById steps).contains stepId = true ↔ stepId ∈ steps.map PlanStep.id := by
  simp [stepsById]

@[simp] theorem syncSteps_steps (state : PlanState) (steps : List PlanStep)
    (graph : PlanExecutionGraph) : (syncSteps state steps graph).2.steps = graph.steps := by
  induction steps generalizing graph with
  | nil => rfl
  | cons step rest ih =>
      rw [syncSteps]
      split
      next => rfl
      next => exact ih _

@[simp] theorem syncFromState_steps (graph : PlanExecutionGraph) (state : PlanState) :
    (graph.syncFromState state).2.steps = stepsById state.plan.steps := syncSteps_steps _ _ _

end PlanExecutionGraph

end TripGraph
