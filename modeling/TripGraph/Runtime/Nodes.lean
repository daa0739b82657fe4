import TripGraph.Plan.Executor
import TripGraph.Plan.Replanning
import TripGraph.Runtime.Graph

/-! # The nodes of the compiled plan graph and of the workflow

`RuntimeDependencies` holds what does not change during a run: the configuration of the
components and the renderings of the host language (digests, the final text, the entities
found in a query), which the results hold for whatever they are.
-/

namespace TripGraph

open Interaction

structure RuntimeDependencies where
  executor : ExecutorConfig
  replanning : ReplanningConfig
  criticEnabled : Bool
  hasMemoryStore : Bool
  hasPolicyEngine : Bool
  hasPolicyTracer : Bool
  registry : List String
  planLoopFuel : Nat
  digest : Snapshot → String
  synthesizeFinalResult : Plan → PlanState → String
  enrichContextFromQuery : String → List (String × Value)

namespace Value

/-- A dictionary with string keys. -/
def ofDict (entries : Dict String Value) : Value := ofEntries entries.entries

/-- `list(value)`. -/
def iterate : Value → Except RaisedError (List Value)
  | .list items => .ok items
  | .dict items => .ok (items.map fun entry =>
      match entry.1 with
      | .int key => .int key
      | .str key => .str key)
  | .str text => .ok (text.toList.map fun c => .str c.toString)
  | _ => .error (.typeError "object is not iterable")

end Value

/-! ## Routing -/

section Routing

variable (deps : RuntimeDependencies)

/-- What the router has gathered so far. -/
structure RoutingState where
  steps : List PlanStep
  routing : Dict String Value
  policyTrace : List Value
  policyDecisions : Dict String ToolPolicyDecision

/-- The step with the router's tool, if it had none, and the routing entries. -/
def routeHint (step : PlanStep) : Runtime (PlanStep × List (String × Value)) :=
  if truthy step.toolHint then
    pure (step, [("task", .str step.task), ("tool_hint", .ofText step.toolHint),
      ("source", .str "plan")])
  else do
    let answer ← ask (.selectTool step.task)
    let selection ← Program.ofExcept answer
    let alternatives := selection.alternatives.map fun own =>
      Value.ofEntries [("tool", .str own.tool), ("confidence", .float own.confidence)]
    pure (if truthy selection.bestTool then { step with toolHint := selection.bestTool } else step,
      [("task", .str step.task), ("best_tool", .ofText selection.bestTool),
        ("confidence", .float selection.confidence), ("alternatives", .list alternatives),
        ("source", .str "router")])

/-- The policy engine's say on one step; `original` is the step before routing. -/
def routePolicy (state : AgentState) (original step : PlanStep) (entries : List (String × Value))
    (acc : RoutingState) : Runtime RoutingState :=
  let key := toString step.id
  if deps.hasPolicyEngine then do
    let hint := if truthy original.toolHint then original.toolHint else step.toolHint
    let decision ← ask (.decidePolicy hint step.task state.query)
    let chosen :=
      if truthy decision.selectedTool then { step with toolHint := decision.selectedTool } else step
    let traceEntry : ToolPolicyTraceEntry :=
      { decision, sessionId := some state.sessionId, stepId := some step.id,
        task := some step.task, query := some state.query }
    if deps.hasPolicyTracer then ask (.recordPolicy traceEntry)
    pure
      { steps := acc.steps ++ [chosen]
        routing := acc.routing.set key (.ofEntries (entries ++
          [("policy", .ofEntries decision.entries),
            ("selected_tool", .ofText decision.selectedTool)]))
        policyTrace :=
          if deps.hasPolicyTracer then acc.policyTrace ++ [traceEntry.toValue] else acc.policyTrace
        policyDecisions := acc.policyDecisions.set key decision }
  else
    pure { acc with
      steps := acc.steps ++ [step]
      routing := acc.routing.set key (.ofEntries entries) }

/-- The loop of `router_node` over the steps of the plan. -/
def routeSteps (state : AgentState) (planState : PlanState) :
    List PlanStep → RoutingState → Runtime RoutingState
  | [], acc => pure acc
  | step :: rest, acc => do
      let status ← Program.ofExcept (planState.getStepStatus step.id)
      if status.finished then
        -- a finished step keeps its tool
        routeSteps state planState rest { acc with steps := acc.steps ++ [step] }
      else
        let (hinted, entries) ← routeHint step
        let routed ← routePolicy deps state step hinted entries acc
        routeSteps state planState rest routed

/-- The state after routing. -/
def routedState (state : AgentState) (planState : PlanState) (routed : RoutingState) : AgentState :=
  let traced :=
    -- an empty policy trace is not written
    if routed.policyTrace = [] then state.observations
    else state.observations.set "tool_policy_trace" (.list routed.policyTrace)
  { state with
    planState := some { planState with
      plan := { planState.plan with steps := routed.steps }
      globalContext := planState.globalContext.setPolicyDecisions routed.policyDecisions }
    observations := traced.set "routing" (.ofDict routed.routing)
    memory := state.memory.set "routing_hints" (.ofDict routed.routing) }

def routerNode (state : AgentState) : Runtime AgentState :=
  match state.planState with
  | none => pure state
  | some planState => do
      let policyTrace ← Program.ofExcept
        ((state.observations.get? "tool_policy_trace").elim (.ok []) Value.iterate)
      let routed ← routeSteps deps state planState planState.plan.steps
        { steps := []
          routing := .empty
          policyTrace := policyTrace
          policyDecisions := planState.globalContext.policyDecisions }
      pure (routedState state planState routed)

end Routing

/-! ## The compiled plan graph -/

namespace PlanGraphCompiler

/-- `_step_node_id`. -/
def stepNodeId (stepId : Int) : String := s!"step_{stepId}"

def joinNodeId (levelIndex : Nat) : String := s!"plan_join_{levelIndex}"

def entryNode : NodeFn := fun state =>
  pure { state with observations := state.observations.set "plan_graph_entered" (.bool true) }

def sinkNode : NodeFn := fun state =>
  pure { state with observations := state.observations.set "plan_graph_complete" (.bool true) }

/-- `state.observations.setdefault("step_outputs", {})[step_id] = output`. -/
def recordOutput (state : AgentState) (stepId : Int) (output : Value) :
    Except RaisedError AgentState :=
  let outputs := (state.observations.get? "step_outputs").getD (.dict [])
  match outputs.setItem (.int stepId) output with
  | some updated =>
      .ok { state with observations := state.observations.set "step_outputs" updated }
  | none => .error (.typeError "object does not support item assignment")

/-- The state after a step has run: it takes over the plan and the trace of its plan state. -/
def adoptPlanState (state : AgentState) (planState : PlanState) : AgentState :=
  { state with
    planState := some planState
    planRef := .ofPlanState
    executionTrace := planState.executionTrace }

/-- Route and run a step whose turn has come. -/
def runStep (deps : RuntimeDependencies) (stepId : Int) (state : AgentState) :
    Runtime AgentState := do
  let routed ← routerNode deps state
  match routed.planState with
  | none => pure routed
  | some planState =>
      let step ← Program.ofExcept (planState.findStep stepId)
      let after ← (PlanExecutor.runStepWithRecovery deps.executor step planState).mapError
        Raised.error
      let adopted := adoptPlanState { routed with currentStep := some stepId } after
      let output := ((after.stepResults.get? stepId).map StepResult.observation).getD .null
      Program.ofExcept (recordOutput adopted stepId output)

/-- `_make_step_node`: a step that is settled or whose dependencies are unmet is passed by. -/
def stepNode (deps : RuntimeDependencies) (stepId : Int) : NodeFn := fun state =>
  match state.planState with
  | none => pure state
  | some planState => do
      let status ← Program.ofExcept (planState.getStepStatus stepId)
      if status.settled then pure state
      else
        let met ← Program.ofExcept (planState.dependenciesMet stepId)
        if met then runStep deps stepId state else pure state

/-! ### Levels -/

/-- The steps whose dependencies have all been placed. -/
def ready (finished : List Int) (step : PlanStep) : Bool :=
  step.deps.all fun dep => decide (dep ∈ finished)

/-- Peel off the ready steps, for at most `rounds` rounds. -/
def levelsFrom : Nat → List PlanStep → List Int → List (List PlanStep)
  | 0, _, _ => []
  | rounds + 1, remaining, finished =>
      let level := remaining.filter (ready finished)
      if level = [] then []
      else sortById level :: levelsFrom rounds (remaining.filter fun step => !ready finished step)
        (finished ++ level.map PlanStep.id)

/-- `_topological_levels`. Each round places at least one step, so as many rounds as there
are steps suffice. -/
def topologicalLevels (plan : Plan) : List (List PlanStep) :=
  let remaining := Dict.ofList (plan.steps.map fun step => (step.id, step))
  levelsFrom plan.steps.length remaining.values []

/-! ### Compiling -/

/-- The node after the join of a level: the first step of the next level, or the sink. -/
def nextAfterJoin : List (List PlanStep) → String
  | [] => "plan_sink"
  | [] :: _ => "plan_sink"
  | (step :: _) :: _ => stepNodeId step.id

/-- Connect a level with the node before it and with its join. -/
def connectLevel (graph : Graph) (previous joinId : String) (branchIds : List String) : Graph :=
  match branchIds with
  -- a single step is no fan-out: its node is visited like any other
  | [branch] => (graph.addEdge previous branch .direct).addEdge branch joinId .direct
  | _ => graph.addParallelFanout previous branchIds joinId

/-- The loop of `compile` over the levels. -/
def compileLevels : String → Nat → List (List PlanStep) → Graph → Graph
  | _, _, [], graph => graph
  | previous, levelIndex, level :: rest, graph =>
      let joinId := joinNodeId levelIndex
      let branchIds := level.map fun step => stepNodeId step.id
      let connected := connectLevel graph previous joinId branchIds
      compileLevels joinId (levelIndex + 1) rest
        (connected.addJoinNode joinId branchIds (nextAfterJoin rest))

/-- The hints the compiled graph carries for the router. -/
def routingHints (plan : Plan) : Value :=
  .ofDict (.ofList (plan.steps.map fun step =>
    (toString step.id, .ofEntries [("task", .str step.task), ("tool_hint", .ofText step.toolHint),
      ("dependency", .list (step.deps.map .int))])))

/-- The compiled plan is done when every step is settled. -/
def termination (state : AgentState) : Except RaisedError Bool :=
  match state.planState with
  | none => .ok false
  | some planState => planState.allStepsFinished

def graphIdOf (plan : Plan) : String := "plan:" ++ String.ofList (plan.goal.toList.take 32)

/-- The graph before any level is connected: the entry, the steps and the sink. -/
def baseGraph (deps : RuntimeDependencies) (mergeStrategy : MergeStrategy) (plan : Plan) : Graph :=
  let empty : Graph :=
    { graphId := graphIdOf plan
      entry := "plan_entry"
      termination := termination
      maxIterations := max (plan.steps.length * 4) 10
      mergeStrategy := mergeStrategy
      metadata := .ofList
        [("routing_hints", routingHints plan), ("plan_goal", .str plan.goal),
          ("parallel_levels", .list ((topologicalLevels plan).map fun level =>
            .list (level.map fun step => .int step.id)))] }
  (plan.steps.foldl (fun acc step => acc.addNode (stepNodeId step.id) (stepNode deps step.id))
    (empty.addNode "plan_entry" entryNode)).addNode "plan_sink" sinkNode

/-- `PlanGraphCompiler.compile`. -/
def compile (deps : RuntimeDependencies) (mergeStrategy : MergeStrategy) (plan : Plan) : Graph :=
  (compileLevels "plan_entry" 0 (topologicalLevels plan)
    (baseGraph deps mergeStrategy plan)).addEdge "plan_sink" endNode .direct

end PlanGraphCompiler

end TripGraph
