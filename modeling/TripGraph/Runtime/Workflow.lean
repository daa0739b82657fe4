import TripGraph.Runtime.Nodes

/-! # The macro agent graph

Memory, planner, execution, critic, and the replan loop. The execution node runs the
compiled plan as a nested graph on a child state.
-/

namespace TripGraph

open Interaction

section Nodes

variable (deps : RuntimeDependencies)

/-! ## Memory -/

def MemoryScope.text : MemoryScope → String
  | .shortTerm => "short_term"
  | .longTerm => "long_term"
  | .episodic => "episodic"

/-- `store.get` for one scope of the session. -/
def loadScope (state : AgentState) (scope : MemoryScope) : Runtime (List Value) := do
  let answer ← ask (.memoryGet ⟨state.sessionId, some scope, 50⟩)
  Program.ofExcept answer

def memoryLoadNode (state : AgentState) : Runtime AgentState :=
  if deps.hasMemoryStore then do
    let shortTerm ← loadScope state .shortTerm
    let longTerm ← loadScope state .longTerm
    let episodic ← loadScope state .episodic
    let scopes := [MemoryScope.shortTerm, .longTerm, .episodic].map fun scope =>
      Value.str scope.text
    let query := Value.ofEntries
      [("session_id", .str state.sessionId), ("key", .null), ("scope", .null), ("limit", .int 50)]
    pure { state with
      shortTermMemory := shortTerm
      longTermMemory := longTerm
      episodicMemory := episodic
      memory := (state.memory.set "loaded_scopes" (.list scopes)).set "memory_query" query }
  else pure state

/-- `store.save`. -/
def saveEntry (entry : MemoryEntry) : Runtime Unit := do
  let answer ← ask (.memorySave entry)
  Program.ofExcept answer

/-- The episode that is persisted. -/
def episodeOf (state : AgentState) (records : List NodeExecutionRecord) : Value :=
  .ofEntries
    [("query", .str state.query), ("plan_goal", .ofText (state.plan.map Plan.goal)),
      ("final_result", .ofText state.finalResult),
      ("execution_trace_count", .int state.executionTrace.length),
      ("graph_nodes", .list (records.map fun record => .str record.nodeId)),
      ("node_hashes", .list (records.map fun record => .ofEntries
        [("node_id", .str record.nodeId), ("input", .str record.inputStateHash),
          ("output", .str record.outputStateHash)]))]

/-- The node records of the state's execution graph. -/
def recordsOf (state : AgentState) : Runtime (List NodeExecutionRecord) :=
  match state.executionGraph with
  | none => pure []
  | some ref => do
      let graph ← ask (.readGraph ref)
      pure graph.nodeRecords

def memoryPersistNode (state : AgentState) : Runtime AgentState :=
  if deps.hasMemoryStore then do
    let records ← recordsOf state
    let episode := episodeOf state records
    saveEntry ⟨state.sessionId, s!"episode_{state.episodicMemory.length}", episode, .episodic,
      [("runtime", .str "graph")]⟩
    if state.query ≠ "" then
      saveEntry ⟨state.sessionId, "last_query", .str state.query, .shortTerm, []⟩
    if truthy state.finalResult then
      saveEntry ⟨state.sessionId, "last_result", .ofText state.finalResult, .longTerm,
        [("plan_goal", .ofText (state.plan.map Plan.goal))]⟩
    pure { state with
      episodicMemory := state.episodicMemory ++ [episode]
      memory := state.memory.set "last_persisted_episode" episode }
  else pure state

/-! ## Planning -/

def plannerNode (state : AgentState) : Runtime AgentState := do
  let answer ← ask (.createPlan state.query)
  let created ← Program.ofExcept answer
  let normalized := Repair.normalizePlan created
  let plan := normalized.plan
  let noted :=
    if normalized.notes = [] then state.observations
    else state.observations.set "plan_repair_notes" (.list (normalized.notes.map .str))
  Program.ofExcept (PlanValidator.assertValid deps.registry plan)
  let fresh := PlanState.fromPlan plan state.sessionId
  let enriched := { fresh with globalContext := { fresh.globalContext with
    misc := fresh.globalContext.misc.update
      (.ofList (deps.enrichContextFromQuery state.query)) } }
  let planned := { state with
    planRef := .ofPlanState
    planState := some enriched
    observations := noted.set "plan_steps" (.int plan.steps.length)
    memory := state.memory.set "user_query" (.str state.query) }
  pure (planned.appendMessage "assistant" s!"Plan created with {plan.steps.length} steps")

/-- The merge strategy the memory of the state asks for. -/
def mergeStrategyOf (state : AgentState) : Except RaisedError MergeStrategy :=
  match state.memory.get? "merge_strategy" with
  | some (.str text) => MergeStrategy.parse text
  | _ => .ok .deepMerge

/-- `_compile_plan_node`. -/
def compilePlanNode (state : AgentState) : Runtime AgentState :=
  match state.plan with
  | none => pure state
  | some plan => do
      let strategy ← Program.ofExcept (mergeStrategyOf state)
      pure { state with
        compiledPlanGraph := some ⟨plan, strategy⟩
        memory := state.memory.set "routing_hints" (PlanGraphCompiler.routingHints plan)
        observations := state.observations.set "compiled_graph_id"
          (.str (PlanGraphCompiler.graphIdOf plan)) }

/-! ## Execution -/

/-- The state the nested plan graph starts on: `for_plan_execution`, parent to child. -/
def toChild (parent : AgentState) (graphId : String) : AgentState where
  sessionId := parent.sessionId
  query := parent.query
  branchId := parent.branchId
  planRef := parent.planRef
  planState := parent.planState
  executionSeed := parent.executionSeed
  memory := parent.memory
  compiledPlanGraph := parent.compiledPlanGraph
  observations := parent.observations
  executionGraph := parent.executionGraph
  versionStore := parent.versionStore
  stateVersionId := if parent.versionStore.isSome then parent.stateVersionId else none
  parentGraphId := some parent.sessionId
  nestedGraphId := some graphId

/-- What the nested plan graph hands back: `for_plan_execution`, child to parent. -/
def toParent (parent child : AgentState) : AgentState :=
  let updated := parent.observations.update child.observations
  -- tool outputs come from the plan state alone, not from the observations of the child
  let toolOutputs :=
    match child.planState with
    | some planState => Value.ofDict (planState.globalContext.toolOutputs.getD .empty)
    | none => (updated.get? "tool_outputs").getD (.dict [])
  { parent with
    planRef := child.planRef
    planState := child.planState
    executionTrace := child.executionTrace
    currentStep := child.currentStep
    observations := updated.set "tool_outputs" toolOutputs
    executionGraph := child.executionGraph.orElse fun _ => parent.executionGraph
    graphTrace := parent.graphTrace ++ child.graphTrace
    versionStore := child.versionStore.orElse fun _ => parent.versionStore
    stateVersionId :=
      if child.versionStore.isSome then child.stateVersionId else parent.stateVersionId }

/-- `memory["subgraph_results"][node_id] = result` on a dictionary that may not exist yet. -/
def recordSubgraph (memory : Dict String Value) (nodeId graphId : String)
    (finalResult : Option String) : Except RaisedError (Dict String Value) :=
  let results := (memory.get? "subgraph_results").getD (.dict [])
  match results.setItem (.str nodeId)
    (.ofEntries [("graph_id", .str graphId), ("final_result", .ofText finalResult)]) with
  | some updated => .ok (memory.set "subgraph_results" updated)
  | none => .error (.typeError "object does not support item assignment")

/-- `memory.setdefault("agent_calls", []).append(call)`. -/
def recordCall (memory : Dict String Value) (call : Value) :
    Except RaisedError (Dict String Value) :=
  match (memory.get? "agent_calls").getD (.list []) with
  | .list calls => .ok (memory.set "agent_calls" (.list (calls ++ [call])))
  | _ => .error (.typeError "object has no attribute 'append'")

/-- The nested plan graph as one agent node. -/
def planAgentNode (compiled : CompiledPlan) (state : AgentState) : Runtime AgentState := do
  let graph := PlanGraphCompiler.compile deps compiled.mergeStrategy compiled.plan
  let invoked := state.logGraph "plan_executor" "agent_invoke" [("agent_id", .str "plan_executor")]
  let child ← graph.invoke deps.digest { captureStateSnapshots := true }
    (toChild invoked graph.graphId)
  let merged := (toParent invoked child).logGraph "plan_executor" "subgraph_complete"
    [("subgraph_id", .str graph.graphId)]
  let results ← Program.ofExcept
    (recordSubgraph merged.memory "plan_executor" graph.graphId child.finalResult)
  let calls ← Program.ofExcept (recordCall results (.ofEntries
    [("agent_id", .str "plan_executor"), ("description", .str "Parallel plan execution agent"),
      ("subgraph_id", .str graph.graphId)]))
  pure { merged with memory := calls }

/-- Without a compiled graph the plan executor runs the plan itself. -/
def planLoopNode (plan : Plan) (planState : PlanState) (state : AgentState) :
    Runtime AgentState := do
  let after ← (PlanExecutor.execute deps.executor deps.planLoopFuel plan planState).mapError
    Raised.error
  let executed := { state with
    planRef := .ofPlanState
    planState := some after
    executionTrace := after.executionTrace
    currentStep := after.currentStep
    observations := state.observations.set "tool_outputs"
      (.ofDict (after.globalContext.toolOutputs.getD .empty)) }
  if deps.hasPolicyTracer then
    let (entries, counters) ← ask .policyTrace
    -- without entries neither trace nor counters are written
    if entries = [] then pure executed
    else
      let counts := counters.map fun own => (own.1, Value.int own.2)
      pure { executed with
        observations := (executed.observations.set "tool_policy_trace"
          (.list (entries.map ToolPolicyTraceEntry.toValue))).set "tool_policy_counters"
          (.ofEntries counts) }
  else pure executed

def executionNode (state : AgentState) : Runtime AgentState :=
  match state.planState, state.plan with
  | some planState, some plan =>
      match state.compiledPlanGraph with
      | some compiled => planAgentNode deps compiled state
      | none => planLoopNode deps plan planState state
  | _, _ => pure state

/-! ## Critique, replanning and the end -/

/-- `_synthesize_final`. -/
def synthesizeFinal (state : AgentState) : String :=
  match state.planState, state.plan with
  | some planState, some plan => deps.synthesizeFinalResult plan planState
  | _, _ => orText state.finalResult ""

/-- The entries of a dumped critique. -/
def critiqueValue (critique : ExecutionCritique) : Value :=
  .ofEntries
    [("score", .float critique.score), ("critique", .str critique.critique),
      ("need_replan", .bool critique.needReplan), ("goal_completed", .bool critique.goalCompleted),
      ("missing_info", .list (critique.missingInfo.map .str))]

def criticNode (state : AgentState) : Runtime AgentState :=
  match state.planState with
  | none => pure state
  | some planState =>
      if deps.criticEnabled then do
        let finalResult := synthesizeFinal deps state
        let answer ← ask (.evaluate planState finalResult)
        let critique ← Program.ofExcept answer
        pure { state with
          finalResult := some finalResult
          executionCritique := some critique
          observations := state.observations.set "critic" (critiqueValue critique)
          memory := state.memory.set "need_replan" (.bool critique.needReplan) }
      else pure state

def replannerNode (state : AgentState) : Runtime AgentState :=
  match state.planState, state.executionCritique with
  | some planState, some critique => do
      let outcome ← ReplanningController.handle deps.registry deps.replanning critique planState
      let attempts ← ask .attemptsUsed
      let updated := { state with
        replanHistory := state.replanHistory ++ [outcome.result]
        planState := some outcome.updatedState
        planRef := .ofPlanState
        replanAttempts := attempts
        executionTrace := outcome.updatedState.executionTrace }
      -- only an applied replan is compiled again
      if outcome.result.replanned then
        let strategy ← Program.ofExcept (mergeStrategyOf updated)
        pure { updated with
          compiledPlanGraph := some ⟨outcome.updatedState.plan, strategy⟩
          memory := updated.memory.set "need_replan" (.bool false) }
      else pure updated
  | _, _ => pure state

def finalizeNode (state : AgentState) : Runtime AgentState :=
  let finalResult := synthesizeFinal deps state
  -- the flag ends the run at the check before the next round
  pure ({ state with finalResult := some finalResult, shouldStop := true }.appendMessage
    "assistant" finalResult)

end Nodes

/-! ## The graph -/

namespace AgentWorkflowBuilder

/-- The critic asks for a replan and the budget the state has seen is not used up. -/
def needsReplan (deps : RuntimeDependencies) (state : AgentState) : Bool :=
  match state.executionCritique with
  | none => false
  | some critique =>
      critique.needReplan && decide (state.replanAttempts < deps.replanning.maxReplanAttempts)

/-- `AgentWorkflowBuilder.build`. -/
def build (deps : RuntimeDependencies) (maxIterations : Nat) : Graph :=
  let empty : Graph :=
    { graphId := "agent_workflow"
      entry := "memory_load"
      termination := fun state => .ok state.shouldStop
      maxIterations := maxIterations }
  let nodes := ((((((((empty.addNode "memory_load" (memoryLoadNode deps)).addNode
    "planner" (plannerNode deps)).addNode
    "compile_plan" compilePlanNode).addNode
    "router" (routerNode deps)).addNode
    "execution" (executionNode deps)).addNode
    "memory_persist" (memoryPersistNode deps)).addNode
    "critic" (criticNode deps)).addNode
    "replanner" (replannerNode deps)).addNode
    "finalize" (finalizeNode deps)
  let chain := (((((nodes.addEdge "memory_load" "planner" .direct).addEdge
    "planner" "compile_plan" .direct).addEdge
    "compile_plan" "router" .direct).addEdge
    "router" "execution" .direct).addEdge
    "execution" "memory_persist" .direct).addEdge
    "finalize" "memory_persist" .direct
  let persist := chain.addConditionalEdges "memory_persist"
    [{ target := endNode, condition := some AgentState.shouldStop,
       label := some "persist_and_finish" },
      { target := "critic", label := some "persist_and_continue" }]
  let critic := persist.addConditionalEdges "critic"
    [{ target := "replanner", condition := some (needsReplan deps), kind := .loop,
       label := some "need_replan" },
      { target := "finalize", label := some "done" }]
  critic.addLoopEdge "replanner" "router" (fun state => !state.shouldStop) "re_execute"

end AgentWorkflowBuilder

/-- `_initial_state`, with the message `invoke` and `stream` append to it once more. -/
def initialState (query sessionId : String) : AgentState :=
  let state : AgentState := { sessionId := sessionId, query := query }
  (state.appendMessage "user" query).appendMessage "user" query

end TripGraph
