import TripGraph.Runtime.Operation

/-! # The objects that runs and tasks share

`SharedObjects.answer` is what the shared objects reply and how they change. The operations
it does not answer go to external components.
-/

namespace TripGraph

open Interaction

/-! ## Execution graphs -/

namespace ExecutionGraphModel

def addNodeRecord (graph : ExecutionGraphModel) (record : NodeExecutionRecord) :
    ExecutionGraphModel :=
  { graph with nodeRecords := graph.nodeRecords ++ [record] }

def addEdgeRecord (graph : ExecutionGraphModel) (record : GraphEdgeRecord) :
    ExecutionGraphModel :=
  { graph with edgeRecords := graph.edgeRecords ++ [record] }

/-- Append the records whose node and sequence number are not present yet. -/
def unseenNodes (own : List NodeExecutionRecord) :
    List NodeExecutionRecord → List NodeExecutionRecord
  | [] => own
  | record :: rest =>
      if own.any fun other =>
        decide (other.nodeId = record.nodeId ∧ other.sequence = record.sequence)
      then unseenNodes own rest
      else unseenNodes (own ++ [record]) rest

/-- `_merge_execution_graphs` of two graphs. Edges are compared with the left graph only. -/
def merge (left right : ExecutionGraphModel) : ExecutionGraphModel :=
  let edges := left.edgeRecords ++ right.edgeRecords.filter fun edge =>
    !left.edgeRecords.any fun other => decide
      (other.source = edge.source ∧ other.target = edge.target ∧ other.sequence = edge.sequence)
  { left with
    nodeRecords := (unseenNodes left.nodeRecords right.nodeRecords).insertionSort
      fun a b => a.sequence ≤ b.sequence
    edgeRecords := edges.insertionSort fun a b => a.sequence ≤ b.sequence }

end ExecutionGraphModel

/-! ## The policy tracer -/

/-- Collects policy decisions for state and metrics. -/
structure ToolPolicyTracer where
  traceEnabled : Bool := true
  entries : List ToolPolicyTraceEntry := []
  decisionCount : Nat := 0
  mcpSelectedCount : Nat := 0
  builtinSelectedCount : Nat := 0
  fallbackCount : Nat := 0
deriving DecidableEq

namespace ToolPolicyTracer

def counters (tracer : ToolPolicyTracer) : List (String × Nat) :=
  [("tool_policy_decision_count", tracer.decisionCount),
    ("mcp_selected_count", tracer.mcpSelectedCount),
    ("builtin_selected_count", tracer.builtinSelectedCount),
    ("fallback_count", tracer.fallbackCount)]

def record (tracer : ToolPolicyTracer) (entry : ToolPolicyTraceEntry) : ToolPolicyTracer :=
  if tracer.traceEnabled then
    let provider := entry.decision.selectedProvider
    { tracer with
      entries := tracer.entries ++ [entry]
      decisionCount := tracer.decisionCount + 1
      mcpSelectedCount := tracer.mcpSelectedCount + if provider = .mcp then 1 else 0
      builtinSelectedCount := tracer.builtinSelectedCount + if provider = .builtin then 1 else 0
      fallbackCount := tracer.fallbackCount + if entry.decision.fallbackUsed then 1 else 0 }
  else tracer

/-- `record_fallback`: the updated entry overwrites the last one. -/
def recordFallback (tracer : ToolPolicyTracer) (entry : ToolPolicyTraceEntry)
    (fallbackTool failureReason recoveryAction : String) : ToolPolicyTracer :=
  if tracer.traceEnabled ∧ tracer.entries ≠ [] then
    let updated := { entry with decision := { entry.decision with
      fallbackUsed := true
      fallbackTool := some fallbackTool
      failureReason := some failureReason
      selectedTool := some fallbackTool
      reason := s!"{entry.decision.reason}; fallback after failure ({recoveryAction})" } }
    { tracer with
      entries := tracer.entries.dropLast ++ [updated]
      fallbackCount := tracer.fallbackCount + 1 }
  else tracer

end ToolPolicyTracer

/-! ## All shared objects -/

/-- The mutable fields of one plan executor, one replanning controller and one policy
tracer, the execution graphs and event lists by reference, and the replay cursor. -/
structure SharedObjects where
  replanAttempts : Nat := 0
  planGraph : Option PlanExecutionGraph := none
  controllerAttempts : Nat := 0
  tracer : ToolPolicyTracer := {}
  graphs : List ExecutionGraphModel := []
  eventLists : List (List GraphEvent) := []
  replayRecords : List NodeExecutionRecord := []
  replayIndex : Nat := 0
deriving DecidableEq

namespace SharedObjects

/-- The graph a reference points to. -/
def graph (objects : SharedObjects) (ref : Ref) : ExecutionGraphModel :=
  objects.graphs[ref]?.getD ⟨"", "", none, "", [], []⟩

/-- A new graph, at the next free reference. -/
def allocate (objects : SharedObjects) (model : ExecutionGraphModel) : Ref × SharedObjects :=
  (objects.graphs.length, { objects with graphs := objects.graphs ++ [model] })

/-- `_sync_graph`, on the graph of the executor if it has one. -/
def syncPlanGraph (objects : SharedObjects) (state : PlanState) :
    Except RaisedError Unit × SharedObjects :=
  match objects.planGraph with
  | none => (.ok (), objects)
  | some graph =>
      let synced := graph.syncFromState state
      (synced.1, { objects with planGraph := some synced.2 })

/-- `_update_graph_node`, on the graph of the executor if it has one. -/
def updatePlanNode (objects : SharedObjects) (stepId : Int) (status : GraphNodeStatus) :
    Except RaisedError Unit × SharedObjects :=
  match objects.planGraph with
  | none => (.ok (), objects)
  | some graph =>
      match graph.setNodeStatus stepId status none with
      | .ok updated => (.ok (), { objects with planGraph := some updated })
      | .error error => (.error error, objects)

/-- `peek_replay_record`: the next record of this node, from the cursor on. -/
def peekReplayRecord (objects : SharedObjects) (nodeId : String) : Option NodeExecutionRecord :=
  (objects.replayRecords.drop objects.replayIndex).find? fun record =>
    decide (record.nodeId = nodeId)

/-- `next_replay_record`: advance the cursor. -/
def nextReplayRecord (objects : SharedObjects) : SharedObjects :=
  if objects.replayIndex < objects.replayRecords.length then
    { objects with replayIndex := objects.replayIndex + 1 }
  else objects

/-- The reply of the shared objects and their state afterwards; `none` when the operation
goes to an external component. -/
def answer (objects : SharedObjects) : (op : Op) → Option (op.Reply × SharedObjects)
  | .recordPolicy entry => some ((), { objects with tracer := objects.tracer.record entry })
  | .recordFallback entry tool failureReason action => some ((),
      { objects with tracer := objects.tracer.recordFallback entry tool failureReason action })
  | .policyTrace => some ((objects.tracer.entries, objects.tracer.counters), objects)
  | .replanBudgetSpent maxReplanAttempts =>
      some (decide (maxReplanAttempts ≤ objects.replanAttempts), objects)
  | .countReplan => some ((), { objects with replanAttempts := objects.replanAttempts + 1 })
  | .newPlanGraph plan sessionId => some ((),
      { objects with planGraph := some (.fromPlan plan sessionId) })
  | .syncPlanGraph state => some (objects.syncPlanGraph state)
  | .updatePlanNode stepId status => some (objects.updatePlanNode stepId status)
  | .rebuildPlanGraph plan => some ((),
      { objects with planGraph := objects.planGraph.map fun own => own.rebuildFromPlan plan })
  | .attemptsUsed => some (objects.controllerAttempts, objects)
  | .countAttempt => some ((),
      { objects with controllerAttempts := objects.controllerAttempts + 1 })
  | .newGraph model => some (objects.allocate model)
  | .copyGraph ref => some (objects.allocate (objects.graph ref))
  | .mergeGraphs left right =>
      some (objects.allocate ((objects.graph left).merge (objects.graph right)))
  | .addNodeRecord ref record => some ((),
      { objects with
        graphs := objects.graphs.set ref ((objects.graph ref).addNodeRecord record) })
  | .addEdgeRecord ref record => some ((),
      { objects with
        graphs := objects.graphs.set ref ((objects.graph ref).addEdgeRecord record) })
  | .readGraph ref => some (objects.graph ref, objects)
  | .newEvents => some (objects.eventLists.length,
      { objects with eventLists := objects.eventLists ++ [[]] })
  | .pushEvent ref event => some ((),
      { objects with
        eventLists := objects.eventLists.set ref (objects.eventLists[ref]?.getD [] ++ [event]) })
  | .readEvents ref => some (objects.eventLists[ref]?.getD [], objects)
  | .peekReplayRecord nodeId => some (objects.peekReplayRecord nodeId, objects)
  | .nextReplayRecord => some ((), objects.nextReplayRecord)
  | _ => none

/-- One exchange takes the shared objects from one state to the next; an exchange with an
external component leaves them as they are. -/
def Step (objects : SharedObjects) (event : Event) (next : SharedObjects) : Prop :=
  match objects.answer event.op with
  | some answered => event.reply = answered.1 ∧ next = answered.2
  | none => next = objects

end SharedObjects

/-! ## Handled runs -/

/-- Answer from the shared objects where they answer, and from an external component with a
state of its own otherwise. -/
def sharedHandler {σ : Type} (external : (op : Op) → σ → op.Reply × σ) :
    Handler runtimeSig (SharedObjects × σ) where
  answer op state :=
    match state.1.answer op with
    | some answered => (answered.1, (answered.2, state.2))
    | none =>
        let answered := external op state.2
        (answered.1, (state.1, answered.2))

/-- The trace of a handled run is one the shared objects allow. -/
theorem follows_exec {σ ε α : Type} (external : (op : Op) → σ → op.Reply × σ)
    (p : Effect ε α) (state : SharedObjects × σ) :
    Follows SharedObjects.Step state.1 (p.exec (sharedHandler external) state).trace
      (p.exec (sharedHandler external) state).state.1 := by
  induction p generalizing state with
  | done value => exact .nil _
  | fail error => exact .nil _
  | ask op next ih =>
      refine Follows.cons_iff.mpr ⟨((sharedHandler external).answer op state).2.1, ?_, ih _ _⟩
      simp only [SharedObjects.Step, sharedHandler]
      split <;> rename_i hanswer <;> simp [hanswer]

end TripGraph
