import TripGraph.Runtime.Workflow

/-! # The runner and the end of an execution

The runner begins an execution with its observers, iterates over the events of a graph run
and finishes the execution. An await may raise `CancelledError` and a consumer may close
the generator where it yields; neither is an `Exception`.
-/

namespace TripGraph

open Interaction TripGraph.Graph

/-! ## Streaming schemas -/

inductive StreamEventType
  | start
  | token
  | toolCall
  | toolResult
  | agentHandoff
  | graphNode
  | graphStep
  | done
  | error
  | heartbeat
deriving DecidableEq

structure StreamEvent where
  event : StreamEventType
  data : Args := []
  sessionId : Option String := none
deriving DecidableEq

inductive ExecutionStatus
  | running
  | completed
  | failed
deriving DecidableEq

/-! ## What a runner asks -/

/-- What is raised in a coroutine: an `Exception`, or what its caller throws in. -/
inductive Thrown
  | exception (error : RaisedError)
  | cancelledError
  | generatorExit
deriving DecidableEq

/-- Not an `Exception`. -/
def Thrown.interruption : Thrown → Bool
  | .exception _ => false
  | .cancelledError | .generatorExit => true

/-- The operations of a runner, next to those of the graph it runs. -/
inductive RunnerOp
  | graph (op : Op)
  | awaiting
  | yield (event : StreamEvent)
  | recorderBegin (sessionId query graphId : String)
  | metricsBegin (sessionId query graphId : String) (executionId : Option String)
  | recorderEvent (event : GraphEvent)
  | metricsEvent (event : GraphEvent)
  | recorderFinish (status : ExecutionStatus) (errorMessage : Option String)
  | metricsFinish (status : ExecutionStatus) (errorMessage : Option String)
  | toResponse (state : AgentState)
deriving DecidableEq

/-- An await replies whether the task is cancelled there, a yield whether the consumer closes
the generator there. -/
@[reducible] def RunnerOp.Reply : RunnerOp → Type
  | .graph op => op.Reply
  | .awaiting => Bool
  | .yield _ => Bool
  | .recorderBegin .. => String
  | .metricsBegin .. => Except RaisedError String
  | .recorderEvent _ | .metricsEvent _ => Except RaisedError Unit
  | .recorderFinish .. | .metricsFinish .. => Except RaisedError Unit
  | .toResponse _ => Except RaisedError (Dict String Value)

/-- The operations and replies of a runner. -/
@[reducible] def runnerSig : Signature := ⟨RunnerOp, RunnerOp.Reply⟩

abbrev Runner (α : Type) := Program runnerSig Thrown α

abbrev RunnerEvent := Exchange runnerSig

/-- The operations at which a graph run awaits, the gathering of its branches included. -/
def Op.awaits : Op → Bool
  | .schedule _ => true
  | op => op.suspends

namespace GraphRuntimeRunner

/-- Raise the error of a reply. -/
def orThrow {α : Type} : Except RaisedError α → Runner α
  | .ok value => pure value
  | .error error => .fail (.exception error)

/-- A point at which the task may be cancelled. -/
def awaitPoint : Runner Unit := do
  let cancelled ← Program.perform (S := runnerSig) .awaiting
  if cancelled then .fail .cancelledError else pure ()

/-- Yield an event to the consumer, who may close the generator. -/
def yieldEvent (event : StreamEvent) : Runner Unit := do
  let closed ← Program.perform (S := runnerSig) (.yield event)
  if closed then .fail .generatorExit else pure ()

/-- One operation of the graph run that is not an event. -/
def pass (op : Op) : Runner op.Reply := do
  if op.awaits then awaitPoint else pure ()
  Program.perform (S := runnerSig) (.graph op)

/-- One operation of the graph run: its events go to the loop over them. -/
def relay (onEvent : GraphEvent → AgentState → Runner AgentState) (state : AgentState) :
    (op : Op) → Runner (op.Reply × AgentState)
  | .yield event => do
      let after ← onEvent event state
      pure ((), after)
  | op => do
      let reply ← pass op
      pure (reply, state)

/-- `async for event in graph.astream(...)`, with the state of the loop. -/
def iterate (onEvent : GraphEvent → AgentState → Runner AgentState) :
    Runtime AgentState → AgentState → Runner AgentState
  | .done _, state => pure state
  | .fail error, _ => .fail (.exception error)
  | .ask op next, state => do
      let answered ← relay onEvent state op
      iterate onEvent (next answered.1) answered.2

/-! ## The runner -/

/-- The observers the runner was given. -/
structure Observers where
  recorder : Bool
  metrics : Bool
deriving DecidableEq

/-- The arguments of `invoke` and `stream`. -/
structure Request where
  query : String
  sessionId : String := "default"
  policy : ExecutionPolicy := {}
  mergeStrategy : Option String := none
  initialState : Option AgentState := none
deriving DecidableEq

/-- The state the graph is run on when one is given. -/
def continued (query : String) (initial : AgentState) : AgentState :=
  if query ≠ "" ∧ initial.query ≠ query then { initial with query := query } else initial

/-- The state the graph is run on. -/
def Request.state (request : Request) : AgentState :=
  let state := match request.initialState with
    | none => TripGraph.initialState request.query request.sessionId
    | some initial => continued request.query initial
  if truthy request.mergeStrategy then
    { state with memory := state.memory.set "merge_strategy" (.ofText request.mergeStrategy) }
  else state

variable (observers : Observers)

/-- `recorder.begin`, if there is a recorder. -/
def beginRecording (sessionId query graphId : String) : Runner (Option String) :=
  if observers.recorder then
    some <$> Program.perform (S := runnerSig) (.recorderBegin sessionId query graphId)
  else pure none

/-- `metrics.begin`, if metrics are observed. -/
def beginMetrics (sessionId query graphId : String) (executionId : Option String) :
    Runner (Option String) :=
  if observers.metrics then do
    let begun ← Program.perform (S := runnerSig) (.metricsBegin sessionId query graphId executionId)
    let metricsId ← orThrow begun
    pure (some (executionId.getD metricsId))
  else pure executionId

/-- `_begin_execution`, with the execution id it comes to. -/
def beginExecution (sessionId query graphId : String) : Runner (Option String) := do
  let executionId ← beginRecording observers sessionId query graphId
  beginMetrics observers sessionId query graphId executionId

/-- `recorder.finish`, if there is a recorder. -/
def finishRecording (status : ExecutionStatus) (errorMessage : Option String) : Runner Unit :=
  if observers.recorder then do
    let finished ← Program.perform (S := runnerSig) (.recorderFinish status errorMessage)
    orThrow finished
  else pure ()

/-- `metrics.finish`, if metrics are observed. -/
def finishMetrics (status : ExecutionStatus) (errorMessage : Option String) : Runner Unit :=
  if observers.metrics then do
    let finished ← Program.perform (S := runnerSig) (.metricsFinish status errorMessage)
    orThrow finished
  else pure ()

/-- `_finish_execution`. -/
def finishExecution (status : ExecutionStatus) (errorMessage : Option String) : Runner Unit := do
  finishRecording observers status errorMessage
  finishMetrics observers status errorMessage

/-- `recorder.on_graph_event`, if there is a recorder. -/
def recordEvent (event : GraphEvent) : Runner Unit :=
  if observers.recorder then do
    let observed ← Program.perform (S := runnerSig) (.recorderEvent event)
    orThrow observed
  else pure ()

/-- `metrics.on_graph_event`, if metrics are observed. -/
def measureEvent (event : GraphEvent) : Runner Unit :=
  if observers.metrics then do
    let observed ← Program.perform (S := runnerSig) (.metricsEvent event)
    orThrow observed
  else pure ()

/-- `_on_graph_event`. -/
def onGraphEvent (event : GraphEvent) : Runner Unit := do
  recordEvent observers event
  measureEvent observers event

/-- The state of the loop behind an event. -/
def stateAfter (event : GraphEvent) (state : AgentState) : AgentState :=
  match event with
  | .state last => last
  | _ => state

/-- The body of the loop in `_run_graph`. -/
def collect (event : GraphEvent) (state : AgentState) : Runner AgentState := do
  onGraphEvent observers event
  pure (stateAfter event state)

/-- `_to_response`, with the execution id if there is one. -/
def respond (state : AgentState) (executionId : Option String) : Runner (Dict String Value) := do
  let answer ← Program.perform (S := runnerSig) (.toResponse state)
  let response ← orThrow answer
  pure (match executionId with
    | some own => response.set "execution_id" (.str own)
    | none => response)

/-- `except Exception`: what is not an exception goes on. -/
def exceptException {α : Type} (handler : RaisedError → Runner α) (body : Runner α) : Runner α :=
  body.handle fun
    | .exception error => handler error
    | other => .fail other

/-- The handler of `invoke`. -/
def failInvoke (error : RaisedError) : Runner (Dict String Value) := do
  finishExecution observers .failed (some error.text)
  .fail (.exception error)

/-- What `invoke` does within its handler. -/
def runInvoke (digest : Snapshot → String) (graph : Graph) (request : Request)
    (executionId : Option String) : Runner (Dict String Value) := do
  let final ← iterate (collect observers) (graph.astream digest request.policy request.state)
    request.state
  finishExecution observers .completed none
  respond final executionId

/-- `GraphRuntimeRunner.invoke`. -/
def invoke (digest : Snapshot → String) (graph : Graph) (request : Request) :
    Runner (Dict String Value) := do
  let executionId ← beginExecution observers request.sessionId request.query graph.graphId
  exceptException (failInvoke observers) (runInvoke observers digest graph request executionId)

/-- What `stream` yields for an event of the graph. -/
def streamed : GraphEvent → Option (StreamEventType × Args)
  | .nodeStart nodeId _ inputStateHash sequence => some (.graphNode,
      [("phase", .str "start"), ("node_id", .str nodeId), ("input_state_hash", .str inputStateHash),
        ("sequence", .int sequence)])
  | .nodeEnd nodeId _ inputStateHash outputStateHash sequence => some (.graphNode,
      [("phase", .str "end"), ("node_id", .str nodeId), ("input_state_hash", .str inputStateHash),
        ("output_state_hash", .str outputStateHash), ("state_delta", .null),
        ("sequence", .int sequence), ("replayed", .bool false)])
  | .parallelFanout source branches joinNode => some (.graphStep,
      [("phase", .str "parallel_fanout"), ("source", .str source),
        ("branches", .list (branches.map .str)), ("join_node", .str joinNode)])
  | .parallelDone _ sequence _ => some (.graphStep,
      [("phase", .str "parallel_done"), ("sequence", .int sequence)])
  | .edge source target label _ => some (.graphStep,
      [("source", .str source), ("target", .str target), ("label", .ofText label)])
  | .state state => some (.token, [("content", .str (orText state.finalResult ""))])
  | .graphStart .. | .earlyStop .. | .parallelNodeStart .. | .parallelNodeEnd .. | .graphEnd .. =>
      none

/-- Yield what the consumer sees of an event of the graph. -/
def yieldGraphEvent (sessionId : String) (event : GraphEvent) : Runner Unit :=
  match streamed event with
  | some (kind, data) => yieldEvent ⟨kind, data, some sessionId⟩
  | none => pure ()

/-- The body of the loop in `stream`. -/
def forward (sessionId : String) (event : GraphEvent) (state : AgentState) : Runner AgentState := do
  onGraphEvent observers event
  yieldGraphEvent sessionId event
  pure (stateAfter event state)

/-- The event `stream` begins with. -/
def startEvent (graph : Graph) (request : Request) (executionId : Option String) : StreamEvent where
  event := .start
  data :=
    [("runtime", .str "graph"), ("graph_id", .str graph.graphId),
      ("mode", .str request.policy.mode.text), ("seed", .ofOption (request.policy.seed.map .int)),
      ("execution_id", .ofText executionId)]
  sessionId := some request.sessionId

/-- The handler of `stream`: it yields the error and there is no final state. -/
def failStream (sessionId : String) (error : RaisedError) : Runner (Option AgentState) := do
  finishExecution observers .failed (some error.text)
  yieldEvent ⟨.error, [("message", .str error.text)], some sessionId⟩
  pure none

/-- The end of `stream` behind its loop. -/
def completeStream (sessionId : String) (executionId : Option String) :
    Option AgentState → Runner Unit
  | none => pure ()
  | some final => do
      finishExecution observers .completed none
      let response ← respond final executionId
      yieldEvent ⟨.done, response.entries, some sessionId⟩

/-- `GraphRuntimeRunner.stream`. -/
def stream (digest : Snapshot → String) (graph : Graph) (request : Request) : Runner Unit := do
  let executionId ← beginExecution observers request.sessionId request.query graph.graphId
  yieldEvent (startEvent graph request executionId)
  let ended ← exceptException (failStream observers request.sessionId)
    (some <$> iterate (forward observers request.sessionId)
      (graph.astream digest request.policy request.state) request.state)
  completeStream observers request.sessionId executionId ended

end GraphRuntimeRunner

end TripGraph
