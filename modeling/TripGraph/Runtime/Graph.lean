import TripGraph.Runtime.Merge

/-! # The graph execution engine

`Graph.astream` walks from node to node: it runs a node, or a fan-out with its join, and
moves on along the first edge whose condition holds. The graph's dictionaries are functions
of the node id. `streamed` tells whether the events go to a consumer or, as under
`invoke`, to nobody.
-/

namespace TripGraph

open Interaction

/-- `END`. -/
def endNode : String := "__end__"

inductive EdgeKind
  | direct
  | conditional
  | loop
  | parallel
  | join
deriving DecidableEq

def EdgeKind.text : EdgeKind → String
  | .direct => "direct"
  | .conditional => "conditional"
  | .loop => "loop"
  | .parallel => "parallel"
  | .join => "join"

/-- Conditional transition from a source node. -/
structure ConditionalEdge where
  target : String
  condition : Option (AgentState → Bool) := none
  kind : EdgeKind := .conditional
  label : Option String := none

def ConditionalEdge.matches (edge : ConditionalEdge) (state : AgentState) : Bool :=
  match edge.condition with
  | none => true
  | some condition => condition state

/-- Fan-out from a source to multiple parallel branches. -/
structure ParallelFanOut where
  source : String
  branches : List String
  joinNode : String
deriving DecidableEq

/-- Join node waiting for parallel branches. -/
structure JoinSpec where
  joinId : String
  waitFor : List String
  nextNode : String
deriving DecidableEq

inductive ExecutionMode
  | normal
  | deterministic
  | replay
deriving DecidableEq

def ExecutionMode.text : ExecutionMode → String
  | .normal => "normal"
  | .deterministic => "deterministic"
  | .replay => "replay"

/-- Controls graph execution semantics; the replayed records are a shared object. -/
structure ExecutionPolicy where
  mode : ExecutionMode := .normal
  seed : Option Int := none
  debug : Bool := false
  pauseAtNodes : List String := []
  captureStateSnapshots : Bool := false
  hasPauseHook : Bool := false
deriving DecidableEq

/-- Whether `maybe_pause` awaits the hook at this node. -/
def ExecutionPolicy.pausesAt (policy : ExecutionPolicy) (nodeId : String) : Bool :=
  policy.debug && (decide (policy.pauseAtNodes = []) || decide (nodeId ∈ policy.pauseAtNodes)) &&
    policy.hasPauseHook

/-- What a node does: it takes the state and returns the updated state. -/
abbrev NodeFn := AgentState → Runtime AgentState

structure Graph where
  graphId : String
  entry : String
  termination : AgentState → Except RaisedError Bool := fun _ => .ok false
  maxIterations : Nat := 100
  mergeStrategy : MergeStrategy := .deepMerge
  nodes : String → Option NodeFn := fun _ => none
  edges : String → List ConditionalEdge := fun _ => []
  fanOuts : List ParallelFanOut := []
  joinSpecs : String → Option JoinSpec := fun _ => none
  metadata : Dict String Value := .empty

namespace Graph

/-! ## Building -/

section Building

variable (graph : Graph)

def addNode (nodeId : String) (fn : NodeFn) : Graph :=
  { graph with nodes := fun own => if own = nodeId then some fn else graph.nodes own }

def addConditionalEdges (source : String) (edges : List ConditionalEdge) : Graph :=
  { graph with
    edges := fun own => if own = source then graph.edges own ++ edges else graph.edges own }

def addEdge (source target : String) (kind : EdgeKind) : Graph :=
  graph.addConditionalEdges source [{ target := target, kind := kind, label := some "default" }]

def addLoopEdge (source target : String) (condition : AgentState → Bool) (label : String) : Graph :=
  graph.addConditionalEdges source
    [{ target := target, condition := some condition, kind := .loop, label := some label }]

def addParallelFanout (source : String) (branches : List String) (joinNode : String) : Graph :=
  branches.foldl
    (fun acc branch => (acc.addEdge source branch .parallel).addEdge branch joinNode .join)
    { graph with fanOuts := graph.fanOuts ++ [⟨source, branches, joinNode⟩] }

/-- The node a join gets when no function is given. -/
def joinPass (joinId : String) (waitFor : List String) : NodeFn := fun state =>
  pure (state.logGraph joinId "join_complete" [("waited_for", .list (waitFor.map .str))])

def addJoinNode (joinId : String) (waitFor : List String) (nextNode : String) : Graph :=
  let joined := { graph with
    joinSpecs := fun own =>
      if own = joinId then some ⟨joinId, waitFor, nextNode⟩ else graph.joinSpecs own }.addNode
    joinId (joinPass joinId waitFor)
  -- no edge to `END`: a node without edges ends the run as well
  if nextNode ≠ "" ∧ nextNode ≠ endNode then joined.addEdge joinId nextNode .direct else joined

def fanOutFor (source : String) : Option ParallelFanOut :=
  graph.fanOuts.find? fun fanOut => decide (fanOut.source = source)

/-- The target of the first edge that is not parallel and whose condition holds. -/
def resolveNext (source : String) (state : AgentState) : String :=
  match (graph.edges source).find? fun edge =>
    decide (edge.kind ≠ .parallel) && edge.matches state with
  | some edge => edge.target
  | none => endNode

def matchedEdge (source : String) (state : AgentState) (target : String) :
    Option ConditionalEdge :=
  (graph.edges source).find? fun edge => decide (edge.target = target) && edge.matches state

end Building

/-! ## Running -/

variable (digest : Snapshot → String) (graph : Graph) (streamed : Bool) (policy : ExecutionPolicy)

/-- Yield an event to the consumer, if there is one. -/
def emit (event : GraphEvent) : Runtime Unit :=
  if streamed then ask (.yield event) else pure ()

/-- `StateVersionManager.commit`. -/
def commit (state : AgentState) (nodeId : String) : Runtime AgentState := do
  let versionId ← ask .uuid4
  pure (state.commitVersion digest nodeId versionId)

/-- `copy.deepcopy(state)`: the copy has an execution graph of its own. -/
def deepCopy (state : AgentState) : Runtime AgentState :=
  match state.executionGraph with
  | none => pure state
  | some ref => do
      let copied ← ask (.copyGraph ref)
      pure { state with executionGraph := some copied }

/-- The recorded output a replay serves in place of running the node. -/
def servedSnapshot (record : Option NodeExecutionRecord) (inputHash : String) : Option Snapshot :=
  match record with
  | none => none
  -- a record is served only on the input it was made on
  | some own => if own.inputStateHash = inputHash then own.outputStateSnapshot else none

/-- Run the node, or serve it from the replayed records; the flag tells which. -/
def runOrServe (fn : NodeFn) (record : Option NodeExecutionRecord) (inputHash : String)
    (state : AgentState) : Runtime (AgentState × Bool) :=
  match servedSnapshot record inputHash with
  | some snapshot => do
      let copied ← deepCopy state
      ask .nextReplayRecord
      pure (state.applySnapshot snapshot copied.executionGraph, true)
  | none => do
      let after ← fn state
      -- the record is used up even where it did not match
      if record.isSome then ask .nextReplayRecord
      pure (after, false)

/-- The record of a node execution. -/
def nodeRecord (nodeId : String) (sequence : Nat) (input before after : AgentState)
    (replayed : Bool) : NodeExecutionRecord where
  nodeId := nodeId
  sequence := sequence
  inputStateHash := input.hash digest
  outputStateHash := after.hash digest
  stateDelta := (snapshotDiff before.snapshot after.snapshot).compact
  inputStateSnapshot := if policy.captureStateSnapshots then some input.snapshot else none
  outputStateSnapshot := if policy.captureStateSnapshots then some after.snapshot else none
  replayed := replayed

/-- The state a node starts on: its input with the start of the node logged. -/
def startNode (nodeId : String) (state : AgentState) : AgentState :=
  state.logGraph nodeId "node_start" [("input_state_hash", .str (state.hash digest))]

/-- The state a node execution ends with: the end of the node is logged. -/
def finishNode (record : NodeExecutionRecord) (state : AgentState) : AgentState :=
  state.logGraph record.nodeId "node_end"
    [("output_state_hash", .str record.outputStateHash),
      ("input_state_hash", .str record.inputStateHash),
      ("state_version_id", .ofText state.stateVersionId),
      ("state_delta_keys", .list (record.stateDelta.keys.map .str))]

/-- `_execute_node`. -/
def executeNode (executionGraph : Ref) (nodeId : String) (state : AgentState) (sequence : Nat) :
    Runtime AgentState :=
  match graph.nodes nodeId with
  | none => raise (.keyError s!"Unknown graph node: {nodeId}")
  | some fn => do
      let inputHash := state.hash digest
      let inputSnapshot := if policy.captureStateSnapshots then some state.snapshot else none
      let replayRecord ←
        if policy.mode = .replay then ask (.peekReplayRecord nodeId) else pure none
      let started := startNode digest nodeId state
      ask (.maybePause nodeId inputSnapshot inputHash (policy.pausesAt nodeId))
      let executed ← runOrServe fn replayRecord inputHash started
      let record := nodeRecord digest policy nodeId sequence state started executed.1 executed.2
      let committed ← commit digest executed.1 nodeId
      ask (.addNodeRecord executionGraph record)
      pure (finishNode record committed)

/-- The edges of a fan-out, recorded with consecutive sequence numbers. -/
def recordEdges (executionGraph : Ref) : List GraphEdgeRecord → Runtime Unit
  | [] => pure ()
  | edge :: rest => do
      ask (.addEdgeRecord executionGraph edge)
      recordEdges executionGraph rest

/-- Yield events in order. -/
def emitAll : List GraphEvent → Runtime Unit
  | [] => pure ()
  | event :: rest => do
      emit streamed event
      emitAll rest

/-- `run_branch`. -/
def runBranch (executionGraph events : Ref) (state : AgentState) (branchId : String)
    (sequence : Nat) : Runtime AgentState := do
  let branchState ← deepCopy state
  let inputHash := branchState.hash digest
  ask (.pushEvent events (.parallelNodeStart branchId inputHash sequence))
  let updated ← executeNode digest graph policy executionGraph branchId branchState sequence
  ask (.pushEvent events (.parallelNodeEnd branchId inputHash (updated.hash digest) sequence))
  pure updated

/-- The join node of a fan-out runs on the merged state. -/
def runJoin (executionGraph : Ref) (joinId : String) (merged : AgentState) (sequence : Nat) :
    Runtime AgentState :=
  if (graph.nodes joinId).isSome then do
    let inputHash := merged.hash digest
    emit streamed (.parallelNodeStart joinId inputHash sequence)
    let joined ← executeNode digest graph policy executionGraph joinId merged sequence
    emit streamed (.parallelNodeEnd joinId inputHash (joined.hash digest) sequence)
    pure joined
  else pure merged

/-- The part of a run that moves: the current node, the state and the counters. -/
structure Cursor where
  current : String
  state : AgentState
  iterations : Nat
  sequence : Nat
  edgeSequence : Nat

/-- The state the branches of a fan-out start from. -/
def fanOutState (fanOut : ParallelFanOut) (state : AgentState) : AgentState :=
  state.logGraph fanOut.source "parallel_fanout" [("branches", .list (fanOut.branches.map .str))]

/-- The edges from the source of a fan-out to its branches. -/
def fanOutEdges (fanOut : ParallelFanOut) (edgeSequence : Nat) : List GraphEdgeRecord :=
  fanOut.branches.zipIdx.map fun entry =>
    ⟨fanOut.source, entry.1, some "parallel", some EdgeKind.parallel.text, edgeSequence + entry.2⟩

/-- The edges from the branches of a fan-out to its join. -/
def joinEdges (fanOut : ParallelFanOut) (edgeSequence : Nat) : List GraphEdgeRecord :=
  fanOut.branches.zipIdx.map fun entry =>
    ⟨entry.1, fanOut.joinNode, some "join", some EdgeKind.join.text, edgeSequence + entry.2⟩

/-- The tasks of the branches, each on the same state. -/
def branchTasks (executionGraph events : Ref) (fanOut : ParallelFanOut) (state : AgentState)
    (sequence : Nat) : List (Runtime AgentState) :=
  fanOut.branches.zipIdx.map fun entry =>
    runBranch digest graph policy executionGraph events state entry.1 (sequence + entry.2)

/-- `_run_parallel_fanout_stream`. -/
def runParallelFanout (executionGraph : Ref) (fanOut : ParallelFanOut) (cursor : Cursor) :
    Runtime Cursor := do
  let width := fanOut.branches.length
  let state := fanOutState fanOut cursor.state
  emit streamed (.parallelFanout fanOut.source fanOut.branches fanOut.joinNode)
  let events ← ask .newEvents
  recordEdges executionGraph (fanOutEdges fanOut cursor.edgeSequence)
  let order ← ask (.schedule width)
  -- `asyncio.gather`: the branches take turns at the operations that suspend
  let branchStates ← Program.gather Op.suspends order
    (branchTasks digest graph policy executionGraph events fanOut state cursor.sequence)
  recordEdges executionGraph (joinEdges fanOut (cursor.edgeSequence + width))
  let branchEvents ← ask (.readEvents events)
  emitAll streamed branchEvents
  -- the states are merged in the order of the branches, however they took turns
  let merged ← mergeStates graph.mergeStrategy state branchStates
  let committed ← commit digest merged s!"{fanOut.joinNode}:merge"
  let joined ← runJoin digest graph streamed policy executionGraph fanOut.joinNode committed
    (cursor.sequence + width)
  let done := { cursor with
    state := joined
    sequence := cursor.sequence + (width + 1)
    edgeSequence := cursor.edgeSequence + width + width }
  emit streamed (.parallelDone done.state done.sequence done.edgeSequence)
  pure done

/-- Run the current node between its two events. -/
def visitNode (executionGraph : Ref) (cursor : Cursor) : Runtime Cursor := do
  let inputHash := cursor.state.hash digest
  emit streamed (.nodeStart cursor.current cursor.state inputHash cursor.sequence)
  let after ← executeNode digest graph policy executionGraph cursor.current cursor.state
    cursor.sequence
  emit streamed (.nodeEnd cursor.current after inputHash (after.hash digest) cursor.sequence)
  pure { cursor with state := after, sequence := cursor.sequence + 1 }

/-- Where a run goes on after a fan-out. -/
def afterFanOut (fanOut : ParallelFanOut) (state : AgentState) : String :=
  match graph.joinSpecs fanOut.joinNode with
  | some spec =>
      if spec.nextNode ≠ "" then spec.nextNode
      else orText (some (graph.resolveNext fanOut.joinNode state)) endNode
  | none => orText (some (graph.resolveNext fanOut.joinNode state)) endNode

/-- One round at a node with a fan-out: the node itself if it exists, the branches, the join. -/
def fanOutRound (executionGraph : Ref) (fanOut : ParallelFanOut) (cursor : Cursor) :
    Runtime Cursor := do
  let visited ←
    if (graph.nodes cursor.current).isSome then
      visitNode digest graph streamed policy executionGraph cursor
    else pure cursor
  let done ← runParallelFanout digest graph streamed policy executionGraph fanOut visited
  pure { done with
    current := graph.afterFanOut fanOut done.state
    iterations := done.iterations + 1 }

/-- One round at a plain node: the node and the edge it leaves on. -/
def nodeRound (executionGraph : Ref) (cursor : Cursor) : Runtime Cursor := do
  let visited ← visitNode digest graph streamed policy executionGraph cursor
  let next := graph.resolveNext cursor.current visited.state
  let edge := graph.matchedEdge cursor.current visited.state next
  let label := edge.bind ConditionalEdge.label
  let kind := edge.map fun own => own.kind.text
  ask (.addEdgeRecord executionGraph ⟨cursor.current, next, label, kind, cursor.edgeSequence⟩)
  emit streamed (.edge cursor.current next label kind)
  pure { visited with
    current := next
    edgeSequence := visited.edgeSequence + 1
    iterations := visited.iterations + 1 }

/-- One round of the loop: a fan-out, a node, or an error for an unknown node. -/
def round (executionGraph : Ref) (cursor : Cursor) : Runtime Cursor :=
  match graph.fanOutFor cursor.current with
  | some fanOut => fanOutRound digest graph streamed policy executionGraph fanOut cursor
  | none =>
      if (graph.nodes cursor.current).isSome then
        nodeRound digest graph streamed policy executionGraph cursor
      else raise (.keyError s!"Unknown graph node: {cursor.current}")

/-- The check before each round. -/
def stops (state : AgentState) : Except RaisedError Bool :=
  if state.shouldStop then .ok true else graph.termination state

/-- The loop of `astream`, for at most `budget` further rounds. -/
def loop (executionGraph : Ref) : Nat → Cursor → Runtime Cursor
  | 0, cursor => pure cursor
  | budget + 1, cursor =>
      if cursor.current = endNode then pure cursor
      else do
        let stop ← Program.ofExcept (graph.stops cursor.state)
        if stop then
          -- the current node is not executed
          let logged := cursor.state.logGraph cursor.current "early_stop"
            [("reason", .str "termination")]
          emit streamed (.earlyStop cursor.current logged)
          pure { cursor with state := logged }
        else
          let next ← round digest graph streamed policy executionGraph cursor
          loop executionGraph budget next

/-- The execution graph of the state, or a new one. -/
def ensureExecutionGraph (state : AgentState) : Runtime Ref :=
  match state.executionGraph with
  | some ref => pure ref
  | none => ask (.newGraph
      { graphId := graph.graphId, sessionId := state.sessionId, seed := policy.seed,
        mode := policy.mode.text })

/-- `Graph.astream`, with the state of its last event as the result. -/
def run (state : AgentState) : Runtime AgentState := do
  match policy.seed with
  | some seed => ask (.seedRandom seed)
  | none => pure ()
  let executionGraph ← ensureExecutionGraph graph policy state
  let seeded := { state with
    executionSeed := policy.seed
    executionGraph := some executionGraph }
  emit streamed (.graphStart graph.graphId graph.entry policy.mode.text)
  let last ← loop digest graph streamed policy executionGraph graph.maxIterations
    ⟨graph.entry, seeded, 0, 0, 0⟩
  emit streamed (.graphEnd graph.graphId last.iterations)
  emit streamed (.state last.state)
  pure last.state

/-- `Graph.astream`: the events go to the consumer. -/
def astream (state : AgentState) : Runtime AgentState := run digest graph true policy state

/-- `Graph.invoke`: only the last state is kept. -/
def invoke (state : AgentState) : Runtime AgentState := run digest graph false policy state

end Graph

end TripGraph
