import TripGraph.Runtime.Digest
import TripGraph.Runtime.Restore
import TripGraph.Workflow.Runner

/-! # Verifying stored executions

A replay reports whether the stored node records are consistent. It compares each recorded
hash with a copy of itself and never hashes a stored state.
-/

namespace TripGraph

open Interaction

/-! ## Stored rows -/

/-- A stored state, as decoded from JSON. -/
abbrev StoredState := Dict String Value

/-- `if value`, for a value decoded from JSON. -/
def Value.holds : Value → Bool
  | .null => false
  | .bool value => value
  | .int value => decide (value ≠ 0)
  | .float value => decide (value ≠ 0)
  | .str value => decide (value ≠ "")
  | .list items => !items.isEmpty
  | .dict items => !items.isEmpty

/-- `GraphExecutionRecord`. -/
structure GraphExecutionRow where
  executionId : String
  status : ExecutionStatus := .running
  finalResult : Option String := none
deriving DecidableEq

/-- `NodeExecutionRecord` of the store. -/
structure NodeExecutionRow where
  executionId : String
  nodeId : String
  sequence : Int := 0
  inputState : Option StoredState := none
  outputState : Option StoredState := none
  inputStateHash : Option String := none
  outputStateHash : Option String := none
deriving DecidableEq

/-- `ToolCallRecord` of the store. -/
structure ToolCallRow where
  executionId : Option String
  callId : String
deriving DecidableEq

/-- The tables a replay reads, in the order of their row ids. -/
structure ExecutionTables where
  executions : List GraphExecutionRow := []
  nodes : List NodeExecutionRow := []
  toolCalls : List ToolCallRow := []

namespace ExecutionTables

variable (tables : ExecutionTables)

def getExecution (executionId : String) : Option GraphExecutionRow :=
  tables.executions.find? fun own => decide (own.executionId = executionId)

/-- `ORDER BY sequence ASC, id ASC`. -/
def nodesOf (executionId : String) : List NodeExecutionRow :=
  (tables.nodes.filter fun own => decide (own.executionId = executionId)).insertionSort
    fun a b => a.sequence ≤ b.sequence

def toolCallsOf (executionId : String) : List ToolCallRow :=
  tables.toolCalls.filter fun own => decide (own.executionId = some executionId)

end ExecutionTables

/-! ## Stored states -/

/-- What validation makes of `AgentState`: its fields, its dump, and the states and version
histories that a decoded dictionary stands for. -/
structure AgentStateModel where
  modelFields : List String
  modelDump : AgentState → StoredState
  modelValidate : StoredState → Except RaisedError AgentState
  validateVersions : Value → Except RaisedError StateVersionStore

namespace AgentStateModel

variable (model : AgentStateModel)

/-- The version history of a snapshot, if it has one that is truthy. -/
def versionsOf (snapshot : StoredState) : Except RaisedError (Option StateVersionStore) :=
  match (snapshot.get? "version_store").filter Value.holds with
  | none => .ok none
  | some versions => (model.validateVersions versions).map some

def fromApiSnapshot (snapshot : StoredState) : Except RaisedError AgentState := do
  let state ← model.modelValidate (snapshot.filterKeys fun key =>
    decide (key ∈ model.modelFields) &&
      decide (key ∉ ["version_store", "plan_state", "execution_graph"]))
  match ← model.versionsOf snapshot with
  | none => pure state
  | some store => pure { state with versionStore := some store }

def applySnapshot (state : AgentState) (snapshot : StoredState) :
    Except RaisedError AgentState := do
  let merged := (model.modelDump state).update
    (snapshot.filterKeys fun key => decide (key ∉ ["plan_state", "execution_graph"]))
  let _ ← model.versionsOf snapshot
  model.modelValidate merged

/-- `_apply_snapshots`, from the state reached so far. -/
def applyFrom : Option AgentState → List NodeExecutionRow → Except RaisedError (Option AgentState)
  | state, [] => .ok state
  | state, node :: rest =>
      match node.outputState with
      | none => applyFrom state rest
      | some output => do
          let started ←
            match state, node.inputState.filter fun input => !input.entries.isEmpty with
            | none, some input => (model.fromApiSnapshot input).map some
            | own, _ => .ok own
          let next ←
            match started with
            | none => model.fromApiSnapshot output
            | some own => model.applySnapshot own output
          applyFrom (some next) rest

def applySnapshots (nodes : List NodeExecutionRow) : Except RaisedError (Option AgentState) :=
  model.applyFrom none nodes

end AgentStateModel

/-! ## Replaying -/

structure ReplayStep where
  nodeId : String
  sequence : Int
  inputStateHash : Option String
  outputStateHash : Option String
  replayed : Bool
deriving DecidableEq

/-- The report on a whole execution. -/
structure FullReport where
  executionId : String
  steps : List ReplayStep
  originalNodeCount : Nat
  replayedNodeCount : Nat
  consistent : Bool
  hashConsistent : Bool
  allReplayed : Bool
  finalResultMatch : Bool
  replayedFinalResult : Option String
deriving DecidableEq

/-- The report on one node. -/
structure NodeReport where
  executionId : String
  node : NodeExecutionRow
  replayed : Bool
  replayedFinalResult : Option String
deriving DecidableEq

/-- Two executions side by side at one index. -/
inductive NodeDiff
  | unpaired (index : Nat) (left right : Option NodeExecutionRow)
  | paired (index : Nat) (nodeId : String) (agree : Bool)
      (leftOutputHash rightOutputHash : Option String)
deriving DecidableEq

def NodeDiff.agree : NodeDiff → Bool
  | .unpaired .. => false
  | .paired _ _ agree _ _ => agree

structure Comparison where
  executionA : String
  executionB : String
  finalResultMatch : Bool
  statusMatch : Bool
  nodeCountA : Nat
  nodeCountB : Nat
  nodeCountMatch : Bool
  toolCallCountA : Nat
  toolCallCountB : Nat
  nodeDiffs : List NodeDiff
  allNodesMatch : Bool
deriving DecidableEq

inductive ReplayResponse
  | comparison (comparison : Comparison)
  | singleNode (report : NodeReport)
  | full (report : FullReport)
deriving DecidableEq

/-- The loop of `compare_executions`, from this index on. -/
def nodeDiffs : Nat → List NodeExecutionRow → List NodeExecutionRow → List NodeDiff
  | _, [], [] => []
  | index, left :: lefts, [] => .unpaired index (some left) none :: nodeDiffs (index + 1) lefts []
  | index, [], right :: rights =>
      .unpaired index none (some right) :: nodeDiffs (index + 1) [] rights
  | index, left :: lefts, right :: rights =>
      .paired index left.nodeId
        (decide (left.nodeId = right.nodeId ∧ left.outputStateHash = right.outputStateHash))
        left.outputStateHash right.outputStateHash :: nodeDiffs (index + 1) lefts rights

def stepsFromNodes (nodes : List NodeExecutionRow) : List ReplayStep :=
  nodes.map fun node =>
    { nodeId := node.nodeId
      sequence := node.sequence
      inputStateHash := node.inputStateHash
      outputStateHash := node.outputStateHash
      replayed := node.outputState.isSome }

namespace ExecutionTables

variable (tables : ExecutionTables) (model : AgentStateModel)

def compareExecutions (executionIdA executionIdB : String) : Except RaisedError Comparison :=
  match tables.getExecution executionIdA, tables.getExecution executionIdB with
  | none, _ => .error (.keyError s!"Execution not found: {executionIdA}")
  | _, none => .error (.keyError s!"Execution not found: {executionIdB}")
  | some executionA, some executionB =>
      let nodesA := tables.nodesOf executionIdA
      let nodesB := tables.nodesOf executionIdB
      let diffs := nodeDiffs 0 nodesA nodesB
      .ok
        { executionA := executionIdA
          executionB := executionIdB
          finalResultMatch := decide (executionA.finalResult = executionB.finalResult)
          statusMatch := decide (executionA.status = executionB.status)
          nodeCountA := nodesA.length
          nodeCountB := nodesB.length
          nodeCountMatch := decide (nodesA.length = nodesB.length)
          toolCallCountA := (tables.toolCallsOf executionIdA).length
          toolCallCountB := (tables.toolCallsOf executionIdB).length
          nodeDiffs := diffs
          allNodesMatch := diffs.all NodeDiff.agree }

/-- `_replay_single_node`. -/
def replaySingleNode (execution : GraphExecutionRow) (nodes : List NodeExecutionRow)
    (nodeId : String) : Except RaisedError NodeReport :=
  match nodes.find? fun own => decide (own.nodeId = nodeId) with
  | none => .error (.keyError s!"Node not found in replay: {nodeId}")
  | some target => do
      let reached ← model.applySnapshots
        (nodes.filter fun own => decide (own.sequence < target.sequence))
      let state ←
        match reached, target.inputState.filter fun input => !input.entries.isEmpty with
        | none, some input => (model.fromApiSnapshot input).map some
        | own, _ => .ok own
      let replayed ←
        match state, target.outputState.filter fun output => !output.entries.isEmpty with
        | some own, some output => (model.applySnapshot own output).map some
        | own, _ => .ok own
      pure
        { executionId := execution.executionId
          node := target
          replayed := target.outputState.isSome
          replayedFinalResult := replayed.bind AgentState.finalResult }

/-- The last part of `replay_execution`. -/
def fullReport (executionId : String) (execution : GraphExecutionRow)
    (nodes : List NodeExecutionRow) (finalState : Option AgentState) : FullReport :=
  let steps := stepsFromNodes nodes
  let finalResultMatch := finalState.any fun state =>
    decide (state.finalResult = execution.finalResult)
  -- the hash of a step is the recorded hash it is compared with
  let hashConsistent := (steps.zip nodes).all fun pair =>
    decide (pair.1.outputStateHash = pair.2.outputStateHash)
  let allReplayed := steps.all ReplayStep.replayed
  { executionId := executionId
    steps := steps
    originalNodeCount := nodes.length
    replayedNodeCount := steps.length
    consistent := decide (steps.length = nodes.length) && hashConsistent && allReplayed &&
      finalResultMatch
    hashConsistent := hashConsistent
    allReplayed := allReplayed
    finalResultMatch := finalResultMatch
    replayedFinalResult := finalState.bind AgentState.finalResult }

def replayExecution (executionId : String) (nodeId compareWith : Option String) :
    Except RaisedError ReplayResponse :=
  match tables.getExecution executionId with
  | none => .error (.keyError s!"Execution not found: {executionId}")
  | some execution =>
      let nodes := tables.nodesOf executionId
      if truthy compareWith then
        (tables.compareExecutions executionId (orText compareWith "")).map .comparison
      else if truthy nodeId then
        (replaySingleNode model execution nodes (orText nodeId "")).map .singleNode
      else
        (model.applySnapshots nodes).map fun finalState =>
          .full (fullReport executionId execution nodes finalState)

end ExecutionTables

/-! ## What the report is worth -/

/-- `hash_state` of a stored state: without its traces. -/
def hashStored (digest : StoredState → String) (stored : StoredState) : String :=
  digest ((stored.set "graph_trace" (.list [])).set "execution_trace" (.list []))

/-- The stored output state has the hash recorded beside it. -/
def NodeExecutionRow.Verified (digest : StoredState → String) (node : NodeExecutionRow) : Prop :=
  ∀ stored, node.outputState = some stored → node.outputStateHash = some (hashStored digest stored)

namespace ExecutionTables

variable {tables : ExecutionTables} {model : AgentStateModel} {digest : StoredState → String}
  {executionId : String}

/-- An execution is reported hash-consistent only if its stored output states are verified. -/
def Meaningful (tables : ExecutionTables) (model : AgentStateModel) (digest : StoredState → String)
    (executionId : String) : Prop :=
  ∀ nodeId compareWith report,
    tables.replayExecution model executionId nodeId compareWith = .ok (.full report) →
      report.hashConsistent = true → ∀ node ∈ tables.nodesOf executionId, node.Verified digest

theorem hashConsistent_fullReport (executionId : String) (execution : GraphExecutionRow)
    (nodes : List NodeExecutionRow) (finalState : Option AgentState) :
    (fullReport executionId execution nodes finalState).hashConsistent = true := by
  have hsteps : ∀ rows : List NodeExecutionRow, ((stepsFromNodes rows).zip rows).all (fun pair =>
      decide (pair.1.outputStateHash = pair.2.outputStateHash)) = true := by
    intro rows
    induction rows with
    | nil => rfl
    | cons node rest ih =>
        rw [stepsFromNodes, List.map_cons, List.zip_cons_cons, List.all_cons, decide_eq_true rfl,
          Bool.true_and]
        exact ih
  exact hsteps nodes

/-- The hashes have no part in whether an execution is consistent. -/
theorem consistent_fullReport (execution : GraphExecutionRow) (nodes : List NodeExecutionRow)
    (finalState : Option AgentState) :
    (fullReport executionId execution nodes finalState).consistent =
      ((fullReport executionId execution nodes finalState).allReplayed &&
        (fullReport executionId execution nodes finalState).finalResultMatch) := by
  have hlength : (stepsFromNodes nodes).length = nodes.length := List.length_map _
  have hhashes := hashConsistent_fullReport executionId execution nodes finalState
  change (decide ((stepsFromNodes nodes).length = nodes.length) &&
    (fullReport executionId execution nodes finalState).hashConsistent && _ && _) = _
  rw [hhashes, decide_eq_true hlength]
  rfl

theorem replayExecution_full {execution : GraphExecutionRow} {finalState : Option AgentState}
    (hexecution : tables.getExecution executionId = some execution)
    (hstates : model.applySnapshots (tables.nodesOf executionId) = .ok finalState) :
    tables.replayExecution model executionId none none =
      .ok (.full (fullReport executionId execution (tables.nodesOf executionId) finalState)) := by
  rw [replayExecution, hexecution]
  change (model.applySnapshots (tables.nodesOf executionId)).map _ = _
  rw [hstates]
  rfl

/-- A full report is made of a stored execution whose stored states validate. -/
theorem exists_of_replayExecution {nodeId compareWith : Option String} {report : FullReport}
    (h : tables.replayExecution model executionId nodeId compareWith = .ok (.full report)) :
    (tables.getExecution executionId).isSome ∧
      ∃ finalState, model.applySnapshots (tables.nodesOf executionId) = .ok finalState := by
  unfold replayExecution at h
  split at h
  next => cases h
  next execution hexecution =>
    refine ⟨by rw [hexecution]; rfl, ?_⟩
    dsimp only at h
    split at h
    next =>
      cases hcompared : tables.compareExecutions executionId (orText compareWith "") with
      | error error => rw [hcompared] at h; cases h
      | ok comparison => rw [hcompared] at h; cases h
    next =>
      split at h
      next =>
        cases hsingle : replaySingleNode model execution (tables.nodesOf executionId)
            (orText nodeId "") with
        | error error => rw [hsingle] at h; cases h
        | ok single => rw [hsingle] at h; cases h
      next =>
        cases hstates : model.applySnapshots (tables.nodesOf executionId) with
        | error error => rw [hstates] at h; cases h
        | ok finalState => exact ⟨finalState, rfl⟩

/-- A report of consistent hashes means something if and only if there is no report, or nothing
to be found. -/
theorem meaningful_iff : tables.Meaningful model digest executionId ↔
    ((tables.getExecution executionId).isSome →
      (∃ finalState, model.applySnapshots (tables.nodesOf executionId) = .ok finalState) →
        ∀ node ∈ tables.nodesOf executionId, node.Verified digest) := by
  constructor
  · rintro hmeaningful hexecution ⟨finalState, hstates⟩
    obtain ⟨execution, hexecution⟩ := Option.isSome_iff_exists.mp hexecution
    exact hmeaningful none none _ (replayExecution_full hexecution hstates)
      (hashConsistent_fullReport executionId execution _ finalState)
  · intro h nodeId compareWith report hreport _
    obtain ⟨hexecution, hstates⟩ := exists_of_replayExecution hreport
    exact h hexecution hstates

/-- States of a query and a final result. -/
def tripModel : AgentStateModel where
  modelFields := ["query", "final_result"]
  modelDump state :=
    .ofList [("query", .str state.query), ("final_result", .ofText state.finalResult)]
  modelValidate stored := .ok
    { query := match stored.get? "query" with
        | some (.str query) => query
        | _ => ""
      finalResult := match stored.get? "final_result" with
        | some (.str result) => some result
        | _ => none }
  validateVersions _ := .error (.external "ValidationError" "version_store")

/-- The stored state of a node, for this query. -/
def storedTrip (query : String) : StoredState :=
  .ofList [("query", .str query), ("final_result", .str "done")]

/-- An execution of one node. The recorded hash is that of the state for the query `Shanghai`. -/
def tripTables (digest : StoredState → String) (query : String) : ExecutionTables where
  executions := [{ executionId := "trip", status := .completed, finalResult := some "done" }]
  nodes :=
    [{ executionId := "trip"
       nodeId := "execute"
       outputState := some (storedTrip query)
       outputStateHash := some (hashStored digest (storedTrip "Shanghai")) }]

/-- With the stored query altered, the execution is still reported as consistent. -/
theorem not_meaningful_tripTables :
    ∃ digest : StoredState → String, Function.Injective digest ∧
      (tripTables digest "Shanghai").Meaningful tripModel digest "trip" ∧
      (∃ report, (tripTables digest "Beijing").replayExecution tripModel "trip" none none =
        .ok (.full report) ∧ report.consistent = true ∧ report.hashConsistent = true) ∧
      ¬ (tripTables digest "Beijing").Meaningful tripModel digest "trip" := by
  obtain ⟨index, hindex⟩ := Countable.exists_injective_nat StoredState
  have hinjective : Function.Injective (unary ∘ index) := unary_injective.comp hindex
  generalize unary ∘ index = digest at hinjective
  have hreport : (tripTables digest "Beijing").replayExecution tripModel "trip" none none = .ok _ :=
    replayExecution_full rfl rfl
  refine ⟨digest, hinjective, ?_, ⟨_, hreport, ?_, hashConsistent_fullReport _ _ _ _⟩, ?_⟩
  · intro nodeId compareWith report _ _ node hnode stored hstored
    obtain rfl := List.mem_singleton.mp hnode
    rw [← Option.some.inj hstored]
  · rw [consistent_fullReport]
    rfl
  · intro hmeaningful
    have hverified := hmeaningful none none _ hreport (hashConsistent_fullReport _ _ _ _) _
      List.mem_cons_self _ rfl
    exact absurd (hinjective (Option.some.inj hverified)) (by decide)

end ExecutionTables

end TripGraph
