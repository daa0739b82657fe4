import TripGraph.Plan.State

/-! # The unified state of the graph runtime

`AgentState` is the single state the graph nodes pass on. Its plan is usually the very plan
object of its plan state, so the two change together; `PlanRef` records whether they do.
The execution graph is a mutable object shared between states and is held by reference.
-/

namespace TripGraph

open Interaction

/-- A reference to a mutable object that several states or tasks share. -/
abbrev Ref := Nat

structure GraphTraceEntry where
  nodeId : String
  event : String
  data : Args
  stepIndex : Nat
deriving DecidableEq

inductive MergeStrategy
  | lastWins
  | deepMerge
  | mergeLists
  | failOnConflict
deriving DecidableEq

/-- `MergeStrategy(text)`. -/
def MergeStrategy.parse (text : String) : Except RaisedError MergeStrategy :=
  if text = "last_wins" then .ok .lastWins
  else if text = "deep_merge" then .ok .deepMerge
  else if text = "merge_lists" then .ok .mergeLists
  else if text = "fail_on_conflict" then .ok .failOnConflict
  else .error (.valueError s!"{reprText text} is not a valid MergeStrategy")

/-- The serialised content of a state. -/
structure Snapshot where
  messages : List Value
  plan : Option Plan
  currentStep : Option Int
  observations : Dict String Value
  executionTrace : List ExecutionTraceEntry
  graphTrace : List GraphTraceEntry
  shortTermMemory : List Value
  longTermMemory : List Value
  episodicMemory : List Value
  sessionId : String
  query : String
  finalResult : Option String
  executionCritique : Option ExecutionCritique
  replanHistory : List ReplanningResult
  shouldStop : Bool
  replanAttempts : Nat
  executionSeed : Option Int
  stateVersionId : Option String
  branchId : String
  memory : Dict String Value
  planState : Option PlanStateSummary
deriving DecidableEq

/-- The keys under which two snapshots differ, with both snapshots. -/
structure StateDelta where
  keys : List String
  before : Snapshot
  after : Snapshot
deriving DecidableEq

/-- `compute_state_delta` and `_snapshot_diff`: the keys are in sorted order. -/
def snapshotDiff (before after : Snapshot) : StateDelta where
  keys :=
    (if before.branchId = after.branchId then [] else ["branch_id"]) ++
    (if before.currentStep = after.currentStep then [] else ["current_step"]) ++
    (if before.episodicMemory = after.episodicMemory then [] else ["episodic_memory"]) ++
    (if before.executionCritique = after.executionCritique then [] else ["execution_critique"]) ++
    (if before.executionSeed = after.executionSeed then [] else ["execution_seed"]) ++
    (if before.executionTrace = after.executionTrace then [] else ["execution_trace"]) ++
    (if before.finalResult = after.finalResult then [] else ["final_result"]) ++
    (if before.graphTrace = after.graphTrace then [] else ["graph_trace"]) ++
    (if before.longTermMemory = after.longTermMemory then [] else ["long_term_memory"]) ++
    (if before.memory = after.memory then [] else ["memory"]) ++
    (if before.messages = after.messages then [] else ["messages"]) ++
    (if before.observations = after.observations then [] else ["observations"]) ++
    (if before.plan = after.plan then [] else ["plan"]) ++
    (if before.planState = after.planState then [] else ["plan_state"]) ++
    (if before.query = after.query then [] else ["query"]) ++
    (if before.replanAttempts = after.replanAttempts then [] else ["replan_attempts"]) ++
    (if before.replanHistory = after.replanHistory then [] else ["replan_history"]) ++
    (if before.sessionId = after.sessionId then [] else ["session_id"]) ++
    (if before.shortTermMemory = after.shortTermMemory then [] else ["short_term_memory"]) ++
    (if before.shouldStop = after.shouldStop then [] else ["should_stop"]) ++
    (if before.stateVersionId = after.stateVersionId then [] else ["state_version_id"])
  before := before
  after := after

/-- `_compact_delta`: only the fact that the trace changed is kept, not its content. -/
def StateDelta.compact (delta : StateDelta) : StateDelta :=
  { delta with
    before := { delta.before with graphTrace := [] }
    after := { delta.after with graphTrace := [] } }

/-! ## Versions -/

structure StateVersion where
  versionId : String
  parentVersionId : Option String
  branchId : String
  nodeId : String
  stateHash : String
  snapshot : Snapshot
  diffFromParent : Option StateDelta
deriving DecidableEq

/-- Version history with branch support. -/
structure StateVersionStore where
  currentVersionId : Option String := none
  branchId : String := "main"
  versions : List StateVersion := []
  branches : Dict String String := .ofList [("main", "main")]
deriving DecidableEq

def StateVersionStore.getVersion (store : StateVersionStore) (versionId : String) :
    Option StateVersion :=
  store.versions.find? fun version => decide (version.versionId = versionId)

/-! ## The state -/

/-- What the plan of a state refers to: nothing, the plan of its plan state, or a plan
object of its own. -/
inductive PlanRef
  | unset
  | ofPlanState
  | own (plan : Plan)
deriving DecidableEq

/-- The graph compiled from a plan, as the arguments it was compiled from. -/
structure CompiledPlan where
  plan : Plan
  mergeStrategy : MergeStrategy
deriving DecidableEq

/-- The single global state mutated by graph nodes. The compiled graph is an entry of
`memory` in the source; it is never serialised. -/
structure AgentState where
  messages : List Value := []
  planRef : PlanRef := .unset
  currentStep : Option Int := none
  observations : Dict String Value := .empty
  executionTrace : List ExecutionTraceEntry := []
  graphTrace : List GraphTraceEntry := []
  memory : Dict String Value := .empty
  compiledPlanGraph : Option CompiledPlan := none
  shortTermMemory : List Value := []
  longTermMemory : List Value := []
  episodicMemory : List Value := []
  executionGraph : Option Ref := none
  versionStore : Option StateVersionStore := none
  stateVersionId : Option String := none
  branchId : String := "main"
  parentGraphId : Option String := none
  nestedGraphId : Option String := none
  sessionId : String := "default"
  query : String := ""
  planState : Option PlanState := none
  finalResult : Option String := none
  executionCritique : Option ExecutionCritique := none
  replanHistory : List ReplanningResult := []
  shouldStop : Bool := false
  replanAttempts : Nat := 0
  executionSeed : Option Int := none
deriving DecidableEq

namespace AgentState

/-- `state.plan`. -/
def plan (state : AgentState) : Option Plan :=
  match state.planRef with
  | .unset => none
  | .ofPlanState => state.planState.map PlanState.plan
  | .own plan => some plan

def appendMessage (state : AgentState) (role content : String) : AgentState :=
  { state with
    messages := state.messages ++ [.ofEntries [("role", .str role), ("content", .str content)]] }

def logGraph (state : AgentState) (nodeId event : String) (data : Args) : AgentState :=
  { state with
    graphTrace := state.graphTrace ++ [⟨nodeId, event, data, state.graphTrace.length⟩] }

/-- `state_to_serializable`. -/
def snapshot (state : AgentState) : Snapshot where
  messages := state.messages
  plan := state.plan
  currentStep := state.currentStep
  observations := state.observations
  executionTrace := state.executionTrace
  graphTrace := state.graphTrace
  shortTermMemory := state.shortTermMemory
  longTermMemory := state.longTermMemory
  episodicMemory := state.episodicMemory
  sessionId := state.sessionId
  query := state.query
  finalResult := state.finalResult
  executionCritique := state.executionCritique
  replanHistory := state.replanHistory
  shouldStop := state.shouldStop
  replanAttempts := state.replanAttempts
  executionSeed := state.executionSeed
  stateVersionId := state.stateVersionId
  branchId := state.branchId
  memory := state.memory
  planState := state.planState.map PlanState.summary

/-- `apply_snapshot`: everything serialised is taken over except the plan state. The state
is rebuilt, so its plan is an object of its own and its execution graph is the copy the
caller made. -/
def applySnapshot (state : AgentState) (snap : Snapshot) (graphCopy : Option Ref) : AgentState :=
  { state with
    messages := snap.messages
    planRef := snap.plan.elim .unset .own
    currentStep := snap.currentStep
    observations := snap.observations
    executionTrace := snap.executionTrace
    graphTrace := snap.graphTrace
    memory := snap.memory
    compiledPlanGraph := none
    shortTermMemory := snap.shortTermMemory
    longTermMemory := snap.longTermMemory
    episodicMemory := snap.episodicMemory
    executionGraph := graphCopy
    stateVersionId := snap.stateVersionId
    branchId := snap.branchId
    sessionId := snap.sessionId
    query := snap.query
    finalResult := snap.finalResult
    executionCritique := snap.executionCritique
    replanHistory := snap.replanHistory
    shouldStop := snap.shouldStop
    replanAttempts := snap.replanAttempts
    executionSeed := snap.executionSeed }

/-- `hash_state`: the digest of the serialised state without its traces. -/
def hash (digest : Snapshot → String) (state : AgentState) : String :=
  digest { state.snapshot with graphTrace := [], executionTrace := [] }

/-- `StateVersionManager.commit`, with the fresh version id. -/
def commitVersion (digest : Snapshot → String) (state : AgentState) (nodeId versionId : String) :
    AgentState :=
  let store := state.versionStore.getD {}
  let parentId := store.currentVersionId
  let parent := if truthy parentId then parentId.bind store.getVersion else none
  let version : StateVersion :=
    { versionId := versionId
      parentVersionId := parentId
      branchId := store.branchId
      nodeId := nodeId
      stateHash := state.hash digest
      snapshot := state.snapshot
      diffFromParent := parent.map fun own => snapshotDiff own.snapshot state.snapshot }
  { state with
    versionStore := some { store with
      currentVersionId := some versionId
      versions := store.versions ++ [version] }
    stateVersionId := some versionId }

end AgentState

end TripGraph
