import TripGraph.Runtime.Versions

/-! # Snapshots outside the process

An API snapshot leaves the process as JSON and comes back with text keys everywhere. The
state rebuilt from it has its version history, but neither a plan state nor an execution
graph.
-/

namespace TripGraph

open Interaction

/-! ## JSON -/

/-- The key under which a JSON object holds the value of this key. -/
def Key.encoded : Key → Key
  | .int value => .str (toString value)
  | .str value => .str value

namespace Value

mutual

/-- `json.loads(json.dumps(value))`: of two keys with the same text the last value wins, at
the place of the first. -/
def viaJson : Value → Value
  | .null => .null
  | .bool value => .bool value
  | .int value => .int value
  | .float value => .float value
  | .str value => .str value
  | .list items => .list (viaJsonList items)
  | .dict items => .dict (viaJsonItems items [])

/-- The items of a list, one by one. -/
def viaJsonList : List Value → List Value
  | [] => []
  | item :: rest => viaJson item :: viaJsonList rest

/-- The entries of a dictionary, written behind those decoded so far. -/
def viaJsonItems : List (Key × Value) → List (Key × Value) → List (Key × Value)
  | [], decoded => decoded
  | (key, item) :: rest, decoded =>
      viaJsonItems rest (Dict.write decoded key.encoded (viaJson item))

end

end Value

/-- A serialised state after its way through JSON. The summary of the plan state is left as
it is, since nothing reads it back. -/
def Snapshot.viaJson (snap : Snapshot) : Snapshot :=
  { snap with
    messages := snap.messages.map Value.viaJson
    observations := snap.observations.map Value.viaJson
    graphTrace := snap.graphTrace.map fun entry =>
      { entry with data := entry.data.map fun item => (item.1, item.2.viaJson) }
    shortTermMemory := snap.shortTermMemory.map Value.viaJson
    longTermMemory := snap.longTermMemory.map Value.viaJson
    episodicMemory := snap.episodicMemory.map Value.viaJson
    memory := snap.memory.map Value.viaJson }

def StateDelta.viaJson (delta : StateDelta) : StateDelta :=
  { delta with before := delta.before.viaJson, after := delta.after.viaJson }

def StateVersion.viaJson (version : StateVersion) : StateVersion :=
  { version with
    snapshot := version.snapshot.viaJson
    diffFromParent := version.diffFromParent.map StateDelta.viaJson }

def StateVersionStore.viaJson (store : StateVersionStore) : StateVersionStore :=
  { store with versions := store.versions.map StateVersion.viaJson }

/-! ## API snapshots -/

/-- The content of an API snapshot: the serialised state and its version history. -/
structure ApiSnapshot where
  state : Snapshot
  versionStore : Option StateVersionStore
deriving DecidableEq

def ApiSnapshot.viaJson (snap : ApiSnapshot) : ApiSnapshot :=
  ⟨snap.state.viaJson, snap.versionStore.map StateVersionStore.viaJson⟩

namespace AgentState

/-- `api_snapshot`. -/
def apiSnapshot (state : AgentState) : ApiSnapshot := ⟨state.snapshot, state.versionStore⟩

/-- `from_api_snapshot`: a new state, for which plan state and execution graph are passed
over. -/
def fromApiSnapshot (snap : ApiSnapshot) : AgentState where
  messages := snap.state.messages
  planRef := snap.state.plan.elim .unset .own
  currentStep := snap.state.currentStep
  observations := snap.state.observations
  executionTrace := snap.state.executionTrace
  graphTrace := snap.state.graphTrace
  memory := snap.state.memory
  shortTermMemory := snap.state.shortTermMemory
  longTermMemory := snap.state.longTermMemory
  episodicMemory := snap.state.episodicMemory
  versionStore := snap.versionStore
  stateVersionId := snap.state.stateVersionId
  branchId := snap.state.branchId
  sessionId := snap.state.sessionId
  query := snap.state.query
  finalResult := snap.state.finalResult
  executionCritique := snap.state.executionCritique
  replanHistory := snap.state.replanHistory
  shouldStop := snap.state.shouldStop
  replanAttempts := snap.state.replanAttempts
  executionSeed := snap.state.executionSeed

/-- A state rebuilt from its own snapshot differs in its plan state, its execution graph and
the fields that are not serialised; all else has only been through JSON. -/
theorem snapshot_fromApiSnapshot (snap : ApiSnapshot) :
    (fromApiSnapshot snap).snapshot = { snap.state with planState := none } := by
  cases hplan : snap.state.plan with
  | none => simp [snapshot, fromApiSnapshot, plan, hplan]
  | some plan => simp [snapshot, fromApiSnapshot, AgentState.plan, hplan]

end AgentState

/-! ## Sessions -/

/-- A persisted session. -/
structure SessionRecord where
  sessionId : String
  history : List String := []
  lastExecutionId : Option String := none
  lastStateSnapshot : Option ApiSnapshot := none
deriving DecidableEq

/-- `append_execution`, with the row as it is read back. -/
def SessionRecord.appendExecution (existing : Option SessionRecord) (sessionId executionId : String)
    (stateSnapshot : ApiSnapshot) : SessionRecord :=
  let history := (existing.map SessionRecord.history).getD []
  { sessionId := sessionId
    history := if executionId ∈ history then history else history ++ [executionId]
    lastExecutionId := some executionId
    lastStateSnapshot := some stateSnapshot.viaJson }

end TripGraph
