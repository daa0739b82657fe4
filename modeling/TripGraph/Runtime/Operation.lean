import TripGraph.Foundation.Guarantees
import TripGraph.Plan.Graph
import TripGraph.Runtime.AgentState

/-! # The operations of the runtime

A run asks its planner, its tools, its critic and its memory store, and it reads and
changes objects that several runs or tasks share: the fields of the plan executor and of
the replanning controller, execution graphs, event lists, the replay cursor. What an
external component answers is left open; what a shared object answers is `Shared.answer`.
-/

namespace TripGraph

open Interaction

/-! ## What is asked -/

structure ContextCompressionResult where
  compressedContext : String
  keyFacts : List String
deriving DecidableEq

/-- What the context summarizer is shown. -/
structure CompressionPayload where
  goal : String
  stepOutputs : Dict Int Value
  toolOutputs : Dict String Value
  misc : List (String × Value)
  stepStatus : List (String × String)
deriving DecidableEq

inductive MemoryScope
  | shortTerm
  | longTerm
  | episodic
deriving DecidableEq

structure MemoryQuery where
  sessionId : String
  scope : Option MemoryScope
  limit : Nat
deriving DecidableEq

structure MemoryEntry where
  sessionId : String
  key : String
  content : Value
  scope : MemoryScope
  metadata : Args
deriving DecidableEq

structure GraphEdgeRecord where
  source : String
  target : String
  label : Option String
  kind : Option String
  sequence : Nat
deriving DecidableEq

structure NodeExecutionRecord where
  nodeId : String
  sequence : Nat
  inputStateHash : String
  outputStateHash : String
  stateDelta : StateDelta
  inputStateSnapshot : Option Snapshot
  outputStateSnapshot : Option Snapshot
  replayed : Bool
deriving DecidableEq

/-- Structured DAG of graph node executions. -/
structure ExecutionGraphModel where
  graphId : String
  sessionId : String
  seed : Option Int
  mode : String
  nodeRecords : List NodeExecutionRecord := []
  edgeRecords : List GraphEdgeRecord := []
deriving DecidableEq

/-- The events `Graph.astream` yields. -/
inductive GraphEvent
  | graphStart (graphId entry policy : String)
  | earlyStop (nodeId : String) (state : AgentState)
  | nodeStart (nodeId : String) (state : AgentState) (inputStateHash : String) (sequence : Nat)
  | nodeEnd (nodeId : String) (state : AgentState) (inputStateHash outputStateHash : String)
      (sequence : Nat)
  | parallelNodeStart (nodeId inputStateHash : String) (sequence : Nat)
  | parallelNodeEnd (nodeId inputStateHash outputStateHash : String) (sequence : Nat)
  | edge (source target : String) (label kind : Option String)
  | parallelFanout (source : String) (branches : List String) (joinNode : String)
  | parallelDone (state : AgentState) (sequence edgeSequence : Nat)
  | graphEnd (graphId : String) (iterations : Nat)
  | state (state : AgentState)
deriving DecidableEq

/-- The operations, by the component they go to. -/
inductive Op
  /- awaited components -/
  | createPlan (query : String)
  | replanUnfinishedSteps (state : PlanState) (failedStepId : Int) (error : String)
  | replanFromCritique (state : PlanState) (critique : ExecutionCritique) (anchorStepId : Int)
  | rulebasedReplanFromCritique (state : PlanState) (critique : ExecutionCritique)
      (anchorStepId : Int)
  | executeLlmCall (tool : String) (args : Args) (callId : String)
  | selectTool (task : String)
  | summarize (payload : CompressionPayload)
  | evaluate (state : PlanState) (finalResult : String)
  | memoryGet (query : MemoryQuery)
  | memorySave (entry : MemoryEntry)
  | maybePause (nodeId : String) (snapshot : Option Snapshot) (inputStateHash : String)
      (hooked : Bool)
  /- the consumer of the events, the event loop and the process -/
  | yield (event : GraphEvent)
  | schedule (tasks : Nat)
  | uuid4
  | seedRandom (seed : Int)
  /- tool policy engine and tracer -/
  | decidePolicy (toolHint : Option String) (task query : String)
  | recordPolicy (entry : ToolPolicyTraceEntry)
  | recordFallback (entry : ToolPolicyTraceEntry)
      (fallbackTool failureReason recoveryAction : String)
  | policyTrace
  /- fields of the plan executor -/
  | replanBudgetSpent (maxReplanAttempts : Nat)
  | countReplan
  | newPlanGraph (plan : Plan) (sessionId : String)
  | syncPlanGraph (state : PlanState)
  | updatePlanNode (stepId : Int) (status : GraphNodeStatus)
  | rebuildPlanGraph (plan : Plan)
  /- the counter of the replanning controller -/
  | attemptsUsed
  | countAttempt
  /- execution graphs -/
  | newGraph (model : ExecutionGraphModel)
  | copyGraph (graph : Ref)
  | mergeGraphs (left right : Ref)
  | addNodeRecord (graph : Ref) (record : NodeExecutionRecord)
  | addEdgeRecord (graph : Ref) (record : GraphEdgeRecord)
  | readGraph (graph : Ref)
  /- event lists of a fan-out -/
  | newEvents
  | pushEvent (events : Ref) (event : GraphEvent)
  | readEvents (events : Ref)
  /- the replay cursor of an execution policy -/
  | peekReplayRecord (nodeId : String)
  | nextReplayRecord
deriving DecidableEq

/-- The reply to each operation. A component that may raise replies with the exception. -/
@[reducible] def Op.Reply : Op → Type
  | .createPlan _ => Except RaisedError Plan
  | .replanUnfinishedSteps .. => Except RaisedError (List PlanStep)
  | .replanFromCritique .. => Except RaisedError (List PlanStep)
  | .rulebasedReplanFromCritique .. => Except RaisedError (List PlanStep)
  | .executeLlmCall .. => ToolObservation
  | .selectTool _ => Except RaisedError ToolSelectionResult
  | .summarize _ => Except RaisedError ContextCompressionResult
  | .evaluate .. => Except RaisedError ExecutionCritique
  | .memoryGet _ => Except RaisedError (List Value)
  | .memorySave _ => Except RaisedError Unit
  | .maybePause .. => Unit
  | .yield _ => Unit
  | .schedule _ => List Nat
  | .uuid4 => String
  | .seedRandom _ => Unit
  | .decidePolicy .. => ToolPolicyDecision
  | .recordPolicy _ => Unit
  | .recordFallback .. => Unit
  | .policyTrace => List ToolPolicyTraceEntry × List (String × Nat)
  | .replanBudgetSpent _ => Bool
  | .countReplan => Unit
  | .newPlanGraph .. => Unit
  | .syncPlanGraph _ => Except RaisedError Unit
  | .updatePlanNode .. => Except RaisedError Unit
  | .rebuildPlanGraph _ => Unit
  | .attemptsUsed => Nat
  | .countAttempt => Unit
  | .newGraph _ => Ref
  | .copyGraph _ => Ref
  | .mergeGraphs .. => Ref
  | .addNodeRecord .. => Unit
  | .addEdgeRecord .. => Unit
  | .readGraph _ => ExecutionGraphModel
  | .newEvents => Ref
  | .pushEvent .. => Unit
  | .readEvents _ => List GraphEvent
  | .peekReplayRecord _ => Option NodeExecutionRecord
  | .nextReplayRecord => Unit

/-- The operations and replies of the runtime. -/
@[reducible] def runtimeSig : Signature := ⟨Op, Op.Reply⟩

/-- A program of the runtime that may raise errors of type `ε`. -/
abbrev Effect (ε α : Type) := Program runtimeSig ε α

/-- A program of the runtime. -/
abbrev Runtime (α : Type) := Effect RaisedError α

/-- One operation of the runtime with its reply. -/
abbrev Event := Exchange runtimeSig

/-- The operations at which a task gives way to the others. -/
def Op.suspends : Op → Bool
  | .createPlan _ | .replanUnfinishedSteps .. | .replanFromCritique ..
  | .rulebasedReplanFromCritique .. | .executeLlmCall .. | .selectTool _ | .summarize _
  | .evaluate .. | .memoryGet _ | .memorySave _ => true
  | .maybePause _ _ _ hooked => hooked
  | _ => false

/-- Ask one operation. -/
abbrev ask {ε : Type} (op : Op) : Effect ε op.Reply := Program.perform (S := runtimeSig) op

/-- Raise an exception. -/
abbrev raise {ε α : Type} (error : ε) : Effect ε α := Program.fail error

section Asking

variable {ε α : Type} {op : Op} {trace : List Event}

@[simp] theorem runs_asking_iff {f : op.Reply → Effect ε α} {result : Except ε α} :
    Runs (S := runtimeSig) (@Bind.bind _ _ (no_index op.Reply) α (ask op) f) trace result ↔
      ∃ reply rest, trace = ⟨op, reply⟩ :: rest ∧ Runs (f reply) rest result := runs_ask_iff

theorem respects_asking {P : Op → Prop} {Q : α → Prop} {f : op.Reply → Effect ε α} (hop : P op)
    (hf : ∀ reply, Program.Respects (S := runtimeSig) P Q (f reply)) :
    Program.Respects (S := runtimeSig) P Q (ask op >>= f) := ⟨hop, hf⟩

theorem ensures_asking {G : (op : Op) → op.Reply → Prop} {P : Op → Prop} {Q : α → Prop}
    {f : op.Reply → Effect ε α} (hop : P op)
    (hf : ∀ reply, G op reply → Program.Ensures (S := runtimeSig) G P Q (f reply)) :
    Program.Ensures (S := runtimeSig) G P Q (ask op >>= f) := ⟨hop, hf⟩

theorem guarantees_asking {G : (op : Op) → op.Reply → Prop} {Q : α → Prop} {E : ε → Prop}
    {f : op.Reply → Effect ε α}
    (hf : ∀ reply, G op reply → Program.Guarantees (S := runtimeSig) G Q E (f reply)) :
    Program.Guarantees (S := runtimeSig) G Q E (ask op >>= f) := hf

theorem unfailing_asking {f : op.Reply → Effect ε α}
    (hf : ∀ reply, Program.Unfailing (S := runtimeSig) (f reply)) :
    Program.Unfailing (S := runtimeSig) (ask op >>= f) := hf

end Asking

end TripGraph
