import TripGraph.Runtime.Nodes
import TripGraph.Runtime.Shared

/-! # Components with fixed answers

Handled runs need components that answer. These answer each request alike whenever it is
made; a component that is not given answers as if nothing remarkable happened.
-/

namespace TripGraph

open Interaction

/-- The reply of a component to which nothing remarkable happens. -/
def Op.plainReply : (op : Op) → op.Reply
  | .createPlan _ => .ok ⟨"", []⟩
  | .replanUnfinishedSteps .. => .ok []
  | .replanFromCritique .. => .ok []
  | .rulebasedReplanFromCritique .. => .ok []
  | .executeLlmCall tool args _ => { tool := tool, args := args }
  | .selectTool _ => .ok ⟨none, 0, []⟩
  | .summarize _ => .ok ⟨"", []⟩
  | .evaluate .. => .ok ⟨1, "", false, true, []⟩
  | .memoryGet _ => .ok []
  | .memorySave _ => .ok ()
  | .maybePause .. => ()
  | .yield _ => ()
  | .schedule _ => []
  | .uuid4 => "version"
  | .seedRandom _ => ()
  | .decidePolicy .. => {}
  | .recordPolicy _ => ()
  | .recordFallback .. => ()
  | .policyTrace => ([], [])
  | .replanBudgetSpent _ => false
  | .countReplan => ()
  | .newPlanGraph .. => ()
  | .syncPlanGraph _ => .ok ()
  | .updatePlanNode .. => .ok ()
  | .rebuildPlanGraph _ => ()
  | .attemptsUsed => 0
  | .countAttempt => ()
  | .newGraph _ => 0
  | .copyGraph _ => 0
  | .mergeGraphs .. => 0
  | .addNodeRecord .. => ()
  | .addEdgeRecord .. => ()
  | .readGraph _ => ⟨"", "", none, "", [], []⟩
  | .newEvents => 0
  | .pushEvent .. => ()
  | .readEvents _ => []
  | .peekReplayRecord _ => none
  | .nextReplayRecord => ()

/-- A planner, a tool executor and a critic. -/
structure Components where
  createPlan : String → Except RaisedError Plan := fun _ => .ok ⟨"", []⟩
  replanUnfinishedSteps : PlanState → Int → String → Except RaisedError (List PlanStep) :=
    fun _ _ _ => .ok []
  replanFromCritique : PlanState → ExecutionCritique → Int → Except RaisedError (List PlanStep) :=
    fun _ _ _ => .ok []
  rulebasedReplanFromCritique :
      PlanState → ExecutionCritique → Int → Except RaisedError (List PlanStep) :=
    fun _ _ _ => .ok []
  executeLlmCall : String → Args → String → ToolObservation :=
    fun tool args _ => { tool := tool, args := args }
  evaluate : PlanState → String → Except RaisedError ExecutionCritique :=
    fun _ _ => .ok ⟨1, "", false, true, []⟩

namespace Components

def reply (components : Components) : (op : Op) → op.Reply
  | .createPlan query => components.createPlan query
  | .replanUnfinishedSteps state failedStepId error =>
      components.replanUnfinishedSteps state failedStepId error
  | .replanFromCritique state critique anchorStepId =>
      components.replanFromCritique state critique anchorStepId
  | .rulebasedReplanFromCritique state critique anchorStepId =>
      components.rulebasedReplanFromCritique state critique anchorStepId
  | .executeLlmCall tool args callId => components.executeLlmCall tool args callId
  | .evaluate state finalResult => components.evaluate state finalResult
  | op => op.plainReply

/-- The components together with shared objects. -/
def handler (components : Components) : Handler runtimeSig (SharedObjects × Unit) :=
  sharedHandler fun op state => (components.reply op, state)

/-- Run a program against the components and shared objects. -/
def exec {ε α : Type} (components : Components) (objects : SharedObjects) (p : Effect ε α) :
    Outcome runtimeSig ε α (SharedObjects × Unit) :=
  p.exec components.handler (objects, ())

/-- A handled run is a run of the program on the shared objects. -/
theorem runs_exec {ε α : Type} (components : Components) (objects : SharedObjects)
    (p : Effect ε α) :
    Runs p (components.exec objects p).trace (components.exec objects p).result ∧
      Follows SharedObjects.Step objects (components.exec objects p).trace
        (components.exec objects p).state.1 :=
  ⟨Program.runs_exec components.handler p (objects, ()),
    follows_exec (fun op state => (components.reply op, state)) p (objects, ())⟩

theorem exists_runs_exec {ε α : Type} {components : Components} {objects : SharedObjects}
    {p : Effect ε α} (h : (components.exec objects p).result.isOk = true) :
    ∃ value, Runs p (components.exec objects p).trace (.ok value) ∧
      Follows SharedObjects.Step objects (components.exec objects p).trace
        (components.exec objects p).state.1 := by
  obtain ⟨hrun, hfollows⟩ := runs_exec components objects p
  cases hresult : (components.exec objects p).result with
  | ok value => exact ⟨value, hresult ▸ hrun, hfollows⟩
  | error error => simp [hresult, Except.isOk, Except.toBool] at h

theorem exists_runs_exec_map {ε α β : Type} {components : Components} {objects : SharedObjects}
    {p : Effect ε α} {f : α → β} {image : β}
    (h : (components.exec objects p).result.map f = .ok image) :
    ∃ value, Runs p (components.exec objects p).trace (.ok value) ∧
      Follows SharedObjects.Step objects (components.exec objects p).trace
        (components.exec objects p).state.1 ∧ f value = image := by
  obtain ⟨hrun, hfollows⟩ := runs_exec components objects p
  cases hresult : (components.exec objects p).result with
  | ok value =>
      rw [hresult] at h
      exact ⟨value, hresult ▸ hrun, hfollows, Except.ok.inj h⟩
  | error error =>
      rw [hresult] at h
      cases h

end Components

/-! ## Plain configurations -/

/-- An executor with no optional component. -/
def plainExecutor (failurePolicy : FailurePolicy) (registry : List String) : ExecutorConfig where
  failurePolicy := failurePolicy
  stepMaxRetries := 0
  maxReplanAttempts := 2
  plannerConfigured := true
  validatorConfigured := true
  toolPolicyEnabled := false
  mcpFallbackEnabled := false
  policyEngineConfigured := false
  policyTracerConfigured := false
  compressionEnabled := false
  maxChars := 0
  registry := registry
  lower := id
  contextSize := fun _ => 0

/-- A runtime with no optional component but the critic. -/
def plainDependencies (failurePolicy : FailurePolicy) (registry : List String)
    (replanning : ReplanningConfig) : RuntimeDependencies where
  executor := plainExecutor failurePolicy registry
  replanning := replanning
  criticEnabled := true
  hasMemoryStore := false
  hasPolicyEngine := false
  hasPolicyTracer := false
  registry := registry
  planLoopFuel := 0
  digest := fun _ => ""
  synthesizeFinalResult := fun plan _ => plan.goal
  enrichContextFromQuery := fun _ => []

/-- A plan of one step. -/
def weatherPlan : Plan := ⟨"查询上海天气", [⟨1, "查询上海天气", some "weather", none⟩]⟩

/-- A plan with two steps side by side and one behind both. -/
def forkedPlan : Plan where
  goal := "比较上海和北京的旅行预算"
  steps :=
    [⟨1, "查询上海天气", some "weather", none⟩, ⟨2, "查询北京天气", some "weather", none⟩,
      ⟨3, "估算旅行预算", some "budget", some [1, 2]⟩]

end TripGraph
