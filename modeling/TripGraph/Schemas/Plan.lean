import TripGraph.Schemas.Value

/-! # Plan schemas -/

namespace TripGraph

/-- The exceptions the runtime raises, with their messages. -/
inductive RaisedError
  | agentLoop (message : String)
  | planValidation (message : String) (errors : List String)
  | keyError (message : String)
  | valueError (message : String)
  | typeError (message : String)
  | runtimeError (message : String)
  | mergeConflict (fields : List String)
  | external (kind : String) (message : String)
  | outOfFuel
deriving DecidableEq

/-- `str(error)`. -/
def RaisedError.text : RaisedError → String
  | .agentLoop message => message
  | .planValidation message _ => message
  | .keyError message => reprText message
  | .valueError message => message
  | .typeError message => message
  | .runtimeError message => message
  | .mergeConflict fields =>
      "Merge conflicts: [" ++ ", ".intercalate (fields.map reprText) ++ "]"
  | .external _ message => message
  | .outOfFuel => ""

inductive StepStatus
  | pending
  | running
  | completed
  | failed
  | skipped
deriving DecidableEq

/-- `StepStatus.value`. -/
def StepStatus.text : StepStatus → String
  | .pending => "pending"
  | .running => "running"
  | .completed => "completed"
  | .failed => "failed"
  | .skipped => "skipped"

/-- The statuses that satisfy a dependency. -/
def StepStatus.finished : StepStatus → Bool
  | .completed | .skipped => true
  | .pending | .running | .failed => false

/-- The statuses after which a step is not run again. -/
def StepStatus.settled : StepStatus → Bool
  | .completed | .failed | .skipped => true
  | .pending | .running => false

structure PlanStep where
  id : Int
  task : String
  toolHint : Option String
  dependency : Option (List Int)
deriving DecidableEq

/-- `step.dependency or []`. -/
def PlanStep.deps (step : PlanStep) : List Int := step.dependency.getD []

/-- `deps or None`. -/
def normalizeDeps (deps : List Int) : Option (List Int) :=
  if deps = [] then none else some deps

@[simp] theorem getD_normalizeDeps (deps : List Int) : (normalizeDeps deps).getD [] = deps := by
  unfold normalizeDeps
  split
  next h => simp [h]
  next => rfl

structure Plan where
  goal : String
  steps : List PlanStep
deriving DecidableEq

/-- The ids of the steps, in plan order. -/
def Plan.ids (plan : Plan) : List Int := plan.steps.map PlanStep.id

structure PlanValidationReport where
  success : Bool
  errors : List String
deriving DecidableEq

def PlanValidationReport.readableMessage (report : PlanValidationReport) : String :=
  if report.success then "Plan validation passed."
  else "Plan validation failed:\n- " ++ "\n- ".intercalate report.errors

structure StepResult where
  stepId : Int
  task : String
  status : StepStatus
  toolName : Option String := none
  toolArgs : Option Args := none
  observation : Value := .null
  error : Option String := none
  attempt : Nat := 1
  recoveryAction : Option String := none
deriving DecidableEq

structure ExecutionTraceEntry where
  stepId : Int
  task : String
  status : StepStatus
  toolName : Option String := none
  success : Option Bool := none
  error : Option String := none
  attempt : Nat := 1
  recoveryAction : Option String := none
deriving DecidableEq

/-! ## Tool policy decisions -/

inductive ToolProvider
  | builtin
  | mcp
  | unknown
deriving DecidableEq

inductive ToolFamily
  | weather
  | map
  | budget
  | echo
  | unknown
deriving DecidableEq

def ToolProvider.text : ToolProvider → String
  | .builtin => "builtin"
  | .mcp => "mcp"
  | .unknown => "unknown"

def ToolFamily.text : ToolFamily → String
  | .weather => "weather"
  | .map => "map"
  | .budget => "budget"
  | .echo => "echo"
  | .unknown => "unknown"

/-- `tool_provider`: the provider a tool name belongs to. -/
def toolProvider (toolName : Option String) : ToolProvider :=
  match toolName with
  | none => .unknown
  | some text =>
      if text = "" then .unknown
      else
        let name := text.toLower
        if "mcp_".toList.isPrefixOf name.toList then .mcp
        else if name ∈ ["weather", "map", "budget", "echo"] then .builtin
        else .unknown

structure ToolPolicyDecision where
  originalToolHint : Option String := none
  selectedTool : Option String := none
  selectedProvider : ToolProvider := .unknown
  toolFamily : ToolFamily := .unknown
  policyName : String := "planner_hint_first"
  confidence : Rat := 0
  fallbackCandidates : List String := []
  reason : String := ""
  fallbackUsed : Bool := false
  fallbackTool : Option String := none
  failureReason : Option String := none
  latencyMs : Option Rat := none
deriving DecidableEq

/-- The entries of `model_dump_json_safe`. -/
def ToolPolicyDecision.entries (d : ToolPolicyDecision) : List (String × Value) :=
  [("original_tool_hint", .ofText d.originalToolHint), ("selected_tool", .ofText d.selectedTool),
    ("selected_provider", .str d.selectedProvider.text), ("tool_family", .str d.toolFamily.text),
    ("policy_name", .str d.policyName), ("confidence", .float d.confidence),
    ("fallback_candidates", .list (d.fallbackCandidates.map .str)), ("reason", .str d.reason),
    ("fallback_used", .bool d.fallbackUsed), ("fallback_tool", .ofText d.fallbackTool),
    ("failure_reason", .ofText d.failureReason),
    ("latency_ms", .ofOption (d.latencyMs.map .float))]

/-- A policy decision enriched with execution context. -/
structure ToolPolicyTraceEntry where
  decision : ToolPolicyDecision
  sessionId : Option String := none
  stepId : Option Int := none
  task : Option String := none
  query : Option String := none
deriving DecidableEq

def ToolPolicyTraceEntry.toValue (entry : ToolPolicyTraceEntry) : Value :=
  .ofEntries (entry.decision.entries ++
    [("session_id", .ofText entry.sessionId), ("step_id", .ofOption (entry.stepId.map .int)),
      ("task", .ofText entry.task), ("query", .ofText entry.query)])

/-! ## Tool observations and router selections -/

structure ToolObservation where
  tool : String
  args : Args
  output : Value := .null
  success : Bool := true
  error : Option String := none
deriving DecidableEq

structure ToolAlternative where
  tool : String
  confidence : Rat
deriving DecidableEq

structure ToolSelectionResult where
  bestTool : Option String
  confidence : Rat
  alternatives : List ToolAlternative
deriving DecidableEq

/-! ## Critiques and replan results -/

structure ExecutionCritique where
  score : Rat
  critique : String
  needReplan : Bool
  goalCompleted : Bool
  missingInfo : List String
deriving DecidableEq

/-- What a replan result reports besides its plan. -/
structure ReplanReport where
  replanned : Bool
  replanReason : Option String := none
  replanAttempt : Nat := 0
  skippedReason : Option String := none
  repairApplied : Bool := false
  fallbackUsed : Bool := false
  repairNotes : List String := []
  validationErrors : List String := []
  completedStepOverrides : List String := []
deriving DecidableEq

structure ReplanningResult extends ReplanReport where
  newPlan : Plan
deriving DecidableEq

end TripGraph
