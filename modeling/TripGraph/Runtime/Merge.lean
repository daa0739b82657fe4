import TripGraph.Runtime.Operation

/-! # State merge strategies for parallel graph branches -/

namespace TripGraph

open Interaction

/-- `_dedupe_list`: the first of equal items is kept. -/
def dedupeList {α : Type} [BEq α] (items : List α) : List α := items.eraseDups

/-- The fields that are set in both states with different values. -/
def detectConflicts (left right : AgentState) : List String :=
  (if left.plan.isSome ∧ right.plan.isSome ∧ left.plan ≠ right.plan then ["plan"] else []) ++
    (if left.currentStep.isSome ∧ right.currentStep.isSome ∧ left.currentStep ≠ right.currentStep
      then ["current_step"] else []) ++
    (if left.finalResult.isSome ∧ right.finalResult.isSome ∧ left.finalResult ≠ right.finalResult
      then ["final_result"] else []) ++
    (if left.executionCritique.isSome ∧ right.executionCritique.isSome ∧
        left.executionCritique ≠ right.executionCritique then ["execution_critique"] else []) ++
    (if left.shouldStop ≠ right.shouldStop then ["should_stop"] else []) ++
    (if left.query ≠ right.query then ["query"] else [])

/-- `_merge_execution_graphs`. -/
def mergeExecutionGraphs : Option Ref → Option Ref → Runtime (Option Ref)
  | none, right => pure right
  | some left, none => pure (some left)
  | some left, some right => do
      let merged ← ask (.mergeGraphs left right)
      pure (some merged)

/-- Append the versions whose id is not present yet. -/
def unseenVersions (own : List StateVersion) : List StateVersion → List StateVersion
  | [] => own
  | version :: rest =>
      if own.any fun other => decide (other.versionId = version.versionId)
      then unseenVersions own rest
      else unseenVersions (own ++ [version]) rest

/-- `_merge_version_stores`. -/
def mergeVersionStores : Option StateVersionStore → Option StateVersionStore →
    Option StateVersionStore
  | none, right => right
  | some left, none => some left
  | some left, some right => some
      { versions := unseenVersions left.versions right.versions
        currentVersionId :=
          if truthy right.currentVersionId then right.currentVersionId else left.currentVersionId
        branches := left.branches.update right.branches
        branchId := if right.branchId = "" then left.branchId else right.branchId }

/-- `_deep_merge`: dictionaries are united, logs are concatenated without repetitions, and a
field that is set in the right state replaces that of the left one, the plan state too. -/
def deepMerge (left right : AgentState) : Runtime AgentState := do
  let executionGraph ← mergeExecutionGraphs left.executionGraph right.executionGraph
  pure { left with
    observations := left.observations.update right.observations
    memory := left.memory.update right.memory
    compiledPlanGraph := right.compiledPlanGraph.orElse fun _ => left.compiledPlanGraph
    messages := dedupeList (left.messages ++ right.messages)
    executionTrace := dedupeList (left.executionTrace ++ right.executionTrace)
    graphTrace := dedupeList (left.graphTrace ++ right.graphTrace)
    replanHistory := dedupeList (left.replanHistory ++ right.replanHistory)
    shortTermMemory := dedupeList (left.shortTermMemory ++ right.shortTermMemory)
    longTermMemory := dedupeList (left.longTermMemory ++ right.longTermMemory)
    episodicMemory := dedupeList (left.episodicMemory ++ right.episodicMemory)
    planRef := (right.plan.orElse fun _ => left.plan).elim .unset .own
    currentStep := right.currentStep.orElse fun _ => left.currentStep
    finalResult := right.finalResult.orElse fun _ => left.finalResult
    executionCritique := right.executionCritique.orElse fun _ => left.executionCritique
    planState := right.planState.orElse fun _ => left.planState
    shouldStop := left.shouldStop || right.shouldStop
    replanAttempts := max left.replanAttempts right.replanAttempts
    executionGraph := executionGraph
    versionStore := mergeVersionStores left.versionStore right.versionStore
    stateVersionId :=
      if truthy right.stateVersionId then right.stateVersionId else left.stateVersionId }

/-- `_merge_lists`. -/
def mergeLists (left right : AgentState) : Runtime AgentState := do
  let merged ← deepMerge left right
  pure { merged with
    messages := dedupeList (left.messages ++ right.messages)
    executionTrace := dedupeList (left.executionTrace ++ right.executionTrace)
    graphTrace := dedupeList (left.graphTrace ++ right.graphTrace) }

/-- `_merge_pair`. -/
def mergePair (strategy : MergeStrategy) (left right : AgentState) : Runtime AgentState :=
  match strategy with
  | .lastWins => pure right
  | .failOnConflict =>
      let conflicts := detectConflicts left right
      if conflicts = [] then deepMerge left right else raise (.mergeConflict conflicts)
  | .mergeLists => mergeLists left right
  | .deepMerge => deepMerge left right

/-- `merge_states`: the branches are merged into the base one after the other. -/
def mergeStates (strategy : MergeStrategy) : AgentState → List AgentState → Runtime AgentState
  | base, [] => pure base
  | base, branch :: rest => do
      let merged ← mergePair strategy base branch
      mergeStates strategy merged rest

end TripGraph
