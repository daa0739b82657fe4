import TripGraph.Plan.State

/-! # Lightweight plan normalization and repair -/

namespace TripGraph

open Interaction

structure RepairResult where
  plan : Plan
  repaired : Bool
  notes : List String
  idMap : Dict Int Int

namespace Repair

/-- `{1: 1, 3: 2}`. -/
def showIdMap (idMap : Dict Int Int) : String :=
  "\x7b" ++ ", ".intercalate (idMap.entries.map fun entry => s!"{entry.1}: {entry.2}") ++ "\x7d"

/-! ## Renumbering -/

/-- Map the dependencies of one step, dropping unknown and non-prior ones with a note. -/
def remapDeps (idMap : Dict Int Int) (stepId newId : Int) : List Int → List Int × List String
  | [] => ([], [])
  | dep :: rest =>
      let mapped := remapDeps idMap stepId newId rest
      match idMap.get? dep with
      | none => (mapped.1, s!"Step {stepId}: dropped unknown dependency {dep}" :: mapped.2)
      | some target =>
          if target ≥ newId then
            (mapped.1, s!"Step {stepId}: dropped non-prior dependency {dep}" :: mapped.2)
          else (target :: mapped.1, mapped.2)

/-- The step under its new id, and the notes about its dependencies. -/
def remapStep (idMap : Dict Int Int) (step : PlanStep) : PlanStep × List String :=
  let newId := (idMap.get? step.id).getD step.id
  let mapped := remapDeps idMap step.id newId step.deps
  ({ id := newId, task := step.task, toolHint := step.toolHint,
     dependency := normalizeDeps mapped.1 }, mapped.2)

/-- Each id with its position, counted from one. -/
def positions (steps : List PlanStep) : Dict Int Int :=
  .ofList (steps.zipIdx.map fun entry => (entry.1.id, (entry.2 : Int) + 1))

/-- Renumber step ids to continuous `1..n` and remap dependencies. -/
def renumberSteps (steps : List PlanStep) : List PlanStep × Dict Int Int × List String :=
  if steps = [] then ([], .empty, [])
  else
    let sortedSteps := sortById steps
    let idMap := positions sortedSteps
    let expected := (List.range sortedSteps.length).map fun index : Nat => (index : Int) + 1
    let renumbered :=
      if idMap.keys.insertionSort (· ≤ ·) ≠ expected ∨ idMap.values ≠ expected then
        [s!"Renumbered step ids: {showIdMap idMap}"]
      else []
    let remapped := sortedSteps.map (remapStep idMap)
    (remapped.map Prod.fst, idMap, renumbered ++ remapped.flatMap Prod.snd)

/-! ## Duplicates -/

/-- Remove exact duplicate steps (same stripped task and tool hint). -/
def removeDuplicateSteps : List (String × Option String) → List PlanStep →
    List PlanStep × List String
  | _, [] => ([], [])
  | seen, step :: rest =>
      let key := (strip step.task, step.toolHint)
      if key ∈ seen then
        let kept := removeDuplicateSteps seen rest
        (kept.1, (s!"Removed duplicate step: task={reprText step.task} " ++
          s!"tool_hint={showText step.toolHint}") :: kept.2)
      else
        let kept := removeDuplicateSteps (key :: seen) rest
        (step :: kept.1, kept.2)

/-- Normalize a plan: deduplicate steps, renumber ids, remap dependencies. -/
def repairPlan (plan : Plan) : RepairResult :=
  let deduped := removeDuplicateSteps [] plan.steps
  let renumbered := renumberSteps deduped.1
  let notes := deduped.2 ++ renumbered.2.2
  { plan := { goal := plan.goal, steps := renumbered.1 }
    repaired := decide (notes ≠ [])
    notes := notes
    idMap := renumbered.2.1 }

/-- Normalize a step list without changing the goal. -/
def repairSteps (steps : List PlanStep) : RepairResult :=
  repairPlan { goal := "(replan)", steps := steps }

/-! ## Planner-path normalization -/

/-- Case folding of the letters the synthesis pattern uses. -/
def foldChar (c : Char) : Char :=
  if c = 'İ' ∨ c = 'ı' then 'i' else if c = 'ſ' then 's' else c.toLower

/-- The text contains one of the words, ignoring case. -/
def mentions (words : List String) (text : String) : Bool :=
  let folded := text.toList.map foldChar
  words.any fun word => folded.tails.any fun tail => (word.toList.map foldChar).isPrefixOf tail

/-- `BUDGET_TASK_PATTERN`; its longer alternatives all contain one of these words. -/
def isBudgetTask (task : String) : Bool := mentions ["预算", "费用", "花费"] task

/-- `SYNTHESIS_TASK_PATTERN`. -/
def isSynthesisTask (task : String) : Bool :=
  mentions ["综合", "总结", "汇总", "生成完整", "完整行程", "最终计划", "finalize", "synthesis"] task

/-- The first index whose task is longest. -/
def longestTask (steps : List (PlanStep × Nat)) : Option (PlanStep × Nat) :=
  steps.foldl (fun best entry =>
    match best with
    | none => some entry
    | some own => if own.1.task.length < entry.1.task.length then some entry else some own) none

/-- Keep one budget step when multiple tasks are clearly budget calculations. -/
def deduplicateBudgetSteps (steps : List PlanStep) : List PlanStep × List String :=
  let isBudget (step : PlanStep) := decide (step.toolHint = some "budget") || isBudgetTask step.task
  let budget := steps.zipIdx.filter fun entry => isBudget entry.1
  if budget.length ≤ 1 then (steps, [])
  else
    let keepIndex := (longestTask budget).map Prod.snd
    let dropped (entry : PlanStep × Nat) := isBudget entry.1 && decide (some entry.2 ≠ keepIndex)
    (((steps.zipIdx.filter fun entry => !dropped entry).map Prod.fst),
      ((steps.zipIdx.filter dropped).map fun entry =>
        s!"Removed duplicate budget step: task={reprText entry.1.task}"))

/-- Turn final synthesis tasks into steps without a tool. -/
def normalizeSynthesisSteps (steps : List PlanStep) : List PlanStep × List String :=
  let clears (step : PlanStep) := truthy step.toolHint && isSynthesisTask step.task
  (steps.map fun step => if clears step then { step with toolHint := none } else step,
    (steps.filter clears).map fun step =>
      s!"Cleared tool_hint for synthesis step: task={reprText step.task} was " ++
        showText step.toolHint)

/-- `TOOL_ORDER.get(tool_hint or "", 99)`. -/
def toolOrder (hint : Option String) : Nat :=
  match hint with
  | some "weather" => 0
  | some "map" => 1
  | some "budget" => 2
  | _ => 99

/-- Stable-sort tool steps so weather tends to run before map and budget. -/
def preferToolExecutionOrder (steps : List PlanStep) : List PlanStep × List String :=
  if steps.length ≤ 1 then (steps, [])
  else
    let reordered := steps.zipIdx.insertionSort fun a b =>
      toolOrder a.1.toolHint ≤ toolOrder b.1.toolHint
    if reordered.map Prod.snd = List.range steps.length then (steps, [])
    else (reordered.map Prod.fst, ["Reordered steps to prefer weather → map → budget execution"])

/-- Dedup, synthesis cleanup, reorder, renumber. -/
def normalizePlan (plan : Plan) : RepairResult :=
  let deduped := removeDuplicateSteps [] plan.steps
  let budget := deduplicateBudgetSteps deduped.1
  let synthesis := normalizeSynthesisSteps budget.1
  let ordered := preferToolExecutionOrder synthesis.1
  let renumbered := renumberSteps ordered.1
  let notes := deduped.2 ++ budget.2 ++ synthesis.2 ++ ordered.2 ++ renumbered.2.2
  { plan := { goal := plan.goal, steps := renumbered.1 }
    repaired := decide (notes ≠ [])
    notes := notes
    idMap := renumbered.2.1 }

end Repair

end TripGraph
