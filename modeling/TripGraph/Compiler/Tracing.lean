import TripGraph.Compiler.Coverage
import TripGraph.Runtime.Numbering

/-! # The positions in the trace of a run

The nodes of a compiled plan only log, so a plan of single steps keeps the positions. A
plan with parallel steps does not, and neither does a run of the workflow, in which the plan
is a nested graph with a trace of its own.
-/

namespace TripGraph

open Interaction TripGraph.Graph

variable {digest : Snapshot → String} {graph : Graph} {streamed : Bool} {policy : ExecutionPolicy}

namespace PlanGraphCompiler

variable {deps : RuntimeDependencies}

/-- The nodes of a compiled plan only log. -/
theorem tame_compile {strategy : MergeStrategy} {plan : Plan} :
    (compile deps strategy plan).EachNode fun _ fn => TameNode digest fn := by
  apply eachNode_compile
  · refine .logs fun state trace next hrun => ⟨[], ?_⟩
    rw [Except.ok.inj (runs_pure_iff.mp hrun).2]
    rfl
  · refine .logs fun state trace next hrun => ⟨[], ?_⟩
    rw [Except.ok.inj (runs_pure_iff.mp hrun).2]
    rfl
  · intro stepId
    refine .logs fun state trace next hrun => ⟨[], ?_⟩
    have hfield : Unwritten AgentState.graphTrace := fun _ _ _ _ _ _ _ => rfl
    exact (unwritten_stepNode hfield stepId state).returns_of_runs hrun
  · intro levelIndex waitFor
    refine .logs fun state trace next hrun =>
      ⟨[(joinNodeId levelIndex, "join_complete", [("waited_for", .list (waitFor.map .str))])], ?_⟩
    rw [Except.ok.inj (runs_pure_iff.mp hrun).2]
    rfl

end PlanGraphCompiler

/-- In a run whose rounds execute nodes that keep the positions and merge at most one branch,
and whose replay serves numbered traces, every state that is reached has a numbered trace. -/
theorem numbered_of_steps {state : AgentState} {ref : Ref} {made : Nat} {trace : List Event}
    {cursor : Cursor} (hstate : Numbered state.graphTrace)
    (hrounds : Rounds digest graph streamed policy ref (startCursor graph policy ref state) made
      trace cursor)
    (hsteps : ∀ earlier before own, earlier < made → before <+: trace →
      Rounds digest graph streamed policy ref
        (startCursor graph policy ref state) earlier before own →
      StepsWith (TameNode digest) graph policy own.current)
    (hserved : ReplaysNumbered policy trace) :
    Numbered cursor.state.graphTrace ∧ ∀ budget last ended,
      LoopEnds digest graph streamed policy ref budget made cursor last (.ok ended) →
      Numbered ended.state.graphTrace := by
  have hadvances : ∀ earlier before own, earlier < made → before <+: trace →
      Rounds digest graph streamed policy ref
        (startCursor graph policy ref state) earlier before own →
      StepsWith (fun fn => NodeAdvances fn) graph policy own.current := by
    intro earlier before own hlt hbegins hown
    obtain ⟨hnode, hbranches, hmerges⟩ := hsteps earlier before own hlt hbegins hown
    exact ⟨fun fn hfn => (hnode fn hfn).advances,
      fun fanOut hfanOut nodeId hmem fn hfn =>
        (hbranches fanOut hfanOut nodeId hmem fn hfn).advances, hmerges⟩
  obtain ⟨hcursor, -⟩ := advances_rounds hrounds hadvances hserved hstate
  exact ⟨hcursor, fun budget last ended hends => (advances_loopEnds hends hcursor).1⟩

/-- A plan of one step, run for itself, keeps the positions. -/
theorem numbered_of_steps_weatherPlan :
    let deps := plainDependencies .skip ["weather"] {}
    ∃ trace final,
      Runs (astream deps.digest (PlanGraphCompiler.compile deps .deepMerge weatherPlan) {}
        (PlanGraphCompiler.freshState weatherPlan)) trace (.ok final) ∧
      Numbered final.graphTrace := by
  intro deps
  obtain ⟨final, hrun, -⟩ := Components.exists_runs_exec
    (show (PlanGraphCompiler.plainRun ["weather"] weatherPlan).result.isOk = true by decide +kernel)
  refine ⟨_, final, hrun, ?_⟩
  obtain ⟨ref, total, first, own, last, tail, reached, ended, -, hrounds, hends, hfinal, -⟩ :=
    exists_rounds_of_runs hrun
  have hplain : (PlanGraphCompiler.compile deps .deepMerge weatherPlan).fanOuts = [] := by
    decide +kernel
  have hnone : ∀ nodeId, (PlanGraphCompiler.compile deps .deepMerge weatherPlan).fanOutFor nodeId =
      none := fun nodeId => by rw [fanOutFor, hplain]; rfl
  have hsteps : ∀ nodeId, StepsWith (TameNode deps.digest)
      (PlanGraphCompiler.compile deps .deepMerge weatherPlan) {} nodeId := by
    intro nodeId
    refine ⟨fun fn hfn => PlanGraphCompiler.tame_compile nodeId fn hfn, fun fanOut hfanOut => ?_,
      fun fanOut hfanOut => ?_⟩
    · rw [hnone] at hfanOut
      cases hfanOut
    · rw [hnone] at hfanOut
      cases hfanOut
  obtain ⟨-, hnumbered⟩ := numbered_of_steps positioned_nil hrounds
    (fun _ _ cursor _ _ _ => hsteps cursor.current) fun hreplay => by cases hreplay
  cases ended with
  | error error => cases hfinal
  | ok ended =>
      cases hfinal
      exact hnumbered _ _ _ hends

/-- In a run of the workflow the trace of the nested plan is appended as it is. -/
theorem weatherPlan_not_numbered :
    let workflow := AgentWorkflowBuilder.build (plainDependencies .skip ["weather"] {}) 50
    Numbered (initialState "查询上海天气" "default").graphTrace ∧
    ∃ trace final objects, Runs (run (fun _ => "") workflow true {}
        (initialState "查询上海天气" "default")) trace (.ok final) ∧
      Follows SharedObjects.Step {} trace objects ∧ ¬Numbered final.graphTrace := by
  intro workflow
  refine ⟨positioned_nil, ?_⟩
  let components : Components := { createPlan := fun _ => .ok weatherPlan }
  let query := run (fun _ => "") workflow true {} (initialState "查询上海天气" "default")
  have hentry : (components.exec {} query).result.map (fun final : AgentState =>
      final.graphTrace[10]?.map GraphTraceEntry.stepIndex) = .ok (some 0) := by decide +kernel
  obtain ⟨final, hrun, hfollows, hfinal⟩ := Components.exists_runs_exec_map hentry
  refine ⟨_, final, _, hrun, hfollows, fun hnumbered => ?_⟩
  obtain ⟨entry, hget, hindex⟩ := Option.map_eq_some_iff.mp hfinal
  have hposition := hnumbered 10 entry hget
  omega

end TripGraph
