import TripGraph.Compiler.Coverage
import TripGraph.Runtime.Mirror

/-! # The execution graph of a compiled plan

The nodes of a compiled plan run no graph of their own, so a plan whose levels are all
single steps is mirrored by its execution graph. Parallel levels are not.
-/

namespace TripGraph

open Interaction

variable {deps : RuntimeDependencies}

namespace PlanGraphCompiler

theorem records_of_stepMayAsk {op : Op} (h : stepMayAsk deps op = true) : op.records = false := by
  cases op <;> simp [stepMayAsk, PlanExecutor.mayAsk, PlanExecutor.mayCall, PlanExecutor.mayReplan,
    routerMayAsk, Op.records] at h ⊢

/-- A compiled plan is a flat graph. -/
theorem flat_compile {strategy : MergeStrategy} {plan : Plan} :
    (compile deps strategy plan).Flat := by
  apply eachNode_compile
  · exact fun _ => rfl
  · exact fun _ => rfl
  · intro stepId state
    apply Program.Respects.of_asks
    · exact (asks_stepNode stepId state).mono (fun _ h => records_of_stepMayAsk h) fun _ h => h
    · exact unwritten_stepNode (fun _ _ _ _ _ _ _ => rfl) stepId state
  · exact fun _ _ _ => rfl

end PlanGraphCompiler

namespace Graph

variable {digest : Snapshot → String} {graph : Graph} {streamed : Bool} {policy : ExecutionPolicy}

/-- Without fan-outs and outside a replay all moves are plain. -/
theorem Account.plain (hfanOuts : graph.fanOuts = []) (hmode : policy.mode ≠ .replay)
    {state final : AgentState} {trace : List Event} {moves : List Move}
    (h : Account digest graph streamed policy state trace moves final) :
    ∀ move ∈ moves, move.Plain digest graph := by
  obtain ⟨ref, _, own, _, reached, _, -, hjourney, -⟩ := h
  induction hjourney with
  | start => simp
  | next _ _ _ _ accounts ih =>
      intro move hmove
      rcases List.mem_append.mp hmove with hbefore | hlast
      · exact ih move hbefore
      obtain rfl := List.mem_singleton.mp hlast
      constructor
      · rw [fanOutFor, hfanOuts]
        rfl
      · intro execution hexecution hserved
        obtain ⟨_, _, hlooked, _⟩ := accounts.1 execution hexecution
        rw [Execution.Served, hlooked hmode] at hserved
        cases hserved

theorem executionGraph_mirrors_weatherPlan :
    let graph := PlanGraphCompiler.compile (plainDependencies .skip ["weather"] {}) .deepMerge
      weatherPlan
    let state := PlanGraphCompiler.freshState weatherPlan
    ∃ trace final last moves ref,
      Runs (run (fun _ => "") graph true {} state) trace (.ok final) ∧
      Follows SharedObjects.Step {} trace last ∧
      Account (fun _ => "") graph true {} state trace moves final ∧
      final.executionGraph = some ref ∧
      Mirrors (fun _ => "") graph moves (initialModel graph {} {} state) (last.graph ref) := by
  intro graph state
  obtain ⟨final, hrun, hfollows⟩ := Components.exists_runs_exec
    (show (PlanGraphCompiler.plainRun ["weather"] weatherPlan).result.isOk = true by decide +kernel)
  have hlive : ∀ given, state.executionGraph = some given →
      given < (({} : SharedObjects).graphs).length := fun given hgiven => by cases hgiven
  have hmirrors := executionGraph_mirrors PlanGraphCompiler.flat_compile hlive hrun hfollows
  obtain ⟨moves, hmoves⟩ := hmirrors.1
  have hfanOuts : graph.fanOuts = [] := by decide +kernel
  obtain ⟨ref, href, hmirrored⟩ := hmirrors.2 moves hmoves (hmoves.plain hfanOuts (by decide))
  exact ⟨_, final, _, moves, ref, hrun, hfollows, hmoves, href, hmirrored⟩

/-- Of the ten node executions of this plan its final execution graph has three. -/
theorem dualCityPlan_not_mirrored :
    let graph := PlanGraphCompiler.compile (plainDependencies .skip ["weather", "map", "budget"] {})
      .deepMerge PlanGraphCompiler.dualCityPlan
    let state := PlanGraphCompiler.freshState PlanGraphCompiler.dualCityPlan
    graph.Flat ∧ ∃ trace final last,
      Runs (run (fun _ => "") graph true {} state) trace (.ok final) ∧
      Follows SharedObjects.Step {} trace last ∧
      ∀ moves ref, Account (fun _ => "") graph true {} state trace moves final →
        final.executionGraph = some ref →
        ¬Mirrors (fun _ => "") graph moves (initialModel graph {} {} state) (last.graph ref) := by
  intro graph state
  refine ⟨PlanGraphCompiler.flat_compile, ?_⟩
  let outcome := PlanGraphCompiler.plainRun ["weather", "map", "budget"]
    PlanGraphCompiler.dualCityPlan
  have hgraph : outcome.result.map AgentState.executionGraph = .ok (some 8) := by decide +kernel
  obtain ⟨final, hrun, hfollows, hfinal⟩ := Components.exists_runs_exec_map hgraph
  refine ⟨_, final, _, hrun, hfollows, ?_⟩
  intro moves ref hmoves href hmirrors
  obtain rfl : 8 = ref := Option.some.inj (hfinal.symm.trans href)
  have hlive : ∀ given, state.executionGraph = some given →
      given < (({} : SharedObjects).graphs).length := fun given hgiven => by cases hgiven
  -- the graph object, at reference 0, has a record of all ten executions
  have hall := hmoves.live_nodes PlanGraphCompiler.flat_compile hlive hfollows
  have hlength := (hmirrors.nodes.trans hall.symm).length_eq
  rw [List.length_map, List.length_map] at hlength
  have hkept : (outcome.state.1.graph 8).nodeRecords.length = 3 := by decide +kernel
  have hmade : (outcome.state.1.graph 0).nodeRecords.length = 10 := by decide +kernel
  exact absurd (hkept.symm.trans (hlength.trans hmade)) (by decide)

end Graph

end TripGraph
