import TripGraph.Compiler.Coverage
import TripGraph.Runtime.Rounds

/-! # How far a run of a compiled graph walks

Behind each level two rounds at most lead on, so the budget of a compiled graph is never spent
before its end, whatever its nodes do. The check before each round keeps the sink from being
executed in a run that ends with all steps finished.
-/

namespace TripGraph

open Interaction

namespace Graph

variable {digest : Snapshot → String} {graph : Graph} {streamed : Bool} {policy : ExecutionPolicy}
  {executionGraph : Ref}

/-! ## Moves -/

/-- Where a round at a node goes on, by the state it ends in. -/
def destination (graph : Graph) (nodeId : String) (state : AgentState) : String :=
  match graph.fanOutFor nodeId with
  | some fanOut => graph.afterFanOut fanOut state
  | none => graph.resolveNext nodeId state

theorem Resolves.destination_eq {nodeId target : String} (h : graph.Resolves nodeId target)
    (hfanOut : graph.fanOutFor nodeId = none) (state : AgentState) :
    graph.destination nodeId state = target := by
  rw [destination, hfanOut]
  exact h.resolveNext_eq state

theorem destination_of_fanOut {nodeId : String} {fanOut : ParallelFanOut} {spec : JoinSpec}
    (hfanOut : graph.fanOutFor nodeId = some fanOut)
    (hspec : graph.joinSpecs fanOut.joinNode = some spec) (hnext : spec.nextNode ≠ "")
    (state : AgentState) : graph.destination nodeId state = spec.nextNode := by
  simp [destination, hfanOut, afterFanOut, hspec, hnext]

theorem exists_destination_of_round {cursor next : Cursor} {trace : List Event}
    (h : Runs (round digest graph streamed policy executionGraph cursor) trace (.ok next)) :
    ∃ state, next.current = graph.destination cursor.current state := by
  rw [round] at h
  split at h
  next fanOut hfanOut =>
    -- whether or not the node itself exists, the branches are run behind it
    obtain ⟨visited, rest, hrest⟩ : ∃ visited rest, Runs (do
        let done ← runParallelFanout digest graph streamed policy executionGraph fanOut visited
        pure { done with
          current := graph.afterFanOut fanOut done.state
          iterations := done.iterations + 1 }) rest (.ok next) := by
      rw [fanOutRound] at h
      split at h
      · obtain ⟨visited, own, rest, -, hrest, -⟩ := runs_bind_ok_iff.mp h
        exact ⟨visited, rest, hrest⟩
      · exact ⟨cursor, trace, h⟩
    obtain ⟨done, parallel, last, -, hlast, rfl⟩ := runs_bind_ok_iff.mp hrest
    obtain ⟨-, hnext⟩ := runs_pure_iff.mp hlast
    cases hnext
    exact ⟨done.state, by rw [destination, hfanOut]⟩
  next hfanOut =>
    split at h
    next =>
      obtain ⟨own, visited, -, rfl, -⟩ := runs_nodeRound h
      exact ⟨visited.state, by rw [destination, hfanOut]⟩
    next => simp at h

/-- At most so many rounds lead from the node to the end, whatever the states are. -/
def ReachesEnd (graph : Graph) : Nat → String → Prop
  | 0, nodeId => nodeId = endNode
  | bound + 1, nodeId =>
      nodeId = endNode ∨ ∀ state, graph.ReachesEnd bound (graph.destination nodeId state)

namespace ReachesEnd

variable {bound : Nat} {nodeId : String}

theorem mono (h : graph.ReachesEnd bound nodeId) {larger : Nat} (hle : bound ≤ larger) :
    graph.ReachesEnd larger nodeId := by
  induction bound generalizing nodeId larger with
  | zero =>
      cases larger with
      | zero => exact h
      | succ larger => exact .inl h
  | succ bound ih =>
      obtain ⟨larger, rfl⟩ : ∃ own, larger = own + 1 := ⟨larger - 1, by omega⟩
      exact h.imp_right fun hnext state => ih (hnext state) (by omega)

theorem of_resolves {target : String} (h : graph.Resolves nodeId target)
    (hfanOut : graph.fanOutFor nodeId = none) (htarget : graph.ReachesEnd bound target) :
    graph.ReachesEnd (bound + 1) nodeId :=
  .inr fun state => (h.destination_eq hfanOut state).symm ▸ htarget

/-- Each round of a run uses one of them up. -/
theorem rounds {start cursor : Cursor} {made : Nat} {trace : List Event}
    (hwalk : graph.ReachesEnd bound start.current)
    (h : Rounds digest graph streamed policy executionGraph start made trace cursor) :
    made ≤ bound ∧ graph.ReachesEnd (bound - made) cursor.current := by
  induction h with
  | start => exact ⟨Nat.zero_le _, hwalk⟩
  | @next made trace own cursor after before current goesOn round ih =>
      obtain ⟨hle, hreaches⟩ := ih
      obtain ⟨state, hdestination⟩ := exists_destination_of_round round
      obtain ⟨left, hleft⟩ : ∃ left, bound - made = left + 1 := by
        refine Nat.exists_eq_succ_of_ne_zero fun hzero => current ?_
        rwa [hzero] at hreaches
      rw [hleft] at hreaches
      have hnext := hreaches.resolve_left current state
      rw [← hdestination] at hnext
      refine ⟨by omega, ?_⟩
      rwa [show bound - (made + 1) = left by omega]

/-- Where a node is left to run, rounds are left too. -/
theorem made_lt {start cursor : Cursor} {made : Nat} {trace : List Event}
    (hwalk : graph.ReachesEnd bound start.current)
    (h : Rounds digest graph streamed policy executionGraph start made trace cursor)
    (hcurrent : cursor.current ≠ endNode) : made < bound := by
  obtain ⟨hle, hreaches⟩ := hwalk.rounds h
  refine Nat.lt_of_le_of_ne hle fun heq => hcurrent ?_
  rwa [heq, Nat.sub_self] at hreaches

end ReachesEnd

end Graph

namespace PlanGraphCompiler

open TripGraph.Graph

section Levels

variable {graph : Graph}

/-- Two rounds lead from the node before a level to that before the next one, at most. -/
theorem reachesEnd_of_laid (hsink : graph.ReachesEnd 1 "plan_sink") {levels : List (List PlanStep)}
    (hlevels : ∀ level ∈ levels, level ≠ []) {previous : String} {levelIndex : Nat}
    (hlaid : Laid graph previous levelIndex levels) :
    graph.ReachesEnd (2 * levels.length + 2) previous ∧
      graph.ReachesEnd (2 * levels.length + 1) (nextAfterJoin levels) := by
  induction levels generalizing previous levelIndex with
  | nil =>
      obtain ⟨-, hfanOut, hedge⟩ := hlaid
      exact ⟨.of_resolves hedge hfanOut hsink, hsink⟩
  | cons level rest ih =>
      obtain ⟨hlinked, hrest⟩ := hlaid
      obtain ⟨hjoin, hafter⟩ := ih (fun own hown => hlevels own (List.mem_cons_of_mem _ hown)) hrest
      obtain ⟨first, others, rfl⟩ := List.exists_cons_of_ne_nil (hlevels level List.mem_cons_self)
      have hfirst : graph.ReachesEnd (2 * rest.length + 3) (stepNodeId first.id) := by
        obtain ⟨hfanOut, hedge⟩ := hlinked.steps _ List.mem_cons_self
        exact .of_resolves hedge hfanOut hjoin
      rw [List.length_cons]
      refine ⟨?_, hfirst.mono (by omega)⟩
      by_cases hlength : (first :: others).length = 1
      · obtain rfl : others = [] := by simpa using hlength
        obtain ⟨hfanOut, hedge⟩ := hlinked.single first rfl
        exact (ReachesEnd.of_resolves hedge hfanOut hfirst).mono (by omega)
      · have hfanOut := hlinked.parallel hlength
        have hwide : graph.ReachesEnd (2 * rest.length + 2) previous := by
          refine .inr fun state => ?_
          rw [destination_of_fanOut hfanOut hlinked.spec (nextAfterJoin_ne rest).1]
          exact hafter
        exact hwide.mono (by omega)

end Levels

section Budget

variable {registry : List String} {deps : RuntimeDependencies} {strategy : MergeStrategy}
  {plan : Plan}

theorem reachesEnd_compile (hplan : plan.WellFormed registry) :
    (compile deps strategy plan).ReachesEnd (2 * plan.steps.length + 2)
      (compile deps strategy plan).entry := by
  have hcompiled : Compiled deps plan (compile deps strategy plan) := compiled_compile hplan
  have hsink : (compile deps strategy plan).ReachesEnd 1 "plan_sink" :=
    .of_resolves hcompiled.sinkEdge hcompiled.sinkFanOut rfl
  have hlevels : ∀ level ∈ topologicalLevels plan, level ≠ [] :=
    fun level hlevel => ne_nil_of_mem_topologicalLevels hlevel
  have hlength := length_le_of_ne_nil hlevels
  rw [(flatten_topologicalLevels_perm hplan).length_eq] at hlength
  rw [hcompiled.entry]
  exact (reachesEnd_of_laid hsink hlevels hcompiled.laid).1.mono (by omega)

theorem reachesEnd_nodes {graph : Graph} (behaviour : String → Option NodeFn) {bound : Nat}
    {nodeId : String} (h : graph.ReachesEnd bound nodeId) :
    ReachesEnd { graph with nodes := behaviour } bound nodeId := by
  induction bound generalizing nodeId with
  | zero => exact h
  | succ bound ih => exact h.imp_right fun hnext state => ih (hnext state)

/-- A run of a compiled graph leaves its loop at the end or because it stops: while a node is left
to run, the budget is not spent, whatever the nodes do. -/
theorem budget_suffices (hplan : (PlanValidator.validate registry plan).success = true)
    (behaviour : String → Option NodeFn) {graph : Graph}
    (hgraph : graph = { compile deps strategy plan with nodes := behaviour })
    {digest : Snapshot → String} {streamed : Bool} {policy : ExecutionPolicy}
    {state result : AgentState} {trace : List Event}
    (h : Runs (run digest graph streamed policy state) trace (.ok result)) :
    ∃ ref total first own last tail reached ended,
      Rounds digest graph streamed policy ref
        (startCursor graph policy ref state) total own reached ∧
        LoopEnds digest graph streamed policy ref
          (max (plan.steps.length * 4) 10) total reached last
          (.ok ended) ∧
        result = ended.state ∧ trace = first ++ (own ++ (last ++ tail)) ∧
        (reached.current ≠ endNode →
          graph.stops reached.state = .ok true ∧ total < max (plan.steps.length * 4) 10) := by
  have hwell := PlanValidator.wellFormed_of_validate hplan
  have hsteps : 0 < plan.steps.length := List.length_pos_iff.mpr hwell.nonempty
  obtain ⟨-, -, hmaxIterations, -⟩ := settings_compile deps strategy plan
  have hbudget :
      graph.maxIterations = max (plan.steps.length * 4) 10 := by rw [hgraph, ← hmaxIterations]
  have hwalk : graph.ReachesEnd (2 * plan.steps.length + 2) graph.entry := by
    rw [hgraph]
    exact reachesEnd_nodes behaviour (reachesEnd_compile hwell)
  obtain ⟨ref, total, first, own, last, tail, reached, ended, -, hrounds, hends, hresult, -, -,
    -, -, rfl⟩ := exists_rounds_of_runs h
  have hspent : reached.current ≠ endNode →
      total < max (plan.steps.length * 4) 10 := fun hcurrent =>
    lt_of_lt_of_le (hwalk.made_lt hrounds hcurrent) (by omega)
  rw [hbudget] at hends
  obtain ⟨ended, rfl⟩ : ∃ own, ended = .ok own := by
    cases ended with
    | ok ended => exact ⟨ended, rfl⟩
    | error error => cases hresult
  refine ⟨ref, total, first, own, last, tail, reached, ended, hrounds, hends, Except.ok.inj hresult,
    rfl, fun hcurrent => ⟨?_, hspent hcurrent⟩⟩
  cases hends with
  | exhausted spent => exact absurd (hspent hcurrent) (by omega)
  | atEnd current => exact absurd current hcurrent
  | stopped current stops => exact stops

end Budget

/-! ## The sink -/

section Sink

variable {deps : RuntimeDependencies} {plan : Plan} {graph : Graph} {digest : Snapshot → String}
  {streamed : Bool} {policy : ExecutionPolicy} {executionGraph : Ref}

/-- Where a run of a compiled graph is: before a level or behind the last one, at a step of a
level, at the sink or at the end. -/
inductive Stands (graph : Graph) : String → Prop
  | before {levelIndex : Nat} {levels : List (List PlanStep)}
      (nonempty : ∀ level ∈ levels, level ≠ [])
      (laid : Laid graph (nodeBefore levelIndex) levelIndex levels) :
      Stands graph (nodeBefore levelIndex)
  | step {previous nodeId : String} {levelIndex : Nat} {level : List PlanStep}
      {rest : List (List PlanStep)} (nonempty : ∀ level ∈ rest, level ≠ [])
      (linked : Linked graph previous levelIndex level (nextAfterJoin rest))
      (laid : Laid graph (nodeBefore (levelIndex + 1)) (levelIndex + 1) rest)
      (mem : nodeId ∈ levelNodes level) : Stands graph nodeId
  | sink : Stands graph "plan_sink"
  | ended : Stands graph endNode

/-- Behind a join the run stands at the first step of the next level, or at the sink. -/
theorem stands_nextAfterJoin {levelIndex : Nat} {levels : List (List PlanStep)}
    (hlevels : ∀ level ∈ levels, level ≠ [])
    (hlaid : Laid graph (nodeBefore levelIndex) levelIndex levels) :
    Stands graph (nextAfterJoin levels) := by
  cases levels with
  | nil => exact .sink
  | cons level rest =>
      obtain ⟨hlinked, hrest⟩ := hlaid
      obtain ⟨first, others, rfl⟩ := List.exists_cons_of_ne_nil (hlevels level List.mem_cons_self)
      exact .step (fun own hown => hlevels own (List.mem_cons_of_mem _ hown)) hlinked hrest
        List.mem_cons_self

theorem nodeId_ne_sink_of_executed {nodeId : String} (hne : nodeId ≠ "plan_sink") :
    ∀ visit ∈ executed nodeId, visit.nodeId ≠ "plan_sink" := fun _ hvisit =>
  (nodeId_of_mem_executed hvisit).symm ▸ hne

/-- A round stays on the graph, and executes the sink at the sink only. -/
theorem stands_round (hcompiled : Compiled deps plan graph) {cursor next : Cursor}
    {trace : List Event} (hstands : Stands graph cursor.current) (hend : cursor.current ≠ endNode)
    (h : Runs (round digest graph streamed policy executionGraph cursor) trace (.ok next)) :
    Stands graph next.current ∧
      (cursor.current = "plan_sink" ∨ ∀ visit ∈ visits trace, visit.nodeId ≠ "plan_sink") := by
  generalize hcurrent : cursor.current = current at hstands hend
  cases hstands with
  | @before levelIndex levels nonempty laid =>
      have hsink := nodeId_ne_sink_of_executed (nodeBefore_ne_sink levelIndex)
      cases levels with
      | nil =>
          obtain ⟨-, hfanOut, hedge⟩ := laid
          obtain ⟨hmarks, hnext⟩ := visits_round_node hcompiled.quiet (hcurrent ▸ hfanOut)
            (hcurrent ▸ hedge) h
          rw [hmarks, hnext, hcurrent]
          exact ⟨.sink, .inr hsink⟩
      | cons level rest =>
          obtain ⟨hlinked, hrest⟩ := laid
          replace hrest : Laid graph (nodeBefore (levelIndex + 1)) (levelIndex + 1) rest := hrest
          have hrestNonempty := fun own hown => nonempty own (List.mem_cons_of_mem level hown)
          by_cases hlength : level.length = 1
          · obtain ⟨step, rfl⟩ := List.length_eq_one_iff.mp hlength
            obtain ⟨hfanOut, hedge⟩ := hlinked.single step rfl
            obtain ⟨hmarks, hnext⟩ := visits_round_node hcompiled.quiet (hcurrent ▸ hfanOut)
              (hcurrent ▸ hedge) h
            rw [hmarks, hnext, hcurrent]
            exact ⟨.step hrestNonempty hlinked hrest List.mem_cons_self, .inr hsink⟩
          · obtain ⟨hnext, marks, hperm, hmarks⟩ := visits_round_fanOut hcompiled.quiet
              (hcurrent ▸ hlinked.previousNode) (hcurrent ▸ hlinked.parallel hlength)
              (Option.isSome_of_mem hlinked.joinNode) hlinked.spec (nextAfterJoin_ne rest).1 h
            rw [hmarks, hnext, hcurrent]
            refine ⟨stands_nextAfterJoin hrestNonempty hrest, .inr fun visit hvisit => ?_⟩
            rcases List.mem_append.mp hvisit with hvisit | hvisit
            · exact hsink visit hvisit
            rcases List.mem_append.mp hvisit with hvisit | hvisit
            · obtain ⟨branch, hbranch, hmem⟩ := List.mem_flatMap.mp (hperm.mem_iff.mp hvisit)
              obtain ⟨step, -, rfl⟩ := mem_levelNodes.mp hbranch
              exact nodeId_ne_sink_of_executed (stepNodeId_ne_sink _) visit hmem
            · exact nodeId_ne_sink_of_executed (joinNodeId_ne_sink levelIndex) visit hvisit
  | step nonempty linked laid mem =>
      obtain ⟨hfanOut, hedge⟩ := linked.steps _ mem
      obtain ⟨hmarks, hnext⟩ := visits_round_node hcompiled.quiet (hcurrent ▸ hfanOut)
        (hcurrent ▸ hedge) h
      obtain ⟨step, -, rfl⟩ := mem_levelNodes.mp mem
      rw [hmarks, hnext, hcurrent]
      exact ⟨.before nonempty laid, .inr (nodeId_ne_sink_of_executed (stepNodeId_ne_sink _))⟩
  | sink =>
      obtain ⟨-, hnext⟩ := visits_round_node hcompiled.quiet (hcurrent ▸ hcompiled.sinkFanOut)
        (hcurrent ▸ hcompiled.sinkEdge) h
      rw [hnext]
      exact ⟨.ended, .inl rfl⟩
  | ended => exact absurd rfl hend

theorem planState_runOrServe_sink {record : Option NodeExecutionRecord} {inputHash : String}
    {state after : AgentState} {replayed : Bool} {trace : List Event}
    (h : Runs (runOrServe sinkNode record inputHash state) trace (.ok (after, replayed))) :
    after.planState = state.planState := by
  unfold runOrServe at h
  split at h
  · obtain ⟨copied, _, rest, -, hrest, rfl⟩ := runs_bind_ok_iff.mp h
    obtain ⟨-, _, -, hpure⟩ := runs_asking_iff.mp hrest
    cases (runs_pure_iff.mp hpure).2
    rfl
  · obtain ⟨ended, own, rest, hown, hrest, rfl⟩ := runs_bind_ok_iff.mp h
    cases (runs_pure_iff.mp hown).2
    split at hrest
    · obtain ⟨_, _, -, hpure⟩ := runs_asking_iff.mp hrest
      cases (runs_pure_iff.mp hpure).2
      rfl
    · cases (runs_pure_iff.mp hrest).2
      rfl

/-- The sink leaves the plan state alone, executed or served from a record. -/
theorem planState_round_sink (hcompiled : Compiled deps plan graph) {cursor next : Cursor}
    {trace : List Event} (hcurrent : cursor.current = "plan_sink")
    (h : Runs (round digest graph streamed policy executionGraph cursor) trace (.ok next)) :
    next.current = endNode ∧ next.state.planState = cursor.state.planState := by
  obtain ⟨own, -, -, hown, hnext, -⟩ := runs_round_plain (hcurrent ▸ hcompiled.sinkFanOut) h
  refine ⟨hnext.trans ((hcurrent ▸ hcompiled.sinkEdge : graph.Resolves cursor.current
    endNode).resolveNext_eq _), ?_⟩
  have hnode : graph.nodes cursor.current = some sinkNode := hcurrent ▸ hcompiled.sinkNode
  obtain ⟨record, ran, middle, -, hmiddle, ⟨error, -, herror, -⟩ |
    ⟨after, replayed, versionId, rfl, hresult, -⟩⟩ := runs_executeNode hnode hown
  · cases herror
  · have hplan : after.planState = (startNode digest cursor.current cursor.state).planState :=
      planState_runOrServe_sink hmiddle
    rw [Except.ok.inj hresult]
    exact hplan

/-- All steps of the plan state are finished. -/
def Finished (state : AgentState) : Prop := termination state = .ok true

theorem not_finished_of_goesOn (hcompiled : Compiled deps plan graph) {state : AgentState}
    (h : graph.stops state = .ok false) : ¬ Finished state := by
  rw [stops, hcompiled.termination] at h
  split at h
  · cases h
  · intro hfinished
    rw [hfinished] at h
    cases h

/-- As long as a run goes on, the sink is not executed; behind it steps are unfinished. -/
theorem sink_rounds (hcompiled : Compiled deps plan graph) {start cursor : Cursor} {made : Nat}
    {trace : List Event} (hstart : start.current = "plan_entry")
    (h : Rounds digest graph streamed policy executionGraph start made trace cursor) :
    Stands graph cursor.current ∧ ((∀ visit ∈ visits trace, visit.nodeId ≠ "plan_sink") ∨
      cursor.current = endNode ∧ ¬ Finished cursor.state) := by
  induction h with
  | start =>
      refine ⟨?_, .inl fun _ hvisit => absurd hvisit List.not_mem_nil⟩
      have hlaid : Laid graph (nodeBefore 0) 0 (topologicalLevels plan) := hcompiled.laid
      rw [hstart]
      exact .before (fun level hlevel => ne_nil_of_mem_topologicalLevels hlevel) hlaid
  | @next made trace own cursor after before current goesOn round ih =>
      obtain ⟨hstands, hearlier⟩ := ih
      obtain ⟨hnext, hround⟩ := stands_round hcompiled hstands current round
      refine ⟨hnext, ?_⟩
      rcases hround with hsink | hround
      · obtain ⟨hend, hplan⟩ := planState_round_sink hcompiled hsink round
        refine .inr ⟨hend, fun hfinished => not_finished_of_goesOn hcompiled goesOn ?_⟩
        rwa [Finished, termination, ← hplan]
      · refine .inl fun visit hvisit => ?_
        rw [visits_append] at hvisit
        rcases List.mem_append.mp hvisit with hvisit | hvisit
        · exact (hearlier.resolve_right fun hended => current hended.1) visit hvisit
        · exact hround visit hvisit

/-- In a run that ends with all steps finished the sink is never executed. -/
theorem sink_not_executed {registry : List String} {strategy : MergeStrategy}
    (hplan : (PlanValidator.validate registry plan).success = true) {state result : AgentState}
    {trace : List Event} {planState : PlanState}
    (h : Runs (run digest (compile deps strategy plan) streamed policy state) trace (.ok result))
    (hstate : result.planState = some planState)
    (hfinished : planState.allStepsFinished = .ok true) :
    ∀ visit ∈ visits trace, visit.nodeId ≠ "plan_sink" := by
  have hcompiled : Compiled deps plan (compile deps strategy plan) :=
    compiled_compile (PlanValidator.wellFormed_of_validate hplan)
  have hfinal : Finished result := by rwa [Finished, termination, hstate]
  obtain ⟨ref, total, first, own, last, tail, reached, ended, -, hrounds, hends, hresult, -, -,
    hfirst, htail, rfl⟩ := exists_rounds_of_runs h
  obtain ⟨-, hsink⟩ := sink_rounds hcompiled hcompiled.entry hrounds
  have hown : visits last = [] ∧ ∀ visit ∈ visits own, visit.nodeId ≠ "plan_sink" := by
    cases hends with
    | exhausted spent =>
        refine ⟨rfl, hsink.resolve_right fun hended => hended.2 ?_⟩
        exact Except.ok.inj hresult ▸ hfinal
    | atEnd current =>
        refine ⟨rfl, hsink.resolve_right fun hended => hended.2 ?_⟩
        exact Except.ok.inj hresult ▸ hfinal
    | stopped current stops => exact ⟨by simp, hsink.resolve_right fun hended => current hended.1⟩
    | checkRaised error => cases hresult
    | roundRaised error => cases hresult
  intro visit hvisit
  simp only [visits_append, hfirst, htail, hown.1, List.nil_append, List.append_nil] at hvisit
  exact hown.2 visit hvisit

end Sink

/-! ## Two plans -/

/-- The dependencies of a plan with two steps side by side. -/
def forkedDependencies : RuntimeDependencies := plainDependencies .skip ["weather", "budget"] {}

def forkedGraph : Graph := compile forkedDependencies .deepMerge forkedPlan

theorem budget_suffices_forkedPlan : ∃ ref total own reached,
    Rounds forkedDependencies.digest forkedGraph true {} ref
        (startCursor forkedGraph {} ref (freshState forkedPlan)) total own reached ∧
      (reached.current ≠ endNode → total < 12) := by
  obtain ⟨result, hrun, -⟩ := Components.exists_runs_exec
    (show (plainRun ["weather", "budget"] forkedPlan).result.isOk = true by decide +kernel)
  have hvalid : (PlanValidator.validate ["weather", "budget"] forkedPlan).success = true := by
    decide +kernel
  have hgraph : forkedGraph = { compile forkedDependencies .deepMerge forkedPlan with
      nodes := forkedGraph.nodes } := rfl
  obtain ⟨ref, total, -, own, -, -, reached, -, hrounds, -, -, -, hspent⟩ :=
    budget_suffices hvalid _ hgraph hrun
  exact ⟨ref, total, own, reached, hrounds, fun hcurrent => (hspent hcurrent).2⟩

/-- The graph of a plan of one step. -/
def weatherGraph : Graph := compile (plainDependencies .skip ["weather"] {}) .deepMerge weatherPlan

/-- After the run the step is completed. -/
theorem exists_runs_weatherPlan : ∃ result planState,
    Runs (astream (plainDependencies .skip ["weather"] {}).digest weatherGraph {}
      (freshState weatherPlan)) (plainRun ["weather"] weatherPlan).trace (.ok result) ∧
      result.planState = some planState ∧ planState.allStepsFinished = .ok true ∧
      result.observations.get? "plan_graph_complete" = none := by
  obtain ⟨result, hrun, -, himage⟩ := Components.exists_runs_exec_map
    (show (plainRun ["weather"] weatherPlan).result.map (fun final =>
        (final.planState.map PlanState.allStepsFinished,
          final.observations.get? "plan_graph_complete")) = .ok (some (.ok true), none) by
      decide +kernel)
  obtain ⟨hplan, hcomplete⟩ := Prod.mk.inj himage
  obtain ⟨planState, hstate, hfinished⟩ := Option.map_eq_some_iff.mp hplan
  exact ⟨result, planState, hrun, hstate, hfinished, hcomplete⟩

theorem sink_not_executed_weatherPlan : ∃ (result : AgentState) (planState : PlanState),
    result.planState = some planState ∧ planState.allStepsFinished = .ok true ∧
      ∀ visit ∈ visits (plainRun ["weather"] weatherPlan).trace, visit.nodeId ≠ "plan_sink" := by
  obtain ⟨result, planState, hrun, hstate, hfinished, -⟩ := exists_runs_weatherPlan
  have hvalid : (PlanValidator.validate ["weather"] weatherPlan).success = true := by decide +kernel
  exact ⟨result, planState, hstate, hfinished, sink_not_executed hvalid hrun hstate hfinished⟩

/-- The run is told to stop at the join behind the step: the sink is left out, and with it the
mark that the plan is complete. -/
theorem weatherPlan_misses_sink :
    (PlanValidator.validate ["weather"] weatherPlan).success = true ∧
    ∃ trace result planState,
      Runs (astream (plainDependencies .skip ["weather"] {}).digest weatherGraph
        {} (freshState weatherPlan)) trace (.ok result) ∧
      result.planState = some planState ∧ planState.allStepsFinished = .ok true ∧
      .finished "plan_sink" ∉ visits trace ∧ earlyStops trace = [joinNodeId 0] ∧
      result.observations.get? "plan_graph_complete" = none := by
  refine ⟨by decide +kernel, ?_⟩
  obtain ⟨result, planState, hrun, hstate, hfinished, hcomplete⟩ := exists_runs_weatherPlan
  exact ⟨_, result, planState, hrun, hstate, hfinished, by decide +kernel, by decide +kernel,
    hcomplete⟩

end PlanGraphCompiler

end TripGraph
