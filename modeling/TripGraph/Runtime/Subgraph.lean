import TripGraph.Runtime.Carrying
import TripGraph.Runtime.Workflow

/-! # Graphs as nodes

A subgraph node runs a nested graph on a child state, and the nested run numbers its nodes
from zero again. Where it shares the execution graph that the state of its parent carries,
numbers identify node executions only as long as the nested runs execute nothing.
-/

namespace TripGraph

open Interaction TripGraph.Graph

/-- Maps state between parent and child graph scopes. -/
structure StateMapper where
  parentToChild : AgentState → AgentState
  childToParent : AgentState → AgentState → AgentState

namespace StateMapper

def identity : StateMapper where
  parentToChild := id
  childToParent _ child := child

/-- `for_plan_execution`: the child shares the execution graph and the versions. -/
def forPlanExecution : StateMapper where
  parentToChild parent := { toChild parent "" with parentGraphId := none, nestedGraphId := none }
  childToParent := toParent

end StateMapper

/-- `SubgraphNode.__call__`. -/
def SubgraphNode.call (digest : Snapshot → String) (nodeId : String) (subgraph : Graph)
    (mapper : StateMapper) : NodeFn := fun parent => do
  let child := { mapper.parentToChild parent with
    parentGraphId := some parent.sessionId
    nestedGraphId := some subgraph.graphId }
  let result ← subgraph.invoke digest { captureStateSnapshots := true } child
  let merged := (mapper.childToParent parent result).logGraph nodeId "subgraph_complete"
    [("subgraph_id", .str subgraph.graphId)]
  let results ← Program.ofExcept
    (recordSubgraph merged.memory nodeId subgraph.graphId result.finalResult)
  pure { merged with memory := results }

/-- `AgentNode.__call__`. -/
def AgentNode.call (digest : Snapshot → String) (agentId : String) (subgraph : Graph)
    (mapper : StateMapper) (description : String) : NodeFn := fun parent => do
  let result ← SubgraphNode.call digest agentId subgraph mapper
    (parent.logGraph agentId "agent_invoke" [("agent_id", .str agentId)])
  let calls ← Program.ofExcept (recordCall result.memory (.ofEntries
    [("agent_id", .str agentId), ("description", .str description),
      ("subgraph_id", .str subgraph.graphId)]))
  pure { result with memory := calls }

/-- The nested plan graph is the agent node the execution node makes. -/
theorem planAgentNode_eq (deps : RuntimeDependencies) (compiled : CompiledPlan) :
    planAgentNode deps compiled = AgentNode.call deps.digest "plan_executor"
      (PlanGraphCompiler.compile deps compiled.mergeStrategy compiled.plan)
      .forPlanExecution "Parallel plan execution agent" := by
  funext state
  simp only [planAgentNode, AgentNode.call, SubgraphNode.call, bind_assoc, pure_bind]
  rfl

/-- `_find_record`. -/
def findRecord (graph : ExecutionGraphModel) (sequence : Nat) : Option NodeExecutionRecord :=
  graph.nodeRecords.find? fun record => decide (record.sequence = sequence)

/-- The number of a node record denotes this record. -/
structure Identifies (graph : ExecutionGraphModel) : Prop where
  distinct : (graph.nodeRecords.map NodeExecutionRecord.sequence).Nodup
  found : ∀ record ∈ graph.nodeRecords, findRecord graph record.sequence = some record

/-- With distinct numbers every record is the one that is found by its number. -/
theorem identifies_of_nodup {graph : ExecutionGraphModel}
    (hnodup : (graph.nodeRecords.map NodeExecutionRecord.sequence).Nodup) : Identifies graph := by
  refine ⟨hnodup, fun record hrecord => ?_⟩
  unfold findRecord
  cases hfound : graph.nodeRecords.find? fun own => decide (own.sequence = record.sequence) with
  | none => simpa using List.find?_eq_none.mp hfound record hrecord
  | some own =>
      have hsame : own.sequence = record.sequence := by simpa using List.find?_some hfound
      rw [List.inj_on_of_nodup_map hnodup (List.mem_of_find?_eq_some hfound) hrecord hsame]

namespace Graph

/-- A run in which no nested graph executes a node on a graph object that the run carries, and
every node hands on a graph object of the run: no node would have been stopped for that. -/
def RunsUnnested (digest : Snapshot → String) (graph : Graph) (streamed : Bool)
    (policy : ExecutionPolicy) (first : Ref) (state : AgentState) (trace : List Event)
    (result : Except RaisedError AgentState) : Prop :=
  Runs (run digest graph streamed policy state) trace result ∧
    Runs (run digest (graph.shielded (Carried first trace)) streamed policy state) trace result

variable {digest : Snapshot → String} {graph : Graph} {streamed : Bool} {policy : ExecutionPolicy}

/-- In a run that starts on an empty execution graph and executes no nested node on a graph
object that it carries, sequence numbers denote node executions: on every one of these graph
objects, and so on the execution graph of the state that is returned. -/
theorem sequences_identify {state : AgentState} {trace : List Event}
    {result : Except RaisedError AgentState} {objects last : SharedObjects}
    (hlive : ∀ given, state.executionGraph = some given → given < objects.graphs.length)
    (hempty : (initialModel graph policy objects state).nodeRecords = [])
    (hrun : RunsUnnested digest graph streamed policy (initialRef objects state) state trace result)
    (hfollows : Follows SharedObjects.Step objects trace last) :
    (∀ ref, Carried (initialRef objects state) trace ref → Identifies (last.graph ref)) ∧
      ∀ final, result = .ok final →
        ∃ ref, final.executionGraph = some ref ∧ Identifies (last.graph ref) := by
  obtain ⟨⟨records, hrecords⟩, hfinal⟩ := inherits_of_runs_shielded hlive hempty hrun.2 hfollows
  have hall : ∀ ref, Carried (initialRef objects state) trace ref → Identifies (last.graph ref) :=
    fun ref href => identifies_of_nodup (hrecords ref href).distinct
  refine ⟨hall, fun final hreturned => ?_⟩
  obtain ⟨ref, href, hcarried⟩ := hfinal final hreturned
  exact ⟨ref, href, hall ref hcarried⟩

/-! ## Nodes that need no shield -/

/-- The node records nothing, and hands back the execution graph it is given. -/
def Plain (p : AgentState → Runtime AgentState) : Prop :=
  ∀ state, Program.Respects (S := runtimeSig) (fun op : Op => op.records = false)
    (fun after => ∀ ref, state.executionGraph = some ref → after.executionGraph = some ref)
    (p state)

theorem shielded_of_plain {carried : Ref → Prop} (hplain : graph.EachNode fun _ fn => Plain fn) :
    graph.shielded carried = graph := by
  have hnodes : graph.shieldedNodes carried = graph.nodes := by
    funext nodeId
    cases hfn : graph.nodes nodeId with
    | none => simp [shieldedNodes, hfn]
    | some fn =>
        simp only [shieldedNodes, hfn, Option.map_some, Option.some.injEq]
        funext state
        have hnode := hplain nodeId fn hfn state
        have hhalt : (fn state).halt (recordsOn carried) (.runtimeError "nested execution") =
            fn state := by
          apply Program.halt_eq_of_asks
          refine hnode.mono (fun op hop => ?_) fun _ _ => trivial
          cases op <;> first | rfl | cases hop
        rw [hhalt]
        refine Program.bind_eq_of_respects hnode fun after hafter => if_neg ?_
        rintro ⟨⟨ref, href, hcarried⟩, hnot⟩
        exact hnot ⟨ref, hafter ref href, hcarried⟩
  rw [shielded, hnodes]

/-- A graph whose runs stop at once records nothing and keeps the execution graph. -/
theorem plain_run_of_idle (hidle : ∀ state, graph.stops state = .ok true) :
    Plain (run digest graph streamed policy) := by
  intro state
  have hemit : ∀ event, Program.Asks (S := runtimeSig) (fun op : Op => op.records = false)
      (emit streamed event) := by
    intro event
    cases streamed with
    | false => trivial
    | true => exact ⟨rfl, fun _ => trivial⟩
  have hloop : ∀ ref budget cursor, Program.Respects (S := runtimeSig)
      (fun op : Op => op.records = false)
      (fun last : Cursor => last.state.executionGraph = cursor.state.executionGraph)
      (loop digest graph streamed policy ref budget cursor) := by
    intro ref budget cursor
    cases budget with
    | zero => rfl
    | succ budget =>
        rw [Graph.loop]
        split
        · rfl
        rw [hidle]
        exact (hemit _).bind fun _ _ => rfl
  have hlooped : ∀ ref, Program.Respects (S := runtimeSig) (fun op : Op => op.records = false)
      (fun after => after.executionGraph = some ref) (do
      emit streamed (.graphStart graph.graphId graph.entry policy.mode.text)
      let last ← loop digest graph streamed policy ref graph.maxIterations
        (startCursor graph policy ref state)
      emit streamed (.graphEnd graph.graphId last.iterations)
      emit streamed (.state last.state)
      pure last.state) := fun ref => (hemit _).bind fun _ _ => (hloop ref _ _).bind fun _ hlast =>
    (hemit _).bind fun _ _ => (hemit _).bind fun _ _ => hlast
  have hopened : Program.Respects (S := runtimeSig) (fun op : Op => op.records = false)
      (fun ref => ∀ given, state.executionGraph = some given → ref = given)
      (ensureExecutionGraph graph policy state) := by
    unfold ensureExecutionGraph
    split
    next ref hgiven => exact fun given h => Option.some.inj (hgiven.symm.trans h)
    next hmissing => exact ⟨rfl, fun _ given h => by cases hmissing.symm.trans h⟩
  have hrest := hopened.bind fun ref href => (hlooped ref).mono (fun _ h => h)
    fun after hafter given hgiven => hafter.trans (congrArg some (href given hgiven))
  unfold run
  split
  · exact ⟨rfl, fun _ => hrest⟩
  · exact hrest

/-- A subgraph node whose graph stops at once. -/
theorem plain_call_of_idle {nodeId : String} (hidle : ∀ state, graph.stops state = .ok true) :
    Plain (SubgraphNode.call digest nodeId graph .forPlanExecution) := by
  intro parent
  apply (plain_run_of_idle hidle _).bind
  intro result hresult
  refine Program.Respects.bind (Q := fun _ => True) (by simp) fun _ _ => ?_
  intro ref href
  change (result.executionGraph.orElse fun _ => parent.executionGraph) = some ref
  rw [hresult ref href]
  rfl

/-- A plan that is done before its first node. -/
def donePlan : Graph where
  graphId := "plan"
  entry := "plan_entry"
  termination := fun _ => .ok true
  nodes := fun nodeId => if nodeId = "plan_entry" then some PlanGraphCompiler.entryNode else none

/-- Two branches whose copies are merged, and a nested graph that executes nothing on the merged
copy. -/
def restingTrip : Graph where
  graphId := "trip"
  entry := "planner"
  nodes := fun nodeId =>
    if nodeId = "execution" then
      some (SubgraphNode.call (fun _ => "") "execution" donePlan .forPlanExecution)
    else some pure
  edges := fun source =>
    if source = "join" then [{ target := "execution", kind := .direct }] else []
  fanOuts := [⟨"planner", ["weather", "map"], "join"⟩]

theorem plain_restingTrip : restingTrip.EachNode fun _ fn => Plain fn := by
  intro nodeId fn hfn
  simp only [restingTrip] at hfn
  split_ifs at hfn
  · cases hfn
    exact plain_call_of_idle fun state => by simp [stops, donePlan]
  · cases hfn
    exact fun state ref href => href

theorem sequences_identify_restingTrip :
    ∃ trace final last,
      RunsUnnested (fun _ => "") restingTrip true {} 0 {} trace (.ok final) ∧
      Follows SharedObjects.Step {} trace last ∧
      final.executionGraph = some 4 ∧ Identifies (last.graph 4) := by
  let components : Components := {}
  have hgraph : (components.exec {} (run (fun _ => "") restingTrip true {} {})).result.map
      AgentState.executionGraph = .ok (some 4) := by decide +kernel
  obtain ⟨final, hrun, hfollows, hfinal⟩ := Components.exists_runs_exec_map hgraph
  have hlive : ∀ given, ({} : AgentState).executionGraph = some given →
      given < (({} : SharedObjects).graphs).length := fun given hgiven => by cases hgiven
  have hunnested : RunsUnnested (fun _ => "") restingTrip true {} (initialRef {} {}) {} _
      (.ok final) := ⟨hrun, by rwa [shielded_of_plain plain_restingTrip]⟩
  obtain ⟨ref, href, hidentifies⟩ := (sequences_identify hlive rfl hunnested hfollows).2 final rfl
  obtain rfl : ref = 4 := Option.some.inj (href.symm.trans hfinal)
  exact ⟨_, final, _, hunnested, hfollows, hfinal, hidentifies⟩

/-- In a run of the workflow the loading of the memory and the entry of the nested plan are
both recorded with the number 0. -/
theorem weatherPlan_repeats_sequences :
    let workflow := AgentWorkflowBuilder.build (plainDependencies .skip ["weather"] {}) 50
    ∃ trace final last,
      Runs (run (fun _ => "") workflow true {} (initialState "查询上海天气" "default")) trace
        (.ok final) ∧
      Follows SharedObjects.Step {} trace last ∧ final.executionGraph = some 0 ∧
      ¬((last.graph 0).nodeRecords.map NodeExecutionRecord.sequence).Nodup := by
  intro workflow
  let components : Components := { createPlan := fun _ => .ok weatherPlan }
  let query := run (fun _ => "") workflow true {} (initialState "查询上海天气" "default")
  have hgraph : (components.exec {} query).result.map AgentState.executionGraph =
      .ok (some 0) := by decide +kernel
  obtain ⟨final, hrun, hfollows, hfinal⟩ := Components.exists_runs_exec_map hgraph
  refine ⟨_, final, _, hrun, hfollows, hfinal, ?_⟩
  intro hnodup
  have hnumbers : ((((components.exec {} query).state.1.graph 0).nodeRecords.map
      NodeExecutionRecord.sequence).take 6) = [0, 1, 2, 3, 0, 1] := by decide +kernel
  have hfew := (hnodup.sublist (List.take_sublist 6 _))
  rw [hnumbers] at hfew
  exact absurd hfew (by decide)

end Graph

end TripGraph
