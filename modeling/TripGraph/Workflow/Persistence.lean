import TripGraph.Runtime.Components
import TripGraph.Workflow.Stages

/-! # Persisting the final result

The finalizer tells the run to stop, and the run stops before the node that its edge leads
to. So the final result is never persisted.
-/

namespace TripGraph

open Interaction TripGraph.Graph

/-! ## Executed nodes -/

/-- The node an operation records as executed; a node served from a replay is not. -/
def Op.executedNode : Op → Option String
  | .addNodeRecord _ record => if record.replayed then none else some record.nodeId
  | _ => none

/-- The nodes a trace records as executed, in order. -/
def executedNodes (trace : List Event) : List String :=
  trace.filterMap fun event => event.op.executedNode

@[simp] theorem executedNodes_nil : executedNodes [] = [] := rfl

@[simp] theorem executedNodes_append (first second : List Event) :
    executedNodes (first ++ second) = executedNodes first ++ executedNodes second :=
  List.filterMap_append

theorem visit_of_executedNode {op : Op} {nodeId : String} (h : op.executedNode = some nodeId) :
    op.visit = some (.finished nodeId) := by
  cases op with
  | addNodeRecord ref record =>
      have hid : record.nodeId = nodeId := by
        cases hreplayed : record.replayed <;> simp_all [Op.executedNode]
      exact hid ▸ rfl
  | _ => cases h

theorem mem_executedNodes {trace : List Event} {nodeId : String}
    (h : nodeId ∈ executedNodes trace) :
    .finished nodeId ∈ visits trace := by
  obtain ⟨event, hevent, hnode⟩ := List.mem_filterMap.mp h
  exact List.mem_filterMap.mpr ⟨event, hevent, visit_of_executedNode hnode⟩

theorem executedNodes_of_visits {trace : List Event} (h : visits trace = []) :
    executedNodes trace = [] := by
  refine List.eq_nil_iff_forall_not_mem.mpr fun nodeId hmem => ?_
  have hvisit := mem_executedNodes hmem
  rw [h] at hvisit
  cases hvisit

/-- Whenever the finalizer is executed, `memory_persist` is executed afterwards. -/
def PersistsFinal (nodes : List String) : Prop :=
  ∀ before after, nodes = before ++ "finalize" :: after → "memory_persist" ∈ after

namespace AgentWorkflowBuilder

variable {deps : RuntimeDependencies} {maxIterations : Nat} {digest : Snapshot → String}
  {streamed : Bool} {policy : ExecutionPolicy} {executionGraph : Ref}

/-! ## One round -/

/-- No node of the workflow executes a finalizer within itself. -/
theorem unfinal_build : (build deps maxIterations).EachNode fun _ fn => ∀ state,
    Program.Asks (S := runtimeSig)
      (fun op => ∀ visit, op.visit = some visit → visit.nodeId ≠ "finalize") (fn state) := by
  have hfollower : ∀ {Q : AgentState → Prop} {p : Runtime AgentState},
      Program.Respects (S := runtimeSig) Op.Subordinate Q p → Program.Asks (S := runtimeSig)
        (fun op => ∀ visit, op.visit = some visit → visit.nodeId ≠ "finalize") p :=
    fun h => h.mono (fun _ hop => hop.2) fun _ _ => trivial
  have hquiet : ∀ {p : Runtime AgentState}, Quiet p → Program.Asks (S := runtimeSig)
      (fun op => ∀ visit, op.visit = some visit → visit.nodeId ≠ "finalize") p :=
    fun h => h.mono (fun op hop visit hvisit => by rw [hop] at hvisit; cases hvisit) fun _ h => h
  refine eachNode_build fun stage state => ?_
  cases stage with
  | memoryLoad => exact hfollower (follower_memoryLoadNode state)
  | planner => exact hfollower (respects_plannerNode state)
  | compilePlan => exact hfollower (follower_compilePlanNode state)
  | router => exact hfollower (follower_routerNode state)
  | execution => exact hfollower (follower_executionNode state)
  | memoryPersist => exact hfollower (follower_memoryPersistNode state)
  | critic => exact hquiet (quiet_criticNode state)
  | replanner => exact hquiet (quiet_replannerNode state)
  | finalize => trivial
  | «over» => exact hfollower (follower_memoryPersistNode state)

/-- The nodes executed so far are those before a first finalizer, or end in one and the run
is told to stop. -/
def FinalizedLast (nodes : List String) (state : AgentState) : Prop :=
  "finalize" ∉ nodes ∨
    state.shouldStop = true ∧ ∃ front, nodes = front ++ ["finalize"] ∧ "finalize" ∉ front

/-- Apart from the node itself, a node execution executes no finalizer. -/
theorem executedNodes_executeNode {nodeId : String} {state after : AgentState} {sequence : Nat}
    {trace : List Event}
    (h : Runs (executeNode digest (build deps maxIterations) policy executionGraph nodeId state
      sequence) trace (.ok after)) :
    FinalizedLast (executedNodes trace) after := by
  obtain ⟨fn, hfn⟩ := exists_node_of_runs h
  obtain ⟨record, own, middle, -, hmiddle, ⟨_, -, herror, -⟩ | ⟨ended, replayed, versionId, rfl,
    hresult, rfl⟩⟩ := runs_executeNode hfn h
  · cases herror
  cases hresult
  have hinner : "finalize" ∉ executedNodes middle := by
    intro hmem
    obtain ⟨event, hevent, hvisit⟩ := List.mem_filterMap.mp (mem_executedNodes hmem)
    exact (Program.Respects.asks_of_runs (asks_runOrServe (by simp [Op.visit]) (by simp [Op.visit])
      (unfinal_build nodeId fn hfn) _ _ _) hmiddle) event hevent _ hvisit rfl
  have hnodes : executedNodes (lookedUp policy nodeId record ++
      startEvent digest policy nodeId state :: (middle ++ [⟨.uuid4, versionId⟩,
        ⟨.addNodeRecord executionGraph (nodeRecord digest policy nodeId sequence state
          (startNode digest nodeId state) ended replayed), ()⟩])) =
      executedNodes middle ++ if replayed then [] else [nodeId] := by
    rw [executedNodes_append, executedNodes_of_visits visits_lookedUp]
    cases replayed <;> simp [executedNodes, startEvent, Op.executedNode, nodeRecord]
  rw [hnodes]
  cases replayed with
  | true => exact Or.inl (by simpa using hinner)
  | false =>
      by_cases hfinal : nodeId = "finalize"
      · subst hfinal
        obtain rfl : fn = finalizeNode deps :=
          Option.some.inj (hfn.symm.trans (nodes_build .finalize))
        obtain ⟨_, hown⟩ := runs_runOrServe_executed hmiddle
        exact Or.inr ⟨(runs_finalizeNode_ok hown).2.1, executedNodes middle, rfl, hinner⟩
      · refine Or.inl fun hmem => (List.mem_append.mp hmem).elim hinner fun hlast => ?_
        exact hfinal (List.mem_singleton.mp hlast).symm

/-- A round that goes on from a state that is not told to stop. -/
theorem executedNodes_round {cursor next : Cursor} {trace : List Event}
    (h : Runs (round digest (build deps maxIterations) streamed policy executionGraph cursor) trace
      (.ok next)) : FinalizedLast (executedNodes trace) next.state := by
  obtain ⟨own, first, last, hown, -, -, -, hfirst, hlast, rfl⟩ :=
    runs_round_plain (fanOutFor_build _) h
  rw [executedNodes_append, executedNodes_append, executedNodes_of_visits hfirst,
    executedNodes_of_visits hlast, List.nil_append, List.append_nil]
  exact executedNodes_executeNode hown

/-- However far a run has come, a finalizer is the last node it has executed. -/
theorem executedNodes_rounds {start cursor : Cursor} {made : Nat} {trace : List Event}
    (h : Rounds digest (build deps maxIterations) streamed policy executionGraph start made trace
      cursor) : FinalizedLast (executedNodes trace) cursor.state := by
  induction h with
  | start => exact Or.inl List.not_mem_nil
  | @next made trace own cursor after _ _ goesOn hround ih =>
      rw [stops_build] at goesOn
      have hbefore : "finalize" ∉ executedNodes trace := by
        rcases ih with hnot | ⟨hstop, -⟩
        · exact hnot
        · rw [hstop] at goesOn
          cases goesOn
      rw [executedNodes_append]
      rcases executedNodes_round hround with hnot | ⟨hstop, front, hfront, hnot⟩
      · exact Or.inl fun hmem => (List.mem_append.mp hmem).elim hbefore hnot
      · refine Or.inr ⟨hstop, executedNodes trace ++ front, by simp [hfront], fun hmem => ?_⟩
        exact (List.mem_append.mp hmem).elim hbefore hnot

/-- A run that executes the finalizer executes it last and is told to stop. -/
theorem finalized_run {state result : AgentState} {trace : List Event}
    (h : Runs (run digest (build deps maxIterations) streamed policy state) trace (.ok result))
    (hfinal : "finalize" ∈ executedNodes trace) :
    result.shouldStop = true ∧ ∃ front, executedNodes trace = front ++ ["finalize"] := by
  obtain ⟨ref, total, first, own, last, tail, reached, ended, -, hrounds, hends, hresult, -, -,
    hfirst, htail, rfl⟩ := exists_rounds_of_runs h
  have hlast : visits last = [] ∧ result.shouldStop = reached.state.shouldStop := by
    cases hends with
    | stopped =>
        cases hresult
        exact ⟨visits_emitted _, rfl⟩
    | exhausted =>
        cases hresult
        exact ⟨rfl, rfl⟩
    | atEnd =>
        cases hresult
        exact ⟨rfl, rfl⟩
    | checkRaised => cases hresult
    | roundRaised => cases hresult
  have hnodes : executedNodes (first ++ (own ++ (last ++ tail))) = executedNodes own := by
    simp [executedNodes_of_visits, hfirst, hlast.1, htail]
  rw [hnodes] at hfinal ⊢
  rcases executedNodes_rounds hrounds with hnot | ⟨hstop, front, hfront, -⟩
  · exact absurd hfinal hnot
  · exact ⟨hlast.2.trans hstop, front, hfront⟩

/-- The final result is never persisted: in a run that executes the finalizer, no
`memory_persist` follows. -/
theorem not_persistsFinal {state result : AgentState} {trace : List Event}
    (h : Runs (run digest (build deps maxIterations) streamed policy state) trace (.ok result))
    (hfinal : "finalize" ∈ executedNodes trace) : ¬PersistsFinal (executedNodes trace) := by
  obtain ⟨-, front, hfront⟩ := finalized_run h hfinal
  exact fun hpersists => absurd (hpersists front [] hfront) List.not_mem_nil

/-! ## A query answered at once -/

/-- A planner that has one plan. -/
def plannedComponents (plan : Plan) : Components := { createPlan := fun _ => .ok plan }

/-- A query that the workflow answers with a plan, with tools that succeed and a critic that
asks for nothing. -/
def answeredQuery (plan : Plan) :
    Outcome runtimeSig RaisedError AgentState (SharedObjects × Unit) :=
  let deps := plainDependencies .skip ["weather"] {}
  (plannedComponents plan).exec {} (astream deps.digest (build deps 50) {}
    (initialState "查询上海天气" "default"))

theorem not_persistsFinal_answeredQuery :
    ¬PersistsFinal (executedNodes (answeredQuery weatherPlan).trace) := by
  obtain ⟨result, hrun, -⟩ := Components.exists_runs_exec
    (show (answeredQuery weatherPlan).result.isOk = true by decide +kernel)
  exact not_persistsFinal hrun (by decide +kernel)

/-- The finalizer is the last node this run executes. -/
theorem answeredQuery_ends_with_finalize :
    let deps := plainDependencies .skip ["weather"] {}
    ∃ trace result objects, Runs (astream deps.digest (build deps 50) {}
        (initialState "查询上海天气" "default")) trace (.ok result) ∧
      Follows SharedObjects.Step {} trace objects ∧ "finalize" ∈ executedNodes trace ∧
      ¬PersistsFinal (executedNodes trace) := by
  obtain ⟨result, hrun, hfollows⟩ := Components.exists_runs_exec
    (show (answeredQuery weatherPlan).result.isOk = true by decide +kernel)
  have hlast : (executedNodes (answeredQuery weatherPlan).trace).getLast? = some "finalize" := by
    decide +kernel
  obtain ⟨front, hfront⟩ := List.getLast?_eq_some_iff.mp hlast
  refine ⟨_, result, _, hrun, hfollows, List.mem_of_getLast? hlast, fun hpersists => ?_⟩
  exact absurd (hpersists front [] hfront) List.not_mem_nil

end AgentWorkflowBuilder

end TripGraph
