import TripGraph.Runtime.Rounds
import TripGraph.Runtime.Shared

/-! # What a trace writes on an execution graph

Nothing but the two recording operations changes a graph that exists: after a trace it
holds what it held before, followed by the records that the trace adds to it.
-/

namespace TripGraph

open Interaction

/-- The operations that mark a node execution or record an edge. -/
def Op.records : Op → Bool
  | .maybePause .. | .addNodeRecord .. | .addEdgeRecord .. => true
  | _ => false

/-- The node record an operation adds to this graph. -/
def Op.nodeRecordOn (graph : Ref) : Op → Option NodeExecutionRecord
  | .addNodeRecord own record => if own = graph then some record else none
  | _ => none

/-- The edge record an operation adds to this graph. -/
def Op.edgeRecordOn (graph : Ref) : Op → Option GraphEdgeRecord
  | .addEdgeRecord own record => if own = graph then some record else none
  | _ => none

theorem Op.visit_of_not_records {op : Op} (h : op.records = false) : op.visit = none := by
  cases op <;> simp_all [Op.records, Op.visit]

theorem Op.nodeRecordOn_of_visit {op : Op} (graph : Ref) (h : op.visit = none) :
    op.nodeRecordOn graph = none := by
  cases op <;> simp_all [Op.visit, Op.nodeRecordOn]

theorem Op.edgeRecordOn_of_not_records {op : Op} (graph : Ref) (h : op.records = false) :
    op.edgeRecordOn graph = none := by
  cases op <;> simp_all [Op.records, Op.edgeRecordOn]

/-- The node records a trace adds to a graph. -/
def nodesAdded (graph : Ref) (trace : List Event) : List NodeExecutionRecord :=
  trace.filterMap fun event => event.op.nodeRecordOn graph

/-- The edge records a trace adds to a graph. -/
def edgesAdded (graph : Ref) (trace : List Event) : List GraphEdgeRecord :=
  trace.filterMap fun event => event.op.edgeRecordOn graph

section Added

variable {graph : Ref}

@[simp] theorem nodesAdded_nil : nodesAdded graph [] = [] := List.filterMap_nil

@[simp] theorem edgesAdded_nil : edgesAdded graph [] = [] := List.filterMap_nil

@[simp] theorem nodesAdded_append (first second : List Event) :
    nodesAdded graph (first ++ second) = nodesAdded graph first ++ nodesAdded graph second :=
  List.filterMap_append

@[simp] theorem edgesAdded_append (first second : List Event) :
    edgesAdded graph (first ++ second) = edgesAdded graph first ++ edgesAdded graph second :=
  List.filterMap_append

theorem nodesAdded_cons (event : Event) (trace : List Event) :
    nodesAdded graph (event :: trace) =
      (event.op.nodeRecordOn graph).toList ++ nodesAdded graph trace := by
  unfold nodesAdded
  cases h : event.op.nodeRecordOn graph <;> simp [h]

theorem edgesAdded_cons (event : Event) (trace : List Event) :
    edgesAdded graph (event :: trace) =
      (event.op.edgeRecordOn graph).toList ++ edgesAdded graph trace := by
  unfold edgesAdded
  cases h : event.op.edgeRecordOn graph <;> simp [h]

/-- A trace without marks adds no node record. -/
theorem nodesAdded_of_visits {trace : List Event} (h : visits trace = []) :
    nodesAdded graph trace = [] := by
  apply List.filterMap_eq_nil_iff.mpr
  intro event hmem
  exact Op.nodeRecordOn_of_visit graph (List.filterMap_eq_nil_iff.mp h event hmem)

theorem visits_of_not_records {trace : List Event} (h : ∀ event ∈ trace, event.op.records = false) :
    visits trace = [] := by
  apply List.filterMap_eq_nil_iff.mpr
  intro event hmem
  exact Op.visit_of_not_records (h event hmem)

theorem edgesAdded_of_not_records {trace : List Event}
    (h : ∀ event ∈ trace, event.op.records = false) : edgesAdded graph trace = [] := by
  apply List.filterMap_eq_nil_iff.mpr
  intro event hmem
  exact Op.edgeRecordOn_of_not_records graph (h event hmem)

end Added

namespace SharedObjects

/-- A graph with further records. -/
def extend (model : ExecutionGraphModel) (nodes : List NodeExecutionRecord)
    (edges : List GraphEdgeRecord) : ExecutionGraphModel :=
  { model with
    nodeRecords := model.nodeRecords ++ nodes
    edgeRecords := model.edgeRecords ++ edges }

variable {objects next : SharedObjects} {ref : Ref}

theorem graph_allocate (model : ExecutionGraphModel) (hlive : ref < objects.graphs.length) :
    (objects.allocate model).2.graph ref = objects.graph ref := by
  unfold allocate graph
  dsimp only
  rw [List.getElem?_append_left hlive]

theorem graph_allocated (model : ExecutionGraphModel) :
    (objects.allocate model).2.graph (objects.allocate model).1 = model := by
  simp [allocate, graph]

theorem graph_set {own : Ref} (model : ExecutionGraphModel) (hlive : ref < objects.graphs.length) :
    ({ objects with graphs := objects.graphs.set own model } : SharedObjects).graph ref =
      if own = ref then model else objects.graph ref := by
  unfold graph
  dsimp only
  rw [List.getElem?_set]
  by_cases hown : own = ref
  · subst hown
    simp [hlive]
  · simp [hown]

theorem lt_allocate (model : ExecutionGraphModel) (hlive : ref < objects.graphs.length) :
    ref < (objects.allocate model).2.graphs.length := by
  simpa [allocate] using Nat.lt_succ_of_lt hlive

theorem graphs_syncPlanGraph (state : PlanState) :
    (objects.syncPlanGraph state).2.graphs = objects.graphs := by
  unfold syncPlanGraph
  split <;> rfl

theorem graphs_updatePlanNode (stepId : Int) (status : GraphNodeStatus) :
    (objects.updatePlanNode stepId status).2.graphs = objects.graphs := by
  unfold updatePlanNode
  split
  · rfl
  · split <;> rfl

theorem graphs_nextReplayRecord : objects.nextReplayRecord.graphs = objects.graphs := by
  unfold nextReplayRecord
  split <;> rfl

/-- One exchange leaves a graph that exists in place and adds to it what it records there. -/
theorem graph_step {event : Event} (hstep : Step objects event next)
    (hlive : ref < objects.graphs.length) :
    ref < next.graphs.length ∧ next.graph ref = extend (objects.graph ref)
      (event.op.nodeRecordOn ref).toList (event.op.edgeRecordOn ref).toList := by
  obtain ⟨op, reply⟩ := event
  cases op with
  | newGraph model =>
      obtain ⟨-, rfl⟩ := hstep
      exact ⟨lt_allocate _ hlive, by simp [graph_allocate _ hlive, extend, Op.nodeRecordOn,
        Op.edgeRecordOn]⟩
  | copyGraph source =>
      obtain ⟨-, rfl⟩ := hstep
      exact ⟨lt_allocate _ hlive, by simp [graph_allocate _ hlive, extend, Op.nodeRecordOn,
        Op.edgeRecordOn]⟩
  | mergeGraphs left right =>
      obtain ⟨-, rfl⟩ := hstep
      exact ⟨lt_allocate _ hlive, by simp [graph_allocate _ hlive, extend, Op.nodeRecordOn,
        Op.edgeRecordOn]⟩
  | addNodeRecord own record =>
      obtain ⟨-, rfl⟩ := hstep
      refine ⟨by simpa using hlive, ?_⟩
      rw [graph_set _ hlive]
      by_cases hown : own = ref
      · simp [hown, extend, Op.nodeRecordOn, Op.edgeRecordOn, ExecutionGraphModel.addNodeRecord]
      · simp [hown, extend, Op.nodeRecordOn, Op.edgeRecordOn]
  | addEdgeRecord own record =>
      obtain ⟨-, rfl⟩ := hstep
      refine ⟨by simpa using hlive, ?_⟩
      rw [graph_set _ hlive]
      by_cases hown : own = ref
      · simp [hown, extend, Op.nodeRecordOn, Op.edgeRecordOn, ExecutionGraphModel.addEdgeRecord]
      · simp [hown, extend, Op.nodeRecordOn, Op.edgeRecordOn]
  | _ =>
      have hgraphs : next.graphs = objects.graphs := by
        obtain ⟨-, rfl⟩ := hstep
        first | rfl | exact graphs_syncPlanGraph _ | exact graphs_updatePlanNode _ _ |
          exact graphs_nextReplayRecord
      refine ⟨by rwa [hgraphs], ?_⟩
      simp [graph, hgraphs, extend, Op.nodeRecordOn, Op.edgeRecordOn]

/-- After a trace a graph holds what it held before and what the trace adds to it. -/
theorem graph_of_follows {trace : List Event} {last : SharedObjects}
    (h : Follows Step objects trace last) (hlive : ref < objects.graphs.length) :
    ref < last.graphs.length ∧
      last.graph ref = extend (objects.graph ref) (nodesAdded ref trace)
        (edgesAdded ref trace) := by
  induction h with
  | nil state => exact ⟨hlive, by simp [extend]⟩
  | @cons first middle last event trace head tail ih =>
      obtain ⟨hmiddle, hgraph⟩ := graph_step head hlive
      obtain ⟨hlast, hgraph'⟩ := ih hmiddle
      refine ⟨hlast, ?_⟩
      rw [hgraph', hgraph, nodesAdded_cons, edgesAdded_cons]
      simp [extend]

end SharedObjects

end TripGraph
