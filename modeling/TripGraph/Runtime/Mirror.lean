import TripGraph.Runtime.Components
import TripGraph.Runtime.Journey

/-! # The execution graph as a mirror of the run

The engine records on one graph object. It holds one record per node execution after every
run. The state that is returned still has this object if no fan-out has merged copies of it
and no node was served on a copied state; then the edges are complete, too.
-/

namespace TripGraph

open Interaction

namespace Graph

/-- No node runs a graph of its own: the nodes mark and record nothing and leave the
execution graph of the state alone. -/
def Flat (graph : Graph) : Prop :=
  graph.EachNode fun _ fn => ∀ state, Program.Respects (S := runtimeSig)
    (fun op : Op => op.records = false)
    (fun after => after.executionGraph = state.executionGraph) (fn state)

/-- What a node record says of the execution. -/
def executionOf (record : NodeExecutionRecord) : String × String × String :=
  (record.nodeId, record.inputStateHash, record.outputStateHash)

/-- What an edge record says of the transition. -/
def transitionOf (record : GraphEdgeRecord) : String × String := (record.source, record.target)

/-- Besides what it held before, the graph has one node record per execution, with the
hashes of its input and its output, and one edge record per transition. -/
structure Mirrors (digest : Snapshot → String) (graph : Graph) (moves : List Move)
    (before after : ExecutionGraphModel) : Prop where
  nodes : (after.nodeRecords.map executionOf).Perm (before.nodeRecords.map executionOf ++
    (moves.flatMap Move.executions).map fun execution =>
      (execution.nodeId, execution.input.hash digest, execution.output.hash digest))
  edges : (after.edgeRecords.map transitionOf).Perm (before.edgeRecords.map transitionOf ++
    moves.flatMap graph.transitions)

/-- The execution graph a run starts with. -/
def initialModel (graph : Graph) (policy : ExecutionPolicy) (objects : SharedObjects)
    (state : AgentState) : ExecutionGraphModel :=
  match state.executionGraph with
  | some ref => objects.graph ref
  | none => newModel graph policy state

/-- The graph object a run records on. -/
def initialRef (objects : SharedObjects) (state : AgentState) : Ref :=
  state.executionGraph.getD objects.graphs.length

/-- A round at a node without a fan-out that runs its function. -/
def Move.Plain (digest : Snapshot → String) (graph : Graph) (move : Move) : Prop :=
  graph.fanOutFor move.source = none ∧
    ∀ execution ∈ move.executions, ¬execution.Served digest

variable {digest : Snapshot → String} {graph : Graph} {streamed : Bool} {policy : ExecutionPolicy}
  {executionGraph : Ref}

/-! ## What is recorded -/

@[simp] theorem nodesAdded_emitted (event : GraphEvent) :
    nodesAdded executionGraph (emitted streamed event) = [] :=
  nodesAdded_of_visits (visits_emitted event)

@[simp] theorem edgesAdded_emitted (event : GraphEvent) :
    edgesAdded executionGraph (emitted streamed event) = [] := by
  cases streamed <;> rfl

@[simp] theorem edgesAdded_lookedUp {nodeId : String} {record : Option NodeExecutionRecord} :
    edgesAdded executionGraph (lookedUp policy nodeId record) = [] := by
  unfold lookedUp
  split <;> rfl

namespace Execution

variable {execution : Execution}

/-- In a flat graph the node itself marks and records nothing. -/
theorem Valid.not_records (hflat : graph.Flat) (hvalid : execution.Valid digest graph policy) :
    ∀ event ∈ execution.own, event.op.records = false := by
  obtain ⟨fn, hfn, -, hown⟩ := hvalid
  have hasks := asks_runOrServe (P := fun op : Op => op.records = false) (fun _ => rfl) rfl
    (fun state => (hflat _ fn hfn state).asks) execution.looked (execution.input.hash digest)
    (startNode digest execution.nodeId execution.input)
  exact Program.Respects.asks_of_runs hasks hown

/-- An execution leaves its record. -/
theorem Valid.nodesAdded (hflat : graph.Flat) (hvalid : execution.Valid digest graph policy) :
    nodesAdded executionGraph (execution.trace digest policy executionGraph) =
      [execution.record digest policy] := by
  have hown : TripGraph.nodesAdded executionGraph execution.own = [] :=
    nodesAdded_of_visits (visits_of_not_records (hvalid.not_records hflat))
  have hlooked : TripGraph.nodesAdded executionGraph
      (lookedUp policy execution.nodeId execution.looked) = [] :=
    nodesAdded_of_visits visits_lookedUp
  simp [trace, hown, hlooked, nodesAdded_cons, startEvent, Op.nodeRecordOn]

theorem Valid.edgesAdded (hflat : graph.Flat) (hvalid : execution.Valid digest graph policy) :
    edgesAdded executionGraph (execution.trace digest policy executionGraph) = [] := by
  have hown : TripGraph.edgesAdded executionGraph execution.own = [] :=
    edgesAdded_of_not_records (hvalid.not_records hflat)
  simp [trace, hown, edgesAdded_cons, startEvent, Op.edgeRecordOn]

/-- The flag of the record tells whether the node was served. -/
theorem Valid.served_of_replayed (hvalid : execution.Valid digest graph policy)
    (hreplayed : execution.replayed = true) : execution.Served digest := by
  obtain ⟨fn, hfn, -, hown⟩ := hvalid
  unfold Served
  cases hserved : servedSnapshot execution.looked (execution.input.hash digest) with
  | some snapshot => rfl
  | none =>
      simp only [runOrServe, hserved] at hown
      obtain ⟨after, _, _, -, hlast, -⟩ := runs_bind_ok_iff.mp hown
      have hflag : (execution.output, execution.replayed) = (after, false) := by
        split at hlast
        · obtain ⟨-, _, -, hpure⟩ := runs_asking_iff.mp hlast
          exact Except.ok.inj (runs_pure_iff.mp hpure).2
        · exact Except.ok.inj (runs_pure_iff.mp hlast).2
      rw [hreplayed] at hflag
      cases hflag

/-- A node that is not served keeps the execution graph of the state. -/
theorem Valid.executionGraph_after (hflat : graph.Flat)
    (hvalid : execution.Valid digest graph policy) (hreplayed : execution.replayed = false) :
    (execution.after digest policy).executionGraph = execution.input.executionGraph := by
  obtain ⟨fn, hfn, -, hown⟩ := hvalid
  rw [hreplayed] at hown
  obtain ⟨own, hrun⟩ := runs_runOrServe_executed hown
  have hkept := (hflat _ fn hfn (startNode digest execution.nodeId execution.input)).returns_of_runs
    hrun
  exact hkept

end Execution

/-- The node records of a round are those of its executions. -/
theorem Accounts.nodesAdded (hflat : graph.Flat) {trace : List Event}
    {executions : List Execution}
    (h : Accounts digest graph policy executionGraph trace executions) :
    (nodesAdded executionGraph trace).Perm
      (executions.map (Execution.record digest policy)) := by
  obtain ⟨hvalid, rest, hrest, hperm⟩ := h
  have hadded : TripGraph.nodesAdded executionGraph
      (executions.flatMap (Execution.trace digest policy executionGraph)) =
        executions.map (Execution.record digest policy) := by
    clear hperm
    induction executions with
    | nil => rfl
    | cons execution others ih =>
        obtain ⟨hhead, htail⟩ := List.forall_mem_cons.mp hvalid
        rw [List.flatMap_cons, nodesAdded_append, hhead.nodesAdded hflat, ih htail]
        rfl
  have hfilter := hperm.filterMap fun event : Event => event.op.nodeRecordOn executionGraph
  refine hfilter.trans (List.Perm.of_eq ?_)
  change TripGraph.nodesAdded executionGraph (_ ++ rest) = _
  rw [nodesAdded_append, hadded, nodesAdded_of_visits hrest, List.append_nil]

/-- The graph object records every execution of a run, fan-outs included. -/
theorem Journey.nodesAdded (hflat : graph.Flat) {start cursor : Cursor} {trace : List Event}
    {moves : List Move}
    (h : Journey digest graph streamed policy executionGraph start trace moves cursor) :
    (nodesAdded executionGraph trace).Perm
      ((moves.flatMap Move.executions).map (Execution.record digest policy)) := by
  induction h with
  | start => exact .refl []
  | next _ _ _ _ accounts ih =>
      rw [nodesAdded_append, List.flatMap_append, List.map_append]
      apply ih.append
      simpa using accounts.nodesAdded hflat

/-! ## Plain rounds -/

/-- A round without a fan-out executes one node and records the edge it leaves on. -/
theorem runs_nodeRound_ok {cursor next : Cursor} {trace : List Event}
    (h : Runs (nodeRound digest graph streamed policy executionGraph cursor) trace (.ok next)) :
    ∃ (execution : Execution) (edge : GraphEdgeRecord) (first second third : GraphEvent),
      execution.Valid digest graph policy ∧ execution.input = cursor.state ∧
      next.state = execution.after digest policy ∧
      transitionOf edge = (cursor.current, next.current) ∧
      trace = emitted streamed first ++ (execution.trace digest policy executionGraph ++
        (emitted streamed second ++ (⟨.addEdgeRecord executionGraph edge, ()⟩ ::
          emitted streamed third))) := by
  obtain ⟨visited, visiting, rest, hvisit, hrest, rfl⟩ := runs_bind_ok_iff.mp h
  obtain ⟨_, rfl, hexec⟩ := runs_emit_bind_iff.mp hvisit
  obtain ⟨after, own, tail, hown, hlast, rfl⟩ := runs_bind_ok_iff.mp hexec
  obtain ⟨_, rfl, hpure⟩ := runs_emit_bind_iff.mp hlast
  obtain ⟨rfl, hvisited⟩ := runs_pure_iff.mp hpure
  cases hvisited
  obtain ⟨-, _, rfl, hemit⟩ := runs_asking_iff.mp hrest
  obtain ⟨_, rfl, hpure'⟩ := runs_emit_bind_iff.mp hemit
  obtain ⟨rfl, hnext⟩ := runs_pure_iff.mp hpure'
  cases hnext
  obtain ⟨execution, hvalid, -, hinput, -, hafter, rfl⟩ := exists_execution_of_runs hown
  refine ⟨execution, ?record, ?first, ?second, ?third, hvalid, hinput, hafter, ?edge, ?trace⟩
  case trace =>
    simp only [List.append_nil, List.append_assoc]
    rfl
  case edge => rfl

/-- A plain round keeps the graph object of the state and records its edge. -/
theorem plain_round (hflat : graph.Flat) {cursor next : Cursor} {trace : List Event}
    {executions : List Execution}
    (hround : Runs (round digest graph streamed policy executionGraph cursor) trace (.ok next))
    (haccounts : Accounts digest graph policy executionGraph trace executions)
    (hplain : Move.Plain digest graph ⟨cursor.current, executions, next.current⟩) :
    next.state.executionGraph = cursor.state.executionGraph ∧
      (edgesAdded executionGraph trace).map transitionOf =
        graph.transitions ⟨cursor.current, executions, next.current⟩ := by
  obtain ⟨hfanOut, hserved⟩ := hplain
  simp only [round, hfanOut] at hround
  split at hround
  next =>
    obtain ⟨execution, edge, first, second, third, hvalid, hinput, hafter, hedge, rfl⟩ :=
      runs_nodeRound_ok hround
    -- the account has the same record, so its execution was not served either
    have hrecords := haccounts.nodesAdded hflat
    simp only [nodesAdded_append, nodesAdded_cons, nodesAdded_emitted, hvalid.nodesAdded hflat,
      Op.nodeRecordOn, Option.toList_none, List.nil_append, List.append_nil,
      List.singleton_perm] at hrecords
    obtain ⟨own, rfl, hown⟩ := List.map_eq_singleton_iff.mp hrecords.symm
    have hvalid' := haccounts.1 own (List.mem_singleton_self own)
    have hreplayed : execution.replayed = false := by
      have heq : own.replayed = execution.replayed := congrArg NodeExecutionRecord.replayed hown
      rw [← heq, Bool.eq_false_iff]
      intro hflag
      exact hserved own (List.mem_singleton_self own) (hvalid'.served_of_replayed hflag)
    constructor
    · rw [hafter, hvalid.executionGraph_after hflat hreplayed, hinput]
    · simp [hvalid.edgesAdded hflat, edgesAdded_cons, Op.edgeRecordOn, transitions, hfanOut, hedge]
  next => simp at hround

/-- What plain rounds preserve: the graph object of the state, and complete edges on it. -/
theorem Journey.plain (hflat : graph.Flat) {start cursor : Cursor} {trace : List Event}
    {moves : List Move}
    (h : Journey digest graph streamed policy executionGraph start trace moves cursor)
    (hplain : ∀ move ∈ moves, move.Plain digest graph) :
    cursor.state.executionGraph = start.state.executionGraph ∧
      (edgesAdded executionGraph trace).map transitionOf = moves.flatMap graph.transitions := by
  induction h with
  | start => exact ⟨rfl, rfl⟩
  | next _ _ _ round accounts ih =>
      obtain ⟨hbefore, hlast⟩ := List.forall_mem_append.mp hplain
      obtain ⟨hgraph, hedges⟩ := ih hbefore
      obtain ⟨hgraph', hedges'⟩ :=
        plain_round hflat round accounts (hlast _ (List.mem_singleton_self _))
      refine ⟨hgraph'.trans hgraph, ?_⟩
      rw [edgesAdded_append, List.map_append, hedges, hedges', List.flatMap_append]
      simp

/-! ## A whole run -/

theorem follows_seeded {objects next : SharedObjects}
    (h : Follows SharedObjects.Step objects (seeded policy) next) : next = objects := by
  unfold seeded at h
  split at h
  · obtain ⟨middle, hmiddle, hnext⟩ := Follows.cons_iff.mp h
    rw [Follows.nil_iff.mp hnext]
    exact hmiddle
  · exact Follows.nil_iff.mp h

/-- A run opens a graph that exists, with what it held before. -/
theorem Opens.initialModel {state : AgentState} {opening : List Event} {ref : Ref}
    (h : Opens graph policy state opening ref) {objects next : SharedObjects}
    (hlive : ∀ given, state.executionGraph = some given → given < objects.graphs.length)
    (hfollows : Follows SharedObjects.Step objects opening next) :
    ref = initialRef objects state ∧ ref < next.graphs.length ∧
      next.graph ref = initialModel graph policy objects state := by
  cases h with
  | found ref given =>
      obtain rfl := Follows.nil_iff.mp hfollows
      exact ⟨by rw [initialRef, given, Option.getD_some], hlive ref given,
        by rw [Graph.initialModel, given]⟩
  | made ref missing =>
      obtain ⟨middle, hmiddle, hnext⟩ := Follows.cons_iff.mp hfollows
      obtain rfl := Follows.nil_iff.mp hnext
      obtain ⟨href, rfl⟩ := hmiddle
      cases href
      rw [Graph.initialModel, initialRef, missing]
      exact ⟨rfl, by simp [SharedObjects.allocate], SharedObjects.graph_allocated _⟩

theorem loopEnds_records {budget made : Nat} {cursor ended : Cursor} {trace : List Event}
    (h : LoopEnds digest graph streamed policy executionGraph budget made cursor trace
      (.ok ended)) :
    ended.state.executionGraph = cursor.state.executionGraph ∧
      nodesAdded executionGraph trace = [] ∧ edgesAdded executionGraph trace = [] := by
  cases h with
  | exhausted => exact ⟨rfl, rfl, rfl⟩
  | atEnd => exact ⟨rfl, rfl, rfl⟩
  | stopped => exact ⟨rfl, nodesAdded_emitted _, edgesAdded_emitted _⟩

/-- What an account says of the graph object the run records on. -/
theorem Account.live {state final : AgentState} {trace : List Event} {moves : List Move}
    (h : Account digest graph streamed policy state trace moves final)
    {objects last : SharedObjects}
    (hlive : ∀ given, state.executionGraph = some given → given < objects.graphs.length)
    (hfollows : Follows SharedObjects.Step objects trace last) :
    ∃ own reached, Journey digest graph streamed policy (initialRef objects state)
        (startCursor graph policy (initialRef objects state) state) own moves reached ∧
      final.executionGraph = reached.state.executionGraph ∧
      last.graph (initialRef objects state) =
        SharedObjects.extend (initialModel graph policy objects state)
          (nodesAdded (initialRef objects state) own)
            (edgesAdded (initialRef objects state) own) := by
  obtain ⟨ref, opening, own, tail, reached, ended, hopens, hjourney, hends, rfl, rfl⟩ := h
  obtain ⟨seededObjects, hseeded, hrest⟩ := Follows.append_iff.mp hfollows
  obtain rfl := follows_seeded hseeded
  obtain ⟨opened, hopening, hrest'⟩ := Follows.append_iff.mp hrest
  obtain ⟨rfl, hopened, hmodel⟩ := hopens.initialModel hlive hopening
  obtain ⟨-, hgraph⟩ := SharedObjects.graph_of_follows hrest' hopened
  obtain ⟨hended, hnodes, hedges⟩ := loopEnds_records hends
  refine ⟨own, reached, hjourney, hended, ?_⟩
  rw [hgraph, hmodel]
  simp [hnodes, hedges, closing]

/-- The graph object holds a record of every execution of the run, fan-outs included. -/
theorem Account.live_nodes (hflat : graph.Flat) {state final : AgentState} {trace : List Event}
    {moves : List Move} (h : Account digest graph streamed policy state trace moves final)
    {objects last : SharedObjects}
    (hlive : ∀ given, state.executionGraph = some given → given < objects.graphs.length)
    (hfollows : Follows SharedObjects.Step objects trace last) :
    ((last.graph (initialRef objects state)).nodeRecords.map executionOf).Perm
      ((initialModel graph policy objects state).nodeRecords.map executionOf ++
        (moves.flatMap Move.executions).map fun execution =>
          (execution.nodeId, execution.input.hash digest, execution.output.hash digest)) := by
  obtain ⟨own, reached, hjourney, -, hgraph⟩ := h.live hlive hfollows
  have hnodes := (hjourney.nodesAdded hflat).map executionOf
  rw [List.map_map] at hnodes
  rw [hgraph, SharedObjects.extend, List.map_append]
  exact hnodes.append_left _

/-- For a flat graph, every run that returns has an account, and where all its moves are
plain the execution graph of the final state mirrors it. -/
theorem executionGraph_mirrors (hflat : graph.Flat) {state final : AgentState}
    {trace : List Event} {objects last : SharedObjects}
    (hlive : ∀ given, state.executionGraph = some given → given < objects.graphs.length)
    (hrun : Runs (run digest graph streamed policy state) trace (.ok final))
    (hfollows : Follows SharedObjects.Step objects trace last) :
    (∃ moves, Account digest graph streamed policy state trace moves final) ∧
      ∀ moves, Account digest graph streamed policy state trace moves final →
        (∀ move ∈ moves, move.Plain digest graph) →
        ∃ ref, final.executionGraph = some ref ∧
          Mirrors digest graph moves (initialModel graph policy objects state)
            (last.graph ref) := by
  refine ⟨exists_account hrun, ?_⟩
  intro moves haccount hplain
  obtain ⟨own, reached, hjourney, hfinal, hgraph⟩ := haccount.live hlive hfollows
  obtain ⟨hsame, hedges⟩ := hjourney.plain hflat hplain
  refine ⟨_, hfinal.trans hsame, haccount.live_nodes hflat hlive hfollows, ?_⟩
  rw [hgraph, SharedObjects.extend, List.map_append, hedges]

end Graph

end TripGraph
