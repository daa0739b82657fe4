import TripGraph.Runtime.Visits

/-! # What rounds leave and raise

A round leaves a plan state that its nodes leave, and raises what they raise or a conflict of the
merge. The engine itself does not write plan states, and a served record brings none.
-/

namespace TripGraph

open Interaction

namespace Graph

variable {G : (op : Op) → op.Reply → Prop} {E : RaisedError → Prop} {K : Option PlanState → Prop}

/-- As long as the replies are in `G`, the program returns states with a plan state in `K` and
raises errors in `E`. -/
abbrev LeavesIn (G : (op : Op) → op.Reply → Prop) (E : RaisedError → Prop)
    (K : Option PlanState → Prop) (p : Runtime AgentState) : Prop :=
  Program.Guarantees (S := runtimeSig) G (fun after => K after.planState) E p

/-- On every state with this plan state the node leaves one in `K`. -/
def NodeLeavesIn (G : (op : Op) → op.Reply → Prop) (E : RaisedError → Prop)
    (K : Option PlanState → Prop) (fn : NodeFn) (planState : Option PlanState) : Prop :=
  ∀ state, state.planState = planState → LeavesIn G E K (fn state)

/-- The node raises nothing and leaves the plan state alone. -/
def Passes (fn : NodeFn) : Prop :=
  ∀ state, ∃ after, fn state = pure after ∧ after.planState = state.planState

theorem Passes.leaves {fn : NodeFn} (h : Passes fn) {planState : Option PlanState}
    (hplan : K planState) : NodeLeavesIn G E K fn planState := by
  intro state hstate
  obtain ⟨after, hafter, hsame⟩ := h state
  rw [hafter]
  change K after.planState
  rwa [hsame, hstate]

variable {digest : Snapshot → String} {graph : Graph} {streamed : Bool} {policy : ExecutionPolicy}
  {executionGraph : Ref}

theorem guarantees_emit (event : GraphEvent) :
    Program.Guarantees (S := runtimeSig) G (fun _ => True) E (emit streamed event) := by
  cases streamed with
  | false => trivial
  | true => exact fun _ _ => trivial

theorem guarantees_emitAll (events : List GraphEvent) :
    Program.Guarantees (S := runtimeSig) G (fun _ => True) E (emitAll streamed events) := by
  induction events with
  | nil => trivial
  | cons event rest ih => exact (guarantees_emit event).bind fun _ _ => ih

theorem guarantees_recordEdges (edges : List GraphEdgeRecord) :
    Program.Guarantees (S := runtimeSig) G (fun _ => True) E
      (recordEdges executionGraph edges) := by
  induction edges with
  | nil => trivial
  | cons edge rest ih => exact guarantees_asking fun _ _ => ih

theorem leaves_deepCopy {state : AgentState} (hplan : K state.planState) :
    LeavesIn G E K (deepCopy state) := by
  unfold deepCopy
  split
  · exact hplan
  · exact guarantees_asking fun _ _ => hplan

theorem leaves_runOrServe {fn : NodeFn} {record : Option NodeExecutionRecord} {inputHash : String}
    {state : AgentState} (hplan : K state.planState) (h : LeavesIn G E K (fn state)) :
    Program.Guarantees (S := runtimeSig) G (fun executed => K executed.1.planState) E
      (runOrServe fn record inputHash state) := by
  unfold runOrServe
  split
  · -- a served snapshot brings no plan state
    exact (leaves_deepCopy hplan).bind fun _ _ => guarantees_asking fun _ _ => hplan
  · refine h.bind fun after hafter => ?_
    split
    · exact guarantees_asking fun _ _ => hafter
    · exact hafter

theorem leaves_executeNode {nodeId : String} {fn : NodeFn} (hfn : graph.nodes nodeId = some fn)
    {state : AgentState} {sequence : Nat} (hplan : K state.planState)
    (h : NodeLeavesIn G E K fn state.planState) :
    LeavesIn G E K (executeNode digest graph policy executionGraph nodeId state sequence) := by
  have hrest : ∀ record : Option NodeExecutionRecord, LeavesIn G E K
      (executeRecorded digest policy executionGraph nodeId fn state sequence record) := by
    intro record
    have hstarted : K (startNode digest nodeId state).planState := hplan
    refine guarantees_asking fun _ _ => ?_
    refine (leaves_runOrServe hstarted (h _ rfl)).bind fun executed hexecuted => ?_
    refine Program.Guarantees.bind (Q := fun committed : AgentState => K committed.planState)
      (guarantees_asking fun _ _ => hexecuted) fun committed hcommitted => ?_
    exact guarantees_asking fun _ _ => hcommitted
  rw [executeNode_of_some hfn]
  split
  · exact guarantees_asking fun record _ => hrest record
  · exact hrest none

theorem leaves_runBranch {branchId : String} {fn : NodeFn} (hfn : graph.nodes branchId = some fn)
    {events : Ref} {state : AgentState} {sequence : Nat} (hplan : K state.planState)
    (h : NodeLeavesIn G E K fn state.planState) :
    LeavesIn G E K
      (runBranch digest graph policy executionGraph events state branchId sequence) := by
  refine (leaves_deepCopy (K := fun own => own = state.planState) rfl).bind fun copied hcopied => ?_
  refine guarantees_asking fun _ _ => ?_
  refine (leaves_executeNode hfn (hcopied ▸ hplan) (hcopied ▸ h)).bind fun updated hupdated => ?_
  exact guarantees_asking fun _ _ => hupdated

theorem leaves_runJoin {joinId : String} {fn : NodeFn} (hfn : graph.nodes joinId = some fn)
    {merged : AgentState} {sequence : Nat} (hplan : K merged.planState) (h : Passes fn) :
    LeavesIn G E K
      (runJoin digest graph streamed policy executionGraph joinId merged sequence) := by
  rw [runJoin, if_pos (Option.isSome_of_mem hfn)]
  refine (guarantees_emit _).bind fun _ _ => ?_
  refine (leaves_executeNode hfn hplan (h.leaves hplan)).bind fun joined hjoined => ?_
  exact (guarantees_emit _).bind fun _ _ => hjoined

theorem leaves_deepMerge {left right : AgentState} (hleft : K left.planState)
    (hright : K right.planState) : LeavesIn G E K (deepMerge left right) := by
  have hmerged : K (right.planState.orElse fun _ => left.planState) := by
    cases hplan : right.planState with
    | none => exact hleft
    | some own =>
        rw [hplan] at hright
        exact hright
  refine Program.Guarantees.bind (Q := fun _ => True) ?_ fun _ _ => hmerged
  unfold mergeExecutionGraphs
  split
  · trivial
  · trivial
  · exact guarantees_asking fun _ _ => trivial

/-- Merging raises conflicts only, and takes over plan states of the merged states. -/
theorem leaves_mergeStates (hconflict : ∀ fields, E (.mergeConflict fields))
    {strategy : MergeStrategy} {base : AgentState} {branches : List AgentState}
    (hbase : K base.planState)
    (hbranches : ∀ branch ∈ branches, K branch.planState) :
    LeavesIn G E K (mergeStates strategy base branches) := by
  induction branches generalizing base with
  | nil => exact hbase
  | cons branch rest ih =>
      obtain ⟨hbranch, hrest⟩ := List.forall_mem_cons.mp hbranches
      refine Program.Guarantees.bind (Q := fun merged : AgentState => K merged.planState) ?_
        fun merged hmerged => ih hmerged hrest
      cases strategy with
      | lastWins => exact hbranch
      | failOnConflict =>
          unfold mergePair
          dsimp only
          split
          · exact leaves_deepMerge hbase hbranch
          · exact hconflict _
      | mergeLists => exact (leaves_deepMerge hbase hbranch).bind fun _ hmerged => hmerged
      | deepMerge => exact leaves_deepMerge hbase hbranch

theorem leaves_runParallelFanout (hconflict : ∀ fields, E (.mergeConflict fields))
    {fanOut : ParallelFanOut} {cursor : Cursor} (hplan : K cursor.state.planState)
    (hbranches : ∀ branch ∈ fanOut.branches, ∃ fn, graph.nodes branch = some fn ∧
      NodeLeavesIn G E K fn cursor.state.planState)
    {join : NodeFn} (hjoin : graph.nodes fanOut.joinNode = some join) (hpasses : Passes join) :
    Program.Guarantees (S := runtimeSig) G (fun done => K done.state.planState) E
      (runParallelFanout digest graph streamed policy executionGraph fanOut cursor) := by
  have hstate : K (fanOutState fanOut cursor.state).planState := hplan
  refine (guarantees_emit _).bind fun _ _ => guarantees_asking fun events _ => ?_
  refine (guarantees_recordEdges _).bind fun _ _ => guarantees_asking fun order _ => ?_
  have htasks : ∀ task ∈ branchTasks digest graph policy executionGraph events fanOut
      (fanOutState fanOut cursor.state) cursor.sequence, LeavesIn G E K task := by
    intro task htask
    obtain ⟨entry, hentry, rfl⟩ := List.mem_map.mp htask
    obtain ⟨fn, hfn, hleaves⟩ := hbranches entry.1 (List.fst_mem_of_mem_zipIdx hentry)
    exact leaves_runBranch hfn hstate hleaves
  refine (Program.guarantees_gather htasks).bind fun branches hall => ?_
  refine (guarantees_recordEdges _).bind fun _ _ => guarantees_asking fun branchEvents _ => ?_
  refine (guarantees_emitAll _).bind fun _ _ => ?_
  refine (leaves_mergeStates hconflict hstate hall).bind fun merged hmerged => ?_
  refine Program.Guarantees.bind (Q := fun committed : AgentState => K committed.planState)
    (guarantees_asking fun _ _ => hmerged) fun committed hcommitted => ?_
  refine (leaves_runJoin hjoin hcommitted hpasses).bind fun joined hjoined => ?_
  exact (guarantees_emit _).bind fun _ _ => hjoined

theorem leaves_visitNode {cursor : Cursor} {fn : NodeFn}
    (hfn : graph.nodes cursor.current = some fn) (hplan : K cursor.state.planState)
    (h : NodeLeavesIn G E K fn cursor.state.planState) :
    Program.Guarantees (S := runtimeSig) G (fun visited => K visited.state.planState) E
      (visitNode digest graph streamed policy executionGraph cursor) :=
  (guarantees_emit _).bind fun _ _ => (leaves_executeNode hfn hplan h).bind fun _ hafter =>
    (guarantees_emit _).bind fun _ _ => hafter

/-- A round at a plain node leaves what the node leaves. -/
theorem leaves_round_node {cursor : Cursor} (hfanOut : graph.fanOutFor cursor.current = none)
    {fn : NodeFn} (hfn : graph.nodes cursor.current = some fn) (hplan : K cursor.state.planState)
    (h : NodeLeavesIn G E K fn cursor.state.planState) :
    Program.Guarantees (S := runtimeSig) G (fun next => K next.state.planState) E
      (round digest graph streamed policy executionGraph cursor) := by
  simp only [round, hfanOut, hfn, Option.isSome_some, if_true]
  refine (leaves_visitNode hfn hplan h).bind fun visited hvisited => guarantees_asking fun _ _ => ?_
  exact (guarantees_emit _).bind fun _ _ => hvisited

/-- A round with a fan-out leaves what its branches leave. -/
theorem leaves_round_fanOut (hconflict : ∀ fields, E (.mergeConflict fields)) {cursor : Cursor}
    {fanOut : ParallelFanOut} (hfanOut : graph.fanOutFor cursor.current = some fanOut)
    {fn join : NodeFn} (hfn : graph.nodes cursor.current = some fn) (hpasses : Passes fn)
    (hplan : K cursor.state.planState)
    (hbranches : ∀ branch ∈ fanOut.branches, ∃ fn, graph.nodes branch = some fn ∧
      NodeLeavesIn G E K fn cursor.state.planState)
    (hjoin : graph.nodes fanOut.joinNode = some join) (hpassesJoin : Passes join) :
    Program.Guarantees (S := runtimeSig) G (fun next => K next.state.planState) E
      (round digest graph streamed policy executionGraph cursor) := by
  simp only [round, hfanOut, fanOutRound, hfn, Option.isSome_some, if_true]
  refine (leaves_visitNode (K := fun own => own = cursor.state.planState) hfn rfl
    (hpasses.leaves rfl)).bind fun visited hvisited => ?_
  rw [← hvisited] at hplan hbranches
  exact (leaves_runParallelFanout hconflict hplan hbranches hjoin hpassesJoin).bind
    fun _ hdone => hdone

end Graph

end TripGraph
