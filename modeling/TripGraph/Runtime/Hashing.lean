import TripGraph.Plan.Textual
import TripGraph.Runtime.Visits

/-! # Hashing states

`hash_state` serialises a state with sorted keys, and raises where a dictionary has integers and
strings among its keys. In a run whose values are textual, save for the outputs kept by step id,
every state is hashed.
-/

namespace TripGraph

open Interaction

/-- `json.dumps(snapshot, sort_keys=True)` does not raise. -/
def Snapshot.sortable (snap : Snapshot) : Bool :=
  snap.messages.all Value.sortable && sortableValues snap.observations &&
    snap.shortTermMemory.all Value.sortable && snap.longTermMemory.all Value.sortable &&
    snap.episodicMemory.all Value.sortable && sortableValues snap.memory &&
    (snap.graphTrace.all fun entry => entry.data.all fun item => item.2.sortable) &&
    snap.planState.all fun own => own.globalContext.sortable

/-- The digest shows where serialising raises. -/
def ShowsRaised (digest : Snapshot → String) : Prop :=
  ∀ snap, digest snap = raisedHash ↔ snap.sortable = false

/-! ## States -/

namespace AgentState

/-- The values of the state are textual, save for the step outputs. -/
structure Textual (state : AgentState) : Prop where
  messages : ∀ message ∈ state.messages, message.Textual
  observations : Noted state.observations
  shortTermMemory : ∀ entry ∈ state.shortTermMemory, entry.Textual
  longTermMemory : ∀ entry ∈ state.longTermMemory, entry.Textual
  episodicMemory : ∀ entry ∈ state.episodicMemory, entry.Textual
  memory : TextualValues state.memory
  planState : ∀ own, state.planState = some own → own.Textual

/-- The fields that hold values. -/
def held (state : AgentState) : List Value × Dict String Value × List Value × List Value ×
    List Value × Dict String Value × Option PlanState :=
  (state.messages, state.observations, state.shortTermMemory, state.longTermMemory,
    state.episodicMemory, state.memory, state.planState)

namespace Textual

variable {state after : AgentState}

theorem of_same (h : state.Textual) (hsame : after.held = state.held) : after.Textual := by
  simp only [held, Prod.mk.injEq] at hsame
  obtain ⟨hmessages, hobservations, hshort, hlong, hepisodic, hmemory, hplan⟩ := hsame
  constructor
  · exact hmessages ▸ h.messages
  · exact hobservations ▸ h.observations
  · exact hshort ▸ h.shortTermMemory
  · exact hlong ▸ h.longTermMemory
  · exact hepisodic ▸ h.episodicMemory
  · exact hmemory ▸ h.memory
  · exact hplan ▸ h.planState

theorem logGraph (h : state.Textual) (nodeId event : String) (data : Args) :
    (state.logGraph nodeId event data).Textual := h.of_same rfl

theorem applySnapshot (h : state.Textual) {snap : Snapshot} (hsnap : snap.Textual)
    (graphCopy : Option Ref) : (state.applySnapshot snap graphCopy).Textual :=
  ⟨hsnap.messages, hsnap.observations, hsnap.shortTermMemory, hsnap.longTermMemory,
    hsnap.episodicMemory, hsnap.memory, h.planState⟩

theorem sortable_observations (h : state.Textual) : sortableValues state.observations = true := by
  refine List.all_eq_true.mpr fun entry hmem => ?_
  have hentry := h.observations entry hmem
  dsimp only at hentry
  split at hentry
  · exact hentry.sortable
  · exact hentry.sortable

/-- The state can be hashed. -/
theorem sortable (h : state.Textual) : Snapshot.sortable
    { state.snapshot with graphTrace := [], executionTrace := [] } = true := by
  have hplan : (state.planState.map PlanState.summary).all
      (fun own => own.globalContext.sortable) = true := by
    cases hstate : state.planState with
    | none => rfl
    | some own => exact (h.planState own hstate).context.sortable
  have hall : ∀ {values : List Value}, (∀ value ∈ values, value.Textual) →
      values.all Value.sortable = true :=
    fun hvalues => List.all_eq_true.mpr fun value hmem => (hvalues value hmem).sortable
  have hmessages := hall h.messages
  have hshort := hall h.shortTermMemory
  have hlong := hall h.longTermMemory
  have hepisodic := hall h.episodicMemory
  have hobservations := h.sortable_observations
  have hmemory := TextualValues.sortable h.memory
  simp only [Snapshot.sortable, snapshot, List.all_nil, hmessages, hshort, hlong, hepisodic,
    hobservations, hmemory, hplan, Bool.and_true]

theorem hash_ne (h : state.Textual) {digest : Snapshot → String} (hdigest : ShowsRaised digest) :
    state.hash digest ≠ raisedHash := by
  intro hraised
  have hsorts := (hdigest _).mp hraised
  rw [h.sortable] at hsorts
  cases hsorts

end Textual

end AgentState

/-! ## The engine -/

namespace Graph

variable {digest : Snapshot → String} {graph : Graph} {policy : ExecutionPolicy}
  {executionGraph : Ref}

/-- On textual states, each node of the graph hashes and leaves textual states. -/
abbrev HashedNodes (graph : Graph) : Prop :=
  graph.EachNode fun _ fn => ∀ state, state.Textual → Hashes AgentState.Textual (fn state)

/-- What a replay serves at most. -/
abbrev ServesTextual (record : Option NodeExecutionRecord) : Prop :=
  ∀ own, record = some own → ∀ snapshot, own.outputStateSnapshot = some snapshot → snapshot.Textual

theorem textual_of_served {record : Option NodeExecutionRecord} {inputHash : String}
    {snapshot : Snapshot} (h : ServesTextual record)
    (hserved : servedSnapshot record inputHash = some snapshot) : snapshot.Textual := by
  cases record with
  | none => cases hserved
  | some own =>
      simp only [servedSnapshot] at hserved
      split at hserved
      · exact h own rfl snapshot hserved
      · cases hserved

theorem hashes_deepCopy {state : AgentState} (h : state.Textual) :
    Hashes AgentState.Textual (deepCopy state) := by
  unfold deepCopy
  split
  · exact h
  · exact hashes_asking rfl fun _ _ => h.of_same rfl

theorem hashes_commit {state : AgentState} (h : state.Textual) (nodeId : String) :
    Hashes AgentState.Textual (commit digest state nodeId) :=
  hashes_asking rfl fun _ _ => h.of_same rfl

theorem hashes_runOrServe {fn : NodeFn} {record : Option NodeExecutionRecord} {inputHash : String}
    {state : AgentState} (hfn : Hashes AgentState.Textual (fn state))
    (hrecord : ServesTextual record) (h : state.Textual) :
    Hashes (fun executed => executed.1.Textual) (runOrServe fn record inputHash state) := by
  unfold runOrServe
  split
  next snapshot hserved =>
    refine (hashes_deepCopy h).bind fun copied _ => ?_
    exact hashes_asking rfl fun _ _ => h.applySnapshot (textual_of_served hrecord hserved) _
  next =>
    refine hfn.bind fun after hafter => ?_
    split
    · exact hashes_asking rfl fun _ _ => hafter
    · exact hafter

/-- A node execution hashes the state before and after the node. -/
theorem hashes_executeNode (hdigest : ShowsRaised digest) (hnodes : graph.HashedNodes)
    {state : AgentState} (h : state.Textual) (nodeId : String) (sequence : Nat) :
    Hashes AgentState.Textual
      (executeNode digest graph policy executionGraph nodeId state sequence) := by
  cases hfn : graph.nodes nodeId with
  | none =>
      rw [executeNode_of_none hfn]
      trivial
  | some fn =>
      have hstarted : (startNode digest nodeId state).Textual := h.logGraph _ _ _
      have hinput := h.hash_ne hdigest
      have hrun : ∀ record, ServesTextual record → Hashes AgentState.Textual
          (executeRecorded digest policy executionGraph nodeId fn state sequence record) := by
        intro record hrecord
        refine ensures_asking ?_ fun _ _ => ?_
        · exact fun hmem => hinput (List.mem_singleton.mp hmem).symm
        refine (hashes_runOrServe (hnodes nodeId fn hfn _ hstarted) hrecord hstarted).bind
          fun executed hexecuted => ?_
        refine (hashes_commit hexecuted nodeId).bind fun committed hcommitted => ?_
        refine ensures_asking ?_ fun _ _ => hcommitted.logGraph _ _ _
        intro hmem
        rcases List.mem_cons.mp hmem with hraised | hmem
        · exact hinput hraised.symm
        · exact hexecuted.hash_ne hdigest (List.mem_singleton.mp hmem).symm
      rw [executeNode_of_some hfn]
      split
      · refine hashes_asking rfl fun record hrecord => ?_
        exact hrun record hrecord
      · exact hrun none fun _ hown => nomatch hown

theorem hashes_recordEdges (edges : List GraphEdgeRecord) :
    Hashes (fun _ => True) (recordEdges executionGraph edges) := by
  induction edges with
  | nil => trivial
  | cons edge rest ih => exact hashes_asking rfl fun _ _ => ih

theorem hashes_emitAll (events : List GraphEvent) :
    Hashes (fun _ => True) (emitAll false events) := by
  induction events with
  | nil => trivial
  | cons event rest ih => exact ih

theorem hashes_runBranch (hdigest : ShowsRaised digest) (hnodes : graph.HashedNodes)
    {state : AgentState} (h : state.Textual) (events : Ref) (branchId : String) (sequence : Nat) :
    Hashes AgentState.Textual
      (runBranch digest graph policy executionGraph events state branchId sequence) := by
  refine (hashes_deepCopy h).bind fun copied hcopied => ?_
  have hinput := hcopied.hash_ne hdigest
  refine ensures_asking ?_ fun _ _ => ?_
  · exact fun hmem => hinput (List.mem_singleton.mp hmem).symm
  refine (hashes_executeNode hdigest hnodes hcopied branchId sequence).bind
    fun updated hupdated => ?_
  refine ensures_asking ?_ fun _ _ => hupdated
  intro hmem
  rcases List.mem_cons.mp hmem with hraised | hmem
  · exact hinput hraised.symm
  · exact hupdated.hash_ne hdigest (List.mem_singleton.mp hmem).symm

/-! ### Fan-ins -/

theorem textual_dedupeList {left right : List Value} (hleft : ∀ value ∈ left, value.Textual)
    (hright : ∀ value ∈ right, value.Textual) :
    ∀ value ∈ dedupeList (left ++ right), value.Textual := by
  intro value hmem
  rcases List.mem_append.mp (List.mem_eraseDups.mp hmem) with hmem | hmem
  · exact hleft value hmem
  · exact hright value hmem

theorem hashes_deepMerge {left right : AgentState} (hleft : left.Textual) (hright : right.Textual) :
    Hashes AgentState.Textual (deepMerge left right) := by
  refine Program.Ensures.bind (Q := fun _ => True) ?_ fun executionGraph _ => ?_
  · unfold mergeExecutionGraphs
    split
    · trivial
    · trivial
    · exact hashes_asking rfl fun _ _ => trivial
  · refine ⟨textual_dedupeList hleft.messages hright.messages,
      hleft.observations.update hright.observations,
      textual_dedupeList hleft.shortTermMemory hright.shortTermMemory,
      textual_dedupeList hleft.longTermMemory hright.longTermMemory,
      textual_dedupeList hleft.episodicMemory hright.episodicMemory,
      hleft.memory.update hright.memory, ?_⟩
    change ∀ own, (right.planState.orElse fun _ => left.planState) = some own → own.Textual
    intro own hown
    cases hplan : right.planState with
    | none =>
        rw [hplan] at hown
        exact hleft.planState own hown
    | some other =>
        rw [hplan] at hown
        exact hright.planState own (hplan.trans hown)

theorem hashes_mergePair (strategy : MergeStrategy) {left right : AgentState} (hleft : left.Textual)
    (hright : right.Textual) : Hashes AgentState.Textual (mergePair strategy left right) := by
  cases strategy with
  | lastWins => exact hright
  | deepMerge => exact hashes_deepMerge hleft hright
  | mergeLists => exact (hashes_deepMerge hleft hright).bind fun merged hmerged =>
      ⟨textual_dedupeList hleft.messages hright.messages, hmerged.observations,
        hmerged.shortTermMemory, hmerged.longTermMemory, hmerged.episodicMemory, hmerged.memory,
        hmerged.planState⟩
  | failOnConflict =>
      unfold mergePair
      dsimp only
      split
      · exact hashes_deepMerge hleft hright
      · trivial

theorem hashes_mergeStates (strategy : MergeStrategy) {base : AgentState}
    {branches : List AgentState} (hbase : base.Textual)
    (hbranches : ∀ branch ∈ branches, branch.Textual) :
    Hashes AgentState.Textual (mergeStates strategy base branches) := by
  induction branches generalizing base with
  | nil => exact hbase
  | cons branch rest ih =>
      obtain ⟨hbranch, hrest⟩ := List.forall_mem_cons.mp hbranches
      exact (hashes_mergePair strategy hbase hbranch).bind fun merged hmerged => ih hmerged hrest

theorem hashes_runJoin (hdigest : ShowsRaised digest) (hnodes : graph.HashedNodes)
    {merged : AgentState} (h : merged.Textual) (joinId : String) (sequence : Nat) :
    Hashes AgentState.Textual
      (runJoin digest graph false policy executionGraph joinId merged sequence) := by
  unfold runJoin
  split
  · exact (hashes_executeNode hdigest hnodes h joinId sequence).bind fun _ hjoined => hjoined
  · exact h

theorem hashes_runParallelFanout (hdigest : ShowsRaised digest) (hnodes : graph.HashedNodes)
    {cursor : Cursor} (h : cursor.state.Textual) (fanOut : ParallelFanOut) :
    Hashes (fun done => done.state.Textual)
      (runParallelFanout digest graph false policy executionGraph fanOut cursor) := by
  have hfanned : (fanOutState fanOut cursor.state).Textual := h.logGraph _ _ _
  refine hashes_asking rfl fun events _ => ?_
  refine (hashes_recordEdges _).bind fun _ _ => ?_
  refine hashes_asking rfl fun order _ => ?_
  refine Program.Ensures.bind (Program.ensures_gather (Q := AgentState.Textual) ?_)
    fun branches hbranches => ?_
  · intro task hmem
    obtain ⟨entry, -, rfl⟩ := List.mem_map.mp hmem
    exact hashes_runBranch hdigest hnodes hfanned events entry.1 _
  refine (hashes_recordEdges _).bind fun _ _ => ?_
  refine hashes_asking rfl fun branchEvents _ => ?_
  refine (hashes_emitAll _).bind fun _ _ => ?_
  refine (hashes_mergeStates _ hfanned hbranches).bind fun merged hmerged => ?_
  refine (hashes_commit hmerged _).bind fun committed hcommitted => ?_
  exact (hashes_runJoin hdigest hnodes hcommitted _ _).bind fun joined hjoined => hjoined

/-! ### Runs -/

theorem hashes_visitNode (hdigest : ShowsRaised digest) (hnodes : graph.HashedNodes)
    {cursor : Cursor} (h : cursor.state.Textual) : Hashes (fun visited => visited.state.Textual)
      (visitNode digest graph false policy executionGraph cursor) :=
  (hashes_executeNode hdigest hnodes h _ _).bind fun _ hafter => hafter

theorem hashes_round (hdigest : ShowsRaised digest) (hnodes : graph.HashedNodes) {cursor : Cursor}
    (h : cursor.state.Textual) : Hashes (fun next => next.state.Textual)
      (round digest graph false policy executionGraph cursor) := by
  unfold round
  split
  next fanOut _ =>
    unfold fanOutRound
    have hfanned : ∀ visited : Cursor, visited.state.Textual →
      Hashes (fun next => next.state.Textual)
        (do
          let done ← runParallelFanout digest graph false policy executionGraph fanOut visited
          pure { done with
            current := graph.afterFanOut fanOut done.state
            iterations := done.iterations + 1 }) := fun visited hvisited =>
      (hashes_runParallelFanout hdigest hnodes hvisited fanOut).bind fun _ hdone => hdone
    split
    · exact (hashes_visitNode hdigest hnodes h).bind hfanned
    · exact hfanned cursor h
  next =>
    split
    · refine (hashes_visitNode hdigest hnodes h).bind fun visited hvisited => ?_
      exact hashes_asking rfl fun _ _ => hvisited
    · trivial

theorem hashes_loop (hdigest : ShowsRaised digest) (hnodes : graph.HashedNodes) (budget : Nat)
    {cursor : Cursor} (h : cursor.state.Textual) : Hashes (fun last => last.state.Textual)
      (loop digest graph false policy executionGraph budget cursor) := by
  induction budget generalizing cursor with
  | zero => exact h
  | succ budget ih =>
      rw [loop]
      split
      · exact h
      refine hashes_ofExcept.bind fun stop _ => ?_
      split
      · exact h.logGraph _ _ _
      · exact (hashes_round hdigest hnodes h).bind fun _ hnext => ih hnext

/-- A run that has nothing left to do hashes nothing. -/
theorem hashes_loop_of_stopped (budget : Nat) {cursor : Cursor}
    (hstop : cursor.state.shouldStop = true) :
    Hashes (fun _ => True) (loop digest graph false policy executionGraph budget cursor) := by
  have hstops : graph.stops cursor.state = .ok true := if_pos hstop
  cases budget with
  | zero => trivial
  | succ budget =>
      rw [loop, hstops]
      split
      · trivial
      · trivial

theorem hashes_invoke_of_loop {Q : AgentState → Prop} {state : AgentState}
    (hloop : ∀ executionGraph, Hashes (fun last => Q last.state)
      (loop digest graph false policy executionGraph graph.maxIterations
        ⟨graph.entry, { state with
          executionSeed := policy.seed
          executionGraph := some executionGraph }, 0, 0, 0⟩)) :
    Hashes Q (graph.invoke digest policy state) := by
  have hensured : Hashes Q (do
      let executionGraph ← ensureExecutionGraph graph policy state
      let last ← loop digest graph false policy executionGraph graph.maxIterations
        ⟨graph.entry, { state with
          executionSeed := policy.seed
          executionGraph := some executionGraph }, 0, 0, 0⟩
      pure last.state) := by
    refine Program.Ensures.bind (Q := fun _ => True) ?_ fun executionGraph _ =>
      (hloop executionGraph).bind fun _ hlast => hlast
    unfold ensureExecutionGraph
    split
    · trivial
    · exact hashes_asking rfl fun _ _ => trivial
  unfold invoke run
  split
  · exact hashes_asking rfl fun _ _ => hensured
  · exact hensured

/-- In a run from a textual state, every state is hashed. -/
theorem hashes_invoke (hdigest : ShowsRaised digest) (hnodes : graph.HashedNodes)
    {state : AgentState} (h : state.Textual) :
    Hashes AgentState.Textual (graph.invoke digest policy state) :=
  hashes_invoke_of_loop fun _ => hashes_loop hdigest hnodes _ (h.of_same rfl)

theorem hashes_invoke_of_stopped {state : AgentState} (hstop : state.shouldStop = true) :
    Hashes (fun _ => True) (graph.invoke digest policy state) :=
  hashes_invoke_of_loop fun _ => hashes_loop_of_stopped _ hstop

end Graph

end TripGraph
