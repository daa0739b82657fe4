import TripGraph.Runtime.Records

/-! # The account of a run

A run is told as a list of moves: which node executions a round makes and where it goes on.
The traces of the executions, together with events that mark no node, are the trace of the
round. Every run that returns has such an account.
-/

namespace TripGraph

open Interaction

namespace Graph

/-- One execution of a node: what came in, what the recording held, what the node asked and
what came out. -/
structure Execution where
  nodeId : String
  sequence : Nat
  input : AgentState
  looked : Option NodeExecutionRecord
  own : List Event
  output : AgentState
  replayed : Bool
  versionId : String

namespace Execution

variable (digest : Snapshot → String) (graph : Graph) (policy : ExecutionPolicy)
  (executionGraph : Ref) (execution : Execution)

/-- The record the execution leaves. -/
def record : NodeExecutionRecord :=
  nodeRecord digest policy execution.nodeId execution.sequence execution.input
    (startNode digest execution.nodeId execution.input) execution.output execution.replayed

/-- Everything the execution asks. -/
def trace : List Event :=
  lookedUp policy execution.nodeId execution.looked ++
    startEvent digest policy execution.nodeId execution.input :: (execution.own ++
      [⟨.uuid4, execution.versionId⟩,
        ⟨.addNodeRecord executionGraph (execution.record digest policy), ()⟩])

/-- The state the execution hands on. -/
def after : AgentState :=
  finishNode (execution.record digest policy)
    (execution.output.commitVersion digest execution.nodeId execution.versionId)

/-- The node is run, or served from the recording. -/
def Valid : Prop :=
  ∃ fn, graph.nodes execution.nodeId = some fn ∧
    (policy.mode ≠ .replay → execution.looked = none) ∧
    Runs (runOrServe fn execution.looked (execution.input.hash digest)
      (startNode digest execution.nodeId execution.input)) execution.own
      (.ok (execution.output, execution.replayed))

/-- The recording has an output to serve for this input. -/
def Served : Prop :=
  (servedSnapshot execution.looked (execution.input.hash digest)).isSome = true

end Execution

/-- One round of a run: where it starts, the executions it makes and where the run goes on. -/
structure Move where
  source : String
  executions : List Execution
  target : String

/-- The transitions a round takes: along an edge, or to the branches of a fan-out, from each
of them to the join and from the join onward. -/
def transitions (graph : Graph) (move : Move) : List (String × String) :=
  match graph.fanOutFor move.source with
  | none => [(move.source, move.target)]
  | some fanOut =>
      fanOut.branches.map (fun branch => (fanOut.source, branch)) ++
        fanOut.branches.map (fun branch => (branch, fanOut.joinNode)) ++
        [(fanOut.joinNode, move.target)]

variable (digest : Snapshot → String) (graph : Graph) (streamed : Bool) (policy : ExecutionPolicy)
  (executionGraph : Ref)

/-- The trace consists of these executions, interleaved, and of events that mark no node. -/
def Accounts (trace : List Event) (executions : List Execution) : Prop :=
  (∀ execution ∈ executions, execution.Valid digest graph policy) ∧
    ∃ rest, visits rest = [] ∧
      trace.Perm (executions.flatMap (Execution.trace digest policy executionGraph) ++ rest)

/-- Rounds told as moves. -/
inductive Journey (start : Cursor) : List Event → List Move → Cursor → Prop
  | start : Journey start [] [] start
  | next {trace own : List Event} {moves : List Move} {cursor after : Cursor}
      {executions : List Execution} (before : Journey start trace moves cursor)
      (current : cursor.current ≠ endNode) (goesOn : graph.stops cursor.state = .ok false)
      (round : Runs (round digest graph streamed policy executionGraph cursor) own (.ok after))
      (accounts : Accounts digest graph policy executionGraph own executions) :
      Journey start (trace ++ own) (moves ++ [⟨cursor.current, executions, after.current⟩]) after

/-- A run that returns, told as moves. -/
def Account (state : AgentState) (trace : List Event) (moves : List Move) (final : AgentState) :
    Prop :=
  ∃ ref opening own last reached ended, Opens graph policy state opening ref ∧
    Journey digest graph streamed policy ref (startCursor graph policy ref state) own moves
      reached ∧
    LoopEnds digest graph streamed policy ref graph.maxIterations moves.length reached last
      (.ok ended) ∧
    final = ended.state ∧
    trace = seeded policy ++ (opening ++ (emitted streamed
      (.graphStart graph.graphId graph.entry policy.mode.text) ++ (own ++ (last ++
        closing graph streamed ended))))

variable {digest graph streamed policy executionGraph}

/-! ## Every run has an account -/

/-- The property depends neither on the traces of a state nor on its execution graph, and a
version with a drawn id establishes it. -/
structure Anchored (digest : Snapshot → String) (drawn : String → Prop) (Q : AgentState → Prop) :
    Prop where
  copied : ∀ (state : AgentState) (ref : Option Ref), Q state →
    Q { state with executionGraph := ref }
  logged : ∀ (state : AgentState) (nodeId event : String) (data : Args), Q state →
    Q (state.logGraph nodeId event data)
  committed : ∀ (state : AgentState) (nodeId versionId : String), drawn versionId →
    Q (state.commitVersion digest nodeId versionId)

theorem anchored_true : Anchored digest (fun _ => True) fun _ => True :=
  ⟨fun _ _ _ => trivial, fun _ _ _ _ _ => trivial, fun _ _ _ _ => trivial⟩

/-- The ids the trace draws satisfy `drawn`. -/
def Draws (drawn : String → Prop) (trace : List Event) : Prop :=
  ∀ id, (⟨.uuid4, id⟩ : Event) ∈ trace → drawn id

/-- Some executions, each on a state with `Q`, account for the trace. -/
abbrev Accounted (digest : Snapshot → String) (graph : Graph) (policy : ExecutionPolicy)
    (executionGraph : Ref) (Q : AgentState → Prop) (trace : List Event) : Prop :=
  ∃ executions, Accounts digest graph policy executionGraph trace executions ∧
    ∀ execution ∈ executions, Q execution.input

section Accounted

variable {drawn : String → Prop} {Q : AgentState → Prop}

theorem Draws.of_subset {own trace : List Event} (h : Draws drawn trace) (hsub : own ⊆ trace) :
    Draws drawn own := fun id hmem => h id (hsub hmem)

theorem accounted_of_visits {trace : List Event} (h : visits trace = []) :
    Accounted digest graph policy executionGraph Q trace :=
  ⟨[], ⟨by simp, trace, h, .refl trace⟩, by simp⟩

theorem Accounted.append {first second : List Event}
    (hfirst : Accounted digest graph policy executionGraph Q first)
    (hsecond : Accounted digest graph policy executionGraph Q second) :
    Accounted digest graph policy executionGraph Q (first ++ second) := by
  obtain ⟨executions, ⟨hvalid, rest, hrest, hperm⟩, hinputs⟩ := hfirst
  obtain ⟨executions', ⟨hvalid', rest', hrest', hperm'⟩, hinputs'⟩ := hsecond
  refine ⟨executions ++ executions', ⟨?_, rest ++ rest', by simp [hrest, hrest'], ?_⟩, ?_⟩
  · intro execution hmem
    exact (List.mem_append.mp hmem).elim (hvalid execution) (hvalid' execution)
  · refine (hperm.append hperm').trans ?_
    rw [List.flatMap_append, List.append_assoc, List.append_assoc]
    refine List.Perm.append_left _ ?_
    rw [← List.append_assoc, ← List.append_assoc]
    exact List.perm_append_comm.append_right rest'
  · intro execution hmem
    exact (List.mem_append.mp hmem).elim (hinputs execution) (hinputs' execution)

theorem Accounted.perm {trace other : List Event} (hperm : other.Perm trace)
    (h : Accounted digest graph policy executionGraph Q trace) :
    Accounted digest graph policy executionGraph Q other := by
  obtain ⟨executions, ⟨hvalid, rest, hrest, htrace⟩, hinputs⟩ := h
  exact ⟨executions, ⟨hvalid, rest, hrest, hperm.trans htrace⟩, hinputs⟩

theorem Accounted.between {first own last : List Event}
    (hown : Accounted digest graph policy executionGraph Q own) (hfirst : visits first = [])
    (hlast : visits last = []) :
    Accounted digest graph policy executionGraph Q (first ++ (own ++ last)) :=
  (accounted_of_visits hfirst).append (hown.append (accounted_of_visits hlast))

/-- What a node execution asks is the trace of an execution. -/
theorem exists_execution_of_runs {nodeId : String} {state after : AgentState} {sequence : Nat}
    {trace : List Event}
    (h : Runs (executeNode digest graph policy executionGraph nodeId state sequence) trace
      (.ok after)) :
    ∃ execution : Execution, execution.Valid digest graph policy ∧ execution.nodeId = nodeId ∧
      execution.input = state ∧ execution.sequence = sequence ∧
      after = execution.after digest policy ∧
      trace = execution.trace digest policy executionGraph := by
  obtain ⟨fn, hfn⟩ := exists_node_of_runs h
  obtain ⟨looked, ended, own, hlooked, hown, ⟨_, -, herror, -⟩ |
    ⟨output, replayed, versionId, rfl, hafter, rfl⟩⟩ := runs_executeNode hfn h
  · cases herror
  · cases hafter
    exact ⟨⟨nodeId, sequence, state, looked, own, output, replayed, versionId⟩,
      ⟨fn, hfn, hlooked, hown⟩, rfl, rfl, rfl, rfl, rfl⟩

/-- The version of a node execution is drawn. -/
theorem Execution.mem_trace_uuid4 {execution : Execution} :
    (⟨.uuid4, execution.versionId⟩ : Event) ∈ execution.trace digest policy executionGraph := by
  simp [Execution.trace]

/-- A round at a node with a fan-out visits the node if there is one and then fans out. -/
theorem runs_fanOutRound_ok {fanOut : ParallelFanOut} {cursor next : Cursor} {trace : List Event}
    (h : Runs (fanOutRound digest graph streamed policy executionGraph fanOut cursor) trace
      (.ok next)) :
    ∃ visited done own parallel, Runs (runParallelFanout digest graph streamed policy executionGraph
        fanOut visited) parallel (.ok done) ∧ next.state = done.state ∧
      (Runs (visitNode digest graph streamed policy executionGraph cursor) own (.ok visited) ∨
        visited = cursor ∧ own = []) ∧ trace = own ++ parallel := by
  by_cases hnode : (graph.nodes cursor.current).isSome = true
  · obtain ⟨visited, done, own, parallel, hown, hparallel, rfl, rfl⟩ := runs_fanOutRound hnode h
    exact ⟨visited, done, own, parallel, hparallel, rfl, Or.inl hown, rfl⟩
  · simp only [fanOutRound, hnode, Bool.false_eq_true, if_false, pure_bind] at h
    obtain ⟨done, parallel, _, hparallel, hlast, rfl⟩ := runs_bind_ok_iff.mp h
    obtain ⟨rfl, hnext⟩ := runs_pure_iff.mp hlast
    cases hnext
    exact ⟨cursor, done, [], parallel, hparallel, rfl, Or.inr ⟨rfl, rfl⟩, by simp⟩

/-- A node execution on a state with `Q` is accounted for. -/
theorem accounted_executeNode {nodeId : String} {state after : AgentState} (hstate : Q state)
    {sequence : Nat} {trace : List Event}
    (hrun : Runs (executeNode digest graph policy executionGraph nodeId state sequence) trace
      (.ok after)) : Accounted digest graph policy executionGraph Q trace := by
  obtain ⟨execution, hvalid, -, rfl, -, -, rfl⟩ := exists_execution_of_runs hrun
  exact ⟨[execution], ⟨by simpa using hvalid, [], rfl, by simp⟩, by simpa using hstate⟩

theorem accounted_visitNode {cursor visited : Cursor} (hcursor : Q cursor.state)
    {trace : List Event}
    (hrun : Runs (visitNode digest graph streamed policy executionGraph cursor) trace
      (.ok visited)) : Accounted digest graph policy executionGraph Q trace := by
  obtain ⟨own, after, hown, -, first, last, -, -, hfirst, hlast, rfl⟩ := runs_visitNode hrun
  exact (accounted_executeNode hcursor hown).between hfirst hlast

theorem accounted_runJoin {joinId : String} {merged joined : AgentState} (hmerged : Q merged)
    {sequence : Nat} {trace : List Event}
    (hrun : Runs (runJoin digest graph streamed policy executionGraph joinId merged sequence)
      trace (.ok joined)) : Accounted digest graph policy executionGraph Q trace := by
  by_cases hjoin : (graph.nodes joinId).isSome = true
  · obtain ⟨own, first, last, hown, -, -, hfirst, hlast, rfl⟩ := runs_runJoin hjoin hrun
    exact (accounted_executeNode hmerged hown).between hfirst hlast
  · rw [runJoin, if_neg hjoin] at hrun
    obtain ⟨rfl, -⟩ := runs_pure_iff.mp hrun
    exact accounted_of_visits rfl

namespace Anchored

variable (h : Anchored digest drawn Q)

include h

/-- A node execution commits, so it leaves a state with `Q`. -/
theorem executeNode_state {nodeId : String} {state after : AgentState} {sequence : Nat}
    {trace : List Event} (hdrawn : Draws drawn trace)
    (hrun : Runs (Graph.executeNode digest graph policy executionGraph nodeId state sequence) trace
      (.ok after)) : Q after := by
  obtain ⟨execution, -, -, -, -, rfl, rfl⟩ := exists_execution_of_runs hrun
  apply h.logged
  exact h.committed _ _ _ (hdrawn _ Execution.mem_trace_uuid4)

theorem visitNode_state {cursor visited : Cursor} {trace : List Event}
    (hdrawn : Draws drawn trace)
    (hrun : Runs (Graph.visitNode digest graph streamed policy executionGraph cursor) trace
      (.ok visited)) : Q visited.state := by
  obtain ⟨own, after, hown, rfl, first, last, -, -, -, -, rfl⟩ := runs_visitNode hrun
  apply h.executeNode_state (hdrawn.of_subset _) hown
  simp

theorem runJoin_state {joinId : String} {merged joined : AgentState} (hmerged : Q merged)
    {sequence : Nat} {trace : List Event} (hdrawn : Draws drawn trace)
    (hrun : Runs (Graph.runJoin digest graph streamed policy executionGraph joinId merged sequence)
      trace (.ok joined)) : Q joined := by
  by_cases hjoin : (graph.nodes joinId).isSome = true
  · obtain ⟨own, first, last, hown, -, -, -, -, rfl⟩ := runs_runJoin hjoin hrun
    apply h.executeNode_state (hdrawn.of_subset _) hown
    simp
  · rw [Graph.runJoin, if_neg hjoin] at hrun
    cases (runs_pure_iff.mp hrun).2
    exact hmerged

theorem runParallelFanout_state {fanOut : ParallelFanOut} {cursor done : Cursor}
    {trace : List Event} (hdrawn : Draws drawn trace)
    (hrun : Runs (Graph.runParallelFanout digest graph streamed policy executionGraph fanOut cursor)
      trace (.ok done)) : Q done.state := by
  obtain ⟨events, runs, -, -, merged, mergeTrace, versionId, joined, joinTrace, -, hjoin, rfl,
    first, own, second, last, -, -, hversion, -, rfl⟩ := runs_runParallelFanout hrun
  have hcommitted : drawn versionId := hdrawn versionId (by simp [hversion])
  have hjoinDrawn : Draws drawn joinTrace := hdrawn.of_subset fun event hmem => by simp [hmem]
  exact h.runJoin_state (h.committed _ _ _ hcommitted) hjoinDrawn hjoin

/-- A round commits, so it leaves a state with `Q`. -/
theorem round_state {cursor next : Cursor} {trace : List Event} (hdrawn : Draws drawn trace)
    (hrun : Runs (Graph.round digest graph streamed policy executionGraph cursor) trace
      (.ok next)) : Q next.state := by
  unfold Graph.round at hrun
  split at hrun
  next fanOut _ =>
    obtain ⟨visited, done, own, parallel, hparallel, hstate, -, rfl⟩ := runs_fanOutRound_ok hrun
    rw [hstate]
    exact h.runParallelFanout_state (hdrawn.of_subset (List.subset_append_right _ _)) hparallel
  next =>
    split at hrun
    next =>
      obtain ⟨own, visited, hown, rfl, last, -, -, rfl⟩ := runs_nodeRound hrun
      have hvisited := h.visitNode_state (hdrawn.of_subset (List.subset_append_left _ _)) hown
      exact hvisited
    next => simp at hrun

theorem runBranch {events : Ref} {state updated : AgentState} (hstate : Q state)
    {branchId : String} {sequence : Nat} {trace : List Event}
    (hrun : Runs (Graph.runBranch digest graph policy executionGraph events state branchId sequence)
      trace (.ok updated)) : Accounted digest graph policy executionGraph Q trace := by
  obtain ⟨ref, own, first, last, hown, -, -, hfirst, hlast, rfl⟩ := runs_runBranch hrun
  exact (accounted_executeNode (h.copied _ ref hstate) hown).between hfirst hlast

/-- The branches of a fan-out, each accounted for on its own. -/
theorem branches {events : Ref} {state : AgentState} (hstate : Q state) {sequence : Nat}
    (branches : List (String × Nat)) (runs : List BranchRun)
    (htasks : runs.map TaskRun.task = branches.map fun entry =>
      Graph.runBranch digest graph policy executionGraph events state entry.1 (sequence + entry.2))
    (hvalid : ∀ run ∈ runs, TaskRun.Valid Op.suspends run) :
    Accounted digest graph policy executionGraph Q (runs.flatMap TaskRun.trace) := by
  induction branches generalizing runs with
  | nil =>
      obtain rfl := List.map_eq_nil_iff.mp htasks
      exact accounted_of_visits rfl
  | cons branch rest ih =>
      cases runs with
      | nil => simp at htasks
      | cons run runs =>
          simp only [List.map_cons, List.cons.injEq] at htasks
          obtain ⟨htask, hrest⟩ := htasks
          have hrun := (hvalid run List.mem_cons_self).runs
          rw [htask] at hrun
          rw [List.flatMap_cons]
          apply (h.runBranch hstate hrun).append
          exact ih runs hrest fun own hmem => hvalid own (List.mem_cons_of_mem _ hmem)

theorem runParallelFanout {fanOut : ParallelFanOut} {cursor done : Cursor}
    (hcursor : Q cursor.state) {trace : List Event} (hdrawn : Draws drawn trace)
    (hrun : Runs (Graph.runParallelFanout digest graph streamed policy executionGraph fanOut cursor)
      trace (.ok done)) : Accounted digest graph policy executionGraph Q trace := by
  obtain ⟨events, runs, htasks, hvalid, merged, mergeTrace, versionId, joined, joinTrace, -,
    hjoin, -, first, own, second, last, -, ⟨hfirst, hsecond, hlast⟩, hversion, hperm, rfl⟩ :=
    runs_runParallelFanout hrun
  have hcommitted : drawn versionId := hdrawn versionId (by simp [hversion])
  apply (accounted_of_visits hfirst).append
  apply ((h.branches (h.logged _ _ _ _ hcursor) _ runs htasks hvalid).perm hperm.symm).append
  apply (accounted_of_visits hsecond).append
  exact (accounted_runJoin (h.committed _ _ _ hcommitted) hjoin).append (accounted_of_visits hlast)

/-- Every round is accounted for, and what it executes is executed on states with `Q`. -/
theorem round {cursor next : Cursor} (hcursor : Q cursor.state) {trace : List Event}
    (hdrawn : Draws drawn trace)
    (hrun : Runs (Graph.round digest graph streamed policy executionGraph cursor) trace
      (.ok next)) : Accounted digest graph policy executionGraph Q trace := by
  unfold Graph.round at hrun
  split at hrun
  next fanOut _ =>
    obtain ⟨visited, done, own, parallel, hparallel, -, hfirst, rfl⟩ := runs_fanOutRound_ok hrun
    have hlast := hdrawn.of_subset (List.subset_append_right own parallel)
    rcases hfirst with hown | ⟨rfl, rfl⟩
    · have hvisited := h.visitNode_state (hdrawn.of_subset (List.subset_append_left _ _)) hown
      exact (accounted_visitNode hcursor hown).append (h.runParallelFanout hvisited hlast hparallel)
    · exact h.runParallelFanout hcursor hlast hparallel
  next =>
    split at hrun
    next =>
      obtain ⟨own, visited, hown, -, last, -, hlast, rfl⟩ := runs_nodeRound hrun
      exact (accounted_visitNode hcursor hown).append (accounted_of_visits hlast)
    next => simp at hrun

end Anchored

end Accounted

/-- Rounds can be told as moves. -/
theorem exists_journey_of_rounds {start cursor : Cursor} {made : Nat} {trace : List Event}
    (h : Rounds digest graph streamed policy executionGraph start made trace cursor) :
    ∃ moves, moves.length = made ∧
      Journey digest graph streamed policy executionGraph start trace moves cursor := by
  induction h with
  | start => exact ⟨[], rfl, .start⟩
  | next _ current goesOn round ih =>
      obtain ⟨moves, hmade, hmoves⟩ := ih
      obtain ⟨executions, haccounts, -⟩ :=
        anchored_true.round trivial (fun _ _ => trivial) round
      exact ⟨_, by simp [hmade], hmoves.next current goesOn round haccounts⟩

/-- A run, whatever it ends with, told as the moves of the rounds it completes. -/
def Told (digest : Snapshot → String) (graph : Graph) (streamed : Bool) (policy : ExecutionPolicy)
    (state : AgentState) (trace : List Event) (moves : List Move)
    (result : Except RaisedError AgentState) : Prop :=
  ∃ ref opening own last reached ended, Opens graph policy state opening ref ∧
    Journey digest graph streamed policy ref (startCursor graph policy ref state) own moves
      reached ∧
    LoopEnds digest graph streamed policy ref graph.maxIterations moves.length reached last ended ∧
    result = ended.map Cursor.state ∧
    trace = seeded policy ++ (opening ++ (emitted streamed
      (.graphStart graph.graphId graph.entry policy.mode.text) ++ (own ++ (last ++
        ended.toOption.elim [] (closing graph streamed)))))

/-- Every run can be told. -/
theorem exists_told {state : AgentState} {trace : List Event}
    {result : Except RaisedError AgentState}
    (h : Runs (run digest graph streamed policy state) trace result) :
    ∃ moves, Told digest graph streamed policy state trace moves result := by
  obtain ⟨ref, opening, looped, ended, _, hopens, hloop, hresult, rfl, htrace⟩ :=
    runs_run_looped h
  obtain ⟨made, own, last, reached, -, -, hrounds, hends, rfl⟩ :=
    exists_rounds_of_runs_loop .start hloop
  obtain ⟨moves, rfl, hmoves⟩ := exists_journey_of_rounds hrounds
  rw [Nat.zero_add] at hends
  exact ⟨moves, ref, opening, own, last, reached, ended, hopens, hmoves, hends, hresult,
    by simpa using htrace⟩

/-- Told to its end, a run that returns is accounted for. -/
theorem Told.account {state final : AgentState} {trace : List Event} {moves : List Move}
    (h : Told digest graph streamed policy state trace moves (.ok final)) :
    Account digest graph streamed policy state trace moves final := by
  obtain ⟨ref, opening, own, last, reached, ended, hopens, hmoves, hends, hresult, htrace⟩ := h
  cases ended with
  | error error => cases hresult
  | ok ended =>
      exact ⟨ref, opening, own, last, reached, ended, hopens, hmoves, hends,
        Except.ok.inj hresult, htrace⟩

/-- Every run that returns has an account. -/
theorem exists_account {state final : AgentState} {trace : List Event}
    (h : Runs (run digest graph streamed policy state) trace (.ok final)) :
    ∃ moves, Account digest graph streamed policy state trace moves final := by
  obtain ⟨moves, htold⟩ := exists_told h
  exact ⟨moves, htold.account⟩

end Graph

end TripGraph
