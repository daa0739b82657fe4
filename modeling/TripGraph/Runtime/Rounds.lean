import TripGraph.Runtime.Visits

/-! # Runs round by round

A run of a graph is a sequence of rounds and one of five endings. What every round keeps
holds in every state a run reaches; what every node and every merge keeps holds of the
state a run returns.
-/

namespace TripGraph

open Interaction

namespace Graph

variable {digest : Snapshot → String} {graph : Graph} {streamed : Bool} {policy : ExecutionPolicy}
  {executionGraph : Ref}

/-! ## Reachable cursors -/

/-- From the first cursor so many rounds lead to the last one, with this trace. -/
inductive Rounds (digest : Snapshot → String) (graph : Graph) (streamed : Bool)
    (policy : ExecutionPolicy) (executionGraph : Ref) (start : Cursor) :
    Nat → List Event → Cursor → Prop
  | start : Rounds digest graph streamed policy executionGraph start 0 [] start
  | next {made : Nat} {trace own : List Event} {cursor after : Cursor}
      (before : Rounds digest graph streamed policy executionGraph start made trace cursor)
      (current : cursor.current ≠ endNode) (goesOn : graph.stops cursor.state = .ok false)
      (round : Runs (round digest graph streamed policy executionGraph cursor) own (.ok after)) :
      Rounds digest graph streamed policy executionGraph start (made + 1) (trace ++ own) after

/-- How the loop ends at a cursor after so many rounds of the budget. -/
inductive LoopEnds (digest : Snapshot → String) (graph : Graph) (streamed : Bool)
    (policy : ExecutionPolicy) (executionGraph : Ref) (budget made : Nat) (cursor : Cursor) :
    List Event → Except RaisedError Cursor → Prop
  | exhausted (spent : made = budget) :
      LoopEnds digest graph streamed policy executionGraph budget made cursor [] (.ok cursor)
  | atEnd (current : cursor.current = endNode) :
      LoopEnds digest graph streamed policy executionGraph budget made cursor [] (.ok cursor)
  | stopped (current : cursor.current ≠ endNode) (stops : graph.stops cursor.state = .ok true) :
      LoopEnds digest graph streamed policy executionGraph budget made cursor
        (emitted streamed (.earlyStop cursor.current (earlyStopState cursor)))
        (.ok { cursor with state := earlyStopState cursor })
  | checkRaised (error : RaisedError) (current : cursor.current ≠ endNode)
      (stops : graph.stops cursor.state = .error error) :
      LoopEnds digest graph streamed policy executionGraph budget made cursor [] (.error error)
  | roundRaised (error : RaisedError) (trace : List Event) (current : cursor.current ≠ endNode)
      (goesOn : graph.stops cursor.state = .ok false)
      (round : Runs (round digest graph streamed policy executionGraph cursor) trace
        (.error error)) :
      LoopEnds digest graph streamed policy executionGraph budget made cursor trace (.error error)

/-- The loop makes rounds until it ends. -/
theorem exists_rounds_of_runs_loop {start cursor : Cursor} {made budget : Nat}
    {before trace : List Event} {result : Except RaisedError Cursor}
    (hbefore : Rounds digest graph streamed policy executionGraph start made before cursor)
    (h : Runs (loop digest graph streamed policy executionGraph budget cursor) trace result) :
    ∃ total own last reached, made ≤ total ∧ total ≤ made + budget ∧
      Rounds digest graph streamed policy executionGraph start total (before ++ own) reached ∧
      LoopEnds digest graph streamed policy executionGraph (made + budget) total reached last
        result ∧ trace = own ++ last := by
  induction budget generalizing made before cursor trace with
  | zero =>
      obtain ⟨rfl, rfl⟩ := runs_pure_iff.mp h
      exact ⟨made, [], [], cursor, le_rfl, le_rfl, by rwa [List.append_nil], .exhausted rfl, rfl⟩
  | succ budget ih =>
      by_cases hcurrent : cursor.current = endNode
      · obtain ⟨rfl, rfl⟩ := runs_loop_end hcurrent h
        exact ⟨made, [], [], cursor, le_rfl, by omega, by rwa [List.append_nil],
          .atEnd hcurrent, rfl⟩
      rcases runs_loop_succ hcurrent h with ⟨error, hstops, rfl, rfl⟩ | ⟨hstops, rfl, rfl⟩ |
        ⟨hstops, hrounds⟩
      · exact ⟨made, [], [], cursor, le_rfl, by omega, by rwa [List.append_nil],
          .checkRaised error hcurrent hstops, rfl⟩
      · exact ⟨made, [], _, cursor, le_rfl, by omega, by rwa [List.append_nil],
          .stopped hcurrent hstops, rfl⟩
      rcases runs_bind_iff.mp hrounds with ⟨next, own, rest, hround, hrest, rfl⟩ |
        ⟨error, herror, rfl⟩
      · obtain ⟨total, more, last, reached, hmade, htotal, hreached, hends, rfl⟩ :=
          ih (hbefore.next hcurrent hstops hround) hrest
        refine ⟨total, own ++ more, last, reached, by omega, by omega, ?_, ?_, by simp⟩
        · rwa [← List.append_assoc]
        · rwa [Nat.add_right_comm] at hends
      · exact ⟨made, [], trace, cursor, le_rfl, by omega, by rwa [List.append_nil],
          .roundRaised error trace hcurrent hstops herror, rfl⟩

/-- A run makes rounds from its start until its loop ends. -/
theorem exists_rounds_of_runs {state : AgentState} {trace : List Event}
    {result : Except RaisedError AgentState}
    (h : Runs (run digest graph streamed policy state) trace result) :
    ∃ ref total first own last tail reached ended, total ≤ graph.maxIterations ∧
      Rounds digest graph streamed policy ref (startCursor graph policy ref state) total own
        reached ∧
      LoopEnds digest graph streamed policy ref graph.maxIterations total reached last ended ∧
      result = ended.map Cursor.state ∧ Bookkept first ∧ Bookkept tail ∧ visits first = [] ∧
      visits tail = [] ∧ trace = first ++ (own ++ (last ++ tail)) := by
  obtain ⟨ref, first, looped, ended, hloop, hfirst, hfirstMarks, hends⟩ := runs_run h
  obtain ⟨total, own, last, reached, -, htotal, hreached, hended, rfl⟩ :=
    exists_rounds_of_runs_loop .start hloop
  rw [Nat.zero_add] at htotal hended
  rw [List.nil_append] at hreached
  rcases hends with ⟨error, rfl, rfl, rfl⟩ | ⟨cursor, tail, rfl, rfl, htail, htailMarks, rfl⟩
  · exact ⟨ref, total, first, own, last, [], reached, _, htotal, hreached, hended, rfl, hfirst,
      bookkept_nil, hfirstMarks, rfl, by simp⟩
  · exact ⟨ref, total, first, own, last, tail, reached, _, htotal, hreached, hended, rfl, hfirst,
      htail, hfirstMarks, htailMarks, by simp⟩

/-! ## Runs that are told to stop -/

/-- From a state that is told to stop no round is made. -/
theorem rounds_of_stopped {start cursor : Cursor} {made : Nat} {trace : List Event}
    (hstop : start.state.shouldStop = true)
    (h : Rounds digest graph streamed policy executionGraph start made trace cursor) :
    made = 0 ∧ trace = [] ∧ cursor = start := by
  induction h with
  | start => exact ⟨rfl, rfl, rfl⟩
  | next _ _ goesOn _ ih =>
      obtain ⟨-, -, rfl⟩ := ih
      rw [stops, if_pos hstop] at goesOn
      cases goesOn

/-- A run on a state that is told to stop does nothing but keep its books; the state comes
back with its final result. -/
theorem run_of_stopped {state : AgentState} {trace : List Event}
    {result : Except RaisedError AgentState} (hstop : state.shouldStop = true)
    (h : Runs (run digest graph streamed policy state) trace result) :
    Bookkept trace ∧ visits trace = [] ∧ ∃ final, result = .ok final ∧
      final.finalResult = state.finalResult ∧ final.shouldStop = true := by
  obtain ⟨ref, total, first, own, last, tail, reached, ended, -, hrounds, hends, rfl, hfirst, htail,
    hfirstMarks, htailMarks, rfl⟩ := exists_rounds_of_runs h
  obtain ⟨rfl, rfl, rfl⟩ := rounds_of_stopped hstop hrounds
  have hstops : graph.stops (startCursor graph policy ref state).state = .ok true := if_pos hstop
  cases hends with
  | exhausted =>
      exact ⟨by simp [hfirst, htail], by simp [hfirstMarks, htailMarks], _, rfl, rfl, hstop⟩
  | atEnd => exact ⟨by simp [hfirst, htail], by simp [hfirstMarks, htailMarks], _, rfl, rfl, hstop⟩
  | stopped =>
      exact ⟨by simp [hfirst, htail], by simp [hfirstMarks, htailMarks], _, rfl, rfl, hstop⟩
  | checkRaised error _ hraised =>
      rw [hstops] at hraised
      cases hraised
  | roundRaised error _ _ hgoesOn =>
      rw [hstops] at hgoesOn
      cases hgoesOn

/-! ## Rounds at plain nodes -/

/-- Without a fan-out a round executes the current node and goes on along an edge. -/
theorem runs_round_plain {cursor next : Cursor} (hfanOut : graph.fanOutFor cursor.current = none)
    {trace : List Event}
    (h : Runs (round digest graph streamed policy executionGraph cursor) trace (.ok next)) :
    ∃ own first last, Runs (executeNode digest graph policy executionGraph cursor.current
        cursor.state cursor.sequence) own (.ok next.state) ∧
      next.current = graph.resolveNext cursor.current next.state ∧ Bookkept first ∧ Bookkept last ∧
      visits first = [] ∧ visits last = [] ∧ trace = first ++ (own ++ last) := by
  simp only [round, hfanOut] at h
  split at h
  next =>
    obtain ⟨visiting, visited, hvisit, rfl, tail, htail, htailMarks, rfl⟩ := runs_nodeRound h
    obtain ⟨own, after, hown, rfl, first, last, hfirst, hlast, hfirstMarks, hlastMarks, rfl⟩ :=
      runs_visitNode hvisit
    exact ⟨own, first, last ++ tail, hown, rfl, hfirst, by simp [hlast, htail], hfirstMarks,
      by simp [hlastMarks, htailMarks], by simp⟩
  next => simp at h

/-- Unless it replays, such a round runs the function of the current node. -/
theorem runs_round_live (hmode : policy.mode ≠ .replay) {cursor next : Cursor} {fn : NodeFn}
    (hfanOut : graph.fanOutFor cursor.current = none) (hfn : graph.nodes cursor.current = some fn)
    {trace : List Event}
    (h : Runs (round digest graph streamed policy executionGraph cursor) trace (.ok next)) :
    ∃ after record versionId own first last,
      Runs (fn (startNode digest cursor.current cursor.state)) own (.ok after) ∧
      next.state = finishNode record (after.commitVersion digest cursor.current versionId) ∧
      next.current = graph.resolveNext cursor.current next.state ∧
      Bookkept first ∧ Bookkept last ∧ trace = first ++ (own ++ last) := by
  obtain ⟨visiting, outer, tail, hvisit, hnext, houter, htail, -, -, rfl⟩ :=
    runs_round_plain hfanOut h
  obtain ⟨after, record, versionId, own, first, last, hown, hresult, hfirst, hlast, rfl⟩ :=
    runs_executeNode_ok hfn hmode hvisit
  exact ⟨after, record, versionId, own, outer ++ first, last ++ tail, hown, hresult, hnext,
    by simp [houter, hfirst], by simp [hlast, htail], by simp⟩

/-- Unless it replays, an executed node raises what its function raises. -/
theorem runs_executeNode_error {nodeId : String} {fn : NodeFn} (hfn : graph.nodes nodeId = some fn)
    (hmode : policy.mode ≠ .replay) {state : AgentState} {sequence : Nat} {trace : List Event}
    {error : RaisedError}
    (h : Runs (executeNode digest graph policy executionGraph nodeId state sequence) trace
      (.error error)) :
    ∃ own first, Runs (fn (startNode digest nodeId state)) own (.error error) ∧ Bookkept first ∧
      trace = first ++ own := by
  obtain ⟨record, ended, middle, hrecord, hmiddle, ⟨_, rfl, hresult, rfl⟩ |
    ⟨_, _, _, -, hresult, -⟩⟩ := runs_executeNode hfn h
  · cases hresult
    rw [hrecord hmode, runOrServe, servedSnapshot] at hmiddle
    rcases runs_bind_iff.mp hmiddle with ⟨after, own, rest, -, hrest, -⟩ | ⟨_, hown, hsame⟩
    · cases (runs_pure_iff.mp hrest).2
    · cases hsame
      exact ⟨middle, lookedUp policy nodeId record ++ [startEvent digest policy nodeId state], hown,
        by simp [bookkept_lookedUp, startEvent, Op.bookkeeping], by simp⟩
  · cases hresult

/-- A round at a plain node raises what the function of the node raises. -/
theorem runs_round_error (hmode : policy.mode ≠ .replay) {cursor : Cursor} {fn : NodeFn}
    (hfanOut : graph.fanOutFor cursor.current = none) (hfn : graph.nodes cursor.current = some fn)
    {trace : List Event} {error : RaisedError}
    (h : Runs (round digest graph streamed policy executionGraph cursor) trace (.error error)) :
    ∃ own first, Runs (fn (startNode digest cursor.current cursor.state)) own (.error error) ∧
      Bookkept first ∧ trace = first ++ own := by
  simp only [round, hfanOut, hfn, Option.isSome_some, if_true] at h
  rcases runs_bind_iff.mp h with ⟨visited, _, rest, -, hrest, -⟩ | ⟨_, hvisit, hsame⟩
  · -- after the node only the engine is asked, and it raises nothing
    obtain ⟨-, rest, rfl, hemit⟩ := runs_asking_iff.mp hrest
    obtain ⟨_, -, hpure⟩ := runs_emit_bind_iff.mp hemit
    cases (runs_pure_iff.mp hpure).2
  · cases hsame
    obtain ⟨rest, rfl, hexec⟩ := runs_emit_bind_iff.mp hvisit
    rcases runs_bind_iff.mp hexec with ⟨after, _, last, -, hlast, -⟩ | ⟨_, hexecuted, hsame⟩
    · obtain ⟨_, -, hpure⟩ := runs_emit_bind_iff.mp hlast
      cases (runs_pure_iff.mp hpure).2
    · cases hsame
      obtain ⟨own, first, hown, hfirst, rfl⟩ := runs_executeNode_error hfn hmode hexecuted
      exact ⟨own, _ ++ first, hown, bookkept_append.mpr ⟨bookkept_emitted _, hfirst⟩,
        (List.append_assoc _ _ _).symm⟩

/-! ## Runs that return -/

/-- No node and no check raises, nothing fans out, and every edge leads to a node or to the
end. -/
structure Total (graph : Graph) : Prop where
  sequential : graph.fanOuts = []
  check : ∀ state, ∃ stop, graph.termination state = .ok stop
  node : graph.EachNode fun _ fn => ∀ state, Program.Unfailing (S := runtimeSig) (fn state)
  next : ∀ source state, graph.resolveNext source state = endNode ∨
    (graph.nodes (graph.resolveNext source state)).isSome = true

theorem unfailing_emit (event : GraphEvent) : (emit streamed event).Unfailing := by
  cases streamed with
  | false => trivial
  | true => exact fun _ => trivial

theorem unfailing_deepCopy (state : AgentState) : (deepCopy state).Unfailing := by
  unfold deepCopy
  split
  · trivial
  · exact fun _ => trivial

namespace Total

variable (h : graph.Total)

include h

theorem fanOutFor (source : String) : graph.fanOutFor source = none := by
  rw [Graph.fanOutFor, h.sequential]
  rfl

theorem executeNode {nodeId : String} (hnode : (graph.nodes nodeId).isSome = true)
    (state : AgentState) (sequence : Nat) :
    (executeNode digest graph policy executionGraph nodeId state sequence).Unfailing := by
  obtain ⟨fn, hfn⟩ := Option.isSome_iff_exists.mp hnode
  have hserve : ∀ record inputHash started,
      Program.Unfailing (S := runtimeSig) (runOrServe fn record inputHash started) := by
    intro record inputHash started
    unfold runOrServe
    split
    · exact (unfailing_deepCopy started).bind fun _ => unfailing_asking fun _ => trivial
    · refine (h.node nodeId fn hfn started).bind fun after => ?_
      split
      · exact unfailing_asking fun _ => trivial
      · trivial
  have hrest : ∀ record : Option NodeExecutionRecord, Program.Unfailing (S := runtimeSig)
      (executeRecorded digest policy executionGraph nodeId fn state sequence record) := by
    intro record
    refine unfailing_asking fun _ => (hserve record _ _).bind fun executed => ?_
    exact Program.Unfailing.bind (fun _ => trivial) fun _ => unfailing_asking fun _ => trivial
  rw [executeNode_of_some hfn]
  split
  · exact unfailing_asking fun record => hrest record
  · exact hrest none

theorem nodeRound {cursor : Cursor} (hnode : (graph.nodes cursor.current).isSome = true) :
    (nodeRound digest graph streamed policy executionGraph cursor).Unfailing := by
  refine Program.Unfailing.bind ?_ fun visited => ?_
  · refine (unfailing_emit _).bind fun _ => (h.executeNode hnode _ _).bind fun after => ?_
    exact (unfailing_emit _).bind fun _ => trivial
  · exact unfailing_asking fun _ => (unfailing_emit _).bind fun _ => trivial

theorem loop (budget : Nat) {cursor : Cursor}
    (hcurrent : cursor.current = endNode ∨ (graph.nodes cursor.current).isSome = true) :
    (loop digest graph streamed policy executionGraph budget cursor).Unfailing := by
  induction budget generalizing cursor with
  | zero => trivial
  | succ budget ih =>
      unfold Graph.loop
      split
      · trivial
      next hnot =>
        have hround : Graph.round digest graph streamed policy executionGraph cursor =
            Graph.nodeRound digest graph streamed policy executionGraph cursor := by
          simp only [Graph.round, h.fanOutFor, hcurrent.resolve_left hnot, if_true]
        refine Program.Unfailing.bind ?_ fun stop => ?_
        · obtain ⟨stop, hcheck⟩ := h.check cursor.state
          unfold stops
          rw [hcheck]
          split <;> trivial
        · split
          · exact (unfailing_emit _).bind fun _ => trivial
          · rw [hround]
            apply (h.nodeRound (hcurrent.resolve_left hnot)).bind_of_runs
            intro trace next hrun
            rw [← hround] at hrun
            obtain ⟨_, _, _, -, hnext, -⟩ := runs_round_plain (h.fanOutFor _) hrun
            apply ih
            rw [hnext]
            exact h.next cursor.current next.state

/-- Such a graph returns from every state if it has its entry. -/
theorem run (hentry : (graph.nodes graph.entry).isSome = true) (state : AgentState) :
    (run digest graph streamed policy state).Unfailing := by
  have hrest : ∀ ref, Program.Unfailing (S := runtimeSig) (do
      emit streamed (.graphStart graph.graphId graph.entry policy.mode.text)
      let last ← Graph.loop digest graph streamed policy ref graph.maxIterations
        (startCursor graph policy ref state)
      emit streamed (.graphEnd graph.graphId last.iterations)
      emit streamed (.state last.state)
      pure last.state) := by
    intro ref
    refine (unfailing_emit _).bind fun _ => (h.loop _ (Or.inr hentry)).bind fun last => ?_
    exact (unfailing_emit _).bind fun _ => (unfailing_emit _).bind fun _ => trivial
  have hopened : Program.Unfailing (S := runtimeSig) (ensureExecutionGraph graph policy state) := by
    unfold ensureExecutionGraph
    split
    · trivial
    · exact fun _ => trivial
  unfold Graph.run
  split
  · exact unfailing_asking fun _ => hopened.bind hrest
  · exact hopened.bind hrest

end Total

/-! ## What nodes and merges keep -/

/-- As long as the replies are in `G`, nodes and merges ask operations in `P` and keep `Q`;
`P` admits what the engine asks and what it records on this graph object, and `Q` depends on
nothing that the engine writes but the execution graph of the state. -/
structure Assures (policy : ExecutionPolicy) (executionGraph : Ref)
    (G : (op : Op) → op.Reply → Prop) (P : Op → Prop) (Q : AgentState → Prop) (graph : Graph) :
    Prop where
  engine : ∀ op : Op, op.bookkeeping = true → op.visit = none → P op
  node : graph.EachNode fun nodeId fn =>
    (∀ snapshot inputHash hooked, P (.maybePause nodeId snapshot inputHash hooked)) ∧
    (∀ record, record.nodeId = nodeId → P (.addNodeRecord executionGraph record)) ∧
    ∀ state, Q state → Program.Ensures (S := runtimeSig) G P Q (fn state)
  merge : ∀ left right, Q left → Q right →
    Program.Ensures (S := runtimeSig) G P Q (mergePair graph.mergeStrategy left right)
  frame : ∀ (state : AgentState) graphTrace versionStore stateVersionId, Q state → Q { state with
    graphTrace := graphTrace
    versionStore := versionStore
    stateVersionId := stateVersionId }
  copied : ∀ (state : AgentState) ref copy, Q state → state.executionGraph = some ref →
    G (.copyGraph ref) copy → Q { state with executionGraph := some copy }
  served : policy.mode = .replay → ∀ (state copied : AgentState) snapshot, Q state → Q copied →
    Q (state.applySnapshot snapshot copied.executionGraph)

namespace Assures

variable {G : (op : Op) → op.Reply → Prop} {P : Op → Prop} {Q : AgentState → Prop}
  (h : Assures policy executionGraph G P Q graph)
include h

theorem logGraph {state : AgentState} (hstate : Q state) (nodeId event : String) (data : Args) :
    Q (state.logGraph nodeId event data) :=
  h.frame state _ state.versionStore state.stateVersionId hstate

theorem commitVersion {state : AgentState} (hstate : Q state) (nodeId versionId : String) :
    Q (state.commitVersion digest nodeId versionId) :=
  h.frame state state.graphTrace _ _ hstate

theorem ask_bind {α : Type} {R : α → Prop} {op : Op} (hop : op.bookkeeping = true)
    (hvisit : op.visit = none) {f : op.Reply → Runtime α}
    (hf : ∀ reply, G op reply → Program.Ensures (S := runtimeSig) G P R (f reply)) :
    Program.Ensures (S := runtimeSig) G P R (ask op >>= f) :=
  ensures_asking (h.engine op hop hvisit) hf

theorem emit (event : GraphEvent) :
    Program.Ensures (S := runtimeSig) G P (fun _ => True) (emit streamed event) := by
  cases streamed with
  | false => trivial
  | true => exact ⟨h.engine _ rfl rfl, fun _ _ => trivial⟩

theorem emitAll (events : List GraphEvent) :
    Program.Ensures (S := runtimeSig) G P (fun _ => True) (emitAll streamed events) := by
  induction events with
  | nil => trivial
  | cons event rest ih => exact (h.emit event).bind fun _ _ => ih

theorem recordEdges (edges : List GraphEdgeRecord) :
    Program.Ensures (S := runtimeSig) G P (fun _ => True) (recordEdges executionGraph edges) := by
  induction edges with
  | nil => trivial
  | cons edge rest ih => exact h.ask_bind rfl rfl fun _ _ => ih

theorem deepCopy {state : AgentState} (hstate : Q state) :
    Program.Ensures (S := runtimeSig) G P Q (deepCopy state) := by
  unfold Graph.deepCopy
  split
  · exact hstate
  next ref hgraph =>
    exact h.ask_bind rfl rfl fun copy hcopy => h.copied state ref copy hstate hgraph hcopy

theorem mergeStates {base : AgentState} (hbase : Q base) {branches : List AgentState}
    (hbranches : ∀ branch ∈ branches, Q branch) :
    Program.Ensures (S := runtimeSig) G P Q (mergeStates graph.mergeStrategy base branches) := by
  induction branches generalizing base with
  | nil => exact hbase
  | cons branch rest ih =>
      obtain ⟨hbranch, hrest⟩ := List.forall_mem_cons.mp hbranches
      exact (h.merge base branch hbase hbranch).bind fun merged hmerged => ih hmerged hrest

/-- A node that is run or served. -/
theorem runOrServe {nodeId : String} {fn : NodeFn} (hfn : graph.nodes nodeId = some fn)
    {record : Option NodeExecutionRecord} (hrecord : record.isSome → policy.mode = .replay)
    {inputHash : String} {state : AgentState} (hstate : Q state) :
    Program.Ensures (S := runtimeSig) G P (fun executed => Q executed.1)
      (runOrServe fn record inputHash state) := by
  unfold Graph.runOrServe
  split
  next snapshot hserved =>
    have hlooked : record.isSome := by
      cases record with
      | none => cases hserved
      | some own => rfl
    exact (h.deepCopy hstate).bind fun copied hcopied => h.ask_bind rfl rfl fun _ _ =>
      h.served (hrecord hlooked) state copied snapshot hstate hcopied
  next =>
    refine ((h.node nodeId fn hfn).2.2 state hstate).bind fun after hafter => ?_
    split
    · exact h.ask_bind rfl rfl fun _ _ => hafter
    · exact hafter

theorem executeNode (nodeId : String) {state : AgentState} (hstate : Q state) (sequence : Nat) :
    Program.Ensures (S := runtimeSig) G P Q
      (executeNode digest graph policy executionGraph nodeId state sequence) := by
  cases hfn : graph.nodes nodeId with
  | none =>
      rw [executeNode_of_none hfn]
      trivial
  | some fn =>
      obtain ⟨henters, hleaves, -⟩ := h.node nodeId fn hfn
      have hrest : ∀ record : Option NodeExecutionRecord,
          (record.isSome → policy.mode = .replay) → Program.Ensures (S := runtimeSig) G P Q
            (executeRecorded digest policy executionGraph nodeId fn state sequence record) := by
        intro record hrecord
        refine ensures_asking (henters _ _ _) fun _ _ => ?_
        refine (h.runOrServe hfn hrecord (h.logGraph hstate _ _ _)).bind
          fun executed hexecuted => ?_
        refine Program.Ensures.bind (Q := Q) ?_ fun committed hcommitted => ?_
        · exact h.ask_bind rfl rfl fun versionId _ => h.commitVersion hexecuted nodeId versionId
        · exact ensures_asking (hleaves _ rfl) fun _ _ => h.logGraph hcommitted _ _ _
      rw [executeNode_of_some hfn]
      split
      next hmode => exact h.ask_bind rfl rfl fun record _ => hrest record fun _ => hmode
      next => exact hrest none Bool.noConfusion

theorem runBranch {events : Ref} {state : AgentState} (hstate : Q state) (branchId : String)
    (sequence : Nat) : Program.Ensures (S := runtimeSig) G P Q
      (runBranch digest graph policy executionGraph events state branchId sequence) := by
  refine (h.deepCopy hstate).bind fun branchState hbranch => ?_
  refine h.ask_bind rfl rfl fun _ _ => ?_
  refine (h.executeNode branchId hbranch sequence).bind fun updated hupdated => ?_
  exact h.ask_bind rfl rfl fun _ _ => hupdated

theorem runJoin (joinId : String) {merged : AgentState} (hmerged : Q merged) (sequence : Nat) :
    Program.Ensures (S := runtimeSig) G P Q
      (runJoin digest graph streamed policy executionGraph joinId merged sequence) := by
  unfold Graph.runJoin
  split
  · refine (h.emit _).bind fun _ _ => (h.executeNode joinId hmerged sequence).bind
      fun joined hjoined => ?_
    exact (h.emit _).bind fun _ _ => hjoined
  · exact hmerged

theorem runParallelFanout (fanOut : ParallelFanOut) {cursor : Cursor} (hcursor : Q cursor.state) :
    Program.Ensures (S := runtimeSig) G P (fun done => Q done.state)
      (runParallelFanout digest graph streamed policy executionGraph fanOut cursor) := by
  have hstate : Q (fanOutState fanOut cursor.state) := h.logGraph hcursor _ _ _
  refine (h.emit _).bind fun _ _ => h.ask_bind rfl rfl fun events _ => ?_
  refine (h.recordEdges _).bind fun _ _ => h.ask_bind rfl rfl fun order _ => ?_
  have hbranches : ∀ task ∈ branchTasks digest graph policy executionGraph events fanOut
      (fanOutState fanOut cursor.state) cursor.sequence,
      Program.Ensures (S := runtimeSig) G P Q task := by
    intro task htask
    obtain ⟨entry, -, rfl⟩ := List.mem_map.mp htask
    exact h.runBranch hstate entry.1 _
  refine (Program.ensures_gather hbranches).bind fun branches hall => ?_
  refine (h.recordEdges _).bind fun _ _ => h.ask_bind rfl rfl fun branchEvents _ => ?_
  refine (h.emitAll _).bind fun _ _ => (h.mergeStates hstate hall).bind fun merged hmerged => ?_
  refine Program.Ensures.bind (Q := Q) ?_ fun committed hcommitted => ?_
  · exact h.ask_bind rfl rfl fun versionId _ => h.commitVersion hmerged _ versionId
  refine (h.runJoin _ hcommitted _).bind fun joined hjoined => ?_
  exact (h.emit _).bind fun _ _ => hjoined

theorem visitNode {cursor : Cursor} (hcursor : Q cursor.state) :
    Program.Ensures (S := runtimeSig) G P (fun visited => Q visited.state)
      (visitNode digest graph streamed policy executionGraph cursor) :=
  (h.emit _).bind fun _ _ => (h.executeNode _ hcursor _).bind fun _ hafter =>
    (h.emit _).bind fun _ _ => hafter

/-- A round keeps the property. -/
theorem round {cursor : Cursor} (hcursor : Q cursor.state) :
    Program.Ensures (S := runtimeSig) G P (fun next => Q next.state)
      (round digest graph streamed policy executionGraph cursor) := by
  unfold Graph.round
  split
  next fanOut _ =>
    have hrest : ∀ visited : Cursor, Q visited.state →
        Program.Ensures (S := runtimeSig) G P (fun next => Q next.state) (do
          let done ← Graph.runParallelFanout digest graph streamed policy executionGraph fanOut
            visited
          pure { done with
            current := graph.afterFanOut fanOut done.state
            iterations := done.iterations + 1 }) := fun visited hvisited =>
      (h.runParallelFanout fanOut hvisited).bind fun _ hdone => hdone
    unfold fanOutRound
    dsimp only
    split
    · exact (h.visitNode hcursor).bind hrest
    · exact hrest cursor hcursor
  · split
    · refine (h.visitNode hcursor).bind fun visited hvisited => h.ask_bind rfl rfl fun _ _ => ?_
      exact (h.emit _).bind fun _ _ => hvisited
    · trivial

theorem loop (budget : Nat) {cursor : Cursor} (hcursor : Q cursor.state) :
    Program.Ensures (S := runtimeSig) G P (fun last => Q last.state)
      (loop digest graph streamed policy executionGraph budget cursor) := by
  induction budget generalizing cursor with
  | zero => exact hcursor
  | succ budget ih =>
      rw [Graph.loop]
      split
      · exact hcursor
      refine Program.Ensures.bind (Q := fun _ => True) (by simp) fun stop _ => ?_
      split
      · exact (h.emit _).bind fun _ _ => h.logGraph hcursor _ _ _
      · exact (h.round hcursor).bind fun next hnext => ih hnext

end Assures

/-- A run asks operations in `P` and returns a state with `Q`, whatever graph object it is given. -/
theorem ensures_run {G : (op : Op) → op.Reply → Prop} {P : Op → Prop} {Q : AgentState → Prop}
    (h : ∀ executionGraph, Assures policy executionGraph G P Q graph) {state : AgentState}
    (hstate : ∀ executionGraph, Q (startCursor graph policy executionGraph state).state) :
    Program.Ensures (S := runtimeSig) G P Q (run digest graph streamed policy state) := by
  have hloop : ∀ ref, Program.Ensures (S := runtimeSig) G P Q (do
      emit streamed (.graphStart graph.graphId graph.entry policy.mode.text)
      let last ← loop digest graph streamed policy ref graph.maxIterations
        (startCursor graph policy ref state)
      emit streamed (.graphEnd graph.graphId last.iterations)
      emit streamed (.state last.state)
      pure last.state) := by
    intro ref
    refine ((h ref).emit _).bind fun _ _ => ((h ref).loop _ (hstate ref)).bind fun last hlast => ?_
    exact ((h ref).emit _).bind fun _ _ => ((h ref).emit _).bind fun _ _ => hlast
  have hengine := (h 0).engine
  have hcreated : Program.Ensures (S := runtimeSig) G P Q (do
      let ref ← ensureExecutionGraph graph policy state
      emit streamed (.graphStart graph.graphId graph.entry policy.mode.text)
      let last ← loop digest graph streamed policy ref graph.maxIterations
        (startCursor graph policy ref state)
      emit streamed (.graphEnd graph.graphId last.iterations)
      emit streamed (.state last.state)
      pure last.state) := by
    refine Program.Ensures.bind (Q := fun _ => True) ?_ fun ref _ => hloop ref
    unfold ensureExecutionGraph
    split
    · trivial
    · exact ⟨hengine _ rfl rfl, fun _ _ => trivial⟩
  unfold Graph.run
  split
  · exact ensures_asking (hengine _ rfl rfl) fun _ _ => hcreated
  · exact hcreated

/-- Nodes and merges ask operations in `P` and keep `Q`; `P` admits what the engine asks
and `Q` does not depend on what the engine writes. -/
structure Keeps (policy : ExecutionPolicy) (P : Op → Prop) (Q : AgentState → Prop)
    (graph : Graph) : Prop where
  engine : ∀ op : Op, op.bookkeeping = true → op.visit = none → P op
  node : graph.EachNode fun nodeId fn =>
    (∀ op : Op, ∀ visit, op.visit = some visit → visit.nodeId = nodeId → P op) ∧
    ∀ state, Q state → Program.Respects (S := runtimeSig) P Q (fn state)
  merge : ∀ left right, Q left → Q right →
    Program.Respects (S := runtimeSig) P Q (mergePair graph.mergeStrategy left right)
  frame :
    ∀ (state : AgentState) graphTrace versionStore stateVersionId executionGraph executionSeed,
    Q state → Q { state with
      graphTrace := graphTrace
      versionStore := versionStore
      stateVersionId := stateVersionId
      executionGraph := executionGraph
      executionSeed := executionSeed }
  served : policy.mode = .replay → ∀ (state : AgentState) snapshot copy,
    Q (state.applySnapshot snapshot copy)

namespace Keeps

variable {P : Op → Prop} {Q : AgentState → Prop}

/-- Here nothing is promised about the replies. -/
theorem assures (h : Keeps policy P Q graph) (executionGraph : Ref) :
    Assures policy executionGraph (fun _ _ => True) P Q graph where
  engine := h.engine
  node nodeId fn hfn := by
    obtain ⟨hmarks, hkeeps⟩ := h.node nodeId fn hfn
    refine ⟨fun _ _ _ => hmarks _ _ rfl rfl, fun record hrecord => hmarks _ _ rfl hrecord, ?_⟩
    exact fun state hstate => (hkeeps state hstate).ensures
  merge left right hleft hright := (h.merge left right hleft hright).ensures
  frame state graphTrace versionStore stateVersionId hstate :=
    h.frame state graphTrace versionStore stateVersionId state.executionGraph state.executionSeed
      hstate
  copied state _ copy hstate _ _ := h.frame state state.graphTrace state.versionStore
    state.stateVersionId (some copy) state.executionSeed hstate
  served hmode state copied snapshot _ _ := h.served hmode state snapshot copied.executionGraph

/-- A run asks operations in `P` and returns a state with `Q`. -/
theorem run (h : Keeps policy P Q graph) {state : AgentState} (hstate : Q state) :
    Program.Respects (S := runtimeSig) P Q (run digest graph streamed policy state) := by
  refine Program.respects_iff_ensures.mpr (ensures_run h.assures fun ref => ?_)
  exact h.frame state state.graphTrace state.versionStore state.stateVersionId (some ref)
    policy.seed hstate

end Keeps

end Graph

end TripGraph
