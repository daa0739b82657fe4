import TripGraph.Foundation.Positions
import TripGraph.Runtime.Journey
import TripGraph.Runtime.Merging
import TripGraph.Runtime.Subgraph

/-! # Positions in the graph trace

An entry that is logged carries its position. The positions survive as long as a trace is
only logged on: a nested trace starts from zero again, and branches log from the same
position on.
-/

namespace TripGraph

open Interaction

/-- `graph_trace[i].step_index` is `i`. -/
abbrev Numbered (entries : List GraphTraceEntry) : Prop :=
  Positioned GraphTraceEntry.stepIndex entries

namespace AgentState

theorem numbered_logGraph {state : AgentState} (h : Numbered state.graphTrace)
    (nodeId event : String) (data : Args) :
    Numbered (state.logGraph nodeId event data).graphTrace := positioned_concat h rfl

/-- Log these entries, one after the other. -/
def logAll (state : AgentState) (calls : List (String × String × Args)) : AgentState :=
  calls.foldl (fun acc call => acc.logGraph call.1 call.2.1 call.2.2) state

end AgentState

/-- From a numbered trace comes a numbered one, which continues it if nothing is replayed. -/
def Advances (live : Prop) (state next : AgentState) : Prop :=
  Numbered state.graphTrace →
    Numbered next.graphTrace ∧ (live → state.graphTrace <+: next.graphTrace)

namespace Advances

variable {live : Prop} {first second third : AgentState}

theorem of_eq (h : second.graphTrace = first.graphTrace) : Advances live first second :=
  fun hfirst => h.symm ▸ ⟨hfirst, fun _ => List.prefix_rfl⟩

theorem trans (h : Advances live first second) (h' : Advances live second third) :
    Advances live first third := by
  intro hfirst
  obtain ⟨hsecond, hbegins⟩ := h hfirst
  obtain ⟨hthird, hcontinues⟩ := h' hsecond
  exact ⟨hthird, fun hlive => (hbegins hlive).trans (hcontinues hlive)⟩

theorem mono {live' : Prop} (h : Advances live first second) (hlive : live' → live) :
    Advances live' first second :=
  fun hfirst => ⟨(h hfirst).1, fun hown => (h hfirst).2 (hlive hown)⟩

theorem logGraph (state : AgentState) (nodeId event : String) (data : Args) :
    Advances live state (state.logGraph nodeId event data) := fun h =>
  ⟨AgentState.numbered_logGraph h nodeId event data, fun _ => List.prefix_append _ _⟩

theorem logAll (state : AgentState) (calls : List (String × String × Args)) :
    Advances live state (state.logAll calls) := by
  induction calls generalizing state with
  | nil => exact of_eq rfl
  | cons call rest ih => exact (logGraph state _ _ _).trans (ih _)

end Advances

namespace Graph

variable {digest : Snapshot → String} {graph : Graph} {streamed : Bool} {policy : ExecutionPolicy}
  {executionGraph : Ref}

/-! ## Nodes -/

/-- A node whose runs continue the trace. -/
def NodeAdvances (fn : NodeFn) : Prop :=
  ∀ {state : AgentState} {trace : List Event} {next : AgentState},
    Runs (fn state) trace (.ok next) → Advances True state next

/-- The output a replay may be served by this exchange holds a numbered trace. -/
def ServesNumbered (event : Event) : Prop :=
  match event with
  | ⟨.peekReplayRecord _, some record⟩ =>
      ∀ snapshot, record.outputStateSnapshot = some snapshot → Numbered snapshot.graphTrace
  | _ => True

/-- A replay is only served outputs with numbered traces. -/
def ReplaysNumbered (policy : ExecutionPolicy) (trace : List Event) : Prop :=
  policy.mode = .replay → ∀ event ∈ trace, ServesNumbered event

theorem ReplaysNumbered.of_subset {trace own : List Event} (h : ReplaysNumbered policy trace)
    (hsub : own ⊆ trace) : ReplaysNumbered policy own :=
  fun hmode event hmem => h hmode event (hsub hmem)

theorem advances_executeNode {nodeId : String}
    (hnode : ∀ fn, graph.nodes nodeId = some fn → NodeAdvances fn) {state after : AgentState}
    {sequence : Nat} {trace : List Event} (hserved : ReplaysNumbered policy trace)
    (hrun : Runs (executeNode digest graph policy executionGraph nodeId state sequence) trace
      (.ok after)) : Advances (policy.mode ≠ .replay) state after := by
  obtain ⟨execution, ⟨fn, hfn, hlooked, hown⟩, rfl, rfl, rfl, rfl, rfl⟩ :=
    exists_execution_of_runs hrun
  have hstart : Advances (policy.mode ≠ .replay) execution.input
      (startNode digest execution.nodeId execution.input) := .logGraph _ _ _ _
  have hfinish : Advances (policy.mode ≠ .replay) execution.output
      (execution.after digest policy) := Advances.logGraph _ _ _ _
  refine (hstart.trans ?_).trans hfinish
  unfold runOrServe at hown
  split at hown
  next snapshot hsnapshot =>
    -- the recorded output replaces the trace
    obtain ⟨copied, _, rest, -, hrest, -⟩ := runs_bind_ok_iff.mp hown
    obtain ⟨_, _, -, hpure⟩ := runs_asking_iff.mp hrest
    have houtput := Except.ok.inj (runs_pure_iff.mp hpure).2
    have htrace : execution.output.graphTrace = snapshot.graphTrace := by
      rw [(Prod.mk.inj houtput).1]
      rfl
    have hmode : policy.mode = .replay := by
      by_contra hmode
      rw [hlooked hmode] at hsnapshot
      cases hsnapshot
    cases hrecord : execution.looked with
    | none =>
        rw [hrecord] at hsnapshot
        cases hsnapshot
    | some record =>
        have hevent : ServesNumbered ⟨.peekReplayRecord execution.nodeId, some record⟩ := by
          apply hserved hmode
          simp [Execution.trace, lookedUp, hmode, hrecord]
        have hheld : record.outputStateSnapshot = some snapshot := by
          rw [hrecord] at hsnapshot
          simp only [servedSnapshot] at hsnapshot
          split at hsnapshot
          · exact hsnapshot
          · cases hsnapshot
        exact fun _ => ⟨htrace ▸ hevent snapshot hheld, fun hlive => absurd hmode hlive⟩
  next =>
    -- the node has run, matched by a record or not
    obtain ⟨ended, own, rest, hended, hrest, -⟩ := runs_bind_ok_iff.mp hown
    have heq : execution.output = ended := by
      split at hrest
      · obtain ⟨_, _, -, hpure⟩ := runs_asking_iff.mp hrest
        exact (Prod.mk.inj (Except.ok.inj (runs_pure_iff.mp hpure).2)).1
      · exact (Prod.mk.inj (Except.ok.inj (runs_pure_iff.mp hrest).2)).1
    rw [heq]
    exact (hnode fn hfn hended).mono fun _ => trivial

theorem advances_visitNode {cursor visited : Cursor}
    (hnode : ∀ fn, graph.nodes cursor.current = some fn → NodeAdvances fn) {trace : List Event}
    (hserved : ReplaysNumbered policy trace)
    (hrun : Runs (visitNode digest graph streamed policy executionGraph cursor) trace
      (.ok visited)) : Advances (policy.mode ≠ .replay) cursor.state visited.state := by
  obtain ⟨own, after, hown, rfl, first, last, -, -, -, -, rfl⟩ := runs_visitNode hrun
  exact advances_executeNode hnode (hserved.of_subset fun event hmem => by simp [hmem]) hown

theorem advances_runJoin {joinId : String}
    (hnode : ∀ fn, graph.nodes joinId = some fn → NodeAdvances fn) {merged joined : AgentState}
    {sequence : Nat} {trace : List Event} (hserved : ReplaysNumbered policy trace)
    (hrun : Runs (runJoin digest graph streamed policy executionGraph joinId merged sequence) trace
      (.ok joined)) : Advances (policy.mode ≠ .replay) merged joined := by
  by_cases hjoin : (graph.nodes joinId).isSome = true
  · obtain ⟨own, first, last, hown, -, -, -, -, rfl⟩ := runs_runJoin hjoin hrun
    exact advances_executeNode hnode (hserved.of_subset fun event hmem => by simp [hmem]) hown
  · rw [runJoin, if_neg hjoin] at hrun
    cases (runs_pure_iff.mp hrun).2
    exact .of_eq rfl

/-! ## Fan-ins -/

/-- A fan-in that does not concatenate traces: the last branch replaces the others, or there
is at most one, and it has been run. -/
def MergesOne (graph : Graph) (policy : ExecutionPolicy) (fanOut : ParallelFanOut) : Prop :=
  graph.mergeStrategy = .lastWins ∨ fanOut.branches.length ≤ 1 ∧ policy.mode ≠ .replay

theorem graphTrace_mergePair {strategy : MergeStrategy} (hstrategy : strategy ≠ .lastWins)
    {left right merged : AgentState} {trace : List Event}
    (hrun : Runs (mergePair strategy left right) trace (.ok merged)) :
    merged.graphTrace = dedupeList (left.graphTrace ++ right.graphTrace) :=
  ((deepMerged_mergePair hstrategy left right).returns_of_runs hrun).graphTrace

/-- With last-wins the last branch is the result. -/
theorem mergeStates_lastWins {base merged : AgentState} {branches : List AgentState}
    {trace : List Event} (hrun : Runs (mergeStates .lastWins base branches) trace (.ok merged)) :
    merged = branches.getLastD base := by
  induction branches generalizing base with
  | nil => exact Except.ok.inj (runs_pure_iff.mp hrun).2
  | cons branch rest ih =>
      rw [mergeStates, mergePair, pure_bind] at hrun
      rw [ih hrun, List.getLastD_cons]

theorem advances_mergeStates {live : Prop} {base merged : AgentState} {branches : List AgentState}
    {trace : List Event} (hbranches : ∀ branch ∈ branches, Advances live base branch)
    (hone : graph.mergeStrategy = .lastWins ∨ branches.length ≤ 1 ∧ live)
    (hrun : Runs (mergeStates graph.mergeStrategy base branches) trace (.ok merged)) :
    Advances live base merged := by
  by_cases hstrategy : graph.mergeStrategy = .lastWins
  · rw [hstrategy] at hrun
    rw [mergeStates_lastWins hrun]
    cases hlast : branches.getLast? with
    | none =>
        rw [List.getLast?_eq_none_iff.mp hlast]
        exact .of_eq rfl
    | some branch =>
        rw [List.getLastD_eq_getLast?, hlast]
        exact hbranches branch (List.mem_of_getLast? hlast)
  · obtain ⟨hlength, hlive⟩ := hone.resolve_left hstrategy
    cases branches with
    | nil =>
        cases (runs_pure_iff.mp hrun).2
        exact .of_eq rfl
    | cons branch rest =>
        have hrest : rest = [] := List.length_eq_zero_iff.mp (by simpa using hlength)
        rw [hrest, mergeStates] at hrun
        obtain ⟨own, first, last, hown, hlast, -⟩ := runs_bind_ok_iff.mp hrun
        rw [mergeStates] at hlast
        have hmerged : merged = own := Except.ok.inj (runs_pure_iff.mp hlast).2
        intro hbase
        obtain ⟨hbranch, hbegins⟩ := hbranches branch List.mem_cons_self hbase
        have htrace : merged.graphTrace = branch.graphTrace := by
          rw [hmerged, graphTrace_mergePair hstrategy hown]
          exact eraseDups_append_of_begins (hbegins hlive) hbranch
        rw [htrace]
        exact ⟨hbranch, hbegins⟩

theorem advances_runParallelFanout {fanOut : ParallelFanOut} {cursor done : Cursor}
    (hnodes : ∀ nodeId ∈ fanOut.joinNode :: fanOut.branches, ∀ fn, graph.nodes nodeId = some fn →
      NodeAdvances fn) (hone : MergesOne graph policy fanOut) {trace : List Event}
    (hserved : ReplaysNumbered policy trace)
    (hrun : Runs (runParallelFanout digest graph streamed policy executionGraph fanOut cursor)
      trace (.ok done)) : Advances (policy.mode ≠ .replay) cursor.state done.state := by
  obtain ⟨events, runs, htasks, hvalid, merged, mergeTrace, versionId, joined, joinTrace, hmerge,
    hjoin, rfl, first, own, second, last, -, -, -, hperm, rfl⟩ := runs_runParallelFanout hrun
  have hstart : Advances (policy.mode ≠ .replay) cursor.state (fanOutState fanOut cursor.state) :=
    .logGraph _ _ _ _
  have hbranches : ∀ branch ∈ runs.map TaskRun.value,
      Advances (policy.mode ≠ .replay) (fanOutState fanOut cursor.state) branch := by
    intro branch hbranch
    obtain ⟨run, hmem, rfl⟩ := List.mem_map.mp hbranch
    have htask : run.task ∈ branchTasks digest graph policy executionGraph events fanOut
        (fanOutState fanOut cursor.state) cursor.sequence := htasks ▸ List.mem_map_of_mem hmem
    obtain ⟨entry, hentry, heq⟩ := List.mem_map.mp htask
    have hbranchRun := (hvalid run hmem).runs
    rw [← heq] at hbranchRun
    obtain ⟨ref, inner, before, after, hinner, -, -, -, -, htrace⟩ := runs_runBranch hbranchRun
    have hcopy : Advances (policy.mode ≠ .replay) (fanOutState fanOut cursor.state)
        { fanOutState fanOut cursor.state with executionGraph := ref } := .of_eq rfl
    have hmember : entry.1 ∈ fanOut.joinNode :: fanOut.branches :=
      List.mem_cons_of_mem _ (List.fst_mem_of_mem_zipIdx hentry)
    refine hcopy.trans (advances_executeNode (hnodes entry.1 hmember) (hserved.of_subset ?_) hinner)
    intro event hevent
    have hown : event ∈ runs.flatMap TaskRun.trace :=
      List.mem_flatMap.mpr ⟨run, hmem, by rw [htrace]; simp [hevent]⟩
    simp [hperm.mem_iff.mp hown]
  have hwidth : (runs.map TaskRun.value).length = fanOut.branches.length := by
    have hlength := congrArg List.length htasks
    simpa [branchTasks] using hlength
  have hmerged : Advances (policy.mode ≠ .replay) (fanOutState fanOut cursor.state) merged :=
    advances_mergeStates hbranches (by rwa [hwidth]) hmerge
  have hcommitted : Advances (policy.mode ≠ .replay) merged
      (merged.commitVersion digest s!"{fanOut.joinNode}:merge" versionId) := .of_eq rfl
  have hjoined := advances_runJoin (hnodes fanOut.joinNode List.mem_cons_self)
    (hserved.of_subset fun event hmem => by simp [hmem]) hjoin
  exact hstart.trans (hmerged.trans (hcommitted.trans hjoined))

/-! ## Rounds -/

/-- What a round at this node executes, `P` holds of; and its fan-in does not concatenate
traces. -/
structure StepsWith (P : NodeFn → Prop) (graph : Graph) (policy : ExecutionPolicy)
    (nodeId : String) : Prop where
  node : ∀ fn, graph.nodes nodeId = some fn → P fn
  branches : ∀ fanOut, graph.fanOutFor nodeId = some fanOut →
    ∀ own ∈ fanOut.joinNode :: fanOut.branches, ∀ fn, graph.nodes own = some fn → P fn
  merges : ∀ fanOut, graph.fanOutFor nodeId = some fanOut → MergesOne graph policy fanOut

theorem advances_round {cursor next : Cursor}
    (hsteps : StepsWith (fun fn => NodeAdvances fn) graph policy cursor.current)
    {trace : List Event} (hserved : ReplaysNumbered policy trace)
    (hrun : Runs (round digest graph streamed policy executionGraph cursor) trace (.ok next)) :
    Advances (policy.mode ≠ .replay) cursor.state next.state := by
  unfold Graph.round at hrun
  split at hrun
  next fanOut hfanOut =>
    obtain ⟨visited, done, own, parallel, hparallel, hstate, hfirst, rfl⟩ :=
      runs_fanOutRound_ok hrun
    have hdone := advances_runParallelFanout (hsteps.branches fanOut hfanOut)
      (hsteps.merges fanOut hfanOut) (hserved.of_subset (List.subset_append_right _ _)) hparallel
    rw [hstate]
    rcases hfirst with hvisit | ⟨rfl, -⟩
    · have hvisited := advances_visitNode hsteps.node
        (hserved.of_subset (List.subset_append_left _ _)) hvisit
      exact hvisited.trans hdone
    · exact hdone
  next =>
    split at hrun
    next =>
      obtain ⟨own, visited, hvisit, rfl, last, -, -, rfl⟩ := runs_nodeRound hrun
      have hvisited := advances_visitNode hsteps.node
        (hserved.of_subset (List.subset_append_left _ _)) hvisit
      exact hvisited
    next => simp at hrun

/-- Rounds that all meet the condition. -/
theorem advances_rounds {start cursor : Cursor} {made : Nat} {trace : List Event}
    (hrounds : Rounds digest graph streamed policy executionGraph start made trace cursor)
    (hsteps : ∀ earlier before own, earlier < made → before <+: trace →
      Rounds digest graph streamed policy executionGraph start earlier before own →
      StepsWith (fun fn => NodeAdvances fn) graph policy own.current)
    (hserved : ReplaysNumbered policy trace) :
    Advances (policy.mode ≠ .replay) start.state cursor.state := by
  induction hrounds with
  | start => exact .of_eq rfl
  | @next made trace own cursor after before current goesOn round ih =>
      have hbefore := ih (fun earlier first reached hlt hbegins => hsteps earlier first reached
        (by omega) (hbegins.trans (List.prefix_append _ _)))
        (hserved.of_subset (List.subset_append_left _ _))
      have hstep := hsteps made trace cursor (by omega) (List.prefix_append _ _) before
      exact hbefore.trans
        (advances_round hstep (hserved.of_subset (List.subset_append_right _ _)) round)

/-- The last thing a loop does to the trace is to log an early stop. -/
theorem advances_loopEnds {budget made : Nat} {cursor ended : Cursor} {trace : List Event}
    (h : LoopEnds digest graph streamed policy executionGraph budget made cursor trace
      (.ok ended)) :
    Advances (policy.mode ≠ .replay) cursor.state ended.state := by
  cases h with
  | exhausted => exact .of_eq rfl
  | atEnd => exact .of_eq rfl
  | stopped => exact .logGraph _ _ _ _

/-! ## Nodes that keep the positions -/

/-- The child goes on with the trace of its parent, and hands it back. -/
structure Shares (mapper : StateMapper) : Prop where
  toChild : ∀ parent, (mapper.parentToChild parent).graphTrace = parent.graphTrace
  toParent : ∀ parent child, (mapper.childToParent parent child).graphTrace = child.graphTrace

/-- The child starts with an empty trace, which is appended to that of its parent. -/
structure Splices (mapper : StateMapper) : Prop where
  toChild : ∀ parent, (mapper.parentToChild parent).graphTrace = []
  toParent : ∀ parent child,
    (mapper.childToParent parent child).graphTrace = parent.graphTrace ++ child.graphTrace

theorem shares_identity : Shares .identity := ⟨fun _ => rfl, fun _ _ => rfl⟩

theorem splices_forPlanExecution : Splices .forPlanExecution := ⟨fun _ => rfl, fun _ _ => rfl⟩

/-- An appended trace keeps the positions only if one of the two is empty. -/
theorem numbered_childToParent_iff {mapper : StateMapper} (hmapper : Splices mapper)
    {parent child : AgentState} (hparent : Numbered parent.graphTrace)
    (hchild : Numbered child.graphTrace) :
    Numbered (mapper.childToParent parent child).graphTrace ↔
      parent.graphTrace = [] ∨ child.graphTrace = [] := by
  rw [hmapper.toParent]
  exact positioned_append_iff_of_positioned hparent hchild

/-- A run of the graph never comes to a node, nor to an early stop. -/
def Idle (graph : Graph) : Prop := graph.entry = endNode ∨ graph.maxIterations = 0

/-- The nodes that keep the positions: those that only log, and nested graphs of such nodes
that go on with the trace of their parent; nested graphs with a trace of their own only if
they are idle. -/
inductive TameNode (digest : Snapshot → String) : NodeFn → Prop
  | logs {fn : NodeFn} (h : ∀ state trace next, Runs (fn state) trace (.ok next) →
      ∃ calls, next.graphTrace = (state.logAll calls).graphTrace) : TameNode digest fn
  | shared {nodeId : String} {graph : Graph} {mapper : StateMapper} (hmapper : Shares mapper)
      (hnodes : ∀ own fn, graph.nodes own = some fn → TameNode digest fn)
      (hmerges : ∀ fanOut ∈ graph.fanOuts,
        MergesOne graph { captureStateSnapshots := true } fanOut) :
      TameNode digest (SubgraphNode.call digest nodeId graph mapper)
  | spliced {nodeId : String} {graph : Graph} {mapper : StateMapper} (hmapper : Splices mapper)
      (hidle : graph.Idle) : TameNode digest (SubgraphNode.call digest nodeId graph mapper)
  | agent {agentId description : String} {graph : Graph} {mapper : StateMapper}
      (h : TameNode digest (SubgraphNode.call digest agentId graph mapper)) :
      TameNode digest (AgentNode.call digest agentId graph mapper description)

/-- An idle run logs nothing. -/
theorem graphTrace_run_of_idle (hidle : graph.Idle) {state final : AgentState} {trace : List Event}
    (hrun : Runs (run digest graph streamed policy state) trace (.ok final)) :
    final.graphTrace = state.graphTrace := by
  obtain ⟨ref, first, own, ended, hloop, -, -,
    ⟨error, -, herror, -⟩ | ⟨cursor, last, rfl, hfinal, -⟩⟩ :=
    runs_run hrun
  · cases herror
  · have hcursor : cursor = startCursor graph policy ref state := by
      rcases hidle with hentry | hnone
      · exact Except.ok.inj (runs_loop_end hentry hloop).2
      · rw [hnone] at hloop
        exact Except.ok.inj (runs_pure_iff.mp hloop).2
    rw [Except.ok.inj hfinal, hcursor]
    rfl

/-- A run of a graph whose nodes and fan-ins all meet the condition. -/
theorem advances_run (hmode : policy.mode ≠ .replay)
    (hnodes : ∀ own fn, graph.nodes own = some fn → NodeAdvances fn)
    (hmerges : ∀ fanOut ∈ graph.fanOuts, MergesOne graph policy fanOut) {state final : AgentState}
    {trace : List Event}
    (hrun : Runs (run digest graph streamed policy state) trace (.ok final)) :
    Advances (policy.mode ≠ .replay) state final := by
  obtain ⟨ref, total, first, own, last, tail, reached, ended, -, hrounds, hends, hfinal, -⟩ :=
    exists_rounds_of_runs hrun
  have hsteps : ∀ nodeId, StepsWith (fun fn => NodeAdvances fn) graph policy nodeId := by
    intro nodeId
    refine ⟨hnodes nodeId, fun fanOut _ own _ fn hfn => hnodes own fn hfn, fun fanOut hfanOut => ?_⟩
    exact hmerges fanOut (List.mem_of_find?_eq_some hfanOut)
  have hreached := advances_rounds hrounds (fun _ _ own _ _ _ => hsteps own.current)
    fun hreplay => absurd hreplay hmode
  cases ended with
  | error error => cases hfinal
  | ok ended =>
      cases hfinal
      have hstart :
          Advances (policy.mode ≠ .replay) state (startCursor graph policy ref state).state :=
        .of_eq rfl
      exact hstart.trans (hreached.trans (advances_loopEnds hends))

theorem advances_call {nodeId : String} {mapper : StateMapper} {parent next : AgentState}
    {trace : List Event}
    (hchild : ∀ child own result, child.graphTrace = (mapper.parentToChild parent).graphTrace →
      Runs (graph.invoke digest { captureStateSnapshots := true } child) own (.ok result) →
      Advances True parent (mapper.childToParent parent result))
    (hrun : Runs (SubgraphNode.call digest nodeId graph mapper parent) trace (.ok next)) :
    Advances True parent next := by
  obtain ⟨result, own, rest, hown, hrest, -⟩ := runs_bind_ok_iff.mp hrun
  obtain ⟨memory, first, last, -, hlast, -⟩ := runs_bind_ok_iff.mp hrest
  cases (runs_pure_iff.mp hlast).2
  have hback := hchild { mapper.parentToChild parent with
    parentGraphId := some parent.sessionId
    nestedGraphId := some graph.graphId } own result rfl hown
  exact (hback.trans (Advances.logGraph _ _ _ _)).trans (.of_eq rfl)

theorem TameNode.advances {fn : NodeFn} (h : TameNode digest fn) : NodeAdvances fn := by
  induction h with
  | logs h =>
      intro state trace next hrun
      obtain ⟨calls, hcalls⟩ := h state trace next hrun
      exact (Advances.logAll state calls).trans (.of_eq hcalls)
  | @shared nodeId graph mapper hmapper hnodes hmerges ih =>
      intro parent trace next hrun
      refine advances_call (fun child own result hchild hown => ?_) hrun
      have hstart : Advances True parent child := .of_eq (hchild.trans (hmapper.toChild parent))
      have hnested : Advances True child result :=
        (advances_run (by decide) ih hmerges hown).mono fun _ => by decide
      exact (hstart.trans hnested).trans (.of_eq (hmapper.toParent parent result))
  | @spliced nodeId graph mapper hmapper hidle =>
      intro parent trace next hrun
      refine advances_call (fun child own result hchild hown => .of_eq ?_) hrun
      rw [hmapper.toParent, graphTrace_run_of_idle hidle hown, hchild, hmapper.toChild,
        List.append_nil]
  | @agent agentId description graph mapper h ih =>
      intro parent trace next hrun
      obtain ⟨result, own, rest, hown, hrest, -⟩ := runs_bind_ok_iff.mp hrun
      obtain ⟨calls, first, last, -, hlast, -⟩ := runs_bind_ok_iff.mp hrest
      cases (runs_pure_iff.mp hlast).2
      exact ((Advances.logGraph parent _ _ _).trans (ih hown)).trans (.of_eq rfl)

end Graph

end TripGraph
