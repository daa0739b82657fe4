import TripGraph.Runtime.Graph

/-! # What a run of a graph does

Each node execution leaves two marks in the trace: the pause point before the node and the
node record after it. Everything else the engine asks is bookkeeping, so the marks of a run
are those of its rounds, and what happens between two marks is the run of one node.
-/

namespace TripGraph

open Interaction

/-- A node execution that starts, or one that has ended. -/
inductive Visit
  | started (nodeId : String)
  | finished (nodeId : String)
deriving DecidableEq

/-- The node of a mark. -/
def Visit.nodeId : Visit → String
  | .started nodeId => nodeId
  | .finished nodeId => nodeId

/-- The mark an operation leaves. -/
def Op.visit : Op → Option Visit
  | .maybePause nodeId _ _ _ => some (.started nodeId)
  | .addNodeRecord _ record => some (.finished record.nodeId)
  | _ => none

/-- The operations of the engine itself: they go neither to a component of a node nor to
the fields of the executor or the controller. -/
def Op.bookkeeping : Op → Bool
  | .maybePause .. | .yield _ | .schedule _ | .uuid4 | .seedRandom _ | .newGraph _ | .copyGraph _
  | .mergeGraphs .. | .addNodeRecord .. | .addEdgeRecord .. | .newEvents | .pushEvent ..
  | .readEvents _ | .peekReplayRecord _ | .nextReplayRecord => true
  | _ => false

/-- The marks of a trace. -/
def visits (trace : List Event) : List Visit := trace.filterMap fun event => event.op.visit

@[simp] theorem visits_nil : visits [] = [] := rfl

@[simp] theorem visits_append (first second : List Event) :
    visits (first ++ second) = visits first ++ visits second := List.filterMap_append

theorem visits_cons (event : Event) (trace : List Event) :
    visits (event :: trace) = event.op.visit.toList ++ visits trace := by
  unfold visits
  cases h : event.op.visit <;> simp [h]

/-- The program leaves no marks. -/
abbrev Quiet {ε α : Type} (p : Effect ε α) : Prop := Program.Asks (fun op : Op => op.visit = none) p

/-- The program only asks operations of the engine. -/
abbrev Bookkeeping {ε α : Type} (p : Effect ε α) : Prop :=
  Program.Asks (fun op : Op => op.bookkeeping = true) p

/-- A trace of operations of the engine. -/
def Bookkept (trace : List Event) : Prop := ∀ event ∈ trace, event.op.bookkeeping = true

theorem visits_of_quiet {ε α : Type} {p : Effect ε α} (h : Quiet p) {trace : List Event}
    {result : Except ε α} (hrun : Runs p trace result) : visits trace = [] := by
  refine List.filterMap_eq_nil_iff.mpr fun event hmem => ?_
  exact Program.Respects.asks_of_runs h hrun event hmem

theorem bookkept_of_runs {ε α : Type} {p : Effect ε α} (h : Bookkeeping p) {trace : List Event}
    {result : Except ε α} (hrun : Runs p trace result) : Bookkept trace :=
  Program.Respects.asks_of_runs h hrun

@[simp] theorem bookkept_nil : Bookkept [] := by simp [Bookkept]

@[simp] theorem bookkept_append {first second : List Event} :
    Bookkept (first ++ second) ↔ Bookkept first ∧ Bookkept second := by
  simp only [Bookkept, List.mem_append]
  exact ⟨fun h => ⟨fun e he => h e (Or.inl he), fun e he => h e (Or.inr he)⟩,
    fun h e he => he.elim (h.1 e) (h.2 e)⟩

@[simp] theorem bookkept_cons {event : Event} {trace : List Event} :
    Bookkept (event :: trace) ↔ event.op.bookkeeping = true ∧ Bookkept trace := by
  simp [Bookkept]

namespace Graph

variable {digest : Snapshot → String} {graph : Graph} {streamed : Bool} {policy : ExecutionPolicy}
  {executionGraph : Ref}

/-! ## The engine's own operations -/

/-- The events that emitting leaves in the trace. -/
def emitted (streamed : Bool) (event : GraphEvent) : List Event :=
  if streamed then [⟨.yield event, ()⟩] else []

@[simp] theorem runs_emit_bind_iff {α : Type} {event : GraphEvent} {f : Unit → Runtime α}
    {trace : List Event} {result : Except RaisedError α} :
    Runs (emit streamed event >>= f) trace result ↔
      ∃ rest, trace = emitted streamed event ++ rest ∧ Runs (f ()) rest result := by
  cases streamed with
  | false => simp [emit, emitted]
  | true =>
      simp only [emit, emitted, if_true, runs_asking_iff, List.singleton_append]
      constructor
      · rintro ⟨_, rest, htrace, hrest⟩
        exact ⟨rest, htrace, hrest⟩
      · rintro ⟨rest, htrace, hrest⟩
        exact ⟨(), rest, htrace, hrest⟩

@[simp] theorem visits_emitted (event : GraphEvent) : visits (emitted streamed event) = [] := by
  cases streamed <;> rfl

@[simp] theorem bookkept_emitted (event : GraphEvent) : Bookkept (emitted streamed event) := by
  cases streamed <;> simp [emitted, Op.bookkeeping]

@[simp] theorem runs_commit_bind_iff {α : Type} {state : AgentState} {nodeId : String}
    {f : AgentState → Runtime α} {trace : List Event} {result : Except RaisedError α} :
    Runs (commit digest state nodeId >>= f) trace result ↔
      ∃ versionId rest, trace = ⟨.uuid4, versionId⟩ :: rest ∧
        Runs (f (state.commitVersion digest nodeId versionId)) rest result := by
  simp [commit]

theorem bookkeeping_recordEdges (edges : List GraphEdgeRecord) :
    Bookkeeping (recordEdges executionGraph edges) := by
  induction edges with
  | nil => trivial
  | cons edge rest ih => exact respects_asking rfl fun _ => ih

theorem quiet_recordEdges (edges : List GraphEdgeRecord) :
    Quiet (recordEdges executionGraph edges) := by
  induction edges with
  | nil => trivial
  | cons edge rest ih => exact respects_asking rfl fun _ => ih

theorem bookkeeping_emit (event : GraphEvent) : Bookkeeping (emit streamed event) := by
  cases streamed with
  | false => trivial
  | true => exact ⟨rfl, fun _ => trivial⟩

theorem quiet_emit (event : GraphEvent) : Quiet (emit streamed event) := by
  cases streamed with
  | false => trivial
  | true => exact ⟨rfl, fun _ => trivial⟩

theorem bookkeeping_emitAll (events : List GraphEvent) :
    Bookkeeping (emitAll streamed events) := by
  induction events with
  | nil => trivial
  | cons event rest ih => exact (bookkeeping_emit event).bind fun _ _ => ih

theorem quiet_emitAll (events : List GraphEvent) : Quiet (emitAll streamed events) := by
  induction events with
  | nil => trivial
  | cons event rest ih => exact (quiet_emit event).bind fun _ _ => ih

theorem bookkeeping_deepCopy (state : AgentState) : Bookkeeping (deepCopy state) := by
  unfold deepCopy
  split
  · trivial
  · exact respects_asking rfl fun _ => trivial

theorem quiet_deepCopy (state : AgentState) : Quiet (deepCopy state) := by
  unfold deepCopy
  split
  · trivial
  · exact respects_asking rfl fun _ => trivial

theorem respects_deepMerge {P : Op → Prop} (hmerge : ∀ left right, P (.mergeGraphs left right))
    (left right : AgentState) : Program.Asks (S := runtimeSig) P (deepMerge left right) := by
  unfold deepMerge
  refine Program.Respects.bind (Q := fun _ => True) ?_ fun _ _ => trivial
  unfold mergeExecutionGraphs
  split
  · trivial
  · trivial
  · exact respects_asking (hmerge _ _) fun _ => trivial

theorem respects_mergeStates {P : Op → Prop} (hmerge : ∀ left right, P (.mergeGraphs left right))
    (strategy : MergeStrategy) (base : AgentState) (branches : List AgentState) :
    Program.Asks (S := runtimeSig) P (mergeStates strategy base branches) := by
  induction branches generalizing base with
  | nil => trivial
  | cons branch rest ih =>
      refine Program.Respects.bind (Q := fun _ => True) ?_ fun merged _ => ih merged
      unfold mergePair
      split
      · trivial
      · dsimp only
        split
        · exact respects_deepMerge hmerge _ _
        · trivial
      · exact (respects_deepMerge hmerge _ _).bind fun _ _ => trivial
      · exact respects_deepMerge hmerge _ _

/-! ## One node -/

/-- The replay lookup before a node, if the policy makes one. -/
def lookedUp (policy : ExecutionPolicy) (nodeId : String) (record : Option NodeExecutionRecord) :
    List Event :=
  if policy.mode = .replay then [⟨.peekReplayRecord nodeId, record⟩] else []

/-- The mark of the start of a node. -/
def startEvent (digest : Snapshot → String) (policy : ExecutionPolicy) (nodeId : String)
    (state : AgentState) : Event :=
  ⟨.maybePause nodeId (if policy.captureStateSnapshots then some state.snapshot else none)
    (state.hash digest) (policy.pausesAt nodeId), ()⟩

/-- The execution of a node, once the record it may be served from is known. -/
def executeRecorded (digest : Snapshot → String) (policy : ExecutionPolicy) (executionGraph : Ref)
    (nodeId : String) (fn : NodeFn) (state : AgentState) (sequence : Nat)
    (served : Option NodeExecutionRecord) : Runtime AgentState := do
  ask (.maybePause nodeId (if policy.captureStateSnapshots then some state.snapshot else none)
    (state.hash digest) (policy.pausesAt nodeId))
  let executed ← runOrServe fn served (state.hash digest) (startNode digest nodeId state)
  let record := nodeRecord digest policy nodeId sequence state (startNode digest nodeId state)
    executed.1 executed.2
  let committed ← commit digest executed.1 nodeId
  ask (.addNodeRecord executionGraph record)
  pure (finishNode record committed)

theorem executeNode_of_some {nodeId : String} {fn : NodeFn} (hfn : graph.nodes nodeId = some fn)
    (state : AgentState) (sequence : Nat) :
    executeNode digest graph policy executionGraph nodeId state sequence =
      if policy.mode = .replay then do
        let served ← ask (.peekReplayRecord nodeId)
        executeRecorded digest policy executionGraph nodeId fn state sequence served
      else executeRecorded digest policy executionGraph nodeId fn state sequence none := by
  simp only [executeNode, hfn]
  split <;> rfl

theorem executeNode_of_none {nodeId : String} (hfn : graph.nodes nodeId = none)
    (state : AgentState) (sequence : Nat) :
    executeNode digest graph policy executionGraph nodeId state sequence =
      raise (.keyError s!"Unknown graph node: {nodeId}") := by
  simp only [executeNode, hfn]

/-- A node execution is the run of its node between its two marks. -/
theorem runs_executeNode {nodeId : String} {fn : NodeFn} (hfn : graph.nodes nodeId = some fn)
    {state : AgentState} {sequence : Nat} {trace : List Event}
    {result : Except RaisedError AgentState}
    (h : Runs (executeNode digest graph policy executionGraph nodeId state sequence) trace result) :
    ∃ record own middle, (policy.mode ≠ .replay → record = none) ∧
      Runs (runOrServe fn record (state.hash digest) (startNode digest nodeId state)) middle own ∧
      ((∃ error, own = .error error ∧ result = .error error ∧
        trace = lookedUp policy nodeId record ++ startEvent digest policy nodeId state :: middle) ∨
      ∃ after replayed versionId, own = .ok (after, replayed) ∧
        result = .ok (finishNode (nodeRecord digest policy nodeId sequence state
          (startNode digest nodeId state) after replayed)
          (after.commitVersion digest nodeId versionId)) ∧
        trace = lookedUp policy nodeId record ++ startEvent digest policy nodeId state :: (middle ++
          [⟨.uuid4, versionId⟩, ⟨.addNodeRecord executionGraph (nodeRecord digest policy nodeId
            sequence state (startNode digest nodeId state) after replayed), ()⟩])) := by
  rw [executeNode_of_some hfn] at h
  obtain ⟨record, hnone, rest, rfl, hstart⟩ : ∃ record, (policy.mode ≠ .replay → record = none) ∧
      ∃ rest, trace = lookedUp policy nodeId record ++ rest ∧ Runs (executeRecorded digest policy
        executionGraph nodeId fn state sequence record) rest result := by
    by_cases hmode : policy.mode = .replay
    · rw [if_pos hmode] at h
      obtain ⟨record, rest, rfl, hrest⟩ := runs_asking_iff.mp h
      exact ⟨record, by simp [hmode], rest, by simp [lookedUp, hmode], hrest⟩
    · rw [if_neg hmode] at h
      exact ⟨none, fun _ => rfl, trace, by simp [lookedUp, hmode], h⟩
  obtain ⟨-, rest, rfl, hrun⟩ := runs_asking_iff.mp hstart
  refine ⟨record, ?_⟩
  rcases runs_bind_iff.mp hrun with
    ⟨⟨after, replayed⟩, middle, last, hmiddle, hlast, rfl⟩ | ⟨error, herror, rfl⟩
  · refine ⟨.ok (after, replayed), middle, hnone, hmiddle, Or.inr ⟨after, replayed, ?_⟩⟩
    obtain ⟨versionId, rest, rfl, hrecord⟩ := runs_commit_bind_iff.mp hlast
    obtain ⟨-, rest, rfl, hpure⟩ := runs_asking_iff.mp hrecord
    obtain ⟨rfl, rfl⟩ := runs_pure_iff.mp hpure
    exact ⟨versionId, rfl, rfl, rfl⟩
  · exact ⟨.error error, rest, hnone, herror, Or.inl ⟨error, rfl, rfl, rfl⟩⟩

theorem bookkept_lookedUp {nodeId : String} {record : Option NodeExecutionRecord} :
    Bookkept (lookedUp policy nodeId record) := by
  unfold lookedUp
  split <;> simp [Op.bookkeeping]

/-- Unless it replays, an executed node ends as its function does. -/
theorem runs_executeNode_ok {nodeId : String} {fn : NodeFn} (hfn : graph.nodes nodeId = some fn)
    (hmode : policy.mode ≠ .replay) {state result : AgentState} {sequence : Nat}
    {trace : List Event}
    (h : Runs (executeNode digest graph policy executionGraph nodeId state sequence) trace
      (.ok result)) :
    ∃ after record versionId own first last,
      Runs (fn (startNode digest nodeId state)) own (.ok after) ∧
      result = finishNode record (after.commitVersion digest nodeId versionId) ∧
      Bookkept first ∧ Bookkept last ∧ trace = first ++ (own ++ last) := by
  obtain ⟨record, ended, middle, hrecord, hmiddle, ⟨_, -, herror, -⟩ |
    ⟨after, replayed, versionId, rfl, hresult, rfl⟩⟩ := runs_executeNode hfn h
  · cases herror
  cases hresult
  rw [hrecord hmode, runOrServe, servedSnapshot] at hmiddle
  obtain ⟨own, own', _, hown, hrest, rfl⟩ := runs_bind_ok_iff.mp hmiddle
  simp only [Option.isSome_none, Bool.false_eq_true, if_false] at hrest
  obtain ⟨rfl, hpair⟩ := runs_pure_iff.mp hrest
  cases hpair
  let last : List Event := [⟨.uuid4, versionId⟩, ⟨.addNodeRecord executionGraph (nodeRecord digest
    policy nodeId sequence state (startNode digest nodeId state) after false), ()⟩]
  refine ⟨after, _, versionId, own',
    lookedUp policy nodeId record ++ [startEvent digest policy nodeId state], last, hown, rfl,
      ?_, ?_, by simp [last]⟩
  · simp [bookkept_lookedUp, startEvent, Op.bookkeeping]
  · simp [last, Op.bookkeeping]

@[simp] theorem visits_lookedUp {nodeId : String} {record : Option NodeExecutionRecord} :
    visits (lookedUp policy nodeId record) = [] := by
  unfold lookedUp
  split <;> rfl

/-- Serving a node asks two operations of the engine, running it those of its function. -/
theorem asks_runOrServe {P : Op → Prop} (hcopy : ∀ ref, P (.copyGraph ref))
    (hserved : P .nextReplayRecord) {fn : NodeFn}
    (hfn : ∀ state, Program.Asks (S := runtimeSig) P (fn state))
    (record : Option NodeExecutionRecord) (inputHash : String) (state : AgentState) :
    Program.Asks (S := runtimeSig) P (runOrServe fn record inputHash state) := by
  unfold runOrServe
  split
  · refine Program.Respects.bind (Q := fun _ => True) ?_ fun _ _ =>
      respects_asking hserved fun _ => trivial
    unfold deepCopy
    split
    · trivial
    · exact respects_asking (hcopy _) fun _ => trivial
  · refine (hfn state).bind fun after _ => ?_
    split
    · exact respects_asking hserved fun _ => trivial
    · trivial

theorem quiet_runOrServe {fn : NodeFn} (hfn : ∀ state, Quiet (fn state))
    (record : Option NodeExecutionRecord) (inputHash : String) (state : AgentState) :
    Quiet (runOrServe fn record inputHash state) :=
  asks_runOrServe (P := fun op => op.visit = none) (fun _ => rfl) rfl hfn record inputHash state

/-- A node that is not served has been run. -/
theorem runs_runOrServe_executed {fn : NodeFn} {record : Option NodeExecutionRecord}
    {inputHash : String} {state after : AgentState} {trace : List Event}
    (h : Runs (runOrServe fn record inputHash state) trace (.ok (after, false))) :
    ∃ own, Runs (fn state) own (.ok after) := by
  unfold runOrServe at h
  split at h
  · obtain ⟨copied, _, rest, -, h₁, rfl⟩ := runs_bind_ok_iff.mp h
    obtain ⟨-, _, -, h₂⟩ := runs_asking_iff.mp h₁
    simp at h₂
  · obtain ⟨ended, own, rest, hown, h₁, rfl⟩ := runs_bind_ok_iff.mp h
    have heq : ended = after := by
      split at h₁
      · obtain ⟨_, _, -, h₂⟩ := runs_asking_iff.mp h₁
        simpa using (runs_pure_iff.mp h₂).2.symm
      · simpa using (runs_pure_iff.mp h₁).2.symm
    exact ⟨own, heq ▸ hown⟩

/-- Every node of the graph satisfies `R`. -/
def EachNode (R : String → NodeFn → Prop) (graph : Graph) : Prop :=
  ∀ nodeId fn, graph.nodes nodeId = some fn → R nodeId fn

/-- No node of the graph leaves marks of its own. -/
abbrev QuietNodes (graph : Graph) : Prop :=
  graph.EachNode fun _ fn => ∀ state, Quiet (fn state)

theorem exists_node_of_runs {nodeId : String} {state : AgentState} {sequence : Nat}
    {trace : List Event} {after : AgentState}
    (h : Runs (executeNode digest graph policy executionGraph nodeId state sequence) trace
      (.ok after)) : ∃ fn, graph.nodes nodeId = some fn := by
  cases hfn : graph.nodes nodeId with
  | some fn => exact ⟨fn, rfl⟩
  | none =>
      simp only [executeNode, hfn, runs_fail_iff] at h
      exact absurd h.2 (by simp)

/-- A node execution leaves the two marks of its node. -/
theorem visits_executeNode (hquiet : QuietNodes graph) {nodeId : String} {state : AgentState}
    {sequence : Nat} {trace : List Event} {after : AgentState}
    (h : Runs (executeNode digest graph policy executionGraph nodeId state sequence) trace
      (.ok after)) : visits trace = [.started nodeId, .finished nodeId] := by
  obtain ⟨fn, hfn⟩ := exists_node_of_runs h
  obtain ⟨record, own, middle, -, hmiddle, ⟨error, -, herror, -⟩ | ⟨_, _, _, rfl, -, rfl⟩⟩ :=
    runs_executeNode hfn h
  · exact absurd herror (by simp)
  · have hnone := visits_of_quiet (quiet_runOrServe (hquiet nodeId fn hfn) _ _ _) hmiddle
    rw [visits_append, visits_lookedUp, visits_cons, visits_append, hnone]
    rfl

/-! ## One round -/

theorem runs_visitNode {cursor visited : Cursor} {trace : List Event}
    (h : Runs (visitNode digest graph streamed policy executionGraph cursor) trace (.ok visited)) :
    ∃ own after, Runs (executeNode digest graph policy executionGraph cursor.current cursor.state
        cursor.sequence) own (.ok after) ∧
      visited = { cursor with state := after, sequence := cursor.sequence + 1 } ∧
      ∃ first last, Bookkept first ∧ Bookkept last ∧ visits first = [] ∧ visits last = [] ∧
        trace = first ++ (own ++ last) := by
  obtain ⟨rest, rfl, hexec⟩ := runs_emit_bind_iff.mp h
  obtain ⟨after, own, last, hown, hlast, rfl⟩ := runs_bind_ok_iff.mp hexec
  obtain ⟨last, rfl, hpure⟩ := runs_emit_bind_iff.mp hlast
  obtain ⟨rfl, hvisited⟩ := runs_pure_iff.mp hpure
  cases hvisited
  exact ⟨own, after, hown, rfl, _, _, bookkept_emitted _, by simp, by simp, by simp, rfl⟩

theorem visits_visitNode (hquiet : QuietNodes graph) {cursor visited : Cursor}
    {trace : List Event}
    (h : Runs (visitNode digest graph streamed policy executionGraph cursor) trace (.ok visited)) :
    visits trace = [.started cursor.current, .finished cursor.current] := by
  obtain ⟨own, after, hown, -, first, last, -, -, hfirst, hlast, rfl⟩ := runs_visitNode h
  simp [hfirst, hlast, visits_executeNode hquiet hown]

theorem runs_nodeRound {cursor next : Cursor} {trace : List Event}
    (h : Runs (nodeRound digest graph streamed policy executionGraph cursor) trace (.ok next)) :
    ∃ own visited, Runs (visitNode digest graph streamed policy executionGraph cursor) own
        (.ok visited) ∧
      next = { visited with
        current := graph.resolveNext cursor.current visited.state
        edgeSequence := visited.edgeSequence + 1
        iterations := visited.iterations + 1 } ∧
      ∃ last, Bookkept last ∧ visits last = [] ∧ trace = own ++ last := by
  obtain ⟨visited, own, rest, hown, hrest, rfl⟩ := runs_bind_ok_iff.mp h
  obtain ⟨-, rest, rfl, hemit⟩ := runs_asking_iff.mp hrest
  obtain ⟨last, rfl, hpure⟩ := runs_emit_bind_iff.mp hemit
  obtain ⟨rfl, hnext⟩ := runs_pure_iff.mp hpure
  cases hnext
  exact ⟨own, visited, hown, rfl, _, by simp [Op.bookkeeping], by simp [visits_cons, Op.visit], rfl⟩

/-! ## A fan-out -/

/-- The run of one branch, as its share of a gathered run. -/
abbrev BranchRun := TaskRun runtimeSig RaisedError AgentState

/-- A fan-out is a run of each branch from the same state, the merge of the branch states
and a run of the join. -/
theorem runs_runParallelFanout {fanOut : ParallelFanOut} {cursor done : Cursor}
    {trace : List Event}
    (h : Runs (runParallelFanout digest graph streamed policy executionGraph fanOut cursor) trace
      (.ok done)) :
    ∃ (events : Ref) (runs : List BranchRun), runs.map TaskRun.task =
      branchTasks digest graph policy executionGraph events
        fanOut (fanOutState fanOut cursor.state) cursor.sequence ∧
      (∀ run ∈ runs, TaskRun.Valid Op.suspends run) ∧
      ∃ merged mergeTrace versionId joined joinTrace,
        Runs (mergeStates graph.mergeStrategy (fanOutState fanOut cursor.state)
          (runs.map TaskRun.value)) mergeTrace (.ok merged) ∧
        Runs (runJoin digest graph streamed policy executionGraph fanOut.joinNode
          (merged.commitVersion digest s!"{fanOut.joinNode}:merge" versionId)
          (cursor.sequence + fanOut.branches.length)) joinTrace (.ok joined) ∧
        done = { cursor with
          state := joined
          sequence := cursor.sequence + (fanOut.branches.length + 1)
          edgeSequence := cursor.edgeSequence + fanOut.branches.length + fanOut.branches.length } ∧
        ∃ first own second last, (Bookkept first ∧ Bookkept second ∧ Bookkept last) ∧
          (visits first = [] ∧ visits second = [] ∧ visits last = []) ∧
          (⟨.uuid4, versionId⟩ : Event) ∈ second ∧ (runs.flatMap TaskRun.trace).Perm own ∧
          trace = first ++ (own ++ (second ++ (joinTrace ++ last))) := by
  unfold runParallelFanout at h
  obtain ⟨_, rfl, h₁⟩ := runs_emit_bind_iff.mp h
  obtain ⟨events, _, rfl, h₂⟩ := runs_asking_iff.mp h₁
  obtain ⟨_, edges, _, hedges, h₃, rfl⟩ := runs_bind_ok_iff.mp h₂
  obtain ⟨order, _, rfl, h₄⟩ := runs_asking_iff.mp h₃
  obtain ⟨values, own, _, hgather, h₅, rfl⟩ := runs_bind_ok_iff.mp h₄
  obtain ⟨_, joinEdges, _, hjoinEdges, h₆, rfl⟩ := runs_bind_ok_iff.mp h₅
  obtain ⟨branchEvents, _, rfl, h₇⟩ := runs_asking_iff.mp h₆
  obtain ⟨_, emits, _, hemits, h₈, rfl⟩ := runs_bind_ok_iff.mp h₇
  obtain ⟨merged, mergeTrace, _, hmerge, h₉, rfl⟩ := runs_bind_ok_iff.mp h₈
  obtain ⟨versionId, _, rfl, h₁₀⟩ := runs_commit_bind_iff.mp h₉
  obtain ⟨joined, joinTrace, _, hjoin, h₁₁, rfl⟩ := runs_bind_ok_iff.mp h₁₀
  obtain ⟨_, rfl, hpure⟩ := runs_emit_bind_iff.mp h₁₁
  obtain ⟨rfl, hdone⟩ := runs_pure_iff.mp hpure
  cases hdone
  -- one run for each branch; the trace interleaves them
  obtain ⟨runs, htasks, rfl, hvalid, resumed, rfl, hperm⟩ := runs_gather_ok hgather
  have hedgesMarks := visits_of_quiet (quiet_recordEdges _) hedges
  have hjoinMarks := visits_of_quiet (quiet_recordEdges _) hjoinEdges
  have hemitMarks := visits_of_quiet (quiet_emitAll _) hemits
  have hmergeMarks := visits_of_quiet (respects_mergeStates (fun _ _ => rfl) _ _ _) hmerge
  have hedgesKept := bookkept_of_runs (bookkeeping_recordEdges _) hedges
  have hjoinKept := bookkept_of_runs (bookkeeping_recordEdges _) hjoinEdges
  have hemitKept := bookkept_of_runs (bookkeeping_emitAll _) hemits
  have hmergeKept := bookkept_of_runs (respects_mergeStates (fun _ _ => rfl) _ _ _) hmerge
  let first := emitted streamed (.parallelFanout fanOut.source fanOut.branches fanOut.joinNode) ++
    ⟨.newEvents, events⟩ :: (edges ++ [⟨.schedule fanOut.branches.length, order⟩])
  let second := joinEdges ++ ⟨.readEvents events, branchEvents⟩ :: (emits ++ (mergeTrace ++
    [⟨.uuid4, versionId⟩]))
  let last :=
    emitted streamed (.parallelDone joined (cursor.sequence + (fanOut.branches.length + 1))
    (cursor.edgeSequence + fanOut.branches.length + fanOut.branches.length))
  refine ⟨events, runs, htasks, hvalid, merged, mergeTrace, versionId, joined, joinTrace, hmerge,
    hjoin, rfl, first, _, second, last, ⟨?_, ?_, by simp [last]⟩, ⟨?_, ?_, by simp [last]⟩,
    by simp [second], flatMap_trace_perm hperm, by simp [first, second, last]⟩
  · simp [first, hedgesKept, Op.bookkeeping]
  · simp [second, hjoinKept, hemitKept, hmergeKept, Op.bookkeeping]
  · simp [first, hedgesMarks, visits_cons, Op.visit]
  · simp [second, hjoinMarks, hemitMarks, hmergeMarks, visits_cons, Op.visit]

theorem runs_deepCopy {state copied : AgentState} {trace : List Event}
    (h : Runs (deepCopy state) trace (.ok copied)) :
    ∃ ref, copied = { state with executionGraph := ref } := by
  cases hgraph : state.executionGraph with
  | none =>
      simp only [deepCopy, hgraph, runs_pure_iff, Except.ok.injEq] at h
      exact ⟨none, by rw [h.2, ← hgraph]⟩
  | some ref =>
      simp only [deepCopy, hgraph, runs_asking_iff] at h
      obtain ⟨own, _, -, hpure⟩ := h
      obtain ⟨-, hcopied⟩ := runs_pure_iff.mp hpure
      cases hcopied
      exact ⟨some own, rfl⟩

/-- A branch runs its node on a copy of the state the fan-out starts from. -/
theorem runs_runBranch {events : Ref} {state : AgentState} {branchId : String} {sequence : Nat}
    {trace : List Event} {result : Except RaisedError AgentState}
    (h : Runs (runBranch digest graph policy executionGraph events state branchId sequence) trace
      result) :
    ∃ ref own first last, Runs (executeNode digest graph policy executionGraph branchId
        { state with executionGraph := ref } sequence) own result ∧
      Bookkept first ∧ Bookkept last ∧ visits first = [] ∧ visits last = [] ∧
      trace = first ++ (own ++ last) := by
  rcases runs_bind_iff.mp h with ⟨copied, copying, _, hcopy, h₁, rfl⟩ | ⟨error, herror, -⟩
  · obtain ⟨ref, rfl⟩ := runs_deepCopy hcopy
    have hkept := bookkept_of_runs (bookkeeping_deepCopy _) hcopy
    have hmarks := visits_of_quiet (quiet_deepCopy _) hcopy
    obtain ⟨_, rest, rfl, h₂⟩ := runs_asking_iff.mp h₁
    rcases runs_bind_iff.mp h₂ with ⟨updated, own, _, hown, h₃, rfl⟩ | ⟨error, herror, rfl⟩
    · obtain ⟨_, _, rfl, hpure⟩ := runs_asking_iff.mp h₃
      obtain ⟨rfl, rfl⟩ := runs_pure_iff.mp hpure
      refine ⟨ref, own, copying ++ [_], [_], hown, ?_, ?_, ?_, ?_, List.append_cons copying _ _⟩
      · simp [hkept, Op.bookkeeping]
      · simp [Op.bookkeeping]
      · simp [hmarks, visits_cons, Op.visit]
      · simp [visits_cons, Op.visit]
    · refine ⟨ref, rest, copying ++ [_], [], herror, ?_, bookkept_nil, ?_, rfl,
        (List.append_cons copying _ _).trans (by rw [List.append_nil])⟩
      · simp [hkept, Op.bookkeeping]
      · simp [hmarks, visits_cons, Op.visit]
  · unfold deepCopy at herror
    split at herror
    next => simp at herror
    next =>
      obtain ⟨_, _, -, hpure⟩ := runs_asking_iff.mp herror
      simp at hpure

theorem visits_runBranch (hquiet : QuietNodes graph) {events : Ref} {state : AgentState}
    {branchId : String} {sequence : Nat} {trace : List Event} {updated : AgentState}
    (h : Runs (runBranch digest graph policy executionGraph events state branchId sequence) trace
      (.ok updated)) : visits trace = [.started branchId, .finished branchId] := by
  obtain ⟨ref, own, first, last, hown, -, -, hfirst, hlast, rfl⟩ := runs_runBranch h
  simp [hfirst, hlast, visits_executeNode hquiet hown]

/-- A join that is a node of the graph is executed like any other node. -/
theorem runs_runJoin {joinId : String} (hjoin : (graph.nodes joinId).isSome = true)
    {merged joined : AgentState} {sequence : Nat} {trace : List Event}
    (h : Runs (runJoin digest graph streamed policy executionGraph joinId merged sequence) trace
      (.ok joined)) :
    ∃ own first last, Runs (executeNode digest graph policy executionGraph joinId merged sequence)
        own (.ok joined) ∧ Bookkept first ∧ Bookkept last ∧ visits first = [] ∧ visits last = [] ∧
      trace = first ++ (own ++ last) := by
  rw [runJoin, if_pos hjoin] at h
  obtain ⟨_, rfl, h₁⟩ := runs_emit_bind_iff.mp h
  obtain ⟨after, own, _, hown, h₂, rfl⟩ := runs_bind_ok_iff.mp h₁
  obtain ⟨_, rfl, hpure⟩ := runs_emit_bind_iff.mp h₂
  obtain ⟨rfl, hjoined⟩ := runs_pure_iff.mp hpure
  cases hjoined
  exact ⟨own, _, _, hown, bookkept_emitted _, by simp, by simp, by simp, rfl⟩

/-- The marks of a fan-out: those of its branches in some order, then those of its join. -/
theorem visits_runParallelFanout (hquiet : QuietNodes graph) {fanOut : ParallelFanOut}
    (hjoin : (graph.nodes fanOut.joinNode).isSome = true) {cursor done : Cursor}
    {trace : List Event}
    (h : Runs (runParallelFanout digest graph streamed policy executionGraph fanOut cursor) trace
      (.ok done)) :
    ∃ marks,
      marks.Perm (fanOut.branches.flatMap fun branch => [.started branch, .finished branch]) ∧
      visits trace = marks ++ [.started fanOut.joinNode, .finished fanOut.joinNode] := by
  obtain ⟨events, runs, htasks, hvalid, merged, mergeTrace, versionId, joined, joinTrace, -,
    hjoinRun, -, first, own, second, last, -, ⟨hfirst, hsecond, hlast⟩, -, hperm, rfl⟩ :=
    runs_runParallelFanout h
  obtain ⟨joinOwn, joinFirst, joinLast, hjoinOwn, -, -, hjoinFirst, hjoinLast, rfl⟩ :=
    runs_runJoin hjoin hjoinRun
  refine ⟨visits own, ?_, by
    simp [hfirst, hsecond, hlast, hjoinFirst, hjoinLast, visits_executeNode hquiet hjoinOwn]⟩
  refine (hperm.symm.filterMap fun event : Event => event.op.visit).trans (List.Perm.of_eq ?_)
  have hmarks : ∀ (branches : List String) (start : Nat) (runs : List BranchRun),
      runs.map TaskRun.task = (branches.zipIdx start).map (fun entry =>
        runBranch digest graph policy executionGraph events (fanOutState fanOut cursor.state)
          entry.1 (cursor.sequence + entry.2)) →
      (∀ run ∈ runs, TaskRun.Valid Op.suspends run) →
      visits (runs.flatMap TaskRun.trace) =
        branches.flatMap fun branch => [.started branch, .finished branch] := by
    intro branches
    induction branches with
    | nil =>
        intro start runs htasks _
        obtain rfl := List.map_eq_nil_iff.mp htasks
        rfl
    | cons branch rest ih =>
        intro start runs htasks hvalid
        cases runs with
        | nil => simp at htasks
        | cons run runs =>
            simp only [List.map_cons, List.zipIdx_cons, List.cons.injEq] at htasks
            obtain ⟨htask, hrest⟩ := htasks
            have hrun := (hvalid run List.mem_cons_self).runs
            rw [htask] at hrun
            rw [List.flatMap_cons, visits_append, visits_runBranch hquiet hrun,
              ih (start + 1) runs hrest fun run hmem => hvalid run (List.mem_cons_of_mem _ hmem)]
            rfl
  exact hmarks fanOut.branches 0 runs htasks hvalid

/-! ## The loop -/

theorem runs_fanOutRound {fanOut : ParallelFanOut} {cursor next : Cursor} {trace : List Event}
    (hnode : (graph.nodes cursor.current).isSome = true)
    (h : Runs (fanOutRound digest graph streamed policy executionGraph fanOut cursor) trace
      (.ok next)) :
    ∃ visited done own parallel,
      Runs (visitNode digest graph streamed policy executionGraph cursor) own (.ok visited) ∧
      Runs (runParallelFanout digest graph streamed policy executionGraph fanOut visited) parallel
        (.ok done) ∧
      next = { done with
        current := graph.afterFanOut fanOut done.state
        iterations := done.iterations + 1 } ∧ trace = own ++ parallel := by
  simp only [fanOutRound, hnode, if_true] at h
  obtain ⟨visited, own, _, hown, h₁, rfl⟩ := runs_bind_ok_iff.mp h
  obtain ⟨done, parallel, _, hparallel, h₂, rfl⟩ := runs_bind_ok_iff.mp h₁
  obtain ⟨rfl, hnext⟩ := runs_pure_iff.mp h₂
  cases hnext
  exact ⟨visited, done, own, parallel, hown, hparallel, rfl, by simp⟩

/-- The state an early stop ends with. -/
def earlyStopState (cursor : Cursor) : AgentState :=
  cursor.state.logGraph cursor.current "early_stop" [("reason", .str "termination")]

/-- A further round of the loop: the check raises, the run stops early, or a round is made. -/
theorem runs_loop_succ {budget : Nat} {cursor : Cursor} (hcurrent : cursor.current ≠ endNode)
    {trace : List Event} {result : Except RaisedError Cursor}
    (h : Runs (loop digest graph streamed policy executionGraph (budget + 1) cursor) trace result) :
    (∃ error, graph.stops cursor.state = .error error ∧ trace = [] ∧ result = .error error) ∨
    (graph.stops cursor.state = .ok true ∧
      trace = emitted streamed (.earlyStop cursor.current (earlyStopState cursor)) ∧
      result = .ok { cursor with state := earlyStopState cursor }) ∨
    (graph.stops cursor.state = .ok false ∧
      Runs (round digest graph streamed policy executionGraph cursor >>=
        loop digest graph streamed policy executionGraph budget) trace result) := by
  rw [loop, if_neg hcurrent] at h
  cases hstops : graph.stops cursor.state with
  | error error =>
      rw [hstops] at h
      obtain ⟨rfl, rfl⟩ := runs_fail_iff.mp h
      exact Or.inl ⟨error, rfl, rfl, rfl⟩
  | ok stop =>
      rw [hstops] at h
      simp only [Program.ofExcept_ok, Program.done_bind] at h
      cases stop with
      | true =>
          rw [if_pos rfl] at h
          obtain ⟨_, rfl, hpure⟩ := runs_emit_bind_iff.mp h
          obtain ⟨rfl, rfl⟩ := runs_pure_iff.mp hpure
          exact Or.inr (Or.inl ⟨rfl, by simp [earlyStopState], rfl⟩)
      | false => exact Or.inr (Or.inr ⟨rfl, by simpa using h⟩)

theorem runs_loop_end {budget : Nat} {cursor : Cursor} (hcurrent : cursor.current = endNode)
    {trace : List Event} {result : Except RaisedError Cursor}
    (h : Runs (loop digest graph streamed policy executionGraph budget cursor) trace result) :
    trace = [] ∧ result = .ok cursor := by
  cases budget with
  | zero => exact runs_pure_iff.mp h
  | succ budget =>
      rw [loop, if_pos hcurrent] at h
      exact runs_pure_iff.mp h

/-! ## A whole run -/

/-- The cursor a run starts with. -/
def startCursor (graph : Graph) (policy : ExecutionPolicy) (executionGraph : Ref)
    (state : AgentState) : Cursor where
  current := graph.entry
  state := { state with executionSeed := policy.seed, executionGraph := some executionGraph }
  iterations := 0
  sequence := 0
  edgeSequence := 0

/-- The execution graph a run makes for a state that has none. -/
def newModel (graph : Graph) (policy : ExecutionPolicy) (state : AgentState) :
    ExecutionGraphModel where
  graphId := graph.graphId
  sessionId := state.sessionId
  seed := policy.seed
  mode := policy.mode.text

/-- The execution graph of a run: that of its first state, or a new one. -/
inductive Opens (graph : Graph) (policy : ExecutionPolicy) (state : AgentState) :
    List Event → Ref → Prop
  | found (ref : Ref) (given : state.executionGraph = some ref) :
      Opens graph policy state [] ref
  | made (ref : Ref) (missing : state.executionGraph = none) :
      Opens graph policy state [⟨.newGraph (newModel graph policy state), ref⟩] ref

/-- The events before the first round. -/
def seeded (policy : ExecutionPolicy) : List Event :=
  match policy.seed with
  | some seed => [⟨.seedRandom seed, ()⟩]
  | none => []

/-- The events after the last round. -/
def closing (graph : Graph) (streamed : Bool) (ended : Cursor) : List Event :=
  emitted streamed (.graphEnd graph.graphId ended.iterations) ++
    emitted streamed (.state ended.state)

theorem bookkept_seeded (policy : ExecutionPolicy) : Bookkept (seeded policy) := by
  unfold seeded
  split <;> simp [Op.bookkeeping]

theorem visits_seeded (policy : ExecutionPolicy) : visits (seeded policy) = [] := by
  unfold seeded
  split <;> simp [visits_cons, Op.visit]

theorem Opens.bookkept {state : AgentState} {opening : List Event} {ref : Ref}
    (h : Opens graph policy state opening ref) : Bookkept opening := by
  cases h <;> simp [Op.bookkeeping]

theorem Opens.visits_eq {state : AgentState} {opening : List Event} {ref : Ref}
    (h : Opens graph policy state opening ref) : visits opening = [] := by
  cases h <;> simp [visits_cons, Op.visit]

/-- A run opens its execution graph and loops; if the loop does not raise, it closes. -/
theorem runs_run_looped {state : AgentState} {trace : List Event}
    {result : Except RaisedError AgentState}
    (h : Runs (run digest graph streamed policy state) trace result) :
    ∃ ref opening own ended last, Opens graph policy state opening ref ∧
      Runs (loop digest graph streamed policy ref graph.maxIterations
        (startCursor graph policy ref state)) own ended ∧ result = ended.map Cursor.state ∧
      last = ended.toOption.elim [] (closing graph streamed) ∧
      trace = seeded policy ++ (opening ++ (emitted streamed
        (.graphStart graph.graphId graph.entry policy.mode.text) ++ (own ++ last))) := by
  obtain ⟨rest, rfl, hopened⟩ : ∃ rest, trace = seeded policy ++ rest ∧ Runs (do
      let executionGraph ← ensureExecutionGraph graph policy state
      let seeded := { state with
        executionSeed := policy.seed
        executionGraph := some executionGraph }
      emit streamed (.graphStart graph.graphId graph.entry policy.mode.text)
      let last ← loop digest graph streamed policy executionGraph graph.maxIterations
        ⟨graph.entry, seeded, 0, 0, 0⟩
      emit streamed (.graphEnd graph.graphId last.iterations)
      emit streamed (.state last.state)
      pure last.state) rest result := by
    unfold run at h
    cases hseed : policy.seed with
    | none => exact ⟨trace, by simp [seeded, hseed], by simpa only [hseed] using h⟩
    | some seed =>
        simp only [hseed] at h
        obtain ⟨-, rest, rfl, hrest⟩ := runs_asking_iff.mp h
        exact ⟨rest, by simp [seeded, hseed], hrest⟩
  obtain ⟨ref, opening, own, hopens, hown, rfl⟩ : ∃ ref opening own,
      Opens graph policy state opening ref ∧ Runs (do
        emit streamed (.graphStart graph.graphId graph.entry policy.mode.text)
        let last ← loop digest graph streamed policy ref graph.maxIterations
          (startCursor graph policy ref state)
        emit streamed (.graphEnd graph.graphId last.iterations)
        emit streamed (.state last.state)
        pure last.state) own result ∧ rest = opening ++ own := by
    unfold ensureExecutionGraph at hopened
    cases hgraph : state.executionGraph with
    | some given =>
        simp only [hgraph, pure_bind] at hopened
        exact ⟨given, [], rest, .found given hgraph, hopened, rfl⟩
    | none =>
        simp only [hgraph] at hopened
        obtain ⟨given, own, rfl, hown⟩ := runs_asking_iff.mp hopened
        exact ⟨given, [_], own, .made given hgraph, hown, rfl⟩
  obtain ⟨rounds, rfl, hrounds⟩ := runs_emit_bind_iff.mp hown
  rcases runs_bind_iff.mp hrounds with ⟨ended, looped, _, hloop, hclose, rfl⟩ | ⟨error, herror, rfl⟩
  · obtain ⟨_, rfl, hstate⟩ := runs_emit_bind_iff.mp hclose
    obtain ⟨_, rfl, hpure⟩ := runs_emit_bind_iff.mp hstate
    obtain ⟨rfl, rfl⟩ := runs_pure_iff.mp hpure
    exact ⟨ref, opening, looped, .ok ended, _, hopens, hloop, rfl, rfl,
      by simp [closing, Except.toOption]⟩
  · exact ⟨ref, opening, rounds, .error error, [], hopens, herror, rfl, rfl, by simp⟩

/-- A run is its loop, between operations of the engine. -/
theorem runs_run {state : AgentState} {trace : List Event} {result : Except RaisedError AgentState}
    (h : Runs (run digest graph streamed policy state) trace result) :
    ∃ ref first own ended, Runs (loop digest graph streamed policy ref graph.maxIterations
        (startCursor graph policy ref state)) own ended ∧ Bookkept first ∧ visits first = [] ∧
      ((∃ error, ended = .error error ∧ result = .error error ∧ trace = first ++ own) ∨
      ∃ cursor last, ended = .ok cursor ∧ result = .ok cursor.state ∧ Bookkept last ∧
        visits last = [] ∧ trace = first ++ (own ++ last)) := by
  obtain ⟨ref, opening, own, ended, last, hopens, hown, rfl, rfl, rfl⟩ := runs_run_looped h
  let first := seeded policy ++ (opening ++
    emitted streamed (.graphStart graph.graphId graph.entry policy.mode.text))
  have hfirst : Bookkept first := by simp [first, bookkept_seeded, hopens.bookkept]
  have hmarks : visits first = [] := by simp [first, visits_seeded, hopens.visits_eq]
  refine ⟨ref, first, own, ended, hown, hfirst, hmarks, ?_⟩
  cases ended with
  | error error =>
      exact Or.inl ⟨error, rfl, rfl, by simp [first, Except.toOption]⟩
  | ok cursor =>
      refine Or.inr ⟨cursor, closing graph streamed cursor, rfl, rfl, ?_, ?_, ?_⟩
      · simp [closing]
      · simp [closing]
      · simp [first, Except.toOption]

end Graph

end TripGraph
