import TripGraph.Foundation.Credits
import TripGraph.Runtime.Mirror

/-! # Sequence numbers

A run numbers its node executions one after the other, the branches of a fan-out in the
order of the fan-out. As long as no node writes on the graph of the run itself, every number
is given at most once, in runs that raise as well.
-/

namespace TripGraph

open Interaction

/-- One for a node record with this number on this graph. -/
def Op.numbered (graph : Ref) (number : Nat) : Op → Nat
  | .addNodeRecord own record => if own = graph ∧ record.sequence = number then 1 else 0
  | _ => 0

theorem Op.numbered_of_nodeRecordOn {op : Op} {graph : Ref} (number : Nat)
    (h : op.nodeRecordOn graph = none) : op.numbered graph number = 0 := by
  cases op <;> simp_all [Op.nodeRecordOn, Op.numbered]

/-- How often a trace gives a number. -/
theorem cost_numbered {graph : Ref} {number : Nat} (trace : List Event) :
    cost (S := runtimeSig) (Op.numbered graph number) trace =
      ((nodesAdded graph trace).map NodeExecutionRecord.sequence).count number := by
  induction trace with
  | nil => rfl
  | cons event rest ih =>
      obtain ⟨op, reply⟩ := event
      rw [nodesAdded_cons, List.map_append, List.count_append, ← ih]
      simp only [cost, List.map_cons, List.sum_cons, Nat.add_right_cancel_iff]
      cases op with
      | addNodeRecord own record =>
          by_cases hown : own = graph
          · simp [Op.numbered, Op.nodeRecordOn, hown, List.count_singleton]
          · simp [Op.numbered, Op.nodeRecordOn, hown]
      | _ => rfl

namespace Graph

/-- One for a number from `first` up to `last`. -/
def between (number first last : Nat) : Nat := if first ≤ number ∧ number < last then 1 else 0

/-- One for a number from `first` on. -/
def due (number first : Nat) : Nat := if first ≤ number then 1 else 0

theorem due_eq {first last : Nat} (number : Nat) (h : first ≤ last) :
    due number first = between number first last + due number last := by
  unfold due between
  split_ifs <;> omega

theorem between_add {first middle last : Nat} (number : Nat) (h : first ≤ middle)
    (h' : middle ≤ last) :
    between number first middle + between number middle last = between number first last := by
  unfold between
  split_ifs <;> omega

/-- The nodes leave the node records of this graph object alone. -/
def Leaves (executionGraph : Ref) (graph : Graph) : Prop :=
  graph.EachNode fun _ fn => ∀ state,
    Program.Asks (S := runtimeSig) (fun op : Op => op.nodeRecordOn executionGraph = none) (fn state)

variable {digest : Snapshot → String} {graph : Graph} {streamed : Bool} {policy : ExecutionPolicy}
  {executionGraph : Ref} {number : Nat}

/-- A program that writes no node record on the graph uses no number. -/
theorem affords_of_asks {ε α : Type} {p : Effect ε α}
    (h : Program.Asks (S := runtimeSig) (fun op : Op => op.nodeRecordOn executionGraph = none) p)
    (credits : Nat) :
    p.Affords (Op.numbered executionGraph number) (fun left _ => credits ≤ left) credits := by
  have hweight : Program.Respects (S := runtimeSig)
      (fun op => Op.numbered executionGraph number op = 0) (fun _ => True) p :=
    h.mono (fun _ hop => Op.numbered_of_nodeRecordOn number hop) fun _ _ => trivial
  apply (Program.affords_of_respects hweight credits).mono le_rfl
  rintro left more value ⟨rfl, -⟩ hmore
  exact hmore

theorem affords_of_quiet {ε α : Type} {p : Effect ε α} (h : Quiet p) (credits : Nat) :
    p.Affords (Op.numbered executionGraph number) (fun left _ => credits ≤ left) credits :=
  affords_of_asks (h.mono (fun _ hop => Op.nodeRecordOn_of_visit executionGraph hop)
    fun _ _ => trivial) credits

/-- A part without node records leaves the credits to the rest. -/
theorem affords_quiet_bind {ε α β : Type} {p : Effect ε α} {f : α → Effect ε β}
    {Q : Nat → β → Prop} {credits : Nat} (h : Quiet p)
    (hf : ∀ left value, credits ≤ left →
      (f value).Affords (Op.numbered executionGraph number) Q left) :
    (p >>= f).Affords (Op.numbered executionGraph number) Q credits :=
  (affords_of_quiet h credits).bind hf

/-! ## One node -/

/-- A node execution uses its own number. -/
theorem affords_executeNode (hleaves : graph.Leaves executionGraph) (nodeId : String)
    (state : AgentState) (sequence : Nat) :
    (executeNode digest graph policy executionGraph nodeId state sequence).Affords
      (Op.numbered executionGraph number) (fun _ _ => True)
      (between number sequence (sequence + 1)) := by
  cases hfn : graph.nodes nodeId with
  | none =>
      rw [executeNode_of_none hfn]
      trivial
  | some fn =>
      have hrest : ∀ looked : Option NodeExecutionRecord, Program.Affords (S := runtimeSig)
          (Op.numbered executionGraph number) (fun _ _ => True)
          (executeRecorded digest policy executionGraph nodeId fn state sequence looked)
          (between number sequence (sequence + 1)) := by
        intro looked
        have hown := asks_runOrServe (P := fun op : Op => op.nodeRecordOn executionGraph = none)
          (fun _ => rfl) rfl (hleaves nodeId fn hfn) looked (state.hash digest)
          (startNode digest nodeId state)
        refine ⟨Nat.zero_le _, fun _ => ?_⟩
        refine (affords_of_asks hown _).bind ?_
        intro left executed hleft
        refine ⟨Nat.zero_le _, fun versionId => ?_⟩
        refine ⟨?_, fun _ => trivial⟩
        -- the record carries the number of the execution
        refine le_trans ?_ hleft
        simp only [Op.numbered, nodeRecord, true_and, between]
        split_ifs <;> omega
      rw [executeNode_of_some hfn]
      split
      · exact ⟨Nat.zero_le _, fun looked => hrest looked⟩
      · exact hrest none

theorem affords_visitNode (hleaves : graph.Leaves executionGraph) (cursor : Cursor) :
    (visitNode digest graph streamed policy executionGraph cursor).Affords
      (Op.numbered executionGraph number) (fun left visited => due number visited.sequence ≤ left)
      (due number cursor.sequence) := by
  apply affords_quiet_bind (quiet_emit _)
  intro left _ hleft
  rw [due_eq number (Nat.le_succ cursor.sequence)] at hleft
  refine Program.Affords.mono (Q := fun left visited => due number visited.sequence ≤ left) ?_ hleft
    fun _ _ _ hdue hle => hdue.trans hle
  apply (affords_executeNode hleaves _ _ _).bind_add
  intro left after hleft
  apply affords_quiet_bind (quiet_emit _)
  intro left' _ hleft'
  exact hleft.trans hleft'

theorem affords_runBranch (hleaves : graph.Leaves executionGraph) (events : Ref)
    (state : AgentState) (branchId : String) (sequence : Nat) :
    (runBranch digest graph policy executionGraph events state branchId sequence).Affords
      (Op.numbered executionGraph number) (fun _ _ => True)
      (between number sequence (sequence + 1)) := by
  apply affords_quiet_bind (quiet_deepCopy state)
  intro left copied hleft
  refine ⟨Nat.zero_le _, fun _ => ?_⟩
  refine ((affords_executeNode hleaves _ _ _).mono hleft fun _ _ _ _ _ => trivial).bind ?_
  intro left updated _
  exact ⟨Nat.zero_le _, fun _ => trivial⟩

theorem affords_runJoin (hleaves : graph.Leaves executionGraph) (joinId : String)
    (merged : AgentState) (sequence : Nat) :
    (runJoin digest graph streamed policy executionGraph joinId merged sequence).Affords
      (Op.numbered executionGraph number) (fun _ _ => True)
      (between number sequence (sequence + 1)) := by
  unfold runJoin
  split
  · apply affords_quiet_bind (quiet_emit _)
    intro left _ hleft
    refine ((affords_executeNode hleaves _ _ _).mono hleft fun _ _ _ _ _ => trivial).bind ?_
    intro left joined _
    exact affords_quiet_bind (quiet_emit _) fun _ _ _ => trivial
  · trivial

/-! ## One round -/

/-- The branches of a fan-out use consecutive numbers. -/
theorem shares_branchTasks (hleaves : graph.Leaves executionGraph) {events : Ref}
    {fanOut : ParallelFanOut} {state : AgentState} {sequence : Nat} :
    Program.Shares (fun own task => Program.Affords (S := runtimeSig)
        (Op.numbered executionGraph number) (fun _ _ => True) task own)
      (between number sequence (sequence + fanOut.branches.length))
      (branchTasks digest graph policy executionGraph events fanOut state sequence) := by
  have hall : ∀ (branches : List String) (start : Nat), Program.Shares
      (fun own task => Program.Affords (S := runtimeSig) (Op.numbered executionGraph number)
        (fun _ _ => True) task own)
      (between number (sequence + start) (sequence + start + branches.length))
      ((branches.zipIdx start).map fun entry => runBranch digest graph policy executionGraph events
        state entry.1 (sequence + entry.2)) := by
    intro branches
    induction branches with
    | nil => exact fun _ => ⟨[], .nil, Nat.zero_le _⟩
    | cons branch rest ih =>
        intro start
        rw [List.zipIdx_cons, List.map_cons]
        refine (Program.Shares.cons (affords_runBranch hleaves events state branch
          (sequence + start)) (ih (start + 1))).mono ?_
        rw [← Nat.add_assoc, between_add number (by omega) (by omega)]
        refine le_of_eq (congrArg _ ?_)
        simp only [List.length_cons]
        omega
  exact hall fanOut.branches 0

theorem affords_branches (hleaves : graph.Leaves executionGraph) (order : List Nat) (events : Ref)
    (fanOut : ParallelFanOut) (state : AgentState) (sequence : Nat) :
    (Program.gather Op.suspends order
      (branchTasks digest graph policy executionGraph events fanOut state sequence)).Affords
      (Op.numbered executionGraph number) (fun _ _ => True)
      (between number sequence (sequence + fanOut.branches.length)) :=
  (Program.affords_gather (shares_branchTasks hleaves)).mono le_rfl fun _ _ _ _ _ => trivial

/-- What is left of a fan-out once its branches have run: the merge, its version and the join. -/
theorem affords_afterBranches (hleaves : graph.Leaves executionGraph) (fanOut : ParallelFanOut)
    (cursor : Cursor) (branchStates : List AgentState) (branchEvents : List GraphEvent)
    {credits : Nat} (hcredits : due number (cursor.sequence + fanOut.branches.length) ≤ credits) :
    Program.Affords (S := runtimeSig) (Op.numbered executionGraph number)
      (fun left (done : Cursor) => due number done.sequence ≤ left) (do
        emitAll streamed branchEvents
        let merged ← mergeStates graph.mergeStrategy (fanOutState fanOut cursor.state) branchStates
        let committed ← commit digest merged s!"{fanOut.joinNode}:merge"
        let joined ← runJoin digest graph streamed policy executionGraph fanOut.joinNode committed
          (cursor.sequence + fanOut.branches.length)
        let done := { cursor with
          state := joined
          sequence := cursor.sequence + (fanOut.branches.length + 1)
          edgeSequence := cursor.edgeSequence + fanOut.branches.length + fanOut.branches.length }
        emit streamed (.parallelDone done.state done.sequence done.edgeSequence)
        pure done) credits := by
  apply affords_quiet_bind (quiet_emitAll _)
  intro left _ hleft
  apply affords_quiet_bind (respects_mergeStates (fun _ _ => rfl) _ _ _)
  intro left' merged hleft'
  refine ⟨Nat.zero_le _, fun versionId => ?_⟩
  have hdue := (hcredits.trans hleft).trans hleft'
  rw [due_eq number (Nat.le_succ _)] at hdue
  refine Program.Affords.mono (Q := fun left done => due number done.sequence ≤ left) ?_ hdue
    fun _ _ _ hdue hle => hdue.trans hle
  apply (affords_runJoin hleaves _ _ _).bind_add
  intro left joined hjoined
  apply affords_quiet_bind (quiet_emit _)
  intro left' _ hle
  exact hjoined.trans hle

theorem affords_runParallelFanout (hleaves : graph.Leaves executionGraph)
    (fanOut : ParallelFanOut) (cursor : Cursor) :
    (runParallelFanout digest graph streamed policy executionGraph fanOut cursor).Affords
      (Op.numbered executionGraph number) (fun left done => due number done.sequence ≤ left)
      (due number cursor.sequence) := by
  unfold runParallelFanout
  apply affords_quiet_bind (quiet_emit _)
  intro left _ hleft
  refine ⟨Nat.zero_le _, fun events => ?_⟩
  apply affords_quiet_bind (quiet_recordEdges _)
  intro left' _ hleft'
  refine ⟨Nat.zero_le _, fun order => ?_⟩
  have hdue := hleft.trans hleft'
  rw [due_eq number (Nat.le_add_right cursor.sequence fanOut.branches.length)] at hdue
  refine Program.Affords.mono (Q := fun left done => due number done.sequence ≤ left) ?_ hdue
    fun _ _ _ hdue hle => hdue.trans hle
  apply (affords_branches hleaves order events fanOut _ cursor.sequence).bind_add
  intro left branchStates hbranchStates
  apply affords_quiet_bind (quiet_recordEdges _)
  intro left' _ hle
  refine ⟨Nat.zero_le _, fun branchEvents => ?_⟩
  exact affords_afterBranches hleaves fanOut cursor branchStates branchEvents
    (hbranchStates.trans hle)

/-- A round uses the numbers from its first one up to the first one of the next round. -/
theorem affords_round (hleaves : graph.Leaves executionGraph) (cursor : Cursor) :
    (round digest graph streamed policy executionGraph cursor).Affords
      (Op.numbered executionGraph number) (fun left next => due number next.sequence ≤ left)
      (due number cursor.sequence) := by
  unfold Graph.round
  split
  next fanOut _ =>
    have hfanOut : ∀ (visited : Cursor) (credits : Nat), due number visited.sequence ≤ credits →
        Program.Affords (S := runtimeSig) (Op.numbered executionGraph number)
          (fun left (next : Cursor) => due number next.sequence ≤ left) (do
            let done ← runParallelFanout digest graph streamed policy executionGraph fanOut visited
            pure { done with
              current := graph.afterFanOut fanOut done.state
              iterations := done.iterations + 1 }) credits := by
      intro visited credits hcredits
      refine Program.Affords.mono (Q := fun left next => due number next.sequence ≤ left) ?_
        hcredits fun _ _ _ hdue hle => hdue.trans hle
      exact (affords_runParallelFanout hleaves fanOut visited).bind fun _ _ hdone => hdone
    unfold fanOutRound
    dsimp only
    split
    · exact (affords_visitNode hleaves cursor).bind fun left visited hleft =>
        hfanOut visited left hleft
    · exact hfanOut cursor _ le_rfl
  next =>
    split
    next =>
      apply (affords_visitNode hleaves cursor).bind
      intro left visited hleft
      refine ⟨Nat.zero_le _, fun _ => ?_⟩
      apply affords_quiet_bind (quiet_emit _)
      intro left' _ hleft'
      exact hleft.trans hleft'
    next => trivial

/-! ## A whole run -/

theorem affords_loop (hleaves : graph.Leaves executionGraph) (budget : Nat) (cursor : Cursor) :
    (loop digest graph streamed policy executionGraph budget cursor).Affords
      (Op.numbered executionGraph number) (fun _ _ => True) (due number cursor.sequence) := by
  induction budget generalizing cursor with
  | zero => trivial
  | succ budget ih =>
      rw [Graph.loop]
      split
      · trivial
      have hcheck : Quiet (ε := RaisedError)
          (Program.ofExcept (S := runtimeSig) (graph.stops cursor.state)) := by simp
      apply affords_quiet_bind hcheck
      intro left stop hleft
      split
      · exact affords_quiet_bind (quiet_emit _) fun _ _ _ => trivial
      · refine Program.Affords.bind
          (Q := fun left (next : Cursor) => due number next.sequence ≤ left)
          ?_ fun left next hnext => (ih next).mono hnext fun _ _ _ _ _ => trivial
        exact (affords_round hleaves cursor).mono hleft fun _ _ _ hdue hle => hdue.trans hle

/-- On its graph object a run gives no number twice, whether it returns or raises. -/
theorem nodup_nodesAdded {state : AgentState} {trace : List Event}
    {result : Except RaisedError AgentState} {objects last : SharedObjects}
    (hleaves : graph.Leaves (initialRef objects state))
    (hlive : ∀ given, state.executionGraph = some given → given < objects.graphs.length)
    (hrun : Runs (run digest graph streamed policy state) trace result)
    (hfollows : Follows SharedObjects.Step objects trace last) :
    ∃ records : List NodeExecutionRecord, (records.map NodeExecutionRecord.sequence).Nodup ∧
      (last.graph (initialRef objects state)).nodeRecords =
        (initialModel graph policy objects state).nodeRecords ++ records := by
  obtain ⟨ref, opening, own, ended, closed, hopens, hloop, -, rfl, rfl⟩ := runs_run_looped hrun
  obtain ⟨middle, hseeded, hrest⟩ := Follows.append_iff.mp hfollows
  obtain rfl := follows_seeded hseeded
  obtain ⟨opened, hopening, hrest'⟩ := Follows.append_iff.mp hrest
  obtain ⟨rfl, hopened, hmodel⟩ := hopens.initialModel hlive hopening
  obtain ⟨-, hgraph⟩ := SharedObjects.graph_of_follows hrest' hopened
  have hclosed : nodesAdded (initialRef middle state)
      (ended.toOption.elim [] (closing graph streamed)) = [] := by
    cases ended with
    | error error => rfl
    | ok ended => simp [Except.toOption, closing]
  refine ⟨nodesAdded (initialRef middle state) own, ?_, ?_⟩
  · apply List.nodup_iff_count_le_one.mpr
    intro number
    rw [← cost_numbered]
    apply ((affords_loop hleaves _ _).cost_le hloop).trans
    unfold due
    split_ifs <;> omega
  · rw [hgraph, hmodel]
    simp [SharedObjects.extend, hclosed]

end Graph

end TripGraph
