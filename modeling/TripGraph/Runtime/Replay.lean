import TripGraph.Runtime.Digest
import TripGraph.Runtime.Mirror

/-! # Replaying a recording

A replay looks up each node in the recording and serves it if the hash of its input is the
recorded one. The hashed content holds the id of the last version, and every node execution
commits a version under a fresh id; the plan state is hashed, too, but not restored.
-/

namespace TripGraph

open Interaction

/-! ## Hashed content -/

/-- The content a state is hashed by: the traces are left out. -/
def Snapshot.hashed (snap : Snapshot) : Snapshot :=
  { snap with graphTrace := [], executionTrace := [] }

namespace AgentState

/-- The content the state is hashed by. -/
def hashed (state : AgentState) : Snapshot := state.snapshot.hashed

/-- A state that is taken over from a snapshot is hashed by it, but for the plan state. -/
theorem hashed_applySnapshot (state : AgentState) (snap : Snapshot) (graphCopy : Option Ref) :
    (state.applySnapshot snap graphCopy).hashed =
      { snap.hashed with planState := state.hashed.planState } := by
  cases hplan : snap.plan <;> simp [hashed, Snapshot.hashed, snapshot, applySnapshot, plan, hplan]

end AgentState

/-! ## The replay cursor -/

namespace SharedObjects

variable {objects next last : SharedObjects}

/-- The records to replay do not change. -/
theorem replayRecords_step {event : Event} (h : Step objects event next) :
    next.replayRecords = objects.replayRecords := by
  obtain ⟨op, reply⟩ := event
  cases op with
  | syncPlanGraph state =>
      obtain ⟨-, rfl⟩ := h
      unfold syncPlanGraph
      split <;> rfl
  | updatePlanNode stepId status =>
      obtain ⟨-, rfl⟩ := h
      unfold updatePlanNode
      split
      · rfl
      · split <;> rfl
  | nextReplayRecord =>
      obtain ⟨-, rfl⟩ := h
      unfold SharedObjects.nextReplayRecord
      split <;> rfl
  | _ =>
      obtain ⟨-, rfl⟩ := h
      rfl

/-- A record that is found belongs to the recording and to the node it is looked up for. -/
theorem mem_replayRecords_of_peeked {trace : List Event} (h : Follows Step objects trace last)
    {nodeId : String} {record : NodeExecutionRecord}
    (hpeek : (⟨.peekReplayRecord nodeId, some record⟩ : Event) ∈ trace) :
    record ∈ objects.replayRecords ∧ record.nodeId = nodeId := by
  induction h with
  | nil state => cases hpeek
  | @cons first middle last event trace head tail ih =>
      rcases List.mem_cons.mp hpeek with rfl | hrest
      · obtain ⟨hreply, -⟩ := head
        have hfound := hreply.symm
        exact ⟨List.drop_subset _ _ (List.mem_of_find?_eq_some hfound),
          by simpa using List.find?_some hfound⟩
      · rw [← replayRecords_step head]
        exact ih hrest

end SharedObjects

namespace Graph

variable {digest : Snapshot → String} {graph : Graph} {streamed : Bool} {policy : ExecutionPolicy}
  {executionGraph : Ref}

/-! ## What a replay should do -/

namespace Execution

/-- The node is served from a record of the recording, and its output has the hashed content
of the recorded output. -/
def Faithful (digest : Snapshot → String) (recording : List NodeExecutionRecord)
    (execution : Execution) : Prop :=
  execution.Served digest ∧ execution.replayed = true ∧
    ∃ record ∈ recording, ∃ after, execution.looked = some record ∧
      record.nodeId = execution.nodeId ∧ record.outputStateSnapshot = some after ∧
      execution.output.hashed = after.hashed

/-- The record that is found was made at the version the state stands at, and its output has
the plan state of the state. -/
def Restorable (execution : Execution) : Prop :=
  ∃ record before after, execution.looked = some record ∧
    record.inputStateSnapshot = some before ∧ record.outputStateSnapshot = some after ∧
    before.stateVersionId = execution.input.stateVersionId ∧
    after.planState = execution.input.snapshot.planState

end Execution

/-! ## The versions a run stands at -/

/-- The state stands at a version that has been committed under a drawn id. -/
def Committed (drawn : String → Prop) (state : AgentState) : Prop :=
  ∃ id, drawn id ∧ state.hashed.stateVersionId = some id

/-- The state has the hashed content the run starts with, or stands at a committed version. -/
def Stands (base : Snapshot) (drawn : String → Prop) (state : AgentState) : Prop :=
  state.hashed = base ∨ Committed drawn state

section Standing

variable {base : Snapshot} {drawn : String → Prop}

theorem anchored_committed : Anchored digest drawn (Committed drawn) where
  copied _ _ h := h
  logged _ _ _ _ h := h
  committed _ _ versionId h := ⟨versionId, h, rfl⟩

theorem anchored_stands : Anchored digest drawn (Stands base drawn) where
  copied _ _ h := h
  logged _ _ _ _ h := h
  committed _ _ versionId h := Or.inr ⟨versionId, h, rfl⟩

variable (hinjective : Function.Injective digest)

include hinjective

theorem hashed_of_hash {first second : AgentState} (h : first.hash digest = second.hash digest) :
    first.hashed = second.hashed := hinjective h

end Standing

/-- What is anchored and read off the hashed content holds of whatever a journey executes, the
first round apart, and of that too if the journey starts with it. -/
theorem Journey.anchored {drawn : String → Prop} {Q : AgentState → Prop} (hflat : graph.Flat)
    (hanchored : Anchored digest drawn Q)
    (hhash : ∀ {first second : AgentState}, first.hash digest = second.hash digest →
      Q first → Q second)
    {start cursor : Cursor} {trace : List Event} {moves : List Move}
    (h : Journey digest graph streamed policy executionGraph start trace moves cursor)
    (hdrawn : Draws drawn trace) :
    (Q start.state ∨ moves ≠ [] → Q cursor.state) ∧
      (Q start.state → ∀ execution ∈ moves.flatMap Move.executions, Q execution.input) ∧
      ∀ execution ∈ moves.tail.flatMap Move.executions, Q execution.input := by
  induction h with
  | start => exact ⟨fun h => h.resolve_right fun hne => hne rfl, by simp, by simp⟩
  | @next trace own moves cursor after executions before current goesOn round accounts ih =>
      obtain ⟨hstate, hinputs, hlater⟩ := ih (hdrawn.of_subset (List.subset_append_left _ _))
      have hown := hdrawn.of_subset (List.subset_append_right trace own)
      -- the account that is known has the same records as one on states with `Q`
      have hround : Q cursor.state → ∀ execution ∈ executions, Q execution.input := by
        intro hcursor execution hmem
        obtain ⟨others, haccounts, hothers⟩ := hanchored.round hcursor hown round
        have hperm := (accounts.nodesAdded hflat).symm.trans (haccounts.nodesAdded hflat)
        obtain ⟨other, hother, hrecord⟩ := List.mem_map.mp
          (hperm.subset (List.mem_map_of_mem hmem))
        apply hhash _ (hothers other hother)
        exact congrArg NodeExecutionRecord.inputStateHash hrecord
      refine ⟨fun _ => hanchored.round_state hown round, ?_, ?_⟩
      · intro hstart execution hmem
        rw [List.flatMap_append] at hmem
        rcases List.mem_append.mp hmem with hmem | hmem
        · exact hinputs hstart execution hmem
        · apply hround (hstate (Or.inl hstart))
          simpa using hmem
      · intro execution hmem
        cases moves with
        | nil => simp at hmem
        | cons first rest =>
            rw [List.cons_append, List.tail_cons, List.flatMap_append] at hmem
            rcases List.mem_append.mp hmem with hmem | hmem
            · exact hlater execution hmem
            · apply hround (hstate (Or.inr (by simp)))
              simpa using hmem

/-! ## What is executed -/

/-- Every execution of a journey is valid, and what it asks is asked on the journey. -/
theorem Journey.executed {start cursor : Cursor} {trace : List Event} {moves : List Move}
    (h : Journey digest graph streamed policy executionGraph start trace moves cursor)
    {execution : Execution} (hmem : execution ∈ moves.flatMap Move.executions) :
    execution.Valid digest graph policy ∧
      execution.trace digest policy executionGraph ⊆ trace := by
  induction h with
  | start => simp at hmem
  | @next _ _ _ _ _ executions _ _ _ _ accounts ih =>
      rw [List.flatMap_append] at hmem
      rcases List.mem_append.mp hmem with hmem | hmem
      · obtain ⟨hvalid, hsub⟩ := ih hmem
        exact ⟨hvalid, List.subset_append_of_subset_left _ hsub⟩
      · have hlast : execution ∈ executions := by simpa using hmem
        obtain ⟨hvalid, rest, -, hperm⟩ := accounts
        refine ⟨hvalid execution hlast, ?_⟩
        apply List.subset_append_of_subset_right
        intro event hevent
        apply hperm.symm.subset
        exact List.mem_append_left _ (List.mem_flatMap.mpr ⟨execution, hlast, hevent⟩)

/-- The hashed content a run starts with. -/
def startContent (policy : ExecutionPolicy) (state : AgentState) : Snapshot :=
  { state.hashed with executionSeed := policy.seed }

section Told

variable {state : AgentState} {trace : List Event} {moves : List Move}
  {result : Except RaisedError AgentState}

/-- What a run executes it executes on its first content or at a version it has committed;
after the first round, at a version it has committed. -/
theorem Told.stands (hinjective : Function.Injective digest) (hflat : graph.Flat)
    {drawn : String → Prop} (h : Told digest graph streamed policy state trace moves result)
    (hdrawn : Draws drawn trace) :
    (∀ execution ∈ moves.flatMap Move.executions,
        Stands (startContent policy state) drawn execution.input) ∧
      ∀ execution ∈ moves.tail.flatMap Move.executions, Committed drawn execution.input := by
  obtain ⟨ref, opening, own, last, reached, ended, -, hjourney, -, -, rfl⟩ := h
  have hown : Draws drawn own := hdrawn.of_subset fun event hmem => by simp [hmem]
  constructor
  · refine (hjourney.anchored hflat anchored_stands ?_ hown).2.1 (Or.inl rfl)
    intro first second hhash
    rw [Stands, Stands, Committed, Committed, hashed_of_hash hinjective hhash]
    exact id
  · refine (hjourney.anchored hflat anchored_committed ?_ hown).2.2
    intro first second hhash
    rw [Committed, Committed, hashed_of_hash hinjective hhash]
    exact id

theorem Told.valid (h : Told digest graph streamed policy state trace moves result)
    {execution : Execution} (hmem : execution ∈ moves.flatMap Move.executions) :
    execution.Valid digest graph policy := by
  obtain ⟨ref, opening, own, last, reached, ended, -, hjourney, -, -, -⟩ := h
  exact (hjourney.executed hmem).1

/-- In a replay every execution looks up its record. -/
theorem Told.looked (hmode : policy.mode = .replay)
    (h : Told digest graph streamed policy state trace moves result) {execution : Execution}
    (hmem : execution ∈ moves.flatMap Move.executions) :
    (⟨.peekReplayRecord execution.nodeId, execution.looked⟩ : Event) ∈ trace := by
  obtain ⟨ref, opening, own, last, reached, ended, -, hjourney, -, -, rfl⟩ := h
  have hlooked : (⟨.peekReplayRecord execution.nodeId, execution.looked⟩ : Event) ∈
      execution.trace digest policy ref := by
    simp [Execution.trace, lookedUp, hmode]
  have hown := (hjourney.executed hmem).2 hlooked
  simp [hown]

/-- The reference of the execution graph is the next free one, unless the state has a graph. -/
theorem Opens.ref_eq {opening : List Event} {ref : Ref} (h : Opens graph policy state opening ref)
    {objects next : SharedObjects} (hfollows : Follows SharedObjects.Step objects opening next) :
    ref = initialRef objects state := by
  cases h with
  | found ref given => rw [initialRef, given, Option.getD_some]
  | made ref missing =>
      obtain ⟨middle, ⟨href, -⟩, -⟩ := Follows.cons_iff.mp hfollows
      rw [initialRef, missing, Option.getD_none]
      exact href

/-- The records a run adds to its execution graph are those of what it executes. -/
theorem Told.nodesAdded (hflat : graph.Flat) {final : AgentState}
    (h : Told digest graph streamed policy state trace moves (.ok final))
    {objects last : SharedObjects} (hfollows : Follows SharedObjects.Step objects trace last) :
    (nodesAdded (initialRef objects state) trace).Perm
      ((moves.flatMap Move.executions).map (Execution.record digest policy)) := by
  obtain ⟨ref, opening, own, tail, reached, ended, hopens, hjourney, hends, rfl, rfl⟩ := h.account
  obtain ⟨seededObjects, hseeded, hrest⟩ := Follows.append_iff.mp hfollows
  have hsame := follows_seeded hseeded
  subst hsame
  obtain ⟨opened, hopening, -⟩ := Follows.append_iff.mp hrest
  have href := hopens.ref_eq hopening
  subst href
  have hbefore : TripGraph.nodesAdded (initialRef seededObjects state)
      (seeded policy ++ opening) = [] := by
    unfold seeded
    cases hopens <;> split <;> rfl
  obtain ⟨-, hlast, -⟩ := loopEnds_records hends
  rw [← List.append_assoc, nodesAdded_append, hbefore]
  simpa [hlast, closing] using hjourney.nodesAdded hflat

end Told

/-! ## Serving and restoring -/

/-- What is served has the hashed content of the recorded output, but for the plan state. -/
theorem Execution.Valid.hashed_output {execution : Execution}
    (hvalid : execution.Valid digest graph policy) {after : Snapshot}
    (hserved : servedSnapshot execution.looked (execution.input.hash digest) = some after) :
    execution.replayed = true ∧ execution.output.hashed =
      { after.hashed with planState := execution.input.hashed.planState } := by
  obtain ⟨fn, -, -, hown⟩ := hvalid
  simp only [runOrServe, hserved] at hown
  obtain ⟨copied, _, _, -, hlast, -⟩ := runs_bind_ok_iff.mp hown
  obtain ⟨-, _, -, hpure⟩ := runs_asking_iff.mp hlast
  obtain ⟨houtput, hreplayed⟩ := Prod.mk.inj (Except.ok.inj (runs_pure_iff.mp hpure).2)
  refine ⟨hreplayed, ?_⟩
  rw [houtput, AgentState.hashed_applySnapshot]
  rfl

/-- States of two runs that stand at one version still have the content both start with. -/
theorem Stands.eq_base {base : Snapshot} {recorded drawn : String → Prop}
    {first second : AgentState} (hfirst : Stands base recorded first)
    (hsecond : Stands base drawn second)
    (hrecorded : ∀ id, recorded id → base.stateVersionId ≠ some id)
    (hfresh : ∀ id, drawn id → ¬ recorded id ∧ base.stateVersionId ≠ some id)
    (hversion : first.hashed.stateVersionId = second.hashed.stateVersionId) :
    first.hashed = base ∧ second.hashed = base := by
  rcases hfirst with hfirst | ⟨id, hid, hcommitted⟩
  · rcases hsecond with hsecond | ⟨id, hid, hcommitted⟩
    · exact ⟨hfirst, hsecond⟩
    · rw [hfirst, hcommitted] at hversion
      exact absurd hversion (hfresh id hid).2
  · rcases hsecond with hsecond | ⟨other, hother, hcommitted'⟩
    · rw [hsecond, hcommitted] at hversion
      exact absurd hversion.symm (hrecorded id hid)
    · rw [hcommitted, hcommitted'] at hversion
      cases hversion
      exact absurd hid (hfresh id hother).1

/-- The ids that two runs from this state draw are fresh. -/
structure FreshIds (state : AgentState) (recorded replayed : List Event) : Prop where
  ofRecorded : ∀ id, (⟨.uuid4, id⟩ : Event) ∈ recorded → state.stateVersionId ≠ some id
  ofReplayed : ∀ id, (⟨.uuid4, id⟩ : Event) ∈ replayed →
    ¬ (⟨.uuid4, id⟩ : Event) ∈ recorded ∧ state.stateVersionId ≠ some id

/-- The moves of a replay over the records of the executions of an earlier run, both from the
same content. -/
structure Replays (digest : Snapshot → String) (graph : Graph) (recorder replayer : ExecutionPolicy)
    (base : Snapshot) (recorded drawn : String → Prop) (executions : List Execution)
    (recording : List NodeExecutionRecord) (moves : List Move) : Prop where
  captured : recorder.captureStateSnapshots = true
  records : ∀ record ∈ recording, ∃ made ∈ executions, made.record digest recorder = record
  made : ∀ made ∈ executions, made.Valid digest graph recorder ∧ Stands base recorded made.input
  valid : ∀ execution ∈ moves.flatMap Move.executions, execution.Valid digest graph replayer
  found : ∀ execution ∈ moves.flatMap Move.executions, ∀ record,
    execution.looked = some record → record ∈ recording ∧ record.nodeId = execution.nodeId
  stands : ∀ execution ∈ moves.flatMap Move.executions, Stands base drawn execution.input
  later : ∀ execution ∈ moves.tail.flatMap Move.executions, Committed drawn execution.input
  ofRecorded : ∀ id, recorded id → base.stateVersionId ≠ some id
  ofReplayed : ∀ id, drawn id → ¬ recorded id ∧ base.stateVersionId ≠ some id

namespace Replays

variable {recorder replayer : ExecutionPolicy} {base : Snapshot} {recorded drawn : String → Prop}
  {executions : List Execution} {recording : List NodeExecutionRecord} {moves : List Move}
  {execution : Execution}
  (h : Replays digest graph recorder replayer base recorded drawn executions recording moves)
  (hmem : execution ∈ moves.flatMap Move.executions)

include h hmem

theorem restorable_of_faithful (hinjective : Function.Injective digest)
    (hfaithful : execution.Faithful digest recording) : execution.Restorable := by
  obtain ⟨hserved, -, record, -, after, hlooked, -, hafter, houtput⟩ := hfaithful
  obtain ⟨made, -, rfl⟩ := h.records record (h.found execution hmem record hlooked).1
  obtain ⟨snap, hsnap⟩ := Option.isSome_iff_exists.mp hserved
  have hhash : made.input.hash digest = execution.input.hash digest := by
    by_contra hne
    have hnone : servedSnapshot (some (made.record digest recorder))
        (execution.input.hash digest) = none := if_neg hne
    rw [hlooked, hnone] at hsnap
    cases hsnap
  refine ⟨_, made.input.snapshot, after, hlooked, if_pos h.captured, hafter, ?_, ?_⟩
  · exact congrArg Snapshot.stateVersionId (hashed_of_hash hinjective hhash)
  · obtain ⟨-, hown⟩ := (h.valid execution hmem).hashed_output hsnap
    have hplan := congrArg Snapshot.planState (houtput.symm.trans hown)
    exact hplan

/-- A restorable execution finds a record that was made on the content it is given. -/
theorem exists_made (hrestorable : execution.Restorable) :
    ∃ made ∈ executions, execution.looked = some (made.record digest recorder) ∧
      made.output.snapshot.planState = execution.input.snapshot.planState ∧
      made.input.hashed = base ∧ execution.input.hashed = base := by
  obtain ⟨record, before, after, hlooked, hbefore, hafter, hversion, hplan⟩ := hrestorable
  obtain ⟨made, hmade, rfl⟩ := h.records record (h.found execution hmem record hlooked).1
  have hinput : (made.record digest recorder).inputStateSnapshot = some made.input.snapshot :=
    if_pos h.captured
  have houtput : (made.record digest recorder).outputStateSnapshot = some made.output.snapshot :=
    if_pos h.captured
  cases hbefore.symm.trans hinput
  cases hafter.symm.trans houtput
  exact ⟨made, hmade, hlooked, hplan, (h.made made hmade).2.eq_base (h.stands execution hmem)
    h.ofRecorded h.ofReplayed hversion⟩

theorem faithful_of_restorable (hrestorable : execution.Restorable) :
    execution.Faithful digest recording := by
  obtain ⟨made, -, hlooked, hplan, hmade, hinput⟩ := h.exists_made hmem hrestorable
  have hhash : made.input.hash digest = execution.input.hash digest :=
    congrArg digest (hmade.trans hinput.symm)
  have hafter : (made.record digest recorder).outputStateSnapshot = some made.output.snapshot :=
    if_pos h.captured
  have hserved : servedSnapshot execution.looked (execution.input.hash digest) =
      some made.output.snapshot := by
    rw [hlooked, servedSnapshot]
    exact (if_pos hhash).trans hafter
  obtain ⟨hreplayed, houtput⟩ := (h.valid execution hmem).hashed_output hserved
  obtain ⟨hrecord, hnode⟩ := h.found execution hmem _ hlooked
  refine ⟨?_, hreplayed, _, hrecord, _, hlooked, hnode, hafter, ?_⟩
  · rw [Execution.Served, hserved]
    rfl
  · have hrestored : execution.input.hashed.planState =
        made.output.snapshot.hashed.planState := hplan.symm
    rw [houtput, hrestored]

/-- Nothing is restorable once a version has been committed. -/
theorem not_restorable_of_committed (hcommitted : Committed drawn execution.input) :
    ¬ execution.Restorable := by
  intro hrestorable
  obtain ⟨-, -, -, -, -, hinput⟩ := h.exists_made hmem hrestorable
  obtain ⟨id, hid, hversion⟩ := hcommitted
  rw [hinput] at hversion
  exact (h.ofReplayed id hid).2 hversion

end Replays

/-! ## Whole replays -/

section Whole

variable {recorder replayer : ExecutionPolicy} {state again final : AgentState}
  {streamed' : Bool} {recorded replayed : List Event} {result : Except RaisedError AgentState}
  {objects last objects' last' : SharedObjects}

/-- A replay from an equal state over the records of an earlier run. -/
theorem exists_replays (hinjective : Function.Injective digest) (hflat : graph.Flat)
    (hcapture : recorder.captureStateSnapshots = true) (hmode : replayer.mode = .replay)
    (hseed : replayer.seed = recorder.seed) (hagain : again.hashed = state.hashed)
    (hrecorded : Runs (run digest graph streamed recorder state) recorded (.ok final))
    (hfollows : Follows SharedObjects.Step objects recorded last)
    (hfollows' : Follows SharedObjects.Step objects' replayed last')
    (hrecording : objects'.replayRecords = nodesAdded (initialRef objects state) recorded)
    (hfresh : FreshIds state recorded replayed) {moves : List Move}
    (htold : Told digest graph streamed' replayer again replayed moves result) :
    ∃ executions, Replays digest graph recorder replayer (startContent recorder state)
      (fun id => (⟨.uuid4, id⟩ : Event) ∈ recorded) (fun id => (⟨.uuid4, id⟩ : Event) ∈ replayed)
      executions objects'.replayRecords moves := by
  obtain ⟨recordedMoves, hrecordedTold⟩ := exists_told hrecorded
  have hbase : startContent replayer again = startContent recorder state := by
    rw [startContent, startContent, hagain, hseed]
  have hdrawn : Draws (fun id => (⟨.uuid4, id⟩ : Event) ∈ replayed) replayed := fun _ h => h
  obtain ⟨hstands, hlater⟩ := htold.stands hinjective hflat hdrawn
  rw [hbase] at hstands
  refine ⟨recordedMoves.flatMap Move.executions, hcapture, ?_, ?_, ?_, ?_, hstands, hlater,
    hfresh.ofRecorded, hfresh.ofReplayed⟩
  · intro record hmem
    rw [hrecording] at hmem
    exact List.mem_map.mp ((hrecordedTold.nodesAdded hflat hfollows).subset hmem)
  · intro made hmem
    exact ⟨hrecordedTold.valid hmem,
      (hrecordedTold.stands hinjective hflat fun _ h => h).1 made hmem⟩
  · exact fun execution hmem => htold.valid hmem
  · intro execution hmem record hlooked
    have hpeeked := htold.looked hmode hmem
    rw [hlooked] at hpeeked
    exact SharedObjects.mem_replayRecords_of_peeked hfollows' hpeeked

/-- A replay of a flat graph from an equal state over the records of an earlier run is faithful
exactly when each execution is restorable; none after the first round is. -/
theorem replay_faithful_iff (hinjective : Function.Injective digest) (hflat : graph.Flat)
    (hcapture : recorder.captureStateSnapshots = true) (hmode : replayer.mode = .replay)
    (hseed : replayer.seed = recorder.seed) (hagain : again.hashed = state.hashed)
    (hrecorded : Runs (run digest graph streamed recorder state) recorded (.ok final))
    (hreplayed : Runs (run digest graph streamed' replayer again) replayed result)
    (hfollows : Follows SharedObjects.Step objects recorded last)
    (hfollows' : Follows SharedObjects.Step objects' replayed last')
    (hrecording : objects'.replayRecords = nodesAdded (initialRef objects state) recorded)
    (hfresh : FreshIds state recorded replayed) :
    (∃ moves, Told digest graph streamed' replayer again replayed moves result) ∧
      ∀ moves, Told digest graph streamed' replayer again replayed moves result →
        ((∀ execution ∈ moves.flatMap Move.executions,
            execution.Faithful digest objects'.replayRecords) ↔
          ∀ execution ∈ moves.flatMap Move.executions, execution.Restorable) ∧
        ((∀ execution ∈ moves.flatMap Move.executions,
            execution.Faithful digest objects'.replayRecords) →
          ∀ move ∈ moves.tail, move.executions = []) := by
  refine ⟨exists_told hreplayed, ?_⟩
  intro moves htold
  obtain ⟨executions, h⟩ := exists_replays hinjective hflat hcapture hmode hseed hagain hrecorded
    hfollows hfollows' hrecording hfresh htold
  have hiff : ∀ execution ∈ moves.flatMap Move.executions,
      (execution.Faithful digest objects'.replayRecords ↔ execution.Restorable) :=
    fun execution hmem => ⟨h.restorable_of_faithful hmem hinjective, h.faithful_of_restorable hmem⟩
  refine ⟨forall₂_congr hiff, ?_⟩
  intro hfaithful move hmove
  apply List.eq_nil_iff_forall_not_mem.mpr
  intro execution hmem
  have hall : execution ∈ moves.flatMap Move.executions :=
    List.mem_flatMap.mpr ⟨move, List.mem_of_mem_tail hmove, hmem⟩
  apply h.not_restorable_of_committed hall
  · exact h.later execution (List.mem_flatMap.mpr ⟨move, hmove, hmem⟩)
  · exact (hiff execution hall).mp (hfaithful execution hall)

end Whole

/-! ## A node that plans -/

/-- Nothing remarkable happens, and every id is a new one. -/
def suppliedReply : (op : Op) → Nat → op.Reply × Nat
  | .uuid4, count => (unary count, count + 1)
  | op, count => (op.plainReply, count)

/-- Only an id that is drawn uses up the supply. -/
theorem supply_of_ne {op : Op} (hop : op ≠ .uuid4) (state : SharedObjects × Nat) :
    ((sharedHandler suppliedReply).answer op state).2.2 = state.2 := by
  simp only [sharedHandler]
  split
  · rfl
  · cases op <;> first | rfl | exact absurd rfl hop

/-- The ids that are drawn are new and are used up. -/
theorem drawn_supplied {ε α : Type} (p : Effect ε α) (state : SharedObjects × Nat) :
    state.2 ≤ (p.exec (sharedHandler suppliedReply) state).state.2 ∧
      ∀ id, (⟨.uuid4, id⟩ : Event) ∈ (p.exec (sharedHandler suppliedReply) state).trace →
        ∃ index, state.2 ≤ index ∧ index < (p.exec (sharedHandler suppliedReply) state).state.2 ∧
          id = unary index := by
  induction p generalizing state with
  | done value => exact ⟨le_rfl, fun _ h => by cases h⟩
  | fail error => exact ⟨le_rfl, fun _ h => by cases h⟩
  | ask op next ih =>
      obtain ⟨hcount, hids⟩ := ih ((sharedHandler suppliedReply).answer op state).1
        ((sharedHandler suppliedReply).answer op state).2
      by_cases hop : op = .uuid4
      · subst hop
        refine ⟨(Nat.le_succ _).trans hcount, ?_⟩
        intro id hmem
        rcases List.mem_cons.mp hmem with heq | hmem
        · cases heq
          exact ⟨state.2, le_rfl, hcount, rfl⟩
        · obtain ⟨index, hindex, hlast, heq⟩ := hids id hmem
          exact ⟨index, (Nat.le_succ _).trans hindex, hlast, heq⟩
      · rw [supply_of_ne hop] at hcount hids
        refine ⟨hcount, ?_⟩
        intro id hmem
        rcases List.mem_cons.mp hmem with heq | hmem
        · exact absurd (congrArg Exchange.op heq).symm hop
        · exact hids id hmem

/-- Recorded with snapshots. -/
def recordingPolicy : ExecutionPolicy := { captureStateSnapshots := true }

/-- Replayed. -/
def replayPolicy : ExecutionPolicy := { mode := .replay }

/-- A node that puts a plan into the state. -/
def planningNode : NodeFn := fun state =>
  pure { state with planState := some (.fromPlan weatherPlan "default") }

/-- A graph of that node alone. -/
def planningGraph : Graph :=
  ({ graphId := "planning", entry := "plan" } : Graph).addNode "plan" planningNode

theorem nodes_planningGraph {nodeId : String} {fn : NodeFn}
    (h : planningGraph.nodes nodeId = some fn) : fn = planningNode := by
  unfold planningGraph addNode at h
  dsimp only at h
  split at h
  · exact (Option.some.inj h).symm
  · cases h

theorem flat_planningGraph : planningGraph.Flat := by
  intro nodeId fn hfn state
  rw [nodes_planningGraph hfn]
  exact rfl

theorem total_planningGraph : planningGraph.Total where
  sequential := rfl
  check _ := ⟨false, rfl⟩
  node nodeId fn hfn state := by
    rw [nodes_planningGraph hfn]
    trivial
  next _ _ := Or.inl rfl

/-- A run of this graph and a replay of it over the records of the run, with fresh ids. -/
theorem exists_planning_replay (digest : Snapshot → String) :
    ∃ recorded final last,
      Runs (invoke digest planningGraph recordingPolicy {}) recorded (.ok final) ∧
      Follows SharedObjects.Step {} recorded last ∧
      ∃ replayed final' last',
        Runs (invoke digest planningGraph replayPolicy {}) replayed (.ok final') ∧
        Follows SharedObjects.Step
          { replayRecords := nodesAdded (initialRef {} {}) recorded } replayed
          last' ∧ FreshIds {} recorded replayed := by
  have hreturns : ∀ (policy : ExecutionPolicy) (state : SharedObjects × Nat), ∃ final,
      Runs (invoke digest planningGraph policy {})
        ((invoke digest planningGraph policy {}).exec (sharedHandler suppliedReply) state).trace
        (.ok final) := by
    intro policy state
    have hrun := Program.runs_exec (sharedHandler suppliedReply)
      (invoke digest planningGraph policy {}) state
    obtain ⟨final, hfinal⟩ := (total_planningGraph.run rfl {}).exists_value hrun
    exact ⟨final, hfinal ▸ hrun⟩
  obtain ⟨final, hrecorded⟩ := hreturns recordingPolicy ({}, 0)
  obtain ⟨-, hids⟩ := drawn_supplied (invoke digest planningGraph recordingPolicy {}) ({}, 0)
  have hfollows := follows_exec suppliedReply (invoke digest planningGraph recordingPolicy {})
    ({}, 0)
  generalize (invoke digest planningGraph recordingPolicy {}).exec (sharedHandler suppliedReply)
    ({}, 0) = outcome at hrecorded hids hfollows
  -- the replay goes on with the supply where the recorded run has left it
  let again : SharedObjects × Nat :=
    ({ replayRecords := nodesAdded (initialRef {} {}) outcome.trace }, outcome.state.2)
  obtain ⟨final', hreplayed⟩ := hreturns replayPolicy again
  obtain ⟨-, hids'⟩ := drawn_supplied (invoke digest planningGraph replayPolicy {}) again
  have hfollows' := follows_exec suppliedReply (invoke digest planningGraph replayPolicy {}) again
  refine ⟨_, final, _, hrecorded, hfollows, _, final', _, hreplayed, hfollows',
    ⟨fun _ _ h => (by cases h), ?_⟩⟩
  intro id hmem
  refine ⟨fun hold => ?_, fun h => by cases h⟩
  obtain ⟨index, -, hlast, rfl⟩ := hids id hold
  obtain ⟨index', hfirst, -, heq⟩ := hids' _ hmem
  cases unary_injective heq
  exact absurd hlast (Nat.not_lt.mpr hfirst)

/-- The recorded run puts the plan into the state. -/
theorem Execution.Valid.planning {execution : Execution}
    (h : execution.Valid digest planningGraph recordingPolicy) :
    execution.output.planState = some (.fromPlan weatherPlan "default") := by
  obtain ⟨fn, hfn, hlooked, hown⟩ := h
  rw [nodes_planningGraph hfn, hlooked (by decide)] at hown
  obtain ⟨-, houtput⟩ := runs_pure_iff.mp hown
  rw [(Prod.mk.inj (Except.ok.inj houtput)).1]

/-- A round without a fan-out executes something. -/
theorem Accounts.ne_nil {cursor next : Cursor} (hfanOut : graph.fanOutFor cursor.current = none)
    {trace : List Event} {executions : List Execution}
    (hround : Runs (round digest graph streamed policy executionGraph cursor) trace (.ok next))
    (h : Accounts digest graph policy executionGraph trace executions) : executions ≠ [] := by
  rintro rfl
  obtain ⟨-, rest, hrest, hperm⟩ := h
  obtain ⟨own, first, last, hown, -, -, -, -, -, rfl⟩ := runs_round_plain hfanOut hround
  obtain ⟨execution, -, -, -, -, -, rfl⟩ := exists_execution_of_runs hown
  have hmem : (⟨.addNodeRecord executionGraph (execution.record digest policy), ()⟩ : Event) ∈
      rest := by
    apply hperm.subset
    simp [Execution.trace]
  have hvisit := List.filterMap_eq_nil_iff.mp hrest _ hmem
  cases hvisit

/-- A run of this graph executes something. -/
theorem exists_execution_planning {final : AgentState} {trace : List Event} {moves : List Move}
    (h : Told digest planningGraph streamed policy {} trace moves (.ok final)) :
    ∃ execution, execution ∈ moves.flatMap Move.executions := by
  obtain ⟨ref, opening, own, last, reached, ended, -, hjourney, hends, -, -⟩ := h.account
  cases hjourney with
  | start =>
      cases hends with
      | exhausted spent => cases spent
      | atEnd current => exact absurd current (show "plan" ≠ endNode by decide)
      | stopped _ stops => cases stops
  | next _ _ _ round accounts =>
      obtain ⟨execution, hmem⟩ := List.exists_mem_of_ne_nil _
        (accounts.ne_nil (total_planningGraph.fanOutFor _) round)
      exact ⟨execution, by simp [hmem]⟩

/-- A replay of the planning graph is not faithful: the plan state is not restored. -/
theorem planning_replay_not_faithful : ∃ digest : Snapshot → String, Function.Injective digest ∧
    planningGraph.Flat ∧ ∃ recorded final last,
      Runs (invoke digest planningGraph recordingPolicy {}) recorded (.ok final) ∧
      Follows SharedObjects.Step {} recorded last ∧
      ∃ replayed final' last' moves,
        Runs (invoke digest planningGraph replayPolicy {}) replayed (.ok final') ∧
        Follows SharedObjects.Step
          { replayRecords := nodesAdded (initialRef {} {}) recorded } replayed
          last' ∧ FreshIds {} recorded replayed ∧
        Told digest planningGraph false replayPolicy {} replayed moves (.ok final') ∧
        ¬ ∀ execution ∈ moves.flatMap Move.executions,
          execution.Faithful digest (nodesAdded (initialRef {} {}) recorded) := by
  obtain ⟨digest, hinjective⟩ := exists_injective_digest
  obtain ⟨recorded, final, last, hrecorded, hfollows, replayed, final', last', hreplayed, hfollows',
    hfresh⟩ := exists_planning_replay digest
  obtain ⟨moves, htold⟩ := exists_told hreplayed
  refine ⟨digest, hinjective, flat_planningGraph, recorded, final, last, hrecorded, hfollows,
    replayed, final', last', moves, hreplayed, hfollows', hfresh, htold, ?_⟩
  intro hfaithful
  obtain ⟨execution, hmem⟩ := exists_execution_planning htold
  obtain ⟨executions, h⟩ := exists_replays hinjective flat_planningGraph
    (rfl : recordingPolicy.captureStateSnapshots = true) (rfl : replayPolicy.mode = .replay) rfl rfl
    hrecorded hfollows hfollows' rfl hfresh htold
  obtain ⟨made, hmade, -, hplan, -, hinput⟩ := h.exists_made hmem
    (h.restorable_of_faithful hmem hinjective (hfaithful execution hmem))
  have hnone : execution.input.snapshot.planState = none := congrArg Snapshot.planState hinput
  have hsome : made.output.snapshot.planState =
      some (PlanState.summary (.fromPlan weatherPlan "default")) :=
    congrArg (Option.map PlanState.summary) (h.made made hmade).1.planning
  rw [hnone, hsome] at hplan
  cases hplan

theorem replay_faithful_iff_planning : ∃ digest : Snapshot → String,
    ∃ recorded replayed final moves,
      Told digest planningGraph false replayPolicy {} replayed moves (.ok final) ∧
      ((∀ execution ∈ moves.flatMap Move.executions,
          execution.Faithful digest (nodesAdded (initialRef {} {}) recorded)) ↔
        ∀ execution ∈ moves.flatMap Move.executions, execution.Restorable) := by
  obtain ⟨digest, hinjective⟩ := exists_injective_digest
  obtain ⟨recorded, final, last, hrecorded, hfollows, replayed, final', last', hreplayed, hfollows',
    hfresh⟩ := exists_planning_replay digest
  obtain ⟨⟨moves, htold⟩, hall⟩ := replay_faithful_iff hinjective flat_planningGraph
    (rfl : recordingPolicy.captureStateSnapshots = true) (rfl : replayPolicy.mode = .replay) rfl rfl
    hrecorded hreplayed hfollows hfollows' rfl hfresh
  exact ⟨digest, recorded, replayed, final', moves, htold, (hall moves htold).1⟩

end Graph

end TripGraph
