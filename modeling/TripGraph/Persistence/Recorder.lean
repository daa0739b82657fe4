import TripGraph.Runtime.Restore

/-! # Recording executions

The recorder hands its writes to a bounded queue, and one worker performs them in order. The
primary key of a stored version is its version id alone, so the row of a version that two
executions record belongs to the one that wrote it last.
-/

namespace TripGraph

open Interaction

/-! ## The store of state versions -/

structure PersistedStateVersion where
  versionId : String
  executionId : String
  nodeId : String
  stateSnapshot : Snapshot
  parentVersionId : Option String
  stateHash : String
  branchId : String
deriving DecidableEq

namespace StateStore

/-- `insert`: `INSERT OR REPLACE` on the primary key `version_id`. -/
def insert (rows : List PersistedStateVersion) (record : PersistedStateVersion) :
    List PersistedStateVersion :=
  rows.filter (fun own => decide (own.versionId ≠ record.versionId)) ++ [record]

/-- `list_by_execution`. -/
def listByExecution (rows : List PersistedStateVersion) (executionId : String) :
    List PersistedStateVersion :=
  rows.filter fun own => decide (own.executionId = executionId)

/-- The ids of the versions `list_by_execution` returns. -/
def versionIds (rows : List PersistedStateVersion) (executionId : String) : List String :=
  (listByExecution rows executionId).map PersistedStateVersion.versionId

variable {rows : List PersistedStateVersion} {executionId versionId : String}

theorem mem_versionIds : versionId ∈ versionIds rows executionId ↔
    ∃ own ∈ rows, own.executionId = executionId ∧ own.versionId = versionId := by
  simp [versionIds, listByExecution, and_assoc]

theorem mem_versionIds_insert {record : PersistedStateVersion} :
    versionId ∈ versionIds (insert rows record) executionId ↔
      record.executionId = executionId ∧ record.versionId = versionId ∨
        versionId ≠ record.versionId ∧ versionId ∈ versionIds rows executionId := by
  simp only [mem_versionIds, insert, List.mem_append, List.mem_filter, List.mem_singleton,
    decide_eq_true_eq]
  constructor
  · rintro ⟨own, ⟨hmem, hne⟩ | rfl, hexecution, rfl⟩
    · exact Or.inr ⟨hne, own, hmem, hexecution, rfl⟩
    · exact Or.inl ⟨hexecution, rfl⟩
  · rintro (⟨hexecution, hversion⟩ | ⟨hne, own, hmem, hexecution, rfl⟩)
    · exact ⟨record, Or.inr rfl, hexecution, hversion⟩
    · exact ⟨own, Or.inl ⟨hmem, hne⟩, hexecution, rfl⟩

end StateStore

/-! ## The writer -/

/-- A write in the queue: of a state version, or of anything else. -/
inductive Write
  | version (record : PersistedStateVersion)
  | other
deriving DecidableEq

def Write.record? : Write → Option PersistedStateVersion
  | .version record => some record
  | .other => none

/-- The rows among the writes. -/
def queuedRecords (writes : List Write) : List PersistedStateVersion :=
  writes.filterMap Write.record?

@[simp] theorem queuedRecords_nil : queuedRecords [] = [] := rfl

@[simp] theorem queuedRecords_cons (write : Write) (rest : List Write) :
    queuedRecords (write :: rest) = write.record?.toList ++ queuedRecords rest := by
  cases write <;> rfl

@[simp] theorem queuedRecords_append (first second : List Write) :
    queuedRecords (first ++ second) = queuedRecords first ++ queuedRecords second :=
      List.filterMap_append

/-- The stored versions and the queue of the writer. -/
structure Recording where
  rows : List PersistedStateVersion := []
  queue : List Write := []
  maxsize : Nat := 1024
  closed : Bool := false
deriving DecidableEq

namespace Recording

/-- `AsyncWriteQueue.submit`: a full queue drops the write. -/
def submit (recording : Recording) (write : Write) : Recording :=
  if recording.closed then recording
  else if recording.maxsize = 0 ∨ recording.queue.length < recording.maxsize then
    { recording with queue := recording.queue ++ [write] }
  else recording

def submitAll (recording : Recording) (writes : List Write) : Recording :=
  writes.foldl submit recording

/-- The writer performs the next write, or the database refuses it. -/
def work (recording : Recording) (succeeds : Bool) : Recording :=
  match recording.queue with
  | [] => recording
  | .other :: rest => { recording with queue := rest }
  | .version record :: rest => { recording with
      rows := if succeeds then StateStore.insert recording.rows record else recording.rows
      queue := rest }

end Recording

/-! ## The recorder -/

/-- The rows of `_persist_state_versions`: all versions the state has, whoever made them. -/
def persistedVersions (executionId : String) (state : AgentState) : List PersistedStateVersion :=
  match state.versionStore with
  | none => []
  | some store => store.versions.map fun version =>
      { versionId := version.versionId
        executionId := executionId
        nodeId := version.nodeId
        stateSnapshot := version.snapshot
        parentVersionId := version.parentVersionId
        stateHash := version.stateHash
        branchId := version.branchId }

/-- What happens to a recorder and its writer. -/
inductive RecorderAction
  | begin (executionId : String)
  | nodeEnd (executionId : String) (state : Option AgentState)
  | toolRecord
  | finish (executionId : String) (state : AgentState)
  | work (succeeds : Bool)
  | close

/-- The writes an action submits. -/
def RecorderAction.writes : RecorderAction → List Write
  | .begin _ | .toolRecord => [.other]
  | .nodeEnd executionId state => .other ::
      ((state.map (persistedVersions executionId)).getD []).map .version
  | .finish executionId state =>
      .other :: (persistedVersions executionId state).map .version ++ [.other]
  | .work _ | .close => []

namespace Recording

def act (recording : Recording) (action : RecorderAction) : Recording :=
  match action with
  | .work succeeds => recording.work succeeds
  | .close => { recording with closed := true }
  | other => recording.submitAll other.writes

def run (recording : Recording) (actions : List RecorderAction) : Recording :=
  actions.foldl act recording

/-- The row an action stores. -/
def stored (recording : Recording) : RecorderAction → List PersistedStateVersion
  | .work true => (recording.queue.head?.bind Write.record?).toList
  | _ => []

/-- The rows stored along a run, in order. -/
def performed (recording : Recording) : List RecorderAction → List PersistedStateVersion
  | [] => []
  | action :: rest => recording.stored action ++ (recording.act action).performed rest

/-- The rows that are still in the queue. -/
def pending (recording : Recording) : List PersistedStateVersion :=
  queuedRecords recording.queue

end Recording

/-- The rows a run submits. -/
def submitted (actions : List RecorderAction) : List PersistedStateVersion :=
  actions.flatMap fun action => queuedRecords action.writes

namespace Recording

variable {recording : Recording} {actions : List RecorderAction}

/-! ## What is stored -/

@[simp] theorem rows_submit (write : Write) : (recording.submit write).rows = recording.rows := by
  unfold submit
  split
  · rfl
  · split <;> rfl

@[simp] theorem rows_submitAll (writes : List Write) :
    (recording.submitAll writes).rows = recording.rows := by
  induction writes generalizing recording with
  | nil => rfl
  | cons write rest ih => exact ih.trans (rows_submit write)

theorem rows_act (action : RecorderAction) :
    (recording.act action).rows =
      (recording.stored action).foldl StateStore.insert recording.rows := by
  cases action with
  | work succeeds =>
      obtain ⟨rows, queue, maxsize, closed⟩ := recording
      cases queue with
      | nil => cases succeeds <;> rfl
      | cons write rest => cases write <;> cases succeeds <;> rfl
  | close => rfl
  | begin => exact rows_submitAll _
  | nodeEnd => exact rows_submitAll _
  | toolRecord => exact rows_submitAll _
  | finish => exact rows_submitAll _

theorem rows_run : (recording.run actions).rows =
    (recording.performed actions).foldl StateStore.insert recording.rows := by
  induction actions generalizing recording with
  | nil => rfl
  | cons action rest ih =>
      rw [performed, List.foldl_append, ← rows_act]
      exact ih

theorem performed_append (first rest : List RecorderAction) :
    recording.performed (first ++ rest) =
      recording.performed first ++ (recording.run first).performed rest := by
  induction first generalizing recording with
  | nil => rfl
  | cons action first ih =>
      rw [List.cons_append, performed, performed, ih, List.append_assoc]
      rfl

/-- A stored row is the last one stored along some part of the run. -/
theorem exists_performed {row : PersistedStateVersion} (h : row ∈ recording.performed actions) :
    ∃ first rest front, actions = first ++ rest ∧ recording.performed first = front ++ [row] := by
  induction actions generalizing recording with
  | nil => cases h
  | cons action rest ih =>
      rcases List.mem_append.mp h with hstored | hlater
      · refine ⟨[action], rest, [], rfl, ?_⟩
        have hone : recording.stored action = [row] := by
          cases action with
          | work succeeds =>
              cases succeeds with
              | true =>
                  simp only [stored, Option.mem_toList] at hstored
                  rw [stored, hstored]
                  rfl
              | false => cases hstored
          | _ => cases hstored
        rw [performed, hone]
        rfl
      · obtain ⟨first, last, front, rfl, hfirst⟩ := ih hlater
        exact ⟨action :: first, last, recording.stored action ++ front, rfl, by
          rw [performed, hfirst, List.append_assoc]⟩

theorem pending_submit (write : Write) :
    (recording.submit write).pending ⊆ recording.pending ++ write.record?.toList := by
  unfold submit
  split
  · exact List.subset_append_left _ _
  split
  · simp [pending]
  · exact List.subset_append_left _ _

theorem pending_submitAll (writes : List Write) :
    (recording.submitAll writes).pending ⊆ recording.pending ++ queuedRecords writes := by
  induction writes generalizing recording with
  | nil => simp [submitAll]
  | cons write rest ih =>
      refine List.Subset.trans ih ?_
      rw [queuedRecords_cons, ← List.append_assoc]
      exact List.append_subset.mpr ⟨List.Subset.trans (pending_submit write)
        (List.subset_append_left _ _), List.subset_append_right _ _⟩

theorem pending_act (action : RecorderAction) :
    recording.stored action ++ (recording.act action).pending ⊆
      recording.pending ++ queuedRecords action.writes := by
  cases action with
  | work succeeds =>
      obtain ⟨rows, queue, maxsize, closed⟩ := recording
      cases queue with
      | nil => cases succeeds <;> simp [stored, act, work, pending]
      | cons write rest =>
          cases write <;> cases succeeds <;>
            simp [stored, act, work, pending, RecorderAction.writes]
  | close => simp [stored, act, pending]
  | begin => exact pending_submitAll _
  | nodeEnd => exact pending_submitAll _
  | toolRecord => exact pending_submitAll _
  | finish => exact pending_submitAll _

/-- What is stored has been submitted along the run or was in the queue before. -/
theorem performed_subset :
    recording.performed actions ⊆ recording.pending ++ submitted actions := by
  induction actions generalizing recording with
  | nil => exact List.nil_subset _
  | cons action rest ih =>
      have hact : recording.stored action ⊆ _ ∧ (recording.act action).pending ⊆ _ :=
        List.append_subset.mp (pending_act action)
      have hall : recording.pending ++ queuedRecords action.writes ⊆
          recording.pending ++ submitted (action :: rest) := by
        rw [submitted, List.flatMap_cons, ← List.append_assoc]
        exact List.subset_append_left _ _
      refine List.append_subset.mpr ⟨List.Subset.trans hact.1 hall, List.Subset.trans ih ?_⟩
      refine List.append_subset.mpr ⟨List.Subset.trans hact.2 hall, ?_⟩
      rw [submitted, submitted, List.flatMap_cons, ← List.append_assoc]
      exact List.subset_append_right _ _

/-! ## What stays listed -/

/-- At no point of the run a version is missing that was listed for the execution before. -/
def KeepsVersions (recording : Recording) (actions : List RecorderAction) (executionId : String) :
    Prop :=
  ∀ first rest, actions = first ++ rest → StateStore.versionIds recording.rows executionId ⊆
    StateStore.versionIds (recording.run first).rows executionId

/-- No row of another execution that is in the queue or is submitted along the run has the id
of a version listed for the execution. -/
def Unshared (recording : Recording) (actions : List RecorderAction)
    (executionId : String) : Prop :=
  ∀ row ∈ recording.pending ++ submitted actions, row.executionId ≠ executionId →
    row.versionId ∉ StateStore.versionIds recording.rows executionId

theorem versionIds_foldl {executionId : String} {listed : List String}
    {rows written : List PersistedStateVersion}
    (hlisted : listed ⊆ StateStore.versionIds rows executionId)
    (hwritten : ∀ row ∈ written, row.executionId ≠ executionId → row.versionId ∉ listed) :
    listed ⊆ StateStore.versionIds (written.foldl StateStore.insert rows) executionId := by
  induction written generalizing rows with
  | nil => exact hlisted
  | cons row rest ih =>
      obtain ⟨hrow, hrest⟩ := List.forall_mem_cons.mp hwritten
      refine ih (fun versionId hmem => StateStore.mem_versionIds_insert.mpr ?_) hrest
      by_cases hversion : row.versionId = versionId
      · by_cases hown : row.executionId = executionId
        · exact Or.inl ⟨hown, hversion⟩
        · exact absurd (hversion ▸ hmem) (hrow hown)
      · exact Or.inr ⟨Ne.symm hversion, hlisted hmem⟩

/-- Versions stay listed exactly when no row of another execution is stored over one of them. -/
theorem keepsVersions_iff_performed {executionId : String} :
    KeepsVersions recording actions executionId ↔
      ∀ row ∈ recording.performed actions, row.executionId ≠ executionId →
        row.versionId ∉ StateStore.versionIds recording.rows executionId := by
  constructor
  · intro hkeeps row hrow hother hlisted
    obtain ⟨first, rest, front, hactions, hfirst⟩ := exists_performed hrow
    have hmissing := hkeeps first rest hactions hlisted
    rw [rows_run, hfirst, List.foldl_append, List.foldl_cons, List.foldl_nil,
      StateStore.mem_versionIds_insert] at hmissing
    exact hmissing.elim (fun hown => hother hown.1) fun hstays => hstays.1 rfl
  · rintro hwritten first rest rfl
    rw [rows_run]
    refine versionIds_foldl (List.Subset.refl _) fun row hrow => hwritten row ?_
    rw [performed_append]
    exact List.mem_append_left _ hrow

/-- In a run in which no other execution records a version of this one, its versions stay
listed; and they stay listed only then, when all writes come through. -/
theorem keepsVersions_iff {executionId : String} :
    (Unshared recording actions executionId → KeepsVersions recording actions executionId) ∧
      (recording.pending ++ submitted actions ⊆ recording.performed actions →
        KeepsVersions recording actions executionId → Unshared recording actions executionId) := by
  simp only [keepsVersions_iff_performed]
  exact ⟨fun hunshared row hrow => hunshared row (performed_subset hrow),
    fun hthrough hwritten row hrow => hwritten row (hthrough hrow)⟩

/-! ## A restored session -/

/-- The first execution of a trip, with the writes performed. -/
def recordedTrip : Recording :=
  Recording.run {} [.begin "execution_1", .finish "execution_1" plannedTrip, .work true, .work true,
    .work true, .work true]

/-- The session of the trip is restored and its execution ends before its first node. -/
def restoredTrip : List RecorderAction :=
  [.begin "execution_2",
    .finish "execution_2" (AgentState.fromApiSnapshot plannedTrip.apiSnapshot.viaJson), .work true,
    .work true, .work true, .work true]

theorem keepsVersions_iff_restoredTrip :
    ¬KeepsVersions recordedTrip restoredTrip "execution_1" := by
  intro hkeeps
  have hunshared := keepsVersions_iff.2 (show recordedTrip.pending ++ submitted restoredTrip ⊆
    recordedTrip.performed restoredTrip by decide +kernel) hkeeps
  exact absurd hunshared (by unfold Unshared; decide +kernel)

/-- The restored session takes the version away from the execution that made it. -/
theorem recordedTrip_loses_version :
    StateStore.versionIds recordedTrip.rows "execution_1" = ["v1"] ∧
      StateStore.versionIds (recordedTrip.run restoredTrip).rows "execution_1" = [] ∧
      ¬KeepsVersions recordedTrip restoredTrip "execution_1" := by
  have hbefore : StateStore.versionIds recordedTrip.rows "execution_1" = ["v1"] := by decide +kernel
  have hafter : StateStore.versionIds (recordedTrip.run restoredTrip).rows "execution_1" = [] := by
    decide +kernel
  refine ⟨hbefore, hafter, fun hkeeps => ?_⟩
  have hsub := hkeeps restoredTrip [] (List.append_nil _).symm
  rw [hbefore, hafter] at hsub
  exact List.not_mem_nil (hsub List.mem_cons_self)

end Recording

end TripGraph
