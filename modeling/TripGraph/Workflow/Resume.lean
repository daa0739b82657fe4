import TripGraph.Runtime.Restore
import TripGraph.Workflow.Persistence
import TripGraph.Workflow.Runner

/-! # Continuing from a snapshot

A session is restored from the snapshot of its last final state, and a branch is replayed
from a version of one. Both run the workflow again on the rebuilt state.
-/

namespace TripGraph

open Interaction TripGraph.Graph

/-! ## Restoring a session -/

namespace ExecutionReplayService

/-- The rebuilt state with the new query, if there is one. -/
def requeried (query : Option String) (restored : AgentState) : AgentState :=
  if truthy query then
    let text := orText query restored.query
    { restored with query := text }.appendMessage "user" text
  else restored

/-- `restore_session`, up to the final state of the run it starts. -/
def restoreSession (digest : Snapshot → String) (runner : Option Graph) (sessionId : String)
    (session : Option SessionRecord) (query : Option String) : Runtime AgentState :=
  match runner with
  | none => raise (.runtimeError "Graph runner not bound for session restore")
  | some graph =>
      match session.bind SessionRecord.lastStateSnapshot with
      | none => raise (.keyError s!"No restorable session: {sessionId}")
      | some snapshot =>
          let restored := AgentState.fromApiSnapshot snapshot
          let runQuery := orText query restored.query
          if runQuery = "" then raise (.valueError "Query required to continue execution")
          else graph.astream digest { captureStateSnapshots := true }
            (GraphRuntimeRunner.continued runQuery (requeried query restored))

/-- The run executes the workflow on the query: its planner plans for it and it comes to a
final result of its own. -/
structure ContinuesOn (query : String) (trace : List Event) : Prop where
  planned : "planner" ∈ executedNodes trace
  onQuery : ∃ answer, (⟨.createPlan query, answer⟩ : Event) ∈ trace
  finalized : "finalize" ∈ executedNodes trace

theorem shouldStop_requeried (query : Option String) (restored : AgentState) :
    (requeried query restored).shouldStop = restored.shouldStop := by
  unfold requeried
  split <;> rfl

theorem finalResult_requeried (query : Option String) (restored : AgentState) :
    (requeried query restored).finalResult = restored.finalResult := by
  unfold requeried
  split <;> rfl

theorem shouldStop_continued (query : String) (initial : AgentState) :
    (GraphRuntimeRunner.continued query initial).shouldStop = initial.shouldStop := by
  unfold GraphRuntimeRunner.continued
  split <;> rfl

theorem finalResult_continued (query : String) (initial : AgentState) :
    (GraphRuntimeRunner.continued query initial).finalResult = initial.finalResult := by
  unfold GraphRuntimeRunner.continued
  split <;> rfl

/-- The flag of a finished run comes back with its snapshot: the continuing run executes no
node and hands back the old final result. -/
theorem restoreSession_of_stopped {digest : Snapshot → String} {graph : Graph}
    {sessionId executionId query : String} {existing : Option SessionRecord} {finished : AgentState}
    {trace : List Event} {result : Except RaisedError AgentState}
    (hstop : finished.shouldStop = true) (hquery : query ≠ "")
    (h : Runs (restoreSession digest (some graph) sessionId
      (some (.appendExecution existing sessionId executionId finished.apiSnapshot)) (some query))
      trace result) :
    Bookkept trace ∧ executedNodes trace = [] ∧ ∃ final, result = .ok final ∧
      final.finalResult = finished.finalResult := by
  have hrun : orText (some query) (AgentState.fromApiSnapshot finished.apiSnapshot.viaJson).query =
      query := if_neg hquery
  simp only [restoreSession, SessionRecord.appendExecution, Option.bind_some, hrun, hquery,
    if_false] at h
  obtain ⟨hbook, hvisits, final, rfl, hfinal, -⟩ := run_of_stopped
    (by rw [shouldStop_continued, shouldStop_requeried]; exact hstop) h
  refine ⟨hbook, executedNodes_of_visits hvisits, final, rfl, hfinal.trans ?_⟩
  rw [finalResult_continued, finalResult_requeried]
  rfl

theorem not_continuesOn_of_bookkept {query : String} {trace : List Event} (hbook : Bookkept trace) :
    ¬ContinuesOn query trace := by
  rintro ⟨-, ⟨answer, hasked⟩, -⟩
  cases hbook _ hasked

/-- A session whose last execution was finalized cannot be continued: whatever the query, no
node is executed and the old final result comes back. -/
theorem not_continuesOn {deps : RuntimeDependencies} {maxIterations : Nat}
    {digest : Snapshot → String} {streamed : Bool} {policy : ExecutionPolicy}
    {state finished : AgentState} {first : List Event}
    (hfirst : Runs
      (run digest (AgentWorkflowBuilder.build deps maxIterations) streamed policy state)
      first (.ok finished)) (hfinal : "finalize" ∈ executedNodes first)
    {graph : Graph} {sessionId executionId query : String} {existing : Option SessionRecord}
    (hquery : query ≠ "") {trace : List Event} {result : Except RaisedError AgentState}
    (h : Runs (restoreSession digest (some graph) sessionId
      (some (.appendExecution existing sessionId executionId finished.apiSnapshot)) (some query))
      trace result) :
    ¬ContinuesOn query trace ∧ executedNodes trace = [] ∧ ∃ final, result = .ok final ∧
      final.finalResult = finished.finalResult := by
  obtain ⟨hstop, -⟩ := AgentWorkflowBuilder.finalized_run hfirst hfinal
  obtain ⟨hbook, hnodes, hresult⟩ := restoreSession_of_stopped hstop hquery h
  exact ⟨not_continuesOn_of_bookkept hbook, hnodes, hresult⟩

/-- The workflow that answers the queries below. -/
def weatherWorkflow : Graph :=
  AgentWorkflowBuilder.build (plainDependencies .skip ["weather"] {}) 50

/-- The session of a query that was answered, with a new query. -/
def restoredQuery (finished : AgentState) : Runtime AgentState :=
  restoreSession (plainDependencies .skip ["weather"] {}).digest
    (some weatherWorkflow) "default"
    (some (.appendExecution none "default" "execution_1" finished.apiSnapshot)) (some "查询北京天气")

theorem answeredQuery_finalizes : ∃ first finished,
    Runs (weatherWorkflow.astream (plainDependencies .skip ["weather"] {}).digest
      {} (initialState "查询上海天气" "default")) first (.ok finished) ∧
      "finalize" ∈ executedNodes first := by
  obtain ⟨finished, hrun, -⟩ := Components.exists_runs_exec
    (show (AgentWorkflowBuilder.answeredQuery weatherPlan).result.isOk = true by decide +kernel)
  exact ⟨_, finished, hrun, by decide +kernel⟩

theorem not_continuesOn_answeredQuery : ∃ finished trace result,
    Runs (restoredQuery finished) trace result ∧ ¬ContinuesOn "查询北京天气" trace := by
  obtain ⟨first, finished, hfirst, hfinal⟩ := answeredQuery_finalizes
  obtain ⟨hrun, -⟩ := Components.runs_exec {} {} (restoredQuery finished)
  exact ⟨finished, _, _, hrun, (not_continuesOn hfirst hfinal (by decide) hrun).1⟩

/-- The session of an answered query ends at once with the old answer. -/
theorem answeredQuery_not_continued : ∃ first finished trace final,
    Runs (weatherWorkflow.astream (plainDependencies .skip ["weather"] {}).digest
      {} (initialState "查询上海天气" "default")) first (.ok finished) ∧
      "finalize" ∈ executedNodes first ∧ Runs (restoredQuery finished) trace (.ok final) ∧
      final.finalResult = finished.finalResult ∧ ¬ContinuesOn "查询北京天气" trace := by
  obtain ⟨first, finished, hfirst, hfinal⟩ := answeredQuery_finalizes
  obtain ⟨hrun, -⟩ := Components.runs_exec {} {} (restoredQuery finished)
  obtain ⟨hstop, -⟩ := AgentWorkflowBuilder.finalized_run hfirst hfinal
  obtain ⟨hbook, -, final, hresult, hsame⟩ := restoreSession_of_stopped hstop (by decide) hrun
  exact ⟨first, finished, _, final, hfirst, hfinal, hresult ▸ hrun, hsame,
    not_continuesOn_of_bookkept hbook⟩

end ExecutionReplayService

end TripGraph
