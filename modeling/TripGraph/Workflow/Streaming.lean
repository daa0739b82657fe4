import TripGraph.Foundation.Answering
import TripGraph.Workflow.Finishing

/-! # What a stream shows

A stream opens with START, shows the nodes and edges of the run and closes with DONE or ERROR,
in accord with what the recorder is told. To a consumer who takes every event it is the run of
`invoke` on the same replies.
-/

namespace TripGraph

open Interaction TripGraph.Graph

namespace GraphRuntimeRunner

/-! ## What the consumer sees -/

/-- The event an operation yields. -/
def shown : RunnerOp → Option StreamEvent
  | .yield event => some event
  | _ => none

/-- The events that a trace yields. -/
def yields (trace : List RunnerEvent) : List StreamEvent :=
  trace.filterMap fun exchange => shown exchange.op

@[simp] theorem yields_nil : yields [] = [] := rfl

@[simp] theorem yields_append (first second : List RunnerEvent) :
    yields (first ++ second) = yields first ++ yields second := List.filterMap_append

/-- What a stream shows while the graph runs. -/
def Underway (sessionId : String) (event : StreamEvent) : Prop :=
  (event.event = .graphNode ∨ event.event = .graphStep ∨ event.event = .token) ∧
    event.sessionId = some sessionId

/-- The event with the final answer of a state. -/
def tokenEvent (sessionId : String) (final : AgentState) : StreamEvent :=
  ⟨.token, [("content", .str (orText final.finalResult ""))], some sessionId⟩

/-- The event that closes a stream whose graph has raised. -/
def errorEvent (sessionId : String) (error : RaisedError) : StreamEvent :=
  ⟨.error, [("message", .str error.text)], some sessionId⟩

/-- The event that closes a stream with the response. -/
def doneEvent (sessionId : String) (response : Dict String Value) : StreamEvent :=
  ⟨.done, response.entries, some sessionId⟩

variable {observers : Observers} {digest : Snapshot → String} {graph : Graph} {request : Request}
  {trace : List RunnerEvent}

/-! ## The loop -/

theorem yields_of_asks {α : Type} {p : Runner α} {result : Except Thrown α}
    (hp : Program.Asks (S := runnerSig) (fun op => shown op = none) p) (h : Runs p trace result) :
    yields trace = [] :=
  List.filterMap_eq_nil_iff.mpr fun exchange hmem =>
    Program.Respects.asks_of_runs hp h exchange hmem

theorem shown_of_stage {op : RunnerOp} (hloop : op.stage ≠ .loop) (hlast : op.stage ≠ .last) :
    shown op = none := by
  cases op with
  | yield event =>
      simp only [RunnerOp.stage] at hloop hlast
      split at hloop
      next hevent => exact absurd (if_pos hevent) hlast
      next => exact absurd rfl hloop
  | _ => rfl

theorem asks_unshown_onGraphEvent (event : GraphEvent) :
    Program.Asks (S := runnerSig) (fun op => shown op = none) (onGraphEvent observers event) := by
  refine Program.Respects.bind (Q := fun _ => True) ?_ fun _ _ => ?_
  · unfold recordEvent
    split
    · exact ⟨rfl, fun reply => asks_orThrow reply⟩
    · trivial
  · unfold measureEvent
    split
    · exact ⟨rfl, fun reply => asks_orThrow reply⟩
    · trivial

theorem asks_unshown_beginExecution (sessionId query graphId : String) :
    Program.Asks (S := runnerSig) (fun op => shown op = none)
      (beginExecution observers sessionId query graphId) :=
  (asks_beginExecution observers sessionId query graphId).mono
    (fun _ hop => shown_of_stage (by simp [hop]) (by simp [hop])) fun _ h => h

theorem asks_unshown_finishExecution (status : ExecutionStatus) (errorMessage : Option String) :
    Program.Asks (S := runnerSig) (fun op => shown op = none)
      (finishExecution observers status errorMessage) :=
  (asks_finishExecution observers status errorMessage).mono
    (fun _ hop => shown_of_stage (by simp [hop]) (by simp [hop])) fun _ h => h

theorem asks_unshown_respond (state : AgentState) (executionId : Option String) :
    Program.Asks (S := runnerSig) (fun op => shown op = none) (respond state executionId) :=
  (asks_respond state executionId).mono
    (fun _ hop => shown_of_stage (by simp [hop]) (by simp [hop])) fun _ h => h

/-- Every event of the graph is shown as a node, an edge or the answer. -/
theorem underway_streamed {sessionId : String} {event : GraphEvent} {kind : StreamEventType}
    {data : Args} (h : streamed event = some (kind, data)) :
    Underway sessionId ⟨kind, data, some sessionId⟩ := by
  refine ⟨?_, rfl⟩
  cases event <;> cases h <;> simp

theorem asks_underway_iterate (sessionId : String) (p : Runtime AgentState) (state : AgentState) :
    Program.Asks (S := runnerSig)
      (fun op => ∀ event, shown op = some event → Underway sessionId event)
      (iterate (forward observers sessionId) p state) := by
  refine asks_iterate
    (fun _ _ h => by cases h) (fun _ h => by cases h) (fun event state => ?_) p state
  refine Program.Respects.bind (Q := fun _ => True) ?_ fun _ _ =>
    Program.Respects.bind (Q := fun _ => True) ?_ fun _ _ => trivial
  · exact (asks_unshown_onGraphEvent event).mono (fun op hop own hown => by
      rw [hop] at hown
      cases hown) fun _ h => h
  · unfold yieldGraphEvent
    split
    next kind data hstreamed =>
      refine ⟨fun own hown => Option.some.inj hown ▸ underway_streamed hstreamed, fun closed => ?_⟩
      cases closed <;> trivial
    · trivial

/-- All that the loop of a stream yields belongs to the run. -/
theorem underway_iterate {sessionId : String} {p : Runtime AgentState} {state : AgentState}
    {result : Except Thrown AgentState}
    (h : Runs (iterate (forward observers sessionId) p state) trace result) :
    ∀ event ∈ yields trace, Underway sessionId event := by
  intro event hevent
  obtain ⟨exchange, hmem, hshown⟩ := List.mem_filterMap.mp hevent
  exact Program.Respects.asks_of_runs (asks_underway_iterate sessionId p state) h exchange hmem
    event hshown

/-- The loop over a run in two parts goes over the one and then over the other. -/
theorem runs_iterate_bind {α : Type} {onEvent : GraphEvent → AgentState → Runner AgentState}
    {p : Runtime α} {f : α → Runtime AgentState} {state final : AgentState}
    (h : Runs (iterate onEvent (p >>= f) state) trace (.ok final)) :
    ∃ value middle first second, Runs (iterate onEvent (f value) middle) second (.ok final) ∧
      trace = first ++ second := by
  induction p generalizing state trace with
  | done value => exact ⟨value, state, [], trace, h, rfl⟩
  | fail error =>
      cases (runs_fail_iff.mp h).2
  | ask op next ih =>
      rw [Program.ask_bind, iterate] at h
      obtain ⟨answered, before, rest, -, hrest, rfl⟩ := runs_bind_ok_iff.mp h
      obtain ⟨value, middle, first, second, hsecond, rfl⟩ := ih _ hrest
      exact ⟨value, middle, before ++ first, second, hsecond, (List.append_assoc _ _ _).symm⟩

/-- The last event of a run of the graph is its state. -/
theorem astream_eq (digest : Snapshot → String) (graph : Graph) (policy : ExecutionPolicy)
    (state : AgentState) : ∃ p : Runtime Cursor, graph.astream digest policy state =
      p >>= fun last => ask (.yield (.state last.state)) >>= fun _ => pure last.state := by
  let underway : Runtime Cursor := do
    let executionGraph ← ensureExecutionGraph graph policy state
    emit true (.graphStart graph.graphId graph.entry policy.mode.text)
    let seeded := { state with
      executionSeed := policy.seed
      executionGraph := some executionGraph }
    let last ← loop digest graph true policy executionGraph graph.maxIterations
      ⟨graph.entry, seeded, 0, 0, 0⟩
    emit true (.graphEnd graph.graphId last.iterations)
    pure last
  cases hseed : policy.seed with
  | none =>
      refine ⟨underway, ?_⟩
      simp [astream, run, underway, hseed, emit]
  | some seed =>
      refine ⟨ask (.seedRandom seed) >>= fun _ => underway, ?_⟩
      simp [astream, run, underway, hseed, emit]

/-- A loop that ends has yielded the answer of its last state at the end. -/
theorem yields_iterate_ok {sessionId : String} {policy : ExecutionPolicy}
    {state own final : AgentState}
    (h : Runs (iterate (forward observers sessionId) (graph.astream digest policy own) state) trace
      (.ok final)) :
    ∃ body, yields trace = body ++ [tokenEvent sessionId final] := by
  obtain ⟨p, hp⟩ := astream_eq digest graph policy own
  rw [hp] at h
  obtain ⟨last, middle, first, second, hsecond, rfl⟩ := runs_iterate_bind h
  obtain ⟨⟨_, after⟩, relayed, rest, hrelayed, hrest, rfl⟩ := runs_bind_ok_iff.mp hsecond
  obtain ⟨reached, forwarded, rest', hforwarded, hpure, rfl⟩ := runs_bind_ok_iff.mp hrelayed
  obtain ⟨rfl, hafter⟩ := runs_pure_iff.mp hpure
  cases hafter
  obtain ⟨rfl, hfinal⟩ := runs_pure_iff.mp hrest
  cases hfinal
  obtain ⟨_, observed, yielded, hobserved, hyielded, rfl⟩ := runs_bind_ok_iff.mp hforwarded
  obtain ⟨_, token, rest, htoken, hreached, rfl⟩ := runs_bind_ok_iff.mp hyielded
  obtain ⟨rfl, hreached⟩ := runs_pure_iff.mp hreached
  cases hreached
  obtain ⟨closed, rest, rfl, hopen⟩ := runs_ask_iff.mp htoken
  cases closed with
  | true => cases (runs_fail_iff.mp hopen).2
  | false =>
      obtain ⟨rfl, -⟩ := runs_pure_iff.mp hopen
      refine ⟨yields first, ?_⟩
      simp only [yields_append, List.append_nil]
      rw [yields_of_asks (asks_unshown_onGraphEvent _) hobserved, List.nil_append]
      rfl

/-! ## The whole stream -/

/-- What a stream shows, how it ends, and what the recorder has been told before its last
event. -/
inductive Streamed (observers : Observers) (request : Request) (opening : StreamEvent)
    (trace : List RunnerEvent) : List StreamEvent → Except Thrown Unit → Prop
  | unbegun {error : RaisedError} : Streamed observers request opening trace []
      (.error (.exception error))
  | brokenOff {body : List StreamEvent} {thrown : Thrown}
      (underway : ∀ event ∈ body, Underway request.sessionId event) :
      Streamed observers request opening trace (opening :: body) (.error thrown)
  | failed {body : List StreamEvent} {error : RaisedError} {result : Except Thrown Unit}
      (underway : ∀ event ∈ body, Underway request.sessionId event)
      (ends : result = .ok () ∨ result = .error .generatorExit)
      (recorded : observers.recorder = true →
        ⟨.recorderFinish .failed (some error.text), .ok ()⟩ ∈ trace) :
      Streamed observers request opening trace
        (opening :: (body ++ [errorEvent request.sessionId error])) result
  | completed {body : List StreamEvent} {final : AgentState} {answer response : Dict String Value}
      {result : Except Thrown Unit} (underway : ∀ event ∈ body, Underway request.sessionId event)
      (ends : result = .ok () ∨ result = .error .generatorExit)
      (recorded : observers.recorder = true → ⟨.recorderFinish .completed none, .ok ()⟩ ∈ trace)
      (answered : ⟨.toResponse final, .ok answer⟩ ∈ trace)
      (response_eq : ∀ key, key ≠ "execution_id" → response.get? key = answer.get? key) :
      Streamed observers request opening trace (opening :: (body ++
        [tokenEvent request.sessionId final, doneEvent request.sessionId response])) result

theorem recorded_finishExecution {status : ExecutionStatus} {errorMessage : Option String}
    (h : Runs (finishExecution observers status errorMessage) trace (.ok ()))
    (hrecorder : observers.recorder = true) :
    ⟨.recorderFinish status errorMessage, .ok ()⟩ ∈ trace := by
  obtain ⟨_, first, second, hfirst, -, rfl⟩ := runs_bind_ok_iff.mp h
  rw [finishRecording, if_pos hrecorder] at hfirst
  obtain ⟨reply, rest, rfl, hrest⟩ := runs_ask_iff.mp hfirst
  cases reply with
  | ok _ => exact List.mem_cons_self
  | error error => cases (runs_fail_iff.mp hrest).2

/-- The event a stream ends on, and whether the consumer closes the generator there. -/
theorem runs_yieldEvent {event : StreamEvent} {result : Except Thrown Unit}
    (h : Runs (yieldEvent event) trace result) :
    yields trace = [event] ∧ (result = .ok () ∨ result = .error .generatorExit) := by
  obtain ⟨closed, rest, rfl, hrest⟩ := runs_ask_iff.mp h
  cases closed with
  | true =>
      obtain ⟨rfl, rfl⟩ := runs_fail_iff.mp hrest
      exact ⟨rfl, Or.inr rfl⟩
  | false =>
      obtain ⟨rfl, rfl⟩ := runs_pure_iff.mp hrest
      exact ⟨rfl, Or.inl rfl⟩

theorem exception_beginExecution {sessionId query graphId : String} {thrown : Thrown}
    (h : Runs (beginExecution observers sessionId query graphId) trace (.error thrown)) :
    ∃ error, thrown = .exception error := by
  have hhonest : Honest (beginExecution observers sessionId query graphId) := by
    refine Shows.bind ?_ fun _ => ?_
    · unfold beginRecording
      split
      · exact (shows_perform fun _ => rfl).bind fun _ => shows_pure _
      · exact shows_pure _
    · unfold beginMetrics
      split
      · exact (shows_perform fun _ => rfl).bind fun reply =>
          (honest_orThrow reply).bind fun _ => shows_pure _
      · exact shows_pure _
  exact exception_of_not_interrupted hhonest h (runs_begin h).2.1 thrown rfl

/-- The response of a state, with the execution id written into it. -/
theorem runs_respond_ok {final : AgentState} {executionId : Option String}
    {response : Dict String Value} (h : Runs (respond final executionId) trace (.ok response)) :
    ∃ answer, trace = [⟨.toResponse final, .ok answer⟩] ∧
      ∀ key, key ≠ "execution_id" → response.get? key = answer.get? key := by
  obtain ⟨reply, rest, rfl, hrest⟩ := runs_ask_iff.mp h
  cases reply with
  | error error => cases (runs_fail_iff.mp hrest).2
  | ok answer =>
      obtain ⟨rfl, hresponse⟩ := runs_pure_iff.mp hrest
      refine ⟨answer, rfl, fun key hkey => ?_⟩
      cases hresponse
      cases executionId with
      | none => rfl
      | some own => exact Dict.get?_set_ne _ hkey _

/-- What follows a loop that has ended. -/
theorem runs_completeStream {executionId : Option String} {final : AgentState}
    {result : Except Thrown Unit}
    (h : Runs (completeStream observers request.sessionId executionId (some final)) trace result) :
    (yields trace = [] ∧ ∃ thrown, result = .error thrown) ∨
      ∃ answer response, yields trace = [doneEvent request.sessionId response] ∧
        (result = .ok () ∨ result = .error .generatorExit) ∧
        (observers.recorder = true → ⟨.recorderFinish .completed none, .ok ()⟩ ∈ trace) ∧
        ⟨.toResponse final, .ok answer⟩ ∈ trace ∧
        ∀ key, key ≠ "execution_id" → response.get? key = answer.get? key := by
  rcases runs_bind_iff.mp h with
    ⟨_, finishing, rest, hfinishing, hrest, rfl⟩ | ⟨thrown, hthrown, rfl⟩
  · have hquiet := yields_of_asks (asks_unshown_finishExecution _ _) hfinishing
    rcases runs_bind_iff.mp hrest with ⟨response, responding, last, hresponding, hlast, rfl⟩ |
      ⟨thrown, hthrown, rfl⟩
    · obtain ⟨answer, rfl, hresponse⟩ := runs_respond_ok hresponding
      obtain ⟨hshown, hends⟩ := runs_yieldEvent hlast
      refine Or.inr ⟨answer, response, ?_, hends, fun hrecorder => ?_, by simp, hresponse⟩
      · rw [yields_append, yields_append, hquiet, hshown]
        rfl
      · exact List.mem_append_left _ (recorded_finishExecution hfinishing hrecorder)
    · refine Or.inl ⟨?_, thrown, rfl⟩
      rw [yields_append, hquiet, yields_of_asks (asks_unshown_respond _ _) hthrown, List.nil_append]
  · exact Or.inl ⟨yields_of_asks (asks_unshown_finishExecution _ _) hthrown, thrown, rfl⟩

/-- What follows a loop that has raised. -/
theorem runs_failStream {error : RaisedError} {result : Except Thrown (Option AgentState)}
    (h : Runs (failStream observers request.sessionId error) trace result) :
    (yields trace = [] ∧ ∃ thrown, result = .error thrown) ∨
      yields trace = [errorEvent request.sessionId error] ∧
        (result = .ok none ∨ result = .error .generatorExit) ∧
        (observers.recorder = true →
          ⟨.recorderFinish .failed (some error.text), .ok ()⟩ ∈ trace) := by
  rcases runs_bind_iff.mp h with
    ⟨_, finishing, rest, hfinishing, hrest, rfl⟩ | ⟨thrown, hthrown, rfl⟩
  · have hquiet := yields_of_asks (asks_unshown_finishExecution _ _) hfinishing
    refine Or.inr ?_
    have hrecorded := recorded_finishExecution hfinishing
    rcases runs_bind_iff.mp hrest with ⟨_, yielding, last, hyielding, hlast, rfl⟩ |
      ⟨thrown, hyielding, rfl⟩
    · obtain ⟨rfl, rfl⟩ := runs_pure_iff.mp hlast
      refine ⟨?_, Or.inl rfl, fun hrecorder => List.mem_append_left _ (hrecorded hrecorder)⟩
      simp [hquiet, (runs_yieldEvent hyielding).1, errorEvent]
    · obtain ⟨hshown, hends⟩ := runs_yieldEvent hyielding
      refine ⟨by simp [hquiet, hshown, errorEvent], Or.inr ?_,
        fun hrecorder => List.mem_append_left _ (hrecorded hrecorder)⟩
      rcases hends with hends | hends
      · cases hends
      · cases hends
        rfl
  · exact Or.inl ⟨yields_of_asks (asks_unshown_finishExecution _ _) hthrown, thrown, rfl⟩

/-- Every stream opens with START, shows the run of the graph and closes at most once: with ERROR
after the recorder has been told that the execution failed, or with the answer and DONE after
it has been told that it completed. Only then it ends normally. -/
theorem streamed_of_runs {result : Except Thrown Unit}
    (h : Runs (stream observers digest graph request) trace result) :
    ∃ executionId, Streamed observers request (startEvent graph request executionId) trace
      (yields trace) result := by
  rcases runs_bind_iff.mp h with ⟨executionId, beginning, rest, hbeginning, hrest, rfl⟩ |
    ⟨thrown, hbeginning, rfl⟩
  rotate_left
  · obtain ⟨error, rfl⟩ := exception_beginExecution hbeginning
    rw [yields_of_asks (asks_unshown_beginExecution _ _ _) hbeginning]
    exact ⟨none, .unbegun⟩
  refine ⟨executionId, ?_⟩
  rw [yields_append, yields_of_asks (asks_unshown_beginExecution _ _ _) hbeginning, List.nil_append]
  rcases runs_bind_iff.mp hrest with ⟨_, starting, rest, hstarting, hopen, rfl⟩ |
    ⟨thrown, hstarting, rfl⟩
  rotate_left
  · rw [(runs_yieldEvent hstarting).1]
    exact .brokenOff (by simp)
  rw [yields_append, (runs_yieldEvent hstarting).1, List.singleton_append]
  -- the loop with its handler, then the completion
  have hlooped : ∀ {body : List RunnerEvent} {own : Except Thrown (Option AgentState)},
      Runs (some <$> iterate (forward observers request.sessionId)
        (graph.astream digest request.policy request.state) request.state) body own →
      (∀ event ∈ yields body, Underway request.sessionId event) ∧
        ((∃ thrown, own = .error thrown) ∨ ∃ final before, own = .ok (some final) ∧
          yields body = before ++ [tokenEvent request.sessionId final]) := by
    intro body own hrun
    rcases runs_bind_iff.mp hrun with ⟨final, first, second, hfirst, hsecond, rfl⟩ |
      ⟨thrown, hthrown, rfl⟩
    · obtain ⟨rfl, rfl⟩ := runs_pure_iff.mp hsecond
      rw [List.append_nil]
      obtain ⟨before, hbefore⟩ := yields_iterate_ok hfirst
      exact ⟨underway_iterate hfirst, Or.inr ⟨final, before, rfl, hbefore⟩⟩
    · exact ⟨underway_iterate hthrown, Or.inl ⟨thrown, rfl⟩⟩
  rcases runs_bind_iff.mp hopen with ⟨ended, handled, completing, hhandled, hcompleting, rfl⟩ |
    ⟨thrown, hhandled, rfl⟩
  · rcases runs_handle_iff.mp hhandled with ⟨value, hok, heq⟩ |
      ⟨thrown, body, handling, hraised, hhandling, rfl⟩
    · cases heq
      obtain ⟨hunderway, ⟨_, hnot⟩ | ⟨final, before, hended, hshown⟩⟩ := hlooped hok
      · cases hnot
      cases hended
      rcases runs_completeStream hcompleting with ⟨hquiet, thrown, rfl⟩ |
        ⟨answer, response, hdone, hends, hrecorded, hanswered, hresponse⟩
      · rw [yields_append, hquiet, List.append_nil]
        exact .brokenOff hunderway
      · rw [yields_append, hdone, hshown, List.append_assoc, List.singleton_append]
        refine .completed (fun event hmem => hunderway event ?_) hends (fun hrecorder => ?_) ?_
          hresponse
        · rw [hshown]
          exact List.mem_append_left _ hmem
        · simp [hrecorded hrecorder]
        · simp [hanswered]
    · obtain ⟨hunderway, -⟩ := hlooped hraised
      cases thrown with
      | cancelledError => cases (runs_fail_iff.mp hhandling).2
      | generatorExit => cases (runs_fail_iff.mp hhandling).2
      | exception error =>
          rcases runs_failStream hhandling with ⟨-, _, hnot⟩ | ⟨hshown, hended, hrecorded⟩
          · cases hnot
          rcases hended with hended | hended
          · cases hended
            obtain ⟨rfl, rfl⟩ := runs_pure_iff.mp hcompleting
            rw [List.append_nil, yields_append, hshown]
            exact .failed hunderway (Or.inl rfl) fun hrecorder => by simp [hrecorded hrecorder]
          · cases hended
  · rcases runs_handle_iff.mp hhandled with ⟨value, -, heq⟩ |
      ⟨own, body, handling, hraised, hhandling, rfl⟩
    · cases heq
    obtain ⟨hunderway, -⟩ := hlooped hraised
    cases own with
    | cancelledError =>
        obtain ⟨rfl, -⟩ := runs_fail_iff.mp hhandling
        rw [List.append_nil]
        exact .brokenOff hunderway
    | generatorExit =>
        obtain ⟨rfl, -⟩ := runs_fail_iff.mp hhandling
        rw [List.append_nil]
        exact .brokenOff hunderway
    | exception error =>
        rcases runs_failStream hhandling with ⟨hquiet, -⟩ | ⟨hshown, hended, hrecorded⟩
        · rw [yields_append, hquiet, List.append_nil]
          exact .brokenOff hunderway
        · rw [yields_append, hshown]
          refine .failed hunderway (Or.inr ?_) fun hrecorder => by simp [hrecorded hrecorder]
          rcases hended with hended | hended
          · cases hended
          · cases hended
            rfl

/-- Components for the graph, observers that are content and a consumer who takes every event. -/
def listenedTo (components : Components) : Handler runnerSig (SharedObjects × Unit) where
  answer op state :=
    match op with
    | .graph op => components.handler.answer op state
    | .awaiting | .yield _ => (false, state)
    | .recorderBegin .. => ("execution_1", state)
    | .metricsBegin .. => (.ok "execution_1", state)
    | .recorderEvent _ | .metricsEvent _ => (.ok (), state)
    | .recorderFinish .. | .metricsFinish .. => (.ok (), state)
    | .toResponse final =>
        (.ok (.ofList [("session_id", .str final.sessionId),
          ("final_result", .str (orText final.finalResult ""))]), state)

/-- The workflow with one tool. -/
def oneToolWorkflow : Graph :=
  AgentWorkflowBuilder.build (plainDependencies .skip ["weather"] {}) 50

def weatherQuery : Request where
  query := "查询上海天气"

/-- The stream of that query, for which the planner makes a plan of one step. -/
def weatherStream : Outcome runnerSig Thrown Unit (SharedObjects × Unit) :=
  (stream ⟨true, false⟩ (fun _ => "") oneToolWorkflow weatherQuery).exec
    (listenedTo { createPlan := fun _ => .ok weatherPlan }) ({}, ())

theorem runs_weatherStream :
    Runs (stream ⟨true, false⟩ (fun _ => "") oneToolWorkflow weatherQuery)
      weatherStream.trace (.ok ()) := by
  have hresult : weatherStream.result = .ok () := by decide +kernel
  have hrun : Runs _ weatherStream.trace weatherStream.result := Program.runs_exec _ _ _
  rwa [hresult] at hrun

/-- The stream shows eight nodes at their start and their end, the edges between them and the
answer. -/
theorem streamed_of_runs_weatherQuery : ∃ executionId,
    Streamed ⟨true, false⟩ weatherQuery (startEvent oneToolWorkflow weatherQuery executionId)
      weatherStream.trace (yields weatherStream.trace) (.ok ()) ∧
    let kinds := (yields weatherStream.trace).map StreamEvent.event
    kinds.count .graphNode = 16 ∧ kinds.count .graphStep = 8 ∧ kinds.getLast? = some .done := by
  obtain ⟨executionId, hstreamed⟩ := streamed_of_runs runs_weatherStream
  exact ⟨executionId, hstreamed, by decide +kernel⟩

/-! ## A consumer who takes every event -/

/-- The consumer never closes the generator. -/
def listening : (op : RunnerOp) → Option op.Reply
  | .yield _ => some false
  | _ => none

/-- What happens apart from the events yielded. -/
def unheard (trace : List RunnerEvent) : List RunnerEvent :=
  trace.filter (Exchange.unanswered (S := runnerSig) listening)

theorem listening_of_unshown {op : RunnerOp} (h : shown op = none) : listening op = none := by
  cases op with
  | yield event => cases h
  | _ => rfl

theorem answering_of_unshown {α : Type} {p : Runner α}
    (hp : Program.Asks (S := runnerSig) (fun op => shown op = none) p) :
    p.answering listening = p :=
  Program.answering_of_asks (hp.mono (fun _ hop => listening_of_unshown hop) fun _ h => h)

theorem answering_yieldEvent (event : StreamEvent) :
    (yieldEvent event).answering listening = pure () := rfl

theorem asks_unshown_pass (op : Op) :
    Program.Asks (S := runnerSig) (fun op => shown op = none) (pass op) := by
  have hperform : Program.Asks (S := runnerSig) (fun op => shown op = none)
      (Program.perform (S := runnerSig) (.graph op) : Runner op.Reply) := ⟨rfl, fun _ => trivial⟩
  unfold pass
  split
  · refine Program.Respects.bind (Q := fun _ => True) ⟨rfl, fun cancelled => ?_⟩ fun _ _ => hperform
    cases cancelled <;> trivial
  · exact hperform

theorem answering_forward (sessionId : String) (event : GraphEvent) (state : AgentState) :
    (forward observers sessionId event state).answering listening =
      collect observers event state := by
  have hyield : (yieldGraphEvent sessionId event).answering listening = pure () := by
    unfold yieldGraphEvent
    split
    · exact answering_yieldEvent _
    · rfl
  simp only [forward, collect, Program.answering_bind, hyield,
    answering_of_unshown (asks_unshown_onGraphEvent event), pure_bind, Program.answering_pure]

/-- To such a consumer the loop of `stream` is that of `invoke`. -/
theorem answering_iterate (sessionId : String) (p : Runtime AgentState) (state : AgentState) :
    (iterate (forward observers sessionId) p state).answering listening =
      iterate (collect observers) p state := by
  induction p generalizing state with
  | done value => rfl
  | fail error => rfl
  | ask op next ih =>
      have hrelay : (relay (forward observers sessionId) state op).answering listening =
          relay (collect observers) state op := by
        unfold relay
        split
        · rw [Program.answering_bind, answering_forward]
          rfl
        · rw [Program.answering_bind, answering_of_unshown (asks_unshown_pass _)]
          rfl
      rw [iterate, iterate, Program.answering_bind, hrelay]
      exact congrArg _ (funext fun answered => ih answered.1 answered.2)

@[simp] theorem unheard_append (first second : List RunnerEvent) :
    unheard (first ++ second) = unheard first ++ unheard second := List.filter_append _ _

@[simp] theorem unheard_nil : unheard [] = [] := rfl

@[simp] theorem unheard_cons_yield (event : StreamEvent) (closed : Bool) (rest : List RunnerEvent) :
    unheard (⟨.yield event, closed⟩ :: rest) = unheard rest := rfl

theorem unheard_of_asks {α : Type} {p : Runner α} {result : Except Thrown α}
    (hp : Program.Asks (S := runnerSig) (fun op => shown op = none) p) (h : Runs p trace result) :
    unheard trace = trace := by
  refine List.filter_eq_self.mpr fun exchange hmem => ?_
  have hop := listening_of_unshown (Program.Respects.asks_of_runs hp h exchange hmem)
  simp [Exchange.unanswered, hop]

/-- Where nothing is thrown in from outside, no event has closed the generator. -/
theorem answered_of_not_interrupted (h : ¬Marked RunnerOp.interrupts trace) :
    Answered (S := runnerSig) listening trace := by
  rintro ⟨op, reply⟩ hmem own hown
  cases op with
  | yield event =>
      cases hown
      exact Bool.eq_false_iff.mpr fun hclosed => h ⟨_, hmem, hclosed⟩
  | _ => cases hown

/-- A loop of `stream` that no one interrupts is a loop of `invoke`. -/
theorem runs_collect_of_forward {sessionId : String} {p : Runtime AgentState} {state : AgentState}
    {result : Except Thrown AgentState} (hresult : ∀ thrown, result = .error thrown →
      thrown.interruption = false)
    (h : Runs (iterate (forward observers sessionId) p state) trace result) :
    Runs (iterate (collect observers) p state) (unheard trace) result := by
  rw [← answering_iterate sessionId]
  refine runs_answering_iff.mpr ⟨trace, h, answered_of_not_interrupted fun hmarked => ?_, rfl⟩
  obtain ⟨thrown, hthrown, hinterruption⟩ :=
    (honest_iterate (honest_forward observers sessionId) p state _ _ h).mp hmarked
  rw [hresult thrown hthrown] at hinterruption
  cases hinterruption

theorem unheard_yieldEvent {event : StreamEvent} (h : Runs (yieldEvent event) trace (.ok ())) :
    unheard trace = [] := by
  obtain ⟨closed, rest, rfl, hclosed⟩ := runs_ask_iff.mp h
  cases closed with
  | true => cases (runs_fail_iff.mp hclosed).2
  | false =>
      obtain ⟨rfl, -⟩ := runs_pure_iff.mp hclosed
      rfl

/-- A stream that ends normally shows what `invoke` comes to on the same replies: its response or
the exception it raises. -/
theorem invoke_of_stream (h : Runs (stream observers digest graph request) trace (.ok ())) :
    (∃ response, (yields trace).getLast? = some (doneEvent request.sessionId response) ∧
        Runs (invoke observers digest graph request) (unheard trace) (.ok response)) ∨
      ∃ error, (yields trace).getLast? = some (errorEvent request.sessionId error) ∧
        Runs (invoke observers digest graph request) (unheard trace)
          (.error (.exception error)) := by
  obtain ⟨executionId, beginning, rest, hbeginning, hrest, rfl⟩ := runs_bind_ok_iff.mp h
  obtain ⟨_, starting, rest, hstarting, hopen, rfl⟩ := runs_bind_ok_iff.mp hrest
  obtain ⟨ended, handled, completing, hhandled, hcompleting, rfl⟩ := runs_bind_ok_iff.mp hopen
  have hbegun := unheard_of_asks (asks_unshown_beginExecution _ _ _) hbeginning
  have hstarted := unheard_yieldEvent hstarting
  rcases runs_handle_iff.mp hhandled with ⟨value, hok, heq⟩ |
    ⟨thrown, body, handling, hraised, hhandling, rfl⟩
  · cases heq
    obtain ⟨final, looped, ending, hlooped, hending, rfl⟩ := runs_bind_ok_iff.mp hok
    obtain ⟨rfl, hended⟩ := runs_pure_iff.mp hending
    cases hended
    obtain ⟨_, finishing, replying, hfinishing, hreplying, rfl⟩ := runs_bind_ok_iff.mp hcompleting
    obtain ⟨response, responding, last, hresponding, hlast, rfl⟩ := runs_bind_ok_iff.mp hreplying
    have hfinished := unheard_of_asks (asks_unshown_finishExecution _ _) hfinishing
    have hresponded := unheard_of_asks (asks_unshown_respond _ _) hresponding
    refine Or.inl ⟨response, ?_, ?_⟩
    · simp only [yields_append, (runs_yieldEvent hlast).1, ← List.append_assoc]
      exact List.getLast?_concat
    · have hcollected := runs_collect_of_forward (by simp) hlooped
      have hran : Runs (runInvoke observers digest graph request executionId)
          (unheard looped ++ (finishing ++ responding)) (.ok response) :=
        hcollected.bind (hfinishing.bind hresponding)
      have hrun : Runs (invoke observers digest graph request)
          (beginning ++ (unheard looped ++ (finishing ++ responding))) (.ok response) :=
        hbeginning.bind (runs_handle_iff.mpr (Or.inl ⟨response, hran, rfl⟩))
      simpa [hbegun, hstarted, hfinished, hresponded, unheard_yieldEvent hlast] using hrun
  · cases thrown with
    | cancelledError => cases (runs_fail_iff.mp hhandling).2
    | generatorExit => cases (runs_fail_iff.mp hhandling).2
    | exception error =>
        obtain ⟨_, finishing, closing, hfinishing, hclosing, rfl⟩ := runs_bind_ok_iff.mp hhandling
        obtain ⟨_, last, ending, hlast, hending, rfl⟩ := runs_bind_ok_iff.mp hclosing
        obtain ⟨rfl, hended⟩ := runs_pure_iff.mp hending
        cases hended
        obtain ⟨rfl, -⟩ := runs_pure_iff.mp hcompleting
        have hfinished := unheard_of_asks (asks_unshown_finishExecution _ _) hfinishing
        have hlooped : Runs (iterate (forward observers request.sessionId)
            (graph.astream digest request.policy request.state) request.state) body
              (.error (.exception error)) := by
          rcases runs_bind_iff.mp hraised with ⟨_, _, _, -, hpure, -⟩ | ⟨_, hthrown, heq⟩
          · cases (runs_pure_iff.mp hpure).2
          · cases heq
            exact hthrown
        refine Or.inr ⟨error, ?_, ?_⟩
        · simp only [yields_append, (runs_yieldEvent hlast).1, List.append_nil, ← List.append_assoc]
          exact List.getLast?_concat
        · have hcollected := runs_collect_of_forward
            (fun thrown hthrown => by cases hthrown; rfl) hlooped
          have hran : Runs (runInvoke observers digest graph request executionId) (unheard body)
              (.error (.exception error)) := hcollected.bind_error
          have hfailed : Runs (failInvoke observers error) (finishing ++ [])
              (.error (.exception error)) := hfinishing.bind (.fail _)
          have hrun : Runs (invoke observers digest graph request)
              (beginning ++ (unheard body ++ (finishing ++ []))) (.error (.exception error)) :=
            hbeginning.bind (runs_handle_iff.mpr (Or.inr ⟨_, _, _, hran, hfailed, rfl⟩))
          simpa [hbegun, hstarted, hfinished, unheard_yieldEvent hlast] using hrun

/-- Every response of `invoke` is that of a stream on the same replies. -/
theorem stream_of_invoke {response : Dict String Value}
    (h : Runs (invoke observers digest graph request) trace (.ok response)) :
    ∃ full, unheard full = trace ∧ Runs (stream observers digest graph request) full (.ok ()) ∧
      (yields full).getLast? = some (doneEvent request.sessionId response) := by
  obtain ⟨executionId, beginning, rest, hbeginning, hrest, rfl⟩ := runs_bind_ok_iff.mp h
  rcases runs_handle_iff.mp hrest with ⟨value, hok, heq⟩ |
    ⟨thrown, body, handling, -, hhandling, rfl⟩
  · cases heq
    obtain ⟨final, looped, replying, hlooped, hreplying, rfl⟩ := runs_bind_ok_iff.mp hok
    obtain ⟨_, finishing, responding, hfinishing, hresponding, rfl⟩ := runs_bind_ok_iff.mp hreplying
    rw [← answering_iterate request.sessionId] at hlooped
    obtain ⟨full, hfull, -, rfl⟩ := runs_answering_iff.mp hlooped
    have hyield : ∀ event, Runs (yieldEvent event) [⟨.yield event, false⟩] (.ok ()) := fun event =>
      runs_ask_iff.mpr ⟨false, [], rfl, .done ()⟩
    have hclosing : Runs (respond final executionId >>= fun response =>
        yieldEvent (doneEvent request.sessionId response))
        (responding ++ [⟨.yield (doneEvent request.sessionId response), false⟩]) (.ok ()) :=
      hresponding.bind (hyield _)
    have hcompleting : Runs (completeStream observers request.sessionId executionId (some final))
        (finishing ++ (responding ++ [⟨.yield (doneEvent request.sessionId response), false⟩]))
        (.ok ()) := hfinishing.bind hclosing
    have hended : Runs (exceptException (failStream observers request.sessionId)
        (some <$> iterate (forward observers request.sessionId)
          (graph.astream digest request.policy request.state) request.state)) (full ++ [])
          (.ok (some final)) :=
      runs_handle_iff.mpr (Or.inl ⟨some final, hfull.bind (.done (some final)), rfl⟩)
    have hrun : Runs (stream observers digest graph request)
        (beginning ++ ([⟨.yield (startEvent graph request executionId), false⟩] ++ (full ++ [] ++
          (finishing ++ (responding ++ [⟨.yield (doneEvent request.sessionId response), false⟩])))))
        (.ok ()) := hbeginning.bind ((hyield _).bind (hended.bind hcompleting))
    refine ⟨_, ?_, hrun, ?_⟩
    · simp [unheard_of_asks (asks_unshown_beginExecution _ _ _) hbeginning,
        unheard_of_asks (asks_unshown_finishExecution _ _) hfinishing,
        unheard_of_asks (asks_unshown_respond _ _) hresponding]
      rfl
    · simp only [yields_append, ← List.append_assoc]
      exact List.getLast?_concat
  · cases thrown with
    | exception error =>
        obtain ⟨_, _, _, -, hfailed, -⟩ := runs_bind_ok_iff.mp hhandling
        cases (runs_fail_iff.mp hfailed).2
    | _ => cases (runs_fail_iff.mp hhandling).2

/-- To a consumer who takes every event a stream is the run of `invoke` on the same replies: it
ends with DONE and the response or with ERROR and the exception, and no response of `invoke` is
out of its reach. -/
theorem stream_agrees_invoke :
    (∀ trace, Runs (stream observers digest graph request) trace (.ok ()) →
      (∃ response, (yields trace).getLast? = some (doneEvent request.sessionId response) ∧
        Runs (invoke observers digest graph request) (unheard trace) (.ok response)) ∨
      ∃ error, (yields trace).getLast? = some (errorEvent request.sessionId error) ∧
        Runs (invoke observers digest graph request) (unheard trace)
          (.error (.exception error))) ∧
    ∀ trace response, Runs (invoke observers digest graph request) trace (.ok response) →
      ∃ full, unheard full = trace ∧ Runs (stream observers digest graph request) full (.ok ()) ∧
        (yields full).getLast? = some (doneEvent request.sessionId response) :=
  ⟨fun _ => invoke_of_stream, fun _ _ => stream_of_invoke⟩

theorem stream_agrees_invoke_weatherQuery : ∃ response,
    Runs (invoke ⟨true, false⟩ (fun _ => "") oneToolWorkflow weatherQuery)
      (unheard weatherStream.trace) (.ok response) := by
  rcases stream_agrees_invoke.1 _ runs_weatherStream with ⟨response, -, hrun⟩ | ⟨error, hlast, -⟩
  · exact ⟨response, hrun⟩
  · have hdone : (yields weatherStream.trace).getLast?.map StreamEvent.event = some .done := by
      decide +kernel
    rw [hlast] at hdone
    cases hdone

end GraphRuntimeRunner

end TripGraph
