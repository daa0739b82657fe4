import TripGraph.Runtime.Components
import TripGraph.Workflow.Runner

/-! # Every execution is finished once, or not

What is thrown into a runner from outside passes its handlers by, and what is raised behind
the completion of `invoke` finishes the execution again.
-/

namespace TripGraph

open Interaction TripGraph.Graph

/-! ## Marks of a run -/

/-- The reply throws something into the coroutine that is not an exception. -/
def RunnerOp.interrupts : (op : RunnerOp) → op.Reply → Bool
  | .awaiting, cancelled => cancelled
  | .yield _, closed => closed
  | _, _ => false

/-- An observer raises at the begin of an execution. -/
def RunnerOp.failsToBegin : (op : RunnerOp) → op.Reply → Bool
  | .metricsBegin .., .error _ => true
  | _, _ => false

/-- An observer raises at the completion of an execution, or its response cannot be made. -/
def RunnerOp.failsToComplete : (op : RunnerOp) → op.Reply → Bool
  | .recorderFinish .completed _, .error _ => true
  | .metricsFinish .completed _, .error _ => true
  | .toResponse _, .error _ => true
  | _, _ => false

/-- The operation carries a mark somewhere in the trace. -/
def Marked (mark : (op : RunnerOp) → op.Reply → Bool) (trace : List RunnerEvent) : Prop :=
  ∃ event ∈ trace, mark event.op event.reply = true

section Marked

variable {mark : (op : RunnerOp) → op.Reply → Bool} {first second : List RunnerEvent}

@[simp] theorem not_marked_nil : ¬Marked mark [] := by simp [Marked]

@[simp] theorem marked_append : Marked mark (first ++ second) ↔ Marked mark first ∨
    Marked mark second := by
  simp only [Marked, List.mem_append, or_and_right, exists_or]

@[simp] theorem marked_cons {event : RunnerEvent} {trace : List RunnerEvent} :
    Marked mark (event :: trace) ↔ mark event.op event.reply = true ∨ Marked mark trace := by
  simp [Marked]

end Marked

/-- The execution leaves the status it began with. -/
def RunnerOp.finishes : RunnerOp → Bool
  | .recorderFinish status _ => decide (status ≠ .running)
  | _ => false

/-- How often an execution is finished. -/
def finishCount (trace : List RunnerEvent) : Nat := trace.countP fun event => event.op.finishes

@[simp] theorem finishCount_nil : finishCount [] = 0 := rfl

@[simp] theorem finishCount_append (first second : List RunnerEvent) :
    finishCount (first ++ second) = finishCount first + finishCount second := List.countP_append

/-- The part of an execution an operation belongs to. -/
inductive ExecutionStage
  | begin
  | loop
  | finish (status : ExecutionStatus)
  | respond
  | last
deriving DecidableEq

/-- Only the events that end a stream are yielded behind the loop. -/
def RunnerOp.stage : RunnerOp → ExecutionStage
  | .recorderBegin .. | .metricsBegin .. => .begin
  | .graph _ | .awaiting | .recorderEvent _ | .metricsEvent _ => .loop
  | .yield event => if event.event = .done ∨ event.event = .error then .last else .loop
  | .recorderFinish status _ | .metricsFinish status _ => .finish status
  | .toResponse _ => .respond

/-- An interruption before the end of the loop. -/
def RunnerOp.cutsOff (op : RunnerOp) (reply : op.Reply) : Bool :=
  op.interrupts reply && decide (op.stage = .loop)

section Stage

variable {op : RunnerOp}

theorem stage_of_finishes (h : op.finishes = true) : ∃ status, op.stage = .finish status := by
  cases op <;> simp_all [RunnerOp.finishes, RunnerOp.stage]

theorem stage_of_interrupts {reply : op.Reply} (h : op.interrupts reply = true) :
    op.stage = .loop ∨ op.stage = .last := by
  cases op with
  | awaiting => exact Or.inl rfl
  | yield event =>
      simp only [RunnerOp.stage]
      split <;> simp
  | _ => cases h

theorem stage_of_failsToBegin {reply : op.Reply} (h : op.failsToBegin reply = true) :
    op.stage = .begin := by
  cases op with
  | metricsBegin => rfl
  | _ => cases h

theorem stage_of_failsToComplete {reply : op.Reply} (h : op.failsToComplete reply = true) :
    op.stage = .finish .completed ∨ op.stage = .respond := by
  cases op with
  | recorderFinish status =>
      cases status with
      | completed => exact Or.inl rfl
      | _ => cases h
  | metricsFinish status =>
      cases status with
      | completed => exact Or.inl rfl
      | _ => cases h
  | toResponse => exact Or.inr rfl
  | _ => cases h

end Stage

section Stage

variable {α : Type} {p : Runner α} {stage : ExecutionStage} {trace : List RunnerEvent}
  {result : Except Thrown α}

/-- A program of one stage carries no mark of other stages. -/
theorem not_marked_of_stage {mark : (op : RunnerOp) → op.Reply → Bool}
    (hp : Program.Asks (S := runnerSig) (fun op => op.stage = stage) p)
    (hmark : ∀ op reply, mark op reply = true → op.stage ≠ stage) (h : Runs p trace result) :
    ¬Marked mark trace := by
  rintro ⟨event, hevent, hmarked⟩
  exact hmark _ _ hmarked (Program.Respects.asks_of_runs hp h event hevent)

theorem not_interrupted_of_stage (hp : Program.Asks (S := runnerSig) (fun op => op.stage = stage) p)
    (hloop : stage ≠ .loop) (hlast : stage ≠ .last) (h : Runs p trace result) :
    ¬Marked RunnerOp.interrupts trace := by
  refine not_marked_of_stage hp (fun op reply hmark hstage => ?_) h
  rcases stage_of_interrupts hmark with hown | hown
  · exact hloop (hstage.symm.trans hown)
  · exact hlast (hstage.symm.trans hown)

theorem not_failsToBegin_of_stage
    (hp : Program.Asks (S := runnerSig) (fun op => op.stage = stage) p) (hbegin : stage ≠ .begin)
    (h : Runs p trace result) : ¬Marked RunnerOp.failsToBegin trace :=
  not_marked_of_stage hp (fun _ _ hmark hstage =>
    hbegin (hstage.symm.trans (stage_of_failsToBegin hmark))) h

theorem not_failsToComplete_of_stage
    (hp : Program.Asks (S := runnerSig) (fun op => op.stage = stage) p)
    (hfinish : stage ≠ .finish .completed) (hrespond : stage ≠ .respond) (h : Runs p trace result) :
    ¬Marked RunnerOp.failsToComplete trace := by
  refine not_marked_of_stage hp (fun op reply hmark hstage => ?_) h
  rcases stage_of_failsToComplete hmark with hown | hown
  · exact hfinish (hstage.symm.trans hown)
  · exact hrespond (hstage.symm.trans hown)

theorem finishCount_of_stage (hp : Program.Asks (S := runnerSig) (fun op => op.stage = stage) p)
    (hstage : ∀ status, stage ≠ .finish status) (h : Runs p trace result) :
    finishCount trace = 0 := by
  refine List.countP_eq_zero.mpr fun event hevent hfinishes => ?_
  obtain ⟨status, hown⟩ := stage_of_finishes hfinishes
  rw [Program.Respects.asks_of_runs hp h event hevent] at hown
  exact hstage status hown

end Stage

namespace GraphRuntimeRunner

/-! ## Programs whose errors show in their replies -/

/-- The program ends with such an error exactly when a reply carries the mark. -/
def Shows {α : Type} (mark : (op : RunnerOp) → op.Reply → Bool) (ends : Thrown → Bool)
    (p : Runner α) : Prop :=
  ∀ trace result, Runs p trace result →
    (Marked mark trace ↔ ∃ thrown, result = .error thrown ∧ ends thrown = true)

/-- The program is given up exactly when something is thrown into it. -/
abbrev Honest {α : Type} (p : Runner α) : Prop := Shows RunnerOp.interrupts Thrown.interruption p

section Shows

variable {α β : Type} {mark : (op : RunnerOp) → op.Reply → Bool} {ends : Thrown → Bool}

theorem shows_pure (value : α) : Shows mark ends (pure value : Runner α) := by
  intro trace result h
  obtain ⟨rfl, rfl⟩ := runs_pure_iff.mp h
  simp

theorem shows_fail {thrown : Thrown} (h : ends thrown = false) :
    Shows mark ends (.fail thrown : Runner α) := by
  intro trace result hrun
  obtain ⟨rfl, rfl⟩ := runs_fail_iff.mp hrun
  simp [h]

theorem Shows.bind {p : Runner α} {f : α → Runner β} (hp : Shows mark ends p)
    (hf : ∀ value, Shows mark ends (f value)) : Shows mark ends (p >>= f) := by
  intro trace result h
  rcases runs_bind_iff.mp h with
    ⟨value, first, second, hfirst, hsecond, rfl⟩ | ⟨thrown, hthrown, rfl⟩
  · rw [marked_append, hp _ _ hfirst, hf value _ _ hsecond]
    simp
  · rw [hp _ _ hthrown]
    simp

/-- An operation that never carries the mark. -/
theorem shows_perform {op : RunnerOp} (hop : ∀ reply, mark op reply = false) :
    Shows mark ends (Program.perform (S := runnerSig) op : Runner op.Reply) := by
  intro trace result h
  obtain ⟨reply, rfl, rfl⟩ := runs_perform_iff.mp h
  simp [hop]

/-- An operation that carries the mark exactly when its reply is an error, which is raised. -/
theorem shows_asked {op : RunnerOp} {f : op.Reply → Runner α}
    (hends : ∀ error, ends (.exception error) = true)
    (hf : ∀ reply, (mark op reply = true ∧ ∃ error, f reply = .fail (.exception error)) ∨
      mark op reply = false ∧ Shows mark ends (f reply)) :
    Shows mark ends (Program.perform (S := runnerSig) op >>= f) := by
  intro trace result h
  obtain ⟨reply, rest, rfl, hrest⟩ := runs_ask_iff.mp h
  change Runs (f reply) rest result at hrest
  rcases hf reply with ⟨hmark, error, hfail⟩ | ⟨hmark, hshows⟩
  · rw [hfail] at hrest
    obtain ⟨rfl, rfl⟩ := runs_fail_iff.mp hrest
    simp [hmark, hends]
  · rw [marked_cons, hshows _ _ hrest]
    simp [hmark]

theorem honest_orThrow (reply : Except RaisedError α) : Honest (orThrow reply) := by
  cases reply with
  | ok value => exact shows_pure value
  | error error => exact shows_fail rfl

theorem honest_awaitPoint : Honest awaitPoint := by
  intro trace result h
  obtain ⟨cancelled, rest, rfl, hrest⟩ := runs_ask_iff.mp h
  cases cancelled with
  | true =>
      obtain ⟨rfl, rfl⟩ := runs_fail_iff.mp hrest
      simp [RunnerOp.interrupts, Thrown.interruption]
  | false =>
      obtain ⟨rfl, rfl⟩ := runs_pure_iff.mp hrest
      simp [RunnerOp.interrupts]

theorem honest_yieldEvent (event : StreamEvent) : Honest (yieldEvent event) := by
  intro trace result h
  obtain ⟨closed, rest, rfl, hrest⟩ := runs_ask_iff.mp h
  cases closed with
  | true =>
      obtain ⟨rfl, rfl⟩ := runs_fail_iff.mp hrest
      simp [RunnerOp.interrupts, Thrown.interruption]
  | false =>
      obtain ⟨rfl, rfl⟩ := runs_pure_iff.mp hrest
      simp [RunnerOp.interrupts]

theorem honest_pass (op : Op) : Honest (pass op) := by
  unfold pass
  split
  · exact honest_awaitPoint.bind fun _ => shows_perform fun _ => rfl
  · exact shows_perform fun _ => rfl

theorem honest_relay {onEvent : GraphEvent → AgentState → Runner AgentState}
    (hbody : ∀ event state, Honest (onEvent event state)) (state : AgentState) (op : Op) :
    Honest (relay onEvent state op) := by
  unfold relay
  split
  · exact (hbody _ state).bind fun after => shows_pure _
  · exact (honest_pass _).bind fun reply => shows_pure _

theorem honest_iterate {onEvent : GraphEvent → AgentState → Runner AgentState}
    (hbody : ∀ event state, Honest (onEvent event state)) (p : Runtime AgentState)
    (state : AgentState) : Honest (iterate onEvent p state) := by
  induction p generalizing state with
  | done value => exact shows_pure state
  | fail error => exact shows_fail rfl
  | ask op next ih => exact (honest_relay hbody state op).bind fun answered => ih _ _

end Shows

section Loop

variable (observers : Observers)

theorem honest_recordEvent (event : GraphEvent) : Honest (recordEvent observers event) := by
  unfold recordEvent
  split
  · exact (shows_perform fun _ => rfl).bind fun _ => honest_orThrow _
  · exact shows_pure _

theorem honest_measureEvent (event : GraphEvent) : Honest (measureEvent observers event) := by
  unfold measureEvent
  split
  · exact (shows_perform fun _ => rfl).bind fun _ => honest_orThrow _
  · exact shows_pure _

theorem honest_onGraphEvent (event : GraphEvent) : Honest (onGraphEvent observers event) :=
  (honest_recordEvent observers event).bind fun _ => honest_measureEvent observers event

theorem honest_collect (event : GraphEvent) (state : AgentState) :
    Honest (collect observers event state) :=
  (honest_onGraphEvent observers event).bind fun _ => shows_pure _

theorem honest_forward (sessionId : String) (event : GraphEvent) (state : AgentState) :
    Honest (forward observers sessionId event state) := by
  refine (honest_onGraphEvent observers event).bind fun _ => Shows.bind ?_ fun _ => shows_pure _
  unfold yieldGraphEvent
  split
  · exact honest_yieldEvent _
  · exact shows_pure _

end Loop

/-! ## The stages of an execution -/

section Stages

variable (observers : Observers)

theorem asks_orThrow {P : RunnerOp → Prop} {α : Type} (reply : Except RaisedError α) :
    Program.Asks (S := runnerSig) P (orThrow reply) := by
  cases reply <;> trivial

theorem asks_iterate {P : RunnerOp → Prop} (hgraph : ∀ op, P (.graph op)) (hawait : P .awaiting)
    {onEvent : GraphEvent → AgentState → Runner AgentState}
    (hbody : ∀ event state, Program.Asks (S := runnerSig) P (onEvent event state))
    (p : Runtime AgentState) (state : AgentState) :
    Program.Asks (S := runnerSig) P (iterate onEvent p state) := by
  induction p generalizing state with
  | done value => trivial
  | fail error => trivial
  | ask op next ih =>
      refine Program.Respects.bind (Q := fun _ => True) ?_ fun answered _ => ih _ _
      unfold relay
      split
      · exact (hbody _ state).bind fun _ _ => trivial
      · refine Program.Respects.bind (Q := fun _ => True) ?_ fun _ _ => trivial
        have hperform : ∀ op : Op, Program.Asks (S := runnerSig) P
            (Program.perform (S := runnerSig) (.graph op) : Runner op.Reply) :=
          fun op => ⟨hgraph op, fun _ => trivial⟩
        unfold pass
        split
        · refine Program.Respects.bind (Q := fun _ => True) ⟨hawait, fun cancelled => ?_⟩
            fun _ _ => hperform _
          cases cancelled <;> trivial
        · exact hperform _

theorem asks_onGraphEvent (event : GraphEvent) :
    Program.Asks (S := runnerSig) (fun op => op.stage = .loop) (onGraphEvent observers event) := by
  refine Program.Respects.bind (Q := fun _ => True) ?_ fun _ _ => ?_
  · unfold recordEvent
    split
    · exact ⟨rfl, fun reply => asks_orThrow reply⟩
    · trivial
  · unfold measureEvent
    split
    · exact ⟨rfl, fun reply => asks_orThrow reply⟩
    · trivial

theorem asks_collect (event : GraphEvent) (state : AgentState) :
    Program.Asks (S := runnerSig) (fun op => op.stage = .loop) (collect observers event state) :=
  (asks_onGraphEvent observers event).bind fun _ _ => trivial

/-- No event of the graph is shown as the end of the stream. -/
theorem stage_streamed {sessionId : String} {event : GraphEvent} {kind : StreamEventType}
    {data : Args} (h : streamed event = some (kind, data)) :
    (RunnerOp.yield ⟨kind, data, some sessionId⟩).stage = .loop := by
  cases event <;> cases h <;> rfl

theorem asks_forward (sessionId : String) (event : GraphEvent) (state : AgentState) :
    Program.Asks (S := runnerSig) (fun op => op.stage = .loop)
      (forward observers sessionId event state) := by
  refine (asks_onGraphEvent observers event).bind fun _ _ =>
    Program.Respects.bind (Q := fun _ => True) ?_ fun _ _ => trivial
  unfold yieldGraphEvent
  split
  next kind data hstreamed =>
    refine ⟨stage_streamed hstreamed, fun closed => ?_⟩
    cases closed <;> trivial
  · trivial

theorem asks_beginExecution (sessionId query graphId : String) :
    Program.Asks (S := runnerSig) (fun op => op.stage = .begin)
      (beginExecution observers sessionId query graphId) := by
  refine Program.Respects.bind (Q := fun _ => True) ?_ fun _ _ => ?_
  · unfold beginRecording
    split
    · exact ⟨rfl, fun _ => trivial⟩
    · trivial
  · unfold beginMetrics
    split
    · exact ⟨rfl, fun reply => (asks_orThrow reply).bind fun _ _ => trivial⟩
    · trivial

theorem asks_finishExecution (status : ExecutionStatus) (errorMessage : Option String) :
    Program.Asks (S := runnerSig) (fun op => op.stage = .finish status)
      (finishExecution observers status errorMessage) := by
  refine Program.Respects.bind (Q := fun _ => True) ?_ fun _ _ => ?_
  · unfold finishRecording
    split
    · exact ⟨rfl, fun reply => asks_orThrow reply⟩
    · trivial
  · unfold finishMetrics
    split
    · exact ⟨rfl, fun reply => asks_orThrow reply⟩
    · trivial

theorem asks_respond (state : AgentState) (executionId : Option String) :
    Program.Asks (S := runnerSig) (fun op => op.stage = .respond) (respond state executionId) :=
  ⟨rfl, fun reply => (asks_orThrow reply).bind fun _ _ => trivial⟩

/-! ## What each stage leaves in the trace -/

variable {observers} {trace : List RunnerEvent}

theorem runs_begin {sessionId query graphId : String} {result : Except Thrown (Option String)}
    (h : Runs (beginExecution observers sessionId query graphId) trace result) :
    finishCount trace = 0 ∧ ¬Marked RunnerOp.interrupts trace ∧
      ¬Marked RunnerOp.failsToComplete trace ∧
      (Marked RunnerOp.failsToBegin trace ↔ ∃ thrown, result = .error thrown) := by
  have hasks := asks_beginExecution observers sessionId query graphId
  have hshows : Shows RunnerOp.failsToBegin (fun _ => true)
      (beginExecution observers sessionId query graphId) := by
    refine Shows.bind ?_ fun executionId => ?_
    · unfold beginRecording
      split
      · exact (shows_perform fun _ => rfl).bind fun _ => shows_pure _
      · exact shows_pure _
    · unfold beginMetrics
      split
      · refine shows_asked (fun _ => rfl) fun reply => ?_
        cases reply with
        | ok metricsId => exact Or.inr ⟨rfl, shows_pure _⟩
        | error error => exact Or.inl ⟨rfl, error, rfl⟩
      · exact shows_pure _
  exact ⟨finishCount_of_stage hasks
    (by simp) h, not_interrupted_of_stage hasks (by simp) (by simp) h,
    not_failsToComplete_of_stage hasks (by simp) (by simp) h, by simpa using hshows _ _ h⟩

/-- The loop of `invoke` and of `stream`. -/
theorem runs_iterate {onEvent : GraphEvent → AgentState → Runner AgentState}
    (hasks : ∀ event state, Program.Asks (S := runnerSig) (fun op => op.stage = .loop)
      (onEvent event state))
    (hhonest : ∀ event state, Honest (onEvent event state)) {p : Runtime AgentState}
    {state : AgentState} {result : Except Thrown AgentState}
    (h : Runs (iterate onEvent p state) trace result) :
    finishCount trace = 0 ∧ ¬Marked RunnerOp.failsToBegin trace ∧
      ¬Marked RunnerOp.failsToComplete trace ∧
      (Marked RunnerOp.interrupts trace ↔
        ∃ thrown, result = .error thrown ∧ thrown.interruption = true) := by
  have hloop := asks_iterate (P := fun op => op.stage = .loop) (fun _ => rfl) rfl hasks p state
  exact ⟨finishCount_of_stage hloop (by simp) h, not_failsToBegin_of_stage hloop (by simp) h,
    not_failsToComplete_of_stage hloop (by simp) (by simp) h, honest_iterate hhonest p state _ _ h⟩

theorem finishCount_finishExecution (hrecorder : observers.recorder = true)
    {status : ExecutionStatus} (hstatus : status ≠ .running) {errorMessage : Option String}
    {result : Except Thrown Unit}
    (h : Runs (finishExecution observers status errorMessage) trace result) :
    finishCount trace = 1 := by
  have hmetrics : ∀ {trace result},
    Runs (finishMetrics observers status errorMessage) trace result →
      finishCount trace = 0 := by
    intro trace result hrun
    unfold finishMetrics at hrun
    split at hrun
    · obtain ⟨reply, rest, rfl, hrest⟩ := runs_ask_iff.mp hrun
      cases reply with
      | ok _ => cases hrest; rfl
      | error _ => cases hrest; rfl
    · cases hrun
      rfl
  have hrecording : ∀ {trace result},
      Runs (finishRecording observers status errorMessage) trace result →
        finishCount trace = 1 := by
    intro trace result hrun
    rw [finishRecording, if_pos hrecorder] at hrun
    obtain ⟨reply, rest, rfl, hrest⟩ := runs_ask_iff.mp hrun
    cases reply with
    | ok _ => cases hrest; simp [finishCount, RunnerOp.finishes, hstatus]
    | error _ => cases hrest; simp [finishCount, RunnerOp.finishes, hstatus]
  rcases runs_bind_iff.mp h with ⟨_, first, second, hfirst, hsecond, rfl⟩ | ⟨thrown, hthrown, -⟩
  · rw [finishCount_append, hrecording hfirst, hmetrics hsecond]
  · exact hrecording hthrown

theorem exception_of_not_interrupted {α : Type} {p : Runner α} {result : Except Thrown α}
    (hhonest : Honest p) (h : Runs p trace result) (hnot : ¬Marked RunnerOp.interrupts trace) :
    ∀ thrown, result = .error thrown → ∃ error, thrown = .exception error := by
  rintro thrown rfl
  cases thrown with
  | exception error => exact ⟨error, rfl⟩
  | cancelledError => exact absurd ((hhonest _ _ h).mpr ⟨_, rfl, rfl⟩) hnot
  | generatorExit => exact absurd ((hhonest _ _ h).mpr ⟨_, rfl, rfl⟩) hnot

theorem honest_finishExecution (status : ExecutionStatus) (errorMessage : Option String) :
    Honest (finishExecution observers status errorMessage) := by
  refine Shows.bind ?_ fun _ => ?_
  · unfold finishRecording
    split
    · exact (shows_perform fun _ => rfl).bind fun _ => honest_orThrow _
    · exact shows_pure _
  · unfold finishMetrics
    split
    · exact (shows_perform fun _ => rfl).bind fun _ => honest_orThrow _
    · exact shows_pure _

/-- Finishing an execution, whatever comes of it. -/
theorem runs_finishExecution (hrecorder : observers.recorder = true)
    {status : ExecutionStatus} (hstatus : status ≠ .running) {errorMessage : Option String}
    {result : Except Thrown Unit}
    (h : Runs (finishExecution observers status errorMessage) trace result) :
    finishCount trace = 1 ∧ ¬Marked RunnerOp.interrupts trace ∧
      ¬Marked RunnerOp.failsToBegin trace ∧
      (status = .failed → ¬Marked RunnerOp.failsToComplete trace) ∧
      ∀ thrown, result = .error thrown → ∃ error, thrown = .exception error := by
  have hasks := asks_finishExecution observers status errorMessage
  have hnot := not_interrupted_of_stage hasks (by simp) (by simp) h
  refine ⟨finishCount_finishExecution hrecorder hstatus h, hnot,
    not_failsToBegin_of_stage hasks (by simp) h, ?_,
    exception_of_not_interrupted (honest_finishExecution status errorMessage) h hnot⟩
  rintro rfl
  exact not_failsToComplete_of_stage hasks (by simp) (by simp) h

/-- The completion of an execution raises exactly when an observer does. -/
theorem failsToComplete_finishExecution {errorMessage : Option String} {result : Except Thrown Unit}
    (h : Runs (finishExecution observers .completed errorMessage) trace result) :
    Marked RunnerOp.failsToComplete trace ↔ ∃ thrown, result = .error thrown := by
  have hshows : Shows RunnerOp.failsToComplete (fun _ => true)
      (finishExecution observers .completed errorMessage) := by
    refine Shows.bind ?_ fun _ => ?_
    · unfold finishRecording
      split
      · refine shows_asked (fun _ => rfl) fun reply => ?_
        cases reply with
        | ok _ => exact Or.inr ⟨rfl, shows_pure _⟩
        | error error => exact Or.inl ⟨rfl, error, rfl⟩
      · exact shows_pure _
    · unfold finishMetrics
      split
      · refine shows_asked (fun _ => rfl) fun reply => ?_
        cases reply with
        | ok _ => exact Or.inr ⟨rfl, shows_pure _⟩
        | error error => exact Or.inl ⟨rfl, error, rfl⟩
      · exact shows_pure _
  simpa using hshows _ _ h

theorem runs_respond {state : AgentState} {executionId : Option String}
    {result : Except Thrown (Dict String Value)}
    (h : Runs (respond state executionId) trace result) :
    finishCount trace = 0 ∧ ¬Marked RunnerOp.interrupts trace ∧
      ¬Marked RunnerOp.failsToBegin trace ∧
      (Marked RunnerOp.failsToComplete trace ↔ ∃ thrown, result = .error thrown) ∧
      ∀ thrown, result = .error thrown → ∃ error, thrown = .exception error := by
  have hasks := asks_respond state executionId
  have hnot := not_interrupted_of_stage hasks (by simp) (by simp) h
  have hshows : Shows RunnerOp.failsToComplete (fun _ => true) (respond state executionId) := by
    refine shows_asked (fun _ => rfl) fun reply => ?_
    cases reply with
    | ok _ => exact Or.inr ⟨rfl, shows_pure _⟩
    | error error => exact Or.inl ⟨rfl, error, rfl⟩
  have hhonest : Honest (respond state executionId) :=
    (shows_perform fun _ => rfl).bind fun reply => (honest_orThrow reply).bind fun _ => shows_pure _
  exact ⟨finishCount_of_stage hasks (by simp) h, hnot, not_failsToBegin_of_stage hasks (by simp) h,
    by simpa using hshows _ _ h, exception_of_not_interrupted hhonest h hnot⟩

theorem not_cutsOff_of_not_interrupted (h : ¬Marked RunnerOp.interrupts trace) :
    ¬Marked RunnerOp.cutsOff trace := by
  rintro ⟨event, hevent, hcuts⟩
  exact h ⟨event, hevent, (Bool.and_eq_true_iff.mp hcuts).1⟩

/-- Within the loop every interruption cuts the execution off. -/
theorem cutsOff_iff_of_loop {α : Type} {p : Runner α} {result : Except Thrown α}
    (hasks : Program.Asks (S := runnerSig) (fun op => op.stage = .loop) p)
    (h : Runs p trace result) :
    Marked RunnerOp.cutsOff trace ↔ Marked RunnerOp.interrupts trace := by
  constructor
  · rintro ⟨event, hevent, hcuts⟩
    exact ⟨event, hevent, (Bool.and_eq_true_iff.mp hcuts).1⟩
  · rintro ⟨event, hevent, hinterrupts⟩
    refine ⟨event, hevent, ?_⟩
    have hstage := Program.Respects.asks_of_runs hasks h event hevent
    simp [RunnerOp.cutsOff, hinterrupts, hstage]

end Stages

/-! ## Executions -/

section Executions

variable {observers : Observers} {digest : Snapshot → String} {graph : Graph} {request : Request}
  {trace : List RunnerEvent}

/-- How the part of `invoke` within its handler ends: with a response, with an exception before
or behind the completion, or given up. -/
inductive InvokeEnds (trace : List RunnerEvent) : Except Thrown (Dict String Value) → Prop
  | responded (response : Dict String Value) (finished : finishCount trace = 1)
      (carriedOn : ¬Marked RunnerOp.cutsOff trace)
      (completed : ¬Marked RunnerOp.failsToComplete trace) : InvokeEnds trace (.ok response)
  | raised (error : RaisedError) (unfinished : finishCount trace = 0)
      (carriedOn : ¬Marked RunnerOp.cutsOff trace)
      (completed : ¬Marked RunnerOp.failsToComplete trace) :
      InvokeEnds trace (.error (.exception error))
  | givenUp (thrown : Thrown) (interruption : thrown.interruption = true)
      (unfinished : finishCount trace = 0) (cutOff : Marked RunnerOp.cutsOff trace) :
      InvokeEnds trace (.error thrown)
  | raisedBehind (error : RaisedError) (finished : finishCount trace = 1)
      (failed : Marked RunnerOp.failsToComplete trace) :
      InvokeEnds trace (.error (.exception error))

theorem runs_runInvoke (hrecorder : observers.recorder = true) {executionId : Option String}
    {result : Except Thrown (Dict String Value)}
    (h : Runs (runInvoke observers digest graph request executionId) trace result) :
    ¬Marked RunnerOp.failsToBegin trace ∧ InvokeEnds trace result := by
  have hloop := asks_iterate (P := fun op => op.stage = .loop) (fun _ => rfl) rfl
    (asks_collect observers) (graph.astream digest request.policy request.state) request.state
  rcases runs_bind_iff.mp h with ⟨final, looped, rest, hlooped, hrest, rfl⟩ | ⟨thrown, hlooped, rfl⟩
  · obtain ⟨hcount, hbegin, hcomplete, hinterrupts⟩ :=
      runs_iterate (asks_collect observers) (honest_collect observers) hlooped
    have hcuts : ¬Marked RunnerOp.cutsOff looped := by
      rw [cutsOff_iff_of_loop hloop hlooped, hinterrupts]
      simp
    rcases runs_bind_iff.mp hrest with ⟨_, finishing, responding, hfinishing, hresponding, rfl⟩ |
      ⟨thrown, hfinishing, rfl⟩
    · obtain ⟨hfinished, hnot, hfinishBegin, -, -⟩ :=
        runs_finishExecution hrecorder (by simp) hfinishing
      have hfinishComplete : ¬Marked RunnerOp.failsToComplete finishing := by
        rw [failsToComplete_finishExecution hfinishing]
        simp
      obtain ⟨hresponded, hrespondNot, hrespondBegin, hrespondComplete, hexception⟩ :=
        runs_respond hresponding
      refine ⟨by simp [hbegin, hfinishBegin, hrespondBegin], ?_⟩
      -- only the middle part finishes the execution
      have hall : finishCount (looped ++ (finishing ++ responding)) = 1 := by
        simp [hcount, hfinished, hresponded]
      cases result with
      | ok response =>
          refine .responded response hall ?_ ?_
          · simp [hcuts, not_cutsOff_of_not_interrupted hnot,
              not_cutsOff_of_not_interrupted hrespondNot]
          · simp [hcomplete, hfinishComplete, hrespondComplete]
      | error thrown =>
          obtain ⟨error, rfl⟩ := hexception thrown rfl
          exact .raisedBehind error hall (by simp [hrespondComplete])
    · obtain ⟨hfinished, -, hfinishBegin, -, hexception⟩ :=
        runs_finishExecution hrecorder (by simp) hfinishing
      obtain ⟨error, rfl⟩ := hexception thrown rfl
      refine ⟨by simp [hbegin, hfinishBegin], .raisedBehind error (by simp [hcount, hfinished]) ?_⟩
      rw [marked_append, failsToComplete_finishExecution hfinishing]
      simp
  · obtain ⟨hcount, hbegin, hcomplete, hinterrupts⟩ :=
      runs_iterate (asks_collect observers) (honest_collect observers) hlooped
    refine ⟨hbegin, ?_⟩
    rw [← cutsOff_iff_of_loop hloop hlooped] at hinterrupts
    cases thrown with
    | exception error =>
        refine .raised error hcount ?_ hcomplete
        rw [hinterrupts]
        simp [Thrown.interruption]
    | cancelledError => exact .givenUp _ rfl hcount (hinterrupts.mpr ⟨_, rfl, rfl⟩)
    | generatorExit => exact .givenUp _ rfl hcount (hinterrupts.mpr ⟨_, rfl, rfl⟩)

/-- What `invoke` finishes once. -/
theorem finishCount_invoke (hrecorder : observers.recorder = true)
    {result : Except Thrown (Dict String Value)}
    (h : Runs (invoke observers digest graph request) trace result) :
    finishCount trace = 1 ↔ ¬Marked RunnerOp.failsToBegin trace ∧ ¬Marked RunnerOp.cutsOff trace ∧
      ¬Marked RunnerOp.failsToComplete trace := by
  rcases runs_bind_iff.mp h with ⟨executionId, beginning, rest, hbeginning, hrest, rfl⟩ |
    ⟨thrown, hbeginning, rfl⟩
  · obtain ⟨hcount, hnot, hcomplete, hbegin⟩ := runs_begin hbeginning
    have hcuts := not_cutsOff_of_not_interrupted hnot
    have hbegun : ¬Marked RunnerOp.failsToBegin beginning := by
      rw [hbegin]
      simp
    rcases runs_handle_iff.mp hrest with ⟨response, hbody, -⟩ |
      ⟨thrown, body, handling, hbody, hhandling, rfl⟩
    · obtain ⟨hbodyBegin, hends⟩ := runs_runInvoke hrecorder hbody
      cases hends with
      | responded _ hfinished hbodyCuts hbodyComplete =>
          simp [hcount, hbegun, hcuts, hcomplete, hbodyBegin, hfinished, hbodyCuts, hbodyComplete]
    · obtain ⟨hbodyBegin, hends⟩ := runs_runInvoke hrecorder hbody
      have hfailed : ∀ error, thrown = .exception error → finishCount handling = 1 ∧
          ¬Marked RunnerOp.cutsOff handling ∧ ¬Marked RunnerOp.failsToBegin handling ∧
          ¬Marked RunnerOp.failsToComplete handling := by
        rintro error rfl
        have hfinish : ∃ finishing own, Runs (finishExecution observers .failed (some error.text))
            finishing own ∧ handling = finishing := by
          rcases runs_bind_iff.mp hhandling with ⟨_, finishing, last, hfinishing, hlast, rfl⟩ |
            ⟨_, hfinishing, -⟩
          · obtain ⟨rfl, -⟩ := runs_fail_iff.mp hlast
            exact ⟨finishing, _, hfinishing, List.append_nil _⟩
          · exact ⟨handling, _, hfinishing, rfl⟩
        obtain ⟨finishing, own, hfinishing, rfl⟩ := hfinish
        obtain ⟨hfinished, hnot, hfinishBegin, hfinishComplete, -⟩ :=
          runs_finishExecution hrecorder (by simp) hfinishing
        exact ⟨hfinished, not_cutsOff_of_not_interrupted hnot, hfinishBegin, hfinishComplete rfl⟩
      cases hends with
      | raised error hunfinished hbodyCuts hbodyComplete =>
          obtain ⟨hfinished, hlastCuts, hlastBegin, hlastComplete⟩ := hfailed error rfl
          simp [hcount, hbegun, hcuts, hcomplete, hbodyBegin, hunfinished, hbodyCuts, hbodyComplete,
            hfinished, hlastCuts, hlastBegin, hlastComplete]
      | givenUp _ hinterruption hunfinished hbodyCuts =>
          have hhandled : handling = [] := by
            cases thrown with
            | exception error => cases hinterruption
            | cancelledError => exact (runs_fail_iff.mp hhandling).1
            | generatorExit => exact (runs_fail_iff.mp hhandling).1
          simp [hcount, hunfinished, hhandled, hbodyCuts]
      | raisedBehind error hfinished hbodyComplete =>
          -- the handler finishes the completed execution a second time
          obtain ⟨hagain, -, -, -⟩ := hfailed error rfl
          simp [hcount, hfinished, hagain, hbodyComplete]
  · obtain ⟨hcount, -, -, hbegin⟩ := runs_begin hbeginning
    have hfails : Marked RunnerOp.failsToBegin trace := hbegin.mpr ⟨thrown, rfl⟩
    simp [hcount, hfails]

/-- However it ends, the program finishes so often, and nothing cuts it off. -/
def Finishes {α : Type} (count : Nat) (p : Runner α) : Prop :=
  ∀ trace result, Runs p trace result → finishCount trace = count ∧
    ¬Marked RunnerOp.failsToBegin trace ∧ ¬Marked RunnerOp.cutsOff trace

theorem finishes_pure {α : Type} (value : α) : Finishes 0 (pure value : Runner α) := by
  intro trace result h
  obtain ⟨rfl, rfl⟩ := runs_pure_iff.mp h
  simp

theorem Finishes.bind {α β : Type} {count : Nat} {p : Runner α} {f : α → Runner β}
    (hp : Finishes count p) (hf : ∀ value, Finishes 0 (f value)) : Finishes count (p >>= f) := by
  intro trace result h
  rcases runs_bind_iff.mp h with ⟨value, first, second, hfirst, hsecond, rfl⟩ | ⟨thrown, hthrown, -⟩
  · obtain ⟨hcount, hbegin, hcuts⟩ := hp _ _ hfirst
    obtain ⟨hnone, hlastBegin, hlastCuts⟩ := hf value _ _ hsecond
    simp [hcount, hbegin, hcuts, hnone, hlastBegin, hlastCuts]
  · exact hp _ _ hthrown

theorem finishes_finishExecution (hrecorder : observers.recorder = true) {status : ExecutionStatus}
    (hstatus : status ≠ .running) (errorMessage : Option String) :
    Finishes 1 (finishExecution observers status errorMessage) := by
  intro trace result h
  obtain ⟨hcount, hnot, hbegin, -, -⟩ := runs_finishExecution hrecorder hstatus h
  exact ⟨hcount, hbegin, not_cutsOff_of_not_interrupted hnot⟩

theorem finishes_respond (state : AgentState) (executionId : Option String) :
    Finishes 0 (respond state executionId) := by
  intro trace result h
  obtain ⟨hcount, hnot, hbegin, -, -⟩ := runs_respond h
  exact ⟨hcount, hbegin, not_cutsOff_of_not_interrupted hnot⟩

/-- At the last event the consumer may close the generator. -/
theorem finishes_yieldEvent {event : StreamEvent}
    (hlast : event.event = .done ∨ event.event = .error) : Finishes 0 (yieldEvent event) := by
  intro trace result h
  obtain ⟨closed, rest, rfl, hrest⟩ := runs_ask_iff.mp h
  have hrest : rest = [] := by
    cases closed with
    | true => exact (runs_fail_iff.mp hrest).1
    | false => exact (runs_pure_iff.mp hrest).1
  subst hrest
  simp [finishCount, RunnerOp.finishes, RunnerOp.failsToBegin, RunnerOp.cutsOff, RunnerOp.stage,
    hlast]

theorem finishes_failStream (hrecorder : observers.recorder = true) (sessionId : String)
    (error : RaisedError) : Finishes 1 (failStream observers sessionId error) :=
  (finishes_finishExecution hrecorder (by simp) _).bind fun _ =>
    (finishes_yieldEvent (Or.inr rfl)).bind fun _ => finishes_pure _

theorem finishes_completeStream (hrecorder : observers.recorder = true) (sessionId : String)
    (executionId : Option String) (final : AgentState) :
    Finishes 1 (completeStream observers sessionId executionId (some final)) :=
  (finishes_finishExecution hrecorder (by simp) _).bind fun _ =>
    (finishes_respond final executionId).bind fun _ => finishes_yieldEvent (Or.inl rfl)

theorem ended_failStream {sessionId : String} {error : RaisedError} {ended : Option AgentState}
    (h : Runs (failStream observers sessionId error) trace (.ok ended)) : ended = none := by
  obtain ⟨_, _, _, -, hrest, -⟩ := runs_bind_ok_iff.mp h
  obtain ⟨_, _, _, -, hrest, -⟩ := runs_bind_ok_iff.mp hrest
  exact Except.ok.inj (runs_pure_iff.mp hrest).2

/-- The loop of `stream` with its handler and what follows. -/
theorem runs_streamLoop (hrecorder : observers.recorder = true) {executionId : Option String}
    {result : Except Thrown Unit}
    (h : Runs (exceptException (failStream observers request.sessionId)
        (some <$> iterate (forward observers request.sessionId)
          (graph.astream digest request.policy request.state) request.state) >>=
      completeStream observers request.sessionId executionId) trace result) :
    ¬Marked RunnerOp.failsToBegin trace ∧
      (finishCount trace = 1 ↔ ¬Marked RunnerOp.cutsOff trace) := by
  have hloop := asks_iterate (P := fun op => op.stage = .loop) (fun _ => rfl) rfl
    (asks_forward observers request.sessionId)
    (graph.astream digest request.policy request.state) request.state
  -- nothing is finished inside the loop
  have hlooped : ∀ {looped own}, Runs (iterate (forward observers request.sessionId)
      (graph.astream digest request.policy request.state) request.state) looped own →
      finishCount looped = 0 ∧ ¬Marked RunnerOp.failsToBegin looped ∧
        (Marked RunnerOp.cutsOff looped ↔
          ∃ thrown, own = .error thrown ∧ thrown.interruption = true) := by
    intro looped own hrun
    obtain ⟨hcount, hbegin, -, hinterrupts⟩ := runs_iterate (asks_forward observers _)
      (honest_forward observers _) hrun
    exact ⟨hcount, hbegin, (cutsOff_iff_of_loop hloop hrun).trans hinterrupts⟩
  have hbody : ∀ {body : List RunnerEvent} {own : Except Thrown (Option AgentState)},
      Runs (some <$> iterate (forward observers request.sessionId)
        (graph.astream digest request.policy request.state) request.state) body own →
      ∃ inner, Runs (iterate (forward observers request.sessionId)
        (graph.astream digest request.policy request.state) request.state) body inner ∧
        own = inner.map some := by
    intro body own hrun
    rcases runs_bind_iff.mp hrun with ⟨final, first, second, hfirst, hsecond, rfl⟩ |
      ⟨thrown, hthrown, rfl⟩
    · obtain ⟨rfl, rfl⟩ := runs_pure_iff.mp hsecond
      exact ⟨.ok final, by rwa [List.append_nil], rfl⟩
    · exact ⟨.error thrown, hthrown, rfl⟩
  rcases runs_bind_iff.mp h with ⟨ended, handled, completing, hhandled, hcompleting, rfl⟩ |
    ⟨thrown, hhandled, rfl⟩
  · rcases runs_handle_iff.mp hhandled with ⟨value, hok, heq⟩ |
      ⟨thrown, body, handling, hraised, hhandling, rfl⟩
    · obtain ⟨inner, hinner, hmap⟩ := hbody hok
      cases heq
      cases inner with
      | error thrown => cases hmap
      | ok final =>
          cases hmap
          obtain ⟨hcount, hbegin, hcuts⟩ := hlooped hinner
          obtain ⟨hfinished, hlastBegin, hlastCuts⟩ :=
            finishes_completeStream hrecorder request.sessionId executionId final _ _ hcompleting
          simp [hcount, hbegin, hcuts, hfinished, hlastBegin, hlastCuts]
    · obtain ⟨inner, hinner, hmap⟩ := hbody hraised
      cases inner with
      | ok final => cases hmap
      | error own =>
          cases hmap
          obtain ⟨hcount, hbegin, hcuts⟩ := hlooped hinner
          cases thrown with
          | exception error =>
              obtain ⟨hfinished, hlastBegin, hlastCuts⟩ :=
                finishes_failStream hrecorder request.sessionId error _ _ hhandling
              obtain rfl := ended_failStream hhandling
              obtain ⟨rfl, -⟩ := runs_pure_iff.mp hcompleting
              simp [hcount, hbegin, hcuts, hfinished, hlastBegin, hlastCuts, Thrown.interruption]
          -- the handler is for exceptions and lets these two pass
          | cancelledError => cases (runs_fail_iff.mp hhandling).2
          | generatorExit => cases (runs_fail_iff.mp hhandling).2
  · rcases runs_handle_iff.mp hhandled with ⟨value, -, heq⟩ |
      ⟨own, body, handling, hraised, hhandling, rfl⟩
    · cases heq
    · obtain ⟨inner, hinner, hmap⟩ := hbody hraised
      cases inner with
      | ok final => cases hmap
      | error _ =>
          cases hmap
          obtain ⟨hcount, hbegin, hcuts⟩ := hlooped hinner
          cases own with
          | exception error =>
              obtain ⟨hfinished, hlastBegin, hlastCuts⟩ :=
                finishes_failStream hrecorder request.sessionId error _ _ hhandling
              simp [hcount, hbegin, hcuts, hfinished, hlastBegin, hlastCuts, Thrown.interruption]
          | cancelledError =>
              obtain ⟨rfl, -⟩ := runs_fail_iff.mp hhandling
              simp [hcount, hbegin, hcuts, Thrown.interruption]
          | generatorExit =>
              obtain ⟨rfl, -⟩ := runs_fail_iff.mp hhandling
              simp [hcount, hbegin, hcuts, Thrown.interruption]

/-- What `stream` finishes once. -/
theorem finishCount_stream (hrecorder : observers.recorder = true) {result : Except Thrown Unit}
    (h : Runs (stream observers digest graph request) trace result) :
    finishCount trace = 1 ↔
      ¬Marked RunnerOp.failsToBegin trace ∧ ¬Marked RunnerOp.cutsOff trace := by
  rcases runs_bind_iff.mp h with ⟨executionId, beginning, rest, hbeginning, hrest, rfl⟩ |
    ⟨thrown, hbeginning, rfl⟩
  · obtain ⟨hcount, hnot, -, hbegin⟩ := runs_begin hbeginning
    have hcuts := not_cutsOff_of_not_interrupted hnot
    have hbegun : ¬Marked RunnerOp.failsToBegin beginning := by
      rw [hbegin]
      simp
    obtain ⟨closed, rest, rfl, hopen⟩ := runs_ask_iff.mp hrest
    have hstage : (RunnerOp.yield (startEvent graph request executionId)).stage = .loop := rfl
    cases closed with
    | true =>
        -- the consumer has closed the generator before the handler is set up
        obtain ⟨rfl, -⟩ := runs_fail_iff.mp hopen
        have hstart :
            finishCount [⟨.yield (startEvent graph request executionId), true⟩] = 0 := rfl
        simp [hcount, hstart, hstage, RunnerOp.cutsOff, RunnerOp.interrupts]
    | false =>
        obtain ⟨hloopBegin, hfinished⟩ := runs_streamLoop hrecorder hopen
        have hstart : finishCount (⟨.yield (startEvent graph request executionId), false⟩ :: rest) =
            finishCount rest := by simp [finishCount, RunnerOp.finishes]
        rw [finishCount_append, hcount, hstart, Nat.zero_add, hfinished]
        simp [hbegun, hcuts, hloopBegin, RunnerOp.failsToBegin, RunnerOp.cutsOff,
          RunnerOp.interrupts]
  · obtain ⟨hcount, -, -, hbegin⟩ := runs_begin hbeginning
    have hfails : Marked RunnerOp.failsToBegin trace := hbegin.mpr ⟨thrown, rfl⟩
    simp [hcount, hfails]

/-- When an execution of `invoke` or `stream` is finished exactly once. -/
theorem finished_once_iff (hrecorder : observers.recorder = true) :
    (∀ trace result, Runs (invoke observers digest graph request) trace result →
      (finishCount trace = 1 ↔ ¬Marked RunnerOp.failsToBegin trace ∧
        ¬Marked RunnerOp.cutsOff trace ∧ ¬Marked RunnerOp.failsToComplete trace)) ∧
    ∀ trace result, Runs (stream observers digest graph request) trace result →
      (finishCount trace = 1 ↔
        ¬Marked RunnerOp.failsToBegin trace ∧ ¬Marked RunnerOp.cutsOff trace) :=
  ⟨fun _ _ h => finishCount_invoke hrecorder h, fun _ _ h => finishCount_stream hrecorder h⟩

end Executions

/-- A streamed query. -/
def streamedQuery : Runner Unit :=
  stream ⟨true, false⟩ (fun _ => "")
    (AgentWorkflowBuilder.build (plainDependencies .skip ["weather"] {}) 50)
    { query := "查询上海天气" }

/-- The consumer closes the generator at the first event. -/
def closedAtStart : List RunnerEvent :=
  [⟨.recorderBegin "default" "查询上海天气" "agent_workflow", "execution_1"⟩,
    ⟨.yield { event := .start
              data := [("runtime", .str "graph"), ("graph_id", .str "agent_workflow"),
                ("mode", .str "normal"), ("seed", .null), ("execution_id", .str "execution_1")]
              sessionId := some "default" }, true⟩]

theorem runs_closedAtStart : Runs streamedQuery closedAtStart (.error .generatorExit) := by
  refine runs_ask_iff.mpr ⟨"execution_1", _, rfl, ?_⟩
  exact runs_ask_iff.mpr ⟨true, _, rfl, .fail _⟩

theorem finished_once_iff_closedAtStart : finishCount closedAtStart ≠ 1 := by
  intro hcount
  have hcuts := ((finished_once_iff (show Observers.recorder ⟨true, false⟩ = true from rfl)).2
    _ _ runs_closedAtStart).mp hcount
  exact hcuts.2 ⟨_, List.mem_cons_of_mem _ List.mem_cons_self, rfl⟩

/-- The execution of a stream that is closed at its first event is never finished. -/
theorem closedAtStart_unfinished : ∃ trace result, Runs streamedQuery trace result ∧
    (∃ event ∈ trace, event.op = .recorderBegin "default" "查询上海天气" "agent_workflow") ∧
    finishCount trace = 0 :=
  ⟨closedAtStart, _, runs_closedAtStart, ⟨_, List.mem_cons_self, rfl⟩, rfl⟩

end GraphRuntimeRunner

end TripGraph
