import TripGraph.Foundation.Fifo
import Mathlib.Data.List.Infix

/-! # The queue of the persistence writer

Callers submit writes, and one worker runs them. `stop` closes the queue, waits until every
write is done or its timeout elapses, and cancels the worker. The steps of the three interleave
in any order; each is what runs between two points where the code awaits.
-/

namespace TripGraph

open Interaction

variable {ω : Type}

/-! ## The parties -/

/-- How a write ends: it returns, it raises an `Exception`, or it raises `CancelledError`, which
is no `Exception`. -/
inductive WriteEnd
  | returned
  | raised
  | cancelled
deriving DecidableEq

/-- Where the worker is in the loop of `_run`. -/
inductive Worker (ω : Type)
  | checking
  | getting
  | running (write : ω)
  | done
deriving DecidableEq

/-- The write the worker is at. -/
def Worker.write? : Worker ω → Option ω
  | .running write => some write
  | _ => none

/-- Where the call of `stop` is. -/
inductive StopCall
  | pending
  | joining
  | cancelling
  | returned
deriving DecidableEq

/-- A queue whose worker was started. -/
structure AsyncWriteQueue (ω : Type) where
  queue : List ω := []
  unfinishedTasks : Nat := 0
  worker : Worker ω := .checking
  closed : Bool := false
  stopCall : StopCall := .pending

/-- What is seen of the queue. -/
inductive WriterEvent (ω : Type)
  | accepted (write : ω)
  | dropped (write : ω)
  | refused (write : ω)
  | started (write : ω)
  | ended (write : ω) (how : WriteEnd)
  | drainTimedOut
  | stopped

namespace AsyncWriteQueue

/-- `asyncio.Queue.full`; without a positive size the queue is not bounded. -/
def full (maxsize : Nat) (state : AsyncWriteQueue ω) : Bool :=
  decide (0 < maxsize ∧ maxsize ≤ state.queue.length)

/-- `submit`: a closed queue refuses the write, a full one drops it. -/
def submit (maxsize : Nat) (state : AsyncWriteQueue ω) (write : ω) :
    WriterEvent ω × AsyncWriteQueue ω :=
  if state.closed then (.refused write, state)
  else if state.full maxsize then (.dropped write, state)
  else (.accepted write, { state with
    queue := state.queue ++ [write]
    unfinishedTasks := state.unfinishedTasks + 1 })

/-- The end of a write. `task_done` raises when no task is unfinished, and `CancelledError` is not
caught either: both end the worker. -/
def taskDone (state : AsyncWriteQueue ω) (how : WriteEnd) : AsyncWriteQueue ω :=
  match state.unfinishedTasks with
  | 0 => { state with worker := .done }
  | unfinished + 1 => { state with
      unfinishedTasks := unfinished
      worker := if how = .cancelled then .done else .checking }

/-- One step of a caller, of the worker or of `stop`, and what is seen of it. -/
inductive Step (maxsize : Nat) : AsyncWriteQueue ω → List (WriterEvent ω) → AsyncWriteQueue ω → Prop
  | submit (state : AsyncWriteQueue ω) (write : ω) :
      Step maxsize state [(state.submit maxsize write).1] (state.submit maxsize write).2
  | check {state : AsyncWriteQueue ω} (checking : state.worker = .checking) :
      Step maxsize state [] { state with
        worker := if state.closed = false ∨ state.queue ≠ [] then .getting else .done }
  | get {state : AsyncWriteQueue ω} {write : ω} {rest : List ω} (getting : state.worker = .getting)
      (first : state.queue = write :: rest) :
      Step maxsize state [.started write] { state with queue := rest, worker := .running write }
  | getTimedOut {state : AsyncWriteQueue ω} (getting : state.worker = .getting) :
      Step maxsize state [] { state with worker := .checking }
  | ended {state : AsyncWriteQueue ω} {write : ω} (running : state.worker = .running write)
      (how : WriteEnd) : Step maxsize state [.ended write how] (state.taskDone how)
  -- the worker is cancelled where it awaits the next write, or before it goes on to
  | cancelled {state : AsyncWriteQueue ω} (requested : state.stopCall = .cancelling)
      (idle : state.worker = .checking ∨ state.worker = .getting) :
      Step maxsize state [] { state with worker := .done }
  | stop {state : AsyncWriteQueue ω} (pending : state.stopCall = .pending) :
      Step maxsize state [] { state with closed := true, stopCall := .joining }
  | joined {state : AsyncWriteQueue ω} (joining : state.stopCall = .joining)
      (finished : state.unfinishedTasks = 0) :
      Step maxsize state [] { state with stopCall := .cancelling }
  | drainTimedOut {state : AsyncWriteQueue ω} (joining : state.stopCall = .joining) :
      Step maxsize state [.drainTimedOut] { state with stopCall := .cancelling }
  | stopped {state : AsyncWriteQueue ω} (cancelling : state.stopCall = .cancelling)
      (ended : state.worker = .done) :
      Step maxsize state [.stopped] { state with stopCall := .returned }

/-- The states reached from a started queue, with what was seen on the way. -/
inductive Reached (maxsize : Nat) : List (WriterEvent ω) → AsyncWriteQueue ω → Prop
  | start : Reached maxsize [] {}
  | step {events seen : List (WriterEvent ω)} {before after : AsyncWriteQueue ω}
      (earlier : Reached maxsize events before) (step : Step maxsize before seen after) :
      Reached maxsize (events ++ seen) after

end AsyncWriteQueue

/-! ## Every write once -/

/-- What is seen of a queue that serves its writes. -/
def WriterEvent.fifo? : WriterEvent ω → Option (FifoEvent ω)
  | .accepted write => some (.put write)
  | .started write => some (.begun write)
  | .ended write _ => some (.ended write)
  | _ => none

/-- The writes that were accepted, in order. -/
def acceptedWrites (events : List (WriterEvent ω)) : List ω :=
  (events.filterMap WriterEvent.fifo?).filterMap FifoEvent.put?

/-- The writes whose run began, in order. -/
def startedWrites (events : List (WriterEvent ω)) : List ω :=
  (events.filterMap WriterEvent.fifo?).filterMap FifoEvent.begun?

/-- The writes whose run ended, in order. -/
def endedWrites (events : List (WriterEvent ω)) : List ω :=
  (events.filterMap WriterEvent.fifo?).filterMap FifoEvent.ended?

namespace AsyncWriteQueue

/-- The queue serves its writes in order, and counts those that wait or run. Once it is closed
and drained it stays so. -/
structure Consistent (events : List (WriterEvent ω)) (state : AsyncWriteQueue ω) : Prop where
  fifo : Fifo (events.filterMap WriterEvent.fifo?) state.queue state.worker.write?
  counted : state.unfinishedTasks = state.queue.length + state.worker.write?.toList.length
  closed : state.stopCall ≠ .pending → state.closed = true
  drained : state.stopCall = .cancelling ∨ state.stopCall = .returned →
    .drainTimedOut ∉ events → state.unfinishedTasks = 0
  stopped : .stopped ∈ events → state.stopCall = .returned

namespace Consistent

variable {maxsize : Nat} {events seen : List (WriterEvent ω)} {state after : AsyncWriteQueue ω}

theorem start : Consistent [] ({} : AsyncWriteQueue ω) where
  fifo := .nil
  counted := rfl
  closed h := absurd rfl h
  drained h := by rcases h with h | h <;> cases h
  stopped h := by cases h

/-- A step of the worker that neither begins nor ends a write. -/
theorem moved (h : Consistent events state) {worker : Worker ω}
    (hidle : state.worker.write? = none) (hworker : worker.write? = none) :
    Consistent events { state with worker := worker } where
  fifo := by
    have := h.fifo
    rwa [hidle, ← hworker] at this
  counted := by
    have := h.counted
    rwa [hidle, ← hworker] at this
  closed := h.closed
  drained := h.drained
  stopped := h.stopped

/-- What is seen besides is no write's and no end of `stop`. -/
theorem seen_aside (h : Consistent events state) {event : WriterEvent ω}
    (hfifo : event.fifo? = none)
    (hstopped : event ≠ .stopped) : Consistent (events ++ [event]) state where
  fifo := by simpa [List.filterMap_cons, hfifo] using h.fifo
  counted := h.counted
  closed := h.closed
  drained hcall hnot := h.drained hcall fun hmem => hnot (List.mem_append_left _ hmem)
  stopped hmem := by
    rcases List.mem_append.mp hmem with hmem | hmem
    · exact h.stopped hmem
    · exact absurd (List.mem_singleton.mp hmem).symm hstopped

theorem submit (h : Consistent events state) (maxsize : Nat) (write : ω) :
    Consistent (events ++ [(state.submit maxsize write).1]) (state.submit maxsize write).2 := by
  rw [AsyncWriteQueue.submit]
  split
  · exact h.seen_aside rfl nofun
  next hopen =>
  split
  · exact h.seen_aside rfl nofun
  have hpending : state.stopCall = .pending := by
    by_contra hcalled
    exact hopen (h.closed hcalled)
  refine ⟨?_, ?_, h.closed, ?_, ?_⟩
  · rw [List.filterMap_append]
    exact h.fifo.put write
  · have := h.counted
    simp only [List.length_append, List.length_singleton]
    omega
  · intro hcall
    rw [hpending] at hcall
    rcases hcall with hcall | hcall <;> cases hcall
  · intro hmem
    exact h.stopped (by simpa using hmem)

theorem taskDone (h : Consistent events state) {write : ω}
    (hrunning : state.worker = .running write)
    (how : WriteEnd) : Consistent (events ++ [.ended write how]) (state.taskDone how) := by
  have hcounted : state.unfinishedTasks = state.queue.length + 1 := by
    have := h.counted
    rwa [hrunning] at this
  have hwrite : (if how = .cancelled then .done else .checking : Worker ω).write? = none := by
    split <;> rfl
  rw [AsyncWriteQueue.taskDone, hcounted]
  refine ⟨?_, ?_, h.closed, ?_, ?_⟩
  · have hfifo := h.fifo
    rw [hrunning] at hfifo
    rw [List.filterMap_append, hwrite]
    exact hfifo.ended
  · simp [hwrite]
  · intro hcall hnot
    have := h.drained hcall fun hmem => hnot (List.mem_append_left _ hmem)
    omega
  · intro hmem
    exact h.stopped (by simpa using hmem)

/-- One step. -/
theorem step (h : Consistent events state) (hstep : Step maxsize state seen after) :
    Consistent (events ++ seen) after := by
  cases hstep with
  | submit write => exact h.submit maxsize write
  | check checking =>
      rw [List.append_nil]
      refine h.moved (by rw [checking]; rfl) ?_
      split <;> rfl
  | @get write rest getting first =>
      have hfifo := h.fifo
      rw [getting, first] at hfifo
      have hcounted := h.counted
      rw [getting, first] at hcounted
      refine ⟨?_, hcounted, h.closed, ?_, ?_⟩
      · rw [List.filterMap_append]
        exact hfifo.begun
      · intro hcall hnot
        exact h.drained hcall fun hmem => hnot (List.mem_append_left _ hmem)
      · intro hmem
        exact h.stopped (by simpa using hmem)
  | getTimedOut getting =>
      rw [List.append_nil]
      exact h.moved (by rw [getting]; rfl) rfl
  | ended running how => exact h.taskDone running how
  | cancelled requested idle =>
      rw [List.append_nil]
      refine h.moved ?_ rfl
      rcases idle with idle | idle <;> rw [idle] <;> rfl
  | stop pending =>
      rw [List.append_nil]
      refine ⟨h.fifo, h.counted, fun _ => rfl, fun hcall => ?_, fun hmem => ?_⟩
      · rcases hcall with hcall | hcall <;> cases hcall
      · have := h.stopped hmem
        rw [pending] at this
        cases this
  | joined joining finished =>
      rw [List.append_nil]
      refine ⟨h.fifo, h.counted, fun _ => h.closed (by rw [joining]; nofun), fun _ _ => finished,
        fun hmem => ?_⟩
      have := h.stopped hmem
      rw [joining] at this
      cases this
  | drainTimedOut joining =>
      refine ⟨?_, h.counted, fun _ => h.closed (by rw [joining]; nofun), fun _ hnot => ?_,
        fun hmem => ?_⟩
      · simpa [List.filterMap_cons, WriterEvent.fifo?] using h.fifo
      · exact absurd (List.mem_append_right _ List.mem_cons_self) hnot
      · have := h.stopped (by simpa using hmem)
        rw [joining] at this
        cases this
  | stopped cancelling ended =>
      refine ⟨?_, h.counted, fun _ => h.closed (by rw [cancelling]; nofun), fun _ hnot => ?_,
        fun _ => rfl⟩
      · simpa [List.filterMap_cons, WriterEvent.fifo?] using h.fifo
      · exact h.drained (.inl cancelling) fun hmem => hnot (List.mem_append_left _ hmem)

end Consistent

/-- A whole run. -/
theorem Reached.consistent {maxsize : Nat} {events : List (WriterEvent ω)}
    {state : AsyncWriteQueue ω} (h : Reached maxsize events state) : Consistent events state := by
  induction h with
  | start => exact .start
  | step earlier step ih => exact ih.step step

/-- The writes run at most once and in the order they were accepted; when `stop` returned and its
wait did not time out, each of them was run. -/
theorem Reached.writes_once {maxsize : Nat} {events : List (WriterEvent ω)}
    {state : AsyncWriteQueue ω} (h : Reached maxsize events state) :
    startedWrites events <+: acceptedWrites events ∧
      (.stopped ∈ events → .drainTimedOut ∉ events →
        startedWrites events = acceptedWrites events ∧
          endedWrites events = acceptedWrites events) := by
  have hconsistent := h.consistent
  refine ⟨hconsistent.fifo.begun_prefix, fun hstopped hdrained => ?_⟩
  have hzero := hconsistent.drained (.inr (hconsistent.stopped hstopped)) hdrained
  rw [hconsistent.counted, Nat.add_eq_zero_iff, List.length_eq_zero_iff,
    List.length_eq_zero_iff, Option.toList_eq_nil_iff] at hzero
  have hfifo := hconsistent.fifo
  rw [hzero.1, hzero.2] at hfifo
  have hended : endedWrites events = acceptedWrites events := hfifo.ended_eq_put
  have hstarted : startedWrites events = endedWrites events := by
    have := hfifo.begun_eq
    rwa [Option.toList_none, List.append_nil] at this
  exact ⟨hstarted.trans hended, hended⟩

/-- Two writes, the first of which raises, and a `stop` that is called before the second runs. -/
theorem Reached.writes_once_two : ∃ events : List (WriterEvent String),
    acceptedWrites events = ["trace", "versions"] ∧ .ended "trace" .raised ∈ events ∧
      startedWrites events = acceptedWrites events ∧
      endedWrites events = acceptedWrites events := by
  have hfirst : Reached 8 [.accepted "trace"] ⟨["trace"], 1, .checking, false, .pending⟩ :=
    .step .start (.submit {} "trace")
  have hgetting : Reached 8 [.accepted "trace"] ⟨["trace"], 1, .getting, false, .pending⟩ :=
    .step hfirst (.check rfl)
  have hrunning : Reached 8 [.accepted "trace", .started "trace"]
      ⟨[], 1, .running "trace", false, .pending⟩ := .step hgetting (.get rfl rfl)
  have hsecond : Reached 8 [.accepted "trace", .started "trace", .accepted "versions"]
      ⟨["versions"], 2, .running "trace", false, .pending⟩ :=
    .step hrunning (.submit _ "versions")
  have hclosed : Reached 8 [.accepted "trace", .started "trace", .accepted "versions"]
      ⟨["versions"], 2, .running "trace", true, .joining⟩ := .step hsecond (.stop rfl)
  have hraised : Reached 8 [.accepted "trace", .started "trace", .accepted "versions",
      .ended "trace" .raised] ⟨["versions"], 1, .checking, true, .joining⟩ :=
    .step hclosed (.ended rfl .raised)
  have hagain : Reached 8 [.accepted "trace", .started "trace", .accepted "versions",
      .ended "trace" .raised] ⟨["versions"], 1, .getting, true, .joining⟩ :=
    .step hraised (.check rfl)
  have hlast : Reached 8 [.accepted "trace", .started "trace", .accepted "versions",
      .ended "trace" .raised, .started "versions"] ⟨[], 1, .running "versions", true, .joining⟩ :=
    .step hagain (.get rfl rfl)
  have hdrained : Reached 8 [.accepted "trace", .started "trace", .accepted "versions",
      .ended "trace" .raised, .started "versions", .ended "versions" .returned]
      ⟨[], 0, .checking, true, .joining⟩ := .step hlast (.ended rfl .returned)
  have hjoined := Reached.step (.step hdrained (.check rfl)) (.joined rfl rfl)
  have hreturned := Reached.step hjoined (.stopped rfl rfl)
  refine ⟨_, rfl, ?_, hreturned.writes_once.2 ?_ ?_⟩
  · simp
  · simp
  · simp

end AsyncWriteQueue

end TripGraph
