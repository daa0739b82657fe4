import TripGraph.Workflow.Runner

/-! # Streaming with heartbeats

While no event comes, the stream sends a heartbeat in every interval. It waits for the next
event with a timeout, and a timeout cancels the wait and with it the generator of the events.
-/

namespace TripGraph

/-! ## Event sources -/

/-- What an event source does when it is asked for its next event, and after how many seconds. -/
inductive SourceStep
  | event (delay : Rat) (event : StreamEvent)
  | ended (delay : Rat)
  | raised (delay : Rat) (error : RaisedError)

/-- An event source: its next step, by the number of events it has yielded before. -/
abbrev EventSource := Nat → SourceStep

/-- The generator of a source: it has yielded so many events, or it is finished. -/
inductive Generator
  | running (yielded : Nat)
  | finished

/-- What a wait for the next event comes to. -/
inductive Waited
  | event (event : StreamEvent)
  | timeoutError
  | stopAsyncIteration
  | raised (error : RaisedError)

/-- `asyncio.wait_for(events.__anext__(), timeout=interval)`: what takes the whole interval is
cancelled, and a generator that is cancelled is finished. -/
def waitFor (source : EventSource) (interval : Rat) : Generator → Waited × Generator
  | .finished => (if 0 < interval then .stopAsyncIteration else .timeoutError, .finished)
  | .running yielded =>
      match source yielded with
      | .event delay event =>
          if delay < interval then (.event event, .running (yielded + 1))
          else (.timeoutError, .finished)
      | .ended delay =>
          (if delay < interval then .stopAsyncIteration else .timeoutError, .finished)
      | .raised delay error =>
          (if delay < interval then .raised error else .timeoutError, .finished)

/-! ## The stream -/

/-- A frame of the response: an event or a comment. -/
inductive Frame
  | event (event : StreamEvent)
  | comment (text : String)
deriving DecidableEq

def Frame.event? : Frame → Option StreamEvent
  | .event own => some own
  | .comment _ => none

/-- The events among the frames. -/
def sentEvents (frames : List Frame) : List StreamEvent := frames.filterMap Frame.event?

/-- The stream ends with this event. -/
def StreamEvent.isLast (event : StreamEvent) : Bool :=
  decide (event.event = .done ∨ event.event = .error)

inductive StreamStatus
  | open
  | returned
  | raised (error : RaisedError)
deriving DecidableEq

/-- The stream between two waits. -/
structure HeartbeatStream where
  generator : Generator
  frames : List Frame
  status : StreamStatus

namespace HeartbeatStream

variable (source : EventSource) (interval : Rat)

/-- One turn of the loop in `stream_with_heartbeat`. -/
def step (stream : HeartbeatStream) : HeartbeatStream :=
  match stream.status with
  | .returned | .raised _ => stream
  | .open =>
      let waited := waitFor source interval stream.generator
      match waited.1 with
      | .event event =>
          { generator := waited.2
            frames := stream.frames ++ [.event event]
            status := if event.isLast then .returned else .open }
      | .timeoutError =>
          { stream with
            generator := waited.2
            frames := stream.frames ++ [.comment "heartbeat"] }
      | .stopAsyncIteration => { stream with generator := waited.2, status := .returned }
      | .raised error => { stream with generator := waited.2, status := .raised error }

/-- `stream_with_heartbeat` after so many turns. -/
def run : Nat → HeartbeatStream
  | 0 => ⟨.running 0, [], .open⟩
  | turns + 1 => (run turns).step source interval

end HeartbeatStream

/-! ## What is to be delivered -/

/-- The source passes by this event to the next. -/
def Passed (source : EventSource) (index : Nat) : Prop :=
  ∃ delay event, source index = .event delay event ∧ event.isLast = false

/-- The event at this place is to be delivered: no earlier one ends the stream. -/
def Wanted (source : EventSource) (index : Nat) (event : StreamEvent) : Prop :=
  (∃ delay, source index = .event delay event) ∧ ∀ earlier < index, Passed source earlier

/-- The events sent are, in order, the wanted ones, each of them is sent at some time, and
between them there are heartbeats only. -/
structure Undisturbed (source : EventSource) (interval : Rat) : Prop where
  heartbeats : ∀ turns text,
    .comment text ∈ (HeartbeatStream.run source interval turns).frames → text = "heartbeat"
  inOrder : ∀ turns index event,
    (sentEvents (HeartbeatStream.run source interval turns).frames)[index]? = some event →
      Wanted source index event
  complete : ∀ index event, Wanted source index event → ∃ turns,
    (sentEvents (HeartbeatStream.run source interval turns).frames)[index]? = some event

namespace HeartbeatStream

variable {source : EventSource} {interval : Rat}

@[simp] theorem sentEvents_event (frames : List Frame) (event : StreamEvent) :
    sentEvents (frames ++ [.event event]) = sentEvents frames ++ [event] := by
  simp [sentEvents, Frame.event?]

@[simp] theorem sentEvents_comment (frames : List Frame) (text : String) :
    sentEvents (frames ++ [.comment text]) = sentEvents frames := by
  simp [sentEvents, Frame.event?]

/-! ## What is sent was in time -/

/-- The event is wanted and comes within the interval. -/
def InTime (source : EventSource) (interval : Rat) (index : Nat) (event : StreamEvent) : Prop :=
  Wanted source index event ∧ ∃ delay, source index = .event delay event ∧ delay < interval

/-- The invariant of the loop. -/
structure Sound (source : EventSource) (interval : Rat) (stream : HeartbeatStream) : Prop where
  sent : ∀ index event, (sentEvents stream.frames)[index]? = some event →
    InTime source interval index event
  awaiting : ∀ yielded, stream.generator = .running yielded → stream.status = .open →
    (sentEvents stream.frames).length = yielded ∧ ∀ earlier < yielded, Passed source earlier

/-- What a turn does: it sends the next event, or it sends none and the generator is
finished. -/
theorem step_cases (stream : HeartbeatStream) :
    stream.step source interval = stream ∧ stream.status ≠ .open ∨
      (∃ yielded delay event, stream.generator = .running yielded ∧ stream.status = .open ∧
        source yielded = .event delay event ∧ delay < interval ∧
        stream.step source interval = ⟨.running (yielded + 1), stream.frames ++ [.event event],
          if event.isLast then .returned else .open⟩) ∨
      sentEvents (stream.step source interval).frames = sentEvents stream.frames ∧
        (stream.step source interval).generator = .finished := by
  obtain ⟨generator, frames, status⟩ := stream
  cases status with
  | returned => exact Or.inl ⟨rfl, by simp⟩
  | raised error => exact Or.inl ⟨rfl, by simp⟩
  | «open» =>
      refine Or.inr ?_
      cases generator with
      | finished =>
          by_cases hinterval : 0 < interval
          · simp [step, waitFor, hinterval]
          · simp [step, waitFor, hinterval]
      | running yielded =>
          cases hsource : source yielded with
          | event delay event =>
              by_cases hdelay : delay < interval
              · exact Or.inl ⟨yielded, delay, event, rfl, rfl, hsource, hdelay,
                  by simp [step, waitFor, hsource, hdelay]⟩
              · simp [step, waitFor, hsource, hdelay]
          | ended delay =>
              by_cases hdelay : delay < interval
              · simp [step, waitFor, hsource, hdelay]
              · simp [step, waitFor, hsource, hdelay]
          | raised delay error =>
              by_cases hdelay : delay < interval
              · simp [step, waitFor, hsource, hdelay]
              · simp [step, waitFor, hsource, hdelay]

theorem sound_step {stream : HeartbeatStream} (h : Sound source interval stream) :
    Sound source interval (stream.step source interval) := by
  rcases step_cases stream with ⟨hsame, -⟩ |
    ⟨yielded, delay, event, hgenerator, hopen, hsource, hdelay, hstep⟩ | ⟨hsent, hfinished⟩
  · rwa [hsame]
  · obtain ⟨hlength, hpassed⟩ := h.awaiting yielded hgenerator hopen
    rw [hstep]
    constructor
    · intro index own hindex
      rw [sentEvents_event] at hindex
      rcases Nat.lt_trichotomy index yielded with hlt | rfl | hgt
      · exact h.sent index own (by rwa [List.getElem?_append_left (hlength ▸ hlt)] at hindex)
      · rw [← hlength, List.getElem?_concat_length] at hindex
        cases hindex
        exact ⟨⟨⟨delay, hsource⟩, hpassed⟩, delay, hsource, hdelay⟩
      · rw [List.getElem?_eq_none (by simp; omega)] at hindex
        cases hindex
    · intro own hrunning hstatus
      cases hrunning
      have hlast : event.isLast = false := by
        by_contra hlast
        rw [if_pos (by simpa using hlast)] at hstatus
        cases hstatus
      refine ⟨by simp [hlength], fun earlier hearlier => ?_⟩
      rcases Nat.lt_succ_iff_lt_or_eq.mp hearlier with hlt | rfl
      · exact hpassed earlier hlt
      · exact ⟨delay, event, hsource, hlast⟩
  · exact ⟨fun index event hindex => h.sent index event (by rwa [hsent] at hindex),
      fun _ hrunning => by rw [hfinished] at hrunning; cases hrunning⟩

theorem sound_run (source : EventSource) (interval : Rat) (turns : Nat) :
    Sound source interval (run source interval turns) := by
  induction turns with
  | zero =>
      refine ⟨fun _ _ hindex => absurd hindex (by simp [run, sentEvents]), fun _ hrunning _ => ?_⟩
      cases hrunning
      exact ⟨rfl, fun _ hlt => absurd hlt (Nat.not_lt_zero _)⟩
  | succ turns ih => exact sound_step ih

theorem comment_run {turns : Nat} {text : String}
    (h : .comment text ∈ (run source interval turns).frames) : text = "heartbeat" := by
  induction turns with
  | zero => cases h
  | succ turns ih =>
      rw [run, step] at h
      split at h
      · exact ih h
      · exact ih h
      dsimp only at h
      split at h
      · exact ih (by simpa using h)
      · exact (List.mem_append.mp h).elim ih (by simp)
      · exact ih h
      · exact ih h

/-! ## What comes in time is sent -/

theorem step_inTime {yielded : Nat} {frames : List Frame} {delay : Rat} {event : StreamEvent}
    (hsource : source yielded = .event delay event) (hdelay : delay < interval) :
    (⟨.running yielded, frames, .open⟩ : HeartbeatStream).step source interval =
      ⟨.running (yielded + 1), frames ++ [.event event],
        if event.isLast then .returned else .open⟩ := by
  simp [step, waitFor, hsource, hdelay]

/-- As long as the events come in time, the stream keeps up with the source. -/
theorem run_of_passed {index : Nat} (hpassed : ∀ earlier < index, Passed source earlier)
    (htime : ∀ earlier < index, ∀ delay event, source earlier = .event delay event →
      delay < interval) :
    ∃ frames, run source interval index = ⟨.running index, frames, .open⟩ ∧
      (sentEvents frames).length = index := by
  induction index with
  | zero => exact ⟨[], rfl, rfl⟩
  | succ index ih =>
      obtain ⟨frames, hrun, hlength⟩ := ih
        (fun earlier hlt => hpassed earlier (Nat.lt_succ_of_lt hlt))
        fun earlier hlt => htime earlier (Nat.lt_succ_of_lt hlt)
      obtain ⟨delay, event, hsource, hlast⟩ := hpassed index (Nat.lt_succ_self index)
      refine ⟨frames ++ [.event event], ?_, by simp [hlength]⟩
      rw [run, hrun, step_inTime hsource (htime index (Nat.lt_succ_self index) delay event hsource)]
      simp [hlast]

/-- The stream is undisturbed exactly when each event to be delivered comes within the
interval. -/
theorem undisturbed_iff (source : EventSource) (interval : Rat) :
    Undisturbed source interval ↔ ∀ index delay event, source index = .event delay event →
      Wanted source index event → delay < interval := by
  constructor
  · intro h index delay event hsource hwanted
    obtain ⟨turns, hsent⟩ := h.complete index event hwanted
    obtain ⟨-, own, hown, htime⟩ := (sound_run source interval turns).sent index event hsent
    rw [hsource] at hown
    cases hown
    exact htime
  · intro htime
    refine ⟨fun _ _ => comment_run, fun turns index event hsent =>
      ((sound_run source interval turns).sent index event hsent).1,
      fun index event hwanted => ⟨index + 1, ?_⟩⟩
    obtain ⟨⟨delay, hsource⟩, hpassed⟩ := hwanted
    have hearlier : ∀ earlier < index, ∀ delay event, source earlier = .event delay event →
        delay < interval := fun earlier hlt delay event hown => htime earlier delay event hown
      ⟨⟨delay, hown⟩, fun first hfirst => hpassed first (Nat.lt_trans hfirst hlt)⟩
    obtain ⟨frames, hrun, hlength⟩ := run_of_passed hpassed hearlier
    rw [run, hrun,
      step_inTime hsource (htime index delay event hsource ⟨⟨delay, hsource⟩, hpassed⟩),
      sentEvents_event, ← hlength, List.getElem?_concat_length]

/-! ## A slow answer -/

/-- A run that yields its first event at once and its last after twenty seconds. -/
def slowAnswer : EventSource
  | 0 => .event 0 { event := .start }
  | 1 => .event 20 { event := .done }
  | _ => .ended 0

/-- With a heartbeat every fifteen seconds the answer is never sent. -/
theorem slowAnswer_disturbed : Wanted slowAnswer 1 { event := .done } ∧
    (run slowAnswer 15 3).frames = [.event { event := .start }, .comment "heartbeat"] ∧
    (run slowAnswer 15 3).status = .returned ∧ ¬Undisturbed slowAnswer 15 := by
  have hwanted : Wanted slowAnswer 1 { event := .done } := by
    refine ⟨⟨20, rfl⟩, fun earlier hlt => ?_⟩
    obtain rfl := Nat.lt_one_iff.mp hlt
    exact ⟨0, _, rfl, rfl⟩
  refine ⟨hwanted, by decide +kernel, by decide +kernel, fun h => ?_⟩
  obtain ⟨turns, hsent⟩ := h.complete 1 _ hwanted
  obtain ⟨-, delay, hdelay, htime⟩ := (sound_run slowAnswer 15 turns).sent 1 _ hsent
  cases hdelay
  exact absurd htime (by decide +kernel)

end HeartbeatStream

end TripGraph
