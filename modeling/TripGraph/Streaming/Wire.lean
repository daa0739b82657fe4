import TripGraph.Core.JsonAnswers
import TripGraph.Foundation.EventStream
import TripGraph.Streaming.Heartbeat

/-! # The stream as text

The frames of a stream are sent as the text of an event stream. A reader of the text is sent the
events of the stream, in order, each with its payload, and none for the heartbeats.
-/

namespace TripGraph

open Interaction

/-! ## Frames as text -/

def StreamEventType.value : StreamEventType → String
  | .start => "start"
  | .token => "token"
  | .toolCall => "tool_call"
  | .toolResult => "tool_result"
  | .agentHandoff => "agent_handoff"
  | .graphNode => "graph_node"
  | .graphStep => "graph_step"
  | .done => "done"
  | .error => "error"
  | .heartbeat => "heartbeat"

/-- The dictionary that `format_sse` writes. -/
def StreamEvent.payload (event : StreamEvent) : Value :=
  .ofEntries [("event", .str event.event.value), ("data", .ofEntries event.data),
    ("session_id", .ofText event.sessionId)]

def formatSse (host : TextHost) (event : StreamEvent) : String :=
  "event: " ++ event.event.value ++ "\ndata: " ++ event.payload.dumps host ++ "\n\n"

def formatSseComment (comment : String) : String := ": " ++ comment ++ "\n\n"

def Frame.text (host : TextHost) : Frame → String
  | .event own => formatSse host own
  | .comment own => formatSseComment own

/-- The text of a response, as far as these frames go. -/
def bodyOf (host : TextHost) (frames : List Frame) : List Char :=
  frames.flatMap fun frame => (frame.text host).toList

/-- What a reader is sent for an event. -/
def StreamEvent.message (host : TextHost) (event : StreamEvent) : EventStream.Message :=
  ⟨event.event.value.toList, (event.payload.tree host).write⟩

variable {host : TextHost}

/-! ## What is written for an event -/

theorem toList_formatSse (event : StreamEvent) : (formatSse host event).toList =
    EventStream.frame event.event.value.toList (event.payload.tree host).write := by
  simp [formatSse, Value.dumps, EventStream.frame, EventStream.fieldLine]

theorem toList_formatSseComment (text : String) :
    (formatSseComment text).toList = EventStream.comment text.toList := by
  simp [formatSseComment, EventStream.comment, EventStream.fieldLine]

theorem value_ne_nil (kind : StreamEventType) : kind.value.toList ≠ [] := by
  cases kind <;> decide

theorem unbroken_value (kind : StreamEventType) : EventStream.Unbroken kind.value.toList := by
  cases kind <;> simp [StreamEventType.value, EventStream.Unbroken]

/-! ## What is received -/

/-- The events of the frames are received and nothing else. -/
theorem messages_bodyOf (hhost : host.ShowsNumbers) {frames : List Frame}
    (hcomments : ∀ text, .comment text ∈ frames → EventStream.Unbroken text.toList) :
    EventStream.messages (bodyOf host frames) =
      (sentEvents frames).map (StreamEvent.message host) := by
  induction frames with
  | nil => rfl
  | cons frame rest ih =>
      have hrest := ih fun text htext => hcomments text (List.mem_cons_of_mem frame htext)
      rw [bodyOf, List.flatMap_cons]
      cases frame with
      | event event =>
          rw [Frame.text, toList_formatSse, EventStream.messages_frame
            (unbroken_value event.event) (value_ne_nil event.event)
            (EventStream.unbroken_write _ (Value.readable_tree hhost event.payload))]
          exact congrArg (event.message host :: ·) hrest
      | comment text =>
          rw [Frame.text, toList_formatSseComment,
            EventStream.messages_comment (hcomments text List.mem_cons_self)]
          exact hrest

namespace HeartbeatStream

theorem unbroken_comment {source : EventSource} {interval : Rat} {turns : Nat} {text : String}
    (h : .comment text ∈ (run source interval turns).frames) :
    EventStream.Unbroken text.toList := by
  rw [comment_run h]
  simp [EventStream.Unbroken]

/-- A reader of the response is sent the events of the stream, with payloads that can be read.
One whose connection is cut off is sent the first of them. -/
theorem received_run (hhost : host.ShowsNumbers) (source : EventSource) (interval : Rat)
    (turns : Nat) :
    let sent := sentEvents (run source interval turns).frames
    let body := bodyOf host (run source interval turns).frames
    EventStream.messages body = sent.map (StreamEvent.message host) ∧
      (∀ received, received <+: body →
        ∃ count, EventStream.messages received = (sent.take count).map (StreamEvent.message host)) ∧
      ∀ event ∈ sent, Json.loads (event.message host).data = some (event.payload.tree host) := by
  intro sent body
  have hmessages : EventStream.messages body = sent.map (StreamEvent.message host) :=
    messages_bodyOf hhost fun _ => unbroken_comment
  refine ⟨hmessages, fun received hreceived => ?_, fun event _ =>
    Json.loads_write (Value.readable_tree hhost event.payload)⟩
  have hfirst := EventStream.messages_isPrefix hreceived
  rw [hmessages] at hfirst
  rw [List.prefix_iff_eq_take.mp hfirst]
  exact ⟨_, (List.map_take).symm⟩

/-! ## An answer with a number -/

/-- A host that shows this one number as Python does. -/
def halfHost : TextHost where
  showFloat := fun _ => "0.5"
  sortError := fun _ => ""

theorem showsNumbers_halfHost : halfHost.ShowsNumbers := by
  intro value
  have hhalf : Json.isAtom "0.5".toList = true := by decide
  rw [Json.Readable]
  exact ⟨hhalf, by simp [halfHost, Json.isAtomChar]⟩

/-- The answer takes longer than the interval between two heartbeats. -/
def halfAnswer : EventSource
  | 0 => .event 1 { event := .graphStep, data := [("progress", .float (1 / 2))] }
  | 1 => .event 20 { event := .done }
  | _ => .ended 0

theorem received_run_halfAnswer : EventStream.messages
      (bodyOf halfHost (run halfAnswer 15 2).frames) = [⟨"graph_step".toList,
        "\x7b\"event\": \"graph_step\", \"data\": \x7b\"progress\": 0.5\x7d, ".toList ++
          "\"session_id\": null\x7d".toList⟩] :=
  (received_run showsNumbers_halfHost halfAnswer 15 2).1.trans (by decide +kernel)

end HeartbeatStream

end TripGraph
