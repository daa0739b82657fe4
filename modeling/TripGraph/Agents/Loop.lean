import TripGraph.Schemas.Tool
import TripGraph.Tools.Reliability

/-! # The tool-calling loop of an agent

The language model is asked with the transcript so far. A tool call is executed and its
observation is put into the transcript; a final answer ends the loop. Whatever else happens is
raised as one error.
-/

namespace TripGraph

open Interaction

/-! ## Messages -/

inductive AgentRole
  | user
  | assistant
  | tool
deriving DecidableEq

/-- A message of the transcript; when it was created is left out. -/
structure AgentMessage where
  role : AgentRole
  content : String
  name : Option String := none
  metadata : Args := []
deriving DecidableEq

/-- Result of a completed agent tool-calling loop. -/
structure AgentLoopResult where
  sessionId : String
  finalAnswer : String
  messages : List AgentMessage
  toolCallOrder : List String
  iterations : Nat
  terminated : Bool
deriving DecidableEq

namespace ToolObservation

/-- `to_message` -/
def toMessage (host : JsonHost) (observation : ToolObservation) : String :=
  if observation.success then
    s!"Tool '{observation.tool}' observation: {host.dumps observation.output}"
  else s!"Tool '{observation.tool}' failed: {showText observation.error}"

/-- `model_dump()` -/
def modelDump (observation : ToolObservation) : Value :=
  .ofEntries [("tool", .str observation.tool), ("args", .ofEntries observation.args),
    ("output", observation.output), ("success", .bool observation.success),
    ("error", .ofText observation.error)]

end ToolObservation

/-- The message for a tool call. -/
def callMessage (host : JsonHost) (raw : LLMOutput) (observation : ToolObservation) :
    AgentMessage where
  role := .assistant
  content :=
    match raw with
    | .dict payload => host.dumps (.ofEntries payload.entries)
    | .text text => text
  metadata := [("type", .str "tool_call"), ("tool", .str observation.tool)]

/-- The message for an observation. -/
def toolMessage (host : JsonHost) (observation : ToolObservation) : AgentMessage where
  role := .tool
  content := observation.toMessage host
  name := some observation.tool
  metadata := [("observation", observation.modelDump)]

/-! ## Operations -/

/-- What the loop asks: an answer of the language model, an id, and what the tools are asked. -/
inductive LoopOp
  | generate (messages : List AgentMessage)
  | uuid4
  | tool (op : ToolOp)

@[reducible] def LoopOp.Reply : LoopOp → Type
  | .generate _ => LLMOutput
  | .uuid4 => String
  | .tool op => op.Reply

abbrev loopSignature : Signature := ⟨LoopOp, LoopOp.Reply⟩

/-! ## The executor -/

/-- An operation of the tools, asked by the loop. -/
def askTool (op : ToolOp) : Program loopSignature RaisedError op.Reply :=
  Program.perform (S := loopSignature) (.tool op)

namespace ToolReliabilityPolicy

variable (policy : ToolReliabilityPolicy)

/-- `execute_llm_call` without an id. -/
def executeLlmCall (call : LLMToolCall) : Program loopSignature RaisedError ToolObservation := do
  let callId ← Program.perform (S := loopSignature) .uuid4
  (policy.executeWithReliability call.tool call.args callId none call.tool).interpret askTool

/-- `process_llm_output` -/
def processLlmOutput (host : JsonHost) (raw : LLMOutput) :
    Program loopSignature RaisedError LLMExecutionResult := do
  let parsed ← Program.ofExcept (LLMOutputParser.parse host raw)
  if parsed.kind = .parseError then pure parsed
  else if parsed.kind = .final then pure parsed
  else
    let call ← Program.ofExcept (LLMOutputParser.toToolCall host parsed)
    let observation ← policy.executeLlmCall call
    pure { kind := .toolCall, observation := some observation, raw := some raw }

end ToolReliabilityPolicy

/-! ## The loop -/

structure AgentLoop where
  policy : ToolReliabilityPolicy
  host : JsonHost
  maxIterations : Int := 10

namespace AgentLoop

variable (agent : AgentLoop)

/-- The iterations left, from this one on, with the transcript and the tools called so far. -/
def iterate (sessionId : String) :
    Nat → Nat → List AgentMessage → List String → Program loopSignature RaisedError AgentLoopResult
  | 0, _, _, _ =>
      .fail (.agentLoop s!"Agent loop exceeded max iterations ({agent.maxIterations})")
  | left + 1, iteration, messages, order => do
      let raw ← Program.perform (S := loopSignature) (.generate messages)
      let result ← agent.policy.processLlmOutput agent.host raw
      match result.kind with
      | .parseError => .fail (.agentLoop (orText result.error "Failed to parse LLM output"))
      | .final =>
          let answer := result.final.getD ""
          pure
            { sessionId := sessionId
              finalAnswer := answer
              messages := messages ++ [{ role := .assistant, content := answer }]
              toolCallOrder := order
              iterations := iteration
              terminated := true }
      | .toolCall =>
          match result.observation with
          | none => .fail (.agentLoop "Tool call result missing observation")
          | some observation =>
              if observation.success then
                iterate sessionId left (iteration + 1)
                  (messages ++ [callMessage agent.host raw observation,
                    toolMessage agent.host observation])
                  (order ++ [observation.tool])
              else
                .fail (.agentLoop (orText observation.error
                  s!"Tool '{observation.tool}' execution failed"))

/-- `AgentLoop.run` -/
def run (userInput sessionId : String) : Program loopSignature RaisedError AgentLoopResult :=
  agent.iterate sessionId agent.maxIterations.toNat 1 [{ role := .user, content := userInput }] []

/-! ## What a transcript shows -/

/-- The names of the messages of tools, in order. -/
def toolNames (messages : List AgentMessage) : List (Option String) :=
  (messages.filter fun message => message.role = .tool).map AgentMessage.name

/-- A transcript after this many tool calls, with the tools called so far. -/
structure Transcript (host : JsonHost) (calls : Nat) (messages : List AgentMessage)
    (order : List String) : Prop where
  roles : messages.map AgentMessage.role =
    .user :: (List.replicate calls [AgentRole.assistant, .tool]).flatten
  order : toolNames messages = order.map some
  observed : ∀ message ∈ messages, message.role = .tool →
    ∃ observation : ToolObservation, observation.success = true ∧
      message = toolMessage host observation

/-- What the loop promises of what it returns. -/
structure Protocol (host : JsonHost) (maxIterations : Int) (result : AgentLoopResult) : Prop where
  shape : ∃ calls, result.iterations = calls + 1 ∧
    result.messages.map AgentMessage.role =
      .user :: (List.replicate calls [AgentRole.assistant, .tool]).flatten ++ [.assistant]
  order : toolNames result.messages = result.toolCallOrder.map some
  bounded : (result.iterations : Int) ≤ maxIterations
  observed : ∀ message ∈ result.messages, message.role = .tool →
    ∃ observation : ToolObservation, observation.success = true ∧
      message = toolMessage host observation

/-- The loop keeps its promise, or raises its own error. -/
def Conforms : Except RaisedError AgentLoopResult → Prop
  | .ok result => Protocol agent.host agent.maxIterations result
  | .error error => ∃ message, error = .agentLoop message

/-- What the language model answered. -/
def answers (trace : List (Exchange loopSignature)) : List LLMOutput :=
  trace.filterMap fun event =>
    match event with
    | ⟨.generate _, reply⟩ => some reply
    | _ => none

section Transcripts

variable {host : JsonHost} {calls : Nat} {messages : List AgentMessage} {order : List String}

@[simp] theorem toolNames_append (first second : List AgentMessage) :
    toolNames (first ++ second) = toolNames first ++ toolNames second := by
  simp [toolNames]

theorem Transcript.start (userInput : String) :
    Transcript host 0 [{ role := .user, content := userInput }] [] where
  roles := rfl
  order := rfl
  observed := by simp

/-- A successful tool call adds a message of the assistant and one of the tool. -/
theorem Transcript.call (h : Transcript host calls messages order) (raw : LLMOutput)
    {observation : ToolObservation} (hsuccess : observation.success = true) :
    Transcript host (calls + 1)
      (messages ++ [callMessage host raw observation, toolMessage host observation])
      (order ++ [observation.tool]) where
  roles := by
    rw [List.map_append, h.roles, List.replicate_succ', List.flatten_append, List.cons_append]
    rfl
  order := by
    rw [toolNames_append, h.order, List.map_append]
    rfl
  observed := by
    intro message hmem hrole
    rcases List.mem_append.mp hmem with hold | hnew
    · exact h.observed message hold hrole
    · rcases List.mem_pair.mp hnew with rfl | rfl
      · cases hrole
      · exact ⟨observation, hsuccess, rfl⟩

/-- A final answer closes the transcript. -/
theorem Transcript.close (h : Transcript host calls messages order) {sessionId answer : String}
    {maxIterations : Int} (hbound : ((calls + 1 : Nat) : Int) ≤ maxIterations) :
    Protocol host maxIterations
      { sessionId := sessionId
        finalAnswer := answer
        messages := messages ++ [{ role := .assistant, content := answer }]
        toolCallOrder := order
        iterations := calls + 1
        terminated := true } where
  shape := by
    refine ⟨calls, rfl, ?_⟩
    rw [List.map_append, h.roles]
    rfl
  order := by
    rw [toolNames_append, h.order]
    exact List.append_nil _
  bounded := hbound
  observed := by
    intro message hmem hrole
    rcases List.mem_append.mp hmem with hold | hnew
    · exact h.observed message hold hrole
    · obtain rfl := List.mem_singleton.mp hnew
      cases hrole

end Transcripts

/-! ## Runs -/

section Runs

variable {agent} {host : JsonHost} {policy : ToolReliabilityPolicy} {raw : LLMOutput}
  {calls left : Nat} {messages : List AgentMessage} {order : List String}
  {userInput sessionId : String} {trace : List (Exchange loopSignature)}

@[simp] theorem answers_append (first second : List (Exchange loopSignature)) :
    answers (first ++ second) = answers first ++ answers second := List.filterMap_append

/-- Whether the language model is asked. -/
def isGenerate : LoopOp → Bool
  | .generate _ => true
  | _ => false

theorem answers_eq_nil (h : ∀ exchange ∈ trace, isGenerate exchange.op = false) :
    answers trace = [] := by
  refine List.filterMap_eq_nil_iff.mpr fun exchange hmem => ?_
  obtain ⟨op, reply⟩ := exchange
  cases op with
  | generate messages => cases h _ hmem
  | _ => rfl

theorem unfailing_askTool (op : ToolOp) : (askTool op).Unfailing := fun _ => trivial

/-- A tool call comes to an observation. -/
theorem runs_executeLlmCall {call : LLMToolCall} {result : Except RaisedError ToolObservation}
    (h : Runs (policy.executeLlmCall call) trace result) :
    ∃ observation, result = .ok observation := by
  obtain ⟨callId, rest, -, hrest⟩ := runs_ask_iff.mp h
  obtain ⟨own, hown⟩ := exists_runs_of_interpret unfailing_askTool hrest
  exact (ToolReliabilityPolicy.parentId_executeWithReliability hown).1

theorem asks_askTool (op : ToolOp) : (askTool op).Asks fun op => isGenerate op = false :=
  ⟨rfl, fun _ => trivial⟩

theorem asks_executeLlmCall (call : LLMToolCall) :
    (policy.executeLlmCall call).Asks fun op => isGenerate op = false :=
  ⟨rfl, fun _ => Program.asks_interpret asks_askTool _⟩

theorem asks_processLlmOutput : (policy.processLlmOutput host raw).Asks fun op =>
    isGenerate op = false := by
  refine Program.Respects.bind (Q := fun _ => True) (by simp) fun parsed _ => ?_
  split
  · trivial
  split
  · trivial
  refine Program.Respects.bind (Q := fun _ => True) (by simp) fun call _ => ?_
  exact (asks_executeLlmCall call).bind fun _ _ => trivial

/-- An answer beyond a limit is raised as it is; every other one is processed, and a tool call
leaves an observation. -/
theorem runs_processLlmOutput {result : Except RaisedError LLMExecutionResult}
    (h : Runs (policy.processLlmOutput host raw) trace result) :
    (∃ limit, LLMOutputParser.limit? host raw = some limit ∧
      result = .error (.external limit.1 limit.2)) ∨
    LLMOutputParser.limit? host raw = none ∧ ∃ processed, result = .ok processed ∧
      (processed.kind = .toolCall → ∃ observation, processed.observation = some observation) := by
  cases hlimit : LLMOutputParser.limit? host raw with
  | some limit =>
      rw [ToolReliabilityPolicy.processLlmOutput, LLMOutputParser.parse_of_limit hlimit,
        Program.ofExcept_error, Program.fail_bind] at h
      obtain ⟨-, rfl⟩ := runs_fail_iff.mp h
      exact .inl ⟨limit, rfl, rfl⟩
  | none =>
      refine .inr ⟨rfl, ?_⟩
      obtain ⟨parsed, hparsed, hcall⟩ := LLMOutputParser.parse_of_no_limit hlimit
      rw [ToolReliabilityPolicy.processLlmOutput, hparsed, Program.ofExcept_ok,
        Program.done_bind] at h
      cases hkind : parsed.kind with
      | parseError =>
          rw [if_pos hkind] at h
          obtain ⟨-, rfl⟩ := runs_pure_iff.mp h
          exact ⟨parsed, rfl, fun htool => by cases hkind.symm.trans htool⟩
      | final =>
          rw [if_neg (by simp [hkind]), if_pos hkind] at h
          obtain ⟨-, rfl⟩ := runs_pure_iff.mp h
          exact ⟨parsed, rfl, fun htool => by cases hkind.symm.trans htool⟩
      | toolCall =>
          obtain ⟨call, hread⟩ := hcall hkind
          rw [if_neg (by simp [hkind]), if_neg (by simp [hkind]), hread, Program.ofExcept_ok,
            Program.done_bind] at h
          obtain ⟨observation, first, rest, hexecuted, hrest, -⟩ | ⟨error, herror, -⟩ :=
            runs_bind_iff.mp h
          · obtain ⟨-, rfl⟩ := runs_pure_iff.mp hrest
            exact ⟨_, rfl, fun _ => ⟨observation, rfl⟩⟩
          · obtain ⟨observation, heq⟩ := runs_executeLlmCall herror
            cases heq

/-- From any iteration on, the promise is kept unless an answer is beyond a limit. -/
theorem iterate_conforms_iff {result : Except RaisedError AgentLoopResult}
    (hstate : Transcript agent.host calls messages order)
    (hbound : calls + left ≤ agent.maxIterations.toNat)
    (h : Runs (agent.iterate sessionId left (calls + 1) messages order) trace result) :
    agent.Conforms result ↔
      ∀ raw ∈ answers trace, LLMOutputParser.limit? agent.host raw = none := by
  induction left generalizing calls messages order trace with
  | zero =>
      obtain ⟨rfl, rfl⟩ := runs_fail_iff.mp h
      exact ⟨fun _ => by simp [answers], fun _ => ⟨_, rfl⟩⟩
  | succ left ih =>
      obtain ⟨raw, asked, rfl, hasked⟩ := runs_ask_iff.mp h
      change Runs (agent.policy.processLlmOutput agent.host raw >>= _) asked result at hasked
      change _ ↔ ∀ own ∈ raw :: answers asked, _
      rw [List.forall_mem_cons]
      obtain ⟨processed, first, rest, hprocessed, hrest, rfl⟩ | ⟨error, hprocessed, rfl⟩ :=
        runs_bind_iff.mp hasked
      · obtain ⟨limit, -, heq⟩ | ⟨hlimit, own, heq, hcall⟩ := runs_processLlmOutput hprocessed
        · cases heq
        obtain rfl := Except.ok.inj heq
        rw [answers_append, answers_eq_nil (asks_processLlmOutput.asks_of_runs hprocessed),
          List.nil_append]
        refine Iff.trans ?_ (and_iff_right hlimit).symm
        split at hrest
        next =>
          obtain ⟨rfl, rfl⟩ := runs_fail_iff.mp hrest
          exact ⟨fun _ => by simp [answers], fun _ => ⟨_, rfl⟩⟩
        next =>
          obtain ⟨rfl, rfl⟩ := runs_pure_iff.mp hrest
          exact ⟨fun _ => by simp [answers], fun _ => hstate.close (by omega)⟩
        next hkind =>
          obtain ⟨observation, hobservation⟩ := hcall hkind
          rw [hobservation] at hrest
          by_cases hsuccess : observation.success = true
          · simp only [hsuccess, if_true] at hrest
            exact ih (hstate.call raw hsuccess) (by omega) hrest
          · simp only [hsuccess] at hrest
            obtain ⟨rfl, rfl⟩ := runs_fail_iff.mp hrest
            exact ⟨fun _ => by simp [answers], fun _ => ⟨_, rfl⟩⟩
      · obtain ⟨limit, hlimit, heq⟩ | ⟨-, own, heq, -⟩ := runs_processLlmOutput hprocessed
        · obtain rfl := Except.error.inj heq
          constructor
          · rintro ⟨message, hmessage⟩
            cases hmessage
          · rintro ⟨hnone, -⟩
            cases hlimit.symm.trans hnone
        · cases heq

end Runs

/-- JSON is read with a limit of 4300 digits. -/
def weatherHost : JsonHost where
  meaning := Loaded.other
  dumps
    | .null => "null"
    | _ => "\x7b\"tool\": \"weather\"\x7d"
  decodeError := fun _ => ⟨"Expecting value", "Expecting value: line 1 column 1 (char 0)"⟩
  validationError := fun _ => ""
  limit text :=
    if text.toList.all Char.isDigit && decide (4300 < text.length) then
      some ("ValueError", "Exceeds the limit (4300 digits) for integer string conversion: " ++
        s!"value has {text.length} digits; " ++
        "use sys.set_int_max_str_digits() to increase the limit")
    else none

def weatherAgent : AgentLoop where
  policy := ToolReliabilityPolicy.flakyPolicy
  host := weatherHost

/-- The weather is asked for, and told in the next answer. Every tool succeeds. -/
def weatherModel : Handler loopSignature Nat where
  answer
    | .generate _, asked =>
        (if asked = 0 then .dict (.ofList [("tool", .str "weather")]) else .text "Sunny", asked + 1)
    | .uuid4, asked => ("call", asked)
    | .tool (.get name), asked => (.ok name, asked)
    | .tool (.run _ _ _), asked => (.ok .null, asked)
    | .tool (.record _), asked => ((), asked)

example : (((weatherAgent.run "Weather?" "default").exec weatherModel 0).result.map
    fun result => (result.toolCallOrder, result.iterations)) = .ok (["weather"], 2) := by
  decide +kernel

/-- A number of this many digits. -/
def ones (digits : Nat) : String := String.ofList (List.replicate digits '1')

theorem unfenced_ones (digits : Nat) : unfenced (ones digits) = ones digits := by
  have hstrip : strip (ones digits) = ones digits := by
    simp [strip, ones, isSpace]
  have hfence : startsWith (ones digits) "```" = false := by
    unfold startsWith ones
    cases digits with
    | zero => simp
    | succ digits =>
        rw [List.replicate_succ]
        simp [List.isPrefixOf]
  rw [unfenced, hstrip, hfence]
  rfl

theorem limit_ones {digits : Nat} (h : 4300 < digits) :
    (weatherHost.limit (ones digits)).isSome = true := by
  simp [weatherHost, ones, h]

/-- Every answer is a number of this many digits. -/
def numberModel (digits : Nat) : Handler loopSignature Unit where
  answer
    | .generate _, _ => (.text (ones digits), ())
    | .uuid4, _ => ("call", ())
    | .tool (.get name), _ => (.ok name, ())
    | .tool (.run _ _ _), _ => (.ok .null, ())
    | .tool (.record _), _ => ((), ())

/-- A number beyond the limit is raised as the `ValueError` it is. -/
theorem not_conforms_ones {digits : Nat} (h : 4300 < digits) : ¬ weatherAgent.Conforms
    ((weatherAgent.run "Budget?" "default").exec (numberModel digits) ()).result := by
  intro hconforms
  have hnone := (iterate_conforms_iff (.start "Budget?") (by decide)
    (Program.runs_exec (numberModel digits) (weatherAgent.run "Budget?" "default") ())).mp hconforms
    (.text (ones digits)) List.mem_cons_self
  have hlimit := limit_ones h
  rw [← unfenced_ones] at hlimit
  cases hlimit.symm.trans (congrArg Option.isSome hnone)

end AgentLoop

end TripGraph
