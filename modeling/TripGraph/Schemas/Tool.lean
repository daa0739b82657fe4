import TripGraph.Foundation.Json
import TripGraph.Schemas.Plan

/-! # What a language model answers

An answer is a dictionary or a text. It is parsed into a tool call, a final answer or a parse
error; a text is looked at twice, once to tell the kind and once for the call.
-/

namespace TripGraph

open Interaction

/-- What is read from a JSON text, as far as dictionaries are concerned. -/
inductive Loaded
  | dict (payload : Dict String Value)
  | other (item : Json)

/-- What Python and its libraries make of values: what a JSON text stands for, how values are
written, and the texts of exceptions. -/
structure JsonHost extends JsonDecoder where
  meaning : Json → Loaded
  dumps : Value → String
  validationError : Loaded → String

/-- `json.loads` -/
def JsonHost.loads (host : JsonHost) (text : String) : Except LoadFailure Loaded :=
  (host.toJsonDecoder.loads text).map host.meaning

/-! ## Lines -/

/-- The characters at which `str.splitlines` breaks. -/
def isLineBreak (c : Char) : Bool :=
  let n := c.toNat
  (10 ≤ n && n ≤ 13) || (28 ≤ n && n ≤ 30) || n == 0x85 || n == 0x2028 || n == 0x2029

/-- `text.splitlines()`, behind what was read of the line. -/
def splitLines : List Char → List Char → List (List Char)
  | [], [] => []
  | line, [] => [line.reverse]
  | line, '\r' :: '\n' :: rest => line.reverse :: splitLines [] rest
  | line, c :: rest =>
      if isLineBreak c then line.reverse :: splitLines [] rest else splitLines (c :: line) rest

@[irreducible] def startsWith (text opening : String) : Bool :=
  opening.toList.isPrefixOf text.toList

/-- A text without the white space around it and, if it starts with a fence, without the lines
that are fences. -/
def unfenced (raw : String) : String :=
  let text := strip raw
  if startsWith text "```" then
    let lines := (splitLines [] text.toList).map String.ofList
    strip ("\n".intercalate (lines.filter fun line => !startsWith line "```"))
  else text

/-! ## Tool calls -/

/-- The answer of a language model. -/
inductive LLMOutput
  | text (raw : String)
  | dict (payload : Dict String Value)

structure LLMToolCall where
  tool : String
  args : Args
deriving DecidableEq

/-- A dictionary that has only texts as keys. -/
def Value.args? : Value → Option Args
  | .dict items => items.mapM fun
      | (.str key, value) => some (key, value)
      | (.int _, _) => none
  | _ => none

/-- The call a dictionary describes: the tool is a text that is not blank, the arguments are a
dictionary if they are given. -/
def LLMToolCall.validated? : Loaded → Option LLMToolCall
  | .dict payload =>
      match payload.get? "tool", (payload.get? "args").elim (some []) Value.args? with
      | some (.str tool), some args => if isBlank tool then none else some ⟨tool, args⟩
      | _, _ => none
  | .other _ => none

/-- `model_validate` -/
def LLMToolCall.modelValidate (host : JsonHost) (loaded : Loaded) :
    Except RaisedError LLMToolCall :=
  match validated? loaded with
  | some call => .ok call
  | none => .error (.external "ValidationError" (host.validationError loaded))

/-- `LLMToolCall.parse` -/
def LLMToolCall.parse (host : JsonHost) : LLMOutput → Except RaisedError LLMToolCall
  | .dict payload => modelValidate host (.dict payload)
  | .text raw =>
      match host.loads (unfenced raw) with
      | .error (.decode error) => .error (.external "JSONDecodeError" error.text)
      | .error (.limit kind message) => .error (.external kind message)
      | .ok loaded => modelValidate host loaded

/-! ## Parsing -/

inductive LLMOutputKind
  | toolCall
  | final
  | parseError
deriving DecidableEq

/-- Unified result after processing raw LLM output. -/
structure LLMExecutionResult where
  kind : LLMOutputKind
  observation : Option ToolObservation := none
  final : Option String := none
  error : Option String := none
  raw : Option LLMOutput := none

namespace LLMOutputParser

def finalKeys : List String := ["final", "content", "message", "answer"]

/-- The first of the keys that the dictionary has, with its value. -/
def firstOf (payload : Dict String Value) (keys : List String) : Option (String × Value) :=
  keys.findSome? fun key => (payload.get? key).map fun value => (key, value)

/-- `_parse_dict` -/
def parseDict (host : JsonHost) (payload : Dict String Value) (raw : LLMOutput) :
    LLMExecutionResult :=
  if payload.contains "tool" then
    match LLMToolCall.validated? (.dict payload) with
    | none =>
        { kind := .parseError
          error := some (host.validationError (.dict payload))
          raw := some raw }
    | some _ => { kind := .toolCall, raw := some raw }
  else
    match firstOf payload finalKeys with
    | some (_, .str content) => { kind := .final, final := some content, raw := some raw }
    | some (key, _) =>
        { kind := .parseError, error := some s!"Field '{key}' must be a string", raw := some raw }
    | none =>
        { kind := .parseError
          error := some "Unrecognized LLM output: expected 'tool' or final response field"
          raw := some raw }

/-- Only a `JSONDecodeError` is caught. -/
def parse (host : JsonHost) : LLMOutput → Except RaisedError LLMExecutionResult
  | .dict payload => .ok (parseDict host payload (.dict payload))
  | .text raw =>
      let text := unfenced raw
      match host.loads text with
      | .error (.limit kind message) => .error (.external kind message)
      | .error (.decode error) =>
          if startsWith text "\x7b" || startsWith text "[" then
            .ok
              { kind := .parseError
                error := some s!"Invalid JSON: {error.msg}"
                raw := some (.text raw) }
          else .ok { kind := .final, final := some text, raw := some (.text raw) }
      | .ok (.other _) =>
          .ok
            { kind := .parseError
              error := some "LLM output JSON must be an object"
              raw := some (.text raw) }
      | .ok (.dict payload) => .ok (parseDict host payload (.text raw))

/-- `to_tool_call` -/
def toToolCall (host : JsonHost) (parsed : LLMExecutionResult) : Except RaisedError LLMToolCall :=
  match parsed.kind, parsed.raw with
  | .toolCall, some (.dict payload) => LLMToolCall.modelValidate host (.dict payload)
  | _, some (.text raw) => LLMToolCall.parse host (.text raw)
  | _, _ => .error (.valueError "Not a tool call")

/-- The limit of the interpreter that an answer is beyond, if there is one. -/
def limit? (host : JsonHost) : LLMOutput → Option (String × String)
  | .dict _ => none
  | .text raw => host.limit (unfenced raw)

variable {host : JsonHost}

/-- Of a dictionary only a tool call that is valid is called one. -/
theorem parseDict_toolCall {payload : Dict String Value} {raw : LLMOutput}
    (h : (parseDict host payload raw).kind = .toolCall) :
    (parseDict host payload raw).raw = some raw ∧
      ∃ call, LLMToolCall.validated? (.dict payload) = some call := by
  unfold parseDict at h ⊢
  split at h
  · rw [if_pos ‹_›]
    cases hcall : LLMToolCall.validated? (.dict payload) with
    | none =>
        rw [hcall] at h
        cases h
    | some call => exact ⟨rfl, call, rfl⟩
  · split at h <;> simp at h

theorem modelValidate_of_validated {loaded : Loaded} {call : LLMToolCall}
    (h : LLMToolCall.validated? loaded = some call) :
    LLMToolCall.modelValidate host loaded = .ok call := by
  rw [LLMToolCall.modelValidate, h]

/-- An answer beyond a limit is not parsed. -/
theorem parse_of_limit {output : LLMOutput} {kind message : String}
    (h : limit? host output = some (kind, message)) :
    parse host output = .error (.external kind message) := by
  cases output with
  | dict payload => cases h
  | text raw =>
      have hlimit : host.limit (unfenced raw) = some (kind, message) := h
      simp only [parse, JsonHost.loads, JsonDecoder.loads, hlimit, Except.map]

/-- Every other answer is parsed, and what is parsed as a tool call is read as one again. -/
theorem parse_of_no_limit {output : LLMOutput} (h : limit? host output = none) :
    ∃ parsed, parse host output = .ok parsed ∧
      (parsed.kind = .toolCall → ∃ call, toToolCall host parsed = .ok call) := by
  cases output with
  | dict payload =>
      refine ⟨_, rfl, fun hkind => ?_⟩
      obtain ⟨hraw, call, hcall⟩ := parseDict_toolCall hkind
      refine ⟨call, ?_⟩
      rw [toToolCall, hkind, hraw]
      exact modelValidate_of_validated hcall
  | text raw =>
      have hlimit : host.limit (unfenced raw) = none := h
      cases hloads : host.loads (unfenced raw) with
      | error failure =>
          cases failure with
          | limit kind message =>
              simp only [JsonHost.loads, JsonDecoder.loads, hlimit] at hloads
              split at hloads <;> cases hloads
          | decode error =>
              simp only [parse, hloads]
              split
              · exact ⟨_, rfl, fun hkind => by cases hkind⟩
              · exact ⟨_, rfl, fun hkind => by cases hkind⟩
      | ok loaded =>
          cases loaded with
          | other item =>
              simp only [parse, hloads]
              exact ⟨_, rfl, fun hkind => by cases hkind⟩
          | dict payload =>
              simp only [parse, hloads]
              refine ⟨_, rfl, fun hkind => ?_⟩
              obtain ⟨hraw, call, hcall⟩ := parseDict_toolCall hkind
              refine ⟨call, ?_⟩
              rw [toToolCall, hkind, hraw]
              simp only [LLMToolCall.parse, hloads]
              exact modelValidate_of_validated hcall

end LLMOutputParser

end TripGraph
