import TripGraph.Foundation.Forests
import TripGraph.Agents.Loop

/-! # Batches and the tree of a trace

A batch runs its calls under an id of its own and leaves a record behind theirs. Printed as a
tree, the trace of a session shows every record once, those of a batch below it.
-/

namespace TripGraph

open Interaction

/-! ## Batches -/

structure ToolCall where
  callId : String
  name : String
  arguments : Args := []
deriving DecidableEq

structure ToolCallResult where
  callId : String
  name : String
  output : Value
  success : Bool := true
  error : Option String := none
deriving DecidableEq

namespace ToolCall

/-- `LLMToolCall(tool=call.name, args=call.arguments)` -/
def toLLMToolCall (host : JsonHost) (call : ToolCall) : Except RaisedError LLMToolCall :=
  LLMToolCall.modelValidate host
    (.dict (.ofList [("tool", .str call.name), ("args", .ofEntries call.arguments)]))

/-- The result of a call, from its observation. -/
def result (call : ToolCall) (observation : ToolObservation) : ToolCallResult where
  callId := call.callId
  name := call.name
  output := observation.output
  success := observation.success
  error := observation.error

end ToolCall

/-- `model_dump()` -/
def ToolCallResult.modelDump (result : ToolCallResult) : Value :=
  .ofEntries [("call_id", .str result.callId), ("name", .str result.name),
    ("output", result.output), ("success", .bool result.success), ("error", .ofText result.error)]

/-- `trace_tool_call` for a batch. -/
def batchTimer (batchId : String) (inputArgs : Args) : TraceTimer where
  callId := batchId
  toolName := "__batch__"
  inputArgs := inputArgs
  parentId := none
  attempt := 1
  maxAttempts := 1
  isFallback := false
  originalTool := none

/-- A call as `execute_llm_call` takes it. -/
inductive LLMCallInput
  | parsed (call : LLMToolCall)
  | raw (output : LLMOutput)

/-- The call, parsed if it is not one yet. -/
def LLMCallInput.parse (host : JsonHost) : LLMCallInput → Except RaisedError LLMToolCall
  | .parsed call => .ok call
  | .raw output => LLMToolCall.parse host output

namespace ToolReliabilityPolicy

variable (policy : ToolReliabilityPolicy) (host : JsonHost)

/-- `execute_llm_call` on a parsed call. -/
def executeParsedCall (call : LLMToolCall) (callId parentId : Option String) :
    Program loopSignature RaisedError ToolObservation := do
  let own ←
    if truthy callId then pure (callId.getD "")
    else Program.perform (S := loopSignature) .uuid4
  (policy.executeWithReliability call.tool call.args own parentId call.tool).interpret askTool

/-- `execute` -/
def execute (call : ToolCall) : Program loopSignature RaisedError ToolCallResult := do
  let llmCall ← Program.ofExcept (call.toLLMToolCall host)
  let observation ← policy.executeParsedCall llmCall (some call.callId) none
  pure (call.result observation)

/-- The calls of `execute_batch`: the first failure ends it. -/
def runCalls (batchId : String) :
    List ToolCall → Program loopSignature RaisedError (List ToolCallResult)
  | [] => pure []
  | call :: rest => do
      let llmCall ← Program.ofExcept (call.toLLMToolCall host)
      let observation ← policy.executeParsedCall llmCall (some call.callId) (some batchId)
      if observation.success then
        let results ← runCalls batchId rest
        pure (call.result observation :: results)
      else .fail (.external "ToolExecutionError"
        (orText observation.error s!"Tool {call.name} failed"))

/-- The record of a batch whose body has ended. -/
def exitBatch {α : Type} (timer : TraceTimer) (output : α → Value) (success : α → Bool) :
    Except RaisedError α → ToolTraceRecord
  | .ok value => { timer with output := output value, success := success value, error := none }
  | .error error => timer.exit (.error error.text)

/-- A body within the context manager of a batch: its record is left however it ends. -/
def withBatch {α : Type} (timer : TraceTimer) (output : α → Value) (success : α → Bool)
    (body : Program loopSignature RaisedError α) : Program loopSignature RaisedError α := do
  let ended ← body.settle
  askTool (.record (exitBatch timer output success ended))
  Program.ofExcept ended

/-- `execute_batch` -/
def executeBatch (calls : List ToolCall) :
    Program loopSignature RaisedError (List ToolCallResult) := do
  let batchId ← Program.perform (S := loopSignature) .uuid4
  withBatch (batchTimer batchId [("tools", .list (calls.map fun call => .str call.name))])
    (fun results => .ofEntries [("results", .list (results.map ToolCallResult.modelDump))])
    (fun _ => true) (policy.runCalls host batchId calls)

/-- The calls of `execute_llm_batch`: all of them are made. -/
def runLLMCalls (batchId : String) :
    List LLMCallInput → Program loopSignature RaisedError (List ToolObservation)
  | [] => pure []
  | input :: rest => do
      let call ← Program.ofExcept (input.parse host)
      let observation ← policy.executeParsedCall call none (some batchId)
      let observations ← runLLMCalls batchId rest
      pure (observation :: observations)

/-- `execute_llm_batch` -/
def executeLLMBatch (calls : List LLMCallInput) :
    Program loopSignature RaisedError (List ToolObservation) := do
  let batchId ← Program.perform (S := loopSignature) .uuid4
  withBatch (batchTimer batchId [("count", .int calls.length)])
    (fun observations => .ofEntries [("observations", .int observations.length)])
    (fun observations => observations.all ToolObservation.success)
    (policy.runLLMCalls host batchId calls)

end ToolReliabilityPolicy

/-! ## The tree -/

namespace ToolTraceLog

/-- What a line says about its record. How a latency and the arguments are written is up to the
host. -/
def label (latency : ToolTraceRecord → String) (dumps : Value → String)
    (node : ToolTraceRecord) : String :=
  let status := if node.success then "✓" else "✗"
  let call :=
    s!"{node.toolName} {status} [{latency node}ms] attempt={node.attempt}/{node.maxAttempts}"
  let fallback :=
    if node.isFallback then " fallback_from=" ++ node.originalTool.elim "None" reprText else ""
  let error :=
    if node.success then "" else
      match node.error with
      | some text => if text = "" then "" else s!" error={reprText text}"
      | none => ""
  call ++ fallback ++ s!" args={dumps (.ofEntries node.inputArgs)}" ++ error

/-- The records under a record. -/
def children (records : List ToolTraceRecord) (node : ToolTraceRecord) : List ToolTraceRecord :=
  records.filter fun entry => decide (entry.parentId = some node.callId)

def connector (isLast : Bool) : String := if isLast then "└─ " else "├─ "

def childIndent (indent : String) (isLast : Bool) : String :=
  indent ++ if isLast then "   " else "│  "

variable (label : ToolTraceRecord → String) (records : List ToolTraceRecord)

/-- `_render_node`, for a limited depth of recursion. -/
def renderNode : Nat → String → Bool → ToolTraceRecord → Option (List String)
  | 0, _, _, _ => none
  | fuel + 1, indent, isLast, node => do
      let below := children records node
      let lines ← below.zipIdx.mapM fun entry =>
        renderNode fuel (childIndent indent isLast) (decide (entry.2 + 1 = below.length)) entry.1
      some ((indent ++ connector isLast ++ label node) :: lines.flatten)

/-- The records the tree begins with: all of them if every one has a parent. -/
def roots : List ToolTraceRecord :=
  let own := records.filter fun entry => entry.parentId.isNone
  if own = [] then records else own

/-- The lines of `print_trace_tree`. -/
def traceTree (fuel : Nat) (sessionId : String) : Option (List String) := do
  let first := roots records
  let lines ← first.zipIdx.mapM fun entry =>
    renderNode label records fuel "" (decide (entry.2 + 1 = first.length)) entry.1
  some (s!"ToolTrace session={sessionId}" :: lines.flatten)

end ToolTraceLog

/-! ## Sessions -/

/-- What a session asks of a tool executor. -/
inductive ToolRequest
  | execute (call : ToolCall)
  | executeLLMCall (input : LLMCallInput) (callId : Option String)
  | executeBatch (calls : List ToolCall)
  | executeLLMBatch (calls : List LLMCallInput)
  | processLLMOutput (raw : LLMOutput)

namespace ToolRequest

variable (policy : ToolReliabilityPolicy) (host : JsonHost)

/-- A request carried out, whatever it returns. -/
def perform : ToolRequest → Program loopSignature RaisedError Unit
  | .execute call => (fun _ => ()) <$> policy.execute host call
  | .executeLLMCall input callId => do
      let call ← Program.ofExcept (input.parse host)
      (fun _ => ()) <$> policy.executeParsedCall call callId none
  | .executeBatch calls => (fun _ => ()) <$> policy.executeBatch host calls
  | .executeLLMBatch calls => (fun _ => ()) <$> policy.executeLLMBatch host calls
  | .processLLMOutput raw => (fun _ => ()) <$> policy.processLlmOutput host raw

end ToolRequest

abbrev LoopEvent := Exchange loopSignature

/-- The records that a trace leaves with the tracer. -/
def traced (trace : List LoopEvent) : List ToolTraceRecord :=
  trace.filterMap fun event =>
    match event with
    | ⟨.tool (.record entry), _⟩ => some entry
    | _ => none

@[simp] theorem traced_append (first second : List LoopEvent) :
    traced (first ++ second) = traced first ++ traced second := List.filterMap_append

/-- The records of a tracer whose requests have ended. Requests may have overlapped, so the
records of one may stand among those of others; and the tracer may have been cleared at any time,
in the middle of a request too, which leaves what the request recorded after that. -/
inductive ToolSession (policy : ToolReliabilityPolicy) (host : JsonHost) :
    List ToolTraceRecord → Prop
  | start : ToolSession policy host []
  | request {records kept merged : List ToolTraceRecord} {own : ToolRequest}
      {trace : List LoopEvent} {result : Except RaisedError Unit}
      (earlier : ToolSession policy host records)
      (run : Runs (own.perform policy host) trace result) (since : kept <:+ traced trace)
      (among : merged.Perm (records ++ kept)) : ToolSession policy host merged
  | clear {records : List ToolTraceRecord} (earlier : ToolSession policy host records) :
      ToolSession policy host []

/-- Every record under a parent has one, which is itself under none. -/
def Grouped (records : List ToolTraceRecord) : Prop :=
  ∀ entry ∈ records, ∀ batchId, entry.parentId = some batchId →
    ∃ batch ∈ records, batch.callId = batchId ∧ batch.parentId = none

namespace Grouped

variable {records other : List ToolTraceRecord}

theorem append (h : Grouped records) (hother : Grouped other) : Grouped (records ++ other) := by
  intro entry hentry batchId hparent
  rcases List.mem_append.mp hentry with hentry | hentry
  · obtain ⟨batch, hbatch, hfacts⟩ := h entry hentry batchId hparent
    exact ⟨batch, List.mem_append_left _ hbatch, hfacts⟩
  · obtain ⟨batch, hbatch, hfacts⟩ := hother entry hentry batchId hparent
    exact ⟨batch, List.mem_append_right _ hbatch, hfacts⟩

theorem perm (h : Grouped records) (hperm : other.Perm records) : Grouped other := by
  intro entry hentry batchId hparent
  obtain ⟨batch, hbatch, hfacts⟩ := h entry (hperm.mem_iff.mp hentry) batchId hparent
  exact ⟨batch, hperm.mem_iff.mpr hbatch, hfacts⟩

theorem of_none (h : ∀ entry ∈ records, entry.parentId = none) : Grouped records := by
  intro entry hentry batchId hparent
  rw [h entry hentry] at hparent
  cases hparent

end Grouped

/-! ## What a request records -/

section Requests

variable {policy : ToolReliabilityPolicy} {host : JsonHost} {trace : List LoopEvent}

/-- The records of a tool execution within the loop are those of the execution. -/
theorem runs_interpret_askTool {α : Type} {p : Program toolSignature RaisedError α}
    {result : Except RaisedError α} (h : Runs (p.interpret askTool) trace result) :
    ∃ own, Runs p own result ∧ traced trace = recorded own := by
  induction p generalizing trace with
  | done value =>
      obtain ⟨rfl, rfl⟩ := runs_done_iff.mp h
      exact ⟨[], .done value, rfl⟩
  | fail error =>
      obtain ⟨rfl, rfl⟩ := runs_fail_iff.mp h
      exact ⟨[], .fail error, rfl⟩
  | ask op next ih =>
      obtain ⟨reply, rest, rfl, hrest⟩ := runs_ask_iff.mp h
      obtain ⟨own, hown, hsame⟩ := ih reply hrest
      refine ⟨⟨op, reply⟩ :: own, .ask op next reply own result hown, ?_⟩
      cases op with
      | record entry => exact congrArg (entry :: ·) hsame
      | _ => exact hsame

/-- All that the program records is under this parent. -/
def RecordsUnder (parentId : Option String) {α : Type}
    (p : Program loopSignature RaisedError α) : Prop :=
  ∀ trace result, Runs p trace result → ∀ entry ∈ traced trace, entry.parentId = parentId

namespace RecordsUnder

variable {α β : Type} {parentId : Option String}

theorem pure (value : α) : RecordsUnder parentId (.done value) := by
  intro trace result h
  obtain ⟨rfl, -⟩ := runs_done_iff.mp h
  simp [traced]

theorem fail (error : RaisedError) : RecordsUnder (α := α) parentId (.fail error) := by
  intro trace result h
  obtain ⟨rfl, -⟩ := runs_fail_iff.mp h
  simp [traced]

theorem ofExcept (value : Except RaisedError α) :
    RecordsUnder parentId (Program.ofExcept value) := by
  cases value with
  | ok value => exact pure value
  | error error => exact fail error

theorem bind {p : Program loopSignature RaisedError α} {f : α → Program loopSignature RaisedError β}
    (hp : RecordsUnder parentId p) (hf : ∀ value, RecordsUnder parentId (f value)) :
    RecordsUnder parentId (p >>= f) := by
  intro trace result h
  rcases runs_bind_iff.mp h with ⟨value, first, second, hfirst, hsecond, rfl⟩ | ⟨error, hfirst, -⟩
  · rw [traced_append]
    exact List.forall_mem_append.mpr ⟨hp _ _ hfirst, hf value _ _ hsecond⟩
  · exact hp _ _ hfirst

theorem uuid4 {f : String → Program loopSignature RaisedError β}
    (hf : ∀ own, RecordsUnder parentId (f own)) :
    RecordsUnder parentId (Program.perform (S := loopSignature) .uuid4 >>= f) := by
  intro trace result h
  obtain ⟨own, rest, rfl, hrest⟩ := runs_ask_iff.mp h
  exact hf own rest result hrest

end RecordsUnder

theorem recordsUnder_executeParsedCall (call : LLMToolCall) (callId parentId : Option String) :
    RecordsUnder parentId (policy.executeParsedCall call callId parentId) := by
  have hinner : ∀ own, RecordsUnder parentId ((policy.executeWithReliability call.tool call.args own
      parentId call.tool).interpret askTool) := by
    intro own trace result hrun
    obtain ⟨inner, hinner, hsame⟩ := runs_interpret_askTool hrun
    rw [hsame]
    exact (ToolReliabilityPolicy.parentId_executeWithReliability hinner).2
  unfold ToolReliabilityPolicy.executeParsedCall
  dsimp only
  split
  · exact hinner _
  · exact .uuid4 hinner

theorem recordsUnder_runCalls (batchId : String) (calls : List ToolCall) :
    RecordsUnder (some batchId) (policy.runCalls host batchId calls) := by
  induction calls with
  | nil => exact .pure []
  | cons call rest ih =>
      refine (RecordsUnder.ofExcept _).bind fun llmCall => ?_
      refine (recordsUnder_executeParsedCall llmCall _ _).bind fun observation => ?_
      split
      · exact ih.bind fun results => .pure _
      · exact .fail _

theorem recordsUnder_runLLMCalls (batchId : String) (calls : List LLMCallInput) :
    RecordsUnder (some batchId) (policy.runLLMCalls host batchId calls) := by
  induction calls with
  | nil => exact .pure []
  | cons input rest ih =>
      refine (RecordsUnder.ofExcept _).bind fun call => ?_
      refine (recordsUnder_executeParsedCall call _ _).bind fun observation => ?_
      exact ih.bind fun observations => .pure _

theorem recordsUnder_processLlmOutput (raw : LLMOutput) :
    RecordsUnder none (policy.processLlmOutput host raw) := by
  refine (RecordsUnder.ofExcept _).bind fun parsed => ?_
  split
  · exact .pure _
  split
  · exact .pure _
  · refine (RecordsUnder.ofExcept _).bind fun call => ?_
    exact (recordsUnder_executeParsedCall call none none).bind fun observation => .pure _

/-- The record of a batch stands behind those of its calls, however the batch ends. -/
theorem traced_withBatch {α : Type} {timer : TraceTimer} {output : α → Value} {success : α → Bool}
    {body : Program loopSignature RaisedError α} {result : Except RaisedError α}
    (h : Runs (ToolReliabilityPolicy.withBatch timer output success body) trace result) :
    ∃ inner, Runs body inner result ∧
      traced trace = traced inner ++
        [ToolReliabilityPolicy.exitBatch timer output success result] := by
  rcases runs_bind_iff.mp h with ⟨ended, inner, rest, hsettled, hrest, rfl⟩ | ⟨error, hsettled, -⟩
  · obtain ⟨own, hown, heq⟩ := runs_settle_iff.mp hsettled
    cases heq
    obtain ⟨reply, last, rfl, hlast⟩ := runs_ask_iff.mp hrest
    obtain ⟨rfl, rfl⟩ := runs_ofExcept_iff.mp hlast
    exact ⟨inner, hown, by rw [traced_append]; rfl⟩
  · obtain ⟨_, -, heq⟩ := runs_settle_iff.mp hsettled
    cases heq

theorem parentId_exitBatch {α : Type} (batchId : String) (inputArgs : Args) (output : α → Value)
    (success : α → Bool) (result : Except RaisedError α) :
    (ToolReliabilityPolicy.exitBatch (batchTimer batchId inputArgs) output success
      result).parentId = none ∧
    (ToolReliabilityPolicy.exitBatch (batchTimer batchId inputArgs) output success
      result).callId = batchId := by
  cases result with
  | ok value => exact ⟨rfl, rfl⟩
  | error error => exact ⟨rfl, rfl⟩

theorem grouped_withBatch {α : Type} {batchId : String} {inputArgs : Args} {output : α → Value}
    {success : α → Bool} {body : Program loopSignature RaisedError α}
    (hbody : RecordsUnder (some batchId) body)
    {result : Except RaisedError α}
    (h : Runs (ToolReliabilityPolicy.withBatch (batchTimer batchId inputArgs) output success body)
      trace result) {kept : List ToolTraceRecord} (hkept : kept <:+ traced trace) :
    Grouped kept := by
  obtain ⟨inner, hinner, hsame⟩ := traced_withBatch h
  obtain ⟨hroot, hid⟩ := parentId_exitBatch batchId inputArgs output success result
  rw [hsame] at hkept
  intro entry hentry own hparent
  have hne : kept ≠ [] := List.ne_nil_of_mem hentry
  -- the batch is recorded last
  have hlast := hkept.getLast hne
  rw [List.getLast_append_singleton] at hlast
  rcases List.mem_append.mp (hkept.subset hentry) with hinside | hbatch
  · rw [hbody inner result hinner entry hinside] at hparent
    refine ⟨_, hlast ▸ List.getLast_mem hne, ?_, hroot⟩
    rw [hid, Option.some.inj hparent]
  · rw [List.mem_singleton.mp hbatch, hroot] at hparent
    cases hparent

/-- Whatever is asked of an executor, the records of a batch come with its own, also those that a
clearing in the middle leaves. -/
theorem grouped_perform {request : ToolRequest} {result : Except RaisedError Unit}
    (h : Runs (request.perform policy host) trace result) {kept : List ToolTraceRecord}
    (hkept : kept <:+ traced trace) : Grouped kept := by
  have hnone : RecordsUnder none (request.perform policy host) → Grouped kept :=
    fun hunder => .of_none fun entry hentry => hunder _ _ h entry (hkept.subset hentry)
  have hbatch : ∀ {α : Type} {p : Program loopSignature RaisedError α},
      (∀ {trace : List LoopEvent} {own : Except RaisedError α}, Runs p trace own →
        kept <:+ traced trace → Grouped kept) →
      Runs ((fun _ => ()) <$> p) trace result → Grouped kept := by
    intro α p hgrouped hrun
    rcases runs_bind_iff.mp hrun with ⟨_, first, second, hfirst, hsecond, rfl⟩ | ⟨_, hfirst, -⟩
    · obtain ⟨rfl, -⟩ := runs_pure_iff.mp hsecond
      rw [List.append_nil] at hkept
      exact hgrouped hfirst hkept
    · exact hgrouped hfirst hkept
  cases request with
  | execute call =>
      refine hnone (RecordsUnder.bind ?_ fun _ => .pure ())
      refine (RecordsUnder.ofExcept _).bind fun llmCall => ?_
      exact (recordsUnder_executeParsedCall llmCall _ none).bind fun observation => .pure _
  | executeLLMCall input callId =>
      refine hnone
        ((RecordsUnder.ofExcept _).bind fun call => RecordsUnder.bind ?_ fun _ => .pure ())
      exact recordsUnder_executeParsedCall call callId none
  | processLLMOutput raw =>
      exact hnone ((recordsUnder_processLlmOutput raw).bind fun _ => .pure ())
  | executeBatch calls =>
      refine hbatch (fun hrun hsince => ?_) h
      obtain ⟨batchId, rest, rfl, hrest⟩ := runs_ask_iff.mp hrun
      exact grouped_withBatch (recordsUnder_runCalls batchId calls) hrest hsince
  | executeLLMBatch calls =>
      refine hbatch (fun hrun hsince => ?_) h
      obtain ⟨batchId, rest, rfl, hrest⟩ := runs_ask_iff.mp hrun
      exact grouped_withBatch (recordsUnder_runLLMCalls batchId calls) hrest hsince

/-- Every session leaves the records of a batch with its own. -/
theorem ToolSession.grouped {records : List ToolTraceRecord} (h : ToolSession policy host records) :
    Grouped records := by
  induction h with
  | start => exact .of_none (by simp)
  | request earlier run since among ih => exact (ih.append (grouped_perform run since)).perm among
  | clear => exact .of_none (by simp)

end Requests

/-! ## The tree shows every record once -/

/-- The id of a batch is the id of no other record. -/
def BatchesNamed (records : List ToolTraceRecord) : Prop :=
  ∀ entry ∈ records, ∀ batchId ∈ entry.parentId,
    (records.filter fun own => decide (own.callId = batchId)).length ≤ 1

/-- How deep a record lies. -/
def depthOf (entry : ToolTraceRecord) : Nat := if entry.parentId = none then 0 else 1

theorem forest_of_grouped {records : List ToolTraceRecord} (hgrouped : Grouped records)
    (hnamed : BatchesNamed records) :
    Forest (fun own : ToolTraceRecord => own.callId) (fun own => own.parentId) records depthOf where
  root own _ hparent := if_pos hparent
  above own hown up hparent := by
    obtain ⟨batch, hbatch, hid, hroot⟩ := hgrouped own hown up hparent
    have hmem : batch ∈ records.filter fun other => decide (other.callId = up) :=
      List.mem_filter.mpr ⟨hbatch, decide_eq_true hid⟩
    refine ⟨batch, ?_, ?_⟩
    · have hlength := hnamed own hown up hparent
      cases hfilter : records.filter fun other => decide (other.callId = up) with
      | nil =>
          rw [hfilter] at hmem
          cases hmem
      | cons head tail =>
          rw [hfilter, List.length_cons] at hlength
          obtain rfl : tail = [] := List.length_eq_zero_iff.mp (by omega)
          rw [hfilter, List.mem_singleton] at hmem
          rw [hmem]
    · rw [depthOf, depthOf, if_neg (by rw [hparent]; exact Option.some_ne_none up), if_pos hroot]

theorem mapM_eq_some_map {α β : Type} {f : α → Option β} {g : α → β} {items : List α}
    (h : ∀ item ∈ items, f item = some (g item)) : items.mapM f = some (items.map g) := by
  induction items with
  | nil => rfl
  | cons item rest ih =>
      obtain ⟨hitem, hrest⟩ := List.forall_mem_cons.mp h
      simp [hitem, ih hrest]

namespace ToolTraceLog

variable {label : ToolTraceRecord → String} {records : List ToolTraceRecord}

/-- The records of a subtree, each with what stands before its label. -/
def placeNode (records : List ToolTraceRecord) :
    Nat → String → Bool → ToolTraceRecord → List (String × ToolTraceRecord)
  | 0, _, _, _ => []
  | fuel + 1, indent, isLast, node =>
      let below := children records node
      (indent ++ connector isLast, node) :: below.zipIdx.flatMap fun entry =>
        placeNode records fuel (childIndent indent isLast) (decide (entry.2 + 1 = below.length))
          entry.1

/-- A line with its label. -/
def line (label : ToolTraceRecord → String) (placed : String × ToolTraceRecord) : String :=
  placed.1 ++ label placed.2

theorem flatMap_zipIdx {α β : Type} (f : α → List β) (items : List α) :
    (items.zipIdx.flatMap fun entry => f entry.1) = items.flatMap f := by
  rw [← List.flatMap_map, List.zipIdx_map_fst]

theorem placeNode_snd (fuel : Nat) (indent : String) (isLast : Bool) (node : ToolTraceRecord) :
    (placeNode records fuel indent isLast node).map Prod.snd =
      descend (fun own : ToolTraceRecord => own.callId) (fun own => own.parentId) records fuel
        node := by
  induction fuel generalizing indent isLast node with
  | zero => rfl
  | succ fuel ih =>
      simp only [placeNode, descend, List.map_cons, List.map_flatMap, ih]
      exact congrArg (node :: ·) (flatMap_zipIdx _ _)

/-- Where the tree is not deeper than the recursion may go, all of it is rendered. -/
theorem renderNode_eq {depth : ToolTraceRecord → Nat}
    (h : Forest (fun own : ToolTraceRecord => own.callId) (fun own => own.parentId) records depth)
    {fuel : Nat} {node : ToolTraceRecord} (hnode : node ∈ records)
    (hfuel : ∀ own ∈ records, depth own < depth node + fuel) (indent : String) (isLast : Bool) :
    renderNode label records fuel indent isLast node =
      some ((placeNode records fuel indent isLast node).map (line label)) := by
  induction fuel generalizing node indent isLast with
  | zero => exact absurd (hfuel node hnode) (lt_irrefl _)
  | succ fuel ih =>
      have hbelow : ∀ entry ∈ (children records node).zipIdx,
          renderNode label records fuel (childIndent indent isLast)
              (decide (entry.2 + 1 = (children records node).length)) entry.1 =
            some ((placeNode records fuel (childIndent indent isLast)
              (decide (entry.2 + 1 = (children records node).length)) entry.1).map
                (line label)) := by
        intro entry hentry
        have hchild : entry.1 ∈ children records node := List.fst_mem_of_mem_zipIdx hentry
        refine ih (List.mem_filter.mp hchild).1 (fun own hown => ?_) _ _
        have hdepth := h.depth_child hnode hchild
        have hbound := hfuel own hown
        omega
      simp only [renderNode, placeNode]
      rw [mapM_eq_some_map hbelow, List.map_cons, List.map_flatMap]
      rfl

theorem roots_eq (h : Grouped records) :
    roots records = rootsOf (fun own : ToolTraceRecord => own.parentId) records := by
  unfold roots
  dsimp only
  split
  next hnone =>
    -- a record under no root would have one
    have hempty : records = [] := List.eq_nil_iff_forall_not_mem.mpr fun entry hentry => by
      cases hparent : entry.parentId with
      | none =>
          have hroot : entry ∈ records.filter fun own => own.parentId.isNone :=
            List.mem_filter.mpr ⟨hentry, by simp [hparent]⟩
          rw [hnone] at hroot
          cases hroot
      | some batchId =>
          obtain ⟨batch, hbatch, -, hroot⟩ := h entry hentry batchId hparent
          have hroots : batch ∈ records.filter fun own => own.parentId.isNone :=
            List.mem_filter.mpr ⟨hbatch, by simp [hroot]⟩
          rw [hnone] at hroots
          cases hroots
    rw [hempty]
    rfl
  next => rfl

/-- Below a root there is one level. -/
theorem descend_root
    (h : Forest (fun own : ToolTraceRecord => own.callId) (fun own => own.parentId) records depthOf)
    {root : ToolTraceRecord} (hroot : root ∈ records) {fuel : Nat} (hfuel : 2 ≤ fuel) :
    descend (fun own : ToolTraceRecord => own.callId) (fun own => own.parentId) records fuel root =
      root :: children records root := by
  obtain ⟨fuel, rfl⟩ : ∃ own, fuel = own + 2 := ⟨fuel - 2, by omega⟩
  have hleaf : ∀ child ∈ children records root,
      descend (fun own : ToolTraceRecord => own.callId) (fun own => own.parentId) records (fuel + 1)
        child = [child] := by
    intro child hchild
    have hdepth := h.depth_child hroot hchild
    have hnone : childrenOf (fun own : ToolTraceRecord => own.callId) (fun own => own.parentId)
        records child = [] := by
      refine List.eq_nil_iff_forall_not_mem.mpr fun own hown => ?_
      have hbelow := h.depth_child (List.mem_filter.mp hchild).1 hown
      have hle : depthOf own ≤ 1 := by
        unfold depthOf
        split <;> omega
      omega
    rw [descend, hnone, List.flatMap_nil]
  rw [descend]
  refine congrArg (root :: ·) ?_
  exact (List.flatMap_congr hleaf).trans (List.flatMap_singleton' _)

/-- The printed tree of a session shows every record once: the calls and batches in their order,
and behind each batch the records of its calls. -/
theorem traceTree_complete {policy : ToolReliabilityPolicy} {host : JsonHost}
    (h : ToolSession policy host records) (hnamed : BatchesNamed records) {fuel : Nat}
    (hfuel : 2 ≤ fuel) (sessionId : String) :
    ∃ placed : List (String × ToolTraceRecord),
      traceTree label records fuel sessionId =
        some (s!"ToolTrace session={sessionId}" :: placed.map (line label)) ∧
      (placed.map Prod.snd).Perm records ∧
      placed.map Prod.snd = (records.filter fun own => own.parentId.isNone).flatMap fun root =>
        root :: children records root := by
  have hgrouped := h.grouped
  have hforest := forest_of_grouped hgrouped hnamed
  have hroots := roots_eq hgrouped
  have hmem : ∀ root ∈ roots records, root ∈ records := by
    rw [hroots]
    exact fun root hroot => (List.mem_filter.mp hroot).1
  have hdepth : ∀ own ∈ records, depthOf own < fuel := by
    intro own _
    unfold depthOf
    split <;> omega
  let placed := (roots records).zipIdx.flatMap fun entry =>
    placeNode records fuel "" (decide (entry.2 + 1 = (roots records).length)) entry.1
  have hplaced : placed.map Prod.snd = (rootsOf (fun own : ToolTraceRecord => own.parentId)
      records).flatMap (descend (fun own : ToolTraceRecord => own.callId) (fun own => own.parentId)
        records fuel) := by
    simp only [placed, List.map_flatMap, placeNode_snd]
    rw [flatMap_zipIdx, hroots]
  refine ⟨placed, ?_, ?_, ?_⟩
  · have hlines : ∀ entry ∈ (roots records).zipIdx,
        renderNode label records fuel "" (decide (entry.2 + 1 = (roots records).length)) entry.1 =
          some ((placeNode records fuel "" (decide (entry.2 + 1 = (roots records).length))
            entry.1).map (line label)) := fun entry hentry =>
      renderNode_eq hforest (hmem _ (List.fst_mem_of_mem_zipIdx hentry))
        (fun own hown => Nat.lt_add_left _ (hdepth own hown)) _ _
    simp only [traceTree]
    rw [mapM_eq_some_map hlines]
    simp only [placed, List.map_flatMap]
    rfl
  · rw [hplaced]
    exact hforest.descend_roots hdepth
  · rw [hplaced]
    exact List.flatMap_congr fun root hroot =>
      descend_root hforest (List.mem_filter.mp hroot).1 hfuel

/-- The batch is named, and `flaky` fails on each attempt. -/
def batchTools : Handler loopSignature Unit where
  answer
    | .generate _, _ => (.text "", ())
    | .uuid4, _ => ("batch", ())
    | .tool op, _ => ToolReliabilityPolicy.flakyTools.answer op ()

/-- A batch of two calls; the fallback answers for the second. -/
def weatherBatch : ToolRequest := .executeBatch [⟨"c1", "weather", []⟩, ⟨"c2", "flaky", []⟩]

/-- The records that the batch leaves. -/
def weatherBatchRecords : List ToolTraceRecord :=
  traced ((weatherBatch.perform ToolReliabilityPolicy.flakyPolicy AgentLoop.weatherHost).exec
    batchTools ()).trace

theorem toolSession_weatherBatch : ToolSession ToolReliabilityPolicy.flakyPolicy
    AgentLoop.weatherHost weatherBatchRecords :=
  .request .start (Program.runs_exec batchTools (weatherBatch.perform _ _) ()) (List.suffix_refl _)
    (List.Perm.refl _)

theorem traceTree_complete_weatherBatch : ∃ placed : List (String × ToolTraceRecord),
    traceTree (fun own => own.toolName) weatherBatchRecords 2 "s" =
      some ("ToolTrace session=s" :: placed.map (line (fun own => own.toolName))) ∧
    (placed.map Prod.snd).Perm weatherBatchRecords ∧
    placed.map (fun own => own.2.toolName) =
      ["__batch__", "weather", "flaky", "flaky", "weather"] := by
  have hnamed : BatchesNamed weatherBatchRecords := by
    unfold BatchesNamed
    decide +kernel
  obtain ⟨placed, htree, hperm, horder⟩ := traceTree_complete toolSession_weatherBatch hnamed
    (show 2 ≤ 2 by decide) "s"
  refine ⟨placed, htree, hperm, ?_⟩
  have hnames := congrArg (List.map (fun own => own.toolName)) horder
  rw [List.map_map] at hnames
  exact hnames.trans (by decide +kernel)

end ToolTraceLog

end TripGraph
