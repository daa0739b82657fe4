import Mathlib.Data.List.Range
import TripGraph.Foundation.Oracle
import TripGraph.Foundation.Tries
import TripGraph.Schemas.Plan

/-! # Reliable tool execution

A tool is called until a call succeeds or its attempts are used up; then, if the policy names
one, a fallback tool is called in the same way. Every attempt leaves a record.
-/

namespace TripGraph

open Interaction

/-! ## The policy and the records -/

/-- Retry, timeout, and fallback configuration. How a number is written is up to the host
language. -/
structure ToolReliabilityPolicy where
  maxRetries : Nat := 2
  timeoutSec : Option Rat := some 30
  timeout_pos : ∀ seconds ∈ timeoutSec, 0 < seconds
  fallbackTools : Dict String String := .empty
  showFloat : Rat → String

namespace ToolReliabilityPolicy

def maxAttempts (policy : ToolReliabilityPolicy) : Nat := 1 + policy.maxRetries

/-- `fallback_tools.get(requested_tool)`, if it is truthy. -/
def fallback? (policy : ToolReliabilityPolicy) (requestedTool : String) : Option String :=
  (policy.fallbackTools.get? requestedTool).filter fun name => decide (name ≠ "")

end ToolReliabilityPolicy

/-- What a record says about its attempt before the outcome is known. -/
structure TraceTimer where
  callId : String
  toolName : String
  inputArgs : Args
  parentId : Option String
  attempt : Nat
  maxAttempts : Nat
  isFallback : Bool
  originalTool : Option String
deriving DecidableEq

/-- Single tool invocation trace entry. -/
structure ToolTraceRecord extends TraceTimer where
  output : Value
  success : Bool
  error : Option String
deriving DecidableEq

/-- The record of an attempt with this output, or with the text of this exception. -/
def TraceTimer.exit (timer : TraceTimer) : Except String Value → ToolTraceRecord
  | .ok output => { timer with output := output, success := true, error := none }
  | .error text => { timer with output := .null, success := false, error := some text }

@[simp] theorem TraceTimer.exit_toTraceTimer (timer : TraceTimer) (outcome : Except String Value) :
    (timer.exit outcome).toTraceTimer = timer := by
  cases outcome <;> rfl

/-! ## Operations -/

/-- The exception of a tool run: whether it is a `TimeoutError`, and its text. -/
structure ToolFailure where
  isTimeout : Bool
  text : String

/-- What the executor asks of the registry, of a tool (with the timeout to wait for it), and of
the tracer. -/
inductive ToolOp
  | get (name : String)
  | run (tool : String) (args : Args) (timeout : Option Rat)
  | record (entry : ToolTraceRecord)

/-- The registry replies with the name of the tool, or with the text of a `KeyError`. -/
@[reducible] def ToolOp.Reply : ToolOp → Type
  | .get _ => Except String String
  | .run .. => Except ToolFailure Value
  | .record _ => Unit

abbrev toolSignature : Signature := ⟨ToolOp, ToolOp.Reply⟩

/-! ## Execution -/

/-- The `call_id` of an attempt. -/
def attemptId (callId : String) (attempt : Nat) : String :=
  if attempt = 1 then callId else s!"{callId}-retry-{attempt}"

namespace ToolReliabilityPolicy

variable (policy : ToolReliabilityPolicy)

/-- `_run_with_timeout`; an exception is raised as its text. -/
def runWithTimeout (tool : String) (args : Args) : Program toolSignature String Value := do
  match policy.timeoutSec with
  | none =>
      match ← Program.perform (S := toolSignature) (.run tool args none) with
      | .ok output => pure output
      | .error failure => .fail failure.text
  | some timeout =>
      match ← Program.perform (S := toolSignature) (.run tool args (some timeout)) with
      | .ok output => pure output
      | .error failure =>
          if failure.isTimeout then
            .fail s!"Tool '{tool}' timed out after {policy.showFloat timeout}s"
          else .fail failure.text

/-- The body of an attempt. -/
def attemptTool (toolName : String) (args : Args) : Program toolSignature String Value := do
  match ← Program.perform (S := toolSignature) (.get toolName) with
  | .ok tool => policy.runWithTimeout tool args
  | .error text => .fail text

/-- One tool call: the tool, its arguments, and what is recorded beside them. -/
structure ToolInvocation where
  toolName : String
  args : Args
  callId : String
  parentId : Option String
  isFallback : Bool
  originalTool : Option String

/-- `trace_tool_call` for an attempt. -/
def timer (call : ToolInvocation) (attempt : Nat) : TraceTimer :=
  { callId := attemptId call.callId attempt
    toolName := call.toolName
    inputArgs := call.args
    parentId := call.parentId
    attempt := attempt
    maxAttempts := policy.maxAttempts
    isFallback := call.isFallback
    originalTool := call.originalTool }

/-- The loop of `_try_with_retries` over the attempts left. -/
def tryAttempts (call : ToolInvocation) :
    Option String → List Nat → Program toolSignature RaisedError ToolObservation
  | lastError, [] =>
      .done { tool := call.toolName, args := call.args, success := false, error := lastError }
  | _, attempt :: rest => do
      let outcome ← (policy.attemptTool call.toolName call.args).settle
      Program.perform (S := toolSignature) (.record ((policy.timer call attempt).exit outcome))
      match outcome with
      | .ok output => .done { tool := call.toolName, args := call.args, output := output }
      | .error text => tryAttempts call (some text) rest

def tryWithRetries (call : ToolInvocation) : Program toolSignature RaisedError ToolObservation :=
  policy.tryAttempts call none (List.range' 1 policy.maxAttempts)

/-- `_execute_with_reliability` with `is_fallback` set: there is no second fallback. -/
def executeFallback (toolName : String) (args : Args) (callId : String) (parentId : Option String)
    (requestedTool : String) : Program toolSignature RaisedError ToolObservation := do
  let observation ← policy.tryWithRetries
    { toolName, args, callId, parentId, isFallback := true, originalTool := some requestedTool }
  pure { observation with tool := requestedTool }

/-- `_execute_with_reliability` -/
def executeWithReliability (toolName : String) (args : Args) (callId : String)
    (parentId : Option String) (requestedTool : String) :
    Program toolSignature RaisedError ToolObservation := do
  let observation ← policy.tryWithRetries
    { toolName, args, callId, parentId, isFallback := false, originalTool := none }
  if observation.success then pure { observation with tool := requestedTool }
  else
    match policy.fallback? requestedTool with
    | some fallbackName =>
        policy.executeFallback fallbackName args s!"{callId}-fallback" parentId requestedTool
    | none => pure { observation with tool := requestedTool }

end ToolReliabilityPolicy

/-! ## What a trace shows -/

abbrev ToolEvent := Exchange toolSignature

/-- The tools the registry was asked for, one for each attempt. -/
def lookups (trace : List ToolEvent) : List String :=
  trace.filterMap fun event =>
    match event with
    | ⟨.get name, _⟩ => some name
    | _ => none

/-- How the attempts ended: a tool is not registered, or its run replied. -/
def outcomes (trace : List ToolEvent) : List Bool :=
  trace.filterMap fun event =>
    match event with
    | ⟨.get _, .error _⟩ => some false
    | ⟨.run _ _ _, reply⟩ => some reply.isOk
    | _ => none

/-- The records the tracer was given. -/
def recorded (trace : List ToolEvent) : List ToolTraceRecord :=
  trace.filterMap fun event =>
    match event with
    | ⟨.record entry, _⟩ => some entry
    | _ => none

@[simp] theorem lookups_append (first second : List ToolEvent) :
    lookups (first ++ second) = lookups first ++ lookups second := List.filterMap_append

@[simp] theorem outcomes_append (first second : List ToolEvent) :
    outcomes (first ++ second) = outcomes first ++ outcomes second := List.filterMap_append

@[simp] theorem recorded_append (first second : List ToolEvent) :
    recorded (first ++ second) = recorded first ++ recorded second := List.filterMap_append

/-- Every attempt of the trace left one record, in this order. -/
structure Recorded (trace : List ToolEvent) (records : List ToolTraceRecord) : Prop where
  recorded : recorded trace = records
  lookups : lookups trace = records.map fun entry => entry.toolName
  outcomes : outcomes trace = records.map ToolTraceRecord.success

theorem Recorded.append {first second : List ToolEvent} {made next : List ToolTraceRecord}
    (hfirst : Recorded first made) (hsecond : Recorded second next) :
    Recorded (first ++ second) (made ++ next) where
  recorded := by rw [recorded_append, hfirst.recorded, hsecond.recorded]
  lookups := by rw [lookups_append, hfirst.lookups, hsecond.lookups, List.map_append]
  outcomes := by rw [outcomes_append, hfirst.outcomes, hsecond.outcomes, List.map_append]

namespace ToolReliabilityPolicy

variable {policy : ToolReliabilityPolicy} {toolName tool requestedTool : String} {args : Args}
  {call : ToolInvocation} {lastError : Option String} {attempts : List Nat}
  {callId : String} {parentId : Option String} {trace : List ToolEvent}

/-- What is returned when the records are these and the error before them was `lastError`. -/
def observationOf (tool : String) (args : Args) (lastError : Option String)
    (records : List ToolTraceRecord) : ToolObservation :=
  match records.getLast? with
  | none => { tool := tool, args := args, output := .null, success := false, error := lastError }
  | some last => { tool := tool, args := args, output := last.output, success := last.success
                   error := last.error }

theorem runs_runWithTimeout {result : Except String Value}
    (h : Runs (policy.runWithTimeout tool args) trace result) :
    lookups trace = [] ∧ recorded trace = [] ∧ outcomes trace = [result.isOk] := by
  unfold runWithTimeout at h
  split at h
  next =>
    obtain ⟨reply, rest, rfl, hrest⟩ := runs_ask_iff.mp h
    cases reply with
    | ok output =>
        obtain ⟨rfl, rfl⟩ := runs_done_iff.mp hrest
        exact ⟨rfl, rfl, rfl⟩
    | error failure =>
        obtain ⟨rfl, rfl⟩ := runs_fail_iff.mp hrest
        exact ⟨rfl, rfl, rfl⟩
  next timeout _ =>
    obtain ⟨reply, rest, rfl, hrest⟩ := runs_ask_iff.mp h
    cases reply with
    | ok output =>
        obtain ⟨rfl, rfl⟩ := runs_done_iff.mp hrest
        exact ⟨rfl, rfl, rfl⟩
    | error failure =>
        change Runs (if failure.isTimeout then _ else _) rest result at hrest
        split at hrest <;>
        · obtain ⟨rfl, rfl⟩ := runs_fail_iff.mp hrest
          exact ⟨rfl, rfl, rfl⟩

/-- An attempt asks the registry once and has one outcome. -/
theorem runs_attemptTool {result : Except String Value}
    (h : Runs (policy.attemptTool toolName args) trace result) :
    lookups trace = [toolName] ∧ recorded trace = [] ∧ outcomes trace = [result.isOk] := by
  obtain ⟨reply, rest, rfl, hrest⟩ := runs_ask_iff.mp h
  cases reply with
  | ok tool =>
      obtain ⟨hlookups, hrecorded, houtcomes⟩ := runs_runWithTimeout hrest
      refine ⟨?_, hrecorded, houtcomes⟩
      exact congrArg (toolName :: ·) hlookups
  | error text =>
      obtain ⟨rfl, rfl⟩ := runs_fail_iff.mp hrest
      exact ⟨rfl, rfl, rfl⟩

@[simp] theorem observationOf_args (records : List ToolTraceRecord) :
    (observationOf tool args lastError records).args = args := by
  unfold observationOf
  split <;> rfl

/-- After a failed attempt its error is the last one. -/
theorem observationOf_cons_failed (timer : TraceTimer) (text : String)
    (records : List ToolTraceRecord) :
    observationOf tool args lastError (timer.exit (.error text) :: records) =
      observationOf tool args (some text) records := by
  cases records with
  | nil => rfl
  | cons head tail =>
      rw [observationOf, List.getLast?_cons_cons, observationOf,
        List.getLast?_eq_some_getLast (List.cons_ne_nil head tail)]

/-- An attempt with its record. -/
theorem recorded_attempt {outcome : Except String Value}
    (h : Runs (policy.attemptTool call.toolName call.args) trace outcome) (attempt : Nat)
    (reply : Unit) :
    Recorded (trace ++ [⟨.record ((policy.timer call attempt).exit outcome), reply⟩])
      [(policy.timer call attempt).exit outcome] := by
  obtain ⟨hlookups, hrecorded, houtcomes⟩ := runs_attemptTool h
  refine ⟨?_, ?_, ?_⟩
  · rw [recorded_append, hrecorded]
    rfl
  · rw [lookups_append, hlookups]
    cases outcome <;> rfl
  · rw [outcomes_append, houtcomes]
    cases outcome <;> rfl

/-- The loop tries the attempts left in order, and leaves a record of each. -/
theorem runs_tryAttempts {result : Except RaisedError ToolObservation}
    (h : Runs (policy.tryAttempts call lastError attempts) trace result) :
    ∃ records, Recorded trace records ∧
      Tries ToolTraceRecord.success ToolTraceRecord.toTraceTimer
        (attempts.map (policy.timer call)) records ∧
      result = .ok (observationOf call.toolName call.args lastError records) := by
  induction attempts generalizing lastError trace with
  | nil =>
      obtain ⟨rfl, rfl⟩ := runs_pure_iff.mp h
      exact ⟨[], ⟨rfl, rfl, rfl⟩, .exhausted, rfl⟩
  | cons attempt rest ih =>
      obtain ⟨outcome, first, second, hattempt, hafter, rfl⟩ | ⟨error, hattempt, -⟩ :=
        runs_bind_iff.mp h
      · obtain ⟨own, hown, heq⟩ := runs_settle_iff.mp hattempt
        obtain rfl := Except.ok.inj heq
        obtain ⟨reply, later, rfl, hlater⟩ := runs_ask_iff.mp hafter
        have hentry := recorded_attempt hown attempt reply
        rw [List.append_cons]
        cases outcome with
        | ok output =>
            obtain ⟨rfl, rfl⟩ := runs_done_iff.mp hlater
            refine ⟨_, by rwa [List.append_nil], ?_, rfl⟩
            exact .success ((policy.timer call attempt).exit (.ok output)) _ rfl
        | error text =>
            obtain ⟨records, hrecords, htries, rfl⟩ := ih hlater
            refine ⟨_, hentry.append hrecords, ?_, ?_⟩
            · exact .failure ((policy.timer call attempt).exit (.error text)) _ _ rfl htries
            · rw [List.singleton_append, observationOf_cons_failed]
      · obtain ⟨own, -, heq⟩ := runs_settle_iff.mp hattempt
        cases heq

/-- The attempts of a call, in order. -/
def timers (policy : ToolReliabilityPolicy) (call : ToolInvocation) : List TraceTimer :=
  (List.range' 1 policy.maxAttempts).map (policy.timer call)

/-- The call of a fallback for the requested tool. -/
def fallbackCall (fallbackName : String) (args : Args) (callId : String) (parentId : Option String)
    (requestedTool : String) : ToolInvocation :=
  { toolName := fallbackName
    args := args
    callId := s!"{callId}-fallback"
    parentId := parentId
    isFallback := true
    originalTool := some requestedTool }

/-- The attempts of the fallback, if the policy names one. -/
def fallbackTimers (policy : ToolReliabilityPolicy) (args : Args) (callId : String)
    (parentId : Option String) (requestedTool : String) : List TraceTimer :=
  match policy.fallback? requestedTool with
  | none => []
  | some fallbackName =>
      policy.timers (fallbackCall fallbackName args callId parentId requestedTool)

theorem length_timers : (policy.timers call).length = policy.maxAttempts := by
  rw [timers, List.length_map, List.length_range']

theorem length_fallbackTimers_le :
    (policy.fallbackTimers args callId parentId requestedTool).length ≤ policy.maxAttempts := by
  unfold fallbackTimers
  split
  · exact Nat.zero_le _
  · exact length_timers.le

/-! ## Call ids -/

/-- What an attempt adds to the `call_id`. -/
def retrySuffix (attempt : Nat) : List Char :=
  if attempt = 1 then [] else "-retry-".toList ++ attempt.repr.toList

theorem toList_attemptId (callId : String) (attempt : Nat) :
    (attemptId callId attempt).toList = callId.toList ++ retrySuffix attempt := by
  unfold attemptId retrySuffix
  split
  · rw [List.append_nil]
  · simp only [String.toList_append, List.append_assoc]
    rfl

theorem attemptId_injective (callId : String) {a b : Nat}
    (h : attemptId callId a = attemptId callId b) : a = b := by
  have hlist := congrArg String.toList h
  rw [toList_attemptId, toList_attemptId] at hlist
  have hsuffix := List.append_cancel_left hlist
  unfold retrySuffix at hsuffix
  split at hsuffix <;> split at hsuffix
  next ha hb => rw [ha, hb]
  next => simp at hsuffix
  next => simp at hsuffix
  next => exact repr_nat_injective (String.toList_inj.mp (List.append_cancel_left hsuffix))

theorem retrySuffix_ne (a b : Nat) : retrySuffix a ≠ "-fallback".toList ++ retrySuffix b := by
  have hretry : "-retry-".toList = '-' :: 'r' :: "etry-".toList := by decide
  have hfallback : "-fallback".toList = '-' :: 'f' :: "allback".toList := by decide
  unfold retrySuffix
  rw [hfallback]
  split
  · exact List.cons_ne_nil _ _ |>.symm
  · rw [hretry]
    intro h
    have hsecond : 'r' = 'f' := (List.cons.inj (List.cons.inj h).2).1
    exact absurd hsecond (by decide)

theorem toList_fallbackId (callId : String) :
    (s!"{callId}-fallback").toList = callId.toList ++ "-fallback".toList := String.toList_append

/-- No attempt of the fallback has the id of one of the tool. -/
theorem attemptId_ne_fallback (callId : String) (a b : Nat) :
    attemptId callId a ≠ attemptId s!"{callId}-fallback" b := by
  intro h
  have hlist := congrArg String.toList h
  rw [toList_attemptId, toList_attemptId, toList_fallbackId, List.append_assoc] at hlist
  exact retrySuffix_ne a b (List.append_cancel_left hlist)

theorem nodup_callId_timers : ((policy.timers call).map TraceTimer.callId).Nodup := by
  rw [timers, List.map_map]
  exact List.Nodup.map (fun a b h => attemptId_injective call.callId h) List.nodup_range'

theorem nodup_callId_planned (hcall : call.callId = callId) :
    ((policy.timers call ++ policy.fallbackTimers args callId parentId requestedTool).map
      TraceTimer.callId).Nodup := by
  rw [List.map_append]
  refine List.Nodup.append nodup_callId_timers ?_ ?_
  · unfold fallbackTimers
    split
    · exact List.nodup_nil
    · exact nodup_callId_timers
  · intro own hfirst hsecond
    obtain ⟨timer, htimer, rfl⟩ := List.mem_map.mp hfirst
    obtain ⟨a, -, rfl⟩ := List.mem_map.mp htimer
    obtain ⟨other, hother, hsame⟩ := List.mem_map.mp hsecond
    unfold fallbackTimers at hother
    split at hother
    · cases hother
    · obtain ⟨b, -, rfl⟩ := List.mem_map.mp hother
      change attemptId s!"{callId}-fallback" b = attemptId call.callId a at hsame
      rw [hcall] at hsame
      exact attemptId_ne_fallback callId a b hsame.symm

/-! ## The whole execution -/

/-- What a reliable execution promises of its trace and of the observation it returns. The
attempts are those of the tool and, only after all of them failed, those of its fallback; each
left one record, in this order and with an id of its own, and none but the last succeeded. -/
structure Reliable (policy : ToolReliabilityPolicy) (toolName : String) (args : Args)
    (callId : String) (parentId : Option String) (requestedTool : String)
    (trace : List ToolEvent) (observation : ToolObservation) : Prop where
  attempts : ∃ primary fallback, recorded trace = primary ++ fallback ∧
    Tries ToolTraceRecord.success ToolTraceRecord.toTraceTimer
      (policy.timers ⟨toolName, args, callId, parentId, false, none⟩) primary ∧
    primary.length ≤ policy.maxAttempts ∧ fallback.length ≤ policy.maxAttempts ∧
    ((∃ entry ∈ primary, entry.success = true) ∧ fallback = [] ∨
      (∀ entry ∈ primary, entry.success = false) ∧
        Tries ToolTraceRecord.success ToolTraceRecord.toTraceTimer
          (policy.fallbackTimers args callId parentId requestedTool) fallback)
  lookups : lookups trace = (recorded trace).map fun entry => entry.toolName
  outcomes : outcomes trace = (recorded trace).map ToolTraceRecord.success
  distinct : ((recorded trace).map fun entry => entry.callId).Nodup
  onlyLast : ∀ entry ∈ (recorded trace).dropLast, entry.success = false
  success : observation.success = true ↔ true ∈ TripGraph.outcomes trace
  tool : observation.tool = requestedTool
  args : observation.args = args

theorem observationOf_success (records : List ToolTraceRecord) :
    (observationOf tool args lastError records).success = true ↔
      ∃ last, records.getLast? = some last ∧ last.success = true := by
  unfold observationOf
  cases records.getLast? with
  | none => simp
  | some last => simp

/-- The last record is a success exactly if there is any. -/
theorem success_observationOf_iff {planned : List TraceTimer} {records : List ToolTraceRecord}
    (h : Tries ToolTraceRecord.success ToolTraceRecord.toTraceTimer planned records)
    (tool : String) (args : Args) (lastError : Option String) :
    (observationOf tool args lastError records).success = true ↔
      ∃ entry ∈ records, entry.success = true := by
  rw [observationOf_success]
  constructor
  · rintro ⟨last, hlast, hsuccess⟩
    exact ⟨last, List.mem_of_getLast? hlast, hsuccess⟩
  · rintro ⟨entry, hentry, hsuccess⟩
    rcases h.fails_or_succeeds with hall | ⟨front, last, rfl, hlast, -⟩
    · cases (hall entry hentry).symm.trans hsuccess
    · exact ⟨last, List.getLast?_concat, hlast⟩

theorem runs_tryWithRetries {result : Except RaisedError ToolObservation}
    (h : Runs (policy.tryWithRetries call) trace result) :
    ∃ records, Recorded trace records ∧
      Tries ToolTraceRecord.success ToolTraceRecord.toTraceTimer (policy.timers call) records ∧
      result = .ok (observationOf call.toolName call.args none records) := runs_tryAttempts h

/-- With one record for each attempt, the promise is kept when the attempts are tried in order. -/
theorem reliable_of_tries {primary fallback : List ToolTraceRecord} {observation : ToolObservation}
    (hrecorded : Recorded trace (primary ++ fallback))
    (hprimary : Tries ToolTraceRecord.success ToolTraceRecord.toTraceTimer
      (policy.timers ⟨toolName, args, callId, parentId, false, none⟩) primary)
    (hcases : (∃ entry ∈ primary, entry.success = true) ∧ fallback = [] ∨
      (∀ entry ∈ primary, entry.success = false) ∧
        Tries ToolTraceRecord.success ToolTraceRecord.toTraceTimer
          (policy.fallbackTimers args callId parentId requestedTool) fallback)
    (hsuccess : observation.success = true ↔ ∃ entry ∈ primary ++ fallback, entry.success = true)
    (htool : observation.tool = requestedTool) (hargs : observation.args = args) :
    Reliable policy toolName args callId parentId requestedTool trace observation := by
  have hlength := hprimary.length_le
  rw [length_timers] at hlength
  have hfallback : fallback.length ≤ policy.maxAttempts := by
    rcases hcases with ⟨-, rfl⟩ | ⟨-, hnext⟩
    · exact Nat.zero_le _
    · exact hnext.length_le.trans length_fallbackTimers_le
  have hall : Tries ToolTraceRecord.success ToolTraceRecord.toTraceTimer
      (policy.timers ⟨toolName, args, callId, parentId, false, none⟩ ++
        policy.fallbackTimers args callId parentId requestedTool) (primary ++ fallback) := by
    rcases hcases with ⟨⟨entry, hentry, hown⟩, rfl⟩ | ⟨hfails, hnext⟩
    · rw [List.append_nil]
      exact hprimary.append_of_success hentry hown _
    · exact hprimary.append_of_fails hfails hnext
  constructor
  · exact ⟨primary, fallback, hrecorded.recorded, hprimary, hlength, hfallback, hcases⟩
  · rw [hrecorded.lookups, hrecorded.recorded]
  · rw [hrecorded.outcomes, hrecorded.recorded]
  · rw [hrecorded.recorded]
    have hids := (hall.isPrefix.map TraceTimer.callId).sublist.nodup (nodup_callId_planned rfl)
    rwa [List.map_map] at hids
  · rw [hrecorded.recorded]
    exact hall.eq_false_of_mem_dropLast
  · rw [hsuccess, hrecorded.outcomes, List.mem_map]
  · exact htool
  · exact hargs

theorem runs_executeFallback {result : Except RaisedError ToolObservation}
    (h : Runs (policy.executeFallback toolName args s!"{callId}-fallback" parentId requestedTool)
      trace result) :
    ∃ records, Recorded trace records ∧
      Tries ToolTraceRecord.success ToolTraceRecord.toTraceTimer
        (policy.timers (fallbackCall toolName args callId parentId requestedTool)) records ∧
      result = .ok { observationOf toolName args none records with tool := requestedTool } := by
  obtain ⟨observation, first, second, htried, hreturn, rfl⟩ | ⟨error, htried, -⟩ :=
    runs_bind_iff.mp h
  · obtain ⟨records, hrecorded, htries, heq⟩ := runs_tryWithRetries htried
    obtain rfl := Except.ok.inj heq
    obtain ⟨rfl, rfl⟩ := runs_pure_iff.mp hreturn
    exact ⟨records, by rwa [List.append_nil], htries, rfl⟩
  · obtain ⟨records, -, -, heq⟩ := runs_tryWithRetries htried
    cases heq

theorem parentId_of_tries {records : List ToolTraceRecord}
    (h : Tries ToolTraceRecord.success ToolTraceRecord.toTraceTimer (policy.timers call) records) :
    ∀ entry ∈ records, entry.parentId = call.parentId := by
  intro entry hentry
  obtain ⟨attempt, -, htimer⟩ :=
    List.mem_map.mp (h.isPrefix.subset (List.mem_map_of_mem hentry))
  rw [← htimer]
  rfl

/-- An execution returns an observation, and all that it records is under the given parent. -/
theorem parentId_executeWithReliability {result : Except RaisedError ToolObservation}
    (h : Runs (policy.executeWithReliability toolName args callId parentId requestedTool) trace
      result) :
    (∃ observation, result = .ok observation) ∧
      ∀ entry ∈ recorded trace, entry.parentId = parentId := by
  obtain ⟨observation, first, second, hprimary, hafter, rfl⟩ | ⟨error, hprimary, -⟩ :=
    runs_bind_iff.mp h
  · obtain ⟨primary, hrecorded, htries, -⟩ := runs_tryWithRetries hprimary
    have hparent := parentId_of_tries htries
    rw [recorded_append, hrecorded.recorded]
    split at hafter
    · obtain ⟨rfl, rfl⟩ := runs_pure_iff.mp hafter
      exact ⟨⟨_, rfl⟩, by simpa [recorded] using hparent⟩
    split at hafter
    next fallbackName _ =>
      obtain ⟨fallback, hfallback, hnext, rfl⟩ := runs_executeFallback hafter
      rw [hfallback.recorded]
      exact ⟨⟨_, rfl⟩, List.forall_mem_append.mpr ⟨hparent, parentId_of_tries hnext⟩⟩
    next =>
      obtain ⟨rfl, rfl⟩ := runs_pure_iff.mp hafter
      exact ⟨⟨_, rfl⟩, by simpa [recorded] using hparent⟩
  · obtain ⟨records, -, -, heq⟩ := runs_tryWithRetries hprimary
    cases heq

/-- For every schedule of outcomes, the execution returns an observation and is reliable. -/
theorem executeWithReliability_reliable {result : Except RaisedError ToolObservation}
    (h : Runs (policy.executeWithReliability toolName args callId parentId requestedTool) trace
      result) :
    ∃ observation, result = .ok observation ∧
      Reliable policy toolName args callId parentId requestedTool trace observation := by
  obtain ⟨observation, first, second, hprimary, hafter, rfl⟩ | ⟨error, hprimary, -⟩ :=
    runs_bind_iff.mp h
  · obtain ⟨primary, hrecorded, htries, heq⟩ := runs_tryWithRetries hprimary
    obtain rfl := Except.ok.inj heq
    have hsuccess := success_observationOf_iff htries toolName args none
    have hrecords : Recorded (first ++ []) (primary ++ []) := by
      rwa [List.append_nil, List.append_nil]
    split at hafter
    next hsucceeds =>
      obtain ⟨rfl, rfl⟩ := runs_pure_iff.mp hafter
      refine ⟨_, rfl, reliable_of_tries hrecords htries (Or.inl ⟨?_, rfl⟩) ?_ rfl ?_⟩
      · exact hsuccess.mp hsucceeds
      · rw [List.append_nil]
        exact hsuccess
      · exact observationOf_args primary
    next hfailed =>
      have hfails : ∀ entry ∈ primary, entry.success = false := by
        intro entry hentry
        exact Bool.eq_false_iff.mpr fun hown => hfailed (hsuccess.mpr ⟨entry, hentry, hown⟩)
      split at hafter
      next fallbackName hname =>
        obtain ⟨fallback, hrecordedFallback, hnext, rfl⟩ := runs_executeFallback hafter
        have hplanned : Tries ToolTraceRecord.success ToolTraceRecord.toTraceTimer
            (policy.fallbackTimers args callId parentId requestedTool) fallback := by
          rw [fallbackTimers, hname]
          exact hnext
        refine ⟨_, rfl, reliable_of_tries (hrecorded.append hrecordedFallback) htries
          (Or.inr ⟨hfails, hplanned⟩) ?_ rfl (observationOf_args fallback)⟩
        refine (success_observationOf_iff hnext fallbackName args none).trans ⟨?_, ?_⟩
        · rintro ⟨entry, hentry, hown⟩
          exact ⟨entry, List.mem_append_right primary hentry, hown⟩
        · rintro ⟨entry, hentry, hown⟩
          rcases List.mem_append.mp hentry with hentry | hentry
          · cases (hfails entry hentry).symm.trans hown
          · exact ⟨entry, hentry, hown⟩
      next hnone =>
        obtain ⟨rfl, rfl⟩ := runs_pure_iff.mp hafter
        have hplanned : Tries ToolTraceRecord.success ToolTraceRecord.toTraceTimer
            (policy.fallbackTimers args callId parentId requestedTool) [] := by
          rw [fallbackTimers, hnone]
          exact .exhausted
        refine ⟨_, rfl, reliable_of_tries hrecords htries (Or.inr ⟨hfails, hplanned⟩) ?_ rfl ?_⟩
        · rw [List.append_nil]
          exact hsuccess
        · exact observationOf_args primary
  · obtain ⟨records, -, -, heq⟩ := runs_tryWithRetries hprimary
    cases heq

/-- One retry, and `weather` in the place of `flaky`. -/
def flakyPolicy : ToolReliabilityPolicy where
  maxRetries := 1
  timeoutSec := none
  timeout_pos := by simp
  fallbackTools := .ofList [("flaky", "weather")]
  showFloat := fun _ => ""

/-- Every tool is registered; `flaky` fails and the others succeed. -/
def flakyTools : Handler toolSignature Unit where
  answer
    | .get name, _ => (.ok name, ())
    | .run tool _ _, _ => (if tool = "flaky" then .error ⟨false, "transient"⟩ else .ok .null, ())
    | .record _, _ => ((), ())

example : outcomes
    ((flakyPolicy.executeWithReliability "flaky" [] "c" none "flaky").exec flakyTools ()).trace =
      [false, false, true] := by decide

theorem executeWithReliability_reliable_flaky :
    ∃ observation,
      ((flakyPolicy.executeWithReliability "flaky" [] "c" none "flaky").exec flakyTools ()).result =
        .ok observation ∧
      Reliable flakyPolicy "flaky" [] "c" none "flaky"
        ((flakyPolicy.executeWithReliability "flaky" [] "c" none "flaky").exec flakyTools ()).trace
        observation :=
  executeWithReliability_reliable (Program.runs_exec flakyTools _ ())

end ToolReliabilityPolicy

end TripGraph
