import TripGraph.Plan.Compression
import TripGraph.Runtime.Restore

/-! # Summaries without a language model

`RuleBasedContextSummarizer` derives key facts from the outputs and the remaining context. It
is shown neither its last summary nor what that was derived from.
-/

namespace TripGraph

open Interaction

/-- How the host language shows a value: `str(value)` and `json.dumps(value)`. -/
structure Rendering where
  str : Value → String
  dumps : Value → String

/-! ## The summarizer -/

namespace RuleBasedContextSummarizer

variable (rendering : Rendering)

def showKey : Key → String
  | .int value => toString value
  | .str value => value

/-- The fact of a tool: the first four entries of a dictionary, any other value as it is. -/
def toolFact (tool : String) : Value → String
  | .dict items =>
      let summary := ", ".intercalate ((items.take 4).map fun item =>
        s!"{showKey item.1}={rendering.str item.2}")
      s!"{tool}: {summary}"
  | output => s!"{tool}: {rendering.str output}"

/-- The fact of a step, if its output is a dictionary. -/
def stepFact (stepId : Int) : Value → Option String
  | .dict items =>
      let snippet := String.ofList ((rendering.dumps (.dict items)).toList.take 120)
      some s!"step {stepId}: {snippet}"
  | _ => none

def miscFact (key : String) (value : Value) : String := s!"{key}: {rendering.str value}"

def addStepFacts : List (Int × Value) → List String → List String
  | [], facts => facts
  | (stepId, output) :: rest, facts =>
      match stepFact rendering stepId output with
      | some fact => addStepFacts rest (if facts.length < 12 then facts ++ [fact] else facts)
      | none => addStepFacts rest facts

def addMiscFacts : List (String × Value) → List String → List String
  | [], facts => facts
  | (key, value) :: rest, facts =>
      if 12 ≤ facts.length then facts
      else addMiscFacts rest (facts ++ [miscFact rendering key value])

/-- The facts of a payload, which has gone through JSON. -/
def facts (payload : CompressionPayload) : List String :=
  let toolFacts := payload.toolOutputs.entries.map fun entry =>
    toolFact rendering entry.1 entry.2.viaJson
  let stepOutputs := payload.stepOutputs.entries.map fun entry => (entry.1, entry.2.viaJson)
  addMiscFacts rendering (payload.misc.map fun entry => (entry.1, entry.2.viaJson))
    (addStepFacts rendering stepOutputs toolFacts)

def complete (payload : CompressionPayload) : ContextCompressionResult :=
  let counts := s!"Goal: {payload.goal}. Compressed {payload.stepOutputs.entries.length} " ++
    s!"step output(s) and {payload.toolOutputs.entries.length} tool output(s)."
  let keys := ", ".intercalate ((payload.misc.map Prod.fst).insertionSort (· ≤ ·))
  { compressedContext :=
      if payload.misc = [] then counts
      else counts ++ s!" Retained misc keys: {keys}."
    keyFacts :=
      if facts rendering payload = [] then ["No structured outputs to summarize"]
      else facts rendering payload }

/-! ## Facts while there is room -/

theorem length_le_addStepFacts (entries : List (Int × Value)) (facts : List String) :
    facts.length ≤ (addStepFacts rendering entries facts).length := by
  induction entries generalizing facts with
  | nil => exact le_refl _
  | cons entry rest ih =>
      obtain ⟨stepId, output⟩ := entry
      rw [addStepFacts]
      split
      · apply le_trans _ (ih _)
        split
        · rw [List.length_append]
          exact Nat.le_add_right _ _
        · exact le_refl _
      · exact ih facts

theorem addStepFacts_eq {entries : List (Int × Value)} {facts : List String}
    (hroom : (addStepFacts rendering entries facts).length < 12) :
    addStepFacts rendering entries facts =
      facts ++ entries.filterMap fun entry => stepFact rendering entry.1 entry.2 := by
  induction entries generalizing facts with
  | nil => exact (List.append_nil facts).symm
  | cons entry rest ih =>
      obtain ⟨stepId, output⟩ := entry
      rw [addStepFacts] at hroom ⊢
      cases hfact : stepFact rendering stepId output with
      | none =>
          simp only [hfact, List.filterMap_cons] at hroom ⊢
          exact ih hroom
      | some fact =>
          simp only [hfact, List.filterMap_cons] at hroom ⊢
          -- a full list would have stayed full
          have hlt : facts.length < 12 := by
            by_contra hfull
            rw [if_neg hfull] at hroom
            exact hfull (lt_of_le_of_lt (length_le_addStepFacts rendering rest facts) hroom)
          rw [if_pos hlt] at hroom ⊢
          rw [ih hroom, List.append_assoc, List.singleton_append]

theorem addMiscFacts_eq {entries : List (String × Value)} {facts : List String}
    (hroom : (addMiscFacts rendering entries facts).length < 12) :
    addMiscFacts rendering entries facts =
      facts ++ entries.map fun entry => miscFact rendering entry.1 entry.2 := by
  induction entries generalizing facts with
  | nil => exact (List.append_nil facts).symm
  | cons entry rest ih =>
      obtain ⟨key, value⟩ := entry
      rw [addMiscFacts] at hroom ⊢
      split at hroom
      next hfull => exact absurd hroom (not_lt.mpr hfull)
      next hlt =>
        rw [if_neg hlt, ih hroom, List.map_cons, List.append_assoc, List.singleton_append]

theorem length_le_addMiscFacts (entries : List (String × Value)) (facts : List String) :
    facts.length ≤ (addMiscFacts rendering entries facts).length := by
  induction entries generalizing facts with
  | nil => exact le_refl _
  | cons entry rest ih =>
      obtain ⟨key, value⟩ := entry
      rw [addMiscFacts]
      split
      · exact le_refl _
      · apply le_trans _ (ih _)
        rw [List.length_append]
        exact Nat.le_add_right _ _

/-- A text is a fact of a tool output, of a step output, or of another key. -/
inductive FactOf (payload : CompressionPayload) (fact : String) : Prop
  | tool (tool : String) (output : Value) (hmem : (tool, output) ∈ payload.toolOutputs.entries)
      (hfact : toolFact rendering tool output.viaJson = fact)
  | step (stepId : Int) (output : Value) (hmem : (stepId, output) ∈ payload.stepOutputs.entries)
      (hfact : stepFact rendering stepId output.viaJson = some fact)
  | misc (key : String) (value : Value) (hmem : (key, value) ∈ payload.misc)
      (hfact : miscFact rendering key value.viaJson = fact)

/-- While there is room every entry has its fact. -/
theorem mem_facts_iff {payload : CompressionPayload} (hroom : (facts rendering payload).length < 12)
    (fact : String) : fact ∈ facts rendering payload ↔ FactOf rendering payload fact := by
  unfold facts at hroom ⊢
  have hsteps := lt_of_le_of_lt (length_le_addMiscFacts rendering _ _) hroom
  rw [addMiscFacts_eq rendering hroom, addStepFacts_eq rendering hsteps, List.mem_append,
    List.mem_append]
  constructor
  · rintro ((htool | hstep) | hmisc)
    · obtain ⟨entry, hmem, hfact⟩ := List.mem_map.mp htool
      exact .tool entry.1 entry.2 hmem hfact
    · obtain ⟨_, hdecoded, hfact⟩ := List.mem_filterMap.mp hstep
      obtain ⟨entry, hmem, rfl⟩ := List.mem_map.mp hdecoded
      exact .step entry.1 entry.2 hmem hfact
    · obtain ⟨_, hdecoded, hfact⟩ := List.mem_map.mp hmisc
      obtain ⟨entry, hmem, rfl⟩ := List.mem_map.mp hdecoded
      exact .misc entry.1 entry.2 hmem hfact
  · intro h
    cases h with
    | tool tool output hmem hfact =>
        exact Or.inl (Or.inl (List.mem_map.mpr ⟨(tool, output), hmem, hfact⟩))
    | step stepId output hmem hfact =>
        exact Or.inl (Or.inr (List.mem_filterMap.mpr
          ⟨_, List.mem_map_of_mem hmem, hfact⟩))
    | misc key value hmem hfact =>
        exact Or.inr (List.mem_map.mpr ⟨_, List.mem_map_of_mem hmem, hfact⟩)

theorem miscFact_inj {key : String} {value other : Value} :
    miscFact rendering key value = miscFact rendering key other ↔
      rendering.str value = rendering.str other := by
  constructor
  · intro h
    exact String.append_right_inj _ |>.mp h
  · intro h
    rw [miscFact, h]
    rfl

/-- The text that stands for no facts is not the fact of a key. -/
theorem miscFact_ne_placeholder (key : String) (value : Value) :
    miscFact rendering key value ≠ "No structured outputs to summarize" := by
  intro h
  have hcolon : ':' ∈ (miscFact rendering key value).toList := by
    rw [miscFact, String.toList_append, String.toList_append, List.mem_append, List.mem_append]
    exact Or.inl (Or.inr (by decide))
  rw [h] at hcolon
  exact absurd hcolon (by decide)

end RuleBasedContextSummarizer

/-! ## Updates and compressions -/

/-- A key of the context that nothing but its caller writes. -/
@[ext] structure FreeKey where
  name : String
  free : name ∉ ["step_outputs", "tool_outputs", "tool_policy_decisions", "tool_args",
    "compressed_context", "key_facts", "_compression_meta"]
deriving DecidableEq

/-- A key that belongs to the rest of the context: the one of the policy decisions or a free one. -/
inductive MiscKey
  | free (key : FreeKey)
  | decisions
deriving DecidableEq

namespace MiscKey

def name : MiscKey → String
  | .free key => key.name
  | .decisions => "tool_policy_decisions"

/-- The value under the key. -/
def valueIn (context : GlobalContext) : MiscKey → Option Value
  | .free key => context.misc.get? key.name
  | .decisions => context.toolPolicyDecisions.map fun stored => dumpDecisions stored.decisions

end MiscKey

/-- `context.pop(key, None)`. -/
def GlobalContext.remove (context : GlobalContext) : MiscKey → GlobalContext
  | .free key =>
      { context with
        misc := context.misc.erase key.name
        toolPolicyDecisions := context.toolPolicyDecisions.map fun stored =>
          { stored with before := stored.before.filter fun name => decide (name ≠ key.name) } }
  | .decisions => { context with toolPolicyDecisions := none }

/-- What happens to a context: a free key or the policy decisions are written, a key is removed,
anything else is changed, or the context is compressed. -/
inductive ContextOp
  | set (key : FreeKey) (value : Value)
  | setDecisions (decisions : Dict String ToolPolicyDecision)
  | remove (key : MiscKey)
  | change (update : GlobalContext → GlobalContext)
      (hmisc : ∀ context, (update context).misc = context.misc ∧
        (update context).toolPolicyDecisions = context.toolPolicyDecisions)
  | compress

namespace ContextOp

open RuleBasedContextSummarizer

variable {rendering : Rendering} {config : ExecutorConfig}

def apply (rendering : Rendering) (config : ExecutorConfig) (state : PlanState) :
    ContextOp → PlanState
  | .set key value =>
      { state with globalContext := { state.globalContext with
          misc := state.globalContext.misc.set key.name value } }
  | .setDecisions decisions =>
      { state with globalContext := state.globalContext.setPolicyDecisions decisions }
  | .remove key => { state with globalContext := state.globalContext.remove key }
  | .change update _ => { state with globalContext := update state.globalContext }
  | .compress => ContextCompressor.compressed config state
      (complete rendering (ContextCompressor.extractCompressible state))

/-- The state after these operations. -/
def run (rendering : Rendering) (config : ExecutorConfig) (state : PlanState)
    (ops : List ContextOp) : PlanState := ops.foldl (apply rendering config) state

/-- A compression of the executor, when the summarizer is the rule-based one. -/
theorem runs_compress_apply (state : PlanState) :
    Runs (ContextCompressor.compress config state)
      [⟨.summarize (ContextCompressor.extractCompressible state),
        .ok (complete rendering (ContextCompressor.extractCompressible state))⟩]
      (.ok (apply rendering config state .compress)) :=
  ContextCompressor.runs_compress config state _

/-- The value a key was last set to, unless it was removed or compressed since. -/
def written (key : MiscKey) (own : Option Value) : ContextOp → Option Value
  | .set other value => if key = .free other then some value else own
  | .setDecisions decisions =>
      if key = .decisions then some (dumpDecisions decisions) else own
  | .remove other => if key = other then none else own
  | .change _ _ => own
  | .compress => none

def keyFacts (state : PlanState) : List String := state.globalContext.keyFacts.getD []

/-- The summarizer is shown this key. -/
def Summarized (key : MiscKey) : Prop :=
  key.name ∉ ContextCompressor.preservedKeys ∧ "_".toList.isPrefixOf key.name.toList = false

/-- A compression leaves only preserved keys. -/
theorem valueIn_apply {key : MiscKey} (hkey : key.name ∉ ContextCompressor.preservedKeys)
    (state : PlanState) (op : ContextOp) :
    key.valueIn (apply rendering config state op).globalContext =
      written key (key.valueIn state.globalContext) op := by
  cases op with
  | set other value =>
      cases key with
      | free key =>
          rw [written, MiscKey.valueIn, apply, Dict.get?_set]
          apply if_congr _ rfl rfl
          rw [MiscKey.free.injEq, FreeKey.ext_iff]
      | decisions => rfl
  | setDecisions decisions => cases key <;> rfl
  | remove other =>
      cases key with
      | free key =>
          cases other with
          | free other =>
              change (state.globalContext.misc.erase other.name).get? key.name = _
              rw [written, Dict.get?_erase]
              apply if_congr _ rfl rfl
              rw [MiscKey.free.injEq, FreeKey.ext_iff]
          | decisions => rfl
      | decisions =>
          cases other with
          | free other =>
              -- only the place of the decisions changes
              change (state.globalContext.toolPolicyDecisions.map _).map _ = _
              rw [Option.map_map]
              rfl
          | decisions => rfl
  | change update hmisc =>
      obtain ⟨hfree, hdecisions⟩ := hmisc state.globalContext
      cases key with
      | free key =>
          change (update state.globalContext).misc.get? key.name = _
          rw [hfree]
          rfl
      | decisions =>
          change (update state.globalContext).toolPolicyDecisions.map _ = _
          rw [hdecisions]
          rfl
  | compress =>
      cases key with
      | free key =>
          change (state.globalContext.misc.filterKeys _).get? key.name = none
          rw [Dict.get?_filterKeys, if_neg (by simpa [MiscKey.name] using hkey)]
      | decisions => rfl

/-- Of a key that is not preserved, the context holds what was written since the last
compression. -/
theorem valueIn_run {key : MiscKey} (hkey : key.name ∉ ContextCompressor.preservedKeys)
    (state : PlanState) (ops : List ContextOp) :
    key.valueIn (run rendering config state ops).globalContext =
      ops.foldl (written key) (key.valueIn state.globalContext) := by
  induction ops generalizing state with
  | nil => rfl
  | cons op rest ih =>
      rw [List.foldl_cons, ← valueIn_apply hkey state op, ← ih]
      rfl

/-- The free keys leave the key of the policy decisions alone. -/
def Apart (context : GlobalContext) : Prop := context.misc.get? "tool_policy_decisions" = none

theorem Apart.apply {state : PlanState} (h : Apart state.globalContext) (op : ContextOp) :
    Apart (apply rendering config state op).globalContext := by
  cases op with
  | set other value =>
      have hne : "tool_policy_decisions" ≠ other.name := by
        intro heq
        exact other.free (by simp [← heq])
      exact (Dict.get?_set_ne _ hne _).trans h
  | setDecisions decisions => exact h
  | remove other =>
      cases other with
      | free other =>
          change (state.globalContext.misc.erase other.name).get? _ = none
          rw [Dict.get?_erase, h, ite_self]
      | decisions => exact h
  | change update hmisc => exact (congrArg (Dict.get? · _) (hmisc state.globalContext).1).trans h
  | compress =>
      change (state.globalContext.misc.filterKeys _).get? _ = none
      rw [Dict.get?_filterKeys, h, ite_self]

theorem Apart.run {state : PlanState} (h : Apart state.globalContext) (ops : List ContextOp) :
    Apart (run rendering config state ops).globalContext := by
  induction ops generalizing state with
  | nil => exact h
  | cons op rest ih => exact ih (h.apply op)

theorem apart_compress (state : PlanState) :
    Apart (apply rendering config state .compress).globalContext := by
  change (state.globalContext.misc.filterKeys _).get? _ = none
  rw [Dict.get?_filterKeys, if_neg (by decide)]

/-- The key facts a compression leaves. -/
theorem mem_keyFacts_compress_iff {state : PlanState} {key : String} {value : Value}
    (hroom : (keyFacts (apply rendering config state .compress)).length < 12) :
    miscFact rendering key value ∈ keyFacts (apply rendering config state .compress) ↔
      FactOf rendering (ContextCompressor.extractCompressible state)
        (miscFact rendering key value) := by
  have hfacts : keyFacts (apply rendering config state .compress) =
      if facts rendering (ContextCompressor.extractCompressible state) = []
      then ["No structured outputs to summarize"]
      else facts rendering (ContextCompressor.extractCompressible state) := rfl
  rw [hfacts] at hroom ⊢
  split
  next hnone =>
    have hempty : (facts rendering (ContextCompressor.extractCompressible state)).length < 12 := by
      rw [hnone]
      decide
    rw [← mem_facts_iff rendering hempty, hnone]
    apply iff_of_false
    · intro hmem
      exact miscFact_ne_placeholder rendering key value (List.mem_singleton.mp hmem)
    · exact List.not_mem_nil
  next hsome =>
    rw [if_neg hsome] at hroom
    exact mem_facts_iff rendering hroom _

/-- Something else in the context has the same fact as this key. -/
inductive Elsewhere (rendering : Rendering) (state : PlanState) (key : MiscKey)
    (fact : String) : Prop
  | tool (tool : String) (output : Value)
      (hmem : (state.globalContext.toolOutputs.getD .empty).get? tool = some output)
      (hfact : toolFact rendering tool output.viaJson = fact)
  | step (stepId : Int) (output : Value)
      (hmem : (state.globalContext.stepOutputs.getD .empty).get? stepId = some output)
      (hfact : stepFact rendering stepId output.viaJson = some fact)
  | misc (other : String) (value : Value) (hne : other ≠ key.name)
      (hmem : (other, value) ∈ (ContextCompressor.extractCompressible state).misc)
      (hfact : miscFact rendering other value.viaJson = fact)

/-- The entries of a context are those of its free keys and its policy decisions. -/
theorem mem_items_iff {context : GlobalContext} (h : Apart context) (key : MiscKey) (own : Value) :
    (key.name, own) ∈ context.items ↔ key.valueIn context = some own := by
  have hentry : ∀ (name : String) (keep : String → Bool),
      (name, own) ∈ (context.misc.entries.filter fun entry => keep entry.1) ↔
        context.misc.get? name = some own ∧ keep name = true := by
    intro name keep
    rw [List.mem_filter, Dict.mem_entries_iff]
  unfold GlobalContext.items
  cases hstored : context.toolPolicyDecisions with
  | none =>
      cases key with
      | free key => exact Dict.mem_entries_iff
      | decisions =>
          refine iff_of_false ?_ ?_
          · intro hmem
            cases (Dict.mem_entries_iff.mp hmem).symm.trans h
          · rw [MiscKey.valueIn, hstored]
            exact Option.some_ne_none own ∘ Eq.symm
  | some stored =>
      dsimp only
      rw [List.mem_append, List.mem_cons, hentry _ fun name => decide (name ∈ stored.before),
        hentry _ fun name => decide (name ∉ stored.before)]
      cases key with
      | free key =>
          have hne : key.name ≠ "tool_policy_decisions" := by
            intro heq
            exact key.free (by simp [heq])
          simp only [MiscKey.name, MiscKey.valueIn, Prod.mk.injEq, hne, false_and, false_or,
            ← and_or_left]
          exact and_iff_left ((em _).imp decide_eq_true decide_eq_true)
      | decisions =>
          have hnone : context.misc.get? "tool_policy_decisions" ≠ some own := by
            rw [h]
            exact (Option.some_ne_none own).symm
          simp only [MiscKey.name, MiscKey.valueIn, hstored, hnone, false_and, false_or, or_false,
            Prod.mk.injEq, true_and, Option.map_some, Option.some.injEq]
          exact eq_comm

/-- The summarizer is shown the entry of the key. -/
theorem mem_misc_iff {state : PlanState} (h : Apart state.globalContext) {key : MiscKey}
    (hkey : Summarized key) (own : Value) :
    (key.name, own) ∈ (ContextCompressor.extractCompressible state).misc ↔
      key.valueIn state.globalContext = some own := by
  rw [ContextCompressor.extractCompressible, List.mem_filter, mem_items_iff h, hkey.2]
  exact and_iff_left (by simpa using hkey.1)

/-- A key that the summarizer is shown has its own entry, or something else has its fact. -/
theorem factOf_iff {state : PlanState} (h : Apart state.globalContext) {key : MiscKey}
    (hkey : Summarized key) (value : Value) :
    FactOf rendering (ContextCompressor.extractCompressible state)
        (miscFact rendering key.name value.viaJson) ↔
      (∃ own, key.valueIn state.globalContext = some own ∧
        rendering.str own.viaJson = rendering.str value.viaJson) ∨
      Elsewhere rendering state key (miscFact rendering key.name value.viaJson) := by
  have hmisc := mem_misc_iff h hkey
  constructor
  · intro h
    cases h with
    | tool tool output hmem hfact =>
        exact Or.inr (.tool tool output (Dict.mem_entries_iff.mp hmem) hfact)
    | step stepId output hmem hfact =>
        exact Or.inr (.step stepId output (Dict.mem_entries_iff.mp hmem) hfact)
    | misc other own hmem hfact =>
        by_cases heq : other = key.name
        · subst heq
          exact Or.inl ⟨own, (hmisc own).mp hmem, (miscFact_inj rendering).mp hfact⟩
        · exact Or.inr (.misc other own heq hmem hfact)
  · rintro (⟨own, hown, hsame⟩ | h)
    · exact .misc key.name own ((hmisc own).mpr hown) ((miscFact_inj rendering).mpr hsame)
    · cases h with
      | tool tool output hmem hfact => exact .tool tool output (Dict.mem_entries_iff.mpr hmem) hfact
      | step stepId output hmem hfact =>
          exact .step stepId output (Dict.mem_entries_iff.mpr hmem) hfact
      | misc other own _ hmem hfact => exact .misc other own hmem hfact

/-- While there is room, a later compression has the fact that an earlier one derived from a
key if and only if the key was set again in between, since the last compression, to a value
that is shown alike, or something else has the same fact. -/
theorem keepsFact_iff {rendering : Rendering} {config : ExecutorConfig} {state : PlanState}
    {key : MiscKey} (hkey : Summarized key) (value : Value) (before between : List ContextOp)
    (hroom : (keyFacts (run rendering config state
      (before ++ .compress :: (between ++ [.compress])))).length < 12) :
    miscFact rendering key.name value.viaJson ∈ keyFacts (run rendering config state
        (before ++ .compress :: (between ++ [.compress]))) ↔
      (∃ own, between.foldl (written key) none = some own ∧
        rendering.str own.viaJson = rendering.str value.viaJson) ∨
      Elsewhere rendering (run rendering config state (before ++ .compress :: between)) key
        (miscFact rendering key.name value.viaJson) := by
  have hrun : run rendering config state (before ++ .compress :: (between ++ [.compress])) =
      apply rendering config (run rendering config state (before ++ .compress :: between))
        .compress := by
    simp only [run, List.foldl_append, List.foldl_cons, List.foldl_nil]
  have hwritten : key.valueIn
      (run rendering config state (before ++ .compress :: between)).globalContext =
        between.foldl (written key) none := by
    rw [valueIn_run hkey.1, List.foldl_append, List.foldl_cons]
    rfl
  have hapart : Apart
      (run rendering config state (before ++ .compress :: between)).globalContext := by
    rw [run, List.foldl_append, List.foldl_cons]
    exact (apart_compress _).run between
  rw [hrun] at hroom ⊢
  rw [mem_keyFacts_compress_iff hroom, factOf_iff hapart hkey, hwritten]

/-- Texts are shown as they are. -/
def plainRendering : Rendering where
  str := fun value => match value with
    | .str text => text
    | _ => ""
  dumps := fun _ => ""

def scratch : FreeKey := ⟨"scratch", by decide⟩

/-- A fresh state after these operations. -/
def afterOps (ops : List ContextOp) : PlanState :=
  run plainRendering (plainExecutor .skip ["weather"]) (.fromPlan weatherPlan "default") ops

theorem keepsFact_scratch :
    "scratch: detail" ∈ keyFacts (afterOps ([.set scratch (.str "detail")] ++ .compress ::
      ([.set scratch (.str "detail")] ++ [.compress]))) := by
  have hroom : (keyFacts (afterOps ([.set scratch (.str "detail")] ++ .compress ::
      ([.set scratch (.str "detail")] ++ [.compress])))).length < 12 := by
    decide +kernel
  have hkey : Summarized (.free scratch) := ⟨by decide, by decide⟩
  exact (keepsFact_iff hkey (.str "detail") _ _ hroom).mpr (Or.inl ⟨.str "detail", rfl, rfl⟩)

/-- Twelve tools whose outputs have the same fact. -/
def crowd : Dict String Value :=
  .ofList ((List.range 12).map fun index =>
    ("t" ++ String.join (List.replicate index ": t"),
      .str (String.join (List.replicate (11 - index) "t: ") ++ "x")))

/-- The first compression derives a fact that the second forgets. A fact set again is crowded
out by a fact that twelve tools share. -/
theorem forgets_scratch :
    "scratch: detail" ∈ keyFacts (afterOps [.set scratch (.str "detail"), .compress]) ∧
    "scratch: detail" ∉ keyFacts (afterOps [.set scratch (.str "detail"), .compress, .compress]) ∧
    (keyFacts (afterOps [.set scratch (.str "detail"), .compress]) ++
      keyFacts (afterOps [.set scratch (.str "detail"), .compress, .compress])).dedup.length < 12 ∧
    "scratch: detail" ∉ keyFacts (afterOps [.set scratch (.str "detail"), .compress,
      .change (fun context => { context with toolOutputs := some crowd }) (fun _ => ⟨rfl, rfl⟩),
      .set scratch (.str "detail"), .compress]) ∧
    (keyFacts (afterOps [.set scratch (.str "detail"), .compress]) ++
      keyFacts (afterOps [.set scratch (.str "detail"), .compress,
        .change (fun context => { context with toolOutputs := some crowd }) (fun _ => ⟨rfl, rfl⟩),
        .set scratch (.str "detail"), .compress])).dedup.length = 2 := by
  decide +kernel

end ContextOp

end TripGraph
