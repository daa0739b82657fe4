import TripGraph.Compiler.Hashing
import TripGraph.Runtime.Replay
import TripGraph.Runtime.Restore
import TripGraph.Workflow.Persistence

/-! # Replaying a branch

A finished run is rebuilt from its API snapshot, forked at one of its versions and run again.
The snapshot comes back with text keys everywhere, also among the outputs kept by step id.
-/

namespace TripGraph

open Interaction TripGraph.Graph

/-! ## The nodes of the workflow -/

/-- What is found in a query is textual. -/
def RuntimeDependencies.TextualQueries (deps : RuntimeDependencies) : Prop :=
  ∀ query, ∀ entry ∈ deps.enrichContextFromQuery query, entry.2.Textual

section Nodes

variable {deps : RuntimeDependencies} {state : AgentState}

theorem AgentState.Textual.appendMessage (h : state.Textual) (role content : String) :
    (state.appendMessage role content).Textual := by
  have hmessages : ∀ message ∈ (state.appendMessage role content).messages, message.Textual := by
    intro message hmem
    rcases List.mem_append.mp hmem with hmem | hmem
    · exact h.messages message hmem
    · rw [List.mem_singleton.mp hmem]
      exact Value.textual_ofEntries (by simp)
  exact ⟨hmessages, h.observations, h.shortTermMemory, h.longTermMemory, h.episodicMemory, h.memory,
    h.planState⟩

theorem hashes_loadScope (state : AgentState) (scope : MemoryScope) :
    Hashes (fun entries => ∀ entry ∈ entries, entry.Textual) (loadScope state scope) := by
  refine hashes_asking rfl fun answer hanswer => ?_
  exact Program.ensures_ofExcept_iff.mpr hanswer

theorem hashes_memoryLoadNode (h : state.Textual) :
    Hashes AgentState.Textual (memoryLoadNode deps state) := by
  unfold memoryLoadNode
  split
  · refine (hashes_loadScope _ _).bind fun shortTerm hshort => ?_
    refine (hashes_loadScope _ _).bind fun longTerm hlong => ?_
    refine (hashes_loadScope _ _).bind fun episodic hepisodic => ?_
    have hscopes : (Value.list ([MemoryScope.shortTerm, .longTerm, .episodic].map fun scope =>
        Value.str scope.text)).Textual := by simp
    have hquery : (Value.ofEntries [("session_id", .str state.sessionId), ("key", .null),
        ("scope", .null), ("limit", .int 50)]).Textual := Value.textual_ofEntries (by simp)
    exact ⟨h.messages, h.observations, hshort, hlong, hepisodic, (h.memory.set hscopes).set hquery,
      h.planState⟩
  · exact h

theorem hashes_saveEntry (entry : MemoryEntry) : Hashes (fun _ => True) (saveEntry entry) :=
  hashes_asking rfl fun _ _ => hashes_ofExcept

theorem textual_episodeOf (state : AgentState) (records : List NodeExecutionRecord) :
    (episodeOf state records).Textual := by
  refine Value.textual_ofEntries ?_
  have hhashes : (Value.list (records.map fun record => Value.ofEntries
      [("node_id", .str record.nodeId), ("input", .str record.inputStateHash),
        ("output", .str record.outputStateHash)])).Textual := by
    rw [Value.textual_list_iff]
    intro item hmem
    obtain ⟨record, -, rfl⟩ := List.mem_map.mp hmem
    exact Value.textual_ofEntries (by simp)
  simpa using hhashes

theorem hashes_memoryPersistNode (h : state.Textual) :
    Hashes AgentState.Textual (memoryPersistNode deps state) := by
  have hpersisted : ∀ episode : Value, episode.Textual → AgentState.Textual { state with
      episodicMemory := state.episodicMemory ++ [episode]
      memory := state.memory.set "last_persisted_episode" episode } := by
    intro episode hepisode
    refine ⟨h.messages, h.observations, h.shortTermMemory, h.longTermMemory, ?_,
      h.memory.set hepisode, h.planState⟩
    intro entry hmem
    rcases List.mem_append.mp hmem with hmem | hmem
    · exact h.episodicMemory entry hmem
    · rwa [List.mem_singleton.mp hmem]
  unfold memoryPersistNode
  split
  · refine Program.Ensures.bind (Q := fun _ => True) ?_ fun records _ => ?_
    · unfold recordsOf
      split
      · trivial
      · exact hashes_asking rfl fun _ _ => trivial
    have hlast := hpersisted _ (textual_episodeOf state records)
    have hresult : Hashes AgentState.Textual (do
        if truthy state.finalResult then
          saveEntry ⟨state.sessionId, "last_result", .ofText state.finalResult, .longTerm,
            [("plan_goal", .ofText (state.plan.map Plan.goal))]⟩
        pure { state with
          episodicMemory := state.episodicMemory ++ [episodeOf state records]
          memory := state.memory.set "last_persisted_episode" (episodeOf state records) }) := by
      split
      · exact (hashes_saveEntry _).bind fun _ _ => hlast
      · exact hlast
    refine (hashes_saveEntry _).bind fun _ _ => ?_
    dsimp only
    split
    · exact (hashes_saveEntry _).bind fun _ _ => hresult
    · exact hresult
  · exact h

theorem hashes_plannerNode (hqueries : deps.TextualQueries) (h : state.Textual) :
    Hashes AgentState.Textual (plannerNode deps state) := by
  refine hashes_asking rfl fun answer _ => ?_
  refine hashes_ofExcept.bind fun created _ => ?_
  refine hashes_ofExcept.bind fun _ _ => ?_
  dsimp only
  generalize Repair.normalizePlan created = normalized
  have hnotes : (Value.list (normalized.notes.map .str)).Textual := by simp
  have hnoted : Noted (if normalized.notes = [] then state.observations
      else state.observations.set "plan_repair_notes" (.list (normalized.notes.map .str))) := by
    split
    · exact h.observations
    · exact h.observations.note (by decide) hnotes
  have hfresh := PlanState.Textual.fromPlan normalized.plan state.sessionId
  rw [Program.ensures_pure_iff]
  apply AgentState.Textual.appendMessage
  refine ⟨h.messages, hnoted.note (by decide) trivial, h.shortTermMemory, h.longTermMemory,
    h.episodicMemory, h.memory.set trivial, ?_⟩
  intro own hown
  rw [← Option.some.inj hown]
  exact ⟨hfresh.results, hfresh.context.misc.update (Dict.each_ofList (hqueries _)),
    hfresh.context.stepOutputs, hfresh.context.toolOutputs, hfresh.context.toolArgs⟩

theorem textual_routingHints (plan : Plan) : (PlanGraphCompiler.routingHints plan).Textual := by
  refine Value.textual_ofDict (Dict.each_ofList ?_)
  intro entry hmem
  obtain ⟨step, -, rfl⟩ := List.mem_map.mp hmem
  exact Value.textual_ofEntries (by simp)

theorem hashes_compilePlanNode (h : state.Textual) :
    Hashes AgentState.Textual (compilePlanNode state) := by
  unfold compilePlanNode
  split
  · exact h
  · exact hashes_ofExcept.bind fun strategy _ =>
      ⟨h.messages, h.observations.note (by decide) trivial,
      h.shortTermMemory, h.longTermMemory, h.episodicMemory, h.memory.set (textual_routingHints _),
      h.planState⟩

/-! ### The nested run -/

theorem AgentState.Textual.toChild (h : state.Textual) (graphId : String) :
    (toChild state graphId).Textual :=
  ⟨fun _ hmem => absurd hmem List.not_mem_nil, h.observations,
    fun _ hmem => absurd hmem List.not_mem_nil,
    fun _ hmem => absurd hmem List.not_mem_nil, fun _ hmem => absurd hmem List.not_mem_nil,
      h.memory, h.planState⟩

theorem AgentState.Textual.toParent {parent child : AgentState} (h : parent.Textual)
    (hchild : child.Textual) : (toParent parent child).Textual := by
  have hupdated : Noted (parent.observations.update child.observations) :=
    h.observations.update hchild.observations
  refine ⟨h.messages, hupdated.note (by decide) ?_, h.shortTermMemory, h.longTermMemory,
    h.episodicMemory, h.memory, hchild.planState⟩
  cases hplan : child.planState with
  | none =>
      dsimp only
      cases hstored : (parent.observations.update child.observations).get? "tool_outputs" with
      | none => trivial
      | some stored => exact hupdated.textual (by decide) hstored
  | some own =>
      exact Value.textual_ofDict
        (textualValues_getD (hchild.planState own hplan).context.toolOutputs)

theorem textual_recordSubgraph {memory : Dict String Value} (h : TextualValues memory)
    {nodeId graphId : String} {finalResult : Option String} {updated : Dict String Value}
    (hrecord : recordSubgraph memory nodeId graphId finalResult = .ok updated) :
    TextualValues updated := by
  have hresults : ((memory.get? "subgraph_results").getD (.dict [])).Textual := by
    cases hstored : memory.get? "subgraph_results" with
    | none => trivial
    | some stored => exact h.of_get? hstored
  unfold recordSubgraph at hrecord
  dsimp only at hrecord
  split at hrecord
  next own hset =>
    cases hrecord
    exact h.set (hresults.setItem (Value.textual_ofEntries (by simp)) hset)
  next => cases hrecord

theorem textual_recordCall {memory : Dict String Value} (h : TextualValues memory) {call : Value}
    (hcall : call.Textual) {updated : Dict String Value}
    (hrecord : recordCall memory call = .ok updated) : TextualValues updated := by
  have hcalls : ((memory.get? "agent_calls").getD (.list [])).Textual := by
    cases hstored : memory.get? "agent_calls" with
    | none => trivial
    | some stored => exact h.of_get? hstored
  unfold recordCall at hrecord
  split at hrecord
  next calls heq =>
    cases hrecord
    rw [heq, Value.textual_list_iff] at hcalls
    refine h.set (Value.textual_list_iff.mpr fun item hmem => ?_)
    rcases List.mem_append.mp hmem with hmem | hmem
    · exact hcalls item hmem
    · rwa [List.mem_singleton.mp hmem]
  next => cases hrecord

theorem hashes_planAgentNode (hdigest : ShowsRaised deps.digest) (compiled : CompiledPlan)
    (h : state.Textual) : Hashes AgentState.Textual (planAgentNode deps compiled state) := by
  have hinvoked := h.logGraph "plan_executor" "agent_invoke" [("agent_id", .str "plan_executor")]
  refine (hashes_invoke hdigest (PlanGraphCompiler.hashedNodes_compile deps _ _)
    (hinvoked.toChild _)).bind fun child hchild => ?_
  have hmerged := (hinvoked.toParent hchild).logGraph "plan_executor" "subgraph_complete"
    [("subgraph_id",
      .str (PlanGraphCompiler.compile deps compiled.mergeStrategy compiled.plan).graphId)]
  refine Program.Ensures.bind (Q := TextualValues) ?_ fun results hresults => ?_
  · rw [Program.ensures_ofExcept_iff]
    exact fun _ => textual_recordSubgraph hmerged.memory
  refine Program.Ensures.bind (Q := TextualValues) ?_ fun calls hcalls => ?_
  · rw [Program.ensures_ofExcept_iff]
    exact fun _ => textual_recordCall hresults (Value.textual_ofEntries (by simp))
  exact ⟨hmerged.messages, hmerged.observations, hmerged.shortTermMemory, hmerged.longTermMemory,
    hmerged.episodicMemory, hcalls, hmerged.planState⟩

/-! ### The other nodes -/

theorem hashes_planLoopNode (plan : Plan) {planState : PlanState} (hplan : planState.Textual)
    (h : state.Textual) : Hashes AgentState.Textual (planLoopNode deps plan planState state) := by
  refine (PlanExecutor.hashes_execute _ plan hplan).mapError.bind fun after hafter => ?_
  have hnoted : Noted (state.observations.set "tool_outputs"
      (.ofDict (after.globalContext.toolOutputs.getD .empty))) :=
    h.observations.note (by decide)
      (Value.textual_ofDict (textualValues_getD hafter.context.toolOutputs))
  have hplanned : ∀ own, some after = some own → own.Textual :=
    fun _ hown => Option.some.inj hown ▸ hafter
  dsimp only
  split
  · refine hashes_asking rfl fun traced _ => ?_
    split
    · exact ⟨h.messages, hnoted, h.shortTermMemory, h.longTermMemory, h.episodicMemory, h.memory,
        hplanned⟩
    · have hentries : (Value.list (traced.1.map ToolPolicyTraceEntry.toValue)).Textual := by
        rw [Value.textual_list_iff]
        intro item hmem
        obtain ⟨entry, -, rfl⟩ := List.mem_map.mp hmem
        exact entry.textual_toValue
      have hcounts :
          (Value.ofEntries (traced.2.map fun own => (own.1, Value.int own.2))).Textual := by
        refine Value.textual_ofEntries fun entry hmem => ?_
        obtain ⟨own, -, rfl⟩ := List.mem_map.mp hmem
        trivial
      exact ⟨h.messages, (hnoted.note (by decide) hentries).note (by decide) hcounts,
        h.shortTermMemory, h.longTermMemory, h.episodicMemory, h.memory, hplanned⟩
  · exact ⟨h.messages, hnoted, h.shortTermMemory, h.longTermMemory, h.episodicMemory, h.memory,
      hplanned⟩

theorem hashes_executionNode (hdigest : ShowsRaised deps.digest) (h : state.Textual) :
    Hashes AgentState.Textual (executionNode deps state) := by
  unfold executionNode
  split
  next planState plan hplan _ =>
    split
    · exact hashes_planAgentNode hdigest _ h
    · exact hashes_planLoopNode plan (h.planState planState hplan) h
  next => exact h

theorem textual_critiqueValue (critique : ExecutionCritique) : (critiqueValue critique).Textual :=
  Value.textual_ofEntries (by simp)

theorem hashes_criticNode (h : state.Textual) :
    Hashes AgentState.Textual (criticNode deps state) := by
  unfold criticNode
  split
  · exact h
  split
  · refine hashes_asking rfl fun answer _ => ?_
    exact hashes_ofExcept.bind fun critique _ => ⟨h.messages,
      h.observations.note (by decide) (textual_critiqueValue critique), h.shortTermMemory,
      h.longTermMemory, h.episodicMemory, h.memory.set trivial, h.planState⟩
  · exact h

theorem hashes_replannerNode (h : state.Textual) :
    Hashes AgentState.Textual (replannerNode deps state) := by
  unfold replannerNode
  split
  next planState critique hplan _ =>
    refine (ReplanningController.hashes_handle _ critique (h.planState planState hplan)).bind
      fun outcome houtcome => ?_
    have hplanned : ∀ own, some outcome.updatedState = some own → own.Textual :=
      fun _ hown => Option.some.inj hown ▸ houtcome
    refine hashes_asking rfl fun attempts _ => ?_
    dsimp only
    split
    · exact hashes_ofExcept.bind fun strategy _ => ⟨h.messages, h.observations, h.shortTermMemory,
        h.longTermMemory, h.episodicMemory, h.memory.set trivial, hplanned⟩
    · exact ⟨h.messages, h.observations, h.shortTermMemory, h.longTermMemory, h.episodicMemory,
        h.memory, hplanned⟩
  next => exact h

theorem hashes_finalizeNode (h : state.Textual) :
    Hashes AgentState.Textual (finalizeNode deps state) := by
  have hended : AgentState.Textual
      { state with finalResult := some (synthesizeFinal deps state), shouldStop := true } :=
    h.of_same rfl
  exact hended.appendMessage _ _

/-- The nodes of the workflow keep the values textual. -/
theorem hashedNodes_build (hdigest : ShowsRaised deps.digest) (hqueries : deps.TextualQueries)
    (maxIterations : Nat) : (AgentWorkflowBuilder.build deps maxIterations).HashedNodes := by
  apply AgentWorkflowBuilder.eachNode_build
  intro stage state h
  cases stage with
  | memoryLoad => exact hashes_memoryLoadNode h
  | planner => exact hashes_plannerNode hqueries h
  | compilePlan => exact hashes_compilePlanNode h
  | router => exact hashes_routerNode h
  | execution => exact hashes_executionNode hdigest h
  | memoryPersist => exact hashes_memoryPersistNode h
  | critic => exact hashes_criticNode h
  | replanner => exact hashes_replannerNode h
  | finalize => exact hashes_finalizeNode h
  | _ => exact hashes_memoryPersistNode h

end Nodes

/-! ## What comes back from JSON -/

namespace Value

theorem isText_encoded (key : Key) : key.encoded.isText = true := by cases key <;> rfl

mutual

/-- A decoded value has text keys only. -/
theorem textual_viaJson : (value : Value) → value.viaJson.Textual
  | .null => trivial
  | .bool _ => trivial
  | .int _ => trivial
  | .float _ => trivial
  | .str _ => trivial
  | .list items => textual_viaJsonList items
  | .dict items => textual_viaJsonItems items [] trivial

theorem textual_viaJsonList : (items : List Value) → TextualList (viaJsonList items)
  | [] => trivial
  | item :: rest => ⟨textual_viaJson item, textual_viaJsonList rest⟩

theorem textual_viaJsonItems : (items decoded : List (Key × Value)) → TextualItems decoded →
    TextualItems (viaJsonItems items decoded)
  | [], _, h => h
  | (key, item) :: rest, decoded, h => by
      have hitem := textual_viaJson item
      refine textual_viaJsonItems rest _ (textualItems_iff.mpr fun entry hmem => ?_)
      rcases Dict.mem_write hmem with rfl | hmem
      · exact ⟨isText_encoded key, hitem⟩
      · exact textualItems_iff.mp h entry hmem

end

end Value

/-- No step has left its output in the observations of the snapshot. -/
def Snapshot.NoOutputs (snap : Snapshot) : Prop :=
  ∀ items, snap.observations.get? "step_outputs" = some (.dict items) → items = []

theorem Snapshot.textual_viaJson {snap : Snapshot} (h : snap.viaJson.NoOutputs) :
    snap.viaJson.Textual := by
  have hlist : ∀ {values : List Value}, ∀ value ∈ values.map Value.viaJson, value.Textual := by
    intro values value hmem
    obtain ⟨own, -, rfl⟩ := List.mem_map.mp hmem
    exact own.textual_viaJson
  have hdict : ∀ {values : Dict String Value}, TextualValues (values.map Value.viaJson) := by
    intro values entry hmem
    obtain ⟨own, -, rfl⟩ := List.mem_map.mp hmem
    exact own.2.textual_viaJson
  refine ⟨hlist, ?_, hlist, hlist, hlist, hdict⟩
  intro entry hmem
  have hentry : entry.2.Textual := hdict entry hmem
  split
  next hkey =>
    refine hentry.byStep fun items hitems => h items ?_
    rw [← hkey, ← hitems]
    exact Dict.get?_of_mem_entries hmem
  next => exact hentry

/-! ## The branch -/

/-- The version at which a branch from the snapshot is forked. -/
def ApiSnapshot.forkedVersion (snap : ApiSnapshot) (fromVersionId : String) : Option StateVersion :=
  let store := snap.versionStore.getD {}
  store.getVersion (orText (some fromVersionId) (orText store.currentVersionId ""))

/-- A forked state takes its values and its flag from the version. -/
theorem exists_version_of_forkBranch {state forked : AgentState}
    {fromVersionId branchName : Option String} {graphCopy : Option Ref} {branchId : String}
    (h : state.forkBranch fromVersionId branchName graphCopy = .ok (forked, branchId)) :
    ∃ version, (state.versionStore.getD {}).getVersion (orText fromVersionId
        (orText (state.versionStore.getD {}).currentVersionId "")) = some version ∧
      forked.held = (state.applySnapshot version.snapshot graphCopy).held ∧
      forked.shouldStop = version.snapshot.shouldStop := by
  unfold AgentState.forkBranch at h
  dsimp only at h
  split at h
  · cases h
  cases hrollback : state.rollback (orText fromVersionId
      (orText (state.versionStore.getD {}).currentVersionId "")) graphCopy with
  | error error =>
      rw [hrollback] at h
      cases h
  | ok restored =>
      rw [hrollback] at h
      obtain ⟨version, hversion, rfl⟩ := rollback_ok hrollback
      cases h
      exact ⟨version, hversion, rfl, rfl⟩

theorem exists_viaJson_of_forkedVersion {snap : ApiSnapshot} {fromVersionId : String}
    {version : StateVersion} (h : snap.viaJson.forkedVersion fromVersionId = some version) :
    ∃ own : StateVersion, version.snapshot = own.snapshot.viaJson := by
  cases hstore : snap.versionStore with
  | none =>
      simp only [ApiSnapshot.forkedVersion, ApiSnapshot.viaJson, hstore] at h
      cases h
  | some store =>
      have hmem : version ∈ store.versions.map StateVersion.viaJson := by
        simp only [ApiSnapshot.forkedVersion, ApiSnapshot.viaJson, hstore] at h
        exact List.mem_of_find?_eq_some h
      obtain ⟨own, -, rfl⟩ := List.mem_map.mp hmem
      exact ⟨own, rfl⟩

namespace GraphRuntimeRunner

/-- The forked state with the query of the new run. -/
def branched (query sessionId : String) (forked : AgentState) : AgentState :=
  { forked with
    query := query
    sessionId := sessionId
    messages := [.ofEntries [("role", .str "user"), ("content", .str query)]] }

/-- `replay_from_branch`, up to the final state of the run. -/
def replayFromBranch (deps : RuntimeDependencies) (maxIterations : Nat) (snapshot : ApiSnapshot)
    (fromVersionId query sessionId : String) (branchName : Option String)
    (policy : ExecutionPolicy) : Runtime AgentState := do
  let forked ← Program.ofExcept
    ((AgentState.fromApiSnapshot snapshot).forkBranch (some fromVersionId) branchName none)
  (AgentWorkflowBuilder.build deps maxIterations).invoke deps.digest policy
    (branched query sessionId forked.1)

theorem textual_branched {forked : AgentState} {snap : Snapshot} (hsnap : snap.Textual)
    {restored : AgentState} (hplan : restored.planState = none)
    (hheld : forked.held = (restored.applySnapshot snap none).held) (query sessionId : String) :
    (branched query sessionId forked).Textual := by
  have hrestored : (branched query sessionId (restored.applySnapshot snap none)).Textual := by
    refine ⟨?_, hsnap.observations, hsnap.shortTermMemory, hsnap.longTermMemory,
      hsnap.episodicMemory, hsnap.memory, ?_⟩
    · intro message hmem
      rw [List.mem_singleton.mp hmem]
      exact Value.textual_ofEntries (by simp)
    · intro own hown
      cases hplan.symm.trans hown
  refine hrestored.of_same ?_
  simp only [AgentState.held, Prod.mk.injEq] at hheld
  simp [AgentState.held, branched, hheld]

variable {deps : RuntimeDependencies} {maxIterations : Nat} {snap : ApiSnapshot}
  {fromVersionId query sessionId : String} {branchName : Option String} {policy : ExecutionPolicy}

theorem hashes_replayFromBranch (hdigest : ShowsRaised deps.digest)
    (hqueries : deps.TextualQueries)
    (hforked : ∀ version, snap.viaJson.forkedVersion fromVersionId = some version →
      version.snapshot.NoOutputs ∨ version.snapshot.shouldStop = true) :
    Hashes (fun _ => True) (replayFromBranch deps maxIterations snap.viaJson fromVersionId query
      sessionId branchName policy) := by
  refine Program.Ensures.bind (Q := fun forked => (AgentState.fromApiSnapshot
    snap.viaJson).forkBranch (some fromVersionId) branchName none = .ok forked) ?_
    fun forked hfork => ?_
  · exact Program.ensures_ofExcept_iff.mpr fun _ hfork => hfork
  obtain ⟨version, hversion, hheld, hstop⟩ := exists_version_of_forkBranch hfork
  obtain ⟨own, hown⟩ := exists_viaJson_of_forkedVersion hversion
  rcases hforked version hversion with hnone | hstopped
  · rw [hown] at hnone hheld
    have hbranched := textual_branched (Snapshot.textual_viaJson hnone) rfl hheld query sessionId
    exact (hashes_invoke hdigest (hashedNodes_build hdigest hqueries maxIterations)
      hbranched).mono fun _ _ => trivial
  · exact hashes_invoke_of_stopped (hstop.trans hstopped)

/-- In every replay of a branch from the version, whose components reply with decoded values, all
states are hashed. -/
def NeverRaises (deps : RuntimeDependencies) (maxIterations : Nat) (finished : AgentState)
    (fromVersionId : String) : Prop :=
  ∀ (query sessionId : String) (branchName : Option String) (policy : ExecutionPolicy)
    (trace : List Event) (result : Except RaisedError AgentState),
    Runs (replayFromBranch deps maxIterations finished.apiSnapshot.viaJson fromVersionId query
      sessionId branchName policy) trace result →
    (∀ event ∈ trace, event.op.Decoded event.reply) → ∀ event ∈ trace, event.op.Hashed

/-- Where no step output comes back from the version, or the run at the version was over, no
replay of the branch fails to hash a state. -/
theorem neverRaises_of_forkedVersion (hdigest : ShowsRaised deps.digest)
    (hqueries : deps.TextualQueries) {finished : AgentState}
    (hforked : ∀ version, finished.apiSnapshot.viaJson.forkedVersion fromVersionId = some version →
      version.snapshot.NoOutputs ∨ version.snapshot.shouldStop = true) :
    NeverRaises deps maxIterations finished fromVersionId :=
  fun _ _ _ _ _ _ h hreplies => (hashes_replayFromBranch hdigest hqueries hforked).asks_of_runs h
    hreplies

/-! ## A branch behind a step -/

/-- Every query gets the same plan, and every id is a new one. -/
def plannedReply (plan : Plan) : (op : Op) → Nat → op.Reply × Nat
  | .createPlan _, count => (.ok plan, count)
  | op, count => suppliedReply op count

/-- The components reply with decoded values. -/
theorem decoded_planned {ε α : Type} (plan : Plan) (p : Effect ε α) (count : Nat) :
    ∀ event ∈ (p.exec (sharedHandler (plannedReply plan)) ({}, count)).trace,
      event.op.Decoded event.reply := by
  intro event hmem
  obtain ⟨own, hreply⟩ := Program.exists_answer_of_exec _ p _ hmem
  obtain ⟨op, reply⟩ := event
  cases op with
  | executeLlmCall tool args callId =>
      change reply = ({ tool := tool, args := args } : ToolObservation) at hreply
      subst hreply
      trivial
  | memoryGet query =>
      change reply = .ok [] at hreply
      subst hreply
      intro entries hentries
      cases hentries
      exact fun _ hentry => absurd hentry List.not_mem_nil
  | peekReplayRecord nodeId =>
      intro record hrecord
      cases hrecord
      have hfound := SharedObjects.mem_replayRecords_of_peeked
        (follows_exec (plannedReply plan) p ({}, count)) hmem
      exact absurd hfound.1 List.not_mem_nil
  | _ => trivial

/-- A digest that shows where serialising raises. -/
def sortingDependencies : RuntimeDependencies :=
  { plainDependencies .skip ["weather"] {} with
    digest := fun snap => if snap.sortable then "hash" else raisedHash }

theorem showsRaised_sortingDependencies : ShowsRaised sortingDependencies.digest := by
  intro snap
  change (if snap.sortable then "hash" else raisedHash) = raisedHash ↔ snap.sortable = false
  cases snap.sortable <;> decide

theorem textualQueries_sortingDependencies : sortingDependencies.TextualQueries :=
  fun _ _ hmem => absurd hmem List.not_mem_nil

/-- A query that is answered in one step. -/
def tripRun : Outcome runtimeSig RaisedError AgentState (SharedObjects × Nat) :=
  ((AgentWorkflowBuilder.build sortingDependencies 50).invoke sortingDependencies.digest {}
    (initialState "查询上海天气" "default")).exec (sharedHandler (plannedReply weatherPlan)) ({}, 0)

/-- The state in which it ends. -/
def finishedTrip : AgentState := tripRun.result.toOption.getD {}

/-- A new query on the branch. -/
def branchRun (fromVersionId : String) :
    Outcome runtimeSig RaisedError AgentState (SharedObjects × Nat) :=
  (replayFromBranch sortingDependencies 50 finishedTrip.apiSnapshot.viaJson fromVersionId
    "查询北京天气" "default" none {}).exec (sharedHandler (plannedReply weatherPlan)) ({}, 100)

theorem runs_tripRun : Runs ((AgentWorkflowBuilder.build sortingDependencies 50).invoke
    sortingDependencies.digest {} (initialState "查询上海天气" "default")) tripRun.trace
    (.ok finishedTrip) := by
  have hrun : Runs _ tripRun.trace tripRun.result := Program.runs_exec _ _ _
  have hok : tripRun.result.isOk = true := by decide +kernel
  unfold finishedTrip
  cases hresult : tripRun.result with
  | ok value => exact hresult ▸ hrun
  | error error => simp [hresult, Except.isOk, Except.toBool] at hok

/-- The first version of a step of the finished run. -/
def stepVersionId : String := "aaaaa"

/-- The query ran to its end. A new query on the branch behind its step reaches a state that
`hash_state` raises on. -/
theorem not_neverRaises_behind_step :
    ShowsRaised sortingDependencies.digest ∧ sortingDependencies.TextualQueries ∧
    (∃ trace, Runs ((AgentWorkflowBuilder.build sortingDependencies 50).invoke
        sortingDependencies.digest {} (initialState "查询上海天气" "default")) trace
        (.ok finishedTrip) ∧ "finalize" ∈ executedNodes trace ∧
      ∀ event ∈ trace, event.op.Decoded event.reply ∧ event.op.Hashed) ∧
    (∃ version, finishedTrip.apiSnapshot.viaJson.forkedVersion stepVersionId = some version ∧
      version.nodeId = "step_1") ∧
    ¬NeverRaises sortingDependencies 50 finishedTrip stepVersionId := by
  have hhashed : (tripRun.trace.all fun event => !event.op.hashes.contains raisedHash) = true := by
    decide +kernel
  refine ⟨showsRaised_sortingDependencies, textualQueries_sortingDependencies,
    ⟨_, runs_tripRun, by decide +kernel, fun event hmem => ⟨decoded_planned _ _ _ event hmem, ?_⟩⟩,
    ?_, ?_⟩
  · have hown := List.all_eq_true.mp hhashed event hmem
    simpa [Op.Hashed] using hown
  · have hnode : (finishedTrip.apiSnapshot.viaJson.forkedVersion stepVersionId).map
        StateVersion.nodeId = some "step_1" := by decide +kernel
    obtain ⟨version, hversion, hnode⟩ := Option.map_eq_some_iff.mp hnode
    exact ⟨version, hversion, hnode⟩
  · intro hnever
    have hall := hnever _ _ _ _ _ _ (Program.runs_exec (sharedHandler (plannedReply weatherPlan))
      (replayFromBranch sortingDependencies 50 finishedTrip.apiSnapshot.viaJson stepVersionId
        "查询北京天气" "default" none {}) ({}, 100)) (decoded_planned _ _ _)
    have hraised : ((branchRun stepVersionId).trace.any fun event =>
        event.op.hashes.contains raisedHash) = true := by decide +kernel
    obtain ⟨event, hmem, hshown⟩ := List.any_eq_true.mp hraised
    exact hall event hmem (by simpa using hshown)

/-- On the branch from the version of the planner every state is hashed. -/
theorem neverRaises_behind_planner : NeverRaises sortingDependencies 50 finishedTrip "a" := by
  have hnone : ((finishedTrip.apiSnapshot.viaJson.forkedVersion "a").all fun version =>
      (version.snapshot.observations.get? "step_outputs").isNone) = true := by decide +kernel
  refine neverRaises_of_forkedVersion showsRaised_sortingDependencies
    textualQueries_sortingDependencies fun version hversion => Or.inl fun items hitems => ?_
  rw [hversion, Option.all_some, hitems] at hnone
  cases hnone

end GraphRuntimeRunner

end TripGraph
