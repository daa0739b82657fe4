import TripGraph.Runtime.Sequences

/-! # The copies of an execution graph

Branches work on copies of their state, and a fan-in merges what the branches carry into a new
graph object. The copies that come from one graph object hold its records only, as long as
nothing else is recorded on them.
-/

namespace TripGraph

open Interaction

/-! ## New graph objects -/

/-- The graph object an exchange makes. -/
def madeGraph : Event → Option Ref
  | ⟨.newGraph _, made⟩ => some made
  | ⟨.copyGraph _, made⟩ => some made
  | ⟨.mergeGraphs .., made⟩ => some made
  | _ => none

namespace SharedObjects

variable {objects next last : SharedObjects} {event : Event} {trace : List Event}

/-- A new graph object is the next free one. -/
theorem madeGraph_of_step (hstep : Step objects event next) {made : Ref}
    (hmade : madeGraph event = some made) : made = objects.graphs.length := by
  obtain ⟨op, reply⟩ := event
  cases op with
  | newGraph | copyGraph | mergeGraphs =>
      obtain ⟨hreply, -⟩ := hstep
      exact (Option.some.inj hmade).symm.trans hreply
  | _ => cases hmade

theorem length_le_of_step (hstep : Step objects event next) :
    objects.graphs.length ≤ next.graphs.length := by
  by_contra hlt
  obtain ⟨hlive, -⟩ := graph_step hstep (not_le.mp hlt)
  exact lt_irrefl _ hlive

/-- A graph object that comes up in an exchange is the one it makes. -/
theorem madeGraph_of_lt (hstep : Step objects event next) {ref : Ref}
    (hnew : objects.graphs.length ≤ ref) (hlive : ref < next.graphs.length) :
    madeGraph event = some ref := by
  obtain ⟨op, reply⟩ := event
  cases op with
  | newGraph | copyGraph | mergeGraphs =>
      obtain ⟨hreply, rfl⟩ := hstep
      rw [allocate, List.length_append, List.length_singleton] at hlive
      have hlast : objects.graphs.length = ref := le_antisymm hnew (Nat.lt_succ_iff.mp hlive)
      exact congrArg some (hreply.trans hlast)
  | addNodeRecord | addEdgeRecord =>
      obtain ⟨-, rfl⟩ := hstep
      rw [List.length_set] at hlive
      exact absurd hlive (not_lt.mpr hnew)
  | _ =>
      have hgraphs : next.graphs = objects.graphs := by
        obtain ⟨-, rfl⟩ := hstep
        first | rfl | exact graphs_syncPlanGraph _ | exact graphs_updatePlanNode _ _ |
          exact graphs_nextReplayRecord
      rw [hgraphs] at hlive
      exact absurd hlive (not_lt.mpr hnew)

theorem lt_of_madeGraph (hstep : Step objects event next) {made : Ref}
    (hmade : madeGraph event = some made) : made < next.graphs.length := by
  obtain ⟨op, reply⟩ := event
  cases op with
  | newGraph | copyGraph | mergeGraphs =>
      obtain ⟨hreply, rfl⟩ := hstep
      obtain rfl : made = objects.graphs.length := (Option.some.inj hmade).symm.trans hreply
      simp [allocate]
  | _ => cases hmade

theorem length_le_of_madeGraph (h : Follows Step objects trace last) (hevent : event ∈ trace)
    {made : Ref} (hmade : madeGraph event = some made) : objects.graphs.length ≤ made := by
  induction h with
  | nil state => cases hevent
  | cons head tail ih =>
      rcases List.mem_cons.mp hevent with rfl | hevent
      · exact (madeGraph_of_step head hmade).ge
      · exact (length_le_of_step head).trans (ih hevent)

/-- No graph object is made twice. -/
theorem eq_of_madeGraph (h : Follows Step objects trace last) {first second : Event}
    (hfirst : first ∈ trace) (hsecond : second ∈ trace) {made : Ref}
    (hmade : madeGraph first = some made) (hagain : madeGraph second = some made) :
    first = second := by
  induction h with
  | nil state => cases hfirst
  | cons head tail ih =>
      rcases List.mem_cons.mp hfirst with rfl | hlater
      · rcases List.mem_cons.mp hsecond with rfl | hlater
        · rfl
        · exact absurd (length_le_of_madeGraph tail hlater hagain)
            (not_le.mpr (lt_of_madeGraph head hmade))
      · rcases List.mem_cons.mp hsecond with rfl | hlater'
        · exact absurd (length_le_of_madeGraph tail hlater hmade)
            (not_le.mpr (lt_of_madeGraph head hagain))
        · exact ih hlater hlater'

/-- Nothing is recorded on a graph object before it is made. -/
theorem nodeRecords_of_le {ref : Ref} (h : objects.graphs.length ≤ ref) :
    (objects.graph ref).nodeRecords = [] := by
  rw [graph, List.getElem?_eq_none h]
  rfl

end SharedObjects

/-! ## Copies -/

/-- The graph objects that come from this one in a run: itself, the copies that are made of
them, and what two of them are merged into. -/
inductive Carried (first : Ref) (trace : List Event) : Ref → Prop
  | first : Carried first trace first
  | copied {source copy : Ref} (hevent : (⟨.copyGraph source, copy⟩ : Event) ∈ trace)
      (hsource : Carried first trace source) : Carried first trace copy
  | merged {left right merged : Ref}
      (hevent : (⟨.mergeGraphs left right, merged⟩ : Event) ∈ trace)
      (hleft : Carried first trace left) (hright : Carried first trace right) :
      Carried first trace merged

/-- The graph has some of these records, no two of them with one number. -/
structure Inherits (records : List NodeExecutionRecord) (graph : ExecutionGraphModel) : Prop where
  distinct : (graph.nodeRecords.map NodeExecutionRecord.sequence).Nodup
  subset : ∀ record ∈ graph.nodeRecords, record ∈ records

namespace Inherits

variable {records : List NodeExecutionRecord} {graph left right : ExecutionGraphModel}

theorem of_nil (h : graph.nodeRecords = []) : Inherits records graph :=
  ⟨by simp [h], by simp [h]⟩

theorem of_isPrefix (hrecords : (records.map NodeExecutionRecord.sequence).Nodup)
    (h : graph.nodeRecords <+: records) : Inherits records graph :=
  ⟨hrecords.sublist (h.sublist.map _), fun _ hrecord => h.subset hrecord⟩

/-- Among records with distinct numbers, the ones that are not there yet have new numbers. -/
theorem unseenNodes (hrecords : (records.map NodeExecutionRecord.sequence).Nodup)
    {own others : List NodeExecutionRecord}
    (hown : (own.map NodeExecutionRecord.sequence).Nodup)
    (hsubset : ∀ record ∈ own, record ∈ records) (hothers : ∀ record ∈ others, record ∈ records) :
    ((ExecutionGraphModel.unseenNodes own others).map NodeExecutionRecord.sequence).Nodup ∧
      ∀ record ∈ ExecutionGraphModel.unseenNodes own others, record ∈ records := by
  induction others generalizing own with
  | nil => exact ⟨hown, hsubset⟩
  | cons record rest ih =>
      obtain ⟨hrecord, hrest⟩ := List.forall_mem_cons.mp hothers
      rw [ExecutionGraphModel.unseenNodes]
      split
      next => exact ih hown hsubset hrest
      next hunseen =>
        refine ih ?_ ?_ hrest
        · rw [List.map_append, List.map_singleton, List.nodup_append]
          refine ⟨hown, List.nodup_singleton _, ?_⟩
          intro number hnumber again hagain heq
          obtain ⟨other, hother, rfl⟩ := List.mem_map.mp hnumber
          -- the same number would be the same record
          have hsame : other = record := List.inj_on_of_nodup_map hrecords (hsubset other hother)
            hrecord (heq.trans (List.mem_singleton.mp hagain))
          apply hunseen
          rw [List.any_eq_true]
          exact ⟨other, hother, by simp [hsame]⟩
        · intro other hother
          rcases List.mem_append.mp hother with hother | hother
          · exact hsubset other hother
          · rwa [List.mem_singleton.mp hother]

theorem merge (hrecords : (records.map NodeExecutionRecord.sequence).Nodup)
    (hleft : Inherits records left) (hright : Inherits records right) :
    Inherits records (left.merge right) := by
  obtain ⟨hdistinct, hsubset⟩ :=
    unseenNodes hrecords hleft.distinct hleft.subset hright.subset
  have hperm := List.perm_insertionSort (fun a b : NodeExecutionRecord => a.sequence ≤ b.sequence)
    (ExecutionGraphModel.unseenNodes left.nodeRecords right.nodeRecords)
  exact ⟨(hperm.map _).nodup_iff.mpr hdistinct, fun record hrecord =>
    hsubset record (hperm.mem_iff.mp hrecord)⟩

end Inherits

namespace Carried

variable {first ref : Ref} {whole trace : List Event} {objects next last : SharedObjects}
  {records : List NodeExecutionRecord} {event : Event}

/-- A graph object other than the first is made from others that are carried. -/
theorem origin (hunique : ∀ made, ∀ own ∈ whole, ∀ other ∈ whole, madeGraph own = some made →
      madeGraph other = some made → own = other)
    (h : Carried first whole ref) (hne : ref ≠ first) (hevent : event ∈ whole)
    (hmade : madeGraph event = some ref) :
    (∃ source, event = ⟨.copyGraph source, ref⟩ ∧ Carried first whole source) ∨
      ∃ left right, event = ⟨.mergeGraphs left right, ref⟩ ∧ Carried first whole left ∧
        Carried first whole right := by
  cases h with
  | first => exact absurd rfl hne
  | copied hown hsource =>
      exact Or.inl ⟨_, hunique _ _ hevent _ hown hmade rfl, hsource⟩
  | merged hown hleft hright =>
      exact Or.inr ⟨_, _, hunique _ _ hevent _ hown hmade rfl, hleft, hright⟩

/-- A graph object other than the first comes from a copy or a merge in the trace. -/
theorem made (h : Carried first trace ref) : ref = first ∨ ∃ event ∈ trace,
    madeGraph event = some ref ∧ ∀ model, event.op ≠ .newGraph model := by
  cases h with
  | first => exact Or.inl rfl
  | copied hevent => exact Or.inr ⟨_, hevent, rfl, fun _ => Op.noConfusion⟩
  | merged hevent => exact Or.inr ⟨_, hevent, rfl, fun _ => Op.noConfusion⟩

/-- What one exchange does to the graphs that are carried. -/
theorem inherits_step (hunique : ∀ made, ∀ own ∈ whole, ∀ other ∈ whole, madeGraph own = some made →
      madeGraph other = some made → own = other) (hevent : event ∈ whole)
    (hrecords : (records.map NodeExecutionRecord.sequence).Nodup)
    (hstep : SharedObjects.Step objects event next)
    (hadds : ∀ ref, Carried first whole ref → ref ≠ first → event.op.nodeRecordOn ref = none)
    (hfirst : (next.graph first).nodeRecords <+: records)
    (hbefore : ∀ ref, Carried first whole ref → Inherits records (objects.graph ref))
    (h : Carried first whole ref) : Inherits records (next.graph ref) := by
  by_cases hne : ref = first
  · exact .of_isPrefix hrecords (hne ▸ hfirst)
  by_cases hlive' : ref < objects.graphs.length
  · rw [(SharedObjects.graph_step hstep hlive').2, SharedObjects.extend, hadds ref h hne]
    obtain ⟨hdistinct, hsubset⟩ := hbefore ref h
    exact ⟨by simpa using hdistinct, by simpa using hsubset⟩
  by_cases hnew : ref < next.graphs.length
  · have hmade := SharedObjects.madeGraph_of_lt hstep (not_lt.mp hlive') hnew
    rcases h.origin hunique hne hevent hmade with ⟨source, rfl, hsource⟩ |
      ⟨left, right, rfl, hleft, hright⟩
    · obtain ⟨hreply, rfl⟩ := hstep
      rw [show ref = _ from hreply, SharedObjects.graph_allocated]
      exact hbefore source hsource
    · obtain ⟨hreply, rfl⟩ := hstep
      rw [show ref = _ from hreply, SharedObjects.graph_allocated]
      exact (hbefore left hleft).merge hrecords (hbefore right hright)
  · exact .of_nil (SharedObjects.nodeRecords_of_le (not_lt.mp hnew))

/-- Where nothing is recorded on the others, all graphs that are carried have records of the
first one only. -/
theorem inherits_of_follows (hunique : ∀ made, ∀ own ∈ whole, ∀ other ∈ whole,
      madeGraph own = some made → madeGraph other = some made → own = other)
    (hrecords : (records.map NodeExecutionRecord.sequence).Nodup)
    (hfollows : Follows SharedObjects.Step objects trace last)
    (hwhole : ∀ event ∈ trace, event ∈ whole) (hlive : first < objects.graphs.length)
    (hadds : ∀ ref, Carried first whole ref → ref ≠ first → nodesAdded ref trace = [])
    (hfirst : (last.graph first).nodeRecords = records)
    (hbefore : ∀ ref, Carried first whole ref → Inherits records (objects.graph ref))
    (h : Carried first whole ref) : Inherits records (last.graph ref) := by
  induction hfollows with
  | nil state => exact hbefore ref h
  | cons head tail ih =>
      obtain ⟨hevent, hrest⟩ := List.forall_mem_cons.mp hwhole
      obtain ⟨hnext, -⟩ := SharedObjects.graph_step head hlive
      simp only [nodesAdded_cons, List.append_eq_nil_iff, Option.toList_eq_nil_iff] at hadds
      refine ih hrest hnext (fun own hown hne => (hadds own hown hne).2) hfirst fun own hown => ?_
      refine inherits_step hunique hevent hrecords head (fun own hown hne => (hadds own hown hne).1)
        ?_ hbefore hown
      rw [← hfirst, (SharedObjects.graph_of_follows tail hnext).2]
      exact List.prefix_append _ _

end Carried

/-! ## What the states of a run carry -/

/-- The state carries one of these graph objects. -/
def AgentState.Carries (carried : Ref → Prop) (state : AgentState) : Prop :=
  ∃ ref, state.executionGraph = some ref ∧ carried ref

/-- Copies of these graph objects, and what two of them are merged into, are among them. -/
def Closes (carried : Ref → Prop) : (op : Op) → op.Reply → Prop
  | .copyGraph source, copy => carried source → carried copy
  | .mergeGraphs left right, merged => carried left → carried right → carried merged
  | _, _ => True

theorem Carried.closes (first : Ref) (trace : List Event) :
    ∀ event ∈ trace, Closes (Carried first trace) event.op event.reply := by
  rintro ⟨op, reply⟩ hevent
  cases op with
  | copyGraph source => exact fun hsource => .copied hevent hsource
  | mergeGraphs left right => exact fun hleft hright => .merged hevent hleft hright
  | _ => trivial

/-- A merge of states that carry some of the graph objects carries one of them. -/
theorem ensures_mergePair_carries {carried : Ref → Prop} {P : Op → Prop}
    (hmerge : ∀ left right, P (.mergeGraphs left right)) (strategy : MergeStrategy)
    {left right : AgentState} (hleft : left.Carries carried) (hright : right.Carries carried) :
    Program.Ensures (S := runtimeSig) (Closes carried) P (AgentState.Carries carried)
      (mergePair strategy left right) := by
  have hdeep : Program.Ensures (S := runtimeSig) (Closes carried) P (AgentState.Carries carried)
      (deepMerge left right) := by
    obtain ⟨own, hown, hcarried⟩ := hleft
    obtain ⟨other, hother, hcarried'⟩ := hright
    unfold deepMerge
    rw [hown, hother]
    exact ensures_asking (hmerge own other) fun merged hcloses =>
      ⟨merged, rfl, hcloses hcarried hcarried'⟩
  unfold mergePair
  split
  · exact hright
  · dsimp only
    split
    · exact hdeep
    · trivial
  · exact hdeep.bind fun _ hmerged => hmerged
  · exact hdeep

namespace Graph

open Classical in
/-- The operation adds a node record to one of these graph objects. -/
noncomputable def recordsOn (carried : Ref → Prop) : Op → Bool
  | .addNodeRecord ref _ => decide (carried ref)
  | _ => false

theorem nodeRecordOn_of_recordsOn {carried : Ref → Prop} {op : Op}
    (h : recordsOn carried op = false)
    {ref : Ref} (href : carried ref) : op.nodeRecordOn ref = none := by
  cases op with
  | addNodeRecord own record =>
      refine if_neg ?_
      rintro rfl
      exact absurd href (by simpa [recordsOn] using h)
  | _ => rfl

open Classical in
/-- The nodes, stopped where they would add a node record to one of these graph objects or, given
one of them, would not hand one back. -/
noncomputable def shieldedNodes (carried : Ref → Prop) (graph : Graph) (nodeId : String) :
    Option NodeFn :=
  (graph.nodes nodeId).map fun fn state => do
    let after ← (fn state).halt (recordsOn carried) (.runtimeError "nested execution")
    if state.Carries carried ∧ ¬after.Carries carried then raise (.runtimeError "foreign graph")
    else pure after

noncomputable def shielded (carried : Ref → Prop) (graph : Graph) : Graph :=
  { graph with nodes := graph.shieldedNodes carried }

variable {digest : Snapshot → String} {graph : Graph} {streamed : Bool} {policy : ExecutionPolicy}
  {carried : Ref → Prop} {first : Ref}

/-- A shielded node adds nothing to these graph objects, and hands one back. -/
theorem respects_shieldedNodes {nodeId : String} {fn : NodeFn}
    (hfn : graph.shieldedNodes carried nodeId = some fn) (state : AgentState) :
    Program.Respects (S := runtimeSig) (fun op => ∀ ref, carried ref → op.nodeRecordOn ref = none)
      (fun after => state.Carries carried → after.Carries carried) (fn state) := by
  obtain ⟨own, -, rfl⟩ := Option.map_eq_some_iff.mp hfn
  refine Program.Respects.bind (Q := fun _ => True) ?_ fun after _ => ?_
  · exact (Program.asks_halt _ _ _).mono (fun op hop ref => nodeRecordOn_of_recordsOn hop)
      fun _ h => h
  · split
    · trivial
    next hkeeps =>
      intro hstate
      by_contra hnot
      exact hkeeps ⟨hstate, hnot⟩

theorem leaves_shielded (hfirst : carried first) : (graph.shielded carried).Leaves first :=
  fun _ _ hfn state => (respects_shieldedNodes hfn state).mono (fun _ hop => hop first hfirst)
    fun _ _ => trivial

/-- A shielded run records on no graph object but the first, and its states carry one of them. -/
theorem assures_shielded : Assures policy first (Closes carried)
    (fun op => ∀ ref, carried ref → ref ≠ first → op.nodeRecordOn ref = none)
    (AgentState.Carries carried) (graph.shielded carried) where
  engine op _ hvisit ref _ _ := Op.nodeRecordOn_of_visit ref hvisit
  node nodeId fn hfn := by
    refine ⟨fun _ _ _ _ _ _ => rfl, fun record _ ref _ hne => if_neg hne.symm, ?_⟩
    intro state hstate
    exact ((respects_shieldedNodes hfn state).mono (fun _ hop ref href _ => hop ref href)
      fun _ hafter => hafter hstate).ensures
  merge _ _ hleft hright := ensures_mergePair_carries (fun _ _ _ _ _ => rfl) _ hleft hright
  frame _ _ _ _ hstate := hstate
  copied _ ref copy hstate hgraph hcloses := by
    obtain ⟨own, hown, hcarried⟩ := hstate
    obtain rfl : own = ref := Option.some.inj (hown.symm.trans hgraph)
    exact ⟨copy, rfl, hcloses hcarried⟩
  served _ _ _ _ _ hcopied := hcopied

/-- Opening a run copies nothing and merges nothing. -/
theorem Opens.newGraph_of_made {state : AgentState} {opening : List Event}
    (h : Opens graph policy state opening first) {event : Event}
    (hevent : event ∈ seeded policy ++ opening) {made : Ref} (hmade : madeGraph event = some made) :
    ∃ model, event.op = .newGraph model := by
  rcases List.mem_append.mp hevent with hevent | hevent
  · unfold seeded at hevent
    split at hevent
    · rw [List.mem_singleton.mp hevent] at hmade
      cases hmade
    · cases hevent
  · cases h with
    | found => cases hevent
    | made => exact ⟨_, congrArg Exchange.op (List.mem_singleton.mp hevent)⟩

/-- When a run on an empty execution graph has been opened, nothing is recorded on the graph
objects that it is going to carry. -/
theorem Opens.nodeRecords_eq_nil {state : AgentState} {opening later : List Event}
    (h : Opens graph policy state opening first) {opened last : SharedObjects}
    (hlater : Follows SharedObjects.Step opened later last)
    (hempty : (opened.graph first).nodeRecords = []) {ref : Ref}
    (href : Carried first (seeded policy ++ (opening ++ later)) ref) :
    (opened.graph ref).nodeRecords = [] := by
  rcases href.made with rfl | ⟨event, hevent, hmade, hcopy⟩
  · exact hempty
  · rw [← List.append_assoc] at hevent
    rcases List.mem_append.mp hevent with hevent | hevent
    · obtain ⟨model, hop⟩ := h.newGraph_of_made hevent hmade
      exact absurd hop (hcopy model)
    · exact SharedObjects.nodeRecords_of_le
        (SharedObjects.length_le_of_madeGraph hlater hevent hmade)

/-- The events around the rounds of a run add no node record. -/
theorem nodesAdded_rounds {own : List Event} {ended : Except RaisedError Cursor} {ref : Ref}
    (hown : nodesAdded ref own = []) :
    nodesAdded ref (emitted streamed (.graphStart graph.graphId graph.entry policy.mode.text) ++
      (own ++ ended.toOption.elim [] (closing graph streamed))) = [] := by
  cases ended with
  | error error => simp [hown, Except.toOption]
  | ok ended => simp [hown, Except.toOption, closing]

/-- A shielded run leaves every graph object it carries with records of the first one, under
distinct numbers, and returns a state that carries one of them. -/
theorem inherits_of_runs_shielded {state : AgentState} {trace : List Event}
    {result : Except RaisedError AgentState} {objects last : SharedObjects}
    (hlive : ∀ given, state.executionGraph = some given → given < objects.graphs.length)
    (hempty : (initialModel graph policy objects state).nodeRecords = [])
    (hrun : Runs (run digest (graph.shielded (Carried (initialRef objects state) trace)) streamed
      policy state) trace result)
    (hfollows : Follows SharedObjects.Step objects trace last) :
    (∃ records, ∀ ref, Carried (initialRef objects state) trace ref →
      Inherits records (last.graph ref)) ∧
    ∀ final, result = .ok final → final.Carries (Carried (initialRef objects state) trace) := by
  obtain ⟨records, hnodup, hrecords⟩ :=
    nodup_nodesAdded (leaves_shielded .first) hlive hrun hfollows
  have hinitial : (initialModel (graph.shielded (Carried (initialRef objects state) trace)) policy
      objects state).nodeRecords = [] := hempty
  rw [hinitial, List.nil_append] at hrecords
  have hassures : Assures policy (initialRef objects state)
      (Closes (Carried (initialRef objects state) trace)) _ _
      (graph.shielded (Carried (initialRef objects state) trace)) := assures_shielded
  obtain ⟨ref, opening, own, ended, closed, hopens, hloop, rfl, rfl, htrace⟩ :=
    runs_run_looped hrun
  have hreplies : ∀ event ∈ own, Closes (Carried (initialRef objects state) trace) event.op
      event.reply := by
    intro event hevent
    apply Carried.closes
    rw [htrace]
    simp [hevent]
  have hwhole := hfollows
  rw [htrace] at hwhole
  obtain ⟨seededObjects, hseeded, hrest⟩ := Follows.append_iff.mp hwhole
  obtain rfl := follows_seeded hseeded
  obtain ⟨opened, hopening, hlater⟩ := Follows.append_iff.mp hrest
  obtain ⟨rfl, hopened, hmodel⟩ := hopens.initialModel hlive hopening
  have hstart : (startCursor graph policy (initialRef seededObjects state) state).state.Carries
      (Carried (initialRef seededObjects state) trace) := ⟨_, rfl, .first⟩
  constructor
  · refine ⟨records, fun carried hcarried => ?_⟩
    refine hcarried.inherits_of_follows
      (fun _ _ hown _ hother => SharedObjects.eq_of_madeGraph hfollows hown hother) hnodup hlater
      ?_ hopened ?_ hrecords ?_
    · intro event hevent
      rw [htrace]
      exact List.mem_append_right _ (List.mem_append_right _ hevent)
    · intro other hother hne
      apply nodesAdded_rounds
      apply List.filterMap_eq_nil_iff.mpr
      intro event hevent
      exact (hassures.loop _ hstart).asks_of_runs hloop hreplies event hevent other hother hne
    · intro other hother
      exact .of_nil (hopens.nodeRecords_eq_nil hlater (hmodel ▸ hinitial) (htrace ▸ hother))
  · intro final hfinal
    cases ended with
    | error error => cases hfinal
    | ok ended =>
        rw [← Except.ok.inj hfinal]
        exact (hassures.loop _ hstart).returns_of_runs hloop hreplies

end Graph

end TripGraph
