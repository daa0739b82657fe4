import TripGraph.Compiler.Levels
import TripGraph.Runtime.Footprint

/-! # How a compiled plan is laid out

Each level hangs between the join of the level before it and a join of its own. A level of
one step is reached by an edge, a wider one by a fan-out; the join of a wide level goes on
to the first step of the next level whatever the width of that level is.
-/

namespace TripGraph

open Interaction

/-! ## Node ids -/

theorem dash_not_mem_repr (n : Nat) : '-' ∉ n.repr.toList := by
  intro hmem
  rw [Nat.toList_repr] at hmem
  exact absurd (Nat.isDigit_of_mem_toDigits (by decide) (by decide) hmem) (by decide)

theorem toString_int_injective {a b : Int} (h : toString a = toString b) : a = b := by
  have hneg : ∀ m n : Nat, Int.repr (.ofNat m) ≠ Int.repr (.negSucc n) := by
    intro m n heq
    have hlist := congrArg String.toList heq
    simp only [Int.repr, String.toList_append] at hlist
    exact dash_not_mem_repr m (by rw [hlist]; simp)
  change Int.repr a = Int.repr b at h
  cases a with
  | ofNat m =>
      cases b with
      | ofNat n => exact congrArg Int.ofNat (repr_nat_injective h)
      | negSucc n => exact absurd h (hneg m n)
  | negSucc m =>
      cases b with
      | ofNat n => exact absurd h.symm (hneg n m)
      | negSucc n =>
          simp only [Int.repr, String.append_right_inj] at h
          exact congrArg Int.negSucc (Nat.succ_injective (repr_nat_injective h))

namespace PlanGraphCompiler

theorem toList_stepNodeId (stepId : Int) :
    (stepNodeId stepId).toList = "step_".toList ++ (toString stepId).toList := by
  change ("step_" ++ toString stepId).toList = _
  rw [String.toList_append]

theorem toList_joinNodeId (levelIndex : Nat) :
    (joinNodeId levelIndex).toList = "plan_join_".toList ++ (toString levelIndex).toList := by
  change ("plan_join_" ++ toString levelIndex).toList = _
  rw [String.toList_append]

theorem stepNodeId_injective {a b : Int} (h : stepNodeId a = stepNodeId b) : a = b := by
  have hlist := congrArg String.toList h
  rw [toList_stepNodeId, toList_stepNodeId] at hlist
  exact toString_int_injective (String.toList_inj.mp (List.append_cancel_left hlist))

theorem joinNodeId_injective {a b : Nat} (h : joinNodeId a = joinNodeId b) : a = b := by
  have hlist := congrArg String.toList h
  rw [toList_joinNodeId, toList_joinNodeId] at hlist
  exact repr_nat_injective (String.toList_inj.mp (List.append_cancel_left hlist))

theorem stepNodeId_ne_of_head {stepId : Int} {other : String}
    (h : other.toList.head? ≠ some 's') : stepNodeId stepId ≠ other := by
  rintro rfl
  exact h (by rw [toList_stepNodeId]; rfl)

theorem stepNodeId_ne_joinNodeId (stepId : Int) (levelIndex : Nat) :
    stepNodeId stepId ≠ joinNodeId levelIndex :=
  stepNodeId_ne_of_head (by rw [toList_joinNodeId]; simp)

theorem stepNodeId_ne_entry (stepId : Int) : stepNodeId stepId ≠ "plan_entry" :=
  stepNodeId_ne_of_head (by decide)

theorem stepNodeId_ne_sink (stepId : Int) : stepNodeId stepId ≠ "plan_sink" :=
  stepNodeId_ne_of_head (by decide)

theorem stepNodeId_ne_endNode (stepId : Int) : stepNodeId stepId ≠ endNode :=
  stepNodeId_ne_of_head (by decide)

theorem joinNodeId_ne_of_take {levelIndex : Nat} {other : String}
    (h : other.toList.take 10 ≠ "plan_join_".toList) : joinNodeId levelIndex ≠ other := by
  rintro rfl
  exact h (by rw [toList_joinNodeId]; rfl)

theorem joinNodeId_ne_entry (levelIndex : Nat) : joinNodeId levelIndex ≠ "plan_entry" :=
  joinNodeId_ne_of_take (by decide)

theorem joinNodeId_ne_sink (levelIndex : Nat) : joinNodeId levelIndex ≠ "plan_sink" :=
  joinNodeId_ne_of_take (by decide)

theorem joinNodeId_ne_endNode (levelIndex : Nat) : joinNodeId levelIndex ≠ endNode :=
  joinNodeId_ne_of_take (by decide)

end PlanGraphCompiler

/-! ## Looking up a node in a graph under construction -/

namespace Graph

/-- Two graphs look the same from a node. -/
structure SameAt (graph graph' : Graph) (nodeId : String) : Prop where
  node : graph'.nodes nodeId = graph.nodes nodeId
  edges : graph'.edges nodeId = graph.edges nodeId
  fanOut : graph'.fanOutFor nodeId = graph.fanOutFor nodeId
  join : graph'.joinSpecs nodeId = graph.joinSpecs nodeId

theorem SameAt.rfl {graph : Graph} {nodeId : String} : SameAt graph graph nodeId := by
  constructor <;> exact Eq.refl _

theorem SameAt.trans {first second third : Graph} {nodeId : String}
    (h : SameAt first second nodeId) (h' : SameAt second third nodeId) :
    SameAt first third nodeId where
  node := h'.node.trans h.node
  edges := h'.edges.trans h.edges
  fanOut := h'.fanOut.trans h.fanOut
  join := h'.join.trans h.join

theorem SameAt.resolveNext {graph graph' : Graph} {nodeId : String}
    (h : SameAt graph graph' nodeId) (state : AgentState) :
    graph'.resolveNext nodeId state = graph.resolveNext nodeId state := by
  simp only [Graph.resolveNext, h.edges]

/-- Only parallel edges leave the node. -/
def Unlinked (graph : Graph) (source : String) : Prop :=
  ∀ edge ∈ graph.edges source, edge.kind = .parallel

/-- The first edge that leaves the node and is not parallel goes to `target` in any state. -/
def Resolves (graph : Graph) (source target : String) : Prop :=
  ∃ before edge after, graph.edges source = before ++ edge :: after ∧
    (∀ other ∈ before, other.kind = .parallel) ∧ edge.kind ≠ .parallel ∧
    edge.condition = none ∧ edge.target = target

theorem Resolves.resolveNext_eq {graph : Graph} {source target : String}
    (h : graph.Resolves source target) (state : AgentState) :
    graph.resolveNext source state = target := by
  obtain ⟨before, edge, after, hedges, hbefore, hkind, hcondition, rfl⟩ := h
  have hfirst : before.find? (fun other => decide (other.kind ≠ .parallel) && other.matches state) =
      none := by
    refine List.find?_eq_none.mpr fun other hother => ?_
    simp [hbefore other hother]
  have hmatches : (decide (edge.kind ≠ .parallel) && edge.matches state) = true := by
    simp [hkind, ConditionalEdge.matches, hcondition]
  simp only [resolveNext, hedges, List.find?_append, hfirst, Option.none_or, List.find?_cons,
    hmatches]

section Builders

variable {graph : Graph} {nodeId source target joinId : String} {edges : List ConditionalEdge}
  {branches : List String} {kind : EdgeKind}

theorem edges_addConditionalEdges_self :
    (graph.addConditionalEdges source edges).edges source = graph.edges source ++ edges :=
      if_pos rfl

theorem Resolves.addConditionalEdges (h : graph.Resolves nodeId target) :
    (graph.addConditionalEdges source edges).Resolves nodeId target := by
  obtain ⟨before, edge, after, hedges, hedge⟩ := h
  by_cases heq : nodeId = source
  · subst heq
    exact ⟨before, edge, after ++ edges, by simp [edges_addConditionalEdges_self, hedges], hedge⟩
  · exact ⟨before, edge, after, by simp [Graph.addConditionalEdges, heq, hedges], hedge⟩

theorem Unlinked.resolves_addEdge (h : graph.Unlinked source) (hkind : kind ≠ .parallel) :
    (graph.addEdge source target kind).Resolves source target :=
  ⟨graph.edges source, _, [], edges_addConditionalEdges_self, h, hkind, rfl, rfl⟩

theorem Unlinked.addConditionalEdges (h : graph.Unlinked nodeId)
    (hedges : nodeId = source → ∀ edge ∈ edges, edge.kind = .parallel) :
    (graph.addConditionalEdges source edges).Unlinked nodeId := by
  intro edge hedge
  by_cases heq : nodeId = source
  · subst heq
    rw [edges_addConditionalEdges_self] at hedge
    exact (List.mem_append.mp hedge).elim (h edge) (hedges rfl edge)
  · simp only [Graph.addConditionalEdges, heq, if_false] at hedge
    exact h edge hedge

theorem SameAt.addConditionalEdges (h : nodeId ≠ source) :
    SameAt graph (graph.addConditionalEdges source edges) nodeId := by
  constructor <;> simp [Graph.addConditionalEdges, Graph.fanOutFor, h]

theorem nodes_addNode_self {fn : NodeFn} : (graph.addNode nodeId fn).nodes nodeId = some fn :=
  if_pos rfl

theorem nodes_addNode_of_ne {fn : NodeFn} (h : nodeId ≠ source) :
    (graph.addNode source fn).nodes nodeId = graph.nodes nodeId := if_neg h

theorem EachNode.addNode {R : String → NodeFn → Prop} {fn : NodeFn} (h : graph.EachNode R)
    (hfn : R source fn) : (graph.addNode source fn).EachNode R := by
  intro own other hother
  by_cases heq : own = source
  · subst heq
    rw [nodes_addNode_self] at hother
    exact Option.some.inj hother ▸ hfn
  · rw [nodes_addNode_of_ne heq] at hother
    exact h own other hother

theorem SameAt.addNode {fn : NodeFn} (h : nodeId ≠ source) :
    SameAt graph (graph.addNode source fn) nodeId := by
  constructor <;> simp [Graph.addNode, Graph.fanOutFor, h]

/-! ### A fan-out -/

/-- The edges to and from one branch of a fan-out. -/
def addBranch (source joinNode : String) (graph : Graph) (branch : String) : Graph :=
  (graph.addEdge source branch .parallel).addEdge branch joinNode .join

theorem addParallelFanout_eq : graph.addParallelFanout source branches joinId =
    branches.foldl (addBranch source joinId)
      { graph with fanOuts := graph.fanOuts ++ [⟨source, branches, joinId⟩] } := rfl

theorem Unlinked.addBranch_of_ne {branch : String} (h : graph.Unlinked nodeId)
    (hne : nodeId ≠ branch) :
    (graph.addBranch source joinId branch).Unlinked nodeId :=
  (h.addConditionalEdges fun _ => by simp).addConditionalEdges fun heq => absurd heq hne

theorem Unlinked.resolves_addBranch (h : graph.Unlinked nodeId) :
    (graph.addBranch source joinId nodeId).Resolves nodeId joinId :=
  (h.addConditionalEdges fun _ => by simp : (graph.addEdge source nodeId .parallel).Unlinked
    nodeId).resolves_addEdge (by simp)

theorem Resolves.foldl_addBranch (h : graph.Resolves nodeId target) :
    (branches.foldl (addBranch source joinId) graph).Resolves nodeId target := by
  induction branches generalizing graph with
  | nil => exact h
  | cons branch rest ih => exact ih h.addConditionalEdges.addConditionalEdges

theorem Unlinked.foldl_addBranch (h : graph.Unlinked nodeId) (hnot : nodeId ∉ branches) :
    (branches.foldl (addBranch source joinId) graph).Unlinked nodeId := by
  induction branches generalizing graph with
  | nil => exact h
  | cons branch rest ih =>
      obtain ⟨hne, hrest⟩ := not_or.mp (List.mem_cons.not.mp hnot)
      exact ih (h.addBranch_of_ne hne) hrest

theorem Unlinked.resolves_foldl_addBranch (h : graph.Unlinked nodeId) (hmem : nodeId ∈ branches) :
    (branches.foldl (addBranch source joinId) graph).Resolves nodeId joinId := by
  induction branches generalizing graph with
  | nil => exact absurd hmem List.not_mem_nil
  | cons branch rest ih =>
      by_cases heq : nodeId = branch
      · subst heq
        exact h.resolves_addBranch.foldl_addBranch
      · exact ih (h.addBranch_of_ne heq) ((List.mem_cons.mp hmem).resolve_left heq)

theorem SameAt.foldl_addBranch (hsource : nodeId ≠ source) (hnot : nodeId ∉ branches) :
    SameAt graph (branches.foldl (addBranch source joinId) graph) nodeId := by
  induction branches generalizing graph with
  | nil => exact .rfl
  | cons branch rest ih =>
      obtain ⟨hne, hrest⟩ := not_or.mp (List.mem_cons.not.mp hnot)
      exact ((SameAt.addConditionalEdges hsource).trans (.addConditionalEdges hne)).trans (ih hrest)

/-- The edges of the branches add neither nodes nor fan-outs nor joins. -/
theorem foldl_addBranch_frame :
    (branches.foldl (addBranch source joinId) graph).nodes = graph.nodes ∧
    (branches.foldl (addBranch source joinId) graph).fanOuts = graph.fanOuts ∧
    (branches.foldl (addBranch source joinId) graph).joinSpecs = graph.joinSpecs := by
  induction branches generalizing graph with
  | nil => exact ⟨rfl, rfl, rfl⟩
  | cons branch rest ih => exact ih

theorem fanOutFor_addParallelFanout : (graph.addParallelFanout source branches joinId).fanOutFor
    nodeId = (graph.fanOutFor nodeId).or
      (if source = nodeId then some ⟨source, branches, joinId⟩ else none) := by
  rw [addParallelFanout_eq, fanOutFor, foldl_addBranch_frame.2.1, List.find?_append]
  simp [fanOutFor, List.find?_singleton]

theorem SameAt.addParallelFanout (hsource : nodeId ≠ source) (hnot : nodeId ∉ branches) :
    SameAt graph (graph.addParallelFanout source branches joinId) nodeId := by
  have hfold : SameAt _ (graph.addParallelFanout source branches joinId) nodeId :=
    SameAt.foldl_addBranch hsource hnot
  refine ⟨hfold.node, hfold.edges, ?_, hfold.join⟩
  rw [fanOutFor_addParallelFanout, if_neg (Ne.symm hsource), Option.or_none]

end Builders

end Graph

namespace PlanGraphCompiler

open TripGraph.Graph

/-- The nodes of a level. -/
def levelNodes (level : List PlanStep) : List String := level.map fun step => stepNodeId step.id

theorem mem_levelNodes {level : List PlanStep} {nodeId : String} :
    nodeId ∈ levelNodes level ↔ ∃ step ∈ level, stepNodeId step.id = nodeId := List.mem_map

theorem joinNodeId_not_mem_levelNodes (levelIndex : Nat) (level : List PlanStep) :
    joinNodeId levelIndex ∉ levelNodes level := by
  rintro hmem
  obtain ⟨step, -, heq⟩ := mem_levelNodes.mp hmem
  exact stepNodeId_ne_joinNodeId _ _ heq

/-- One level connected, with its join. -/
def linkLevel (graph : Graph) (previous : String) (levelIndex : Nat) (level : List PlanStep)
    (next : String) : Graph :=
  (connectLevel graph previous (joinNodeId levelIndex) (levelNodes level)).addJoinNode
    (joinNodeId levelIndex) (levelNodes level) next

theorem compileLevels_cons (previous : String) (levelIndex : Nat) (level : List PlanStep)
    (rest : List (List PlanStep)) (graph : Graph) :
    compileLevels previous levelIndex (level :: rest) graph =
      compileLevels (joinNodeId levelIndex) (levelIndex + 1) rest
        (linkLevel graph previous levelIndex level (nextAfterJoin rest)) := rfl

theorem nextAfterJoin_ne (levels : List (List PlanStep)) :
    nextAfterJoin levels ≠ "" ∧ nextAfterJoin levels ≠ endNode := by
  have hsink : "plan_sink" ≠ "" ∧ "plan_sink" ≠ endNode := by decide
  rcases levels with - | ⟨- | ⟨step, -⟩, -⟩
  · exact hsink
  · exact hsink
  · exact ⟨stepNodeId_ne_of_head (by decide), stepNodeId_ne_endNode _⟩

section Link

variable {graph : Graph} {previous nodeId next : String} {levelIndex : Nat} {level : List PlanStep}

theorem addJoinNode_eq {joinId : String} {waitFor : List String}
    (hnext : next ≠ "" ∧ next ≠ endNode) : graph.addJoinNode joinId waitFor next =
      ({ graph with
        joinSpecs := fun own =>
          if own = joinId then some ⟨joinId, waitFor, next⟩ else graph.joinSpecs own }.addNode
            joinId
        (joinPass joinId waitFor)).addEdge joinId next .direct := if_pos hnext

theorem sameAt_addJoinNode {joinId : String} {waitFor : List String}
    (hnext : next ≠ "" ∧ next ≠ endNode) (h : nodeId ≠ joinId) :
    SameAt graph (graph.addJoinNode joinId waitFor next) nodeId := by
  rw [addJoinNode_eq hnext]
  refine SameAt.trans (SameAt.trans ?_ (.addNode h)) (.addConditionalEdges h)
  constructor <;> simp [Graph.fanOutFor, h]

theorem connectLevel_frame {joinId : String} {branches : List String} :
    (connectLevel graph previous joinId branches).nodes = graph.nodes ∧
    (connectLevel graph previous joinId branches).joinSpecs = graph.joinSpecs := by
  unfold connectLevel
  split
  · exact ⟨rfl, rfl⟩
  · exact ⟨foldl_addBranch_frame.1, foldl_addBranch_frame.2.2⟩

theorem connectLevel_of_length_ne {joinId : String} {branches : List String}
    (h : branches.length ≠ 1) : connectLevel graph previous joinId branches =
      graph.addParallelFanout previous branches joinId := by
  unfold connectLevel
  split
  · exact absurd rfl h
  · rfl

theorem sameAt_connectLevel {joinId : String} {branches : List String}
    (hprevious : nodeId ≠ previous) (hnot : nodeId ∉ branches) :
    SameAt graph (connectLevel graph previous joinId branches) nodeId := by
  unfold connectLevel
  split
  next branch =>
    exact (SameAt.addConditionalEdges hprevious).trans
      (.addConditionalEdges (List.ne_of_not_mem_cons hnot))
  next => exact .addParallelFanout hprevious hnot

theorem sameAt_linkLevel (hnext : next ≠ "" ∧ next ≠ endNode) (hprevious : nodeId ≠ previous)
    (hnot : nodeId ∉ levelNodes level) (hjoin : nodeId ≠ joinNodeId levelIndex) :
    SameAt graph (linkLevel graph previous levelIndex level next) nodeId :=
  (sameAt_connectLevel hprevious hnot).trans (sameAt_addJoinNode hnext hjoin)

/-- Only the join is a new node, and only it is a new join. -/
theorem linkLevel_frame (hnext : next ≠ "" ∧ next ≠ endNode) (h : nodeId ≠ joinNodeId levelIndex) :
    (linkLevel graph previous levelIndex level next).nodes nodeId = graph.nodes nodeId ∧
    (linkLevel graph previous levelIndex level next).joinSpecs nodeId = graph.joinSpecs nodeId := by
  have hjoin : SameAt (connectLevel graph previous (joinNodeId levelIndex) (levelNodes level))
      (linkLevel graph previous levelIndex level next) nodeId := sameAt_addJoinNode hnext h
  rw [hjoin.node, hjoin.join, connectLevel_frame.1, connectLevel_frame.2]
  exact ⟨rfl, rfl⟩

/-- A node of the level leads to the join of the level. -/
theorem resolves_connectLevel {joinId : String} {branches : List String}
    (h : graph.Unlinked nodeId) (hmem : nodeId ∈ branches) (hne : nodeId ≠ previous) :
    (connectLevel graph previous joinId branches).Resolves nodeId joinId := by
  unfold connectLevel
  split
  next branch =>
    obtain rfl := List.mem_singleton.mp hmem
    exact (h.addConditionalEdges fun heq => absurd heq hne).resolves_addEdge (by simp)
  next =>
    have hopen : Unlinked { graph with
        fanOuts := graph.fanOuts ++ [⟨previous, branches, joinId⟩] } nodeId := h
    exact hopen.resolves_foldl_addBranch hmem

theorem fanOutFor_connectLevel_of_ne {joinId : String} {branches : List String}
    (hne : nodeId ≠ previous) :
    (connectLevel graph previous joinId branches).fanOutFor nodeId = graph.fanOutFor nodeId := by
  unfold connectLevel
  split
  · rfl
  · rw [fanOutFor_addParallelFanout, if_neg (Ne.symm hne), Option.or_none]

end Link

/-! ## Levels in a finished graph -/

/-- How one level hangs in the graph. -/
structure Linked (graph : Graph) (previous : String) (levelIndex : Nat) (level : List PlanStep)
    (next : String) : Prop where
  previousNode : (graph.nodes previous).isSome = true
  joinNode : graph.nodes (joinNodeId levelIndex) =
    some (joinPass (joinNodeId levelIndex) (levelNodes level))
  spec : graph.joinSpecs (joinNodeId levelIndex) =
    some ⟨joinNodeId levelIndex, levelNodes level, next⟩
  steps : ∀ nodeId ∈ levelNodes level, graph.fanOutFor nodeId = none ∧
    graph.Resolves nodeId (joinNodeId levelIndex)
  single : ∀ step, level = [step] → graph.fanOutFor previous = none ∧
    graph.Resolves previous (stepNodeId step.id)
  parallel : level.length ≠ 1 → graph.fanOutFor previous =
    some ⟨previous, levelNodes level, joinNodeId levelIndex⟩

/-- The levels hang one after the other, and the last join goes on to the sink. -/
def Laid (graph : Graph) : String → Nat → List (List PlanStep) → Prop
  | previous, _, [] => (graph.nodes previous).isSome = true ∧ graph.fanOutFor previous = none ∧
      graph.Resolves previous "plan_sink"
  | previous, levelIndex, level :: rest =>
      Linked graph previous levelIndex level (nextAfterJoin rest) ∧
        Laid graph (joinNodeId levelIndex) (levelIndex + 1) rest

/-- The levels can still be connected: nothing leaves their nodes yet, and only the edge
of its join leaves the node before them. -/
structure Unlaid (graph : Graph) (previous : String) (levelIndex : Nat)
    (levels : List (List PlanStep)) : Prop where
  previousNode : (graph.nodes previous).isSome = true
  previousFanOut : graph.fanOutFor previous = none
  previousEdges : graph.Unlinked previous ∨ graph.Resolves previous (nextAfterJoin levels)
  previousStep : ∀ nodeId ∈ levelNodes levels.flatten, previous ≠ nodeId
  previousJoin : ∀ index, levelIndex ≤ index → previous ≠ joinNodeId index
  steps : ∀ nodeId ∈ levelNodes levels.flatten,
    graph.fanOutFor nodeId = none ∧ graph.Unlinked nodeId
  joins : ∀ index, levelIndex ≤ index →
    graph.fanOutFor (joinNodeId index) = none ∧ graph.Unlinked (joinNodeId index)

section Lay

variable {graph graph' : Graph} {previous nodeId next : String} {levelIndex : Nat}
  {level : List PlanStep} {rest levels : List (List PlanStep)}

theorem Linked.congr (h : Linked graph previous levelIndex level next)
    (hprevious : SameAt graph graph' previous)
    (hsteps : ∀ nodeId ∈ levelNodes level, SameAt graph graph' nodeId)
    (hnode : graph'.nodes (joinNodeId levelIndex) = graph.nodes (joinNodeId levelIndex))
    (hspec : graph'.joinSpecs (joinNodeId levelIndex) = graph.joinSpecs (joinNodeId levelIndex)) :
    Linked graph' previous levelIndex level next where
  previousNode := hprevious.node ▸ h.previousNode
  joinNode := hnode.trans h.joinNode
  spec := hspec.trans h.spec
  steps nodeId hmem := by
    have hsame := hsteps nodeId hmem
    obtain ⟨hfan, hresolves⟩ := h.steps nodeId hmem
    exact ⟨hsame.fanOut.trans hfan, by rwa [Resolves, hsame.edges]⟩
  single step hlevel := by
    obtain ⟨hfan, hresolves⟩ := h.single step hlevel
    exact ⟨hprevious.fanOut.trans hfan, by rwa [Resolves, hprevious.edges]⟩
  parallel hlength := hprevious.fanOut.trans (h.parallel hlength)

theorem Unlaid.linked (h : Unlaid graph previous levelIndex (level :: rest))
    (hnext : next ≠ "" ∧ next ≠ endNode) :
    Linked (linkLevel graph previous levelIndex level next) previous levelIndex level next := by
  have hpreviousJoin := h.previousJoin levelIndex le_rfl
  have hjoined : ∀ own, own ≠ joinNodeId levelIndex →
      SameAt (connectLevel graph previous (joinNodeId levelIndex) (levelNodes level))
        (linkLevel graph previous levelIndex level next) own :=
    fun own hne => sameAt_addJoinNode hnext hne
  refine ⟨?_, ?_, ?_, ?_, ?_, ?_⟩
  · rw [(hjoined previous hpreviousJoin).node, connectLevel_frame.1]
    exact h.previousNode
  · rw [linkLevel, addJoinNode_eq hnext]
    exact if_pos rfl
  · rw [linkLevel, addJoinNode_eq hnext]
    exact if_pos rfl
  · intro nodeId hmem
    have hall : nodeId ∈ levelNodes (level :: rest).flatten := by
      obtain ⟨step, hstep, rfl⟩ := mem_levelNodes.mp hmem
      exact mem_levelNodes.mpr ⟨step, List.mem_append_left _ hstep, rfl⟩
    have hne : nodeId ≠ joinNodeId levelIndex :=
      fun heq => joinNodeId_not_mem_levelNodes _ _ (heq ▸ hmem)
    obtain ⟨hfan, hunlinked⟩ := h.steps nodeId hall
    have hprevious : nodeId ≠ previous := (h.previousStep nodeId hall).symm
    have hsame := hjoined nodeId hne
    refine ⟨hsame.fanOut.trans ((fanOutFor_connectLevel_of_ne hprevious).trans hfan), ?_⟩
    rw [Resolves, hsame.edges]
    exact resolves_connectLevel hunlinked hmem hprevious
  · rintro step rfl
    have hsame := hjoined previous hpreviousJoin
    refine ⟨hsame.fanOut.trans h.previousFanOut, ?_⟩
    rw [Resolves, hsame.edges]
    rcases h.previousEdges with hunlinked | hresolves
    · exact (hunlinked.resolves_addEdge (by simp)).addConditionalEdges
    · exact hresolves.addConditionalEdges.addConditionalEdges
  · intro hlength
    rw [(hjoined previous hpreviousJoin).fanOut, connectLevel_of_length_ne (by simpa [levelNodes]),
      fanOutFor_addParallelFanout, h.previousFanOut, if_pos rfl, Option.none_or]

theorem Unlaid.tail (h : Unlaid graph previous levelIndex (level :: rest))
    (hnodup : (levelNodes (level :: rest).flatten).Nodup) :
    Unlaid (linkLevel graph previous levelIndex level (nextAfterJoin rest)) (joinNodeId levelIndex)
      (levelIndex + 1) rest := by
  have hne := nextAfterJoin_ne rest
  have hjoin := h.joins levelIndex le_rfl
  have hjoinPrevious : joinNodeId levelIndex ≠ previous := (h.previousJoin levelIndex le_rfl).symm
  have hjoinLevel := joinNodeId_not_mem_levelNodes levelIndex level
  have hconnected : SameAt graph (connectLevel graph previous (joinNodeId levelIndex)
      (levelNodes level)) (joinNodeId levelIndex) := sameAt_connectLevel hjoinPrevious hjoinLevel
  rw [List.flatten_cons, levelNodes, List.map_append] at hnodup
  have hdisjoint := List.disjoint_of_nodup_append hnodup
  refine ⟨?_, ?_, ?_, ?_, ?_, ?_, ?_⟩
  · exact Option.isSome_of_mem (h.linked hne).joinNode
  · rw [linkLevel, addJoinNode_eq hne]
    exact hconnected.fanOut.trans hjoin.1
  · refine Or.inr ?_
    rw [linkLevel, addJoinNode_eq hne]
    refine Unlinked.resolves_addEdge ?_ (by simp)
    intro edge hedge
    exact hjoin.2 edge (hconnected.edges ▸ hedge)
  · intro nodeId hmem heq
    exact joinNodeId_not_mem_levelNodes levelIndex _ (heq ▸ hmem)
  · intro index hindex heq
    have := joinNodeId_injective heq
    omega
  · intro nodeId hmem
    have hall : nodeId ∈ levelNodes (level :: rest).flatten := by
      obtain ⟨step, hstep, rfl⟩ := mem_levelNodes.mp hmem
      exact mem_levelNodes.mpr ⟨step, List.mem_append_right _ hstep, rfl⟩
    have hsame : SameAt graph (linkLevel graph previous levelIndex level (nextAfterJoin rest))
        nodeId := sameAt_linkLevel hne (h.previousStep nodeId hall).symm
      (fun hlevel => hdisjoint hlevel hmem)
      fun heq => joinNodeId_not_mem_levelNodes _ _ (heq ▸ hmem)
    rw [hsame.fanOut, Unlinked, hsame.edges]
    exact h.steps nodeId hall
  · intro index hindex
    have hsame : SameAt graph (linkLevel graph previous levelIndex level (nextAfterJoin rest))
        (joinNodeId index) := sameAt_linkLevel hne (h.previousJoin index (by omega)).symm
      (joinNodeId_not_mem_levelNodes _ _)
      fun heq => absurd (joinNodeId_injective heq) (by omega)
    rw [hsame.fanOut, Unlinked, hsame.edges]
    exact h.joins index (by omega)

/-- Connecting levels leaves the other nodes as they are. -/
theorem sameAt_compileLevels (hprevious : nodeId ≠ previous)
    (hsteps : nodeId ∉ levelNodes levels.flatten)
    (hjoins : ∀ index, levelIndex ≤ index → nodeId ≠ joinNodeId index) :
    SameAt graph (compileLevels previous levelIndex levels graph) nodeId := by
  induction levels generalizing graph previous levelIndex with
  | nil => exact .rfl
  | cons level rest ih =>
      rw [List.flatten_cons, levelNodes, List.map_append, List.mem_append, not_or] at hsteps
      exact (sameAt_linkLevel (nextAfterJoin_ne _) hprevious hsteps.1 (hjoins _ le_rfl)).trans
        (ih (hjoins _ le_rfl) hsteps.2 fun index hindex => hjoins index (by omega))

/-- Connecting levels adds no node and no join but the joins of these levels. -/
theorem compileLevels_frame (hjoins : ∀ index, levelIndex ≤ index → nodeId ≠ joinNodeId index) :
    (compileLevels previous levelIndex levels graph).nodes nodeId = graph.nodes nodeId ∧
    (compileLevels previous levelIndex levels graph).joinSpecs nodeId = graph.joinSpecs nodeId := by
  induction levels generalizing graph previous levelIndex with
  | nil => exact ⟨rfl, rfl⟩
  | cons level rest ih =>
      have hne := hjoins levelIndex le_rfl
      have hrest : ∀ index, levelIndex + 1 ≤ index → nodeId ≠ joinNodeId index :=
        fun index hindex => hjoins index (by omega)
      exact ⟨(ih hrest).1.trans (linkLevel_frame (nextAfterJoin_ne rest) hne).1,
        (ih hrest).2.trans (linkLevel_frame (nextAfterJoin_ne rest) hne).2⟩

/-- Connecting the levels lays them out. -/
theorem Unlaid.laid (h : Unlaid graph previous levelIndex levels)
    (hnodup : (levelNodes levels.flatten).Nodup)
    (hend : levels = [] → graph.Resolves previous "plan_sink") :
    Laid (compileLevels previous levelIndex levels graph) previous levelIndex levels := by
  induction levels generalizing graph previous levelIndex with
  | nil => exact ⟨h.previousNode, h.previousFanOut, hend rfl⟩
  | cons level rest ih =>
      rw [compileLevels_cons]
      have hnext := h.tail hnodup
      have hsplit := hnodup
      rw [List.flatten_cons, levelNodes, List.map_append] at hsplit
      have hdisjoint := List.disjoint_of_nodup_append hsplit
      refine ⟨(h.linked (nextAfterJoin_ne _)).congr ?_ ?_ ?_ ?_,
        ih hnext (List.nodup_append.mp hsplit).2.1 ?_⟩
      · refine sameAt_compileLevels (h.previousJoin levelIndex le_rfl) ?_
          fun index hindex => h.previousJoin index (by omega)
        intro hmem
        obtain ⟨step, hstep, heq⟩ := mem_levelNodes.mp hmem
        exact h.previousStep _
          (mem_levelNodes.mpr ⟨step, List.mem_append_right _ hstep, rfl⟩) heq.symm
      · intro nodeId hmem
        refine sameAt_compileLevels (fun heq => joinNodeId_not_mem_levelNodes _ _ (heq ▸ hmem))
          (fun hrest => hdisjoint hmem hrest) fun index hindex heq =>
            joinNodeId_not_mem_levelNodes _ _ (heq ▸ hmem)
      · exact (compileLevels_frame fun index hindex heq =>
          absurd (joinNodeId_injective heq) (by omega)).1
      · exact (compileLevels_frame fun index hindex heq =>
          absurd (joinNodeId_injective heq) (by omega)).2
      · rintro rfl
        rw [linkLevel, addJoinNode_eq (nextAfterJoin_ne _)]
        have hconnected : SameAt graph (connectLevel graph previous (joinNodeId levelIndex)
            (levelNodes level)) (joinNodeId levelIndex) :=
          sameAt_connectLevel (h.previousJoin levelIndex le_rfl).symm
            (joinNodeId_not_mem_levelNodes levelIndex level)
        refine Unlinked.resolves_addEdge ?_ (by simp)
        intro edge hedge
        exact (h.joins levelIndex le_rfl).2 edge (hconnected.edges ▸ hedge)

end Lay

theorem Laid.congr {graph graph' : Graph} {previous : String} {levelIndex : Nat}
    {levels : List (List PlanStep)} (h : Laid graph previous levelIndex levels)
    (hprevious : SameAt graph graph' previous)
    (hsteps : ∀ stepId, SameAt graph graph' (stepNodeId stepId))
    (hjoins : ∀ index, SameAt graph graph' (joinNodeId index)) :
    Laid graph' previous levelIndex levels := by
  induction levels generalizing previous levelIndex with
  | nil =>
      obtain ⟨hnode, hfan, hresolves⟩ := h
      exact ⟨hprevious.node ▸ hnode,
        hprevious.fanOut.trans hfan, by rwa [Resolves, hprevious.edges]⟩
  | cons level rest ih =>
      refine ⟨h.1.congr hprevious ?_ (hjoins _).node (hjoins _).join, ih h.2 (hjoins _)⟩
      intro nodeId hmem
      obtain ⟨step, -, rfl⟩ := mem_levelNodes.mp hmem
      exact hsteps step.id

/-! ## The compiled graph -/

section Compile

variable {deps : RuntimeDependencies} {strategy : MergeStrategy} {plan : Plan}

/-- The graph with the nodes of the steps added. -/
def addSteps (deps : RuntimeDependencies) (graph : Graph) (steps : List PlanStep) : Graph :=
  steps.foldl (fun acc step => acc.addNode (stepNodeId step.id) (stepNode deps step.id)) graph

theorem addSteps_frame (deps : RuntimeDependencies) (graph : Graph) (steps : List PlanStep) :
    (addSteps deps graph steps).edges = graph.edges ∧
    (addSteps deps graph steps).fanOuts = graph.fanOuts := by
  induction steps generalizing graph with
  | nil => exact ⟨rfl, rfl⟩
  | cons step rest ih => exact ih (graph.addNode (stepNodeId step.id) (stepNode deps step.id))

theorem nodes_addSteps_of_not_mem {graph : Graph} {steps : List PlanStep} {nodeId : String}
    (h : nodeId ∉ levelNodes steps) :
    (addSteps deps graph steps).nodes nodeId = graph.nodes nodeId := by
  induction steps generalizing graph with
  | nil => rfl
  | cons step rest ih =>
      obtain ⟨hne, hrest⟩ := not_or.mp (List.mem_cons.not.mp h)
      exact (ih hrest).trans (nodes_addNode_of_ne hne)

theorem nodes_addSteps {graph : Graph} {steps : List PlanStep} {stepId : Int}
    (h : stepId ∈ steps.map PlanStep.id ∨
      graph.nodes (stepNodeId stepId) = some (stepNode deps stepId)) :
    (addSteps deps graph steps).nodes (stepNodeId stepId) = some (stepNode deps stepId) := by
  induction steps generalizing graph with
  | nil => exact h.resolve_left List.not_mem_nil
  | cons head rest ih =>
      change (addSteps deps (graph.addNode (stepNodeId head.id) (stepNode deps head.id)) rest).nodes
        (stepNodeId stepId) = some (stepNode deps stepId)
      refine ih ?_
      by_cases heq : stepId = head.id
      · subst heq
        exact Or.inr nodes_addNode_self
      · refine h.imp (fun hmem => (List.mem_cons.mp hmem).resolve_left heq) fun hnode => ?_
        exact (nodes_addNode_of_ne fun hid => heq (stepNodeId_injective hid)).trans hnode

theorem baseGraph_eq (deps : RuntimeDependencies) (strategy : MergeStrategy) (plan : Plan) :
    ∃ empty : Graph, (∀ nodeId, empty.edges nodeId = []) ∧ empty.fanOuts = [] ∧
    (∀ nodeId, empty.nodes nodeId = none) ∧ baseGraph deps strategy plan =
      (addSteps deps (empty.addNode "plan_entry" entryNode) plan.steps).addNode "plan_sink"
        sinkNode :=
  ⟨_, fun _ => rfl, rfl, fun _ => rfl, rfl⟩

theorem baseGraph_frame (nodeId : String) : (baseGraph deps strategy plan).edges nodeId = [] ∧
    (baseGraph deps strategy plan).fanOutFor nodeId = none := by
  obtain ⟨empty, hedges, hfanOuts, -, heq⟩ := baseGraph_eq deps strategy plan
  obtain ⟨hsame, hfans⟩ := addSteps_frame deps (empty.addNode "plan_entry" entryNode)
    plan.steps
  rw [heq]
  constructor
  · exact (congrFun hsame nodeId).trans (hedges nodeId)
  · simp only [Graph.fanOutFor]
    rw [show ((addSteps deps (empty.addNode "plan_entry" entryNode) plan.steps).addNode "plan_sink"
      sinkNode).fanOuts = [] from hfans.trans hfanOuts]
    rfl

theorem unlinked_baseGraph (nodeId : String) : (baseGraph deps strategy plan).Unlinked nodeId := by
  intro edge hedge
  rw [(baseGraph_frame nodeId).1] at hedge
  exact absurd hedge List.not_mem_nil

theorem entry_not_mem_levelNodes (level : List PlanStep) : "plan_entry" ∉ levelNodes level := by
  intro hmem
  obtain ⟨step, -, heq⟩ := mem_levelNodes.mp hmem
  exact stepNodeId_ne_entry _ heq

theorem sink_not_mem_levelNodes (level : List PlanStep) : "plan_sink" ∉ levelNodes level := by
  intro hmem
  obtain ⟨step, -, heq⟩ := mem_levelNodes.mp hmem
  exact stepNodeId_ne_sink _ heq

theorem nodes_baseGraph_entry : (baseGraph deps strategy plan).nodes "plan_entry" =
    some entryNode := by
  obtain ⟨empty, -, -, -, heq⟩ := baseGraph_eq deps strategy plan
  rw [heq, nodes_addNode_of_ne (by decide),
    nodes_addSteps_of_not_mem (entry_not_mem_levelNodes _), nodes_addNode_self]

theorem nodes_baseGraph_step {stepId : Int} (h : stepId ∈ plan.ids) :
    (baseGraph deps strategy plan).nodes (stepNodeId stepId) = some (stepNode deps stepId) := by
  obtain ⟨empty, -, -, -, heq⟩ := baseGraph_eq deps strategy plan
  rw [heq, nodes_addNode_of_ne (stepNodeId_ne_sink _), nodes_addSteps (Or.inl h)]

theorem eachNode_addSteps {R : String → NodeFn → Prop} {graph : Graph} (h : graph.EachNode R)
    (hstep : ∀ stepId, R (stepNodeId stepId) (stepNode deps stepId)) (steps : List PlanStep) :
    (addSteps deps graph steps).EachNode R := by
  induction steps generalizing graph with
  | nil => exact h
  | cons step rest ih => exact ih (h.addNode (hstep step.id))

theorem eachNode_compileLevels {R : String → NodeFn → Prop} {graph : Graph} (h : graph.EachNode R)
    (hjoin : ∀ levelIndex waitFor,
      R (joinNodeId levelIndex) (joinPass (joinNodeId levelIndex) waitFor))
    {previous : String} {levelIndex : Nat} {levels : List (List PlanStep)} :
    (compileLevels previous levelIndex levels graph).EachNode R := by
  induction levels generalizing graph previous levelIndex with
  | nil => exact h
  | cons level rest ih =>
      rw [compileLevels_cons, linkLevel, addJoinNode_eq (nextAfterJoin_ne _)]
      refine ih ?_
      have hconnected : (connectLevel graph previous (joinNodeId levelIndex)
          (levelNodes level)).EachNode R := by
        rw [EachNode, connectLevel_frame.1]
        exact h
      exact EachNode.addNode hconnected (hjoin levelIndex _)

/-- Every node of a compiled plan is the entry, the sink, a step or a join. -/
theorem eachNode_compile {R : String → NodeFn → Prop} (hentry : R "plan_entry" entryNode)
    (hsink : R "plan_sink" sinkNode)
    (hstep : ∀ stepId, R (stepNodeId stepId) (stepNode deps stepId))
    (hjoin : ∀ levelIndex waitFor,
      R (joinNodeId levelIndex) (joinPass (joinNodeId levelIndex) waitFor)) :
    (compile deps strategy plan).EachNode R := by
  obtain ⟨empty, -, -, hempty, heq⟩ := baseGraph_eq deps strategy plan
  have hnone : empty.EachNode R := fun nodeId fn hfn => by simp [hempty] at hfn
  have hbase : (baseGraph deps strategy plan).EachNode R :=
    heq ▸ (eachNode_addSteps (hnone.addNode hentry) hstep plan.steps).addNode hsink
  exact eachNode_compileLevels hbase hjoin

/-- What is fixed before any node is added. -/
structure SameSettings (graph graph' : Graph) : Prop where
  entry : graph'.entry = graph.entry
  termination : graph'.termination = graph.termination
  maxIterations : graph'.maxIterations = graph.maxIterations
  mergeStrategy : graph'.mergeStrategy = graph.mergeStrategy

theorem SameSettings.trans {first second third : Graph} (h : SameSettings first second)
    (h' : SameSettings second third) : SameSettings first third where
  entry := h'.entry.trans h.entry
  termination := h'.termination.trans h.termination
  maxIterations := h'.maxIterations.trans h.maxIterations
  mergeStrategy := h'.mergeStrategy.trans h.mergeStrategy

theorem sameSettings_foldl {ι : Type} (step : Graph → ι → Graph)
    (hstep : ∀ graph item, SameSettings graph (step graph item)) (items : List ι) (graph : Graph) :
    SameSettings graph (items.foldl step graph) := by
  induction items generalizing graph with
  | nil => exact ⟨rfl, rfl, rfl, rfl⟩
  | cons item rest ih => exact (hstep graph item).trans (ih (step graph item))

theorem sameSettings_linkLevel (graph : Graph) (previous : String) (levelIndex : Nat)
    (level : List PlanStep) (rest : List (List PlanStep)) :
    SameSettings graph (linkLevel graph previous levelIndex level (nextAfterJoin rest)) := by
  rw [linkLevel, addJoinNode_eq (nextAfterJoin_ne _)]
  have hconnected : SameSettings graph (connectLevel graph previous (joinNodeId levelIndex)
      (levelNodes level)) := by
    unfold connectLevel
    split
    · exact ⟨rfl, rfl, rfl, rfl⟩
    · have hbranches := sameSettings_foldl (addBranch previous (joinNodeId levelIndex))
        (fun _ _ => ⟨rfl, rfl, rfl, rfl⟩) (levelNodes level) { graph with
          fanOuts := graph.fanOuts ++ [⟨previous, levelNodes level, joinNodeId levelIndex⟩] }
      exact ⟨hbranches.entry, hbranches.termination, hbranches.maxIterations,
        hbranches.mergeStrategy⟩
  exact hconnected.trans ⟨rfl, rfl, rfl, rfl⟩

theorem sameSettings_compileLevels (previous : String) (levelIndex : Nat)
    (levels : List (List PlanStep)) (graph : Graph) :
    SameSettings graph (compileLevels previous levelIndex levels graph) := by
  induction levels generalizing graph previous levelIndex with
  | nil => exact ⟨rfl, rfl, rfl, rfl⟩
  | cons level rest ih => exact (sameSettings_linkLevel _ _ _ _ _).trans (ih _ _ _)

theorem settings_compile (deps : RuntimeDependencies) (strategy : MergeStrategy) (plan : Plan) :
    (compile deps strategy plan).entry = "plan_entry" ∧
    (compile deps strategy plan).termination = termination ∧
    (compile deps strategy plan).maxIterations = max (plan.steps.length * 4) 10 ∧
    (compile deps strategy plan).mergeStrategy = strategy := by
  have hbase : (baseGraph deps strategy plan).entry = "plan_entry" ∧
      (baseGraph deps strategy plan).termination = termination ∧
      (baseGraph deps strategy plan).maxIterations = max (plan.steps.length * 4) 10 ∧
      (baseGraph deps strategy plan).mergeStrategy = strategy := by
    have hsteps := fun empty : Graph => sameSettings_foldl
      (fun acc step => acc.addNode (stepNodeId step.id) (stepNode deps step.id))
        (fun _ _ => ⟨rfl, rfl, rfl, rfl⟩) plan.steps empty
    exact ⟨(hsteps _).entry, (hsteps _).termination, (hsteps _).maxIterations,
      (hsteps _).mergeStrategy⟩
  have hlevels := sameSettings_compileLevels "plan_entry" 0 (topologicalLevels plan)
    (baseGraph deps strategy plan)
  exact ⟨hlevels.entry.trans hbase.1, hlevels.termination.trans hbase.2.1,
    hlevels.maxIterations.trans hbase.2.2.1, hlevels.mergeStrategy.trans hbase.2.2.2⟩

/-- The graph a well-formed plan compiles to. -/
structure Compiled (deps : RuntimeDependencies) (plan : Plan) (graph : Graph) : Prop where
  entry : graph.entry = "plan_entry"
  termination : graph.termination = termination
  maxIterations : graph.maxIterations = max (plan.steps.length * 4) 10
  entryNode : graph.nodes "plan_entry" = some entryNode
  sinkNode : graph.nodes "plan_sink" = some sinkNode
  stepNode : ∀ step ∈ plan.steps, graph.nodes (stepNodeId step.id) = some (stepNode deps step.id)
  laid : Laid graph "plan_entry" 0 (topologicalLevels plan)
  sinkFanOut : graph.fanOutFor "plan_sink" = none
  sinkEdge : graph.Resolves "plan_sink" endNode
  quiet : QuietNodes graph

theorem unlaid_baseGraph (deps : RuntimeDependencies) (strategy : MergeStrategy) (plan : Plan) :
    Unlaid (baseGraph deps strategy plan) "plan_entry" 0 (topologicalLevels plan) where
  previousNode := Option.isSome_of_mem nodes_baseGraph_entry
  previousFanOut := (baseGraph_frame _).2
  previousEdges := Or.inl (unlinked_baseGraph _)
  previousStep _ hmem heq := entry_not_mem_levelNodes _ (heq ▸ hmem)
  previousJoin index _ heq := joinNodeId_ne_entry index heq.symm
  steps _ _ := ⟨(baseGraph_frame _).2, unlinked_baseGraph _⟩
  joins _ _ := ⟨(baseGraph_frame _).2, unlinked_baseGraph _⟩

theorem levelNodes_nodup {steps : List PlanStep} (h : (steps.map PlanStep.id).Nodup) :
    (levelNodes steps).Nodup := by
  rw [show levelNodes steps = (steps.map PlanStep.id).map stepNodeId by simp [levelNodes]]
  exact h.map fun _ _ => stepNodeId_injective

theorem topologicalLevels_ne_nil {registry : List String} (h : plan.WellFormed registry) :
    topologicalLevels plan ≠ [] := by
  intro hnil
  have hperm := flatten_topologicalLevels_perm h
  rw [hnil] at hperm
  exact h.nonempty (List.perm_nil.mp hperm.symm)

/-- `compile` lays out the levels between the entry and the sink. -/
theorem compiled_compile {registry : List String} (h : plan.WellFormed registry) :
    Compiled deps plan (compile deps strategy plan) := by
  have hlaid := (unlaid_baseGraph deps strategy plan).laid
    (levelNodes_nodup (topologicalLevels_ids_nodup h))
    fun hnil => absurd hnil (topologicalLevels_ne_nil h)
  have hsame : ∀ nodeId, nodeId ≠ "plan_sink" → SameAt
      (compileLevels "plan_entry" 0 (topologicalLevels plan) (baseGraph deps strategy plan))
      (compile deps strategy plan) nodeId := fun nodeId hne => .addConditionalEdges hne
  have hsink : SameAt (baseGraph deps strategy plan)
      (compileLevels "plan_entry" 0 (topologicalLevels plan) (baseGraph deps strategy plan))
      "plan_sink" := sameAt_compileLevels (by decide) (sink_not_mem_levelNodes _)
    fun index _ => (joinNodeId_ne_sink index).symm
  have hjoins : ∀ nodeId, (∀ index, nodeId ≠ joinNodeId index) →
      (compile deps strategy plan).nodes nodeId = (baseGraph deps strategy plan).nodes nodeId :=
    fun nodeId hne => (compileLevels_frame fun index _ => hne index).1
  obtain ⟨hentry, htermination, hmaxIterations, -⟩ := settings_compile deps strategy plan
  refine ⟨hentry, htermination, hmaxIterations, ?_, ?_, ?_, ?_, ?_, ?_, ?_⟩
  · rw [hjoins _ fun index => (joinNodeId_ne_entry index).symm, nodes_baseGraph_entry]
  · rw [hjoins _ fun index => (joinNodeId_ne_sink index).symm]
    exact nodes_addNode_self
  · intro step hstep
    rw [hjoins _ (stepNodeId_ne_joinNodeId _),
      nodes_baseGraph_step (List.mem_map_of_mem hstep)]
  · exact hlaid.congr (hsame _ (by decide)) (fun stepId => hsame _ (stepNodeId_ne_sink stepId))
      fun index => hsame _ (joinNodeId_ne_sink index)
  · exact hsink.fanOut.trans (baseGraph_frame _).2
  · refine Unlinked.resolves_addEdge ?_ (by simp)
    rw [Unlinked, hsink.edges]
    exact unlinked_baseGraph _
  · exact eachNode_compile (fun _ => trivial) (fun _ => trivial)
      (fun stepId => quiet_stepNode stepId) fun _ _ _ => trivial

end Compile

end PlanGraphCompiler

end TripGraph
