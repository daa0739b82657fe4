import Mathlib.Data.List.Chain
import TripGraph.Compiler.Layout
import TripGraph.Runtime.Components

/-! # Which steps a compiled plan executes

From the join of a level the run enters the next level as a whole: by an edge or by a
fan-out. After a fan-out it goes on directly at the first step of the next level, and what
hangs on the join in between is passed by.
-/

namespace TripGraph

open Interaction

/-! ## Marks -/

/-- The marks of one execution of a node. -/
def executed (nodeId : String) : List Visit := [.started nodeId, .finished nodeId]

theorem nodeId_of_mem_executed {nodeId : String} {visit : Visit} (h : visit ∈ executed nodeId) :
    visit.nodeId = nodeId := by
  rcases List.mem_cons.mp h with rfl | h
  · rfl
  · obtain rfl := List.mem_singleton.mp h
    rfl

namespace PlanGraphCompiler

/-- The marks of one execution of every step of a level. -/
def levelMarks (level : List PlanStep) : List Visit :=
  level.flatMap fun step => executed (stepNodeId step.id)

/-- The marks of the step nodes of a plan. -/
def stepMarks (plan : Plan) (marks : List Visit) : List Visit :=
  marks.filter fun visit => decide (visit.nodeId ∈ levelNodes plan.steps)

/-- The plan is executed: every step's node once, and after the nodes of its dependencies. -/
structure ExecutesPlan (plan : Plan) (marks : List Visit) : Prop where
  once : ∀ step ∈ plan.steps, marks.count (.started (stepNodeId step.id)) = 1 ∧
    marks.count (.finished (stepNodeId step.id)) = 1
  ordered : ∀ step ∈ plan.steps, ∀ dep ∈ step.deps, ∀ before after,
    marks = before ++ .started (stepNodeId step.id) :: after → .finished (stepNodeId dep) ∈ before

/-! ## The levels a run reaches -/

/-- Of each level, the steps a run reaches: all of them from the node before the level, and
only the first if the run has gone `directly` to it. -/
def reached : Bool → List (List PlanStep) → List (List PlanStep)
  | _, [] => []
  | directly, level :: rest =>
      (if directly then level.take 1 else level) ::
        reached (!directly && decide (level.length ≠ 1)) rest

/-- No two consecutive levels both hold several steps. -/
def Separated (levels : List (List PlanStep)) : Prop :=
  levels.IsChain fun level next => level.length = 1 ∨ next.length = 1

/-- The levels are separated, and so is the first one from a level before it. -/
def SeparatedFrom (directly : Bool) (levels : List (List PlanStep)) : Prop :=
  (directly = true → ∀ level ∈ levels.head?, level.length = 1) ∧ Separated levels

theorem separatedFrom_cons {directly : Bool} {level : List PlanStep} {rest : List (List PlanStep)} :
    SeparatedFrom directly (level :: rest) ↔ (directly = true → level.length = 1) ∧
      SeparatedFrom (!directly && decide (level.length ≠ 1)) rest := by
  simp only [SeparatedFrom, Separated, List.head?_cons, Option.mem_some_iff, List.isChain_cons,
    Bool.and_eq_true, Bool.not_eq_true', decide_eq_true_eq]
  by_cases hlength : level.length = 1
  · simp [hlength]
  · cases directly <;> simp [hlength]

theorem reached_of_separated {directly : Bool} {levels : List (List PlanStep)}
    (h : SeparatedFrom directly levels) : reached directly levels = levels := by
  induction levels generalizing directly with
  | nil => rfl
  | cons level rest ih =>
      obtain ⟨hfirst, hrest⟩ := separatedFrom_cons.mp h
      rw [reached, ih hrest]
      split
      next hdirectly => rw [List.take_of_length_le (hfirst hdirectly).le]
      next => rfl

theorem reached_sublist (directly : Bool) (levels : List (List PlanStep)) :
    (reached directly levels).flatten.Sublist levels.flatten := by
  induction levels generalizing directly with
  | nil => exact .refl _
  | cons level rest ih =>
      rw [reached, List.flatten_cons, List.flatten_cons]
      refine List.Sublist.append ?_ (ih _)
      split
      · exact List.take_sublist 1 level
      · exact .refl _

/-- A run misses a step where two consecutive levels both hold several. -/
theorem exists_not_mem_reached {directly : Bool} {levels : List (List PlanStep)}
    (hnodup : levels.flatten.Nodup) (hne : ∀ level ∈ levels, level ≠ [])
    (h : ¬SeparatedFrom directly levels) :
    ∃ step ∈ levels.flatten, step ∉ (reached directly levels).flatten := by
  induction levels generalizing directly with
  | nil => exact absurd ⟨by simp, List.isChain_nil⟩ h
  | cons level rest ih =>
      rw [separatedFrom_cons, not_and_or] at h
      rw [List.flatten_cons, List.nodup_append] at hnodup
      obtain ⟨hlevel, hrestNodup, hdisjoint⟩ := hnodup
      rcases h with hfirst | hrest
      · obtain ⟨hdirectly, hlength⟩ := Classical.not_imp.mp hfirst
        match level, hne level List.mem_cons_self, hlength with
        | first :: second :: others, _, _ =>
            refine ⟨second, by simp, ?_⟩
            rw [reached, if_pos hdirectly, List.flatten_cons, List.mem_append, not_or]
            constructor
            · obtain ⟨hfirst, -⟩ := List.nodup_cons.mp hlevel
              rintro hmem
              obtain rfl := List.mem_singleton.mp hmem
              exact hfirst List.mem_cons_self
            · intro hmem
              exact hdisjoint second (by simp) second ((reached_sublist _ _).mem hmem) rfl
      · obtain ⟨step, hstep, hnot⟩ := ih hrestNodup
          (fun other hmem => hne other (List.mem_cons_of_mem _ hmem)) hrest
        refine ⟨step, List.mem_append_right _ hstep, ?_⟩
        rw [reached, List.flatten_cons, List.mem_append, not_or]
        refine ⟨fun hmem => ?_, hnot⟩
        have hlevelMem : step ∈ level := by
          split at hmem
          · exact List.mem_of_mem_take hmem
          · exact hmem
        exact hdisjoint step hlevelMem step hstep rfl

end PlanGraphCompiler

/-! ## Rounds -/

namespace Graph

variable {digest : Snapshot → String} {graph : Graph} {policy : ExecutionPolicy}
  {executionGraph : Ref} {streamed : Bool}

/-- A round at a plain node executes it and goes on along its edge. -/
theorem visits_round_node (hquiet : QuietNodes graph) {cursor next : Cursor} {target : String}
    {trace : List Event} (hfanOut : graph.fanOutFor cursor.current = none)
    (htarget : graph.Resolves cursor.current target)
    (h : Runs (round digest graph streamed policy executionGraph cursor) trace (.ok next)) :
    visits trace = executed cursor.current ∧ next.current = target := by
  simp only [round, hfanOut] at h
  split at h
  next =>
    obtain ⟨own, visited, hown, rfl, last, -, hlast, rfl⟩ := runs_nodeRound h
    refine ⟨?_, htarget.resolveNext_eq _⟩
    rw [visits_append, hlast, visits_visitNode hquiet hown]
    rfl
  next => simp at h

/-- A round at a node with a fan-out executes the node, the branches in some order and the
join, and goes on where the join is told to. -/
theorem visits_round_fanOut (hquiet : QuietNodes graph) {cursor next : Cursor}
    {fanOut : ParallelFanOut} {spec : JoinSpec} {trace : List Event}
    (hnode : (graph.nodes cursor.current).isSome = true)
    (hfanOut : graph.fanOutFor cursor.current = some fanOut)
    (hjoin : (graph.nodes fanOut.joinNode).isSome = true)
    (hspec : graph.joinSpecs fanOut.joinNode = some spec) (hnext : spec.nextNode ≠ "")
    (h : Runs (round digest graph streamed policy executionGraph cursor) trace (.ok next)) :
    next.current = spec.nextNode ∧ ∃ marks, marks.Perm (fanOut.branches.flatMap executed) ∧
      visits trace = executed cursor.current ++ (marks ++ executed fanOut.joinNode) := by
  simp only [round, hfanOut] at h
  obtain ⟨visited, done, own, parallel, hown, hparallel, rfl, rfl⟩ := runs_fanOutRound hnode h
  obtain ⟨marks, hperm, hmarks⟩ := visits_runParallelFanout hquiet hjoin hparallel
  refine ⟨by simp [afterFanOut, hspec, hnext], marks, hperm, ?_⟩
  rw [visits_append, visits_visitNode hquiet hown, hmarks]
  rfl

end Graph

namespace PlanGraphCompiler

open TripGraph.Graph

/-! ## The walk over the levels -/

/-- The node before the level with this index. -/
def nodeBefore : Nat → String
  | 0 => "plan_entry"
  | levelIndex + 1 => joinNodeId levelIndex

theorem nodeBefore_not_mem (levelIndex : Nat) (steps : List PlanStep) :
    nodeBefore levelIndex ∉ levelNodes steps := by
  cases levelIndex with
  | zero => exact entry_not_mem_levelNodes steps
  | succ levelIndex => exact joinNodeId_not_mem_levelNodes levelIndex steps

theorem nodeBefore_ne_endNode (levelIndex : Nat) : nodeBefore levelIndex ≠ endNode := by
  cases levelIndex with
  | zero => decide
  | succ levelIndex => exact joinNodeId_ne_endNode levelIndex

theorem nodeBefore_ne_sink (levelIndex : Nat) : nodeBefore levelIndex ≠ "plan_sink" := by
  cases levelIndex with
  | zero => decide
  | succ levelIndex => exact joinNodeId_ne_sink levelIndex

theorem nodeBefore_injective {a b : Nat} (h : nodeBefore a = nodeBefore b) : a = b := by
  cases a with
  | zero =>
      cases b with
      | zero => rfl
      | succ b => exact absurd h (joinNodeId_ne_entry b).symm
  | succ a =>
      cases b with
      | zero => exact absurd h (joinNodeId_ne_entry a)
      | succ b => exact congrArg Nat.succ (joinNodeId_injective h)

/-- The node at which the event of an early stop is yielded. -/
def stopNode : Op → Option String
  | .yield (.earlyStop nodeId _) => some nodeId
  | _ => none

/-- The nodes at which a run stops early. -/
def earlyStops (trace : List Event) : List String := trace.filterMap fun event => stopNode event.op

/-- The run stops early at the last join or at the sink only. -/
def StopsLate (plan : Plan) (trace : List Event) : Prop :=
  ∀ nodeId ∈ earlyStops trace,
    nodeId = nodeBefore (topologicalLevels plan).length ∨ nodeId = "plan_sink"

instance (plan : Plan) (trace : List Event) : Decidable (StopsLate plan trace) :=
  inferInstanceAs (Decidable (∀ nodeId ∈ earlyStops trace, _))

theorem StopsLate.append {plan : Plan} {first second : List Event} :
    StopsLate plan (first ++ second) ↔ StopsLate plan first ∧ StopsLate plan second := by
  simp only [StopsLate, earlyStops, List.filterMap_append, List.forall_mem_append]

/-- One execution of each step of the levels, level by level, in any order within a level. -/
def InLevels (levels : List (List PlanStep)) (marks : List Visit) : Prop :=
  ∃ parts : List (List Visit), marks = parts.flatten ∧
    List.Forall₂ (fun level part => part.Perm (levelMarks level)) levels parts

theorem InLevels.nil : InLevels [] [] := ⟨[], rfl, .nil⟩

theorem InLevels.cons {level : List PlanStep} {rest : List (List PlanStep)}
    {part marks : List Visit} (hpart : part.Perm (levelMarks level)) (h : InLevels rest marks) :
    InLevels (level :: rest) (part ++ marks) := by
  obtain ⟨parts, rfl, hall⟩ := h
  exact ⟨part :: parts, rfl, .cons hpart hall⟩

section Walk

variable {deps : RuntimeDependencies} {plan : Plan} {graph : Graph}
  {digest : Snapshot → String} {policy : ExecutionPolicy} {executionGraph : Ref}

@[simp] theorem stepMarks_append (first second : List Visit) :
    stepMarks plan (first ++ second) = stepMarks plan first ++ stepMarks plan second :=
  List.filter_append _ _

theorem stepMarks_executed_of_not_mem {nodeId : String} (h : nodeId ∉ levelNodes plan.steps) :
    stepMarks plan (executed nodeId) = [] := by
  refine List.filter_eq_nil_iff.mpr fun visit hvisit => ?_
  simpa [nodeId_of_mem_executed hvisit] using h

theorem stepMarks_of_perm {level : List PlanStep} {marks : List Visit}
    (hperm : marks.Perm (levelMarks level)) (hsub : ∀ step ∈ level, step ∈ plan.steps) :
    stepMarks plan marks = marks := by
  refine List.filter_eq_self.mpr fun visit hvisit => ?_
  obtain ⟨step, hstep, hmem⟩ := List.mem_flatMap.mp (hperm.mem_iff.mp hvisit)
  rw [nodeId_of_mem_executed hmem]
  exact decide_eq_true (mem_levelNodes.mpr ⟨step, hsub step hstep, rfl⟩)

/-- Where the run may not stop it makes another round. -/
theorem runs_loop_round {budget : Nat} {cursor last : Cursor} {trace : List Event}
    (hend : cursor.current ≠ endNode) (hsink : cursor.current ≠ "plan_sink")
    (hjoin : cursor.current ≠ nodeBefore (topologicalLevels plan).length)
    (hstop : StopsLate plan trace)
    (h : Runs (loop digest graph true policy executionGraph (budget + 1) cursor) trace (.ok last)) :
    ∃ next first rest,
      Runs (round digest graph true policy executionGraph cursor) first (.ok next) ∧
      Runs (loop digest graph true policy executionGraph budget next) rest (.ok last) ∧
      trace = first ++ rest := by
  rcases runs_loop_succ hend h with ⟨error, -, -, herror⟩ | ⟨-, rfl, -⟩ | ⟨-, hrounds⟩
  · simp at herror
  · rcases hstop cursor.current (List.mem_singleton_self _) with hstopped | hstopped
    · exact absurd hstopped hjoin
    · exact absurd hstopped hsink
  · exact runs_bind_ok_iff.mp hrounds

/-- From the sink on no step is executed. -/
theorem stepMarks_loop_sink (hcompiled : Compiled deps plan graph) {budget : Nat}
    {cursor last : Cursor} {trace : List Event} (hcurrent : cursor.current = "plan_sink")
    (h : Runs (loop digest graph true policy executionGraph budget cursor) trace (.ok last)) :
    stepMarks plan (visits trace) = [] := by
  cases budget with
  | zero =>
      obtain ⟨rfl, -⟩ := runs_pure_iff.mp h
      rfl
  | succ budget =>
      rcases runs_loop_succ (hcurrent ▸ by decide) h with
        ⟨error, -, -, herror⟩ | ⟨-, rfl, -⟩ | ⟨-, hrounds⟩
      · simp at herror
      · simp [stepMarks]
      · obtain ⟨next, first, rest, hfirst, hrest, rfl⟩ := runs_bind_ok_iff.mp hrounds
        obtain ⟨hmarks, hend⟩ := visits_round_node hcompiled.quiet (hcurrent ▸ hcompiled.sinkFanOut)
          (hcurrent ▸ hcompiled.sinkEdge) hfirst
        obtain ⟨rfl, -⟩ := runs_loop_end hend hrest
        rw [List.append_nil, hmarks, hcurrent,
          stepMarks_executed_of_not_mem (sink_not_mem_levelNodes _)]

/-- From the last join on no step is executed. -/
theorem stepMarks_loop_last (hcompiled : Compiled deps plan graph) {levelIndex budget : Nat}
    {cursor last : Cursor} {trace : List Event}
    (hlaid : Laid graph (nodeBefore levelIndex) levelIndex [])
    (hcurrent : cursor.current = nodeBefore levelIndex)
    (h : Runs (loop digest graph true policy executionGraph budget cursor) trace (.ok last)) :
    stepMarks plan (visits trace) = [] := by
  cases budget with
  | zero =>
      obtain ⟨rfl, -⟩ := runs_pure_iff.mp h
      rfl
  | succ budget =>
      obtain ⟨-, hfanOut, hedge⟩ := hlaid
      rw [← hcurrent] at hfanOut hedge
      rcases runs_loop_succ (hcurrent ▸ nodeBefore_ne_endNode levelIndex) h with
        ⟨error, -, -, herror⟩ | ⟨-, rfl, -⟩ | ⟨-, hrounds⟩
      · simp at herror
      · simp [stepMarks]
      · obtain ⟨next, first, rest, hfirst, hrest, rfl⟩ := runs_bind_ok_iff.mp hrounds
        obtain ⟨hmarks, hsink⟩ := visits_round_node hcompiled.quiet hfanOut hedge hfirst
        rw [visits_append, stepMarks_append, stepMarks_loop_sink hcompiled hsink hrest, hmarks,
          hcurrent, stepMarks_executed_of_not_mem (nodeBefore_not_mem levelIndex _)]
        rfl

/-- From a level on the run executes the steps it reaches, level by level. -/
theorem stepMarks_loop (hcompiled : Compiled deps plan graph) {levels : List (List PlanStep)}
    (directly : Bool) {levelIndex budget : Nat} {cursor last : Cursor} {trace : List Event}
    (hlaid : Laid graph (nodeBefore levelIndex) levelIndex levels)
    (hindex : levelIndex + levels.length = (topologicalLevels plan).length)
    (hlevels : ∀ level ∈ levels, level ≠ [] ∧ ∀ step ∈ level, step ∈ plan.steps)
    (hcurrent : cursor.current =
      if directly then nextAfterJoin levels else nodeBefore levelIndex)
    (hbudget : 2 * levels.length ≤ budget) (hstop : StopsLate plan trace)
    (h : Runs (loop digest graph true policy executionGraph budget cursor) trace (.ok last)) :
    InLevels (reached directly levels) (stepMarks plan (visits trace)) := by
  -- behind a fan-out the run enters the next level at its first step (`directly`)
  induction levels generalizing directly levelIndex budget cursor trace with
  | nil =>
      cases directly with
      | true => exact stepMarks_loop_sink hcompiled hcurrent h ▸ .nil
      | false => exact stepMarks_loop_last hcompiled hlaid hcurrent h ▸ .nil
  | cons level rest ih =>
      obtain ⟨hlinked, hrest⟩ := hlaid
      have hrestLaid : Laid graph (nodeBefore (levelIndex + 1)) (levelIndex + 1) rest := hrest
      obtain ⟨hne, hsub⟩ := hlevels level List.mem_cons_self
      have hrestLevels := fun other hmem => hlevels other (List.mem_cons_of_mem level hmem)
      rw [List.length_cons] at hindex hbudget
      obtain ⟨budget, rfl⟩ : ∃ own, budget = own + 1 := ⟨budget - 1, by omega⟩
      obtain ⟨first, others, rfl⟩ := List.exists_cons_of_ne_nil hne
      have hfirstMem : stepNodeId first.id ∈ levelNodes (first :: others) := List.mem_cons_self
      -- a round at the first step of the level leads to the join of the level
      have hstep : ∀ {budget : Nat} {cursor : Cursor} {trace : List Event},
          cursor.current = stepNodeId first.id → 2 * rest.length ≤ budget →
          StopsLate plan trace →
          Runs (loop digest graph true policy executionGraph (budget + 1) cursor) trace
            (.ok last) →
          InLevels ([first] :: reached false rest) (stepMarks plan (visits trace)) := by
        intro budget cursor trace hcurrent hbudget hstop h
        obtain ⟨next, own, tail, hown, htail, rfl⟩ := runs_loop_round
          (hcurrent ▸ stepNodeId_ne_endNode _) (hcurrent ▸ stepNodeId_ne_sink _)
          (fun heq => nodeBefore_not_mem _ _ (heq ▸ hcurrent ▸ hfirstMem)) hstop h
        obtain ⟨hfanOut, hedge⟩ := hlinked.steps _ hfirstMem
        obtain ⟨hmarks, hnext⟩ := visits_round_node hcompiled.quiet (hcurrent ▸ hfanOut)
          (hcurrent ▸ hedge) hown
        rw [visits_append, stepMarks_append, hmarks, hcurrent]
        have hperm : (executed (stepNodeId first.id)).Perm (levelMarks [first]) := by
          simp [levelMarks]
        rw [stepMarks_of_perm hperm fun step hmem =>
          List.mem_singleton.mp hmem ▸ hsub first List.mem_cons_self]
        exact .cons hperm (ih false hrestLaid (by omega) hrestLevels hnext hbudget
          (StopsLate.append.mp hstop).2 htail)
      have hbefore : nodeBefore levelIndex ≠ nodeBefore (topologicalLevels plan).length :=
        fun heq => absurd (nodeBefore_injective heq) (by omega)
      cases directly with
      | true =>
          have htake :
              reached true ((first :: others) :: rest) = [first] :: reached false rest := by
            simp [reached]
          exact htake ▸ hstep hcurrent (by omega) hstop h
      | false =>
          replace hcurrent : cursor.current = nodeBefore levelIndex := hcurrent
          obtain ⟨next, own, tail, hown, htail, rfl⟩ := runs_loop_round
            (hcurrent ▸ nodeBefore_ne_endNode _) (hcurrent ▸ nodeBefore_ne_sink _)
            (hcurrent ▸ hbefore) hstop h
          rw [visits_append, stepMarks_append]
          have htailStop := (StopsLate.append.mp hstop).2
          by_cases hlength : (first :: others).length = 1
          · -- a level of one step: the edge to the step, then the step
            obtain rfl : others = [] := by simpa using hlength
            obtain ⟨hfanOut, hedge⟩ := hlinked.single first rfl
            obtain ⟨hmarks, hnext⟩ := visits_round_node hcompiled.quiet (hcurrent ▸ hfanOut)
              (hcurrent ▸ hedge) hown
            rw [hmarks, hcurrent]
            obtain ⟨budget, rfl⟩ : ∃ own, budget = own + 1 := ⟨budget - 1, by omega⟩
            have hrun := hstep hnext (by omega) htailStop htail
            have hprevious :=
              stepMarks_executed_of_not_mem (nodeBefore_not_mem levelIndex plan.steps)
            simpa [hprevious, reached] using hrun
          · -- a wider level: a fan-out to all steps and their join
            obtain ⟨hnext, marks, hperm, hmarks⟩ := visits_round_fanOut hcompiled.quiet
              (hcurrent ▸ hlinked.previousNode) (hcurrent ▸ hlinked.parallel hlength)
              (Option.isSome_of_mem hlinked.joinNode) hlinked.spec (nextAfterJoin_ne rest).1 hown
            have hbranches : (levelNodes (first :: others)).flatMap executed =
                levelMarks (first :: others) := by
              rw [levelNodes, List.flatMap_map, levelMarks]
            rw [hbranches] at hperm
            rw [hmarks, hcurrent, stepMarks_append, stepMarks_append, stepMarks_of_perm hperm hsub,
              stepMarks_executed_of_not_mem (nodeBefore_not_mem levelIndex _),
              stepMarks_executed_of_not_mem (joinNodeId_not_mem_levelNodes levelIndex _),
              List.nil_append, List.append_nil]
            have hreached : reached false ((first :: others) :: rest) =
                (first :: others) :: reached true rest := by
              simp only [reached, Bool.false_eq_true, if_false, hlength, ne_eq, not_false_eq_true,
                decide_true, Bool.not_false, Bool.and_self]
            rw [hreached]
            exact .cons hperm (ih true hrestLaid (by omega) hrestLevels hnext (by omega) htailStop
              htail)

end Walk

/-! ## Executing the whole plan -/

section Whole

variable {plan : Plan} {levels : List (List PlanStep)} {marks : List Visit}

theorem InLevels.perm (h : InLevels levels marks) : marks.Perm (levelMarks levels.flatten) := by
  obtain ⟨parts, rfl, hall⟩ := h
  induction hall with
  | nil => exact .refl _
  | cons hpart _ ih =>
      rw [List.flatten_cons, List.flatten_cons, levelMarks, List.flatMap_append]
      exact hpart.append ih

theorem mem_levelMarks {level : List PlanStep} {visit : Visit} :
    visit ∈ levelMarks level ↔ ∃ step ∈ level, visit = .started (stepNodeId step.id) ∨
      visit = .finished (stepNodeId step.id) := by
  simp [levelMarks, executed]

theorem started_mem_levelMarks {level : List PlanStep} {stepId : Int} :
    .started (stepNodeId stepId) ∈ levelMarks level ↔ stepId ∈ level.map PlanStep.id := by
  rw [mem_levelMarks, List.mem_map]
  constructor
  · rintro ⟨step, hstep, heq | heq⟩
    · exact ⟨step, hstep, (stepNodeId_injective (Visit.started.inj heq)).symm⟩
    · cases heq
  · rintro ⟨step, hstep, rfl⟩
    exact ⟨step, hstep, Or.inl rfl⟩

theorem finished_mem_levelMarks {level : List PlanStep} {stepId : Int} :
    .finished (stepNodeId stepId) ∈ levelMarks level ↔ stepId ∈ level.map PlanStep.id := by
  rw [mem_levelMarks, List.mem_map]
  constructor
  · rintro ⟨step, hstep, heq | heq⟩
    · cases heq
    · exact ⟨step, hstep, (stepNodeId_injective (Visit.finished.inj heq)).symm⟩
  · rintro ⟨step, hstep, rfl⟩
    exact ⟨step, hstep, Or.inr rfl⟩

theorem levelMarks_nodup {level : List PlanStep} (h : (level.map PlanStep.id).Nodup) :
    (levelMarks level).Nodup := by
  induction level with
  | nil => exact List.nodup_nil
  | cons step rest ih =>
      rw [List.map_cons, List.nodup_cons] at h
      refine List.nodup_append.mpr ⟨by simp [executed], ih h.2, ?_⟩
      rintro visit hvisit other hother rfl
      rcases List.mem_cons.mp hvisit with rfl | hvisit
      · exact h.1 (started_mem_levelMarks.mp hother)
      · obtain rfl := List.mem_singleton.mp hvisit
        exact h.1 (finished_mem_levelMarks.mp hother)

/-- An item that is not in the first part of a list lies in the second part. -/
theorem exists_eq_append_of_not_mem {α : Type} {first second before after : List α} {item : α}
    (h : first ++ second = before ++ item :: after) (hnot : item ∉ first) :
    ∃ more, before = first ++ more ∧ second = more ++ item :: after := by
  rcases List.append_eq_append_iff.mp h with ⟨more, rfl, htail⟩ | ⟨more, rfl, htail⟩
  · exact ⟨more, rfl, htail⟩
  · cases more with
    | nil => exact ⟨[], by simp, htail.symm⟩
    | cons other more =>
        obtain ⟨rfl, -⟩ := List.cons.inj htail
        exact absurd (List.mem_append_right _ List.mem_cons_self) hnot

/-- The mark of a dependency comes before the start of the step, within layered levels. -/
theorem InLevels.finished_before {finished : List Int} (h : InLevels levels marks)
    (hlayered : Layered finished levels) (hnodup : (levels.flatten.map PlanStep.id).Nodup)
    {step : PlanStep} (hstep : step ∈ levels.flatten) {dep : Int} (hdep : dep ∈ step.deps)
    {before after : List Visit}
    (hmarks : marks = before ++ .started (stepNodeId step.id) :: after) :
    dep ∈ finished ∨ .finished (stepNodeId dep) ∈ before := by
  obtain ⟨parts, rfl, hall⟩ := h
  induction hall generalizing finished before with
  | nil => exact absurd hstep List.not_mem_nil
  | @cons level part levels parts hpart hrest ih =>
      rw [List.flatten_cons, List.map_append, List.nodup_append] at hnodup
      obtain ⟨-, hrestNodup, hdisjoint⟩ := hnodup
      obtain ⟨hlevel, hrestLayered⟩ := hlayered
      rcases List.mem_append.mp hstep with hhere | hlater
      · exact Or.inl (hlevel step hhere dep hdep)
      · -- the step starts after all marks of this level
        have hnot : .started (stepNodeId step.id) ∉ part := fun hmem =>
          hdisjoint _ (started_mem_levelMarks.mp (hpart.mem_iff.mp hmem)) _
            (List.mem_map_of_mem hlater) rfl
        obtain ⟨more, rfl, htail⟩ := exists_eq_append_of_not_mem hmarks hnot
        rcases ih hrestLayered hrestNodup hlater htail with hfinished | hbefore
        · rcases List.mem_append.mp hfinished with hold | hnew
          · exact Or.inl hold
          · exact Or.inr (List.mem_append_left _
              (hpart.mem_iff.mpr (finished_mem_levelMarks.mpr hnew)))
        · exact Or.inr (List.mem_append_right _ hbefore)

/-- A plan is executed when all its levels are. -/
theorem executesPlan_of_inLevels {registry : List String} (hplan : plan.WellFormed registry)
    (h : InLevels (topologicalLevels plan) (stepMarks plan marks)) : ExecutesPlan plan marks := by
  have hflat := flatten_topologicalLevels_perm hplan
  have hnodup := topologicalLevels_ids_nodup hplan
  have hperm := h.perm
  have hmarksNodup : (stepMarks plan marks).Nodup := hperm.nodup_iff.mpr (levelMarks_nodup hnodup)
  have hnode : ∀ step ∈ plan.steps, stepNodeId step.id ∈ levelNodes plan.steps :=
    fun step hstep => mem_levelNodes.mpr ⟨step, hstep, rfl⟩
  have hcount : ∀ visit : Visit, visit.nodeId ∈ levelNodes plan.steps →
      visit ∈ levelMarks (topologicalLevels plan).flatten → marks.count visit = 1 := by
    intro visit hvisit hmem
    rw [← List.count_filter
      (p := fun visit : Visit => decide (visit.nodeId ∈ levelNodes plan.steps))
      (decide_eq_true hvisit)]
    exact List.count_eq_one_of_mem hmarksNodup (hperm.mem_iff.mpr hmem)
  constructor
  · intro step hstep
    have hid : step.id ∈ (topologicalLevels plan).flatten.map PlanStep.id :=
      List.mem_map_of_mem (hflat.mem_iff.mpr hstep)
    exact ⟨hcount _ (hnode step hstep) (started_mem_levelMarks.mpr hid),
      hcount _ (hnode step hstep) (finished_mem_levelMarks.mpr hid)⟩
  · rintro step hstep dep hdep before after rfl
    have hfilter : stepMarks plan (before ++ .started (stepNodeId step.id) :: after) =
        stepMarks plan before ++ .started (stepNodeId step.id) :: stepMarks plan after := by
      rw [stepMarks_append]
      exact congrArg _ (List.filter_cons_of_pos (decide_eq_true (hnode step hstep)))
    rcases h.finished_before (layered_topologicalLevels hplan) hnodup (hflat.mem_iff.mpr hstep)
      hdep hfilter with hfinished | hbefore
    · exact absurd hfinished List.not_mem_nil
    · exact (List.mem_filter.mp hbefore).1

/-- A plan is not executed when a step is missing. -/
theorem not_executesPlan_of_missing {step : PlanStep} (hstep : step ∈ plan.steps)
    (hnot : step.id ∉ levels.flatten.map PlanStep.id)
    (h : InLevels levels (stepMarks plan marks)) : ¬ExecutesPlan plan marks := by
  intro hexecutes
  have hmem : .started (stepNodeId step.id) ∈ marks :=
    List.count_pos_iff.mp (by rw [(hexecutes.once step hstep).1]; exact Nat.one_pos)
  have hkept : .started (stepNodeId step.id) ∈ stepMarks plan marks :=
    List.mem_filter.mpr ⟨hmem, decide_eq_true (mem_levelNodes.mpr ⟨step, hstep, rfl⟩)⟩
  exact hnot (started_mem_levelMarks.mp (h.perm.mem_iff.mp hkept))

end Whole

section Run

variable {deps : RuntimeDependencies} {strategy : MergeStrategy} {plan : Plan}
  {digest : Snapshot → String} {policy : ExecutionPolicy} {registry : List String}

/-- A run of a compiled plan executes the steps it reaches. -/
theorem inLevels_astream (hplan : plan.WellFormed registry) {state result : AgentState}
    {trace : List Event} (hstop : StopsLate plan trace)
    (h : Runs (astream digest (compile deps strategy plan) policy state) trace (.ok result)) :
    InLevels (reached false (topologicalLevels plan)) (stepMarks plan (visits trace)) := by
  have hcompiled : Compiled deps plan (compile deps strategy plan) := compiled_compile hplan
  have hflat := flatten_topologicalLevels_perm hplan
  obtain ⟨ref, first, own, ended, hloop, -, hfirst, ⟨_, -, herror, -⟩ |
    ⟨cursor, last, rfl, -, -, hlast, rfl⟩⟩ := runs_run h
  · cases herror
  have hlevels : ∀ level ∈ topologicalLevels plan, level ≠ [] :=
    fun level hlevel => ne_nil_of_mem_topologicalLevels hlevel
  have hlength := length_le_of_ne_nil hlevels
  rw [hflat.length_eq] at hlength
  have hlaid : Laid (compile deps strategy plan) (nodeBefore 0) 0 (topologicalLevels plan) :=
    hcompiled.laid
  have hmarks := stepMarks_loop hcompiled false hlaid (Nat.zero_add _)
    (fun level hlevel => ⟨hlevels level hlevel, fun step hstep =>
      hflat.mem_iff.mp (List.mem_flatten.mpr ⟨level, hlevel, hstep⟩)⟩)
    hcompiled.entry (by rw [hcompiled.maxIterations]; omega)
    (StopsLate.append.mp (StopsLate.append.mp hstop).2).1 hloop
  simpa [hfirst, hlast] using hmarks

/-- A completed run of a compiled plan executes every step once and in order exactly when
no two consecutive levels of the plan both hold several steps. -/
theorem executesPlan_iff_separated
    (hvalid : (PlanValidator.validate registry plan).success = true) {state result : AgentState}
    {trace : List Event} (hstop : StopsLate plan trace)
    (h : Runs (astream digest (compile deps strategy plan) policy state) trace (.ok result)) :
    ExecutesPlan plan (visits trace) ↔ Separated (topologicalLevels plan) := by
  have hplan := PlanValidator.wellFormed_of_validate hvalid
  have hreached := inLevels_astream hplan hstop h
  have hiff : SeparatedFrom false (topologicalLevels plan) ↔
      Separated (topologicalLevels plan) := by
    simp [SeparatedFrom]
  rw [← hiff]
  constructor
  · intro hexecutes
    by_contra hnot
    obtain ⟨step, hstep, hmissing⟩ := exists_not_mem_reached
      (topologicalLevels_ids_nodup hplan).of_map
      (fun level hlevel => ne_nil_of_mem_topologicalLevels hlevel) hnot
    have hflat := flatten_topologicalLevels_perm hplan
    refine not_executesPlan_of_missing (hflat.mem_iff.mp hstep) ?_ hreached hexecutes
    intro hid
    obtain ⟨other, hother, heq⟩ := List.mem_map.mp hid
    have hsame := List.inj_on_of_nodup_map (topologicalLevels_ids_nodup hplan)
      ((reached_sublist _ _).mem hother) hstep heq
    exact hmissing (hsame ▸ hother)
  · intro hseparated
    rw [reached_of_separated hseparated] at hreached
    exact executesPlan_of_inLevels hplan hreached

end Run

/-! ## Two plans -/

/-- The state on which a run of a plan is started. -/
def freshState (plan : Plan) : AgentState :=
  { planRef := .ofPlanState, planState := some (.fromPlan plan "default") }

/-- The run of a compiled plan on a fresh state, with tools that succeed. -/
def plainRun (registry : List String) (plan : Plan) :
    Outcome runtimeSig RaisedError AgentState (SharedObjects × Unit) :=
  let deps := plainDependencies .skip registry {}
  Components.exec {} {} (astream deps.digest (compile deps .deepMerge plan) {} (freshState plan))

theorem executesPlan_iff_separated_forkedPlan :
    ExecutesPlan forkedPlan (visits (plainRun ["weather", "budget"] forkedPlan).trace) ↔
      Separated (topologicalLevels forkedPlan) := by
  obtain ⟨result, hrun, -⟩ := Components.exists_runs_exec
    (show (plainRun ["weather", "budget"] forkedPlan).result.isOk = true by decide +kernel)
  have hvalid : (PlanValidator.validate ["weather", "budget"] forkedPlan).success = true := by
    decide +kernel
  exact executesPlan_iff_separated hvalid (by decide +kernel) hrun

/-- The plan `_build_dual_city_plan` makes for 上海 and 北京. -/
def dualCityPlan : Plan where
  goal := "规划上海、北京双城游"
  steps :=
    [⟨1, "查询上海天气", some "weather", none⟩, ⟨2, "查询北京天气", some "weather", none⟩,
      ⟨3, "规划上海市内路线", some "map", some [1]⟩, ⟨4, "规划北京市内路线", some "map", some [2]⟩,
      ⟨5, "估算上海段旅行预算", some "budget", some [1, 3]⟩,
      ⟨6, "估算北京段旅行预算", some "budget", some [2, 4]⟩]

/-- The node of step 4 of this plan is never executed. -/
theorem dualCityPlan_not_executed :
    let registry := ["weather", "map", "budget"]
    let deps := plainDependencies .skip registry {}
    (PlanValidator.validate registry dualCityPlan).success = true ∧
    ∃ trace result objects, Runs (astream deps.digest (compile deps .deepMerge dualCityPlan) {}
        (freshState dualCityPlan)) trace (.ok result) ∧
      Follows SharedObjects.Step {} trace objects ∧ earlyStops trace = [] ∧
      ¬ExecutesPlan dualCityPlan (visits trace) := by
  refine ⟨by decide +kernel, ?_⟩
  obtain ⟨result, hrun, hfollows⟩ := Components.exists_runs_exec
    (show (plainRun ["weather", "map", "budget"] dualCityPlan).result.isOk = true by decide +kernel)
  refine ⟨_, result, _, hrun, hfollows, by decide +kernel, fun hexecutes => ?_⟩
  have hmissing : (visits (plainRun ["weather", "map", "budget"] dualCityPlan).trace).count
      (.started (stepNodeId 4)) = 0 := by decide +kernel
  have honce := (hexecutes.once ⟨4, "规划北京市内路线", some "map", some [2]⟩ (by decide)).1
  exact absurd (hmissing.symm.trans honce) (by decide)

end PlanGraphCompiler

end TripGraph
