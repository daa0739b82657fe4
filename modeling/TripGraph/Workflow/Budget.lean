import TripGraph.Runtime.Components
import TripGraph.Workflow.Stages

/-! # The replanning budget

From the critic a run either finalizes or goes once more through the replanner. It goes
there as long as the critic asks for it and the state has seen fewer attempts than allowed;
the attempts it sees are those of a counter that all runs share.
-/

namespace TripGraph

open Interaction TripGraph.Graph

/-- Nothing has been judged or replanned yet. -/
structure AgentState.Fresh (state : AgentState) : Prop where
  shouldStop : state.shouldStop = false
  executionCritique : state.executionCritique = none
  replanAttempts : state.replanAttempts = 0
  replanHistory : state.replanHistory = []

/-- The replan was refused because the budget is spent. -/
def ReplanningResult.Refused (config : ReplanningConfig) (result : ReplanningResult) : Prop :=
  result.skippedReason = some s!"max_replan_attempts={config.maxReplanAttempts}"

/-- The replan was attempted, with or without success. -/
def ReplanReport.attempted (report : ReplanReport) : Bool :=
  decide (report.skippedReason = none ∨ report.skippedReason = some "replan_validation_failed")

theorem not_refused_of_head {config : ReplanningConfig} {result : ReplanningResult}
    {reason : String}
    (hreason : result.skippedReason = some reason) (hhead : reason.toList.head? ≠ some 'm') :
    ¬ result.Refused config := by
  intro hrefused
  have hsame : reason = "max_replan_attempts=" ++ toString config.maxReplanAttempts :=
    Option.some.inj (hreason.symm.trans hrefused)
  exact hhead (by simp [hsame])

theorem not_refused_of_attempted {config : ReplanningConfig} {result : ReplanningResult}
    (h : result.attempted = true) : ¬ result.Refused config := by
  rcases of_decide_eq_true h with hnone | hfailed
  · simp [ReplanningResult.Refused, hnone]
  · exact not_refused_of_head hfailed (by decide)

/-- Every replan refused for its budget comes after as many attempts as the budget allows. -/
def WithinBudget (config : ReplanningConfig) (history : List ReplanningResult) : Prop :=
  ∀ before result after, history = before ++ result :: after → result.Refused config →
    config.maxReplanAttempts ≤ before.countP fun earlier => earlier.attempted

namespace AgentWorkflowBuilder

theorem needsReplan_iff {deps : RuntimeDependencies} {state : AgentState} :
    needsReplan deps state = true ↔ ∃ critique, state.executionCritique = some critique ∧
      critique.needReplan = true ∧ state.replanAttempts < deps.replanning.maxReplanAttempts := by
  unfold needsReplan
  cases state.executionCritique <;> simp

/-! ## Laps -/

namespace Stage

/-- How many rounds lead to this stage after so many laps through the replanner. -/
def position (laps : Nat) : Stage → Nat
  | .memoryLoad => 0
  | .planner => 1
  | .compilePlan => 2
  | .router => 3 + 5 * laps
  | .execution => 4 + 5 * laps
  | .memoryPersist => 5 + 5 * laps
  | .critic => 6 + 5 * laps
  | .replanner => 7 + 5 * laps
  | .finalize => 7 + 5 * laps
  | .over => 8 + 5 * laps

/-- The stage comes before the first lap. -/
def early : Stage → Bool
  | .memoryLoad | .planner | .compilePlan => true
  | _ => false

/-- The critic has been asked in the current lap. -/
def judged : Stage → Nat
  | .replanner | .finalize | .over => 1
  | _ => 0

/-- The critic has sent the run to the replanner in the current lap. -/
def sent : Stage → Nat
  | .replanner => 1
  | _ => 0

/-- The stage leaves what steers the workflow as it is. -/
def follows : Stage → Bool
  | .memoryLoad | .planner | .compilePlan | .router | .execution | .memoryPersist => true
  | _ => false

theorem position_le (stage : Stage) (laps : Nat) : stage.position laps ≤ 8 + 5 * laps := by
  cases stage <;> simp only [position] <;> omega

theorem position_after {stage : Stage} {laps : Nat} (hfollows : stage.follows = true)
    (hearly : stage.early = true → laps = 0) (deps : RuntimeDependencies) (state : AgentState) :
    (Stage.after deps state stage).position laps = stage.position laps + 1 := by
  cases stage with
  | compilePlan => rw [hearly rfl]; rfl
  | memoryLoad | planner => rfl
  | router | execution | memoryPersist =>
      simp only [Stage.after, position]
      omega
  | _ => cases hfollows

end Stage

variable {deps : RuntimeDependencies} {maxIterations : Nat} {digest : Snapshot → String}
  {streamed : Bool} {policy : ExecutionPolicy} {executionGraph : Ref}

/-- Where a run of the workflow is, and what the critic has said on the way. -/
structure Walk (deps : RuntimeDependencies) (stage : Stage) (laps made : Nat) (trace : List Event)
    (cursor : Cursor) : Prop where
  current : cursor.current = stage.node
  made : made = stage.position laps
  early : stage.early = true → laps = 0
  shouldStop : cursor.state.shouldStop = decide (stage = .over)
  planned : stage ≠ .memoryLoad → stage ≠ .planner → cursor.state.Planned
  critique : cursor.state.executionCritique = (verdicts trace).getLast?
  judged : (verdicts trace).length = if deps.criticEnabled then laps + stage.judged else 0
  uncritical : deps.criticEnabled = false → laps = 0
  asked : ∀ index critique, (verdicts trace)[index]? = some critique → index < laps + stage.sent →
    critique.needReplan = true
  needs : stage = .replanner → needsReplan deps cursor.state = true
  done : stage = .finalize ∨ stage = .over → needsReplan deps cursor.state = false

/-- What a round does to the attempts a run has seen and to its laps. -/
inductive Moved (deps : RuntimeDependencies) (before after : AgentState) (laps : Nat) :
    List Event → Nat → Prop
  | kept {own : List Event} (attempts : after.replanAttempts = before.replanAttempts)
      (history : after.replanHistory = before.replanHistory)
      (uncounted : ∀ event ∈ own, event.op.uncounted = true) :
      Moved deps before after laps own laps
  | replanned {critique : ExecutionCritique} {result : ReplanningResult} {used : Nat}
      {first handling last : List Event} (needReplan : critique.needReplan = true)
      (left : before.replanAttempts < deps.replanning.maxReplanAttempts)
      (handled : Handled deps.replanning critique handling result)
      (attempts : after.replanAttempts = used)
      (history : after.replanHistory = before.replanHistory ++ [result])
      (uncounted : (∀ event ∈ first, event.op.uncounted = true) ∧
        ∀ event ∈ last, event.op.uncounted = true) :
      Moved deps before after laps
        (first ++ ((handling ++ [⟨.attemptsUsed, used⟩]) ++ last)) (laps + 1)

theorem uncounted_of_steers {op : Op} (h : op.steers = false) : op.uncounted = true := by
  cases op <;> simp [Op.steers, Op.uncounted] at h ⊢

theorem uncounted_of_bookkept {trace : List Event} (h : Bookkept trace) :
    ∀ event ∈ trace, event.op.uncounted = true :=
  fun event hmem => uncounted_of_steers (steers_of_bookkeeping (h event hmem))

theorem needsReplan_congr {before after : AgentState}
    (hcritique : after.executionCritique = before.executionCritique)
    (hattempts : after.replanAttempts = before.replanAttempts) :
    needsReplan deps after = needsReplan deps before := by
  rw [needsReplan, needsReplan, hcritique, hattempts]

theorem follower_of_follows {stage : Stage} (h : stage.follows = true) (state : AgentState) :
    Follower state (stage.fn deps state) := by
  cases stage with
  | memoryLoad => exact follower_memoryLoadNode state
  | planner => exact (respects_plannerNode state).mono (fun _ h => h) fun _ h => h.1
  | compilePlan => exact follower_compilePlanNode state
  | router => exact follower_routerNode state
  | execution => exact follower_executionNode state
  | memoryPersist => exact follower_memoryPersistNode state
  | _ => cases h

/-- A round before the end runs the function of the stage. -/
theorem Walk.runs_round {stage : Stage} {laps made : Nat} {trace own : List Event}
    {cursor next : Cursor} (h : Walk deps stage laps made trace cursor)
    (hmode : policy.mode ≠ .replay) (hover : stage ≠ .over)
    (hround : Runs (round digest (build deps maxIterations) streamed policy executionGraph cursor)
      own (.ok next)) :
    ∃ started after inner first last, cursor.state.Steady started ∧ after.Steady next.state ∧
      Runs (stage.fn deps started) inner (.ok after) ∧ Bookkept first ∧ Bookkept last ∧
      own = first ++ (inner ++ last) ∧ ((stage ≠ .finalize → after.shouldStop = false) →
        next.current = (stage.after deps next.state).node) := by
  have hfn : (build deps maxIterations).nodes cursor.current = some (stage.fn deps) := by
    rw [h.current, nodes_build]
  obtain ⟨after, record, versionId, inner, first, last, hinner, hnext, hcurrent, hfirst, hlast,
    rfl⟩ := runs_round_live hmode (fanOutFor_build _) hfn hround
  have hsteady : after.Steady next.state := hnext ▸ steady_finishNode _ _ _ _
  refine ⟨_, after, inner, first, last, steady_startNode _ _, hsteady, hinner, hfirst, hlast, rfl,
    fun hstop => ?_⟩
  rw [hcurrent, h.current]
  exact resolveNext_build hover fun hne => hsteady.shouldStop.trans (hstop hne)

/-- A stage that does not steer leads to the next one. -/
theorem Walk.follow {stage : Stage} {laps made : Nat} {trace own : List Event}
    {cursor next : Cursor} (h : Walk deps stage laps made trace cursor)
    (hmode : policy.mode ≠ .replay) (hfollows : stage.follows = true)
    (hround : Runs (round digest (build deps maxIterations) streamed policy executionGraph cursor)
      own (.ok next)) :
    Walk deps (stage.after deps next.state) laps (made + 1) (trace ++ own) next ∧
      Moved deps cursor.state next.state laps own laps := by
  have hover : stage ≠ .over := by rintro rfl; cases hfollows
  obtain ⟨started, after, inner, first, last, hstart, hend, hinner, hfirst, hlast, rfl, hcurrent⟩ :=
    h.runs_round hmode hover hround
  have hfollower : Follower started (stage.fn deps started) := follower_of_follows hfollows started
  have hsteady := (hstart.trans (hfollower.returns_of_runs hinner)).trans hend
  have hunsteered : Unsteered (first ++ (inner ++ last)) :=
    (unsteered_of_bookkept hfirst).append (.append
      (fun event hmem => (hfollower.asks_of_runs hinner event hmem).1)
      (unsteered_of_bookkept hlast))
  have hverdicts : verdicts (trace ++ (first ++ (inner ++ last))) = verdicts trace := by
    rw [verdicts_append, hunsteered.verdicts_eq, List.append_nil]
  have hplanned : stage ≠ .memoryLoad → next.state.Planned := by
    intro hload
    by_cases hplanner : stage = .planner
    · subst hplanner
      exact hend.planState ((respects_plannerNode started).returns_of_runs hinner).2
    · exact hsteady.planState (h.planned hload hplanner)
  have hplannedNext : Stage.after deps next.state stage ≠ .planner → next.state.Planned :=
    fun hne => hplanned fun heq => hne (heq ▸ rfl)
  have hstop : cursor.state.shouldStop = false := by simp [h.shouldStop, hover]
  have hnext := hcurrent fun _ =>
    (hstart.trans (hfollower.returns_of_runs hinner)).shouldStop.trans hstop
  refine ⟨?_, .kept hsteady.replanAttempts hsteady.replanHistory fun event hmem =>
    uncounted_of_steers (hunsteered event hmem)⟩
  have hmade := h.made
  have hearly := h.early
  have hjudged := h.judged
  have hasked := h.asked
  cases stage <;> first | exact absurd hfollows (by decide) | exact
    { current := hnext
      made := by rw [hmade, Stage.position_after hfollows hearly]
      early := by simp_all [Stage.early, Stage.after]
      shouldStop := by rw [hsteady.shouldStop, hstop]; rfl
      planned := fun _ hplanner => hplannedNext hplanner
      critique := by rw [hverdicts, hsteady.executionCritique, h.critique]
      judged := by rw [hverdicts, hjudged]; rfl
      uncritical := h.uncritical
      asked := by rw [hverdicts]; exact hasked
      needs := fun heq => by cases heq
      done := fun heq => by rcases heq with heq | heq <;> cases heq }

/-- The critic leads to the replanner or to the finalizer. -/
theorem Walk.judge {laps made : Nat} {trace own : List Event} {cursor next : Cursor}
    (h : Walk deps .critic laps made trace cursor) (hmode : policy.mode ≠ .replay)
    (hround : Runs (round digest (build deps maxIterations) streamed policy executionGraph cursor)
      own (.ok next)) :
    Walk deps (Stage.after deps next.state .critic) laps (made + 1) (trace ++ own) next ∧
      Moved deps cursor.state next.state laps own laps := by
  obtain ⟨started, after, inner, first, last, hstart, hend, hinner, hfirst, hlast, rfl, hcurrent⟩ :=
    h.runs_round hmode (by decide) hround
  have hplanned := hstart.planState (h.planned (by decide) (by decide))
  obtain ⟨hstop, hattempts, hhistory, hafter, hcritic⟩ := runs_criticNode_ok hplanned hinner
  have hnotStop : after.shouldStop = false :=
    hstop.trans (hstart.shouldStop.trans (h.shouldStop.trans (by decide)))
  have hquiet : verdicts first = [] ∧ verdicts last = [] :=
    ⟨(unsteered_of_bookkept hfirst).verdicts_eq, (unsteered_of_bookkept hlast).verdicts_eq⟩
  have hverdicts : verdicts (trace ++ (first ++ (inner ++ last))) =
      verdicts trace ++ verdicts inner := by
    simp [hquiet]
  have huncounted : ∀ event ∈ inner, event.op.uncounted = true := by
    rcases hcritic with ⟨-, rfl, -⟩ | ⟨_, _, _, -, rfl, -⟩ <;> simp [Op.uncounted]
  have hcritique : next.state.executionCritique =
      (verdicts (trace ++ (first ++ (inner ++ last)))).getLast? := by
    rw [hverdicts, hend.executionCritique]
    rcases hcritic with ⟨-, rfl, hsame⟩ | ⟨_, _, critique, -, rfl, hnew⟩
    · rw [hsame, hstart.executionCritique, h.critique, verdicts_nil, List.append_nil]
    · simp [hnew, verdicts, verdict]
  have hjudged : (verdicts (trace ++ (first ++ (inner ++ last)))).length =
      if deps.criticEnabled then laps + 1 else 0 := by
    rw [hverdicts, List.length_append, h.judged]
    rcases hcritic with ⟨hcritic, rfl, -⟩ | ⟨_, _, _, hcritic, rfl, -⟩ <;>
      simp [hcritic, Stage.judged, verdicts, verdict]
  have hasked : ∀ index critique,
      (verdicts (trace ++ (first ++ (inner ++ last))))[index]? = some critique → index < laps →
      critique.needReplan = true := by
    intro index critique hindex hlt
    have hlength := h.judged
    by_cases hcriticEnabled : deps.criticEnabled = true
    · rw [hcriticEnabled, if_pos rfl] at hlength
      rw [hverdicts, List.getElem?_append_left (by rw [hlength]; exact hlt)] at hindex
      exact h.asked index critique hindex hlt
    · have := h.uncritical (by simpa using hcriticEnabled)
      omega
  constructor
  · cases hneeds : needsReplan deps next.state with
    | true =>
        have hstage : Stage.after deps next.state .critic = .replanner := by
          simp [Stage.after, hneeds]
        rw [hstage] at hcurrent ⊢
        exact
          { current := hcurrent fun _ => hnotStop
            made := by
              rw [h.made]
              simp only [Stage.position]
              omega
            early := fun hearly => by cases hearly
            shouldStop := hend.shouldStop.trans hnotStop
            planned := fun _ _ => hend.planState hafter
            critique := hcritique
            judged := hjudged
            uncritical := h.uncritical
            asked := fun index critique hindex hlt => by
              by_cases hlast : index < laps
              · exact hasked index critique hindex hlast
              · obtain rfl : index = laps := by
                  change index < laps + 1 at hlt
                  omega
                have hcritical : deps.criticEnabled = true := by
                  by_contra hcritical
                  rw [if_neg hcritical, List.length_eq_zero_iff] at hjudged
                  simp [hjudged] at hindex
                obtain ⟨own, hown, hneed, -⟩ := needsReplan_iff.mp hneeds
                rw [hcritique, List.getLast?_eq_getElem?, hjudged, if_pos hcritical,
                  Nat.add_sub_cancel, hindex] at hown
                exact Option.some.inj hown ▸ hneed
            needs := fun _ => hneeds
            done := fun heq => by rcases heq with heq | heq <;> cases heq }
    | false =>
        have hstage : Stage.after deps next.state .critic = .finalize := by
          simp [Stage.after, hneeds]
        rw [hstage] at hcurrent ⊢
        exact
          { current := hcurrent fun _ => hnotStop
            made := by
              rw [h.made]
              simp only [Stage.position]
              omega
            early := fun hearly => by cases hearly
            shouldStop := hend.shouldStop.trans hnotStop
            planned := fun _ _ => hend.planState hafter
            critique := hcritique
            judged := hjudged
            uncritical := h.uncritical
            asked := hasked
            needs := fun heq => by cases heq
            done := fun _ => hneeds }
  · refine .kept (hend.replanAttempts.trans (hattempts.trans hstart.replanAttempts))
      (hend.replanHistory.trans (hhistory.trans hstart.replanHistory)) fun event hmem => ?_
    rcases List.mem_append.mp hmem with hmem | hmem
    · exact uncounted_of_bookkept hfirst event hmem
    rcases List.mem_append.mp hmem with hmem | hmem
    · exact huncounted event hmem
    · exact uncounted_of_bookkept hlast event hmem

/-- The replanner leads back to the router. -/
theorem Walk.replan {laps made : Nat} {trace own : List Event} {cursor next : Cursor}
    (h : Walk deps .replanner laps made trace cursor) (hmode : policy.mode ≠ .replay)
    (hround : Runs (round digest (build deps maxIterations) streamed policy executionGraph cursor)
      own (.ok next)) :
    Walk deps .router (laps + 1) (made + 1) (trace ++ own) next ∧
      Moved deps cursor.state next.state laps own (laps + 1) := by
  obtain ⟨started, after, inner, first, last, hstart, hend, hinner, hfirst, hlast, rfl, hcurrent⟩ :=
    h.runs_round hmode (by decide) hround
  obtain ⟨critique, hcritique, hneed, hleft⟩ := needsReplan_iff.mp (h.needs rfl)
  obtain ⟨handling, result, used, hhandled, rfl, hattempts, hhistory, hstop, hsame, hplanned⟩ :=
    runs_replannerNode_ok (hstart.planState (h.planned (by decide) (by decide)))
      (hstart.executionCritique.trans hcritique) hinner
  have hnotStop : after.shouldStop = false :=
    hstop.trans (hstart.shouldStop.trans (h.shouldStop.trans (by decide)))
  have hverdicts : verdicts (trace ++ (first ++ ((handling ++ [⟨.attemptsUsed, used⟩]) ++ last))) =
      verdicts trace := by
    have hused : verdicts [⟨.attemptsUsed, used⟩] = [] := rfl
    simp only [verdicts_append, (unsteered_of_bookkept hfirst).verdicts_eq,
      (unsteered_of_bookkept hlast).verdicts_eq, hhandled.verdicts_eq, hused, List.append_nil]
  -- there is a critique, so there is a critic
  have hcritical : deps.criticEnabled = true := by
    by_contra hcritical
    have hnone := h.critique
    rw [List.length_eq_zero_iff.mp (h.judged.trans (if_neg hcritical)), hcritique] at hnone
    cases hnone
  refine ⟨?_, .replanned hneed hleft hhandled (hend.replanAttempts.trans hattempts)
    (hend.replanHistory.trans (hhistory.trans (by rw [hstart.replanHistory])))
    ⟨uncounted_of_bookkept hfirst, uncounted_of_bookkept hlast⟩⟩
  exact
    { current := hcurrent fun _ => hnotStop
      made := by
        rw [h.made]
        simp only [Stage.position]
        omega
      early := fun hearly => by cases hearly
      shouldStop := hend.shouldStop.trans hnotStop
      planned := fun _ _ => hend.planState hplanned
      critique := by
        rw [hverdicts, hend.executionCritique, hsame, hstart.executionCritique, h.critique]
      judged := by
        rw [hverdicts, h.judged]
        rfl
      uncritical := fun hnot => by rw [hnot] at hcritical; cases hcritical
      asked := by
        rw [hverdicts]
        exact h.asked
      needs := fun heq => by cases heq
      done := fun heq => by rcases heq with heq | heq <;> cases heq }

/-- The finalizer ends the run. -/
theorem Walk.finish {laps made : Nat} {trace own : List Event} {cursor next : Cursor}
    (h : Walk deps .finalize laps made trace cursor) (hmode : policy.mode ≠ .replay)
    (hround : Runs (round digest (build deps maxIterations) streamed policy executionGraph cursor)
      own (.ok next)) :
    Walk deps .over laps (made + 1) (trace ++ own) next ∧
      Moved deps cursor.state next.state laps own laps := by
  obtain ⟨started, after, inner, first, last, hstart, hend, hinner, hfirst, hlast, rfl, hcurrent⟩ :=
    h.runs_round hmode (by decide) hround
  obtain ⟨rfl, hstop, hattempts, hhistory, hcritique, hplanned⟩ := runs_finalizeNode_ok hinner
  have hverdicts : verdicts (trace ++ (first ++ ([] ++ last))) = verdicts trace := by
    simp [(unsteered_of_bookkept hfirst).verdicts_eq, (unsteered_of_bookkept hlast).verdicts_eq]
  have hsameCritique : next.state.executionCritique = cursor.state.executionCritique :=
    hend.executionCritique.trans (hcritique.trans hstart.executionCritique)
  have hsameAttempts : next.state.replanAttempts = cursor.state.replanAttempts :=
    hend.replanAttempts.trans (hattempts.trans hstart.replanAttempts)
  refine ⟨?_, .kept hsameAttempts
    (hend.replanHistory.trans (hhistory.trans hstart.replanHistory)) fun event hmem => ?_⟩
  · exact
      { current := hcurrent fun hne => absurd rfl hne
        made := by
          rw [h.made]
          simp only [Stage.position]
          omega
        early := fun hearly => by cases hearly
        shouldStop := hend.shouldStop.trans hstop
        planned := fun _ _ => hend.planState (hplanned ▸
          hstart.planState (h.planned (by decide) (by decide)))
        critique := by rw [hverdicts, hsameCritique, h.critique]
        judged := by
          rw [hverdicts, h.judged]
          rfl
        uncritical := h.uncritical
        asked := by
          rw [hverdicts]
          exact h.asked
        needs := fun heq => by cases heq
        done := fun _ =>
          (needsReplan_congr hsameCritique hsameAttempts).trans (h.done (Or.inl rfl)) }
  · rw [List.nil_append] at hmem
    exact (List.mem_append.mp hmem).elim (uncounted_of_bookkept hfirst event)
      (uncounted_of_bookkept hlast event)

/-- Before its end a walk goes on to a further stage. -/
theorem Walk.next {stage : Stage} {laps made : Nat} {trace own : List Event}
    {cursor next : Cursor} (h : Walk deps stage laps made trace cursor)
    (hmode : policy.mode ≠ .replay) (hover : stage ≠ .over)
    (hround : Runs (round digest (build deps maxIterations) streamed policy executionGraph cursor)
      own (.ok next)) :
    ∃ stage' laps', Walk deps stage' laps' (made + 1) (trace ++ own) next ∧
      Moved deps cursor.state next.state laps own laps' := by
  by_cases hfollows : stage.follows = true
  · exact ⟨_, _, h.follow hmode hfollows hround⟩
  · cases stage with
    | critic => exact ⟨_, _, h.judge hmode hround⟩
    | replanner => exact ⟨_, _, h.replan hmode hround⟩
    | finalize => exact ⟨_, _, h.finish hmode hround⟩
    | «over» => exact absurd rfl hover
    | _ => exact absurd rfl hfollows

theorem walk_start {state : AgentState} (hfresh : state.Fresh) :
    Walk deps .memoryLoad 0 0 []
      (startCursor (build deps maxIterations) policy executionGraph state) where
  current := rfl
  made := rfl
  early _ := rfl
  shouldStop := hfresh.shouldStop
  planned hload := absurd rfl hload
  critique := hfresh.executionCritique
  judged := by simp [Stage.judged]
  uncritical _ := rfl
  asked _ _ hindex := by simp at hindex
  needs h := by cases h
  done h := by rcases h with h | h <;> cases h

/-- A run is a walk, and what holds at its start and survives every round holds on the way. -/
theorem exists_walk {I : Nat → List Event → AgentState → Prop} {state : AgentState}
    (hmode : policy.mode ≠ .replay) (hfresh : state.Fresh)
    (hstart : I 0 [] (startCursor (build deps maxIterations) policy executionGraph state).state)
    (hnext : ∀ {laps laps' trace own before after}, I laps trace before →
      Moved deps before after laps own laps' → I laps' (trace ++ own) after)
    {made : Nat} {trace : List Event} {cursor : Cursor}
    (h : Rounds digest (build deps maxIterations) streamed policy executionGraph
      (startCursor (build deps maxIterations) policy executionGraph state) made trace cursor) :
    ∃ stage laps, Walk deps stage laps made trace cursor ∧ I laps trace cursor.state := by
  induction h with
  | start => exact ⟨_, _, walk_start hfresh, hstart⟩
  | next before current goesOn round ih =>
      obtain ⟨stage, laps, hwalk, hinv⟩ := ih
      have hover : stage ≠ .over := by
        rintro rfl
        simp [stops_build, hwalk.shouldStop] at goesOn
      obtain ⟨stage', laps', hwalk', hmoved⟩ := hwalk.next hmode hover round
      exact ⟨stage', laps', hwalk', hnext hinv hmoved⟩

/-! ## The counter -/

/-- What an operation reads of a counter and makes of it. -/
def counted (count : Nat) (event : Event) (next : Nat) : Prop :=
  match event with
  | ⟨.attemptsUsed, used⟩ => used = count ∧ next = count
  | ⟨.countAttempt, _⟩ => next = count + 1
  | _ => next = count

/-- The counter of the controller from one operation to the next. Other runs may raise it in
between. -/
def CounterStep (others : Bool) (count : Nat) (event : Event) (next : Nat) : Prop :=
  ∃ raised, count ≤ raised ∧ (others = false → raised = count) ∧ counted raised event next

theorem controllerAttempts_answer {objects : SharedObjects} {op : Op}
    {answered : op.Reply × SharedObjects} (h : objects.answer op = some answered)
    (huncounted : op.uncounted = true) :
    answered.2.controllerAttempts = objects.controllerAttempts := by
  cases op with
  | syncPlanGraph state =>
      cases h
      simp only [SharedObjects.syncPlanGraph]
      split <;> rfl
  | updatePlanNode =>
      cases h
      simp only [SharedObjects.updatePlanNode]
      split
      · rfl
      · split <;> rfl
  | nextReplayRecord =>
      cases h
      simp only [SharedObjects.nextReplayRecord]
      split <;> rfl
  | _ => cases h <;> first | rfl | cases huncounted

theorem counted_of_uncounted {event : Event} (h : event.op.uncounted = true) {count next : Nat} :
    counted count event next ↔ next = count := by
  obtain ⟨op, reply⟩ := event
  cases op <;> first | rfl | cases h

theorem counterStep_of_step {others : Bool} {objects next : SharedObjects} {event : Event}
    (h : SharedObjects.Step objects event next) :
    CounterStep others objects.controllerAttempts event next.controllerAttempts := by
  refine ⟨_, le_rfl, fun _ => rfl, ?_⟩
  by_cases huncounted : event.op.uncounted = true
  · rw [counted_of_uncounted huncounted]
    unfold SharedObjects.Step at h
    split at h
    next hanswer =>
      obtain ⟨-, rfl⟩ := h
      exact controllerAttempts_answer hanswer huncounted
    next => rw [h]
  · obtain ⟨op, reply⟩ := event
    cases op with
    | attemptsUsed =>
        obtain ⟨hreply, rfl⟩ := h
        exact ⟨hreply, rfl⟩
    | countAttempt =>
        obtain ⟨-, rfl⟩ := h
        rfl
    | _ => exact absurd rfl huncounted
theorem counter_of_follows {others : Bool} {objects last : SharedObjects} {trace : List Event}
    (h : Follows SharedObjects.Step objects trace last) :
    Follows (CounterStep others) objects.controllerAttempts trace last.controllerAttempts := by
  induction h with
  | nil => exact .nil _
  | cons head tail ih => exact .cons (counterStep_of_step head) ih

theorem counter_of_uncounted {others : Bool} {count next : Nat} {trace : List Event}
    (huncounted : ∀ event ∈ trace, event.op.uncounted = true)
    (h : Follows (CounterStep others) count trace next) :
    count ≤ next ∧ (others = false → next = count) := by
  refine h.preserves (I := fun now => count ≤ now ∧ (others = false → now = count)) ?_
    ⟨le_rfl, fun _ => rfl⟩
  rintro now event next hmem ⟨hle, halone⟩ ⟨raised, hraised, hsame, hcounted⟩
  obtain rfl := (counted_of_uncounted (huncounted event hmem)).mp hcounted
  exact ⟨hle.trans hraised, fun hothers => (hsame hothers).trans (halone hothers)⟩

theorem counter_of_attemptsUsed {others : Bool} {count used next : Nat} {rest : List Event}
    (h : Follows (CounterStep others) count (⟨.attemptsUsed, used⟩ :: rest) next) :
    count ≤ used ∧ (others = false → used = count) ∧
      Follows (CounterStep others) used rest next := by
  obtain ⟨middle, ⟨raised, hraised, hsame, rfl, rfl⟩, hrest⟩ := Follows.cons_iff.mp h
  exact ⟨hraised, hsame, hrest⟩

/-- What a round does to the counter, the attempts the run has seen and its laps. -/
inductive Counted (config : ReplanningConfig) (others : Bool) (before after : AgentState)
    (laps count : Nat) : Nat → Nat → Prop
  | kept {next : Nat} (attempts : after.replanAttempts = before.replanAttempts)
      (history : after.replanHistory = before.replanHistory) (grows : count ≤ next)
      (alone : others = false → next = count) :
      Counted config others before after laps count laps next
  | disabled {next : Nat} {result : ReplanningResult}
      (left : before.replanAttempts < config.maxReplanAttempts) (enabled : config.enabled = false)
      (seen : count ≤ after.replanAttempts) (grows : after.replanAttempts ≤ next)
      (alone : others = false → next = count)
      (history : after.replanHistory = before.replanHistory ++ [result])
      (skipped : ¬ result.Refused config) :
      Counted config others before after laps count (laps + 1) next
  | refused {next : Nat} {result : ReplanningResult}
      (left : before.replanAttempts < config.maxReplanAttempts) (enabled : config.enabled = true)
      (spent : config.maxReplanAttempts ≤ after.replanAttempts)
      (seen : count ≤ after.replanAttempts) (grows : after.replanAttempts ≤ next)
      (alone : others = false → next = count)
      (history : after.replanHistory = before.replanHistory ++ [result])
      (skipped : result.Refused config) :
      Counted config others before after laps count (laps + 1) next
  | attempted {next : Nat} {result : ReplanningResult}
      (left : before.replanAttempts < config.maxReplanAttempts) (enabled : config.enabled = true)
      (unspent : count < config.maxReplanAttempts)
      (seen : count < after.replanAttempts) (grows : after.replanAttempts ≤ next)
      (alone : others = false → next = count + 1)
      (history : after.replanHistory = before.replanHistory ++ [result])
      (notSkipped : result.attempted = true) :
      Counted config others before after laps count (laps + 1) next

/-- The controller that handles a critique leaves its counter as the case says. -/
theorem Moved.counted {others : Bool} {before after : AgentState} {laps laps' count next : Nat}
    {own : List Event} (h : Moved deps before after laps own laps')
    (hfollows : Follows (CounterStep others) count own next) :
    Counted deps.replanning others before after laps count laps' next := by
  cases h with
  | kept attempts history uncounted =>
      obtain ⟨hgrows, halone⟩ := counter_of_uncounted uncounted hfollows
      exact .kept attempts history hgrows halone
  | @replanned critique result used first handling last needReplan left handled attempts history
      uncounted =>
      obtain ⟨entered, hfirst, hrest⟩ := Follows.append_iff.mp hfollows
      obtain ⟨left', hinner, hlast⟩ := Follows.append_iff.mp hrest
      obtain ⟨answered, hhandling, hused⟩ := Follows.append_iff.mp hinner
      obtain ⟨hentered, hentered'⟩ := counter_of_uncounted uncounted.1 hfirst
      obtain ⟨hleft, hleft'⟩ := counter_of_uncounted uncounted.2 hlast
      obtain ⟨hseen, hseen', hnil⟩ := counter_of_attemptsUsed hused
      obtain rfl := Follows.nil_iff.mp hnil
      subst attempts
      -- how often the counter is read depends on how far the controller has come
      cases handled with
      | unasked hnot => rw [hnot] at needReplan; cases needReplan
      | disabled _ enabled skipped =>
          obtain ⟨hread, hread', hnil⟩ := counter_of_attemptsUsed hhandling
          obtain rfl := Follows.nil_iff.mp hnil
          exact .disabled left enabled (hentered.trans (hread.trans hseen)) hleft
            (fun
              hothers => by rw [hleft' hothers, hseen' hothers, hread' hothers, hentered' hothers])
            history (not_refused_of_head skipped (by decide))
      | refused _ enabled spent skipped =>
          obtain ⟨hread, hread', hsecond⟩ := counter_of_attemptsUsed hhandling
          obtain ⟨hagain, hagain', hnil⟩ := counter_of_attemptsUsed hsecond
          obtain rfl := Follows.nil_iff.mp hnil
          exact .refused left enabled (spent.trans (hagain.trans hseen))
            (hentered.trans (hread.trans (hagain.trans hseen))) hleft
            (fun hothers => by rw [hleft' hothers, hseen' hothers, hagain' hothers, hread' hothers,
              hentered' hothers]) history skipped
      | @attempted used' again calls _ _ enabled unspent calls_uncounted notSkipped =>
          obtain ⟨hread, hread', hrest⟩ := counter_of_attemptsUsed hhandling
          obtain ⟨raised, ⟨counter, hcounter, hcounter', rfl⟩, hcalls⟩ := Follows.cons_iff.mp hrest
          obtain ⟨called, hcalled, hagain⟩ := Follows.append_iff.mp hcalls
          obtain ⟨hle, hle'⟩ := counter_of_uncounted (fun event hmem =>
            (calls_uncounted event hmem).1) hcalled
          obtain ⟨hread₂, hread₂', hnil⟩ := counter_of_attemptsUsed hagain
          obtain rfl := Follows.nil_iff.mp hnil
          exact .attempted left enabled (by omega) (by omega) hleft
            (fun hothers => by rw [hleft' hothers, hseen' hothers, hread₂' hothers, hle' hothers,
              hcounter' hothers, hread' hothers, hentered' hothers]) history
            (decide_eq_true notSkipped)

/-! ## The laps are bounded -/

/-- The attempts a run has seen, as far as they bound its laps. -/
structure Spent (config : ReplanningConfig) (count laps now : Nat) (state : AgentState) : Prop where
  seen : state.replanAttempts ≤ now
  enabled : config.enabled = true → laps ≤ config.maxReplanAttempts ∧
    (laps ≤ state.replanAttempts ∨ config.maxReplanAttempts ≤ state.replanAttempts)
  disabled : config.enabled = false → now = count ∧
    (laps = 0 ∧ state.replanAttempts = 0 ∨ state.replanAttempts = count) ∧
    (config.maxReplanAttempts ≤ count → laps ≤ config.maxReplanAttempts)

theorem Spent.counted {config : ReplanningConfig} {count laps laps' now next : Nat}
    {before after : AgentState} (h : Spent config count laps now before)
    (hcounted : Counted config config.enabled before after laps now laps' next) :
    Spent config count laps' next after := by
  obtain ⟨seen, henabled, hdisabled⟩ := h
  cases hcounted with
  | kept attempts history grows alone =>
      rw [← attempts] at seen henabled hdisabled
      exact ⟨seen.trans grows, henabled, fun hnot =>
        ⟨(alone hnot).trans (hdisabled hnot).1, (hdisabled hnot).2⟩⟩
  | disabled left enabled seen' grows alone history skipped =>
      obtain ⟨hnow, hattempts, hbound⟩ := hdisabled enabled
      have hnext := alone enabled
      exact ⟨grows, fun hyes => absurd (hyes.symm.trans enabled) (by decide),
        fun _ => ⟨by omega, by omega, by omega⟩⟩
  | refused left enabled spent seen' grows alone history skipped =>
      obtain ⟨hbound, hattempts⟩ := henabled enabled
      exact ⟨grows, fun _ => ⟨by omega, Or.inr spent⟩,
        fun hnot => absurd (hnot.symm.trans enabled) (by decide)⟩
  | attempted left enabled unspent seen' grows alone history notSkipped =>
      obtain ⟨hbound, hattempts⟩ := henabled enabled
      exact ⟨grows, fun _ => ⟨by omega, by omega⟩,
        fun hnot => absurd (hnot.symm.trans enabled) (by decide)⟩

variable {state result : AgentState} {trace : List Event}

/-- A run that ends is a walk whose last state tells whether it has ended in time. -/
theorem exists_walk_of_runs {I : Nat → List Event → AgentState → Prop}
    (hmode : policy.mode ≠ .replay) (hfresh : state.Fresh)
    (hstart : ∀ ref, I 0 [] (startCursor (build deps maxIterations) policy ref state).state)
    (hnext : ∀ {laps laps' trace own before after}, I laps trace before →
      Moved deps before after laps own laps' → I laps' (trace ++ own) after)
    (h : Runs (run digest (build deps maxIterations) streamed policy state) trace (.ok result)) :
    ∃ first own last stage laps made cursor, Bookkept first ∧ Bookkept last ∧
      trace = first ++ (own ++ last) ∧ Walk deps stage laps made own cursor ∧
      I laps own cursor.state ∧ result.shouldStop = cursor.state.shouldStop ∧
      made ≤ maxIterations ∧ (stage ≠ .over → made = maxIterations) := by
  obtain ⟨ref, made, first, own, last, tail, cursor, ended, hmade, hrounds, hends, hresult, hfirst,
    htail, -, -, rfl⟩ := exists_rounds_of_runs h
  obtain ⟨stage, laps, hwalk, hinv⟩ := exists_walk (I := I) hmode hfresh (hstart ref) hnext hrounds
  cases hends with
  | exhausted spent =>
      cases hresult
      exact ⟨first, own, tail, stage, laps, made, cursor, hfirst, htail, by simp, hwalk, hinv, rfl,
        hmade, fun _ => spent⟩
  | atEnd current =>
      rw [hwalk.current] at current
      cases stage <;> exact absurd current (by decide)
  | stopped current stops =>
      cases hresult
      rw [stops_build, hwalk.shouldStop, Except.ok.injEq, decide_eq_true_iff] at stops
      exact ⟨first, own, _, stage, laps, made, cursor, hfirst,
        bookkept_append.mpr ⟨bookkept_emitted _, htail⟩, rfl, hwalk, hinv, rfl, hmade, fun hover =>
          absurd stops hover⟩
  | checkRaised error => cases hresult
  | roundRaised error => cases hresult

/-- With enough rounds for the budget, a run ends through the finalizer if and only if
replanning is enabled, or the counter it shares stands at the budget already, or the critic
is off or is content in time. -/
theorem finalizes_iff {count last : Nat} (hmode : policy.mode ≠ .replay) (hfresh : state.Fresh)
    (hmax : 9 + 5 * deps.replanning.maxReplanAttempts ≤ maxIterations)
    (h : Runs (run digest (build deps maxIterations) streamed policy state) trace (.ok result))
    (hcount : Follows (CounterStep deps.replanning.enabled) count trace last) :
    result.shouldStop = true ↔ deps.replanning.enabled = true ∨
      deps.replanning.maxReplanAttempts ≤ count ∨ deps.criticEnabled = false ∨
      ∃ index critique, (verdicts trace)[index]? = some critique ∧ critique.needReplan = false ∧
        7 + 5 * index < maxIterations := by
  obtain ⟨first, own, rest, stage, laps, made, cursor, hfirst, hrest, rfl, hwalk, hspent, hstop,
      hmade, hexhausted⟩ := exists_walk_of_runs (I := fun laps trace state => ∀ start now,
        Follows (CounterStep deps.replanning.enabled) start trace now →
        Spent deps.replanning start laps now state) hmode hfresh
      (fun ref start now hnow => by
        obtain rfl := Follows.nil_iff.mp hnow
        have hzero := hfresh.replanAttempts
        exact ⟨by simp [startCursor, hzero], fun _ => ⟨Nat.zero_le _, Or.inl (Nat.zero_le _)⟩,
          fun _ => ⟨rfl, Or.inl ⟨rfl, hzero⟩, fun _ => Nat.zero_le _⟩⟩)
      (fun hinv hmoved start now hnow => by
        obtain ⟨middle, hbefore, hown⟩ := Follows.append_iff.mp hnow
        exact (hinv start middle hbefore).counted (hmoved.counted hown)) h
  obtain ⟨entered, henter, hbetween⟩ := Follows.append_iff.mp hcount
  obtain ⟨now, hown, -⟩ := Follows.append_iff.mp hbetween
  obtain ⟨hentered, hentered'⟩ := counter_of_uncounted (uncounted_of_bookkept hfirst) henter
  obtain ⟨hseen, henabled, hdisabled⟩ := hspent entered now hown
  have hverdicts : verdicts (first ++ (own ++ rest)) = verdicts own := by
    simp only [verdicts_append, (unsteered_of_bookkept hfirst).verdicts_eq,
      (unsteered_of_bookkept hrest).verdicts_eq, List.nil_append, List.append_nil]
  rw [hstop, hverdicts, hwalk.shouldStop, decide_eq_true_iff]
  constructor
  -- the run is over: were none of the four true, its last critic would have sent it on
  · rintro rfl
    by_contra hnone
    simp only [not_or, not_exists, not_and] at hnone
    obtain ⟨hoff, hleft, hcritic, hcontent⟩ := hnone
    replace hoff : deps.replanning.enabled = false := by simpa using hoff
    replace hcritic : deps.criticEnabled = true := by simpa using hcritic
    have hlength : (verdicts own).length = laps + 1 := by
      rw [hwalk.judged, if_pos hcritic]
      rfl
    obtain ⟨critique, hcritique⟩ : ∃ critique, (verdicts own)[laps]? = some critique :=
      Option.isSome_iff_exists.mp (by simp [hlength])
    have hlast : cursor.state.executionCritique = some critique := by
      rw [hwalk.critique, List.getLast?_eq_getElem?, hlength, Nat.add_sub_cancel, hcritique]
    have hattempts : cursor.state.replanAttempts < deps.replanning.maxReplanAttempts := by
      have := hdisabled hoff
      have := hentered' hoff
      omega
    have hneed : critique.needReplan = false := by
      by_contra hneed
      have hgo := hwalk.done (Or.inr rfl)
      rw [needsReplan_iff.mpr ⟨critique, hlast, by simpa using hneed, hattempts⟩] at hgo
      cases hgo
    have hposition := hwalk.made
    simp only [Stage.position] at hposition
    exact hcontent laps critique hcritique hneed (by omega)
  -- the run is not over, so all rounds are used; each of the four bounds the laps below that
  · intro hbound
    by_contra hover
    obtain rfl := hexhausted hover
    have hposition := hwalk.made
    have hle := stage.position_le laps
    rcases hbound with hon | hspent | hcritic | ⟨index, critique, hindex, hneed, hearly⟩
    · have := (henabled hon).1
      omega
    · have : laps ≤ deps.replanning.maxReplanAttempts := by
        by_cases hon : deps.replanning.enabled = true
        · exact (henabled hon).1
        · exact (hdisabled (by simpa using hon)).2.2 (hspent.trans hentered)
      omega
    · have := hwalk.uncritical hcritic
      omega
    · have hpast : laps + stage.sent ≤ index := by
        by_contra hlt
        have hasked := hwalk.asked index critique hindex (Nat.lt_of_not_le hlt)
        rw [hneed] at hasked
        cases hasked
      have hwithin := (List.getElem?_eq_some_iff.mp hindex).1
      rw [hwalk.judged] at hwithin
      split at hwithin
      · cases stage <;>
          simp only [Stage.position, Stage.sent, Stage.judged] at hposition hpast hwithin
        all_goals first | omega | exact hover rfl
      · simp at hwithin

theorem fresh_initialState (query sessionId : String) : (initialState query sessionId).Fresh :=
  ⟨rfl, rfl, rfl, rfl⟩

/-- A critic that is never content. -/
def demandingCritic (plan : Plan) : Components where
  createPlan _ := .ok plan
  evaluate _ _ := .ok ⟨0, "incomplete", true, false, []⟩

/-- A query under such a critic, with rounds for a budget of one replan. -/
def demandingQuery (config : ReplanningConfig) (objects : SharedObjects) :
    Outcome runtimeSig RaisedError AgentState (SharedObjects × Unit) :=
  let deps := plainDependencies .skip ["weather"] config
  (demandingCritic weatherPlan).exec objects (astream deps.digest (build deps 14) {}
    (initialState "查询上海天气" "default"))

theorem finalizes_demandingQuery :
    let deps := plainDependencies .skip ["weather"] { enabled := true, maxReplanAttempts := 1 }
    ∃ trace result, Runs (astream deps.digest (build deps 14) {}
      (initialState "查询上海天气" "default")) trace (.ok result) ∧ result.shouldStop = true := by
  obtain ⟨result, hrun, hfollows⟩ := Components.exists_runs_exec
    (show (demandingQuery { enabled := true, maxReplanAttempts := 1 } {}).result.isOk = true by
      decide +kernel)
  exact ⟨_, result, hrun, (finalizes_iff (by decide) (fresh_initialState _ _) (by decide) hrun
    (counter_of_follows hfollows)).mpr (Or.inl rfl)⟩

/-- With replanning disabled such a critic keeps the run going until its rounds are used up. -/
theorem demandingQuery_exhausts :
    let deps := plainDependencies .skip ["weather"] { enabled := false, maxReplanAttempts := 1 }
    9 + 5 * deps.replanning.maxReplanAttempts ≤ (build deps 14).maxIterations ∧
    ∃ trace result objects, Runs (astream deps.digest (build deps 14) {}
        (initialState "查询上海天气" "default")) trace (.ok result) ∧
      Follows SharedObjects.Step {} trace objects ∧ result.shouldStop = false := by
  refine ⟨by decide, ?_⟩
  obtain ⟨result, hrun, hfollows, hstop⟩ := Components.exists_runs_exec_map
    (show (demandingQuery { enabled := false, maxReplanAttempts := 1 } {}).result.map
      AgentState.shouldStop = .ok false by decide +kernel)
  exact ⟨_, result, _, hrun, hfollows, hstop⟩

/-! ## Runs that share a controller -/

/-- How many replans were attempted in a trace. -/
def attemptsMade (trace : List Event) : Nat :=
  trace.countP fun event => decide (event.op = .countAttempt)

theorem controllerAttempts_of_follows {objects last : SharedObjects} {trace : List Event}
    (h : Follows SharedObjects.Step objects trace last) :
    last.controllerAttempts = objects.controllerAttempts + attemptsMade trace := by
  induction h with
  | nil => rfl
  | @cons first middle last event trace head tail ih =>
      rw [ih]
      obtain ⟨raised, -, hsame, hcounted⟩ : CounterStep false _ event _ := counterStep_of_step head
      obtain rfl := hsame rfl
      obtain ⟨op, reply⟩ := event
      cases op with
      | countAttempt =>
          have hnext : middle.controllerAttempts = first.controllerAttempts + 1 := hcounted
          simp only [attemptsMade, hnext, List.countP_cons, decide_true, if_true]
          omega
      | attemptsUsed =>
          have hnext : middle.controllerAttempts = first.controllerAttempts := hcounted.2
          simp [attemptsMade, hnext]
      | _ =>
          have hnext : middle.controllerAttempts = first.controllerAttempts := hcounted
          simp [attemptsMade, hnext]

theorem attemptsMade_of_uncounted {trace : List Event}
    (h : ∀ event ∈ trace, event.op.uncounted = true) : attemptsMade trace = 0 := by
  refine List.countP_eq_zero.mpr fun event hmem hcount => ?_
  have := h event hmem
  rw [of_decide_eq_true hcount] at this
  cases this

/-- The attempts a run has seen and the replans it was refused. -/
structure Budgeted (config : ReplanningConfig) (count laps now : Nat) (state : AgentState) :
    Prop where
  fresh : laps = 0 → state.replanAttempts = 0 ∧ state.replanHistory = [] ∧ now = count
  seen : laps ≠ 0 → state.replanAttempts = now
  grows : count ≤ now
  unrefused : config.enabled = false ∨ count < config.maxReplanAttempts →
    ∀ result ∈ state.replanHistory, ¬ result.Refused config
  refusedFirst : config.enabled = true → config.maxReplanAttempts ≤ count → laps ≠ 0 →
    ∃ result rest, state.replanHistory = result :: rest ∧ result.Refused config

theorem Budgeted.counted {config : ReplanningConfig} {count laps laps' now next : Nat}
    {before after : AgentState} (h : Budgeted config count laps now before)
    (hcounted : Counted config false before after laps now laps' next) :
    Budgeted config count laps' next after := by
  obtain ⟨hstart, hseen, hgrows, hunrefused, hfirst⟩ := h
  cases hcounted with
  | kept attempts history grows alone =>
      obtain rfl := alone rfl
      rw [← attempts] at hstart hseen
      rw [← history] at hstart hunrefused hfirst
      exact ⟨hstart, hseen, hgrows, hunrefused, hfirst⟩
  | disabled left enabled seen grows alone history skipped =>
      obtain rfl := alone rfl
      refine ⟨fun h => by simp at h, fun _ => by omega, hgrows, fun hcase result hmem => ?_,
        fun hyes => absurd (hyes.symm.trans enabled) (by decide)⟩
      rw [history, List.mem_append, List.mem_singleton] at hmem
      rcases hmem with hmem | rfl
      · exact hunrefused hcase result hmem
      · exact skipped
  | @refused _ refused left enabled spent seen grows alone history skipped =>
      obtain rfl := alone rfl
      refine ⟨fun
        h => by simp at h, fun _ => by omega, hgrows, fun hcase => ?_, fun _ hspent _ => ?_⟩
      · have hcount : count < config.maxReplanAttempts :=
          hcase.resolve_left (by simp [enabled])
        rcases Nat.eq_zero_or_pos laps with hzero | hpos
        · have := (hstart hzero).2.2
          omega
        · have := hseen hpos.ne'
          omega
      · rcases Nat.eq_zero_or_pos laps with hzero | hpos
        · exact ⟨refused, [], by rw [history, (hstart hzero).2.1, List.nil_append], skipped⟩
        · obtain ⟨first, rest, hhistory, hrefused⟩ := hfirst enabled hspent hpos.ne'
          exact ⟨first, rest ++ [refused], by rw [history, hhistory, List.cons_append], hrefused⟩
  | attempted left enabled unspent seen grows alone history notSkipped =>
      obtain rfl := alone rfl
      refine ⟨fun h => by simp at h, fun _ => by omega, by omega, fun hcase result hmem => ?_,
        fun _ hspent => by omega⟩
      rw [history, List.mem_append, List.mem_singleton] at hmem
      rcases hmem with hmem | rfl
      · exact hunrefused hcase result hmem
      · exact not_refused_of_attempted notSkipped

/-- A run is refused a replan for the budget only after as many attempts of its own, if and
only if the runs before it left the shared counter below the budget, or it is never sent to
the replanner. -/
theorem withinBudget_iff {state : AgentState} {earlier trace : List Event}
    {objects last : SharedObjects} {made : Nat} {cursor : Cursor} (hmode : policy.mode ≠ .replay)
    (hfresh : state.Fresh) (hearlier : Follows SharedObjects.Step {} earlier objects)
    (hrounds : Rounds digest (build deps maxIterations) streamed policy executionGraph
      (startCursor (build deps maxIterations) policy executionGraph state) made trace cursor)
    (hshared : Follows SharedObjects.Step objects trace last) :
    WithinBudget deps.replanning cursor.state.replanHistory ↔
      deps.replanning.enabled = false ∨ deps.replanning.maxReplanAttempts = 0 ∨
      attemptsMade earlier < deps.replanning.maxReplanAttempts ∨ made < 8 ∨
      ∀ critique ∈ (verdicts trace).head?, critique.needReplan = false := by
  obtain ⟨stage, laps, hwalk, hbudgeted⟩ := exists_walk (I := fun laps trace state =>
      ∀ count now, Follows (CounterStep false) count trace now →
        Budgeted deps.replanning count laps now state) hmode hfresh
    (fun count now hnow => by
      obtain rfl := Follows.nil_iff.mp hnow
      exact ⟨fun _ => ⟨hfresh.replanAttempts, hfresh.replanHistory, rfl⟩, fun h => absurd rfl h,
        le_rfl, fun _ => by simp [startCursor, hfresh.replanHistory], fun _ _ h => absurd rfl h⟩)
    (fun hinv hmoved count now hnow => by
      obtain ⟨middle, hbefore, hown⟩ := Follows.append_iff.mp hnow
      exact (hinv count middle hbefore).counted (hmoved.counted hown)) hrounds
  have hcount : objects.controllerAttempts = attemptsMade earlier := by
    simpa using controllerAttempts_of_follows hearlier
  obtain ⟨hstart, hseen, hgrows, hunrefused, hfirst⟩ :=
    hbudgeted _ _ (counter_of_follows hshared)
  rw [hcount] at hstart hgrows hunrefused hfirst
  have hnoLap : laps = 0 → WithinBudget deps.replanning cursor.state.replanHistory := by
    intro hzero before result after hhistory
    simp [(hstart hzero).2.1] at hhistory
  have hposition := hwalk.made
  constructor
  · intro hwithin
    by_contra hnone
    simp only [not_or, not_lt] at hnone
    obtain ⟨hon, hpos, hspent, hmade, hcontent⟩ := hnone
    replace hon : deps.replanning.enabled = true := by simpa using hon
    obtain ⟨critique, hcritique, hneed⟩ : ∃ critique, (verdicts trace).head? = some critique ∧
        critique.needReplan = true := by simpa using hcontent
    by_cases hzero : laps = 0
    · subst hzero
      -- eight rounds without a lap lead past the critic, to the end
      have hover : stage = .over := by
        cases stage <;> simp only [Stage.position] at hposition <;> first | omega | rfl
      subst hover
      have hlast : cursor.state.executionCritique = some critique := by
        have hlength := hwalk.judged
        split at hlength
        · obtain ⟨only, honly⟩ := List.length_eq_one_iff.mp hlength
          rw [hwalk.critique, honly, List.getLast?_singleton]
          rw [honly, List.head?_cons] at hcritique
          exact hcritique
        · rw [List.length_eq_zero_iff.mp hlength] at hcritique
          cases hcritique
      have hgo := hwalk.done (Or.inr rfl)
      rw [needsReplan_iff.mpr ⟨critique, hlast, hneed, by
        rw [(hstart rfl).1]
        exact Nat.pos_of_ne_zero hpos⟩] at hgo
      cases hgo
    · -- the first lap has been refused, with nothing attempted before
      obtain ⟨refused, rest, hhistory, hrefused⟩ := hfirst hon hspent hzero
      have := hwithin [] refused rest hhistory hrefused
      simp at this
      omega
  · rintro (hoff | hzero | hleft | hmade | hcontent)
    · intro before result after hhistory hrefused
      exact absurd hrefused (hunrefused (Or.inl hoff) result (by simp [hhistory]))
    · intro before result after _ _
      omega
    · intro before result after hhistory hrefused
      exact absurd hrefused (hunrefused (Or.inr hleft) result (by simp [hhistory]))
    · refine hnoLap ?_
      by_contra hlaps
      have hearly : stage.early = false := by
        by_contra hearly
        exact hlaps (hwalk.early (by simpa using hearly))
      cases stage <;> simp only [Stage.position] at hposition <;> first | omega | cases hearly
    · refine hnoLap ?_
      by_contra hlaps
      have hcritical : deps.criticEnabled = true := by
        by_contra hcritical
        exact hlaps (hwalk.uncritical (by simpa using hcritical))
      have hlength := hwalk.judged
      rw [if_pos hcritical] at hlength
      obtain ⟨critique, hcritique⟩ : ∃ critique, (verdicts trace)[0]? = some critique :=
        Option.isSome_iff_exists.mp (by simp; omega)
      have hneed := hwalk.asked 0 critique hcritique (by omega)
      rw [hcontent critique (by rw [List.head?_eq_getElem?]; exact hcritique)] at hneed
      cases hneed

/-- The first of these queries keeps within its budget. -/
theorem withinBudget_demandingQuery :
    let deps := plainDependencies .skip ["weather"] { enabled := true, maxReplanAttempts := 1 }
    ∃ ref made trace cursor, cursor.state.replanHistory.length = 1 ∧
      Rounds deps.digest (build deps 14) true {} ref
        (startCursor (build deps 14) {} ref (initialState "查询上海天气" "default")) made trace cursor ∧
      WithinBudget deps.replanning cursor.state.replanHistory := by
  intro deps
  obtain ⟨result, hrun, hfollows, hhistory⟩ := Components.exists_runs_exec_map
    (show (demandingQuery { enabled := true, maxReplanAttempts := 1 } {}).result.map
      (fun state => state.replanHistory.length) = .ok 1 by decide +kernel)
  obtain ⟨ref, made, first, own, last, tail, cursor, ended, -, hrounds, hends, hresult, hfirst,
    -, -, -, htrace⟩ := exists_rounds_of_runs hrun
  rw [htrace] at hfollows
  obtain ⟨objects, hearlier, hrest⟩ := Follows.append_iff.mp hfollows
  obtain ⟨last, hown, -⟩ := Follows.append_iff.mp hrest
  have hwithin := withinBudget_iff (by decide) (fresh_initialState _ _) hearlier hrounds hown
  refine ⟨ref, made, own, cursor, ?_, hrounds, hwithin.mpr (Or.inr (Or.inr (Or.inl ?_)))⟩
  · rw [← hhistory]
    cases hends <;> cases hresult <;> rfl
  · rw [attemptsMade_of_uncounted (uncounted_of_bookkept hfirst)]
    decide

/-- After one query has used up the budget, the next one is refused its first replan. -/
theorem demandingQuery_spends_the_budget :
    let deps := plainDependencies .skip ["weather"] { enabled := true, maxReplanAttempts := 1 }
    let query := astream deps.digest (build deps 14) {} (initialState "查询上海天气" "default")
    ∃ earlier objects earlierResult trace last result,
      Runs query earlier (.ok earlierResult) ∧ Follows SharedObjects.Step {} earlier objects ∧
      Runs query trace (.ok result) ∧ Follows SharedObjects.Step objects trace last ∧
      ¬ WithinBudget deps.replanning result.replanHistory := by
  obtain ⟨earlierResult, hearlier, hbefore⟩ := Components.exists_runs_exec
    (show (demandingQuery { enabled := true, maxReplanAttempts := 1 } {}).result.isOk = true by
      decide +kernel)
  obtain ⟨result, hrun, hfollows, hhistory⟩ := Components.exists_runs_exec_map
    (show (demandingQuery { enabled := true, maxReplanAttempts := 1 }
        (demandingQuery { enabled := true, maxReplanAttempts := 1 } {}).state.1).result.map
      (fun state => state.replanHistory.map fun result => result.skippedReason) =
        .ok [some "max_replan_attempts=1"] by decide +kernel)
  refine ⟨_, _, earlierResult, _, _, result, hearlier, hbefore, hrun, hfollows, fun hwithin => ?_⟩
  obtain ⟨refused, hrefused, hskipped⟩ := List.map_eq_singleton_iff.mp hhistory
  exact absurd (hwithin [] refused [] hrefused hskipped) (by decide)

end AgentWorkflowBuilder

end TripGraph
