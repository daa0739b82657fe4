import Mathlib.Data.List.Flatten
import Mathlib.Data.List.Perm.Basic
import TripGraph.Foundation.Program

/-! # Cooperative tasks gathered into one program

Some operations suspend the task that asks them. `gather` starts every task in order,
lets each run to its first suspension, and then resumes them as a schedule says. A
gathered run decomposes into one complete run of each task; the parts before the first
suspensions come first and in order, the rest is interleaved.
-/

namespace Interaction

variable {S : Signature} {ε α : Type}

namespace Program

variable (suspends : S.Op → Bool)

/-- Run a task up to the first operation that suspends it. -/
def advance : Program S ε α → Program S ε (Program S ε α)
  | .done value => .done (.done value)
  | .fail error => .done (.fail error)
  | .ask op next =>
      if suspends op then .done (.ask op next)
      else .ask op fun reply => (next reply).advance

/-- Deliver the reply a parked task waits for, and run it to its next suspension. -/
def resume : Program S ε α → Program S ε (Program S ε α)
  | .done value => .done (.done value)
  | .fail error => .done (.fail error)
  | .ask op next => .ask op fun reply => (next reply).advance suspends

/-- Run programs one after the other and collect their values. -/
def sequence : List (Program S ε α) → Program S ε (List α)
  | [] => pure []
  | p :: rest => p >>= fun value => sequence rest >>= fun values => pure (value :: values)

/-- The error of the first task that has raised. -/
def firstFailure : List (Program S ε α) → Option ε
  | [] => none
  | .fail error :: _ => some error
  | _ :: rest => firstFailure rest

/-- Resume the tasks in the order of the schedule until it is used up; the first task that
raises ends the gathering. -/
def interleave : List Nat → List (Program S ε α) → Program S ε (List (Program S ε α))
  | [], tasks =>
      match firstFailure tasks with
      | some error => .fail error
      | none => pure tasks
  | index :: rest, tasks =>
      match firstFailure tasks with
      | some error => .fail error
      | none =>
          match tasks[index]? with
          | some task => task.resume suspends >>= fun task' =>
              interleave rest (tasks.set index task')
          | none => interleave rest tasks

/-- Start all tasks, resume them as the schedule says, and finish what is left in order. -/
def gather (schedule : List Nat) (tasks : List (Program S ε α)) : Program S ε (List α) :=
  sequence (tasks.map (advance suspends)) >>= fun started =>
    interleave suspends schedule started >>= sequence

end Program

open Program

variable {suspends : S.Op → Bool}

/-! ## One task -/

/-- A task is parked when it has ended or waits for a suspending operation. -/
def Program.Parked (suspends : S.Op → Bool) : Program S ε α → Prop
  | .done _ => True
  | .fail _ => True
  | .ask op _ => suspends op = true

/-- A trace starts suspended when it is empty or its first operation suspends. -/
def StartsSuspended (suspends : S.Op → Bool) (trace : List (Exchange S)) : Prop :=
  trace = [] ∨ ∃ exchange rest, trace = exchange :: rest ∧ suspends exchange.op = true

theorem Program.Parked.startsSuspended {task : Program S ε α} (h : task.Parked suspends)
    {trace : List (Exchange S)} {result : Except ε α} (hrun : Runs task trace result) :
    StartsSuspended suspends trace := by
  cases hrun with
  | done value => exact Or.inl rfl
  | fail error => exact Or.inl rfl
  | ask op next reply trace result rest => exact Or.inr ⟨_, _, rfl, h⟩

theorem not_runs_advance_error {task : Program S ε α} {trace : List (Exchange S)} {error : ε} :
    ¬ Runs (task.advance suspends) trace (.error error) := by
  induction task generalizing trace with
  | done value => simp [advance]
  | fail own => simp [advance]
  | ask op next ih =>
      intro h
      rw [advance] at h
      split at h
      · simp at h
      · obtain ⟨reply, rest, rfl, hrest⟩ := runs_ask_iff.mp h
        exact ih reply hrest

/-- Advancing performs an unsuspended prefix of the task and leaves the task parked. -/
theorem runs_advance {task left : Program S ε α} {trace : List (Exchange S)}
    (h : Runs (task.advance suspends) trace (.ok left)) :
    left.Parked suspends ∧ (∀ exchange ∈ trace, suspends exchange.op = false) ∧
      ∀ rest result, Runs left rest result → Runs task (trace ++ rest) result := by
  induction task generalizing trace with
  | done value =>
      obtain ⟨rfl, hleft⟩ := runs_done_iff.mp h
      cases hleft
      exact ⟨trivial, by simp, fun _ _ hrun => hrun⟩
  | fail own =>
      obtain ⟨rfl, hleft⟩ := runs_done_iff.mp h
      cases hleft
      exact ⟨trivial, by simp, fun _ _ hrun => hrun⟩
  | ask op next ih =>
      rw [advance] at h
      split at h
      next hop =>
        obtain ⟨rfl, hleft⟩ := runs_done_iff.mp h
        cases hleft
        exact ⟨hop, by simp, fun _ _ hrun => hrun⟩
      next hop =>
        obtain ⟨reply, rest, rfl, hrest⟩ := runs_ask_iff.mp h
        obtain ⟨hparked, hfree, hruns⟩ := ih reply hrest
        refine ⟨hparked, ?_, ?_⟩
        · intro exchange hmem
          rcases List.mem_cons.mp hmem with rfl | hmem
          · exact Bool.eq_false_iff.mpr hop
          · exact hfree exchange hmem
        · intro after result hrun
          exact runs_ask_iff.mpr ⟨reply, rest ++ after, rfl, hruns after result hrun⟩

theorem not_runs_resume_error {task : Program S ε α} {trace : List (Exchange S)} {error : ε} :
    ¬ Runs (task.resume suspends) trace (.error error) := by
  cases task with
  | done value => simp [resume]
  | fail own => simp [resume]
  | ask op next =>
      intro h
      obtain ⟨reply, rest, rfl, hrest⟩ := runs_ask_iff.mp h
      exact not_runs_advance_error hrest

theorem runs_resume {task left : Program S ε α} {trace : List (Exchange S)}
    (h : Runs (task.resume suspends) trace (.ok left)) :
    ∀ rest result, Runs left rest result → Runs task (trace ++ rest) result := by
  cases task with
  | done value =>
      obtain ⟨rfl, hleft⟩ := runs_done_iff.mp h
      cases hleft
      exact fun _ _ hrun => hrun
  | fail own =>
      obtain ⟨rfl, hleft⟩ := runs_done_iff.mp h
      cases hleft
      exact fun _ _ hrun => hrun
  | ask op next =>
      obtain ⟨reply, rest, rfl, hrest⟩ := runs_ask_iff.mp h
      intro after result hrun
      exact runs_ask_iff.mpr ⟨reply, rest ++ after, rfl, (runs_advance hrest).2.2 after result hrun⟩

/-! ## All tasks -/

/-- One task's share of a gathered run: what it did before its first suspension, what it
did afterwards, and the value it returned. -/
structure TaskRun (S : Signature) (ε α : Type) where
  task : Program S ε α
  started : List (Exchange S)
  resumed : List (Exchange S)
  value : α

namespace TaskRun

/-- The whole trace of the task. -/
def trace (run : TaskRun S ε α) : List (Exchange S) := run.started ++ run.resumed

/-- The two parts make a run of the task, split at its first suspension. -/
structure Valid (suspends : S.Op → Bool) (run : TaskRun S ε α) : Prop where
  runs : Runs run.task run.trace (.ok run.value)
  started : ∀ exchange ∈ run.started, suspends exchange.op = false
  resumed : StartsSuspended suspends run.resumed

end TaskRun

theorem runs_sequence_ok {tasks : List (Program S ε α)} {trace : List (Exchange S)}
    {values : List α} (h : Runs (Program.sequence tasks) trace (.ok values)) :
    ∃ runs : List (TaskRun S ε α), runs.map TaskRun.task = tasks ∧
      runs.map TaskRun.value = values ∧
      (∀ run ∈ runs, Runs run.task run.resumed (.ok run.value)) ∧
      trace = runs.flatMap TaskRun.resumed := by
  induction tasks generalizing trace values with
  | nil =>
      obtain ⟨rfl, hvalues⟩ := runs_pure_iff.mp h
      cases hvalues
      exact ⟨[], rfl, rfl, by simp, rfl⟩
  | cons task rest ih =>
      obtain ⟨value, first, second, hfirst, hsecond, rfl⟩ := runs_bind_ok_iff.mp h
      obtain ⟨restValues, third, fourth, hthird, hfourth, rfl⟩ := runs_bind_ok_iff.mp hsecond
      obtain ⟨rfl, hvalues⟩ := runs_pure_iff.mp hfourth
      cases hvalues
      obtain ⟨runs, rfl, rfl, hruns, rfl⟩ := ih hthird
      refine ⟨⟨task, [], first, value⟩ :: runs, rfl, rfl, ?_, by simp⟩
      intro run hmem
      rcases List.mem_cons.mp hmem with rfl | hmem
      · exact hfirst
      · exact hruns run hmem

/-- A task that has been resumed and later runs to its end has run as a whole. -/
private theorem extend_run {tasks : List (Program S ε α)} {index : Nat}
    {task left : Program S ε α} (htask : tasks[index]? = some task)
    {runs : List (TaskRun S ε α)} (htasks : runs.map TaskRun.task = tasks.set index left)
    {before : List (Exchange S)}
    (hextend : ∀ rest result, Runs left rest result → Runs task (before ++ rest) result)
    (hruns : ∀ run ∈ runs, Runs run.task run.resumed (.ok run.value)) :
    ∃ runs' : List (TaskRun S ε α), runs'.map TaskRun.task = tasks ∧
      runs'.map TaskRun.value = runs.map TaskRun.value ∧
      (∀ run ∈ runs', Runs run.task run.resumed (.ok run.value)) ∧
      (runs'.flatMap TaskRun.resumed).Perm (before ++ runs.flatMap TaskRun.resumed) := by
  -- the task sits at one place of the list; the runs before it stay as they are
  induction runs generalizing tasks index with
  | nil =>
      cases tasks with
      | nil => simp at htask
      | cons head rest => cases index <;> simp at htasks
  | cons run runs ih =>
      cases tasks with
      | nil => simp at htask
      | cons head rest =>
          cases index with
          | zero =>
              simp only [List.getElem?_cons_zero, Option.some.injEq] at htask
              subst htask
              simp only [List.map_cons, List.set_cons_zero, List.cons.injEq] at htasks
              obtain ⟨hleft, hrest⟩ := htasks
              refine ⟨⟨head, [], before ++ run.resumed, run.value⟩ :: runs, by simp [hrest], rfl,
                ?_, by simp⟩
              intro run' hmem
              rcases List.mem_cons.mp hmem with rfl | hmem
              · exact hextend _ _ (hleft ▸ hruns run List.mem_cons_self)
              · exact hruns run' (List.mem_cons_of_mem _ hmem)
          | succ index =>
              simp only [List.getElem?_cons_succ] at htask
              simp only [List.map_cons, List.set_cons_succ, List.cons.injEq] at htasks
              obtain ⟨hhead, hrest⟩ := htasks
              obtain ⟨runs', htasks', hvalues, hruns', hperm⟩ := ih htask hrest
                (fun run' hmem => hruns run' (List.mem_cons_of_mem _ hmem))
              refine ⟨run :: runs', by simp [hhead, htasks'], by simp [hvalues], ?_, ?_⟩
              · intro run' hmem
                rcases List.mem_cons.mp hmem with rfl | hmem
                · exact hruns _ List.mem_cons_self
                · exact hruns' run' hmem
              · simp only [List.flatMap_cons]
                exact (hperm.append_left _).trans (by
                  rw [← List.append_assoc, ← List.append_assoc]
                  exact List.perm_append_comm.append_right _)

/-- Interleaving and then finishing runs every task once. -/
theorem runs_interleave_ok {schedule : List Nat} {tasks : List (Program S ε α)}
    {trace : List (Exchange S)} {values : List α}
    (h : Runs (interleave suspends schedule tasks >>= Program.sequence) trace (.ok values)) :
    ∃ runs : List (TaskRun S ε α), runs.map TaskRun.task = tasks ∧
      runs.map TaskRun.value = values ∧
      (∀ run ∈ runs, Runs run.task run.resumed (.ok run.value)) ∧
      (runs.flatMap TaskRun.resumed).Perm trace := by
  induction schedule generalizing tasks trace with
  | nil =>
      rw [interleave] at h
      cases hfailure : firstFailure tasks with
      | some error => simp [hfailure] at h
      | none =>
          simp only [hfailure, pure_bind] at h
          obtain ⟨runs, htasks, hvalues, hruns, rfl⟩ := runs_sequence_ok h
          exact ⟨runs, htasks, hvalues, hruns, .refl _⟩
  | cons index rest ih =>
      rw [interleave] at h
      cases hfailure : firstFailure tasks with
      | some error => simp [hfailure] at h
      | none =>
          simp only [hfailure] at h
          cases htask : tasks[index]? with
          | none => exact ih (by simpa [htask] using h)
          | some task =>
              simp only [htask, Program.bind_assoc] at h
              obtain ⟨left, before, after, hbefore, hafter, rfl⟩ := runs_bind_ok_iff.mp h
              obtain ⟨runs, htasks, hvalues, hruns, hperm⟩ := ih hafter
              obtain ⟨runs', htasks', hvalues', hruns', hperm'⟩ :=
                extend_run htask htasks (runs_resume hbefore) hruns
              exact ⟨runs', htasks', hvalues'.trans hvalues, hruns',
                hperm'.trans (hperm.append_left before)⟩

/-- Starting every task leaves one parked task each, after an unsuspended prefix. -/
private theorem runs_start_ok {tasks started : List (Program S ε α)}
    {trace : List (Exchange S)}
    (h : Runs (Program.sequence (tasks.map (advance suspends))) trace (.ok started)) :
    ∀ left : List (TaskRun S ε α), left.map TaskRun.task = started →
      (∀ run ∈ left, Runs run.task run.resumed (.ok run.value)) →
      ∃ runs : List (TaskRun S ε α), runs.map TaskRun.task = tasks ∧
        runs.map TaskRun.value = left.map TaskRun.value ∧
        (∀ run ∈ runs, run.Valid suspends) ∧ trace = runs.flatMap TaskRun.started ∧
        runs.flatMap TaskRun.resumed = left.flatMap TaskRun.resumed := by
  induction tasks generalizing trace started with
  | nil =>
      obtain ⟨rfl, hstarted⟩ := runs_pure_iff.mp h
      cases hstarted
      intro left hleft _
      obtain rfl := List.map_eq_nil_iff.mp hleft
      exact ⟨[], rfl, rfl, by simp, rfl, rfl⟩
  | cons task rest ih =>
      obtain ⟨head, first, second, hfirst, hsecond, rfl⟩ := runs_bind_ok_iff.mp h
      obtain ⟨tail, third, fourth, hthird, hfourth, rfl⟩ := runs_bind_ok_iff.mp hsecond
      obtain ⟨rfl, hstarted⟩ := runs_pure_iff.mp hfourth
      cases hstarted
      intro left hleft hruns
      cases left with
      | nil => simp at hleft
      | cons run left =>
          simp only [List.map_cons, List.cons.injEq] at hleft
          obtain ⟨rfl, hleft⟩ := hleft
          obtain ⟨runs, htasks, hvalues, hvalid, rfl, hresumed⟩ := ih hthird left hleft
            (fun other hmem => hruns other (List.mem_cons_of_mem _ hmem))
          obtain ⟨hparked, hfree, hextend⟩ := runs_advance hfirst
          have hrun := hruns run List.mem_cons_self
          refine ⟨⟨task, first, run.resumed, run.value⟩ :: runs, by simp [htasks],
            by simp [hvalues], ?_, by simp, by simp [hresumed]⟩
          intro other hmem
          rcases List.mem_cons.mp hmem with rfl | hmem
          · exact ⟨hextend _ _ hrun, hfree, hparked.startsSuspended hrun⟩
          · exact hvalid other hmem

/-- A gathered run is one run of each task: the parts before the first suspensions in the
order of the tasks, then an interleaving of the rest. -/
theorem runs_gather_ok {schedule : List Nat} {tasks : List (Program S ε α)}
    {trace : List (Exchange S)} {values : List α}
    (h : Runs (gather suspends schedule tasks) trace (.ok values)) :
    ∃ runs : List (TaskRun S ε α), runs.map TaskRun.task = tasks ∧
      runs.map TaskRun.value = values ∧ (∀ run ∈ runs, run.Valid suspends) ∧
      ∃ rest, trace = runs.flatMap TaskRun.started ++ rest ∧
        (runs.flatMap TaskRun.resumed).Perm rest := by
  obtain ⟨started, first, rest, hstart, hrest, rfl⟩ := runs_bind_ok_iff.mp h
  obtain ⟨left, hleft, hvalues, hruns, hperm⟩ := runs_interleave_ok hrest
  obtain ⟨runs, htasks, hvalues', hvalid, rfl, hresumed⟩ := runs_start_ok hstart left hleft hruns
  exact ⟨runs, htasks, hvalues'.trans hvalues, hvalid, rest, rfl, hresumed ▸ hperm⟩

/-- Up to order, the trace of a gathered run is made of the traces of its tasks. -/
theorem flatMap_trace_perm {runs : List (TaskRun S ε α)} {rest : List (Exchange S)}
    (h : (runs.flatMap TaskRun.resumed).Perm rest) :
    (runs.flatMap TaskRun.trace).Perm (runs.flatMap TaskRun.started ++ rest) := by
  refine List.Perm.trans ?_ (h.append_left _)
  induction runs generalizing rest with
  | nil => exact .refl _
  | cons run runs ih =>
      simp only [List.flatMap_cons, TaskRun.trace, List.append_assoc]
      refine List.Perm.append_left _ (((ih (.refl _)).append_left _).trans ?_)
      rw [← List.append_assoc, ← List.append_assoc]
      exact List.perm_append_comm.append_right _

/-! ## Errors and footprints -/

theorem runs_sequence_error {tasks : List (Program S ε α)} {trace : List (Exchange S)}
    {error : ε} (h : Runs (Program.sequence tasks) trace (.error error)) :
    ∃ task ∈ tasks, ∃ own, own ⊆ trace ∧ Runs task own (.error error) := by
  induction tasks generalizing trace with
  | nil => simp [Program.sequence] at h
  | cons task rest ih =>
      rcases runs_bind_iff.mp h with ⟨value, first, second, -, hsecond, rfl⟩ | ⟨own, hown, heq⟩
      · rcases runs_bind_iff.mp hsecond with
          ⟨values, third, fourth, -, hfourth, rfl⟩ | ⟨own, hown, heq⟩
        · simp at hfourth
        · cases heq
          obtain ⟨task', hmem, trace', hsub, hrun⟩ := ih hown
          exact ⟨task', List.mem_cons_of_mem _ hmem, trace',
            List.Subset.trans hsub (List.subset_append_right _ _), hrun⟩
      · cases heq
        exact ⟨task, List.mem_cons_self, trace, List.Subset.refl _, hown⟩

theorem firstFailure_mem {tasks : List (Program S ε α)} {error : ε}
    (h : firstFailure tasks = some error) : Program.fail error ∈ tasks := by
  induction tasks with
  | nil => simp [firstFailure] at h
  | cons task rest ih =>
      cases task with
      | done value => exact List.mem_cons_of_mem _ (ih h)
      | fail own =>
          simp only [firstFailure, Option.some.injEq] at h
          exact h ▸ List.mem_cons_self
      | ask op next => exact List.mem_cons_of_mem _ (ih h)

theorem runs_interleave_error {schedule : List Nat} {tasks : List (Program S ε α)}
    {trace : List (Exchange S)} {error : ε}
    (h : Runs (interleave suspends schedule tasks >>= Program.sequence) trace (.error error)) :
    ∃ task ∈ tasks, ∃ own, own ⊆ trace ∧ Runs task own (.error error) := by
  induction schedule generalizing tasks trace with
  | nil =>
      rw [interleave] at h
      cases hfailure : firstFailure tasks with
      | some own =>
          simp only [hfailure, fail_bind, runs_fail_iff, Except.error.injEq] at h
          obtain ⟨rfl, rfl⟩ := h
          exact ⟨_, firstFailure_mem hfailure, [], List.Subset.refl _, .fail _⟩
      | none =>
          simp only [hfailure, pure_bind] at h
          exact runs_sequence_error h
  | cons index rest ih =>
      rw [interleave] at h
      cases hfailure : firstFailure tasks with
      | some own =>
          simp only [hfailure, fail_bind, runs_fail_iff, Except.error.injEq] at h
          obtain ⟨rfl, rfl⟩ := h
          exact ⟨_, firstFailure_mem hfailure, [], List.Subset.refl _, .fail _⟩
      | none =>
          simp only [hfailure] at h
          cases htask : tasks[index]? with
          | none => exact ih (by simpa [htask] using h)
          | some task =>
              simp only [htask, Program.bind_assoc] at h
              rcases runs_bind_iff.mp h with
                ⟨left, before, after, hbefore, hafter, rfl⟩ | ⟨own, hown, -⟩
              · obtain ⟨task', hmem, own, hsub, hrun⟩ := ih hafter
                rcases List.mem_or_eq_of_mem_set hmem with hmem | rfl
                · exact ⟨task', hmem, own, List.Subset.trans hsub (List.subset_append_right _ _),
                    hrun⟩
                · refine ⟨task, List.mem_of_getElem? htask, before ++ own, ?_,
                    runs_resume hbefore own _ hrun⟩
                  exact List.append_subset.mpr ⟨List.subset_append_left _ _,
                    List.Subset.trans hsub (List.subset_append_right _ _)⟩
              · exact absurd hown not_runs_resume_error

theorem not_runs_start_error {tasks : List (Program S ε α)} {trace : List (Exchange S)}
    {error : ε} :
    ¬ Runs (Program.sequence (tasks.map (advance suspends))) trace (.error error) := by
  intro h
  obtain ⟨task, hmem, own, -, hrun⟩ := runs_sequence_error h
  obtain ⟨task', -, rfl⟩ := List.mem_map.mp hmem
  exact not_runs_advance_error hrun

/-- The error a gathering raises is the error of one of its tasks. -/
theorem runs_gather_error {schedule : List Nat} {tasks : List (Program S ε α)}
    {trace : List (Exchange S)} {error : ε}
    (h : Runs (gather suspends schedule tasks) trace (.error error)) :
    ∃ task ∈ tasks, ∃ own, own ⊆ trace ∧ Runs task own (.error error) := by
  rcases runs_bind_iff.mp h with ⟨started, first, rest, hstart, hrest, rfl⟩ | ⟨own, hown, -⟩
  · obtain ⟨task, hmem, own, hsub, hrun⟩ := runs_interleave_error hrest
    have hstarted : ∀ (tasks started : List (Program S ε α)) (first : List (Exchange S)),
        Runs (Program.sequence (tasks.map (advance suspends))) first (.ok started) →
          task ∈ started →
        ∃ task' ∈ tasks, ∃ before, before ⊆ first ∧
          Runs task' (before ++ own) (.error error) := by
      intro tasks
      induction tasks with
      | nil =>
          intro started first hstart hmem
          obtain ⟨-, hstarted⟩ := runs_pure_iff.mp hstart
          cases hstarted
          simp at hmem
      | cons head tail ih =>
          intro started first hstart hmem
          obtain ⟨left, before, second, hbefore, hsecond, rfl⟩ := runs_bind_ok_iff.mp hstart
          obtain ⟨lefts, third, fourth, hthird, hfourth, rfl⟩ := runs_bind_ok_iff.mp hsecond
          obtain ⟨rfl, hstarted⟩ := runs_pure_iff.mp hfourth
          cases hstarted
          rcases List.mem_cons.mp hmem with rfl | hmem
          · exact ⟨head, List.mem_cons_self, before, List.subset_append_left _ _,
              (runs_advance hbefore).2.2 own _ hrun⟩
          · obtain ⟨task', hmem', before', hsub', hrun'⟩ := ih lefts third hthird hmem
            refine ⟨task', List.mem_cons_of_mem _ hmem', before', ?_, hrun'⟩
            exact List.Subset.trans hsub'
              (List.Subset.trans (List.subset_append_left _ _) (List.subset_append_right _ _))
    obtain ⟨task', hmem', before, hsub', hrun'⟩ := hstarted tasks started first hstart hmem
    refine ⟨task', hmem', before ++ own, ?_, hrun'⟩
    exact List.append_subset.mpr ⟨List.Subset.trans hsub' (List.subset_append_left _ _),
      List.Subset.trans hsub (List.subset_append_right _ _)⟩
  · exact absurd hown not_runs_start_error

namespace Program

variable {G : (op : S.Op) → S.Reply op → Prop} {P : S.Op → Prop} {Q : α → Prop}

theorem Ensures.advance {task : Program S ε α} (h : task.Ensures G P Q) :
    (task.advance suspends).Ensures G P fun left => left.Ensures G P Q := by
  induction task with
  | done value => exact h
  | fail error => trivial
  | ask op next ih =>
      rw [Program.advance]
      split
      · exact h
      · exact ⟨h.1, fun reply hreply => ih reply (h.2 reply hreply)⟩

theorem Ensures.resume {task : Program S ε α} (h : task.Ensures G P Q) :
    (task.resume suspends).Ensures G P fun left => left.Ensures G P Q := by
  cases task with
  | done value => exact h
  | fail error => trivial
  | ask op next => exact ⟨h.1, fun reply hreply => (h.2 reply hreply).advance⟩

theorem ensures_sequence {tasks : List (Program S ε α)}
    (h : ∀ task ∈ tasks, task.Ensures G P Q) :
    (Program.sequence tasks).Ensures G P fun values => ∀ value ∈ values, Q value := by
  induction tasks with
  | nil => simp [Program.sequence]
  | cons task rest ih =>
      refine (h task List.mem_cons_self).bind fun value hvalue => ?_
      refine (ih fun other hmem => h other (List.mem_cons_of_mem _ hmem)).bind
        fun values hvalues => ?_
      simpa using ⟨hvalue, hvalues⟩

theorem ensures_interleave {schedule : List Nat} {tasks : List (Program S ε α)}
    (h : ∀ task ∈ tasks, task.Ensures G P Q) :
    (interleave suspends schedule tasks).Ensures G P fun left =>
      ∀ task ∈ left, task.Ensures G P Q := by
  induction schedule generalizing tasks with
  | nil =>
      rw [interleave]
      split
      · trivial
      · exact h
  | cons index rest ih =>
      rw [interleave]
      split
      · trivial
      split
      next task htask =>
        refine (h task (List.mem_of_getElem? htask)).resume.bind fun left hleft => ih ?_
        intro other hmem
        rcases List.mem_or_eq_of_mem_set hmem with hmem | rfl
        · exact h other hmem
        · exact hleft
      next => exact ih h

/-- A gathering asks what its tasks ask and returns what they return. -/
theorem ensures_gather {schedule : List Nat} {tasks : List (Program S ε α)}
    (h : ∀ task ∈ tasks, task.Ensures G P Q) :
    (gather suspends schedule tasks).Ensures G P fun values => ∀ value ∈ values, Q value := by
  refine Ensures.bind (ensures_sequence (Q := fun left => left.Ensures G P Q) ?_)
    fun started hstarted => (ensures_interleave hstarted).bind fun _ hleft => ensures_sequence hleft
  intro task hmem
  obtain ⟨own, hown, rfl⟩ := List.mem_map.mp hmem
  exact (h own hown).advance

end Program

end Interaction
