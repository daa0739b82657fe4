import TripGraph.Foundation.Gather

/-! # What programs return and what they raise

A program guarantees its values and its errors as long as the replies keep a promise. The rules
follow the program; a run with such replies comes to what is guaranteed.
-/

namespace Interaction

variable {S : Signature} {ε ε' α β : Type}

namespace Program

/-- As long as the replies are in `G`, the values returned are in `Q` and the errors raised are
in `E`. -/
def Guarantees (G : (op : S.Op) → S.Reply op → Prop) (Q : α → Prop) (E : ε → Prop) :
    Program S ε α → Prop
  | .done value => Q value
  | .fail error => E error
  | .ask op next => ∀ reply, G op reply → (next reply).Guarantees G Q E

variable {G : (op : S.Op) → S.Reply op → Prop} {Q Q' : α → Prop} {R : β → Prop} {E : ε → Prop}
  {E' : ε' → Prop}

@[simp] theorem guarantees_done_iff {value : α} :
    (done value : Program S ε α).Guarantees G Q E ↔ Q value := Iff.rfl

@[simp] theorem guarantees_pure_iff {value : α} :
    (pure value : Program S ε α).Guarantees G Q E ↔ Q value := Iff.rfl

@[simp] theorem guarantees_fail_iff {error : ε} :
    (fail error : Program S ε α).Guarantees G Q E ↔ E error := Iff.rfl

theorem guarantees_ofExcept_iff {value : Except ε α} :
    (ofExcept value : Program S ε α).Guarantees G Q E ↔
      (∀ result, value = .ok result → Q result) ∧ ∀ error, value = .error error → E error := by
  cases value with
  | ok value => simp [ofExcept]
  | error error => simp [ofExcept]

theorem Guarantees.bind {p : Program S ε α} {f : α → Program S ε β} (hp : p.Guarantees G Q E)
    (hf : ∀ value, Q value → (f value).Guarantees G R E) : (p >>= f).Guarantees G R E := by
  induction p with
  | done value => exact hf value hp
  | fail error => exact hp
  | ask op next ih => exact fun reply hreply => ih reply (hp reply hreply)

theorem Guarantees.mono {p : Program S ε α} (hp : p.Guarantees G Q E)
    (hQ : ∀ value, Q value → Q' value) : p.Guarantees G Q' E := by
  induction p with
  | done value => exact hQ value hp
  | fail error => exact hp
  | ask op next ih => exact fun reply hreply => ih reply (hp reply hreply)

theorem Guarantees.mapError {f : ε → ε'} {p : Program S ε α}
    (hp : p.Guarantees G Q fun error => E' (f error)) : (p.mapError f).Guarantees G Q E' := by
  induction p with
  | done value => exact hp
  | fail error => exact hp
  | ask op next ih => exact fun reply hreply => ih reply (hp reply hreply)

/-- What a program returns whatever the replies are may be added to what it guarantees. -/
theorem Guarantees.and_returns {p : Program S ε α} (hp : p.Guarantees G Q E)
    (hreturns : p.Returns Q') : p.Guarantees G (fun value => Q value ∧ Q' value) E := by
  induction p with
  | done value => exact ⟨hp, hreturns⟩
  | fail error => exact hp
  | ask op next ih => exact fun reply hreply => ih reply (hp reply hreply) (hreturns.2 reply)

theorem Unfailing.guarantees {p : Program S ε α} (hp : p.Unfailing) (hreturns : p.Returns Q) :
    p.Guarantees G Q E := by
  induction p with
  | done value => exact hreturns
  | fail error => exact hp.elim
  | ask op next ih => exact fun reply _ => ih reply (hp reply) (hreturns.2 reply)

/-- The guarantee is one about the runs whose replies keep the promise. -/
theorem guarantees_iff {p : Program S ε α} : p.Guarantees G Q E ↔
    ∀ trace result, Runs p trace result → (∀ exchange ∈ trace, G exchange.op exchange.reply) →
      (∀ value, result = .ok value → Q value) ∧ ∀ error, result = .error error → E error := by
  induction p with
  | done value =>
      constructor
      · intro hvalue trace result hrun _
        obtain ⟨-, rfl⟩ := runs_done_iff.mp hrun
        refine ⟨fun _ heq => ?_, fun _ heq => (by cases heq)⟩
        obtain rfl := Except.ok.inj heq
        exact hvalue
      · intro hruns
        exact (hruns [] _ (.done value) (by simp)).1 value rfl
  | fail error =>
      constructor
      · intro herror trace result hrun _
        obtain ⟨-, rfl⟩ := runs_fail_iff.mp hrun
        refine ⟨fun _ heq => (by cases heq), fun _ heq => ?_⟩
        obtain rfl := Except.error.inj heq
        exact herror
      · intro hruns
        exact (hruns [] _ (.fail error) (by simp)).2 error rfl
  | ask op next ih =>
      constructor
      · intro hnext trace result hrun hreplies
        obtain ⟨reply, rest, rfl, hrest⟩ := runs_ask_iff.mp hrun
        obtain ⟨hreply, hall⟩ := List.forall_mem_cons.mp hreplies
        exact (ih reply).mp (hnext reply hreply) rest result hrest hall
      · intro hruns reply hreply
        refine (ih reply).mpr fun trace result hrun hreplies => ?_
        exact hruns _ result (.ask op next reply trace result hrun)
          (List.forall_mem_cons.mpr ⟨hreply, hreplies⟩)

/-- A gathering returns what its tasks return, and raises what they raise. -/
theorem guarantees_gather {suspends : S.Op → Bool} {schedule : List Nat}
    {tasks : List (Program S ε α)} (h : ∀ task ∈ tasks, task.Guarantees G Q E) :
    (gather suspends schedule tasks).Guarantees G (fun values => ∀ value ∈ values, Q value) E := by
  refine guarantees_iff.mpr fun trace result hrun hreplies => ⟨?_, ?_⟩
  · rintro values rfl value hvalue
    obtain ⟨runs, htasks, hvalues, hvalid, rest, rfl, hperm⟩ := runs_gather_ok hrun
    rw [← hvalues] at hvalue
    obtain ⟨run, hmem, rfl⟩ := List.mem_map.mp hvalue
    have htask : run.task ∈ tasks := htasks ▸ List.mem_map_of_mem hmem
    refine (guarantees_iff.mp (h run.task htask) run.trace _ (hvalid run hmem).runs ?_).1 _ rfl
    intro exchange hexchange
    refine hreplies exchange ((flatMap_trace_perm hperm).subset ?_)
    exact List.mem_flatMap.mpr ⟨run, hmem, hexchange⟩
  · rintro error rfl
    obtain ⟨task, htask, own, hsubset, hown⟩ := runs_gather_error hrun
    exact (guarantees_iff.mp (h task htask) own _ hown fun exchange hexchange =>
      hreplies exchange (hsubset hexchange)).2 error rfl

end Program

end Interaction
