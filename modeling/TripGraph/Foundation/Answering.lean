import TripGraph.Foundation.Program

/-! # Answering some of the operations

A program whose partner answers some operations by a fixed reply is a program that does not ask
them. Its traces are the traces of the first with those operations left out.
-/

namespace Interaction

variable {S : Signature} {ε α β : Type} (answer : (op : S.Op) → Option (S.Reply op))

/-- An exchange that the answers do not settle. -/
def Exchange.unanswered (exchange : Exchange S) : Bool := (answer exchange.op).isNone

/-- The reply to an operation that has an answer is that answer. -/
def Answered (trace : List (Exchange S)) : Prop :=
  ∀ exchange ∈ trace, ∀ reply, answer exchange.op = some reply → exchange.reply = reply

namespace Program

/-- The program with the operations that have an answer settled by it. -/
def answering : Program S ε α → Program S ε α
  | .done value => .done value
  | .fail error => .fail error
  | .ask op next =>
      match answer op with
      | some reply => (next reply).answering
      | none => .ask op fun reply => (next reply).answering

@[simp] theorem answering_done (value : α) :
    (Program.done value : Program S ε α).answering answer = .done value := rfl

@[simp] theorem answering_pure (value : α) :
    (pure value : Program S ε α).answering answer = pure value := rfl

@[simp] theorem answering_fail (error : ε) :
    (Program.fail error : Program S ε α).answering answer = .fail error := rfl

variable {answer}

theorem answering_ask_of_some {op : S.Op} {reply : S.Reply op} (h : answer op = some reply)
    (next : S.Reply op → Program S ε α) :
    (Program.ask op next).answering answer = (next reply).answering answer := by
  simp only [answering, h]

theorem answering_ask_of_none {op : S.Op} (h : answer op = none)
    (next : S.Reply op → Program S ε α) :
    (Program.ask op next).answering answer =
      .ask op fun reply => (next reply).answering answer := by
  simp only [answering, h]

theorem answering_bind (p : Program S ε α) (f : α → Program S ε β) :
    (p >>= f).answering answer =
      p.answering answer >>= fun value => (f value).answering answer := by
  induction p with
  | done value => rfl
  | fail error => rfl
  | ask op next ih =>
      rw [ask_bind]
      cases h : answer op with
      | some reply => rw [answering_ask_of_some h, answering_ask_of_some h, ih]
      | none =>
          rw [answering_ask_of_none h, answering_ask_of_none h, ask_bind]
          exact congrArg (Program.ask op) (funext ih)

/-- A program that asks nothing with an answer is not changed. -/
theorem answering_of_asks {p : Program S ε α} (h : p.Asks fun op => answer op = none) :
    p.answering answer = p := by
  induction p with
  | done value => rfl
  | fail error => rfl
  | ask op next ih =>
      rw [answering_ask_of_none h.1]
      exact congrArg (Program.ask op) (funext fun reply => ih reply (h.2 reply))

end Program

variable {answer}

/-- The runs of the answered program are those of the program itself in which the answers were
given, without these exchanges. -/
theorem runs_answering_iff {p : Program S ε α} {trace : List (Exchange S)} {result : Except ε α} :
    Runs (p.answering answer) trace result ↔
      ∃ full, Runs p full result ∧ Answered answer full ∧
        full.filter (Exchange.unanswered answer) = trace := by
  induction p generalizing trace with
  | done value =>
      rw [Program.answering_done, runs_done_iff]
      constructor
      · rintro ⟨rfl, rfl⟩
        exact ⟨[], .done value, by simp [Answered], rfl⟩
      · rintro ⟨full, hrun, -, rfl⟩
        obtain ⟨rfl, rfl⟩ := runs_done_iff.mp hrun
        exact ⟨rfl, rfl⟩
  | fail error =>
      rw [Program.answering_fail, runs_fail_iff]
      constructor
      · rintro ⟨rfl, rfl⟩
        exact ⟨[], .fail error, by simp [Answered], rfl⟩
      · rintro ⟨full, hrun, -, rfl⟩
        obtain ⟨rfl, rfl⟩ := runs_fail_iff.mp hrun
        exact ⟨rfl, rfl⟩
  | ask op next ih =>
      cases h : answer op with
      | some own =>
          rw [Program.answering_ask_of_some h, ih]
          constructor
          · rintro ⟨full, hrun, hanswered, rfl⟩
            refine ⟨⟨op, own⟩ :: full, .ask op next own full result hrun, ?_, ?_⟩
            · refine List.forall_mem_cons.mpr ⟨fun reply hreply => ?_, hanswered⟩
              exact Option.some.inj (h.symm.trans hreply)
            · rw [List.filter_cons_of_neg (by simp [Exchange.unanswered, h])]
          · rintro ⟨full, hrun, hanswered, rfl⟩
            obtain ⟨reply, rest, rfl, hrest⟩ := runs_ask_iff.mp hrun
            obtain ⟨hown, hanswered⟩ := List.forall_mem_cons.mp hanswered
            obtain rfl : reply = own := hown own h
            exact ⟨rest, hrest, hanswered, by
              rw [List.filter_cons_of_neg (by simp [Exchange.unanswered, h])]⟩
      | none =>
          rw [Program.answering_ask_of_none h, runs_ask_iff]
          constructor
          · rintro ⟨reply, rest, rfl, hrest⟩
            obtain ⟨full, hrun, hanswered, rfl⟩ := (ih reply).mp hrest
            refine ⟨⟨op, reply⟩ :: full, .ask op next reply full result hrun, ?_, ?_⟩
            · refine List.forall_mem_cons.mpr ⟨fun own hown => ?_, hanswered⟩
              cases h.symm.trans hown
            · rw [List.filter_cons_of_pos (by simp [Exchange.unanswered, h])]
          · rintro ⟨full, hrun, hanswered, rfl⟩
            obtain ⟨reply, rest, rfl, hrest⟩ := runs_ask_iff.mp hrun
            obtain ⟨-, hanswered⟩ := List.forall_mem_cons.mp hanswered
            refine ⟨reply, rest.filter (Exchange.unanswered answer), ?_,
              (ih reply).mpr ⟨rest, hrest, hanswered, rfl⟩⟩
            rw [List.filter_cons_of_pos (by simp [Exchange.unanswered, h])]

end Interaction
