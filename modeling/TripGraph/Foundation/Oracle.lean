import TripGraph.Foundation.Program

/-! # Runs that an oracle determines

An oracle has an answer to some operations. A program that only asks these has one run with
its answers. A translation of a program asks the same operations and comes to translated
results, so it runs along the same traces. A program within another one asks through it.
-/

namespace Interaction

variable {S : Signature} {ε ε' α α' β β' : Type}

/-- Where the oracle has an answer, the reply is this answer. -/
def Answers (oracle : (op : S.Op) → Option (S.Reply op)) (trace : List (Exchange S)) : Prop :=
  ∀ exchange ∈ trace, ∀ reply, oracle exchange.op = some reply → exchange.reply = reply

section Answers

variable {oracle : (op : S.Op) → Option (S.Reply op)}

@[simp] theorem answers_nil : Answers oracle ([] : List (Exchange S)) := by simp [Answers]

@[simp] theorem answers_cons {exchange : Exchange S} {trace : List (Exchange S)} :
    Answers oracle (exchange :: trace) ↔
      (∀ reply, oracle exchange.op = some reply → exchange.reply = reply) ∧ Answers oracle trace :=
  List.forall_mem_cons

@[simp] theorem answers_append {first second : List (Exchange S)} :
    Answers oracle (first ++ second) ↔ Answers oracle first ∧ Answers oracle second :=
  List.forall_mem_append

/-- Two runs with the answers of one oracle are the same run. -/
theorem Runs.eq_of_answers {p : Program S ε α} (hp : p.Asks fun op => (oracle op).isSome)
    {first second : List (Exchange S)} {result result' : Except ε α} (h : Runs p first result)
    (h' : Runs p second result') (hfirst : Answers oracle first) (hsecond : Answers oracle second) :
    first = second ∧ result = result' := by
  induction p generalizing first second with
  | done value =>
      obtain ⟨rfl, rfl⟩ := runs_done_iff.mp h
      obtain ⟨rfl, rfl⟩ := runs_done_iff.mp h'
      exact ⟨rfl, rfl⟩
  | fail error =>
      obtain ⟨rfl, rfl⟩ := runs_fail_iff.mp h
      obtain ⟨rfl, rfl⟩ := runs_fail_iff.mp h'
      exact ⟨rfl, rfl⟩
  | ask op next ih =>
      obtain ⟨reply, rest, rfl, hrest⟩ := runs_ask_iff.mp h
      obtain ⟨reply', rest', rfl, hrest'⟩ := runs_ask_iff.mp h'
      obtain ⟨answer, hanswer⟩ := Option.isSome_iff_exists.mp hp.1
      obtain ⟨hreply, hown⟩ := answers_cons.mp hfirst
      obtain ⟨hreply', hown'⟩ := answers_cons.mp hsecond
      have hsame : reply' = reply := (hreply' answer hanswer).trans (hreply answer hanswer).symm
      rw [hsame] at hrest' ⊢
      obtain ⟨rfl, rfl⟩ := ih reply (hp.2 reply) hrest hrest' hown hown'
      exact ⟨rfl, rfl⟩

/-- A handler that answers as the oracle does produces runs with the answers of the oracle. -/
theorem answers_exec {σ : Type} {handler : Handler S σ}
    (h : ∀ op state reply, oracle op = some reply → (handler.answer op state).1 = reply)
    (p : Program S ε α) (state : σ) : Answers oracle (p.exec handler state).trace := by
  induction p generalizing state with
  | done value => exact answers_nil
  | fail error => exact answers_nil
  | ask op next ih => exact answers_cons.mpr ⟨h op state, ih _ _⟩

/-- Every program runs with the replies of an oracle that has an answer to everything. -/
theorem exists_runs_answers (answer : (op : S.Op) → S.Reply op) (p : Program S ε α) :
    ∃ trace result, Runs p trace result ∧ Answers (fun op => some (answer op)) trace := by
  induction p with
  | done value => exact ⟨[], _, .done value, answers_nil⟩
  | fail error => exact ⟨[], _, .fail error, answers_nil⟩
  | ask op next ih =>
      obtain ⟨trace, result, hrun, hanswers⟩ := ih (answer op)
      refine ⟨_, result, .ask op next (answer op) trace result hrun,
        answers_cons.mpr ⟨?_, hanswers⟩⟩
      exact fun reply hreply => Option.some.inj hreply

end Answers

namespace Program

/-- The same program with other errors and other values. -/
def translate (onError : ε → ε') (onValue : α → β) : Program S ε α → Program S ε' β
  | .done value => .done (onValue value)
  | .fail error => .fail (onError error)
  | .ask op next => .ask op fun reply => (next reply).translate onError onValue

variable {onError : ε → ε'} {onValue : α → α'} {onResult : β → β'}

/-- A sequence is translated part by part. -/
theorem translate_bind {p : Program S ε α} {f : α → Program S ε β}
    {f' : α' → Program S ε' β'}
    (hf : ∀ value, f' (onValue value) = (f value).translate onError onResult) :
    (p.translate onError onValue >>= f') = (p >>= f).translate onError onResult := by
  induction p with
  | done value => exact hf value
  | fail error => rfl
  | ask op next ih =>
      simp only [translate, ask_bind]
      exact congrArg (Program.ask op) (funext ih)

end Program

/-- A result with another error or another value. -/
def translated (onError : ε → ε') (onValue : α → β) : Except ε α → Except ε' β
  | .ok value => .ok (onValue value)
  | .error error => .error (onError error)

theorem runs_translate_iff {onError : ε → ε'} {onValue : α → β} {p : Program S ε α}
    {trace : List (Exchange S)} {result : Except ε' β} :
    Runs (p.translate onError onValue) trace result ↔
      ∃ own, Runs p trace own ∧ result = translated onError onValue own := by
  induction p generalizing trace with
  | done value => simp [Program.translate, translated]
  | fail error => simp [Program.translate, translated]
  | ask op next ih =>
      simp only [Program.translate, runs_ask_iff, ih]
      constructor
      · rintro ⟨reply, rest, rfl, own, hown, rfl⟩
        exact ⟨own, ⟨reply, rest, rfl, hown⟩, rfl⟩
      · rintro ⟨own, ⟨reply, rest, rfl, hown⟩, rfl⟩
        exact ⟨reply, rest, rfl, own, hown, rfl⟩

/-! ## Programs within programs -/

/-- The program with each operation carried out by a program that asks others. -/
def Program.interpret {T : Signature} (perform : (op : S.Op) → Program T ε (S.Reply op)) :
    Program S ε α → Program T ε α
  | .done value => .done value
  | .fail error => .fail error
  | .ask op next => (perform op).bind fun reply => (next reply).interpret perform

/-- It asks what the programs for the operations ask. -/
theorem Program.asks_interpret {T : Signature} {perform : (op : S.Op) → Program T ε (S.Reply op)}
    {P : T.Op → Prop} (hperform : ∀ op, (perform op).Asks P) (p : Program S ε α) :
    (p.interpret perform).Asks P := by
  induction p with
  | done value => trivial
  | fail error => trivial
  | ask op next ih => exact (hperform op).bind fun reply _ => ih reply

/-- A run of it comes to what a run of the program comes to, if no operation raises. -/
theorem exists_runs_of_interpret {T : Signature} {perform : (op : S.Op) → Program T ε (S.Reply op)}
    (hperform : ∀ op, (perform op).Unfailing) {p : Program S ε α} {trace : List (Exchange T)}
    {result : Except ε α} (h : Runs (p.interpret perform) trace result) :
    ∃ own, Runs p own result := by
  induction p generalizing trace with
  | done value =>
      obtain ⟨-, rfl⟩ := runs_done_iff.mp h
      exact ⟨[], .done value⟩
  | fail error =>
      obtain ⟨-, rfl⟩ := runs_fail_iff.mp h
      exact ⟨[], .fail error⟩
  | ask op next ih =>
      obtain ⟨reply, first, rest, -, hrest, -⟩ | ⟨error, herror, -⟩ := runs_bind_iff.mp h
      · obtain ⟨own, hown⟩ := ih reply hrest
        exact ⟨_, .ask op next reply own result hown⟩
      · obtain ⟨_, hvalue⟩ := (hperform op).exists_value herror
        cases hvalue

end Interaction
