import Mathlib.Data.List.Basic

/-! # Interactive programs and their traces

A program asks operations one after the other and continues with the reply. What
answers is left open: the trace relation `Runs` admits every reply, a handler computes
one, and a step relation on shared objects restricts which traces are possible.
-/

namespace Interaction

/-- The operations a program may ask, and the type of the reply to each. -/
structure Signature where
  Op : Type
  Reply : Op → Type

/-- One operation together with the reply it received. -/
structure Exchange (S : Signature) where
  op : S.Op
  reply : S.Reply op

/-- A program returns a value, raises an error, or asks and goes on with the reply. -/
inductive Program (S : Signature) (ε α : Type) : Type
  | done (value : α)
  | fail (error : ε)
  | ask (op : S.Op) (next : S.Reply op → Program S ε α)

variable {S : Signature} {ε α β γ σ : Type}

namespace Program

/-- Sequencing: the continuation runs on the value; an error skips it. -/
def bind : Program S ε α → (α → Program S ε β) → Program S ε β
  | .done value, f => f value
  | .fail error, _ => .fail error
  | .ask op next, f => .ask op fun reply => (next reply).bind f

instance : Monad (Program S ε) where
  pure := .done
  bind := .bind

/-- Ask one operation and return its reply. -/
def perform (op : S.Op) : Program S ε (S.Reply op) := .ask op .done

/-- Return the value of a computation that asks nothing, or raise its error. -/
def ofExcept : Except ε α → Program S ε α
  | .ok value => .done value
  | .error error => .fail error

/-- The same program, raising other errors. -/
def mapError {ε' : Type} (f : ε → ε') : Program S ε α → Program S ε' α
  | .done value => .done value
  | .fail error => .fail (f error)
  | .ask op next => .ask op fun reply => (next reply).mapError f

/-- Run the handler when the program raises an error. -/
def handle {ε' : Type} (handler : ε → Program S ε' α) : Program S ε α → Program S ε' α
  | .done value => .done value
  | .fail error => handler error
  | .ask op next => .ask op fun reply => (next reply).handle handler

/-- The same program, returning its error instead of raising it. -/
def settle {ε' : Type} (p : Program S ε α) : Program S ε' (Except ε α) :=
  (p.bind fun value => .done (.ok value)).handle fun error => .done (.error error)

/-- The program, ended with this error where it would ask a forbidden operation. -/
def halt (forbidden : S.Op → Bool) (error : ε) : Program S ε α → Program S ε α
  | .done value => .done value
  | .fail own => .fail own
  | .ask op next =>
      if forbidden op then .fail error
      else .ask op fun reply => (next reply).halt forbidden error

@[simp] theorem done_bind (value : α) (f : α → Program S ε β) :
    (Program.done value >>= f) = f value := rfl

@[simp] theorem fail_bind (error : ε) (f : α → Program S ε β) :
    ((Program.fail error : Program S ε α) >>= f) = .fail error := rfl

@[simp] theorem ask_bind (op : S.Op) (next : S.Reply op → Program S ε α)
    (f : α → Program S ε β) :
    (Program.ask op next >>= f) = .ask op fun reply => next reply >>= f := rfl

@[simp] theorem ofExcept_ok (value : α) :
    (ofExcept (.ok value) : Program S ε α) = .done value := rfl

@[simp] theorem ofExcept_error (error : ε) :
    (ofExcept (.error error) : Program S ε α) = .fail error := rfl

theorem bind_done (p : Program S ε α) : (p >>= Program.done) = p := by
  induction p with
  | done value => rfl
  | fail error => rfl
  | ask op next ih =>
      rw [ask_bind]
      exact congrArg (Program.ask op) (funext ih)

theorem bind_assoc (p : Program S ε α) (f : α → Program S ε β) (g : β → Program S ε γ) :
    ((p >>= f) >>= g) = (p >>= fun value => f value >>= g) := by
  induction p with
  | done value => rfl
  | fail error => rfl
  | ask op next ih =>
      simp only [ask_bind]
      exact congrArg (Program.ask op) (funext ih)

instance : LawfulMonad (Program S ε) := LawfulMonad.mk' _ bind_done (fun _ _ => rfl) bind_assoc

end Program

/-- `Runs p trace result`: with the replies recorded in `trace`, the program `p` comes to
`result`. Nothing restricts the replies. -/
inductive Runs : Program S ε α → List (Exchange S) → Except ε α → Prop
  | done (value : α) : Runs (.done value) [] (.ok value)
  | fail (error : ε) : Runs (.fail error) [] (.error error)
  | ask (op : S.Op) (next : S.Reply op → Program S ε α) (reply : S.Reply op)
      (trace : List (Exchange S)) (result : Except ε α) (rest : Runs (next reply) trace result) :
      Runs (.ask op next) (⟨op, reply⟩ :: trace) result

@[simp] theorem runs_done_iff {value : α} {trace : List (Exchange S)} {result : Except ε α} :
    Runs (.done value) trace result ↔ trace = [] ∧ result = .ok value := by
  constructor
  · intro h
    cases h
    exact ⟨rfl, rfl⟩
  · rintro ⟨rfl, rfl⟩
    exact .done value

@[simp] theorem runs_pure_iff {value : α} {trace : List (Exchange S)} {result : Except ε α} :
    Runs (pure value) trace result ↔ trace = [] ∧ result = .ok value := runs_done_iff

@[simp] theorem runs_fail_iff {error : ε} {trace : List (Exchange S)} {result : Except ε α} :
    Runs (.fail error) trace result ↔ trace = [] ∧ result = .error error := by
  constructor
  · intro h
    cases h
    exact ⟨rfl, rfl⟩
  · rintro ⟨rfl, rfl⟩
    exact .fail error

theorem runs_ask_iff {op : S.Op} {next : S.Reply op → Program S ε α}
    {trace : List (Exchange S)} {result : Except ε α} :
    Runs (.ask op next) trace result ↔
      ∃ reply rest, trace = ⟨op, reply⟩ :: rest ∧ Runs (next reply) rest result := by
  constructor
  · intro h
    cases h with
    | ask _ _ reply rest _ hrest => exact ⟨reply, rest, rfl, hrest⟩
  · rintro ⟨reply, rest, rfl, hrest⟩
    exact .ask op next reply rest result hrest

@[simp] theorem runs_perform_iff {op : S.Op} {trace : List (Exchange S)}
    {result : Except ε (S.Reply op)} :
    Runs (Program.perform op) trace result ↔
      ∃ reply, trace = [⟨op, reply⟩] ∧ result = .ok reply := by
  simp only [Program.perform, runs_ask_iff, runs_done_iff]
  constructor
  · rintro ⟨reply, rest, rfl, rfl, rfl⟩
    exact ⟨reply, rfl, rfl⟩
  · rintro ⟨reply, rfl, rfl⟩
    exact ⟨reply, [], rfl, rfl, rfl⟩

@[simp] theorem runs_ofExcept_iff {value : Except ε α} {trace : List (Exchange S)}
    {result : Except ε α} :
    Runs (Program.ofExcept value) trace result ↔ trace = [] ∧ result = value := by
  cases value with
  | ok value => exact runs_done_iff
  | error error => exact runs_fail_iff

theorem Runs.bind {p : Program S ε α} {f : α → Program S ε β} {value : α}
    {first second : List (Exchange S)} {result : Except ε β}
    (hfirst : Runs p first (.ok value)) (hsecond : Runs (f value) second result) :
    Runs (p >>= f) (first ++ second) result := by
  induction p generalizing first with
  | done own =>
      obtain ⟨rfl, hvalue⟩ := runs_done_iff.mp hfirst
      cases hvalue
      exact hsecond
  | fail error => simp at hfirst
  | ask op next ih =>
      obtain ⟨reply, rest, rfl, hrest⟩ := runs_ask_iff.mp hfirst
      exact runs_ask_iff.mpr ⟨reply, rest ++ second, rfl, ih reply hrest⟩

theorem Runs.bind_error {p : Program S ε α} {f : α → Program S ε β} {error : ε}
    {trace : List (Exchange S)} (h : Runs p trace (.error error)) :
    Runs (p >>= f) trace (.error error) := by
  induction p generalizing trace with
  | done own => simp at h
  | fail own =>
      obtain ⟨rfl, herror⟩ := runs_fail_iff.mp h
      cases herror
      exact runs_fail_iff.mpr ⟨rfl, rfl⟩
  | ask op next ih =>
      obtain ⟨reply, rest, rfl, hrest⟩ := runs_ask_iff.mp h
      exact runs_ask_iff.mpr ⟨reply, rest, rfl, ih reply hrest⟩

/-- A run of a sequence is a run of its first part, followed by a run of the continuation
unless the first part raised. -/
theorem runs_bind_iff {p : Program S ε α} {f : α → Program S ε β}
    {trace : List (Exchange S)} {result : Except ε β} :
    Runs (p >>= f) trace result ↔
      (∃ value first second, Runs p first (.ok value) ∧ Runs (f value) second result ∧
        trace = first ++ second) ∨
      (∃ error, Runs p trace (.error error) ∧ result = .error error) := by
  constructor
  · intro h
    induction p generalizing trace with
    | done own => exact Or.inl ⟨own, [], trace, .done own, h, rfl⟩
    | fail error =>
        obtain ⟨rfl, rfl⟩ := runs_fail_iff.mp h
        exact Or.inr ⟨error, .fail error, rfl⟩
    | ask op next ih =>
        obtain ⟨reply, rest, rfl, hrest⟩ := runs_ask_iff.mp h
        rcases ih reply hrest with
          ⟨value, first, second, hfirst, hsecond, rfl⟩ | ⟨error, herror, rfl⟩
        · exact Or.inl ⟨value, ⟨op, reply⟩ :: first, second,
            runs_ask_iff.mpr ⟨reply, first, rfl, hfirst⟩, hsecond, rfl⟩
        · exact Or.inr ⟨error, runs_ask_iff.mpr ⟨reply, rest, rfl, herror⟩, rfl⟩
  · rintro (⟨value, first, second, hfirst, hsecond, rfl⟩ | ⟨error, herror, rfl⟩)
    · exact hfirst.bind hsecond
    · exact herror.bind_error

theorem runs_bind_ok_iff {p : Program S ε α} {f : α → Program S ε β}
    {trace : List (Exchange S)} {value : β} :
    Runs (p >>= f) trace (.ok value) ↔
      ∃ middle first second, Runs p first (.ok middle) ∧ Runs (f middle) second (.ok value) ∧
        trace = first ++ second := by
  simp [runs_bind_iff]

theorem runs_mapError_iff {ε' : Type} {f : ε → ε'} {p : Program S ε α}
    {trace : List (Exchange S)} {result : Except ε' α} :
    Runs (p.mapError f) trace result ↔ ∃ own, Runs p trace own ∧ result = own.mapError f := by
  induction p generalizing trace with
  | done value => simp [Program.mapError, Except.mapError]
  | fail error => simp [Program.mapError, Except.mapError]
  | ask op next ih =>
      simp only [Program.mapError, runs_ask_iff, ih]
      constructor
      · rintro ⟨reply, rest, rfl, own, hown, rfl⟩
        exact ⟨own, ⟨reply, rest, rfl, hown⟩, rfl⟩
      · rintro ⟨own, ⟨reply, rest, rfl, hown⟩, rfl⟩
        exact ⟨reply, rest, rfl, own, hown, rfl⟩

theorem runs_handle_iff {ε' : Type} {handler : ε → Program S ε' α} {p : Program S ε α}
    {trace : List (Exchange S)} {result : Except ε' α} :
    Runs (p.handle handler) trace result ↔
      (∃ value, Runs p trace (.ok value) ∧ result = .ok value) ∨
      ∃ error first second, Runs p first (.error error) ∧ Runs (handler error) second result ∧
        trace = first ++ second := by
  induction p generalizing trace with
  | done value => simp [Program.handle]
  | fail error => simp [Program.handle]
  | ask op next ih =>
      simp only [Program.handle, runs_ask_iff, ih]
      constructor
      · rintro ⟨reply, rest, rfl,
          ⟨value, hvalue, rfl⟩ | ⟨error, first, second, hfirst, hsecond, rfl⟩⟩
        · exact Or.inl ⟨value, ⟨reply, rest, rfl, hvalue⟩, rfl⟩
        · exact Or.inr ⟨error, _, second, ⟨reply, first, rfl, hfirst⟩, hsecond, rfl⟩
      · rintro (⟨value, ⟨reply, rest, rfl, hvalue⟩, rfl⟩ |
          ⟨error, _, second, ⟨reply, first, rfl, hfirst⟩, hsecond, rfl⟩)
        · exact ⟨reply, rest, rfl, Or.inl ⟨value, hvalue, rfl⟩⟩
        · exact ⟨reply, _, rfl, Or.inr ⟨error, first, second, hfirst, hsecond, rfl⟩⟩

/-- A settled program makes the runs of the program, and returns what they come to. -/
theorem runs_settle_iff {ε' : Type} {p : Program S ε α} {trace : List (Exchange S)}
    {result : Except ε' (Except ε α)} :
    Runs p.settle trace result ↔ ∃ own, Runs p trace own ∧ result = .ok own := by
  have hbind : ∀ {trace : List (Exchange S)} {own : Except ε (Except ε α)},
      Runs (p.bind fun value => .done (.ok value)) trace own ↔
        (∃ value, Runs p trace (.ok value) ∧ own = .ok (.ok value)) ∨
          ∃ error, Runs p trace (.error error) ∧ own = .error error := by
    intro trace own
    refine runs_bind_iff.trans (or_congr_left ?_)
    simp only [runs_done_iff]
    constructor
    · rintro ⟨value, first, second, hfirst, ⟨rfl, rfl⟩, rfl⟩
      exact ⟨value, by rwa [List.append_nil], rfl⟩
    · rintro ⟨value, hvalue, rfl⟩
      exact ⟨value, trace, [], hvalue, ⟨rfl, rfl⟩, (List.append_nil _).symm⟩
  rw [Program.settle, runs_handle_iff]
  simp only [hbind, runs_done_iff]
  constructor
  · rintro (⟨own, ⟨value, hvalue, hown⟩ | ⟨error, -, hown⟩, rfl⟩ |
      ⟨error, first, second, ⟨value, -, hown⟩ | ⟨own, herror, hown⟩, ⟨rfl, rfl⟩, rfl⟩)
    · exact ⟨_, hvalue, congrArg _ (Except.ok.inj hown)⟩
    · cases hown
    · cases hown
    · rw [List.append_nil, Except.error.inj hown]
      exact ⟨_, herror, rfl⟩
  · rintro ⟨own, hown, rfl⟩
    cases own with
    | ok value => exact Or.inl ⟨_, Or.inl ⟨value, hown, rfl⟩, rfl⟩
    | error error =>
        exact Or.inr ⟨error, trace, [], Or.inr ⟨error, hown, rfl⟩, ⟨rfl, rfl⟩,
          (List.append_nil _).symm⟩

/-! ## Footprints and postconditions -/

namespace Program

/-- Whatever the replies, the program asks only operations in `P` and returns only values
in `Q`. -/
def Respects (P : S.Op → Prop) (Q : α → Prop) : Program S ε α → Prop
  | .done value => Q value
  | .fail _ => True
  | .ask op next => P op ∧ ∀ reply, (next reply).Respects P Q

/-- Every operation the program can ever ask satisfies `P`. -/
abbrev Asks (P : S.Op → Prop) (p : Program S ε α) : Prop := p.Respects P fun _ => True

/-- Every value the program can ever return satisfies `Q`. -/
abbrev Returns (Q : α → Prop) (p : Program S ε α) : Prop := p.Respects (fun _ => True) Q

variable {P P' : S.Op → Prop} {Q Q' : α → Prop} {R : β → Prop}

@[simp] theorem respects_done_iff {value : α} :
    (done value : Program S ε α).Respects P Q ↔ Q value := Iff.rfl

@[simp] theorem respects_pure_iff {value : α} :
    (pure value : Program S ε α).Respects P Q ↔ Q value := Iff.rfl

@[simp] theorem respects_fail (error : ε) : (fail error : Program S ε α).Respects P Q := trivial

@[simp] theorem respects_perform_iff {op : S.Op} {Q : S.Reply op → Prop} :
    (perform op : Program S ε (S.Reply op)).Respects P Q ↔ P op ∧ ∀ reply, Q reply := Iff.rfl

@[simp] theorem respects_ofExcept_iff {value : Except ε α} :
    (ofExcept value : Program S ε α).Respects P Q ↔ ∀ result, value = .ok result → Q result := by
  cases value with
  | ok value => simp [ofExcept]
  | error error => simp [ofExcept]

theorem Respects.bind {p : Program S ε α} {f : α → Program S ε β} (hp : p.Respects P Q)
    (hf : ∀ value, Q value → (f value).Respects P R) : (p >>= f).Respects P R := by
  induction p with
  | done value => exact hf value hp
  | fail error => trivial
  | ask op next ih => exact ⟨hp.1, fun reply => ih reply (hp.2 reply)⟩

theorem Respects.mono {p : Program S ε α} (hp : p.Respects P Q) (hP : ∀ op, P op → P' op)
    (hQ : ∀ value, Q value → Q' value) : p.Respects P' Q' := by
  induction p with
  | done value => exact hQ value hp
  | fail error => trivial
  | ask op next ih => exact ⟨hP op hp.1, fun reply => ih reply (hp.2 reply)⟩

theorem Respects.and {p : Program S ε α} (hp : p.Respects P Q) (hp' : p.Respects P' Q') :
    p.Respects (fun op => P op ∧ P' op) fun value => Q value ∧ Q' value := by
  induction p with
  | done value => exact ⟨hp, hp'⟩
  | fail error => trivial
  | ask op next ih => exact ⟨⟨hp.1, hp'.1⟩, fun reply => ih reply (hp.2 reply) (hp'.2 reply)⟩

/-- Footprint and postcondition may be shown one by one. -/
theorem Respects.of_asks {p : Program S ε α} (hP : p.Asks P) (hQ : p.Returns Q) :
    p.Respects P Q := (hP.and hQ).mono (fun _ h => h.1) fun _ h => h.2

theorem Respects.mapError {ε' : Type} {f : ε → ε'} {p : Program S ε α} (hp : p.Respects P Q) :
    (p.mapError f).Respects P Q := by
  induction p with
  | done value => exact hp
  | fail error => trivial
  | ask op next ih => exact ⟨hp.1, fun reply => ih reply (hp.2 reply)⟩

theorem Respects.asks {p : Program S ε α} (hp : p.Respects P Q) : p.Asks P :=
  hp.mono (fun _ h => h) fun _ _ => trivial

theorem asks_halt (forbidden : S.Op → Bool) (error : ε) (p : Program S ε α) :
    (p.halt forbidden error).Asks fun op => forbidden op = false := by
  induction p with
  | done value => trivial
  | fail own => trivial
  | ask op next ih =>
      rw [halt]
      split
      · trivial
      next hallowed => exact ⟨Bool.eq_false_iff.mpr hallowed, ih⟩

/-- A program that asks nothing forbidden is not halted. -/
theorem halt_eq_of_asks {forbidden : S.Op → Bool} {error : ε} {p : Program S ε α}
    (h : p.Asks fun op => forbidden op = false) : p.halt forbidden error = p := by
  induction p with
  | done value => rfl
  | fail own => rfl
  | ask op next ih =>
      rw [halt, if_neg (Bool.eq_false_iff.mp h.1)]
      exact congrArg (Program.ask op) (funext fun reply => ih reply (h.2 reply))

theorem Respects.of_runs {p : Program S ε α} (hp : p.Respects P Q) {trace : List (Exchange S)}
    {result : Except ε α} (h : Runs p trace result) :
    (∀ exchange ∈ trace, P exchange.op) ∧ ∀ value, result = .ok value → Q value := by
  induction p generalizing trace with
  | done value =>
      obtain ⟨rfl, rfl⟩ := runs_done_iff.mp h
      exact ⟨by simp, fun _ heq => Except.ok.inj heq ▸ hp⟩
  | fail error =>
      obtain ⟨rfl, rfl⟩ := runs_fail_iff.mp h
      simp
  | ask op next ih =>
      obtain ⟨reply, rest, rfl, hrest⟩ := runs_ask_iff.mp h
      obtain ⟨hasks, hreturns⟩ := ih reply (hp.2 reply) hrest
      refine ⟨fun exchange hmem => ?_, hreturns⟩
      rcases List.mem_cons.mp hmem with rfl | hmem
      · exact hp.1
      · exact hasks exchange hmem

theorem Respects.asks_of_runs {p : Program S ε α} (hp : p.Respects P Q)
    {trace : List (Exchange S)} {result : Except ε α} (h : Runs p trace result) :
    ∀ exchange ∈ trace, P exchange.op := (hp.of_runs h).1

theorem Respects.returns_of_runs {p : Program S ε α} (hp : p.Respects P Q)
    {trace : List (Exchange S)} {value : α} (h : Runs p trace (.ok value)) : Q value :=
  (hp.of_runs h).2 value rfl

/-- What does nothing to the values a program returns can be left out. -/
theorem bind_eq_of_respects {p : Program S ε α} {f : α → Program S ε α} (hp : p.Respects P Q)
    (hf : ∀ value, Q value → f value = pure value) : p >>= f = p := by
  induction p with
  | done value => exact hf value hp
  | fail error => rfl
  | ask op next ih => exact congrArg (ask op) (funext fun reply => ih reply (hp.2 reply))

/-! ## Promises about the replies -/

section Ensures

variable {G : (op : S.Op) → S.Reply op → Prop}

/-- As long as the replies are in `G`, the program asks only operations in `P` and returns
only values in `Q`. -/
def Ensures (G : (op : S.Op) → S.Reply op → Prop) (P : S.Op → Prop) (Q : α → Prop) :
    Program S ε α → Prop
  | .done value => Q value
  | .fail _ => True
  | .ask op next => P op ∧ ∀ reply, G op reply → (next reply).Ensures G P Q

@[simp] theorem ensures_done_iff {value : α} :
    (done value : Program S ε α).Ensures G P Q ↔ Q value := Iff.rfl

@[simp] theorem ensures_pure_iff {value : α} :
    (pure value : Program S ε α).Ensures G P Q ↔ Q value := Iff.rfl

@[simp] theorem ensures_fail (error : ε) : (fail error : Program S ε α).Ensures G P Q := trivial

@[simp] theorem ensures_ofExcept_iff {value : Except ε α} :
    (ofExcept value : Program S ε α).Ensures G P Q ↔ ∀ result, value = .ok result → Q result := by
  cases value with
  | ok value => simp [ofExcept]
  | error error => simp [ofExcept]

/-- Without a promise this is the footprint with the postcondition. -/
theorem respects_iff_ensures {p : Program S ε α} :
    p.Respects P Q ↔ p.Ensures (fun _ _ => True) P Q := by
  induction p with
  | done value => rfl
  | fail error => rfl
  | ask op next ih =>
      exact and_congr_right fun _ => forall_congr' fun reply =>
        (ih reply).trans (true_imp_iff).symm

theorem Ensures.bind {p : Program S ε α} {f : α → Program S ε β} (hp : p.Ensures G P Q)
    (hf : ∀ value, Q value → (f value).Ensures G P R) : (p >>= f).Ensures G P R := by
  induction p with
  | done value => exact hf value hp
  | fail error => trivial
  | ask op next ih => exact ⟨hp.1, fun reply hreply => ih reply (hp.2 reply hreply)⟩

theorem Ensures.mono {p : Program S ε α} (hp : p.Ensures G P Q) (hQ : ∀ value, Q value → Q' value) :
    p.Ensures G P Q' := by
  induction p with
  | done value => exact hQ value hp
  | fail error => trivial
  | ask op next ih => exact ⟨hp.1, fun reply hreply => ih reply (hp.2 reply hreply)⟩

theorem Ensures.mapError {ε' : Type} {f : ε → ε'} {p : Program S ε α} (hp : p.Ensures G P Q) :
    (p.mapError f).Ensures G P Q := by
  induction p with
  | done value => exact hp
  | fail error => trivial
  | ask op next ih => exact ⟨hp.1, fun reply hreply => ih reply (hp.2 reply hreply)⟩

theorem Respects.ensures {p : Program S ε α} (hp : p.Respects P Q) : p.Ensures G P Q := by
  induction p with
  | done value => exact hp
  | fail error => trivial
  | ask op next ih => exact ⟨hp.1, fun reply _ => ih reply (hp.2 reply)⟩

/-- In a run whose replies keep the promise, all operations are in `P`. -/
theorem Ensures.asks_of_runs {p : Program S ε α} (hp : p.Ensures G P Q)
    {trace : List (Exchange S)} {result : Except ε α} (h : Runs p trace result)
    (hreplies : ∀ exchange ∈ trace, G exchange.op exchange.reply) :
    ∀ exchange ∈ trace, P exchange.op := by
  induction p generalizing trace with
  | done value =>
      obtain ⟨rfl, -⟩ := runs_done_iff.mp h
      simp
  | fail error =>
      obtain ⟨rfl, -⟩ := runs_fail_iff.mp h
      simp
  | ask op next ih =>
      obtain ⟨reply, rest, rfl, hrest⟩ := runs_ask_iff.mp h
      obtain ⟨hreply, hall⟩ := List.forall_mem_cons.mp hreplies
      exact List.forall_mem_cons.mpr ⟨hp.1, ih reply (hp.2 reply hreply) hrest hall⟩

/-- In a run whose replies keep the promise, the returned value is in `Q`. -/
theorem Ensures.returns_of_runs {p : Program S ε α} (hp : p.Ensures G P Q)
    {trace : List (Exchange S)} {value : α} (h : Runs p trace (.ok value))
    (hreplies : ∀ exchange ∈ trace, G exchange.op exchange.reply) : Q value := by
  induction p generalizing trace with
  | done own =>
      obtain ⟨-, hvalue⟩ := runs_done_iff.mp h
      exact Except.ok.inj hvalue ▸ hp
  | fail error => simp at h
  | ask op next ih =>
      obtain ⟨reply, rest, rfl, hrest⟩ := runs_ask_iff.mp h
      obtain ⟨hreply, hall⟩ := List.forall_mem_cons.mp hreplies
      exact ih reply (hp.2 reply hreply) hrest hall

end Ensures

/-- Whatever the replies, the program raises no error. -/
def Unfailing : Program S ε α → Prop
  | .done _ => True
  | .fail _ => False
  | .ask _ next => ∀ reply, (next reply).Unfailing

@[simp] theorem unfailing_done (value : α) : (done value : Program S ε α).Unfailing := trivial

@[simp] theorem unfailing_pure (value : α) : (pure value : Program S ε α).Unfailing := trivial

theorem Unfailing.bind {p : Program S ε α} {f : α → Program S ε β} (hp : p.Unfailing)
    (hf : ∀ value, (f value).Unfailing) : (p >>= f).Unfailing := by
  induction p with
  | done value => exact hf value
  | fail error => exact hp.elim
  | ask op next ih => exact fun reply => ih reply (hp reply)

/-- A continuation need only raise nothing on the values the program returns. -/
theorem Unfailing.bind_of_runs {p : Program S ε α} {f : α → Program S ε β} (hp : p.Unfailing)
    (hf : ∀ trace value, Runs p trace (.ok value) → (f value).Unfailing) :
    (p >>= f).Unfailing := by
  induction p with
  | done value => exact hf [] value (.done value)
  | fail error => exact hp.elim
  | ask op next ih =>
      intro reply
      apply ih reply (hp reply)
      intro trace value hrun
      exact hf _ value (runs_ask_iff.mpr ⟨reply, trace, rfl, hrun⟩)

theorem Unfailing.exists_value {p : Program S ε α} (hp : p.Unfailing) {trace : List (Exchange S)}
    {result : Except ε α} (h : Runs p trace result) : ∃ value, result = .ok value := by
  induction p generalizing trace with
  | done value => exact ⟨value, (runs_done_iff.mp h).2⟩
  | fail error => exact hp.elim
  | ask op next ih =>
      obtain ⟨reply, rest, -, hrest⟩ := runs_ask_iff.mp h
      exact ih reply (hp reply) hrest

end Program

/-! ## Handlers -/

/-- A handler answers every operation from a state of its own. -/
structure Handler (S : Signature) (σ : Type) where
  answer : (op : S.Op) → σ → S.Reply op × σ

/-- What a handled program leaves behind: its trace, its result and the handler's state. -/
structure Outcome (S : Signature) (ε α σ : Type) where
  trace : List (Exchange S)
  result : Except ε α
  state : σ

namespace Program

/-- Run a program against a handler. -/
def exec (handler : Handler S σ) : Program S ε α → σ → Outcome S ε α σ
  | .done value, state => ⟨[], .ok value, state⟩
  | .fail error, state => ⟨[], .error error, state⟩
  | .ask op next, state =>
      let answered := handler.answer op state
      let rest := (next answered.1).exec handler answered.2
      ⟨⟨op, answered.1⟩ :: rest.trace, rest.result, rest.state⟩

/-- A handled run is one of the program's runs. -/
theorem runs_exec (handler : Handler S σ) (p : Program S ε α) (state : σ) :
    Runs p (p.exec handler state).trace (p.exec handler state).result := by
  induction p generalizing state with
  | done value => exact .done value
  | fail error => exact .fail error
  | ask op next ih => exact runs_ask_iff.mpr ⟨_, _, rfl, ih _ _⟩

/-- The replies of a handled run are answers of the handler. -/
theorem exists_answer_of_exec (handler : Handler S σ) (p : Program S ε α) (state : σ)
    {exchange : Exchange S} (h : exchange ∈ (p.exec handler state).trace) :
    ∃ own, exchange.reply = (handler.answer exchange.op own).1 := by
  induction p generalizing state with
  | done value => cases h
  | fail error => cases h
  | ask op next ih =>
      rcases List.mem_cons.mp h with rfl | hrest
      · exact ⟨state, rfl⟩
      · exact ih _ _ hrest

@[simp] theorem exec_done (handler : Handler S σ) (value : α) (state : σ) :
    (done value : Program S ε α).exec handler state = ⟨[], .ok value, state⟩ := rfl

@[simp] theorem exec_pure (handler : Handler S σ) (value : α) (state : σ) :
    (pure value : Program S ε α).exec handler state = ⟨[], .ok value, state⟩ := rfl

@[simp] theorem exec_fail (handler : Handler S σ) (error : ε) (state : σ) :
    (fail error : Program S ε α).exec handler state = ⟨[], .error error, state⟩ := rfl

end Program

/-! ## Shared objects -/

/-- The trace is possible for objects that start in `first` and end in `last` when each
exchange changes them as `step` allows. -/
inductive Follows (step : σ → Exchange S → σ → Prop) : σ → List (Exchange S) → σ → Prop
  | nil (state : σ) : Follows step state [] state
  | cons {first middle last : σ} {exchange : Exchange S} {trace : List (Exchange S)}
      (head : step first exchange middle) (tail : Follows step middle trace last) :
      Follows step first (exchange :: trace) last

namespace Follows

variable {step : σ → Exchange S → σ → Prop}

@[simp] theorem nil_iff {first last : σ} : Follows step first [] last ↔ last = first := by
  constructor
  · intro h
    cases h
    rfl
  · rintro rfl
    exact .nil _

@[simp] theorem cons_iff {first last : σ} {exchange : Exchange S} {trace : List (Exchange S)} :
    Follows step first (exchange :: trace) last ↔
      ∃ middle, step first exchange middle ∧ Follows step middle trace last := by
  constructor
  · intro h
    cases h with
    | cons head tail => exact ⟨_, head, tail⟩
  · rintro ⟨middle, head, tail⟩
    exact .cons head tail

@[simp] theorem append_iff {first last : σ} {before after : List (Exchange S)} :
    Follows step first (before ++ after) last ↔
      ∃ middle, Follows step first before middle ∧ Follows step middle after last := by
  induction before generalizing first with
  | nil => simp
  | cons exchange before ih =>
      simp only [List.cons_append, cons_iff, ih]
      constructor
      · rintro ⟨state, head, middle, hbefore, hafter⟩
        exact ⟨middle, ⟨state, head, hbefore⟩, hafter⟩
      · rintro ⟨middle, ⟨state, head, hbefore⟩, hafter⟩
        exact ⟨state, head, middle, hbefore, hafter⟩

/-- What every step preserves, the whole trace preserves. -/
theorem preserves {I : σ → Prop} {first last : σ} {trace : List (Exchange S)}
    (h : Follows step first trace last)
    (hstep : ∀ state exchange next, exchange ∈ trace → I state → step state exchange next →
      I next)
    (hfirst : I first) : I last := by
  induction h with
  | nil state => exact hfirst
  | cons head tail ih =>
      refine ih ?_ (hstep _ _ _ List.mem_cons_self hfirst head)
      intro state exchange next hmem
      exact hstep state exchange next (List.mem_cons_of_mem _ hmem)

end Follows

end Interaction
