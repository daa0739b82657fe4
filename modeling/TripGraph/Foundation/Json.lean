import Mathlib.Algebra.Ring.Nat
import Mathlib.Data.List.Basic
import Mathlib.Data.List.TakeWhile

/-! # JSON texts

A reader takes what it reads off the front of a text. The texts of numbers, names and strings
are kept as they are written; what they stand for is left to whoever uses the syntax tree.
Whatever is read is balanced, and is read again in front of anything else.
-/

namespace Interaction

/-- A JSON value as written: a name or a number, a string without its quotes, or a group. -/
inductive Json
  | atom (text : List Char)
  | str (text : List Char)
  | arr (items : List Json)
  | obj (members : List (List Char × Json))

namespace Json

/-! ## Reading -/

/-- A value read off the front of a text, with the rest of the text. -/
abbrev Reader (α : Type) := List Char → Option (α × List Char)

def isBlank (c : Char) : Bool := c == ' ' || c == '\t' || c == '\n' || c == '\r'

def skipBlanks (text : List Char) : List Char := text.dropWhile isBlank

/-- Digits after a sign that may be missing. -/
def isExponent : List Char → Bool
  | [] => false
  | c :: rest => if c = '+' ∨ c = '-' then !rest.isEmpty && rest.all Char.isDigit
      else (c :: rest).all Char.isDigit

/-- What may follow the digits of a number: nothing, or an exponent. -/
def isScaled : List Char → Bool
  | [] => true
  | c :: rest => (c == 'e' || c == 'E') && isExponent rest

/-- What may follow the whole part of a number. -/
def isFraction : List Char → Bool
  | '.' :: rest => !(rest.takeWhile Char.isDigit).isEmpty && isScaled (rest.dropWhile Char.isDigit)
  | rest => isScaled rest

def isUnsigned (text : List Char) : Bool :=
  let whole := text.takeWhile Char.isDigit
  (whole == ['0'] || !whole.isEmpty && whole.head? != some '0') &&
    isFraction (text.dropWhile Char.isDigit)

/-- A number, also one without a value, or one of the three names. -/
def isAtom (text : List Char) : Bool :=
  let unsigned := if text.head? = some '-' then text.tail else text
  text == "true".toList || text == "false".toList || text == "null".toList ||
    text == "NaN".toList || unsigned == "Infinity".toList || isUnsigned unsigned

def isAtomChar (c : Char) : Bool := c.isAlphanum || c == '+' || c == '-' || c == '.'

def atom? (text : List Char) : Option (Json × List Char) :=
  let own := text.takeWhile isAtomChar
  if isAtom own then some (.atom own, text.dropWhile isAtomChar) else none

/-- Where a string is being read: in plain text, after a backslash, or in front of this many
and one more hexadecimal digits. -/
inductive StringState
  | plain
  | escape
  | digits (more : Nat)

/-- The state behind a hexadecimal digit. -/
def StringState.afterDigit : Nat → StringState
  | 0 => .plain
  | more + 1 => .digits more

def isHexDigit (c : Char) : Bool :=
  c.isDigit || decide ('a' ≤ c ∧ c ≤ 'f') || decide ('A' ≤ c ∧ c ≤ 'F')

/-- The text of a string up to its closing quote. -/
def stringFrom : StringState → Reader (List Char)
  | _, [] => none
  | .plain, c :: rest =>
      if c = '"' then some ([], rest)
      else if c = '\\' then (stringFrom .escape rest).map fun own => (c :: own.1, own.2)
      else if c.toNat < 32 then none
      else (stringFrom .plain rest).map fun own => (c :: own.1, own.2)
  | .escape, c :: rest =>
      if c = 'u' then (stringFrom (.digits 3) rest).map fun own => (c :: own.1, own.2)
      else if c ∈ ['"', '\\', '/', 'b', 'f', 'n', 'r', 't'] then
        (stringFrom .plain rest).map fun own => (c :: own.1, own.2)
      else none
  | .digits more, c :: rest =>
      if isHexDigit c then
        (stringFrom (.afterDigit more) rest).map fun own => (c :: own.1, own.2)
      else none

variable {α : Type}

/-- Elements with a comma between them, up to the closing bracket. -/
def sequence (element : Reader α) (closer : Char) : Nat → Reader (List α)
  | 0, _ => none
  | fuel + 1, text =>
      match element text with
      | none => none
      | some (item, after) =>
          match skipBlanks after with
          | [] => none
          | c :: rest =>
              if c = closer then some ([item], rest)
              else if c = ',' then
                (sequence element closer fuel (skipBlanks rest)).map fun own =>
                  (item :: own.1, own.2)
              else none

/-- What stands behind an opening bracket, up to the closing one. -/
def group (element : Reader α) (closer : Char) (fuel : Nat) (text : List Char) :
    Option (List α × List Char) :=
  match skipBlanks text with
  | [] => none
  | c :: rest => if c = closer then some ([], rest) else sequence element closer fuel (c :: rest)

/-- A string, a colon and a value. -/
def member (element : Reader Json) : Reader (List Char × Json)
  | [] => none
  | quote :: rest =>
      if quote = '"' then
        match stringFrom .plain rest with
        | none => none
        | some (key, after) =>
            match skipBlanks after with
            | [] => none
            | c :: behind =>
                if c = ':' then (element (skipBlanks behind)).map fun own => ((key, own.1), own.2)
                else none
      else none

/-- A value; the fuel bounds its depth and the length of its groups. -/
def value : Nat → Reader Json
  | 0, _ => none
  | _ + 1, [] => none
  | fuel + 1, c :: rest =>
      if c = '"' then (stringFrom .plain rest).map fun own => (.str own.1, own.2)
      else if c = '[' then (group (value fuel) ']' fuel rest).map fun own => (.arr own.1, own.2)
      else if c = '{' then
        (group (member (value fuel)) '}' fuel rest).map fun own => (.obj own.1, own.2)
      else atom? (c :: rest)

/-- The value of a whole text. -/
def loads (text : List Char) : Option Json :=
  match value (text.length + 1) (skipBlanks text) with
  | none => none
  | some (own, rest) => if skipBlanks rest = [] then some own else none

/-! ## Balanced texts -/

def isPlain (c : Char) : Bool := decide (c ∉ ['"', '[', ']', '{', '}'])

/-- A text whose brackets are balanced outside its strings. -/
inductive Balanced : List Char → Prop
  | nil : Balanced []
  | plain (c : Char) (rest : List Char) (h : isPlain c = true) (hrest : Balanced rest) :
      Balanced (c :: rest)
  | quoted (text rest : List Char) (h : stringFrom .plain (text ++ ['"']) = some (text, []))
      (hrest : Balanced rest) : Balanced ('"' :: text ++ '"' :: rest)
  | square (inner rest : List Char) (hinner : Balanced inner) (hrest : Balanced rest) :
      Balanced ('[' :: inner ++ ']' :: rest)
  | curly (inner rest : List Char) (hinner : Balanced inner) (hrest : Balanced rest) :
      Balanced ('{' :: inner ++ '}' :: rest)

theorem Balanced.append {first second : List Char} (hfirst : Balanced first)
    (hsecond : Balanced second) : Balanced (first ++ second) := by
  induction hfirst with
  | nil => exact hsecond
  | plain c rest h _ ih => exact .plain c (rest ++ second) h ih
  | quoted text rest h _ ih =>
      rw [List.append_assoc, List.cons_append]
      exact .quoted text (rest ++ second) h ih
  | square inner rest hinner _ _ ih =>
      rw [List.append_assoc, List.cons_append]
      exact .square inner (rest ++ second) hinner ih
  | curly inner rest hinner _ _ ih =>
      rw [List.append_assoc, List.cons_append]
      exact .curly inner (rest ++ second) hinner ih

theorem balanced_of_plain {text : List Char} (h : ∀ c ∈ text, isPlain c = true) :
    Balanced text := by
  induction text with
  | nil => exact .nil
  | cons c rest ih =>
      obtain ⟨hc, hrest⟩ := List.forall_mem_cons.mp h
      exact .plain c rest hc (ih hrest)

theorem isPlain_of_isBlank {c : Char} (h : isBlank c = true) : isPlain c = true := by
  simp only [isBlank, Bool.or_eq_true, beq_iff_eq] at h
  rcases h with ((rfl | rfl) | rfl) | rfl <;> decide

theorem isPlain_of_isAtomChar {c : Char} (h : isAtomChar c = true) : isPlain c = true := by
  by_contra hnot
  simp only [isPlain, decide_eq_true_eq, not_not, List.mem_cons, List.not_mem_nil, or_false] at hnot
  rcases hnot with rfl | rfl | rfl | rfl | rfl <;> exact absurd h (by decide)

/-! ## What is read -/

/-- The characters of a text that are not blank. -/
def ink (text : List Char) : Nat := text.countP fun c => !isBlank c

@[simp] theorem ink_nil : ink [] = 0 := rfl

@[simp] theorem ink_append (first second : List Char) :
    ink (first ++ second) = ink first + ink second :=
  List.countP_append

@[simp] theorem ink_cons (c : Char) (rest : List Char) :
    ink (c :: rest) = ink rest + if isBlank c then 0 else 1 := by
  rw [ink, List.countP_cons]
  cases isBlank c <;> rfl

theorem ink_eq_zero {text : List Char} (h : ∀ c ∈ text, isBlank c = true) : ink text = 0 :=
  List.countP_eq_zero.mpr fun c hc => by rw [h c hc]; decide

theorem ink_le_of_sublist {first second : List Char} (h : first.Sublist second) :
    ink first ≤ ink second := h.countP_le

mutual

/-- The characters of the value as written, without those between its parts. -/
def weight : Json → Nat
  | .atom text => ink text
  | .str text => ink text + 2
  | .arr items => weightItems items + max items.length 1 + 1
  | .obj members => weightMembers members + max members.length 1 + 1

def weightItems : List Json → Nat
  | [] => 0
  | item :: rest => weight item + weightItems rest

def weightMembers : List (List Char × Json) → Nat
  | [] => 0
  | (key, item) :: rest => ink key + 3 + weight item + weightMembers rest

end

/-- The weight of a member. -/
def memberWeight (own : List Char × Json) : Nat := ink own.1 + 3 + own.2.weight

theorem weightItems_eq_sum (items : List Json) : weightItems items = (items.map weight).sum := by
  induction items with
  | nil => rfl
  | cons item rest ih => rw [weightItems, ih, List.map_cons, List.sum_cons]

theorem weightMembers_eq_sum (members : List (List Char × Json)) :
    weightMembers members = (members.map memberWeight).sum := by
  induction members with
  | nil => rfl
  | cons own rest ih =>
      rw [weightMembers, ih, List.map_cons, List.sum_cons]
      rfl

/-- A text in which no atom goes on. -/
def Delimited (text : List Char) : Prop := ∀ c ∈ text.head?, isAtomChar c = false

/-- What a reader reads is balanced, has the weight of the result, and is read again in front of
every text in which no atom goes on, as soon as the fuel exceeds its length. -/
def Solid (element : Nat → Reader α) (weight : α → Nat) (fuel : Nat) : Prop :=
  ∀ text item rest, element fuel text = some (item, rest) →
    ∃ own, text = own ++ rest ∧ own ≠ [] ∧ Balanced own ∧ ink own = weight item ∧
      ∀ more, own.length < more → ∀ behind, Delimited behind →
        element more (own ++ behind) = some (item, behind)

/-! ### Blanks -/

theorem skipBlanks_spec (text : List Char) :
    ∃ blanks, text = blanks ++ skipBlanks text ∧ (∀ c ∈ blanks, isBlank c = true) ∧
      ∀ c ∈ (skipBlanks text).head?, isBlank c = false := by
  refine ⟨text.takeWhile isBlank, List.takeWhile_append_dropWhile.symm, ?_, ?_⟩
  · intro c hc
    exact List.mem_takeWhile_imp hc
  · intro c hc
    have hhead := List.head?_dropWhile_not isBlank text
    rw [skipBlanks, Option.mem_def] at hc
    rw [hc] at hhead
    exact hhead

theorem skipBlanks_append {blanks behind : List Char} (hblanks : ∀ c ∈ blanks, isBlank c = true)
    (hbehind : ∀ c ∈ behind.head?, isBlank c = false) : skipBlanks (blanks ++ behind) = behind := by
  rw [skipBlanks, List.dropWhile_append_of_pos hblanks]
  cases behind with
  | nil => rfl
  | cons c rest => exact List.dropWhile_cons_of_neg (by simp [hbehind c rfl])

/-! ### Strings and atoms -/

/-- The state behind a character that goes on with a string. -/
inductive Follows : StringState → Char → StringState → Prop
  | text {c : Char} (hquote : c ≠ '"') (hescape : c ≠ '\\') (hcontrol : ¬ c.toNat < 32) :
      Follows .plain c .plain
  | escape : Follows .plain '\\' .escape
  | digits : Follows .escape 'u' (.digits 3)
  | letter {c : Char} (hdigits : c ≠ 'u')
      (hletter : c ∈ ['"', '\\', '/', 'b', 'f', 'n', 'r', 't']) :
      Follows .escape c .plain
  | digit {c : Char} (more : Nat) (hdigit : isHexDigit c = true) :
      Follows (.digits more) c (.afterDigit more)

theorem Follows.stringFrom_cons {state next : StringState} {c : Char} (h : Follows state c next)
    (text : List Char) : stringFrom state (c :: text) =
      (stringFrom next text).map fun own => (c :: own.1, own.2) := by
  cases h with
  | text hquote hescape hcontrol =>
      rw [stringFrom, if_neg hquote, if_neg hescape, if_neg hcontrol]
  | escape => rw [stringFrom, if_neg (by decide), if_pos rfl]
  | digits => rw [stringFrom, if_pos rfl]
  | letter hdigits hletter => rw [stringFrom, if_neg hdigits, if_pos hletter]
  | digit more hdigit => rw [stringFrom, if_pos hdigit]

/-- A string ends at a quote in plain text, or goes on behind the first character. -/
theorem follows_of_stringFrom {state : StringState} {c : Char} {text own rest : List Char}
    (h : stringFrom state (c :: text) = some (own, rest)) :
    (state = .plain ∧ c = '"' ∧ own = [] ∧ text = rest) ∨
      ∃ next tail, Follows state c next ∧ own = c :: tail ∧
        stringFrom next text = some (tail, rest) := by
  have hgoes : ∀ {next : StringState}, Follows state c next →
      ∃ next tail, Follows state c next ∧ own = c :: tail ∧
        stringFrom next text = some (tail, rest) := by
    intro next hnext
    rw [hnext.stringFrom_cons] at h
    obtain ⟨⟨tail, after⟩, htail, heq⟩ := Option.map_eq_some_iff.mp h
    obtain ⟨rfl, rfl⟩ := Prod.mk.inj heq
    exact ⟨next, tail, hnext, rfl, htail⟩
  cases state with
  | plain =>
      by_cases hquote : c = '"'
      · rw [stringFrom, if_pos hquote] at h
        obtain ⟨hown, hrest⟩ := Prod.mk.inj (Option.some.inj h)
        exact .inl ⟨rfl, hquote, hown.symm, hrest⟩
      by_cases hescape : c = '\\'
      · subst hescape
        exact .inr (hgoes .escape)
      by_cases hcontrol : c.toNat < 32
      · rw [stringFrom, if_neg hquote, if_neg hescape, if_pos hcontrol] at h
        cases h
      · exact .inr (hgoes (.text hquote hescape hcontrol))
  | escape =>
      by_cases hdigits : c = 'u'
      · subst hdigits
        exact .inr (hgoes .digits)
      by_cases hletter : c ∈ ['"', '\\', '/', 'b', 'f', 'n', 'r', 't']
      · exact .inr (hgoes (.letter hdigits hletter))
      · rw [stringFrom, if_neg hdigits, if_neg hletter] at h
        cases h
  | digits more =>
      by_cases hdigit : isHexDigit c = true
      · exact .inr (hgoes (.digit more hdigit))
      · rw [stringFrom, if_neg hdigit] at h
        cases h

/-- A string is read up to its closing quote, whatever follows. -/
theorem stringFrom_spec {state : StringState} {text own rest : List Char}
    (h : stringFrom state text = some (own, rest)) :
    text = own ++ '"' :: rest ∧
      ∀ behind, stringFrom state (own ++ '"' :: behind) = some (own, behind) := by
  induction text generalizing state own with
  | nil => cases state <;> cases h
  | cons c text ih =>
      rcases follows_of_stringFrom h with ⟨rfl, rfl, rfl, rfl⟩ | ⟨next, tail, hnext, rfl, htail⟩
      · exact ⟨rfl, fun behind => by rw [List.nil_append, stringFrom, if_pos rfl]⟩
      · obtain ⟨rfl, hagain⟩ := ih htail
        refine ⟨rfl, fun behind => ?_⟩
        rw [List.cons_append, hnext.stringFrom_cons, hagain]
        rfl

/-- A quoted string is balanced. -/
theorem balanced_quoted {text own rest : List Char}
    (h : stringFrom .plain text = some (own, rest)) : Balanced ('"' :: own ++ ['"']) :=
  .quoted own [] ((stringFrom_spec h).2 []) .nil

theorem atom?_spec {text rest : List Char} {item : Json} (h : atom? text = some (item, rest)) :
    ∃ own, text = own ++ rest ∧ own ≠ [] ∧ Balanced own ∧ ink own = item.weight ∧
      ∀ behind, Delimited behind → atom? (own ++ behind) = some (item, behind) := by
  unfold atom? at h
  dsimp only at h
  split at h
  next hatom =>
    obtain ⟨rfl, rfl⟩ := Prod.mk.inj (Option.some.inj h)
    have hchars : ∀ c ∈ text.takeWhile isAtomChar, isAtomChar c = true :=
      fun c hc => List.mem_takeWhile_imp hc
    refine ⟨text.takeWhile isAtomChar, List.takeWhile_append_dropWhile.symm, ?_, ?_, rfl, ?_⟩
    · rintro hnil
      rw [hnil] at hatom
      exact absurd hatom (by decide)
    · exact balanced_of_plain fun c hc => isPlain_of_isAtomChar (hchars c hc)
    · intro behind hbehind
      have htake : behind.takeWhile isAtomChar = [] := by
        cases behind with
        | nil => rfl
        | cons c rest => exact List.takeWhile_cons_of_neg (by simp [hbehind c rfl])
      have hdrop : behind.dropWhile isAtomChar = behind := by
        cases behind with
        | nil => rfl
        | cons c rest => exact List.dropWhile_cons_of_neg (by simp [hbehind c rfl])
      unfold atom?
      rw [List.takeWhile_append_of_pos hchars, List.dropWhile_append_of_pos hchars, htake, hdrop,
        List.append_nil]
      exact if_pos hatom
  next => cases h

/-! ### Groups -/

theorem isAtomChar_of_isBlank {c : Char} (h : isBlank c = true) : isAtomChar c = false := by
  simp only [isBlank, Bool.or_eq_true, beq_iff_eq] at h
  rcases h with ((rfl | rfl) | rfl) | rfl <;> decide

theorem delimited_blanks {blanks behind : List Char} {c : Char}
    (hblanks : ∀ own ∈ blanks, isBlank own = true) (hc : isAtomChar c = false) :
    Delimited (blanks ++ c :: behind) := by
  intro own hown
  cases blanks with
  | nil =>
      obtain rfl := Option.some.inj hown
      exact hc
  | cons blank rest =>
      obtain rfl := Option.some.inj hown
      exact isAtomChar_of_isBlank (hblanks blank List.mem_cons_self)

theorem head?_append_cons (own : List Char) (c : Char) (first second : List Char) :
    (own ++ c :: first).head? = (own ++ c :: second).head? := by
  cases own <;> rfl

/-- A closing bracket ends every atom, and is neither blank nor a comma. -/
structure IsCloser (c : Char) : Prop where
  not_atom : isAtomChar c = false
  not_blank : isBlank c = false
  ne_comma : c ≠ ','

section Groups

variable {element : Nat → Reader α} {weight : α → Nat} {fuel : Nat} {closer : Char}

section Separators

variable {reader : Reader α} {blanks between others : List Char} {item : α}

theorem sequence_of_last (hcloser : IsCloser closer) (hblanks : ∀ c ∈ blanks, isBlank c = true)
    {text behind : List Char} (hread : reader text = some (item, blanks ++ closer :: behind))
    (steps : Nat) : sequence reader closer (steps + 1) text = some ([item], behind) := by
  rw [sequence, hread]
  dsimp only
  rw [skipBlanks_append hblanks (by simpa using hcloser.not_blank)]
  exact if_pos rfl

theorem sequence_of_comma (hcloser : IsCloser closer) (hblanks : ∀ c ∈ blanks, isBlank c = true)
    (hbetween : ∀ c ∈ between, isBlank c = true) (hhead : ∀ c ∈ others.head?, isBlank c = false)
    {text : List Char} (hread : reader text = some (item, blanks ++ ',' :: (between ++ others)))
    (steps : Nat) : sequence reader closer (steps + 1) text =
      (sequence reader closer steps others).map fun own => (item :: own.1, own.2) := by
  have hcomma : ∀ c ∈ (',' :: (between ++ others)).head?, isBlank c = false := by
    rintro c ⟨⟩
    rfl
  rw [sequence, hread]
  dsimp only
  rw [skipBlanks_append hblanks hcomma]
  dsimp only
  rw [if_neg hcloser.ne_comma.symm, if_pos rfl, skipBlanks_append hbetween hhead]

/-- An element stands before the closing bracket, or before a comma and other elements. -/
theorem sequence_cases {steps : Nat} {text rest : List Char} {items : List α}
    (hread : sequence reader closer (steps + 1) text = some (items, rest)) :
    ∃ item blanks after, reader text = some (item, blanks ++ after) ∧
      (∀ c ∈ blanks, isBlank c = true) ∧
      ((after = closer :: rest ∧ items = [item]) ∨
        ∃ between others tail, after = ',' :: (between ++ others) ∧
          (∀ c ∈ between, isBlank c = true) ∧ (∀ c ∈ others.head?, isBlank c = false) ∧
          items = item :: tail ∧ sequence reader closer steps others = some (tail, rest)) := by
  rw [sequence] at hread
  split at hread
  next => cases hread
  next item after hitem =>
    obtain ⟨blanks, hafter, hblanks, -⟩ := skipBlanks_spec after
    refine ⟨item, blanks, skipBlanks after, by rw [hitem, ← hafter], hblanks, ?_⟩
    split at hread
    next => cases hread
    next c behind hbehind =>
      rw [hbehind]
      split at hread
      next hclose =>
        obtain ⟨rfl, rfl⟩ := Prod.mk.inj (Option.some.inj hread)
        exact .inl ⟨by rw [hclose], rfl⟩
      next hopen =>
        split at hread
        next hcomma =>
          obtain ⟨⟨tail, rest'⟩, htail, heq⟩ := Option.map_eq_some_iff.mp hread
          obtain ⟨rfl, rfl⟩ := Prod.mk.inj heq
          obtain ⟨between, hbetween, hbetweenBlanks, hhead⟩ := skipBlanks_spec behind
          exact .inr ⟨between, skipBlanks behind, tail, by rw [hcomma, ← hbetween], hbetweenBlanks,
            hhead, rfl, htail⟩
        next => cases hread

end Separators

theorem sequence_spec (h : Solid element weight fuel) (hcloser : IsCloser closer) {steps : Nat}
    {text rest : List Char} {items : List α}
    (hread : sequence (element fuel) closer steps text = some (items, rest)) :
    ∃ own, text = own ++ closer :: rest ∧ Balanced own ∧
      ink own + 1 = (items.map weight).sum + items.length ∧ items ≠ [] ∧
      ∀ more, own.length < more → ∀ left, own.length < left → ∀ behind,
        sequence (element more) closer left (own ++ closer :: behind) = some (items, behind) := by
  induction steps generalizing text items with
  | zero => cases hread
  | succ steps ih =>
      obtain ⟨item, blanks, after, hitem, hblanks, hafter⟩ := sequence_cases hread
      obtain ⟨own, rfl, -, hown, hink, hagain⟩ := h _ _ _ hitem
      have hplain : Balanced blanks :=
        balanced_of_plain fun c hc => isPlain_of_isBlank (hblanks c hc)
      rcases hafter with ⟨rfl, rfl⟩ | ⟨between, others, tail, rfl, hbetween, hhead, rfl, htail⟩
      · refine ⟨own ++ blanks, by rw [List.append_assoc], hown.append hplain, ?_,
          List.cons_ne_nil _ _, ?_⟩
        · simp [hink, ink_eq_zero hblanks]
        · intro more hmore left hleft behind
          rw [List.length_append] at hmore hleft
          obtain ⟨left, rfl⟩ := Nat.exists_eq_succ_of_ne_zero (Nat.ne_zero_of_lt hleft)
          rw [List.append_assoc]
          exact sequence_of_last hcloser hblanks
            (hagain more (by omega) _ (delimited_blanks hblanks hcloser.not_atom)) left
      · obtain ⟨last, rfl, hbalanced, hinks, -, hagainLast⟩ := ih htail
        have hplainBetween : Balanced between :=
          balanced_of_plain fun c hc => isPlain_of_isBlank (hbetween c hc)
        refine ⟨own ++ (blanks ++ ',' :: (between ++ last)), by simp,
          hown.append (hplain.append (.plain _ _ (by decide) (hplainBetween.append hbalanced))),
          ?_, List.cons_ne_nil _ _, ?_⟩
        · have hcomma : (if isBlank ',' then 0 else 1) = 1 := by decide
          simp only [ink_append, ink_cons, hcomma, hink, ink_eq_zero hblanks,
            ink_eq_zero hbetween, List.map_cons, List.sum_cons, List.length_cons]
          omega
        · intro more hmore left hleft behind
          simp only [List.length_append, List.length_cons] at hmore hleft
          obtain ⟨left, rfl⟩ := Nat.exists_eq_succ_of_ne_zero (Nat.ne_zero_of_lt hleft)
          rw [head?_append_cons last closer rest behind] at hhead
          simp only [List.append_assoc, List.cons_append]
          rw [sequence_of_comma hcloser hblanks hbetween hhead
            (hagain more (by omega) _ (delimited_blanks hblanks (by decide))) left,
            hagainLast more (by omega) left (by omega) behind]
          rfl

theorem group_spec (h : Solid element weight fuel) (hcloser : IsCloser closer) {steps : Nat}
    {text rest : List Char} {items : List α}
    (hread : group (element fuel) closer steps text = some (items, rest)) :
    ∃ own, text = own ++ closer :: rest ∧ Balanced own ∧
      ink own + 1 = (items.map weight).sum + max items.length 1 ∧
      ∀ more, own.length < more → ∀ left, own.length < left → ∀ behind,
        group (element more) closer left (own ++ closer :: behind) = some (items, behind) := by
  unfold group at hread
  obtain ⟨blanks, htext, hblanks, hhead⟩ := skipBlanks_spec text
  have hplain : Balanced blanks :=
    balanced_of_plain fun c hc => isPlain_of_isBlank (hblanks c hc)
  split at hread
  next => cases hread
  next c behind hbehind =>
    rw [hbehind] at htext hhead
    subst htext
    split at hread
    next hclose =>
      obtain ⟨rfl, rfl⟩ := Prod.mk.inj (Option.some.inj hread)
      subst hclose
      refine ⟨blanks, rfl, hplain, by simp [ink_eq_zero hblanks], ?_⟩
      intro more _ left _ other
      rw [group, skipBlanks_append hblanks (by simpa using hcloser.not_blank)]
      exact if_pos rfl
    next hopen =>
      obtain ⟨own, hown, hbalanced, hink, hne, hagain⟩ := sequence_spec h hcloser hread
      have hfirst : ∀ other, (own ++ closer :: other).head? = some c := by
        intro other
        rw [head?_append_cons own closer other rest, ← hown]
        rfl
      refine ⟨blanks ++ own, by rw [hown, List.append_assoc], hplain.append hbalanced, ?_, ?_⟩
      · have hlength := List.length_pos_iff.mpr hne
        rw [ink_append, ink_eq_zero hblanks, Nat.zero_add, hink, Nat.max_eq_left hlength]
      · intro more hmore left hleft other
        rw [List.length_append] at hmore hleft
        obtain ⟨tail, htail⟩ := List.head?_eq_some_iff.mp (hfirst other)
        rw [List.append_assoc, group,
          skipBlanks_append hblanks (by rw [hfirst]; exact hhead), htail]
        dsimp only
        rw [if_neg hopen, ← htail]
        exact hagain more (by omega) left (by omega) other

end Groups

/-- A member is a string, a colon and a value, with blanks around the colon. -/
theorem member_cases {reader : Reader Json} {text rest : List Char} {item : List Char × Json}
    (hread : member reader text = some (item, rest)) : ∃ blanks between after,
      text = '"' :: item.1 ++ '"' :: (blanks ++ ':' :: (between ++ after)) ∧
      (∀ behind, stringFrom .plain (item.1 ++ '"' :: behind) = some (item.1, behind)) ∧
      (∀ c ∈ blanks, isBlank c = true) ∧ (∀ c ∈ between, isBlank c = true) ∧
      (∀ c ∈ after.head?, isBlank c = false) ∧ reader after = some (item.2, rest) := by
  cases text with
  | nil => cases hread
  | cons quote text =>
      rw [member] at hread
      split at hread
      next hquote =>
        subst hquote
        split at hread
        next => cases hread
        next key after hkey =>
          obtain ⟨rfl, hkeyAgain⟩ := stringFrom_spec hkey
          obtain ⟨blanks, hafter, hblanks, -⟩ := skipBlanks_spec after
          split at hread
          next => cases hread
          next c behind hbehind =>
            rw [hbehind] at hafter
            split at hread
            next hcolon =>
              subst hcolon
              obtain ⟨⟨own, rest'⟩, hown, heq⟩ := Option.map_eq_some_iff.mp hread
              obtain ⟨rfl, rfl⟩ := Prod.mk.inj heq
              obtain ⟨between, hbetween, hbetweenBlanks, hhead⟩ := skipBlanks_spec behind
              refine ⟨blanks, between, skipBlanks behind, ?_, hkeyAgain, hblanks, hbetweenBlanks,
                hhead, hown⟩
              rw [hafter, ← hbetween]
              rfl
            next => cases hread
      next => cases hread

theorem member_of_value {reader : Reader Json} {key blanks between after : List Char}
    (hkey : ∀ behind, stringFrom .plain (key ++ '"' :: behind) = some (key, behind))
    (hblanks : ∀ c ∈ blanks, isBlank c = true) (hbetween : ∀ c ∈ between, isBlank c = true)
    (hhead : ∀ c ∈ after.head?, isBlank c = false) :
    member reader ('"' :: key ++ '"' :: (blanks ++ ':' :: (between ++ after))) =
      (reader after).map fun own => ((key, own.1), own.2) := by
  have hcolon : ∀ c ∈ (':' :: (between ++ after)).head?, isBlank c = false := by
    rintro c ⟨⟩
    rfl
  rw [List.cons_append, member, if_pos rfl, hkey]
  dsimp only
  rw [skipBlanks_append hblanks hcolon]
  dsimp only
  rw [if_pos rfl, skipBlanks_append hbetween hhead]

theorem solid_member {element : Nat → Reader Json} {fuel : Nat} (h : Solid element weight fuel) :
    Solid (fun more => member (element more)) memberWeight fuel := by
  rintro text ⟨key, item⟩ rest hread
  obtain ⟨blanks, between, after, rfl, hkey, hblanks, hbetween, hhead, hitem⟩ := member_cases hread
  obtain ⟨own, rfl, hne, hbalanced, hink, hagain⟩ := h _ _ _ hitem
  refine ⟨'"' :: key ++ '"' :: (blanks ++ ':' :: (between ++ own)), by simp,
    List.cons_ne_nil _ _, ?_, ?_, ?_⟩
  · exact .quoted key _ (hkey [])
      ((balanced_of_plain fun c hc => isPlain_of_isBlank (hblanks c hc)).append
        (.plain _ _ (by decide)
          ((balanced_of_plain fun c hc => isPlain_of_isBlank (hbetween c hc)).append hbalanced)))
  · have hquote : (if isBlank '"' then 0 else 1) = 1 := by decide
    have hcolon : (if isBlank ':' then 0 else 1) = 1 := by decide
    simp only [List.cons_append, ink_append, ink_cons, hquote, hcolon, hink, ink_eq_zero hblanks,
      ink_eq_zero hbetween, memberWeight]
    omega
  · intro more hmore behind hbehind
    simp only [List.cons_append, List.length_append, List.length_cons] at hmore
    have hown : ∀ c ∈ (own ++ behind).head?, isBlank c = false := by
      rw [List.head?_append_of_ne_nil own hne]
      rwa [List.head?_append_of_ne_nil own hne] at hhead
    have hread : member (element more) _ = _ := member_of_value hkey hblanks hbetween hown
    rw [hagain more (by omega) behind hbehind] at hread
    simpa using hread

theorem isCloser_square : IsCloser ']' := ⟨by decide, by decide, by decide⟩

theorem isCloser_curly : IsCloser '}' := ⟨by decide, by decide, by decide⟩

/-- An array is read up to its closing bracket, whatever follows. -/
theorem value_square {fuel : Nat} (h : Solid value weight fuel) {text rest : List Char}
    {item : Json} (hread : value (fuel + 1) ('[' :: text) = some (item, rest)) :
    ∃ inner, text = inner ++ ']' :: rest ∧ Balanced inner ∧
      ink ('[' :: inner ++ [']']) = item.weight ∧
      ∀ more, inner.length + 2 < more → ∀ behind,
        value more ('[' :: inner ++ ']' :: behind) = some (item, behind) := by
  rw [value, if_neg (by decide), if_pos rfl] at hread
  obtain ⟨⟨items, after⟩, hitems, heq⟩ := Option.map_eq_some_iff.mp hread
  obtain ⟨rfl, rfl⟩ := Prod.mk.inj heq
  obtain ⟨inner, rfl, hbalanced, hink, hagain⟩ := group_spec h isCloser_square hitems
  refine ⟨inner, rfl, hbalanced, ?_, ?_⟩
  · have hopen : (if isBlank '[' then 0 else 1) = 1 := by decide
    have hclose : (if isBlank ']' then 0 else 1) = 1 := by decide
    simp only [List.cons_append, ink_cons, ink_append, ink_nil, hopen, hclose, weight,
      weightItems_eq_sum]
    omega
  · intro more hmore behind
    obtain ⟨more, rfl⟩ := Nat.exists_eq_succ_of_ne_zero (Nat.ne_zero_of_lt hmore)
    rw [List.cons_append, value, if_neg (by decide), if_pos rfl,
      hagain more (by omega) more (by omega) behind]
    rfl

/-- An object is read up to its closing bracket, whatever follows. -/
theorem value_curly {fuel : Nat} (h : Solid value weight fuel) {text rest : List Char} {item : Json}
    (hread : value (fuel + 1) ('{' :: text) = some (item, rest)) :
    ∃ inner, text = inner ++ '}' :: rest ∧ Balanced inner ∧
      ink ('{' :: inner ++ ['}']) = item.weight ∧
      ∀ more, inner.length + 2 < more → ∀ behind,
        value more ('{' :: inner ++ '}' :: behind) = some (item, behind) := by
  rw [value, if_neg (by decide), if_neg (by decide), if_pos rfl] at hread
  obtain ⟨⟨items, after⟩, hitems, heq⟩ := Option.map_eq_some_iff.mp hread
  obtain ⟨rfl, rfl⟩ := Prod.mk.inj heq
  obtain ⟨inner, rfl, hbalanced, hink, hagain⟩ := group_spec (solid_member h) isCloser_curly hitems
  refine ⟨inner, rfl, hbalanced, ?_, ?_⟩
  · have hopen : (if isBlank '{' then 0 else 1) = 1 := by decide
    have hclose : (if isBlank '}' then 0 else 1) = 1 := by decide
    simp only [List.cons_append, ink_cons, ink_append, ink_nil, hopen, hclose, weight,
      weightMembers_eq_sum]
    omega
  · intro more hmore behind
    obtain ⟨more, rfl⟩ := Nat.exists_eq_succ_of_ne_zero (Nat.ne_zero_of_lt hmore)
    rw [List.cons_append, value, if_neg (by decide), if_neg (by decide), if_pos rfl,
      hagain more (by omega) more (by omega) behind]
    rfl

/-- Values are read solidly. -/
theorem solid_value (fuel : Nat) : Solid value weight fuel := by
  induction fuel with
  | zero =>
      intro text item rest hread
      cases hread
  | succ fuel ih =>
      intro text item rest hread
      cases text with
      | nil => cases hread
      | cons c text =>
          by_cases hquote : c = '"'
          · subst hquote
            rw [value, if_pos rfl] at hread
            obtain ⟨⟨own, after⟩, hown, heq⟩ := Option.map_eq_some_iff.mp hread
            obtain ⟨rfl, rfl⟩ := Prod.mk.inj heq
            have hbalanced := balanced_quoted hown
            obtain ⟨rfl, hagain⟩ := stringFrom_spec hown
            refine ⟨'"' :: own ++ ['"'], by simp, List.cons_ne_nil _ _, hbalanced, ?_, ?_⟩
            · have hquoteInk : (if isBlank '"' then 0 else 1) = 1 := by decide
              simp only [List.cons_append, ink_cons, ink_append, ink_nil, hquoteInk, weight]
            · intro more hmore behind _
              obtain ⟨more, rfl⟩ := Nat.exists_eq_succ_of_ne_zero (Nat.ne_zero_of_lt hmore)
              rw [List.append_assoc, List.cons_append, value, if_pos rfl, List.singleton_append,
                hagain]
              rfl
          by_cases hsquare : c = '['
          · subst hsquare
            obtain ⟨inner, rfl, hbalanced, hink, hagain⟩ := value_square ih hread
            refine ⟨'[' :: inner ++ [']'], by simp, List.cons_ne_nil _ _,
              .square inner [] hbalanced .nil, hink, fun more hmore behind _ => ?_⟩
            rw [List.append_assoc, List.singleton_append]
            exact hagain more (by simpa using hmore) behind
          by_cases hcurly : c = '{'
          · subst hcurly
            obtain ⟨inner, rfl, hbalanced, hink, hagain⟩ := value_curly ih hread
            refine ⟨'{' :: inner ++ ['}'], by simp, List.cons_ne_nil _ _,
              .curly inner [] hbalanced .nil, hink, fun more hmore behind _ => ?_⟩
            rw [List.append_assoc, List.singleton_append]
            exact hagain more (by simpa using hmore) behind
          rw [value, if_neg hquote, if_neg hsquare, if_neg hcurly] at hread
          obtain ⟨own, hown, hne, hbalanced, hink, hagain⟩ := atom?_spec hread
          refine ⟨own, hown, hne, hbalanced, hink, fun more hmore behind hbehind => ?_⟩
          obtain ⟨more, rfl⟩ := Nat.exists_eq_succ_of_ne_zero (Nat.ne_zero_of_lt hmore)
          obtain ⟨tail, rfl⟩ : ∃ tail, own = c :: tail := by
            cases own with
            | nil => exact absurd rfl hne
            | cons head tail => exact ⟨tail, by rw [(List.cons.inj hown).1]⟩
          rw [List.cons_append, value, if_neg hquote, if_neg hsquare, if_neg hcurly]
          exact hagain behind hbehind

/-! ## Whole texts -/

variable {text : List Char} {item : Json}

theorem skipBlanks_eq_nil_iff : skipBlanks text = [] ↔ ∀ c ∈ text, isBlank c = true :=
  List.dropWhile_eq_nil_iff

theorem loads_eq_some_iff : loads text = some item ↔ ∃ after,
    value (text.length + 1) (skipBlanks text) = some (item, after) ∧
      ∀ c ∈ after, isBlank c = true := by
  unfold loads
  split
  next hvalue => simp [hvalue]
  next own rest hvalue =>
    rw [hvalue]
    constructor
    · intro h
      split at h
      next hblank => exact ⟨rest, by rw [Option.some.inj h], skipBlanks_eq_nil_iff.mp hblank⟩
      next => cases h
    · rintro ⟨after, heq, hafter⟩
      obtain ⟨rfl, rfl⟩ := Prod.mk.inj (Option.some.inj heq)
      exact if_pos (skipBlanks_eq_nil_iff.mpr hafter)

/-- The weight of a value is that of every text it is read from. -/
theorem ink_of_loads (h : loads text = some item) : ink text = item.weight := by
  obtain ⟨after, hvalue, hafter⟩ := loads_eq_some_iff.mp h
  obtain ⟨blanks, htext, hblanks, -⟩ := skipBlanks_spec text
  obtain ⟨own, hown, -, -, hink, -⟩ := solid_value _ _ _ _ hvalue
  rw [htext, hown, ink_append, ink_append, ink_eq_zero hblanks, ink_eq_zero hafter, hink]
  omega

/-- An array or an object. -/
def isGroup : Json → Bool
  | .arr _ | .obj _ => true
  | .atom _ | .str _ => false

/-- An opening bracket and the one that closes it. -/
inductive Brackets : Char → Char → Prop
  | square : Brackets '[' ']'
  | curly : Brackets '{' '}'

/-- A group is read from its brackets on, and up to them. -/
theorem value_group {fuel : Nat} {rest : List Char} (h : value fuel text = some (item, rest))
    (hgroup : item.isGroup = true) :
    ∃ opener inner closer, Brackets opener closer ∧ text = opener :: inner ++ closer :: rest ∧
      Balanced inner ∧ ∀ more, inner.length + 2 < more → ∀ behind,
        value more (opener :: inner ++ closer :: behind) = some (item, behind) := by
  cases fuel with
  | zero => cases h
  | succ fuel =>
      cases text with
      | nil => cases h
      | cons c text =>
          by_cases hsquare : c = '['
          · subst hsquare
            obtain ⟨inner, rfl, hbalanced, -, hagain⟩ := value_square (solid_value fuel) h
            exact ⟨'[', inner, ']', .square, rfl, hbalanced, hagain⟩
          by_cases hcurly : c = '{'
          · subst hcurly
            obtain ⟨inner, rfl, hbalanced, -, hagain⟩ := value_curly (solid_value fuel) h
            exact ⟨'{', inner, '}', .curly, rfl, hbalanced, hagain⟩
          -- a string and an atom are no groups
          rw [value, if_neg hsquare, if_neg hcurly] at h
          split at h
          next =>
            obtain ⟨own, -, heq⟩ := Option.map_eq_some_iff.mp h
            rw [← (Prod.mk.inj heq).1] at hgroup
            cases hgroup
          next =>
            unfold atom? at h
            dsimp only at h
            split at h
            next =>
              rw [← (Prod.mk.inj (Option.some.inj h)).1] at hgroup
              cases hgroup
            next => cases h

theorem Brackets.not_blank {opener closer : Char} (h : Brackets opener closer) :
    isBlank opener = false := by
  cases h <;> decide

/-- A text of a group is the group with blanks around it. In front of other text than blanks,
the group is no text of a value. -/
theorem loads_group (h : loads text = some item) (hgroup : item.isGroup = true) :
    ∃ before opener inner closer after, Brackets opener closer ∧
      text = before ++ (opener :: inner ++ closer :: after) ∧
      (∀ c ∈ before, isBlank c = true) ∧ (∀ c ∈ after, isBlank c = true) ∧ Balanced inner ∧
      ∀ behind, loads (opener :: inner ++ closer :: behind) =
        if skipBlanks behind = [] then some item else none := by
  obtain ⟨after, hvalue, hafter⟩ := loads_eq_some_iff.mp h
  obtain ⟨before, htext, hbefore, -⟩ := skipBlanks_spec text
  obtain ⟨opener, inner, closer, hbrackets, hown, hbalanced, hagain⟩ := value_group hvalue hgroup
  rw [hown] at htext
  refine ⟨before, opener, inner, closer, after, hbrackets, htext, hbefore, hafter, hbalanced, ?_⟩
  intro behind
  have hskip :
      skipBlanks (opener :: inner ++ closer :: behind) = opener :: inner ++ closer :: behind :=
    List.dropWhile_cons_of_neg (by simp [hbrackets.not_blank])
  unfold loads
  rw [hskip, hagain _ (by simp)]

end Json

/-! ## Decoders -/

/-- The exception for a text that is not JSON: what is wrong with it, and how it is shown. -/
structure JSONDecodeError where
  msg : String
  text : String

/-- What an interpreter adds to the grammar: the exception for a text that is not JSON, and the
one (its name and text) for a text beyond a limit, which are the digits of an integer and the depth
of a recursion. -/
structure JsonDecoder where
  decodeError : String → JSONDecodeError
  limit : String → Option (String × String)

inductive LoadFailure
  | decode (error : JSONDecodeError)
  | limit (kind message : String)

namespace JsonDecoder

variable (decoder : JsonDecoder)

/-- `json.loads`, up to what the syntax tree stands for. -/
def loads (text : String) : Except LoadFailure Json :=
  match decoder.limit text with
  | some (kind, message) => .error (.limit kind message)
  | none =>
      match Json.loads text.toList with
      | none => .error (.decode (decoder.decodeError text))
      | some item => .ok item

/-- No text of this value is beyond a limit. -/
def Reads (item : Json) : Prop :=
  ∀ text : String, Json.loads text.toList = some item → decoder.limit text = none

variable {decoder} {text : String} {item : Json}

theorem loads_eq_ok_iff :
    decoder.loads text = .ok item ↔
      decoder.limit text = none ∧ Json.loads text.toList = some item := by
  unfold loads
  cases decoder.limit text with
  | some beyond => simp
  | none => cases Json.loads text.toList <;> simp

theorem Reads.loads (h : decoder.Reads item) (hitem : Json.loads text.toList = some item) :
    decoder.loads text = .ok item :=
  loads_eq_ok_iff.mpr ⟨h text hitem, hitem⟩

end JsonDecoder

end Interaction
