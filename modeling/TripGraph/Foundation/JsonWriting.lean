import Mathlib.Tactic.IntervalCases
import TripGraph.Foundation.Json

/-! # Writing JSON texts

A value is written with a blank behind each comma and each colon. What is written is read
again, in front of every text in which no atom goes on. A text is escaped so that a string
can hold it, and what is escaped is unescaped to the same text.
-/

namespace Interaction

namespace Json

/-! ## Writing -/

/-- The parts, with a comma and a blank between them. -/
def commas : List (List Char) → List Char
  | [] => []
  | [part] => part
  | part :: next :: rest => part ++ ',' :: ' ' :: commas (next :: rest)

mutual

def write : Json → List Char
  | .atom text => text
  | .str text => '"' :: text ++ ['"']
  | .arr items => '[' :: commas (writeItems items) ++ [']']
  | .obj members => '{' :: commas (writeMembers members) ++ ['}']

def writeItems : List Json → List (List Char)
  | [] => []
  | item :: rest => write item :: writeItems rest

def writeMembers : List (List Char × Json) → List (List Char)
  | [] => []
  | (key, item) :: rest => ('"' :: key ++ '"' :: ':' :: ' ' :: write item) :: writeMembers rest

end

def writeMember (own : List Char × Json) : List Char :=
  '"' :: own.1 ++ '"' :: ':' :: ' ' :: write own.2

theorem writeItems_eq_map (items : List Json) : writeItems items = items.map write := by
  induction items with
  | nil => rfl
  | cons item rest ih => rw [writeItems, ih, List.map_cons]

theorem writeMembers_eq_map (members : List (List Char × Json)) :
    writeMembers members = members.map writeMember := by
  induction members with
  | nil => rfl
  | cons own rest ih =>
      rw [writeMembers, ih, List.map_cons]
      rfl

/-! ## What can be read again -/

/-- A string can hold this text between its quotes. -/
def IsQuotable (text : List Char) : Prop :=
  ∀ behind, stringFrom .plain (text ++ '"' :: behind) = some (text, behind)

mutual

/-- The atoms are numbers or names, and the strings can be quoted. -/
def Readable : Json → Prop
  | .atom text => isAtom text = true ∧ ∀ c ∈ text, isAtomChar c = true
  | .str text => IsQuotable text
  | .arr items => ReadableItems items
  | .obj members => ReadableMembers members

def ReadableItems : List Json → Prop
  | [] => True
  | item :: rest => Readable item ∧ ReadableItems rest

def ReadableMembers : List (List Char × Json) → Prop
  | [] => True
  | (key, item) :: rest => IsQuotable key ∧ Readable item ∧ ReadableMembers rest

end

theorem readableItems_iff {items : List Json} :
    ReadableItems items ↔ ∀ item ∈ items, Readable item := by
  induction items with
  | nil => simp [ReadableItems]
  | cons item rest ih => simp [ReadableItems, ih]

theorem readableMembers_iff {members : List (List Char × Json)} :
    ReadableMembers members ↔ ∀ own ∈ members, IsQuotable own.1 ∧ Readable own.2 := by
  induction members with
  | nil => simp [ReadableMembers]
  | cons own rest ih =>
      obtain ⟨key, item⟩ := own
      simp [ReadableMembers, ih, and_assoc]

/-- Neither a blank nor one of the characters that end a group. -/
def opensValue (c : Char) : Bool := !isBlank c && c != ']' && c != '}'

theorem opensValue_of_isAtomChar {c : Char} (h : isAtomChar c = true) : opensValue c = true := by
  by_contra hnot
  simp only [opensValue, isBlank, Bool.and_eq_true, Bool.not_eq_true', Bool.or_eq_false_iff,
    beq_eq_false_iff_ne, bne_iff_ne] at hnot
  by_cases hclose : c = ']' ∨ c = '}'
  · rcases hclose with rfl | rfl <;> exact absurd h (by decide)
  · have hblank : isBlank c = true := by
      by_contra hblank
      apply hnot
      simp only [isBlank, Bool.or_eq_true, beq_iff_eq, not_or] at hblank hclose
      exact ⟨⟨⟨⟨⟨hblank.1.1.1, hblank.1.1.2⟩, hblank.1.2⟩, hblank.2⟩, hclose.1⟩, hclose.2⟩
    exact absurd h (by rw [isAtomChar_of_isBlank hblank]; exact Bool.false_ne_true)

theorem exists_write_eq_cons {item : Json} (h : Readable item) :
    ∃ c rest, write item = c :: rest ∧ opensValue c = true := by
  cases item with
  | atom text =>
      cases text with
      | nil => exact absurd h.1 (by decide)
      | cons c rest => exact ⟨c, rest, rfl, opensValue_of_isAtomChar (h.2 c List.mem_cons_self)⟩
  | str text => exact ⟨'"', text ++ ['"'], rfl, by decide⟩
  | arr items => exact ⟨'[', commas (writeItems items) ++ [']'], rfl, by decide⟩
  | obj members => exact ⟨'{', commas (writeMembers members) ++ ['}'], rfl, by decide⟩

/-! ## Groups -/

section Groups

variable {α : Type} {reader : Reader α} {written : α → List Char} {closer : Char}

/-- The reader takes the item off the front of what is written for it. -/
def Rereads (reader : Reader α) (written : α → List Char) (item : α) : Prop :=
  ∀ behind, Delimited behind → reader (written item ++ behind) = some (item, behind)

/-- What is written for the item begins a value. -/
def Opens (written : α → List Char) (item : α) : Prop :=
  ∃ c rest, written item = c :: rest ∧ opensValue c = true

theorem Opens.head {item : α} (h : Opens written item) (behind : List Char) :
    ∀ c ∈ (written item ++ behind).head?, isBlank c = false := by
  obtain ⟨c, rest, hwritten, hopens⟩ := h
  rw [hwritten]
  rintro own ⟨⟩
  simp only [opensValue, Bool.and_eq_true, Bool.not_eq_true'] at hopens
  exact hopens.1.1

theorem commas_cons_append (part : List Char) (parts : List (List Char)) (behind : List Char) :
    ∃ tail, commas (part :: parts) ++ behind = part ++ tail := by
  cases parts with
  | nil => exact ⟨behind, rfl⟩
  | cons next rest =>
      exact ⟨',' :: ' ' :: commas (next :: rest) ++ behind, by rw [commas, List.append_assoc]⟩

theorem delimited_cons {c : Char} (hc : isAtomChar c = false) (behind : List Char) :
    Delimited (c :: behind) := by
  rintro own ⟨⟩
  exact hc

theorem no_blanks : ∀ c ∈ ([] : List Char), isBlank c = true := fun _ hc => nomatch hc

theorem one_blank : ∀ c ∈ [' '], isBlank c = true := List.forall_mem_singleton.mpr rfl

/-- Elements with commas between them are read up to the closing bracket. -/
theorem sequence_commas (hcloser : IsCloser closer) {items : List α} (hne : items ≠ [])
    (hread : ∀ item ∈ items, Rereads reader written item)
    (hopens : ∀ item ∈ items, Opens written item) {steps : Nat} (hsteps : items.length ≤ steps)
    (behind : List Char) :
    sequence reader closer steps (commas (items.map written) ++ closer :: behind) =
      some (items, behind) := by
  induction items generalizing steps with
  | nil => exact absurd rfl hne
  | cons item rest ih =>
      obtain ⟨steps, rfl⟩ := Nat.exists_eq_succ_of_ne_zero
        (Nat.ne_zero_of_lt (Nat.lt_of_lt_of_le (Nat.zero_lt_succ rest.length) hsteps))
      have hitem := hread item List.mem_cons_self
      cases rest with
      | nil =>
          apply sequence_of_last hcloser no_blanks
          exact hitem _ (delimited_cons hcloser.not_atom behind)
      | cons next others =>
          have hothers := ih (List.cons_ne_nil _ _)
            (fun own hown => hread own (List.mem_cons_of_mem item hown))
            (fun own hown => hopens own (List.mem_cons_of_mem item hown))
            (Nat.le_of_succ_le_succ hsteps)
          have hhead : ∀ c ∈ (commas ((next :: others).map written) ++ closer :: behind).head?,
              isBlank c = false := by
            obtain ⟨tail, htail⟩ := commas_cons_append (written next) (others.map written)
              (closer :: behind)
            rw [List.map_cons, htail]
            exact (hopens next (by simp)).head tail
          have hseparated := sequence_of_comma hcloser no_blanks one_blank hhead
            (hitem _ (delimited_cons (by decide) _)) steps
          rw [hothers] at hseparated
          rw [List.map_cons, List.map_cons, commas, List.append_assoc]
          exact hseparated

theorem length_le_length_commas {items : List α} (hopens : ∀ item ∈ items, Opens written item) :
    items.length ≤ (commas (items.map written)).length := by
  induction items with
  | nil => exact Nat.zero_le _
  | cons item rest ih =>
      obtain ⟨c, tail, hwritten, -⟩ := hopens item List.mem_cons_self
      have hrest := ih fun own hown => hopens own (List.mem_cons_of_mem item hown)
      cases rest with
      | nil => simp [commas, hwritten]
      | cons next others =>
          simp only [List.map_cons, commas, List.length_cons, List.length_append] at hrest ⊢
          omega

theorem length_le_commas {part : List Char} {parts : List (List Char)} (h : part ∈ parts) :
    part.length ≤ (commas parts).length := by
  induction parts with
  | nil => cases h
  | cons first rest ih =>
      cases rest with
      | nil =>
          rw [List.mem_singleton.mp h]
          exact Nat.le_refl _
      | cons next others =>
          rw [commas, List.length_append, List.length_cons, List.length_cons]
          rcases List.mem_cons.mp h with rfl | hrest
          · omega
          · have hlength := ih hrest
            omega

/-- A group is read up to its closing bracket. -/
theorem group_commas (hcloser : IsCloser closer) (hends : opensValue closer = false)
    {items : List α} (hread : ∀ item ∈ items, Rereads reader written item)
    (hopens : ∀ item ∈ items, Opens written item) {steps : Nat}
    (hsteps : (commas (items.map written)).length ≤ steps) (behind : List Char) :
    group reader closer steps (commas (items.map written) ++ closer :: behind) =
      some (items, behind) := by
  cases items with
  | nil =>
      rw [group]
      have hskip : skipBlanks (closer :: behind) = closer :: behind :=
        List.dropWhile_cons_of_neg (by simp [hcloser.not_blank])
      rw [List.map_nil, commas, List.nil_append, hskip]
      exact if_pos rfl
  | cons item rest =>
      have hsequence := sequence_commas hcloser (List.cons_ne_nil item rest) hread hopens
        ((length_le_length_commas hopens).trans hsteps) behind
      obtain ⟨tail, htail⟩ := commas_cons_append (written item) (rest.map written)
        (closer :: behind)
      have hhead := (hopens item List.mem_cons_self).head tail
      obtain ⟨c, own, hwritten, hopen⟩ := hopens item List.mem_cons_self
      have hne : c ≠ closer := by
        rintro rfl
        exact absurd (hopen.symm.trans hends) Bool.noConfusion
      have hskip : skipBlanks (written item ++ tail) = written item ++ tail :=
        skipBlanks_append no_blanks hhead
      rw [List.map_cons] at hsequence ⊢
      rw [htail] at hsequence ⊢
      rw [group, hskip, hwritten, List.cons_append]
      dsimp only
      rw [if_neg hne, ← List.cons_append, ← hwritten]
      exact hsequence

end Groups

/-! ## The round trip -/

theorem atom?_append {text behind : List Char} (hatom : isAtom text = true)
    (hchars : ∀ c ∈ text, isAtomChar c = true) (hbehind : Delimited behind) :
    atom? (text ++ behind) = some (.atom text, behind) := by
  have htake : behind.takeWhile isAtomChar = [] := by
    cases behind with
    | nil => rfl
    | cons c rest => exact List.takeWhile_cons_of_neg (by simp [hbehind c rfl])
  have hdrop : behind.dropWhile isAtomChar = behind := by
    cases behind with
    | nil => rfl
    | cons c rest => exact List.dropWhile_cons_of_neg (by simp [hbehind c rfl])
  unfold atom?
  rw [List.takeWhile_append_of_pos hchars, List.dropWhile_append_of_pos hchars, htake, hdrop,
    List.append_nil]
  exact if_pos hatom

theorem rereads_member {reader : Reader Json} {own : List Char × Json} (hkey : IsQuotable own.1)
    (hopens : Opens write own.2) (hread : Rereads reader write own.2) :
    Rereads (member reader) writeMember own := by
  intro behind hbehind
  have hmember : member reader _ = _ :=
    member_of_value hkey no_blanks one_blank (hopens.head behind)
  rw [hread behind hbehind] at hmember
  rw [writeMember, List.append_assoc]
  simpa using hmember

mutual

/-- A value is read again from what is written for it. -/
theorem rereads_value : (item : Json) → Readable item → ∀ {fuel : Nat},
    (write item).length < fuel → Rereads (value fuel) write item
  | .atom text, h, fuel, hfuel => by
      intro behind hbehind
      obtain ⟨fuel, rfl⟩ := Nat.exists_eq_succ_of_ne_zero (Nat.ne_zero_of_lt hfuel)
      rw [write]
      cases text with
      | nil => exact absurd h.1 (by decide)
      | cons c rest =>
          have hc := h.2 c List.mem_cons_self
          have hne : c ≠ '"' ∧ c ≠ '[' ∧ c ≠ '{' := by
            refine ⟨?_, ?_, ?_⟩ <;> rintro rfl <;> exact absurd hc (by decide)
          rw [List.cons_append, value, if_neg hne.1, if_neg hne.2.1, if_neg hne.2.2,
            ← List.cons_append]
          exact atom?_append h.1 h.2 hbehind
  | .str text, h, fuel, hfuel => by
      intro behind _
      obtain ⟨fuel, rfl⟩ := Nat.exists_eq_succ_of_ne_zero (Nat.ne_zero_of_lt hfuel)
      rw [write, List.append_assoc, List.cons_append, value, if_pos rfl, List.singleton_append,
        h behind]
      rfl
  | .arr items, h, fuel, hfuel => by
      intro behind _
      obtain ⟨fuel, rfl⟩ := Nat.exists_eq_succ_of_ne_zero (Nat.ne_zero_of_lt hfuel)
      simp only [write, List.length_append, List.length_cons, writeItems_eq_map] at hfuel
      have hitems : ∀ item ∈ items, Rereads (value fuel) write item := by
        intro item hitem
        have hlength := length_le_commas (List.mem_map_of_mem (f := write) hitem)
        exact rereads_items items h item hitem (by simp at hfuel; omega)
      have hopens : ∀ item ∈ items, Opens write item :=
        fun item hitem => exists_write_eq_cons (readableItems_iff.mp h item hitem)
      rw [write, writeItems_eq_map, List.append_assoc, List.cons_append, value,
        if_neg (by decide), if_pos rfl, List.singleton_append,
        group_commas isCloser_square (by decide) hitems hopens (by simp at hfuel; omega) behind]
      rfl
  | .obj members, h, fuel, hfuel => by
      intro behind _
      obtain ⟨fuel, rfl⟩ := Nat.exists_eq_succ_of_ne_zero (Nat.ne_zero_of_lt hfuel)
      simp only [write, List.length_append, List.length_cons, writeMembers_eq_map] at hfuel
      have hmembers : ∀ own ∈ members, Rereads (member (value fuel)) writeMember own := by
        intro own hown
        have hlength := length_le_commas (List.mem_map_of_mem (f := writeMember) hown)
        have hreadable := readableMembers_iff.mp h own hown
        apply rereads_member hreadable.1 (exists_write_eq_cons hreadable.2)
        apply rereads_members members h own hown
        simp only [writeMember, List.length_append, List.length_cons] at hlength
        simp at hfuel
        omega
      have hopens : ∀ own ∈ members, Opens writeMember own :=
        fun own _ => ⟨'"', own.1 ++ '"' :: ':' :: ' ' :: write own.2, rfl, by decide⟩
      rw [write, writeMembers_eq_map, List.append_assoc, List.cons_append, value,
        if_neg (by decide), if_neg (by decide), if_pos rfl, List.singleton_append,
        group_commas isCloser_curly (by decide) hmembers hopens (by simp at hfuel; omega) behind]
      rfl

theorem rereads_items : (items : List Json) → ReadableItems items → ∀ item ∈ items,
    ∀ {fuel : Nat}, (write item).length < fuel → Rereads (value fuel) write item
  | [], _, item, hitem, _, _ => nomatch hitem
  | first :: rest, h, item, hitem, fuel, hfuel => by
      rcases List.mem_cons.mp hitem with heq | hrest
      · rw [heq] at hfuel ⊢
        exact rereads_value first h.1 hfuel
      · exact rereads_items rest h.2 item hrest hfuel

theorem rereads_members : (members : List (List Char × Json)) → ReadableMembers members →
    ∀ own ∈ members, ∀ {fuel : Nat}, (write own.2).length < fuel →
      Rereads (value fuel) write own.2
  | [], _, own, hown, _, _ => nomatch hown
  | (key, first) :: rest, h, own, hown, fuel, hfuel => by
      rcases List.mem_cons.mp hown with heq | hrest
      · rw [heq] at hfuel ⊢
        exact rereads_value first h.2.1 hfuel
      · exact rereads_members rest h.2.2 own hrest hfuel

end

/-- What is written is read again. -/
theorem loads_write {item : Json} (h : Readable item) : loads (write item) = some item := by
  have hread := rereads_value item h (Nat.lt_succ_self (write item).length) [] (by simp [Delimited])
  obtain ⟨c, rest, hwrite, hopens⟩ := exists_write_eq_cons h
  have hblank : isBlank c = false := by
    simp only [opensValue, Bool.and_eq_true, Bool.not_eq_true'] at hopens
    exact hopens.1.1
  have hskip : skipBlanks (write item) = write item := by
    rw [hwrite]
    exact List.dropWhile_cons_of_neg (by simp [hblank])
  rw [List.append_nil] at hread
  rw [loads, hskip, hread]
  rfl

/-! ## Escapes -/

/-- A character as a string holds it; the characters beyond ASCII stand for themselves. -/
def escape (c : Char) : List Char :=
  if c = '\\' then ['\\', '\\']
  else if c = '"' then ['\\', '"']
  else if c = '\n' then ['\\', 'n']
  else if c = '\r' then ['\\', 'r']
  else if c = '\t' then ['\\', 't']
  else if c.toNat = 8 then ['\\', 'b']
  else if c.toNat = 12 then ['\\', 'f']
  else if c.toNat < 32 then
    ['\\', 'u', '0', '0', Nat.digitChar (c.toNat / 16), Nat.digitChar (c.toNat % 16)]
  else [c]

/-- The value of a hexadecimal digit. -/
def hexDigit (c : Char) : Nat :=
  if c.isDigit then c.toNat - '0'.toNat
  else if 'a' ≤ c then c.toNat - 'a'.toNat + 10
  else c.toNat - 'A'.toNat + 10

/-- The character behind a backslash stands for this one. -/
def letter (c : Char) : Char :=
  if c = 'b' then Char.ofNat 8
  else if c = 'f' then Char.ofNat 12
  else if c = 'n' then '\n'
  else if c = 'r' then '\r'
  else if c = 't' then '\t'
  else c

/-- The text of a string; a code unit written in digits stands for the character of that number. -/
def unescape : List Char → List Char
  | [] => []
  | '\\' :: 'u' :: a :: b :: c :: d :: rest =>
      Char.ofNat (((hexDigit a * 16 + hexDigit b) * 16 + hexDigit c) * 16 + hexDigit d) ::
        unescape rest
  | '\\' :: c :: rest => letter c :: unescape rest
  | c :: rest => c :: unescape rest

theorem digitChar_of_lt {n : Nat} (h : n < 16) :
    isHexDigit (Nat.digitChar n) = true ∧ hexDigit (Nat.digitChar n) = n := by
  interval_cases n <;> decide

/-- What an escaped character may be. -/
inductive Escaped (c : Char) : List Char → Prop
  | letter {own : Char} (hletter : own ∈ ['"', '\\', '/', 'b', 'f', 'n', 'r', 't'])
      (hown : letter own = c) : Escaped c ['\\', own]
  | digits (hlow : c.toNat < 32) : Escaped c
      ['\\', 'u', '0', '0', Nat.digitChar (c.toNat / 16), Nat.digitChar (c.toNat % 16)]
  | plain (hquote : c ≠ '"') (hescape : c ≠ '\\') (hcontrol : ¬ c.toNat < 32) : Escaped c [c]

theorem escaped (c : Char) : Escaped c (escape c) := by
  have hof : ∀ {n : Nat}, c.toNat = n → Char.ofNat n = c := by
    rintro n rfl
    exact Char.ofNat_toNat c
  unfold escape
  split
  next h => exact .letter (by decide) h.symm
  next hescape =>
    split
    next h => exact .letter (by decide) h.symm
    next hquote =>
      split
      next h => exact .letter (by decide) h.symm
      next =>
        split
        next h => exact .letter (by decide) h.symm
        next =>
          split
          next h => exact .letter (by decide) h.symm
          next =>
            split
            next h => exact .letter (by decide) (hof h)
            next =>
              split
              next h => exact .letter (by decide) (hof h)
              next =>
                split
                next h => exact .digits h
                next h => exact .plain hquote hescape h

/-- A string reads over an escaped character. -/
theorem Escaped.stringFrom_append {c : Char} {own : List Char} (h : Escaped c own)
    (text : List Char) : stringFrom .plain (own ++ text) =
      (stringFrom .plain text).map fun rest => (own ++ rest.1, rest.2) := by
  cases h with
  | letter hletter =>
      rename_i own hown
      have hdigits : own ≠ 'u' := by
        rintro rfl
        exact absurd hletter (by decide)
      rw [List.cons_append, Follows.escape.stringFrom_cons, List.cons_append,
        (Follows.letter hdigits hletter).stringFrom_cons, Option.map_map]
      rfl
  | digits hlow =>
      have hhigh := (digitChar_of_lt (n := c.toNat / 16) (by omega)).1
      have hlast := (digitChar_of_lt (n := c.toNat % 16) (by omega)).1
      simp only [List.cons_append, List.nil_append]
      rw [Follows.escape.stringFrom_cons, Follows.digits.stringFrom_cons,
        (Follows.digit 3 (by decide)).stringFrom_cons, StringState.afterDigit,
        (Follows.digit 2 (by decide)).stringFrom_cons, StringState.afterDigit,
        (Follows.digit 1 hhigh).stringFrom_cons, StringState.afterDigit,
        (Follows.digit 0 hlast).stringFrom_cons, StringState.afterDigit]
      simp only [Option.map_map]
      rfl
  | plain hquote hescape hcontrol =>
      rw [List.cons_append, (Follows.text hquote hescape hcontrol).stringFrom_cons]
      rfl

/-- A string can hold every text, escaped. -/
theorem isQuotable_escape (text : List Char) : IsQuotable (text.flatMap escape) := by
  intro behind
  induction text with
  | nil => rfl
  | cons c rest ih =>
      rw [List.flatMap_cons, List.append_assoc, (escaped c).stringFrom_append, ih]
      rfl

theorem Escaped.unescape_append {c : Char} {own : List Char} (h : Escaped c own)
    (text : List Char) : unescape (own ++ text) = c :: unescape text := by
  cases h with
  | letter hletter hown =>
      rename_i own
      have hdigits : own ≠ 'u' := by
        rintro rfl
        exact absurd hletter (by decide)
      rw [List.cons_append, List.singleton_append, ← hown]
      exact unescape.eq_3 own text fun _ _ _ _ _ heq _ => hdigits heq
  | digits hlow =>
      have hhigh := (digitChar_of_lt (n := c.toNat / 16) (by omega)).2
      have hlast := (digitChar_of_lt (n := c.toNat % 16) (by omega)).2
      simp only [List.cons_append, List.nil_append]
      rw [unescape, hhigh, hlast]
      have hzero : hexDigit '0' = 0 := by decide
      rw [hzero]
      congr 1
      rw [show ((0 * 16 + 0) * 16 + c.toNat / 16) * 16 + c.toNat % 16 = c.toNat by omega]
      exact Char.ofNat_toNat c
  | plain hquote hescape hcontrol =>
      rw [List.singleton_append]
      exact unescape.eq_4 c text (fun _ _ _ _ _ heq _ => hescape heq)
        fun _ _ heq _ => hescape heq

/-- An escaped text is unescaped to itself. -/
theorem unescape_escape (text : List Char) : unescape (text.flatMap escape) = text := by
  induction text with
  | nil => rfl
  | cons c rest ih => rw [List.flatMap_cons, (escaped c).unescape_append, ih]

/-! ## Numbers -/

theorem toDigits_head_ne_zero {n : Nat} (h : 0 < n) : (Nat.toDigits 10 n).head? ≠ some '0' := by
  induction n using Nat.strongRecOn with
  | ind n ih =>
      by_cases hlow : n < 10
      · rw [Nat.toDigits_of_lt_base hlow]
        interval_cases n <;> decide
      · rw [Nat.toDigits_of_base_le (by decide) (Nat.le_of_not_lt hlow),
          List.head?_append_of_ne_nil _ Nat.toDigits_ne_nil]
        exact ih (n / 10) (by omega) (by omega)

theorem isDigit_of_mem_toDigits {n : Nat} {c : Char} (h : c ∈ Nat.toDigits 10 n) :
    c.isDigit = true := Nat.isDigit_of_mem_toDigits (by decide) (by decide) h

theorem isUnsigned_toDigits (n : Nat) : isUnsigned (Nat.toDigits 10 n) = true := by
  have hdigits : ∀ c ∈ Nat.toDigits 10 n, c.isDigit = true := fun c => isDigit_of_mem_toDigits
  have htake : (Nat.toDigits 10 n).takeWhile Char.isDigit = Nat.toDigits 10 n :=
    List.takeWhile_eq_self_iff.mpr hdigits
  have hdrop : (Nat.toDigits 10 n).dropWhile Char.isDigit = [] :=
    List.dropWhile_eq_nil_iff.mpr hdigits
  rw [isUnsigned, htake, hdrop]
  rcases Nat.eq_zero_or_pos n with rfl | hpos
  · decide
  · have hne : (Nat.toDigits 10 n).isEmpty = false := by
      rw [List.isEmpty_eq_false_iff]
      exact Nat.toDigits_ne_nil
    have hhead : ((Nat.toDigits 10 n).head? != some '0') = true :=
      bne_iff_ne.mpr (toDigits_head_ne_zero hpos)
    rw [hne, hhead]
    simp [isFraction, isScaled]

/-- The text of an integer is an atom. -/
theorem readable_int (value : Int) : Readable (.atom (toString value).toList) := by
  have hchars : ∀ n : Nat, ∀ c ∈ Nat.toDigits 10 n, isAtomChar c = true := by
    intro n c hc
    simp [isAtomChar, Char.isAlphanum, isDigit_of_mem_toDigits hc]
  cases value with
  | ofNat n =>
      have htext : (toString (Int.ofNat n)).toList = Nat.toDigits 10 n := Nat.toList_repr
      rw [htext]
      refine ⟨?_, hchars n⟩
      have hsign : (Nat.toDigits 10 n).head? ≠ some '-' := by
        intro hhead
        have hdigit := isDigit_of_mem_toDigits (List.mem_of_mem_head? hhead)
        exact absurd hdigit (by decide)
      rw [isAtom]
      rw [if_neg hsign, isUnsigned_toDigits, Bool.or_true]
  | negSucc n =>
      have htext : (toString (Int.negSucc n)).toList = '-' :: Nat.toDigits 10 (n + 1) := by
        change ("-" ++ (n + 1).repr).toList = _
        rw [String.toList_append, Nat.toList_repr]
        rfl
      rw [htext]
      refine ⟨?_, ?_⟩
      · rw [isAtom]
        rw [List.head?_cons, if_pos rfl, List.tail_cons, isUnsigned_toDigits, Bool.or_true]
      · intro c hc
        rcases List.mem_cons.mp hc with rfl | hdigit
        · decide
        · exact hchars (n + 1) c hdigit

end Json

end Interaction
