import TripGraph.Foundation.Json
import TripGraph.Schemas.Plan

/-! # Extracting JSON from the text of a language model

A fenced block is taken first, then a group in running text. A fence is searched in strings
too, and text behind a group is only cut off when other text stands before it.
-/

namespace TripGraph

open Interaction

namespace JsonText

/-! ## Fences -/

def fence : List Char := "```".toList

/-- The text before the first fence, and the text behind it. -/
def splitFence : List Char → Option (List Char × List Char)
  | [] => none
  | c :: rest =>
      if fence.isPrefixOf (c :: rest) then some ([], rest.drop 2)
      else (splitFence rest).map fun own => (c :: own.1, own.2)

/-- `(?:json)?`, ignoring case. -/
def dropTag (text : List Char) : List Char :=
  let folded := (text.take 4).map fun c => if c = 'ſ' then 's' else c.toLower
  if folded = "json".toList then text.drop 4 else text

/-- `text.strip()`. -/
def stripChars (text : List Char) : List Char :=
  ((text.dropWhile isSpace).reverse.dropWhile isSpace).reverse

/-- `fence_match.group(1).strip()`: a tag and what stands before the next fence. Neither a tag
nor white space holds a part of a fence, so the order of the alternatives makes no difference. -/
def fencedBlock (text : List Char) : Option (List Char) := do
  let opened ← splitFence text
  let closed ← splitFence (dropTag opened.2)
  pure (stripChars closed.1)

/-- A fence at the very end, or before a last line break, which is left. -/
def closing? : List Char → Option (List Char)
  | ['`', '`', '`'] => some []
  | ['`', '`', '`', '\n'] => some ['\n']
  | _ => none

/-- `re.sub(r"\n?```$", "", text)`. -/
def dropClosing : List Char → List Char
  | [] => []
  | c :: rest =>
      match (if c = '\n' then closing? rest else none).or (closing? (c :: rest)) with
      | some left => left
      | none => c :: dropClosing rest

/-- `re.sub(r"^```(?:json)?\n?", "", text)`. -/
def dropOpening (text : List Char) : List Char :=
  let tagged := dropTag (text.drop 3)
  if tagged.head? = some '\n' then tagged.tail else tagged

/-! ## Groups in running text -/

/-- The loop of `_find_json_end`, from this index on. -/
def scanEnd (opener closer : Char) (index : Nat) (depth : Int) (inString escape : Bool) :
    List Char → Nat
  | [] => index
  | char :: rest =>
      if inString then
        if escape then scanEnd opener closer (index + 1) depth true false rest
        else if char = '\\' then scanEnd opener closer (index + 1) depth true true rest
        else if char = '"' then scanEnd opener closer (index + 1) depth false escape rest
        else scanEnd opener closer (index + 1) depth true escape rest
      else if char = '"' then scanEnd opener closer (index + 1) depth true escape rest
      else if char = opener then scanEnd opener closer (index + 1) (depth + 1) false escape rest
      else if char = closer then
        if depth - 1 = 0 then index + 1
        else scanEnd opener closer (index + 1) (depth - 1) false escape rest
      else scanEnd opener closer (index + 1) depth false escape rest

/-- `_find_json_end`. -/
def findJsonEnd (text : List Char) (start : Nat) : Nat :=
  let opener := (text.drop start).headD ' '
  scanEnd opener (if opener = '{' then '}' else ']') start 0 false false (text.drop start)

def opensGroup (c : Char) : Bool := c == '{' || c == '['

/-- The first group of the text, if the text does not begin with one. -/
def outermost (text : List Char) : List Char :=
  if text.head?.any opensGroup then text
  else
    match text.findIdx? opensGroup with
    | none => text
    | some start =>
        let stop := findJsonEnd text start
        if start < stop then (text.take stop).drop start else text

/-- What `extract_json_text` takes for the JSON text, before it is loaded. -/
def candidate (raw : List Char) : Except RaisedError (List Char) :=
  let text := stripChars raw
  if text = [] then .error (.valueError "empty LLM response")
  else
    let text := (fencedBlock text).getD text
    let text :=
      if fence.isPrefixOf text then stripChars (dropClosing (dropOpening text)) else text
    .ok (outermost text)

/-- The exception that `json.loads` raises. -/
def loadError : LoadFailure → RaisedError
  | .decode error => .external "JSONDecodeError" error.text
  | .limit kind message => .external kind message

/-- `extract_json_text` -/
def extractJsonText (decoder : JsonDecoder) (raw : String) : Except RaisedError String := do
  let text ← candidate raw.toList
  match decoder.loads (String.ofList text) with
  | .ok _ => .ok (String.ofList text)
  | .error failure => .error (loadError failure)

theorem stripChars_sublist (text : List Char) : (stripChars text).Sublist text := by
  have hinner : (stripChars text).Sublist (text.dropWhile isSpace).reverse.reverse :=
    (List.dropWhile_sublist isSpace).reverse
  rw [List.reverse_reverse] at hinner
  exact hinner.trans (List.dropWhile_sublist isSpace)

/-! ## Scanning balanced text -/

section Scanning

variable {opener closer : Char}

/-- Behind a backslash the scanner takes any character. -/
def escaped : Json.StringState → Bool
  | .plain => false
  | .escape => true
  | .digits _ => false

theorem escaped_afterDigit (more : Nat) : escaped (.afterDigit more) = false := by
  cases more <;> rfl

/-- In a string the scanner and the reader of strings go on together. -/
theorem scanEnd_follows {state next : Json.StringState} {c : Char} (h : Json.Follows state c next)
    (index : Nat) (depth : Int) (rest : List Char) :
    scanEnd opener closer index depth true (escaped state) (c :: rest) =
      scanEnd opener closer (index + 1) depth true (escaped next) rest := by
  rw [scanEnd, if_pos rfl]
  cases h with
  | text hquote hescape =>
      rw [escaped, if_neg Bool.false_ne_true, if_neg hescape, if_neg hquote]
  | escape =>
      rw [escaped, if_neg Bool.false_ne_true, if_pos rfl]
      rfl
  | digits => exact if_pos rfl
  | letter => exact if_pos rfl
  | digit more hdigit =>
      have hescape : c ≠ '\\' := by
        rintro rfl
        exact absurd hdigit (by decide)
      have hquote : c ≠ '"' := by
        rintro rfl
        exact absurd hdigit (by decide)
      rw [escaped_afterDigit, escaped, if_neg Bool.false_ne_true, if_neg hescape, if_neg hquote]

/-- The scanner leaves a string at its closing quote. -/
theorem scanEnd_string {state : Json.StringState} {own after : List Char}
    (h : Json.stringFrom state (own ++ '"' :: after) = some (own, after))
    (index : Nat) (depth : Int) (rest : List Char) :
    scanEnd opener closer index depth true (escaped state) (own ++ '"' :: rest) =
      scanEnd opener closer (index + own.length + 1) depth false false rest := by
  induction own generalizing state index with
  | nil =>
      rcases Json.follows_of_stringFrom h with ⟨rfl, -⟩ | ⟨next, tail, -, heq, -⟩
      · rfl
      · cases heq
  | cons c own ih =>
      rcases Json.follows_of_stringFrom h with ⟨-, -, heq, -⟩ | ⟨next, tail, hnext, heq, htail⟩
      · cases heq
      · obtain ⟨-, rfl⟩ := List.cons.inj heq
        rw [List.cons_append, scanEnd_follows hnext, ih htail, List.length_cons,
          Nat.add_right_comm index 1]
        rfl

theorem scanEnd_other {c : Char} (hquote : c ≠ '"') (hopener : c ≠ opener) (hcloser : c ≠ closer)
    (index : Nat) (depth : Int) (rest : List Char) :
    scanEnd opener closer index depth false false (c :: rest) =
      scanEnd opener closer (index + 1) depth false false rest := by
  rw [scanEnd, if_neg Bool.false_ne_true, if_neg hquote, if_neg hopener, if_neg hcloser]

theorem scanEnd_opener (hbrackets : Json.Brackets opener closer) (index : Nat) (depth : Int)
    (rest : List Char) : scanEnd opener closer index depth false false (opener :: rest) =
      scanEnd opener closer (index + 1) (depth + 1) false false rest := by
  rw [scanEnd, if_neg Bool.false_ne_true, if_neg (by cases hbrackets <;> decide), if_pos rfl]

theorem scanEnd_closer (hbrackets : Json.Brackets opener closer) (index : Nat) (depth : Int)
    (rest : List Char) : scanEnd opener closer index depth false false (closer :: rest) =
      if depth - 1 = 0 then index + 1
      else scanEnd opener closer (index + 1) (depth - 1) false false rest := by
  rw [scanEnd, if_neg Bool.false_ne_true, if_neg (by cases hbrackets <;> decide),
    if_neg (by cases hbrackets <;> decide), if_pos rfl]

/-- The scanner passes this text, in whatever depth it stands. -/
def Passes (opener closer : Char) (own : List Char) : Prop :=
  ∀ index depth rest, 0 < depth → scanEnd opener closer index depth false false (own ++ rest) =
    scanEnd opener closer (index + own.length) depth false false rest

/-- A group is passed: its brackets are counted both, or none of them. -/
theorem Passes.group {own ownCloser : Char} {inner tail : List Char}
    (hbrackets : Json.Brackets opener closer) (hown : Json.Brackets own ownCloser)
    (hinner : Passes opener closer inner) (htail : Passes opener closer tail) :
    Passes opener closer (own :: inner ++ ownCloser :: tail) := by
  intro index depth rest hdepth
  rw [List.append_assoc, List.cons_append, List.cons_append]
  by_cases hsame : own = opener
  · obtain ⟨rfl, rfl⟩ : own = opener ∧ ownCloser = closer := by
      cases hown <;> cases hbrackets <;> simp at hsame ⊢
    rw [scanEnd_opener hbrackets, hinner _ _ _ (by omega), scanEnd_closer hbrackets,
      if_neg (by omega), htail _ _ _ (by omega)]
    congr 1
    · simp
      omega
    · omega
  · have hother : ∀ c ∈ [own, ownCloser], c ≠ '"' ∧ c ≠ opener ∧ c ≠ closer := by
      cases hown <;> cases hbrackets <;> simp at hsame ⊢
    obtain ⟨hquote, hopener, hcloser⟩ := hother own (by simp)
    obtain ⟨hquote', hopener', hcloser'⟩ := hother ownCloser (by simp)
    rw [scanEnd_other hquote hopener hcloser, hinner _ _ _ hdepth,
      scanEnd_other hquote' hopener' hcloser', htail _ _ _ hdepth]
    congr 1
    simp
    omega

/-- The scanner passes balanced text. -/
theorem passes_of_balanced (hbrackets : Json.Brackets opener closer) {own : List Char}
    (h : Json.Balanced own) : Passes opener closer own := by
  induction h with
  | nil => exact fun index depth rest _ => rfl
  | plain c tail hplain _ ih =>
      intro index depth rest hdepth
      have hquote : c ≠ '"' := by
        rintro rfl
        exact absurd hplain (by decide)
      have hopener : c ≠ opener := by
        rintro rfl
        cases hbrackets <;> exact absurd hplain (by decide)
      have hcloser : c ≠ closer := by
        rintro rfl
        cases hbrackets <;> exact absurd hplain (by decide)
      rw [List.cons_append, scanEnd_other hquote hopener hcloser, ih _ _ _ hdepth,
        List.length_cons, Nat.add_right_comm]
      rfl
  | quoted text tail hquoted _ ih =>
      intro index depth rest hdepth
      rw [List.append_assoc, List.cons_append, List.cons_append, scanEnd,
        if_neg Bool.false_ne_true, if_pos rfl]
      refine (scanEnd_string hquoted (index + 1) depth (tail ++ rest)).trans ?_
      rw [ih _ _ _ hdepth]
      congr 1
      simp
      omega
  | square inner tail _ _ hinner htail => exact .group hbrackets .square hinner htail
  | curly inner tail _ _ hinner htail => exact .group hbrackets .curly hinner htail

/-- The scanner finds the end of a group. -/
theorem scanEnd_group (hbrackets : Json.Brackets opener closer) {inner : List Char}
    (h : Json.Balanced inner) (index : Nat) (rest : List Char) :
    scanEnd opener closer index 0 false false (opener :: inner ++ closer :: rest) =
      index + (inner.length + 2) := by
  rw [List.cons_append, scanEnd_opener hbrackets, passes_of_balanced hbrackets h _ _ _ (by decide),
    scanEnd_closer hbrackets, if_pos (by decide)]
  omega

theorem closer_of_brackets (hbrackets : Json.Brackets opener closer) :
    (if opener = '{' then '}' else ']') = closer := by
  cases hbrackets <;> decide

/-- The end of a group behind any text is found. -/
theorem findJsonEnd_group (hbrackets : Json.Brackets opener closer) {inner text rest : List Char}
    (h : Json.Balanced inner) {start : Nat}
    (htext : text.drop start = opener :: inner ++ closer :: rest) :
    findJsonEnd text start = start + (inner.length + 2) := by
  unfold findJsonEnd
  rw [htext]
  change scanEnd opener (if opener = '{' then '}' else ']') start 0 false false _ = _
  rw [closer_of_brackets hbrackets]
  exact scanEnd_group hbrackets h start rest

/-- The text of an object or an array, with nothing around it. -/
structure GroupText (text : List Char) : Prop where
  loads : ∃ item, Json.loads text = some item ∧ item.isGroup = true
  first : ∀ c ∈ text.head?, Json.isBlank c = false
  last : ∀ c ∈ text.getLast?, Json.isBlank c = false

/-- The text of a group begins and ends with its brackets. -/
theorem GroupText.exists_brackets {text : List Char} (h : GroupText text) :
    ∃ opener inner closer, Json.Brackets opener closer ∧ Json.Balanced inner ∧
      text = opener :: inner ++ [closer] := by
  obtain ⟨item, hitem, hgroup⟩ := h.loads
  obtain ⟨before, opener, inner, closer, after, hbrackets, rfl, hbefore, hafter, hbalanced, -⟩ :=
    Json.loads_group hitem hgroup
  obtain rfl : before = [] := by
    cases before with
    | nil => rfl
    | cons c rest => exact absurd (h.first c rfl) (by simp [hbefore c List.mem_cons_self])
  obtain rfl : after = [] := by
    rcases List.eq_nil_or_concat' after with rfl | ⟨rest, c, rfl⟩
    · rfl
    · have hlast : c ∈ ([] ++ (opener :: inner ++ closer :: (rest ++ [c]))).getLast? := by
        simp [List.getLast?_append, List.getLast?_cons]
      exact absurd (h.last c hlast) (by simp [hafter c (by simp)])
  exact ⟨opener, inner, closer, hbrackets, hbalanced, rfl⟩

/-- The scanner returns the position just past the object or array that begins at `start`,
whatever stands before and behind it. -/
theorem findJsonEnd_eq {text payload rest : List Char} {start : Nat} (hpayload : GroupText payload)
    (htext : text.drop start = payload ++ rest) :
    findJsonEnd text start = start + payload.length := by
  obtain ⟨opener, inner, closer, hbrackets, hbalanced, rfl⟩ := hpayload.exists_brackets
  rw [List.append_assoc, List.singleton_append] at htext
  rw [findJsonEnd_group hbrackets hbalanced htext]
  simp

/-- An array with a bracket, a quote and a backslash in a string. -/
theorem findJsonEnd_eq_array :
    findJsonEnd "Here: [\"]\\\"[\", {}] done".toList 6 = 6 + "[\"]\\\"[\", {}]".toList.length := by
  have hpayload : GroupText "[\"]\\\"[\", {}]".toList := by
    refine ⟨⟨.arr [.str "]\\\"[".toList, .obj []], rfl, rfl⟩, fun c hc => ?_, fun c hc => ?_⟩
    · obtain rfl : '[' = c := Option.some.inj hc
      rfl
    · obtain rfl : ']' = c := Option.some.inj hc
      rfl
  exact findJsonEnd_eq hpayload (show _ = _ ++ " done".toList by decide)

end Scanning

/-! ## Where the fences are -/

section Fences

variable {first second text before behind : List Char}

theorem splitFence_cons (c : Char) (rest : List Char) : splitFence (c :: rest) =
    if fence.isPrefixOf (c :: rest) then some ([], rest.drop 2)
    else (splitFence rest).map fun own => (c :: own.1, own.2) := rfl

/-- A fence does not go on in text that begins otherwise. -/
theorem isPrefixOf_append (h : second.head? ≠ some '`') :
    fence.isPrefixOf (first ++ second) = fence.isPrefixOf first := by
  cases second with
  | nil => rw [List.append_nil]
  | cons c rest =>
      have hc : ('`' == c) = false := by
        rw [beq_eq_false_iff_ne]
        rintro rfl
        exact h rfl
      rcases first with _ | ⟨a, _ | ⟨b, _ | ⟨d, tail⟩⟩⟩ <;>
        simp [fence, List.isPrefixOf, hc]

theorem eq_of_isPrefixOf (h : fence.isPrefixOf text = true) : text = fence ++ text.drop 3 :=
  (List.prefix_iff_eq_append.mp (List.isPrefixOf_iff_prefix.mp h)).symm

theorem splitFence_append (h : second.head? ≠ some '`') : splitFence (first ++ second) =
    match splitFence first with
    | some own => some (own.1, own.2 ++ second)
    | none => (splitFence second).map fun own => (first ++ own.1, own.2) := by
  induction first with
  | nil =>
      rw [List.nil_append, splitFence]
      cases splitFence second <;> rfl
  | cons c rest ih =>
      have hprefix : fence.isPrefixOf (c :: (rest ++ second)) = fence.isPrefixOf (c :: rest) := by
        rw [← List.cons_append]
        exact isPrefixOf_append h
      rw [List.cons_append]
      rw [splitFence_cons, splitFence_cons, hprefix]
      split
      next hfence =>
        have hlength := congrArg List.length (eq_of_isPrefixOf hfence)
        have htwo : 2 ≤ rest.length := by
          simp [fence] at hlength
          omega
        rw [List.drop_append_of_le_length htwo]
      next =>
        rw [ih]
        cases splitFence rest with
        | none =>
            cases splitFence second <;> rfl
        | some own => rfl

/-- Without a backtick there is no fence. -/
theorem splitFence_append_of_plain (h : ∀ c ∈ first, c ≠ '`') :
    splitFence (first ++ second) = (splitFence second).map fun own => (first ++ own.1, own.2) := by
  induction first with
  | nil => cases hsecond : splitFence second <;> simp [hsecond]
  | cons c rest ih =>
      obtain ⟨hc, hrest⟩ := List.forall_mem_cons.mp h
      have hprefix : fence.isPrefixOf (c :: (rest ++ second)) = false := by
        have hne : ('`' == c) = false := beq_eq_false_iff_ne.mpr hc.symm
        simp [fence, List.isPrefixOf, hne]
      rw [List.cons_append, splitFence_cons, hprefix, ih hrest, if_neg Bool.false_ne_true]
      cases splitFence second <;> rfl

theorem eq_of_splitFence (h : splitFence text = some (before, behind)) :
    text = before ++ (fence ++ behind) := by
  induction text generalizing before with
  | nil => cases h
  | cons c rest ih =>
      rw [splitFence_cons] at h
      split at h
      next hfence =>
        obtain ⟨rfl, rfl⟩ := Prod.mk.inj (Option.some.inj h)
        exact eq_of_isPrefixOf hfence
      next =>
        obtain ⟨⟨tail, after⟩, htail, heq⟩ := Option.map_eq_some_iff.mp h
        obtain ⟨rfl, rfl⟩ := Prod.mk.inj heq
        rw [ih htail]
        rfl

/-- The first fence is found. -/
theorem exists_splitFence (first second : List Char) : ∃ before behind,
    splitFence (first ++ (fence ++ second)) = some (before, behind) ∧ second <:+ behind := by
  induction first with
  | nil => exact ⟨[], second, rfl, List.suffix_rfl⟩
  | cons c rest ih =>
      rw [List.cons_append, splitFence_cons]
      split
      next =>
        refine ⟨[], _, rfl, ?_⟩
        rw [← List.append_assoc, List.drop_append_of_le_length (by simp [fence])]
        exact List.suffix_append _ _
      next =>
        obtain ⟨before, behind, hsplit, hbehind⟩ := ih
        rw [hsplit]
        exact ⟨c :: before, behind, rfl, hbehind⟩

theorem splitFence_eq_none_iff : splitFence text = none ↔ ¬ fence <:+: text := by
  constructor
  · rintro hnone ⟨first, second, rfl⟩
    obtain ⟨before, behind, hsplit, -⟩ := exists_splitFence first second
    rw [List.append_assoc, hsplit] at hnone
    cases hnone
  · intro hfree
    cases hsplit : splitFence text with
    | none => rfl
    | some own =>
        refine absurd ?_ hfree
        rw [eq_of_splitFence hsplit, ← List.append_assoc]
        exact List.infix_append own.1 fence own.2

/-- Two fences, one behind the other. -/
def FencePair (text : List Char) : Prop :=
  ∃ first middle last, text = first ++ (fence ++ (middle ++ (fence ++ last)))

theorem fencePair_iff : FencePair text ↔
    ∃ before behind, splitFence text = some (before, behind) ∧ splitFence behind ≠ none := by
  constructor
  · rintro ⟨first, middle, last, rfl⟩
    obtain ⟨before, behind, hsplit, hsuffix⟩ := exists_splitFence first (middle ++ (fence ++ last))
    refine ⟨before, behind, hsplit, fun hnone => splitFence_eq_none_iff.mp hnone ?_⟩
    refine List.IsInfix.trans ?_ hsuffix.isInfix
    rw [← List.append_assoc]
    exact List.infix_append middle fence last
  · rintro ⟨before, behind, hsplit, hbehind⟩
    obtain ⟨⟨middle, last⟩, hlast⟩ := Option.ne_none_iff_exists'.mp hbehind
    refine ⟨before, middle, last, ?_⟩
    rw [eq_of_splitFence hsplit, eq_of_splitFence hlast]

/-- A pair of fences in a text that ends with another character lies before what stands behind. -/
theorem fencePair_append {c : Char} (hc : c ≠ '`') (hbefore : splitFence before = none)
    (hfirst : first.head? ≠ some '`') (hbehind : splitFence behind = none) :
    FencePair (before ++ (first ++ c :: behind)) ↔ FencePair first := by
  have hlast : splitFence (c :: behind) = none := by
    have hplain : ∀ own ∈ [c], own ≠ '`' := by simpa using hc
    rw [← List.singleton_append, splitFence_append_of_plain hplain, hbehind]
    rfl
  have hhead : (c :: behind).head? ≠ some '`' := by simpa using hc
  have hmiddle : (first ++ c :: behind).head? ≠ some '`' := by
    cases first with
    | nil => exact hhead
    | cons => exact hfirst
  rw [fencePair_iff, splitFence_append hmiddle, hbefore]
  dsimp only
  rw [splitFence_append hhead, fencePair_iff]
  cases hown : splitFence first with
  | none => simp [hlast]
  | some own =>
      have hrest : splitFence (own.2 ++ c :: behind) ≠ none ↔ splitFence own.2 ≠ none := by
        rw [splitFence_append hhead, hlast]
        cases splitFence own.2 <;> simp
      simp only [Option.map_some, Option.some.injEq, Prod.mk.injEq]
      constructor
      · rintro ⟨_, _, ⟨rfl, rfl⟩, h⟩
        exact ⟨own.1, own.2, rfl, hrest.mp h⟩
      · rintro ⟨before, behind, rfl, h⟩
        exact ⟨_, _, ⟨rfl, rfl⟩, hrest.mpr h⟩

/-- A tag holds no part of a fence. -/
theorem dropTag_spec (text : List Char) :
    ∃ tag, (∀ c ∈ tag, c ≠ '`') ∧ text = tag ++ dropTag text := by
  unfold dropTag
  dsimp only
  split
  next htag =>
    refine ⟨text.take 4, ?_, (List.take_append_drop 4 text).symm⟩
    rintro c hc rfl
    have hmem := List.mem_map_of_mem (f := fun c => if c = 'ſ' then 's' else c.toLower) hc
    rw [htag] at hmem
    exact absurd hmem (by decide)
  next => exact ⟨[], by simp, rfl⟩

theorem fencedBlock_eq_none_iff : fencedBlock text = none ↔ ¬ FencePair text := by
  rw [fencePair_iff]
  unfold fencedBlock
  cases hopened : splitFence text with
  | none => simp
  | some opened =>
      obtain ⟨before, behind⟩ := opened
      obtain ⟨tag, htag, hbehind⟩ := dropTag_spec behind
      have hclosed : splitFence behind = none ↔ splitFence (dropTag behind) = none := by
        conv_lhs => rw [hbehind, splitFence_append_of_plain htag]
        exact Option.map_eq_none_iff
      cases hsplit : splitFence (dropTag behind) with
      | none => simp [hsplit, hclosed.mpr hsplit]
      | some closed => simp [hsplit, hclosed]

/-- A fenced block is shorter than a text that holds the pair of fences. -/
theorem ink_fencedBlock {c : Char} {block : List Char} (hc : c ≠ '`')
    (hbefore : splitFence before = none) (hfirst : first.head? ≠ some '`') (hpair : FencePair first)
    (hblock : fencedBlock (before ++ (first ++ c :: behind)) = some block) :
    Json.ink block < Json.ink first := by
  have hhead : (c :: behind).head? ≠ some '`' := by simpa using hc
  have hmiddle : (first ++ c :: behind).head? ≠ some '`' := by
    cases first with
    | nil => exact hhead
    | cons => exact hfirst
  obtain ⟨opening, opened, hopened, hclosing⟩ := fencePair_iff.mp hpair
  obtain ⟨⟨middle, last⟩, hclosed⟩ := Option.ne_none_iff_exists'.mp hclosing
  have hopen : splitFence (before ++ (first ++ c :: behind)) =
      some (before ++ opening, opened ++ c :: behind) := by
    rw [splitFence_append hmiddle, hbefore, splitFence_append hhead, hopened]
    rfl
  have hclose : splitFence (opened ++ c :: behind) = some (middle, last ++ c :: behind) := by
    rw [splitFence_append hhead, hclosed]
  obtain ⟨tag, htag, hbehind⟩ := dropTag_spec (opened ++ c :: behind)
  rw [hbehind, splitFence_append_of_plain htag] at hclose
  obtain ⟨⟨inner, rest⟩, hinner, heq⟩ := Option.map_eq_some_iff.mp hclose
  have hstripped : block = stripChars inner := by
    unfold fencedBlock at hblock
    rw [hopen] at hblock
    dsimp only [Option.bind_eq_bind, Option.bind_some] at hblock
    rw [hinner] at hblock
    exact (Option.some.inj hblock).symm
  have hsublist := (stripChars_sublist inner).trans (List.sublist_append_right tag inner)
  rw [(Prod.mk.inj heq).1, ← hstripped] at hsublist
  have hink := Json.ink_le_of_sublist hsublist
  rw [eq_of_splitFence hopened, eq_of_splitFence hclosed]
  have hfence : Json.ink fence = 3 := by decide
  simp only [Json.ink_append, hfence]
  omega

end Fences

/-! ## Text around a group -/

section Around

variable {lead inner trail : List Char} {opener closer : Char}

theorem dropWhile_append_cons {p : Char → Bool} {c : Char} (hc : p c = false)
    (first second : List Char) :
    (first ++ c :: second).dropWhile p = first.dropWhile p ++ c :: second := by
  rw [List.dropWhile_append]
  split
  next hempty =>
    rw [List.isEmpty_iff.mp hempty]
    exact List.dropWhile_cons_of_neg (by simp [hc])
  next => rfl

/-- `text.rstrip()`. -/
def rstripChars (text : List Char) : List Char := (text.reverse.dropWhile isSpace).reverse

theorem not_space_of_brackets (h : Json.Brackets opener closer) :
    isSpace opener = false ∧ isSpace closer = false := by
  cases h <;> decide

theorem stripChars_around (h : Json.Brackets opener closer) :
    stripChars (lead ++ (opener :: inner ++ closer :: trail)) =
      lead.dropWhile isSpace ++ (opener :: inner ++ closer :: rstripChars trail) := by
  obtain ⟨hopener, hcloser⟩ := not_space_of_brackets h
  unfold stripChars rstripChars
  rw [List.cons_append, dropWhile_append_cons hopener]
  have hreverse : (lead.dropWhile isSpace ++ opener :: (inner ++ closer :: trail)).reverse =
      trail.reverse ++ closer :: (lead.dropWhile isSpace ++ opener :: inner).reverse := by
    simp
  rw [hreverse, dropWhile_append_cons hcloser]
  simp

theorem opensGroup_of_brackets (h : Json.Brackets opener closer) : opensGroup opener = true := by
  cases h <;> rfl

/-- A text that begins with a group is left as it is. -/
theorem outermost_first (h : Json.Brackets opener closer) :
    outermost (opener :: inner ++ closer :: trail) = opener :: inner ++ closer :: trail :=
  if_pos (opensGroup_of_brackets h)

theorem findIdx?_append_cons {p : Char → Bool} {first : List Char} {c : Char}
    (hfirst : ∀ own ∈ first, p own = false) (hc : p c = true) (second : List Char) :
    (first ++ c :: second).findIdx? p = some first.length := by
  rw [List.findIdx?_append, List.findIdx?_eq_none_iff.mpr hfirst, List.findIdx?_cons, hc]
  simp

/-- Behind other text the first group is taken. -/
theorem outermost_behind (h : Json.Brackets opener closer) (hinner : Json.Balanced inner)
    (hne : lead ≠ []) (hlead : ∀ c ∈ lead, opensGroup c = false) :
    outermost (lead ++ (opener :: inner ++ closer :: trail)) = opener :: inner ++ [closer] := by
  have hfirst : (lead ++ (opener :: inner ++ closer :: trail)).head?.any opensGroup = false := by
    obtain ⟨c, rest, rfl⟩ := List.exists_cons_of_ne_nil hne
    exact hlead c List.mem_cons_self
  have hindex : (lead ++ (opener :: inner ++ closer :: trail)).findIdx? opensGroup =
      some lead.length := findIdx?_append_cons hlead (opensGroup_of_brackets h) _
  have hstop : findJsonEnd (lead ++ (opener :: inner ++ closer :: trail)) lead.length =
      lead.length + (inner.length + 2) := findJsonEnd_group h hinner List.drop_left
  unfold outermost
  rw [hfirst, if_neg Bool.false_ne_true, hindex]
  dsimp only
  rw [hstop, if_pos (by omega), List.take_length_add_append, List.drop_left, List.append_cons]
  exact List.take_left' (by simp)

theorem isSpace_of_isBlank {c : Char} (h : Json.isBlank c = true) : isSpace c = true := by
  simp only [Json.isBlank, Bool.or_eq_true, beq_iff_eq] at h
  rcases h with ((rfl | rfl) | rfl) | rfl <;> decide

theorem rstripChars_eq_nil (h : trail.all isSpace = true) : rstripChars trail = [] := by
  rw [rstripChars, List.dropWhile_eq_nil_iff.mpr fun c hc =>
    List.all_eq_true.mp h c (List.mem_reverse.mp hc)]
  rfl

/-- Stripped text is blank for JSON only if nothing is left of it. -/
theorem skipBlanks_rstripChars :
    Json.skipBlanks (rstripChars trail) = [] ↔ trail.all isSpace = true := by
  rw [Json.skipBlanks_eq_nil_iff, List.all_eq_true]
  have hhead := List.head?_dropWhile_not isSpace trail.reverse
  constructor
  · intro hblank c hc
    by_contra hspace
    cases hdropped : trail.reverse.dropWhile isSpace with
    | nil =>
        rw [List.dropWhile_eq_nil_iff] at hdropped
        exact hspace (hdropped c (List.mem_reverse.mpr hc))
    | cons last rest =>
        rw [hdropped] at hhead
        have hlast := hblank last (by
          rw [rstripChars, hdropped]
          simp)
        exact absurd ((isSpace_of_isBlank hlast).symm.trans hhead) (by decide)
  · intro hspace c hc
    rw [rstripChars_eq_nil (List.all_eq_true.mpr hspace)] at hc
    cases hc

theorem splitFence_of_infix {first second : List Char} (h : splitFence second = none)
    (hfragment : first <:+: second) : splitFence first = none :=
  splitFence_eq_none_iff.mpr fun hfence => splitFence_eq_none_iff.mp h (hfence.trans hfragment)

theorem prefix_rstripChars (text : List Char) : rstripChars text <+: text := by
  have hsuffix := List.dropWhile_suffix isSpace (l := text.reverse)
  rw [← List.reverse_prefix, List.reverse_reverse] at hsuffix
  exact hsuffix

/-- A group of a text with no pair of fences, between text with no fence: it is taken alone
unless it comes first and other text than white space follows. -/
theorem candidate_around (h : Json.Brackets opener closer) (hinner : Json.Balanced inner)
    (hlead : ∀ c ∈ lead, opensGroup c = false) (hbefore : splitFence lead = none)
    (hbehind : splitFence trail = none) (hpair : ¬ FencePair (opener :: inner)) :
    candidate (lead ++ (opener :: inner ++ closer :: trail)) =
      .ok (opener :: inner ++ closer ::
        if lead.all isSpace = true then rstripChars trail else []) := by
  have hquote : closer ≠ '`' := by cases h <;> decide
  have hhead : (opener :: inner).head? ≠ some '`' := by cases h <;> simp
  have hleft : splitFence (lead.dropWhile isSpace) = none :=
    splitFence_of_infix hbefore (List.dropWhile_suffix isSpace).isInfix
  have hright : splitFence (rstripChars trail) = none :=
    splitFence_of_infix hbehind (prefix_rstripChars trail).isInfix
  have hblock : fencedBlock
      (lead.dropWhile isSpace ++ (opener :: inner ++ closer :: rstripChars trail)) = none := by
    rw [fencedBlock_eq_none_iff, fencePair_append hquote hleft hhead hright]
    exact hpair
  have hfence : fence.isPrefixOf
      (lead.dropWhile isSpace ++ (opener :: inner ++ closer :: rstripChars trail)) = false := by
    rw [isPrefixOf_append (by cases h <;> simp), Bool.eq_false_iff]
    intro hprefix
    exact splitFence_eq_none_iff.mp hleft (List.isPrefixOf_iff_prefix.mp hprefix).isInfix
  have hne : lead.dropWhile isSpace ++ (opener :: inner ++ closer :: rstripChars trail) ≠ [] := by
    simp
  unfold candidate
  dsimp only
  rw [stripChars_around h, if_neg hne, hblock, Option.getD_none, hfence, if_neg Bool.false_ne_true]
  by_cases hspace : lead.all isSpace = true
  · -- the group comes first, and is not cut off from what follows
    rw [List.dropWhile_eq_nil_iff.mpr (List.all_eq_true.mp hspace), List.nil_append,
      outermost_first h, if_pos hspace]
  · have hnonempty : lead.dropWhile isSpace ≠ [] := fun hnil =>
      hspace (List.all_eq_true.mpr (List.dropWhile_eq_nil_iff.mp hnil))
    rw [outermost_behind h hinner hnonempty fun c hc => hlead c
        ((List.dropWhile_suffix isSpace).subset hc), if_neg hspace]

theorem dropTag_suffix (text : List Char) : dropTag text <:+ text := by
  obtain ⟨tag, -, htext⟩ := dropTag_spec text
  exact ⟨tag, htext.symm⟩

theorem dropOpening_suffix (text : List Char) : dropOpening text <:+ text := by
  have htagged := (dropTag_suffix (text.drop 3)).trans (List.drop_suffix 3 text)
  unfold dropOpening
  dsimp only
  split
  · exact (List.tail_suffix _).trans htagged
  · exact htagged

theorem closing?_sublist {text left : List Char} (h : closing? text = some left) :
    left.Sublist text := by
  unfold closing? at h
  split at h
  next =>
    obtain rfl := Option.some.inj h
    exact List.nil_sublist _
  next =>
    obtain rfl := Option.some.inj h
    exact List.sublist_append_right ['`', '`', '`'] ['\n']
  next => cases h

theorem dropClosing_sublist (text : List Char) : (dropClosing text).Sublist text := by
  induction text with
  | nil => exact List.Sublist.refl _
  | cons c rest ih =>
      rw [dropClosing]
      split
      next left hleft =>
        rcases Option.or_eq_some_iff.mp hleft with hbreak | ⟨-, hown⟩
        · split at hbreak
          · exact (closing?_sublist hbreak).cons c
          · cases hbreak
        · exact closing?_sublist hown
      next => exact ih.cons_cons c

theorem outermost_sublist (text : List Char) : (outermost text).Sublist text := by
  unfold outermost
  split
  · exact List.Sublist.refl _
  · split
    · exact List.Sublist.refl _
    · dsimp only
      split
      · exact (List.drop_sublist _ _).trans (List.take_sublist _ _)
      · exact List.Sublist.refl _

/-- What is taken is part of the fenced block, if there is one. -/
theorem candidate_sublist {raw text block : List Char} (h : candidate raw = .ok text)
    (hblock : fencedBlock (stripChars raw) = some block) : text.Sublist block := by
  unfold candidate at h
  dsimp only at h
  split at h
  next => cases h
  next =>
    rw [hblock, Option.getD_some] at h
    rw [← Except.ok.inj h]
    refine (outermost_sublist _).trans ?_
    split
    · exact (stripChars_sublist _).trans
        ((dropClosing_sublist _).trans (dropOpening_suffix block).sublist)
    · exact List.Sublist.refl _

/-- With a pair of fences in the group, what is taken is shorter than the group. -/
theorem ink_candidate {text : List Char} (h : Json.Brackets opener closer)
    (hbefore : splitFence lead = none) (hpair : FencePair (opener :: inner))
    (hbehind : splitFence trail = none)
    (htaken : candidate (lead ++ (opener :: inner ++ closer :: trail)) = .ok text) :
    Json.ink text < Json.ink (opener :: inner) := by
  have hquote : closer ≠ '`' := by cases h <;> decide
  have hhead : (opener :: inner).head? ≠ some '`' := by cases h <;> simp
  have hleft : splitFence (lead.dropWhile isSpace) = none :=
    splitFence_of_infix hbefore (List.dropWhile_suffix isSpace).isInfix
  have hright : splitFence (rstripChars trail) = none :=
    splitFence_of_infix hbehind (prefix_rstripChars trail).isInfix
  cases hblock : fencedBlock
      (lead.dropWhile isSpace ++ (opener :: inner ++ closer :: rstripChars trail)) with
  | none =>
      rw [fencedBlock_eq_none_iff, fencePair_append hquote hleft hhead hright] at hblock
      exact absurd hpair hblock
  | some block =>
      have hshort := ink_fencedBlock hquote hleft hhead hpair hblock
      rw [← stripChars_around h] at hblock
      exact (Json.ink_le_of_sublist (candidate_sublist htaken hblock)).trans_lt hshort

end Around

/-! ## Recovering a payload -/

/-- No bracket and no fence stand before the payload, and no fence behind it. -/
structure Surrounds (before behind : String) : Prop where
  no_group : ∀ c ∈ before.toList, opensGroup c = false
  no_fence_before : ¬ fence <:+: before.toList
  no_fence_behind : ¬ fence <:+: behind.toList

/-- What is extracted from the payload and the text around it means the same as the payload.
What numbers, escapes and repeated keys mean is left open. -/
def Recovers {α : Type} (decoder : JsonDecoder) (meaning : Json → α)
    (before payload behind : String) : Prop :=
  ∃ text own item, extractJsonText decoder (before ++ payload ++ behind) = .ok text ∧
    decoder.loads text = .ok own ∧ decoder.loads payload = .ok item ∧ meaning own = meaning item

/-- The payload as a group, with the blanks of the payload counted to the text around it. -/
structure Located (before payload behind : String) (item : Json) (opener closer : Char)
    (lead inner trail : List Char) : Prop where
  brackets : Json.Brackets opener closer
  balanced : Json.Balanced inner
  loads : ∀ rest, Json.loads (opener :: inner ++ closer :: rest) =
    if Json.skipBlanks rest = [] then some item else none
  text : (before ++ payload ++ behind).toList = lead ++ (opener :: inner ++ closer :: trail)
  no_group : ∀ c ∈ lead, opensGroup c = false
  no_fence_lead : splitFence lead = none
  no_fence_trail : splitFence trail = none
  fencePair : FencePair payload.toList ↔ FencePair (opener :: inner)
  blank_lead : lead.all isSpace = true ↔ isBlank before = true
  blank_trail : trail.all isSpace = true ↔ isBlank behind = true

theorem exists_located {before payload behind : String} {item : Json}
    (hitem : Json.loads payload.toList = some item) (hgroup : item.isGroup = true)
    (haround : Surrounds before behind) : ∃ opener closer lead inner trail,
      Located before payload behind item opener closer lead inner trail := by
  obtain ⟨first, opener, inner, closer, last, hbrackets, hpayload, hfirst, hlast, hbalanced,
    hloads⟩ :=
    Json.loads_group hitem hgroup
  have hplain : ∀ {blanks : List Char}, (∀ c ∈ blanks, Json.isBlank c = true) →
      ∀ c ∈ blanks, c ≠ '`' := by
    rintro blanks hblanks c hc rfl
    exact absurd (hblanks _ hc) (by decide)
  have hnone : ∀ {blanks : List Char}, (∀ c ∈ blanks, Json.isBlank c = true) →
      splitFence blanks = none := by
    intro blanks hblanks
    rw [← List.append_nil blanks, splitFence_append_of_plain (hplain hblanks)]
    rfl
  have hspaces : ∀ {blanks : List Char}, (∀ c ∈ blanks, Json.isBlank c = true) →
      ∀ c ∈ blanks, isSpace c = true := fun hblanks c hc => isSpace_of_isBlank (hblanks c hc)
  refine ⟨opener, closer, before.toList ++ first, inner, last ++ behind.toList, hbrackets,
    hbalanced, hloads, ?_, ?_, ?_, ?_, ?_, ?_, ?_⟩
  · rw [String.toList_append, String.toList_append, hpayload]
    simp
  · intro c hc
    rcases List.mem_append.mp hc with hc | hc
    · exact haround.no_group c hc
    · have hblank := hfirst c hc
      simp only [Json.isBlank, Bool.or_eq_true, beq_iff_eq] at hblank
      rcases hblank with ((rfl | rfl) | rfl) | rfl <;> rfl
  · have hhead : first.head? ≠ some '`' := fun hhead =>
      hplain hfirst '`' (List.mem_of_mem_head? hhead) rfl
    rw [splitFence_append hhead, splitFence_eq_none_iff.mpr haround.no_fence_before, hnone hfirst]
    rfl
  · rw [splitFence_append_of_plain (hplain hlast),
      splitFence_eq_none_iff.mpr haround.no_fence_behind]
    rfl
  · rw [hpayload]
    exact fencePair_append (by cases hbrackets <;> decide) (hnone hfirst)
      (by cases hbrackets <;> simp)
      (hnone hlast)
  · rw [isBlank, List.all_append, Bool.and_eq_true]
    exact and_iff_left (List.all_eq_true.mpr (hspaces hfirst))
  · rw [isBlank, List.all_append, Bool.and_eq_true]
    exact and_iff_right (List.all_eq_true.mpr (hspaces hlast))

theorem extractJsonText_eq_ok_iff {decoder : JsonDecoder} {raw text : String} :
    extractJsonText decoder raw = .ok text ↔
      candidate raw.toList = .ok text.toList ∧ ∃ item, decoder.loads text = .ok item := by
  unfold extractJsonText
  cases candidate raw.toList with
  | error error =>
      constructor
      · intro heq
        cases heq
      · rintro ⟨heq, -⟩
        cases heq
  | ok own =>
      change (match decoder.loads (String.ofList own) with
        | .ok _ => .ok (String.ofList own)
        | .error failure => .error (loadError failure)) = Except.ok text ↔ _
      constructor
      · intro heq
        split at heq
        next item hitem =>
          obtain rfl := Except.ok.inj heq
          exact ⟨congrArg Except.ok String.toList_ofList.symm, item, hitem⟩
        next => cases heq
      · rintro ⟨heq, item, hitem⟩
        obtain rfl := Except.ok.inj heq
        rw [String.ofList_toList, hitem]

section Located

variable {α : Type} {decoder : JsonDecoder} {before payload behind : String} {item : Json}
  {opener closer : Char} {lead inner trail : List Char}

/-- The group alone is the payload. -/
theorem Located.loads_group
    (located : Located before payload behind item opener closer lead inner trail) :
    Json.loads (opener :: inner ++ [closer]) = some item :=
  (located.loads []).trans (if_pos rfl)

/-- Without a pair of fences only text behind a leading payload is in the way. -/
theorem Located.recovers_of_single (meaning : Json → α)
    (located : Located before payload behind item opener closer lead inner trail)
    (hitem : Json.loads payload.toList = some item) (hreads : decoder.Reads item)
    (hsingle : ¬ FencePair payload.toList) :
    Recovers decoder meaning before payload behind ↔
      isBlank before = false ∨ isBlank behind = true := by
  have htaken := candidate_around located.brackets located.balanced located.no_group
    located.no_fence_lead located.no_fence_trail fun hpair => hsingle (located.fencePair.mpr hpair)
  rw [← located.text] at htaken
  constructor
  · rintro ⟨text, own, item', htext, hown, -⟩
    by_contra hneither
    obtain ⟨hbefore, hbehind⟩ := not_or.mp hneither
    rw [Bool.not_eq_false, ← located.blank_lead] at hbefore
    rw [← located.blank_trail] at hbehind
    rw [if_pos hbefore] at htaken
    have hchars := Except.ok.inj ((extractJsonText_eq_ok_iff.mp htext).1.symm.trans htaken)
    have hloaded := (JsonDecoder.loads_eq_ok_iff.mp hown).2
    rw [hchars, located.loads, if_neg fun hblank => hbehind (skipBlanks_rstripChars.mp hblank)]
      at hloaded
    cases hloaded
  · intro heither
    have htail : (if lead.all isSpace = true then rstripChars trail else []) = [] := by
      split
      next hlead =>
        rcases heither with hbefore | hbehind
        · exact absurd (hbefore.symm.trans (located.blank_lead.mp hlead)) Bool.false_ne_true
        · exact rstripChars_eq_nil (located.blank_trail.mpr hbehind)
      next => rfl
    rw [htail] at htaken
    have hchars :
        (String.ofList (opener :: inner ++ [closer])).toList = opener :: inner ++ [closer] :=
      String.toList_ofList
    have hloaded := hreads.loads ((congrArg Json.loads hchars).trans located.loads_group)
    refine ⟨String.ofList (opener :: inner ++ [closer]), item, item, ?_, hloaded,
      hreads.loads hitem, rfl⟩
    rw [extractJsonText_eq_ok_iff, htaken, hchars]
    exact ⟨rfl, item, hloaded⟩

/-- With a pair of fences what is extracted is shorter than the payload, so it is another text. -/
theorem Located.not_recovers_of_pair
    (located : Located before payload behind item opener closer lead inner trail)
    (hitem : Json.loads payload.toList = some item) (hpair : FencePair payload.toList) :
    ¬ Recovers decoder id before payload behind := by
  rintro ⟨text, own, item', htext, hown, hitem', heq⟩
  have hsame := (JsonDecoder.loads_eq_ok_iff.mp hitem').2
  obtain rfl : own = item := heq.trans (Option.some.inj (hsame.symm.trans hitem))
  have htaken := (extractJsonText_eq_ok_iff.mp htext).1
  rw [located.text] at htaken
  have hshort := ink_candidate located.brackets located.no_fence_lead
    (located.fencePair.mp hpair) located.no_fence_trail htaken
  have htotal := Json.ink_of_loads located.loads_group
  rw [Json.ink_append, ← Json.ink_of_loads (JsonDecoder.loads_eq_ok_iff.mp hown).2] at htotal
  omega

end Located

/-- A payload without a pair of fences is recovered if and only if other text than white space
stands before it, or none behind it. Read as it is written, a payload with a pair of fences is
never recovered. -/
theorem recovers_iff {α : Type} (decoder : JsonDecoder) (meaning : Json → α)
    {before payload behind : String} {item : Json}
    (hitem : Json.loads payload.toList = some item) (hreads : decoder.Reads item)
    (hgroup : item.isGroup = true) (haround : Surrounds before behind) :
    (¬ FencePair payload.toList → (Recovers decoder meaning before payload behind ↔
      isBlank before = false ∨ isBlank behind = true)) ∧
    (Recovers decoder id before payload behind ↔ ¬ FencePair payload.toList ∧
      (isBlank before = false ∨ isBlank behind = true)) := by
  obtain ⟨opener, closer, lead, inner, trail, located⟩ := exists_located hitem hgroup haround
  refine ⟨located.recovers_of_single meaning hitem hreads, ?_⟩
  by_cases hpair : FencePair payload.toList
  · exact iff_of_false (located.not_recovers_of_pair hitem hpair) fun hboth => hboth.1 hpair
  · rw [located.recovers_of_single id hitem hreads hpair]
    exact (and_iff_right hpair).symm

/-- A decoder that no text is too long or too deep for. -/
def unlimitedDecoder : JsonDecoder where
  decodeError := fun _ =>
    let msg := "Extra data"
    ⟨msg, msg ++ ": line 1 column 4 (char 3)"⟩
  limit := fun _ => none

/-- Prose behind a payload that comes first, and fences in a string of the payload. -/
theorem not_recovers_prose_fences :
    (Json.loads "[]".toList = some (.arr []) ∧ Surrounds "" " done" ∧
      ¬ Recovers unlimitedDecoder id "" "[]" " done") ∧
    (Json.loads "[\"```[1]```\"]".toList = some (.arr [.str "```[1]```".toList]) ∧
      Surrounds "Here: " "" ∧ ¬ Recovers unlimitedDecoder id "Here: " "[\"```[1]```\"]" "" ∧
      extractJsonText unlimitedDecoder "Here: [\"```[1]```\"]" = .ok "[1]") := by
  have hprose : extractJsonText unlimitedDecoder "[] done" =
      .error (.external "JSONDecodeError" "Extra data: line 1 column 4 (char 3)") := by
    decide +kernel
  have hfences : extractJsonText unlimitedDecoder "Here: [\"```[1]```\"]" = .ok "[1]" := by
    decide +kernel
  have hpayload : Json.loads "[\"```[1]```\"]".toList =
      some (.arr [.str "```[1]```".toList]) := rfl
  have hblock : Json.loads "[1]".toList = some (.arr [.atom "1".toList]) := rfl
  have hdone : Surrounds "" " done" := ⟨by simp [opensGroup], by decide, by decide⟩
  have hhere : Surrounds "Here: " "" := ⟨by simp [opensGroup], by decide, by decide⟩
  refine ⟨⟨rfl, hdone, ?_⟩, hpayload, hhere, ?_, hfences⟩
  · rintro ⟨text, own, item, htext, -⟩
    cases hprose.symm.trans htext
  · rintro ⟨text, own, item, htext, hown, hitem, heq⟩
    obtain rfl := Except.ok.inj (hfences.symm.trans htext)
    have hown' := (JsonDecoder.loads_eq_ok_iff.mp hown).2
    have hitem' := (JsonDecoder.loads_eq_ok_iff.mp hitem).2
    obtain rfl := Option.some.inj (hown'.symm.trans hblock)
    obtain rfl := Option.some.inj (hitem'.symm.trans hpayload)
    cases heq

/-- An array between prose, with brackets in a string. -/
theorem recovers_array :
    Recovers unlimitedDecoder id "Here: " "[\"]\\\"[\", 1]" " done" := by
  have hloads : Json.loads "[\"]\\\"[\", 1]".toList =
      some (.arr [.str "]\\\"[".toList, .atom "1".toList]) := rfl
  have haround : Surrounds "Here: " " done" := ⟨by simp [opensGroup], by decide, by decide⟩
  exact (recovers_iff unlimitedDecoder id hloads (fun _ _ => rfl) rfl haround).2.mpr
    ⟨fencedBlock_eq_none_iff.mp rfl, .inl (by decide)⟩

end JsonText

end TripGraph
