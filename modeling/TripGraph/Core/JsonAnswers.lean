import TripGraph.Core.JsonText
import TripGraph.Foundation.JsonWriting
import TripGraph.Schemas.Rendering

/-! # Answers written by `json.dumps`

The rule-based clients answer with the text of a dictionary. Without a fence in its strings, the
text is extracted and read as it was written.
-/

namespace TripGraph

open Interaction

/-- `float.__repr__` shows a number as JSON has it. -/
def TextHost.ShowsNumbers (host : TextHost) : Prop :=
  ∀ value, (Json.atom (host.showFloat value).toList).Readable

namespace Value

variable (host : TextHost)

mutual

/-- The syntax tree of `json.dumps(value, ensure_ascii=False)`. -/
def tree : Value → Json
  | .null => .atom "null".toList
  | .bool value => .atom (if value then "true" else "false").toList
  | .int value => .atom (toString value).toList
  | .float value => .atom (host.showFloat value).toList
  | .str value => .str (value.toList.flatMap Json.escape)
  | .list items => .arr (treeList items)
  | .dict items => .obj (treeItems items)

def treeList : List Value → List Json
  | [] => []
  | item :: rest => tree item :: treeList rest

def treeItems : List (Key × Value) → List (List Char × Json)
  | [] => []
  | (key, item) :: rest => (key.toStr.toList.flatMap Json.escape, tree item) :: treeItems rest

end

/-- `json.dumps(value, ensure_ascii=False)` -/
def dumps (value : Value) : String := String.ofList (value.tree host).write

theorem treeList_eq_map (items : List Value) : treeList host items = items.map (tree host) := by
  induction items with
  | nil => rfl
  | cons item rest ih => rw [treeList, ih, List.map_cons]

theorem tree_list (items : List Value) : (list items).tree host = .arr (items.map (tree host)) := by
  rw [tree, treeList_eq_map]

theorem tree_ofEntries (entries : List (String × Value)) : (ofEntries entries).tree host =
    .obj (entries.map fun entry => (entry.1.toList.flatMap Json.escape, entry.2.tree host)) := by
  rw [ofEntries, tree]
  congr 1
  induction entries with
  | nil => rfl
  | cons entry rest ih =>
      rw [List.map_cons, treeItems, ih]
      rfl

theorem readable_text (text : String) : ((str text).tree host).Readable := by
  rw [tree, Json.Readable]
  exact Json.isQuotable_escape text.toList

theorem readable_null : (null.tree host).Readable := by
  rw [tree, Json.Readable]
  exact ⟨by decide, by simp [Json.isAtomChar]⟩

theorem readable_bool (value : Bool) : ((bool value).tree host).Readable := by
  rw [tree, Json.Readable]
  cases value <;> exact ⟨by decide, by simp [Json.isAtomChar]⟩

theorem readable_integer (value : Int) : ((int value).tree host).Readable := by
  rw [tree]
  exact Json.readable_int value

theorem readable_list {items : List Value} (h : ∀ item ∈ items, (item.tree host).Readable) :
    ((list items).tree host).Readable := by
  rw [tree_list, Json.Readable, Json.readableItems_iff]
  intro item hitem
  obtain ⟨own, hown, rfl⟩ := List.mem_map.mp hitem
  exact h own hown

theorem readable_ofEntries {entries : List (String × Value)}
    (h : ∀ entry ∈ entries, (entry.2.tree host).Readable) :
    ((ofEntries entries).tree host).Readable := by
  rw [tree_ofEntries, Json.Readable, Json.readableMembers_iff]
  intro member hmember
  obtain ⟨entry, hentry, rfl⟩ := List.mem_map.mp hmember
  exact ⟨Json.isQuotable_escape entry.1.toList, h entry hentry⟩

end Value

namespace JsonText

/-! ## Texts without a fence -/

/-- No three backticks in a row. -/
def Unfenced (text : List Char) : Prop := splitFence text = none

theorem Unfenced.append {first second : List Char} (hfirst : Unfenced first)
    (hsecond : Unfenced second) (hhead : second.head? ≠ some '`') : Unfenced (first ++ second) := by
  unfold Unfenced at *
  rw [splitFence_append hhead, hfirst, hsecond]
  rfl

theorem Unfenced.append_plain {first second : List Char} (hfirst : ∀ c ∈ first, c ≠ '`')
    (hsecond : Unfenced second) : Unfenced (first ++ second) := by
  unfold Unfenced at *
  rw [splitFence_append_of_plain hfirst, hsecond]
  rfl

theorem unfenced_of_plain {text : List Char} (h : ∀ c ∈ text, c ≠ '`') : Unfenced text := by
  rw [← List.append_nil text]
  exact .append_plain h rfl

/-- Escapes are no backticks, and a backtick is not escaped. -/
theorem isPrefixOf_escape (n : Nat) (text : List Char) :
    (List.replicate n '`').isPrefixOf (text.flatMap Json.escape) =
      (List.replicate n '`').isPrefixOf text := by
  induction n generalizing text with
  | zero => simp
  | succ n ih =>
      cases text with
      | nil => rfl
      | cons c rest =>
          rw [List.flatMap_cons, List.replicate_succ]
          by_cases hc : c = '`'
          · subst hc
            have hescape : Json.escape '`' = ['`'] := by decide
            rw [hescape, List.singleton_append, List.isPrefixOf_cons_cons,
              List.isPrefixOf_cons_cons, ih]
          · have hne : ('`' == c) = false := beq_eq_false_iff_ne.mpr (Ne.symm hc)
            have hslash : ('`' == '\\') = false := rfl
            have hcases := Json.escaped c
            rw [List.isPrefixOf_cons_cons, hne, Bool.false_and]
            generalize Json.escape c = own at hcases
            cases hcases <;> simp only [List.cons_append, List.isPrefixOf_cons_cons, hslash, hne,
              Bool.false_and]

theorem Unfenced.escape {text : List Char} (h : Unfenced text) :
    Unfenced (text.flatMap Json.escape) := by
  induction text with
  | nil => rfl
  | cons c rest ih =>
      unfold Unfenced at h
      rw [splitFence_cons] at h
      split at h
      next => cases h
      next hfence =>
        have hrest : Unfenced (rest.flatMap Json.escape) := ih (Option.map_eq_none_iff.mp h)
        have hescaped : fence.isPrefixOf ((c :: rest).flatMap Json.escape) = false := by
          have hsame := isPrefixOf_escape 3 (c :: rest)
          rw [Bool.not_eq_true] at hfence
          exact hsame.trans hfence
        rw [List.flatMap_cons] at hescaped ⊢
        have hcases := Json.escaped c
        generalize Json.escape c = own at hcases hescaped
        cases hcases with
        | letter hletter hown =>
            apply Unfenced.append_plain _ hrest
            rintro own hown rfl
            rcases List.mem_cons.mp hown with hslash | hown
            · cases hslash
            · rw [← List.mem_singleton.mp hown] at hletter
              exact absurd hletter (by decide)
        | digits hlow =>
            apply Unfenced.append_plain _ hrest
            intro own hown
            have hhigh := (Json.digitChar_of_lt (n := c.toNat / 16) (by omega)).1
            have hlast := (Json.digitChar_of_lt (n := c.toNat % 16) (by omega)).1
            simp only [List.mem_cons, List.not_mem_nil, or_false] at hown
            rintro rfl
            rcases hown with h | h | h | h | h | h
            · cases h
            · cases h
            · cases h
            · cases h
            · rw [← h] at hhigh
              exact absurd hhigh (by decide)
            · rw [← h] at hlast
              exact absurd hlast (by decide)
        | plain hquote hescape hcontrol =>
            unfold Unfenced at hrest ⊢
            rw [List.singleton_append] at hescaped ⊢
            rw [splitFence_cons, hescaped, hrest]
            rfl

theorem Unfenced.quoted {text : List Char} (h : Unfenced text) (behind : List Char)
    (hbehind : Unfenced behind) : Unfenced ('"' :: text ++ '"' :: behind) := by
  have hquote : ∀ c ∈ ['"'], c ≠ '`' := by simp
  have htail : Unfenced ('"' :: behind) := .append_plain hquote hbehind
  rw [List.cons_append, ← List.singleton_append]
  apply Unfenced.append_plain hquote
  exact h.append htail (by simp)

theorem unfenced_commas {parts : List (List Char)} (h : ∀ part ∈ parts, Unfenced part) :
    Unfenced (Json.commas parts) := by
  induction parts with
  | nil => rfl
  | cons part rest ih =>
      have hpart := h part List.mem_cons_self
      have hrest := ih fun own hown => h own (List.mem_cons_of_mem part hown)
      cases rest with
      | nil => exact hpart
      | cons next others =>
          have hcomma : ∀ c ∈ [',', ' '], c ≠ '`' := by simp
          have htail : Unfenced (',' :: ' ' :: Json.commas (next :: others)) :=
            .append_plain hcomma hrest
          exact hpart.append htail (by simp)

theorem unfenced_group {opener closer : Char} (hbrackets : Json.Brackets opener closer)
    {inner : List Char} (h : Unfenced inner) : Unfenced (opener :: inner ++ [closer]) := by
  have hopener : ∀ c ∈ [opener], c ≠ '`' := by cases hbrackets <;> simp
  have hcloser : Unfenced [closer] := by cases hbrackets <;> rfl
  rw [List.cons_append, ← List.singleton_append]
  apply Unfenced.append_plain hopener
  exact h.append hcloser (by cases hbrackets <;> decide)

theorem unfenced_arr {items : List Json} (h : ∀ item ∈ items, Unfenced item.write) :
    Unfenced (Json.arr items).write := by
  rw [Json.write, Json.writeItems_eq_map]
  apply unfenced_group .square
  apply unfenced_commas
  intro part hpart
  obtain ⟨item, hitem, rfl⟩ := List.mem_map.mp hpart
  exact h item hitem

theorem unfenced_obj {members : List (List Char × Json)}
    (h : ∀ own ∈ members, Unfenced own.1 ∧ Unfenced own.2.write) :
    Unfenced (Json.obj members).write := by
  rw [Json.write, Json.writeMembers_eq_map]
  apply unfenced_group .curly
  apply unfenced_commas
  intro part hpart
  obtain ⟨own, hown, rfl⟩ := List.mem_map.mp hpart
  obtain ⟨hkey, hitem⟩ := h own hown
  have hcolon : ∀ c ∈ [':', ' '], c ≠ '`' := by simp
  exact hkey.quoted _ (.append_plain hcolon hitem)

/-! ## Extraction -/

theorem exists_group_write {item : Json} (hgroup : item.isGroup = true) :
    ∃ opener inner closer, Json.Brackets opener closer ∧
      item.write = opener :: inner ++ [closer] := by
  cases item with
  | atom text => cases hgroup
  | str text => cases hgroup
  | arr items => exact ⟨'[', Json.commas (Json.writeItems items), ']', .square, rfl⟩
  | obj members => exact ⟨'{', Json.commas (Json.writeMembers members), '}', .curly, rfl⟩

/-- A group without a fence is extracted as it is written. -/
theorem extractJsonText_write {decoder : JsonDecoder} {item : Json} (h : item.Readable)
    (hreads : decoder.Reads item) (hgroup : item.isGroup = true) (hfree : Unfenced item.write) :
    extractJsonText decoder (String.ofList item.write) = .ok (String.ofList item.write) := by
  have hchars : (String.ofList item.write).toList = item.write := String.toList_ofList
  have hloads := hreads.loads ((congrArg Json.loads hchars).trans (Json.loads_write h))
  obtain ⟨opener, inner, closer, hbrackets, hwrite⟩ := exists_group_write hgroup
  have hspace : isSpace opener = false ∧ isSpace closer = false := by
    cases hbrackets <;> decide
  have hstrip : stripChars item.write = item.write := by
    rw [stripChars, hwrite, List.cons_append, List.dropWhile_cons_of_neg (by simp [hspace.1]),
      ← List.cons_append, List.reverse_append, List.reverse_singleton, List.singleton_append,
      List.dropWhile_cons_of_neg (by simp [hspace.2]), List.reverse_cons, List.reverse_reverse]
  have hnone : fencedBlock item.write = none := by
    rw [fencedBlock_eq_none_iff, fencePair_iff]
    rintro ⟨before, behind, hsplit, -⟩
    cases hfree.symm.trans hsplit
  have hfence : fence.isPrefixOf item.write = false := by
    rw [hwrite]
    cases hbrackets <;> rfl
  have houter : outermost item.write = item.write := by
    rw [hwrite]
    apply outermost_first hbrackets
  have hne : item.write ≠ [] := by
    rw [hwrite]
    exact List.cons_ne_nil _ _
  rw [extractJsonText_eq_ok_iff, hchars, candidate]
  dsimp only
  rw [hstrip, hnone, Option.getD_none, hfence, if_neg Bool.false_ne_true, houter, if_neg hne]
  exact ⟨rfl, item, hloads⟩

end JsonText

namespace Value

variable {host : TextHost}

mutual

theorem readable_tree (hhost : host.ShowsNumbers) : (value : Value) → (value.tree host).Readable
  | .null => readable_null host
  | .bool value => readable_bool host value
  | .int value => readable_integer host value
  | .float value => hhost value
  | .str value => readable_text host value
  | .list items => by
      rw [tree, Json.Readable]
      exact readable_treeList hhost items
  | .dict items => by
      rw [tree, Json.Readable]
      exact readable_treeItems hhost items

theorem readable_treeList (hhost : host.ShowsNumbers) :
    (items : List Value) → Json.ReadableItems (treeList host items)
  | [] => trivial
  | item :: rest => ⟨readable_tree hhost item, readable_treeList hhost rest⟩

theorem readable_treeItems (hhost : host.ShowsNumbers) :
    (items : List (Key × Value)) → Json.ReadableMembers (treeItems host items)
  | [] => trivial
  | (key, item) :: rest => ⟨Json.isQuotable_escape key.toStr.toList, readable_tree hhost item,
      readable_treeItems hhost rest⟩

end

/-- What is written for the value is extracted and read as it is. -/
structure Quiet (host : TextHost) (value : Value) : Prop where
  readable : (value.tree host).Readable
  unfenced : JsonText.Unfenced (value.tree host).write

theorem quiet_text {text : String} (h : JsonText.Unfenced text.toList) : Quiet host (str text) := by
  refine ⟨readable_text host text, ?_⟩
  rw [tree, Json.write]
  exact h.escape.quoted [] rfl

theorem quiet_atom {value : Value} {text : List Char} (htree : value.tree host = .atom text)
    (h : (value.tree host).Readable) : Quiet host value := by
  refine ⟨h, ?_⟩
  rw [htree, Json.Readable] at h
  rw [htree, Json.write]
  apply JsonText.unfenced_of_plain
  rintro c hc rfl
  exact absurd (h.2 _ hc) (by decide)

theorem quiet_null : Quiet host null := quiet_atom (by rw [tree]) (readable_null host)

theorem quiet_bool (value : Bool) : Quiet host (bool value) :=
  quiet_atom (by rw [tree]) (readable_bool host value)

theorem quiet_float (hhost : host.ShowsNumbers) (value : Rat) : Quiet host (float value) :=
  quiet_atom (by rw [tree]) (hhost value)

theorem quiet_ofText {text : Option String}
    (h : ∀ own, text = some own → JsonText.Unfenced own.toList) :
    Quiet host (ofText text) := by
  cases text with
  | none => exact quiet_null
  | some own => exact quiet_text (h own rfl)

theorem quiet_integer (value : Int) : Quiet host (int value) :=
  quiet_atom (by rw [tree]) (readable_integer host value)

theorem quiet_list {items : List Value} (h : ∀ item ∈ items, Quiet host item) :
    Quiet host (list items) := by
  refine ⟨readable_list host fun item hitem => (h item hitem).readable, ?_⟩
  rw [tree_list]
  apply JsonText.unfenced_arr
  intro item hitem
  obtain ⟨own, hown, rfl⟩ := List.mem_map.mp hitem
  exact (h own hown).unfenced

theorem quiet_ofEntries {entries : List (String × Value)}
    (h : ∀ entry ∈ entries, JsonText.Unfenced entry.1.toList ∧ Quiet host entry.2) :
    Quiet host (ofEntries entries) := by
  refine ⟨readable_ofEntries host fun entry hentry => (h entry hentry).2.readable, ?_⟩
  rw [tree_ofEntries]
  apply JsonText.unfenced_obj
  intro member hmember
  obtain ⟨entry, hentry, rfl⟩ := List.mem_map.mp hmember
  obtain ⟨hkey, hitem⟩ := h entry hentry
  exact ⟨hkey.escape, hitem.unfenced⟩

/-- A dictionary that is dumped is extracted and read again. -/
theorem Quiet.reads {decoder : JsonDecoder} {entries : List (String × Value)}
    (h : Quiet host (ofEntries entries)) (hreads : decoder.Reads ((ofEntries entries).tree host)) :
    JsonText.extractJsonText decoder ((ofEntries entries).dumps host) =
        .ok ((ofEntries entries).dumps host) ∧
      decoder.loads ((ofEntries entries).dumps host) = .ok ((ofEntries entries).tree host) := by
  have hgroup : ((ofEntries entries).tree host).isGroup = true := by
    rw [tree_ofEntries]
    rfl
  refine ⟨JsonText.extractJsonText_write h.readable hreads hgroup h.unfenced, hreads.loads ?_⟩
  rw [dumps, String.toList_ofList]
  exact Json.loads_write h.readable

end Value

end TripGraph
