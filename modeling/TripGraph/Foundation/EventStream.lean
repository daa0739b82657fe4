import TripGraph.Foundation.JsonWriting

/-! # Event streams

The text of an event stream comes in lines. A line is a comment or a field of an event, and an
empty line sends the event whose fields came before it. A text that is cut off sends a first part
of the events.
-/

namespace Interaction

namespace EventStream

/-! ## Reading -/

/-- What a reader is sent. The ids of events and the times to wait are left out. -/
structure Message where
  name : List Char
  data : List Char
deriving DecidableEq

/-- The lines that end in a text, of which the first one has begun with these characters. A
newline behind a carriage return ends no line of its own. -/
def linesFrom (line : List Char) (returned : Bool) : List Char → List (List Char)
  | [] => []
  | c :: rest =>
      if c = '\n' then
        if returned then linesFrom [] false rest else line :: linesFrom [] false rest
      else if c = '\r' then line :: linesFrom [] true rest
      else linesFrom (line ++ [c]) false rest

/-- The event whose fields are being read. -/
structure Buffers where
  name : List Char := []
  data : List Char := []

namespace Buffers

/-- A field that is neither the name nor data is passed by. -/
def field (buffers : Buffers) (name value : List Char) : Buffers :=
  if name = "event".toList then { buffers with name := value }
  else if name = "data".toList then { buffers with data := buffers.data ++ value ++ ['\n'] }
  else buffers

/-- An event without data is not sent, and one without a name is a message. -/
def message? (buffers : Buffers) : Option Message :=
  if buffers.data = [] then none
  else some ⟨if buffers.name = [] then "message".toList else buffers.name, buffers.data.dropLast⟩

end Buffers

/-- The name of a field and its value, less one blank behind the colon. A comment is a field
without a name. -/
def fieldOf (line : List Char) : List Char × List Char :=
  let value := (line.dropWhile (· ≠ ':')).tail
  (line.takeWhile (· ≠ ':'), if value.head? = some ' ' then value.tail else value)

def messagesFrom (buffers : Buffers) : List (List Char) → List Message
  | [] => []
  | line :: rest =>
      if line = [] then buffers.message?.toList ++ messagesFrom {} rest
      else messagesFrom (buffers.field (fieldOf line).1 (fieldOf line).2) rest

/-- The events that a text sends. -/
def messages (text : List Char) : List Message := messagesFrom {} (linesFrom [] false text)

/-! ## Writing -/

def fieldLine (field value : List Char) : List Char := field ++ ':' :: ' ' :: value

def frame (name data : List Char) : List Char :=
  fieldLine "event".toList name ++ '\n' :: (fieldLine "data".toList data ++ ['\n', '\n'])

def comment (text : List Char) : List Char := fieldLine [] text ++ ['\n', '\n']

/-- No line ends in the text. -/
def Unbroken (text : List Char) : Prop := ∀ c ∈ text, c ≠ '\n' ∧ c ≠ '\r'

variable {line text name data : List Char}

theorem Unbroken.append {first second : List Char} (hfirst : Unbroken first)
    (hsecond : Unbroken second) : Unbroken (first ++ second) :=
  List.forall_mem_append.mpr ⟨hfirst, hsecond⟩

theorem Unbroken.cons {c : Char} (hc : c ≠ '\n' ∧ c ≠ '\r') (h : Unbroken text) :
    Unbroken (c :: text) := List.forall_mem_cons.mpr ⟨hc, h⟩

theorem unbroken_nil : Unbroken [] := fun _ hc => absurd hc List.not_mem_nil

theorem Unbroken.fieldLine {field : List Char} (hfield : Unbroken field) (htext : Unbroken text) :
    Unbroken (fieldLine field text) := hfield.append (.cons (by decide) (.cons (by decide) htext))

/-! ## Lines -/

theorem linesFrom_append (h : Unbroken text) (rest : List Char) :
    linesFrom line false (text ++ '\n' :: rest) = (line ++ text) :: linesFrom [] false rest := by
  induction text generalizing line with
  | nil =>
      rw [List.nil_append, linesFrom, if_pos rfl, List.append_nil]
      rfl
  | cons c others ih =>
      obtain ⟨⟨hnewline, hreturn⟩, hothers⟩ := List.forall_mem_cons.mp h
      rw [List.cons_append, linesFrom, if_neg hnewline, if_neg hreturn, ih hothers,
        List.append_assoc]
      rfl

theorem linesFrom_newline (rest : List Char) :
    linesFrom [] false ('\n' :: rest) = [] :: linesFrom [] false rest :=
  linesFrom_append unbroken_nil rest

/-- The lines of a text that is cut off are its first lines. -/
theorem linesFrom_isPrefix (line : List Char) (returned : Bool) (first second : List Char) :
    linesFrom line returned first <+: linesFrom line returned (first ++ second) := by
  induction first generalizing line returned with
  | nil => exact List.nil_prefix
  | cons c rest ih =>
      rw [List.cons_append, linesFrom, linesFrom]
      by_cases hnewline : c = '\n'
      · rw [if_pos hnewline, if_pos hnewline]
        cases returned with
        | true => exact ih [] false
        | false => exact List.cons_prefix_cons.mpr ⟨rfl, ih [] false⟩
      · rw [if_neg hnewline, if_neg hnewline]
        by_cases hreturn : c = '\r'
        · rw [if_pos hreturn, if_pos hreturn]
          exact List.cons_prefix_cons.mpr ⟨rfl, ih [] true⟩
        · rw [if_neg hreturn, if_neg hreturn]
          exact ih (line ++ [c]) false

/-! ## Events -/

theorem messagesFrom_isPrefix (buffers : Buffers) (first second : List (List Char)) :
    messagesFrom buffers first <+: messagesFrom buffers (first ++ second) := by
  induction first generalizing buffers with
  | nil => exact List.nil_prefix
  | cons line rest ih =>
      rw [List.cons_append, messagesFrom, messagesFrom]
      by_cases hempty : line = []
      · rw [if_pos hempty, if_pos hempty]
        exact (List.prefix_append_right_inj _).mpr (ih {})
      · rw [if_neg hempty, if_neg hempty]
        exact ih _

/-- A text that is cut off sends the first events. -/
theorem messages_isPrefix {received : List Char} (h : received <+: text) :
    messages received <+: messages text := by
  obtain ⟨rest, rfl⟩ := h
  obtain ⟨later, hlater⟩ := linesFrom_isPrefix [] false received rest
  rw [messages, messages, ← hlater]
  exact messagesFrom_isPrefix {} _ later

theorem fieldLine_ne_nil (field value : List Char) : fieldLine field value ≠ [] := by
  simp [fieldLine]

theorem fieldOf_fieldLine {field : List Char} (hfield : ∀ c ∈ field, c ≠ ':') (value : List Char) :
    fieldOf (fieldLine field value) = (field, value) := by
  have hnames : ∀ c ∈ field, decide (c ≠ ':') = true := fun c hc => decide_eq_true (hfield c hc)
  rw [fieldOf, fieldLine, List.dropWhile_append_of_pos hnames, List.takeWhile_append_of_pos hnames]
  simp

theorem messagesFrom_fieldLine {field : List Char} (hfield : ∀ c ∈ field, c ≠ ':')
    (buffers : Buffers) (value : List Char) (rest : List (List Char)) :
    messagesFrom buffers (fieldLine field value :: rest) =
      messagesFrom (buffers.field field value) rest := by
  rw [messagesFrom, if_neg (fieldLine_ne_nil field value), fieldOf_fieldLine hfield]

/-- A frame sends its event. -/
theorem messages_frame (hname : Unbroken name) (hne : name ≠ []) (hdata : Unbroken data)
    (rest : List Char) : messages (frame name data ++ rest) = ⟨name, data⟩ :: messages rest := by
  have hevent : Unbroken (fieldLine "event".toList name) := .fieldLine (by simp [Unbroken]) hname
  have hfield : Unbroken (fieldLine "data".toList data) := .fieldLine (by simp [Unbroken]) hdata
  have htext : frame name data ++ rest = fieldLine "event".toList name ++
      '\n' :: (fieldLine "data".toList data ++ '\n' :: '\n' :: rest) := by simp [frame]
  rw [messages, htext, linesFrom_append hevent, linesFrom_append hfield, linesFrom_newline,
    List.nil_append, List.nil_append, messagesFrom_fieldLine (by simp),
    messagesFrom_fieldLine (by simp), messagesFrom, if_pos rfl]
  simp [Buffers.field, Buffers.message?, hne, messages]

/-- A comment sends nothing. -/
theorem messages_comment (htext : Unbroken text) (rest : List Char) :
    messages (comment text ++ rest) = messages rest := by
  have hline : Unbroken (fieldLine [] text) := .fieldLine unbroken_nil htext
  have hcomment : comment text ++ rest = fieldLine [] text ++ '\n' :: '\n' :: rest := by
    simp [comment]
  rw [messages, hcomment, linesFrom_append hline, linesFrom_newline, List.nil_append,
    messagesFrom_fieldLine (by simp), messagesFrom, if_pos rfl]
  simp [Buffers.field, Buffers.message?, messages]

/-! ## JSON data -/

/-- A control character goes on with no string. -/
theorem ne_of_follows {state next : Json.StringState} {c control : Char}
    (h : Json.Follows state c next) (hcontrol : control.toNat < 32)
    (hletter : control ∉ ['"', '\\', '/', 'b', 'f', 'n', 'r', 't'])
    (hdigit : Json.isHexDigit control = false) : c ≠ control := by
  rintro rfl
  cases h with
  | text _ _ hplain => exact hplain hcontrol
  | escape => exact absurd hcontrol (by decide)
  | digits => exact absurd hcontrol (by decide)
  | letter _ hown => exact hletter hown
  | digit _ hown => exact absurd (hown.symm.trans hdigit) Bool.noConfusion

theorem unbroken_of_follows {state next : Json.StringState} {c : Char}
    (h : Json.Follows state c next) : c ≠ '\n' ∧ c ≠ '\r' :=
  ⟨ne_of_follows h (by decide) (by decide) (by decide),
    ne_of_follows h (by decide) (by decide) (by decide)⟩

theorem unbroken_of_stringFrom {state : Json.StringState} {own rest : List Char}
    (h : Json.stringFrom state text = some (own, rest)) : Unbroken own := by
  induction text generalizing state own with
  | nil => cases state <;> cases h
  | cons c text ih =>
      rcases Json.follows_of_stringFrom h with ⟨-, -, rfl, -⟩ | ⟨next, tail, hnext, rfl, htail⟩
      · exact unbroken_nil
      · exact .cons (unbroken_of_follows hnext) (ih htail)

theorem unbroken_quoted (h : Json.IsQuotable text) : Unbroken ('"' :: text ++ ['"']) :=
  .append (.cons (by decide) (unbroken_of_stringFrom (h []))) (.cons (by decide) unbroken_nil)

theorem unbroken_commas {parts : List (List Char)} (h : ∀ part ∈ parts, Unbroken part) :
    Unbroken (Json.commas parts) := by
  induction parts with
  | nil => exact unbroken_nil
  | cons first others ih =>
      obtain ⟨hfirst, hothers⟩ := List.forall_mem_cons.mp h
      cases others with
      | nil => exact hfirst
      | cons next rest =>
          rw [Json.commas]
          exact hfirst.append (.cons (by decide) (.cons (by decide) (ih hothers)))

mutual

/-- A value is written on one line. -/
theorem unbroken_write : (item : Json) → item.Readable → Unbroken item.write
  | .atom text, h => by
      intro c hc
      constructor
      · rintro rfl
        exact absurd (h.2 _ hc) (by decide)
      · rintro rfl
        exact absurd (h.2 _ hc) (by decide)
  | .str text, h => unbroken_quoted h
  | .arr items, h => by
      rw [Json.write]
      exact .append (.cons (by decide) (unbroken_commas (unbroken_writeItems items h)))
        (.cons (by decide) unbroken_nil)
  | .obj members, h => by
      rw [Json.write]
      exact .append (.cons (by decide) (unbroken_commas (unbroken_writeMembers members h)))
        (.cons (by decide) unbroken_nil)

theorem unbroken_writeItems : (items : List Json) → Json.ReadableItems items →
    ∀ part ∈ Json.writeItems items, Unbroken part
  | [], _ => fun _ hpart => absurd hpart List.not_mem_nil
  | item :: rest, h =>
      List.forall_mem_cons.mpr ⟨unbroken_write item h.1, unbroken_writeItems rest h.2⟩

theorem unbroken_writeMembers : (members : List (List Char × Json)) →
    Json.ReadableMembers members → ∀ part ∈ Json.writeMembers members, Unbroken part
  | [], _ => fun _ hpart => absurd hpart List.not_mem_nil
  | (key, item) :: rest, h => by
      refine List.forall_mem_cons.mpr ⟨?_, unbroken_writeMembers rest h.2.2⟩
      have hkey := unbroken_quoted h.1
      have hitem := unbroken_write item h.2.1
      simpa using hkey.append (.cons (by decide) (.cons (by decide) hitem))

end

end EventStream

end Interaction
