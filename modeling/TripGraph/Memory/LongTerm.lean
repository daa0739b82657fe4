import TripGraph.Runtime.Operation

/-! # The file-backed long-term memory store

Each session has a file of JSON lines. The file name is made of the session id, with the
path separator replaced, so two session ids may share a file. How an entry is written as a
line and read back is left open.
-/

namespace TripGraph

namespace LongTermMemory

/-- The lines of each file by its name; `none` when there is no such file. -/
abbrev Files := String → Option (List String)

/-- What `get` is asked; the limit is between 1 and 500. -/
structure Query where
  sessionId : String
  key : Option String := none
  limit : Nat := 20
  bounded : 1 ≤ limit ∧ limit ≤ 500 := by decide

/-- `session_id.replace("/", "_")`. -/
def safeId (sessionId : String) : String :=
  String.ofList (sessionId.toList.map fun c => if c = '/' then '_' else c)

/-- `_session_file`. -/
def sessionFile (sessionId : String) : String := safeId sessionId ++ ".jsonl"

/-- The files with one of them replaced. -/
def write (files : Files) (name : String) (lines : Option (List String)) : Files :=
  fun own => if own = name then lines else files own

variable (dump : MemoryEntry → String) (parse : String → Except RaisedError MemoryEntry)

/-- Read the lines in order; entries with another key than the wanted one are left out. -/
def readLines (key : Option String) : List String → Except RaisedError (List MemoryEntry)
  | [] => .ok []
  | line :: rest => do
      let entry ← parse (strip line)
      let entries ← readLines key rest
      return if truthy key ∧ some entry.key ≠ key then entries else entry :: entries

/-- The last `limit` entries. -/
def lastEntries (limit : Nat) (entries : List MemoryEntry) : List MemoryEntry :=
  entries.drop (entries.length - limit)

def get (files : Files) (query : Query) : Except RaisedError (List MemoryEntry) :=
  match files (sessionFile query.sessionId) with
  | none => .ok []
  | some lines => (readLines parse query.key lines).map (lastEntries query.limit)

def save (files : Files) (entry : MemoryEntry) : Files :=
  let name := sessionFile entry.sessionId
  write files name (some ((files name).getD [] ++ [dump entry]))

/-- `delete`: the entries `get` returns for the session, less those with this key, are
written back. -/
def delete (files : Files) (sessionId key : String) : Except RaisedError Bool × Files :=
  match get parse files { sessionId := sessionId } with
  | .error error => (.error error, files)
  | .ok entries =>
      let remaining := entries.filter fun entry => decide (entry.key ≠ key)
      if remaining.length = entries.length then (.ok false, files)
      else (.ok true, write files (sessionFile sessionId) (some (remaining.map dump)))

def clearSession (files : Files) (sessionId : String) : Files :=
  write files (sessionFile sessionId) none

/-- The operations that change a session. -/
inductive Change
  | save (entry : MemoryEntry)
  | delete (sessionId key : String)
  | clearSession (sessionId : String)

/-- The session a change is made on. -/
def Change.sessionId : Change → String
  | .save entry => entry.sessionId
  | .delete sessionId _ => sessionId
  | .clearSession sessionId => sessionId

/-- The files after a change; a change that raises leaves them as they were. -/
def apply (files : Files) : Change → Files
  | .save entry => save dump files entry
  | .delete sessionId key => (delete dump parse files sessionId key).2
  | .clearSession sessionId => clearSession files sessionId

/-- The files after several changes. -/
def run (files : Files) (changes : List Change) : Files :=
  changes.foldl (apply dump parse) files

/-- No change to the other session shows in a query on the own one. -/
def Isolated (own other : String) : Prop :=
  ∀ (files : Files) (changes : List Change), (∀ change ∈ changes, change.sessionId = other) →
    ∀ query : Query, query.sessionId = own →
      get parse (run dump parse files changes) query = get parse files query

variable {dump parse}

theorem write_of_ne {files : Files} {name own : String} (lines : Option (List String))
    (h : own ≠ name) : write files name lines own = files own := if_neg h

/-- One change writes no file but that of its session. -/
theorem apply_of_ne {files : Files} {change : Change} {name : String}
    (h : name ≠ sessionFile change.sessionId) :
    apply dump parse files change name = files name := by
  cases change with
  | save entry => exact write_of_ne _ h
  | clearSession sessionId => exact write_of_ne _ h
  | delete sessionId key =>
      change (delete dump parse files sessionId key).2 name = files name
      unfold delete
      split
      next => rfl
      next entries _ =>
        dsimp only
        split
        · rfl
        · exact write_of_ne _ h

/-- Changes to sessions with other files leave the file alone. -/
theorem run_of_ne {files : Files} {changes : List Change} {name : String}
    (h : ∀ change ∈ changes, name ≠ sessionFile change.sessionId) :
    run dump parse files changes name = files name := by
  induction changes generalizing files with
  | nil => rfl
  | cons change rest ih =>
      obtain ⟨hchange, hrest⟩ := List.forall_mem_cons.mp h
      have hrun : run dump parse (apply dump parse files change) rest name =
        apply dump parse files change name := ih hrest
      exact hrun.trans (apply_of_ne hchange)

/-- A query reads no file but that of its session. -/
theorem get_congr {files after : Files} {query : Query}
    (h : after (sessionFile query.sessionId) = files (sessionFile query.sessionId)) :
    get parse after query = get parse files query := by
  unfold get
  rw [h]

/-- A session with a file of one line is not empty: the line is an entry or it is an error. -/
theorem get_singleton_ne (parse : String → Except RaisedError MemoryEntry) {files : Files}
    {sessionId line : String} (h : files (sessionFile sessionId) = some [line]) :
    get parse files { sessionId := sessionId } ≠ .ok [] := by
  simp only [get, h, readLines]
  cases parse (strip line) with
  | error error => exact fun heq => nomatch heq
  | ok entry =>
      intro heq
      have hentries : lastEntries 20 [entry] = [] := Except.ok.inj heq
      simp [lastEntries] at hentries

/-- Two sessions are isolated from each other exactly if their files differ. -/
theorem isolated_iff {own other : String} :
    Isolated dump parse own other ↔ safeId own ≠ safeId other := by
  constructor
  · intro h hsame
    have hfile : sessionFile other = sessionFile own := by rw [sessionFile, sessionFile, hsame]
    let files : Files := write (fun _ => none) (sessionFile own) (some [""])
    have hcleared := h files [.clearSession other] (by simp [Change.sessionId])
      { sessionId := own } rfl
    have hline : files (sessionFile own) = some [""] := if_pos rfl
    apply get_singleton_ne parse hline
    rw [← hcleared]
    simp [run, apply, clearSession, get, write, hfile]
  · intro hsafe files changes hchanges query hquery
    apply get_congr
    apply run_of_ne
    intro change hmem hname
    rw [hquery, hchanges change hmem] at hname
    exact hsafe (String.append_left_inj _ |>.mp hname)

/-- The ids `trip/1` and `trip_1` share a file, whatever is written in it. -/
theorem not_isolated_slash : "trip/1" ≠ "trip_1" ∧ "trip/1" ≠ "" ∧ "trip_1" ≠ "" ∧
    ∀ (dump : MemoryEntry → String) (parse : String → Except RaisedError MemoryEntry),
      ¬Isolated dump parse "trip/1" "trip_1" := by
  refine ⟨by decide, by decide, by decide, ?_⟩
  intro dump parse h
  let files : Files := fun _ => some [""]
  have hcleared := h files [.clearSession "trip_1"] (by simp [Change.sessionId])
    { sessionId := "trip/1" } rfl
  have hline : files (sessionFile "trip/1") = some [""] := rfl
  apply get_singleton_ne parse hline
  rw [← hcleared]
  have hfile : sessionFile "trip/1" = sessionFile "trip_1" := by decide +kernel
  simp [run, apply, clearSession, get, write, hfile]

/-! ## Deleting a key -/

/-- The entries of a session, in the order of its log. -/
def entriesOf (parse : String → Except RaisedError MemoryEntry) (files : Files)
    (sessionId : String) :
    Except RaisedError (List MemoryEntry) :=
  match files (sessionFile sessionId) with
  | none => .ok []
  | some lines => readLines parse none lines

/-- The entries with other keys. -/
def others (key : String) (log : List MemoryEntry) : List MemoryEntry :=
  log.filter fun entry => decide (entry.key ≠ key)

/-- Deleting removes the entries with the key and nothing else, and tells whether there
were any. -/
def DeletesExactly (dump : MemoryEntry → String) (parse : String → Except RaisedError MemoryEntry)
    (files : Files) (sessionId key : String) (log : List MemoryEntry) : Prop :=
  ∃ found, (delete dump parse files sessionId key).1 = .ok found ∧
    (found = true ↔ ∃ entry ∈ log, entry.key = key) ∧
    entriesOf parse (delete dump parse files sessionId key).2 sessionId = .ok (others key log) ∧
    ∀ name, name ≠ sessionFile sessionId →
      (delete dump parse files sessionId key).2 name = files name

variable {files : Files} {sessionId key : String} {log : List MemoryEntry}

theorem others_eq_self_iff : others key log = log ↔ ∀ entry ∈ log, entry.key ≠ key := by
  simp [others, List.filter_eq_self]

theorem others_eq_nil_iff : others key log = [] ↔ ∀ entry ∈ log, entry.key = key := by
  simp [others, List.filter_eq_nil_iff]

/-- The query of `delete` sees the last twenty entries of the log. -/
theorem get_of_entriesOf (hlog : entriesOf parse files sessionId = .ok log) :
    get parse files { sessionId := sessionId } = .ok (lastEntries 20 log) := by
  unfold entriesOf at hlog
  unfold get
  split at hlog
  next hfile =>
    obtain rfl := Except.ok.inj hlog
    rw [hfile]
    rfl
  next lines hfile =>
    rw [hfile]
    dsimp only
    rw [hlog]
    rfl

theorem readLines_map_dump (hround : ∀ entry ∈ log, parse (strip (dump entry)) = .ok entry) :
    readLines parse none (log.map dump) = .ok log := by
  induction log with
  | nil => rfl
  | cons entry rest ih =>
      obtain ⟨hentry, hrest⟩ := List.forall_mem_cons.mp hround
      rw [List.map_cons, readLines, hentry, ih hrest]
      rfl

/-- What is written to the file of a session is read back. -/
theorem entriesOf_write (files : Files) (sessionId : String)
    (hround : ∀ entry ∈ log, parse (strip (dump entry)) = .ok entry) :
    entriesOf parse
      (write files (sessionFile sessionId) (some (log.map dump))) sessionId = .ok log := by
  unfold entriesOf
  rw [write, if_pos rfl]
  exact readLines_map_dump hround

/-- What `delete` does with the last twenty entries. -/
theorem delete_of_entriesOf (hlog : entriesOf parse files sessionId = .ok log) :
    delete dump parse files sessionId key =
      if others key (lastEntries 20 log) = lastEntries 20 log then (.ok false, files)
      else (.ok true, write files (sessionFile sessionId)
        (some ((others key (lastEntries 20 log)).map dump))) := by
  unfold delete
  rw [get_of_entriesOf hlog]
  dsimp only
  have hlength : ((lastEntries 20 log).filter fun entry => decide (entry.key ≠ key)).length =
      (lastEntries 20 log).length ↔ others key (lastEntries 20 log) = lastEntries 20 log :=
    List.length_filter_eq_length_iff.trans List.filter_eq_self.symm
  rw [if_congr hlength rfl rfl]
  rfl

/-- Deleting is exact if and only if no entry has the key, or one of the last twenty has it
and all entries before these have it too. -/
theorem deletesExactly_iff (hlog : entriesOf parse files sessionId = .ok log)
    (hround : ∀ entry ∈ log, parse (strip (dump entry)) = .ok entry) :
    DeletesExactly dump parse files sessionId key log ↔
      (∀ entry ∈ log, entry.key ≠ key) ∨
        (∃ entry ∈ log.drop (log.length - 20), entry.key = key) ∧
          ∀ entry ∈ log.take (log.length - 20), entry.key = key := by
  have hrecent : ∀ entry ∈ lastEntries 20 log, entry ∈ log := fun entry => List.mem_of_mem_drop
  have hsplit : others key log = others key (log.take (log.length - 20)) ++
      others key (lastEntries 20 log) := by
    unfold others lastEntries
    rw [← List.filter_append, List.take_append_drop]
  unfold DeletesExactly
  rw [delete_of_entriesOf hlog]
  split
  next hnone =>
    -- none of the last entries has the key: the log is left as it is
    have hkept := others_eq_self_iff.mp hnone
    have hnot : ¬ ∃ entry ∈ log.drop (log.length - 20), entry.key = key := by
      rintro ⟨entry, hentry, hkey⟩
      exact hkept entry hentry hkey
    constructor
    · rintro ⟨found, hfound, hexists, hentries, -⟩
      refine Or.inl (others_eq_self_iff.mp ?_)
      exact Except.ok.inj (hentries.symm.trans hlog)
    · rintro (hall | ⟨hsome, -⟩)
      · refine ⟨false, rfl, ?_, ?_, fun _ _ => rfl⟩
        · simpa using hall
        · rw [others_eq_self_iff.mpr hall]
          exact hlog
      · exact absurd hsome hnot
  next hsome =>
    -- the others of the last entries become the log
    have hexists : ∃ entry ∈ lastEntries 20 log, entry.key = key := by
      by_contra hnone
      push Not at hnone
      exact hsome (others_eq_self_iff.mpr hnone)
    have hentries : entriesOf parse (write files (sessionFile sessionId)
        (some ((others key (lastEntries 20 log)).map dump))) sessionId =
          .ok (others key (lastEntries 20 log)) := by
      apply entriesOf_write
      intro entry hentry
      exact hround entry (hrecent entry (List.mem_filter.mp hentry).1)
    dsimp only
    rw [hentries]
    constructor
    · rintro ⟨found, -, -, hsame, -⟩
      refine Or.inr ⟨hexists, others_eq_nil_iff.mp ?_⟩
      rw [hsplit] at hsame
      exact List.self_eq_append_left.mp (Except.ok.inj hsame)
    · rintro (hall | ⟨-, hall⟩)
      · obtain ⟨entry, hentry, hkey⟩ := hexists
        exact absurd hkey (hall entry (hrecent entry hentry))
      · refine ⟨true, rfl, ?_, ?_, fun name hname => write_of_ne _ hname⟩
        · obtain ⟨entry, hentry, hkey⟩ := hexists
          exact iff_of_true rfl ⟨entry, hrecent entry hentry, hkey⟩
        · rw [hsplit, others_eq_nil_iff.mpr hall, List.nil_append]

/-! A session with notes and a city. -/

def note : MemoryEntry := ⟨"trip", "note", .str "window seat", .longTerm, []⟩

def city : MemoryEntry := ⟨"trip", "city", .str "Shanghai", .longTerm, []⟩

def noteLine : String :=
  "\x7b\"session_id\":\"trip\",\"key\":\"note\",\"content\":\"window seat\"," ++
    "\"scope\":\"long_term\",\"metadata\":\x7b\x7d\x7d"

def cityLine : String :=
  "\x7b\"session_id\":\"trip\",\"key\":\"city\",\"content\":\"Shanghai\"," ++
    "\"scope\":\"long_term\",\"metadata\":\x7b\x7d\x7d"

/-- The lines of the two entries, less the time of their creation. -/
def tripDump (entry : MemoryEntry) : String := if entry.key = "city" then cityLine else noteLine

def tripParse (line : String) : Except RaisedError MemoryEntry :=
  if line = cityLine then .ok city
  else if line = noteLine then .ok note
  else .error (.external "ValidationError" "Invalid JSON")

/-- The files with this log of the session. -/
def tripFiles (log : List MemoryEntry) : Files :=
  write (fun _ => none) (sessionFile "trip") (some (log.map tripDump))

theorem tripParse_tripDump : tripParse (strip (tripDump note)) = .ok note ∧
    tripParse (strip (tripDump city)) = .ok city := by
  decide +kernel

theorem entriesOf_tripFiles {log : List MemoryEntry}
    (h : ∀ entry ∈ log, entry = note ∨ entry = city) :
    entriesOf tripParse (tripFiles log) "trip" = .ok log := by
  apply entriesOf_write
  intro entry hentry
  rcases h entry hentry with rfl | rfl
  · exact tripParse_tripDump.1
  · exact tripParse_tripDump.2

theorem deletesExactly_iff_trip :
    DeletesExactly tripDump tripParse (tripFiles [city, note]) "trip" "city" [city, note] ↔
      (∀ entry ∈ [city, note], entry.key ≠ "city") ∨
        (∃ entry ∈ [city, note].drop ([city, note].length - 20), entry.key = "city") ∧
          ∀ entry ∈ [city, note].take ([city, note].length - 20), entry.key = "city" := by
  apply deletesExactly_iff
  · exact entriesOf_tripFiles (by simp)
  · simp [tripParse_tripDump]

/-- After twenty notes, deleting the city loses a note; before twenty notes, the city is not
found. -/
theorem not_deletesExactly_trip :
    delete tripDump tripParse (tripFiles (List.replicate 20 note ++ [city])) "trip" "city" =
        (.ok true, write (tripFiles (List.replicate 20 note ++ [city])) (sessionFile "trip")
          (some ((List.replicate 19 note).map tripDump))) ∧
      ¬ DeletesExactly tripDump tripParse
        (tripFiles (List.replicate 20 note ++ [city])) "trip" "city"
        (List.replicate 20 note ++ [city]) ∧
      (delete tripDump tripParse (tripFiles (city :: List.replicate 20 note)) "trip" "city").1 =
        .ok false := by
  have hafter : entriesOf tripParse (tripFiles (List.replicate 20 note ++ [city])) "trip" =
      .ok (List.replicate 20 note ++ [city]) := entriesOf_tripFiles (by decide)
  have hbefore : entriesOf tripParse (tripFiles (city :: List.replicate 20 note)) "trip" =
      .ok (city :: List.replicate 20 note) := entriesOf_tripFiles (by decide)
  have hdelete : delete tripDump tripParse (tripFiles (List.replicate 20 note ++ [city])) "trip"
      "city" = (.ok true, write (tripFiles (List.replicate 20 note ++ [city])) (sessionFile "trip")
        (some ((List.replicate 19 note).map tripDump))) := by
    rw [delete_of_entriesOf hafter, if_neg (by decide)]
    rfl
  refine ⟨hdelete, ?_, ?_⟩
  · rintro ⟨found, -, -, hexact, -⟩
    rw [hdelete, entriesOf_write _ _ fun entry hentry => by
      rw [List.eq_of_mem_replicate hentry]
      exact tripParse_tripDump.1] at hexact
    have hlength := congrArg List.length (Except.ok.inj hexact)
    exact absurd hlength (by decide)
  · rw [delete_of_entriesOf hbefore, if_pos (by decide)]

end LongTermMemory

end TripGraph
