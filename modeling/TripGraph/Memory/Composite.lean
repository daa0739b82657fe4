import TripGraph.Memory.LongTerm

/-! # Memory by scopes

The short-term and the episodic memory are kept in the process, with a bounded number of entries
for each session. The composite memory takes each operation to the store of its scope.
-/

namespace TripGraph

open LongTermMemory (Query Change lastEntries others)

namespace ShortTermMemory

/-- The deque of each session by its id; `none` when there is none. -/
abbrev Store := String → Option (List MemoryEntry)

/-- The store with one of its deques replaced. -/
def write (store : Store) (sessionId : String) (entries : Option (List MemoryEntry)) : Store :=
  fun own => if own = sessionId then entries else store own

def bucket (store : Store) (sessionId : String) : List MemoryEntry := (store sessionId).getD []

/-- A full deque drops its first entry for one that is appended. -/
def save (maxMessages : Nat) (store : Store) (entry : MemoryEntry) : Store :=
  write store entry.sessionId
    (some (lastEntries maxMessages (bucket store entry.sessionId ++ [entry])))

/-- The entries with the key, or all of them when none is asked for. -/
def withKey (key : Option String) (entries : List MemoryEntry) : List MemoryEntry :=
  if truthy key then entries.filter fun entry => decide (some entry.key = key) else entries

def get (store : Store) (query : Query) : List MemoryEntry :=
  lastEntries query.limit (withKey query.key (bucket store query.sessionId))

def delete (store : Store) (sessionId key : String) : Bool × Store :=
  let entries := bucket store sessionId
  if entries = [] then (false, store)
  else
    let filtered := others key entries
    (decide (filtered.length < entries.length), write store sessionId (some filtered))

def clearSession (store : Store) (sessionId : String) : Store := write store sessionId none

def apply (maxMessages : Nat) (store : Store) : Change → Store
  | .save entry => save maxMessages store entry
  | .delete sessionId key => (delete store sessionId key).2
  | .clearSession sessionId => clearSession store sessionId

/-- The store after several changes. -/
def run (maxMessages : Nat) (store : Store) (changes : List Change) : Store :=
  changes.foldl (apply maxMessages) store

/-! ## Memory without a bound -/

/-- What is remembered of a session after a change. -/
def remember (sessionId : String) (log : List MemoryEntry) (change : Change) : List MemoryEntry :=
  if change.sessionId = sessionId then
    match change with
    | .save entry => log ++ [entry]
    | .delete _ key => others key log
    | .clearSession _ => []
  else log

def rememberedFrom (sessionId : String) (log : List MemoryEntry) (changes : List Change) :
    List MemoryEntry := changes.foldl (remember sessionId) log

/-- What is remembered of a session by the end. -/
def remembered (sessionId : String) (changes : List Change) : List MemoryEntry :=
  rememberedFrom sessionId [] changes

variable {maxMessages : Nat} {store : Store} {sessionId : String} {log : List MemoryEntry}

theorem bucket_write (store : Store) (own sessionId : String)
    (entries : Option (List MemoryEntry)) : bucket (write store own entries) sessionId =
      if own = sessionId then entries.getD [] else bucket store sessionId := by
  unfold bucket write
  by_cases h : own = sessionId
  · rw [if_pos h.symm, if_pos h]
  · rw [if_neg (Ne.symm h), if_neg h]

theorem lastEntries_suffix (limit : Nat) (entries : List MemoryEntry) :
    lastEntries limit entries <:+ entries := List.drop_suffix _ entries

theorem length_lastEntries_le (limit : Nat) (entries : List MemoryEntry) :
    (lastEntries limit entries).length ≤ limit := by
  rw [lastEntries, List.length_drop]
  omega

theorem lastEntries_of_length_le {limit : Nat} {entries : List MemoryEntry}
    (h : entries.length ≤ limit) : lastEntries limit entries = entries := by
  rw [lastEntries, Nat.sub_eq_zero_of_le h, List.drop_zero]

theorem suffix_lastEntries {limit : Nat} {kept : List MemoryEntry} (h : kept <:+ log)
    (hlimit : kept.length ≤ limit) : kept <:+ lastEntries limit log := by
  apply List.suffix_of_suffix_length_le h (lastEntries_suffix limit log)
  have hlength := h.length_le
  rw [lastEntries, List.length_drop]
  omega

theorem length_others_le (key : String) (entries : List MemoryEntry) :
    (others key entries).length ≤ entries.length := List.length_filter_le _ entries

/-- The deque keeps the last entries of what is remembered from it. -/
theorem bucket_apply (change : Change) (h : (bucket store sessionId).length ≤ maxMessages) :
    bucket (apply maxMessages store change) sessionId =
      lastEntries maxMessages (remember sessionId (bucket store sessionId) change) := by
  unfold remember
  by_cases hown : change.sessionId = sessionId
  · rw [if_pos hown]
    cases change with
    | save entry =>
        obtain rfl : entry.sessionId = sessionId := hown
        rw [apply, save, bucket_write, if_pos rfl]
        rfl
    | delete own key =>
        obtain rfl : own = sessionId := hown
        dsimp only
        rw [lastEntries_of_length_le ((length_others_le key _).trans h), apply, delete]
        by_cases hempty : bucket store own = []
        · rw [if_pos hempty, hempty]
          rfl
        · rw [if_neg hempty, bucket_write, if_pos rfl]
          rfl
    | clearSession own =>
        obtain rfl : own = sessionId := hown
        rw [apply, clearSession, bucket_write, if_pos rfl]
        exact (lastEntries_of_length_le (Nat.zero_le maxMessages)).symm
  · rw [if_neg hown, lastEntries_of_length_le h]
    cases change with
    | save entry => exact (bucket_write _ _ _ _).trans (if_neg hown)
    | delete own key =>
        rw [apply, delete]
        by_cases hempty : bucket store own = []
        · rw [if_pos hempty]
        · rw [if_neg hempty]
          exact (bucket_write _ _ _ _).trans (if_neg hown)
    | clearSession own => exact (bucket_write _ _ _ _).trans (if_neg hown)

theorem remember_suffix {kept : List MemoryEntry} (h : kept <:+ log) (change : Change) :
    remember sessionId kept change <:+ remember sessionId log change := by
  obtain ⟨lost, rfl⟩ := h
  unfold remember
  by_cases hown : change.sessionId = sessionId
  · rw [if_pos hown, if_pos hown]
    cases change with
    | save entry => exact ⟨lost, (List.append_assoc lost kept [entry]).symm⟩
    | delete own key => exact ⟨others key lost, (List.filter_append lost kept).symm⟩
    | clearSession own => exact List.suffix_rfl
  · rw [if_neg hown, if_neg hown]
    exact List.suffix_append lost kept

/-! ## What is kept -/

/-- What is kept are the last entries of what is remembered, no more than the bound. -/
structure Kept (maxMessages : Nat) (kept log : List MemoryEntry) : Prop where
  last : kept <:+ log
  bounded : kept.length ≤ maxMessages

theorem Kept.apply (h : Kept maxMessages (bucket store sessionId) log) (change : Change) :
    Kept maxMessages (bucket (apply maxMessages store change) sessionId)
      (remember sessionId log change) := by
  rw [bucket_apply change h.bounded]
  exact ⟨(lastEntries_suffix _ _).trans (remember_suffix h.last change),
    length_lastEntries_le _ _⟩

theorem Kept.run (h : Kept maxMessages (bucket store sessionId) log) (changes : List Change) :
    Kept maxMessages (bucket (run maxMessages store changes) sessionId)
      (rememberedFrom sessionId log changes) := by
  induction changes generalizing store log with
  | nil => exact h
  | cons change rest ih => exact ih (h.apply change)

/-- Nothing is lost while no more is remembered than the bound. -/
theorem bucket_run_eq (h : Kept maxMessages (bucket store sessionId) log)
    (hlog : bucket store sessionId = log) {changes : List Change}
    (hfits : ∀ earlier, earlier <+: changes →
      (rememberedFrom sessionId log earlier).length ≤ maxMessages) :
    bucket (run maxMessages store changes) sessionId = rememberedFrom sessionId log changes := by
  induction changes generalizing store log with
  | nil => exact hlog
  | cons change rest ih =>
      have hchange : (remember sessionId log change).length ≤ maxMessages :=
        hfits [change] (List.cons_prefix_cons.mpr ⟨rfl, List.nil_prefix⟩)
      refine ih (h.apply change) ?_ fun earlier hearlier =>
        hfits (change :: earlier) (List.cons_prefix_cons.mpr ⟨rfl, hearlier⟩)
      rw [bucket_apply change h.bounded, hlog, lastEntries_of_length_le hchange]

theorem withKey_suffix {key : Option String} {kept : List MemoryEntry} (h : kept <:+ log) :
    withKey key kept <:+ withKey key log := by
  unfold withKey
  split
  · exact h.filter _
  · exact h

theorem length_withKey_le (key : Option String) (entries : List MemoryEntry) :
    (withKey key entries).length ≤ entries.length := by
  unfold withKey
  split
  · exact List.length_filter_le _ entries
  · exact Nat.le_refl _

/-- What a query may answer after some changes: the last of the remembered entries with its key. -/
structure Recalls (maxMessages : Nat) (changes : List Change) (query : Query)
    (answer : List MemoryEntry) : Prop where
  last : answer <:+ withKey query.key (remembered query.sessionId changes)
  limited : answer.length ≤ query.limit
  bounded : answer.length ≤ maxMessages
  complete : (∀ earlier, earlier <+: changes →
      (remembered query.sessionId earlier).length ≤ maxMessages) →
    answer = lastEntries query.limit (withKey query.key (remembered query.sessionId changes))

/-- The store of a process that has just begun. -/
def empty : Store := fun _ => none

theorem recalls_get (maxMessages : Nat) (changes : List Change) (query : Query) :
    Recalls maxMessages changes query (get (run maxMessages empty changes) query) := by
  have hempty : Kept maxMessages (bucket empty query.sessionId) [] :=
    ⟨List.suffix_rfl, Nat.zero_le _⟩
  have hkept := hempty.run changes
  constructor
  · exact (lastEntries_suffix _ _).trans (withKey_suffix hkept.last)
  · exact length_lastEntries_le _ _
  · exact ((lastEntries_suffix _ _).length_le.trans (length_withKey_le _ _)).trans hkept.bounded
  · intro hfits
    rw [get, bucket_run_eq hempty rfl hfits]
    rfl

end ShortTermMemory

/-! ## The composite memory -/

structure CompositeMemory where
  shortTerm : ShortTermMemory.Store
  longTerm : LongTermMemory.Files
  episodic : ShortTermMemory.Store

namespace CompositeMemory

variable (dump : MemoryEntry → String) (parse : String → Except RaisedError MemoryEntry)
  (maxMessages : Nat)

def save (memory : CompositeMemory) (entry : MemoryEntry) : CompositeMemory :=
  match entry.scope with
  | .shortTerm =>
      { memory with shortTerm := ShortTermMemory.save maxMessages memory.shortTerm entry }
  | .episodic =>
      { memory with episodic := ShortTermMemory.save maxMessages memory.episodic entry }
  | .longTerm => { memory with longTerm := LongTermMemory.save dump memory.longTerm entry }

/-- The scope of the query is an argument of its own. -/
def get (memory : CompositeMemory) (scope : Option MemoryScope) (query : Query) :
    Except RaisedError (List MemoryEntry) :=
  let short := ShortTermMemory.get memory.shortTerm query
  let long := LongTermMemory.get parse memory.longTerm query
  let episodic := ShortTermMemory.get memory.episodic query
  match scope with
  | some .shortTerm => .ok short
  | some .episodic => .ok episodic
  | some .longTerm => long
  | none => long.map fun entries => lastEntries query.limit (short ++ entries ++ episodic)

def delete (memory : CompositeMemory) (sessionId key : String) (scope : MemoryScope) :
    Except RaisedError Bool × CompositeMemory :=
  match scope with
  | .shortTerm =>
      let deleted := ShortTermMemory.delete memory.shortTerm sessionId key
      (.ok deleted.1, { memory with shortTerm := deleted.2 })
  | .episodic =>
      let deleted := ShortTermMemory.delete memory.episodic sessionId key
      (.ok deleted.1, { memory with episodic := deleted.2 })
  | .longTerm =>
      let deleted := LongTermMemory.delete dump parse memory.longTerm sessionId key
      (deleted.1, { memory with longTerm := deleted.2 })

def clearSession (memory : CompositeMemory) (sessionId : String) : CompositeMemory where
  shortTerm := ShortTermMemory.clearSession memory.shortTerm sessionId
  longTerm := LongTermMemory.clearSession memory.longTerm sessionId
  episodic := ShortTermMemory.clearSession memory.episodic sessionId

/-- The operations that change a memory. -/
inductive Request
  | save (entry : MemoryEntry)
  | delete (sessionId key : String) (scope : MemoryScope)
  | clearSession (sessionId : String)

def apply (memory : CompositeMemory) : Request → CompositeMemory
  | .save entry => save dump maxMessages memory entry
  | .delete sessionId key scope => (delete dump parse memory sessionId key scope).2
  | .clearSession sessionId => clearSession memory sessionId

/-- The memory after several operations. -/
def run (memory : CompositeMemory) (requests : List Request) : CompositeMemory :=
  requests.foldl (apply dump parse maxMessages) memory

/-- What the store of a scope is told of an operation. -/
def Request.change? (scope : MemoryScope) : Request → Option Change
  | .save entry => if entry.scope = scope then some (.save entry) else none
  | .delete sessionId key own => if own = scope then some (.delete sessionId key) else none
  | .clearSession sessionId => some (.clearSession sessionId)

def changes (scope : MemoryScope) (requests : List Request) : List Change :=
  requests.filterMap (Request.change? scope)

variable {dump parse maxMessages}

/-- Each store does what it is told of. -/
theorem apply_eq (memory : CompositeMemory) (request : Request) :
    apply dump parse maxMessages memory request =
      { shortTerm := ShortTermMemory.run maxMessages memory.shortTerm
          (request.change? .shortTerm).toList
        longTerm := LongTermMemory.run dump parse memory.longTerm
          (request.change? .longTerm).toList
        episodic := ShortTermMemory.run maxMessages memory.episodic
          (request.change? .episodic).toList } := by
  cases request with
  | save entry =>
      cases hscope : entry.scope <;> simp [apply, save, hscope, Request.change?,
        ShortTermMemory.run, LongTermMemory.run, ShortTermMemory.apply, LongTermMemory.apply]
  | delete sessionId key scope =>
      cases scope <;> simp [apply, delete, Request.change?, ShortTermMemory.run,
        LongTermMemory.run, ShortTermMemory.apply, LongTermMemory.apply]
  | clearSession sessionId => rfl

/-- The stores are independent of each other. -/
theorem run_eq (memory : CompositeMemory) (requests : List Request) :
    run dump parse maxMessages memory requests =
      { shortTerm := ShortTermMemory.run maxMessages memory.shortTerm
          (changes .shortTerm requests)
        longTerm := LongTermMemory.run dump parse memory.longTerm (changes .longTerm requests)
        episodic := ShortTermMemory.run maxMessages memory.episodic
          (changes .episodic requests) } := by
  induction requests generalizing memory with
  | nil => rfl
  | cons request rest ih =>
      have hchanges : ∀ scope, changes scope (request :: rest) =
          (request.change? scope).toList ++ changes scope rest := by
        intro scope
        rw [changes, List.filterMap_cons]
        cases request.change? scope <;> rfl
      have hstep : run dump parse maxMessages memory (request :: rest) =
          run dump parse maxMessages (apply dump parse maxMessages memory request) rest := rfl
      rw [hstep, ih, apply_eq, hchanges, hchanges, hchanges]
      simp only [ShortTermMemory.run, LongTermMemory.run, List.foldl_append]

/-- A query without a scope answers all that the episodic memory answers, and as much of the rest
as there is room for. -/
theorem unscoped_answer {memory : CompositeMemory} {query : Query} {answer : List MemoryEntry}
    (h : get parse memory none query = .ok answer) :
    answer.length ≤ query.limit ∧ ShortTermMemory.get memory.episodic query <:+ answer := by
  unfold get at h
  dsimp only at h
  cases hlong : LongTermMemory.get parse memory.longTerm query with
  | error error =>
      rw [hlong] at h
      cases h
  | ok long =>
      rw [hlong] at h
      obtain rfl := Except.ok.inj h
      exact ⟨ShortTermMemory.length_lastEntries_le _ _, ShortTermMemory.suffix_lastEntries
        (List.suffix_append _ _) (ShortTermMemory.length_lastEntries_le _ _)⟩

/-- The memory of a process that has just begun, over the files there are. -/
def started (files : LongTermMemory.Files) : CompositeMemory :=
  ⟨ShortTermMemory.empty, files, ShortTermMemory.empty⟩

/-- A query in a scope sees what has been done in that scope, and nothing else. A query without a
scope sees all that the episodic memory answers. -/
theorem recalls_run (files : LongTermMemory.Files) (requests : List Request) (query : Query) :
    let memory := run dump parse maxMessages (started files) requests
    (∃ short episodic, get parse memory (some .shortTerm) query = .ok short ∧
      get parse memory (some .episodic) query = .ok episodic ∧
      ShortTermMemory.Recalls maxMessages (changes .shortTerm requests) query short ∧
      ShortTermMemory.Recalls maxMessages (changes .episodic requests) query episodic ∧
      ∀ answer, get parse memory none query = .ok answer →
        answer.length ≤ query.limit ∧ episodic <:+ answer) ∧
    get parse memory (some .longTerm) query = LongTermMemory.get parse
      (LongTermMemory.run dump parse files (changes .longTerm requests)) query := by
  intro memory
  have hmemory : memory = _ := run_eq (started files) requests
  have hshort := ShortTermMemory.recalls_get maxMessages (changes .shortTerm requests) query
  have hepisodic := ShortTermMemory.recalls_get maxMessages (changes .episodic requests) query
  rw [hmemory]
  refine ⟨⟨_, _, rfl, rfl, hshort, hepisodic, fun answer hanswer => ?_⟩, rfl⟩
  exact unscoped_answer hanswer

end CompositeMemory

end TripGraph
