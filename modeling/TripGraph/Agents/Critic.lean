import TripGraph.Agents.Planner
import TripGraph.Runtime.Workflow

/-! # The execution critic

The critic asks a language model what it thinks of an executed plan. After an answer that cannot
be read it asks once more, for JSON only, and in the end it turns to a critic that goes by rules.
This one reads what the user said last, which is by then the request for JSON.
-/

namespace TripGraph

open Interaction

/-- What Python refuses of a value: an attribute it does not have, a test of membership, a loop. -/
inductive Fault
  | attribute (value : Json) (name : String)
  | membership (value : Json)
  | iteration (value : Json)

/-- `isZero` tells whether the text of a number stands for zero, and `faultText` gives the texts of
exceptions. `lower` stands for `str.lower`, `roundScore` for `round(score, 2)`, and `modelValidate`
for `ExecutionCritique.model_validate` on what `json.loads` makes of a syntax tree. -/
structure ExecutionCritic where
  enabled : Bool
  ruleBased : Bool
  decoder : JsonDecoder
  host : TextHost
  isZero : String → Bool
  faultText : Fault → String
  lower : String → String
  roundScore : Rat → Rat
  modelValidate : Json → Except RaisedError ExecutionCritique

namespace ExecutionCritic

open PlannerAgent (judge)
open PlannerPrompt (joinLines asciiLower)

variable (critic : ExecutionCritic)

/-! ## Reading the payload -/

def textOf (raw : List Char) : String := String.ofList (Json.unescape raw)

def text? : Json → Option String
  | .str raw => some (textOf raw)
  | _ => none

/-- `bool(value)` -/
def truthy : Json → Bool
  | .atom text =>
      text == "true".toList || !(text == "false".toList || text == "null".toList ||
        critic.isZero (String.ofList text))
  | .str raw => !raw.isEmpty
  | .arr items => !items.isEmpty
  | .obj members => !members.isEmpty

/-- `value.get(key)`: of a key that is repeated the last one counts. -/
def get? (key : String) : Json → Except Fault (Option Json)
  | .obj members =>
      .ok ((members.reverse.find? fun own => textOf own.1 == key).map Prod.snd)
  | value => .error (.attribute value "get")

/-- `value.get(key) or default` -/
def getOr (key : String) (default value : Json) : Except Fault Json := do
  let own ← get? key value
  pure ((own.filter critic.truthy).getD default)

/-- `name in value` -/
def isMember (name : String) : Json → Except Fault Bool
  | .obj members => .ok (members.any fun own => textOf own.1 == name)
  | .arr items => .ok (items.any fun item => text? item == some name)
  | .str raw => .ok (isIn name (textOf raw))
  | .atom text => .error (.membership (.atom text))

/-- The items of a loop over a value that is not empty. A dictionary yields its keys, a text its
characters; both are texts, of which no status can be read. -/
def itemsOf : Json → Except Fault (List Json)
  | .arr items => .ok items
  | .obj members => .ok (members.map fun own => .str own.1)
  | .str raw => .ok (raw.map fun c => .str [c])
  | .atom text => .error (.iteration (.atom text))

/-- What the rules find in a payload. -/
structure Findings where
  missingTools : List String
  statuses : List (Option String)
  failures : Bool

/-- What the goal asks for and no tool has brought. -/
def missingTools (goal : String) (toolOutputs : Json) : Except Fault (List String) := do
  let lowered := critic.lower goal
  let lacking := fun (asked : Bool) (tool gap : String) =>
    if asked then (isMember tool toolOutputs).map fun found => if found then [] else [gap]
    else .ok []
  let weather ← lacking (isIn "天气" goal || isIn "weather" lowered) "weather" "weather forecast"
  let budget ← lacking (isIn "预算" goal || isIn "budget" lowered) "budget" "trip budget"
  let map ← lacking (isIn "路线" goal || isIn "route" lowered || isIn "map" lowered) "map"
    "route plan"
  pure (weather ++ budget ++ map)

/-- What `_evaluate_payload` reads of a payload, in its order. -/
def readPayload (payload : Json) : Except Fault Findings := do
  let goal ← get? "goal" payload
  let toolOutputs ← critic.getOr "tool_outputs" (.obj []) payload
  let stepSummaries ← critic.getOr "step_summaries" (.arr []) payload
  let failedSteps ← critic.getOr "failed_steps" (.arr []) payload
  let skippedSteps ← critic.getOr "skipped_steps" (.arr []) payload
  let unfinishedSteps ← critic.getOr "unfinished_steps" (.arr []) payload
  let goal ← match goal with
    | none => pure ""
    | some (.str raw) => pure (textOf raw)
    | some value => .error (.attribute value "lower")
  let missing ← critic.missingTools goal toolOutputs
  let steps ← itemsOf stepSummaries
  let statuses ← steps.mapM (get? "status")
  pure
    { missingTools := missing
      statuses := statuses.map fun status => status.bind text?
      failures := [failedSteps, skippedSteps, unfinishedSteps].any critic.truthy }

/-! ## The rules -/

def incompleteSteps (found : Findings) : List (Option String) :=
  found.statuses.filter fun status => decide (status ≠ some "completed" ∧ status ≠ some "skipped")

def missingInfo (found : Findings) : List String :=
  found.missingTools ++
    if incompleteSteps found = [] then []
    else [toString (incompleteSteps found).length ++ " step(s) not completed"]

/-- The critique of what was found. -/
def critiqueOf (found : Findings) : ExecutionCritique :=
  let missing := missingInfo found
  let failures := found.failures
  let goalCompleted := missing.isEmpty && !failures
  let completed := (found.statuses.filter (· == some "completed")).length
  let rounded := critic.roundScore ((completed : Rat) / (max found.statuses.length 1 : Nat))
  let capped := if missing.isEmpty then rounded else min rounded (3 / 5)
  let failed := if failures then min capped (2 / 5) else capped
  let parts :=
    [if goalCompleted then "Execution satisfies the stated goal."
      else "Execution does not fully satisfy the goal."] ++
    (if missing.isEmpty then [] else ["Missing: " ++ ", ".intercalate missing ++ "."]) ++
    if failures then ["Some steps failed, were skipped, or remain unfinished."] else []
  { score := if goalCompleted then max failed (17 / 20) else failed
    critique := " ".intercalate parts
    needReplan := failures || !missing.isEmpty
    goalCompleted := goalCompleted
    missingInfo := missing }

/-- `_evaluate_payload` -/
def evaluatePayload (payload : Json) : Except Fault ExecutionCritique :=
  (critic.readPayload payload).map critic.critiqueOf

/-- By the rules a plan is replanned exactly when something is missing or has failed, and this
shows in the score. -/
theorem verdict_critiqueOf (found : Findings) :
    let critique := critic.critiqueOf found
    (critique.needReplan = true ↔ critique.missingInfo ≠ [] ∨ found.failures = true) ∧
      critique.goalCompleted = !critique.needReplan ∧
      if critique.needReplan then critique.score ≤ 3 / 5 else 17 / 20 ≤ critique.score := by
  unfold critiqueOf
  dsimp only
  cases hmissing : missingInfo found with
  | nil =>
      cases hfailures : found.failures with
      | false => simp
      | true =>
          refine ⟨by simp, by simp, ?_⟩
          exact (min_le_right _ _).trans (by norm_num)
  | cons first rest =>
      cases hfailures : found.failures with
      | false => exact ⟨by simp, by simp, min_le_right _ _⟩
      | true =>
          refine ⟨by simp, by simp, ?_⟩
          exact (min_le_right _ _).trans (by norm_num)

def faultError (fault : Fault) : RaisedError :=
  match fault with
  | .attribute _ _ => .external "AttributeError" (critic.faultText fault)
  | _ => .typeError (critic.faultText fault)

/-- What the rules answer to a payload. -/
def answerTo (payload : Json) : Except RaisedError String :=
  match critic.evaluatePayload payload with
  | .ok critique => .ok ((critiqueValue critique).dumps critic.host)
  | .error fault => .error (critic.faultError fault)

/-- `RuleBasedExecutionCritic.complete`; only a text that is not JSON counts as an empty payload. -/
def completeByRules (messages : List LLMMessage) : Except RaisedError String :=
  let userTexts := (messages.filter fun message => message.role = "user").map LLMMessage.content
  match critic.decoder.loads (userTexts.getLast?.getD "\x7b\x7d") with
  | .ok payload => critic.answerTo payload
  | .error (.decode _) => critic.answerTo (.obj [])
  | .error (.limit kind message) => .error (.external kind message)

/-! ## The conversation -/

/-- `CRITIC_SYSTEM_PROMPT` -/
def criticSystemPrompt : String := joinLines
  ["You are an execution critic for a travel planning agent.",
    "Evaluate whether the plan execution satisfied the user's goal.", "",
    "Return JSON only with this schema:", "\x7b",
    "  \"score\": <float 0.0-1.0>,", "  \"critique\": \"<concise assessment>\",",
    "  \"need_replan\": <true|false>,", "  \"goal_completed\": <true|false>,",
    "  \"missing_info\": [\"<missing item 1>\", ...]", "\x7d", "", "Judgment criteria:",
    "1. goal_completed — Did execution produce enough information to fulfill the stated goal?",
    "2. missing_info — List concrete gaps (e.g. missing budget, weather, route) or [] if none.",
    "3. need_replan — true only when replanning would likely fix gaps; " ++
      "false if results are adequate.",
    "4. score — 1.0 = fully satisfies goal; 0.0 = completely inadequate.", "", "Rules:",
    "- Base judgments on provided step results and tool outputs, not assumptions.",
    "- Output strict JSON only. No markdown fences, no commentary, no explanations.", ""]

def criticMessages (payload : Value) : List LLMMessage :=
  [⟨"system", criticSystemPrompt⟩, ⟨"user", payload.dumps critic.host⟩]

def correction : LLMMessage :=
  ⟨"user", "Return corrected strict JSON only. No markdown or explanation."⟩

def parseCritique (raw : String) : Except RaisedError ExecutionCritique := do
  let text ← JsonText.extractJsonText critic.decoder raw
  match critic.decoder.loads text with
  | .ok tree => critic.modelValidate tree
  | .error failure => .error (JsonText.loadError failure)

/-- `except (json.JSONDecodeError, ValueError, TypeError)` -/
def caught : RaisedError → Bool
  | .typeError _ => true
  | error => error.isValueError

/-- The loop over the attempts. It ends with a critique, or with the last error and the messages
when no attempt is left. -/
def attempt : Nat → Option RaisedError → List LLMMessage →
    Program llmSig RaisedError
      (Except (Option RaisedError × List LLMMessage) ExecutionCritique)
  | 0, lastError, messages => .done (.error (lastError, messages))
  | remaining + 1, _, messages =>
      .ask (.complete messages) fun answer =>
        match judge critic.parseCritique answer with
        | .ok critique => .done (.ok critique)
        | .error error =>
            if caught error then
              attempt remaining (some error)
                (if remaining = 0 then messages else messages ++ [correction])
            else .fail error

/-- `evaluate`, with the payload of `_build_payload`. -/
def evaluate (payload : Value) : Program llmSig RaisedError ExecutionCritique :=
  if critic.enabled then do
    let outcome ← attempt critic 2 none (criticMessages critic payload)
    match outcome with
    | .ok critique => .done critique
    | .error (lastError, messages) =>
        if critic.ruleBased then
          .fail (.valueError ("Failed to parse execution critique: " ++
            showText (lastError.map RaisedError.text)))
        else
          match critic.completeByRules messages >>= critic.parseCritique with
          | .ok critique => .done critique
          | .error error => .fail error
  else .fail (.runtimeError "Execution critic is disabled")

/-! ## What is said without an answer -/

/-- The critique of a plan with which nothing is wrong. -/
def approval : ExecutionCritique :=
  ⟨17 / 20, "Execution satisfies the stated goal.", false, true, []⟩

/-- Numbers are shown as JSON has them, `"".lower()` is empty, and zero is rounded to itself. The
request for JSON and the dictionary of a critique are not beyond a limit, and validation takes the
dictionary as the critique. -/
structure Documented : Prop where
  numbers : critic.host.ShowsNumbers
  lower : critic.lower "" = ""
  rounds : critic.roundScore 0 = 0
  short : critic.decoder.limit correction.content = none
  reads : critic.decoder.Reads ((critiqueValue approval).tree critic.host)
  validates : critic.modelValidate ((critiqueValue approval).tree critic.host) = .ok approval

variable {critic}

/-- The rules have nothing against an empty payload. -/
theorem evaluatePayload_blank (h : critic.Documented) :
    critic.evaluatePayload (.obj []) = .ok approval := by
  have hwords : ∀ words ∈ ["天气", "weather", "预算", "budget", "路线", "route", "map"],
      isIn words "" = false := by decide +kernel
  have hmissing : critic.missingTools "" (.obj []) = .ok [] := by
    simp only [missingTools, h.lower, hwords, List.mem_cons, true_or, or_true, Bool.or_self,
      Bool.false_eq_true, if_false]
    rfl
  have hread : critic.readPayload (.obj []) = .ok ⟨[], [], false⟩ := by
    change (do
      let missing ← critic.missingTools "" (.obj [])
      pure (Findings.mk missing [] false)) = _
    rw [hmissing]
    rfl
  have hrounded : critic.roundScore ((0 : Nat) / (max 0 1 : Nat) : Rat) = 0 := by
    rw [Nat.cast_zero, zero_div, h.rounds]
  rw [evaluatePayload, hread]
  change Except.ok (critic.critiqueOf ⟨[], [], false⟩) = _
  congr 1
  unfold critiqueOf
  dsimp only
  simp only [List.filter_nil, List.length_nil]
  rw [hrounded]
  decide +kernel

theorem completeByRules_correction (h : critic.Documented) (messages : List LLMMessage) :
    critic.completeByRules (messages ++ [correction]) =
      .ok ((critiqueValue approval).dumps critic.host) := by
  have hlast : (((messages ++ [correction]).filter fun message => message.role = "user").map
      LLMMessage.content).getLast? = some correction.content := by
    rw [List.filter_append, List.map_append]
    exact List.getLast?_concat
  have hprose : Json.loads correction.content.toList = none := by decide +kernel
  have hloads : critic.decoder.loads correction.content =
      .error (.decode (critic.decoder.decodeError correction.content)) := by
    rw [JsonDecoder.loads, h.short, hprose]
  unfold completeByRules
  dsimp only
  rw [hlast, Option.getD_some, hloads]
  dsimp only
  rw [answerTo, evaluatePayload_blank h]

theorem quiet_approval (h : critic.Documented) :
    (critiqueValue approval).Quiet critic.host := by
  have hkey : ∀ key ∈ ["score", "critique", "need_replan", "goal_completed", "missing_info"],
      Unticked key := by decide
  apply Value.quiet_ofEntries
  intro entry hentry
  simp only [List.mem_cons, List.not_mem_nil, or_false] at hentry
  rcases hentry with rfl | rfl | rfl | rfl | rfl
  · exact ⟨(hkey "score" (by simp)).unfenced, Value.quiet_float h.numbers _⟩
  · refine ⟨(hkey "critique" (by simp)).unfenced, Value.quiet_text ?_⟩
    exact JsonText.unfenced_of_plain (by simp [approval])
  · exact ⟨(hkey "need_replan" (by simp)).unfenced, Value.quiet_bool _⟩
  · exact ⟨(hkey "goal_completed" (by simp)).unfenced, Value.quiet_bool _⟩
  · exact ⟨(hkey "missing_info" (by simp)).unfenced,
      Value.quiet_list fun item hitem => absurd hitem List.not_mem_nil⟩

theorem parseCritique_of_loads {raw : String} {tree : Json}
    (hextract : JsonText.extractJsonText critic.decoder raw = .ok raw)
    (hloads : critic.decoder.loads raw = .ok tree) :
    critic.parseCritique raw = critic.modelValidate tree := by
  unfold parseCritique
  rw [hextract]
  change (match critic.decoder.loads raw with
    | .ok tree => critic.modelValidate tree
    | .error failure => .error (JsonText.loadError failure)) = _
  rw [hloads]

theorem parseCritique_approval (h : critic.Documented) :
    critic.parseCritique ((critiqueValue approval).dumps critic.host) = .ok approval := by
  obtain ⟨hextract, hloads⟩ := Value.Quiet.reads (quiet_approval h) h.reads
  exact (parseCritique_of_loads hextract hloads).trans h.validates

/-- The rules, asked for JSON, approve. -/
theorem answer_correction (h : critic.Documented) (messages : List LLMMessage) :
    critic.completeByRules (messages ++ [correction]) >>= critic.parseCritique = .ok approval := by
  have hparsed := parseCritique_approval h
  rw [completeByRules_correction h]
  generalize (critiqueValue approval).dumps critic.host = raw at hparsed ⊢
  exact hparsed

/-! ## Runs -/

/-- The answer ends the conversation: with its critique, or with an error that is raised. -/
def Final (critic : ExecutionCritic) (answer : Except RaisedError String)
    (result : Except RaisedError ExecutionCritique) : Prop :=
  judge critic.parseCritique answer = result ∧ ∀ error, result = .error error → caught error = false

/-- The answer cannot be read. -/
def Unread (critic : ExecutionCritic) (answer : Except RaisedError String) : Prop :=
  ∃ error, judge critic.parseCritique answer = .error error ∧ caught error = true

/-- The answer to a question of the loop is final, or it cannot be read and the loop goes on. -/
theorem cases_of_runs_attempt {remaining : Nat} {lastError : Option RaisedError}
    {messages : List LLMMessage} {trace : List (Exchange llmSig)}
    {next : Except (Option RaisedError × List LLMMessage) ExecutionCritique →
      Program llmSig RaisedError ExecutionCritique}
    {result : Except RaisedError ExecutionCritique}
    (hnext : ∀ critique, next (.ok critique) = .done critique)
    (h : Runs (attempt critic (remaining + 1) lastError messages >>= next) trace result) :
    (∃ answer, trace = [⟨.complete messages, answer⟩] ∧ Final critic answer result) ∨
    ∃ answer rest error, trace = ⟨.complete messages, answer⟩ :: rest ∧ Unread critic answer ∧
      Runs (attempt critic remaining (some error)
        (if remaining = 0 then messages else messages ++ [correction]) >>= next) rest result := by
  obtain ⟨answer, rest, rfl, hrest⟩ := runs_ask_iff.mp h
  dsimp only at hrest
  split at hrest
  next critique hcritique =>
    have hdone : Runs (next (.ok critique)) rest result := hrest
    rw [hnext] at hdone
    obtain ⟨rfl, rfl⟩ := runs_done_iff.mp hdone
    exact .inl ⟨answer, rfl, hcritique, fun _ heq => nomatch heq⟩
  next error herror =>
    split at hrest
    next hcaught => exact .inr ⟨answer, rest, error, rfl, ⟨error, herror, hcaught⟩, hrest⟩
    next hraised =>
      obtain ⟨rfl, rfl⟩ := runs_fail_iff.mp hrest
      refine .inl ⟨answer, rfl, herror, ?_⟩
      rintro own ⟨⟩
      exact Bool.eq_false_iff.mpr hraised

theorem runs_attempt_unread {remaining : Nat} {lastError : Option RaisedError}
    {messages : List LLMMessage} {answer : Except RaisedError String} {error : RaisedError}
    {rest : List (Exchange llmSig)}
    {result : Except RaisedError (Except (Option RaisedError × List LLMMessage) ExecutionCritique)}
    (hanswer : judge critic.parseCritique answer = .error error) (herror : caught error = true)
    (h : Runs (attempt critic remaining (some error)
      (if remaining = 0 then messages else messages ++ [correction])) rest result) :
    Runs (attempt critic (remaining + 1) lastError messages) (⟨.complete messages, answer⟩ :: rest)
      result := by
  refine runs_ask_iff.mpr ⟨answer, rest, rfl, ?_⟩
  rw [hanswer]
  dsimp only
  rw [if_pos herror]
  exact h

/-- The first answer decides, or the second one, or neither can be read and the plan is approved
of, whatever the payload. -/
inductive Evaluated (critic : ExecutionCritic) (payload : Value) :
    List (Exchange llmSig) → Except RaisedError ExecutionCritique → Prop
  | first {answer : Except RaisedError String} {result : Except RaisedError ExecutionCritique}
      (hfinal : Final critic answer result) :
      Evaluated critic payload [⟨.complete (critic.criticMessages payload), answer⟩] result
  | second {first answer : Except RaisedError String}
      {result : Except RaisedError ExecutionCritique} (hfirst : Unread critic first)
      (hfinal : Final critic answer result) :
      Evaluated critic payload [⟨.complete (critic.criticMessages payload), first⟩,
        ⟨.complete (critic.criticMessages payload ++ [correction]), answer⟩] result
  | unread {first second : Except RaisedError String} (hfirst : Unread critic first)
      (hsecond : Unread critic second) :
      Evaluated critic payload [⟨.complete (critic.criticMessages payload), first⟩,
        ⟨.complete (critic.criticMessages payload ++ [correction]), second⟩] (.ok approval)

/-- Whatever the payload says of the plan, a critic whose model is not understood twice approves
of it. -/
theorem evaluated_of_runs (hcritic : critic.Documented) (henabled : critic.enabled = true)
    (hclient : critic.ruleBased = false) {payload : Value} {trace : List (Exchange llmSig)}
    {result : Except RaisedError ExecutionCritique}
    (h : Runs (critic.evaluate payload) trace result) : Evaluated critic payload trace result := by
  unfold evaluate at h
  rw [if_pos henabled] at h
  rcases cases_of_runs_attempt (fun _ => rfl) h with ⟨answer, rfl, hfinal⟩ |
    ⟨first, later, error, rfl, hfirst, hlater⟩
  · exact .first hfinal
  rw [if_neg Nat.one_ne_zero] at hlater
  rcases cases_of_runs_attempt (fun _ => rfl) hlater with ⟨answer, rfl, hfinal⟩ |
    ⟨second, last, error, rfl, hsecond, hlast⟩
  · exact .second hfirst hfinal
  -- the last message of the user is the request for JSON
  have hfallback := answer_correction hcritic (critic.criticMessages payload)
  rw [if_pos rfl, attempt, Program.done_bind] at hlast
  dsimp only at hlast
  rw [hclient, if_neg Bool.false_ne_true, hfallback] at hlast
  obtain ⟨rfl, rfl⟩ := runs_done_iff.mp hlast
  exact .unread hfirst hsecond

/-! ## A failed plan -/

/-- A critic whose parameters do what the code does for an empty payload. -/
def silentCritic : ExecutionCritic where
  enabled := true
  ruleBased := false
  decoder := JsonText.unlimitedDecoder
  host := ⟨fun _ => "0.85", fun _ => ""⟩
  isZero := fun text => text == "0"
  faultText := fun _ => ""
  lower := asciiLower
  roundScore := fun score => score
  modelValidate := fun _ => .ok approval

theorem documented_silentCritic : silentCritic.Documented where
  numbers := by
    intro value
    have hshown : Json.isAtom "0.85".toList = true := by decide
    rw [Json.Readable]
    exact ⟨hshown, by simp [silentCritic, Json.isAtomChar]⟩
  lower := by decide +kernel
  rounds := rfl
  short := rfl
  reads := fun _ _ => rfl
  validates := rfl

/-- A plan with a failed step. -/
def failedPayload : Value := .ofEntries [("failed_steps", .list [.int 1])]

/-- A model that has nothing to say approves of a failed plan. -/
theorem evaluated_of_runs_failedPayload : Evaluated silentCritic failedPayload
    [⟨.complete (silentCritic.criticMessages failedPayload), .ok ""⟩,
      ⟨.complete (silentCritic.criticMessages failedPayload ++ [correction]), .ok ""⟩]
    (.ok approval) := by
  have hempty : judge silentCritic.parseCritique (.ok "") =
      .error (.valueError "empty LLM response") := by decide +kernel
  have hruns : Runs (silentCritic.evaluate failedPayload)
      [⟨.complete (silentCritic.criticMessages failedPayload), .ok ""⟩,
        ⟨.complete (silentCritic.criticMessages failedPayload ++ [correction]), .ok ""⟩]
      (.ok approval) := by
    have hnone : ∀ messages, Runs (attempt silentCritic 0
        (some (.valueError "empty LLM response")) messages) [] (.ok (.error (some _, _))) :=
      fun messages => .done _
    unfold evaluate
    rw [if_pos (show silentCritic.enabled = true from rfl)]
    apply Runs.bind (runs_attempt_unread hempty rfl (runs_attempt_unread hempty rfl (hnone _)))
    dsimp only
    rw [if_neg (show ¬ silentCritic.ruleBased = true from Bool.false_ne_true), if_pos rfl,
      if_neg Nat.one_ne_zero, answer_correction documented_silentCritic]
    exact .done _
  exact evaluated_of_runs documented_silentCritic rfl rfl hruns

end ExecutionCritic

end TripGraph
