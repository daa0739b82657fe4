import Mathlib.Algebra.Order.Ring.Rat
import TripGraph.Plan.Executor
import TripGraph.Plan.Repair

/-! # The tool routing policy engine

`ToolPolicyEngine.decide` selects the builtin or the MCP tool of a family according to a
strategy, and names the tools to fall back to. The latency it measures is left out of its
decisions.
-/

namespace TripGraph

open Interaction

/-! ## Families -/

inductive ToolPolicyStrategy
  | plannerHintFirst
  | builtinFirst
  | mcpFirst
  | deterministic
  | costAware
  | reliabilityAware
deriving DecidableEq

def ToolPolicyStrategy.text : ToolPolicyStrategy → String
  | .plannerHintFirst => "planner_hint_first"
  | .builtinFirst => "builtin_first"
  | .mcpFirst => "mcp_first"
  | .deterministic => "deterministic"
  | .costAware => "cost_aware"
  | .reliabilityAware => "reliability_aware"

/-- `FAMILY_BY_TOOL`. -/
def familyByTool : List (String × ToolFamily) :=
  [("weather", .weather), ("map", .map), ("budget", .budget), ("echo", .echo),
    ("mcp_weather", .weather), ("mcp_map", .map), ("mcp_budget", .budget)]

def toolFamily (toolName : Option String) : ToolFamily :=
  match toolName with
  | none => .unknown
  | some text => if text = "" then .unknown else (familyByTool.lookup text.toLower).getD .unknown

def builtinToolForFamily : ToolFamily → Option String
  | .weather => some "weather"
  | .map => some "map"
  | .budget => some "budget"
  | .echo => some "echo"
  | .unknown => none

/-- The configured prefix is passed and not used. -/
def mcpToolForFamily (family : ToolFamily) (_mcpPrefix : String) : Option String :=
  match family with
  | .weather => some "mcp_weather"
  | .map => some "mcp_map"
  | .budget => some "mcp_budget"
  | .echo | .unknown => none

/-! ## Reliability -/

/-- A float of the host language. A finite one stands for the number its text shows. -/
inductive HostFloat
  | finite (value : Rat)
  | negativeZero
  | infinite (negative : Bool)
  | nan
deriving DecidableEq

namespace HostFloat

/-- Where a float stands: its side for the infinities, then its value. -/
def place : HostFloat → Option (Int × Rat)
  | .finite value => some (0, value)
  | .negativeZero => some (0, 0)
  | .infinite negative => some (if negative then -1 else 1, 0)
  | .nan => none

/-- `left < right`; nothing compares with NaN. -/
def lt (left right : HostFloat) : Bool :=
  match left.place, right.place with
  | some (leftSide, leftValue), some (rightSide, rightValue) =>
      decide (leftSide < rightSide ∨ leftSide = rightSide ∧ leftValue < rightValue)
  | _, _ => false

/-- `max(left, right)`: the second only if it is greater. -/
def larger (left right : HostFloat) : HostFloat := if left.lt right then right else left

/-- `min(left, right)`: the second only if it is smaller. -/
def smaller (left right : HostFloat) : HostFloat := if right.lt left then right else left

/-- The value of a float between 0 and 1. -/
def unit? : HostFloat → Option Rat
  | .finite value => if 0 ≤ value ∧ value ≤ 1 then some value else none
  | .negativeZero => some 0
  | .infinite _ | .nan => none

end HostFloat

/-- The float arithmetic of the host language, which rounds. -/
structure FloatArithmetic where
  add : HostFloat → HostFloat → HostFloat
  sub : HostFloat → HostFloat → HostFloat
  mul : HostFloat → HostFloat → HostFloat
  div : HostFloat → HostFloat → HostFloat
  /-- `round(value, digits)`. -/
  round : Nat → HostFloat → HostFloat
  /-- A float with this many digits behind the point. -/
  showFixed : Nat → HostFloat → String

/-- The nearest integer; halves go to the even one. -/
def roundHalfEven (value : Rat) : Int :=
  let below := value.floor
  let rest := value - below
  if rest < 1 / 2 then below
  else if 1 / 2 < rest then below + 1
  else if below % 2 = 0 then below else below + 1

/-- `round(value, digits)`. -/
def roundTo (digits : Nat) (value : Rat) : Rat :=
  (roundHalfEven (value * 10 ^ digits) : Rat) / 10 ^ digits

/-- A number with this many digits behind the point. -/
def showFixed (digits : Nat) (value : Rat) : String :=
  let scaled := roundHalfEven (value * 10 ^ digits)
  let sign := if value < 0 then "-" else ""
  let fraction := toString (scaled.natAbs % 10 ^ digits)
  let zeros := String.ofList (List.replicate (digits - fraction.length) '0')
  s!"{sign}{scaled.natAbs / 10 ^ digits}.{zeros}{fraction}"

/-- Exact arithmetic on finite floats. -/
def FloatArithmetic.exact : FloatArithmetic :=
  let lift (own : Rat → Rat → Rat) (left right : HostFloat) : HostFloat :=
    match left.place, right.place with
    | some (0, leftValue), some (0, rightValue) => .finite (own leftValue rightValue)
    | _, _ => .nan
  { add := lift (· + ·)
    sub := lift (· - ·)
    mul := lift (· * ·)
    div := lift (· / ·)
    round := fun digits value => match value with
      | .finite own => .finite (roundTo digits own)
      | own => own
    showFixed := fun digits value => match value with
      | .finite own => TripGraph.showFixed digits own
      | _ => "nan" }

structure ToolProviderReliability where
  successRate : HostFloat := .finite 0
  avgLatencyMs : HostFloat := .finite 0
  fallbackRate : HostFloat := .finite 0
deriving DecidableEq

/-- Reliability statistics for each family and provider. -/
structure ToolReliabilityStats where
  families : Dict String (Dict String ToolProviderReliability) := .empty

namespace ToolReliabilityStats

def getProvider (stats : ToolReliabilityStats) (family provider : String) :
    Option ToolProviderReliability :=
  ((stats.families.get? family).getD .empty).get? provider

def hasFamily (stats : ToolReliabilityStats) (family : String) : Bool :=
  match stats.families.get? family with
  | none => false
  | some providers => decide (providers.entries ≠ [])

end ToolReliabilityStats

structure ReliabilityScore where
  provider : String
  toolName : Option String
  score : HostFloat
  successRate : HostFloat
  normalizedLatency : HostFloat
  fallbackRate : HostFloat
deriving DecidableEq

/-- The weights of the score. -/
structure ReliabilityWeights where
  success : HostFloat := .finite (7 / 10)
  latency : HostFloat := .finite (2 / 10)
  fallback : HostFloat := .finite (1 / 10)

section Scores

variable (floats : FloatArithmetic)

def normalizeLatency (avgLatencyMs : HostFloat) : HostFloat :=
  ((floats.div avgLatencyMs (.finite 1000)).larger (.finite 0)).smaller (.finite 1)

def scoreToolProvider (family provider : String) (stats : ToolReliabilityStats)
    (weights : ReliabilityWeights) : Option ReliabilityScore :=
  (stats.getProvider family provider).map fun entry =>
    let normLatency := normalizeLatency floats entry.avgLatencyMs
    let score := floats.sub
      (floats.sub (floats.mul entry.successRate weights.success)
        (floats.mul normLatency weights.latency))
      (floats.mul entry.fallbackRate weights.fallback)
    { provider := provider
      toolName := none
      score := floats.round 4 score
      successRate := entry.successRate
      normalizedLatency := floats.round 4 normLatency
      fallbackRate := entry.fallbackRate }

def compareProvidersForFamily (family : String) (stats : ToolReliabilityStats)
    (builtinTool mcpTool : Option String) (weights : ReliabilityWeights) :
    Option ReliabilityScore × Option ReliabilityScore :=
  let named (tool : Option String) (own : ReliabilityScore) : ReliabilityScore :=
    if truthy tool then { own with toolName := tool } else own
  ((scoreToolProvider floats family "builtin" stats weights).map (named builtinTool),
    (scoreToolProvider floats family "mcp" stats weights).map (named mcpTool))

def formatReliabilityReason (family : String) (chosen : ReliabilityScore)
    (other : Option ReliabilityScore) : String :=
  let parts :=
    [s!"reliability_aware family={family}",
      s!"chosen={chosen.provider}(score={floats.showFixed 3 chosen.score}," ++
        s!" success={floats.showFixed 2 chosen.successRate}," ++
        s!" latency_norm={floats.showFixed 2 chosen.normalizedLatency}," ++
        s!" fallback={floats.showFixed 2 chosen.fallbackRate})"]
  let alternative := other.toList.map fun own =>
    s!"alt={own.provider}(score={floats.showFixed 3 own.score})"
  "; ".intercalate (parts ++ alternative)

end Scores

/-- A decision is only built with a confidence between 0 and 1. -/
def ToolPolicyDecision.validated (decision : ToolPolicyDecision) (confidence : HostFloat) :
    Except RaisedError ToolPolicyDecision :=
  match confidence.unit? with
  | some value => .ok { decision with confidence := value }
  | none => .error (.external "ValidationError" "confidence")

/-- The decision without the time it took, which a clock measures. -/
def ToolPolicyDecision.untimed (decision : ToolPolicyDecision) : ToolPolicyDecision :=
  { decision with latencyMs := none }

/-! ## The engine -/

/-- Selects builtin or MCP tools. The prefix is the configured one, or that of the settings
when it is empty; float arithmetic and which characters belong to a word are up to the host
language. -/
structure ToolPolicyEngine where
  registry : List String
  strategy : ToolPolicyStrategy := .plannerHintFirst
  mcpEnabled : Bool := false
  mcpPrefix : String := "mcp_"
  stats : ToolReliabilityStats := {}
  weights : ReliabilityWeights := {}
  floats : FloatArithmetic
  wordChar : Char → Bool := fun c => c.isAlphanum || c = '_'

/-- The tools a strategy considers, and why. -/
structure Preference where
  preferred : Option String
  fallbacks : List String
  reason : String
  confidence : HostFloat
deriving DecidableEq

/-- `[name for name in (tool,) if name]`. -/
def offered (tool : Option String) : List String := tool.toList.filter fun name =>
    decide (name ≠ "")

/-- The word stands somewhere in the text with no character of a word next to it. -/
def mentionsWord (wordChar : Char → Bool) (word : String) (text : String) : Bool :=
  let folded := text.toList.map Repair.foldChar
  let own := word.toList.map Repair.foldChar
  (List.range (folded.length + 1)).any fun position =>
    own.isPrefixOf (folded.drop position) &&
      !(folded.take position).getLast?.any wordChar &&
      !(folded.drop (position + own.length)).head?.any wordChar

namespace ToolPolicyEngine

variable (engine : ToolPolicyEngine)

def has (name : String) : Bool := decide (name ∈ engine.registry)

/-- `name.startswith(self._mcp_prefix)`. -/
def isMcp (name : String) : Bool := engine.mcpPrefix.toList.isPrefixOf name.toList

def inferFamilyFromText (task query : String) : ToolFamily :=
  let text := s!"{task} {query}".toLower.toList
  let holds (words : List String) : Bool :=
    words.any fun word => text.tails.any fun tail => word.toList.isPrefixOf tail
  if holds ["天气", "weather", "气温"] then .weather
  else if holds ["路线", "地图", "map", "导航", "景点"] then .map
  else if holds ["预算", "budget", "费用", "花费"] then .budget
  else if holds ["echo"] then .echo
  else .unknown

/-- An override is taken as it is; two configured strategies stand for `builtin_first`. -/
def resolveStrategy (policyOverride : Option ToolPolicyStrategy) : ToolPolicyStrategy :=
  match policyOverride with
  | some strategy => strategy
  | none =>
      match engine.strategy with
      | .costAware | .deterministic => .builtinFirst
      | strategy => strategy

def plannerHintFirst (toolHint : Option String) (family : ToolFamily) (builtin mcp : Option String)
    (task query : String) : Preference :=
  if truthy toolHint && engine.has (orText toolHint "") then
    let alt := if toolProvider toolHint = .builtin then mcp else builtin
    { preferred := toolHint
      fallbacks := offered alt
      reason := s!"planner_hint_first respects hint={showText toolHint}"
      confidence := .finite (9 / 10) }
  else
    let text := if query = "" then task else query
    if mentionsWord engine.wordChar "mcp" text then
      { preferred := mcp
        fallbacks := offered builtin
        reason := "query/task mentions MCP; prefer MCP family tool"
        confidence := .finite (75 / 100) }
    else if Repair.mentions ["本地", "builtin", "内置"] text then
      { preferred := builtin
        fallbacks := offered mcp
        reason := "query/task mentions local/builtin; prefer builtin"
        confidence := .finite (75 / 100) }
    else if family ≠ .unknown then
      { preferred := builtin
        fallbacks := offered mcp
        reason := s!"no hint; family={family.text} rule-based builtin default"
        confidence := .finite (6 / 10) }
    else
      { preferred := toolHint
        fallbacks := []
        reason := "no hint and unknown family"
        confidence := .finite (3 / 10) }

def providerFirst (preferred fallback : Option String) (reason : String) : Preference :=
  if truthy preferred && engine.isMcp (orText preferred "") && !engine.mcpEnabled then
    if truthy fallback then
      { preferred := fallback
        fallbacks := []
        reason := s!"{reason}; MCP disabled → fallback to {showText fallback}"
        confidence := .finite (7 / 10) }
    else
      { preferred := none
        fallbacks := []
        reason := s!"{reason}; MCP disabled and no builtin fallback"
        confidence := .finite 0 }
  else
    { preferred := preferred
      fallbacks := offered fallback
      reason := reason
      confidence := .finite (85 / 100) }

def reliabilityAware (family : ToolFamily) (builtin mcp : Option String) : Preference :=
  if family = .unknown || !engine.stats.hasFamily family.text then
    engine.providerFirst builtin mcp "reliability_aware stats_missing; fallback builtin_first"
  else
    let scores := compareProvidersForFamily engine.floats family.text engine.stats builtin mcp
      engine.weights
    let scored (score : Option ReliabilityScore) (tool : Option String) :
        List (ReliabilityScore × Option String) :=
      if truthy tool then score.toList.map fun own => (own, tool) else []
    let candidates := (scored scores.1 builtin ++ scored scores.2 mcp).insertionSort
      fun a b => !a.1.score.lt b.1.score
    match candidates with
    | [] => engine.providerFirst builtin mcp
        "reliability_aware no scored providers; fallback builtin_first"
    | chosen :: rest =>
        { preferred := chosen.2
          fallbacks := offered (rest.head?.bind Prod.snd)
          reason := formatReliabilityReason engine.floats family.text chosen.1
            (rest.head?.map Prod.fst)
          confidence := HostFloat.smaller (.finite (95 / 100))
            (engine.floats.add (.finite (6 / 10))
              (engine.floats.mul chosen.1.score (.finite (3 / 10)))) }

def applyStrategy (strategy : ToolPolicyStrategy) (toolHint : Option String) (family : ToolFamily)
    (task query : String) : Preference :=
  let builtin := builtinToolForFamily family
  let mcp := mcpToolForFamily family engine.mcpPrefix
  match strategy with
  | .plannerHintFirst => engine.plannerHintFirst toolHint family builtin mcp task query
  | .builtinFirst => engine.providerFirst builtin mcp "builtin_first prefers builtin"
  | .mcpFirst => engine.providerFirst mcp builtin "mcp_first prefers MCP"
  | .reliabilityAware => engine.reliabilityAware family builtin mcp
  | .deterministic | .costAware => engine.plannerHintFirst toolHint family builtin mcp task query

/-- The tool is registered and not one of a disabled MCP. -/
def available (name : String) : Bool :=
  decide (name ≠ "") && engine.has name && !(engine.isMcp name && !engine.mcpEnabled)

def pickAvailable (preferred : Option String) (fallbacks : List String) : Option String :=
  match preferred.filter engine.available with
  | some name => some name
  | none => fallbacks.find? engine.available

/-- The family the decision is about. -/
def familyFor (toolHint : Option String) (task query : String) : ToolFamily :=
  let family := toolFamily toolHint
  if family = .unknown ∧ task ≠ "" then inferFamilyFromText task query else family

/-- The preference of the strategy that applies. -/
def preference (toolHint : Option String) (task query : String)
    (policyOverride : Option ToolPolicyStrategy) : Preference :=
  engine.applyStrategy (engine.resolveStrategy policyOverride) toolHint
    (familyFor toolHint task query) task query

/-- What is selected, with its reason and confidence. -/
def select (toolHint : Option String) (preference : Preference) :
    Option (String × String × HostFloat) :=
  match engine.pickAvailable preference.preferred preference.fallbacks with
  | some name => some (name, preference.reason, preference.confidence)
  | none =>
      if truthy toolHint && engine.has (orText toolHint "") then
        let hint := orText toolHint ""
        some (hint, s!"{preference.reason}; using original hint {hint} (only available)",
          preference.confidence.larger (.finite (1 / 2)))
      else none

def decide (toolHint : Option String) (task query : String)
    (policyOverride : Option ToolPolicyStrategy) : Except RaisedError ToolPolicyDecision :=
  let strategy := engine.resolveStrategy policyOverride
  let preference := engine.preference toolHint task query policyOverride
  match engine.select toolHint preference with
  | none =>
      { originalToolHint := toolHint
        selectedTool := none
        selectedProvider := .unknown
        toolFamily := familyFor toolHint task query
        policyName := strategy.text
        fallbackCandidates := preference.fallbacks
        reason := if preference.reason = "" then "no tool available" else preference.reason
        : ToolPolicyDecision }.validated (.finite 0)
  | some (selected, reason, confidence) =>
      { originalToolHint := toolHint
        selectedTool := some selected
        selectedProvider := toolProvider (some selected)
        toolFamily := TripGraph.toolFamily (some selected)
        policyName := strategy.text
        fallbackCandidates := preference.fallbacks.filter fun name =>
          Decidable.decide (name ≠ selected) && engine.has name
        reason := reason
        : ToolPolicyDecision }.validated confidence

end ToolPolicyEngine

end TripGraph
