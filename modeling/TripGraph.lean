import TripGraph.Foundation.Gather
import TripGraph.Plan.Validator
import TripGraph.Plan.Repair
import TripGraph.Plan.Graph
import TripGraph.Runtime.AgentState
import TripGraph.Runtime.Operation
import TripGraph.Runtime.Shared
import TripGraph.Runtime.Conflicts
import TripGraph.Foundation.Lineage
import TripGraph.Foundation.Credits
import TripGraph.Runtime.Subgraph
import TripGraph.Runtime.Versions
import TripGraph.Plan.Executor
import TripGraph.Plan.Replanning
import TripGraph.Plan.Replacement
import TripGraph.Plan.Replans
import TripGraph.Runtime.Footprint
import TripGraph.Runtime.Rounds
import TripGraph.Compiler.FanIn
import TripGraph.Workflow.Persistence
import TripGraph.Workflow.Budget
import TripGraph.Workflow.Resume
import TripGraph.Workflow.Finishing
import TripGraph.Memory.LongTerm
import TripGraph.Memory.Composite
import TripGraph.Streaming.Heartbeat
import TripGraph.Streaming.Wire
import TripGraph.Persistence.Recorder
import TripGraph.Persistence.Verification
import TripGraph.Compiler.Mirroring
import TripGraph.Compiler.Tracing
import TripGraph.Runtime.Replay
import TripGraph.Plan.Normalization
import TripGraph.Plan.Consistency
import TripGraph.Plan.Exposure
import TripGraph.Tools.Gating
import TripGraph.Tools.Routing
import TripGraph.Foundation.Tries
import TripGraph.Plan.Fallback
import TripGraph.Tools.Selection
import TripGraph.Tools.PolicyTrace
import TripGraph.Tools.Reliability
import TripGraph.Tools.Tracing
import TripGraph.Foundation.Json
import TripGraph.Core.JsonText
import TripGraph.Plan.Summaries
import TripGraph.Runtime.Isolation
import TripGraph.Foundation.Oracle
import TripGraph.Compiler.Chains
import TripGraph.Workflow.Branches
import TripGraph.Runtime.Branching
import TripGraph.Persistence.AsyncWriter
import TripGraph.Compiler.Walk
import TripGraph.Agents.Loop
import TripGraph.Plan.FinalSynthesis
import TripGraph.Compiler.Replans
import TripGraph.Foundation.Unions
import TripGraph.Runtime.Grouping
import TripGraph.Runtime.Deltas
import TripGraph.Workflow.Streaming
import TripGraph.Workflow.Orchestrator
import TripGraph.Agents.Drafting
import TripGraph.Agents.Planner
import TripGraph.Agents.Critic
