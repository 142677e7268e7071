import TicketFlow.Library.Interleaving
import TicketFlow.Library.Table
import TicketFlow.Library.AtMostOnce
import TicketFlow.Models
import TicketFlow.Db
import TicketFlow.Taskqueue
import TicketFlow.Ledger
import TicketFlow.Graph
import TicketFlow.Checkpointer
import TicketFlow.Invocation
import TicketFlow.Runner
import TicketFlow.Worker
import TicketFlow.Api
import TicketFlow.Janitor
import TicketFlow.System
import TicketFlow.Steps
import TicketFlow.QueueLease
import TicketFlow.TaskLifecycle
import TicketFlow.RunTable
import TicketFlow.RunLease
import TicketFlow.Archive
import TicketFlow.Stages
import TicketFlow.Threads
import TicketFlow.Projection
import TicketFlow.Seeding
import TicketFlow.Signals
import TicketFlow.OneApproval
import TicketFlow.TaskTable
import TicketFlow.Deliveries
import TicketFlow.Wakeups
import TicketFlow.Resumption
import TicketFlow.ExactlyOnce
import TicketFlow.Approval
import TicketFlow.Releases
import TicketFlow.Redrive
import TicketFlow.Repair
import TicketFlow.Reconciling
import TicketFlow.Fallback
import TicketFlow.Provenance
import TicketFlow.Overtaking
import TicketFlow.Outbox
import TicketFlow.Escalation
import TicketFlow.Results
import TicketFlow.Retention
import TicketFlow.Awaited
import TicketFlow.Ownership
import TicketFlow.Timers
import TicketFlow.Outcomes
import TicketFlow.Decisions
import TicketFlow.TokenBucket
import TicketFlow.Deployment
import TicketFlow.Attempts
import TicketFlow.ReadPaths
import TicketFlow.Scripts
import TicketFlow.Replay
import TicketFlow.Starvation
import TicketFlow.Lifecycle
import TicketFlow.Exceptions
import TicketFlow.RunnerLoop
import TicketFlow.DrainLoop
import TicketFlow.Fleet
import TicketFlow.Loops
import TicketFlow.OneRunner
import TicketFlow.Leases
import TicketFlow.Library.Json
import TicketFlow.Wire
import TicketFlow.WireGraph
import TicketFlow.WireRunner
import TicketFlow.WireWorker
import TicketFlow.MockAgent
import TicketFlow.Drafts
import TicketFlow.Traces
import TicketFlow.Audit
