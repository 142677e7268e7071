import Mathlib.Algebra.Order.Field.Rat
import Mathlib.Tactic.NormNum

/-! # Data models shared by API, workflow and workers

The pydantic models of `models.py`. What a validator demands is a field or a subtype here, so an
invalid value cannot be built: confidences lie in `[0, 1]`, refund amounts are positive, and a refund
action carries its amount. Floats are rationals and opaque identifiers are natural numbers. -/

namespace TicketFlow
set_option autoImplicit false

/-- `uuid4().hex`, never inspected, only compared. -/
abbrev TicketId := ℕ

/-- The identity of a worker or runner process. -/
abbrev WorkerId := ℕ

/-- `timestamptz`: microseconds on the database's clock. -/
abbrev Time := ℕ

/-- `interval '1 second' * n`. -/
def seconds (n : ℕ) : Time := n * 1000000

inductive TicketCategory | billing | technical | account | general
deriving DecidableEq

inductive ActionType | replyOnly | refund
deriving DecidableEq

inductive TicketStatus
  | received | classifying | drafting | awaitingApproval | resolved | rejected | escalated
deriving DecidableEq

/-- `status IN ('resolved', 'rejected', 'escalated')`. -/
def TicketStatus.terminal : TicketStatus → Bool
  | .resolved | .rejected | .escalated => true
  | _ => false

structure Ticket where
  id : TicketId
  customerEmail : String
  subject : String
  body : String
deriving DecidableEq

/-- `Field(ge=0.0, le=1.0)`. -/
abbrev Confidence := {q : ℚ // 0 ≤ q ∧ q ≤ 1}

/-- `Field(gt=0)`. -/
abbrev Amount := {q : ℚ // 0 < q}

structure Classification where
  category : TicketCategory
  confidence : Confidence
  model : String
deriving DecidableEq

structure ProposedAction where
  type : ActionType
  refundAmount : Option Amount
  requireRefundAmountForRefunds : type = .refund → refundAmount.isSome
deriving DecidableEq

theorem replyOnly_needs_no_amount (h : ActionType.replyOnly = .refund) :
    (none : Option Amount).isSome := by
  cases h

structure DraftReply where
  replyText : String
  action : ProposedAction
  confidence : Confidence
  model : String
deriving DecidableEq

structure ApprovalDecision where
  approved : Bool
  approver : String
  note : Option String
deriving DecidableEq

structure TicketResult where
  ticketId : TicketId
  status : TicketStatus
  replyText : String
  refundExecuted : Bool
  modelPath : String
deriving DecidableEq

/-! ## Workflow constants -/

def confidenceThreshold : ℚ := 3 / 4

def approvalTimeout : Time := seconds (24 * 3600)

def rejectionReply : String :=
  "Thanks for your patience. After review we cannot fulfil this request automatically; " ++
    "a human agent will follow up shortly."

def escalationReply : String :=
  "We need a bit more time with your request and have escalated your ticket to a human agent."

/-- `config.AGENT_SCHEDULE_TO_START_S`, at its default. -/
def agentScheduleToStart : Time := seconds 30

/-! ## What crosses the task queue -/

/-- `config.TASK_QUEUE`, `config.AGENT_TASK_QUEUE` and `config.FALLBACK_TASK_QUEUE`. -/
inductive QueueName | taskQueue | agentTaskQueue | fallbackTaskQueue
deriving DecidableEq

inductive TaskType | classify | draft | finalizeTicket
deriving DecidableEq

/-- `f"{workflow_id}:{task_type}"`, the same with `":fallback"` appended, and
`f"{ticket.id}:finalize"`. A ticket id has no colon, so distinct keys are distinct strings. -/
inductive IdempotencyKey
  | agent (workflowId : TicketId) (taskType : TaskType)
  | fallback (workflowId : TicketId) (taskType : TaskType)
  | finalize (ticketId : TicketId)
deriving DecidableEq

/-- The payload of a task, one constructor for each dict the graph enqueues. -/
inductive TaskPayload
  | classify (ticket : Ticket)
  | draft (ticket : Ticket) (classification : Classification)
  | finalize (ticket : Ticket) (action : ProposedAction) (result : TicketResult)
deriving DecidableEq

/-- The dumped model a worker stores as a task's result. -/
inductive TaskResult
  | classification (c : Classification)
  | draft (d : DraftReply)
  | terminal (r : TicketResult)
deriving DecidableEq

end TicketFlow
