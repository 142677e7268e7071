import TicketFlow.Invocation
import TicketFlow.Ledger

/-! # The queue workers

`process_one_task` of `agent_worker.py`, with the two routers that turn a leased task into a
result: `run_activity`, whose agent answers from outside the system, and `run_finalize` of
`side_effect_worker.py`, whose side effects commit one at a time. -/

namespace TicketFlow
set_option autoImplicit false

def TaskType.text : TaskType → String
  | .classify => "classify"
  | .draft => "draft"
  | .finalizeTicket => "finalize_ticket"

/-! ## Reading a payload -/

namespace TaskPayload

/-- `payload["ticket"]`, which every payload has. -/
def ticket : TaskPayload → Ticket
  | .classify ticket | .draft ticket _ | .finalize ticket _ _ => ticket

/-- `payload["action"]`. -/
def action : TaskPayload → Option ProposedAction
  | .finalize _ action _ => some action
  | _ => none

/-- `payload["result"]`. -/
def result : TaskPayload → Option TicketResult
  | .finalize _ _ result => some result
  | _ => none

/-- `payload["classification"]`. -/
def classification : TaskPayload → Option Classification
  | .draft _ c => some c
  | _ => none

end TaskPayload

namespace Worker

/-- Where a worker is inside `process_one_task`. The states from `refunding` to `recording` are
those of `run_finalize` with the payload it decoded. -/
inductive Pc
  | leased (task : QueuedTask)
  | refunding (task : QueuedTask) (amount : Amount) (result : TicketResult)
  | checking (task : QueuedTask) (result : TicketResult)
  | replying (task : QueuedTask) (result : TicketResult) (refundExecuted : Bool)
  | recording (task : QueuedTask) (result : TicketResult)
  | completing (task : QueuedTask) (result : TaskResult)
  | failing (task : QueuedTask) (error : String) (permanent : Bool)
  | waking (task : QueuedTask)
deriving DecidableEq

/-- What an action of a worker leads to: the next one, or the end of `process_one_task`. -/
inductive Next
  | at (pc : Pc)
  | returned (processed : Bool)

def dequeue (queueName : QueueName) (workerId : WorkerId) (locked : ℕ → Bool) (sh : Shared) :
    Shared × Next :=
  match Db.dequeue queueName workerId locked sh.db with
  | (_, none) => (sh, .returned false)
  | (db, some task) => (sh.commit db, .at (.leased task))

/-! ## The agent router -/

/-- The answers `run_activity` can return for a task: a `Classification` for `classify`, a
`DraftReply` for `draft`. -/
def Answers (task : QueuedTask) : TaskResult → Prop
  | .classification _ => task.taskType = .classify
  | .draft _ => task.taskType = .draft ∧ task.payload.classification.isSome
  | .terminal _ => False

instance (task : QueuedTask) : DecidablePred (Answers task)
  | .classification _ => inferInstanceAs (Decidable (task.taskType = .classify))
  | .draft _ => inferInstanceAs (Decidable (_ ∧ _))
  | .terminal _ => inferInstanceAs (Decidable False)

/-! ## The side-effect router -/

/-- The side-effect worker is the one that drains `config.TASK_QUEUE`. -/
def runsFinalize (task : QueuedTask) : Prop := task.queueName = .taskQueue

instance : DecidablePred runsFinalize :=
  fun task => inferInstanceAs (Decidable (task.queueName = .taskQueue))

/-- The start of `run_finalize`: decode the payload and decide whether there is a refund. -/
def startFinalize (task : QueuedTask) : Pc :=
  if task.taskType ≠ .finalizeTicket then
    .failing task ("unexpected side-effect task_type '" ++ task.taskType.text ++ "'") false
  else match task.payload.action, task.payload.result with
    | some action, some result =>
      if result.status = .resolved ∧ action.type = .refund then
        match action.refundAmount with
        | some amount => .refunding task amount result
        | none => .failing task "" false
      else .replying task result false
    | none, _ => .failing task "'action'" false
    | _, none => .failing task "'result'" false

/-! ## One task -/

/-- The actions a worker takes on its own; the agent's answer is not one of them. -/
def advance (pc : Pc) (sh : Shared) : Option (Shared × Next) :=
  match pc with
  | .leased task => if runsFinalize task then some (sh, .at (startFinalize task)) else none
  | .refunding task amount result =>
    let (db, first) := Ledger.recordRefund task.payload.ticket.id amount task.attempts sh.db
    some (sh.record db (.recordedRefund task.payload first), .at (.checking task result))
  | .checking task result =>
    some (sh, .at (.replying task result (Ledger.refundRecorded task.payload.ticket.id sh.db)))
  | .replying task result refundExecuted =>
    let ticket := task.payload.ticket
    let (db, first) :=
      Ledger.recordSentReply ticket.id ticket.customerEmail result.replyText task.attempts sh.db
    some (sh.record db (.recordedReply task.payload first),
      .at (.recording task { result with refundExecuted := refundExecuted }))
  | .recording task result =>
    some (sh.record (Readmodel.saveResult result sh.db) (.savedResult task.payload result),
      .at (.completing task (.terminal result)))
  | .completing task result =>
    match Taskqueue.complete task.id result sh.db with
    | (db, some _) => some (sh.record db (.storedResult task.payload result),
        .at (.waking task))
    | (db, none) => some (sh.commit db, .returned true)
  | .failing task error permanent =>
    match Taskqueue.fail task.id error permanent sh.db with
    | (db, some .failed) => some (sh.commit db, .at (.waking task))
    | (db, _) => some (sh.commit db, .returned true)
  | .waking task => some (sh.commit (Db.wakeRun task.workflowId sh.db), .returned true)

/-- The task whose activity is running, so that an exception can still fail it. -/
def Pc.activity : Pc → Option QueuedTask
  | .leased task | .refunding task _ _ | .checking task _ | .replying task _ _
  | .recording task _ => some task
  | .completing _ _ | .failing _ _ _ | .waking _ => none

end Worker
end TicketFlow
