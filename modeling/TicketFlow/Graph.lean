import TicketFlow.Taskqueue

/-! # The ticket workflow graph

The nodes, routers and edges of `build_ticket_graph`. A node is a function of the state values, of
the values its `interrupt()` calls have returned so far, and of the database; it runs from its first
line every time, so an interrupt whose value is on record returns it and the next one suspends.
Every node commits at most one transaction, which is the database it returns. -/

namespace TicketFlow
set_option autoImplicit false

/-- What `Command(resume=…)` carries: the control envelopes `{"kind": "timeout"}`,
`{"kind": "task_failed", …}` and `{"kind": "decision", …}`, or a stored task result, which has no
`kind`. -/
inductive Resume
  | timeout
  | taskFailed (error : Option String) (permanent : Bool)
  | decision (decision : ApprovalDecision)
  | result (result : TaskResult)
deriving DecidableEq

/-- The dict an `interrupt()` exposes. The second agent interrupt has no `wakeup_at` key, which
`envelope.get("wakeup_at")` reads as the first one's `None`. -/
inductive Envelope
  | agentTask (idempotencyKey : IdempotencyKey) (taskType : TaskType) (workflowId : TicketId)
      (queue : QueueName) (wakeupAt : Option Time)
  | approvalRequired (ticketId : TicketId) (wakeupAt : Time) (draft : DraftReply)
  | terminalTask (idempotencyKey : IdempotencyKey) (workflowId : TicketId) (queue : QueueName)
      (result : TicketResult)
deriving DecidableEq

def Envelope.idempotencyKey : Envelope → Option IdempotencyKey
  | .agentTask key _ _ _ _ => some key
  | .approvalRequired _ _ _ => none
  | .terminalTask key _ _ _ => some key

def Envelope.wakeupAt : Envelope → Option Time
  | .agentTask _ _ _ _ wakeupAt => wakeupAt
  | .approvalRequired _ wakeupAt _ => some wakeupAt
  | .terminalTask _ _ _ _ => none

/-- `ticket` and `status` come with the graph's input; every other key is produced by a node. -/
structure TicketState where
  ticket : Ticket
  classification : Option Classification := none
  draft : Option DraftReply := none
  needsApproval : Bool := false
  decision : Option ApprovalDecision := none
  wakeupAt : Option Time := none
  status : TicketStatus
  refundExecuted : Bool := false
  result : Option TicketResult := none
deriving DecidableEq

/-- The exceptions that leave `ainvoke`: a failed `assert`, a pydantic `ValidationError`, a node's
own `ValueError`, and LangGraph's refusal to resume a thread that has no checkpoint. -/
inductive GraphError
  | assertion
  | validation (model : String)
  | value (message : String)
  | emptyInput
deriving DecidableEq

/-- How the body of a node ends: a partial update merged into the state, a suspension, or an
exception. -/
inductive NodeResult
  | update (values : TicketState)
  | interrupt (envelope : Envelope)
  | raise (error : GraphError)
deriving DecidableEq

inductive Node
  | dispatchClassify | awaitClassify | dispatchDraft | awaitDraft
  | decideApproval | prepareApproval | awaitApproval | execute
deriving DecidableEq

namespace Graph

def isTimeout : Resume → Bool
  | .timeout => true
  | _ => false

def isTaskFailed : Resume → Bool
  | .taskFailed _ _ => true
  | _ => false

/-- `Classification.model_validate`: of the values a resume can carry, only a dumped
`Classification` has a `category`. -/
def validateClassification : Resume → Option Classification
  | .result (.classification c) => some c
  | _ => none

/-- `DraftReply.model_validate`: only a dumped `DraftReply` has an `action`. -/
def validateDraftReply : Resume → Option DraftReply
  | .result (.draft d) => some d
  | _ => none

/-- `TicketResult.model_validate`: only a dumped `TicketResult` has a `ticket_id`. -/
def validateTicketResult : Resume → Option TicketResult
  | .result (.terminal r) => some r
  | _ => none

/-- Synthetic classification used only to complete escalation bookkeeping. -/
def failureClassification : Classification where
  category := .general
  confidence := ⟨0, by norm_num⟩
  model := "failed-agent"

/-- Synthetic draft used only to route failed agent work to finalization. -/
def failureDraft : DraftReply where
  replyText := escalationReply
  action := ⟨.replyOnly, none, replyOnly_needs_no_amount⟩
  confidence := ⟨0, by norm_num⟩
  model := "failed-agent"

/-! ## Queue writes -/

def enqueueAgentTask (taskType : TaskType) (workflowId : TicketId) (payload : TaskPayload)
    (db : Database) : Database × Time :=
  ((Taskqueue.enqueue .agentTaskQueue taskType workflowId payload (.agent workflowId taskType) db).1,
    db.now + agentScheduleToStart)

/-- Cancel the primary task and enqueue its fallback in one transaction, if it is still pending. -/
def redispatchAgentTask (taskType : TaskType) (workflowId : TicketId) (payload : TaskPayload)
    (db : Database) : Database × Bool :=
  match Taskqueue.cancelPending (.agent workflowId taskType) "redispatched to fallback" db with
  | (db, true) =>
    ((Taskqueue.enqueue .fallbackTaskQueue taskType workflowId payload
      (.fallback workflowId taskType) db).1, true)
  | (db, false) => (db, false)

/-- Suspended at an interrupt, or past the last one with the value it returned. -/
inductive Awaited
  | suspended (envelope : Envelope)
  | resumed (value : Resume)

/-- The first interrupt of `await_agent_task`. -/
def primaryEnvelope (taskType : TaskType) (workflowId : TicketId) (wakeupAt : Option Time) :
    Envelope :=
  .agentTask (.agent workflowId taskType) taskType workflowId .agentTaskQueue wakeupAt

/-- The second interrupt, after a timeout: on the fallback task or, when the cancel lost its race,
still on the primary one. -/
def secondEnvelope (taskType : TaskType) (workflowId : TicketId) (redispatched : Bool) : Envelope :=
  .agentTask
    (if redispatched then .fallback workflowId taskType else .agent workflowId taskType)
    taskType workflowId (if redispatched then .fallbackTaskQueue else .agentTaskQueue) none

/-- Suspend for an agent result, redispatching to fallback on timeout. -/
def awaitAgentTask (taskType : TaskType) (workflowId : TicketId) (payload : TaskPayload)
    (wakeupAt : Option Time) (resumes : List Resume) (db : Database) : Database × Awaited :=
  match resumes with
  | [] => (db, .suspended (primaryEnvelope taskType workflowId wakeupAt))
  | first :: rest =>
    if isTimeout first then
      let (db, redispatched) := redispatchAgentTask taskType workflowId payload db
      match rest with
      | [] => (db, .suspended (secondEnvelope taskType workflowId redispatched))
      | second :: _ => (db, .resumed second)
    else (db, .resumed first)

/-! ## Nodes -/

def dispatchClassify (s : TicketState) (db : Database) : Database × NodeResult :=
  let (db, wakeupAt) := enqueueAgentTask .classify s.ticket.id (.classify s.ticket) db
  (db, .update { s with status := .classifying, wakeupAt := some wakeupAt })

/-- What `await_classify` returns for the value of its last interrupt. -/
def classifyUpdate (s : TicketState) (value : Resume) : NodeResult :=
  if isTaskFailed value then
    .update { s with
      classification := some failureClassification
      draft := some failureDraft
      needsApproval := false
      status := .escalated
      wakeupAt := none }
  else match validateClassification value with
    | some c => .update { s with classification := some c, status := .classifying, wakeupAt := none }
    | none => .raise (.validation "Classification")

def awaitClassify (s : TicketState) (resumes : List Resume) (db : Database) :
    Database × NodeResult :=
  match awaitAgentTask .classify s.ticket.id (.classify s.ticket) s.wakeupAt resumes db with
  | (db, .suspended env) => (db, .interrupt env)
  | (db, .resumed value) => (db, classifyUpdate s value)

def dispatchDraft (s : TicketState) (db : Database) : Database × NodeResult :=
  match s.classification with
  | none => (db, .raise .assertion)
  | some c =>
    let (db, wakeupAt) := enqueueAgentTask .draft s.ticket.id (.draft s.ticket c) db
    (db, .update { s with status := .drafting, wakeupAt := some wakeupAt })

/-- What `await_draft` returns for the value of its last interrupt. -/
def draftUpdate (s : TicketState) (value : Resume) : NodeResult :=
  if isTaskFailed value then
    .update { s with
      draft := some failureDraft
      needsApproval := false
      status := .escalated
      wakeupAt := none }
  else match validateDraftReply value with
    | some d => .update { s with draft := some d, status := .drafting, wakeupAt := none }
    | none => .raise (.validation "DraftReply")

def awaitDraft (s : TicketState) (resumes : List Resume) (db : Database) : Database × NodeResult :=
  match s.classification with
  | none => (db, .raise .assertion)
  | some c =>
    match awaitAgentTask .draft s.ticket.id (.draft s.ticket c) s.wakeupAt resumes db with
    | (db, .suspended env) => (db, .interrupt env)
    | (db, .resumed value) => (db, draftUpdate s value)

/-- A refund or a low-confidence draft needs a human. -/
def Risky (reply : DraftReply) : Prop :=
  reply.action.type = .refund ∨ reply.confidence.val < confidenceThreshold

instance : DecidablePred Risky := fun reply =>
  inferInstanceAs (Decidable (reply.action.type = .refund ∨ _))

def decideApproval (s : TicketState) : NodeResult :=
  match s.draft with
  | none => .raise .assertion
  | some reply => .update { s with needsApproval := decide (Risky reply) }

def prepareApproval (s : TicketState) (db : Database) : NodeResult :=
  .update { s with status := .awaitingApproval, wakeupAt := some (db.now + approvalTimeout) }

/-- What `await_approval` returns for the value of its interrupt. -/
def approvalUpdate (s : TicketState) : Resume → NodeResult
  | .timeout => .update { s with status := .escalated }
  | .decision d =>
    if d.approved then .update { s with decision := some d }
    else .update { s with decision := some d, status := .rejected }
  | _ => .raise (.value "approval resume kind must be 'decision' or 'timeout'")

def awaitApproval (s : TicketState) (resumes : List Resume) : NodeResult :=
  match s.draft, s.wakeupAt with
  | some reply, some wakeupAt =>
    match resumes with
    | [] => .interrupt (.approvalRequired s.ticket.id wakeupAt reply)
    | value :: _ => approvalUpdate s value
  | _, _ => .raise .assertion

/-- The terminal status and reply text `execute` derives from the status it finds. -/
def terminalOutcome (status : TicketStatus) (replyText : String) : TicketStatus × String :=
  match status with
  | .rejected => (.rejected, rejectionReply)
  | .escalated => (.escalated, escalationReply)
  | _ => (.resolved, replyText)

def expectedResult (s : TicketState) (classification : Classification) (reply : DraftReply) :
    TicketResult where
  ticketId := s.ticket.id
  status := (terminalOutcome s.status reply.replyText).1
  replyText := (terminalOutcome s.status reply.replyText).2
  refundExecuted := false
  modelPath := classification.model ++ "/" ++ reply.model

/-- What `execute` returns for the value of its interrupt. -/
def executeUpdate (s : TicketState) (value : Resume) : NodeResult :=
  match validateTicketResult value with
  | none => .raise (.validation "TicketResult")
  | some r =>
    if r.ticketId ≠ s.ticket.id then
      .raise (.value "terminal result ticket_id does not match workflow")
    else .update { s with
      result := some r
      status := r.status
      refundExecuted := r.refundExecuted
      wakeupAt := none }

def execute (s : TicketState) (resumes : List Resume) (db : Database) : Database × NodeResult :=
  match s.draft, s.classification with
  | some reply, some classification =>
    let expected := expectedResult s classification reply
    let db := (Taskqueue.enqueue .taskQueue .finalizeTicket s.ticket.id
      (.finalize s.ticket reply.action expected) (.finalize s.ticket.id) db).1
    match resumes with
    | [] => (db, .interrupt (.terminalTask (.finalize s.ticket.id) s.ticket.id .taskQueue expected))
    | value :: _ => (db, executeUpdate s value)
  | _, _ => (db, .raise .assertion)

end Graph

/-- Run a node from its first line. -/
def Node.run (n : Node) (s : TicketState) (resumes : List Resume) (db : Database) :
    Database × NodeResult :=
  match n with
  | .dispatchClassify => Graph.dispatchClassify s db
  | .awaitClassify => Graph.awaitClassify s resumes db
  | .dispatchDraft => Graph.dispatchDraft s db
  | .awaitDraft => Graph.awaitDraft s resumes db
  | .decideApproval => (db, Graph.decideApproval s)
  | .prepareApproval => (db, Graph.prepareApproval s db)
  | .awaitApproval => (db, Graph.awaitApproval s resumes)
  | .execute => Graph.execute s resumes db

/-- The edges: the node that follows, `none` for `END`. -/
def Node.after (n : Node) (s : TicketState) : Option Node :=
  match n with
  | .dispatchClassify => some .awaitClassify
  | .awaitClassify => some (if s.status = .escalated then .execute else .dispatchDraft)
  | .dispatchDraft => some .awaitDraft
  | .awaitDraft => some (if s.status = .escalated then .execute else .decideApproval)
  | .decideApproval => some (if s.needsApproval then .prepareApproval else .execute)
  | .prepareApproval => some .awaitApproval
  | .awaitApproval => some .execute
  | .execute => none

/-! ## What a node writes -/

/-- The transaction of a node, if it commits one. -/
inductive QueueWrite
  | enqueue (queueName : QueueName) (taskType : TaskType) (workflowId : TicketId)
      (payload : TaskPayload) (idempotencyKey : IdempotencyKey)
  | redispatch (taskType : TaskType) (workflowId : TicketId) (payload : TaskPayload)

def QueueWrite.apply (db : Database) : QueueWrite → Database
  | .enqueue queueName taskType workflowId payload idempotencyKey =>
    (Taskqueue.enqueue queueName taskType workflowId payload idempotencyKey db).1
  | .redispatch taskType workflowId payload =>
    (Graph.redispatchAgentTask taskType workflowId payload db).1

/-- The write of `await_agent_task`: a redispatch, every time the timeout is on record. -/
def awaitWrite (taskType : TaskType) (workflowId : TicketId) (payload : TaskPayload) :
    List Resume → Option QueueWrite
  | .timeout :: _ => some (.redispatch taskType workflowId payload)
  | _ => none

/-- What the node writes when it runs from its first line. -/
def Node.write (s : TicketState) (resumes : List Resume) : Node → Option QueueWrite
  | .dispatchClassify => some (.enqueue .agentTaskQueue .classify s.ticket.id (.classify s.ticket)
      (.agent s.ticket.id .classify))
  | .awaitClassify => awaitWrite .classify s.ticket.id (.classify s.ticket) resumes
  | .dispatchDraft => s.classification.map fun c =>
      .enqueue .agentTaskQueue .draft s.ticket.id (.draft s.ticket c) (.agent s.ticket.id .draft)
  | .awaitDraft => s.classification.bind fun c =>
      awaitWrite .draft s.ticket.id (.draft s.ticket c) resumes
  | .decideApproval | .prepareApproval | .awaitApproval => none
  | .execute => s.draft.bind fun reply => s.classification.map fun c =>
      .enqueue .taskQueue .finalizeTicket s.ticket.id
        (.finalize s.ticket reply.action (Graph.expectedResult s c reply)) (.finalize s.ticket.id)

theorem awaitAgentTask_db (taskType : TaskType) (workflowId : TicketId) (payload : TaskPayload)
    (wakeupAt : Option Time) (resumes : List Resume) (db : Database) :
    (Graph.awaitAgentTask taskType workflowId payload wakeupAt resumes db).1 =
      ((awaitWrite taskType workflowId payload resumes).map (QueueWrite.apply db)).getD db := by
  unfold Graph.awaitAgentTask
  cases resumes with
  | nil => rfl
  | cons first rest =>
    cases first with
    | timeout => cases rest <;> rfl
    | taskFailed error permanent => rfl
    | decision d => rfl
    | result r => rfl

theorem Node.run_db (n : Node) (s : TicketState) (resumes : List Resume) (db : Database) :
    (n.run s resumes db).1 = ((n.write s resumes).map (QueueWrite.apply db)).getD db := by
  cases n with
  | dispatchClassify => rfl
  | awaitClassify =>
    rw [Node.write, ← awaitAgentTask_db _ _ _ s.wakeupAt, Node.run, Graph.awaitClassify]
    split <;> rename_i h <;> rw [h]
  | dispatchDraft =>
    rw [Node.write, Node.run, Graph.dispatchDraft]
    cases s.classification <;> rfl
  | awaitDraft =>
    rw [Node.write, Node.run, Graph.awaitDraft]
    cases s.classification with
    | none => rfl
    | some c =>
      rw [Option.bind_some, ← awaitAgentTask_db _ _ _ s.wakeupAt]
      dsimp only
      split <;> rename_i h <;> rw [h]
  | decideApproval => rfl
  | prepareApproval => rfl
  | awaitApproval => rfl
  | execute =>
    rw [Node.write, Node.run, Graph.execute]
    cases s.draft with
    | none => rfl
    | some reply =>
      cases s.classification with
      | none => rfl
      | some c => cases resumes <;> rfl

/-- A write of a node touches the task queue and no other table. -/
theorem QueueWrite.apply_frame (w : QueueWrite) (db : Database) : ∃ rows seq,
    w.apply db = { db with taskQueue := rows, taskQueueSeq := seq } := by
  have enqueue_frame : ∀ queueName taskType workflowId payload key (db : Database), ∃ rows seq,
      (Taskqueue.enqueue queueName taskType workflowId payload key db).1 =
        { db with taskQueue := rows, taskQueueSeq := seq } := by
    intro queueName taskType workflowId payload key db
    rcases Taskqueue.enqueue_cases queueName taskType workflowId payload key db 3 none with
      ⟨-, h⟩ | ⟨-, h⟩
    · rw [h]
      exact ⟨db.taskQueue, db.taskQueueSeq, rfl⟩
    · rw [h]
      exact ⟨_, _, rfl⟩
  cases w with
  | enqueue queueName taskType workflowId payload key => exact enqueue_frame ..
  | redispatch taskType workflowId payload =>
    simp only [QueueWrite.apply, Graph.redispatchAgentTask]
    rcases hc : Taskqueue.cancelPending (.agent workflowId taskType) "redispatched to fallback" db
      with ⟨db', _ | _⟩
    · cases congrArg Prod.fst hc
      exact ⟨_, _, rfl⟩
    · obtain ⟨rows, seq, he⟩ := enqueue_frame .fallbackTaskQueue taskType workflowId payload
        (.fallback workflowId taskType) db'
      dsimp only
      rw [he]
      cases congrArg Prod.fst hc
      exact ⟨rows, seq, rfl⟩

theorem Node.run_frame (n : Node) (s : TicketState) (resumes : List Resume) (db : Database) :
    ∃ rows seq, (n.run s resumes db).1 = { db with taskQueue := rows, taskQueueSeq := seq } := by
  rw [Node.run_db]
  cases n.write s resumes with
  | none => exact ⟨db.taskQueue, db.taskQueueSeq, rfl⟩
  | some w => exact w.apply_frame db

end TicketFlow
