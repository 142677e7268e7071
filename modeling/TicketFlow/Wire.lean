import TicketFlow.Library.Json
import TicketFlow.Runner
import TicketFlow.Worker

/-! # What is stored as text and JSON

The rows of the task queue and of the pending signals as Postgres has them, with their JSON columns
and text keys, and the dicts the graph hands to `interrupt()` and the runner to `Command(resume=…)`.
Each is the spelling of a value of the model. -/

namespace TicketFlow
open JsonFormat
set_option autoImplicit false

/-- How ids and timestamps are spelled: `uuid4().hex`, `datetime.isoformat` and its inverse. -/
structure Spelling where
  hex : TicketId → String
  unhex : String → Option TicketId
  isoformat : Time → String
  fromisoformat : String → Option Time
  unhex_hex : ∀ t, unhex (hex t) = some t
  hex_no_colon : ∀ t, ':' ∉ (hex t).toList
  hex_ne_empty : ∀ t, hex t ≠ ""
  fromisoformat_isoformat : ∀ t, fromisoformat (isoformat t) = some t

theorem Spelling.hex_inj (S : Spelling) {t t' : TicketId} : S.hex t = S.hex t' ↔ t = t' := by
  refine ⟨fun h => ?_, congrArg S.hex⟩
  have h' := congrArg S.unhex h
  simpa [S.unhex_hex] using h'

/-- Ids and times spelled as tallies. -/
instance : Inhabited Spelling where
  default := {
    hex := fun t => String.ofList (List.replicate (t + 1) 'f')
    unhex := fun s => some (s.toList.length - 1)
    isoformat := fun t => String.ofList (List.replicate t '0')
    fromisoformat := fun s => some s.toList.length
    unhex_hex := by simp
    hex_no_colon := by simp
    hex_ne_empty := fun t h => by simpa using congrArg String.toList h
    fromisoformat_isoformat := by simp }

/-! ## Enumerations -/

def TicketCategory.value : TicketCategory → String
  | .billing => "billing"
  | .technical => "technical"
  | .account => "account"
  | .general => "general"

def ActionType.value : ActionType → String
  | .replyOnly => "reply_only"
  | .refund => "refund"

def TicketStatus.value : TicketStatus → String
  | .received => "received"
  | .classifying => "classifying"
  | .drafting => "drafting"
  | .awaitingApproval => "awaiting_approval"
  | .resolved => "resolved"
  | .rejected => "rejected"
  | .escalated => "escalated"

def TaskStatus.value : TaskStatus → String
  | .pending => "pending"
  | .leased => "leased"
  | .done => "done"
  | .failed => "failed"

/-- The defaults of `config.py`. -/
def QueueName.value : QueueName → String
  | .taskQueue => "ticketflow"
  | .agentTaskQueue => "ticketflow-agent"
  | .fallbackTaskQueue => "ticketflow-agent-fallback"

/-- `signals.APPROVAL_DECISION_SIGNAL`. -/
def SignalKind.value : SignalKind → String
  | .approvalDecision => "approval_decision"

theorem TaskStatus.value_inj {s s' : TaskStatus} : s.value = s'.value ↔ s = s' := by
  cases s <;> cases s' <;> simp [TaskStatus.value]

/-! ## Models -/

namespace Wire
variable (S : Spelling)

def ticketId : Codec TicketId := Codec.text.via S.hex S.unhex S.unhex_hex

def category : Codec TicketCategory :=
  .enum TicketCategory.value [.billing, .technical, .account, .general] fun a => by
    cases a <;> simp [TicketCategory.value]

def actionType : Codec ActionType :=
  .enum ActionType.value [.replyOnly, .refund] fun a => by cases a <;> simp [ActionType.value]

def ticketStatus : Codec TicketStatus :=
  .enum TicketStatus.value
    [.received, .classifying, .drafting, .awaitingApproval, .resolved, .rejected, .escalated]
    fun a => by cases a <;> simp [TicketStatus.value]

/-- `float = Field(ge=0.0, le=1.0)`. -/
def confidence : Codec Confidence := Codec.num.refine fun q => 0 ≤ q ∧ q ≤ 1

/-- `float | None = Field(gt=0)`. -/
def refundAmount : Codec (Option Amount) := (Codec.num.refine (0 < ·)).nullable nofun

def note : Codec (Option String) := Codec.text.nullable nofun

def ticket : Record Ticket where
  toFields := ((Fields.single "id" (ticketId S)).and <| (Fields.single "customer_email" .text).and <|
    (Fields.single "subject" .text).and (.single "body" .text)).via
      (fun t => (t.id, t.customerEmail, t.subject, t.body))
      (fun x => some ⟨x.1, x.2.1, x.2.2.1, x.2.2.2⟩) fun _ => rfl
  distinct := by simp [Fields.via, Fields.and, Fields.single]

def classification : Record Classification where
  toFields := ((Fields.single "category" category).and <| (Fields.single "confidence" confidence).and
    (.optional "model" .text "primary")).via
      (fun c => (c.category, c.confidence, c.model))
      (fun x => some ⟨x.1, x.2.1, x.2.2⟩) fun _ => rfl
  distinct := by simp [Fields.via, Fields.and, Fields.single, Fields.optional]

/-- With the validator `require_refund_amount_for_refunds`. -/
def proposedAction : Record ProposedAction where
  toFields := ((Fields.single "type" actionType).and
    (.optional "refund_amount" refundAmount none)).via
      (fun a => (a.type, a.refundAmount))
      (fun x => if h : x.1 = .refund → x.2.isSome then some ⟨x.1, x.2, h⟩ else none)
      fun a => dif_pos a.requireRefundAmountForRefunds
  distinct := by simp [Fields.via, Fields.and, Fields.single, Fields.optional]

def draftReply : Record DraftReply where
  toFields := ((Fields.single "reply_text" .text).and <|
    (Fields.single "action" proposedAction.codec).and <|
    (Fields.single "confidence" confidence).and (.optional "model" .text "primary")).via
      (fun d => (d.replyText, d.action, d.confidence, d.model))
      (fun x => some ⟨x.1, x.2.1, x.2.2.1, x.2.2.2⟩) fun _ => rfl
  distinct := by simp [Fields.via, Fields.and, Fields.single, Fields.optional]

def approvalDecision : Record ApprovalDecision where
  toFields := ((Fields.single "approved" .bool).and <| (Fields.single "approver" .text).and
    (.optional "note" note none)).via
      (fun d => (d.approved, d.approver, d.note))
      (fun x => some ⟨x.1, x.2.1, x.2.2⟩) fun _ => rfl
  distinct := by simp [Fields.via, Fields.and, Fields.single, Fields.optional]

def ticketResult : Record TicketResult where
  toFields := ((Fields.single "ticket_id" (ticketId S)).and <|
    (Fields.single "status" ticketStatus).and <| (Fields.single "reply_text" .text).and <|
    (Fields.optional "refund_executed" .bool false).and
    (.optional "model_path" .text "primary/primary")).via
      (fun r => (r.ticketId, r.status, r.replyText, r.refundExecuted, r.modelPath))
      (fun x => some ⟨x.1, x.2.1, x.2.2.1, x.2.2.2.1, x.2.2.2.2⟩) fun _ => rfl
  distinct := by simp [Fields.via, Fields.and, Fields.single, Fields.optional]

section Names

@[simp] theorem ticket_names : (ticket S).names = ["id", "customer_email", "subject", "body"] := rfl

@[simp] theorem classification_names : classification.names = ["category", "confidence", "model"] :=
  rfl

@[simp] theorem classification_required : classification.required = ["category", "confidence"] := rfl

@[simp] theorem draftReply_names :
    draftReply.names = ["reply_text", "action", "confidence", "model"] := rfl

@[simp] theorem draftReply_required :
    draftReply.required = ["reply_text", "action", "confidence"] := rfl

@[simp] theorem ticketResult_names : (ticketResult S).names =
    ["ticket_id", "status", "reply_text", "refund_executed", "model_path"] := rfl

@[simp] theorem ticketResult_required :
    (ticketResult S).required = ["ticket_id", "status", "reply_text"] := rfl

end Names

/-! ## Dicts -/

/-- The payload of a task, as the graph builds it. -/
def payload : TaskPayload → Json
  | .classify t => .obj [("ticket", (ticket S).dump t)]
  | .draft t c => .obj [("ticket", (ticket S).dump t), ("classification", classification.dump c)]
  | .finalize t action result => .obj [("ticket", (ticket S).dump t),
      ("action", proposedAction.dump action), ("result", (ticketResult S).dump result)]

/-- `result.model_dump(mode="json")` of what a worker's router returned. -/
def taskResult : TaskResult → Json
  | .classification c => classification.dump c
  | .draft d => draftReply.dump d
  | .terminal r => (ticketResult S).dump r

def textOrNull (s : Option String) : Json := s.elim .null .str

/-- The `Resume` values, each with the dict the runner hands over. -/
def resume : Resume → Json
  | .timeout => .obj [("kind", .str "timeout")]
  | .taskFailed error permanent => .obj [("kind", .str "task_failed"), ("error", textOrNull error),
      ("permanent", .bool permanent)]
  | .decision d => .obj [("kind", .str "decision"), ("decision", approvalDecision.dump d)]
  | .result r => taskResult S r

def key : IdempotencyKey → String
  | .agent workflowId taskType => S.hex workflowId ++ ":" ++ taskType.text
  | .fallback workflowId taskType => S.hex workflowId ++ ":" ++ taskType.text ++ ":fallback"
  | .finalize ticketId => S.hex ticketId ++ ":finalize"

/-- `wakeup_at.isoformat() if wakeup_at else None`. -/
def wakeupAt (t : Option Time) : Json := textOrNull (t.map S.isoformat)

/-- The dicts an `interrupt()` is called with: the first and the second one for an agent's result,
the one for an approval and the one for the finalize task. -/
inductive Spells : Envelope → Json → Prop
  | first (k : IdempotencyKey) (taskType : TaskType) (workflowId : TicketId) (queue : QueueName)
      (t : Option Time) : Spells (.agentTask k taskType workflowId queue t)
        (.obj [("idempotency_key", .str (key S k)), ("task_type", .str taskType.text),
          ("workflow_id", .str (S.hex workflowId)), ("queue", .str queue.value),
          ("wakeup_at", wakeupAt S t)])
  | second (k : IdempotencyKey) (taskType : TaskType) (workflowId : TicketId) (queue : QueueName) :
      Spells (.agentTask k taskType workflowId queue none)
        (.obj [("idempotency_key", .str (key S k)), ("task_type", .str taskType.text),
          ("workflow_id", .str (S.hex workflowId)), ("queue", .str queue.value)])
  | approval (ticketId : TicketId) (t : Time) (draft : DraftReply) :
      Spells (.approvalRequired ticketId t draft)
        (.obj [("kind", .str "approval_required"), ("ticket_id", .str (S.hex ticketId)),
          ("wakeup_at", .str (S.isoformat t)), ("draft", draftReply.dump draft)])
  | terminal (k : IdempotencyKey) (workflowId : TicketId) (queue : QueueName)
      (result : TicketResult) : Spells (.terminalTask k workflowId queue result)
        (.obj [("kind", .str "terminal_task"), ("idempotency_key", .str (key S k)),
          ("task_type", .str "finalize_ticket"), ("workflow_id", .str (S.hex workflowId)),
          ("queue", .str queue.value), ("result", (ticketResult S).dump result)])

/-! ## Rows -/

/-- A `task_queue` row. -/
structure Task where
  id : ℕ
  queueName : String
  taskType : String
  workflowId : String
  payload : Json
  idempotencyKey : String
  status : String
  attempts : ℕ
  maxAttempts : ℕ
  availableAt : Time
  enqueuedAt : Time
  leaseOwner : Option WorkerId
  leaseExpiresAt : Option Time
  result : Option Json
  error : Option String
  permanent : Bool

/-- A `pending_signal` row. -/
structure Signal where
  id : ℕ
  workflowId : String
  kind : String
  payload : Json
  consumed : Bool
  createdAt : Time

/-- The tables the graph and the runner read and write JSON in. -/
structure Tables where
  now : Time
  taskQueue : List Task
  taskQueueSeq : ℕ
  pendingSignal : List Signal

def task (r : QueuedTask) : Task where
  id := r.id
  queueName := r.queueName.value
  taskType := r.taskType.text
  workflowId := S.hex r.workflowId
  payload := payload S r.payload
  idempotencyKey := key S r.idempotencyKey
  status := r.status.value
  attempts := r.attempts
  maxAttempts := r.maxAttempts
  availableAt := r.availableAt
  enqueuedAt := r.enqueuedAt
  leaseOwner := r.leaseOwner
  leaseExpiresAt := r.leaseExpiresAt
  result := r.result.map (taskResult S)
  error := r.error
  permanent := r.permanent

def signal (s : PendingSignal) : Signal where
  id := s.id
  workflowId := S.hex s.workflowId
  kind := s.kind.value
  payload := approvalDecision.dump s.payload
  consumed := s.consumed
  createdAt := s.createdAt

def tables (db : Database) : Tables where
  now := db.now
  taskQueue := db.taskQueue.map (task S)
  taskQueueSeq := db.taskQueueSeq
  pendingSignal := db.pendingSignal.map (signal S)

variable {S}

/-- The id a key starts with. -/
def keyTicket : IdempotencyKey → TicketId
  | .agent ticketId _ | .fallback ticketId _ | .finalize ticketId => ticketId

/-- What a key says after the id. -/
def keySuffix : IdempotencyKey → String
  | .agent _ taskType => taskType.text
  | .fallback _ taskType => taskType.text ++ ":fallback"
  | .finalize _ => "finalize"

theorem key_eq (k : IdempotencyKey) : (key S k).toList =
    (S.hex (keyTicket k)).toList ++ ':' :: (keySuffix k).toList := by
  cases k <;> simp [key, keySuffix, keyTicket]

theorem keySuffix_inj {k k' : IdempotencyKey} (ht : keyTicket k = keyTicket k')
    (h : keySuffix k = keySuffix k') : k = k' := by
  obtain ⟨t, _ | _ | _⟩ | ⟨t, _ | _ | _⟩ | ⟨t⟩ := k <;>
    obtain ⟨t', _ | _ | _⟩ | ⟨t', _ | _ | _⟩ | ⟨t'⟩ := k' <;>
    cases ht <;> simp [keySuffix, TaskType.text] at h ⊢

theorem key_inj {k k' : IdempotencyKey} : key S k = key S k' ↔ k = k' := by
  refine ⟨fun h => ?_, congrArg _⟩
  have hlist := congrArg String.toList h
  rw [key_eq, key_eq] at hlist
  obtain ⟨hhex, hrest⟩ := append_cons_inj_of_notMem (S.hex_no_colon _) (S.hex_no_colon _) hlist
  exact keySuffix_inj (S.hex_inj.mp (String.toList_inj.mp hhex)) (String.toList_inj.mp hrest)

end Wire
end TicketFlow
