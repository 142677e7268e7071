import TicketFlow.Wire

/-! # The graph on dicts

The nodes of `build_ticket_graph` once more, as they tell the dicts they are resumed with by their
members, validate them, and write text keys and JSON payloads. On the spelling of what a node of the
model reads, a node here does what that one does. -/

namespace TicketFlow.Wire
open JsonFormat Table
set_option autoImplicit false

/-! ## The queue's statements -/

def newTask (id : ℕ) (queueName taskType workflowId : String) (payload : Json)
    (idempotencyKey : String) (now : Time) : Task where
  id := id
  queueName := queueName
  taskType := taskType
  workflowId := workflowId
  payload := payload
  idempotencyKey := idempotencyKey
  status := "pending"
  attempts := 0
  maxAttempts := 3
  availableAt := now
  enqueuedAt := now
  leaseOwner := none
  leaseExpiresAt := none
  result := none
  error := none
  permanent := false

/-- `INSERT … ON CONFLICT (idempotency_key) DO NOTHING`, with the defaults of `enqueue`. -/
def enqueue (queueName taskType workflowId : String) (payload : Json) (idempotencyKey : String)
    (tb : Tables) : Tables × Option ℕ :=
  if ∃ r ∈ tb.taskQueue, r.idempotencyKey = idempotencyKey then (tb, none)
  else
    ({ tb with
        taskQueue := tb.taskQueue ++
          [newTask tb.taskQueueSeq queueName taskType workflowId payload idempotencyKey tb.now]
        taskQueueSeq := tb.taskQueueSeq + 1 },
      some tb.taskQueueSeq)

/-- The columns `cancel_pending` writes. -/
def cancelRow (reason : String) (r : Task) : Task :=
  { r with status := "failed", error := some reason, permanent := true }

def cancelPending (idempotencyKey reason : String) (tb : Tables) : Tables × Bool :=
  ({ tb with
      taskQueue := updateWhere (fun r => r.idempotencyKey = idempotencyKey ∧ r.status = "pending")
        (cancelRow reason) tb.taskQueue },
    decide (∃ r ∈ tb.taskQueue, r.idempotencyKey = idempotencyKey ∧ r.status = "pending"))

/-! ## Telling resume values -/

/-- `isinstance(resume, dict) and resume.get("kind") == "timeout"`. -/
def isTimeout (resume : Json) : Bool := resume.textAt? "kind" = some "timeout"

/-- `isinstance(resume, dict) and resume.get("kind") == "task_failed"`. -/
def isTaskFailed (resume : Json) : Bool := resume.textAt? "kind" = some "task_failed"

/-- `isinstance(resume, dict)`. -/
def isDict : Json → Bool
  | .obj _ => true
  | _ => false

/-! ## Nodes -/

/-- How the body of a node ends. -/
inductive Outcome
  | update (values : TicketState)
  | interrupt (value : Json)
  | raise (error : GraphError)

/-- Suspended at an interrupt, or past the last one with the value it returned. -/
inductive Awaited
  | suspended (value : Json)
  | resumed (value : Json)

variable (S : Spelling)

def enqueueAgentTask (taskType workflowId : String) (payload : Json) (tb : Tables) :
    Tables × Time :=
  ((enqueue QueueName.agentTaskQueue.value taskType workflowId payload
    (workflowId ++ ":" ++ taskType) tb).1, tb.now + agentScheduleToStart)

def redispatchAgentTask (key taskType workflowId : String) (payload : Json) (tb : Tables) :
    Tables × Bool :=
  match cancelPending key "redispatched to fallback" tb with
  | (tb, true) =>
    ((enqueue QueueName.fallbackTaskQueue.value taskType workflowId payload (key ++ ":fallback")
      tb).1, true)
  | (tb, false) => (tb, false)

def awaitAgentTask (taskType workflowId : String) (payload : Json) (wakeupAt : Option Time)
    (resumes : List Json) (tb : Tables) : Tables × Awaited :=
  let key := workflowId ++ ":" ++ taskType
  match resumes with
  | [] => (tb, .suspended (.obj [("idempotency_key", .str key), ("task_type", .str taskType),
      ("workflow_id", .str workflowId), ("queue", .str QueueName.agentTaskQueue.value),
      ("wakeup_at", Wire.wakeupAt S wakeupAt)]))
  | first :: rest =>
    if isTimeout first then
      let (tb, redispatched) := redispatchAgentTask key taskType workflowId payload tb
      let activeQueue := if redispatched then QueueName.fallbackTaskQueue else .agentTaskQueue
      let activeKey := if redispatched then key ++ ":fallback" else key
      match rest with
      | [] => (tb, .suspended (.obj [("idempotency_key", .str activeKey), ("task_type", .str taskType),
          ("workflow_id", .str workflowId), ("queue", .str activeQueue.value)]))
      | second :: _ => (tb, .resumed second)
    else (tb, .resumed first)

def dispatchClassify (s : TicketState) (tb : Tables) : Tables × Outcome :=
  let (tb, wakeupAt) := enqueueAgentTask "classify" (S.hex s.ticket.id)
    (.obj [("ticket", (ticket S).dump s.ticket)]) tb
  (tb, .update { s with status := .classifying, wakeupAt := some wakeupAt })

def classifyUpdate (s : TicketState) (result : Json) : Outcome :=
  if isTaskFailed result then
    .update { s with
      classification := some Graph.failureClassification
      draft := some Graph.failureDraft
      needsApproval := false
      status := .escalated
      wakeupAt := none }
  else match classification.validate result with
    | some c => .update { s with classification := some c, status := .classifying, wakeupAt := none }
    | none => .raise (.validation "Classification")

def awaitClassify (s : TicketState) (resumes : List Json) (tb : Tables) : Tables × Outcome :=
  match awaitAgentTask S "classify" (S.hex s.ticket.id)
    (.obj [("ticket", (ticket S).dump s.ticket)]) s.wakeupAt resumes tb with
  | (tb, .suspended value) => (tb, .interrupt value)
  | (tb, .resumed value) => (tb, classifyUpdate s value)

def dispatchDraft (s : TicketState) (tb : Tables) : Tables × Outcome :=
  match s.classification with
  | none => (tb, .raise .assertion)
  | some c =>
    let (tb, wakeupAt) := enqueueAgentTask "draft" (S.hex s.ticket.id)
      (.obj [("ticket", (ticket S).dump s.ticket), ("classification", classification.dump c)]) tb
    (tb, .update { s with status := .drafting, wakeupAt := some wakeupAt })

def draftUpdate (s : TicketState) (result : Json) : Outcome :=
  if isTaskFailed result then
    .update { s with
      draft := some Graph.failureDraft
      needsApproval := false
      status := .escalated
      wakeupAt := none }
  else match draftReply.validate result with
    | some d => .update { s with draft := some d, status := .drafting, wakeupAt := none }
    | none => .raise (.validation "DraftReply")

def awaitDraft (s : TicketState) (resumes : List Json) (tb : Tables) : Tables × Outcome :=
  match s.classification with
  | none => (tb, .raise .assertion)
  | some c =>
    match awaitAgentTask S "draft" (S.hex s.ticket.id)
      (.obj [("ticket", (ticket S).dump s.ticket), ("classification", classification.dump c)])
      s.wakeupAt resumes tb with
    | (tb, .suspended value) => (tb, .interrupt value)
    | (tb, .resumed value) => (tb, draftUpdate s value)

def decideApproval (s : TicketState) : Outcome :=
  match s.draft with
  | none => .raise .assertion
  | some reply => .update { s with needsApproval := decide (Graph.Risky reply) }

def prepareApproval (s : TicketState) (tb : Tables) : Outcome :=
  .update { s with status := .awaitingApproval, wakeupAt := some (tb.now + approvalTimeout) }

def approvalUpdate (s : TicketState) (resume : Json) : Outcome :=
  if ¬ isDict resume then .raise (.value "approval resume payload must be an object")
  else if resume.textAt? "kind" = some "timeout" then .update { s with status := .escalated }
  else if resume.textAt? "kind" ≠ some "decision" then
    .raise (.value "approval resume kind must be 'decision' or 'timeout'")
  else match approvalDecision.validate ((resume.get? "decision").getD .null) with
    | none => .raise (.validation "ApprovalDecision")
    | some d =>
      if d.approved then .update { s with decision := some d }
      else .update { s with decision := some d, status := .rejected }

def awaitApproval (s : TicketState) (resumes : List Json) : Outcome :=
  match s.draft, s.wakeupAt with
  | some reply, some wakeupAt =>
    match resumes with
    | [] => .interrupt (.obj [("kind", .str "approval_required"),
        ("ticket_id", .str (S.hex s.ticket.id)), ("wakeup_at", .str (S.isoformat wakeupAt)),
        ("draft", draftReply.dump reply)])
    | resume :: _ => approvalUpdate s resume
  | _, _ => .raise .assertion

def executeUpdate (s : TicketState) (resume : Json) : Outcome :=
  match (ticketResult S).validate resume with
  | none => .raise (.validation "TicketResult")
  | some r =>
    if r.ticketId ≠ s.ticket.id then
      .raise (.value "terminal result ticket_id does not match workflow")
    else .update { s with
      result := some r
      status := r.status
      refundExecuted := r.refundExecuted
      wakeupAt := none }

def execute (s : TicketState) (resumes : List Json) (tb : Tables) : Tables × Outcome :=
  match s.draft, s.classification with
  | some reply, some c =>
    let expected := Graph.expectedResult s c reply
    let key := S.hex s.ticket.id ++ ":finalize"
    let tb := (enqueue QueueName.taskQueue.value "finalize_ticket" (S.hex s.ticket.id)
      (.obj [("ticket", (ticket S).dump s.ticket), ("action", proposedAction.dump reply.action),
        ("result", (ticketResult S).dump expected)]) key tb).1
    match resumes with
    | [] => (tb, .interrupt (.obj [("kind", .str "terminal_task"), ("idempotency_key", .str key),
        ("task_type", .str "finalize_ticket"), ("workflow_id", .str (S.hex s.ticket.id)),
        ("queue", .str QueueName.taskQueue.value), ("result", (ticketResult S).dump expected)]))
    | resume :: _ => (tb, executeUpdate S s resume)
  | _, _ => (tb, .raise .assertion)

def runNode (n : Node) (s : TicketState) (resumes : List Json) (tb : Tables) : Tables × Outcome :=
  match n with
  | .dispatchClassify => dispatchClassify S s tb
  | .awaitClassify => awaitClassify S s resumes tb
  | .dispatchDraft => dispatchDraft S s tb
  | .awaitDraft => awaitDraft S s resumes tb
  | .decideApproval => (tb, decideApproval s)
  | .prepareApproval => (tb, prepareApproval s tb)
  | .awaitApproval => (tb, awaitApproval S s resumes)
  | .execute => execute S s resumes tb

/-! ## Agreement -/

/-- A node ends as a node of the model does. -/
inductive SpellsResult : NodeResult → Outcome → Prop
  | update (values : TicketState) : SpellsResult (.update values) (.update values)
  | interrupt {env : Envelope} {value : Json} : Spells S env value →
      SpellsResult (.interrupt env) (.interrupt value)
  | raise (error : GraphError) : SpellsResult (.raise error) (.raise error)

variable {S}

theorem enqueue_tables (queueName : QueueName) (taskType : TaskType) (workflowId : TicketId)
    (p : TaskPayload) (k : IdempotencyKey) (db : Database) :
    enqueue queueName.value taskType.text (S.hex workflowId) (payload S p) (key S k) (tables S db) =
      (tables S (Taskqueue.enqueue queueName taskType workflowId p k db).1,
        (Taskqueue.enqueue queueName taskType workflowId p k db).2) := by
  have hex : (∃ r ∈ (tables S db).taskQueue, r.idempotencyKey = key S k) ↔
      ∃ r ∈ db.taskQueue, r.idempotencyKey = k := by
    simp [tables, task, key_inj]
  unfold enqueue Taskqueue.enqueue
  by_cases h : ∃ r ∈ db.taskQueue, r.idempotencyKey = k
  · rw [if_pos h, if_pos (hex.mpr h)]
  · rw [if_neg h, if_neg (mt hex.mp h)]
    simp [tables, task, newTask, Taskqueue.newTask, TaskStatus.value]

theorem cancelPending_tables (k : IdempotencyKey) (reason : String) (db : Database) :
    cancelPending (key S k) reason (tables S db) =
      (tables S (Taskqueue.cancelPending k reason db).1,
        (Taskqueue.cancelPending k reason db).2) := by
  have hrow : ∀ r : QueuedTask, ((task S r).idempotencyKey = key S k ∧ (task S r).status = "pending") ↔
      r.idempotencyKey = k ∧ r.status = .pending := by
    intro r
    have hstatus : (task S r).status = TaskStatus.pending.value ↔ r.status = .pending :=
      TaskStatus.value_inj
    exact and_congr key_inj hstatus
  have hrows : updateWhere (fun r : Task => r.idempotencyKey = key S k ∧ r.status = "pending")
      (cancelRow reason) (db.taskQueue.map (task S)) =
        (updateWhere (fun r => r.idempotencyKey = k ∧ r.status = .pending)
          (Taskqueue.cancelRow reason) db.taskQueue).map (task S) :=
    updateWhere_image (fun r _ => hrow r) fun r _ _ => rfl
  refine Prod.ext ?_ ?_
  · simp only [cancelPending, Taskqueue.cancelPending, tables, hrows]
  · simp [cancelPending, Taskqueue.cancelPending, tables, hrow]

theorem redispatchAgentTask_tables (taskType : TaskType) (workflowId : TicketId) (p : TaskPayload)
    (db : Database) :
    redispatchAgentTask (S.hex workflowId ++ ":" ++ taskType.text) taskType.text (S.hex workflowId)
        (payload S p) (tables S db) =
      (tables S (Graph.redispatchAgentTask taskType workflowId p db).1,
        (Graph.redispatchAgentTask taskType workflowId p db).2) := by
  have hcancel := cancelPending_tables (S := S) (.agent workflowId taskType)
    "redispatched to fallback" db
  unfold redispatchAgentTask Graph.redispatchAgentTask
  rw [show S.hex workflowId ++ ":" ++ taskType.text = key S (.agent workflowId taskType) from rfl,
    hcancel]
  generalize Taskqueue.cancelPending (.agent workflowId taskType) "redispatched to fallback" db = x
  obtain ⟨db', redispatched⟩ := x
  cases redispatched with
  | false => rfl
  | true =>
    have henqueue := enqueue_tables (S := S) .fallbackTaskQueue taskType workflowId p
      (.fallback workflowId taskType) db'
    exact congrArg (fun y => (Prod.fst y, true)) henqueue

/-! The dicts the runner hands over are told apart by their `kind`, and a dumped result has none. -/

theorem get?_taskResult {name : String} (hc : name ∉ classification.names)
    (hd : name ∉ draftReply.names) (ht : name ∉ (ticketResult S).names) (r : TaskResult) :
    (taskResult S r).get? name = none := by
  cases r with
  | classification c => exact classification.get?_dump hc c
  | draft d => exact draftReply.get?_dump hd d
  | terminal r => exact (ticketResult S).get?_dump ht r

theorem textAt?_result (r : TaskResult) : (taskResult S r).textAt? "kind" = none := by
  have hget : (taskResult S r).get? "kind" = none :=
    get?_taskResult (by simp) (by simp) (by simp) r
  simp [Json.textAt?, hget]

theorem isTimeout_resume (v : Resume) : isTimeout (resume S v) = Graph.isTimeout v := by
  cases v with
  | result r => simp [isTimeout, resume, textAt?_result, Graph.isTimeout]
  | _ => simp [isTimeout, resume, Json.textAt?, Json.text?, Graph.isTimeout]

theorem isTaskFailed_resume (v : Resume) : isTaskFailed (resume S v) = Graph.isTaskFailed v := by
  cases v with
  | result r => simp [isTaskFailed, resume, textAt?_result, Graph.isTaskFailed]
  | _ => simp [isTaskFailed, resume, Json.textAt?, Json.text?, Graph.isTaskFailed]

theorem validate_classification (v : Resume) :
    classification.validate (resume S v) = Graph.validateClassification v := by
  have hreq : "category" ∈ classification.required := by simp
  cases v with
  | result r =>
    cases r with
    | classification c => exact classification.validate_dump c
    | draft d => exact classification.validate_foreign draftReply hreq (by simp) d
    | terminal r => exact classification.validate_foreign (ticketResult S) hreq (by simp) r
  | _ => exact classification.validate_missing hreq (by simp [resume])

theorem validate_draftReply (v : Resume) :
    draftReply.validate (resume S v) = Graph.validateDraftReply v := by
  have hreq : "action" ∈ draftReply.required := by simp
  cases v with
  | result r =>
    cases r with
    | classification c => exact draftReply.validate_foreign classification hreq (by simp) c
    | draft d => exact draftReply.validate_dump d
    | terminal r => exact draftReply.validate_foreign (ticketResult S) hreq (by simp) r
  | _ => exact draftReply.validate_missing hreq (by simp [resume])

theorem validate_ticketResult (v : Resume) :
    (ticketResult S).validate (resume S v) = Graph.validateTicketResult v := by
  have hreq : "ticket_id" ∈ (ticketResult S).required := by simp
  cases v with
  | result r =>
    cases r with
    | classification c => exact (ticketResult S).validate_foreign classification hreq (by simp) c
    | draft d => exact (ticketResult S).validate_foreign draftReply hreq (by simp) d
    | terminal r => exact (ticketResult S).validate_dump r
  | _ => exact (ticketResult S).validate_missing hreq (by simp [resume])

/-! What a node makes of the value it is resumed with. -/

theorem classifyUpdate_resume (s : TicketState) (v : Resume) :
    SpellsResult S (Graph.classifyUpdate s v) (classifyUpdate s (resume S v)) := by
  unfold Graph.classifyUpdate classifyUpdate
  rw [isTaskFailed_resume, validate_classification]
  split
  · exact .update _
  · cases Graph.validateClassification v with
    | none => exact .raise _
    | some c => exact .update _

theorem draftUpdate_resume (s : TicketState) (v : Resume) :
    SpellsResult S (Graph.draftUpdate s v) (draftUpdate s (resume S v)) := by
  unfold Graph.draftUpdate draftUpdate
  rw [isTaskFailed_resume, validate_draftReply]
  split
  · exact .update _
  · cases Graph.validateDraftReply v with
    | none => exact .raise _
    | some d => exact .update _

theorem executeUpdate_resume (s : TicketState) (v : Resume) :
    SpellsResult S (Graph.executeUpdate s v) (executeUpdate S s (resume S v)) := by
  unfold Graph.executeUpdate executeUpdate
  rw [validate_ticketResult]
  cases Graph.validateTicketResult v with
  | none => exact .raise _
  | some r =>
    by_cases hid : r.ticketId = s.ticket.id
    · simp only [hid, ne_eq, not_true_eq_false, if_false]
      exact .update _
    · simp only [hid, ne_eq, not_false_eq_true, if_true]
      exact .raise _

theorem isDict_resume (v : Resume) : isDict (resume S v) = true := by
  cases v with
  | result r => cases r <;> rfl
  | _ => rfl

theorem approvalUpdate_resume (s : TicketState) (v : Resume) :
    SpellsResult S (Graph.approvalUpdate s v) (approvalUpdate s (resume S v)) := by
  unfold approvalUpdate
  rw [isDict_resume, if_neg (by simp)]
  cases v with
  | timeout =>
    rw [if_pos (by simp [resume, Json.textAt?, Json.text?])]
    exact .update _
  | taskFailed error permanent =>
    rw [if_neg (by simp [resume, Json.textAt?, Json.text?]),
      if_pos (by simp [resume, Json.textAt?, Json.text?])]
    exact .raise _
  | decision d =>
    rw [if_neg (by simp [resume, Json.textAt?, Json.text?]),
      if_neg (by simp [resume, Json.textAt?, Json.text?])]
    have hget : (resume S (.decision d)).get? "decision" = some (approvalDecision.dump d) := by
      simp [resume]
    rw [hget, Option.getD_some, approvalDecision.validate_dump]
    simp only [Graph.approvalUpdate]
    split
    · exact .update _
    · exact .update _
  | result r =>
    have hkind : (resume S (.result r)).textAt? "kind" = none := textAt?_result r
    rw [hkind, if_neg (by simp), if_pos (by simp)]
    exact .raise _

/-- Both are suspended, or past the last interrupt with one value. -/
inductive SpellsAwaited (S : Spelling) : Graph.Awaited → Awaited → Prop
  | suspended {env : Envelope} {value : Json} : Spells S env value →
      SpellsAwaited S (.suspended env) (.suspended value)
  | resumed (v : Resume) : SpellsAwaited S (.resumed v) (.resumed (resume S v))

theorem awaitAgentTask_tables (taskType : TaskType) (workflowId : TicketId) (p : TaskPayload)
    (wakeupAt : Option Time) (resumes : List Resume) (db : Database) :
    (awaitAgentTask S taskType.text (S.hex workflowId) (payload S p) wakeupAt
        (resumes.map (resume S)) (tables S db)).1 =
      tables S (Graph.awaitAgentTask taskType workflowId p wakeupAt resumes db).1 ∧
    SpellsAwaited S (Graph.awaitAgentTask taskType workflowId p wakeupAt resumes db).2
      (awaitAgentTask S taskType.text (S.hex workflowId) (payload S p) wakeupAt
        (resumes.map (resume S)) (tables S db)).2 := by
  cases resumes with
  | nil => exact ⟨rfl, .suspended (.first (.agent workflowId taskType) ..)⟩
  | cons first rest =>
    simp only [Graph.awaitAgentTask, awaitAgentTask, List.map_cons, isTimeout_resume]
    by_cases ht : Graph.isTimeout first = true
    · have hre := redispatchAgentTask_tables (S := S) taskType workflowId p db
      simp only [ht, if_true, hre]
      generalize Graph.redispatchAgentTask taskType workflowId p db = x
      obtain ⟨db', redispatched⟩ := x
      cases rest with
      | nil =>
        refine ⟨rfl, ?_⟩
        cases redispatched with
        | false => exact .suspended (.second (.agent workflowId taskType) ..)
        | true => exact .suspended (.second (.fallback workflowId taskType) ..)
      | cons second rest => exact ⟨rfl, .resumed second⟩
    · simp only [ht]
      exact ⟨rfl, .resumed first⟩

/-- A node of the graph and one on dicts leave the same rows and end the same way. -/
def SpellsRun (S : Spelling) (x : Database × NodeResult) (y : Tables × Outcome) : Prop :=
  y.1 = tables S x.1 ∧ SpellsResult S x.2 y.2

variable {s : TicketState} {db : Database}

theorem dispatchClassify_tables : SpellsRun S (Graph.dispatchClassify s db)
    (dispatchClassify S s (tables S db)) := by
  have h := enqueue_tables (S := S) .agentTaskQueue .classify s.ticket.id (.classify s.ticket)
    (.agent s.ticket.id .classify) db
  exact ⟨congrArg Prod.fst h, .update _⟩

theorem dispatchDraft_tables : SpellsRun S (Graph.dispatchDraft s db)
    (dispatchDraft S s (tables S db)) := by
  unfold Graph.dispatchDraft dispatchDraft
  cases s.classification with
  | none => exact ⟨rfl, .raise _⟩
  | some c =>
    have h := enqueue_tables (S := S) .agentTaskQueue .draft s.ticket.id (.draft s.ticket c)
      (.agent s.ticket.id .draft) db
    exact ⟨congrArg Prod.fst h, .update _⟩

theorem awaitClassify_tables (resumes : List Resume) : SpellsRun S
    (Graph.awaitClassify s resumes db)
    (awaitClassify S s (resumes.map (resume S)) (tables S db)) := by
  have h := awaitAgentTask_tables (S := S) .classify s.ticket.id (.classify s.ticket) s.wakeupAt
    resumes db
  simp only [TaskType.text, payload] at h
  unfold Graph.awaitClassify awaitClassify
  obtain ⟨hdb, hawaited⟩ := h
  split <;> split <;> rename_i hx _ _ _ hy <;> rw [hx, hy] at hdb hawaited
  · cases hawaited with
    | suspended hs => exact ⟨hdb, .interrupt hs⟩
  · cases hawaited
  · cases hawaited
  · cases hawaited with
    | resumed => exact ⟨hdb, classifyUpdate_resume s _⟩

theorem awaitDraft_tables (resumes : List Resume) : SpellsRun S (Graph.awaitDraft s resumes db)
    (awaitDraft S s (resumes.map (resume S)) (tables S db)) := by
  unfold Graph.awaitDraft awaitDraft
  cases s.classification with
  | none => exact ⟨rfl, .raise _⟩
  | some c =>
    have h := awaitAgentTask_tables (S := S) .draft s.ticket.id (.draft s.ticket c) s.wakeupAt
      resumes db
    simp only [TaskType.text, payload] at h
    obtain ⟨hdb, hawaited⟩ := h
    dsimp only
    split <;> split <;> rename_i hx _ _ _ hy <;> rw [hx, hy] at hdb hawaited
    · cases hawaited with
      | suspended hs => exact ⟨hdb, .interrupt hs⟩
    · cases hawaited
    · cases hawaited
    · cases hawaited with
      | resumed => exact ⟨hdb, draftUpdate_resume s _⟩

theorem awaitApproval_resume (resumes : List Resume) : SpellsResult S
    (Graph.awaitApproval s resumes) (awaitApproval S s (resumes.map (resume S))) := by
  unfold Graph.awaitApproval awaitApproval
  cases s.draft with
  | none => exact .raise _
  | some reply =>
    cases s.wakeupAt with
    | none => exact .raise _
    | some t =>
      cases resumes with
      | nil => exact .interrupt (.approval s.ticket.id t reply)
      | cons v rest => exact approvalUpdate_resume s v

theorem execute_tables (resumes : List Resume) : SpellsRun S (Graph.execute s resumes db)
    (execute S s (resumes.map (resume S)) (tables S db)) := by
  unfold Graph.execute execute
  cases s.draft with
  | none => exact ⟨rfl, .raise _⟩
  | some reply =>
    cases s.classification with
    | none => exact ⟨rfl, .raise _⟩
    | some c =>
      have h := enqueue_tables (S := S) .taskQueue .finalizeTicket s.ticket.id
        (.finalize s.ticket reply.action (Graph.expectedResult s c reply)) (.finalize s.ticket.id) db
      have hdb := congrArg Prod.fst h
      cases resumes with
      | nil => exact ⟨hdb, .interrupt (.terminal (.finalize s.ticket.id) s.ticket.id .taskQueue _)⟩
      | cons v rest => exact ⟨hdb, executeUpdate_resume s v⟩

/-- On dicts, texts and JSON columns, a node writes the rows and ends the way the node of the model
does: whatever a resume value is, its members tell it, and it is validated to the value it was dumped
from or refused. -/
theorem runNode_spells (n : Node) (s : TicketState) (resumes : List Resume) (db : Database) :
    (runNode S n s (resumes.map (resume S)) (tables S db)).1 = tables S (n.run s resumes db).1 ∧
      SpellsResult S (n.run s resumes db).2
        (runNode S n s (resumes.map (resume S)) (tables S db)).2 := by
  cases n with
  | dispatchClassify => exact dispatchClassify_tables
  | awaitClassify => exact awaitClassify_tables resumes
  | dispatchDraft => exact dispatchDraft_tables
  | awaitDraft => exact awaitDraft_tables resumes
  | decideApproval =>
    refine ⟨rfl, ?_⟩
    simp only [Node.run, runNode, Graph.decideApproval, decideApproval]
    cases s.draft with
    | none => exact .raise _
    | some reply => exact .update _
  | prepareApproval => exact ⟨rfl, .update _⟩
  | awaitApproval => exact ⟨rfl, awaitApproval_resume resumes⟩
  | execute => exact execute_tables resumes

end TicketFlow.Wire
