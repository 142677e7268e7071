import TicketFlow.Library.Table
import TicketFlow.Models

/-! # The Postgres tables and the transactions of `db.py`

Each function is one committed transaction on the whole database. `now()` is the field `now`, and
rows that other transactions hold locked, which `FOR UPDATE SKIP LOCKED` passes over, are the
argument `locked`. A sequence numbers only the rows it inserts. -/

namespace TicketFlow
set_option autoImplicit false

/-! ## Rows -/

inductive TaskStatus | pending | leased | done | failed
deriving DecidableEq

/-- A `task_queue` row. -/
structure QueuedTask where
  id : ℕ
  queueName : QueueName
  taskType : TaskType
  workflowId : TicketId
  payload : TaskPayload
  idempotencyKey : IdempotencyKey
  status : TaskStatus
  attempts : ℕ
  maxAttempts : ℕ
  availableAt : Time
  enqueuedAt : Time
  leaseOwner : Option WorkerId
  leaseExpiresAt : Option Time
  result : Option TaskResult
  error : Option String
  permanent : Bool
deriving DecidableEq

/-- A `workflow_run` row. -/
structure WorkflowRun where
  ticketId : TicketId
  status : TicketStatus
  wakeupAt : Option Time
  leaseOwner : Option WorkerId
  leaseExpiresAt : Option Time
  createdAt : Time
  updatedAt : Time
deriving DecidableEq

/-- A `workflow_run_archive` row. -/
structure ArchivedRun where
  run : WorkflowRun
  archivedAt : Time
deriving DecidableEq

inductive SignalKind | approvalDecision
deriving DecidableEq

/-- A `pending_signal` row. -/
structure PendingSignal where
  id : ℕ
  workflowId : TicketId
  kind : SignalKind
  payload : ApprovalDecision
  consumed : Bool
  createdAt : Time
  consumedAt : Option Time
deriving DecidableEq

structure Refund where
  ticketId : TicketId
  amount : Amount
  recordedAt : Time
deriving DecidableEq

structure SentReply where
  ticketId : TicketId
  customerEmail : String
  replyText : String
  recordedAt : Time
deriving DecidableEq

/-- A `refund_attempts` or `reply_attempts` row. -/
structure Attempt where
  ticketId : TicketId
  attempt : ℕ
  attemptedAt : Time
deriving DecidableEq

structure Database where
  now : Time
  taskQueue : List QueuedTask
  taskQueueSeq : ℕ
  workflowRun : List WorkflowRun
  workflowRunArchive : List ArchivedRun
  pendingSignal : List PendingSignal
  pendingSignalSeq : ℕ
  refunds : List Refund
  refundAttempts : List Attempt
  sentReplies : List SentReply
  replyAttempts : List Attempt
  ticketResults : List (TicketId × TicketResult)

/-- The freshly bootstrapped schema. -/
def Database.empty : Database where
  now := 0
  taskQueue := []
  taskQueueSeq := 0
  workflowRun := []
  workflowRunArchive := []
  pendingSignal := []
  pendingSignalSeq := 0
  refunds := []
  refundAttempts := []
  sentReplies := []
  replyAttempts := []
  ticketResults := []

namespace Db
open Table

/-! ## The task lease -/

/-- `interval '30 seconds'`, the life of a task or run lease. -/
def leaseInterval : Time := seconds 30

/-- The columns `dequeue` writes. -/
def leaseTask (workerId : WorkerId) (now : Time) (r : QueuedTask) : QueuedTask :=
  { r with
    status := .leased
    leaseOwner := some workerId
    leaseExpiresAt := some (now + leaseInterval)
    attempts := r.attempts + 1 }

/-- A row `dequeue` may lease. -/
def Due (queueName : QueueName) (locked : ℕ → Bool) (now : Time) (r : QueuedTask) : Prop :=
  r.queueName = queueName ∧ r.status = .pending ∧ r.availableAt ≤ now ∧ locked r.id = false

instance (queueName : QueueName) (locked : ℕ → Bool) (now : Time) :
    DecidablePred (Due queueName locked now) :=
  fun r => inferInstanceAs (Decidable (r.queueName = queueName ∧ _))

def dequeue (queueName : QueueName) (workerId : WorkerId) (locked : ℕ → Bool) (db : Database) :
    Database × Option QueuedTask :=
  match firstBy QueuedTask.availableAt (Due queueName locked db.now) db.taskQueue with
  | none => (db, none)
  | some r =>
    ({ db with taskQueue := updateWhere (·.id = r.id) (leaseTask workerId db.now) db.taskQueue },
      some (leaseTask workerId db.now r))

theorem dequeue_eq_some {queueName : QueueName} {workerId : WorkerId} {locked : ℕ → Bool}
    {db db' : Database} {task : QueuedTask}
    (h : dequeue queueName workerId locked db = (db', some task)) :
    ∃ r ∈ db.taskQueue, Due queueName locked db.now r ∧ task = leaseTask workerId db.now r ∧
      db' = { db with
        taskQueue := updateWhere (·.id = r.id) (leaseTask workerId db.now) db.taskQueue } := by
  unfold dequeue at h
  split at h
  · cases h
  · rename_i r hr
    cases h
    obtain ⟨hm, hd⟩ := firstBy_mem hr
    exact ⟨r, hm, hd, rfl, rfl⟩

/-! ## The run lease -/

/-- `lease_expires_at IS NULL OR lease_expires_at < now()`. -/
def LeaseFree (now : Time) (r : WorkflowRun) : Prop := ∀ e ∈ r.leaseExpiresAt, e < now

instance (now : Time) : DecidablePred (LeaseFree now) :=
  fun r => inferInstanceAs (Decidable (∀ e ∈ r.leaseExpiresAt, e < now))

/-- `wakeup_at IS NULL OR wakeup_at <= now()`. -/
def TimerDue (now : Time) (r : WorkflowRun) : Prop := ∀ t ∈ r.wakeupAt, t ≤ now

instance (now : Time) : DecidablePred (TimerDue now) :=
  fun r => inferInstanceAs (Decidable (∀ t ∈ r.wakeupAt, t ≤ now))

/-- The `WHERE` clause of `claim_run`. -/
def Claimable (now : Time) (r : WorkflowRun) : Prop :=
  (r.status.terminal = false ∨ (r.wakeupAt.isSome ∧ TimerDue now r)) ∧
    LeaseFree now r ∧ TimerDue now r

instance (now : Time) : DecidablePred (Claimable now) :=
  fun r => inferInstanceAs (Decidable ((_ ∨ _) ∧ LeaseFree now r ∧ TimerDue now r))

/-- The columns `claim_run` writes. -/
def leaseRun (workerId : WorkerId) (now : Time) (r : WorkflowRun) : WorkflowRun :=
  { r with
    leaseOwner := some workerId
    leaseExpiresAt := some (now + leaseInterval)
    updatedAt := now }

/-- Lease the oldest claimable run. -/
def claimRun (workerId : WorkerId) (locked : TicketId → Bool) (db : Database) :
    Database × Option WorkflowRun :=
  match firstBy WorkflowRun.createdAt
      (fun r => Claimable db.now r ∧ locked r.ticketId = false) db.workflowRun with
  | none => (db, none)
  | some r =>
    ({ db with
        workflowRun := updateWhere (·.ticketId = r.ticketId) (leaseRun workerId db.now)
          db.workflowRun },
      some (leaseRun workerId db.now r))

/-- The row `claim_run` leased, as it was before: claimable, and no claimable row is older. -/
theorem claimRun_eq_some {workerId : WorkerId} {locked : TicketId → Bool} {db db' : Database}
    {run : WorkflowRun} (h : claimRun workerId locked db = (db', some run)) :
    ∃ r ∈ db.workflowRun, Claimable db.now r ∧ locked r.ticketId = false ∧
      (∀ r' ∈ db.workflowRun, Claimable db.now r' → locked r'.ticketId = false →
        r.createdAt ≤ r'.createdAt) ∧
      run = leaseRun workerId db.now r ∧
      db' = { db with
        workflowRun := updateWhere (·.ticketId = r.ticketId) (leaseRun workerId db.now)
          db.workflowRun } := by
  unfold claimRun at h
  split at h
  · cases h
  · rename_i r hr
    cases h
    obtain ⟨hm, hc, hl⟩ := firstBy_mem hr
    exact ⟨r, hm, hc, hl, fun r' hr' hc' hl' => firstBy_le hr hr' ⟨hc', hl'⟩, rfl, rfl⟩

/-- The columns `reclaim_expired_runs` writes. -/
def releaseRun (now : Time) (r : WorkflowRun) : WorkflowRun :=
  { r with leaseOwner := none, leaseExpiresAt := none, updatedAt := now }

def reclaimExpiredRuns (db : Database) : Database :=
  { db with
    workflowRun := updateWhere (fun r => ∃ e ∈ r.leaseExpiresAt, e < db.now) (releaseRun db.now)
      db.workflowRun }

/-- The columns `save_run` writes. -/
def saveRunRow (status : TicketStatus) (wakeupAt : Option Time) (now : Time) (r : WorkflowRun) :
    WorkflowRun :=
  { r with
    status := status
    wakeupAt := wakeupAt
    leaseOwner := none
    leaseExpiresAt := none
    updatedAt := now }

def consumeSignal (now : Time) (s : PendingSignal) : PendingSignal :=
  { s with consumed := true, consumedAt := some now }

/-- Project the run, release its lease and consume the delivered signal, in one transaction. The
`WHERE` clause names the ticket only. -/
def saveRun (ticketId : TicketId) (status : TicketStatus) (wakeupAt : Option Time)
    (consumedSignalId : Option ℕ) (db : Database) : Database :=
  { db with
    workflowRun := updateWhere (·.ticketId = ticketId) (saveRunRow status wakeupAt db.now)
      db.workflowRun
    pendingSignal := match consumedSignalId with
      | none => db.pendingSignal
      | some id => updateWhere (·.id = id) (consumeSignal db.now) db.pendingSignal }

/-- The row `create_run` and `acreate_run` insert. -/
def newRun (ticketId : TicketId) (status : TicketStatus) (wakeupAt : Option Time) (now : Time) :
    WorkflowRun where
  ticketId := ticketId
  status := status
  wakeupAt := wakeupAt
  leaseOwner := none
  leaseExpiresAt := none
  createdAt := now
  updatedAt := now

def createRun (ticketId : TicketId) (status : TicketStatus) (wakeupAt : Option Time)
    (db : Database) : Database :=
  { db with
    workflowRun := insertNew WorkflowRun.ticketId (newRun ticketId status wakeupAt db.now)
      db.workflowRun }

/-- The columns `wake_run` writes. -/
def wakeRunRow (now : Time) (r : WorkflowRun) : WorkflowRun :=
  { r with wakeupAt := some now, updatedAt := now }

def wakeRun (ticketId : TicketId) (db : Database) : Database :=
  { db with workflowRun := updateWhere (·.ticketId = ticketId) (wakeRunRow db.now) db.workflowRun }

/-- `ORDER BY created_at, ticket_id`. -/
def Older (r r' : WorkflowRun) : Prop :=
  r.createdAt < r'.createdAt ∨ r.createdAt = r'.createdAt ∧ r.ticketId ≤ r'.ticketId

instance : DecidableRel Older :=
  fun r r' => inferInstanceAs (Decidable (r.createdAt < r'.createdAt ∨ _))

instance : Std.Total Older where
  total r r' := by
    rcases lt_trichotomy r.createdAt r'.createdAt with hlt | heq | hgt
    · exact .inl (.inl hlt)
    · rcases le_total r.ticketId r'.ticketId with hle | hle
      · exact .inl (.inr ⟨heq, hle⟩)
      · exact .inr (.inr ⟨heq.symm, hle⟩)
    · exact .inr (.inl hgt)

instance : IsTrans WorkflowRun Older where
  trans r r' r'' h h' := by
    rcases h with hlt | ⟨heq, hle⟩
    · rcases h' with hlt' | ⟨heq', -⟩
      · exact .inl (hlt.trans hlt')
      · exact .inl (heq' ▸ hlt)
    · rcases h' with hlt' | ⟨heq', hle'⟩
      · exact .inl (heq ▸ hlt')
      · exact .inr ⟨heq.trans heq', hle.trans hle'⟩

def listRunsByStatus (status : TicketStatus) (db : Database) : List TicketId :=
  (orderedBy Older (·.status = status) db.workflowRun).map (·.ticketId)

/-! ## Retention -/

/-- `status IN (terminal) AND updated_at < now() - max_age`. -/
def Archivable (maxAge : Time) (now : Time) (r : WorkflowRun) : Prop :=
  r.status.terminal = true ∧ r.updatedAt + maxAge < now

instance (maxAge : Time) (now : Time) : DecidablePred (Archivable maxAge now) :=
  fun r => inferInstanceAs (Decidable (r.status.terminal = true ∧ _))

/-- Move the old terminal runs to the archive; `none` when the archive's primary key is violated,
which rolls the whole statement back. -/
def archiveTerminalRuns (maxAge : Time) (db : Database) : Option (Database × List TicketId) :=
  let moved := db.workflowRun.filter (Archivable maxAge db.now)
  if ∃ r ∈ moved, ∃ a ∈ db.workflowRunArchive, a.run.ticketId = r.ticketId then none
  else some
    ({ db with
        workflowRun := db.workflowRun.filter fun r => ¬ Archivable maxAge db.now r
        workflowRunArchive := db.workflowRunArchive ++ moved.map (⟨·, db.now⟩) },
      moved.map (·.ticketId))

def pruneConsumedSignals (maxAge : Time) (db : Database) : Database :=
  { db with
    pendingSignal := db.pendingSignal.filter fun s =>
      ¬ (s.consumed = true ∧ ∃ t ∈ s.consumedAt, t + maxAge < db.now) }

/-! ## Signals -/

/-- An unconsumed signal of this workflow and kind, which the partial unique index protects. -/
def Unconsumed (workflowId : TicketId) (kind : SignalKind) (s : PendingSignal) : Prop :=
  s.workflowId = workflowId ∧ s.kind = kind ∧ s.consumed = false

instance (workflowId : TicketId) (kind : SignalKind) : DecidablePred (Unconsumed workflowId kind) :=
  fun s => inferInstanceAs (Decidable (s.workflowId = workflowId ∧ _))

/-- The row is in the status the caller waits for. -/
def Waiting (workflowId : TicketId) (status : TicketStatus) (r : WorkflowRun) : Prop :=
  r.ticketId = workflowId ∧ r.status = status

instance (workflowId : TicketId) (status : TicketStatus) : DecidablePred (Waiting workflowId status) :=
  fun r => inferInstanceAs (Decidable (r.ticketId = workflowId ∧ _))

def addPendingSignalIfWaiting (workflowId : TicketId) (kind : SignalKind)
    (payload : ApprovalDecision) (waitingStatus : TicketStatus) (db : Database) :
    Database × Option ℕ :=
  if (∃ r ∈ db.workflowRun, Waiting workflowId waitingStatus r) ∧
      ¬ ∃ s ∈ db.pendingSignal, Unconsumed workflowId kind s then
    ({ db with
        pendingSignal := db.pendingSignal ++
          [⟨db.pendingSignalSeq, workflowId, kind, payload, false, db.now, none⟩]
        pendingSignalSeq := db.pendingSignalSeq + 1
        workflowRun := updateWhere (·.ticketId = workflowId) (wakeRunRow db.now) db.workflowRun },
      some db.pendingSignalSeq)
  else (db, none)

/-- An accepted signal: the run waits, and no decision is pending. -/
theorem addPendingSignalIfWaiting_eq_some {workflowId : TicketId} {kind : SignalKind}
    {payload : ApprovalDecision} {status : TicketStatus} {db db' : Database} {id : ℕ}
    (h : addPendingSignalIfWaiting workflowId kind payload status db = (db', some id)) :
    (∃ r ∈ db.workflowRun, Waiting workflowId status r) ∧
      (∀ s ∈ db.pendingSignal, ¬ Unconsumed workflowId kind s) ∧ id = db.pendingSignalSeq ∧
      db' = { db with
        pendingSignal := db.pendingSignal ++
          [⟨db.pendingSignalSeq, workflowId, kind, payload, false, db.now, none⟩]
        pendingSignalSeq := db.pendingSignalSeq + 1
        workflowRun := updateWhere (·.ticketId = workflowId) (wakeRunRow db.now)
          db.workflowRun } := by
  unfold addPendingSignalIfWaiting at h
  split at h
  · rename_i hg
    cases h
    exact ⟨hg.1, fun s hs hu => hg.2 ⟨s, hs, hu⟩, rfl, rfl⟩
  · cases h

end Db
end TicketFlow
