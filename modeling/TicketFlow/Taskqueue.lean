import TicketFlow.Db

/-! # The durable task queue

The statements of `taskqueue.py` on one connection; the caller's `commit` follows at once, so each
is a transaction. Only the columns the SQL names change, and only under the guard the SQL states. -/

namespace TicketFlow.Taskqueue
open Table
set_option autoImplicit false

/-- The row an `INSERT` that names the seven columns creates; the other columns take their defaults. -/
def newTask (id : ℕ) (queueName : QueueName) (taskType : TaskType) (workflowId : TicketId)
    (payload : TaskPayload) (idempotencyKey : IdempotencyKey) (maxAttempts : ℕ)
    (availableAt : Option Time) (now : Time) : QueuedTask where
  id := id
  queueName := queueName
  taskType := taskType
  workflowId := workflowId
  payload := payload
  idempotencyKey := idempotencyKey
  status := .pending
  attempts := 0
  maxAttempts := maxAttempts
  availableAt := availableAt.getD now
  enqueuedAt := now
  leaseOwner := none
  leaseExpiresAt := none
  result := none
  error := none
  permanent := false

/-- Insert a pending task unless its idempotency key already exists. -/
def enqueue (queueName : QueueName) (taskType : TaskType) (workflowId : TicketId)
    (payload : TaskPayload) (idempotencyKey : IdempotencyKey) (db : Database)
    (maxAttempts : ℕ := 3) (availableAt : Option Time := none) : Database × Option ℕ :=
  if ∃ r ∈ db.taskQueue, r.idempotencyKey = idempotencyKey then (db, none)
  else
    ({ db with
        taskQueue := db.taskQueue ++
          [newTask db.taskQueueSeq queueName taskType workflowId payload idempotencyKey maxAttempts
            availableAt db.now]
        taskQueueSeq := db.taskQueueSeq + 1 },
      some db.taskQueueSeq)

/-- An enqueue changes nothing when the key exists, and else appends one pending row. -/
theorem enqueue_cases (queueName : QueueName) (taskType : TaskType) (workflowId : TicketId)
    (payload : TaskPayload) (key : IdempotencyKey) (db : Database) (maxAttempts : ℕ)
    (availableAt : Option Time) :
    ((∃ r ∈ db.taskQueue, r.idempotencyKey = key) ∧
      enqueue queueName taskType workflowId payload key db maxAttempts availableAt = (db, none)) ∨
    ((∀ r ∈ db.taskQueue, r.idempotencyKey ≠ key) ∧
      enqueue queueName taskType workflowId payload key db maxAttempts availableAt =
        ({ db with
            taskQueue := db.taskQueue ++
              [newTask db.taskQueueSeq queueName taskType workflowId payload key maxAttempts
                availableAt db.now]
            taskQueueSeq := db.taskQueueSeq + 1 },
          some db.taskQueueSeq)) := by
  by_cases h : ∃ r ∈ db.taskQueue, r.idempotencyKey = key
  · exact .inl ⟨h, if_pos h⟩
  · exact .inr ⟨fun r hr hk => h ⟨r, hr, hk⟩, if_neg h⟩

/-- The columns `cancel_pending` writes. -/
def cancelRow (reason : String) (r : QueuedTask) : QueuedTask :=
  { r with status := .failed, error := some reason, permanent := true }

/-- Permanently stop a pending task from being leased. -/
def cancelPending (idempotencyKey : IdempotencyKey) (reason : String) (db : Database) :
    Database × Bool :=
  ({ db with
      taskQueue := updateWhere (fun r => r.idempotencyKey = idempotencyKey ∧ r.status = .pending)
        (cancelRow reason) db.taskQueue },
    decide (∃ r ∈ db.taskQueue, r.idempotencyKey = idempotencyKey ∧ r.status = .pending))

/-- The guard of `complete` and `fail`: `id = %s AND status = 'leased'`. -/
def Settles (taskId : ℕ) (r : QueuedTask) : Prop := r.id = taskId ∧ r.status = .leased

instance (taskId : ℕ) : DecidablePred (Settles taskId) :=
  fun r => inferInstanceAs (Decidable (r.id = taskId ∧ _))

/-- The columns `complete` writes. -/
def completeRow (result : TaskResult) (r : QueuedTask) : QueuedTask :=
  { r with
    status := .done
    result := some result
    error := none
    leaseOwner := none
    leaseExpiresAt := none }

/-- Mark a leased task done and store its result. -/
def complete (taskId : ℕ) (result : TaskResult) (db : Database) : Database × Option TaskStatus :=
  ({ db with taskQueue := updateWhere (Settles taskId) (completeRow result) db.taskQueue },
    (db.taskQueue.find? (Settles taskId)).map fun r => (completeRow result r).status)

/-- `attempts < max_attempts AND NOT (permanent OR %s)`. -/
def Retries (permanent : Bool) (r : QueuedTask) : Prop :=
  r.attempts < r.maxAttempts ∧ (r.permanent || permanent) = false

instance (permanent : Bool) : DecidablePred (Retries permanent) :=
  fun r => inferInstanceAs (Decidable (r.attempts < r.maxAttempts ∧ _))

/-- The columns `fail` writes. -/
def failRow (error : String) (permanent : Bool) (now : Time) (r : QueuedTask) : QueuedTask :=
  { r with
    status := if Retries permanent r then .pending else .failed
    availableAt := if Retries permanent r then now + seconds (2 ^ r.attempts) else r.availableAt
    error := some error
    permanent := r.permanent || permanent
    leaseOwner := none
    leaseExpiresAt := none }

/-- Retry a leased task with exponential backoff, or mark it failed. -/
def fail (taskId : ℕ) (error : String) (permanent : Bool) (db : Database) :
    Database × Option TaskStatus :=
  ({ db with
      taskQueue := updateWhere (Settles taskId) (failRow error permanent db.now) db.taskQueue },
    (db.taskQueue.find? (Settles taskId)).map fun r => (failRow error permanent db.now r).status)

/-! A settling call that finds no leased row changes nothing. -/

theorem complete_eq_none {id : ℕ} {result : TaskResult} {db : Database} :
    (complete id result db).2 = none ↔ ∀ r ∈ db.taskQueue, ¬ Settles id r := by
  simp [complete]

theorem fail_eq_none {id : ℕ} {error : String} {permanent : Bool} {db : Database} :
    (fail id error permanent db).2 = none ↔ ∀ r ∈ db.taskQueue, ¬ Settles id r := by
  simp [fail]

theorem complete_of_not {id : ℕ} {result : TaskResult} {db : Database}
    (h : ∀ r ∈ db.taskQueue, ¬ Settles id r) : complete id result db = (db, none) :=
  Prod.ext (by simp [complete, updateWhere_eq_self h]) (complete_eq_none.mpr h)

theorem fail_of_not {id : ℕ} {error : String} {permanent : Bool} {db : Database}
    (h : ∀ r ∈ db.taskQueue, ¬ Settles id r) : fail id error permanent db = (db, none) :=
  Prod.ext (by simp [fail, updateWhere_eq_self h]) (fail_eq_none.mpr h)

/-- The guard of `reclaim_expired`. -/
def LeaseExpired (now : Time) (r : QueuedTask) : Prop :=
  r.status = .leased ∧ ∃ e ∈ r.leaseExpiresAt, e < now

instance (now : Time) : DecidablePred (LeaseExpired now) :=
  fun r => inferInstanceAs (Decidable (r.status = .leased ∧ _))

/-- The columns `reclaim_expired` writes: `attempts` is left as it is. -/
def reclaimRow (r : QueuedTask) : QueuedTask :=
  { r with status := .pending, leaseOwner := none, leaseExpiresAt := none }

/-- Return expired leases to `pending` so they can be redelivered. -/
def reclaimExpired (db : Database) : Database × ℕ :=
  ({ db with taskQueue := updateWhere (LeaseExpired db.now) reclaimRow db.taskQueue },
    (db.taskQueue.filter (LeaseExpired db.now)).length)

/-- Delete old settled task rows, aged by `enqueued_at`. -/
def pruneSettled (maxAge : Time) (db : Database) : Database :=
  { db with
    taskQueue := db.taskQueue.filter fun r =>
      ¬ ((r.status = .done ∨ r.status = .failed) ∧ r.enqueuedAt + maxAge < db.now) }

/-! ## Keys -/

/-- `id` is a primary key from the sequence, `idempotency_key` is unique. -/
structure Keys (db : Database) : Prop where
  ids : (db.taskQueue.map QueuedTask.id).Nodup
  keys : (db.taskQueue.map QueuedTask.idempotencyKey).Nodup
  lt_seq : ∀ r ∈ db.taskQueue, r.id < db.taskQueueSeq

variable {db db' : Database}

theorem Keys.empty : Keys .empty := ⟨List.nodup_nil, List.nodup_nil, fun _ hr => nomatch hr⟩

theorem Keys.updateWhere {p : QueuedTask → Prop} [DecidablePred p] {f : QueuedTask → QueuedTask}
    (h : Keys db) (hid : ∀ r, (f r).id = r.id) (hkey : ∀ r, (f r).idempotencyKey = r.idempotencyKey)
    (hrows : db'.taskQueue = Table.updateWhere p f db.taskQueue)
    (hseq : db'.taskQueueSeq = db.taskQueueSeq) : Keys db' := by
  refine ⟨?_, ?_, ?_⟩
  · rw [hrows, map_updateWhere fun r _ => hid r]
    exact h.ids
  · rw [hrows, map_updateWhere fun r _ => hkey r]
    exact h.keys
  · intro r hr
    rw [hrows] at hr
    rw [hseq]
    rcases mem_updateWhere.mp hr with ⟨r₀, h₀, -, rfl⟩ | ⟨hr, -⟩
    · rw [hid]
      exact h.lt_seq r₀ h₀
    · exact h.lt_seq r hr

theorem Keys.enqueue (h : Keys db) (queueName : QueueName) (taskType : TaskType)
    (workflowId : TicketId) (payload : TaskPayload) (key : IdempotencyKey) (maxAttempts : ℕ)
    (availableAt : Option Time) :
    Keys (enqueue queueName taskType workflowId payload key db maxAttempts availableAt).1 := by
  rcases enqueue_cases queueName taskType workflowId payload key db maxAttempts availableAt with
    ⟨-, he⟩ | ⟨hno, he⟩
  · rw [he]
    exact h
  · rw [he]
    refine ⟨?_, ?_, ?_⟩
    · rw [List.map_append, List.map_singleton]
      refine List.nodup_append.mpr ⟨h.ids, by simp, ?_⟩
      intro n hn m hm
      obtain ⟨r, hr, rfl⟩ := List.mem_map.mp hn
      have hlt := h.lt_seq r hr
      have hm' : m = db.taskQueueSeq := by simpa [newTask] using hm
      omega
    · rw [List.map_append, List.map_singleton]
      refine List.nodup_append.mpr ⟨h.keys, by simp, ?_⟩
      intro k hk m hm
      obtain ⟨r, hr, rfl⟩ := List.mem_map.mp hk
      have hm' : m = key := by simpa [newTask] using hm
      rw [hm']
      exact hno r hr
    · intro r hr
      change r.id < db.taskQueueSeq + 1
      rcases List.mem_append.mp hr with hr | hr
      · have hlt := h.lt_seq r hr
        omega
      · have hid : r.id = db.taskQueueSeq := by rw [List.mem_singleton.mp hr]; rfl
        omega

theorem Keys.pruneSettled (h : Keys db) (maxAge : Time) : Keys (pruneSettled maxAge db) :=
  ⟨nodup_filter _ h.ids, nodup_filter _ h.keys, fun r hr => h.lt_seq r (List.mem_filter.mp hr).1⟩

end TicketFlow.Taskqueue
