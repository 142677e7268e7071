import TicketFlow.Steps

/-! # The task table

How one action can change the task of an idempotency key. A task is inserted by a node, and from
then on only its status, lease, attempts, result and error ever change. -/

namespace TicketFlow
open Table
set_option autoImplicit false

/-- The task of an idempotency key. -/
def Database.task (db : Database) (key : IdempotencyKey) : Option QueuedTask :=
  lookup QueuedTask.idempotencyKey key db.taskQueue

theorem Database.task_eq_some {db : Database} {key : IdempotencyKey} {r : QueuedTask}
    (h : db.task key = some r) : r ∈ db.taskQueue ∧ r.idempotencyKey = key := lookup_eq_some h

theorem task_of_mem {db : Database} {r : QueuedTask} (hk : Taskqueue.Keys db)
    (h : r ∈ db.taskQueue) : db.task r.idempotencyKey = some r := lookup_of_mem hk.keys h

/-- The cause recorded by `redispatch_agent_task`. -/
def redispatchReason : String := "redispatched to fallback"

/-- The write inserts a task under `key`, unless the key exists: an enqueue under its own key, a
redispatch of a pending primary task under the fallback key. -/
inductive QueueWrite.Inserts (db : Database) (key : IdempotencyKey) : QueueWrite → QueueName →
    TaskType → TicketId → TaskPayload → Prop
  | enqueue {queueName taskType workflowId payload} :
      Inserts db key (.enqueue queueName taskType workflowId payload key) queueName taskType
        workflowId payload
  | redispatch {taskType workflowId payload r} : key = .fallback workflowId taskType →
      r ∈ db.taskQueue → r.idempotencyKey = .agent workflowId taskType → r.status = .pending →
      Inserts db key (.redispatch taskType workflowId payload) .fallbackTaskQueue taskType
        workflowId payload

variable {sh sh' : Shared} {i : WorkerId} {p p' : Proc} {a : Action} {key : IdempotencyKey}
  {db : Database}

/-! ## The task after each statement -/

theorem task_enqueue {queueName : QueueName} {taskType : TaskType} {workflowId : TicketId}
    {payload : TaskPayload} {key' : IdempotencyKey} :
    (Taskqueue.enqueue queueName taskType workflowId payload key' db).1.task key =
      (db.task key).or (if key' = key then some (Taskqueue.newTask db.taskQueueSeq queueName taskType
        workflowId payload key' 3 none db.now) else none) := by
  rcases Taskqueue.enqueue_cases queueName taskType workflowId payload key' db 3 none with
    ⟨⟨r, hr, hk⟩, he⟩ | ⟨hno, he⟩
  · rw [he]
    by_cases h : key' = key
    · subst h
      cases ht : db.task key' with
      | none => exact absurd hk (lookup_eq_none.mp ht r hr)
      | some r' => rfl
    · rw [if_neg h, Option.or_none]
  · rw [he]
    exact lookup_append

theorem task_cancelPending {key' : IdempotencyKey} {reason : String} :
    (Taskqueue.cancelPending key' reason db).1.task key =
      (db.task key).map fun r => if r.idempotencyKey = key' ∧ r.status = .pending then
        Taskqueue.cancelRow reason r else r :=
  lookup_updateWhere fun _ => rfl

theorem task_complete {id : ℕ} {result : TaskResult} : (Taskqueue.complete id result db).1.task key =
    (db.task key).map fun r => if Taskqueue.Settles id r then Taskqueue.completeRow result r else r :=
  lookup_updateWhere fun _ => rfl

theorem task_fail {id : ℕ} {error : String} {permanent : Bool} :
    (Taskqueue.fail id error permanent db).1.task key = (db.task key).map fun r =>
      if Taskqueue.Settles id r then Taskqueue.failRow error permanent db.now r else r :=
  lookup_updateWhere fun _ => rfl

theorem task_reclaimExpired : (Taskqueue.reclaimExpired db).1.task key =
    (db.task key).map fun r => if Taskqueue.LeaseExpired db.now r then Taskqueue.reclaimRow r else r :=
  lookup_updateWhere fun _ => rfl

theorem task_pruneSettled {maxAge : Time} (hk : Taskqueue.Keys db) :
    (Taskqueue.pruneSettled maxAge db).task key = (db.task key).filter fun r =>
      ¬ ((r.status = .done ∨ r.status = .failed) ∧ r.enqueuedAt + maxAge < db.now) :=
  lookup_filter hk.keys

/-! ## The writes of a node -/

/-- A node's write leaves a task alone, inserts it, or cancels it while it is pending. -/
theorem QueueWrite.apply_task (w : QueueWrite) (db : Database) (key : IdempotencyKey) :
    (w.apply db).task key = db.task key ∨
    (∃ queueName taskType workflowId payload, w.Inserts db key queueName taskType workflowId payload ∧
      db.task key = none ∧ (w.apply db).task key = some (Taskqueue.newTask db.taskQueueSeq queueName
        taskType workflowId payload key 3 none db.now)) ∨
    (∃ taskType workflowId payload r, w = .redispatch taskType workflowId payload ∧
      key = .agent workflowId taskType ∧ db.task key = some r ∧ r.status = .pending ∧
      (w.apply db).task key = some (Taskqueue.cancelRow redispatchReason r)) := by
  cases w with
  | enqueue queueName taskType workflowId payload key' =>
    have he : (Taskqueue.enqueue queueName taskType workflowId payload key' db).1.task key = _ :=
      task_enqueue
    by_cases hkey : key' = key
    · subst hkey
      cases ht : db.task key' with
      | some r =>
        rw [ht] at he
        exact .inl he
      | none =>
        rw [ht, if_pos rfl] at he
        exact .inr (.inl ⟨_, _, _, _, .enqueue, rfl, he⟩)
    · rw [if_neg hkey, Option.or_none] at he
      exact .inl he
  | redispatch taskType workflowId payload =>
    simp only [QueueWrite.apply, Graph.redispatchAgentTask]
    rcases hc : Taskqueue.cancelPending (.agent workflowId taskType) "redispatched to fallback" db
      with ⟨db', flag⟩
    have hfst : (Taskqueue.cancelPending (.agent workflowId taskType) "redispatched to fallback"
        db).1 = db' := congrArg Prod.fst hc
    have hsnd := congrArg Prod.snd hc
    have hcancel : db'.task key = _ := hfst ▸ task_cancelPending
    have hnow : db'.now = db.now := hfst ▸ rfl
    have hseq : db'.taskQueueSeq = db.taskQueueSeq := hfst ▸ rfl
    cases flag with
    | false =>
      left
      dsimp only
      have hno : ¬ ∃ r ∈ db.taskQueue, r.idempotencyKey = .agent workflowId taskType ∧
          r.status = .pending := of_decide_eq_false hsnd
      cases ht : db.task key with
      | none => rw [hcancel, ht, Option.map_none]
      | some r =>
        rw [hcancel, ht, Option.map_some, if_neg]
        exact fun hp => hno ⟨r, (Database.task_eq_some ht).1, hp⟩
    | true =>
      dsimp only
      rw [task_enqueue, hcancel, hnow, hseq]
      obtain ⟨r, hr, hrk, hrp⟩ : ∃ r ∈ db.taskQueue, r.idempotencyKey = .agent workflowId taskType ∧
          r.status = .pending := of_decide_eq_true hsnd
      cases ht : db.task key with
      | none =>
        by_cases hkey : IdempotencyKey.fallback workflowId taskType = key
        · subst hkey
          right
          left
          refine ⟨_, _, _, _, .redispatch rfl hr hrk hrp, rfl, ?_⟩
          rw [if_pos rfl]
          rfl
        · rw [if_neg hkey]
          exact .inl rfl
      | some r' =>
        obtain ⟨-, hk'⟩ := Database.task_eq_some ht
        rw [Option.map_some, Option.some_or]
        by_cases hp : r'.idempotencyKey = .agent workflowId taskType ∧ r'.status = .pending
        · rw [if_pos hp]
          exact .inr (.inr ⟨_, _, _, r', rfl, hk'.symm.trans hp.1, rfl, hp.2, rfl⟩)
        · rw [if_neg hp]
          exact .inl rfl

/-! ## The eight changes -/

inductive TaskChange (sh : Shared) (i : WorkerId) (p : Proc) (a : Action) (sh' : Shared) (p' : Proc)
    (key : IdempotencyKey) : Prop
  | same : sh'.db.task key = sh.db.task key → TaskChange sh i p a sh' p' key
  | inserted {dr : Driver} {inv : Invocation} {n w queueName taskType workflowId payload} :
      p = dr.driving inv → a = .advance → inv.result = none → inv.checkpoint.next = some n →
      n.write inv.checkpoint.values inv.resumes = some w →
      p' = dr.driving ⟨inv.checkpoint, inv.offered,
        some (n.run inv.checkpoint.values inv.resumes sh.db).2⟩ →
      sh'.log = .ran inv.checkpoint.threadId n inv.checkpoint.values inv.resumes :: sh.log →
      w.Inserts sh.db key queueName taskType workflowId payload → sh.db.task key = none →
      sh'.db.task key = some (Taskqueue.newTask sh.db.taskQueueSeq queueName taskType workflowId
        payload key 3 none sh.db.now) → TaskChange sh i p a sh' p' key
  | cancelled {dr : Driver} {inv : Invocation} {n taskType workflowId payload r} :
      p = dr.driving inv → a = .advance → inv.result = none → inv.checkpoint.next = some n →
      n.write inv.checkpoint.values inv.resumes = some (.redispatch taskType workflowId payload) →
      p' = dr.driving ⟨inv.checkpoint, inv.offered,
        some (n.run inv.checkpoint.values inv.resumes sh.db).2⟩ →
      key = .agent workflowId taskType → sh.db.task key = some r → r.status = .pending →
      sh'.db.task key = some (Taskqueue.cancelRow redispatchReason r) →
      TaskChange sh i p a sh' p' key
  | leased {queueName locked r} : p = .idle → a = .dequeue queueName locked →
      sh.db.task key = some r → Db.Due queueName locked sh.db.now r →
      p' = .worker (.leased (Db.leaseTask i sh.db.now r)) →
      sh'.db.task key = some (Db.leaseTask i sh.db.now r) → TaskChange sh i p a sh' p' key
  | completed {task : QueuedTask} {result r} : p = .worker (.completing task result) →
      a = .advance → sh.db.task key = some r → Taskqueue.Settles task.id r →
      p' = .worker (.waking task) →
      sh'.db.task key = some (Taskqueue.completeRow result r) →
      sh'.log = .storedResult task.payload result :: sh.log → TaskChange sh i p a sh' p' key
  | failed {task : QueuedTask} {error permanent r} : p = .worker (.failing task error permanent) →
      a = .advance → sh.db.task key = some r → Taskqueue.Settles task.id r →
      p' = (if Taskqueue.Retries permanent r then .idle else .worker (.waking task)) →
      sh'.db.task key = some (Taskqueue.failRow error permanent sh.db.now r) →
      TaskChange sh i p a sh' p' key
  | reclaimed {r} : p = .idle → a = .reclaimExpiredLeases → sh.db.task key = some r →
      Taskqueue.LeaseExpired sh.db.now r → sh'.db.task key = some (Taskqueue.reclaimRow r) →
      TaskChange sh i p a sh' p' key
  | pruned {maxAge r} : p = .janitor (.pruningTasks maxAge) → a = .advance →
      sh.db.task key = some r → r.status = .done ∨ r.status = .failed → sh'.db.task key = none →
      TaskChange sh i p a sh' p' key

theorem task_settle_cases {id : ℕ} {f : QueuedTask → QueuedTask} {db' : Database}
    (h : db'.task key = (db.task key).map fun r => if Taskqueue.Settles id r then f r else r) :
    db'.task key = db.task key ∨
      ∃ r, db.task key = some r ∧ Taskqueue.Settles id r ∧ db'.task key = some (f r) := by
  cases ht : db.task key with
  | none =>
    rw [ht] at h
    exact .inl h
  | some r =>
    rw [ht, Option.map_some] at h
    by_cases hs : Taskqueue.Settles id r
    · rw [if_pos hs] at h
      exact .inr ⟨r, rfl, hs, h⟩
    · rw [if_neg hs] at h
      exact .inl h

/-- Every action changes the task of every key in one of the eight ways. -/
theorem Effect.taskChange (hk : Taskqueue.Keys sh.db) (h : Effect sh i p a sh' p') (key : IdempotencyKey) :
    TaskChange sh i p a sh' p' key := by
  cases h with
  | quiet h => exact .same rfl
  | tick elapsed => exact .same rfl
  | created hf => exact .same rfl
  | ran hr hnx hrun =>
    rename_i dr inv n db result
    have hdb := n.run_db inv.checkpoint.values inv.resumes sh.db
    cases hw : n.write inv.checkpoint.values inv.resumes with
    | none =>
      rw [hrun, hw] at hdb
      cases hdb
      exact .same rfl
    | some w =>
      rw [hw] at hdb
      rw [Option.map_some, Option.getD_some, hrun] at hdb
      cases hdb
      have hp' : dr.driving { inv with result := some result } = dr.driving ⟨inv.checkpoint,
          inv.offered, some (n.run inv.checkpoint.values inv.resumes sh.db).2⟩ := by rw [hrun]
      rcases w.apply_task sh.db key with h | ⟨_, _, _, _, hins, hnone, h⟩ | ⟨_, _, _, r, rfl, hkey,
        hr', hpend, h⟩
      · exact .same h
      · exact .inserted rfl rfl hr hnx hw hp' rfl hins hnone h
      · exact .cancelled rfl rfl hr hnx hw hp' hkey hr' hpend h
  | put hr hnx => exact .same rfl
  | suspended hr => exact .same rfl
  | seeded => exact .same rfl
  | accepted hs =>
    obtain ⟨-, -, rfl, rfl⟩ := Db.addPendingSignalIfWaiting_eq_some hs
    exact .same rfl
  | claimed hs =>
    obtain ⟨r, -, -, -, -, -, rfl⟩ := Db.claimRun_eq_some hs
    exact .same rfl
  | released => exact .same rfl
  | saved => exact .same rfl
  | dequeued hs =>
    obtain ⟨r, hr, hdue, rfl, rfl⟩ := Db.dequeue_eq_some hs
    have he : lookup QueuedTask.idempotencyKey key (updateWhere (·.id = r.id)
        (Db.leaseTask i sh.db.now) sh.db.taskQueue) = _ := lookup_updateWhere fun _ => rfl
    change _ = (sh.db.task key).map _ at he
    cases ht : sh.db.task key with
    | none =>
      rw [ht] at he
      exact .same (he.trans ht.symm)
    | some r' =>
      rw [ht, Option.map_some] at he
      by_cases hid : r'.id = r.id
      · cases eq_of_key hk.ids (Database.task_eq_some ht).1 hr hid
        rw [if_pos rfl] at he
        exact .leased rfl rfl ht hdue rfl he
      · rw [if_neg hid] at he
        exact .same (he.trans ht.symm)
  | refunded => exact .same rfl
  | replied hs =>
    cases hs
    exact .same rfl
  | recorded => exact .same rfl
  | completed hm hs =>
    rename_i task result r
    have hset : (Taskqueue.complete task.id result sh.db).1.task key = _ := task_complete
    rcases task_settle_cases hset with h | ⟨r', hr', hs', h⟩
    · exact .same h
    · exact .completed rfl rfl hr' hs' rfl h rfl
  | failed hm hs hf =>
    rename_i task error permanent r
    have hset : (Taskqueue.fail task.id error permanent sh.db).1.task key = _ := task_fail
    rcases task_settle_cases hset with h | ⟨r', hr', hs', h⟩
    · exact .same h
    · cases eq_of_key hk.ids (Database.task_eq_some hr').1 hm (hs'.1.trans hs.1.symm)
      exact .failed rfl rfl hr' hs' rfl h
  | woken => exact .same rfl
  | reclaimedTasks =>
    have he : (Taskqueue.reclaimExpired sh.db).1.task key = _ := task_reclaimExpired
    cases ht : sh.db.task key with
    | none =>
      rw [ht] at he
      exact .same (he.trans ht.symm)
    | some r =>
      rw [ht, Option.map_some] at he
      by_cases hx : Taskqueue.LeaseExpired sh.db.now r
      · rw [if_pos hx] at he
        exact .reclaimed rfl rfl ht hx he
      · rw [if_neg hx] at he
        exact .same (he.trans ht.symm)
  | reclaimedRuns => exact .same rfl
  | projected => exact .same rfl
  | archived hs =>
    simp only [Db.archiveTerminalRuns] at hs
    split at hs
    · cases hs
    · cases hs
      exact .same rfl
  | deleted => exact .same rfl
  | prunedSignals => exact .same rfl
  | prunedTasks =>
    rename_i maxAge
    have he : (Taskqueue.pruneSettled maxAge sh.db).task key = _ := task_pruneSettled hk
    cases ht : sh.db.task key with
    | none =>
      rw [ht] at he
      exact .same (he.trans ht.symm)
    | some r =>
      rw [ht] at he
      by_cases hx : (r.status = .done ∨ r.status = .failed) ∧ r.enqueuedAt + maxAge < sh.db.now
      · exact .pruned rfl rfl ht hx.1 (he.trans (by simp [Option.filter, hx]))
      · exact .same ((he.trans (by simp [Option.filter, hx])).trans ht.symm)

theorem QueueWrite.apply_keys (w : QueueWrite) (hk : Taskqueue.Keys db) :
    Taskqueue.Keys (w.apply db) := by
  cases w with
  | enqueue queueName taskType workflowId payload key => exact hk.enqueue ..
  | redispatch taskType workflowId payload =>
    have hc : Taskqueue.Keys
        (Taskqueue.cancelPending (.agent workflowId taskType) "redispatched to fallback" db).1 :=
      hk.updateWhere (f := Taskqueue.cancelRow redispatchReason) (fun _ => rfl) (fun _ => rfl) rfl rfl
    simp only [QueueWrite.apply, Graph.redispatchAgentTask]
    revert hc
    generalize Taskqueue.cancelPending (.agent workflowId taskType) "redispatched to fallback" db = r
    obtain ⟨db', _ | _⟩ := r <;> intro hc
    · exact hc
    · exact hc.enqueue ..

theorem Effect.taskKeys (h : Effect sh i p a sh' p') (hk : Taskqueue.Keys sh.db) :
    Taskqueue.Keys sh'.db := by
  cases h with
  | quiet h => exact hk
  | tick elapsed => exact ⟨hk.ids, hk.keys, hk.lt_seq⟩
  | created hf => exact hk
  | ran hr hnx hrun =>
    rename_i dr inv n db result
    have hdb := n.run_db inv.checkpoint.values inv.resumes sh.db
    rw [hrun] at hdb
    change Taskqueue.Keys db
    change db = _ at hdb
    rw [hdb]
    cases n.write inv.checkpoint.values inv.resumes with
    | none => exact hk
    | some w => exact w.apply_keys hk
  | put hr hnx => exact hk
  | suspended hr => exact hk
  | seeded => exact ⟨hk.ids, hk.keys, hk.lt_seq⟩
  | accepted hs =>
    obtain ⟨-, -, rfl, rfl⟩ := Db.addPendingSignalIfWaiting_eq_some hs
    exact ⟨hk.ids, hk.keys, hk.lt_seq⟩
  | claimed hs =>
    obtain ⟨r, -, -, -, -, -, rfl⟩ := Db.claimRun_eq_some hs
    exact ⟨hk.ids, hk.keys, hk.lt_seq⟩
  | released => exact ⟨hk.ids, hk.keys, hk.lt_seq⟩
  | saved => exact ⟨hk.ids, hk.keys, hk.lt_seq⟩
  | dequeued hs =>
    obtain ⟨r, -, -, -, rfl⟩ := Db.dequeue_eq_some hs
    exact hk.updateWhere (f := Db.leaseTask i sh.db.now) (fun _ => rfl) (fun _ => rfl) rfl rfl
  | refunded => exact ⟨hk.ids, hk.keys, hk.lt_seq⟩
  | replied hs =>
    cases hs
    exact ⟨hk.ids, hk.keys, hk.lt_seq⟩
  | recorded => exact ⟨hk.ids, hk.keys, hk.lt_seq⟩
  | completed hm hs =>
    exact hk.updateWhere (f := Taskqueue.completeRow _) (fun _ => rfl) (fun _ => rfl) rfl rfl
  | failed hm hs hf =>
    exact hk.updateWhere (f := Taskqueue.failRow _ _ _) (fun _ => rfl) (fun _ => rfl) rfl rfl
  | woken => exact ⟨hk.ids, hk.keys, hk.lt_seq⟩
  | reclaimedTasks =>
    exact hk.updateWhere (f := Taskqueue.reclaimRow) (fun _ => rfl) (fun _ => rfl) rfl rfl
  | reclaimedRuns => exact ⟨hk.ids, hk.keys, hk.lt_seq⟩
  | projected => exact ⟨hk.ids, hk.keys, hk.lt_seq⟩
  | archived hs =>
    simp only [Db.archiveTerminalRuns] at hs
    split at hs
    · cases hs
    · cases hs
      exact ⟨hk.ids, hk.keys, hk.lt_seq⟩
  | deleted => exact hk
  | prunedSignals => exact ⟨hk.ids, hk.keys, hk.lt_seq⟩
  | prunedTasks => exact hk.pruneSettled _

/-! ## Where a row comes from -/

/-- The columns no update writes. -/
structure QueuedTask.SameTask (r r' : QueuedTask) : Prop where
  id : r'.id = r.id
  queue : r'.queueName = r.queueName
  type : r'.taskType = r.taskType
  workflow : r'.workflowId = r.workflowId
  payload : r'.payload = r.payload
  key : r'.idempotencyKey = r.idempotencyKey

/-- A node of the graph `p` drives has just inserted the row. -/
inductive Inserted (sh : Shared) (p : Proc) (sh' : Shared) (key : IdempotencyKey) : QueuedTask → Prop
  | node {dr : Driver} {inv : Invocation} {n w queueName taskType workflowId payload} :
      p = dr.driving inv → inv.checkpoint.next = some n →
      n.write inv.checkpoint.values inv.resumes = some w →
      w.Inserts sh.db key queueName taskType workflowId payload →
      sh'.log = .ran inv.checkpoint.threadId n inv.checkpoint.values inv.resumes :: sh.log →
      Inserted sh p sh' key (Taskqueue.newTask sh.db.taskQueueSeq queueName taskType workflowId
        payload key 3 none sh.db.now)

/-- A row is an old one with its task unchanged, or a node has just inserted it. -/
theorem TaskChange.origin {r' : QueuedTask} (h : TaskChange sh i p a sh' p' key)
    (hr' : sh'.db.task key = some r') :
    (∃ r, sh.db.task key = some r ∧ r.SameTask r') ∨ Inserted sh p sh' key r' := by
  have old : ∀ {f : QueuedTask → QueuedTask} {r : QueuedTask}, sh.db.task key = some r →
      sh'.db.task key = some (f r) → r.SameTask (f r) →
      ∃ r, sh.db.task key = some r ∧ r.SameTask r' := by
    intro f r hr hf hsame
    rw [hr'] at hf
    cases hf
    exact ⟨r, hr, hsame⟩
  cases h with
  | same he =>
    rw [hr'] at he
    exact .inl ⟨r', he.symm, ⟨rfl, rfl, rfl, rfl, rfl, rfl⟩⟩
  | inserted hp ha hr hn hw hp' hlog hins hnone he =>
    rw [hr'] at he
    cases he
    exact .inr (.node hp hn hw hins hlog)
  | cancelled hp ha hr hn hw hp' hkey ht hpend he =>
    exact .inl (old (f := Taskqueue.cancelRow redispatchReason) ht he ⟨rfl, rfl, rfl, rfl, rfl, rfl⟩)
  | leased hp ha ht hdue hp' he =>
    exact .inl (old (f := Db.leaseTask i sh.db.now) ht he ⟨rfl, rfl, rfl, rfl, rfl, rfl⟩)
  | completed hp ha ht hs hp' he hlog =>
    exact .inl (old (f := Taskqueue.completeRow _) ht he ⟨rfl, rfl, rfl, rfl, rfl, rfl⟩)
  | failed hp ha ht hs hp' he =>
    exact .inl (old (f := Taskqueue.failRow _ _ _) ht he ⟨rfl, rfl, rfl, rfl, rfl, rfl⟩)
  | reclaimed hp ha ht hx he =>
    exact .inl (old (f := Taskqueue.reclaimRow) ht he ⟨rfl, rfl, rfl, rfl, rfl, rfl⟩)
  | pruned hp ha ht hst he =>
    rw [hr'] at he
    cases he

/-- The process is about to commit `prune_settled`. -/
def Proc.prunes : Proc → Bool
  | .janitor (.pruningTasks _) => true
  | _ => false

theorem Proc.prunes_eq_false (h : ¬ p.Sweeping) : p.prunes = false := by
  unfold Proc.prunes
  split
  · exact absurd trivial h
  · rfl

theorem TaskChange.kept {r : QueuedTask} (h : TaskChange sh i p a sh' p' key)
    (hp : a = .advance → p.prunes = false) (hr : sh.db.task key = some r) :
    ∃ r', sh'.db.task key = some r' ∧ r.SameTask r' := by
  cases h with
  | same he => exact ⟨r, he.trans hr, ⟨rfl, rfl, rfl, rfl, rfl, rfl⟩⟩
  | inserted hp ha hr₀ hn hw hp' hlog hins hnone he =>
    rw [hr] at hnone
    cases hnone
  | cancelled hp ha hr₀ hn hw hp' hkey ht hpend he =>
    cases hr.symm.trans ht
    exact ⟨_, he, ⟨rfl, rfl, rfl, rfl, rfl, rfl⟩⟩
  | leased hp ha ht hdue hp' he =>
    cases hr.symm.trans ht
    exact ⟨_, he, ⟨rfl, rfl, rfl, rfl, rfl, rfl⟩⟩
  | completed hp ha ht hs hp' he hlog =>
    cases hr.symm.trans ht
    exact ⟨_, he, ⟨rfl, rfl, rfl, rfl, rfl, rfl⟩⟩
  | failed hp ha ht hs hp' he =>
    cases hr.symm.trans ht
    exact ⟨_, he, ⟨rfl, rfl, rfl, rfl, rfl, rfl⟩⟩
  | reclaimed hp ha ht hx he =>
    cases hr.symm.trans ht
    exact ⟨_, he, ⟨rfl, rfl, rfl, rfl, rfl, rfl⟩⟩
  | pruned hp₀ ha ht hst he =>
    have hno := hp ha
    rw [hp₀] at hno
    cases hno

theorem QueueWrite.seq_le (w : QueueWrite) (db : Database) :
    db.taskQueueSeq ≤ (w.apply db).taskQueueSeq := by
  have enqueue_le : ∀ queueName taskType workflowId payload key (db : Database),
      db.taskQueueSeq ≤
        (Taskqueue.enqueue queueName taskType workflowId payload key db).1.taskQueueSeq := by
    intro queueName taskType workflowId payload key db
    rcases Taskqueue.enqueue_cases queueName taskType workflowId payload key db 3 none with
      ⟨-, h⟩ | ⟨-, h⟩ <;> rw [h]
    exact Nat.le_succ _
  cases w with
  | enqueue queueName taskType workflowId payload key => exact enqueue_le ..
  | redispatch taskType workflowId payload =>
    have hc : db.taskQueueSeq = (Taskqueue.cancelPending (.agent workflowId taskType)
        "redispatched to fallback" db).1.taskQueueSeq := rfl
    simp only [QueueWrite.apply, Graph.redispatchAgentTask]
    rw [hc]
    generalize Taskqueue.cancelPending (.agent workflowId taskType) "redispatched to fallback" db = r
    obtain ⟨db', _ | _⟩ := r
    · exact le_rfl
    · exact enqueue_le ..

theorem Effect.seq_le (h : Effect sh i p a sh' p') : sh.db.taskQueueSeq ≤ sh'.db.taskQueueSeq := by
  cases h with
  | ran hr hnx hrun =>
    rename_i dr inv n db result
    have hdb := n.run_db inv.checkpoint.values inv.resumes sh.db
    rw [hrun] at hdb
    change _ ≤ db.taskQueueSeq
    change db = _ at hdb
    rw [hdb]
    cases n.write inv.checkpoint.values inv.resumes with
    | none => exact le_rfl
    | some w => exact w.seq_le sh.db
  | accepted hs =>
    obtain ⟨-, -, rfl, rfl⟩ := Db.addPendingSignalIfWaiting_eq_some hs
    exact le_rfl
  | claimed hs =>
    obtain ⟨r, -, -, -, -, -, rfl⟩ := Db.claimRun_eq_some hs
    exact le_rfl
  | dequeued hs =>
    obtain ⟨r, -, -, -, rfl⟩ := Db.dequeue_eq_some hs
    exact le_rfl
  | replied hs =>
    cases hs
    exact le_rfl
  | archived hs =>
    simp only [Db.archiveTerminalRuns] at hs
    split at hs
    · cases hs
    · cases hs
      exact le_rfl
  | _ => exact le_rfl

end TicketFlow
