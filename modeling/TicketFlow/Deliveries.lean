import TicketFlow.TaskTable

/-! # Tasks and their deliveries

A task carries what its key promises, a worker holds a copy of it, and what the worker stores fits
it. Before any retention sweep the row a delivery came from is still there. -/

namespace TicketFlow
open Table
set_option autoImplicit false

/-! ## What a key promises -/

/-- The payloads a stage enqueues for a ticket. -/
def PayloadFor (t : TicketId) : TaskType → TaskPayload → Prop
  | .classify, .classify ticket => ticket.id = t
  | .draft, .draft ticket _ => ticket.id = t
  | .finalizeTicket, .finalize ticket _ result => ticket.id = t ∧ result.ticketId = t
  | _, _ => False

/-- The results a stage stores for a ticket. -/
def ResultFor (t : TicketId) : TaskType → TaskResult → Prop
  | .classify, .classification _ => True
  | .draft, .draft _ => True
  | .finalizeTicket, .terminal result => result.ticketId = t
  | _, _ => False

/-- The ticket, stage and queue of a key. -/
def IdempotencyKey.ticket : IdempotencyKey → TicketId
  | .agent t _ | .fallback t _ | .finalize t => t

def IdempotencyKey.taskType : IdempotencyKey → TaskType
  | .agent _ ty | .fallback _ ty => ty
  | .finalize _ => .finalizeTicket

def IdempotencyKey.queue : IdempotencyKey → QueueName
  | .agent _ _ => .agentTaskQueue
  | .fallback _ _ => .fallbackTaskQueue
  | .finalize _ => .taskQueue

/-- The agent stages are classify and draft. -/
def IdempotencyKey.Proper : IdempotencyKey → Prop
  | .agent _ ty | .fallback _ ty => ty ≠ .finalizeTicket
  | .finalize _ => True

/-- The columns a task is inserted with are those of its key. -/
structure QueuedTask.Typed (r : QueuedTask) : Prop where
  proper : r.idempotencyKey.Proper
  queue : r.queueName = r.idempotencyKey.queue
  type : r.taskType = r.idempotencyKey.taskType
  workflow : r.workflowId = r.idempotencyKey.ticket
  payload : PayloadFor r.workflowId r.taskType r.payload

/-- The result, if there is one, is the task's own, and only a done task has one. -/
structure QueuedTask.Answered (r : QueuedTask) : Prop where
  fits : ∀ result ∈ r.result, ResultFor r.workflowId r.taskType result
  done : r.result.isSome ↔ r.status = .done

variable {sh sh' : Shared} {i : WorkerId} {p p' : Proc} {a : Action} {t : TicketId}
  {r : QueuedTask} {db : Database} {key : IdempotencyKey}

/-- The finalize tasks are the ones the side-effect worker drains. -/
theorem QueuedTask.Typed.runsFinalize_iff (h : r.Typed) :
    Worker.runsFinalize r ↔ r.taskType = .finalizeTicket := by
  unfold Worker.runsFinalize
  rw [h.queue, h.type]
  have hp := h.proper
  cases hk : r.idempotencyKey with
  | agent t ty =>
    rw [hk] at hp
    exact ⟨fun h => (nomatch h), fun h => absurd h hp⟩
  | fallback t ty =>
    rw [hk] at hp
    exact ⟨fun h => (nomatch h), fun h => absurd h hp⟩
  | finalize t => exact ⟨fun _ => rfl, fun _ => rfl⟩

/-! ## What a node inserts -/

/-- Every write of a node is typed. -/
def QueueWrite.Typed : QueueWrite → Prop
  | .enqueue queueName taskType workflowId payload key =>
    key.Proper ∧ queueName = key.queue ∧ taskType = key.taskType ∧ workflowId = key.ticket ∧
      PayloadFor workflowId taskType payload
  | .redispatch taskType workflowId payload =>
    taskType ≠ .finalizeTicket ∧ PayloadFor workflowId taskType payload

theorem awaitWrite_typed {taskType : TaskType} {payload : TaskPayload} {resumes : List Resume}
    {w : QueueWrite} (hty : taskType ≠ .finalizeTicket) (hp : PayloadFor t taskType payload)
    (h : awaitWrite taskType t payload resumes = some w) : w.Typed := by
  unfold awaitWrite at h
  split at h
  · cases h
    exact ⟨hty, hp⟩
  · cases h

theorem Node.write_typed {n : Node} {s : TicketState} {resumes : List Resume} {w : QueueWrite}
    (h : n.write s resumes = some w) : w.Typed := by
  cases n with
  | dispatchClassify =>
    cases h
    exact ⟨(nomatch ·), rfl, rfl, rfl, rfl⟩
  | awaitClassify =>
    have hp : PayloadFor s.ticket.id .classify (.classify s.ticket) := rfl
    exact awaitWrite_typed (by decide) hp h
  | dispatchDraft =>
    obtain ⟨c, -, rfl⟩ := Option.map_eq_some_iff.mp h
    exact ⟨(nomatch ·), rfl, rfl, rfl, rfl⟩
  | awaitDraft =>
    obtain ⟨c, -, hw⟩ := Option.bind_eq_some_iff.mp h
    have hp : PayloadFor s.ticket.id .draft (.draft s.ticket c) := rfl
    exact awaitWrite_typed (by decide) hp hw
  | decideApproval => cases h
  | prepareApproval => cases h
  | awaitApproval => cases h
  | execute =>
    obtain ⟨reply, -, h⟩ := Option.bind_eq_some_iff.mp h
    obtain ⟨c, -, rfl⟩ := Option.map_eq_some_iff.mp h
    exact ⟨trivial, rfl, rfl, rfl, rfl, rfl⟩

theorem QueueWrite.Inserts.typed {w : QueueWrite} {queueName : QueueName} {taskType : TaskType}
    {workflowId : TicketId} {payload : TaskPayload} (hw : w.Typed)
    (h : w.Inserts db key queueName taskType workflowId payload) (id : ℕ) (now : Time) :
    (Taskqueue.newTask id queueName taskType workflowId payload key 3 none now).Typed := by
  cases h with
  | enqueue =>
    obtain ⟨hp, hq, hty, hwf, hpay⟩ := hw
    exact ⟨hp, hq, hty, hwf, hpay⟩
  | redispatch hk hr hrk hrp =>
    subst hk
    exact ⟨hw.1, rfl, rfl, rfl, hw.2⟩

theorem Inserted.typed {r : QueuedTask} (h : Inserted sh p sh' key r) : r.Typed := by
  cases h with
  | node hp hn hw hins hlog => exact hins.typed (Node.write_typed hw) _ _

theorem Inserted.id {r : QueuedTask} (h : Inserted sh p sh' key r) : r.id = sh.db.taskQueueSeq := by
  cases h with
  | node hp hn hw hins hlog => rfl

/-! ## The rows -/

/-- Every row of the queue is typed, and its result fits. -/
structure TasksSound (db : Database) : Prop where
  keys : Taskqueue.Keys db
  typed : ∀ r ∈ db.taskQueue, r.Typed
  answered : ∀ r ∈ db.taskQueue, r.Answered

theorem TasksSound.runs (h : TasksSound db) (rows : List WorkflowRun) :
    TasksSound { db with workflowRun := rows } :=
  ⟨⟨h.keys.ids, h.keys.keys, h.keys.lt_seq⟩, h.typed, h.answered⟩

theorem TasksSound.of_task (h : TasksSound db) (hr : db.task key = some r) : r.Typed ∧ r.Answered :=
  have hm := (Database.task_eq_some hr).1
  ⟨h.typed r hm, h.answered r hm⟩

/-! ## The deliveries -/

/-- The delivery a worker works on, and whose run it wakes. -/
def Worker.Pc.task : Worker.Pc → Option QueuedTask
  | .leased task | .refunding task _ _ | .checking task _ | .replying task _ _ | .recording task _
  | .completing task _ | .failing task _ _ | .waking task => some task

/-- The result a worker is about to store. -/
def Worker.Pc.output : Worker.Pc → Option TaskResult
  | .refunding _ _ result | .checking _ result | .replying _ result _ | .recording _ result =>
    some (.terminal result)
  | .completing _ result => some result
  | .leased _ | .failing _ _ _ | .waking _ => none

/-- The delivery is a copy of a typed row, and the result fits it. -/
def Worker.Pc.Typed (pc : Worker.Pc) : Prop :=
  ∀ task ∈ pc.task, task.Typed ∧ ∀ result ∈ pc.output, ResultFor task.workflowId task.taskType result

/-- The moves that lead to a worker's pc. -/
inductive WorkerMove (sh : Shared) (i : WorkerId) : Proc → Action → Shared → Worker.Pc → Prop
  | stay {pc elapsed} : WorkerMove sh i (.worker pc) (.tick elapsed)
      (sh.commit { sh.db with now := sh.db.now + elapsed }) pc
  | leased {queueName locked db task} : Db.dequeue queueName i locked sh.db = (db, some task) →
      WorkerMove sh i .idle (.dequeue queueName locked) (sh.commit db) (.leased task)
  | answered {task result} : ¬ Worker.runsFinalize task → Worker.Answers task result →
      WorkerMove sh i (.worker (.leased task)) (.activityReturns result) sh (.completing task result)
  | raises {pc : Worker.Pc} {task error permanent} : pc.activity = some task →
      WorkerMove sh i (.worker pc) (.activityRaises error permanent) sh
        (.failing task error permanent)
  | started {task} : Worker.runsFinalize task →
      WorkerMove sh i (.worker (.leased task)) .advance sh (Worker.startFinalize task)
  | checked {task result} : WorkerMove sh i (.worker (.checking task result)) .advance sh
      (.replying task result (Ledger.refundRecorded task.payload.ticket.id sh.db))
  | refunded {task : QueuedTask} {amount result} :
      WorkerMove sh i (.worker (.refunding task amount result)) .advance
        (sh.record (Ledger.recordRefund task.payload.ticket.id amount task.attempts sh.db).1
          (.recordedRefund task.payload
            (Ledger.recordRefund task.payload.ticket.id amount task.attempts sh.db).2))
        (.checking task result)
  | replied {task : QueuedTask} {result : TicketResult} {flag} {sh' : Shared} :
      sh.log <:+ sh'.log → WorkerMove sh i (.worker (.replying task result flag)) .advance sh'
        (.recording task { result with refundExecuted := flag })
  | recorded {task : QueuedTask} {result} :
      WorkerMove sh i (.worker (.recording task result)) .advance
        (sh.record (Readmodel.saveResult result sh.db) (.savedResult task.payload result))
        (.completing task (.terminal result))
  | settled {pc : Worker.Pc} {task : QueuedTask} {sh' : Shared} : pc.task = some task → pc.activity = none →
      WorkerMove sh i (.worker pc) .advance sh' (.waking task)

theorem Effect.workerMove {pc : Worker.Pc} (h : Effect sh i p a sh' (.worker pc)) :
    WorkerMove sh i p a sh' pc := by
  generalize hp' : Proc.worker pc = p' at h
  cases h with
  | quiet h =>
    cases h with
    | @ended dr inv hr hn => cases dr <;> cases hp'
    | answered hf hans => cases hp'; exact .answered hf hans
    | raises ht hperm => cases hp'; exact .raises ht
    | started hf => cases hp'; exact .started hf
    | checked => cases hp'; exact .checked
    | _ => cases hp'
  | tick elapsed => subst hp'; exact .stay
  | @ran dr inv n db result hr hn hrun => cases dr <;> cases hp'
  | @put dr inv values next hr hn => cases dr <;> cases hp'
  | @suspended dr inv env hr => cases dr <;> cases hp'
  | dequeued hs => cases hp'; exact .leased hs
  | refunded => cases hp'; exact .refunded
  | replied hs => cases hp'; exact .replied (List.suffix_cons ..)
  | recorded => cases hp'; exact .recorded
  | completed hm hs => cases hp'; exact .settled rfl rfl
  | failed hm hs hf =>
    split at hp'
    · cases hp'
    · cases hp'; exact .settled rfl rfl
  | _ => cases hp'

/-! ## The invariant -/

/-- The delivery is a copy of a row: the row of its id, while it exists, is the same task. -/
def Worker.Pc.Copy (db : Database) (pc : Worker.Pc) : Prop :=
  ∀ task ∈ pc.task, task.id < db.taskQueueSeq ∧ ∀ r ∈ db.taskQueue, r.id = task.id → r.SameTask task

/-- What holds of a process that works on a delivery. -/
def DeliverySound (sh : Shared) (p : Proc) : Prop :=
  ∀ pc, p = .worker pc → pc.Typed ∧ pc.Copy sh.db

theorem QueuedTask.SameTask.symm {r r' : QueuedTask} (h : r.SameTask r') : r'.SameTask r :=
  ⟨h.id.symm, h.queue.symm, h.type.symm, h.workflow.symm, h.payload.symm, h.key.symm⟩

theorem QueuedTask.SameTask.trans {r r' r'' : QueuedTask} (h : r.SameTask r') (h' : r'.SameTask r'') :
    r.SameTask r'' :=
  ⟨h'.id.trans h.id, h'.queue.trans h.queue, h'.type.trans h.type, h'.workflow.trans h.workflow,
    h'.payload.trans h.payload, h'.key.trans h.key⟩

theorem QueuedTask.SameTask.typed {r r' : QueuedTask} (h : r.SameTask r') (hr : r.Typed) :
    r'.Typed where
  proper := h.key ▸ hr.proper
  queue := h.queue.trans (h.key ▸ hr.queue)
  type := h.type.trans (h.key ▸ hr.type)
  workflow := h.workflow.trans (h.key ▸ hr.workflow)
  payload := by
    rw [h.workflow, h.type, h.payload]
    exact hr.payload

theorem Worker.Pc.Copy.effect {pc : Worker.Pc} (hk : Taskqueue.Keys sh.db)
    (h : Effect sh i p a sh' p') (hc : pc.Copy sh.db) : pc.Copy sh'.db := by
  intro task ht
  obtain ⟨hlt, hrow⟩ := hc task ht
  refine ⟨hlt.trans_le h.seq_le, fun r hr hid => ?_⟩
  rcases (h.taskChange hk r.idempotencyKey).origin (task_of_mem (h.taskKeys hk) hr) with
    ⟨r₀, hr₀, hsame⟩ | hins
  · exact hsame.symm.trans (hrow r₀ (Database.task_eq_some hr₀).1 (hsame.id.symm.trans hid))
  · rw [← hid, hins.id] at hlt
    exact absurd hlt (Nat.lt_irrefl _)

/-- What the row of a settling call and the delivery have in common. -/
theorem Worker.Pc.Copy.settles {pc : Worker.Pc} {task : QueuedTask} (hc : pc.Copy db)
    (ht : pc.task = some task) (hr : db.task key = some r) (hs : Taskqueue.Settles task.id r) :
    r.SameTask task :=
  (hc task ht).2 r (Database.task_eq_some hr).1 hs.1

theorem QueuedTask.Answered.unsettled (hr : r.Answered) (hst : r.status ≠ .done) : r.result = none := by
  cases hres : r.result with
  | none => rfl
  | some result => exact absurd (hr.done.mp (by rw [hres]; rfl)) hst

theorem QueuedTask.Answered.of_none (hres : r.result = none) (hst : r.status ≠ .done) : r.Answered where
  fits result h := by
    rw [hres] at h
    cases h
  done := by
    rw [hres]
    exact ⟨fun h => (nomatch h), fun h => absurd h hst⟩

theorem TasksSound.effect (hI : TasksSound sh.db) (hJ : DeliverySound sh p)
    (h : Effect sh i p a sh' p') : TasksSound sh'.db := by
  have hk' := h.taskKeys hI.keys
  refine ⟨hk', fun r hr => ?_, fun r hr => ?_⟩
  · rcases (h.taskChange hI.keys r.idempotencyKey).origin (task_of_mem hk' hr) with
      ⟨r₀, hr₀, hsame⟩ | hins
    · exact hsame.typed (hI.of_task hr₀).1
    · exact hins.typed
  · have hr' := task_of_mem hk' hr
    cases h.taskChange hI.keys r.idempotencyKey with
    | same he =>
      rw [hr'] at he
      exact (hI.of_task he.symm).2
    | inserted hp ha hr₀ hn hw hp' hlog hins hnone he =>
      rw [hr'] at he
      have heq := Option.some.inj he
      exact .of_none (by rw [heq]; rfl) (by rw [heq]; exact fun he => by cases he)
    | cancelled hp ha hr₀ hn hw hp' hkey ht hpend he =>
      rw [hr'] at he
      cases he
      exact .of_none ((hI.of_task ht).2.unsettled (by rw [hpend]; decide)) (fun he => by cases he)
    | leased hp ha ht hdue hp' he =>
      rw [hr'] at he
      cases he
      exact .of_none ((hI.of_task ht).2.unsettled (by rw [hdue.2.1]; decide)) (fun he => by cases he)
    | completed hp ha ht hs hp' he hlog =>
      rename_i task result r₀
      rw [hr'] at he
      cases he
      obtain ⟨htyped, hcopy⟩ := hJ _ hp
      have hsame := hcopy.settles rfl ht hs
      refine ⟨?_, fun _ => rfl, fun _ => rfl⟩
      rintro _ ⟨⟩
      have hfit := (htyped task rfl).2 result rfl
      rw [hsame.workflow, hsame.type] at hfit
      exact hfit
    | failed hp ha ht hs hp' he =>
      rename_i task error permanent r₀
      rw [hr'] at he
      cases he
      refine .of_none ((hI.of_task ht).2.unsettled (by rw [hs.2]; decide)) ?_
      simp only [Taskqueue.failRow]
      split <;> decide
    | reclaimed hp ha ht hx he =>
      rw [hr'] at he
      cases he
      exact .of_none ((hI.of_task ht).2.unsettled (by rw [hx.1]; decide)) (fun he => by cases he)
    | pruned hp ha ht hst he =>
      rw [hr'] at he
      cases he

theorem startFinalize_typed {task : QueuedTask} (ht : task.Typed) :
    (Worker.startFinalize task).Typed ∧ ∀ u ∈ (Worker.startFinalize task).task, u = task := by
  have failing : ∀ error, Worker.Pc.Typed (.failing task error false) :=
    fun error u hu => ⟨Option.some.inj hu ▸ ht, fun _ hr => nomatch hr⟩
  unfold Worker.startFinalize
  by_cases hty : task.taskType = .finalizeTicket
  · rw [if_neg (not_not.mpr hty)]
    have hpay := ht.payload
    rw [hty] at hpay
    have working : ∀ pc : Worker.Pc, pc.task = some task →
        (∀ result ∈ pc.output, ResultFor task.workflowId .finalizeTicket result) → pc.Typed := by
      intro pc hpc hout u hu
      rw [hpc] at hu
      cases hu
      exact ⟨ht, hty ▸ hout⟩
    cases hp : task.payload with
    | classify ticket => rw [hp] at hpay; exact hpay.elim
    | draft ticket c => rw [hp] at hpay; exact hpay.elim
    | finalize ticket action result =>
      rw [hp] at hpay
      simp only [TaskPayload.action, TaskPayload.result]
      have hout : ∀ x ∈ some (TaskResult.terminal result),
          ResultFor task.workflowId .finalizeTicket x := fun x hx => Option.some.inj hx ▸ hpay.2
      split
      · split
        · exact ⟨working _ rfl hout, fun u hu => (Option.some.inj hu).symm⟩
        · exact ⟨failing _, fun u hu => (Option.some.inj hu).symm⟩
      · exact ⟨working _ rfl hout, fun u hu => (Option.some.inj hu).symm⟩
  · rw [if_pos hty]
    exact ⟨failing _, fun u hu => (Option.some.inj hu).symm⟩

theorem DeliverySound.effect (hI : TasksSound sh.db) (hJ : DeliverySound sh p)
    (h : Effect sh i p a sh' p') : DeliverySound sh' p' := by
  rintro pc rfl
  have keep : ∀ {pc₀ : Worker.Pc}, p = .worker pc₀ → (∀ u ∈ pc.task, pc₀.task = some u) →
      pc.Copy sh'.db := by
    intro pc₀ hp hsub
    refine Worker.Pc.Copy.effect hI.keys h fun u hu => ?_
    exact (hJ pc₀ hp).2 u (hsub u hu)
  cases h.workerMove with
  | stay => exact ⟨(hJ pc rfl).1, keep rfl fun u hu => hu⟩
  | leased hs =>
    rename_i queueName locked db task
    obtain ⟨r, hr, hdue, rfl, rfl⟩ := Db.dequeue_eq_some hs
    refine ⟨?_, ?_⟩
    · rintro _ ⟨⟩
      have hsame : r.SameTask (Db.leaseTask i sh.db.now r) := ⟨rfl, rfl, rfl, rfl, rfl, rfl⟩
      exact ⟨hsame.typed (hI.typed r hr), fun _ hx => nomatch hx⟩
    · refine Worker.Pc.Copy.effect hI.keys h ?_
      rintro _ ⟨⟩
      refine ⟨hI.keys.lt_seq r hr, fun r' hr' hid => ?_⟩
      cases eq_of_key hI.keys.ids hr' hr hid
      exact ⟨rfl, rfl, rfl, rfl, rfl, rfl⟩
  | answered hf hans =>
    rename_i task result
    refine ⟨?_, keep rfl fun u hu => hu⟩
    rintro _ ⟨⟩
    have ht := ((hJ _ rfl).1 task rfl).1
    refine ⟨ht, ?_⟩
    rintro _ ⟨⟩
    cases result with
    | classification c => rw [show task.taskType = .classify from hans]; trivial
    | draft d => rw [hans.1]; trivial
    | terminal x => exact hans.elim
  | raises ht =>
    rename_i pc₀ task error permanent
    have htask : pc₀.task = some task := by
      cases pc₀ <;> first | exact ht | cases ht
    refine ⟨?_, keep rfl fun u hu => Option.some.inj hu ▸ htask⟩
    rintro _ ⟨⟩
    exact ⟨((hJ _ rfl).1 task htask).1, fun _ hx => nomatch hx⟩
  | started hf =>
    rename_i task
    have ht := ((hJ _ rfl).1 task rfl).1
    obtain ⟨htyped, hsub⟩ := startFinalize_typed ht
    exact ⟨htyped, keep rfl fun u hu => congrArg some (hsub u hu).symm⟩
  | checked => exact ⟨fun u hu => (hJ _ rfl).1 u hu, keep rfl fun u hu => hu⟩
  | refunded => exact ⟨fun u hu => (hJ _ rfl).1 u hu, keep rfl fun u hu => hu⟩
  | replied hlog =>
    rename_i task result flag
    refine ⟨?_, keep rfl fun u hu => hu⟩
    rintro _ ⟨⟩
    obtain ⟨ht, hout⟩ := (hJ _ rfl).1 task rfl
    refine ⟨ht, ?_⟩
    rintro _ ⟨⟩
    have hfit := hout _ rfl
    revert hfit
    cases task.taskType <;> exact id
  | recorded => exact ⟨fun u hu => (hJ _ rfl).1 u hu, keep rfl fun u hu => hu⟩
  | settled ht hact =>
    rename_i pc₀ task
    refine ⟨?_, keep rfl fun u hu => Option.some.inj hu ▸ ht⟩
    rintro _ ⟨⟩
    exact ⟨((hJ _ rfl).1 task ht).1, fun _ hx => nomatch hx⟩

/-- In every reachable world the rows are typed and the deliveries are copies of them. -/
theorem World.Reachable.tasks {w : World} (hw : World.Reachable w) :
    TasksSound w.shared.db ∧ ∀ i, DeliverySound w.shared (w.procs i) := by
  refine World.ReachableWhen.invariant (I := fun sh => TasksSound sh.db)
    (J := fun sh _ p => DeliverySound sh p) ?_ ?_ ?_ hw
  · exact ⟨.empty, fun _ hr => (nomatch hr), fun _ hr => (nomatch hr)⟩
  · exact fun j pc h => nomatch h
  · intro w i a sh' p' _ _ hI hJ he
    refine ⟨hI.effect (hJ i) he, (hJ i).effect hI he, fun j _ pc hpc => ?_⟩
    obtain ⟨htyped, hcopy⟩ := hJ j pc hpc
    exact ⟨htyped, hcopy.effect hI.keys he⟩

end TicketFlow
