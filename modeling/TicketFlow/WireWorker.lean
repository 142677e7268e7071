import TicketFlow.Deliveries
import TicketFlow.WireRunner

/-! # The workers on dicts

The two routers as they take a task's JSON payload apart, and `complete` as it stores a dumped
result. -/

namespace TicketFlow.Wire
open JsonFormat Table Interleaving
set_option autoImplicit false

variable (S : Spelling)

/-- `Model.model_validate(payload[name])`; the error is the text of the exception where the member
is missing. -/
def member {α : Type} (r : Record α) (name : String) (payload : Json) : Except String α :=
  match payload.get? name with
  | none => .error ("'" ++ name ++ "'")
  | some j => match r.validate j with
    | none => .error "validation"
    | some a => .ok a

/-- What `_run_activity` hands to the agent. -/
def runActivity (task : Task) : Except String (Ticket × Option Classification) :=
  if task.taskType = "classify" then do
    let ticket ← member (ticket S) "ticket" task.payload
    return (ticket, none)
  else if task.taskType = "draft" then do
    let ticket ← member (ticket S) "ticket" task.payload
    let c ← member classification "classification" task.payload
    return (ticket, some c)
  else .error ("unexpected agent task_type '" ++ task.taskType ++ "'")

/-- What `run_finalize` works with. -/
def runFinalize (task : Task) : Except String (Ticket × ProposedAction × TicketResult) :=
  if task.taskType ≠ "finalize_ticket" then
    .error ("unexpected side-effect task_type '" ++ task.taskType ++ "'")
  else do
    let ticket ← member (ticket S) "ticket" task.payload
    let action ← member proposedAction "action" task.payload
    let result ← member (ticketResult S) "result" task.payload
    return (ticket, action, result)

/-- How `run_finalize` goes on, or which exception fails the task. -/
def finalizeFrom (r : QueuedTask) :
    Except String (Ticket × ProposedAction × TicketResult) → Worker.Pc
  | .error e => .failing r e false
  | .ok (_, action, result) =>
    if result.status = .resolved ∧ action.type = .refund then
      match action.refundAmount with
      | some amount => .refunding r amount result
      | none => .failing r "" false
    else .replying r result false

/-- The columns `complete` writes. -/
def completeRow (result : Json) (r : Task) : Task :=
  { r with
    status := "done"
    result := some result
    error := none
    leaseOwner := none
    leaseExpiresAt := none }

def complete (taskId : ℕ) (result : Json) (tb : Tables) : Tables × Option String :=
  ({ tb with
      taskQueue := updateWhere (fun r => r.id = taskId ∧ r.status = "leased") (completeRow result)
        tb.taskQueue },
    (tb.taskQueue.find? fun r => r.id = taskId ∧ r.status = "leased").map
      fun r => (completeRow result r).status)

variable {S} {w : World} {r : QueuedTask} {α : Type}

theorem member_of_get? {rec : Record α} {name : String} {j : Json} {a : α}
    (h : j.get? name = some (rec.dump a)) : member rec name j = .ok a := by
  simp [member, h]

theorem member_missing {rec : Record α} {name : String} {j : Json} (h : j.get? name = none) :
    member rec name j = .error ("'" ++ name ++ "'") := by
  simp [member, h]

theorem member_ticket (p : TaskPayload) :
    member (ticket S) "ticket" (payload S p) = .ok p.ticket := by
  cases p <;> exact member_of_get? (by simp [payload, TaskPayload.ticket])

/-- `run_finalize` starts the way it does on the JSON payload, with the errors it has there. -/
theorem startFinalize_task (r : QueuedTask) :
    Worker.startFinalize r = finalizeFrom r (runFinalize S (task S r)) := by
  unfold Worker.startFinalize runFinalize
  have htype : (task S r).taskType ≠ "finalize_ticket" ↔ r.taskType ≠ .finalizeTicket := by
    cases hty : r.taskType <;> simp [task, hty, TaskType.text]
  by_cases h : r.taskType ≠ .finalizeTicket
  · rw [if_pos h, if_pos (htype.mpr h)]
    rfl
  · rw [if_neg h, if_neg (mt htype.mp h)]
    have hpayload : (task S r).payload = payload S r.payload := rfl
    rw [hpayload, member_ticket]
    cases hp : r.payload with
    | classify t =>
      rw [member_missing (by simp [payload])]
      rfl
    | draft t c =>
      rw [member_missing (by simp [payload])]
      rfl
    | finalize t action result =>
      have haction : member proposedAction "action" (payload S (.finalize t action result)) =
          .ok action := member_of_get? (by simp [payload])
      have hresult : member (ticketResult S) "result" (payload S (.finalize t action result)) =
          .ok result := member_of_get? (by simp [payload])
      rw [haction, hresult]
      rfl

theorem complete_tables (id : ℕ) (result : TaskResult) (db : Database) :
    complete id (taskResult S result) (tables S db) =
      (tables S (Taskqueue.complete id result db).1,
        (Taskqueue.complete id result db).2.map TaskStatus.value) := by
  have hrow : ∀ r : QueuedTask, ((task S r).id = id ∧ (task S r).status = "leased") ↔
      Taskqueue.Settles id r := by
    intro r
    have hstatus : (task S r).status = TaskStatus.leased.value ↔ r.status = .leased :=
      TaskStatus.value_inj
    exact and_congr_right fun _ => hstatus
  have hrows : updateWhere (fun r : Task => r.id = id ∧ r.status = "leased")
      (completeRow (taskResult S result)) (db.taskQueue.map (task S)) =
        (updateWhere (Taskqueue.Settles id) (Taskqueue.completeRow result) db.taskQueue).map
          (task S) :=
    updateWhere_image (fun r _ => hrow r) fun r _ _ => rfl
  refine Prod.ext ?_ ?_
  · simp only [complete, Taskqueue.complete, tables, hrows]
  · simp only [complete, Taskqueue.complete, tables, List.find?_map, Function.comp_def, hrow,
      Option.map_map]
    rfl

/-! ## What is stored -/

/-- The router that drains the task's queue takes its payload apart without an exception, and what it
finds is the ticket's own. -/
inductive Decodes (S : Spelling) (r : QueuedTask) : Prop
  | finalize {action : ProposedAction} {result : TicketResult} : r.queueName = .taskQueue →
      runFinalize S (task S r) = .ok (r.payload.ticket, action, result) →
      result.ticketId = r.workflowId → Decodes S r
  | classify : r.queueName ≠ .taskQueue → r.taskType = .classify →
      runActivity S (task S r) = .ok (r.payload.ticket, none) → Decodes S r
  | draft {c : Classification} : r.queueName ≠ .taskQueue → r.taskType = .draft →
      runActivity S (task S r) = .ok (r.payload.ticket, some c) → Decodes S r

/-- The node that awaits the task validates the stored result. -/
inductive Validates (S : Spelling) (r : QueuedTask) (stored : Json) : Prop
  | classify {c : Classification} : r.taskType = .classify →
      classification.validate stored = some c → Validates S r stored
  | draft {d : DraftReply} : r.taskType = .draft → draftReply.validate stored = some d →
      Validates S r stored
  | finalize {result : TicketResult} : r.taskType = .finalizeTicket →
      (ticketResult S).validate stored = some result → result.ticketId = r.workflowId →
      Validates S r stored

theorem decodes_of_typed (h : r.Typed) : Decodes S r ∧ r.payload.ticket.id = r.workflowId := by
  have hfinalize : r.queueName = .taskQueue ↔ r.taskType = .finalizeTicket := h.runsFinalize_iff
  have hpay := h.payload
  have hpayload : (task S r).payload = payload S r.payload := rfl
  cases hty : r.taskType with
  | classify =>
    have hqueue : r.queueName ≠ .taskQueue := by simp [hfinalize, hty]
    have htext : (task S r).taskType = "classify" := by simp [task, hty, TaskType.text]
    cases hp : r.payload <;> rw [hty, hp] at hpay
    · refine ⟨.classify hqueue hty ?_, hpay⟩
      rw [runActivity, if_pos htext, hpayload, member_ticket]
      rfl
    · cases hpay
    · cases hpay
  | draft =>
    have hqueue : r.queueName ≠ .taskQueue := by simp [hfinalize, hty]
    have htext : (task S r).taskType = "draft" := by simp [task, hty, TaskType.text]
    cases hp : r.payload <;> rw [hty, hp] at hpay
    · cases hpay
    · rename_i t c
      have hmember : member classification "classification" (payload S (.draft t c)) = .ok c :=
        member_of_get? (by simp [payload])
      refine ⟨.draft (c := c) hqueue hty ?_, hpay⟩
      rw [runActivity, if_neg (by simp [htext]), if_pos htext, hpayload, member_ticket, hp, hmember]
      rfl
    · cases hpay
  | finalizeTicket =>
    have htext : ¬ (task S r).taskType ≠ "finalize_ticket" := by simp [task, hty, TaskType.text]
    cases hp : r.payload <;> rw [hty, hp] at hpay
    · cases hpay
    · cases hpay
    · rename_i t action result
      have haction : member proposedAction "action" (payload S (.finalize t action result)) =
          .ok action := member_of_get? (by simp [payload])
      have hresult : member (ticketResult S) "result" (payload S (.finalize t action result)) =
          .ok result := member_of_get? (by simp [payload])
      have hrun : runFinalize S (task S r) = .ok (t, action, result) := by
        rw [runFinalize, if_neg htext, hpayload, member_ticket, hp, haction, hresult]
        rfl
      exact ⟨.finalize (hfinalize.mpr hty) (by rwa [hp]) hpay.2, hpay.1⟩

theorem validates_of_answered (h : r.Answered) {stored : Json}
    (hs : (task S r).result = some stored) : Validates S r stored := by
  obtain ⟨result, hr, rfl⟩ := Option.map_eq_some_iff.mp hs
  have hfits := h.fits result hr
  cases hty : r.taskType with
  | classify =>
    cases result <;> rw [hty] at hfits
    · exact .classify hty (classification.validate_dump _)
    · cases hfits
    · cases hfits
  | draft =>
    cases result <;> rw [hty] at hfits
    · cases hfits
    · exact .draft hty (draftReply.validate_dump _)
    · cases hfits
  | finalizeTicket =>
    cases result <;> rw [hty] at hfits
    · cases hfits
    · cases hfits
    · exact .finalize hty ((ticketResult S).validate_dump _) hfits

/-- Over every run, the JSON of every task is read where it is used: the router that drains its queue
takes the payload apart without an exception and finds the task's own ticket, and the result, if there
is one, is validated by the node that awaits it. -/
theorem stored_json_read (hw : World.Reachable w) (hr : r ∈ w.shared.db.taskQueue) :
    Decodes S r ∧ r.payload.ticket.id = r.workflowId ∧
      ∀ stored, (task S r).result = some stored → Validates S r stored := by
  have hT := hw.tasks.1
  obtain ⟨hdecodes, hid⟩ := decodes_of_typed (S := S) (hT.typed r hr)
  exact ⟨hdecodes, hid, fun stored hs => validates_of_answered (hT.answered r hr) hs⟩

/-- Some task has a result. -/
def answered (w : World) : Bool := w.shared.db.taskQueue.any (·.result.isSome)

theorem stored_json_read_classify : ∃ (w : World) (r : QueuedTask) (stored : Json),
    r ∈ w.shared.db.taskQueue ∧ (task default r).result = some stored ∧
      Validates default r stored := by
  have hrun : (World.initial.run Proc.step (Schedule.create ++
      Schedule.work 1 .agentTaskQueue (.classification Schedule.classification))).map answered =
        some true := by decide +kernel
  obtain ⟨w, hw, hp⟩ := exists_reachableWhen_of_run hrun
  obtain ⟨r, hr, hres⟩ := List.any_eq_true.mp hp
  obtain ⟨result, hresult⟩ := Option.isSome_iff_exists.mp hres
  have hstored : (task default r).result = some (taskResult default result) := by
    simp [task, hresult]
  exact ⟨w, r, _, hr, hstored, (stored_json_read hw hr).2.2 _ hstored⟩

end TicketFlow.Wire
