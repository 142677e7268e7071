import TicketFlow.WireGraph

/-! # The runner and the workers on dicts

`_resume_for_run` and `_next_wakeup_at` as they read an interrupt's dict and the JSON columns, and the
workers' routers as they read a payload. What a node suspends on, the runner reads as the model does,
and so does a worker the payload it enqueued. -/

namespace TicketFlow.Wire
open JsonFormat Table
set_option autoImplicit false

/-! ## The runner -/

/-- `bool(value)`. -/
def truthy : Json → Bool
  | .null => false
  | .bool b => b
  | .num q => q ≠ 0
  | .str s => s ≠ ""
  | .arr items => ¬ items.isEmpty
  | .obj members => ¬ members.isEmpty

/-- `envelope.get(name) or envelope.get(other)`. -/
def getOr (name other : String) (envelope : Json) : Option Json :=
  if (envelope.get? name).any truthy then envelope.get? name else envelope.get? other

structure ResumeValue where
  payload : Json
  consumedSignalId : Option ℕ

def Unconsumed (workflowId kind : String) (s : Signal) : Prop :=
  s.workflowId = workflowId ∧ s.kind = kind ∧ s.consumed = false

instance (workflowId kind : String) : DecidablePred (Unconsumed workflowId kind) :=
  fun s => inferInstanceAs (Decidable (s.workflowId = workflowId ∧ _))

/-- The oldest unconsumed approval decision, if one is ready. -/
def approvalResumeValue (envelope : Json) (tb : Tables) : Option ResumeValue :=
  if envelope.textAt? "kind" ≠ some "approval_required" then none
  else (getOr "ticket_id" "workflow_id" envelope).bind Json.text? |>.bind fun workflowId =>
    (firstBy Signal.createdAt (Unconsumed workflowId SignalKind.approvalDecision.value)
      tb.pendingSignal).map fun s =>
        ⟨.obj [("kind", .str "decision"), ("decision", s.payload)], some s.id⟩

def Settled (key : String) (r : Task) : Prop :=
  r.idempotencyKey = key ∧ (r.result.isSome ∨ r.status = "failed")

instance (key : String) : DecidablePred (Settled key) :=
  fun r => inferInstanceAs (Decidable (r.idempotencyKey = key ∧ _))

/-- The resume payload of a settled row. -/
def settledValue (r : Task) : Option Json :=
  if r.status = "failed" then some (.obj [("kind", .str "task_failed"),
    ("error", textOrNull r.error), ("permanent", .bool r.permanent)])
  else r.result

def taskResumeValue (key : String) (tb : Tables) : Option ResumeValue :=
  (tb.taskQueue.find? (Settled key)).bind fun r => (settledValue r).map (⟨·, none⟩)

def resumeValue (envelope : Json) (tb : Tables) : Option ResumeValue :=
  match approvalResumeValue envelope tb with
  | some v => some v
  | none => match envelope.textAt? "idempotency_key" with
    | none => none
    | some key => taskResumeValue key tb

def resumeForRun (envelope : Json) (wakeupAt : Option Time) (tb : Tables) : Option ResumeValue :=
  match resumeValue envelope tb with
  | some v => some v
  | none => if wakeupAt.isSome then some ⟨.obj [("kind", .str "timeout")], none⟩ else none

variable (S : Spelling)

/-- `none` where it raises. -/
def parseWakeupAt : Option Json → Option (Option Time)
  | none | some .null => some none
  | some (.str s) => (S.fromisoformat s).map some
  | some _ => none

/-- `_next_wakeup_at` of an output that has an interrupt. -/
def nextWakeupAt (envelope : Json) : Option (Option Time) :=
  parseWakeupAt S (envelope.get? "wakeup_at")

/-- A resume value with its payload as the runner hands it over. -/
def spellResume (v : TicketFlow.ResumeValue) : ResumeValue := ⟨resume S v.payload, v.consumedSignalId⟩

variable {S} {env : Envelope} {envelope : Json} {db : Database}

theorem status_failed (r : QueuedTask) : (task S r).status = "failed" ↔ r.status = .failed := by
  have hstatus : (task S r).status = TaskStatus.failed.value ↔ r.status = .failed :=
    TaskStatus.value_inj
  exact hstatus

theorem settled_task {k : IdempotencyKey} (r : QueuedTask) :
    Settled (key S k) (task S r) ↔ Runner.Settled k r := by
  simp only [Settled, Runner.Settled, status_failed]
  simp [task, key_inj]

theorem settledValue_task (r : QueuedTask) :
    settledValue (task S r) = (Runner.settledValue r).map (resume S) := by
  unfold settledValue Runner.settledValue
  simp only [status_failed]
  split
  · rfl
  · simp [task, resume, Function.comp_def]

theorem taskResumeValue_tables (k : IdempotencyKey) :
    taskResumeValue (key S k) (tables S db) = (Runner.taskResumeValue k db).map (spellResume S) := by
  unfold taskResumeValue Runner.taskResumeValue
  simp only [tables, List.find?_map, Function.comp_def, settled_task]
  cases db.taskQueue.find? (Runner.Settled k) with
  | none => rfl
  | some r =>
    simp only [Option.map_some, Option.bind_some, settledValue_task, Option.map_map]
    rfl

theorem unconsumed_signal {t : TicketId} (s : PendingSignal) :
    Unconsumed (S.hex t) SignalKind.approvalDecision.value (signal S s) ↔
      Db.Unconsumed t .approvalDecision s := by
  cases hk : s.kind
  simp [Unconsumed, Db.Unconsumed, signal, S.hex_inj, hk]

theorem approvalResumeValue_tables (h : Spells S env envelope) :
    approvalResumeValue envelope (tables S db) =
      (Runner.approvalResumeValue env db).map (spellResume S) := by
  cases h with
  | first k taskType workflowId queue t =>
    simp [approvalResumeValue, Runner.approvalResumeValue, Json.textAt?]
  | second k taskType workflowId queue =>
    simp [approvalResumeValue, Runner.approvalResumeValue, Json.textAt?]
  | terminal k workflowId queue result =>
    simp [approvalResumeValue, Runner.approvalResumeValue, Json.textAt?, Json.text?]
  | approval t time draft =>
    have hfirst : firstBy Signal.createdAt
        (Unconsumed (S.hex t) SignalKind.approvalDecision.value) (tables S db).pendingSignal =
          (firstBy PendingSignal.createdAt (Db.Unconsumed t .approvalDecision)
            db.pendingSignal).map (signal S) :=
      firstBy_image (fun _ _ => rfl) fun s _ => unconsumed_signal s
    simp [approvalResumeValue, Runner.approvalResumeValue, Json.textAt?, Json.text?, getOr, truthy,
      S.hex_ne_empty, hfirst, Function.comp_def, spellResume, resume, signal]

theorem textAt?_idempotencyKey (h : Spells S env envelope) :
    envelope.textAt? "idempotency_key" = env.idempotencyKey.map (key S) := by
  cases h <;> simp [Json.textAt?, Json.text?, Envelope.idempotencyKey]

theorem resumeValue_tables (h : Spells S env envelope) :
    resumeValue envelope (tables S db) = (Runner.resumeValue env db).map (spellResume S) := by
  unfold resumeValue Runner.resumeValue
  rw [approvalResumeValue_tables h, textAt?_idempotencyKey h]
  cases Runner.approvalResumeValue env db with
  | some v => rfl
  | none =>
    cases env.idempotencyKey with
    | none => rfl
    | some k => exact taskResumeValue_tables k

theorem resumeForRun_tables (h : Spells S env envelope) (t : Option Time) :
    resumeForRun envelope t (tables S db) =
      (Runner.resumeForRun env t db).map (spellResume S) := by
  unfold resumeForRun Runner.resumeForRun
  rw [resumeValue_tables h]
  cases Runner.resumeValue env db with
  | some v => rfl
  | none => cases t <;> rfl

/-- The dict says when to wake up. -/
theorem nextWakeupAt_spells (h : Spells S env envelope) :
    nextWakeupAt S envelope = some env.wakeupAt := by
  cases h with
  | first k taskType workflowId queue t =>
    cases t <;> simp [nextWakeupAt, parseWakeupAt, wakeupAt, textOrNull, Envelope.wakeupAt,
      S.fromisoformat_isoformat]
  | _ => simp [nextWakeupAt, parseWakeupAt, Envelope.wakeupAt, S.fromisoformat_isoformat]

/-- What a node suspends on is a dict from which a runner reads, whatever the tables hold by then,
when to wake the run up and what to resume it with: the value the model's runner finds, as a dict. -/
theorem interrupt_read {n : Node} {s : TicketState} {resumes : List Resume}
    (h : (n.run s resumes db).2 = .interrupt env) : ∃ envelope,
    (runNode S n s (resumes.map (resume S)) (tables S db)).2 = .interrupt envelope ∧
      nextWakeupAt S envelope = some env.wakeupAt ∧
      ∀ (db' : Database) (t : Option Time), resumeForRun envelope t (tables S db') =
        (Runner.resumeForRun env t db').map (spellResume S) := by
  obtain ⟨-, hresult⟩ := runNode_spells (S := S) n s resumes db
  rw [h] at hresult
  generalize (runNode S n s (resumes.map (resume S)) (tables S db)).2 = outcome at hresult ⊢
  cases hresult with
  | interrupt hs =>
    exact ⟨_, rfl, nextWakeupAt_spells hs, fun db' t => resumeForRun_tables hs t⟩

theorem interrupt_read_classify : ∃ envelope,
    nextWakeupAt default envelope = some (some (seconds 30)) ∧
      resumeForRun envelope none (tables default .empty) = none := by
  let s : TicketState :=
    { ticket := ⟨7, "", "", ""⟩, wakeupAt := some (seconds 30), status := .classifying }
  have hrun : (Node.awaitClassify.run s [] .empty).2 =
      .interrupt (Graph.primaryEnvelope .classify 7 (some (seconds 30))) := rfl
  obtain ⟨envelope, -, hwake, hread⟩ := interrupt_read (S := default) hrun
  exact ⟨envelope, hwake, hread .empty none⟩

end TicketFlow.Wire
