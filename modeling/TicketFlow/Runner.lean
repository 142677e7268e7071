import TicketFlow.Invocation

/-! # The workflow runner

`step` of `runner.py`, one atomic action at a time: claim, read the checkpoint, look the awaited
result up, resume the graph, save the projection. A runner may stop between any two of them. -/

namespace TicketFlow
open Table
set_option autoImplicit false

/-- A graph resume payload plus the signal row to consume, if any. -/
structure ResumeValue where
  payload : Resume
  consumedSignalId : Option ℕ
deriving DecidableEq

namespace Runner

/-! ## What to resume with -/

/-- The run's pending interrupt; an unknown thread has an empty snapshot. -/
def pendingEnvelope (snapshot : Option Checkpoint) : Option Envelope :=
  snapshot.bind Checkpoint.interrupt

/-- The oldest unconsumed approval decision, if one is ready. -/
def approvalResumeValue (env : Envelope) (db : Database) : Option ResumeValue :=
  match env with
  | .approvalRequired ticketId _ _ =>
    (firstBy PendingSignal.createdAt (Db.Unconsumed ticketId .approvalDecision)
      db.pendingSignal).map fun s => ⟨.decision s.payload, some s.id⟩
  | _ => none

/-- `idempotency_key = %s AND (result IS NOT NULL OR status = 'failed')`. -/
def Settled (key : IdempotencyKey) (r : QueuedTask) : Prop :=
  r.idempotencyKey = key ∧ (r.result.isSome ∨ r.status = .failed)

instance (key : IdempotencyKey) : DecidablePred (Settled key) :=
  fun r => inferInstanceAs (Decidable (r.idempotencyKey = key ∧ _))

/-- The resume payload of a settled row. -/
def settledValue (r : QueuedTask) : Option Resume :=
  if r.status = .failed then some (.taskFailed r.error r.permanent) else r.result.map .result

def taskResumeValue (key : IdempotencyKey) (db : Database) : Option ResumeValue :=
  (db.taskQueue.find? (Settled key)).bind fun r => (settledValue r).map (⟨·, none⟩)

/-- The value to resume the graph with, or `none` if it is not ready yet. -/
def resumeValue (env : Envelope) (db : Database) : Option ResumeValue :=
  match approvalResumeValue env db with
  | some v => some v
  | none => match env.idempotencyKey with
    | none => none
    | some key => taskResumeValue key db

/-- A ready task or signal value, a timer envelope, or `none`. Any `wakeup_at` counts as due. -/
def resumeForRun (env : Envelope) (wakeupAt : Option Time) (db : Database) : Option ResumeValue :=
  match resumeValue env db with
  | some v => some v
  | none => if wakeupAt.isSome then some ⟨.timeout, none⟩ else none

/-- Where the value of `_resume_for_run` comes from. -/
inductive Found (env : Envelope) (wakeupAt : Option Time) (db : Database) : ResumeValue → Prop
  | decision {t u reply s} : env = .approvalRequired t u reply →
      firstBy PendingSignal.createdAt (Db.Unconsumed t .approvalDecision) db.pendingSignal = some s →
      Found env wakeupAt db ⟨.decision s.payload, some s.id⟩
  | task {key x} : env.idempotencyKey = some key → taskResumeValue key db = some ⟨x, none⟩ →
      (∀ d, x ≠ .decision d) → x ≠ .timeout → Found env wakeupAt db ⟨x, none⟩
  | timeout : wakeupAt.isSome → resumeValue env db = none → Found env wakeupAt db ⟨.timeout, none⟩

theorem taskResumeValue_outcome {key : IdempotencyKey} {db : Database} {v : ResumeValue}
    (h : taskResumeValue key db = some v) :
    ∃ x, v = ⟨x, none⟩ ∧ (∀ d, x ≠ .decision d) ∧ x ≠ .timeout := by
  obtain ⟨r, -, hv⟩ := Option.bind_eq_some_iff.mp h
  obtain ⟨x, hx, rfl⟩ := Option.map_eq_some_iff.mp hv
  refine ⟨x, rfl, ?_⟩
  unfold settledValue at hx
  split at hx
  · cases hx
    exact ⟨nofun, nofun⟩
  · obtain ⟨result, -, rfl⟩ := Option.map_eq_some_iff.mp hx
    exact ⟨nofun, nofun⟩

theorem resumeForRun_found {env : Envelope} {wakeupAt : Option Time} {db : Database}
    {v : ResumeValue} (h : resumeForRun env wakeupAt db = some v) : Found env wakeupAt db v := by
  unfold resumeForRun at h
  split at h
  · rename_i v' hval
    cases h
    unfold resumeValue at hval
    split at hval
    · rename_i v' happ
      cases hval
      unfold approvalResumeValue at happ
      split at happ
      · obtain ⟨s, hs, rfl⟩ := Option.map_eq_some_iff.mp happ
        exact .decision rfl hs
      · cases happ
    · split at hval
      · cases hval
      · rename_i key hkey
        obtain ⟨x, rfl, hdecision, htimeout⟩ := taskResumeValue_outcome hval
        exact .task hkey hval hdecision htimeout
  · rename_i hnone
    split at h
    · rename_i hsome
      cases h
      exact .timeout hsome hnone
    · cases h

/-- The `wakeup_at` to persist after a graph step. -/
def nextWakeupAt (out : Output) : Option Time :=
  match out.interrupt with
  | some env => env.wakeupAt
  | none => out.values.wakeupAt

/-! ## One step -/

/-- Where a runner is inside `step`. -/
inductive Pc
  | claimed (run : WorkflowRun)
  | inspected (run : WorkflowRun) (env : Envelope)
  | releasing (run : WorkflowRun)
  | resuming (run : WorkflowRun) (resume : ResumeValue)
  | invoking (run : WorkflowRun) (resume : ResumeValue) (inv : Invocation)
  | saving (run : WorkflowRun) (resume : ResumeValue) (out : Output)
deriving DecidableEq

/-- The run `step` works on. -/
def Pc.run : Pc → WorkflowRun
  | .claimed run | .inspected run _ | .releasing run | .resuming run _ | .invoking run _ _
  | .saving run _ _ => run

/-- What an action of a runner leads to: the next one, the value `step` returns, or an exception
that leaves `run_forever`. -/
inductive Next
  | at (pc : Pc)
  | returned (advanced : Bool)
  | stopped (error : GraphError)

/-- Lease a run; `step` returns `False` when none is claimable. -/
def claim (workerId : WorkerId) (locked : TicketId → Bool) (sh : Shared) : Shared × Next :=
  match Db.claimRun workerId locked sh.db with
  | (_, none) => (sh, .returned false)
  | (db, some run) => (sh.record db (.claimed workerId run.ticketId), .at (.claimed run))

def advance (pc : Pc) (sh : Shared) : Shared × Next :=
  match pc with
  | .claimed run =>
    match pendingEnvelope (sh.checkpoints.get run.ticketId) with
    | none => (sh, .at (.releasing run))
    | some env => (sh, .at (.inspected run env))
  | .inspected run env =>
    match resumeForRun env run.wakeupAt sh.db with
    | none => (sh, .at (.releasing run))
    | some resume => (sh, .at (.resuming run resume))
  | .releasing run =>
    (sh.record (Db.saveRun run.ticketId run.status run.wakeupAt none sh.db)
      (.saved run.ticketId run.status none), .returned false)
  | .resuming run resume =>
    match Invocation.resume run.ticketId resume.payload sh.checkpoints with
    | none => (sh, .stopped .emptyInput)
    | some inv => (sh, .at (.invoking run resume inv))
  | .invoking run resume inv =>
    match inv.advance sh with
    | (sh, .running inv) => (sh, .at (.invoking run resume inv))
    | (sh, .returned out) => (sh, .at (.saving run resume out))
    | (sh, .raised error) => (sh, .stopped error)
  | .saving run resume out =>
    (sh.record (Db.saveRun run.ticketId out.values.status (nextWakeupAt out)
        resume.consumedSignalId sh.db)
      (.saved run.ticketId out.values.status resume.consumedSignalId), .returned true)

end Runner
end TicketFlow
