import TicketFlow.System

/-! # What one action does

`Local` lists the actions that write nothing, `Effect` adds those that write, each with its guard
and with the states before and after. Every invariant is proved from these two lists, so a proof
about the system never unfolds a step function. -/

namespace TicketFlow
open Table
set_option autoImplicit false

/-! ## Who drives a graph -/

/-- The caller of `ainvoke`. -/
inductive Driver
  | createTicket
  | step (run : WorkflowRun) (resume : ResumeValue)

namespace Driver

/-- The caller while `ainvoke` runs. -/
def driving : Driver → Invocation → Proc
  | .createTicket, inv => .api (.seeding inv)
  | .step run resume, inv => .runner (.invoking run resume inv)

/-- The caller once `ainvoke` has returned. -/
def returned : Driver → Invocation → Output → Proc
  | .createTicket, inv, out => .api (.seeded inv.checkpoint.threadId out)
  | .step run resume, _, out => .runner (.saving run resume out)

/-- The caller after an action of `ainvoke`. -/
def next (dr : Driver) (inv : Invocation) : Invocation.Outcome → Proc
  | .running inv => dr.driving inv
  | .returned out => dr.returned inv out
  | .raised _ => .idle

end Driver

/-- The invocation a process drives. -/
def Proc.invocation : Proc → Option Invocation
  | .api (.seeding inv) | .runner (.invoking _ _ inv) => some inv
  | _ => none

@[simp] theorem Proc.invocation_driving (dr : Driver) (inv : Invocation) :
    (dr.driving inv).invocation = some inv := by
  cases dr <;> rfl

@[simp] theorem Proc.invocation_returned (dr : Driver) (inv : Invocation) (out : Output) :
    (dr.returned inv out).invocation = none := by
  cases dr <;> rfl

/-! ## Actions that write nothing -/

inductive Local (sh : Shared) (i : WorkerId) : Proc → Action → Proc → Prop
  | crash {p} : Local sh i p .crash .idle
  | ended {dr : Driver} {inv : Invocation} : inv.result = none → inv.checkpoint.next = none →
      Local sh i (dr.driving inv) .advance (dr.returned inv ⟨inv.checkpoint.values, none⟩)
  | raised {dr : Driver} {inv : Invocation} {error} : inv.result = some (.raise error) →
      Local sh i (dr.driving inv) .advance .idle
  | refused {t d} :
      (Db.addPendingSignalIfWaiting t .approvalDecision d .awaitingApproval sh.db).2 = none →
      Local sh i .idle (.submitApproval t d) .idle
  | noClaim {locked} : (Db.claimRun i locked sh.db).2 = none →
      Local sh i .idle (.claimRun locked) .idle
  | unparked {run : WorkflowRun} :
      Runner.pendingEnvelope (sh.checkpoints.get run.ticketId) = none →
      Local sh i (.runner (.claimed run)) .advance (.runner (.releasing run))
  | inspected {run : WorkflowRun} {cp env} : sh.checkpoints.get run.ticketId = some cp →
      cp.interrupt = some env →
      Local sh i (.runner (.claimed run)) .advance (.runner (.inspected run env))
  | unready {run : WorkflowRun} {env} : Runner.resumeForRun env run.wakeupAt sh.db = none →
      Local sh i (.runner (.inspected run env)) .advance (.runner (.releasing run))
  | ready {run : WorkflowRun} {env resume} :
      Runner.resumeForRun env run.wakeupAt sh.db = some resume →
      Local sh i (.runner (.inspected run env)) .advance (.runner (.resuming run resume))
  | emptyInput {run : WorkflowRun} {resume} : sh.checkpoints.get run.ticketId = none →
      Local sh i (.runner (.resuming run resume)) .advance .idle
  | resumed {run : WorkflowRun} {resume cp} : sh.checkpoints.get run.ticketId = some cp →
      Local sh i (.runner (.resuming run resume)) .advance
        (.runner (.invoking run resume ⟨cp, some resume.payload, none⟩))
  | noTask {queueName locked} : (Db.dequeue queueName i locked sh.db).2 = none →
      Local sh i .idle (.dequeue queueName locked) .idle
  | answered {task result} : ¬ Worker.runsFinalize task → Worker.Answers task result →
      Local sh i (.worker (.leased task)) (.activityReturns result)
        (.worker (.completing task result))
  | raises {pc : Worker.Pc} {task error permanent} : pc.activity = some task →
      (permanent = true → ¬ Worker.runsFinalize task) →
      Local sh i (.worker pc) (.activityRaises error permanent)
        (.worker (.failing task error permanent))
  | started {task} : Worker.runsFinalize task →
      Local sh i (.worker (.leased task)) .advance (.worker (Worker.startFinalize task))
  | checked {task result} :
      Local sh i (.worker (.checking task result)) .advance
        (.worker (.replying task result (Ledger.refundRecorded task.payload.ticket.id sh.db)))
  | missed {pc : Worker.Pc} {task : QueuedTask} :
      ((∃ result, pc = .completing task result) ∨ ∃ error perm, pc = .failing task error perm) →
      (∀ r ∈ sh.db.taskQueue, ¬ Taskqueue.Settles task.id r) →
      Local sh i (.worker pc) .advance .idle
  | listed : Local sh i .idle .reconcileOrphanedRuns
      (.janitor (.reconciling (Janitor.listOrphanedCheckpointThreads sh)))
  | reconciled : Local sh i (.janitor (.reconciling [])) .advance .idle
  | vanished {t rest} : sh.checkpoints.get t = none →
      Local sh i (.janitor (.reconciling (t :: rest))) .advance (.janitor (.reconciling rest))
  | projecting {t rest cp} : sh.checkpoints.get t = some cp →
      Local sh i (.janitor (.reconciling (t :: rest))) .advance
        (.janitor (.projecting t cp.values rest))
  | archiveFailed {maxAge} : Local sh i .idle (.runRetention maxAge) .idle
  | deletedAll {maxAge} : Local sh i (.janitor (.deletingThreads [] maxAge)) .advance
      (.janitor (.pruningSignals maxAge))

/-! ## Actions that write -/

inductive Effect (sh : Shared) (i : WorkerId) : Proc → Action → Shared → Proc → Prop
  | quiet {p a p'} : Local sh i p a p' → Effect sh i p a sh p'
  | tick {p} (elapsed : Time) :
      Effect sh i p (.tick elapsed) (sh.commit { sh.db with now := sh.db.now + elapsed }) p
  | created {ticket} : (∀ e ∈ sh.log, e.createdId ≠ some ticket.id) →
      Effect sh i .idle (.createTicket ticket) (Invocation.input ticket sh).1
        (.api (.seeding (Invocation.input ticket sh).2))
  | ran {dr : Driver} {inv : Invocation} {n : Node} {db result} : inv.result = none →
      inv.checkpoint.next = some n →
      n.run inv.checkpoint.values inv.resumes sh.db = (db, result) →
      Effect sh i (dr.driving inv) .advance
        (sh.record db (.ran inv.checkpoint.threadId n inv.checkpoint.values inv.resumes))
        (dr.driving { inv with result := some result })
  | put {dr : Driver} {inv : Invocation} {values next} : inv.result = some (.update values) →
      next = inv.checkpoint.next.bind (fun n => n.after values) →
      Effect sh i (dr.driving inv) .advance
        { sh with checkpoints := sh.checkpoints.put inv.checkpoint.threadId values next }
        (dr.driving ⟨sh.checkpoints.fresh inv.checkpoint.threadId values next, none, none⟩)
  | suspended {dr : Driver} {inv : Invocation} {env} : inv.result = some (.interrupt env) →
      Effect sh i (dr.driving inv) .advance
        { sh with checkpoints := sh.checkpoints.putWrites inv.checkpoint inv.resumes env }
        (dr.returned inv ⟨inv.checkpoint.values, some env⟩)
  | seeded {t out} : Effect sh i (.api (.seeded t out)) .advance
      (sh.commit (Db.createRun t out.values.status out.values.wakeupAt sh.db)) .idle
  | accepted {t d db signalId} :
      Db.addPendingSignalIfWaiting t .approvalDecision d .awaitingApproval sh.db =
        (db, some signalId) →
      Effect sh i .idle (.submitApproval t d) (sh.record db (.accepted t signalId d)) .idle
  | claimed {locked db run} : Db.claimRun i locked sh.db = (db, some run) →
      Effect sh i .idle (.claimRun locked) (sh.record db (.claimed i run.ticketId))
        (.runner (.claimed run))
  | released {run : WorkflowRun} : Effect sh i (.runner (.releasing run)) .advance
      (sh.record (Db.saveRun run.ticketId run.status run.wakeupAt none sh.db)
        (.saved run.ticketId run.status none)) .idle
  | saved {run : WorkflowRun} {resume out} : Effect sh i (.runner (.saving run resume out)) .advance
      (sh.record (Db.saveRun run.ticketId out.values.status (Runner.nextWakeupAt out)
          resume.consumedSignalId sh.db)
        (.saved run.ticketId out.values.status resume.consumedSignalId)) .idle
  | dequeued {queueName locked db task} : Db.dequeue queueName i locked sh.db = (db, some task) →
      Effect sh i .idle (.dequeue queueName locked) (sh.commit db) (.worker (.leased task))
  | refunded {task : QueuedTask} {amount result} :
      Effect sh i (.worker (.refunding task amount result)) .advance
        (sh.record (Ledger.recordRefund task.payload.ticket.id amount task.attempts sh.db).1
          (.recordedRefund task.payload
            (Ledger.recordRefund task.payload.ticket.id amount task.attempts sh.db).2))
        (.worker (.checking task result))
  | replied {task : QueuedTask} {result : TicketResult} {flag db first} :
      Ledger.recordSentReply task.payload.ticket.id task.payload.ticket.customerEmail
        result.replyText task.attempts sh.db = (db, first) →
      Effect sh i (.worker (.replying task result flag)) .advance
        (sh.record db (.recordedReply task.payload first))
        (.worker (.recording task { result with refundExecuted := flag }))
  | recorded {task : QueuedTask} {result} :
      Effect sh i (.worker (.recording task result)) .advance
        (sh.record (Readmodel.saveResult result sh.db) (.savedResult task.payload result))
        (.worker (.completing task (.terminal result)))
  | completed {task : QueuedTask} {result r} :
      r ∈ sh.db.taskQueue → Taskqueue.Settles task.id r →
      Effect sh i (.worker (.completing task result)) .advance
        (sh.record (Taskqueue.complete task.id result sh.db).1 (.storedResult task.payload result))
        (.worker (.waking task))
  | failed {task : QueuedTask} {error permanent r} : r ∈ sh.db.taskQueue →
      Taskqueue.Settles task.id r →
      sh.db.taskQueue.find? (Taskqueue.Settles task.id) = some r →
      Effect sh i (.worker (.failing task error permanent)) .advance
        (sh.commit (Taskqueue.fail task.id error permanent sh.db).1)
        (if Taskqueue.Retries permanent r then .idle else .worker (.waking task))
  | woken {task : QueuedTask} : Effect sh i (.worker (.waking task)) .advance
      (sh.commit (Db.wakeRun task.workflowId sh.db)) .idle
  | reclaimedTasks : Effect sh i .idle .reclaimExpiredLeases
      (sh.commit (Taskqueue.reclaimExpired sh.db).1) (.janitor .reclaimingRuns)
  | reclaimedRuns : Effect sh i (.janitor .reclaimingRuns) .advance
      (sh.commit (Db.reclaimExpiredRuns sh.db)) .idle
  | projected {t values rest} : Effect sh i (.janitor (.projecting t values rest)) .advance
      (sh.commit (Db.createRun t values.status values.wakeupAt sh.db))
      (.janitor (.reconciling rest))
  | archived {maxAge db ts} : Db.archiveTerminalRuns maxAge sh.db = some (db, ts) →
      Effect sh i .idle (.runRetention maxAge) (sh.commit db)
        (.janitor (.deletingThreads ts maxAge))
  | deleted {t rest maxAge} : Effect sh i (.janitor (.deletingThreads (t :: rest) maxAge)) .advance
      { sh with checkpoints := sh.checkpoints.deleteThread t }
      (.janitor (.deletingThreads rest maxAge))
  | prunedSignals {maxAge} : Effect sh i (.janitor (.pruningSignals maxAge)) .advance
      (sh.commit (Db.pruneConsumedSignals maxAge sh.db)) (.janitor (.pruningTasks maxAge))
  | prunedTasks {maxAge} : Effect sh i (.janitor (.pruningTasks maxAge)) .advance
      (sh.commit (Taskqueue.pruneSettled maxAge sh.db)) .idle

/-! ## Every action is on the list -/

variable {sh sh' : Shared} {i : WorkerId} {p p' : Proc} {a : Action}

theorem Local.effect (h : Local sh i p a p') (hs : sh' = sh) : Effect sh i p a sh' p' := by
  subst hs
  exact .quiet h

theorem effect_invocation (dr : Driver) (inv : Invocation) :
    Effect sh i (dr.driving inv) .advance (inv.advance sh).1 (dr.next inv (inv.advance sh).2) := by
  cases hr : inv.result with
  | none =>
    cases hn : inv.checkpoint.next with
    | none =>
      simp only [Invocation.advance, hr, hn]
      exact .quiet (.ended hr hn)
    | some n =>
      rcases hrun : n.run inv.checkpoint.values inv.resumes sh.db with ⟨db, result⟩
      simp only [Invocation.advance, hr, hn, hrun]
      exact .ran hr hn hrun
  | some result =>
    simp only [Invocation.advance, hr]
    cases result with
    | update values => exact .put hr rfl
    | interrupt env => exact .suspended hr
    | raise error => exact .quiet (.raised hr)

theorem effect_api (pc : Api.Pc) :
    Effect sh i (.api pc) .advance (Proc.ofApi (Api.advance pc sh)).1
      (Proc.ofApi (Api.advance pc sh)).2 := by
  cases pc with
  | seeding inv =>
    have h : Effect sh i _ _ _ _ := effect_invocation .createTicket inv
    simp only [Api.advance]
    revert h
    generalize inv.advance sh = r
    obtain ⟨sh', _ | _ | _⟩ := r <;> exact id
  | seeded t out => exact .seeded

theorem effect_runner (pc : Runner.Pc) :
    Effect sh i (.runner pc) .advance (Proc.ofRunner (Runner.advance pc sh)).1
      (Proc.ofRunner (Runner.advance pc sh)).2 := by
  cases pc with
  | claimed run =>
    simp only [Runner.advance]
    cases he : Runner.pendingEnvelope (sh.checkpoints.get run.ticketId) with
    | none => exact .quiet (.unparked he)
    | some env =>
      obtain ⟨cp, hcp, henv⟩ := Option.bind_eq_some_iff.mp he
      exact .quiet (.inspected hcp henv)
  | inspected run env =>
    simp only [Runner.advance]
    cases hr : Runner.resumeForRun env run.wakeupAt sh.db with
    | none => exact .quiet (.unready hr)
    | some resume => exact .quiet (.ready hr)
  | releasing run => exact .released
  | resuming run resume =>
    simp only [Runner.advance, Invocation.resume]
    cases hcp : sh.checkpoints.get run.ticketId with
    | none => exact .quiet (.emptyInput hcp)
    | some cp => exact .quiet (.resumed hcp)
  | invoking run resume inv =>
    have h : Effect sh i _ _ _ _ := effect_invocation (.step run resume) inv
    simp only [Runner.advance]
    revert h
    generalize inv.advance sh = r
    obtain ⟨sh', _ | _ | _⟩ := r <;> exact id
  | saving run resume out => exact .saved

theorem exists_settles {id : ℕ} {db : Database} {r : QueuedTask}
    (h : db.taskQueue.find? (Taskqueue.Settles id) = some r) :
    r ∈ db.taskQueue ∧ Taskqueue.Settles id r := by
  refine ⟨List.mem_of_find?_eq_some h, ?_⟩
  have hp := List.find?_some h
  simpa using hp

theorem effect_worker {pc : Worker.Pc} {next : Worker.Next}
    (h : Worker.advance pc sh = some (sh', next)) :
    Effect sh i (.worker pc) .advance sh' (Proc.ofWorker (sh', next)).2 := by
  cases pc with
  | leased task =>
    simp only [Worker.advance] at h
    split at h
    · rename_i hf
      cases h
      exact .quiet (.started hf)
    · cases h
  | refunding task amount result => cases h; exact .refunded
  | checking task result => cases h; exact .quiet .checked
  | replying task result flag => cases h; exact .replied rfl
  | recording task result => cases h; exact .recorded
  | completing task result =>
    simp only [Worker.advance] at h
    split at h
    · rename_i db st hc
      cases h
      have h2 : (Taskqueue.complete task.id result sh.db).2 = some st := by rw [hc]
      obtain ⟨r, hr, -⟩ := Option.map_eq_some_iff.mp h2
      obtain ⟨hm, hs⟩ := exists_settles hr
      have key : Effect sh i (.worker (.completing task result)) _ _ _ := .completed hm hs
      rwa [hc] at key
    · rename_i db hc
      cases h
      have hn := Taskqueue.complete_eq_none.mp (congrArg Prod.snd hc)
      rw [Taskqueue.complete_of_not hn] at hc
      cases hc
      exact Local.effect (.missed (.inl ⟨_, rfl⟩) hn) rfl
  | failing task error permanent =>
    simp only [Worker.advance] at h
    cases hf : sh.db.taskQueue.find? (Taskqueue.Settles task.id) with
    | none =>
      have hn : ∀ r ∈ sh.db.taskQueue, ¬ Taskqueue.Settles task.id r := by simpa using hf
      rw [Taskqueue.fail_of_not hn] at h
      cases h
      exact Local.effect (.missed (.inr ⟨_, _, rfl⟩) hn) rfl
    | some r =>
      obtain ⟨hm, hs⟩ := exists_settles hf
      have key : Effect sh i (.worker (.failing task error permanent)) _ _ _ := .failed hm hs hf
      have h2 : (Taskqueue.fail task.id error permanent sh.db).2 =
          some (if Taskqueue.Retries permanent r then .pending else .failed) := by
        simp [Taskqueue.fail, hf, Taskqueue.failRow]
      have hc : Taskqueue.fail task.id error permanent sh.db =
          ((Taskqueue.fail task.id error permanent sh.db).1,
            some (if Taskqueue.Retries permanent r then .pending else .failed)) := Prod.ext rfl h2
      rw [hc] at h
      by_cases hret : Taskqueue.Retries permanent r
      · simp only [hret, if_true] at h key
        cases h
        exact key
      · simp only [hret, if_false] at h key
        cases h
        exact key
  | waking t => cases h; exact .woken

theorem effect_janitor (pc : Janitor.Pc) :
    Effect sh i (.janitor pc) .advance (Proc.ofJanitor (Janitor.advance pc sh)).1
      (Proc.ofJanitor (Janitor.advance pc sh)).2 := by
  cases pc with
  | reclaimingRuns => exact .reclaimedRuns
  | reconciling ts =>
    cases ts with
    | nil => exact .quiet .reconciled
    | cons t rest =>
      simp only [Janitor.advance]
      cases hcp : sh.checkpoints.get t with
      | none => exact .quiet (.vanished hcp)
      | some cp => exact .quiet (.projecting hcp)
  | projecting t values rest => exact .projected
  | deletingThreads ts maxAge =>
    cases ts with
    | nil => exact .quiet .deletedAll
    | cons t rest => exact .deleted
  | pruningSignals maxAge => exact .prunedSignals
  | pruningTasks maxAge => exact .prunedTasks

theorem effect_advance (h : p.advance sh = some (sh', p')) : Effect sh i p .advance sh' p' := by
  cases p with
  | idle => cases h
  | api pc =>
    have key : Effect sh i _ _ _ _ := effect_api pc
    rw [Option.some.inj h] at key
    exact key
  | runner pc =>
    have key : Effect sh i _ _ _ _ := effect_runner pc
    rw [Option.some.inj h] at key
    exact key
  | worker pc =>
    obtain ⟨⟨sh₁, next⟩, hn, he⟩ := Option.map_eq_some_iff.mp h
    have hs : sh₁ = sh' := by
      cases next <;> simp [Proc.ofWorker] at he <;> exact he.1
    subst hs
    have key : Effect sh i _ _ _ _ := effect_worker hn
    rwa [he] at key
  | janitor pc =>
    have key : Effect sh i _ _ _ _ := effect_janitor pc
    rw [Option.some.inj h] at key
    exact key

theorem effect_of_step (h : Proc.step sh i p a = some (sh', p')) : Effect sh i p a sh' p' := by
  cases a with
  | tick elapsed => cases h; exact .tick elapsed
  | crash => cases h; exact .quiet .crash
  | advance => exact effect_advance h
  | createTicket ticket =>
    simp only [Proc.step] at h
    split at h
    · rename_i hp
      subst hp
      simp only [Api.createTicket] at h
      split at h
      · cases h
      · rename_i hf
        cases h
        exact .created (by simpa using hf)
    · cases h
  | submitApproval t d =>
    simp only [Proc.step] at h
    split at h
    · rename_i hp
      subst hp
      simp only [Api.submitApproval] at h
      split at h
      · rename_i db sid hs
        cases h
        exact .accepted hs
      · rename_i db hs
        cases h
        refine Local.effect (.refused (by rw [hs])) ?_
        simp only [Db.addPendingSignalIfWaiting] at hs
        split at hs
        · cases hs
        · cases hs; rfl
    · cases h
  | claimRun locked =>
    simp only [Proc.step] at h
    split at h
    · rename_i hp
      subst hp
      simp only [Runner.claim] at h
      split at h
      · rename_i db hs
        cases h
        exact .quiet (.noClaim (by rw [hs]))
      · rename_i db run hs
        cases h
        exact .claimed hs
    · cases h
  | dequeue queueName locked =>
    simp only [Proc.step] at h
    split at h
    · rename_i hp
      subst hp
      simp only [Worker.dequeue] at h
      split at h
      · rename_i db hs
        cases h
        exact .quiet (.noTask (by rw [hs]))
      · rename_i db task hs
        cases h
        exact .dequeued hs
    · cases h
  | activityReturns result =>
    obtain ⟨task, ht, h⟩ := Option.bind_eq_some_iff.mp h
    split at h
    · rename_i hg
      cases h
      unfold Proc.leased at ht
      split at ht
      · cases ht
        exact .quiet (.answered hg.1 hg.2)
      · cases ht
    · cases h
  | activityRaises error permanent =>
    obtain ⟨task, ht, h⟩ := Option.bind_eq_some_iff.mp h
    split at h
    · rename_i hg
      cases h
      unfold Proc.activity at ht
      split at ht
      · exact .quiet (.raises ht hg)
      · cases ht
    · cases h
  | reclaimExpiredLeases =>
    simp only [Proc.step] at h
    split at h
    · rename_i hp
      subst hp
      cases h
      exact .reclaimedTasks
    · cases h
  | reconcileOrphanedRuns =>
    simp only [Proc.step] at h
    split at h
    · rename_i hp
      subst hp
      cases h
      exact .quiet .listed
    · cases h
  | runRetention maxAge =>
    simp only [Proc.step] at h
    split at h
    · rename_i hp
      subst hp
      simp only [Janitor.runRetention] at h
      split at h
      · cases h
        exact .quiet .archiveFailed
      · rename_i db ts hs
        cases h
        exact .archived hs
    · cases h

/-! ## What every action keeps -/

theorem Effect.log_suffix (h : Effect sh i p a sh' p') : sh.log <:+ sh'.log := by
  cases h with
  | quiet h => exact List.suffix_rfl
  | tick elapsed => exact List.suffix_rfl
  | created hf => exact List.suffix_cons ..
  | ran hr hnx hrun => exact List.suffix_cons ..
  | put hr hnx => exact List.suffix_rfl
  | suspended hr => exact List.suffix_rfl
  | seeded => exact List.suffix_rfl
  | accepted hs => exact List.suffix_cons ..
  | claimed hs => exact List.suffix_cons ..
  | released => exact List.suffix_cons ..
  | saved => exact List.suffix_cons ..
  | dequeued hs => exact List.suffix_rfl
  | refunded => exact List.suffix_cons ..
  | replied hs => exact List.suffix_cons ..
  | recorded => exact List.suffix_cons ..
  | completed hm hs => exact List.suffix_cons ..
  | failed hm hs hf => exact List.suffix_rfl
  | woken => exact List.suffix_rfl
  | reclaimedTasks => exact List.suffix_rfl
  | reclaimedRuns => exact List.suffix_rfl
  | projected => exact List.suffix_rfl
  | archived hs => exact List.suffix_rfl
  | deleted => exact List.suffix_rfl
  | prunedSignals => exact List.suffix_rfl
  | prunedTasks => exact List.suffix_rfl

theorem Effect.now_le (h : Effect sh i p a sh' p') : sh.db.now ≤ sh'.db.now := by
  cases h with
  | tick elapsed => exact Nat.le_add_right ..
  | ran hr hnx hrun =>
    rename_i n db result
    obtain ⟨rows, seq, hf⟩ := n.run_frame _ _ sh.db
    rw [hrun] at hf
    cases hf
    exact le_rfl
  | accepted hs =>
    obtain ⟨-, -, rfl, rfl⟩ := Db.addPendingSignalIfWaiting_eq_some hs
    exact le_rfl
  | claimed hs =>
    obtain ⟨r, -, -, -, -, -, rfl⟩ := Db.claimRun_eq_some hs
    exact le_rfl
  | dequeued hs =>
    obtain ⟨r, -, -, -, rfl⟩ := Db.dequeue_eq_some hs
    exact le_rfl
  | replied hs =>
    cases hs
    exact le_rfl
  | archived hs =>
    rename_i maxAge db ts
    simp only [Db.archiveTerminalRuns] at hs
    split at hs
    · cases hs
    · cases hs
      exact le_rfl
  | _ => exact le_rfl

/-! ## How a graph comes to be driven -/

/-- A process drives an invocation because it did, because it has just run the node, because it has
just put the checkpoint, or because it has just read it to resume it. -/
inductive DriveChange (sh : Shared) (p : Proc) (sh' : Shared) (p' : Proc) (inv' : Invocation) : Prop
  | still : p.invocation = some inv' → DriveChange sh p sh' p' inv'
  | ran {dr : Driver} {inv n db result} : p = dr.driving inv → inv.result = none →
      inv.checkpoint.next = some n →
      n.run inv.checkpoint.values inv.resumes sh.db = (db, result) →
      inv' = { inv with result := some result } →
      sh' = sh.record db (.ran inv.checkpoint.threadId n inv.checkpoint.values inv.resumes) →
      DriveChange sh p sh' p' inv'
  | put : sh'.checkpoints.get inv'.checkpoint.threadId = some inv'.checkpoint →
      inv'.result = none → inv'.resumes = [] → DriveChange sh p sh' p' inv'
  | read {run resume} : p' = .runner (.invoking run resume inv') → sh' = sh →
      sh.checkpoints.get inv'.checkpoint.threadId = some inv'.checkpoint →
      inv'.result = none → inv'.offered = some resume.payload → DriveChange sh p sh' p' inv'

theorem Effect.driveChange {inv' : Invocation} (h : Effect sh i p a sh' p')
    (hinv : p'.invocation = some inv') : DriveChange sh p sh' p' inv' := by
  cases h with
  | tick elapsed => exact .still hinv
  | created hf =>
    cases hinv
    exact .put Checkpoints.get_put_self rfl rfl
  | @ran dr inv n db result hr hn hrun =>
    rw [Proc.invocation_driving] at hinv
    cases hinv
    exact .ran rfl hr hn hrun rfl rfl
  | @put dr inv values next hr hn =>
    rw [Proc.invocation_driving] at hinv
    cases hinv
    exact .put Checkpoints.get_put_self rfl rfl
  | @suspended dr inv env hr =>
    rw [Proc.invocation_returned] at hinv
    cases hinv
  | failed hm hs hf => split at hinv <;> cases hinv
  | quiet hl =>
    cases hl with
    | @ended dr inv hr hn =>
      rw [Proc.invocation_returned] at hinv
      cases hinv
    | @resumed run resume cp hcp =>
      cases hinv
      have hget : sh.checkpoints.get cp.threadId = some cp := Checkpoints.threadId_of_get hcp ▸ hcp
      exact .read rfl rfl hget rfl rfl
    | _ => cases hinv
  | _ => cases hinv

/-! ## Invariants of runs -/

/-- The invariant rule over the list of effects, for assertions about the whole world. -/
theorem World.ReachableWhen.worldInvariant {ok : World → WorkerId → Action → Prop}
    {I : World → Prop} (hinit : I World.initial)
    (hstep : ∀ (w : World) i a sh' p', World.ReachableWhen ok w → ok w i a → I w →
      Effect w.shared i (w.procs i) a sh' p' → I ⟨sh', Function.update w.procs i p'⟩)
    {w : World} (hw : World.ReachableWhen ok w) : I w := by
  refine Interleaving.ReachableWhen.invariant ?_ ?_ hw
  · rintro c rfl
    exact hinit
  · intro w i a sh' p' hr hok hI hp
    exact hstep w i a sh' p' hr hok hI (effect_of_step hp)

theorem World.ReachableWhen.invariant {ok : World → WorkerId → Action → Prop} {I : Shared → Prop}
    {J : Shared → WorkerId → Proc → Prop} (hI : I .empty) (hJ : ∀ j, J .empty j .idle)
    (hstep : ∀ (w : World) i a sh' p', World.ReachableWhen ok w → ok w i a → I w.shared →
      (∀ j, J w.shared j (w.procs j)) → Effect w.shared i (w.procs i) a sh' p' →
      I sh' ∧ J sh' i p' ∧ ∀ j, j ≠ i → J sh' j (w.procs j))
    {w : World} (hw : World.ReachableWhen ok w) : I w.shared ∧ ∀ j, J w.shared j (w.procs j) := by
  refine Interleaving.ReachableWhen.induct ?_ ?_ hw
  · rintro c rfl
    exact ⟨hI, hJ⟩
  · intro w i a sh' p' hr hok hIw hJw hp
    exact hstep w i a sh' p' hr hok hIw hJw (effect_of_step hp)

/-! ## Runs without retention -/

/-- No retention sweep starts. -/
def Unswept (_ : World) (_ : WorkerId) : Action → Prop
  | .runRetention _ => False
  | _ => True

instance (w : World) (i : WorkerId) : DecidablePred (Unswept w i)
  | .runRetention _ => isFalse id
  | .tick _ | .crash | .advance | .createTicket _ | .submitApproval _ _ | .claimRun _ | .dequeue _ _
  | .activityReturns _ | .activityRaises _ _ | .reclaimExpiredLeases | .reconcileOrphanedRuns =>
    isTrue trivial

/-- The process is inside `run_retention`. -/
def Proc.Sweeping : Proc → Prop
  | .janitor (.deletingThreads _ _) | .janitor (.pruningSignals _) | .janitor (.pruningTasks _) =>
    True
  | _ => False

theorem Effect.sweeping (h : Effect sh i p a sh' p') (hp : p'.Sweeping) :
    p.Sweeping ∨ ∃ maxAge, a = .runRetention maxAge := by
  cases h with
  | quiet h =>
    cases h with
    | @ended dr inv hr hn => cases dr <;> exact hp.elim
    | deletedAll => exact .inl trivial
    | _ => exact hp.elim
  | tick elapsed => exact .inl hp
  | @ran dr inv n db result hr hn hrun => cases dr <;> exact hp.elim
  | @put dr inv values next hr hn => cases dr <;> exact hp.elim
  | @suspended dr inv env hr => cases dr <;> exact hp.elim
  | failed hm hs hf => split at hp <;> exact hp.elim
  | archived hs => exact .inr ⟨_, rfl⟩
  | deleted => exact .inl trivial
  | prunedSignals => exact .inl trivial
  | _ => exact hp.elim

theorem World.ReachableWhen.not_sweeping {ok : World → WorkerId → Action → Prop}
    (hok : ∀ w i a, ok w i a → Unswept w i a) {w : World} (hw : World.ReachableWhen ok w)
    (j : WorkerId) : ¬ (w.procs j).Sweeping := by
  refine (hw.invariant (I := fun _ => True) (J := fun _ _ p => ¬ p.Sweeping) trivial
    (fun _ h => h) ?_).2 j
  intro w i a sh' p' _ ha _ hJ he
  refine ⟨trivial, fun hs => ?_, fun j _ => hJ j⟩
  rcases he.sweeping hs with hp | ⟨maxAge, rfl⟩
  · exact hJ i hp
  · exact hok w i _ ha

end TicketFlow
