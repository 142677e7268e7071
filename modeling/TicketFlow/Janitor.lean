import TicketFlow.Invocation
import TicketFlow.Taskqueue

/-! # Janitor and retention

The periodic chores of `run_forever` in `runner.py`, each transaction an action of its own:
`reclaim_expired_leases`, `reconcile_orphaned_runs` and `run_retention`. -/

namespace TicketFlow.Janitor
set_option autoImplicit false

/-- Where a chore is. -/
inductive Pc
  | reclaimingRuns
  | reconciling (orphaned : List TicketId)
  | projecting (ticketId : TicketId) (values : TicketState) (rest : List TicketId)
  | deletingThreads (archived : List TicketId) (maxAge : Time)
  | pruningSignals (maxAge : Time)
  | pruningTasks (maxAge : Time)
deriving DecidableEq

/-- What an action of a chore leads to: the next one, its end, or a Postgres error that leaves
`run_forever`. -/
inductive Next
  | at (pc : Pc)
  | returned
  | stopped

/-- `reclaim_expired_leases`: the tasks first, then the runs. -/
def reclaimExpiredLeases (sh : Shared) : Shared × Next :=
  (sh.commit (Taskqueue.reclaimExpired sh.db).1, .at .reclaimingRuns)

/-- Checkpoint threads that have no run row. -/
def listOrphanedCheckpointThreads (sh : Shared) : List TicketId :=
  ((sh.checkpoints.rows.map Checkpoint.threadId).dedup).filter fun t =>
    ¬ ∃ r ∈ sh.db.workflowRun, r.ticketId = t

def reconcileOrphanedRuns (sh : Shared) : Shared × Next :=
  (sh, .at (.reconciling (listOrphanedCheckpointThreads sh)))

/-- The archive step of `run_retention`. -/
def runRetention (maxAge : Time) (sh : Shared) : Shared × Next :=
  match Db.archiveTerminalRuns maxAge sh.db with
  | none => (sh, .stopped)
  | some (db, archived) => (sh.commit db, .at (.deletingThreads archived maxAge))

def advance (pc : Pc) (sh : Shared) : Shared × Next :=
  match pc with
  | .reclaimingRuns => (sh.commit (Db.reclaimExpiredRuns sh.db), .returned)
  | .reconciling [] => (sh, .returned)
  | .reconciling (ticketId :: rest) =>
    match sh.checkpoints.get ticketId with
    | none => (sh, .at (.reconciling rest))
    | some cp => (sh, .at (.projecting ticketId cp.values rest))
  | .projecting ticketId values rest =>
    (sh.commit (Db.createRun ticketId values.status values.wakeupAt sh.db),
      .at (.reconciling rest))
  | .deletingThreads [] maxAge => (sh, .at (.pruningSignals maxAge))
  | .deletingThreads (ticketId :: rest) maxAge =>
    ({ sh with checkpoints := sh.checkpoints.deleteThread ticketId },
      .at (.deletingThreads rest maxAge))
  | .pruningSignals maxAge =>
    (sh.commit (Db.pruneConsumedSignals maxAge sh.db), .at (.pruningTasks maxAge))
  | .pruningTasks maxAge => (sh.commit (Taskqueue.pruneSettled maxAge sh.db), .returned)

end TicketFlow.Janitor
