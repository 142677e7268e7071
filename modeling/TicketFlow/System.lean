import TicketFlow.Library.Interleaving
import TicketFlow.Api
import TicketFlow.Janitor
import TicketFlow.Runner
import TicketFlow.Worker

/-! # The whole system

Any number of processes over one database and one set of checkpoint tables. A process is idle or
somewhere inside a request handler, a runner step, a worker's task or a periodic chore; it may
crash anywhere, time passes freely, and every action is one transaction or less. -/

namespace TicketFlow
open Interleaving
set_option autoImplicit false

inductive Proc
  | idle
  | api (pc : Api.Pc)
  | runner (pc : Runner.Pc)
  | worker (pc : Worker.Pc)
  | janitor (pc : Janitor.Pc)
deriving DecidableEq

/-- `locked` is what `SKIP LOCKED` passes over; the answer of an agent, the decision of an approver
and the content of a ticket come from outside. -/
inductive Action
  | tick (elapsed : Time)
  | crash
  | advance
  | createTicket (ticket : Ticket)
  | submitApproval (ticketId : TicketId) (decision : ApprovalDecision)
  | claimRun (locked : TicketId → Bool)
  | dequeue (queueName : QueueName) (locked : ℕ → Bool)
  | activityReturns (result : TaskResult)
  | activityRaises (error : String) (permanent : Bool)
  | reclaimExpiredLeases
  | reconcileOrphanedRuns
  | runRetention (maxAge : Time)

namespace Proc

def ofApi : Shared × Api.Next → Shared × Proc
  | (sh, .at pc) => (sh, .api pc)
  | (sh, .responded _) => (sh, .idle)

def ofRunner : Shared × Runner.Next → Shared × Proc
  | (sh, .at pc) => (sh, .runner pc)
  | (sh, .returned _) => (sh, .idle)
  | (sh, .stopped _) => (sh, .idle)

def ofWorker : Shared × Worker.Next → Shared × Proc
  | (sh, .at pc) => (sh, .worker pc)
  | (sh, .returned _) => (sh, .idle)

def ofJanitor : Shared × Janitor.Next → Shared × Proc
  | (sh, .at pc) => (sh, .janitor pc)
  | (sh, .returned) => (sh, .idle)
  | (sh, .stopped) => (sh, .idle)

/-- Carry on with what the process is in the middle of. -/
def advance (sh : Shared) : Proc → Option (Shared × Proc)
  | .idle => none
  | .api pc => some (ofApi (Api.advance pc sh))
  | .runner pc => some (ofRunner (Runner.advance pc sh))
  | .worker pc => (Worker.advance pc sh).map ofWorker
  | .janitor pc => some (ofJanitor (Janitor.advance pc sh))

/-- The leased task whose agent is working. -/
def leased : Proc → Option QueuedTask
  | .worker (.leased task) => some task
  | _ => none

/-- The leased task whose activity may still raise. -/
def activity : Proc → Option QueuedTask
  | .worker pc => pc.activity
  | _ => none

/-- Process `i` in state `p` performs an action. Only the agent raises `AgentPermanentError`. -/
def step : Program Shared Proc Action := fun sh i p a =>
  match a with
  | .tick elapsed => some (sh.commit { sh.db with now := sh.db.now + elapsed }, p)
  | .crash => some (sh, .idle)
  | .advance => p.advance sh
  | .createTicket ticket =>
    if p = .idle then (Api.createTicket ticket sh).map ofApi else none
  | .submitApproval ticketId decision =>
    if p = .idle then some (ofApi (Api.submitApproval ticketId decision sh)) else none
  | .claimRun locked => if p = .idle then some (ofRunner (Runner.claim i locked sh)) else none
  | .dequeue queueName locked =>
    if p = .idle then some (ofWorker (Worker.dequeue queueName i locked sh)) else none
  | .activityReturns result =>
    p.leased.bind fun task =>
      if ¬ Worker.runsFinalize task ∧ Worker.Answers task result then
        some (sh, .worker (.completing task result)) else none
  | .activityRaises error permanent =>
    p.activity.bind fun task =>
      if permanent = true → ¬ Worker.runsFinalize task then
        some (sh, .worker (.failing task error permanent)) else none
  | .reclaimExpiredLeases =>
    if p = .idle then some (ofJanitor (Janitor.reclaimExpiredLeases sh)) else none
  | .reconcileOrphanedRuns =>
    if p = .idle then some (ofJanitor (Janitor.reconcileOrphanedRuns sh)) else none
  | .runRetention maxAge =>
    if p = .idle then some (ofJanitor (Janitor.runRetention maxAge sh)) else none

end Proc

/-- A state of the whole system. -/
abbrev World := Config Shared Proc

/-- A fresh database, and every process idle. -/
def World.initial : World := ⟨.empty, fun _ => .idle⟩

/-- The worlds a run can reach by steps that all meet `ok`. -/
abbrev World.ReachableWhen (ok : World → WorkerId → Action → Prop) : World → Prop :=
  Interleaving.ReachableWhen Proc.step (· = World.initial) ok

/-- The worlds any run can reach. -/
abbrev World.Reachable : World → Prop :=
  Interleaving.Reachable Proc.step (· = World.initial)

/-! ## Schedules

The common beginnings of the runs the later modules replay. Nothing is locked in them. -/

abbrev Schedule := List (WorkerId × Action)

namespace Schedule

def unlocked : ℕ → Bool := fun _ => false

def ticket : Ticket := ⟨7, "customer@example.com", "Where is my refund?", "It never came."⟩

def classification : Classification := ⟨.billing, ⟨9 / 10, by norm_num⟩, "primary"⟩

/-- A draft nobody has to approve. -/
def safeDraft : DraftReply :=
  ⟨"It is on its way.", ⟨.replyOnly, none, replyOnly_needs_no_amount⟩, ⟨9 / 10, by norm_num⟩, "primary"⟩

/-- A draft that needs approval. -/
def riskyDraft : DraftReply :=
  ⟨"It is on its way.", ⟨.replyOnly, none, replyOnly_needs_no_amount⟩, ⟨1 / 2, by norm_num⟩, "primary"⟩

/-- A draft that moves money. -/
def refundDraft : DraftReply :=
  ⟨"We refund you.", ⟨.refund, some ⟨25, by norm_num⟩, by decide⟩, ⟨9 / 10, by norm_num⟩, "primary"⟩

/-- Process `i` carries on `n` times. -/
def advance (i : WorkerId) (n : ℕ) : Schedule := List.replicate n (i, .advance)

/-- A request creates the ticket: three checkpoints, one task, one run row. -/
def create : Schedule := (0, .createTicket ticket) :: advance 0 5

/-- A worker leases a task and the agent answers it; nothing is stored yet. -/
def answer (i : WorkerId) (queueName : QueueName) (result : TaskResult) : Schedule :=
  [(i, .dequeue queueName unlocked), (i, .activityReturns result)]

/-- A worker answers a task, completes it and wakes the run. -/
def work (i : WorkerId) (queueName : QueueName) (result : TaskResult) : Schedule :=
  answer i queueName result ++ advance i 2

/-- The approver decides. -/
def submit (approved : Bool) : Schedule := [(0, .submitApproval 7 ⟨approved, "approver", none⟩)]

/-- A runner claims the run and carries on `n` times. -/
def step (i : WorkerId) (n : ℕ) : Schedule := (i, .claimRun unlocked) :: advance i n

/-- The ticket classified and its draft dispatched: the run is parked at `await_draft`. -/
def drafting : Schedule :=
  create ++ work 1 .agentTaskQueue (.classification classification) ++ step 2 10

/-- The ticket drafted: a safe draft parks at the finalize task, a risky one at the approval. -/
def drafted (reply : DraftReply) (n : ℕ) : Schedule :=
  drafting ++ work 1 .agentTaskQueue (.draft reply) ++ step 2 n

/-- Worker `i` leases a task and its activity raises; the retry waits for the backoff. -/
def failure (i : WorkerId) (queueName : QueueName) : Schedule :=
  [(i, .dequeue queueName unlocked), (i, .activityRaises "unavailable" false), (i, .advance),
    (0, .tick (seconds 8))]

/-- The ticket's finalize task has failed for good. -/
def finalizeFailed : Schedule :=
  drafted safeDraft 10 ++ failure 3 .taskQueue ++ failure 3 .taskQueue ++ failure 3 .taskQueue

end Schedule

end TicketFlow
