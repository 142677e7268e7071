import TicketFlow.Checkpointer

/-! # Graph invocations

`ainvoke` drives a thread from its latest checkpoint until a node suspends, raises, or the graph
ends. Running a node and saving its outcome are separate atomic actions, since the node's own
transaction commits before the checkpoint does. What is shared is the database, the checkpoint
tables, and the log of what happened, newest first, which no code reads. -/

namespace TicketFlow
set_option autoImplicit false

inductive Event
  | created (ticket : Ticket)
  | accepted (ticketId : TicketId) (signalId : ℕ) (decision : ApprovalDecision)
  | claimed (workerId : WorkerId) (ticketId : TicketId)
  | ran (ticketId : TicketId) (node : Node) (values : TicketState) (resumes : List Resume)
  | saved (ticketId : TicketId) (status : TicketStatus) (consumedSignalId : Option ℕ)
  | recordedRefund (payload : TaskPayload) (first : Bool)
  | recordedReply (payload : TaskPayload) (first : Bool)
  | savedResult (payload : TaskPayload) (result : TicketResult)
  | storedResult (payload : TaskPayload) (result : TaskResult)
deriving DecidableEq

/-- The id an event hands out. -/
def Event.createdId : Event → Option TicketId
  | .created ticket => some ticket.id
  | _ => none

structure Shared where
  db : Database
  checkpoints : Checkpoints
  log : List Event

/-- A freshly bootstrapped database and a freshly set up checkpointer. -/
def Shared.empty : Shared := ⟨.empty, .empty, []⟩

/-- Commit one transaction. -/
def Shared.commit (sh : Shared) (db : Database) : Shared := { sh with db := db }

/-- Commit one transaction and note what it was. -/
def Shared.record (sh : Shared) (db : Database) (e : Event) : Shared :=
  { sh with db := db, log := e :: sh.log }

/-- The dict `ainvoke` returns: the state values, and `__interrupt__` when a node suspended. -/
structure Output where
  values : TicketState
  interrupt : Option Envelope
deriving DecidableEq

/-- A running `ainvoke`: its own copy of the checkpoint it continues, the value
`Command(resume=…)` brought, which only the first node can receive, and the outcome of the node
that ran last, until that is saved. -/
structure Invocation where
  checkpoint : Checkpoint
  offered : Option Resume
  result : Option NodeResult
deriving DecidableEq

inductive Invocation.Outcome
  | running (inv : Invocation)
  | returned (output : Output)
  | raised (error : GraphError)

namespace Invocation

/-- What the node's interrupts return, in order. -/
def resumes (inv : Invocation) : List Resume := inv.checkpoint.resumes ++ inv.offered.toList

/-- `ainvoke(Command(resume=value))`; `none` is LangGraph's refusal to resume an empty thread. -/
def resume (threadId : TicketId) (value : Resume) (c : Checkpoints) : Option Invocation :=
  (c.get threadId).map fun cp => ⟨cp, some value, none⟩

/-- `ainvoke({"ticket": ticket, "status": RECEIVED})` on a new thread: the input is the first
checkpoint. -/
def input (ticket : Ticket) (sh : Shared) : Shared × Invocation :=
  let values : TicketState := { ticket := ticket, status := .received }
  ({ sh with
      checkpoints := sh.checkpoints.put ticket.id values (some .dispatchClassify)
      log := .created ticket :: sh.log },
    ⟨sh.checkpoints.fresh ticket.id values (some .dispatchClassify), none, none⟩)

/-- Run the next node, or save the outcome of the one that ran. -/
def advance (inv : Invocation) (sh : Shared) : Shared × Outcome :=
  let cp := inv.checkpoint
  match inv.result with
  | none =>
    match cp.next with
    | none => (sh, .returned ⟨cp.values, none⟩)
    | some n =>
      let (db, result) := n.run cp.values inv.resumes sh.db
      (sh.record db (.ran cp.threadId n cp.values inv.resumes),
        .running { inv with result := some result })
  | some (.update values) =>
    let next := cp.next.bind fun n => n.after values
    ({ sh with checkpoints := sh.checkpoints.put cp.threadId values next },
      .running ⟨sh.checkpoints.fresh cp.threadId values next, none, none⟩)
  | some (.interrupt env) =>
    ({ sh with checkpoints := sh.checkpoints.putWrites cp inv.resumes env },
      .returned ⟨cp.values, some env⟩)
  | some (.raise error) => (sh, .raised error)

end Invocation
end TicketFlow
