import TicketFlow.Invocation
import TicketFlow.Ledger

/-! # Request handlers

`create_ticket`, `submit_approval`, `list_tickets` and `get_ticket` of `api.py`. Creating a ticket
seeds its thread with one `ainvoke` and inserts the run row afterwards; approving is one transaction;
a status is read from the checkpoint first and from the read model afterwards. -/

namespace TicketFlow.Api
set_option autoImplicit false

/-- Where `create_ticket` is. -/
inductive Pc
  | seeding (inv : Invocation)
  | seeded (ticketId : TicketId) (out : Output)
deriving DecidableEq

/-- What an action of the handler leads to: the next one, or its response. -/
inductive Next
  | at (pc : Pc)
  | responded (status : ℕ)

/-- The id comes from `uuid4`, so no ticket had it before. -/
def createTicket (ticket : Ticket) (sh : Shared) : Option (Shared × Next) :=
  if ∃ e ∈ sh.log, e.createdId = some ticket.id then none
  else
    let (sh, inv) := Invocation.input ticket sh
    some (sh, .at (.seeding inv))

def advance (pc : Pc) (sh : Shared) : Shared × Next :=
  match pc with
  | .seeding inv =>
    let ticketId := inv.checkpoint.threadId
    match inv.advance sh with
    | (sh, .running inv) => (sh, .at (.seeding inv))
    | (sh, .returned out) => (sh, .at (.seeded ticketId out))
    | (sh, .raised _) => (sh, .responded 500)
  | .seeded ticketId out =>
    (sh.commit (Db.createRun ticketId out.values.status out.values.wakeupAt sh.db),
      .responded 201)

/-- Accept a human approval decision by writing a durable workflow signal. -/
def submitApproval (ticketId : TicketId) (decision : ApprovalDecision) (sh : Shared) :
    Shared × Next :=
  match Db.addPendingSignalIfWaiting ticketId .approvalDecision decision .awaitingApproval sh.db with
  | (db, some signalId) => (sh.record db (.accepted ticketId signalId decision), .responded 200)
  | (db, none) => (sh.commit db, .responded 409)

/-- The ids of the tickets whose projected run has the status. -/
def listTickets (status : TicketStatus) (db : Database) : List TicketId :=
  Db.listRunsByStatus status db

/-- Current or archived status returned by the ticket status API. -/
structure TicketStatusInfo where
  ticketId : TicketId
  status : TicketStatus
  classification : Option Classification := none
  draft : Option DraftReply := none
  decision : Option ApprovalDecision := none
  result : Option TicketResult := none
deriving DecidableEq

/-- The state the snapshot shows, else the stored result; `none` is a 404. -/
def getTicket (ticketId : TicketId) (snapshot : Option Checkpoint) (db : Database) :
    Option TicketStatusInfo :=
  match snapshot with
  | some cp => some
    { ticketId := ticketId
      status := cp.values.status
      classification := cp.values.classification
      draft := cp.values.draft
      decision := cp.values.decision
      result := cp.values.result }
  | none => (Readmodel.loadResult ticketId db).map fun result =>
    { ticketId := ticketId, status := result.status, result := some result }

end TicketFlow.Api
