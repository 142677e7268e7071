import TicketFlow.Db

/-! # Ledgers and read model

The at-most-once ledgers of `ledger.py` and the transactions of `readmodel.py` that wrap them. -/

namespace TicketFlow
open Table
set_option autoImplicit false

namespace Ledger

/-- Log a refund attempt; the refund itself is inserted only the first time. -/
def recordRefund (ticketId : TicketId) (amount : Amount) (attempt : ℕ) (db : Database) :
    Database × Bool :=
  ({ db with
      refundAttempts := db.refundAttempts ++ [⟨ticketId, attempt, db.now⟩]
      refunds := insertNew Refund.ticketId ⟨ticketId, amount, db.now⟩ db.refunds },
    decide (¬ ∃ r ∈ db.refunds, r.ticketId = ticketId))

/-- Whether a refund is durably recorded for the ticket. -/
def refundRecorded (ticketId : TicketId) (db : Database) : Bool :=
  decide (∃ r ∈ db.refunds, r.ticketId = ticketId)

/-- Log a reply attempt; the reply itself is inserted only the first time. -/
def recordSentReply (ticketId : TicketId) (customerEmail replyText : String) (attempt : ℕ)
    (db : Database) : Database × Bool :=
  ({ db with
      replyAttempts := db.replyAttempts ++ [⟨ticketId, attempt, db.now⟩]
      sentReplies := insertNew SentReply.ticketId ⟨ticketId, customerEmail, replyText, db.now⟩
        db.sentReplies },
    decide (¬ ∃ r ∈ db.sentReplies, r.ticketId = ticketId))

end Ledger

namespace Readmodel

/-- `INSERT … ON CONFLICT (ticket_id) DO UPDATE SET data`. -/
def saveResult (result : TicketResult) (db : Database) : Database :=
  { db with
    ticketResults :=
      if ∃ r ∈ db.ticketResults, r.1 = result.ticketId then
        updateWhere (·.1 = result.ticketId) (fun r => (r.1, result)) db.ticketResults
      else db.ticketResults ++ [(result.ticketId, result)] }

def loadResult (ticketId : TicketId) (db : Database) : Option TicketResult :=
  (db.ticketResults.find? (·.1 = ticketId)).map (·.2)

end Readmodel
end TicketFlow
