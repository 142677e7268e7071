import TicketFlow.Graph

/-! # Durable threads

What the workflow uses of LangGraph's checkpoint tables: the latest checkpoint of every thread,
with the writes of its suspended task. A completed node puts a new checkpoint; an interrupt writes
to the checkpoint it started from, and is invisible once that one is no longer the latest. -/

namespace TicketFlow
open Table
set_option autoImplicit false

/-- `next` is the node to run, `none` at `END`; `resumes` and `interrupt` are the pending writes of
that node: the values its interrupts have returned, and the interrupt it is suspended at. -/
structure Checkpoint where
  threadId : TicketId
  checkpointId : ℕ
  values : TicketState
  next : Option Node
  resumes : List Resume
  interrupt : Option Envelope
deriving DecidableEq

/-- The latest checkpoint of every thread, newest first. -/
structure Checkpoints where
  rows : List Checkpoint
  seq : ℕ

namespace Checkpoints

def empty : Checkpoints := ⟨[], 0⟩

def get (threadId : TicketId) (c : Checkpoints) : Option Checkpoint :=
  lookup Checkpoint.threadId threadId c.rows

/-- The checkpoint `put` saves. -/
def fresh (threadId : TicketId) (values : TicketState) (next : Option Node) (c : Checkpoints) :
    Checkpoint where
  threadId := threadId
  checkpointId := c.seq
  values := values
  next := next
  resumes := []
  interrupt := none

def put (threadId : TicketId) (values : TicketState) (next : Option Node) (c : Checkpoints) :
    Checkpoints where
  rows := c.fresh threadId values next :: c.rows.filter (·.threadId ≠ threadId)
  seq := c.seq + 1

/-- Record that the node of checkpoint `base` suspended. -/
def putWrites (base : Checkpoint) (resumes : List Resume) (interrupt : Envelope)
    (c : Checkpoints) : Checkpoints where
  rows := updateWhere (fun r => r.threadId = base.threadId ∧ r.checkpointId = base.checkpointId)
    (fun r => { r with resumes := resumes, interrupt := some interrupt }) c.rows
  seq := c.seq

/-- `adelete_thread`. -/
def deleteThread (threadId : TicketId) (c : Checkpoints) : Checkpoints where
  rows := c.rows.filter (·.threadId ≠ threadId)
  seq := c.seq

variable {c : Checkpoints} {t u : TicketId} {values : TicketState} {next : Option Node}
  {base cp : Checkpoint} {resumes : List Resume} {env : Envelope}

theorem threadId_of_get (h : c.get t = some cp) : cp.threadId = t := (lookup_eq_some h).2

@[simp] theorem get_empty : empty.get t = none := rfl

@[simp] theorem get_put_self : (c.put t values next).get t = some (c.fresh t values next) := by
  rw [get, put, lookup_cons, if_pos]
  rfl

@[simp] theorem get_put_of_ne (h : u ≠ t) : (c.put t values next).get u = c.get u := by
  have hf : (c.fresh t values next).threadId ≠ u := Ne.symm h
  rw [get, put, lookup_cons, if_neg hf, lookup_filter_ne h]
  rfl

@[simp] theorem get_deleteThread_self : (c.deleteThread t).get t = none := by
  rw [get, deleteThread, lookup_eq_none]
  simp

@[simp] theorem get_deleteThread_of_ne (h : u ≠ t) : (c.deleteThread t).get u = c.get u :=
  lookup_filter_ne h

/-- What a thread's latest checkpoint becomes when the node of `base` suspends. -/
theorem get_putWrites : (c.putWrites base resumes env).get t =
    (c.get t).map fun r => if r.threadId = base.threadId ∧ r.checkpointId = base.checkpointId
      then { r with resumes := resumes, interrupt := some env } else r :=
  lookup_updateWhere fun _ => rfl

@[simp] theorem get_putWrites_of_ne (h : t ≠ base.threadId) :
    (c.putWrites base resumes env).get t = c.get t := by
  rw [get_putWrites]
  cases hg : c.get t with
  | none => rfl
  | some r =>
    have hr := threadId_of_get hg
    simp [hr, h]

end Checkpoints
end TicketFlow
