import TicketFlow.Library.AtMostOnce
import TicketFlow.Deliveries

/-! # Exactly-once terminal effects

A finalize task may be delivered any number of times and die between any two commits of
`run_finalize`. The ledgers record each effect once, and every result that is ever saved or stored
says truthfully whether money moved. -/

namespace TicketFlow
open Table AtMostOnce Interleaving
set_option autoImplicit false

/-! ## What a payload asks for -/

/-- The payload resolves its ticket with a refund. -/
def RefundDue (payload : TaskPayload) : Prop :=
  ∃ action result, payload.action = some action ∧ payload.result = some result ∧
    result.status = .resolved ∧ action.type = .refund

instance : DecidablePred RefundDue
  | .classify _ => isFalse fun ⟨_, _, h, _⟩ => nomatch h
  | .draft _ _ => isFalse fun ⟨_, _, h, _⟩ => nomatch h
  | .finalize _ action result =>
    decidable_of_iff (result.status = .resolved ∧ action.type = .refund)
      ⟨fun h => ⟨action, result, rfl, rfl, h⟩, fun ⟨_, _, ha, hr, h⟩ => by cases ha; cases hr; exact h⟩

/-- `payload["action"]["refund_amount"]`. -/
def TaskPayload.refundAmount (payload : TaskPayload) : Option Amount :=
  payload.action.bind ProposedAction.refundAmount

/-- The states `run_finalize` starts in, and what they say about the payload. -/
inductive Starts (task : QueuedTask) : Worker.Pc → Prop
  | refunding {amount result} : task.payload.result = some result → RefundDue task.payload →
      task.payload.refundAmount = some amount → Starts task (.refunding task amount result)
  | replying {result} : task.payload.result = some result → ¬ RefundDue task.payload →
      Starts task (.replying task result false)
  | failing {error} : Starts task (.failing task error false)

theorem startFinalize_starts (task : QueuedTask) : Starts task (Worker.startFinalize task) := by
  unfold Worker.startFinalize
  split
  · exact .failing
  · cases hp : task.payload with
    | classify ticket => exact .failing
    | draft ticket c => exact .failing
    | finalize ticket action result =>
      simp only [TaskPayload.action, TaskPayload.result]
      split
      · rename_i hdue
        split
        · rename_i amount hamount
          refine .refunding (by rw [hp]; rfl) ⟨action, result, ?_, ?_, hdue⟩ ?_
          · rw [hp]; rfl
          · rw [hp]; rfl
          · rw [hp]; exact hamount
        · exact .failing
      · rename_i hdue
        refine .replying (by rw [hp]; rfl) ?_
        rintro ⟨action', result', ha, hr, hdue'⟩
        rw [hp] at ha hr
        cases ha
        cases hr
        exact hdue hdue'

/-! ## The calls on record -/

/-- The answer of a `record_refund` call for the ticket. -/
def Event.refundCall (t : TicketId) : Event → Option Bool
  | .recordedRefund payload first => if payload.ticket.id = t then some first else none
  | _ => none

/-- The answer of a `record_sent_reply` call for the ticket. -/
def Event.replyCall (t : TicketId) : Event → Option Bool
  | .recordedReply payload first => if payload.ticket.id = t then some first else none
  | _ => none

/-- The answers of all committed `record_refund` calls for the ticket, newest first. -/
def refundCalls (t : TicketId) (log : List Event) : List Bool := log.filterMap (Event.refundCall t)

/-- The answers of all committed `record_sent_reply` calls for the ticket, newest first. -/
def replyCalls (t : TicketId) (log : List Event) : List Bool := log.filterMap (Event.replyCall t)

/-- A refund call for the payload has committed. -/
def Refunded (log : List Event) (payload : TaskPayload) : Prop :=
  ∃ first, .recordedRefund payload first ∈ log

/-- The result is the payload's, and its flag tells whether a refund was due and recorded. -/
structure Truthful (log : List Event) (payload : TaskPayload) (result : TicketResult) : Prop where
  expected : ∃ r, payload.result = some r ∧
    result = { r with refundExecuted := result.refundExecuted }
  ticket : payload.ticket.id = result.ticketId
  flag : result.refundExecuted = true ↔ RefundDue payload
  refunded : RefundDue payload → Refunded log payload

variable {sh sh' : Shared} {i : WorkerId} {p p' : Proc} {a : Action} {t : TicketId}
  {log log' : List Event} {payload : TaskPayload} {result : TicketResult}

theorem Refunded.mono (h : Refunded log payload) (hl : log <:+ log') : Refunded log' payload :=
  h.imp fun _ hm => hl.subset hm

theorem Truthful.mono (h : Truthful log payload result) (hl : log <:+ log') :
    Truthful log' payload result :=
  ⟨h.expected, h.ticket, h.flag, fun hd => (h.refunded hd).mono hl⟩

/-! ## The worker's side -/

/-- What each state of `run_finalize` knows. -/
def FinalizeSound (log : List Event) : Worker.Pc → Prop
  | .refunding task amount result => task.payload.result = some result ∧ RefundDue task.payload ∧
      task.payload.refundAmount = some amount
  | .checking task result => task.payload.result = some result ∧ RefundDue task.payload ∧
      Refunded log task.payload
  | .replying task result flag => task.payload.result = some result ∧
      (flag = true ↔ RefundDue task.payload) ∧ (RefundDue task.payload → Refunded log task.payload)
  | .recording task result => Truthful log task.payload result
  | .completing task (.terminal result) => .savedResult task.payload result ∈ log
  | _ => True

theorem FinalizeSound.mono {pc : Worker.Pc} (h : FinalizeSound log pc) (hl : log <:+ log') :
    FinalizeSound log' pc := by
  cases pc with
  | leased task => trivial
  | refunding task amount result => exact h
  | checking task result => exact ⟨h.1, h.2.1, h.2.2.mono hl⟩
  | replying task result flag => exact ⟨h.1, h.2.1, fun hd => (h.2.2 hd).mono hl⟩
  | recording task result => exact Truthful.mono h hl
  | completing task result =>
    cases result with
    | terminal result => exact hl.subset h
    | classification c => trivial
    | draft d => trivial
  | failing task error permanent => trivial
  | waking task => trivial

/-! ## The ledgers' side -/

/-- The ledgers agree with the calls on record, and everything saved or stored is truthful. -/
structure LedgersSound (sh : Shared) : Prop where
  refunds : Consistent Refund.ticketId sh.db.refunds (sh.db.refundAttempts.map Attempt.ticketId)
    fun t => refundCalls t sh.log
  replies : Consistent SentReply.ticketId sh.db.sentReplies
    (sh.db.replyAttempts.map Attempt.ticketId) fun t => replyCalls t sh.log
  amounts : ∀ r ∈ sh.db.refunds, ∃ payload, .recordedRefund payload true ∈ sh.log ∧
    payload.ticket.id = r.ticketId ∧ payload.refundAmount = some r.amount
  saved : ∀ payload result, .savedResult payload result ∈ sh.log → Truthful sh.log payload result
  stored : ∀ payload result, .storedResult payload (.terminal result) ∈ sh.log →
    .savedResult payload result ∈ sh.log
  readModel : ∀ row ∈ sh.db.ticketResults, row.1 = row.2.ticketId ∧
    ∃ payload, .savedResult payload row.2 ∈ sh.log

theorem LedgersSound.empty : LedgersSound .empty where
  refunds := .empty
  replies := .empty
  amounts _ hr := nomatch hr
  saved _ _ h := nomatch h
  stored _ _ h := nomatch h
  readModel _ h := nomatch h

/-- The calls of `run_finalize`, and the completions. -/
def Event.ledger : Event → Bool
  | .recordedRefund _ _ | .recordedReply _ _ | .savedResult _ _ | .storedResult _ _ => true
  | _ => false

/-- What an action changes that is neither a ledger write nor a stored result. -/
structure Unledgered (sh sh' : Shared) : Prop where
  refunds : sh'.db.refunds = sh.db.refunds
  refundAttempts : sh'.db.refundAttempts = sh.db.refundAttempts
  sentReplies : sh'.db.sentReplies = sh.db.sentReplies
  replyAttempts : sh'.db.replyAttempts = sh.db.replyAttempts
  ticketResults : sh'.db.ticketResults = sh.db.ticketResults
  log : sh'.log = sh.log ∨ ∃ e, sh'.log = e :: sh.log ∧ e.ledger = false

theorem calls_of_not_ledger {e : Event} (h : e.ledger = false) (t : TicketId) :
    e.refundCall t = none ∧ e.replyCall t = none := by
  cases e <;> first | exact ⟨rfl, rfl⟩ | cases h

theorem refundCalls_cons (t : TicketId) (e : Event) (log : List Event) :
    refundCalls t (e :: log) = (e.refundCall t).toList ++ refundCalls t log := by
  unfold refundCalls
  rw [List.filterMap_cons]
  cases e.refundCall t <;> rfl

theorem replyCalls_cons (t : TicketId) (e : Event) (log : List Event) :
    replyCalls t (e :: log) = (e.replyCall t).toList ++ replyCalls t log := by
  unfold replyCalls
  rw [List.filterMap_cons]
  cases e.replyCall t <;> rfl

theorem Unledgered.calls (h : Unledgered sh sh') (t : TicketId) :
    refundCalls t sh'.log = refundCalls t sh.log ∧ replyCalls t sh'.log = replyCalls t sh.log := by
  rcases h.log with he | ⟨e, he, hl⟩
  · rw [he]
    exact ⟨rfl, rfl⟩
  · obtain ⟨hrefund, hreply⟩ := calls_of_not_ledger hl t
    rw [he, refundCalls_cons, replyCalls_cons, hrefund, hreply]
    exact ⟨rfl, rfl⟩

theorem Unledgered.mem_log (h : Unledgered sh sh') {e : Event} (hl : e.ledger = true)
    (hm : e ∈ sh'.log) : e ∈ sh.log := by
  rcases h.log with he | ⟨e', he, hl'⟩
  · rwa [he] at hm
  · rw [he] at hm
    refine (List.mem_cons.mp hm).resolve_left fun heq => ?_
    rw [heq, hl'] at hl
    cases hl

theorem Unledgered.suffix (h : Unledgered sh sh') : sh.log <:+ sh'.log := by
  rcases h.log with he | ⟨e, he, -⟩
  · exact he ▸ List.suffix_rfl
  · exact he ▸ List.suffix_cons ..

theorem LedgersSound.unledgered (h : LedgersSound sh) (hu : Unledgered sh sh') : LedgersSound sh' where
  refunds := by
    rw [hu.refunds, hu.refundAttempts, funext fun t => (hu.calls t).1]
    exact h.refunds
  replies := by
    rw [hu.sentReplies, hu.replyAttempts, funext fun t => (hu.calls t).2]
    exact h.replies
  amounts r hr := by
    rw [hu.refunds] at hr
    obtain ⟨payload, hm, hrest⟩ := h.amounts r hr
    exact ⟨payload, hu.suffix.subset hm, hrest⟩
  saved payload result hm := (h.saved payload result (hu.mem_log rfl hm)).mono hu.suffix
  stored payload result hm := hu.suffix.subset (h.stored payload result (hu.mem_log rfl hm))
  readModel row hr := by
    rw [hu.ticketResults] at hr
    obtain ⟨hkey, payload, hm⟩ := h.readModel row hr
    exact ⟨hkey, payload, hu.suffix.subset hm⟩

theorem LedgersSound.refunded {task : QueuedTask} {amount : Amount} (h : LedgersSound sh)
    (hp : FinalizeSound sh.log (.refunding task amount result)) :
    LedgersSound (sh.record (Ledger.recordRefund task.payload.ticket.id amount task.attempts sh.db).1
      (.recordedRefund task.payload
        (Ledger.recordRefund task.payload.ticket.id amount task.attempts sh.db).2)) := by
  set t := task.payload.ticket.id with ht
  set first := (Ledger.recordRefund t amount task.attempts sh.db).2 with hfirst
  have hcons : ∀ u, refundCalls u (.recordedRefund task.payload first :: sh.log) =
      if u = t then first :: refundCalls u sh.log else refundCalls u sh.log := by
    intro u
    rw [refundCalls_cons]
    by_cases hu : u = t
    · rw [if_pos hu, Event.refundCall, if_pos (by rw [← ht, hu])]
      rfl
    · rw [if_neg hu, Event.refundCall, if_neg (by rw [← ht]; exact Ne.symm hu)]
      rfl
  refine ⟨?_, ?_, ?_, ?_, ?_, ?_⟩
  · change Consistent _ (insertNew Refund.ticketId ⟨t, amount, sh.db.now⟩ sh.db.refunds)
      ((sh.db.refundAttempts ++ [_]).map _) fun u => refundCalls u (_ :: sh.log)
    rw [List.map_append, List.map_singleton]
    refine h.refunds.record (r := ⟨t, amount, sh.db.now⟩) ?_ ?_
    · rw [hcons, if_pos rfl]
      rfl
    · intro u hu
      rw [hcons, if_neg hu]
  · exact h.replies
  · intro r hr
    rcases mem_insertNew hr with hr | ⟨rfl, hno⟩
    · obtain ⟨payload, hm, hrest⟩ := h.amounts r hr
      exact ⟨payload, List.mem_cons_of_mem _ hm, hrest⟩
    · have htrue : first = true := decide_eq_true fun ⟨r, hr, he⟩ => hno r hr he
      exact ⟨task.payload, htrue ▸ List.mem_cons_self, rfl, hp.2.2⟩
  · intro payload result hm
    exact (h.saved payload result (List.mem_of_ne_of_mem (by simp) hm)).mono (List.suffix_cons ..)
  · intro payload result hm
    exact List.mem_cons_of_mem _ (h.stored payload result (List.mem_of_ne_of_mem (by simp) hm))
  · intro row hr
    obtain ⟨hkey, payload, hm⟩ := h.readModel row hr
    exact ⟨hkey, payload, List.mem_cons_of_mem _ hm⟩

theorem LedgersSound.replied {task : QueuedTask} {db : Database} {first : Bool} {email text : String}
    (h : LedgersSound sh)
    (hs : Ledger.recordSentReply task.payload.ticket.id email text task.attempts sh.db = (db, first)) :
    LedgersSound (sh.record db (.recordedReply task.payload first)) := by
  set t := task.payload.ticket.id with ht
  cases hs
  have hcons : ∀ u answer, replyCalls u (.recordedReply task.payload answer :: sh.log) =
      if u = t then answer :: replyCalls u sh.log else replyCalls u sh.log := by
    intro u answer
    rw [replyCalls_cons]
    by_cases hu : u = t
    · rw [if_pos hu, Event.replyCall, if_pos (by rw [← ht, hu])]
      rfl
    · rw [if_neg hu, Event.replyCall, if_neg (by rw [← ht]; exact Ne.symm hu)]
      rfl
  refine ⟨h.refunds, ?_, ?_, ?_, ?_, ?_⟩
  · change Consistent _ (insertNew SentReply.ticketId ⟨t, email, text, sh.db.now⟩ sh.db.sentReplies)
      ((sh.db.replyAttempts ++ [_]).map _) fun u => replyCalls u (_ :: sh.log)
    rw [List.map_append, List.map_singleton]
    refine h.replies.record (r := ⟨t, email, text, sh.db.now⟩) ?_ ?_
    · rw [hcons, if_pos rfl]
    · intro u hu
      rw [hcons, if_neg hu]
  · intro r hr
    obtain ⟨payload, hm, hrest⟩ := h.amounts r hr
    exact ⟨payload, List.mem_cons_of_mem _ hm, hrest⟩
  · intro payload result hm
    exact (h.saved payload result (List.mem_of_ne_of_mem (by simp) hm)).mono (List.suffix_cons ..)
  · intro payload result hm
    exact List.mem_cons_of_mem _ (h.stored payload result (List.mem_of_ne_of_mem (by simp) hm))
  · intro row hr
    obtain ⟨hkey, payload, hm⟩ := h.readModel row hr
    exact ⟨hkey, payload, List.mem_cons_of_mem _ hm⟩

theorem mem_saveResult {db : Database} {row : TicketId × TicketResult}
    (h : row ∈ (Readmodel.saveResult result db).ticketResults) :
    row ∈ db.ticketResults ∨ row = (result.ticketId, result) := by
  simp only [Readmodel.saveResult] at h
  split at h
  · rcases mem_updateWhere.mp h with ⟨row₀, -, hk, rfl⟩ | ⟨h, -⟩
    · right
      rw [hk]
    · exact .inl h
  · rcases List.mem_append.mp h with h | h
    · exact .inl h
    · exact .inr (List.mem_singleton.mp h)

theorem LedgersSound.recorded {task : QueuedTask} (h : LedgersSound sh)
    (hp : FinalizeSound sh.log (.recording task result)) :
    LedgersSound (sh.record (Readmodel.saveResult result sh.db) (.savedResult task.payload result)) := by
  refine ⟨h.refunds, h.replies, ?_, ?_, ?_, ?_⟩
  · intro r hr
    obtain ⟨payload, hm, hrest⟩ := h.amounts r hr
    exact ⟨payload, List.mem_cons_of_mem _ hm, hrest⟩
  · intro payload result' hm
    refine Truthful.mono ?_ (List.suffix_cons ..)
    rcases List.mem_cons.mp hm with heq | hm
    · cases heq
      exact hp
    · exact h.saved payload result' hm
  · intro payload result' hm
    exact List.mem_cons_of_mem _ (h.stored payload result' (List.mem_of_ne_of_mem (by simp) hm))
  · intro row hr
    rcases mem_saveResult hr with hr | rfl
    · obtain ⟨hkey, payload, hm⟩ := h.readModel row hr
      exact ⟨hkey, payload, List.mem_cons_of_mem _ hm⟩
    · exact ⟨rfl, task.payload, List.mem_cons_self⟩

theorem LedgersSound.completed {task : QueuedTask} {stored : TaskResult} (h : LedgersSound sh)
    (hp : FinalizeSound sh.log (.completing task stored)) :
    LedgersSound (sh.record (Taskqueue.complete task.id stored sh.db).1
      (.storedResult task.payload stored)) := by
  refine ⟨h.refunds, h.replies, ?_, ?_, ?_, ?_⟩
  · intro r hr
    obtain ⟨payload, hm, hrest⟩ := h.amounts r hr
    exact ⟨payload, List.mem_cons_of_mem _ hm, hrest⟩
  · intro payload result hm
    exact (h.saved payload result (List.mem_of_ne_of_mem (by simp) hm)).mono (List.suffix_cons ..)
  · intro payload result hm
    rcases List.mem_cons.mp hm with heq | hm
    · cases heq
      exact List.mem_cons_of_mem _ hp
    · exact List.mem_cons_of_mem _ (h.stored payload result hm)
  · intro row hr
    obtain ⟨hkey, payload, hm⟩ := h.readModel row hr
    exact ⟨hkey, payload, List.mem_cons_of_mem _ hm⟩

/-! ## One action -/

theorem LedgersSound.effect (hI : LedgersSound sh)
    (hJ : ∀ pc, p = .worker pc → FinalizeSound sh.log pc) (h : Effect sh i p a sh' p') :
    LedgersSound sh' := by
  have quiet : ∀ {sh' : Shared} (db : Database), sh'.db = db → db.refunds = sh.db.refunds →
      db.refundAttempts = sh.db.refundAttempts → db.sentReplies = sh.db.sentReplies →
      db.replyAttempts = sh.db.replyAttempts → db.ticketResults = sh.db.ticketResults →
      (sh'.log = sh.log ∨ ∃ e, sh'.log = e :: sh.log ∧ e.ledger = false) → LedgersSound sh' := by
    intro sh' db hdb h1 h2 h3 h4 h5 hlog
    subst hdb
    exact hI.unledgered ⟨h1, h2, h3, h4, h5, hlog⟩
  cases h with
  | quiet h => exact hI
  | tick elapsed => exact quiet _ rfl rfl rfl rfl rfl rfl (.inl rfl)
  | created hf => exact quiet _ rfl rfl rfl rfl rfl rfl (.inr ⟨_, rfl, rfl⟩)
  | ran hr hnx hrun =>
    rename_i dr inv n db result
    obtain ⟨rows, seq, hf⟩ := n.run_frame inv.checkpoint.values inv.resumes sh.db
    rw [hrun] at hf
    cases hf
    exact quiet _ rfl rfl rfl rfl rfl rfl (.inr ⟨_, rfl, rfl⟩)
  | put hr hnx => exact quiet _ rfl rfl rfl rfl rfl rfl (.inl rfl)
  | suspended hr => exact quiet _ rfl rfl rfl rfl rfl rfl (.inl rfl)
  | seeded => exact quiet _ rfl rfl rfl rfl rfl rfl (.inl rfl)
  | accepted hs =>
    obtain ⟨-, -, rfl, rfl⟩ := Db.addPendingSignalIfWaiting_eq_some hs
    exact quiet _ rfl rfl rfl rfl rfl rfl (.inr ⟨_, rfl, rfl⟩)
  | claimed hs =>
    obtain ⟨r, -, -, -, -, -, rfl⟩ := Db.claimRun_eq_some hs
    exact quiet _ rfl rfl rfl rfl rfl rfl (.inr ⟨_, rfl, rfl⟩)
  | released => exact quiet _ rfl rfl rfl rfl rfl rfl (.inr ⟨_, rfl, rfl⟩)
  | saved => exact quiet _ rfl rfl rfl rfl rfl rfl (.inr ⟨_, rfl, rfl⟩)
  | dequeued hs =>
    obtain ⟨r, -, -, -, rfl⟩ := Db.dequeue_eq_some hs
    exact quiet _ rfl rfl rfl rfl rfl rfl (.inl rfl)
  | refunded => exact hI.refunded (hJ _ rfl)
  | replied hs => exact hI.replied hs
  | recorded => exact hI.recorded (hJ _ rfl)
  | completed hm hs => exact hI.completed (hJ _ rfl)
  | failed hm hs hf => exact quiet _ rfl rfl rfl rfl rfl rfl (.inl rfl)
  | woken => exact quiet _ rfl rfl rfl rfl rfl rfl (.inl rfl)
  | reclaimedTasks => exact quiet _ rfl rfl rfl rfl rfl rfl (.inl rfl)
  | reclaimedRuns => exact quiet _ rfl rfl rfl rfl rfl rfl (.inl rfl)
  | projected => exact quiet _ rfl rfl rfl rfl rfl rfl (.inl rfl)
  | archived hs =>
    simp only [Db.archiveTerminalRuns] at hs
    split at hs
    · cases hs
    · cases hs
      exact quiet _ rfl rfl rfl rfl rfl rfl (.inl rfl)
  | deleted => exact quiet _ rfl rfl rfl rfl rfl rfl (.inl rfl)
  | prunedSignals => exact quiet _ rfl rfl rfl rfl rfl rfl (.inl rfl)
  | prunedTasks => exact quiet _ rfl rfl rfl rfl rfl rfl (.inl rfl)

theorem QueuedTask.Typed.ticket_eq {task : QueuedTask} (h : task.Typed)
    (hr : task.payload.result = some result) : task.payload.ticket.id = result.ticketId := by
  have hp := h.payload
  generalize task.taskType = ty at hp
  cases hpay : task.payload with
  | finalize ticket action r =>
    rw [hpay] at hp hr
    cases hr
    cases ty with
    | finalizeTicket => exact hp.1.trans hp.2.symm
    | classify => exact hp.elim
    | draft => exact hp.elim
  | _ =>
    rw [hpay] at hr
    cases hr

theorem FinalizeSound.effect (hI : LedgersSound sh) (hT : DeliverySound sh p)
    (hJ : ∀ pc, p = .worker pc → FinalizeSound sh.log pc) {pc : Worker.Pc}
    (h : Effect sh i p a sh' (.worker pc)) : FinalizeSound sh'.log pc := by
  cases h.workerMove with
  | stay => exact hJ pc rfl
  | leased hs => trivial
  | answered hf hans =>
    rename_i task result
    cases result with
    | terminal x => exact hans.elim
    | classification c => trivial
    | draft d => trivial
  | raises ht => trivial
  | started hf =>
    rename_i task
    generalize hpc : Worker.startFinalize task = pc
    have hst := startFinalize_starts task
    rw [hpc] at hst
    cases hst with
    | refunding hr hd ha => exact ⟨hr, hd, ha⟩
    | replying hr hd => exact ⟨hr, ⟨fun h => (nomatch h), fun h => absurd h hd⟩, fun h => absurd h hd⟩
    | failing => trivial
  | checked =>
    rename_i task result
    obtain ⟨hr, hd, hrec⟩ := hJ _ rfl
    refine ⟨hr, ⟨fun _ => hd, fun _ => ?_⟩, fun _ => hrec⟩
    obtain ⟨first, hm⟩ := hrec
    have hcalls : refundCalls task.payload.ticket.id sh.log ≠ [] := by
      refine List.ne_nil_of_mem (a := first) (List.mem_filterMap.mpr ⟨_, hm, if_pos rfl⟩)
    exact decide_eq_true ((hI.refunds.row _).mpr hcalls)
  | refunded =>
    obtain ⟨hr, hd, -⟩ := hJ _ rfl
    exact ⟨hr, hd, _, List.mem_cons_self⟩
  | replied hlog =>
    rename_i task result flag
    obtain ⟨hr, hflag, hrec⟩ := hJ _ rfl
    have ht := ((hT _ rfl).1 task rfl).1.ticket_eq hr
    exact ⟨⟨result, hr, rfl⟩, ht, hflag, fun hd => (hrec hd).mono hlog⟩
  | recorded => exact List.mem_cons_self
  | settled ht hact => trivial

/-- In every reachable world the ledgers are sound and every worker knows what it should. -/
theorem World.Reachable.ledgers {w : World} (hw : World.Reachable w) : LedgersSound w.shared ∧
    ∀ i pc, w.procs i = .worker pc → FinalizeSound w.shared.log pc := by
  refine World.ReachableWhen.invariant (I := LedgersSound)
    (J := fun sh _ p => ∀ pc, p = .worker pc → FinalizeSound sh.log pc) .empty
    (fun _ _ h => nomatch h) ?_ hw
  intro w i a sh' p' hr _ hI hJ he
  refine ⟨hI.effect (hJ i) he, ?_, fun j _ pc hpc => (hJ j pc hpc).mono he.log_suffix⟩
  rintro pc rfl
  exact FinalizeSound.effect hI ((World.Reachable.tasks hr).2 i) (hJ i) he

/-! ## What the task rows store -/

/-- A stored result came from a completion of that very task. -/
def StoredSound (sh : Shared) : Prop := ∀ r ∈ sh.db.taskQueue, ∀ x ∈ r.result,
  .storedResult r.payload x ∈ sh.log

theorem StoredSound.effect (hT : TasksSound sh.db) (hD : DeliverySound sh p)
    (hI : StoredSound sh) (h : Effect sh i p a sh' p') : StoredSound sh' := by
  intro r hr x hx
  have hr' := task_of_mem (h.taskKeys hT.keys) hr
  have old : ∀ {r₀ : QueuedTask}, sh.db.task r.idempotencyKey = some r₀ → r₀.payload = r.payload →
      r₀.result = some x → .storedResult r.payload x ∈ sh'.log := by
    intro r₀ hr₀ hpay hres
    rw [← hpay]
    exact h.log_suffix.subset (hI r₀ (Database.task_eq_some hr₀).1 x hres)
  cases h.taskChange hT.keys r.idempotencyKey with
  | same he => exact old (he.symm.trans hr') rfl hx
  | inserted hp ha hr₀ hn hw hp' hlog hins hnone he =>
    rw [hr'] at he
    rw [Option.some.inj he] at hx
    cases hx
  | cancelled hp ha hr₀ hn hw hp' hkey ht hpend he =>
    rw [hr'] at he
    cases he
    exact old ht rfl hx
  | leased hp ha ht hdue hp' he =>
    rw [hr'] at he
    cases he
    exact old ht rfl hx
  | completed hp ha ht hs hp' he hlog =>
    rename_i task result r₀
    rw [hr'] at he
    cases he
    cases hx
    have hsame := (hD _ hp).2.settles rfl ht hs
    rw [hlog]
    change Event.storedResult r₀.payload x ∈ _
    rw [← hsame.payload]
    exact List.mem_cons_self
  | failed hp ha ht hs hp' he =>
    rw [hr'] at he
    cases he
    exact old ht rfl hx
  | reclaimed hp ha ht hx' he =>
    rw [hr'] at he
    cases he
    exact old ht rfl hx
  | pruned hp ha ht hst he =>
    rw [hr'] at he
    cases he

theorem World.Reachable.stored {w : World} (hw : World.Reachable w) : StoredSound w.shared := by
  refine (World.ReachableWhen.invariant (I := StoredSound) (J := fun _ _ _ => True)
    (fun _ hr => nomatch hr) (fun _ => trivial) ?_ hw).1
  intro w i a sh' p' hr _ hI _ he
  obtain ⟨hT, hD⟩ := World.Reachable.tasks hr
  exact ⟨hI.effect hT (hD i) he, trivial, fun _ _ => trivial⟩

/-! ## Exactly once -/

/-- The finalize payload a worker acted on. -/
def Event.delivered : Event → Option TaskPayload
  | .recordedRefund payload _ | .recordedReply payload _ | .savedResult payload _
  | .storedResult payload (.terminal _) => some payload
  | _ => none

/-- Every delivery of the ticket's finalize task so far carried this payload. -/
def DeliversOnly (t : TicketId) (payload : TaskPayload) (log : List Event) : Prop :=
  ∀ e ∈ log, ∀ q ∈ e.delivered, q.ticket.id = t → q = payload

instance (t : TicketId) (payload : TaskPayload) (log : List Event) :
    Decidable (DeliversOnly t payload log) :=
  inferInstanceAs (Decidable (∀ e ∈ log, ∀ q ∈ e.delivered, q.ticket.id = t → q = payload))

/-- A result of the ticket that was ever saved or stored, or is saved or stored now. -/
inductive Recorded (sh : Shared) (t : TicketId) : TicketResult → Prop
  | saved {q x} : .savedResult q x ∈ sh.log → q.ticket.id = t → Recorded sh t x
  | stored {q x} : .storedResult q (.terminal x) ∈ sh.log → q.ticket.id = t → Recorded sh t x
  | readModel {x} : (t, x) ∈ sh.db.ticketResults → Recorded sh t x
  | row {r x} : r ∈ sh.db.taskQueue → r.workflowId = t → r.result = some (.terminal x) →
      Recorded sh t x

/-- However often the payload was delivered, its effects happened once. -/
structure ExactlyOnce (sh : Shared) (t : TicketId) (payload : TaskPayload) : Prop where
  refunds : (sh.db.refunds.filter fun r => r.ticketId = t).length ≤ 1
  replies : (sh.db.sentReplies.filter fun r => r.ticketId = t).length ≤ 1
  firstRefund : FirstOnly (refundCalls t sh.log)
  firstReply : FirstOnly (replyCalls t sh.log)
  refundAttempts : (sh.db.refundAttempts.map Attempt.ticketId).count t =
    (refundCalls t sh.log).length
  replyAttempts : (sh.db.replyAttempts.map Attempt.ticketId).count t = (replyCalls t sh.log).length
  flag : ∀ result, Recorded sh t result → (result.refundExecuted = true ↔ RefundDue payload)
  amount : ∀ result, Recorded sh t result → RefundDue payload →
    ∃ r ∈ sh.db.refunds, r.ticketId = t ∧ payload.refundAmount = some r.amount

theorem Recorded.savedResult {w : World} (hw : World.Reachable w)
    (h : Recorded w.shared t result) :
    ∃ payload, .savedResult payload result ∈ w.shared.log ∧ payload.ticket.id = t := by
  obtain ⟨hL, -⟩ := hw.ledgers
  cases h with
  | saved hm ht => exact ⟨_, hm, ht⟩
  | stored hm ht => exact ⟨_, hL.stored _ _ hm, ht⟩
  | readModel hr =>
    obtain ⟨hkey, payload, hm⟩ := hL.readModel _ hr
    exact ⟨payload, hm, (hL.saved _ _ hm).ticket.trans hkey.symm⟩
  | row hr hwf hres =>
    rename_i r
    have hm := hL.stored _ _ (hw.stored r hr _ hres)
    refine ⟨r.payload, hm, ?_⟩
    have hsound := hw.tasks.1
    have hfit := (hsound.answered r hr).fits _ hres
    rw [(hL.saved _ _ hm).ticket, ← hwf]
    revert hfit
    cases r.taskType with
    | finalizeTicket => exact id
    | _ => exact fun h => h.elim

/-- Exactly-once effects for a payload, over any deliveries of it. -/
theorem finalize_exactly_once {w : World} (hw : World.Reachable w) (t : TicketId)
    (payload : TaskPayload) (hp : DeliversOnly t payload w.shared.log) :
    ExactlyOnce w.shared t payload := by
  obtain ⟨hL, -⟩ := hw.ledgers
  have truthful : ∀ result, Recorded w.shared t result → Truthful w.shared.log payload result := by
    intro result hrec
    obtain ⟨q, hm, ht⟩ := hrec.savedResult hw
    have heq : q = payload := hp _ hm q rfl ht
    exact heq ▸ hL.saved q result hm
  refine ⟨length_filter_key_le hL.refunds.nodup t, length_filter_key_le hL.replies.nodup t,
    hL.refunds.first t, hL.replies.first t, hL.refunds.count t, hL.replies.count t,
    fun result hrec => (truthful result hrec).flag, ?_⟩
  intro result hrec hdue
  have htrue := truthful result hrec
  obtain ⟨first, hm⟩ := htrue.refunded hdue
  -- a call has committed, so there is a row, and the first call wrote its amount
  have ht : payload.ticket.id = t := by
    obtain ⟨q, hq, hqt⟩ := hrec.savedResult hw
    exact hp _ hq q rfl hqt ▸ hqt
  have hcalls : refundCalls t w.shared.log ≠ [] :=
    List.ne_nil_of_mem (a := first) (List.mem_filterMap.mpr ⟨_, hm, if_pos ht⟩)
  obtain ⟨r, hr, hrt⟩ := (hL.refunds.row t).mpr hcalls
  obtain ⟨q, hq, hqt, hamount⟩ := hL.amounts r hr
  have heq : q = payload := hp _ hq q rfl (hqt.trans hrt)
  exact ⟨r, hr, hrt, heq ▸ hamount⟩

/-! ## One payload for a ticket

Without retention the row of a delivery stays, so the deliveries of a ticket's finalize task all
carry the payload of that row. -/

theorem startFinalize_task (task : QueuedTask) : (Worker.startFinalize task).task = some task := by
  unfold Worker.startFinalize
  repeat' split
  all_goals rfl

/-- A worker's task was its task before, or it has just been leased. -/
theorem WorkerMove.task {pc : Worker.Pc} {u : QueuedTask} (h : WorkerMove sh i p a sh' pc)
    (hu : pc.task = some u) : (∃ pc₀, p = .worker pc₀ ∧ pc₀.task = some u) ∨
    ∃ r ∈ sh.db.taskQueue, u = Db.leaseTask i sh.db.now r := by
  cases h with
  | leased hs =>
    cases hu
    obtain ⟨r, hr, -, rfl, -⟩ := Db.dequeue_eq_some hs
    exact .inr ⟨r, hr, rfl⟩
  | raises ht =>
    rename_i pc₀ task error permanent
    refine .inl ⟨pc₀, rfl, ?_⟩
    cases hu
    cases pc₀ <;> first | exact ht | cases ht
  | started hf =>
    rw [startFinalize_task] at hu
    exact .inl ⟨_, rfl, hu⟩
  | settled ht hact =>
    cases hu
    exact .inl ⟨_, rfl, ht⟩
  | _ => exact .inl ⟨_, rfl, hu⟩

theorem QueuedTask.Typed.finalize_key {task : QueuedTask} (h : task.Typed)
    (hr : task.payload.result = some result) :
    task.idempotencyKey = .finalize task.payload.ticket.id := by
  have hp := h.payload
  rw [h.workflow, h.type] at hp
  cases hpay : task.payload with
  | finalize ticket action r =>
    rw [hpay] at hp
    have hproper := h.proper
    cases hk : task.idempotencyKey with
    | finalize t =>
      rw [hk] at hp
      exact congrArg _ hp.1.symm
    | agent t ty =>
      rw [hk] at hp hproper
      cases ty <;> first | exact hp.elim | exact absurd rfl hproper
    | fallback t ty =>
      rw [hk] at hp hproper
      cases ty <;> first | exact hp.elim | exact absurd rfl hproper
  | _ =>
    rw [hpay] at hr
    cases hr

/-- The row of a delivery. -/
def Rowed (db : Database) (task : QueuedTask) : Prop :=
  ∃ r, db.task task.idempotencyKey = some r ∧ r.SameTask task

/-- Every finalize payload that was ever acted on is that of its ticket's row. -/
def Backed (sh : Shared) : Prop := ∀ e ∈ sh.log, ∀ q ∈ e.delivered,
  ∃ r, sh.db.task (.finalize q.ticket.id) = some r ∧ r.payload = q

theorem Rowed.effect {task : QueuedTask} (hk : Taskqueue.Keys sh.db) (hs : ¬ p.Sweeping)
    (h : Effect sh i p a sh' p') (hr : Rowed sh.db task) : Rowed sh'.db task := by
  obtain ⟨r, hr, hsame⟩ := hr
  obtain ⟨r', hr', hsame'⟩ := (h.taskChange hk task.idempotencyKey).kept
    (fun _ => Proc.prunes_eq_false hs) hr
  exact ⟨r', hr', hsame'.symm.trans hsame⟩

/-- A finalize payload enters the log with an action of a worker that holds its task. -/
theorem Effect.delivered (hI : LedgersSound sh) (hJ : ∀ pc, p = .worker pc → FinalizeSound sh.log pc)
    (h : Effect sh i p a sh' p') {e : Event} (he : e ∈ sh'.log) (hq : e.delivered = some payload) :
    e ∈ sh.log ∨ ∃ pc task result, p = .worker pc ∧ pc.task = some task ∧ payload = task.payload ∧
      task.payload.result = some result := by
  have other : ∀ {e' : Event}, e ∈ e' :: sh.log → e'.delivered = none → e ∈ sh.log := by
    intro e' hm hnone
    refine (List.mem_cons.mp hm).resolve_left fun heq => ?_
    rw [heq, hnone] at hq
    cases hq
  cases h with
  | created hf => exact .inl (other he rfl)
  | ran hr hnx hrun => exact .inl (other he rfl)
  | accepted hs => exact .inl (other he rfl)
  | claimed hs => exact .inl (other he rfl)
  | released => exact .inl (other he rfl)
  | saved => exact .inl (other he rfl)
  | refunded =>
    rcases List.mem_cons.mp he with rfl | he
    · cases hq
      exact .inr ⟨_, _, _, rfl, rfl, rfl, (hJ _ rfl).1⟩
    · exact .inl he
  | replied hs =>
    rcases List.mem_cons.mp he with rfl | he
    · cases hq
      exact .inr ⟨_, _, _, rfl, rfl, rfl, (hJ _ rfl).1⟩
    · exact .inl he
  | recorded =>
    rcases List.mem_cons.mp he with rfl | he
    · cases hq
      obtain ⟨r, hr, -⟩ := (hJ _ rfl).expected
      exact .inr ⟨_, _, _, rfl, rfl, rfl, hr⟩
    · exact .inl he
  | completed hm hs =>
    rename_i task result r
    rcases List.mem_cons.mp he with rfl | he
    · cases result with
      | terminal x =>
        cases hq
        obtain ⟨r, hr, -⟩ := (hI.saved _ _ (hJ _ rfl)).expected
        exact .inr ⟨_, _, _, rfl, rfl, rfl, hr⟩
      | classification c => cases hq
      | draft d => cases hq
    · exact .inl he
  | _ => exact .inl he

/-- Without retention every delivery of a finalize task carries the payload of its row. -/
theorem delivers_only {w : World} (hw : World.ReachableWhen Unswept w) {r : QueuedTask}
    (hr : w.shared.db.task (.finalize t) = some r) : DeliversOnly t r.payload w.shared.log := by
  have backed : Backed w.shared := by
    refine (hw.invariant (I := Backed) (J := fun sh _ p => ∀ pc, p = .worker pc →
      ∀ task ∈ pc.task, Rowed sh.db task) (fun _ he => nomatch he) (fun _ _ h => nomatch h) ?_).1
    intro w i a sh' p' hr _ hI hJ he
    obtain ⟨hT, hD⟩ := World.Reachable.tasks hr.reachable
    obtain ⟨hL, hF⟩ := World.Reachable.ledgers hr.reachable
    have hs := hr.not_sweeping (fun _ _ _ h => h) i
    refine ⟨?_, ?_, fun j _ pc hpc task ht => (hJ j pc hpc task ht).effect hT.keys hs he⟩
    · intro e hm q hq
      have key : ∃ r, w.shared.db.task (.finalize q.ticket.id) = some r ∧ r.payload = q := by
        rcases he.delivered hL (hF i) hm hq with hm | ⟨pc, task, result, hpc, ht, rfl, hres⟩
        · exact hI e hm q hq
        · obtain ⟨r, hrow, hsame⟩ := hJ i pc hpc task ht
          rw [((hD i pc hpc).1 task ht).1.finalize_key hres] at hrow
          exact ⟨r, hrow, hsame.payload.symm⟩
      obtain ⟨r, hrow, hpay⟩ := key
      obtain ⟨r', hrow', hsame⟩ := (he.taskChange hT.keys _).kept
        (fun _ => Proc.prunes_eq_false hs) hrow
      exact ⟨r', hrow', hsame.payload.trans hpay⟩
    · rintro pc rfl task ht
      have key : Rowed w.shared.db task := by
        rcases he.workerMove.task ht with ⟨pc₀, hpc, ht₀⟩ | ⟨r, hrow, rfl⟩
        · exact hJ i pc₀ hpc task ht₀
        · exact ⟨r, task_of_mem hT.keys hrow, ⟨rfl, rfl, rfl, rfl, rfl, rfl⟩⟩
      exact key.effect hT.keys hs he
  intro e he q hq hqt
  obtain ⟨r', hr', hpay⟩ := backed e he q hq
  rw [hqt, hr] at hr'
  cases hr'
  exact hpay.symm

/-- A refund whose first delivery dies after the refund, and whose second one finishes. -/
theorem finalize_exactly_once_redelivered : ∃ w payload, World.Reachable w ∧ RefundDue payload ∧
    refundCalls 7 w.shared.log = [false, true] ∧ ExactlyOnce w.shared 7 payload := by
  have hrun : (World.initial.run Proc.step (Schedule.drafted Schedule.refundDraft 12 ++
      Schedule.submit true ++ Schedule.step 2 8 ++ [(3, .dequeue .taskQueue Schedule.unlocked)] ++
      Schedule.advance 3 2 ++ [(3, .crash), (0, .tick (seconds 31)), (0, .reclaimExpiredLeases),
      (4, .dequeue .taskQueue Schedule.unlocked)] ++ Schedule.advance 4 7)).map (fun w =>
        (w.shared.db.task (.finalize 7)).any fun r => DeliversOnly 7 r.payload w.shared.log ∧
          RefundDue r.payload ∧ refundCalls 7 w.shared.log = [false, true]) = some true := by
    decide +kernel
  obtain ⟨w, hw, hp⟩ := exists_reachableWhen_of_run hrun
  obtain ⟨r, -, hr⟩ := (Option.any_eq_true ..).mp hp
  obtain ⟨honly, hdue, hcalls⟩ := of_decide_eq_true hr
  exact ⟨w, r.payload, hw, hdue, hcalls, finalize_exactly_once hw 7 r.payload honly⟩

end TicketFlow
