import TicketFlow.Drafts
import TicketFlow.Provenance

/-! # What leaves the system

Every reply and every refund can be traced back through the tasks it was made by: to a draft made of
the ticket and of a classification stored for that ticket, and to the one request that created it. So
whatever runs at the same time, no customer is sent what was made for another. -/

namespace TicketFlow
open Table Interleaving
set_option autoImplicit false

/-- The classification was stored for a classification task of the ticket. -/
def ClassifiedAs (log : List Event) (ticket : Ticket) (c : Classification) : Prop :=
  .storedResult (.classify ticket) (.classification c) ∈ log

/-- The draft was stored for a draft task of the ticket and of a classification stored for it. -/
def DraftedFor (log : List Event) (ticket : Ticket) (d : DraftReply) : Prop :=
  ∃ c, ClassifiedAs log ticket c ∧ .storedResult (.draft ticket c) (.draft d) ∈ log

/-- The draft is the ticket's, or the one made up for a failed task. -/
def DraftTraced (log : List Event) (ticket : Ticket) (d : DraftReply) : Prop :=
  d = Graph.failureDraft ∨ DraftedFor log ticket d

/-- Everything in a state is the ticket's own. -/
structure StateTraced (log : List Event) (s : TicketState) (next : Option Node) : Prop where
  created : .created s.ticket ∈ log
  classification : next = some .dispatchDraft ∨ next = some .awaitDraft →
    ∀ c ∈ s.classification, ClassifiedAs log s.ticket c
  draft : ∀ d ∈ s.draft, DraftTraced log s.ticket d

/-- Everything in a payload is the ticket's own. -/
def PayloadTraced (log : List Event) : TaskPayload → Prop
  | .classify ticket => .created ticket ∈ log
  | .draft ticket c => .created ticket ∈ log ∧ ClassifiedAs log ticket c
  | .finalize ticket action result => .created ticket ∈ log ∧ ∃ d, DraftTraced log ticket d ∧
      action = d.action ∧ (result.replyText = rejectionReply ∨ result.replyText = escalationReply ∨
        result.replyText = d.replyText)

/-- The result was stored for a task of the ticket. -/
def StoredFor (log : List Event) (t : TicketId) (x : TaskResult) : Prop :=
  ∃ ty payload, PayloadFor t ty payload ∧ ResultFor t ty x ∧ PayloadTraced log payload ∧
    .storedResult payload x ∈ log

structure Traced (sh : Shared) : Prop where
  once : CreatedOnce sh.log
  threads : ∀ t cp, sh.checkpoints.get t = some cp → StateTraced sh.log cp.values cp.next
  payloads : ∀ r ∈ sh.db.taskQueue, PayloadTraced sh.log r.payload
  results : ∀ r ∈ sh.db.taskQueue, ∀ x ∈ r.result, .storedResult r.payload x ∈ sh.log
  refunds : ∀ payload first, .recordedRefund payload first ∈ sh.log →
    PayloadTraced sh.log payload
  replies : ∀ r ∈ sh.db.sentReplies, ∃ payload result, PayloadTraced sh.log payload ∧
    payload.result = some result ∧ payload.ticket.id = r.ticketId ∧
    payload.ticket.customerEmail = r.customerEmail ∧ result.replyText = r.replyText

/-- What a process knows of what it has in hand. -/
structure TraceKnows (log : List Event) (p : Proc) : Prop where
  invocation : ∀ inv, p.invocation = some inv →
    StateTraced log inv.checkpoint.values inv.checkpoint.next ∧
    ∀ s, inv.result = some (.update s) →
      StateTraced log s (inv.checkpoint.next.bind fun n => n.after s)
  resumes : ∀ run v x, p.resumes = some (run, v) → v.payload = .result x →
    StoredFor log run.ticketId x
  task : ∀ pc, p = .worker pc → ∀ task ∈ pc.task, PayloadTraced log task.payload

variable {log log' : List Event} {sh sh' : Shared} {w : World} {i : WorkerId} {p p' : Proc}
  {a : Action} {n : Node} {s s' : TicketState} {next : Option Node} {resumes : List Resume}
  {db : Database} {t : TicketId} {ticket : Ticket} {c : Classification} {d : DraftReply}
  {payload : TaskPayload} {ty : TaskType} {x : TaskResult}

/-! ## The log only grows -/

theorem DraftTraced.mono (h : DraftTraced log ticket d) (hl : log <:+ log') :
    DraftTraced log' ticket d := by
  rcases h with rfl | ⟨c, hc, hd⟩
  · exact .inl rfl
  · exact .inr ⟨c, hl.subset hc, hl.subset hd⟩

theorem StateTraced.mono (h : StateTraced log s next) (hl : log <:+ log') :
    StateTraced log' s next where
  created := hl.subset h.created
  classification hn c hc := hl.subset (h.classification hn c hc)
  draft d hd := (h.draft d hd).mono hl

theorem PayloadTraced.mono (h : PayloadTraced log payload) (hl : log <:+ log') :
    PayloadTraced log' payload := by
  cases payload with
  | classify ticket => exact hl.subset h
  | draft ticket c => exact ⟨hl.subset h.1, hl.subset h.2⟩
  | finalize ticket action result =>
    obtain ⟨hcreated, d, hd, hrest⟩ := h
    exact ⟨hl.subset hcreated, d, hd.mono hl, hrest⟩

theorem StoredFor.mono (h : StoredFor log t x) (hl : log <:+ log') : StoredFor log' t x := by
  obtain ⟨ty, payload, hfor, hfits, htraced, hstored⟩ := h
  exact ⟨ty, payload, hfor, hfits, htraced.mono hl, hl.subset hstored⟩

theorem TraceKnows.mono (h : TraceKnows log p) (hl : log <:+ log') : TraceKnows log' p where
  invocation inv hinv := ⟨(h.invocation inv hinv).1.mono hl,
    fun s hr => ((h.invocation inv hinv).2 s hr).mono hl⟩
  resumes run v x hr hpay := (h.resumes run v x hr hpay).mono hl
  task pc hp task ht := (h.task pc hp task ht).mono hl

theorem PayloadTraced.created (h : PayloadTraced log payload) : .created payload.ticket ∈ log := by
  cases payload with
  | classify ticket => exact h
  | draft ticket c => exact h.1
  | finalize ticket action result => exact h.1

/-! ## What a stored result is of -/

theorem StoredFor.classification (h : StoredFor log ticket.id (.classification c))
    (hT : CreatedOnce log) (hcreated : .created ticket ∈ log) : ClassifiedAs log ticket c := by
  obtain ⟨ty, payload, hfor, hfits, htraced, hstored⟩ := h
  cases ty with
  | classify =>
    cases payload with
    | classify ticket' => exact hT _ _ htraced hcreated hfor ▸ hstored
    | draft ticket' c' => exact hfor.elim
    | finalize ticket' action result => exact hfor.elim
  | draft => exact hfits.elim
  | finalizeTicket => exact hfits.elim

theorem StoredFor.draft (h : StoredFor log ticket.id (.draft d)) (hT : CreatedOnce log)
    (hcreated : .created ticket ∈ log) : DraftedFor log ticket d := by
  obtain ⟨ty, payload, hfor, hfits, htraced, hstored⟩ := h
  cases ty with
  | draft =>
    cases payload with
    | draft ticket' c =>
      obtain rfl := hT _ _ htraced.1 hcreated hfor
      exact ⟨c, htraced.2, hstored⟩
    | classify ticket' => exact hfor.elim
    | finalize ticket' action result => exact hfor.elim
  | classify => exact hfits.elim
  | finalizeTicket => exact hfits.elim

/-! ## What a node makes of its state -/

theorem StateTraced.update {dr : Driver} {inv : Invocation}
    (hT : CreatedOnce sh.log) (hP : (dr.driving inv).ThreadSound sh.checkpoints)
    (hK : TraceKnows sh.log (dr.driving inv)) (hn : inv.checkpoint.next = some n)
    (hrun : (n.run inv.checkpoint.values inv.resumes sh.db).2 = .update s') :
    StateTraced sh.log s' (n.after s') := by
  have hinv := Proc.ThreadSound.invocation hP
  obtain ⟨hs, -⟩ := hK.invocation inv (Proc.invocation_driving dr inv)
  have hran := hinv.ran hn sh.db
  rw [hrun] at hran
  obtain ⟨ht, -⟩ := hran.update
  -- what the runner brings was stored for the ticket of the state
  have brought : ∀ {x : TaskResult}, .result x ∈ inv.resumes →
      StoredFor sh.log inv.checkpoint.values.ticket.id x := by
    intro x hmem
    obtain ⟨run, resume, rfl, hpay⟩ := offered_of_mem hP hmem
    rw [hinv.checkpoint.ticket, hP.1]
    exact hK.resumes run resume x rfl hpay
  refine ⟨ht ▸ hs.created, fun hnext c hc => ?_, fun d hd => ?_⟩
  · rw [ht]
    rcases n.run_classification hrun hnext hc with ⟨rfl, hold⟩ | hmem
    · exact hs.classification (.inl hn) c hold
    · exact (brought hmem).classification hT hs.created
  · rw [ht]
    rcases n.run_draft hrun hd with hold | hmade | hmem
    · exact hs.draft d hold
    · exact .inl hmade
    · exact .inr ((brought hmem).draft hT hs.created)

/-- A redispatched task carries the payload of the node that redispatches it. -/
theorem awaitWrite_payload {key : IdempotencyKey} {wr : QueueWrite} {queueName : QueueName}
    {workflowId : TicketId} {ty₀ : TaskType} {payload₀ : TaskPayload}
    (hw : awaitWrite ty₀ t payload₀ resumes = some wr)
    (hins : wr.Inserts db key queueName ty workflowId payload) : payload = payload₀ := by
  unfold awaitWrite at hw
  split at hw
  · cases hw
    cases hins
    rfl
  · cases hw

theorem PayloadTraced.of_write {key : IdempotencyKey} {wr : QueueWrite} {queueName : QueueName}
    {workflowId : TicketId} (hs : StateTraced log s (some n)) (hw : n.write s resumes = some wr)
    (hins : wr.Inserts db key queueName ty workflowId payload) : PayloadTraced log payload := by
  cases n with
  | dispatchClassify =>
    cases hw
    cases hins
    exact hs.created
  | awaitClassify =>
    obtain rfl := awaitWrite_payload hw hins
    exact hs.created
  | dispatchDraft =>
    obtain ⟨c, hc, rfl⟩ := Option.map_eq_some_iff.mp hw
    cases hins
    exact ⟨hs.created, hs.classification (.inl rfl) c hc⟩
  | awaitDraft =>
    obtain ⟨c, hc, hw⟩ := Option.bind_eq_some_iff.mp hw
    obtain rfl := awaitWrite_payload hw hins
    exact ⟨hs.created, hs.classification (.inr rfl) c hc⟩
  | execute =>
    obtain ⟨reply, hreply, hw⟩ := Option.bind_eq_some_iff.mp hw
    obtain ⟨c, -, rfl⟩ := Option.map_eq_some_iff.mp hw
    cases hins
    refine ⟨hs.created, reply, hs.draft reply hreply, rfl, ?_⟩
    simp only [Graph.expectedResult, Graph.terminalOutcome]
    split
    · exact .inl rfl
    · exact .inr (.inl rfl)
    · exact .inr (.inr rfl)
  | _ => cases hw

/-! ## One action -/

theorem Traced.effect (hI : Traced sh) (hK : TraceKnows sh.log p) (hT : TasksSound sh.db)
    (hD : DeliverySound sh p) (hF : ∀ pc, p = .worker pc → FinalizeSound sh.log pc)
    (he : Effect sh i p a sh' p') : Traced sh' := by
  have hl := he.log_suffix
  refine ⟨hI.once.effect he, fun t cp hcp => ?_, fun r hr => ?_, fun r hr x hx => ?_,
    fun payload first hm => ?_, fun r hr => ?_⟩
  · cases he.threadChange t with
    | same heq => exact (hI.threads t cp (heq.symm.trans hcp)).mono hl
    | created hp ha ht hf hdb hlog hseq heq =>
      cases hcp.symm.trans heq
      refine ⟨?_, fun hn => ?_, fun d hd => nomatch hd⟩
      · rw [hlog]
        exact List.mem_cons_self
      · rcases hn with hn | hn <;> cases hn
    | @put dr inv values next hp ha ht hr hn hp' hdb hlog hseq heq =>
      cases hcp.symm.trans heq
      obtain ⟨-, hres⟩ := hK.invocation inv (by rw [hp]; simp)
      subst hn
      exact (hres values hr).mono hl
    | suspended hp ha ht hr hcp₀ hid hp' hdb hlog heq =>
      cases hcp.symm.trans heq
      have hold := hI.threads t _ hcp₀
      exact hold.mono hl
    | deleted hp ha heq =>
      rw [heq] at hcp
      cases hcp
  · have hr' := task_of_mem (he.taskKeys hT.keys) hr
    rcases (he.taskChange hT.keys r.idempotencyKey).origin hr' with ⟨r₀, hr₀, hsame⟩ | hins
    · rw [hsame.payload]
      exact (hI.payloads r₀ (Database.task_eq_some hr₀).1).mono hl
    · generalize hk : r.idempotencyKey = key at hins
      cases hins with
      | @node dr inv n wr queueName taskType workflowId payload hp hn hw hins hlog =>
        obtain ⟨hs, -⟩ := hK.invocation inv (by rw [hp]; simp)
        rw [hn] at hs
        exact (PayloadTraced.of_write hs hw hins).mono hl
  · have hr' := task_of_mem (he.taskKeys hT.keys) hr
    have old : ∀ {r₀ : QueuedTask}, sh.db.task r.idempotencyKey = some r₀ → r₀.payload = r.payload →
        r₀.result = r.result → .storedResult r.payload x ∈ sh'.log := by
      intro r₀ hr₀ hpay hres
      rw [← hpay]
      exact hl.subset (hI.results r₀ (Database.task_eq_some hr₀).1 x (hres ▸ hx))
    cases he.taskChange hT.keys r.idempotencyKey with
    | same heq => exact old (heq.symm.trans hr') rfl rfl
    | inserted hp ha hres hn hw hp' hlog hins hno heq =>
      rw [← Option.some.inj (heq.symm.trans hr')] at hx
      cases hx
    | cancelled hp ha hres hn hw hp' hk hr₀ hst heq =>
      cases heq.symm.trans hr'
      exact old hr₀ rfl rfl
    | leased hp ha hr₀ hdue hp' heq =>
      cases heq.symm.trans hr'
      exact old hr₀ rfl rfl
    | @completed task result r₀ hp ha hr₀ hs hp' heq hlog =>
      cases heq.symm.trans hr'
      cases hx
      have hsame := (hD _ hp).2.settles rfl hr₀ hs
      rw [hlog, hsame.payload]
      exact List.mem_cons_self
    | failed hp ha hr₀ hs hp' heq =>
      cases heq.symm.trans hr'
      exact old hr₀ rfl rfl
    | reclaimed hp ha hr₀ hx' heq =>
      cases heq.symm.trans hr'
      exact old hr₀ rfl rfl
    | pruned hp ha hr₀ hs heq => cases heq.symm.trans hr'
  · rcases he.refundEvent hm with hold | ⟨task, amount, result, rfl, rfl⟩
    · exact (hI.refunds payload first hold).mono hl
    · exact (hK.task _ rfl task rfl).mono hl
  · rcases he.sentReplies hr with hold | ⟨task, result, flag, rfl, rfl⟩
    · obtain ⟨payload, result, hpay, hrest⟩ := hI.replies r hold
      exact ⟨payload, result, hpay.mono hl, hrest⟩
    · obtain ⟨hres, -⟩ := hF _ rfl
      exact ⟨task.payload, result, (hK.task _ rfl task rfl).mono hl, hres, rfl, rfl, rfl⟩

/-- A runner's result was stored for a task of its ticket. -/
theorem Traced.of_ready {run : WorkflowRun} {env : Envelope} {v : ResumeValue} (hI : Traced sh)
    (hT : TasksSound sh.db) (hfor : env.For run.ticketId)
    (hv : Runner.resumeForRun env run.wakeupAt sh.db = some v) (hpay : v.payload = .result x) :
    StoredFor sh.log run.ticketId x := by
  cases Runner.resumeForRun_found hv with
  | decision happ hsig => cases hpay
  | timeout hsome hnone => cases hpay
  | @task key x' hkey htask hdecision htimeout =>
    obtain ⟨r, hr, hk, ⟨-, hv⟩ | ⟨-, y, hy, hv⟩⟩ := taskResumeValue_eq_some htask
    · rw [hv] at hpay
      cases hpay
    · rw [hv] at hpay
      cases hpay
      have hty := hT.typed r hr
      have hwf : r.workflowId = run.ticketId := by
        rw [hty.workflow, hk]
        exact hfor.ticket hkey
      have hfor' := hty.payload
      have hfits := (hT.answered r hr).fits _ hy
      rw [hwf] at hfor' hfits
      exact ⟨r.taskType, r.payload, hfor', hfits, hI.payloads r hr, hI.results r hr _ hy⟩

theorem TraceKnows.acts (hI : Traced sh) (hI' : Traced sh') (hK : TraceKnows sh.log p)
    (hT : TasksSound sh.db) (hP : p.ThreadSound sh.checkpoints) (he : Effect sh i p a sh' p') :
    TraceKnows sh'.log p' := by
  have hl := he.log_suffix
  refine ⟨fun inv hinv => ?_, fun run v x hr hpay => ?_, fun pc hp' task ht => ?_⟩
  · have fresh : sh'.checkpoints.get inv.checkpoint.threadId = some inv.checkpoint →
        inv.result = none → StateTraced sh'.log inv.checkpoint.values inv.checkpoint.next ∧
          ∀ s, inv.result = some (.update s) →
            StateTraced sh'.log s (inv.checkpoint.next.bind fun n => n.after s) := by
      intro hget hnone
      refine ⟨hI'.threads _ _ hget, fun s hr => ?_⟩
      rw [hnone] at hr
      cases hr
    cases he.driveChange hinv with
    | still hold => exact (hK.mono hl).invocation inv hold
    | @ran dr inv₀ n db result hp hr hn hrun hinv₀ hsh =>
      subst hp hinv₀
      obtain ⟨hs, -⟩ := hK.invocation inv₀ (Proc.invocation_driving dr inv₀)
      refine ⟨hs.mono hl, fun s' hres => ?_⟩
      cases hres
      have hupd := StateTraced.update hI.once hP hK hn (congrArg Prod.snd hrun)
      rw [hn]
      exact hupd.mono hl
    | put hget hr hnil => exact fresh hget hr
    | read hp' hsh hget hr ho => exact fresh (hsh ▸ hget) hr
  · rcases he.resumes hr with hold | ⟨env, rfl, rfl, hready⟩
    · exact (hK.resumes run v x hold hpay).mono hl
    · exact hI.of_ready hT hP hready hpay
  · subst hp'
    rcases he.workerMove.task ht with ⟨pc₀, hp, ht₀⟩ | ⟨r, hr, rfl⟩
    · exact (hK.task pc₀ hp task ht₀).mono hl
    · exact (hI.payloads r hr).mono hl

theorem World.Reachable.traced (hw : World.Reachable w) : Traced w.shared := by
  refine (World.ReachableWhen.invariant (I := Traced) (J := fun sh _ p => TraceKnows sh.log p)
    ?_ ?_ ?_ hw).1
  · exact ⟨fun _ _ h => (nomatch h), fun _ _ h => (nomatch h), fun _ h => (nomatch h),
      fun _ h => (nomatch h), fun _ _ h => (nomatch h), fun _ h => nomatch h⟩
  · exact fun _ => ⟨fun _ h => (nomatch h), fun _ _ _ h => (nomatch h), fun _ h => nomatch h⟩
  · intro w i a sh' p' hr _ hI hK he
    obtain ⟨hT, hD⟩ := World.Reachable.tasks hr
    have hI' := hI.effect (hK i) hT (hD i) ((World.Reachable.ledgers hr).2 i) he
    exact ⟨hI', (hK i).acts hI hI' hT ((World.Reachable.threads hr).2 i) he,
      fun j _ => (hK j).mono he.log_suffix⟩

/-! ## What was sent and paid -/

/-- A reply goes to the address of the one request with its ticket id, and says what a draft for
that ticket says, or that it was rejected or escalated; a refund is of the amount a draft for its
ticket proposed; and what an agent is handed is the ticket of its task and a classification of it. -/
theorem effects_traced (hw : World.Reachable w) :
    (∀ r ∈ w.shared.db.sentReplies, ∃ ticket, .created ticket ∈ w.shared.log ∧
      ticket.id = r.ticketId ∧ ticket.customerEmail = r.customerEmail ∧
      (∀ other, .created other ∈ w.shared.log → other.id = r.ticketId → other = ticket) ∧
      (r.replyText = rejectionReply ∨ r.replyText = escalationReply ∨
        ∃ d, DraftedFor w.shared.log ticket d ∧ r.replyText = d.replyText)) ∧
    (∀ r ∈ w.shared.db.refunds, ∃ ticket d, .created ticket ∈ w.shared.log ∧
      ticket.id = r.ticketId ∧ DraftedFor w.shared.log ticket d ∧
      d.action.refundAmount = some r.amount) ∧
    (∀ r ∈ w.shared.db.taskQueue, .created r.payload.ticket ∈ w.shared.log ∧
      r.payload.ticket.id = r.workflowId ∧
      ∀ c ∈ r.payload.classification, ClassifiedAs w.shared.log r.payload.ticket c) := by
  have hI := hw.traced
  refine ⟨fun r hr => ?_, fun r hr => ?_, fun r hr => ?_⟩
  · obtain ⟨payload, result, hpay, hres, hid, hemail, htext⟩ := hI.replies r hr
    refine ⟨payload.ticket, hpay.created, hid, hemail, fun other ho hoid => ?_, ?_⟩
    · exact hI.once _ _ ho hpay.created (hoid.trans hid.symm)
    · cases payload with
      | classify ticket => cases hres
      | draft ticket c => cases hres
      | finalize ticket action result' =>
        cases hres
        obtain ⟨-, d, hd, -, htold⟩ := hpay
        rw [htext] at htold
        rcases htold with htold | htold | htold
        · exact .inl htold
        · exact .inr (.inl htold)
        · rcases hd with rfl | hd
          · exact .inr (.inl htold)
          · exact .inr (.inr ⟨d, hd, htold⟩)
  · obtain ⟨payload, hm, hid, hamount⟩ := hw.ledgers.1.amounts r hr
    obtain ⟨⟨action, result, ha, -, -, htype⟩, -⟩ := hw.payloads.refunds payload true hm
    have hpay := hI.refunds payload true hm
    cases payload with
    | classify ticket => cases ha
    | draft ticket c => cases ha
    | finalize ticket action' result' =>
      cases ha
      obtain ⟨hcreated, d, hd, rfl, -⟩ := hpay
      rcases hd with rfl | hd
      · cases htype
      · exact ⟨ticket, d, hcreated, hid, hd, hamount⟩
  · have hpay := hI.payloads r hr
    have hfor := (hw.tasks.1.typed r hr).payload
    revert hfor
    generalize r.payload = payload at hpay ⊢
    generalize r.taskType = ty
    intro hfor
    refine ⟨hpay.created, ?_, fun c hc => ?_⟩
    · cases ty <;> cases payload <;> first | exact hfor.elim | exact hfor | exact hfor.1
    · cases payload with
      | draft ticket c' =>
        cases hc
        exact hpay.2
      | classify ticket => cases hc
      | finalize ticket action result => cases hc

/-- A reply sent to the customer who asked. -/
theorem effects_traced_replied : ∃ w ticket d, World.Reachable w ∧
    (∃ r ∈ w.shared.db.sentReplies, r.customerEmail = ticket.customerEmail ∧
      r.replyText = d.replyText) ∧ DraftedFor w.shared.log ticket d := by
  have hrun : (World.initial.run Proc.step (Schedule.drafted Schedule.refundDraft 12 ++
      Schedule.submit true ++ Schedule.step 2 8 ++ [(3, .dequeue .taskQueue Schedule.unlocked)] ++
      Schedule.advance 3 7)).map (fun w => decide (∃ r ∈ w.shared.db.sentReplies,
        r.replyText ≠ rejectionReply ∧ r.replyText ≠ escalationReply)) = some true := by
    decide +kernel
  obtain ⟨w, hw, hp⟩ := exists_reachableWhen_of_run hrun
  obtain ⟨r, hr, hrejected, hescalated⟩ := of_decide_eq_true hp
  obtain ⟨ticket, -, -, hemail, -, htold⟩ := (effects_traced hw).1 r hr
  obtain ⟨d, hd, htext⟩ := (htold.resolve_left hrejected).resolve_left hescalated
  exact ⟨w, ticket, d, hw, ⟨r, hr, hemail.symm, htext⟩, hd⟩

end TicketFlow
