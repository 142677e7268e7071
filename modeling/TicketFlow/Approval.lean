import TicketFlow.ExactlyOnce
import TicketFlow.Signals

/-! # No unapproved risky outcome

A state from which `execute` would resolve a risky draft is cleared: an approved decision was
accepted for the ticket and then delivered to the approval interrupt that showed this draft. The
finalize payload is built from a cleared state, and the refund is paid from that payload. -/

namespace TicketFlow
open Table Interleaving
set_option autoImplicit false

/-- An approved decision was accepted for the ticket, and then delivered to the approval interrupt
whose envelope carries the draft. -/
def Approved (log : List Event) (t : TicketId) (draft : DraftReply) : Prop :=
  ∃ older vals d id wakeupAt, .ran t .awaitApproval vals [.decision d] :: older <:+ log ∧
    .accepted t id d ∈ older ∧ d.approved = true ∧
    Graph.awaitApproval vals [] = .interrupt (.approvalRequired t wakeupAt draft)

/-- What `execute` would resolve is harmless or approved. -/
def Cleared (log : List Event) (s : TicketState) : Prop :=
  s.status ≠ .rejected → s.status ≠ .escalated →
    ∀ draft ∈ s.draft, Graph.Risky draft → Approved log s.ticket.id draft

/-- The finalize payload was built by a run of `execute` in a cleared state. -/
def FinalizeFrom (log : List Event) (payload : TaskPayload) : Prop :=
  ∃ vals resumes draft c, .ran vals.ticket.id .execute vals resumes ∈ log ∧
    vals.draft = some draft ∧ vals.classification = some c ∧
    payload = .finalize vals.ticket draft.action (Graph.expectedResult vals c draft) ∧
    Cleared log vals

variable {sh sh' : Shared} {i : WorkerId} {p p' : Proc} {a : Action} {t : TicketId}
  {log log' : List Event} {s s' : TicketState} {draft : DraftReply} {payload : TaskPayload}

theorem Approved.mono (hl : log <:+ log') (h : Approved log t draft) : Approved log' t draft := by
  obtain ⟨older, vals, d, id, wakeupAt, hsuf, hrest⟩ := h
  exact ⟨older, vals, d, id, wakeupAt, hsuf.trans hl, hrest⟩

theorem Cleared.mono (hl : log <:+ log') (h : Cleared log s) : Cleared log' s :=
  fun hr he draft hd hrisky => (h hr he draft hd hrisky).mono hl

theorem FinalizeFrom.mono (hl : log <:+ log') (h : FinalizeFrom log payload) :
    FinalizeFrom log' payload := by
  obtain ⟨vals, resumes, draft, c, hm, hd, hc, hp, hcl⟩ := h
  exact ⟨vals, resumes, draft, c, hl.subset hm, hd, hc, hp, hcl.mono hl⟩

/-! ## The graph -/

/-- Whichever node leads to `execute`, the state it leads with is cleared. -/
theorem cleared_of_run {n : Node} {resumes : List Resume} {db : Database}
    (hs : StateFor s (some n)) (h : (n.run s resumes db).2 = .update s')
    (ha : n.after s' = some .execute)
    (hdelivered : ∀ d rest reply wakeupAt, n = .awaitApproval → resumes = .decision d :: rest →
      d.approved = true →
      Graph.awaitApproval s [] = .interrupt (.approvalRequired s.ticket.id wakeupAt reply) →
      Approved log s.ticket.id reply) : Cleared log s' := by
  cases n with
  | dispatchClassify => cases ha
  | dispatchDraft => cases ha
  | prepareApproval => cases ha
  | execute => cases ha
  | awaitClassify =>
    by_cases hst : s'.status = .escalated
    · exact fun _ he => absurd hst he
    · simp [Node.after, hst] at ha
  | awaitDraft =>
    by_cases hst : s'.status = .escalated
    · exact fun _ he => absurd hst he
    · simp [Node.after, hst] at ha
  | decideApproval =>
    obtain ⟨-, -, hd⟩ := hs
    obtain ⟨reply, hreply⟩ := Option.isSome_iff_exists.mp hd
    simp only [Node.run, Graph.decideApproval, hreply] at h
    cases h
    intro _ _ draft hdraft hrisky
    cases Option.some.inj hdraft
    simp [Node.after, hrisky] at ha
  | awaitApproval =>
    obtain ⟨-, -, hw, reply, hreply, -⟩ := hs
    obtain ⟨wakeupAt, hw⟩ := Option.isSome_iff_exists.mp hw
    have hreply : s.draft = some reply := hreply
    have henv : Graph.awaitApproval s [] =
        .interrupt (.approvalRequired s.ticket.id wakeupAt reply) := by
      simp only [Graph.awaitApproval, hreply, hw]
    simp only [Node.run, Graph.awaitApproval, hreply, hw] at h
    cases resumes with
    | nil => cases h
    | cons value rest =>
      cases value with
      | timeout =>
        cases h
        exact fun _ he => absurd rfl he
      | decision d =>
        simp only [Graph.approvalUpdate] at h
        cases hd : d.approved with
        | true =>
          rw [hd] at h
          cases h
          intro _ _ draft hdraft _
          cases Option.some.inj (hreply.symm.trans hdraft)
          exact hdelivered d rest reply wakeupAt rfl rfl hd henv
        | false =>
          rw [hd] at h
          cases h
          exact fun hr => absurd rfl hr
      | taskFailed error permanent => cases h
      | result r => cases h

/-! ## Threads -/

/-- The states an invocation may bring to `execute` are cleared. -/
structure InvocationCleared (log : List Event) (inv : Invocation) : Prop where
  checkpoint : inv.checkpoint.next = some .execute → Cleared log inv.checkpoint.values
  result : ∀ s', inv.result = some (.update s') →
    (inv.checkpoint.next.bind fun n => n.after s') = some .execute → Cleared log s'

def ThreadsCleared (sh : Shared) : Prop := ∀ t cp, sh.checkpoints.get t = some cp →
  cp.next = some .execute → Cleared sh.log cp.values

theorem InvocationCleared.mono {inv : Invocation} (hl : log <:+ log')
    (h : InvocationCleared log inv) : InvocationCleared log' inv :=
  ⟨fun hn => (h.checkpoint hn).mono hl, fun s' hr hn => (h.result s' hr hn).mono hl⟩

/-- The decision a driver's invocation delivers to the approval interrupt was accepted before. -/
theorem accepted_of_offer {dr : Driver} {inv : Invocation} {d : ApprovalDecision}
    {rest : List Resume} (hP : (dr.driving inv).ThreadSound sh.checkpoints)
    (hR : (dr.driving inv).ResumeSound sh.log) (hn : inv.checkpoint.next = some .awaitApproval)
    (hres : inv.resumes = .decision d :: rest) :
    rest = [] ∧ ∃ id, .accepted inv.checkpoint.threadId id d ∈ sh.log := by
  have hinv := Proc.ThreadSound.invocation hP
  have hnil : inv.checkpoint.resumes = [] := by
    refine hinv.checkpoint.resumes.resolve_right ?_
    rintro ⟨-, h | h⟩ <;> rw [hn] at h <;> cases h
  rw [Invocation.resumes, hnil, List.nil_append] at hres
  cases ho : inv.offered with
  | none =>
    rw [ho] at hres
    cases hres
  | some value =>
    rw [ho] at hres
    cases hres
    refine ⟨rfl, ?_⟩
    cases dr with
    | createTicket =>
      have hno := hP.1
      rw [ho] at hno
      cases hno
    | step run resume =>
      have hpay : Resume.decision d = resume.payload := hP.2.1 _ ho
      have hs := hR run resume rfl
      unfold TicketFlow.ResumeSound at hs
      rw [← hpay] at hs
      obtain ⟨id, -, hacc⟩ := hs
      exact ⟨id, hP.1 ▸ hacc⟩

theorem ThreadsCleared.effect (hI : ThreadsCleared sh)
    (hJ : ∀ inv ∈ p.invocation, InvocationCleared sh.log inv) (he : Effect sh i p a sh' p') :
    ThreadsCleared sh' := by
  have hl := he.log_suffix
  intro t cp hcp hn
  cases he.threadChange t with
  | same heq => exact (hI t cp (heq.symm.trans hcp) hn).mono hl
  | created hp ha ht hf hdb hlog hseq heq =>
    rw [hcp] at heq
    cases heq
    cases hn
  | put hp ha ht hr hnx hp' hdb hlog hseq heq =>
    rename_i dr inv values next
    rw [hcp] at heq
    cases heq
    subst hp
    have hc := hJ inv (Proc.invocation_driving dr inv)
    exact (hc.result values hr (hnx.symm.trans hn)).mono hl
  | suspended hp ha ht hr hcp₀ hid hp' hdb hlog heq =>
    rename_i dr inv env cp₀
    rw [hcp] at heq
    cases heq
    exact (hI t cp₀ hcp₀ hn).mono hl
  | deleted hp ha heq =>
    rw [hcp] at heq
    cases heq

theorem InvocationCleared.acts (hI' : ThreadsCleared sh')
    (hJ : ∀ inv ∈ p.invocation, InvocationCleared sh.log inv)
    (hP : p.ThreadSound sh.checkpoints) (hR : p.ResumeSound sh.log) (he : Effect sh i p a sh' p') :
    ∀ inv ∈ p'.invocation, InvocationCleared sh'.log inv := by
  have hl := he.log_suffix
  intro inv' hinv'
  have fresh : sh'.checkpoints.get inv'.checkpoint.threadId = some inv'.checkpoint →
      inv'.result = none → InvocationCleared sh'.log inv' := by
    intro hget hnone
    refine ⟨fun hn => hI' _ _ hget hn, fun s' hr => ?_⟩
    rw [hnone] at hr
    cases hr
  cases he.driveChange hinv' with
  | still hold => exact (hJ inv' hold).mono hl
  | put hget hr hnil => exact fresh hget hr
  | read hp' hsh hget hr ho => exact fresh (hsh ▸ hget) hr
  | @ran dr inv n db result hp hr hnx hrun hinv₁ hsh =>
    subst hp hinv₁ hsh
    have hc := (hJ inv (Proc.invocation_driving dr inv)).mono hl
    refine ⟨hc.checkpoint, ?_⟩
    rintro s' ⟨⟩ hafter
    have hinv := Proc.ThreadSound.invocation hP
    have hs := hinv.checkpoint.state
    rw [hnx] at hs
    change (inv.checkpoint.next.bind fun n => n.after s') = some .execute at hafter
    rw [hnx] at hafter
    refine cleared_of_run (n := n) hs (congrArg Prod.snd hrun) hafter ?_
    -- the delivery is the event this very run puts on record
    rintro d rest reply wakeupAt rfl hres happ henv
    obtain ⟨rfl, id, hacc⟩ := accepted_of_offer hP hR hnx hres
    rw [hinv.checkpoint.ticket] at henv ⊢
    refine ⟨sh.log, _, d, id, wakeupAt, ?_, hacc, happ, henv⟩
    rw [← hres]
    exact List.suffix_rfl

theorem World.Reachable.cleared {w : World} (hw : World.Reachable w) : ThreadsCleared w.shared ∧
    ∀ i, ∀ inv ∈ (w.procs i).invocation, InvocationCleared w.shared.log inv := by
  refine World.ReachableWhen.invariant (I := ThreadsCleared)
    (J := fun sh _ p => ∀ inv ∈ p.invocation, InvocationCleared sh.log inv) (fun _ _ h => nomatch h)
    (fun _ _ h => nomatch h) ?_ hw
  intro w i a sh' p' hr _ hI hJ he
  have hI' := hI.effect (hJ i) he
  have hJ' := InvocationCleared.acts hI' (hJ i) ((World.Reachable.threads hr).2 i)
    ((World.Reachable.signals hr).2 i) he
  exact ⟨hI', hJ', fun j _ inv hinv => (hJ j inv hinv).mono he.log_suffix⟩

/-! ## Payloads -/

/-- Only `execute` inserts a finalize payload, and it builds it from its state. -/
theorem finalize_of_write {n : Node} {resumes : List Resume} {w : QueueWrite} {db : Database}
    {key : IdempotencyKey} {queueName : QueueName} {taskType : TaskType} {workflowId : TicketId}
    (hw : n.write s resumes = some w) (hins : w.Inserts db key queueName taskType workflowId payload)
    (hres : payload.result.isSome) : n = .execute ∧ ∃ draft c, s.draft = some draft ∧
      s.classification = some c ∧
      payload = .finalize s.ticket draft.action (Graph.expectedResult s c draft) := by
  have await : ∀ {ty q}, awaitWrite ty s.ticket.id q resumes = some w → q.result = none → False := by
    intro ty q h hq
    unfold awaitWrite at h
    split at h
    · cases h
      cases hins
      rw [hq] at hres
      cases hres
    · cases h
  cases n with
  | dispatchClassify =>
    cases hw
    cases hins
    cases hres
  | awaitClassify => exact (await hw rfl).elim
  | dispatchDraft =>
    obtain ⟨c, -, rfl⟩ := Option.map_eq_some_iff.mp hw
    cases hins
    cases hres
  | awaitDraft =>
    obtain ⟨c, -, hw⟩ := Option.bind_eq_some_iff.mp hw
    exact (await hw rfl).elim
  | execute =>
    obtain ⟨draft, hd, hw⟩ := Option.bind_eq_some_iff.mp hw
    obtain ⟨c, hc, rfl⟩ := Option.map_eq_some_iff.mp hw
    cases hins
    exact ⟨rfl, draft, c, hd, hc, rfl⟩
  | _ => cases hw

/-- A finalize row has just been inserted by a run of `execute`. -/
theorem Inserted.finalize {key : IdempotencyKey} {r : QueuedTask} (h : Inserted sh p sh' key r)
    (hres : r.payload.result.isSome) : ∃ dr inv draft c, p = Driver.driving dr inv ∧
      inv.checkpoint.next = some .execute ∧ inv.checkpoint.values.draft = some draft ∧
      inv.checkpoint.values.classification = some c ∧
      r.payload = .finalize inv.checkpoint.values.ticket draft.action
        (Graph.expectedResult inv.checkpoint.values c draft) ∧
      sh'.log = .ran inv.checkpoint.threadId .execute inv.checkpoint.values inv.resumes :: sh.log := by
  cases h with
  | node hp hn hw hins hlog =>
    obtain ⟨rfl, draft, c, hd, hc, hpay⟩ := finalize_of_write hw hins hres
    exact ⟨_, _, draft, c, hp, hn, hd, hc, hpay, hlog⟩

/-- Every finalize payload in the queue, and every one a refund was recorded for, is built from a
cleared state. -/
structure PayloadsCleared (sh : Shared) : Prop where
  rows : ∀ r ∈ sh.db.taskQueue, r.payload.result.isSome → FinalizeFrom sh.log r.payload
  refunds : ∀ payload first, .recordedRefund payload first ∈ sh.log →
    RefundDue payload ∧ FinalizeFrom sh.log payload

/-- What a worker knows of the payload it was delivered. -/
def DeliveryCleared (log : List Event) (p : Proc) : Prop := ∀ pc, p = .worker pc →
  ∀ task ∈ pc.task, task.payload.result.isSome → FinalizeFrom log task.payload

/-- A recorded refund is of the payload of a worker that found it due. -/
theorem Effect.refundEvent {first : Bool} (h : Effect sh i p a sh' p')
    (hm : .recordedRefund payload first ∈ sh'.log) : .recordedRefund payload first ∈ sh.log ∨
    ∃ task amount result, p = .worker (.refunding task amount result) ∧ payload = task.payload := by
  have other : ∀ {e : Event}, .recordedRefund payload first ∈ e :: sh.log →
      (.recordedRefund payload first = e → False) → .recordedRefund payload first ∈ sh.log :=
    fun hm hne => (List.mem_cons.mp hm).resolve_left hne
  cases h with
  | created hf => exact .inl (other hm nofun)
  | ran hr hnx hrun => exact .inl (other hm nofun)
  | accepted hs => exact .inl (other hm nofun)
  | claimed hs => exact .inl (other hm nofun)
  | released => exact .inl (other hm nofun)
  | saved => exact .inl (other hm nofun)
  | refunded =>
    rcases List.mem_cons.mp hm with heq | hm
    · cases heq
      exact .inr ⟨_, _, _, rfl, rfl⟩
    · exact .inl hm
  | replied hs => exact .inl (other hm nofun)
  | recorded => exact .inl (other hm nofun)
  | completed hmem hs => exact .inl (other hm nofun)
  | _ => exact .inl hm

theorem PayloadsCleared.effect (hT : TasksSound sh.db) (hI : PayloadsCleared sh)
    (hJ : DeliveryCleared sh.log p) (hF : ∀ pc, p = .worker pc → FinalizeSound sh.log pc)
    (hP : p.ThreadSound sh.checkpoints) (hC : ∀ inv ∈ p.invocation, InvocationCleared sh.log inv)
    (he : Effect sh i p a sh' p') : PayloadsCleared sh' := by
  have hl := he.log_suffix
  refine ⟨fun r hr hres => ?_, fun payload first hm => ?_⟩
  · have hr' := task_of_mem (he.taskKeys hT.keys) hr
    rcases (he.taskChange hT.keys r.idempotencyKey).origin hr' with ⟨r₀, hr₀, hsame⟩ | hins
    · rw [hsame.payload] at hres ⊢
      exact (hI.rows r₀ (Database.task_eq_some hr₀).1 hres).mono hl
    · obtain ⟨dr, inv, draft, c, hp, hn, hd, hc, hpay, hlog⟩ := hins.finalize hres
      subst hp
      have hinv := Proc.ThreadSound.invocation hP
      have hcl := (hC inv (Proc.invocation_driving dr inv)).checkpoint hn
      refine ⟨_, inv.resumes, draft, c, ?_, hd, hc, hpay, hcl.mono hl⟩
      rw [hlog, hinv.checkpoint.ticket]
      exact List.mem_cons_self
  · rcases he.refundEvent hm with hm | ⟨task, amount, result, rfl, rfl⟩
    · obtain ⟨hdue, hfrom⟩ := hI.refunds payload first hm
      exact ⟨hdue, hfrom.mono hl⟩
    · obtain ⟨hres, hdue, -⟩ := hF _ rfl
      exact ⟨hdue, (hJ _ rfl task rfl (by rw [hres]; rfl)).mono hl⟩

theorem DeliveryCleared.effect (hI : PayloadsCleared sh) (hJ : DeliveryCleared sh.log p)
    (he : Effect sh i p a sh' p') : DeliveryCleared sh'.log p' := by
  rintro pc rfl task ht hres
  refine FinalizeFrom.mono he.log_suffix ?_
  rcases he.workerMove.task ht with ⟨pc₀, hp, ht₀⟩ | ⟨r, hr, rfl⟩
  · exact hJ pc₀ hp task ht₀ hres
  · exact hI.rows r hr hres

theorem World.Reachable.payloads {w : World} (hw : World.Reachable w) :
    PayloadsCleared w.shared := by
  refine (World.ReachableWhen.invariant (I := PayloadsCleared)
    (J := fun sh _ p => DeliveryCleared sh.log p) ⟨fun _ h => (nomatch h), fun _ _ h => nomatch h⟩
    (fun _ _ h => nomatch h) ?_ hw).1
  intro w i a sh' p' hr _ hI hJ he
  have hF := (World.Reachable.ledgers hr).2 i
  refine ⟨hI.effect (World.Reachable.tasks hr).1 (hJ i) hF ((World.Reachable.threads hr).2 i)
    ((World.Reachable.cleared hr).2 i) he, (hJ i).effect hI he, ?_⟩
  exact fun j _ pc hpc task ht hres => (hJ j pc hpc task ht hres).mono he.log_suffix

/-! ## No unapproved risky outcome -/

/-- A payload that resolves its ticket was built in a state that is not rejected or escalated. -/
theorem Cleared.of_resolved {c : Classification} (h : Cleared log s) (hd : s.draft = some draft)
    (hres : (Graph.expectedResult s c draft).status = .resolved) (hrisky : Graph.Risky draft) :
    Approved log s.ticket.id draft := by
  simp only [Graph.expectedResult, Graph.terminalOutcome] at hres
  refine h (fun hst => ?_) (fun hst => ?_) draft hd hrisky
  · rw [hst] at hres
    cases hres
  · rw [hst] at hres
    cases hres

/-- Every refund was approved at its amount, and so was every risky draft that is to be resolved. -/
theorem no_unapproved_risky_outcome {w : World} (hw : World.Reachable w) :
    (∀ r ∈ w.shared.db.refunds, ∃ draft, Approved w.shared.log r.ticketId draft ∧
      draft.action.refundAmount = some r.amount) ∧
    (∀ r ∈ w.shared.db.taskQueue, ∀ ticket action result, r.payload = .finalize ticket action result →
      ∃ vals resumes draft c, .ran ticket.id .execute vals resumes ∈ w.shared.log ∧
        vals.draft = some draft ∧ vals.classification = some c ∧ action = draft.action ∧
        result = Graph.expectedResult vals c draft ∧
        (result.status = .resolved → Graph.Risky draft → Approved w.shared.log ticket.id draft)) := by
  have hcleared := hw.payloads
  constructor
  · intro r hr
    obtain ⟨payload, hm, ht, hamount⟩ := hw.ledgers.1.amounts r hr
    obtain ⟨⟨action, result, ha, hres, hst, hty⟩, hfrom⟩ := hcleared.refunds payload true hm
    obtain ⟨vals, resumes, draft, c, -, hd, -, rfl, hcl⟩ := hfrom
    cases ha
    cases hres
    exact ⟨draft, ht ▸ hcl.of_resolved hd hst (.inl hty), hamount⟩
  · intro r hr ticket action result hpay
    obtain ⟨vals, resumes, draft, c, hm, hd, hc, hfrom, hcl⟩ := hcleared.rows r hr (by rw [hpay]; rfl)
    rw [hpay] at hfrom
    cases hfrom
    exact ⟨vals, resumes, draft, c, hm, hd, hc, rfl, rfl, hcl.of_resolved hd⟩

/-- A refund paid after its approval. -/
theorem no_unapproved_risky_outcome_refunded : ∃ w draft, World.Reachable w ∧
    (∃ r ∈ w.shared.db.refunds, r.ticketId = 7 ∧ draft.action.refundAmount = some r.amount) ∧
    Approved w.shared.log 7 draft := by
  have hrun : (World.initial.run Proc.step (Schedule.drafted Schedule.refundDraft 12 ++
      Schedule.submit true ++ Schedule.step 2 8 ++ [(3, .dequeue .taskQueue Schedule.unlocked)] ++
      Schedule.advance 3 7)).map (fun w => decide (∃ r ∈ w.shared.db.refunds, r.ticketId = 7)) =
        some true := by decide +kernel
  obtain ⟨w, hw, hp⟩ := exists_reachableWhen_of_run hrun
  obtain ⟨r, hr, ht⟩ := of_decide_eq_true hp
  obtain ⟨draft, happ, hamount⟩ := (no_unapproved_risky_outcome hw).1 r hr
  exact ⟨w, draft, hw, ⟨r, hr, ht, hamount⟩, ht ▸ happ⟩

end TicketFlow
