import TicketFlow.Fallback
import TicketFlow.Resumption
import TicketFlow.Signals
import TicketFlow.Wakeups

/-! # Where states and payloads come from

Every state of a thread carries the ticket its request created, and while a draft is being made it
carries the one classification a task of the thread has come to. So two tasks of one stage carry the
same payload, whichever runner enqueued them. -/

namespace TicketFlow
open Table Interleaving
set_option autoImplicit false

/-- A ticket id names one ticket. -/
def CreatedOnce (log : List Event) : Prop := ∀ ticket ticket', .created ticket ∈ log →
  .created ticket' ∈ log → ticket.id = ticket'.id → ticket = ticket'

/-- A classification task of the ticket has this result. -/
def Classified (db : Database) (t : TicketId) (c : Classification) : Prop :=
  ∃ key r, key.ticket = t ∧ key.taskType = .classify ∧ db.task key = some r ∧
    r.result = some (.classification c)

/-- The ticket was created, and the classification a draft is made with is the task's. -/
structure StateSourced (sh : Shared) (s : TicketState) (next : Option Node) : Prop where
  created : .created s.ticket ∈ sh.log
  classified : next = some .dispatchDraft ∨ next = some .awaitDraft →
    ∀ c ∈ s.classification, Classified sh.db s.ticket.id c

def PayloadSourced (sh : Shared) : TaskPayload → Prop
  | .classify ticket | .finalize ticket _ _ => .created ticket ∈ sh.log
  | .draft ticket c => .created ticket ∈ sh.log ∧ Classified sh.db ticket.id c

structure Sourced (sh : Shared) : Prop where
  once : CreatedOnce sh.log
  threads : ∀ t cp, sh.checkpoints.get t = some cp → StateSourced sh cp.values cp.next
  payloads : ∀ r ∈ sh.db.taskQueue, PayloadSourced sh r.payload

/-- What a process knows of the states it works on and of the value it brings. -/
structure SourceKnows (sh : Shared) (p : Proc) : Prop where
  invocation : ∀ inv, p.invocation = some inv →
    StateSourced sh inv.checkpoint.values inv.checkpoint.next ∧
    ∀ s, inv.result = some (.update s) →
      StateSourced sh s (inv.checkpoint.next.bind fun n => n.after s)
  resumes : ∀ run v c, p.resumes = some (run, v) → v.payload = .result (.classification c) →
    Classified sh.db run.ticketId c

variable {sh sh' : Shared} {w w' : World} {i : WorkerId} {p p' : Proc} {a : Action} {t : TicketId}
  {ty : TaskType} {r f : QueuedTask} {db : Database} {key : IdempotencyKey} {n : Node}
  {s s' : TicketState} {resumes : List Resume} {next : Option Node} {c c₁ c₂ : Classification}
  {payload : TaskPayload}

/-! ## One classification -/

theorem IdempotencyKey.of_taskType (ht : key.ticket = t) (hty : key.taskType = ty)
    (hne : ty ≠ .finalizeTicket) : key = .agent t ty ∨ key = .fallback t ty := by
  subst ht hty
  cases key with
  | agent u ty => exact .inl rfl
  | fallback u ty => exact .inr rfl
  | finalize u => exact absurd rfl hne

theorem Classified.unique (hE : Exclusive db) (h₁ : Classified db t c₁) (h₂ : Classified db t c₂) :
    c₁ = c₂ := by
  obtain ⟨k₁, r₁, ht₁, hty₁, hr₁, hres₁⟩ := h₁
  obtain ⟨k₂, r₂, ht₂, hty₂, hr₂, hres₂⟩ := h₂
  -- only one of the two tasks has a result
  have hkey : k₁ = k₂ := by
    rcases IdempotencyKey.of_taskType ht₁ hty₁ (by decide) with rfl | rfl <;>
      rcases IdempotencyKey.of_taskType ht₂ hty₂ (by decide) with rfl | rfl
    · rfl
    · rw [hE.one_result hr₁ hr₂] at hres₁
      cases hres₁
    · rw [hE.one_result hr₂ hr₁] at hres₂
      cases hres₂
    · rfl
  subst hkey
  cases hr₁.symm.trans hr₂
  cases hres₁.symm.trans hres₂
  rfl

theorem Classified.effect (h : Classified sh.db t c) (hT : TasksSound sh.db)
    (hp : a = .advance → p.prunes = false) (he : Effect sh i p a sh' p') :
    Classified sh'.db t c := by
  obtain ⟨key, r, ht, hty, hr, hres⟩ := h
  have hdone := (hT.of_task hr).2.done.mp (by rw [hres]; rfl)
  exact ⟨key, r, ht, hty, (he.taskChange hT.keys key).frozen hp hr (.inl hdone), hres⟩

theorem StateSourced.effect (h : StateSourced sh s next) (hT : TasksSound sh.db)
    (hp : a = .advance → p.prunes = false) (he : Effect sh i p a sh' p') :
    StateSourced sh' s next :=
  ⟨he.log_suffix.subset h.created, fun hn c hc => (h.classified hn c hc).effect hT hp he⟩

theorem PayloadSourced.effect (h : PayloadSourced sh payload) (hT : TasksSound sh.db)
    (hp : a = .advance → p.prunes = false) (he : Effect sh i p a sh' p') :
    PayloadSourced sh' payload := by
  cases payload with
  | classify ticket => exact he.log_suffix.subset h
  | draft ticket c => exact ⟨he.log_suffix.subset h.1, h.2.effect hT hp he⟩
  | finalize ticket action result => exact he.log_suffix.subset h

/-! ## What a node makes of them -/

/-- A state on its way to a draft has the classification it had, or the one its node received. -/
theorem Node.run_classification (hrun : (n.run s resumes db).2 = .update s')
    (hn : n.after s' = some .dispatchDraft ∨ n.after s' = some .awaitDraft)
    (hc : s'.classification = some c) :
    (n = .dispatchDraft ∧ s.classification = some c) ∨ .result (.classification c) ∈ resumes := by
  cases n with
  | awaitClassify =>
    right
    have h := awaitAgentTask_cases .classify s.ticket.id (.classify s.ticket) s.wakeupAt resumes db
    simp only [Node.run, Graph.awaitClassify] at hrun
    revert hrun
    revert h
    generalize Graph.awaitAgentTask _ _ _ _ resumes db = out
    obtain ⟨db', aw⟩ := out
    rintro (⟨-, rfl⟩ | ⟨-, redispatched, rfl⟩ | ⟨value, rest, hl, rfl⟩) hrun
    · cases hrun
    · cases hrun
    · have hmem : value ∈ resumes := by
        rcases hl with ⟨rfl, -⟩ | rfl
        · exact List.mem_cons_self
        · exact List.mem_cons_of_mem _ List.mem_cons_self
      simp only [Graph.classifyUpdate] at hrun
      cases value with
      | taskFailed error permanent =>
        cases hrun
        rcases hn with hn | hn <;> cases hn
      | result x =>
        cases x with
        | classification c' =>
          cases hrun
          cases hc
          exact hmem
        | draft d => cases hrun
        | terminal x => cases hrun
      | timeout => cases hrun
      | decision d => cases hrun
  | dispatchDraft =>
    left
    simp only [Node.run, Graph.dispatchDraft] at hrun
    split at hrun
    · cases hrun
    · rename_i c' hc'
      cases hrun
      cases hc'.symm.trans hc
      exact ⟨rfl, hc⟩
  | dispatchClassify => rcases hn with hn | hn <;> cases hn
  | awaitDraft =>
    by_cases he : s'.status = .escalated <;> simp [Node.after, he] at hn
  | decideApproval => cases he : s'.needsApproval <;> simp [Node.after, he] at hn
  | prepareApproval => rcases hn with hn | hn <;> cases hn
  | awaitApproval => rcases hn with hn | hn <;> cases hn
  | execute => rcases hn with hn | hn <;> cases hn

theorem Invocation.Sound.offered_of_mem {inv : Invocation} {value : Resume} {cps : Checkpoints}
    (h : inv.Sound cps) (hm : value ∈ inv.resumes) (hne : value ≠ .timeout) :
    inv.offered = some value := by
  rcases List.mem_append.mp hm with hold | ho
  · rcases h.checkpoint.resumes with hnil | ⟨htime, -⟩
    · rw [hnil] at hold
      cases hold
    · rw [htime] at hold
      exact absurd (List.mem_singleton.mp hold) hne
  · exact Option.mem_toList.mp ho

/-- A result among a node's values was brought by the runner that drives it. -/
theorem offered_of_mem {dr : Driver} {inv : Invocation} {x : TaskResult} {cps : Checkpoints}
    (hP : (dr.driving inv).ThreadSound cps) (h : .result x ∈ inv.resumes) :
    ∃ run resume, dr = .step run resume ∧ resume.payload = .result x := by
  have ho := (Proc.ThreadSound.invocation hP).offered_of_mem h nofun
  cases dr with
  | createTicket =>
    rw [hP.1] at ho
    cases ho
  | step run resume => exact ⟨run, resume, rfl, (hP.2.1 _ ho).symm⟩

/-- The update of a node is sourced if its state is. -/
theorem StateSourced.update {dr : Driver} {inv : Invocation}
    (hP : (dr.driving inv).ThreadSound sh.checkpoints) (hK : SourceKnows sh (dr.driving inv))
    (hn : inv.checkpoint.next = some n)
    (hrun : (n.run inv.checkpoint.values inv.resumes sh.db).2 = .update s') :
    StateSourced sh s' (n.after s') := by
  have hinv := Proc.ThreadSound.invocation hP
  obtain ⟨hs, -⟩ := hK.invocation inv (Proc.invocation_driving dr inv)
  have hran := hinv.ran hn sh.db
  rw [hrun] at hran
  obtain ⟨ht, -⟩ := hran.update
  refine ⟨ht ▸ hs.created, fun hnext c hc => ?_⟩
  rw [ht]
  rcases n.run_classification hrun hnext hc with ⟨rfl, hold⟩ | hmem
  · exact hs.classified (.inl hn) c hold
  · obtain ⟨run, resume, rfl, hpay⟩ := offered_of_mem hP hmem
    have hcl := hK.resumes run resume c rfl hpay
    rw [hinv.checkpoint.ticket, hP.1]
    exact hcl

theorem PayloadSourced.of_write {wr : QueueWrite} {queueName : QueueName} {workflowId : TicketId}
    (hs : StateSourced sh s (some n)) (hw : n.write s resumes = some wr)
    (hins : wr.Inserts db key queueName ty workflowId payload) : PayloadSourced sh payload := by
  have await : ∀ {ty₀} payload₀, PayloadSourced sh payload₀ →
      awaitWrite ty₀ s.ticket.id payload₀ resumes = some wr → PayloadSourced sh payload := by
    intro ty₀ payload₀ hpay hw
    unfold awaitWrite at hw
    split at hw
    · cases hw
      cases hins
      exact hpay
    · cases hw
  cases n with
  | dispatchClassify =>
    cases hw
    cases hins
    exact hs.created
  | awaitClassify => exact await (.classify s.ticket) hs.created hw
  | dispatchDraft =>
    obtain ⟨c, hc, rfl⟩ := Option.map_eq_some_iff.mp hw
    cases hins
    exact ⟨hs.created, hs.classified (.inl rfl) c hc⟩
  | awaitDraft =>
    obtain ⟨c, hc, hw⟩ := Option.bind_eq_some_iff.mp hw
    exact await (.draft s.ticket c) ⟨hs.created, hs.classified (.inr rfl) c hc⟩ hw
  | execute =>
    obtain ⟨reply, -, hw⟩ := Option.bind_eq_some_iff.mp hw
    obtain ⟨c, -, rfl⟩ := Option.map_eq_some_iff.mp hw
    cases hins
    exact hs.created
  | _ => cases hw

/-! ## One action -/

/-- A request creates a ticket nobody had created, and nothing else creates one. -/
theorem Effect.creates_ticket (h : Effect sh i p a sh' p') :
    (∀ ticket, .created ticket ∈ sh'.log → .created ticket ∈ sh.log) ∨
      ∃ ticket, sh'.log = .created ticket :: sh.log ∧
        ∀ e ∈ sh.log, e.createdId ≠ some ticket.id := by
  have other : ∀ {e : Event} {ticket}, (∀ ticket, e ≠ .created ticket) →
      .created ticket ∈ e :: sh.log → .created ticket ∈ sh.log := fun hne hm =>
    (List.mem_cons.mp hm).resolve_left fun he => hne _ he.symm
  cases h with
  | created hf => exact .inr ⟨_, rfl, hf⟩
  | ran hr hn hrun => exact .inl fun ticket => other nofun
  | accepted hs => exact .inl fun ticket => other nofun
  | claimed hs => exact .inl fun ticket => other nofun
  | released => exact .inl fun ticket => other nofun
  | saved => exact .inl fun ticket => other nofun
  | refunded => exact .inl fun ticket => other nofun
  | replied hs => exact .inl fun ticket => other nofun
  | recorded => exact .inl fun ticket => other nofun
  | completed hm hs => exact .inl fun ticket => other nofun
  | _ => exact .inl fun ticket => id

theorem CreatedOnce.effect (h : CreatedOnce sh.log) (he : Effect sh i p a sh' p') :
    CreatedOnce sh'.log := by
  intro ticket ticket' hm hm' hid
  rcases he.creates_ticket with hold | ⟨new, hlog, hf⟩
  · exact h ticket ticket' (hold _ hm) (hold _ hm') hid
  · rw [hlog] at hm hm'
    rcases List.mem_cons.mp hm with hnew | hold
    · rcases List.mem_cons.mp hm' with hnew' | hold'
      · cases hnew
        cases hnew'
        rfl
      · cases hnew
        exact absurd (congrArg some hid.symm) (hf _ hold')
    · rcases List.mem_cons.mp hm' with hnew' | hold'
      · cases hnew'
        exact absurd (congrArg some hid) (hf _ hold)
      · exact h ticket ticket' hold hold' hid

theorem Sourced.effect (hI : Sourced sh) (hK : SourceKnows sh p) (hT : TasksSound sh.db)
    (hp : a = .advance → p.prunes = false) (he : Effect sh i p a sh' p') : Sourced sh' := by
  refine ⟨hI.once.effect he, fun t cp hcp => ?_, fun r hr => ?_⟩
  · cases he.threadChange t with
    | same heq => exact (hI.threads t cp (heq.symm.trans hcp)).effect hT hp he
    | created hp₀ ha ht hf hdb hlog hseq heq =>
      cases hcp.symm.trans heq
      refine ⟨?_, fun hn => ?_⟩
      · rw [hlog]
        exact List.mem_cons_self
      · rcases hn with hn | hn <;> cases hn
    | put hp₀ ha ht hr hn hp' hdb hlog hseq heq =>
      rename_i dr inv values next
      cases hcp.symm.trans heq
      obtain ⟨-, hres⟩ := hK.invocation inv (by rw [hp₀]; simp)
      subst hn
      exact (hres values hr).effect hT hp he
    | suspended hp₀ ha ht hr hcp₀ hid hp' hdb hlog heq =>
      cases hcp.symm.trans heq
      have hold := hI.threads t _ hcp₀
      exact hold.effect hT hp he
    | deleted hp₀ ha heq =>
      rw [heq] at hcp
      cases hcp
  · have hr' := task_of_mem (he.taskKeys hT.keys) hr
    rcases (he.taskChange hT.keys r.idempotencyKey).origin hr' with ⟨r₀, hr₀, hsame⟩ | hins
    · rw [hsame.payload]
      exact (hI.payloads r₀ (Database.task_eq_some hr₀).1).effect hT hp he
    · generalize hk : r.idempotencyKey = key at hins
      cases hins with
      | @node dr inv n wr queueName taskType workflowId payload hp₀ hn hw hins hlog =>
        obtain ⟨hs, -⟩ := hK.invocation inv (by rw [hp₀]; simp)
        rw [hn] at hs
        exact (PayloadSourced.of_write hs hw hins).effect hT hp he

/-- A runner's result is that of a task of its ticket. -/
theorem classified_of_ready {run : WorkflowRun} {env : Envelope} {v : ResumeValue}
    (hT : TasksSound sh.db) (hfor : env.For run.ticketId)
    (hv : Runner.resumeForRun env run.wakeupAt sh.db = some v)
    (hpay : v.payload = .result (.classification c)) : Classified sh.db run.ticketId c := by
  cases Runner.resumeForRun_found hv with
  | decision happ hsig => cases hpay
  | timeout hsome hnone => cases hpay
  | @task key x hkey htask hdecision htimeout =>
    obtain ⟨r, hr, hk, ⟨-, hv⟩ | ⟨-, x, hx, hv⟩⟩ := taskResumeValue_eq_some htask
    · rw [hv] at hpay
      cases hpay
    · rw [hv] at hpay
      cases hpay
      have hty := hT.typed r hr
      have hfit := (hT.answered r hr).fits _ hx
      have htask := task_of_mem hT.keys hr
      refine ⟨key, r, hfor.ticket hkey, ?_, hk ▸ htask, hx⟩
      rw [← hk, ← hty.type]
      -- only a classification task stores a classification
      revert hfit
      cases r.taskType <;> intro hfit
      · rfl
      · exact hfit.elim
      · exact hfit.elim

theorem SourceKnows.other {q : Proc} (h : SourceKnows sh q) (hT : TasksSound sh.db)
    (hp : a = .advance → p.prunes = false) (he : Effect sh i p a sh' p') : SourceKnows sh' q :=
  ⟨fun inv hinv => ⟨(h.invocation inv hinv).1.effect hT hp he,
    fun s hr => ((h.invocation inv hinv).2 s hr).effect hT hp he⟩,
    fun run v c hr hpay => (h.resumes run v c hr hpay).effect hT hp he⟩

theorem SourceKnows.acts (hI : Sourced sh) (h : SourceKnows sh p) (hT : TasksSound sh.db)
    (hP : p.ThreadSound sh.checkpoints) (hp : a = .advance → p.prunes = false)
    (he : Effect sh i p a sh' p') : SourceKnows sh' p' := by
  have hI' := hI.effect h hT hp he
  have hother := h.other hT hp he
  refine ⟨fun inv hinv => ?_, fun run v c hr hpay => ?_⟩
  · have hkeep : ∀ {s next}, StateSourced sh s next → StateSourced sh' s next :=
      fun hs => hs.effect hT hp he
    have fresh : sh'.checkpoints.get inv.checkpoint.threadId = some inv.checkpoint →
        inv.result = none → StateSourced sh' inv.checkpoint.values inv.checkpoint.next ∧
          ∀ s, inv.result = some (.update s) →
            StateSourced sh' s (inv.checkpoint.next.bind fun n => n.after s) := by
      intro hget hnone
      refine ⟨hI'.threads _ _ hget, fun s hr => ?_⟩
      rw [hnone] at hr
      cases hr
    cases he.driveChange hinv with
    | still hold => exact hother.invocation inv hold
    | @ran dr inv₀ n db result hp₀ hr hn hrun hinv₀ hsh =>
      subst hp₀ hinv₀
      obtain ⟨hs, -⟩ := h.invocation inv₀ (Proc.invocation_driving dr inv₀)
      refine ⟨hkeep hs, fun s' hres => ?_⟩
      cases hres
      have hupd := StateSourced.update hP h hn (congrArg Prod.snd hrun)
      rw [hn]
      exact hkeep hupd
    | put hget hr hnil => exact fresh hget hr
    | read hp' hsh hget hr ho => exact fresh (hsh ▸ hget) hr
  · rcases he.resumes hr with hold | ⟨env, rfl, rfl, hready⟩
    · exact hother.resumes run v c hold hpay
    · exact classified_of_ready hT hP hready hpay

theorem World.ReachableWhen.sourced {ok : World → WorkerId → Action → Prop}
    (hok : ∀ w i a, ok w i a → Unpruned w i a) (hw : World.ReachableWhen ok w) :
    Sourced w.shared ∧ ∀ i, SourceKnows w.shared (w.procs i) := by
  refine hw.invariant (I := Sourced) (J := fun sh _ p => SourceKnows sh p) ?_ ?_ ?_
  · exact ⟨fun _ _ h => (nomatch h), fun _ _ h => (nomatch h), fun _ h => nomatch h⟩
  · exact fun _ => ⟨fun _ h => (nomatch h), fun _ _ _ h => nomatch h⟩
  · intro w i a sh' p' hr ha hI hK he
    have hT := (World.Reachable.tasks hr.reachable).1
    have hP := (World.Reachable.threads hr.reachable).2 i
    have hp : a = .advance → (w.procs i).prunes = false := by
      rintro rfl
      exact hok w i _ ha
    exact ⟨hI.effect (hK i) hT hp he, (hK i).acts hI hT hP hp he,
      fun j _ => (hK j).other hT hp he⟩

/-! ## Primary and fallback -/

theorem Sourced.payload_eq (hI : Sourced sh) (hE : Exclusive sh.db) (hT : TasksSound sh.db)
    (hr : r ∈ sh.db.taskQueue) (hf : f ∈ sh.db.taskQueue) (hty : f.taskType = r.taskType)
    (hne : r.taskType ≠ .finalizeTicket) (hwf : f.workflowId = r.workflowId) :
    f.payload = r.payload := by
  have hpr := hI.payloads r hr
  have hpf := hI.payloads f hf
  have hr' := (hT.typed r hr).payload
  have hf' := (hT.typed f hf).payload
  rw [hty, hwf] at hf'
  cases hk : r.taskType with
  | classify =>
    rw [hk] at hr' hf'
    cases hrp : r.payload with
    | classify ticket =>
      cases hfp : f.payload with
      | classify ticket' =>
        rw [hrp] at hpr hr'
        rw [hfp] at hpf hf'
        exact congrArg _ (hI.once _ _ hpf hpr (hf'.trans hr'.symm))
      | draft ticket' c => rw [hfp] at hf'; exact hf'.elim
      | finalize ticket' action result => rw [hfp] at hf'; exact hf'.elim
    | draft ticket c => rw [hrp] at hr'; exact hr'.elim
    | finalize ticket action result => rw [hrp] at hr'; exact hr'.elim
  | draft =>
    rw [hk] at hr' hf'
    cases hrp : r.payload with
    | draft ticket c =>
      cases hfp : f.payload with
      | draft ticket' c' =>
        rw [hrp] at hpr hr'
        rw [hfp] at hpf hf'
        have hticket := hI.once _ _ hpf.1 hpr.1 (hf'.trans hr'.symm)
        subst hticket
        rw [hpf.2.unique hE hpr.2]
      | classify ticket' => rw [hfp] at hf'; exact hf'.elim
      | finalize ticket' action result => rw [hfp] at hf'; exact hf'.elim
    | classify ticket => rw [hrp] at hr'; exact hr'.elim
    | finalize ticket action result => rw [hrp] at hr'; exact hr'.elim
  | finalizeTicket => exact absurd hk hne

/-- A primary that is settled without a fallback gets none. -/
theorem undispatched_of_settled (hw : World.ReachableWhen Unpruned w)
    (hr : w.shared.db.task (.agent t ty) = some r) (hst : r.status = .done ∨ r.status = .failed)
    (hnone : w.shared.db.task (.fallback t ty) = none)
    (hw' : ReachableWhen Proc.step (· = w) Unpruned w') :
    w'.shared.db.task (.fallback t ty) = none := by
  refine Interleaving.ReachableWhen.invariant
    (I := fun w => w.shared.db.task (.fallback t ty) = none) ?_ ?_ hw'
  · rintro c rfl
    exact hnone
  · intro c i a sh' p' hc hok hold hp
    have hT := (World.Reachable.tasks (ReachableWhen.trans hw hc).reachable).1
    cases hf : sh'.db.task (.fallback t ty) with
    | none => rfl
    | some f =>
      -- the row that is inserted would take the place of a pending primary
      obtain ⟨r', hr', hpend, -⟩ := (effect_of_step hp).redispatches hT hold hf
      cases (frozen_of_reachable hw hr hst hc).symm.trans hr'
      rw [hpend] at hst
      rcases hst with hst | hst <;> cases hst

/-- Before any `prune_settled`: beside a fallback stands the primary task of the same work, failed
for good without a result, and it stays so; a primary that has a result, or is settled without a
fallback, never gets one; and no step inserts a fallback whose primary is not pending. -/
theorem primary_fallback_exclusive (hw : World.ReachableWhen Unpruned w) (t : TicketId)
    (ty : TaskType) :
    (∀ f, w.shared.db.task (.fallback t ty) = some f → ∃ r, w.shared.db.task (.agent t ty) = some r ∧
      (r.status = .failed ∧ r.permanent = true ∧ r.result = none) ∧
      (f.taskType = r.taskType ∧ f.workflowId = r.workflowId ∧ f.payload = r.payload) ∧
      ∀ w', ReachableWhen Proc.step (· = w) Unpruned w' →
        w'.shared.db.task (.agent t ty) = some r) ∧
    (∀ r, w.shared.db.task (.agent t ty) = some r → r.result.isSome →
      ∀ w', ReachableWhen Proc.step (· = w) Unpruned w' →
        w'.shared.db.task (.fallback t ty) = none) ∧
    (∀ r, w.shared.db.task (.agent t ty) = some r → r.status = .done ∨ r.status = .failed →
      w.shared.db.task (.fallback t ty) = none →
      ∀ w', ReachableWhen Proc.step (· = w) Unpruned w' →
        w'.shared.db.task (.fallback t ty) = none) ∧
    ∀ i a w', w.next Proc.step i a = some w' →
      (∀ r, w.shared.db.task (.agent t ty) = some r → r.status ≠ .pending) →
      w.shared.db.task (.fallback t ty) = none → w'.shared.db.task (.fallback t ty) = none := by
  have hT := (World.Reachable.tasks hw.reachable).1
  refine ⟨fun f hf => ?_, fun r hr hres w' hw' => ?_, fun r hr hst hnone w' hw' => ?_,
    fun i a w' hn hno hnone => ?_⟩
  · obtain ⟨r, hr, hst, hperm, hres⟩ := hw.exclusive t ty f hf
    obtain ⟨hfm, hfk⟩ := Database.task_eq_some hf
    obtain ⟨hrm, hrk⟩ := Database.task_eq_some hr
    have hft := hT.typed f hfm
    have hrt := hT.typed r hrm
    have hty : f.taskType = r.taskType := by rw [hft.type, hrt.type, hfk, hrk]; rfl
    have hwf : f.workflowId = r.workflowId := by rw [hft.workflow, hrt.workflow, hfk, hrk]; rfl
    have hne : r.taskType ≠ .finalizeTicket := by
      have hproper := hrt.proper
      rw [hrk] at hproper
      rw [hrt.type, hrk]
      exact hproper
    have hsourced := (World.ReachableWhen.sourced (fun _ _ _ => id) hw).1
    have hpay := hsourced.payload_eq hw.exclusive hT hrm hfm hty hne hwf
    exact ⟨r, hr, ⟨hst, hperm, hres⟩, ⟨hty, hwf, hpay⟩,
      fun w' hw' => frozen_of_reachable hw hr (.inr hst) hw'⟩
  · have hdone := (hT.of_task hr).2.done.mp hres
    have hr' := frozen_of_reachable hw hr (.inl hdone) hw'
    cases hf : w'.shared.db.task (.fallback t ty) with
    | none => rfl
    | some f =>
      rw [(World.ReachableWhen.exclusive (hw.trans hw')).one_result hr' hf] at hres
      cases hres
  · exact undispatched_of_settled hw hr hst hnone hw'
  · obtain ⟨sh', p', hstep, rfl⟩ := Config.next_eq_some hn
    cases hf : sh'.db.task (.fallback t ty) with
    | none => rfl
    | some f =>
      obtain ⟨r, hr, hpend, -⟩ := (effect_of_step hstep).redispatches hT hnone hf
      exact absurd hpend (hno r hr)

/-- The primary classification task of ticket 7 waited too long, and its fallback was enqueued. -/
def Schedule.redispatched : Schedule :=
  Schedule.create ++ [(0, .tick (seconds 31))] ++ Schedule.step 2 6

theorem primary_fallback_exclusive_redispatched : ∃ w r f, World.ReachableWhen Unpruned w ∧
    w.shared.db.task (.fallback 7 .classify) = some f ∧
    w.shared.db.task (.agent 7 .classify) = some r ∧ r.status = .failed ∧
    f.payload = r.payload := by
  have hrun : (World.initial.runWhen Proc.step Unpruned Schedule.redispatched).map (fun w =>
      (w.shared.db.task (.fallback 7 .classify)).isSome) = some true := by decide +kernel
  obtain ⟨w, hw, hp⟩ := exists_reachableWhen_of_run hrun
  obtain ⟨f, hf⟩ := Option.isSome_iff_exists.mp hp
  obtain ⟨r, hr, ⟨hst, -⟩, ⟨-, -, hpay⟩, -⟩ := (primary_fallback_exclusive hw 7 .classify).1 f hf
  exact ⟨w, r, f, hw, hf, hr, hst, hpay⟩

/-- Process `i` is in the middle of a runner's step, and no `prune_settled` commits. -/
def WithinStep (i : WorkerId) (w : World) (j : WorkerId) (a : Action) : Prop :=
  Unpruned w j a ∧ (w.procs i).holds.isSome = true

instance (i : WorkerId) (w : World) (j : WorkerId) (a : Action) : Decidable (WithinStep i w j a) :=
  inferInstanceAs (Decidable (_ ∧ _))

/-- The timer of ticket 7's classification has fired for process `i` while a worker has the primary
task. -/
def firedLeased (i : WorkerId) (w : World) : Bool :=
  match w.procs i with
  | .runner (.resuming run v) => decide (run.ticketId = 7 ∧ v.payload = .timeout) &&
      (w.shared.db.task (.agent 7 .classify)).any fun r => r.status = .leased
  | _ => false

/-- From here process `i` goes through `acts` without ending its step, and its next action inserts
the fallback of ticket 7's classification. -/
def insertsFallback (i : WorkerId) (acts : Schedule) (w : World) : Bool :=
  (w.runWhen Proc.step (WithinStep i) acts).any fun w' =>
    (w'.shared.db.task (.fallback 7 .classify)).isNone &&
      (w'.next Proc.step i .advance).any fun w'' =>
        (w''.shared.db.task (.fallback 7 .classify)).isSome

theorem firedLeased_spec (h : firedLeased i w = true) : ∃ run v r,
    w.procs i = .runner (.resuming run v) ∧ run.ticketId = 7 ∧ v.payload = .timeout ∧
      w.shared.db.task (.agent 7 .classify) = some r ∧ r.status = .leased := by
  unfold firedLeased at h
  split at h
  · rename_i run v hp
    obtain ⟨hrun, hany⟩ := Bool.and_eq_true_iff.mp h
    obtain ⟨ht, hv⟩ := of_decide_eq_true hrun
    obtain ⟨r, hr, hst⟩ := (Option.any_eq_true ..).mp hany
    exact ⟨run, v, r, hp, ht, hv, hr, of_decide_eq_true hst⟩
  · cases h

theorem insertsFallback_spec {acts : Schedule} (h : insertsFallback i acts w = true) :
    ∃ w' w'', ReachableWhen Proc.step (· = w) (WithinStep i) w' ∧
      w'.shared.db.task (.fallback 7 .classify) = none ∧
      w'.next Proc.step i .advance = some w'' ∧
      w''.shared.db.task (.fallback 7 .classify) ≠ none := by
  obtain ⟨w', hrun, hp⟩ := (Option.any_eq_true ..).mp h
  obtain ⟨hnone, hany⟩ := Bool.and_eq_true_iff.mp hp
  obtain ⟨w'', hn, hsome⟩ := (Option.any_eq_true ..).mp hany
  refine ⟨w', w'', Config.runWhen_reachable (.init rfl) hrun, ?_, hn, ?_⟩
  · exact Option.isNone_iff_eq_none.mp hnone
  · exact Option.isSome_iff_ne_none.mp hsome

/-- The primary task is leased when runner 2 chooses the timeout; its worker fails and returns it to
the queue, and the same step of runner 2 cancels it and inserts the fallback. -/
theorem leased_primary_redispatched : ¬ ∀ w, World.ReachableWhen Unpruned w → ∀ i run v ty r,
    w.procs i = .runner (.resuming run v) → v.payload = .timeout →
    w.shared.db.task (.agent run.ticketId ty) = some r → r.status ≠ .pending →
    ∀ w', ReachableWhen Proc.step (· = w) (WithinStep i) w' →
      w'.shared.db.task (.fallback run.ticketId ty) = none →
      ∀ w'', w'.next Proc.step i .advance = some w'' →
        w''.shared.db.task (.fallback run.ticketId ty) = none := by
  intro hall
  have hrun : (World.initial.runWhen Proc.step Unpruned (Schedule.create ++
      [(1, .dequeue .agentTaskQueue Schedule.unlocked), (0, .tick (seconds 31))] ++
      Schedule.step 2 2)).map (fun w => firedLeased 2 w && insertsFallback 2
        [(1, .activityRaises "unavailable" false), (1, .advance), (2, .advance)] w) =
      some true := by decide +kernel
  obtain ⟨w, hw, hp⟩ := exists_reachableWhen_of_run hrun
  obtain ⟨hfired, hinserts⟩ := Bool.and_eq_true_iff.mp hp
  obtain ⟨run, v, r, hres, ht, hv, hr, hst⟩ := firedLeased_spec hfired
  obtain ⟨w', w'', hw', hnone, hn, hsome⟩ := insertsFallback_spec hinserts
  rw [← ht] at hr hnone hsome
  have hleased : r.status ≠ .pending := by simp [hst]
  exact hsome (hall w hw 2 run v .classify r hres hv hr hleased w' hw' hnone w'' hn)

end TicketFlow
