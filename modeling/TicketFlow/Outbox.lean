import TicketFlow.Approval
import TicketFlow.Overtaking
import TicketFlow.Provenance

/-! # The outbox

A dispatch node commits its task before the checkpoint that leads to the waiting node, and a node
that suspends has committed the task its envelope names. What the task carries is what the state
determines: a ticket and its classification never change, and the draft does not as long as no
superseded runner saves over a newer checkpoint. -/

namespace TicketFlow
open Table Interleaving
set_option autoImplicit false

/-! ## What an envelope and a state say of the task -/

def Envelope.workflowId : Envelope → TicketId
  | .agentTask _ _ workflowId _ _ => workflowId
  | .approvalRequired ticketId _ _ => ticketId
  | .terminalTask _ workflowId _ _ => workflowId

/-- The envelope of `execute` always says `finalize_ticket`. -/
def Envelope.taskType : Envelope → Option TaskType
  | .agentTask _ taskType _ _ _ => some taskType
  | .approvalRequired _ _ _ => none
  | .terminalTask _ _ _ _ => some .finalizeTicket

def Envelope.queue : Envelope → Option QueueName
  | .agentTask _ _ _ queue _ => some queue
  | .approvalRequired _ _ _ => none
  | .terminalTask _ _ queue _ => some queue

/-- The payload the state determines for a stage. -/
def TicketState.payload (s : TicketState) : TaskType → Option TaskPayload
  | .classify => some (.classify s.ticket)
  | .draft => s.classification.map (.draft s.ticket)
  | .finalizeTicket => s.draft.bind fun reply => s.classification.map fun c =>
      .finalize s.ticket reply.action (Graph.expectedResult s c reply)

/-- `execute` is next, or has run, in this state. -/
inductive Terminal (w : World) (t : TicketId) (s : TicketState) : Prop
  | latest {cp} : w.shared.checkpoints.get t = some cp → cp.next = some .execute → cp.values = s →
      Terminal w t s
  | driven {j inv} : (w.procs j).invocation = some inv → inv.checkpoint.threadId = t →
      inv.checkpoint.next = some .execute → inv.checkpoint.values = s → Terminal w t s
  | ran {resumes} : .ran t .execute s resumes ∈ w.shared.log → Terminal w t s

variable {sh sh' : Shared} {w w' : World} {i : WorkerId} {p p' : Proc} {a : Action} {t : TicketId}
  {ty : TaskType} {r : QueuedTask} {db db' : Database} {key : IdempotencyKey} {n : Node}
  {s s' : TicketState} {resumes : List Resume} {next : Option Node} {env : Envelope}
  {result : NodeResult}

/-- The key of an envelope is one of its stage and ticket, and its queue is the key's. -/
theorem Suspends.keyed (h : Suspends s n resumes env) (hk : env.idempotencyKey = some key) :
    key.ticket = s.ticket.id ∧ env.workflowId = key.ticket ∧ env.taskType = some key.taskType ∧
      env.queue = some key.queue := by
  cases h with
  | classify =>
    cases hk
    exact ⟨rfl, rfl, rfl, rfl⟩
  | @classifyAgain redispatched =>
    cases hk
    cases redispatched <;> exact ⟨rfl, rfl, rfl, rfl⟩
  | draft hc =>
    cases hk
    exact ⟨rfl, rfl, rfl, rfl⟩
  | @draftAgain c redispatched hc =>
    cases hk
    cases redispatched <;> exact ⟨rfl, rfl, rfl, rfl⟩
  | approval hw hd => cases hk
  | terminal hc hd =>
    cases hk
    exact ⟨rfl, rfl, rfl, rfl⟩

/-! ## The task exists -/

/-- A waiting node comes after the dispatch of its task. -/
structure Dispatched (db : Database) (s : TicketState) (next : Option Node) : Prop where
  classify : next = some .awaitClassify → (db.task (.agent s.ticket.id .classify)).isSome
  draft : next = some .awaitDraft → (db.task (.agent s.ticket.id .draft)).isSome

/-- The task an envelope names exists. -/
def Envelope.Enqueued (db : Database) (env : Envelope) : Prop :=
  ∀ key ∈ env.idempotencyKey, (db.task key).isSome

structure Outbox (sh : Shared) : Prop where
  dispatched : ∀ t cp, sh.checkpoints.get t = some cp → Dispatched sh.db cp.values cp.next
  parked : ∀ t cp, sh.checkpoints.get t = some cp → ∀ env ∈ cp.interrupt, env.Enqueued sh.db

/-- What the driver of a graph has committed. -/
structure OutboxKnows (sh : Shared) (p : Proc) : Prop where
  dispatched : ∀ inv, p.invocation = some inv →
    Dispatched sh.db inv.checkpoint.values inv.checkpoint.next
  result : ∀ inv, p.invocation = some inv → ∀ env, inv.result = some (.interrupt env) →
    env.Enqueued sh.db
  update : ∀ inv, p.invocation = some inv → ∀ s, inv.result = some (.update s) →
    Dispatched sh.db s (inv.checkpoint.next.bind fun n => n.after s)

theorem Effect.keeps_task (he : Effect sh i p a sh' p') (hk : Taskqueue.Keys sh.db)
    (hp : a = .advance → p.prunes = false) (h : (sh.db.task key).isSome) :
    (sh'.db.task key).isSome := by
  obtain ⟨r, hr⟩ := Option.isSome_iff_exists.mp h
  obtain ⟨r', hr', -⟩ := (he.taskChange hk key).kept hp hr
  rw [hr']
  rfl

theorem Dispatched.effect (h : Dispatched sh.db s next) (hk : Taskqueue.Keys sh.db)
    (hp : a = .advance → p.prunes = false) (he : Effect sh i p a sh' p') :
    Dispatched sh'.db s next :=
  ⟨fun hn => he.keeps_task hk hp (h.classify hn), fun hn => he.keeps_task hk hp (h.draft hn)⟩

theorem Envelope.Enqueued.effect (h : env.Enqueued sh.db) (hk : Taskqueue.Keys sh.db)
    (hp : a = .advance → p.prunes = false) (he : Effect sh i p a sh' p') : env.Enqueued sh'.db :=
  fun key hkey => he.keeps_task hk hp (h key hkey)

/-! ## What a node leaves in the queue -/

theorem task_enqueue_self {queueName : QueueName} {taskType : TaskType} {workflowId : TicketId}
    {payload : TaskPayload} :
    ((Taskqueue.enqueue queueName taskType workflowId payload key db).1.task key).isSome := by
  rw [task_enqueue, if_pos rfl]
  cases db.task key <;> rfl

/-- The key of the task that a node enqueues. -/
def Node.enqueues (t : TicketId) : Node → Option IdempotencyKey
  | .dispatchClassify => some (.agent t .classify)
  | .dispatchDraft => some (.agent t .draft)
  | .execute => some (.finalize t)
  | _ => none

theorem Node.write_of_enqueues (hs : StateFor s (some n)) (hk : n.enqueues s.ticket.id = some key) :
    ∃ queueName taskType payload, ∀ resumes,
      n.write s resumes = some (.enqueue queueName taskType s.ticket.id payload key) := by
  cases n with
  | dispatchClassify =>
    cases hk
    exact ⟨_, _, _, fun _ => rfl⟩
  | dispatchDraft =>
    cases hk
    obtain ⟨c, hc⟩ := Option.isSome_iff_exists.mp hs.2
    refine ⟨.agentTaskQueue, .draft, .draft s.ticket c, fun resumes => ?_⟩
    rw [Node.write, hc]
    rfl
  | execute =>
    cases hk
    obtain ⟨hc, reply, hreply, -⟩ := hs
    obtain ⟨c, hc⟩ := Option.isSome_iff_exists.mp hc
    refine ⟨.taskQueue, .finalizeTicket,
      .finalize s.ticket reply.action (Graph.expectedResult s c reply), fun resumes => ?_⟩
    rw [Node.write, Option.mem_def.mp hreply, hc]
    rfl
  | _ => cases hk

theorem Node.run_leaves (hs : StateFor s (some n)) (hk : n.enqueues s.ticket.id = some key) :
    ((n.run s resumes db).1.task key).isSome := by
  obtain ⟨queueName, taskType, payload, hw⟩ := Node.write_of_enqueues hs hk
  rw [Node.run_db, hw]
  exact task_enqueue_self

theorem awaitAgentTask_enqueued {payload : TaskPayload} {wakeupAt : Option Time}
    (h : (db.task (.agent t ty)).isSome)
    (hrun : Graph.awaitAgentTask ty t payload wakeupAt resumes db = (db', .suspended env)) :
    env.Enqueued db' := by
  unfold Graph.awaitAgentTask at hrun
  cases resumes with
  | nil =>
    cases hrun
    rintro key ⟨⟩
    exact h
  | cons first rest =>
    cases first with
    | timeout =>
      cases rest with
      | cons second rest => cases congrArg Prod.snd hrun
      | nil =>
        simp only [Graph.isTimeout, if_true, Graph.redispatchAgentTask] at hrun
        rcases hc : Taskqueue.cancelPending (.agent t ty) "redispatched to fallback" db with
          ⟨db₁, _ | _⟩
        · rw [hc] at hrun
          cases hrun
          rintro key ⟨⟩
          have htask : ((Taskqueue.cancelPending (.agent t ty) "redispatched to fallback" db).1.task
              (.agent t ty)).isSome := by
            rw [task_cancelPending, Option.isSome_map]
            exact h
          rw [hc] at htask
          exact htask
        · rw [hc] at hrun
          cases hrun
          rintro key ⟨⟩
          exact task_enqueue_self
    | taskFailed error permanent => cases hrun
    | decision d => cases hrun
    | result x => cases hrun

theorem Node.run_enqueued (h : Dispatched db s (some n))
    (hrun : n.run s resumes db = (db', .interrupt env)) : env.Enqueued db' := by
  cases n with
  | awaitClassify =>
    simp only [Node.run, Graph.awaitClassify] at hrun
    split at hrun
    · rename_i hawait
      cases hrun
      exact awaitAgentTask_enqueued (h.classify rfl) hawait
    · simp only [Graph.classifyUpdate] at hrun
      split at hrun
      · cases hrun
      · split at hrun <;> cases hrun
  | awaitDraft =>
    simp only [Node.run, Graph.awaitDraft] at hrun
    split at hrun
    · cases hrun
    · split at hrun
      · rename_i hawait
        cases hrun
        exact awaitAgentTask_enqueued (h.draft rfl) hawait
      · simp only [Graph.draftUpdate] at hrun
        split at hrun
        · cases hrun
        · split at hrun <;> cases hrun
  | execute =>
    simp only [Node.run, Graph.execute] at hrun
    split at hrun
    · split at hrun
      · cases hrun
        rintro key ⟨⟩
        exact task_enqueue_self
      · simp only [Graph.executeUpdate] at hrun
        split at hrun
        · cases hrun
        · split at hrun <;> cases hrun
    · cases hrun
  | awaitApproval =>
    simp only [Node.run, Graph.awaitApproval] at hrun
    split at hrun
    · split at hrun
      · cases hrun
        rintro key ⟨⟩
      · simp only [Graph.approvalUpdate] at hrun
        split at hrun
        · cases hrun
        · split at hrun <;> cases hrun
        · cases hrun
    · cases hrun
  | dispatchClassify => cases hrun
  | dispatchDraft =>
    simp only [Node.run, Graph.dispatchDraft] at hrun
    split at hrun <;> cases hrun
  | decideApproval =>
    simp only [Node.run, Graph.decideApproval] at hrun
    split at hrun <;> cases hrun
  | prepareApproval => cases hrun

/-- A node that leads to a waiting node has dispatched its task. -/
theorem Node.run_dispatched (hrun : n.run s resumes db = (db', .update s')) :
    Dispatched db' s' (n.after s') := by
  constructor
  · intro hn
    cases n with
    | dispatchClassify =>
      cases hrun
      exact task_enqueue_self
    | awaitClassify =>
      simp only [Node.after] at hn
      split at hn <;> cases hn
    | awaitDraft =>
      simp only [Node.after] at hn
      split at hn <;> cases hn
    | decideApproval =>
      simp only [Node.after] at hn
      split at hn <;> cases hn
    | _ => cases hn
  · intro hn
    cases n with
    | dispatchDraft =>
      simp only [Node.run, Graph.dispatchDraft] at hrun
      split at hrun
      · cases hrun
      · cases hrun
        exact task_enqueue_self
    | awaitClassify =>
      simp only [Node.after] at hn
      split at hn <;> cases hn
    | awaitDraft =>
      simp only [Node.after] at hn
      split at hn <;> cases hn
    | decideApproval =>
      simp only [Node.after] at hn
      split at hn <;> cases hn
    | _ => cases hn

/-! ## One action -/

theorem Outbox.effect (hI : Outbox sh) (hK : OutboxKnows sh p) (hk : Taskqueue.Keys sh.db)
    (hp : a = .advance → p.prunes = false) (he : Effect sh i p a sh' p') : Outbox sh' := by
  refine ⟨fun t cp hcp => ?_, fun t cp hcp env henv => ?_⟩
  · cases he.threadChange t with
    | same heq => exact (hI.dispatched t cp (heq.symm.trans hcp)).effect hk hp he
    | created hp₀ ha ht hf hdb hlog hseq heq =>
      cases hcp.symm.trans heq
      exact ⟨fun hn => (nomatch hn), fun hn => nomatch hn⟩
    | put hp₀ ha ht hr hn hp' hdb hlog hseq heq =>
      rename_i dr inv values next
      cases hcp.symm.trans heq
      have hd := hK.update inv (by rw [hp₀]; simp) values hr
      rw [← hn] at hd
      exact hd.effect hk hp he
    | suspended hp₀ ha ht hr hcp₀ hid hp' hdb hlog heq =>
      cases hcp.symm.trans heq
      have hold := hI.dispatched t _ hcp₀
      exact hold.effect hk hp he
    | deleted hp₀ ha heq =>
      rw [heq] at hcp
      cases hcp
  · cases he.threadChange t with
    | same heq => exact (hI.parked t cp (heq.symm.trans hcp) env henv).effect hk hp he
    | created hp₀ ha ht hf hdb hlog hseq heq =>
      cases hcp.symm.trans heq
      cases henv
    | put hp₀ ha ht hr hn hp' hdb hlog hseq heq =>
      cases hcp.symm.trans heq
      cases henv
    | suspended hp₀ ha ht hr hcp₀ hid hp' hdb hlog heq =>
      rename_i dr inv env₀ cp₀
      cases hcp.symm.trans heq
      cases henv
      exact (hK.result inv (by rw [hp₀]; simp) _ hr).effect hk hp he
    | deleted hp₀ ha heq =>
      rw [heq] at hcp
      cases hcp

theorem OutboxKnows.other {q : Proc} (h : OutboxKnows sh q) (hk : Taskqueue.Keys sh.db)
    (hp : a = .advance → p.prunes = false) (he : Effect sh i p a sh' p') : OutboxKnows sh' q :=
  ⟨fun inv hinv => (h.dispatched inv hinv).effect hk hp he,
    fun inv hinv env hr => (h.result inv hinv env hr).effect hk hp he,
    fun inv hinv s hr => (h.update inv hinv s hr).effect hk hp he⟩

/-- What a driver knows when it has just read, or put, its checkpoint. -/
theorem OutboxKnows.reads {inv : Invocation} (hI : Outbox sh) (hp : p.invocation = some inv)
    (hcp : sh.checkpoints.get inv.checkpoint.threadId = some inv.checkpoint)
    (hr : inv.result = none) : OutboxKnows sh p := by
  refine ⟨fun inv' hinv => ?_, fun inv' hinv env hres => ?_, fun inv' hinv s hres => ?_⟩
  · rw [hp] at hinv
    cases hinv
    exact hI.dispatched _ _ hcp
  · rw [hp] at hinv
    cases hinv
    rw [hr] at hres
    cases hres
  · rw [hp] at hinv
    cases hinv
    rw [hr] at hres
    cases hres

theorem OutboxKnows.undriven (hp : p.invocation = none) : OutboxKnows sh p := by
  refine ⟨fun inv hinv => ?_, fun inv hinv => ?_, fun inv hinv => ?_⟩ <;>
  · rw [hp] at hinv
    cases hinv

theorem OutboxKnows.acts (hI : Outbox sh) (h : OutboxKnows sh p) (hk : Taskqueue.Keys sh.db)
    (hp : a = .advance → p.prunes = false) (he : Effect sh i p a sh' p') : OutboxKnows sh' p' := by
  have hI' := hI.effect h hk hp he
  have hother := h.other hk hp he
  cases hdrives : p'.invocation with
  | none => exact .undriven hdrives
  | some inv' =>
    cases he.driveChange hdrives with
    | still hold =>
      rw [← hold] at hdrives
      exact ⟨fun inv hinv => hother.dispatched inv (hdrives.symm.trans hinv),
        fun inv hinv => hother.result inv (hdrives.symm.trans hinv),
        fun inv hinv => hother.update inv (hdrives.symm.trans hinv)⟩
    | put hget hr hnil => exact .reads hI' hdrives hget hr
    | read hp' hsh hget hr ho => exact .reads hI' hdrives (hsh ▸ hget) hr
    | @ran dr inv n db result hp₀ hr hn hrun hinv' hsh =>
      subst hp₀ hinv' hsh
      have hd := h.dispatched inv (Proc.invocation_driving dr inv)
      rw [hn] at hd
      refine ⟨fun inv₁ hinv₁ => ?_, fun inv₁ hinv₁ env hres => ?_, fun inv₁ hinv₁ s hres => ?_⟩
      · cases hdrives.symm.trans hinv₁
        exact hother.dispatched inv (Proc.invocation_driving dr inv)
      · cases hdrives.symm.trans hinv₁
        cases hres
        exact Node.run_enqueued hd hrun
      · cases hdrives.symm.trans hinv₁
        cases hres
        rw [hn]
        exact Node.run_dispatched hrun

/-- Before any `prune_settled` every task that is waited for has been enqueued. -/
theorem World.ReachableWhen.outbox {ok : World → WorkerId → Action → Prop}
    (hok : ∀ w i a, ok w i a → Unpruned w i a) (hw : World.ReachableWhen ok w) :
    Outbox w.shared ∧ ∀ i, OutboxKnows w.shared (w.procs i) := by
  refine hw.invariant (I := Outbox) (J := fun sh _ p => OutboxKnows sh p) ?_ ?_ ?_
  · exact ⟨fun _ _ h => (nomatch h), fun _ _ h => nomatch h⟩
  · exact fun _ => .undriven rfl
  · intro w i a sh' p' hr ha hI hK he
    have hk := (World.Reachable.tasks hr.reachable).1.keys
    have hp : a = .advance → (w.procs i).prunes = false := by
      rintro rfl
      exact hok w i _ ha
    exact ⟨hI.effect (hK i) hk hp he, (hK i).acts hI hk hp he, fun j _ => (hK j).other hk hp he⟩

/-! ## What the task carries -/

/-- The tasks of an agent stage carry what the state determines. -/
theorem payload_of_agent (hI : Sourced sh) (hE : Exclusive sh.db) (hT : TasksSound sh.db)
    (hs : StateSourced sh s next) (hr : sh.db.task key = some r) (ht : key.ticket = s.ticket.id)
    (hty : key.taskType = .classify ∨
      key.taskType = .draft ∧ next = some .awaitDraft ∧ s.classification.isSome) :
    s.payload key.taskType = some r.payload := by
  obtain ⟨hm, hkey⟩ := Database.task_eq_some hr
  have hsource := hI.payloads r hm
  have hfor := (hT.typed r hm).payload
  rw [(hT.typed r hm).workflow, (hT.typed r hm).type, hkey, ht] at hfor
  rcases hty with hty | ⟨hty, hn, hc⟩
  · rw [hty] at hfor ⊢
    cases hp : r.payload with
    | classify ticket =>
      rw [hp] at hfor hsource
      have hticket : s.ticket = ticket := hI.once _ _ hs.created hsource hfor.symm
      rw [← hticket]
      rfl
    | draft ticket c =>
      rw [hp] at hfor
      exact hfor.elim
    | finalize ticket action result =>
      rw [hp] at hfor
      exact hfor.elim
  · obtain ⟨c, hc⟩ := Option.isSome_iff_exists.mp hc
    rw [hty] at hfor ⊢
    cases hp : r.payload with
    | draft ticket c' =>
      rw [hp] at hfor hsource
      have hticket : s.ticket = ticket := hI.once _ _ hs.created hsource.1 hfor.symm
      subst hticket
      have hclass := (hs.classified (.inr hn) c hc).unique hE hsource.2
      simp only [TicketState.payload, hc, Option.map_some, hclass]
    | classify ticket =>
      rw [hp] at hfor
      exact hfor.elim
    | finalize ticket action result =>
      rw [hp] at hfor
      exact hfor.elim

/-! ## One way to the end -/

/-- No `prune_settled` commits, and nobody overtaken saves. -/
def Unovertaken (w : World) (i : WorkerId) : Action → Prop
  | .advance => (w.procs i).prunes = false ∧ SavesLatest w i
  | _ => True

instance (w : World) (i : WorkerId) : DecidablePred (Unovertaken w i)
  | .advance => inferInstanceAs (Decidable (_ ∧ _))
  | .tick _ | .crash | .createTicket _ | .submitApproval _ _ | .claimRun _ | .dequeue _ _
  | .activityReturns _ | .activityRaises _ _ | .reclaimExpiredLeases | .reconcileOrphanedRuns
  | .runRetention _ => isTrue trivial

theorem Unovertaken.unpruned {w : World} (h : Unovertaken w i a) : Unpruned w i a := by
  cases a with
  | advance => exact h.1
  | _ => exact trivial

theorem Unovertaken.savesLatest {w : World} (h : Unovertaken w i a) (ha : a = .advance) :
    SavesLatest w i := by
  subst ha
  exact h.2

/-- A thread comes to `execute` in one state, and does not come back from it. -/
structure OneLine (w : World) : Prop where
  ran : ∀ t s resumes, .ran t .execute s resumes ∈ w.shared.log → Created t w.shared.log ∧
    ∀ cp, w.shared.checkpoints.get t = some cp → Node.rank cp.next ≤ 1
  one : ∀ t s s', Terminal w t s → Terminal w t s' → s = s'

theorem Effect.runs (h : Effect sh i p a sh' p') (hm : .ran t n s resumes ∈ sh'.log) :
    .ran t n s resumes ∈ sh.log ∨ ∃ inv, p.invocation = some inv ∧ inv.checkpoint.threadId = t ∧
      inv.checkpoint.next = some n ∧ inv.checkpoint.values = s ∧
      sh'.checkpoints = sh.checkpoints ∧ sh'.db = (n.run s resumes sh.db).1 := by
  have other : ∀ {e : Event}, .ran t n s resumes ∈ e :: sh.log → e ≠ .ran t n s resumes →
      .ran t n s resumes ∈ sh.log := fun hm hne =>
    (List.mem_cons.mp hm).resolve_left fun he => hne he.symm
  cases h with
  | @ran dr inv n' db result hr hn hrun =>
    rcases List.mem_cons.mp hm with he | hold
    · cases he
      exact .inr ⟨inv, Proc.invocation_driving dr inv, rfl, hn, rfl, rfl, congrArg Prod.fst hrun.symm⟩
    · exact .inl hold
  | created hf => exact .inl (other hm nofun)
  | accepted hs => exact .inl (other hm nofun)
  | claimed hs => exact .inl (other hm nofun)
  | released => exact .inl (other hm nofun)
  | saved => exact .inl (other hm nofun)
  | refunded => exact .inl (other hm nofun)
  | replied hs => exact .inl (other hm nofun)
  | recorded => exact .inl (other hm nofun)
  | completed hmem hs => exact .inl (other hm nofun)
  | _ => exact .inl hm

/-- Before a `prune_settled` the task of a node that ran is in the queue. -/
theorem enqueued_kept {w : World} (hw : World.ReachableWhen Unpruned w)
    (hm : .ran t n s resumes ∈ w.shared.log) (hk : n.enqueues t = some key) :
    (w.shared.db.task key).isSome := by
  refine (World.ReachableWhen.invariant (I := fun sh => ∀ t n s resumes key,
    .ran t n s resumes ∈ sh.log → n.enqueues t = some key → (sh.db.task key).isSome)
    (J := fun _ _ _ => True) (fun _ _ _ _ _ h => nomatch h) (fun _ => trivial) ?_ hw).1
    t n s resumes key hm hk
  intro w i a sh' p' hr hok hI _ he
  have hw : World.Reachable w := hr.reachable
  have hprunes : a = .advance → (w.procs i).prunes = false := by
    rintro rfl
    exact hok
  refine ⟨fun t n s resumes key hm hk => ?_, trivial, fun _ _ => trivial⟩
  rcases he.runs hm with hold | ⟨inv, hinv, rfl, hn, rfl, -, hdb⟩
  · exact he.keeps_task hw.tasks.1.keys hprunes (hI t n s resumes key hold hk)
  · have hsound := ((hw.threads.2 i).of_invocation hinv).checkpoint
    have hs := hsound.state
    rw [hn] at hs
    rw [← hsound.ticket] at hk
    rw [hdb]
    exact Node.run_leaves hs hk

/-- Once `execute` has run the thread is at it or at the end. -/
theorem OneLine.ran_effect (h : OneLine w) (hB : Behind w) (hok : a = .advance → SavesLatest w i)
    (hP : ∀ j, (w.procs j).ThreadSound w.shared.checkpoints)
    (hc : ∀ j t, (w.procs j).Drives t → Created t w.shared.log)
    (he : Effect w.shared i (w.procs i) a sh' p') (hm : .ran t .execute s resumes ∈ sh'.log) :
    Created t sh'.log ∧ ∀ cp', sh'.checkpoints.get t = some cp' → Node.rank cp'.next ≤ 1 := by
  rcases he.runs hm with hold | ⟨inv, hinv, rfl, hn, hvals, hsame, -⟩
  · obtain ⟨hcr, hle⟩ := h.ran t s resumes hold
    refine ⟨hcr.mono he.log_suffix, fun cp' hcp => ?_⟩
    cases he.onward hok (hP i) hcp with
    | stays hcp₀ hid₀ hnext hvals hint =>
      rw [hnext]
      exact hle _ hcp₀
    | moves hcp₀ hlt => exact hlt.le.trans (hle _ hcp₀)
    | starts hf hnext => exact absurd hcr hf
  · refine ⟨(hc i _ ((hP i).drives hinv)).mono he.log_suffix, fun cp' hcp => ?_⟩
    rw [hsame] at hcp
    rcases hB i inv cp' hinv hcp with hid' | hlt
    · obtain ⟨-, hnext⟩ := ((hP i).of_invocation hinv).copy _ hcp hid'
      rw [hnext, hn]
      exact le_rfl
    · rw [hn] at hlt
      exact hlt.le

theorem OneLine.not_terminal {cp : Checkpoint} (h : OneLine w) (hB : Behind w)
    (hP : ∀ j, (w.procs j).ThreadSound w.shared.checkpoints)
    (hcp : w.shared.checkpoints.get t = some cp) (hr : 1 < Node.rank cp.next) :
    ¬ Terminal w t s := by
  have absurd_of : cp.next ≠ some .execute := by
    intro he
    rw [he] at hr
    exact absurd hr (lt_irrefl _)
  rintro (⟨hcp', hn, -⟩ | ⟨hinv, rfl, hn, -⟩ | hm)
  · cases hcp.symm.trans hcp'
    exact absurd_of hn
  · rename_i j inv
    rcases hB j inv cp hinv hcp with hid | hlt
    · obtain ⟨-, hnext⟩ := ((hP j).of_invocation hinv).copy _ hcp hid
      exact absurd_of (hnext.trans hn)
    · rw [hn] at hlt
      exact absurd (hr.trans hlt) (lt_irrefl _)
  · exact absurd ((h.ran t s _ hm).2 cp hcp) (not_le.mpr hr)

/-- A terminal state is an old one, or the thread has just come to `execute` in it. -/
theorem terminal_before (hok : a = .advance → SavesLatest w i)
    (hP : (w.procs i).ThreadSound w.shared.checkpoints)
    (he : Effect w.shared i (w.procs i) a sh' p')
    (h : Terminal ⟨sh', Function.update w.procs i p'⟩ t s) : Terminal w t s ∨
      ∃ cp cp', w.shared.checkpoints.get t = some cp ∧ 1 < Node.rank cp.next ∧
        sh'.checkpoints.get t = some cp' ∧ cp'.values = s := by
  have latest : ∀ {cp'}, sh'.checkpoints.get t = some cp' → cp'.next = some .execute →
      cp'.values = s → Terminal w t s ∨ ∃ cp cp', w.shared.checkpoints.get t = some cp ∧
        1 < Node.rank cp.next ∧ sh'.checkpoints.get t = some cp' ∧ cp'.values = s := by
    intro cp' hcp hn hvals
    cases he.onward hok hP hcp with
    | stays hcp₀ hid hnext hvals₀ hint =>
      exact .inl (.latest hcp₀ (hnext.symm.trans hn) (hvals₀.symm.trans hvals))
    | moves hcp₀ hlt =>
      rw [hn] at hlt
      exact .inr ⟨_, cp', hcp₀, hlt, hcp, hvals⟩
    | starts hf hnext =>
      rw [hnext] at hn
      cases hn
  rcases h with ⟨hcp, hn, hvals⟩ | ⟨hinv, ht, hn, hvals⟩ | hm
  · exact latest hcp hn hvals
  · rename_i j inv
    change (Function.update w.procs i p' j).invocation = some inv at hinv
    by_cases hj : j = i
    · subst hj
      rw [Function.update_self] at hinv
      rcases he.drivesFrom hinv with ⟨inv₀, hinv₀, hsame⟩ | hget
      · rw [hsame] at ht hn hvals
        exact .inl (.driven hinv₀ ht hn hvals)
      · rw [ht] at hget
        exact latest hget hn hvals
    · rw [Function.update_of_ne hj] at hinv
      exact .inl (.driven hinv ht hn hvals)
  · rcases he.runs hm with hold | ⟨inv, hinv, ht, hn, hvals, -⟩
    · exact .inl (.ran hold)
    · exact .inl (.driven hinv ht hn hvals)

theorem OneLine.effect (h : OneLine w) (hB : Behind w) (hok : a = .advance → SavesLatest w i)
    (hP : ∀ j, (w.procs j).ThreadSound w.shared.checkpoints)
    (hc : ∀ j t, (w.procs j).Drives t → Created t w.shared.log)
    (he : Effect w.shared i (w.procs i) a sh' p') :
    OneLine ⟨sh', Function.update w.procs i p'⟩ := by
  refine ⟨fun t s resumes hm => h.ran_effect hB hok hP hc he hm, fun t s s' hs hs' => ?_⟩
  rcases terminal_before hok (hP i) he hs with hold | ⟨cp, cp', hcp, hlt, hcp', rfl⟩
  · rcases terminal_before hok (hP i) he hs' with hold' | ⟨cp, cp', hcp, hlt, -⟩
    · exact h.one t s s' hold hold'
    · exact absurd hold (h.not_terminal hB hP hcp hlt)
  · rcases terminal_before hok (hP i) he hs' with hold' | ⟨cp₁, cp₁', -, -, hcp₁, rfl⟩
    · exact absurd hold' (h.not_terminal hB hP hcp hlt)
    · cases hcp'.symm.trans hcp₁
      rfl

/-- Where nobody overtaken saves, a thread comes to `execute` in one state. -/
theorem World.ReachableWhen.oneLine {ok : World → WorkerId → Action → Prop}
    (hok : ∀ w i, ok w i .advance → SavesLatest w i) (hw : World.ReachableWhen ok w) :
    OneLine w := by
  refine World.ReachableWhen.worldInvariant (I := OneLine) ?_ ?_ hw
  · refine ⟨fun _ _ _ h => (nomatch h), fun t s s' h => ?_⟩
    rcases h with ⟨h, -⟩ | ⟨h, -⟩ | h <;> cases h
  · intro w i a sh' p' hr ha h he
    have hw : World.Reachable w := hr.reachable
    exact h.effect (hr.behind hok) (fun hadv => hok w i (hadv ▸ ha)) hw.threads.2 hw.created.2 he

/-! ## The outbox -/

/-- The finalize task was built in a state in which `execute` ran. -/
theorem terminal_of_finalize (hw : World.Reachable w) (hr : r ∈ w.shared.db.taskQueue)
    (hty : r.taskType = .finalizeTicket) :
    ∃ s, Terminal w r.workflowId s ∧ s.payload .finalizeTicket = some r.payload := by
  have hfor := (hw.tasks.1.typed r hr).payload
  rw [hty] at hfor
  have hres : r.payload.result.isSome := by
    cases hp : r.payload with
    | finalize ticket action result => rfl
    | classify ticket =>
      rw [hp] at hfor
      exact hfor.elim
    | draft ticket c =>
      rw [hp] at hfor
      exact hfor.elim
  obtain ⟨s, resumes, reply, c, hm, hd, hc, hpay, -⟩ := hw.payloads.rows r hr hres
  have ht : s.ticket.id = r.workflowId := by
    rw [hpay] at hfor
    exact hfor.1
  refine ⟨s, .ran (ht ▸ hm), ?_⟩
  rw [hpay, TicketState.payload, hd, hc]
  rfl

/-- Where nobody overtaken saves, and before any `prune_settled`, a parked thread waits for a task
that is in the queue, under the envelope's key, workflow, type and queue, and with the payload that
the state of its checkpoint determines. -/
theorem parked_task_enqueued (hw : World.ReachableWhen Unovertaken w) {cp : Checkpoint}
    (hcp : w.shared.checkpoints.get t = some cp) (henv : cp.interrupt = some env)
    (hkey : env.idempotencyKey = some key) :
    ∃ r, w.shared.db.task key = some r ∧ r.workflowId = env.workflowId ∧
      env.taskType = some r.taskType ∧ env.queue = some r.queueName ∧
      cp.values.payload r.taskType = some r.payload := by
  have hreach : World.Reachable w := hw.reachable
  have hU : World.ReachableWhen Unpruned w := hw.mono fun _ _ _ => Unovertaken.unpruned
  have hT := hreach.tasks.1
  have hsome := (hU.outbox fun _ _ _ => id).1.parked t cp hcp env henv key hkey
  obtain ⟨r, hr⟩ := Option.isSome_iff_exists.mp hsome
  obtain ⟨hm, hrk⟩ := Database.task_eq_some hr
  have hrow := hT.typed r hm
  obtain ⟨hs, -⟩ := hreach.threads.1 t cp hcp
  obtain ⟨n, hn, hsus⟩ := hs.parked env henv
  obtain ⟨hkt, hwf, hty, hq⟩ := hsus.keyed hkey
  refine ⟨r, hr, ?_, ?_, ?_, ?_⟩
  · rw [hrow.workflow, hrk, hwf]
  · rw [hrow.type, hrk, hty]
  · rw [hrow.queue, hrk, hq]
  · have hsource := (hU.sourced fun _ _ _ => id).1
    have hstate := hsource.threads t cp hcp
    have htype : r.taskType = key.taskType := by rw [hrow.type, hrk]
    rw [htype]
    generalize hres : cp.resumes = resumes at hsus
    cases hsus with
    | classify =>
      cases hkey
      exact payload_of_agent hsource hU.exclusive hT hstate hr hkt (.inl rfl)
    | @classifyAgain redispatched =>
      cases hkey
      refine payload_of_agent hsource hU.exclusive hT hstate hr hkt (.inl ?_)
      cases redispatched <;> rfl
    | draft hc =>
      cases hkey
      exact payload_of_agent hsource hU.exclusive hT hstate hr hkt
        (.inr ⟨rfl, hn, by rw [hc]; rfl⟩)
    | @draftAgain c redispatched hc =>
      cases hkey
      exact payload_of_agent hsource hU.exclusive hT hstate hr hkt
        (.inr ⟨by cases redispatched <;> rfl, hn, by rw [hc]; rfl⟩)
    | approval hwake hd => cases hkey
    | terminal hc hd =>
      cases hkey
      -- the thread came to `execute` in one state, and the task was built there
      obtain ⟨s, hterm, hpay⟩ := terminal_of_finalize hreach hm htype
      have ht : r.workflowId = t := by
        rw [hrow.workflow, hrk, hkt, hs.ticket]
        exact Checkpoints.threadId_of_get hcp
      rw [ht] at hterm
      have hsame := (hw.oneLine fun _ _ h => h.2).one t _ _ (.latest hcp hn rfl) hterm
      rw [hsame]
      exact hpay

/-- The thread of ticket 7 is parked on its finalize task. -/
def finalizing (w : World) : Bool :=
  ((w.shared.checkpoints.get 7).bind Checkpoint.interrupt).bind Envelope.idempotencyKey =
    some (.finalize 7)

theorem parked_task_enqueued_finalizing : ∃ w cp r, World.ReachableWhen Unovertaken w ∧
    w.shared.checkpoints.get 7 = some cp ∧ w.shared.db.task (.finalize 7) = some r ∧
    cp.values.payload r.taskType = some r.payload := by
  have hrun : (World.initial.runWhen Proc.step Unovertaken
      (Schedule.drafted Schedule.safeDraft 10)).map finalizing = some true := by decide +kernel
  obtain ⟨w, hw, hp⟩ := exists_reachableWhen_of_run hrun
  obtain ⟨env, henv, hkey⟩ := Option.bind_eq_some_iff.mp (of_decide_eq_true hp)
  obtain ⟨cp, hcp, henv⟩ := Option.bind_eq_some_iff.mp henv
  obtain ⟨r, hr, -, -, -, hpay⟩ := parked_task_enqueued hw hcp henv hkey
  exact ⟨w, cp, r, hw, hcp, hr, hpay⟩

/-- Runner 2 has chosen the timeout of ticket 7's approval and stalls; the approver approves and
runner 5 resumes the graph with the decision. Runner 2 comes back first, saves the escalated state
and commits its finalize task; runner 5 saves the approved state and finds the task there. -/
def Schedule.overtaken : Schedule :=
  Schedule.drafted Schedule.riskyDraft 12 ++ [(0, .tick approvalTimeout)] ++ Schedule.step 2 2 ++
    [(0, .tick (seconds 31))] ++ Schedule.submit true ++ Schedule.step 5 3 ++
    Schedule.advance 2 4 ++ Schedule.advance 5 5

/-- Ticket 7 waits for a finalize task with another payload than its state determines. -/
def mismatched (w : World) : Bool :=
  match w.shared.checkpoints.get 7, w.shared.db.task (.finalize 7) with
  | some cp, some r => decide (cp.values.payload .finalizeTicket ≠ some r.payload)
  | _, _ => false

theorem finalize_payload_overtaken : ¬ ∀ w, World.ReachableWhen Unpruned w → ∀ t cp env key,
    w.shared.checkpoints.get t = some cp → cp.interrupt = some env →
    env.idempotencyKey = some key → ∃ r, w.shared.db.task key = some r ∧
      r.workflowId = env.workflowId ∧ env.taskType = some r.taskType ∧
      env.queue = some r.queueName ∧ cp.values.payload r.taskType = some r.payload := by
  intro hall
  have hrun : (World.initial.runWhen Proc.step Unpruned Schedule.overtaken).map (fun w =>
      finalizing w && mismatched w) = some true := by decide +kernel
  obtain ⟨w, hw, hp⟩ := exists_reachableWhen_of_run hrun
  obtain ⟨hfin, hmis⟩ := Bool.and_eq_true_iff.mp hp
  obtain ⟨env, henv, hkey⟩ := Option.bind_eq_some_iff.mp (of_decide_eq_true hfin)
  obtain ⟨cp, hcp, henv⟩ := Option.bind_eq_some_iff.mp henv
  obtain ⟨r, hr, -, hty, -, hpay⟩ := hall w hw 7 cp env _ hcp henv hkey
  have hw : World.Reachable w := hw.reachable
  obtain ⟨hm, hrk⟩ := Database.task_eq_some hr
  have htype : r.taskType = .finalizeTicket := by rw [(hw.tasks.1.typed r hm).type, hrk]; rfl
  simp only [mismatched, hcp, hr] at hmis
  rw [htype] at hpay
  exact of_decide_eq_true hmis hpay

end TicketFlow
