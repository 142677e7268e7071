import TicketFlow.Deliveries

/-! # Primary and fallback tasks

`redispatch_agent_task` cancels the pending primary task and inserts its fallback in one
transaction, and a settled row never changes again until it is pruned. So a fallback exists only
beside a primary that failed for good without a result. -/

namespace TicketFlow
open Table Interleaving
set_option autoImplicit false

/-- No `prune_settled` commits. -/
def Unpruned (w : World) (i : WorkerId) : Action → Prop
  | .advance => (w.procs i).prunes = false
  | _ => True

instance (w : World) (i : WorkerId) : DecidablePred (Unpruned w i)
  | .advance => inferInstanceAs (Decidable ((w.procs i).prunes = false))
  | .tick _ | .crash | .createTicket _ | .submitApproval _ _ | .claimRun _ | .dequeue _ _
  | .activityReturns _ | .activityRaises _ _ | .reclaimExpiredLeases | .reconcileOrphanedRuns
  | .runRetention _ => isTrue trivial

variable {sh sh' : Shared} {w w' : World} {i : WorkerId} {p p' : Proc} {a : Action} {t : TicketId}
  {ty : TaskType} {r f : QueuedTask} {db : Database} {key : IdempotencyKey} {n : Node}
  {s : TicketState} {resumes : List Resume}

/-! ## Settled rows -/

/-- A settled row stays as it is until it is pruned. -/
theorem TaskChange.frozen_or_gone (h : TaskChange sh i p a sh' p' key)
    (hr : sh.db.task key = some r) (hst : r.status = .done ∨ r.status = .failed) :
    sh'.db.task key = some r ∨ sh'.db.task key = none := by
  have leased : r.status ≠ .leased := by
    intro hl
    rw [hl] at hst
    rcases hst with hst | hst <;> cases hst
  have pending : r.status ≠ .pending := by
    intro hl
    rw [hl] at hst
    rcases hst with hst | hst <;> cases hst
  cases h with
  | same he => exact .inl (he.trans hr)
  | inserted hp₀ ha hr₀ hn hw hp' hlog hins hnone he =>
    rw [hr] at hnone
    cases hnone
  | cancelled hp₀ ha hr₀ hn hw hp' hkey ht hpend he =>
    cases hr.symm.trans ht
    exact absurd hpend pending
  | leased hp₀ ha ht hdue hp' he =>
    cases hr.symm.trans ht
    exact absurd hdue.2.1 pending
  | completed hp₀ ha ht hs hp' he hlog =>
    cases hr.symm.trans ht
    exact absurd hs.2 leased
  | failed hp₀ ha ht hs hp' he =>
    cases hr.symm.trans ht
    exact absurd hs.2 leased
  | reclaimed hp₀ ha ht hx he =>
    cases hr.symm.trans ht
    exact absurd hx.1 leased
  | pruned hp₀ ha ht hst' he => exact .inr he

theorem TaskChange.frozen (h : TaskChange sh i p a sh' p' key)
    (hp : a = .advance → p.prunes = false) (hr : sh.db.task key = some r)
    (hst : r.status = .done ∨ r.status = .failed) : sh'.db.task key = some r := by
  obtain ⟨r', hr', -⟩ := h.kept hp hr
  rcases h.frozen_or_gone hr hst with hsame | hgone
  · exact hsame
  · rw [hr'] at hgone
    cases hgone

/-- A row settled in one world is the same row in every world reached from it. -/
theorem frozen_of_reachable (hw : World.ReachableWhen Unpruned w)
    (hr : w.shared.db.task key = some r) (hst : r.status = .done ∨ r.status = .failed)
    (hw' : ReachableWhen Proc.step (· = w) Unpruned w') : w'.shared.db.task key = some r := by
  refine Interleaving.ReachableWhen.invariant
    (I := fun w => w.shared.db.task key = some r) ?_ ?_ hw'
  · rintro c rfl
    exact hr
  · intro c i a sh' p' hc hok hold hp
    have hk := (World.Reachable.tasks (ReachableWhen.trans hw hc).reachable).1.keys
    refine ((effect_of_step hp).taskChange hk key).frozen (fun ha => ?_) hold hst
    subst ha
    exact hok

/-! ## How a fallback comes to be -/

theorem Node.write_enqueue {queueName : QueueName} {taskType : TaskType} {workflowId : TicketId}
    {payload : TaskPayload}
    (h : n.write s resumes = some (.enqueue queueName taskType workflowId payload key)) :
    key ≠ .fallback t ty := by
  have await : ∀ {ty₀ payload₀}, awaitWrite ty₀ s.ticket.id payload₀ resumes ≠
      some (.enqueue queueName taskType workflowId payload key) := by
    intro ty₀ payload₀ hw
    unfold awaitWrite at hw
    split at hw <;> cases hw
  cases n with
  | dispatchClassify =>
    cases h
    exact fun he => nomatch he
  | awaitClassify => exact absurd h await
  | dispatchDraft =>
    obtain ⟨c, -, hw⟩ := Option.map_eq_some_iff.mp h
    cases hw
    exact fun he => nomatch he
  | awaitDraft =>
    obtain ⟨c, -, hw⟩ := Option.bind_eq_some_iff.mp h
    exact absurd hw await
  | execute =>
    obtain ⟨reply, -, hw⟩ := Option.bind_eq_some_iff.mp h
    obtain ⟨c, -, hw⟩ := Option.map_eq_some_iff.mp hw
    cases hw
    exact fun he => nomatch he
  | _ => cases h

theorem Effect.ran_db (h : Effect sh i p a sh' p')
    (hlog : sh'.log = .ran t n s resumes :: sh.log) :
    sh'.db = ((n.write s resumes).map (QueueWrite.apply sh.db)).getD sh.db := by
  have hne : sh'.log ≠ sh.log := fun he => by
    have hlen := congrArg List.length (hlog.symm.trans he)
    simp at hlen
  have hhead : ∀ {e}, sh'.log = e :: sh.log → e = .ran t n s resumes := fun he =>
    (List.cons.inj (he.symm.trans hlog)).1
  cases h with
  | @ran dr inv n' db result hr hn hrun =>
    have he := hhead rfl
    cases he
    have hdb := n.run_db inv.checkpoint.values inv.resumes sh.db
    rw [hrun] at hdb
    exact hdb
  | created hf => exact nomatch hhead rfl
  | accepted hs => exact nomatch hhead rfl
  | claimed hs => exact nomatch hhead rfl
  | released => exact nomatch hhead rfl
  | saved => exact nomatch hhead rfl
  | refunded => exact nomatch hhead rfl
  | replied hs => exact nomatch hhead rfl
  | recorded => exact nomatch hhead rfl
  | completed hm hs => exact nomatch hhead rfl
  | _ => exact absurd rfl hne

theorem redispatch_pending {payload : TaskPayload} (hr : db.task (.agent t ty) = some r)
    (hp : r.status = .pending) : Graph.redispatchAgentTask ty t payload db =
      ((Taskqueue.enqueue .fallbackTaskQueue ty t payload (.fallback t ty)
        (Taskqueue.cancelPending (.agent t ty) redispatchReason db).1).1, true) := by
  obtain ⟨hm, hk⟩ := Database.task_eq_some hr
  have hcancelled : (Taskqueue.cancelPending (.agent t ty) redispatchReason db).2 = true :=
    decide_eq_true ⟨r, hm, hk, hp⟩
  have hpair : Taskqueue.cancelPending (.agent t ty) "redispatched to fallback" db =
      ((Taskqueue.cancelPending (.agent t ty) redispatchReason db).1, true) :=
    Prod.ext rfl hcancelled
  rw [Graph.redispatchAgentTask, hpair]

theorem redispatch_not_pending {payload : TaskPayload} (hk : Taskqueue.Keys db)
    (hno : ∀ r, db.task (.agent t ty) = some r → r.status ≠ .pending) :
    Graph.redispatchAgentTask ty t payload db = (db, false) := by
  have hnone : ∀ x ∈ db.taskQueue, ¬(x.idempotencyKey = .agent t ty ∧ x.status = .pending) :=
    fun x hx ⟨hxk, hpend⟩ => hno x (hxk ▸ task_of_mem hk hx) hpend
  have hpair : Taskqueue.cancelPending (.agent t ty) "redispatched to fallback" db = (db, false) := by
    refine Prod.ext ?_ (decide_eq_false fun ⟨x, hx, hp⟩ => hnone x hx hp)
    rw [Taskqueue.cancelPending, updateWhere_eq_self hnone]
  rw [Graph.redispatchAgentTask, hpair]

theorem apply_redispatch {payload : TaskPayload} (hr : db.task (.agent t ty) = some r)
    (hp : r.status = .pending) : (QueueWrite.redispatch ty t payload).apply db =
      (Taskqueue.enqueue .fallbackTaskQueue ty t payload (.fallback t ty)
        (Taskqueue.cancelPending (.agent t ty) redispatchReason db).1).1 :=
  congrArg Prod.fst (redispatch_pending hr hp)

theorem task_redispatch {payload : TaskPayload} (hr : db.task (.agent t ty) = some r)
    (hp : r.status = .pending) :
    ((QueueWrite.redispatch ty t payload).apply db).task (.agent t ty) =
      some (Taskqueue.cancelRow redispatchReason r) := by
  obtain ⟨-, hk⟩ := Database.task_eq_some hr
  rw [apply_redispatch hr hp, task_enqueue, task_cancelPending, hr, Option.map_some,
    if_pos ⟨hk, hp⟩, Option.some_or]

/-- A fallback is inserted by the transaction that cancels its primary, which was pending. -/
theorem Effect.redispatches (hT : TasksSound sh.db) (he : Effect sh i p a sh' p')
    (hnone : sh.db.task (.fallback t ty) = none) (hf : sh'.db.task (.fallback t ty) = some f) :
    ∃ r, sh.db.task (.agent t ty) = some r ∧ r.status = .pending ∧
      sh'.db.task (.agent t ty) = some (Taskqueue.cancelRow redispatchReason r) := by
  have absent : ∀ {r}, sh.db.task (.fallback t ty) = some r → False := fun hr => by
    rw [hnone] at hr
    cases hr
  cases he.taskChange hT.keys (.fallback t ty) with
  | same heq =>
    rw [heq, hnone] at hf
    cases hf
  | inserted hp ha hr hn hw hp' hlog hins hno heq =>
    have hdb := he.ran_db hlog
    rw [hw] at hdb
    cases hins with
    | enqueue => exact absurd rfl (Node.write_enqueue hw)
    | @redispatch _ _ _ r hk hm hrk hrp =>
      cases hk
      have hr := task_of_mem hT.keys hm
      rw [hrk] at hr
      refine ⟨r, hr, hrp, ?_⟩
      rw [hdb]
      exact task_redispatch hr hrp
  | cancelled hp ha hr hn hw hp' hkey ht hpend heq => cases hkey
  | leased hp ha ht hdue hp' heq => exact (absent ht).elim
  | completed hp ha ht hs hp' heq hlog => exact (absent ht).elim
  | failed hp ha ht hs hp' heq => exact (absent ht).elim
  | reclaimed hp ha ht hx heq => exact (absent ht).elim
  | pruned hp ha ht hst heq => exact (absent ht).elim

/-! ## The exclusion -/

/-- Beside every fallback stands its primary, failed for good and without a result. -/
def Exclusive (db : Database) : Prop := ∀ t ty f, db.task (.fallback t ty) = some f →
  ∃ r, db.task (.agent t ty) = some r ∧ r.status = .failed ∧ r.permanent = true ∧ r.result = none

theorem Exclusive.effect (h : Exclusive sh.db) (hT : TasksSound sh.db)
    (hp : a = .advance → p.prunes = false) (he : Effect sh i p a sh' p') : Exclusive sh'.db := by
  intro t ty f hf
  cases hold : sh.db.task (.fallback t ty) with
  | none =>
    obtain ⟨r, hr, hpend, hr'⟩ := he.redispatches hT hold hf
    have hres := (hT.of_task hr).2.unsettled (by rw [hpend]; exact nofun)
    exact ⟨_, hr', rfl, rfl, hres⟩
  | some f₀ =>
    obtain ⟨r, hr, hst, hperm, hres⟩ := h t ty f₀ hold
    exact ⟨r, (he.taskChange hT.keys _).frozen hp hr (.inr hst), hst, hperm, hres⟩

theorem World.ReachableWhen.exclusive (hw : World.ReachableWhen Unpruned w) :
    Exclusive w.shared.db := by
  refine World.ReachableWhen.worldInvariant (I := fun w => Exclusive w.shared.db) ?_ ?_ hw
  · exact fun _ _ _ h => nomatch h
  · intro w i a sh' p' hr hok h he
    refine h.effect (World.Reachable.tasks hr.reachable).1 (fun ha => ?_) he
    subst ha
    exact hok

theorem Exclusive.one_result (h : Exclusive db) (hr : db.task (.agent t ty) = some r)
    (hf : db.task (.fallback t ty) = some f) : r.result = none := by
  obtain ⟨r', hr', -, -, hres⟩ := h t ty f hf
  cases hr.symm.trans hr'
  exact hres

end TicketFlow
