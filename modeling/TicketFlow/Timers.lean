import TicketFlow.Awaited
import TicketFlow.Ownership

/-! # Timers

`wakeup_at` is the deadline of the pending interrupt and the mark of a wake-up at once, and a runner
takes any value it finds there for a deadline that has passed. Where every value written from
outside a step is one the pending interrupt is due by, and no runner stops between `ainvoke` and
`save_run` on an interrupt that is not, a timeout is delivered only after the interrupt's own
deadline. -/

namespace TicketFlow
open Table Interleaving
set_option autoImplicit false

/-- By `u` the envelope's own deadline has passed, or what it waits for is there. -/
def Envelope.DueBy (env : Envelope) (u : Time) (db : Database) : Prop :=
  (∃ d ∈ env.wakeupAt, d ≤ u) ∨ (Runner.resumeValue env db).isSome

/-- The interrupt the ticket's thread shows, if any, is due by `u`. -/
def DueBy (sh : Shared) (t : TicketId) (u : Time) : Prop :=
  ∀ cp ∈ sh.checkpoints.get t, ∀ env ∈ cp.interrupt, env.DueBy u sh.db

instance (env : Envelope) (u : Time) (db : Database) : Decidable (env.DueBy u db) :=
  inferInstanceAs (Decidable ((∃ d ∈ env.wakeupAt, d ≤ u) ∨ _))

instance (sh : Shared) (t : TicketId) (u : Time) : Decidable (DueBy sh t u) :=
  inferInstanceAs (Decidable (∀ cp ∈ sh.checkpoints.get t, _))

/-- The process is between `ainvoke` and `save_run` on the ticket. -/
def Proc.Saving (p : Proc) (t : TicketId) : Prop :=
  match p with
  | .runner (.saving run _ _) => run.ticketId = t
  | _ => False

/-- The run a runner has claimed and has chosen no value for. -/
def Proc.waits : Proc → Option WorkflowRun
  | .runner (.claimed run) | .runner (.inspected run _) | .runner (.releasing run) => some run
  | _ => none

/-- A decision submitted for the ticket is accepted. -/
def Accepting (db : Database) (t : TicketId) : Prop :=
  (∃ r ∈ db.workflowRun, Db.Waiting t .awaitingApproval r) ∧
    ∀ s ∈ db.pendingSignal, ¬ Db.Unconsumed t .approvalDecision s

instance (db : Database) (t : TicketId) : Decidable (Accepting db t) :=
  inferInstanceAs (Decidable ((∃ r ∈ db.workflowRun, _) ∧ _))

/-- A run has one holder, every timer that is written from outside a step is one the pending
interrupt is due by, no runner crashes before its `save_run` and leaves another, and no task a
pending interrupt names is pruned. A submission that is refused, an insert that meets a row and a
wake-up that meets none write no timer. -/
def Punctual (w : World) (i : WorkerId) (a : Action) : Prop := Owned w i a ∧
  match a with
  | .advance =>
    (∀ t ∈ (w.procs i).wakes, (w.shared.db.run t).isSome →
      (∃ j, (w.procs j).Saving t) ∨ DueBy w.shared t w.shared.db.now) ∧
    (∀ c ∈ (w.procs i).creates, w.shared.db.run c.1 = none →
      ∀ u ∈ c.2.wakeupAt, DueBy w.shared c.1 u) ∧
    ∀ maxAge ∈ (w.procs i).pruneAge, ∀ r ∈ w.shared.db.taskQueue,
      Prunable maxAge w.shared.db.now r → ¬ Parked w.shared.checkpoints r.idempotencyKey
  | .submitApproval t _ => Accepting w.shared.db t → (∃ j, (w.procs j).Saving t) ∨
    ∀ cp, w.shared.checkpoints.get t = some cp → ∀ env ∈ cp.interrupt,
      env.idempotencyKey = none ∨ env.DueBy w.shared.db.now w.shared.db
  | .crash => ∀ t, (w.procs i).Saving t → ∀ r, w.shared.db.run t = some r →
    ∀ u ∈ r.wakeupAt, DueBy w.shared t u
  | _ => True

/-- What a runner knows of the deadline it goes by. -/
structure TimerKnows (sh : Shared) (p : Proc) : Prop where
  waiting : ∀ run, p.waits = some run → ∀ u ∈ run.wakeupAt,
    u ≤ sh.db.now ∧ DueBy sh run.ticketId u
  resuming : ∀ run v, p = .runner (.resuming run v) → v.payload = .timeout →
    ∀ cp, sh.checkpoints.get run.ticketId = some cp →
      ∃ env ∈ cp.interrupt, ∃ d ∈ env.wakeupAt, d ≤ sh.db.now
  invoking : ∀ run v inv, p = .runner (.invoking run v inv) → inv.offered = some .timeout →
    ∃ env ∈ inv.checkpoint.interrupt, ∃ d ∈ env.wakeupAt, d ≤ sh.db.now

/-- The timeouts a node has received came after the deadline of its first interrupt. -/
structure Overdue (w : World) : Prop where
  recorded : ∀ t cp, w.shared.checkpoints.get t = some cp → .timeout ∈ cp.resumes →
    ∃ d ∈ cp.values.wakeupAt, d ≤ w.shared.db.now
  received : ∀ j inv, (w.procs j).invocation = some inv → .timeout ∈ inv.resumes →
    ∃ d ∈ inv.checkpoint.values.wakeupAt, d ≤ w.shared.db.now

/-- A row's timer is one the pending interrupt is due by, unless a runner is about to write it. -/
structure Timed (w : World) : Prop where
  rows : ∀ t r u, w.shared.db.run t = some r → r.wakeupAt = some u →
    (∃ j, (w.procs j).Saving t) ∨ DueBy w.shared t u
  knows : ∀ j, TimerKnows w.shared (w.procs j)

variable {sh sh' : Shared} {w : World} {i j : WorkerId} {p p' : Proc} {a : Action} {t : TicketId}
  {db : Database} {key : IdempotencyKey} {env : Envelope} {cp : Checkpoint} {u : Time}
  {r : QueuedTask}

/-! ## What is there stays there -/

theorem approvalResumeValue_isSome {wakeupAt : Time} {reply : DraftReply} :
    (Runner.approvalResumeValue (.approvalRequired t wakeupAt reply) db).isSome ↔
      ∃ s ∈ db.pendingSignal, Db.Unconsumed t .approvalDecision s := by
  rw [Runner.approvalResumeValue, Option.isSome_map]
  constructor
  · intro h
    obtain ⟨s, hs⟩ := Option.isSome_iff_exists.mp h
    exact ⟨s, firstBy_mem hs⟩
  · rintro ⟨s, hm, hu⟩
    by_contra hnone
    rw [Option.not_isSome_iff_eq_none, firstBy_eq_none] at hnone
    exact hnone s hm hu

theorem approval_ready_iff {wakeupAt : Time} {reply : DraftReply} :
    (Runner.resumeValue (.approvalRequired t wakeupAt reply) db).isSome ↔
      ∃ s ∈ db.pendingSignal, Db.Unconsumed t .approvalDecision s := by
  rw [← approvalResumeValue_isSome, Runner.resumeValue]
  cases Runner.approvalResumeValue (.approvalRequired t wakeupAt reply) db <;> rfl

/-- A signal stays unconsumed until a runner saves a step on its ticket. -/
theorem unconsumed_effect (hw : World.Reachable w) (he : Effect w.shared i (w.procs i) a sh' p')
    (hns : ¬ (w.procs i).Saving t)
    (h : ∃ s ∈ w.shared.db.pendingSignal, Db.Unconsumed t .approvalDecision s) :
    ∃ s ∈ sh'.db.pendingSignal, Db.Unconsumed t .approvalDecision s := by
  obtain ⟨s, hm, hu⟩ := h
  obtain ⟨hS, hR⟩ := hw.signals
  cases he.signalChange with
  | same hsig hseq hlog => exact ⟨s, hsig ▸ hm, hu⟩
  | accepted hp ha hr hwait hno hsig hseq hlog =>
    exact ⟨s, hsig ▸ List.mem_append_left _ hm, hu⟩
  | consumed hp ha hp' hid hsig hseq hlog =>
    rename_i run v out id
    obtain ⟨d, -, hacc⟩ := (hR i run v (by rw [hp]; rfl)).consumes hid
    -- the consumed signal is of the ticket whose step is saved
    have hne : s.id ≠ id := by
      rintro rfl
      obtain ⟨ht, -⟩ := hS.unique _ _ _ _ _ (hS.row s hm) hacc
      refine hns ?_
      rw [hp]
      exact ht.symm.trans hu.1
    exact ⟨s, hsig ▸ mem_updateWhere_of_not hm hne, hu⟩
  | pruned hp ha hdb hlog =>
    refine ⟨s, ?_, hu⟩
    rw [hdb]
    refine List.mem_filter.mpr ⟨hm, decide_eq_true ?_⟩
    rintro ⟨hc, -⟩
    rw [hu.2.2] at hc
    cases hc

section Stays
variable (hw : World.Reachable w) (hok : Punctual w i a)
  (he : Effect w.shared i (w.procs i) a sh' p')
include hw hok he

/-- A settled task that a pending interrupt names stays as it is. -/
theorem settled_effect (hpark : Parked w.shared.checkpoints key)
    (h : ∃ r, w.shared.db.task key = some r ∧ (r.status = .done ∨ r.status = .failed)) :
    ∃ r, sh'.db.task key = some r ∧ (r.status = .done ∨ r.status = .failed) := by
  obtain ⟨r, hr, hst⟩ := h
  have hk := hw.tasks.1.keys
  rcases (he.taskChange hk key).frozen_or_gone hr hst with hsame | hgone
  · exact ⟨r, hsame, hst⟩
  · obtain ⟨maxAge, hage, rfl, hprune⟩ := he.prunes_task hk hr hgone
    obtain ⟨hm, hkey⟩ := Database.task_eq_some hr
    exact absurd (hkey ▸ hpark) (hok.2.2.2 maxAge hage r hm hprune)

/-- What a pending interrupt waits for stays ready until a step on the ticket is saved. -/
theorem ready_effect (hns : ¬ (w.procs i).Saving t)
    (hcp : w.shared.checkpoints.get t = some cp) (henv : cp.interrupt = some env)
    (h : (Runner.resumeValue env w.shared.db).isSome) :
    (Runner.resumeValue env sh'.db).isSome := by
  obtain ⟨hs, -⟩ := hw.threads.1 t cp hcp
  obtain ⟨n, -, hsus⟩ := hs.parked env henv
  have hticket := hs.ticket.trans (Checkpoints.threadId_of_get hcp)
  have hT := hw.tasks.1
  have hT' : TasksSound sh'.db := hT.effect (hw.tasks.2 i) he
  -- an envelope that names a task is ready when the task is settled
  have named : ∀ {key}, env.idempotencyKey = some key →
      (∀ db, Runner.resumeValue env db = Runner.taskResumeValue key db) →
      (Runner.resumeValue env sh'.db).isSome := by
    intro key hkey hval
    rw [hval] at h ⊢
    rw [taskResumeValue_isSome hT] at h
    rw [taskResumeValue_isSome hT']
    exact settled_effect hw hok he ⟨t, cp, env, hcp, henv, hkey⟩ h
  generalize cp.resumes = resumes at hsus
  cases hsus with
  | approval hwake hd =>
    rw [approval_ready_iff, hticket] at h ⊢
    exact unconsumed_effect hw he hns h
  | _ => exact named rfl fun _ => rfl

theorem Envelope.DueBy.effect (hns : ¬ (w.procs i).Saving t)
    (hcp : w.shared.checkpoints.get t = some cp) (henv : cp.interrupt = some env)
    (h : env.DueBy u w.shared.db) : env.DueBy u sh'.db :=
  h.imp_right (ready_effect hw hok he hns hcp henv)

theorem DueBy.effect (hns : ¬ (w.procs i).Saving t)
    (hthread : sh'.checkpoints.get t = w.shared.checkpoints.get t ∨ sh'.checkpoints.get t = none)
    (h : DueBy w.shared t u) : DueBy sh' t u := by
  intro cp hcp env henv
  rcases hthread with hsame | hnone
  · rw [hsame] at hcp
    exact (h cp hcp env henv).effect hw hok he hns hcp henv
  · rw [hnone] at hcp
    cases hcp

theorem DueBy.next (hns : ¬ (w.procs i).Saving t) (h : DueBy w.shared t u) : DueBy sh' t u ∨
    ∃ (dr : Driver) (inv : Invocation) (env : Envelope), w.procs i = dr.driving inv ∧
      inv.checkpoint.threadId = t ∧ p' = dr.returned inv ⟨inv.checkpoint.values, some env⟩ ∧
      sh'.db = w.shared.db := by
  cases he.threadChange t with
  | same heq => exact .inl (h.effect hw hok he hns (.inl heq))
  | created hp ha ht hf hdb hlog hseq heq =>
    left
    intro cp hcp env henv
    cases hcp.symm.trans heq
    cases henv
  | put hp ha ht hr hn hp' hdb hlog hseq heq =>
    left
    intro cp hcp env henv
    cases hcp.symm.trans heq
    cases henv
  | suspended hp ha ht hr hcp hid hp' hdb hlog heq => exact .inr ⟨_, _, _, hp, ht, hp', hdb⟩
  | deleted hp ha heq => exact .inl (h.effect hw hok he hns (.inr heq))

end Stays

/-! ## The rows -/

/-- An accepted decision is there for the approval it was made for. -/
theorem Effect.accepts_signal {d : ApprovalDecision} {id : ℕ} (he : Effect sh i p a sh' p')
    (ha : a = .submitApproval t d) (hlog : sh'.log = .accepted t id d :: sh.log) :
    Accepting sh.db t ∧ (∃ s ∈ sh'.db.pendingSignal, Db.Unconsumed t .approvalDecision s) ∧
      sh'.checkpoints = sh.checkpoints := by
  cases he with
  | accepted hs =>
    cases ha
    obtain ⟨hwait, hno, rfl, rfl⟩ := Db.addPendingSignalIfWaiting_eq_some hs
    refine ⟨⟨hwait, hno⟩, ?_, rfl⟩
    exact ⟨_, List.mem_append_right _ (List.mem_singleton.mpr rfl), rfl, rfl, rfl⟩
  | quiet hl =>
    cases hl with
    | refused hs => exact absurd hlog (List.ne_cons_self)
    | _ => cases ha
  | _ => cases ha

theorem DueBy.accepted {d : ApprovalDecision} {id : ℕ} (hw : World.Reachable w)
    (hok : Punctual w i a) (he : Effect w.shared i (w.procs i) a sh' p')
    (hns : ¬ (w.procs i).Saving t) (ha : a = .submitApproval t d)
    (hlog : sh'.log = .accepted t id d :: w.shared.log)
    (h : ∀ cp, w.shared.checkpoints.get t = some cp → ∀ env ∈ cp.interrupt,
      env.idempotencyKey = none ∨ env.DueBy u w.shared.db) : DueBy sh' t u := by
  obtain ⟨-, hsig, hcps⟩ := he.accepts_signal ha hlog
  intro cp hcp env henv
  rw [hcps] at hcp
  rcases h cp hcp env henv with hkey | hdue
  · obtain ⟨hs, -⟩ := hw.threads.1 t cp hcp
    obtain ⟨n, -, hsus⟩ := hs.parked env henv
    have hticket := hs.ticket.trans (Checkpoints.threadId_of_get hcp)
    rw [← hticket] at hsig
    generalize cp.resumes = resumes at hsus
    cases hsus with
    | approval hwake hd => exact .inr (approval_ready_iff.mpr hsig)
    | _ => cases hkey
  · exact hdue.effect hw hok he hns hcp henv

theorem Proc.Saving.holds (h : p.Saving t) : p.Holds t := by
  unfold Proc.Saving at h
  split at h
  · exact ⟨_, rfl, h⟩
  · exact h.elim

theorem Effect.fromSaving {run : WorkflowRun} {v : ResumeValue} {out : Output}
    (he : Effect sh i p a sh' p') (hp : p = .runner (.saving run v out)) :
    (p' = p ∧ ∃ elapsed, sh' = sh.commit { sh.db with now := sh.db.now + elapsed }) ∨
    (a = .crash ∧ sh' = sh) ∨
    sh' = sh.record (Db.saveRun run.ticketId out.values.status (Runner.nextWakeupAt out)
      v.consumedSignalId sh.db) (.saved run.ticketId out.values.status v.consumedSignalId) := by
  cases he with
  | tick elapsed => exact .inl ⟨rfl, elapsed, rfl⟩
  | saved =>
    cases hp
    exact .inr (.inr rfl)
  | @ran dr inv n db result hr hn hrun => cases dr <;> cases hp
  | @put dr inv values next hr hn => cases dr <;> cases hp
  | @suspended dr inv env hr => cases dr <;> cases hp
  | quiet hl =>
    cases hl with
    | crash => exact .inr (.inl ⟨rfl, rfl⟩)
    | @ended dr inv hr hn => cases dr <;> cases hp
    | @raised dr inv error hr => cases dr <;> cases hp
    | _ => cases hp
  | _ => cases hp

theorem OwnerKnows.saved_due {run : WorkflowRun} {v : ResumeValue} {out : Output}
    (h : OwnerKnows sh p) (hp : p = .runner (.saving run v out))
    (hu : Runner.nextWakeupAt out = some u) {db : Database} :
    DueBy { sh with db := db } run.ticketId u := by
  intro cp hcp env henv
  obtain ⟨hint, -⟩ := h.saving run v out hp cp hcp
  rw [hint] at henv
  unfold Runner.nextWakeupAt at hu
  rw [Option.mem_def.mp henv] at hu
  exact .inl ⟨u, hu, le_rfl⟩

/-- The row of a run that the acting process is about to save. -/
theorem Timed.saving_effect (hO : Ownership w) (hok : Punctual w i a)
    (he : Effect w.shared i (w.procs i) a sh' p') (hs : (w.procs i).Saving t) {r' : WorkflowRun}
    (hr' : sh'.db.run t = some r') (hu : r'.wakeupAt = some u) : p'.Saving t ∨ DueBy sh' t u := by
  obtain ⟨run, v, out, hp, rfl⟩ : ∃ run v out, w.procs i = .runner (.saving run v out) ∧
      run.ticketId = t := by
    have hs' := hs
    unfold Proc.Saving at hs'
    split at hs'
    · rename_i run v out hp
      exact ⟨run, v, out, hp, hs'⟩
    · exact hs'.elim
  rcases he.fromSaving hp with ⟨hp', -⟩ | ⟨rfl, hsh⟩ | hsh
  · left
    rw [hp']
    exact hs
  · right
    subst hsh
    exact hok.2 _ hs r' hr' u hu
  · right
    have hrow : sh'.db.run run.ticketId = (w.shared.db.run run.ticketId).map
        (Db.saveRunRow out.values.status (Runner.nextWakeupAt out) w.shared.db.now) := by
      rw [hsh]
      exact run_saveRun.trans (if_pos rfl)
    rw [hrow] at hr'
    obtain ⟨r, -, rfl⟩ := Option.map_eq_some_iff.mp hr'
    have hdue : DueBy { w.shared with db := sh'.db } run.ticketId u := (hO.knows i).saved_due hp hu
    rw [hsh] at hdue ⊢
    exact hdue

/-- Where a timer of a row comes from, if the acting process is not about to save the run. -/
theorem Timed.timer (h : Timed w) (hw : World.Reachable w) (hok : Punctual w i a)
    (he : Effect w.shared i (w.procs i) a sh' p') (hns : ¬ (w.procs i).Saving t) {r' : WorkflowRun}
    (hr' : sh'.db.run t = some r') (hu : r'.wakeupAt = some u) :
    (∃ j, (w.procs j).Saving t) ∨ DueBy w.shared t u ∨ DueBy sh' t u := by
  have old : ∀ {r}, w.shared.db.run t = some r → r.wakeupAt = some u →
      (∃ j, (w.procs j).Saving t) ∨ DueBy w.shared t u ∨ DueBy sh' t u := by
    intro r hr hur
    rcases h.rows t r u hr hur with hsave | hdue
    · exact .inl hsave
    · exact .inr (.inl hdue)
  cases he.runChange hw.held.1 t with
  | same heq => exact old (heq.symm.trans hr') hu
  | claimed hp ha hr hc hp' heq hlog =>
    cases hr'.symm.trans heq
    exact old hr hu
  | saved hs ht ha hp' heq hlog =>
    rw [heq] at hr'
    obtain ⟨r, hr, rfl⟩ := Option.map_eq_some_iff.mp hr'
    unfold Proc.saves at hs
    split at hs
    · rename_i run hp
      cases hs
      obtain ⟨-, hdue⟩ := (h.knows i).waiting run (by rw [hp]; rfl) u hu
      exact .inr (.inl (ht ▸ hdue))
    · rename_i run v out hp
      cases hs
      refine absurd ?_ hns
      rw [hp]
      exact ht
    · cases hs
  | woken hp ht ha hp' heq hlog =>
    rw [heq] at hr'
    obtain ⟨r, hr, rfl⟩ := Option.map_eq_some_iff.mp hr'
    cases hu
    subst ha ht
    rcases hok.2.1 _ (by rw [hp]; rfl) (by rw [hr]; rfl) with hsave | hdue
    · exact .inl hsave
    · exact .inr (.inl hdue)
  | accepted hp ha hr hst heq hlog =>
    cases hr'.symm.trans heq
    cases hu
    subst ha
    obtain ⟨haccepting, -⟩ := he.accepts_signal rfl hlog
    rcases hok.2 haccepting with hsave | hdue
    · exact .inl hsave
    · right
      right
      exact DueBy.accepted hw hok he hns rfl hlog hdue
  | reclaimed hp hr hx hlt heq hlog =>
    cases hr'.symm.trans heq
    exact old hr hu
  | created hc ha hnone heq hlog =>
    cases hr'.symm.trans heq
    subst ha
    exact .inr (.inl (hok.2.2.1 _ hc hnone u hu))
  | archived hp ha hr harch heq hlog =>
    rw [heq] at hr'
    cases hr'

/-- Somebody who is about to save and does not act is still about to save. -/
theorem saving_still {t : TicketId} (hj : (w.procs j).Saving t) (hne : j ≠ i) :
    ∃ k, (Function.update w.procs i p' k).Saving t := by
  refine ⟨j, ?_⟩
  rw [Function.update_of_ne hne]
  exact hj

theorem Timed.rows_effect (h : Timed w) (hw : World.Reachable w) (hO : Ownership w)
    (hok : Punctual w i a) (he : Effect w.shared i (w.procs i) a sh' p') {r' : WorkflowRun}
    (hr' : sh'.db.run t = some r') (hu : r'.wakeupAt = some u) :
    (∃ k, (Function.update w.procs i p' k).Saving t) ∨ DueBy sh' t u := by
  have self : p'.Saving t → ∃ k, (Function.update w.procs i p' k).Saving t := by
    intro hs
    refine ⟨i, ?_⟩
    rw [Function.update_self]
    exact hs
  by_cases hns : (w.procs i).Saving t
  · exact (Timed.saving_effect hO hok he hns hr' hu).imp_left self
  · rcases h.timer hw hok he hns hr' hu with ⟨j, hj⟩ | hdue | hdue
    · have hne : j ≠ i := fun heq => hns (heq ▸ hj)
      exact .inl (saving_still hj hne)
    · rcases hdue.next hw hok he hns with hdue | ⟨dr, inv, env, hp, ht, hp', hdb⟩
      · exact .inr hdue
      · -- a node has suspended: its runner saves next, and a new thread has no row
        cases dr with
        | createTicket =>
          obtain ⟨hnone, -⟩ := hO.seeding i t ⟨inv, hp, ht⟩
          rw [hdb, hnone] at hr'
          cases hr'
        | step run v =>
          have hP := hw.threads.2 i
          rw [hp] at hP
          left
          refine self ?_
          rw [hp']
          exact hP.1.symm.trans ht
    · exact .inr hdue

/-! ## The runners -/

theorem TimerKnows.other (h : Timed w) (hw : World.Reachable w) (hO : Ownership w)
    (hok : Punctual w i a) (he : Effect w.shared i (w.procs i) a sh' p') (hne : j ≠ i) :
    TimerKnows sh' (w.procs j) := by
  have hk := h.knows j
  have hnow := he.now_le
  -- nobody else moves or saves the run it holds
  have kept : ∀ {t}, (w.procs j).Holds t → ¬ (w.procs i).Saving t ∧
      (sh'.checkpoints.get t = w.shared.checkpoints.get t ∨ sh'.checkpoints.get t = none) := by
    intro t hj
    refine ⟨fun hs => hne (hO.sole j i t hj hs.holds), ?_⟩
    exact hO.thread_kept hw he hj hne
  refine ⟨fun run hwait u hu => ?_, fun run v hp hv cp hcp => ?_, fun run v inv hp ho => ?_⟩
  · have hj : (w.procs j).Holds run.ticketId := by
      unfold Proc.waits at hwait
      split at hwait
      all_goals first
        | cases hwait
          rename_i hp
          exact ⟨run, by rw [hp]; rfl, rfl⟩
        | cases hwait
    obtain ⟨hns, hthread⟩ := kept hj
    obtain ⟨hle, hdue⟩ := hk.waiting run hwait u hu
    exact ⟨hle.trans hnow, hdue.effect hw hok he hns hthread⟩
  · obtain ⟨-, hthread⟩ := kept ⟨run, by rw [hp]; rfl, rfl⟩
    rcases hthread with hsame | hnone
    · rw [hsame] at hcp
      obtain ⟨env, henv, d, hd, hle⟩ := hk.resuming run v hp hv cp hcp
      exact ⟨env, henv, d, hd, hle.trans hnow⟩
    · rw [hnone] at hcp
      cases hcp
  · obtain ⟨env, henv, d, hd, hle⟩ := hk.invoking run v inv hp ho
    exact ⟨env, henv, d, hd, hle.trans hnow⟩

theorem TimerKnows.of_waiting {run : WorkflowRun} (hp : p.waits = some run)
    (h : ∀ u ∈ run.wakeupAt, u ≤ sh.db.now ∧ DueBy sh run.ticketId u) : TimerKnows sh p := by
  refine ⟨fun run' hwait => ?_, fun run' v hq => ?_, fun run' v inv hq => ?_⟩
  · cases hp.symm.trans hwait
    exact h
  · rw [hq] at hp
    cases hp
  · rw [hq] at hp
    cases hp

theorem TimerKnows.of_invoking {run : WorkflowRun} {v : ResumeValue} {inv : Invocation}
    (h : inv.offered = some .timeout →
      ∃ env ∈ inv.checkpoint.interrupt, ∃ d ∈ env.wakeupAt, d ≤ sh.db.now) :
    TimerKnows sh (.runner (.invoking run v inv)) := by
  refine ⟨fun _ hwait => (nomatch hwait), fun _ _ hp => (nomatch hp), fun run' v' inv' hp => ?_⟩
  cases hp
  exact h

theorem TimerKnows.of_saving {run : WorkflowRun} {v : ResumeValue} {out : Output} :
    TimerKnows sh (.runner (.saving run v out)) :=
  ⟨fun _ hwait => (nomatch hwait), fun _ _ hp => (nomatch hp), fun _ _ _ hp => nomatch hp⟩

/-- A runner chooses a timeout for an interrupt that is past its own deadline. -/
theorem TimerKnows.chooses {run : WorkflowRun} {env : Envelope} {v : ResumeValue}
    (h : TimerKnows sh (.runner (.inspected run env)))
    (hO : OwnerKnows sh (.runner (.inspected run env)))
    (hv : Runner.resumeForRun env run.wakeupAt sh.db = some v) (htime : v.payload = .timeout)
    {cp : Checkpoint} (hcp : sh.checkpoints.get run.ticketId = some cp) :
    ∃ env ∈ cp.interrupt, ∃ d ∈ env.wakeupAt, d ≤ sh.db.now := by
  have henv := hO.inspected run env rfl cp hcp
  cases Runner.resumeForRun_found hv with
  | decision happ hsig => cases htime
  | task hkey htask hdecision htimeout => exact absurd htime htimeout
  | timeout hsome hnone =>
    obtain ⟨u, hu⟩ := Option.isSome_iff_exists.mp hsome
    obtain ⟨hle, hdue⟩ := h.waiting run rfl u hu
    rcases hdue cp hcp env henv with ⟨d, hd, hdu⟩ | hready
    · exact ⟨env, henv, d, hd, hdu.trans hle⟩
    · rw [hnone] at hready
      cases hready

theorem TimerKnows.acts (h : TimerKnows sh p) (hO : OwnerKnows sh p)
    (hdue : ∀ run, p.waits = some run → ∀ u, DueBy sh run.ticketId u → DueBy sh' run.ticketId u)
    (hclaim : ∀ locked db run, a = .claimRun locked → Db.claimRun i locked sh.db = (db, some run) →
      ∀ u ∈ run.wakeupAt, u ≤ sh'.db.now ∧ DueBy sh' run.ticketId u)
    (he : Effect sh i p a sh' p') : TimerKnows sh' p' := by
  have hnow := he.now_le
  have waits : ∀ {run}, p.waits = some run → ∀ u ∈ run.wakeupAt,
      u ≤ sh'.db.now ∧ DueBy sh' run.ticketId u := by
    intro run hwait u hu
    obtain ⟨hle, hd⟩ := h.waiting run hwait u hu
    exact ⟨hle.trans hnow, hdue run hwait u hd⟩
  have none : ∀ {q : Proc}, q.holds = none → TimerKnows sh' q := by
    intro q hq
    refine ⟨fun run hwait => ?_, fun run v hp => ?_, fun run v inv hp => ?_⟩
    · unfold Proc.waits at hwait
      split at hwait <;> first | cases hq | cases hwait
    · rw [hp] at hq
      cases hq
    · rw [hp] at hq
      cases hq
  cases he with
  | tick elapsed =>
    refine ⟨fun run hwait => waits hwait, fun run v hp hv cp hcp => ?_, fun run v inv hp ho => ?_⟩
    · obtain ⟨env, henv, d, hd, hle⟩ := h.resuming run v hp hv cp hcp
      exact ⟨env, henv, d, hd, hle.trans hnow⟩
    · obtain ⟨env, henv, d, hd, hle⟩ := h.invoking run v inv hp ho
      exact ⟨env, henv, d, hd, hle.trans hnow⟩
  | created hf => exact none rfl
  | @ran dr inv n db result hr hn hrun =>
    cases dr with
    | createTicket => exact none rfl
    | step run v =>
      refine .of_invoking fun ho => ?_
      obtain ⟨env, henv, d, hd, hle⟩ := h.invoking run v inv rfl ho
      exact ⟨env, henv, d, hd, hle.trans hnow⟩
  | @put dr inv values next hr hn =>
    cases dr with
    | createTicket => exact none rfl
    | step run v => exact .of_invoking fun ho => nomatch ho
  | @suspended dr inv env hr =>
    cases dr with
    | createTicket => exact none rfl
    | step run v => exact .of_saving
  | @claimed locked db run hs => exact .of_waiting rfl (hclaim locked db run rfl hs)
  | failed hm hs hf =>
    split
    · exact none rfl
    · exact none rfl
  | quiet hl =>
    cases hl with
    | @ended dr inv hr hn =>
      cases dr with
      | createTicket => exact none rfl
      | step run v => exact .of_saving
    | @unparked run hcp => exact .of_waiting rfl (waits rfl)
    | @inspected run cp env hcp henv => exact .of_waiting rfl (waits rfl)
    | @unready run env hr => exact .of_waiting rfl (waits rfl)
    | @ready run env v hr =>
      refine ⟨fun _ hwait => (nomatch hwait), fun run' v' hp htime cp hcp => ?_,
        fun _ _ _ hp => nomatch hp⟩
      cases hp
      exact h.chooses hO hr htime hcp
    | @resumed run v cp hcp =>
      refine .of_invoking fun ho => ?_
      exact h.resuming run v rfl (Option.some.inj ho) cp hcp
    | _ => exact none rfl
  | _ => exact none rfl

theorem Timed.acts (h : Timed w) (hw : World.Reachable w) (hO : Ownership w)
    (hok : Punctual w i a) (he : Effect w.shared i (w.procs i) a sh' p') : TimerKnows sh' p' := by
  refine (h.knows i).acts (hO.knows i) (fun run hwait u hdue => ?_)
    (fun locked db run ha hcl u hu => ?_) he
  · have hns : ∀ t, ¬ (w.procs i).Saving t := by
      intro t hs
      unfold Proc.Saving at hs
      split at hs
      · rename_i hp
        rw [hp] at hwait
        cases hwait
      · exact hs
    rcases hdue.next hw hok he (hns _) with hnext | ⟨dr, inv, env, hp, -⟩
    · exact hnext
    · rw [hp] at hwait
      cases dr <;> cases hwait
  · obtain ⟨r, hr, hc, hrun, hrow⟩ := run_claimRun hw.held.1 hcl
    have hur : r.wakeupAt = some u := by
      rw [hrun] at hu
      exact hu
    have hns : ∀ j, ¬ (w.procs j).Saving run.ticketId := by
      intro j hs
      subst ha
      exact hok.1 db run hcl j hs.holds
    refine ⟨(hc.2.2 u hur).trans he.now_le, ?_⟩
    rcases h.rows _ r u hr hur with ⟨j, hj⟩ | hdue
    · exact absurd hj (hns j)
    · rcases hdue.next hw hok he (hns i) with hnext | ⟨dr, inv, env, hp, ht, -⟩
      · exact hnext
      · subst ha
        generalize w.procs i = p at he hp
        cases he with
        | claimed hs => cases dr <;> cases hp
        | quiet hl =>
          cases hl with
          | noClaim hs => cases dr <;> cases hp

theorem Timed.effect (h : Timed w) (hw : World.Reachable w) (hO : Ownership w)
    (hok : Punctual w i a) (he : Effect w.shared i (w.procs i) a sh' p') :
    Timed ⟨sh', Function.update w.procs i p'⟩ := by
  refine ⟨fun t r u hr hu => h.rows_effect hw hO hok he hr hu, fun j => ?_⟩
  change TimerKnows sh' (Function.update w.procs i p' j)
  by_cases hji : j = i
  · subst hji
    rw [Function.update_self]
    exact h.acts hw hO hok he
  · rw [Function.update_of_ne hji]
    exact TimerKnows.other h hw hO hok he hji

theorem World.ReachableWhen.timed (hw : World.ReachableWhen Punctual w) : Timed w := by
  refine World.ReachableWhen.worldInvariant (I := Timed) ?_ ?_ hw
  · refine ⟨fun _ _ _ h => (nomatch h), fun _ => ?_⟩
    exact ⟨fun _ h => (nomatch h), fun _ _ h => (nomatch h), fun _ _ _ h => nomatch h⟩
  · intro w i a sh' p' hr ha h he
    have hO : Ownership w := World.ReachableWhen.ownership (fun _ _ _ h => h.1) hr
    exact h.effect hr.reachable hO ha he

/-! ## What a timeout comes after -/

/-- Only the first interrupt of an agent stage and the approval have a deadline, and it is the one
the state holds. -/
theorem Suspends.timed {n : Node} {s : TicketState} {resumes : List Resume} {d : Time}
    (h : Suspends s n resumes env) (hd : env.wakeupAt = some d) : resumes = [] ∧
      s.wakeupAt = some d ∧ (n = .awaitClassify ∨ n = .awaitDraft ∨ n = .awaitApproval) := by
  cases h with
  | classify => exact ⟨rfl, hd, .inl rfl⟩
  | classifyAgain => cases hd
  | draft hc => exact ⟨rfl, hd, .inr (.inl rfl)⟩
  | draftAgain hc => cases hd
  | approval hwake hr =>
    cases hd
    exact ⟨rfl, hwake, .inr (.inr rfl)⟩
  | terminal hc hr => cases hd

/-- A runner that delivers a timeout delivers it to an interrupt past its deadline. -/
theorem Timed.delivered {run : WorkflowRun} {v : ResumeValue} {inv : Invocation} (h : Timed w)
    (hw : World.Reachable w) (hp : w.procs j = .runner (.invoking run v inv))
    (ho : inv.offered = some .timeout) :
    ∃ env d, inv.checkpoint.interrupt = some env ∧ env.wakeupAt = some d ∧
      d ≤ w.shared.db.now ∧ inv.checkpoint.values.wakeupAt = some d ∧ inv.checkpoint.resumes = [] ∧
      (inv.checkpoint.next = some .awaitClassify ∨ inv.checkpoint.next = some .awaitDraft ∨
        inv.checkpoint.next = some .awaitApproval) := by
  obtain ⟨env, henv, d, hd, hle⟩ := (h.knows j).invoking run v inv hp ho
  have hinv : (w.procs j).invocation = some inv := by rw [hp]; rfl
  have hsound := (hw.threads.2 j).of_invocation hinv
  obtain ⟨n, hn, hsus⟩ := hsound.checkpoint.parked env henv
  obtain ⟨hres, hval, hnode⟩ := hsus.timed hd
  refine ⟨env, d, henv, hd, hle, hval, hres, ?_⟩
  rw [hn]
  exact hnode.imp (congrArg some) (Or.imp (congrArg some) (congrArg some))

theorem Overdue.recorded_effect (h : Overdue w) (hw : World.Reachable w)
    (he : Effect w.shared i (w.procs i) a sh' p') {cp' : Checkpoint}
    (hcp' : sh'.checkpoints.get t = some cp') (hm : .timeout ∈ cp'.resumes) :
    ∃ d ∈ cp'.values.wakeupAt, d ≤ sh'.db.now := by
  have hnow := he.now_le
  cases he.threadChange t with
  | same heq =>
    obtain ⟨d, hd, hle⟩ := h.recorded t cp' (heq.symm.trans hcp') hm
    exact ⟨d, hd, hle.trans hnow⟩
  | created hp ha ht hf hdb hlog hseq heq =>
    cases hcp'.symm.trans heq
    cases hm
  | put hp ha ht hr hn hp' hdb hlog hseq heq =>
    cases hcp'.symm.trans heq
    cases hm
  | suspended hp ha ht hr hcp hid hp' hdb hlog heq =>
    rename_i dr inv env cp
    cases hcp'.symm.trans heq
    have hinv : (w.procs i).invocation = some inv := by rw [hp]; simp
    have hsound := (hw.threads.2 i).of_invocation hinv
    obtain ⟨d, hd, hle⟩ := h.received i inv hinv hm
    obtain ⟨hvals, -⟩ := hsound.copy cp (ht ▸ hcp) hid
    refine ⟨d, ?_, hle.trans hnow⟩
    rw [hvals]
    exact hd
  | deleted hp ha heq =>
    rw [heq] at hcp'
    cases hcp'

/-- Who drives a graph brings a value, or carries on with the ones it has. -/
theorem Effect.receives {inv' : Invocation} (he : Effect sh i p a sh' p')
    (hinv : p'.invocation = some inv') :
    (∃ inv, p.invocation = some inv ∧ inv'.checkpoint = inv.checkpoint ∧
      inv'.resumes = inv.resumes) ∨ inv'.resumes = [] ∨
    ∃ run v, p' = .runner (.invoking run v inv') ∧ inv'.offered = some v.payload ∧
      sh.checkpoints.get inv'.checkpoint.threadId = some inv'.checkpoint := by
  cases he.driveChange hinv with
  | still hold => exact .inl ⟨inv', hold, rfl, rfl⟩
  | ran hp hr hn hrun hinv' hsh =>
    subst hp hinv'
    exact .inl ⟨_, Proc.invocation_driving .., rfl, rfl⟩
  | put hget hr hnil => exact .inr (.inl hnil)
  | read hp' hsh hget hr ho => exact .inr (.inr ⟨_, _, hp', ho, hget⟩)

theorem Overdue.effect (h : Overdue w) (hw : World.Reachable w)
    (hnext : ∀ run v inv, p' = .runner (.invoking run v inv) → inv.offered = some .timeout →
      ∃ d ∈ inv.checkpoint.values.wakeupAt, d ≤ sh'.db.now)
    (he : Effect w.shared i (w.procs i) a sh' p') :
    Overdue ⟨sh', Function.update w.procs i p'⟩ := by
  have hnow := he.now_le
  have later : ∀ {s : TicketState}, (∃ d ∈ s.wakeupAt, d ≤ w.shared.db.now) →
      ∃ d ∈ s.wakeupAt, d ≤ sh'.db.now := by
    rintro s ⟨d, hd, hle⟩
    exact ⟨d, hd, hle.trans hnow⟩
  refine ⟨fun t cp' hcp' hm => h.recorded_effect hw he hcp' hm, fun j inv' hinv hm => ?_⟩
  change (Function.update w.procs i p' j).invocation = some inv' at hinv
  change ∃ d ∈ inv'.checkpoint.values.wakeupAt, d ≤ sh'.db.now
  by_cases hji : j = i
  · subst hji
    rw [Function.update_self] at hinv
    rcases he.receives hinv with ⟨inv, hinv₀, hcp, hsame⟩ | hnil | ⟨run, v, hp', ho, hget⟩
    · rw [hcp]
      exact later (h.received j inv hinv₀ (hsame ▸ hm))
    · rw [hnil] at hm
      cases hm
    · rcases List.mem_append.mp hm with hold | hoff
      · exact later (h.recorded _ _ hget hold)
      · have htime : inv'.offered = some .timeout := Option.mem_toList.mp hoff
        exact hnext run v inv' hp' htime
  · rw [Function.update_of_ne hji] at hinv
    exact later (h.received j inv' hinv hm)

theorem World.ReachableWhen.overdue (hw : World.ReachableWhen Punctual w) : Overdue w := by
  refine World.ReachableWhen.worldInvariant (I := Overdue) ?_ ?_ hw
  · exact ⟨fun _ _ h => (nomatch h), fun _ _ h => nomatch h⟩
  · intro w i a sh' p' hr ha h he
    have hw : World.Reachable w := hr.reachable
    have hO : Ownership w := World.ReachableWhen.ownership (fun _ _ _ h => h.1) hr
    have hT := (World.ReachableWhen.timed hr).acts hw hO ha he
    refine h.effect hw (fun run v inv hp ho => ?_) he
    obtain ⟨env, henv, d, hd, hle⟩ := hT.invoking run v inv hp ho
    have hP : p'.ThreadSound sh'.checkpoints := (hw.threads.2 i).acts hw.threads.1 he
    have hinv : p'.invocation = some inv := by rw [hp]; rfl
    have hsound := hP.of_invocation hinv
    obtain ⟨n, -, hsus⟩ := hsound.checkpoint.parked env henv
    exact ⟨d, (hsus.timed hd).2.1, hle⟩

/-! ## Timers are honoured -/

/-- A decidable condition that implies `Punctual`: nobody claims while another runner is at work,
and nothing is accepted, pruned or abandoned. -/
def Prompt (w : World) (i : WorkerId) (a : Action) : Prop := i < 4 ∧
  match a with
  | .claimRun _ => ∀ j < 4, (w.procs j).holds = none
  | .advance => ((w.procs i).creates.isSome → ∀ j < 4, (w.procs j).invocation = none) ∧
    (∀ t ∈ (w.procs i).wakes, DueBy w.shared t w.shared.db.now) ∧
    (∀ c ∈ (w.procs i).creates, ∀ u ∈ c.2.wakeupAt, DueBy w.shared c.1 u) ∧
    (w.procs i).pruneAge = none
  | .submitApproval t _ => ¬ Accepting w.shared.db t
  | .crash => False
  | _ => True

instance (w : World) (i : WorkerId) (a : Action) : Decidable (Prompt w i a) := by
  unfold Prompt
  cases a <;> infer_instance

theorem Prompt.punctual (h : Prompt w i a) (hidle : ∀ j, 4 ≤ j → w.procs j = .idle) :
    Punctual w i a := by
  obtain ⟨-, h⟩ := h
  have howned : Owned w i a := by
    refine .of_bounded hidle ?_ ?_
    · rintro locked rfl
      exact h
    · rintro rfl
      exact h.1
  cases a with
  | advance =>
    obtain ⟨-, hwake, hcreate, hprune⟩ := h
    refine ⟨howned, fun t ht _ => .inr (hwake t ht), fun c hc _ => hcreate c hc,
      fun maxAge hage => ?_⟩
    rw [hprune] at hage
    cases hage
  | submitApproval t d => exact ⟨howned, fun haccepting => absurd haccepting h⟩
  | crash => exact h.elim
  | _ => exact ⟨howned, trivial⟩

/-- In a run whose steps are punctual, a runner resumes a graph with a timeout only when the pending
interrupt's own deadline has passed, so only the first interrupt of an agent stage and the approval
ever time out, and a node that has received a timeout runs only after the deadline in its state. -/
theorem timers_honoured (hw : World.ReachableWhen Punctual w) :
    (∀ j run v, w.procs j = .runner (.resuming run v) → v.payload = .timeout →
      ∀ cp, w.shared.checkpoints.get run.ticketId = some cp →
        ∃ env d, cp.interrupt = some env ∧ env.wakeupAt = some d ∧ d ≤ w.shared.db.now) ∧
    (∀ j run v inv, w.procs j = .runner (.invoking run v inv) → inv.offered = some .timeout →
      ∃ env d, inv.checkpoint.interrupt = some env ∧ env.wakeupAt = some d ∧
        d ≤ w.shared.db.now ∧ inv.checkpoint.values.wakeupAt = some d ∧
        inv.checkpoint.resumes = [] ∧ (inv.checkpoint.next = some .awaitClassify ∨
          inv.checkpoint.next = some .awaitDraft ∨ inv.checkpoint.next = some .awaitApproval)) ∧
    ∀ j inv, (w.procs j).invocation = some inv → .timeout ∈ inv.resumes →
      ∃ d, inv.checkpoint.values.wakeupAt = some d ∧ d ≤ w.shared.db.now := by
  have hT := World.ReachableWhen.timed hw
  refine ⟨fun j run v hp hv cp hcp => ?_, fun j run v inv hp ho => ?_, fun j inv hinv hm => ?_⟩
  · obtain ⟨env, henv, d, hd, hle⟩ := (hT.knows j).resuming run v hp hv cp hcp
    exact ⟨env, d, henv, hd, hle⟩
  · exact hT.delivered hw.reachable hp ho
  · exact (World.ReachableWhen.overdue hw).received j inv hinv hm

/-- A runner is about to resume ticket 7 with a timeout, and its thread has the checkpoint. -/
def timingOut (i : WorkerId) (q : Database → Checkpoint → Bool) (w : World) : Bool :=
  match w.procs i, w.shared.checkpoints.get 7 with
  | .runner (.resuming run v), some cp =>
    decide (run.ticketId = 7 ∧ v.payload = .timeout) && q w.shared.db cp
  | _, _ => false

theorem timingOut_spec {q : Database → Checkpoint → Bool} (h : timingOut i q w = true) :
    ∃ run v cp, w.procs i = .runner (.resuming run v) ∧ run.ticketId = 7 ∧ v.payload = .timeout ∧
      w.shared.checkpoints.get 7 = some cp ∧ q w.shared.db cp = true := by
  unfold timingOut at h
  split at h
  · rename_i run v cp hp hcp
    obtain ⟨hrun, hq⟩ := Bool.and_eq_true_iff.mp h
    obtain ⟨ht, hv⟩ := of_decide_eq_true hrun
    exact ⟨run, v, cp, hp, ht, hv, hcp, hq⟩
  · cases h

/-- The approval of ticket 7 is due; a decision sent before it was prepared was refused. -/
theorem timers_honoured_gate : ∃ w cp env d, World.ReachableWhen Punctual w ∧
    w.shared.checkpoints.get 7 = some cp ∧ cp.interrupt = some env ∧ env.wakeupAt = some d ∧
      d ≤ w.shared.db.now := by
  have hrun : (World.initial.runWhen Proc.step Prompt (Schedule.create ++ Schedule.submit true ++
      Schedule.work 1 .agentTaskQueue (.classification Schedule.classification) ++
      Schedule.step 2 10 ++ Schedule.work 1 .agentTaskQueue (.draft Schedule.riskyDraft) ++
      Schedule.step 2 12 ++ [(0, .tick approvalTimeout)] ++ Schedule.step 2 2)).map
        (timingOut 2 fun _ _ => true) = some true := by decide +kernel
  obtain ⟨w, hw, hp⟩ := exists_reachableWhen_of_run hrun
  obtain ⟨run, v, cp, hres, ht, hv, hcp, -⟩ := timingOut_spec hp
  have hw' : World.ReachableWhen Punctual w := hw.strengthen fun w i a hr h =>
    h.punctual (World.ReachableWhen.idle_above (fun _ _ _ h => h.1) hr)
  obtain ⟨env, d, henv, hd, hle⟩ := (timers_honoured hw').1 2 run v hres hv cp (ht ▸ hcp)
  exact ⟨w, cp, env, d, hw', hcp, henv, hd, hle⟩

/-- The runner that leaves ticket 7 at its approval crashes before `save_run`, so the row keeps the
wake-up of the draft; once the lease is over the next runner takes it for the deadline. -/
def Schedule.unsavedGate : Schedule :=
  Schedule.drafted Schedule.riskyDraft 11 ++ [(2, .crash), (0, .tick (seconds 31))] ++
    Schedule.step 3 2

theorem approval_times_out_early : ¬ ∀ w, World.Reachable w → ∀ j run v,
    w.procs j = .runner (.resuming run v) → v.payload = .timeout →
      ∀ cp, w.shared.checkpoints.get run.ticketId = some cp →
        ∃ env d, cp.interrupt = some env ∧ env.wakeupAt = some d ∧ d ≤ w.shared.db.now := by
  intro hall
  have hrun : (World.initial.run Proc.step Schedule.unsavedGate).map (timingOut 3 fun db cp =>
      decide (∀ env ∈ cp.interrupt, ∀ d ∈ env.wakeupAt, db.now < d)) = some true := by
    decide +kernel
  obtain ⟨w, hw, hp⟩ := exists_reachableWhen_of_run hrun
  obtain ⟨run, v, cp, hres, ht, hv, hcp, hearly⟩ := timingOut_spec hp
  obtain ⟨env, d, henv, hd, hle⟩ := hall w hw 3 run v hres hv cp (ht ▸ hcp)
  have hlt := of_decide_eq_true hearly env henv d hd
  exact absurd hle (Nat.not_le.mpr hlt)

end TicketFlow
