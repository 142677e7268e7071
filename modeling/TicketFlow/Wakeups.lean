import TicketFlow.Deliveries
import TicketFlow.Seeding

/-! # Lost wake-ups

A task is enqueued inside `ainvoke` and the row is written later by `save_run`, so the `wake_run` of
a fast worker may come first and be overwritten. That is harmless while the row is polled or timed;
it loses the run when the status is terminal and the timer `NULL`. -/

namespace TicketFlow
open Table Interleaving
set_option autoImplicit false

/-- The thread is parked on a task that is done or failed. -/
def ParkedOnSettled (sh : Shared) (t : TicketId) (key : IdempotencyKey) : Prop :=
  ∃ cp env task, sh.checkpoints.get t = some cp ∧ cp.interrupt = some env ∧
    env.idempotencyKey = some key ∧ sh.db.task key = some task ∧
    (task.status = .done ∨ task.status = .failed)

/-- The process is between settling the task and its `wake_run`, or it holds the run. -/
def Proc.Attends (p : Proc) (t : TicketId) (key : IdempotencyKey) : Prop :=
  (∃ task, p = .worker (.waking task) ∧ task.idempotencyKey = key) ∨
    ∃ run, p.holds = some run ∧ run.ticketId = t

/-- Some other process attends to the run. -/
def AttendedBeside (w : World) (i : WorkerId) (t : TicketId) (key : IdempotencyKey) : Prop :=
  ∃ j, j ≠ i ∧ (w.procs j).Attends t key

/-- The run of a settled task would be lost if process `i` stopped here: no claim will return its
row, and nobody else attends to it. -/
def Abandons (w : World) (i : WorkerId) : Prop :=
  ∃ t key, (w.procs i).Attends t key ∧ (∃ r, w.shared.db.run t = some r ∧ r.Dormant) ∧
    ParkedOnSettled w.shared t key ∧ ¬ AttendedBeside w i t key

/-- The call makes the row dormant although the thread is parked on a settled task and nobody else
attends to the run. -/
def Overwrites (w : World) (i : WorkerId) : Prop :=
  ∃ s key, (w.procs i).saves = some s ∧ s.status.terminal = true ∧ s.wakeupAt = none ∧
    ParkedOnSettled w.shared s.ticketId key ∧ ¬ AttendedBeside w i s.ticketId key

/-- The node a process has run raised. -/
def Proc.Raises (p : Proc) : Prop := ∃ inv error, p.invocation = some inv ∧ inv.result = some (.raise error)

/-- No `save_run` overwrites a wake-up, and no process that crashes or raises abandons a run.
Retention, which deletes rows, is not among the interleaved actions. -/
def Unlost (w : World) (i : WorkerId) : Action → Prop
  | .advance => ¬ Overwrites w i ∧ ((w.procs i).Raises → ¬ Abandons w i)
  | .crash => ¬ Abandons w i
  | .runRetention _ => False
  | _ => True

theorem Unlost.unswept {w : World} {i : WorkerId} {a : Action} (h : Unlost w i a) : Unswept w i a := by
  cases a with
  | runRetention maxAge => exact h
  | _ => trivial

variable {sh sh' : Shared} {w : World} {i : WorkerId} {p p' : Proc} {a : Action} {t : TicketId}
  {key : IdempotencyKey}

/-! ## How a row, a task and a process get there -/

theorem RunChange.dormant {r' : WorkflowRun} (h : RunChange sh i p a sh' p' t)
    (hJ : RowSound sh p) (hr' : sh'.db.run t = some r') (hd : r'.Dormant) :
    (∃ r, sh.db.run t = some r ∧ r.Dormant) ∨
    ∃ s, p.saves = some s ∧ s.ticketId = t ∧ a = .advance ∧ s.status.terminal = true ∧
      s.wakeupAt = none := by
  cases h with
  | same heq => exact .inl ⟨r', heq.symm.trans hr', hd⟩
  | claimed hp ha hr hc hp' heq hlog =>
    rw [hr'] at heq
    cases heq
    have hnot := exists_claimable_iff.mp ⟨sh.db.now, le_rfl, hc⟩
    exact absurd hd hnot
  | saved hs ht ha hp' heq hlog =>
    obtain ⟨r, hr, rfl⟩ := Option.map_eq_some_iff.mp (heq.symm.trans hr')
    exact .inr ⟨_, hs, ht, ha, hd.1, hd.2⟩
  | woken hp ht ha hp' heq hlog =>
    obtain ⟨r, hr, rfl⟩ := Option.map_eq_some_iff.mp (heq.symm.trans hr')
    exact (nomatch hd.2)
  | accepted hp ha hr hst heq hlog =>
    rw [hr'] at heq
    cases heq
    exact (nomatch hd.2)
  | reclaimed hp hr he hlt heq hlog =>
    rw [hr'] at heq
    cases heq
    exact .inl ⟨_, hr, hd⟩
  | created hc ha hnone heq hlog =>
    rw [hr'] at heq
    cases heq
    rcases hJ.creates t _ hc with hterm | hsome
    · exact absurd hd.1 (Bool.eq_false_iff.mp hterm)
    · rw [hnone] at hsome
      cases hsome
  | archived hp ha hr harch heq hlog =>
    rw [heq] at hr'
    cases hr'

theorem Node.write_redispatch {n : Node} {s : TicketState} {resumes : List Resume}
    {taskType : TaskType} {workflowId : TicketId} {payload : TaskPayload}
    (h : n.write s resumes = some (.redispatch taskType workflowId payload)) :
    workflowId = s.ticket.id := by
  have await : ∀ {ty payload₀}, awaitWrite ty s.ticket.id payload₀ resumes =
      some (.redispatch taskType workflowId payload) → workflowId = s.ticket.id := by
    intro ty payload₀ hw
    unfold awaitWrite at hw
    split at hw
    · cases hw
      rfl
    · cases hw
  cases n with
  | awaitClassify => exact await h
  | awaitDraft =>
    obtain ⟨c, -, hw⟩ := Option.bind_eq_some_iff.mp h
    exact await hw
  | dispatchDraft =>
    obtain ⟨c, -, hw⟩ := Option.map_eq_some_iff.mp h
    cases hw
  | execute =>
    obtain ⟨reply, -, hw⟩ := Option.bind_eq_some_iff.mp h
    obtain ⟨c, -, hw⟩ := Option.map_eq_some_iff.mp hw
    cases hw
  | _ => cases h

/-- A task comes to be settled by a worker that will wake its run, or by a redispatch. -/
theorem TaskChange.settled {task' : QueuedTask} (h : TaskChange sh i p a sh' p' key)
    (hD : DeliverySound sh p) (hr' : sh'.db.task key = some task')
    (hst : task'.status = .done ∨ task'.status = .failed) :
    (∃ task, sh.db.task key = some task ∧ (task.status = .done ∨ task.status = .failed)) ∨
    (∃ task, p' = .worker (.waking task) ∧ task.idempotencyKey = key) ∨
    ∃ (dr : Driver) (inv : Invocation), p = dr.driving inv ∧ p'.holds = p.holds ∧
      ∃ taskType, key = .agent inv.checkpoint.values.ticket.id taskType := by
  cases h with
  | same he => exact .inl ⟨task', he.symm.trans hr', hst⟩
  | inserted hp ha hr hn hw hp' hlog hins hnone he =>
    rw [hr'] at he
    cases he
    rcases hst with hst | hst <;> cases hst
  | cancelled hp ha hr hn hw hp' hkey ht hpend he =>
    rename_i dr inv n taskType workflowId payload r
    refine .inr (.inr ⟨dr, inv, hp, ?_, taskType, ?_⟩)
    · rw [hp, hp']
      exact Proc.holds_driving_eq ..
    · rw [hkey, Node.write_redispatch hw]
  | leased hp ha ht hdue hp' he =>
    rw [hr'] at he
    cases he
    rcases hst with hst | hst <;> cases hst
  | completed hp ha ht hs hp' he hlog =>
    have hsame := (hD _ hp).2.settles rfl ht hs
    exact .inr (.inl ⟨_, hp', hsame.key.trans (Database.task_eq_some ht).2⟩)
  | failed hp ha ht hs hp' he =>
    rename_i task error permanent r
    have hsame := (hD _ hp).2.settles rfl ht hs
    rw [hr'] at he
    cases he
    by_cases hret : Taskqueue.Retries permanent r
    · simp only [Taskqueue.failRow, if_pos hret] at hst
      rcases hst with hst | hst <;> cases hst
    · rw [if_neg hret] at hp'
      exact .inr (.inl ⟨task, hp', hsame.key.trans (Database.task_eq_some ht).2⟩)
  | reclaimed hp ha ht hx he =>
    rw [hr'] at he
    cases he
    rcases hst with hst | hst <;> cases hst
  | pruned hp ha ht hst₀ he =>
    rw [hr'] at he
    cases he

theorem Envelope.For.ticket {env : Envelope} (h : env.For t)
    (hk : env.idempotencyKey = some key) : key.ticket = t := by
  obtain ⟨s, n, resumes, hs, hsus⟩ := h
  cases hsus with
  | approval hw hd => cases hk
  | @classifyAgain redispatched =>
    cases hk
    cases redispatched <;> exact hs
  | @draftAgain c redispatched hc =>
    cases hk
    cases redispatched <;> exact hs
  | _ =>
    cases hk
    exact hs

/-- A worker wakes the run it has settled a task of, unless it crashes first. -/
theorem Effect.wakes {task : QueuedTask} (h : Effect sh i p a sh' p')
    (hp : p = .worker (.waking task)) :
    p' = .worker (.waking task) ∨ a = .crash ∨ sh' = sh.commit (Db.wakeRun task.workflowId sh.db) := by
  cases h with
  | tick elapsed => exact .inl hp
  | woken =>
    cases hp
    exact .inr (.inr rfl)
  | @ran dr inv n db result hr hn hrun => cases dr <;> cases hp
  | @put dr inv values next hr hn => cases dr <;> cases hp
  | @suspended dr inv env hr => cases dr <;> cases hp
  | quiet h =>
    cases h with
    | crash => exact .inr (.inl rfl)
    | @ended dr inv hr hn => cases dr <;> cases hp
    | @raised dr inv error hr => cases dr <;> cases hp
    | raises hact hperm =>
      cases hp
      cases hact
    | missed hpc hno =>
      cases hp
      rcases hpc with ⟨_, hpc⟩ | ⟨_, _, hpc⟩ <;> cases hpc
    | _ => cases hp
  | _ => cases hp

/-- A runner keeps hold of its run, unless it crashes, saves, raises or finds no thread. -/
theorem Effect.keepsHold {run : WorkflowRun} (h : Effect sh i p a sh' p') (hold : p.holds = some run) :
    p'.holds = some run ∨ a = .crash ∨
    (∃ s, p.saves = some s ∧ s.ticketId = run.ticketId ∧ a = .advance) ∨
    (p.Raises ∧ a = .advance) ∨ sh.checkpoints.get run.ticketId = none := by
  cases h with
  | tick elapsed => exact .inl hold
  | ran hr hn hrun => exact .inl ((Proc.holds_driving_eq ..).trans hold)
  | put hr hn => exact .inl ((Proc.holds_driving_eq ..).trans hold)
  | suspended hr => exact .inl ((Proc.holds_driving ..).trans hold)
  | released =>
    cases hold
    exact .inr (.inr (.inl ⟨_, rfl, rfl, rfl⟩))
  | saved =>
    cases hold
    exact .inr (.inr (.inl ⟨_, rfl, rfl, rfl⟩))
  | quiet h =>
    cases h with
    | crash => exact .inr (.inl rfl)
    | ended hr hn => exact .inl ((Proc.holds_driving ..).trans hold)
    | raised hr => exact .inr (.inr (.inr (.inl ⟨⟨_, _, Proc.invocation_driving .., hr⟩, rfl⟩)))
    | emptyInput hcp =>
      cases hold
      exact .inr (.inr (.inr (.inr hcp)))
    | unparked he => exact .inl hold
    | inspected hcp henv => exact .inl hold
    | unready hr => exact .inl hold
    | ready hr => exact .inl hold
    | resumed hcp => exact .inl hold
    | _ => cases hold
  | _ => cases hold

/-! ## One action -/

theorem AttendedBeside.attended {sh' : Shared} (h : AttendedBeside w i t key) :
    ∃ j, ((⟨sh', Function.update w.procs i p'⟩ : World).procs j).Attends t key := by
  obtain ⟨j, hj, hatt⟩ := h
  refine ⟨j, ?_⟩
  simpa [Function.update_of_ne hj] using hatt

theorem Effect.saves_row {s : Save} (h : Effect sh i p .advance sh' p') (hs : p.saves = some s) :
    sh'.db.run s.ticketId =
      (sh.db.run s.ticketId).map (Db.saveRunRow s.status s.wakeupAt sh.db.now) ∧
    sh'.checkpoints = sh.checkpoints ∧ ∀ key, sh'.db.task key = sh.db.task key := by
  cases h with
  | released =>
    cases hs
    exact ⟨run_saveRun.trans (if_pos rfl), rfl, fun _ => rfl⟩
  | saved =>
    cases hs
    exact ⟨run_saveRun.trans (if_pos rfl), rfl, fun _ => rfl⟩
  | ran hr hn hrun => simp at hs
  | put hr hn => simp at hs
  | suspended hr => simp at hs
  | quiet h =>
    cases h with
    | ended hr hn => simp at hs
    | raised hr => simp at hs
    | _ => cases hs
  | _ => cases hs

theorem Unlost.beside {s : Save} (hok : Unlost w i .advance) (hs : (w.procs i).saves = some s)
    (hterm : s.status.terminal = true) (hnone : s.wakeupAt = none)
    (hpark : ParkedOnSettled w.shared s.ticketId key) : AttendedBeside w i s.ticketId key := by
  by_contra hno
  exact hok.1 ⟨s, key, hs, hterm, hnone, hpark, hno⟩

/-- Every settled task whose run is dormant is attended to. -/
def Attended (w : World) : Prop := ∀ t key r, w.shared.db.run t = some r → r.Dormant →
  ParkedOnSettled w.shared t key → ∃ j, (w.procs j).Attends t key

theorem Attended.still {r r' : WorkflowRun} (h : Attended w) (hok : Unlost w i a)
    (hP : ∀ j, DeliverySound w.shared (w.procs j)) (hT : ThreadsSound w.shared.checkpoints)
    (he : Effect w.shared i (w.procs i) a sh' p') (hr : w.shared.db.run t = some r)
    (hd : r.Dormant) (hpark : ParkedOnSettled w.shared t key)
    (hr' : sh'.db.run t = some r') (hd' : r'.Dormant) :
    ∃ j, ((⟨sh', Function.update w.procs i p'⟩ : World).procs j).Attends t key := by
  obtain ⟨j, hatt⟩ := h t key r hr hd hpark
  by_cases hij : j = i
  swap
  · exact AttendedBeside.attended ⟨j, hij, hatt⟩
  subst hij
  have self : p'.Attends t key →
      ∃ k, ((⟨sh', Function.update w.procs j p'⟩ : World).procs k).Attends t key := fun hp' =>
    ⟨j, by simpa using hp'⟩
  -- a process may only leave the run when somebody else attends to it
  have leaves : ¬ Abandons w j →
      ∃ k, ((⟨sh', Function.update w.procs j p'⟩ : World).procs k).Attends t key := by
    intro hno
    by_contra hnone
    exact hno ⟨t, key, hatt, ⟨r, hr, hd⟩, hpark, fun hb => hnone hb.attended⟩
  rcases hatt with ⟨task, hp, hkey⟩ | ⟨run, hold, rfl⟩
  · rcases he.wakes hp with hp' | rfl | rfl
    · exact self (.inl ⟨task, hp', hkey⟩)
    · exact leaves hok
    · -- the wake-up sets the timer
      exfalso
      obtain ⟨cp, env, row, hcp, henv, hk, -⟩ := hpark
      obtain ⟨hs, -⟩ := hT t cp hcp
      obtain ⟨n, -, hsus⟩ := hs.parked env henv
      have hticket : key.ticket = t := Envelope.For.ticket
        ⟨_, n, _, hs.ticket.trans (Checkpoints.threadId_of_get hcp), hsus⟩ hk
      have hwf : task.workflowId = t := by
        rw [(((hP j _ hp).1 task rfl).1).workflow, hkey, hticket]
      have hrow : (w.shared.commit (Db.wakeRun task.workflowId w.shared.db)).db.run t = _ := run_wakeRun
      rw [if_pos hwf.symm, hr, hr'] at hrow
      cases hrow
      exact (nomatch hd'.2)
  · rcases he.keepsHold hold with hp' | rfl | ⟨s, hs, ht, rfl⟩ | ⟨hraise, rfl⟩ | hnone
    · exact self (.inr ⟨run, hp', rfl⟩)
    · exact leaves hok
    · obtain ⟨hrow, -⟩ := he.saves_row hs
      rw [ht, hr, hr'] at hrow
      cases hrow
      rw [← ht] at hpark ⊢
      exact (hok.beside hs hd'.1 hd'.2 hpark).attended
    · exact leaves (hok.2 hraise)
    · obtain ⟨cp, env, row, hcp, -⟩ := hpark
      rw [hnone] at hcp
      cases hcp

/-- A thread comes to be parked on a settled task while somebody attends to it. -/
theorem parked_before (hD : DeliverySound w.shared (w.procs i))
    (hT : ThreadsSound w.shared.checkpoints) (hk : Taskqueue.Keys w.shared.db)
    (hS : SeedsOwned w) (hs : ¬ (w.procs i).Sweeping)
    (hP : (w.procs i).ThreadSound w.shared.checkpoints)
    (he : Effect w.shared i (w.procs i) a sh' p')
    {r : WorkflowRun} (hr : w.shared.db.run t = some r) (hd : r.Dormant)
    (hpark : ParkedOnSettled sh' t key) : ParkedOnSettled w.shared t key ∨ p'.Attends t key := by
  obtain ⟨cp, env, task, hcp, henv, hkey, htask, hst⟩ := hpark
  have hthread : w.shared.checkpoints.get t = some cp ∨ p'.Attends t key := by
    cases he.threadChange t with
    | same heq => exact .inl (heq.symm.trans hcp)
    | created hp ha ht hf hdb hlog hseq heq =>
      rw [hcp] at heq
      cases heq
      cases henv
    | put hp ha ht hr' hn hp' hdb hlog hseq heq =>
      rw [hcp] at heq
      cases heq
      cases henv
    | suspended hp ha ht hr' hcp₀ hid hp' hdb hlog heq =>
      rename_i dr inv env₀ cp₀
      right
      cases dr with
      | createTicket =>
        -- a thread before its first interrupt has no dormant row
        obtain ⟨hown, hun⟩ := (hS.knows i).owned inv hp
        rw [ht] at hown
        have hterm := hS.unparked t _ r hown hun hr
        rw [hd.1] at hterm
        cases hterm
      | step run resume =>
        rw [hp] at hP
        exact .inr ⟨run, by rw [hp']; rfl, hP.1.symm.trans ht⟩
    | deleted hp ha heq =>
      rw [hp] at hs
      exact absurd trivial hs
  rcases hthread with hcp₀ | hatt
  swap
  · exact .inr hatt
  rcases (he.taskChange hk key).settled hD htask hst with ⟨task₀, ht₀, hst₀⟩ | hwake |
    ⟨dr, inv, hp, hholds, taskType, hkind⟩
  · exact .inl ⟨cp, env, task₀, hcp₀, henv, hkey, ht₀, hst₀⟩
  · exact .inr (.inl hwake)
  · right
    obtain ⟨hsound, -⟩ := hT t cp hcp₀
    obtain ⟨n, -, hsus⟩ := hsound.parked env henv
    have hticket : key.ticket = t := Envelope.For.ticket
      ⟨_, n, _, hsound.ticket.trans (Checkpoints.threadId_of_get hcp₀), hsus⟩ hkey
    rw [hkind] at hticket
    have hinv := hP
    rw [hp] at hinv
    have hthread : inv.checkpoint.threadId = t :=
      (Proc.ThreadSound.invocation hinv).checkpoint.ticket.symm.trans hticket
    cases dr with
    | createTicket =>
      obtain ⟨hown, hun⟩ := (hS.knows i).owned inv hp
      rw [hthread, hcp₀] at hown
      cases hown
      rw [hun.2] at henv
      cases henv
    | step run resume =>
      refine .inr ⟨run, ?_, hinv.1.symm.trans hthread⟩
      rw [hholds, hp]
      rfl

theorem Attended.effect (h : Attended w) (hok : Unlost w i a)
    (hD : ∀ j, DeliverySound w.shared (w.procs j)) (hT : ThreadsSound w.shared.checkpoints)
    (hk : Taskqueue.Keys w.shared.db) (hn : RunKeys w.shared.db) (hS : SeedsOwned w)
    (hs : ¬ (w.procs i).Sweeping) (hP : (w.procs i).ThreadSound w.shared.checkpoints)
    (hJ : RowSound w.shared (w.procs i)) (he : Effect w.shared i (w.procs i) a sh' p') :
    Attended ⟨sh', Function.update w.procs i p'⟩ := by
  intro t key r' hr' hd' hpark'
  rcases (he.runChange hn t).dormant hJ hr' hd' with ⟨r, hr, hd⟩ | ⟨s, hsv, rfl, rfl, hterm, hnone⟩
  · rcases parked_before (hD i) hT hk hS hs hP he hr hd hpark' with hpark | hatt
    · exact h.still hok hD hT he hr hd hpark hr' hd'
    · exact ⟨i, by simpa using hatt⟩
  · -- the overwriting call leaves the thread and the task alone
    obtain ⟨-, hcps, htasks⟩ := he.saves_row hsv
    obtain ⟨cp, env, task, hcp, henv, hkey, htask, hst⟩ := hpark'
    have hpark : ParkedOnSettled w.shared s.ticketId key :=
      ⟨cp, env, task, hcps ▸ hcp, henv, hkey, (htasks key).symm.trans htask, hst⟩
    exact (hok.beside hsv hterm hnone hpark).attended

theorem attended {w : World} (hw : World.ReachableWhen Unlost w) : Attended w := by
  refine World.ReachableWhen.worldInvariant (I := Attended) (fun _ _ _ h => nomatch h) ?_ hw
  intro w i a sh' p' hr hok h he
  have hok' : ∀ w i a, Unlost w i a → Unswept w i a := fun _ _ _ => Unlost.unswept
  obtain ⟨hT, hP⟩ := World.Reachable.threads hr.reachable
  obtain ⟨hR, hJ⟩ := World.ReachableWhen.rows hok' hr
  obtain ⟨hQ, hD⟩ := World.Reachable.tasks hr.reachable
  exact h.effect hok hD hT hQ.keys hR.keys (World.ReachableWhen.seeds hok' hr)
    (World.ReachableWhen.not_sweeping hok' hr i) (hP i) (hJ i) he

/-! ## Wake-ups are not lost -/

/-- The run is claimable now or by the mere passage of time; where `create_run` has not come yet,
the row `reconcile_orphaned_runs` inserts is. -/
def Wakeable (sh : Shared) (t : TicketId) : Prop :=
  (∀ r, sh.db.run t = some r → ∃ later, sh.db.now ≤ later ∧ Db.Claimable later r) ∧
    (sh.db.run t = none → ∀ cp, sh.checkpoints.get t = some cp → ∃ later, sh.db.now ≤ later ∧
      Db.Claimable later (Db.newRun t cp.values.status cp.values.wakeupAt sh.db.now))

theorem Effect.stops (h : Effect sh i p .advance sh' p') (hr : p.Raises) : sh' = sh ∧ p' = .idle := by
  obtain ⟨inv, error, hinv, hres⟩ := hr
  cases h with
  | @ran dr inv₀ n db result hr hn hrun =>
    rw [Proc.invocation_driving] at hinv
    cases hinv
    rw [hr] at hres
    cases hres
  | @put dr inv₀ values next hr hn =>
    rw [Proc.invocation_driving] at hinv
    cases hinv
    rw [hr] at hres
    cases hres
  | @suspended dr inv₀ env hr =>
    rw [Proc.invocation_driving] at hinv
    cases hinv
    rw [hr] at hres
    cases hres
  | quiet h =>
    cases h with
    | @ended dr inv₀ hr hn =>
      rw [Proc.invocation_driving] at hinv
      cases hinv
      rw [hr] at hres
      cases hres
    | raised hr => exact ⟨rfl, rfl⟩
    | _ => cases hinv
  | _ => cases hinv

/-- A dormant run whose thread is parked on a settled task is lost once nobody attends to it. -/
theorem lost_of_idle {r : WorkflowRun} (hr : sh'.db.run t = some r) (hd : r.Dormant)
    (hpark : ParkedOnSettled sh' t key) (hno : ¬ AttendedBeside w i t key) :
    ∃ t key, ParkedOnSettled sh' t key ∧
      (∀ j, ¬ (Function.update w.procs i .idle j).Attends t key) ∧ ¬ Wakeable sh' t := by
  refine ⟨t, key, hpark, fun j hatt => ?_, fun hwake => exists_claimable_iff.mp (hwake.1 r hr) hd⟩
  by_cases hj : j = i
  · subst hj
    rw [Function.update_self] at hatt
    rcases hatt with ⟨task, hp, -⟩ | ⟨run, hp, -⟩ <;> cases hp
  · rw [Function.update_of_ne hj] at hatt
    exact hno ⟨j, hj, hatt⟩

theorem Proc.holds_of_saves {s : Save} (h : p.saves = some s) :
    ∃ run, p.holds = some run ∧ run.ticketId = s.ticketId := by
  unfold Proc.saves at h
  split at h
  · cases h
    exact ⟨_, rfl, rfl⟩
  · cases h
    exact ⟨_, rfl, rfl⟩
  · cases h

/-- In a run where no call overwrites a wake-up and nobody stops on a run nobody else attends to, a
thread parked on a settled task has a wakeable run as soon as it is unattended; and any other step
loses one. -/
theorem no_lost_wakeup {w : World} (hw : World.ReachableWhen Unlost w) :
    (∀ t key, ParkedOnSettled w.shared t key → (∀ j, ¬ (w.procs j).Attends t key) →
      Wakeable w.shared t) ∧
    ∀ i a w', Unswept w i a → w.next Proc.step i a = some w' → ¬ Unlost w i a →
      ∃ t key, ParkedOnSettled w'.shared t key ∧ (∀ j, ¬ (w'.procs j).Attends t key) ∧
        ¬ Wakeable w'.shared t := by
  obtain ⟨hR, hJ⟩ := World.ReachableWhen.rows (fun _ _ _ => Unlost.unswept) hw
  constructor
  · intro t key hpark hidle
    refine ⟨fun r hr => exists_claimable_iff.mpr fun hd => ?_, fun hno cp hcp => ?_⟩
    · obtain ⟨j, hatt⟩ := attended hw t key r hr hd hpark
      exact hidle j hatt
    · obtain ⟨hT, -⟩ := World.Reachable.threads hw.reachable
      have hterm := (hR.orphan t cp hcp hno).status (hT t cp hcp).1.state
      refine exists_claimable_iff.mpr fun hd => ?_
      exact Bool.eq_false_iff.mp hterm hd.1
  · intro i a w' hun hn hlost
    obtain ⟨sh', p', hp, rfl⟩ := Config.next_eq_some hn
    have he := effect_of_step hp
    cases a with
    | runRetention maxAge => exact hun.elim
    | crash =>
      cases hp
      obtain ⟨t, key, -, ⟨r, hr, hd⟩, hpark, hno⟩ := not_not.mp hlost
      exact lost_of_idle hr hd hpark hno
    | advance =>
      rcases not_and_or.mp hlost with hover | hraise
      · obtain ⟨s, key, hs, hterm, hnone, hpark, hno⟩ := not_not.mp hover
        obtain ⟨run, hold, ht⟩ := Proc.holds_of_saves hs
        obtain ⟨r, hr⟩ := Option.isSome_iff_exists.mp ((hJ i).holds run hold).1
        obtain ⟨hrow, hcps, htasks⟩ := he.saves_row hs
        rw [← ht, hr] at hrow
        obtain ⟨cp, env, task, hcp, henv, hkey, htask, hst⟩ := hpark
        rw [he.idle_of_saves hs]
        refine lost_of_idle hrow ⟨hterm, hnone⟩ ⟨cp, env, task, ?_, henv, hkey, ?_, hst⟩ (ht ▸ hno)
        · rw [hcps, ht, hcp]
        · rw [htasks, htask]
      · obtain ⟨hraises, hab⟩ := Classical.not_imp.mp hraise
        obtain ⟨rfl, rfl⟩ := he.stops hraises
        obtain ⟨t, key, -, ⟨r, hr, hd⟩, hpark, hno⟩ := not_not.mp hab
        exact lost_of_idle hr hd hpark hno
    | _ => exact absurd trivial hlost

/-- The thread of ticket 7 is parked on a settled task, and the processes below 4 are idle. -/
def parkedIdle (w : World) : Bool :=
  decide (∃ cp ∈ w.shared.checkpoints.get 7, ∃ env ∈ cp.interrupt, ∃ key ∈ env.idempotencyKey,
    ∃ task ∈ w.shared.db.task key, task.status = .done ∨ task.status = .failed) &&
  (List.range 4).all fun j => decide (w.procs j = .idle)

/-- A schedule of the processes below 4 that leaves a thread parked on a settled task. -/
theorem exists_parked_of_run {ok : World → WorkerId → Action → Prop} [∀ w i a, Decidable (ok w i a)]
    {acts : Schedule} {q : World → Bool} (hacts : acts.all (·.1 < 4) = true)
    (h : (World.initial.runWhen Proc.step ok acts).map (fun w => parkedIdle w && q w) = some true) :
    ∃ w key, World.ReachableWhen ok w ∧ ParkedOnSettled w.shared 7 key ∧
      (∀ j, ¬ (w.procs j).Attends 7 key) ∧ q w = true := by
  obtain ⟨w, hrun, hp⟩ := Option.map_eq_some_iff.mp h
  simp only [parkedIdle, Bool.and_eq_true, decide_eq_true_eq, List.all_eq_true, List.mem_range] at hp
  obtain ⟨⟨⟨cp, hcp, env, henv, key, hkey, task, htask, hst⟩, hidle⟩, hq⟩ := hp
  refine ⟨w, key, Config.runWhen_reachable (.init rfl) hrun, ⟨cp, env, task, hcp, henv, hkey, htask,
    hst⟩, fun j hatt => ?_, hq⟩
  have hj : w.procs j = .idle := by
    by_cases hlt : j < 4
    · exact hidle j hlt
    · refine Config.runWhen_procs hrun fun hm => hlt ?_
      obtain ⟨⟨k, a⟩, hmem, rfl⟩ := List.mem_map.mp hm
      simpa using List.all_eq_true.mp hacts _ hmem
  rw [hj] at hatt
  rcases hatt with ⟨task, hp, -⟩ | ⟨run, hp, -⟩ <;> cases hp

/-- The key of the task whose worker is between settling it and its `wake_run`. -/
def Proc.settles : Proc → Option IdempotencyKey
  | .worker (.waking task) => some task.idempotencyKey
  | _ => none

def Proc.raised (p : Proc) : Bool := p.invocation.any fun inv =>
  match inv.result with
  | some (.raise _) => true
  | _ => false

/-- A decidable condition that implies `Unlost`: nobody crashes or raises, no sweep starts, and a
terminal status is saved without a timer only while the worker of the task the thread is parked on
has yet to wake the run. -/
def Watched (w : World) (i : WorkerId) : Action → Prop
  | .advance => (w.procs i).raised = false ∧ ∀ s ∈ (w.procs i).saves,
      s.status.terminal = true → s.wakeupAt = none →
      ∀ cp ∈ w.shared.checkpoints.get s.ticketId, ∀ env ∈ cp.interrupt,
        ∀ key ∈ env.idempotencyKey, ∃ j < 4, j ≠ i ∧ (w.procs j).settles = some key
  | .crash | .runRetention _ => False
  | _ => True

instance (w : World) (i : WorkerId) : DecidablePred (Watched w i)
  | .advance => inferInstanceAs (Decidable (_ = false ∧ ∀ s ∈ (w.procs i).saves, _))
  | .crash => isFalse id
  | .runRetention _ => isFalse id
  | .tick _ | .createTicket _ | .submitApproval _ _ | .claimRun _ | .dequeue _ _
  | .activityReturns _ | .activityRaises _ _ | .reclaimExpiredLeases | .reconcileOrphanedRuns =>
    isTrue trivial

theorem Proc.attends_of_settles (h : p.settles = some key) : p.Attends t key := by
  unfold Proc.settles at h
  split at h
  · cases h
    exact .inl ⟨_, rfl, rfl⟩
  · cases h

theorem Watched.unlost (h : Watched w i a) : Unlost w i a := by
  cases a with
  | advance =>
    obtain ⟨hraised, hsaves⟩ := h
    constructor
    · rintro ⟨s, key, hs, hterm, hnone, ⟨cp, env, task, hcp, henv, hkey, -⟩, hno⟩
      obtain ⟨j, -, hne, hj⟩ := hsaves s hs hterm hnone cp hcp env henv key hkey
      exact hno ⟨j, hne, Proc.attends_of_settles hj⟩
    · rintro ⟨inv, error, hinv, hr⟩
      rw [Proc.raised, hinv, Option.any_some, hr] at hraised
      cases hraised
  | crash => exact h.elim
  | runRetention maxAge => exact h
  | _ => trivial

/-- The finalize task of the escalated ticket is done before the `save_run` of the step that
enqueued it, which writes the `NULL` timer; its worker wakes the run after that. -/
theorem no_lost_wakeup_beside : ∃ w key, World.ReachableWhen Unlost w ∧
    ParkedOnSettled w.shared 7 key ∧ (∀ j, ¬ (w.procs j).Attends 7 key) ∧ Wakeable w.shared 7 := by
  have hrun : (World.initial.runWhen Proc.step Watched (Schedule.drafted Schedule.riskyDraft 12 ++
      [(0, .tick (seconds 86401))] ++ Schedule.step 2 7 ++
      [(3, .dequeue .taskQueue Schedule.unlocked)] ++ Schedule.advance 3 4 ++
      Schedule.advance 2 1 ++ Schedule.advance 3 1)).map (fun w => parkedIdle w && true) =
        some true := by
    decide +kernel
  obtain ⟨w, key, hw, hpark, hidle, -⟩ := exists_parked_of_run (by decide) hrun
  have hw' : World.ReachableWhen Unlost w := hw.mono fun _ _ _ => Watched.unlost
  exact ⟨w, key, hw', hpark, hidle, (no_lost_wakeup hw').1 7 key hpark hidle⟩

/-- The finalize task of an escalated ticket is done before the `save_run` of the step that enqueued
it, so the `NULL` timer overwrites the wake-up. -/
theorem wakeup_overwritten : ¬ ∀ w, World.Reachable w → ∀ t key, ParkedOnSettled w.shared t key →
    (∀ j, ¬ (w.procs j).Attends t key) → Wakeable w.shared t := by
  intro h
  have hrun : (World.initial.run Proc.step (Schedule.drafted Schedule.riskyDraft 12 ++
      [(0, .tick (seconds 86401))] ++ Schedule.step 2 7 ++
      [(3, .dequeue .taskQueue Schedule.unlocked)] ++ Schedule.advance 3 5 ++
      Schedule.advance 2 1)).map (fun w => parkedIdle w &&
        decide (∃ r ∈ w.shared.db.run 7, r.Dormant)) = some true := by
    decide +kernel
  obtain ⟨w, key, hw, hpark, hidle, hq⟩ := exists_parked_of_run (by decide) hrun
  obtain ⟨r, hr, hd⟩ := of_decide_eq_true hq
  exact exists_claimable_iff.mp ((h w hw 7 key hpark hidle).1 r hr) hd

end TicketFlow
