import TicketFlow.Deliveries
import TicketFlow.Loops
import TicketFlow.Releases

/-! # Who holds a lease

A lease names its owner and nobody reads the name. Where a process is never broken off, the rows that
name it are the ones it is working on, so that a process which has come to its end has left no lease
behind and a worker's leases are no more than its `max_concurrent`. -/

namespace TicketFlow
open Table Interleaving
set_option autoImplicit false

/-- The leased task a worker has still to settle. -/
def Proc.handles : Proc → Option QueuedTask
  | .worker (.leased task) | .worker (.refunding task _ _) | .worker (.checking task _)
  | .worker (.replying task _ _) | .worker (.recording task _) | .worker (.completing task _)
  | .worker (.failing task _ _) => some task
  | _ => none

/-- The step ends in the middle of what the process is doing: a crash, or an exception that leaves a
runner's `ainvoke`. -/
def Broken (w : World) (i : WorkerId) : Action → Prop
  | .crash => True
  | .advance =>
    (∃ run v, w.procs i = .runner (.resuming run v) ∧
      w.shared.checkpoints.get run.ticketId = none) ∨
    ∃ run v inv e, w.procs i = .runner (.invoking run v inv) ∧ inv.result = some (.raise e)
  | _ => False

/-- Process `i` is never broken off. -/
def Unbroken (i : WorkerId) (w : World) (j : WorkerId) (a : Action) : Prop := j = i → ¬ Broken w j a

/-- A row that names an owner is leased. -/
def OwnersLease (db : Database) : Prop := ∀ r ∈ db.taskQueue, r.leaseOwner.isSome → r.status = .leased

variable {sh sh' : Shared} {w : World} {i j : WorkerId} {p p' : Proc} {a : Action} {t : TicketId}
  {task r : QueuedTask} {key : IdempotencyKey}

/-! ## Tasks -/

theorem Worker.handles_start (task : QueuedTask) :
    (Proc.worker (Worker.startFinalize task)).handles = some task := by
  unfold Worker.startFinalize
  split
  · rfl
  · split
    · split
      · split <;> rfl
      · rfl
    · rfl
    · rfl

/-- A worker goes on with its task, is broken off, or leaves it settled. -/
theorem Effect.handles (he : Effect sh i p a sh' p') (hp : p.handles = some task) :
    p'.handles = some task ∨ a = .crash ∨ ∀ r ∈ sh'.db.taskQueue, ¬ Taskqueue.Settles task.id r := by
  cases he with
  | tick elapsed => exact .inl hp
  | ran hr hn hrun => rename_i dr inv n db result; cases dr <;> cases hp
  | put hr hn => rename_i dr inv values next; cases dr <;> cases hp
  | suspended hr => rename_i dr inv env; cases dr <;> cases hp
  | refunded => exact .inl hp
  | replied hs => exact .inl hp
  | recorded => exact .inl hp
  | completed hm hs =>
    cases hp
    refine .inr (.inr fun r hr hset => ?_)
    rcases mem_updateWhere.mp hr with ⟨r₀, -, -, rfl⟩ | ⟨-, hno⟩
    · cases hset.2
    · exact hno hset
  | failed hm hs hf =>
    cases hp
    refine .inr (.inr fun r hr hset => ?_)
    rcases mem_updateWhere.mp hr with ⟨r₀, -, -, rfl⟩ | ⟨-, hno⟩
    · have hst := hset.2
      unfold Taskqueue.failRow at hst
      split at hst <;> cases hst
    · exact hno hset
  | quiet hl =>
    cases hl with
    | crash => exact .inr (.inl rfl)
    | ended hr hn => rename_i dr inv; cases dr <;> cases hp
    | raised hr => rename_i dr inv error; cases dr <;> cases hp
    | answered hno hans => exact .inl hp
    | @raises pc task' error permanent hact hperm =>
      left
      unfold Worker.Pc.activity at hact
      split at hact <;> cases hact <;> exact hp
    | started hrun =>
      cases hp
      exact .inl (Worker.handles_start _)
    | checked => exact .inl hp
    | missed hpc hno =>
      rcases hpc with ⟨result, rfl⟩ | ⟨error, permanent, rfl⟩ <;> cases hp <;>
        exact .inr (.inr hno)
    | _ => cases hp
  | _ => cases hp

theorem OwnersLease.effect (h : OwnersLease sh.db) (hk : Taskqueue.Keys sh.db)
    (he : Effect sh i p a sh' p') : OwnersLease sh'.db := by
  have hk' := he.taskKeys hk
  intro r hr howner
  have htask := task_of_mem hk' hr
  cases he.taskChange hk r.idempotencyKey with
  | same heq => exact h r (Database.task_eq_some (heq.symm.trans htask)).1 howner
  | inserted hp ha hr hn hw hp' hlog hins hno heq =>
    rw [← Option.some.inj (heq.symm.trans htask)] at howner
    cases howner
  | @cancelled _ _ _ _ _ _ r₀ hp ha hr hn hw hp' hkey ht hst heq =>
    cases heq.symm.trans htask
    have hleased := h r₀ (Database.task_eq_some ht).1 howner
    rw [hst] at hleased
    cases hleased
  | leased hp ha ht hdue hp' heq =>
    cases heq.symm.trans htask
    rfl
  | completed hp ha ht hs hp' heq hlog =>
    cases heq.symm.trans htask
    cases howner
  | failed hp ha ht hs hp' heq =>
    cases heq.symm.trans htask
    cases howner
  | reclaimed hp ha ht hx heq =>
    cases heq.symm.trans htask
    cases howner
  | pruned hp ha ht hs heq =>
    cases heq.symm.trans htask

theorem World.Reachable.ownersLease (hw : World.Reachable w) : OwnersLease w.shared.db := by
  refine (World.ReachableWhen.invariant (I := fun sh => OwnersLease sh.db) (J := fun _ _ _ => True)
    (fun r hr => nomatch hr) (fun _ => trivial) ?_ hw).1
  intro w i a sh' p' hr _ hI _ he
  exact ⟨hI.effect (World.Reachable.tasks hr.reachable).1.keys he, trivial, fun _ _ => trivial⟩

/-- The rows that name process `i` are of the task it is working on. -/
def TaskLeases (i : WorkerId) (w : World) : Prop := ∀ r ∈ w.shared.db.taskQueue,
  r.leaseOwner = some i → ∃ task, (w.procs i).handles = some task ∧ task.id = r.id

theorem TaskLeases.effect (h : TaskLeases i w) (hw : World.Reachable w) (hok : Unbroken i w j a)
    (he : Effect w.shared j (w.procs j) a sh' p') :
    TaskLeases i ⟨sh', Function.update w.procs j p'⟩ := by
  have hk := hw.tasks.1.keys
  intro r hr howner
  change r ∈ sh'.db.taskQueue at hr
  have htask := task_of_mem (he.taskKeys hk) hr
  cases he.taskChange hk r.idempotencyKey with
  | same heq =>
    have hm := (Database.task_eq_some (heq.symm.trans htask)).1
    obtain ⟨task, hhandles, hid⟩ := h r hm howner
    by_cases hij : i = j
    · subst hij
      refine ⟨task, ?_, hid⟩
      change (Function.update w.procs i p' i).handles = some task
      rw [Function.update_self]
      rcases he.handles hhandles with hkeeps | rfl | hsettled
      · exact hkeeps
      · exact absurd trivial (hok rfl)
      · exact absurd ⟨hid.symm, hw.ownersLease r hm (by rw [howner]; rfl)⟩ (hsettled r hr)
    · exact ⟨task, (congrArg Proc.handles (Function.update_of_ne hij ..)).trans hhandles, hid⟩
  | inserted hp ha hr hn hw hp' hlog hins hno heq =>
    rw [← Option.some.inj (heq.symm.trans htask)] at howner
    cases howner
  | @cancelled _ _ _ _ _ _ r₀ hp ha hr hn hw' hp' hkey ht hst heq =>
    cases heq.symm.trans htask
    have hleased := hw.ownersLease r₀ (Database.task_eq_some ht).1 (by
      rw [show r₀.leaseOwner = some i from howner]
      rfl)
    rw [hst] at hleased
    cases hleased
  | @leased queueName locked r₀ hp ha ht hdue hp' heq =>
    cases heq.symm.trans htask
    cases howner
    refine ⟨Db.leaseTask i w.shared.db.now r₀, ?_, rfl⟩
    change (Function.update w.procs i p' i).handles = _
    rw [Function.update_self, hp']
    rfl
  | completed hp ha ht hs hp' heq hlog =>
    cases heq.symm.trans htask
    cases howner
  | failed hp ha ht hs hp' heq =>
    cases heq.symm.trans htask
    cases howner
  | reclaimed hp ha ht hx heq =>
    cases heq.symm.trans htask
    cases howner
  | pruned hp ha ht hs heq =>
    cases heq.symm.trans htask

theorem World.ReachableWhen.taskLeases {ok : World → WorkerId → Action → Prop}
    (hok : ∀ w j a, ok w j a → Unbroken i w j a) (hw : World.ReachableWhen ok w) :
    TaskLeases i w := by
  refine World.ReachableWhen.worldInvariant (I := TaskLeases i) (fun r hr => nomatch hr) ?_ hw
  intro w j a sh' p' hr ha h he
  exact h.effect hr.reachable (hok w j a ha) he

/-! ## Runs -/

/-- A runner goes on with its run, is broken off, or leaves it released. -/
theorem Effect.holdsOn {run : WorkflowRun} (he : Effect w.shared i (w.procs i) a sh' p')
    (hp : (w.procs i).holds = some run) : p'.holds = some run ∨ Broken w i a ∨
      ∀ r, sh'.db.run run.ticketId = some r → r.leaseOwner = none := by
  have saved : ∀ {db : Database} {status : TicketStatus} {wakeupAt : Option Time}
      {consumed : Option ℕ} {r : WorkflowRun},
      (Db.saveRun run.ticketId status wakeupAt consumed db).run run.ticketId = some r →
        r.leaseOwner = none := by
    intro db status wakeupAt consumed r hr
    rw [run_saveRun, if_pos rfl] at hr
    obtain ⟨r₀, -, rfl⟩ := Option.map_eq_some_iff.mp hr
    rfl
  unfold Broken
  generalize hq : w.procs i = q at he hp ⊢
  cases he with
  | tick elapsed => exact .inl hp
  | ran hr hn hrun =>
    rename_i dr inv n db result
    exact .inl ((Proc.holds_driving_eq ..).trans hp)
  | put hr hn =>
    rename_i dr inv values next
    exact .inl ((Proc.holds_driving_eq ..).trans hp)
  | suspended hr => exact .inl ((Proc.holds_driving ..).trans hp)
  | released =>
    cases hp
    exact .inr (.inr fun r hr => saved hr)
  | saved =>
    cases hp
    exact .inr (.inr fun r hr => saved hr)
  | failed hm hs hf => cases hp
  | quiet hl =>
    cases hl with
    | crash => exact .inr (.inl trivial)
    | ended hr hn => exact .inl ((Proc.holds_driving ..).trans hp)
    | raised hr =>
      rename_i dr inv error
      cases dr <;> cases hp
      exact .inr (.inl (.inr ⟨_, _, inv, error, rfl, hr⟩))
    | emptyInput hcp =>
      cases hp
      exact .inr (.inl (.inl ⟨_, _, rfl, hcp⟩))
    | unparked hcp => exact .inl hp
    | inspected hcp henv => exact .inl hp
    | unready hr => exact .inl hp
    | ready hr => exact .inl hp
    | resumed hcp => exact .inl hp
    | _ => cases hp
  | _ => cases hp

/-- The rows that name process `i` are of the run it is working on. -/
def RunLeases (i : WorkerId) (w : World) : Prop := ∀ t r, w.shared.db.run t = some r →
  r.leaseOwner = some i → ∃ run, (w.procs i).holds = some run ∧ run.ticketId = t

theorem RunLeases.effect (h : RunLeases i w) (hw : World.Reachable w) (hok : Unbroken i w j a)
    (he : Effect w.shared j (w.procs j) a sh' p') :
    RunLeases i ⟨sh', Function.update w.procs j p'⟩ := by
  intro t r hr howner
  change sh'.db.run t = some r at hr
  have kept : ∀ {r₀ : WorkflowRun}, w.shared.db.run t = some r₀ → r₀.leaseOwner = some i →
      ∃ run, (Function.update w.procs j p' i).holds = some run ∧ run.ticketId = t := by
    intro r₀ hr₀ howner₀
    obtain ⟨run, hold, rfl⟩ := h t r₀ hr₀ howner₀
    by_cases hij : i = j
    · subst hij
      refine ⟨run, ?_, rfl⟩
      rw [Function.update_self]
      rcases he.holdsOn hold with hkeeps | hbroken | hreleased
      · exact hkeeps
      · exact absurd hbroken (hok rfl)
      · rw [hreleased r hr] at howner
        cases howner
    · exact ⟨run, (congrArg Proc.holds (Function.update_of_ne hij ..)).trans hold, rfl⟩
  cases he.runChange hw.held.1 t with
  | same heq => exact kept (heq.symm.trans hr) howner
  | @claimed locked r₀ hp ha hr₀ hc hp' heq hlog =>
    cases heq.symm.trans hr
    cases howner
    refine ⟨Db.leaseRun i w.shared.db.now r₀, ?_, (Database.run_eq_some hr₀).2⟩
    change (Function.update w.procs i p' i).holds = _
    rw [Function.update_self, hp']
    rfl
  | saved hs ht ha hp' heq hlog =>
    obtain ⟨r₀, -, rfl⟩ := Option.map_eq_some_iff.mp (heq.symm.trans hr)
    cases howner
  | woken hp ht ha hp' heq hlog =>
    obtain ⟨r₀, hr₀, rfl⟩ := Option.map_eq_some_iff.mp (heq.symm.trans hr)
    exact kept hr₀ howner
  | accepted hp ha hr₀ hst heq hlog =>
    cases heq.symm.trans hr
    exact kept hr₀ howner
  | reclaimed hp hr₀ hx hlt heq hlog =>
    cases heq.symm.trans hr
    cases howner
  | created hc ha hno heq hlog =>
    cases heq.symm.trans hr
    cases howner
  | archived hp ha hr₀ harch heq hlog => cases heq.symm.trans hr

theorem World.ReachableWhen.runLeases {ok : World → WorkerId → Action → Prop}
    (hok : ∀ w j a, ok w j a → Unbroken i w j a) (hw : World.ReachableWhen ok w) :
    RunLeases i w := by
  refine World.ReachableWhen.worldInvariant (I := RunLeases i) (fun _ _ h => nomatch h) ?_ hw
  intro w j a sh' p' hr ha h he
  exact h.effect hr.reachable (hok w j a ha) he

/-- Where a process is never broken off, every lease in its name is of the task or the run it is
working on; so it has one at most, and none when it has nothing in hand. -/
theorem leases_in_hand (hw : World.ReachableWhen (Unbroken i) w) :
    (∀ r ∈ w.shared.db.taskQueue, r.leaseOwner = some i →
      ∃ task, (w.procs i).handles = some task ∧ task.id = r.id) ∧
    (∀ r ∈ w.shared.db.workflowRun, r.leaseOwner = some i →
      ∃ run, (w.procs i).holds = some run ∧ run.ticketId = r.ticketId) := by
  have hreach : World.Reachable w := hw.reachable
  have hruns : RunLeases i w := World.ReachableWhen.runLeases (fun _ _ _ => id) hw
  exact ⟨World.ReachableWhen.taskLeases (fun _ _ _ => id) hw,
    fun r hr howner => hruns r.ticketId r (hreach.held.1.run_of_mem hr) howner⟩

/-- The process is a runner, or crashes. -/
def hurts : Proc → Action → Bool
  | .runner _, _ | _, .crash => true
  | _, _ => false

/-- A condition that is quick to decide. -/
def Unhurt (i : WorkerId) (w : World) (j : WorkerId) (a : Action) : Prop :=
  j = i → hurts (w.procs j) a = false

instance (w : World) (j : WorkerId) (a : Action) : Decidable (Unhurt i w j a) :=
  inferInstanceAs (Decidable (_ → _))

theorem Unhurt.unbroken (h : Unhurt i w j a) : Unbroken i w j a := by
  intro hj hbroken
  have h := h hj
  cases a with
  | crash => cases hp : w.procs j <;> rw [hp] at h <;> cases h
  | advance =>
    obtain ⟨run, v, hp, -⟩ | ⟨run, v, inv, e, hp, -⟩ := hbroken <;> rw [hp] at h <;> cases h
  | _ => exact hbroken

/-- Process 1 leases a task. -/
def Schedule.leased (w : World) : Bool := w.shared.db.taskQueue.any (·.leaseOwner = some 1)

theorem leases_in_hand_worker : ∃ (w : World) (task : QueuedTask),
    Schedule.leased w = true ∧ (w.procs 1).handles = some task := by
  have hrun : (World.initial.runWhen Proc.step (Unhurt 1)
      (Schedule.create ++ [(1, .dequeue .agentTaskQueue Schedule.unlocked)])).map Schedule.leased =
        some true := by decide +kernel
  obtain ⟨w, hw, hp⟩ := exists_reachableWhen_of_run hrun
  have hw' : World.ReachableWhen (Unbroken 1) w := hw.mono fun _ _ _ => Unhurt.unbroken
  obtain ⟨r, hr, howner⟩ := List.any_eq_true.mp hp
  obtain ⟨task, hhandles, -⟩ := (leases_in_hand hw').1 r hr (of_decide_eq_true howner)
  exact ⟨w, task, hp, hhandles⟩

/-! ## The leases of a deployed worker -/

namespace Fleet
variable {f f₀ : Fleet} {s : DrainLoop.Settings} {l l₀ : DrainLoop}

/-- Nothing ends in the middle of what service `i` is doing. -/
def Lossless (i : ℕ) (_ : Fleet) (j : ℕ) (a : Action) : Prop := j = i → ¬ a.Ends

/-- The tasks leased under the names of service `i`. -/
def leasesOf (i : ℕ) (db : Database) : List QueuedTask :=
  db.taskQueue.filter fun r => r.leaseOwner.map (·.unpair.1) = some i

theorem Lossless.stays {a : Action} (h : Lossless i f j a) : Stays i f j a := by
  cases a with
  | restart reading => exact fun hj => h hj trivial
  | _ => exact trivial

theorem world_unbroken (h₀ : f₀.procs i = .worker s l₀) (hinit : Initial f₀)
    (hf : Interleaving.ReachableWhen Service.step (· = f₀) (Lossless i) f) :
    World.ReachableWhen (fun w m a => m.unpair.1 = i → ¬ Broken w m a) f.world := by
  have hf' : ReachableWhen (fun f j a => Lossless i f j a ∧ ∃ l, f.procs i = .worker s l) f := by
    refine (hf.strengthen fun f j a hr ha => ⟨ha, ?_⟩).of_init fun f h => h ▸ hinit
    obtain ⟨l, hl, -⟩ := worker_invariant (I := fun _ => True) h₀ trivial (fun _ _ _ _ => trivial)
      (hr.mono fun _ _ _ => Lossless.stays)
    exact ⟨l, hl⟩
  refine hf'.refines ?_ (fun _ _ _ _ => id) ?_
  · rintro f j a k b sh p - ⟨-, l, hl⟩ - hdoes - hj hbroken
    rw [Nat.unpair_pair] at hj
    subst hj
    rw [hl] at hdoes
    cases b with
    | crash => exact hdoes
    | advance =>
      have hproc : f.world.procs (Nat.pair j k) = l.proc k := by
        rw [world_procs_pair, hl]
        rfl
      unfold Broken at hbroken
      simp only [hproc, DrainLoop.proc] at hbroken
      split at hbroken <;> simp at hbroken
    | _ => exact hbroken
  · rintro f j a w k ⟨ha, -⟩ hends hj -
    rw [Nat.unpair_pair] at hj
    exact ha hj hends

/-- In a fleet where nothing ends in the middle of what a worker is doing, the worker's leases are
no more than its `max_concurrent`, and once it has left its loop it has none. -/
theorem worker_leases_bounded (hinit : Initial f₀) (h₀ : f₀.procs i = .worker s l₀)
    (hf : Interleaving.ReachableWhen Service.step (· = f₀) (Lossless i) f) :
    ∃ l, f.procs i = .worker s l ∧ ((leasesOf i f.shared.db).length : ℤ) ≤ s.maxConcurrent ∧
      (l.phase = .left → leasesOf i f.shared.db = []) := by
  have hw := world_unbroken h₀ hinit hf
  have hreach : World.Reachable f.world := hw.reachable
  have hstays := hf.mono fun _ _ _ => Lossless.stays
  have hstart : l₀.Sound s := by
    have hsound := (hinit.2 i).sound.1
    rw [h₀] at hsound
    exact hsound
  have hsound := worker_sound h₀ hstart hstays
  obtain ⟨l, hl, -⟩ := worker_invariant (I := fun _ => True) h₀ trivial (fun _ _ _ _ => trivial)
    hstays
  rw [hl] at hsound
  have hsound : l.Sound s := hsound
  -- a lease is in the hand of one of the tasks in flight
  have hand : ∀ r ∈ leasesOf i f.shared.db, ∃ k task pc, r.leaseOwner = some (Nat.pair i k) ∧
      l.slot k = some (.working pc) ∧ (Proc.worker pc).handles = some task ∧ task.id = r.id := by
    intro r hr
    obtain ⟨hm, howner⟩ := List.mem_filter.mp hr
    obtain ⟨m, hm', hi⟩ := Option.map_eq_some_iff.mp (of_decide_eq_true howner)
    have hpair : Nat.pair i m.unpair.2 = m := by rw [← hi, Nat.pair_unpair]
    have hleases : TaskLeases m f.world :=
      World.ReachableWhen.taskLeases (fun w j a h hj => h (hj ▸ hi)) hw
    obtain ⟨task, hhandles, hid⟩ := hleases r hm hm'
    rw [← hpair, world_procs_pair, hl] at hhandles
    change (l.proc _).handles = _ at hhandles
    unfold DrainLoop.proc at hhandles
    split at hhandles
    · rename_i pc hk
      exact ⟨m.unpair.2, task, pc, by rw [hpair, hm'], hk, hhandles, hid⟩
    · cases hhandles
  refine ⟨l, hl, ?_, fun hleft => ?_⟩
  · have hids : (f.shared.db.taskQueue.map QueuedTask.id).Nodup := hreach.tasks.1.keys.ids
    have hnodup : ((leasesOf i f.shared.db).map fun r => (r.leaseOwner.getD 0).unpair.2).Nodup := by
      refine List.Nodup.map_on ?_ ((hids.of_map _).filter _)
      intro r hr r' hr' heq
      obtain ⟨k, task, pc, howner, hk, hhandles, hid⟩ := hand r hr
      obtain ⟨k', task', pc', howner', hk', hhandles', hid'⟩ := hand r' hr'
      simp only [howner, howner', Option.getD_some, Nat.unpair_pair] at heq
      subst heq
      cases hk.symm.trans hk'
      cases hhandles.symm.trans hhandles'
      exact List.inj_on_of_nodup_map hids (List.mem_of_mem_filter hr) (List.mem_of_mem_filter hr')
        (hid.symm.trans hid')
    have hsub : ((leasesOf i f.shared.db).map fun r => (r.leaseOwner.getD 0).unpair.2) ⊆
        l.inFlight.map Prod.fst := by
      intro k hk
      obtain ⟨r, hr, rfl⟩ := List.mem_map.mp hk
      obtain ⟨k, task, pc, howner, hslot, -, -⟩ := hand r hr
      simp only [howner, Option.getD_some, Nat.unpair_pair]
      exact List.mem_map_of_mem (DrainLoop.slot_mem hslot)
    have hle := (hnodup.subperm hsub).length_le
    rw [List.length_map, List.length_map] at hle
    have hbounded := hsound.bounded
    omega
  · refine List.eq_nil_iff_forall_not_mem.mpr fun r hr => ?_
    obtain ⟨k, task, pc, -, hk, -, -⟩ := hand r hr
    exact hsound.not_left hk rfl hleft

instance : DecidablePred Action.Ends
  | .restart _ | .breakOff _ => isTrue trivial
  | .tick _ | .clock _ | .stop | .cancel | .createTicket _ | .submitApproval _ _ | .loop _ _
  | .carry _ _ | .answer _ _ | .failActivity _ _ _ => isFalse id

instance (f : Fleet) (j : ℕ) (a : Action) : Decidable (Lossless i f j a) :=
  inferInstanceAs (Decidable (_ → _))

/-- One task is leased under the name of service 1. -/
def oneLeased (f : Fleet) : Bool := decide ((leasesOf 1 f.shared.db).length = 1)

theorem worker_leases_bounded_small : ∃ f : Fleet,
    ((leasesOf 1 f.shared.db).length : ℤ) = 1 ∧ ((leasesOf 1 f.shared.db).length : ℤ) ≤ 1 := by
  have hrun : (small.runWhen Service.step (Lossless 1) (smallRun.take 8)).map oneLeased =
      some true := by decide +kernel
  obtain ⟨f, hf, hp⟩ := exists_reachableWhen_of_run hrun
  obtain ⟨l, -, hle, -⟩ := worker_leases_bounded small_initial rfl hf
  exact ⟨f, congrArg Nat.cast (of_decide_eq_true hp), hle⟩

end Fleet
end TicketFlow
