import TicketFlow.Outbox

/-! # Replayed nodes

A resume runs the suspended node from its first line, so the transaction that stands before the
pending interrupt is executed again; after a crash, or by a runner that was overtaken, so is that of
any node. With the value of the settled task that the interrupt names it commits nothing: the
primary task of a second interrupt can no longer be cancelled, and the key of the finalize task
exists. A redispatch that is executed again tests the status its primary task has by then, so it
commits something exactly if that task is pending. -/

namespace TicketFlow
open Table Interleaving
set_option autoImplicit false

/-! ## Lines executed once -/

/-- The node the next action runs. -/
def Invocation.ready (inv : Invocation) : Option Node :=
  if inv.result = none then inv.checkpoint.next else none

/-- A run of the node that executed its transaction. -/
def Event.executes (t : TicketId) (n : Node) : Event → Bool
  | .ran t' n' s resumes => decide (t' = t ∧ n' = n) && (n.write s resumes).isSome
  | _ => false

/-- The next action runs a node whose transaction the log says was executed for this ticket. -/
def Proc.repeats (log : List Event) (p : Proc) : Bool := p.invocation.any fun inv =>
  inv.ready.any fun n => log.any (Event.executes inv.checkpoint.threadId n)

/-- The transaction the next action executes. -/
def Proc.writes (p : Proc) : Option QueueWrite := p.invocation.bind fun inv =>
  inv.ready.bind fun n => n.write inv.checkpoint.values inv.resumes

/-- The step of a system that executes no line of a node twice: the transaction of a node is left
out where it was executed before, whether the node is resumed or run again after a crash. -/
def Proc.stepOnce : Program Shared Proc Action := fun sh i p a =>
  match a with
  | .advance => (p.advance sh).map fun (sh', p') =>
    (if p.repeats sh.log then sh'.commit sh.db else sh', p')
  | _ => p.step sh i a

/-- The primary task the transaction cancels if it is pending. -/
def QueueWrite.cancels : QueueWrite → Option IdempotencyKey
  | .redispatch taskType workflowId _ => some (.agent workflowId taskType)
  | .enqueue _ _ _ _ _ => none

/-- No `prune_settled` commits, and no redispatch is executed again while its primary task is
pending. -/
def Unrepeated (w : World) (i : WorkerId) (a : Action) : Prop := Unpruned w i a ∧
  match a with
  | .advance => (w.procs i).repeats w.shared.log = true →
    ∀ key ∈ (w.procs i).writes.bind QueueWrite.cancels, ∀ r ∈ w.shared.db.task key,
      r.status ≠ .pending
  | _ => True

instance (w : World) (i : WorkerId) : DecidablePred (Unrepeated w i)
  | .advance => inferInstanceAs (Decidable (Unpruned w i .advance ∧ (_ → _)))
  | .tick _ | .crash | .createTicket _ | .submitApproval _ _ | .claimRun _ | .dequeue _ _
  | .activityReturns _ | .activityRaises _ _ | .reclaimExpiredLeases | .reconcileOrphanedRuns
  | .runRetention _ => inferInstanceAs (Decidable (Unpruned w i _ ∧ True))

variable {w w' w'' : World} {i : WorkerId} {p p' : Proc} {a : Action} {t : TicketId} {ty : TaskType}
  {r : QueuedTask} {db : Database} {key : IdempotencyKey} {n : Node} {s : TicketState}
  {resumes : List Resume} {env : Envelope} {value : Resume} {v : ResumeValue} {cp : Checkpoint}
  {inv : Invocation} {sh sh' : Shared}

/-! ## The repeated transaction -/

theorem apply_redispatch_settled {payload : TaskPayload} (hk : Taskqueue.Keys db)
    (hr : db.task (.agent t ty) = some r) (hst : r.status ≠ .pending) :
    (QueueWrite.redispatch ty t payload).apply db = db := by
  have hno : ∀ x, db.task (.agent t ty) = some x → x.status ≠ .pending := by
    intro x hx
    cases hr.symm.trans hx
    exact hst
  exact congrArg Prod.fst (redispatch_not_pending hk hno)

theorem apply_enqueue_present {queueName : QueueName} {payload : TaskPayload}
    (hr : db.task key = some r) :
    (QueueWrite.enqueue queueName ty t payload key).apply db = db := by
  obtain ⟨hm, hk⟩ := Database.task_eq_some hr
  rw [QueueWrite.apply, Taskqueue.enqueue, if_pos ⟨r, hm, hk⟩]

/-- With the value of the settled task that its interrupt names, a resumed node commits nothing. -/
theorem run_replayed (hk : Taskqueue.Keys db) (hE : Exclusive db) (hsus : Suspends s n resumes env)
    (hkey : env.idempotencyKey = some key) (hr : db.task key = some r)
    (hst : r.status = .done ∨ r.status = .failed) (hv : value ≠ .timeout) :
    (n.run s (resumes ++ [value]) db).1 = db := by
  have settled : r.status ≠ .pending := by
    rcases hst with hst | hst <;> simp [hst]
  -- Behind a second interrupt stands a redispatch, of a primary that is settled or that failed
  -- beside its fallback.
  have again : ∀ {ty payload} {redispatched : Bool},
      db.task (if redispatched then .fallback s.ticket.id ty else .agent s.ticket.id ty) = some r →
      (QueueWrite.redispatch ty s.ticket.id payload).apply db = db := by
    intro ty payload redispatched hr
    cases redispatched with
    | false => exact apply_redispatch_settled hk hr settled
    | true =>
      obtain ⟨r', hr', hfailed, -, -⟩ := hE _ _ _ hr
      exact apply_redispatch_settled hk hr' (by simp [hfailed])
  have first : ∀ {ty payload}, awaitWrite ty s.ticket.id payload [value] = none := by
    intro ty payload
    cases value with
    | timeout => exact absurd rfl hv
    | _ => rfl
  rw [Node.run_db]
  cases hsus with
  | classify => rw [List.nil_append, Node.write, first]; rfl
  | classifyAgain =>
    cases hkey
    exact again hr
  | draft hc => rw [List.nil_append, Node.write, hc, Option.bind_some, first]; rfl
  | draftAgain hc =>
    cases hkey
    rw [Node.write, hc]
    exact again hr
  | approval hw hd => cases hkey
  | terminal hc hd =>
    cases hkey
    rw [Node.write, hd, hc]
    exact apply_enqueue_present hr

/-- What the runner looked up is the value of a settled task. -/
theorem settled_of_lookup (hT : TasksSound db) (h : Runner.taskResumeValue key db = some v) :
    (∃ r, db.task key = some r ∧ (r.status = .done ∨ r.status = .failed)) ∧
      v.payload ≠ .timeout := by
  have hsome : (Runner.taskResumeValue key db).isSome := by
    rw [h]
    rfl
  obtain ⟨value, rfl, -, htimeout⟩ := Runner.taskResumeValue_outcome h
  exact ⟨(taskResumeValue_isSome hT).mp hsome, htimeout⟩

/-! ## The step that executes no line twice -/

theorem Node.write_redispatches {write : QueueWrite} (h : n.write s resumes = some write)
    (hk : n.enqueues t = none) : ∃ ty payload, write = .redispatch ty s.ticket.id payload := by
  have await : ∀ {ty₀ payload₀}, awaitWrite ty₀ s.ticket.id payload₀ resumes = some write →
      ∃ ty payload, write = .redispatch ty s.ticket.id payload := by
    intro ty₀ payload₀ hw
    unfold awaitWrite at hw
    split at hw
    · cases hw
      exact ⟨ty₀, payload₀, rfl⟩
    · cases hw
  cases n with
  | awaitClassify => exact await h
  | awaitDraft =>
    obtain ⟨c, -, hw⟩ := Option.bind_eq_some_iff.mp h
    exact await hw
  | dispatchClassify => cases hk
  | dispatchDraft => cases hk
  | execute => cases hk
  | _ => cases h

theorem Invocation.ready_eq_some (h : inv.ready = some n) :
    inv.result = none ∧ inv.checkpoint.next = some n := by
  unfold Invocation.ready at h
  split at h
  · rename_i hr
    exact ⟨hr, h⟩
  · cases h

/-- A process that is about to run a node commits the transaction of the node and nothing else. -/
theorem Proc.advance_writes (hinv : p.invocation = some inv) (hn : inv.ready = some n)
    (hp : p.advance sh = some (sh', p')) :
    sh'.db = (p.writes.map (QueueWrite.apply sh.db)).getD sh.db := by
  obtain ⟨hr, hnext⟩ := Invocation.ready_eq_some hn
  have hdb : sh'.db = (n.run inv.checkpoint.values inv.resumes sh.db).1 := by
    unfold Proc.invocation at hinv
    split at hinv
    · cases hinv
      simp only [Proc.advance, Api.advance, Invocation.advance, hr, hnext] at hp
      cases hp
      rfl
    · cases hinv
      simp only [Proc.advance, Runner.advance, Invocation.advance, hr, hnext] at hp
      cases hp
      rfl
    · cases hinv
  rw [hdb, Node.run_db, Proc.writes, hinv, Option.bind_some, hn, Option.bind_some]

/-- A transaction that is executed again commits nothing, unless it is the redispatch of a primary
task that is pending. -/
theorem repeated_commits_nothing (hw : World.ReachableWhen Unpruned w)
    (hrepeats : (w.procs i).repeats w.shared.log = true)
    (hno : ∀ key ∈ (w.procs i).writes.bind QueueWrite.cancels, ∀ r ∈ w.shared.db.task key,
      r.status ≠ .pending)
    (hp : (w.procs i).advance w.shared = some (sh', p')) : sh'.db = w.shared.db := by
  have hreach : World.Reachable w := hw.reachable
  obtain ⟨inv, hinv, hany⟩ := (Option.any_eq_true ..).mp hrepeats
  obtain ⟨n, hn, hlog⟩ := (Option.any_eq_true ..).mp hany
  have hsound := ((hreach.threads.2 i).of_invocation hinv).checkpoint
  have hwrites : (w.procs i).writes = n.write inv.checkpoint.values inv.resumes := by
    rw [Proc.writes, hinv, Option.bind_some, hn, Option.bind_some]
  rw [Proc.advance_writes hinv hn hp]
  rw [hwrites] at hno ⊢
  cases hk : n.enqueues inv.checkpoint.threadId with
  | some key =>
    -- the task was enqueued when the line was executed first
    obtain ⟨e, hm, he⟩ := List.any_eq_true.mp hlog
    unfold Event.executes at he
    split at he
    · obtain ⟨hid, -⟩ := Bool.and_eq_true_iff.mp he
      obtain ⟨rfl, rfl⟩ := of_decide_eq_true hid
      obtain ⟨r, hr⟩ := Option.isSome_iff_exists.mp (enqueued_kept hw hm hk)
      have hs := hsound.state
      rw [(Invocation.ready_eq_some hn).2] at hs
      rw [← hsound.ticket] at hk
      obtain ⟨queueName, taskType, payload, hwrite⟩ := Node.write_of_enqueues hs hk
      rw [hwrite]
      exact apply_enqueue_present hr
    · cases he
  | none =>
    cases hwrite : n.write inv.checkpoint.values inv.resumes with
    | none => rfl
    | some write =>
      obtain ⟨ty, payload, rfl⟩ := Node.write_redispatches hwrite hk
      rw [hwrite] at hno
      exact congrArg Prod.fst (redispatch_not_pending hreach.tasks.1.keys (hno _ rfl))

/-- The redispatch of a primary task that is pending changes the queue. -/
theorem redispatch_changes {payload : TaskPayload} (hr : db.task (.agent t ty) = some r)
    (hpend : r.status = .pending) :
    ((QueueWrite.redispatch ty t payload).apply db).taskQueue ≠ db.taskQueue := by
  intro heq
  have hrow : ((QueueWrite.redispatch ty t payload).apply db).task (.agent t ty) =
      some (Taskqueue.cancelRow redispatchReason r) := task_redispatch hr hpend
  rw [Database.task, heq, ← Database.task, hr] at hrow
  have hst := congrArg QueuedTask.status (Option.some.inj hrow)
  rw [hpend] at hst
  cases hst

/-- A transaction that is executed again leaves the queue as it is exactly if it is not the
redispatch of a primary task that is pending. -/
theorem repeated_queue_iff (hw : World.ReachableWhen Unpruned w)
    (hrepeats : (w.procs i).repeats w.shared.log = true)
    (hp : (w.procs i).advance w.shared = some (sh', p')) :
    w.shared.db.taskQueue = sh'.db.taskQueue ↔
      ∀ key ∈ (w.procs i).writes.bind QueueWrite.cancels, ∀ r ∈ w.shared.db.task key,
        r.status ≠ .pending := by
  constructor
  · intro hsame key hkey r hr hpend
    obtain ⟨inv, hinv, hany⟩ := (Option.any_eq_true ..).mp hrepeats
    obtain ⟨n, hn, -⟩ := (Option.any_eq_true ..).mp hany
    have hdb := Proc.advance_writes hinv hn hp
    obtain ⟨write, hwrite, hcancels⟩ := Option.bind_eq_some_iff.mp hkey
    rw [hwrite] at hdb
    cases write with
    | enqueue queueName taskType workflowId payload key' => cases hcancels
    | redispatch ty t payload =>
      cases hcancels
      have hchanges : sh'.db.taskQueue ≠ w.shared.db.taskQueue := by
        rw [hdb]
        exact redispatch_changes hr hpend
      exact hchanges hsame.symm
  · intro hno
    rw [repeated_commits_nothing hw hrepeats hno hp]

theorem stepOnce_queue_iff (hw : World.ReachableWhen Unpruned w) (hok : Unpruned w i a)
    (hn : w.next Proc.step i a = some w') (hn' : w.next Proc.stepOnce i a = some w'') :
    w''.shared.db.taskQueue = w'.shared.db.taskQueue ↔ Unrepeated w i a := by
  obtain ⟨sh', p', hstep, rfl⟩ := Config.next_eq_some hn
  obtain ⟨sh'', p'', honce, rfl⟩ := Config.next_eq_some hn'
  cases a with
  | advance =>
    change (w.procs i).advance w.shared = some (sh', p') at hstep
    change ((w.procs i).advance w.shared).map _ = some (sh'', p'') at honce
    rw [hstep, Option.map_some] at honce
    cases honce
    dsimp only
    split
    · rename_i hrepeats
      refine (repeated_queue_iff hw hrepeats hstep).trans ?_
      exact ⟨fun h => ⟨hok, fun _ => h⟩, fun h => h.2 hrepeats⟩
    · rename_i hrepeats
      exact iff_of_true rfl ⟨hok, fun h => absurd h hrepeats⟩
  | _ =>
    cases hstep.symm.trans honce
    exact iff_of_true rfl ⟨hok, trivial⟩

theorem stepOnce_next_iff (hw : World.ReachableWhen Unpruned w) (hok : Unpruned w i a)
    (hn : w.next Proc.step i a = some w') :
    w.next Proc.stepOnce i a = w.next Proc.step i a ↔ Unrepeated w i a := by
  constructor
  · intro hsame
    exact (stepOnce_queue_iff hw hok hn (hsame.trans hn)).mp rfl
  · intro hun
    obtain ⟨sh', p', hstep, rfl⟩ := Config.next_eq_some hn
    suffices honce : Proc.stepOnce w.shared i (w.procs i) a = some (sh', p') by
      rw [Config.next, honce, hn]
    cases a with
    | advance =>
      change (w.procs i).advance w.shared = some (sh', p') at hstep
      change ((w.procs i).advance w.shared).map _ = some (sh', p')
      rw [hstep, Option.map_some]
      dsimp only
      split
      · rename_i hrepeats
        rw [Shared.commit, ← repeated_commits_nothing hw hrepeats (hun.2 hrepeats) hstep]
      · rfl
    | _ => exact hstep

/-- After any run without a `prune_settled`, a pending interrupt that is resumed with the value of
the settled task it names re-runs its node without effect, whatever happens between the lookup and
the run. The run is one in which no line of a node is executed twice exactly if it executes no
redispatch again while the primary task is pending; the first step that does leaves another
queue. -/
theorem replay_adds_no_effect {steps : List (World × WorkerId × Action)}
    (hrun : Run Proc.step (· = World.initial) Unpruned steps w) :
    (∀ t cp n env key v, w.shared.checkpoints.get t = some cp → cp.next = some n →
      cp.interrupt = some env → env.idempotencyKey = some key →
      Runner.taskResumeValue key w.shared.db = some v →
      ∀ w', ReachableWhen Proc.step (· = w) Unpruned w' →
        (n.run cp.values (cp.resumes ++ [v.payload]) w'.shared.db).1 = w'.shared.db) ∧
    (Run Proc.stepOnce (· = World.initial) Unpruned steps w ↔
      ∀ x ∈ steps, Unrepeated x.1 x.2.1 x.2.2) ∧
    ∀ i a w' w'', Unpruned w i a → w.next Proc.step i a = some w' →
      w.next Proc.stepOnce i a = some w'' →
        (w''.shared.db.taskQueue = w'.shared.db.taskQueue ↔ Unrepeated w i a) := by
  have hw : World.ReachableWhen Unpruned w := hrun.reachable
  refine ⟨fun t cp n env key v hcp hn henv hkey hlookup w' hw' => ?_, ?_,
    fun i a w' w'' hok hn hn' => stepOnce_queue_iff hw hok hn hn'⟩
  · have hreach : World.Reachable w := hw.reachable
    have hw₁ : World.ReachableWhen Unpruned w' := hw.trans hw'
    obtain ⟨⟨r, htask, hst⟩, htimeout⟩ := settled_of_lookup hreach.tasks.1 hlookup
    obtain ⟨n', hn', hsus⟩ := (hreach.threads.1 t cp hcp).1.parked env henv
    cases hn.symm.trans hn'
    exact run_replayed (World.Reachable.tasks hw₁.reachable).1.keys hw₁.exclusive hsus hkey
      (frozen_of_reachable hw htask hst hw') hst htimeout
  · rw [hrun.of_program_iff]
    refine forall₂_congr fun x hx => ?_
    obtain ⟨w', hw', hok, hn⟩ := hrun.step_of_mem hx
    exact stepOnce_next_iff hw' hok hn

/-- A worker holds the classification task of ticket 7 when its timer fires, fails, and delivers it
on the next attempt. -/
def Schedule.lostRace : Schedule :=
  Schedule.create ++ [(1, .dequeue .agentTaskQueue Schedule.unlocked), (0, .tick (seconds 31))] ++
    Schedule.step 2 6 ++
    [(1, .activityRaises "unavailable" false), (1, .advance), (0, .tick (seconds 8))] ++
    Schedule.work 1 .agentTaskQueue (.classification Schedule.classification)

/-- Ticket 7 is parked at the second interrupt of its classification, its primary task is done, and
process 2 is about to run the node again. -/
def replayingLostRace (w : World) : Bool :=
  (w.procs 2).repeats w.shared.log &&
    (Runner.taskResumeValue (.agent 7 .classify) w.shared.db).isSome &&
      (w.shared.checkpoints.get 7).any fun cp => cp.next = some .awaitClassify ∧
        cp.resumes = [.timeout] ∧ cp.interrupt.bind Envelope.idempotencyKey =
          some (.agent 7 .classify)

/-- The retried primary task answers the second interrupt. The redispatch before it is executed a
second time, so a run that leaves it out is the same run. -/
theorem replay_adds_no_effect_lostRace : ∃ steps w w' cp v,
    Run Proc.stepOnce (· = World.initial) Unpruned steps w' ∧ (w, 2, .advance) ∈ steps ∧
    (w.procs 2).repeats w.shared.log = true ∧
    w.shared.checkpoints.get 7 = some cp ∧ cp.resumes = [.timeout] ∧
    Runner.taskResumeValue (.agent 7 .classify) w.shared.db = some v ∧
    (Node.awaitClassify.run cp.values [.timeout, v.payload] w.shared.db).1 = w.shared.db := by
  have hrun : ((World.initial.runWhen Proc.step Unrepeated (Schedule.lostRace ++
      Schedule.step 2 3)).bind fun w => if replayingLostRace w then
        w.runWhen Proc.step Unrepeated ((2, .advance) :: Schedule.advance 2 4) else none).map
      (fun _ => true) = some true := by decide +kernel
  obtain ⟨steps, w, w', hw', hm, hp, -⟩ := exists_history_of_run hrun
  obtain ⟨hp, hany⟩ := Bool.and_eq_true_iff.mp hp
  obtain ⟨hrepeats, hsome⟩ := Bool.and_eq_true_iff.mp hp
  obtain ⟨v, hlookup⟩ := Option.isSome_iff_exists.mp hsome
  obtain ⟨cp, hcp, hp⟩ := (Option.any_eq_true ..).mp hany
  obtain ⟨hn, hresumes, hkey⟩ := of_decide_eq_true hp
  obtain ⟨env, henv, hkey⟩ := Option.bind_eq_some_iff.mp hkey
  have hunpruned := hw'.mono (fun _ _ _ h => h.1)
  have honce := (replay_adds_no_effect hunpruned).2.1.mpr hw'.ok_of_mem
  obtain ⟨-, hw, -⟩ := hunpruned.step_of_mem hm
  obtain ⟨before, hbefore⟩ := hw.exists_run
  have hreplay := (replay_adds_no_effect hbefore).1 7 cp _ env _ v hcp hn henv hkey hlookup
  have hdb := hreplay w (.init rfl)
  rw [hresumes] at hdb
  exact ⟨steps, w, w', cp, v, honce, hm, hrepeats, hcp, hresumes, hlookup, hdb⟩

/-- Worker 1 completes the classification of ticket 7 and is slow to wake the run, which goes on to
`await_draft` at its deadline. Its timer fires while worker 3 has the draft task, so the redispatch
loses its race; worker 3 fails, and the late wake-up lets runner 2 resume the second interrupt with
a timeout. -/
def Schedule.lateWake : Schedule :=
  Schedule.create ++ Schedule.answer 1 .agentTaskQueue (.classification Schedule.classification) ++
    Schedule.advance 1 1 ++ [(0, .tick (seconds 31))] ++ Schedule.step 2 10 ++
    [(3, .dequeue .agentTaskQueue Schedule.unlocked), (0, .tick (seconds 31))] ++
    Schedule.step 2 6 ++ [(3, .activityRaises "unavailable" false), (3, .advance), (1, .advance)] ++
    Schedule.step 2 4

/-- The repeated redispatch cancels the primary task and inserts the fallback. -/
theorem late_wake_redispatches_again : ¬ ∀ (acts : Schedule) (w : World),
    World.initial.runWhen Proc.step Unpruned acts = some w →
      (World.initial.run Proc.stepOnce acts).map (fun w' => w'.shared.db.taskQueue) =
        some w.shared.db.taskQueue := by
  intro hall
  have hrun : (World.initial.runWhen Proc.step Unpruned Schedule.lateWake).map (fun w =>
      (w.shared.db.task (.fallback 7 .draft)).isSome &&
        (World.initial.run Proc.stepOnce Schedule.lateWake).any fun w' =>
          (w'.shared.db.task (.fallback 7 .draft)).isNone) = some true := by decide +kernel
  obtain ⟨w, hw, hp⟩ := Option.map_eq_some_iff.mp hrun
  obtain ⟨hsome, hany⟩ := Bool.and_eq_true_iff.mp hp
  obtain ⟨w', hw', hnone⟩ := (Option.any_eq_true ..).mp hany
  have hqueue := hall Schedule.lateWake w hw
  rw [hw', Option.map_some] at hqueue
  rw [Database.task, ← Option.some.inj hqueue, ← Database.task] at hsome
  rw [Option.isNone_iff_eq_none] at hnone
  rw [hnone] at hsome
  cases hsome

end TicketFlow
