import TicketFlow.Escalation
import TicketFlow.Repair
import TicketFlow.Timers

/-! # Starvation

`claim_run` takes the oldest claimable row, and a release gives a row back as it was. So with nobody
else acting a runner comes past the oldest claimable run only by moving it on: by the value it waits
for, or, where it waits for an approval with its timer due, by a timeout that escalates it. -/

namespace TicketFlow
open Table Interleaving
set_option autoImplicit false

/-- The rows a runner could claim now. -/
def Database.claimable (db : Database) : List WorkflowRun :=
  db.workflowRun.filter (Db.Claimable db.now)

/-- The row a runner left alone claims next. -/
def Database.oldest (db : Database) : Option WorkflowRun :=
  firstBy WorkflowRun.createdAt (Db.Claimable db.now) db.workflowRun

namespace Runner

/-- What the ticket's pending interrupt waits for has come. -/
def Ready (sh : Shared) (t : TicketId) : Prop :=
  ∃ env ∈ pendingEnvelope (sh.checkpoints.get t), (resumeValue env sh.db).isSome

/-- No other transaction holds a row. -/
def alone : TicketId → Bool := fun _ => false

/-- Of at most `n` calls of `step`, one after the other and nobody else acting, one resumes a run
that is ready when it is claimed. An exception leaves `run_forever`, so no call follows it. -/
inductive AdvancesWithin (i : WorkerId) : ℕ → Shared → Prop
  | now {n sh sh₁ sh' run} : claim i alone sh = (sh₁, .at (.claimed run)) → Ready sh run.ticketId →
      Finishes (sh₁, .at (.claimed run)) sh' (.ok true) → AdvancesWithin i (n + 1) sh
  | later {n sh sh' advanced} : Finishes (claim i alone sh) sh' (.ok advanced) →
      AdvancesWithin i n sh' → AdvancesWithin i (n + 1) sh

/-- The run waits for an approval that nobody has given, and its timer is set. -/
def Lapsed (sh : Shared) (r : WorkflowRun) : Prop :=
  (∃ env ∈ pendingEnvelope (sh.checkpoints.get r.ticketId), env.idempotencyKey = none) ∧
    ¬ Ready sh r.ticketId ∧ r.wakeupAt.isSome

/-- The run's timer is set, it waits for a primary task that nobody has leased, and the fallback
task has been answered before. -/
def Redirected (db : Database) (r : WorkflowRun) (env : Envelope) : Prop :=
  r.wakeupAt.isSome ∧ env.wakeupAt.isSome ∧ ∃ key ∈ env.idempotencyKey,
    (∃ task ∈ db.task key, task.status = .pending) ∧
    ∃ key' ∈ key.successor, (taskResumeValue key' db).isSome

/-- The run's own steps move it on: it is ready, and not with the failure of its finalize task. -/
def Proceeds (sh : Shared) (r : WorkflowRun) : Prop :=
  ∃ env ∈ pendingEnvelope (sh.checkpoints.get r.ticketId),
    (resumeValue env sh.db).isSome ∧ Unfailed env sh.db ∨ Redirected sh.db r env

instance (sh : Shared) (t : TicketId) : Decidable (Ready sh t) :=
  inferInstanceAs (Decidable (∃ env ∈ pendingEnvelope (sh.checkpoints.get t), _))

instance (sh : Shared) : DecidablePred (Lapsed sh) :=
  fun _ => inferInstanceAs (Decidable (_ ∧ ¬ _ ∧ _))

instance (db : Database) (r : WorkflowRun) (env : Envelope) : Decidable (Redirected db r env) :=
  inferInstanceAs (Decidable (_ ∧ _ ∧ ∃ key ∈ env.idempotencyKey, _))

instance (sh : Shared) : DecidablePred (Proceeds sh) :=
  fun r => inferInstanceAs (Decidable (∃ env ∈ pendingEnvelope (sh.checkpoints.get r.ticketId), _))

/-- The oldest claimable run that is not timed out at an approval is one that its steps move on. -/
def Unblocked (sh : Shared) : Prop :=
  ∃ r ∈ firstBy WorkflowRun.createdAt (fun r => Db.Claimable sh.db.now r ∧ ¬ Lapsed sh r)
    sh.db.workflowRun, Proceeds sh r

instance (sh : Shared) : Decidable (Unblocked sh) :=
  inferInstanceAs (Decidable (∃ r ∈ firstBy WorkflowRun.createdAt _ sh.db.workflowRun, _))

end Runner

variable {sh sh' sh₁ : Shared} {w : World} {i : WorkerId} {t : TicketId} {r run : WorkflowRun}
  {env : Envelope} {db db' : Database} {cp : Checkpoint} {n : Node} {s : TicketState}
  {resumes : List Resume} {status : TicketStatus} {key : IdempotencyKey} {redispatched : Bool}

/-! ## A call of `step` -/

theorem Runner.AdvancesWithin.mono {n m : ℕ} (h : Runner.AdvancesWithin i n sh) (hle : n ≤ m) :
    Runner.AdvancesWithin i m sh := by
  induction h generalizing m with
  | now hc hready hfin =>
    obtain ⟨k, rfl⟩ := Nat.exists_eq_succ_of_ne_zero (by omega : m ≠ 0)
    exact .now hc hready hfin
  | later hfin _ ih =>
    obtain ⟨k, rfl⟩ := Nat.exists_eq_succ_of_ne_zero (by omega : m ≠ 0)
    exact .later hfin (ih (by omega))

theorem Runner.claim_alone : Runner.claim i Runner.alone sh = match sh.db.oldest with
    | none => (sh, .returned false)
    | some r => (sh.record { sh.db with
        workflowRun := updateWhere (·.ticketId = r.ticketId) (Db.leaseRun i sh.db.now)
          sh.db.workflowRun } (.claimed i r.ticketId), .at (.claimed (Db.leaseRun i sh.db.now r))) := by
  have hfirst : firstBy WorkflowRun.createdAt
      (fun r => Db.Claimable sh.db.now r ∧ Runner.alone r.ticketId = false) sh.db.workflowRun =
      sh.db.oldest :=
    firstBy_eq_of_filter (List.filter_congr fun r _ => by simp [Runner.alone])
  unfold Runner.claim Db.claimRun
  rw [hfirst]
  cases sh.db.oldest <;> rfl

theorem Runner.claim_of_oldest (h : sh.db.oldest = some r) : ∃ sh₁,
    Runner.claim i Runner.alone sh = (sh₁, .at (.claimed (Db.leaseRun i sh.db.now r))) := by
  rw [Runner.claim_alone, h]
  exact ⟨_, rfl⟩

/-- A runner that is left alone in the middle of a step comes to a reachable world. -/
theorem World.Reachable.finishes {x : Shared × Runner.Next} {result : Except GraphError Bool}
    (hfin : Runner.Finishes x sh' result) : ∀ {w : World}, World.Reachable w →
    w.shared = (Proc.ofRunner x).1 → w.procs i = (Proc.ofRunner x).2 →
    ∃ w', World.Reachable w' ∧ w'.shared = sh' ∧ w'.procs i = .idle := by
  induction hfin with
  | @next sh pc sh' result hfin ih =>
    intro w hw hsh hp
    have hstep : Proc.step w.shared i (w.procs i) .advance =
        some (Proc.ofRunner (Runner.advance pc sh)) := by
      rw [hsh, hp]
      rfl
    obtain ⟨w₁, hnext, hsh₁, hp₁⟩ := Config.next_of_step hstep
    exact ih (hw.next trivial hnext) hsh₁ hp₁
  | returned => exact fun hw hsh hp => ⟨_, hw, hsh, hp⟩
  | stopped => exact fun hw hsh hp => ⟨_, hw, hsh, hp⟩

theorem World.Reachable.called {result : Except GraphError Bool} (hw : World.Reachable w)
    (hi : w.procs i = .idle)
    (hfin : Runner.Finishes (Runner.claim i Runner.alone w.shared) sh' result) :
    ∃ w', World.Reachable w' ∧ w'.shared = sh' ∧ w'.procs i = .idle := by
  have hstep : Proc.step w.shared i (w.procs i) (.claimRun Runner.alone) =
      some (Proc.ofRunner (Runner.claim i Runner.alone w.shared)) := by
    rw [hi]
    simp only [Proc.step, if_true]
  obtain ⟨w₁, hnext, hsh₁, hp₁⟩ := Config.next_of_step hstep
  exact World.Reachable.finishes hfin (hw.next trivial hnext) hsh₁ hp₁

/-- A run with nothing to resume it with, once it is the oldest, is claimed for ever. -/
theorem blocked_of_idles (hn : RunKeys sh.db)
    (hc : Runner.claim i Runner.alone sh = (sh₁, .at (.claimed run))) (hidle : Runner.Idles run sh₁)
    (n : ℕ) : ¬ Runner.AdvancesWithin i n sh := by
  induction n generalizing sh sh₁ with
  | zero => exact fun h => nomatch h
  | succ n ih =>
    intro h
    obtain ⟨db, hclaim, hsh₁⟩ := Runner.claim_eq hc
    cases h with
    | now hc' hready hfin =>
      cases hc.symm.trans hc'
      cases (hidle.finishes.unique hfin).2
    | later hfin hrest =>
      rw [hc] at hfin
      obtain ⟨rfl, -⟩ := hfin.unique hidle.finishes
      have hagain : Db.claimRun i Runner.alone (Runner.release run sh₁).db = (db, some run) := by
        rw [hsh₁]
        exact claimRun_again hn hclaim
      have hkeys : RunKeys (Runner.release run sh₁).db := by
        have hsave := saveRun_claimRun hn hclaim
        rw [hsh₁]
        exact hn.updateWhere (congrArg Database.workflowRun hsave) fun _ => rfl
      have hdb : sh₁.db = db := by rw [hsh₁]; rfl
      refine ih hkeys (Runner.claim_of hagain) (fun env henv => ?_) hrest
      have hnone := hidle env henv
      rw [hdb] at hnone
      exact hnone

/-! ## What the step of one ticket leaves alone -/

/-- The run of the ticket has been saved without a timer, and no other ticket sees it. -/
structure Moved (sh : Shared) (t : TicketId) (status : TicketStatus) (sh' : Shared) : Prop where
  now : sh'.db.now = sh.db.now
  rows : sh'.db.workflowRun =
    updateWhere (·.ticketId = t) (Db.saveRunRow status none sh.db.now) sh.db.workflowRun
  signals : sh'.db.pendingSignal = sh.db.pendingSignal
  tasks : ∀ key, key.ticket ≠ t → sh'.db.task key = sh.db.task key
  threads : ∀ u, u ≠ t → sh'.checkpoints.get u = sh.checkpoints.get u

/-- The task a pending interrupt names is one of its ticket. -/
theorem ThreadsSound.pending_key (hTh : ThreadsSound sh.checkpoints)
    (henv : Runner.pendingEnvelope (sh.checkpoints.get t) = some env) :
    ∀ key ∈ env.idempotencyKey, key.ticket = t := by
  intro key hkey
  obtain ⟨cp, hcp, hint⟩ := pendingEnvelope_eq_some henv
  have hs := (hTh _ _ hcp).1
  obtain ⟨n, -, hsus⟩ := hs.parked env hint
  have hticket := hs.ticket.trans (Checkpoints.threadId_of_get hcp)
  exact (hsus.keyed hkey).1.trans hticket

theorem ThreadsSound.pending_key_ne {u : TicketId} (hTh : ThreadsSound sh.checkpoints) (hu : u ≠ t)
    (henv : env ∈ Runner.pendingEnvelope (sh.checkpoints.get u)) :
    ∀ key ∈ env.idempotencyKey, key.ticket ≠ t := by
  intro key hkey
  rw [hTh.pending_key henv key hkey]
  exact hu

theorem unfailed_terminal_iff (hk : Taskqueue.Keys db) {workflowId : TicketId} {queue : QueueName}
    {result : TicketResult} : Unfailed (.terminalTask key workflowId queue result) db ↔
      ∀ r, db.task key = some r → r.status ≠ .failed := by
  constructor
  · intro h r hr
    obtain ⟨hm, hkey⟩ := Database.task_eq_some hr
    exact h r hm hkey
  · intro h r hm hkey
    exact h r (hkey ▸ task_of_mem hk hm)

/-- A run saved in a terminal status without a timer is not claimed any more. -/
theorem not_claimable_saved {now : Time} (hterm : status.terminal = true) :
    ¬ Db.Claimable now (Db.saveRunRow status none now r) := by
  rintro ⟨hlive | ⟨hwake, -⟩, -⟩
  · have hfalse : status.terminal = false := hlive
    rw [hterm] at hfalse
    cases hfalse
  · cases hwake

/-- Once a run has stepped aside, what is claimable is what was claimable without it. -/
theorem Moved.claimable_eq (h : Moved sh t status sh') (hterm : status.terminal = true) :
    sh'.db.claimable = sh.db.claimable.filter (·.ticketId ≠ t) := by
  unfold Database.claimable
  rw [h.rows, h.now, List.filter_filter]
  refine (filter_updateWhere (q := fun r => r.ticketId ≠ t ∧ Db.Claimable sh.db.now r)
    (fun r _ ht => ?_) fun r _ ht => ?_).trans (List.filter_congr fun r _ => ?_)
  · exact ⟨fun hq => hq.1 ht, not_claimable_saved hterm⟩
  · exact ⟨fun hc => ⟨ht, hc⟩, fun hq => hq.2⟩
  · simp

section Frame
variable {w' : World} {u : TicketId} (hw : World.Reachable w) (hw' : World.Reachable w')
  (h : Moved w.shared t status w'.shared)
include hw hw' h

theorem Moved.taskResumeValue_iff (hkey : key.ticket ≠ t) :
    (Runner.taskResumeValue key w'.shared.db).isSome ↔
      (Runner.taskResumeValue key w.shared.db).isSome := by
  rw [taskResumeValue_isSome hw'.tasks.1, taskResumeValue_isSome hw.tasks.1, h.tasks key hkey]

theorem Moved.resumeValue_iff (hkey : ∀ key ∈ env.idempotencyKey, key.ticket ≠ t) :
    (Runner.resumeValue env w'.shared.db).isSome ↔ (Runner.resumeValue env w.shared.db).isSome := by
  cases env with
  | agentTask key ty workflowId queue wakeupAt => exact h.taskResumeValue_iff hw hw' (hkey key rfl)
  | approvalRequired ticketId wakeupAt draft =>
    rw [approval_ready_iff, approval_ready_iff, h.signals]
  | terminalTask key workflowId queue result => exact h.taskResumeValue_iff hw hw' (hkey key rfl)

theorem Moved.unfailed_iff (hkey : ∀ key ∈ env.idempotencyKey, key.ticket ≠ t) :
    Unfailed env w'.shared.db ↔ Unfailed env w.shared.db := by
  cases env with
  | agentTask key ty workflowId queue wakeupAt => exact Iff.rfl
  | approvalRequired ticketId wakeupAt draft => exact Iff.rfl
  | terminalTask key workflowId queue result =>
    rw [unfailed_terminal_iff hw'.tasks.1.keys, unfailed_terminal_iff hw.tasks.1.keys,
      h.tasks key (hkey key rfl)]

theorem Moved.redirected_iff (hkey : ∀ key ∈ env.idempotencyKey, key.ticket ≠ t) :
    Runner.Redirected w'.shared.db r env ↔ Runner.Redirected w.shared.db r env := by
  have hsame : ∀ key ∈ env.idempotencyKey,
      ((∃ task ∈ w'.shared.db.task key, task.status = .pending) ∧
        ∃ key' ∈ key.successor, (Runner.taskResumeValue key' w'.shared.db).isSome) ↔
      ((∃ task ∈ w.shared.db.task key, task.status = .pending) ∧
        ∃ key' ∈ key.successor, (Runner.taskResumeValue key' w.shared.db).isSome) := by
    intro key hmem
    have hne := hkey key hmem
    have hsucc : ∀ key' ∈ key.successor, key'.ticket ≠ t := by
      intro key' hk
      cases key with
      | agent u ty =>
        cases hk
        exact hne
      | fallback u ty => cases hk
      | finalize u => cases hk
    rw [h.tasks key hne]
    refine and_congr_right fun _ => exists_congr fun key' => and_congr_right fun hk => ?_
    exact h.taskResumeValue_iff hw hw' (hsucc key' hk)
  unfold Runner.Redirected
  refine and_congr_right fun _ => and_congr_right fun _ => exists_congr fun key => ?_
  exact and_congr_right (hsame key)

theorem Moved.ready_iff (hu : u ≠ t) : Runner.Ready w'.shared u ↔ Runner.Ready w.shared u := by
  unfold Runner.Ready
  rw [h.threads u hu]
  refine exists_congr fun env => and_congr_right fun henv => ?_
  exact h.resumeValue_iff hw hw' (hw.threads.1.pending_key_ne hu henv)

theorem Moved.lapsed_iff (hu : r.ticketId ≠ t) :
    Runner.Lapsed w'.shared r ↔ Runner.Lapsed w.shared r := by
  unfold Runner.Lapsed
  rw [h.threads _ hu, h.ready_iff hw hw' hu]

theorem Moved.proceeds_iff (hu : r.ticketId ≠ t) :
    Runner.Proceeds w'.shared r ↔ Runner.Proceeds w.shared r := by
  unfold Runner.Proceeds
  rw [h.threads _ hu]
  refine exists_congr fun env => and_congr_right fun henv => ?_
  have hkey := hw.threads.1.pending_key_ne hu henv
  exact or_congr (and_congr (h.resumeValue_iff hw hw' hkey) (h.unfailed_iff hw hw' hkey))
    (h.redirected_iff hw hw' hkey)

/-- The first run that is not timed out stays the first when one that is steps aside. -/
theorem Moved.unblocked_iff (hterm : status.terminal = true)
    (hlapsed : ∀ r ∈ w.shared.db.workflowRun, r.ticketId = t → Runner.Lapsed w.shared r) :
    Runner.Unblocked w'.shared ↔ Runner.Unblocked w.shared := by
  have hfirst : firstBy WorkflowRun.createdAt
      (fun r => Db.Claimable w'.shared.db.now r ∧ ¬ Runner.Lapsed w'.shared r)
      w'.shared.db.workflowRun = firstBy WorkflowRun.createdAt
      (fun r => Db.Claimable w.shared.db.now r ∧ ¬ Runner.Lapsed w.shared r)
      w.shared.db.workflowRun := by
    rw [h.rows, h.now]
    refine firstBy_eq_of_filter (filter_updateWhere (fun r hr ht => ?_) fun r _ ht => ?_)
    · exact ⟨fun hq => hq.2 (hlapsed r hr ht), fun hq => not_claimable_saved hterm hq.1⟩
    · rw [h.lapsed_iff hw hw' ht]
  unfold Runner.Unblocked
  rw [hfirst]
  refine exists_congr fun r => and_congr_right fun hr => ?_
  obtain ⟨hm, -, hno⟩ := firstBy_mem hr
  exact h.proceeds_iff hw hw' fun ht => hno (hlapsed r hm ht)

end Frame

/-! ## Timeouts -/

/-- A timeout at a suspended node: an approval takes it, the first interrupt of an agent stage
redispatches, and any other node refuses it. -/
theorem Suspends.timeout_cases (h : Suspends s n resumes env) :
    (n = .awaitApproval ∧ resumes = [] ∧ env.idempotencyKey = none) ∨
    (∃ ty, n.stage = some ty ∧ resumes = [] ∧
      env = Graph.primaryEnvelope ty s.ticket.id s.wakeupAt) ∨
    ((∃ key, env.idempotencyKey = some key) ∧ env.wakeupAt = none ∧
      n.Receives (resumes ++ [.timeout]) .timeout ∧ ¬ n.Accepts s .timeout) := by
  cases h with
  | approval hw hd => exact .inl ⟨rfl, rfl, rfl⟩
  | classify => exact .inr (.inl ⟨.classify, rfl, rfl, rfl⟩)
  | draft hc => exact .inr (.inl ⟨.draft, rfl, rfl, rfl⟩)
  | classifyAgain =>
    exact .inr (.inr ⟨⟨_, rfl⟩, rfl, ⟨[], .inr rfl⟩, by simp [Node.Accepts, Graph.isTaskFailed]⟩)
  | draftAgain hc =>
    exact .inr (.inr ⟨⟨_, rfl⟩, rfl, ⟨[], .inr rfl⟩, by simp [Node.Accepts, Graph.isTaskFailed]⟩)
  | terminal hc hd =>
    exact .inr (.inr ⟨⟨_, rfl⟩, rfl, ⟨[], rfl⟩, by simp [Node.Accepts]⟩)

/-- An agent stage with a timeout redispatches its task and waits again. -/
theorem Node.run_timeout {ty : TaskType} (hs : StateFor s (some n)) (hst : n.stage = some ty)
    (db : Database) : ∃ payload, n.run s [.timeout] db =
      ((Graph.redispatchAgentTask ty s.ticket.id payload db).1,
        .interrupt (Graph.secondEnvelope ty s.ticket.id
          (Graph.redispatchAgentTask ty s.ticket.id payload db).2)) := by
  cases n with
  | awaitClassify =>
    cases hst
    exact ⟨.classify s.ticket, rfl⟩
  | awaitDraft =>
    cases hst
    obtain ⟨c, hc⟩ := Option.isSome_iff_exists.mp hs.2.1
    refine ⟨.draft s.ticket c, ?_⟩
    simp only [Node.run, Graph.awaitDraft, hc]
    rfl
  | _ => cases hst

theorem task_redispatch_of_ne {ty : TaskType} {payload : TaskPayload} (hkey : key.ticket ≠ t) :
    (Graph.redispatchAgentTask ty t payload db).1.task key = db.task key := by
  rcases (QueueWrite.redispatch ty t payload).apply_task db key with
    hsame | ⟨_, _, _, _, hins, -⟩ | ⟨_, _, _, _, hw, hk, -⟩
  · exact hsame
  · cases hins with
    | redispatch hk => exact absurd (congrArg IdempotencyKey.ticket hk) hkey
  · cases hw
    exact absurd (congrArg IdempotencyKey.ticket hk) hkey

/-- A step that claims a run and saves it without a timer. -/
theorem Moved.of_save {mid : Shared} {event : Event}
    (hc : Runner.claim i Runner.alone sh = (sh₁, .at (.claimed run)))
    (hframe : ∃ rows seq, mid.db = { sh₁.db with taskQueue := rows, taskQueueSeq := seq })
    (htasks : ∀ key, key.ticket ≠ run.ticketId → mid.db.task key = sh₁.db.task key)
    (hthreads : ∀ u, u ≠ run.ticketId → mid.checkpoints.get u = sh₁.checkpoints.get u) :
    Moved sh run.ticketId status
      (mid.record (Db.saveRun run.ticketId status none none mid.db) event) := by
  obtain ⟨db, hclaim, rfl⟩ := Runner.claim_eq hc
  obtain ⟨rows, seq, hframe⟩ := hframe
  have hrows := workflowRun_saveRun_claimRun hclaim status none
  obtain ⟨r, -, -, -, -, rfl, rfl⟩ := Db.claimRun_eq_some hclaim
  refine ⟨?_, ?_, ?_, fun key hkey => htasks key hkey, hthreads⟩
  · change mid.db.now = sh.db.now
    rw [hframe]
    rfl
  · change updateWhere _ (Db.saveRunRow status none mid.db.now) mid.db.workflowRun = _
    rw [hframe]
    exact hrows
  · change mid.db.pendingSignal = sh.db.pendingSignal
    rw [hframe]
    rfl

/-- The task of the second interrupt of a redispatched stage is answered when it is a fallback that
was answered before. -/
theorem redispatch_answered_iff {ty : TaskType} {payload : TaskPayload} (hT : TasksSound db)
    (hnone : Runner.taskResumeValue (.agent t ty) db = none)
    (hout : Graph.redispatchAgentTask ty t payload db = (db', redispatched)) :
    (∃ r, db'.task (if redispatched then .fallback t ty else .agent t ty) = some r ∧
      (r.status = .done ∨ r.status = .failed)) ↔
    (∃ task ∈ db.task (.agent t ty), task.status = .pending) ∧
      (Runner.taskResumeValue (.fallback t ty) db).isSome := by
  by_cases hp : ∃ task, db.task (.agent t ty) = some task ∧ task.status = .pending
  · obtain ⟨task, ht, hpend⟩ := hp
    cases (redispatch_pending ht hpend).symm.trans hout
    have hprimary : ∃ task ∈ db.task (.agent t ty), task.status = .pending := ⟨task, ht, hpend⟩
    rw [and_iff_right hprimary, taskResumeValue_isSome hT, if_pos rfl, task_enqueue,
      task_cancelPending]
    cases hf : db.task (.fallback t ty) with
    | none =>
      rw [Option.map_none, Option.none_or, if_pos rfl]
      constructor
      · rintro ⟨r, hr, hst⟩
        cases hr
        rcases hst with hst | hst <;> cases hst
      · rintro ⟨r, hr, -⟩
        cases hr
    | some f =>
      have hkey : f.idempotencyKey ≠ .agent t ty := by
        rw [(Database.task_eq_some hf).2]
        exact nofun
      rw [Option.map_some, Option.some_or, if_neg fun h => hkey h.1]
  · have hno : ∀ r, db.task (.agent t ty) = some r → r.status ≠ .pending :=
      fun r hr hpend => hp ⟨r, hr, hpend⟩
    cases (redispatch_not_pending hT.keys hno).symm.trans hout
    rw [if_neg Bool.false_ne_true, ← taskResumeValue_isSome hT, hnone]
    refine iff_of_false (fun hsome => ?_) fun h => hp h.1
    cases hsome

theorem redirected_primary_iff {ty : TaskType} {wakeupAt : Option Time} (hr : r.wakeupAt.isSome)
    (hlive : wakeupAt.isSome) :
    Runner.Redirected db r (Graph.primaryEnvelope ty t wakeupAt) ↔
      (∃ task ∈ db.task (.agent t ty), task.status = .pending) ∧
        (Runner.taskResumeValue (.fallback t ty) db).isSome := by
  constructor
  · rintro ⟨-, -, key, hkey, hpend, key', hsucc, hsome⟩
    cases hkey
    cases hsucc
    exact ⟨hpend, hsome⟩
  · rintro ⟨hpend, hsome⟩
    exact ⟨hr, hlive, _, rfl, hpend, _, rfl, hsome⟩

/-! ## A call that times out -/

section Timeout
variable (hw : World.Reachable w)
  (hc : Runner.claim i Runner.alone w.shared = (sh₁, .at (.claimed run)))
  (henv : Runner.pendingEnvelope (w.shared.checkpoints.get run.ticketId) = some env)
  (hnone : Runner.resumeValue env w.shared.db = none) (hwake : run.wakeupAt.isSome)
include hw hc henv hnone hwake

theorem invoking_timeout : ∃ cp n, cp.interrupt = some env ∧ cp.next = some n ∧
    cp.values.ticket.id = run.ticketId ∧ StateFor cp.values (some n) ∧
    Suspends cp.values n cp.resumes env ∧
    Invoking sh₁ run ⟨.timeout, none⟩ ⟨cp, some .timeout, none⟩ ∧
    ∀ sh' result, Runner.Finishes (sh₁, .at (.invoking run ⟨.timeout, none⟩
        ⟨cp, some .timeout, none⟩)) sh' result →
      Runner.Finishes (sh₁, .at (.claimed run)) sh' result := by
  obtain ⟨cp, hcp, hint⟩ := pendingEnvelope_eq_some henv
  obtain ⟨hval, hcps, -⟩ := resumeValue_of_claim hc env
  have hs := (hw.threads.1 _ _ hcp).1
  obtain ⟨n, hn, hsus⟩ := hs.parked env hint
  have hstate := hs.state
  rw [hn] at hstate
  have hTh : ThreadsSound sh₁.checkpoints := hcps ▸ hw.threads.1
  have hcp₁ : sh₁.checkpoints.get run.ticketId = some cp := by rw [hcps, hcp]
  obtain ⟨hI, hadv⟩ := invoking_of_get (v := ⟨.timeout, none⟩) hTh hcp₁
  have henv₁ : Runner.pendingEnvelope (sh₁.checkpoints.get run.ticketId) = some env := by
    rw [hcps, henv]
  have hfor : Runner.resumeForRun env run.wakeupAt sh₁.db = some ⟨.timeout, none⟩ := by
    rw [Runner.resumeForRun, hval, hnone]
    exact if_pos hwake
  refine ⟨cp, n, hint, hn, hs.ticket.trans (Checkpoints.threadId_of_get hcp), hstate, hsus, hI,
    fun sh' result hfin => ?_⟩
  refine (Runner.finishes_resuming_iff henv₁ hfor).mpr (.next ?_)
  rw [hadv]
  exact hfin

/-- An approval that is timed out is escalated, and its run steps aside. -/
theorem steps_aside (hkey : env.idempotencyKey = none) :
    ∃ sh', Runner.Finishes (sh₁, .at (.claimed run)) sh' (.ok true) ∧
      Moved w.shared run.ticketId .escalated sh' := by
  obtain ⟨cp, n, hint, hn, hticket, hstate, hsus, hI, hback⟩ :=
    invoking_timeout hw hc henv hnone hwake
  rcases hsus.timeout_cases with ⟨rfl, hres, -⟩ | ⟨ty, -, -, rfl⟩ | ⟨⟨key, hk⟩, -⟩
  · obtain ⟨-, hclass, hwait, reply, hreply, hrisky⟩ := hstate
    obtain ⟨c, hclass⟩ := Option.isSome_iff_exists.mp hclass
    obtain ⟨u, hwait⟩ := Option.isSome_iff_exists.mp hwait
    have hreply : cp.values.draft = some reply := hreply
    set s' : TicketState := { cp.values with status := .escalated } with hs'
    have hrun : Node.run .awaitApproval cp.values
        (Invocation.resumes ⟨cp, some .timeout, none⟩) sh₁.db = (sh₁.db, .update s') := by
      simp only [Node.run, Graph.awaitApproval, hreply, hwait, Invocation.resumes, hres]
      rfl
    obtain ⟨sh₂, inv₂, hI₂, ho₂, hv₂, hn₂, hdb₂, hcps₂, hback₂⟩ := hI.update hn hrun
    have hnil : inv₂.resumes = [] := by
      rw [Invocation.resumes, ho₂, hI₂.sound.2.2.plain ho₂]
      rfl
    -- the finalize task is enqueued, unless it was before
    set db₂ := (Taskqueue.enqueue .taskQueue .finalizeTicket s'.ticket.id
      (.finalize s'.ticket reply.action (Graph.expectedResult s' c reply))
      (.finalize s'.ticket.id) sh₂.db).1 with hdb₂'
    have hrun₂ : Node.run .execute inv₂.checkpoint.values inv₂.resumes sh₂.db = (db₂, .interrupt
        (.terminalTask (.finalize s'.ticket.id) s'.ticket.id .taskQueue
          (Graph.expectedResult s' c reply))) := by
      have hd' : s'.draft = some reply := hreply
      have hc' : s'.classification = some c := hclass
      rw [hv₂, hnil]
      simp only [Node.run, Graph.execute, hd', hc']
      rfl
    obtain ⟨mid, hfin, hmid, -, hcps⟩ := hI₂.suspends hn₂ hrun₂
    rw [hv₂] at hfin
    refine ⟨_, hback _ _ (hback₂ _ _ hfin), ?_⟩
    refine Moved.of_save hc ?_ (fun key hkey => ?_) fun u hu => ?_
    · obtain ⟨rows, seq, hframe⟩ := Node.run_frame .execute inv₂.checkpoint.values inv₂.resumes sh₂.db
      rw [hrun₂, hdb₂] at hframe
      exact ⟨rows, seq, hmid.trans hframe⟩
    · have hne : IdempotencyKey.finalize s'.ticket.id ≠ key := by
        rintro rfl
        exact hkey hticket
      rw [hmid, hdb₂', task_enqueue, if_neg hne, Option.or_none, hdb₂]
    · exact (hcps u hu).trans (hcps₂ u hu)
  · cases hkey
  · rw [hk] at hkey
    cases hkey

theorem stops_at_timeout (hkey : env.idempotencyKey ≠ none) (hdead : env.wakeupAt = none) :
    ∃ sh' error, Runner.Finishes (sh₁, .at (.claimed run)) sh' (.error error) := by
  obtain ⟨cp, n, hint, hn, hticket, hstate, hsus, hI, hback⟩ :=
    invoking_timeout hw hc henv hnone hwake
  rcases hsus.timeout_cases with ⟨-, -, hk⟩ | ⟨ty, hst, -, rfl⟩ | ⟨-, -, hrec, hno⟩
  · exact absurd hk hkey
  · have hdead : cp.values.wakeupAt = none := hdead
    have hlive : cp.values.wakeupAt.isSome := by
      cases n with
      | awaitClassify => exact hstate.2
      | awaitDraft => exact hstate.2.2
      | _ => cases hst
    rw [hdead] at hlive
    cases hlive
  · obtain ⟨sh', error, hfin⟩ := hI.refused hn hrec hno
    exact ⟨sh', error, hback _ _ hfin⟩

/-- An agent stage that is timed out waits for its second interrupt, which is ready at once when the
fallback was answered before. -/
theorem waits_again (hkey : env.idempotencyKey ≠ none) (hlive : env.wakeupAt.isSome) :
    ∃ sh' status env', Runner.Finishes (sh₁, .at (.claimed run)) sh' (.ok true) ∧
      Moved w.shared run.ticketId status sh' ∧ status.terminal = false ∧
      Runner.pendingEnvelope (sh'.checkpoints.get run.ticketId) = some env' ∧
      Unfailed env' sh'.db ∧ (TasksSound sh'.db →
        ((Runner.resumeValue env' sh'.db).isSome ↔ Runner.Redirected w.shared.db run env)) := by
  obtain ⟨cp, n, hint, hn, hticket, hstate, hsus, hI, hback⟩ :=
    invoking_timeout hw hc henv hnone hwake
  rcases hsus.timeout_cases with ⟨-, -, hk⟩ | ⟨ty, hst, hres, rfl⟩ | ⟨-, hdead, -⟩
  · exact absurd hk hkey
  · obtain ⟨payload, hrun⟩ := Node.run_timeout hstate hst sh₁.db
    rcases hout : Graph.redispatchAgentTask ty cp.values.ticket.id payload sh₁.db with
      ⟨db', redispatched⟩
    rw [hout] at hrun
    have hrun : n.run cp.values (Invocation.resumes ⟨cp, some .timeout, none⟩) sh₁.db =
        (db', .interrupt (Graph.secondEnvelope ty cp.values.ticket.id redispatched)) := by
      rw [Invocation.resumes, hres]
      exact hrun
    have hnonterminal : cp.values.status.terminal = false := by
      cases n with
      | awaitClassify => rw [hstate.1]; rfl
      | awaitDraft => rw [hstate.1]; rfl
      | _ => cases hst
    obtain ⟨mid, hfin, hmid, hget, hcps⟩ := hI.suspends hn hrun
    refine ⟨_, cp.values.status, Graph.secondEnvelope ty cp.values.ticket.id redispatched,
      hback _ _ hfin, Moved.of_save hc ?_ (fun key hkey => ?_) hcps, hnonterminal, ?_, trivial,
      fun hT' => ?_⟩
    · obtain ⟨rows, seq, hframe⟩ :=
        n.run_frame cp.values (Invocation.resumes ⟨cp, some .timeout, none⟩) sh₁.db
      rw [hrun] at hframe
      exact ⟨rows, seq, hmid.trans hframe⟩
    · rw [← hticket] at hkey
      have hsame : (Graph.redispatchAgentTask ty cp.values.ticket.id payload sh₁.db).1.task key =
          sh₁.db.task key := task_redispatch_of_ne hkey
      rw [hout] at hsame
      rw [hmid]
      exact hsame
    · exact (congrArg Runner.pendingEnvelope hget).trans rfl
    · obtain ⟨-, rows, hdb₁⟩ := claim_frame hc
      rw [hdb₁] at hout
      have hanswered := redispatch_answered_iff (hw.tasks.1.runs rows) hnone hout
      rw [← hmid] at hanswered
      exact (taskResumeValue_isSome hT').trans
        (hanswered.trans (redirected_primary_iff hwake hlive).symm)
  · rw [hdead] at hlive
    cases hlive

end Timeout

/-! ## Calls until one advances -/

theorem not_advances_of_error {error : GraphError}
    (hc : Runner.claim i Runner.alone sh = (sh₁, .at (.claimed run)))
    (hfin : Runner.Finishes (sh₁, .at (.claimed run)) sh' (.error error)) (m : ℕ) :
    ¬ Runner.AdvancesWithin i m sh := by
  intro h
  cases h with
  | now hc' hready hfin' =>
    cases hc.symm.trans hc'
    cases (hfin.unique hfin').2
  | later hfin' hrest =>
    rw [hc] at hfin'
    cases (hfin.unique hfin').2

theorem advances_of_ready (hw : World.Reachable w)
    (hc : Runner.claim i Runner.alone w.shared = (sh₁, .at (.claimed run)))
    (henv : Runner.pendingEnvelope (w.shared.checkpoints.get run.ticketId) = some env)
    (hready : (Runner.resumeValue env w.shared.db).isSome) (hun : Unfailed env w.shared.db) :
    Runner.AdvancesWithin i 1 w.shared := by
  obtain ⟨sh', hfin⟩ := (finishes_ready hw hc henv hready).1 hun
  exact .now hc ⟨env, henv, hready⟩ hfin

/-- A run saved without a timer and not at its end is the oldest still. -/
theorem Moved.oldest (h : Moved sh t status sh') (hn : RunKeys sh.db)
    (hlive : status.terminal = false) (hr : sh.db.oldest = some r) (ht : r.ticketId = t) :
    sh'.db.oldest = some (Db.saveRunRow status none sh.db.now r) := by
  obtain ⟨hm, hclaim⟩ := firstBy_mem hr
  subst ht
  unfold Database.oldest at *
  rw [h.rows, h.now]
  unfold updateWhere
  rw [firstBy_map, hr, Option.map_some, if_pos rfl]
  · intro x _
    split <;> rfl
  · intro x hx
    split
    · rename_i ht
      cases eq_of_key hn hx hm ht
      exact iff_of_true ⟨.inl hlive, fun _ he => (nomatch he), fun _ he => nomatch he⟩ hclaim
    · exact Iff.rfl

theorem again_of_waits {w' : World} (hw : World.Reachable w) (hw' : World.Reachable w')
    (h : Moved w.shared t status w'.shared) (hlive : status.terminal = false)
    (hr : w.shared.db.oldest = some r) (ht : r.ticketId = t)
    (henv : Runner.pendingEnvelope (w'.shared.checkpoints.get t) = some env)
    (hun : Unfailed env w'.shared.db) :
    ((Runner.resumeValue env w'.shared.db).isSome → Runner.AdvancesWithin i 1 w'.shared) ∧
    (Runner.resumeValue env w'.shared.db = none →
      ∀ m, ¬ Runner.AdvancesWithin i m w'.shared) := by
  obtain ⟨sh₁, hc⟩ := Runner.claim_of_oldest (i := i) (h.oldest hw.held.1 hlive hr ht)
  subst ht
  refine ⟨fun hready => advances_of_ready hw' hc henv hready hun, fun hnone => ?_⟩
  refine blocked_of_idles hw'.held.1 hc fun env' henv' => ?_
  obtain ⟨hval, hcps, -⟩ := resumeValue_of_claim hc env
  rw [hcps] at henv'
  cases henv.symm.trans henv'
  rw [Runner.resumeForRun, hval, hnone]
  rfl

/-- Whether the oldest run is one that gets through decides, unless it is timed out at an approval. -/
theorem unblocked_of_oldest (hr : sh.db.oldest = some r) (hl : ¬ Runner.Lapsed sh r) :
    Runner.Unblocked sh ↔ Runner.Proceeds sh r := by
  unfold Runner.Unblocked
  rw [firstBy_and hr hl]
  simp

/-- A call that claims a run timed out at its approval. -/
theorem calls_of_lapsed (hw : World.Reachable w) (hi : w.procs i = .idle)
    (hr : w.shared.db.oldest = some r) (hl : Runner.Lapsed w.shared r) :
    ∃ w', World.Reachable w' ∧ w'.procs i = .idle ∧
      Runner.Finishes (Runner.claim i Runner.alone w.shared) w'.shared (.ok true) ∧
      Moved w.shared r.ticketId .escalated w'.shared := by
  obtain ⟨⟨env, henv, hkey⟩, hno, hwake⟩ := hl
  obtain ⟨sh₁, hc⟩ := Runner.claim_of_oldest (i := i) hr
  have hnone : Runner.resumeValue env w.shared.db = none := by
    cases hv : Runner.resumeValue env w.shared.db with
    | none => rfl
    | some v => exact absurd ⟨env, henv, by rw [hv]; rfl⟩ hno
  obtain ⟨sh', hfin, hmoved⟩ := steps_aside hw hc henv hnone hwake hkey
  rw [← hc] at hfin
  obtain ⟨w', hw', hsh, hi'⟩ := hw.called hi hfin
  subst hsh
  exact ⟨w', hw', hi', hfin, hmoved⟩

section Oldest
variable (hw : World.Reachable w) (hi : w.procs i = .idle) (hr : w.shared.db.oldest = some r)
include hw hi hr

/-- The oldest run that gets through does so in two calls, and in one if it is ready. -/
theorem advances_of_proceeds (hp : Runner.Proceeds w.shared r) :
    Runner.AdvancesWithin i 2 w.shared ∧
      (Runner.Ready w.shared r.ticketId → Runner.AdvancesWithin i 1 w.shared) := by
  obtain ⟨env, henv, hcase⟩ := hp
  obtain ⟨sh₁, hc⟩ := Runner.claim_of_oldest (i := i) hr
  have hun : (Runner.resumeValue env w.shared.db).isSome → Unfailed env w.shared.db := by
    intro _
    rcases hcase with ⟨-, hun⟩ | ⟨-, hlive, -⟩
    · exact hun
    · cases env with
      | agentTask key ty workflowId queue wakeupAt => trivial
      | approvalRequired ticketId wakeupAt draft => trivial
      | terminalTask key workflowId queue result => cases hlive
  have hone : (Runner.resumeValue env w.shared.db).isSome → Runner.AdvancesWithin i 1 w.shared :=
    fun hsome => advances_of_ready hw hc henv hsome (hun hsome)
  constructor
  · by_cases hsome : (Runner.resumeValue env w.shared.db).isSome
    · exact (hone hsome).mono (by omega)
    · have hnone := Option.not_isSome_iff_eq_none.mp hsome
      have hred : Runner.Redirected w.shared.db r env := hcase.resolve_left fun h => hsome h.1
      have hkey : env.idempotencyKey ≠ none := by
        obtain ⟨-, -, key, hkey, -⟩ := hred
        rw [Option.mem_def.mp hkey]
        exact nofun
      obtain ⟨sh', status, env', hfin, hmoved, hlive, henv', hun', hiff⟩ :=
        waits_again hw hc henv hnone hred.1 hkey hred.2.1
      rw [← hc] at hfin
      obtain ⟨w', hw', rfl, -⟩ := hw.called hi hfin
      have hready := (hiff hw'.tasks.1).mpr hred
      exact .later hfin ((again_of_waits hw hw' hmoved hlive hr rfl henv' hun').1 hready)
  · rintro ⟨env', henv', hready⟩
    cases henv.symm.trans henv'
    exact hone hready

/-- The oldest run that does not get through keeps every other run waiting. -/
theorem blocked_of_not_proceeds (hl : ¬ Runner.Lapsed w.shared r)
    (hp : ¬ Runner.Proceeds w.shared r) (m : ℕ) : ¬ Runner.AdvancesWithin i m w.shared := by
  obtain ⟨sh₁, hc⟩ := Runner.claim_of_oldest (i := i) hr
  have hn := hw.held.1
  by_cases hidle : Runner.Idles (Db.leaseRun i w.shared.db.now r) sh₁
  · exact blocked_of_idles hn hc hidle m
  simp only [Runner.Idles, not_forall] at hidle
  obtain ⟨env, henv, hv⟩ := hidle
  obtain ⟨hval, hcps, -⟩ := resumeValue_of_claim hc env
  rw [hcps] at henv
  have hcase : ¬ ((Runner.resumeValue env w.shared.db).isSome ∧ Unfailed env w.shared.db ∨
      Runner.Redirected w.shared.db r env) := fun h => hp ⟨env, henv, h⟩
  rw [not_or] at hcase
  obtain ⟨hstuck, hred⟩ := hcase
  by_cases hsome : (Runner.resumeValue env w.shared.db).isSome
  · -- the finalize task has failed
    obtain ⟨sh', error, hfin⟩ := (finishes_ready hw hc henv hsome).2 fun hun => hstuck ⟨hsome, hun⟩
    exact not_advances_of_error hc hfin m
  have hnone := Option.not_isSome_iff_eq_none.mp hsome
  have hwake : r.wakeupAt.isSome := by
    by_contra hno
    refine hv ?_
    rw [Runner.resumeForRun, hval, hnone]
    exact if_neg hno
  have hkey : env.idempotencyKey ≠ none := by
    intro hk
    refine hl ⟨⟨env, henv, hk⟩, ?_, hwake⟩
    rintro ⟨env', henv', hready⟩
    cases henv.symm.trans henv'
    exact hsome hready
  cases hlive : env.wakeupAt with
  | none =>
    obtain ⟨sh', error, hfin⟩ := stops_at_timeout hw hc henv hnone hwake hkey hlive
    exact not_advances_of_error hc hfin m
  | some u =>
    obtain ⟨sh', status, env', hfin, hmoved, hterm, henv', hun', hiff⟩ :=
      waits_again hw hc henv hnone hwake hkey (by rw [hlive]; rfl)
    have hfin' := hfin
    rw [← hc] at hfin
    obtain ⟨w', hw', rfl, -⟩ := hw.called hi hfin
    have hnone' : Runner.resumeValue env' w'.shared.db = none :=
      Option.not_isSome_iff_eq_none.mp fun h => hred ((hiff hw'.tasks.1).mp h)
    intro hadv
    cases hadv with
    | now hc' hready hfin₂ =>
      cases hc.symm.trans hc'
      obtain ⟨env₂, henv₂, hready⟩ := hready
      cases henv.symm.trans henv₂
      exact hsome hready
    | later hfin₂ hrest =>
      obtain ⟨rfl, -⟩ := hfin.unique hfin₂
      exact (again_of_waits hw hw' hmoved hterm hr rfl henv' hun').2 hnone' _ hrest

end Oldest

theorem lapsed_all (hn : RunKeys sh.db) (hr : sh.db.oldest = some r) (hl : Runner.Lapsed sh r) :
    ∀ x ∈ sh.db.workflowRun, x.ticketId = r.ticketId → Runner.Lapsed sh x := by
  intro x hx ht
  cases eq_of_key hn hx (firstBy_mem hr).1 ht
  exact hl

/-- What an unblocked runner needs: one call for every run that steps aside, and at most two for the
run that gets through. -/
theorem advances_of_unblocked : ∀ {m : ℕ} {w : World}, World.Reachable w → w.procs i = .idle →
    w.shared.db.claimable.length ≤ m →
    (∃ r ∈ w.shared.db.claimable, Runner.Ready w.shared r.ticketId) →
    Runner.Unblocked w.shared → Runner.AdvancesWithin i m w.shared := by
  intro m
  induction m with
  | zero =>
    intro w _ _ hlen hsome _
    obtain ⟨r, hr, -⟩ := hsome
    rw [List.eq_nil_of_length_eq_zero (Nat.le_zero.mp hlen)] at hr
    cases hr
  | succ m ih =>
    intro w hw hi hlen hsome hub
    obtain ⟨ready, hm, hready⟩ := hsome
    obtain ⟨hmrow, hmclaim⟩ := List.mem_filter.mp hm
    obtain ⟨r, hr⟩ : ∃ r, w.shared.db.oldest = some r := by
      refine Option.ne_none_iff_exists'.mp fun hnone => ?_
      exact firstBy_eq_none.mp hnone ready hmrow (of_decide_eq_true hmclaim)
    obtain ⟨hrow, hclaim⟩ := firstBy_mem hr
    by_cases hself : Runner.Ready w.shared r.ticketId
    · have hl : ¬ Runner.Lapsed w.shared r := fun hl => hl.2.1 hself
      have hone := (advances_of_proceeds hw hi hr ((unblocked_of_oldest hr hl).mp hub)).2 hself
      exact hone.mono (by omega)
    -- the run that is ready is another one, and claimable still when the oldest has stepped aside
    have hne : ready.ticketId ≠ r.ticketId := fun ht => hself (ht ▸ hready)
    set rest := w.shared.db.claimable.filter (·.ticketId ≠ r.ticketId) with hrest
    have hmem : ready ∈ rest := List.mem_filter.mpr ⟨hm, decide_eq_true hne⟩
    have hlt : rest.length < w.shared.db.claimable.length := by
      refine List.length_filter_lt_length_iff_exists.mpr ⟨r, ?_, by simp⟩
      exact List.mem_filter.mpr ⟨hrow, decide_eq_true hclaim⟩
    have hpos := List.length_pos_of_mem hmem
    by_cases hl : Runner.Lapsed w.shared r
    · obtain ⟨w', hw', hi', hfin, hmoved⟩ := calls_of_lapsed hw hi hr hl
      have heq : w'.shared.db.claimable = rest := hmoved.claimable_eq rfl
      have hub' := (hmoved.unblocked_iff hw hw' rfl (lapsed_all hw.held.1 hr hl)).mpr hub
      refine .later hfin (ih hw' hi' ?_ ?_ hub')
      · rw [heq]
        omega
      · rw [heq]
        exact ⟨ready, hmem, (hmoved.ready_iff hw hw' hne).mpr hready⟩
    · have htwo := (advances_of_proceeds hw hi hr ((unblocked_of_oldest hr hl).mp hub)).1
      exact htwo.mono (by omega)

/-- A blocked runner advances nothing that is ready, however often it is called. -/
theorem blocked_for_ever : ∀ {m : ℕ} {w : World}, World.Reachable w → w.procs i = .idle →
    ¬ Runner.Unblocked w.shared → ¬ Runner.AdvancesWithin i m w.shared := by
  intro m
  induction m with
  | zero => exact fun _ _ _ h => nomatch h
  | succ m ih =>
    intro w hw hi hub hadv
    cases hr : w.shared.db.oldest with
    | none =>
      have hc : Runner.claim i Runner.alone w.shared = (w.shared, .returned false) := by
        rw [Runner.claim_alone, hr]
      cases hadv with
      | now hc' hready hfin => cases hc.symm.trans hc'
      | later hfin hrest =>
        rw [hc] at hfin
        cases hfin with
        | returned => exact ih hw hi hub hrest
    | some r =>
      by_cases hl : Runner.Lapsed w.shared r
      · obtain ⟨w', hw', hi', hfin, hmoved⟩ := calls_of_lapsed hw hi hr hl
        have hub' := mt (hmoved.unblocked_iff hw hw' rfl (lapsed_all hw.held.1 hr hl)).mp hub
        cases hadv with
        | now hc' hready hfin₂ =>
          obtain ⟨sh₁, hc⟩ := Runner.claim_of_oldest (i := i) hr
          cases hc.symm.trans hc'
          exact hl.2.1 hready
        | later hfin₂ hrest =>
          obtain ⟨rfl, -⟩ := hfin.unique hfin₂
          exact ih hw' hi' hub' hrest
      · exact blocked_of_not_proceeds hw hi hr hl (mt (unblocked_of_oldest hr hl).mpr hub) _ hadv

/-! ## Waiting tickets and the others -/

/-- Where some claimable run is ready, as many calls as there are claimable runs advance one that is
ready exactly when the oldest run that does not step aside is one that gets through; else no number
of calls does. -/
theorem others_advance_iff_unblocked (hw : World.Reachable w) (hi : w.procs i = .idle)
    (hready : ∃ r ∈ w.shared.db.claimable, Runner.Ready w.shared r.ticketId) :
    (Runner.AdvancesWithin i w.shared.db.claimable.length w.shared ↔ Runner.Unblocked w.shared) ∧
      (¬ Runner.Unblocked w.shared → ∀ m, ¬ Runner.AdvancesWithin i m w.shared) := by
  refine ⟨⟨fun h => ?_, advances_of_unblocked hw hi le_rfl hready⟩, fun hub m => ?_⟩
  · by_contra hub
    exact blocked_for_ever hw hi hub h
  · exact blocked_for_ever hw hi hub

/-- Runner 2 is idle and some claimable run is ready, and the runner is unblocked or not. -/
def contends (unblocked : Bool) (w : World) : Bool :=
  decide (w.procs 2 = .idle) &&
    decide (∃ r ∈ w.shared.db.claimable, Runner.Ready w.shared r.ticketId) &&
    decide (Runner.Unblocked w.shared) == unblocked

theorem contends_spec {unblocked : Bool} (h : contends unblocked w = true) :
    w.procs 2 = .idle ∧ (∃ r ∈ w.shared.db.claimable, Runner.Ready w.shared r.ticketId) ∧
      (Runner.Unblocked w.shared ↔ unblocked = true) := by
  obtain ⟨hboth, hub⟩ := Bool.and_eq_true_iff.mp h
  obtain ⟨hi, hready⟩ := Bool.and_eq_true_iff.mp hboth
  refine ⟨of_decide_eq_true hi, of_decide_eq_true hready, ?_⟩
  rw [← eq_of_beq hub]
  exact decide_eq_true_iff.symm

/-- Ticket 7 is past the deadline of its approval, and the younger ticket 8 is classified. -/
def Schedule.bothReady : Schedule :=
  Schedule.drafted Schedule.riskyDraft 12 ++
    [(0, .tick approvalTimeout), (0, .createTicket { Schedule.ticket with id := 8 })] ++
    Schedule.advance 0 5 ++
    Schedule.work 1 .agentTaskQueue (.classification Schedule.classification)

/-- Of two claimable runs the older is ready, and a runner needs at most two calls. -/
theorem others_advance_iff_unblocked_classified : ∃ w, World.Reachable w ∧
    w.shared.db.claimable.length = 2 ∧ Runner.AdvancesWithin 2 2 w.shared := by
  have hrun : (World.initial.run Proc.step Schedule.bothReady).map (fun w =>
      contends true w && decide (w.shared.db.claimable.length = 2)) = some true := by
    decide +kernel
  obtain ⟨w, hw, hp⟩ := exists_reachableWhen_of_run hrun
  obtain ⟨hcontends, htwo⟩ := Bool.and_eq_true_iff.mp hp
  obtain ⟨hi, hready, hub⟩ := contends_spec hcontends
  have hcalls := (others_advance_iff_unblocked hw hi hready).1.mpr (hub.mpr rfl)
  rw [of_decide_eq_true htwo] at hcalls
  exact ⟨w, hw, of_decide_eq_true htwo, hcalls⟩

/-- Ticket 7 waits for its finalize task, and the younger ticket 8 is classified. -/
def Schedule.overshadowed : Schedule :=
  Schedule.drafted Schedule.safeDraft 10 ++
    [(0, .tick (seconds 1)), (0, .createTicket { Schedule.ticket with id := 8 })] ++
    Schedule.advance 0 5 ++
    Schedule.work 1 .agentTaskQueue (.classification Schedule.classification)

/-- A ticket that waits with no timer starves every younger one. -/
theorem waiting_ticket_starves : ¬ ∀ w i, World.Reachable w → w.procs i = .idle →
    (∃ r ∈ w.shared.db.claimable, Runner.Ready w.shared r.ticketId) →
    Runner.AdvancesWithin i w.shared.db.claimable.length w.shared := by
  intro hall
  have hrun : (World.initial.run Proc.step Schedule.overshadowed).map (contends false) =
      some true := by decide +kernel
  obtain ⟨w, hw, hp⟩ := exists_reachableWhen_of_run hrun
  obtain ⟨hi, hready, hub⟩ := contends_spec hp
  refine blocked_for_ever hw hi (fun h => ?_) (hall w 2 hw hi hready)
  cases hub.mp h

end TicketFlow
