import TicketFlow.Outbox

/-! # Only failed tasks escalate

`cancel_pending` leaves the redispatched primary task with the status of a task that `fail` gave up.
A row alone does not tell the two apart, the steps of the run do. The escalation branch of a stage
is taken for its active task, as long as nobody looks the cancelled one up and nobody overtaken
saves. -/

namespace TicketFlow
open Table Interleaving
set_option autoImplicit false

/-- The steps of a run, latest first. -/
abbrev Steps := List (World × WorkerId × Action)

/-- The step is a `fail` that gives the task up. -/
def GivesUp (w : World) (i : WorkerId) (a : Action) (key : IdempotencyKey) : Prop :=
  a = .advance ∧ ∃ task error permanent r, w.procs i = .worker (.failing task error permanent) ∧
    w.shared.db.task key = some r ∧ Taskqueue.Settles task.id r ∧ ¬ Taskqueue.Retries permanent r

/-- `fail` has given the task up. -/
def GivenUp (steps : Steps) (key : IdempotencyKey) : Prop :=
  ∃ x ∈ steps, GivesUp x.1 x.2.1 x.2.2 key

/-- The fallback task of a stage if it was enqueued, else the primary one. -/
def activeTask (db : Database) (t : TicketId) (ty : TaskType) : IdempotencyKey :=
  if (db.task (.fallback t ty)).isSome then .fallback t ty else .agent t ty

/-- The task that takes over when this one is redispatched. -/
def IdempotencyKey.successor : IdempotencyKey → Option IdempotencyKey
  | .agent t ty => some (.fallback t ty)
  | .fallback _ _ | .finalize _ => none

/-- The task has been redispatched. -/
def Redispatched (db : Database) (key : IdempotencyKey) : Prop :=
  ∃ key' ∈ key.successor, (db.task key').isSome

/-- The agent stage a node waits for. -/
def Node.stage : Node → Option TaskType
  | .awaitClassify => some .classify
  | .awaitDraft => some .draft
  | _ => none

/-- The node that shows the envelope. -/
def Envelope.node : Envelope → Node
  | .agentTask _ .classify _ _ _ => .awaitClassify
  | .agentTask _ .draft _ _ _ => .awaitDraft
  | .agentTask _ .finalizeTicket _ _ _ | .terminalTask _ _ _ _ => .execute
  | .approvalRequired _ _ _ => .awaitApproval

/-- The task the process is about to look up. -/
def Proc.looksUp : Proc → Option IdempotencyKey
  | .runner (.inspected _ env) => env.idempotencyKey
  | _ => none

instance (db : Database) (key : IdempotencyKey) : Decidable (Redispatched db key) :=
  inferInstanceAs (Decidable (∃ key' ∈ key.successor, _))

/-- Nobody overtaken saves, and nobody looks up a task that has been redispatched. -/
def Attentive (w : World) (i : WorkerId) : Action → Prop
  | .advance => Unovertaken w i .advance ∧
      ∀ key ∈ (w.procs i).looksUp, ¬ Redispatched w.shared.db key
  | _ => True

instance (w : World) (i : WorkerId) : DecidablePred (Attentive w i)
  | .advance => inferInstanceAs (Decidable (_ ∧ _))
  | .tick _ | .crash | .createTicket _ | .submitApproval _ _ | .claimRun _ | .dequeue _ _
  | .activityReturns _ | .activityRaises _ _ | .reclaimExpiredLeases | .reconcileOrphanedRuns
  | .runRetention _ => isTrue trivial

variable {sh sh' : Shared} {w w' : World} {i : WorkerId} {p p' : Proc} {a : Action} {t : TicketId}
  {ty : TaskType} {r : QueuedTask} {db : Database} {key : IdempotencyKey} {n : Node}
  {s : TicketState} {resumes : List Resume} {env : Envelope} {steps : Steps} {run : WorkflowRun}
  {v : ResumeValue} {error : Option String} {permanent : Bool}

theorem Attentive.unovertaken (h : Attentive w i a) : Unovertaken w i a := by
  cases a with
  | advance => exact h.1
  | _ => exact trivial

theorem Attentive.unpruned (h : Attentive w i a) : Unpruned w i a := h.unovertaken.unpruned

theorem GivenUp.cons {x : World × WorkerId × Action} (h : GivenUp steps key) :
    GivenUp (x :: steps) key :=
  h.imp fun _ hx => ⟨List.mem_cons_of_mem _ hx.1, hx.2⟩

theorem Suspends.node (h : Suspends s n resumes env) : env.node = n := by
  cases h with
  | @classifyAgain redispatched => cases redispatched <;> rfl
  | @draftAgain c redispatched hc => cases redispatched <;> rfl
  | _ => rfl

theorem Envelope.node_cases (env : Envelope) : env.node = .awaitClassify ∨
    env.node = .awaitDraft ∨ env.node = .awaitApproval ∨ env.node = .execute := by
  cases env with
  | agentTask key ty workflowId queue wakeupAt => cases ty <;> simp [Envelope.node]
  | approvalRequired ticketId wakeupAt draft => simp [Envelope.node]
  | terminalTask key workflowId queue result => simp [Envelope.node]

/-! ## Active tasks -/

theorem activeTask_of_some (h : (db.task (.fallback t ty)).isSome) :
    activeTask db t ty = .fallback t ty := if_pos h

theorem activeTask_of_none (h : db.task (.fallback t ty) = none) :
    activeTask db t ty = .agent t ty := by
  rw [activeTask, h]
  rfl

/-- A task of a stage that was not redispatched is the active one. -/
theorem activeTask_of_key (hr : (db.task key).isSome) (hno : ¬ Redispatched db key)
    (hty : key.taskType ≠ .finalizeTicket) : activeTask db key.ticket key.taskType = key := by
  cases key with
  | agent t ty =>
    refine activeTask_of_none ?_
    cases hf : db.task (.fallback t ty) with
    | none => exact hf
    | some f => exact absurd ⟨_, rfl, by rw [hf]; rfl⟩ hno
  | fallback t ty => exact activeTask_of_some hr
  | finalize t => exact absurd rfl hty

/-- The active task of a stage has failed. -/
def StageFailed (steps : Steps) (db : Database) (t : TicketId) (ty : TaskType) : Prop :=
  GivenUp steps (activeTask db t ty) ∧
    ∃ r, db.task (activeTask db t ty) = some r ∧ r.status = .failed

theorem Effect.no_fallback (he : Effect sh i p a sh' p') (hT : TasksSound sh.db)
    (hr : sh.db.task (.agent t ty) = some r) (hst : r.status = .failed)
    (hnone : sh.db.task (.fallback t ty) = none) : sh'.db.task (.fallback t ty) = none := by
  cases hf : sh'.db.task (.fallback t ty) with
  | none => rfl
  | some f =>
    obtain ⟨r', hr', hpend, -⟩ := he.redispatches hT hnone hf
    cases hr.symm.trans hr'
    rw [hst] at hpend
    cases hpend

theorem StageFailed.effect (h : StageFailed steps sh.db t ty) (hT : TasksSound sh.db)
    (hp : a = .advance → p.prunes = false) (he : Effect sh i p a sh' p')
    (x : World × WorkerId × Action) : StageFailed (x :: steps) sh'.db t ty := by
  obtain ⟨hup, r, hr, hst⟩ := h
  have hr' := (he.taskChange hT.keys _).frozen hp hr (.inr hst)
  have hsame : activeTask sh'.db t ty = activeTask sh.db t ty := by
    cases hf : sh.db.task (.fallback t ty) with
    | some f =>
      have hsome : (sh.db.task (.fallback t ty)).isSome := by
        rw [hf]
        rfl
      rw [activeTask_of_some hsome, activeTask_of_some (he.keeps_task hT.keys hp hsome)]
    | none =>
      rw [activeTask_of_none hf] at hr ⊢
      exact activeTask_of_none (he.no_fallback hT hr hst hf)
  rw [StageFailed, hsame]
  exact ⟨hup.cons, r, hr', hst⟩

theorem StageFailed.not_classified {c : Classification} (h : StageFailed steps db t .classify)
    (hE : Exclusive db) (hT : TasksSound db) : ¬ Classified db t c := by
  rintro ⟨key, r, ht, hty, hr, hres⟩
  obtain ⟨-, r₀, hr₀, hst⟩ := h
  have hdone := (hT.of_task hr).2.done.mp (by rw [hres]; rfl)
  have done_of : ∀ {key'}, key = key' → db.task key' = some r₀ → False := by
    rintro _ rfl hr'
    cases hr.symm.trans hr'
    rw [hdone] at hst
    cases hst
  cases hf : db.task (.fallback t .classify) with
  | some f =>
    rw [activeTask_of_some (by rw [hf]; rfl)] at hr₀
    rcases IdempotencyKey.of_taskType ht hty (by decide) with rfl | rfl
    · rw [hE.one_result hr hf] at hres
      cases hres
    · exact done_of rfl hr₀
  | none =>
    rw [activeTask_of_none hf] at hr₀
    rcases IdempotencyKey.of_taskType ht hty (by decide) with rfl | rfl
    · exact done_of rfl hr₀
    · cases hr.symm.trans hf

/-! ## Why a task has failed -/

theorem Effect.ran_log {dr : Driver} {inv : Invocation}
    (h : Effect sh i (dr.driving inv) .advance sh' p') (hr : inv.result = none)
    (hn : inv.checkpoint.next = some n) :
    sh'.log = .ran inv.checkpoint.threadId n inv.checkpoint.values inv.resumes :: sh.log := by
  generalize hp : dr.driving inv = p at h
  have same : ∀ {dr' : Driver} {inv'}, dr.driving inv = dr'.driving inv' → inv' = inv := by
    intro dr' inv' he
    have hinv := congrArg Proc.invocation he
    rw [Proc.invocation_driving, Proc.invocation_driving] at hinv
    exact (Option.some.inj hinv).symm
  cases h with
  | @ran dr' inv' n' db result hr' hn' hrun =>
    cases same hp
    cases hn.symm.trans hn'
    rfl
  | @put dr' inv' values next hr' hn' =>
    cases same hp
    rw [hr] at hr'
    cases hr'
  | @suspended dr' inv' env hr' =>
    cases same hp
    rw [hr] at hr'
    cases hr'
  | quiet hl =>
    cases hl with
    | @ended dr' inv' hr' hn' =>
      cases same hp
      rw [hn] at hn'
      cases hn'
    | @raised dr' inv' error hr' =>
      cases same hp
      rw [hr] at hr'
      cases hr'
    | _ => cases dr <;> cases hp
  | _ => cases dr <;> cases hp

/-- A failed task was given up, or redispatched. -/
def FailuresExplained (steps : Steps) (db : Database) : Prop := ∀ key r,
  db.task key = some r → r.status = .failed → GivenUp steps key ∨ Redispatched db key

theorem Redispatched.effect (h : Redispatched sh.db key) (hT : TasksSound sh.db)
    (hp : a = .advance → p.prunes = false) (he : Effect sh i p a sh' p') :
    Redispatched sh'.db key :=
  h.imp fun _ hk => ⟨hk.1, he.keeps_task hT.keys hp hk.2⟩

theorem FailuresExplained.effect (h : FailuresExplained steps w.shared.db)
    (hT : TasksSound w.shared.db) (hp : a = .advance → (w.procs i).prunes = false)
    (he : Effect w.shared i (w.procs i) a sh' p') :
    FailuresExplained ((w, i, a) :: steps) sh'.db := by
  intro key r' hr' hst
  have old : ∀ {r}, w.shared.db.task key = some r → r.status = .failed →
      GivenUp ((w, i, a) :: steps) key ∨ Redispatched sh'.db key := fun hr hst =>
    (h key _ hr hst).imp GivenUp.cons fun hf => hf.effect hT hp he
  cases he.taskChange hT.keys key with
  | same heq => exact old (heq.symm.trans hr') hst
  | inserted hp₀ ha hr hn hw hp' hlog hins hnone heq =>
    cases hr'.symm.trans heq
    cases hst
  | @cancelled dr inv n taskType workflowId payload r hp₀ ha hr hn hw hp' hkey ht hpend heq =>
    subst hkey ha
    right
    refine ⟨_, rfl, ?_⟩
    have hE := he
    rw [hp₀] at hE
    rw [he.ran_db (hE.ran_log hr hn), hw, Option.map_some, Option.getD_some,
      apply_redispatch ht hpend]
    exact task_enqueue_self
  | leased hp₀ ha ht hdue hp' heq =>
    cases hr'.symm.trans heq
    cases hst
  | completed hp₀ ha ht hs hp' heq hlog =>
    cases hr'.symm.trans heq
    cases hst
  | @failed task error permanent r hp₀ ha ht hs hp' heq =>
    cases hr'.symm.trans heq
    refine .inl ⟨_, List.mem_cons_self, ha, task, error, permanent, r, hp₀, ht, hs, fun hret => ?_⟩
    rw [Taskqueue.failRow, if_pos hret] at hst
    cases hst
  | reclaimed hp₀ ha ht hx heq =>
    cases hr'.symm.trans heq
    cases hst
  | pruned hp₀ ha ht hst' heq =>
    rw [heq] at hr'
    cases hr'

/-- A task that was given up stays failed, and is never redispatched. -/
def GivenUpSound (steps : Steps) (db : Database) : Prop := ∀ key, GivenUp steps key →
  (∃ r, db.task key = some r ∧ r.status = .failed) ∧ ¬ Redispatched db key

theorem GivesUp.effect (h : GivesUp w i a key) (hE : Exclusive w.shared.db)
    (he : Effect w.shared i (w.procs i) a sh' p') :
    (∃ r, sh'.db.task key = some r ∧ r.status = .failed) ∧ ¬ Redispatched sh'.db key := by
  obtain ⟨rfl, task, error, permanent, r, hp, hr, hs, hret⟩ := h
  rw [hp] at he
  generalize hpc : Proc.worker (.failing task error permanent) = p at he
  cases he with
  | @failed task' error' permanent' r' hm hs' hf =>
    cases hpc
    refine ⟨⟨_, task_fail.trans (by rw [hr]; rfl), ?_⟩, ?_⟩
    · dsimp only
      rw [if_pos hs, Taskqueue.failRow, if_neg hret]
    · rintro ⟨key', hkey, hsome⟩
      have hsome' : (w.shared.db.task key').isSome := by
        have hmap : (Taskqueue.fail task.id error permanent w.shared.db).1.task key' = _ := task_fail
        have hsome₁ : ((Taskqueue.fail task.id error permanent w.shared.db).1.task key').isSome :=
          hsome
        rw [hmap, Option.isSome_map] at hsome₁
        exact hsome₁
      obtain ⟨f, hf'⟩ := Option.isSome_iff_exists.mp hsome'
      cases key with
      | agent t ty =>
        cases hkey
        obtain ⟨r₁, hr₁, hst₁, -⟩ := hE t ty f hf'
        cases hr.symm.trans hr₁
        have hleased := hs.2
        rw [hst₁] at hleased
        cases hleased
      | fallback t ty => cases hkey
      | finalize t => cases hkey
  | quiet hl =>
    cases hl with
    | @ended dr inv hr hn => cases dr <;> cases hpc
    | @raised dr inv error hr => cases dr <;> cases hpc
    | missed hpc' hno =>
      rcases hpc' with ⟨result, rfl⟩ | ⟨error', permanent', rfl⟩
      · cases hpc
      · cases hpc
        exact absurd hs (hno r (Database.task_eq_some hr).1)
    | _ => cases hpc
  | @ran dr inv n db result hr hn hrun => cases dr <;> cases hpc
  | @put dr inv values next hr hn => cases dr <;> cases hpc
  | @suspended dr inv env hr => cases dr <;> cases hpc
  | _ => cases hpc

theorem GivenUpSound.effect (h : GivenUpSound steps w.shared.db) (hT : TasksSound w.shared.db)
    (hE : Exclusive w.shared.db) (hp : a = .advance → (w.procs i).prunes = false)
    (he : Effect w.shared i (w.procs i) a sh' p') :
    GivenUpSound ((w, i, a) :: steps) sh'.db := by
  rintro key ⟨x, hx, hgives⟩
  rcases List.mem_cons.mp hx with rfl | hx
  · exact hgives.effect hE he
  · obtain ⟨⟨r, hr, hst⟩, hno⟩ := h key ⟨x, hx, hgives⟩
    refine ⟨⟨r, (he.taskChange hT.keys key).frozen hp hr (.inr hst), hst⟩, ?_⟩
    rintro ⟨key', hkey, hsome⟩
    cases key with
    | agent t ty =>
      cases hkey
      have hnone : w.shared.db.task (.fallback t ty) = none := by
        cases hf : w.shared.db.task (.fallback t ty) with
        | none => rfl
        | some f => exact absurd ⟨_, rfl, by rw [hf]; rfl⟩ hno
      rw [he.no_fallback hT hr hst hnone] at hsome
      cases hsome
    | fallback t ty => cases hkey
    | finalize t => cases hkey

/-! ## What a runner carries -/

/-- The stage a node waits for, if any, has failed. -/
def NodeFailed (steps : Steps) (db : Database) (t : TicketId) (n : Node) : Prop :=
  ∀ ty ∈ n.stage, StageFailed steps db t ty

/-- Where the failure a runner brings comes from: an interrupt at which the thread is, or was. -/
structure FailureKnows (steps : Steps) (sh : Shared) (p : Proc) : Prop where
  inspected : ∀ run env, p = .runner (.inspected run env) →
    Reached sh.checkpoints run.ticketId env.node
  resuming : ∀ run v error permanent, p = .runner (.resuming run v) →
    v.payload = .taskFailed error permanent →
    ∃ env : Envelope, NodeFailed steps sh.db run.ticketId env.node ∧
      Reached sh.checkpoints run.ticketId env.node
  invoking : ∀ run v inv error permanent, p = .runner (.invoking run v inv) →
    inv.offered = some (.taskFailed error permanent) →
    ∃ env : Envelope, NodeFailed steps sh.db run.ticketId env.node ∧
      Node.rank inv.checkpoint.next ≤ Node.rank (some env.node)

theorem NodeFailed.effect (h : NodeFailed steps sh.db t n) (hT : TasksSound sh.db)
    (hp : a = .advance → p.prunes = false) (he : Effect sh i p a sh' p')
    (x : World × WorkerId × Action) : NodeFailed (x :: steps) sh'.db t n :=
  fun ty hty => (h ty hty).effect hT hp he x

theorem FailureKnows.other {q : Proc} (h : FailureKnows steps w.shared q)
    (hok : a = .advance → SavesLatest w i)
    (hT : TasksSound w.shared.db) (hp : a = .advance → (w.procs i).prunes = false)
    (hP : (w.procs i).ThreadSound w.shared.checkpoints)
    (hc : ∀ t, q.Drives t → Created t w.shared.log)
    (he : Effect w.shared i (w.procs i) a sh' p') (x : World × WorkerId × Action) :
    FailureKnows (x :: steps) sh' q := by
  refine ⟨fun run env hq => ?_, fun run v error permanent hq hpay => ?_,
    fun run v inv error permanent hq ho => ?_⟩
  · have hcr := hc run.ticketId (by rw [hq]; rfl)
    exact (h.inspected run env hq).effect hok hP hcr he
  · have hcr := hc run.ticketId (by rw [hq]; rfl)
    obtain ⟨env, hf, hn⟩ := h.resuming run v error permanent hq hpay
    exact ⟨env, hf.effect hT hp he x, hn.effect hok hP hcr he⟩
  · obtain ⟨env, hf, hn⟩ := h.invoking run v inv error permanent hq ho
    exact ⟨env, hf.effect hT hp he x, hn⟩

theorem taskResumeValue_of_failed (hv : Runner.resumeForRun env run.wakeupAt db = some v)
    (hpay : v.payload = .taskFailed error permanent) :
    ∃ key, env.idempotencyKey = some key ∧ Runner.taskResumeValue key db = some v := by
  cases Runner.resumeForRun_found hv with
  | decision happ hsig => cases hpay
  | timeout hsome hnone => cases hpay
  | task hkey htask hdecision htimeout => exact ⟨_, hkey, htask⟩

theorem failed_of_lookup (hT : TasksSound db) (h : Runner.taskResumeValue key db = some v)
    (hpay : v.payload = .taskFailed error permanent) :
    ∃ r, db.task key = some r ∧ r.status = .failed := by
  obtain ⟨r, hr, rfl, ⟨hst, -⟩ | ⟨-, x, -, hx⟩⟩ := taskResumeValue_eq_some h
  · exact ⟨r, task_of_mem hT.keys hr, hst⟩
  · rw [hx] at hpay
    cases hpay

theorem lookup_failed (hT : TasksSound db) (hkey : env.idempotencyKey = some key)
    (hr : db.task key = some r) (hst : r.status = .failed) :
    Runner.resumeForRun env run.wakeupAt db = some ⟨.taskFailed r.error r.permanent, none⟩ := by
  obtain ⟨hm, hrk⟩ := Database.task_eq_some hr
  have hfind : db.taskQueue.find? (Runner.Settled key) = some r := by
    cases hf : db.taskQueue.find? (Runner.Settled key) with
    | none =>
      have hno := List.find?_eq_none.mp hf r hm
      exact absurd (decide_eq_true ⟨hrk, .inr hst⟩) hno
    | some r' =>
      have hset := List.find?_some hf
      have hr' := task_of_mem hT.keys (List.mem_of_find?_eq_some hf)
      rw [(of_decide_eq_true hset).1, hr] at hr'
      exact hr'.symm
  have htask : Runner.taskResumeValue key db = some ⟨.taskFailed r.error r.permanent, none⟩ := by
    rw [Runner.taskResumeValue, hfind, Option.bind_some, Runner.settledValue, if_pos hst]
    rfl
  have happ : Runner.approvalResumeValue env db = none := by
    cases env with
    | agentTask key ty workflowId queue wakeupAt => rfl
    | approvalRequired ticketId wakeupAt draft => cases hkey
    | terminalTask key workflowId queue result => rfl
  have hval : Runner.resumeValue env db = some ⟨.taskFailed r.error r.permanent, none⟩ := by
    rw [Runner.resumeValue, happ, hkey]
    exact htask
  rw [Runner.resumeForRun, hval]

/-- What a lookup of a task that was not redispatched finds is the failure of the stage. -/
theorem nodeFailed_of_lookup (hF : FailuresExplained steps db) (hT : TasksSound db)
    (hfor : env.For t) (hno : ∀ key ∈ env.idempotencyKey, ¬ Redispatched db key)
    (hv : Runner.resumeForRun env run.wakeupAt db = some v)
    (hpay : v.payload = .taskFailed error permanent) : NodeFailed steps db t env.node := by
  intro ty hty
  obtain ⟨key, hkey, hval⟩ := taskResumeValue_of_failed hv hpay
  obtain ⟨r, hr, hst⟩ := failed_of_lookup hT hval hpay
  have hup : GivenUp steps key := (hF key r hr hst).resolve_right (hno key hkey)
  obtain ⟨s, n, resumes, ht, hsus⟩ := hfor
  obtain ⟨hkt, -, henv, -⟩ := hsus.keyed hkey
  have htype : key.taskType = ty ∧ ty ≠ .finalizeTicket := by
    rw [hsus.node] at hty
    cases hsus with
    | classify =>
      cases hty
      cases hkey
      exact ⟨rfl, nofun⟩
    | @classifyAgain redispatched =>
      cases hty
      cases hkey
      exact ⟨by cases redispatched <;> rfl, nofun⟩
    | draft hc =>
      cases hty
      cases hkey
      exact ⟨rfl, nofun⟩
    | @draftAgain c redispatched hc =>
      cases hty
      cases hkey
      exact ⟨by cases redispatched <;> rfl, nofun⟩
    | approval hw hd => cases hty
    | terminal hc hd => cases hty
  have hactive := activeTask_of_key (by rw [hr]; rfl) (hno key hkey)
    (by rw [htype.1]; exact htype.2)
  rw [hkt, ht, htype.1] at hactive
  rw [StageFailed, hactive]
  exact ⟨hup, r, hr, hst⟩

theorem FailureKnows.acts (h : FailureKnows steps w.shared (w.procs i)) (hok : Attentive w i a)
    (hF : FailuresExplained steps w.shared.db) (hT : TasksSound w.shared.db)
    (hp : a = .advance → (w.procs i).prunes = false) (hTh : ThreadsSound w.shared.checkpoints)
    (hP : (w.procs i).ThreadSound w.shared.checkpoints)
    (hc : ∀ t, (w.procs i).Drives t → Created t w.shared.log)
    (he : Effect w.shared i (w.procs i) a sh' p') (x : World × WorkerId × Action) :
    FailureKnows (x :: steps) sh' p' := by
  have hother := h.other hok.unovertaken.savesLatest hT hp hP hc he x
  have hlook : a = .advance → ∀ key ∈ (w.procs i).looksUp, ¬ Redispatched w.shared.db key := by
    rintro rfl
    exact hok.2
  clear hok
  generalize w.procs i = p at *
  refine ⟨?_, ?_, ?_⟩
  · rintro run env rfl
    generalize hp' : Proc.runner (.inspected run env) = p' at he
    cases he with
    | tick elapsed => exact hother.inspected run env hp'.symm
    | quiet hl =>
      cases hl with
      | @ended dr inv hr hn => cases dr <;> cases hp'
      | inspected hcp henv =>
        cases hp'
        intro cp hcp'
        cases hcp.symm.trans hcp'
        obtain ⟨n, hn, hsus⟩ := (hTh _ _ hcp).1.parked _ henv
        rw [hn, hsus.node]
      | _ => cases hp'
    | @ran dr inv n db result hr hn hrun => cases dr <;> cases hp'
    | @put dr inv values next hr hn => cases dr <;> cases hp'
    | @suspended dr inv env hr => cases dr <;> cases hp'
    | failed hm hs hf => split at hp' <;> cases hp'
    | _ => cases hp'
  · rintro run v error permanent rfl hpay
    generalize hp' : Proc.runner (.resuming run v) = p' at he
    cases he with
    | tick elapsed => exact hother.resuming run v error permanent hp'.symm hpay
    | quiet hl =>
      cases hl with
      | @ended dr inv hr hn => cases dr <;> cases hp'
      | @ready run env resume hv =>
        cases hp'
        have hf := nodeFailed_of_lookup hF hT hP (hlook rfl) hv hpay
        exact ⟨env, fun ty hty => (hf ty hty).effect (i := i) hT hp (.quiet (.ready hv)) x,
          h.inspected _ env rfl⟩
      | _ => cases hp'
    | @ran dr inv n db result hr hn hrun => cases dr <;> cases hp'
    | @put dr inv values next hr hn => cases dr <;> cases hp'
    | @suspended dr inv env hr => cases dr <;> cases hp'
    | failed hm hs hf => split at hp' <;> cases hp'
    | _ => cases hp'
  · rintro run v inv error permanent rfl ho
    generalize hp' : Proc.runner (.invoking run v inv) = p' at he
    cases he with
    | tick elapsed => exact hother.invoking run v inv error permanent hp'.symm ho
    | quiet hl =>
      cases hl with
      | @ended dr inv hr hn => cases dr <;> cases hp'
      | @resumed run resume cp hcp =>
        cases hp'
        have hpay : v.payload = .taskFailed error permanent := Option.some.inj ho
        obtain ⟨env, hf, hn⟩ := hother.resuming _ _ error permanent rfl hpay
        exact ⟨env, hf, hn cp hcp⟩
      | _ => cases hp'
    | @ran dr inv₀ n db result hr hn hrun =>
      cases dr with
      | createTicket => cases hp'
      | step run resume =>
        cases hp'
        exact hother.invoking _ _ inv₀ error permanent rfl ho
    | @put dr inv values next hr hn =>
      cases dr with
      | createTicket => cases hp'
      | step run resume =>
        cases hp'
        cases ho
    | @suspended dr inv env hr => cases dr <;> cases hp'
    | failed hm hs hf => split at hp' <;> cases hp'
    | _ => cases hp'

/-! ## The run -/

structure Explained (steps : Steps) (w : World) : Prop where
  failures : FailuresExplained steps w.shared.db
  given : GivenUpSound steps w.shared.db
  knows : ∀ j, FailureKnows steps w.shared (w.procs j)

theorem Explained.effect (h : Explained steps w) (hw : World.ReachableWhen Unpruned w)
    (hok : Attentive w i a) (he : Effect w.shared i (w.procs i) a sh' p') :
    Explained ((w, i, a) :: steps) ⟨sh', Function.update w.procs i p'⟩ := by
  have hreach : World.Reachable w := hw.reachable
  have hT := hreach.tasks.1
  obtain ⟨hTh, hP⟩ := hreach.threads
  have hc := hreach.created.2
  have hp : a = .advance → (w.procs i).prunes = false := by
    rintro rfl
    exact hok.unpruned
  refine ⟨h.failures.effect hT hp he, h.given.effect hT hw.exclusive hp he, fun j => ?_⟩
  by_cases hj : j = i
  · subst hj
    simpa using (h.knows j).acts hok h.failures hT hp hTh (hP j) (hc j) he (w, j, a)
  · simpa [Function.update_of_ne hj] using
      (h.knows j).other hok.unovertaken.savesLatest hT hp (hP i) (hc j) he (w, i, a)

/-- In a run whose steps are attentive every failure is explained. -/
theorem explained (hrun : Run Proc.step (· = World.initial) Attentive steps w) :
    Explained steps w := by
  refine Run.invariant (I := Explained) ?_ ?_ hrun
  · rintro c rfl
    refine ⟨fun _ _ h => (nomatch h), ?_, fun _ => ⟨?_, ?_, ?_⟩⟩
    · rintro key ⟨x, hx, -⟩
      cases hx
    · exact fun _ _ h => nomatch h
    · exact fun _ _ _ _ h => nomatch h
    · exact fun _ _ _ _ _ h => nomatch h
  · intro steps w i a sh' p' hr hok h hp
    exact h.effect (hr.reachable.mono fun _ _ _ => Attentive.unpruned) hok (effect_of_step hp)

/-- The node that runs at a failure is one whose own stage has failed. -/
theorem stageFailed_of_receives (h : Explained steps w) (hw : World.ReachableWhen Unpruned w)
    {inv : Invocation} (hinv : (w.procs i).invocation = some inv)
    (hn : inv.checkpoint.next = some n) (hty : n.stage = some ty)
    (hrec : n.Receives inv.resumes (.taskFailed error permanent)) :
    StageFailed steps w.shared.db inv.checkpoint.threadId ty := by
  have hreach : World.Reachable w := hw.reachable
  have hP := hreach.threads.2 i
  have hsound := hP.of_invocation hinv
  have hmem : .taskFailed error permanent ∈ inv.resumes := by
    cases n with
    | awaitClassify =>
      obtain ⟨rest, ⟨he, -⟩ | he⟩ := hrec <;> rw [he] <;> simp
    | awaitDraft =>
      obtain ⟨rest, ⟨he, -⟩ | he⟩ := hrec <;> rw [he] <;> simp
    | _ => cases hty
  have ho := hsound.offered_of_mem hmem nofun
  -- only a runner brings a value
  obtain ⟨run, v, hproc⟩ : ∃ run v, w.procs i = .runner (.invoking run v inv) := by
    generalize w.procs i = p at *
    unfold Proc.invocation at hinv
    split at hinv
    · cases hinv
      rw [hP.1] at ho
      cases ho
    · cases hinv
      exact ⟨_, _, rfl⟩
    · cases hinv
  rw [hproc] at hP
  obtain ⟨env, hfail, hle⟩ := (h.knows i).invoking run v inv error permanent hproc ho
  have hs := ((hw.sourced fun _ _ _ => id).2 i).invocation inv hinv
  rw [hn] at hle
  rw [hP.1]
  cases n with
  | awaitClassify =>
    cases hty
    rcases env.node_cases with hnode | hnode | hnode | hnode <;> rw [hnode] at hle hfail
    · exact hfail _ rfl
    · exact absurd hle (by decide)
    · exact absurd hle (by decide)
    · exact absurd hle (by decide)
  | awaitDraft =>
    cases hty
    rcases env.node_cases with hnode | hnode | hnode | hnode <;> rw [hnode] at hle hfail
    · -- a draft is awaited with a classification, and this one failed
      have hstate := hsound.checkpoint.state
      rw [hn] at hstate
      obtain ⟨c, hcl⟩ := Option.isSome_iff_exists.mp hstate.2.1
      have hclass := hs.1.classified (.inr hn) c hcl
      rw [hsound.checkpoint.ticket, hP.1] at hclass
      exact absurd hclass ((hfail _ rfl).not_classified hw.exclusive hreach.tasks.1)
    · exact hfail _ rfl
    · exact absurd hle (by decide)
    · exact absurd hle (by decide)
  | _ => cases hty

/-- A lookup reads the failure of a task that was not given up exactly when the task has been
redispatched. -/
theorem lookup_misreads_iff (h : Explained steps w) (hE : Exclusive w.shared.db)
    (hT : TasksSound w.shared.db) (hkey : env.idempotencyKey = some key) :
    (∃ v error permanent, Runner.resumeForRun env run.wakeupAt w.shared.db = some v ∧
      v.payload = .taskFailed error permanent ∧ ¬ GivenUp steps key) ↔
    Redispatched w.shared.db key := by
  constructor
  · rintro ⟨v, error, permanent, hv, hpay, hno⟩
    obtain ⟨key', hkey', hval⟩ := taskResumeValue_of_failed hv hpay
    cases hkey.symm.trans hkey'
    obtain ⟨r, hr, hst⟩ := failed_of_lookup hT hval hpay
    exact (h.failures key r hr hst).resolve_left hno
  · intro hred
    have hno : ¬ GivenUp steps key := fun hup => (h.given key hup).2 hred
    obtain ⟨key', hkey', hsome⟩ := hred
    obtain ⟨f, hf⟩ := Option.isSome_iff_exists.mp hsome
    cases key with
    | agent t ty =>
      cases hkey'
      obtain ⟨r, hr, hst, -⟩ := hE t ty f hf
      exact ⟨_, r.error, r.permanent, lookup_failed hT hkey hr hst, rfl, hno⟩
    | fallback t ty => cases hkey'
    | finalize t => cases hkey'

/-- Where nobody overtaken saves and nobody looks up a redispatched task: `await_classify` and
`await_draft` run at a failure only if `fail` gave the active task of their stage up, and the lookup
of a task reads the failure of one that was not given up exactly when that condition is broken. -/
theorem only_given_up_escalates (hrun : Run Proc.step (· = World.initial) Attentive steps w) :
    (∀ i inv n ty error permanent, (w.procs i).invocation = some inv →
      inv.checkpoint.next = some n → n.stage = some ty →
      n.Receives inv.resumes (.taskFailed error permanent) →
      GivenUp steps (activeTask w.shared.db inv.checkpoint.threadId ty)) ∧
    ∀ i run env key, w.procs i = .runner (.inspected run env) → env.idempotencyKey = some key →
      ((∃ v error permanent, Runner.resumeForRun env run.wakeupAt w.shared.db = some v ∧
        v.payload = .taskFailed error permanent ∧ ¬ GivenUp steps key) ↔
      Redispatched w.shared.db key) := by
  have hw : World.ReachableWhen Unpruned w := hrun.reachable.mono fun _ _ _ => Attentive.unpruned
  have hreach : World.Reachable w := hw.reachable
  have h := explained hrun
  refine ⟨fun i inv n ty error permanent hinv hn hty hrec => ?_, fun i run env key _ hkey => ?_⟩
  · exact (stageFailed_of_receives h hw hinv hn hty hrec).1
  · exact lookup_misreads_iff h hw.exclusive hreach.tasks.1 hkey

/-- Process `i` runs `await_classify` of ticket 7 at the failure of a task. -/
def escalating (i : WorkerId) (w : World) : Bool :=
  match (w.procs i).invocation with
  | some inv => inv.checkpoint.threadId = 7 && inv.checkpoint.next = some .awaitClassify &&
      match inv.resumes with
      | [.taskFailed _ _] => true
      | _ => false
  | none => false

theorem escalating_spec (h : escalating i w = true) : ∃ inv error permanent,
    (w.procs i).invocation = some inv ∧ inv.checkpoint.threadId = 7 ∧
      inv.checkpoint.next = some .awaitClassify ∧
      Node.Receives .awaitClassify inv.resumes (.taskFailed error permanent) := by
  unfold escalating at h
  split at h
  · rename_i inv hinv
    simp only [Bool.and_eq_true, decide_eq_true_eq] at h
    obtain ⟨⟨ht, hn⟩, hres⟩ := h
    split at hres
    · rename_i error permanent he
      exact ⟨inv, error, permanent, hinv, ht, hn, [], .inl ⟨he, nofun⟩⟩
    · cases hres
  · cases h

/-- The agent gives ticket 7's classification up, and runner 2 resumes the graph with that. -/
def Schedule.givenUp : Schedule :=
  Schedule.create ++ [(1, .dequeue .agentTaskQueue Schedule.unlocked),
    (1, .activityRaises "unsupported" true)] ++ Schedule.advance 1 2 ++ Schedule.step 2 3

theorem only_given_up_escalates_permanent : ∃ steps w, Run Proc.step (· = World.initial) Attentive
    steps w ∧ escalating 2 w = true ∧ GivenUp steps (activeTask w.shared.db 7 .classify) := by
  have hrun : (World.initial.runWhen Proc.step Attentive Schedule.givenUp).map (escalating 2) =
      some true := by decide +kernel
  obtain ⟨w, hw, hp⟩ := exists_reachableWhen_of_run hrun
  obtain ⟨steps, hsteps⟩ := hw.exists_run
  obtain ⟨inv, error, permanent, hinv, ht, hn, hrec⟩ := escalating_spec hp
  have hup := (only_given_up_escalates hsteps).1 2 inv _ _ error permanent hinv hn rfl hrec
  rw [ht] at hup
  exact ⟨steps, w, hsteps, hp, hup⟩

/-- The process is about to call `fail`. -/
def Proc.fails : Proc → Bool
  | .worker (.failing _ _ _) => true
  | _ => false

/-- No `prune_settled` commits, and no task fails. -/
def Unfailing (w : World) (i : WorkerId) (a : Action) : Prop :=
  Unpruned w i a ∧ (w.procs i).fails = false

instance (w : World) (i : WorkerId) : DecidablePred (Unfailing w i) := fun _ =>
  inferInstanceAs (Decidable (_ ∧ _))

/-- Runner 2 commits the redispatch of ticket 7's classification and dies before the graph is saved;
runner 3 claims the run when the lease is over. -/
def Schedule.crashed : Schedule :=
  Schedule.create ++ [(0, .tick (seconds 31))] ++ Schedule.step 2 4 ++
    [(2, .crash), (0, .tick (seconds 31))] ++ Schedule.step 3 3

theorem cancelled_task_escalates : ¬ ∀ steps w, Run Proc.step (· = World.initial) Unpruned steps w →
    ∀ i inv n ty error permanent, (w.procs i).invocation = some inv →
      inv.checkpoint.next = some n → n.stage = some ty →
      n.Receives inv.resumes (.taskFailed error permanent) →
      GivenUp steps (activeTask w.shared.db inv.checkpoint.threadId ty) := by
  intro hall
  have hrun : (World.initial.runWhen Proc.step Unfailing Schedule.crashed).map (escalating 3) =
      some true := by decide +kernel
  obtain ⟨w, hw, hp⟩ := exists_reachableWhen_of_run hrun
  obtain ⟨steps, hsteps⟩ := hw.exists_run
  obtain ⟨inv, error, permanent, hinv, -, hn, hrec⟩ := escalating_spec hp
  obtain ⟨x, hx, -, task, error', permanent', r, hproc, -⟩ := hall steps w
    (hsteps.mono fun _ _ _ h => h.1) 3 inv _ _ error permanent hinv hn rfl hrec
  have hno := (hsteps.ok_of_mem x hx).2
  rw [hproc] at hno
  cases hno

end TicketFlow
