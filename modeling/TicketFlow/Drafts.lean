import TicketFlow.MockAgent
import TicketFlow.Outbox

/-! # Where drafts come from

Every draft there is was answered by an agent, or is the one made up for a failed task. So what
holds of every answer holds of every draft: with the mock agents the workers are started with, a
ticket that the fallback agent drafted is never resolved without an approval, and its draft is never
sent without one. -/

namespace TicketFlow
open Table Interleaving
set_option autoImplicit false

/-- Every draft that is stored, or that a node has run with, meets `P`. -/
structure DraftsMeet (P : DraftReply → Prop) (sh : Shared) : Prop where
  results : ∀ r ∈ sh.db.taskQueue, ∀ d, r.result = some (.draft d) → P d
  threads : ∀ t cp, sh.checkpoints.get t = some cp → ∀ d ∈ cp.values.draft, P d
  runs : ∀ t n s resumes, .ran t n s resumes ∈ sh.log → ∀ d ∈ s.draft, P d

/-- So does every draft a process has in hand. -/
structure DraftKnows (P : DraftReply → Prop) (p : Proc) : Prop where
  answer : ∀ task d, p = .worker (.completing task (.draft d)) → P d
  resumes : ∀ run v d, p.resumes = some (run, v) → v.payload = .result (.draft d) → P d
  invocation : ∀ inv, p.invocation = some inv → (∀ d ∈ inv.checkpoint.values.draft, P d) ∧
    ∀ s, inv.result = some (.update s) → ∀ d ∈ s.draft, P d

/-- The answers of agents meet `P`. -/
def AnswersMeet (P : DraftReply → Prop) (w : World) (i : WorkerId) : Action → Prop
  | .activityReturns (.draft d) => ∀ task, w.procs i = .worker (.leased task) → P d
  | _ => True

variable {P : DraftReply → Prop} {sh sh' : Shared} {w : World} {i : WorkerId} {p p' : Proc}
  {a : Action} {n : Node} {s s' : TicketState} {resumes : List Resume} {db : Database}
  {d : DraftReply} {t : TicketId}

/-! ## What a node makes of a draft -/

/-- A node keeps the draft, takes it from the value it is resumed with or makes it up. -/
theorem Node.run_draft (hrun : (n.run s resumes db).2 = .update s') (hd : s'.draft = some d) :
    s.draft = some d ∨ d = Graph.failureDraft ∨ .result (.draft d) ∈ resumes := by
  have last : ∀ {value : Resume} {rest : List Resume},
      resumes = value :: rest ∧ value ≠ .timeout ∨ resumes = .timeout :: value :: rest →
        value ∈ resumes := by
    rintro value rest (⟨rfl, -⟩ | rfl)
    · exact List.mem_cons_self
    · exact List.mem_cons_of_mem _ List.mem_cons_self
  cases n with
  | dispatchClassify =>
    cases hrun
    exact .inl hd
  | awaitClassify =>
    have h := awaitAgentTask_cases .classify s.ticket.id (.classify s.ticket) s.wakeupAt resumes db
    simp only [Node.run, Graph.awaitClassify] at hrun
    revert hrun h
    generalize Graph.awaitAgentTask _ _ _ _ resumes db = out
    obtain ⟨db', aw⟩ := out
    rintro hrun (⟨-, rfl⟩ | ⟨-, redispatched, rfl⟩ | ⟨value, rest, hl, rfl⟩)
    · cases hrun
    · cases hrun
    · simp only [Graph.classifyUpdate] at hrun
      split at hrun
      · cases hrun
        cases hd
        exact .inr (.inl rfl)
      · split at hrun
        · cases hrun
          exact .inl hd
        · cases hrun
  | dispatchDraft =>
    simp only [Node.run, Graph.dispatchDraft] at hrun
    split at hrun
    · cases hrun
    · cases hrun
      exact .inl hd
  | awaitDraft =>
    simp only [Node.run, Graph.awaitDraft] at hrun
    split at hrun
    · cases hrun
    · rename_i c hc
      have h := awaitAgentTask_cases .draft s.ticket.id (.draft s.ticket c) s.wakeupAt resumes db
      revert hrun h
      generalize Graph.awaitAgentTask _ _ _ _ resumes db = out
      obtain ⟨db', aw⟩ := out
      rintro hrun (⟨-, rfl⟩ | ⟨-, redispatched, rfl⟩ | ⟨value, rest, hl, rfl⟩)
      · cases hrun
      · cases hrun
      · simp only [Graph.draftUpdate] at hrun
        split at hrun
        · cases hrun
          cases hd
          exact .inr (.inl rfl)
        · split at hrun
          · rename_i reply hval
            cases hrun
            cases hd
            unfold Graph.validateDraftReply at hval
            split at hval
            · cases hval
              exact .inr (.inr (last hl))
            · cases hval
          · cases hrun
  | decideApproval =>
    simp only [Node.run, Graph.decideApproval] at hrun
    split at hrun
    · cases hrun
    · cases hrun
      exact .inl hd
  | prepareApproval =>
    cases hrun
    exact .inl hd
  | awaitApproval =>
    left
    simp only [Node.run, Graph.awaitApproval] at hrun
    split at hrun
    · split at hrun
      · cases hrun
      · rename_i value rest
        cases value with
        | timeout =>
          cases hrun
          exact hd
        | decision decision =>
          simp only [Graph.approvalUpdate] at hrun
          split at hrun <;> cases hrun <;> exact hd
        | taskFailed error permanent => cases hrun
        | result r => cases hrun
    · cases hrun
  | execute =>
    left
    simp only [Node.run, Graph.execute] at hrun
    split at hrun
    · split at hrun
      · cases hrun
      · simp only [Graph.executeUpdate] at hrun
        split at hrun
        · cases hrun
        · split at hrun
          · cases hrun
          · cases hrun
            exact hd
    · cases hrun

/-! ## Every draft was answered -/

theorem DraftsMeet.effect (hI : DraftsMeet P sh) (hK : DraftKnows P p)
    (hT : TasksSound sh.db) (he : Effect sh i p a sh' p') : DraftsMeet P sh' := by
  refine ⟨fun r hr d hd => ?_, fun t cp hcp d hd => ?_, fun t n s resumes hm d hd => ?_⟩
  · have hr' := task_of_mem (he.taskKeys hT.keys) hr
    have old : ∀ {r₀ : QueuedTask}, sh.db.task r.idempotencyKey = some r₀ →
        r₀.result = r.result → P d := fun hr₀ hres =>
      hI.results _ (Database.task_eq_some hr₀).1 d (hres.trans hd)
    cases he.taskChange hT.keys r.idempotencyKey with
    | same heq => exact old (heq.symm.trans hr') rfl
    | inserted hp ha hres hn hw hp' hlog hins hno heq =>
      rw [← Option.some.inj (heq.symm.trans hr')] at hd
      cases hd
    | cancelled hp ha hres hn hw hp' hk hr₀ hst heq =>
      cases heq.symm.trans hr'
      exact old hr₀ rfl
    | leased hp ha hr₀ hdue hp' heq =>
      cases heq.symm.trans hr'
      exact old hr₀ rfl
    | @completed task result r₀ hp ha hr₀ hs hp' heq hlog =>
      cases heq.symm.trans hr'
      cases hd
      exact hK.answer task d hp
    | failed hp ha hr₀ hs hp' heq =>
      cases heq.symm.trans hr'
      exact old hr₀ rfl
    | reclaimed hp ha hr₀ hx heq =>
      cases heq.symm.trans hr'
      exact old hr₀ rfl
    | pruned hp ha hr₀ hs heq => cases heq.symm.trans hr'
  · cases he.threadChange t with
    | same heq => exact hI.threads t cp (heq.symm.trans hcp) d hd
    | created hp ha ht hf hdb hlog hseq heq =>
      cases hcp.symm.trans heq
      cases hd
    | @put dr inv values next hp ha ht hr hn hp' hdb hlog hseq heq =>
      cases hcp.symm.trans heq
      exact (hK.invocation inv (by rw [hp]; simp)).2 values hr d hd
    | suspended hp ha ht hr hcp₀ hid hp' hdb hlog heq =>
      cases hcp.symm.trans heq
      exact hI.threads t _ hcp₀ d hd
    | deleted hp ha heq =>
      rw [heq] at hcp
      cases hcp
  · rcases he.runs hm with hold | ⟨inv, hinv, -, -, rfl, -, -⟩
    · exact hI.runs t n s resumes hold d hd
    · exact (hK.invocation inv hinv).1 d hd

/-- The draft a runner brings is that of a task. -/
theorem DraftsMeet.of_ready {env : Envelope} {wakeupAt : Option Time} {v : ResumeValue}
    (hI : DraftsMeet P sh) (hv : Runner.resumeForRun env wakeupAt sh.db = some v)
    (hpay : v.payload = .result (.draft d)) : P d := by
  cases Runner.resumeForRun_found hv with
  | decision happ hsig => cases hpay
  | timeout hsome hnone => cases hpay
  | task hkey htask hdecision htimeout =>
    obtain ⟨r, hr, -, ⟨-, hv⟩ | ⟨-, x, hx, hv⟩⟩ := taskResumeValue_eq_some htask
    · rw [hv] at hpay
      cases hpay
    · rw [hv] at hpay
      cases hpay
      exact hI.results r hr d hx

theorem DraftKnows.acts (hmade : P Graph.failureDraft) (hI : DraftsMeet P sh)
    (hK : DraftKnows P p) (hT : TasksSound sh.db) (hP : p.ThreadSound sh.checkpoints)
    (ha : ∀ task d, p = .worker (.leased task) → a = .activityReturns (.draft d) → P d)
    (he : Effect sh i p a sh' p') : DraftKnows P p' := by
  have hI' := hI.effect hK hT he
  refine ⟨fun task d hp' => ?_, fun run v d hr hpay => ?_, fun inv hinv => ?_⟩
  · subst hp'
    generalize hpc : Worker.Pc.completing task (.draft d) = pc at he
    cases he.workerMove with
    | stay => exact hK.answer task d (congrArg Proc.worker hpc.symm)
    | answered hf hans =>
      cases hpc
      exact ha task d rfl rfl
    | @started task' hf =>
      have hstarts := startFinalize_starts task'
      rw [← hpc] at hstarts
      cases hstarts
    | _ => cases hpc
  · rcases he.resumes hr with hold | ⟨env, rfl, rfl, hready⟩
    · exact hK.resumes run v d hold hpay
    · exact hI.of_ready hready hpay
  · have fresh : sh'.checkpoints.get inv.checkpoint.threadId = some inv.checkpoint →
        inv.result = none → (∀ d ∈ inv.checkpoint.values.draft, P d) ∧
          ∀ s, inv.result = some (.update s) → ∀ d ∈ s.draft, P d := by
      intro hget hnone
      refine ⟨hI'.threads _ _ hget, fun s hr => ?_⟩
      rw [hnone] at hr
      cases hr
    cases he.driveChange hinv with
    | still hold => exact hK.invocation inv hold
    | @ran dr inv₀ n db result hp₀ hr hn hrun hinv₀ hsh =>
      subst hp₀ hinv₀
      obtain ⟨hs, -⟩ := hK.invocation inv₀ (Proc.invocation_driving dr inv₀)
      refine ⟨hs, fun s' hres d hd => ?_⟩
      cases hres
      rcases n.run_draft (congrArg Prod.snd hrun) hd with hold | rfl | hmem
      · exact hs d hold
      · exact hmade
      · obtain ⟨run, resume, rfl, hpay⟩ := offered_of_mem hP hmem
        exact hK.resumes run resume d rfl hpay
    | put hget hr hnil => exact fresh hget hr
    | read hp' hsh hget hr ho => exact fresh (hsh ▸ hget) hr

/-- What holds of every answer and of the made-up draft holds of every draft. -/
theorem World.ReachableWhen.drafts {ok : World → WorkerId → Action → Prop}
    (hmade : P Graph.failureDraft) (hok : ∀ w i a, ok w i a → AnswersMeet P w i a)
    (hw : World.ReachableWhen ok w) : DraftsMeet P w.shared := by
  refine (World.ReachableWhen.invariant (I := DraftsMeet P) (J := fun _ _ p => DraftKnows P p)
    ?_ ?_ ?_ hw).1
  · exact ⟨fun _ h => (nomatch h), fun _ _ h => (nomatch h), fun _ _ _ _ h => nomatch h⟩
  · exact fun _ => ⟨fun _ _ h => (nomatch h), fun _ _ _ h => (nomatch h), fun _ h => nomatch h⟩
  · intro w i a sh' p' hr ha hI hK he
    have hT := (World.Reachable.tasks hr.reachable).1
    have hP := (World.Reachable.threads hr.reachable).2 i
    refine ⟨hI.effect (hK i) hT he, (hK i).acts hmade hI hT hP ?_ he, fun j _ => hK j⟩
    rintro task d hp rfl
    exact hok w i _ ha task hp

/-! ## With the mock agents -/

/-- The agent of the worker that drains a queue. -/
def agentOf (latencyMax : ℚ) : QueueName → MockAgent
  | .fallbackTaskQueue => .fallback
  | .agentTaskQueue | .taskQueue => .primary latencyMax

/-- Every answer is that of the mock agent of its queue. -/
def Mocked (latencyMax : ℚ) (w : World) (i : WorkerId) : Action → Prop
  | .activityReturns result => ∀ task, w.procs i = .worker (.leased task) →
      ∃ draws drawn drawn',
        (agentOf latencyMax task.queueName).answer draws task drawn = .returned result drawn'
  | _ => True

/-- The drafts there are when the agents are mock agents. -/
inductive MockDraft (latencyMax : ℚ) (d : DraftReply) : Prop
  | failed : d = Graph.failureDraft → MockDraft latencyMax d
  | primary : (MockAgent.primary latencyMax).Made d → MockDraft latencyMax d
  | fallback : MockAgent.fallback.Made d → MockDraft latencyMax d

theorem Mocked.answersMeet {latencyMax : ℚ} (h : Mocked latencyMax w i a) :
    AnswersMeet (MockDraft latencyMax) w i a := by
  cases a with
  | activityReturns result =>
    cases result with
    | draft d =>
      intro task hp
      obtain ⟨draws, drawn, drawn', hanswer⟩ := h task hp
      cases hq : task.queueName with
      | fallbackTaskQueue =>
        rw [hq] at hanswer
        refine .fallback (MockAgent.made_of_answer ?_ hanswer)
        norm_num [agentOf, MockAgent.fallback]
      | agentTaskQueue =>
        rw [hq] at hanswer
        exact .primary (MockAgent.made_of_answer (by norm_num [agentOf, MockAgent.primary]) hanswer)
      | taskQueue =>
        rw [hq] at hanswer
        exact .primary (MockAgent.made_of_answer (by norm_num [agentOf, MockAgent.primary]) hanswer)
    | _ => exact trivial
  | _ => exact trivial

/-- Only the primary agent proposes a refund. -/
theorem MockDraft.refund {latencyMax : ℚ} (h : MockDraft latencyMax d)
    (ht : d.action.type = .refund) :
    d.model = "primary" ∧ ∀ amount ∈ d.action.refundAmount, 5 ≤ amount.val ∧ amount.val ≤ 100 := by
  cases h with
  | failed heq =>
    subst heq
    cases ht
  | primary hm => exact ⟨hm.model, hm.modest⟩
  | fallback hm => exact absurd (hm.refund ht) (lt_irrefl _)

/-- Only a reply of the primary agent needs no approval. -/
theorem MockDraft.safe {latencyMax : ℚ} (h : MockDraft latencyMax d) (hsafe : ¬ Graph.Risky d) :
    d.model = "primary" ∧ d.action.type = .replyOnly := by
  have htype : d.action.type = .replyOnly := by
    cases ht : d.action.type with
    | replyOnly => rfl
    | refund => exact absurd (.inl ht) hsafe
  have hconf : confidenceThreshold ≤ d.confidence.val := not_lt.mp fun hlt => hsafe (.inr hlt)
  unfold confidenceThreshold at hconf
  cases h with
  | failed heq =>
    subst heq
    norm_num [Graph.failureDraft] at hconf
  | primary hm => exact ⟨hm.model, htype⟩
  | fallback hm =>
    have hmost := hm.most
    norm_num [MockAgent.fallback] at hmost
    linarith

/-! ## What is sent -/

/-- A reply is sent by a worker that is replying, to the address and with the text it has. -/
theorem Effect.sentReplies {r : SentReply} (h : Effect sh i p a sh' p')
    (hr : r ∈ sh'.db.sentReplies) : r ∈ sh.db.sentReplies ∨ ∃ task result flag,
      p = .worker (.replying task result flag) ∧
      r = ⟨task.payload.ticket.id, task.payload.ticket.customerEmail, result.replyText,
        sh.db.now⟩ := by
  cases h with
  | @ran dr inv n db result hres hn hrun =>
    obtain ⟨rows, seq, hf⟩ := n.run_frame inv.checkpoint.values inv.resumes sh.db
    rw [hrun] at hf
    cases hf
    exact .inl hr
  | accepted hs =>
    obtain ⟨-, -, rfl, rfl⟩ := Db.addPendingSignalIfWaiting_eq_some hs
    exact .inl hr
  | claimed hs =>
    obtain ⟨r₀, -, -, -, -, -, rfl⟩ := Db.claimRun_eq_some hs
    exact .inl hr
  | dequeued hs =>
    obtain ⟨r₀, -, -, -, rfl⟩ := Db.dequeue_eq_some hs
    exact .inl hr
  | replied hs =>
    cases hs
    rcases mem_insertNew hr with hold | ⟨rfl, -⟩
    · exact .inl hold
    · exact .inr ⟨_, _, _, rfl, rfl⟩
  | archived hs =>
    simp only [Db.archiveTerminalRuns] at hs
    split at hs
    · cases hs
    · cases hs
      exact .inl hr
  | _ => exact .inl hr

/-- The reply is the one that some run of the ticket's `execute` asked for. -/
def ReplyFrom (log : List Event) (r : SentReply) : Prop :=
  ∃ vals resumes draft c, .ran r.ticketId .execute vals resumes ∈ log ∧
    vals.ticket.id = r.ticketId ∧ vals.draft = some draft ∧
    r.replyText = (Graph.expectedResult vals c draft).replyText ∧ Cleared log vals

theorem ReplyFrom.mono {log log' : List Event} {r : SentReply} (h : ReplyFrom log r)
    (hl : log <:+ log') : ReplyFrom log' r := by
  obtain ⟨vals, resumes, draft, c, hran, hid, hd, htext, hcl⟩ := h
  exact ⟨vals, resumes, draft, c, hl.subset hran, hid, hd, htext, hcl.mono hl⟩

theorem World.Reachable.repliesFrom (hw : World.Reachable w) :
    ∀ r ∈ w.shared.db.sentReplies, ReplyFrom w.shared.log r := by
  refine (World.ReachableWhen.invariant
    (I := fun sh => ∀ r ∈ sh.db.sentReplies, ReplyFrom sh.log r)
    (J := fun sh _ p => DeliveryCleared sh.log p) (fun _ h => nomatch h)
    (fun _ _ h => nomatch h) ?_ hw).1
  intro w i a sh' p' hr _ hI hJ he
  have hl := he.log_suffix
  refine ⟨fun r hr' => ?_, (hJ i).effect (World.Reachable.payloads hr) he,
    fun j _ pc hpc task ht hres => (hJ j pc hpc task ht hres).mono hl⟩
  rcases he.sentReplies hr' with hold | ⟨task, result, flag, hp, rfl⟩
  · exact (hI r hold).mono hl
  · have hF := (World.Reachable.ledgers hr).2 i
    have hres : task.payload.result = some result := (hF _ hp).1
    obtain ⟨vals, resumes, draft, c, hran, hd, -, hpay, hcl⟩ :=
      hJ i _ hp task rfl (by rw [hres]; rfl)
    rw [hpay] at hres
    cases hres
    have hid : task.payload.ticket.id = vals.ticket.id := by rw [hpay]; rfl
    exact ⟨vals, resumes, draft, c, hid ▸ hl.subset hran, hid.symm, hd, rfl, hcl.mono hl⟩

theorem expectedResult_replyText (s : TicketState) (c : Classification) (d : DraftReply) :
    (Graph.expectedResult s c d).replyText = rejectionReply ∨
      (Graph.expectedResult s c d).replyText = escalationReply ∨
      (Graph.expectedResult s c d).replyText = d.replyText ∧
        (Graph.expectedResult s c d).status = .resolved := by
  simp only [Graph.expectedResult, Graph.terminalOutcome]
  cases s.status with
  | rejected => exact .inl rfl
  | escalated => exact .inr (.inl rfl)
  | _ => exact .inr (.inr ⟨rfl, rfl⟩)

/-- With the mock agents the workers are started with, a ticket is resolved by an approval or by a
plain reply of the primary agent, the text of a draft is sent only if it was approved or is such a
reply, and a refund is of an approved draft of the primary agent and between five and a hundred:
what the fallback agent drafts never goes out unseen. -/
theorem fallback_never_unseen {latencyMax : ℚ} (hw : World.ReachableWhen (Mocked latencyMax) w) :
    (∀ r ∈ w.shared.db.refunds, 5 ≤ r.amount.val ∧ r.amount.val ≤ 100 ∧
      ∃ draft, Approved w.shared.log r.ticketId draft ∧ draft.model = "primary" ∧
        draft.action.refundAmount = some r.amount) ∧
    (∀ r ∈ w.shared.db.taskQueue, ∀ ticket action result,
      r.payload = .finalize ticket action result → ∃ vals resumes draft c,
        .ran ticket.id .execute vals resumes ∈ w.shared.log ∧ vals.draft = some draft ∧
          action = draft.action ∧ result = Graph.expectedResult vals c draft ∧
          (result.status = .resolved → Approved w.shared.log ticket.id draft ∨
            draft.model = "primary" ∧ action.type = .replyOnly)) ∧
    ∀ r ∈ w.shared.db.sentReplies, r.replyText = rejectionReply ∨ r.replyText = escalationReply ∨
      ∃ vals resumes draft, .ran r.ticketId .execute vals resumes ∈ w.shared.log ∧
        vals.draft = some draft ∧ r.replyText = draft.replyText ∧
        (Approved w.shared.log r.ticketId draft ∨
          draft.model = "primary" ∧ draft.action.type = .replyOnly) := by
  have hreach : World.Reachable w := hw.reachable
  have hcleared := hreach.payloads
  have hdrafts : DraftsMeet (MockDraft latencyMax) w.shared :=
    World.ReachableWhen.drafts (.failed rfl) (fun _ _ _ => Mocked.answersMeet) hw
  refine ⟨fun r hr => ?_, fun r hr ticket action result hpay => ?_, fun r hr => ?_⟩
  · obtain ⟨payload, hm, ht, hamount⟩ := hreach.ledgers.1.amounts r hr
    obtain ⟨⟨action, result, ha, hres, hst, hty⟩, hfrom⟩ := hcleared.refunds payload true hm
    obtain ⟨vals, resumes, draft, c, hran, hd, -, rfl, hcl⟩ := hfrom
    cases ha
    cases hres
    have hmock := hdrafts.runs _ _ _ _ hran draft hd
    obtain ⟨hmodel, hmodest⟩ := hmock.refund hty
    obtain ⟨hfive, hhundred⟩ := hmodest r.amount hamount
    exact ⟨hfive, hhundred, draft, ht ▸ hcl.of_resolved hd hst (.inl hty), hmodel, hamount⟩
  · obtain ⟨vals, resumes, draft, c, hran, hd, hc, hfrom, hcl⟩ :=
      hcleared.rows r hr (by rw [hpay]; rfl)
    rw [hpay] at hfrom
    cases hfrom
    refine ⟨vals, resumes, draft, c, hran, hd, rfl, rfl, fun hres => ?_⟩
    by_cases hrisky : Graph.Risky draft
    · exact .inl (hcl.of_resolved hd hres hrisky)
    · exact .inr ((hdrafts.runs _ _ _ _ hran draft hd).safe hrisky)
  · obtain ⟨vals, resumes, draft, c, hran, hid, hd, htext, hcl⟩ := hreach.repliesFrom r hr
    rcases expectedResult_replyText vals c draft with hrej | hesc | ⟨hsame, hres⟩
    · exact .inl (htext.trans hrej)
    · exact .inr (.inl (htext.trans hesc))
    · refine .inr (.inr ⟨vals, resumes, draft, hran, hd, htext.trans hsame, ?_⟩)
      by_cases hrisky : Graph.Risky draft
      · exact .inl (hid ▸ hcl.of_resolved hd hres hrisky)
      · exact .inr ((hdrafts.runs _ _ _ _ hran draft hd).safe hrisky)

/-- A generator that always yields a half. -/
def half : Draws := fun _ => ⟨1 / 2, by norm_num⟩

/-- The agent's answer where the generator yields halves. -/
def halfAnswer (task : QueuedTask) : Option TaskResult :=
  match (agentOf 0 task.queueName).answer half task 0 with
  | .returned result _ => some result
  | _ => none

def halved (w : World) (i : WorkerId) : Action → Bool
  | .activityReturns result => match w.procs i with
    | .worker (.leased task) => halfAnswer task = some result
    | _ => true
  | _ => true

theorem halved_mocked (h : halved w i a = true) : Mocked 0 w i a := by
  cases a with
  | activityReturns result =>
    intro task hp
    simp only [halved, hp, decide_eq_true_eq] at h
    unfold halfAnswer at h
    split at h
    · rename_i result' drawn hanswer
      cases h
      exact ⟨half, 0, drawn, hanswer⟩
    · cases h
  | _ => exact trivial

/-- The fallback agent's draft where the generator yields halves. -/
def Schedule.fallbackDraft : DraftReply :=
  ⟨replyTemplates .billing, ⟨.replyOnly, none, replyOnly_needs_no_amount⟩, ⟨3 / 10, by norm_num⟩,
    "fallback"⟩

/-- The primary agent classifies, nobody drafts in time, the fallback agent does, the approver
approves and the reply is sent. -/
def Schedule.fallbackApproved : Schedule :=
  drafting ++ [(0, .tick (seconds 31))] ++ step 2 6 ++
    work 3 .fallbackTaskQueue (.draft fallbackDraft) ++ step 2 12 ++ submit true ++ step 2 8 ++
    [(4, .dequeue .taskQueue unlocked)] ++ advance 4 5

/-- The result is of a draft by the fallback agent, and resolves the ticket. -/
def resolvesFallback : TaskPayload → Bool
  | .finalize _ _ result => result.modelPath = "primary/fallback" ∧ result.status = .resolved
  | _ => false

theorem fallback_never_unseen_approved : ∃ (w : World) (ticket : Ticket) (result : TicketResult)
    (draft : DraftReply), result.modelPath = "primary/fallback" ∧
      (Approved w.shared.log ticket.id draft ∨ draft.model = "primary") ∧
      ∃ r ∈ w.shared.db.sentReplies, ∃ d, r.replyText = d.replyText ∧
        (Approved w.shared.log r.ticketId d ∨ d.model = "primary") := by
  have hrun : (World.initial.runWhen Proc.step (fun w i a => halved w i a = true)
      Schedule.fallbackApproved).map (fun w =>
        (w.shared.db.taskQueue.any fun r => resolvesFallback r.payload) &&
          decide (∃ r ∈ w.shared.db.sentReplies,
            r.replyText ≠ rejectionReply ∧ r.replyText ≠ escalationReply)) = some true := by
    decide +kernel
  obtain ⟨w, hw, hp⟩ := exists_reachableWhen_of_run hrun
  have hmocked : World.ReachableWhen (Mocked 0) w := hw.mono fun _ _ _ => halved_mocked
  obtain ⟨hrow, hsent⟩ := Bool.and_eq_true_iff.mp hp
  obtain ⟨r₀, hr₀, hrejected, hescalated⟩ := of_decide_eq_true hsent
  have htexts := (fallback_never_unseen hmocked).2.2 r₀ hr₀
  obtain ⟨-, -, d, -, -, htext, hseen⟩ := (htexts.resolve_left hrejected).resolve_left hescalated
  have happroved : Approved w.shared.log r₀.ticketId d ∨ d.model = "primary" :=
    hseen.imp_right And.left
  obtain ⟨r, hr, hresolves⟩ := List.any_eq_true.mp hrow
  cases hpay : r.payload with
  | finalize ticket action result =>
    rw [hpay] at hresolves
    obtain ⟨hpath, hres⟩ := of_decide_eq_true hresolves
    obtain ⟨vals, resumes, draft, c, -, -, -, -, hor⟩ :=
      (fallback_never_unseen hmocked).2.1 r hr ticket action result hpay
    exact ⟨w, ticket, result, draft, hpath, (hor hres).imp_right And.left, r₀, hr₀, d, htext,
      happroved⟩
  | classify ticket =>
    rw [hpay] at hresolves
    cases hresolves
  | draft ticket c =>
    rw [hpay] at hresolves
    cases hresolves

/-! ## A reliable agent -/

/-- Some answer of an agent is one for the task, unless the task is for the side-effect worker. -/
theorem QueuedTask.Typed.answers {r : QueuedTask} (h : r.Typed) (hq : r.queueName ≠ .taskQueue) :
    ∃ result, Worker.Answers r result := by
  have hfinalize : r.queueName = .taskQueue ↔ r.taskType = .finalizeTicket := h.runsFinalize_iff
  have hpay := h.payload
  cases hty : r.taskType with
  | classify => exact ⟨.classification Graph.failureClassification, hty⟩
  | draft =>
    refine ⟨.draft Graph.failureDraft, hty, ?_⟩
    cases hp : r.payload <;> rw [hty, hp] at hpay
    · cases hpay
    · rfl
    · cases hpay
  | finalizeTicket => exact absurd (hfinalize.mpr hty) hq

/-- Whatever its generator yields, the fallback agent has an answer to every task there is on its
queue, and one that is for the task's stage. -/
theorem fallback_always_answers (hw : World.Reachable w) {r : QueuedTask}
    (hr : r ∈ w.shared.db.taskQueue) (hq : r.queueName = .fallbackTaskQueue) (draws : Draws)
    (drawn : ℕ) : ∃ result drawn',
      MockAgent.fallback.answer draws r drawn = .returned result drawn' ∧
        Worker.Answers r result ∧ ResultFor r.workflowId r.taskType result := by
  have hty := hw.tasks.1.typed r hr
  obtain ⟨other, hother⟩ := hty.answers (by simp [hq])
  obtain ⟨result, drawn', hanswer, hfor⟩ :=
    MockAgent.fallback_reliable.answer draws drawn hother
  refine ⟨result, drawn', hanswer, hfor, ?_⟩
  cases result with
  | classification c =>
    have htype : r.taskType = .classify := hfor
    rw [htype]
    exact trivial
  | draft d =>
    rw [hfor.1]
    exact trivial
  | terminal x => exact hfor.elim

theorem fallback_always_answers_redispatched : ∃ (w : World) (r : QueuedTask) (result : TaskResult),
    r ∈ w.shared.db.taskQueue ∧ r.queueName = .fallbackTaskQueue ∧
      ResultFor r.workflowId r.taskType result := by
  have hrun : (World.initial.run Proc.step Schedule.redispatched).map (fun w =>
      w.shared.db.taskQueue.any (·.queueName = .fallbackTaskQueue)) = some true := by decide +kernel
  obtain ⟨w, hw, hp⟩ := exists_reachableWhen_of_run hrun
  obtain ⟨r, hr, hq⟩ := List.any_eq_true.mp hp
  have hqueue : r.queueName = .fallbackTaskQueue := of_decide_eq_true hq
  obtain ⟨result, drawn, -, -, hfor⟩ := fallback_always_answers hw hr hqueue half 0
  exact ⟨w, r, result, hr, hqueue, hfor⟩

end TicketFlow
