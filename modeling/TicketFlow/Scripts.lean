import TicketFlow.Outcomes

/-! # The documented outcome

A script fixes what a ticket's graph is answered: whether each agent stage times out, what it comes
to, what the approver says and what the finalize worker echoes. A play is one thread driven by one
caller at a time with the answers of the script; what everybody else does between its actions is a
parameter. Every play ends, and at its end the documented outcome is computed from the script. -/

namespace TicketFlow
open Table
set_option autoImplicit false

/-- An agent stage: whether its schedule-to-start timer fires, and its answer or final failure. -/
structure StageScript (α : Type) where
  late : Bool
  outcome : Except (Option String × Bool) α

structure Script where
  classify : StageScript Classification
  draft : StageScript DraftReply
  /-- The decision, unless the approval times out. -/
  approval : Option ApprovalDecision
  /-- What the worker makes of the finalize payload's result. -/
  finalized : TicketResult → TicketResult
  echoes : ∀ r, (finalized r).ticketId = r.ticketId ∧ (finalized r).status = r.status

/-- The answer an agent stage is resumed with at last. -/
def StageScript.value {α : Type} (stored : α → TaskResult) (stage : StageScript α) : Resume :=
  match stage.outcome with
  | .ok a => .result (stored a)
  | .error (error, permanent) => .taskFailed error permanent

theorem StageScript.value_ne {α : Type} (stored : α → TaskResult) (stage : StageScript α) :
    stage.value stored ≠ .timeout := by
  unfold StageScript.value
  split <;> nofun

namespace Script

/-- The decision, or the timeout of the approval. -/
def decided (σ : Script) : Resume :=
  match σ.approval with
  | none => .timeout
  | some d => .decision d

/-- What the runner resumes the pending interrupt with, when its node has `resumes` on record. -/
def answer (σ : Script) (resumes : List Resume) : Envelope → Resume
  | .agentTask _ .classify _ _ _ =>
    if resumes = [] ∧ σ.classify.late = true then .timeout else σ.classify.value .classification
  | .agentTask _ _ _ _ _ =>
    if resumes = [] ∧ σ.draft.late = true then .timeout else σ.draft.value .draft
  | .approvalRequired _ _ _ => σ.decided
  | .terminalTask _ _ _ result => .result (.terminal (σ.finalized result))

def late (σ : Script) : TaskType → Bool
  | .classify => σ.classify.late
  | .draft => σ.draft.late
  | .finalizeTicket => false

/-! ## What is documented -/

/-- Neither stage failed, and the draft is a refund or has low confidence. -/
def Approves (σ : Script) : Prop :=
  ∃ c d, σ.classify.outcome = .ok c ∧ σ.draft.outcome = .ok d ∧ Graph.Risky d

/-- Escalated if a stage failed or the approval timed out, rejected by a negative decision, else
resolved. -/
def status (σ : Script) : TicketStatus :=
  match σ.classify.outcome, σ.draft.outcome with
  | .ok _, .ok d =>
    if Graph.Risky d then
      match σ.approval with
      | none => .escalated
      | some decision => if decision.approved then .resolved else .rejected
    else .resolved
  | _, _ => .escalated

def classification (σ : Script) : Classification :=
  match σ.classify.outcome with
  | .ok c => c
  | .error _ => Graph.failureClassification

def reply (σ : Script) : DraftReply :=
  match σ.classify.outcome, σ.draft.outcome with
  | .ok _, .ok d => d
  | _, _ => Graph.failureDraft

def replyText (σ : Script) : String :=
  match σ.status with
  | .rejected => rejectionReply
  | .escalated => escalationReply
  | _ => σ.reply.replyText

/-- The result the finalize payload carries. -/
def expected (σ : Script) (t : TicketId) : TicketResult where
  ticketId := t
  status := σ.status
  replyText := σ.replyText
  refundExecuted := false
  modelPath := σ.classification.model ++ "/" ++ σ.reply.model

/-- The keys that are enqueued, the fallback ones apart. -/
def keys (σ : Script) (t : TicketId) : List IdempotencyKey :=
  match σ.classify.outcome with
  | .ok _ => [.agent t .classify, .agent t .draft, .finalize t]
  | .error _ => [.agent t .classify, .finalize t]

end Script

/-! ## Plays -/

/-- A run of a node, with the database before and after it. -/
structure NodeRun where
  node : Node
  before : Database
  after : Database

/-- The run inserted a task under the key. -/
def NodeRun.Enqueues (x : NodeRun) (key : IdempotencyKey) : Prop :=
  x.before.task key = none ∧ (x.after.task key).isSome

instance (key : IdempotencyKey) : DecidablePred fun x : NodeRun => x.Enqueues key :=
  fun x => inferInstanceAs (Decidable (x.before.task key = none ∧ _))

/-- A thread on its way, the `ainvoke` that drives it, and the node runs so far, newest first. -/
structure Play where
  shared : Shared
  running : Option Invocation
  ran : List NodeRun

/-- The node run that the next action of the invocation is, if it is one. -/
def Invocation.runs (inv : Invocation) (sh sh' : Shared) : List NodeRun :=
  match inv.result, inv.checkpoint.next with
  | none, some n => [⟨n, sh.db, sh'.db⟩]
  | _, _ => []

/-- The next action of the thread itself: its invocation advances or returns, and then the answer to
the interrupt it is suspended at resumes it. -/
def Play.act (σ : Script) (t : TicketId) (p : Play) : Option Play :=
  match p.running with
  | some inv =>
    match inv.advance p.shared with
    | (sh, .running inv') => some ⟨sh, some inv', inv.runs p.shared sh ++ p.ran⟩
    | (sh, .returned _) => some ⟨sh, none, p.ran⟩
    | (_, .raised _) => none
  | none =>
    match p.shared.checkpoints.get t with
    | some cp => cp.interrupt.bind fun env =>
      (Invocation.resume t (σ.answer cp.resumes env) p.shared.checkpoints).map fun inv =>
        { p with running := some inv }
    | none => none

/-- What the next action can be. -/
inductive Play.Acts (σ : Script) (t : TicketId) : Play → Play → Prop
  | runs {sh inv ran n} : inv.result = none → inv.checkpoint.next = some n →
      Acts σ t ⟨sh, some inv, ran⟩
        ⟨sh.record (n.run inv.checkpoint.values inv.resumes sh.db).1
          (.ran inv.checkpoint.threadId n inv.checkpoint.values inv.resumes),
         some { inv with result := some (n.run inv.checkpoint.values inv.resumes sh.db).2 },
         ⟨n, sh.db, (n.run inv.checkpoint.values inv.resumes sh.db).1⟩ :: ran⟩
  | puts {sh inv ran s' next} : inv.result = some (.update s') →
      next = inv.checkpoint.next.bind (·.after s') → Acts σ t ⟨sh, some inv, ran⟩
        ⟨{ sh with checkpoints := sh.checkpoints.put inv.checkpoint.threadId s' next },
         some ⟨sh.checkpoints.fresh inv.checkpoint.threadId s' next, none, none⟩, ran⟩
  | suspends {sh inv ran env} : inv.result = some (.interrupt env) →
      Acts σ t ⟨sh, some inv, ran⟩
        ⟨{ sh with checkpoints := sh.checkpoints.putWrites inv.checkpoint inv.resumes env }, none,
         ran⟩
  | returns {sh inv ran} : inv.result = none → inv.checkpoint.next = none →
      Acts σ t ⟨sh, some inv, ran⟩ ⟨sh, none, ran⟩
  | delivers {sh ran cp env} : sh.checkpoints.get t = some cp → cp.interrupt = some env →
      Acts σ t ⟨sh, none, ran⟩ ⟨sh, some ⟨cp, some (σ.answer cp.resumes env), none⟩, ran⟩

theorem Play.acts_of_act {σ : Script} {t : TicketId} {p p' : Play} (h : p.act σ t = some p') :
    Play.Acts σ t p p' := by
  obtain ⟨sh, running, ran⟩ := p
  cases running with
  | none =>
    cases hcp : sh.checkpoints.get t with
    | none =>
      simp only [Play.act, hcp] at h
      cases h
    | some cp =>
      simp only [Play.act, Invocation.resume, hcp, Option.map_some] at h
      obtain ⟨env, henv, h⟩ := Option.bind_eq_some_iff.mp h
      cases h
      exact .delivers hcp henv
  | some inv =>
    simp only [Play.act, Invocation.advance] at h
    cases hr : inv.result with
    | none =>
      rw [hr] at h
      cases hn : inv.checkpoint.next with
      | none =>
        rw [hn] at h
        cases h
        exact .returns hr hn
      | some n =>
        simp only [hn, Invocation.runs, hr] at h
        cases h
        exact .runs hr hn
    | some r =>
      rw [hr] at h
      cases r with
      | update s' =>
        simp only [Invocation.runs, hr] at h
        cases h
        exact .puts hr rfl
      | interrupt env =>
        cases h
        exact .suspends hr
      | raise error => cases h

/-- The thread has just been created. -/
def Play.start (ticket : Ticket) (sh : Shared) : Play :=
  ⟨(Invocation.input ticket sh).1, some (Invocation.input ticket sh).2, []⟩

/-- The plays of a ticket, and how many actions of the thread itself they took. -/
inductive Plays (others : Shared → Shared → Prop) (σ : Script) (ticket : Ticket) : ℕ → Play → Prop
  | start {sh} : (∀ key : IdempotencyKey, key.ticket = ticket.id → sh.db.task key = none) →
      Plays others σ ticket 0 (.start ticket sh)
  | own {n p p'} : Plays others σ ticket n p → p.act σ ticket.id = some p' →
      Plays others σ ticket (n + 1) p'
  | others {n sh sh' running ran} : Plays others σ ticket n ⟨sh, running, ran⟩ → others sh sh' →
      Plays others σ ticket n ⟨sh', running, ran⟩

/-- Nobody else drives the ticket's thread or enqueues its tasks. -/
structure Aside (t : TicketId) (others : Shared → Shared → Prop) : Prop where
  thread : ∀ sh sh', others sh sh' → sh'.checkpoints.get t = sh.checkpoints.get t
  tasks : ∀ sh sh' (key : IdempotencyKey), others sh sh' → key.ticket = t →
    (sh'.db.task key).isSome → (sh.db.task key).isSome

/-- The caller has returned and the thread is at its end. -/
def Play.Ended (t : TicketId) (p : Play) : Prop :=
  p.running = none ∧ ∃ cp, p.shared.checkpoints.get t = some cp ∧ cp.next = none

/-- What is documented has been computed. -/
structure Documented (σ : Script) (ticket : Ticket) (p : Play) : Prop where
  status : ∀ cp, p.shared.checkpoints.get ticket.id = some cp → cp.values.status = σ.status
  approval : (∃ x ∈ p.ran, x.node = .awaitApproval) ↔ σ.Approves
  finalize : ∀ x ∈ p.ran, ∀ r, x.before.task (.finalize ticket.id) = none →
    x.after.task (.finalize ticket.id) = some r →
      ∃ action, r.payload = .finalize ticket action (σ.expected ticket.id)
  keys : ∀ key : IdempotencyKey, (∀ t ty, key ≠ .fallback t ty) →
    ((∃ x ∈ p.ran, x.Enqueues key) ↔ key ∈ σ.keys ticket.id)
  fallback : ∀ x ∈ p.ran, ∀ t ty, x.Enqueues (.fallback t ty) → t = ticket.id ∧
    σ.late ty = true ∧ ∃ r ∈ x.before.taskQueue, r.idempotencyKey = .agent t ty ∧ r.status = .pending

variable {σ : Script} {ticket : Ticket} {s s' : TicketState} {n : Node} {resumes : List Resume}
  {db : Database} {t : TicketId} {env : Envelope}

/-! ## The answers a node gets -/

/-- All the answers of a node's interrupts, in order. -/
def Script.answers (σ : Script) (t : TicketId) : Node → List Resume
  | .awaitClassify =>
    (if σ.classify.late then [.timeout] else []) ++ [σ.classify.value .classification]
  | .awaitDraft => (if σ.draft.late then [.timeout] else []) ++ [σ.draft.value .draft]
  | .awaitApproval => [σ.decided]
  | .execute => [.result (.terminal (σ.finalized (σ.expected t)))]
  | .dispatchClassify | .dispatchDraft | .decideApproval | .prepareApproval => []

/-- What the state holds when the node is next. -/
def StateAt (σ : Script) (ticket : Ticket) (s : TicketState) : Option Node → Prop
  | some .dispatchClassify | some .awaitClassify => s.ticket = ticket
  | some .dispatchDraft | some .awaitDraft => s.ticket = ticket ∧
      ∃ c, σ.classify.outcome = .ok c ∧ s.classification = some c
  | some .decideApproval => s.ticket = ticket ∧ s.status = .drafting ∧ ∃ c d,
      σ.classify.outcome = .ok c ∧ s.classification = some c ∧ σ.draft.outcome = .ok d ∧
      s.draft = some d
  | some .prepareApproval => s.ticket = ticket ∧ ∃ c d, σ.classify.outcome = .ok c ∧
      s.classification = some c ∧ σ.draft.outcome = .ok d ∧ s.draft = some d ∧ Graph.Risky d
  | some .awaitApproval => s.ticket = ticket ∧ s.status = .awaitingApproval ∧ s.wakeupAt.isSome ∧
      ∃ c d, σ.classify.outcome = .ok c ∧ s.classification = some c ∧
      σ.draft.outcome = .ok d ∧ s.draft = some d ∧ Graph.Risky d
  | some .execute => s.ticket = ticket ∧ s.classification = some σ.classification ∧
      s.draft = some σ.reply ∧
      Graph.terminalOutcome s.status σ.reply.replyText = (σ.status, σ.replyText)
  | none => s.status = σ.status

/-- The node that follows. -/
inductive Route (σ : Script) : Node → Option Node → Prop
  | classify : Route σ .dispatchClassify (some .awaitClassify)
  | classified {c} : σ.classify.outcome = .ok c → Route σ .awaitClassify (some .dispatchDraft)
  | unclassified {e} : σ.classify.outcome = .error e → Route σ .awaitClassify (some .execute)
  | draft : Route σ .dispatchDraft (some .awaitDraft)
  | drafted : Route σ .awaitDraft (some .decideApproval)
  | undrafted {e} : σ.draft.outcome = .error e → Route σ .awaitDraft (some .execute)
  | risky : Route σ .decideApproval (some .prepareApproval)
  | safe : ¬σ.Approves → Route σ .decideApproval (some .execute)
  | approval : Route σ .prepareApproval (some .awaitApproval)
  | approved : Route σ .awaitApproval (some .execute)
  | finalize : Route σ .execute none

/-- A run of a node comes to a state fit for the next one, or suspends for its next answer. -/
inductive Scripted (σ : Script) (ticket : Ticket) (n : Node) (resumes : List Resume) :
    NodeResult → Prop
  | update {s' : TicketState} : Route σ n (n.after s') → StateAt σ ticket s' (n.after s') →
      Scripted σ ticket n resumes (.update s')
  | interrupt {env : Envelope} : resumes ++ [σ.answer resumes env] <+: σ.answers ticket.id n →
      Scripted σ ticket n resumes (.interrupt env)

/-- With a prefix of the answers on record an agent stage suspends for the next one, or has its last
one. -/
theorem awaitAgentTask_scripted (ty : TaskType) (t : TicketId) (payload : TaskPayload)
    (wakeupAt : Option Time) (db : Database) {late : Bool} {value : Resume} (hv : value ≠ .timeout)
    (hp : resumes <+: (if late then [.timeout] else []) ++ [value]) :
    (Graph.awaitAgentTask ty t payload wakeupAt resumes db).2 = .resumed value ∨
      ∃ key queue wakeup, (Graph.awaitAgentTask ty t payload wakeupAt resumes db).2 =
          .suspended (.agentTask key ty t queue wakeup) ∧
        resumes ++ [if resumes = [] ∧ late = true then .timeout else value] <+:
          (if late then [.timeout] else []) ++ [value] := by
  cases late with
  | false =>
    rcases List.prefix_cons_iff.mp hp with rfl | ⟨rest, rfl, hrest⟩
    · exact .inr ⟨_, _, _, rfl, List.prefix_rfl⟩
    · left
      rw [Graph.awaitAgentTask]
      cases value with
      | timeout => exact absurd rfl hv
      | _ => rfl
  | true =>
    rcases List.prefix_cons_iff.mp hp with rfl | ⟨rest, rfl, hrest⟩
    · exact .inr ⟨_, _, _, rfl, [value], rfl⟩
    · rcases List.prefix_cons_iff.mp hrest with rfl | ⟨rest, rfl, hrest⟩
      · exact .inr ⟨_, _, _, rfl, List.prefix_rfl⟩
      · exact .inl rfl

theorem Script.terminal_of_failed (σ : Script) (h : ∀ c d, σ.classify.outcome = .ok c → σ.draft.outcome ≠ .ok d) :
    σ.status = .escalated ∧ σ.reply = Graph.failureDraft := by
  unfold Script.status Script.reply
  split
  · rename_i c d hc hd
    exact absurd hd (h c d hc)
  · exact ⟨rfl, rfl⟩

theorem awaitClassify_scripted (h : StateAt σ ticket s (some .awaitClassify))
    (hp : resumes <+: σ.answers ticket.id .awaitClassify) :
    Scripted σ ticket .awaitClassify resumes (Graph.awaitClassify s resumes db).2 := by
  have hs : s.ticket = ticket := h
  have hv := σ.classify.value_ne .classification
  unfold Graph.awaitClassify
  rw [hs]
  have hawait := awaitAgentTask_scripted .classify ticket.id (.classify ticket) s.wakeupAt db hv hp
  generalize Graph.awaitAgentTask .classify ticket.id (.classify ticket) s.wakeupAt resumes db = out
    at hawait
  obtain ⟨db', awaited⟩ := out
  rcases hawait with hout | ⟨key, queue, wakeup, hout, hnext⟩
  · cases hout
    change Scripted σ ticket .awaitClassify resumes (Graph.classifyUpdate s _)
    unfold StageScript.value
    split
    · rename_i c hc
      exact .update (.classified hc) ⟨hs, c, hc, rfl⟩
    · rename_i error permanent hc
      have hfail := σ.terminal_of_failed fun c d hok => by
        rw [hc] at hok
        cases hok
      refine .update (.unclassified hc) ⟨hs, ?_, ?_, ?_⟩
      · change some Graph.failureClassification = some σ.classification
        rw [Script.classification, hc]
      · exact congrArg some hfail.2.symm
      · change (TicketStatus.escalated, escalationReply) = _
        rw [Script.replyText, hfail.1]
  · cases hout
    exact .interrupt hnext

theorem awaitDraft_scripted (h : StateAt σ ticket s (some .awaitDraft))
    (hp : resumes <+: σ.answers ticket.id .awaitDraft) :
    Scripted σ ticket .awaitDraft resumes (Graph.awaitDraft s resumes db).2 := by
  obtain ⟨hs, c, hc, hclass⟩ := h
  have hv := σ.draft.value_ne .draft
  unfold Graph.awaitDraft
  rw [hs, hclass]
  have hawait := awaitAgentTask_scripted .draft ticket.id (.draft ticket c) s.wakeupAt db hv hp
  dsimp only
  generalize Graph.awaitAgentTask .draft ticket.id (.draft ticket c) s.wakeupAt resumes db = out
    at hawait
  obtain ⟨db', awaited⟩ := out
  rcases hawait with hout | ⟨key, queue, wakeup, hout, hnext⟩
  · cases hout
    change Scripted σ ticket .awaitDraft resumes (Graph.draftUpdate s _)
    unfold StageScript.value
    split
    · rename_i d hd
      exact .update .drafted ⟨hs, rfl, c, d, hc, hclass, hd, rfl⟩
    · rename_i error permanent hd
      have hfail := σ.terminal_of_failed fun c d _ hok => by
        rw [hd] at hok
        cases hok
      refine .update (.undrafted hd) ⟨hs, ?_, ?_, ?_⟩
      · change s.classification = some σ.classification
        rw [hclass, Script.classification, hc]
      · exact congrArg some hfail.2.symm
      · change (TicketStatus.escalated, escalationReply) = _
        rw [Script.replyText, hfail.1]
  · cases hout
    exact .interrupt hnext

/-- Both stages answered: the draft's own reply is the script's, and its risk decides. -/
theorem Script.of_answered {c : Classification} {d : DraftReply} (hc : σ.classify.outcome = .ok c)
    (hd : σ.draft.outcome = .ok d) : σ.classification = c ∧ σ.reply = d ∧
      (σ.Approves ↔ Graph.Risky d) ∧ σ.status = if Graph.Risky d then
        match σ.approval with
        | none => .escalated
        | some decision => if decision.approved then .resolved else .rejected
      else .resolved := by
  refine ⟨?_, ?_, ⟨?_, fun hr => ⟨c, d, hc, hd, hr⟩⟩, ?_⟩
  · rw [Script.classification, hc]
  · rw [Script.reply, hc, hd]
  · rintro ⟨c', d', hc', hd', hr⟩
    cases hd.symm.trans hd'
    exact hr
  · rw [Script.status, hc, hd]

theorem decideApproval_scripted (h : StateAt σ ticket s (some .decideApproval)) :
    Scripted σ ticket .decideApproval resumes (Graph.decideApproval s) := by
  obtain ⟨hs, hst, c, d, hc, hclass, hd, hdraft⟩ := h
  obtain ⟨hσc, hσd, happ, hσs⟩ := Script.of_answered hc hd
  rw [Graph.decideApproval, hdraft]
  by_cases hr : Graph.Risky d
  · refine .update ?_ ?_ <;> simp only [Node.after, hr, decide_true, if_true]
    · exact .risky
    · exact ⟨hs, c, d, hc, hclass, hd, rfl, hr⟩
  · refine .update ?_ ?_ <;> simp only [Node.after, hr, decide_false, Bool.false_eq_true, if_false]
    · exact .safe fun h => hr (happ.mp h)
    refine ⟨hs, ?_, ?_, ?_⟩
    · rw [hσc]
      exact hclass
    · exact congrArg some hσd.symm
    · rw [if_neg hr] at hσs
      simp only [hst, Graph.terminalOutcome, hσs, Script.replyText]

theorem awaitApproval_scripted (h : StateAt σ ticket s (some .awaitApproval))
    (hp : resumes <+: σ.answers ticket.id .awaitApproval) :
    Scripted σ ticket .awaitApproval resumes (Graph.awaitApproval s resumes) := by
  obtain ⟨hs, hst, hw, c, d, hc, hclass, hd, hdraft, hr⟩ := h
  obtain ⟨wakeupAt, hw⟩ := Option.isSome_iff_exists.mp hw
  obtain ⟨hσc, hσd, -, hσs⟩ := Script.of_answered hc hd
  rw [if_pos hr] at hσs
  rw [Graph.awaitApproval, hdraft, hw]
  rcases List.prefix_cons_iff.mp hp with rfl | ⟨rest, rfl, hrest⟩
  · exact .interrupt List.prefix_rfl
  · -- The outcome of the approval is the status `execute` reads, except after an approval.
    have next : ∀ s' : TicketState, s'.ticket = s.ticket → s'.classification = s.classification →
        s'.draft = s.draft → Graph.terminalOutcome s'.status d.replyText =
          (σ.status, σ.replyText) → Scripted σ ticket .awaitApproval (σ.decided :: rest)
            (.update s') := by
      intro s' ht hclass' hdraft' hout
      refine .update .approved ⟨ht.trans hs, ?_, ?_, ?_⟩
      · rw [hclass', hσc]
        exact hclass
      · rw [hdraft', hσd]
        exact hdraft
      · rw [hσd]
        exact hout
    unfold Script.decided
    cases ha : σ.approval with
    | none =>
      rw [ha] at hσs
      rw [Script.decided, ha] at next
      refine next _ rfl rfl rfl ?_
      simp only [Graph.terminalOutcome, Script.replyText, hσs]
    | some decision =>
      rw [ha] at hσs
      rw [Script.decided, ha] at next
      simp only [Graph.approvalUpdate]
      cases happ : decision.approved with
      | true =>
        refine next _ rfl rfl rfl ?_
        simp only [Graph.terminalOutcome, Script.replyText, hσs, happ, hst, hσd, if_true]
      | false =>
        refine next _ rfl rfl rfl ?_
        simp only [Graph.terminalOutcome, Script.replyText, hσs, happ, Bool.false_eq_true, if_false]

theorem execute_scripted (h : StateAt σ ticket s (some .execute))
    (hp : resumes <+: σ.answers ticket.id .execute) :
    Scripted σ ticket .execute resumes (Graph.execute s resumes db).2 := by
  obtain ⟨hs, hclass, hdraft, hout⟩ := h
  have hexp : Graph.expectedResult s σ.classification σ.reply = σ.expected ticket.id := by
    rw [Graph.expectedResult, Script.expected, hs, hout]
  rw [Graph.execute, hdraft, hclass]
  rcases List.prefix_cons_iff.mp hp with rfl | ⟨rest, rfl, hrest⟩
  · refine .interrupt ?_
    rw [Script.answer, hexp]
    exact List.prefix_rfl
  · obtain ⟨hid, hst⟩ := σ.echoes (σ.expected ticket.id)
    dsimp only
    rw [Graph.executeUpdate, Graph.validateTicketResult]
    dsimp only
    rw [if_neg]
    · exact .update .finalize hst
    · rw [hid, hs]
      exact not_not.mpr rfl

/-- A run of a node with a prefix of its answers. -/
theorem run_scripted (db : Database) (h : StateAt σ ticket s (some n)) (hp : resumes <+: σ.answers ticket.id n) :
    Scripted σ ticket n resumes (n.run s resumes db).2 := by
  cases n with
  | dispatchClassify => exact .update .classify h
  | awaitClassify => exact awaitClassify_scripted h hp
  | dispatchDraft =>
    obtain ⟨hs, c, hc, hclass⟩ := h
    rw [Node.run, Graph.dispatchDraft, hclass]
    exact .update .draft ⟨hs, c, hc, rfl⟩
  | awaitDraft => exact awaitDraft_scripted h hp
  | decideApproval => exact decideApproval_scripted h
  | prepareApproval =>
    obtain ⟨hs, c, d, hrest⟩ := h
    exact .update .approval ⟨hs, rfl, rfl, c, d, hrest⟩
  | awaitApproval => exact awaitApproval_scripted h hp
  | execute => exact execute_scripted h hp

/-! ## The tasks a node leaves -/

/-- The key under which a node enqueues. -/
def Node.dispatches (t : TicketId) : Node → Option IdempotencyKey
  | .dispatchClassify => some (.agent t .classify)
  | .dispatchDraft => some (.agent t .draft)
  | .execute => some (.finalize t)
  | .awaitClassify | .awaitDraft | .decideApproval | .prepareApproval | .awaitApproval => none

/-- The keys that have been enqueued when the node is next. -/
def Script.enqueued (σ : Script) (t : TicketId) : Option Node → List IdempotencyKey
  | some .dispatchClassify => []
  | some .awaitClassify | some .dispatchDraft => [.agent t .classify]
  | some .awaitDraft | some .decideApproval | some .prepareApproval | some .awaitApproval =>
    [.agent t .classify, .agent t .draft]
  | some .execute => (σ.keys t).dropLast
  | none => σ.keys t

/-- What a run of a node may do: come to an approval that is due, insert the documented finalize
task, enqueue a documented key, or a fallback of a pending primary task after a timeout. -/
structure NodeRun.Sanctioned (σ : Script) (ticket : Ticket) (x : NodeRun) : Prop where
  approval : x.node = .awaitApproval → σ.Approves
  finalize : ∀ r, x.before.task (.finalize ticket.id) = none →
    x.after.task (.finalize ticket.id) = some r →
      ∃ action, r.payload = .finalize ticket action (σ.expected ticket.id)
  keys : ∀ key : IdempotencyKey, x.Enqueues key → key ∈ σ.keys ticket.id ∨
    ∃ ty, key = .fallback ticket.id ty ∧ σ.late ty = true ∧ ∃ r ∈ x.before.taskQueue,
      r.idempotencyKey = .agent ticket.id ty ∧ r.status = .pending

theorem Script.agent_keys {key : IdempotencyKey} (h : key ∈ (σ.keys t).dropLast) :
    key ∈ [IdempotencyKey.agent t .classify, .agent t .draft] := by
  rw [Script.keys] at h
  split at h
  · exact h
  · exact List.mem_cons.mpr (.inl (List.mem_singleton.mp h))

theorem Route.enqueued {next : Option Node} {key : IdempotencyKey} (h : Route σ n next)
    (hkey : key ∈ σ.enqueued t next) : key ∈ σ.enqueued t (some n) ∨ n.dispatches t = some key := by
  cases h with
  | classify => exact .inr (congrArg some (List.mem_singleton.mp hkey).symm)
  | classified hc => exact .inl hkey
  | unclassified hc =>
    rw [Script.enqueued, Script.keys, hc] at hkey
    exact .inl hkey
  | draft =>
    rcases List.mem_cons.mp hkey with rfl | hkey
    · exact .inl (List.mem_singleton_self _)
    · exact .inr (congrArg some (List.mem_singleton.mp hkey).symm)
  | drafted => exact .inl hkey
  | undrafted hd => exact .inl (Script.agent_keys hkey)
  | risky => exact .inl hkey
  | safe ha => exact .inl (Script.agent_keys hkey)
  | approval => exact .inl hkey
  | approved => exact .inl (Script.agent_keys hkey)
  | finalize =>
    change key ∈ σ.keys t at hkey
    change key ∈ (σ.keys t).dropLast ∨ some (IdempotencyKey.finalize t) = some key
    rw [Script.keys] at hkey ⊢
    split at hkey <;> simpa [eq_comm, or_assoc] using hkey

/-- Only after an approval does a route with one come to `execute`. -/
theorem Route.approves {next : Option Node} (h : Route σ n next) (ha : σ.Approves)
    (hn : next = some .execute ∨ next = none) :
    n = .awaitApproval ∨ some n = some .execute ∨ some n = none := by
  obtain ⟨c, d, hc, hd, hr⟩ := ha
  cases h with
  | unclassified he => cases hc.symm.trans he
  | undrafted he => cases hd.symm.trans he
  | safe hno => exact absurd ⟨c, d, hc, hd, hr⟩ hno
  | approved => exact .inl rfl
  | finalize => exact .inr (.inl rfl)
  | _ => rcases hn with hn | hn <;> cases hn

theorem awaitWrite_scripted {ty : TaskType} {payload : TaskPayload} {late : Bool} {value : Resume}
    {w : QueueWrite} (hv : value ≠ .timeout)
    (hp : resumes <+: (if late then [.timeout] else []) ++ [value])
    (hw : awaitWrite ty t payload resumes = some w) : w = .redispatch ty t payload ∧ late = true := by
  unfold awaitWrite at hw
  split at hw
  · cases hw
    refine ⟨rfl, ?_⟩
    cases late with
    | true => rfl
    | false => exact absurd (List.cons_prefix_cons.mp hp).1.symm hv
  · cases hw

/-- What a node writes: its own task, or a redispatch after a timeout. -/
theorem write_scripted {w : QueueWrite} (h : StateAt σ ticket s (some n))
    (hp : resumes <+: σ.answers ticket.id n) (hw : n.write s resumes = some w) :
    (∃ key ∈ σ.keys ticket.id, n.dispatches ticket.id = some key ∧ ∃ queueName ty payload,
      w = .enqueue queueName ty ticket.id payload key ∧ (key = .finalize ticket.id →
        ∃ action, payload = .finalize ticket action (σ.expected ticket.id))) ∨
    ∃ ty payload, w = .redispatch ty ticket.id payload ∧ σ.late ty = true := by
  have hkeys : .finalize ticket.id ∈ σ.keys ticket.id := by
    rw [Script.keys]
    split <;> simp
  cases n with
  | dispatchClassify =>
    have hs : s.ticket = ticket := h
    cases hw
    left
    refine ⟨_, ?_, rfl, _, _, _, by rw [hs], fun he => by cases he⟩
    rw [Script.keys]
    split <;> simp
  | awaitClassify =>
    have hs : s.ticket = ticket := h
    rw [Node.write, hs] at hw
    obtain ⟨hw, hlate⟩ := awaitWrite_scripted (σ.classify.value_ne _) hp hw
    exact .inr ⟨_, _, hw, hlate⟩
  | dispatchDraft =>
    obtain ⟨hs, c, hc, hclass⟩ := h
    rw [Node.write, hclass, hs] at hw
    cases hw
    left
    refine ⟨_, ?_, rfl, _, _, _, rfl, fun he => by cases he⟩
    rw [Script.keys, hc]
    simp
  | awaitDraft =>
    obtain ⟨hs, c, hc, hclass⟩ := h
    rw [Node.write, hclass, hs] at hw
    obtain ⟨hw, hlate⟩ := awaitWrite_scripted (σ.draft.value_ne _) hp hw
    exact .inr ⟨_, _, hw, hlate⟩
  | execute =>
    obtain ⟨hs, hclass, hdraft, hout⟩ := h
    have hexp : Graph.expectedResult s σ.classification σ.reply = σ.expected ticket.id := by
      rw [Graph.expectedResult, Script.expected, hs, hout]
    rw [Node.write, hdraft, hclass, hs] at hw
    cases hw
    exact .inl ⟨_, hkeys, rfl, _, _, _, rfl, fun _ => ⟨_, by rw [hexp]⟩⟩
  | _ => cases hw

theorem run_leaves {key : IdempotencyKey} (h : StateAt σ ticket s (some n))
    (hk : n.dispatches ticket.id = some key) : ((n.run s resumes db).1.task key).isSome := by
  rw [Node.run_db]
  cases n with
  | dispatchClassify =>
    have hs : s.ticket = ticket := h
    cases hk
    rw [← hs]
    exact task_enqueue_self
  | dispatchDraft =>
    obtain ⟨hs, c, hc, hclass⟩ := h
    cases hk
    rw [Node.write, hclass, ← hs]
    exact task_enqueue_self
  | execute =>
    obtain ⟨hs, hclass, hdraft, hout⟩ := h
    cases hk
    rw [Node.write, hclass, hdraft, ← hs]
    exact task_enqueue_self
  | _ => cases hk

/-- A task that appears in a run of a node is what the node writes. -/
theorem Node.run_inserts {key : IdempotencyKey} {r : QueuedTask} (hnone : db.task key = none)
    (hr : (n.run s resumes db).1.task key = some r) : ∃ w queueName ty workflowId payload,
      n.write s resumes = some w ∧ w.Inserts db key queueName ty workflowId payload ∧
      r.payload = payload := by
  rw [Node.run_db] at hr
  cases hw : n.write s resumes with
  | none =>
    rw [hw, Option.map_none, Option.getD_none, hnone] at hr
    cases hr
  | some w =>
    rw [hw, Option.map_some, Option.getD_some] at hr
    rcases w.apply_task db key with hsame | ⟨q, ty, wf, payload, hins, -, hnew⟩ |
      ⟨ty, wf, payload, r₀, -, -, hold, -⟩
    · rw [hsame, hnone] at hr
      cases hr
    · cases hr.symm.trans hnew
      exact ⟨w, q, ty, wf, payload, rfl, hins, rfl⟩
    · rw [hnone] at hold
      cases hold

/-- A run of a node with a prefix of its answers is sanctioned. -/
theorem run_sanctioned (h : StateAt σ ticket s (some n)) (hp : resumes <+: σ.answers ticket.id n) :
    NodeRun.Sanctioned σ ticket ⟨n, db, (n.run s resumes db).1⟩ := by
  refine ⟨?_, fun r hnone hr => ?_, fun key ⟨hnone, hsome⟩ => ?_⟩
  · rintro rfl
    obtain ⟨-, -, -, c, d, hc, -, hd, -, hr⟩ := h
    exact ⟨c, d, hc, hd, hr⟩
  · obtain ⟨w, q, ty, wf, payload, hw, hins, hpay⟩ := Node.run_inserts hnone hr
    rcases write_scripted h hp hw with ⟨key, -, -, q', ty', payload', rfl, hfin⟩ | ⟨ty', payload', rfl, -⟩
    · cases hins
      obtain ⟨action, rfl⟩ := hfin rfl
      exact ⟨action, hpay⟩
    · cases hins with
      | redispatch he => cases he
  · obtain ⟨r, hr⟩ := Option.isSome_iff_exists.mp hsome
    obtain ⟨w, q, ty, wf, payload, hw, hins, -⟩ := Node.run_inserts hnone hr
    rcases write_scripted h hp hw with ⟨key', hmem, -, q', ty', payload', rfl, -⟩ |
      ⟨ty', payload', rfl, hlate⟩
    · cases hins
      exact .inl hmem
    · cases hins with
      | redispatch he hm hk hst => exact .inr ⟨_, he, hlate, _, hm, hk, hst⟩

/-! ## The state of a play -/

/-- What has run when the node is next. -/
structure History (σ : Script) (t : TicketId) (ran : List NodeRun) (next : Option Node) : Prop where
  keys : ∀ key ∈ σ.enqueued t next, ∃ x ∈ ran, x.Enqueues key
  approval : σ.Approves → next = some .execute ∨ next = none → ∃ x ∈ ran, x.node = .awaitApproval

/-- What the caller is at, and a bound of the actions that are left. -/
inductive Phase (σ : Script) (ticket : Ticket) (ran : List NodeRun) (cp : Checkpoint) :
    Option Invocation → ℕ → Prop
  | running {inv : Invocation} : inv.checkpoint = cp → inv.result = none →
      (∀ n, cp.next = some n → inv.resumes <+: σ.answers ticket.id n) →
      (cp.next = none → cp.interrupt = none) →
      Phase σ ticket ran cp (some inv) (12 * Node.rank cp.next + 4 * (2 - inv.resumes.length) + 3)
  | ran {inv : Invocation} {n : Node} {r : NodeResult} : inv.checkpoint = cp →
      inv.result = some r → cp.next = some n → inv.resumes <+: σ.answers ticket.id n →
      Scripted σ ticket n inv.resumes r →
      (∀ s', r = .update s' → History σ ticket.id ran (n.after s')) →
      Phase σ ticket ran cp (some inv) (12 * Node.rank cp.next + 4 * (2 - inv.resumes.length) + 2)
  | parked {env : Envelope} {n : Node} : cp.interrupt = some env → cp.next = some n →
      cp.resumes ++ [σ.answer cp.resumes env] <+: σ.answers ticket.id n →
      Phase σ ticket ran cp none (12 * Node.rank cp.next + 4 * (2 - cp.resumes.length) + 1)
  | ended : cp.interrupt = none → cp.next = none → Phase σ ticket ran cp none 0

structure Play.Sound (σ : Script) (ticket : Ticket) (p : Play) (left : ℕ) : Prop where
  sanctioned : ∀ x ∈ p.ran, x.Sanctioned σ ticket
  present : ∀ key : IdempotencyKey, key.ticket = ticket.id → (p.shared.db.task key).isSome →
    ∃ x ∈ p.ran, x.Enqueues key
  thread : ∃ cp, p.shared.checkpoints.get ticket.id = some cp ∧ StateAt σ ticket cp.values cp.next ∧
    History σ ticket.id p.ran cp.next ∧ Phase σ ticket p.ran cp p.running left

variable {p p' : Play} {left : ℕ} {ran : List NodeRun} {next : Option Node} {cp : Checkpoint}
  {inv inv' : Invocation} {sh sh' : Shared} {x : NodeRun}

theorem Script.answers_length (n : Node) : (σ.answers t n).length ≤ 2 := by
  cases n <;> simp only [Script.answers] <;> try split <;> simp
  all_goals simp

theorem History.mono (h : History σ t ran next) (x : NodeRun) : History σ t (x :: ran) next := by
  refine ⟨fun key hkey => ?_, fun ha hn => ?_⟩
  · obtain ⟨y, hy, he⟩ := h.keys key hkey
    exact ⟨y, List.mem_cons_of_mem x hy, he⟩
  · obtain ⟨y, hy, he⟩ := h.approval ha hn
    exact ⟨y, List.mem_cons_of_mem x hy, he⟩

/-- A task that is there after a run of a node was there, or the run inserted it. -/
theorem present_cons (h : ∀ key : IdempotencyKey, key.ticket = t → (x.before.task key).isSome →
      ∃ y ∈ ran, y.Enqueues key) {key : IdempotencyKey} (hkey : key.ticket = t)
    (hsome : (x.after.task key).isSome) : ∃ y ∈ x :: ran, y.Enqueues key := by
  cases hb : x.before.task key with
  | none => exact ⟨x, List.mem_cons_self, hb, hsome⟩
  | some r =>
    obtain ⟨y, hy, he⟩ := h key hkey (by rw [hb]; rfl)
    exact ⟨y, List.mem_cons_of_mem x hy, he⟩

/-- The history of the node that follows, once the run of its predecessor is part of it. -/
theorem History.route (h : History σ ticket.id ran (some n)) (hr : Route σ n next)
    (hx : x.node = n) (hleaves : ∀ key, n.dispatches ticket.id = some key →
      ∃ y ∈ x :: ran, y.Enqueues key) : History σ ticket.id (x :: ran) next := by
  refine ⟨fun key hkey => ?_, fun ha hn => ?_⟩
  · rcases hr.enqueued hkey with hold | hnew
    · exact (h.mono x).keys key hold
    · exact hleaves key hnew
  · rcases hr.approves ha hn with rfl | hn
    · exact ⟨x, List.mem_cons_self, hx⟩
    · exact (h.mono x).approval ha hn

theorem dispatches_ticket {key : IdempotencyKey} (h : n.dispatches t = some key) :
    key.ticket = t := by
  cases n <;> cases h <;> rfl

/-! ## The actions of a play -/

theorem Play.Sound.runs (h : Play.Sound σ ticket ⟨sh, some inv, ran⟩ left) (hr : inv.result = none)
    (hn : inv.checkpoint.next = some n) : ∃ left' < left, Play.Sound σ ticket
      ⟨sh.record (n.run inv.checkpoint.values inv.resumes sh.db).1
        (.ran inv.checkpoint.threadId n inv.checkpoint.values inv.resumes),
       some { inv with result := some (n.run inv.checkpoint.values inv.resumes sh.db).2 },
       ⟨n, sh.db, (n.run inv.checkpoint.values inv.resumes sh.db).1⟩ :: ran⟩ left' := by
  obtain ⟨cp, hcp, hs, hh, hphase⟩ := h.thread
  cases hphase with
  | ran hinv hr' => cases hr.symm.trans hr'
  | running hinv _ hp _ =>
    subst hinv
    have hprefix := hp n hn
    rw [hn] at hs hh
    have hpresent : ∀ key : IdempotencyKey, key.ticket = ticket.id →
        ((n.run inv.checkpoint.values inv.resumes sh.db).1.task key).isSome →
        ∃ y ∈ (⟨n, sh.db, (n.run inv.checkpoint.values inv.resumes sh.db).1⟩ : NodeRun) :: ran,
          y.Enqueues key := fun key hkey hsome => present_cons h.present hkey hsome
    refine ⟨_, Nat.lt_succ_self _, ?_, hpresent, inv.checkpoint, hcp, ?_, ?_,
      .ran rfl rfl hn hprefix (run_scripted sh.db hs hprefix) fun s' hupdate => ?_⟩
    · intro x hx
      rcases List.mem_cons.mp hx with rfl | hx
      · exact run_sanctioned hs hprefix
      · exact h.sanctioned x hx
    · rw [hn]
      exact hs
    · rw [hn]
      exact hh.mono _
    · have hscripted := run_scripted sh.db hs hprefix
      rw [hupdate] at hscripted
      cases hscripted with
      | update hroute _ =>
        exact hh.route hroute rfl fun key hkey =>
          hpresent key (dispatches_ticket hkey) (run_leaves hs hkey)

theorem Play.Sound.puts (h : Play.Sound σ ticket ⟨sh, some inv, ran⟩ left)
    (hr : inv.result = some (.update s')) (hnext : next = inv.checkpoint.next.bind (·.after s')) :
    ∃ left' < left, Play.Sound σ ticket
      ⟨{ sh with checkpoints := sh.checkpoints.put inv.checkpoint.threadId s' next },
       some ⟨sh.checkpoints.fresh inv.checkpoint.threadId s' next, none, none⟩, ran⟩ left' := by
  obtain ⟨cp, hcp, hs, hh, hphase⟩ := h.thread
  cases hphase with
  | running hinv hr' => cases hr.symm.trans hr'
  | @ran _ n r hinv hr' hn hp hscripted hhist =>
    subst hinv
    cases hr.symm.trans hr'
    rw [hn, Option.bind_some] at hnext
    have ht : inv.checkpoint.threadId = ticket.id := Checkpoints.threadId_of_get hcp
    have hrank := n.rank_after s'
    cases hscripted with
    | update hroute hstate =>
      refine ⟨_, ?_, h.sanctioned, h.present,
        sh.checkpoints.fresh inv.checkpoint.threadId s' next, ?_, ?_, ?_,
        .running rfl rfl (fun n _ => List.nil_prefix) fun _ => rfl⟩
      · change 12 * Node.rank next + 4 * 2 + 3 < _
        rw [hn, hnext]
        omega
      · rw [ht]
        exact Checkpoints.get_put_self
      · exact hnext ▸ hstate
      · exact hnext ▸ hhist s' rfl

theorem Play.Sound.suspends (h : Play.Sound σ ticket ⟨sh, some inv, ran⟩ left)
    (hr : inv.result = some (.interrupt env)) : ∃ left' < left, Play.Sound σ ticket
      ⟨{ sh with checkpoints := sh.checkpoints.putWrites inv.checkpoint inv.resumes env }, none,
        ran⟩ left' := by
  obtain ⟨cp, hcp, hs, hh, hphase⟩ := h.thread
  cases hphase with
  | running hinv hr' => cases hr.symm.trans hr'
  | @ran _ n r hinv hr' hn hp hscripted hhist =>
    subst hinv
    cases hr.symm.trans hr'
    cases hscripted with
    | interrupt hanswer =>
      refine ⟨_, Nat.lt_succ_self _, h.sanctioned, h.present,
        { inv.checkpoint with resumes := inv.resumes, interrupt := some env }, ?_, hs, hh,
        .parked rfl hn hanswer⟩
      change (sh.checkpoints.putWrites inv.checkpoint inv.resumes env).get ticket.id = _
      rw [Checkpoints.get_putWrites, hcp, Option.map_some, if_pos ⟨rfl, rfl⟩]

theorem Play.Sound.delivers (h : Play.Sound σ ticket ⟨sh, none, ran⟩ left)
    (hcp : sh.checkpoints.get ticket.id = some cp) (henv : cp.interrupt = some env) :
    ∃ left' < left, Play.Sound σ ticket
      ⟨sh, some ⟨cp, some (σ.answer cp.resumes env), none⟩, ran⟩ left' := by
  obtain ⟨cp', hcp', hs, hh, hphase⟩ := h.thread
  cases hcp.symm.trans hcp'
  cases hphase with
  | ended hi => cases henv.symm.trans hi
  | @parked env' n henv' hn hp =>
    cases henv.symm.trans henv'
    refine ⟨_, ?_, h.sanctioned, h.present, cp, hcp, hs, hh, .running rfl rfl (fun n' hn' => ?_)
      fun hn' => nomatch hn.symm.trans hn'⟩
    · have hlen := hp.length_le.trans (Script.answers_length n)
      simp only [Invocation.resumes, Option.toList_some, List.length_append, List.length_singleton]
        at hlen ⊢
      omega
    · cases hn.symm.trans hn'
      exact hp

theorem Play.Sound.returns (h : Play.Sound σ ticket ⟨sh, some inv, ran⟩ left)
    (hr : inv.result = none) (hn : inv.checkpoint.next = none) :
    ∃ left' < left, Play.Sound σ ticket ⟨sh, none, ran⟩ left' := by
  obtain ⟨cp, hcp, hs, hh, hphase⟩ := h.thread
  cases hphase with
  | ran hinv hr' => cases hr.symm.trans hr'
  | running hinv _ hp hi =>
    subst hinv
    exact ⟨0, Nat.succ_pos _, h.sanctioned, h.present, _, hcp, hs, hh, .ended (hi hn) hn⟩

theorem Play.Sound.acts (h : p.Sound σ ticket left) (ha : p.act σ ticket.id = some p') :
    ∃ left' < left, p'.Sound σ ticket left' := by
  cases Play.acts_of_act ha with
  | runs hr hn => exact h.runs hr hn
  | puts hr hnext => exact h.puts hr hnext
  | suspends hr => exact h.suspends hr
  | returns hr hn => exact h.returns hr hn
  | delivers hcp henv => exact h.delivers hcp henv

theorem Play.Sound.others {others : Shared → Shared → Prop} {running : Option Invocation}
    (h : Play.Sound σ ticket ⟨sh, running, ran⟩ left) (ha : Aside ticket.id others)
    (ho : others sh sh') : Play.Sound σ ticket ⟨sh', running, ran⟩ left := by
  obtain ⟨cp, hcp, hrest⟩ := h.thread
  exact ⟨h.sanctioned, fun key hkey hsome => h.present key hkey (ha.tasks sh sh' key ho hkey hsome),
    cp, (ha.thread sh sh' ho).trans hcp, hrest⟩

/-- A play is sound, and its actions and those that are left come to 107 at most. -/
theorem Plays.sound {others : Shared → Shared → Prop} {k : ℕ} (ha : Aside ticket.id others)
    (h : Plays others σ ticket k p) : ∃ left, k + left ≤ 107 ∧ p.Sound σ ticket left := by
  induction h with
  | @start sh hnone =>
    refine ⟨107, le_rfl, fun x hx => (nomatch hx), fun key hkey hsome => ?_,
      sh.checkpoints.fresh ticket.id { ticket := ticket, status := .received }
        (some .dispatchClassify), Checkpoints.get_put_self, rfl, ⟨fun key hkey => (nomatch hkey),
          fun _ hn => hn.elim (nomatch ·) (nomatch ·)⟩,
      .running rfl rfl (fun n _ => List.nil_prefix) fun _ => rfl⟩
    change (sh.db.task key).isSome at hsome
    rw [hnone key hkey] at hsome
    cases hsome
  | own hp ho ih =>
    obtain ⟨left, hle, hsound⟩ := ih
    obtain ⟨left', hlt, hsound'⟩ := hsound.acts ho
    exact ⟨left', by omega, hsound'⟩
  | others hp ho ih =>
    obtain ⟨left, hle, hsound⟩ := ih
    exact ⟨left, hle, hsound.others ha ho⟩

theorem Play.Sound.goes_on (h : p.Sound σ ticket left) :
    p.Ended ticket.id ∨ (p.act σ ticket.id).isSome := by
  obtain ⟨sh, running, ran⟩ := p
  obtain ⟨cp, hcp, hs, hh, hphase⟩ := h.thread
  change sh.checkpoints.get ticket.id = some cp at hcp
  change Phase σ ticket ran cp running left at hphase
  cases hphase with
  | ended hi hn => exact .inl ⟨rfl, cp, hcp, hn⟩
  | parked henv hn hp =>
    right
    simp only [Play.act, Invocation.resume, hcp, henv, Option.bind_some, Option.map_some]
    rfl
  | @running inv hinv hr hp hi =>
    right
    cases hn : inv.checkpoint.next <;> simp only [Play.act, Invocation.advance, hr, hn] <;> rfl
  | @ran inv n r hinv hr hn hp hscripted hhist =>
    right
    cases hscripted <;> simp only [Play.act, Invocation.advance, hr] <;> rfl

/-! ## The outcome -/

theorem Play.Sound.documented (h : p.Sound σ ticket left) (hend : p.Ended ticket.id) :
    Documented σ ticket p := by
  obtain ⟨hrunning, cp, hcp, hn⟩ := hend
  obtain ⟨cp', hcp', hs, hh, -⟩ := h.thread
  cases hcp.symm.trans hcp'
  rw [hn] at hs hh
  have sanctioned_key : ∀ x ∈ p.ran, ∀ key : IdempotencyKey, x.Enqueues key →
      key ∈ σ.keys ticket.id ∨ _ := fun x hx => (h.sanctioned x hx).keys
  refine ⟨fun cp' hcp' => ?_, ⟨?_, fun ha => hh.approval ha (.inr rfl)⟩,
    fun x hx => (h.sanctioned x hx).finalize, fun key hkey => ⟨?_, hh.keys key⟩,
    fun x hx t ty he => ?_⟩
  · cases hcp.symm.trans hcp'
    exact hs
  · rintro ⟨x, hx, happ⟩
    exact (h.sanctioned x hx).approval happ
  · rintro ⟨x, hx, he⟩
    rcases sanctioned_key x hx key he with hmem | ⟨ty, hfall, -⟩
    · exact hmem
    · exact absurd hfall (hkey ticket.id ty)
  · rcases sanctioned_key x hx _ he with hmem | ⟨ty', hfall, hrest⟩
    · rw [Script.keys] at hmem
      split at hmem <;> simp at hmem
    · cases hfall
      exact ⟨rfl, hrest⟩

theorem Node.run_keeps {key : IdempotencyKey} (h : (db.task key).isSome) :
    ((n.run s resumes db).1.task key).isSome := by
  rw [Node.run_db]
  cases n.write s resumes with
  | none => exact h
  | some w =>
    rw [Option.map_some, Option.getD_some]
    rcases w.apply_task db key with hsame | ⟨q, ty, wf, payload, -, -, hnew⟩ |
      ⟨ty, wf, payload, r, -, -, -, -, hnew⟩
    · rw [hsame]
      exact h
    · rw [hnew]
      rfl
    · rw [hnew]
      rfl

/-- Where nobody deletes the task of a key, it has been enqueued at most once, and not at all while
it is not there. -/
theorem Plays.once {others : Shared → Shared → Prop} {k : ℕ} {key : IdempotencyKey}
    (hkeeps : ∀ sh sh', others sh sh' → (sh.db.task key).isSome → (sh'.db.task key).isSome)
    (h : Plays others σ ticket k p) : p.ran.countP (fun x => x.Enqueues key) ≤ 1 ∧
      (p.shared.db.task key = none → p.ran.countP (fun x => x.Enqueues key) = 0) := by
  have missing : ∀ {db db' : Database}, ((db.task key).isSome → (db'.task key).isSome) →
      db'.task key = none → db.task key = none := by
    intro db db' himp hnone
    by_contra hsome
    have := himp (Option.isSome_iff_ne_none.mpr hsome)
    rw [hnone] at this
    cases this
  induction h with
  | start hnone => exact ⟨Nat.zero_le _, fun _ => rfl⟩
  | @own k p p' hp ho ih =>
    cases Play.acts_of_act ho with
    | @runs sh inv ran n hr hn =>
      have hkept : (sh.db.task key).isSome →
          ((n.run inv.checkpoint.values inv.resumes sh.db).1.task key).isSome := Node.run_keeps
      rw [List.countP_cons]
      by_cases he : NodeRun.Enqueues
          ⟨n, sh.db, (n.run inv.checkpoint.values inv.resumes sh.db).1⟩ key
      · rw [if_pos (decide_eq_true he), ih.2 he.1]
        exact ⟨le_rfl, fun hnone => absurd hnone (Option.isSome_iff_ne_none.mp he.2)⟩
      · rw [if_neg (by simpa using he)]
        exact ⟨ih.1, fun hnone => ih.2 (missing hkept hnone)⟩
    | puts hr hnext => exact ih
    | suspends hr => exact ih
    | returns hr hn => exact ih
    | delivers hcp henv => exact ih
  | others hp ho ih => exact ⟨ih.1, fun hnone => ih.2 (missing (hkeeps _ _ ho) hnone)⟩

/-- A play takes at most 107 actions of the thread and goes on until the thread has ended, and then
what is documented has been computed; where nobody deletes the ticket's tasks, no key is enqueued
twice. -/
theorem documented_outcome {others : Shared → Shared → Prop} {k : ℕ} (ha : Aside ticket.id others)
    (h : Plays others σ ticket k p) : k ≤ 107 ∧
      (p.Ended ticket.id ∨ (p.act σ ticket.id).isSome) ∧
      (p.Ended ticket.id → Documented σ ticket p) ∧
      ((∀ sh sh' (key : IdempotencyKey), others sh sh' → key.ticket = ticket.id →
          (sh.db.task key).isSome → (sh'.db.task key).isSome) →
        ∀ key, p.ran.countP (fun x => x.Enqueues key) ≤ 1) := by
  obtain ⟨left, hle, hsound⟩ := h.sound ha
  refine ⟨by omega, hsound.goes_on, hsound.documented, fun hkeeps key => ?_⟩
  by_cases hkey : key.ticket = ticket.id
  · exact (h.once fun sh sh' ho => hkeeps sh sh' key ho hkey).1
  · refine (List.countP_eq_zero.mpr fun x hx => ?_).le.trans (Nat.zero_le 1)
    simp only [decide_eq_true_eq]
    intro he
    rcases (hsound.sanctioned x hx).keys key he with hmem | ⟨ty, rfl, -⟩
    · rw [Script.keys] at hmem
      split at hmem <;> simp only [List.mem_cons, List.not_mem_nil, or_false] at hmem
      · rcases hmem with rfl | rfl | rfl <;> exact hkey rfl
      · rcases hmem with rfl | rfl <;> exact hkey rfl
    · exact hkey rfl

/-- The thread acts `n` times and nobody else does. -/
def Play.run (σ : Script) (t : TicketId) : ℕ → Play → Option Play
  | 0, p => some p
  | n + 1, p => (p.act σ t).bind (Play.run σ t n)

theorem Plays.run {others : Shared → Shared → Prop} (m : ℕ) {k : ℕ} {p p' : Play}
    (h : Plays others σ ticket k p) (hrun : p.run σ ticket.id m = some p') :
    Plays others σ ticket (k + m) p' := by
  induction m generalizing k p with
  | zero =>
    cases hrun
    exact h
  | succ m ih =>
    obtain ⟨mid, hact, hrest⟩ := Option.bind_eq_some_iff.mp hrun
    have hmid := ih (.own h hact) hrest
    rwa [Nat.add_right_comm] at hmid

/-- The classification comes after a timeout, and the refund is refused. -/
def Script.refused : Script where
  classify := ⟨true, .ok Schedule.classification⟩
  draft := ⟨false, .ok Schedule.refundDraft⟩
  approval := some ⟨false, "approver", none⟩
  finalized := id
  echoes := fun _ => ⟨rfl, rfl⟩

/-- The refused play ends after 32 actions, rejected. -/
theorem documented_outcome_refused : ∃ p, p.Ended 7 ∧ Documented Script.refused Schedule.ticket p ∧
    Script.refused.status = .rejected := by
  have hrun : ((Play.start Schedule.ticket .empty).run Script.refused 7 32).map (fun p => decide (p.running = none) &&
      (p.shared.checkpoints.get 7).any fun cp => cp.next = none) = some true := by decide +kernel
  obtain ⟨p, hp, hend⟩ := Option.map_eq_some_iff.mp hrun
  obtain ⟨hnone, hany⟩ := Bool.and_eq_true_iff.mp hend
  obtain ⟨cp, hcp, hn⟩ := (Option.any_eq_true ..).mp hany
  have hplays : Plays (fun sh sh' => sh' = sh) Script.refused Schedule.ticket (0 + 32) p :=
    (Plays.start fun _ _ => rfl).run 32 hp
  have haside : Aside Schedule.ticket.id fun sh sh' : Shared => sh' = sh :=
    ⟨fun _ _ h => by rw [h], fun _ _ _ h _ hsome => by rwa [h] at hsome⟩
  have hended : p.Ended 7 := ⟨of_decide_eq_true hnone, cp, hcp, of_decide_eq_true hn⟩
  exact ⟨p, hended, (documented_outcome haside hplays).2.2.1 hended, by decide +kernel⟩

end TicketFlow
