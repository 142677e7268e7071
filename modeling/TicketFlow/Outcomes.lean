import TicketFlow.Awaited
import TicketFlow.Ownership

/-! # Outcomes

What the node that ran last has computed, and what a terminal result says: its status is the one the
`execute` node asked for. Where a run has one owner at a time and no thread is deleted, nobody
overtaken saves, so a thread has one state at `execute` and ends with the status of that state. -/

namespace TicketFlow
open Table Interleaving
set_option autoImplicit false

/-- The status `execute` asks the finalize task for. -/
def TicketStatus.closing : TicketStatus → TicketStatus
  | .rejected => .rejected
  | .escalated => .escalated
  | _ => .resolved

/-- The outcome of the last node is what the node computes. -/
def Invocation.Computed (inv : Invocation) : Prop := ∀ r, inv.result = some r →
  ∃ n db, inv.checkpoint.next = some n ∧ (n.run inv.checkpoint.values inv.resumes db).2 = r

/-- The terminal result a runner brings has the status some `execute` of its ticket asked for. -/
def OutcomeKnows (log : List Event) (p : Proc) : Prop := ∀ run v result,
  p.resumes = some (run, v) → v.payload = .result (.terminal result) →
    ∃ s resumes, .ran run.ticketId .execute s resumes ∈ log ∧ result.status = s.status.closing

variable {sh sh' : Shared} {w : World} {i : WorkerId} {p p' : Proc} {a : Action} {t : TicketId}
  {db : Database} {s s' : TicketState} {resumes : List Resume} {result : TicketResult}
  {env : Envelope} {v : ResumeValue}

theorem terminalOutcome_status (st : TicketStatus) (text : String) :
    (Graph.terminalOutcome st text).1 = st.closing := by
  cases st <;> rfl

/-! ## What the last two nodes compute -/

theorem awaitApproval_update {d : ApprovalDecision}
    (h : Graph.awaitApproval s [.decision d] = .update s') :
    s'.decision = some d ∧ s'.status = if d.approved then s.status else .rejected := by
  unfold Graph.awaitApproval at h
  split at h
  · simp only [Graph.approvalUpdate] at h
    split at h
    · rename_i happ
      cases h
      exact ⟨rfl, (if_pos happ).symm⟩
    · rename_i happ
      cases h
      exact ⟨rfl, (if_neg happ).symm⟩
  · cases h

/-- `execute` takes over the status of the result it is resumed with. -/
theorem execute_update (h : (Graph.execute s resumes db).2 = .update s') :
    ∃ result rest, resumes = .result (.terminal result) :: rest ∧ s'.status = result.status ∧
      s'.decision = s.decision := by
  unfold Graph.execute at h
  split at h
  · split at h
    · cases h
    · rename_i value rest
      simp only [Graph.executeUpdate] at h
      split at h
      · cases h
      · rename_i result hval
        unfold Graph.validateTicketResult at hval
        split at hval
        · cases hval
          split at h
          · cases h
          · cases h
            exact ⟨_, rest, rfl, rfl, rfl⟩
        · cases hval
  · cases h

/-! ## The outcome of the last node -/

theorem Invocation.Computed.acts (h : ∀ inv, p.invocation = some inv → inv.Computed)
    (he : Effect sh i p a sh' p') {inv : Invocation} (hinv : p'.invocation = some inv) :
    inv.Computed := by
  have unrun : inv.result = none → inv.Computed := by
    intro hnone r hr
    rw [hnone] at hr
    cases hr
  cases he.driveChange hinv with
  | still hold => exact h inv hold
  | @ran dr inv₀ n db result hp hr hn hrun hinv₀ hsh =>
    subst hinv₀
    rintro _ ⟨⟩
    exact ⟨n, sh.db, hn, congrArg Prod.snd hrun⟩
  | put hget hr hnil => exact unrun hr
  | read hp' hsh hget hr ho => exact unrun hr

theorem World.Reachable.computed (hw : World.Reachable w) {inv : Invocation}
    (hinv : (w.procs i).invocation = some inv) : inv.Computed := by
  refine (World.ReachableWhen.invariant (I := fun _ => True)
    (J := fun _ _ p => ∀ inv, p.invocation = some inv → inv.Computed) trivial
    (fun _ _ h => nomatch h) ?_ hw).2 i inv hinv
  intro w i a sh' p' _ _ _ hJ he
  exact ⟨trivial, fun inv hinv => Invocation.Computed.acts (hJ i) he hinv, fun j _ => hJ j⟩

/-! ## What a terminal result says -/

/-- A terminal result that is looked up answers a payload which `execute` has built. -/
theorem expected_of_ready {run : WorkflowRun} (hw : World.Reachable w) (hfor : env.For run.ticketId)
    (hv : Runner.resumeForRun env run.wakeupAt w.shared.db = some v)
    (hpay : v.payload = .result (.terminal result)) :
    ∃ s resumes, .ran run.ticketId .execute s resumes ∈ w.shared.log ∧
      result.status = s.status.closing := by
  cases Runner.resumeForRun_found hv with
  | decision happ hsig => cases hpay
  | timeout hsome hnone => cases hpay
  | @task key x hkey htask hdecision htimeout =>
    obtain ⟨r, hr, hk, ⟨-, hx⟩ | ⟨-, x, hx, hres⟩⟩ := taskResumeValue_eq_some htask
    · rw [hx] at hpay
      cases hpay
    · rw [hres] at hpay
      cases hpay
      have hstored := hw.stored r hr _ hx
      have hsaved := hw.ledgers.1.stored _ _ hstored
      obtain ⟨expected, hexp, hresult⟩ := (hw.ledgers.1.saved _ _ hsaved).expected
      have hsome : r.payload.result.isSome := by rw [hexp]; rfl
      obtain ⟨s, resumes, draft, c, hran, -, -, hpayload, -⟩ := hw.payloads.rows r hr hsome
      have hrow := hw.tasks.1.typed r hr
      have hticket : s.ticket.id = run.ticketId := by
        have hforRow := hrow.payload
        rw [hpayload] at hforRow
        rw [← hfor.ticket hkey, ← hk, ← hrow.workflow]
        revert hforRow
        cases r.taskType <;> intro hforRow
        · exact hforRow.elim
        · exact hforRow.elim
        · exact hforRow.1
      refine ⟨s, resumes, hticket ▸ hran, ?_⟩
      rw [hpayload] at hexp
      cases hexp
      rw [hresult]
      exact terminalOutcome_status ..

theorem OutcomeKnows.mono {log log' : List Event} (h : OutcomeKnows log p) (hl : log <:+ log') :
    OutcomeKnows log' p := by
  intro run v result hr hpay
  obtain ⟨s, resumes, hran, hst⟩ := h run v result hr hpay
  exact ⟨s, resumes, hl.subset hran, hst⟩

theorem World.Reachable.outcomes (hw : World.Reachable w) (j : WorkerId) :
    OutcomeKnows w.shared.log (w.procs j) := by
  refine (World.ReachableWhen.invariant (I := fun _ => True)
    (J := fun sh _ p => OutcomeKnows sh.log p) trivial (fun _ _ _ _ h => nomatch h) ?_ hw).2 j
  intro w i a sh' p' hr _ _ hJ he
  have hw : World.Reachable w := hr.reachable
  refine ⟨trivial, fun run v result hres hpay => ?_, fun j _ => (hJ j).mono he.log_suffix⟩
  rcases he.resumes hres with hold | ⟨env, hp, rfl, hready⟩
  · exact (hJ i).mono he.log_suffix run v result hold hpay
  · have hfor := hw.threads.2 i
    rw [hp] at hfor
    exact expected_of_ready hw hfor hready hpay

/-! ## A runner inside `ainvoke` -/

/-- What a runner inside `ainvoke` can do. -/
inductive InvokingStep (sh : Shared) (run : WorkflowRun) (v : ResumeValue) (inv : Invocation)
    (a : Action) (sh' : Shared) (p' : Proc) : Prop
  | waits : sh'.checkpoints = sh.checkpoints → p' = .runner (.invoking run v inv) →
      InvokingStep sh run v inv a sh' p'
  | stops : (a = .crash ∨ ∃ error, inv.result = some (.raise error)) → sh' = sh → p' = .idle →
      InvokingStep sh run v inv a sh' p'
  | ran {r} : sh'.checkpoints = sh.checkpoints →
      p' = .runner (.invoking run v { inv with result := some r }) →
      InvokingStep sh run v inv a sh' p'
  | put {values next} : inv.result = some (.update values) →
      next = inv.checkpoint.next.bind (fun n => n.after values) →
      sh'.checkpoints.get inv.checkpoint.threadId =
        some (sh.checkpoints.fresh inv.checkpoint.threadId values next) →
      p' = .runner (.invoking run v
        ⟨sh.checkpoints.fresh inv.checkpoint.threadId values next, none, none⟩) →
      InvokingStep sh run v inv a sh' p'
  | suspended {envelope} : inv.result = some (.interrupt envelope) →
      sh'.checkpoints = sh.checkpoints.putWrites inv.checkpoint inv.resumes envelope →
      p' = .runner (.saving run v ⟨inv.checkpoint.values, some envelope⟩) →
      InvokingStep sh run v inv a sh' p'
  | ended : inv.checkpoint.next = none → sh' = sh →
      p' = .runner (.saving run v ⟨inv.checkpoint.values, none⟩) →
      InvokingStep sh run v inv a sh' p'

theorem Effect.invokingStep {run : WorkflowRun} {inv : Invocation} (he : Effect sh i p a sh' p')
    (hp : p = .runner (.invoking run v inv)) : InvokingStep sh run v inv a sh' p' := by
  cases he with
  | tick elapsed => exact .waits rfl hp
  | @ran dr inv₀ n db result hr hn hrun =>
    cases dr <;> cases hp
    exact .ran rfl rfl
  | @put dr inv₀ values next hr hn =>
    cases dr <;> cases hp
    exact .put hr hn Checkpoints.get_put_self rfl
  | @suspended dr inv₀ env hr =>
    cases dr <;> cases hp
    exact .suspended hr rfl rfl
  | quiet hl =>
    cases hl with
    | crash => exact .stops (.inl rfl) rfl rfl
    | @ended dr inv₀ hr hn =>
      cases dr <;> cases hp
      exact .ended hn rfl rfl
    | @raised dr inv₀ error hr =>
      cases dr <;> cases hp
      exact .stops (.inr ⟨error, hr⟩) rfl rfl
    | raises hact hperm => cases hp
    | _ => cases hp
  | _ => cases hp

/-! ## One owner, and no sweep -/

/-- Only the owner of a thread has an invocation of it, so none saves over a newer checkpoint. -/
theorem Ownership.savesLatest (h : Ownership w) (hS : SeedsOwned w)
    (hP : (w.procs i).ThreadSound w.shared.checkpoints) : SavesLatest w i := by
  intro inv hinv _
  have hinv := Option.mem_def.mp hinv
  unfold Proc.invocation at hinv
  split at hinv
  · rename_i inv' hp
    cases hinv
    rw [((hS.knows i).owned inv hp).1]
    rfl
  · rename_i run resume inv' hp
    cases hinv
    obtain ⟨cp, hcp, -⟩ := (hS.knows i).inspected run (by rw [hp]; rfl)
    have hsame := (h.knows i).invoking run resume inv hp cp hcp
    rw [hp] at hP
    rw [hP.1, hcp, hsame]
    rfl
  · cases hinv

theorem World.ReachableWhen.sheltered {ok : World → WorkerId → Action → Prop}
    (hok : ∀ w i a, ok w i a → Unswept w i a ∧ Owned w i a) (hw : World.ReachableWhen ok w) :
    World.ReachableWhen (fun w i a => Retained w i a ∧ SavesLatest w i) w := by
  refine hw.strengthen fun w i a hr ha => ?_
  have hO : Ownership w := World.ReachableWhen.ownership (fun w i a h => (hok w i a h).2) hr
  have hS : SeedsOwned w := World.ReachableWhen.seeds (fun w i a h => (hok w i a h).1) hr
  have hlatest := hO.savesLatest hS ((World.Reachable.threads hr.reachable).2 i)
  refine ⟨?_, hlatest⟩
  cases a with
  | advance =>
    refine ⟨hlatest, fun maxAge hage => ?_⟩
    have hno := World.ReachableWhen.not_sweeping (fun w i a h => (hok w i a h).1) hr i
    unfold Proc.pruneAge at hage
    split at hage
    · rename_i hp
      rw [hp] at hno
      exact absurd trivial hno
    · cases hage
  | runRetention maxAge => exact (hok w i _ ha).1.elim
  | _ => exact trivial

end TicketFlow
