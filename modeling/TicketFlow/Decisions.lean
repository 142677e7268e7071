import TicketFlow.OneApproval
import TicketFlow.Outcomes
import TicketFlow.Timers

/-! # An accepted decision

An approval is accepted by the status of the row, which only `save_run` writes, at the end of a step;
the timeout is chosen at its beginning. Where the first decision is accepted while the thread shows
its approval and no runner has chosen a value for it, the decision is what the graph receives: it is
pending, then some runner delivers it, then it is in the state and its signal is consumed. -/

namespace TicketFlow
open Table Interleaving
set_option autoImplicit false

/-- The status `await_approval` leaves for the decision. -/
def ApprovalDecision.status (d : ApprovalDecision) : TicketStatus :=
  if d.approved then .awaitingApproval else .rejected

/-- The status the ticket is to end with. -/
def ApprovalDecision.outcome (d : ApprovalDecision) : TicketStatus :=
  if d.approved then .resolved else .rejected

/-- The signal a runner has brought to the graph and has not consumed yet. -/
def Proc.delivers : Proc → Option ℕ
  | .runner (.invoking _ v inv) =>
    if inv.checkpoint.next = some .awaitApproval then none else v.consumedSignalId
  | .runner (.saving _ v _) => v.consumedSignalId
  | _ => none

/-- The decision was accepted, and none was accepted before it. -/
structure FirstAccepted (log : List Event) (t : TicketId) (id : ℕ) (d : ApprovalDecision) : Prop where
  accepted : .accepted t id d ∈ log
  first : (acceptances t log).getLast? = some id

/-- The thread shows its approval, and no runner has chosen a value to resume it with. -/
def Undecided (w : World) (t : TicketId) : Prop :=
  (∃ cp u reply, w.shared.checkpoints.get t = some cp ∧
    cp.interrupt = some (.approvalRequired t u reply)) ∧
  ∀ j run v, (w.procs j).resumes = some (run, v) → run.ticketId ≠ t

/-- No sweep starts, a run has one holder, the first decision for a ticket comes while the ticket is
undecided, and no runner crashes that has delivered a decision and not consumed its signal. -/
def Heeded (w : World) (i : WorkerId) (a : Action) : Prop := Unswept w i a ∧ Owned w i a ∧
  match a with
  | .submitApproval t _ => acceptances t w.shared.log = [] →
    (∃ r ∈ w.shared.db.workflowRun, Db.Waiting t .awaitingApproval r) → Undecided w t
  | .crash => (w.procs i).delivers = none
  | _ => True

/-- Whatever the process brings to the approval is the decision. -/
structure Brings (p : Proc) (t : TicketId) (id : ℕ) (d : ApprovalDecision) : Prop where
  value : ∀ run v, p.resumes = some (run, v) → run.ticketId = t → v = ⟨.decision d, some id⟩
  offers : ∀ run v inv, p = .runner (.invoking run v inv) → run.ticketId = t →
    inv.offered = some (.decision d)
  unsaved : ∀ run v out, p = .runner (.saving run v out) → run.ticketId ≠ t

/-- The process has delivered the decision and is on its way to the save that consumes its signal. -/
def Delivering (p : Proc) (t : TicketId) (id : ℕ) : Prop :=
  ∃ run v, run.ticketId = t ∧ v.consumedSignalId = some id ∧
    ((∃ inv, p = .runner (.invoking run v inv) ∧ inv.offered = none) ∨
      ∃ out, p = .runner (.saving run v out))

/-- The signal is the only one accepted for the ticket, and no step has consumed it. -/
structure Unheard (log : List Event) (t : TicketId) (id : ℕ) : Prop where
  only : acceptances t log = [id]
  unsaved : ∀ status, .saved t status (some id) ∉ log

/-- How far the first decision has come. -/
inductive Stage (w : World) (t : TicketId) (id : ℕ) (d : ApprovalDecision) : Prop
  | pending {cp u reply} : w.shared.checkpoints.get t = some cp →
      cp.interrupt = some (.approvalRequired t u reply) → Unheard w.shared.log t id →
      (∀ j, Brings (w.procs j) t id d) → Stage w t id d
  | delivering {cp j} : w.shared.checkpoints.get t = some cp → cp.next = some .execute →
      cp.values.decision = some d → cp.values.status = d.status → Unheard w.shared.log t id →
      Delivering (w.procs j) t id → Stage w t id d
  | decided {cp} : w.shared.checkpoints.get t = some cp → cp.values.decision = some d →
      (cp.next = some .execute ∧ cp.values.status = d.status ∨
        cp.next = none ∧ cp.values.status = d.outcome) →
      .saved t d.status (some id) ∈ w.shared.log → Stage w t id d

/-- A terminal status of the row, or of a run at work, is the outcome of the decision. -/
structure Projects (w : World) (t : TicketId) (d : ApprovalDecision) : Prop where
  row : (w.shared.db.run t).isSome
  rows : ∀ r, w.shared.db.run t = some r → r.status.terminal = true → r.status = d.outcome
  held : ∀ j run, (w.procs j).holds = some run → run.ticketId = t → run.status.terminal = true →
    run.status = d.outcome

variable {sh sh' : Shared} {w : World} {i j : WorkerId} {p p' : Proc} {a : Action} {t : TicketId}
  {id : ℕ} {d : ApprovalDecision} {cp cp' : Checkpoint} {run : WorkflowRun} {v : ResumeValue}
  {inv : Invocation} {u : Time} {reply : DraftReply}

theorem ApprovalDecision.closing_status (d : ApprovalDecision) : d.status.closing = d.outcome := by
  unfold ApprovalDecision.status ApprovalDecision.outcome
  cases d.approved <;> rfl

theorem ApprovalDecision.terminal_status (h : d.status.terminal = true) : d.status = d.outcome := by
  unfold ApprovalDecision.status ApprovalDecision.outcome at *
  revert h
  cases d.approved
  · exact fun _ => rfl
  · exact fun h => nomatch h

/-! ## Acceptances and consumptions -/

/-- An acceptance on record is an old one, or has just been submitted. -/
theorem Effect.accepts (he : Effect sh i p a sh' p') (hm : .accepted t id d ∈ sh'.log) :
    .accepted t id d ∈ sh.log ∨ p = .idle ∧ a = .submitApproval t d ∧
      id = sh.db.pendingSignalSeq ∧
      (∃ r ∈ sh.db.workflowRun, Db.Waiting t .awaitingApproval r) ∧
      sh'.log = .accepted t id d :: sh.log := by
  cases he.signalChange with
  | same hsig hseq hnew => exact .inl ((hnew _ hm).resolve_right fun hf => nomatch hf)
  | accepted hp ha hr hwait hno hsig hseq hlog =>
    rw [hlog] at hm
    rcases List.mem_cons.mp hm with heq | hold
    · cases heq
      exact .inr ⟨hp, ha, rfl, ⟨_, hr, hwait⟩, hlog⟩
    · exact .inl hold
  | consumed hp ha hp' hid hsig hseq hlog =>
    rw [hlog] at hm
    exact .inl ((List.mem_cons.mp hm).resolve_left fun heq => nomatch heq)
  | pruned hp ha hdb hlog => exact .inl (hlog ▸ hm)

/-- A consumption on record is an old one, or a `save_run` has just committed it. -/
theorem Effect.consumes {status : TicketStatus} (he : Effect sh i p a sh' p')
    (hm : .saved t status (some id) ∈ sh'.log) : .saved t status (some id) ∈ sh.log ∨
      ∃ run v out, p = .runner (.saving run v out) ∧ run.ticketId = t ∧
        v.consumedSignalId = some id := by
  cases he.signalChange with
  | same hsig hseq hnew => exact .inl ((hnew _ hm).resolve_right fun hf => nomatch hf)
  | accepted hp ha hr hwait hno hsig hseq hlog =>
    rw [hlog] at hm
    exact .inl ((List.mem_cons.mp hm).resolve_left fun heq => nomatch heq)
  | consumed hp ha hp' hid hsig hseq hlog =>
    rw [hlog] at hm
    rcases List.mem_cons.mp hm with heq | hold
    · cases heq
      exact .inr ⟨_, _, _, hp, rfl, hid⟩
    · exact .inl hold
  | pruned hp ha hdb hlog => exact .inl (hlog ▸ hm)

theorem Unheard.unconsumed (h : Unheard sh.log t id) (hI : SignalsSound sh) :
    ∃ s ∈ sh.db.pendingSignal, Db.Unconsumed t .approvalDecision s := by
  refine (unconsumed_iff hI).mpr ⟨id, ?_, fun hm => ?_⟩
  · rw [h.only]
    exact List.mem_singleton.mpr rfl
  · obtain ⟨status, hs⟩ := mem_consumptions.mp hm
    exact h.unsaved status hs

theorem Unheard.effect (h : Unheard sh.log t id) (hI : SignalsSound sh)
    (he : Effect sh i p a sh' p')
    (hp : ∀ run v out, p = .runner (.saving run v out) → run.ticketId = t →
      v.consumedSignalId ≠ some id) : Unheard sh'.log t id := by
  refine ⟨?_, fun status hm => ?_⟩
  · rcases he.acceptances t with heq | ⟨d', -, -, -, hno⟩
    · exact heq.trans h.only
    · obtain ⟨s, hs, hu⟩ := h.unconsumed hI
      exact absurd hu (hno s hs)
  · rcases he.consumes hm with hold | ⟨run, v, out, hsv, ht, hid⟩
    · exact h.unsaved status hold
    · exact hp run v out hsv ht hid

/-- A decision that is pending is what the lookup finds, whatever the timer says. -/
theorem Unheard.found (h : Unheard sh.log t id) (hI : SignalsSound sh)
    (hacc : .accepted t id d ∈ sh.log) (wakeupAt : Option Time) :
    Runner.resumeForRun (.approvalRequired t u reply) wakeupAt sh.db =
      some ⟨.decision d, some id⟩ := by
  obtain ⟨s, hs, hu⟩ := h.unconsumed hI
  cases hf : firstBy PendingSignal.createdAt (Db.Unconsumed t .approvalDecision)
      sh.db.pendingSignal with
  | none => exact absurd hu (firstBy_eq_none.mp hf s hs)
  | some sig =>
    obtain ⟨hm, hwf, -, -⟩ := firstBy_mem hf
    have hrow := hI.row sig hm
    rw [hwf] at hrow
    have hid : sig.id ∈ acceptances t sh.log := mem_acceptances.mpr ⟨_, hrow⟩
    rw [h.only, List.mem_singleton] at hid
    rw [hid] at hrow
    obtain ⟨-, hpay⟩ := hI.unique t t id _ _ hrow hacc
    rw [Runner.resumeForRun, Runner.resumeValue, Runner.approvalResumeValue, hf, Option.map_some,
      hid, hpay]

/-! ## The thread at its approval -/

theorem Checkpoint.Sound.approval (h : cp.Sound)
    (henv : cp.interrupt = some (.approvalRequired t u reply)) :
    cp.next = some .awaitApproval ∧ cp.resumes = [] ∧ cp.values.status = .awaitingApproval := by
  obtain ⟨n, hn, hsus⟩ := h.parked _ henv
  have hstate := h.state
  generalize cp.resumes = resumes at *
  cases hsus with
  | approval hw hd =>
    rw [hn] at hstate
    exact ⟨hn, rfl, hstate.1⟩

/-- A thread that is past its first interrupt is moved by the runner that invokes it. -/
theorem SeedsOwned.unmoved (h : SeedsOwned w) (hs : ¬ (w.procs i).Sweeping)
    (hP : (w.procs i).ThreadSound w.shared.checkpoints)
    (he : Effect w.shared i (w.procs i) a sh' p') (hcp : w.shared.checkpoints.get t = some cp)
    (hpast : ¬ cp.Unparked)
    (hno : ∀ run v inv, w.procs i = .runner (.invoking run v inv) → run.ticketId ≠ t) :
    sh'.checkpoints.get t = some cp := by
  rcases h.thread hs hP he t with heq | ⟨hnone, -⟩ | ⟨inv, cp', hinv, ht, -⟩
  · exact heq.trans hcp
  · rw [hcp] at hnone
    cases hnone
  · exfalso
    unfold Proc.invocation at hinv
    split at hinv
    · rename_i inv' hp
      cases hinv
      obtain ⟨hget, hun⟩ := (h.knows i).owned inv hp
      rw [ht, hcp] at hget
      cases hget
      exact hpast hun
    · rename_i run v inv' hp
      cases hinv
      rw [hp] at hP
      exact hno run v inv hp (hP.1.symm.trans ht)
    · cases hinv

/-- A runner comes to `ainvoke` with the value it has chosen, and to its save from `ainvoke`. -/
theorem Effect.startsInvoking (he : Effect sh i p a sh' p')
    (hp' : p' = .runner (.invoking run v inv)) :
    (∃ inv₀, p = .runner (.invoking run v inv₀)) ∨
      p = .runner (.resuming run v) ∧ inv.offered = some v.payload := by
  cases he with
  | tick elapsed => exact .inl ⟨inv, hp'⟩
  | @ran dr inv₀ n db result hr hn hrun =>
    cases dr <;> cases hp'
    exact .inl ⟨inv₀, rfl⟩
  | @put dr inv₀ values next hr hn =>
    cases dr <;> cases hp'
    exact .inl ⟨inv₀, rfl⟩
  | @suspended dr inv₀ env hr => cases dr <;> cases hp'
  | failed hm hs hf => split at hp' <;> cases hp'
  | quiet hl =>
    cases hl with
    | @ended dr inv₀ hr hn => cases dr <;> cases hp'
    | resumed hcp =>
      cases hp'
      exact .inr ⟨rfl, rfl⟩
    | _ => cases hp'
  | _ => cases hp'

theorem Effect.startsSaving {out : Output} (he : Effect sh i p a sh' p')
    (hp' : p' = .runner (.saving run v out)) :
    p = .runner (.saving run v out) ∨ ∃ inv, p = .runner (.invoking run v inv) := by
  cases he with
  | tick elapsed => exact .inl hp'
  | @ran dr inv₀ n db result hr hn hrun => cases dr <;> cases hp'
  | @put dr inv₀ values next hr hn => cases dr <;> cases hp'
  | @suspended dr inv₀ env hr =>
    cases dr <;> cases hp'
    exact .inr ⟨inv₀, rfl⟩
  | failed hm hs hf => split at hp' <;> cases hp'
  | quiet hl =>
    cases hl with
    | @ended dr inv₀ hr hn =>
      cases dr <;> cases hp'
      exact .inr ⟨inv₀, rfl⟩
    | _ => cases hp'
  | _ => cases hp'

/-! ## Pending -/

theorem Brings.of_resumes (h : ∀ run v, p.resumes = some (run, v) → run.ticketId ≠ t) :
    Brings p t id d :=
  ⟨fun run v hr ht => absurd ht (h run v hr), fun run v _ hp ht => absurd ht (h run v (hp ▸ rfl)),
    fun run v _ hp => h run v (hp ▸ rfl)⟩

theorem Brings.of_invoking (hv : run.ticketId = t → v = ⟨.decision d, some id⟩)
    (ho : inv.offered = some (.decision d)) :
    Brings (.runner (.invoking run v inv)) t id d := by
  refine ⟨fun run' v' hr ht => ?_, fun run' v' inv' hp ht => ?_, fun _ _ _ hp => nomatch hp⟩
  · cases hr
    exact hv ht
  · cases hp
    exact ho

/-- A runner that does not invoke the thread chooses the decision, or nothing for the ticket. -/
theorem Brings.acts (h : Brings p t id d) (hO : OwnerKnows sh p) (he : Effect sh i p a sh' p')
    (hcp : sh.checkpoints.get t = some cp) (henv : cp.interrupt = some (.approvalRequired t u reply))
    (hfound : ∀ wakeupAt, Runner.resumeForRun (.approvalRequired t u reply) wakeupAt sh.db =
      some ⟨.decision d, some id⟩)
    (hno : ∀ run v inv, p = .runner (.invoking run v inv) → run.ticketId ≠ t) :
    Brings p' t id d := by
  refine ⟨fun run v hr ht => ?_, fun run v inv hp' ht => ?_, fun run v out hp' ht => ?_⟩
  · rcases he.resumes hr with hold | ⟨env, hp, -, hready⟩
    · exact h.value run v hold ht
    · have hsame := hO.inspected run env hp cp (ht ▸ hcp)
      cases henv.symm.trans hsame
      exact Option.some.inj (hready.symm.trans (hfound _))
  · rcases he.startsInvoking hp' with ⟨inv₀, hp⟩ | ⟨hp, ho⟩
    · exact absurd ht (hno run v inv₀ hp)
    · rw [ho, h.value run v (hp ▸ rfl) ht]
  · rcases he.startsSaving hp' with hp | ⟨inv, hp⟩
    · exact h.unsaved run v out hp ht
    · exact hno run v inv hp ht

theorem brings_update (h : ∀ j, Brings (w.procs j) t id d) (hi : Brings p' t id d) (j : WorkerId) :
    Brings (Function.update w.procs i p' j) t id d := by
  by_cases hj : j = i
  · rw [hj, Function.update_self]
    exact hi
  · rw [Function.update_of_ne hj]
    exact h j

/-! ## One action -/

section OneAction
variable (hw : World.Reachable w) (hO : Ownership w) (hS : SeedsOwned w)
  (hs : ¬ (w.procs i).Sweeping) (he : Effect w.shared i (w.procs i) a sh' p')
include hw hO hS hs he

theorem pending_effect (hacc : .accepted t id d ∈ w.shared.log)
    (hcp : w.shared.checkpoints.get t = some cp)
    (henv : cp.interrupt = some (.approvalRequired t u reply)) (hun : Unheard w.shared.log t id)
    (hb : ∀ j, Brings (w.procs j) t id d) : Stage ⟨sh', Function.update w.procs i p'⟩ t id d := by
  have hsound := (hw.threads.1 t cp hcp).1
  obtain ⟨hnext, hres, hst⟩ := hsound.approval henv
  have hun' : Unheard sh'.log t id := hun.effect hw.signals.1 he fun run v out hp ht =>
    absurd ht ((hb i).unsaved run v out hp)
  by_cases hinv : ∃ run v inv, w.procs i = .runner (.invoking run v inv) ∧ run.ticketId = t
  · obtain ⟨run, v, inv, hp, ht⟩ := hinv
    have hlatest : cp = inv.checkpoint := (hO.knows i).invoking run v inv hp cp (ht ▸ hcp)
    have hthread : inv.checkpoint.threadId = t := hlatest ▸ Checkpoints.threadId_of_get hcp
    have hoffer := (hb i).offers run v inv hp ht
    have hv : v = ⟨.decision d, some id⟩ := (hb i).value run v (hp ▸ rfl) ht
    have hresumes : inv.resumes = [.decision d] := by
      rw [Invocation.resumes, ← hlatest, hres, hoffer]
      rfl
    have hinvo : (w.procs i).invocation = some inv := by rw [hp]; rfl
    have computed : ∀ {r}, inv.result = some r →
        Graph.awaitApproval cp.values [.decision d] = r := by
      intro r hr
      obtain ⟨n, db, hn, hrun⟩ := hw.computed hinvo r hr
      rw [← hlatest, hnext] at hn
      cases hn
      rw [hresumes, ← hlatest] at hrun
      exact hrun
    cases he.invokingStep hp with
    | waits hsame hp' =>
      refine .pending (hsame ▸ hcp) henv hun' (brings_update hb ?_)
      rw [hp']
      exact .of_invoking (fun _ => hv) hoffer
    | stops hwhy hsame hp' =>
      refine .pending (hsame ▸ hcp) henv hun' (brings_update hb ?_)
      rw [hp']
      exact .of_resumes fun _ _ h => by cases h
    | ran hsame hp' =>
      refine .pending (hsame ▸ hcp) henv hun' (brings_update hb ?_)
      rw [hp']
      exact .of_invoking (fun _ => hv) hoffer
    | @put values next hr hn hget hp' =>
      -- the approval has received the decision
      obtain ⟨hdecision, hstatus⟩ := awaitApproval_update (computed hr)
      rw [hthread] at hget
      rw [← hlatest, hnext] at hn
      have hi := (Function.update_self i p' w.procs).trans hp'
      refine .delivering (j := i) hget hn hdecision ?_ hun' ⟨run, v, ht, by rw [hv], .inl ⟨_, hi, rfl⟩⟩
      exact hstatus.trans (by rw [hst]; rfl)
    | suspended hr hsame hp' =>
      have hout := computed hr
      unfold Graph.awaitApproval at hout
      split at hout
      · simp only [Graph.approvalUpdate] at hout
        split at hout <;> cases hout
      · cases hout
    | ended hn hsame hp' =>
      rw [← hlatest, hnext] at hn
      cases hn
  · have hno : ∀ run v inv, w.procs i = .runner (.invoking run v inv) → run.ticketId ≠ t :=
      fun run v inv hp ht => hinv ⟨run, v, inv, hp, ht⟩
    have hpast : ¬ cp.Unparked := fun h => by
      rw [h.2] at henv
      cases henv
    have hget := hS.unmoved hs (hw.threads.2 i) he hcp hpast hno
    refine .pending hget henv hun' (brings_update hb ?_)
    exact (hb i).acts (hO.knows i) he hcp henv (fun _ => hun.found hw.signals.1 hacc _) hno

/-- The runner that has delivered the decision comes to its save. -/
theorem delivering_effect (hok : a = .crash → (w.procs i).delivers = none)
    (hcp : w.shared.checkpoints.get t = some cp) (hnext : cp.next = some .execute)
    (hdec : cp.values.decision = some d) (hst : cp.values.status = d.status)
    (hun : Unheard w.shared.log t id) (hdel : Delivering (w.procs j) t id) :
    Stage ⟨sh', Function.update w.procs i p'⟩ t id d := by
  obtain ⟨run, v, ht, hid, hwhere⟩ := hdel
  have hholds : (w.procs j).Holds t := by
    rcases hwhere with ⟨inv, hp, -⟩ | ⟨out, hp⟩ <;> exact ⟨run, by rw [hp]; rfl, ht⟩
  by_cases hij : i = j
  · subst hij
    rcases hwhere with ⟨inv, hp, hoffer⟩ | ⟨out, hp⟩
    · have hun' : Unheard sh'.log t id := hun.effect hw.signals.1 he fun _ _ _ hp' => by
        rw [hp] at hp'
        cases hp'
      have hlatest : cp = inv.checkpoint := (hO.knows i).invoking run v inv hp cp (ht ▸ hcp)
      have hthread : inv.checkpoint.threadId = t := hlatest ▸ Checkpoints.threadId_of_get hcp
      have hinvo : (w.procs i).invocation = some inv := by rw [hp]; rfl
      have hP := (hw.threads.2 i).of_invocation hinvo
      have hresumes : inv.resumes = [] := by rw [Invocation.resumes, hP.plain hoffer, hoffer]; rfl
      have delivers : ∀ {inv' : Invocation}, p' = .runner (.invoking run v inv') →
          inv'.offered = none → Delivering (Function.update w.procs i p' i) t id := by
        intro inv' hp' ho
        rw [Function.update_self, hp']
        exact ⟨run, v, ht, hid, .inl ⟨inv', rfl, ho⟩⟩
      cases he.invokingStep hp with
      | waits hsame hp' =>
        exact .delivering (hsame ▸ hcp) hnext hdec hst hun' (delivers hp' hoffer)
      | ran hsame hp' =>
        exact .delivering (hsame ▸ hcp) hnext hdec hst hun' (delivers hp' hoffer)
      | stops hwhy hsame hp' =>
        exfalso
        rcases hwhy with rfl | ⟨error, hr⟩
        · have hnone := hok rfl
          rw [hp, Proc.delivers, ← hlatest, hnext, hid] at hnone
          cases hnone
        · -- a node that has received nothing raises nothing
          obtain ⟨n, -, hran⟩ := hP.result _ hr
          rw [hresumes] at hran
          cases hran with
          | refused hrec hacc => exact n.not_receives_nil _ hrec
      | @put values next hr hn hget hp' =>
        obtain ⟨n, db, hn', hrun⟩ := hw.computed hinvo _ hr
        rw [← hlatest, hnext] at hn'
        cases hn'
        rw [hresumes] at hrun
        obtain ⟨result, rest, hnil, -⟩ := execute_update hrun
        cases hnil
      | @suspended envelope hr hsame hp' =>
        have hget : sh'.checkpoints.get t =
            some { cp with resumes := inv.resumes, interrupt := some envelope } := by
          rw [hsame, Checkpoints.get_putWrites, hcp, Option.map_some, ← hlatest, if_pos ⟨rfl, rfl⟩]
        have hi := (Function.update_self i p' w.procs).trans hp'
        exact .delivering (j := i) hget hnext hdec hst hun' ⟨run, v, ht, hid, .inr ⟨_, hi⟩⟩
      | ended hn hsame hp' =>
        rw [← hlatest, hnext] at hn
        cases hn
    · rcases he.fromSaving hp with ⟨hp', elapsed, hsh⟩ | ⟨rfl, -⟩ | hsh
      · subst hsh
        have hi := (Function.update_self i p' w.procs).trans (hp'.trans hp)
        exact .delivering (j := i) hcp hnext hdec hst hun ⟨run, v, ht, hid, .inr ⟨out, hi⟩⟩
      · have hnone := hok rfl
        rw [hp, Proc.delivers, hid] at hnone
        cases hnone
      · obtain ⟨-, hvals⟩ := (hO.knows i).saving run v out hp cp (ht ▸ hcp)
        have hget : sh'.checkpoints.get t = some cp := by rw [hsh]; exact hcp
        refine .decided hget hdec (.inl ⟨hnext, hst⟩) ?_
        rw [hsh, ← hst, hvals, ← ht, ← hid]
        exact List.mem_cons_self
  · have hne : j ≠ i := fun h => hij h.symm
    have hun' : Unheard sh'.log t id := hun.effect hw.signals.1 he fun run' v' out hp ht' _ =>
      hne (hO.sole j i t hholds ⟨run', by rw [hp]; rfl, ht'⟩)
    have hpast : ¬ cp.Unparked := fun h => by
      rw [Checkpoint.Unparked, hnext] at h
      rcases h.1 with h | h <;> cases h
    have hget := hS.unmoved hs (hw.threads.2 i) he hcp hpast fun run' v' inv hp ht' =>
      hne (hO.sole j i t hholds ⟨run', by rw [hp]; rfl, ht'⟩)
    refine .delivering (j := j) hget hnext hdec hst hun' ?_
    change Delivering (Function.update w.procs i p' j) t id
    rw [Function.update_of_ne hne]
    exact ⟨run, v, ht, hid, hwhere⟩

theorem decided_effect (hL : OneLine w) (hcp : w.shared.checkpoints.get t = some cp)
    (hdec : cp.values.decision = some d)
    (hst : cp.next = some .execute ∧ cp.values.status = d.status ∨
      cp.next = none ∧ cp.values.status = d.outcome)
    (hsaved : .saved t d.status (some id) ∈ w.shared.log) :
    Stage ⟨sh', Function.update w.procs i p'⟩ t id d := by
  have hsaved' : .saved t d.status (some id) ∈ sh'.log := he.log_suffix.subset hsaved
  by_cases hinv : ∃ run v inv, w.procs i = .runner (.invoking run v inv) ∧ run.ticketId = t
  · obtain ⟨run, v, inv, hp, ht⟩ := hinv
    have hlatest : cp = inv.checkpoint := (hO.knows i).invoking run v inv hp cp (ht ▸ hcp)
    have hthread : inv.checkpoint.threadId = t := hlatest ▸ Checkpoints.threadId_of_get hcp
    have hinvo : (w.procs i).invocation = some inv := by rw [hp]; rfl
    cases he.invokingStep hp with
    | waits hsame hp' => exact .decided (hsame ▸ hcp) hdec hst hsaved'
    | stops hwhy hsame hp' => exact .decided (hsame ▸ hcp) hdec hst hsaved'
    | ran hsame hp' => exact .decided (hsame ▸ hcp) hdec hst hsaved'
    | ended hn hsame hp' => exact .decided (hsame ▸ hcp) hdec hst hsaved'
    | @suspended envelope hr hsame hp' =>
      have hget : sh'.checkpoints.get t =
          some { cp with resumes := inv.resumes, interrupt := some envelope } := by
        rw [hsame, Checkpoints.get_putWrites, hcp, Option.map_some, ← hlatest, if_pos ⟨rfl, rfl⟩]
      exact .decided hget hdec hst hsaved'
    | @put values next hr hn hget hp' =>
      obtain ⟨n, db, hnext, hrun⟩ := hw.computed hinvo _ hr
      rw [← hlatest] at hnext hn hrun
      rcases hst with ⟨hexec, hst⟩ | ⟨hend, -⟩
      · rw [hexec] at hnext
        cases hnext
        obtain ⟨result, rest, hresumes, hstatus, hdecision⟩ := execute_update hrun
        rw [hthread] at hget
        rw [hexec] at hn
        refine .decided hget (hdecision.trans hdec) (.inr ⟨hn, ?_⟩) hsaved'
        -- the result is the one this state has asked for
        have hP := hw.threads.2 i
        rw [hp] at hP
        have hmem : .result (.terminal result) ∈ inv.resumes := by
          rw [hresumes]
          exact List.mem_cons_self
        have hoffer := hP.2.2.offered_of_mem hmem nofun
        have hpay := hP.2.1 _ hoffer
        obtain ⟨s, resumes, hran, hasked⟩ :=
          hw.outcomes i run v result (by rw [hp]; rfl) hpay.symm
        rw [ht] at hran
        have hsame := hL.one t s cp.values (.ran hran) (.latest hcp hexec rfl)
        change values.status = _
        rw [hstatus, hasked, hsame, hst]
        exact d.closing_status
      · rw [hend] at hnext
        cases hnext
  · have hno : ∀ run v inv, w.procs i = .runner (.invoking run v inv) → run.ticketId ≠ t :=
      fun run v inv hp ht => hinv ⟨run, v, inv, hp, ht⟩
    have hpast : ¬ cp.Unparked := fun h => by
      rcases h.1 with h | h <;> rcases hst with ⟨hn, -⟩ | ⟨hn, -⟩ <;> · rw [hn] at h; cases h
    exact .decided (hS.unmoved hs (hw.threads.2 i) he hcp hpast hno) hdec hst hsaved'

end OneAction

/-- A terminal status of the thread is the outcome of the decision. -/
theorem Stage.terminal (h : Stage w t id d) (hT : ThreadsSound w.shared.checkpoints)
    (hcp : w.shared.checkpoints.get t = some cp) (hst : cp.values.status.terminal = true) :
    cp.values.status = d.outcome := by
  cases h with
  | pending hcp₀ henv hun hb =>
    cases hcp.symm.trans hcp₀
    rw [((hT t cp hcp).1.approval henv).2.2] at hst
    cases hst
  | delivering hcp₀ hnext hdec hst₀ hun hdel =>
    cases hcp.symm.trans hcp₀
    rw [hst₀] at hst ⊢
    exact ApprovalDecision.terminal_status hst
  | decided hcp₀ hdec hst₀ hsaved =>
    cases hcp.symm.trans hcp₀
    rcases hst₀ with ⟨-, hst₀⟩ | ⟨-, hst₀⟩
    · rw [hst₀] at hst ⊢
      exact ApprovalDecision.terminal_status hst
    · exact hst₀

/-- A thread at its end shows the outcome of the decision. -/
theorem Stage.ended (h : Stage w t id d) (hT : ThreadsSound w.shared.checkpoints)
    (hcp : w.shared.checkpoints.get t = some cp) (hn : cp.next = none) :
    cp.values.status = d.outcome := by
  cases h with
  | pending hcp₀ henv hun hb =>
    cases hcp.symm.trans hcp₀
    rw [((hT t cp hcp).1.approval henv).1] at hn
    cases hn
  | delivering hcp₀ hnext hdec hst hun hdel =>
    cases hcp.symm.trans hcp₀
    rw [hnext] at hn
    cases hn
  | decided hcp₀ hdec hst hsaved =>
    cases hcp.symm.trans hcp₀
    rcases hst with ⟨hexec, -⟩ | ⟨-, hst⟩
    · rw [hexec] at hn
      cases hn
    · exact hst

/-! ## The projection -/

/-- No terminal status of the ticket is about while its thread shows the approval. -/
theorem Projects.of_approval (hK : Kept w.shared) (hKnows : ∀ j, KeptKnows w.shared (w.procs j))
    (hT : ThreadsSound w.shared.checkpoints) (hcp : w.shared.checkpoints.get t = some cp)
    (henv : cp.interrupt = some (.approvalRequired t u reply))
    (hrow : (w.shared.db.run t).isSome) : Projects w t d := by
  obtain ⟨hnext, -⟩ := (hT t cp hcp).1.approval henv
  have hopen : ¬ Closing w.shared.checkpoints t := by
    intro hclosing
    rcases hclosing cp hcp with hn | ⟨hn, -⟩ <;> · rw [hnext] at hn; cases hn
  refine ⟨hrow, fun r hr hst => absurd (hK.rows t r hr hst) hopen, fun j run hold ht hst => ?_⟩
  subst ht
  exact absurd ((hKnows j).terminal run hold hst) hopen

theorem Projects.effect (h : Projects w t d) (hw : World.Reachable w) (hO : Ownership w)
    (hun : Unswept w i a) (he : Effect w.shared i (w.procs i) a sh' p')
    (hcp : w.shared.checkpoints.get t = some cp)
    (hterm : cp.values.status.terminal = true → cp.values.status = d.outcome) :
    Projects ⟨sh', Function.update w.procs i p'⟩ t d := by
  have hchange := he.runChange hw.held.1 t
  obtain ⟨r₀, hr₀⟩ := Option.isSome_iff_exists.mp h.row
  refine ⟨?_, fun r hr hst => ?_, fun j run hold ht hst => ?_⟩
  · change (sh'.db.run t).isSome
    cases hr : sh'.db.run t with
    | some r => rfl
    | none =>
      obtain ⟨maxAge, rfl, -⟩ := hchange.moved hr₀ hr
      exact hun.elim
  · rcases hchange.status hr with ⟨r₁, hr₁, heq⟩ | ⟨s, hs, ht, heq⟩ | ⟨values, -, -, hnone, -⟩
    · rw [heq] at hst ⊢
      exact h.rows r₁ hr₁ hst
    · rw [heq] at hst ⊢
      unfold Proc.saves at hs
      split at hs
      · rename_i run hp
        cases hs
        exact h.held i run (by rw [hp]; rfl) ht hst
      · rename_i run v out hp
        cases hs
        change run.ticketId = t at ht
        -- a step saves the status its thread has
        obtain ⟨-, hvals⟩ := (hO.knows i).saving run v out hp cp (ht ▸ hcp)
        rw [← hvals] at hst ⊢
        exact hterm hst
      · cases hs
    · rw [hr₀] at hnone
      cases hnone
  · change (Function.update w.procs i p' j).holds = some run at hold
    by_cases hj : j = i
    · rw [hj, Function.update_self] at hold
      rcases he.holds hold with hold | ⟨locked, db, -, -, hcl, -⟩
      · exact h.held i run hold ht hst
      · obtain ⟨r, hr, -, hrun, -⟩ := run_claimRun hw.held.1 hcl
        rw [hrun] at hst ⊢
        exact h.rows r (ht ▸ hr) hst
    · rw [Function.update_of_ne hj] at hold
      exact h.held j run hold ht hst

/-! ## Runs -/

/-- The first acceptance is an old one, or it is made of an undecided ticket. -/
theorem FirstAccepted.before (h : FirstAccepted sh'.log t id d) (hI : SignalsSound w.shared)
    (hok : Heeded w i a) (he : Effect w.shared i (w.procs i) a sh' p') :
    FirstAccepted w.shared.log t id d ∨ w.procs i = .idle ∧ a = .submitApproval t d ∧
      id = w.shared.db.pendingSignalSeq ∧ acceptances t sh'.log = [id] ∧ Undecided w t ∧
      (∃ r ∈ w.shared.db.workflowRun, Db.Waiting t .awaitingApproval r) ∧
      sh'.log = .accepted t id d :: w.shared.log := by
  obtain ⟨hacc, hfirst⟩ := h
  rcases he.accepts hacc with hold | ⟨hp, rfl, hid, hwait, hlog⟩
  · left
    refine ⟨hold, ?_⟩
    rcases he.acceptances t with heq | ⟨d', -, heq, -, -⟩
    · rwa [heq] at hfirst
    · have hne : acceptances t w.shared.log ≠ [] :=
        List.ne_nil_of_mem (mem_acceptances.mpr ⟨d, hold⟩)
      rw [heq, List.getLast?_cons, List.getLast?_eq_some_getLast hne] at hfirst
      rw [List.getLast?_eq_some_getLast hne]
      exact hfirst
  · right
    have hcons : acceptances t sh'.log = id :: acceptances t w.shared.log := by
      rw [hlog, acceptances, List.filterMap_cons, Event.acceptance, if_pos rfl]
      rfl
    have hnil : acceptances t w.shared.log = [] := by
      by_contra hne
      -- an earlier acceptance has another id
      rw [hcons, List.getLast?_cons, List.getLast?_eq_some_getLast hne] at hfirst
      have hm := List.getLast_mem hne
      have hlast : (acceptances t w.shared.log).getLast hne = id := Option.some.inj hfirst
      rw [hlast] at hm
      obtain ⟨d', hd'⟩ := mem_acceptances.mp hm
      have hlt := hI.lt_seq t id d' hd'
      omega
    exact ⟨hp, rfl, hid, by rw [hcons, hnil], hok.2.2 hnil hwait, hwait, hlog⟩

theorem pending_of_accepted (hw : World.Reachable w) (hS : SeedsOwned w)
    (he : Effect w.shared i (w.procs i) a sh' p') (hp : w.procs i = .idle)
    (hid : id = w.shared.db.pendingSignalSeq) (honly : acceptances t sh'.log = [id])
    (hlog : sh'.log = .accepted t id d :: w.shared.log) (hund : Undecided w t) :
    Stage ⟨sh', Function.update w.procs i p'⟩ t id d := by
  obtain ⟨⟨cp, u, reply, hcp, henv⟩, hchosen⟩ := hund
  have hpast : ¬ cp.Unparked := fun h => by
    rw [h.2] at henv
    cases henv
  have hs : ¬ (w.procs i).Sweeping := by
    rw [hp]
    exact fun h => h
  have hget := hS.unmoved hs (hw.threads.2 i) he hcp hpast fun run v inv hp' => by
    rw [hp] at hp'
    cases hp'
  refine .pending hget henv ⟨honly, fun status hm => ?_⟩ (brings_update ?_ ?_)
  · change .saved t status (some id) ∈ sh'.log at hm
    rw [hlog] at hm
    obtain ⟨d', hd'⟩ := hw.signals.1.saved t status id
      ((List.mem_cons.mp hm).resolve_left fun h => nomatch h)
    have hlt := hw.signals.1.lt_seq t id d' hd'
    omega
  · exact fun j => .of_resumes (hchosen j)
  · refine .of_resumes fun run v hr => ?_
    rcases he.resumes hr with hold | ⟨env, hp', -⟩
    · rw [hp] at hold
      cases hold
    · rw [hp] at hp'
      cases hp'

theorem World.ReachableWhen.decision (hw : World.ReachableWhen Heeded w) :
    ∀ t id d, FirstAccepted w.shared.log t id d → Stage w t id d ∧ Projects w t d := by
  refine World.ReachableWhen.worldInvariant
    (I := fun w => ∀ t id d, FirstAccepted w.shared.log t id d → Stage w t id d ∧ Projects w t d)
    (fun _ _ _ h => nomatch h.accepted) ?_ hw
  intro w i a sh' p' hr hok hI he t id d hfirst
  have hw : World.Reachable w := hr.reachable
  have hO : Ownership w := World.ReachableWhen.ownership (fun _ _ _ h => h.2.1) hr
  have hS : SeedsOwned w := World.ReachableWhen.seeds (fun _ _ _ h => h.1) hr
  have hs := World.ReachableWhen.not_sweeping (fun _ _ _ h => h.1) hr i
  have hshelter := World.ReachableWhen.sheltered (fun _ _ _ h => ⟨h.1, h.2.1⟩) hr
  have hL : OneLine w := World.ReachableWhen.oneLine (fun _ _ h => h.2) hshelter
  rcases hfirst.before hw.signals.1 hok he with hold | ⟨hp, rfl, hid, honly, hund, hwait, hlog⟩
  · obtain ⟨hstage, hproj⟩ := hI t id d hold
    have hcrash : a = .crash → (w.procs i).delivers = none := by
      rintro rfl
      exact hok.2.2
    constructor
    · cases hstage with
      | pending hcp henv hun hb =>
        exact pending_effect hw hO hS hs he hold.accepted hcp henv hun hb
      | delivering hcp hnext hdec hst hun hdel =>
        exact delivering_effect hw hO hS hs he hcrash hcp hnext hdec hst hun hdel
      | decided hcp hdec hst hsaved => exact decided_effect hw hO hS hs he hL hcp hdec hst hsaved
    · obtain ⟨cp, hcp⟩ : ∃ cp, w.shared.checkpoints.get t = some cp := by
        cases hstage with
        | _ hcp => exact ⟨_, hcp⟩
      exact hproj.effect hw hO hok.1 he hcp (hstage.terminal hw.threads.1 hcp)
  · refine ⟨pending_of_accepted hw hS he hp hid honly hlog hund, ?_⟩
    obtain ⟨⟨cp, u, reply, hcp, henv⟩, -⟩ := hund
    obtain ⟨r, hr', ht, -⟩ := hwait
    have hrow : (w.shared.db.run t).isSome := by
      rw [← ht, hw.held.1.run_of_mem hr']
      rfl
    obtain ⟨hK, hKnows⟩ := World.ReachableWhen.kept (fun _ _ _ h => h.1) hshelter
    have hproj : Projects w t d := .of_approval hK hKnows hw.threads.1 hcp henv hrow
    refine hproj.effect hw hO hok.1 he hcp fun hst => ?_
    rw [((hw.threads.1 t cp hcp).1.approval henv).2.2] at hst
    cases hst

/-! ## The first decision decides -/

/-- In a run whose steps are heeded, the first accepted decision is pending, and then it is all that a
runner finds or has found, and a runner that brings it to the graph and is left alone delivers it and
consumes its signal with the save; or it has been delivered and a runner is on its way to that save;
or the save has committed. The ticket ends with the outcome of the decision. -/
theorem accepted_decision_decides (hw : World.ReachableWhen Heeded w)
    (hfirst : FirstAccepted w.shared.log t id d) :
    ∃ cp, w.shared.checkpoints.get t = some cp ∧
      (cp.next = some .awaitApproval ∧
          (∀ j run v, (w.procs j).resumes = some (run, v) → run.ticketId = t →
            v = ⟨.decision d, some id⟩) ∧
          (∀ env ∈ cp.interrupt, ∀ wakeupAt, Runner.resumeForRun env wakeupAt w.shared.db =
            some ⟨.decision d, some id⟩) ∧
          (∀ run, run.ticketId = t → Persists w.shared
            (w.shared, .at (.resuming run ⟨.decision d, some id⟩)) run ⟨.decision d, some id⟩ 1) ∨
        cp.next = some .execute ∧ cp.values.decision = some d ∧ cp.values.status = d.status ∧
          (∃ j, (w.procs j).delivers = some id) ∨
        cp.values.decision = some d ∧ .saved t d.status (some id) ∈ w.shared.log ∧
          ∀ s ∈ w.shared.db.pendingSignal, s.id = id → s.consumed = true) ∧
      (cp.next = none → cp.values.status = d.outcome) ∧
      ∀ r, w.shared.db.run t = some r → r.status.terminal = true → r.status = d.outcome := by
  have hreach : World.Reachable w := hw.reachable
  have hO : Ownership w := hw.ownership fun _ _ _ h => h.2.1
  obtain ⟨hstage, hproj⟩ := hw.decision t id d hfirst
  have hend : ∀ cp, w.shared.checkpoints.get t = some cp → cp.next = none →
      cp.values.status = d.outcome := fun cp hcp => hstage.ended hreach.threads.1 hcp
  cases hstage with
  | @pending cp u reply hcp henv hun hb =>
    obtain ⟨hnext, hres, -⟩ := (hreach.threads.1 t cp hcp).1.approval henv
    refine ⟨cp, hcp, .inl ⟨hnext, fun j run v => (hb j).value run v, ?_, ?_⟩, hend cp hcp, hproj.rows⟩
    · intro env hmem wakeupAt
      cases henv.symm.trans hmem
      exact hun.found hreach.signals.1 hfirst.accepted wakeupAt
    · intro run ht
      have hpersists := resuming_accepted (v := ⟨.decision d, some id⟩) hreach.threads.1 (ht ▸ hcp)
        hnext (by rw [hres]; exact ⟨[], rfl⟩) (.inr ⟨d, rfl⟩)
      rw [hnext] at hpersists
      exact hpersists
  | @delivering cp j hcp hnext hdec hst hun hdel =>
    refine ⟨cp, hcp, .inr (.inl ⟨hnext, hdec, hst, j, ?_⟩), hend cp hcp, hproj.rows⟩
    obtain ⟨run, v, ht, hid, ⟨inv, hp, -⟩ | ⟨out, hp⟩⟩ := hdel
    · have hlatest : cp = inv.checkpoint := (hO.knows j).invoking run v inv hp cp (ht ▸ hcp)
      rw [hp, Proc.delivers, ← hlatest, hnext]
      exact hid
    · rw [hp]
      exact hid
  | @decided cp hcp hdec hst hsaved =>
    refine ⟨cp, hcp, .inr (.inr ⟨hdec, hsaved, fun s hs hid => ?_⟩), hend cp hcp, hproj.rows⟩
    by_contra hcon
    exact hreach.signals.1.unsaved s hs (Bool.eq_false_iff.mpr hcon) t d.status (hid ▸ hsaved)

/-- A condition that can be decided and implies `Heeded`: nobody claims or inserts a row while
another runner is at work, and a decision is submitted for a ticket that shows its approval. -/
def Orderly (w : World) (i : WorkerId) (a : Action) : Prop := i < 4 ∧
  match a with
  | .claimRun _ => ∀ j < 4, (w.procs j).holds = none
  | .advance => (w.procs i).creates.isSome → ∀ j < 4, (w.procs j).invocation = none
  | .submitApproval t _ => (∃ cp ∈ w.shared.checkpoints.get t, ∃ env ∈ cp.interrupt,
      env.idempotencyKey = none) ∧ ∀ j < 4, (w.procs j).resumes = none
  | .runRetention _ | .crash => False
  | _ => True

instance (w : World) (i : WorkerId) : DecidablePred (Orderly w i)
  | .claimRun _ => inferInstanceAs (Decidable (_ ∧ ∀ j < 4, _))
  | .advance => inferInstanceAs (Decidable (_ ∧ (_ → ∀ j < 4, _)))
  | .submitApproval _ _ => inferInstanceAs (Decidable (_ ∧ (∃ cp ∈ _, ∃ env ∈ _, _) ∧ ∀ j < 4, _))
  | .runRetention _ | .crash => inferInstanceAs (Decidable (_ ∧ False))
  | .tick _ | .createTicket _ | .dequeue _ _ | .activityReturns _ | .activityRaises _ _
  | .reclaimExpiredLeases | .reconcileOrphanedRuns => inferInstanceAs (Decidable (_ ∧ True))

theorem Orderly.heeded (h : Orderly w i a) (hw : World.Reachable w)
    (hidle : ∀ j, 4 ≤ j → w.procs j = .idle) : Heeded w i a := by
  obtain ⟨-, h⟩ := h
  have howned : Owned w i a := by
    refine .of_bounded hidle ?_ ?_
    · rintro locked rfl
      exact h
    · rintro rfl
      exact h
  cases a with
  | submitApproval t d =>
    obtain ⟨⟨cp, hcp, env, henv, hkey⟩, hres⟩ := h
    refine ⟨trivial, howned, fun _ _ => ⟨?_, fun j run v hj => ?_⟩⟩
    · obtain ⟨hsound, -⟩ := hw.threads.1 t cp hcp
      obtain ⟨n, -, hsus⟩ := hsound.parked env henv
      have ht : cp.values.ticket.id = t := hsound.ticket.trans (Checkpoints.threadId_of_get hcp)
      generalize cp.resumes = resumes at hsus
      cases hsus with
      | approval hwake hd =>
        rw [ht] at henv
        exact ⟨cp, _, _, hcp, henv⟩
      | _ => cases hkey
    · by_cases hlt : j < 4
      · rw [hres j hlt] at hj
        cases hj
      · rw [hidle j (Nat.le_of_not_lt hlt)] at hj
        cases hj
  | runRetention maxAge => exact h.elim
  | crash => exact h.elim
  | _ => exact ⟨trivial, howned, trivial⟩

/-- Runner 2 resumes ticket 7 after its approval, worker 3 finalizes it and runner 2 ends it. -/
def Schedule.concluded (n : ℕ) : Schedule :=
  Schedule.advance 2 n ++ [(3, .dequeue .taskQueue Schedule.unlocked)] ++ Schedule.advance 3 5 ++
    Schedule.step 2 7

/-- Ticket 7 has come to its end after an approval, with the status. -/
def concludes (status : TicketStatus) (w : World) : Bool :=
  match w.shared.checkpoints.get 7 with
  | some cp => decide (cp.next = none ∧ cp.values.status = status ∧
      Event.accepted 7 0 ⟨true, "approver", none⟩ ∈ w.shared.log ∧
      (acceptances 7 w.shared.log).getLast? = some 0)
  | none => false

theorem concludes_spec {status : TicketStatus} (h : concludes status w = true) :
    ∃ cp, w.shared.checkpoints.get 7 = some cp ∧ cp.next = none ∧ cp.values.status = status ∧
      FirstAccepted w.shared.log 7 0 ⟨true, "approver", none⟩ := by
  unfold concludes at h
  split at h
  · rename_i cp hcp
    obtain ⟨hend, hst, hacc, hfirst⟩ := of_decide_eq_true h
    exact ⟨cp, hcp, hend, hst, hacc, hfirst⟩
  · cases h

/-- Ticket 7 is approved in time and resolved. -/
theorem accepted_decision_decides_approved : ∃ w cp, World.ReachableWhen Heeded w ∧
    w.shared.checkpoints.get 7 = some cp ∧ cp.next = none ∧ cp.values.status = .resolved := by
  have hrun : (World.initial.runWhen Proc.step Orderly (Schedule.drafted Schedule.riskyDraft 12 ++
      Schedule.submit true ++ [(2, .claimRun Schedule.unlocked)] ++ Schedule.concluded 8)).map
        (concludes .resolved) = some true := by decide +kernel
  obtain ⟨w, hw, hp⟩ := exists_reachableWhen_of_run hrun
  obtain ⟨cp, hcp, hend, -, hfirst⟩ := concludes_spec hp
  have hw' : World.ReachableWhen Heeded w := hw.strengthen fun w i a hr h =>
    h.heeded hr.reachable (World.ReachableWhen.idle_above (fun _ _ _ h => h.1) hr)
  obtain ⟨cp', hcp', -, hdecided, -⟩ := accepted_decision_decides hw' hfirst
  cases hcp.symm.trans hcp'
  exact ⟨w, cp, hw', hcp, hend, hdecided hend⟩

/-- Runner 2 has chosen the timeout of ticket 7's approval; the approver approves, and runner 2 goes
on to resume the graph with the timeout. -/
theorem approval_escalates : ¬ ∀ w, World.Reachable w → ∀ t id d,
    FirstAccepted w.shared.log t id d → ∀ cp, w.shared.checkpoints.get t = some cp →
      cp.next = none → cp.values.status = d.outcome := by
  intro hall
  have hrun : (World.initial.run Proc.step (Schedule.drafted Schedule.riskyDraft 12 ++
      [(0, .tick approvalTimeout)] ++ Schedule.step 2 2 ++ Schedule.submit true ++
      Schedule.concluded 6)).map (concludes .escalated) = some true := by decide +kernel
  obtain ⟨w, hw, hp⟩ := exists_reachableWhen_of_run hrun
  obtain ⟨cp, hcp, hend, hst, hfirst⟩ := concludes_spec hp
  have hout := hall w hw 7 0 _ hfirst cp hcp hend
  rw [hst] at hout
  cases hout

end TicketFlow
