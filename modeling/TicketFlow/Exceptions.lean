import TicketFlow.Outcomes
import TicketFlow.Timers

/-! # The exceptions that leave `ainvoke`

A node raises at nothing but a resume value it does not validate: no `assert` of the graph fails, no
result of another ticket arrives, and `create_ticket` never sees an exception. Where a run has one
owner at a time there are two such values: a timeout for an interrupt that has no deadline, and the
failure of a finalize task. -/

namespace TicketFlow
open Table Interleaving
set_option autoImplicit false

/-- What a waiting node raises at a value it does not validate. -/
def Node.refusal : Node → Option GraphError
  | .awaitClassify => some (.validation "Classification")
  | .awaitDraft => some (.validation "DraftReply")
  | .awaitApproval => some (.value "approval resume kind must be 'decision' or 'timeout'")
  | .execute => some (.validation "TicketResult")
  | .dispatchClassify | .dispatchDraft | .decideApproval | .prepareApproval => none

variable {sh sh' : Shared} {w : World} {i j : WorkerId} {p p' : Proc} {a : Action} {t : TicketId}
  {n : Node} {s s' : TicketState} {resumes : List Resume} {db : Database} {e : GraphError}
  {env : Envelope} {cp : Checkpoint} {v : ResumeValue} {run : WorkflowRun} {inv : Invocation}
  {value : Resume}

/-! ## What a node raises -/

theorem classifyUpdate_raise (h : Graph.classifyUpdate s value = .raise e) :
    e = .validation "Classification" := by
  unfold Graph.classifyUpdate at h
  split at h
  · cases h
  · split at h
    · cases h
    · cases h
      rfl

theorem draftUpdate_raise (h : Graph.draftUpdate s value = .raise e) :
    e = .validation "DraftReply" := by
  unfold Graph.draftUpdate at h
  split at h
  · cases h
  · split at h
    · cases h
    · cases h
      rfl

theorem approvalUpdate_raise (h : Graph.approvalUpdate s value = .raise e) :
    e = .value "approval resume kind must be 'decision' or 'timeout'" := by
  unfold Graph.approvalUpdate at h
  split at h
  · cases h
  · split at h <;> cases h
  · cases h
    rfl

theorem executeUpdate_raise (h : Graph.executeUpdate s value = .raise e) :
    e = .validation "TicketResult" ∨
      ∃ result, value = .result (.terminal result) ∧ result.ticketId ≠ s.ticket.id := by
  unfold Graph.executeUpdate at h
  split at h
  · cases h
    exact .inl rfl
  · rename_i result hval
    split at h
    · rename_i hne
      unfold Graph.validateTicketResult at hval
      split at hval
      · cases hval
        exact .inr ⟨_, rfl, hne⟩
      · cases hval
    · cases h

/-- In a state fit for it a node raises its refusal, or the result of another ticket was brought. -/
theorem Node.run_raise (hs : StateFor s (some n)) (h : (n.run s resumes db).2 = .raise e) :
    n.refusal = some e ∨ ∃ result, .result (.terminal result) ∈ resumes ∧
      result.ticketId ≠ s.ticket.id := by
  cases n with
  | dispatchClassify => cases h
  | awaitClassify =>
    simp only [Node.run, Graph.awaitClassify] at h
    split at h
    · cases h
    · rw [classifyUpdate_raise h]
      exact .inl rfl
  | dispatchDraft =>
    obtain ⟨-, hc⟩ := hs
    obtain ⟨c, hc⟩ := Option.isSome_iff_exists.mp hc
    simp only [Node.run, Graph.dispatchDraft, hc] at h
    cases h
  | awaitDraft =>
    obtain ⟨-, hc, -⟩ := hs
    obtain ⟨c, hc⟩ := Option.isSome_iff_exists.mp hc
    simp only [Node.run, Graph.awaitDraft, hc] at h
    split at h
    · cases h
    · rw [draftUpdate_raise h]
      exact .inl rfl
  | decideApproval =>
    obtain ⟨-, -, hd⟩ := hs
    obtain ⟨reply, hd⟩ := Option.isSome_iff_exists.mp hd
    simp only [Node.run, Graph.decideApproval, hd] at h
    cases h
  | prepareApproval => cases h
  | awaitApproval =>
    obtain ⟨-, -, hw, reply, hd, -⟩ := hs
    obtain ⟨wakeupAt, hw⟩ := Option.isSome_iff_exists.mp hw
    have hd : s.draft = some reply := hd
    simp only [Node.run, Graph.awaitApproval, hw, hd] at h
    split at h
    · cases h
    · rw [approvalUpdate_raise h]
      exact .inl rfl
  | execute =>
    obtain ⟨hc, reply, hd, -⟩ := hs
    obtain ⟨c, hc⟩ := Option.isSome_iff_exists.mp hc
    have hd : s.draft = some reply := hd
    simp only [Node.run, Graph.execute, hc, hd] at h
    split at h
    · cases h
    · rcases executeUpdate_raise h with rfl | ⟨result, rfl, hne⟩
      · exact .inl rfl
      · exact .inr ⟨result, List.mem_cons_self, hne⟩

/-! ## Whose result a runner brings -/

/-- A terminal result that a runner brings is one of its ticket. -/
def BringsOwn (p : Proc) : Prop := ∀ run v result, p.resumes = some (run, v) →
  v.payload = .result (.terminal result) → result.ticketId = run.ticketId

theorem World.Reachable.bringsOwn (hw : World.Reachable w) (j : WorkerId) :
    BringsOwn (w.procs j) := by
  refine (World.ReachableWhen.invariant (I := fun _ => True) (J := fun _ _ p => BringsOwn p) trivial
    (fun _ _ _ _ h => nomatch h) ?_ hw).2 j
  intro w i a sh' p' hr _ _ hJ he
  have hw : World.Reachable w := hr.reachable
  refine ⟨trivial, fun run v result hres hpay => ?_, fun j _ => hJ j⟩
  rcases he.resumes hres with hold | ⟨env, hp, rfl, hready⟩
  · exact hJ i run v result hold hpay
  · have hfor := hw.threads.2 i
    rw [hp] at hfor
    cases Runner.resumeForRun_found hready with
    | decision happ hsig => cases hpay
    | timeout hsome hnone => cases hpay
    | @task key x hkey htask hdecision htimeout =>
      rcases agentValue_cases hw.tasks.1 htask with hf | ⟨x, hx, hfit⟩
      · rw [hpay] at hf
        cases hf
      · cases hx.symm.trans hpay
        have ht := hfor.ticket hkey
        revert hfit
        cases key.taskType <;> intro hfit
        · exact hfit.elim
        · exact hfit.elim
        · exact hfit.trans ht

/-- No exception leaves the `ainvoke` of `create_ticket`. -/
theorem World.Reachable.raised_in_step (hw : World.Reachable w)
    (hinv : (w.procs j).invocation = some inv) (hr : inv.result = some (.raise e)) :
    ∃ run v, w.procs j = .runner (.invoking run v inv) := by
  have hP := hw.threads.2 j
  have hsound := hP.of_invocation hinv
  obtain ⟨n, hn, hran⟩ := hsound.result _ hr
  unfold Proc.invocation at hinv
  split at hinv
  · rename_i inv' hp
    cases hinv
    rw [hp] at hP
    -- `create_ticket` brings no value, so its nodes have received none
    have hnil : inv.resumes = [] := by rw [Invocation.resumes, hP.1, hsound.plain hP.1]; rfl
    rw [hnil] at hran
    cases hran with
    | refused hrec hacc => exact absurd hrec (n.not_receives_nil _)
  · rename_i run v inv' hp
    cases hinv
    exact ⟨run, v, hp⟩
  · cases hinv

/-- In every reachable world an exception that leaves `ainvoke` leaves a runner's step, not
`create_ticket`, and is the refusal of a waiting node: no assertion fails, and no node is resumed
with another ticket's result. -/
theorem only_refusals_raised (hw : World.Reachable w) (hinv : (w.procs j).invocation = some inv)
    (hr : inv.result = some (.raise e)) :
    (∃ run v, w.procs j = .runner (.invoking run v inv)) ∧
      inv.checkpoint.next.bind Node.refusal = some e := by
  have hdriver := hw.raised_in_step hinv hr
  refine ⟨hdriver, ?_⟩
  obtain ⟨run, v, hp⟩ := hdriver
  have hP := hw.threads.2 j
  have hsound := hP.of_invocation hinv
  rw [hp] at hP
  obtain ⟨n, db, hn, hrun⟩ := hw.computed hinv _ hr
  have hs := hsound.checkpoint.state
  rw [hn] at hs
  rcases Node.run_raise hs hrun with href | ⟨result, hm, hne⟩
  · rw [hn]
    exact href
  · have ho := hsound.offered_of_mem hm nofun
    have hpay := (hP.2.1 _ ho).symm
    have hown := hw.bringsOwn j run v result (by rw [hp]; rfl) hpay
    rw [hsound.checkpoint.ticket, hP.1] at hne
    exact absurd hown hne

/-- Runner 2 is in the middle of an `ainvoke` whose last node raised. -/
def raising (w : World) : Bool :=
  match w.procs 2 with
  | .runner (.invoking _ _ inv) =>
    match inv.result with
    | some (.raise _) => true
    | _ => false
  | _ => false

theorem raising_spec (h : raising w = true) : ∃ run v inv e,
    w.procs 2 = .runner (.invoking run v inv) ∧ inv.result = some (.raise e) := by
  unfold raising at h
  split at h
  · rename_i run v inv hp
    split at h
    · rename_i e hr
      exact ⟨run, v, inv, e, hp, hr⟩
    · cases h
  · cases h

/-- A step on a ticket whose finalize task has failed raises. -/
theorem only_refusals_raised_finalize : ∃ (w : World) (inv : Invocation) (e : GraphError),
    World.Reachable w ∧ inv.result = some (.raise e) ∧
      inv.checkpoint.next.bind Node.refusal = some e := by
  have hrun : (World.initial.run Proc.step
      (Schedule.finalizeFailed ++ Schedule.step 2 4)).map raising = some true := by
    decide +kernel
  obtain ⟨w, hw, hp⟩ := exists_reachableWhen_of_run hrun
  obtain ⟨run, v, inv, e, hproc, hr⟩ := raising_spec hp
  have hw : World.Reachable w := hw
  have hinv : (w.procs 2).invocation = some inv := by rw [hproc]; rfl
  exact ⟨w, inv, e, hw, hr, (only_refusals_raised hw hinv hr).2⟩

/-! ## What an owner brings to the interrupt it found -/

/-- The value a runner brings to a parked checkpoint: one its node accepts, a timeout, or the
failure of a finalize task. -/
inductive Offers (cp : Checkpoint) (value : Resume) : Prop
  | accepted {node : Node} : cp.next = some node → value ≠ .timeout →
      node.Accepts cp.values value → Offers cp value
  | timedOut : value = .timeout → Offers cp value
  | failed {error : Option String} {permanent : Bool} : cp.next = some .execute →
      value = .taskFailed error permanent → Offers cp value

/-- What a runner knows of the interrupt its value answers. -/
structure OffersKnows (sh : Shared) (p : Proc) : Prop where
  resuming : ∀ run v, p = .runner (.resuming run v) → ∀ cp,
    sh.checkpoints.get run.ticketId = some cp → cp.interrupt.isSome ∧ Offers cp v.payload
  invoking : ∀ run v inv, p = .runner (.invoking run v inv) → ∀ value ∈ inv.offered,
    inv.checkpoint.interrupt.isSome ∧ Offers inv.checkpoint value

theorem Suspends.offers (hT : TasksSound db) (hn : cp.next = some n)
    (h : Suspends cp.values n resumes env) (hv : Runner.resumeValue env db = some v) :
    Offers cp v.payload := by
  by_cases hacc : n.Accepts cp.values v.payload
  · exact .accepted hn (resumeValue_ne_timeout hv) hacc
  · have hfail := mt (h.accepts_iff hT hv).mpr hacc
    cases h with
    | @terminal c reply hc hd =>
      have hv : Runner.taskResumeValue (.finalize cp.values.ticket.id) db = some v := hv
      rcases agentValue_cases hT hv with hf | ⟨x, hx, hfit⟩
      · cases hp : v.payload with
        | taskFailed error permanent => exact .failed hn rfl
        | _ =>
          rw [hp] at hf
          cases hf
      · cases x with
        | terminal r => exact absurd ⟨r, hx, hfit⟩ hacc
        | classification c => exact hfit.elim
        | draft d => exact hfit.elim
    | _ => exact absurd trivial hfail

theorem Checkpoint.Sound.offers (h : cp.Sound) (hT : TasksSound db) (henv : cp.interrupt = some env)
    (hv : Runner.resumeForRun env run.wakeupAt db = some v) : Offers cp v.payload := by
  obtain ⟨n, hn, hsus⟩ := h.parked env henv
  unfold Runner.resumeForRun at hv
  split at hv
  · rename_i v' hval
    cases hv
    exact hsus.offers hT hn hval
  · split at hv
    · cases hv
      exact .timedOut rfl
    · cases hv

theorem OffersKnows.idle (h : p.holds = none) : OffersKnows sh p := by
  refine ⟨fun run v hp => ?_, fun run v inv hp => ?_⟩ <;>
  · rw [hp] at h
    cases h

theorem OffersKnows.kept {q : Proc} (h : OffersKnows sh q)
    (hkept : ∀ t, q.Holds t →
      sh'.checkpoints.get t = sh.checkpoints.get t ∨ sh'.checkpoints.get t = none) :
    OffersKnows sh' q := by
  refine ⟨fun run v hq cp hcp => ?_, h.invoking⟩
  rcases hkept run.ticketId ⟨run, by rw [hq]; rfl, rfl⟩ with heq | hnone
  · exact h.resuming run v hq cp (heq.symm.trans hcp)
  · rw [hnone] at hcp
    cases hcp

theorem OffersKnows.acts (h : OffersKnows sh p) (hO : OwnerKnows sh p)
    (hTh : ThreadsSound sh.checkpoints) (hT : TasksSound sh.db) (he : Effect sh i p a sh' p') :
    OffersKnows sh' p' := by
  have elsewhere : (∀ run v, p' ≠ .runner (.resuming run v)) →
      (∀ run v inv, p' = .runner (.invoking run v inv) → inv.offered = none) →
      OffersKnows sh' p' := by
    refine fun hres hinv => ⟨fun run v hp' => absurd hp' (hres run v), ?_⟩
    intro run v inv hp' value ho
    rw [hinv run v inv hp'] at ho
    cases ho
  cases he with
  | tick elapsed => exact h.kept fun t _ => .inl rfl
  | @ran dr inv n db result hr hn hrun =>
    cases dr with
    | createTicket => exact .idle rfl
    | step run v =>
      have hold := h.invoking run v inv rfl
      refine ⟨fun run' v' hp' => (nomatch hp'), fun run' v' inv' hp' => ?_⟩
      cases hp'
      exact hold
  | @put dr inv values next hr hn =>
    cases dr with
    | createTicket => exact .idle rfl
    | step run v =>
      refine elsewhere (fun _ _ hp' => nomatch hp') fun run' v' inv' hp' => ?_
      cases hp'
      rfl
  | @suspended dr inv env hr =>
    cases dr with
    | createTicket => exact .idle rfl
    | step run v => exact elsewhere (fun _ _ hp' => nomatch hp') fun _ _ _ hp' => nomatch hp'
  | claimed hs => exact elsewhere (fun _ _ hp' => nomatch hp') fun _ _ _ hp' => nomatch hp'
  | failed hm hs hf =>
    split
    · exact .idle rfl
    · exact .idle rfl
  | quiet hl =>
    cases hl with
    | @ended dr inv hr hn =>
      cases dr with
      | createTicket => exact .idle rfl
      | step run v => exact elsewhere (fun _ _ hp' => nomatch hp') fun _ _ _ hp' => nomatch hp'
    | unparked hcp => exact elsewhere (fun _ _ hp' => nomatch hp') fun _ _ _ hp' => nomatch hp'
    | inspected hcp henv =>
      exact elsewhere (fun _ _ hp' => nomatch hp') fun _ _ _ hp' => nomatch hp'
    | unready hr => exact elsewhere (fun _ _ hp' => nomatch hp') fun _ _ _ hp' => nomatch hp'
    | @ready run env v hv =>
      refine ⟨fun run' v' hp' => ?_, fun _ _ _ hp' => nomatch hp'⟩
      cases hp'
      intro cp hcp
      have henv := hO.inspected run env rfl cp hcp
      exact ⟨by rw [henv]; rfl, (hTh _ _ hcp).1.offers hT henv hv⟩
    | @resumed run v cp hcp =>
      have hold := h.resuming run v rfl cp hcp
      refine ⟨fun _ _ hp' => (nomatch hp'), fun run' v' inv' hp' => ?_⟩
      cases hp'
      rintro _ ⟨⟩
      exact hold
    | _ => exact .idle rfl
  | _ => exact .idle rfl

theorem World.ReachableWhen.offers (hw : World.ReachableWhen Owned w) (j : WorkerId) :
    OffersKnows w.shared (w.procs j) := by
  refine World.ReachableWhen.worldInvariant (I := fun w => ∀ j, OffersKnows w.shared (w.procs j))
    (fun _ => .idle rfl) ?_ hw j
  intro w i a sh' p' hr ha hI he j
  have hreach : World.Reachable w := hr.reachable
  have hO : Ownership w := World.ReachableWhen.ownership (fun _ _ _ => id) hr
  by_cases hji : j = i
  · subst hji
    change OffersKnows sh' (Function.update w.procs j p' j)
    rw [Function.update_self]
    exact (hI j).acts (hO.knows j) hreach.threads.1 hreach.tasks.1 he
  · change OffersKnows sh' (Function.update w.procs i p' j)
    rw [Function.update_of_ne hji]
    exact (hI j).kept fun t hj => hO.thread_kept hreach he hj hji

/-! ## The two values that are refused -/

/-- A timeout that an interrupt with a deadline is resumed with is not refused. -/
theorem Suspends.timeout_refused (hs : StateFor s (some n)) (h : Suspends s n resumes env)
    (hrec : n.Receives (resumes ++ [.timeout]) value) (hacc : ¬ n.Accepts s value) :
    env.wakeupAt = none := by
  cases h with
  | classify =>
    obtain ⟨rest, ⟨hl, hne⟩ | hl⟩ := hrec
    · cases hl
      exact absurd rfl hne
    · cases hl
  | classifyAgain => rfl
  | draft hc =>
    obtain ⟨rest, ⟨hl, hne⟩ | hl⟩ := hrec
    · cases hl
      exact absurd rfl hne
    · cases hl
  | draftAgain hc => rfl
  | approval hw hd =>
    obtain ⟨rest, hl⟩ := hrec
    cases hl
    exact absurd (.inl rfl) hacc
  | terminal hc hd => rfl

theorem Suspends.refuses_timeout (hs : StateFor s (some n)) (h : Suspends s n resumes env)
    (hw : env.wakeupAt = none) :
    n.Receives (resumes ++ [.timeout]) .timeout ∧ ¬ n.Accepts s .timeout := by
  cases h with
  | classify =>
    rw [Graph.primaryEnvelope, Envelope.wakeupAt] at hw
    have hsome := hs.2
    rw [hw] at hsome
    cases hsome
  | classifyAgain => exact ⟨⟨[], .inr rfl⟩, by simp [Node.Accepts, Graph.isTaskFailed]⟩
  | draft hc =>
    rw [Graph.primaryEnvelope, Envelope.wakeupAt] at hw
    have hsome := hs.2.2
    rw [hw] at hsome
    cases hsome
  | draftAgain hc => exact ⟨⟨[], .inr rfl⟩, by simp [Node.Accepts, Graph.isTaskFailed]⟩
  | approval hwake hd => cases hw
  | terminal hc hd => exact ⟨⟨[], rfl⟩, by simp [Node.Accepts]⟩

theorem Ran.raises {result : NodeResult} (h : Ran s n resumes result)
    (hrec : n.Receives resumes value) (hacc : ¬ n.Accepts s value) : ∃ e, result = .raise e := by
  cases h with
  | suspended hsus => exact absurd hrec (hsus.not_receives value)
  | passed ht hs hno => exact absurd hrec (hno value)
  | accepted hrec' hacc' ht hs =>
    rw [hrec.unique hrec'] at hacc
    exact absurd hacc' hacc
  | refused hrec' hacc' => exact ⟨_, rfl⟩

/-- The interrupt has no deadline and is resumed with a timeout, or it waits for a finalize task and
is resumed with its failure. -/
def Misresumed (inv : Invocation) (payload : Resume) : Prop :=
  ∃ env, inv.checkpoint.interrupt = some env ∧ (payload = .timeout ∧ env.wakeupAt = none ∨
    ∃ error permanent, payload = .taskFailed error permanent ∧
      inv.checkpoint.next = some .execute)

/-- Where a run has one owner at a time, the node that ran last raised exactly if its runner brought
a timeout to an interrupt without a deadline, or the failure of a finalize task. -/
theorem raised_iff_misresumed (hw : World.ReachableWhen Owned w)
    (hinv : (w.procs j).invocation = some inv) {result : NodeResult}
    (hr : inv.result = some result) : (∃ e, result = .raise e) ↔
      ∃ run v, w.procs j = .runner (.invoking run v inv) ∧ inv.offered = some v.payload ∧
        Misresumed inv v.payload := by
  have hreach : World.Reachable w := hw.reachable
  have hsound := (hreach.threads.2 j).of_invocation hinv
  obtain ⟨n, hn, hran⟩ := hsound.result _ hr
  have hs := hsound.checkpoint.state
  rw [hn] at hs
  constructor
  · rintro ⟨e, rfl⟩
    obtain ⟨run, v, hp⟩ := hreach.raised_in_step hinv hr
    have hP := hreach.threads.2 j
    rw [hp] at hP
    cases ho : inv.offered with
    | none =>
      have hnil : inv.resumes = [] := by rw [Invocation.resumes, ho, hsound.plain ho]; rfl
      rw [hnil] at hran
      cases hran with
      | refused hrec hacc => exact absurd hrec (n.not_receives_nil _)
    | some value =>
      obtain rfl := hP.2.1 value ho
      obtain ⟨hsome, hoffers⟩ := (hw.offers j).invoking run v inv hp _ ho
      obtain ⟨env, henv⟩ := Option.isSome_iff_exists.mp hsome
      obtain ⟨n', hn', hsus⟩ := hsound.checkpoint.parked env henv
      cases hn.symm.trans hn'
      have hresumes : inv.resumes = inv.checkpoint.resumes ++ [v.payload] := by
        rw [Invocation.resumes, ho]
        rfl
      rw [hresumes] at hran
      refine ⟨run, v, hp, rfl, env, henv, ?_⟩
      cases hran with
      | @refused value' _ hrec hacc =>
        cases hoffers with
        | accepted hn'' hne hacc' =>
          cases hn.symm.trans hn''
          rw [hrec.unique (hsus.receives hne)] at hacc
          exact absurd hacc' hacc
        | timedOut ht =>
          rw [ht] at hrec
          exact .inl ⟨ht, hsus.timeout_refused hs hrec hacc⟩
        | failed hn'' hf => exact .inr ⟨_, _, hf, hn''⟩
  · rintro ⟨run, v, hp, ho, env, henv, hcase⟩
    obtain ⟨n', hn', hsus⟩ := hsound.checkpoint.parked env henv
    cases hn.symm.trans hn'
    have hresumes : inv.resumes = inv.checkpoint.resumes ++ [v.payload] := by
      rw [Invocation.resumes, ho]
      rfl
    rw [hresumes] at hran
    rcases hcase with ⟨ht, hwake⟩ | ⟨error, permanent, hf, hn''⟩
    · rw [ht] at hran
      obtain ⟨hrec, hacc⟩ := hsus.refuses_timeout hs hwake
      exact hran.raises hrec hacc
    · cases hn.symm.trans hn''
      rw [hf] at hran
      have hne : Resume.taskFailed error permanent ≠ .timeout := by simp
      refine hran.raises (hsus.receives hne) ?_
      simp [Node.Accepts]

/-- The failure of the finalize task is a value the last node of its runner's `ainvoke` raises at. -/
theorem raised_iff_misresumed_finalize : ∃ (w : World) (run : WorkflowRun) (v : ResumeValue)
    (inv : Invocation), World.ReachableWhen Owned w ∧
    w.procs 2 = .runner (.invoking run v inv) ∧ Misresumed inv v.payload := by
  have hrun : (World.initial.runWhen Proc.step Prompt
      (Schedule.finalizeFailed ++ Schedule.step 2 4)).map raising = some true := by
    decide +kernel
  obtain ⟨w, hw, hp⟩ := exists_reachableWhen_of_run hrun
  obtain ⟨run, v, inv, e, hproc, hr⟩ := raising_spec hp
  have hown : World.ReachableWhen Owned w := hw.strengthen fun w i a hreach h =>
    (h.punctual (World.ReachableWhen.idle_above (fun _ _ _ h => h.1) hreach)).1
  have hinv : (w.procs 2).invocation = some inv := by rw [hproc]; rfl
  obtain ⟨run', v', hproc', -, hmis⟩ := (raised_iff_misresumed hown hinv hr).mp ⟨e, rfl⟩
  exact ⟨w, run', v', inv, hown, hproc', hmis⟩

end TicketFlow
