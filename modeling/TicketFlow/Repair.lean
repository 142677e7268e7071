import TicketFlow.Projection
import TicketFlow.Releases

/-! # Repairing a lost save

When a runner dies between `ainvoke` and `save_run`, the row still shows the state before the step.
A later step repairs it only by advancing the graph, since a release writes back the row it claimed;
and the stale `wakeup_at` counts as a due timer, so a step may time out what is not due. -/

namespace TicketFlow
open Table Interleaving
set_option autoImplicit false

/-- The row is what `save_run` writes for a step that ended at the checkpoint. -/
def WorkflowRun.Agrees (r : WorkflowRun) (cp : Checkpoint) : Prop :=
  r.status = cp.values.status ∧ r.wakeupAt = cp.interrupt.bind Envelope.wakeupAt

instance (r : WorkflowRun) (cp : Checkpoint) : Decidable (r.Agrees cp) :=
  inferInstanceAs (Decidable (_ ∧ _))

/-- The row of the ticket is the projection of its checkpoint. -/
def Projected (sh : Shared) (t : TicketId) : Prop :=
  ∃ cp r, sh.checkpoints.get t = some cp ∧ sh.db.run t = some r ∧ r.Agrees cp

/-- What the step from `sh` to `sh'` owes the ticket: its row is the projection of its checkpoint,
and an approval gate that nobody has decided and whose deadline is to come is open and timed. -/
structure Repaired (sh sh' : Shared) (t : TicketId) : Prop where
  projected : Projected sh' t
  gate : ∀ cp d reply, sh.checkpoints.get t = some cp →
    cp.interrupt = some (.approvalRequired t d reply) → sh.db.now < d →
    Runner.resumeValue (.approvalRequired t d reply) sh.db = none →
    ∃ r, sh'.db.run t = some r ∧ r.status = .awaitingApproval ∧ r.wakeupAt = some d

/-- The claimed row agrees with the checkpoint already; or an interrupt is pending, and either what
it waits for has come, or the row has a timer and no approval gate is timed out by it early. -/
def Repairable (db : Database) (run : WorkflowRun) (cp : Checkpoint) : Prop :=
  match cp.interrupt with
  | none => run.Agrees cp
  | some env => (Runner.resumeValue env db).isSome ∨ run.Agrees cp ∨
      run.wakeupAt.isSome ∧ ∀ t d reply, env = .approvalRequired t d reply → d ≤ db.now

variable {sh sh' sh₁ : Shared} {w : World} {i : WorkerId} {t : TicketId} {run : WorkflowRun}
  {v : ResumeValue} {cp : Checkpoint} {env : Envelope} {locked : TicketId → Bool}
  {pc pc' : Runner.Pc} {advanced : Bool}

/-! ## A step that nobody disturbs -/

/-- The runner has a value and is on its way to save what the graph makes of it. -/
def Runner.Pc.Resuming : Runner.Pc → Prop
  | .resuming _ _ | .invoking _ _ _ | .saving _ _ _ => True
  | .claimed _ | .inspected _ _ | .releasing _ => False

/-- What holds inside a step that nobody disturbs: the runner's copy of the checkpoint is the
latest, and so is the state it is about to save. -/
structure Undisturbed (sh : Shared) (pc : Runner.Pc) : Prop where
  keys : RunKeys sh.db
  row : (sh.db.run pc.run.ticketId).isSome
  threads : ThreadsSound sh.checkpoints
  sound : (Proc.runner pc).ThreadSound sh.checkpoints
  invoked : ∀ run v inv, pc = .invoking run v inv →
    sh.checkpoints.get run.ticketId = some inv.checkpoint
  saving : ∀ run v out, pc = .saving run v out → ∃ cp,
    sh.checkpoints.get run.ticketId = some cp ∧ cp.values = out.values ∧
      cp.interrupt = out.interrupt

/-- An action keeps the run, and what the runner knows is still the latest. -/
theorem Undisturbed.advance (h : Undisturbed sh pc) (hadv : Runner.advance pc sh = (sh', .at pc')) :
    pc'.run = pc.run ∧
    (∀ run v inv, pc' = .invoking run v inv →
      sh'.checkpoints.get run.ticketId = some inv.checkpoint) ∧
    (∀ run v out, pc' = .saving run v out → ∃ cp,
      sh'.checkpoints.get run.ticketId = some cp ∧ cp.values = out.values ∧
        cp.interrupt = out.interrupt) := by
  cases pc with
  | claimed run =>
    simp only [Runner.advance] at hadv
    split at hadv <;> cases hadv <;> exact ⟨rfl, fun _ _ _ he => (by cases he), fun _ _ _ he => (by cases he)⟩
  | inspected run env =>
    simp only [Runner.advance] at hadv
    split at hadv <;> cases hadv <;> exact ⟨rfl, fun _ _ _ he => (by cases he), fun _ _ _ he => (by cases he)⟩
  | releasing run => cases hadv
  | resuming run v =>
    simp only [Runner.advance, Invocation.resume] at hadv
    cases hcp : sh.checkpoints.get run.ticketId with
    | none =>
      rw [hcp] at hadv
      cases hadv
    | some cp =>
      rw [hcp] at hadv
      cases hadv
      refine ⟨rfl, ?_, fun _ _ _ he => (by cases he)⟩
      rintro _ _ _ ⟨⟩
      exact hcp
  | saving run v out => cases hadv
  | invoking run v inv =>
    have hcp := h.invoked run v inv rfl
    have ht : inv.checkpoint.threadId = run.ticketId := h.sound.1
    simp only [Runner.advance, Invocation.advance] at hadv
    cases hr : inv.result with
    | none =>
      rw [hr] at hadv
      cases hn : inv.checkpoint.next with
      | none =>
        rw [hn] at hadv
        cases hadv
        refine ⟨rfl, fun _ _ _ he => (by cases he), ?_⟩
        rintro _ _ _ ⟨⟩
        have hpend := pendingEnvelope_of_ended h.threads hcp hn
        rw [hcp] at hpend
        exact ⟨_, hcp, rfl, hpend⟩
      | some n =>
        rw [hn] at hadv
        cases hadv
        refine ⟨rfl, ?_, fun _ _ _ he => (by cases he)⟩
        rintro _ _ _ ⟨⟩
        exact hcp
    | some result =>
      rw [hr] at hadv
      cases result with
      | update values =>
        cases hadv
        refine ⟨rfl, ?_, fun _ _ _ he => (by cases he)⟩
        rintro _ _ _ ⟨⟩
        rw [← ht]
        exact Checkpoints.get_put_self
      | interrupt env =>
        cases hadv
        refine ⟨rfl, fun _ _ _ he => (by cases he), ?_⟩
        rintro _ _ _ ⟨⟩
        have hget : (sh.checkpoints.putWrites inv.checkpoint inv.resumes env).get run.ticketId = _ :=
          Checkpoints.get_putWrites
        rw [hcp, Option.map_some, if_pos ⟨rfl, rfl⟩] at hget
        exact ⟨_, hget, rfl, rfl⟩
      | raise error => cases hadv

theorem Undisturbed.next (h : Undisturbed sh pc) (hadv : Runner.advance pc sh = (sh', .at pc')) :
    Undisturbed sh' pc' ∧ pc'.run = pc.run := by
  have he : Effect sh 0 (.runner pc) .advance _ _ := effect_runner pc
  rw [hadv] at he
  obtain ⟨hrun, hinvoked, hsaving⟩ := h.advance hadv
  refine ⟨⟨he.runKeys h.keys, ?_, h.threads.effect h.sound he, h.sound.acts h.threads he, hinvoked,
    hsaving⟩, hrun⟩
  rw [hrun]
  exact (he.runChange h.keys _).kept (fun _ ha => nomatch ha) h.row

theorem Runner.Pc.Resuming.next (h : pc.Resuming) (hadv : Runner.advance pc sh = (sh', .at pc')) :
    pc'.Resuming := by
  cases pc with
  | claimed run => exact h.elim
  | inspected run env => exact h.elim
  | releasing run => exact h.elim
  | resuming run v =>
    simp only [Runner.advance] at hadv
    split at hadv <;> cases hadv
    trivial
  | invoking run v inv =>
    simp only [Runner.advance] at hadv
    split at hadv <;> cases hadv <;> trivial
  | saving run v out => cases hadv

theorem Runner.Pc.Resuming.returned (h : pc.Resuming)
    (hadv : Runner.advance pc sh = (sh', .returned advanced)) :
    ∃ run v out, pc = .saving run v out ∧ sh' = sh.record
      (Db.saveRun run.ticketId out.values.status (Runner.nextWakeupAt out) v.consumedSignalId sh.db)
      (.saved run.ticketId out.values.status v.consumedSignalId) := by
  cases pc with
  | claimed run => exact h.elim
  | inspected run env => exact h.elim
  | releasing run => exact h.elim
  | resuming run v =>
    simp only [Runner.advance] at hadv
    split at hadv <;> cases hadv
  | invoking run v inv =>
    simp only [Runner.advance] at hadv
    split at hadv <;> cases hadv
  | saving run v out =>
    cases hadv
    exact ⟨run, v, out, rfl, rfl⟩

/-- The timer a step saves is the deadline of the interrupt it ended at. -/
theorem Output.Sound.nextWakeupAt {out : Output} (h : out.Sound t) :
    Runner.nextWakeupAt out = out.interrupt.bind Envelope.wakeupAt := by
  unfold Runner.nextWakeupAt
  cases hi : out.interrupt with
  | some env => rfl
  | none => exact (h.ended hi).1

/-- A step that saves leaves a row that is the projection of its checkpoint. -/
theorem Undisturbed.projected (h : Undisturbed sh pc) (hpc : pc.Resuming)
    (hfin : Runner.Finishes (sh, .at pc) sh' (.ok advanced)) :
    Projected sh' pc.run.ticketId ∧ ThreadsSound sh'.checkpoints := by
  generalize hx : (sh, Runner.Next.at pc) = x at hfin
  generalize hr : (Except.ok advanced : Except GraphError Bool) = r at hfin
  induction hfin generalizing sh pc with
  | @next sh₀ pc₀ sh' r hfin ih =>
    cases hx
    subst hr
    rcases hadv : Runner.advance pc₀ sh₀ with ⟨sh₂, pc₂ | b | error⟩
    · obtain ⟨h₂, hrun⟩ := h.next hadv
      rw [← hrun]
      exact ih h₂ (hpc.next hadv) hadv.symm rfl
    · obtain ⟨run, v, out, rfl, rfl⟩ := hpc.returned hadv
      rw [hadv] at hfin
      cases hfin
      obtain ⟨cp, hcp, hv, hi⟩ := h.saving run v out rfl
      obtain ⟨r, hr⟩ := Option.isSome_iff_exists.mp h.row
      have hr : sh₀.db.run run.ticketId = some r := hr
      have hrow : (Db.saveRun run.ticketId out.values.status (Runner.nextWakeupAt out)
          v.consumedSignalId sh₀.db).run run.ticketId = _ := run_saveRun
      rw [if_pos rfl, hr] at hrow
      refine ⟨⟨cp, _, hcp, hrow, congrArg TicketState.status hv.symm, ?_⟩, h.threads⟩
      rw [hi]
      exact Output.Sound.nextWakeupAt h.sound
    · rw [hadv] at hfin
      cases hfin
  | returned => cases hx
  | stopped => cases hx

/-! ## The claimed row -/

theorem undisturbed_of_claim (hw : World.Reachable w)
    (hc : Runner.claim i locked w.shared = (sh₁, .at (.claimed run))) :
    Undisturbed sh₁ (.claimed run) ∧ run.Due w.shared.db.now := by
  obtain ⟨db, hcl, rfl⟩ := Runner.claim_eq hc
  have hn := hw.held.1
  have he : Effect w.shared i .idle (.claimRun locked) (w.shared.record db (.claimed i run.ticketId))
      (.runner (.claimed run)) := .claimed hcl
  obtain ⟨r, -, hclaim, rfl, hrow⟩ := run_claimRun hn hcl
  have hsome : (db.run (Db.leaseRun i w.shared.db.now r).ticketId).isSome := by
    rw [hrow]
    rfl
  have hdue : (Db.leaseRun i w.shared.db.now r).Due w.shared.db.now :=
    ⟨hclaim.1.imp_right fun hw => hw.1, hclaim.2.2⟩
  exact ⟨⟨he.runKeys hn, hsome, hw.threads.1, trivial, fun _ _ _ he => (nomatch he), fun _ _ _ he => (nomatch he)⟩,
    hdue⟩

theorem claim_frame (hc : Runner.claim i locked sh = (sh₁, .at (.claimed run))) :
    sh₁.checkpoints = sh.checkpoints ∧ ∃ rows, sh₁.db = { sh.db with workflowRun := rows } := by
  obtain ⟨db, hcl, rfl⟩ := Runner.claim_eq hc
  obtain ⟨r, -, -, -, -, -, rfl⟩ := Db.claimRun_eq_some hcl
  exact ⟨rfl, _, rfl⟩

theorem resumeValue_of_claim (hc : Runner.claim i locked sh = (sh₁, .at (.claimed run)))
    (env : Envelope) : Runner.resumeValue env sh₁.db = Runner.resumeValue env sh.db ∧
      sh₁.checkpoints = sh.checkpoints ∧ sh₁.db.now = sh.db.now := by
  obtain ⟨hcps, rows, hdb⟩ := claim_frame hc
  rw [hdb]
  exact ⟨rfl, hcps, rfl⟩

theorem pendingEnvelope_eq_some (h : Runner.pendingEnvelope (sh.checkpoints.get t) = some env) :
    ∃ cp, sh.checkpoints.get t = some cp ∧ cp.interrupt = some env := Option.bind_eq_some_iff.mp h

/-- A run that is ready when it is claimed advances, or its finalize task has failed. -/
theorem finishes_ready (hw : World.Reachable w)
    (hc : Runner.claim i locked w.shared = (sh₁, .at (.claimed run)))
    (henv : Runner.pendingEnvelope (w.shared.checkpoints.get run.ticketId) = some env)
    (hready : (Runner.resumeValue env w.shared.db).isSome) :
    (Unfailed env w.shared.db →
      ∃ sh', Runner.Finishes (sh₁, .at (.claimed run)) sh' (.ok true)) ∧
    (¬ Unfailed env w.shared.db →
      ∃ sh' error, Runner.Finishes (sh₁, .at (.claimed run)) sh' (.error error)) := by
  obtain ⟨cp, hcp, hint⟩ := pendingEnvelope_eq_some henv
  obtain ⟨v, hv⟩ := Option.isSome_iff_exists.mp hready
  obtain ⟨hcps, rows, hdb⟩ := claim_frame hc
  have hTh₁ : ThreadsSound sh₁.checkpoints := hcps ▸ hw.threads.1
  have hT₁ : TasksSound sh₁.db := hdb ▸ hw.tasks.1.runs rows
  have hcp₁ : sh₁.checkpoints.get run.ticketId = some cp := by rw [hcps, hcp]
  have hv₁ : Runner.resumeValue env sh₁.db = some v := (resumeValue_of_claim hc env).1.trans hv
  have hun₁ : Unfailed env sh₁.db ↔ Unfailed env w.shared.db := by
    rw [hdb]
    exact Iff.rfl
  have henv₁ : Runner.pendingEnvelope (sh₁.checkpoints.get run.ticketId) = some env := by
    rw [hcps, henv]
  have hfor : Runner.resumeForRun env run.wakeupAt sh₁.db = some v := by
    rw [Runner.resumeForRun, hv₁]
  have hiff : ∀ {sh' result}, Runner.Finishes (sh₁, .at (.claimed run)) sh' result ↔
      Runner.Finishes (sh₁, .at (.resuming run v)) sh' result :=
    Runner.finishes_resuming_iff henv₁ hfor
  obtain ⟨hok, herr⟩ := resuming_cases hTh₁ hT₁ hcp₁ hint hv₁
  constructor
  · intro hun
    obtain ⟨mid, out, cp', hfin, -⟩ := hok (hun₁.mpr hun)
    exact ⟨_, hiff.mpr hfin⟩
  · intro hun
    obtain ⟨sh', error, hfin⟩ := herr (mt hun₁.mp hun)
    exact ⟨sh', error, hiff.mpr hfin⟩

/-! ## Releasing and advancing -/

/-- A row that agrees with an approval gate is open, and its timer is the deadline. -/
theorem WorkflowRun.Agrees.gate {d : Time} {reply : DraftReply} (h : run.Agrees cp) (hs : cp.Sound)
    (henv : cp.interrupt = some (.approvalRequired t d reply)) :
    run.status = .awaitingApproval ∧ run.wakeupAt = some d := by
  obtain ⟨n, hn, hsus⟩ := hs.parked _ henv
  have hst := hs.state
  rw [hn] at hst
  obtain ⟨hstatus, hwake⟩ := h
  rw [henv] at hwake
  refine ⟨?_, hwake⟩
  generalize cp.resumes = resumes at hsus
  cases hsus with
  | approval hw hd => exact hstatus.trans hst.1

/-- A release repairs nothing: the row agrees afterwards exactly when it did before. -/
theorem repaired_of_idles (hw : World.Reachable w)
    (hc : Runner.claim i locked w.shared = (sh₁, .at (.claimed run)))
    (hcp : w.shared.checkpoints.get run.ticketId = some cp) (hidle : Runner.Idles run sh₁) :
    Repaired w.shared (Runner.release run sh₁) run.ticketId ↔ Repairable w.shared.db run cp := by
  obtain ⟨r, hr, hstatus, hwake, -⟩ := (Runner.stillClaimable hw.held.1 hc).row
  obtain ⟨-, hcps, -⟩ := resumeValue_of_claim hc (.approvalRequired 0 0 Graph.failureDraft)
  have hcp' : (Runner.release run sh₁).checkpoints.get run.ticketId = some cp := by
    change sh₁.checkpoints.get _ = _
    rw [hcps, hcp]
  have hagrees : r.Agrees cp ↔ run.Agrees cp := by
    unfold WorkflowRun.Agrees
    rw [hstatus, hwake]
  -- nothing was ready and no timer was set, so agreement is all that is left of the condition
  have hcond : Repairable w.shared.db run cp ↔ run.Agrees cp := by
    unfold Repairable
    cases henv : cp.interrupt with
    | none => exact Iff.rfl
    | some env =>
      have hno := hidle env (by rw [hcps, hcp]; exact henv)
      obtain ⟨hval, -⟩ := resumeValue_of_claim hc env
      unfold Runner.resumeForRun at hno
      rw [hval] at hno
      split at hno
      · cases hno
      · rename_i hnone
        split at hno
        · cases hno
        · rename_i hwk
          constructor
          · rintro (hs | ha | ⟨hs, -⟩)
            · rw [hnone] at hs
              cases hs
            · exact ha
            · exact absurd hs hwk
          · exact fun ha => .inr (.inl ha)
  rw [hcond]
  constructor
  · rintro ⟨⟨cp₁, r₁, hcp₁, hr₁, ha⟩, -⟩
    cases hcp'.symm.trans hcp₁
    cases hr.symm.trans hr₁
    exact hagrees.mp ha
  · intro ha
    refine ⟨⟨cp, r, hcp', hr, hagrees.mpr ha⟩, ?_⟩
    intro cp₁ d reply hcp₁ henv _ _
    cases hcp.symm.trans hcp₁
    obtain ⟨hst, hwk⟩ := ha.gate (hw.threads.1 _ _ hcp).1 henv
    exact ⟨r, hr, hstatus.trans hst, hwake.trans hwk⟩

/-- A gate that is timed out is left behind: the row is no longer timed by its deadline. -/
theorem timed_out_gate {d : Time} {reply : DraftReply} (hT : ThreadsSound sh.checkpoints)
    (hcp : sh.checkpoints.get run.ticketId = some cp)
    (henv : cp.interrupt = some (.approvalRequired t d reply)) (hv : v.payload = .timeout)
    (hfin : Runner.Finishes (sh, .at (.resuming run v)) sh' (.ok advanced))
    (hT' : ThreadsSound sh'.checkpoints) {cp' : Checkpoint}
    (hcp' : sh'.checkpoints.get run.ticketId = some cp') :
    cp'.interrupt.bind Envelope.wakeupAt = none := by
  obtain ⟨n, hn, hsus⟩ := (hT _ _ hcp).1.parked _ henv
  have hn' : cp.next = some .awaitApproval ∧ cp.resumes = [] := by
    generalize cp.resumes = resumes at hsus
    cases hsus
    exact ⟨hn, rfl⟩
  obtain ⟨hnext, hresumes⟩ := hn'
  have hrec : Node.Receives .awaitApproval (cp.resumes ++ [v.payload]) v.payload := by
    rw [hresumes]
    exact ⟨[], rfl⟩
  obtain ⟨mid, out, cp₁, hfin₁, hcp₁, -, -, hrank, -⟩ :=
    resuming_accepted hT hcp hnext hrec (.inl hv)
  obtain ⟨rfl, -⟩ := hfin.unique hfin₁
  cases hcp'.symm.trans hcp₁
  rw [hnext] at hrank
  cases hi : cp'.interrupt with
  | none => rfl
  | some env =>
    obtain ⟨m, hm, hsus'⟩ := (hT' _ _ hcp').1.parked env hi
    rw [hm] at hrank
    generalize cp'.resumes = resumes at hsus'
    cases hsus' with
    | terminal hc hd => rfl
    | approval hw hd => exact absurd hrank (by decide)
    | classify => exact absurd hrank (by decide)
    | classifyAgain => exact absurd hrank (by decide)
    | draft hc => exact absurd hrank (by decide)
    | draftAgain hc => exact absurd hrank (by decide)

theorem repaired_of_resumes (hw : World.Reachable w)
    (hc : Runner.claim i locked w.shared = (sh₁, .at (.claimed run)))
    (hcp : w.shared.checkpoints.get run.ticketId = some cp) (henv : cp.interrupt = some env)
    (hv : Runner.resumeForRun env run.wakeupAt sh₁.db = some v)
    (hfin : Runner.Finishes (sh₁, .at (.resuming run v)) sh' (.ok advanced)) :
    Repaired w.shared sh' run.ticketId ↔ Repairable w.shared.db run cp := by
  obtain ⟨hU, hdue⟩ := undisturbed_of_claim hw hc
  obtain ⟨hval, hcps, hnow⟩ := resumeValue_of_claim hc env
  have hU' : Undisturbed sh₁ (.resuming run v) :=
    ⟨hU.keys, hU.row, hU.threads, trivial, fun _ _ _ he => (nomatch he), fun _ _ _ he => (nomatch he)⟩
  obtain ⟨hproj, hT'⟩ := hU'.projected trivial hfin
  -- the gate is the only thing a step that saves can fail
  have hcond : Repairable w.shared.db run cp ↔ ((Runner.resumeValue env w.shared.db).isSome ∨
      run.Agrees cp ∨
      run.wakeupAt.isSome ∧ ∀ t d reply, env = .approvalRequired t d reply → d ≤ w.shared.db.now) := by
    unfold Repairable
    rw [henv]
  rw [hcond]
  constructor
  · intro hrep
    unfold Runner.resumeForRun at hv
    rw [hval] at hv
    split at hv
    · rename_i v' hsome
      exact .inl (by rw [hsome]; rfl)
    · rename_i hnone
      split at hv
      · rename_i hwk
        cases hv
        refine .inr (.inr ⟨hwk, ?_⟩)
        rintro u d reply rfl
        by_contra hlt
        have hs := (hw.threads.1 _ _ hcp).1
        have hu : u = run.ticketId := by
          obtain ⟨n, hn, hsus⟩ := hs.parked _ henv
          generalize cp.resumes = resumes at hsus
          cases hsus
          exact hs.ticket.trans (Checkpoints.threadId_of_get hcp)
        subst hu
        obtain ⟨r, hr, -, hwake⟩ := hrep.gate cp d reply hcp henv (Nat.lt_of_not_le hlt) hnone
        obtain ⟨cp', r', hcp', hr', -, hagree⟩ := hproj
        cases hr.symm.trans hr'
        have hcp₁ : sh₁.checkpoints.get run.ticketId = some cp := by rw [hcps, hcp]
        have hout := timed_out_gate hU.threads hcp₁ henv rfl hfin hT' hcp'
        rw [hwake, hout] at hagree
        cases hagree
      · cases hv
  · intro hok
    refine ⟨hproj, fun cp₁ d reply hcp₁ henv₁ hlt hnone => ?_⟩
    cases hcp.symm.trans hcp₁
    cases henv.symm.trans henv₁
    exfalso
    rcases hok with hs | ha | ⟨-, hd⟩
    · rw [hnone] at hs
      cases hs
    · have hwk := (ha.gate (hw.threads.1 _ _ hcp).1 henv).2
      have hle := hdue.2 d (by rw [hwk]; rfl)
      exact absurd hlt (Nat.not_lt_of_le hle)
    · exact absurd hlt (Nat.not_lt_of_le (hd _ d reply rfl))

/-- The step that claims a run and releases or advances it, with nobody disturbing it, leaves the
row the lost save would have left exactly when the run is repairable. -/
theorem lost_save_repaired_iff (hw : World.Reachable w)
    (hc : Runner.claim i locked w.shared = (sh₁, .at (.claimed run)))
    (hcp : w.shared.checkpoints.get run.ticketId = some cp)
    (hfin : Runner.Finishes (sh₁, .at (.claimed run)) sh' (.ok advanced)) :
    Repaired w.shared sh' run.ticketId ↔ Repairable w.shared.db run cp := by
  by_cases hidle : Runner.Idles run sh₁
  · obtain ⟨rfl, -⟩ := hfin.unique hidle.finishes
    exact repaired_of_idles hw hc hcp hidle
  · simp only [Runner.Idles, not_forall] at hidle
    obtain ⟨env, henv, hv⟩ := hidle
    obtain ⟨-, hcps, -⟩ := resumeValue_of_claim hc env
    obtain ⟨v, hv⟩ := Option.ne_none_iff_exists'.mp hv
    have henv' : cp.interrupt = some env := by
      rw [hcps, hcp] at henv
      exact henv
    exact repaired_of_resumes hw hc hcp henv' hv ((Runner.finishes_resuming_iff henv hv).mp hfin)

/-! ## A runner that dies before its save -/

/-- Ticket 7 has ended, and the runner that ended it has not saved yet. -/
def Schedule.unsaved : Schedule :=
  Schedule.drafted Schedule.safeDraft 10 ++ [(3, .dequeue .taskQueue Schedule.unlocked)] ++
    Schedule.advance 3 5 ++ Schedule.step 2 6

/-- The runner of ticket 7 dies before its save, and its lease runs out. -/
def Schedule.lapse : Schedule := [(2, .crash), (0, .tick (seconds 31))]

/-- A runner can claim the run of ticket 7, whose row does not show the end of its graph. -/
def staleClaim (w : World) : Bool :=
  match (Db.claimRun 2 Schedule.unlocked w.shared.db).2, w.shared.checkpoints.get 7 with
  | some run, some cp => decide (run.ticketId = 7 ∧ cp.next = none ∧ ¬ run.Agrees cp)
  | _, _ => false

/-- The process is about to save the run of ticket 7. -/
def savesSeven : Proc → Bool
  | .runner (.saving run _ _) => decide (run.ticketId = 7)
  | _ => false

/-- A run that goes on from a world where the save of ticket 7 is still to come. -/
theorem exists_lostSave : ∃ w₀ w₁ w sh₁ run cp, World.Reachable w₀ ∧
    savesSeven (w₀.procs 2) = true ∧ w₀.next Proc.step 2 .crash = some w₁ ∧
    w₁.next Proc.step 0 (.tick (seconds 31)) = some w ∧
    Runner.claim 2 Schedule.unlocked w.shared = (sh₁, .at (.claimed run)) ∧ run.ticketId = 7 ∧
    w.shared.checkpoints.get run.ticketId = some cp ∧ cp.next = none ∧ ¬ run.Agrees cp := by
  have hrun : (World.initial.run Proc.step Schedule.unsaved).map (fun w₀ =>
      savesSeven (w₀.procs 2) && ((w₀.run Proc.step Schedule.lapse).map staleClaim).getD false) =
        some true := by decide +kernel
  obtain ⟨w₀, hw₀, hp⟩ := exists_reachableWhen_of_run hrun
  obtain ⟨hsaves, hp⟩ := Bool.and_eq_true_iff.mp hp
  unfold Schedule.lapse at hp
  simp only [Config.run, Config.runWhen, if_true] at hp
  cases h₁ : w₀.next Proc.step 2 .crash with
  | none =>
    rw [h₁] at hp
    cases hp
  | some w₁ =>
    rw [h₁] at hp
    cases h₂ : w₁.next Proc.step 0 (.tick (seconds 31)) with
    | none =>
      simp only [h₂] at hp
      cases hp
    | some w =>
      simp only [h₂, Option.map_some, Option.getD_some] at hp
      unfold staleClaim at hp
      split at hp
      · rename_i run cp hc hcp
        obtain ⟨ht, hend, hno⟩ := of_decide_eq_true hp
        have hclaim : Db.claimRun 2 Schedule.unlocked w.shared.db =
            ((Db.claimRun 2 Schedule.unlocked w.shared.db).1, some run) := Prod.ext rfl hc
        exact ⟨w₀, w₁, w, _, run, cp, hw₀, hsaves, h₁, h₂, Runner.claim_of hclaim, ht, ht ▸ hcp,
          hend, hno⟩
      · cases hp

/-- The end of a ticket whose save was lost never shows. -/
theorem lost_save_unrepaired : ¬ ∀ w₀ w₁ w j k elapsed run₀ v out, World.Reachable w₀ →
    w₀.procs j = .runner (.saving run₀ v out) → w₀.next Proc.step j .crash = some w₁ →
    w₁.next Proc.step k (.tick elapsed) = some w → ∀ i locked sh₁ run,
    Runner.claim i locked w.shared = (sh₁, .at (.claimed run)) → run.ticketId = run₀.ticketId →
    ∀ sh' advanced, Runner.Finishes (sh₁, .at (.claimed run)) sh' (.ok advanced) →
    Projected sh' run.ticketId := by
  intro h
  obtain ⟨w₀, w₁, w, sh₁, run, cp, hw₀, hsaves, h₁, h₂, hc, ht, hcp, hend, hno⟩ := exists_lostSave
  have hw : World.Reachable w := .next (.next hw₀ trivial h₁) trivial h₂
  have hidle := idles_of_ended hw hc hcp hend
  unfold savesSeven at hsaves
  split at hsaves
  · rename_i run₀ v out hp
    have ht₀ : run₀.ticketId = 7 := of_decide_eq_true hsaves
    have hproj := h w₀ w₁ w 2 0 _ run₀ v out hw₀ hp h₁ h₂ _ _ sh₁ run hc (ht.trans ht₀.symm) _ _
      hidle.finishes
    obtain ⟨r, hr, hstatus, hwake, -⟩ := (Runner.stillClaimable hw.held.1 hc).row
    obtain ⟨cp', r', hcp', hr', hagree⟩ := hproj
    cases hr.symm.trans hr'
    obtain ⟨-, hcps, -⟩ := resumeValue_of_claim hc (.approvalRequired 0 0 Graph.failureDraft)
    have hcp₁ : sh₁.checkpoints.get run.ticketId = some cp' := hcp'
    rw [hcps, hcp] at hcp₁
    cases hcp₁
    exact hno ⟨hstatus.symm.trans hagree.1, hwake.symm.trans hagree.2⟩
  · cases hsaves

/-- A runner can claim the run of ticket 7, whose stale row hides a result that has come. -/
def readyClaim (w : World) : Bool :=
  match (Db.claimRun 2 Schedule.unlocked w.shared.db).2, w.shared.checkpoints.get 7 with
  | some run, some cp => match cp.interrupt with
    | some env => decide (run.ticketId = 7 ∧ ¬ run.Agrees cp ∧
        (Runner.resumeValue env w.shared.db).isSome = true ∧ Unfailed env w.shared.db)
    | none => false
  | _, _ => false

/-- The save after the classification is lost, but the draft has come: the next step repairs the
row. -/
theorem lost_save_repaired_iff_drafted : ∃ w sh₁ sh' run, World.Reachable w ∧
    Runner.claim 2 Schedule.unlocked w.shared = (sh₁, .at (.claimed run)) ∧
    Runner.Finishes (sh₁, .at (.claimed run)) sh' (.ok true) ∧ Repaired w.shared sh' run.ticketId := by
  have hrun : (World.initial.run Proc.step (Schedule.create ++
      Schedule.work 1 .agentTaskQueue (.classification Schedule.classification) ++
      Schedule.step 2 9 ++ Schedule.lapse ++
      Schedule.work 1 .agentTaskQueue (.draft Schedule.safeDraft))).map readyClaim = some true := by
    decide +kernel
  obtain ⟨w, hw, hp⟩ := exists_reachableWhen_of_run hrun
  have hw : World.Reachable w := hw
  unfold readyClaim at hp
  split at hp
  · rename_i run cp hc hcp
    split at hp
    · rename_i env henv
      obtain ⟨ht, -, hsome, hun⟩ := of_decide_eq_true hp
      have hclaim : Db.claimRun 2 Schedule.unlocked w.shared.db =
          ((Db.claimRun 2 Schedule.unlocked w.shared.db).1, some run) := Prod.ext rfl hc
      have hc := Runner.claim_of hclaim
      rw [← ht] at hcp
      have hpend : Runner.pendingEnvelope (w.shared.checkpoints.get run.ticketId) = some env := by
        rw [hcp]
        exact henv
      obtain ⟨sh', hfin⟩ := (finishes_ready hw hc hpend hsome).1 hun
      have hok : Repairable w.shared.db run cp := by
        unfold Repairable
        rw [henv]
        exact .inl hsome
      exact ⟨w, _, sh', run, hw, hc, hfin, (lost_save_repaired_iff hw hc hcp hfin).mpr hok⟩
    · cases hp
  · cases hp

end TicketFlow
