import TicketFlow.Resumption
import TicketFlow.RunTable

/-! # Releasing a run

A step that finds nothing to resume with gives the row back as it claimed it: `save_run` restores
the very `wakeup_at` that made the row claimable. So the row is claimable again, and still the
oldest. A ticket that has ended has nothing pending, and every step that claims it ends so. -/

namespace TicketFlow
open Table Interleaving
set_option autoImplicit false

variable {sh sh' sh₁ : Shared} {i : WorkerId} {p p' : Proc} {a : Action} {t : TicketId}
  {db db₁ : Database} {run r : WorkflowRun} {env : Envelope} {locked : TicketId → Bool} {now : Time}

/-! ## The row a release leaves -/

theorem claimable_releaseRun (h : Db.Claimable now r) : Db.Claimable now (Db.releaseRun now r) :=
  ⟨h.1, fun _ he => (nomatch he), h.2.2⟩

/-- A claim and a save by the same runner write the row of one ticket. -/
theorem workflowRun_saveRun_claimRun (h : Db.claimRun i locked db = (db₁, some run))
    (status : TicketStatus) (wakeupAt : Option Time) :
    updateWhere (·.ticketId = run.ticketId) (Db.saveRunRow status wakeupAt db.now) db₁.workflowRun =
      updateWhere (·.ticketId = run.ticketId) (Db.saveRunRow status wakeupAt db.now)
        db.workflowRun := by
  obtain ⟨r, -, -, -, -, rfl, rfl⟩ := Db.claimRun_eq_some h
  exact updateWhere_updateWhere (p := fun x : WorkflowRun => x.ticketId = r.ticketId)
    (f := Db.leaseRun i db.now) fun _ => Iff.rfl

/-- The table after a claim and its release: the row is back, without a lease. -/
theorem saveRun_claimRun (hn : RunKeys db) (h : Db.claimRun i locked db = (db₁, some run)) :
    Db.saveRun run.ticketId run.status run.wakeupAt none db₁ = { db with
      workflowRun := updateWhere (·.ticketId = run.ticketId) (Db.releaseRun db.now) db.workflowRun } := by
  have hrows := workflowRun_saveRun_claimRun h run.status run.wakeupAt
  obtain ⟨r, hr, -, -, -, rfl, rfl⟩ := Db.claimRun_eq_some h
  have hcongr : updateWhere (·.ticketId = r.ticketId) (Db.saveRunRow r.status r.wakeupAt db.now)
      db.workflowRun = updateWhere (·.ticketId = r.ticketId) (Db.releaseRun db.now) db.workflowRun := by
    refine updateWhere_congr fun r' hr' ht => ?_
    cases eq_of_key hn hr' hr ht
    rfl
  simp only [Db.saveRun]
  exact congrArg (fun rows => { db with workflowRun := rows }) (hrows.trans hcongr)

theorem claimRun_of_first (h : firstBy WorkflowRun.createdAt
    (fun r => Db.Claimable db.now r ∧ locked r.ticketId = false) db.workflowRun = some r) :
    Db.claimRun i locked db = ({ db with
      workflowRun := updateWhere (·.ticketId = r.ticketId) (Db.leaseRun i db.now) db.workflowRun },
      some (Db.leaseRun i db.now r)) := by
  unfold Db.claimRun
  rw [h]

/-- A claim, its release and a second claim by the same runner: it gets the same row. -/
theorem claimRun_again (hn : RunKeys db) (h : Db.claimRun i locked db = (db₁, some run)) :
    Db.claimRun i locked (Db.saveRun run.ticketId run.status run.wakeupAt none db₁) =
      (db₁, some run) := by
  rw [saveRun_claimRun hn h]
  unfold Db.claimRun at h
  split at h
  · cases h
  · rename_i r hr
    cases h
    obtain ⟨hm, hc, hl⟩ := firstBy_mem hr
    -- the release touches one row, and that row was claimable and stays so
    have hfirst : firstBy WorkflowRun.createdAt
        (fun r => Db.Claimable db.now r ∧ locked r.ticketId = false)
        (updateWhere (·.ticketId = r.ticketId) (Db.releaseRun db.now) db.workflowRun) =
        some (Db.releaseRun db.now r) := by
      unfold updateWhere
      rw [firstBy_map, hr, Option.map_some, if_pos rfl]
      · intro x _
        split <;> rfl
      · intro x hx
        split
        · rename_i ht
          cases eq_of_key hn hx hm ht
          exact iff_of_true ⟨claimable_releaseRun hc, hl⟩ ⟨hc, hl⟩
        · exact Iff.rfl
    have hrows : updateWhere (fun x : WorkflowRun => x.ticketId = r.ticketId)
        (Db.leaseRun i db.now)
        (updateWhere (·.ticketId = r.ticketId) (Db.releaseRun db.now) db.workflowRun) =
        updateWhere (·.ticketId = r.ticketId) (Db.leaseRun i db.now) db.workflowRun :=
      updateWhere_updateWhere (p := fun x : WorkflowRun => x.ticketId = r.ticketId) fun _ => Iff.rfl
    refine (claimRun_of_first hfirst).trans ?_
    exact congrArg (fun rows => ({ db with workflowRun := rows }, some (Db.leaseRun i db.now r))) hrows

/-! ## A step that releases -/

/-- What `step` writes when it releases the run. -/
def Runner.release (run : WorkflowRun) (sh : Shared) : Shared :=
  sh.record (Db.saveRun run.ticketId run.status run.wakeupAt none sh.db)
    (.saved run.ticketId run.status none)

/-- There is nothing to resume the run with. -/
def Runner.Idles (run : WorkflowRun) (sh : Shared) : Prop :=
  ∀ env, Runner.pendingEnvelope (sh.checkpoints.get run.ticketId) = some env →
    Runner.resumeForRun env run.wakeupAt sh.db = none

/-- A step that finds nothing to resume with releases the run. -/
theorem Runner.Idles.finishes (h : Runner.Idles run sh) :
    Runner.Finishes (sh, .at (.claimed run)) (Runner.release run sh) (.ok false) := by
  have hrelease : Runner.Finishes (sh, .at (.releasing run)) (Runner.release run sh) (.ok false) :=
    .next .returned
  refine .next ?_
  simp only [Runner.advance]
  cases he : Runner.pendingEnvelope (sh.checkpoints.get run.ticketId) with
  | none => exact hrelease
  | some env =>
    refine .next ?_
    simp only [Runner.advance, h env he]
    exact hrelease

theorem Runner.claim_eq (h : Runner.claim i locked sh = (sh₁, .at (.claimed run))) :
    ∃ db, Db.claimRun i locked sh.db = (db, some run) ∧ sh₁ = sh.record db (.claimed i run.ticketId) := by
  unfold Runner.claim at h
  split at h
  · cases h
  · rename_i db run' hc
    cases h
    exact ⟨db, hc, rfl⟩

theorem Runner.claim_of (h : Db.claimRun i locked sh.db = (db, some run)) :
    Runner.claim i locked sh = (sh.record db (.claimed i run.ticketId), .at (.claimed run)) := by
  unfold Runner.claim
  rw [h]

/-- A released run can be claimed again at once, is too young for the archive, and is the next one
the runner claims. -/
structure Runner.StillClaimable (i : WorkerId) (locked : TicketId → Bool) (run : WorkflowRun)
    (sh : Shared) : Prop where
  row : ∃ r, sh.db.run run.ticketId = some r ∧ r.status = run.status ∧ r.wakeupAt = run.wakeupAt ∧
    Db.Claimable sh.db.now r ∧ ∀ maxAge, ¬ Db.Archivable maxAge sh.db.now r
  again : (Runner.claim i locked sh).2 = .at (.claimed run)

theorem Runner.stillClaimable (hn : RunKeys sh.db)
    (h : Runner.claim i locked sh = (sh₁, .at (.claimed run))) :
    Runner.StillClaimable i locked run (Runner.release run sh₁) := by
  obtain ⟨db, hc, rfl⟩ := Runner.claim_eq h
  obtain ⟨r, hrun, hcl, hleased, -⟩ := run_claimRun hn hc
  have hsave := saveRun_claimRun hn hc
  have hnow : (Db.saveRun run.ticketId run.status run.wakeupAt none db).now = sh.db.now := by
    rw [hsave]
  have hrow : (Db.saveRun run.ticketId run.status run.wakeupAt none db).run run.ticketId =
      some (Db.releaseRun sh.db.now r) := by
    rw [hsave]
    have key : lookup WorkflowRun.ticketId run.ticketId (updateWhere (·.ticketId = run.ticketId)
        (Db.releaseRun sh.db.now) sh.db.workflowRun) = _ := lookup_updateKey fun _ => rfl
    rw [if_pos rfl] at key
    exact key.trans (congrArg _ hrun)
  constructor
  · refine ⟨_, hrow, by rw [hleased]; rfl, by rw [hleased]; rfl, ?_, fun maxAge => ?_⟩
    · change Db.Claimable (Db.saveRun run.ticketId run.status run.wakeupAt none db).now _
      rw [hnow]
      exact claimable_releaseRun hcl
    · change ¬ Db.Archivable maxAge (Db.saveRun run.ticketId run.status run.wakeupAt none db).now _
      rw [hnow]
      rintro ⟨-, hlt⟩
      exact absurd hlt (Nat.not_lt_of_le (Nat.le_add_right _ _))
  · have hagain : Db.claimRun i locked
        (Runner.release run (sh.record db (.claimed i run.ticketId))).db = (db, some run) :=
      claimRun_again hn hc
    exact congrArg Prod.snd (Runner.claim_of hagain)

/-! ## A run held since it was claimable -/

/-- The run was claimable when it was claimed, and time has only passed since. -/
def WorkflowRun.Due (now : Time) (run : WorkflowRun) : Prop :=
  (run.status.terminal = false ∨ run.wakeupAt.isSome) ∧ Db.TimerDue now run

theorem WorkflowRun.Due.mono {later : Time} (h : run.Due now) (hle : now ≤ later) : run.Due later :=
  ⟨h.1, fun t ht => (h.2 t ht).trans hle⟩

theorem WorkflowRun.Due.claimable (h : run.Due now) :
    Db.Claimable now (Db.saveRunRow run.status run.wakeupAt now r) :=
  ⟨h.1.imp_right fun hw => ⟨hw, h.2⟩, fun _ he => (nomatch he), h.2⟩

/-- In every reachable world ticket ids are unique and a run that is held is due. -/
theorem World.Reachable.held {w : World} (hw : World.Reachable w) : RunKeys w.shared.db ∧
    ∀ i run, (w.procs i).holds = some run → run.Due w.shared.db.now := by
  refine World.ReachableWhen.invariant (I := fun sh => RunKeys sh.db)
    (J := fun sh _ p => ∀ run, p.holds = some run → run.Due sh.db.now) List.nodup_nil
    (fun _ _ h => nomatch h) ?_ hw
  intro w i a sh' p' _ _ hI hJ he
  refine ⟨he.runKeys hI, fun run hrun => ?_, fun j _ run hrun => (hJ j run hrun).mono he.now_le⟩
  rcases he.holds hrun with hold | ⟨locked, db, -, -, hcl, rfl⟩
  · exact (hJ i run hold).mono he.now_le
  · obtain ⟨r, -, hc, rfl, -⟩ := run_claimRun hI hcl
    obtain ⟨-, -, -, -, -, -, rfl⟩ := Db.claimRun_eq_some hcl
    have hdue : (Db.leaseRun i w.shared.db.now r).Due w.shared.db.now :=
      ⟨hc.1.imp_right fun hw => hw.1, hc.2.2⟩
    exact hdue

/-- A release leaves the row claimable, whatever happened to it since the claim. -/
theorem claimable_of_releasing {w : World} (hw : World.Reachable w)
    (hp : w.procs i = .runner (.releasing run)) {w' : World} (hn : w.next Proc.step i .advance = some w')
    (hr : w'.shared.db.run run.ticketId = some r) : Db.Claimable w'.shared.db.now r := by
  obtain ⟨sh', p', hs, rfl⟩ := Config.next_eq_some hn
  rw [hp] at hs
  cases hs
  have hrow : (Db.saveRun run.ticketId run.status run.wakeupAt none w.shared.db).run run.ticketId =
      some r := hr
  rw [run_saveRun, if_pos rfl] at hrow
  obtain ⟨r₀, -, rfl⟩ := Option.map_eq_some_iff.mp hrow
  have hdue := (hw.held.2 i run (by rw [hp]; rfl)).claimable (r := r₀)
  exact hdue

/-! ## Finished runs -/

theorem pendingEnvelope_of_ended {c : Checkpoints} {cp : Checkpoint} (hT : ThreadsSound c)
    (hcp : c.get t = some cp) (hend : cp.next = none) : Runner.pendingEnvelope (c.get t) = none := by
  rw [hcp]
  refine Option.eq_none_iff_forall_ne_some.mpr fun env henv => ?_
  obtain ⟨n, hn, -⟩ := (hT t cp hcp).1.parked env henv
  rw [hend] at hn
  cases hn

/-- A step that claims the run of a finished ticket releases it. -/
theorem idles_of_ended {w : World} (hw : World.Reachable w) {cp : Checkpoint}
    (hc : Runner.claim i locked w.shared = (sh₁, .at (.claimed run)))
    (hcp : w.shared.checkpoints.get run.ticketId = some cp) (hend : cp.next = none) :
    Runner.Idles run sh₁ := by
  obtain ⟨db, -, rfl⟩ := Runner.claim_eq hc
  have hnone := pendingEnvelope_of_ended hw.threads.1 hcp hend
  intro env henv
  exact absurd (hnone.symm.trans henv) nofun

/-- Every step that claims the run of a finished ticket leaves it claimable and not archivable, and
the same runner claims it again at once; nor can another process acting meanwhile change that. -/
theorem finished_run_stays_claimable {w : World} (hw : World.Reachable w) :
    (∀ i locked sh₁ run cp, Runner.claim i locked w.shared = (sh₁, .at (.claimed run)) →
      w.shared.checkpoints.get run.ticketId = some cp → cp.next = none →
      ∃ sh', Runner.Finishes (sh₁, .at (.claimed run)) sh' (.ok false) ∧
        Runner.StillClaimable i locked run sh') ∧
    (∀ i run cp, w.procs i = .runner (.claimed run) →
      w.shared.checkpoints.get run.ticketId = some cp → cp.next = none →
      w.next Proc.step i .advance =
        some ⟨w.shared, Function.update w.procs i (.runner (.releasing run))⟩) ∧
    ∀ i run w' r, w.procs i = .runner (.releasing run) → w.next Proc.step i .advance = some w' →
      w'.shared.db.run run.ticketId = some r → Db.Claimable w'.shared.db.now r := by
  refine ⟨fun i locked sh₁ run cp hc hcp hend => ?_, fun i run cp hp hcp hend => ?_,
    fun i run w' r hp hn hr => claimable_of_releasing hw hp hn hr⟩
  · exact ⟨_, (idles_of_ended hw hc hcp hend).finishes, Runner.stillClaimable hw.held.1 hc⟩
  · have hnone := pendingEnvelope_of_ended hw.threads.1 hcp hend
    have hstep : Proc.step w.shared i (.runner (.claimed run)) .advance =
        some (w.shared, .runner (.releasing run)) := by
      simp only [Proc.step, Proc.advance, Runner.advance, hnone, Proc.ofRunner]
    unfold Config.next
    rw [hp, hstep]

/-- Ticket 7 has ended, and the worker's `wake_run` came after the save that ended it. -/
def Schedule.wokenLate : Schedule :=
  Schedule.drafted Schedule.safeDraft 10 ++ [(3, .dequeue .taskQueue Schedule.unlocked)] ++
    Schedule.advance 3 4 ++ Schedule.step 2 7 ++ Schedule.advance 3 1

/-- A runner can claim the run of ticket 7, which has ended. -/
def endedClaim (w : World) : Bool :=
  match (Db.claimRun 2 Schedule.unlocked w.shared.db).2, w.shared.checkpoints.get 7 with
  | some run, some cp => decide (run.ticketId = 7 ∧ cp.next = none)
  | _, _ => false

theorem exists_endedClaim : ∃ w sh₁ run cp, World.Reachable w ∧
    Runner.claim 2 Schedule.unlocked w.shared = (sh₁, .at (.claimed run)) ∧
    w.shared.checkpoints.get run.ticketId = some cp ∧ cp.next = none := by
  have hrun : (World.initial.run Proc.step Schedule.wokenLate).map endedClaim = some true := by
    decide +kernel
  obtain ⟨w, hw, hp⟩ := exists_reachableWhen_of_run hrun
  unfold endedClaim at hp
  split at hp
  · rename_i run cp hc hcp
    obtain ⟨ht, hend⟩ := of_decide_eq_true hp
    have hclaim : Db.claimRun 2 Schedule.unlocked w.shared.db =
        ((Db.claimRun 2 Schedule.unlocked w.shared.db).1, some run) := Prod.ext rfl hc
    exact ⟨w, _, run, cp, hw, Runner.claim_of hclaim, ht ▸ hcp, hend⟩
  · cases hp

theorem finished_run_stays_claimable_woken : ∃ sh' run, Runner.StillClaimable 2 Schedule.unlocked run sh' := by
  obtain ⟨w, sh₁, run, cp, hw, hc, hcp, hend⟩ := exists_endedClaim
  obtain ⟨sh', -, hstill⟩ := (finished_run_stays_claimable hw).1 _ _ sh₁ run cp hc hcp hend
  exact ⟨sh', run, hstill⟩

/-- The late wake-up makes a finished run claimable, and no step takes that back. -/
theorem finished_run_reclaimed : ¬ ∀ w, World.Reachable w → ∀ i locked sh₁ run cp,
    Runner.claim i locked w.shared = (sh₁, .at (.claimed run)) →
    w.shared.checkpoints.get run.ticketId = some cp → cp.next = none →
    ∀ sh' advanced, Runner.Finishes (sh₁, .at (.claimed run)) sh' (.ok advanced) →
    ∀ r, sh'.db.run run.ticketId = some r → r.status.terminal = true ∧ r.wakeupAt = none := by
  intro h
  obtain ⟨w, sh₁, run, cp, hw, hc, hcp, hend⟩ := exists_endedClaim
  have hfin := (idles_of_ended hw hc hcp hend).finishes
  obtain ⟨r, hr, -, -, ⟨hclaim, -⟩, -⟩ := (Runner.stillClaimable hw.held.1 hc).row
  obtain ⟨hterm, hnone⟩ := h w hw _ _ sh₁ run cp hc hcp hend _ _ hfin r hr
  rcases hclaim with hno | ⟨hsome, -⟩
  · rw [hterm] at hno
    cases hno
  · rw [hnone] at hsome
    cases hsome

end TicketFlow
