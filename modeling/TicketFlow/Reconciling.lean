import TicketFlow.Seeding
import TicketFlow.Signals

/-! # Racing the reconciler

`create_ticket` saves three checkpoints before it inserts the run, and `reconcile_orphaned_runs` may
read any of them and insert first. Read at `await_classify` the state projects to the same row; read
at `dispatch_classify` it does not. -/

namespace TicketFlow
open Table Interleaving
set_option autoImplicit false

/-- No runner resumes the ticket and no worker wakes it. Retention, which deletes rows, is not among
the interleaved actions. -/
def Unadvanced (t : TicketId) (w : World) (i : WorkerId) : Action → Prop
  | .advance => (∀ x ∈ (w.procs i).resumes, x.1.ticketId ≠ t) ∧ ∀ u ∈ (w.procs i).wakes, u ≠ t
  | .runRetention _ => False
  | _ => True

/-- The process is about to insert the row of the ticket from its input checkpoint. -/
def Premature (t : TicketId) (w : World) (i : WorkerId) : Prop :=
  ∃ c ∈ (w.procs i).creates, c.1 = t ∧ c.2.status = .received ∧ w.shared.db.run t = none

instance (t : TicketId) (w : World) (i : WorkerId) : Decidable (Premature t w i) :=
  inferInstanceAs (Decidable (∃ c ∈ (w.procs i).creates, _))

/-- Moreover no row is inserted from the input checkpoint. -/
def Harmless (t : TicketId) (w : World) (i : WorkerId) : Action → Prop
  | .advance => Unadvanced t w i .advance ∧ ¬ Premature t w i
  | a => Unadvanced t w i a

instance (t : TicketId) (w : World) (i : WorkerId) : DecidablePred (Unadvanced t w i)
  | .advance => inferInstanceAs (Decidable ((∀ x ∈ (w.procs i).resumes, x.1.ticketId ≠ t) ∧ _))
  | .runRetention _ => isFalse id
  | .tick _ | .crash | .createTicket _ | .submitApproval _ _ | .claimRun _ | .dequeue _ _
  | .activityReturns _ | .activityRaises _ _ | .reclaimExpiredLeases | .reconcileOrphanedRuns =>
    isTrue trivial

instance (t : TicketId) (w : World) (i : WorkerId) : DecidablePred (Harmless t w i)
  | .advance => inferInstanceAs (Decidable (Unadvanced t w i .advance ∧ _))
  | .runRetention _ => isFalse id
  | .tick _ | .crash | .createTicket _ | .submitApproval _ _ | .claimRun _ | .dequeue _ _
  | .activityReturns _ | .activityRaises _ _ | .reclaimExpiredLeases | .reconcileOrphanedRuns =>
    isTrue trivial

theorem Harmless.unadvanced {t : TicketId} {w : World} {i : WorkerId} {a : Action}
    (h : Harmless t w i a) : Unadvanced t w i a := by
  cases a with
  | advance => exact h.1
  | _ => exact h

theorem Unadvanced.unswept {t : TicketId} {w : World} {i : WorkerId} {a : Action}
    (h : Unadvanced t w i a) : Unswept w i a := by
  cases a with
  | runRetention maxAge => exact h
  | _ => trivial

/-- The thread waits for its classification in this state. -/
def Armed (sh : Shared) (t : TicketId) (s : TicketState) : Prop :=
  ∃ cp, sh.checkpoints.get t = some cp ∧ cp.next = some .awaitClassify ∧ cp.values = s

/-- The projection of a thread that waits for its classification. -/
def Matches (sh : Shared) (t : TicketId) (status : TicketStatus) (wakeupAt : Option Time) : Prop :=
  status = .classifying ∧ ∃ s, Armed sh t s ∧ wakeupAt = s.wakeupAt

/-- The ticket has not come further than its classification, and its row says so. -/
structure Seeded (t : TicketId) (sh : Shared) : Prop where
  thread : ∀ cp, sh.checkpoints.get t = some cp → Seeding cp.next
  row : ∀ r, sh.db.run t = some r → Matches sh t r.status r.wakeupAt

/-- What a process that may write the row knows. -/
structure SeededKnows (t : TicketId) (sh : Shared) (p : Proc) : Prop where
  seeded : ∀ out, p = .api (.seeded t out) → Armed sh t out.values
  projecting : ∀ values rest, p = .janitor (.projecting t values rest) →
    values.status = .received ∨ Armed sh t values
  holds : ∀ run, p.holds = some run → run.ticketId = t → Matches sh t run.status run.wakeupAt

variable {sh sh' : Shared} {w : World} {i : WorkerId} {p p' : Proc} {a : Action} {t : TicketId}
  {s : TicketState}

/-! ## The thread while nobody advances it -/

/-- The runner that drives a thread has chosen a value for it. -/
theorem not_driven {run : WorkflowRun} {resume : ResumeValue} {inv : Invocation}
    (hok : Unadvanced t w i .advance) (hP : (w.procs i).ThreadSound w.shared.checkpoints)
    (hp : w.procs i = .runner (.invoking run resume inv)) : inv.checkpoint.threadId ≠ t := by
  have hne := hok.1 (run, resume) (by rw [hp]; rfl)
  rw [hp] at hP
  rw [hP.1]
  exact hne

theorem Armed.effect (h : Armed w.shared t s) (hok : Unadvanced t w i a)
    (hs : ¬ (w.procs i).Sweeping) (hP : (w.procs i).ThreadSound w.shared.checkpoints)
    (hS : SeedsOwned w) (hJ : RowSound w.shared (w.procs i))
    (he : Effect w.shared i (w.procs i) a sh' p') : Armed sh' t s := by
  obtain ⟨cp, hcp, hn, hv⟩ := h
  cases he.threadChange t with
  | same heq => exact ⟨cp, heq.trans hcp, hn, hv⟩
  | created hp ha ht hf hdb hlog hseq heq =>
    obtain ⟨e, hm, hid⟩ := hS.known t cp hcp
    exact absurd hid (hf e hm)
  | put hp ha ht hr hnx hp' hdb hlog hseq heq =>
    rename_i dr inv values next
    subst ha
    cases dr with
    | step run resume => exact absurd ht (not_driven hok hP hp)
    | createTicket =>
      -- the handler stops at the first interrupt
      obtain ⟨hown, -⟩ := (hS.knows i).owned inv hp
      rw [ht, hcp] at hown
      cases hown
      exact absurd hr ((hJ.seeding inv hp).2 hn values)
  | suspended hp ha ht hr hcp₀ hid hp' hdb hlog heq =>
    rename_i dr inv env cp₀
    cases hcp.symm.trans hcp₀
    exact ⟨_, heq, hn, hv⟩
  | deleted hp ha heq =>
    rw [hp] at hs
    exact absurd trivial hs

theorem Matches.effect {status : TicketStatus} {wakeupAt : Option Time}
    (h : Matches w.shared t status wakeupAt) (hok : Unadvanced t w i a)
    (hs : ¬ (w.procs i).Sweeping) (hP : (w.procs i).ThreadSound w.shared.checkpoints)
    (hS : SeedsOwned w) (hJ : RowSound w.shared (w.procs i))
    (he : Effect w.shared i (w.procs i) a sh' p') : Matches sh' t status wakeupAt := by
  obtain ⟨hst, s, harmed, hwk⟩ := h
  exact ⟨hst, s, harmed.effect hok hs hP hS hJ he, hwk⟩

/-- A thread waiting for its classification projects to a row that says so. -/
theorem Armed.matches (h : Armed sh t s) (hT : ThreadsSound sh.checkpoints) :
    Matches sh t s.status s.wakeupAt := by
  obtain ⟨cp, hcp, hn, rfl⟩ := h
  have hst := (hT t cp hcp).1.state
  rw [hn] at hst
  exact ⟨hst.1, _, ⟨cp, hcp, hn, rfl⟩, rfl⟩

/-! ## One action -/

theorem Seeded.thread_next {cp' : Checkpoint} (h : Seeded t w.shared) (hok : Unadvanced t w i a)
    (hP : (w.procs i).ThreadSound w.shared.checkpoints)
    (hJ : RowSound w.shared (w.procs i))
    (he : Effect w.shared i (w.procs i) a sh' p') (hcp' : sh'.checkpoints.get t = some cp') :
    Seeding cp'.next := by
  cases he.threadChange t with
  | same heq => exact h.thread cp' (heq.symm.trans hcp')
  | created hp ha ht hf hdb hlog hseq heq =>
    cases hcp'.symm.trans heq
    exact .inl rfl
  | put hp ha ht hr hnx hp' hdb hlog hseq heq =>
    rename_i dr inv values next
    cases hcp'.symm.trans heq
    subst ha
    cases dr with
    | step run resume => exact absurd ht (not_driven hok hP hp)
    | createTicket =>
      obtain ⟨hd | hawait, hstop⟩ := hJ.seeding inv hp
      · right
        change next = _
        rw [hnx, hd]
        rfl
      · exact absurd hr (hstop hawait values)
  | suspended hp ha ht hr hcp₀ hid hp' hdb hlog heq =>
    rename_i dr inv env cp₀
    cases hcp'.symm.trans heq
    exact h.thread cp₀ hcp₀
  | deleted hp ha heq =>
    rw [heq] at hcp'
    cases hcp'

theorem Seeded.row_next {r' : WorkflowRun} (h : Seeded t w.shared)
    (hk : SeededKnows t w.shared (w.procs i)) (hok : Harmless t w i a)
    (hn : RunKeys w.shared.db) (hT : ThreadsSound w.shared.checkpoints)
    (he : Effect w.shared i (w.procs i) a sh' p') (hr' : sh'.db.run t = some r') :
    Matches w.shared t r'.status r'.wakeupAt := by
  cases he.runChange hn t with
  | same heq => exact h.row r' (heq.symm.trans hr')
  | claimed hp ha hr hc hp' heq hlog =>
    cases hr'.symm.trans heq
    have hold := h.row _ hr
    exact hold
  | saved hsv ht ha hp' heq hlog =>
    rename_i x
    obtain ⟨r, hr, rfl⟩ := Option.map_eq_some_iff.mp (heq.symm.trans hr')
    subst ha
    unfold Proc.saves at hsv
    split at hsv
    · rename_i run hp
      cases hsv
      exact hk.holds run (by rw [hp]; rfl) ht
    · rename_i run resume out hp
      cases hsv
      exact absurd ht (hok.1.1 (run, resume) (by rw [hp]; rfl))
    · cases hsv
  | woken hp ht ha hp' heq hlog =>
    subst ha
    exact absurd ht (hok.1.2 _ (by rw [hp]; rfl))
  | accepted hp ha hr hst heq hlog =>
    obtain ⟨hcl, -⟩ := h.row _ hr
    rw [hst] at hcl
    cases hcl
  | reclaimed hp hr hx hlt heq hlog =>
    cases hr'.symm.trans heq
    have hold := h.row _ hr
    exact hold
  | created hc ha hnone heq hlog =>
    rename_i values
    cases hr'.symm.trans heq
    subst ha
    change Matches _ t values.status values.wakeupAt
    have harmed : Armed w.shared t values := by
      cases hp : w.procs i with
      | api pc =>
        rw [hp] at hc
        cases pc with
        | seeding inv => cases hc
        | seeded u out =>
          cases hc
          exact hk.seeded out hp
      | janitor pc =>
        rw [hp] at hc
        cases pc with
        | projecting u values' rest =>
          cases hc
          rcases hk.projecting values rest hp with hrec | harmed
          · exact absurd ⟨(t, values), by rw [hp]; rfl, rfl, hrec, hnone⟩ hok.2
          · exact harmed
        | _ => cases hc
      | idle =>
        rw [hp] at hc
        cases hc
      | runner pc =>
        rw [hp] at hc
        cases hc
      | worker pc =>
        rw [hp] at hc
        cases hc
    exact harmed.matches hT
  | archived hp ha hr harch heq hlog =>
    rw [heq] at hr'
    cases hr'

theorem SeededKnows.acts (h : Seeded t w.shared) (hk : SeededKnows t w.shared (w.procs i))
    (hok : Unadvanced t w i a) (hs : ¬ (w.procs i).Sweeping) (hn : RunKeys w.shared.db)
    (hT : ThreadsSound w.shared.checkpoints) (hP : (w.procs i).ThreadSound w.shared.checkpoints)
    (hS : SeedsOwned w) (hJ : RowSound w.shared (w.procs i))
    (he : Effect w.shared i (w.procs i) a sh' p') : SeededKnows t sh' p' := by
  have keep : ∀ {s}, Armed w.shared t s → Armed sh' t s := fun harmed =>
    harmed.effect hok hs hP hS hJ he
  refine ⟨fun out hp' => ?_, fun values rest hp' => ?_, fun run hrun ht => ?_⟩
  · generalize hp : w.procs i = p at he
    cases he with
    | tick elapsed => exact keep (hk.seeded out (hp.trans hp'))
    | @ran dr inv n db result hr hnx hrun => cases dr <;> cases hp'
    | @put dr inv values next hr hnx => cases dr <;> cases hp'
    | failed hm hx hf => split at hp' <;> cases hp'
    | @suspended dr inv env hr =>
      cases dr with
      | step run resume => cases hp'
      | createTicket =>
        cases hp'
        obtain ⟨hown, hun⟩ := (hS.knows i).owned inv hp
        rw [hp] at hP
        obtain ⟨n, hnx, hran⟩ := hP.2.result _ hr
        refine keep ⟨inv.checkpoint, hown, ?_, rfl⟩
        rcases hun.1 with hd | hawait
        · -- the first node does not suspend
          rw [hd] at hnx
          cases hnx
          cases hran.interrupt
        · exact hawait
    | quiet hl =>
      cases hl with
      | @ended dr inv hr hnx =>
        cases dr with
        | step run resume => cases hp'
        | createTicket =>
          cases hp'
          obtain ⟨hd | hawait, -⟩ := hJ.seeding inv hp
          · rw [hnx] at hd
            cases hd
          · rw [hnx] at hawait
            cases hawait
      | _ => cases hp'
    | _ => cases hp'
  · generalize hp : w.procs i = p at he
    cases he with
    | tick elapsed => exact (hk.projecting values rest (hp.trans hp')).imp_right keep
    | @ran dr inv n db result hr hnx hrun => cases dr <;> cases hp'
    | @put dr inv values next hr hnx => cases dr <;> cases hp'
    | @suspended dr inv env hr => cases dr <;> cases hp'
    | failed hm hx hf => split at hp' <;> cases hp'
    | quiet hl =>
      cases hl with
      | @ended dr inv hr hnx => cases dr <;> cases hp'
      | @projecting u rest' cp hcp =>
        cases hp'
        rcases h.thread cp hcp with hd | hawait
        · have hst := (hT t cp hcp).1.state
          rw [hd] at hst
          exact .inl hst
        · exact .inr (keep ⟨cp, hcp, hawait, rfl⟩)
      | _ => cases hp'
    | _ => cases hp'
  · refine Matches.effect (w := w) ?_ hok hs hP hS hJ he
    rcases he.holds hrun with hold | ⟨locked, db, -, -, hcl, rfl⟩
    · exact hk.holds run hold ht
    · obtain ⟨r, hr, -, rfl, -⟩ := run_claimRun hn hcl
      cases ht
      have hold := h.row r hr
      exact hold

/-! ## A run -/

theorem seeded {w : World} (hw : World.ReachableWhen (Harmless t) w) :
    Seeded t w.shared ∧ ∀ i, SeededKnows t w.shared (w.procs i) := by
  have hun : ∀ w i a, Harmless t w i a → Unswept w i a := fun w i a h => h.unadvanced.unswept
  refine World.ReachableWhen.worldInvariant
    (I := fun w => Seeded t w.shared ∧ ∀ i, SeededKnows t w.shared (w.procs i)) ?_ ?_ hw
  · exact ⟨⟨fun _ h => (nomatch h), fun _ h => (nomatch h)⟩,
      fun _ => ⟨fun _ h => (nomatch h), fun _ _ h => (nomatch h), fun _ h => nomatch h⟩⟩
  · rintro w i a sh' p' hr hok ⟨hI, hK⟩ he
    obtain ⟨hT, hP⟩ := World.Reachable.threads hr.reachable
    obtain ⟨hR, hJ⟩ := World.ReachableWhen.rows hun hr
    have hS := World.ReachableWhen.seeds hun hr
    have hs := World.ReachableWhen.not_sweeping hun hr i
    have hok' := hok.unadvanced
    refine ⟨⟨fun cp => hI.thread_next hok' (hP i) (hJ i) he, fun r hr' => ?_⟩, fun j => ?_⟩
    · exact (hI.row_next (hK i) hok hR.keys hT he hr').effect hok' hs (hP i) hS (hJ i) he
    · by_cases hj : j = i
      · subst hj
        simpa using (hK j).acts hI hok' hs hR.keys hT (hP j) hS (hJ j) he
      · have hk := hK j
        have hkeep : SeededKnows t sh' (w.procs j) :=
          ⟨fun out hp => (hk.seeded out hp).effect hok' hs (hP i) hS (hJ i) he,
            fun values rest hp => (hk.projecting values rest hp).imp_right fun harmed =>
              harmed.effect hok' hs (hP i) hS (hJ i) he,
            fun run hrun ht => (hk.holds run hrun ht).effect hok' hs (hP i) hS (hJ i) he⟩
        simpa [Function.update_of_ne hj] using hkeep

/-- The row when `create_ticket` has inserted its own or found one. -/
def Shown (sh : Shared) (t : TicketId) : Prop :=
  ∃ cp r, sh.checkpoints.get t = some cp ∧ cp.next = some .awaitClassify ∧ sh.db.run t = some r ∧
    r.status = cp.values.status ∧ r.status = .classifying ∧ r.wakeupAt = cp.values.wakeupAt ∧
    r.wakeupAt.isSome

/-- If the reconciler inserts no row from the input checkpoint, then the row present when
`create_ticket` returns is the projection of the checkpoint, whoever inserted it; and a row inserted
from the input checkpoint is not. -/
theorem racing_reconciler_harmless {w : World} (hw : World.ReachableWhen (Harmless t) w) :
    (∀ i out w', w.procs i = .api (.seeded t out) → w.next Proc.step i .advance = some w' →
      Shown w'.shared t) ∧
    ∀ i a w', w.next Proc.step i a = some w' → Unadvanced t w i a → ¬ Harmless t w i a →
      ¬ Shown w'.shared t := by
  obtain ⟨hI, hK⟩ := seeded hw
  obtain ⟨hT, -⟩ := World.Reachable.threads hw.reachable
  constructor
  · intro i out w' hp hn
    obtain ⟨sh', p', hstep, rfl⟩ := Config.next_eq_some hn
    rw [hp] at hstep
    cases hstep
    obtain ⟨cp, hcp, hnx, hv⟩ := (hK i).seeded out hp
    have hst := (hT t cp hcp).1.state
    rw [hnx] at hst
    have hrow : (Db.createRun t out.values.status out.values.wakeupAt w.shared.db).run t = _ :=
      run_createRun_self
    cases hr : w.shared.db.run t with
    | none =>
      rw [hr] at hrow
      refine ⟨cp, _, hcp, hnx, hrow, ?_, ?_, ?_, ?_⟩
      · rw [hv]
        rfl
      · rw [← hv]
        exact hst.1
      · rw [hv]
        rfl
      · rw [← hv]
        exact hst.2
    | some r =>
      rw [hr] at hrow
      obtain ⟨hcl, s, ⟨cp', hcp', hnx', hv'⟩, hwk⟩ := hI.row r hr
      cases hcp.symm.trans hcp'
      refine ⟨cp, r, hcp, hnx, hrow, hcl.trans hst.1.symm, hcl, ?_, ?_⟩
      · rw [hv', hwk]
      · rw [hwk, ← hv']
        exact hst.2
  · rintro i a w' hn hun hno ⟨cp, r, hcp, hnx, hr, -, hcl, -⟩
    cases a with
    | advance =>
      have hpre : Premature t w i := by
        by_contra hpre
        exact hno ⟨hun, hpre⟩
      obtain ⟨⟨u, values⟩, hc, hu, hrec, hnone⟩ := hpre
      obtain ⟨sh', p', hstep, rfl⟩ := Config.next_eq_some hn
      have hu : u = t := hu
      subst hu
      obtain ⟨hdb, -⟩ := (effect_of_step hstep).creates_row hc
      have hr : sh'.db.run u = some r := hr
      rw [hdb, run_createRun_self, hnone] at hr
      cases hr
      exact absurd (hrec.symm.trans hcl) nofun
    | _ => exact hno hun

/-- The request has seeded the thread and is about to insert the row. -/
def Proc.seeded (t : TicketId) : Proc → Bool
  | .api (.seeded u _) => u = t
  | _ => false

theorem Proc.seeded_spec {p : Proc} {t : TicketId} (h : p.seeded t = true) :
    ∃ out, p = .api (.seeded t out) := by
  unfold Proc.seeded at h
  split at h
  · cases of_decide_eq_true h
    exact ⟨_, rfl⟩
  · cases h

/-- Process 4 reads the parked thread and inserts the row before the request does. -/
theorem racing_reconciler_harmless_outrun : ∃ w out w', World.ReachableWhen (Harmless 7) w ∧
    w.procs 0 = .api (.seeded 7 out) ∧ (w.shared.db.run 7).isSome = true ∧
    w.next Proc.step 0 .advance = some w' ∧ Shown w'.shared 7 := by
  have hrun : (World.initial.runWhen Proc.step (Harmless 7)
      ((0, .createTicket Schedule.ticket) :: Schedule.advance 0 4 ++
        [(4, .reconcileOrphanedRuns), (4, .advance), (4, .advance)])).map
        (fun w => (w.procs 0).seeded 7 && (w.shared.db.run 7).isSome) = some true := by
    decide +kernel
  obtain ⟨w, hw, hp⟩ := exists_reachableWhen_of_run hrun
  obtain ⟨hseeded, hrow⟩ := Bool.and_eq_true_iff.mp hp
  obtain ⟨out, hproc⟩ := Proc.seeded_spec hseeded
  obtain ⟨w', hn⟩ : ∃ w', w.next Proc.step 0 .advance = some w' := by
    unfold Config.next
    rw [hproc]
    exact ⟨_, rfl⟩
  have hshown := (racing_reconciler_harmless hw).1 0 out w' hproc hn
  exact ⟨w, out, w', hw, hproc, hrow, hn, hshown⟩

/-- The reconciler reads the input checkpoint and inserts first: the row says `received` and has no
timer, although the thread is armed. -/
theorem racing_reconciler_disarms : ¬ ∀ t w, World.ReachableWhen (Unadvanced t) w → ∀ i out w',
    w.procs i = .api (.seeded t out) → w.next Proc.step i .advance = some w' →
    Shown w'.shared t := by
  intro h
  have hrun : (World.initial.runWhen Proc.step (Unadvanced 7)
      ([(0, .createTicket Schedule.ticket), (4, .reconcileOrphanedRuns), (4, .advance),
        (4, .advance)] ++ Schedule.advance 0 4)).map (fun w =>
      (w.procs 0).seeded 7 && (w.shared.db.run 7).any (·.status = .received)) = some true := by
    decide +kernel
  obtain ⟨w, hw, hp⟩ := exists_reachableWhen_of_run hrun
  obtain ⟨hseeded, hany⟩ := Bool.and_eq_true_iff.mp hp
  obtain ⟨out, hproc⟩ := Proc.seeded_spec hseeded
  obtain ⟨r, hr, hrec⟩ := (Option.any_eq_true ..).mp hany
  have hn : w.next Proc.step 0 .advance = some ⟨w.shared.commit (Db.createRun 7 out.values.status
      out.values.wakeupAt w.shared.db), Function.update w.procs 0 .idle⟩ := by
    unfold Config.next
    rw [hproc]
    rfl
  obtain ⟨cp, r', -, -, hr', -, hcl, -⟩ := h 7 w hw 0 out _ hproc hn
  have hrow : (Db.createRun 7 out.values.status out.values.wakeupAt w.shared.db).run 7 = some r' :=
    hr'
  rw [run_createRun_self, hr] at hrow
  cases hrow
  exact absurd ((of_decide_eq_true hrec).symm.trans hcl) (by decide)

end TicketFlow
