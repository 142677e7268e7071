import TicketFlow.Archive
import TicketFlow.Results
import TicketFlow.Seeding

/-! # Retention

`archive_terminal_runs` goes by the status of a row and `prune_settled` by the age of a task. A
rejected or escalated run is terminal while its thread still waits for the finalize task, and a task
enqueued long ago may have settled a moment ago. Where a sweep moves no run whose thread shows an
interrupt, and deletes no task of a stage that is not over, every thread that loses its run has come
to its end. -/

namespace TicketFlow
open Table Interleaving
set_option autoImplicit false

/-- The thread has come to its end, or is gone. -/
def Finished (c : Checkpoints) (t : TicketId) : Prop :=
  ∀ cp, c.get t = some cp → cp.next = none

/-- The thread has come to its end, or waits for its finalize task. -/
def Closing (c : Checkpoints) (t : TicketId) : Prop :=
  ∀ cp, c.get t = some cp → cp.next = none ∨ cp.next = some .execute ∧ cp.interrupt.isSome

/-- `status IN ('done', 'failed') AND enqueued_at < now() - max_age`. -/
def Prunable (maxAge now : Time) (r : QueuedTask) : Prop :=
  (r.status = .done ∨ r.status = .failed) ∧ r.enqueuedAt + maxAge < now

instance (maxAge now : Time) : DecidablePred (Prunable maxAge now) :=
  fun r => inferInstanceAs (Decidable (_ ∧ r.enqueuedAt + maxAge < now))

/-- The node that waits for the task. -/
def TaskType.node : TaskType → Node
  | .classify => .awaitClassify
  | .draft => .awaitDraft
  | .finalizeTicket => .execute

/-- The ticket's thread has passed the node that waits for the task, or is gone. -/
def StagePassed (c : Checkpoints) (key : IdempotencyKey) : Prop :=
  ∀ cp ∈ c.get key.ticket, Node.rank cp.next < Node.rank (some key.taskType.node)

instance (c : Checkpoints) (key : IdempotencyKey) : Decidable (StagePassed c key) :=
  inferInstanceAs (Decidable (∀ cp ∈ c.get key.ticket, _))

/-- The age of the `prune_settled` the process is about to commit. -/
def Proc.pruneAge : Proc → Option Time
  | .janitor (.pruningTasks maxAge) => some maxAge
  | _ => none

/-- The threads a sweep has still to delete. -/
def Proc.deletes : Proc → List TicketId
  | .janitor (.deletingThreads ts _) => ts
  | _ => []

/-- A sweep moves no run whose thread shows an interrupt and deletes no task of a stage that is not
over, and nobody overtaken saves. -/
def Retained (w : World) (i : WorkerId) : Action → Prop
  | .advance => SavesLatest w i ∧ ∀ maxAge ∈ (w.procs i).pruneAge, ∀ r ∈ w.shared.db.taskQueue,
      Prunable maxAge w.shared.db.now r → StagePassed w.shared.checkpoints r.idempotencyKey
  | .runRetention maxAge => ∀ r ∈ w.shared.db.workflowRun, Db.Archivable maxAge w.shared.db.now r →
      ∀ cp ∈ w.shared.checkpoints.get r.ticketId, cp.interrupt = none
  | _ => True

instance (w : World) (i : WorkerId) : DecidablePred (Retained w i)
  | .advance => inferInstanceAs (Decidable (SavesLatest w i ∧ _))
  | .runRetention _ => inferInstanceAs (Decidable (∀ r ∈ w.shared.db.workflowRun, _))
  | .tick _ | .crash | .createTicket _ | .submitApproval _ _ | .claimRun _ | .dequeue _ _
  | .activityReturns _ | .activityRaises _ _ | .reclaimExpiredLeases | .reconcileOrphanedRuns =>
    isTrue trivial

/-- Rows and runs at work belong to tickets that have been created. -/
structure OfCreated (sh : Shared) (p : Proc) : Prop where
  holds : ∀ run, p.holds = some run → Created run.ticketId sh.log
  creates : ∀ t values, p.creates = some (t, values) → Created t sh.log
  deletes : ∀ t ∈ p.deletes, Created t sh.log

/-- A terminal row belongs to a thread that is closing, a thread without a row is new or over, and
a ticket without a thread has been archived with its result. -/
structure Kept (sh : Shared) : Prop where
  rows : ∀ t r, sh.db.run t = some r → r.status.terminal = true → Closing sh.checkpoints t
  orphan : ∀ t cp, sh.checkpoints.get t = some cp → sh.db.run t = none →
    Seeding cp.next ∨ cp.next = none
  found : ∀ t, Created t sh.log →
    (sh.checkpoints.get t).isSome ∨ sh.db.Archived t ∧ Stored sh.db t

/-- What a process knows of the thread whose row it holds, saves or inserts, or which it deletes. -/
structure KeptKnows (sh : Shared) (p : Proc) : Prop where
  held : ∀ run, p.holds = some run →
    (sh.db.run run.ticketId).isSome ∨ Finished sh.checkpoints run.ticketId
  terminal : ∀ run, p.holds = some run → run.status.terminal = true →
    Closing sh.checkpoints run.ticketId
  saves : ∀ s, p.saves = some s → s.status.terminal = true → Closing sh.checkpoints s.ticketId
  creates : ∀ t values, p.creates = some (t, values) → values.status.terminal = true →
    Reached sh.checkpoints t .execute
  deletes : ∀ t ∈ p.deletes, Finished sh.checkpoints t ∧ sh.db.Archived t ∧ Stored sh.db t

variable {sh sh' : Shared} {w w' : World} {i : WorkerId} {p p' : Proc} {a : Action} {t : TicketId}
  {n : Node} {s : TicketState} {next : Option Node} {run : WorkflowRun} {r r' : WorkflowRun}

/-! ## Created tickets -/

theorem Effect.creates_thread (h : Effect sh i p a sh' p') (hc : Created t sh'.log) :
    Created t sh.log ∨ (sh'.checkpoints.get t).isSome := by
  obtain ⟨e, hm, hid⟩ := hc
  have other : ∀ {e' : Event}, e'.createdId = none → e ∈ e' :: sh.log → Created t sh.log := by
    intro e' hne hm
    rcases List.mem_cons.mp hm with rfl | hm
    · rw [hne] at hid
      cases hid
    · exact ⟨e, hm, hid⟩
  cases h with
  | @created ticket hf =>
    rcases List.mem_cons.mp hm with rfl | hm
    · cases hid
      right
      have hget : (Invocation.input ticket sh).1.checkpoints.get ticket.id = some _ :=
        Checkpoints.get_put_self
      rw [hget]
      rfl
    · exact .inl ⟨e, hm, hid⟩
  | ran hr hn hrun => exact .inl (other rfl hm)
  | accepted hs => exact .inl (other rfl hm)
  | claimed hs => exact .inl (other rfl hm)
  | released => exact .inl (other rfl hm)
  | saved => exact .inl (other rfl hm)
  | refunded => exact .inl (other rfl hm)
  | replied hs => exact .inl (other rfl hm)
  | recorded => exact .inl (other rfl hm)
  | completed hmem hs => exact .inl (other rfl hm)
  | _ => exact .inl ⟨e, hm, hid⟩

theorem archiveTerminalRuns_moves {db db' : Database} {maxAge : Time} {ts : List TicketId}
    (hn : RunKeys db) (h : Db.archiveTerminalRuns maxAge db = some (db', ts)) :
    t ∈ ts ↔ ∃ r, db.run t = some r ∧ Db.Archivable maxAge db.now r := by
  simp only [Db.archiveTerminalRuns] at h
  split at h
  · cases h
  · cases h
    constructor
    · intro ht
      obtain ⟨r, hr, rfl⟩ := List.mem_map.mp ht
      obtain ⟨hm, harch⟩ := List.mem_filter.mp hr
      exact ⟨r, hn.run_of_mem hm, of_decide_eq_true harch⟩
    · rintro ⟨r, hr, harch⟩
      obtain ⟨hm, ht⟩ := Database.run_eq_some hr
      exact List.mem_map.mpr ⟨r, List.mem_filter.mpr ⟨hm, decide_eq_true harch⟩, ht⟩

theorem archiveTerminalRuns_fresh {db db' : Database} {maxAge : Time} {ts : List TicketId}
    (h : Db.archiveTerminalRuns maxAge db = some (db', ts)) (hr : db.run t = some r)
    (harch : Db.Archivable maxAge db.now r) : ¬ db.Archived t := by
  simp only [Db.archiveTerminalRuns] at h
  split at h
  · cases h
  · rename_i hfresh
    rintro ⟨row, hrow, ht⟩
    obtain ⟨hm, hid⟩ := Database.run_eq_some hr
    exact hfresh ⟨r, List.mem_filter.mpr ⟨hm, decide_eq_true harch⟩, row, hrow, ht.trans hid.symm⟩

/-- A sweep deletes the threads of the runs it has moved. -/
theorem Effect.deletes (h : Effect sh i p a sh' p') (ht : t ∈ p'.deletes) : t ∈ p.deletes ∨
    ∃ maxAge db ts, a = .runRetention maxAge ∧
      Db.archiveTerminalRuns maxAge sh.db = some (db, ts) ∧ sh' = sh.commit db ∧ t ∈ ts := by
  cases h with
  | tick elapsed => exact .inl ht
  | @ran dr inv n db result hr hn hrun => cases dr <;> cases ht
  | @put dr inv values next hr hn => cases dr <;> cases ht
  | @suspended dr inv env hr => cases dr <;> cases ht
  | failed hm hs hf => split at ht <;> cases ht
  | archived hs => exact .inr ⟨_, _, _, rfl, hs, rfl, ht⟩
  | deleted => exact .inl (List.mem_cons_of_mem _ ht)
  | quiet h =>
    cases h with
    | @ended dr inv hr hn => cases dr <;> cases ht
    | _ => cases ht
  | _ => cases ht

theorem World.Reachable.ofCreated (hw : World.Reachable w) :
    (∀ t, (w.shared.db.run t).isSome → Created t w.shared.log) ∧
      ∀ i, OfCreated w.shared (w.procs i) := by
  refine World.ReachableWhen.invariant
    (I := fun sh => ∀ t, (sh.db.run t).isSome → Created t sh.log)
    (J := fun sh _ p => OfCreated sh p) (fun _ h => nomatch h)
    (fun _ => ⟨fun _ h => (nomatch h), fun _ _ h => (nomatch h), fun _ h => nomatch h⟩) ?_ hw
  intro w i a sh' p' hr _ hI hJ he
  have hw : World.Reachable w := hr.reachable
  have hmono : ∀ {t}, Created t w.shared.log → Created t sh'.log := fun h => h.mono he.log_suffix
  refine ⟨fun t hsome => ?_, ⟨fun run hold => ?_, fun t values hc => ?_, fun t ht => ?_⟩, fun j _ =>
    ⟨fun run h => hmono ((hJ j).holds run h), fun t values h => hmono ((hJ j).creates t values h),
      fun t h => hmono ((hJ j).deletes t h)⟩⟩
  · cases he.runChange hw.held.1 t with
    | same heq => exact hmono (hI t (heq ▸ hsome))
    | claimed hp ha hr₀ hc hp' heq hlog => exact hmono (hI t (by rw [hr₀]; rfl))
    | saved hs ht ha hp' heq hlog => exact hmono (hI t (by rwa [heq, Option.isSome_map] at hsome))
    | woken hp ht ha hp' heq hlog => exact hmono (hI t (by rwa [heq, Option.isSome_map] at hsome))
    | accepted hp ha hr₀ hst heq hlog => exact hmono (hI t (by rw [hr₀]; rfl))
    | reclaimed hp hr₀ hx hlt heq hlog => exact hmono (hI t (by rw [hr₀]; rfl))
    | created hc ha hnone heq hlog => exact hmono ((hJ i).creates t _ hc)
    | archived hp ha hr₀ harch heq hlog =>
      rw [heq] at hsome
      cases hsome
  · rcases he.holds hold with hold | ⟨locked, db, -, -, hcl, -⟩
    · exact hmono ((hJ i).holds run hold)
    · obtain ⟨r, hrun, -⟩ := run_claimRun hw.held.1 hcl
      exact hmono (hI _ (by rw [hrun]; rfl))
  · rcases he.creates hc with hold | ⟨inv, hp, ht⟩ | hsome
    · exact hmono ((hJ i).creates t values hold)
    · refine hmono (hw.created.2 i t ?_)
      rw [hp]
      exact ht
    · exact hmono (hw.created.1 t hsome)
  · rcases he.deletes ht with hold | ⟨maxAge, db, ts, -, hs, -, hm⟩
    · exact hmono ((hJ i).deletes t hold)
    · obtain ⟨r, hrun, -⟩ := (archiveTerminalRuns_moves hw.held.1 hs).mp hm
      exact hmono (hI t (by rw [hrun]; rfl))

theorem OfCreated.saves {s : Save} (h : OfCreated sh p) (hs : p.saves = some s) :
    Created s.ticketId sh.log := by
  unfold Proc.saves at hs
  split at hs
  · cases hs
    exact h.holds _ rfl
  · cases hs
    exact h.holds _ rfl
  · cases hs

/-! ## What stays as it is -/

section Stays
variable (hok : a = .advance → SavesLatest w i)
  (hP : (w.procs i).ThreadSound w.shared.checkpoints) (hc : Created t w.shared.log)
  (he : Effect w.shared i (w.procs i) a sh' p')
include hok hP hc he

theorem Finished.effect (h : Finished w.shared.checkpoints t) : Finished sh'.checkpoints t := by
  intro cp' hcp
  cases he.onward hok hP hcp with
  | stays hcp₀ hid hnext hvals hint =>
    rw [hnext]
    exact h _ hcp₀
  | moves hcp₀ hlt =>
    rw [h _ hcp₀] at hlt
    exact absurd hlt (Nat.not_lt_zero _)
  | starts hf hnext => exact absurd hc hf

theorem Closing.effect (h : Closing w.shared.checkpoints t) : Closing sh'.checkpoints t := by
  intro cp' hcp
  cases he.onward hok hP hcp with
  | stays hcp₀ hid hnext hvals hint =>
    rw [hnext]
    exact (h _ hcp₀).imp_right fun hx => ⟨hx.1, hint hx.2⟩
  | moves hcp₀ hlt =>
    left
    rcases h _ hcp₀ with hend | ⟨hexec, -⟩
    · rw [hend] at hlt
      exact absurd hlt (Nat.not_lt_zero _)
    · rw [hexec] at hlt
      exact Node.rank_eq_zero.mp (Nat.lt_one_iff.mp hlt)
  | starts hf hnext => exact absurd hc hf

end Stays

theorem Finished.closing {c : Checkpoints} (h : Finished c t) : Closing c t :=
  fun cp hcp => .inl (h cp hcp)

/-- A thread that is closing and shows no interrupt has come to its end. -/
theorem Closing.finished {c : Checkpoints} (h : Closing c t)
    (hint : ∀ cp ∈ c.get t, cp.interrupt = none) : Finished c t := by
  intro cp hcp
  rcases h cp hcp with hend | ⟨-, hsome⟩
  · exact hend
  · rw [hint cp hcp] at hsome
    cases hsome

theorem Database.Archived.effect (h : sh.db.Archived t) (he : Effect sh i p a sh' p') :
    sh'.db.Archived t := by
  obtain ⟨row, hm, ht⟩ := h
  rcases he.archive with hsame | ⟨maxAge, db, ts, hs, rfl⟩
  · exact ⟨row, hsame ▸ hm, ht⟩
  · have harch : (sh.commit db).db.workflowRunArchive = _ := archiveTerminalRuns_archive hs
    exact ⟨row, harch ▸ List.mem_append_left _ hm, ht⟩

/-! ## Terminal rows -/

/-- A row has the status it had, or one that a `save_run` or a `create_run` has written. -/
theorem RunChange.status (h : RunChange sh i p a sh' p' t) (hr' : sh'.db.run t = some r') :
    (∃ r, sh.db.run t = some r ∧ r'.status = r.status) ∨
    (∃ s, p.saves = some s ∧ s.ticketId = t ∧ r'.status = s.status) ∨
    ∃ values, p.creates = some (t, values) ∧ a = .advance ∧ sh.db.run t = none ∧
      r'.status = values.status := by
  cases h with
  | same heq => exact .inl ⟨r', heq.symm.trans hr', rfl⟩
  | claimed hp ha hr hc hp' heq hlog =>
    cases hr'.symm.trans heq
    exact .inl ⟨_, hr, rfl⟩
  | saved hs ht ha hp' heq hlog =>
    rw [heq] at hr'
    obtain ⟨r, hr, rfl⟩ := Option.map_eq_some_iff.mp hr'
    exact .inr (.inl ⟨_, hs, ht, rfl⟩)
  | woken hp ht ha hp' heq hlog =>
    rw [heq] at hr'
    obtain ⟨r, hr, rfl⟩ := Option.map_eq_some_iff.mp hr'
    exact .inl ⟨r, hr, rfl⟩
  | accepted hp ha hr hwait heq hlog =>
    cases hr'.symm.trans heq
    exact .inl ⟨_, hr, rfl⟩
  | reclaimed hp hr hx hlt heq hlog =>
    cases hr'.symm.trans heq
    exact .inl ⟨_, hr, rfl⟩
  | created hc ha hnone heq hlog =>
    cases hr'.symm.trans heq
    exact .inr (.inr ⟨_, hc, ha, hnone, rfl⟩)
  | archived hp ha hr harch heq hlog =>
    rw [heq] at hr'
    cases hr'

theorem RunChange.moved (h : RunChange sh i p a sh' p' t) (hr : sh.db.run t = some r)
    (hnone : sh'.db.run t = none) :
    ∃ maxAge, a = .runRetention maxAge ∧ Db.Archivable maxAge sh.db.now r := by
  cases h with
  | same heq =>
    rw [heq, hr] at hnone
    cases hnone
  | claimed hp ha hr₀ hc hp' heq hlog =>
    rw [heq] at hnone
    cases hnone
  | saved hs ht ha hp' heq hlog =>
    rw [heq, hr] at hnone
    cases hnone
  | woken hp ht ha hp' heq hlog =>
    rw [heq, hr] at hnone
    cases hnone
  | accepted hp ha hr₀ hwait heq hlog =>
    rw [heq] at hnone
    cases hnone
  | reclaimed hp hr₀ hx hlt heq hlog =>
    rw [heq] at hnone
    cases hnone
  | created hc ha hno heq hlog =>
    rw [heq] at hnone
    cases hnone
  | archived hp ha hr₀ harch heq hlog =>
    cases hr.symm.trans hr₀
    exact ⟨_, ha, harch⟩

/-- A terminal status is one of a thread at `execute` or at its end. -/
theorem StateFor.terminal (h : StateFor s next) (hst : s.status.terminal = true) :
    next = none ∨ next = some .execute := by
  have other : ∀ {st : TicketStatus}, s.status = st → st.terminal = false → False := by
    rintro st rfl hf
    rw [hst] at hf
    cases hf
  match next with
  | none => exact .inl rfl
  | some .execute => exact .inr rfl
  | some .dispatchClassify => exact (other h rfl).elim
  | some .awaitClassify => exact (other h.1 rfl).elim
  | some .dispatchDraft => exact (other h.1 rfl).elim
  | some .awaitDraft => exact (other h.1 rfl).elim
  | some .decideApproval => exact (other h.1 rfl).elim
  | some .prepareApproval => exact (other h.1 rfl).elim
  | some .awaitApproval => exact (other h.1 rfl).elim

/-- The row of a thread that is new is not terminal, so a terminal one is at its end. -/
theorem Seeding.finished {c : Checkpoints} (hreach : Reached c t .execute)
    (h : ∀ cp, c.get t = some cp → Seeding cp.next ∨ cp.next = none) : Finished c t := by
  intro cp hcp
  have hle := hreach cp hcp
  rcases h cp hcp with (hseed | hseed) | hend
  · rw [hseed] at hle
    exact absurd hle (by decide)
  · rw [hseed] at hle
    exact absurd hle (by decide)
  · exact hend

/-! ## One action -/

theorem Kept.finished {maxAge : Time} (hI : Kept w.shared)
    (hok : Retained w i (.runRetention maxAge)) (hr : w.shared.db.run t = some r)
    (harch : Db.Archivable maxAge w.shared.db.now r) : Finished w.shared.checkpoints t := by
  obtain ⟨hm, ht⟩ := Database.run_eq_some hr
  exact (hI.rows t r hr harch.1).finished (ht ▸ hok r hm harch)

theorem Kept.rows_effect (hI : Kept w.shared) (hK : KeptKnows w.shared (w.procs i))
    (hw : World.Reachable w) (hok : a = .advance → SavesLatest w i)
    (he : Effect w.shared i (w.procs i) a sh' p') (hr' : sh'.db.run t = some r')
    (hst : r'.status.terminal = true) : Closing sh'.checkpoints t := by
  have hP := hw.threads.2 i
  obtain ⟨hrows, hprocs⟩ := hw.ofCreated
  rcases (he.runChange hw.held.1 t).status hr' with ⟨r, hr, heq⟩ | ⟨s, hs, ht, heq⟩ |
    ⟨values, hc, ha, hnone, heq⟩
  · exact (hI.rows t r hr (heq ▸ hst)).effect hok hP (hrows t (by rw [hr]; rfl)) he
  · have hclosing := hK.saves s hs (heq ▸ hst)
    subst ht
    exact hclosing.effect hok hP ((hprocs i).saves hs) he
  · have hfin := Seeding.finished (hK.creates t values hc (heq ▸ hst)) fun cp hcp =>
      hI.orphan t cp hcp hnone
    exact (hfin.effect hok hP ((hprocs i).creates t values hc) he).closing

/-- A thread loses its row only when it has come to its end. -/
theorem Kept.orphan_effect {cp' : Checkpoint} (hI : Kept w.shared)
    (hK : KeptKnows w.shared (w.procs i)) (hw : World.Reachable w) (hok : Retained w i a)
    (he : Effect w.shared i (w.procs i) a sh' p') (hcp' : sh'.checkpoints.get t = some cp')
    (hnone : sh'.db.run t = none) : Seeding cp'.next ∨ cp'.next = none := by
  have hP := hw.threads.2 i
  have hsaves : a = .advance → SavesLatest w i := by
    rintro rfl
    exact hok.1
  cases hr : w.shared.db.run t with
  | some r =>
    -- a sweep has just moved the row
    right
    obtain ⟨maxAge, rfl, harch⟩ := (he.runChange hw.held.1 t).moved hr hnone
    have hfin := hI.finished hok hr harch
    exact hfin.effect hsaves hP (hw.ofCreated.1 t (by rw [hr]; rfl)) he cp' hcp'
  | none =>
    cases he.threadChange t with
    | same heq => exact hI.orphan t cp' (heq.symm.trans hcp') hr
    | created hp₀ ha ht hf hdb hlog hseq heq =>
      cases hcp'.symm.trans heq
      exact .inl (.inl rfl)
    | put hp₀ ha ht hres hn hp' hdb hlog hseq heq =>
      rename_i dr inv values next
      cases hcp'.symm.trans heq
      have hinvo : (w.procs i).invocation = some inv := by rw [hp₀]; simp
      cases dr with
      | createTicket =>
        obtain ⟨hseed | hseed, hstop⟩ := hw.seeding i inv hp₀
        · left
          right
          change next = _
          rw [hn, hseed]
          rfl
        · exact absurd hres (hstop hseed values)
      | step run resume =>
        -- a thread at its end has no node that could have run
        exfalso
        have hlatest := hsaves ha inv hinvo (by rw [Invocation.puts, hres])
        obtain ⟨cp, hget, hid⟩ := Option.map_eq_some_iff.mp hlatest
        have hsound := hP.of_invocation hinvo
        obtain ⟨-, hnext⟩ := hsound.copy cp hget hid
        obtain ⟨n, hsome, -⟩ := hsound.result _ hres
        rw [hp₀] at hP
        have hrun : inv.checkpoint.threadId = run.ticketId := hP.1
        rcases hK.held run (by rw [hp₀]; rfl) with hheld | hfin
        · rw [← hrun, ht, hr] at hheld
          cases hheld
        · have hend := hfin cp (hrun ▸ hget)
          rw [hnext, hsome] at hend
          cases hend
    | suspended hp₀ ha ht hres hcp hid hp' hdb hlog heq =>
      rename_i dr inv env cp
      cases hcp'.symm.trans heq
      exact hI.orphan t cp hcp hr
    | deleted hp₀ ha heq =>
      rw [heq] at hcp'
      cases hcp'

theorem Kept.found_effect (hI : Kept w.shared) (hK : KeptKnows w.shared (w.procs i))
    (he : Effect w.shared i (w.procs i) a sh' p') (hc : Created t sh'.log) :
    (sh'.checkpoints.get t).isSome ∨ sh'.db.Archived t ∧ Stored sh'.db t := by
  rcases he.creates_thread hc with hold | hnew
  · cases he.threadChange t with
    | same heq =>
      rw [heq]
      exact (hI.found t hold).imp_right fun h => ⟨h.1.effect he, h.2.effect he⟩
    | created hp₀ ha ht hf hdb hlog hseq heq => exact .inl (by rw [heq]; rfl)
    | put hp₀ ha ht hres hn hp' hdb hlog hseq heq => exact .inl (by rw [heq]; rfl)
    | suspended hp₀ ha ht hres hcp hid hp' hdb hlog heq => exact .inl (by rw [heq]; rfl)
    | deleted hp₀ ha heq =>
      right
      obtain ⟨-, harch, hstored⟩ := hK.deletes t (by rw [hp₀]; exact List.mem_cons_self)
      exact ⟨harch.effect he, hstored.effect he⟩
  · exact .inl hnew

theorem Kept.effect (hI : Kept w.shared) (hK : KeptKnows w.shared (w.procs i))
    (hw : World.Reachable w) (hok : Retained w i a)
    (he : Effect w.shared i (w.procs i) a sh' p') : Kept sh' := by
  have hsaves : a = .advance → SavesLatest w i := by
    rintro rfl
    exact hok.1
  exact ⟨fun t r hr hst => hI.rows_effect hK hw hsaves he hr hst,
    fun t cp hcp hnone => hI.orphan_effect hK hw hok he hcp hnone,
    fun t hc => hI.found_effect hK he hc⟩

/-! ## What a process knows -/

/-- A row that is there stays there until its thread has come to its end. -/
theorem Kept.held_effect (hI : Kept w.shared) (hw : World.Reachable w) (hok : Retained w i a)
    (he : Effect w.shared i (w.procs i) a sh' p') (hc : Created t w.shared.log)
    (h : (w.shared.db.run t).isSome ∨ Finished w.shared.checkpoints t) :
    (sh'.db.run t).isSome ∨ Finished sh'.checkpoints t := by
  have hsaves : a = .advance → SavesLatest w i := by
    rintro rfl
    exact hok.1
  rcases h with hsome | hfin
  · obtain ⟨r, hr⟩ := Option.isSome_iff_exists.mp hsome
    cases hr' : sh'.db.run t with
    | some r' => exact .inl rfl
    | none =>
      right
      obtain ⟨maxAge, rfl, harch⟩ := (he.runChange hw.held.1 t).moved hr hr'
      exact (hI.finished hok hr harch).effect hsaves (hw.threads.2 i) hc he
  · exact .inr (hfin.effect hsaves (hw.threads.2 i) hc he)

theorem KeptKnows.other {q : Proc} (h : KeptKnows w.shared q) (hI : Kept w.shared)
    (hw : World.Reachable w) (hok : Retained w i a) (hq : OfCreated w.shared q)
    (he : Effect w.shared i (w.procs i) a sh' p') : KeptKnows sh' q := by
  have hP := hw.threads.2 i
  have hsaves : a = .advance → SavesLatest w i := by
    rintro rfl
    exact hok.1
  refine ⟨fun run hold => ?_, fun run hold hst => ?_, fun s hs hst => ?_, fun t values hc hst => ?_,
    fun t ht => ?_⟩
  · exact hI.held_effect hw hok he (hq.holds run hold) (h.held run hold)
  · exact (h.terminal run hold hst).effect hsaves hP (hq.holds run hold) he
  · exact (h.saves s hs hst).effect hsaves hP (hq.saves hs) he
  · exact (h.creates t values hc hst).effect hsaves hP (hq.creates t values hc) he
  · obtain ⟨hfin, harch, hstored⟩ := h.deletes t ht
    exact ⟨hfin.effect hsaves hP (hq.deletes t ht) he, harch.effect he, hstored.effect he⟩

theorem KeptKnows.claims {locked : TicketId → Bool} {db : Database} (hI : Kept w.shared)
    (hw : World.Reachable w) (hok : a = .advance → SavesLatest w i)
    (he : Effect w.shared i (w.procs i) a sh' p')
    (hcl : Db.claimRun i locked w.shared.db = (db, some run))
    (hsh : sh' = w.shared.record db (.claimed i run.ticketId)) :
    (sh'.db.run run.ticketId).isSome ∧
      (run.status.terminal = true → Closing sh'.checkpoints run.ticketId) := by
  obtain ⟨r, hr, hc, hrun, hrow⟩ := run_claimRun hw.held.1 hcl
  constructor
  · rw [hsh]
    change (db.run run.ticketId).isSome
    rw [hrow]
    rfl
  · intro hst
    have hclosing := hI.rows run.ticketId r hr (by rw [hrun] at hst; exact hst)
    exact hclosing.effect hok (hw.threads.2 i) (hw.ofCreated.1 _ (by rw [hr]; rfl)) he

/-- A terminal status is saved of a thread that is closing. -/
theorem KeptKnows.savesNext {s : Save} (h : KeptKnows w.shared (w.procs i)) (hB : Behind w)
    (hP : (w.procs i).ThreadSound w.shared.checkpoints)
    (hother : KeptKnows sh' (w.procs i))
    (he : Effect w.shared i (w.procs i) a sh' p') (hs : p'.saves = some s)
    (hst : s.status.terminal = true) : Closing sh'.checkpoints s.ticketId := by
  have hbehind := hB i
  generalize w.procs i = p at *
  cases he with
  | tick elapsed => exact hother.saves s hs hst
  | @ran dr inv n db result hr hn hrun =>
    rw [Proc.saves_driving] at hs
    cases hs
  | @put dr inv values next hr hn =>
    rw [Proc.saves_driving] at hs
    cases hs
  | @suspended dr inv env hr =>
    cases dr with
    | createTicket => cases hs
    | step run resume =>
      cases hs
      have hsound : inv.Sound w.shared.checkpoints := hP.2.2
      obtain ⟨n, hn, -⟩ := hsound.result _ hr
      have hexec : inv.checkpoint.next = some .execute := by
        rcases hsound.checkpoint.state.terminal hst with hend | hexec
        · rw [hend] at hn
          cases hn
        · exact hexec
      intro cp' hcp'
      change (w.shared.checkpoints.putWrites _ _ _).get run.ticketId = _ at hcp'
      rw [← hP.1, Checkpoints.get_putWrites] at hcp'
      obtain ⟨cp, hcp, rfl⟩ := Option.map_eq_some_iff.mp hcp'
      split
      · rename_i hid
        -- the interrupt is written to the latest checkpoint
        obtain ⟨-, hnext⟩ := hsound.copy cp hcp hid.2
        exact .inr ⟨hnext.trans hexec, rfl⟩
      · rename_i hid
        left
        rcases hbehind inv cp rfl hcp with hlatest | hlt
        · exact absurd ⟨Checkpoints.threadId_of_get hcp, hlatest⟩ hid
        · rw [hexec] at hlt
          exact Node.rank_eq_zero.mp (Nat.lt_one_iff.mp hlt)
  | failed hm hset hf => split at hs <;> cases hs
  | quiet hl =>
    cases hl with
    | @ended dr inv hr hn =>
      cases dr with
      | createTicket => cases hs
      | step run resume =>
        cases hs
        have hsound : inv.Sound w.shared.checkpoints := hP.2.2
        intro cp hcp
        left
        change w.shared.checkpoints.get run.ticketId = _ at hcp
        rw [← hP.1] at hcp
        rcases hbehind inv cp rfl hcp with hlatest | hlt
        · obtain ⟨-, hnext⟩ := hsound.copy cp hcp hlatest
          exact hnext.trans hn
        · rw [hn] at hlt
          exact absurd hlt (Nat.not_lt_zero _)
    | unparked hcp =>
      cases hs
      exact h.terminal _ rfl hst
    | unready hr =>
      cases hs
      exact h.terminal _ rfl hst
    | _ => cases hs
  | _ => cases hs

/-- A terminal row is inserted for a thread that has come to `execute`. -/
theorem KeptKnows.createsNext {values : TicketState} (hother : KeptKnows sh' p) (hp : p.Seeds)
    (hT : ThreadsSound sh.checkpoints) (hP : p.ThreadSound sh.checkpoints)
    (he : Effect sh i p a sh' p') (hc : p'.creates = some (t, values))
    (hst : values.status.terminal = true) : Reached sh'.checkpoints t .execute := by
  -- the handler of `create_ticket` inserts a row that is not terminal
  have seeded : ∀ inv, p = .api (.seeding inv) → inv.checkpoint.values.status.terminal = true →
      False := by
    rintro inv rfl hst
    have hfresh := (hp inv rfl).1.status hP.2.checkpoint.state
    rw [hst] at hfresh
    cases hfresh
  cases he with
  | tick elapsed => exact hother.creates t values hc hst
  | @ran dr inv n db result hr hn hrun => cases dr <;> cases hc
  | @put dr inv values next hr hn => cases dr <;> cases hc
  | @suspended dr inv env hr =>
    cases dr with
    | step run resume => cases hc
    | createTicket =>
      cases hc
      exact (seeded inv rfl hst).elim
  | failed hm hs hf => split at hc <;> cases hc
  | quiet hl =>
    cases hl with
    | @ended dr inv hr hn =>
      cases dr with
      | step run resume => cases hc
      | createTicket =>
        cases hc
        exact (seeded inv rfl hst).elim
    | projecting hcp =>
      cases hc
      intro cp' hcp'
      cases hcp.symm.trans hcp'
      rcases (hT t _ hcp).1.state.terminal hst with hend | hexec
      · rw [hend]
        exact Nat.zero_le _
      · rw [hexec]
    | _ => cases hc
  | _ => cases hc

theorem KeptKnows.deletesNext (hI : Kept w.shared) (hw : World.Reachable w) (hok : Retained w i a)
    (hother : KeptKnows sh' (w.procs i)) (he : Effect w.shared i (w.procs i) a sh' p')
    (ht : t ∈ p'.deletes) :
    Finished sh'.checkpoints t ∧ sh'.db.Archived t ∧ Stored sh'.db t := by
  rcases he.deletes ht with hold | ⟨maxAge, db, ts, rfl, hs, hsh, hm⟩
  · exact hother.deletes t hold
  · obtain ⟨r, hr, harch⟩ := (archiveTerminalRuns_moves hw.held.1 hs).mp hm
    have hc := hw.ofCreated.1 t (by rw [hr]; rfl)
    have hfin := hI.finished hok hr harch
    have hsaves : Action.runRetention maxAge = .advance → SavesLatest w i := fun h => nomatch h
    refine ⟨hfin.effect hsaves (hw.threads.2 i) hc he, ?_, ?_⟩
    · rw [hsh]
      exact (archived_iff hw.held.1 hs).mpr (.inr ⟨r, hr, harch⟩)
    · have hstored : Stored w.shared.db t := by
        rcases hI.found t hc with hsome | ⟨-, hstored⟩
        · obtain ⟨cp, hcp⟩ := Option.isSome_iff_exists.mp hsome
          exact hw.results.ended t cp hcp (hfin cp hcp)
        · exact hstored
      exact hstored.effect he

theorem KeptKnows.acts (hI : Kept w.shared) (h : KeptKnows w.shared (w.procs i))
    (hw : World.Reachable w) (hB : Behind w) (hok : Retained w i a)
    (he : Effect w.shared i (w.procs i) a sh' p') : KeptKnows sh' p' := by
  have hP := hw.threads.2 i
  have hsaves : a = .advance → SavesLatest w i := by
    rintro rfl
    exact hok.1
  have hother := h.other hI hw hok (hw.ofCreated.2 i) he
  refine ⟨fun run hold => ?_, fun run hold hst => ?_, fun s hs hst => ?_, fun t values hc hst => ?_,
    fun t ht => ?_⟩
  · rcases he.holds hold with hold | ⟨locked, db, -, -, hcl, hsh⟩
    · exact hother.held run hold
    · exact .inl (KeptKnows.claims hI hw hsaves he hcl hsh).1
  · rcases he.holds hold with hold | ⟨locked, db, -, -, hcl, hsh⟩
    · exact hother.terminal run hold hst
    · exact (KeptKnows.claims hI hw hsaves he hcl hsh).2 hst
  · exact h.savesNext hB hP hother he hs hst
  · exact hother.createsNext (hw.seeding i) hw.threads.1 hP he hc hst
  · exact KeptKnows.deletesNext hI hw hok hother he ht

theorem World.ReachableWhen.kept {ok : World → WorkerId → Action → Prop}
    (hok : ∀ w i a, ok w i a → Retained w i a) (hw : World.ReachableWhen ok w) :
    Kept w.shared ∧ ∀ i, KeptKnows w.shared (w.procs i) := by
  refine hw.invariant (I := Kept) (J := fun sh _ p => KeptKnows sh p) ?_ ?_ ?_
  · exact ⟨fun _ _ h => (nomatch h), fun _ _ h => (nomatch h), fun _ ⟨_, hm, _⟩ => nomatch hm⟩
  · exact fun _ => ⟨fun _ h => (nomatch h), fun _ h => (nomatch h), fun _ h => (nomatch h),
      fun _ _ h => (nomatch h), fun _ h => nomatch h⟩
  · intro w i a sh' p' hr ha hI hK he
    have hw : World.Reachable w := hr.reachable
    have hB : Behind w := World.ReachableWhen.behind (fun w i h => (hok w i _ h).1) hr
    have hkeep := hok w i a ha
    exact ⟨hI.effect (hK i) hw hkeep he, (hK i).acts hI hw hB hkeep he,
      fun j _ => (hK j).other hI hw hkeep (hw.ofCreated.2 j) he⟩

end TicketFlow
