import TicketFlow.Releases

/-! # Checkpoints nobody drives

A runner resumes pending interrupts and nothing else. A checkpoint whose next node has not run yet,
left behind by a process that died between two nodes, shows no interrupt: every step that claims it
releases it, and once no process drives its thread none ever will. -/

namespace TicketFlow
open Table Interleaving
set_option autoImplicit false

/-- The process is inside an `ainvoke` on the thread, or has found it parked and will start one. -/
def Proc.Drives (p : Proc) (t : TicketId) : Prop :=
  match p with
  | .api (.seeding inv) => inv.checkpoint.threadId = t
  | .runner (.inspected run _) | .runner (.resuming run _) | .runner (.invoking run _ _) =>
    run.ticketId = t
  | _ => False

/-- A request has created the ticket. -/
def Created (t : TicketId) (log : List Event) : Prop := ∃ e ∈ log, e.createdId = some t

instance (t : TicketId) (log : List Event) : Decidable (Created t log) :=
  inferInstanceAs (Decidable (∃ e ∈ log, _))

variable {sh sh' : Shared} {w w' : World} {i : WorkerId} {p p' : Proc} {a : Action} {t : TicketId}
  {cp : Checkpoint}

theorem Created.mono {log log' : List Event} (h : Created t log) (hl : log <:+ log') :
    Created t log' :=
  h.imp fun _ he => ⟨hl.subset he.1, he.2⟩

/-! ## Who comes to drive a thread -/

theorem Proc.drives_driving {c : Checkpoints} {dr : Driver} {inv : Invocation}
    (h : (dr.driving inv).ThreadSound c) :
    (dr.driving inv).Drives t ↔ inv.checkpoint.threadId = t := by
  cases dr with
  | createTicket => exact Iff.rfl
  | step run resume =>
    have hrun : inv.checkpoint.threadId = run.ticketId := h.1
    rw [hrun]
    exact Iff.rfl

theorem Proc.not_drives_returned {dr : Driver} {inv : Invocation} {out : Output} :
    ¬ (dr.returned inv out).Drives t := by
  cases dr <;> exact id

/-- A process comes to drive a thread by creating it, or by finding it parked. -/
theorem Effect.drives (h : Effect sh i p a sh' p') (hP : p.ThreadSound sh.checkpoints)
    (hd : p'.Drives t) : p.Drives t ∨ ((∀ e ∈ sh.log, e.createdId ≠ some t) ∧ Created t sh'.log) ∨
      ∃ cp, sh.checkpoints.get t = some cp ∧ cp.interrupt.isSome := by
  cases h with
  | quiet h =>
    cases h with
    | ended hr hn => exact absurd hd Proc.not_drives_returned
    | inspected hcp henv =>
      have ht : _ = t := hd
      exact .inr (.inr ⟨_, ht ▸ hcp, by rw [henv]; rfl⟩)
    | ready hr => exact .inl hd
    | resumed hcp => exact .inl hd
    | _ => exact hd.elim
  | tick elapsed => exact .inl hd
  | created hf =>
    rename_i ticket
    have ht : ticket.id = t := hd
    exact .inr (.inl ⟨ht ▸ hf, .created ticket, List.mem_cons_self, congrArg some ht⟩)
  | @ran dr inv n db result hr hn hrun =>
    left
    cases dr <;> exact hd
  | @put dr inv values next hr hn =>
    left
    cases dr <;> exact hd
  | suspended hr => exact absurd hd Proc.not_drives_returned
  | failed hm hs hf => split at hd <;> exact hd.elim
  | _ => exact hd.elim

/-- A thread exists, and is driven, only once its ticket has been created. -/
theorem World.Reachable.created (hw : World.Reachable w) :
    (∀ t, (w.shared.checkpoints.get t).isSome → Created t w.shared.log) ∧
      ∀ i t, (w.procs i).Drives t → Created t w.shared.log := by
  refine World.ReachableWhen.invariant
    (I := fun sh => ∀ t, (sh.checkpoints.get t).isSome → Created t sh.log)
    (J := fun sh _ p => ∀ t, p.Drives t → Created t sh.log) (fun _ h => nomatch h)
    (fun _ _ h => h.elim) ?_ hw
  intro w i a sh' p' hr _ hI hJ he
  have hP := (World.Reachable.threads hr.reachable).2 i
  refine ⟨fun t hsome => ?_, fun t hd => ?_, fun j _ t hd => (hJ j t hd).mono he.log_suffix⟩
  · cases he.threadChange t with
    | same heq => exact (hI t (heq ▸ hsome)).mono he.log_suffix
    | created hp ha ht hf hdb hlog hseq heq =>
      rename_i ticket
      exact ⟨.created ticket, hlog ▸ List.mem_cons_self, congrArg some ht⟩
    | put hp ha ht hr hn hp' hdb hlog hseq heq =>
      rename_i dr inv values next
      rw [hp] at hP
      have hd : (w.procs i).Drives t := hp ▸ (Proc.drives_driving hP).mpr ht
      exact (hJ i t hd).mono he.log_suffix
    | suspended hp ha ht hr hcp hid hp' hdb hlog heq =>
      exact (hI t (by rw [hcp]; rfl)).mono he.log_suffix
    | deleted hp ha heq =>
      rw [heq] at hsome
      cases hsome
  · rcases he.drives hP hd with hold | ⟨-, hnew⟩ | ⟨cp, hcp, -⟩
    · exact (hJ i t hold).mono he.log_suffix
    · exact hnew
    · exact (hI t (by rw [hcp]; rfl)).mono he.log_suffix

/-! ## A thread left behind -/

/-- The thread is as a dead process left it, or retention has deleted it, and nobody drives it. -/
structure LeftBehind (w : World) (t : TicketId) (cp : Checkpoint) : Prop where
  thread : ∀ cp', w.shared.checkpoints.get t = some cp' → cp' = cp
  undriven : ∀ j, ¬ (w.procs j).Drives t
  created : Created t w.shared.log

theorem LeftBehind.effect (h : LeftBehind w t cp) (hint : cp.interrupt = none)
    (hP : (w.procs i).ThreadSound w.shared.checkpoints)
    (he : Effect w.shared i (w.procs i) a sh' p') :
    LeftBehind ⟨sh', Function.update w.procs i p'⟩ t cp := by
  obtain ⟨e, hm, hid⟩ := h.created
  refine ⟨fun cp' hcp' => ?_, fun j => ?_, h.created.mono he.log_suffix⟩
  · cases he.threadChange t with
    | same heq => exact h.thread cp' (heq.symm.trans hcp')
    | created hp ha ht hf hdb hlog hseq heq => exact absurd hid (hf e hm)
    | put hp ha ht hr hn hp' hdb hlog hseq heq =>
      rw [hp] at hP
      exact absurd (hp ▸ (Proc.drives_driving hP).mpr ht) (h.undriven i)
    | suspended hp ha ht hr hcp hcpid hp' hdb hlog heq =>
      rw [hp] at hP
      exact absurd (hp ▸ (Proc.drives_driving hP).mpr ht) (h.undriven i)
    | deleted hp ha heq =>
      rw [heq] at hcp'
      cases hcp'
  · by_cases hj : j = i
    · subst hj
      simp only [Function.update_self]
      intro hd
      rcases he.drives hP hd with hold | ⟨hf, -⟩ | ⟨cp', hcp', hsome⟩
      · exact h.undriven j hold
      · exact hf e hm hid
      · -- the thread shows no interrupt to resume
        rw [h.thread cp' hcp', hint] at hsome
        cases hsome
    · simpa [Function.update_of_ne hj] using h.undriven j

/-- A thread left behind with no interrupt pending stays as it is, whatever anybody does. -/
theorem LeftBehind.forever (hw : World.Reachable w) (h : LeftBehind w t cp)
    (hint : cp.interrupt = none)
    (hw' : Interleaving.Reachable Proc.step (· = w) w') : LeftBehind w' t cp := by
  refine Interleaving.ReachableWhen.invariant (I := fun w => LeftBehind w t cp) ?_ ?_ hw'
  · rintro c rfl
    exact h
  · intro c i a sh' p' hr _ hc hp
    have hP := (World.Reachable.threads (ReachableWhen.trans hw hr)).2 i
    exact hc.effect hint hP (effect_of_step hp)

/-- With no interrupt pending a step that claims the run releases it. -/
theorem idles_of_unparked {locked : TicketId → Bool} {sh₁ : Shared} {run : WorkflowRun}
    (hc : Runner.claim i locked sh = (sh₁, .at (.claimed run)))
    (hcp : sh.checkpoints.get run.ticketId = some cp) (hint : cp.interrupt = none) :
    Runner.Idles run sh₁ := by
  obtain ⟨db, -, rfl⟩ := Runner.claim_eq hc
  intro env henv
  have hnone : Runner.pendingEnvelope (sh.checkpoints.get run.ticketId) = none := by
    rw [hcp]
    exact hint
  exact absurd (hnone.symm.trans henv) nofun

/-- A checkpoint with no interrupt pending is never continued by a step: each one that claims its
run releases it as it was, and once nobody drives the thread it stays as it is for good. -/
theorem unparked_never_redriven (hw : World.Reachable w)
    (hcp : w.shared.checkpoints.get t = some cp) (hint : cp.interrupt = none) :
    (∀ i locked sh₁ run, Runner.claim i locked w.shared = (sh₁, .at (.claimed run)) →
      run.ticketId = t →
      Runner.Finishes (sh₁, .at (.claimed run)) (Runner.release run sh₁) (.ok false) ∧
        Runner.StillClaimable i locked run (Runner.release run sh₁)) ∧
    ((∀ j, ¬ (w.procs j).Drives t) → ∀ w', Interleaving.Reachable Proc.step (· = w) w' →
      (∀ cp', w'.shared.checkpoints.get t = some cp' → cp' = cp) ∧
        ∀ j, ¬ (w'.procs j).Drives t) := by
  constructor
  · rintro i locked sh₁ run hc rfl
    exact ⟨(idles_of_unparked hc hcp hint).finishes, Runner.stillClaimable hw.held.1 hc⟩
  · intro hnone w' hw'
    have hleft : LeftBehind w t cp := by
      refine ⟨fun cp' hcp' => ?_, hnone, hw.created.1 t (by rw [hcp]; rfl)⟩
      exact Option.some.inj (hcp'.symm.trans hcp)
    have hforever := hleft.forever hw hint hw'
    exact ⟨hforever.thread, hforever.undriven⟩

/-- The API process dies after the first checkpoint, and the reconciler inserts the run. -/
def Schedule.abandoned : Schedule :=
  [(0, .createTicket Schedule.ticket), (0, .crash), (4, .reconcileOrphanedRuns)] ++
    Schedule.advance 4 2

/-- A runner can claim the run of ticket 7, whose next node has not run. -/
def unparkedClaim (w : World) : Bool :=
  match (Db.claimRun 2 Schedule.unlocked w.shared.db).2, w.shared.checkpoints.get 7 with
  | some run, some cp => decide (run.ticketId = 7 ∧ cp.next ≠ none ∧ cp.interrupt = none)
  | _, _ => false

theorem exists_unparkedClaim : ∃ w sh₁ run cp, World.Reachable w ∧ (∀ j, ¬ (w.procs j).Drives 7) ∧
    Runner.claim 2 Schedule.unlocked w.shared = (sh₁, .at (.claimed run)) ∧ run.ticketId = 7 ∧
    w.shared.checkpoints.get 7 = some cp ∧ cp.next ≠ none ∧ cp.interrupt = none := by
  have hrun : (World.initial.run Proc.step Schedule.abandoned).map (fun w =>
      unparkedClaim w && decide (w.procs 0 = .idle) &&
        decide (w.procs 4 = .janitor (.reconciling []))) = some true := by decide +kernel
  cases hr : World.initial.run Proc.step Schedule.abandoned with
  | none =>
    rw [hr] at hrun
    cases hrun
  | some w =>
    rw [hr] at hrun
    simp only [Option.map_some, Option.some.injEq, Bool.and_eq_true, decide_eq_true_eq] at hrun
    obtain ⟨⟨hp, h0⟩, h4⟩ := hrun
    have hw : World.Reachable w := Config.runWhen_reachable (.init rfl) hr
    have hidle : ∀ j, ¬ (w.procs j).Drives 7 := by
      intro j
      by_cases hj0 : j = 0
      · rw [hj0, h0]
        exact id
      · by_cases hj4 : j = 4
        · rw [hj4, h4]
          exact id
        · have hj : j ∉ Schedule.abandoned.map Prod.fst := by
            simp [Schedule.abandoned, Schedule.advance, hj0, hj4]
          rw [Config.runWhen_procs hr hj]
          exact id
    unfold unparkedClaim at hp
    split at hp
    · rename_i run cp hc hcp
      obtain ⟨ht, hnext, hint⟩ := of_decide_eq_true hp
      have hclaim : Db.claimRun 2 Schedule.unlocked w.shared.db =
          ((Db.claimRun 2 Schedule.unlocked w.shared.db).1, some run) := Prod.ext rfl hc
      exact ⟨w, _, run, cp, hw, hidle, Runner.claim_of hclaim, ht, hcp, hnext, hint⟩
    · cases hp

theorem unparked_never_redriven_abandoned : ∃ w cp, World.Reachable w ∧ cp.next ≠ none ∧
    ∀ w', Interleaving.Reachable Proc.step (· = w) w' →
      ∀ cp', w'.shared.checkpoints.get 7 = some cp' → cp' = cp := by
  obtain ⟨w, sh₁, run, cp, hw, hidle, -, -, hcp, hnext, hint⟩ := exists_unparkedClaim
  have hleft := (unparked_never_redriven hw hcp hint).2 hidle
  exact ⟨w, cp, hw, hnext, fun w' hw' => (hleft w' hw').1⟩

/-- The seeded thread of a dead request is claimed and released, not continued. -/
theorem abandoned_thread_released : ¬ ∀ w, World.Reachable w → ∀ t cp,
    w.shared.checkpoints.get t = some cp → cp.next ≠ none → cp.interrupt = none →
    (∀ j, ¬ (w.procs j).Drives t) →
    ∀ i locked sh₁ run, Runner.claim i locked w.shared = (sh₁, .at (.claimed run)) →
      run.ticketId = t → ∃ sh', Runner.Finishes (sh₁, .at (.claimed run)) sh' (.ok true) := by
  intro h
  obtain ⟨w, sh₁, run, cp, hw, hidle, hc, ht, hcp, hnext, hint⟩ := exists_unparkedClaim
  obtain ⟨sh', hfin⟩ := h w hw 7 cp hcp hnext hint hidle _ _ sh₁ run hc ht
  have hidles := idles_of_unparked hc (ht ▸ hcp) hint
  cases (hfin.unique hidles.finishes).2

end TicketFlow
