import TicketFlow.RunTable

/-! # The archive

`archive_terminal_runs` moves a row in one statement, and the checkpoint thread it leaves behind
looks like one that a crash orphaned. A row inserted for it is what makes the next sweep that finds
it terminal fail on the archive's primary key. -/

namespace TicketFlow
open Table Interleaving
set_option autoImplicit false

/-- The ticket has a row in `workflow_run_archive`. -/
def Database.Archived (db : Database) (t : TicketId) : Prop :=
  ∃ a ∈ db.workflowRunArchive, a.run.ticketId = t

instance (db : Database) (t : TicketId) : Decidable (db.Archived t) :=
  inferInstanceAs (Decidable (∃ a ∈ db.workflowRunArchive, _))

/-- No `create_run` is for a ticket that is in the archive by then. -/
def Unrevived (w : World) (i : WorkerId) : Action → Prop
  | .advance => ∀ c ∈ (w.procs i).creates, ¬ w.shared.db.Archived c.1
  | _ => True

instance (w : World) (i : WorkerId) : DecidablePred (Unrevived w i)
  | .advance => inferInstanceAs (Decidable (∀ c ∈ (w.procs i).creates, _))
  | .tick _ | .crash | .createTicket _ | .submitApproval _ _ | .claimRun _ | .dequeue _ _
  | .activityReturns _ | .activityRaises _ _ | .reclaimExpiredLeases | .reconcileOrphanedRuns
  | .runRetention _ => isTrue trivial

/-- A ticket is live or archived, and archived once. -/
structure ArchiveSound (db : Database) : Prop where
  keys : RunKeys db
  apart : ∀ t, (db.run t).isSome → ¬ db.Archived t
  once : (db.workflowRunArchive.map fun a => a.run.ticketId).Nodup

variable {sh sh' : Shared} {i : WorkerId} {p p' : Proc} {a : Action} {t : TicketId} {db db' : Database}
  {maxAge : Time} {ts : List TicketId}

/-! ## What a sweep moves -/

theorem archiveTerminalRuns_archive (h : Db.archiveTerminalRuns maxAge db = some (db', ts)) :
    db'.workflowRunArchive = db.workflowRunArchive ++
      (db.workflowRun.filter (Db.Archivable maxAge db.now)).map (⟨·, db.now⟩) := by
  simp only [Db.archiveTerminalRuns] at h
  split at h
  · cases h
  · cases h
    rfl

/-- The archive after a sweep: what was there, and the rows it moved. -/
theorem archived_iff (hn : RunKeys db) (h : Db.archiveTerminalRuns maxAge db = some (db', ts)) :
    db'.Archived t ↔
      db.Archived t ∨ ∃ r, db.run t = some r ∧ Db.Archivable maxAge db.now r := by
  unfold Database.Archived
  rw [archiveTerminalRuns_archive h]
  constructor
  · rintro ⟨a, ha, rfl⟩
    rcases List.mem_append.mp ha with ha | ha
    · exact .inl ⟨a, ha, rfl⟩
    · obtain ⟨r, hr, rfl⟩ := List.mem_map.mp ha
      obtain ⟨hm, harch⟩ := List.mem_filter.mp hr
      exact .inr ⟨r, hn.run_of_mem hm, of_decide_eq_true harch⟩
  · rintro (⟨a, ha, ht⟩ | ⟨r, hr, harch⟩)
    · exact ⟨a, List.mem_append_left _ ha, ht⟩
    · obtain ⟨hm, ht⟩ := Database.run_eq_some hr
      refine ⟨⟨r, db.now⟩, List.mem_append_right _ (List.mem_map.mpr ⟨r, ?_, rfl⟩), ht⟩
      exact List.mem_filter.mpr ⟨hm, decide_eq_true harch⟩

theorem Effect.archive (h : Effect sh i p a sh' p') :
    sh'.db.workflowRunArchive = sh.db.workflowRunArchive ∨
      ∃ maxAge db ts, Db.archiveTerminalRuns maxAge sh.db = some (db, ts) ∧ sh' = sh.commit db := by
  cases h with
  | ran hr hnx hrun =>
    rename_i n db result
    obtain ⟨rows, seq, hf⟩ := n.run_frame _ _ sh.db
    rw [hrun] at hf
    cases hf
    exact .inl rfl
  | accepted hs =>
    obtain ⟨-, -, rfl, rfl⟩ := Db.addPendingSignalIfWaiting_eq_some hs
    exact .inl rfl
  | claimed hs =>
    obtain ⟨r, -, -, -, -, -, rfl⟩ := Db.claimRun_eq_some hs
    exact .inl rfl
  | dequeued hs =>
    obtain ⟨r, -, -, -, rfl⟩ := Db.dequeue_eq_some hs
    exact .inl rfl
  | replied hs =>
    cases hs
    exact .inl rfl
  | archived hs => exact .inr ⟨_, _, _, hs, rfl⟩
  | _ => exact .inl rfl

/-! ## One action -/

/-- An action that is no sweep keeps every live ticket out of the archive, unless it revives one. -/
theorem ArchiveSound.unswept (h : ArchiveSound sh.db) (he : Effect sh i p a sh' p')
    (harch : sh'.db.workflowRunArchive = sh.db.workflowRunArchive)
    (hok : a = .advance → ∀ c ∈ p.creates, ¬ sh.db.Archived c.1) : ArchiveSound sh'.db := by
  have hsame : ∀ t, sh'.db.Archived t ↔ sh.db.Archived t := fun t => by
    unfold Database.Archived
    rw [harch]
  refine ⟨he.runKeys h.keys, fun t hrun => ?_, harch ▸ h.once⟩
  rw [hsame]
  cases he.runChange h.keys t with
  | same heq => exact h.apart t (heq ▸ hrun)
  | claimed hp ha hr hc hp' heq hlog => exact h.apart t (by rw [hr]; rfl)
  | saved hs ht ha hp' heq hlog => exact h.apart t (by rwa [heq, Option.isSome_map] at hrun)
  | woken hp ht ha hp' heq hlog => exact h.apart t (by rwa [heq, Option.isSome_map] at hrun)
  | accepted hp ha hr hst heq hlog => exact h.apart t (by rw [hr]; rfl)
  | reclaimed hp hr hx hlt heq hlog => exact h.apart t (by rw [hr]; rfl)
  | created hc ha hnone heq hlog => exact hok ha _ hc
  | archived hp ha hr harchivable heq hlog =>
    rw [heq] at hrun
    cases hrun

theorem ArchiveSound.swept (h : ArchiveSound db)
    (hs : Db.archiveTerminalRuns maxAge db = some (db', ts)) : ArchiveSound db' := by
  obtain ⟨-, -, -, hw⟩ := archiveTerminalRuns_eq_some hs
  have hkeys : RunKeys db' := by
    unfold RunKeys
    rw [hw]
    exact nodup_filter _ h.keys
  have hrun : ∀ t, db'.run t = (db.run t).filter fun r => ¬ Db.Archivable maxAge db.now r := by
    intro t
    unfold Database.run
    rw [hw]
    exact lookup_filter h.keys
  refine ⟨hkeys, fun t hsome => ?_, ?_⟩
  · obtain ⟨r, hr⟩ := Option.isSome_iff_exists.mp hsome
    rw [hrun] at hr
    obtain ⟨hr, hkeep⟩ := Option.filter_eq_some_iff.mp hr
    rw [archived_iff h.keys hs]
    rintro (ha | ⟨r', hr', harch⟩)
    · exact h.apart t (by rw [hr]; rfl) ha
    · cases hr.symm.trans hr'
      exact of_decide_eq_true hkeep harch
  · rw [archiveTerminalRuns_archive hs, List.map_append, List.map_map]
    refine List.nodup_append.mpr ⟨h.once, nodup_filter _ h.keys, ?_⟩
    intro t ht u hu heq
    obtain ⟨a, ha, rfl⟩ := List.mem_map.mp ht
    obtain ⟨r, hr, rfl⟩ := List.mem_map.mp hu
    exact h.apart r.ticketId (by rw [h.keys.run_of_mem (List.mem_filter.mp hr).1]; rfl) ⟨a, ha, heq⟩

theorem ArchiveSound.succeeds (h : ArchiveSound db) (maxAge : Time) :
    (Db.archiveTerminalRuns maxAge db).isSome := by
  simp only [Db.archiveTerminalRuns]
  rw [if_neg]
  · rfl
  · rintro ⟨r, hr, ha⟩
    exact h.apart r.ticketId (by rw [h.keys.run_of_mem (List.mem_filter.mp hr).1]; rfl) ha

theorem archiveSound {w : World} (hw : World.ReachableWhen Unrevived w) : ArchiveSound w.shared.db := by
  refine World.ReachableWhen.worldInvariant (I := fun w => ArchiveSound w.shared.db) ?_ ?_ hw
  · exact ⟨List.nodup_nil, fun _ h => (nomatch h), List.nodup_nil⟩
  · intro w i a sh' p' _ hok h he
    rcases he.archive with harch | ⟨maxAge, db, ts, hs, rfl⟩
    · exact h.unswept he harch fun ha => by
        subst ha
        exact hok
    · exact h.swept hs

/-! ## Live or archived -/

/-- In a run where no archived ticket is revived, no ticket is live and archived, none is archived
twice, and no sweep fails; and the first revival makes a ticket both. -/
theorem live_or_archived {w : World} (hw : World.ReachableWhen Unrevived w) :
    ((∀ t, (w.shared.db.run t).isSome → ¬ w.shared.db.Archived t) ∧
      (w.shared.db.workflowRunArchive.map fun a => a.run.ticketId).Nodup ∧
      ∀ maxAge, (Db.archiveTerminalRuns maxAge w.shared.db).isSome) ∧
    ∀ i a w', w.next Proc.step i a = some w' → ¬ Unrevived w i a →
      ∃ t, (w'.shared.db.run t).isSome ∧ w'.shared.db.Archived t := by
  have h := archiveSound hw
  refine ⟨⟨h.apart, h.once, h.succeeds⟩, fun i a w' hn hno => ?_⟩
  obtain ⟨sh', p', hp, rfl⟩ := Config.next_eq_some hn
  have he := effect_of_step hp
  cases a with
  | advance =>
    simp only [Unrevived, not_forall, not_not] at hno
    obtain ⟨⟨t, values⟩, hc, harch⟩ := hno
    obtain ⟨hdb, -⟩ := he.creates_row hc
    refine ⟨t, ?_, ?_⟩
    · change (sh'.db.run t).isSome
      rw [hdb, run_createRun_self, Option.isSome_or]
      exact Bool.or_true _
    · change sh'.db.Archived t
      rw [hdb]
      exact harch
  | _ => exact absurd trivial hno

/-- Ticket 7 has ended, and a sweep has archived its run. -/
def archiving : Schedule :=
  Schedule.drafted Schedule.safeDraft 10 ++ [(3, .dequeue .taskQueue Schedule.unlocked)] ++
    Schedule.advance 3 5 ++ Schedule.step 2 7 ++ [(0, .tick (seconds 1)), (4, .runRetention 0)]

theorem live_or_archived_swept : ∃ w, World.ReachableWhen Unrevived w ∧ w.shared.db.Archived 7 ∧
    ∀ t, (w.shared.db.run t).isSome → ¬ w.shared.db.Archived t := by
  have hrun : (World.initial.runWhen Proc.step Unrevived archiving).map (fun w =>
      decide (w.shared.db.Archived 7)) = some true := by
    decide +kernel
  obtain ⟨w, hw, hp⟩ := exists_reachableWhen_of_run hrun
  exact ⟨w, hw, of_decide_eq_true hp, (live_or_archived hw).1.1⟩

/-- The reconciler takes the thread the sweep has not deleted yet for an orphan. -/
theorem archived_ticket_revived : ¬ ∀ w, World.Reachable w → ∀ t, (w.shared.db.run t).isSome →
    ¬ w.shared.db.Archived t := by
  intro h
  have hrun : (World.initial.run Proc.step (archiving ++ [(5, .reconcileOrphanedRuns)] ++
      Schedule.advance 5 2)).map (fun w => decide ((w.shared.db.run 7).isSome = true ∧
        w.shared.db.Archived 7)) = some true := by
    decide +kernel
  obtain ⟨w, hw, hp⟩ := exists_reachableWhen_of_run hrun
  obtain ⟨hlive, harch⟩ := of_decide_eq_true hp
  exact h w hw 7 hlive harch

end TicketFlow
