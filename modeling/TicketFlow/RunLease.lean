import TicketFlow.RunTable

/-! # Run leases

`claim_run` leases a run for thirty seconds, a step may take longer, and `save_run` names the
ticket only. The log tells who claimed a ticket last; a runner that is not that process any more is
superseded, and its `save_run` is the one a fence would have to stop. -/

namespace TicketFlow
open Table Interleaving
set_option autoImplicit false

/-- The process that claimed the ticket last. -/
def lastClaim (t : TicketId) : List Event → Option WorkerId
  | [] => none
  | .claimed i u :: log => if u = t then some i else lastClaim t log
  | _ :: log => lastClaim t log

/-- Another process has claimed the ticket since. -/
def Superseded (log : List Event) (i : WorkerId) (t : TicketId) : Prop :=
  ∃ j ∈ lastClaim t log, j ≠ i

/-- The lease a claim came with has run out. -/
def Expired (now : Time) (run : WorkflowRun) : Prop := ∃ e ∈ run.leaseExpiresAt, e < now

/-- The row is unleased and already says what the call would write. -/
def Save.Harmless (s : Save) (db : Database) : Prop :=
  ∀ r ∈ db.run s.ticketId, r.status = s.status ∧ r.wakeupAt = s.wakeupAt ∧ r.leaseOwner = none ∧
    r.leaseExpiresAt = none

instance (log : List Event) (i : WorkerId) (t : TicketId) : Decidable (Superseded log i t) :=
  inferInstanceAs (Decidable (∃ j ∈ lastClaim t log, j ≠ i))

instance (s : Save) (db : Database) : Decidable (s.Harmless db) :=
  inferInstanceAs (Decidable (∀ r ∈ db.run s.ticketId, _))

/-- A superseded runner saves only what the row already says, and only after its successor has
released the run. Retention, which deletes rows, is not among the interleaved actions. -/
def Fenced (w : World) (i : WorkerId) : Action → Prop
  | .advance => ∀ s ∈ (w.procs i).saves, Superseded w.shared.log i s.ticketId →
      s.Harmless w.shared.db
  | .runRetention _ => False
  | _ => True

instance (w : World) (i : WorkerId) : DecidablePred (Fenced w i)
  | .advance => inferInstanceAs (Decidable (∀ s ∈ (w.procs i).saves, _))
  | .runRetention _ => isFalse id
  | .tick _ | .crash | .createTicket _ | .submitApproval _ _ | .claimRun _ | .dequeue _ _
  | .activityReturns _ | .activityRaises _ _ | .reclaimExpiredLeases | .reconcileOrphanedRuns =>
    isTrue trivial

variable {sh sh' : Shared} {i j : WorkerId} {p p' : Proc} {a : Action} {t : TicketId}
  {run : WorkflowRun}

/-! ## Who holds what -/

/-- The last claim of a ticket changes only by a claim of that ticket. -/
theorem Effect.lastClaim (h : Effect sh i p a sh' p') (hn : RunKeys sh.db) (t : TicketId) :
    TicketFlow.lastClaim t sh'.log = TicketFlow.lastClaim t sh.log ∨
    ∃ r, p = .idle ∧ sh.db.run t = some r ∧ Db.Claimable sh.db.now r ∧
      TicketFlow.lastClaim t sh'.log = some i := by
  cases h with
  | claimed hs =>
    obtain ⟨r, hr, hc, -, -, rfl, rfl⟩ := Db.claimRun_eq_some hs
    by_cases ht : r.ticketId = t
    · exact .inr ⟨r, rfl, ht ▸ hn.run_of_mem hr, hc, if_pos ht⟩
    · exact .inl (if_neg ht)
  | _ => exact .inl rfl

/-! ## The lease invariant -/

/-- What the row says while its last claimer is at work. -/
structure Leased (sh : Shared) (i : WorkerId) (run : WorkflowRun) : Prop where
  claim : lastClaim run.ticketId sh.log = some i
  row : ∃ r, sh.db.run run.ticketId = some r ∧ r.status = run.status ∧
    (r.leaseOwner = some i ∧ r.leaseExpiresAt = run.leaseExpiresAt ∨ Expired sh.db.now run)

/-- A process that holds a run is its last claimer, or is superseded and has outlived its lease. -/
def LeaseKept (sh : Shared) (i : WorkerId) (p : Proc) : Prop :=
  ∀ run ∈ p.holds, run.leaseExpiresAt.isSome ∧
    (Leased sh i run ∨ Superseded sh.log i run.ticketId ∧ Expired sh.db.now run)

theorem Expired.mono {now now' : Time} (h : Expired now run) (hle : now ≤ now') :
    Expired now' run := by
  obtain ⟨e, he, hlt⟩ := h
  exact ⟨e, he, hlt.trans_le hle⟩

/-- A process that has just claimed holds the lease it wrote. -/
theorem leased_of_claim {locked : TicketId → Bool} {db : Database} (hn : RunKeys sh.db)
    (h : Db.claimRun i locked sh.db = (db, some run)) :
    run.leaseExpiresAt.isSome ∧ Leased (sh.record db (.claimed i run.ticketId)) i run := by
  obtain ⟨r, -, -, rfl, hrun⟩ := run_claimRun hn h
  exact ⟨rfl, if_pos rfl, _, hrun, rfl, .inl ⟨rfl, rfl⟩⟩

/-- A claim by another process supersedes the holder, whose lease must have run out. -/
theorem Leased.superseded {r : WorkflowRun} (h : Leased sh j run) (hsome : run.leaseExpiresAt.isSome)
    (hr : sh.db.run run.ticketId = some r) (hfree : Db.LeaseFree sh.db.now r) :
    Expired sh.db.now run := by
  obtain ⟨r', hr', -, ⟨-, he⟩ | he⟩ := h.row
  · rw [hr] at hr'
    cases hr'
    obtain ⟨e, hse⟩ := Option.isSome_iff_exists.mp hsome
    exact ⟨e, hse, hfree e (he.trans hse)⟩
  · exact he

/-- What the last claimer knows survives the action of any process that does not end its step. -/
theorem Leased.effect {w : World} {i j : WorkerId} (hn : RunKeys w.shared.db) (hok : Fenced w i a)
    (he : Effect w.shared i (w.procs i) a sh' p')
    (hclaim : TicketFlow.lastClaim run.ticketId sh'.log =
      TicketFlow.lastClaim run.ticketId w.shared.log)
    (hj : (a = .advance → (w.procs i).saves = none) ∨ i ≠ j) (hsome : run.leaseExpiresAt.isSome)
    (h : Leased w.shared j run) : Leased sh' j run := by
  obtain ⟨r, hr, hst, hlease⟩ := h.row
  have hnow := he.now_le
  have hlease' : r.leaseOwner = some j ∧ r.leaseExpiresAt = run.leaseExpiresAt ∨
      Expired sh'.db.now run := hlease.imp_right fun hx => hx.mono hnow
  refine ⟨hclaim.trans h.claim, ?_⟩
  cases he.runChange hn run.ticketId with
  | same heq => exact ⟨r, heq.trans hr, hst, hlease'⟩
  | claimed hp ha hr₀ hc hp' heq hlog =>
    rename_i locked r₀
    have hij : some i = some j := by
      rw [← h.claim, ← hclaim, hlog]
      exact (if_pos rfl).symm
    cases hij
    rw [hr] at hr₀
    cases hr₀
    exact ⟨_, heq, hst, .inr ((h.superseded hsome hr hc.2.1).mono hnow)⟩
  | saved hs ht ha hp' heq hlog =>
    rename_i s
    subst ha
    have hij : i ≠ j := hj.resolve_left fun h => by
      rw [hs] at h
      cases h rfl
    have hsup : Superseded w.shared.log i s.ticketId := ⟨j, ht ▸ h.claim, hij.symm⟩
    obtain ⟨hs1, -, ho, hl⟩ := hok s hs hsup r (ht ▸ hr)
    rw [hr] at heq
    refine ⟨_, heq, hs1.symm.trans hst, .inr ?_⟩
    rcases hlease' with ⟨hown, -⟩ | hx
    · rw [ho] at hown
      cases hown
    · exact hx
  | woken hp ht ha hp' heq hlog =>
    rw [hr] at heq
    exact ⟨_, heq, hst, hlease'⟩
  | accepted hp ha hr₀ hst₀ heq hlog =>
    rw [hr] at hr₀
    cases hr₀
    exact ⟨_, heq, hst, hlease'⟩
  | reclaimed hp hr₀ hl hlt heq hlog =>
    rename_i r₀ e
    rw [hr] at hr₀
    cases hr₀
    refine ⟨_, heq, hst, .inr ?_⟩
    rcases hlease' with ⟨-, hle⟩ | hx
    · exact ⟨e, hle.symm.trans hl, hlt.trans_le hnow⟩
    · exact hx
  | created hp ha hnone heq hlog =>
    rw [hr] at hnone
    cases hnone
  | archived hp ha hr₀ harch heq hlog =>
    subst ha
    exact hok.elim

/-- What any holder knows survives the action of a process that does not end the holder's step. -/
theorem LeaseKept.effect {w : World} {i j : WorkerId} {q : Proc} (hn : RunKeys w.shared.db)
    (hok : Fenced w i a) (he : Effect w.shared i (w.procs i) a sh' p')
    (hj : (a = .advance → (w.procs i).saves = none) ∨ i ≠ j) (h : LeaseKept w.shared j q)
    (hq : w.procs i = .idle → i ≠ j) : LeaseKept sh' j q := by
  intro run hrun
  obtain ⟨hsome, hc⟩ := h run hrun
  refine ⟨hsome, ?_⟩
  rcases he.lastClaim hn run.ticketId with hl | ⟨r, hidle, hr, hcl, hl⟩
  · rcases hc with hlease | ⟨hsup, hexp⟩
    · exact .inl (hlease.effect hn hok he hl hj hsome)
    · refine .inr ⟨?_, hexp.mono he.now_le⟩
      unfold Superseded
      rwa [hl]
  · have hij := hq hidle
    refine .inr ⟨⟨i, hl, hij⟩, ?_⟩
    rcases hc with hlease | ⟨-, hexp⟩
    · exact (hlease.superseded hsome hr hcl.2.1).mono he.now_le
    · exact hexp.mono he.now_le

/-- In a fenced run every holder is the last claimer, or has outlived its lease. -/
theorem leaseKept {w : World} (hw : World.ReachableWhen Fenced w) :
    RunKeys w.shared.db ∧ ∀ j, LeaseKept w.shared j (w.procs j) := by
  refine hw.invariant (I := fun sh => RunKeys sh.db) (J := LeaseKept) List.nodup_nil
    (fun j run hrun => nomatch hrun) ?_
  intro w i a sh' p' _ hok hn hJ he
  refine ⟨he.runKeys hn, ?_, fun j hj => (hJ j).effect hn hok he (.inr hj.symm) fun _ => hj.symm⟩
  intro run hrun
  rcases he.holds hrun with hold | ⟨locked, db, hidle, rfl, hcl, rfl⟩
  · have hsaves : a = .advance → (w.procs i).saves = none := by
      rintro rfl
      refine Option.eq_none_iff_forall_ne_some.mpr fun s hs => ?_
      rw [he.idle_of_saves hs] at hrun
      cases hrun
    have hidle : w.procs i = .idle → i ≠ i := fun h => by
      rw [h] at hold
      cases hold
    exact (hJ i).effect hn hok he (.inl hsaves) hidle run hold
  · have hclaimed : run.leaseExpiresAt.isSome ∧
        Leased (w.shared.record db (.claimed i run.ticketId)) i run := leased_of_claim hn hcl
    obtain ⟨hsome, hlease⟩ := hclaimed
    exact ⟨hsome, .inl hlease⟩

/-! ## Fencing -/

/-- The columns the claim protects. -/
def projection (r : WorkflowRun) : TicketStatus × Option Time × Option WorkerId × Option Time :=
  (r.status, r.wakeupAt, r.leaseOwner, r.leaseExpiresAt)

/-- The row of the call's ticket afterwards. -/
def Save.after (s : Save) (db : Database) : Option WorkflowRun :=
  (Db.saveRun s.ticketId s.status s.wakeupAt s.consumedSignalId db).run s.ticketId

/-- A `save_run` leaves status, timer and lease alone exactly when it is harmless. -/
theorem after_eq_iff (s : Save) (db : Database) :
    (s.after db).map projection = (db.run s.ticketId).map projection ↔ s.Harmless db := by
  rw [Save.after, run_saveRun, if_pos rfl, Save.Harmless]
  cases db.run s.ticketId with
  | none => simp
  | some r =>
    simp only [Option.map_some, projection, Db.saveRunRow, Option.some.injEq, Prod.mk.injEq,
      Option.mem_def, forall_eq']
    constructor
    · rintro ⟨hs, hw, ho, he⟩
      exact ⟨hs.symm, hw.symm, ho.symm, he.symm⟩
    · rintro ⟨hs, hw, ho, he⟩
      exact ⟨hs.symm, hw.symm, ho.symm, he.symm⟩

/-- Two holders of one run do not both hold an unexpired lease. -/
theorem expired_of_holds {w : World} (hJ : ∀ j, LeaseKept w.shared j (w.procs j)) {i j : WorkerId}
    {r₁ r₂ : WorkflowRun} (hij : i ≠ j) (h₁ : (w.procs i).holds = some r₁)
    (h₂ : (w.procs j).holds = some r₂) (ht : r₁.ticketId = r₂.ticketId) :
    Expired w.shared.db.now r₁ ∨ Expired w.shared.db.now r₂ := by
  rcases (hJ i r₁ h₁).2 with hl₁ | ⟨-, he₁⟩
  · rcases (hJ j r₂ h₂).2 with hl₂ | ⟨-, he₂⟩
    · have hc := hl₁.claim
      rw [ht, hl₂.claim] at hc
      exact absurd (Option.some.inj hc).symm hij
    · exact .inr he₂
  · exact .inl he₁

/-- A release writes the status the row already has, unless its runner is superseded. -/
theorem status_of_releasing {w : World} (hJ : ∀ j, LeaseKept w.shared j (w.procs j))
    (h : w.procs i = .runner (.releasing run)) :
    Superseded w.shared.log i run.ticketId ∨
      ∀ r ∈ w.shared.db.run run.ticketId, r.status = run.status := by
  rcases (hJ i run (by rw [h]; rfl)).2 with hl | ⟨hsup, -⟩
  · right
    intro r hr
    obtain ⟨r', hr', hst, -⟩ := hl.row
    rw [hr] at hr'
    cases hr'
    exact hst
  · exact .inl hsup

/-- A superseded runner's `save_run` is without effect exactly when it is harmless; and in a run
where such calls are harmless, unexpired claims exclude each other and no release moves a status. -/
theorem run_lease_fencing {w : World} (hw : World.ReachableWhen Fenced w) :
    (∀ i s, (w.procs i).saves = some s → Superseded w.shared.log i s.ticketId →
      ((s.after w.shared.db).map projection = (w.shared.db.run s.ticketId).map projection ↔
        s.Harmless w.shared.db)) ∧
    (∀ i j r₁ r₂, i ≠ j → (w.procs i).holds = some r₁ → (w.procs j).holds = some r₂ →
      r₁.ticketId = r₂.ticketId → Expired w.shared.db.now r₁ ∨ Expired w.shared.db.now r₂) ∧
    (∀ i run, w.procs i = .runner (.releasing run) → Fenced w i .advance →
      ∀ r ∈ w.shared.db.run run.ticketId, r.status = run.status) := by
  obtain ⟨-, hJ⟩ := leaseKept hw
  refine ⟨fun i s _ _ => after_eq_iff s w.shared.db, fun i j r₁ r₂ => expired_of_holds hJ, ?_⟩
  intro i run hp hok
  rcases status_of_releasing hJ hp with hsup | hst
  · intro r hr
    have hh := hok ⟨run.ticketId, run.status, run.wakeupAt, none⟩ (by rw [hp]; rfl) hsup
    exact (hh r hr).1
  · exact hst

/-- A run claimed twice, the second time after the first lease ran out. -/
theorem run_lease_fencing_reclaimed : ∃ w r₁ r₂, World.ReachableWhen Fenced w ∧
    (w.procs 2).holds = some r₁ ∧ (w.procs 3).holds = some r₂ ∧
    (Expired w.shared.db.now r₁ ∨ Expired w.shared.db.now r₂) := by
  have hrun : (World.initial.runWhen Proc.step Fenced (Schedule.create ++
      [(0, .tick (seconds 31))] ++ Schedule.step 2 2 ++ [(0, .tick (seconds 31))] ++
      Schedule.step 3 0)).map (fun w => ((w.procs 2).holds.map WorkflowRun.ticketId,
        (w.procs 3).holds.map WorkflowRun.ticketId) == (some 7, some 7)) = some true := by
    decide +kernel
  obtain ⟨w, hw, hp⟩ := exists_reachableWhen_of_run hrun
  obtain ⟨h₁, h₂⟩ := Prod.mk.inj (beq_iff_eq.mp hp)
  obtain ⟨r₁, hr₁, ht₁⟩ := Option.map_eq_some_iff.mp h₁
  obtain ⟨r₂, hr₂, ht₂⟩ := Option.map_eq_some_iff.mp h₂
  exact ⟨w, r₁, r₂, hw, hr₁, hr₂,
    (run_lease_fencing hw).2.1 2 3 r₁ r₂ (by decide) hr₁ hr₂ (ht₁.trans ht₂.symm)⟩

/-- A runner that stalls before its `save_run` takes the lease of the runner that came after it. -/
theorem superseded_save_unfenced : ¬ ∀ w, World.Reachable w → ∀ i s, (w.procs i).saves = some s →
    Superseded w.shared.log i s.ticketId →
    (s.after w.shared.db).map projection = (w.shared.db.run s.ticketId).map projection := by
  intro h
  have hrun : (World.initial.run Proc.step (Schedule.create ++
      Schedule.work 1 .agentTaskQueue (.classification Schedule.classification) ++
      Schedule.step 2 9 ++ [(0, .tick (seconds 31))] ++ Schedule.step 3 0)).map (fun w =>
        decide (∃ s ∈ (w.procs 2).saves, Superseded w.shared.log 2 s.ticketId ∧
          ¬ s.Harmless w.shared.db)) = some true := by decide +kernel
  obtain ⟨w, hw, hp⟩ := exists_reachableWhen_of_run hrun
  obtain ⟨s, hs, hsup, hharm⟩ := of_decide_eq_true hp
  exact hharm ((after_eq_iff s w.shared.db).mp (h w hw 2 s hs hsup))

end TicketFlow
