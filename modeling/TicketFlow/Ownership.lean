import TicketFlow.Retention

/-! # One owner at a time

The lease keeps two runners off a run until it expires. Where no run is claimed while another runner
is still in the middle of a step on it, and no row is inserted while the ticket is still being
seeded, only the runner that holds a run moves its thread. -/

namespace TicketFlow
open Table Interleaving
set_option autoImplicit false

/-- The process is a runner in the middle of a step on the ticket. -/
def Proc.Holds (p : Proc) (t : TicketId) : Prop := ∃ run, p.holds = some run ∧ run.ticketId = t

/-- The process is still inside the `ainvoke` of `create_ticket`. -/
def Proc.SeedsThread (p : Proc) (t : TicketId) : Prop :=
  ∃ inv, p = .api (.seeding inv) ∧ inv.checkpoint.threadId = t

/-- No run is claimed that another runner holds, and no row is inserted for a ticket that is still
being seeded. -/
def Owned (w : World) (i : WorkerId) : Action → Prop
  | .claimRun locked => ∀ db run, Db.claimRun i locked w.shared.db = (db, some run) →
      ∀ j, ¬ (w.procs j).Holds run.ticketId
  | .advance => ∀ c ∈ (w.procs i).creates, ∀ j, ¬ (w.procs j).SeedsThread c.1
  | _ => True

/-- What a runner knows of the thread that only it moves. -/
structure OwnerKnows (sh : Shared) (p : Proc) : Prop where
  inspected : ∀ run env, p = .runner (.inspected run env) →
    ∀ cp, sh.checkpoints.get run.ticketId = some cp → cp.interrupt = some env
  invoking : ∀ run v inv, p = .runner (.invoking run v inv) →
    ∀ cp, sh.checkpoints.get run.ticketId = some cp → cp = inv.checkpoint
  saving : ∀ run v out, p = .runner (.saving run v out) →
    ∀ cp, sh.checkpoints.get run.ticketId = some cp →
      cp.interrupt = out.interrupt ∧ cp.values = out.values

/-- A run has one holder, and a ticket that is still being seeded has neither row nor holder. -/
structure Ownership (w : World) : Prop where
  sole : ∀ j k t, (w.procs j).Holds t → (w.procs k).Holds t → j = k
  seeding : ∀ j t, (w.procs j).SeedsThread t →
    w.shared.db.run t = none ∧ ∀ k, ¬ (w.procs k).Holds t
  knows : ∀ j, OwnerKnows w.shared (w.procs j)

variable {sh sh' : Shared} {w : World} {i j : WorkerId} {p p' : Proc} {a : Action} {t : TicketId}

/-! ## Who moves a thread -/

/-- A runner holds what it held, or what it has just claimed. -/
theorem Effect.holdsFrom (he : Effect sh i p a sh' p') (hp : p'.Holds t) : p.Holds t ∨
    ∃ locked db run, a = .claimRun locked ∧ Db.claimRun i locked sh.db = (db, some run) ∧
      run.ticketId = t := by
  obtain ⟨run, hold, ht⟩ := hp
  rcases he.holds hold with hold | ⟨locked, db, -, ha, hcl, -⟩
  · exact .inl ⟨run, hold, ht⟩
  · exact .inr ⟨locked, db, run, ha, hcl, ht⟩

/-- A handler seeds the thread it was seeding, or one it has just created. -/
theorem Effect.seedsFrom (he : Effect sh i p a sh' p') (hp : p'.SeedsThread t) :
    p.SeedsThread t ∨ ∀ e ∈ sh.log, e.createdId ≠ some t := by
  obtain ⟨inv, hp', ht⟩ := hp
  rcases he.seeds hp' with ⟨inv₀, hp₀, hcp, -⟩ | ⟨-, -, ⟨inv₀, hp₀, hsame⟩ | hf⟩
  · exact .inl ⟨inv₀, hp₀, hcp ▸ ht⟩
  · exact .inl ⟨inv₀, hp₀, hsame.symm.trans ht⟩
  · exact .inr (ht ▸ hf)

/-- Nobody but its holder moves a thread, but retention may delete it. -/
theorem Ownership.thread_kept (h : Ownership w) (hw : World.Reachable w)
    (he : Effect w.shared i (w.procs i) a sh' p') (hj : (w.procs j).Holds t) (hne : j ≠ i) :
    sh'.checkpoints.get t = w.shared.checkpoints.get t ∨ sh'.checkpoints.get t = none := by
  have hdriver : ∀ (dr : Driver) (inv : Invocation), w.procs i = dr.driving inv →
      inv.checkpoint.threadId = t → False := by
    intro dr inv hp ht
    cases dr with
    | createTicket => exact (h.seeding i t ⟨inv, hp, ht⟩).2 j hj
    | step run v =>
      have hP := hw.threads.2 i
      rw [hp] at hP
      have hrun : run.ticketId = t := hP.1.symm.trans ht
      exact hne (h.sole j i t hj ⟨run, by rw [hp]; rfl, hrun⟩)
  cases he.threadChange t with
  | same heq => exact .inl heq
  | created hp ha ht hf hdb hlog hseq heq =>
    obtain ⟨run, hold, hrun⟩ := hj
    obtain ⟨e, hm, hid⟩ := (hw.ofCreated.2 j).holds run hold
    exact absurd (hrun ▸ hid) (hf e hm)
  | put hp ha ht hr hn hp' hdb hlog hseq heq => exact (hdriver _ _ hp ht).elim
  | suspended hp ha ht hr hcp hid hp' hdb hlog heq => exact (hdriver _ _ hp ht).elim
  | deleted hp ha heq => exact .inr heq

/-- Where only processes below `n` are at work, it is enough to ask them. -/
theorem Owned.of_bounded {n : ℕ} (hidle : ∀ j, n ≤ j → w.procs j = .idle)
    (hclaim : ∀ locked, a = .claimRun locked → ∀ j < n, (w.procs j).holds = none)
    (hcreate : a = .advance → (w.procs i).creates.isSome → ∀ j < n, (w.procs j).invocation = none) :
    Owned w i a := by
  cases a with
  | claimRun locked =>
    rintro db run hcl j ⟨run', hold, -⟩
    by_cases hj : j < n
    · rw [hclaim locked rfl j hj] at hold
      cases hold
    · rw [hidle j (Nat.le_of_not_lt hj)] at hold
      cases hold
  | advance =>
    rintro c hc j ⟨inv, hp, -⟩
    by_cases hj : j < n
    · have hsome : (w.procs i).creates.isSome := by rw [Option.mem_def.mp hc]; rfl
      have hnone := hcreate rfl hsome j hj
      rw [hp] at hnone
      cases hnone
    · rw [hidle j (Nat.le_of_not_lt hj)] at hp
      cases hp
  | _ => exact trivial

theorem World.ReachableWhen.idle_above {ok : World → WorkerId → Action → Prop} {n : ℕ}
    (hlt : ∀ w i a, ok w i a → i < n) (hw : World.ReachableWhen ok w) :
    ∀ j, n ≤ j → w.procs j = .idle := by
  refine Interleaving.ReachableWhen.idle_above ?_ hlt hw
  rintro _ rfl j -
  rfl

/-! ## One action -/

theorem Ownership.sole_effect (h : Ownership w) (hok : Owned w i a)
    (he : Effect w.shared i (w.procs i) a sh' p') {k : WorkerId}
    (hj : (Function.update w.procs i p' j).Holds t)
    (hk : (Function.update w.procs i p' k).Holds t) : j = k := by
  -- a claim is made of a run nobody holds
  have claims : ∀ {l}, p'.Holds t → (w.procs l).Holds t → l = i := by
    intro l hp' hl
    rcases he.holdsFrom hp' with hold | ⟨locked, db, run, rfl, hcl, rfl⟩
    · exact h.sole l i t hl hold
    · exact absurd hl (hok db run hcl l)
  by_cases hji : j = i
  · by_cases hki : k = i
    · rw [hji, hki]
    · rw [hji, Function.update_self] at hj
      rw [Function.update_of_ne hki] at hk
      exact absurd (claims hj hk) hki
  · rw [Function.update_of_ne hji] at hj
    by_cases hki : k = i
    · rw [hki, Function.update_self] at hk
      exact absurd (claims hk hj) hji
    · rw [Function.update_of_ne hki] at hk
      exact h.sole j k t hj hk

theorem Ownership.seeding_effect (h : Ownership w) (hw : World.Reachable w) (hok : Owned w i a)
    (he : Effect w.shared i (w.procs i) a sh' p')
    (hj : (Function.update w.procs i p' j).SeedsThread t) :
    sh'.db.run t = none ∧ ∀ k, ¬ (Function.update w.procs i p' k).Holds t := by
  obtain ⟨hrows, hprocs⟩ := hw.ofCreated
  have hbefore : w.shared.db.run t = none ∧ (∀ k, ¬ (w.procs k).Holds t) ∧
      ((∃ k, (w.procs k).SeedsThread t) ∨ ¬ Created t w.shared.log) := by
    have old : ∀ {k}, (w.procs k).SeedsThread t → w.shared.db.run t = none ∧
        (∀ k, ¬ (w.procs k).Holds t) ∧
        ((∃ k, (w.procs k).SeedsThread t) ∨ ¬ Created t w.shared.log) := fun {k} hk =>
      ⟨(h.seeding k t hk).1, (h.seeding k t hk).2, .inl ⟨k, hk⟩⟩
    by_cases hji : j = i
    · rw [hji, Function.update_self] at hj
      rcases he.seedsFrom hj with hold | hf
      · exact old hold
      · have hnew : ¬ Created t w.shared.log := fun ⟨e, hm, hid⟩ => hf e hm hid
        refine ⟨?_, ?_, .inr hnew⟩
        · cases hr : w.shared.db.run t with
          | none => rfl
          | some r => exact absurd (hrows t (by rw [hr]; rfl)) hnew
        · rintro k ⟨run, hold, ht⟩
          exact hnew (ht ▸ (hprocs k).holds run hold)
    · rw [Function.update_of_ne hji] at hj
      exact old hj
  obtain ⟨hnone, hholds, hseeds⟩ := hbefore
  constructor
  · cases he.runChange hw.held.1 t with
    | same heq => exact heq.trans hnone
    | saved hs ht ha hp' heq hlog => rw [heq, hnone]; rfl
    | woken hp ht ha hp' heq hlog => rw [heq, hnone]; rfl
    | created hc ha hno heq hlog =>
      subst ha
      rcases hseeds with ⟨k, hk⟩ | hnew
      · exact absurd hk (hok _ hc k)
      · exact absurd ((hprocs i).creates t _ hc) hnew
    | archived hp ha hr harch heq hlog => exact heq
    | claimed hp ha hr hc hp' heq hlog =>
      rw [hnone] at hr
      cases hr
    | accepted hp ha hr hst heq hlog =>
      rw [hnone] at hr
      cases hr
    | reclaimed hp hr hx hlt heq hlog =>
      rw [hnone] at hr
      cases hr
  · intro k hk
    by_cases hki : k = i
    · rw [hki, Function.update_self] at hk
      rcases he.holdsFrom hk with hold | ⟨locked, db, run, rfl, hcl, rfl⟩
      · exact hholds i hold
      · obtain ⟨r, hr, -⟩ := run_claimRun hw.held.1 hcl
        rw [hnone] at hr
        cases hr
    · rw [Function.update_of_ne hki] at hk
      exact hholds k hk

/-- What a runner knows stays true while its thread stays as it is or is deleted. -/
theorem OwnerKnows.kept {q : Proc} (h : OwnerKnows sh q)
    (hkept : ∀ t, q.Holds t →
      sh'.checkpoints.get t = sh.checkpoints.get t ∨ sh'.checkpoints.get t = none) :
    OwnerKnows sh' q := by
  have before : ∀ {run cp}, q.holds = some run → sh'.checkpoints.get run.ticketId = some cp →
      sh.checkpoints.get run.ticketId = some cp := by
    intro run cp hold hcp
    rcases hkept run.ticketId ⟨run, hold, rfl⟩ with heq | hnone
    · exact heq.symm.trans hcp
    · rw [hnone] at hcp
      cases hcp
  refine ⟨fun run env hq cp hcp => ?_, fun run v inv hq cp hcp => ?_, fun run v out hq cp hcp => ?_⟩
  · exact h.inspected run env hq cp (before (by rw [hq]; rfl) hcp)
  · exact h.invoking run v inv hq cp (before (by rw [hq]; rfl) hcp)
  · exact h.saving run v out hq cp (before (by rw [hq]; rfl) hcp)

theorem OwnerKnows.of_inspected {run : WorkflowRun} {env : Envelope}
    (h : ∀ cp, sh.checkpoints.get run.ticketId = some cp → cp.interrupt = some env) :
    OwnerKnows sh (.runner (.inspected run env)) := by
  refine ⟨fun run' env' hp => ?_, fun _ _ _ hp => (nomatch hp), fun _ _ _ hp => nomatch hp⟩
  cases hp
  exact h

theorem OwnerKnows.of_invoking {run : WorkflowRun} {v : ResumeValue} {inv : Invocation}
    (h : ∀ cp, sh.checkpoints.get run.ticketId = some cp → cp = inv.checkpoint) :
    OwnerKnows sh (.runner (.invoking run v inv)) := by
  refine ⟨fun _ _ hp => (nomatch hp), fun run' v' inv' hp => ?_, fun _ _ _ hp => nomatch hp⟩
  cases hp
  exact h

theorem OwnerKnows.of_saving {run : WorkflowRun} {v : ResumeValue} {out : Output}
    (h : ∀ cp, sh.checkpoints.get run.ticketId = some cp →
      cp.interrupt = out.interrupt ∧ cp.values = out.values) :
    OwnerKnows sh (.runner (.saving run v out)) := by
  refine ⟨fun _ _ hp => (nomatch hp), fun _ _ _ hp => (nomatch hp), fun run' v' out' hp => ?_⟩
  cases hp
  exact h

theorem OwnerKnows.of_releasing {run : WorkflowRun} : OwnerKnows sh (.runner (.releasing run)) :=
  ⟨fun _ _ hp => (nomatch hp), fun _ _ _ hp => (nomatch hp), fun _ _ _ hp => nomatch hp⟩

theorem OwnerKnows.of_idle (h : p.holds = none) : OwnerKnows sh p := by
  refine ⟨fun run env hp => ?_, fun run v inv hp => ?_, fun run v out hp => ?_⟩ <;>
  · rw [hp] at h
    cases h

theorem OwnerKnows.acts (h : OwnerKnows sh p) (hT : ThreadsSound sh.checkpoints)
    (hP : p.ThreadSound sh.checkpoints) (he : Effect sh i p a sh' p') : OwnerKnows sh' p' := by
  cases he with
  | tick elapsed => exact h.kept fun t _ => .inl rfl
  | created hf => exact .of_idle rfl
  | @ran dr inv n db result hr hn hrun =>
    cases dr with
    | createTicket => exact .of_idle rfl
    | step run v =>
      have hown := h.invoking run v inv rfl
      exact .of_invoking hown
  | @put dr inv values next hr hn =>
    cases dr with
    | createTicket => exact .of_idle rfl
    | step run v =>
      have hown : ∀ cp, (sh.checkpoints.put inv.checkpoint.threadId values next).get run.ticketId =
          some cp → cp = sh.checkpoints.fresh inv.checkpoint.threadId values next := by
        intro cp hcp
        rw [← hP.1, Checkpoints.get_put_self] at hcp
        exact (Option.some.inj hcp).symm
      exact .of_invoking hown
  | @suspended dr inv env hr =>
    cases dr with
    | createTicket => exact .of_idle rfl
    | step run v =>
      have hown : ∀ cp', (sh.checkpoints.putWrites inv.checkpoint inv.resumes env).get run.ticketId =
          some cp' → cp'.interrupt = some env ∧ cp'.values = inv.checkpoint.values := by
        intro cp' hcp'
        rw [Checkpoints.get_putWrites] at hcp'
        obtain ⟨cp, hcp, rfl⟩ := Option.map_eq_some_iff.mp hcp'
        have hsame := h.invoking run v inv rfl cp hcp
        subst hsame
        rw [if_pos ⟨rfl, rfl⟩]
        exact ⟨rfl, rfl⟩
      exact .of_saving hown
  | @claimed locked db run hs =>
    exact ⟨fun _ _ hp => (nomatch hp), fun _ _ _ hp => (nomatch hp), fun _ _ _ hp => nomatch hp⟩
  | failed hm hs hf =>
    split
    · exact .of_idle rfl
    · exact .of_idle rfl
  | quiet hl =>
    cases hl with
    | @ended dr inv hr hn =>
      cases dr with
      | createTicket => exact .of_idle rfl
      | step run v =>
        have hown : ∀ cp, sh.checkpoints.get run.ticketId = some cp →
            cp.interrupt = none ∧ cp.values = inv.checkpoint.values := by
          intro cp hcp
          have hsame := h.invoking run v inv rfl cp hcp
          refine ⟨?_, congrArg _ hsame⟩
          -- a thread at its end shows no interrupt
          cases hint : cp.interrupt with
          | none => rfl
          | some env =>
            obtain ⟨n, hsome, -⟩ := (hT _ _ hcp).1.parked env hint
            rw [hsame, hn] at hsome
            cases hsome
        exact .of_saving hown
    | @inspected run cp env hcp henv =>
      refine .of_inspected fun cp' hcp' => ?_
      cases hcp.symm.trans hcp'
      exact henv
    | @resumed run v cp hcp =>
      exact .of_invoking fun cp' hcp' => (Option.some.inj (hcp.symm.trans hcp')).symm
    | unparked hcp => exact .of_releasing
    | unready hr => exact .of_releasing
    | ready hr =>
      exact ⟨fun _ _ hp => (nomatch hp), fun _ _ _ hp => (nomatch hp), fun _ _ _ hp => nomatch hp⟩
    | _ => exact .of_idle rfl
  | _ => exact .of_idle rfl

theorem Ownership.effect (h : Ownership w) (hw : World.Reachable w) (hok : Owned w i a)
    (he : Effect w.shared i (w.procs i) a sh' p') :
    Ownership ⟨sh', Function.update w.procs i p'⟩ := by
  refine ⟨fun j k t hj hk => h.sole_effect hok he hj hk,
    fun j t hj => h.seeding_effect hw hok he hj, fun j => ?_⟩
  by_cases hji : j = i
  · subst hji
    change OwnerKnows sh' (Function.update w.procs j p' j)
    rw [Function.update_self]
    exact (h.knows j).acts hw.threads.1 (hw.threads.2 j) he
  · change OwnerKnows sh' (Function.update w.procs i p' j)
    rw [Function.update_of_ne hji]
    exact (h.knows j).kept fun t hj => h.thread_kept hw he hj hji

theorem World.ReachableWhen.ownership {ok : World → WorkerId → Action → Prop}
    (hok : ∀ w i a, ok w i a → Owned w i a) (hw : World.ReachableWhen ok w) : Ownership w := by
  refine World.ReachableWhen.worldInvariant (I := Ownership) ?_ ?_ hw
  · refine ⟨fun _ _ _ ⟨_, h, _⟩ => (nomatch h), fun _ _ ⟨_, h, _⟩ => (nomatch h), fun _ => ?_⟩
    exact ⟨fun _ _ h => (nomatch h), fun _ _ _ h => (nomatch h), fun _ _ _ h => nomatch h⟩
  · intro w i a sh' p' hr ha h he
    exact h.effect hr.reachable (hok w i a ha) he

end TicketFlow
