import TicketFlow.Fleet
import TicketFlow.Lifecycle

/-! # One runner

In a fleet with one runner nobody else claims a run, deletes a thread or inserts a row that another
process is at work on, so every run has one owner and no checkpoint is saved over a newer one. Only
`create_ticket` shares a thread with the runner, while it is still seeding it. -/

namespace TicketFlow
open Interleaving
set_option autoImplicit false

/-- The process is in the middle of `create_ticket` for the ticket. -/
def Proc.Requests (p : Proc) (t : TicketId) : Prop :=
  p.SeedsThread t ∨ ∃ out, p = .api (.seeded t out)

/-- No thread is deleted while a runner is in the middle of a step on it. -/
def Spared (w : World) (i : WorkerId) : Action → Prop
  | .advance => ∀ t ∈ (w.procs i).deletes, ∀ j, ¬ (w.procs j).Holds t
  | _ => True

/-- Nobody has more than one owner, and what is owned is there. -/
structure Present (w : World) : Prop where
  spared : ∀ j k t, t ∈ (w.procs j).deletes → ¬ (w.procs k).SeedsThread t
  seeding : ∀ j inv, w.procs j = .api (.seeding inv) →
    w.shared.checkpoints.get inv.checkpoint.threadId = some inv.checkpoint
  invoking : ∀ j run v inv, w.procs j = .runner (.invoking run v inv) →
    (w.shared.checkpoints.get run.ticketId).isSome

variable {sh sh' : Shared} {w : World} {i j k : WorkerId} {p p' : Proc} {a : Action} {t : TicketId}

/-! ## One request for a ticket -/

theorem Effect.requestsFrom (he : Effect sh i p a sh' p') (hp : p'.Requests t) :
    p.Requests t ∨ ∀ e ∈ sh.log, e.createdId ≠ some t := by
  rcases hp with hseeds | ⟨out, hp'⟩
  · rcases he.seedsFrom hseeds with hold | hf
    · exact .inl (.inl hold)
    · exact .inr hf
  · have hc : p'.creates = some (t, out.values) := by rw [hp']; rfl
    cases he with
    | tick elapsed => exact .inl (.inr ⟨out, hp'⟩)
    | @suspended dr inv env hr =>
      cases dr <;> cases hp'
      exact .inl (.inl ⟨inv, rfl, rfl⟩)
    | @ran dr inv n db result hr hn hrun => cases dr <;> cases hp'
    | @put dr inv values next hr hn => cases dr <;> cases hp'
    | failed hm hs hf => split at hp' <;> cases hp'
    | quiet hl =>
      cases hl with
      | @ended dr inv hr hn =>
        cases dr <;> cases hp'
        exact .inl (.inl ⟨inv, rfl, rfl⟩)
      | _ => cases hp'
    | _ => cases hp'

theorem World.Reachable.requested (hw : World.Reachable w) (h : (w.procs j).Requests t) :
    Created t w.shared.log := by
  rcases h with ⟨inv, hp, rfl⟩ | ⟨out, hp⟩
  · exact hw.created.2 j _ (by rw [hp]; rfl)
  · exact (hw.ofCreated.2 j).creates t out.values (by rw [hp]; rfl)

theorem World.Reachable.one_request (hw : World.Reachable w) :
    ∀ j k t, (w.procs j).Requests t → (w.procs k).Requests t → j = k := by
  refine World.ReachableWhen.worldInvariant (I := fun w => ∀ j k t, (w.procs j).Requests t →
    (w.procs k).Requests t → j = k) ?_ ?_ hw
  · rintro j k t (⟨inv, hp, -⟩ | ⟨out, hp⟩) <;> cases hp
  · intro w i a sh' p' hr _ hI he j k t hj hk
    have hw : World.Reachable w := hr.reachable
    -- whoever requests the ticket already is the one who goes on with it
    have mine : ∀ {l}, p'.Requests t → (w.procs l).Requests t → l = i := by
      intro l hp' hl
      rcases he.requestsFrom hp' with hold | hf
      · exact hI l i t hl hold
      · obtain ⟨e, hm, hid⟩ := hw.requested hl
        exact absurd hid (hf e hm)
    by_cases hji : j = i
    · by_cases hki : k = i
      · rw [hji, hki]
      · rw [hji] at hj
        change (Function.update w.procs i p' i).Requests t at hj
        change (Function.update w.procs i p' k).Requests t at hk
        rw [Function.update_self] at hj
        rw [Function.update_of_ne hki] at hk
        exact absurd (mine hj hk) hki
    · change (Function.update w.procs i p' j).Requests t at hj
      change (Function.update w.procs i p' k).Requests t at hk
      rw [Function.update_of_ne hji] at hj
      by_cases hki : k = i
      · rw [hki, Function.update_self] at hk
        exact absurd (mine hk hj) hji
      · rw [Function.update_of_ne hki] at hk
        exact hI j k t hj hk

/-! ## What is owned is there -/

/-- A runner in the middle of `ainvoke` has found the thread or put its checkpoint. -/
theorem Effect.invokesThread {run : WorkflowRun} {v : ResumeValue} {inv : Invocation}
    (he : Effect sh i p a sh' p') (hP : p.ThreadSound sh.checkpoints)
    (hp : p' = .runner (.invoking run v inv)) :
    (∃ inv₀, p = .runner (.invoking run v inv₀) ∧ sh'.checkpoints = sh.checkpoints) ∨
      (sh'.checkpoints.get run.ticketId).isSome := by
  cases he with
  | tick elapsed => exact .inl ⟨inv, hp, rfl⟩
  | @ran dr inv₀ n db result hr hn hrun =>
    cases dr <;> cases hp
    exact .inl ⟨inv₀, rfl, rfl⟩
  | @put dr inv₀ values next hr hn =>
    cases dr <;> cases hp
    right
    have hget : (sh.checkpoints.put inv₀.checkpoint.threadId values next).get run.ticketId =
        some (sh.checkpoints.fresh inv₀.checkpoint.threadId values next) := by
      rw [← hP.1, Checkpoints.get_put_self]
    rw [hget]
    rfl
  | @suspended dr inv₀ env hr => cases dr <;> cases hp
  | failed hm hs hf => split at hp <;> cases hp
  | quiet hl =>
    cases hl with
    | @ended dr inv₀ hr hn => cases dr <;> cases hp
    | @resumed run v cp hcp =>
      cases hp
      exact .inr (by rw [hcp]; rfl)
    | _ => cases hp
  | _ => cases hp

/-- A thread that nobody deletes stays. -/
theorem ThreadChange.isSome (hc : ThreadChange sh p a sh' p' t)
    (hd : a = .advance → t ∉ p.deletes) (h : (sh.checkpoints.get t).isSome) :
    (sh'.checkpoints.get t).isSome := by
  cases hc with
  | same heq => rwa [heq]
  | created hp ha ht hf hdb hlog hseq heq => rw [heq]; rfl
  | put hp ha ht hr hn hp' hdb hlog hseq heq => rw [heq]; rfl
  | suspended hp ha ht hr hcp hid hp' hdb hlog heq => rw [heq]; rfl
  | deleted hp ha heq =>
    subst hp
    exact absurd List.mem_cons_self (hd ha)

theorem Present.effect (h : Present w) (hO : Ownership w) (hw : World.Reachable w)
    (hok : Spared w i a) (he : Effect w.shared i (w.procs i) a sh' p') :
    Present ⟨sh', Function.update w.procs i p'⟩ := by
  refine ⟨fun j k t hj hk => ?_, fun j inv hj => ?_, fun j run v inv hj => ?_⟩
  · change t ∈ (Function.update w.procs i p' j).deletes at hj
    change (Function.update w.procs i p' k).SeedsThread t at hk
    have hkeep : t ∈ (w.procs j).deletes → ∀ k, (Function.update w.procs i p' k).SeedsThread t →
        False := by
      intro hold k hk
      by_cases hki : k = i
      · rw [hki, Function.update_self] at hk
        rcases he.seedsFrom hk with hs | hf
        · exact h.spared j i t hold hs
        · obtain ⟨e, hm, hid⟩ := (hw.ofCreated.2 j).deletes t hold
          exact hf e hm hid
      · rw [Function.update_of_ne hki] at hk
        exact h.spared j k t hold hk
    by_cases hji : j = i
    · rw [hji, Function.update_self] at hj
      rcases he.deletes hj with hold | ⟨maxAge, db, ts, rfl, harch, rfl, hm⟩
      · exact hkeep (hji ▸ hold) k hk
      · obtain ⟨r, hr, -⟩ := (archiveTerminalRuns_moves hw.held.1 harch).mp hm
        have hki : k ≠ i := by
          rintro rfl
          rw [Function.update_self] at hk
          obtain ⟨inv, hp', -⟩ := hk
          rw [hp'] at hj
          cases hj
        rw [Function.update_of_ne hki] at hk
        rw [(hO.seeding k t hk).1] at hr
        cases hr
    · rw [Function.update_of_ne hji] at hj
      exact hkeep hj k hk
  · change Function.update w.procs i p' j = _ at hj
    by_cases hji : j = i
    · rw [hji, Function.update_self] at hj
      rcases he.seeds hj with ⟨inv₀, hp₀, hcp, hsame⟩ | ⟨-, hget, -⟩
      · change sh'.checkpoints.get _ = _
        rw [hsame, hcp]
        exact h.seeding i inv₀ hp₀
      · exact hget
    · rw [Function.update_of_ne hji] at hj
      have hold := h.seeding j inv hj
      have hseeds : (w.procs j).SeedsThread inv.checkpoint.threadId := ⟨inv, hj, rfl⟩
      have hdriver : ∀ (dr : Driver) (inv' : Invocation), w.procs i = dr.driving inv' →
          inv'.checkpoint.threadId = inv.checkpoint.threadId → False := by
        intro dr inv' hp ht
        cases dr with
        | createTicket =>
          exact hji (hw.one_request j i _ (.inl hseeds) (.inl ⟨inv', hp, ht⟩))
        | step run v =>
          have hP := hw.threads.2 i
          rw [hp] at hP
          exact (hO.seeding j _ hseeds).2 i ⟨run, by rw [hp]; rfl, hP.1.symm.trans ht⟩
      cases he.threadChange inv.checkpoint.threadId with
      | same heq => exact heq.trans hold
      | created hp ha ht hf hdb hlog hseq heq =>
        obtain ⟨e, hm, hid⟩ := hw.requested (.inl hseeds)
        exact absurd hid (hf e hm)
      | put hp ha ht hr hn hp' hdb hlog hseq heq => exact (hdriver _ _ hp ht).elim
      | suspended hp ha ht hr hcp hid hp' hdb hlog heq => exact (hdriver _ _ hp ht).elim
      | deleted hp ha heq =>
        exact absurd hseeds (h.spared i j _ (by rw [hp]; exact List.mem_cons_self))
  · change Function.update w.procs i p' j = _ at hj
    change (sh'.checkpoints.get run.ticketId).isSome
    have kept : (w.shared.checkpoints.get run.ticketId).isSome → (∃ l, (w.procs l).Holds run.ticketId) →
        (sh'.checkpoints.get run.ticketId).isSome := by
      rintro hsome ⟨l, hl⟩
      refine (he.threadChange run.ticketId).isSome (fun ha hd => ?_) hsome
      subst ha
      exact hok _ hd l hl
    by_cases hji : j = i
    · rw [hji, Function.update_self] at hj
      rcases he.invokesThread (hw.threads.2 i) hj with ⟨inv₀, hp₀, hsame⟩ | hsome
      · rw [hsame]
        exact h.invoking i run v inv₀ hp₀
      · exact hsome
    · rw [Function.update_of_ne hji] at hj
      exact kept (h.invoking j run v inv hj) ⟨j, run, by rw [hj]; rfl, rfl⟩

theorem World.ReachableWhen.present {ok : World → WorkerId → Action → Prop}
    (hok : ∀ w i a, ok w i a → Owned w i a ∧ Spared w i a) (hw : World.ReachableWhen ok w) :
    Present w := by
  refine World.ReachableWhen.worldInvariant (I := Present) ?_ ?_ hw
  · exact ⟨fun _ _ _ h => (nomatch h), fun _ _ h => (nomatch h), fun _ _ _ _ h => nomatch h⟩
  · intro w i a sh' p' hr ha h he
    have hw : World.Reachable w := hr.reachable
    exact h.effect (World.ReachableWhen.ownership (fun w i a h => (hok w i a h).1) hr) hw
      (hok w i a ha).2 he

/-- Who drives a thread saves over the checkpoint it has read. -/
theorem Present.savesLatest (h : Present w) (hO : Ownership w)
    (hP : (w.procs i).ThreadSound w.shared.checkpoints) : SavesLatest w i := by
  intro inv hinv _
  have hinv := Option.mem_def.mp hinv
  unfold Proc.invocation at hinv
  split at hinv
  · rename_i inv' hp
    cases hinv
    rw [h.seeding i inv hp]
    rfl
  · rename_i run v inv' hp
    cases hinv
    obtain ⟨cp, hcp⟩ := Option.isSome_iff_exists.mp (h.invoking i run v inv hp)
    have hsame := (hO.knows i).invoking run v inv hp cp hcp
    rw [hp] at hP
    rw [hP.1, hcp, hsame]
    rfl
  · cases hinv

/-! ## A fleet with one runner -/

namespace Fleet
variable {f : Fleet} {r : ℕ}

/-- Service `r` is the only runner. -/
def OneRunner (r : ℕ) (f : Fleet) : Prop := ∀ i, (f.procs i).isRunner = true → i = r

/-- A runner does not insert the row of a ticket that `create_ticket` is still seeding. -/
def Settled (f : Fleet) (i : ℕ) : Action → Prop
  | .loop _ _ => ∀ c ∈ (f.world.procs (Nat.pair i 0)).creates, ∀ m,
      ¬ (f.world.procs m).SeedsThread c.1
  | _ => True

theorem isRunner_step {sh sh' : Shared} {i : ℕ} {service service' : Service} {a : Action}
    (h : Service.step sh i service a = some (sh', service')) :
    service'.isRunner = service.isRunner := by
  have handled : ∀ {k requests received x},
      (Service.handled k requests received x : Shared × Service).2.isRunner = false := by
    rintro k requests received ⟨sh, next⟩
    cases next <;> rfl
  have moved : ∀ {α : Type} {x : Option α} {g : α → Shared × Service},
      x.map g = some (sh', service') → (∀ y, (g y).2.isRunner = service.isRunner) →
      service'.isRunner = service.isRunner := by
    intro α x g hx hg
    obtain ⟨y, -, hy⟩ := Option.map_eq_some_iff.mp hx
    exact (congrArg (fun z => z.2.isRunner) hy).symm.trans (hg y)
  unfold Service.step at h
  split at h
  · cases h
    rfl
  · split at h <;> cases h
    rfl
  · split at h <;> cases h
    rfl
  · cases h
    rfl
  · split at h <;> cases h
    rfl
  · split at h <;> cases h
    rfl
  · cases h
    rfl
  · cases h
    rfl
  · exact moved h fun _ => rfl
  · exact moved h fun _ => handled
  · exact (congrArg (fun z => z.2.isRunner) (Option.some.inj h)).symm.trans handled
  · exact moved h fun _ => handled
  · exact moved h fun _ => rfl
  · exact moved h fun _ => rfl
  · exact moved h fun _ => rfl
  · exact moved h fun _ => rfl
  · exact moved h fun _ => rfl
  · cases h
    rfl
  · exact moved h fun _ => rfl
  · cases h

theorem oneRunner {ok : Fleet → ℕ → Action → Prop} (hf : Interleaving.ReachableWhen Service.step
    (fun f => Initial f ∧ OneRunner r f) ok f) : OneRunner r f := by
  refine hf.invariant (I := OneRunner r) (fun f h => h.2) ?_
  intro f i a sh' service' _ _ hI hp j hj
  change (Function.update f.procs i service' j).isRunner = true at hj
  by_cases hji : j = i
  · rw [hji, Function.update_self, isRunner_step hp] at hj
    rw [hji]
    exact hI i hj
  · rw [Function.update_of_ne hji] at hj
    exact hI j hj

/-- A step or a chore is a runner's. -/
theorem isRunner_of_runs {m : ℕ} (hm : (∃ pc, f.world.procs m = .runner pc) ∨
    ∃ pc, f.world.procs m = .janitor pc) :
    (f.procs m.unpair.1).isRunner = true ∧ m.unpair.2 = 0 := by
  simp only [world_procs] at hm
  cases hi : f.procs m.unpair.1 with
  | api requests received =>
    simp only [hi, Service.proc] at hm
    cases hreq : Service.request m.unpair.2 requests <;> simp [hreq] at hm
  | worker s l =>
    simp only [hi, Service.proc, DrainLoop.proc] at hm
    split at hm <;> simp at hm
  | runner s l =>
    refine ⟨rfl, ?_⟩
    cases hk : m.unpair.2 with
    | zero => rfl
    | succ k => simp [hi, hk, Service.proc] at hm

theorem OneRunner.runs (h : OneRunner r f) {m : ℕ} (hm : (∃ pc, f.world.procs m = .runner pc) ∨
    ∃ pc, f.world.procs m = .janitor pc) : m = Nat.pair r 0 := by
  obtain ⟨hrunner, hk⟩ := isRunner_of_runs hm
  rw [← Nat.pair_unpair m, h _ hrunner, hk]

theorem OneRunner.holder (h : OneRunner r f) {m : ℕ} {t : TicketId}
    (hm : (f.world.procs m).Holds t) : m = Nat.pair r 0 := by
  obtain ⟨run, hrun, -⟩ := hm
  refine h.runs (.inl ?_)
  unfold Proc.holds at hrun
  split at hrun
  · rename_i pc hp
    exact ⟨pc, hp⟩
  · cases hrun

/-- What the system sees the runner do, its loop does. -/
theorem Does.loop {service : Service} {a : Action} {k : ℕ} {b : TicketFlow.Action}
    (h : service.Does a k b) (hr : service.isRunner = true) : k = 0 ∧ ∃ locked order,
      a = .loop locked order := by
  cases service with
  | api requests received => cases hr
  | worker s l => cases hr
  | runner s l =>
    cases a with
    | loop locked order => exact ⟨h.1, locked, order, rfl⟩
    | _ => exact h.elim

theorem OneRunner.owned {i k : ℕ} {a : Action} {b : TicketFlow.Action} {sh' : Shared} {p' : Proc}
    (h : OneRunner r f) (hw : World.Reachable f.world) (hs : Settled f i a)
    (hdoes : (f.procs i).Does a k b)
    (hstep : Proc.step f.shared (Nat.pair i k) ((f.procs i).proc k) b = some (sh', p')) :
    Owned f.world (Nat.pair i k) b ∧ Spared f.world (Nat.pair i k) b := by
  have hproc : f.world.procs (Nat.pair i k) = (f.procs i).proc k := world_procs_pair
  cases b with
  | claimRun locked =>
    refine ⟨fun db run _ j hj => ?_, trivial⟩
    have hrunner : (f.procs i).isRunner = true := by
      cases hi : f.procs i with
      | runner s l => rfl
      | worker s l =>
        rw [hi] at hdoes
        exact hdoes.elim
      | api requests received =>
        rw [hi] at hdoes
        cases a <;> first | exact hdoes.elim | cases hdoes
    obtain ⟨rfl, -⟩ := Does.loop hdoes hrunner
    rw [h.holder hj, ← h i hrunner, hproc] at hj
    -- the runner claims only while it is idle
    have hidle : (f.procs i).proc 0 = .idle := by
      by_contra hne
      simp [Proc.step, hne] at hstep
    rw [hidle] at hj
    obtain ⟨run, hrun, -⟩ := hj
    cases hrun
  | advance =>
    refine ⟨fun c hc j hj => ?_, fun t ht j hj => ?_⟩
    · unfold Proc.creates at hc
      split at hc
      · rename_i t out hp
        cases hc
        have hsame := hw.one_request j (Nat.pair i k) t (.inl hj) (.inr ⟨out, hp⟩)
        obtain ⟨inv, hseed, -⟩ := hj
        rw [hsame, hp] at hseed
        cases hseed
      · rename_i t values rest hp
        cases hc
        obtain ⟨hrunner, -⟩ := isRunner_of_runs (.inr ⟨_, hp⟩)
        rw [Nat.unpair_pair] at hrunner
        obtain ⟨rfl, locked, order, rfl⟩ := Does.loop hdoes hrunner
        exact hs (t, values) (by rw [hp]; rfl) j hj
      · cases hc
    · unfold Proc.deletes at ht
      split at ht
      · rename_i ts maxAge hp
        have hm := h.runs (.inr ⟨_, hp⟩)
        rw [h.holder hj, ← hm, hp] at hj
        obtain ⟨run, hrun, -⟩ := hj
        cases hrun
      · cases ht
  | _ => exact ⟨trivial, trivial⟩

/-- A fleet with one runner, whose reconciler does not insert the row of a ticket that is still
being seeded, is a run of the system in which every run has one owner and nobody overtaken saves. -/
theorem one_runner_in_order (hf : Interleaving.ReachableWhen Service.step
    (fun f => Initial f ∧ OneRunner r f) Settled f) :
    World.ReachableWhen (fun w i a => Owned w i a ∧ InOrder w i a) f.world := by
  have hf' : ReachableWhen (fun f i a => OneRunner r f ∧ Settled f i a) f :=
    (hf.strengthen fun f i a hr ha => ⟨oneRunner hr, ha⟩).of_init fun _ h => h.1
  have hw : World.ReachableWhen (fun w i a => Owned w i a ∧ Spared w i a) f.world := by
    refine ReachableWhen.refines hf' ?_ (fun _ _ _ => ⟨trivial, trivial⟩)
      fun _ _ _ _ _ _ _ => ⟨trivial, trivial⟩
    intro f i a k b s p hr ha hw hdoes hstep
    exact ha.1.owned (hw.reachable) ha.2 hdoes hstep
  refine hw.strengthen fun w i a hr ha => ?_
  have hO : Ownership w := World.ReachableWhen.ownership (fun _ _ _ h => h.1) hr
  have hP : Present w := World.ReachableWhen.present (fun _ _ _ => id) hr
  refine ⟨ha.1, ?_⟩
  cases a with
  | advance => exact hP.savesLatest hO ((World.Reachable.threads hr.reachable).2 i)
  | _ => exact trivial

/-- A condition that is quick to decide: no run row is inserted by a chore. -/
def Uninserted (f : Fleet) (i : ℕ) : Action → Prop
  | .loop _ _ => (f.world.procs (Nat.pair i 0)).creates.isNone = true
  | _ => True

instance (f : Fleet) (i : ℕ) : DecidablePred (Uninserted f i)
  | .loop _ _ => inferInstanceAs (Decidable (_ = true))
  | .tick _ | .clock _ | .restart _ | .stop | .cancel | .createTicket _ | .submitApproval _ _
  | .carry _ _ | .answer _ _ | .failActivity _ _ _ | .breakOff _ => isTrue trivial

theorem Uninserted.settled {i : ℕ} {a : Action} (h : Uninserted f i a) : Settled f i a := by
  cases a with
  | loop locked order =>
    intro c hc
    have hnone : (f.world.procs (Nat.pair i 0)).creates.isNone = true := h
    rw [Option.mem_def.mp hc] at hnone
    cases hnone
  | _ => exact trivial

theorem one_runner_in_order_small : ∃ f : Fleet,
    (f.shared.db.run 7).map (·.status) = some .drafting ∧
      World.ReachableWhen (fun w i a => Owned w i a ∧ InOrder w i a) f.world := by
  have hrun : (small.runWhen Service.step Uninserted smallRun).map (fun f =>
      decide ((f.shared.db.run 7).map (·.status) = some .drafting)) = some true := by
    decide +kernel
  obtain ⟨f, hf, hp⟩ := exists_reachableWhen_of_run hrun
  have hinit : ∀ f, f = small → Initial f ∧ OneRunner 2 f := by
    rintro f rfl
    refine ⟨small_initial, fun i hi => ?_⟩
    by_contra hne
    simp only [small, if_neg hne] at hi
    split at hi <;> cases hi
  have hf' : Interleaving.ReachableWhen Service.step (fun f => Initial f ∧ OneRunner 2 f) Settled f :=
    (hf.mono fun _ _ _ h => h.settled).of_init hinit
  exact ⟨f, of_decide_eq_true hp, one_runner_in_order hf'⟩

end Fleet
end TicketFlow
