import TicketFlow.Fleet

/-! # The loops in a fleet

What the deployed loops keep while everything else goes on around them: a worker's bounds on what it
has in flight and on what it starts, and when a runner runs its chores. -/

namespace TicketFlow
open Interleaving
set_option autoImplicit false

/-- Service `i` is not restarted. -/
def Fleet.Stays (i : ℕ) (_ : Fleet) (j : ℕ) : Fleet.Action → Prop
  | .restart _ => j ≠ i
  | _ => True

instance (i : ℕ) (f : Fleet) (j : ℕ) : DecidablePred (Fleet.Stays i f j)
  | .restart _ => inferInstanceAs (Decidable (j ≠ i))
  | .tick _ | .clock _ | .stop | .cancel | .createTicket _ | .submitApproval _ _ | .loop _ _
  | .carry _ _ | .answer _ _ | .failActivity _ _ _ | .breakOff _ => isTrue trivial

theorem Fleet.Stays.not_restart {i : ℕ} {f : Fleet} {a : Fleet.Action} (h : Stays i f i a)
    (reading : ℚ) : a ≠ .restart reading := by
  rintro rfl
  exact h rfl

variable {f f₀ : Fleet} {i : ℕ} {sh sh' : Shared} {service' : Service} {a : Fleet.Action}

/-! ## A worker's loop -/

section Worker
variable {s : DrainLoop.Settings} {l l' l₀ : DrainLoop} {rate t₀ : ℚ} {b : TokenBucket}

/-- How a step of a worker changes what its loop counts. -/
inductive Service.WorkerMoves (s : DrainLoop.Settings) (l l' : DrainLoop) : Prop
  | loop {order : List ℕ} : l.advance s order = some l' → WorkerMoves s l l'
  | cancel : l.cancel = some l' → WorkerMoves s l l'
  | same : l'.bucket = l.bucket → l'.created = l.created → l'.phase = l.phase →
      l.clock ≤ l'.clock → (l.stopped = true → l'.stopped = true) → WorkerMoves s l l'

theorem Service.worker_moves (h : Service.step sh i (.worker s l) a = some (sh', service'))
    (ha : ∀ reading, a ≠ .restart reading) :
    ∃ l', service' = .worker s l' ∧ WorkerMoves s l l' := by
  cases a with
  | tick elapsed =>
    cases h
    exact ⟨l, rfl, .same rfl rfl rfl (le_refl _) id⟩
  | clock reading =>
    simp only [Service.step] at h
    split at h
    · rename_i hle
      cases h
      exact ⟨_, rfl, .same rfl rfl rfl hle id⟩
    · cases h
  | restart reading => exact absurd rfl (ha reading)
  | stop =>
    cases h
    exact ⟨_, rfl, .same rfl rfl rfl (le_refl _) fun _ => rfl⟩
  | cancel =>
    obtain ⟨l', hl, heq⟩ := Option.map_eq_some_iff.mp h
    cases heq
    exact ⟨l', rfl, .cancel hl⟩
  | createTicket ticket => cases h
  | submitApproval ticketId decision => cases h
  | loop locked order =>
    obtain ⟨l', hl, heq⟩ := Option.map_eq_some_iff.mp h
    cases heq
    exact ⟨l', rfl, .loop hl⟩
  | carry k locked =>
    obtain ⟨⟨sh₁, l'⟩, hl, heq⟩ := Option.map_eq_some_iff.mp h
    cases heq
    refine ⟨l', rfl, ?_⟩
    unfold DrainLoop.carry at hl
    have proceeds : ∀ {y : Shared × Worker.Next} {x : Shared × DrainLoop},
        l.proceed k y = x → WorkerMoves s l x.2 := by
      rintro ⟨sh₂, next⟩ x rfl
      cases next <;> exact .same rfl rfl rfl (le_refl _) id
    split at hl
    · exact proceeds (Option.some.inj hl)
    · obtain ⟨y, -, hy⟩ := Option.map_eq_some_iff.mp hl
      exact proceeds hy
    · cases hl
  | answer k result =>
    obtain ⟨l', hl, heq⟩ := Option.map_eq_some_iff.mp h
    cases heq
    obtain ⟨task, -, hif⟩ := Option.bind_eq_some_iff.mp hl
    split at hif
    · cases hif
      exact ⟨_, rfl, .same rfl rfl rfl (le_refl _) id⟩
    · cases hif
  | failActivity k error permanent =>
    obtain ⟨l', hl, heq⟩ := Option.map_eq_some_iff.mp h
    cases heq
    obtain ⟨task, -, hif⟩ := Option.bind_eq_some_iff.mp hl
    split at hif
    · cases hif
      exact ⟨_, rfl, .same rfl rfl rfl (le_refl _) id⟩
    · cases hif
  | breakOff k =>
    obtain ⟨l', hl, heq⟩ := Option.map_eq_some_iff.mp h
    cases heq
    unfold DrainLoop.breakOff at hl
    split at hl
    · cases hl
      exact ⟨_, rfl, .same rfl rfl rfl (le_refl _) id⟩
    · cases hl
      exact ⟨_, rfl, .same rfl rfl rfl (le_refl _) id⟩
    · cases hl

/-- What a worker's moves keep, its runs without a restart keep. -/
theorem Fleet.worker_invariant {I : DrainLoop → Prop} (h₀ : f₀.procs i = .worker s l₀) (hI : I l₀)
    (hstep : ∀ l l', I l → Service.WorkerMoves s l l' → I l')
    (hf : Interleaving.ReachableWhen Service.step (· = f₀) (Fleet.Stays i) f) :
    ∃ l, f.procs i = .worker s l ∧ I l := by
  refine hf.invariant (I := fun f => ∃ l, f.procs i = .worker s l ∧ I l) ?_ ?_
  · rintro _ rfl
    exact ⟨l₀, h₀, hI⟩
  · rintro f j a sh' service' - ha ⟨l, hl, hI⟩ hp
    change ∃ l, Function.update f.procs j service' i = .worker s l ∧ I l
    by_cases hij : i = j
    · subst hij
      rw [hl] at hp
      obtain ⟨l', rfl, hm⟩ := Service.worker_moves hp ha.not_restart
      exact ⟨l', Function.update_self .., hstep l l' hI hm⟩
    · exact ⟨l, (Function.update_of_ne hij ..).trans hl, hI⟩

theorem Fleet.worker_sound (h₀ : f₀.procs i = .worker s l₀) (hsound : l₀.Sound s)
    (hf : Interleaving.ReachableWhen Service.step (· = f₀) (Fleet.Stays i) f) :
    (f.procs i).Sound := by
  refine hf.invariant (I := fun f => (f.procs i).Sound) ?_ ?_
  · rintro _ rfl
    rw [h₀]
    exact hsound
  · intro f j a sh' service' _ _ hI hp
    change (Function.update f.procs j service' i).Sound
    by_cases hij : i = j
    · subst hij
      rw [Function.update_self]
      exact (Service.step_moves hI hp).1
    · rw [Function.update_of_ne hij]
      exact hI

theorem DrainLoop.Paced.moves (h : l.Paced rate t₀ b) (hm : Service.WorkerMoves s l l') :
    ∃ b', l'.Paced rate t₀ b' := by
  cases hm with
  | loop hl => exact h.advance hl
  | cancel hl =>
    unfold DrainLoop.cancel at hl
    split at hl <;> cases hl <;> exact ⟨b, h.of_same rfl rfl (le_refl _) (.inr nofun)⟩
  | same hb hc hp ht hs => exact ⟨b, h.of_same hb hc ht (.inl hp)⟩

theorem DrainLoop.paced_start (h : DrainLoop.start s t₀ = .ok l) (hr : s.maxPerSecond = some rate) :
    ∃ b, l.Paced rate t₀ b := by
  unfold DrainLoop.start at h
  split at h
  · cases h
  · rw [hr] at h
    cases hb : TokenBucket.init rate with
    | error e =>
      simp only [hb] at h
      cases h
    | ok b =>
      simp only [hb] at h
      cases h
      obtain ⟨hrate, hfresh⟩ := TokenBucket.init_eq_ok hb
      have hpos : 0 < b.interval := one_div_pos.mpr b.rate_pos
      refine ⟨b, rfl, hrate, le_refl _, fun _ => rfl, fun x hx => ?_, nofun, ?_⟩
      · rw [hfresh] at hx
        cases hx
      · simpa using hpos.le

/-- However many workers run and whatever befalls the other processes, a worker has no more than
`max_concurrent` tasks in flight, a worker that is throttled has started no more of them than its
rate allows in the time since its start, and one that has left its loop has left none behind. -/
theorem drain_bounded (h₀ : f₀.procs i = .worker s l₀)
    (hstart : DrainLoop.start s l₀.clock = .ok l₀)
    (hf : Interleaving.ReachableWhen Service.step (· = f₀) (Fleet.Stays i) f) :
    ∃ l, f.procs i = .worker s l ∧ (l.inFlight.length : ℤ) ≤ s.maxConcurrent ∧
      (∀ rate, s.maxPerSecond = some rate →
        (l.created : ℤ) ≤ ⌊(l.clock - l₀.clock) * rate⌋ + 1) ∧
      (l.phase = .left → ∀ k, f.world.procs (Nat.pair i k) = .idle) := by
  have hsound : l₀.Sound s := (Service.worker_started hstart l₀.created).1
  have hf' := Fleet.worker_sound h₀ hsound hf
  obtain ⟨l, hl, -⟩ := Fleet.worker_invariant (I := fun _ => True) h₀ trivial
    (fun _ _ _ _ => trivial) hf
  rw [hl] at hf'
  have hf' : l.Sound s := hf'
  refine ⟨l, hl, hf'.bounded, fun rate hrate => ?_, fun hleft k => ?_⟩
  · obtain ⟨b, hb⟩ := DrainLoop.paced_start hstart hrate
    obtain ⟨l', hl', b', hb'⟩ := Fleet.worker_invariant (I := fun l => ∃ b, l.Paced rate l₀.clock b)
      h₀ ⟨b, hb⟩ (fun l l' ⟨b, hb⟩ hm => hb.moves hm) hf
    cases hl.symm.trans hl'
    exact hb'.created_le
  · rw [Fleet.world_procs_pair, hl]
    change l.proc k = .idle
    unfold DrainLoop.proc
    split
    · rename_i pc hk
      exact absurd hleft (hf'.not_left hk rfl)
    · rfl

/-- A worker of the agent queue with two tokens a second. -/
def Fleet.throttled : DrainLoop.Settings := ⟨.agentTaskQueue, some 2, 2, 1 / 10⟩

/-- A fleet of such workers, each where `l` is. -/
def Fleet.ofWorker (l : DrainLoop) : Fleet := ⟨.empty, fun _ => .worker throttled l⟩

/-- Worker 0 has created `n` tasks. -/
def Fleet.hasCreated (n : ℕ) (f : Fleet) : Bool :=
  match f.procs 0 with
  | .worker _ l => decide (l.created = n)
  | _ => false

theorem drain_bounded_throttled : ∃ (f : Fleet) (l : DrainLoop),
    f.procs 0 = .worker Fleet.throttled l ∧ l.created = 2 ∧
      (l.created : ℤ) ≤ ⌊(l.clock - 0) * (2 : ℚ)⌋ + 1 := by
  let bucket : TokenBucket := ⟨2, none, by norm_num⟩
  let l₀ : DrainLoop := ⟨0, false, some bucket, [], 0, .top⟩
  have hrun : ((Fleet.ofWorker l₀).runWhen Service.step (Fleet.Stays 0)
      [(0, .loop Schedule.unlocked []), (0, .loop Schedule.unlocked []), (0, .clock (1 / 2)),
        (0, .loop Schedule.unlocked [])]).map (Fleet.hasCreated 2) = some true := by
    decide +kernel
  obtain ⟨f, hf, hp⟩ := exists_reachableWhen_of_run hrun
  have hstart : DrainLoop.start Fleet.throttled 0 = .ok l₀ := by
    simp [DrainLoop.start, Fleet.throttled, TokenBucket.init, bucket, l₀, Except.map]
  obtain ⟨l, hl, -, hrate, -⟩ := drain_bounded rfl hstart hf
  simp only [Fleet.hasCreated, hl] at hp
  exact ⟨f, l, hl, of_decide_eq_true hp, hrate 2 rfl⟩

/-- Once `stop` is set a worker starts at most one more task, and none unless it is waiting for that
task's token. -/
theorem stop_starts_no_more (h₀ : f₀.procs i = .worker s l₀) (hstop : l₀.stopped = true)
    (hf : Interleaving.ReachableWhen Service.step (· = f₀) (Fleet.Stays i) f) :
    ∃ l, f.procs i = .worker s l ∧ l.created ≤ l₀.created + 1 ∧
      ((∀ wake, l₀.phase ≠ .acquiring wake) → l.created ≤ l₀.created) := by
  have hkeep : ∀ l l', (l.stopped = true ∧ l.reserved ≤ l₀.reserved) → Service.WorkerMoves s l l' →
      l'.stopped = true ∧ l'.reserved ≤ l₀.reserved := by
    rintro l l' ⟨hs, hle⟩ hm
    cases hm with
    | loop hl =>
      obtain ⟨hs', hle'⟩ := DrainLoop.reserved_advance_stopped hs hl
      exact ⟨hs', hle'.trans hle⟩
    | cancel hl =>
      have hcreated := l.created_le_reserved
      unfold DrainLoop.cancel at hl
      split at hl <;> cases hl <;> exact ⟨hs, hcreated.trans hle⟩
    | same hb hc hp ht hs' =>
      refine ⟨hs' hs, ?_⟩
      rw [DrainLoop.reserved, hp, hc]
      exact hle
  obtain ⟨l, hl, -, hle⟩ := Fleet.worker_invariant h₀ ⟨hstop, Nat.le_refl _⟩ hkeep hf
  have hcreated := l.created_le_reserved
  have hres := l₀.reserved_le
  refine ⟨l, hl, by omega, fun hne => ?_⟩
  rw [DrainLoop.reserved_of_ne hne] at hle
  omega

/-- A worker that is stopped while it waits for a token starts the task it waits for. -/
theorem stop_starts_no_more_acquiring : ∃ (f : Fleet) (l : DrainLoop),
    f.procs 0 = .worker Fleet.throttled l ∧ l.created = 2 ∧ l.created ≤ 1 + 1 := by
  let bucket : TokenBucket := ⟨2, some 1, by norm_num⟩
  let l₀ : DrainLoop := ⟨0, true, some bucket, [(0, .scheduled)], 1, .acquiring (1 / 2)⟩
  have hrun : ((Fleet.ofWorker l₀).runWhen Service.step (Fleet.Stays 0)
      [(0, .clock (1 / 2)), (0, .loop Schedule.unlocked []), (0, .loop Schedule.unlocked [])]).map
        (Fleet.hasCreated 2) = some true := by decide +kernel
  obtain ⟨f, hf, hp⟩ := exists_reachableWhen_of_run hrun
  have h₀ : (Fleet.ofWorker l₀).procs 0 = .worker Fleet.throttled l₀ := rfl
  obtain ⟨l, hl, hle, -⟩ := stop_starts_no_more h₀ rfl hf
  simp only [Fleet.hasCreated, hl] at hp
  exact ⟨f, l, hl, of_decide_eq_true hp, hle⟩

end Worker

/-! ## A runner's loop -/

section Runner
variable {s : RunnerLoop.Settings} {l l' : RunnerLoop} {c₀ now : ℚ}
  {steps later earlier : List (Fleet × ℕ × Fleet.Action)} {x : Fleet × ℕ × Fleet.Action}

/-- What a step shows of runner `i`'s loop, where it is one of its moves. -/
def Fleet.seen (i : ℕ) (obs : RunnerLoop → Option ℚ) (x : Fleet × ℕ × Fleet.Action) : Option ℚ :=
  match x.2.2, x.1.procs i with
  | .loop _ _, .runner _ l => if x.2.1 = i then obs l else none
  | _, _ => none

theorem Service.runner_moves (h : Service.step sh i (.runner s l) a = some (sh', service'))
    (ha : ∀ reading, a ≠ .restart reading) : ∃ l', service' = .runner s l' ∧
      ((∃ locked order, a = .loop locked order ∧
          l.advance s (Nat.pair i 0) locked sh = some (sh', l')) ∨
        ((∀ locked order, a ≠ .loop locked order) ∧ l.clock ≤ l'.clock ∧ l'.phase = l.phase ∧
          l'.nextJanitorAt = l.nextJanitorAt ∧ l'.nextRetentionAt = l.nextRetentionAt)) := by
  cases a with
  | tick elapsed =>
    cases h
    exact ⟨l, rfl, .inr ⟨nofun, le_refl _, rfl, rfl, rfl⟩⟩
  | clock reading =>
    simp only [Service.step] at h
    split at h
    · rename_i hle
      cases h
      exact ⟨_, rfl, .inr ⟨nofun, hle, rfl, rfl, rfl⟩⟩
    · cases h
  | restart reading => exact absurd rfl (ha reading)
  | stop =>
    cases h
    exact ⟨_, rfl, .inr ⟨nofun, le_refl _, rfl, rfl, rfl⟩⟩
  | loop locked order =>
    obtain ⟨⟨sh₁, l'⟩, hl, heq⟩ := Option.map_eq_some_iff.mp h
    cases heq
    exact ⟨l', rfl, .inl ⟨locked, order, rfl, hl⟩⟩
  | _ => cases h

theorem Fleet.seen_runner {obs : RunnerLoop → Option ℚ} {locked : TicketId → Bool}
    {order : List ℕ} (hl : f.procs i = .runner s l) :
    Fleet.seen i obs (f, i, .loop locked order) = obs l := by
  simp only [Fleet.seen, hl, if_true]

theorem Fleet.seen_eq_some {obs : RunnerLoop → Option ℚ} (h : Fleet.seen i obs x = some now)
    (hl : x.1.procs i = .runner s l) : obs l = some now := by
  unfold Fleet.seen at h
  split at h
  · rename_i locked order s' l' ha hl'
    cases hl'.symm.trans hl
    split at h
    · exact h
    · cases h
  · cases h

/-- Over a run without a restart of the runner, its loop knows the passes of its chores. -/
theorem Fleet.chores (h₀ : f₀.procs i = .runner s (.start c₀)) (hc : 0 ≤ c₀)
    (hrun : Run Service.step (· = f₀) (Fleet.Stays i) steps f) :
    ∃ l, f.procs i = .runner s l ∧ l.Chores s
      (steps.filterMap (Fleet.seen i RunnerLoop.beginsJanitor))
      (steps.filterMap (Fleet.seen i RunnerLoop.beginsRetention)) := by
  refine hrun.invariant (I := fun steps f => ∃ l, f.procs i = .runner s l ∧ l.Chores s
      (steps.filterMap (Fleet.seen i RunnerLoop.beginsJanitor))
      (steps.filterMap (Fleet.seen i RunnerLoop.beginsRetention))) ?_ ?_
  · rintro _ rfl
    exact ⟨_, h₀, RunnerLoop.chores_start hc⟩
  · rintro steps f j a sh' service' - ha ⟨l, hl, hI⟩ hp
    have unseen : ∀ obs, Fleet.seen i obs (f, j, a) = none →
        ((f, j, a) :: steps).filterMap (Fleet.seen i obs) =
          steps.filterMap (Fleet.seen i obs) := fun obs hnone => List.filterMap_cons_none hnone
    change ∃ l, Function.update f.procs j service' i = .runner s l ∧ _
    by_cases hij : i = j
    · subst hij
      rw [Function.update_self]
      rw [hl] at hp
      obtain ⟨l', rfl, ⟨locked, order, rfl, hadv⟩ | ⟨hno, ht, hphase, hj, hr⟩⟩ :=
        Service.runner_moves hp ha.not_restart
      · refine ⟨l', rfl, ?_⟩
        have hnext := hI.advance hadv
        have toList : ∀ obs : RunnerLoop → Option ℚ,
            ((f, i, Fleet.Action.loop locked order) :: steps).filterMap (Fleet.seen i obs) =
              (obs l).toList ++ steps.filterMap (Fleet.seen i obs) := by
          intro obs
          have hseen : Fleet.seen i obs (f, i, .loop locked order) = obs l := Fleet.seen_runner hl
          cases ho : obs l with
          | none => rw [List.filterMap_cons_none (hseen.trans ho)]; rfl
          | some t => rw [List.filterMap_cons_some (hseen.trans ho)]; rfl
        rw [toList, toList]
        exact hnext
      · refine ⟨l', rfl, ?_⟩
        have hnone : ∀ obs, Fleet.seen i obs (f, i, a) = none := by
          intro obs
          unfold Fleet.seen
          split
          · rename_i locked order s' l' ha hl'
            exact absurd ha (hno locked order)
          · rfl
        rw [unseen _ (hnone _), unseen _ (hnone _)]
        exact hI.later ht hphase hj hr
    · rw [Function.update_of_ne hij]
      have hnone : ∀ obs, Fleet.seen i obs (f, j, a) = none := by
        intro obs
        unfold Fleet.seen
        split
        · exact if_neg fun he => hij he.symm
        · rfl
      rw [unseen _ (hnone _), unseen _ (hnone _)]
      exact ⟨l, hl, hI⟩

/-- However long its chores and steps take, a runner's iteration runs the janitor exactly if it
began one interval or more after every pass of the janitor before, and retention likewise. -/
theorem chores_run_when_due (h₀ : f₀.procs i = .runner s (.start c₀)) (hc : 0 ≤ c₀)
    (hrun : Run Service.step (· = f₀) (Fleet.Stays i) (later ++ x :: earlier) f) :
    (Fleet.seen i RunnerLoop.begins x = some now →
      (Fleet.seen i RunnerLoop.beginsJanitor x = some now ↔
        ∀ t ∈ earlier.filterMap (Fleet.seen i RunnerLoop.beginsJanitor),
          t + s.janitorInterval ≤ now)) ∧
    (Fleet.seen i RunnerLoop.decidesRetention x = some now →
      (Fleet.seen i RunnerLoop.beginsRetention x = some now ↔
        ∀ t ∈ earlier.filterMap (Fleet.seen i RunnerLoop.beginsRetention),
          t + s.retentionInterval ≤ now)) := by
  obtain ⟨f₁, j, a⟩ := x
  obtain ⟨l, hl, hI⟩ := Fleet.chores h₀ hc hrun.before
  have same : ∀ {obs obs' : RunnerLoop → Option ℚ},
      Fleet.seen i obs (f₁, j, a) = some now →
      (Fleet.seen i obs' (f₁, j, a) = some now ↔ obs' l = some now) := by
    intro obs obs' hseen
    unfold Fleet.seen at hseen ⊢
    simp only [hl] at hseen ⊢
    split at hseen
    · rename_i locked order s' l' hl'
      cases hl'
      split at hseen
      · rename_i hj
        rw [if_pos hj]
      · cases hseen
    · cases hseen
  refine ⟨fun hb => ?_, fun hb => ?_⟩
  · rw [same hb]
    exact hI.janitor_iff (Fleet.seen_eq_some hb hl)
  · rw [same hb]
    exact hI.retention_iff (Fleet.seen_eq_some hb hl)

/-- A fleet of runners that are about to begin. -/
def Fleet.ofRunner : Fleet := ⟨.empty, fun _ => .runner ⟨1, 30, 3600, seconds 86400⟩ (.start 0)⟩

/-- Runner 0 is about to begin an iteration at `now`. -/
def Fleet.atTop (now : ℚ) (f : Fleet) : Bool :=
  match f.procs 0 with
  | .runner _ l => decide (l.begins = some now)
  | _ => false

theorem chores_run_when_due_idle : ∃ (earlier : List (Fleet × ℕ × Fleet.Action))
    (x : Fleet × ℕ × Fleet.Action), Fleet.seen 0 RunnerLoop.begins x = some 1 ∧
      (Fleet.seen 0 RunnerLoop.beginsJanitor x = some 1 ↔
        ∀ t ∈ earlier.filterMap (Fleet.seen 0 RunnerLoop.beginsJanitor), t + 30 ≤ 1) := by
  have hrun : ((Fleet.ofRunner.runWhen Service.step (Fleet.Stays 0)
      (List.replicate 9 (0, .loop Schedule.unlocked []) ++
        [(0, .clock 1), (0, .loop Schedule.unlocked [])])).bind fun f =>
      if Fleet.atTop 1 f then f.runWhen Service.step (Fleet.Stays 0)
        [(0, .loop Schedule.unlocked [])] else none).map (fun _ => true) = some true := by
    decide +kernel
  obtain ⟨steps, f, f', hrun, hm, hp, -⟩ := exists_history_of_run hrun
  obtain ⟨later, earlier, rfl⟩ := List.append_of_mem hm
  unfold Fleet.atTop at hp
  split at hp
  · rename_i s l hl
    have hseen : Fleet.seen 0 RunnerLoop.begins (f, 0, .loop Schedule.unlocked []) = some 1 := by
      rw [Fleet.seen_runner hl]
      exact of_decide_eq_true hp
    have h₀ : Fleet.ofRunner.procs 0 = .runner ⟨1, 30, 3600, seconds 86400⟩ (.start 0) := rfl
    exact ⟨earlier, _, hseen, (chores_run_when_due h₀ (le_refl _) hrun).1 hseen⟩
  · cases hp

end Runner
end TicketFlow
