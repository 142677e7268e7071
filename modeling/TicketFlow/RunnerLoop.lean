import TicketFlow.Library.Pacing
import TicketFlow.System

/-! # The runner's loop

`run_forever` of `runner.py`: an iteration reads the clock once, runs the chores that are due by it,
takes one `step` and pauses when that found no work. Each of its database transactions is an action
of its own. -/

namespace TicketFlow
open Pacing
set_option autoImplicit false

namespace RunnerLoop

/-- The keyword arguments of `run_forever`; the intervals are in seconds of the loop's clock. -/
structure Settings where
  pollInterval : ℚ
  janitorInterval : ℚ
  retentionInterval : ℚ
  retentionMaxAge : Time

/-- Where the loop is; `now` is the `loop.time()` its iteration has read. -/
inductive Phase
  | top
  | reclaiming (now : ℚ) (pc : Janitor.Pc)
  | reclaimed (now : ℚ)
  | reconciling (now : ℚ) (pc : Janitor.Pc)
  | reconciled (now : ℚ)
  | retaining (now : ℚ) (pc : Janitor.Pc)
  | retained
  | stepping (pc : Runner.Pc)
  | sleeping (wake : ℚ)
  | returned
  | raised
deriving DecidableEq

end RunnerLoop

/-- The locals of `run_forever`, what `loop.time()` and `stop()` answer, and where it is. -/
structure RunnerLoop where
  clock : ℚ
  stopped : Bool
  nextJanitorAt : ℚ
  nextRetentionAt : ℚ
  phase : RunnerLoop.Phase
deriving DecidableEq

namespace RunnerLoop

def start (clock : ℚ) : RunnerLoop := ⟨clock, false, 0, 0, .top⟩

variable (s : Settings) (workerId : WorkerId) (locked : TicketId → Bool)

/-- A chore goes on, is over, or leaves the loop with its exception. -/
def chore (running : Janitor.Pc → Phase) (done l : RunnerLoop) :
    Shared × Janitor.Next → Shared × RunnerLoop
  | (sh, .at pc) => (sh, { l with phase := running pc })
  | (sh, .returned) => (sh, done)
  | (sh, .stopped) => (sh, { l with phase := .raised })

/-- `if not advanced: await asyncio.sleep(poll_interval)`. -/
def stepped (l : RunnerLoop) : Shared × Runner.Next → Shared × RunnerLoop
  | (sh, .at pc) => (sh, { l with phase := .stepping pc })
  | (sh, .returned true) => (sh, { l with phase := .top })
  | (sh, .returned false) => (sh, { l with phase := .sleeping (l.clock + s.pollInterval) })
  | (sh, .stopped _) => (sh, { l with phase := .raised })

def advance (sh : Shared) (l : RunnerLoop) : Option (Shared × RunnerLoop) :=
  match l.phase with
  | .top =>
    if l.stopped then some (sh, { l with phase := .returned })
    else if l.nextJanitorAt ≤ l.clock then
      some (chore (.reclaiming l.clock) { l with phase := .reclaimed l.clock } l
        (Janitor.reclaimExpiredLeases sh))
    else some (sh, { l with phase := .reconciled l.clock })
  | .reclaiming now pc =>
    some (chore (.reclaiming now) { l with phase := .reclaimed now } l (Janitor.advance pc sh))
  | .reclaimed now =>
    some (chore (.reconciling now)
      { l with nextJanitorAt := now + s.janitorInterval, phase := .reconciled now } l
      (Janitor.reconcileOrphanedRuns sh))
  | .reconciling now pc =>
    some (chore (.reconciling now)
      { l with nextJanitorAt := now + s.janitorInterval, phase := .reconciled now } l
      (Janitor.advance pc sh))
  | .reconciled now =>
    if l.nextRetentionAt ≤ now then
      some (chore (.retaining now)
        { l with nextRetentionAt := now + s.retentionInterval, phase := .retained } l
        (Janitor.runRetention s.retentionMaxAge sh))
    else some (sh, { l with phase := .retained })
  | .retaining now pc =>
    some (chore (.retaining now)
      { l with nextRetentionAt := now + s.retentionInterval, phase := .retained } l
      (Janitor.advance pc sh))
  | .retained => some (stepped s l (Runner.claim workerId locked sh))
  | .stepping pc => some (stepped s l (Runner.advance pc sh))
  | .sleeping wake => if wake ≤ l.clock then some (sh, { l with phase := .top }) else none
  | .returned | .raised => none

/-- The one thing the loop is in the middle of. -/
def proc (l : RunnerLoop) : Proc :=
  match l.phase with
  | .reclaiming _ pc | .reconciling _ pc | .retaining _ pc => .janitor pc
  | .stepping pc => .runner pc
  | .top | .reclaimed _ | .reconciled _ | .retained | .sleeping _ | .returned | .raised => .idle

/-! ## The loop as a process -/

variable {s : Settings} {workerId : WorkerId} {locked : TicketId → Bool} {sh sh' : Shared}
  {l l' done : RunnerLoop} {running : Janitor.Pc → Phase}

theorem chore_eq {x : Shared × Janitor.Next} (h : chore running done l x = (sh', l'))
    (hrunning : ∀ pc, ({ l with phase := running pc } : RunnerLoop).proc = .janitor pc)
    (hdone : done.proc = .idle) : Proc.ofJanitor x = (sh', l'.proc) := by
  obtain ⟨sh₁, next⟩ := x
  cases next with
  | «at» pc =>
    cases h
    rw [hrunning pc, Proc.ofJanitor]
  | returned =>
    cases h
    rw [hdone, Proc.ofJanitor]
  | stopped =>
    cases h
    rfl

theorem stepped_eq {x : Shared × Runner.Next} (h : stepped s l x = (sh', l')) :
    Proc.ofRunner x = (sh', l'.proc) := by
  obtain ⟨sh₁, next⟩ := x
  cases next with
  | «at» pc =>
    cases h
    rfl
  | returned advanced => cases advanced <;> cases h <;> rfl
  | stopped error =>
    cases h
    rfl

/-- What a runner's process may do. -/
def Does : Action → Prop
  | .advance | .claimRun _ | .reclaimExpiredLeases | .reconcileOrphanedRuns | .runRetention _ => True
  | _ => False

/-- A move of the loop is an action of its process, or none. -/
theorem advance_moves (ha : l.advance s workerId locked sh = some (sh', l')) :
    (sh' = sh ∧ l'.proc = l.proc) ∨
      ∃ b, Does b ∧ Proc.step sh workerId l.proc b = some (sh', l'.proc) := by
  unfold advance at ha
  split at ha
  · rename_i hp
    have hidle : l.proc = .idle := by simp only [proc, hp]
    split at ha
    · cases ha
      exact .inl ⟨rfl, hidle.symm⟩
    · split at ha
      · have heq := chore_eq (Option.some.inj ha) (fun _ => rfl) rfl
        refine .inr ⟨.reclaimExpiredLeases, trivial, ?_⟩
        rw [hidle, ← heq]
        rfl
      · cases ha
        exact .inl ⟨rfl, hidle.symm⟩
  · rename_i now pc hp
    have heq := chore_eq (Option.some.inj ha) (fun _ => rfl) rfl
    refine .inr ⟨.advance, trivial, ?_⟩
    have hproc : l.proc = .janitor pc := by simp only [proc, hp]
    rw [hproc, ← heq]
    rfl
  · rename_i now hp
    have heq := chore_eq (Option.some.inj ha) (fun _ => rfl) rfl
    refine .inr ⟨.reconcileOrphanedRuns, trivial, ?_⟩
    have hproc : l.proc = .idle := by simp only [proc, hp]
    rw [hproc, ← heq]
    rfl
  · rename_i now pc hp
    have heq := chore_eq (Option.some.inj ha) (fun _ => rfl) rfl
    refine .inr ⟨.advance, trivial, ?_⟩
    have hproc : l.proc = .janitor pc := by simp only [proc, hp]
    rw [hproc, ← heq]
    rfl
  · rename_i now hp
    have hidle : l.proc = .idle := by simp only [proc, hp]
    split at ha
    · have heq := chore_eq (Option.some.inj ha) (fun _ => rfl) rfl
      refine .inr ⟨.runRetention s.retentionMaxAge, trivial, ?_⟩
      rw [hidle, ← heq]
      rfl
    · cases ha
      exact .inl ⟨rfl, hidle.symm⟩
  · rename_i now pc hp
    have heq := chore_eq (Option.some.inj ha) (fun _ => rfl) rfl
    refine .inr ⟨.advance, trivial, ?_⟩
    have hproc : l.proc = .janitor pc := by simp only [proc, hp]
    rw [hproc, ← heq]
    rfl
  · rename_i hp
    have heq := stepped_eq (Option.some.inj ha)
    refine .inr ⟨.claimRun locked, trivial, ?_⟩
    have hproc : l.proc = .idle := by simp only [proc, hp]
    rw [hproc, ← heq]
    rfl
  · rename_i pc hp
    have heq := stepped_eq (Option.some.inj ha)
    refine .inr ⟨.advance, trivial, ?_⟩
    have hproc : l.proc = .runner pc := by simp only [proc, hp]
    rw [hproc, ← heq]
    rfl
  · rename_i wake hp
    have hidle : l.proc = .idle := by simp only [proc, hp]
    split at ha
    · cases ha
      exact .inl ⟨rfl, hidle.symm⟩
    · cases ha
  · cases ha
  · cases ha

/-! ## When the chores run -/

/-- The reading an iteration begins with, where the loop is about to begin one. -/
def begins (l : RunnerLoop) : Option ℚ :=
  if l.phase = .top ∧ l.stopped = false then some l.clock else none

/-- The reading by which the loop is about to begin a pass of the janitor. -/
def beginsJanitor (l : RunnerLoop) : Option ℚ :=
  if l.phase = .top ∧ l.stopped = false ∧ l.nextJanitorAt ≤ l.clock then some l.clock else none

/-- The reading by which the loop is about to decide on a pass of retention. -/
def decidesRetention (l : RunnerLoop) : Option ℚ :=
  match l.phase with
  | .reconciled now => some now
  | _ => none

/-- The reading by which the loop is about to begin a pass of retention. -/
def beginsRetention (l : RunnerLoop) : Option ℚ :=
  match l.phase with
  | .reconciled now => if l.nextRetentionAt ≤ now then some now else none
  | _ => none

/-- The reading of the iteration that is under way, up to its `step`. -/
def Phase.reading : Phase → Option ℚ
  | .reclaiming now _ | .reclaimed now | .reconciling now _ | .reconciled now | .retaining now _ =>
    some now
  | .top | .retained | .stepping _ | .sleeping _ | .returned | .raised => none

/-- The reading of the pass of the janitor that is under way. -/
def Phase.janitor : Phase → Option ℚ
  | .reclaiming now _ | .reclaimed now | .reconciling now _ => some now
  | _ => none

/-- The reading of the pass of retention that is under way. -/
def Phase.retention : Phase → Option ℚ
  | .retaining now _ => some now
  | _ => none

/-- A chore's passes, latest first: no later than what the loop has read, and unless one is under
way, the next is due one gap after the latest. -/
structure Chore (gap next clock : ℚ) (reading busy : Option ℚ) (passes : List ℚ) : Prop where
  seen : ∀ t ∈ passes, t ≤ clock
  read : ∀ now ∈ reading, now ≤ clock ∧ ∀ t ∈ passes, t ≤ now
  due : busy = none → FallsDue gap next passes
  latest : ∀ now ∈ busy, passes.head? = some now ∧ reading = some now

/-- The passes of both chores, unless an exception has left the loop. -/
structure Chores (s : Settings) (l : RunnerLoop) (janitor retention : List ℚ) : Prop where
  clock : 0 ≤ l.clock
  reading : ∀ now ∈ l.phase.reading, 0 ≤ now
  janitor : l.phase ≠ .raised → Chore s.janitorInterval l.nextJanitorAt l.clock l.phase.reading
    l.phase.janitor janitor
  retention : l.phase ≠ .raised → Chore s.retentionInterval l.nextRetentionAt l.clock
    l.phase.reading l.phase.retention retention

variable {gap next clock now : ℚ} {reading : Option ℚ} {passes janitor retention : List ℚ}

/-- The chore that is not under way, while the loop goes on with its iteration. -/
theorem Chore.goes (h : Chore gap next clock reading none passes) {reading' : Option ℚ}
    (hr : reading' = none ∨ reading' = reading) : Chore gap next clock reading' none passes := by
  refine ⟨h.seen, fun now hm => ?_, h.due, nofun⟩
  rcases hr with rfl | rfl
  · cases hm
  · exact h.read now hm

theorem Chore.reads (h : Chore gap next clock reading none passes) :
    Chore gap next clock (some clock) none passes := by
  refine ⟨h.seen, fun now hm => ?_, h.due, nofun⟩
  cases hm
  exact ⟨le_refl _, h.seen⟩

/-- A pass begins. -/
theorem Chore.pass {busy : Option ℚ} (h : Chore gap next clock (some now) busy passes) :
    Chore gap next clock (some now) (some now) (now :: passes) := by
  obtain ⟨hle, hread⟩ := h.read now rfl
  refine ⟨fun t ht => ?_, fun t hm => ?_, nofun, fun t hm => ?_⟩
  · rcases List.mem_cons.mp ht with rfl | ht
    · exact hle
    · exact h.seen t ht
  · cases hm
    refine ⟨hle, fun u hu => ?_⟩
    rcases List.mem_cons.mp hu with rfl | hu
    · exact le_refl _
    · exact hread u hu
  · cases hm
    exact ⟨rfl, rfl⟩

/-- A pass is over. -/
theorem Chore.over (h : Chore gap next clock (some now) (some now) passes) :
    Chore gap (now + gap) clock (some now) none passes := by
  refine ⟨h.seen, h.read, fun _ => ?_, nofun⟩
  obtain ⟨hhead, -⟩ := h.latest now rfl
  obtain ⟨rest, rfl⟩ := List.head?_eq_some_iff.mp hhead
  exact fallsDue_cons fun t ht => (h.read now rfl).2 t (List.mem_cons_of_mem _ ht)

theorem chore_cases {x : Shared × Janitor.Next} (h : chore running done l x = (sh', l')) :
    (∃ pc, l' = { l with phase := running pc }) ∨ l' = done ∨ l' = { l with phase := .raised } := by
  obtain ⟨sh₁, next⟩ := x
  cases next with
  | «at» pc =>
    cases h
    exact .inl ⟨pc, rfl⟩
  | returned =>
    cases h
    exact .inr (.inl rfl)
  | stopped =>
    cases h
    exact .inr (.inr rfl)

theorem stepped_cases {x : Shared × Runner.Next} (h : stepped s l x = (sh', l')) :
    ∃ phase, l' = { l with phase := phase } ∧ phase.reading = none ∧ phase.janitor = none ∧
      phase.retention = none := by
  obtain ⟨sh₁, next⟩ := x
  cases next with
  | «at» pc =>
    cases h
    exact ⟨_, rfl, rfl, rfl, rfl⟩
  | returned advanced =>
    cases advanced
    · cases h
      exact ⟨_, rfl, rfl, rfl, rfl⟩
    · cases h
      exact ⟨_, rfl, rfl, rfl, rfl⟩
  | stopped error =>
    cases h
    exact ⟨_, rfl, rfl, rfl, rfl⟩

theorem Chores.raised (h : Chores s l janitor retention) (passes sweeps : List ℚ) :
    Chores s { l with phase := .raised } passes sweeps :=
  ⟨h.clock, nofun, fun hp => absurd rfl hp, fun hp => absurd rfl hp⟩

/-- Between two chores the loop goes on, or begins its next iteration. -/
theorem Chores.goes (h : Chores s l janitor retention) (hp : l.phase ≠ .raised)
    (hj : l.phase.janitor = none) (hr : l.phase.retention = none) {phase : Phase}
    (hreading : phase.reading = none ∨ phase.reading = l.phase.reading)
    (hj' : phase.janitor = none) (hr' : phase.retention = none) :
    Chores s { l with phase := phase } janitor retention := by
  have hjan := h.janitor hp
  have hret := h.retention hp
  rw [hj] at hjan
  rw [hr] at hret
  refine ⟨h.clock, fun now hm => ?_, fun _ => ?_, fun _ => ?_⟩
  · rcases hreading with hnone | hsame
    · rw [hnone] at hm
      cases hm
    · exact h.reading now (hsame ▸ hm)
  · change Chore _ _ _ phase.reading phase.janitor _
    rw [hj']
    exact hjan.goes hreading
  · change Chore _ _ _ phase.reading phase.retention _
    rw [hr']
    exact hret.goes hreading

theorem Chores.advance (h : Chores s l janitor retention)
    (ha : l.advance s workerId locked sh = some (sh', l')) :
    Chores s l' (l.beginsJanitor.toList ++ janitor) (l.beginsRetention.toList ++ retention) := by
  unfold RunnerLoop.advance at ha
  split at ha
  · rename_i hp
    have hne : l.phase ≠ .raised := by rw [hp]; nofun
    have hjan := h.janitor hne
    have hret := h.retention hne
    rw [hp] at hjan hret
    have hnot : l.beginsRetention = none := by simp only [beginsRetention, hp]
    rw [hnot]
    split at ha
    · rename_i hstop
      cases ha
      have hnone : l.beginsJanitor = none := if_neg fun hb => by rw [hstop] at hb; cases hb.2.1
      rw [hnone]
      exact h.goes hne (by rw [hp]; rfl) (by rw [hp]; rfl) (.inl rfl) rfl rfl
    · rename_i hrun
      split at ha
      · rename_i hdue
        have hsome : l.beginsJanitor = some l.clock :=
          if_pos ⟨hp, Bool.eq_false_iff.mpr hrun, hdue⟩
        rw [hsome]
        rcases chore_cases (Option.some.inj ha) with ⟨pc, rfl⟩ | rfl | rfl
        · refine ⟨h.clock, fun now hm => ?_, fun _ => hjan.reads.pass, fun _ => hret.reads⟩
          cases hm
          exact h.clock
        · refine ⟨h.clock, fun now hm => ?_, fun _ => hjan.reads.pass, fun _ => hret.reads⟩
          cases hm
          exact h.clock
        · exact h.raised _ _
      · rename_i hdue
        cases ha
        have hnone : l.beginsJanitor = none := if_neg fun hb => hdue hb.2.2
        rw [hnone]
        refine ⟨h.clock, fun now hm => ?_, fun _ => hjan.reads, fun _ => hret.reads⟩
        cases hm
        exact h.clock
  · rename_i now pc hp
    have hne : l.phase ≠ .raised := by rw [hp]; nofun
    have hnone : l.beginsJanitor = none := by simp [beginsJanitor, hp]
    have hnot : l.beginsRetention = none := by simp only [beginsRetention, hp]
    have hjan := h.janitor hne
    have hret := h.retention hne
    have hread := h.reading
    rw [hp] at hjan hret hread
    rw [hnone, hnot]
    rcases chore_cases (Option.some.inj ha) with ⟨pc', rfl⟩ | rfl | rfl
    · exact ⟨h.clock, hread, fun _ => hjan, fun _ => hret⟩
    · exact ⟨h.clock, hread, fun _ => hjan, fun _ => hret⟩
    · exact h.raised _ _
  · rename_i now hp
    have hne : l.phase ≠ .raised := by rw [hp]; nofun
    have hnone : l.beginsJanitor = none := by simp [beginsJanitor, hp]
    have hnot : l.beginsRetention = none := by simp only [beginsRetention, hp]
    have hjan := h.janitor hne
    have hret := h.retention hne
    have hread := h.reading
    rw [hp] at hjan hret hread
    rw [hnone, hnot]
    rcases chore_cases (Option.some.inj ha) with ⟨pc', rfl⟩ | rfl | rfl
    · exact ⟨h.clock, hread, fun _ => hjan, fun _ => hret⟩
    · exact ⟨h.clock, hread, fun _ => hjan.over, fun _ => hret⟩
    · exact h.raised _ _
  · rename_i now pc hp
    have hne : l.phase ≠ .raised := by rw [hp]; nofun
    have hnone : l.beginsJanitor = none := by simp [beginsJanitor, hp]
    have hnot : l.beginsRetention = none := by simp only [beginsRetention, hp]
    have hjan := h.janitor hne
    have hret := h.retention hne
    have hread := h.reading
    rw [hp] at hjan hret hread
    rw [hnone, hnot]
    rcases chore_cases (Option.some.inj ha) with ⟨pc', rfl⟩ | rfl | rfl
    · exact ⟨h.clock, hread, fun _ => hjan, fun _ => hret⟩
    · exact ⟨h.clock, hread, fun _ => hjan.over, fun _ => hret⟩
    · exact h.raised _ _
  · rename_i now hp
    have hne : l.phase ≠ .raised := by rw [hp]; nofun
    have hnone : l.beginsJanitor = none := by simp [beginsJanitor, hp]
    have hjan := h.janitor hne
    have hret := h.retention hne
    have hread := h.reading
    rw [hp] at hjan hret hread
    rw [hnone]
    split at ha
    · rename_i hdue
      have hsome : l.beginsRetention = some now := by simp only [beginsRetention, hp, if_pos hdue]
      rw [hsome]
      rcases chore_cases (Option.some.inj ha) with ⟨pc', rfl⟩ | rfl | rfl
      · exact ⟨h.clock, hread, fun _ => hjan, fun _ => hret.pass⟩
      · exact ⟨h.clock, nofun, fun _ => hjan.goes (.inl rfl),
          fun _ => hret.pass.over.goes (.inl rfl)⟩
      · exact h.raised _ _
    · rename_i hdue
      cases ha
      have hnot : l.beginsRetention = none := by simp only [beginsRetention, hp, if_neg hdue]
      rw [hnot]
      exact h.goes hne (by rw [hp]; rfl) (by rw [hp]; rfl) (.inl rfl) rfl rfl
  · rename_i now pc hp
    have hne : l.phase ≠ .raised := by rw [hp]; nofun
    have hnone : l.beginsJanitor = none := by simp [beginsJanitor, hp]
    have hnot : l.beginsRetention = none := by simp only [beginsRetention, hp]
    have hjan := h.janitor hne
    have hret := h.retention hne
    have hread := h.reading
    rw [hp] at hjan hret hread
    rw [hnone, hnot]
    rcases chore_cases (Option.some.inj ha) with ⟨pc', rfl⟩ | rfl | rfl
    · exact ⟨h.clock, hread, fun _ => hjan, fun _ => hret⟩
    · exact ⟨h.clock, nofun, fun _ => hjan.goes (.inl rfl), fun _ => hret.over.goes (.inl rfl)⟩
    · exact h.raised _ _
  · rename_i hp
    have hne : l.phase ≠ .raised := by rw [hp]; nofun
    have hnone : l.beginsJanitor = none := by simp [beginsJanitor, hp]
    have hnot : l.beginsRetention = none := by simp only [beginsRetention, hp]
    rw [hnone, hnot]
    obtain ⟨phase, rfl, hread, hj, hr⟩ := stepped_cases (Option.some.inj ha)
    exact h.goes hne (by rw [hp]; rfl) (by rw [hp]; rfl) (.inl hread) hj hr
  · rename_i pc hp
    have hne : l.phase ≠ .raised := by rw [hp]; nofun
    have hnone : l.beginsJanitor = none := by simp [beginsJanitor, hp]
    have hnot : l.beginsRetention = none := by simp only [beginsRetention, hp]
    rw [hnone, hnot]
    obtain ⟨phase, rfl, hread, hj, hr⟩ := stepped_cases (Option.some.inj ha)
    exact h.goes hne (by rw [hp]; rfl) (by rw [hp]; rfl) (.inl hread) hj hr
  · rename_i wake hp
    have hne : l.phase ≠ .raised := by rw [hp]; nofun
    have hnone : l.beginsJanitor = none := by simp [beginsJanitor, hp]
    have hnot : l.beginsRetention = none := by simp only [beginsRetention, hp]
    rw [hnone, hnot]
    split at ha
    · cases ha
      exact h.goes hne (by rw [hp]; rfl) (by rw [hp]; rfl) (.inl rfl) rfl rfl
    · cases ha
  · cases ha
  · cases ha

/-- Time passes for the loop. -/
theorem Chores.later (h : Chores s l janitor retention) (ht : l.clock ≤ l'.clock)
    (hp : l'.phase = l.phase) (hj : l'.nextJanitorAt = l.nextJanitorAt)
    (hr : l'.nextRetentionAt = l.nextRetentionAt) : Chores s l' janitor retention := by
  have later : ∀ {gap next : ℚ} {reading busy : Option ℚ} {passes : List ℚ},
      Chore gap next l.clock reading busy passes → Chore gap next l'.clock reading busy passes :=
    fun h => ⟨fun t ht' => (h.seen t ht').trans ht,
      fun now hm => ⟨(h.read now hm).1.trans ht, (h.read now hm).2⟩, h.due, h.latest⟩
  refine ⟨h.clock.trans ht, hp ▸ h.reading, fun hne => ?_, fun hne => ?_⟩
  · rw [hp] at hne ⊢
    rw [hj]
    exact later (h.janitor hne)
  · rw [hp] at hne ⊢
    rw [hr]
    exact later (h.retention hne)

theorem chores_start (hc : 0 ≤ clock) : Chores s (start clock) [] [] := by
  have nothing : ∀ {gap : ℚ}, Chore gap 0 clock none none [] := fun {gap} =>
    ⟨fun t ht => (nomatch ht), nofun, fun _ => fallsDue_nil, nofun⟩
  exact ⟨hc, nofun, fun _ => nothing, fun _ => nothing⟩

/-- The janitor's pass begins exactly when every pass before is one interval or more ago. -/
theorem Chores.janitor_iff (h : Chores s l janitor retention) (hb : l.begins = some now) :
    l.beginsJanitor = some now ↔ ∀ t ∈ janitor, t + s.janitorInterval ≤ now := by
  unfold begins at hb
  split at hb
  · rename_i htop
    cases hb
    have hjan := h.janitor (by rw [htop.1]; nofun)
    rw [htop.1] at hjan
    rw [← hjan.due rfl l.clock h.clock]
    unfold beginsJanitor
    simp [htop.1, htop.2]
  · cases hb

theorem Chores.retention_iff (h : Chores s l janitor retention)
    (hb : l.decidesRetention = some now) :
    l.beginsRetention = some now ↔ ∀ t ∈ retention, t + s.retentionInterval ≤ now := by
  unfold decidesRetention at hb
  split at hb
  · rename_i reading hp
    cases hb
    have hret := h.retention (by rw [hp]; nofun)
    have hnow := h.reading
    rw [hp] at hret hnow
    rw [← hret.due rfl now (hnow now rfl)]
    simp [beginsRetention, hp]
  · cases hb

end RunnerLoop
end TicketFlow
