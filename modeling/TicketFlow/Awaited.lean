import TicketFlow.Outbox
import TicketFlow.Retention

/-! # Awaited tasks

`prune_settled` looks at no checkpoint. Where it deletes only tasks of stages that are over, every
task a thread waits for, or is about to wait for, stays where it is. -/

namespace TicketFlow
open Table Interleaving
set_option autoImplicit false

/-- The invocation's checkpoint is the latest of its thread. -/
def Invocation.Latest (sh : Shared) (inv : Invocation) : Prop :=
  (sh.checkpoints.get inv.checkpoint.threadId).map Checkpoint.checkpointId =
    some inv.checkpoint.checkpointId

/-- What the driver of a graph has committed, while nobody has overtaken it. -/
structure AwaitedKnows (sh : Shared) (p : Proc) : Prop where
  dispatched : ∀ inv, p.invocation = some inv → inv.Latest sh →
    Dispatched sh.db inv.checkpoint.values inv.checkpoint.next
  result : ∀ inv, p.invocation = some inv → inv.Latest sh →
    ∀ env, inv.result = some (.interrupt env) → env.Enqueued sh.db
  update : ∀ inv, p.invocation = some inv → inv.Latest sh →
    ∀ s, inv.result = some (.update s) →
      Dispatched sh.db s (inv.checkpoint.next.bind fun n => n.after s)

/-- Some thread shows an interrupt that names the key. -/
def Parked (c : Checkpoints) (key : IdempotencyKey) : Prop :=
  ∃ t cp env, c.get t = some cp ∧ cp.interrupt = some env ∧ env.idempotencyKey = some key

/-- What a sweep leaves to the tickets whose graph is not at its end, at the steps that meet `ok`. -/
structure Retains (ok : World → WorkerId → Action → Prop) (w : World) : Prop where
  archives : ∀ i maxAge db ts, ok w i (.runRetention maxAge) →
    Db.archiveTerminalRuns maxAge w.shared.db = some (db, ts) → ∀ t ∈ ts,
      (∃ cp, w.shared.checkpoints.get t = some cp ∧ cp.next = none) ∧ Stored w.shared.db t
  deletes : ∀ i, ∀ t ∈ (w.procs i).deletes,
    Finished w.shared.checkpoints t ∧ Stored w.shared.db t
  prunes : ∀ i, ∀ maxAge ∈ (w.procs i).pruneAge, ok w i .advance → ∀ r ∈ w.shared.db.taskQueue,
    r ∉ (Taskqueue.pruneSettled maxAge w.shared.db).taskQueue →
      ¬ Parked w.shared.checkpoints r.idempotencyKey
  awaited : ∀ key, Parked w.shared.checkpoints key → (w.shared.db.task key).isSome
  answered : ∀ t, Created t w.shared.log → ∀ w', Interleaving.Reachable Proc.step (· = w) w' →
    (Api.getTicket t (w.shared.checkpoints.get t) w'.shared.db).isSome

variable {sh sh' : Shared} {w w' : World} {i : WorkerId} {p p' : Proc} {a : Action} {t : TicketId}
  {r : QueuedTask} {key : IdempotencyKey} {n : Node} {s s' : TicketState} {resumes : List Resume}
  {next : Option Node} {env : Envelope} {cp : Checkpoint} {inv : Invocation}

/-! ## Keys and nodes -/

theorem Suspends.waits (h : Suspends s n resumes env) (hk : env.idempotencyKey = some key) :
    n = key.taskType.node := by
  cases h with
  | classify =>
    cases hk
    rfl
  | @classifyAgain redispatched =>
    cases hk
    cases redispatched <;> rfl
  | draft hc =>
    cases hk
    rfl
  | @draftAgain c redispatched hc =>
    cases hk
    cases redispatched <;> rfl
  | approval hw hd => cases hk
  | terminal hc hd =>
    cases hk
    rfl

/-! ## What a prune takes -/

theorem Effect.prunes_db {maxAge : Time} (he : Effect sh i p .advance sh' p')
    (hp : p = .janitor (.pruningTasks maxAge)) :
    sh'.db = Taskqueue.pruneSettled maxAge sh.db := by
  cases he with
  | prunedTasks =>
    cases hp
    rfl
  | @ran dr inv n db result hr hn hrun => cases dr <;> cases hp
  | @put dr inv values next hr hn => cases dr <;> cases hp
  | @suspended dr inv env hr => cases dr <;> cases hp
  | quiet hl =>
    cases hl with
    | @ended dr inv hr hn => cases dr <;> cases hp
    | @raised dr inv error hr => cases dr <;> cases hp
    | _ => cases hp
  | _ => cases hp

/-- Only a prune takes a task away, one that is settled and old. -/
theorem Effect.prunes_task (he : Effect sh i p a sh' p') (hk : Taskqueue.Keys sh.db)
    (hr : sh.db.task key = some r) (hnone : sh'.db.task key = none) :
    ∃ maxAge, p.pruneAge = some maxAge ∧ a = .advance ∧ Prunable maxAge sh.db.now r := by
  cases he.taskChange hk key with
  | pruned hp ha ht hst heq =>
    rename_i maxAge r₀
    cases hr.symm.trans ht
    subst hp ha
    refine ⟨maxAge, rfl, rfl, hst, ?_⟩
    rw [he.prunes_db rfl, task_pruneSettled hk, hr] at hnone
    by_contra hyoung
    rw [Option.filter_some, if_pos] at hnone
    · cases hnone
    · exact decide_eq_true fun h => hyoung h.2
  | same heq =>
    rw [heq, hr] at hnone
    cases hnone
  | inserted hp₀ ha hr₀ hn hw hp' hlog hins hno heq =>
    rw [heq] at hnone
    cases hnone
  | cancelled hp₀ ha hr₀ hn hw hp' hkey ht hpend heq =>
    rw [heq] at hnone
    cases hnone
  | leased hp₀ ha ht hdue hp' heq =>
    rw [heq] at hnone
    cases hnone
  | completed hp₀ ha ht hs hp' heq hlog =>
    rw [heq] at hnone
    cases hnone
  | failed hp₀ ha ht hs hp' heq =>
    rw [heq] at hnone
    cases hnone
  | reclaimed hp₀ ha ht hx heq =>
    rw [heq] at hnone
    cases hnone

section Keeps
variable (hok : Retained w i a) (hk : Taskqueue.Keys w.shared.db)
  (he : Effect w.shared i (w.procs i) a sh' p')
include hok hk he

/-- A task stays while its ticket's thread has not passed its stage. -/
theorem Effect.keeps_awaited (hcp : w.shared.checkpoints.get key.ticket = some cp)
    (hle : Node.rank (some key.taskType.node) ≤ Node.rank cp.next)
    (h : (w.shared.db.task key).isSome) : (sh'.db.task key).isSome := by
  obtain ⟨r, hr⟩ := Option.isSome_iff_exists.mp h
  cases hr' : sh'.db.task key with
  | some r' => rfl
  | none =>
    obtain ⟨maxAge, hage, rfl, hprune⟩ := he.prunes_task hk hr hr'
    obtain ⟨hm, hkey⟩ := Database.task_eq_some hr
    have hpassed := hok.2 maxAge hage r hm hprune
    rw [hkey] at hpassed
    exact absurd (hpassed cp hcp) (Nat.not_lt.mpr hle)

theorem Dispatched.keeps (h : Dispatched w.shared.db s next)
    (hcp : w.shared.checkpoints.get s.ticket.id = some cp)
    (hle : Node.rank next ≤ Node.rank cp.next) : Dispatched sh'.db s next := by
  constructor
  · intro hn
    rw [hn] at hle
    have htask := h.classify hn
    exact he.keeps_awaited hok hk hcp hle htask
  · intro hn
    rw [hn] at hle
    have htask := h.draft hn
    exact he.keeps_awaited hok hk hcp hle htask

theorem Envelope.Enqueued.keeps (h : env.Enqueued w.shared.db) (hsus : Suspends s n resumes env)
    (hcp : w.shared.checkpoints.get s.ticket.id = some cp)
    (hle : Node.rank (some n) ≤ Node.rank cp.next) : env.Enqueued sh'.db := by
  intro key hkey
  obtain ⟨ht, -⟩ := hsus.keyed hkey
  rw [hsus.waits hkey] at hle
  exact he.keeps_awaited hok hk (ht ▸ hcp) hle (h key hkey)

end Keeps

/-! ## The latest checkpoint -/

/-- Nobody comes back to a checkpoint once it is no longer the latest. -/
theorem Invocation.Latest.before (h : inv.Latest sh') (hs : inv.Sound sh.checkpoints)
    (he : Effect sh i p a sh' p') : inv.Latest sh := by
  have hlt := hs.lt_seq
  unfold Invocation.Latest at h ⊢
  cases he.threadChange inv.checkpoint.threadId with
  | same heq => rwa [heq] at h
  | created hp ha ht hf hdb hlog hseq heq =>
    rw [heq] at h
    exact absurd (Option.some.inj h) (Nat.ne_of_gt hlt)
  | put hp ha ht hr hn hp' hdb hlog hseq heq =>
    rw [heq] at h
    exact absurd (Option.some.inj h) (Nat.ne_of_gt hlt)
  | suspended hp ha ht hr hcp hid hp' hdb hlog heq =>
    rw [heq] at h
    rw [hcp]
    exact h
  | deleted hp ha heq =>
    rw [heq] at h
    cases h

theorem Invocation.Latest.get (h : inv.Latest sh) (hs : inv.Sound sh.checkpoints) :
    ∃ cp, sh.checkpoints.get inv.checkpoint.values.ticket.id = some cp ∧
      cp.next = inv.checkpoint.next := by
  obtain ⟨cp, hcp, hid⟩ := Option.map_eq_some_iff.mp h
  obtain ⟨-, hnext⟩ := hs.copy cp hcp hid
  refine ⟨cp, ?_, hnext⟩
  rw [hs.checkpoint.ticket]
  exact hcp

theorem OutboxKnows.awaited (h : OutboxKnows sh p) : AwaitedKnows sh p :=
  ⟨fun inv hinv _ => h.dispatched inv hinv, fun inv hinv _ => h.result inv hinv,
    fun inv hinv _ => h.update inv hinv⟩

/-! ## One action -/

theorem Outbox.retained (hI : Outbox w.shared) (hK : AwaitedKnows w.shared (w.procs i))
    (hw : World.Reachable w) (hok : Retained w i a)
    (he : Effect w.shared i (w.procs i) a sh' p') : Outbox sh' := by
  have hk := hw.tasks.1.keys
  refine ⟨fun t cp' hcp' => ?_, fun t cp' hcp' env henv => ?_⟩
  · cases he.threadChange t with
    | same heq =>
      have hcp := heq.symm.trans hcp'
      have hticket := (hw.threads.1 t cp' hcp).1.ticket.trans (Checkpoints.threadId_of_get hcp)
      exact (hI.dispatched t cp' hcp).keeps hok hk he (hticket ▸ hcp) le_rfl
    | created hp ha ht hf hdb hlog hseq heq =>
      cases hcp'.symm.trans heq
      exact ⟨fun hn => (nomatch hn), fun hn => nomatch hn⟩
    | put hp ha ht hr hn hp' hdb hlog hseq heq =>
      rename_i dr inv values next
      cases hcp'.symm.trans heq
      have hinvo : (w.procs i).invocation = some inv := by rw [hp]; simp
      subst ha
      have hd := hK.update inv hinvo (hok.1 inv hinvo (by rw [Invocation.puts, hr])) values hr
      rw [hdb]
      change Dispatched w.shared.db values next
      rw [hn]
      exact hd
    | suspended hp ha ht hr hcp hid hp' hdb hlog heq =>
      cases hcp'.symm.trans heq
      have hold := hI.dispatched t _ hcp
      rw [hdb]
      exact hold
    | deleted hp ha heq =>
      rw [heq] at hcp'
      cases hcp'
  · cases he.threadChange t with
    | same heq =>
      have hcp := heq.symm.trans hcp'
      obtain ⟨hs, -⟩ := hw.threads.1 t cp' hcp
      obtain ⟨n, hn, hsus⟩ := hs.parked env henv
      have hticket := hs.ticket.trans (Checkpoints.threadId_of_get hcp)
      exact (hI.parked t cp' hcp env henv).keeps hok hk he hsus (hticket ▸ hcp) (by rw [hn])
    | created hp ha ht hf hdb hlog hseq heq =>
      cases hcp'.symm.trans heq
      cases henv
    | put hp ha ht hr hn hp' hdb hlog hseq heq =>
      cases hcp'.symm.trans heq
      cases henv
    | suspended hp ha ht hr hcp hid hp' hdb hlog heq =>
      rename_i dr inv env₀ cp
      cases hcp'.symm.trans heq
      cases henv
      have hlatest : inv.Latest w.shared := by
        unfold Invocation.Latest
        rw [ht, hcp, Option.map_some, hid]
      rw [hdb]
      exact hK.result inv (by rw [hp]; simp) hlatest _ hr
    | deleted hp ha heq =>
      rw [heq] at hcp'
      cases hcp'

theorem AwaitedKnows.other {q : Proc} (h : AwaitedKnows w.shared q)
    (hq : q.ThreadSound w.shared.checkpoints) (hk : Taskqueue.Keys w.shared.db)
    (hok : Retained w i a) (he : Effect w.shared i (w.procs i) a sh' p') : AwaitedKnows sh' q := by
  refine ⟨fun inv hinv hlatest => ?_, fun inv hinv hlatest env hr => ?_,
    fun inv hinv hlatest s hr => ?_⟩
  · have hs := hq.of_invocation hinv
    have hbefore := hlatest.before hs he
    obtain ⟨cp, hcp, hnext⟩ := hbefore.get hs
    exact (h.dispatched inv hinv hbefore).keeps hok hk he hcp (by rw [hnext])
  · have hs := hq.of_invocation hinv
    have hbefore := hlatest.before hs he
    obtain ⟨cp, hcp, hnext⟩ := hbefore.get hs
    obtain ⟨n, hn, hran⟩ := hs.result _ hr
    exact (h.result inv hinv hbefore env hr).keeps hok hk he hran.interrupt hcp (by rw [hnext, hn])
  · have hs := hq.of_invocation hinv
    have hbefore := hlatest.before hs he
    obtain ⟨cp, hcp, hnext⟩ := hbefore.get hs
    obtain ⟨n, hn, hran⟩ := hs.result _ hr
    obtain ⟨hticket, -⟩ := hran.update
    rw [← hticket] at hcp
    refine (h.update inv hinv hbefore s hr).keeps hok hk he hcp ?_
    rw [hnext, hn]
    exact (n.rank_after s).le

theorem AwaitedKnows.acts (h : AwaitedKnows sh p) (hI' : Outbox sh') (hother : AwaitedKnows sh' p)
    (he : Effect sh i p a sh' p') : AwaitedKnows sh' p' := by
  cases hdrives : p'.invocation with
  | none => exact (OutboxKnows.undriven hdrives).awaited
  | some inv' =>
    cases he.driveChange hdrives with
    | still hold =>
      rw [← hold] at hdrives
      exact ⟨fun inv hinv => hother.dispatched inv (hdrives.symm.trans hinv),
        fun inv hinv => hother.result inv (hdrives.symm.trans hinv),
        fun inv hinv => hother.update inv (hdrives.symm.trans hinv)⟩
    | put hget hr hnil => exact (OutboxKnows.reads hI' hdrives hget hr).awaited
    | read hp' hsh hget hr ho => exact (OutboxKnows.reads hI' hdrives (hsh ▸ hget) hr).awaited
    | @ran dr inv n db result hp₀ hr hn hrun hinv' hsh =>
      subst hp₀ hinv' hsh
      have hdriving := Proc.invocation_driving dr inv
      refine ⟨fun inv₁ hinv₁ hlatest => ?_, fun inv₁ hinv₁ hlatest env hres => ?_,
        fun inv₁ hinv₁ hlatest s hres => ?_⟩
      · cases hdrives.symm.trans hinv₁
        exact hother.dispatched inv hdriving hlatest
      · cases hdrives.symm.trans hinv₁
        cases hres
        have hd := h.dispatched inv hdriving hlatest
        rw [hn] at hd
        exact Node.run_enqueued hd hrun
      · cases hdrives.symm.trans hinv₁
        cases hres
        rw [hn]
        exact Node.run_dispatched hrun

theorem World.ReachableWhen.awaited {ok : World → WorkerId → Action → Prop}
    (hok : ∀ w i a, ok w i a → Retained w i a) (hw : World.ReachableWhen ok w) :
    Outbox w.shared ∧ ∀ i, AwaitedKnows w.shared (w.procs i) := by
  refine hw.invariant (I := Outbox) (J := fun sh _ p => AwaitedKnows sh p) ?_ ?_ ?_
  · exact ⟨fun _ _ h => (nomatch h), fun _ _ h => nomatch h⟩
  · exact fun _ => (OutboxKnows.undriven rfl).awaited
  · intro w i a sh' p' hr ha hI hK he
    have hw : World.Reachable w := hr.reachable
    have hk := hw.tasks.1.keys
    have hkeep := hok w i a ha
    have hI' := hI.retained (hK i) hw hkeep he
    exact ⟨hI', (hK i).acts hI' ((hK i).other (hw.threads.2 i) hk hkeep he) he,
      fun j _ => (hK j).other (hw.threads.2 j) hk hkeep he⟩

/-! ## What a sweep leaves -/

theorem Stored.later (h : Stored w.shared.db t)
    (hw' : Interleaving.Reachable Proc.step (· = w) w') : Stored w'.shared.db t := by
  refine Interleaving.ReachableWhen.invariant (I := fun w => Stored w.shared.db t) ?_ ?_ hw'
  · rintro _ rfl
    exact h
  · intro w i a sh' p' _ _ hs hp
    exact hs.effect (effect_of_step hp)

/-- A key is named by an interrupt at the node of its stage, on the thread of its ticket. -/
theorem Parked.node (hT : ThreadsSound w.shared.checkpoints)
    (h : Parked w.shared.checkpoints key) :
    ∃ cp, w.shared.checkpoints.get key.ticket = some cp ∧ cp.next = some key.taskType.node := by
  obtain ⟨t, cp, env, hcp, henv, hkey⟩ := h
  obtain ⟨hs, -⟩ := hT t cp hcp
  obtain ⟨n, hn, hsus⟩ := hs.parked env henv
  obtain ⟨ht, -⟩ := hsus.keyed hkey
  have hticket := ht.trans (hs.ticket.trans (Checkpoints.threadId_of_get hcp))
  exact ⟨cp, hticket ▸ hcp, hsus.waits hkey ▸ hn⟩

/-- In a run whose sweeps move no run that shows an interrupt and delete no task of a stage that is
not over, and in which nobody overtaken saves, no ticket loses what it still needs. -/
theorem retention_keeps_unfinished (hw : World.ReachableWhen Retained w) :
    Retains Retained w := by
  obtain ⟨hI, hK⟩ := hw.kept fun _ _ _ => id
  obtain ⟨hO, -⟩ := hw.awaited fun _ _ _ => id
  have hw : World.Reachable w := hw.reachable
  refine ⟨fun i maxAge db ts hok hs t ht => ?_, fun i t ht => ?_,
    fun i maxAge hage hok r hr hgone hpark => ?_, fun key hpark => ?_, fun t hc w' hw' => ?_⟩
  · obtain ⟨r, hr, harch⟩ := (archiveTerminalRuns_moves hw.held.1 hs).mp ht
    have hfin := hI.finished hok hr harch
    rcases hI.found t (hw.ofCreated.1 t (by rw [hr]; rfl)) with hsome | ⟨hold, -⟩
    · obtain ⟨cp, hcp⟩ := Option.isSome_iff_exists.mp hsome
      exact ⟨⟨cp, hcp, hfin cp hcp⟩, hw.results.ended t cp hcp (hfin cp hcp)⟩
    · -- the archive's primary key has just admitted the ticket
      exact absurd hold (archiveTerminalRuns_fresh hs hr harch)
  · obtain ⟨hfin, -, hstored⟩ := (hK i).deletes t ht
    exact ⟨hfin, hstored⟩
  · have hprune : Prunable maxAge w.shared.db.now r := by
      by_contra hno
      exact hgone (List.mem_filter.mpr ⟨hr, decide_eq_true hno⟩)
    obtain ⟨cp, hcp, hn⟩ := hpark.node hw.threads.1
    have hlt := hok.2 maxAge hage r hr hprune cp hcp
    rw [hn] at hlt
    exact absurd hlt (Nat.lt_irrefl _)
  · obtain ⟨t, cp, env, hcp, henv, hkey⟩ := hpark
    exact hO.parked t cp hcp env henv key hkey
  · cases hcp : w.shared.checkpoints.get t with
    | some cp => rfl
    | none =>
      rcases hI.found t hc with hsome | ⟨-, hstored⟩
      · rw [hcp] at hsome
        cases hsome
      · rw [Api.getTicket, Option.isSome_map]
        exact hstored.later hw'

/-- Ticket 7 has ended, and one sweep has archived its run, deleted its thread and pruned its
tasks. -/
def Schedule.swept : Schedule := archiving ++ Schedule.advance 4 4

/-- Ticket 7 has no thread any more. -/
def threadless (w : World) : Bool := (w.shared.checkpoints.get 7).isNone

/-- A request has created ticket 7. -/
def created (w : World) : Bool := decide (Created 7 w.shared.log)

theorem retention_keeps_unfinished_swept : ∃ w, World.ReachableWhen Retained w ∧
    w.shared.checkpoints.get 7 = none ∧ w.shared.db.taskQueue = [] ∧
    (Api.getTicket 7 none w.shared.db).isSome := by
  have hrun : (World.initial.runWhen Proc.step Retained Schedule.swept).map (fun w =>
      threadless w && created w && decide (w.shared.db.taskQueue = [])) = some true := by
    decide +kernel
  obtain ⟨w, hw, hp⟩ := exists_reachableWhen_of_run hrun
  obtain ⟨hp, hempty⟩ := Bool.and_eq_true_iff.mp hp
  obtain ⟨hgone, hcreated⟩ := Bool.and_eq_true_iff.mp hp
  have hget : w.shared.checkpoints.get 7 = none := Option.isNone_iff_eq_none.mp hgone
  have hanswer := (retention_keeps_unfinished hw).answered 7 (of_decide_eq_true hcreated) w
    (.init rfl)
  rw [hget] at hanswer
  exact ⟨w, hw, hget, of_decide_eq_true hempty, hanswer⟩

/-- The approver rejects ticket 7 and the graph waits for the finalize task, which no worker takes;
the sweep archives the rejected run and deletes the thread. -/
def Schedule.rejected : Schedule :=
  Schedule.drafted Schedule.riskyDraft 12 ++ Schedule.submit false ++ Schedule.step 2 8 ++
    [(0, .tick (seconds 1)), (4, .runRetention 0)] ++ Schedule.advance 4 1

/-- `GET /tickets/7` answers 404. -/
def notFound (w : World) : Bool :=
  (Api.getTicket 7 (w.shared.checkpoints.get 7) w.shared.db).isNone

theorem rejected_ticket_lost : ¬ ∀ w, World.Reachable w → Retains (fun _ _ _ => True) w := by
  intro hall
  have hrun : (World.initial.run Proc.step Schedule.rejected).map (fun w =>
      notFound w && created w) = some true := by decide +kernel
  obtain ⟨w, hw, hp⟩ := exists_reachableWhen_of_run hrun
  obtain ⟨hgone, hcreated⟩ := Bool.and_eq_true_iff.mp hp
  have hanswer := (hall w hw).answered 7 (of_decide_eq_true hcreated) w (.init rfl)
  rw [Option.isNone_iff_eq_none.mp hgone] at hanswer
  cases hanswer

end TicketFlow
