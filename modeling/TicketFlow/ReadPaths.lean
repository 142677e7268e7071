import TicketFlow.Outcomes

/-! # The two read paths

`get_ticket` reads a live thread from its checkpoint and an archived one from `ticket_results`. The
two agree because every result a ticket ever gets comes out of one finalize payload: `execute`
inserts a second finalize task only where retention has pruned the first, and then with the same
payload, unless a runner that was overtaken brings it another state. -/

namespace TicketFlow
open Table Interleaving
set_option autoImplicit false

/-- A thread at its end holds a saved result. -/
def EndsSaved (sh : Shared) : Prop := ∀ t cp, sh.checkpoints.get t = some cp → cp.next = none →
  ∃ result, cp.values.result = some result ∧ Saved sh.log result

/-- A terminal result that a runner brings was saved. -/
def BringsSaved (log : List Event) (p : Proc) : Prop := ∀ run v result,
  p.resumes = some (run, v) → v.payload = .result (.terminal result) → Saved log result

/-- A finalize payload of the ticket: of the row in the queue, of a delivery, or of a delivery that
was acted on. -/
inductive Around (w : World) (t : TicketId) (payload : TaskPayload) : Prop
  | row {r} : w.shared.db.task (.finalize t) = some r → r.payload = payload → Around w t payload
  | delivery {j pc task} : w.procs j = .worker pc → pc.task = some task →
      task.idempotencyKey = .finalize t → task.payload = payload → Around w t payload
  | event {e} : e ∈ w.shared.log → e.delivered = some payload → payload.ticket.id = t →
      Around w t payload

/-- `execute` is about to insert a finalize task, and an earlier run of it had another payload. -/
def Diverges (w : World) (i : WorkerId) : Prop := ∃ inv, (w.procs i).invocation = some inv ∧
  inv.result = none ∧ inv.checkpoint.next = some .execute ∧
  w.shared.db.task (.finalize inv.checkpoint.threadId) = none ∧
  ∃ vals resumes, .ran inv.checkpoint.threadId .execute vals resumes ∈ w.shared.log ∧
    vals.payload .finalizeTicket ≠ inv.checkpoint.values.payload .finalizeTicket

/-- The step is not the insert of a finalize task with another payload than a former one had. -/
def Converges (w : World) (i : WorkerId) (a : Action) : Prop := a = .advance → ¬Diverges w i

variable {sh sh' : Shared} {w w' : World} {i : WorkerId} {p p' : Proc} {a : Action} {t : TicketId}
  {log log' : List Event} {payload payload' : TaskPayload} {result result' : TicketResult}
  {env : Envelope} {v : ResumeValue}

/-! ## The end of a thread -/

theorem Saved.mono (h : Saved log result) (hl : log <:+ log') : Saved log' result :=
  h.imp fun _ hm => hl.subset hm

theorem EndsSaved.effect (h : EndsSaved sh) (hB : BringsSaved sh.log p)
    (hP : p.ThreadSound sh.checkpoints) (hC : ∀ inv, p.invocation = some inv → inv.Computed)
    (he : Effect sh i p a sh' p') : EndsSaved sh' := by
  have hl := he.log_suffix
  intro t cp hcp hn
  cases he.threadChange t with
  | same heq =>
    obtain ⟨result, hres, hsaved⟩ := h t cp (heq.symm.trans hcp) hn
    exact ⟨result, hres, hsaved.mono hl⟩
  | created hp₀ ha ht hf hdb hlog hseq heq =>
    cases hcp.symm.trans heq
    cases hn
  | put hp₀ ha ht hr hn' hp' hdb hlog hseq heq =>
    rename_i dr inv values next
    cases hcp.symm.trans heq
    subst hp₀
    obtain ⟨n, db, hnext, hrun⟩ := hC inv (Proc.invocation_driving dr inv) _ hr
    have hend : n.after values = none := by
      have := hn'.symm.trans hn
      rwa [hnext] at this
    obtain ⟨result, hm, -, hres⟩ := Node.run_ended hrun hend
    obtain ⟨run, resume, rfl, hpay⟩ := offered_of_mem hP hm
    exact ⟨result, hres, (hB run resume result rfl hpay).mono hl⟩
  | suspended hp₀ ha ht hr hcp₀ hid hp' hdb hlog heq =>
    cases hcp.symm.trans heq
    obtain ⟨result, hres, hsaved⟩ := h t _ hcp₀ hn
    exact ⟨result, hres, hsaved.mono hl⟩
  | deleted hp₀ ha heq =>
    rw [heq] at hcp
    cases hcp

theorem World.Reachable.endsSaved (hw : World.Reachable w) : EndsSaved w.shared := by
  refine (World.ReachableWhen.invariant (I := EndsSaved) (J := fun sh _ p => BringsSaved sh.log p)
    (fun _ _ h => nomatch h) (fun _ _ _ _ h => nomatch h) ?_ hw).1
  intro w i a sh' p' hr _ hI hJ he
  have hw : World.Reachable w := hr.reachable
  have mono : ∀ {q}, BringsSaved w.shared.log q → BringsSaved sh'.log q :=
    fun hq run v result hres hpay => (hq run v result hres hpay).mono he.log_suffix
  refine ⟨hI.effect (hJ i) (hw.threads.2 i) (fun inv hinv => hw.computed hinv) he,
    fun run v result hres hpay => ?_, fun j _ => mono (hJ j)⟩
  rcases he.resumes hres with hold | ⟨env, -, rfl, hready⟩
  · exact mono (hJ i) run v result hold hpay
  · exact (saved_of_ready hw hready hpay).mono he.log_suffix

/-! ## One payload -/

/-- Where the key was free, a node in the middle of its run has just inserted the row. -/
theorem TaskChange.inserts {key : IdempotencyKey} {r : QueuedTask}
    (h : TaskChange sh i p a sh' p' key) (hnone : sh.db.task key = none)
    (hr : sh'.db.task key = some r) : a = .advance ∧ Inserted sh p sh' key r ∧
      ∃ dr inv, p = Driver.driving dr inv ∧ inv.result = none := by
  cases h with
  | same he =>
    rw [he, hnone] at hr
    cases hr
  | inserted hp ha hr₀ hn hw hp' hlog hins hfree he =>
    cases hr.symm.trans he
    exact ⟨ha, .node hp hn hw hins hlog, _, _, hp, hr₀⟩
  | cancelled hp ha hr₀ hn hw hp' hkey ht hpend he => cases hnone.symm.trans ht
  | leased hp ha ht hdue hp' he => cases hnone.symm.trans ht
  | completed hp ha ht hs hp' he hlog => cases hnone.symm.trans ht
  | failed hp ha ht hs hp' he => cases hnone.symm.trans ht
  | reclaimed hp ha ht hx' he => cases hnone.symm.trans ht
  | pruned hp ha ht hst he => cases hnone.symm.trans ht

theorem TaskChange.sameTask {key : IdempotencyKey} {r r' : QueuedTask}
    (h : TaskChange sh i p a sh' p' key) (hr : sh.db.task key = some r)
    (hr' : sh'.db.task key = some r') : r.SameTask r' := by
  by_cases hprunes : a = .advance ∧ p.prunes = true
  · rcases h.origin hr' with ⟨r₀, hr₀, hsame⟩ | hins
    · cases hr.symm.trans hr₀
      exact hsame
    · cases hins with
      | @node dr inv n w q ty wf payload hp hn hw hins hlog =>
        rw [hp] at hprunes
        cases dr <;> cases hprunes.2
  · have hkeeps : a = .advance → p.prunes = false :=
      fun ha => Bool.eq_false_iff.mpr fun ht => hprunes ⟨ha, ht⟩
    obtain ⟨r'', hr'', hsame⟩ := h.kept hkeeps hr
    cases hr'.symm.trans hr''
    exact hsame

theorem QueuedTask.Typed.finalize_payload {r : QueuedTask} (h : r.Typed)
    (hk : r.idempotencyKey = .finalize t) : r.payload.result.isSome ∧ r.payload.ticket.id = t := by
  have hfor := h.payload
  rw [h.type, h.workflow, hk] at hfor
  cases hp : r.payload with
  | finalize ticket action result =>
    rw [hp] at hfor
    exact ⟨rfl, hfor.1⟩
  | classify ticket =>
    rw [hp] at hfor
    exact hfor.elim
  | draft ticket c =>
    rw [hp] at hfor
    exact hfor.elim

/-- A finalize row that has just been inserted has the payload of the state `execute` ran in. -/
theorem Inserted.ofExecute {r : QueuedTask} (h : Inserted sh p sh' (.finalize t) r)
    (hP : p.ThreadSound sh.checkpoints) : ∃ inv, p.invocation = some inv ∧
      inv.checkpoint.next = some .execute ∧ inv.checkpoint.threadId = t ∧
      inv.checkpoint.values.payload .finalizeTicket = some r.payload ∧
      sh'.log = .ran t .execute inv.checkpoint.values inv.resumes :: sh.log := by
  have hkey : r.idempotencyKey = .finalize t := by
    cases h with
    | node hp hn hw hins hlog => rfl
  obtain ⟨hres, hticket⟩ := h.typed.finalize_payload hkey
  obtain ⟨dr, inv, draft, c, rfl, hn, hd, hc, hpay, hlog⟩ := h.finalize hres
  have ht : inv.checkpoint.threadId = t := by
    rw [hpay] at hticket
    exact (Proc.ThreadSound.invocation hP).checkpoint.ticket.symm.trans hticket
  refine ⟨inv, Proc.invocation_driving dr inv, hn, ht, ?_, ht ▸ hlog⟩
  rw [TicketState.payload, hd, hc, hpay]
  rfl

/-- A finalize payload is one there was before, or `execute` inserts it under a free key. -/
theorem Around.effect (hw : World.Reachable w) (he : Effect w.shared i (w.procs i) a sh' p')
    (h : Around ⟨sh', Function.update w.procs i p'⟩ t payload) : Around w t payload ∨
      a = .advance ∧ w.shared.db.task (.finalize t) = none ∧ ∃ inv,
        (w.procs i).invocation = some inv ∧ inv.result = none ∧
        inv.checkpoint.next = some .execute ∧ inv.checkpoint.threadId = t ∧
        inv.checkpoint.values.payload .finalizeTicket = some payload ∧
        sh'.log = .ran t .execute inv.checkpoint.values inv.resumes :: w.shared.log := by
  have hT := hw.tasks.1
  cases h with
  | @row r hr hpay =>
    cases hold : w.shared.db.task (.finalize t) with
    | none =>
      obtain ⟨ha, hins, dr, inv, hp, hres⟩ := (he.taskChange hT.keys _).inserts hold hr
      obtain ⟨inv', hinv', hn, ht, hval, hlog⟩ := hins.ofExecute (hw.threads.2 i)
      have hinv : (w.procs i).invocation = some inv := by rw [hp, Proc.invocation_driving]
      cases hinv.symm.trans hinv'
      exact .inr ⟨ha, rfl, inv, hinv, hres, hn, ht, hpay ▸ hval, hlog⟩
    | some r₀ =>
      have hsame := (he.taskChange hT.keys _).sameTask hold hr
      exact .inl (.row hold (hsame.payload.symm.trans hpay))
  | @delivery j pc task hp htask hkey hpay =>
    left
    by_cases hj : j = i
    · subst hj
      dsimp only at hp
      rw [Function.update_self] at hp
      subst hp
      rcases he.workerMove.task htask with ⟨pc₀, hpc, ht₀⟩ | ⟨r, hr, rfl⟩
      · exact .delivery hpc ht₀ hkey hpay
      · have hrow : w.shared.db.task (.finalize t) = some r := by
          have := task_of_mem hT.keys hr
          rwa [show r.idempotencyKey = .finalize t from hkey] at this
        exact .row hrow hpay
    · dsimp only at hp
      rw [Function.update_of_ne hj] at hp
      exact .delivery hp htask hkey hpay
  | @event e hm hq ht =>
    left
    rcases he.delivered hw.ledgers.1 (hw.ledgers.2 i) hm hq with hm | ⟨pc, task, result, hpc, htask, rfl, hres⟩
    · exact .event hm hq ht
    · have hkey := (((hw.tasks.2 i) pc hpc).1 task htask).1.finalize_key hres
      exact .delivery hpc htask (ht ▸ hkey) rfl

/-- All finalize payloads of a ticket are one, that of a state in which `execute` ran. -/
structure OnePayload (w : World) : Prop where
  ran : ∀ t payload, Around w t payload → ∃ vals resumes,
    .ran t .execute vals resumes ∈ w.shared.log ∧ vals.payload .finalizeTicket = some payload
  one : ∀ t payload payload', Around w t payload → Around w t payload' → payload = payload'

theorem OnePayload.effect (h : OnePayload w) (hw : World.Reachable w) (hok : Converges w i a)
    (he : Effect w.shared i (w.procs i) a sh' p') :
    OnePayload ⟨sh', Function.update w.procs i p'⟩ := by
  -- an insert repeats the payload there was before
  have inserted : ∀ {t payload payload'}, Around w t payload' →
      (a = .advance ∧ w.shared.db.task (.finalize t) = none ∧ ∃ inv,
        (w.procs i).invocation = some inv ∧ inv.result = none ∧
        inv.checkpoint.next = some .execute ∧ inv.checkpoint.threadId = t ∧
        inv.checkpoint.values.payload .finalizeTicket = some payload ∧
        sh'.log = .ran t .execute inv.checkpoint.values inv.resumes :: w.shared.log) →
      payload = payload' := by
    rintro t payload payload' hold ⟨ha, hnone, inv, hinv, hres, hn, rfl, hval, -⟩
    obtain ⟨vals, resumes, hran, hvals⟩ := h.ran _ _ hold
    by_contra hne
    refine hok ha ⟨inv, hinv, hres, hn, hnone, vals, resumes, hran, fun heq => hne ?_⟩
    rw [hvals, hval] at heq
    exact (Option.some.inj heq).symm
  refine ⟨fun t payload hnew => ?_, fun t payload payload' hnew hnew' => ?_⟩
  · rcases hnew.effect hw he with hold | ⟨-, -, inv, -, -, -, -, hval, hlog⟩
    · obtain ⟨vals, resumes, hran, hvals⟩ := h.ran t payload hold
      exact ⟨vals, resumes, he.log_suffix.subset hran, hvals⟩
    · exact ⟨_, _, hlog ▸ List.mem_cons_self, hval⟩
  · rcases hnew.effect hw he with hold | hins
    · rcases hnew'.effect hw he with hold' | hins'
      · exact h.one t payload payload' hold hold'
      · exact (inserted hold hins').symm
    · rcases hnew'.effect hw he with hold' | hins'
      · exact inserted hold' hins
      · obtain ⟨-, -, inv, hinv, -, -, -, hval, -⟩ := hins
        obtain ⟨-, -, inv', hinv', -, -, -, hval', -⟩ := hins'
        cases hinv.symm.trans hinv'
        exact Option.some.inj (hval.symm.trans hval')

theorem World.ReachableWhen.onePayload (hw : World.ReachableWhen Converges w) : OnePayload w := by
  refine World.ReachableWhen.worldInvariant (I := OnePayload) ?_ ?_ hw
  · have hno : ∀ t payload, ¬Around World.initial t payload := by
      rintro t payload (⟨hr, -⟩ | ⟨hp, -⟩ | ⟨hm, -⟩)
      · cases hr
      · cases hp
      · cases hm
    exact ⟨fun t payload h => absurd h (hno t payload),
      fun t payload _ h => absurd h (hno t payload)⟩
  · exact fun w i a sh' p' hr hok h he => h.effect hr.reachable hok he

/-! ## Where payloads converge -/

theorem World.ReachableWhen.converges_of_unpruned {ok : World → WorkerId → Action → Prop}
    (hok : ∀ w i a, ok w i a → Unpruned w i a) (hw : World.ReachableWhen ok w) :
    World.ReachableWhen Converges w := by
  refine hw.strengthen fun w i a hr _ _ => ?_
  rintro ⟨inv, -, -, -, hnone, vals, resumes, hran, -⟩
  have hsome := enqueued_kept (hr.mono hok) hran rfl
  rw [hnone] at hsome
  cases hsome

theorem World.ReachableWhen.converges_of_latest {ok : World → WorkerId → Action → Prop}
    (hok : ∀ w i, ok w i .advance → SavesLatest w i) (hw : World.ReachableWhen ok w) :
    World.ReachableWhen Converges w := by
  refine hw.strengthen fun w i a hr _ _ => ?_
  rintro ⟨inv, hinv, -, hn, -, vals, resumes, hran, hne⟩
  have hline : OneLine w := World.ReachableWhen.oneLine hok hr
  have hsame := hline.one _ _ _ (.ran hran) (.driven hinv rfl hn rfl)
  exact hne (by rw [hsame])

/-! ## One result -/

theorem Truthful.unique (h : Truthful log payload result) (h' : Truthful log' payload result') :
    result = result' := by
  obtain ⟨r, hr, hres⟩ := h.expected
  obtain ⟨r', hr', hres'⟩ := h'.expected
  cases hr.symm.trans hr'
  have hflag : result.refundExecuted = result'.refundExecuted :=
    Bool.eq_iff_iff.mpr (h.flag.trans h'.flag.symm)
  rw [hres, hres', hflag]

theorem saved_unique (hw : World.ReachableWhen Converges w) (h : Saved w.shared.log result)
    (h' : Saved w.shared.log result') (ht : result.ticketId = result'.ticketId) :
    result = result' := by
  obtain ⟨payload, hm⟩ := h
  obtain ⟨payload', hm'⟩ := h'
  have hreach : World.Reachable w := hw.reachable
  have htrue := hreach.ledgers.1.saved _ _ hm
  have htrue' := hreach.ledgers.1.saved _ _ hm'
  have hsame : payload = payload' := by
    refine hw.onePayload.one result.ticketId payload payload' (.event hm rfl htrue.ticket) ?_
    exact .event hm' rfl (htrue'.ticket.trans ht.symm)
  exact htrue.unique (hsame ▸ htrue')

theorem loadResult_eq_some {db : Database} (h : Readmodel.loadResult t db = some result) :
    (t, result) ∈ db.ticketResults := by
  obtain ⟨row, hrow, rfl⟩ := Option.map_eq_some_iff.mp h
  have hkey : row.1 = t := by simpa using List.find?_some hrow
  exact hkey ▸ List.mem_of_find?_eq_some hrow

/-- Once a result of the ticket was saved, the read model shows it. -/
theorem loadResult_of_saved (hw : World.ReachableWhen Converges w)
    (h : Saved w.shared.log result) :
    Readmodel.loadResult result.ticketId w.shared.db = some result := by
  have hreach : World.Reachable w := hw.reachable
  obtain ⟨payload, hm⟩ := id h
  obtain ⟨result', hload⟩ := Option.isSome_iff_exists.mp (hreach.results.saved _ _ hm)
  obtain ⟨hkey, hsaved⟩ := hreach.ledgers.1.readModel _ (loadResult_eq_some hload)
  rw [hload, saved_unique hw h hsaved hkey]

theorem log_suffix_of_run {ok : World → WorkerId → Action → Prop}
    (hw : Interleaving.ReachableWhen Proc.step (· = w) ok w') :
    w.shared.log <:+ w'.shared.log := by
  induction hw with
  | init h => exact h ▸ List.suffix_rfl
  | next _ _ hn ih =>
    obtain ⟨s, l, hp, rfl⟩ := Config.next_eq_some hn
    exact ih.trans (effect_of_step hp).log_suffix

/-- At the end of a ticket's thread the read model holds the checkpoint's result, with its status;
and `get_ticket` answers the same once the thread has been deleted, whatever happened since. -/
theorem read_paths_agree (hw : World.ReachableWhen Converges w) {cp : Checkpoint}
    (hcp : w.shared.checkpoints.get t = some cp) (hend : cp.next = none) :
    ∃ result, cp.values.result = some result ∧ cp.values.status = result.status ∧
      Readmodel.loadResult t w.shared.db = some result ∧
      ∀ w', Interleaving.ReachableWhen Proc.step (· = w) Converges w' →
        w'.shared.checkpoints.get t = none → ∃ live archived,
          Api.getTicket t (w.shared.checkpoints.get t) w.shared.db = some live ∧
          Api.getTicket t (w'.shared.checkpoints.get t) w'.shared.db = some archived ∧
          archived.status = live.status ∧ archived.result = live.result := by
  have hreach : World.Reachable w := hw.reachable
  obtain ⟨result, hres, hsaved⟩ := hreach.endsSaved t cp hcp hend
  obtain ⟨hsound, -⟩ := hreach.threads.1 t cp hcp
  have hstate := hsound.state
  rw [hend] at hstate
  obtain ⟨-, result', hres', hticket, hstatus⟩ := hstate
  cases hres.symm.trans hres'
  have ht : result.ticketId = t := by
    rw [hticket, hsound.ticket]
    exact Checkpoints.threadId_of_get hcp
  refine ⟨result, hres, hstatus, ht ▸ loadResult_of_saved hw hsaved, fun w' hw' hgone => ?_⟩
  have hload : Readmodel.loadResult t w'.shared.db = some result :=
    ht ▸ loadResult_of_saved (hw.trans hw') (hsaved.mono (log_suffix_of_run hw'))
  rw [hcp, hgone, Api.getTicket, Api.getTicket, hload]
  exact ⟨_, _, rfl, rfl, hstatus.symm, hres.symm⟩

/-- A safe draft is finalized and the thread ends. -/
theorem read_paths_agree_safe : ∃ w cp result, World.Reachable w ∧
    w.shared.checkpoints.get 7 = some cp ∧ cp.values.result = some result ∧
    Readmodel.loadResult 7 w.shared.db = some result := by
  have hrun : (World.initial.runWhen Proc.step Unpruned (Schedule.drafted Schedule.safeDraft 10 ++
      [(3, .dequeue .taskQueue Schedule.unlocked)] ++ Schedule.advance 3 5 ++
      Schedule.step 2 7)).map (fun w => (w.shared.checkpoints.get 7).any fun cp => cp.next = none) =
        some true := by decide +kernel
  obtain ⟨w, hw, hp⟩ := exists_reachableWhen_of_run hrun
  obtain ⟨cp, hcp, hend⟩ := (Option.any_eq_true ..).mp hp
  have hconv : World.ReachableWhen Converges w :=
    World.ReachableWhen.converges_of_unpruned (fun _ _ _ => id) hw
  obtain ⟨result, hres, -, hload, -⟩ := read_paths_agree hconv hcp (of_decide_eq_true hend)
  exact ⟨w, cp, result, hw.reachable, hcp, hres, hload⟩

/-- Runner 2 was overtaken, and its escalation is the first finalize task of ticket 7. Runner 6
reads its result and stalls while retention prunes it; `execute` then inserts the task of the
approved state, and worker 3 delivers that one too. -/
def Schedule.finalizedTwice : Schedule :=
  Schedule.overtaken ++ [(3, .dequeue .taskQueue Schedule.unlocked)] ++ Schedule.advance 3 5 ++
    [(0, .tick (seconds 31))] ++ Schedule.step 6 2 ++ [(0, .runRetention 0)] ++
    Schedule.advance 0 3 ++ Schedule.advance 6 5 ++
    [(3, .dequeue .taskQueue Schedule.unlocked)] ++ Schedule.advance 3 4

/-- The thread of ticket 7 has ended escalated, and the read model says it was resolved. -/
theorem read_paths_diverge : ∃ w cp result, World.Reachable w ∧
    w.shared.checkpoints.get 7 = some cp ∧ cp.next = none ∧ cp.values.status = .escalated ∧
    Readmodel.loadResult 7 w.shared.db = some result ∧ result.status = .resolved := by
  have hrun : (World.initial.run Proc.step Schedule.finalizedTwice).map (fun w =>
      (w.shared.checkpoints.get 7).any fun cp => (Readmodel.loadResult 7 w.shared.db).any fun result =>
        cp.next = none ∧ cp.values.status = .escalated ∧ result.status = .resolved) = some true := by
    decide +kernel
  obtain ⟨w, hw, hp⟩ := exists_reachableWhen_of_run hrun
  obtain ⟨cp, hcp, hp⟩ := (Option.any_eq_true ..).mp hp
  obtain ⟨result, hres, hp⟩ := (Option.any_eq_true ..).mp hp
  obtain ⟨hend, hst, hresolved⟩ := of_decide_eq_true hp
  exact ⟨w, cp, result, hw, hcp, hend, hst, hres, hresolved⟩

end TicketFlow
