import TicketFlow.Steps

/-! # The run table

How one action can change the row of a ticket: eight ways, each with the process behind it. The
results about run leases, timers and projected statuses are proved from this list. -/

namespace TicketFlow
open Table
set_option autoImplicit false

/-- The run row of a ticket. -/
def Database.run (db : Database) (t : TicketId) : Option WorkflowRun :=
  lookup WorkflowRun.ticketId t db.workflowRun

/-- `ticket_id` is a primary key. -/
def RunKeys (db : Database) : Prop := (db.workflowRun.map WorkflowRun.ticketId).Nodup

theorem Database.run_eq_some {db : Database} {t : TicketId} {r : WorkflowRun}
    (h : db.run t = some r) : r ∈ db.workflowRun ∧ r.ticketId = t := lookup_eq_some h

theorem RunKeys.run_of_mem {db : Database} {r : WorkflowRun} (hn : RunKeys db)
    (h : r ∈ db.workflowRun) : db.run r.ticketId = some r := lookup_of_mem hn h

/-- The arguments of a `save_run` call. -/
structure Save where
  ticketId : TicketId
  status : TicketStatus
  wakeupAt : Option Time
  consumedSignalId : Option ℕ
deriving DecidableEq

/-- The `save_run` call a process issues next. -/
def Proc.saves : Proc → Option Save
  | .runner (.releasing run) => some ⟨run.ticketId, run.status, run.wakeupAt, none⟩
  | .runner (.saving run resume out) =>
    some ⟨run.ticketId, out.values.status, Runner.nextWakeupAt out, resume.consumedSignalId⟩
  | _ => none

/-- The run a process has claimed and not yet saved. -/
def Proc.holds : Proc → Option WorkflowRun
  | .runner pc => some pc.run
  | _ => none

/-- The run a worker is about to wake. -/
def Proc.wakes : Proc → Option TicketId
  | .worker (.waking task) => some task.workflowId
  | _ => none

/-- The row a process is about to insert. -/
def Proc.creates : Proc → Option (TicketId × TicketState)
  | .api (.seeded t out) => some (t, out.values)
  | .janitor (.projecting t values _) => some (t, values)
  | _ => none

@[simp] theorem Proc.holds_driving (dr : Driver) (inv : Invocation) (out : Output) :
    (dr.returned inv out).holds = (dr.driving inv).holds := by
  cases dr <;> rfl

theorem Proc.holds_driving_eq (dr : Driver) (inv inv' : Invocation) :
    (dr.driving inv).holds = (dr.driving inv').holds := by
  cases dr <;> rfl

@[simp] theorem Proc.saves_driving (dr : Driver) (inv : Invocation) :
    (dr.driving inv).saves = none := by
  cases dr <;> rfl

/-! ## The eight changes -/

inductive RunChange (sh : Shared) (i : WorkerId) (p : Proc) (a : Action) (sh' : Shared) (p' : Proc)
    (t : TicketId) : Prop
  | same : sh'.db.run t = sh.db.run t → RunChange sh i p a sh' p' t
  | claimed {locked r} : p = .idle → a = .claimRun locked → sh.db.run t = some r →
      Db.Claimable sh.db.now r → p' = .runner (.claimed (Db.leaseRun i sh.db.now r)) →
      sh'.db.run t = some (Db.leaseRun i sh.db.now r) → sh'.log = .claimed i t :: sh.log →
      RunChange sh i p a sh' p' t
  | saved {s : Save} : p.saves = some s → s.ticketId = t → a = .advance → p' = .idle →
      sh'.db.run t = (sh.db.run t).map (Db.saveRunRow s.status s.wakeupAt sh.db.now) →
      sh'.log = .saved t s.status s.consumedSignalId :: sh.log → RunChange sh i p a sh' p' t
  | woken {task : QueuedTask} : p = .worker (.waking task) → task.workflowId = t → a = .advance →
      p' = .idle →
      sh'.db.run t = (sh.db.run t).map (Db.wakeRunRow sh.db.now) → sh'.log = sh.log →
      RunChange sh i p a sh' p' t
  | accepted {d id r} : p = .idle → a = .submitApproval t d → sh.db.run t = some r →
      r.status = .awaitingApproval → sh'.db.run t = some (Db.wakeRunRow sh.db.now r) →
      sh'.log = .accepted t id d :: sh.log → RunChange sh i p a sh' p' t
  | reclaimed {r e} : p = .janitor .reclaimingRuns → sh.db.run t = some r → r.leaseExpiresAt = some e →
      e < sh.db.now → sh'.db.run t = some (Db.releaseRun sh.db.now r) → sh'.log = sh.log →
      RunChange sh i p a sh' p' t
  | created {values : TicketState} : p.creates = some (t, values) → a = .advance →
      sh.db.run t = none →
      sh'.db.run t = some (Db.newRun t values.status values.wakeupAt sh.db.now) →
      sh'.log = sh.log → RunChange sh i p a sh' p' t
  | archived {maxAge r} : p = .idle → a = .runRetention maxAge → sh.db.run t = some r →
      Db.Archivable maxAge sh.db.now r → sh'.db.run t = none → sh'.log = sh.log →
      RunChange sh i p a sh' p' t

variable {sh sh' : Shared} {i : WorkerId} {p p' : Proc} {a : Action} {t : TicketId}

/-! ## The row after each statement -/

theorem run_saveRun {db : Database} {u : TicketId} {status : TicketStatus} {wakeupAt : Option Time}
    {consumed : Option ℕ} : (Db.saveRun u status wakeupAt consumed db).run t =
      if t = u then (db.run t).map (Db.saveRunRow status wakeupAt db.now) else db.run t :=
  lookup_updateKey fun _ => rfl

theorem run_wakeRun {db : Database} {u : TicketId} : (Db.wakeRun u db).run t =
    if t = u then (db.run t).map (Db.wakeRunRow db.now) else db.run t :=
  lookup_updateKey fun _ => rfl

theorem run_reclaimExpiredRuns {db : Database} : (Db.reclaimExpiredRuns db).run t =
    (db.run t).map fun r => if ∃ e ∈ r.leaseExpiresAt, e < db.now then Db.releaseRun db.now r else r :=
  lookup_updateWhere fun _ => rfl

theorem run_claimRun {workerId : WorkerId} {locked : TicketId → Bool} {db db' : Database}
    {run : WorkflowRun} (hn : RunKeys db) (h : Db.claimRun workerId locked db = (db', some run)) :
    ∃ r, db.run run.ticketId = some r ∧ Db.Claimable db.now r ∧
      run = Db.leaseRun workerId db.now r ∧ db'.run run.ticketId = some run := by
  obtain ⟨r, hr, hc, -, -, rfl, rfl⟩ := Db.claimRun_eq_some h
  have key : lookup WorkflowRun.ticketId r.ticketId (updateWhere (·.ticketId = r.ticketId)
      (Db.leaseRun workerId db.now) db.workflowRun) = _ := lookup_updateKey fun _ => rfl
  rw [if_pos rfl] at key
  have hrun := hn.run_of_mem hr
  exact ⟨r, hrun, hc, rfl, key.trans (congrArg _ hrun)⟩

theorem run_createRun_of_ne {db : Database} {u : TicketId} {status : TicketStatus}
    {wakeupAt : Option Time} (h : t ≠ u) : (Db.createRun u status wakeupAt db).run t = db.run t :=
  lookup_insertNew_of_ne (Ne.symm h)

theorem run_createRun_self {db : Database} {status : TicketStatus} {wakeupAt : Option Time} :
    (Db.createRun t status wakeupAt db).run t =
      (db.run t).or (some (Db.newRun t status wakeupAt db.now)) :=
  lookup_insertNew_self (r := Db.newRun t status wakeupAt db.now)

theorem archiveTerminalRuns_eq_some {maxAge : Time} {db db' : Database} {ts : List TicketId}
    (h : Db.archiveTerminalRuns maxAge db = some (db', ts)) :
    db'.now = db.now ∧ db'.taskQueue = db.taskQueue ∧ db'.pendingSignal = db.pendingSignal ∧
      db'.workflowRun = db.workflowRun.filter fun r => ¬ Db.Archivable maxAge db.now r := by
  simp only [Db.archiveTerminalRuns] at h
  split at h
  · cases h
  · cases h
    exact ⟨rfl, rfl, rfl, rfl⟩

theorem runChange_created {values : TicketState} {u : TicketId} {log : List Event}
    {cps : Checkpoints} (hp : p.creates = some (u, values)) (ha : a = .advance)
    (hlog : log = sh.log) :
    RunChange sh i p a ⟨Db.createRun u values.status values.wakeupAt sh.db, cps, log⟩ p' t := by
  by_cases ht : t = u
  · subst ht
    have key : (Db.createRun t values.status values.wakeupAt sh.db).run t =
        (sh.db.run t).or (some (Db.newRun t values.status values.wakeupAt sh.db.now)) :=
      run_createRun_self
    cases hr : sh.db.run t with
    | none =>
      rw [hr] at key
      exact .created hp ha hr key hlog
    | some r =>
      rw [hr] at key
      exact .same (key.trans hr.symm)
  · exact .same (run_createRun_of_ne ht)

theorem runChange_saved {s : Save} (hp : p.saves = some s) (ha : a = .advance) (hp' : p' = .idle) :
    RunChange sh i p a
      (sh.record (Db.saveRun s.ticketId s.status s.wakeupAt s.consumedSignalId sh.db)
        (.saved s.ticketId s.status s.consumedSignalId)) p' t := by
  have key : (Db.saveRun s.ticketId s.status s.wakeupAt s.consumedSignalId sh.db).run t =
      if t = s.ticketId then (sh.db.run t).map (Db.saveRunRow s.status s.wakeupAt sh.db.now)
      else sh.db.run t := run_saveRun
  by_cases ht : t = s.ticketId
  · subst ht
    rw [if_pos rfl] at key
    exact .saved hp rfl ha hp' key rfl
  · rw [if_neg ht] at key
    exact .same key

/-- Every action changes the row of every ticket in one of the eight ways. -/
theorem Effect.runChange (hn : RunKeys sh.db) (h : Effect sh i p a sh' p') (t : TicketId) :
    RunChange sh i p a sh' p' t := by
  cases h with
  | quiet h => exact .same rfl
  | tick elapsed => exact .same rfl
  | created hf => exact .same rfl
  | ran hr hnx hrun =>
    rename_i n db result
    obtain ⟨rows, seq, hf⟩ := n.run_frame _ _ sh.db
    rw [hrun] at hf
    cases hf
    exact .same rfl
  | put hr hnx => exact .same rfl
  | suspended hr => exact .same rfl
  | seeded => exact runChange_created rfl rfl rfl
  | accepted hs =>
    rename_i u d db id
    obtain ⟨⟨r, hr, hw⟩, -, rfl, rfl⟩ := Db.addPendingSignalIfWaiting_eq_some hs
    have key : lookup WorkflowRun.ticketId t (updateWhere (·.ticketId = u)
        (Db.wakeRunRow sh.db.now) sh.db.workflowRun) = _ := lookup_updateKey fun _ => rfl
    by_cases ht : t = u
    · subst ht
      have hrun : sh.db.run t = some r := hw.1 ▸ hn.run_of_mem hr
      rw [if_pos rfl] at key
      exact .accepted rfl rfl hrun hw.2 (key.trans (congrArg _ hrun)) rfl
    · rw [if_neg ht] at key
      exact .same key
  | claimed hs =>
    obtain ⟨r, hr, hc, -, -, rfl, rfl⟩ := Db.claimRun_eq_some hs
    have key : lookup WorkflowRun.ticketId t (updateWhere (·.ticketId = r.ticketId)
        (Db.leaseRun i sh.db.now) sh.db.workflowRun) = _ := lookup_updateKey fun _ => rfl
    by_cases ht : t = r.ticketId
    · subst ht
      have hrun := hn.run_of_mem hr
      rw [if_pos rfl] at key
      exact .claimed rfl rfl hrun hc rfl (key.trans (congrArg _ hrun)) rfl
    · rw [if_neg ht] at key
      exact .same key
  | released => exact runChange_saved (p := .runner (.releasing _)) rfl rfl rfl
  | saved => exact runChange_saved (p := .runner (.saving _ _ _)) rfl rfl rfl
  | dequeued hs =>
    obtain ⟨r, -, -, -, rfl⟩ := Db.dequeue_eq_some hs
    exact .same rfl
  | refunded => exact .same rfl
  | replied hs =>
    cases hs
    exact .same rfl
  | recorded => exact .same rfl
  | completed hm hs => exact .same rfl
  | failed hm hs hf => exact .same rfl
  | woken =>
    rename_i task
    have key : (Db.wakeRun task.workflowId sh.db).run t = _ := run_wakeRun
    by_cases ht : t = task.workflowId
    · subst ht
      rw [if_pos rfl] at key
      exact .woken rfl rfl rfl rfl key rfl
    · rw [if_neg ht] at key
      exact .same key
  | reclaimedTasks => exact .same rfl
  | reclaimedRuns =>
    have key : (Db.reclaimExpiredRuns sh.db).run t = _ := run_reclaimExpiredRuns
    cases hr : sh.db.run t with
    | none =>
      rw [hr] at key
      exact .same (key.trans hr.symm)
    | some r =>
      rw [hr, Option.map_some] at key
      by_cases he : ∃ e ∈ r.leaseExpiresAt, e < sh.db.now
      · rw [if_pos he] at key
        obtain ⟨e, he, hlt⟩ := he
        exact .reclaimed rfl hr he hlt key rfl
      · rw [if_neg he] at key
        exact .same (key.trans hr.symm)
  | projected => exact runChange_created rfl rfl rfl
  | archived hs =>
    rename_i maxAge db ts
    obtain ⟨-, -, -, hw⟩ := archiveTerminalRuns_eq_some hs
    have key : (sh.commit db).db.run t = (sh.db.run t).filter fun r => ¬ Db.Archivable maxAge sh.db.now r := by
      change lookup _ _ db.workflowRun = _
      rw [hw]
      exact lookup_filter hn
    cases hr : sh.db.run t with
    | none =>
      rw [hr] at key
      exact .same (key.trans hr.symm)
    | some r =>
      rw [hr] at key
      by_cases hc : Db.Archivable maxAge sh.db.now r
      · exact .archived rfl rfl hr hc (by simpa [Option.filter, hc] using key) rfl
      · exact .same (by simpa [Option.filter, hc, hr] using key)
  | deleted => exact .same rfl
  | prunedSignals => exact .same rfl
  | prunedTasks => exact .same rfl

theorem Effect.idle_of_saves {s : Save} (h : Effect sh i p .advance sh' p')
    (hs : p.saves = some s) : p' = .idle := by
  cases h with
  | quiet h =>
    cases h with
    | ended hr hn => simp at hs
    | _ => first | rfl | cases hs
  | ran hr hn hrun => simp at hs
  | put hr hn => simp at hs
  | suspended hr => simp at hs
  | _ => first | rfl | cases hs

theorem Effect.creates_row {values : TicketState} (h : Effect sh i p .advance sh' p')
    (hc : p.creates = some (t, values)) :
    sh'.db = Db.createRun t values.status values.wakeupAt sh.db ∧ sh'.checkpoints = sh.checkpoints := by
  cases h with
  | seeded =>
    cases hc
    exact ⟨rfl, rfl⟩
  | projected =>
    cases hc
    exact ⟨rfl, rfl⟩
  | @ran dr inv n db result hr hn hrun => cases dr <;> cases hc
  | @put dr inv values next hr hn => cases dr <;> cases hc
  | @suspended dr inv env hr => cases dr <;> cases hc
  | quiet h =>
    cases h with
    | @ended dr inv hr hn => cases dr <;> cases hc
    | @raised dr inv error hr => cases dr <;> cases hc
    | _ => cases hc
  | _ => cases hc

/-- A process comes to hold a run by claiming it, and keeps holding the same one. -/
theorem Effect.holds {run : WorkflowRun} (h : Effect sh i p a sh' p') (hp : p'.holds = some run) :
    p.holds = some run ∨ ∃ locked db, p = .idle ∧ a = .claimRun locked ∧
      Db.claimRun i locked sh.db = (db, some run) ∧
      sh' = sh.record db (.claimed i run.ticketId) := by
  cases h with
  | quiet h =>
    left
    cases h with
    | ended hr hn => rwa [Proc.holds_driving] at hp
    | raised hr => cases hp
    | _ => first | exact hp | cases hp
  | tick elapsed => exact .inl hp
  | ran hr hn hrun =>
    left
    rwa [Proc.holds_driving_eq] at hp
  | put hr hn =>
    left
    rwa [Proc.holds_driving_eq] at hp
  | suspended hr =>
    left
    rwa [Proc.holds_driving] at hp
  | claimed hs =>
    cases hp
    exact .inr ⟨_, _, rfl, rfl, hs, rfl⟩
  | failed hm hs hf =>
    split at hp <;> cases hp
  | _ => cases hp

theorem RunKeys.updateWhere {db db' : Database} {q : WorkflowRun → Prop} [DecidablePred q]
    {f : WorkflowRun → WorkflowRun} (hn : RunKeys db)
    (hrows : db'.workflowRun = Table.updateWhere q f db.workflowRun)
    (hf : ∀ r, (f r).ticketId = r.ticketId) : RunKeys db' := by
  rw [RunKeys, hrows, map_updateWhere fun r _ => hf r]
  exact hn

theorem Effect.runKeys (h : Effect sh i p a sh' p') (hn : RunKeys sh.db) : RunKeys sh'.db := by
  cases h with
  | quiet h => exact hn
  | tick elapsed => exact hn
  | created hf => exact hn
  | ran hr hnx hrun =>
    rename_i n db result
    obtain ⟨rows, seq, hf⟩ := n.run_frame _ _ sh.db
    rw [hrun] at hf
    cases hf
    exact hn
  | put hr hnx => exact hn
  | suspended hr => exact hn
  | seeded => exact nodup_insertNew hn
  | accepted hs =>
    obtain ⟨-, -, rfl, rfl⟩ := Db.addPendingSignalIfWaiting_eq_some hs
    exact hn.updateWhere rfl fun _ => rfl
  | claimed hs =>
    obtain ⟨r, -, -, -, -, -, rfl⟩ := Db.claimRun_eq_some hs
    exact hn.updateWhere rfl fun _ => rfl
  | released => exact hn.updateWhere rfl fun _ => rfl
  | saved => exact hn.updateWhere rfl fun _ => rfl
  | dequeued hs =>
    obtain ⟨r, -, -, -, rfl⟩ := Db.dequeue_eq_some hs
    exact hn
  | refunded => exact hn
  | replied hs =>
    cases hs
    exact hn
  | recorded => exact hn
  | completed hm hs => exact hn
  | failed hm hs hf => exact hn
  | woken => exact hn.updateWhere rfl fun _ => rfl
  | reclaimedTasks => exact hn
  | reclaimedRuns => exact hn.updateWhere rfl fun _ => rfl
  | projected => exact nodup_insertNew hn
  | archived hs =>
    rename_i maxAge db ts
    obtain ⟨-, -, -, hw⟩ := archiveTerminalRuns_eq_some hs
    change (db.workflowRun.map _).Nodup
    rw [hw]
    exact nodup_filter _ hn
  | deleted => exact hn
  | prunedSignals => exact hn
  | prunedTasks => exact hn

end TicketFlow
