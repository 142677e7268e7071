import TicketFlow.ExactlyOnce
import TicketFlow.Fallback

/-! # The attempt tables

`refund_attempts` and `reply_attempts` log every call of the ledgers under the number of the delivery
that made it. The deliveries of one task are numbered apart, however many workers have one in hand,
so no number is logged twice; and a reply that tells of a refund is logged after the refund of the
same delivery. -/

namespace TicketFlow
open Table Interleaving
set_option autoImplicit false

/-- The ticket and the number of the delivery that made the attempt. -/
def Attempt.delivery (x : Attempt) : TicketId × ℕ := (x.ticketId, x.attempt)

/-- The delivery a process works on. -/
def Proc.delivery : Proc → Option QueuedTask
  | .worker pc => pc.task
  | _ => none

/-- An attempt table, and whether a worker may still write to it. -/
structure AttemptTable where
  rows : Database → List Attempt
  ahead : Worker.Pc → Bool

def AttemptTable.refunds : AttemptTable where
  rows := Database.refundAttempts
  ahead
    | .leased _ | .refunding _ _ _ => true
    | _ => false

def AttemptTable.replies : AttemptTable where
  rows := Database.replyAttempts
  ahead
    | .leased _ | .refunding _ _ _ | .checking _ _ | .replying _ _ _ => true
    | _ => false

variable {sh sh' : Shared} {w : World} {i : WorkerId} {p p' : Proc} {a : Action} {t : TicketId}
  {task : QueuedTask} {key : IdempotencyKey} {T : AttemptTable}

/-! ## Deliveries are numbered apart -/

/-- A process goes on with its delivery, or has just leased the row. -/
theorem Effect.delivery (he : Effect sh i p a sh' p') (hk : Taskqueue.Keys sh.db)
    (h : p'.delivery = some task) : p.delivery = some task ∨
      ∃ r, sh.db.task task.idempotencyKey = some r ∧ task = Db.leaseTask i sh.db.now r ∧
        sh'.db.task task.idempotencyKey = some task := by
  cases p' with
  | worker pc =>
    cases he.workerMove with
    | leased hs =>
      cases h
      obtain ⟨r, hr, hdue, rfl, rfl⟩ := Db.dequeue_eq_some hs
      have hrow := task_of_mem hk hr
      refine .inr ⟨r, hrow, rfl, ?_⟩
      change lookup QueuedTask.idempotencyKey r.idempotencyKey (updateWhere (·.id = r.id)
        (Db.leaseTask i sh.db.now) sh.db.taskQueue) = _
      rw [lookup_updateWhere (f := Db.leaseTask i sh.db.now) fun _ => rfl]
      change (sh.db.task r.idempotencyKey).map _ = _
      rw [hrow, Option.map_some, if_pos rfl]
    | raises ht =>
      rename_i pc₀ task' error permanent
      cases h
      left
      cases pc₀ <;> first | exact ht | cases ht
    | started hf =>
      left
      change (Worker.startFinalize _).task = _ at h
      rwa [startFinalize_task] at h
    | settled ht hact =>
      cases h
      exact .inl ht
    | _ => exact .inl h
  | _ => cases h

/-- Nothing but a prune lowers the number of deliveries of a task. -/
theorem TaskChange.attempts {r : QueuedTask} (h : TaskChange sh i p a sh' p' key)
    (hp : a = .advance → p.prunes = false) (hr : sh.db.task key = some r) :
    ∃ r', sh'.db.task key = some r' ∧ r.SameTask r' ∧ r.attempts ≤ r'.attempts := by
  obtain ⟨r', hr', hsame⟩ := h.kept hp hr
  refine ⟨r', hr', hsame, ?_⟩
  cases h with
  | same he =>
    cases (he.trans hr).symm.trans hr'
    exact le_rfl
  | inserted hp₀ ha hr₀ hn hw hp' hlog hins hno he =>
    rw [hr] at hno
    cases hno
  | cancelled hp₀ ha hr₀ hn hw hp' hk ht hst he =>
    cases hr.symm.trans ht
    cases he.symm.trans hr'
    exact le_rfl
  | leased hp₀ ha ht hdue hp' he =>
    cases hr.symm.trans ht
    cases he.symm.trans hr'
    exact Nat.le_succ _
  | completed hp₀ ha ht hs hp' he hlog =>
    cases hr.symm.trans ht
    cases he.symm.trans hr'
    exact le_rfl
  | failed hp₀ ha ht hs hp' he =>
    cases hr.symm.trans ht
    cases he.symm.trans hr'
    unfold Taskqueue.failRow
    split <;> exact le_rfl
  | reclaimed hp₀ ha ht hx he =>
    cases hr.symm.trans ht
    cases he.symm.trans hr'
    exact le_rfl
  | pruned hp₀ ha ht hs he =>
    rw [he] at hr'
    cases hr'

/-- The deliveries under way are numbered up to the count of their row, those of one task apart. -/
structure Numbered (w : World) : Prop where
  row : ∀ j task, (w.procs j).delivery = some task → ∃ r,
    w.shared.db.task task.idempotencyKey = some r ∧ r.SameTask task ∧ 1 ≤ task.attempts ∧
      task.attempts ≤ r.attempts
  apart : ∀ j k task task', (w.procs j).delivery = some task → (w.procs k).delivery = some task' →
    task.idempotencyKey = task'.idempotencyKey → task.attempts = task'.attempts → j = k

theorem Numbered.effect (h : Numbered w) (hk : Taskqueue.Keys w.shared.db)
    (hp : a = .advance → (w.procs i).prunes = false)
    (he : Effect w.shared i (w.procs i) a sh' p') :
    Numbered ⟨sh', Function.update w.procs i p'⟩ := by
  -- a delivery is an old one of its process, or it is numbered above all the others of its task
  have split : ∀ {j task}, (Function.update w.procs i p' j).delivery = some task →
      (w.procs j).delivery = some task ∨ j = i ∧ sh'.db.task task.idempotencyKey = some task ∧
        ∃ r, w.shared.db.task task.idempotencyKey = some r ∧ task.attempts = r.attempts + 1 := by
    intro j task hd
    by_cases hj : j = i
    · subst hj
      rw [Function.update_self] at hd
      rcases he.delivery hk hd with hold | ⟨r, hr, htask, hr'⟩
      · exact .inl hold
      · exact .inr ⟨rfl, hr', r, hr, by rw [htask]; rfl⟩
    · rw [Function.update_of_ne hj] at hd
      exact .inl hd
  refine ⟨fun j task hd => ?_, fun j k task task' hj hk' hkey hnum => ?_⟩
  · rcases split hd with hold | ⟨-, hr', r, hr, hnum⟩
    · obtain ⟨r, hr, hsame, hpos, hle⟩ := h.row j task hold
      obtain ⟨r', hr', hsame', hle'⟩ := (he.taskChange hk _).attempts hp hr
      exact ⟨r', hr', hsame'.symm.trans hsame, hpos, hle.trans hle'⟩
    · exact ⟨task, hr', ⟨rfl, rfl, rfl, rfl, rfl, rfl⟩, by omega, le_rfl⟩
  · rcases split hj with hold | ⟨hji, -, r, hr, hnew⟩ <;>
      rcases split hk' with hold' | ⟨hki, -, r', hr', hnew'⟩
    · exact h.apart j k task task' hold hold' hkey hnum
    · obtain ⟨r, hr, -, -, hle⟩ := h.row j task hold
      rw [hkey] at hr
      cases hr.symm.trans hr'
      omega
    · obtain ⟨r', hr', -, -, hle⟩ := h.row k task' hold'
      rw [← hkey] at hr'
      cases hr.symm.trans hr'
      omega
    · exact hji.trans hki.symm

theorem World.ReachableWhen.numbered (hw : World.ReachableWhen Unpruned w) : Numbered w := by
  refine World.ReachableWhen.worldInvariant (I := Numbered) ?_ ?_ hw
  · exact ⟨fun _ _ h => (nomatch h), fun _ _ _ _ h => nomatch h⟩
  · intro w i a sh' p' hr ha h he
    refine h.effect (World.Reachable.tasks hr.reachable).1.keys ?_ he
    rintro rfl
    exact ha

/-! ## What the tables log -/

/-- The two calls that write to the tables. -/
inductive AttemptChange (sh : Shared) (p : Proc) (sh' : Shared) (p' : Proc) : Prop
  | none : sh'.db.refundAttempts = sh.db.refundAttempts →
      sh'.db.replyAttempts = sh.db.replyAttempts → AttemptChange sh p sh' p'
  | refund {task : QueuedTask} {amount result} : p = .worker (.refunding task amount result) →
      p' = .worker (.checking task result) →
      sh'.db.refundAttempts =
        sh.db.refundAttempts ++ [⟨task.payload.ticket.id, task.attempts, sh.db.now⟩] →
      sh'.db.replyAttempts = sh.db.replyAttempts → AttemptChange sh p sh' p'
  | reply {task : QueuedTask} {result : TicketResult} {flag} :
      p = .worker (.replying task result flag) →
      p' = .worker (.recording task { result with refundExecuted := flag }) →
      sh'.db.refundAttempts = sh.db.refundAttempts →
      sh'.db.replyAttempts =
        sh.db.replyAttempts ++ [⟨task.payload.ticket.id, task.attempts, sh.db.now⟩] →
      AttemptChange sh p sh' p'

theorem Effect.attemptChange (h : Effect sh i p a sh' p') : AttemptChange sh p sh' p' := by
  cases h with
  | @ran dr inv n db result hres hn hrun =>
    obtain ⟨rows, seq, hf⟩ := n.run_frame inv.checkpoint.values inv.resumes sh.db
    rw [hrun] at hf
    cases hf
    exact .none rfl rfl
  | accepted hs =>
    obtain ⟨-, -, rfl, rfl⟩ := Db.addPendingSignalIfWaiting_eq_some hs
    exact .none rfl rfl
  | claimed hs =>
    obtain ⟨r, -, -, -, -, -, rfl⟩ := Db.claimRun_eq_some hs
    exact .none rfl rfl
  | dequeued hs =>
    obtain ⟨r, -, -, -, rfl⟩ := Db.dequeue_eq_some hs
    exact .none rfl rfl
  | refunded => exact .refund rfl rfl rfl rfl
  | replied hs =>
    cases hs
    exact .reply rfl rfl rfl rfl
  | archived hs =>
    simp only [Db.archiveTerminalRuns] at hs
    split at hs
    · cases hs
    · cases hs
      exact .none rfl rfl
  | _ => exact .none rfl rfl

/-- What the argument below needs of a table: it is written to by a worker that was ahead of it and
is no longer, with the delivery of a finalize task. -/
structure AttemptTable.Lawful (T : AttemptTable) : Prop where
  empty : T.rows .empty = []
  write : ∀ {sh i p a sh' p'}, Effect sh i p a sh' p' →
    (∀ pc, p = .worker pc → FinalizeSound sh.log pc) → T.rows sh'.db = T.rows sh.db ∨
      ∃ pc task result, p = .worker pc ∧ T.ahead pc = true ∧ pc.task = some task ∧
        task.payload.result = some result ∧ (∀ pc', p' = .worker pc' → T.ahead pc' = false) ∧
        T.rows sh'.db = T.rows sh.db ++ [⟨task.payload.ticket.id, task.attempts, sh.db.now⟩]
  ahead : ∀ {sh i p a sh' pc}, WorkerMove sh i p a sh' pc → T.ahead pc = true →
    p = .idle ∨ ∃ pc₀, p = .worker pc₀ ∧ T.ahead pc₀ = true ∧ pc₀.task = pc.task

theorem AttemptTable.refunds_lawful : AttemptTable.refunds.Lawful where
  empty := rfl
  write he hF := by
    cases he.attemptChange with
    | none hrefunds => exact .inl hrefunds
    | refund hp hp' hrefunds =>
      refine .inr ⟨_, _, _, hp, rfl, rfl, (hF _ hp).1, fun pc' h => ?_, hrefunds⟩
      cases hp'.symm.trans h
      rfl
    | reply hp hp' hrefunds => exact .inl hrefunds
  ahead hm h := by
    cases hm with
    | stay => exact .inr ⟨_, rfl, h, rfl⟩
    | leased hs => exact .inl rfl
    | started hf => exact .inr ⟨_, rfl, rfl, (startFinalize_task _).symm⟩
    | _ => cases h

theorem AttemptTable.replies_lawful : AttemptTable.replies.Lawful where
  empty := rfl
  write he hF := by
    cases he.attemptChange with
    | none hrefunds hreplies => exact .inl hreplies
    | refund hp hp' hrefunds hreplies => exact .inl hreplies
    | reply hp hp' hrefunds hreplies =>
      refine .inr ⟨_, _, _, hp, rfl, rfl, (hF _ hp).1, fun pc' h => ?_, hreplies⟩
      cases hp'.symm.trans h
      rfl
  ahead hm h := by
    cases hm with
    | stay => exact .inr ⟨_, rfl, h, rfl⟩
    | leased hs => exact .inl rfl
    | started hf => exact .inr ⟨_, rfl, rfl, (startFinalize_task _).symm⟩
    | checked => exact .inr ⟨_, rfl, rfl, rfl⟩
    | refunded => exact .inr ⟨_, rfl, rfl, rfl⟩
    | _ => cases h

/-- No delivery is logged twice, nor while its worker is still ahead of the table. -/
structure LoggedOnce (T : AttemptTable) (w : World) : Prop where
  row : ∀ x ∈ T.rows w.shared.db, ∃ r, w.shared.db.task (.finalize x.ticketId) = some r ∧
    1 ≤ x.attempt ∧ x.attempt ≤ r.attempts
  fresh : ∀ j pc task t, w.procs j = .worker pc → T.ahead pc = true → pc.task = some task →
    task.idempotencyKey = .finalize t →
    (t, task.attempts) ∉ (T.rows w.shared.db).map Attempt.delivery
  nodup : ((T.rows w.shared.db).map Attempt.delivery).Nodup

theorem LoggedOnce.effect (h : LoggedOnce T w) (hT : T.Lawful) (hN : Numbered w)
    (hr : World.Reachable w) (hp : a = .advance → (w.procs i).prunes = false)
    (he : Effect w.shared i (w.procs i) a sh' p') :
    LoggedOnce T ⟨sh', Function.update w.procs i p'⟩ := by
  obtain ⟨hsound, hdeliveries⟩ := hr.tasks
  have kept : ∀ x ∈ T.rows w.shared.db, ∃ r, sh'.db.task (.finalize x.ticketId) = some r ∧
      1 ≤ x.attempt ∧ x.attempt ≤ r.attempts := by
    intro x hx
    obtain ⟨r, hrow, hpos, hle⟩ := h.row x hx
    obtain ⟨r', hrow', -, hle'⟩ := (he.taskChange hsound.keys _).attempts hp hrow
    exact ⟨r', hrow', hpos, hle.trans hle'⟩
  -- a worker that is ahead was ahead before, or its delivery is numbered above all that are logged
  have fresh : ∀ j pc task t, Function.update w.procs i p' j = .worker pc → T.ahead pc = true →
      pc.task = some task → task.idempotencyKey = .finalize t →
      (t, task.attempts) ∉ (T.rows w.shared.db).map Attempt.delivery := by
    intro j pc task t hpc hahead htask hkey
    by_cases hj : j = i
    · subst hj
      rw [Function.update_self] at hpc
      subst hpc
      rcases hT.ahead he.workerMove hahead with hidle | ⟨pc₀, hpc₀, hahead₀, htask₀⟩
      · rcases he.delivery hsound.keys htask with hold | ⟨r, hrow, hlease, -⟩
        · rw [hidle] at hold
          cases hold
        · intro hm
          obtain ⟨x, hx, hd⟩ := List.mem_map.mp hm
          obtain ⟨r', hrow', -, hle⟩ := h.row x hx
          obtain rfl : x.ticketId = t := congrArg Prod.fst hd
          have hnum : x.attempt = task.attempts := congrArg Prod.snd hd
          rw [← hkey] at hrow'
          cases hrow.symm.trans hrow'
          rw [hnum, hlease] at hle
          exact absurd hle (Nat.not_succ_le_self _)
      · exact h.fresh j pc₀ task t hpc₀ hahead₀ (htask₀.trans htask) hkey
    · rw [Function.update_of_ne hj] at hpc
      exact h.fresh j pc task t hpc hahead htask hkey
  rcases hT.write he (hr.ledgers.2 i) with hsame | ⟨pc, task, result, hpc, hahead, htask, hres,
    hdone, happend⟩
  · refine ⟨?_, ?_, ?_⟩
    · rw [hsame]
      exact kept
    · rw [hsame]
      exact fresh
    · rw [hsame]
      exact h.nodup
  · have hkey := ((hdeliveries i pc hpc).1 task htask).1.finalize_key hres
    have hdelivery : (w.procs i).delivery = some task := by
      rw [hpc]
      exact htask
    refine ⟨?_, ?_, ?_⟩
    · rw [happend]
      intro x hx
      rcases List.mem_append.mp hx with hx | hx
      · exact kept x hx
      · cases List.mem_singleton.mp hx
        obtain ⟨r, hrow, -, hpos, hle⟩ := hN.row i task hdelivery
        obtain ⟨r', hrow', -, hle'⟩ := (he.taskChange hsound.keys _).attempts hp hrow
        exact ⟨r', hkey ▸ hrow', hpos, hle.trans hle'⟩
    · rw [happend]
      intro j pc' task' t hpc' hahead' htask' hkey' hm
      change Function.update w.procs i p' j = .worker pc' at hpc'
      rw [List.map_append] at hm
      rcases List.mem_append.mp hm with hm | hm
      · exact fresh j pc' task' t hpc' hahead' htask' hkey' hm
      · have heq := List.mem_singleton.mp hm
        obtain rfl : t = task.payload.ticket.id := congrArg Prod.fst heq
        have hnum : task'.attempts = task.attempts := congrArg Prod.snd heq
        by_cases hj : j = i
        · subst hj
          rw [Function.update_self] at hpc'
          rw [hdone pc' hpc'] at hahead'
          cases hahead'
        · rw [Function.update_of_ne hj] at hpc'
          refine hj (hN.apart j i task' task ?_ hdelivery (hkey'.trans hkey.symm) hnum)
          rw [hpc']
          exact htask'
    · rw [happend, List.map_append]
      refine List.nodup_append.mpr ⟨h.nodup, List.nodup_singleton _, ?_⟩
      rintro x hx y hy rfl
      cases List.mem_singleton.mp hy
      exact h.fresh i pc task _ hpc hahead htask hkey hx

theorem World.ReachableWhen.loggedOnce (hT : T.Lawful) (hw : World.ReachableWhen Unpruned w) :
    LoggedOnce T w := by
  refine World.ReachableWhen.worldInvariant (I := LoggedOnce T) ?_ ?_ hw
  · have hnil : T.rows World.initial.shared.db = [] := hT.empty
    refine ⟨?_, fun _ _ _ _ h => (nomatch h), ?_⟩
    · rw [hnil]
      exact fun _ h => nomatch h
    · rw [hnil]
      exact List.nodup_nil
  · intro w i a sh' p' hr ha h he
    refine h.effect hT hr.numbered hr.reachable ?_ he
    rintro rfl
    exact ha

/-! ## Refunds before replies -/

/-- The delivery's refund has been logged. -/
def RefundLogged (db : Database) (task : QueuedTask) : Prop :=
  (task.payload.ticket.id, task.attempts) ∈ db.refundAttempts.map Attempt.delivery

/-- What a worker past its refund knows. -/
structure RefundKnows (db : Database) (p : Proc) : Prop where
  checking : ∀ task result, p = .worker (.checking task result) → RefundLogged db task
  replying : ∀ task result flag, p = .worker (.replying task result flag) →
    RefundDue task.payload → RefundLogged db task

/-- The log of refunds only grows. -/
theorem AttemptChange.refund_mono (h : AttemptChange sh p sh' p') {x : TicketId × ℕ}
    (hx : x ∈ sh.db.refundAttempts.map Attempt.delivery) :
    x ∈ sh'.db.refundAttempts.map Attempt.delivery := by
  cases h with
  | none hrefunds => rwa [hrefunds]
  | refund hp hp' hrefunds =>
    rw [hrefunds, List.map_append]
    exact List.mem_append_left _ hx
  | reply hp hp' hrefunds => rwa [hrefunds]

theorem RefundKnows.mono (h : RefundKnows sh.db p) {q q' : Proc}
    (hc : AttemptChange sh q sh' q') : RefundKnows sh'.db p where
  checking task result hp := hc.refund_mono (h.checking task result hp)
  replying task result flag hp hdue := hc.refund_mono (h.replying task result flag hp hdue)

theorem RefundKnows.acts (h : RefundKnows sh.db p) (he : Effect sh i p a sh' p') :
    RefundKnows sh'.db p' := by
  refine ⟨?_, ?_⟩
  · rintro task result rfl
    generalize hpc : Worker.Pc.checking task result = pc at he
    cases he.workerMove with
    | stay => exact h.checking task result (congrArg Proc.worker hpc.symm)
    | started hf =>
      rename_i task'
      have hstarts := startFinalize_starts task'
      rw [← hpc] at hstarts
      cases hstarts
    | refunded =>
      cases hpc
      cases he.attemptChange with
      | none hrefunds =>
        have hlen := congrArg List.length hrefunds
        simp [Shared.record, Ledger.recordRefund] at hlen
      | refund hp hp' hrefunds =>
        cases hp
        unfold RefundLogged
        rw [hrefunds, List.map_append]
        exact List.mem_append_right _ List.mem_cons_self
      | reply hp => cases hp
    | _ => cases hpc
  · rintro task result flag rfl hdue
    generalize hpc : Worker.Pc.replying task result flag = pc at he
    cases he.workerMove with
    | stay => exact h.replying task result flag (congrArg Proc.worker hpc.symm) hdue
    | started hf =>
      rename_i task'
      have hstarts := startFinalize_starts task'
      rw [← hpc] at hstarts
      cases hstarts with
      | replying hres hno => exact absurd hdue hno
    | checked =>
      cases hpc
      exact h.checking _ _ rfl
    | _ => cases hpc

/-- Every reply of a payload with a refund is of a delivery whose refund is logged. -/
def RefundsFirst (db : Database) : Prop := ∀ x ∈ db.replyAttempts, ∀ r,
  db.task (.finalize x.ticketId) = some r → RefundDue r.payload →
    x.delivery ∈ db.refundAttempts.map Attempt.delivery

theorem RefundsFirst.effect (h : RefundsFirst w.shared.db) (hN : Numbered w)
    (hL : LoggedOnce .replies w) (hK : RefundKnows w.shared.db (w.procs i))
    (hr : World.Reachable w) (hp : a = .advance → (w.procs i).prunes = false)
    (he : Effect w.shared i (w.procs i) a sh' p') : RefundsFirst sh'.db := by
  obtain ⟨hsound, hdeliveries⟩ := hr.tasks
  have hc := he.attemptChange
  -- the row of a reply that is logged carries the payload it carried then
  have payload : ∀ {key r r'}, w.shared.db.task key = some r → sh'.db.task key = some r' →
      r'.payload = r.payload := by
    intro key r r' hrow hrow'
    obtain ⟨r'', hrow'', hsame⟩ := (he.taskChange hsound.keys key).kept hp hrow
    cases hrow'.symm.trans hrow''
    exact hsame.payload
  have old : ∀ x ∈ w.shared.db.replyAttempts, ∀ r, sh'.db.task (.finalize x.ticketId) = some r →
      RefundDue r.payload → x.delivery ∈ sh'.db.refundAttempts.map Attempt.delivery := by
    intro x hx r hrow hdue
    obtain ⟨r₀, hrow₀, -⟩ := hL.row x hx
    rw [payload hrow₀ hrow] at hdue
    exact hc.refund_mono (h x hx r₀ hrow₀ hdue)
  intro x hx r hrow hdue
  cases hc with
  | none hrefunds hreplies => exact old x (hreplies ▸ hx) r hrow hdue
  | refund hpc hpc' hrefunds hreplies => exact old x (hreplies ▸ hx) r hrow hdue
  | @reply task result flag hpc hpc' hrefunds hreplies =>
    rw [hreplies] at hx
    rcases List.mem_append.mp hx with hx | hx
    · exact old x hx r hrow hdue
    · cases List.mem_singleton.mp hx
      obtain ⟨hres, -⟩ := hr.ledgers.2 i _ hpc
      have hkey := ((hdeliveries i _ hpc).1 task rfl).1.finalize_key hres
      obtain ⟨r₀, hrow₀, hsame, -⟩ := hN.row i task (by rw [hpc]; rfl)
      rw [payload (hkey ▸ hrow₀) hrow, ← hsame.payload] at hdue
      rw [hrefunds]
      exact hK.replying task result flag hpc hdue

theorem World.ReachableWhen.refundsFirst (hw : World.ReachableWhen Unpruned w) :
    RefundsFirst w.shared.db := by
  refine (World.ReachableWhen.worldInvariant (I := fun w => RefundsFirst w.shared.db ∧
    ∀ j, RefundKnows w.shared.db (w.procs j)) ?_ ?_ hw).1
  · exact ⟨fun _ h => (nomatch h), fun _ => ⟨fun _ _ h => (nomatch h), fun _ _ _ h => nomatch h⟩⟩
  · rintro w i a sh' p' hr ha ⟨h, hK⟩ he
    have hp : a = .advance → (w.procs i).prunes = false := by
      rintro rfl
      exact ha
    refine ⟨h.effect hr.numbered (hr.loggedOnce AttemptTable.replies_lawful) (hK i) hr.reachable hp he, ?_⟩
    intro j
    by_cases hj : j = i
    · subst hj
      simpa using (hK j).acts he
    · simpa [Function.update_of_ne hj] using (hK j).mono he.attemptChange

/-! ## The audit -/

/-- While nothing is pruned, each delivery of a ticket's finalize task logs at most one refund and
one reply, under its own number among those of the task's row, and where a refund is due the reply
of a delivery is logged only after its refund. -/
theorem attempts_logged_once (hw : World.ReachableWhen Unpruned w) :
    (w.shared.db.refundAttempts.map Attempt.delivery).Nodup ∧
    (w.shared.db.replyAttempts.map Attempt.delivery).Nodup ∧
    (∀ x ∈ w.shared.db.refundAttempts ++ w.shared.db.replyAttempts, ∃ r,
      w.shared.db.task (.finalize x.ticketId) = some r ∧ 1 ≤ x.attempt ∧ x.attempt ≤ r.attempts) ∧
    ∀ x ∈ w.shared.db.replyAttempts, ∀ r, w.shared.db.task (.finalize x.ticketId) = some r →
      RefundDue r.payload → x.delivery ∈ w.shared.db.refundAttempts.map Attempt.delivery := by
  have hrefunds := hw.loggedOnce AttemptTable.refunds_lawful
  have hreplies := hw.loggedOnce AttemptTable.replies_lawful
  refine ⟨hrefunds.nodup, hreplies.nodup, fun x hx => ?_, hw.refundsFirst⟩
  rcases List.mem_append.mp hx with hx | hx
  · exact hrefunds.row x hx
  · exact hreplies.row x hx

/-- Worker 3 paid the refund of ticket 7 and crashed; worker 4 was delivered the task again. -/
def Schedule.paidTwice : Schedule :=
  Schedule.drafted Schedule.refundDraft 12 ++ Schedule.submit true ++ Schedule.step 2 8 ++
    [(3, .dequeue .taskQueue Schedule.unlocked)] ++ Schedule.advance 3 2 ++
    [(3, .crash), (0, .tick (seconds 31)), (0, .reclaimExpiredLeases)] ++ Schedule.advance 0 1 ++
    [(4, .dequeue .taskQueue Schedule.unlocked)] ++ Schedule.advance 4 4

def repliedAtSecond (w : World) : Bool :=
  decide (w.shared.db.refundAttempts.map Attempt.delivery = [(7, 1), (7, 2)]) &&
    decide (∃ x ∈ w.shared.db.replyAttempts, x.delivery = (7, 2) ∧
      (w.shared.db.task (.finalize x.ticketId)).any fun r => decide (RefundDue r.payload))

/-- The second delivery logged its refund before its reply. -/
theorem attempts_logged_once_redelivered : ∃ w, World.ReachableWhen Unpruned w ∧
    w.shared.db.refundAttempts.map Attempt.delivery = [(7, 1), (7, 2)] ∧
    ∃ x ∈ w.shared.db.replyAttempts, x.delivery = (7, 2) ∧
      x.delivery ∈ w.shared.db.refundAttempts.map Attempt.delivery := by
  have hrun : (World.initial.runWhen Proc.step Unpruned Schedule.paidTwice).map repliedAtSecond =
      some true := by decide +kernel
  obtain ⟨w, hw, hp⟩ := exists_reachableWhen_of_run hrun
  obtain ⟨hrefunds, hreplied⟩ := Bool.and_eq_true_iff.mp hp
  obtain ⟨x, hx, hd, hrow⟩ := of_decide_eq_true hreplied
  obtain ⟨r, hr, hdue⟩ := (Option.any_eq_true _ _).mp hrow
  exact ⟨w, hw, of_decide_eq_true hrefunds, x, hx, hd,
    (attempts_logged_once hw).2.2.2 x hx r hr (of_decide_eq_true hdue)⟩

end TicketFlow
