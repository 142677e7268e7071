import TicketFlow.TaskLifecycle

/-! # How often a task is delivered

`fail` is the only operation that compares `attempts` with `max_attempts`. `reclaim_expired` returns
a task to `pending` whatever its count is, and `dequeue` leases what is pending. -/

namespace TicketFlow.TaskLifecycle
open Table
set_option autoImplicit false

def Entry.reclaims (id : ℕ) : Entry → Bool
  | .reclaimed k _ _ => k = id
  | _ => false

/-- How often the lease of the row ran out: its worker crashed, or did not come back in time. -/
def kills (id : ℕ) (h : List Entry) : ℕ := h.countP (Entry.reclaims id)

/-- The row keeps its bound: it was delivered at most `max_attempts` times, and where each of them
killed its worker it has failed. -/
structure Bounded (h : List Entry) (r : QueuedTask) : Prop where
  attempts : r.attempts ≤ r.maxAttempts
  delivered : deliveries r.id h ≤ r.maxAttempts
  killed : r.maxAttempts ≤ kills r.id h → r.status = .failed

/-- No `reclaim_expired` finds the lease of a last attempt. -/
def Spares (ops : List Op) : Prop :=
  ∀ pre post, ops = pre ++ .reclaimExpired :: post → ∀ r ∈ (run pre empty).db.taskQueue,
    Taskqueue.LeaseExpired (run pre empty).db.now r → 1 ≤ r.maxAttempts →
      r.attempts < r.maxAttempts

/-- What the workers alone may do next. -/
inductive Op.Serves : Op → Prop
  | tick (elapsed : Time) : Op.Serves (.tick elapsed)
  | dequeue (queueName : QueueName) (workerId : WorkerId) (locked : ℕ → Bool) :
      Op.Serves (.dequeue queueName workerId locked)

variable {h : List Entry} {id : ℕ} {r r' : QueuedTask} {q : Queue} {op : Op} {ops more : List Op}

/-! ## What an operation does to a row -/

/-- A row before and after an operation. -/
inductive Moved (op : Op) (q : Queue) (r r' : QueuedTask) : Prop
  | kept (same : r' = r) (free : op = .reclaimExpired → ¬Taskqueue.LeaseExpired q.db.now r)
  | leased (other : op ≠ .reclaimExpired) (before : r.status = .pending) (after : r'.status = .leased)
      (count : r'.attempts = r.attempts + 1)
  | returned (other : op ≠ .reclaimExpired) (before : r.status = .leased)
      (after : r'.status = .pending) (retries : r.attempts < r.maxAttempts)
      (count : r'.attempts = r.attempts)
  | settled (other : op ≠ .reclaimExpired) (after : r'.status = .done ∨ r'.status = .failed)
      (count : r'.attempts = r.attempts)
  | reclaimed (expiry : op = .reclaimExpired) (expired : Taskqueue.LeaseExpired q.db.now r)
      (row : r' = Taskqueue.reclaimRow r)

/-- A row of the queue after an operation: it was inserted, or it is one of the rows before. -/
def Comes (op : Op) (q : Queue) (r' : QueuedTask) : Prop :=
  (op ≠ .reclaimExpired ∧ r'.id = q.db.taskQueueSeq ∧ r'.status = .pending ∧ r'.attempts = 0) ∨
    ∃ r ∈ q.db.taskQueue, r'.id = r.id ∧ r'.maxAttempts = r.maxAttempts ∧ Moved op q r r'

theorem Comes.of_kept (hop : op ≠ .reclaimExpired) (hr : r ∈ q.db.taskQueue) : Comes op q r :=
  .inr ⟨r, hr, rfl, rfl, .kept rfl fun he => absurd he hop⟩

theorem failRow_moved {error : String} {permanent : Bool} (hop : op ≠ .reclaimExpired)
    (hst : r.status = .leased) : Moved op q r (Taskqueue.failRow error permanent q.db.now r) := by
  by_cases hret : Taskqueue.Retries permanent r
  · exact .returned hop hst (if_pos hret) hret.1 rfl
  · exact .settled hop (.inr (if_neg hret)) rfl

theorem comes_apply (hq : QueueSound q) (hr : r' ∈ (op.apply q).db.taskQueue) : Comes op q r' := by
  cases op with
  | tick elapsed => exact .of_kept (by simp) hr
  | enqueue e maxAttempts availableAt =>
    rcases Taskqueue.enqueue_cases e.queueName e.taskType e.workflowId e.payload e.idempotencyKey
      q.db maxAttempts availableAt with ⟨-, he⟩ | ⟨-, he⟩
    · simp only [Op.apply, he] at hr
      exact .of_kept (by simp) hr
    · simp only [Op.apply, he] at hr
      rcases List.mem_append.mp hr with hr | hr
      · exact .of_kept (by simp) hr
      · cases List.mem_singleton.mp hr
        exact .inl ⟨(by simp), rfl, rfl, rfl⟩
  | dequeue queueName workerId locked =>
    simp only [Op.apply] at hr
    split at hr
    · exact .of_kept (by simp) hr
    · rename_i db task hdeq
      obtain ⟨r₀, hr₀, hdue, -, rfl⟩ := Db.dequeue_eq_some hdeq
      rcases mem_updateWhere.mp hr with ⟨r, hm, hid, rfl⟩ | ⟨hr, -⟩
      · cases eq_of_key hq.keys.ids hm hr₀ hid
        exact .inr ⟨_, hm, rfl, rfl, .leased (by simp) hdue.2.1 rfl rfl⟩
      · exact .of_kept (by simp) hr
  | complete taskId result =>
    rcases mem_updateWhere.mp hr with ⟨r, hm, -, rfl⟩ | ⟨hr, -⟩
    · exact .inr ⟨r, hm, rfl, rfl, .settled (by simp) (.inl rfl) rfl⟩
    · exact .of_kept (by simp) hr
  | fail taskId error permanent =>
    rcases mem_updateWhere.mp hr with ⟨r, hm, hset, rfl⟩ | ⟨hr, -⟩
    · exact .inr ⟨r, hm, rfl, rfl, failRow_moved (by simp) hset.2⟩
    · exact .of_kept (by simp) hr
  | cancelPending key reason =>
    rcases mem_updateWhere.mp hr with ⟨r, hm, -, rfl⟩ | ⟨hr, -⟩
    · exact .inr ⟨r, hm, rfl, rfl, .settled (by simp) (.inr rfl) rfl⟩
    · exact .of_kept (by simp) hr
  | reclaimExpired =>
    rcases mem_updateWhere.mp hr with ⟨r, hm, hx, rfl⟩ | ⟨hr, hx⟩
    · exact .inr ⟨r, hm, rfl, rfl, .reclaimed rfl hx rfl⟩
    · exact .inr ⟨r', hr, rfl, rfl, .kept rfl fun _ => hx⟩

/-! ## How often a lease ran out -/

theorem kills_append (es : List Entry) : kills id (es ++ h) = kills id es + kills id h :=
  List.countP_append

theorem kills_eq_zero {es : List Entry} (hes : ∀ e ∈ es, e.reclaims id = false) : kills id es = 0 :=
  List.countP_eq_zero.mpr fun e he => by simp [hes e he]

theorem kills_apply (hop : op ≠ .reclaimExpired) : kills id (op.apply q).history = kills id q.history := by
  cases op with
  | dequeue queueName workerId locked =>
    simp only [Op.apply]
    split <;> rfl
  | fail taskId error permanent =>
    refine (kills_append _).trans ?_
    rw [kills_eq_zero fun e he => ?_, Nat.zero_add]
    obtain ⟨r, -, rfl⟩ := Option.map_eq_some_iff.mp (Option.mem_toList.mp he)
    rfl
  | reclaimExpired => exact absurd rfl hop
  | tick _ => rfl
  | enqueue _ _ _ => rfl
  | complete _ _ => rfl
  | cancelPending _ _ => rfl

theorem kills_reclaims_le (hk : Taskqueue.Keys q.db) (id : ℕ) : kills id (reclaims q.db) ≤ 1 := by
  have hle := length_filter_key_le (nodup_filter (Taskqueue.LeaseExpired q.db.now) hk.ids) id
  rw [kills, reclaims, List.countP_map, List.countP_eq_length_filter]
  exact hle

theorem kills_reclaims_of_not (hk : Taskqueue.Keys q.db) (hr : r ∈ q.db.taskQueue)
    (hx : ¬Taskqueue.LeaseExpired q.db.now r) : kills r.id (reclaims q.db) = 0 := by
  refine kills_eq_zero fun e he => ?_
  obtain ⟨r', hr', rfl⟩ := List.mem_map.mp he
  obtain ⟨hm, hx'⟩ := List.mem_filter.mp hr'
  refine decide_eq_false fun hid => hx ?_
  cases eq_of_key hk.ids hm hr hid
  exact of_decide_eq_true hx'

/-! ## The invariant -/

/-- A pending row may still be delivered, a leased one has a delivery its worker survived. -/
structure Within (h : List Entry) (r : QueuedTask) : Prop where
  attempts : r.attempts ≤ r.maxAttempts
  pending : r.status = .pending → r.attempts < r.maxAttempts
  running : r.status = .leased → kills r.id h < r.attempts
  counted : kills r.id h ≤ r.attempts
  spared : kills r.id h < r.maxAttempts

theorem Within.bounded (hw : Within h r) (hd : r.attempts = deliveries r.id h) : Bounded h r :=
  ⟨hw.attempts, hd ▸ hw.attempts, fun hk => absurd hk (Nat.not_le.mpr hw.spared)⟩

/-- The rows with a bound are within it. -/
def AllWithin (q : Queue) : Prop :=
  ∀ r ∈ q.db.taskQueue, 1 ≤ r.maxAttempts → Within q.history r

theorem kills_unknown (hq : QueueSound q) : kills q.db.taskQueueSeq q.history = 0 := by
  refine kills_eq_zero fun e he => ?_
  cases e with
  | reclaimed k expiry time =>
    have hne : k ≠ q.db.taskQueueSeq := fun hk => hq.unknown _ he (congrArg some hk)
    exact decide_eq_false hne
  | _ => rfl

theorem AllWithin.apply (hq : QueueSound q) (hall : AllWithin q)
    (hspares : op = .reclaimExpired → ∀ r ∈ q.db.taskQueue, Taskqueue.LeaseExpired q.db.now r →
      1 ≤ r.maxAttempts → r.attempts < r.maxAttempts) : AllWithin (op.apply q) := by
  intro r' hr' hpos
  rcases comes_apply hq hr' with ⟨hop, hid, hst, hzero⟩ | ⟨r, hr, hid, hmaxEq, hmoved⟩
  · have hkills : kills r'.id (op.apply q).history = 0 :=
      (kills_apply hop).trans (hid ▸ kills_unknown hq)
    refine ⟨by omega, fun _ => by omega, fun hl => ?_, by omega, by omega⟩
    rw [hst] at hl
    cases hl
  · rw [hmaxEq] at hpos
    have hw := hall r hr hpos
    have hattempts := hw.attempts
    have hcounted := hw.counted
    have hspared := hw.spared
    have hkeep : op ≠ .reclaimExpired → kills r'.id (op.apply q).history = kills r.id q.history :=
      fun hop => (kills_apply hop).trans (congrArg (kills · q.history) hid)
    cases hmoved with
    | kept same free =>
      subst same
      have hkills : kills r'.id (op.apply q).history = kills r'.id q.history := by
        by_cases hop : op = .reclaimExpired
        · subst hop
          refine (kills_append _).trans ?_
          rw [kills_reclaims_of_not hq.keys hr (free rfl), Nat.zero_add]
        · exact kills_apply hop
      exact ⟨hattempts, hw.pending, fun hl => hkills ▸ hw.running hl, hkills ▸ hcounted,
        hkills ▸ hspared⟩
    | leased other before after count =>
      have hlt := hw.pending before
      have hkills := hkeep other
      refine ⟨by omega, fun hp => ?_, fun _ => by omega, by omega, by omega⟩
      rw [after] at hp
      cases hp
    | returned other before after retries count =>
      have hkills := hkeep other
      refine ⟨by omega, fun _ => by omega, fun hl => ?_, by omega, by omega⟩
      rw [after] at hl
      cases hl
    | settled other after count =>
      have hkills := hkeep other
      refine ⟨by omega, fun hp => ?_, fun hl => ?_, by omega, by omega⟩
      · rw [hp] at after
        rcases after with after | after <;> cases after
      · rw [hl] at after
        rcases after with after | after <;> cases after
    | reclaimed expiry expired row =>
      subst expiry row
      have hlast := hspares rfl r hr expired hpos
      have hrunning := hw.running expired.1
      have hone := kills_reclaims_le hq.keys r.id
      have hkills : kills r.id (Op.reclaimExpired.apply q).history =
          kills r.id (reclaims q.db) + kills r.id q.history := kills_append _
      refine ⟨hlast.le, fun _ => hlast, nofun, ?_, ?_⟩
      · change kills r.id _ ≤ r.attempts
        omega
      · change kills r.id _ < r.maxAttempts
        omega

theorem Spares.of_prefix {pre : List Op} (hs : Spares ops) (hpre : pre <+: ops) : Spares pre := by
  obtain ⟨rest, rfl⟩ := hpre
  intro pre' post hsplit
  refine hs pre' (post ++ rest) ?_
  rw [hsplit, List.append_assoc, List.cons_append]

theorem run_concat (ops : List Op) (op : Op) (q : Queue) :
    run (ops ++ [op]) q = op.apply (run ops q) := by
  rw [run, List.foldl_append]
  rfl

theorem allWithin_run (hs : Spares ops) : AllWithin (run ops empty) := by
  induction ops using List.reverseRecOn with
  | nil => exact fun _ hr => nomatch hr
  | append_singleton ops op ih =>
    rw [run_concat]
    refine (ih (hs.of_prefix (List.prefix_append ..))).apply (queueSound_empty.run ops) ?_
    rintro rfl
    exact hs ops [] rfl

theorem Spares.serve {pre : List Op} (hs : Spares pre) (hmore : ∀ op ∈ more, op.Serves) :
    Spares (pre ++ more) := by
  intro pre' post hsplit
  rcases List.append_eq_append_iff.mp hsplit with ⟨mid, rfl, hmid⟩ | ⟨mid, rfl, hmid⟩
  · have hmem : Op.reclaimExpired ∈ more := by
      rw [hmid]
      exact List.mem_append_right _ List.mem_cons_self
    cases hmore _ hmem
  · cases mid with
    | nil =>
      rw [List.nil_append] at hmid
      cases hmore _ (hmid ▸ List.mem_cons_self)
    | cons op mid =>
      rw [List.cons_append, List.cons.injEq] at hmid
      obtain ⟨rfl, -⟩ := hmid
      exact hs pre' mid rfl

/-! ## Past the bound -/

/-- A pending row is delivered when it is due and the others are locked. -/
theorem exists_delivery (hr : r ∈ q.db.taskQueue) (hst : r.status = .pending)
    (hk : Taskqueue.Keys q.db) : ∃ more : List Op, (∀ op ∈ more, op.Serves) ∧
      ∃ r' ∈ (run more q).db.taskQueue, r'.maxAttempts = r.maxAttempts ∧
        r'.attempts = r.attempts + 1 := by
  let db : Database := { q.db with now := q.db.now + r.availableAt }
  have hdue : Db.Due r.queueName (fun id => id ≠ r.id) db.now r :=
    ⟨rfl, hst, Nat.le_add_left .., by simp⟩
  refine ⟨[.tick r.availableAt, .dequeue r.queueName 0 fun id => id ≠ r.id], ?_, ?_⟩
  · intro op hop
    rcases List.mem_pair.mp hop with rfl | rfl
    · exact .tick _
    · exact .dequeue _ _ _
  · cases hf : firstBy QueuedTask.availableAt (Db.Due r.queueName (fun id => id ≠ r.id) db.now)
      q.db.taskQueue with
    | none => exact absurd hdue (firstBy_eq_none.mp hf r hr)
    | some r₀ =>
      obtain ⟨hr₀, hdue₀⟩ := firstBy_mem hf
      have hid : r₀.id = r.id := by simpa using hdue₀.2.2.2
      cases eq_of_key hk.ids hr₀ hr hid
      have hdeq : Db.dequeue r.queueName 0 (fun id => id ≠ r.id) db =
          ({ db with
              taskQueue := updateWhere (·.id = r.id) (Db.leaseTask 0 db.now) db.taskQueue },
            some (Db.leaseTask 0 db.now r)) := by
        rw [Db.dequeue, hf]
      refine ⟨Db.leaseTask 0 db.now r, ?_, rfl, rfl⟩
      simp only [run, List.foldl_cons, List.foldl_nil, Op.apply]
      rw [hdeq]
      exact mem_updateWhere_of hr rfl

/-- Where `reclaim_expired` finds the lease of a last attempt, a worker gets the task once more. -/
theorem exists_excess {pre : List Op} (hr : r ∈ (run pre empty).db.taskQueue)
    (hx : Taskqueue.LeaseExpired (run pre empty).db.now r) (hlast : r.maxAttempts ≤ r.attempts) :
    ∃ more : List Op, (∀ op ∈ more, op.Serves) ∧
      ∃ r' ∈ (run (pre ++ .reclaimExpired :: more) empty).db.taskQueue,
        r'.maxAttempts = r.maxAttempts ∧ r'.maxAttempts < r'.attempts := by
  have hrun : run (pre ++ [.reclaimExpired]) empty = Op.reclaimExpired.apply (run pre empty) :=
    run_concat ..
  have hrow : Taskqueue.reclaimRow r ∈ (run (pre ++ [.reclaimExpired]) empty).db.taskQueue := by
    rw [hrun]
    exact mem_updateWhere_of hr hx
  obtain ⟨more, hserves, r', hr', hmax, hcount⟩ :=
    exists_delivery hrow rfl (queueSound_empty.run _).keys
  refine ⟨more, hserves, r', ?_, hmax, ?_⟩
  · rw [run, run, ← List.foldl_append, List.append_assoc] at hr'
    exact hr'
  · rw [hmax, hcount]
    exact Nat.lt_succ_of_le hlast

/-- Deliveries are bounded, in every state of a run and however the workers go on from it, exactly
where `reclaim_expired` never finds the lease of a last attempt. -/
theorem deliveries_bounded_iff (ops : List Op) :
    (∀ pre more, pre <+: ops → (∀ op ∈ more, op.Serves) →
      ∀ r ∈ (run (pre ++ more) empty).db.taskQueue, 1 ≤ r.maxAttempts →
        Bounded (run (pre ++ more) empty).history r) ↔ Spares ops := by
  constructor
  · rintro hall pre post rfl r hr hx hpos
    by_contra hlast
    obtain ⟨more, hserves, r', hr', hmax, hexcess⟩ := exists_excess hr hx (Nat.le_of_not_lt hlast)
    have hpre : pre ++ [.reclaimExpired] <+: pre ++ .reclaimExpired :: post :=
      List.prefix_append_right_inj pre |>.mpr ⟨post, rfl⟩
    have hsplit : pre ++ .reclaimExpired :: more = pre ++ [.reclaimExpired] ++ more := by
      rw [List.append_assoc, List.singleton_append]
    rw [hsplit] at hr'
    have hbounded := hall _ more hpre hserves r' hr' (hmax ▸ hpos)
    exact absurd hbounded.attempts (Nat.not_le.mpr hexcess)
  · intro hs pre more hpre hserves r hr hpos
    have hsound := (queueSound_empty.run (pre ++ more)).rows r hr
    have hwithin := allWithin_run ((hs.of_prefix hpre).serve hserves) r hr hpos
    exact hwithin.bounded hsound.attempts

/-- A task with one attempt whose worker crashes: reclaimed, and delivered again. -/
theorem crash_loop_delivers_again : ∃ ops, ∃ r ∈ (run ops empty).db.taskQueue,
    r.maxAttempts = 1 ∧ r.attempts = 2 ∧ deliveries r.id (run ops empty).history = 2 ∧
      kills r.id (run ops empty).history = 1 ∧ r.status = .leased :=
  ⟨[.enqueue ⟨.agentTaskQueue, .classify, 7, .classify ⟨7, "", "", ""⟩,
      .agent 7 .classify⟩ 1 none,
    .dequeue .agentTaskQueue 0 fun _ => false, .tick (seconds 31), .reclaimExpired,
    .dequeue .agentTaskQueue 0 fun _ => false], by decide⟩

end TicketFlow.TaskLifecycle
