import TicketFlow.Library.Interleaving
import TicketFlow.Taskqueue

/-! # Task leases

Any number of workers and janitors on the queue, each operation one transaction. A delivery is a
row as `dequeue` returned it; `attempts` numbers the deliveries of a task, so a delivery whose lease
was reclaimed is remembered by its id and attempt. `complete` and `fail` test only that the row is
leased, not to whom. -/

namespace TicketFlow.QueueLease
open Table Interleaving
set_option autoImplicit false

/-- The database, and every delivery whose lease a janitor has reclaimed. -/
structure Queue where
  db : Database
  reclaimed : List (ℕ × ℕ)

/-- The two calls that settle a delivery. -/
inductive Settlement
  | complete (result : TaskResult)
  | fail (error : String) (permanent : Bool)

def Settlement.apply (taskId : ℕ) (db : Database) : Settlement → Database × Option TaskStatus
  | .complete result => Taskqueue.complete taskId result db
  | .fail error permanent => Taskqueue.fail taskId error permanent db

inductive Op
  | tick (elapsed : Time)
  | enqueue (queueName : QueueName) (taskType : TaskType) (workflowId : TicketId)
      (payload : TaskPayload) (idempotencyKey : IdempotencyKey) (maxAttempts : ℕ)
      (availableAt : Option Time)
  | dequeue (queueName : QueueName) (locked : ℕ → Bool)
  | settle (s : Settlement)
  | crash
  | reclaimExpired

/-- The deliveries a `reclaim_expired` takes back. -/
def expired (db : Database) : List (ℕ × ℕ) :=
  (db.taskQueue.filter (Taskqueue.LeaseExpired db.now)).map fun r => (r.id, r.attempts)

/-- A process holds at most one delivery, and settles it once. -/
def step : Program Queue (Option QueuedTask) Op := fun q i held op =>
  match op with
  | .tick elapsed => some ({ q with db := { q.db with now := q.db.now + elapsed } }, held)
  | .enqueue queueName taskType workflowId payload idempotencyKey maxAttempts availableAt =>
    some ({ q with db := (Taskqueue.enqueue queueName taskType workflowId payload idempotencyKey
      q.db maxAttempts availableAt).1 }, held)
  | .dequeue queueName locked =>
    match held, Db.dequeue queueName i locked q.db with
    | none, (db, some task) => some ({ q with db := db }, some task)
    | _, _ => none
  | .settle s => held.map fun d => ({ q with db := (s.apply d.id q.db).1 }, none)
  | .crash => some (q, none)
  | .reclaimExpired =>
    some (⟨(Taskqueue.reclaimExpired q.db).1, expired q.db ++ q.reclaimed⟩, held)

/-- No task yet, and no delivery in any hand. -/
def initial : Config Queue (Option QueuedTask) := ⟨⟨.empty, []⟩, fun _ => none⟩

/-- The delivery's lease was reclaimed. -/
def Stale (q : Queue) (d : QueuedTask) : Prop := (d.id, d.attempts) ∈ q.reclaimed

/-- Some delivery of the task has a lease now. -/
def Leased (taskId : ℕ) (db : Database) : Prop := ∃ r ∈ db.taskQueue, Taskqueue.Settles taskId r

/-- Process `i` holds the task's current lease through the delivery `d`. -/
def Holds (db : Database) (i : WorkerId) (d : QueuedTask) : Prop :=
  ∃ r ∈ db.taskQueue, Taskqueue.Settles d.id r ∧ r.attempts = d.attempts ∧ r.leaseOwner = some i

instance (q : Queue) (d : QueuedTask) : Decidable (Stale q d) :=
  inferInstanceAs (Decidable (_ ∈ q.reclaimed))

instance (taskId : ℕ) (db : Database) : Decidable (Leased taskId db) :=
  inferInstanceAs (Decidable (∃ r ∈ db.taskQueue, _))

/-- No process settles a delivery whose lease was reclaimed while the task is leased again. -/
def Fenced (c : Config Queue (Option QueuedTask)) (i : WorkerId) : Op → Prop
  | .settle _ => ∀ d ∈ c.procs i, Stale c.shared d → ¬ Leased d.id c.shared.db
  | _ => True

instance (c : Config Queue (Option QueuedTask)) (i : WorkerId) : DecidablePred (Fenced c i)
  | .settle _ => inferInstanceAs (Decidable (∀ d ∈ c.procs i, _))
  | .tick _ | .enqueue .. | .dequeue .. | .crash | .reclaimExpired => isTrue trivial

/-! ## Settling -/

variable {q : Queue} {db : Database} {i j : WorkerId} {d e : QueuedTask} {taskId : ℕ}

theorem apply_of_not_leased (s : Settlement) (h : ¬ Leased taskId db) :
    s.apply taskId db = (db, none) := by
  have hn : ∀ r ∈ db.taskQueue, ¬ Taskqueue.Settles taskId r := fun r hr hs => h ⟨r, hr, hs⟩
  cases s with
  | complete result => exact Taskqueue.complete_of_not hn
  | fail error permanent => exact Taskqueue.fail_of_not hn

/-- A settling call is refused exactly when nobody has the task leased. -/
theorem apply_refused_iff (s : Settlement) :
    s.apply taskId db = (db, none) ↔ ¬ Leased taskId db := by
  refine ⟨fun h hl => ?_, apply_of_not_leased s⟩
  obtain ⟨r, hr, hs⟩ := hl
  have hn : (s.apply taskId db).2 = none := congrArg Prod.snd h
  cases s with
  | complete result => exact Taskqueue.complete_eq_none.mp hn r hr hs
  | fail error permanent => exact Taskqueue.fail_eq_none.mp hn r hr hs

/-- A settling call rewrites the rows it settles and no other, and none of their keys. -/
theorem apply_rows (taskId : ℕ) (db : Database) (s : Settlement) : ∃ f : QueuedTask → QueuedTask,
    (∀ r, (f r).id = r.id) ∧ (∀ r, (f r).idempotencyKey = r.idempotencyKey) ∧
      (s.apply taskId db).1 =
        { db with taskQueue := updateWhere (Taskqueue.Settles taskId) f db.taskQueue } := by
  cases s with
  | complete result => exact ⟨Taskqueue.completeRow result, fun _ => rfl, fun _ => rfl, rfl⟩
  | fail error permanent =>
    exact ⟨Taskqueue.failRow error permanent db.now, fun _ => rfl, fun _ => rfl, rfl⟩

/-! ## The lease invariant -/

/-- What a process knows of the delivery in its hand. -/
def HoldsOrStale (q : Queue) (i : WorkerId) (held : Option QueuedTask) : Prop :=
  ∀ d ∈ held, Holds q.db i d ∨ Stale q d

theorem Holds.updateWhere {p : QueuedTask → Prop} [DecidablePred p] {f : QueuedTask → QueuedTask}
    (h : Holds db i d)
    (hp : ∀ r ∈ db.taskQueue, Taskqueue.Settles d.id r → r.leaseOwner = some i → ¬ p r) :
    Holds { db with taskQueue := Table.updateWhere p f db.taskQueue } i d := by
  obtain ⟨r, hr, hs, ha, ho⟩ := h
  exact ⟨r, mem_updateWhere_of_not hr (hp r hr hs ho), hs, ha, ho⟩

theorem Holds.enqueue (h : Holds db i d) (queueName : QueueName) (taskType : TaskType)
    (workflowId : TicketId) (payload : TaskPayload) (key : IdempotencyKey) (maxAttempts : ℕ)
    (availableAt : Option Time) :
    Holds (Taskqueue.enqueue queueName taskType workflowId payload key db maxAttempts
      availableAt).1 i d := by
  rcases Taskqueue.enqueue_cases queueName taskType workflowId payload key db maxAttempts
    availableAt with ⟨-, he⟩ | ⟨-, he⟩
  · rw [he]
    exact h
  · rw [he]
    obtain ⟨r, hr, hs⟩ := h
    exact ⟨r, List.mem_append_left _ hr, hs⟩

theorem Holds.reclaimExpired (h : Holds q.db i d) :
    Holds (Taskqueue.reclaimExpired q.db).1 i d ∨ (d.id, d.attempts) ∈ expired q.db := by
  obtain ⟨r, hr, hs, ha, ho⟩ := h
  by_cases he : Taskqueue.LeaseExpired q.db.now r
  · right
    refine List.mem_map.mpr ⟨r, List.mem_filter.mpr ⟨hr, by simpa using he⟩, ?_⟩
    rw [hs.1, ha]
  · exact .inl ⟨r, mem_updateWhere_of_not hr he, hs, ha, ho⟩

theorem Holds.owner_unique (hk : Taskqueue.Keys db) (hi : Holds db i d) (hj : Holds db j e)
    (h : d.id = e.id) : i = j := by
  obtain ⟨r, hr, hs, -, ho⟩ := hi
  obtain ⟨r', hr', hs', -, ho'⟩ := hj
  have : r = r' := eq_of_key hk.ids hr hr' (hs.1.trans (h.trans hs'.1.symm))
  subst this
  rw [ho] at ho'
  exact Option.some.inj ho'

/-- In a fenced run every delivery in hand has its lease or had it reclaimed. -/
theorem holdsOrStale {c : Config Queue (Option QueuedTask)}
    (hc : ReachableWhen step (· = initial) Fenced c) :
    Taskqueue.Keys c.shared.db ∧ ∀ i, HoldsOrStale c.shared i (c.procs i) := by
  refine hc.induct (I := fun q => Taskqueue.Keys q.db) (J := HoldsOrStale) ?_ ?_
  · rintro c rfl
    exact ⟨.empty, fun j d hd => nomatch hd⟩
  · intro c i op q' held' _ hok hI hJ hstep
    cases op with
    | tick elapsed =>
      cases hstep
      exact ⟨⟨hI.ids, hI.keys, hI.lt_seq⟩, hJ i, fun j _ => hJ j⟩
    | enqueue queueName taskType workflowId payload key maxAttempts availableAt =>
      cases hstep
      have hmono : ∀ j, HoldsOrStale ⟨(Taskqueue.enqueue queueName taskType workflowId payload key
          c.shared.db maxAttempts availableAt).1, c.shared.reclaimed⟩ j (c.procs j) := fun j d hd =>
        (hJ j d hd).imp_left fun h =>
          h.enqueue queueName taskType workflowId payload key maxAttempts availableAt
      exact ⟨hI.enqueue .., hmono i, fun j _ => hmono j⟩
    | dequeue queueName locked =>
      simp only [step] at hstep
      split at hstep
      · rename_i db task hheld hdeq
        cases hstep
        obtain ⟨r, hr, hdue, rfl, hdb⟩ := Db.dequeue_eq_some hdeq
        subst hdb
        refine ⟨hI.updateWhere (f := Db.leaseTask i c.shared.db.now) (fun _ => rfl) (fun _ => rfl)
          rfl rfl, ?_, fun j _ d hd => ?_⟩
        · rintro d ⟨⟩
          exact .inl ⟨_, mem_updateWhere_of hr rfl, ⟨rfl, rfl⟩, rfl, rfl⟩
        · refine (hJ j d hd).imp_left fun h => ?_
          refine h.updateWhere fun r' hr' hs _ hid => ?_
          have := eq_of_key hI.ids hr' hr hid
          subst this
          exact absurd (hs.2.symm.trans hdue.2.1) (by decide)
      · cases hstep
    | settle s =>
      obtain ⟨d, hd, heq⟩ := Option.map_eq_some_iff.mp hstep
      cases heq
      obtain ⟨f, hid, hkey, happ⟩ := apply_rows d.id c.shared.db s
      have hkeys : Taskqueue.Keys (s.apply d.id c.shared.db).1 := by
        rw [happ]
        exact hI.updateWhere hid hkey rfl rfl
      refine ⟨hkeys, fun e he => (nomatch he), ?_⟩
      intro j hj e he
      refine (hJ j e he).imp_left fun h => ?_
      by_cases hst : Stale c.shared d
      · change Holds (s.apply d.id c.shared.db).1 j e
        rw [apply_of_not_leased s (hok d hd hst)]
        exact h
      · have hi := (hJ i d hd).resolve_right hst
        change Holds (s.apply d.id c.shared.db).1 j e
        rw [happ]
        refine h.updateWhere fun r hr hs ho hsd => hj ?_
        exact h.owner_unique hI hi (hs.1.symm.trans hsd.1)
    | crash =>
      cases hstep
      exact ⟨hI, fun d hd => (nomatch hd), fun j _ => hJ j⟩
    | reclaimExpired =>
      cases hstep
      have hmono : ∀ j, HoldsOrStale ⟨(Taskqueue.reclaimExpired c.shared.db).1,
          expired c.shared.db ++ c.shared.reclaimed⟩ j (c.procs j) := by
        intro j d hd
        rcases hJ j d hd with h | h
        · exact h.reclaimExpired.imp_right fun h => List.mem_append_left _ h
        · exact .inr (List.mem_append_right _ h)
      exact ⟨hI.updateWhere (f := Taskqueue.reclaimRow) (fun _ => rfl) (fun _ => rfl) rfl rfl,
        hmono i, fun j _ => hmono j⟩

/-! ## Fencing -/

/-- A reclaimed delivery is refused exactly when its task is not leased again; and in a run where no
reclaimed delivery meets a new lease, only the holder of the current lease settles a task. -/
theorem settle_fencing {c : Config Queue (Option QueuedTask)} (hd : c.procs i = some d)
    (s : Settlement) :
    (Stale c.shared d →
      (s.apply d.id c.shared.db = (c.shared.db, none) ↔ ¬ Leased d.id c.shared.db)) ∧
    (ReachableWhen step (· = initial) Fenced c → Fenced c i (.settle s) →
      (Stale c.shared d → s.apply d.id c.shared.db = (c.shared.db, none)) ∧
      (s.apply d.id c.shared.db ≠ (c.shared.db, none) → Holds c.shared.db i d)) := by
  refine ⟨fun _ => apply_refused_iff s, fun hf hok => ?_⟩
  have hstale : Stale c.shared d → s.apply d.id c.shared.db = (c.shared.db, none) :=
    fun hst => apply_of_not_leased s (hok d hd hst)
  refine ⟨hstale, fun hne => ?_⟩
  rcases (holdsOrStale hf).2 i d hd with h | h
  · exact h
  · exact absurd (hstale h) hne

/-- Worker 1 leases the task, its lease is reclaimed. -/
def lapse : List (ℕ × Op) :=
  [(0, .enqueue .agentTaskQueue .classify 7 (.classify ⟨7, "", "", ""⟩) (.agent 7 .classify) 3 none),
    (1, .dequeue .agentTaskQueue fun _ => false), (0, .tick (seconds 31)), (0, .reclaimExpired)]

/-- Worker 1 in the state `p`, with a stale delivery in hand. -/
def staleAnd (p : Database → ℕ → Bool) (c : Config Queue (Option QueuedTask)) : Bool :=
  match c.procs 1 with
  | some d => decide (Stale c.shared d) && p c.shared.db d.id
  | none => false

theorem staleAnd_iff {p : Database → ℕ → Bool} {c : Config Queue (Option QueuedTask)}
    (h : staleAnd p c = true) :
    ∃ d, c.procs 1 = some d ∧ Stale c.shared d ∧ p c.shared.db d.id = true := by
  unfold staleAnd at h
  split at h
  · rename_i d hd
    have hsp := Bool.and_eq_true_iff.mp h
    exact ⟨d, hd, of_decide_eq_true hsp.1, hsp.2⟩
  · cases h

/-- After the lapse nobody has the task leased, and the late call is refused. -/
theorem settle_fencing_lapse : ∃ c d, ReachableWhen step (· = initial) Fenced c ∧
    c.procs 1 = some d ∧ Stale c.shared d ∧
    Settlement.apply d.id c.shared.db (.fail "late" false) = (c.shared.db, none) := by
  have hrun : (initial.runWhen step Fenced lapse).map
      (staleAnd fun db id => decide (¬ Leased id db)) = some true := by decide +kernel
  obtain ⟨c, hc, hp⟩ := exists_reachableWhen_of_run hrun
  obtain ⟨d, hd, hst, hl⟩ := staleAnd_iff hp
  have hok : Fenced c 1 (.settle (.fail "late" false)) := by
    intro e he _
    rw [hd] at he
    cases he
    exact of_decide_eq_true hl
  exact ⟨c, d, hc, hd, hst, ((settle_fencing hd (.fail "late" false)).2 hc hok).1 hst⟩

/-- Leased again to worker 2, the task is settled by worker 1's late call all the same. -/
theorem stale_delivery_settles : ¬ ∀ c, Reachable step (· = initial) c → ∀ i d (s : Settlement),
    c.procs i = some d → Stale c.shared d → s.apply d.id c.shared.db = (c.shared.db, none) := by
  intro h
  have hrun : (initial.run step (lapse ++ [(2, .dequeue .agentTaskQueue fun _ => false)])).map
      (staleAnd fun db id => decide (Leased id db)) = some true := by decide +kernel
  obtain ⟨c, hc, hp⟩ := exists_reachableWhen_of_run hrun
  obtain ⟨d, hd, hst, hl⟩ := staleAnd_iff hp
  exact (apply_refused_iff _).mp (h c hc 1 d (.fail "late" false) hd hst) (of_decide_eq_true hl)

end TicketFlow.QueueLease
