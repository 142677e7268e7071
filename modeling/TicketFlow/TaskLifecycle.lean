import TicketFlow.Taskqueue

/-! # The life of a task row

Any sequence of queue operations on a clock that only moves forward, whoever issues them. The
history, newest first, notes what each operation did and is read by no code. -/

namespace TicketFlow.TaskLifecycle
open Table
set_option autoImplicit false

/-- What an enqueue says about a task. -/
structure Enqueued where
  queueName : QueueName
  taskType : TaskType
  workflowId : TicketId
  payload : TaskPayload
  idempotencyKey : IdempotencyKey
deriving DecidableEq

/-- `dequeue` returned the row; `reclaim_expired` took it back from a lease that ran to `expiry`;
`fail` found it leased, with that many attempts. -/
inductive Entry
  | enqueued (e : Enqueued)
  | delivered (taskId : ℕ) (time : Time)
  | reclaimed (taskId : ℕ) (expiry : Option Time) (time : Time)
  | failed (taskId : ℕ) (attempts : ℕ) (time : Time)
deriving DecidableEq

structure Queue where
  db : Database
  history : List Entry

inductive Op
  | tick (elapsed : Time)
  | enqueue (e : Enqueued) (maxAttempts : ℕ) (availableAt : Option Time)
  | dequeue (queueName : QueueName) (workerId : WorkerId) (locked : ℕ → Bool)
  | complete (taskId : ℕ) (result : TaskResult)
  | fail (taskId : ℕ) (error : String) (permanent : Bool)
  | cancelPending (idempotencyKey : IdempotencyKey) (reason : String)
  | reclaimExpired

/-- The row `fail` finds leased, noted. -/
def failures (taskId : ℕ) (db : Database) : List Entry :=
  ((db.taskQueue.find? (Taskqueue.Settles taskId)).map
    fun r => Entry.failed r.id r.attempts db.now).toList

/-- The rows `reclaim_expired` takes back, noted. -/
def reclaims (db : Database) : List Entry :=
  (db.taskQueue.filter (Taskqueue.LeaseExpired db.now)).map
    fun r => .reclaimed r.id r.leaseExpiresAt db.now

def Op.apply (q : Queue) : Op → Queue
  | .tick elapsed => { q with db := { q.db with now := q.db.now + elapsed } }
  | .enqueue e maxAttempts availableAt =>
    ⟨(Taskqueue.enqueue e.queueName e.taskType e.workflowId e.payload e.idempotencyKey q.db
      maxAttempts availableAt).1, .enqueued e :: q.history⟩
  | .dequeue queueName workerId locked =>
    match Db.dequeue queueName workerId locked q.db with
    | (_, none) => q
    | (db, some task) => ⟨db, .delivered task.id q.db.now :: q.history⟩
  | .complete taskId result => { q with db := (Taskqueue.complete taskId result q.db).1 }
  | .fail taskId error permanent =>
    ⟨(Taskqueue.fail taskId error permanent q.db).1, failures taskId q.db ++ q.history⟩
  | .cancelPending idempotencyKey reason =>
    { q with db := (Taskqueue.cancelPending idempotencyKey reason q.db).1 }
  | .reclaimExpired => ⟨(Taskqueue.reclaimExpired q.db).1, reclaims q.db ++ q.history⟩

/-- The queue after a sequence of operations. -/
def run (ops : List Op) (q : Queue) : Queue := ops.foldl Op.apply q

/-! ## Reading the history -/

def Entry.taskId : Entry → Option ℕ
  | .enqueued _ => none
  | .delivered id _ | .reclaimed id _ _ | .failed id _ _ => some id

/-- The latest entry about a row. -/
def lastEntry (id : ℕ) (h : List Entry) : Option Entry := h.find? (·.taskId = some id)

def Entry.delivers (id : ℕ) : Entry → Bool
  | .delivered k _ => k = id
  | _ => false

/-- How often `dequeue` returned the row. -/
def deliveries (id : ℕ) (h : List Entry) : ℕ := h.countP (Entry.delivers id)

/-- The first enqueue of a key. -/
def firstEnqueue (key : IdempotencyKey) : List Entry → Option Enqueued
  | [] => none
  | .enqueued e :: h => (firstEnqueue key h).or (if e.idempotencyKey = key then some e else none)
  | _ :: h => firstEnqueue key h

/-- The row was given back after its last delivery: reclaimed, or failed and kept away until the
backoff is over. -/
def GivenBack (time : Time) : Entry → Prop
  | .reclaimed _ _ _ => True
  | .failed _ attempts t => t + seconds (2 ^ attempts) ≤ time
  | _ => False

/-- What the entry says is true of the older history: a row is delivered again only when it was
given back, taken back only past the expiry of its lease, and failed with as many attempts as it had
deliveries. -/
def Entry.Lawful (h : List Entry) : Entry → Prop
  | .enqueued _ => True
  | .delivered id t => ∀ e ∈ lastEntry id h, GivenBack t e
  | .reclaimed id expiry t => ∃ t₀, lastEntry id h = some (.delivered id t₀) ∧
      expiry = some (t₀ + Db.leaseInterval) ∧ t₀ + Db.leaseInterval < t
  | .failed id attempts _ =>
      (∃ t₀, lastEntry id h = some (.delivered id t₀)) ∧ attempts = deliveries id h

/-- Every entry is lawful. -/
def Lawful : List Entry → Prop
  | [] => True
  | e :: h => e.Lawful h ∧ Lawful h

variable {h : List Entry} {e : Entry} {id : ℕ} {key : IdempotencyKey} {r : QueuedTask} {q : Queue}

theorem lastEntry_cons : lastEntry id (e :: h) = if e.taskId = some id then some e else lastEntry id h := by
  by_cases he : e.taskId = some id <;> simp [lastEntry, he]

theorem lastEntry_cons_self (he : e.taskId = some id) : lastEntry id (e :: h) = some e := by
  rw [lastEntry_cons, if_pos he]

theorem lastEntry_of_forall {es : List Entry} (hes : ∀ e ∈ es, e.taskId ≠ some id) :
    lastEntry id (es ++ h) = lastEntry id h := by
  rw [lastEntry, List.find?_append, List.find?_eq_none.mpr (by simpa using hes), Option.none_or]
  rfl

theorem deliveries_of_forall {es : List Entry} (hes : ∀ e ∈ es, e.delivers id = false) :
    deliveries id (es ++ h) = deliveries id h := by
  rw [deliveries, List.countP_append, List.countP_eq_zero.mpr (by simpa using hes), Nat.zero_add]
  rfl

theorem firstEnqueue_of_forall {es : List Entry} (hes : ∀ e ∈ es, e.taskId.isSome) :
    firstEnqueue key (es ++ h) = firstEnqueue key h := by
  induction es with
  | nil => rfl
  | cons e es ih =>
    have ih := ih fun e he => hes e (List.mem_cons_of_mem _ he)
    cases e with
    | enqueued e => exact absurd (hes _ List.mem_cons_self) (by simp [Entry.taskId])
    | _ => exact ih

/-! ## The invariant -/

/-- The columns an enqueue wrote. -/
def enqueuedColumns (r : QueuedTask) : Enqueued :=
  ⟨r.queueName, r.taskType, r.workflowId, r.payload, r.idempotencyKey⟩

/-- Where the row is in its life, and what the history says last about it. -/
def Phase (h : List Entry) (r : QueuedTask) : Prop :=
  match r.status with
  | .pending => ∀ e ∈ lastEntry r.id h, GivenBack r.availableAt e
  | .leased => ∃ t, lastEntry r.id h = some (.delivered r.id t) ∧
      r.leaseExpiresAt = some (t + Db.leaseInterval)
  | .done | .failed => True

structure RowSound (h : List Entry) (r : QueuedTask) : Prop where
  lease : r.status = .leased ↔ r.leaseOwner.isSome ∧ r.leaseExpiresAt.isSome
  result : r.result.isSome ↔ r.status = .done
  permanent : r.permanent = true → r.status = .failed
  attempts : r.attempts = deliveries r.id h
  first : firstEnqueue r.idempotencyKey h = some (enqueuedColumns r)
  phase : Phase h r

structure QueueSound (q : Queue) : Prop where
  keys : Taskqueue.Keys q.db
  rows : ∀ r ∈ q.db.taskQueue, RowSound q.history r
  lawful : Lawful q.history
  known : ∀ e ∈ q.history, ∀ id ∈ e.taskId, id < q.db.taskQueueSeq
  enqueued : ∀ key, (firstEnqueue key q.history).isSome → ∃ r ∈ q.db.taskQueue, r.idempotencyKey = key

/-! ## Rows under a longer history -/

theorem Phase.mono {es : List Entry} (hp : Phase h r) (hes : ∀ e ∈ es, e.taskId ≠ some r.id) :
    Phase (es ++ h) r := by
  unfold Phase at hp ⊢
  rwa [lastEntry_of_forall hes]

theorem RowSound.mono {es : List Entry} (hr : RowSound h r) (hes : ∀ e ∈ es, e.taskId ≠ some r.id)
    (hid : ∀ e ∈ es, e.taskId.isSome) : RowSound (es ++ h) r where
  lease := hr.lease
  result := hr.result
  permanent := hr.permanent
  attempts := by
    rw [hr.attempts, deliveries_of_forall fun e he => ?_]
    cases e with
    | delivered k t =>
      have hne : k ≠ r.id := fun hk => hes _ he (congrArg some hk)
      simpa [Entry.delivers] using hne
    | _ => rfl
  first := by
    rw [firstEnqueue_of_forall hid]
    exact hr.first
  phase := hr.phase.mono hes

theorem GivenBack.mono {t t' : Time} (hg : GivenBack t e) (ht : t ≤ t') : GivenBack t' e := by
  cases e with
  | failed id attempts t₀ => exact hg.trans ht
  | reclaimed id expiry t₀ => trivial
  | _ => exact hg.elim

/-- Another enqueue never becomes the first of a key that has one. -/
theorem firstEnqueue_cons {e : Enqueued} (hf : (firstEnqueue key h).isSome) :
    firstEnqueue key (.enqueued e :: h) = firstEnqueue key h := by
  obtain ⟨e₀, he₀⟩ := Option.isSome_iff_exists.mp hf
  rw [firstEnqueue, he₀, Option.some_or]

theorem RowSound.enqueued {e : Enqueued} (hr : RowSound h r) : RowSound (.enqueued e :: h) r where
  lease := hr.lease
  result := hr.result
  permanent := hr.permanent
  attempts := hr.attempts
  first := by
    rw [firstEnqueue_cons (by rw [hr.first]; rfl)]
    exact hr.first
  phase := by
    have hnone : ∀ e' ∈ [Entry.enqueued e], e'.taskId ≠ some r.id := by simp [Entry.taskId]
    exact hr.phase.mono hnone

/-- A row whose id and key the history does not know. -/
theorem rowSound_newTask {e : Enqueued} {maxAttempts : ℕ} {availableAt : Option Time} {now : Time}
    (hid : ∀ e ∈ h, e.taskId ≠ some id) (hkey : firstEnqueue e.idempotencyKey h = none) :
    RowSound (.enqueued e :: h) (Taskqueue.newTask id e.queueName e.taskType e.workflowId e.payload
      e.idempotencyKey maxAttempts availableAt now) := by
  have hall : ∀ e' ∈ Entry.enqueued e :: h, e'.taskId ≠ some id := by
    intro e' he'
    rcases List.mem_cons.mp he' with rfl | he'
    · nofun
    · exact hid e' he'
  refine ⟨by simp [Taskqueue.newTask], by simp [Taskqueue.newTask], nofun, ?_, ?_, ?_⟩
  · refine (List.countP_eq_zero.mpr fun e' he' hd => ?_).symm
    cases e' with
    | delivered k t => exact hall _ he' (congrArg some (of_decide_eq_true hd))
    | _ => cases hd
  · change firstEnqueue e.idempotencyKey _ = _
    rw [firstEnqueue, hkey, Option.none_or, if_pos rfl]
    rfl
  · have hnone : lastEntry id (.enqueued e :: h) = none := List.find?_eq_none.mpr (by simpa using hall)
    intro e' he'
    cases hnone.symm.trans he'

/-! ## One operation -/

theorem QueueSound.tick {elapsed : Time} (hq : QueueSound q) :
    QueueSound (Op.apply q (.tick elapsed)) :=
  ⟨⟨hq.keys.ids, hq.keys.keys, hq.keys.lt_seq⟩, hq.rows, hq.lawful, hq.known, hq.enqueued⟩

theorem QueueSound.unknown (hq : QueueSound q) : ∀ e ∈ q.history, e.taskId ≠ some q.db.taskQueueSeq :=
  fun e he hid => Nat.lt_irrefl _ (hq.known e he _ hid)

theorem QueueSound.enqueue {e : Enqueued} {maxAttempts : ℕ} {availableAt : Option Time}
    (hq : QueueSound q) : QueueSound (Op.apply q (.enqueue e maxAttempts availableAt)) := by
  have hkeys : Taskqueue.Keys (Op.apply q (.enqueue e maxAttempts availableAt)).db :=
    hq.keys.enqueue ..
  have hfirst : ∀ key, (firstEnqueue key (.enqueued e :: q.history)).isSome →
      e.idempotencyKey = key ∨ (firstEnqueue key q.history).isSome := by
    intro key hs
    by_cases hk : e.idempotencyKey = key
    · exact .inl hk
    · rw [firstEnqueue, if_neg hk, Option.or_none] at hs
      exact .inr hs
  rcases Taskqueue.enqueue_cases e.queueName e.taskType e.workflowId e.payload e.idempotencyKey q.db
    maxAttempts availableAt with ⟨⟨r₀, hr₀, hk₀⟩, he⟩ | ⟨hno, he⟩
  · simp only [Op.apply, he] at hkeys ⊢
    refine ⟨hkeys, fun r hr => (hq.rows r hr).enqueued, ⟨trivial, hq.lawful⟩, ?_, fun key hs => ?_⟩
    · intro e' he' id hid
      rcases List.mem_cons.mp he' with rfl | he'
      · cases hid
      · exact hq.known e' he' id hid
    · rcases hfirst key hs with rfl | hs
      · exact ⟨r₀, hr₀, hk₀⟩
      · exact hq.enqueued key hs
  · simp only [Op.apply, he] at hkeys ⊢
    have hnone : firstEnqueue e.idempotencyKey q.history = none := by
      by_contra hs
      obtain ⟨r, hr, hk⟩ := hq.enqueued _ (Option.isSome_iff_ne_none.mpr hs)
      exact hno r hr hk
    refine ⟨hkeys, fun r hr => ?_, ⟨trivial, hq.lawful⟩, ?_, fun key hs => ?_⟩
    · rcases List.mem_append.mp hr with hr | hr
      · exact (hq.rows r hr).enqueued
      · cases List.mem_singleton.mp hr
        exact rowSound_newTask hq.unknown hnone
    · intro e' he' id hid
      rcases List.mem_cons.mp he' with rfl | he'
      · cases hid
      · exact Nat.lt_succ_of_lt (hq.known e' he' id hid)
    · rcases hfirst key hs with rfl | hs
      · exact ⟨_, List.mem_append_right _ (List.mem_singleton.mpr rfl), rfl⟩
      · obtain ⟨r, hr, hk⟩ := hq.enqueued key hs
        exact ⟨r, List.mem_append_left _ hr, hk⟩

/-- An update of some rows under a longer history about them. -/
theorem QueueSound.updateWhere {p : QueuedTask → Prop} [DecidablePred p] {f : QueuedTask → QueuedTask}
    {db : Database} (es : List Entry) (hq : QueueSound q)
    (hrows : db.taskQueue = Table.updateWhere p f q.db.taskQueue)
    (hseq : db.taskQueueSeq = q.db.taskQueueSeq) (hid : ∀ r, (f r).id = r.id)
    (hkey : ∀ r, (f r).idempotencyKey = r.idempotencyKey)
    (hes : ∀ e ∈ es, ∃ r ∈ q.db.taskQueue, p r ∧ e.taskId = some r.id)
    (hf : ∀ r ∈ q.db.taskQueue, p r → RowSound (es ++ q.history) (f r))
    (hl : Lawful (es ++ q.history)) : QueueSound ⟨db, es ++ q.history⟩ := by
  have hsome : ∀ e ∈ es, e.taskId.isSome := by
    intro e he
    obtain ⟨r, -, -, hr⟩ := hes e he
    rw [hr]
    rfl
  refine ⟨hq.keys.updateWhere hid hkey hrows hseq, fun r hr => ?_, hl, fun e he id hide => ?_,
    fun key hs => ?_⟩
  · change r ∈ db.taskQueue at hr
    rw [hrows] at hr
    rcases mem_updateWhere.mp hr with ⟨r₀, hr₀, hp, rfl⟩ | ⟨hr, hp⟩
    · exact hf r₀ hr₀ hp
    · refine (hq.rows r hr).mono (fun e he heq => ?_) hsome
      obtain ⟨r', hr', hp', hid'⟩ := hes e he
      rw [heq] at hid'
      exact hp (eq_of_key hq.keys.ids hr hr' (Option.some.inj hid') ▸ hp')
  · change id < db.taskQueueSeq
    rw [hseq]
    rcases List.mem_append.mp he with he | he
    · obtain ⟨r, hr, -, hid'⟩ := hes e he
      cases hid'.symm.trans hide
      exact hq.keys.lt_seq r hr
    · exact hq.known e he id hide
  · rw [firstEnqueue_of_forall hsome] at hs
    obtain ⟨r, hr, hk⟩ := hq.enqueued key hs
    change ∃ r ∈ db.taskQueue, _
    rw [hrows]
    by_cases hp : p r
    · exact ⟨f r, mem_updateWhere_of hr hp, (hkey r).trans hk⟩
    · exact ⟨r, mem_updateWhere_of_not hr hp, hk⟩

theorem QueueSound.dequeue {queueName : QueueName} {workerId : WorkerId} {locked : ℕ → Bool}
    (hq : QueueSound q) : QueueSound (Op.apply q (.dequeue queueName workerId locked)) := by
  simp only [Op.apply]
  split
  · exact hq
  · rename_i db task hdeq
    obtain ⟨r, hr, hdue, rfl, rfl⟩ := Db.dequeue_eq_some hdeq
    have hsound := hq.rows r hr
    have hphase := hsound.phase
    unfold Phase at hphase
    rw [hdue.2.1] at hphase
    refine hq.updateWhere [.delivered r.id q.db.now] (f := Db.leaseTask workerId q.db.now) rfl
      rfl (fun _ => rfl) (fun _ => rfl) ?_ ?_ ⟨fun e he => (hphase e he).mono hdue.2.2.1, hq.lawful⟩
    · rintro e he
      cases List.mem_singleton.mp he
      exact ⟨r, hr, rfl, rfl⟩
    · rintro r' hr' hid
      cases eq_of_key hq.keys.ids hr' hr hid
      have hnodone : ¬ r.result.isSome := fun h => by
        have hdone := hsound.result.mp h
        rw [hdue.2.1] at hdone
        cases hdone
      refine ⟨⟨fun _ => ⟨rfl, rfl⟩, fun _ => rfl⟩, ⟨fun h => absurd h hnodone, nofun⟩, fun h => ?_, ?_,
        ?_, ?_⟩
      · have hfailed := hsound.permanent h
        rw [hdue.2.1] at hfailed
        cases hfailed
      · change r.attempts + 1 = deliveries r.id _
        rw [hsound.attempts]
        simp [deliveries, Entry.delivers]
      · exact hsound.first
      · exact ⟨q.db.now, lastEntry_cons_self (e := .delivered r.id q.db.now) rfl, rfl⟩

/-- A row that was leased has no result yet and is not marked permanent. -/
theorem RowSound.of_leased (hr : RowSound h r) (hl : r.status = .leased) :
    r.result.isSome = false ∧ r.permanent = false := by
  constructor
  · by_contra hs
    have hdone := hr.result.mp (Bool.not_eq_false _ ▸ hs)
    rw [hl] at hdone
    cases hdone
  · by_contra hp
    have hfailed := hr.permanent (Bool.not_eq_false _ ▸ hp)
    rw [hl] at hfailed
    cases hfailed

theorem QueueSound.complete {taskId : ℕ} {result : TaskResult} (hq : QueueSound q) :
    QueueSound (Op.apply q (.complete taskId result)) := by
  refine hq.updateWhere [] (f := Taskqueue.completeRow result) rfl rfl (fun _ => rfl)
    (fun _ => rfl) (fun _ he => nomatch he) (fun r hr hset => ?_) hq.lawful
  have hsound := hq.rows r hr
  refine ⟨⟨nofun, fun h => (nomatch h.1)⟩, ⟨fun _ => rfl, fun _ => rfl⟩, fun h => ?_, hsound.attempts,
    hsound.first, trivial⟩
  have hperm : r.permanent = true := h
  rw [(hsound.of_leased hset.2).2] at hperm
  cases hperm

theorem QueueSound.cancelPending {reason : String} (hq : QueueSound q) :
    QueueSound (Op.apply q (.cancelPending key reason)) := by
  refine hq.updateWhere [] (f := Taskqueue.cancelRow reason) rfl rfl (fun _ => rfl)
    (fun _ => rfl) (fun _ he => nomatch he) (fun r hr hset => ?_) hq.lawful
  have hsound := hq.rows r hr
  refine ⟨⟨nofun, fun h => ?_⟩, ⟨fun h => ?_, nofun⟩, fun _ => rfl, hsound.attempts, hsound.first,
    trivial⟩
  · have hleased := hsound.lease.mpr h
    rw [hset.2] at hleased
    cases hleased
  · have hdone := hsound.result.mp h
    rw [hset.2] at hdone
    cases hdone

theorem failures_eq {taskId : ℕ} {db : Database} (hk : Taskqueue.Keys db) (hr : r ∈ db.taskQueue)
    (hset : Taskqueue.Settles taskId r) : failures taskId db = [.failed r.id r.attempts db.now] := by
  have hfind : db.taskQueue.find? (Taskqueue.Settles taskId) = some r := by
    cases hf : db.taskQueue.find? (Taskqueue.Settles taskId) with
    | none => exact absurd hset (by simpa using List.find?_eq_none.mp hf r hr)
    | some r' =>
      have hset' := List.find?_some hf
      simp only [decide_eq_true_eq] at hset'
      rw [eq_of_key hk.ids (List.mem_of_find?_eq_some hf) hr (hset'.1.trans hset.1.symm)]
  rw [failures, hfind]
  rfl

theorem QueueSound.fail {taskId : ℕ} {error : String} {permanent : Bool} (hq : QueueSound q) :
    QueueSound (Op.apply q (.fail taskId error permanent)) := by
  have hrow : ∀ r ∈ q.db.taskQueue, Taskqueue.Settles taskId r → ∃ t,
      lastEntry r.id q.history = some (.delivered r.id t) := by
    intro r hr hset
    have hphase := (hq.rows r hr).phase
    unfold Phase at hphase
    rw [hset.2] at hphase
    exact ⟨hphase.choose, hphase.choose_spec.1⟩
  refine hq.updateWhere _ (f := Taskqueue.failRow error permanent q.db.now) rfl rfl (fun _ => rfl)
    (fun _ => rfl) (fun e he => ?_) (fun r hr hset => ?_) ?_
  · obtain ⟨r, hr, rfl⟩ := Option.map_eq_some_iff.mp (Option.mem_toList.mp he)
    have hset := List.find?_some hr
    simp only [decide_eq_true_eq] at hset
    exact ⟨r, List.mem_of_find?_eq_some hr, hset, rfl⟩
  · have hsound := hq.rows r hr
    obtain ⟨hres, hperm⟩ := hsound.of_leased hset.2
    rw [failures_eq hq.keys hr hset]
    refine ⟨⟨fun h => ?_, fun h => (nomatch h.1)⟩, ⟨fun h => ?_, fun h => ?_⟩, fun h => ?_,
      hsound.attempts, hsound.first, ?_⟩
    · simp only [Taskqueue.failRow] at h
      split at h <;> cases h
    · have hres' : r.result.isSome = true := h
      rw [hres] at hres'
      cases hres'
    · simp only [Taskqueue.failRow] at h
      split at h <;> cases h
    · have hperm' : (r.permanent || permanent) = true := h
      simp only [Taskqueue.failRow, if_neg (fun hret : Taskqueue.Retries permanent r => by
        rw [hret.2] at hperm'
        cases hperm')]
    · -- a retry waits for the backoff
      by_cases hret : Taskqueue.Retries permanent r
      · simp only [Phase, Taskqueue.failRow, if_pos hret]
        intro e he
        rw [List.singleton_append, lastEntry_cons_self rfl] at he
        cases he
        exact le_rfl
      · simp only [Phase, Taskqueue.failRow, if_neg hret]
  · cases hf : q.db.taskQueue.find? (Taskqueue.Settles taskId) with
    | none =>
      rw [failures, hf]
      exact hq.lawful
    | some r =>
      have hset := List.find?_some hf
      simp only [decide_eq_true_eq] at hset
      have hr := List.mem_of_find?_eq_some hf
      rw [failures_eq hq.keys hr hset]
      exact ⟨⟨hrow r hr hset, (hq.rows r hr).attempts⟩, hq.lawful⟩

/-- Taking back leases that ran out, one row after the other. -/
theorem lawful_reclaims {rows : List QueuedTask} {now : Time} (hn : (rows.map QueuedTask.id).Nodup)
    (hrows : ∀ r ∈ rows, Taskqueue.LeaseExpired now r ∧ RowSound h r) (hl : Lawful h) :
    Lawful (rows.map (fun r => Entry.reclaimed r.id r.leaseExpiresAt now) ++ h) := by
  induction rows with
  | nil => exact hl
  | cons r rows ih =>
    rw [List.map_cons, List.nodup_cons] at hn
    refine ⟨?_, ih hn.2 fun r' hr' => hrows r' (List.mem_cons_of_mem _ hr')⟩
    obtain ⟨⟨hst, x, hx, hlt⟩, hsound⟩ := hrows r List.mem_cons_self
    have hphase := hsound.phase
    unfold Phase at hphase
    rw [hst] at hphase
    obtain ⟨t, hlast, hexp⟩ := hphase
    cases hx.symm.trans hexp
    refine ⟨t, (lastEntry_of_forall fun e he heq => ?_).trans hlast, hexp, hlt⟩
    · obtain ⟨r', hr', rfl⟩ := List.mem_map.mp he
      exact hn.1 (List.mem_map.mpr ⟨r', hr', Option.some.inj heq⟩)

theorem QueueSound.reclaimExpired (hq : QueueSound q) :
    QueueSound (Op.apply q .reclaimExpired) := by
  have hmem : ∀ {r}, r ∈ q.db.taskQueue.filter (Taskqueue.LeaseExpired q.db.now) →
      r ∈ q.db.taskQueue ∧ Taskqueue.LeaseExpired q.db.now r := by
    intro r hr
    obtain ⟨hm, hx⟩ := List.mem_filter.mp hr
    exact ⟨hm, of_decide_eq_true hx⟩
  refine hq.updateWhere _ (f := Taskqueue.reclaimRow) rfl rfl (fun _ => rfl) (fun _ => rfl)
    (fun e he => ?_) (fun r hr hx => ?_) ?_
  · obtain ⟨r, hr, rfl⟩ := List.mem_map.mp he
    exact ⟨r, (hmem hr).1, (hmem hr).2, rfl⟩
  · have hsound := hq.rows r hr
    obtain ⟨hres, hperm⟩ := hsound.of_leased hx.1
    have hsome : ∀ e ∈ reclaims q.db, e.taskId.isSome := by
      intro e he
      obtain ⟨r', -, rfl⟩ := List.mem_map.mp he
      rfl
    refine ⟨⟨nofun, fun h => (nomatch h.1)⟩, ⟨fun h => ?_, nofun⟩, fun h => ?_, ?_, ?_, ?_⟩
    · have hres' : r.result.isSome = true := h
      rw [hres] at hres'
      cases hres'
    · have hperm' : r.permanent = true := h
      rw [hperm] at hperm'
      cases hperm'
    · rw [deliveries_of_forall fun e he => ?_]
      · exact hsound.attempts
      · obtain ⟨r', -, rfl⟩ := List.mem_map.mp he
        rfl
    · rw [firstEnqueue_of_forall hsome]
      exact hsound.first
    · -- the row's own entry is the only one about it
      intro e he
      rw [lastEntry, List.find?_append] at he
      cases hf : (reclaims q.db).find? (·.taskId = some r.id) with
      | none =>
        have hno := List.find?_eq_none.mp hf (.reclaimed r.id r.leaseExpiresAt q.db.now)
          (List.mem_map.mpr ⟨r, List.mem_filter.mpr ⟨hr, decide_eq_true hx⟩, rfl⟩)
        exact absurd (decide_eq_true rfl) hno
      | some e' =>
        obtain ⟨r', -, rfl⟩ := List.mem_map.mp (List.mem_of_find?_eq_some hf)
        have hrow : (Taskqueue.reclaimRow r).id = r.id := rfl
        rw [hrow, hf, Option.some_or] at he
        cases he
        trivial
  · exact lawful_reclaims (nodup_filter _ hq.keys.ids)
      (fun r hr => ⟨(hmem hr).2, hq.rows r (hmem hr).1⟩) hq.lawful

theorem QueueSound.apply (hq : QueueSound q) (op : Op) : QueueSound (op.apply q) := by
  cases op with
  | tick elapsed => exact hq.tick
  | enqueue e maxAttempts availableAt => exact hq.enqueue
  | dequeue queueName workerId locked => exact hq.dequeue
  | complete taskId result => exact hq.complete
  | fail taskId error permanent => exact hq.fail
  | cancelPending key reason => exact hq.cancelPending
  | reclaimExpired => exact hq.reclaimExpired

theorem QueueSound.run (hq : QueueSound q) (ops : List Op) : QueueSound (run ops q) := by
  induction ops generalizing q with
  | nil => exact hq
  | cons op ops ih => exact ih (hq.apply op)

/-! ## Settled rows -/

theorem settled_apply (hk : Taskqueue.Keys q.db) (op : Op) (hr : r ∈ q.db.taskQueue) (hst : r.status = .done ∨ r.status = .failed) :
    r ∈ (op.apply q).db.taskQueue := by
  have hpend : r.status ≠ .pending := by rcases hst with h | h <;> rw [h] <;> nofun
  have hleased : r.status ≠ .leased := by rcases hst with h | h <;> rw [h] <;> nofun
  cases op with
  | tick elapsed => exact hr
  | enqueue e maxAttempts availableAt =>
    rcases Taskqueue.enqueue_cases e.queueName e.taskType e.workflowId e.payload e.idempotencyKey q.db
      maxAttempts availableAt with ⟨-, he⟩ | ⟨-, he⟩
    · simp only [Op.apply, he]
      exact hr
    · simp only [Op.apply, he]
      exact List.mem_append_left _ hr
  | dequeue queueName workerId locked =>
    simp only [Op.apply]
    split
    · exact hr
    · rename_i db task hdeq
      obtain ⟨r₀, hr₀, hdue, -, rfl⟩ := Db.dequeue_eq_some hdeq
      refine mem_updateWhere_of_not hr fun hid => ?_
      cases eq_of_key hk.ids hr hr₀ hid
      exact hpend hdue.2.1
  | complete taskId result => exact mem_updateWhere_of_not hr fun h => hleased h.2
  | fail taskId error permanent => exact mem_updateWhere_of_not hr fun h => hleased h.2
  | cancelPending key reason => exact mem_updateWhere_of_not hr fun h => hpend h.2
  | reclaimExpired => exact mem_updateWhere_of_not hr fun h => hleased h.1

theorem settled_run (hq : QueueSound q) (ops : List Op) (hr : r ∈ q.db.taskQueue)
    (hst : r.status = .done ∨ r.status = .failed) : r ∈ (run ops q).db.taskQueue := by
  induction ops generalizing q with
  | nil => exact hr
  | cons op ops ih => exact ih (hq.apply op) (settled_apply hq.keys op hr hst)

/-! ## The life of a row -/

/-- The freshly bootstrapped queue. -/
def empty : Queue := ⟨.empty, []⟩

theorem queueSound_empty : QueueSound empty :=
  ⟨.empty, fun _ hr => (nomatch hr), trivial, fun _ he => (nomatch he), fun _ h => (nomatch h)⟩

/-- After any operations every row's columns agree with each other and with the history, every entry
of the history is lawful, keys are unique, and a settled row is final. -/
theorem task_row_lifecycle (ops : List Op) :
    (∀ r ∈ (run ops empty).db.taskQueue,
      (r.status = .leased ↔ r.leaseOwner.isSome ∧ r.leaseExpiresAt.isSome) ∧
      (r.result.isSome ↔ r.status = .done) ∧ (r.permanent = true → r.status = .failed) ∧
      r.attempts = deliveries r.id (run ops empty).history ∧
      firstEnqueue r.idempotencyKey (run ops empty).history = some (enqueuedColumns r) ∧
      ((r.status = .done ∨ r.status = .failed) →
        ∀ more, r ∈ (run (ops ++ more) empty).db.taskQueue)) ∧
    ((run ops empty).db.taskQueue.map QueuedTask.id).Nodup ∧
    ((run ops empty).db.taskQueue.map QueuedTask.idempotencyKey).Nodup ∧
    Lawful (run ops empty).history := by
  have hq : QueueSound (run ops empty) := queueSound_empty.run ops
  refine ⟨fun r hr => ?_, hq.keys.ids, hq.keys.keys, hq.lawful⟩
  have hsound := hq.rows r hr
  refine ⟨hsound.lease, hsound.result, hsound.permanent, hsound.attempts, hsound.first,
    fun hst more => ?_⟩
  rw [run, List.foldl_append]
  exact settled_run hq more hr hst

end TicketFlow.TaskLifecycle
