import TicketFlow.System
import TicketFlow.TokenBucket

/-! # The workers' loop

`run_forever` of `agent_worker.py`, which all three kinds of worker run: it keeps up to
`max_concurrent` calls of `process_one_task` in flight, paced by a token bucket if it has one. -/

namespace TicketFlow
set_option autoImplicit false

namespace DrainLoop

structure Settings where
  queueName : QueueName
  maxPerSecond : Option ℚ
  maxConcurrent : ℤ
  pollInterval : ℚ

/-- An `asyncio.Task` of `process_one_task`. -/
inductive Slot
  | scheduled
  | working (pc : Worker.Pc)
  | finished (processed : Bool)
  | raised
deriving DecidableEq

def Slot.done : Slot → Bool
  | .finished _ | .raised => true
  | .scheduled | .working _ => false

/-- Where the loop is: at its head, at the head of the inner loop, or suspended in one of its
`await`s; `left` is where `run_forever` has returned or raised. -/
inductive Phase
  | top
  | filling
  | acquiring (wake : ℚ)
  | waiting
  | sleeping (wake : ℚ)
  | gathering
  | left
deriving DecidableEq

end DrainLoop

/-- The locals of `run_forever`, what `loop.time()` and `stop.is_set()` answer, and where it is.
A task in flight is known by the number of tasks created before it. -/
structure DrainLoop where
  clock : ℚ
  stopped : Bool
  bucket : Option TokenBucket
  inFlight : List (ℕ × DrainLoop.Slot)
  created : ℕ
  phase : DrainLoop.Phase

namespace DrainLoop

/-- `run_forever` up to its loop. -/
def start (s : Settings) (clock : ℚ) : Except String DrainLoop :=
  if s.maxConcurrent ≤ 0 then .error "max_concurrent must be greater than zero"
  else match s.maxPerSecond with
    | none => .ok ⟨clock, false, none, [], 0, .top⟩
    | some rate => (TokenBucket.init rate).map fun bucket =>
        ⟨clock, false, some bucket, [], 0, .top⟩

/-- `in_flight.add(asyncio.create_task(process_one_task(..)))`. -/
def create (l : DrainLoop) : DrainLoop :=
  { l with
    inFlight := l.inFlight ++ [(l.created, .scheduled)]
    created := l.created + 1
    phase := .filling }

/-- Take a token, if there is a bucket, and create a task; a token may have to be waited for. -/
def startOne (l : DrainLoop) : DrainLoop :=
  match l.bucket with
  | none => l.create
  | some b =>
    match b.acquire l.clock with
    | (b, none) => { l with bucket := some b }.create
    | (b, some wait) => { l with bucket := some b, phase := .acquiring (l.clock + wait) }

/-- `if bucket is None or not in_flight: await asyncio.sleep(poll_interval)`, unless a task was
processed. -/
def pace (s : Settings) (processed : Bool) (l : DrainLoop) : DrainLoop :=
  if processed = true then { l with phase := .top }
  else if l.bucket.isNone ∨ l.inFlight = [] then
    { l with phase := .sleeping (l.clock + s.pollInterval) }
  else { l with phase := .top }

/-- The inner loop, up to its next `await`. -/
def fill (s : Settings) (l : DrainLoop) : DrainLoop :=
  if l.inFlight.length < s.maxConcurrent ∧ l.stopped = false then l.startOne
  else if l.inFlight = [] then l.pace s false
  else { l with phase := .waiting }

/-- The tasks `asyncio.wait` reports as done. -/
def doneTasks (l : DrainLoop) : List ℕ := (l.inFlight.filter (·.2.done)).map Prod.fst

def slot (k : ℕ) (l : DrainLoop) : Option Slot :=
  (l.inFlight.find? (·.1 = k)).map Prod.snd

def remove (k : ℕ) (l : DrainLoop) : DrainLoop :=
  { l with inFlight := l.inFlight.filter (·.1 ≠ k) }

/-- The body of `_wait_for_one` over the done tasks; the exception of a task leaves the loop. -/
def collect (s : Settings) : List ℕ → Bool → DrainLoop → DrainLoop
  | [], processed, l => l.pace s processed
  | k :: rest, processed, l =>
    match l.slot k with
    | some (.finished b) => collect s rest (b || processed) (l.remove k)
    | _ => { l.remove k with phase := .gathering }

/-- The loop's own moves. The order in which it goes through a set of done tasks is not fixed. -/
def advance (s : Settings) (order : List ℕ) (l : DrainLoop) : Option DrainLoop :=
  match l.phase with
  | .top => some (if l.stopped = true then { l with phase := .gathering } else l.fill s)
  | .filling => some (l.fill s)
  | .acquiring wake => if wake ≤ l.clock then some l.create else none
  | .waiting =>
    if l.doneTasks ≠ [] ∧ order.Perm l.doneTasks then some (collect s order false l) else none
  | .sleeping wake => if wake ≤ l.clock then some { l with phase := .top } else none
  | .gathering => if l.inFlight.all (·.2.done) then some { l with phase := .left } else none
  | .left => none

/-- `asyncio.CancelledError` is raised in the `await` the loop is in, and its handler gathers what
is in flight. -/
def cancel (l : DrainLoop) : Option DrainLoop :=
  match l.phase with
  | .acquiring _ | .waiting | .sleeping _ => some { l with phase := .gathering }
  | .top | .filling | .gathering | .left => none

/-- Set the slot of a task in flight. -/
def setSlot (k : ℕ) (slot : Slot) (l : DrainLoop) : DrainLoop :=
  { l with inFlight := l.inFlight.map fun x => if x.1 = k then (k, slot) else x }

/-- What the task in flight is in the middle of. -/
def proc (l : DrainLoop) (k : ℕ) : Proc :=
  match l.slot k with
  | some (.working pc) => .worker pc
  | _ => .idle

/-! ## The tasks in flight -/

def proceed (k : ℕ) (l : DrainLoop) : Shared × Worker.Next → Shared × DrainLoop
  | (sh, .at pc) => (sh, l.setSlot k (.working pc))
  | (sh, .returned processed) => (sh, l.setSlot k (.finished processed))

/-- `process_one_task` goes on. -/
def carry (s : Settings) (workerId : WorkerId) (k : ℕ) (locked : ℕ → Bool) (sh : Shared)
    (l : DrainLoop) : Option (Shared × DrainLoop) :=
  match l.slot k with
  | some .scheduled => some (l.proceed k (Worker.dequeue s.queueName workerId locked sh))
  | some (.working pc) => (Worker.advance pc sh).map (l.proceed k)
  | _ => none

/-- The agent answers. -/
def answer (k : ℕ) (result : TaskResult) (l : DrainLoop) : Option DrainLoop :=
  (l.proc k).leased.bind fun task =>
    if ¬ Worker.runsFinalize task ∧ Worker.Answers task result then
      some (l.setSlot k (.working (.completing task result))) else none

/-- The activity raises. -/
def failActivity (k : ℕ) (error : String) (permanent : Bool) (l : DrainLoop) : Option DrainLoop :=
  (l.proc k).activity.bind fun task =>
    if permanent = true → ¬ Worker.runsFinalize task then
      some (l.setSlot k (.working (.failing task error permanent))) else none

/-- `process_one_task` itself raises, as it does when it loses its database. -/
def breakOff (k : ℕ) (l : DrainLoop) : Option DrainLoop :=
  match l.slot k with
  | some .scheduled | some (.working _) => some (l.setSlot k .raised)
  | _ => none

variable {s : Settings} {l l' : DrainLoop} {k j : ℕ} {x : Slot} {order : List ℕ}

@[simp] theorem setSlot_created : (l.setSlot k x).created = l.created := rfl
@[simp] theorem setSlot_phase : (l.setSlot k x).phase = l.phase := rfl
@[simp] theorem setSlot_bucket : (l.setSlot k x).bucket = l.bucket := rfl
@[simp] theorem setSlot_stopped : (l.setSlot k x).stopped = l.stopped := rfl
@[simp] theorem setSlot_clock : (l.setSlot k x).clock = l.clock := rfl

theorem setSlot_handles : (l.setSlot k x).inFlight.map Prod.fst = l.inFlight.map Prod.fst := by
  simp only [setSlot, List.map_map]
  refine List.map_congr_left fun y _ => ?_
  by_cases hy : y.1 = k
  · simp [hy]
  · simp [hy]

theorem slot_setSlot_of_ne (h : j ≠ k) : (l.setSlot k x).slot j = l.slot j := by
  simp only [slot, setSlot]
  induction l.inFlight with
  | nil => rfl
  | cons y rest ih =>
    by_cases hy : y.1 = k
    · have hkj : ¬ k = j := fun he => h he.symm
      have hyj : ¬ y.1 = j := fun he => h (he.symm.trans hy)
      simpa [hy, hkj, hyj] using ih
    · by_cases hyj : y.1 = j
      · simp [hyj, h]
      · simpa [hy, hyj] using ih

theorem slot_setSlot (h : (l.slot k).isSome) : (l.setSlot k x).slot k = some x := by
  simp only [slot, setSlot] at h ⊢
  generalize l.inFlight = tasks at h ⊢
  induction tasks with
  | nil => cases h
  | cons y rest ih =>
    by_cases hy : y.1 = k
    · simp [hy]
    · simp only [List.find?_cons, List.map_cons, if_neg hy] at h ⊢
      simp only [hy, decide_false] at h ⊢
      exact ih h

theorem slot_mem (h : l.slot k = some x) : (k, x) ∈ l.inFlight := by
  obtain ⟨y, hy, rfl⟩ := Option.map_eq_some_iff.mp h
  have hk : y.1 = k := by simpa using List.find?_some hy
  rw [← hk]
  exact List.mem_of_find?_eq_some hy

theorem slot_remove_of_ne (h : j ≠ k) : (l.remove k).slot j = l.slot j := by
  simp only [slot, remove, List.find?_filter]
  congr 2
  funext y
  by_cases hy : y.1 = j
  · simp [hy, h]
  · simp [hy]

theorem slot_remove : (l.remove k).slot k = none := by
  simp only [slot, remove, List.find?_filter, Option.map_eq_none_iff, List.find?_eq_none]
  simp

theorem slot_create_of_ne (h : j ≠ l.created) : l.create.slot j = l.slot j := by
  have hne : ¬ l.created = j := fun he => h he.symm
  simp [slot, create, List.find?_append, hne]

theorem proc_setSlot_of_ne (h : j ≠ k) : (l.setSlot k x).proc j = l.proc j := by
  rw [proc, proc, slot_setSlot_of_ne h]

/-! ## What the loop keeps -/

/-- The tasks in flight are different ones that have been created, and not too many. -/
structure Slots (s : Settings) (l : DrainLoop) : Prop where
  handles : (l.inFlight.map Prod.fst).Nodup
  fresh : ∀ x ∈ l.inFlight, x.1 < l.created
  bounded : (l.inFlight.length : ℤ) ≤ s.maxConcurrent

/-- What holds of the loop wherever it is. -/
structure Sound (s : Settings) (l : DrainLoop) : Prop extends Slots s l where
  acquiring : ∀ wake, l.phase = .acquiring wake → (l.inFlight.length : ℤ) < s.maxConcurrent
  waiting : l.phase = .waiting → l.inFlight ≠ []
  left : l.phase = .left → ∀ x ∈ l.inFlight, x.2.done = true

theorem Slots.slot_of_mem (h : l.Slots s) (hm : (k, x) ∈ l.inFlight) : l.slot k = some x := by
  obtain ⟨hn, -, -⟩ := h
  simp only [slot]
  generalize l.inFlight = tasks at hn hm ⊢
  induction tasks with
  | nil => cases hm
  | cons y rest ih =>
    rw [List.map_cons, List.nodup_cons] at hn
    rcases List.mem_cons.mp hm with rfl | hm
    · simp
    · have hne : ¬ y.1 = k := fun he => hn.1 (he ▸ List.mem_map_of_mem hm)
      simpa [hne] using ih hn.2 hm

theorem Slots.slot_fresh (h : l.Slots s) : l.slot l.created = none := by
  cases hs : l.slot l.created with
  | none => rfl
  | some x => exact absurd (h.fresh _ (slot_mem hs)) (Nat.lt_irrefl _)

theorem Slots.of_inFlight (h : l.Slots s) (hf : l'.inFlight = l.inFlight)
    (hc : l'.created = l.created) : l'.Slots s := by
  refine ⟨?_, ?_, ?_⟩
  · rw [hf]
    exact h.handles
  · rw [hf, hc]
    exact h.fresh
  · rw [hf]
    exact h.bounded

theorem Slots.create (h : l.Slots s) (hlt : (l.inFlight.length : ℤ) < s.maxConcurrent) :
    l.create.Slots s := by
  refine ⟨?_, ?_, ?_⟩
  · have hnew : l.created ∉ l.inFlight.map Prod.fst := by
      intro hm
      obtain ⟨x, hx, he⟩ := List.mem_map.mp hm
      exact absurd (h.fresh x hx) (he ▸ Nat.lt_irrefl _)
    simpa [DrainLoop.create, List.nodup_append] using ⟨h.handles, fun a b hm he => hnew (he ▸
      List.mem_map_of_mem hm)⟩
  · intro x hx
    rcases List.mem_append.mp hx with hx | hx
    · exact Nat.lt_succ_of_lt (h.fresh x hx)
    · rw [List.mem_singleton.mp hx]
      exact Nat.lt_succ_self _
  · simp only [DrainLoop.create, List.length_append, List.length_singleton]
    omega

theorem Slots.remove (h : l.Slots s) (k : ℕ) : (l.remove k).Slots s := by
  refine ⟨?_, fun x hx => h.fresh x (List.mem_of_mem_filter hx), ?_⟩
  · exact h.handles.sublist (List.filter_sublist.map _)
  · have hle : (l.remove k).inFlight.length ≤ l.inFlight.length := List.length_filter_le ..
    have hb := h.bounded
    omega

theorem Slots.setSlot (h : l.Slots s) (k : ℕ) (x : Slot) : (l.setSlot k x).Slots s := by
  refine ⟨?_, ?_, ?_⟩
  · rw [setSlot_handles]
    exact h.handles
  · intro y hy
    obtain ⟨z, hz, hzy⟩ := List.mem_map.mp (setSlot_handles (x := x) ▸ List.mem_map_of_mem hy :
      y.1 ∈ l.inFlight.map Prod.fst)
    exact hzy ▸ h.fresh z hz
  · simpa [DrainLoop.setSlot] using h.bounded

/-! ## The loop's own moves -/

theorem proc_create (h : l.Slots s) : l.create.proc = l.proc := by
  funext j
  by_cases hj : j = l.created
  · subst hj
    have hslot : l.create.slot l.created = some .scheduled := by
      have hnone := h.slot_fresh
      simp only [slot, Option.map_eq_none_iff] at hnone
      simp [slot, create, List.find?_append, hnone]
    rw [proc, proc, hslot, h.slot_fresh]
  · rw [proc, proc, slot_create_of_ne hj]

theorem proc_remove (h : l.proc k = .idle) : (l.remove k).proc = l.proc := by
  funext j
  by_cases hj : j = k
  · subst hj
    rw [h, proc, slot_remove]
  · rw [proc, proc, slot_remove_of_ne hj]

/-- A move keeps the loop sound and touches none of the tasks. -/
structure Keeps (s : Settings) (l l' : DrainLoop) : Prop where
  sound : l'.Sound s
  proc : l'.proc = l.proc

/-- Where the loop is at no `await` that needs more, it is sound. -/
theorem Slots.sound (h : l.Slots s) (hacq : ∀ wake, l.phase ≠ .acquiring wake)
    (hwait : l.phase ≠ .waiting) (hleft : l.phase ≠ .left) : l.Sound s :=
  ⟨h, fun wake he => absurd he (hacq wake), fun he => absurd he hwait, fun he => absurd he hleft⟩

/-- The loop may go on to where it needs nothing more. -/
theorem Slots.keeps_goto (h : l.Slots s) (phase : Phase) (hacq : ∀ wake, phase ≠ .acquiring wake)
    (hwait : phase ≠ .waiting) (hleft : phase ≠ .left) : Keeps s l { l with phase := phase } := by
  have hslots : Slots s { l with phase := phase } := h.of_inFlight rfl rfl
  exact ⟨hslots.sound hacq hwait hleft, rfl⟩

theorem Slots.keeps_create (h : l.Slots s) (hlt : (l.inFlight.length : ℤ) < s.maxConcurrent) :
    Keeps s l l.create :=
  ⟨(h.create hlt).sound nofun nofun nofun, proc_create h⟩

theorem Slots.keeps_startOne (h : l.Slots s) (hlt : (l.inFlight.length : ℤ) < s.maxConcurrent) :
    Keeps s l l.startOne := by
  unfold startOne
  split
  · exact h.keeps_create hlt
  · split
    · rename_i b _ b' _
      have hb : Slots s { l with bucket := some b' } := h.of_inFlight rfl rfl
      obtain ⟨hsound, hproc⟩ := hb.keeps_create hlt
      exact ⟨hsound, hproc⟩
    · exact ⟨⟨h.of_inFlight rfl rfl, fun _ _ => hlt, nofun, nofun⟩, rfl⟩

theorem Slots.keeps_pace (h : l.Slots s) (processed : Bool) : Keeps s l (l.pace s processed) := by
  unfold pace
  split
  · exact h.keeps_goto _ nofun nofun nofun
  · split
    · exact h.keeps_goto _ nofun nofun nofun
    · exact h.keeps_goto _ nofun nofun nofun

theorem Slots.keeps_fill (h : l.Slots s) : Keeps s l (l.fill s) := by
  unfold fill
  split
  · rename_i hroom
    exact h.keeps_startOne hroom.1
  · split
    · exact h.keeps_pace false
    · rename_i hne
      exact ⟨⟨h.of_inFlight rfl rfl, nofun, fun _ => hne, nofun⟩, rfl⟩

theorem Slots.keeps_collect : ∀ {order : List ℕ} {processed : Bool} {l : DrainLoop}, l.Slots s →
    (∀ k ∈ order, l.proc k = .idle) → Keeps s l (collect s order processed l) := by
  intro order
  induction order with
  | nil => exact fun h _ => h.keeps_pace _
  | cons k rest ih =>
    intro processed l h hidle
    have hremove := proc_remove (hidle k List.mem_cons_self)
    have hslots := h.remove k
    unfold collect
    split
    · have hrest : ∀ j ∈ rest, (l.remove k).proc j = .idle := fun j hj => by
        rw [hremove]
        exact hidle j (List.mem_cons_of_mem _ hj)
      obtain ⟨hsound, hproc⟩ := ih hslots hrest
      exact ⟨hsound, hproc.trans hremove⟩
    · obtain ⟨hsound, hproc⟩ := hslots.keeps_goto .gathering nofun nofun nofun
      exact ⟨hsound, hproc.trans hremove⟩

theorem Slots.proc_of_done (h : l.Slots s) (hk : k ∈ l.doneTasks) : l.proc k = .idle := by
  obtain ⟨⟨j, x⟩, hx, rfl⟩ := List.mem_map.mp hk
  obtain ⟨hm, hd⟩ := List.mem_filter.mp hx
  rw [proc, h.slot_of_mem hm]
  cases x <;> first | rfl | cases hd

theorem Sound.advance (h : l.Sound s) (ha : l.advance s order = some l') : Keeps s l l' := by
  unfold DrainLoop.advance at ha
  split at ha
  · cases ha
    split
    · exact h.toSlots.keeps_goto .gathering nofun nofun nofun
    · exact h.toSlots.keeps_fill
  · cases ha
    exact h.toSlots.keeps_fill
  · rename_i wake hp
    split at ha
    · cases ha
      exact h.toSlots.keeps_create (h.acquiring wake hp)
    · cases ha
  · split at ha
    · rename_i hd
      cases ha
      exact h.toSlots.keeps_collect fun k hk => h.toSlots.proc_of_done (hd.2.mem_iff.mp hk)
    · cases ha
  · split at ha
    · cases ha
      exact h.toSlots.keeps_goto _ nofun nofun nofun
    · cases ha
  · split at ha
    · rename_i hall
      cases ha
      exact ⟨⟨h.toSlots.of_inFlight rfl rfl, nofun, nofun, fun _ => List.all_eq_true.mp hall⟩, rfl⟩
    · cases ha
  · cases ha

theorem Sound.cancel (h : l.Sound s) (ha : l.cancel = some l') : Keeps s l l' := by
  unfold DrainLoop.cancel at ha
  split at ha <;> cases ha <;> exact h.toSlots.keeps_goto .gathering nofun nofun nofun

theorem Sound.setSlot (h : l.Sound s) (k : ℕ) (x : Slot)
    (hx : l.phase = .left → x.done = true) : (l.setSlot k x).Sound s := by
  refine ⟨h.toSlots.setSlot k x, fun wake hp => ?_, fun hp he => ?_, fun hp y hy => ?_⟩
  · simpa [DrainLoop.setSlot] using h.acquiring wake hp
  · exact h.waiting hp (by simpa [DrainLoop.setSlot] using he)
  · obtain ⟨z, hz, rfl⟩ := List.mem_map.mp hy
    split
    · exact hx hp
    · exact h.left hp z hz

/-! ## The tasks in flight as processes -/

theorem Sound.not_left (h : l.Sound s) (hk : l.slot k = some x) (hd : x.done = false) :
    l.phase ≠ .left := by
  intro hp
  have hdone := h.left hp _ (slot_mem hk)
  rw [hd] at hdone
  cases hdone

/-- Only the task that goes on changes. -/
structure Proceeds (s : Settings) (k : ℕ) (l l' : DrainLoop) : Prop where
  sound : l'.Sound s
  others : ∀ j, j ≠ k → l'.proc j = l.proc j

theorem Sound.proceeds (h : l.Sound s) (hk : l.slot k = some x) (hd : x.done = false) (y : Slot) :
    Proceeds s k l (l.setSlot k y) :=
  ⟨h.setSlot k y fun hp => absurd hp (h.not_left hk hd), fun _ hj => proc_setSlot_of_ne hj⟩

theorem proc_setSlot_working {pc : Worker.Pc} (h : (l.slot k).isSome) :
    (l.setSlot k (.working pc)).proc k = .worker pc := by
  rw [proc, slot_setSlot h]

theorem proc_setSlot_done (h : (l.slot k).isSome) (hx : x.done = true) :
    (l.setSlot k x).proc k = .idle := by
  rw [proc, slot_setSlot h]
  cases x <;> first | rfl | cases hx

theorem proceed_eq {y : Shared × Worker.Next} {sh' : Shared} (h : l.proceed k y = (sh', l'))
    (hk : (l.slot k).isSome) : ∃ z, l' = l.setSlot k z ∧ Proc.ofWorker y = (sh', l'.proc k) := by
  obtain ⟨sh₁, next⟩ := y
  cases next with
  | «at» pc =>
    cases h
    exact ⟨_, rfl, by rw [proc_setSlot_working hk, Proc.ofWorker]⟩
  | returned processed =>
    cases h
    exact ⟨_, rfl, by rw [proc_setSlot_done hk rfl, Proc.ofWorker]⟩

/-- What the process of a task in flight may do. -/
def Does : Action → Prop
  | .dequeue _ _ | .advance | .activityReturns _ | .activityRaises _ _ => True
  | _ => False

theorem Sound.carry {sh sh' : Shared} {workerId : WorkerId} {locked : ℕ → Bool} (h : l.Sound s)
    (hc : l.carry s workerId k locked sh = some (sh', l')) : Proceeds s k l l' ∧
      ∃ b, Does b ∧ Proc.step sh workerId (l.proc k) b = some (sh', l'.proc k) := by
  unfold DrainLoop.carry at hc
  split at hc
  · rename_i hk
    have hsome : (l.slot k).isSome := by rw [hk]; rfl
    obtain ⟨z, rfl, heq⟩ := proceed_eq (Option.some.inj hc) hsome
    refine ⟨h.proceeds hk rfl z, .dequeue s.queueName locked, trivial, ?_⟩
    have hidle : l.proc k = .idle := by rw [proc, hk]
    rw [hidle, ← heq]
    rfl
  · rename_i pc hk
    have hsome : (l.slot k).isSome := by rw [hk]; rfl
    obtain ⟨y, hy, hl⟩ := Option.map_eq_some_iff.mp hc
    obtain ⟨z, rfl, heq⟩ := proceed_eq hl hsome
    refine ⟨h.proceeds hk rfl z, .advance, trivial, ?_⟩
    have hproc : l.proc k = .worker pc := by rw [proc, hk]
    rw [hproc, ← heq]
    simp only [Proc.step, Proc.advance, hy, Option.map_some]
  · cases hc

theorem working_of_leased {task : QueuedTask} (h : (l.proc k).leased = some task) :
    l.slot k = some (.working (.leased task)) := by
  unfold proc at h
  split at h
  · rename_i pc hk
    unfold Proc.leased at h
    split at h
    · rename_i task' hp
      cases hp
      cases h
      exact hk
    · cases h
  · cases h

theorem working_of_activity {task : QueuedTask} (h : (l.proc k).activity = some task) :
    ∃ pc, l.slot k = some (.working pc) := by
  unfold proc at h
  split at h
  · rename_i pc hk
    exact ⟨pc, hk⟩
  · cases h

theorem Sound.answer {sh : Shared} {workerId : WorkerId} {result : TaskResult} (h : l.Sound s)
    (hc : l.answer k result = some l') : Proceeds s k l l' ∧
      ∃ b, Does b ∧ Proc.step sh workerId (l.proc k) b = some (sh, l'.proc k) := by
  obtain ⟨task, htask, hif⟩ := Option.bind_eq_some_iff.mp hc
  have hk := working_of_leased htask
  split at hif
  · rename_i hans
    cases hif
    refine ⟨h.proceeds hk rfl _, .activityReturns result, trivial, ?_⟩
    rw [proc_setSlot_working (by rw [hk]; rfl)]
    simp only [Proc.step, htask, Option.bind_some, if_pos hans]
  · cases hif

theorem Sound.failActivity {sh : Shared} {workerId : WorkerId} {error : String} {permanent : Bool}
    (h : l.Sound s) (hc : l.failActivity k error permanent = some l') : Proceeds s k l l' ∧
      ∃ b, Does b ∧ Proc.step sh workerId (l.proc k) b = some (sh, l'.proc k) := by
  obtain ⟨task, htask, hif⟩ := Option.bind_eq_some_iff.mp hc
  obtain ⟨pc, hk⟩ := working_of_activity htask
  split at hif
  · rename_i hperm
    cases hif
    refine ⟨h.proceeds hk rfl _, .activityRaises error permanent, trivial, ?_⟩
    rw [proc_setSlot_working (by rw [hk]; rfl)]
    simp only [Proc.step, htask, Option.bind_some, if_pos hperm]
  · cases hif

theorem Sound.breakOff (h : l.Sound s) (hc : l.breakOff k = some l') : Proceeds s k l l' ∧
    l'.proc k = .idle := by
  unfold DrainLoop.breakOff at hc
  split at hc
  · rename_i hk
    cases hc
    exact ⟨h.proceeds hk rfl _, proc_setSlot_done (by rw [hk]; rfl) rfl⟩
  · rename_i pc hk
    cases hc
    exact ⟨h.proceeds hk rfl _, proc_setSlot_done (by rw [hk]; rfl) rfl⟩
  · cases hc

/-! ## After `stop` -/

/-- The tasks created, with the one that is created as soon as its token is there. -/
def reserved (l : DrainLoop) : ℕ :=
  match l.phase with
  | .acquiring _ => l.created + 1
  | _ => l.created

theorem created_le_reserved : l.created ≤ l.reserved := by
  unfold reserved
  split
  · exact Nat.le_succ _
  · exact Nat.le_refl _

theorem reserved_le : l.reserved ≤ l.created + 1 := by
  unfold reserved
  split
  · exact Nat.le_refl _
  · exact Nat.le_succ _

theorem reserved_pace (processed : Bool) : (l.pace s processed).reserved = l.created := by
  unfold pace
  split
  · rfl
  · split <;> rfl

/-- Once `stop` is set, the loop creates at most the task whose token it has asked for. -/
theorem reserved_advance_stopped (hs : l.stopped = true) (ha : l.advance s order = some l') :
    l'.stopped = true ∧ l'.reserved ≤ l.reserved := by
  have hle := l.created_le_reserved
  have hpace : ∀ {l : DrainLoop} (processed : Bool), l.stopped = true →
      (l.pace s processed).stopped = true := by
    intro l processed hs
    unfold pace
    split
    · exact hs
    · split <;> exact hs
  have hfill : (l.fill s).stopped = true ∧ (l.fill s).reserved = l.created := by
    unfold fill
    rw [if_neg (by simp [hs])]
    split
    · exact ⟨hpace false hs, reserved_pace false⟩
    · exact ⟨hs, rfl⟩
  have hcollect : ∀ order processed (l : DrainLoop), l.stopped = true →
      (collect s order processed l).stopped = true ∧
        (collect s order processed l).reserved = l.created := by
    intro order
    induction order with
    | nil => exact fun processed l hs => ⟨hpace processed hs, reserved_pace processed⟩
    | cons k rest ih =>
      intro processed l hs
      unfold collect
      split
      · exact ih _ _ hs
      · exact ⟨hs, rfl⟩
  unfold DrainLoop.advance at ha
  split at ha
  · cases ha
    rw [if_pos hs]
    exact ⟨hs, hle⟩
  · cases ha
    exact ⟨hfill.1, hfill.2 ▸ hle⟩
  · rename_i wake hp
    split at ha
    · cases ha
      refine ⟨hs, Nat.le_of_eq ?_⟩
      simp [reserved, hp, create]
    · cases ha
  · split at ha
    · cases ha
      obtain ⟨hstop, hres⟩ := hcollect order false l hs
      exact ⟨hstop, hres ▸ hle⟩
    · cases ha
  · split at ha
    · cases ha
      exact ⟨hs, hle⟩
    · cases ha
  · split at ha
    · cases ha
      exact ⟨hs, hle⟩
    · cases ha
  · cases ha

/-! ## The rate -/

/-- The loop keeps the rate since `t₀`: the next token is as far ahead as the tasks created and the
one that waits for its token make it. -/
structure Paced (rate t₀ : ℚ) (l : DrainLoop) (b : TokenBucket) : Prop where
  bucket : l.bucket = some b
  rate : b.ratePerSecond = rate
  started : t₀ ≤ l.clock
  fresh : b.nextAvailable = none → l.reserved = 0
  next : ∀ x, b.nextAvailable = some x → t₀ + l.reserved * b.interval ≤ x
  wakes : ∀ wake, l.phase = .acquiring wake → b.nextAvailable = some (wake + b.interval)
  created : t₀ + l.created * b.interval ≤ l.clock + b.interval

variable {rate t₀ : ℚ} {b : TokenBucket}

theorem reserved_of_ne (h : ∀ wake, l.phase ≠ .acquiring wake) : l.reserved = l.created := by
  unfold reserved
  split
  · rename_i wake hp
    exact absurd hp (h wake)
  · rfl

/-- A move that creates no task and takes no token keeps the rate. -/
theorem Paced.of_same (h : l.Paced rate t₀ b) (hb : l'.bucket = l.bucket)
    (hc : l'.created = l.created) (ht : l.clock ≤ l'.clock)
    (hp : l'.phase = l.phase ∨ ∀ wake, l'.phase ≠ .acquiring wake) : l'.Paced rate t₀ b := by
  have hle : l'.reserved ≤ l.reserved := by
    rcases hp with hp | hp
    · rw [reserved, reserved, hp, hc]
    · rw [reserved_of_ne hp, hc]
      exact created_le_reserved
  have hpos : 0 ≤ b.interval := (one_div_pos.mpr b.rate_pos).le
  refine ⟨hb.trans h.bucket, h.rate, h.started.trans ht, fun hn => ?_, fun x hx => ?_,
    fun wake hw => ?_, ?_⟩
  · have hzero := h.fresh hn
    omega
  · have hnext := h.next x hx
    have hcast : (l'.reserved : ℚ) ≤ l.reserved := by exact_mod_cast hle
    have hmul := mul_le_mul_of_nonneg_right hcast hpos
    linarith
  · rcases hp with hp | hp
    · exact h.wakes wake (hp ▸ hw)
    · exact absurd hw (hp wake)
  · rw [hc]
    have hcreated := h.created
    linarith

/-- What a call of `acquire` is granted: a time that is neither before the call nor before the next
token. -/
theorem exists_grant (b : TokenBucket) (now : ℚ) : ∃ g, b.Grants now g ∧ now ≤ g ∧
    (∀ x, b.nextAvailable = some x → x ≤ g) ∧ (b.nextAvailable = none → g = now) := by
  cases hn : b.nextAvailable with
  | none => exact ⟨now, TokenBucket.grants_fresh hn now, le_refl _, nofun, fun _ => rfl⟩
  | some next =>
    refine ⟨max now next, TokenBucket.grants_reserved hn now, le_max_left .., ?_, nofun⟩
    rintro _ ⟨⟩
    exact le_max_right ..

theorem Paced.startOne (h : l.Paced rate t₀ b) (hp : ∀ wake, l.phase ≠ .acquiring wake) :
    ∃ b', l.startOne.Paced rate t₀ b' := by
  obtain ⟨g, hg, hnow, hnext, hfresh⟩ := exists_grant b l.clock
  have hres := reserved_of_ne hp
  have hint : (b.acquire l.clock).1.interval = b.interval := TokenBucket.acquire_interval _
  have hrate : (b.acquire l.clock).1.ratePerSecond = rate := by
    rw [← h.rate]
    unfold TokenBucket.acquire
    split
    · rfl
    · split <;> rfl
  -- the grant is at least as late as the tasks created before it make it
  have hlate : t₀ + l.created * b.interval ≤ g := by
    cases hn : b.nextAvailable with
    | none =>
      have hzero := h.fresh hn
      rw [hres] at hzero
      have hstarted := h.started
      rw [hzero]
      push_cast
      linarith
    | some x =>
      have hx := h.next x hn
      rw [hres] at hx
      exact hx.trans (hnext x hn)
  have hreserves := hg.reserves
  have hasks := hg.asks
  refine ⟨(b.acquire l.clock).1, ?_⟩
  unfold DrainLoop.startOne
  simp only [h.bucket]
  split
  · rename_i b' hacq
    rw [hacq] at hreserves hasks hint hrate
    simp only at hreserves hasks hint hrate
    have hge : g = l.clock := by
      by_contra hne
      rw [if_neg hne] at hasks
      cases hasks
    rw [hacq]
    refine ⟨rfl, hrate, h.started, fun hn => ?_, fun x hx => ?_, fun wake hw => ?_, ?_⟩
    · rw [hreserves] at hn
      cases hn
    · cases hreserves.symm.trans hx
      change t₀ + ((l.created + 1 : ℕ) : ℚ) * b'.interval ≤ _
      rw [hint]
      push_cast
      linarith
    · cases hw
    · change t₀ + ((l.created + 1 : ℕ) : ℚ) * b'.interval ≤ l.clock + b'.interval
      rw [hint]
      push_cast
      linarith
  · rename_i b' wait hacq
    rw [hacq] at hreserves hasks hint hrate
    simp only at hreserves hasks hint hrate
    have hne : g ≠ l.clock := by
      intro he
      rw [if_pos he] at hasks
      cases hasks
    rw [if_neg hne] at hasks
    cases hasks
    rw [hacq]
    refine ⟨rfl, hrate, h.started, fun hn => ?_, fun x hx => ?_, fun wake hw => ?_, ?_⟩
    · rw [hreserves] at hn
      cases hn
    · cases hreserves.symm.trans hx
      change t₀ + ((l.created + 1 : ℕ) : ℚ) * b'.interval ≤ _
      rw [hint]
      push_cast
      linarith
    · cases hw
      rw [hreserves, hint]
      congr 1
      ring
    · have hcreated := h.created
      change t₀ + (l.created : ℚ) * b'.interval ≤ l.clock + b'.interval
      rw [hint]
      exact hcreated

theorem Paced.pace (h : l.Paced rate t₀ b) (processed : Bool) : (l.pace s processed).Paced rate t₀ b := by
  unfold DrainLoop.pace
  split
  · exact h.of_same rfl rfl (le_refl _) (.inr nofun)
  · split <;> exact h.of_same rfl rfl (le_refl _) (.inr nofun)

theorem Paced.fill (h : l.Paced rate t₀ b) (hp : ∀ wake, l.phase ≠ .acquiring wake) :
    ∃ b', (l.fill s).Paced rate t₀ b' := by
  unfold DrainLoop.fill
  split
  · exact h.startOne hp
  · split
    · exact ⟨b, h.pace false⟩
    · exact ⟨b, h.of_same rfl rfl (le_refl _) (.inr nofun)⟩

theorem Paced.collect : ∀ {order : List ℕ} {processed : Bool} {l : DrainLoop}, l.Paced rate t₀ b →
    (∀ wake, l.phase ≠ .acquiring wake) → (collect s order processed l).Paced rate t₀ b := by
  intro order
  induction order with
  | nil => exact fun h _ => h.pace _
  | cons k rest ih =>
    intro processed l h hp
    unfold DrainLoop.collect
    split
    · exact ih (h.of_same rfl rfl (le_refl _) (.inr hp)) hp
    · exact h.of_same rfl rfl (le_refl _) (.inr nofun)

theorem Paced.advance (h : l.Paced rate t₀ b) (ha : l.advance s order = some l') :
    ∃ b', l'.Paced rate t₀ b' := by
  unfold DrainLoop.advance at ha
  split at ha
  · rename_i hp
    cases ha
    split
    · exact ⟨b, h.of_same rfl rfl (le_refl _) (.inr nofun)⟩
    · exact h.fill (by simp [hp])
  · rename_i hp
    cases ha
    exact h.fill (by simp [hp])
  · rename_i wake hp
    split at ha
    · rename_i hwake
      cases ha
      have hnext := h.next _ (h.wakes wake hp)
      have hres : l.reserved = l.created + 1 := by simp only [reserved, hp]
      rw [hres] at hnext
      push_cast at hnext
      refine ⟨b, h.bucket, h.rate, h.started, fun hn => ?_, fun x hx => ?_, nofun, ?_⟩
      · have hzero := h.fresh hn
        omega
      · have hx := h.next x hx
        rw [hres] at hx
        exact hx
      · change t₀ + ((l.created + 1 : ℕ) : ℚ) * b.interval ≤ l.clock + b.interval
        push_cast
        linarith
    · cases ha
  · rename_i hp
    split at ha
    · cases ha
      exact ⟨b, h.collect (by simp [hp])⟩
    · cases ha
  · split at ha
    · cases ha
      exact ⟨b, h.of_same rfl rfl (le_refl _) (.inr nofun)⟩
    · cases ha
  · split at ha
    · cases ha
      exact ⟨b, h.of_same rfl rfl (le_refl _) (.inr nofun)⟩
    · cases ha
  · cases ha

/-- In the time since `t₀` a loop that keeps the rate has created at most that many tasks. -/
theorem Paced.created_le (h : l.Paced rate t₀ b) : (l.created : ℤ) ≤ ⌊(l.clock - t₀) * rate⌋ + 1 := by
  have hpos : 0 < rate := h.rate ▸ b.rate_pos
  have hcreated := h.created
  have hint : b.interval = 1 / rate := by rw [TokenBucket.interval, h.rate]
  rw [hint] at hcreated
  have hmul := mul_le_mul_of_nonneg_right hcreated hpos.le
  have hcancel : 1 / rate * rate = 1 := one_div_mul_cancel hpos.ne'
  have hlate : (l.created : ℚ) - 1 ≤ (l.clock - t₀) * rate := by
    have hexp : (t₀ + l.created * (1 / rate)) * rate = t₀ * rate + l.created := by
      rw [add_mul, mul_assoc, hcancel, mul_one]
    have hexp' : (l.clock + 1 / rate) * rate = l.clock * rate + 1 := by rw [add_mul, hcancel]
    rw [hexp, hexp'] at hmul
    linarith
  have hfloor : (l.created : ℤ) - 1 ≤ ⌊(l.clock - t₀) * rate⌋ :=
    Int.le_floor.mpr (by push_cast; exact hlate)
  omega

end DrainLoop
end TicketFlow
