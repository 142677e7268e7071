import Mathlib.Data.Nat.Pairing
import TicketFlow.DrainLoop
import TicketFlow.RunnerLoop

/-! # The deployed processes

An API server with any number of requests in hand, runners in their loop and workers in theirs, over
one database. What a deployed process is doing is seen as processes of the system: one for each
request, one for each task in flight and one for a runner, which does one thing at a time. -/

namespace TicketFlow
open Interleaving
set_option autoImplicit false

/-- A deployed process. A request in hand is known by the number of requests before it. -/
inductive Service
  | api (requests : List (ℕ × Api.Pc)) (received : ℕ)
  | runner (s : RunnerLoop.Settings) (l : RunnerLoop)
  | worker (s : DrainLoop.Settings) (l : DrainLoop)

namespace Fleet

/-- What a deployed process does next, or what befalls it. -/
inductive Action
  | tick (elapsed : Time)
  | clock (reading : ℚ)
  | restart (reading : ℚ)
  | stop
  | cancel
  | createTicket (ticket : Ticket)
  | submitApproval (ticketId : TicketId) (decision : ApprovalDecision)
  | loop (locked : TicketId → Bool) (order : List ℕ)
  | carry (k : ℕ) (locked : ℕ → Bool)
  | answer (k : ℕ) (result : TaskResult)
  | failActivity (k : ℕ) (error : String) (permanent : Bool)
  | breakOff (k : ℕ)

/-- The action ends what its process is in the middle of. -/
def Action.Ends : Action → Prop
  | .restart _ | .breakOff _ => True
  | _ => False

end Fleet

namespace Service

def request (k : ℕ) (requests : List (ℕ × Api.Pc)) : Option Api.Pc :=
  (requests.find? (·.1 = k)).map Prod.snd

/-- A request goes on or is answered. -/
def handled (k : ℕ) (requests : List (ℕ × Api.Pc)) (received : ℕ) :
    Shared × Api.Next → Shared × Service
  | (sh, .at pc) => (sh, .api ((k, pc) :: requests.filter (·.1 ≠ k)) received)
  | (sh, .responded _) => (sh, .api (requests.filter (·.1 ≠ k)) received)

/-- What the process is in the middle of, under the number of each thing. -/
def proc : Service → ℕ → Proc
  | .api requests _, k => (request k requests).elim .idle .api
  | .runner _ l, 0 => l.proc
  | .runner _ _, _ + 1 => .idle
  | .worker _ l, k => l.proc k

def isRunner : Service → Bool
  | .runner _ _ => true
  | .api _ _ | .worker _ _ => false

/-- A process that has just been started. -/
def Started : Service → Prop
  | .api requests received => requests = [] ∧ received = 0
  | .runner _ l => ∃ clock, 0 ≤ clock ∧ l = .start clock
  | .worker s l => ∃ clock, DrainLoop.start s clock = .ok l

/-- Service `i` performs an action. Each request and each task leases under a number of its own. -/
def step : Program Shared Service Fleet.Action := fun sh i service a =>
  match a, service with
  | .tick elapsed, service => some (sh.commit { sh.db with now := sh.db.now + elapsed }, service)
  | .clock reading, .runner s l =>
    if l.clock ≤ reading then some (sh, .runner s { l with clock := reading }) else none
  | .clock reading, .worker s l =>
    if l.clock ≤ reading then some (sh, .worker s { l with clock := reading }) else none
  | .restart _, .api _ received => some (sh, .api [] received)
  | .restart reading, .runner s _ => if 0 ≤ reading then some (sh, .runner s (.start reading)) else none
  | .restart reading, .worker s l =>
    match DrainLoop.start s reading with
    | .ok fresh => some (sh, .worker s { fresh with created := l.created })
    | .error _ => none
  | .stop, .runner s l => some (sh, .runner s { l with stopped := true })
  | .stop, .worker s l => some (sh, .worker s { l with stopped := true })
  | .cancel, .worker s l => l.cancel.map fun l => (sh, .worker s l)
  | .createTicket ticket, .api requests received =>
    (Api.createTicket ticket sh).map (handled received requests (received + 1))
  | .submitApproval ticketId decision, .api requests received =>
    some (handled received requests (received + 1) (Api.submitApproval ticketId decision sh))
  | .carry k _, .api requests received =>
    (request k requests).map fun pc => handled k requests received (Api.advance pc sh)
  | .loop locked _, .runner s l =>
    (l.advance s (Nat.pair i 0) locked sh).map fun (sh, l) => (sh, .runner s l)
  | .loop _ order, .worker s l => (l.advance s order).map fun l => (sh, .worker s l)
  | .carry k locked, .worker s l =>
    (l.carry s (Nat.pair i k) k locked sh).map fun (sh, l) => (sh, .worker s l)
  | .answer k result, .worker s l => (l.answer k result).map fun l => (sh, .worker s l)
  | .failActivity k error permanent, .worker s l =>
    (l.failActivity k error permanent).map fun l => (sh, .worker s l)
  | .breakOff k, .api requests received => some (sh, .api (requests.filter (·.1 ≠ k)) received)
  | .breakOff k, .worker s l => (l.breakOff k).map fun l => (sh, .worker s l)
  | _, _ => none

end Service

/-- The database, the checkpoints and the deployed processes. -/
abbrev Fleet := Config Shared Service

namespace Fleet

/-- A fresh database, and every process just started. -/
def Initial (f : Fleet) : Prop := f.shared = .empty ∧ ∀ i, (f.procs i).Started

abbrev ReachableWhen (ok : Fleet → ℕ → Action → Prop) : Fleet → Prop :=
  Interleaving.ReachableWhen Service.step Initial ok

abbrev Reachable : Fleet → Prop := Interleaving.Reachable Service.step Initial

/-- The fleet as the system sees it. -/
def world (f : Fleet) : World :=
  ⟨f.shared, fun m => (f.procs m.unpair.1).proc m.unpair.2⟩

end Fleet

namespace Service

/-! ## A deployed process as processes of the system -/

/-- What holds of a deployed process. -/
def Sound : Service → Prop
  | .api requests received => ∀ x ∈ requests, x.1 < received
  | .runner _ _ => True
  | .worker s l => l.Sound s

/-- The actions of the system that a step of a deployed process may be seen as, and of which of its
processes. -/
def Does : Service → Fleet.Action → ℕ → Action → Prop
  | .api _ _, .createTicket ticket, _, b => b = .createTicket ticket
  | .api _ _, .submitApproval ticketId decision, _, b => b = .submitApproval ticketId decision
  | .api _ _, .carry _ _, _, b => b = .advance
  | .runner _ _, .loop _ _, k, b => k = 0 ∧ RunnerLoop.Does b
  | .worker _ _, _, _, b => DrainLoop.Does b
  | _, _, _, _ => False

/-- How the system sees a step: as an action of one of the processes, as time that passes, or as the
end of some of the processes. -/
inductive Moves (sh : Shared) (i : ℕ) (service : Service) (a : Fleet.Action) (sh' : Shared)
    (service' : Service) : Prop
  | acts {k : ℕ} {b : Action} : service.Does a k b →
      Proc.step sh (Nat.pair i k) (service.proc k) b = some (sh', service'.proc k) →
      (∀ j, j ≠ k → service'.proc j = service.proc j) → Moves sh i service a sh' service'
  | ticks (elapsed : Time) : sh' = sh.commit { sh.db with now := sh.db.now + elapsed } →
      service' = service → Moves sh i service a sh' service'
  | ends (ks : List ℕ) : (ks ≠ [] → a.Ends) → sh' = sh →
      (∀ j, service'.proc j = if j ∈ ks then .idle else service.proc j) →
      Moves sh i service a sh' service'

variable {sh sh' : Shared} {i k : ℕ} {service service' : Service} {a : Fleet.Action}
  {requests : List (ℕ × Api.Pc)} {received : ℕ}

theorem Moves.quiet (hsh : sh' = sh) (h : ∀ j, service'.proc j = service.proc j) :
    Moves sh i service a sh' service' := by
  refine .ends [] (fun h => absurd rfl h) hsh fun j => ?_
  rw [if_neg List.not_mem_nil]
  exact h j

theorem request_filter_of_ne {j : ℕ} (h : j ≠ k) :
    request j (requests.filter (·.1 ≠ k)) = request j requests := by
  simp only [request, List.find?_filter]
  congr 2
  funext x
  by_cases hx : x.1 = j
  · simp [hx, h]
  · simp [hx]

theorem request_filter : request k (requests.filter (·.1 ≠ k)) = none := by
  simp only [request, List.find?_filter, Option.map_eq_none_iff, List.find?_eq_none]
  simp

theorem request_none (h : ∀ x ∈ requests, x.1 < received) : request received requests = none := by
  simp only [request, Option.map_eq_none_iff, List.find?_eq_none, decide_eq_true_eq]
  exact fun x hx he => Nat.lt_irrefl _ (he ▸ h x hx)

theorem handled_eq {x : Shared × Api.Next} (h : handled k requests received x = (sh', service')) :
    Proc.ofApi x = (sh', service'.proc k) ∧
    (∀ j, j ≠ k → service'.proc j = (Service.api requests received).proc j) ∧
    ((∀ x ∈ requests, x.1 < received) → k < received → service'.Sound) := by
  obtain ⟨sh₁, next⟩ := x
  have hlt : (∀ x ∈ requests, x.1 < received) →
      ∀ x ∈ requests.filter (·.1 ≠ k), x.1 < received :=
    fun h x hx => h x (List.mem_of_mem_filter hx)
  cases next with
  | «at» pc =>
    cases h
    refine ⟨?_, fun j hj => ?_, fun hr hk x hx => ?_⟩
    · simp [Proc.ofApi, proc, request]
    · have hkj : ¬ k = j := fun he => hj he.symm
      have hf : request j (requests.filter (·.1 ≠ k)) = request j requests :=
        request_filter_of_ne hj
      simp only [request] at hf
      simp only [proc, request, List.find?_cons, hkj, decide_false, hf]
    · rcases List.mem_cons.mp hx with rfl | hx
      · exact hk
      · exact hlt hr x hx
  | responded status =>
    cases h
    refine ⟨?_, fun j hj => ?_, fun hr _ => hlt hr⟩
    · simp only [Proc.ofApi, proc, request_filter, Option.elim_none]
    · simp only [proc, request_filter_of_ne hj]

/-- A process that ends leaves nothing it was in the middle of. -/
theorem Moves.over (ks : List ℕ) (ha : a.Ends) (hsh : sh' = sh) (hidle : ∀ j, service'.proc j = .idle)
    (hks : ∀ j, j ∉ ks → service.proc j = .idle) : Moves sh i service a sh' service' := by
  refine .ends ks (fun _ => ha) hsh fun j => ?_
  split
  · exact hidle j
  · rename_i hj
    rw [hidle, hks j hj]

theorem worker_started {s : DrainLoop.Settings} {l : DrainLoop} {clock : ℚ}
    (h : DrainLoop.start s clock = .ok l) (n : ℕ) :
    ({ l with created := n } : DrainLoop).Sound s ∧ l.created = 0 ∧ ∀ j, l.proc j = .idle := by
  have sound : ∀ bucket, 0 < s.maxConcurrent →
      (⟨clock, false, bucket, [], n, .top⟩ : DrainLoop).Sound s := fun bucket hpos =>
    ⟨⟨List.nodup_nil, fun x hx => (nomatch hx), hpos.le⟩, nofun, nofun, nofun⟩
  unfold DrainLoop.start at h
  split at h
  · cases h
  · rename_i hpos
    have hpos := not_le.mp hpos
    split at h
    · cases h
      exact ⟨sound _ hpos, rfl, fun _ => rfl⟩
    · rename_i rate _
      cases hb : TokenBucket.init rate with
      | error e =>
        rw [hb] at h
        cases h
      | ok bucket =>
        rw [hb] at h
        cases h
        exact ⟨sound _ hpos, rfl, fun _ => rfl⟩

theorem Started.sound (h : service.Started) : service.Sound ∧ ∀ k, service.proc k = .idle := by
  cases service with
  | api requests received =>
    obtain ⟨rfl, rfl⟩ := h
    exact ⟨fun x hx => (nomatch hx), fun _ => rfl⟩
  | runner s l =>
    obtain ⟨clock, -, rfl⟩ := h
    refine ⟨trivial, fun k => ?_⟩
    cases k <;> rfl
  | worker s l =>
    obtain ⟨clock, hstart⟩ := h
    obtain ⟨hsound, -, hidle⟩ := worker_started hstart l.created
    exact ⟨hsound, hidle⟩

theorem proc_runner_of_eq {s : RunnerLoop.Settings} {l l' : RunnerLoop} (h : l'.proc = l.proc) :
    ∀ j, (Service.runner s l').proc j = (Service.runner s l).proc j := by
  intro j
  cases j with
  | zero => exact h
  | succ j => rfl

/-- How the system sees a step of a deployed process, which stays sound. -/
theorem step_moves (hs : service.Sound) (h : step sh i service a = some (sh', service')) :
    service'.Sound ∧ Moves sh i service a sh' service' := by
  unfold step at h
  split at h
  · cases h
    exact ⟨hs, .ticks _ rfl rfl⟩
  · split at h
    · cases h
      exact ⟨trivial, .quiet rfl (proc_runner_of_eq rfl)⟩
    · cases h
  · rename_i reading s l
    split at h
    · cases h
      have hs : l.Sound s := hs
      exact ⟨⟨hs.toSlots.of_inFlight rfl rfl, hs.acquiring, hs.waiting, hs.left⟩,
        .quiet rfl fun _ => rfl⟩
    · cases h
  · rename_i reading requests received
    cases h
    refine ⟨fun x hx => (nomatch hx), .over (requests.map Prod.fst) trivial rfl (fun _ => rfl) fun j hj => ?_⟩
    have hnone : request j requests = none := by
      simp only [request, Option.map_eq_none_iff, List.find?_eq_none, decide_eq_true_eq]
      exact fun x hx he => hj (he ▸ List.mem_map_of_mem hx)
    simp only [proc, hnone, Option.elim_none]
  · rename_i reading s l
    split at h
    · cases h
      refine ⟨trivial, .over [0] trivial rfl (fun j => ?_) fun j hj => ?_⟩
      · cases j <;> rfl
      · cases j with
        | zero => exact absurd List.mem_cons_self hj
        | succ j => rfl
    · cases h
  · rename_i reading s l
    split at h
    · rename_i fresh hstart
      cases h
      obtain ⟨hsound, -, hidle⟩ := worker_started hstart l.created
      refine ⟨hsound, .over (l.inFlight.map Prod.fst) trivial rfl hidle fun j hj => ?_⟩
      change l.proc j = .idle
      have hnone : l.slot j = none := by
        simp only [DrainLoop.slot, Option.map_eq_none_iff, List.find?_eq_none, decide_eq_true_eq]
        exact fun x hx he => hj (he ▸ List.mem_map_of_mem hx)
      rw [DrainLoop.proc, hnone]
    · cases h
  · cases h
    exact ⟨trivial, .quiet rfl (proc_runner_of_eq rfl)⟩
  · rename_i s l
    cases h
    have hs : l.Sound s := hs
    exact ⟨⟨hs.toSlots.of_inFlight rfl rfl, hs.acquiring, hs.waiting, hs.left⟩,
      .quiet rfl fun _ => rfl⟩
  · rename_i s l
    obtain ⟨l', hl, heq⟩ := Option.map_eq_some_iff.mp h
    cases heq
    obtain ⟨hsound, hproc⟩ := DrainLoop.Sound.cancel hs hl
    exact ⟨hsound, .quiet rfl fun j => congrFun hproc j⟩
  · rename_i ticket requests received
    obtain ⟨x, hx, heq⟩ := Option.map_eq_some_iff.mp h
    have hs : ∀ x ∈ requests, x.1 < received := hs
    obtain ⟨hstep, hothers, hsound⟩ := handled_eq heq
    have hidle : (Service.api requests received).proc received = .idle := by
      simp only [proc, request_none hs, Option.elim_none]
    refine ⟨hsound (fun x hx => Nat.lt_succ_of_lt (hs x hx)) (Nat.lt_succ_self _),
      .acts (k := received) (b := .createTicket ticket) rfl ?_ hothers⟩
    rw [hidle, ← hstep]
    simp only [Proc.step, hx, if_true, Option.map_some]
  · rename_i ticketId decision requests received
    have heq := Option.some.inj h
    have hs : ∀ x ∈ requests, x.1 < received := hs
    obtain ⟨hstep, hothers, hsound⟩ := handled_eq heq
    have hidle : (Service.api requests received).proc received = .idle := by
      simp only [proc, request_none hs, Option.elim_none]
    refine ⟨hsound (fun x hx => Nat.lt_succ_of_lt (hs x hx)) (Nat.lt_succ_self _),
      .acts (k := received) (b := .submitApproval ticketId decision) rfl ?_ hothers⟩
    rw [hidle, ← hstep]
    simp only [Proc.step, if_true]
  · rename_i k locked requests received
    obtain ⟨pc, hpc, heq⟩ := Option.map_eq_some_iff.mp h
    have hs : ∀ x ∈ requests, x.1 < received := hs
    obtain ⟨hstep, hothers, hsound⟩ := handled_eq heq
    have hproc : (Service.api requests received).proc k = .api pc := by
      simp only [proc, hpc, Option.elim_some]
    have hk : k < received := by
      obtain ⟨x, hx, rfl⟩ := Option.map_eq_some_iff.mp hpc
      have hfst : x.1 = k := by simpa using List.find?_some hx
      exact hfst ▸ hs x (List.mem_of_find?_eq_some hx)
    refine ⟨hsound hs hk, .acts (k := k) (b := .advance) rfl ?_ hothers⟩
    rw [hproc, ← hstep]
    rfl
  · rename_i locked order s l
    obtain ⟨⟨sh₁, l'⟩, hl, heq⟩ := Option.map_eq_some_iff.mp h
    cases heq
    refine ⟨trivial, ?_⟩
    rcases RunnerLoop.advance_moves hl with ⟨hsh, hproc⟩ | ⟨b, hb, hstep⟩
    · exact .quiet hsh (proc_runner_of_eq hproc)
    · refine .acts (k := 0) ⟨rfl, hb⟩ hstep fun j hj => ?_
      cases j with
      | zero => exact absurd rfl hj
      | succ j => rfl
  · rename_i locked order s l
    obtain ⟨l', hl, heq⟩ := Option.map_eq_some_iff.mp h
    cases heq
    obtain ⟨hsound, hproc⟩ := DrainLoop.Sound.advance hs hl
    exact ⟨hsound, .quiet rfl fun j => congrFun hproc j⟩
  · rename_i k locked s l
    obtain ⟨⟨sh₁, l'⟩, hl, heq⟩ := Option.map_eq_some_iff.mp h
    cases heq
    obtain ⟨hgo, b, hb, hstep⟩ := DrainLoop.Sound.carry hs hl
    exact ⟨hgo.sound, .acts hb hstep hgo.others⟩
  · rename_i k result s l
    obtain ⟨l', hl, heq⟩ := Option.map_eq_some_iff.mp h
    cases heq
    obtain ⟨hgo, b, hb, hstep⟩ := DrainLoop.Sound.answer hs hl
    exact ⟨hgo.sound, .acts hb hstep hgo.others⟩
  · rename_i k error permanent s l
    obtain ⟨l', hl, heq⟩ := Option.map_eq_some_iff.mp h
    cases heq
    obtain ⟨hgo, b, hb, hstep⟩ := DrainLoop.Sound.failActivity hs hl
    exact ⟨hgo.sound, .acts hb hstep hgo.others⟩
  · rename_i k requests received
    cases h
    refine ⟨fun x hx => hs x (List.mem_of_mem_filter hx), .ends [k] (fun _ => trivial) rfl fun j => ?_⟩
    by_cases hj : j = k
    · subst hj
      simp only [proc, request_filter, Option.elim_none, List.mem_singleton, if_true]
    · rw [if_neg (by simpa using hj)]
      simp only [proc, request_filter_of_ne hj]
  · rename_i k s l
    obtain ⟨l', hl, heq⟩ := Option.map_eq_some_iff.mp h
    cases heq
    obtain ⟨hgo, hidle⟩ := DrainLoop.Sound.breakOff hs hl
    refine ⟨hgo.sound, .ends [k] (fun _ => trivial) rfl fun j => ?_⟩
    by_cases hj : j = k
    · subst hj
      rw [if_pos List.mem_cons_self]
      exact hidle
    · rw [if_neg (by simpa using hj)]
      exact hgo.others j hj
  · cases h

end Service

/-! ## The fleet refines the system -/

namespace Fleet
variable {f : Fleet} {i k : ℕ} {okF : Fleet → ℕ → Action → Prop}
  {ok : World → WorkerId → TicketFlow.Action → Prop}

theorem world_procs (m : ℕ) : f.world.procs m = (f.procs m.unpair.1).proc m.unpair.2 := rfl

theorem world_procs_pair : f.world.procs (Nat.pair i k) = (f.procs i).proc k := by
  rw [world_procs, Nat.unpair_pair]

theorem ReachableWhen.sound (hf : ReachableWhen okF f) (i : ℕ) : (f.procs i).Sound := by
  refine (Interleaving.ReachableWhen.induct (I := fun _ => True) (J := fun _ _ service =>
    service.Sound) (fun f h => ⟨trivial, fun i => (h.2 i).sound.1⟩) ?_ hf).2 i
  intro f i a sh' service' _ _ _ hJ hp
  exact ⟨trivial, (Service.step_moves (hJ i) hp).1, fun j _ => hJ j⟩

/-- A step of the fleet, as the system sees it. -/
theorem world_moves {a : Action} {sh' : Shared} {service' : Service}
    (hm : Service.Moves f.shared i (f.procs i) a sh' service')
    (hact : ∀ k b s p, (f.procs i).Does a k b →
      Proc.step f.shared (Nat.pair i k) ((f.procs i).proc k) b = some (s, p) →
      ok f.world (Nat.pair i k) b)
    (htick : ∀ w m e, ok w m (.tick e)) (hcrash : a.Ends → ∀ w k, ok w (Nat.pair i k) .crash) :
    Interleaving.ReachableWhen Proc.step (· = f.world) ok
      (world ⟨sh', Function.update f.procs i service'⟩) := by
  have others : ∀ m : ℕ, m.unpair.1 ≠ i →
      (world ⟨sh', Function.update f.procs i service'⟩).procs m = f.world.procs m := by
    intro m hne
    rw [world_procs, world_procs]
    change (Function.update f.procs i service' m.unpair.1).proc _ = _
    rw [Function.update_of_ne hne]
  have own : ∀ k, (world ⟨sh', Function.update f.procs i service'⟩).procs (Nat.pair i k) =
      service'.proc k := by
    intro k
    rw [world_procs_pair]
    change (Function.update f.procs i service' i).proc k = _
    rw [Function.update_self]
  cases hm with
  | @acts k b hdoes hstep hothers =>
    refine .single (hact k b _ _ hdoes hstep) (world_procs_pair (f := f) ▸ hstep) ?_
    refine congrArg (Config.mk sh') (funext fun m => ?_)
    by_cases hm : m = Nat.pair i k
    · rw [hm, Function.update_self]
      exact own k
    · rw [Function.update_of_ne hm]
      by_cases hi : m.unpair.1 = i
      · have hpair : Nat.pair i m.unpair.2 = m := by rw [← hi, Nat.pair_unpair]
        have hne : m.unpair.2 ≠ k := fun he => hm (by rw [← hpair, he])
        rw [← hpair]
        exact ((own _).trans (hothers _ hne)).trans world_procs_pair.symm
      · exact others m hi
  | ticks elapsed hsh hservice =>
    subst hsh hservice
    refine .single (i := 0) (htick _ 0 elapsed) rfl ?_
    rw [Function.update_eq_self, Function.update_eq_self]
    rfl
  | ends ks hends hsh hks =>
    subst hsh
    have hok : ∀ w, ∀ m ∈ ks.map (Nat.pair i), ok w m .crash := by
      intro w m hm
      obtain ⟨k, hk, rfl⟩ := List.mem_map.mp hm
      exact hcrash (hends (List.ne_nil_of_mem hk)) w k
    have hcrashes : ∀ s m p, Proc.step s m p .crash = some (s, .idle) := fun _ _ _ => rfl
    have hreset := Interleaving.ReachableWhen.resets hcrashes f.world (ks.map (Nat.pair i)) hok
    refine cast (congrArg _ ?_) hreset
    refine congrArg (Config.mk f.shared) (funext fun m => ?_)
    by_cases hi : m.unpair.1 = i
    · have hpair : Nat.pair i m.unpair.2 = m := by rw [← hi, Nat.pair_unpair]
      have hmem : m ∈ ks.map (Nat.pair i) ↔ m.unpair.2 ∈ ks := by
        rw [← hpair, Nat.unpair_pair, List.mem_map]
        constructor
        · rintro ⟨k, hk, he⟩
          rwa [← (Nat.pair_eq_pair.mp he).2]
        · exact fun hk => ⟨_, hk, rfl⟩
      have hown := own m.unpair.2
      rw [hpair, hks] at hown
      have hbefore : f.world.procs m = (f.procs i).proc m.unpair.2 := by rw [world_procs, hi]
      exact (if_congr hmem rfl hbefore).trans hown.symm
    · have hmem : m ∉ ks.map (Nat.pair i) := by
        intro hm
        obtain ⟨k, -, rfl⟩ := List.mem_map.mp hm
        exact hi (by rw [Nat.unpair_pair])
      rw [if_neg hmem]
      exact (others m hi).symm

/-- Where the steps of the fleet are steps that meet a condition, the fleet refines the runs of the
system that meet it. -/
theorem ReachableWhen.refines (hf : ReachableWhen okF f)
    (hact : ∀ f i a k b s p, ReachableWhen okF f → okF f i a → World.ReachableWhen ok f.world →
      (f.procs i).Does a k b →
      Proc.step f.shared (Nat.pair i k) ((f.procs i).proc k) b = some (s, p) →
      ok f.world (Nat.pair i k) b)
    (htick : ∀ w m e, ok w m (.tick e))
    (hcrash : ∀ f i a w k, okF f i a → a.Ends → ok w (Nat.pair i k) .crash) :
    World.ReachableWhen ok f.world := by
  refine Interleaving.ReachableWhen.refines world ?_ ?_ hf
  · rintro f ⟨hsh, hstarted⟩
    refine congrArg₂ Config.mk hsh (funext fun m => ?_)
    exact (hstarted _).sound.2 _
  · intro f i a sh' service' hr ha hw hp
    exact world_moves (Service.step_moves (ReachableWhen.sound hr i) hp).2
      (fun k b s p hdoes hstep => hact f i a k b s p hr ha hw hdoes hstep) htick
      fun hends w k => hcrash f i a w k ha hends

/-- Whatever the deployed processes do, restarts and losses included, is a run of the system. -/
theorem fleet_refines (hf : Reachable f) : World.Reachable f.world :=
  ReachableWhen.refines hf (fun _ _ _ _ _ _ _ _ _ _ _ _ => trivial) (fun _ _ _ => trivial)
    fun _ _ _ _ _ _ _ => trivial

/-- An API server, a worker of the agent queue and a runner, all about to begin. -/
def small : Fleet := ⟨.empty, fun i =>
  if i = 1 then .worker ⟨.agentTaskQueue, none, 1, 1 / 10⟩ ⟨0, false, none, [], 0, .top⟩
  else if i = 2 then .runner ⟨1, 30, 3600, seconds 86400⟩ (.start 0)
  else .api [] 0⟩

/-- A request creates the ticket, the worker has it classified and the runner dispatches its
draft. -/
def smallRun : List (ℕ × Action) :=
  [(0, .createTicket Schedule.ticket)] ++ List.replicate 5 (0, .carry 0 Schedule.unlocked) ++
    [(1, .loop Schedule.unlocked []), (1, .carry 0 Schedule.unlocked),
      (1, .answer 0 (.classification Schedule.classification))] ++
    List.replicate 2 (1, .carry 0 Schedule.unlocked) ++
    List.replicate 19 (2, .loop Schedule.unlocked [])

theorem small_initial : Initial small := by
  refine ⟨rfl, fun i => ?_⟩
  unfold small
  simp only
  split
  · exact ⟨0, by simp [DrainLoop.start]⟩
  · split
    · exact ⟨0, le_refl _, rfl⟩
    · exact ⟨rfl, rfl⟩

theorem fleet_refines_small : ∃ f : Fleet, f.shared.db.workflowRun.map (·.status) = [.drafting] ∧
    World.Reachable f.world := by
  have hrun : (small.run Service.step smallRun).map (fun f =>
      decide (f.shared.db.workflowRun.map (·.status) = [.drafting])) = some true := by
    decide +kernel
  obtain ⟨f, hf, hp⟩ := exists_reachableWhen_of_run hrun
  have hf' : Reachable f := hf.of_init fun _ h => h ▸ small_initial
  exact ⟨f, of_decide_eq_true hp, fleet_refines hf'⟩

end Fleet
end TicketFlow
