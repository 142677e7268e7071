import TicketFlow.Stages
import TicketFlow.Steps

/-! # Threads

How one action can change the latest checkpoint of a thread, and what every checkpoint, running
invocation and output holds: a state fit for its next node, of the ticket the thread is named
after. -/

namespace TicketFlow
open Table
set_option autoImplicit false

/-! ## The four changes -/

inductive ThreadChange (sh : Shared) (p : Proc) (a : Action) (sh' : Shared) (p' : Proc)
    (t : TicketId) : Prop
  | same : sh'.checkpoints.get t = sh.checkpoints.get t → ThreadChange sh p a sh' p' t
  | created {ticket : Ticket} : p = .idle → a = .createTicket ticket → ticket.id = t →
      (∀ e ∈ sh.log, e.createdId ≠ some t) → sh'.db = sh.db → sh'.log = .created ticket :: sh.log →
      sh'.checkpoints.seq = sh.checkpoints.seq + 1 →
      sh'.checkpoints.get t = some (sh.checkpoints.fresh t { ticket := ticket, status := .received }
        (some .dispatchClassify)) → ThreadChange sh p a sh' p' t
  | put {dr : Driver} {inv : Invocation} {values next} : p = dr.driving inv → a = .advance →
      inv.checkpoint.threadId = t → inv.result = some (.update values) →
      next = inv.checkpoint.next.bind (fun n => n.after values) →
      p' = dr.driving ⟨sh.checkpoints.fresh t values next, none, none⟩ → sh'.db = sh.db →
      sh'.log = sh.log → sh'.checkpoints.seq = sh.checkpoints.seq + 1 →
      sh'.checkpoints.get t = some (sh.checkpoints.fresh t values next) →
      ThreadChange sh p a sh' p' t
  | suspended {dr : Driver} {inv : Invocation} {env cp} : p = dr.driving inv → a = .advance →
      inv.checkpoint.threadId = t → inv.result = some (.interrupt env) →
      sh.checkpoints.get t = some cp → cp.checkpointId = inv.checkpoint.checkpointId →
      p' = dr.returned inv ⟨inv.checkpoint.values, some env⟩ → sh'.db = sh.db → sh'.log = sh.log →
      sh'.checkpoints.get t = some { cp with resumes := inv.resumes, interrupt := some env } →
      ThreadChange sh p a sh' p' t
  | deleted {rest maxAge} : p = .janitor (.deletingThreads (t :: rest) maxAge) → a = .advance →
      sh'.checkpoints.get t = none → ThreadChange sh p a sh' p' t

variable {sh sh' : Shared} {i : WorkerId} {p p' : Proc} {a : Action} {t : TicketId}

theorem Effect.threadChange (h : Effect sh i p a sh' p') (t : TicketId) :
    ThreadChange sh p a sh' p' t := by
  cases h with
  | created hf =>
    rename_i ticket
    by_cases ht : t = ticket.id
    · subst ht
      exact .created rfl rfl rfl hf rfl rfl rfl Checkpoints.get_put_self
    · exact .same (Checkpoints.get_put_of_ne ht)
  | ran hr hnx hrun => exact .same rfl
  | put hr hnx =>
    rename_i dr inv values next
    by_cases ht : t = inv.checkpoint.threadId
    · subst ht
      exact .put rfl rfl rfl hr hnx rfl rfl rfl rfl Checkpoints.get_put_self
    · exact .same (Checkpoints.get_put_of_ne ht)
  | suspended hr =>
    rename_i dr inv env
    have hget : (sh.checkpoints.putWrites inv.checkpoint inv.resumes env).get t = _ :=
      Checkpoints.get_putWrites
    cases hcp : sh.checkpoints.get t with
    | none =>
      rw [hcp] at hget
      exact .same (hget.trans hcp.symm)
    | some cp =>
      rw [hcp, Option.map_some] at hget
      by_cases hid : cp.threadId = inv.checkpoint.threadId ∧
          cp.checkpointId = inv.checkpoint.checkpointId
      · rw [if_pos hid] at hget
        have ht := Checkpoints.threadId_of_get hcp
        exact .suspended rfl rfl (hid.1.symm.trans ht) hr hcp hid.2 rfl rfl rfl hget
      · rw [if_neg hid] at hget
        exact .same (hget.trans hcp.symm)
  | deleted =>
    rename_i u rest maxAge
    by_cases ht : t = u
    · subst ht
      exact .deleted rfl rfl Checkpoints.get_deleteThread_self
    · exact .same (Checkpoints.get_deleteThread_of_ne ht)
  | _ => exact .same rfl

theorem Effect.checkpointSeq_le (h : Effect sh i p a sh' p') :
    sh.checkpoints.seq ≤ sh'.checkpoints.seq := by
  cases h with
  | created hf => exact Nat.le_succ _
  | put hr hnx => exact Nat.le_succ _
  | _ => exact le_rfl

/-! ## Sound checkpoints, invocations and outputs -/

structure Checkpoint.Sound (cp : Checkpoint) : Prop where
  ticket : cp.values.ticket.id = cp.threadId
  state : StateFor cp.values cp.next
  parked : ∀ env ∈ cp.interrupt, ∃ n, cp.next = some n ∧ Suspends cp.values n cp.resumes env
  fresh : cp.interrupt = none → cp.resumes = []

/-- The latest checkpoint of every thread is sound, and its id has been given out. -/
def ThreadsSound (c : Checkpoints) : Prop :=
  ∀ t cp, c.get t = some cp → cp.Sound ∧ cp.checkpointId < c.seq

/-- The invocation's copy of a checkpoint is sound, and while that checkpoint is the latest the
copy is faithful. -/
structure Invocation.Sound (c : Checkpoints) (inv : Invocation) : Prop where
  checkpoint : inv.checkpoint.Sound
  lt_seq : inv.checkpoint.checkpointId < c.seq
  copy : ∀ cp, c.get inv.checkpoint.threadId = some cp →
    cp.checkpointId = inv.checkpoint.checkpointId →
    cp.values = inv.checkpoint.values ∧ cp.next = inv.checkpoint.next
  plain : inv.offered = none → inv.checkpoint.resumes = []
  result : ∀ r ∈ inv.result, ∃ n, inv.checkpoint.next = some n ∧
    Ran inv.checkpoint.values n inv.resumes r

/-- What `ainvoke` returned for the thread. -/
structure Output.Sound (t : TicketId) (out : Output) : Prop where
  ticket : out.values.ticket.id = t
  ended : out.interrupt = none → StateFor out.values none
  parked : ∀ env ∈ out.interrupt, ∃ n resumes, StateFor out.values (some n) ∧
    Suspends out.values n resumes env

/-- An envelope some node shows for the ticket. -/
def Envelope.For (t : TicketId) (env : Envelope) : Prop :=
  ∃ s n resumes, s.ticket.id = t ∧ Suspends s n resumes env

/-- Only an agent stage has a value on record while it is suspended, and it is a timeout. -/
theorem Checkpoint.Sound.resumes {cp : Checkpoint} (h : cp.Sound) : cp.resumes = [] ∨
    cp.resumes = [.timeout] ∧ (cp.next = some .awaitClassify ∨ cp.next = some .awaitDraft) := by
  cases hi : cp.interrupt with
  | none => exact .inl (h.fresh hi)
  | some env =>
    obtain ⟨n, hn, hsus⟩ := h.parked env hi
    generalize hr : cp.resumes = resumes at hsus
    cases hsus with
    | classifyAgain => exact .inr ⟨rfl, .inl hn⟩
    | draftAgain hc => exact .inr ⟨rfl, .inr hn⟩
    | _ => exact .inl rfl

/-- What a process knows of the thread it is working on. -/
def Proc.ThreadSound (c : Checkpoints) : Proc → Prop
  | .api (.seeding inv) => inv.offered = none ∧ inv.Sound c
  | .api (.seeded t out) => out.Sound t
  | .runner (.inspected run env) => env.For run.ticketId
  | .runner (.invoking run resume inv) => inv.checkpoint.threadId = run.ticketId ∧
      (∀ value ∈ inv.offered, value = resume.payload) ∧ inv.Sound c
  | .runner (.saving run _ out) => out.Sound run.ticketId
  | .janitor (.projecting t values _) => values.ticket.id = t ∧ ∃ next, StateFor values next
  | _ => True

/-! ## One action -/

theorem Invocation.Sound.ran {c : Checkpoints} {inv : Invocation} {n : Node} (h : inv.Sound c)
    (hn : inv.checkpoint.next = some n) (db : Database) :
    Ran inv.checkpoint.values n inv.resumes (n.run inv.checkpoint.values inv.resumes db).2 := by
  have hs := h.checkpoint.state
  rw [hn] at hs
  exact Node.run_ran hs inv.resumes db

/-- An update leads to a state fit for the next node. -/
theorem Ran.update {s s' : TicketState} {n : Node} {resumes : List Resume}
    (h : Ran s n resumes (.update s')) : s'.ticket = s.ticket ∧ StateFor s' (n.after s') := by
  cases h with
  | passed ht hs hno => exact ⟨ht, hs⟩
  | accepted hr hacc ht hs => exact ⟨ht, hs⟩

theorem Ran.interrupt {s : TicketState} {n : Node} {resumes : List Resume} {env : Envelope}
    (h : Ran s n resumes (.interrupt env)) : Suspends s n resumes env := by
  cases h with
  | suspended hs => exact hs

theorem Invocation.Sound.fresh {c : Checkpoints} {inv : Invocation} {values : TicketState}
    (h : inv.Sound c) (hr : inv.result = some (.update values)) :
    (c.fresh inv.checkpoint.threadId values
      (inv.checkpoint.next.bind fun n => n.after values)).Sound := by
  obtain ⟨n, hn, hran⟩ := h.result _ hr
  obtain ⟨ht, hs⟩ := hran.update
  refine ⟨?_, ?_, fun _ he => (nomatch he), fun _ => rfl⟩
  · change values.ticket.id = _
    rw [ht]
    exact h.checkpoint.ticket
  · change StateFor values (inv.checkpoint.next.bind fun n => n.after values)
    rw [hn]
    exact hs

theorem Invocation.Sound.effect {inv : Invocation} (he : Effect sh i p a sh' p') (h : inv.Sound sh.checkpoints) : inv.Sound sh'.checkpoints := by
  refine ⟨h.checkpoint, h.lt_seq.trans_le he.checkpointSeq_le, ?_, h.plain, h.result⟩
  intro cp hcp hid
  have hlt := h.lt_seq
  cases he.threadChange inv.checkpoint.threadId with
  | same heq => exact h.copy cp (heq.symm.trans hcp) hid
  | created hp ha ht hf hdb hlog hseq heq =>
    rw [hcp] at heq
    cases heq
    exact absurd hid (Nat.ne_of_gt hlt)
  | put hp ha ht hr hn hp' hdb hlog hseq heq =>
    rw [hcp] at heq
    cases heq
    exact absurd hid (Nat.ne_of_gt hlt)
  | suspended hp ha ht hr hcp₀ hid₀ hp' hdb hlog heq =>
    rename_i dr inv' env cp₀
    rw [hcp] at heq
    cases heq
    exact h.copy cp₀ hcp₀ hid
  | deleted hp ha heq =>
    rw [hcp] at heq
    cases heq

theorem Proc.ThreadSound.effect {q : Proc} (he : Effect sh i p a sh' p')
    (h : q.ThreadSound sh.checkpoints) : q.ThreadSound sh'.checkpoints := by
  unfold Proc.ThreadSound at h ⊢
  split
  · exact ⟨h.1, Invocation.Sound.effect he h.2⟩
  · exact h
  · exact h
  · exact ⟨h.1, h.2.1, Invocation.Sound.effect he h.2.2⟩
  · exact h
  · exact h
  · trivial

theorem Proc.ThreadSound.invocation {c : Checkpoints} {dr : Driver} {inv : Invocation}
    (h : (dr.driving inv).ThreadSound c) : inv.Sound c := by
  cases dr with
  | createTicket => exact h.2
  | step run resume => exact h.2.2

theorem Proc.ThreadSound.driving {c c' : Checkpoints} {dr : Driver} {inv inv' : Invocation}
    (h : (dr.driving inv).ThreadSound c) (ht : inv'.checkpoint.threadId = inv.checkpoint.threadId)
    (ho : inv'.offered = inv.offered ∨ inv'.offered = none) (hs : inv'.Sound c') :
    (dr.driving inv').ThreadSound c' := by
  cases dr with
  | createTicket => exact ⟨ho.elim (fun he => he.trans h.1) id, hs⟩
  | step run resume =>
    refine ⟨ht.trans h.1, fun value hv => ?_, hs⟩
    rcases ho with he | he
    · rw [he] at hv
      exact h.2.1 value hv
    · rw [he] at hv
      cases hv

theorem Proc.ThreadSound.returned {c c' : Checkpoints} {dr : Driver} {inv : Invocation}
    {out : Output} (h : (dr.driving inv).ThreadSound c) (hs : out.Sound inv.checkpoint.threadId) :
    (dr.returned inv out).ThreadSound c' := by
  cases dr with
  | createTicket => exact hs
  | step run resume =>
    change out.Sound run.ticketId
    rw [← h.1]
    exact hs

theorem ThreadsSound.effect (hT : ThreadsSound sh.checkpoints) (hP : p.ThreadSound sh.checkpoints)
    (he : Effect sh i p a sh' p') : ThreadsSound sh'.checkpoints := by
  intro t cp hcp
  have hle := he.checkpointSeq_le
  cases he.threadChange t with
  | same heq =>
    obtain ⟨hs, hlt⟩ := hT t cp (heq.symm.trans hcp)
    exact ⟨hs, hlt.trans_le hle⟩
  | created hp ha ht hf hdb hlog hseq heq =>
    rw [hcp] at heq
    cases heq
    refine ⟨⟨ht, rfl, fun _ h => (nomatch h), fun _ => rfl⟩, ?_⟩
    rw [hseq]
    exact Nat.lt_succ_self _
  | put hp ha ht hr hn hp' hdb hlog hseq heq =>
    rename_i dr inv values next
    rw [hcp] at heq
    cases heq
    subst hp hn ht
    refine ⟨(Proc.ThreadSound.invocation hP).fresh hr, ?_⟩
    rw [hseq]
    exact Nat.lt_succ_self _
  | suspended hp ha ht hr hcp₀ hid hp' hdb hlog heq =>
    rename_i dr inv env cp₀
    rw [hcp] at heq
    cases heq
    subst hp ht
    have hinv := Proc.ThreadSound.invocation hP
    obtain ⟨hs, hlt⟩ := hT _ cp₀ hcp₀
    obtain ⟨hv, hn⟩ := hinv.copy cp₀ hcp₀ hid
    obtain ⟨n, hnext, hran⟩ := hinv.result _ hr
    refine ⟨⟨hs.ticket, hs.state, ?_, fun h => (nomatch h)⟩, hlt.trans_le hle⟩
    rintro _ ⟨⟩
    exact ⟨n, hn.trans hnext, hv ▸ hran.interrupt⟩
  | deleted hp ha heq =>
    rw [hcp] at heq
    cases heq

/-- A checkpoint just put is the latest, and its writer's copy of it is sound. -/
theorem Checkpoint.Sound.invocation {cp : Checkpoint} {c : Checkpoints} {t : TicketId}
    (h : cp.Sound) (hget : c.get t = some cp) (hlt : cp.checkpointId < c.seq) (offered : Option Resume)
    (hplain : offered = none → cp.resumes = []) : Invocation.Sound c ⟨cp, offered, none⟩ := by
  refine ⟨h, hlt, ?_, hplain, fun _ hr => nomatch hr⟩
  intro cp' hcp' _
  rw [Checkpoints.threadId_of_get hget] at hcp'
  rw [hget] at hcp'
  cases hcp'
  exact ⟨rfl, rfl⟩

theorem Proc.ThreadSound.acts (hT : ThreadsSound sh.checkpoints) (hP : p.ThreadSound sh.checkpoints)
    (he : Effect sh i p a sh' p') : p'.ThreadSound sh'.checkpoints := by
  have hT' := hT.effect hP he
  have stays := hP.effect he
  cases he with
  | quiet h =>
    cases h with
    | ended hr hn =>
      rename_i dr inv
      have hinv := Proc.ThreadSound.invocation hP
      refine Proc.ThreadSound.returned hP ⟨hinv.checkpoint.ticket, fun _ => ?_, fun _ h => nomatch h⟩
      have hs := hinv.checkpoint.state
      rwa [hn] at hs
    | inspected hcp henv =>
      obtain ⟨hs, -⟩ := hT _ _ hcp
      obtain ⟨n, -, hsus⟩ := hs.parked _ henv
      exact ⟨_, n, _, hs.ticket.trans (Checkpoints.threadId_of_get hcp), hsus⟩
    | resumed hcp =>
      obtain ⟨hs, hlt⟩ := hT _ _ hcp
      refine ⟨Checkpoints.threadId_of_get hcp, ?_, hs.invocation hcp hlt _ fun h => nomatch h⟩
      rintro _ ⟨⟩
      rfl
    | projecting hcp =>
      obtain ⟨hs, -⟩ := hT _ _ hcp
      exact ⟨hs.ticket.trans (Checkpoints.threadId_of_get hcp), _, hs.state⟩
    | _ => trivial
  | tick elapsed => exact stays
  | created hf =>
    rename_i ticket
    have hget : (Invocation.input ticket sh).1.checkpoints.get ticket.id = some _ :=
      Checkpoints.get_put_self
    obtain ⟨hs, hlt⟩ := hT' _ _ hget
    exact ⟨rfl, hs.invocation hget hlt none fun _ => rfl⟩
  | ran hr hnx hrun =>
    rename_i dr inv n db result
    have hinv := Proc.ThreadSound.invocation hP
    refine Proc.ThreadSound.driving hP rfl (.inl rfl)
      ⟨hinv.checkpoint, hinv.lt_seq, hinv.copy, hinv.plain, ?_⟩
    rintro _ ⟨⟩
    have hran := hinv.ran hnx sh.db
    rw [hrun] at hran
    exact ⟨n, hnx, hran⟩
  | put hr hnx =>
    rename_i dr inv values next
    have hget : (sh.checkpoints.put inv.checkpoint.threadId values next).get _ = some _ :=
      Checkpoints.get_put_self
    obtain ⟨hs, hlt⟩ := hT' _ _ hget
    exact Proc.ThreadSound.driving hP rfl (.inr rfl) (hs.invocation hget hlt none fun _ => rfl)
  | suspended hr =>
    rename_i dr inv env
    have hinv := Proc.ThreadSound.invocation hP
    obtain ⟨n, hn, hran⟩ := hinv.result _ hr
    have hs := hinv.checkpoint.state
    rw [hn] at hs
    refine Proc.ThreadSound.returned hP ⟨hinv.checkpoint.ticket, fun h => (nomatch h), ?_⟩
    rintro _ ⟨⟩
    exact ⟨n, _, hs, hran.interrupt⟩
  | failed hm hs hf => split <;> trivial
  | _ => trivial

/-- In every reachable world the threads are sound and every process knows what it should. -/
theorem World.Reachable.threads {w : World} (hw : World.Reachable w) :
    ThreadsSound w.shared.checkpoints ∧ ∀ i, (w.procs i).ThreadSound w.shared.checkpoints := by
  refine World.ReachableWhen.invariant (I := fun sh => ThreadsSound sh.checkpoints)
    (J := fun sh _ p => p.ThreadSound sh.checkpoints) (fun _ _ h => nomatch h) (fun _ => trivial) ?_ hw
  intro w i a sh' p' _ _ hI hJ he
  exact ⟨hI.effect (hJ i) he, (hJ i).acts hI he, fun j _ => (hJ j).effect he⟩

end TicketFlow
