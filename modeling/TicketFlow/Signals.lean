import TicketFlow.RunTable
import TicketFlow.Threads

/-! # Approval signals

How one action can change the signal table, and what its rows, the runners and the log have in
common: a row is an accepted decision, it is unconsumed until a step saves it, and whatever a runner
resumes an approval with was accepted for that ticket. -/

namespace TicketFlow
open Table
set_option autoImplicit false

/-- The signal of a decision accepted for the ticket. -/
def Event.acceptance (t : TicketId) : Event → Option ℕ
  | .accepted u id _ => if u = t then some id else none
  | _ => none

/-- The signal a saved step of the ticket has consumed. -/
def Event.consumption (t : TicketId) : Event → Option ℕ
  | .saved u _ consumed => if u = t then consumed else none
  | _ => none

/-- The signals accepted for the ticket, newest first. -/
def acceptances (t : TicketId) (log : List Event) : List ℕ := log.filterMap (Event.acceptance t)

/-- The signals the ticket's steps have consumed, newest first. -/
def consumptions (t : TicketId) (log : List Event) : List ℕ := log.filterMap (Event.consumption t)

theorem mem_acceptances {t : TicketId} {id : ℕ} {log : List Event} :
    id ∈ acceptances t log ↔ ∃ d, .accepted t id d ∈ log := by
  unfold acceptances
  rw [List.mem_filterMap]
  constructor
  · rintro ⟨e, he, h⟩
    cases e with
    | accepted u id' d =>
      simp only [Event.acceptance] at h
      split at h
      · rename_i hu
        cases h
        exact ⟨d, hu ▸ he⟩
      · cases h
    | _ => cases h
  · rintro ⟨d, h⟩
    exact ⟨_, h, if_pos rfl⟩

theorem mem_consumptions {t : TicketId} {id : ℕ} {log : List Event} :
    id ∈ consumptions t log ↔ ∃ status, .saved t status (some id) ∈ log := by
  unfold consumptions
  rw [List.mem_filterMap]
  constructor
  · rintro ⟨e, he, h⟩
    cases e with
    | saved u status consumed =>
      simp only [Event.consumption] at h
      split at h
      · rename_i hu
        subst hu h
        exact ⟨status, he⟩
      · cases h
    | _ => cases h
  · rintro ⟨status, h⟩
    exact ⟨_, h, if_pos rfl⟩

/-! ## The four changes -/

/-- Acceptances, and saves that consume a signal. -/
def Event.signals : Event → Bool
  | .accepted _ _ _ | .saved _ _ (some _) => true
  | _ => false

inductive SignalChange (sh : Shared) (p : Proc) (a : Action) (sh' : Shared) (p' : Proc) : Prop
  | same : sh'.db.pendingSignal = sh.db.pendingSignal →
      sh'.db.pendingSignalSeq = sh.db.pendingSignalSeq →
      (∀ e ∈ sh'.log, e ∈ sh.log ∨ e.signals = false) → SignalChange sh p a sh' p'
  | accepted {t d r} : p = .idle → a = .submitApproval t d → r ∈ sh.db.workflowRun →
      Db.Waiting t .awaitingApproval r →
      (∀ s ∈ sh.db.pendingSignal, ¬ Db.Unconsumed t .approvalDecision s) →
      sh'.db.pendingSignal = sh.db.pendingSignal ++
        [⟨sh.db.pendingSignalSeq, t, .approvalDecision, d, false, sh.db.now, none⟩] →
      sh'.db.pendingSignalSeq = sh.db.pendingSignalSeq + 1 →
      sh'.log = .accepted t sh.db.pendingSignalSeq d :: sh.log → SignalChange sh p a sh' p'
  | consumed {run resume out id} : p = .runner (.saving run resume out) → a = .advance → p' = .idle →
      resume.consumedSignalId = some id →
      sh'.db.pendingSignal =
        updateWhere (·.id = id) (Db.consumeSignal sh.db.now) sh.db.pendingSignal →
      sh'.db.pendingSignalSeq = sh.db.pendingSignalSeq →
      sh'.log = .saved run.ticketId out.values.status (some id) :: sh.log →
      SignalChange sh p a sh' p'
  | pruned {maxAge} : p = .janitor (.pruningSignals maxAge) → a = .advance →
      sh'.db = Db.pruneConsumedSignals maxAge sh.db → sh'.log = sh.log → SignalChange sh p a sh' p'

variable {sh sh' : Shared} {i : WorkerId} {p p' : Proc} {a : Action} {t : TicketId}

theorem Effect.signalChange (h : Effect sh i p a sh' p') : SignalChange sh p a sh' p' := by
  have quiet : ∀ {db : Database} {e : Event} {cps : Checkpoints} {p' : Proc},
      db.pendingSignal = sh.db.pendingSignal → db.pendingSignalSeq = sh.db.pendingSignalSeq →
      e.signals = false → SignalChange sh p a ⟨db, cps, e :: sh.log⟩ p' := by
    intro db e cps p' hsig hseq he
    refine .same hsig hseq fun e' he' => ?_
    rcases List.mem_cons.mp he' with rfl | he'
    · exact .inr he
    · exact .inl he'
  cases h with
  | created hf => exact quiet rfl rfl rfl
  | ran hr hnx hrun =>
    rename_i dr inv n db result
    obtain ⟨rows, seq, hf⟩ := n.run_frame inv.checkpoint.values inv.resumes sh.db
    rw [hrun] at hf
    cases hf
    exact quiet rfl rfl rfl
  | accepted hs =>
    obtain ⟨⟨r, hr, hw⟩, hno, rfl, rfl⟩ := Db.addPendingSignalIfWaiting_eq_some hs
    exact .accepted rfl rfl hr hw hno rfl rfl rfl
  | claimed hs =>
    obtain ⟨r, -, -, -, -, -, rfl⟩ := Db.claimRun_eq_some hs
    exact quiet rfl rfl rfl
  | released => exact quiet rfl rfl rfl
  | saved =>
    rename_i run resume out
    cases hid : resume.consumedSignalId with
    | none => exact quiet rfl rfl rfl
    | some id => exact .consumed rfl rfl rfl hid rfl rfl rfl
  | dequeued hs =>
    obtain ⟨r, -, -, -, rfl⟩ := Db.dequeue_eq_some hs
    exact .same rfl rfl fun e he => .inl he
  | refunded => exact quiet rfl rfl rfl
  | replied hs =>
    cases hs
    exact quiet rfl rfl rfl
  | recorded => exact quiet rfl rfl rfl
  | completed hm hs => exact quiet rfl rfl rfl
  | archived hs =>
    simp only [Db.archiveTerminalRuns] at hs
    split at hs
    · cases hs
    · cases hs
      exact .same rfl rfl fun e he => .inl he
  | prunedSignals => exact .pruned rfl rfl rfl rfl
  | _ => exact .same rfl rfl fun e he => .inl he

/-! ## The invariant -/

/-- What the rows and the log have in common. -/
structure SignalsSound (sh : Shared) : Prop where
  ids : (sh.db.pendingSignal.map PendingSignal.id).Nodup
  row : ∀ s ∈ sh.db.pendingSignal, .accepted s.workflowId s.id s.payload ∈ sh.log
  lt_seq : ∀ t id d, .accepted t id d ∈ sh.log → id < sh.db.pendingSignalSeq
  unique : ∀ t u id d d', .accepted t id d ∈ sh.log → .accepted u id d' ∈ sh.log → t = u ∧ d = d'
  saved : ∀ t status id, .saved t status (some id) ∈ sh.log → ∃ d, .accepted t id d ∈ sh.log
  pending : ∀ t id d, .accepted t id d ∈ sh.log → (∀ status, .saved t status (some id) ∉ sh.log) →
    ∃ s ∈ sh.db.pendingSignal, s.id = id ∧ s.workflowId = t ∧ s.payload = d ∧ s.consumed = false
  unsaved : ∀ s ∈ sh.db.pendingSignal, s.consumed = false →
    ∀ u status, .saved u status (some s.id) ∉ sh.log

/-- A decision a runner resumes with was accepted for its ticket, and is the one it consumes. -/
def ResumeSound (log : List Event) (t : TicketId) (resume : ResumeValue) : Prop :=
  match resume.payload with
  | .decision d => ∃ id, resume.consumedSignalId = some id ∧ .accepted t id d ∈ log
  | _ => resume.consumedSignalId = none

/-- The value a runner has chosen. -/
def Proc.resumes : Proc → Option (WorkflowRun × ResumeValue)
  | .runner (.resuming run resume) | .runner (.invoking run resume _)
  | .runner (.saving run resume _) => some (run, resume)
  | _ => none

def Proc.ResumeSound (log : List Event) (p : Proc) : Prop :=
  ∀ run resume, p.resumes = some (run, resume) → TicketFlow.ResumeSound log run.ticketId resume

theorem ResumeSound.mono {log log' : List Event} {resume : ResumeValue} (hl : log <:+ log')
    (h : ResumeSound log t resume) : ResumeSound log' t resume := by
  unfold ResumeSound at h ⊢
  split
  · rename_i d heq
    rw [heq] at h
    obtain ⟨id, hid, hm⟩ := h
    exact ⟨id, hid, hl.subset hm⟩
  · rename_i hno
    split at h
    · rename_i d heq
      exact absurd heq (hno d)
    · exact h

/-- A consumed signal belongs to the ticket of the step that consumes it. -/
theorem ResumeSound.consumes {log : List Event} {resume : ResumeValue} {id : ℕ}
    (h : ResumeSound log t resume) (hid : resume.consumedSignalId = some id) :
    ∃ d, resume.payload = .decision d ∧ .accepted t id d ∈ log := by
  unfold ResumeSound at h
  split at h
  · rename_i d heq
    obtain ⟨id', hid', hm⟩ := h
    rw [hid] at hid'
    cases hid'
    exact ⟨d, heq, hm⟩
  · rw [hid] at h
    cases h

theorem resumeSound_of_ready {env : Envelope} {wakeupAt : Option Time} {resume : ResumeValue}
    (hI : SignalsSound sh) (henv : env.For t)
    (h : Runner.resumeForRun env wakeupAt sh.db = some resume) : ResumeSound sh.log t resume := by
  cases Runner.resumeForRun_found h with
  | @decision u d reply sig happ hsig =>
    obtain ⟨s, n, resumes, hst, hsus⟩ := henv
    subst happ
    cases hsus with
    | approval hw hreply =>
      obtain ⟨hm, hu⟩ := firstBy_mem hsig
      have hrow := hI.row sig hm
      rw [hu.1, hst] at hrow
      exact ⟨sig.id, rfl, hrow⟩
  | @task key x hkey htask hdecision htimeout =>
    unfold ResumeSound
    split
    · rename_i d heq
      exact absurd heq (hdecision d)
    · rfl
  | timeout hsome hnone => rfl

/-- The value a runner has chosen was chosen by it, for the envelope it inspected. -/
theorem Effect.resumes {run : WorkflowRun} {resume : ResumeValue} (h : Effect sh i p a sh' p')
    (hr : p'.resumes = some (run, resume)) : p.resumes = some (run, resume) ∨
    ∃ env, p = .runner (.inspected run env) ∧ sh' = sh ∧
      Runner.resumeForRun env run.wakeupAt sh.db = some resume := by
  cases h with
  | quiet h =>
    cases h with
    | @ended dr inv hres hn =>
      cases dr with
      | createTicket => cases hr
      | step run' resume' => exact .inl hr
    | ready hres =>
      cases hr
      exact .inr ⟨_, rfl, rfl, hres⟩
    | resumed hcp => exact .inl hr
    | _ => cases hr
  | tick elapsed => exact .inl hr
  | @ran dr inv n db result hres hn hrun =>
    cases dr with
    | createTicket => cases hr
    | step run' resume' => exact .inl hr
  | @put dr inv values next hres hn =>
    cases dr with
    | createTicket => cases hr
    | step run' resume' => exact .inl hr
  | @suspended dr inv env hres =>
    cases dr with
    | createTicket => cases hr
    | step run' resume' => exact .inl hr
  | failed hm hs hf => split at hr <;> cases hr
  | _ => cases hr

/-! ## The invariant is kept -/

theorem SignalsSound.same (hI : SignalsSound sh) (hsig : sh'.db.pendingSignal = sh.db.pendingSignal)
    (hseq : sh'.db.pendingSignalSeq = sh.db.pendingSignalSeq) (hlog : sh.log <:+ sh'.log)
    (hnew : ∀ e ∈ sh'.log, e ∈ sh.log ∨ e.signals = false) : SignalsSound sh' := by
  have old : ∀ {e : Event}, e ∈ sh'.log → e.signals = true → e ∈ sh.log := by
    intro e he hs
    refine (hnew e he).resolve_right fun hf => ?_
    rw [hs] at hf
    cases hf
  refine ⟨hsig ▸ hI.ids, ?_, ?_, ?_, ?_, ?_, ?_⟩
  · intro s hs
    rw [hsig] at hs
    exact hlog.subset (hI.row s hs)
  · intro t id d hm
    rw [hseq]
    exact hI.lt_seq t id d (old hm rfl)
  · intro t u id d d' hm hm'
    exact hI.unique t u id d d' (old hm rfl) (old hm' rfl)
  · intro t status id hm
    obtain ⟨d, hd⟩ := hI.saved t status id (old hm rfl)
    exact ⟨d, hlog.subset hd⟩
  · intro t id d hm hno
    rw [hsig]
    exact hI.pending t id d (old hm rfl) fun status hs => hno status (hlog.subset hs)
  · intro s hs hc u status hm
    rw [hsig] at hs
    exact hI.unsaved s hs hc u status (old hm rfl)

theorem SignalsSound.accepts {d : ApprovalDecision} (hI : SignalsSound sh)
    (hsig : sh'.db.pendingSignal = sh.db.pendingSignal ++
      [⟨sh.db.pendingSignalSeq, t, .approvalDecision, d, false, sh.db.now, none⟩])
    (hseq : sh'.db.pendingSignalSeq = sh.db.pendingSignalSeq + 1)
    (hlog : sh'.log = .accepted t sh.db.pendingSignalSeq d :: sh.log) : SignalsSound sh' := by
  have hrow : ∀ s ∈ sh.db.pendingSignal, s.id < sh.db.pendingSignalSeq := fun s hs =>
    hI.lt_seq _ _ _ (hI.row s hs)
  have acc : ∀ {u id d'}, Event.accepted u id d' ∈ sh'.log →
      Event.accepted u id d' ∈ sh.log ∨ u = t ∧ id = sh.db.pendingSignalSeq ∧ d' = d := by
    intro u id d' hm
    rw [hlog] at hm
    rcases List.mem_cons.mp hm with h | h
    · cases h
      exact .inr ⟨rfl, rfl, rfl⟩
    · exact .inl h
  have sav : ∀ {u status id}, Event.saved u status (some id) ∈ sh'.log →
      Event.saved u status (some id) ∈ sh.log := by
    intro u status id hm
    rw [hlog] at hm
    rcases List.mem_cons.mp hm with h | h
    · cases h
    · exact h
  have savlt : ∀ {u status id}, Event.saved u status (some id) ∈ sh'.log →
      id < sh.db.pendingSignalSeq := by
    intro u status id hm
    obtain ⟨d', hd'⟩ := hI.saved u status id (sav hm)
    exact hI.lt_seq _ _ _ hd'
  have suf : sh.log <:+ sh'.log := hlog ▸ List.suffix_cons ..
  refine ⟨?_, ?_, ?_, ?_, ?_, ?_, ?_⟩
  · rw [hsig, List.map_append, List.map_singleton]
    refine List.nodup_append.mpr ⟨hI.ids, by simp, ?_⟩
    intro n hn m hm
    obtain ⟨s, hs, rfl⟩ := List.mem_map.mp hn
    have hlt := hrow s hs
    have heq : m = sh.db.pendingSignalSeq := List.mem_singleton.mp hm
    omega
  · intro s hs
    rw [hsig] at hs
    rcases List.mem_append.mp hs with hs | hs
    · exact suf.subset (hI.row s hs)
    · rw [List.mem_singleton.mp hs, hlog]
      exact List.mem_cons_self
  · intro u id d' hm
    rw [hseq]
    rcases acc hm with h | ⟨-, rfl, -⟩
    · exact Nat.lt_succ_of_lt (hI.lt_seq u id d' h)
    · exact Nat.lt_succ_self _
  · intro u v id d₁ d₂ h₁ h₂
    rcases acc h₁ with h₁ | ⟨rfl, hid₁, rfl⟩
    · rcases acc h₂ with h₂ | ⟨rfl, hid₂, rfl⟩
      · exact hI.unique u v id d₁ d₂ h₁ h₂
      · have hlt := hI.lt_seq u id d₁ h₁
        omega
    · rcases acc h₂ with h₂ | ⟨rfl, hid₂, rfl⟩
      · have hlt := hI.lt_seq v id d₂ h₂
        omega
      · exact ⟨rfl, rfl⟩
  · intro u status id hm
    obtain ⟨d', hd'⟩ := hI.saved u status id (sav hm)
    exact ⟨d', suf.subset hd'⟩
  · intro u id d' hm hno
    rw [hsig]
    rcases acc hm with h | ⟨rfl, rfl, rfl⟩
    · obtain ⟨s, hs, hrest⟩ := hI.pending u id d' h fun status hsv => hno status (suf.subset hsv)
      exact ⟨s, List.mem_append_left _ hs, hrest⟩
    · exact ⟨_, List.mem_append_right _ (List.mem_singleton.mpr rfl), rfl, rfl, rfl, rfl⟩
  · intro s hs hc u status hm
    rw [hsig] at hs
    rcases List.mem_append.mp hs with hs | hs
    · exact hI.unsaved s hs hc u status (sav hm)
    · have hlt := savlt hm
      rw [List.mem_singleton.mp hs] at hlt
      exact absurd hlt (Nat.lt_irrefl _)

theorem SignalsSound.consumes {status : TicketStatus} {id : ℕ} {d : ApprovalDecision}
    (hI : SignalsSound sh) (hacc : .accepted t id d ∈ sh.log)
    (hsig : sh'.db.pendingSignal =
      updateWhere (·.id = id) (Db.consumeSignal sh.db.now) sh.db.pendingSignal)
    (hseq : sh'.db.pendingSignalSeq = sh.db.pendingSignalSeq)
    (hlog : sh'.log = .saved t status (some id) :: sh.log) : SignalsSound sh' := by
  have suf : sh.log <:+ sh'.log := hlog ▸ List.suffix_cons ..
  have acc : ∀ {u id' d'}, Event.accepted u id' d' ∈ sh'.log →
      Event.accepted u id' d' ∈ sh.log := by
    intro u id' d' hm
    rw [hlog] at hm
    rcases List.mem_cons.mp hm with h | h
    · cases h
    · exact h
  refine ⟨?_, ?_, ?_, ?_, ?_, ?_, ?_⟩
  · have hids : ∀ s, s.id = id → (Db.consumeSignal sh.db.now s).id = s.id := fun _ _ => rfl
    rw [hsig, map_updateWhere hids]
    exact hI.ids
  · intro s hs
    rw [hsig] at hs
    rcases mem_updateWhere.mp hs with ⟨s₀, h₀, -, rfl⟩ | ⟨hs, -⟩
    · exact suf.subset (hI.row s₀ h₀)
    · exact suf.subset (hI.row s hs)
  · intro u id' d' hm
    rw [hseq]
    exact hI.lt_seq u id' d' (acc hm)
  · intro u v id' d₁ d₂ h₁ h₂
    exact hI.unique u v id' d₁ d₂ (acc h₁) (acc h₂)
  · intro u st id' hm
    rw [hlog] at hm
    rcases List.mem_cons.mp hm with heq | hm
    · cases heq
      exact ⟨d, suf.subset hacc⟩
    · obtain ⟨d', hd'⟩ := hI.saved u st id' hm
      exact ⟨d', suf.subset hd'⟩
  · intro u id' d' hm hno
    obtain ⟨s, hs, hid', hrest⟩ := hI.pending u id' d' (acc hm) fun st hsv => hno st (suf.subset hsv)
    refine ⟨s, ?_, hid', hrest⟩
    rw [hsig]
    refine mem_updateWhere_of_not hs fun heq => ?_
    -- the consumed signal is this one, and the save that consumes it is now on record
    have hid : id' = id := hid'.symm.trans heq
    obtain ⟨htu, -⟩ := hI.unique t u id d d' hacc (hid ▸ acc hm)
    refine hno status ?_
    rw [hlog, htu, hid]
    exact List.mem_cons_self
  · intro s hs hc u st hm
    rw [hsig] at hs
    rcases mem_updateWhere.mp hs with ⟨s₀, -, -, rfl⟩ | ⟨hs, hne⟩
    · cases hc
    · rw [hlog] at hm
      rcases List.mem_cons.mp hm with heq | hm
      · cases heq
        exact hne rfl
      · exact hI.unsaved s hs hc u st hm

theorem SignalsSound.prunes {maxAge : Time} (hI : SignalsSound sh)
    (hdb : sh'.db = Db.pruneConsumedSignals maxAge sh.db) (hlog : sh'.log = sh.log) :
    SignalsSound sh' := by
  refine ⟨?_, ?_, ?_, ?_, ?_, ?_, ?_⟩
  · rw [hdb]
    exact nodup_filter _ hI.ids
  · intro s hs
    rw [hdb] at hs
    rw [hlog]
    exact hI.row s (List.mem_filter.mp hs).1
  · rw [hdb, hlog]
    exact hI.lt_seq
  · rw [hlog]
    exact hI.unique
  · rw [hlog]
    exact hI.saved
  · intro t id d hm hno
    rw [hlog] at hm hno
    obtain ⟨s, hs, hid, hwf, hp, hc⟩ := hI.pending t id d hm hno
    refine ⟨s, ?_, hid, hwf, hp, hc⟩
    rw [hdb]
    exact List.mem_filter.mpr ⟨hs, by simp [hc]⟩
  · intro s hs hc u status
    rw [hdb] at hs
    rw [hlog]
    exact hI.unsaved s (List.mem_filter.mp hs).1 hc u status

theorem SignalsSound.effect (hI : SignalsSound sh) (hJ : p.ResumeSound sh.log)
    (he : Effect sh i p a sh' p') : SignalsSound sh' := by
  cases he.signalChange with
  | same hsig hseq hnew => exact hI.same hsig hseq he.log_suffix hnew
  | accepted hp ha hr hw hno hsig hseq hlog => exact hI.accepts hsig hseq hlog
  | consumed hp ha hp' hid hsig hseq hlog =>
    subst hp
    obtain ⟨d, -, hacc⟩ := (hJ _ _ rfl).consumes hid
    exact hI.consumes hacc hsig hseq hlog
  | pruned hp ha hdb hlog => exact hI.prunes hdb hlog

/-- In every reachable world the signals are sound and the runners resume with accepted decisions. -/
theorem World.Reachable.signals {w : World} (hw : World.Reachable w) :
    SignalsSound w.shared ∧ ∀ i, (w.procs i).ResumeSound w.shared.log := by
  refine World.ReachableWhen.invariant (I := SignalsSound)
    (J := fun sh _ p => p.ResumeSound sh.log) ?_ (fun _ _ _ h => nomatch h) ?_ hw
  · exact ⟨List.nodup_nil, fun _ h => (nomatch h), fun _ _ _ h => (nomatch h),
      fun _ _ _ _ _ h => (nomatch h), fun _ _ _ h => (nomatch h), fun _ _ _ h => (nomatch h),
      fun _ h => (nomatch h)⟩
  · intro w i a sh' p' hr _ hI hJ he
    have hT := (World.Reachable.threads hr).2 i
    refine ⟨hI.effect (hJ i) he, ?_, fun j _ run resume hres =>
      (hJ j run resume hres).mono he.log_suffix⟩
    intro run resume hres
    rcases he.resumes hres with hold | ⟨env, hp, rfl, hready⟩
    · exact (hJ i run resume hold).mono he.log_suffix
    · rw [hp] at hT
      exact resumeSound_of_ready hI hT hready

end TicketFlow
