import TicketFlow.Deliveries
import TicketFlow.Threads

/-! # Resuming with a settled outcome

A step that nobody disturbs runs to its end. It persists the new state exactly when the suspended
node accepts the value; of the values `_resume_value` builds, only a failed finalize task is
refused. -/

namespace TicketFlow
open Table Interleaving
set_option autoImplicit false

/-- The rest of a step, with nobody else acting: the value it returns, or the exception that leaves
`run_forever`. -/
inductive Runner.Finishes : Shared × Runner.Next → Shared → Except GraphError Bool → Prop
  | next {sh pc sh' r} : Finishes (Runner.advance pc sh) sh' r → Finishes (sh, .at pc) sh' r
  | returned {sh advanced} : Finishes (sh, .returned advanced) sh (.ok advanced)
  | stopped {sh error} : Finishes (sh, .stopped error) sh (.error error)

theorem Runner.Finishes.unique {x : Shared × Runner.Next} {sh₁ sh₂ : Shared}
    {r₁ r₂ : Except GraphError Bool} (h₁ : Runner.Finishes x sh₁ r₁)
    (h₂ : Runner.Finishes x sh₂ r₂) : sh₁ = sh₂ ∧ r₁ = r₂ := by
  induction h₁ with
  | next h ih =>
    cases h₂ with
    | next h' => exact ih h'
  | returned =>
    cases h₂ with
    | returned => exact ⟨rfl, rfl⟩
  | stopped =>
    cases h₂ with
    | stopped => exact ⟨rfl, rfl⟩

/-- A claimed run with a pending interrupt and a value goes on to resume. -/
theorem Runner.finishes_resuming_iff {sh sh' : Shared} {run : WorkflowRun} {env : Envelope}
    {v : ResumeValue} {r : Except GraphError Bool}
    (henv : Runner.pendingEnvelope (sh.checkpoints.get run.ticketId) = some env)
    (hv : Runner.resumeForRun env run.wakeupAt sh.db = some v) :
    Runner.Finishes (sh, .at (.claimed run)) sh' r ↔ Runner.Finishes (sh, .at (.resuming run v)) sh' r := by
  have hclaimed : Runner.advance (.claimed run) sh = (sh, .at (.inspected run env)) := by
    simp only [Runner.advance, henv]
  have hinspected : Runner.advance (.inspected run env) sh = (sh, .at (.resuming run v)) := by
    simp only [Runner.advance, hv]
  constructor
  · intro h
    cases h with
    | next h₁ =>
      rw [hclaimed] at h₁
      cases h₁ with
      | next h₂ =>
        rw [hinspected] at h₂
        exact h₂
  · intro h
    refine .next ?_
    rw [hclaimed]
    refine .next ?_
    rw [hinspected]
    exact h

/-! ## The graph has no cycle -/

/-- How far the node is from `END`. -/
def Node.rank : Option Node → ℕ
  | some .dispatchClassify => 8
  | some .awaitClassify => 7
  | some .dispatchDraft => 6
  | some .awaitDraft => 5
  | some .decideApproval => 4
  | some .prepareApproval => 3
  | some .awaitApproval => 2
  | some .execute => 1
  | none => 0

theorem Node.rank_after (n : Node) (s : TicketState) :
    Node.rank (n.after s) < Node.rank (some n) := by
  cases n with
  | awaitClassify => by_cases h : s.status = .escalated <;> simp [Node.after, h, Node.rank]
  | awaitDraft => by_cases h : s.status = .escalated <;> simp [Node.after, h, Node.rank]
  | decideApproval => cases h : s.needsApproval <;> simp [Node.after, h, Node.rank]
  | _ => simp [Node.after, Node.rank]

theorem Node.rank_eq_zero {next : Option Node} : Node.rank next = 0 ↔ next = none := by
  constructor
  · intro h
    cases next with
    | none => rfl
    | some n => cases n <;> cases h
  · rintro rfl
    rfl

theorem Node.Receives.unique {n : Node} {resumes : List Resume} {value value' : Resume}
    (h : n.Receives resumes value) (h' : n.Receives resumes value') : value = value' := by
  have agent : ∀ {rest rest'}, (resumes = value :: rest ∧ value ≠ .timeout ∨
      resumes = .timeout :: value :: rest) → (resumes = value' :: rest' ∧ value' ≠ .timeout ∨
      resumes = .timeout :: value' :: rest') → value = value' := by
    rintro rest rest' (⟨h, hne⟩ | h) (⟨h', hne'⟩ | h')
    · rw [h] at h'
      exact (List.cons.inj h').1
    · rw [h] at h'
      exact absurd (List.cons.inj h').1 hne
    · rw [h] at h'
      exact absurd (List.cons.inj h').1.symm hne'
    · rw [h] at h'
      exact (List.cons.inj (List.cons.inj h').2).1
  cases n with
  | awaitClassify => exact h.elim fun _ h => h'.elim fun _ h' => agent h h'
  | awaitDraft => exact h.elim fun _ h => h'.elim fun _ h' => agent h h'
  | awaitApproval =>
    obtain ⟨⟨rest, rfl⟩, rest', h'⟩ := h, h'
    exact (List.cons.inj h').1
  | execute =>
    obtain ⟨⟨rest, rfl⟩, rest', h'⟩ := h, h'
    exact (List.cons.inj h').1
  | _ => exact h.elim

theorem Suspends.not_receives {s : TicketState} {n : Node} {resumes : List Resume} {env : Envelope}
    (h : Suspends s n resumes env) (value : Resume) : ¬ n.Receives resumes value := by
  cases h with
  | classifyAgain =>
    rintro ⟨rest, ⟨h, hne⟩ | h⟩
    · cases h
      exact hne rfl
    · cases h
  | draftAgain hc =>
    rintro ⟨rest, ⟨h, hne⟩ | h⟩
    · cases h
      exact hne rfl
    · cases h
  | classify => rintro ⟨rest, ⟨h, -⟩ | h⟩ <;> cases h
  | draft hc => rintro ⟨rest, ⟨h, -⟩ | h⟩ <;> cases h
  | approval hw hd => rintro ⟨rest, h⟩; cases h
  | terminal hc hd => rintro ⟨rest, h⟩; cases h

variable {sh : Shared} {run : WorkflowRun} {v : ResumeValue} {inv : Invocation} {n : Node}
  {s' : TicketState} {db : Database}

/-! ## Running on -/

/-- The step ends by saving the state its graph has reached, at most `rank` nodes from `END`. -/
def Persists (sh : Shared) (x : Shared × Runner.Next) (run : WorkflowRun) (v : ResumeValue)
    (rank : ℕ) : Prop :=
  ∃ (mid : Shared) (out : Output) (cp : Checkpoint), Runner.Finishes x
      (mid.record (Db.saveRun run.ticketId out.values.status (Runner.nextWakeupAt out)
        v.consumedSignalId mid.db) (.saved run.ticketId out.values.status v.consumedSignalId))
      (.ok true) ∧
    mid.checkpoints.get run.ticketId = some cp ∧ cp.values = out.values ∧
    cp.interrupt = out.interrupt ∧ Node.rank cp.next ≤ rank ∧
    ∃ rows seq, mid.db = { sh.db with taskQueue := rows, taskQueueSeq := seq }

/-- A runner inside `ainvoke`, and the checkpoint it continues is the latest. -/
structure Invoking (sh : Shared) (run : WorkflowRun) (v : ResumeValue) (inv : Invocation) : Prop where
  threads : ThreadsSound sh.checkpoints
  sound : Proc.ThreadSound sh.checkpoints (.runner (.invoking run v inv))
  latest : sh.checkpoints.get run.ticketId = some inv.checkpoint
  pending : inv.result = none

theorem Persists.mono {x : Shared × Runner.Next} {rank rank' : ℕ} (hle : rank ≤ rank')
    (h : Persists sh x run v rank) : Persists sh x run v rank' := by
  obtain ⟨mid, out, cp, hfin, hcp, hv, hi, hr, hdb⟩ := h
  exact ⟨mid, out, cp, hfin, hcp, hv, hi, hr.trans hle, hdb⟩

/-- A node that returns an update is two actions: run it, and put the checkpoint. -/
theorem Invoking.update (h : Invoking sh run v inv) (hn : inv.checkpoint.next = some n)
    (hrun : n.run inv.checkpoint.values inv.resumes sh.db = (db, .update s')) :
    ∃ sh₂ inv₂, Invoking sh₂ run v inv₂ ∧ inv₂.offered = none ∧ inv₂.checkpoint.values = s' ∧
      inv₂.checkpoint.next = n.after s' ∧ sh₂.db = db ∧
      (∀ u, u ≠ run.ticketId → sh₂.checkpoints.get u = sh.checkpoints.get u) ∧
      ∀ sh' r, Runner.Finishes (sh₂, .at (.invoking run v inv₂)) sh' r →
        Runner.Finishes (sh, .at (.invoking run v inv)) sh' r := by
  set t := inv.checkpoint.threadId with ht
  set sh₁ := sh.record db (.ran t n inv.checkpoint.values inv.resumes) with hsh₁
  set inv₁ : Invocation := { inv with result := some (.update s') } with hinv₁
  set sh₂ : Shared := { sh₁ with checkpoints := sh₁.checkpoints.put t s' (n.after s') } with hsh₂
  set inv₂ : Invocation := ⟨sh₁.checkpoints.fresh t s' (n.after s'), none, none⟩ with hinv₂
  have hafter : inv₁.checkpoint.next.bind (fun n => n.after s') = n.after s' := by
    rw [hinv₁, hn]
    rfl
  have he₁ : Effect sh 0 ((Driver.step run v).driving inv) .advance sh₁
      ((Driver.step run v).driving inv₁) := .ran h.pending hn hrun
  have he₂ : Effect sh₁ 0 ((Driver.step run v).driving inv₁) .advance sh₂
      ((Driver.step run v).driving inv₂) := .put rfl hafter.symm
  have hT₁ := h.threads.effect h.sound he₁
  have hP₁ := h.sound.acts h.threads he₁
  have hT₂ := hT₁.effect hP₁ he₂
  have hP₂ := hP₁.acts hT₁ he₂
  have hthread : t = run.ticketId := h.sound.1
  have hlatest : sh₂.checkpoints.get run.ticketId = some inv₂.checkpoint := by
    rw [← hthread]
    exact Checkpoints.get_put_self
  refine ⟨sh₂, inv₂, ⟨hT₂, hP₂, hlatest, rfl⟩, rfl, rfl, rfl, rfl, fun u hu => ?_,
    fun sh' r hfin => .next ?_⟩
  · rw [← hthread] at hu
    exact Checkpoints.get_put_of_ne hu
  · have hadv₁ : Runner.advance (.invoking run v inv) sh = (sh₁, .at (.invoking run v inv₁)) := by
      simp only [Runner.advance, Invocation.advance, h.pending, hn, hrun]
      rfl
    have hadv₂ : Runner.advance (.invoking run v inv₁) sh₁ = (sh₂, .at (.invoking run v inv₂)) := by
      simp only [Runner.advance, Invocation.advance, hinv₁, hn]
      rfl
    rw [hadv₁]
    refine .next ?_
    rw [hadv₂]
    exact hfin

/-- The step persists from the node on that follows the update. -/
theorem Invoking.persists_update {rank : ℕ} (h : Invoking sh run v inv)
    (hn : inv.checkpoint.next = some n)
    (hrun : n.run inv.checkpoint.values inv.resumes sh.db = (db, .update s'))
    (hrest : ∀ sh₂ inv₂, Invoking sh₂ run v inv₂ → inv₂.offered = none →
      inv₂.checkpoint.next = n.after s' → Persists sh₂ (sh₂, .at (.invoking run v inv₂)) run v rank) :
    Persists sh (sh, .at (.invoking run v inv)) run v rank := by
  obtain ⟨sh₂, inv₂, h₂, ho₂, -, hn₂, hdb₂, -, hback⟩ := h.update hn hrun
  obtain ⟨mid, out, cp, hfin, hcp, hv, hi, hr, rows, seq, hdb⟩ := hrest sh₂ inv₂ h₂ ho₂ hn₂
  obtain ⟨rows', seq', hframe⟩ := n.run_frame inv.checkpoint.values inv.resumes sh.db
  have hframe : db = { sh.db with taskQueue := rows', taskQueueSeq := seq' } := by rw [← hframe, hrun]
  refine ⟨mid, out, cp, hback _ _ hfin, hcp, hv, hi, hr, rows, seq, ?_⟩
  rw [hdb, hdb₂, hframe]

/-- A node that suspends writes its envelope to the latest checkpoint, and the step saves. -/
theorem Invoking.suspends (h : Invoking sh run v inv) (hn : inv.checkpoint.next = some n)
    {env : Envelope}
    (hrun : n.run inv.checkpoint.values inv.resumes sh.db = (db, .interrupt env)) :
    ∃ mid : Shared, Runner.Finishes (sh, .at (.invoking run v inv))
        (mid.record (Db.saveRun run.ticketId inv.checkpoint.values.status env.wakeupAt
          v.consumedSignalId mid.db)
          (.saved run.ticketId inv.checkpoint.values.status v.consumedSignalId)) (.ok true) ∧
      mid.db = db ∧ mid.checkpoints.get run.ticketId =
        some { inv.checkpoint with resumes := inv.resumes, interrupt := some env } ∧
      ∀ u, u ≠ run.ticketId → mid.checkpoints.get u = sh.checkpoints.get u := by
  set sh₁ := sh.record db (.ran inv.checkpoint.threadId n inv.checkpoint.values inv.resumes)
  set inv₁ : Invocation := { inv with result := some (.interrupt env) } with hinv₁
  set mid : Shared :=
    { sh₁ with checkpoints := sh₁.checkpoints.putWrites inv₁.checkpoint inv₁.resumes env }
  have hthread : inv.checkpoint.threadId = run.ticketId := h.sound.1
  refine ⟨mid, .next ?_, rfl, ?_, fun u hu => ?_⟩
  · have hadv₁ : Runner.advance (.invoking run v inv) sh = (sh₁, .at (.invoking run v inv₁)) := by
      simp only [Runner.advance, Invocation.advance, h.pending, hn, hrun]
      rfl
    have hadv₂ : Runner.advance (.invoking run v inv₁) sh₁ =
        (mid, .at (.saving run v ⟨inv.checkpoint.values, some env⟩)) := by
      simp only [Runner.advance, Invocation.advance, hinv₁]
      rfl
    rw [hadv₁]
    refine .next ?_
    rw [hadv₂]
    exact .next .returned
  · have hget : (sh.checkpoints.putWrites inv.checkpoint inv.resumes env).get run.ticketId = _ :=
      Checkpoints.get_putWrites
    rw [h.latest, Option.map_some, if_pos ⟨rfl, rfl⟩] at hget
    exact hget
  · rw [← hthread] at hu
    exact Checkpoints.get_putWrites_of_ne hu

theorem Invoking.suspended (h : Invoking sh run v inv) (hn : inv.checkpoint.next = some n)
    {env : Envelope}
    (hrun : n.run inv.checkpoint.values inv.resumes sh.db = (db, .interrupt env)) :
    Persists sh (sh, .at (.invoking run v inv)) run v (Node.rank inv.checkpoint.next) := by
  obtain ⟨mid, hfin, rfl, hcp, -⟩ := h.suspends hn hrun
  obtain ⟨rows, seq, hframe⟩ := n.run_frame inv.checkpoint.values inv.resumes sh.db
  rw [hrun] at hframe
  exact ⟨mid, ⟨inv.checkpoint.values, some env⟩, _, hfin, hcp, rfl, rfl, le_rfl, rows, seq, hframe⟩

theorem Invoking.ended (h : Invoking sh run v inv) (hn : inv.checkpoint.next = none)
    (ho : inv.checkpoint.interrupt = none) :
    Persists sh (sh, .at (.invoking run v inv)) run v (Node.rank inv.checkpoint.next) := by
  refine ⟨sh, ⟨inv.checkpoint.values, none⟩, inv.checkpoint, .next ?_, h.latest, rfl, ho, le_rfl,
    sh.db.taskQueue, sh.db.taskQueueSeq, rfl⟩
  have hadv : Runner.advance (.invoking run v inv) sh =
      (sh, .at (.saving run v ⟨inv.checkpoint.values, none⟩)) := by
    simp only [Runner.advance, Invocation.advance, h.pending, hn]
  rw [hadv]
  exact .next .returned

theorem Node.not_receives_nil (n : Node) (value : Resume) : ¬ n.Receives [] value := by
  cases n with
  | awaitClassify => rintro ⟨rest, ⟨h, -⟩ | h⟩ <;> cases h
  | awaitDraft => rintro ⟨rest, ⟨h, -⟩ | h⟩ <;> cases h
  | awaitApproval => rintro ⟨rest, h⟩; cases h
  | execute => rintro ⟨rest, h⟩; cases h
  | _ => exact id

/-- Past its first node an invocation offers nothing, so no node can refuse it. -/
theorem Invoking.persists {rank : ℕ} : ∀ {sh : Shared} {inv : Invocation}, Invoking sh run v inv →
    inv.offered = none → Node.rank inv.checkpoint.next ≤ rank →
    Persists sh (sh, .at (.invoking run v inv)) run v rank := by
  induction rank with
  | zero =>
    intro sh inv h ho hle
    cases hn : inv.checkpoint.next with
    | none =>
      have hi : inv.checkpoint.interrupt = none := by
        refine Option.eq_none_iff_forall_ne_some.mpr fun env he => ?_
        obtain ⟨n, hn', -⟩ := h.sound.2.2.checkpoint.parked env he
        rw [hn] at hn'
        cases hn'
      exact (h.ended hn hi).mono hle
    | some n =>
      rw [hn] at hle
      cases n <;> cases hle
  | succ rank ih =>
    intro sh inv h ho hle
    cases hn : inv.checkpoint.next with
    | none => exact (ih h ho (by rw [hn]; exact Nat.zero_le _)).mono (Nat.le_succ _)
    | some n =>
      have hinv := h.sound.2.2
      have hnil : inv.resumes = [] := by rw [Invocation.resumes, ho, hinv.plain ho]; rfl
      have hran := hinv.ran hn sh.db
      rcases hrun : n.run inv.checkpoint.values inv.resumes sh.db with ⟨db, result⟩
      rw [hrun] at hran
      cases result with
      | update s' =>
        refine (h.persists_update hn hrun fun sh₂ inv₂ h₂ ho₂ hn₂ => ih h₂ ho₂ ?_).mono (Nat.le_succ _)
        have hlt := n.rank_after s'
        rw [hn] at hle
        rw [hn₂]
        omega
      | interrupt env => exact (h.suspended hn hrun).mono hle
      | raise error =>
        cases hran with
        | refused hrec hacc =>
          rw [hnil] at hrec
          exact absurd hrec (n.not_receives_nil _)

/-- A node that accepts the value it receives is left behind, and the step persists. -/
theorem Invoking.accepted {value : Resume} (h : Invoking sh run v inv)
    (hn : inv.checkpoint.next = some n) (hrec : n.Receives inv.resumes value)
    (hacc : n.Accepts inv.checkpoint.values value) :
    Persists sh (sh, .at (.invoking run v inv)) run v (Node.rank (some n) - 1) := by
  have hran := h.sound.2.2.ran hn sh.db
  rcases hrun : n.run inv.checkpoint.values inv.resumes sh.db with ⟨db, result⟩
  rw [hrun] at hran
  cases result with
  | update s' =>
    refine h.persists_update hn hrun fun sh₂ inv₂ h₂ ho₂ hn₂ => h₂.persists ho₂ ?_
    have hlt := n.rank_after s'
    rw [hn₂]
    omega
  | interrupt env => exact absurd hrec (hran.interrupt.not_receives value)
  | raise error =>
    cases hran with
    | refused hrec' hno => exact absurd (hrec.unique hrec' ▸ hacc) hno

/-- A node that refuses the value it receives raises, and the exception leaves `run_forever`. -/
theorem Invoking.refused {value : Resume} (h : Invoking sh run v inv)
    (hn : inv.checkpoint.next = some n) (hrec : n.Receives inv.resumes value)
    (hno : ¬ n.Accepts inv.checkpoint.values value) :
    ∃ sh' error, Runner.Finishes (sh, .at (.invoking run v inv)) sh' (.error error) := by
  have hran := h.sound.2.2.ran hn sh.db
  rcases hrun : n.run inv.checkpoint.values inv.resumes sh.db with ⟨db, result⟩
  rw [hrun] at hran
  cases result with
  | update s' =>
    cases hran with
    | passed ht hs hnone => exact absurd hrec (hnone value)
    | accepted hrec' hacc ht hs => exact absurd (hrec'.unique hrec ▸ hacc) hno
  | interrupt env => exact absurd hrec (hran.interrupt.not_receives value)
  | raise error =>
    refine ⟨sh.record db (.ran inv.checkpoint.threadId n inv.checkpoint.values inv.resumes), error,
      .next ?_⟩
    simp only [Runner.advance, Invocation.advance, h.pending, hn, hrun]
    exact .next .stopped

/-! ## What `_resume_value` builds -/

variable {env : Envelope} {s : TicketState} {resumes : List Resume} {key : IdempotencyKey}

/-- The finalize task a `terminal_task` interrupt waits for has not failed. -/
def Unfailed (env : Envelope) (db : Database) : Prop :=
  match env with
  | .terminalTask key _ _ _ => ∀ r ∈ db.taskQueue, r.idempotencyKey = key → r.status ≠ .failed
  | _ => True

instance (env : Envelope) (db : Database) : Decidable (Unfailed env db) :=
  match env with
  | .terminalTask key _ _ _ =>
    inferInstanceAs (Decidable (∀ r ∈ db.taskQueue, r.idempotencyKey = key → r.status ≠ .failed))
  | .agentTask _ _ _ _ _ | .approvalRequired _ _ _ => isTrue trivial

/-- The value of a settled task: its failure, or its result. -/
theorem taskResumeValue_eq_some (h : Runner.taskResumeValue key db = some v) :
    ∃ r ∈ db.taskQueue, r.idempotencyKey = key ∧
      (r.status = .failed ∧ v.payload = .taskFailed r.error r.permanent ∨
        r.status ≠ .failed ∧ ∃ x, r.result = some x ∧ v.payload = .result x) := by
  obtain ⟨r, hr, hv⟩ := Option.bind_eq_some_iff.mp h
  obtain ⟨value, hvalue, rfl⟩ := Option.map_eq_some_iff.mp hv
  have hset := List.find?_some hr
  refine ⟨r, List.mem_of_find?_eq_some hr, (of_decide_eq_true hset).1, ?_⟩
  unfold Runner.settledValue at hvalue
  split at hvalue
  · rename_i hf
    cases hvalue
    exact .inl ⟨hf, rfl⟩
  · rename_i hf
    obtain ⟨x, hx, rfl⟩ := Option.map_eq_some_iff.mp hvalue
    exact .inr ⟨hf, x, hx, rfl⟩

theorem taskResumeValue_isSome (hT : TasksSound db) :
    (Runner.taskResumeValue key db).isSome ↔
      ∃ r, db.task key = some r ∧ (r.status = .done ∨ r.status = .failed) := by
  constructor
  · intro h
    obtain ⟨v, hv⟩ := Option.isSome_iff_exists.mp h
    obtain ⟨r, hm, hkey, hst⟩ := taskResumeValue_eq_some hv
    refine ⟨r, hkey ▸ task_of_mem hT.keys hm, ?_⟩
    rcases hst with ⟨hfail, -⟩ | ⟨-, x, hx, -⟩
    · exact .inr hfail
    · exact .inl ((hT.answered r hm).done.mp (by rw [hx]; rfl))
  · rintro ⟨r, hr, hst⟩
    obtain ⟨hm, hkey⟩ := Database.task_eq_some hr
    have hset : Runner.Settled key r := ⟨hkey, hst.imp_left (hT.answered r hm).done.mpr⟩
    rw [Runner.taskResumeValue]
    cases hf : db.taskQueue.find? (Runner.Settled key) with
    | none => exact absurd (decide_eq_true hset) (List.find?_eq_none.mp hf r hm)
    | some r' =>
      have hfound := List.find?_some hf
      have hset' : Runner.Settled key r' := of_decide_eq_true hfound
      rw [Option.bind_some, Option.isSome_map, Runner.settledValue]
      split
      · rfl
      · rename_i hne
        rw [Option.isSome_map]
        exact hset'.2.resolve_right hne

/-- An agent task's value is its failure or a result of its own type. -/
theorem agentValue_cases (hT : TasksSound db) (h : Runner.taskResumeValue key db = some v) :
    Graph.isTaskFailed v.payload = true ∨
      ∃ x, v.payload = .result x ∧ ResultFor key.ticket key.taskType x := by
  obtain ⟨r, hr, rfl, ⟨-, hv⟩ | ⟨-, x, hx, hv⟩⟩ := taskResumeValue_eq_some h
  · rw [hv]
    exact .inl rfl
  · have hty := hT.typed r hr
    have hfit := (hT.answered r hr).fits x hx
    rw [hty.type, hty.workflow] at hfit
    exact .inr ⟨x, hv, hfit⟩

theorem classify_accepts (hT : TasksSound db) (hk : key.taskType = .classify)
    (h : Runner.taskResumeValue key db = some v) : Node.Accepts .awaitClassify s v.payload := by
  rcases agentValue_cases hT h with hf | ⟨x, hx, hfit⟩
  · exact .inl hf
  · rw [hk] at hfit
    cases x with
    | classification c => exact .inr ⟨c, hx⟩
    | draft d => exact hfit.elim
    | terminal r => exact hfit.elim

theorem draft_accepts (hT : TasksSound db) (hk : key.taskType = .draft)
    (h : Runner.taskResumeValue key db = some v) : Node.Accepts .awaitDraft s v.payload := by
  rcases agentValue_cases hT h with hf | ⟨x, hx, hfit⟩
  · exact .inl hf
  · rw [hk] at hfit
    cases x with
    | draft d => exact .inr ⟨d, hx⟩
    | classification c => exact hfit.elim
    | terminal r => exact hfit.elim

theorem execute_accepts_iff (hT : TasksSound db) {workflowId : TicketId} {queue : QueueName}
    {result : TicketResult}
    (h : Runner.taskResumeValue (.finalize s.ticket.id) db = some v) :
    Node.Accepts .execute s v.payload ↔
      Unfailed (.terminalTask (.finalize s.ticket.id) workflowId queue result) db := by
  obtain ⟨r, hr, hk, ⟨hf, hv⟩ | ⟨hf, x, hx, hv⟩⟩ := taskResumeValue_eq_some h
  · rw [hv]
    refine iff_of_false ?_ fun hun => hun r hr hk hf
    rintro ⟨x, hx, -⟩
    cases hx
  · have hty := hT.typed r hr
    have hfit := (hT.answered r hr).fits x hx
    rw [hty.type, hty.workflow, hk] at hfit
    rw [hv]
    refine iff_of_true ?_ ?_
    · cases x with
      | terminal x => exact ⟨x, rfl, hfit⟩
      | classification c => exact hfit.elim
      | draft d => exact hfit.elim
    · intro r' hr' hk'
      rwa [eq_of_key hT.keys.keys hr' hr (hk'.trans hk.symm)]

theorem resumeValue_ne_timeout (h : Runner.resumeValue env db = some v) : v.payload ≠ .timeout := by
  unfold Runner.resumeValue at h
  split at h
  · rename_i v' happ
    cases h
    unfold Runner.approvalResumeValue at happ
    split at happ
    · obtain ⟨sig, -, rfl⟩ := Option.map_eq_some_iff.mp happ
      exact nofun
    · cases happ
  · split at h
    · cases h
    · obtain ⟨r, -, -, ⟨-, hv⟩ | ⟨-, x, -, hv⟩⟩ := taskResumeValue_eq_some h <;> rw [hv] <;> exact nofun

theorem Suspends.receives {value : Resume} (h : Suspends s n resumes env) (hne : value ≠ .timeout) :
    n.Receives (resumes ++ [value]) value := by
  cases h with
  | classify => exact ⟨[], .inl ⟨rfl, hne⟩⟩
  | classifyAgain => exact ⟨[], .inr rfl⟩
  | draft hc => exact ⟨[], .inl ⟨rfl, hne⟩⟩
  | draftAgain hc => exact ⟨[], .inr rfl⟩
  | approval hw hd => exact ⟨[], rfl⟩
  | terminal hc hd => exact ⟨[], rfl⟩

/-- The suspended node accepts the value, unless it is the failure of a finalize task. -/
theorem Suspends.accepts_iff (hT : TasksSound db) (h : Suspends s n resumes env)
    (hv : Runner.resumeValue env db = some v) : n.Accepts s v.payload ↔ Unfailed env db := by
  cases h with
  | classify => exact iff_of_true (classify_accepts hT rfl hv) trivial
  | classifyAgain =>
    rename_i redispatched
    cases redispatched <;> exact iff_of_true (classify_accepts hT rfl hv) trivial
  | draft hc => exact iff_of_true (draft_accepts hT rfl hv) trivial
  | draftAgain hc =>
    rename_i redispatched
    cases redispatched <;> exact iff_of_true (draft_accepts hT rfl hv) trivial
  | approval hw hd =>
    refine iff_of_true ?_ trivial
    unfold Runner.resumeValue at hv
    split at hv
    · rename_i v' happ
      cases hv
      obtain ⟨sig, -, rfl⟩ := Option.map_eq_some_iff.mp happ
      exact .inr ⟨_, rfl⟩
    · cases hv
  | terminal hc hd => exact execute_accepts_iff hT hv

/-! ## The step -/

theorem invoking_of_get {cp : Checkpoint} (hTh : ThreadsSound sh.checkpoints)
    (hcp : sh.checkpoints.get run.ticketId = some cp) :
    Invoking sh run v ⟨cp, some v.payload, none⟩ ∧
      Runner.advance (.resuming run v) sh =
        (sh, .at (.invoking run v ⟨cp, some v.payload, none⟩)) := by
  obtain ⟨hs, hlt⟩ := hTh _ _ hcp
  refine ⟨⟨hTh, ⟨Checkpoints.threadId_of_get hcp, ?_, ?_⟩, hcp, rfl⟩, ?_⟩
  · rintro _ ⟨⟩
    rfl
  · exact hs.invocation hcp hlt _ nofun
  · simp only [Runner.advance, Invocation.resume, hcp]
    rfl

/-- A step persists when the suspended node accepts the value it brings. -/
theorem resuming_accepted {cp : Checkpoint} (hTh : ThreadsSound sh.checkpoints)
    (hcp : sh.checkpoints.get run.ticketId = some cp) (hn : cp.next = some n)
    (hrec : n.Receives (cp.resumes ++ [v.payload]) v.payload)
    (hacc : n.Accepts cp.values v.payload) :
    Persists sh (sh, .at (.resuming run v)) run v (Node.rank cp.next - 1) := by
  obtain ⟨hI, hadv⟩ := invoking_of_get (v := v) hTh hcp
  obtain ⟨mid, out, cp', hfin, hrest⟩ := hI.accepted hn hrec hacc
  rw [hn]
  exact ⟨mid, out, cp', .next (hadv ▸ hfin), hrest⟩

/-- From the value on, a step persists or raises, as its suspended node accepts the value or not. -/
theorem resuming_cases {cp : Checkpoint} (hTh : ThreadsSound sh.checkpoints) (hT : TasksSound sh.db)
    (hcp : sh.checkpoints.get run.ticketId = some cp) (henv : cp.interrupt = some env)
    (hv : Runner.resumeValue env sh.db = some v) :
    (Unfailed env sh.db →
      Persists sh (sh, .at (.resuming run v)) run v (Node.rank cp.next - 1)) ∧
    (¬ Unfailed env sh.db →
      ∃ sh' error, Runner.Finishes (sh, .at (.resuming run v)) sh' (.error error)) := by
  obtain ⟨n, hn, hsus⟩ := (hTh _ _ hcp).1.parked _ henv
  have hrec : n.Receives (cp.resumes ++ [v.payload]) v.payload :=
    hsus.receives (resumeValue_ne_timeout hv)
  have hacc := hsus.accepts_iff hT hv
  constructor
  · intro hun
    exact resuming_accepted hTh hcp hn hrec (hacc.mpr hun)
  · intro hun
    obtain ⟨hI, hadv⟩ := invoking_of_get (v := v) hTh hcp
    obtain ⟨sh', error, hfin⟩ := hI.refused hn hrec (mt hacc.mp hun)
    exact ⟨sh', error, .next (hadv ▸ hfin)⟩

/-- Whatever its awaited item has come to, a parked ticket's step leaves the node and persists,
unless the item is a finalize task that failed. -/
theorem settled_outcome_persists {w : World} (hw : World.Reachable w) {cp : Checkpoint}
    (hcp : w.shared.checkpoints.get run.ticketId = some cp) (henv : cp.interrupt = some env)
    (hv : Runner.resumeValue env w.shared.db = some v) :
    Persists w.shared (w.shared, .at (.resuming run v)) run v (Node.rank cp.next - 1) ↔
      Unfailed env w.shared.db := by
  obtain ⟨hok, herr⟩ := resuming_cases hw.threads.1 hw.tasks.1 hcp henv hv
  refine ⟨fun hp => ?_, hok⟩
  by_contra hun
  obtain ⟨sh', error, hfail⟩ := herr hun
  obtain ⟨mid, out, cp', hfin, -⟩ := hp
  cases (hfin.unique hfail).2

/-- A parked ticket with a settled outcome, seen by a test. -/
def Settled (p : Envelope → Database → Bool) (w : World) : Bool :=
  match w.shared.checkpoints.get 7 with
  | none => false
  | some cp => match cp.interrupt with
    | none => false
    | some env => (Runner.resumeValue env w.shared.db).isSome && p env w.shared.db

theorem settled_iff {p : Envelope → Database → Bool} {w : World} (h : Settled p w = true) :
    ∃ cp env v, w.shared.checkpoints.get 7 = some cp ∧ cp.interrupt = some env ∧
      Runner.resumeValue env w.shared.db = some v ∧ p env w.shared.db = true := by
  unfold Settled at h
  split at h
  · cases h
  · rename_i cp hcp
    split at h
    · cases h
    · rename_i env henv
      obtain ⟨hsome, hp⟩ := Bool.and_eq_true_iff.mp h
      obtain ⟨v, hv⟩ := Option.isSome_iff_exists.mp hsome
      exact ⟨cp, env, v, hcp, henv, hv, hp⟩

/-- A drafted ticket's step persists. -/
theorem settled_outcome_persists_draft : ∃ w run v cp, World.Reachable w ∧
    w.shared.checkpoints.get 7 = some cp ∧
    Persists w.shared (w.shared, .at (.resuming run v)) run v (Node.rank cp.next - 1) := by
  have hrun : (World.initial.run Proc.step (Schedule.drafting ++
      Schedule.work 1 .agentTaskQueue (.draft Schedule.riskyDraft))).map
        (Settled fun env db => decide (Unfailed env db)) = some true := by decide +kernel
  obtain ⟨w, hw, hp⟩ := exists_reachableWhen_of_run hrun
  obtain ⟨cp, env, v, hcp, henv, hv, hun⟩ := settled_iff hp
  set run := Db.newRun 7 .drafting none 0
  have hget : w.shared.checkpoints.get run.ticketId = some cp := hcp
  exact ⟨w, run, v, cp, hw, hcp,
    (settled_outcome_persists hw hget henv hv).mpr (of_decide_eq_true hun)⟩

/-- A ticket whose finalize task has failed makes every step that claims it raise. -/
theorem failed_finalize_raises : ¬ ∀ w, World.Reachable w → ∀ run cp env v,
    w.shared.checkpoints.get run.ticketId = some cp → cp.interrupt = some env →
    Runner.resumeValue env w.shared.db = some v →
    Persists w.shared (w.shared, .at (.resuming run v)) run v (Node.rank cp.next - 1) := by
  intro h
  have hrun : (World.initial.run Proc.step Schedule.finalizeFailed).map
      (Settled fun env db => decide (¬ Unfailed env db)) = some true := by decide +kernel
  obtain ⟨w, hw, hp⟩ := exists_reachableWhen_of_run hrun
  obtain ⟨cp, env, v, hcp, henv, hv, hun⟩ := settled_iff hp
  set run := Db.newRun 7 .drafting none 0
  obtain ⟨mid, out, cp', hfin, -⟩ := h w hw run cp env v hcp henv hv
  have hcp : w.shared.checkpoints.get run.ticketId = some cp := hcp
  obtain ⟨sh', error, hfail⟩ := (resuming_cases (World.Reachable.threads hw).1
    (World.Reachable.tasks hw).1 hcp henv hv).2 (of_decide_eq_true hun)
  cases (hfin.unique hfail).2

end TicketFlow
