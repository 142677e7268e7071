import TicketFlow.ExactlyOnce
import TicketFlow.Overtaking
import TicketFlow.Provenance

/-! # Stored results

A finalize task is completed after its result was saved to the read model, and a thread comes to its
end with the result of its task. So a thread at its end has a stored result, whatever happens to its
rows. -/

namespace TicketFlow
open Table Interleaving
set_option autoImplicit false

/-- The ticket has a row in `ticket_results`. -/
def Stored (db : Database) (t : TicketId) : Prop := (Readmodel.loadResult t db).isSome

/-- The result was saved to the read model. -/
def Saved (log : List Event) (result : TicketResult) : Prop :=
  ∃ payload, .savedResult payload result ∈ log

/-- What was saved is stored, and a thread at its end has a stored result. -/
structure ResultsSound (sh : Shared) : Prop where
  saved : ∀ payload result, .savedResult payload result ∈ sh.log → Stored sh.db result.ticketId
  ended : ∀ t cp, sh.checkpoints.get t = some cp → cp.next = none → Stored sh.db t

/-- What a process knows of the result it brings, and of the end it leads to. -/
structure ResultKnows (sh : Shared) (p : Proc) : Prop where
  brought : ∀ run v result, p.resumes = some (run, v) → v.payload = .result (.terminal result) →
    Stored sh.db result.ticketId
  ends : ∀ inv s, p.invocation = some inv → inv.result = some (.update s) →
    (inv.checkpoint.next.bind fun n => n.after s) = none → Stored sh.db inv.checkpoint.threadId

variable {sh sh' : Shared} {w w' : World} {i : WorkerId} {p p' : Proc} {a : Action} {t : TicketId}
  {db : Database} {n : Node} {s s' : TicketState} {resumes : List Resume} {result : TicketResult}
  {env : Envelope} {run : WorkflowRun} {v : ResumeValue}

theorem stored_iff : Stored db t ↔ ∃ row ∈ db.ticketResults, row.1 = t := by
  rw [Stored, Readmodel.loadResult, Option.isSome_map, List.find?_isSome]
  simp

theorem stored_congr (h : db.ticketResults = sh.db.ticketResults) (hs : Stored sh.db t) :
    Stored db t := by
  rw [stored_iff, h]
  exact stored_iff.mp hs

/-! ## The read model -/

theorem stored_saveResult_self : Stored (Readmodel.saveResult result db) result.ticketId := by
  rw [stored_iff]
  simp only [Readmodel.saveResult]
  split
  · rename_i h
    obtain ⟨row, hr, hk⟩ := h
    exact ⟨(row.1, result), mem_updateWhere_of (f := fun r => (r.1, result)) hr hk, hk⟩
  · exact ⟨_, List.mem_append_right _ (List.mem_singleton.mpr rfl), rfl⟩

theorem stored_saveResult (h : Stored db t) : Stored (Readmodel.saveResult result db) t := by
  obtain ⟨row, hr, hk⟩ := stored_iff.mp h
  by_cases he : t = result.ticketId
  · subst he
    exact stored_saveResult_self
  · rw [stored_iff]
    simp only [Readmodel.saveResult]
    split
    · exact ⟨row, mem_updateWhere_of_not hr (by rw [hk]; exact he), hk⟩
    · exact ⟨row, List.mem_append_left _ hr, hk⟩

theorem Effect.results (h : Effect sh i p a sh' p') :
    (sh'.db.ticketResults = sh.db.ticketResults ∧
      ∀ payload result, .savedResult payload result ∈ sh'.log →
        .savedResult payload result ∈ sh.log) ∨
    ∃ payload result, sh'.db = Readmodel.saveResult result sh.db ∧
      sh'.log = .savedResult payload result :: sh.log := by
  have other : ∀ {e : Event}, (∀ payload result, .savedResult payload result = e → False) →
      ∀ payload result, .savedResult payload result ∈ e :: sh.log →
        .savedResult payload result ∈ sh.log :=
    fun hne _ _ hm => (List.mem_cons.mp hm).resolve_left (hne _ _)
  cases h with
  | created hf => exact .inl ⟨rfl, other fun _ _ he => nomatch he⟩
  | @ran dr inv n db result hr hn hrun =>
    obtain ⟨rows, seq, hf⟩ := n.run_frame inv.checkpoint.values inv.resumes sh.db
    rw [hrun] at hf
    cases hf
    exact .inl ⟨rfl, other fun _ _ he => nomatch he⟩
  | accepted hs =>
    obtain ⟨-, -, rfl, rfl⟩ := Db.addPendingSignalIfWaiting_eq_some hs
    exact .inl ⟨rfl, other fun _ _ he => nomatch he⟩
  | claimed hs =>
    obtain ⟨r, -, -, -, -, -, rfl⟩ := Db.claimRun_eq_some hs
    exact .inl ⟨rfl, other fun _ _ he => nomatch he⟩
  | released => exact .inl ⟨rfl, other fun _ _ he => nomatch he⟩
  | saved => exact .inl ⟨rfl, other fun _ _ he => nomatch he⟩
  | dequeued hs =>
    obtain ⟨r, -, -, -, rfl⟩ := Db.dequeue_eq_some hs
    exact .inl ⟨rfl, fun _ _ => id⟩
  | refunded => exact .inl ⟨rfl, other fun _ _ he => nomatch he⟩
  | replied hs =>
    cases hs
    exact .inl ⟨rfl, other fun _ _ he => nomatch he⟩
  | recorded => exact .inr ⟨_, _, rfl, rfl⟩
  | completed hm hs => exact .inl ⟨rfl, other fun _ _ he => nomatch he⟩
  | archived hs =>
    simp only [Db.archiveTerminalRuns] at hs
    split at hs
    · cases hs
    · cases hs
      exact .inl ⟨rfl, fun _ _ => id⟩
  | _ => exact .inl ⟨rfl, fun _ _ => id⟩

theorem Stored.effect (h : Stored sh.db t) (he : Effect sh i p a sh' p') : Stored sh'.db t := by
  rcases he.results with ⟨hsame, -⟩ | ⟨payload, result, hdb, -⟩
  · exact stored_congr hsame h
  · rw [hdb]
    exact stored_saveResult h

/-! ## The end of a thread -/

/-- Only `execute` leads to the end, with the result it received. -/
theorem Node.run_ended (hrun : (n.run s resumes db).2 = .update s') (hn : n.after s' = none) :
    ∃ result, .result (.terminal result) ∈ resumes ∧ result.ticketId = s.ticket.id ∧
      s'.result = some result := by
  cases n with
  | execute =>
    simp only [Node.run, Graph.execute] at hrun
    split at hrun
    · split at hrun
      · cases hrun
      · rename_i value rest
        simp only [Graph.executeUpdate] at hrun
        split at hrun
        · cases hrun
        · rename_i result hval
          split at hrun
          · cases hrun
          · rename_i ht
            unfold Graph.validateTicketResult at hval
            split at hval
            · cases hval
              cases hrun
              exact ⟨_, List.mem_cons_self, not_not.mp ht, rfl⟩
            · cases hval
    · cases hrun
  | _ => cases hn

theorem saved_of_ready {wakeupAt : Option Time} (hw : World.Reachable w)
    (hv : Runner.resumeForRun env wakeupAt w.shared.db = some v)
    (hpay : v.payload = .result (.terminal result)) : Saved w.shared.log result := by
  cases Runner.resumeForRun_found hv with
  | decision happ hsig => cases hpay
  | timeout hsome hnone => cases hpay
  | @task key x hkey htask hdecision htimeout =>
    obtain ⟨r, hr, -, ⟨-, hx⟩ | ⟨-, x, hx, hres⟩⟩ := taskResumeValue_eq_some htask
    · rw [hx] at hpay
      cases hpay
    · rw [hres] at hpay
      cases hpay
      exact ⟨_, hw.ledgers.1.stored _ _ (hw.stored r hr _ hx)⟩

/-! ## One action -/

theorem ResultsSound.effect (hI : ResultsSound sh) (hK : ResultKnows sh p)
    (he : Effect sh i p a sh' p') : ResultsSound sh' := by
  refine ⟨fun payload result hm => ?_, fun t cp hcp hn => ?_⟩
  · rcases he.results with ⟨hsame, hold⟩ | ⟨payload', result', hdb, hlog⟩
    · exact stored_congr hsame (hI.saved payload result (hold _ _ hm))
    · rw [hlog] at hm
      rw [hdb]
      rcases List.mem_cons.mp hm with heq | hm
      · cases heq
        exact stored_saveResult_self
      · exact stored_saveResult (hI.saved payload result hm)
  · cases he.threadChange t with
    | same heq => exact (hI.ended t cp (heq.symm.trans hcp) hn).effect he
    | created hp₀ ha ht hf hdb hlog hseq heq =>
      cases hcp.symm.trans heq
      cases hn
    | put hp₀ ha ht hr hn' hp' hdb hlog hseq heq =>
      rename_i dr inv values next
      cases hcp.symm.trans heq
      have hends := hK.ends inv values (by rw [hp₀]; simp) hr (hn'.symm.trans hn)
      rw [ht] at hends
      exact hends.effect he
    | suspended hp₀ ha ht hr hcp₀ hid hp' hdb hlog heq =>
      cases hcp.symm.trans heq
      have hold := hI.ended t _ hcp₀ hn
      exact hold.effect he
    | deleted hp₀ ha heq =>
      rw [heq] at hcp
      cases hcp

theorem ResultKnows.other {q : Proc} (h : ResultKnows sh q) (he : Effect sh i p a sh' p') :
    ResultKnows sh' q :=
  ⟨fun run v result hr hpay => (h.brought run v result hr hpay).effect he,
    fun inv s hinv hr hn => (h.ends inv s hinv hr hn).effect he⟩

theorem ResultKnows.acts (hw : World.Reachable w) (hI : ResultsSound w.shared)
    (h : ResultKnows w.shared (w.procs i)) (he : Effect w.shared i (w.procs i) a sh' p') :
    ResultKnows sh' p' := by
  have hP := hw.threads.2 i
  have hother := h.other he
  refine ⟨fun run v result hr hpay => ?_, fun inv s hinv hr hn => ?_⟩
  · rcases he.resumes hr with hold | ⟨env, -, rfl, hready⟩
    · exact hother.brought run v result hold hpay
    · obtain ⟨payload, hm⟩ := saved_of_ready hw hready hpay
      exact (hI.saved payload result hm).effect he
  · generalize w.procs i = p at *
    cases he.driveChange hinv with
    | still hold => exact hother.ends inv s hold hr hn
    | @ran dr inv₀ n db res hp hr₀ hn₀ hrun hinv₀ hsh =>
      subst hp hinv₀
      cases hr
      rw [hn₀] at hn
      obtain ⟨result, hm, ht, -⟩ := Node.run_ended (congrArg Prod.snd hrun) hn
      obtain ⟨run, resume, rfl, hpay⟩ := offered_of_mem hP hm
      have hbrought := hother.brought run resume result rfl hpay
      have hticket := (Proc.ThreadSound.invocation hP).checkpoint.ticket
      rw [ht, hticket] at hbrought
      exact hbrought
    | put hget hnone hnil =>
      rw [hnone] at hr
      cases hr
    | read hp' hsh hget hnone ho =>
      rw [hnone] at hr
      cases hr

theorem World.Reachable.results {w : World} (hw : World.Reachable w) : ResultsSound w.shared := by
  refine (World.ReachableWhen.invariant (I := ResultsSound) (J := fun sh _ p => ResultKnows sh p)
    ?_ ?_ ?_ hw).1
  · exact ⟨fun _ _ h => (nomatch h), fun _ _ h => nomatch h⟩
  · exact fun _ => ⟨fun _ _ _ h => (nomatch h), fun _ _ h => nomatch h⟩
  · intro w i a sh' p' hr _ hI hK he
    exact ⟨hI.effect (hK i) he, (hK i).acts hr hI he, fun j _ => (hK j).other he⟩

end TicketFlow
