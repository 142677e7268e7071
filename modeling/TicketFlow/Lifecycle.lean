import TicketFlow.ReadPaths

/-! # The lifecycle of a ticket

The diagram of statuses a ticket moves through, and what of it can be observed: where a checkpoint
is saved only over the one its process read, the status `get_ticket` answers moves along the diagram
and never back, from the live checkpoint over to the stored result, and the projected row is at an
earlier point of it. -/

namespace TicketFlow
open Table Interleaving
set_option autoImplicit false

/-! ## The diagram -/

/-- What may come next after a status. Beside the documented steps a stage that failed for good
escalates, from `classifying` or from `drafting`. -/
inductive TicketStatus.Next : TicketStatus → TicketStatus → Prop
  | dispatched : Next .received .classifying
  | classified : Next .classifying .drafting
  | unclassified : Next .classifying .escalated
  | undrafted : Next .drafting .escalated
  | answered : Next .drafting .resolved
  | gated : Next .drafting .awaitingApproval
  | approved : Next .awaitingApproval .resolved
  | rejected : Next .awaitingApproval .rejected
  | timedOut : Next .awaitingApproval .escalated

/-- A later point of the diagram, or the same one. -/
abbrev TicketStatus.Leads : TicketStatus → TicketStatus → Prop :=
  Relation.ReflTransGen TicketStatus.Next

open TicketStatus

/-- Every status leads to the one it closes with. -/
theorem TicketStatus.leads_closing (st : TicketStatus) : st.Leads st.closing := by
  have hdrafting : Leads .drafting .resolved := .single .answered
  have hclassifying : Leads .classifying .resolved := .head .classified hdrafting
  cases st with
  | received => exact .head .dispatched hclassifying
  | classifying => exact hclassifying
  | drafting => exact hdrafting
  | awaitingApproval => exact .single .approved
  | resolved => exact .refl
  | rejected => exact .refl
  | escalated => exact .refl

variable {sh sh' : Shared} {w : World} {i : WorkerId} {p p' : Proc} {a : Action} {t : TicketId}
  {n : Node} {s s' : TicketState} {resumes : List Resume} {db : Database} {st st' : TicketStatus}
  {result : TicketResult}

/-! ## What a node does to the status -/

theorem classifyUpdate_leads {value : Resume} (hs : s.status = .classifying)
    (h : Graph.classifyUpdate s value = .update s') : s.status.Leads s'.status := by
  rw [hs]
  unfold Graph.classifyUpdate at h
  split at h
  · cases h
    exact .single .unclassified
  · split at h
    · cases h
      exact .refl
    · cases h

theorem draftUpdate_leads {value : Resume} (hs : s.status = .drafting)
    (h : Graph.draftUpdate s value = .update s') : s.status.Leads s'.status := by
  rw [hs]
  unfold Graph.draftUpdate at h
  split at h
  · cases h
    exact .single .undrafted
  · split at h
    · cases h
      exact .refl
    · cases h

theorem awaitApproval_leads (hs : s.status = .awaitingApproval)
    (h : Graph.awaitApproval s resumes = .update s') : s.status.Leads s'.status := by
  unfold Graph.awaitApproval at h
  split at h
  · split at h
    · cases h
    · unfold Graph.approvalUpdate at h
      split at h
      · cases h
        rw [hs]
        exact .single .timedOut
      · split at h
        · cases h
          exact .refl
        · cases h
          rw [hs]
          exact .single .rejected
      · cases h
  · cases h

/-- A node moves the status on along the diagram; `execute` takes over that of its result. -/
theorem Node.run_leads (hs : StateFor s (some n)) (h : (n.run s resumes db).2 = .update s') :
    s.status.Leads s'.status ∨ n = .execute ∧ ∃ result,
      .result (.terminal result) ∈ resumes ∧ s'.status = result.status := by
  cases n with
  | dispatchClassify =>
    have hst : s.status = .received := hs
    cases h
    rw [hst]
    exact .inl (.single .dispatched)
  | awaitClassify =>
    left
    simp only [Node.run, Graph.awaitClassify] at h
    split at h
    · cases h
    · exact classifyUpdate_leads hs.1 h
  | dispatchDraft =>
    left
    simp only [Node.run, Graph.dispatchDraft] at h
    split at h
    · cases h
    · cases h
      rw [hs.1]
      exact .single .classified
  | awaitDraft =>
    left
    simp only [Node.run, Graph.awaitDraft] at h
    split at h
    · cases h
    · split at h
      · cases h
      · exact draftUpdate_leads hs.1 h
  | decideApproval =>
    left
    simp only [Node.run, Graph.decideApproval] at h
    split at h
    · cases h
    · cases h
      exact .refl
  | prepareApproval =>
    left
    cases h
    rw [hs.1]
    exact .single .gated
  | awaitApproval => exact .inl (awaitApproval_leads hs.1 h)
  | execute =>
    obtain ⟨result, rest, rfl, hst, -⟩ := execute_update h
    exact .inr ⟨rfl, result, List.mem_cons_self, hst⟩

/-! ## Runs in which nobody saves over what it has not read -/

/-- A checkpoint is saved only over the one its process read. -/
def InOrder (w : World) (i : WorkerId) : Action → Prop
  | .advance => SavesLatest w i
  | _ => True

instance (w : World) (i : WorkerId) : DecidablePred (InOrder w i)
  | .advance => inferInstanceAs (Decidable (SavesLatest w i))
  | .tick _ | .crash | .createTicket _ | .submitApproval _ _ | .claimRun _ | .dequeue _ _
  | .activityReturns _ | .activityRaises _ _ | .reclaimExpiredLeases | .reconcileOrphanedRuns
  | .runRetention _ => isTrue trivial

theorem InOrder.savesLatest (h : InOrder w i a) (ha : a = .advance) : SavesLatest w i := by
  subst ha
  exact h

/-- The ticket exists, and its live checkpoint is at the status or at a later one. -/
structure Trails (w : World) (t : TicketId) (st : TicketStatus) : Prop where
  created : Created t w.shared.log
  live : ∀ cp, w.shared.checkpoints.get t = some cp → st.Leads cp.values.status

/-- The status also leads to the one the ticket closes with, once that is decided. -/
structure Heads (w : World) (t : TicketId) (st : TicketStatus) : Prop extends Trails w t st where
  closing : ∀ s, Terminal w t s → st.Leads s.status.closing

/-- A saved result says what the state at `execute` asked for. -/
theorem status_of_saved (hw : World.ReachableWhen InOrder w) (h : Saved w.shared.log result) :
    ∃ s, Terminal w result.ticketId s ∧ result.status = s.status.closing := by
  have hconv : World.ReachableWhen Converges w :=
    World.ReachableWhen.converges_of_latest (fun _ _ => id) hw
  have hreach : World.Reachable w := hw.reachable
  obtain ⟨payload, hm⟩ := h
  have htrue := hreach.ledgers.1.saved _ _ hm
  obtain ⟨vals, resumes, hran, hpay⟩ :=
    hconv.onePayload.ran result.ticketId payload (.event hm rfl htrue.ticket)
  refine ⟨vals, .ran hran, ?_⟩
  obtain ⟨expected, hexp, hresult⟩ := htrue.expected
  obtain ⟨reply, -, hpay⟩ := Option.bind_eq_some_iff.mp hpay
  obtain ⟨c, -, rfl⟩ := Option.map_eq_some_iff.mp hpay
  cases hexp
  rw [hresult]
  exact terminalOutcome_status ..

/-! ## One action -/

/-- Whoever drives a thread moves its status on along the diagram. -/
theorem update_leads {dr : Driver} {inv : Invocation} (hw : World.ReachableWhen InOrder w)
    (hp : w.procs i = dr.driving inv) (hr : inv.result = some (.update s')) :
    inv.checkpoint.values.status.Leads s'.status := by
  have hreach : World.Reachable w := hw.reachable
  have hinv : (w.procs i).invocation = some inv := by rw [hp, Proc.invocation_driving]
  have hP := hreach.threads.2 i
  rw [hp] at hP
  obtain ⟨n, db, hn, hrun⟩ := hreach.computed hinv _ hr
  have hs := (Proc.ThreadSound.invocation hP).checkpoint.state
  rw [hn] at hs
  rcases Node.run_leads hs hrun with hleads | ⟨rfl, result, hm, hst⟩
  · exact hleads
  · obtain ⟨run, resume, rfl, hpay⟩ := offered_of_mem hP hm
    obtain ⟨s, resumes, hran, hclosing⟩ :=
      hreach.outcomes i run resume result (by rw [hp]; rfl) hpay
    -- the thread came to `execute` in one state
    have hsame := (hw.oneLine fun _ _ => id).one run.ticketId _ _ (.ran hran)
      (.driven hinv hP.1 hn rfl)
    rw [hst, hclosing, hsame]
    exact leads_closing _

theorem Trails.effect (h : Trails w t st) (hw : World.ReachableWhen InOrder w)
    (hok : InOrder w i a) (he : Effect w.shared i (w.procs i) a sh' p') :
    Trails ⟨sh', Function.update w.procs i p'⟩ t st := by
  refine ⟨h.created.mono he.log_suffix, fun cp' hcp' => ?_⟩
  have hreach : World.Reachable w := hw.reachable
  cases he.threadChange t with
  | same heq => exact h.live cp' (heq.symm.trans hcp')
  | created hp ha ht hf hdb hlog hseq heq =>
    obtain ⟨e, hm, hid⟩ := h.created
    exact absurd hid (hf e hm)
  | @put dr inv values next hp ha ht hr hn hp' hdb hlog hseq heq =>
    cases hcp'.symm.trans heq
    have hinv : (w.procs i).invocation = some inv := by rw [hp, Proc.invocation_driving]
    have hlatest := hok.savesLatest ha inv hinv (by rw [Invocation.puts, hr])
    obtain ⟨cp, hcp, hid⟩ := Option.map_eq_some_iff.mp hlatest
    obtain ⟨hvals, -⟩ := ((hreach.threads.2 i).of_invocation hinv).copy cp hcp hid
    have hold := h.live cp (ht ▸ hcp)
    rw [hvals] at hold
    exact hold.trans (update_leads hw hp hr)
  | @suspended dr inv env cp hp ha ht hr hcp hid hp' hdb hlog heq =>
    cases hcp'.symm.trans heq
    exact h.live cp hcp
  | deleted hp ha heq =>
    have hnone : sh'.checkpoints.get t = some cp' := hcp'
    rw [heq] at hnone
    cases hnone

theorem Heads.effect (h : Heads w t st) (hw : World.ReachableWhen InOrder w)
    (hok : InOrder w i a) (he : Effect w.shared i (w.procs i) a sh' p') :
    Heads ⟨sh', Function.update w.procs i p'⟩ t st := by
  have hreach : World.Reachable w := hw.reachable
  have hT := h.toTrails.effect hw hok he
  refine ⟨hT, fun s hterm => ?_⟩
  rcases terminal_before hok.savesLatest (hreach.threads.2 i) he hterm with
    hold | ⟨cp, cp', -, -, hcp', rfl⟩
  · exact h.closing s hold
  · exact (hT.live cp' hcp').trans (leads_closing _)

/-! ## What the API shows -/

/-- The status `get_ticket` answers. -/
def shownStatus (t : TicketId) (w : World) : Option TicketStatus :=
  (Api.getTicket t (w.shared.checkpoints.get t) w.shared.db).map (·.status)

/-- The status shown is the live checkpoint's, or that of a saved result. -/
theorem shownStatus_cases (hw : World.Reachable w) (h : shownStatus t w = some st) :
    (∃ cp, w.shared.checkpoints.get t = some cp ∧ cp.values.status = st) ∨
      w.shared.checkpoints.get t = none ∧ ∃ result, Saved w.shared.log result ∧
        result.ticketId = t ∧ result.status = st := by
  obtain ⟨info, hinfo, hst⟩ := Option.map_eq_some_iff.mp h
  unfold Api.getTicket at hinfo
  split at hinfo
  · rename_i cp hcp
    cases hinfo
    exact .inl ⟨cp, hcp, hst⟩
  · rename_i hnone
    obtain ⟨result, hload, rfl⟩ := Option.map_eq_some_iff.mp hinfo
    obtain ⟨hkey, hsaved⟩ := hw.ledgers.1.readModel _ (loadResult_eq_some hload)
    exact .inr ⟨hnone, result, hsaved, hkey.symm, hst⟩

theorem Heads.of_saved (hw : World.ReachableWhen InOrder w) (h : Saved w.shared.log result)
    (hnone : w.shared.checkpoints.get result.ticketId = none) :
    Heads w result.ticketId result.status := by
  obtain ⟨s, hterm, hst⟩ := status_of_saved hw h
  have hline : OneLine w := hw.oneLine fun _ _ => id
  have hreach : World.Reachable w := hw.reachable
  refine ⟨⟨?_, fun cp hcp => ?_⟩, fun s' hterm' => ?_⟩
  · rcases hterm with ⟨hcp, -⟩ | ⟨hinv, ht, -⟩ | hran
    · rw [hnone] at hcp
      cases hcp
    · exact hreach.created.2 _ _ (ht ▸ (hreach.threads.2 _).drives hinv)
    · exact (hline.ran _ _ _ hran).1
  · rw [hnone] at hcp
    cases hcp
  · rw [hst, hline.one _ _ _ hterm hterm']

theorem Heads.of_live (hw : World.ReachableWhen InOrder w) {cp : Checkpoint}
    (hcp : w.shared.checkpoints.get t = some cp) : Heads w t cp.values.status := by
  have hline : OneLine w := hw.oneLine fun _ _ => id
  have hreach : World.Reachable w := hw.reachable
  have hbehind : Behind w := World.ReachableWhen.behind (fun _ _ => id) hw
  refine ⟨⟨hreach.created.1 t (by rw [hcp]; rfl), fun cp' hcp' => ?_⟩, fun s hterm => ?_⟩
  · cases hcp.symm.trans hcp'
    exact .refl
  · cases hn : cp.next with
    | none =>
      -- the thread has ended with a saved result
      obtain ⟨result, hres, hsaved⟩ := hreach.endsSaved t cp hcp hn
      have hstate := (hreach.threads.1 t cp hcp).1
      have hend := hstate.state
      rw [hn] at hend
      obtain ⟨-, result', hres', hticket, hstatus⟩ := hend
      cases hres.symm.trans hres'
      have ht : result.ticketId = t := by
        rw [hticket, hstate.ticket, Checkpoints.threadId_of_get hcp]
      obtain ⟨s', hterm', hst⟩ := status_of_saved hw hsaved
      rw [ht] at hterm'
      rw [hstatus, hst, hline.one t _ _ hterm' hterm]
    | some n =>
      by_cases he : n = .execute
      · subst he
        rw [← hline.one t _ _ (.latest hcp hn rfl) hterm]
        exact leads_closing _
      · refine absurd hterm (hline.not_terminal hbehind hreach.threads.2 hcp ?_)
        rw [hn]
        cases n with
        | execute => exact absurd rfl he
        | _ => decide

theorem heads_of_shown (hw : World.ReachableWhen InOrder w) (h : shownStatus t w = some st) :
    Heads w t st := by
  rcases shownStatus_cases hw.reachable h with ⟨cp, hcp, rfl⟩ | ⟨hnone, result, hsaved, rfl, rfl⟩
  · exact .of_live hw hcp
  · exact .of_saved hw hsaved hnone

theorem Heads.leads (h : Heads w t st) (hw : World.ReachableWhen InOrder w)
    (hs : shownStatus t w = some st') : st.Leads st' := by
  rcases shownStatus_cases hw.reachable hs with ⟨cp, hcp, rfl⟩ | ⟨hnone, result, hsaved, rfl, rfl⟩
  · exact h.live cp hcp
  · obtain ⟨s, hterm, hst⟩ := status_of_saved hw hsaved
    rw [hst]
    exact h.closing s hterm

/-- In a run in which a checkpoint is saved only over the one its process read, whatever status
`get_ticket` answers for a ticket at some point leads, along the diagram, to every status it answers
later, also where the thread has been deleted in the meantime. -/
theorem shown_status_moves_on {steps : List (World × WorkerId × Action)} {w₀ : World}
    (hrun : Run Proc.step (· = World.initial) InOrder steps w) (hm : (w₀, i, a) ∈ steps)
    (h₀ : shownStatus t w₀ = some st) (h : shownStatus t w = some st') : st.Leads st' :=
  Run.history (H := fun w st => Heads w t st) (fun _ _ hw hs => heads_of_shown hw hs)
    (fun _ _ _ _ _ _ hw ha hh hp => hh.effect hw ha (effect_of_step hp))
    (fun _ _ _ hw hh hs => hh.leads hw hs) hrun hm h₀ h

/-- What is left of the run of ticket 7 to its end, its archiving and the deletion of its thread,
once its draft has been dispatched. -/
def Schedule.sweptLater : Schedule := Schedule.swept.drop (Schedule.drafting.length + 1)

theorem shown_status_moves_on_swept : ∃ w₀ w, shownStatus 7 w₀ = some .drafting ∧
    w.shared.checkpoints.get 7 = none ∧ shownStatus 7 w = some .resolved ∧
    Leads .drafting .resolved := by
  have hrun : ((World.initial.runWhen Proc.step InOrder Schedule.drafting).bind fun w =>
      if decide (shownStatus 7 w = some .drafting) then w.runWhen Proc.step InOrder
        ((1, .dequeue .agentTaskQueue Schedule.unlocked) :: Schedule.sweptLater) else none).map
      (fun w => threadless w && decide (shownStatus 7 w = some .resolved)) = some true := by
    decide +kernel
  obtain ⟨steps, w₀, w, hrun, hm, hp, hq⟩ := exists_history_of_run hrun
  obtain ⟨hgone, hshown⟩ := Bool.and_eq_true_iff.mp hq
  have hleads := shown_status_moves_on hrun hm (of_decide_eq_true hp) (of_decide_eq_true hshown)
  exact ⟨w₀, w, of_decide_eq_true hp, Option.isNone_iff_eq_none.mp hgone,
    of_decide_eq_true hshown, hleads⟩

/-! ## What the projection shows -/

/-- The statuses a process may come to write for a ticket: of the run it holds, of the row it saves
or inserts, and of the thread it drives. -/
inductive Proc.Carries (p : Proc) (t : TicketId) : TicketStatus → Prop
  | held {run} : p.holds = some run → run.ticketId = t → Carries p t run.status
  | saved {save} : p.saves = some save → save.ticketId = t → Carries p t save.status
  | created {values} : p.creates = some (t, values) → Carries p t values.status
  | driven {inv} : p.invocation = some inv → inv.checkpoint.threadId = t →
      Carries p t inv.checkpoint.values.status

/-- A status on record: of the row or of the live checkpoint. -/
inductive OnRecord (sh : Shared) (t : TicketId) : TicketStatus → Prop
  | row {r} : sh.db.run t = some r → OnRecord sh t r.status
  | live {cp} : sh.checkpoints.get t = some cp → OnRecord sh t cp.values.status

theorem Proc.Carries.returned {dr : Driver} {inv : Invocation} {out : Output} {c : Checkpoints}
    (hP : (dr.driving inv).ThreadSound c) (hout : out.values = inv.checkpoint.values)
    (h : (dr.returned inv out).Carries t st) : (dr.driving inv).Carries t st := by
  have hdriven : inv.checkpoint.threadId = t → (dr.driving inv).Carries t out.values.status :=
    fun ht => hout ▸ .driven (Proc.invocation_driving dr inv) ht
  cases h with
  | held hr ht => exact .held ((Proc.holds_driving dr inv out).symm.trans hr) ht
  | saved hs ht =>
    cases dr with
    | createTicket => cases hs
    | step run resume =>
      cases hs
      exact hdriven (hP.1.trans ht)
  | created hc =>
    cases dr with
    | createTicket =>
      cases hc
      exact hdriven rfl
    | step run resume => cases hc
  | driven hinv ht =>
    rw [Proc.invocation_returned] at hinv
    cases hinv

/-- What a process carries it carried before, or it is on record. -/
theorem Effect.carries (hk : RunKeys sh.db) (hP : p.ThreadSound sh.checkpoints)
    (he : Effect sh i p a sh' p') (h : p'.Carries t st) :
    p.Carries t st ∨ OnRecord sh t st ∨ OnRecord sh' t st := by
  cases h with
  | held hr ht =>
    rcases he.holds hr with hold | ⟨locked, db, -, -, hcl, -⟩
    · exact .inl (.held hold ht)
    · obtain ⟨r, hrow, -, rfl, -⟩ := run_claimRun hk hcl
      subst ht
      have hrec : OnRecord sh _ r.status := .row hrow
      exact .inr (.inl hrec)
  | driven hinv ht =>
    rcases he.drivesFrom hinv with ⟨inv₀, hinv₀, hsame⟩ | hget
    · rw [hsame] at ht ⊢
      exact .inl (.driven hinv₀ ht)
    · subst ht
      exact .inr (.inr (.live hget))
  | saved hs ht =>
    have hret := Proc.Carries.saved hs ht
    left
    cases he with
    | tick elapsed => exact hret
    | @ran dr inv n db result hr hn hrun => simp at hs
    | @put dr inv values next hr hn => simp at hs
    | @suspended dr inv env hr => exact .returned hP rfl hret
    | failed hm hst hf => split at hs <;> cases hs
    | quiet hl =>
      cases hl with
      | @ended dr inv hr hn => exact .returned hP rfl hret
      | unparked hcp =>
        cases hs
        exact .held rfl ht
      | unready hr =>
        cases hs
        exact .held rfl ht
      | _ => cases hs
    | _ => cases hs
  | created hc =>
    have hret := Proc.Carries.created hc
    cases he with
    | tick elapsed => exact .inl hret
    | @ran dr inv n db result hr hn hrun => cases dr <;> cases hc
    | @put dr inv values next hr hn => cases dr <;> cases hc
    | @suspended dr inv env hr => exact .inl (.returned hP rfl hret)
    | failed hm hst hf => split at hc <;> cases hc
    | quiet hl =>
      cases hl with
      | @ended dr inv hr hn => exact .inl (.returned hP rfl hret)
      | projecting hcp =>
        cases hc
        exact .inr (.inl (.live hcp))
      | _ => cases hc
    | _ => cases hc

/-- Every status on record or in a process's hands leads to what the ticket shows. -/
structure RowsTrail (w : World) : Prop where
  rows : ∀ t r, w.shared.db.run t = some r → Heads w t r.status
  procs : ∀ j t st, (w.procs j).Carries t st → Heads w t st

theorem World.ReachableWhen.rowsTrail (hw : World.ReachableWhen InOrder w) : RowsTrail w := by
  refine Interleaving.ReachableWhen.invariant (I := RowsTrail) ?_ ?_ hw
  · rintro _ rfl
    refine ⟨fun _ _ h => (nomatch h), fun j t st h => ?_⟩
    cases h with
    | held h ht => cases h
    | saved h ht => cases h
    | created h => cases h
    | driven h ht => cases h
  · intro w i a sh' p' hr ha hI hp
    have he := effect_of_step hp
    have hreach : World.Reachable w := hr.reachable
    have hnext : World.ReachableWhen InOrder ⟨sh', Function.update w.procs i p'⟩ :=
      .next hr ha (by unfold Config.next; rw [hp])
    have keeps : ∀ {t st}, Heads w t st → Heads ⟨sh', Function.update w.procs i p'⟩ t st :=
      fun h => h.effect hr ha he
    have hrows : ∀ t r, sh'.db.run t = some r →
        Heads ⟨sh', Function.update w.procs i p'⟩ t r.status := by
      intro t r' hr'
      rcases (he.runChange hreach.held.1 t).status hr' with
        ⟨r, hrow, hst⟩ | ⟨save, hs, ht, hst⟩ | ⟨values, hc, -, -, hst⟩
      · exact hst ▸ keeps (hI.rows t r hrow)
      · exact hst ▸ keeps (hI.procs i t _ (.saved hs ht))
      · exact hst ▸ keeps (hI.procs i t _ (.created hc))
    refine ⟨hrows, fun j t st h => ?_⟩
    by_cases hj : j = i
    · subst hj
      dsimp only at h
      rw [Function.update_self] at h
      rcases he.carries hreach.held.1 (hreach.threads.2 j) h with hold | hrec | hrec
      · exact keeps (hI.procs j t st hold)
      · cases hrec with
        | row hrow => exact keeps (hI.rows t _ hrow)
        | live hcp => exact keeps (.of_live hr hcp)
      · cases hrec with
        | row hrow => exact hrows t _ hrow
        | live hcp => exact .of_live hnext hcp
    · dsimp only at h
      rw [Function.update_of_ne hj] at h
      exact keeps (hI.procs j t st h)

theorem mem_listTickets (hk : RunKeys db) :
    t ∈ Api.listTickets st db ↔ ∃ r, db.run t = some r ∧ r.status = st := by
  unfold Api.listTickets Db.listRunsByStatus
  rw [List.mem_map]
  constructor
  · rintro ⟨r, hr, rfl⟩
    obtain ⟨hm, hst⟩ := mem_orderedBy.mp hr
    exact ⟨r, hk.run_of_mem hm, hst⟩
  · rintro ⟨r, hr, hst⟩
    obtain ⟨hm, ht⟩ := Database.run_eq_some hr
    exact ⟨r, mem_orderedBy.mpr ⟨hm, hst⟩, ht⟩

/-- In such a run `list_tickets` answers, oldest first and each once, the tickets whose row has the
status, and the status `get_ticket` answers for a listed ticket is that one or a later one. -/
theorem listed_status_behind (hw : World.ReachableWhen InOrder w) (st : TicketStatus) :
    (Api.listTickets st w.shared.db).Nodup ∧
    (Api.listTickets st w.shared.db).Pairwise (fun t u => ∃ r r', w.shared.db.run t = some r ∧
      w.shared.db.run u = some r' ∧ Db.Older r r') ∧
    (∀ t, t ∈ Api.listTickets st w.shared.db ↔ ∃ r, w.shared.db.run t = some r ∧ r.status = st) ∧
    ∀ t ∈ Api.listTickets st w.shared.db, ∀ st', shownStatus t w = some st' → st.Leads st' := by
  have hreach : World.Reachable w := hw.reachable
  have hk : RunKeys w.shared.db := hreach.held.1
  refine ⟨nodup_orderedBy hk, ?_, fun t => mem_listTickets hk, fun t ht st' hs => ?_⟩
  · refine List.pairwise_map.mpr ?_
    have hsorted : (orderedBy Db.Older (·.status = st) w.shared.db.workflowRun).Pairwise
        Db.Older := pairwise_orderedBy
    refine hsorted.imp_of_mem ?_
    intro r r' hr hr' hle
    have hrow := hk.run_of_mem (mem_orderedBy.mp hr).1
    have hrow' := hk.run_of_mem (mem_orderedBy.mp hr').1
    exact ⟨r, r', hrow, hrow', hle⟩
  · obtain ⟨r, hr, rfl⟩ := (mem_listTickets hk).mp ht
    exact (hw.rowsTrail.rows t r hr).leads hw hs

theorem listed_status_behind_drafting : ∃ w, World.ReachableWhen InOrder w ∧
    Api.listTickets .drafting w.shared.db = [7] ∧
    ∀ st, shownStatus 7 w = some st → Leads .drafting st := by
  have hrun : (World.initial.runWhen Proc.step InOrder Schedule.drafting).map (fun w =>
      decide (Api.listTickets .drafting w.shared.db = [7])) = some true := by decide +kernel
  obtain ⟨w, hw, hp⟩ := exists_reachableWhen_of_run hrun
  have hlist := of_decide_eq_true hp
  obtain ⟨-, -, -, hbehind⟩ := listed_status_behind hw .drafting
  exact ⟨w, hw, hlist, hbehind 7 (by rw [hlist]; exact List.mem_cons_self)⟩

end TicketFlow
