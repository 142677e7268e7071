import TicketFlow.Signals

/-! # One approval for a ticket

An accepted decision keeps the next one out as long as its signal is unconsumed. The step that
delivers an approval saves `awaiting_approval` once more and consumes the signal, so from then until
the finalize task is done nothing keeps a second decision out. -/

namespace TicketFlow
open Table Interleaving
set_option autoImplicit false

/-- The run still reads `awaiting_approval`, and a step has consumed whatever was accepted. -/
def Reopened (sh : Shared) (t : TicketId) : Prop :=
  (∃ r ∈ sh.db.workflowRun, Db.Waiting t .awaitingApproval r) ∧ acceptances t sh.log ≠ [] ∧
    ∀ id ∈ acceptances t sh.log, id ∈ consumptions t sh.log

instance (sh : Shared) (t : TicketId) : Decidable (Reopened sh t) :=
  inferInstanceAs (Decidable ((∃ r ∈ sh.db.workflowRun, _) ∧ _))

/-- No approval is submitted for a reopened ticket. -/
def Unreopened (w : World) (_ : WorkerId) : Action → Prop
  | .submitApproval t _ => ¬ Reopened w.shared t
  | _ => True

instance (w : World) (i : WorkerId) : DecidablePred (Unreopened w i)
  | .submitApproval t _ => inferInstanceAs (Decidable (¬ Reopened w.shared t))
  | .runRetention _ | .tick _ | .crash | .advance | .createTicket _ | .claimRun _ | .dequeue _ _
  | .activityReturns _ | .activityRaises _ _ | .reclaimExpiredLeases | .reconcileOrphanedRuns =>
    isTrue trivial

variable {sh sh' : Shared} {i : WorkerId} {p p' : Proc} {a : Action} {t : TicketId}

/-- An unconsumed signal is one that was accepted and that no step has consumed yet. -/
theorem unconsumed_iff (hI : SignalsSound sh) :
    (∃ s ∈ sh.db.pendingSignal, Db.Unconsumed t .approvalDecision s) ↔
      ∃ id ∈ acceptances t sh.log, id ∉ consumptions t sh.log := by
  constructor
  · rintro ⟨s, hs, hwf, -, hc⟩
    refine ⟨s.id, mem_acceptances.mpr ⟨_, hwf ▸ hI.row s hs⟩, fun hm => ?_⟩
    obtain ⟨status, hsv⟩ := mem_consumptions.mp hm
    exact hI.unsaved s hs hc t status hsv
  · rintro ⟨id, hacc, hno⟩
    obtain ⟨d, hd⟩ := mem_acceptances.mp hacc
    obtain ⟨s, hs, -, hwf, -, hc⟩ := hI.pending t id d hd fun status hsv =>
      hno (mem_consumptions.mpr ⟨status, hsv⟩)
    refine ⟨s, hs, hwf, ?_, hc⟩
    cases s.kind
    rfl

/-- For a ticket with an accepted decision, the guard of `submit_approval` is that it is reopened. -/
theorem refused_iff (hI : SignalsSound sh) (hacc : acceptances t sh.log ≠ [])
    (d : ApprovalDecision) :
    Api.submitApproval t d sh = (sh, .responded 409) ↔ ¬ Reopened sh t := by
  have hopen : Reopened sh t ↔ (∃ r ∈ sh.db.workflowRun, Db.Waiting t .awaitingApproval r) ∧
      ¬ ∃ s ∈ sh.db.pendingSignal, Db.Unconsumed t .approvalDecision s := by
    rw [unconsumed_iff hI, Reopened]
    simp only [not_exists, not_and, not_not]
    exact and_congr_right fun _ => and_iff_right hacc
  rw [hopen, Api.submitApproval, Db.addPendingSignalIfWaiting]
  constructor
  · intro h hg
    rw [if_pos hg] at h
    cases congrArg Prod.snd h
  · intro hg
    rw [if_neg hg]
    rfl

/-- Only an accepted submission adds to the acceptances, and only to its own ticket's. -/
theorem Effect.acceptances (h : Effect sh i p a sh' p') (t : TicketId) :
    TicketFlow.acceptances t sh'.log = TicketFlow.acceptances t sh.log ∨
    ∃ d, a = .submitApproval t d ∧
      TicketFlow.acceptances t sh'.log = sh.db.pendingSignalSeq :: TicketFlow.acceptances t sh.log ∧
      (∃ r ∈ sh.db.workflowRun, Db.Waiting t .awaitingApproval r) ∧
      ∀ s ∈ sh.db.pendingSignal, ¬ Db.Unconsumed t .approvalDecision s := by
  cases h with
  | accepted hs =>
    rename_i u d db id
    obtain ⟨hw, hno, rfl, rfl⟩ := Db.addPendingSignalIfWaiting_eq_some hs
    by_cases ht : u = t
    · subst ht
      refine .inr ⟨d, rfl, ?_, hw, hno⟩
      simp [TicketFlow.acceptances, Event.acceptance, Shared.record]
    · left
      simp [TicketFlow.acceptances, Event.acceptance, Shared.record, ht]
  | _ => exact .inl rfl

/-- Where no approval is submitted for a reopened ticket, a ticket gets at most one. -/
theorem acceptances_le_one {w : World} (hw : World.ReachableWhen Unreopened w) (t : TicketId) :
    (acceptances t w.shared.log).length ≤ 1 := by
  refine (hw.invariant (I := fun sh => (acceptances t sh.log).length ≤ 1) (J := fun _ _ _ => True)
    (Nat.zero_le _) (fun _ => trivial) ?_).1
  intro w i a sh' p' hr hok hI _ he
  refine ⟨?_, trivial, fun _ _ => trivial⟩
  rcases he.acceptances t with heq | ⟨d, rfl, heq, hw, hno⟩
  · rw [heq]
    exact hI
  · have hsound := (World.Reachable.signals hr.reachable).1
    have hnil : acceptances t w.shared.log = [] := by
      by_contra hne
      -- the earlier decision would be pending, or the ticket reopened
      refine hok ⟨hw, hne, fun id hid => ?_⟩
      by_contra hcon
      obtain ⟨s, hs, hu⟩ := (unconsumed_iff hsound).mpr ⟨id, hid, hcon⟩
      exact hno s hs hu
    rw [heq, hnil]
    exact le_rfl

/-- Once a decision was accepted, the next submission is refused and changes nothing exactly when
the ticket is not reopened; and where none meets a reopened ticket, at most one is ever accepted. -/
theorem one_approval {w : World} (hw : World.Reachable w) (t : TicketId) :
    (acceptances t w.shared.log ≠ [] → ∀ d,
      (Api.submitApproval t d w.shared = (w.shared, .responded 409) ↔ ¬ Reopened w.shared t)) ∧
    (World.ReachableWhen Unreopened w → (acceptances t w.shared.log).length ≤ 1) :=
  ⟨fun hacc d => refused_iff hw.signals.1 hacc d, fun h => acceptances_le_one h t⟩

/-- Before the first decision is consumed the second one is refused. -/
theorem one_approval_pending : ∃ w, World.ReachableWhen Unreopened w ∧
    (acceptances 7 w.shared.log).length ≤ 1 ∧
    Api.submitApproval 7 ⟨true, "approver", none⟩ w.shared = (w.shared, .responded 409) := by
  have hrun : (World.initial.runWhen Proc.step Unreopened
      (Schedule.drafted Schedule.riskyDraft 12 ++ Schedule.submit true)).map (fun w =>
        decide (acceptances 7 w.shared.log ≠ [] ∧ ¬ Reopened w.shared 7)) = some true := by
    decide +kernel
  obtain ⟨w, hw, hp⟩ := exists_reachableWhen_of_run hrun
  obtain ⟨hacc, hre⟩ := of_decide_eq_true hp
  have h := one_approval hw.reachable 7
  exact ⟨w, hw, h.2 hw, (h.1 hacc _).mpr hre⟩

/-- After the approval was delivered and while the finalize task is queued, a second decision is
accepted. -/
theorem second_approval_accepted :
    ¬ ∀ w, World.Reachable w → ∀ t, (acceptances t w.shared.log).length ≤ 1 := by
  intro h
  have hrun : (World.initial.run Proc.step
      (Schedule.drafted Schedule.riskyDraft 12 ++ Schedule.submit true ++ Schedule.step 2 8 ++
        Schedule.submit false)).map (fun w =>
          decide (2 ≤ (acceptances 7 w.shared.log).length)) = some true := by
    decide +kernel
  obtain ⟨w, hw, hp⟩ := exists_reachableWhen_of_run hrun
  have htwo := of_decide_eq_true hp
  have hone := h w hw 7
  omega

end TicketFlow
