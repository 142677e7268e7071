import TicketFlow.RunTable
import TicketFlow.Threads

/-! # The run row as a projection

Without retention a row stays once it is there. A thread without one is still being seeded, so a
row is created in a status that is not terminal, and a run somebody holds was not dormant when it
was claimed. -/

namespace TicketFlow
open Table
set_option autoImplicit false

/-- No `claim_run` will ever return the row as it is: its status is terminal and it has no timer. -/
def WorkflowRun.Dormant (r : WorkflowRun) : Prop := r.status.terminal = true ∧ r.wakeupAt = none

instance (r : WorkflowRun) : Decidable r.Dormant := inferInstanceAs (Decidable (_ ∧ _))

/-- A row is claimable now or by the mere passage of time exactly when it is not dormant. -/
theorem exists_claimable_iff {now : Time} {r : WorkflowRun} :
    (∃ later, now ≤ later ∧ Db.Claimable later r) ↔ ¬ r.Dormant := by
  constructor
  · rintro ⟨later, -, hc, -⟩ ⟨hterm, hnone⟩
    rcases hc with h | ⟨h, -⟩
    · rw [hterm] at h
      cases h
    · rw [hnone] at h
      cases h
  · intro hd
    -- past the lease and the timer nothing keeps the row back
    have hnow : now ≤ now + (r.leaseExpiresAt.getD 0 + 1 + r.wakeupAt.getD 0) := Nat.le_add_right ..
    refine ⟨_, hnow, ?_, ?_, ?_⟩
    · by_cases hterm : r.status.terminal = true
      · right
        cases hw : r.wakeupAt with
        | none => exact absurd ⟨hterm, hw⟩ hd
        | some t =>
          refine ⟨rfl, fun u hu => ?_⟩
          rw [hw] at hu
          cases hu
          exact (Nat.le_add_left ..).trans (Nat.le_add_left ..)
      · exact .inl (Bool.eq_false_iff.mpr hterm)
    · intro e he
      rw [Option.mem_def.mp he]
      exact (Nat.lt_succ_self e).trans_le ((Nat.le_add_right ..).trans (Nat.le_add_left ..))
    · intro u hu
      rw [Option.mem_def.mp hu]
      exact (Nat.le_add_left ..).trans (Nat.le_add_left ..)

/-- The nodes `create_ticket` runs. -/
def Seeding (next : Option Node) : Prop :=
  next = some .dispatchClassify ∨ next = some .awaitClassify

theorem Seeding.status {s : TicketState} {next : Option Node} (h : Seeding next)
    (hs : StateFor s next) : s.status.terminal = false := by
  rcases h with rfl | rfl
  · rw [show s.status = .received from hs]
    rfl
  · rw [hs.1]
    rfl

/-- The handler of `create_ticket` stays at the first two nodes. -/
def Proc.Seeds (p : Proc) : Prop := ∀ inv, p = .api (.seeding inv) →
  Seeding inv.checkpoint.next ∧
    (inv.checkpoint.next = some .awaitClassify → ∀ s, inv.result ≠ some (.update s))

variable {sh sh' : Shared} {i : WorkerId} {p p' : Proc} {a : Action} {t : TicketId}

theorem RunChange.kept (h : RunChange sh i p a sh' p' t) (ha : ∀ maxAge, a ≠ .runRetention maxAge)
    (hr : (sh.db.run t).isSome) : (sh'.db.run t).isSome := by
  cases h with
  | same heq => rwa [heq]
  | claimed hp ha' hr₀ hc hp' heq hlog => rw [heq]; rfl
  | saved hs ht ha' hp' heq hlog => rwa [heq, Option.isSome_map]
  | woken hp ht ha' hp' heq hlog => rwa [heq, Option.isSome_map]
  | accepted hp ha' hr₀ hst heq hlog => rw [heq]; rfl
  | reclaimed hp hr₀ he hlt heq hlog => rw [heq]; rfl
  | created hp ha' hnone heq hlog => rw [heq]; rfl
  | archived hp ha' hr₀ harch heq hlog => exact absurd ha' (ha _)

/-- Keys are unique, and a thread without a row is still being seeded. -/
structure RowsSound (sh : Shared) : Prop where
  keys : RunKeys sh.db
  orphan : ∀ t cp, sh.checkpoints.get t = some cp → sh.db.run t = none → Seeding cp.next

/-- What a process knows of the row of the ticket it is working on. -/
structure RowSound (sh : Shared) (p : Proc) : Prop where
  holds : ∀ run ∈ p.holds, (sh.db.run run.ticketId).isSome ∧ ¬ run.Dormant
  seeding : ∀ inv, p = .api (.seeding inv) → Seeding inv.checkpoint.next ∧
    (inv.checkpoint.next = some .awaitClassify → ∀ s, inv.result ≠ some (.update s))
  creates : ∀ t values, p.creates = some (t, values) →
    values.status.terminal = false ∨ (sh.db.run t).isSome

theorem RowSound.kept {q : Proc} (hn : RunKeys sh.db) (he : Effect sh i p a sh' p')
    (ha : ∀ maxAge, a ≠ .runRetention maxAge) (h : RowSound sh q) : RowSound sh' q := by
  refine ⟨fun run hrun => ?_, h.seeding, fun t values hc => ?_⟩
  · obtain ⟨hsome, hd⟩ := h.holds run hrun
    exact ⟨(he.runChange hn _).kept ha hsome, hd⟩
  · exact (h.creates t values hc).imp_right ((he.runChange hn _).kept ha)

theorem awaitClassify_nil (s : TicketState) (db : Database) (s' : TicketState) :
    (Node.run .awaitClassify s [] db).2 ≠ .update s' := nofun

theorem RowsSound.effect (hI : RowsSound sh) (hJ : RowSound sh p)
    (hP : p.ThreadSound sh.checkpoints) (ha : ∀ maxAge, a ≠ .runRetention maxAge)
    (he : Effect sh i p a sh' p') : RowsSound sh' := by
  refine ⟨he.runKeys hI.keys, fun t cp hcp hno => ?_⟩
  have hno₀ : sh.db.run t = none := by
    cases hr : sh.db.run t with
    | none => rfl
    | some r =>
      have hsome := (he.runChange hI.keys t).kept ha (by rw [hr]; rfl)
      rw [hno] at hsome
      cases hsome
  cases he.threadChange t with
  | same heq => exact hI.orphan t cp (heq.symm.trans hcp) hno₀
  | created hp ha' ht hf hdb hlog hseq heq =>
    rw [hcp] at heq
    cases heq
    exact .inl rfl
  | put hp ha' ht hr hnx hp' hdb hlog hseq heq =>
    rename_i dr inv values next
    rw [hcp] at heq
    cases heq
    subst hp
    cases dr with
    | createTicket =>
      obtain ⟨hseed | hseed, hstop⟩ := hJ.seeding inv rfl
      · right
        change next = _
        rw [hnx, hseed]
        rfl
      · exact absurd hr (hstop hseed values)
    | step run resume =>
      obtain ⟨hsome, -⟩ := hJ.holds run rfl
      rw [← hP.1, ht, hno₀] at hsome
      cases hsome
  | suspended hp ha' ht hr hcp₀ hid hp' hdb hlog heq =>
    rename_i dr inv env cp₀
    rw [hcp] at heq
    cases heq
    exact hI.orphan t cp₀ hcp₀ hno₀
  | deleted hp ha' heq =>
    rw [hcp] at heq
    cases heq

theorem RowSound.claims {locked : TicketId → Bool} {db : Database} {run : WorkflowRun}
    (hn : RunKeys sh.db) (h : Db.claimRun i locked sh.db = (db, some run)) :
    (db.run run.ticketId).isSome ∧ ¬ run.Dormant := by
  obtain ⟨r, -, hc, rfl, hrun⟩ := run_claimRun hn h
  refine ⟨by rw [hrun]; rfl, ?_⟩
  have hnot : ¬ r.Dormant := exists_claimable_iff.mp ⟨sh.db.now, le_rfl, hc⟩
  exact hnot

theorem Proc.Seeds.acts (hJ : p.Seeds) (hP : p.ThreadSound sh.checkpoints)
    (he : Effect sh i p a sh' p') : p'.Seeds := by
  intro inv hp'
  cases he with
  | tick elapsed => exact hJ inv hp'
  | created hf =>
    cases hp'
    exact ⟨.inl rfl, fun _ _ => nofun⟩
  | @ran dr inv₀ n db result hr hnx hrun =>
    cases dr with
    | step run resume => cases hp'
    | createTicket =>
      cases hp'
      obtain ⟨hseed, -⟩ := hJ inv₀ rfl
      refine ⟨hseed, fun hawait s hres => ?_⟩
      -- nothing is offered to a new thread
      have hnil : inv₀.resumes = [] := by
        rw [Invocation.resumes, hP.1, hP.2.plain hP.1]
        rfl
      rw [hnx] at hawait
      cases hawait
      rw [hnil] at hrun
      cases hres
      exact awaitClassify_nil _ _ _ (congrArg Prod.snd hrun)
  | @put dr inv₀ values next hr hnx =>
    cases dr with
    | step run resume => cases hp'
    | createTicket =>
      cases hp'
      obtain ⟨hseed | hseed, hstop⟩ := hJ inv₀ rfl
      · refine ⟨.inr ?_, fun _ _ => nofun⟩
        change next = _
        rw [hnx, hseed]
        rfl
      · exact absurd hr (hstop hseed values)
  | @suspended dr inv₀ env hr => cases dr <;> cases hp'
  | failed hm hs hf => split at hp' <;> cases hp'
  | quiet h =>
    cases h with
    | @ended dr inv₀ hr hn => cases dr <;> cases hp'
    | _ => cases hp'
  | _ => cases hp'

theorem World.Reachable.seeding {w : World} (hw : World.Reachable w) (j : WorkerId) :
    (w.procs j).Seeds := by
  refine (World.ReachableWhen.invariant (I := fun _ => True) (J := fun _ _ p => p.Seeds) trivial
    (fun _ _ h => nomatch h) ?_ hw).2 j
  intro w i a sh' p' hr _ _ hJ he
  exact ⟨trivial, (hJ i).acts ((World.Reachable.threads hr.reachable).2 i) he, fun j _ => hJ j⟩

/-- A row is created in the status of a thread that is still being seeded. -/
theorem RowSound.inserts {values : TicketState} (hI : RowsSound sh) (hT : ThreadsSound sh.checkpoints)
    (hJ : RowSound sh p) (hP : p.ThreadSound sh.checkpoints) (he : Effect sh i p a sh' p')
    (hp' : p'.creates = some (t, values)) :
    values.status.terminal = false ∨ (sh.db.run t).isSome := by
  cases he with
  | tick elapsed => exact hJ.creates t values hp'
  | @ran dr inv n db result hr hnx hrun => cases dr <;> cases hp'
  | @put dr inv values next hr hnx => cases dr <;> cases hp'
  | @suspended dr inv env hr =>
    cases dr with
    | step run resume => cases hp'
    | createTicket =>
      cases hp'
      exact .inl ((hJ.seeding inv rfl).1.status hP.2.checkpoint.state)
  | failed hm hs hf => split at hp' <;> cases hp'
  | quiet h =>
    cases h with
    | @ended dr inv hr hn =>
      cases dr with
      | step run resume => cases hp'
      | createTicket =>
        obtain ⟨hseed, -⟩ := hJ.seeding inv rfl
        rw [hn] at hseed
        rcases hseed with h | h <;> cases h
    | projecting hcp =>
      cases hp'
      cases hr : sh.db.run t with
      | none => exact .inl ((hI.orphan t _ hcp hr).status (hT t _ hcp).1.state)
      | some r => exact .inr rfl
    | _ => cases hp'
  | _ => cases hp'

theorem RowSound.effect (hI : RowsSound sh) (hT : ThreadsSound sh.checkpoints)
    (hP : p.ThreadSound sh.checkpoints) (ha : ∀ maxAge, a ≠ .runRetention maxAge)
    (he : Effect sh i p a sh' p') (hJ : RowSound sh p) : RowSound sh' p' := by
  refine ⟨fun run hrun => ?_, Proc.Seeds.acts hJ.seeding hP he, fun t values hc => ?_⟩
  · rcases he.holds hrun with hold | ⟨locked, db, -, -, hcl, rfl⟩
    · exact (hJ.kept hI.keys he ha).holds run hold
    · exact RowSound.claims hI.keys hcl
  · exact (hJ.inserts hI hT hP he hc).imp_right ((he.runChange hI.keys _).kept ha)

/-- Where no sweep starts, the rows are sound and every process knows what it should. -/
theorem World.ReachableWhen.rows {ok : World → WorkerId → Action → Prop}
    (hok : ∀ w i a, ok w i a → Unswept w i a) {w : World} (hw : World.ReachableWhen ok w) :
    RowsSound w.shared ∧ ∀ i, RowSound w.shared (w.procs i) := by
  refine hw.invariant (I := RowsSound) (J := fun sh _ p => RowSound sh p)
    ⟨List.nodup_nil, fun _ _ h => nomatch h⟩
    (fun _ => ⟨fun _ h => (nomatch h), fun _ h => (nomatch h), fun _ _ h => nomatch h⟩) ?_
  intro w i a sh' p' hr ha hI hJ he
  obtain ⟨hT, hP⟩ := World.Reachable.threads hr.reachable
  have hkept : ∀ maxAge, a ≠ .runRetention maxAge := by
    rintro maxAge rfl
    exact hok w i _ ha
  exact ⟨hI.effect (hJ i) (hP i) hkept he, (hJ i).effect hI hT (hP i) hkept he,
    fun j _ => (hJ j).kept hI.keys he hkept⟩

end TicketFlow
