import TicketFlow.Projection

/-! # The thread a handler is seeding

Until its first interrupt a thread belongs to the request that creates it. No runner has found it
parked, so nobody else writes its checkpoint, and its row is in no terminal status. Retention, which
deletes threads, is not among the interleaved actions. -/

namespace TicketFlow
open Table
set_option autoImplicit false

/-- The run a process has found parked, up to the save that ends its step. -/
def Proc.inspects : Proc → Option WorkflowRun
  | .runner (.inspected run _) | .runner (.resuming run _) | .runner (.invoking run _ _)
  | .runner (.saving run _ _) => some run
  | _ => none

theorem Proc.inspects_driving (dr : Driver) (inv inv' : Invocation) :
    (dr.driving inv).inspects = (dr.driving inv').inspects := by
  cases dr <;> rfl

theorem Proc.inspects_returned (dr : Driver) (inv : Invocation) (out : Output) :
    (dr.driving inv).inspects = (dr.returned inv out).inspects := by
  cases dr <;> rfl

/-- The thread has not come to its first interrupt. -/
def Checkpoint.Unparked (cp : Checkpoint) : Prop := Seeding cp.next ∧ cp.interrupt = none

/-- What a process knows of the thread it is working on. -/
structure SeedKnows (sh : Shared) (p : Proc) : Prop where
  owned : ∀ inv, p = .api (.seeding inv) →
    sh.checkpoints.get inv.checkpoint.threadId = some inv.checkpoint ∧ inv.checkpoint.Unparked
  inspected : ∀ run, p.inspects = some run →
    ∃ cp, sh.checkpoints.get run.ticketId = some cp ∧ ¬ cp.Unparked
  invoked : ∀ run resume inv, p = .runner (.invoking run resume inv) →
    inv.checkpoint.next ≠ some .dispatchClassify
  creates : ∀ t values, p.creates = some (t, values) → (sh.checkpoints.get t).isSome
  held : ∀ run cp, p.holds = some run → sh.checkpoints.get run.ticketId = some cp → cp.Unparked →
    run.status.terminal = false

structure SeedsOwned (w : World) : Prop where
  known : ∀ t cp, w.shared.checkpoints.get t = some cp → ∃ e ∈ w.shared.log, e.createdId = some t
  rows : ∀ t, (w.shared.db.run t).isSome → (w.shared.checkpoints.get t).isSome
  unparked : ∀ t cp r, w.shared.checkpoints.get t = some cp → cp.Unparked →
    w.shared.db.run t = some r → r.status.terminal = false
  apart : ∀ i j inv inv', w.procs i = .api (.seeding inv) → w.procs j = .api (.seeding inv') →
    inv.checkpoint.threadId = inv'.checkpoint.threadId → i = j
  knows : ∀ i, SeedKnows w.shared (w.procs i)

/-! ## What one action does to a thread -/

theorem Node.after_seeding {n : Node} {s : TicketState} (h : Seeding (n.after s)) :
    n = .dispatchClassify := by
  cases n with
  | dispatchClassify => rfl
  | awaitClassify => by_cases he : s.status = .escalated <;> simp [Seeding, Node.after, he] at h
  | awaitDraft => by_cases he : s.status = .escalated <;> simp [Seeding, Node.after, he] at h
  | decideApproval => cases he : s.needsApproval <;> simp [Seeding, Node.after, he] at h
  | _ => simp [Seeding, Node.after] at h

variable {sh' : Shared} {w : World} {i j : WorkerId} {p' : Proc} {a : Action} {t : TicketId}

/-- A thread stays as it is, is created, or is written by a process that drives it; then it is
parked or past its first interrupt, unless that process seeds it. -/
theorem SeedsOwned.thread (h : SeedsOwned w) (hs : ¬ (w.procs i).Sweeping)
    (hP : (w.procs i).ThreadSound w.shared.checkpoints)
    (he : Effect w.shared i (w.procs i) a sh' p') (t : TicketId) :
    sh'.checkpoints.get t = w.shared.checkpoints.get t ∨
    (w.shared.checkpoints.get t = none ∧ sh'.db = w.shared.db ∧ w.procs i = .idle ∧
      (sh'.checkpoints.get t).isSome) ∨
    ∃ inv cp', (w.procs i).invocation = some inv ∧ inv.checkpoint.threadId = t ∧
      (w.shared.checkpoints.get t).isSome ∧ sh'.checkpoints.get t = some cp' ∧
      (cp'.Unparked → w.procs i = .api (.seeding inv)) := by
  have hsome : ∀ {dr : Driver} {inv : Invocation}, w.procs i = dr.driving inv →
      (w.shared.checkpoints.get inv.checkpoint.threadId).isSome := by
    intro dr inv hp
    cases dr with
    | createTicket =>
      rw [((h.knows i).owned inv hp).1]
      rfl
    | step run resume =>
      obtain ⟨cp, hcp, -⟩ := (h.knows i).inspected run (by rw [hp]; rfl)
      rw [hp] at hP
      rw [hP.1, hcp]
      rfl
  cases he.threadChange t with
  | same heq => exact .inl heq
  | created hp ha ht hf hdb hlog hseq heq =>
    right
    left
    refine ⟨Option.eq_none_iff_forall_ne_some.mpr fun cp hcp => ?_, hdb, hp, by rw [heq]; rfl⟩
    obtain ⟨e, hm, hid⟩ := h.known t cp hcp
    exact hf e hm hid
  | put hp ha ht hr hn hp' hdb hlog hseq heq =>
    rename_i dr inv values next
    right
    right
    refine ⟨inv, _, by rw [hp]; simp, ht, ht ▸ hsome hp, heq, fun hun => ?_⟩
    cases dr with
    | createTicket => exact hp
    | step run resume =>
      have hne := (h.knows i).invoked run resume inv hp
      have hseed : Seeding next := hun.1
      cases hnx : inv.checkpoint.next with
      | none =>
        rw [hn, hnx] at hseed
        rcases hseed with hx | hx <;> cases hx
      | some n =>
        rw [hn, hnx] at hseed
        exact absurd (hnx.trans (congrArg some (Node.after_seeding hseed))) hne
  | suspended hp ha ht hr hcp hid hp' hdb hlog heq =>
    rename_i dr inv env cp
    right
    right
    exact ⟨inv, _, by rw [hp]; simp, ht, ht ▸ hsome hp, heq, fun hun => nomatch hun.2⟩
  | deleted hp ha heq =>
    rw [hp] at hs
    exact absurd trivial hs

theorem SeedsOwned.kept (h : SeedsOwned w) (hs : ¬ (w.procs i).Sweeping)
    (hP : (w.procs i).ThreadSound w.shared.checkpoints)
    (he : Effect w.shared i (w.procs i) a sh' p') (ht : (w.shared.checkpoints.get t).isSome) :
    (sh'.checkpoints.get t).isSome := by
  rcases h.thread hs hP he t with heq | ⟨-, -, -, hsome⟩ | ⟨inv, cp', -, -, -, heq, -⟩
  · rwa [heq]
  · exact hsome
  · rw [heq]
    rfl

/-- A thread that is parked or past its first interrupt stays so. -/
theorem SeedsOwned.parked {cp : Checkpoint} (h : SeedsOwned w) (hs : ¬ (w.procs i).Sweeping)
    (hP : (w.procs i).ThreadSound w.shared.checkpoints)
    (he : Effect w.shared i (w.procs i) a sh' p') (hcp : w.shared.checkpoints.get t = some cp)
    (hun : ¬ cp.Unparked) : ∃ cp', sh'.checkpoints.get t = some cp' ∧ ¬ cp'.Unparked := by
  rcases h.thread hs hP he t with heq | ⟨hnone, -⟩ | ⟨inv, cp', -, ht, -, heq, hseed⟩
  · exact ⟨cp, heq.trans hcp, hun⟩
  · rw [hcp] at hnone
    cases hnone
  · refine ⟨cp', heq, fun hun' => ?_⟩
    obtain ⟨hown, hun₀⟩ := (h.knows i).owned inv (hseed hun')
    rw [ht, hcp] at hown
    cases hown
    exact hun hun₀

/-- A thread that has not come to its first interrupt had not before, or is new. -/
theorem SeedsOwned.unparked_before {cp' : Checkpoint} (h : SeedsOwned w)
    (hs : ¬ (w.procs i).Sweeping) (hP : (w.procs i).ThreadSound w.shared.checkpoints)
    (he : Effect w.shared i (w.procs i) a sh' p') (hcp' : sh'.checkpoints.get t = some cp')
    (hun : cp'.Unparked) : (∃ cp, w.shared.checkpoints.get t = some cp ∧ cp.Unparked) ∨
      w.shared.checkpoints.get t = none ∧ sh'.db = w.shared.db := by
  cases hcp : w.shared.checkpoints.get t with
  | none =>
    rcases h.thread hs hP he t with heq | ⟨-, hdb, -⟩ | ⟨inv, cp₁, -, -, hsome, -⟩
    · rw [hcp', hcp] at heq
      cases heq
    · exact .inr ⟨rfl, hdb⟩
    · rw [hcp] at hsome
      cases hsome
  | some cp =>
    refine .inl ⟨cp, rfl, ?_⟩
    by_contra hno
    obtain ⟨cp₁, hcp₁, hun₁⟩ := h.parked hs hP he hcp hno
    rw [hcp'] at hcp₁
    cases hcp₁
    exact hun₁ hun

theorem SeedsOwned.untouched {inv : Invocation} (h : SeedsOwned w) (hs : ¬ (w.procs i).Sweeping)
    (hP : (w.procs i).ThreadSound w.shared.checkpoints)
    (he : Effect w.shared i (w.procs i) a sh' p') (hj : w.procs j = .api (.seeding inv))
    (hij : j ≠ i) : sh'.checkpoints.get inv.checkpoint.threadId = some inv.checkpoint := by
  obtain ⟨hown, hun⟩ := (h.knows j).owned inv hj
  rcases h.thread hs hP he inv.checkpoint.threadId with heq | ⟨hnone, -⟩ |
    ⟨inv', cp', hinv', ht, -⟩
  · exact heq.trans hown
  · rw [hown] at hnone
    cases hnone
  · exfalso
    unfold Proc.invocation at hinv'
    split at hinv'
    · rename_i inv₁ hp
      cases hinv'
      exact hij (h.apart j i inv inv' hj hp ht.symm)
    · rename_i run resume inv₁ hp
      cases hinv'
      obtain ⟨cp, hcp, hno⟩ := (h.knows i).inspected run (by rw [hp]; rfl)
      rw [hp] at hP
      rw [← hP.1, ht, hown] at hcp
      cases hcp
      exact hno hun
    · cases hinv'

/-! ## What the acting process does -/

theorem Effect.inspects {sh : Shared} {p : Proc} {run : WorkflowRun} (h : Effect sh i p a sh' p')
    (hr : p'.inspects = some run) : p.inspects = some run ∨
    p = .runner (.claimed run) ∧ sh' = sh ∧
      ∃ cp, sh.checkpoints.get run.ticketId = some cp ∧ cp.interrupt.isSome := by
  cases h with
  | quiet h =>
    cases h with
    | ended hres hn => exact .inl ((Proc.inspects_returned ..).trans hr)
    | inspected hcp henv =>
      cases hr
      exact .inr ⟨rfl, rfl, _, hcp, by rw [henv]; rfl⟩
    | ready hres => exact .inl hr
    | resumed hcp => exact .inl hr
    | _ => cases hr
  | tick elapsed => exact .inl hr
  | ran hres hn hrun => exact .inl ((Proc.inspects_driving ..).trans hr)
  | put hres hn => exact .inl ((Proc.inspects_driving ..).trans hr)
  | suspended hres => exact .inl ((Proc.inspects_returned ..).trans hr)
  | failed hm hs hf => split at hr <;> cases hr
  | _ => cases hr

/-- The handler of `create_ticket` keeps its copy of the checkpoint up to date. -/
theorem Effect.seeds {sh : Shared} {p : Proc} {inv : Invocation} (h : Effect sh i p a sh' p')
    (hp' : p' = .api (.seeding inv)) :
    (∃ inv₀, p = .api (.seeding inv₀) ∧ inv.checkpoint = inv₀.checkpoint ∧
      sh'.checkpoints = sh.checkpoints) ∨
    (inv.checkpoint.interrupt = none ∧
      sh'.checkpoints.get inv.checkpoint.threadId = some inv.checkpoint ∧
      ((∃ inv₀, p = .api (.seeding inv₀) ∧ inv.checkpoint.threadId = inv₀.checkpoint.threadId) ∨
        ∀ e ∈ sh.log, e.createdId ≠ some inv.checkpoint.threadId)) := by
  cases h with
  | tick elapsed => exact .inl ⟨inv, hp', rfl, rfl⟩
  | created hf =>
    cases hp'
    exact .inr ⟨rfl, Checkpoints.get_put_self, .inr hf⟩
  | @ran dr inv₀ n db result hres hn hrun =>
    cases dr with
    | step run resume => cases hp'
    | createTicket =>
      cases hp'
      exact .inl ⟨inv₀, rfl, rfl, rfl⟩
  | @put dr inv₀ values next hres hn =>
    cases dr with
    | step run resume => cases hp'
    | createTicket =>
      cases hp'
      exact .inr ⟨rfl, Checkpoints.get_put_self, .inl ⟨inv₀, rfl, rfl⟩⟩
  | @suspended dr inv₀ env hres => cases dr <;> cases hp'
  | failed hm hs hf => split at hp' <;> cases hp'
  | quiet h =>
    cases h with
    | @ended dr inv₀ hres hn => cases dr <;> cases hp'
    | _ => cases hp'
  | _ => cases hp'

/-- A row is about to be inserted for a thread that exists. -/
theorem Effect.creates {sh : Shared} {p : Proc} {values : TicketState} (h : Effect sh i p a sh' p')
    (hc : p'.creates = some (t, values)) : p.creates = some (t, values) ∨
    (∃ inv, p = .api (.seeding inv) ∧ inv.checkpoint.threadId = t) ∨
    (sh.checkpoints.get t).isSome := by
  cases h with
  | tick elapsed => exact .inl hc
  | @ran dr inv n db result hres hn hrun => cases dr <;> cases hc
  | @put dr inv values next hres hn => cases dr <;> cases hc
  | @suspended dr inv env hres =>
    cases dr with
    | step run resume => cases hc
    | createTicket =>
      cases hc
      exact .inr (.inl ⟨inv, rfl, rfl⟩)
  | failed hm hs hf => split at hc <;> cases hc
  | quiet h =>
    cases h with
    | @ended dr inv hres hn =>
      cases dr with
      | step run resume => cases hc
      | createTicket =>
        cases hc
        exact .inr (.inl ⟨inv, rfl, rfl⟩)
    | projecting hcp =>
      cases hc
      exact .inr (.inr (by rw [hcp]; rfl))
    | _ => cases hc
  | _ => cases hc

/-- A runner invokes the graph with the checkpoint it finds, or the one it has just put. -/
theorem Effect.invokes {sh : Shared} {p : Proc} {run : WorkflowRun} {resume : ResumeValue}
    {inv : Invocation} (h : Effect sh i p a sh' p')
    (hp' : p' = .runner (.invoking run resume inv)) :
    (∃ inv₀, p = .runner (.invoking run resume inv₀) ∧
      inv.checkpoint.next = inv₀.checkpoint.next) ∨
    (∃ n s, inv.checkpoint.next = Node.after n s) ∨ inv.checkpoint.next = none ∨
    p.inspects = some run ∧ sh.checkpoints.get run.ticketId = some inv.checkpoint := by
  cases h with
  | tick elapsed => exact .inl ⟨inv, hp', rfl⟩
  | @ran dr inv₀ n db result hres hn hrun =>
    cases dr with
    | createTicket => cases hp'
    | step run resume =>
      cases hp'
      exact .inl ⟨inv₀, rfl, rfl⟩
  | @put dr inv₀ values next hres hn =>
    cases dr with
    | createTicket => cases hp'
    | step run resume =>
      cases hp'
      change _ ∨ (∃ n s, next = Node.after n s) ∨ next = none ∨ _
      rw [hn]
      cases inv₀.checkpoint.next with
      | none => exact .inr (.inr (.inl rfl))
      | some n => exact .inr (.inl ⟨n, values, rfl⟩)
  | @suspended dr inv₀ env hres => cases dr <;> cases hp'
  | failed hm hs hf => split at hp' <;> cases hp'
  | quiet h =>
    cases h with
    | @ended dr inv₀ hres hn => cases dr <;> cases hp'
    | resumed hcp =>
      cases hp'
      exact .inr (.inr (.inr ⟨rfl, hcp⟩))
    | _ => cases hp'
  | _ => cases hp'

/-! ## The invariant is kept -/

theorem SeedsOwned.known_next (h : SeedsOwned w) (hs : ¬ (w.procs i).Sweeping)
    (hP : (w.procs i).ThreadSound w.shared.checkpoints)
    (he : Effect w.shared i (w.procs i) a sh' p') {cp : Checkpoint}
    (hcp : sh'.checkpoints.get t = some cp) : ∃ e ∈ sh'.log, e.createdId = some t := by
  cases hold : w.shared.checkpoints.get t with
  | some cp₀ =>
    obtain ⟨e, hm, hid⟩ := h.known t cp₀ hold
    exact ⟨e, he.log_suffix.subset hm, hid⟩
  | none =>
    cases he.threadChange t with
    | same heq =>
      rw [heq, hold] at hcp
      cases hcp
    | created hp ha ht hf hdb hlog hseq heq =>
      rename_i ticket
      exact ⟨.created ticket, hlog ▸ List.mem_cons_self, congrArg some ht⟩
    | put hp ha ht hr hn hp' hdb hlog hseq heq =>
      rcases h.thread hs hP he t with heq' | ⟨-, -, hidle, -⟩ | ⟨inv, cp', -, -, hsome, -⟩
      · rw [heq', hold] at hcp
        cases hcp
      · rename_i dr inv values next
        rw [hp] at hidle
        cases dr <;> cases hidle
      · rw [hold] at hsome
        cases hsome
    | suspended hp ha ht hr hcp₀ hid hp' hdb hlog heq =>
      rw [hold] at hcp₀
      cases hcp₀
    | deleted hp ha heq =>
      rw [heq] at hcp
      cases hcp

/-- A row that is there afterwards belongs to a thread that exists. -/
theorem SeedsOwned.rows_next (h : SeedsOwned w) (hs : ¬ (w.procs i).Sweeping)
    (hn : RunKeys w.shared.db) (hP : (w.procs i).ThreadSound w.shared.checkpoints)
    (he : Effect w.shared i (w.procs i) a sh' p') (hr : (sh'.db.run t).isSome) :
    (sh'.checkpoints.get t).isSome := by
  refine h.kept hs hP he ?_
  cases hr₀ : w.shared.db.run t with
  | some r => exact h.rows t (by rw [hr₀]; rfl)
  | none =>
    cases he.runChange hn t with
    | created hc ha hnone heq hlog => exact (h.knows i).creates t _ hc
    | same heq =>
      rw [heq, hr₀] at hr
      cases hr
    | saved hs ht ha hp' heq hlog =>
      rw [heq, hr₀] at hr
      cases hr
    | woken hp ht ha hp' heq hlog =>
      rw [heq, hr₀] at hr
      cases hr
    | claimed hp ha hr' hc hp' heq hlog =>
      rw [hr₀] at hr'
      cases hr'
    | accepted hp ha hr' hst heq hlog =>
      rw [hr₀] at hr'
      cases hr'
    | reclaimed hp hr' hx hlt heq hlog =>
      rw [hr₀] at hr'
      cases hr'
    | archived hp ha hr' harch heq hlog =>
      rw [hr₀] at hr'
      cases hr'

/-- The row of a thread before its first interrupt is in no terminal status. -/
theorem SeedsOwned.unparked_next {cp' : Checkpoint} {r' : WorkflowRun} (h : SeedsOwned w)
    (hs : ¬ (w.procs i).Sweeping) (hn : RunKeys w.shared.db)
    (hP : (w.procs i).ThreadSound w.shared.checkpoints) (hJ : RowSound w.shared (w.procs i))
    (he : Effect w.shared i (w.procs i) a sh' p') (hcp' : sh'.checkpoints.get t = some cp')
    (hun : cp'.Unparked) (hr' : sh'.db.run t = some r') : r'.status.terminal = false := by
  rcases h.unparked_before hs hP he hcp' hun with ⟨cp, hcp, hun₀⟩ | ⟨hnone, hdb⟩
  · have old : ∀ r, w.shared.db.run t = some r → r.status.terminal = false := fun r =>
      h.unparked t cp r hcp hun₀
    cases he.runChange hn t with
    | same heq => exact old r' (heq.symm.trans hr')
    | claimed hp ha hr hc hp' heq hlog =>
      rw [hr'] at heq
      cases heq
      have hterm := old _ hr
      exact hterm
    | saved hsv ht ha hp' heq hlog =>
      rename_i s
      obtain ⟨r, hr, rfl⟩ := Option.map_eq_some_iff.mp (heq.symm.trans hr')
      change s.status.terminal = false
      unfold Proc.saves at hsv
      split at hsv
      · rename_i run hp
        cases hsv
        cases ht
        exact (h.knows i).held run cp (by rw [hp]; rfl) hcp hun₀
      · rename_i run resume out hp
        cases hsv
        obtain ⟨cp₁, hcp₁, hno⟩ := (h.knows i).inspected run (by rw [hp]; rfl)
        rw [show run.ticketId = t from ht, hcp] at hcp₁
        cases hcp₁
        exact absurd hun₀ hno
      · cases hsv
    | woken hp ht ha hp' heq hlog =>
      obtain ⟨r, hr, rfl⟩ := Option.map_eq_some_iff.mp (heq.symm.trans hr')
      exact old r hr
    | accepted hp ha hr hst heq hlog =>
      rw [hr'] at heq
      cases heq
      have hterm := old _ hr
      exact hterm
    | reclaimed hp hr hx hlt heq hlog =>
      rw [hr'] at heq
      cases heq
      have hterm := old _ hr
      exact hterm
    | created hc ha hno heq hlog =>
      rw [hr'] at heq
      cases heq
      rcases hJ.creates t _ hc with hterm | hsome
      · exact hterm
      · rw [hno] at hsome
        cases hsome
    | archived hp ha hr harch heq hlog =>
      rw [heq] at hr'
      cases hr'
  · -- a new thread has no row yet
    rw [hdb] at hr'
    have hsome := h.rows t (by rw [hr']; rfl)
    rw [hnone] at hsome
    cases hsome

/-- What a process holds of a thread before its first interrupt is in no terminal status. -/
theorem SeedsOwned.held_next {run : WorkflowRun} {cp' : Checkpoint} (h : SeedsOwned w)
    (hs : ¬ (w.procs i).Sweeping) (hP : (w.procs i).ThreadSound w.shared.checkpoints)
    (he : Effect w.shared i (w.procs i) a sh' p')
    (hcp' : sh'.checkpoints.get run.ticketId = some cp') (hun : cp'.Unparked)
    (hrow : (w.shared.db.run run.ticketId).isSome)
    (hold : ∀ cp, w.shared.checkpoints.get run.ticketId = some cp → cp.Unparked →
      run.status.terminal = false) : run.status.terminal = false := by
  rcases h.unparked_before hs hP he hcp' hun with ⟨cp, hcp, hun₀⟩ | ⟨hnone, -⟩
  · exact hold cp hcp hun₀
  · have hsome := h.rows _ hrow
    rw [hnone] at hsome
    cases hsome

theorem SeedsOwned.knows_other (h : SeedsOwned w) (hs : ¬ (w.procs i).Sweeping)
    (hP : (w.procs i).ThreadSound w.shared.checkpoints) (hJ : RowSound w.shared (w.procs j))
    (he : Effect w.shared i (w.procs i) a sh' p') (hij : j ≠ i) : SeedKnows sh' (w.procs j) := by
  have hk := h.knows j
  refine ⟨fun inv hp => ⟨h.untouched hs hP he hp hij, (hk.owned inv hp).2⟩, fun run hins => ?_,
    hk.invoked, fun t values hc => h.kept hs hP he (hk.creates t values hc), ?_⟩
  · obtain ⟨cp, hcp, hno⟩ := hk.inspected run hins
    exact h.parked hs hP he hcp hno
  · intro run cp' hold hcp' hun
    exact h.held_next hs hP he hcp' hun (hJ.holds run hold).1 fun cp => hk.held run cp hold

theorem SeedsOwned.knows_acts (h : SeedsOwned w) (hs : ¬ (w.procs i).Sweeping)
    (hn : RunKeys w.shared.db) (hT : ThreadsSound w.shared.checkpoints)
    (hP : (w.procs i).ThreadSound w.shared.checkpoints) (hJ : RowSound w.shared (w.procs i))
    (he : Effect w.shared i (w.procs i) a sh' p') : SeedKnows sh' p' := by
  have hk := h.knows i
  refine ⟨fun inv hp' => ?_, fun run hins => ?_, fun run resume inv hp' => ?_, fun t values hc => ?_,
    fun run cp' hhold hcp' hun => ?_⟩
  · have hseed : Seeding inv.checkpoint.next := (Proc.Seeds.acts hJ.seeding hP he inv hp').1
    rcases he.seeds hp' with ⟨inv₀, hp, hcp, hsame⟩ | ⟨hint, hget, -⟩
    · rw [hcp, hsame]
      exact hk.owned inv₀ hp
    · exact ⟨hget, hseed, hint⟩
  · rcases he.inspects hins with hold | ⟨-, rfl, cp, hcp, hsome⟩
    · obtain ⟨cp, hcp, hno⟩ := hk.inspected run hold
      exact h.parked hs hP he hcp hno
    · refine ⟨cp, hcp, fun hun => ?_⟩
      rw [hun.2] at hsome
      cases hsome
  · rcases he.invokes hp' with ⟨inv₀, hp, hnx⟩ | ⟨n, s, hnx⟩ | hnx | ⟨hins, hcp⟩
    · rw [hnx]
      exact hk.invoked run resume inv₀ hp
    · rw [hnx]
      intro hd
      have hdispatch := Node.after_seeding (n := n) (s := s) (.inl hd)
      rw [hdispatch] at hd
      cases hd
    · rw [hnx]
      nofun
    · obtain ⟨cp, hcp', hno⟩ := hk.inspected run hins
      rw [hcp] at hcp'
      cases hcp'
      intro hd
      -- the first node never suspends
      cases hint : inv.checkpoint.interrupt with
      | none => exact hno ⟨.inl hd, hint⟩
      | some env =>
        obtain ⟨n, hnx, hsus⟩ := (hT _ _ hcp).1.parked env hint
        rw [hd] at hnx
        cases hnx
        cases hsus
  · refine h.kept hs hP he ?_
    rcases he.creates hc with hold | ⟨inv, hp, rfl⟩ | hsome
    · exact hk.creates t values hold
    · rw [(hk.owned inv hp).1]
      rfl
    · exact hsome
  · rcases he.holds hhold with hold | ⟨locked, db, -, -, hcl, rfl⟩
    · exact h.held_next hs hP he hcp' hun (hJ.holds run hold).1 fun cp => hk.held run cp hold
    · obtain ⟨r, hr, -, rfl, -⟩ := run_claimRun hn hcl
      have hterm : r.status.terminal = false := h.unparked _ cp' r hcp' hun hr
      exact hterm

theorem SeedsOwned.effect (h : SeedsOwned w) (hs : ¬ (w.procs i).Sweeping)
    (hn : RunKeys w.shared.db) (hT : ThreadsSound w.shared.checkpoints)
    (hP : (w.procs i).ThreadSound w.shared.checkpoints) (hJ : ∀ j, RowSound w.shared (w.procs j))
    (he : Effect w.shared i (w.procs i) a sh' p') :
    SeedsOwned ⟨sh', Function.update w.procs i p'⟩ := by
  -- a new handler's thread is new
  have fresh : ∀ {j inv inv'}, j ≠ i → p' = .api (.seeding inv) → w.procs j = .api (.seeding inv') →
      inv.checkpoint.threadId ≠ inv'.checkpoint.threadId := by
    intro j inv inv' hj hp' hp ht
    rcases he.seeds hp' with ⟨inv₀, hp₀, hcp, -⟩ | ⟨-, -, ⟨inv₀, hp₀, hcp⟩ | hf⟩
    · exact hj (h.apart i j inv₀ inv' hp₀ hp (hcp ▸ ht)).symm
    · exact hj (h.apart i j inv₀ inv' hp₀ hp (hcp.symm.trans ht)).symm
    · obtain ⟨e, hm, hid⟩ := h.known _ _ ((h.knows j).owned inv' hp).1
      exact hf e hm (ht ▸ hid)
  refine ⟨fun t cp => h.known_next hs hP he, fun t => h.rows_next hs hn hP he,
    fun t cp r => h.unparked_next hs hn hP (hJ i) he, ?_, fun j => ?_⟩
  · intro j k inv inv' hj hk ht
    by_cases hji : j = i
    · subst hji
      by_cases hki : k = j
      · exact hki.symm
      · simp only [Function.update_self, Function.update_of_ne hki] at hj hk
        exact absurd ht (fresh hki hj hk)
    · by_cases hki : k = i
      · subst hki
        simp only [Function.update_self, Function.update_of_ne hji] at hj hk
        exact absurd ht.symm (fresh hji hk hj)
      · simp only [Function.update_of_ne hji, Function.update_of_ne hki] at hj hk
        exact h.apart j k inv inv' hj hk ht
  · by_cases hj : j = i
    · subst hj
      simpa using h.knows_acts hs hn hT hP (hJ j) he
    · simpa [Function.update_of_ne hj] using h.knows_other hs hP (hJ j) he hj

/-- Where no sweep starts, every handler owns the thread it is seeding. -/
theorem World.ReachableWhen.seeds {ok : World → WorkerId → Action → Prop}
    (hok : ∀ w i a, ok w i a → Unswept w i a) {w : World} (hw : World.ReachableWhen ok w) :
    SeedsOwned w := by
  refine World.ReachableWhen.worldInvariant (I := SeedsOwned) ?_ ?_ hw
  · exact ⟨fun _ _ h => (nomatch h), fun _ h => (nomatch h), fun _ _ _ h => (nomatch h),
      fun _ _ _ _ h => (nomatch h), fun _ => ⟨fun _ h => (nomatch h), fun _ h => (nomatch h),
      fun _ _ _ h => (nomatch h), fun _ _ h => (nomatch h), fun _ _ h => (nomatch h)⟩⟩
  · intro w i a sh' p' hr _ h he
    obtain ⟨hT, hP⟩ := World.Reachable.threads hr.reachable
    obtain ⟨hR, hJ⟩ := World.ReachableWhen.rows hok hr
    exact h.effect (World.ReachableWhen.not_sweeping hok hr i) hR.keys hT (hP i) hJ he

end TicketFlow
