import TicketFlow.Redrive

/-! # Overtaking

A runner whose lease was taken over keeps its copy of a checkpoint that another process has moved on
from. Where nobody overtaken saves, the checkpoints of a thread form one line: a thread does not
come back to a node, and whoever drives it is at its latest checkpoint or behind it. -/

namespace TicketFlow
open Table Interleaving
set_option autoImplicit false

/-- What a thread's latest checkpoint is after a step that overtakes nobody. -/
inductive Onward (sh sh' : Shared) (t : TicketId) (cp' : Checkpoint) : Prop
  | stays {cp} : sh.checkpoints.get t = some cp → cp'.checkpointId = cp.checkpointId →
      cp'.next = cp.next → cp'.values = cp.values → (cp.interrupt.isSome → cp'.interrupt.isSome) →
      Onward sh sh' t cp'
  | moves {cp} : sh.checkpoints.get t = some cp → Node.rank cp'.next < Node.rank cp.next →
      Onward sh sh' t cp'
  | starts : ¬ Created t sh.log → cp'.next = some .dispatchClassify → Onward sh sh' t cp'

/-- The node that ran is done, and its checkpoint is saved next. -/
def Invocation.puts (inv : Invocation) : Bool :=
  match inv.result with
  | some (.update _) => true
  | _ => false

/-- A checkpoint is saved only over the one its process read: the process is not one that another
has overtaken on the thread. -/
def SavesLatest (w : World) (i : WorkerId) : Prop :=
  ∀ inv ∈ (w.procs i).invocation, inv.puts = true →
    (w.shared.checkpoints.get inv.checkpoint.threadId).map Checkpoint.checkpointId =
      some inv.checkpoint.checkpointId

instance (w : World) (i : WorkerId) : Decidable (SavesLatest w i) :=
  inferInstanceAs (Decidable (∀ inv ∈ (w.procs i).invocation, _))

/-- Who drives a thread is at its latest checkpoint or behind it. -/
def Behind (w : World) : Prop := ∀ j inv cp, (w.procs j).invocation = some inv →
  w.shared.checkpoints.get inv.checkpoint.threadId = some cp →
  cp.checkpointId = inv.checkpoint.checkpointId ∨
    Node.rank cp.next < Node.rank inv.checkpoint.next

/-- The thread has come to the node, or passed it. -/
def Reached (c : Checkpoints) (t : TicketId) (n : Node) : Prop :=
  ∀ cp, c.get t = some cp → Node.rank cp.next ≤ Node.rank (some n)

variable {sh sh' : Shared} {w : World} {i : WorkerId} {p p' : Proc} {a : Action} {t : TicketId}
  {n : Node}

/-! ## Who drives a thread -/

theorem Proc.ThreadSound.of_invocation {c : Checkpoints} {inv : Invocation} (h : p.ThreadSound c)
    (hinv : p.invocation = some inv) : inv.Sound c := by
  unfold Proc.invocation at hinv
  split at hinv
  · cases hinv
    exact h.2
  · cases hinv
    exact h.2.2
  · cases hinv

theorem Proc.ThreadSound.drives {c : Checkpoints} {inv : Invocation} (h : p.ThreadSound c)
    (hinv : p.invocation = some inv) : p.Drives inv.checkpoint.threadId := by
  unfold Proc.invocation at hinv
  split at hinv
  · cases hinv
    rfl
  · cases hinv
    exact h.1.symm
  · cases hinv

/-- A driver carries on from its checkpoint, or from the one it has just read or put. -/
theorem Effect.drivesFrom {inv' : Invocation} (h : Effect sh i p a sh' p')
    (hinv : p'.invocation = some inv') :
    (∃ inv, p.invocation = some inv ∧ inv'.checkpoint = inv.checkpoint) ∨
      sh'.checkpoints.get inv'.checkpoint.threadId = some inv'.checkpoint := by
  cases h.driveChange hinv with
  | still hold => exact .inl ⟨inv', hold, rfl⟩
  | ran hp hr hn hrun hinv' hsh =>
    subst hp hinv'
    exact .inl ⟨_, Proc.invocation_driving .., rfl⟩
  | put hget hr hnil => exact .inr hget
  | read hp' hsh hget hr ho => exact .inr (hsh ▸ hget)

/-! ## One line -/

theorem Effect.onward {cp' : Checkpoint} (hok : a = .advance → SavesLatest w i)
    (hP : (w.procs i).ThreadSound w.shared.checkpoints)
    (he : Effect w.shared i (w.procs i) a sh' p') (hcp : sh'.checkpoints.get t = some cp') :
    Onward w.shared sh' t cp' := by
  cases he.threadChange t with
  | same heq => exact .stays (heq.symm.trans hcp) rfl rfl rfl id
  | created hp₀ ha ht hf hdb hlog hseq heq =>
    cases hcp.symm.trans heq
    exact .starts (fun ⟨e, hm, hid⟩ => hf e hm hid) rfl
  | put hp₀ ha ht hr hn hp' hdb hlog hseq heq =>
    rename_i dr inv values next
    cases hcp.symm.trans heq
    have hinvo : (w.procs i).invocation = some inv := by rw [hp₀]; simp
    have hlatest := hok ha inv hinvo (by rw [Invocation.puts, hr])
    obtain ⟨cp, hget, hid⟩ := Option.map_eq_some_iff.mp hlatest
    rw [hp₀] at hP
    have hsound := Proc.ThreadSound.invocation hP
    obtain ⟨-, hnext⟩ := hsound.copy cp hget hid
    obtain ⟨n, hsome, -⟩ := hsound.result _ hr
    refine .moves (ht ▸ hget) ?_
    change Node.rank next < _
    rw [hn, hnext, hsome]
    exact n.rank_after values
  | suspended hp₀ ha ht hr hcp₀ hid hp' hdb hlog heq =>
    cases hcp.symm.trans heq
    exact .stays hcp₀ rfl rfl rfl fun _ => rfl
  | deleted hp₀ ha heq =>
    rw [heq] at hcp
    cases hcp

theorem Reached.effect (h : Reached w.shared.checkpoints t n)
    (hok : a = .advance → SavesLatest w i)
    (hP : (w.procs i).ThreadSound w.shared.checkpoints) (hc : Created t w.shared.log)
    (he : Effect w.shared i (w.procs i) a sh' p') : Reached sh'.checkpoints t n := by
  intro cp' hcp
  cases he.onward hok hP hcp with
  | stays hcp₀ hid hnext hvals hint =>
    rw [hnext]
    exact h _ hcp₀
  | moves hcp₀ hlt => exact hlt.le.trans (h _ hcp₀)
  | starts hf hnext => exact absurd hc hf

/-- Whoever drove the thread before the step is still at its latest checkpoint or behind it. -/
theorem Behind.onward {j : WorkerId} {inv : Invocation} {cp' : Checkpoint} (h : Behind w)
    (hP : (w.procs j).ThreadSound w.shared.checkpoints)
    (hc : ∀ t, (w.procs j).Drives t → Created t w.shared.log)
    (hinv : (w.procs j).invocation = some inv)
    (ho : Onward w.shared sh' inv.checkpoint.threadId cp') :
    cp'.checkpointId = inv.checkpoint.checkpointId ∨
      Node.rank cp'.next < Node.rank inv.checkpoint.next := by
  cases ho with
  | stays hcp hid hnext hvals hint =>
    rw [hid, hnext]
    exact h j inv _ hinv hcp
  | moves hcp hlt =>
    right
    rcases h j inv _ hinv hcp with hid | hlt'
    · obtain ⟨-, hnext⟩ := (hP.of_invocation hinv).copy _ hcp hid
      rw [← hnext]
      exact hlt
    · exact hlt.trans hlt'
  | starts hf hnext => exact absurd (hc _ (hP.drives hinv)) hf

theorem Behind.effect (h : Behind w) (hok : a = .advance → SavesLatest w i)
    (hP : ∀ j, (w.procs j).ThreadSound w.shared.checkpoints)
    (hc : ∀ j t, (w.procs j).Drives t → Created t w.shared.log)
    (he : Effect w.shared i (w.procs i) a sh' p') :
    Behind ⟨sh', Function.update w.procs i p'⟩ := by
  intro j inv cp' hinv hcp
  change (Function.update w.procs i p' j).invocation = some inv at hinv
  have ho := he.onward hok (hP i) hcp
  by_cases hj : j = i
  · subst hj
    rw [Function.update_self] at hinv
    rcases he.drivesFrom hinv with ⟨inv₀, hinv₀, hsame⟩ | hget
    · rw [hsame] at ho ⊢
      exact h.onward (hP j) (hc j) hinv₀ ho
    · cases hcp.symm.trans hget
      exact .inl rfl
  · rw [Function.update_of_ne hj] at hinv
    exact h.onward (hP j) (hc j) hinv ho

theorem World.ReachableWhen.behind {ok : World → WorkerId → Action → Prop}
    (hok : ∀ w i, ok w i .advance → SavesLatest w i) (hw : World.ReachableWhen ok w) :
    Behind w := by
  refine World.ReachableWhen.worldInvariant (I := Behind) (fun _ _ _ h => nomatch h) ?_ hw
  intro w i a sh' p' hr ha h he
  have hw : World.Reachable w := hr.reachable
  exact h.effect (fun hadv => hok w i (hadv ▸ ha)) hw.threads.2 hw.created.2 he

end TicketFlow
