import TicketFlow.Graph

/-! # The stages of a ticket

What the state holds when a node is next, and how each node moves it on: a node that returns an
update leads to a state fit for its successor, a node that suspends shows one of six envelopes, and
a node raises only at a value it does not accept. -/

namespace TicketFlow
set_option autoImplicit false

/-- What the state holds when the node is next; at `END` it holds the result. -/
def StateFor (s : TicketState) : Option Node → Prop
  | some .dispatchClassify => s.status = .received
  | some .awaitClassify => s.status = .classifying ∧ s.wakeupAt.isSome
  | some .dispatchDraft => s.status = .classifying ∧ s.classification.isSome
  | some .awaitDraft => s.status = .drafting ∧ s.classification.isSome ∧ s.wakeupAt.isSome
  | some .decideApproval => s.status = .drafting ∧ s.classification.isSome ∧ s.draft.isSome
  | some .prepareApproval => s.status = .drafting ∧ s.classification.isSome ∧
      ∃ reply ∈ s.draft, Graph.Risky reply
  | some .awaitApproval => s.status = .awaitingApproval ∧ s.classification.isSome ∧
      s.wakeupAt.isSome ∧ ∃ reply ∈ s.draft, Graph.Risky reply
  | some .execute => s.classification.isSome ∧ ∃ reply ∈ s.draft,
      (s.status = .rejected ∧ ∃ d ∈ s.decision, d.approved = false) ∨ s.status = .escalated ∨
      (s.status = .drafting ∧ ¬ Graph.Risky reply) ∨
      (s.status = .awaitingApproval ∧ ∃ d ∈ s.decision, d.approved = true)
  | none => s.wakeupAt = none ∧ ∃ r ∈ s.result, r.ticketId = s.ticket.id ∧ s.status = r.status

/-- The envelopes a node suspends with, and the values its interrupts have returned by then. -/
inductive Suspends (s : TicketState) : Node → List Resume → Envelope → Prop
  | classify : Suspends s .awaitClassify [] (Graph.primaryEnvelope .classify s.ticket.id s.wakeupAt)
  | classifyAgain {redispatched} : Suspends s .awaitClassify [.timeout]
      (Graph.secondEnvelope .classify s.ticket.id redispatched)
  | draft {c} : s.classification = some c →
      Suspends s .awaitDraft [] (Graph.primaryEnvelope .draft s.ticket.id s.wakeupAt)
  | draftAgain {c redispatched} : s.classification = some c →
      Suspends s .awaitDraft [.timeout] (Graph.secondEnvelope .draft s.ticket.id redispatched)
  | approval {wakeupAt reply} : s.wakeupAt = some wakeupAt → s.draft = some reply →
      Suspends s .awaitApproval [] (.approvalRequired s.ticket.id wakeupAt reply)
  | terminal {c reply} : s.classification = some c → s.draft = some reply →
      Suspends s .execute [] (.terminalTask (.finalize s.ticket.id) s.ticket.id .taskQueue
        (Graph.expectedResult s c reply))

/-! ## Agent stages -/

/-- `await_agent_task` suspends with nothing or a timeout on record, else returns the last value. -/
theorem awaitAgentTask_cases (taskType : TaskType) (t : TicketId) (payload : TaskPayload)
    (wakeupAt : Option Time) (resumes : List Resume) (db : Database) :
    (resumes = [] ∧ (Graph.awaitAgentTask taskType t payload wakeupAt resumes db).2 =
      .suspended (Graph.primaryEnvelope taskType t wakeupAt)) ∨
    (resumes = [.timeout] ∧ ∃ redispatched,
      (Graph.awaitAgentTask taskType t payload wakeupAt resumes db).2 =
        .suspended (Graph.secondEnvelope taskType t redispatched)) ∨
    (∃ value rest, (resumes = value :: rest ∧ value ≠ .timeout ∨ resumes = .timeout :: value :: rest) ∧
      (Graph.awaitAgentTask taskType t payload wakeupAt resumes db).2 = .resumed value) := by
  unfold Graph.awaitAgentTask
  cases resumes with
  | nil => exact .inl ⟨rfl, rfl⟩
  | cons first rest =>
    right
    cases first with
    | timeout =>
      cases rest with
      | nil => exact .inl ⟨rfl, _, rfl⟩
      | cons second rest => exact .inr ⟨second, rest, .inr rfl, rfl⟩
    | _ => exact .inr ⟨_, rest, .inl ⟨rfl, nofun⟩, rfl⟩

/-! ## What a run of a node comes to -/

/-- The value a node has taken from its last interrupt: for an agent stage the first that is no
timeout, or the one after it. -/
def Node.Receives (n : Node) (resumes : List Resume) (value : Resume) : Prop :=
  match n with
  | .awaitClassify | .awaitDraft =>
    ∃ rest, resumes = value :: rest ∧ value ≠ .timeout ∨ resumes = .timeout :: value :: rest
  | .awaitApproval | .execute => ∃ rest, resumes = value :: rest
  | .dispatchClassify | .dispatchDraft | .decideApproval | .prepareApproval => False

/-- The values a node takes without raising. -/
def Node.Accepts (n : Node) (s : TicketState) (value : Resume) : Prop :=
  match n with
  | .awaitClassify => Graph.isTaskFailed value = true ∨ ∃ c, value = .result (.classification c)
  | .awaitDraft => Graph.isTaskFailed value = true ∨ ∃ d, value = .result (.draft d)
  | .awaitApproval => value = .timeout ∨ ∃ d, value = .decision d
  | .execute => ∃ r, value = .result (.terminal r) ∧ r.ticketId = s.ticket.id
  | .dispatchClassify | .dispatchDraft | .decideApproval | .prepareApproval => True

inductive Ran (s : TicketState) (n : Node) (resumes : List Resume) : NodeResult → Prop
  | suspended {env} : Suspends s n resumes env → Ran s n resumes (.interrupt env)
  | passed {s'} : s'.ticket = s.ticket → StateFor s' (n.after s') →
      (∀ value, ¬ n.Receives resumes value) → Ran s n resumes (.update s')
  | accepted {s' value} : n.Receives resumes value → n.Accepts s value → s'.ticket = s.ticket →
      StateFor s' (n.after s') → Ran s n resumes (.update s')
  | refused {value error} : n.Receives resumes value → ¬ n.Accepts s value →
      Ran s n resumes (.raise error)

variable {s : TicketState} {n : Node} {resumes : List Resume} {value : Resume}

theorem ran_classifyUpdate (h : Node.Receives .awaitClassify resumes value) :
    Ran s .awaitClassify resumes (Graph.classifyUpdate s value) := by
  cases value with
  | taskFailed error permanent =>
    exact .accepted h (.inl rfl) rfl ⟨rfl, Graph.failureDraft, rfl, .inr (.inl rfl)⟩
  | result r =>
    cases r with
    | classification c => exact .accepted h (.inr ⟨c, rfl⟩) rfl ⟨rfl, rfl⟩
    | draft d => exact .refused h (by simp [Node.Accepts, Graph.isTaskFailed])
    | terminal r => exact .refused h (by simp [Node.Accepts, Graph.isTaskFailed])
  | timeout => exact .refused h (by simp [Node.Accepts, Graph.isTaskFailed])
  | decision d => exact .refused h (by simp [Node.Accepts, Graph.isTaskFailed])

theorem ran_draftUpdate (hc : s.classification.isSome)
    (h : Node.Receives .awaitDraft resumes value) :
    Ran s .awaitDraft resumes (Graph.draftUpdate s value) := by
  cases value with
  | taskFailed error permanent =>
    exact .accepted h (.inl rfl) rfl ⟨hc, Graph.failureDraft, rfl, .inr (.inl rfl)⟩
  | result r =>
    cases r with
    | draft d => exact .accepted h (.inr ⟨d, rfl⟩) rfl ⟨rfl, hc, rfl⟩
    | classification c => exact .refused h (by simp [Node.Accepts, Graph.isTaskFailed])
    | terminal r => exact .refused h (by simp [Node.Accepts, Graph.isTaskFailed])
  | timeout => exact .refused h (by simp [Node.Accepts, Graph.isTaskFailed])
  | decision d => exact .refused h (by simp [Node.Accepts, Graph.isTaskFailed])

theorem ran_awaitClassify (s : TicketState) (resumes : List Resume) (db : Database) :
    Ran s .awaitClassify resumes (Graph.awaitClassify s resumes db).2 := by
  have h := awaitAgentTask_cases .classify s.ticket.id (.classify s.ticket) s.wakeupAt resumes db
  unfold Graph.awaitClassify
  revert h
  generalize Graph.awaitAgentTask _ _ _ _ resumes db = out
  obtain ⟨db', w⟩ := out
  rintro (⟨rfl, rfl⟩ | ⟨rfl, redispatched, rfl⟩ | ⟨value, rest, hl, rfl⟩)
  · exact .suspended .classify
  · exact .suspended .classifyAgain
  · exact ran_classifyUpdate ⟨rest, hl⟩

theorem ran_awaitDraft (hc : s.classification.isSome) (resumes : List Resume) (db : Database) :
    Ran s .awaitDraft resumes (Graph.awaitDraft s resumes db).2 := by
  obtain ⟨c, hsome⟩ := Option.isSome_iff_exists.mp hc
  have h := awaitAgentTask_cases .draft s.ticket.id (.draft s.ticket c) s.wakeupAt resumes db
  unfold Graph.awaitDraft
  rw [hsome]
  revert h
  dsimp only
  generalize Graph.awaitAgentTask _ _ _ _ resumes db = out
  obtain ⟨db', w⟩ := out
  rintro (⟨rfl, rfl⟩ | ⟨rfl, redispatched, rfl⟩ | ⟨value, rest, hl, rfl⟩)
  · exact .suspended (.draft hsome)
  · exact .suspended (.draftAgain hsome)
  · exact ran_draftUpdate hc ⟨rest, hl⟩

theorem ran_awaitApproval (hs : StateFor s (some .awaitApproval)) (resumes : List Resume) :
    Ran s .awaitApproval resumes (Graph.awaitApproval s resumes) := by
  obtain ⟨hst, hc, hw, reply, hreply, hrisky⟩ := hs
  obtain ⟨wakeupAt, hw⟩ := Option.isSome_iff_exists.mp hw
  unfold Graph.awaitApproval
  rw [hreply, hw]
  cases resumes with
  | nil => exact .suspended (.approval hw hreply)
  | cons value rest =>
    cases value with
    | timeout =>
      exact .accepted ⟨rest, rfl⟩ (.inl rfl) rfl ⟨hc, reply, hreply, .inr (.inl rfl)⟩
    | decision d =>
      simp only [Graph.approvalUpdate]
      cases hd : d.approved with
      | true =>
        exact .accepted ⟨rest, rfl⟩ (.inr ⟨d, rfl⟩) rfl
          ⟨hc, reply, hreply, .inr (.inr (.inr ⟨hst, d, rfl, hd⟩))⟩
      | false =>
        exact .accepted ⟨rest, rfl⟩ (.inr ⟨d, rfl⟩) rfl ⟨hc, reply, hreply, .inl ⟨rfl, d, rfl, hd⟩⟩
    | taskFailed error permanent => exact .refused ⟨rest, rfl⟩ (by simp [Node.Accepts])
    | result r => exact .refused ⟨rest, rfl⟩ (by simp [Node.Accepts])

theorem ran_executeUpdate (h : Node.Receives .execute resumes value) :
    Ran s .execute resumes (Graph.executeUpdate s value) := by
  unfold Graph.executeUpdate
  cases value with
  | result r =>
    cases r with
    | terminal r =>
      simp only [Graph.validateTicketResult]
      by_cases ht : r.ticketId = s.ticket.id
      · rw [if_neg (not_not.mpr ht)]
        exact .accepted h ⟨r, rfl, ht⟩ rfl ⟨rfl, r, rfl, ht, rfl⟩
      · rw [if_pos ht]
        exact .refused h (by simpa [Node.Accepts] using ht)
    | classification c => exact .refused h (by simp [Node.Accepts])
    | draft d => exact .refused h (by simp [Node.Accepts])
  | timeout => exact .refused h (by simp [Node.Accepts])
  | taskFailed error permanent => exact .refused h (by simp [Node.Accepts])
  | decision d => exact .refused h (by simp [Node.Accepts])

theorem ran_execute (hs : StateFor s (some .execute)) (resumes : List Resume) (db : Database) :
    Ran s .execute resumes (Graph.execute s resumes db).2 := by
  obtain ⟨hc, reply, hreply, -⟩ := hs
  obtain ⟨c, hc⟩ := Option.isSome_iff_exists.mp hc
  unfold Graph.execute
  rw [hreply, hc]
  cases resumes with
  | nil => exact .suspended (.terminal hc hreply)
  | cons value rest => exact ran_executeUpdate ⟨rest, rfl⟩

/-- In a state fit for it, a node suspends, moves on, or refuses the value it received. -/
theorem Node.run_ran (hs : StateFor s (some n)) (resumes : List Resume) (db : Database) :
    Ran s n resumes (n.run s resumes db).2 := by
  cases n with
  | dispatchClassify => exact .passed rfl ⟨rfl, rfl⟩ fun _ => id
  | awaitClassify => exact ran_awaitClassify s resumes db
  | dispatchDraft =>
    obtain ⟨hst, hc⟩ := hs
    obtain ⟨c, hc⟩ := Option.isSome_iff_exists.mp hc
    simp only [Node.run, Graph.dispatchDraft, hc]
    exact .passed rfl ⟨rfl, rfl, rfl⟩ fun _ => id
  | awaitDraft => exact ran_awaitDraft hs.2.1 resumes db
  | decideApproval =>
    obtain ⟨hst, hc, hd⟩ := hs
    obtain ⟨reply, hreply⟩ := Option.isSome_iff_exists.mp hd
    simp only [Node.run, Graph.decideApproval, hreply]
    refine .passed rfl ?_ fun _ => id
    simp only [Node.after]
    by_cases hr : Graph.Risky reply
    · rw [if_pos (decide_eq_true hr)]
      exact ⟨hst, hc, reply, rfl, hr⟩
    · rw [if_neg (by simpa using hr)]
      exact ⟨hc, reply, rfl, .inr (.inr (.inl ⟨hst, hr⟩))⟩
  | prepareApproval =>
    obtain ⟨-, hc, hreply⟩ := hs
    exact .passed rfl ⟨rfl, hc, rfl, hreply⟩ fun _ => id
  | awaitApproval => exact ran_awaitApproval hs resumes
  | execute => exact ran_execute hs resumes db

end TicketFlow
