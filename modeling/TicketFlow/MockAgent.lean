import Mathlib.Data.List.Infix
import Mathlib.Data.Rat.Floor
import TicketFlow.Worker

/-! # The mock agents

`MockAgent` of `agent/mock.py`, and the two that the workers' `main` functions hand to their
activities. The random generator is the numbers it yields, one after the other. -/

namespace TicketFlow
set_option autoImplicit false

/-- What `random.random()` yields, call after call. -/
abbrev Draws := ℕ → {q : ℚ // 0 ≤ q ∧ q < 1}

/-- Multiple keywords can indicate the same support category; the first of them decides. -/
def keywordCategories : List (String × TicketCategory) :=
  [("refund", .billing), ("money", .billing), ("charge", .billing), ("invoice", .billing),
    ("crash", .technical), ("error", .technical), ("bug", .technical),
    ("password", .account), ("login", .account)]

def replyTemplates : TicketCategory → String
  | .billing => "Thanks for reaching out about your billing concern. " ++
      "I've reviewed your account and here is what I can do."
  | .technical => "Sorry you hit a technical issue. Please try the steps below - " ++
      "we've also flagged this to our engineers."
  | .account => "Thanks for contacting us about your account. " ++
      "I've checked your account settings and here is how to proceed."
  | .general => "Thanks for your message! Here is some information that should help."

structure MockAgent where
  failureRate : ℚ
  refundRate : ℚ
  latencyRange : ℚ × ℚ
  confidenceRange : ℚ × ℚ
  model : String

namespace MockAgent

/-- `MockAgent(latency_range=(0.0, latency_max))`, of `agent_worker.main`. -/
def primary (latencyMax : ℚ) : MockAgent where
  failureRate := 1 / 10
  refundRate := 1 / 10
  latencyRange := (0, latencyMax)
  confidenceRange := (4 / 5, 1)
  model := "primary"

/-- A fast, reliable, lower-confidence fallback agent. -/
def fallback : MockAgent where
  failureRate := 0
  refundRate := 0
  latencyRange := (0, 0)
  confidenceRange := (0, 3 / 5)
  model := "fallback"

/-- What a call ends with, and how many numbers have been drawn by then. -/
inductive Answer (α : Type)
  | returned (value : α) (drawn : ℕ)
  | overloaded
  | invalid

/-- `rng.uniform(minimum, maximum)`. -/
def uniform (range : ℚ × ℚ) (draw : ℚ) : ℚ := range.1 + (range.2 - range.1) * draw

/-- `round(x, 2)`: to the nearest cent, and to the even one of two. -/
def roundCents (x : ℚ) : ℚ :=
  let cents := ⌊x * 100⌋
  let rest := x * 100 - cents
  if rest < 1 / 2 ∨ rest = 1 / 2 ∧ cents % 2 = 0 then cents / 100 else (cents + 1) / 100

variable (agent : MockAgent) (draws : Draws)

/-- `_maybe_fail`: how many numbers have been drawn by then, unless it raises. -/
def maybeFail (drawn : ℕ) : Option ℕ :=
  if (draws drawn).val < agent.failureRate then none else some (drawn + 1)

/-- `_maybe_sleep`. -/
def maybeSleep (drawn : ℕ) : ℕ := if agent.latencyRange.2 ≤ 0 then drawn else drawn + 1

/-- The first keyword in the text. The keywords are ASCII, so `lower` is that of ASCII. -/
def category (ticket : Ticket) : TicketCategory :=
  let text := (ticket.subject ++ " " ++ ticket.body).toList.map Char.toLower
  ((keywordCategories.find? fun x => x.1.toList <:+: text).map Prod.snd).getD .general

/-- `Field(ge=0.0, le=1.0)`. -/
def asConfidence (q : ℚ) : Option Confidence := if h : 0 ≤ q ∧ q ≤ 1 then some ⟨q, h⟩ else none

/-- Classify by keyword with randomized confidence. -/
def classify (ticket : Ticket) (drawn : ℕ) : Answer Classification :=
  match agent.maybeFail draws drawn with
  | none => .overloaded
  | some drawn =>
    let drawn := agent.maybeSleep drawn
    match asConfidence (uniform agent.confidenceRange (draws drawn)) with
    | none => .invalid
    | some confidence => .returned ⟨category ticket, confidence, agent.model⟩ (drawn + 1)

/-- The action of a draft. -/
def propose (drawn : ℕ) : Option ProposedAction × ℕ :=
  if (draws drawn).val < agent.refundRate then
    let amount := roundCents (uniform (5, 100) (draws (drawn + 1)))
    (if h : 0 < amount then some ⟨.refund, some ⟨amount, h⟩, fun _ => rfl⟩ else none, drawn + 2)
  else (some ⟨.replyOnly, none, replyOnly_needs_no_amount⟩, drawn + 1)

/-- Draft a template reply and occasionally propose a refund. -/
def draftReply (c : Classification) (drawn : ℕ) : Answer DraftReply :=
  match agent.maybeFail draws drawn with
  | none => .overloaded
  | some drawn =>
    match agent.propose draws (agent.maybeSleep drawn) with
    | (none, _) => .invalid
    | (some action, drawn) =>
      match asConfidence (uniform agent.confidenceRange (draws drawn)) with
      | none => .invalid
      | some confidence =>
        .returned ⟨replyTemplates c.category, action, confidence, agent.model⟩ (drawn + 1)

/-- `_run_activity` with this agent. -/
def answer (task : QueuedTask) (drawn : ℕ) : Answer TaskResult :=
  match task.taskType, task.payload.classification with
  | .classify, _ =>
    match agent.classify draws task.payload.ticket drawn with
    | .returned c drawn => .returned (.classification c) drawn
    | .overloaded => .overloaded
    | .invalid => .invalid
  | .draft, some c =>
    match agent.draftReply draws c drawn with
    | .returned d drawn => .returned (.draft d) drawn
    | .overloaded => .overloaded
    | .invalid => .invalid
  | _, _ => .invalid

/-! ## What an agent answers -/

variable {agent draws} {task : QueuedTask} {result : TaskResult} {drawn drawn' : ℕ} {q : ℚ}
  {range : ℚ × ℚ} {d : DraftReply} {c : Classification}

theorem uniform_mem (h : range.1 ≤ range.2) (hq : 0 ≤ q ∧ q < 1) :
    range.1 ≤ uniform range q ∧ uniform range q ≤ range.2 := by
  have hwidth : 0 ≤ range.2 - range.1 := by linarith
  have hlow := mul_nonneg hwidth hq.1
  have hhigh := mul_le_of_le_one_right hwidth hq.2.le
  unfold uniform
  constructor <;> linarith

theorem le_roundCents {n : ℤ} (h : (n : ℚ) ≤ q) : (n : ℚ) ≤ roundCents q := by
  have hfloor : n * 100 ≤ ⌊q * 100⌋ := by
    rw [Int.le_floor]
    push_cast
    linarith
  have hcents : (n : ℚ) ≤ (⌊q * 100⌋ : ℚ) / 100 := by
    rw [le_div_iff₀ (by norm_num)]
    exact_mod_cast hfloor
  unfold roundCents
  dsimp only
  split
  · exact hcents
  · refine hcents.trans ?_
    gcongr
    linarith

theorem roundCents_le {n : ℤ} (h : q ≤ n) : roundCents q ≤ n := by
  have hfloor : (⌊q * 100⌋ : ℚ) ≤ q * 100 := Int.floor_le _
  unfold roundCents
  dsimp only
  split
  · rw [div_le_iff₀ (by norm_num)]
    linarith
  · -- it is not a whole number of cents, so neither is it `n`
    rename_i hrest
    have hlt : (⌊q * 100⌋ : ℚ) < n * 100 := by
      by_contra hnot
      refine hrest (.inl ?_)
      linarith
    have hint : ⌊q * 100⌋ < n * 100 := by exact_mod_cast hlt
    have hle : ((⌊q * 100⌋ + 1 : ℤ) : ℚ) ≤ ((n * 100 : ℤ) : ℚ) := by exact_mod_cast hint
    rw [div_le_iff₀ (by norm_num)]
    push_cast at hle
    exact hle

/-- A mock agent refunds between five and a hundred. -/
def Modest (action : ProposedAction) : Prop :=
  ∀ amount ∈ action.refundAmount, 5 ≤ amount.val ∧ amount.val ≤ 100

theorem propose_valid (agent : MockAgent) (draws : Draws) (drawn : ℕ) :
    ∃ action, (agent.propose draws drawn).1 = some action ∧ Modest action ∧
      (action.type = .refund → 0 < agent.refundRate) := by
  unfold propose
  split
  · rename_i hrate
    have hmem : (5 : ℚ) ≤ uniform (5, 100) (draws (drawn + 1)) ∧
        uniform (5, 100) (draws (drawn + 1)) ≤ 100 :=
      uniform_mem (by norm_num) (draws (drawn + 1)).2
    have hfive : (5 : ℚ) ≤ roundCents (uniform (5, 100) (draws (drawn + 1))) := by
      exact_mod_cast le_roundCents (n := 5) (by exact_mod_cast hmem.1)
    have hhundred : roundCents (uniform (5, 100) (draws (drawn + 1))) ≤ (100 : ℚ) := by
      exact_mod_cast roundCents_le (n := 100) (by exact_mod_cast hmem.2)
    have hpos : (0 : ℚ) < roundCents (uniform (5, 100) (draws (drawn + 1))) := by linarith
    refine ⟨_, dif_pos hpos, ?_, fun _ => lt_of_le_of_lt (draws drawn).2.1 hrate⟩
    rintro amount ⟨⟩
    exact ⟨hfive, hhundred⟩
  · exact ⟨_, rfl, fun _ h => (nomatch h), fun h => nomatch h⟩

theorem asConfidence_eq_some {conf : Confidence} (h : asConfidence q = some conf) :
    conf.val = q := by
  unfold asConfidence at h
  split at h
  · cases h
    rfl
  · cases h

theorem asConfidence_uniform (hlow : 0 ≤ range.1) (hle : range.1 ≤ range.2) (hhigh : range.2 ≤ 1)
    (hq : 0 ≤ q ∧ q < 1) : ∃ conf, asConfidence (uniform range q) = some conf := by
  have hmem := uniform_mem hle hq
  exact ⟨_, dif_pos ⟨hlow.trans hmem.1, hmem.2.trans hhigh⟩⟩

/-- What is known of a draft by the agent that made it. -/
structure Made (agent : MockAgent) (d : DraftReply) : Prop where
  model : d.model = agent.model
  least : agent.confidenceRange.1 ≤ d.confidence.val
  most : d.confidence.val ≤ agent.confidenceRange.2
  modest : Modest d.action
  refund : d.action.type = .refund → 0 < agent.refundRate

theorem made_of_draftReply (hrange : agent.confidenceRange.1 ≤ agent.confidenceRange.2)
    (h : agent.draftReply draws c drawn = .returned d drawn') : agent.Made d := by
  unfold draftReply at h
  split at h
  · cases h
  · rename_i drawn₁ hfail
    obtain ⟨action, haction, hmodest, hrefund⟩ := propose_valid agent draws
      (agent.maybeSleep drawn₁)
    split at h
    · cases h
    · rename_i action' drawn₂ hpropose
      have heq : some action' = some action := by
        rw [← haction, hpropose]
      cases heq
      split at h
      · cases h
      · rename_i conf hconf
        cases h
        have hmem := uniform_mem hrange (draws drawn₂).2
        refine ⟨rfl, ?_, ?_, hmodest, hrefund⟩
        · rw [asConfidence_eq_some hconf]
          exact hmem.1
        · rw [asConfidence_eq_some hconf]
          exact hmem.2

theorem made_of_answer (hrange : agent.confidenceRange.1 ≤ agent.confidenceRange.2)
    (h : agent.answer draws task drawn = .returned (.draft d) drawn') : agent.Made d := by
  unfold answer at h
  split at h
  · split at h <;> cases h
  · split at h
    · rename_i c _ d' k hdraft
      cases h
      exact made_of_draftReply hrange hdraft
    · cases h
    · cases h
  · cases h

/-- An agent that never fails and whose confidences are valid. -/
structure Reliable (agent : MockAgent) : Prop where
  failure : agent.failureRate ≤ 0
  low : 0 ≤ agent.confidenceRange.1
  range : agent.confidenceRange.1 ≤ agent.confidenceRange.2
  high : agent.confidenceRange.2 ≤ 1

theorem fallback_reliable : fallback.Reliable :=
  ⟨le_refl _, le_refl _, by norm_num [fallback], by norm_num [fallback]⟩

theorem Reliable.maybeFail (h : agent.Reliable) :
    agent.maybeFail draws drawn = some (drawn + 1) :=
  if_neg (not_lt.mpr (h.failure.trans (draws drawn).2.1))

theorem Reliable.classify (h : agent.Reliable) (draws : Draws) (ticket : Ticket) (drawn : ℕ) :
    ∃ c drawn', agent.classify draws ticket drawn = .returned c drawn' := by
  obtain ⟨conf, hconf⟩ := asConfidence_uniform h.low h.range h.high
    (draws (agent.maybeSleep (drawn + 1))).2
  simp only [MockAgent.classify, h.maybeFail, hconf]
  exact ⟨_, _, rfl⟩

theorem Reliable.draftReply (h : agent.Reliable) (draws : Draws) (c : Classification) (drawn : ℕ) :
    ∃ d drawn', agent.draftReply draws c drawn = .returned d drawn' := by
  obtain ⟨action, haction, -⟩ := propose_valid agent draws
    (agent.maybeSleep (drawn + 1))
  simp only [MockAgent.draftReply, h.maybeFail]
  generalize agent.propose draws (agent.maybeSleep (drawn + 1)) = proposed at haction ⊢
  obtain ⟨action', drawn₂⟩ := proposed
  obtain rfl : action' = some action := haction
  obtain ⟨conf, hconf⟩ := asConfidence_uniform h.low h.range h.high (draws drawn₂).2
  simp only [hconf]
  exact ⟨_, _, rfl⟩

/-- A reliable agent answers every task that a router hands to it. -/
theorem Reliable.answer (h : agent.Reliable) (draws : Draws) (drawn : ℕ) {other : TaskResult}
    (ha : Worker.Answers task other) : ∃ result drawn',
      agent.answer draws task drawn = .returned result drawn' ∧ Worker.Answers task result := by
  unfold MockAgent.answer
  cases other with
  | classification c =>
    have hty : task.taskType = .classify := ha
    obtain ⟨c', drawn', hc⟩ := h.classify draws task.payload.ticket drawn
    simp only [hty, hc]
    exact ⟨_, _, rfl, hty⟩
  | draft d =>
    obtain ⟨hty, hsome⟩ : task.taskType = .draft ∧ task.payload.classification.isSome := ha
    obtain ⟨c, hc⟩ := Option.isSome_iff_exists.mp hsome
    obtain ⟨d', drawn', hd⟩ := h.draftReply draws c drawn
    simp only [hty, hc, hd]
    exact ⟨_, _, rfl, hty, hsome⟩
  | terminal r => exact ha.elim

end MockAgent
end TicketFlow
