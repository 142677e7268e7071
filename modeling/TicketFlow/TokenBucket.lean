import TicketFlow.Library.Pacing
import Mathlib.Data.Rat.Floor

/-! # The token bucket

`TokenBucket` of `agent_worker.py`, in exact arithmetic. A caller reserves its grant under the lock
and sleeps, if it has to, after it has left the lock; so the one field is all that callers share. -/

namespace TicketFlow
open Pacing
set_option autoImplicit false

structure TokenBucket where
  ratePerSecond : ℚ
  nextAvailable : Option ℚ
  rate_pos : 0 < ratePerSecond

namespace TokenBucket

/-- The constructor, with its `__post_init__`. -/
def init (ratePerSecond : ℚ) : Except String TokenBucket :=
  if h : 0 < ratePerSecond then .ok ⟨ratePerSecond, none, h⟩
  else .error "rate_per_second must be greater than zero"

def interval (b : TokenBucket) : ℚ := 1 / b.ratePerSecond

/-- What `acquire` does under the lock at loop time `now`, and how long it then asks to sleep, if it
does not return at once. -/
def acquire (b : TokenBucket) (now : ℚ) : TokenBucket × Option ℚ :=
  match b.nextAvailable with
  | none => ({ b with nextAvailable := some (now + b.interval) }, none)
  | some next =>
    if next ≤ now then ({ b with nextAvailable := some (now + b.interval) }, none)
    else ({ b with nextAvailable := some (next + b.interval) }, some (next - now))

/-- The bucket call `n` finds, when call `i` enters the lock at `entered i`. -/
def found (b : TokenBucket) (entered : ℕ → ℚ) : ℕ → TokenBucket
  | 0 => b
  | n + 1 => ((b.found entered n).acquire (entered n)).1

/-- The sleep call `n` asks for. -/
def asked (b : TokenBucket) (entered : ℕ → ℚ) (n : ℕ) : Option ℚ :=
  ((b.found entered n).acquire (entered n)).2

/-- When call `n` returns, if a sleep of it lasts `slept n`. -/
def released (b : TokenBucket) (entered slept : ℕ → ℚ) (n : ℕ) : ℚ :=
  match b.asked entered n with
  | none => entered n
  | some _ => entered n + slept n

variable {b : TokenBucket} {entered slept : ℕ → ℚ} {r : ℚ}

theorem init_eq_ok (h : init r = .ok b) : b.ratePerSecond = r ∧ b.nextAvailable = none := by
  unfold init at h
  split at h
  · cases h
    exact ⟨rfl, rfl⟩
  · cases h

theorem acquire_interval (now : ℚ) : (b.acquire now).1.interval = b.interval := by
  unfold acquire
  split
  · rfl
  · split <;> rfl

theorem found_interval (n : ℕ) : (b.found entered n).interval = b.interval := by
  induction n with
  | zero => rfl
  | succ n ih => exact (acquire_interval _).trans ih

/-- The call is granted at `g`: the caller sleeps until then, and the next grant is one interval
later. -/
structure Grants (b : TokenBucket) (now g : ℚ) : Prop where
  asks : (b.acquire now).2 = if g = now then none else some (g - now)
  reserves : (b.acquire now).1.nextAvailable = some (g + b.interval)

theorem grants_fresh (h : b.nextAvailable = none) (now : ℚ) : b.Grants now now := by
  constructor
  · rw [acquire, h, if_pos rfl]
  · rw [acquire, h]

theorem grants_reserved {next : ℚ} (h : b.nextAvailable = some next) (now : ℚ) :
    b.Grants now (max now next) := by
  rcases le_or_gt next now with hle | hlt
  · rw [max_eq_left hle]
    constructor
    · simp only [acquire, h, if_pos hle, if_true]
    · simp only [acquire, h, if_pos hle]
  · have hne : next ≠ now := hlt.ne'
    rw [max_eq_right hlt.le]
    constructor
    · simp only [acquire, h, if_neg (not_le.mpr hlt), if_neg hne]
    · simp only [acquire, h, if_neg (not_le.mpr hlt)]

/-- Call `n` is granted at the earliest time the spacing allows. -/
theorem found_grants (h : b.nextAvailable = none) (n : ℕ) :
    (b.found entered n).Grants (entered n) (earliest b.interval entered n) := by
  induction n with
  | zero => exact grants_fresh h (entered 0)
  | succ n ih =>
    have hnext := ih.reserves
    rw [found_interval] at hnext
    exact grants_reserved hnext (entered (n + 1))

theorem asked_eq (h : b.nextAvailable = none) (n : ℕ) : b.asked entered n =
    if earliest b.interval entered n = entered n then none
    else some (earliest b.interval entered n - entered n) := (found_grants h n).asks

/-- Every caller is released no earlier than its grant, and at it when sleeps are exact; the grants
are one interval apart, so that a window of length `T` holds at most `⌊T * r⌋ + 1` of them, and they
are the earliest such grants. -/
theorem acquire_paced (hb : init r = .ok b) (hslept : ∀ n w, b.asked entered n = some w → w ≤ slept n) :
    (∀ n, earliest (1 / r) entered n ≤ b.released entered slept n) ∧
    (∀ n, (∀ w, b.asked entered n = some w → slept n = w) →
      b.released entered slept n = earliest (1 / r) entered n) ∧
    Spaced (1 / r) (earliest (1 / r) entered) ∧
    (∀ x T : ℚ, 0 ≤ T → ∀ s : Finset ℕ, (∀ n ∈ s, x ≤ earliest (1 / r) entered n ∧
      earliest (1 / r) entered n ≤ x + T) → (s.card : ℤ) ≤ ⌊T * r⌋ + 1) ∧
    ∀ g : ℕ → ℚ, (∀ n, entered n ≤ g n) → Spaced (1 / r) g →
      ∀ n, earliest (1 / r) entered n ≤ g n := by
  obtain ⟨hrate, hfresh⟩ := init_eq_ok hb
  have hinterval : b.interval = 1 / r := by rw [interval, hrate]
  have hpos : 0 < r := hrate ▸ b.rate_pos
  have hasked : ∀ n, b.asked entered n = if earliest b.interval entered n = entered n then none
      else some (earliest b.interval entered n - entered n) := asked_eq hfresh
  rw [hinterval] at hasked
  refine ⟨fun n => ?_, fun n hexact => ?_, spaced_earliest, fun x T hT s hs => ?_,
    fun g ha hg => earliest_le ha hg⟩
  · unfold released
    by_cases heq : earliest (1 / r) entered n = entered n
    · rw [hasked n, if_pos heq, heq]
    · have hw : b.asked entered n = _ := (hasked n).trans (if_neg heq)
      have hle := hslept n _ hw
      rw [hw]
      dsimp only
      linarith
  · unfold released
    by_cases heq : earliest (1 / r) entered n = entered n
    · rw [hasked n, if_pos heq, heq]
    · have hw : b.asked entered n = _ := (hasked n).trans (if_neg heq)
      have hsame := hexact _ hw
      rw [hw]
      dsimp only
      linarith
  · have hcard := spaced_earliest.card_le (one_div_pos.mpr hpos) hT hs
    rwa [div_div_eq_mul_div, div_one] at hcard

/-- Three callers at once, twenty tokens a second: the third one returns after a tenth of a second. -/
theorem acquire_paced_burst : ∃ b slept, init 20 = .ok b ∧
    b.released (fun _ => 0) slept 2 = 1 / 10 := by
  obtain ⟨b, hb⟩ : ∃ b, init 20 = .ok b := ⟨_, dif_pos (by norm_num)⟩
  have hslept : ∀ n w, b.asked (fun _ => 0) n = some w → w ≤ (b.asked (fun _ => 0) n).getD 0 := by
    intro n w hw
    rw [hw]
    exact le_rfl
  have hexact := (acquire_paced hb hslept).2.1 2 fun w hw => by rw [hw]; rfl
  refine ⟨b, _, hb, hexact.trans ?_⟩
  norm_num [earliest]

end TokenBucket
end TicketFlow
