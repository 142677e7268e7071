import Mathlib.Algebra.Order.Field.Basic
import Mathlib.Algebra.Order.Floor.Ring
import Mathlib.Data.Finset.Max
import Mathlib.Order.Interval.Finset.Nat
import Mathlib.Tactic.Linarith
import Mathlib.Tactic.Push

/-! # Pacing

Grants that keep a distance, handed out in order of arrival: the earliest such schedule, its spacing,
and how many grants a window can hold. A periodic pass keeps its distance too: it falls due one gap
after the one before it. -/

namespace Pacing
set_option autoImplicit false

variable {K : Type} [Field K] [LinearOrder K] {gap : K} {a g : ℕ → K}

/-- Each arrival is granted at once, or one gap after the grant before it. -/
def earliest (gap : K) (a : ℕ → K) : ℕ → K
  | 0 => a 0
  | n + 1 => max (a (n + 1)) (earliest gap a n + gap)

/-- Consecutive grants are at least one gap apart. -/
def Spaced (gap : K) (g : ℕ → K) : Prop := ∀ n, g n + gap ≤ g (n + 1)

theorem spaced_earliest : Spaced gap (earliest gap a) := fun _ => le_max_right _ _

variable [IsStrictOrderedRing K]

/-- No schedule of the same arrivals that is spaced grants earlier. -/
theorem earliest_le (ha : ∀ n, a n ≤ g n) (hg : Spaced gap g) (n : ℕ) : earliest gap a n ≤ g n := by
  induction n with
  | zero => exact ha 0
  | succ n ih => exact max_le (ha (n + 1)) ((add_le_add_left ih gap).trans (hg n))

theorem Spaced.add_mul_le (hg : Spaced gap g) (m k : ℕ) : g m + k * gap ≤ g (m + k) := by
  induction k with
  | zero => simp
  | succ k ih =>
    have hstep := hg (m + k)
    have hmul : ((k + 1 : ℕ) : K) * gap = k * gap + gap := by
      rw [Nat.cast_succ, add_mul, one_mul]
    rw [hmul, ← Nat.add_assoc]
    linarith

/-- A window of length `T` holds at most `⌊T / gap⌋ + 1` spaced grants. -/
theorem Spaced.card_le [FloorRing K] (hg : Spaced gap g) (hgap : 0 < gap) {x T : K} (hT : 0 ≤ T)
    {s : Finset ℕ} (hs : ∀ n ∈ s, x ≤ g n ∧ g n ≤ x + T) : (s.card : ℤ) ≤ ⌊T / gap⌋ + 1 := by
  rcases s.eq_empty_or_nonempty with rfl | hne
  · have hfloor : 0 ≤ ⌊T / gap⌋ := Int.floor_nonneg.mpr (div_nonneg hT hgap.le)
    simp only [Finset.card_empty, Nat.cast_zero]
    omega
  · -- the grants between the first and the last of the window are spaced
    obtain ⟨k, hk⟩ := Nat.exists_eq_add_of_le (s.min'_le_max' hne)
    have hspan := hg.add_mul_le (s.min' hne) k
    rw [← hk] at hspan
    have hfirst := (hs _ (s.min'_mem hne)).1
    have hlast := (hs _ (s.max'_mem hne)).2
    have hk_le : (k : ℤ) ≤ ⌊T / gap⌋ := by
      rw [Int.le_floor, le_div_iff₀ hgap]
      push_cast
      linarith
    have hsub : s ⊆ Finset.Icc (s.min' hne) (s.max' hne) := fun n hn =>
      Finset.mem_Icc.mpr ⟨s.min'_le n hn, s.le_max' n hn⟩
    have hcard := Finset.card_le_card hsub
    rw [Nat.card_Icc, hk] at hcard
    omega

/-! ## Passes that fall due -/

section Passes
variable {next now : K} {passes : List K}

/-- From `next` on, and no earlier, every pass is one gap or more ago. -/
def FallsDue (gap next : K) (passes : List K) : Prop :=
  ∀ now, 0 ≤ now → (next ≤ now ↔ ∀ t ∈ passes, t + gap ≤ now)

omit [IsStrictOrderedRing K] in
theorem fallsDue_nil : FallsDue gap 0 [] := fun now hnow => by simp [hnow]

/-- After a pass that is later than all before it, the next one is due one gap later. -/
theorem fallsDue_cons (h : ∀ t ∈ passes, t ≤ now) : FallsDue gap (now + gap) (now :: passes) := by
  intro later _
  constructor
  · intro hle t ht
    rcases List.mem_cons.mp ht with rfl | ht
    · exact hle
    · exact (add_le_add_left (h t ht) gap).trans hle
  · exact fun hall => hall now List.mem_cons_self

end Passes

end Pacing
