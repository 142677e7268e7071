import TicketFlow.Library.Table

/-! # Recording at most once

A ledger inserts a row for a key only if there is none, logs every attempt, and tells each caller
whether it was the first. Calls are listed newest first. -/

namespace AtMostOnce
open Table
set_option autoImplicit false

/-- Each call was told that it was the first exactly when no call came before it. -/
def FirstOnly : List Bool → Prop
  | [] => True
  | first :: older => (first = true ↔ older = []) ∧ FirstOnly older

/-- Exactly one of the calls was told that it was the first. -/
theorem FirstOnly.count {calls : List Bool} (h : FirstOnly calls) (hne : calls ≠ []) :
    calls.count true = 1 := by
  induction calls with
  | nil => exact absurd rfl hne
  | cons first older ih =>
    obtain ⟨hfirst, holder⟩ := h
    by_cases ho : older = []
    · subst ho
      rw [hfirst.mpr rfl]
      rfl
    · have hf : first = false := by
        cases first with
        | false => rfl
        | true => exact absurd (hfirst.mp rfl) ho
      rw [hf, List.count_cons_of_ne (by decide)]
      exact ih holder ho

variable {α κ : Type} [DecidableEq κ] {key : α → κ} {rows : List α} {attempts : List κ}
  {calls calls' : κ → List Bool} {r : α}

/-- Rows, attempts and answers agree for every key. -/
structure Consistent (key : α → κ) (rows : List α) (attempts : List κ) (calls : κ → List Bool) :
    Prop where
  nodup : (rows.map key).Nodup
  first : ∀ k, FirstOnly (calls k)
  row : ∀ k, (∃ r ∈ rows, key r = k) ↔ calls k ≠ []
  count : ∀ k, attempts.count k = (calls k).length

theorem Consistent.empty : Consistent key [] [] fun _ => [] where
  nodup := List.nodup_nil
  first _ := trivial
  row _ := by simp
  count _ := rfl

/-- One call: insert if absent, log the attempt, answer whether there was no row. -/
theorem Consistent.record (h : Consistent key rows attempts calls)
    (hself : calls' (key r) = decide (¬ ∃ r' ∈ rows, key r' = key r) :: calls (key r))
    (hother : ∀ k, k ≠ key r → calls' k = calls k) :
    Consistent key (insertNew key r rows) (attempts ++ [key r]) calls' := by
  refine ⟨nodup_insertNew h.nodup, ?_, ?_, ?_⟩
  · intro k
    by_cases hk : k = key r
    · subst hk
      rw [hself]
      refine ⟨?_, h.first _⟩
      rw [decide_eq_true_iff, h.row]
      exact not_not
    · rw [hother k hk]
      exact h.first k
  · intro k
    by_cases hk : k = key r
    · subst hk
      rw [hself]
      exact ⟨fun _ => List.cons_ne_nil _ _, fun _ => exists_key_insertNew⟩
    · rw [hother k hk, ← h.row]
      constructor
      · rintro ⟨r', hr', rfl⟩
        rcases mem_insertNew hr' with hr' | ⟨rfl, -⟩
        · exact ⟨r', hr', rfl⟩
        · exact absurd rfl hk
      · rintro ⟨r', hr', he⟩
        exact ⟨r', mem_insertNew_of_mem hr', he⟩
  · intro k
    rw [List.count_append]
    by_cases hk : k = key r
    · subst hk
      rw [hself, h.count, List.length_cons]
      simp
    · rw [hother k hk, h.count, List.count_eq_zero_of_not_mem]
      · rfl
      · simpa using hk

end AtMostOnce
