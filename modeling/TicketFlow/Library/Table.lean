import Mathlib.Data.List.MinMax
import Mathlib.Data.List.Nodup
import Mathlib.Data.List.Sort

/-! # Relational tables as lists of rows

The statements a transaction is made of: `UPDATE … WHERE`, `DELETE … WHERE` (a `filter`),
`INSERT … ON CONFLICT (key) DO NOTHING`, `SELECT … ORDER BY key LIMIT 1` and `SELECT … ORDER BY`. A
key column is unique when its projection has no duplicates, and each statement has a lemma that says
so. -/

namespace Table
set_option autoImplicit false

variable {α β : Type} {rows : List α} {r r' : α}

/-! ## UPDATE … WHERE -/

section Update
variable {p : α → Prop} [DecidablePred p] {f : α → α}

/-- `UPDATE rows SET f WHERE p`. -/
def updateWhere (p : α → Prop) [DecidablePred p] (f : α → α) (rows : List α) : List α :=
  rows.map fun r => if p r then f r else r

theorem mem_updateWhere :
    r ∈ updateWhere p f rows ↔ (∃ r₀ ∈ rows, p r₀ ∧ r = f r₀) ∨ (r ∈ rows ∧ ¬ p r) := by
  simp only [updateWhere, List.mem_map]
  constructor
  · rintro ⟨r₀, h₀, rfl⟩
    by_cases hp : p r₀
    · exact .inl ⟨r₀, h₀, hp, if_pos hp⟩
    · rw [if_neg hp]
      exact .inr ⟨h₀, hp⟩
  · rintro (⟨r₀, h₀, hp, rfl⟩ | ⟨hr, hp⟩)
    · exact ⟨r₀, h₀, if_pos hp⟩
    · exact ⟨r, hr, if_neg hp⟩

/-- A column no update writes. -/
theorem map_updateWhere {g : α → β} (hg : ∀ r, p r → g (f r) = g r) :
    (updateWhere p f rows).map g = rows.map g := by
  simp only [updateWhere, List.map_map]
  refine List.map_congr_left fun r _ => ?_
  by_cases hp : p r
  · simp [hp, hg r hp]
  · simp [hp]

theorem updateWhere_eq_self (h : ∀ r ∈ rows, ¬ p r) : updateWhere p f rows = rows := by
  unfold updateWhere
  conv_rhs => rw [← List.map_id rows]
  exact List.map_congr_left fun r hr => if_neg (h r hr)

theorem mem_updateWhere_of_not (hr : r ∈ rows) (hp : ¬ p r) : r ∈ updateWhere p f rows :=
  mem_updateWhere.mpr (.inr ⟨hr, hp⟩)

theorem mem_updateWhere_of (hr : r ∈ rows) (hp : p r) : f r ∈ updateWhere p f rows :=
  mem_updateWhere.mpr (.inl ⟨r, hr, hp, rfl⟩)

/-- Two updates of the same rows are one. -/
theorem updateWhere_updateWhere {g : α → α} (hp : ∀ r, p (f r) ↔ p r) :
    updateWhere p g (updateWhere p f rows) = updateWhere p (fun r => g (f r)) rows := by
  simp only [updateWhere, List.map_map]
  refine List.map_congr_left fun r _ => ?_
  by_cases h : p r
  · simp [h, hp]
  · simp [h]

theorem updateWhere_congr {g : α → α} (h : ∀ r ∈ rows, p r → f r = g r) :
    updateWhere p f rows = updateWhere p g rows := by
  refine List.map_congr_left fun r hr => ?_
  by_cases hp : p r
  · rw [if_pos hp, if_pos hp, h r hr hp]
  · rw [if_neg hp, if_neg hp]

/-- An update of the images of the rows. -/
theorem updateWhere_image {g : α → β} {p' : β → Prop} [DecidablePred p'] {f' : β → β}
    (hp : ∀ r ∈ rows, p' (g r) ↔ p r) (hf : ∀ r ∈ rows, p r → f' (g r) = g (f r)) :
    updateWhere p' f' (rows.map g) = (updateWhere p f rows).map g := by
  simp only [updateWhere, List.map_map]
  refine List.map_congr_left fun r hr => ?_
  by_cases h : p r
  · simp [h, hp r hr, hf r hr h]
  · simp [h, hp r hr]

/-- A condition that neither an updated row nor its update meets does not see the update. -/
theorem filter_updateWhere {q q' : α → Prop} [DecidablePred q] [DecidablePred q']
    (hin : ∀ r ∈ rows, p r → ¬ q r ∧ ¬ q' (f r))
    (hout : ∀ r ∈ rows, ¬ p r → (q' r ↔ q r)) :
    (updateWhere p f rows).filter q' = rows.filter q := by
  induction rows with
  | nil => rfl
  | cons r rows ih =>
    have hrest := ih (fun r hr => hin r (List.mem_cons_of_mem _ hr))
      fun r hr => hout r (List.mem_cons_of_mem _ hr)
    have hcons : updateWhere p f (r :: rows) =
        (if p r then f r else r) :: updateWhere p f rows := rfl
    rw [hcons, List.filter_cons, List.filter_cons, hrest]
    by_cases hp : p r
    · obtain ⟨hq, hq'⟩ := hin r List.mem_cons_self hp
      simp [hp, hq, hq']
    · have hiff := hout r List.mem_cons_self hp
      simp [hp, hiff]

end Update

/-! ## Key columns -/

/-- Two rows with one key are one row. -/
theorem eq_of_key {key : α → β} (hn : (rows.map key).Nodup) (hr : r ∈ rows) (hr' : r' ∈ rows)
    (h : key r = key r') : r = r' := List.inj_on_of_nodup_map hn hr hr' h

theorem nodup_filter {key : α → β} (p : α → Bool) (hn : (rows.map key).Nodup) :
    ((rows.filter p).map key).Nodup := hn.sublist (List.filter_sublist.map key)

/-- A key column has at most one row for a key. -/
theorem length_filter_key_le {key : α → β} [DecidableEq β] (hn : (rows.map key).Nodup) (k : β) :
    (rows.filter fun r => key r = k).length ≤ 1 := by
  have h := List.nodup_iff_count_le_one.mp hn k
  rwa [List.count_eq_length_filter, List.filter_map, List.length_map] at h

/-! ## INSERT … ON CONFLICT DO NOTHING -/

section Insert
variable {key : α → β} [DecidableEq β]

/-- `INSERT INTO rows VALUES r ON CONFLICT (key) DO NOTHING`. -/
def insertNew (key : α → β) (r : α) (rows : List α) : List α :=
  if ∃ r' ∈ rows, key r' = key r then rows else rows ++ [r]

theorem insertNew_of_mem (h : r' ∈ rows) (hk : key r' = key r) : insertNew key r rows = rows :=
  if_pos ⟨r', h, hk⟩

theorem insertNew_of_not (h : ∀ r' ∈ rows, key r' ≠ key r) :
    insertNew key r rows = rows ++ [r] :=
  if_neg fun ⟨r', hr', hk⟩ => h r' hr' hk

theorem mem_insertNew (h : r' ∈ insertNew key r rows) :
    r' ∈ rows ∨ (r' = r ∧ ∀ r₀ ∈ rows, key r₀ ≠ key r) := by
  unfold insertNew at h
  split at h
  · exact .inl h
  · rename_i hn
    rcases List.mem_append.mp h with h | h
    · exact .inl h
    · exact .inr ⟨List.mem_singleton.mp h, fun r₀ h₀ hk => hn ⟨r₀, h₀, hk⟩⟩

theorem mem_insertNew_of_mem (h : r' ∈ rows) : r' ∈ insertNew key r rows := by
  unfold insertNew
  split
  · exact h
  · exact List.mem_append_left _ h

/-- After the insert some row has the key, whoever inserted it. -/
theorem exists_key_insertNew : ∃ r' ∈ insertNew key r rows, key r' = key r := by
  unfold insertNew
  split
  · assumption
  · exact ⟨r, by simp, rfl⟩

theorem nodup_insertNew (hn : (rows.map key).Nodup) : ((insertNew key r rows).map key).Nodup := by
  unfold insertNew
  split
  · exact hn
  · rename_i hno
    rw [List.map_append, List.map_singleton]
    refine List.nodup_append.mpr ⟨hn, by simp, ?_⟩
    intro a ha b hb hab
    obtain ⟨r₀, h₀, rfl⟩ := List.mem_map.mp ha
    exact hno ⟨r₀, h₀, hab.trans (List.mem_singleton.mp hb)⟩

end Insert

/-! ## SELECT … WHERE key = … -/

section Lookup
variable {key : α → β} [DecidableEq β] {k : β}

/-- `SELECT * FROM rows WHERE key = k`, for a unique key. -/
def lookup (key : α → β) (k : β) (rows : List α) : Option α := rows.find? fun r => key r = k

theorem lookup_eq_some (h : lookup key k rows = some r) : r ∈ rows ∧ key r = k := by
  refine ⟨List.mem_of_find?_eq_some h, ?_⟩
  have hk := List.find?_some h
  simpa using hk

theorem lookup_eq_none : lookup key k rows = none ↔ ∀ r ∈ rows, key r ≠ k := by
  simp [lookup]

theorem lookup_of_mem (hn : (rows.map key).Nodup) (h : r ∈ rows) :
    lookup key (key r) rows = some r := by
  cases hl : lookup key (key r) rows with
  | none => exact absurd rfl (lookup_eq_none.mp hl r h)
  | some r' =>
    obtain ⟨hm, hk⟩ := lookup_eq_some hl
    rw [eq_of_key hn hm h hk]

theorem lookup_updateWhere {p : α → Prop} [DecidablePred p] {f : α → α}
    (hf : ∀ r, key (f r) = key r) : lookup key k (updateWhere p f rows) =
      (lookup key k rows).map fun r => if p r then f r else r := by
  unfold lookup updateWhere
  rw [List.find?_map]
  congr 2
  funext r
  simp only [Function.comp]
  split
  · rw [hf]
  · rfl

/-- An update of one key's row, seen at a key. -/
theorem lookup_updateKey {k' : β} {f : α → α} (hf : ∀ r, key (f r) = key r) :
    lookup key k (updateWhere (key · = k') f rows) =
      if k = k' then (lookup key k rows).map f else lookup key k rows := by
  rw [lookup_updateWhere hf]
  cases hl : lookup key k rows with
  | none => simp
  | some r =>
    have hk := (lookup_eq_some hl).2
    by_cases h : k = k' <;> simp [hk, h]

theorem lookup_append : lookup key k (rows ++ [r]) =
    (lookup key k rows).or (if key r = k then some r else none) := by
  unfold lookup
  rw [List.find?_append]
  congr 1
  by_cases h : key r = k <;> simp [h]

theorem lookup_cons : lookup key k (r :: rows) = if key r = k then some r else lookup key k rows := by
  unfold lookup
  by_cases h : key r = k <;> simp [h]

theorem lookup_filter_ne {k' : β} (h : k ≠ k') :
    lookup key k (rows.filter (key · ≠ k')) = lookup key k rows := by
  unfold lookup
  rw [List.find?_filter]
  congr 1
  funext r
  by_cases hr : key r = k
  · simp [hr, h]
  · simp [hr]

theorem lookup_insertNew_of_ne (h : key r ≠ k) :
    lookup key k (insertNew key r rows) = lookup key k rows := by
  unfold insertNew
  split
  · rfl
  · rw [lookup_append, if_neg h, Option.or_none]

theorem lookup_insertNew_self : lookup key (key r) (insertNew key r rows) =
    (lookup key (key r) rows).or (some r) := by
  cases hl : lookup key (key r) rows with
  | none =>
    rw [insertNew_of_not (lookup_eq_none.mp hl), lookup_append, hl, if_pos rfl]
  | some r' =>
    obtain ⟨hm, hk⟩ := lookup_eq_some hl
    rw [insertNew_of_mem hm hk, hl]
    rfl

theorem lookup_filter {p : α → Bool} (hn : (rows.map key).Nodup) :
    lookup key k (rows.filter p) = (lookup key k rows).filter p := by
  cases hl : lookup key k rows with
  | none =>
    have hno := lookup_eq_none.mp hl
    rw [Option.filter_none]
    exact lookup_eq_none.mpr fun r hr => hno r (List.mem_filter.mp hr).1
  | some r =>
    obtain ⟨hm, rfl⟩ := lookup_eq_some hl
    cases hp : p r with
    | true =>
      rw [Option.filter_some_pos hp]
      exact lookup_of_mem (nodup_filter p hn) (List.mem_filter.mpr ⟨hm, hp⟩)
    | false =>
      rw [Option.filter_some_neg (by simp [hp])]
      refine lookup_eq_none.mpr fun r' hr' hk => ?_
      obtain ⟨hm', hp'⟩ := List.mem_filter.mp hr'
      rw [eq_of_key hn hm' hm hk, hp] at hp'
      cases hp'

end Lookup

/-! ## SELECT … ORDER BY … LIMIT 1 -/

section Select
variable {p q : α → Prop} [DecidablePred p] [DecidablePred q] {key : α → ℕ}

/-- `SELECT * FROM rows WHERE p ORDER BY key LIMIT 1`; equal keys in table order. -/
def firstBy (key : α → ℕ) (p : α → Prop) [DecidablePred p] (rows : List α) : Option α :=
  (rows.filter p).argmin key

theorem firstBy_mem (h : firstBy key p rows = some r) : r ∈ rows ∧ p r := by
  have hm := List.argmin_mem h
  simpa using hm

theorem firstBy_le (h : firstBy key p rows = some r) (hr : r' ∈ rows) (hp : p r') :
    key r ≤ key r' :=
  List.le_of_mem_argmin (List.mem_filter.mpr ⟨hr, by simpa using hp⟩) h

theorem firstBy_eq_none : firstBy key p rows = none ↔ ∀ r ∈ rows, ¬ p r := by
  simp [firstBy, List.argmin_eq_none, List.filter_eq_nil_iff]

/-- A selection from the images of the rows, where they keep the order and the condition. -/
theorem firstBy_image {g : α → β} {key' : β → ℕ} {q' : β → Prop} [DecidablePred q']
    (hkey : ∀ r ∈ rows, key' (g r) = key r) (hp : ∀ r ∈ rows, q' (g r) ↔ p r) :
    firstBy key' q' (rows.map g) = (firstBy key p rows).map g := by
  have argmin_map : ∀ l : List α, (∀ r ∈ l, key' (g r) = key r) →
      (l.map g).argmin key' = (l.argmin key).map g := by
    intro l
    induction l with
    | nil => exact fun _ => rfl
    | cons a l ih =>
      intro hl
      rw [List.map_cons, List.argmin_cons, List.argmin_cons,
        ih fun r hr => hl r (List.mem_cons_of_mem _ hr)]
      cases hm : l.argmin key with
      | none => rfl
      | some c =>
        have ha := hl a List.mem_cons_self
        have hc := hl c (List.mem_cons_of_mem _ (List.argmin_mem hm))
        simp only [Option.map_some, ha, hc]
        split <;> rfl
  have hfilter : (rows.map g).filter q' = (rows.filter p).map g := by
    rw [List.filter_map]
    refine congrArg _ (List.filter_congr fun r hr => ?_)
    simpa using hp r hr
  unfold firstBy
  rw [hfilter]
  exact argmin_map _ fun r hr => hkey r (List.mem_filter.mp hr).1

/-- A selection does not see an update that keeps the order and the condition of every row. -/
theorem firstBy_map {g : α → α} (hkey : ∀ r ∈ rows, key (g r) = key r)
    (hp : ∀ r ∈ rows, p (g r) ↔ p r) :
    firstBy key p (rows.map g) = (firstBy key p rows).map g := firstBy_image hkey hp

theorem firstBy_eq_of_filter {rows' : List α} (h : rows.filter p = rows'.filter q) :
    firstBy key p rows = firstBy key q rows' := by
  unfold firstBy
  rw [h]

/-- The first row is the first of those that share a property of it. -/
theorem firstBy_and (h : firstBy key p rows = some r) (hq : q r) :
    firstBy key (fun r => p r ∧ q r) rows = some r := by
  have argmin_filter : ∀ l : List α, l.argmin key = some r → (l.filter q).argmin key = some r := by
    intro l
    induction l with
    | nil => exact fun h => nomatch h
    | cons a l ih =>
      intro h
      rw [List.argmin_cons] at h
      cases hm : l.argmin key with
      | none =>
        rw [hm] at h
        cases h
        rw [List.argmin_eq_none.mp hm]
        simp [hq]
      | some c =>
        simp only [hm] at h
        split at h
        · rename_i hlt
          cases h
          rw [List.filter_cons]
          split
          · rw [List.argmin_cons, ih hm]
            simp [hlt]
          · exact ih hm
        · rename_i hge
          cases h
          rw [List.filter_cons, if_pos (decide_eq_true hq), List.argmin_cons]
          cases hd : (l.filter q).argmin key with
          | none => rfl
          | some d =>
            have hle := List.le_of_mem_argmin (List.mem_filter.mp (List.argmin_mem hd)).1 hm
            simp only [Option.some.injEq, ite_eq_right_iff]
            intro hlt
            omega
  have hfilter : rows.filter (fun r => p r ∧ q r) = (rows.filter p).filter q := by
    rw [List.filter_filter]
    exact List.filter_congr fun r _ => by simp [Bool.and_comm]
  unfold firstBy
  rw [hfilter]
  exact argmin_filter _ h

end Select

/-! ## SELECT … ORDER BY -/

section Order
variable {le : α → α → Prop} [DecidableRel le] {p : α → Prop} [DecidablePred p]

/-- `SELECT * FROM rows WHERE p ORDER BY le`. -/
def orderedBy (le : α → α → Prop) [DecidableRel le] (p : α → Prop) [DecidablePred p]
    (rows : List α) : List α := (rows.filter p).insertionSort le

theorem mem_orderedBy : r ∈ orderedBy le p rows ↔ r ∈ rows ∧ p r := by
  simp [orderedBy, List.mem_insertionSort]

theorem pairwise_orderedBy [Std.Total le] [IsTrans α le] : (orderedBy le p rows).Pairwise le :=
  List.pairwise_insertionSort ..

theorem nodup_orderedBy {key : α → β} (hn : (rows.map key).Nodup) :
    ((orderedBy le p rows).map key).Nodup := by
  have hperm := ((rows.filter p).perm_insertionSort le).map key
  exact hperm.nodup_iff.mpr (nodup_filter _ hn)

end Order

end Table
