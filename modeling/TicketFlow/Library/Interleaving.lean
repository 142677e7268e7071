import Mathlib.Logic.Function.Basic
import Mathlib.Data.List.Basic

/-! # Interleaved processes over a shared state

A program is one function: what a process in a local state does to the shared state when it
performs an atomic action. A configuration is a shared state and the local state of every process,
and any process may act next, so a process that crashed is one that acts no more. `ReachableWhen`
is reachability by steps that all meet a side condition, `Config.run` replays a schedule, and
`ReachableWhen.induct` is the invariant rule: what one step preserves, a whole run preserves.
`ReachableWhen.refines` carries reachability over to a coarser program. -/

namespace Interleaving
set_option autoImplicit false

/-- `P s i l a`: process `i` in local state `l` performs `a` on the shared state `s`; `none` when
the action is not enabled. -/
abbrev Program (S L A : Type) := S → ℕ → L → A → Option (S × L)

/-- The shared state and the local state of every process. -/
structure Config (S L : Type) where
  shared : S
  procs : ℕ → L

variable {S L A : Type} {P : Program S L A} {init : Config S L → Prop}
  {ok ok' : Config S L → ℕ → A → Prop}

/-- One atomic action of process `i`; no other local state changes. -/
def Config.next (P : Program S L A) (c : Config S L) (i : ℕ) (a : A) : Option (Config S L) :=
  match P c.shared i (c.procs i) a with
  | none => none
  | some (s, l) => some ⟨s, Function.update c.procs i l⟩

theorem Config.next_eq_some {c c' : Config S L} {i : ℕ} {a : A} (h : c.next P i a = some c') :
    ∃ s l, P c.shared i (c.procs i) a = some (s, l) ∧ c' = ⟨s, Function.update c.procs i l⟩ := by
  unfold Config.next at h
  split at h
  · cases h
  · rename_i s l hp
    cases h
    exact ⟨s, l, hp, rfl⟩

theorem Config.next_of_step {c : Config S L} {i : ℕ} {a : A} {s : S} {l : L}
    (h : P c.shared i (c.procs i) a = some (s, l)) :
    ∃ c', c.next P i a = some c' ∧ c'.shared = s ∧ c'.procs i = l := by
  refine ⟨⟨s, Function.update c.procs i l⟩, ?_, rfl, Function.update_self ..⟩
  unfold Config.next
  rw [h]

/-- Reachable from an initial configuration by steps that all meet `ok`. -/
inductive ReachableWhen (P : Program S L A) (init : Config S L → Prop)
    (ok : Config S L → ℕ → A → Prop) : Config S L → Prop
  | init {c} : init c → ReachableWhen P init ok c
  | next {c c' i a} : ReachableWhen P init ok c → ok c i a → c.next P i a = some c' →
      ReachableWhen P init ok c'

/-- Reachable by any steps. -/
abbrev Reachable (P : Program S L A) (init : Config S L → Prop) : Config S L → Prop :=
  ReachableWhen P init fun _ _ _ => True

/-- A condition that every step of the run meets where it is taken. -/
theorem ReachableWhen.strengthen {c : Config S L} (h : ReachableWhen P init ok c)
    (hok : ∀ c i a, ReachableWhen P init ok c → ok c i a → ok' c i a) :
    ReachableWhen P init ok' c := by
  induction h with
  | init h => exact .init h
  | next hr ha hn ih => exact .next ih (hok _ _ _ hr ha) hn

theorem ReachableWhen.mono {c : Config S L} (h : ReachableWhen P init ok c)
    (hok : ∀ c i a, ok c i a → ok' c i a) : ReachableWhen P init ok' c :=
  h.strengthen fun _ _ _ _ => hok _ _ _

theorem ReachableWhen.of_init {init' : Config S L → Prop} {c : Config S L}
    (h : ReachableWhen P init ok c) (hinit : ∀ c, init c → init' c) : ReachableWhen P init' ok c := by
  induction h with
  | init h => exact .init (hinit _ h)
  | next _ ha hn ih => exact .next ih ha hn

theorem ReachableWhen.reachable {c : Config S L} (h : ReachableWhen P init ok c) :
    Reachable P init c := h.mono fun _ _ _ _ => trivial

/-- A run may be continued. -/
theorem ReachableWhen.trans {c c' : Config S L} (h : ReachableWhen P init ok c)
    (h' : ReachableWhen P (· = c) ok c') : ReachableWhen P init ok c' := by
  induction h' with
  | init he => exact he ▸ h
  | next _ ha hn ih => exact .next ih ha hn

/-- The invariant rule for assertions about the whole configuration. -/
theorem ReachableWhen.invariant {I : Config S L → Prop} (hinit : ∀ c, init c → I c)
    (hstep : ∀ c i a s l, ReachableWhen P init ok c → ok c i a → I c →
      P c.shared i (c.procs i) a = some (s, l) → I ⟨s, Function.update c.procs i l⟩)
    {c : Config S L} (h : ReachableWhen P init ok c) : I c := by
  induction h with
  | init h => exact hinit _ h
  | @next c c' i a hr ha hn ih =>
    obtain ⟨s, l, hp, rfl⟩ := Config.next_eq_some hn
    exact hstep c i a s l hr ha ih hp

/-- The invariant rule: `I` of the shared state and `J` of each process hold initially; a step
keeps `I`, establishes the acting process's `J` and disturbs no other process's `J`. -/
theorem ReachableWhen.induct {I : S → Prop} {J : S → ℕ → L → Prop}
    (hinit : ∀ c, init c → I c.shared ∧ ∀ j, J c.shared j (c.procs j))
    (hstep : ∀ c i a s l, ReachableWhen P init ok c → ok c i a → I c.shared →
      (∀ j, J c.shared j (c.procs j)) → P c.shared i (c.procs i) a = some (s, l) →
      I s ∧ J s i l ∧ ∀ j, j ≠ i → J s j (c.procs j))
    {c : Config S L} (h : ReachableWhen P init ok c) :
    I c.shared ∧ ∀ j, J c.shared j (c.procs j) := by
  refine h.invariant hinit fun c i a s l hr ha ih hp => ?_
  obtain ⟨hI, hi, ho⟩ := hstep c i a s l hr ha ih.1 ih.2 hp
  refine ⟨hI, fun j => ?_⟩
  by_cases hj : j = i
  · subst hj
    simpa using hi
  · simpa [Function.update_of_ne hj] using ho j hj

/-- Where only processes below `n` act, the others stay where they are. -/
theorem ReachableWhen.idle_above {n : ℕ} {d : L} {c : Config S L}
    (hinit : ∀ c, init c → ∀ j, n ≤ j → c.procs j = d) (hlt : ∀ c i a, ok c i a → i < n)
    (h : ReachableWhen P init ok c) : ∀ j, n ≤ j → c.procs j = d := by
  refine ReachableWhen.invariant (I := fun c => ∀ j, n ≤ j → c.procs j = d) hinit ?_ h
  intro c i a s l _ ha hidle _ j hj
  have hne : j ≠ i := Nat.ne_of_gt (Nat.lt_of_lt_of_le (hlt _ _ _ ha) hj)
  exact (Function.update_of_ne hne ..).trans (hidle j hj)

/-! ## Runs and their steps -/

/-- A run, and the steps it took: the configuration each was taken in, who acted and how, latest
first. -/
inductive Run (P : Program S L A) (init : Config S L → Prop) (ok : Config S L → ℕ → A → Prop) :
    List (Config S L × ℕ × A) → Config S L → Prop
  | init {c} : init c → Run P init ok [] c
  | next {steps c c' i a} : Run P init ok steps c → ok c i a → c.next P i a = some c' →
      Run P init ok ((c, i, a) :: steps) c'

variable {steps : List (Config S L × ℕ × A)}

theorem Run.reachable {c : Config S L} (h : Run P init ok steps c) : ReachableWhen P init ok c := by
  induction h with
  | init h => exact .init h
  | next _ ha hn ih => exact .next ih ha hn

theorem ReachableWhen.exists_run {c : Config S L} (h : ReachableWhen P init ok c) :
    ∃ steps, Run P init ok steps c := by
  induction h with
  | init h => exact ⟨[], .init h⟩
  | next _ ha hn ih =>
    obtain ⟨steps, hrun⟩ := ih
    exact ⟨_, .next hrun ha hn⟩

theorem Run.mono {c : Config S L} (h : Run P init ok steps c)
    (hok : ∀ c i a, ok c i a → ok' c i a) : Run P init ok' steps c := by
  induction h with
  | init h => exact .init h
  | next _ ha hn ih => exact .next ih (hok _ _ _ ha) hn

/-- What a run had done when it took one of its steps is a run. -/
theorem Run.before {c c' : Config S L} {i : ℕ} {a : A} {later : List (Config S L × ℕ × A)}
    (h : Run P init ok (later ++ (c, i, a) :: steps) c') : Run P init ok steps c := by
  induction later generalizing c' with
  | nil =>
    cases h with
    | next hr _ _ => exact hr
  | cons x later ih =>
    cases h with
    | next hr _ _ => exact ih hr

/-- Each step of the run was taken in a configuration the run had reached. -/
theorem Run.step_of_mem {c : Config S L} (h : Run P init ok steps c) {x : Config S L × ℕ × A}
    (hx : x ∈ steps) : ∃ c', ReachableWhen P init ok x.1 ∧ ok x.1 x.2.1 x.2.2 ∧
      x.1.next P x.2.1 x.2.2 = some c' := by
  induction h with
  | init h => exact nomatch hx
  | next hr ha hn ih =>
    rcases List.mem_cons.mp hx with rfl | hx
    · exact ⟨_, hr.reachable, ha, hn⟩
    · exact ih hx

/-- Every step of the run meets the side condition. -/
theorem Run.ok_of_mem {c : Config S L} (h : Run P init ok steps c) :
    ∀ x ∈ steps, ok x.1 x.2.1 x.2.2 := by
  intro x hx
  obtain ⟨-, -, hok, -⟩ := h.step_of_mem hx
  exact hok

/-- The invariant rule for assertions about a configuration and the steps that led to it. -/
theorem Run.invariant {I : List (Config S L × ℕ × A) → Config S L → Prop}
    (hinit : ∀ c, init c → I [] c)
    (hstep : ∀ steps c i a s l, Run P init ok steps c → ok c i a → I steps c →
      P c.shared i (c.procs i) a = some (s, l) →
      I ((c, i, a) :: steps) ⟨s, Function.update c.procs i l⟩)
    {c : Config S L} (h : Run P init ok steps c) : I steps c := by
  induction h with
  | init h => exact hinit _ h
  | @next steps c c' i a hr ha hn ih =>
    obtain ⟨s, l, hp, rfl⟩ := Config.next_eq_some hn
    exact hstep steps c i a s l hr ha ih hp

/-- The history rule: what one configuration shows bounds all that later ones show, if it comes to
`H` when shown, every step keeps `H`, and `H` speaks of what is shown next. -/
theorem Run.history {O : Type} {obs : Config S L → Option O} {R : O → O → Prop}
    {H : Config S L → O → Prop}
    (hshow : ∀ c o, ReachableWhen P init ok c → obs c = some o → H c o)
    (hstep : ∀ c i a s l o, ReachableWhen P init ok c → ok c i a → H c o →
      P c.shared i (c.procs i) a = some (s, l) → H ⟨s, Function.update c.procs i l⟩ o)
    (hread : ∀ c o o', ReachableWhen P init ok c → H c o → obs c = some o' → R o o')
    {c₀ c : Config S L} {i : ℕ} {a : A} {o o' : O} (h : Run P init ok steps c)
    (hm : (c₀, i, a) ∈ steps) (ho : obs c₀ = some o) (ho' : obs c = some o') : R o o' := by
  have ahead : ∀ x ∈ steps, obs x.1 = some o → H c o := by
    refine Run.invariant (I := fun steps c => ∀ x ∈ steps, obs x.1 = some o → H c o)
      (fun _ _ _ hx => nomatch hx) ?_ h
    intro steps c i a s l hr ha ih hp x hx hox
    refine hstep c i a s l o hr.reachable ha ?_ hp
    rcases List.mem_cons.mp hx with rfl | hx
    · exact hshow c o hr.reachable hox
    · exact ih x hx hox
  exact hread c o o' h.reachable (ahead _ hm ho) ho'

/-- A run of one program is a run of another exactly if they agree on each of its steps. -/
theorem Run.of_program_iff {Q : Program S L A} {c : Config S L} (h : Run P init ok steps c) :
    Run Q init ok steps c ↔ ∀ x ∈ steps, x.1.next Q x.2.1 x.2.2 = x.1.next P x.2.1 x.2.2 := by
  induction h with
  | init h => exact ⟨fun _ _ hx => (nomatch hx), fun _ => .init h⟩
  | next hr ha hn ih =>
    rw [List.forall_mem_cons, ← ih]
    constructor
    · intro hrun
      cases hrun with
      | next hr' _ hn' => exact ⟨hn'.trans hn.symm, hr'⟩
    · rintro ⟨hsame, hr'⟩
      exact .next hr' ha (hsame.trans hn)

/-! ## Refinement -/

theorem ReachableWhen.single {c c' : Config S L} {i : ℕ} {a : A} {s : S} {l : L} (hok : ok c i a)
    (hp : P c.shared i (c.procs i) a = some (s, l))
    (hc : c' = ⟨s, Function.update c.procs i l⟩) : ReachableWhen P (· = c) ok c' := by
  have hinit : ReachableWhen P (· = c) ok c := .init rfl
  refine hinit.next hok (?_ : c.next P i a = some c')
  rw [Config.next, hp, hc]

/-- The refinement rule. The configurations of a program, seen as configurations of another, are
reachable there if the initial ones are initial and every step is seen as any number of steps. -/
theorem ReachableWhen.refines {S' L' A' : Type} {Q : Program S' L' A'} {init' : Config S' L' → Prop}
    {okQ : Config S' L' → ℕ → A' → Prop} (view : Config S' L' → Config S L)
    (hinit : ∀ c, init' c → init (view c))
    (hstep : ∀ c i a s l, ReachableWhen Q init' okQ c → okQ c i a →
      ReachableWhen P init ok (view c) → Q c.shared i (c.procs i) a = some (s, l) →
      ReachableWhen P (· = view c) ok (view ⟨s, Function.update c.procs i l⟩))
    {c : Config S' L'} (h : ReachableWhen Q init' okQ c) : ReachableWhen P init ok (view c) := by
  refine h.invariant (I := fun c => ReachableWhen P init ok (view c))
    (fun c hc => .init (hinit c hc)) ?_
  intro c i a s l hr ha ih hp
  exact ih.trans (hstep c i a s l hr ha ih hp)

/-- An action that is always enabled, keeps the shared state and sends its process to `d` can be
taken by one process after the other. -/
theorem ReachableWhen.resets {a : A} {d : L} (hreset : ∀ s i l, P s i l a = some (s, d))
    (c : Config S L) (js : List ℕ) (hok : ∀ c, ∀ j ∈ js, ok c j a) :
    ReachableWhen P (· = c) ok ⟨c.shared, fun j => if j ∈ js then d else c.procs j⟩ := by
  induction js with
  | nil => exact .init (by simp)
  | cons j js ih =>
    have hrest := ih fun c k hk => hok c k (List.mem_cons_of_mem _ hk)
    refine hrest.trans (.single (hok _ j List.mem_cons_self) (hreset ..) ?_)
    congr 1
    funext k
    by_cases hk : k = j
    · simp [hk]
    · simp [hk]

/-! ## Replaying a schedule -/

/-- Replay a schedule, as long as every step meets `ok`. -/
def Config.runWhen (P : Program S L A) (ok : Config S L → ℕ → A → Prop)
    [∀ c i a, Decidable (ok c i a)] : Config S L → List (ℕ × A) → Option (Config S L)
  | c, [] => some c
  | c, (i, a) :: rest =>
    if ok c i a then
      match c.next P i a with
      | none => none
      | some c' => c'.runWhen P ok rest
    else none

/-- Replay a schedule. -/
abbrev Config.run (P : Program S L A) : Config S L → List (ℕ × A) → Option (Config S L) :=
  Config.runWhen P fun _ _ _ => True

section Replay
variable [∀ c i a, Decidable (ok c i a)]

/-- A schedule that replays ends in a reachable configuration. -/
theorem Config.runWhen_reachable {acts : List (ℕ × A)} : ∀ {c c' : Config S L},
    ReachableWhen P init ok c → c.runWhen P ok acts = some c' → ReachableWhen P init ok c' := by
  induction acts with
  | nil => intro c c' hc h; cases h; exact hc
  | cons p rest ih =>
    obtain ⟨i, a⟩ := p
    intro c c' hc h
    simp only [Config.runWhen] at h
    split at h
    · rename_i hok
      split at h
      · cases h
      · rename_i c1 hn
        exact ih (.next hc hok hn) h
    · cases h

/-- A run is carried on by a schedule that replays. -/
theorem Run.replay {acts : List (ℕ × A)} : ∀ {steps} {c c' : Config S L}, Run P init ok steps c →
    c.runWhen P ok acts = some c' → ∃ more, Run P init ok (more ++ steps) c' := by
  induction acts with
  | nil => intro steps c c' hc h; cases h; exact ⟨[], hc⟩
  | cons p rest ih =>
    obtain ⟨i, a⟩ := p
    intro steps c c' hc h
    simp only [Config.runWhen] at h
    split at h
    · rename_i hok
      split at h
      · cases h
      · rename_i c1 hn
        obtain ⟨more, hmore⟩ := ih (.next hc hok hn) h
        exact ⟨more ++ [(c, i, a)], by rwa [List.append_assoc]⟩
    · cases h

/-- A process that a schedule does not mention stays where it is. -/
theorem Config.runWhen_procs {j : ℕ} {acts : List (ℕ × A)} : ∀ {c c' : Config S L},
    c.runWhen P ok acts = some c' → j ∉ acts.map Prod.fst → c'.procs j = c.procs j := by
  induction acts with
  | nil => intro c c' h _; cases h; rfl
  | cons p rest ih =>
    obtain ⟨i, a⟩ := p
    intro c c' h hj
    rw [List.map_cons, List.mem_cons, not_or] at hj
    simp only [Config.runWhen] at h
    split at h
    · split at h
      · cases h
      · rename_i c1 hn
        obtain ⟨s, l, -, rfl⟩ := Config.next_eq_some hn
        exact (ih h hj.2).trans (Function.update_of_ne hj.1 ..)
    · cases h

/-- A schedule from the initial configuration whose last configuration passes the test `p`. -/
theorem exists_reachableWhen_of_run {c₀ : Config S L} {acts : List (ℕ × A)}
    {p : Config S L → Bool} (h : (c₀.runWhen P ok acts).map p = some true) :
    ∃ c, ReachableWhen P (· = c₀) ok c ∧ p c = true := by
  cases hr : c₀.runWhen P ok acts with
  | none => simp [hr] at h
  | some c =>
    simp only [hr, Option.map_some, Option.some.injEq] at h
    exact ⟨c, Config.runWhen_reachable (.init rfl) hr, h⟩

/-- A schedule whose configuration on the way passes the test `p` and whose last one passes `q`. -/
theorem exists_history_of_run {c₀ : Config S L} {acts acts' : List (ℕ × A)} {x : ℕ × A}
    {p q : Config S L → Bool} (h : ((c₀.runWhen P ok acts).bind fun c =>
      if p c then c.runWhen P ok (x :: acts') else none).map q = some true) :
    ∃ steps c c', Run P (· = c₀) ok steps c' ∧ (c, x.1, x.2) ∈ steps ∧ p c = true ∧ q c' = true := by
  obtain ⟨i, a⟩ := x
  cases hr : c₀.runWhen P ok acts with
  | none => simp [hr] at h
  | some c =>
    have hinit : Run P (· = c₀) ok [] c₀ := .init rfl
    obtain ⟨before, hbefore⟩ := hinit.replay hr
    simp only [hr, Option.bind_some, Config.runWhen] at h
    split at h
    · rename_i hp
      split at h
      · rename_i hok
        cases hn : c.next P i a with
        | none => simp [hn] at h
        | some c1 =>
          simp only [hn] at h
          obtain ⟨c', hr', hq⟩ := Option.map_eq_some_iff.mp h
          obtain ⟨more, hmore⟩ := Run.replay (.next hbefore hok hn) hr'
          exact ⟨_, c, c', hmore, List.mem_append_right _ List.mem_cons_self, hp, hq⟩
      · cases h
    · cases h

end Replay

end Interleaving
