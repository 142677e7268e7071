import TicketFlow.Migrations

/-! # Processes that bootstrap one database

Every process that starts calls `bootstrap` with its own list. The advisory lock serialises what
follows it; until its commit a process works on its own view of the database. -/

namespace TicketFlow
open Interleaving
set_option autoImplicit false

namespace Migrations

/-- Where a process is in `bootstrap`: before the lock, or at the commands it has yet to send. -/
inductive Bootstrapping (Schema : Type)
  | idle
  | connected (migrations : List Migration)
  | applying (migrations : List Migration) (rest : List Command) (view : SchemaState Schema)

/-- The committed database, and who holds the advisory lock. -/
structure Server (Schema : Type) where
  db : SchemaState Schema
  holder : Option ℕ

/-- `fail` is any error of the connection or the server, or the end of the process. -/
inductive Deploy
  | bootstrap (migrations : List Migration)
  | lock
  | next
  | fail
deriving DecidableEq

section Deployment
variable {Schema : Type} (exec : String → Schema → Option Schema)

def deployment : Program (Server Schema) (Bootstrapping Schema) Deploy
  | s, _, .idle, .bootstrap migrations =>
    match validateMigrations migrations with
    | .error _ => some (s, .idle)
    | .ok () => some (s, .connected migrations)
  | s, i, .connected migrations, .lock =>
    match s.holder with
    | some _ => none
    | none =>
      match refuse (applied (createTable s.db)) migrations with
      | some _ => some (s, .idle)
      | none => some ({ s with holder := some i },
          .applying migrations (commands (applied (createTable s.db)) migrations) (createTable s.db))
  | s, _, .connected _, .fail => some (s, .idle)
  | s, _, .applying migrations (c :: cs) view, .next =>
    match Command.run exec view c with
    | .error _ => some ({ s with holder := none }, .idle)
    | .ok view => some (s, .applying migrations cs view)
  | _, _, .applying _ [] view, .next => some (⟨view, none⟩, .idle)
  | s, _, .applying .., .fail => some ({ s with holder := none }, .idle)
  | _, _, _, _ => none

/-- Nobody has started. -/
def Fresh (db : SchemaState Schema) (w : Config (Server Schema) (Bootstrapping Schema)) : Prop :=
  w.shared = ⟨db, none⟩ ∧ ∀ i, w.procs i = .idle

/-- Every process calls `bootstrap` with a list of the family. -/
def Uses (F : List Migration → Prop) (_ : Config (Server Schema) (Bootstrapping Schema)) (_ : ℕ)
    (a : Deploy) : Prop :=
  ∀ migrations, a = .bootstrap migrations → F migrations

/-- Of two lists of the family one extends the other. -/
def Extending (F : List Migration → Prop) : Prop :=
  ∀ L L', F L → F L' → L.Sublist L' ∨ L'.Sublist L

/-- A process past the lock holds it, and what it has yet to send completes its transaction on the
committed database. -/
def Holds (F : List Migration → Prop) (s : Server Schema) (i : ℕ) : Bootstrapping Schema → Prop
  | .idle => True
  | .connected migrations => F migrations ∧ Ordered migrations
  | .applying migrations rest view => F migrations ∧ Ordered migrations ∧ s.holder = some i ∧
      Knows migrations s.db ∧ runAll exec rest view = transaction exec migrations s.db

/-- What an action does: it leaves the database as it was, or it is one whole `bootstrap`. -/
structure Acts (F : List Migration → Prop) (s : Server Schema) (i : ℕ) (l : Bootstrapping Schema)
    (s' : Server Schema) (l' : Bootstrapping Schema) : Prop where
  holds : Holds exec F s' i l'
  locked : s' = s ∨ s.holder = none ∨ s.holder = some i
  commits : s'.db = s.db ∨ ∃ migrations, l = .applying migrations [] s'.db ∧ F migrations ∧
    Ordered migrations ∧ Knows migrations s.db ∧ transaction exec migrations s.db = .ok s'.db

variable {exec} {F : List Migration → Prop} {s s' : Server Schema} {i j : ℕ}
  {l l' : Bootstrapping Schema} {a : Deploy} {db₀ : SchemaState Schema}
  {w w' : Config (Server Schema) (Bootstrapping Schema)}

/-- Another process is not disturbed, where the lock was free or stays with its holder. -/
theorem Holds.other (hj : Holds exec F s j l) (hs : s' = s ∨ s.holder = none ∨ s.holder = some i)
    (hne : j ≠ i) : Holds exec F s' j l := by
  cases l with
  | idle => trivial
  | connected migrations => exact hj
  | applying migrations rest view =>
    obtain ⟨-, -, hholder, -⟩ := id hj
    rcases hs with rfl | hnone | hi
    · exact hj
    · rw [hnone] at hholder
      cases hholder
    · rw [hi] at hholder
      exact absurd (Option.some.inj hholder).symm hne

theorem deployment_acts (hi : Holds exec F s i l) (ha : ∀ migrations, a = .bootstrap migrations → F migrations)
    (h : deployment exec s i l a = some (s', l')) : Acts exec F s i l s' l' := by
  cases l with
  | idle =>
    cases a with
    | bootstrap migrations =>
      rw [deployment] at h
      split at h
      · cases h
        exact ⟨trivial, .inl rfl, .inl rfl⟩
      · rename_i hv
        cases h
        exact ⟨⟨ha _ rfl, validateMigrations_eq_ok_iff.mp hv⟩, .inl rfl, .inl rfl⟩
    | lock => cases h
    | next => cases h
    | fail => cases h
  | connected migrations =>
    cases a with
    | bootstrap _ => cases h
    | lock =>
      rw [deployment] at h
      split at h
      · cases h
      · rename_i hfree
        split at h
        · cases h
          exact ⟨trivial, .inl rfl, .inl rfl⟩
        · rename_i hnone
          cases h
          have hknows : Knows migrations s.db := refuse_eq_none_iff.mp hnone
          refine ⟨⟨hi.1, hi.2, rfl, hknows, ?_⟩, .inr (.inl hfree), .inl rfl⟩
          exact (transaction_of_knows hknows).symm
    | next => cases h
    | fail =>
      cases h
      exact ⟨trivial, .inl rfl, .inl rfl⟩
  | applying migrations rest view =>
    obtain ⟨hF, ho, hholder, hknows, hrun⟩ := hi
    cases a with
    | bootstrap _ => cases rest <;> cases h
    | lock => cases rest <;> cases h
    | next =>
      cases rest with
      | nil =>
        cases h
        exact ⟨trivial, .inr (.inr hholder), .inr ⟨_, rfl, hF, ho, hknows, hrun.symm⟩⟩
      | cons c cs =>
        rw [deployment] at h
        rw [runAll] at hrun
        split at h
        · cases h
          exact ⟨trivial, .inr (.inr hholder), .inl rfl⟩
        · rename_i view' hc
          cases h
          rw [hc] at hrun
          exact ⟨⟨hF, ho, hholder, hknows, hrun⟩, .inl rfl, .inl rfl⟩
    | fail =>
      cases rest <;> cases h <;> exact ⟨trivial, .inr (.inr hholder), .inl rfl⟩

theorem holds_of_reachable (hw : ReachableWhen (deployment exec) (Fresh db₀) (Uses F) w) (i : ℕ) :
    Holds exec F w.shared i (w.procs i) := by
  have hinv := ReachableWhen.induct (I := fun _ : Server Schema => True) (J := Holds exec F)
    (fun w hw => ⟨trivial, fun j => by rw [hw.2 j]; trivial⟩)
    (fun w i a s l _ ha _ hJ hp => by
      have hacts := deployment_acts (hJ i) ha hp
      exact ⟨trivial, hacts.holds, fun j hj => (hJ j).other hacts.locked hj⟩) hw
  exact hinv.2 i

/-! ## What has been executed -/

variable (exec) in
/-- From `db₀` on the migrations `executed` were committed, one after the other: those of one list
of the family that `db₀` had not recorded, and no others. -/
structure Executed (F : List Migration → Prop) (db₀ db : SchemaState Schema)
    (executed : List Migration) : Prop where
  recorded : ∀ v, v ∈ applied db ↔ v ∈ applied db₀ ∨ v ∈ executed.map Migration.version
  schema : execAll exec (statements executed) db₀.schema = some db.schema
  whole : db = db₀ ∧ executed = [] ∨ ∃ L, F L ∧ Ordered L ∧
    (∀ v, v ∈ applied db ↔ v ∈ L.map Migration.version) ∧ executed.Perm (pending (applied db₀) L)

variable {executed L migrations : List Migration} {db db' : SchemaState Schema}

theorem mem_pending {recorded : List String} {m : Migration} :
    m ∈ pending recorded migrations ↔ m ∈ migrations ∧ m.version ∉ recorded := by
  rw [pending, List.mem_filter, decide_eq_true_iff]

theorem pending_nodup (h : Ordered migrations) (recorded : List String) :
    (pending recorded migrations).Nodup :=
  (h.news recorded).nodup.of_map _

theorem Knows.recorded (h : Knows migrations db) (v : String) :
    v ∈ applied db ++ (pending (applied db) migrations).map Migration.version ↔
      v ∈ migrations.map Migration.version := by
  rw [List.mem_append]
  constructor
  · rintro (hold | hnew)
    · exact h v hold
    · obtain ⟨m, hm, rfl⟩ := List.mem_map.mp hnew
      exact List.mem_map_of_mem (mem_pending.mp hm).1
  · intro hv
    obtain ⟨m, hm, rfl⟩ := List.mem_map.mp hv
    by_cases hold : m.version ∈ applied db
    · exact .inl hold
    · exact .inr (List.mem_map_of_mem (mem_pending.mpr ⟨hm, hold⟩))

theorem transaction_commits (ho : Ordered migrations) (hk : Knows migrations db)
    (h : transaction exec migrations db = .ok db') :
    execAll exec (statements (pending (applied db) migrations)) db.schema = some db'.schema ∧
      applied db' = applied db ++ (pending (applied db) migrations).map Migration.version := by
  cases hexec : execAll exec (statements (pending (applied db) migrations)) db.schema with
  | none =>
    obtain ⟨sql, -, hfails⟩ := transaction_of_fails ho hk hexec
    rw [hfails] at h
    cases h
  | some schema =>
    rw [transaction_of_runs ho hk hexec] at h
    cases h
    exact ⟨rfl, rfl⟩

/-- Of two lists that extend one another the one that knows what the other recorded is the longer. -/
theorem Ordered.sublist (hL : Ordered L) (hk : Knows migrations db)
    (hrec : ∀ v, v ∈ applied db ↔ v ∈ L.map Migration.version)
    (h : L.Sublist migrations ∨ migrations.Sublist L) : L.Sublist migrations := by
  rcases h with h | h
  · exact h
  · have hsub : L.map Migration.version ⊆ migrations.map Migration.version :=
      fun v hv => hk v ((hrec v).mpr hv)
    have hle := (hL.nodup.subperm hsub).length_le
    rw [List.length_map, List.length_map] at hle
    rw [h.eq_of_length_le hle]

/-- The migrations a longer list adds complete those the shorter one had to execute. -/
theorem pending_perm {recorded : List String} (hL : Ordered L) (ho : Ordered migrations)
    (hsub : L.Sublist migrations) (hrec : ∀ v, v ∈ applied db ↔ v ∈ L.map Migration.version)
    (hold : ∀ v ∈ recorded, v ∈ applied db) :
    (pending recorded L ++ pending (applied db) migrations).Perm (pending recorded migrations) := by
  have hdisjoint : ∀ m ∈ pending recorded L, m ∉ pending (applied db) migrations := by
    intro m hm hm'
    exact (mem_pending.mp hm').2 ((hrec _).mpr (List.mem_map_of_mem (mem_pending.mp hm).1))
  have hnodup : (pending recorded L ++ pending (applied db) migrations).Nodup :=
    List.nodup_append'.mpr ⟨pending_nodup hL _, pending_nodup ho _, hdisjoint⟩
  refine (List.perm_ext_iff_of_nodup hnodup (pending_nodup ho _)).mpr fun m => ?_
  rw [List.mem_append, mem_pending, mem_pending, mem_pending]
  constructor
  · rintro (⟨hm, hn⟩ | ⟨hm, hn⟩)
    · exact ⟨hsub.subset hm, hn⟩
    · exact ⟨hm, fun hr => hn (hold _ hr)⟩
  · rintro ⟨hm, hn⟩
    by_cases hv : m.version ∈ applied db
    · obtain ⟨m', hm', heq⟩ := List.mem_map.mp ((hrec _).mp hv)
      have hsame : m' = m := List.inj_on_of_nodup_map ho.nodup (hsub.subset hm') hm heq
      exact .inl ⟨hsame ▸ hm', hn⟩
    · exact .inr ⟨hm, hv⟩

theorem statements_append (executed news : List Migration) :
    statements (executed ++ news) = statements executed ++ statements news :=
  List.flatMap_append

theorem Executed.commit (h : Executed exec F db₀ db executed) (hext : Extending F)
    (hF : F migrations) (ho : Ordered migrations) (hk : Knows migrations db)
    (ht : transaction exec migrations db = .ok db') :
    Executed exec F db₀ db' (executed ++ pending (applied db) migrations) := by
  obtain ⟨hschema, happlied⟩ := transaction_commits ho hk ht
  refine ⟨fun v => ?_, ?_, .inr ⟨migrations, hF, ho, fun v => happlied ▸ hk.recorded v, ?_⟩⟩
  · rw [happlied, List.mem_append, h.recorded, List.map_append, List.mem_append, or_assoc]
  · rw [statements_append, execAll_append, h.schema]
    exact hschema
  · rcases h.whole with ⟨rfl, rfl⟩ | ⟨L, hFL, hL, hrec, hperm⟩
    · rfl
    · have hsub := hL.sublist hk hrec (hext L migrations hFL hF)
      have hold : ∀ v ∈ applied db₀, v ∈ applied db := fun v hv => (h.recorded v).mpr (.inl hv)
      exact (hperm.append_right _).trans (pending_perm hL ho hsub hrec hold)

/-! ## Completing a bootstrap -/

variable (exec) in
/-- From `w` process `i` alone reaches a configuration where it has returned, with the database
`db` committed and the lock free. -/
def Completes (F : List Migration → Prop) (db₀ : SchemaState Schema) (i : ℕ)
    (w : Config (Server Schema) (Bootstrapping Schema)) (db : SchemaState Schema) : Prop :=
  ∃ w', ReachableWhen (deployment exec) (Fresh db₀) (Uses F) w' ∧ w'.shared = ⟨db, none⟩ ∧
    w'.procs i = .idle ∧ ∀ j, j ≠ i → w'.procs j = w.procs j

theorem Completes.of_next (hw : ReachableWhen (deployment exec) (Fresh db₀) (Uses F) w)
    (ha : Uses F w i a) (hstep : deployment exec w.shared i (w.procs i) a = some (s', l'))
    (h : ∀ w', ReachableWhen (deployment exec) (Fresh db₀) (Uses F) w' → w'.shared = s' →
      w'.procs i = l' → Completes exec F db₀ i w' db) :
    Completes exec F db₀ i w db := by
  have hn : w.next (deployment exec) i a = some ⟨s', Function.update w.procs i l'⟩ := by
    rw [Config.next, hstep]
  obtain ⟨w', hw', hs, hi, ho⟩ := h _ (.next hw ha hn) rfl (Function.update_self ..)
  refine ⟨w', hw', hs, hi, fun j hj => (ho j hj).trans ?_⟩
  exact Function.update_of_ne hj ..

theorem completes_applying (rest : List Command) : ∀ {w view},
    ReachableWhen (deployment exec) (Fresh db₀) (Uses F) w →
    w.procs i = .applying migrations rest view → runAll exec rest view = .ok db →
    Completes exec F db₀ i w db := by
  induction rest with
  | nil =>
    intro w view hw hi hrun
    cases hrun
    have hstep : deployment exec w.shared i (w.procs i) .next = some (⟨db, none⟩, .idle) := by
      rw [hi]
      rfl
    refine .of_next (a := .next) hw (fun _ he => nomatch he) hstep fun w' hw' hs hidle => ?_
    exact ⟨w', hw', hs, hidle, fun _ _ => rfl⟩
  | cons c cs ih =>
    intro w view hw hi hrun
    rw [runAll] at hrun
    cases hc : Command.run exec view c with
    | error e => simp [hc] at hrun
    | ok view' =>
      rw [hc] at hrun
      have hstep : deployment exec w.shared i (w.procs i) .next =
          some (w.shared, .applying migrations cs view') := by
        rw [hi, deployment, hc]
      exact .of_next (a := .next) hw (fun _ he => nomatch he) hstep fun w' hw' _ hl => ih hw' hl hrun

/-- A process that finds the lock free, and is not disturbed, completes its bootstrap. -/
theorem completes (hw : ReachableWhen (deployment exec) (Fresh db₀) (Uses F) w)
    (hi : w.procs i = .idle) (hfree : w.shared.holder = none) (hF : F migrations)
    (ho : Ordered migrations) (hk : Knows migrations w.shared.db)
    (ht : transaction exec migrations w.shared.db = .ok db) :
    Completes exec F db₀ i w db := by
  have hstart : deployment exec w.shared i (w.procs i) (.bootstrap migrations) =
      some (w.shared, .connected migrations) := by
    rw [hi, deployment, validateMigrations_eq_ok_iff.mpr ho]
  refine .of_next hw (fun _ he => Deploy.bootstrap.inj he ▸ hF) hstart fun w₁ hw₁ hs₁ hl₁ => ?_
  have hnone : refuse (applied (createTable w₁.shared.db)) migrations = none :=
    refuse_eq_none_iff.mpr (hs₁ ▸ hk)
  have hlock : deployment exec w₁.shared i (w₁.procs i) .lock =
      some ({ w₁.shared with holder := some i }, .applying migrations
        (commands (applied (createTable w₁.shared.db)) migrations) (createTable w₁.shared.db)) := by
    rw [hl₁, deployment, hs₁, hfree]
    dsimp only
    rw [← hs₁, hnone]
  refine .of_next (a := .lock) hw₁ (fun _ he => nomatch he) hlock fun w₂ hw₂ _ hl₂ => ?_
  refine completes_applying _ hw₂ hl₂ ?_
  rw [hs₁]
  exact (transaction_of_knows hk).symm.trans ht

/-! ## Exactly once -/

theorem bootstrap_of_transaction (ho : Ordered migrations)
    (ht : transaction exec migrations db = .ok db') :
    bootstrap exec migrations db = (db', .ok ()) := by
  rw [bootstrap, validateMigrations_eq_ok_iff.mpr ho, ht]

/-- Once a list has been committed, its bootstrap has nothing to send. -/
theorem bootstrap_again (ho : Ordered migrations) {schema : Schema} {versions : List String}
    (hrec : ∀ v, v ∈ versions ↔ v ∈ migrations.map Migration.version) :
    pending versions migrations = [] ∧ bootstrap exec migrations ⟨schema, some versions⟩ =
      (⟨schema, some versions⟩, .ok ()) := by
  have hnone : pending versions migrations = [] := by
    refine List.filter_eq_nil_iff.mpr fun m hm => ?_
    rw [decide_eq_true_iff, not_not]
    exact (hrec _).mpr (List.mem_map_of_mem hm)
  have hk : Knows migrations (⟨schema, some versions⟩ : SchemaState Schema) := fun v => (hrec v).mp
  have hp : pending (applied (⟨schema, some versions⟩ : SchemaState Schema)) migrations = [] := hnone
  have hexec : execAll exec (statements (pending (applied (⟨schema, some versions⟩ :
      SchemaState Schema)) migrations)) schema = some schema := by
    rw [hp]
    rfl
  have hruns := bootstrap_of_runs ho hk hexec
  rw [hp, List.map_nil, List.append_nil] at hruns
  exact ⟨hnone, hruns⟩

theorem executed_of_reachable (hext : Extending F)
    (hw : ReachableWhen (deployment exec) (Fresh db₀) (Uses F) w) :
    ∃ executed, Executed exec F db₀ w.shared.db executed := by
  induction hw with
  | init h =>
    refine ⟨[], ⟨fun v => ?_, ?_, .inl ⟨?_, rfl⟩⟩⟩
    · rw [h.1, List.map_nil]
      simp
    · rw [h.1]
      rfl
    · rw [h.1]
  | @next w w' i a hw ha hn ih =>
    obtain ⟨executed, hdone⟩ := ih
    obtain ⟨s', l', hp, rfl⟩ := Config.next_eq_some hn
    rcases (deployment_acts (holds_of_reachable hw i) ha hp).commits with hsame |
      ⟨migrations, -, hF, ho, hk, ht⟩
    · refine ⟨executed, ?_⟩
      dsimp only
      rwa [hsame]
    · exact ⟨_, hdone.commit hext hF ho hk ht⟩

/-- `bootstrap` alone: it raises and the database is as it was, or it commits what the database had
not recorded, and a second call has nothing to send. Any number of them, each with a list of a
family whose lists extend one another: what they committed is what one list had to execute, and
only a process that knows every recorded version changes the database. -/
theorem bootstrap_exactlyOnce (hext : Extending F) :
    (∀ migrations (db : SchemaState Schema), ¬Ordered migrations →
      ∃ message, bootstrap exec migrations db = (db, .error (.value message))) ∧
    (∀ migrations (db : SchemaState Schema), Ordered migrations → ¬Knows migrations db →
      ∃ message, bootstrap exec migrations db = (db, .error (.runtime message))) ∧
    (∀ migrations db, Ordered migrations → Knows migrations db →
      execAll exec (statements (pending (applied db) migrations)) db.schema = none →
      ∃ sql ∈ statements (pending (applied db) migrations),
        bootstrap exec migrations db = (db, .error (.database sql))) ∧
    (∀ migrations db schema, Ordered migrations → Knows migrations db →
      execAll exec (statements (pending (applied db) migrations)) db.schema = some schema →
      ∃ db', bootstrap exec migrations db = (db', .ok ()) ∧ db'.schema = schema ∧
        (∀ v, v ∈ applied db' ↔ v ∈ migrations.map Migration.version) ∧
        pending (applied db') migrations = [] ∧
        bootstrap exec migrations db' = (db', .ok ())) ∧
    ∀ db₀ w, ReachableWhen (deployment exec) (Fresh db₀) (Uses F) w →
      (∃ executed, Executed exec F db₀ w.shared.db executed) ∧
      ∀ i a w', Uses F w i a → w.next (deployment exec) i a = some w' →
        w'.shared.db = w.shared.db ∨ ∃ migrations,
          w.procs i = .applying migrations [] w'.shared.db ∧ F migrations ∧
          Knows migrations w.shared.db ∧
          bootstrap exec migrations w.shared.db = (w'.shared.db, .ok ()) := by
  refine ⟨fun migrations db ho => bootstrap_of_not_ordered ho,
    fun migrations db ho hk => bootstrap_of_not_knows ho hk,
    fun migrations db ho hk h => bootstrap_of_fails ho hk h,
    fun migrations db schema ho hk h => ?_,
    fun db₀ w hw => ⟨executed_of_reachable hext hw, fun i a w' ha hn => ?_⟩⟩
  · exact ⟨_, bootstrap_of_runs ho hk h, rfl, hk.recorded, bootstrap_again ho hk.recorded⟩
  · obtain ⟨s', l', hp, rfl⟩ := Config.next_eq_some hn
    rcases (deployment_acts (holds_of_reachable hw i) ha hp).commits with hsame |
      ⟨migrations, hl, hF, ho, hk, ht⟩
    · exact .inl hsame
    · exact .inr ⟨migrations, hl, hF, hk, bootstrap_of_transaction ho ht⟩

end Deployment

/-- Two statements of the tests on the columns of their table. -/
def probe (sql : String) : Option (List String) → Option (Option (List String))
  | none =>
    if sql = "CREATE TABLE migration_probe (id integer PRIMARY KEY)" then some (some ["id"])
    else none
  | some columns =>
    if sql = "ALTER TABLE migration_probe ADD COLUMN name text NOT NULL DEFAULT 'unset'" ∧
      "name" ∉ columns then some (some (columns ++ ["name"]))
    else none

def createProbe : Migration :=
  ⟨"001_create_probe", ["CREATE TABLE migration_probe (id integer PRIMARY KEY)"]⟩

def alterProbe : Migration :=
  ⟨"002_alter_probe",
    ["ALTER TABLE migration_probe ADD COLUMN name text NOT NULL DEFAULT 'unset'"]⟩

/-- A process with the older list, then one with the newer. -/
theorem bootstrap_exactlyOnce_probe : ∃ w executed,
    ReachableWhen (deployment probe) (Fresh ⟨none, none⟩)
      (Uses fun L => L = [createProbe] ∨ L = [createProbe, alterProbe]) w ∧
    w.shared.db = ⟨some ["id", "name"], some ["001_create_probe", "002_alter_probe"]⟩ ∧
    Executed probe (fun L => L = [createProbe] ∨ L = [createProbe, alterProbe])
      ⟨none, none⟩ w.shared.db executed := by
  have hext : Extending fun L => L = [createProbe] ∨ L = [createProbe, alterProbe] := by
    rintro L L' (rfl | rfl) (rfl | rfl) <;> decide
  have hfirst : Ordered [createProbe] := ⟨by decide, by decide⟩
  have hsecond : Ordered [createProbe, alterProbe] := ⟨by decide, by decide⟩
  have hw : ReachableWhen (deployment probe) (Fresh ⟨none, none⟩)
      (Uses fun L => L = [createProbe] ∨ L = [createProbe, alterProbe])
      ⟨⟨⟨none, none⟩, none⟩, fun _ => .idle⟩ := .init ⟨rfl, fun _ => rfl⟩
  have ht₁ : transaction probe [createProbe] ⟨none, none⟩ =
      .ok ⟨some ["id"], some ["001_create_probe"]⟩ :=
    transaction_of_runs hfirst (by decide) rfl
  have ht₂ : transaction probe [createProbe, alterProbe] ⟨some ["id"], some ["001_create_probe"]⟩ =
      .ok ⟨some ["id", "name"], some ["001_create_probe", "002_alter_probe"]⟩ :=
    transaction_of_runs hsecond (by decide) rfl
  obtain ⟨w₁, hw₁, hs₁, -, hothers⟩ := completes (i := 0) hw rfl rfl (.inl rfl) hfirst (by decide) ht₁
  have hdb₁ : w₁.shared.db = ⟨some ["id"], some ["001_create_probe"]⟩ := by rw [hs₁]
  obtain ⟨w₂, hw₂, hs₂, -, -⟩ := completes (i := 1) hw₁ (hothers 1 (by decide)) (by rw [hs₁])
    (.inr rfl) hsecond (by rw [hdb₁]; decide) (by rw [hdb₁]; exact ht₂)
  obtain ⟨executed, he⟩ := ((bootstrap_exactlyOnce hext).2.2.2.2 _ _ hw₂).1
  exact ⟨w₂, executed, hw₂, by rw [hs₂], he⟩

end Migrations
end TicketFlow
