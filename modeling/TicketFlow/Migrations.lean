import TicketFlow.Library.Interleaving
import Mathlib.Data.Finset.Card
import Mathlib.Data.List.Sort
import Mathlib.Data.String.Basic

/-! # Schema migrations

`bootstrap` of `db.py`. What a statement does to the schema, and whether it fails, is Postgres's
business and a parameter. The connection context rolls a transaction back when an exception leaves
it, and the advisory lock is held until the transaction ends. -/

namespace TicketFlow
open Interleaving
set_option autoImplicit false

structure Migration where
  version : String
  statements : List String
deriving DecidableEq

/-- What leaves `bootstrap`: a `ValueError`, a `RuntimeError`, or the error of a statement. -/
inductive BootstrapError
  | value (message : String)
  | runtime (message : String)
  | database (statement : String)
deriving DecidableEq

/-- The schema, and the rows of `schema_migrations` once the table exists. -/
structure SchemaState (Schema : Type) where
  schema : Schema
  schemaMigrations : Option (List String)

/-- What the loop over the migrations sends to the server. -/
inductive Command
  | statement (sql : String)
  | mark (version : String)
deriving DecidableEq

namespace Migrations

def validateMigrations (migrations : List Migration) : Except BootstrapError Unit :=
  let versions := migrations.map Migration.version
  if versions.toFinset.card ≠ versions.length then
    .error (.value "Migration versions must be unique")
  else if versions ≠ versions.mergeSort then
    .error (.value "Migration versions must be ordered")
  else .ok ()

section Bootstrap
variable {Schema : Type} (exec : String → Schema → Option Schema)

/-- `CREATE TABLE IF NOT EXISTS schema_migrations`. -/
def createTable (db : SchemaState Schema) : SchemaState Schema :=
  { db with schemaMigrations := some (db.schemaMigrations.getD []) }

/-- The recorded versions. -/
def applied (db : SchemaState Schema) : List String := db.schemaMigrations.getD []

/-- `sorted(applied_versions - known_versions)`. -/
def unknownVersions (appliedVersions : List String) (migrations : List Migration) : List String :=
  (appliedVersions.dedup.filter (· ∉ migrations.map Migration.version)).mergeSort

/-- A statement, or the insert of a marker, which the primary key may refuse. -/
def Command.run (db : SchemaState Schema) : Command → Except BootstrapError (SchemaState Schema)
  | .statement sql =>
    match exec sql db.schema with
    | none => .error (.database sql)
    | some schema => .ok { db with schema := schema }
  | .mark version =>
    if version ∈ applied db then .error (.database "INSERT INTO schema_migrations")
    else .ok { db with schemaMigrations := some (applied db ++ [version]) }

def runAll : List Command → SchemaState Schema → Except BootstrapError (SchemaState Schema)
  | [], db => .ok db
  | c :: cs, db =>
    match Command.run exec db c with
    | .error e => .error e
    | .ok db => runAll cs db

/-- The migrations whose version is not recorded. -/
def pending (appliedVersions : List String) (migrations : List Migration) : List Migration :=
  migrations.filter (·.version ∉ appliedVersions)

/-- What the loop sends: the statements of each pending migration, then its marker. -/
def commands (appliedVersions : List String) (migrations : List Migration) : List Command :=
  (pending appliedVersions migrations).flatMap fun m => m.statements.map .statement ++ [.mark m.version]

/-- What is raised after the lock when a recorded version is not in the list. -/
def refuse (appliedVersions : List String) (migrations : List Migration) : Option BootstrapError :=
  match unknownVersions appliedVersions migrations with
  | [] => none
  | unknown => some (.runtime ("Database has newer schema migrations unknown to this code: " ++
      ", ".intercalate unknown))

/-- The transaction of `bootstrap`, on its own view of the database. -/
def transaction (migrations : List Migration) (db : SchemaState Schema) :
    Except BootstrapError (SchemaState Schema) :=
  let db := createTable db
  match refuse (applied db) migrations with
  | some error => .error error
  | none => runAll exec (commands (applied db) migrations) db

/-- The database `bootstrap` leaves, and how it ends. -/
def bootstrap (migrations : List Migration) (db : SchemaState Schema) :
    SchemaState Schema × Except BootstrapError Unit :=
  match validateMigrations migrations with
  | .error e => (db, .error e)
  | .ok () =>
    match transaction exec migrations db with
    | .error e => (db, .error e)
    | .ok db => (db, .ok ())

/-! ## One bootstrap -/

/-- The statements, one after the other. -/
def execAll (statements : List String) (schema : Schema) : Option Schema :=
  statements.foldlM (fun schema sql => exec sql schema) schema

/-- What the bootstraps after one another have to execute. -/
def statements (migrations : List Migration) : List String :=
  migrations.flatMap Migration.statements

/-- Distinct versions, in order. -/
structure Ordered (migrations : List Migration) : Prop where
  nodup : (migrations.map Migration.version).Nodup
  sorted : (migrations.map Migration.version).Pairwise (· ≤ ·)

variable {exec} {migrations done : List Migration} {db db' : SchemaState Schema} {schema : Schema}

theorem nodup_iff_card (versions : List String) :
    versions.toFinset.card = versions.length ↔ versions.Nodup := by
  have hcard := Multiset.toFinset_card_eq_card_iff_nodup (m := (versions : Multiset String))
  rwa [Multiset.coe_card, Multiset.coe_nodup] at hcard

theorem eq_mergeSort_iff (versions : List String) :
    versions = versions.mergeSort ↔ versions.Pairwise (· ≤ ·) := by
  constructor
  · intro h
    rw [h]
    have hsorted : versions.mergeSort.Pairwise fun a b => decide (a ≤ b) = true :=
      List.pairwise_mergeSort
        (fun a b c hab hbc => by simpa using (of_decide_eq_true hab).trans (of_decide_eq_true hbc))
        (fun a b => by simpa using le_total a b) versions
    simpa using hsorted
  · intro h
    exact (List.mergeSort_of_pairwise (h.imp fun hle => decide_eq_true hle)).symm

theorem validateMigrations_eq_ok_iff :
    validateMigrations migrations = .ok () ↔ Ordered migrations := by
  unfold validateMigrations
  dsimp only
  split
  · rename_i h
    refine ⟨fun he => (nomatch he), fun ho => absurd ho.nodup ?_⟩
    rwa [ne_eq, nodup_iff_card] at h
  · rename_i hcard
    rw [not_not, nodup_iff_card] at hcard
    split
    · rename_i h
      refine ⟨fun he => (nomatch he), fun ho => absurd ho.sorted ?_⟩
      rwa [ne_eq, eq_mergeSort_iff] at h
    · rename_i hsort
      rw [not_not, eq_mergeSort_iff] at hsort
      exact ⟨fun _ => ⟨hcard, hsort⟩, fun _ => rfl⟩

theorem validateMigrations_of_not (h : ¬Ordered migrations) :
    ∃ message, validateMigrations migrations = .error (.value message) := by
  rw [← validateMigrations_eq_ok_iff] at h
  unfold validateMigrations at h ⊢
  dsimp only at h ⊢
  split_ifs at h ⊢
  · exact ⟨_, rfl⟩
  · exact ⟨_, rfl⟩
  · exact absurd rfl h

theorem refuse_eq_none_iff {appliedVersions : List String} :
    refuse appliedVersions migrations = none ↔
      ∀ v ∈ appliedVersions, v ∈ migrations.map Migration.version := by
  have hmem : ∀ v, v ∈ unknownVersions appliedVersions migrations ↔
      v ∈ appliedVersions ∧ v ∉ migrations.map Migration.version := by
    intro v
    rw [unknownVersions, List.mem_mergeSort, List.mem_filter, List.mem_dedup, decide_eq_true_iff]
  unfold refuse
  split
  · rename_i hnil
    refine ⟨fun _ v hv => ?_, fun _ => rfl⟩
    by_contra hn
    have := (hmem v).mpr ⟨hv, hn⟩
    rw [hnil] at this
    cases this
  · rename_i hne
    refine ⟨fun he => (nomatch he), fun h => absurd ?_ hne⟩
    refine List.eq_nil_iff_forall_not_mem.mpr fun v hv => ?_
    exact ((hmem v).mp hv).2 (h v ((hmem v).mp hv).1)

theorem refuse_of_unknown (appliedVersions : List String) {v : String} (hv : v ∈ appliedVersions)
    (hn : v ∉ migrations.map Migration.version) :
    ∃ message, refuse appliedVersions migrations = some (.runtime message) := by
  cases h : refuse appliedVersions migrations with
  | none => exact absurd (refuse_eq_none_iff.mp h v hv) hn
  | some e =>
    unfold refuse at h
    split at h
    · cases h
    · cases h
      exact ⟨_, rfl⟩

@[simp] theorem createTable_schema : (createTable db).schema = db.schema := rfl

@[simp] theorem applied_createTable : applied (createTable db) = applied db := rfl

theorem runAll_append (cs cs' : List Command) : ∀ {db db' : SchemaState Schema},
    runAll exec cs db = .ok db' → runAll exec (cs ++ cs') db = runAll exec cs' db' := by
  induction cs with
  | nil =>
    intro db db' h
    cases h
    rfl
  | cons c cs ih =>
    intro db db' h
    rw [List.cons_append, runAll]
    rw [runAll] at h
    cases hc : Command.run exec db c with
    | error e => simp [hc] at h
    | ok db₁ =>
      rw [hc] at h
      exact ih h

theorem runAll_append_error (cs cs' : List Command) {e : BootstrapError} :
    ∀ {db : SchemaState Schema}, runAll exec cs db = .error e →
      runAll exec (cs ++ cs') db = .error e := by
  induction cs with
  | nil => exact fun h => nomatch h
  | cons c cs ih =>
    intro db h
    rw [List.cons_append, runAll]
    rw [runAll] at h
    cases hc : Command.run exec db c with
    | error e' => simpa [hc] using h
    | ok db₁ =>
      rw [hc] at h
      exact ih h

theorem runAll_statements (sqls : List String) : ∀ (db : SchemaState Schema) {schema : Schema},
    execAll exec sqls db.schema = some schema →
      runAll exec (sqls.map .statement) db = .ok { db with schema := schema } := by
  induction sqls with
  | nil =>
    intro db schema h
    cases h
    rfl
  | cons sql sqls ih =>
    intro db schema h
    rw [execAll, List.foldlM_cons] at h
    obtain ⟨schema₁, hsql, hrest⟩ := Option.bind_eq_some_iff.mp h
    rw [List.map_cons, runAll, Command.run, hsql]
    exact ih { db with schema := schema₁ } hrest

theorem runAll_statements_error (sqls : List String) : ∀ (db : SchemaState Schema),
    execAll exec sqls db.schema = none →
      ∃ sql ∈ sqls, runAll exec (sqls.map .statement) db = .error (.database sql) := by
  induction sqls with
  | nil => exact fun _ h => nomatch h
  | cons sql sqls ih =>
    intro db h
    rw [List.map_cons, runAll, Command.run]
    cases hsql : exec sql db.schema with
    | none => exact ⟨sql, List.mem_cons_self, rfl⟩
    | some schema =>
      rw [execAll, List.foldlM_cons, hsql] at h
      obtain ⟨sql', hmem, hrun⟩ := ih { db with schema := schema } h
      exact ⟨sql', List.mem_cons_of_mem _ hmem, hrun⟩

theorem execAll_append (sqls sqls' : List String) (schema : Schema) :
    execAll exec (sqls ++ sqls') schema =
      (execAll exec sqls schema).bind (execAll exec sqls') := by
  unfold execAll
  exact List.foldlM_append

/-- One migration: its statements, and its marker, which the primary key does not refuse. -/
theorem runAll_migration {m : Migration} {schema schema' : Schema} {recorded : List String}
    (hnew : m.version ∉ recorded) (h : execAll exec m.statements schema = some schema')
    (rest : List Command) :
    runAll exec ((m.statements.map .statement ++ [.mark m.version]) ++ rest)
        ⟨schema, some recorded⟩ =
      runAll exec rest ⟨schema', some (recorded ++ [m.version])⟩ := by
  have hstatements := runAll_statements _ ⟨schema, some recorded⟩ h
  rw [List.append_assoc, runAll_append _ _ hstatements, List.singleton_append, runAll]
  have hmark : Command.run exec ⟨schema', some recorded⟩ (.mark m.version) =
      .ok ⟨schema', some (recorded ++ [m.version])⟩ := if_neg hnew
  rw [hmark]

/-- The versions of `news` are distinct and none of them is recorded. -/
structure News (recorded : List String) (news : List Migration) : Prop where
  nodup : (news.map Migration.version).Nodup
  new : ∀ m ∈ news, m.version ∉ recorded

theorem News.tail {m : Migration} {news : List Migration} {recorded : List String}
    (h : News recorded (m :: news)) : News (recorded ++ [m.version]) news := by
  have hnodup := h.nodup
  rw [List.map_cons, List.nodup_cons] at hnodup
  refine ⟨hnodup.2, fun m' hm' hmem => ?_⟩
  rcases List.mem_append.mp hmem with hold | hsame
  · exact h.new m' (List.mem_cons_of_mem _ hm') hold
  · exact hnodup.1 (List.mem_singleton.mp hsame ▸ List.mem_map_of_mem hm')

theorem runAll_pending (news : List Migration) : ∀ {schema schema' : Schema} {recorded : List String},
    News recorded news → execAll exec (statements news) schema = some schema' →
    runAll exec (news.flatMap fun m => m.statements.map .statement ++ [.mark m.version])
      ⟨schema, some recorded⟩ = .ok ⟨schema', some (recorded ++ news.map Migration.version)⟩ := by
  induction news with
  | nil =>
    intro schema schema' recorded _ h
    cases h
    rw [List.map_nil, List.append_nil]
    rfl
  | cons m news ih =>
    intro schema schema' recorded hnews h
    rw [statements, List.flatMap_cons, execAll_append] at h
    obtain ⟨schema₁, hfirst, hrest⟩ := Option.bind_eq_some_iff.mp h
    rw [List.flatMap_cons, runAll_migration (hnews.new m List.mem_cons_self) hfirst,
      ih hnews.tail hrest, List.append_assoc, List.singleton_append, List.map_cons]

theorem runAll_pending_error (news : List Migration) : ∀ {schema : Schema} {recorded : List String},
    News recorded news → execAll exec (statements news) schema = none →
    ∃ sql ∈ statements news,
      runAll exec (news.flatMap fun m => m.statements.map .statement ++ [.mark m.version])
        ⟨schema, some recorded⟩ = .error (.database sql) := by
  induction news with
  | nil => exact fun _ h => nomatch h
  | cons m news ih =>
    intro schema recorded hnews h
    rw [statements, List.flatMap_cons, execAll_append] at h
    rw [List.flatMap_cons]
    cases hfirst : execAll exec m.statements schema with
    | none =>
      obtain ⟨sql, hmem, hrun⟩ := runAll_statements_error _ ⟨schema, some recorded⟩ hfirst
      refine ⟨sql, List.mem_append_left _ hmem, ?_⟩
      rw [List.append_assoc]
      exact runAll_append_error _ _ hrun
    | some schema₁ =>
      rw [hfirst] at h
      obtain ⟨sql, hmem, hrun⟩ := ih hnews.tail h
      refine ⟨sql, List.mem_append_right _ hmem, ?_⟩
      rwa [runAll_migration (hnews.new m List.mem_cons_self) hfirst]

theorem Ordered.news (h : Ordered migrations) (recorded : List String) :
    News recorded (pending recorded migrations) := by
  refine ⟨h.nodup.sublist (List.filter_sublist.map _), fun m hm => ?_⟩
  have hnew := (List.mem_filter.mp hm).2
  exact of_decide_eq_true hnew

/-- Every recorded version is in the list. -/
def Knows (migrations : List Migration) (db : SchemaState Schema) : Prop :=
  ∀ v ∈ applied db, v ∈ migrations.map Migration.version

instance : Decidable (Knows migrations db) :=
  inferInstanceAs (Decidable (∀ v ∈ applied db, v ∈ migrations.map Migration.version))

theorem transaction_of_knows (h : Knows migrations db) :
    transaction exec migrations db =
      runAll exec (commands (applied db) migrations) ⟨db.schema, some (applied db)⟩ := by
  have hnone : refuse (applied (createTable db)) migrations = none := refuse_eq_none_iff.mpr h
  unfold transaction
  dsimp only
  rw [hnone]
  rfl

theorem bootstrap_of_not_ordered (h : ¬Ordered migrations) :
    ∃ message, bootstrap exec migrations db = (db, .error (.value message)) := by
  obtain ⟨message, hv⟩ := validateMigrations_of_not h
  refine ⟨message, ?_⟩
  rw [bootstrap, hv]

theorem bootstrap_of_not_knows (ho : Ordered migrations) (h : ¬Knows migrations db) :
    ∃ message, bootstrap exec migrations db = (db, .error (.runtime message)) := by
  obtain ⟨v, hv, hn⟩ : ∃ v ∈ applied db, v ∉ migrations.map Migration.version := by
    simpa only [Knows, not_forall, exists_prop] using h
  obtain ⟨message, hr⟩ := refuse_of_unknown (applied (createTable db)) hv hn
  have ht : transaction exec migrations db = .error (.runtime message) := by
    unfold transaction
    dsimp only
    rw [hr]
  refine ⟨message, ?_⟩
  rw [bootstrap, validateMigrations_eq_ok_iff.mpr ho, ht]

theorem transaction_of_fails (ho : Ordered migrations) (hk : Knows migrations db)
    (h : execAll exec (statements (pending (applied db) migrations)) db.schema = none) :
    ∃ sql ∈ statements (pending (applied db) migrations),
      transaction exec migrations db = .error (.database sql) := by
  obtain ⟨sql, hmem, hrun⟩ := runAll_pending_error _ (ho.news (applied db)) h
  exact ⟨sql, hmem, (transaction_of_knows hk).trans hrun⟩

theorem bootstrap_of_fails (ho : Ordered migrations) (hk : Knows migrations db)
    (h : execAll exec (statements (pending (applied db) migrations)) db.schema = none) :
    ∃ sql ∈ statements (pending (applied db) migrations),
      bootstrap exec migrations db = (db, .error (.database sql)) := by
  obtain ⟨sql, hmem, ht⟩ := transaction_of_fails ho hk h
  refine ⟨sql, hmem, ?_⟩
  rw [bootstrap, validateMigrations_eq_ok_iff.mpr ho, ht]

theorem transaction_of_runs (ho : Ordered migrations) (hk : Knows migrations db)
    (h : execAll exec (statements (pending (applied db) migrations)) db.schema = some schema) :
    transaction exec migrations db =
      .ok ⟨schema, some (applied db ++ (pending (applied db) migrations).map Migration.version)⟩ :=
  (transaction_of_knows hk).trans (runAll_pending _ (ho.news (applied db)) h)

theorem bootstrap_of_runs (ho : Ordered migrations) (hk : Knows migrations db)
    (h : execAll exec (statements (pending (applied db) migrations)) db.schema = some schema) :
    bootstrap exec migrations db =
      (⟨schema, some (applied db ++ (pending (applied db) migrations).map Migration.version)⟩, .ok ()) := by
  rw [bootstrap, validateMigrations_eq_ok_iff.mpr ho, transaction_of_runs ho hk h]

end Bootstrap
end Migrations
end TicketFlow
