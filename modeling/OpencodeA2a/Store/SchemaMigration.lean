import Mathlib.Data.Finset.Lattice.Lemmas
import Mathlib.Tactic.IntervalCases
import OpencodeA2a.Library.Script
import OpencodeA2a.Store.Migrations

/-!
# Migrations that may stop anywhere

`migrate_state_store_schema` statement by statement. The tables are those of any
database, with the names of their columns and indexes and with their rows; a migration
is a list of statements, and its last one records its version.

`Database.migrated` says what the migration is for. No statement that a migration runs
changes it, so that it is the same wherever the migration stops, and a database that has
taken all the steps is its own `migrated`.
-/

namespace OpencodeA2a.Store

open OpencodeA2a.Script

deriving instance DecidableEq for Index

/-! ## §1  The declared tables -/

structure Column where
  name : String
  primaryKey : Bool := false
  nullable : Bool := true
deriving DecidableEq

structure TableSchema where
  name : String
  columns : List Column
  indexes : List Index := []
deriving DecidableEq

def TableSchema.columnNames (table : TableSchema) : List String := table.columns.map Column.name

/-- `_SESSION_BINDINGS` -/
def sessionBindingsTable : TableSchema where
  name := "a2a_session_bindings"
  columns :=
    [{ name := "identity", primaryKey := true, nullable := false },
      { name := "context_id", primaryKey := true, nullable := false },
      { name := "session_id", nullable := false }]

/-- `_SESSION_OWNERS` -/
def sessionOwnersTable : TableSchema where
  name := "a2a_session_owners"
  columns :=
    [{ name := "session_id", primaryKey := true, nullable := false },
      { name := "identity", nullable := false }]

/-- `_PENDING_SESSION_CLAIMS` -/
def pendingSessionClaimsTable : TableSchema where
  name := "a2a_pending_session_claims"
  columns :=
    [{ name := "session_id", primaryKey := true, nullable := false },
      { name := "identity", nullable := false },
      { name := "updated_at" },
      { name := "expires_at" }]
  indexes := [StateSchema.pendingClaimIndex]

/-- `_INTERRUPT_REQUESTS` -/
def interruptRequestsTable : TableSchema where
  name := "a2a_interrupt_requests"
  columns :=
    [{ name := "request_id", primaryKey := true, nullable := false },
      { name := "session_id" },
      { name := "interrupt_type" },
      { name := "identity" },
      { name := "credential_id" },
      { name := "task_id" },
      { name := "context_id" },
      { name := "details_json" },
      { name := "expires_at" },
      { name := "tombstone_expires_at" }]
  indexes := StateSchema.interruptRequestIndexes

/-- `_STATE_METADATA`, in the order in which its tables are created. -/
def stateTables : List TableSchema :=
  [interruptRequestsTable, pendingSessionClaimsTable, sessionBindingsTable, sessionOwnersTable]

/-! ## §2  Databases and statements -/

/-- A table with rows of cells; a column that the table does not have is null. -/
@[ext]
structure DbTable (β : Type) where
  columns : Finset String
  indexes : Finset String
  rows : List (String → Option β)
  fits : ∀ row ∈ rows, ∀ c ∉ columns, row c = none

/-- The tables by name, with the table `a2a_schema_version`: a version for each scope. -/
@[ext]
structure Database (β : Type) where
  versions : Option (String → Option ℤ)
  tables : String → Option (DbTable β)

/-- `STATE_STORE_SCHEMA_NAME` -/
def stateStoreSchemaName : String := "state_store"

/-- `CURRENT_STATE_STORE_SCHEMA_VERSION` -/
def currentStateStoreSchemaVersion : ℤ := 5

inductive MigrationFailure where
  | negativeVersion
  | newerSchema
  | missingMigration (version : ℤ)
  | unsupported (table column : String)
  /-- raised by the database -/
  | noSuchTable (name : String)
  | noSuchColumn
  | alreadyExists (name : String)
deriving DecidableEq

/-- The texts of the errors that the migration itself raises. -/
def MigrationFailure.message : MigrationFailure → Option String
  | .negativeVersion => some "current_version must be non-negative"
  | .newerSchema => some ("Database schema scope '" ++ stateStoreSchemaName
      ++ "' is newer than this application supports")
  | .missingMigration version => some ("Missing migration for schema scope '"
      ++ stateStoreSchemaName ++ "' version " ++ toString version)
  | .unsupported table column =>
      some ("Unsupported state-store migration for " ++ table ++ "." ++ column)
  | .noSuchTable _ | .noSuchColumn | .alreadyExists _ => none

inductive Statement where
  | createVersionTable
  | createTable (table : TableSchema)
  | createIndex (table : TableSchema) (index : Index)
  | addMissingNullableColumn (table : TableSchema) (column : String)
  | createMissingIndex (table : TableSchema) (index : Index)
  | dropLegacyPendingClaimRows
  | writeSchemaVersion (version : ℤ)
deriving DecidableEq

namespace DbTable

variable {β : Type}

/-- A new table has its columns and no row; its indexes are created next. -/
def empty (table : TableSchema) : DbTable β where
  columns := table.columnNames.toFinset
  indexes := ∅
  rows := []
  fits := fun _ hrow => absurd hrow List.not_mem_nil

/-- The new column is null in the rows that are there. -/
def addColumn (t : DbTable β) (column : String) : DbTable β where
  columns := insert column t.columns
  indexes := t.indexes
  rows := t.rows
  fits := fun row hrow c hc => t.fits row hrow c fun h => hc (Finset.mem_insert_of_mem h)

def addIndex (t : DbTable β) (index : Index) : DbTable β :=
  { t with indexes := insert index.name t.indexes }

def keep (t : DbTable β) (p : (String → Option β) → Bool) : DbTable β where
  columns := t.columns
  indexes := t.indexes
  rows := t.rows.filter p
  fits := fun row hrow => t.fits row (List.mem_of_mem_filter hrow)

end DbTable

namespace Database

variable {β : Type}

/-- `_read_schema_version` -/
def version (db : Database β) : Option ℤ := db.versions.bind fun v => v stateStoreSchemaName

def put (db : Database β) (name : String) (t : DbTable β) : Database β :=
  { db with tables := Function.update db.tables name (some t) }

theorem put_self (db : Database β) (name : String) (t : DbTable β) :
    (db.put name t).tables name = some t := Function.update_self ..

theorem put_of_ne (db : Database β) {name name' : String} (h : name' ≠ name) (t : DbTable β) :
    (db.put name t).tables name' = db.tables name' := Function.update_of_ne h ..

end Database

namespace Statement

variable {β : Type}

/-- `index.create` -/
def execCreateIndex (db : Database β) (table : TableSchema) (index : Index) :
    Except MigrationFailure (Database β) :=
  match db.tables table.name with
  | none => .error (.noSuchTable table.name)
  | some t =>
      if index.name ∈ t.indexes then .error (.alreadyExists index.name)
      else if ∀ c ∈ index.columns, c ∈ t.columns then .ok (db.put table.name (t.addIndex index))
      else .error .noSuchColumn

def exec : Statement → Database β → Except MigrationFailure (Database β)
  | createVersionTable, db =>
      match db.versions with
      | some _ => .error (.alreadyExists "a2a_schema_version")
      | none => .ok { db with versions := some fun _ => none }
  | createTable table, db =>
      match db.tables table.name with
      | some _ => .error (.alreadyExists table.name)
      | none => .ok (db.put table.name (.empty table))
  | createIndex table index, db => execCreateIndex db table index
  | addMissingNullableColumn table column, db =>
      match db.tables table.name with
      | none => .error (.noSuchTable table.name)
      | some t =>
          if column ∈ t.columns then .ok db
          else match table.columns.find? fun c => c.name = column with
            | none => .error .noSuchColumn
            | some c =>
                if c.primaryKey || !c.nullable then .error (.unsupported table.name column)
                else .ok (db.put table.name (t.addColumn column))
  | createMissingIndex table index, db =>
      match db.tables table.name with
      | none => .error (.noSuchTable table.name)
      | some t => if index.name ∈ t.indexes then .ok db else execCreateIndex db table index
  | dropLegacyPendingClaimRows, db =>
      match db.tables pendingSessionClaimsTable.name with
      | none => .error (.noSuchTable pendingSessionClaimsTable.name)
      | some t =>
          if "expires_at" ∈ t.columns then
            .ok (db.put pendingSessionClaimsTable.name (t.keep fun row => (row "expires_at").isSome))
          else .error .noSuchColumn
  | writeSchemaVersion version, db =>
      match db.versions with
      | none => .error (.noSuchTable "a2a_schema_version")
      | some v =>
          .ok { db with versions := some (Function.update v stateStoreSchemaName (some version)) }

end Statement

/-! ## §3  The migration -/

/-- The indexes of the pending claims and of the interrupt requests, sorted by name. -/
def lightweightStateIndexes : List (TableSchema × Index) :=
  StateSchema.interruptRequestIndexes.map (Prod.mk interruptRequestsTable)
    ++ [(pendingSessionClaimsTable, StateSchema.pendingClaimIndex)]

/-- The `migrations` of `migrate_state_store_schema` -/
def stateMigrations : List (ℤ × List Statement) :=
  [(1, [.addMissingNullableColumn interruptRequestsTable "details_json"]),
    (2, [.addMissingNullableColumn pendingSessionClaimsTable "expires_at"]),
    (3, lightweightStateIndexes.map fun i => .createMissingIndex i.1 i.2),
    (4, [.addMissingNullableColumn interruptRequestsTable "credential_id"]),
    (5, [.dropLegacyPendingClaimRows])]

/-- What the loop over the versions runs, and the error that it ends with. -/
structure MigrationPlan where
  steps : List (ℤ × List Statement)
  refusal : Option MigrationFailure

/-- `range(start, start + n)` -/
def versionsFrom (start : ℤ) : ℕ → List ℤ
  | 0 => []
  | n + 1 => start :: versionsFrom (start + 1) n

/-- The loop of `_apply_schema_migrations`; each version is written after its migration. -/
def migrationLoop (migrations : List (ℤ × List Statement)) : List ℤ → MigrationPlan
  | [] => ⟨[], none⟩
  | next :: rest =>
      match migrations.lookup next with
      | none => ⟨[], some (.missingMigration next)⟩
      | some migration =>
          let plan := migrationLoop migrations rest
          { plan with steps := (next, migration ++ [.writeSchemaVersion next]) :: plan.steps }

/-- `_apply_schema_migrations` -/
def applySchemaMigrations (stored : Option ℤ) (current : ℤ)
    (migrations : List (ℤ × List Statement)) : MigrationPlan :=
  if current < 0 then ⟨[], some .negativeVersion⟩
  else if stored.any fun v => current < v then ⟨[], some .newerSchema⟩
  else
    let starting := stored.getD 0
    migrationLoop migrations (versionsFrom (starting + 1) (current - starting).toNat)

namespace Database

variable {β : Type} (db : Database β)

/-- A missing table is created, then its indexes. -/
def createStatements (table : TableSchema) : List Statement :=
  .createTable table :: table.indexes.map (.createIndex table)

/-- The two calls of `create_all`, which leave the tables that are there. -/
def createAll : List Statement :=
  (if db.versions.isSome then [] else [.createVersionTable])
    ++ (stateTables.filter fun table => (db.tables table.name).isNone).flatMap createStatements

/-- The stored version is read when all tables are there. -/
def plan : MigrationPlan :=
  applySchemaMigrations (perform Statement.exec db.createAll db).1.version
    currentStateStoreSchemaVersion stateMigrations

def script : List Statement := db.createAll ++ statements db.plan.steps

/-- `migrate_state_store_schema`, with the error that it raises. -/
def migrate : Database β × Option MigrationFailure :=
  let done := perform Statement.exec db.script db
  (done.1, done.2.or db.plan.refusal)

/-- The versions that the first `j` statements of the migration record. -/
def completedSteps (j : ℕ) : List ℤ :=
  if j < db.createAll.length then [] else completed db.plan.steps (j - db.createAll.length)

end Database

/-! ## §4  Legacy databases and what becomes of them -/

/-- What a statement leaves in the tables is there. -/
def Statement.Done {β : Type} : Statement → Database β → Prop
  | createVersionTable, _ => True
  | createTable table, db => ∃ t, db.tables table.name = some t
  | createIndex table index, db => ∃ t, db.tables table.name = some t ∧ index.name ∈ t.indexes
  | addMissingNullableColumn table column, db =>
      ∃ t, db.tables table.name = some t ∧ column ∈ t.columns
  | createMissingIndex table index, db =>
      ∃ t, db.tables table.name = some t ∧ index.name ∈ t.indexes
  | dropLegacyPendingClaimRows, db =>
      ∃ t, db.tables pendingSessionClaimsTable.name = some t ∧
        ∀ row ∈ t.rows, (row "expires_at").isSome = true
  | writeSchemaVersion _, _ => True

/-- The columns that no migration adds. -/
def TableSchema.baseColumns (table : TableSchema) : List String :=
  table.columnNames.filter fun c =>
    stateMigrations.all fun step => .addMissingNullableColumn table c ∉ step.2

namespace Database

variable {β : Type} (db : Database β)

/-- Any database that a release up to the current one may have left: its tables have
the base columns and the results of the steps up to the recorded version. Whatever else
is there, later columns and indexes among it, does not matter. -/
structure Legacy : Prop where
  supported : 0 ≤ db.version.getD 0 ∧ db.version.getD 0 ≤ currentStateStoreSchemaVersion
  base : ∀ table ∈ stateTables, ∀ t, db.tables table.name = some t →
    ∀ c ∈ table.baseColumns, c ∈ t.columns
  results : ∀ step ∈ stateMigrations, step.1 ≤ db.version.getD 0 →
    ∀ statement ∈ step.2, statement.Done db

/-- Every declared column and index is there. -/
def IsCurrent : Prop :=
  ∀ table ∈ stateTables, ∃ t, db.tables table.name = some t ∧
    (∀ c ∈ table.columnNames, c ∈ t.columns) ∧ ∀ index ∈ table.indexes, index.name ∈ t.indexes

/-- The declared columns and indexes are added; the rows without an expiry go from the
pending claims unless an earlier migration has removed them. -/
def migratedTable (table : TableSchema) : DbTable β where
  columns := ((db.tables table.name).elim ∅ DbTable.columns) ∪ table.columnNames.toFinset
  indexes := ((db.tables table.name).elim ∅ DbTable.indexes)
    ∪ (table.indexes.map Index.name).toFinset
  rows := ((db.tables table.name).elim [] DbTable.rows).filter fun row =>
    table.name ≠ pendingSessionClaimsTable.name
      || currentStateStoreSchemaVersion ≤ db.version.getD 0 || (row "expires_at").isSome
  fits := by
    intro row hrow c hc
    have hrow := List.mem_of_mem_filter hrow
    have hc : c ∉ (db.tables table.name).elim ∅ DbTable.columns :=
      fun h => hc (Finset.mem_union_left _ h)
    cases ht : db.tables table.name with
    | none =>
        rw [ht] at hrow
        exact absurd hrow List.not_mem_nil
    | some t =>
        rw [ht] at hrow hc
        exact t.fits row hrow c hc

/-- What a migration makes of the database; tables that are not declared stay. -/
def migrated : Database β where
  versions := some (Function.update (db.versions.getD fun _ => none) stateStoreSchemaName
    (some currentStateStoreSchemaVersion))
  tables := fun name =>
    match stateTables.find? fun table => table.name = name with
    | some table => some (db.migratedTable table)
    | none => db.tables name

end Database

theorem find?_stateTables {table : TableSchema} (h : table ∈ stateTables) :
    stateTables.find? (fun other => other.name = table.name) = some table := by
  simp only [stateTables, List.mem_cons, List.not_mem_nil, or_false] at h
  rcases h with rfl | rfl | rfl | rfl <;> rfl

theorem eq_of_name_eq {table other : TableSchema} (h : table ∈ stateTables)
    (h' : other ∈ stateTables) (heq : table.name = other.name) : table = other := by
  have hfind := find?_stateTables h
  rw [heq, find?_stateTables h'] at hfind
  exact (Option.some.inj hfind).symm

/-- Every declared column is a base column or is added by a migration. -/
theorem mem_baseColumns_or_added {table : TableSchema} {c : String} (hc : c ∈ table.columnNames) :
    c ∈ table.baseColumns ∨
      ∃ step ∈ stateMigrations, .addMissingNullableColumn table c ∈ step.2 := by
  by_cases h : ∃ step ∈ stateMigrations, .addMissingNullableColumn table c ∈ step.2
  · exact .inr h
  · refine .inl (List.mem_filter.mpr ⟨hc, ?_⟩)
    rw [List.all_eq_true]
    intro step hstep
    exact decide_eq_true fun hmem => h ⟨step, hstep, hmem⟩

/-- Every declared index is created by a migration. -/
theorem index_migrated {table : TableSchema} (h : table ∈ stateTables) {index : Index}
    (hi : index ∈ table.indexes) :
    ∃ step ∈ stateMigrations, .createMissingIndex table index ∈ step.2 := by
  refine ⟨(3, _), List.mem_cons_of_mem _ (List.mem_cons_of_mem _ (List.mem_cons_self ..)), ?_⟩
  have hpair : (table, index) ∈ lightweightStateIndexes := by
    simp only [stateTables, List.mem_cons, List.not_mem_nil, or_false] at h
    rcases h with rfl | rfl | rfl | rfl
    · exact List.mem_append_left _ (List.mem_map_of_mem hi)
    · exact List.mem_append_right _ (by
        rw [List.mem_singleton.mp hi]
        exact List.mem_singleton.mpr rfl)
    · cases hi
    · cases hi
  exact List.mem_map.mpr ⟨_, hpair, rfl⟩

theorem version_le_current {step : ℤ × List Statement} (h : step ∈ stateMigrations) :
    step.1 ≤ currentStateStoreSchemaVersion := by
  simp only [stateMigrations, List.mem_cons, List.not_mem_nil, or_false] at h
  rcases h with rfl | rfl | rfl | rfl | rfl <;> decide

/-! ## §5  One statement of a migration -/

section Steps

variable {β : Type} {origin s t : Database β}

/-- The table has kept its columns and indexes, and has no new row. -/
structure DbTable.Extends (u w : DbTable β) : Prop where
  columns : u.columns ⊆ w.columns
  indexes : u.indexes ⊆ w.indexes
  rows : ∀ row ∈ w.rows, row ∈ u.rows

theorem DbTable.Extends.refl (u : DbTable β) : u.Extends u :=
  ⟨Finset.Subset.refl _, Finset.Subset.refl _, fun _ hrow => hrow⟩

def Database.Extends (s t : Database β) : Prop :=
  ∀ name u, s.tables name = some u → ∃ w, t.tables name = some w ∧ u.Extends w

theorem Database.Extends.refl (s : Database β) : s.Extends s :=
  fun _ u hu => ⟨u, hu, .refl u⟩

theorem Database.extends_put {name : String} {u w : DbTable β} (hu : s.tables name = some u)
    (h : u.Extends w) : s.Extends (s.put name w) := by
  intro name' u' hu'
  by_cases hname : name' = name
  · subst hname
    rw [hu] at hu'
    obtain rfl := Option.some.inj hu'
    exact ⟨w, s.put_self .., h⟩
  · exact ⟨u', (s.put_of_ne hname w).trans hu', .refl u'⟩

/-- What is done stays done. -/
theorem Statement.Done.mono {a : Statement} (ha : a.Done s) (h : s.Extends t) : a.Done t := by
  cases a with
  | createVersionTable => trivial
  | writeSchemaVersion version => trivial
  | createTable table =>
      obtain ⟨u, hu⟩ := ha
      obtain ⟨w, hw, -⟩ := h _ u hu
      exact ⟨w, hw⟩
  | createIndex table index | createMissingIndex table index =>
      obtain ⟨u, hu, hi⟩ := ha
      obtain ⟨w, hw, hext⟩ := h _ u hu
      exact ⟨w, hw, hext.indexes hi⟩
  | addMissingNullableColumn table column =>
      obtain ⟨u, hu, hc⟩ := ha
      obtain ⟨w, hw, hext⟩ := h _ u hu
      exact ⟨w, hw, hext.columns hc⟩
  | dropLegacyPendingClaimRows =>
      obtain ⟨u, hu, hrows⟩ := ha
      obtain ⟨w, hw, hext⟩ := h _ u hu
      exact ⟨w, hw, fun row hrow => hrows row (hext.rows row hrow)⟩

namespace Database

theorem migratedTable_of_some {table : TableSchema} {u : DbTable β}
    (hu : s.tables table.name = some u) :
    (s.migratedTable table).columns = u.columns ∪ table.columnNames.toFinset ∧
      (s.migratedTable table).indexes = u.indexes ∪ (table.indexes.map Index.name).toFinset ∧
      (s.migratedTable table).rows = u.rows.filter fun row =>
        table.name ≠ pendingSessionClaimsTable.name
          || currentStateStoreSchemaVersion ≤ s.version.getD 0 || (row "expires_at").isSome := by
  simp only [migratedTable, hu, Option.elim, and_self]

theorem migratedTable_congr {table : TableSchema} (hversion : s.version = t.version)
    (h : s.tables table.name = t.tables table.name) :
    s.migratedTable table = t.migratedTable table := by
  apply DbTable.ext
  · simp only [migratedTable, h]
  · simp only [migratedTable, h]
  · simp only [migratedTable, h, hversion]

theorem migrated_eq (hversions : s.migrated.versions = t.migrated.versions)
    (hdeclared : ∀ table ∈ stateTables, s.migratedTable table = t.migratedTable table)
    (hother : ∀ name, (∀ table ∈ stateTables, table.name ≠ name) → s.tables name = t.tables name) :
    s.migrated = t.migrated := by
  refine Database.ext hversions (funext fun name => ?_)
  simp only [migrated]
  cases hfind : stateTables.find? fun table => table.name = name with
  | some table => simp only [hdeclared table (List.mem_of_find?_eq_some hfind)]
  | none =>
      refine hother name fun table htable hname => ?_
      have := List.find?_eq_none.mp hfind table htable
      exact this (decide_eq_true hname)

theorem migrated_put {table : TableSchema} (htable : table ∈ stateTables) {w : DbTable β}
    (h : (s.put table.name w).migratedTable table = s.migratedTable table) :
    (s.put table.name w).migrated = s.migrated := by
  refine migrated_eq rfl ?_ ?_
  · intro other hother
    by_cases hname : other.name = table.name
    · rw [eq_of_name_eq hother htable hname]
      exact h
    · exact migratedTable_congr rfl (s.put_of_ne hname w)
  · intro name hname
    exact s.put_of_ne (fun h => hname table htable h.symm) w

end Database

/-- What a statement of a migration does: its work, and nothing that `migrated` sees. -/
structure Statement.Advances (a : Statement) (s t : Database β) : Prop where
  versions : t.versions = s.versions
  grown : s.Extends t
  done : a.Done t
  migrated : t.migrated = s.migrated

theorem exec_addMissingNullableColumn {table : TableSchema} (htable : table ∈ stateTables)
    (column : Column) (hfind : table.columns.find? (fun c => c.name = column.name) = some column)
    (hkind : (column.primaryKey || !column.nullable) = false) {u : DbTable β}
    (hu : s.tables table.name = some u) :
    ∃ t, (Statement.addMissingNullableColumn table column.name).exec s = .ok t ∧
      (Statement.addMissingNullableColumn table column.name).Advances s t := by
  by_cases hc : column.name ∈ u.columns
  · refine ⟨s, ?_, rfl, .refl s, ⟨u, hu, hc⟩, rfl⟩
    simp only [Statement.exec, hu, if_pos hc]
  · refine ⟨s.put table.name (u.addColumn column.name), ?_, rfl, ?_, ?_, ?_⟩
    · simp only [Statement.exec, hu, if_neg hc, hfind, hkind, Bool.false_eq_true, if_false]
    · exact Database.extends_put hu
        ⟨Finset.subset_insert .., Finset.Subset.refl _, fun _ hrow => hrow⟩
    · exact ⟨_, s.put_self .., Finset.mem_insert_self ..⟩
    · have hdeclared : column.name ∈ table.columnNames.toFinset :=
        List.mem_toFinset.mpr (List.mem_map_of_mem (List.mem_of_find?_eq_some hfind))
      have hput : (s.put table.name (u.addColumn column.name)).tables table.name
          = some (u.addColumn column.name) := s.put_self ..
      obtain ⟨hcolumns, hindexes, hrows⟩ := Database.migratedTable_of_some hu
      obtain ⟨hcolumns', hindexes', hrows'⟩ := Database.migratedTable_of_some hput
      refine Database.migrated_put htable (DbTable.ext ?_ (hindexes'.trans hindexes.symm)
        (hrows'.trans hrows.symm))
      rw [hcolumns', hcolumns]
      exact (Finset.insert_union ..).trans
        (Finset.insert_eq_of_mem (Finset.mem_union_right _ hdeclared))

theorem exec_createMissingIndex {table : TableSchema} (htable : table ∈ stateTables)
    {index : Index} (hindex : index ∈ table.indexes) {u : DbTable β}
    (hu : s.tables table.name = some u) (hcolumns : ∀ c ∈ index.columns, c ∈ u.columns) :
    ∃ t, (Statement.createMissingIndex table index).exec s = .ok t ∧
      (Statement.createMissingIndex table index).Advances s t := by
  by_cases hi : index.name ∈ u.indexes
  · refine ⟨s, ?_, rfl, .refl s, ⟨u, hu, hi⟩, rfl⟩
    simp only [Statement.exec, hu, if_pos hi]
  · refine ⟨s.put table.name (u.addIndex index), ?_, rfl, ?_, ?_, ?_⟩
    · simp only [Statement.exec, Statement.execCreateIndex, hu, if_neg hi, if_pos hcolumns]
    · exact Database.extends_put hu
        ⟨Finset.Subset.refl _, Finset.subset_insert .., fun _ hrow => hrow⟩
    · exact ⟨_, s.put_self .., Finset.mem_insert_self ..⟩
    · have hdeclared : index.name ∈ (table.indexes.map Index.name).toFinset :=
        List.mem_toFinset.mpr (List.mem_map_of_mem hindex)
      have hput : (s.put table.name (u.addIndex index)).tables table.name
          = some (u.addIndex index) := s.put_self ..
      obtain ⟨hcolumns, hindexes, hrows⟩ := Database.migratedTable_of_some hu
      obtain ⟨hcolumns', hindexes', hrows'⟩ := Database.migratedTable_of_some hput
      refine Database.migrated_put htable (DbTable.ext (hcolumns'.trans hcolumns.symm) ?_
        (hrows'.trans hrows.symm))
      rw [hindexes', hindexes]
      exact (Finset.insert_union ..).trans
        (Finset.insert_eq_of_mem (Finset.mem_union_right _ hdeclared))

theorem exec_dropLegacyPendingClaimRows {u : DbTable β}
    (hu : s.tables pendingSessionClaimsTable.name = some u) (hcolumn : "expires_at" ∈ u.columns)
    (hversion : s.version.getD 0 < currentStateStoreSchemaVersion) :
    ∃ t, Statement.dropLegacyPendingClaimRows.exec s = .ok t ∧
      Statement.dropLegacyPendingClaimRows.Advances s t := by
  let w := u.keep fun row => (row "expires_at").isSome
  have hput : (s.put pendingSessionClaimsTable.name w).tables pendingSessionClaimsTable.name
      = some w := s.put_self ..
  refine ⟨s.put pendingSessionClaimsTable.name w, ?_, rfl, ?_, ⟨w, hput, ?_⟩, ?_⟩
  · simp only [Statement.exec, hu, if_pos hcolumn]
    rfl
  · exact Database.extends_put hu
      ⟨Finset.Subset.refl _, Finset.Subset.refl _, fun row hrow => List.mem_of_mem_filter hrow⟩
  · intro row hrow
    exact (List.mem_filter.mp hrow).2
  · obtain ⟨hcolumns, hindexes, hrows⟩ := Database.migratedTable_of_some hu
    obtain ⟨hcolumns', hindexes', hrows'⟩ := Database.migratedTable_of_some hput
    refine Database.migrated_put (by simp [stateTables]) (DbTable.ext (hcolumns'.trans hcolumns.symm)
      (hindexes'.trans hindexes.symm) ?_)
    -- the rows are filtered once more by the same condition
    have hbelow : decide (currentStateStoreSchemaVersion ≤ s.version.getD 0) = false :=
      decide_eq_false (not_le.mpr hversion)
    have hversion' : (s.put pendingSessionClaimsTable.name w).version = s.version := rfl
    rw [hrows', hrows, hversion']
    simp only [hbelow, ne_eq, not_true_eq_false, decide_false, Bool.false_or, w, DbTable.keep,
      List.filter_filter, Bool.and_self]

end Steps

/-! ## §6  The steps, one after the other -/

namespace Database

variable {β : Type} {origin s t : Database β}

/-- All tables are there. -/
structure Created (s : Database β) : Prop where
  versions : s.versions.isSome = true
  tables : ∀ table ∈ stateTables, ∃ u, s.tables table.name = some u

/-- On the way from `origin` the migration has recorded the version `stored`. -/
structure At (origin : Database β) (stored : Option ℤ) (s : Database β) : Prop where
  version : s.version = stored
  created : s.Created
  legacy : s.Legacy
  same : s.migrated = origin.migrated

theorem Legacy.mono (h : s.Legacy) (hversion : t.version = s.version) (hgrown : s.Extends t)
    (hcreated : s.Created) : t.Legacy where
  supported := by
    rw [hversion]
    exact h.supported
  base := by
    intro table htable w hw c hc
    obtain ⟨u, hu⟩ := hcreated.tables table htable
    obtain ⟨w', hw', hext⟩ := hgrown _ u hu
    rw [hw] at hw'
    obtain rfl := Option.some.inj hw'
    exact hext.columns (h.base table htable u hu c hc)
  results := by
    intro step hstep hle statement hstatement
    rw [hversion] at hle
    exact (h.results step hstep hle statement hstatement).mono hgrown

theorem At.advance {stored : Option ℤ} {a : Statement} (h : origin.At stored s)
    (ha : a.Advances s t) : origin.At stored t where
  version := by
    rw [← h.version]
    simp only [Database.version, ha.versions]
  created := by
    refine ⟨by rw [ha.versions]; exact h.created.versions, fun table htable => ?_⟩
    obtain ⟨u, hu⟩ := h.created.tables table htable
    obtain ⟨w, hw, -⟩ := ha.grown _ u hu
    exact ⟨w, hw⟩
  legacy := h.legacy.mono (by simp only [Database.version, ha.versions]) ha.grown h.created
  same := ha.migrated.trans h.same

/-- The columns of the indexes are base columns, or the column of the second step. -/
theorem index_columns {table : TableSchema} {index : Index}
    (h : (table, index) ∈ lightweightStateIndexes) :
    table ∈ stateTables ∧ index ∈ table.indexes ∧ ∀ c ∈ index.columns, c ∈ table.baseColumns ∨
      .addMissingNullableColumn table c ∈
        [Statement.addMissingNullableColumn pendingSessionClaimsTable "expires_at"] := by
  simp only [lightweightStateIndexes, StateSchema.interruptRequestIndexes, List.map_cons,
    List.map_nil, List.cons_append, List.nil_append, List.mem_cons, Prod.mk.injEq,
    List.not_mem_nil, or_false] at h
  rcases h with ⟨rfl, rfl⟩ | ⟨rfl, rfl⟩ | ⟨rfl, rfl⟩ | ⟨rfl, rfl⟩ <;> decide

/-- Each statement of the next step does its work. -/
theorem At.exec_next {stored : Option ℤ} (h : origin.At stored s) {step : ℤ × List Statement}
    (hstep : step ∈ stateMigrations) (hnext : step.1 = stored.getD 0 + 1) {a : Statement}
    (ha : a ∈ step.2) : ∃ t, a.exec s = .ok t ∧ a.Advances s t := by
  have hversion : s.version.getD 0 = step.1 - 1 := by
    rw [h.version]
    omega
  obtain ⟨requests, hrequests⟩ := h.created.tables interruptRequestsTable (by simp [stateTables])
  obtain ⟨claims, hclaims⟩ := h.created.tables pendingSessionClaimsTable (by simp [stateTables])
  have hsecond : 2 < step.1 → "expires_at" ∈ claims.columns := by
    intro hlt
    obtain ⟨u, hu, hc⟩ := h.legacy.results (2, _) (List.mem_cons_of_mem _ (List.mem_cons_self ..))
      (by rw [hversion]; show (2 : ℤ) ≤ step.1 - 1; omega) _ (List.mem_cons_self ..)
    rw [hclaims] at hu
    obtain rfl := Option.some.inj hu
    exact hc
  simp only [stateMigrations, List.mem_cons, List.not_mem_nil, or_false] at hstep
  rcases hstep with rfl | rfl | rfl | rfl | rfl
  · rw [List.mem_singleton.mp ha]
    exact exec_addMissingNullableColumn (by simp [stateTables]) { name := "details_json" } rfl rfl
      hrequests
  · rw [List.mem_singleton.mp ha]
    exact exec_addMissingNullableColumn (by simp [stateTables]) { name := "expires_at" } rfl rfl hclaims
  · obtain ⟨⟨table, index⟩, hmem, rfl⟩ := List.mem_map.mp ha
    obtain ⟨htable, hindex, hcolumns⟩ := index_columns hmem
    obtain ⟨u, hu⟩ := h.created.tables table htable
    refine exec_createMissingIndex htable hindex hu fun c hc => ?_
    rcases hcolumns c hc with hbase | hadded
    · exact h.legacy.base table htable u hu c hbase
    · obtain ⟨rfl, rfl⟩ := Statement.addMissingNullableColumn.inj (List.mem_singleton.mp hadded)
      rw [hclaims] at hu
      obtain rfl := Option.some.inj hu
      exact hsecond (by decide)
  · rw [List.mem_singleton.mp ha]
    exact exec_addMissingNullableColumn (by simp [stateTables]) { name := "credential_id" } rfl rfl
      hrequests
  · rw [List.mem_singleton.mp ha]
    exact exec_dropLegacyPendingClaimRows hclaims (hsecond (by decide))
      (by rw [hversion]; decide)

theorem Done_of_tables {a : Statement} (ha : a.Done s) (h : t.tables = s.tables) : a.Done t :=
  ha.mono fun _ u hu => ⟨u, h ▸ hu, .refl u⟩

theorem mem_of_last {step : ℤ × List Statement} (h : step ∈ stateMigrations)
    (hlast : currentStateStoreSchemaVersion ≤ step.1) : .dropLegacyPendingClaimRows ∈ step.2 := by
  simp only [stateMigrations, List.mem_cons, List.not_mem_nil, or_false] at h
  rcases h with rfl | rfl | rfl | rfl | rfl
  · exact absurd hlast (by decide)
  · exact absurd hlast (by decide)
  · exact absurd hlast (by decide)
  · exact absurd hlast (by decide)
  · exact List.mem_singleton.mpr rfl

/-- When a step is done, its version is written. -/
theorem At.record {stored : Option ℤ} (h : origin.At stored s) {step : ℤ × List Statement}
    (hstep : step ∈ stateMigrations) (hnext : step.1 = stored.getD 0 + 1)
    (hdone : ∀ a ∈ step.2, a.Done s) :
    ∃ t, (Statement.writeSchemaVersion step.1).exec s = .ok t ∧ origin.At (some step.1) t := by
  obtain ⟨v, hv⟩ := Option.isSome_iff_exists.mp h.created.versions
  let t : Database β :=
    { s with versions := some (Function.update v stateStoreSchemaName (some step.1)) }
  have hversion : t.version = some step.1 := by simp [Database.version, t]
  have hbefore : s.version.getD 0 = stored.getD 0 := by rw [h.version]
  refine ⟨t, by simp only [Statement.exec, hv, t], hversion, ⟨rfl, h.created.tables⟩, ?_, ?_⟩
  · constructor
    · have hlow := h.legacy.supported.1
      have hhigh := version_le_current hstep
      rw [hversion]
      show 0 ≤ step.1 ∧ step.1 ≤ currentStateStoreSchemaVersion
      omega
    · exact h.legacy.base
    · intro other hother hle a ha
      rw [hversion] at hle
      have hle : other.1 ≤ step.1 := hle
      rcases hle.lt_or_eq with hlt | heq
      · exact Done_of_tables (h.legacy.results other hother (by omega) a ha) rfl
      · have hsame : other = step := by
          simp only [stateMigrations, List.mem_cons, List.not_mem_nil, or_false] at hother hstep
          rcases hother with rfl | rfl | rfl | rfl | rfl <;>
            rcases hstep with rfl | rfl | rfl | rfl | rfl <;> first | rfl | cases heq
        rw [hsame] at ha
        exact Done_of_tables (hdone a ha) rfl
  · rw [← h.same]
    refine migrated_eq ?_ ?_ fun _ _ => rfl
    · simp only [migrated, hv, Option.getD_some, t, Function.update_idem]
    · intro table htable
      apply DbTable.ext
      · rfl
      · rfl
      · -- with the current version recorded the rows are no longer filtered: they have been
        refine List.filter_congr fun row hrow => ?_
        by_cases hname : table.name = pendingSessionClaimsTable.name
        · by_cases hlast : currentStateStoreSchemaVersion ≤ step.1
          · have hmem : .dropLegacyPendingClaimRows ∈ step.2 := mem_of_last hstep hlast
            obtain ⟨u, hu, hrows⟩ := hdone _ hmem
            have hrow : row ∈ (s.tables table.name).elim [] DbTable.rows := hrow
            rw [hname, hu] at hrow
            simp only [hrows row hrow, Bool.or_true]
          · have hlast' : ¬ currentStateStoreSchemaVersion ≤ s.version.getD 0 := by omega
            simp only [hversion, Option.getD_some, hlast, hlast']
        · simp only [ne_eq, hname, not_false_eq_true, decide_true, Bool.true_or]

/-- A step, with the write of its version, goes from one recorded version to the next. -/
theorem step_brings {stored : Option ℤ} {step : ℤ × List Statement}
    (hstep : step ∈ stateMigrations) (hnext : step.1 = stored.getD 0 + 1) :
    Brings Statement.exec origin.At stored step.1 (step.2 ++ [.writeSchemaVersion step.1]) := by
  have hexec : ∀ a ∈ step.2, ∀ s : Database β, origin.At stored s →
      ∃ t, a.exec s = .ok t ∧ origin.At stored t ∧ a.Done t ∧
        ∀ b : Statement, b.Done s → b.Done t := by
    intro a ha s hs
    obtain ⟨t, ht, hadv⟩ := hs.exec_next hstep hnext ha
    exact ⟨t, ht, hs.advance hadv, hadv.done, fun b hb => hb.mono hadv.grown⟩
  constructor
  · intro s hs j hj
    rw [List.length_append, List.length_singleton] at hj
    rw [List.take_append_of_le_length (by omega)]
    obtain ⟨t, ht, hat, -⟩ :=
      perform_each (fun a ha => hexec a (List.mem_of_mem_take ha)) hs
    exact ⟨t, ht, hat⟩
  · intro s hs
    obtain ⟨t, ht, hat, hdone, -⟩ := perform_each hexec hs
    obtain ⟨u, hu, hau⟩ := hat.record hstep hnext hdone
    exact ⟨u, by rw [perform_append ht, perform_cons hu]; rfl, hau⟩

theorem lookup_stateMigrations {next : ℤ} (h : 1 ≤ next ∧ next ≤ currentStateStoreSchemaVersion) :
    ∃ migration, stateMigrations.lookup next = some migration ∧
      (next, migration) ∈ stateMigrations := by
  obtain ⟨hlow, hhigh⟩ := h
  have hhigh : next ≤ 5 := hhigh
  interval_cases next
  · exact ⟨_, rfl, by simp [stateMigrations]⟩
  · exact ⟨_, rfl, by simp [stateMigrations]⟩
  · exact ⟨_, rfl, by simp [stateMigrations]⟩
  · exact ⟨_, rfl, by simp [stateMigrations]⟩
  · exact ⟨_, rfl, by simp [stateMigrations]⟩

/-- The loop runs through the versions that are left, each once. -/
theorem migrationLoop_chained (n : ℕ) {stored : Option ℤ} (hlow : 0 ≤ stored.getD 0)
    (hhigh : stored.getD 0 + n = currentStateStoreSchemaVersion) :
    let plan := migrationLoop stateMigrations (versionsFrom (stored.getD 0 + 1) n)
    plan.refusal = none ∧ plan.steps.map Prod.fst = versionsFrom (stored.getD 0 + 1) n ∧
      Chained Statement.exec origin.At stored plan.steps := by
  induction n generalizing stored with
  | zero => exact ⟨rfl, rfl, trivial⟩
  | succ n ih =>
      have hrange : 1 ≤ stored.getD 0 + 1 ∧ stored.getD 0 + 1 ≤ currentStateStoreSchemaVersion := by
        omega
      obtain ⟨migration, hlookup, hmem⟩ := lookup_stateMigrations hrange
      have hlow' : 0 ≤ (some (stored.getD 0 + 1)).getD 0 := by
        rw [Option.getD_some]
        omega
      have hhigh' : (some (stored.getD 0 + 1)).getD 0 + n = currentStateStoreSchemaVersion := by
        rw [Option.getD_some]
        omega
      obtain ⟨hrefusal, hversions, hchained⟩ := ih hlow' hhigh'
      simp only [Option.getD_some] at hrefusal hversions hchained
      simp only [versionsFrom, migrationLoop, hlookup, List.map_cons]
      exact ⟨hrefusal, by rw [hversions], step_brings hmem rfl, hchained⟩

end Database

/-! ## §7  The tables that are missing -/

namespace Database

variable {β : Type} {db s t : Database β}

/-- Some of the missing tables have been created, with some of their indexes. -/
structure Creating (db s : Database β) : Prop where
  versions : (s.versions.getD fun _ => none) = db.versions.getD fun _ => none
  tables : ∀ name, s.tables name = db.tables name ∨
    db.tables name = none ∧ ∃ table ∈ stateTables, table.name = name ∧
      ∃ u, s.tables name = some u ∧ u.columns = table.columnNames.toFinset ∧
        u.indexes ⊆ (table.indexes.map Index.name).toFinset ∧ u.rows = []

theorem version_eq (db : Database β) :
    db.version = (db.versions.getD fun _ => none) stateStoreSchemaName := by
  unfold version
  cases db.versions <;> rfl

theorem Creating.version (h : db.Creating s) : s.version = db.version := by
  rw [version_eq, version_eq, h.versions]

/-- A table of `table` that was created takes the place of none. -/
theorem Creating.put (h : db.Creating s) {table : TableSchema} (htable : table ∈ stateTables)
    (hmissing : db.tables table.name = none) {u : DbTable β}
    (hcolumns : u.columns = table.columnNames.toFinset)
    (hindexes : u.indexes ⊆ (table.indexes.map Index.name).toFinset) (hrows : u.rows = []) :
    db.Creating (s.put table.name u) where
  versions := h.versions
  tables := by
    intro name
    by_cases hname : name = table.name
    · subst hname
      exact .inr ⟨hmissing, table, htable, rfl, u, s.put_self .., hcolumns, hindexes, hrows⟩
    · rw [s.put_of_ne hname]
      exact h.tables name

/-- The databases differ at most in the table. -/
def OnlyAt (name : String) (s t : Database β) : Prop :=
  ∀ other, other ≠ name → t.tables other = s.tables other

theorem create_indexes {table : TableSchema} (htable : table ∈ stateTables)
    (hmissing : db.tables table.name = none) {indexes : List Index} (hsub : indexes ⊆ table.indexes)
    (hnames : (indexes.map Index.name).Nodup)
    (hcolumns : ∀ index ∈ indexes, ∀ c ∈ index.columns, c ∈ table.columnNames)
    (hs : db.Creating s) {u : DbTable β} (hu : s.tables table.name = some u)
    (hucolumns : u.columns = table.columnNames.toFinset)
    (huindexes : u.indexes ⊆ (table.indexes.map Index.name).toFinset) (hurows : u.rows = [])
    (hfresh : ∀ index ∈ indexes, index.name ∉ u.indexes) (j : ℕ) :
    ∃ t, perform Statement.exec ((indexes.map (.createIndex table)).take j) s = (t, none) ∧
      db.Creating t ∧ t.versions = s.versions ∧ OnlyAt table.name s t ∧
      ∃ w, t.tables table.name = some w := by
  induction indexes generalizing s u j with
  | nil =>
      refine ⟨s, ?_, hs, rfl, fun _ _ => rfl, u, hu⟩
      rw [List.map_nil, List.take_nil]
      rfl
  | cons index indexes ih =>
      cases j with
      | zero => exact ⟨s, rfl, hs, rfl, fun _ _ => rfl, u, hu⟩
      | succ j =>
          rw [List.map_cons, List.nodup_cons] at hnames
          have hindex : index ∈ table.indexes := hsub (List.mem_cons_self ..)
          have hexec : (Statement.createIndex table index).exec s
              = .ok (s.put table.name (u.addIndex index)) := by
            have hpresent : ∀ c ∈ index.columns, c ∈ u.columns := fun c hc => by
              rw [hucolumns]
              exact List.mem_toFinset.mpr (hcolumns index (List.mem_cons_self ..) c hc)
            simp only [Statement.exec, Statement.execCreateIndex, hu,
              if_neg (hfresh index (List.mem_cons_self ..)), if_pos hpresent]
          have hinsert : (u.addIndex index).indexes ⊆ (table.indexes.map Index.name).toFinset :=
            Finset.insert_subset (List.mem_toFinset.mpr (List.mem_map_of_mem hindex)) huindexes
          have hfresh' : ∀ other ∈ indexes, other.name ∉ (u.addIndex index).indexes := by
            intro other hother hmem
            rcases Finset.mem_insert.mp hmem with heq | hmem
            · exact hnames.1 (heq ▸ List.mem_map_of_mem hother)
            · exact hfresh other (List.mem_cons_of_mem _ hother) hmem
          have hput : db.Creating (s.put table.name (u.addIndex index)) :=
            hs.put htable hmissing hucolumns hinsert hurows
          obtain ⟨t, ht, hct, hversions, honly, hw⟩ := ih
            (fun i hi => hsub (List.mem_cons_of_mem _ hi)) hnames.2
            (fun i hi => hcolumns i (List.mem_cons_of_mem _ hi)) hput (s.put_self ..) hucolumns
            hinsert hurows hfresh' j
          refine ⟨t, (perform_cons hexec _).trans ht, hct, hversions, ?_, hw⟩
          intro other hother
          exact (honly other hother).trans (s.put_of_ne hother _)

/-- The declared indexes of a table have different names and declared columns. -/
theorem declared_indexes {table : TableSchema} (h : table ∈ stateTables) :
    (table.indexes.map Index.name).Nodup ∧
      ∀ index ∈ table.indexes, ∀ c ∈ index.columns, c ∈ table.columnNames := by
  simp only [stateTables, List.mem_cons, List.not_mem_nil, or_false] at h
  rcases h with rfl | rfl | rfl | rfl <;> decide

theorem create_table {table : TableSchema} (htable : table ∈ stateTables)
    (hmissing : db.tables table.name = none) (hs : db.Creating s)
    (hnone : s.tables table.name = none) (j : ℕ) :
    ∃ t, perform Statement.exec ((createStatements table).take j) s = (t, none) ∧
      db.Creating t ∧ t.versions = s.versions ∧ OnlyAt table.name s t ∧
      (0 < j → ∃ w, t.tables table.name = some w) := by
  cases j with
  | zero => exact ⟨s, rfl, hs, rfl, fun _ _ => rfl, fun h => absurd h (lt_irrefl 0)⟩
  | succ j =>
      have hexec : (Statement.createTable table).exec s = .ok (s.put table.name (.empty table)) := by
        simp only [Statement.exec, hnone]
      obtain ⟨hnames, hcolumns⟩ := declared_indexes htable
      have hput : db.Creating (s.put table.name (.empty table)) :=
        hs.put htable hmissing rfl (Finset.empty_subset _) rfl
      obtain ⟨t, ht, hct, hversions, honly, hw⟩ := create_indexes htable hmissing
        (List.Subset.refl table.indexes) hnames hcolumns hput (s.put_self ..) rfl
        (Finset.empty_subset _) rfl (fun index _ => Finset.notMem_empty index.name) j
      refine ⟨t, (perform_cons hexec _).trans ht, hct, hversions, ?_, fun _ => hw⟩
      intro other hother
      exact (honly other hother).trans (s.put_of_ne hother _)

theorem create_tables {missing : List TableSchema} (hsub : missing ⊆ stateTables)
    (hnodup : missing.Nodup) (hmissing : ∀ table ∈ missing, db.tables table.name = none)
    (hs : db.Creating s) (hnone : ∀ table ∈ missing, s.tables table.name = none) (j : ℕ) :
    ∃ t, perform Statement.exec ((missing.flatMap createStatements).take j) s = (t, none) ∧
      db.Creating t ∧ t.versions = s.versions ∧
      (∀ name, (∀ table ∈ missing, table.name ≠ name) → t.tables name = s.tables name) ∧
      ((missing.flatMap createStatements).length ≤ j →
        ∀ table ∈ missing, ∃ w, t.tables table.name = some w) := by
  induction missing generalizing s j with
  | nil =>
      refine ⟨s, ?_, hs, rfl, fun _ _ => rfl, fun _ table h => absurd h List.not_mem_nil⟩
      rw [List.flatMap_nil, List.take_nil]
      rfl
  | cons table missing ih =>
      rw [List.nodup_cons] at hnodup
      have htable : table ∈ stateTables := hsub (List.mem_cons_self ..)
      have hother : ∀ other ∈ missing, other.name ≠ table.name := fun other hmem heq =>
        hnodup.1 (eq_of_name_eq (hsub (List.mem_cons_of_mem _ hmem)) htable heq ▸ hmem)
      obtain ⟨t, ht, hct, hversions, honly, hw⟩ := create_table htable
        (hmissing table (List.mem_cons_self ..)) hs (hnone table (List.mem_cons_self ..)) j
      have hnone' : ∀ other ∈ missing, t.tables other.name = none := fun other hmem =>
        (honly _ (hother other hmem)).trans (hnone other (List.mem_cons_of_mem _ hmem))
      obtain ⟨r, hr, hcr, hversions', hsame, hall⟩ := ih
        (fun other hmem => hsub (List.mem_cons_of_mem _ hmem)) hnodup.2
        (fun other hmem => hmissing other (List.mem_cons_of_mem _ hmem)) hct hnone'
        (j - (createStatements table).length)
      refine ⟨r, ?_, hcr, hversions'.trans hversions, ?_, ?_⟩
      · rw [List.flatMap_cons, List.take_append, perform_append ht, hr]
      · intro name hname
        rw [hsame name fun other hmem => hname other (List.mem_cons_of_mem _ hmem)]
        exact honly name (hname table (List.mem_cons_self ..)).symm
      · intro hj other hmem
        have hlength : (createStatements table).length = table.indexes.length + 1 := by
          simp [createStatements]
        rw [List.flatMap_cons, List.length_append] at hj
        rcases List.mem_cons.mp hmem with rfl | hmem
        · rw [hsame _ hother]
          exact hw (by omega)
        · exact hall (by omega) other hmem

theorem Creating.refl (db : Database β) : db.Creating db := ⟨rfl, fun _ => .inl rfl⟩

theorem createAll_stops (db : Database β) (j : ℕ) :
    ∃ t, perform Statement.exec (db.createAll.take j) db = (t, none) ∧ db.Creating t ∧
      (db.createAll.length ≤ j → t.Created) := by
  let missing := stateTables.filter fun table => (db.tables table.name).isNone
  have hsub : missing ⊆ stateTables := fun table h => List.mem_of_mem_filter h
  have hnodup : missing.Nodup := List.Nodup.filter _ (by decide)
  have hmissing : ∀ table ∈ missing, db.tables table.name = none := fun table h =>
    Option.isNone_iff_eq_none.mp (List.mem_filter.mp h).2
  -- all tables are there when the missing ones have been created
  have hcreated : ∀ t : Database β, t.versions.isSome = true →
      (∀ name, (∀ table ∈ missing, table.name ≠ name) → t.tables name = db.tables name) →
      (∀ table ∈ missing, ∃ w, t.tables table.name = some w) → t.Created := by
    intro t hversions hsame hall
    refine ⟨hversions, fun table htable => ?_⟩
    by_cases hin : ∃ other ∈ missing, other.name = table.name
    · obtain ⟨other, hother, heq⟩ := hin
      rw [← heq]
      exact hall other hother
    · have hpresent : ¬ (db.tables table.name).isNone = true := fun h =>
        hin ⟨table, List.mem_filter.mpr ⟨htable, h⟩, rfl⟩
      obtain ⟨u, hu⟩ := Option.ne_none_iff_exists'.mp (by simpa using hpresent)
      exact ⟨u, (hsame _ fun other hother heq => hin ⟨other, hother, heq⟩).trans hu⟩
  cases hversions : db.versions with
  | some v =>
      have hscript : db.createAll = missing.flatMap createStatements := by
        simp only [createAll, hversions, Option.isSome_some, if_true, List.nil_append, missing]
      obtain ⟨t, ht, hct, hv, hsame, hall⟩ := create_tables hsub hnodup hmissing (.refl db) hmissing j
      rw [hscript]
      exact ⟨t, ht, hct, fun hj => hcreated t (by rw [hv, hversions]; rfl) hsame (hall hj)⟩
  | none =>
      have hscript : db.createAll = .createVersionTable :: missing.flatMap createStatements := by
        simp only [createAll, hversions, Option.isSome_none, Bool.false_eq_true, if_false,
          List.cons_append, List.nil_append, missing]
      rw [hscript]
      cases j with
      | zero => exact ⟨db, rfl, .refl db, fun h => absurd h (by simp)⟩
      | succ j =>
          let s : Database β := { db with versions := some fun _ => none }
          have hexec : Statement.createVersionTable.exec db = .ok s := by
            simp only [Statement.exec, hversions, s]
          have hs : db.Creating s := ⟨by rw [hversions]; rfl, fun _ => .inl rfl⟩
          obtain ⟨t, ht, hct, hv, hsame, hall⟩ := create_tables hsub hnodup hmissing hs hmissing j
          refine ⟨t, (perform_cons hexec _).trans ht, hct, fun hj => ?_⟩
          exact hcreated t (by rw [hv]; rfl) hsame (hall (Nat.le_of_succ_le_succ hj))

/-- A step's results are in tables that were there, and these are left as they are. -/
theorem Legacy.of_creating (h : db.Legacy) (hs : db.Creating s) : s.Legacy where
  supported := by
    rw [hs.version]
    exact h.supported
  base := by
    intro table htable t ht c hc
    rcases hs.tables table.name with hsame | ⟨-, other, hother, hname, u, hu, hcolumns, -, -⟩
    · exact h.base table htable t (hsame ▸ ht) c hc
    · rw [ht] at hu
      obtain rfl := Option.some.inj hu
      obtain rfl := eq_of_name_eq hother htable hname
      rw [hcolumns]
      exact List.mem_toFinset.mpr (List.mem_of_mem_filter hc)
  results := by
    intro step hstep hle a ha
    rw [hs.version] at hle
    refine (h.results step hstep hle a ha).mono fun name u hu => ⟨u, ?_, .refl u⟩
    rcases hs.tables name with hsame | ⟨hmissing, -⟩
    · exact hsame.trans hu
    · rw [hmissing] at hu
      cases hu

theorem Creating.migrated (hs : db.Creating s) : s.migrated = db.migrated := by
  refine migrated_eq ?_ ?_ ?_
  · simp only [Database.migrated, hs.versions]
  · intro table htable
    rcases hs.tables table.name with hsame | ⟨hmissing, other, hother, hname, u, hu, hc, hi, hr⟩
    · exact migratedTable_congr hs.version hsame
    · obtain rfl := eq_of_name_eq hother htable hname
      obtain ⟨hcolumns, hindexes, hrows⟩ := migratedTable_of_some hu
      apply DbTable.ext
      · rw [hcolumns, hc, Finset.union_self]
        simp only [migratedTable, hmissing, Option.elim, Finset.empty_union]
      · rw [hindexes, Finset.union_eq_right.mpr hi]
        simp only [migratedTable, hmissing, Option.elim, Finset.empty_union]
      · rw [hrows, hr]
        simp only [migratedTable, hmissing, Option.elim, List.filter_nil]
  · intro name hname
    rcases hs.tables name with hsame | ⟨-, other, hother, hother', -⟩
    · exact hsame
    · exact absurd hother' (hname other hother)

end Database

/-! ## §8  The migration as a whole -/

namespace Database

variable {β : Type} {db s : Database β}

/-- When all steps have been taken there is nothing left to do. -/
theorem Legacy.migrated_eq (h : s.Legacy) (hcreated : s.Created)
    (hversion : s.version = some currentStateStoreSchemaVersion) : s.migrated = s := by
  have hrecorded : s.version.getD 0 = currentStateStoreSchemaVersion := by
    rw [hversion, Option.getD_some]
  have hdone : ∀ step ∈ stateMigrations, ∀ a ∈ step.2, a.Done s := fun step hstep =>
    h.results step hstep (by rw [hrecorded]; exact version_le_current hstep)
  have htable : ∀ table ∈ stateTables, ∀ u, s.tables table.name = some u →
      s.migratedTable table = u := by
    intro table htable u hu
    obtain ⟨hcolumns, hindexes, hrows⟩ := migratedTable_of_some hu
    apply DbTable.ext
    · rw [hcolumns]
      refine Finset.union_eq_left.mpr fun c hc => ?_
      rcases mem_baseColumns_or_added (List.mem_toFinset.mp hc) with hbase | ⟨step, hstep, hadded⟩
      · exact h.base table htable u hu c hbase
      · obtain ⟨w, hw, hc⟩ := hdone step hstep _ hadded
        rw [hu] at hw
        obtain rfl := Option.some.inj hw
        exact hc
    · rw [hindexes]
      refine Finset.union_eq_left.mpr fun name hname => ?_
      obtain ⟨index, hindex, rfl⟩ := List.mem_map.mp (List.mem_toFinset.mp hname)
      obtain ⟨step, hstep, hadded⟩ := index_migrated htable hindex
      obtain ⟨w, hw, hi⟩ := hdone step hstep _ hadded
      rw [hu] at hw
      obtain rfl := Option.some.inj hw
      exact hi
    · rw [hrows, hrecorded]
      exact List.filter_eq_self.mpr fun row _ => by
        simp only [le_refl, decide_true, Bool.or_true, Bool.true_or]
  obtain ⟨v, hv⟩ := Option.isSome_iff_exists.mp hcreated.versions
  have hv' : v stateStoreSchemaName = some currentStateStoreSchemaVersion := by
    rw [version, hv] at hversion
    exact hversion
  refine Database.ext ?_ (funext fun name => ?_)
  · simp only [migrated, hv, Option.getD_some, ← hv', Function.update_eq_self]
  · simp only [migrated]
    cases hfind : stateTables.find? fun table => table.name = name with
    | none => rfl
    | some table =>
        have hmem := List.mem_of_find?_eq_some hfind
        have hname : table.name = name := by simpa using List.find?_some hfind
        subst hname
        obtain ⟨u, hu⟩ := hcreated.tables table hmem
        simp only [htable table hmem u hu, hu]

theorem plan_of_version (db : Database β) : db.plan =
    applySchemaMigrations db.version currentStateStoreSchemaVersion stateMigrations := by
  obtain ⟨t, ht, hct, -⟩ := createAll_stops db db.createAll.length
  rw [List.take_length] at ht
  rw [plan, ht, hct.version]

theorem Legacy.plan_eq (h : db.Legacy) : db.plan = migrationLoop stateMigrations
    (versionsFrom (db.version.getD 0 + 1)
      (currentStateStoreSchemaVersion - db.version.getD 0).toNat) := by
  have hsupported : db.version.any (fun v => currentStateStoreSchemaVersion < v) = false := by
    have hhigh := h.supported.2
    cases hversion : db.version with
    | none => rfl
    | some v =>
        rw [hversion] at hhigh
        exact decide_eq_false (not_lt.mpr hhigh)
  rw [plan_of_version, applySchemaMigrations, if_neg (by decide), hsupported]
  rfl

/-- The steps that a migration takes, and what every one of them finds. -/
theorem Legacy.plan_chained (h : db.Legacy) :
    db.plan.refusal = none ∧
      db.plan.steps.map Prod.fst = versionsFrom (db.version.getD 0 + 1)
        (currentStateStoreSchemaVersion - db.version.getD 0).toNat ∧
      Chained Statement.exec db.At db.version db.plan.steps := by
  have hhigh := h.supported.2
  have hsum : db.version.getD 0 + ((currentStateStoreSchemaVersion - db.version.getD 0).toNat : ℤ)
      = currentStateStoreSchemaVersion := by omega
  rw [h.plan_eq]
  exact migrationLoop_chained _ h.supported.1 hsum

/-- Wherever the migration stops, a legacy database is left, from which `migrated` is
the same, with the version of the last step completed. -/
theorem Legacy.script_stops (h : db.Legacy) (j : ℕ) :
    ∃ t, perform Statement.exec (db.script.take j) db = (t, none) ∧ t.Legacy ∧
      t.migrated = db.migrated ∧ t.version = ((db.completedSteps j).getLast?).or db.version ∧
      (db.createAll.length ≤ j → t.Created) := by
  obtain ⟨-, -, hchained⟩ := h.plan_chained
  obtain ⟨s, hs, hcs, hcreated⟩ := createAll_stops db j
  have hversions : s.Created → db.At db.version s := fun hall =>
    ⟨hcs.version, hall, h.of_creating hcs, hcs.migrated⟩
  rw [script, List.take_append, perform_append hs]
  by_cases hj : db.createAll.length ≤ j
  · obtain ⟨t, ht, hat⟩ :=
      perform_blocks hchained (hversions (hcreated hj)) (j - db.createAll.length)
    refine ⟨t, ht, hat.legacy, hat.same, ?_, fun _ => hat.created⟩
    rw [completedSteps, if_neg (not_lt.mpr hj)]
    exact hat.version
  · have hnone : j - db.createAll.length = 0 := by omega
    refine ⟨s, by rw [hnone]; rfl, h.of_creating hcs, hcs.migrated, ?_, fun h => absurd h hj⟩
    rw [completedSteps, if_pos (not_le.mp hj), hcs.version]
    rfl

theorem getLast?_versionsFrom (start : ℤ) (n : ℕ) :
    (versionsFrom start (n + 1)).getLast? = some (start + n) := by
  induction n generalizing start with
  | zero => simp [versionsFrom]
  | succ n ih =>
      rw [versionsFrom, List.getLast?_cons, ih, Option.getD_some]
      congr 1
      push_cast
      omega

/-- The last step brings the current version. -/
theorem Legacy.last_version (h : db.Legacy) :
    ((db.plan.steps.map Prod.fst).getLast?).or db.version = some currentStateStoreSchemaVersion := by
  obtain ⟨-, hversions, -⟩ := h.plan_chained
  have hhigh := h.supported.2
  rw [hversions]
  cases hn : (currentStateStoreSchemaVersion - db.version.getD 0).toNat with
  | zero =>
      have hrecorded : db.version.getD 0 = currentStateStoreSchemaVersion := by omega
      cases hversion : db.version with
      | none =>
          rw [hversion] at hrecorded
          exact absurd hrecorded (by decide)
      | some v =>
          rw [hversion, Option.getD_some] at hrecorded
          rw [hrecorded]
          rfl
  | succ n =>
      have hsum : db.version.getD 0 + 1 + n = currentStateStoreSchemaVersion := by omega
      rw [getLast?_versionsFrom, hsum]
      rfl

/-- A migration of a legacy database succeeds. -/
theorem Legacy.migrate_eq (h : db.Legacy) : db.migrate = (db.migrated, none) := by
  obtain ⟨hrefusal, hversions, -⟩ := h.plan_chained
  obtain ⟨t, ht, hlegacy, hsame, hversion, hcreated⟩ := h.script_stops db.script.length
  have hlength : db.script.length - db.createAll.length = (statements db.plan.steps).length := by
    simp [script]
  have hcreated := hcreated (by simp [script])
  rw [List.take_length] at ht
  have hsteps : db.completedSteps db.script.length = db.plan.steps.map Prod.fst := by
    rw [completedSteps, if_neg (by simp [script]), hlength]
    exact completed_all _ le_rfl
  have hcurrent : t.version = some currentStateStoreSchemaVersion := by
    rw [hversion, hsteps, h.last_version]
  have hself := hlegacy.migrated_eq hcreated hcurrent
  rw [migrate, ht, hrefusal, ← hsame, hself]
  rfl

theorem migrated_isCurrent (db : Database β) : db.migrated.IsCurrent := by
  intro table htable
  refine ⟨db.migratedTable table, ?_, ?_, ?_⟩
  · simp only [migrated, find?_stateTables htable]
  · intro c hc
    exact Finset.mem_union_right _ (List.mem_toFinset.mpr hc)
  · intro index hindex
    exact Finset.mem_union_right _ (List.mem_toFinset.mpr (List.mem_map_of_mem hindex))

theorem migrated_version (db : Database β) :
    db.migrated.version = some currentStateStoreSchemaVersion := by
  simp [version, migrated]

/-- A migration of any legacy database converges, wherever and however often it is
stopped; a newer database is refused before the first step. -/
theorem migrations_converge (db : Database β) :
    (db.Legacy →
      db.migrate = (db.migrated, none) ∧ db.migrated.IsCurrent ∧
      db.migrated.version = some currentStateStoreSchemaVersion ∧
      db.plan.steps.map Prod.fst = versionsFrom (db.version.getD 0 + 1)
        (currentStateStoreSchemaVersion - db.version.getD 0).toNat ∧
      (∀ j, ∃ t, perform Statement.exec (db.script.take j) db = (t, none) ∧
        t.version = ((db.completedSteps j).getLast?).or db.version ∧
        t.Legacy ∧ t.migrate = (db.migrated, none)) ∧
      db.migrated.migrate = (db.migrated, none)) ∧
    ∀ stored, db.version = some stored → currentStateStoreSchemaVersion < stored →
      db.plan.steps = [] ∧ ∃ t, db.migrate = (t, some .newerSchema) ∧ t.version = some stored := by
  constructor
  · intro h
    have hstops : ∀ j, ∃ t, perform Statement.exec (db.script.take j) db = (t, none) ∧
        t.version = ((db.completedSteps j).getLast?).or db.version ∧
        t.Legacy ∧ t.migrate = (db.migrated, none) := by
      intro j
      obtain ⟨t, ht, hlegacy, hsame, hversion, -⟩ := h.script_stops j
      exact ⟨t, ht, hversion, hlegacy, by rw [hlegacy.migrate_eq, hsame]⟩
    -- the second run is a rerun after the last statement
    have hagain : db.migrated.migrate = (db.migrated, none) := by
      obtain ⟨t, ht, -, -, hrerun⟩ := hstops db.script.length
      have hfinal := h.migrate_eq
      rw [List.take_length] at ht
      simp only [migrate, ht, Prod.mk.injEq] at hfinal
      rw [← hfinal.1]
      rw [← hfinal.1] at hrerun
      exact hrerun
    exact ⟨h.migrate_eq, db.migrated_isCurrent, db.migrated_version, h.plan_chained.2.1, hstops,
      hagain⟩
  · intro stored hstored hnewer
    have hplan : db.plan = ⟨[], some .newerSchema⟩ := by
      have hany : db.version.any (fun v => currentStateStoreSchemaVersion < v) = true := by
        rw [hstored]
        exact decide_eq_true hnewer
      rw [plan_of_version, applySchemaMigrations, if_neg (by decide), if_pos hany]
    obtain ⟨t, ht, hct, -⟩ := createAll_stops db db.createAll.length
    rw [List.take_length] at ht
    refine ⟨by rw [hplan], t, ?_, hct.version.trans hstored⟩
    have hscript : db.script = db.createAll := by simp [script, hplan, statements]
    rw [migrate, hscript, ht, hplan]
    rfl

/-- A database at version 2 that has the column of step 4 and the index of the claims. -/
def partlyMigrated : Database Unit where
  versions := some fun _ => some 2
  tables := fun name =>
    if name = interruptRequestsTable.name then
      some (DbTable.empty interruptRequestsTable)
    else if name = pendingSessionClaimsTable.name then
      some ((DbTable.empty pendingSessionClaimsTable).addIndex StateSchema.pendingClaimIndex)
    else none

theorem partlyMigrated_legacy : partlyMigrated.Legacy where
  supported := by decide
  base := by
    intro table htable t ht c hc
    have hc : c ∈ table.columnNames := List.mem_of_mem_filter hc
    simp only [stateTables, List.mem_cons, List.not_mem_nil, or_false] at htable
    rcases htable with rfl | rfl | rfl | rfl
    · obtain rfl := Option.some.inj ht
      exact List.mem_toFinset.mpr hc
    · obtain rfl := Option.some.inj ht
      exact List.mem_toFinset.mpr hc
    · cases ht
    · cases ht
  results := by
    intro step hstep hle a ha
    have hle : step.1 ≤ 2 := hle
    simp only [stateMigrations, List.mem_cons, List.not_mem_nil, or_false] at hstep
    rcases hstep with rfl | rfl | rfl | rfl | rfl
    · rw [List.mem_singleton.mp ha]
      exact ⟨_, rfl, by decide⟩
    · rw [List.mem_singleton.mp ha]
      exact ⟨_, rfl, by decide⟩
    · exact absurd hle (by decide)
    · exact absurd hle (by decide)
    · exact absurd hle (by decide)

theorem partlyMigrated_converges :
    partlyMigrated.migrate = (partlyMigrated.migrated, none) ∧
      partlyMigrated.plan.steps.map Prod.fst = [3, 4, 5] ∧
      ({ versions := some fun _ => some 6, tables := fun _ => none } : Database Unit).migrate.2
        = some .newerSchema := by
  obtain ⟨hmigrate, -, -, hsteps, -, -⟩ := (migrations_converge partlyMigrated).1 partlyMigrated_legacy
  obtain ⟨-, t, ht, -⟩ := (migrations_converge
    ({ versions := some fun _ => some 6, tables := fun _ => none } : Database Unit)).2 6 rfl (by decide)
  exact ⟨hmigrate, hsteps, by rw [ht]⟩

end Database

end OpencodeA2a.Store
