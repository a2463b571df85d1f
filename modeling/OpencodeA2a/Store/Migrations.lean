import OpencodeA2a.Store.Interrupts
import OpencodeA2a.Store.SessionStates

/-!
# Migrated tables

`migrate_state_store_schema` of `server/migrations.py` takes over the tables it
finds, whatever constraints they have; only columns and indexes are added. A
pending claim is written by inserting a row and, on an integrity error, updating
the rows with its key. In a legacy table the error may have another cause.
-/

namespace OpencodeA2a.Store

open OpencodeA2a.Stream (Text)

variable {ε : Type}

/-! ## §1  The migration -/

/-- An index, with the columns it is on. -/
structure Index where
  name : String
  columns : List String

/-- The two tables that migrations work on, with the stored schema version. Of
the interrupt requests only columns and indexes matter. -/
structure StateSchema (ε : Type) where
  version : Option ℤ
  claims : Table (ClaimRow ε)
  claimIndexes : List String
  interruptColumns : List String
  interruptIndexes : List String

inductive MigrationError where
  /-- the stored version is newer than this application supports -/
  | newerSchema
  | missingMigration (version : ℤ)
  | database (e : DbError)

def StateSchema.pendingClaimIndex : Index :=
  ⟨"ix_a2a_pending_session_claims_expires_at", ["expires_at"]⟩

def StateSchema.interruptRequestIndexes : List Index :=
  [⟨"ix_a2a_interrupt_requests_identity_expires_at", ["identity", "expires_at"]⟩,
    ⟨"ix_a2a_interrupt_requests_identity_type_expires_at",
      ["identity", "interrupt_type", "expires_at"]⟩,
    ⟨"ix_a2a_interrupt_requests_tombstone_expires_at", ["tombstone_expires_at"]⟩]

/-- `_create_missing_index` -/
def createMissingIndex (columns existing : List String) (index : Index) :
    Except MigrationError (List String) :=
  if index.name ∈ existing then .ok existing
  else if index.columns ⊆ columns then .ok (existing ++ [index.name])
  else .error (.database .operational)

/-- `_add_missing_nullable_column`, on the names of the columns -/
def addMissingNullableColumn (columns : List String) (name : String) : List String :=
  if name ∈ columns then columns else columns ++ [name]

namespace StateSchema

def migration1 (s : StateSchema ε) : Except MigrationError (StateSchema ε) :=
  .ok { s with interruptColumns := addMissingNullableColumn s.interruptColumns "details_json" }

/-- The new column is null in the rows that are there. -/
def migration2 (s : StateSchema ε) : Except MigrationError (StateSchema ε) :=
  if "expires_at" ∈ s.claims.columns then .ok s
  else .ok { s with claims :=
    { s.claims with
      columns := addMissingNullableColumn s.claims.columns "expires_at"
      rows := s.claims.rows.map fun row => { row with expiresAt := none } } }

def migration3 (s : StateSchema ε) : Except MigrationError (StateSchema ε) := do
  let interruptIndexes ← interruptRequestIndexes.foldlM
    (createMissingIndex s.interruptColumns) s.interruptIndexes
  let claimIndexes ← createMissingIndex s.claims.columns s.claimIndexes pendingClaimIndex
  return { s with interruptIndexes := interruptIndexes, claimIndexes := claimIndexes }

def migration4 (s : StateSchema ε) : Except MigrationError (StateSchema ε) :=
  .ok { s with interruptColumns := addMissingNullableColumn s.interruptColumns "credential_id" }

/-- `_migration_5_drop_legacy_pending_claim_rows` -/
def migration5 (s : StateSchema ε) : Except MigrationError (StateSchema ε) :=
  match s.claims.delete ["expires_at"] fun row => row.expiresAt.isNone with
  | .ok claims => .ok { s with claims := claims }
  | .error e => .error (.database e)

def migrations : List (ℤ × (StateSchema ε → Except MigrationError (StateSchema ε))) :=
  [(1, migration1), (2, migration2), (3, migration3), (4, migration4), (5, migration5)]

/-- `_apply_schema_migrations` -/
def applyMigrations (s : StateSchema ε) : Except MigrationError (StateSchema ε) :=
  let start := s.version.getD 0
  if 5 < start then .error .newerSchema
  else if start < 0 then .error (.missingMigration (start + 1))
  else migrations.foldlM (fun s m =>
    if m.1 ≤ start then .ok s
    else (m.2 s).map fun s => { s with version := some m.1 }) s

end StateSchema

/-- What the migration finds; a table that is missing is made by `create_all`.
The defaults are those of the pending-claims table. -/
structure LegacyDatabase (ε : Type) where
  version : Option ℤ := none
  bindings : Option (Table BindingRow) := none
  owners : Option (Table OwnerRow) := none
  claims : Option (Table (ClaimRow ε)) := none
  claimIndexes : List String := []
  interruptColumns : Option (List String) := none
  interruptIndexes : List String := []
  updatedAtDefault : Option ℤ := none
  restDefault : ε

namespace LegacyDatabase

variable (legacy : LegacyDatabase ε)

/-- `create_all` -/
def createAll : StateSchema ε where
  version := legacy.version
  claims := legacy.claims.getD ⟨claimColumns, Table.keyedBy ClaimRow.sessionId ClaimRow.check, []⟩
  claimIndexes :=
    if legacy.claims.isSome then legacy.claimIndexes else [StateSchema.pendingClaimIndex.name]
  interruptColumns := legacy.interruptColumns.getD OpencodeA2a.Store.interruptColumns
  interruptIndexes :=
    if legacy.interruptColumns.isSome then legacy.interruptIndexes
    else StateSchema.interruptRequestIndexes.map Index.name

/-- `migrate_state_store_schema`, with the database the repository then works on -/
def migrate : Except MigrationError (DatabaseSessionState ε) :=
  legacy.createAll.applyMigrations.map fun schema =>
    { bindings := legacy.bindings.getD
        ⟨bindingColumns, Table.keyedBy BindingRow.key fun _ => true, []⟩
      owners := legacy.owners.getD
        ⟨ownerColumns, Table.keyedBy OwnerRow.sessionId fun _ => true, []⟩
      claims := schema.claims
      updatedAtDefault := if legacy.claims.isSome then legacy.updatedAtDefault else none
      restDefault := legacy.restDefault }

end LegacyDatabase

/-- An empty database becomes the one the schema describes. -/
theorem migrate_empty :
    ({ restDefault := () } : LegacyDatabase Unit).migrate = .ok DatabaseSessionState.initial := by
  rfl

/-! ## §2  Writing and reading a pending claim -/

namespace DatabaseSessionState

variable (db : DatabaseSessionState ε)

/-- Whether a row has lapsed at the time. -/
def lapsed (time : ℤ) (row : ClaimRow ε) : Bool := row.expiresAt.any fun e => e ≤ time

/-- The rows that pruning leaves. -/
def standingRows (now : ℤ) : List (ClaimRow ε) := db.claims.rows.filter fun row => !lapsed now row

def isOf (sessionId : Text) (row : ClaimRow ε) : Bool := row.sessionId = some sessionId

/-- What the update on conflict makes of a row. -/
def overwritten (ttl now : ℤ) (sessionId identity : Text) (row : ClaimRow ε) : ClaimRow ε :=
  if isOf sessionId row then { row with identity := some identity, expiresAt := some (now + ttl) }
  else row

/-- A claim that was set without error is there when it is read. -/
def KeepsClaim (ttl now later : ℤ) (sessionId identity : Text) : Prop :=
  ∀ db', db.setPendingClaim ttl now sessionId identity = .ok db' →
    ∃ db'', db'.getPendingClaim ttl later sessionId = .ok (db'', some identity)

/-- The rows that the insert would make. -/
def insertedRows (ttl now : ℤ) (sessionId identity : Text) : List (ClaimRow ε) :=
  db.standingRows now ++ [db.claimRow ttl now sessionId identity]

/-- The rows that the update would make. -/
def updatedRows (ttl now : ℤ) (sessionId identity : Text) : List (ClaimRow ε) :=
  (db.standingRows now).map (overwritten ttl now sessionId identity)

/-- The insert is admitted and no row of the session stays beside the new one, or
it is refused and there is one row of the session to update. -/
def AdmitsClaim (ttl now later : ℤ) (sessionId identity : Text) : Prop :=
  db.claims.has ["session_id", "identity", "expires_at"] = true →
    if db.claims.constraints (db.insertedRows ttl now sessionId identity) then
      db.claims.has claimColumns = true ∧
        ∀ row ∈ db.standingRows now, isOf sessionId row = true → lapsed later row = true
    else db.claims.constraints (db.updatedRows ttl now sessionId identity) = true →
      db.claims.has claimColumns = true ∧ ((db.standingRows now).filter (isOf sessionId)).length = 1

variable {db} {ttl now later : ℤ} {sessionId identity : Text}

theorem prune_eq (httl : 0 < ttl) (time : ℤ) (hhas : db.claims.has ["expires_at"] = true) :
    pruneExpiredPendingClaims ttl time db.claims =
      .ok { db.claims with rows := db.standingRows time } := by
  unfold pruneExpiredPendingClaims Table.delete
  rw [if_neg (not_le.mpr httl), if_neg (not_not.mpr hhas)]
  rfl

theorem prune_eq_error (httl : 0 < ttl) (time : ℤ) (hhas : ¬ db.claims.has ["expires_at"] = true) :
    pruneExpiredPendingClaims ttl time db.claims = .error .operational := by
  unfold pruneExpiredPendingClaims Table.delete
  rw [if_neg (not_le.mpr httl), if_pos hhas]

theorem has_expires_at {names : List String} (hmem : "expires_at" ∈ names)
    (h : db.claims.has names = true) : db.claims.has ["expires_at"] = true := by
  unfold Table.has at h ⊢
  rw [List.all_eq_true] at h ⊢
  intro name hname
  rw [List.mem_singleton.mp hname]
  exact h "expires_at" hmem

/-- The rows that an upsert leaves, if it does not raise. -/
theorem insertThenUpdateOnConflict_eq_ok {ρ : Type} {t t' : Table ρ} {names : List String}
    {row : ρ} {which : ρ → Bool} {change : ρ → ρ} :
    insertThenUpdateOnConflict t names row which change = .ok t' ↔
      t.has names = true ∧ ∃ rows, t' = { t with rows := rows } ∧
        if t.constraints (t.rows ++ [row]) then rows = t.rows ++ [row]
        else t.constraints (t.rows.map fun r => if which r then change r else r) = true ∧
          rows = t.rows.map fun r => if which r then change r else r := by
  unfold insertThenUpdateOnConflict Table.insert Table.update
  by_cases hhas : t.has names = true
  · by_cases hinsert : t.constraints (t.rows ++ [row]) = true
    · simp only [hhas, hinsert, not_true_eq_false, if_false, if_true, true_and, Except.ok.injEq]
      constructor
      · rintro rfl
        exact ⟨_, rfl, rfl⟩
      · rintro ⟨rows, rfl, rfl⟩
        rfl
    · by_cases hupdate : t.constraints (t.rows.map fun r => if which r then change r else r) = true
      · simp only [hhas, hinsert, hupdate, not_true_eq_false, if_false, if_true, true_and,
          Except.ok.injEq, Bool.false_eq_true]
        constructor
        · rintro rfl
          exact ⟨_, rfl, rfl⟩
        · rintro ⟨rows, rfl, rfl⟩
          rfl
      · simp [hhas, hinsert, hupdate]
  · simp [hhas]

/-- What `set_pending_claim` leaves in the table, if it does not raise. -/
theorem setPendingClaim_eq_ok (httl : 0 < ttl) {db' : DatabaseSessionState ε} :
    db.setPendingClaim ttl now sessionId identity = .ok db' ↔
      db.claims.has ["session_id", "identity", "expires_at"] = true ∧
      ∃ rows, db' = { db with claims := { db.claims with rows := rows } } ∧
        if db.claims.constraints (db.insertedRows ttl now sessionId identity) then
          rows = db.insertedRows ttl now sessionId identity
        else db.claims.constraints (db.updatedRows ttl now sessionId identity) = true ∧
          rows = db.updatedRows ttl now sessionId identity := by
  unfold setPendingClaim
  rw [bind_eq_ok]
  simp only [if_neg (not_le.mpr httl), bind_eq_ok, insertThenUpdateOnConflict_eq_ok]
  constructor
  · rintro ⟨pruned, hprune, t', ⟨hhas, rows, rfl, hrows⟩, hdb⟩
    by_cases hexpires : db.claims.has ["expires_at"] = true
    · rw [prune_eq httl now hexpires] at hprune
      cases hprune
      cases hdb
      exact ⟨hhas, rows, rfl, hrows⟩
    · rw [prune_eq_error httl now hexpires] at hprune
      cases hprune
  · rintro ⟨hhas, rows, rfl, hrows⟩
    exact ⟨_, prune_eq httl now (has_expires_at (by decide) hhas), _, ⟨hhas, rows, rfl, hrows⟩, rfl⟩

/-- What `get_pending_claim` finds among the rows. -/
theorem getPendingClaim_found (httl : 0 < ttl) :
    (∃ db', db.getPendingClaim ttl later sessionId = .ok (db', some identity)) ↔
      db.claims.has claimColumns = true ∧
      ∃ row, (db.standingRows later).filter (isOf sessionId) = [row] ∧
        row.expiresAt.isSome = true ∧ row.identity = some identity := by
  unfold getPendingClaim
  by_cases hhas : db.claims.has claimColumns = true
  · have hselect : (Table.select { db.claims with rows := db.standingRows later } claimColumns
        (isOf sessionId)) = .ok ((db.standingRows later).filter (isOf sessionId)) :=
      if_neg (not_not.mpr hhas)
    rw [prune_eq httl later (has_expires_at (by decide) hhas)]
    change (∃ db', (Table.select _ claimColumns (isOf sessionId) >>= _) = _) ↔ _
    rw [hselect]
    simp only [hhas, true_and]
    rcases hrows : (db.standingRows later).filter (isOf sessionId) with _ | ⟨row, _ | ⟨row', rows⟩⟩
    · simp [bind, Except.bind, Table.oneOrNone, pure, Except.pure]
    · have hmem : row ∈ (db.standingRows later).filter (isOf sessionId) := by
        rw [hrows]
        exact List.mem_singleton.mpr rfl
      have hlive := (List.mem_filter.mp (List.mem_filter.mp hmem).1).2
      simp only [bind, Except.bind, Table.oneOrNone, List.cons.injEq, and_true, exists_eq_left']
      cases hexpires : row.expiresAt with
      | none =>
          cases hdelete : deleteClaims { db.claims with rows := db.standingRows later } sessionId <;>
            simp [pure, Except.pure]
      | some e =>
          have hlate : ¬ e ≤ later := by simpa [lapsed, hexpires] using hlive
          simp [hlate, pure, Except.pure]
    · simp [bind, Except.bind, Table.oneOrNone]
  · have hselect : ∀ rows, Table.select { db.claims with rows := rows } claimColumns
        (isOf sessionId) = .error .operational := fun rows => if_pos hhas
    refine iff_of_false ?_ fun hcon => hhas hcon.1
    rintro ⟨db', hcon⟩
    obtain ⟨pruned, hprune, hrest⟩ := bind_eq_ok.mp hcon
    by_cases hexpires : db.claims.has ["expires_at"] = true
    · rw [prune_eq httl later hexpires] at hprune
      cases hprune
      obtain ⟨rows, hrows, -⟩ := bind_eq_ok.mp hrest
      exact absurd ((hselect _).symm.trans hrows) (by simp)
    · rw [prune_eq_error httl later hexpires] at hprune
      cases hprune

/-- After an insert: nothing of the session may be left beside the new row. -/
theorem found_inserted (hlater : later < now + ttl) :
    (∃ row, ((db.insertedRows ttl now sessionId identity).filter fun r => !lapsed later r).filter
        (isOf sessionId) = [row] ∧ row.expiresAt.isSome = true ∧ row.identity = some identity) ↔
      ∀ row ∈ db.standingRows now, isOf sessionId row = true → lapsed later row = true := by
  have hnew : lapsed later (db.claimRow ttl now sessionId identity) = false := by
    simp [lapsed, claimRow, hlater]
  have hown : isOf sessionId (db.claimRow ttl now sessionId identity) = true := decide_eq_true rfl
  have hfilter : ((db.insertedRows ttl now sessionId identity).filter fun r => !lapsed later r).filter
      (isOf sessionId) = ((db.standingRows now).filter fun r => !lapsed later r).filter
        (isOf sessionId) ++ [db.claimRow ttl now sessionId identity] := by
    unfold insertedRows
    rw [List.filter_append, List.filter_append]
    simp [hnew, hown]
  have hnil : ((db.standingRows now).filter fun r => !lapsed later r).filter (isOf sessionId) = [] ↔
      ∀ row ∈ db.standingRows now, isOf sessionId row = true → lapsed later row = true := by
    simp only [List.filter_eq_nil_iff, List.mem_filter, Bool.not_eq_eq_eq_not, Bool.not_true,
      Bool.not_eq_true, and_imp]
    constructor
    · intro h row hrow how
      by_contra hcon
      exact absurd how (by rw [h row hrow (Bool.not_eq_true _ ▸ hcon)]; decide)
    · intro h row hrow hlate
      by_contra hcon
      have := h row hrow (by simpa using hcon)
      exact absurd hlate (by rw [this]; decide)
  rw [hfilter, ← hnil]
  constructor
  · rintro ⟨row, hrow, -, -⟩
    have hlength := congrArg List.length hrow
    rw [List.length_append] at hlength
    exact List.length_eq_zero_iff.mp (by simpa using hlength)
  · intro h
    rw [h]
    exact ⟨_, rfl, rfl, rfl⟩

theorem isOf_overwritten (row : ClaimRow ε) :
    isOf sessionId (overwritten ttl now sessionId identity row) = isOf sessionId row := by
  unfold overwritten
  split <;> rfl

theorem overwritten_of_isOf (ttl now : ℤ) (identity : Text) {row : ClaimRow ε}
    (how : isOf sessionId row = true) :
    (overwritten ttl now sessionId identity row).expiresAt = some (now + ttl) ∧
      (overwritten ttl now sessionId identity row).identity = some identity := by
  unfold overwritten
  rw [if_pos how]
  exact ⟨rfl, rfl⟩

/-- After an update: there has to be one row of the session. -/
theorem found_updated (hlater : later < now + ttl) :
    (∃ row, ((db.updatedRows ttl now sessionId identity).filter fun r => !lapsed later r).filter
        (isOf sessionId) = [row] ∧ row.expiresAt.isSome = true ∧ row.identity = some identity) ↔
      ((db.standingRows now).filter (isOf sessionId)).length = 1 := by
  have hkept : ∀ row : ClaimRow ε,
      (isOf sessionId (overwritten ttl now sessionId identity row) &&
        !lapsed later (overwritten ttl now sessionId identity row)) = isOf sessionId row := by
    intro row
    rw [isOf_overwritten]
    by_cases how : isOf sessionId row = true
    · obtain ⟨hexpires, -⟩ := overwritten_of_isOf ttl now identity how
      simp [how, lapsed, hexpires, hlater]
    · rw [Bool.not_eq_true] at how
      rw [how, Bool.false_and]
  have hfilter : ((db.updatedRows ttl now sessionId identity).filter fun r => !lapsed later r).filter
      (isOf sessionId) =
        ((db.standingRows now).filter (isOf sessionId)).map
          (overwritten ttl now sessionId identity) := by
    unfold updatedRows
    rw [List.filter_filter, List.filter_map]
    congr 2
    funext row
    exact hkept row
  rw [hfilter]
  constructor
  · rintro ⟨row, hrow, -, -⟩
    have hlength := congrArg List.length hrow
    rwa [List.length_map] at hlength
  · intro hlength
    obtain ⟨row, hrow⟩ := List.length_eq_one_iff.mp hlength
    have how : isOf sessionId row = true := by
      have hmem : row ∈ (db.standingRows now).filter (isOf sessionId) := by
        rw [hrow]
        exact List.mem_singleton.mpr rfl
      exact (List.mem_filter.mp hmem).2
    rw [hrow]
    obtain ⟨hexpires, hidentity⟩ := overwritten_of_isOf ttl now identity how
    exact ⟨_, rfl, by rw [hexpires]; rfl, hidentity⟩

/-- The claim is kept exactly if the table's constraints and rows admit it. -/
theorem keepsClaim_iff (httl : 0 < ttl) (hlater : later < now + ttl) :
    db.KeepsClaim ttl now later sessionId identity ↔
      db.AdmitsClaim ttl now later sessionId identity := by
  have hfound : ∀ rows, (∃ db', ({ db with claims := { db.claims with rows := rows } } :
      DatabaseSessionState ε).getPendingClaim ttl later sessionId = .ok (db', some identity)) ↔
      db.claims.has claimColumns = true ∧ ∃ row, (rows.filter fun r => !lapsed later r).filter
        (isOf sessionId) = [row] ∧ row.expiresAt.isSome = true ∧ row.identity = some identity :=
    fun rows => getPendingClaim_found httl
  unfold KeepsClaim AdmitsClaim
  simp only [setPendingClaim_eq_ok httl]
  constructor
  · intro h hhas
    split
    · rename_i hinsert
      have hkept := h _ ⟨hhas, _, rfl, by rw [if_pos hinsert]⟩
      rwa [hfound, found_inserted hlater] at hkept
    · rename_i hinsert
      intro hupdate
      have hkept := h _ ⟨hhas, _, rfl, by rw [if_neg hinsert]; exact ⟨hupdate, rfl⟩⟩
      rwa [hfound, found_updated hlater] at hkept
  · rintro h db' ⟨hhas, rows, rfl, hrows⟩
    have hadmits := h hhas
    rw [hfound]
    split at hrows <;> rename_i hinsert
    · rw [if_pos hinsert] at hadmits
      subst hrows
      rwa [found_inserted hlater]
    · rw [if_neg hinsert] at hadmits
      obtain ⟨hupdate, rfl⟩ := hrows
      rw [found_updated hlater]
      exact hadmits hupdate

end DatabaseSessionState

/-! ## §3  Every legacy database -/

/-- Whatever database the migration accepts, a pending claim that is set without
error is read back before it expires exactly if the migrated table admits it. -/
theorem claim_kept_iff_admitted (legacy : LegacyDatabase ε) {ttl now later : ℤ} (httl : 0 < ttl)
    (hlater : later < now + ttl) (sessionId identity : Text) :
    (∀ db, legacy.migrate = .ok db → db.KeepsClaim ttl now later sessionId identity) ↔
      ∀ db, legacy.migrate = .ok db → db.AdmitsClaim ttl now later sessionId identity := by
  constructor
  · intro h db hdb
    exact (DatabaseSessionState.keepsClaim_iff httl hlater).mp (h db hdb)
  · intro h db hdb
    exact (DatabaseSessionState.keepsClaim_iff httl hlater).mpr (h db hdb)

/-- The legacy table whose `updated_at` may not be null. -/
def legacyClaims : Table (ClaimRow Unit) where
  columns := ["session_id", "identity", "updated_at"]
  constraints rows := Table.keyedBy ClaimRow.sessionId
    (fun row => row.check && row.updatedAt.isSome) rows
  rows := [⟨some "ses-legacy".toList, some "user-legacy".toList, some 100, none, ()⟩]

def legacyDatabase : LegacyDatabase Unit := { claims := some legacyClaims, restDefault := () }

/-- The same table at schema version 4, with a claim of the session that has not expired and one
that never does. -/
def claimedDatabase : LegacyDatabase Unit where
  version := some 4
  claims := some { legacyClaims with
    columns := ["session_id", "identity", "updated_at", "expires_at"]
    rows := [⟨some "ses-legacy".toList, some "user-legacy".toList, some 100, none, ()⟩,
      ⟨some "session-1".toList, some "user-0".toList, some 100, some 4, ()⟩] }
  restDefault := ()

def migratedClaimed : DatabaseSessionState Unit :=
  { DatabaseSessionState.initial with
    claims := { legacyClaims with
      columns := ["session_id", "identity", "updated_at", "expires_at"]
      rows := [⟨some "session-1".toList, some "user-0".toList, some 100, some 4, ()⟩] } }

/-- The insert is refused, the update of the row of that session keeps the claim. -/
theorem legacy_row_keeps_claim :
    claimedDatabase.migrate = .ok migratedClaimed ∧
      migratedClaimed.KeepsClaim 5 0 3 "session-1".toList "user-1".toList := by
  have hmigrate : claimedDatabase.migrate = .ok migratedClaimed := by rfl
  refine ⟨hmigrate, ?_⟩
  refine (claim_kept_iff_admitted claimedDatabase (by decide) (by decide) _ _).mpr ?_ _ hmigrate
  intro db hdb
  rw [hmigrate] at hdb
  cases hdb
  intro _ _
  exact ⟨rfl, rfl⟩

def migratedLegacy : DatabaseSessionState Unit :=
  { DatabaseSessionState.initial with
    claims := { legacyClaims with
      columns := ["session_id", "identity", "updated_at", "expires_at"], rows := [] } }

/-- In the legacy database it is set without error, and lost. -/
theorem legacy_database_loses_claim :
    legacyDatabase.migrate = .ok migratedLegacy ∧
      migratedLegacy.setPendingClaim 5 0 "session-1".toList "user-1".toList = .ok migratedLegacy ∧
      migratedLegacy.getPendingClaim 5 3 "session-1".toList = .ok (migratedLegacy, none) ∧
      ¬ migratedLegacy.KeepsClaim 5 0 3 "session-1".toList "user-1".toList := by
  have hset : migratedLegacy.setPendingClaim 5 0 "session-1".toList "user-1".toList =
      .ok migratedLegacy := by rfl
  have hget : migratedLegacy.getPendingClaim 5 3 "session-1".toList =
      .ok (migratedLegacy, none) := by rfl
  refine ⟨rfl, hset, hget, ?_⟩
  intro hkeeps
  obtain ⟨db', hdb'⟩ := hkeeps migratedLegacy hset
  rw [hget] at hdb'
  cases hdb'

end OpencodeA2a.Store
