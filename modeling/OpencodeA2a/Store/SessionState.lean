import OpencodeA2a.Library.Dict
import OpencodeA2a.Library.Table
import OpencodeA2a.Stream.Json
import Mathlib.Data.Int.Order.Basic

/-!
# The two session-state repositories

`MemorySessionStateRepository` and `DatabaseSessionStateRepository` of
`server/state_store.py`. The first keeps two TTL caches and two dictionaries,
the second three tables; a database operation is one transaction, and one that
raises changes nothing. Clock readings are integers, in ticks of any resolution.
-/

namespace OpencodeA2a.Store

open OpencodeA2a.Stream (Text)

/-! ## §1  Operations -/

inductive SessionOp where
  | getSession (identity contextId : Text)
  | setSession (identity contextId sessionId : Text)
  | popSession (identity contextId : Text)
  | getOwner (sessionId : Text)
  | setOwner (sessionId identity : Text)
  | getPendingClaim (sessionId : Text)
  | setPendingClaim (sessionId identity : Text)
  | clearPendingClaim (sessionId : Text) (identity : Option Text)

/-! ## §2  The TTL cache -/

/-- `_TTLCache` -/
structure TtlCache (κ ν : Type) where
  ttlSeconds : ℤ
  maxsize : ℤ
  refreshOnGet : Bool
  store : Dict κ (ν × ℤ)

namespace TtlCache

variable {κ ν : Type} [DecidableEq κ]

/-- The cache keeps nothing. -/
def disabled (c : TtlCache κ ν) : Prop := c.ttlSeconds ≤ 0 ∨ c.maxsize ≤ 0

instance (c : TtlCache κ ν) : Decidable c.disabled := inferInstanceAs (Decidable (_ ∨ _))

def get (c : TtlCache κ ν) (now : ℤ) (key : κ) : TtlCache κ ν × Option ν :=
  if c.disabled then (c, none)
  else match c.store.get? key with
    | none => (c, none)
    | some (value, expiresAt) =>
        if expiresAt ≤ now then ({ c with store := c.store.pop key }, none)
        else if c.refreshOnGet then
          ({ c with store := c.store.set key (value, now + c.ttlSeconds) }, some value)
        else (c, some value)

/-- `_evict_if_needed`: what has expired goes first, then what expires next. -/
def evictIfNeeded (c : TtlCache κ ν) (now : ℤ) : TtlCache κ ν :=
  if (c.store.items.length : ℤ) ≤ c.maxsize then c
  else
    let expired := (c.store.items.filter fun item => item.2.2 ≤ now).map Prod.fst
    let store := c.store.popAll expired
    if (store.items.length : ℤ) ≤ c.maxsize then { c with store := store }
    else
      let overflow := ((store.items.length : ℤ) - c.maxsize).toNat
      let byExpiry := store.items.mergeSort fun a b => a.2.2 ≤ b.2.2
      { c with store := store.popAll ((byExpiry.take overflow).map Prod.fst) }

def set (c : TtlCache κ ν) (now : ℤ) (key : κ) (value : ν) : TtlCache κ ν :=
  if c.disabled then c
  else ({ c with store := c.store.set key (value, now + c.ttlSeconds) } : TtlCache κ ν).evictIfNeeded
    now

def pop (c : TtlCache κ ν) (key : κ) : TtlCache κ ν := { c with store := c.store.pop key }

end TtlCache

/-! ## §3  In memory -/

structure MemorySessionState where
  sessions : TtlCache (Text × Text) Text
  sessionOwners : TtlCache Text Text
  pendingSessionClaims : Dict Text Text := .empty
  pendingSessionClaimExpiries : Dict Text ℤ := .empty
  pendingClaimTtlSeconds : ℤ

namespace MemorySessionState

def initial (ttlSeconds maxsize pendingClaimTtlSeconds : ℤ) : MemorySessionState where
  sessions := ⟨ttlSeconds, maxsize, false, .empty⟩
  sessionOwners := ⟨ttlSeconds, maxsize, true, .empty⟩
  pendingClaimTtlSeconds := pendingClaimTtlSeconds

/-- `_prune_pending_claims` -/
def prunePendingClaims (m : MemorySessionState) (now : ℤ) : MemorySessionState :=
  let expired := (m.pendingSessionClaimExpiries.items.filter fun item => item.2 ≤ now).map Prod.fst
  { m with
    pendingSessionClaims := m.pendingSessionClaims.popAll expired
    pendingSessionClaimExpiries := m.pendingSessionClaimExpiries.popAll expired }

def clearPendingClaim (m : MemorySessionState) (sessionId : Text) (identity : Option Text) :
    MemorySessionState :=
  if identity = none ∨ m.pendingSessionClaims.get? sessionId = identity then
    { m with
      pendingSessionClaims := m.pendingSessionClaims.pop sessionId
      pendingSessionClaimExpiries := m.pendingSessionClaimExpiries.pop sessionId }
  else m

def setPendingClaim (m : MemorySessionState) (now : ℤ) (sessionId identity : Text) :
    MemorySessionState :=
  let m := m.prunePendingClaims now
  if m.pendingClaimTtlSeconds ≤ 0 then m.clearPendingClaim sessionId none
  else
    { m with
      pendingSessionClaims := m.pendingSessionClaims.set sessionId identity
      pendingSessionClaimExpiries :=
        m.pendingSessionClaimExpiries.set sessionId (now + m.pendingClaimTtlSeconds) }

def perform (now : ℤ) (m : MemorySessionState) : SessionOp → MemorySessionState × Option Text
  | .getSession identity contextId =>
      let (sessions, value) := m.sessions.get now (identity, contextId)
      ({ m with sessions := sessions }, value)
  | .setSession identity contextId sessionId =>
      ({ m with sessions := m.sessions.set now (identity, contextId) sessionId }, none)
  | .popSession identity contextId =>
      ({ m with sessions := m.sessions.pop (identity, contextId) }, none)
  | .getOwner sessionId =>
      let (sessionOwners, value) := m.sessionOwners.get now sessionId
      ({ m with sessionOwners := sessionOwners }, value)
  | .setOwner sessionId identity =>
      ({ m with sessionOwners := m.sessionOwners.set now sessionId identity }, none)
  | .getPendingClaim sessionId =>
      let m := m.prunePendingClaims now
      (m, m.pendingSessionClaims.get? sessionId)
  | .setPendingClaim sessionId identity => (m.setPendingClaim now sessionId identity, none)
  | .clearPendingClaim sessionId identity => (m.clearPendingClaim sessionId identity, none)

/-- What the operations answer, each performed at its time. -/
def replies (m : MemorySessionState) : List (ℤ × SessionOp) → List (Option Text)
  | [] => []
  | (now, op) :: ops =>
      let (m, reply) := m.perform now op
      reply :: m.replies ops

end MemorySessionState

/-! ## §4  In the database -/

/-- `a2a_session_bindings` -/
structure BindingRow where
  identity : Text
  contextId : Text
  sessionId : Text

/-- `a2a_session_owners` -/
structure OwnerRow where
  sessionId : Text
  identity : Text

/-- `a2a_pending_session_claims`; `rest` are the columns that only a legacy table
has. -/
structure ClaimRow (ε : Type) where
  sessionId : Option Text
  identity : Option Text
  updatedAt : Option ℤ
  expiresAt : Option ℤ
  rest : ε

/-- The primary key of the bindings table. -/
def BindingRow.key (row : BindingRow) : Text × Text := (row.identity, row.contextId)

/-- `nullable=False` -/
def ClaimRow.check {ε : Type} (row : ClaimRow ε) : Bool :=
  row.sessionId.isSome && row.identity.isSome

structure DatabaseSessionState (ε : Type) where
  bindings : Table BindingRow
  owners : Table OwnerRow
  claims : Table (ClaimRow ε)
  /-- what the pending-claims table puts where an insert names no value -/
  updatedAtDefault : Option ℤ
  restDefault : ε

/-- `_insert_then_update_on_conflict`: every integrity error is taken for a
conflict of keys. -/
def insertThenUpdateOnConflict {ρ : Type} (t : Table ρ) (names : List String) (row : ρ)
    (which : ρ → Bool) (change : ρ → ρ) : Except DbError (Table ρ) :=
  match t.insert names row with
  | .error .integrity => t.update names which change
  | outcome => outcome

def bindingColumns : List String := ["identity", "context_id", "session_id"]

def ownerColumns : List String := ["session_id", "identity"]

def claimColumns : List String := ["session_id", "identity", "updated_at", "expires_at"]

/-- The tables as `create_all` makes them. -/
def DatabaseSessionState.initial : DatabaseSessionState Unit where
  bindings := ⟨bindingColumns, Table.keyedBy BindingRow.key fun _ => true, []⟩
  owners := ⟨ownerColumns, Table.keyedBy OwnerRow.sessionId fun _ => true, []⟩
  claims := ⟨claimColumns, Table.keyedBy ClaimRow.sessionId ClaimRow.check, []⟩
  updatedAtDefault := none
  restDefault := ()

variable {ε : Type}

/-- `_prune_expired_pending_claims` -/
def pruneExpiredPendingClaims (ttl now : ℤ) (claims : Table (ClaimRow ε)) :
    Except DbError (Table (ClaimRow ε)) :=
  if ttl ≤ 0 then claims.delete [] fun _ => true
  else claims.delete ["expires_at"] fun row => row.expiresAt.any fun e => e ≤ now

def deleteClaims (claims : Table (ClaimRow ε)) (sessionId : Text) :
    Except DbError (Table (ClaimRow ε)) :=
  claims.delete ["session_id"] fun row => row.sessionId = some sessionId

namespace DatabaseSessionState

variable (db : DatabaseSessionState ε)

def getSession (identity contextId : Text) : Except DbError (Option Text) := do
  let rows ← db.bindings.select bindingColumns fun row =>
    row.identity = identity ∧ row.contextId = contextId
  return (← Table.oneOrNone rows).map BindingRow.sessionId

def setSession (identity contextId sessionId : Text) : Except DbError (DatabaseSessionState ε) := do
  let bindings ← insertThenUpdateOnConflict db.bindings bindingColumns
    ⟨identity, contextId, sessionId⟩ (fun row => row.identity = identity ∧ row.contextId = contextId)
    fun row => { row with sessionId := sessionId }
  return { db with bindings := bindings }

def popSession (identity contextId : Text) : Except DbError (DatabaseSessionState ε) := do
  let bindings ← db.bindings.delete ["identity", "context_id"] fun row =>
    row.identity = identity ∧ row.contextId = contextId
  return { db with bindings := bindings }

def getOwner (sessionId : Text) : Except DbError (Option Text) := do
  let rows ← db.owners.select ownerColumns fun row => row.sessionId = sessionId
  return (← Table.oneOrNone rows).map OwnerRow.identity

def setOwner (sessionId identity : Text) : Except DbError (DatabaseSessionState ε) := do
  let owners ← insertThenUpdateOnConflict db.owners ownerColumns ⟨sessionId, identity⟩
    (fun row => row.sessionId = sessionId) fun row => { row with identity := identity }
  return { db with owners := owners }

/-- `get_pending_claim` -/
def getPendingClaim (ttl now : ℤ) (sessionId : Text) :
    Except DbError (DatabaseSessionState ε × Option Text) := do
  let claims ← pruneExpiredPendingClaims ttl now db.claims
  let rows ← claims.select claimColumns fun row => row.sessionId = some sessionId
  match ← Table.oneOrNone rows with
  | none => return ({ db with claims := claims }, none)
  | some row =>
      match row.expiresAt with
      | none => return ({ db with claims := ← deleteClaims claims sessionId }, none)
      | some e =>
          if e ≤ now then return ({ db with claims := ← deleteClaims claims sessionId }, none)
          else return ({ db with claims := claims }, row.identity)

/-- The row that `set_pending_claim` inserts. -/
def claimRow (ttl now : ℤ) (sessionId identity : Text) : ClaimRow ε where
  sessionId := some sessionId
  identity := some identity
  updatedAt := db.updatedAtDefault
  expiresAt := some (now + ttl)
  rest := db.restDefault

/-- `set_pending_claim` -/
def setPendingClaim (ttl now : ℤ) (sessionId identity : Text) :
    Except DbError (DatabaseSessionState ε) := do
  let claims ← pruneExpiredPendingClaims ttl now db.claims
  if ttl ≤ 0 then return { db with claims := ← deleteClaims claims sessionId }
  else
    let claims ← insertThenUpdateOnConflict claims ["session_id", "identity", "expires_at"]
      (db.claimRow ttl now sessionId identity) (fun row => row.sessionId = some sessionId)
      fun row => { row with identity := some identity, expiresAt := some (now + ttl) }
    return { db with claims := claims }

/-- `clear_pending_claim` -/
def clearPendingClaim (sessionId : Text) :
    Option Text → Except DbError (DatabaseSessionState ε)
  | none => do return { db with claims := ← deleteClaims db.claims sessionId }
  | some identity => do
      let claims ← db.claims.delete ["session_id", "identity"] fun row =>
        row.sessionId = some sessionId ∧ row.identity = some identity
      return { db with claims := claims }

def perform (ttl now : ℤ) : SessionOp → Except DbError (DatabaseSessionState ε × Option Text)
  | .getSession identity contextId => do return (db, ← db.getSession identity contextId)
  | .setSession identity contextId sessionId => do
      return (← db.setSession identity contextId sessionId, none)
  | .popSession identity contextId => do return (← db.popSession identity contextId, none)
  | .getOwner sessionId => do return (db, ← db.getOwner sessionId)
  | .setOwner sessionId identity => do return (← db.setOwner sessionId identity, none)
  | .getPendingClaim sessionId => db.getPendingClaim ttl now sessionId
  | .setPendingClaim sessionId identity => do
      return (← db.setPendingClaim ttl now sessionId identity, none)
  | .clearPendingClaim sessionId identity => do
      return (← db.clearPendingClaim sessionId identity, none)

/-- What the operations answer, each performed at its time. -/
def replies (ttl : ℤ) : DatabaseSessionState ε → List (ℤ × SessionOp) →
    List (Except DbError (Option Text))
  | _, [] => []
  | db, (now, op) :: ops =>
      match db.perform ttl now op with
      | .ok (db, reply) => .ok reply :: replies ttl db ops
      | .error e => .error e :: replies ttl db ops

end DatabaseSessionState

end OpencodeA2a.Store
