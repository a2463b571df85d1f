import OpencodeA2a.Store.SessionState
import Mathlib.Data.Char
import Mathlib.Data.List.Lex

/-!
# The two interrupt-request repositories

`MemoryInterruptRequestRepository` and `DatabaseInterruptRequestRepository` of
`server/state_store.py`. A request is remembered with an expiry; once that has
passed a tombstone answers for it, for the tombstone TTL. The memory makes the
tombstone at the first pruning, the database when it is asked.
-/

namespace OpencodeA2a.Store

open OpencodeA2a.Stream (Text Json Mapping)

/-! ## §1  Details in the database -/

mutual

/-- `json.loads(json.dumps(value, sort_keys=True))` -/
def sortKeys : Json → Json
  | .arr items => .arr (sortItems items)
  | .obj entries => .obj ((sortEntries entries).mergeSort fun a b => a.1 ≤ b.1)
  | j => j

def sortItems : List Json → List Json
  | [] => []
  | j :: js => sortKeys j :: sortItems js

def sortEntries : List (Text × Json) → List (Text × Json)
  | [] => []
  | (key, j) :: es => (key, sortKeys j) :: sortEntries es

end

/-- What `_encode_details` writes: the column holds the text of these entries. -/
def encodeDetails (details : Option Mapping) : Option Mapping :=
  details.map fun m => (sortEntries m).mergeSort fun a b => a.1 ≤ b.1

/-! ## §2  Operations -/

/-- `InterruptRequestBinding` -/
structure InterruptRequestBinding where
  requestId : Text
  sessionId : Text
  interruptType : Text
  identity : Option Text
  credentialId : Option Text
  taskId : Option Text
  contextId : Option Text
  details : Option Mapping
  expiresAt : ℤ

/-- What `remember` is told. -/
structure RememberRequest where
  requestId : Text
  sessionId : Text
  interruptType : Text
  identity : Option Text := none
  credentialId : Option Text := none
  taskId : Option Text := none
  contextId : Option Text := none
  details : Option Mapping := none
  ttlSeconds : Option ℤ := none

inductive InterruptOp where
  | remember (request : RememberRequest)
  | resolve (requestId : Text)
  | discard (requestId : Text)
  | listPending (identity : Text) (interruptType : Option Text)

inductive InterruptStatus where
  | active
  | expired
  | missing
deriving DecidableEq

inductive InterruptReply where
  | done
  | resolved (status : InterruptStatus) (binding : Option InterruptRequestBinding)
  | pending (bindings : List InterruptRequestBinding)

/-- The TTLs of both repositories. -/
structure InterruptSettings where
  requestTtlSeconds : ℤ
  tombstoneTtlSeconds : ℤ

/-- `now + max(0.0, float(ttl))` -/
def InterruptSettings.expiry (settings : InterruptSettings) (now : ℤ) (request : RememberRequest) :
    ℤ :=
  now + max 0 (request.ttlSeconds.getD settings.requestTtlSeconds)

def RememberRequest.binding (request : RememberRequest) (expiresAt : ℤ) :
    InterruptRequestBinding where
  requestId := request.requestId
  sessionId := request.sessionId
  interruptType := request.interruptType
  identity := request.identity
  credentialId := request.credentialId
  taskId := request.taskId
  contextId := request.contextId
  details := request.details
  expiresAt := expiresAt

/-- `(item.expires_at, item.request_id)`, in order -/
def InterruptRequestBinding.before (a b : InterruptRequestBinding) : Bool :=
  decide (a.expiresAt < b.expiresAt ∨ a.expiresAt = b.expiresAt ∧ a.requestId ≤ b.requestId)

/-- What `list_pending` selects. -/
def InterruptRequestBinding.pendingFor (now : ℤ) (identity : Text) (interruptType : Option Text)
    (b : InterruptRequestBinding) : Bool :=
  b.identity = some identity && interruptType.all (fun t => b.interruptType = t.strip) &&
    decide (now < b.expiresAt)

/-! ## §3  In memory -/

/-- `InterruptRequestTombstone` -/
structure InterruptRequestTombstone where
  requestId : Text
  expiresAt : ℤ

structure MemoryInterrupts where
  interruptRequests : Dict Text InterruptRequestBinding := .empty
  interruptRequestTombstones : Dict Text InterruptRequestTombstone := .empty

namespace MemoryInterrupts

variable (settings : InterruptSettings)

/-- `_remember_interrupt_request_tombstone` -/
def rememberTombstone (m : MemoryInterrupts) (now : ℤ) (requestId : Text) : MemoryInterrupts :=
  if settings.tombstoneTtlSeconds ≤ 0 then
    { m with interruptRequestTombstones := m.interruptRequestTombstones.pop requestId }
  else
    let tombstone := ⟨requestId, now + settings.tombstoneTtlSeconds⟩
    { m with
      interruptRequestTombstones := m.interruptRequestTombstones.set requestId tombstone }

/-- `_prune_interrupt_requests` -/
def pruneRequests (m : MemoryInterrupts) (now : ℤ) : MemoryInterrupts :=
  let expired := (m.interruptRequests.items.filter fun item => item.2.expiresAt ≤ now).map Prod.fst
  expired.foldl (fun m requestId =>
    rememberTombstone settings
      { m with interruptRequests := m.interruptRequests.pop requestId } now requestId) m

/-- `_prune_interrupt_request_tombstones` -/
def pruneTombstones (m : MemoryInterrupts) (now : ℤ) : MemoryInterrupts :=
  let expired := (m.interruptRequestTombstones.items.filter fun item =>
    item.2.expiresAt ≤ now).map Prod.fst
  { m with interruptRequestTombstones := m.interruptRequestTombstones.popAll expired }

def remember (m : MemoryInterrupts) (now : ℤ) (request : RememberRequest) : MemoryInterrupts :=
  let m := (m.pruneRequests settings now).pruneTombstones now
  { interruptRequests :=
      m.interruptRequests.set request.requestId (request.binding (settings.expiry now request))
    interruptRequestTombstones := m.interruptRequestTombstones.pop request.requestId }

def resolve (m : MemoryInterrupts) (now : ℤ) (requestId : Text) :
    MemoryInterrupts × InterruptStatus × Option InterruptRequestBinding :=
  if requestId = [] then (m, .missing, none)
  else
    let m := m.pruneTombstones now
    match m.interruptRequests.get? requestId with
    | none =>
        if (m.interruptRequestTombstones.get? requestId).isSome then (m, .expired, none)
        else (m, .missing, none)
    | some binding =>
        if binding.expiresAt ≤ now then
          let m := { m with interruptRequests := m.interruptRequests.pop requestId }
          (rememberTombstone settings (m.pruneRequests settings now) now requestId, .expired, none)
        else (m.pruneRequests settings now, .active, some binding)

def discard (m : MemoryInterrupts) (requestId : Text) : MemoryInterrupts where
  interruptRequests := m.interruptRequests.pop requestId
  interruptRequestTombstones := m.interruptRequestTombstones.pop requestId

def listPending (m : MemoryInterrupts) (now : ℤ) (identity : Text) (interruptType : Option Text) :
    MemoryInterrupts × List InterruptRequestBinding :=
  let m := (m.pruneRequests settings now).pruneTombstones now
  let items := m.interruptRequests.values.filter fun b => b.pendingFor now identity interruptType
  (m, items.mergeSort InterruptRequestBinding.before)

def perform (now : ℤ) (m : MemoryInterrupts) : InterruptOp → MemoryInterrupts × InterruptReply
  | .remember request => (m.remember settings now request, .done)
  | .resolve requestId =>
      let (m, status, binding) := m.resolve settings now requestId
      (m, .resolved status binding)
  | .discard requestId => (m.discard requestId, .done)
  | .listPending identity interruptType =>
      let (m, bindings) := m.listPending settings now identity interruptType
      (m, .pending bindings)

/-- What the operations answer, each performed at its time. -/
def replies : MemoryInterrupts → List (ℤ × InterruptOp) → List InterruptReply
  | _, [] => []
  | m, (now, op) :: ops =>
      (m.perform settings now op).2 :: replies (m.perform settings now op).1 ops

end MemoryInterrupts

/-! ## §4  In the database -/

/-- `a2a_interrupt_requests` -/
structure InterruptRow where
  requestId : Text
  sessionId : Option Text := none
  interruptType : Option Text := none
  identity : Option Text := none
  credentialId : Option Text := none
  taskId : Option Text := none
  contextId : Option Text := none
  detailsJson : Option Mapping := none
  expiresAt : Option ℤ := none
  tombstoneExpiresAt : Option ℤ := none

def interruptColumns : List String :=
  ["request_id", "session_id", "interrupt_type", "identity", "credential_id", "task_id",
    "context_id", "details_json", "expires_at", "tombstone_expires_at"]

/-- The binding that a row with an expiry stands for. A row that is no tombstone has
a session id and a type. -/
def InterruptRow.binding (row : InterruptRow) (expiresAt : ℤ) : InterruptRequestBinding where
  requestId := row.requestId
  sessionId := row.sessionId.getD []
  interruptType := row.interruptType.getD []
  identity := row.identity
  credentialId := row.credentialId
  taskId := row.taskId
  contextId := row.contextId
  details := row.detailsJson
  expiresAt := expiresAt

/-- The row that `remember` writes. -/
def RememberRequest.row (request : RememberRequest) (expiresAt : ℤ) : InterruptRow where
  requestId := request.requestId
  sessionId := some request.sessionId
  interruptType := some request.interruptType
  identity := request.identity
  credentialId := request.credentialId
  taskId := request.taskId
  contextId := request.contextId
  detailsJson := encodeDetails request.details
  expiresAt := some expiresAt

abbrev DatabaseInterrupts := Table InterruptRow

namespace DatabaseInterrupts

/-- The table as `create_all` makes it. -/
def initial : DatabaseInterrupts :=
  ⟨interruptColumns, Table.keyedBy InterruptRow.requestId fun _ => true, []⟩

variable (settings : InterruptSettings)

/-- `_prune_tombstones` -/
def pruneTombstones (t : DatabaseInterrupts) (now : ℤ) : Except DbError DatabaseInterrupts :=
  t.delete ["tombstone_expires_at"] fun row => row.tombstoneExpiresAt.any fun e => e ≤ now

/-- `_set_tombstone` -/
def setTombstone (t : DatabaseInterrupts) (now : ℤ) (requestId : Text) :
    Except DbError DatabaseInterrupts :=
  t.update interruptColumns (fun row => row.requestId = requestId) fun row =>
    { requestId := row.requestId
      tombstoneExpiresAt :=
        if settings.tombstoneTtlSeconds ≤ 0 then none
        else some (now + settings.tombstoneTtlSeconds) }

def remember (t : DatabaseInterrupts) (now : ℤ) (request : RememberRequest) :
    Except DbError DatabaseInterrupts := do
  let t ← pruneTombstones t now
  insertThenUpdateOnConflict t interruptColumns (request.row (settings.expiry now request))
    (fun row => row.requestId = request.requestId)
    fun row => { request.row (settings.expiry now request) with requestId := row.requestId }

def resolve (t : DatabaseInterrupts) (now : ℤ) (requestId : Text) :
    Except DbError (DatabaseInterrupts × InterruptStatus × Option InterruptRequestBinding) :=
  if requestId = [] then .ok (t, .missing, none)
  else do
    let t ← pruneTombstones t now
    let rows ← t.select interruptColumns fun row => row.requestId = requestId
    match ← Table.oneOrNone rows with
    | none => return (t, .missing, none)
    | some row =>
        if row.tombstoneExpiresAt.any fun e => now < e then return (t, .expired, none)
        else match row.expiresAt with
          | none => return (t, .missing, none)
          | some e =>
              if e ≤ now then return (← setTombstone settings t now requestId, .expired, none)
              else return (t, .active, some (row.binding e))

def discard (t : DatabaseInterrupts) (requestId : Text) : Except DbError DatabaseInterrupts :=
  t.delete ["request_id"] fun row => row.requestId = requestId

/-- The rows that `list_pending` selects. -/
def pendingRow (now : ℤ) (identity : Text) (interruptType : Option Text) (row : InterruptRow) :
    Bool :=
  row.identity = some identity && row.expiresAt.any (fun e => now < e) &&
    interruptType.all fun t => row.interruptType = some t.strip

def listPending (t : DatabaseInterrupts) (now : ℤ) (identity : Text) (interruptType : Option Text) :
    Except DbError (DatabaseInterrupts × List InterruptRequestBinding) := do
  let t ← pruneTombstones t now
  let rows ← t.select interruptColumns (pendingRow now identity interruptType)
  let bindings := rows.filterMap fun row => row.expiresAt.map row.binding
  return (t, bindings.mergeSort InterruptRequestBinding.before)

def perform (now : ℤ) (t : DatabaseInterrupts) :
    InterruptOp → Except DbError (DatabaseInterrupts × InterruptReply)
  | .remember request => do return (← remember settings t now request, .done)
  | .resolve requestId => do
      let (t, status, binding) ← resolve settings t now requestId
      return (t, .resolved status binding)
  | .discard requestId => do return (← discard t requestId, .done)
  | .listPending identity interruptType => do
      let (t, bindings) ← listPending t now identity interruptType
      return (t, .pending bindings)

/-- What the operations answer, each performed at its time. -/
def replies : DatabaseInterrupts → List (ℤ × InterruptOp) → List (Except DbError InterruptReply)
  | _, [] => []
  | t, (now, op) :: ops =>
      match perform settings now t op with
      | .ok (t, reply) => .ok reply :: replies t ops
      | .error e => .error e :: replies t ops

end DatabaseInterrupts

end OpencodeA2a.Store
