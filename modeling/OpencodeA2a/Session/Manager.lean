import OpencodeA2a.Library.LockTable
import OpencodeA2a.Session.Repository

/-!
# The session manager's calls

`SessionManager` of `execution/session_manager.py`, one constructor per await.
A call is either suspended at an await (`Call.await`) or done; `Call.resume` is
the code between two awaits. asyncio runs that code without interruption, so a
step of a call is: complete the await, run to the next one, drop the locks whose
`async with` block was left.

`_registry_lock` only ever guards code without an await, so nobody is ever seen
waiting for it; `_get_registered_lock` is part of the code between two awaits.
The per-key locks are kept by their holder. The registries are weak, but a
frame that waits for a lock or holds it keeps the object alive, so two such
frames of one key share one object, and an object that died was free.
-/

namespace OpencodeA2a.Session

/-! ## §1  What the calls share -/

/-- The upstream `create_session` task a creation waits for. -/
inductive TaskState where
  | pending
  | cancelling
  | done (s : SessionId)
  | failed
  | cancelled
deriving DecidableEq

/-- A creation task and the cache key of the call that started it. The tasks
are numbered in the order they were started. -/
structure CreateTask where
  key : Key
  state : TaskState
deriving DecidableEq

/-- The repository, the clock, the locks and the in-flight creations. `ι` names
the processes. -/
structure Shared (ι : Type) where
  repo : Repository
  now : Int
  /-- `_pending_claim_ttl_seconds` -/
  ttl : Int
  /-- `_ownership_locks`, by holder -/
  ownLocks : SessionId → Option ι
  /-- `_context_locks`, by holder -/
  ctxLocks : Key → Option ι
  /-- `_inflight_session_creates` -/
  inflight : Key → Option ℕ
  tasks : ℕ → Option CreateTask
  nextTask : ℕ

variable {ι : Type}

/-- A server process that just started on a database. -/
def Shared.initial (ι : Type) (repo : Repository) (ttl : Int) : Shared ι where
  repo := repo
  now := 0
  ttl := ttl
  ownLocks := fun _ => none
  ctxLocks := fun _ => none
  inflight := fun _ => none
  tasks := fun _ => none
  nextTask := 0

inductive Exc where
  /-- `PermissionError` -/
  | permission
  /-- `asyncio.CancelledError` -/
  | cancelled
  /-- the process's own upstream call raised -/
  | upstream
  /-- any other exception -/
  | error
deriving DecidableEq

namespace Shared

def setTask (σ : Shared ι) (t : ℕ) (x : TaskState) : Shared ι :=
  match σ.tasks t with
  | some ct => { σ with tasks := Function.update σ.tasks t (some { ct with state := x }) }
  | none => σ

/-- `task.cancel()`: a finished task is left as it is. -/
def cancelTask (σ : Shared ι) (t : ℕ) : Shared ι :=
  match σ.tasks t with
  | some ⟨_, .pending⟩ => σ.setTask t .cancelling
  | _ => σ

/-- `if self._inflight_session_creates.get(cache_key) is task: … .pop(cache_key)` -/
def popInflight (σ : Shared ι) (k : Key) (t : ℕ) : Shared ι :=
  if σ.inflight k = some t then { σ with inflight := Function.update σ.inflight k none }
  else σ

/-- The in-flight task of the key, started now if there is none. -/
def inflightOrCreate (σ : Shared ι) (k : Key) : Shared ι × ℕ :=
  match σ.inflight k with
  | some t => (σ, t)
  | none =>
      ({ σ with
          inflight := Function.update σ.inflight k (some σ.nextTask)
          tasks := Function.update σ.tasks σ.nextTask (some ⟨k, .pending⟩)
          nextTask := σ.nextTask + 1 }, σ.nextTask)

end Shared

/-! ## §2  The calls and their awaits -/

/-- `claim_preferred_session` -/
inductive ClaimPc where
  | lock
  | owner
  | pending (owner : Option Identity)
  | write
deriving DecidableEq

/-- `finalize_session_claim` -/
inductive FinalizePc where
  | lock
  | owner
  | pending (owner : Option Identity)
  | write
  | clear
deriving DecidableEq

/-- `release_preferred_session_claim` -/
inductive ReleasePc where
  | lock
  | clear
deriving DecidableEq

/-- `async with context_lock: await … set_session(…)`, the tail of
`get_or_create_session` with a preferred session and of
`finalize_preferred_session_binding`. -/
inductive BindPc where
  | lock
  | write
deriving DecidableEq

/-- `get_or_create_session` without a preferred session. -/
inductive CreatePc where
  | lock
  | read
  | task (t : ℕ)
  | relock (t : ℕ) (s : SessionId)
  | ownLock (t : ℕ) (s : SessionId)
  | owner (t : ℕ) (s : SessionId)
  | bind (t : ℕ) (s : SessionId) (owner : Option Identity)
  | own (t : ℕ) (s : SessionId)
deriving DecidableEq

/-- `pop_cached_session` -/
inductive PopPc where
  | lock
  | pop
deriving DecidableEq

inductive Call where
  | claim (s : SessionId) (pc : ClaimPc)
  | finalize (s : SessionId) (pc : FinalizePc)
  | release (s : SessionId) (pc : ReleasePc)
  | bind (c : ContextId) (s : SessionId) (pc : BindPc)
  | create (c : ContextId) (pc : CreatePc)
  | pop (c : ContextId) (pc : PopPc)
deriving DecidableEq

inductive Await where
  | ownLock (s : SessionId)
  | ctxLock (k : Key)
  | repo (op : RepoOp)
  | task (t : ℕ)
deriving DecidableEq

/-- The await at which a call of identity `a` is suspended. -/
def Call.await (a : Identity) : Call → Await
  | .claim s .lock => .ownLock s
  | .claim s .owner => .repo (.getOwner s)
  | .claim s (.pending _) => .repo (.getPendingClaim s)
  | .claim s .write => .repo (.setPendingClaim s a)
  | .finalize s .lock => .ownLock s
  | .finalize s .owner => .repo (.getOwner s)
  | .finalize s (.pending _) => .repo (.getPendingClaim s)
  | .finalize s .write => .repo (.setOwner s a)
  | .finalize s .clear => .repo (.clearPendingClaim s a)
  | .release s .lock => .ownLock s
  | .release s .clear => .repo (.clearPendingClaim s a)
  | .bind c _ .lock => .ctxLock (a, c)
  | .bind c s .write => .repo (.setSession (a, c) s)
  | .create c .lock => .ctxLock (a, c)
  | .create c .read => .repo (.getSession (a, c))
  | .create _ (.task t) => .task t
  | .create c (.relock _ _) => .ctxLock (a, c)
  | .create _ (.ownLock _ s) => .ownLock s
  | .create _ (.owner _ s) => .repo (.getOwner s)
  | .create c (.bind _ s _) => .repo (.setSession (a, c) s)
  | .create _ (.own _ s) => .repo (.setOwner s a)
  | .pop c .lock => .ctxLock (a, c)
  | .pop c .pop => .repo (.popSession (a, c))

/-- The session whose ownership lock a suspended call holds. -/
def Call.ownLock : Call → Option SessionId
  | .claim _ .lock => none
  | .claim s _ => some s
  | .finalize _ .lock => none
  | .finalize s _ => some s
  | .release _ .lock => none
  | .release s .clear => some s
  | .create _ (.owner _ s) => some s
  | .create _ (.bind _ s _) => some s
  | .create _ (.own _ s) => some s
  | _ => none

/-- The key whose context lock a suspended call of identity `a` holds. -/
def Call.ctxLock (a : Identity) : Call → Option Key
  | .bind c _ .write => some (a, c)
  | .create c .read => some (a, c)
  | .create c (.ownLock _ _) => some (a, c)
  | .create c (.owner _ _) => some (a, c)
  | .create c (.bind _ _ _) => some (a, c)
  | .create c (.own _ _) => some (a, c)
  | .pop c .pop => some (a, c)
  | _ => none

/-! ## §3  The code between two awaits -/

inductive Value where
  | unit
  | claimed (pending : Bool)
  | session (s : SessionId)
  | task (t : Option ℕ)
deriving DecidableEq

inductive Outcome where
  | next (c : Call)
  | returned (v : Value)
  | raised (e : Exc)
deriving DecidableEq

def Outcome.ownLock : Outcome → Option SessionId
  | .next c => c.ownLock
  | _ => none

def Outcome.ctxLock (a : Identity) : Outcome → Option Key
  | .next c => c.ctxLock a
  | _ => none

/-- `if owner and owner != identity: raise PermissionError`, for owners and
pending owners alike. -/
def foreign (a : Identity) (o : Option Identity) : Bool :=
  match o with
  | some b => decide (b ≠ a)
  | none => false

/-- The code from the completion of the await to the next await. -/
def Call.resume (a : Identity) (σ : Shared ι) : Call → Reply → Shared ι × Outcome
  | .claim s .lock, _ => (σ, .next (.claim s .owner))
  | .claim s .owner, .identity o => (σ, .next (.claim s (.pending o)))
  | .claim s (.pending o), .identity q =>
      if foreign a o then (σ, .raised .permission)
      else if foreign a q then (σ, .raised .permission)
      else if o = some a then (σ, .returned (.claimed false))
      else (σ, .next (.claim s .write))
  | .claim _ .write, _ => (σ, .returned (.claimed true))
  | .finalize s .lock, _ => (σ, .next (.finalize s .owner))
  | .finalize s .owner, .identity o => (σ, .next (.finalize s (.pending o)))
  | .finalize s (.pending o), .identity q =>
      if foreign a o then (σ, .raised .permission)
      else if foreign a q then (σ, .raised .permission)
      else (σ, .next (.finalize s .write))
  | .finalize s .write, _ => (σ, .next (.finalize s .clear))
  | .finalize _ .clear, _ => (σ, .returned .unit)
  | .release s .lock, _ => (σ, .next (.release s .clear))
  | .release _ .clear, _ => (σ, .returned .unit)
  | .bind c s .lock, _ => (σ, .next (.bind c s .write))
  | .bind _ s .write, _ => (σ, .returned (.session s))
  | .create c .lock, _ => (σ, .next (.create c .read))
  | .create _ .read, .session (some s) => (σ, .returned (.session s))
  | .create c .read, .session none =>
      let (σ₁, t) := σ.inflightOrCreate (a, c)
      (σ₁, .next (.create c (.task t)))
  | .create c (.task t), .taskDone s => (σ, .next (.create c (.relock t s)))
  | .create c (.task t), .taskFailed => (σ.popInflight (a, c) t, .raised .error)
  | .create _ (.task _), .taskCancelled => (σ, .raised .cancelled)
  | .create c (.relock t s), _ => (σ, .next (.create c (.ownLock t s)))
  | .create c (.ownLock t s), _ => (σ, .next (.create c (.owner t s)))
  | .create c (.owner t s), .identity o =>
      if foreign a o then (σ.popInflight (a, c) t, .raised .permission)
      else (σ, .next (.create c (.bind t s o)))
  | .create c (.bind t s o), _ =>
      if o = none then (σ, .next (.create c (.own t s)))
      else (σ.popInflight (a, c) t, .returned (.session s))
  | .create c (.own t s), _ => (σ.popInflight (a, c) t, .returned (.session s))
  | .pop c .lock, _ => (σ, .next (.pop c .pop))
  | .pop c .pop, _ =>
      ({ σ with inflight := Function.update σ.inflight (a, c) none },
        .returned (.task (σ.inflight (a, c))))
  -- no await gives such a reply
  | _, _ => (σ, .raised .error)

/-! ## §4  Steps and exceptions -/

def Shared.perform (σ : Shared ι) (op : RepoOp) : Shared ι :=
  { σ with repo := (op.perform σ.ttl σ.now σ.repo).1 }

/-- Complete an await, if it can complete now. -/
def Shared.complete (σ : Shared ι) (p : ι) : Await → Option (Shared ι × Reply)
  | .ownLock s =>
      if σ.ownLocks s = none then
        some ({ σ with ownLocks := LockTable.enter σ.ownLocks s p }, .unit)
      else none
  | .ctxLock k =>
      if σ.ctxLocks k = none then
        some ({ σ with ctxLocks := LockTable.enter σ.ctxLocks k p }, .unit)
      else none
  | .repo op => some (σ.perform op, (op.perform σ.ttl σ.now σ.repo).2)
  | .task t =>
      match σ.tasks t with
      | some ⟨_, .done s⟩ => some (σ, .taskDone s)
      | some ⟨_, .failed⟩ => some (σ, .taskFailed)
      | some ⟨_, .cancelled⟩ => some (σ, .taskCancelled)
      | _ => none

/-- Leave the `async with` blocks that `c` was in and the outcome is not. -/
def Shared.unlock (σ : Shared ι) (a : Identity) (c : Call) (o : Outcome) : Shared ι :=
  { σ with
    ownLocks := LockTable.leave σ.ownLocks c.ownLock o.ownLock
    ctxLocks := LockTable.leave σ.ctxLocks (c.ctxLock a) (o.ctxLock a) }

/-- The call's await completes and the code runs to the next one. -/
def Call.step (σ : Shared ι) (p : ι) (a : Identity) (c : Call) :
    Option (Shared ι × Outcome) :=
  match σ.complete p (c.await a) with
  | some (σ₁, r) =>
      let (σ₂, o) := c.resume a σ₁ r
      some (σ₂.unlock a c o, o)
  | none => none

/-- The exception `e` is raised at the call's await. A repository operation
that is cut short either took effect or did not. Only cancellation can come out
of a lock's `acquire`, and cancelling a caller that awaits an unfinished
creation cancels the creation, whose `CancelledError` then reaches the caller. -/
def Call.interrupt (σ : Shared ι) (a : Identity) (c : Call) (e : Exc) (applied : Bool) :
    Option (Shared ι × Outcome) :=
  match c.await a with
  | .ownLock _ | .ctxLock _ =>
      if e = .cancelled then some (σ.unlock a c (.raised e), .raised e) else none
  | .repo op =>
      if e = .cancelled ∨ e = .error then
        let σ₁ := if applied then σ.perform op else σ
        some (σ₁.unlock a c (.raised e), .raised e)
      else none
  | .task t =>
      if e = .cancelled then
        match σ.tasks t with
        | some ⟨_, .pending⟩ | some ⟨_, .cancelling⟩ => some (σ.cancelTask t, .next c)
        | _ => some (σ, .raised .cancelled)
      else none

end OpencodeA2a.Session
