import OpencodeA2a.Library.Machine
import OpencodeA2a.Session.Manager

/-!
# Who calls the session manager

A process is one asyncio task with an identity and a script: a bare call of the
session manager, an executor run (`ExecutionCoordinator.run`), a JSON-RPC
operation under `SessionClaimGuard`, or `executor.cancel`. Any number of them
run side by side; a step of the system is a step of one process, an answer from
upstream, an exception at an await, or the clock.
-/

namespace OpencodeA2a.Session

/-! ## §1  Scripts -/

inductive Script (ι : Type) where
  /-- `get_or_create_session` on its own -/
  | getOrCreate (c : ContextId) (preferred : Option SessionId)
  /-- `claim_preferred_session` on its own -/
  | claim (s : SessionId)
  /-- `finalize_preferred_session_binding` on its own -/
  | finalizeBinding (c : ContextId) (s : SessionId)
  /-- `finalize_session_claim` on its own -/
  | finalize (s : SessionId)
  /-- `release_preferred_session_claim` on its own -/
  | release (s : SessionId)
  /-- `pop_cached_session` on its own -/
  | pop (c : ContextId)
  /-- an executor run -/
  | chat (c : ContextId) (preferred : Option SessionId)
  /-- a session-control or mutating session-lifecycle request; `fork` marks the
  fork method, which finalises the forked session too -/
  | guarded (s : SessionId) (fork : Bool)
  /-- `executor.cancel`, with the binding context it looks up and the running
  task it finds, if any -/
  | cancel (c : ContextId) (target : Option ι)
deriving DecidableEq

/-- Where the result of the current call goes. -/
inductive Cont where
  | claimed
  | bound
  | created
  | finalized
  | rebound
  | forked
  | released
  | popped
deriving DecidableEq

inductive Result where
  | returned (v : Value)
  /-- `get_or_create_session` returned the session and the pending flag -/
  | session (s : SessionId) (pending : Bool)
  | failed (e : Exc)
deriving DecidableEq

inductive Stage where
  | running (c : Call) (k : Cont)
  /-- `await` of the process's own upstream call -/
  | upstream
  /-- an executor run between a successful turn and its next turn or its end -/
  | working
  /-- `executor.cancel` awaiting `abort_session`, with the creation it popped -/
  | aborting (t : Option ℕ)
  | ended (r : Result)
deriving DecidableEq

structure Proc (ι : Type) where
  identity : Identity
  script : Script ι
  stage : Stage
  /-- `_session_id` once the run is bound -/
  session : Option SessionId := none
  /-- `_pending_preferred_claim`; for the guard, `_pending and not _finalized` -/
  pending : Bool := false
  /-- the session `fork_session` returned -/
  fork : Option SessionId := none
  /-- whether the process's own upstream call has returned -/
  answered : Bool := false
  /-- the exception that is propagating while the claim is released -/
  failure : Exc := .error
  /-- whether `task.cancel()` was called on the process -/
  cancelled : Bool := false
  /-- whether a claim of its own was granted to the process -/
  granted : Bool := false
  /-- whether the process has cleared its claim, by a release or a finalisation -/
  cleared : Bool := false
  /-- since when its own claim stands: granted, not yet finalised or cleared -/
  standing : Option (SessionId × Int) := none

variable {ι : Type}

def Script.start : Script ι → Stage
  | .getOrCreate _ (some s) => .running (.claim s .lock) .claimed
  | .getOrCreate c none => .running (.create c .lock) .created
  | .claim s => .running (.claim s .lock) .claimed
  | .finalizeBinding _ s => .running (.finalize s .lock) .finalized
  | .finalize s => .running (.finalize s .lock) .finalized
  | .release s => .running (.release s .lock) .released
  | .pop c => .running (.pop c .lock) .popped
  | .chat _ (some s) => .running (.claim s .lock) .claimed
  | .chat c none => .running (.create c .lock) .created
  | .guarded s _ => .running (.claim s .lock) .claimed
  | .cancel c _ => .running (.pop c .lock) .popped

def Proc.spawn (a : Identity) (script : Script ι) : Proc ι :=
  { identity := a, script := script, stage := script.start }

/-! ## §2  What a process does with a result -/

namespace Proc

/-- `get_or_create_session` returned `(s, pending)`. -/
def bound (pr : Proc ι) (s : SessionId) (pending : Bool) : Proc ι :=
  match pr.script with
  | .chat _ _ => { pr with session := some s, pending := pending, stage := .upstream }
  | _ => { pr with session := some s, stage := .ended (.session s pending) }

/-- The claim of a preferred session was granted (`true`) or found owned. -/
def claimed (pr : Proc ι) (b : Bool) : Proc ι :=
  match pr.script with
  | .getOrCreate c (some s) | .chat c (some s) =>
      if b then pr.bound s true else { pr with stage := .running (.bind c s .lock) .bound }
  | .guarded s _ => { pr with session := some s, pending := b, stage := .upstream }
  | _ => { pr with stage := .ended (.returned (.claimed b)) }

/-- `__aexit__` and `_cleanup`: a pending claim is released, then the exception
goes on. -/
def fail (pr : Proc ι) (e : Exc) : Proc ι :=
  match pr.pending, pr.session with
  | true, some s => { pr with failure := e, stage := .running (.release s .lock) .released }
  | _, _ => { pr with stage := .ended (.failed e) }

/-- The guard's own finalisation is over; a fork finalises its new session. -/
def guardFinalized (pr : Proc ι) : Proc ι :=
  match pr.fork with
  | some s' => { pr with stage := .running (.finalize s' .lock) .forked }
  | none => { pr with stage := .ended (.returned .unit) }

/-- The process's own upstream call returned. -/
def answer (pr : Proc ι) (fork : Option SessionId) : Proc ι :=
  match pr.script, pr.session with
  | .chat _ _, some s =>
      if pr.pending then
        { pr with answered := true, stage := .running (.finalize s .lock) .finalized }
      else { pr with answered := true, stage := .working }
  | .guarded _ isFork, some s =>
      let pr₁ := { pr with answered := true, fork := if isFork then fork else none }
      if pr.pending then { pr₁ with stage := .running (.finalize s .lock) .finalized }
      else pr₁.guardFinalized
  | _, _ => pr

/-- `finalize_session_claim` returned. -/
def finalized (pr : Proc ι) : Proc ι :=
  match pr.script, pr.session with
  | .chat c _, some s => { pr with stage := .running (.bind c s .lock) .rebound }
  | .finalizeBinding c s, _ => { pr with stage := .running (.bind c s .lock) .rebound }
  | .guarded _ _, _ => { pr with pending := false }.guardFinalized
  | _, _ => { pr with stage := .ended (.returned .unit) }

/-- The current call returned. -/
def returned (pr : Proc ι) (k : Cont) (v : Value) : Proc ι :=
  match k, v with
  | .claimed, .claimed b => pr.claimed b
  | .bound, .session s => pr.bound s false
  | .created, .session s => pr.bound s false
  | .finalized, _ => pr.finalized
  | .rebound, _ =>
      match pr.script with
      | .chat _ _ => { pr with pending := false, stage := .working }
      | _ => { pr with stage := .ended (.returned .unit) }
  | .forked, _ => { pr with stage := .ended (.returned .unit) }
  | .released, _ =>
      match pr.script with
      | .release _ => { pr with stage := .ended (.returned .unit) }
      | _ => { pr with stage := .ended (.failed pr.failure) }
  | .popped, .task t =>
      match pr.script with
      | .cancel _ _ => { pr with stage := .aborting t }
      | _ => { pr with stage := .ended (.returned (.task t)) }
  | _, v => { pr with stage := .ended (.returned v) }

/-- The current call raised. A failing release is suppressed or logged and the
first exception goes on, unless the release itself was cancelled. -/
def raised (pr : Proc ι) (k : Cont) (e : Exc) : Proc ι :=
  match k, pr.script with
  | .finalized, .chat _ _ | .rebound, .chat _ _ | .finalized, .guarded _ _ => pr.fail e
  | .released, .chat _ _ | .released, .guarded _ _ =>
      if e = .cancelled then { pr with stage := .ended (.failed .cancelled) }
      else { pr with stage := .ended (.failed pr.failure) }
  | _, _ => { pr with stage := .ended (.failed e) }

def next (pr : Proc ι) (k : Cont) : Outcome → Proc ι
  | .next c => { pr with stage := .running c k }
  | .returned v => pr.returned k v
  | .raised e => pr.raised k e

/-- Keep the record of the process's own claim: `done` says that the repository
operation at `c`'s await took effect, `o` how the call went on. -/
def track (pr : Proc ι) (now : Int) (c : Call) (done : Bool) (o : Outcome) : Proc ι :=
  match c, done, o with
  | .claim s .write, _, .returned (.claimed true) =>
      { pr with granted := true, standing := some (s, now) }
  | .finalize _ .write, true, _ => { pr with standing := none }
  | .finalize _ .clear, true, _ => { pr with cleared := true, standing := none }
  | .release _ .clear, true, _ => { pr with cleared := true, standing := none }
  | _, _, _ => pr

end Proc

/-! ## §3  The system -/

structure State (ι : Type) where
  shared : Shared ι
  procs : ι → Option (Proc ι)

def State.initial (ι : Type) (repo : Repository) (ttl : Int) : State ι where
  shared := Shared.initial ι repo ttl
  procs := fun _ => none

inductive Action (ι : Type) where
  /-- a new process starts -/
  | spawn (p : ι) (a : Identity) (script : Script ι)
  /-- the call of `p` completes its await -/
  | step (p : ι)
  /-- an exception is raised at the await of `p`'s call -/
  | interrupt (p : ι) (e : Exc) (applied : Bool)
  /-- upstream answers `p`; for a fork, with the new session -/
  | answer (p : ι) (fork : Option SessionId)
  /-- `p`'s upstream call, or the code around it, raises -/
  | fail (p : ι) (e : Exc)
  /-- an executor run goes on to another turn -/
  | turn (p : ι)
  /-- an executor run is done -/
  | finish (p : ι)
  /-- `abort_session` is over: `running_task.cancel()`, then `inflight.cancel()` -/
  | abort (p : ι)
  /-- upstream's `create_session` returned -/
  | taskReturn (t : ℕ) (s : SessionId)
  | taskFail (t : ℕ)
  /-- a cancelled creation has stopped -/
  | taskStop (t : ℕ)
  | tick (d : ℕ)

variable [DecidableEq ι]

namespace State

def setProc (st : State ι) (p : ι) (pr : Proc ι) : State ι :=
  { st with procs := Function.update st.procs p (some pr) }

/-- `running_task.cancel()` on a caller that awaits an unfinished creation
cancels the creation; elsewhere the `CancelledError` comes with an `interrupt`. -/
def cancelProc (st : State ι) (q : ι) : State ι :=
  match st.procs q with
  | some pr =>
      let st₁ := st.setProc q { pr with cancelled := true }
      match pr.stage with
      | .running (.create _ (.task t)) _ => { st₁ with shared := st₁.shared.cancelTask t }
      | _ => st₁
  | none => st

def cancelTask (st : State ι) (t : Option ℕ) : State ι :=
  match t with
  | some t => { st with shared := st.shared.cancelTask t }
  | none => st

def setTaskOf (st : State ι) (t : ℕ) (frm next : TaskState) : Option (State ι) :=
  match st.shared.tasks t with
  | some ct =>
      if ct.state = frm then some { st with shared := st.shared.setTask t next } else none
  | none => none

def step (st : State ι) : Action ι → Option (State ι)
  | .spawn p a script =>
      match st.procs p with
      | none => some (st.setProc p (Proc.spawn a script))
      | some _ => none
  | .step p =>
      match st.procs p with
      | some pr =>
          match pr.stage with
          | .running c k =>
              match c.step st.shared p pr.identity with
              | some (σ, o) =>
                  some { shared := σ
                         procs := Function.update st.procs p
                           (some ((pr.track st.shared.now c true o).next k o)) }
              | none => none
          | _ => none
      | none => none
  | .interrupt p e applied =>
      match st.procs p with
      | some pr =>
          match pr.stage with
          | .running c k =>
              match c.interrupt st.shared pr.identity e applied with
              | some (σ, o) =>
                  let pr₁ := if e = .cancelled then { pr with cancelled := true } else pr
                  some { shared := σ
                         procs := Function.update st.procs p
                           (some ((pr₁.track st.shared.now c applied o).next k o)) }
              | none => none
          | _ => none
      | none => none
  | .answer p fork =>
      match st.procs p with
      | some pr => if pr.stage = .upstream then some (st.setProc p (pr.answer fork)) else none
      | none => none
  | .fail p e =>
      match st.procs p with
      | some pr =>
          if pr.stage = .upstream ∧ e ≠ .permission ∨
              pr.stage = .working ∧ (e = .error ∨ e = .cancelled) then
            some (st.setProc p
              ({ pr with cancelled := pr.cancelled || decide (e = Exc.cancelled) }.fail e))
          else none
      | none => none
  | .turn p =>
      match st.procs p with
      | some pr =>
          if pr.stage = .working then some (st.setProc p { pr with stage := .upstream })
          else none
      | none => none
  | .finish p =>
      match st.procs p with
      | some pr =>
          if pr.stage = .working then
            some (st.setProc p { pr with stage := .ended (.returned .unit) })
          else none
      | none => none
  | .abort p =>
      match st.procs p with
      | some pr =>
          match pr.script, pr.stage with
          | .cancel _ target, .aborting t =>
              let st₁ := st.setProc p { pr with stage := .ended (.returned .unit) }
              let st₂ :=
                match target with
                | some q => st₁.cancelProc q
                | none => st₁
              some (st₂.cancelTask t)
          | _, _ => none
      | none => none
  | .taskReturn t s => st.setTaskOf t .pending (.done s)
  | .taskFail t => st.setTaskOf t .pending .failed
  | .taskStop t => st.setTaskOf t .cancelling .cancelled
  | .tick d => some { st with shared := { st.shared with now := st.shared.now + d } }

end State

/-- The states some interleaving leads to in a server process that started on
the database `repo`. -/
def Reachable (repo : Repository) (ttl : Int) (st : State ι) : Prop :=
  Machine.Reachable State.step (State.initial ι repo ttl) st

end OpencodeA2a.Session
