import OpencodeA2a.Execution.Lock

/-!
# Cancel calls beside the runs

Any number of runs and of calls of `executor.cancel`, which meet in the executor's
registries. A call copies the registration of its task, awaits the session manager, and only
then decides whether to abort the session upstream: what it copied may be out of date.
-/

namespace OpencodeA2a.Execution

open OpencodeA2a.Stream

/-! ## §1  The executor -/

/-- `(task_id, context_id)` -/
abbrev ExecutionKey := Text × Text

def PreparedExecution.key (prepared : PreparedExecution) : ExecutionKey :=
  (prepared.taskId, prepared.contextId)

def Member.key (m : Member) : ExecutionKey := m.run.prepared.key

/-- Where a call of `cancel` awaits. -/
inductive CallStage where
  /-- enqueues the canceled status -/
  | publishing
  /-- reads the registries under `_lock` -/
  | looking
  /-- `pop_cached_session`, with the `running_task` and the `running_session_id` it found -/
  | popping (task : Option ℕ) (session : Option Text)
  /-- `abort_session` -/
  | aborting (task : ℕ) (session : Text)
  /-- enqueues its own error -/
  | failing
  | done

structure CancelCall where
  key : ExecutionKey
  /-- the run in whose task the call is made, if there is one -/
  caller : Option ℕ
  stage : CallStage := .publishing

structure Executor where
  system : System := {}
  /-- `_running_requests`, with `_running_stop_events`: both are written together -/
  runningRequests : ExecutionKey → Option ℕ := fun _ => none
  runningSessionIds : ExecutionKey → Option Text := fun _ => none
  cancels : List CancelCall := []

inductive ExecutorAction where
  | system (a : SystemAction)
  | cancel (key : ExecutionKey) (caller : Option ℕ)
  /-- a call goes on with what it awaited -/
  | call (c : ℕ) (a : Run.CancelAnswer)

/-- `_cleanup` from the check of the session lock to its end. Nothing is awaited there: no one
keeps `_lock` across an await. -/
def Run.finish (r : Run) : Run :=
  { r with holding := false, registered := false, recorded := false, stage := .ended }

/-- The release with which `finish` begins, and what follows it. -/
def System.finish (S : System) (i : ℕ) (m : Member) : System where
  members := S.members.set i { m with run := m.run.finish }
  locks :=
    match m.lock with
    | none => S.locks
    | some s =>
        Function.update S.locks s
          (if (S.locks s).locked then (S.locks s).release else S.locks s)

namespace Executor

variable (E : Executor)

/-- The registries follow the `i`-th run, which has come from `m` to `m'`. -/
def moved (i : ℕ) (m m' : Member) : Executor :=
  match m'.run.stage with
  | .checking =>
      { E with
        system := E.system.finish i m'
        runningRequests := Function.update E.runningRequests m'.key none
        runningSessionIds := Function.update E.runningSessionIds m'.key none }
  | _ =>
      { E with
        runningRequests :=
          if m'.run.registered && !m.run.registered then
            Function.update E.runningRequests m'.key (some i)
          else E.runningRequests
        runningSessionIds :=
          if m'.run.recorded && !m.run.recorded then
            Function.update E.runningSessionIds m'.key (some m'.run.session)
          else E.runningSessionIds }

/-- The `i`-th run moves. -/
def moveRun (i : ℕ) (a : SystemAction) : Option Executor :=
  E.system.members[i]?.bind fun m =>
    (E.system.step a).bind fun S =>
      S.members[i]?.map fun m' => { E with system := S }.moved i m m'

def stepSystem : SystemAction → Option Executor
  | .act _ (.cancelStep _) => none
  | .act i a => E.moveRun i (.act i a)
  | .raises i e caught => E.moveRun i (.raises i e caught)
  | a => (E.system.step a).map fun S => { E with system := S }

/-- `stop_event.set()` -/
def stopRun (i : ℕ) : Executor :=
  { E with system := { E.system with
      members := E.system.members.modify i fun m => { m with run := { m.run with stop := true } } } }

/-- `running_task.cancel()`, which a task that is done ignores -/
def hitRun (i : ℕ) : Executor := (E.stepSystem (.act i .cancel)).getD E

def goto (c : ℕ) (call : CancelCall) (stage : CallStage) : Executor :=
  { E with cancels := E.cancels.set c { call with stage := stage } }

/-- `should_cancel_running_task`, for a task that was found -/
def cancellable (i : ℕ) (caller : Option ℕ) : Bool :=
  caller ≠ some i && E.system.members[i]?.any fun m => m.run.alive

/-- What follows `pop_cached_session`. -/
def afterPop (c : ℕ) (call : CancelCall) : Option ℕ → Option Text → Executor
  | none, _ => E.goto c call .done
  | some i, session =>
      let E := E.stopRun i
      if E.cancellable i call.caller then
        match session with
        | some (x :: s) => E.goto c call (.aborting i (x :: s))
        | _ => (E.hitRun i).goto c call .done
      else E.goto c call .done

def callStep (c : ℕ) (call : CancelCall) (a : Run.CancelAnswer) : Option Executor :=
  match call.stage, a with
  | .publishing, .ok => some (E.goto c call .looking)
  | .looking, .ok =>
      some (E.goto c call (.popping (E.runningRequests call.key) (E.runningSessionIds call.key)))
  | .popping task session, .ok => some (E.afterPop c call task session)
  | .aborting i _, .ok => some ((E.hitRun i).goto c call .done)
  | .publishing, .failed _ | .popping _ _, .failed _ | .aborting _ _, .failed _ =>
      some (E.goto c call .failing)
  | .failing, .ok => some (E.goto c call .done)
  | .publishing, .gone | .looking, .gone | .popping _ _, .gone | .aborting _ _, .gone
  | .failing, .gone => some (E.goto c call .done)
  | _, _ => none

def step : ExecutorAction → Option Executor
  | .system a => E.stepSystem a
  | .cancel key caller =>
      some { E with cancels := E.cancels ++ [{ key := key, caller := caller }] }
  | .call c a => E.cancels[c]?.bind fun call => E.callStep c call a

end Executor

/-- Neither running nor in a registry. -/
def Run.over (r : Run) : Bool := !r.alive && !r.registered && !r.recorded

/-- One run per task: a task is run again at most when its run and the cleanup are over. -/
def Executor.admits (E : Executor) : ExecutorAction → Prop
  | .system (.start prepared) =>
      ∀ m ∈ E.system.members, m.key = prepared.key → m.run.over = true
  | _ => True

/-- A call, the `c`-th, sends the abort of a session to the upstream. -/
def Executor.Aborts (E E' : Executor) (c : ℕ) (key : ExecutionKey) (i : ℕ) (s : Text) : Prop :=
  (∃ caller, E'.cancels[c]? = some ⟨key, caller, .aborting i s⟩) ∧
    ∀ caller, E.cancels[c]? ≠ some ⟨key, caller, .aborting i s⟩

/-! ## §2  What a run has in the registries -/

variable {r r' : Run} {m m' : Member}

/-- The registries are not written, and the run does not come to clear them. -/
structure Run.SameEntries (r r' : Run) : Prop where
  prepared : r'.prepared = r.prepared
  registered : r'.registered = r.registered
  recorded : r'.recorded = r.recorded
  stage : r'.stage ≠ .unregistering

namespace Run

theorem sameEntries_emitError (r : Run) (b : Bool) (e : ErrorReport) :
    r.SameEntries (r.emitError b e) := by
  cases b <;> exact ⟨rfl, rfl, rfl, nofun⟩

theorem sameEntries_handleSignal (r : Run) (response : OpencodeMessage) (signal : TerminalSignal) :
    r.SameEntries (r.handleSignal response signal) := by
  unfold handleSignal
  split
  · exact sameEntries_emitError r _ _
  · split
    · exact sameEntries_emitError r _ _
    · unfold complete
      simp only
      split <;> exact ⟨rfl, rfl, rfl, nofun⟩

theorem sameEntries_handleResponse (r : Run) (response : OpencodeMessage) :
    r.SameEntries (r.handleResponse response) := by
  unfold handleResponse
  simp only
  split
  · have h := sameEntries_emitError { r with
      handled := some response, usage := r.resolvedTokenUsage response }
    exact ⟨(h _ _).prepared, (h _ _).registered, (h _ _).recorded, (h _ _).stage⟩
  · split <;> exact ⟨rfl, rfl, rfl, nofun⟩

theorem sameEntries_stopConsumer (r : Run) : r.SameEntries r.stopConsumer := by
  unfold stopConsumer
  split <;> exact ⟨rfl, rfl, rfl, nofun⟩

theorem sameEntries_cleanup (r : Run) : r.SameEntries r.cleanup := by
  unfold cleanup
  split
  · exact ⟨rfl, rfl, rfl, nofun⟩
  · exact sameEntries_stopConsumer r

theorem sameEntries_thrown (r : Run) : r.SameEntries r.thrown := by
  unfold thrown
  simp only
  split
  · exact ⟨rfl, rfl, rfl, nofun⟩
  · exact ⟨rfl, rfl, rfl, nofun⟩
  · exact ⟨rfl, rfl, rfl, nofun⟩
  · have h := sameEntries_cleanup { r with cancelRequested := false }
    exact ⟨h.prepared, h.registered, h.recorded, h.stage⟩

theorem sameEntries_raises {e : Failure} {caught : Bool} (h : r.raises e caught = some r') :
    r.SameEntries r' := by
  unfold Run.raises at h
  split at h
  case h_4 =>
      cases h
      split
      · exact sameEntries_emitError r _ _
      · exact sameEntries_cleanup r
  case h_1 | h_2 | h_3 =>
      cases h
      exact sameEntries_emitError r _ _
  case h_8 => cases h
  all_goals
    cases h
    exact ⟨rfl, rfl, rfl, nofun⟩

end Run

/-- A move, as far as the registries are concerned. -/
inductive Run.Enters (r r' : Run) : Prop
  | same (h : r.SameEntries r')
  | registers (hstage : r.stage = .registering)
      (heq : r' = { r with registered := true, stage := .binding })
  | records (hstage : r.stage = .recording) (hprepared : r'.prepared = r.prepared)
      (hregistered : r'.registered = r.registered) (hrecorded : r'.recorded = true)
      (hstage' : r'.stage ≠ .unregistering)

theorem Run.enters_of_step {a : Answer} (hchecking : r.stage ≠ .checking)
    (hunregistering : r.stage ≠ .unregistering) (h : r.step a = some r') : r.Enters r' := by
  rcases Run.step_cases h with ⟨-, -, rfl⟩ | ⟨-, hresumes⟩
  · exact .same (Run.sameEntries_thrown r)
  · generalize hs : r.stage = stage at hresumes hchecking hunregistering
    cases hresumes with
    | register => exact .registers hs rfl
    | record =>
        unfold Run.afterRecording
        split <;> split <;> exact .records hs rfl rfl rfl nofun
    | respond response =>
        refine .same ⟨rfl, rfl, rfl, ?_⟩
        show (if r.pending then Stage.finalizing response else .tools response) ≠ _
        split <;> exact nofun
    | handle response => exact .same (Run.sameEntries_handleResponse r response)
    | signal response signal => exact .same (Run.sameEntries_handleSignal r response signal)
    | noSignal | fail => exact .same (Run.sameEntries_emitError r _ _)
    | emitLast e =>
        have h := Run.sameEntries_cleanup (r.put .run e)
        exact .same ⟨h.prepared, h.registered, h.recorded, h.stage⟩
    | release => exact .same (Run.sameEntries_stopConsumer r)
    | check => exact absurd rfl hchecking
    | unregister => exact absurd rfl hunregistering
    | bind | lock | acquireAtOnce | wait | acquire | snapshot | finalize | turn | emit | stop =>
        exact .same ⟨rfl, rfl, rfl, nofun⟩

theorem Run.enters_of_act {a : RunAction} (ha : ∀ c, a ≠ .cancelStep c)
    (hchecking : r.stage ≠ .checking) (hunregistering : r.stage ≠ .unregistering)
    (h : r.act a = some r') : r.Enters r' := by
  rcases Run.act_cases h with ⟨answer, -, hstep⟩ | ⟨c, -, hc⟩ | ⟨-, -, rfl⟩ | ⟨c, hcancel, -⟩
  · exact Run.enters_of_step hchecking hunregistering hstep
  · have hsame := hc.same
    exact .same ⟨hsame.prepared, hsame.registered, hsame.recorded, hsame.stage ▸ hunregistering⟩
  · exact .same ⟨rfl, rfl, rfl, hunregistering⟩
  · exact absurd hcancel (ha c)

/-! ## §3  A member between two awaits -/

/-- A run whose session is recorded holds the session's lock, until it ends. -/
structure Member.Settled (m : Member) : Prop where
  placed : m.Placed
  zone : m.run.recorded = true → m.run.stage.zone = .working ∨ m.run.stage.zone = .leaving
  holding : m.run.recorded = true → m.run.alive = true → m.run.holding = true
  stage : m.run.stage ≠ .unregistering

/-- What the registries go by, over a move of one member. -/
structure Member.Goes (m m' : Member) : Prop where
  settled : m'.Settled
  key : m'.key = m.key
  finished : m.run.over = true → m'.run.over = true
  alive : m'.run.alive = true → m.run.alive = true
  registered : m.run.registered = true → m'.run.registered = true
  recorded : m.run.recorded = true → m'.run.recorded = true
  session : (m.run.alive = true → m.run.recorded = true) → m'.run.session = m.run.session

theorem Run.alive_iff : r.alive = true ↔ r.stage ≠ .ended := by
  unfold Run.alive
  split
  · rename_i hs
    simp [hs]
  · rename_i hs
    simpa using hs

theorem Run.over_iff :
    r.over = true ↔ r.alive = false ∧ r.registered = false ∧ r.recorded = false := by
  simp [Run.over, and_assoc]

/-- The zone and the hold of a run whose session was recorded before the move. -/
theorem Run.Passes.recorded {a : RunAction} (h : r.Passes a r')
    (hzone : r.stage.zone = .working ∨ r.stage.zone = .leaving) (hchecking : r.stage ≠ .checking) :
    (r'.stage.zone = .working ∨ r'.stage.zone = .leaving) ∧ r'.holding = r.holding ∧
      r'.session = r.session := by
  have hnot : ∀ z, r.stage.zone = z → z ≠ .before ∧ z ≠ .asking := by
    rintro z rfl
    rcases hzone with hz | hz <;> rw [hz] <;> exact ⟨nofun, nofun⟩
  cases h with
  | still ha hstage hholding hsession => exact ⟨hstage ▸ hzone, hholding, hsession⟩
  | prepares hbefore => exact absurd rfl (hnot _ hbefore).1
  | lock hs => exact absurd rfl (hnot .before (by rw [hs]; rfl)).1
  | takes hs | waits hs | resumes hs => exact absurd rfl (hnot .asking (by rw [hs]; rfl)).2
  | works _ hzone' hholding hsession => exact ⟨Or.inl hzone', hholding, hsession⟩
  | leaves _ _ _ _ hl => exact ⟨Or.inr hl.zone, hl.holding, hl.session⟩
  | checks hs => exact absurd hs hchecking

theorem Member.Settled.goes (h : m.Settled) (hchecking : m.run.stage ≠ .checking)
    {a : RunAction} (hpasses : m.run.Passes a r) (henters : m.run.Enters r) :
    m.Goes ⟨r, m.nextLock r⟩ := by
  have hplaced := h.placed.passes hpasses
  have hsession : (m.run.alive = true → m.run.recorded = true) → r.session = m.run.session := by
    intro hif
    apply hpasses.session
    intro hbefore
    have halive : m.run.alive = true := by
      rw [Run.alive_iff]
      intro hs
      rw [hs] at hbefore
      cases hbefore
    rcases h.zone (hif halive) with hz | hz <;> rw [hz] at hbefore <;> cases hbefore
  cases henters with
  | same hsame =>
      have hrec := hsame.recorded
      refine ⟨⟨hplaced, ?_, ?_, hsame.stage⟩, ?_, ?_, hpasses.alive, ?_, ?_, hsession⟩
      · intro hr
        exact (hpasses.recorded (h.zone (hrec ▸ hr)) hchecking).1
      · intro hr halive
        rw [(hpasses.recorded (h.zone (hrec ▸ hr)) hchecking).2.1]
        exact h.holding (hrec ▸ hr) (hpasses.alive halive)
      · exact congrArg PreparedExecution.key hsame.prepared
      · intro hover
        rw [Run.over_iff] at hover ⊢
        refine ⟨?_, hsame.registered.trans hover.2.1, hsame.recorded.trans hover.2.2⟩
        rw [Bool.eq_false_iff]
        intro halive
        rw [hpasses.alive halive] at hover
        cases hover.1
      · exact fun hr => hsame.registered.trans hr
      · exact fun hr => hsame.recorded.trans hr
  | registers hstage heq =>
      have halive : m.run.alive = true := Run.alive_iff.mpr (by rw [hstage]; exact nofun)
      have hrec : m.run.recorded = false := by
        rw [Bool.eq_false_iff]
        intro hr
        rcases h.zone hr with hz | hz <;> rw [hstage] at hz <;> cases hz
      subst heq
      refine ⟨⟨hplaced, ?_, ?_, nofun⟩, rfl, ?_, fun _ => halive, fun _ => rfl, id, hsession⟩
      · intro hr
        rw [show m.run.recorded = true from hr] at hrec
        cases hrec
      · intro hr
        rw [show m.run.recorded = true from hr] at hrec
        cases hrec
      · intro hover
        rw [Run.over_iff, halive] at hover
        cases hover.1
  | records hstage hprepared hregistered hrecorded hstage' =>
      have halive : m.run.alive = true := Run.alive_iff.mpr (by rw [hstage]; exact nofun)
      have hzone : m.run.stage.zone = .working := by
        rw [hstage]
        rfl
      have hafter := hpasses.recorded (Or.inl hzone) hchecking
      have hholding : m.run.holding = true := by
        have hp := h.placed
        unfold Member.Placed at hp
        rw [hzone] at hp
        exact hp.2
      refine ⟨⟨hplaced, fun _ => hafter.1, ?_, hstage'⟩, ?_, ?_, fun _ => halive, ?_, ?_,
        hsession⟩
      · intro _ _
        exact hafter.2.1.trans hholding
      · exact congrArg PreparedExecution.key hprepared
      · intro hover
        rw [Run.over_iff, halive] at hover
        cases hover.1
      · exact fun hr => hregistered.trans hr
      · exact fun _ => hrecorded

theorem Member.Settled.goes_raises (h : m.Settled) {e : Failure} {caught : Bool}
    (hraises : m.run.raises e caught = some r) : m.Goes ⟨r, m.nextLock r⟩ := by
  obtain ⟨halive, hleaves⟩ := Run.leaves_raises hraises
  have hsame := Run.sameEntries_raises hraises
  refine ⟨⟨h.placed.leaves hleaves, fun _ => Or.inr hleaves.zone, ?_, hsame.stage⟩,
    congrArg PreparedExecution.key hsame.prepared, ?_, fun _ => halive,
    fun hr => hsame.registered.trans hr, fun hr => hsame.recorded.trans hr,
    fun _ => hleaves.session⟩
  · intro hr _
    exact hleaves.holding.trans (h.holding (hsame.recorded ▸ hr) halive)
  · intro hover
    rw [Run.over_iff, halive] at hover
    cases hover.1

/-! ## §4  The registries -/

namespace Executor

variable {E E' : Executor} {S : System} {i : ℕ}

/-- The `i`-th run is of the task, and its session is `s`; it is recorded as long as the run
lives. -/
def Bound (E : Executor) (i : ℕ) (key : ExecutionKey) (s : Text) : Prop :=
  ∃ m, E.system.members[i]? = some m ∧ m.key = key ∧ m.run.session = s ∧
    (m.run.alive = true → m.run.recorded = true)

/-- The registries name runs that entered themselves, one for each task, and what a call has
read there is true of its run until that ends. -/
structure Filed (E : Executor) : Prop where
  settled : ∀ (i : ℕ) (m : Member), E.system.members[i]? = some m → m.Settled
  rests : ∀ (i : ℕ) (m : Member), E.system.members[i]? = some m → m.run.stage ≠ .checking
  requests : ∀ key i, E.runningRequests key = some i →
    ∃ m, E.system.members[i]? = some m ∧ m.key = key ∧ m.run.registered = true
  sessions : ∀ key s, E.runningSessionIds key = some s →
    ∃ (i : ℕ) (m : Member), E.system.members[i]? = some m ∧ m.key = key ∧
      m.run.recorded = true ∧ m.run.session = s
  one : ∀ (i j : ℕ) (m m' : Member), E.system.members[i]? = some m →
    E.system.members[j]? = some m' → m.key = m'.key → m.run.over = false →
    m'.run.over = false → i = j
  calls : ∀ (c : ℕ) (call : CancelCall), E.cancels[c]? = some call →
    ∀ i s, call.stage = .popping (some i) (some s) → E.Bound i call.key s

theorem getElem?_set_member {l : List Member} (hm : l[i]? = some m) (x : Member) (j : ℕ) :
    (l.set i x)[j]? = if i = j then some x else l[j]? := by
  obtain ⟨hi, -⟩ := List.getElem?_eq_some_iff.mp hm
  rw [List.getElem?_set]
  simp only [hi, if_true]

/-- A member that has moved, as it is once the executor has followed. -/
def landed (m' : Member) : Member :=
  match m'.run.stage with
  | .checking => { m' with run := m'.run.finish }
  | _ => m'

theorem landed_of_checking (hs : m'.run.stage = .checking) :
    landed m' = { m' with run := m'.run.finish } := by
  simp only [landed, hs]

theorem landed_of_ne (hs : m'.run.stage ≠ .checking) : landed m' = m' := by
  unfold landed
  split
  · rename_i hchecking
    exact absurd hchecking hs
  · rfl

theorem settled_landed (h : m'.Settled) :
    (landed m').Settled ∧ (landed m').run.stage ≠ .checking := by
  by_cases hs : m'.run.stage = .checking
  · rw [landed_of_checking hs]
    have hplaced : Member.Placed { m' with run := m'.run.finish } :=
      ⟨nofun, fun s hlock => h.placed.session hlock⟩
    exact ⟨⟨hplaced, fun _ => Or.inr rfl, nofun, nofun⟩, nofun⟩
  · rw [landed_of_ne hs]
    exact ⟨h, hs⟩

/-- A run that comes to its cleanup's end is out of the registries. -/
theorem landed_over (hover : m'.run.over = true ∨ m'.run.stage = .checking) :
    (landed m').run.over = true := by
  by_cases hs : m'.run.stage = .checking
  · rw [landed_of_checking hs]
    rfl
  · rw [landed_of_ne hs]
    exact hover.resolve_right hs

/-- What the executor has once it has followed a run. -/
structure Follows (E E' : Executor) (i : ℕ) (m' : Member) : Prop where
  members : E'.system.members = E.system.members.set i (landed m')
  cancels : E'.cancels = E.cancels
  requests : ∀ key j, E'.runningRequests key = some j →
    (E.runningRequests key = some j ∧ (m'.run.stage = .checking → key ≠ m'.key)) ∨
      (key = m'.key ∧ j = i ∧ m'.run.registered = true ∧ m'.run.stage ≠ .checking)
  sessions : ∀ key s, E'.runningSessionIds key = some s →
    (E.runningSessionIds key = some s ∧ (m'.run.stage = .checking → key ≠ m'.key)) ∨
      (key = m'.key ∧ s = m'.run.session ∧ m'.run.recorded = true ∧ m'.run.stage ≠ .checking)

theorem update_eq_some {β : Type} {f : ExecutionKey → Option β} {k key : ExecutionKey}
    {v : Option β} {b : β} (h : Function.update f k v key = some b) :
    (key = k ∧ v = some b) ∨ (key ≠ k ∧ f key = some b) := by
  by_cases hk : key = k
  · subst hk
    rw [Function.update_self] at h
    exact Or.inl ⟨rfl, h⟩
  · rw [Function.update_of_ne hk] at h
    exact Or.inr ⟨hk, h⟩

theorem follows_moved (hS : S.members = E.system.members.set i m') (m : Member) :
    Follows E ({ E with system := S }.moved i m m') i m' := by
  by_cases hs : m'.run.stage = .checking
  · have heq : { E with system := S }.moved i m m' =
        { E with
          system := S.finish i m'
          runningRequests := Function.update E.runningRequests m'.key none
          runningSessionIds := Function.update E.runningSessionIds m'.key none } := by
      simp only [moved, hs]
    rw [heq]
    refine ⟨?_, rfl, ?_, ?_⟩
    · show S.members.set i { m' with run := m'.run.finish } = _
      rw [hS, List.set_set, landed_of_checking hs]
    all_goals
      intro key v hv
      rcases update_eq_some hv with ⟨-, hnone⟩ | ⟨hne, hv⟩
      · cases hnone
      · exact Or.inl ⟨hv, fun _ => hne⟩
  · unfold moved
    split
    · rename_i hchecking
      exact absurd hchecking hs
    · refine ⟨by rw [landed_of_ne hs]; exact hS, rfl, ?_, ?_⟩
      all_goals
        intro key v hv
        dsimp only at hv
        split at hv
        · rename_i hnew
          rw [Bool.and_eq_true] at hnew
          rcases update_eq_some hv with ⟨rfl, hsome⟩ | ⟨hne, hv⟩
          · cases hsome
            exact Or.inr ⟨rfl, rfl, hnew.1, hs⟩
          · exact Or.inl ⟨hv, fun _ => hne⟩
        · exact Or.inl ⟨hv, fun hc => absurd hc hs⟩

theorem Filed.follows (h : E.Filed) (hm : E.system.members[i]? = some m) (hgoes : m.Goes m')
    (hf : Follows E E' i m') : E'.Filed := by
  have hkey : (landed m').key = m'.key := by
    unfold landed
    split <;> rfl
  have hmembers : ∀ j, E'.system.members[j]? =
      if i = j then some (landed m') else E.system.members[j]? := by
    intro j
    rw [hf.members]
    exact getElem?_set_member hm _ j
  -- what is true of the moved member and of all the others
  have hmem {P : ℕ → Member → Prop} (hi : P i (landed m'))
      (hother : ∀ j x, E.system.members[j]? = some x → P j x) (j : ℕ) (x : Member)
      (hx : E'.system.members[j]? = some x) : P j x := by
    rw [hmembers] at hx
    split at hx
    · rename_i hij
      cases hx
      exact hij ▸ hi
    · exact hother j x hx
  have hland := settled_landed hgoes.settled
  -- an entry that was there before
  have hold {P : Run → Prop} {key : ExecutionKey} {j : ℕ} {x : Member}
      (hx : E.system.members[j]? = some x) (hxkey : x.key = key) (hP : P x.run)
      (hgo : P m.run → P m'.run) (hne : m'.run.stage = .checking → key ≠ m'.key) :
      ∃ x', E'.system.members[j]? = some x' ∧ x'.key = key ∧ P x'.run := by
    rw [hmembers]
    split
    · rename_i hij
      subst hij
      rw [hm] at hx
      cases hx
      have hs : m'.run.stage ≠ .checking := by
        intro hs
        exact hne hs (hxkey.symm.trans hgoes.key.symm)
      rw [landed_of_ne hs]
      exact ⟨m', rfl, hgoes.key.trans hxkey, hgo hP⟩
    · exact ⟨x, hx, hxkey, hP⟩
  refine ⟨?_, ?_, ?_, ?_, ?_, ?_⟩
  · exact hmem hland.1 h.settled
  · exact hmem hland.2 h.rests
  · intro key j hj
    rcases hf.requests key j hj with ⟨hj, hne⟩ | ⟨rfl, rfl, hreg, hs⟩
    · obtain ⟨x, hx, hxkey, hreg⟩ := h.requests key j hj
      exact hold (P := fun r => r.registered = true) hx hxkey hreg hgoes.registered hne
    · refine ⟨landed m', ?_, hkey, ?_⟩
      · rw [hmembers, if_pos rfl]
      · rw [landed_of_ne hs]
        exact hreg
  · intro key s hs
    rcases hf.sessions key s hs with ⟨hs, hne⟩ | ⟨rfl, rfl, hrec, hstage⟩
    · obtain ⟨j, x, hx, hxkey, hrec⟩ := h.sessions key s hs
      refine ⟨j, hold (P := fun r => r.recorded = true ∧ r.session = s) hx hxkey hrec ?_ hne⟩
      rintro ⟨hr, hsession⟩
      exact ⟨hgoes.recorded hr, (hgoes.session fun _ => hr).trans hsession⟩
    · refine ⟨i, landed m', ?_, hkey, ?_⟩
      · rw [hmembers, if_pos rfl]
      · rw [landed_of_ne hstage]
        exact ⟨hrec, rfl⟩
  · -- a run in the registries was in them, or alive
    have hbefore : ∀ (j : ℕ) (x : Member), E'.system.members[j]? = some x → x.run.over = false →
        ∃ x₀, E.system.members[j]? = some x₀ ∧ x₀.key = x.key ∧ x₀.run.over = false := by
      refine hmem ?_ fun j x hx hover => ⟨x, hx, rfl, hover⟩
      intro hover
      refine ⟨m, hm, (hkey.trans hgoes.key).symm, ?_⟩
      rw [Bool.eq_false_iff]
      intro hm'
      rw [landed_over (Or.inl (hgoes.finished hm'))] at hover
      cases hover
    intro j k x y hx hy hxy hxover hyover
    obtain ⟨x₀, hx₀, hxkey, hxover₀⟩ := hbefore j x hx hxover
    obtain ⟨y₀, hy₀, hykey, hyover₀⟩ := hbefore k y hy hyover
    exact h.one j k x₀ y₀ hx₀ hy₀ (hxkey.trans (hxy.trans hykey.symm)) hxover₀ hyover₀
  · intro c call hcall j s hstage
    rw [hf.cancels] at hcall
    obtain ⟨x, hx, hxkey, hsession, hrec⟩ := h.calls c call hcall j s hstage
    unfold Bound
    rw [hmembers]
    split
    · rename_i hij
      subst hij
      rw [hm] at hx
      cases hx
      refine ⟨landed m', rfl, hkey.trans (hgoes.key.trans hxkey), ?_, ?_⟩
      · have hsame : (landed m').run.session = m'.run.session := by
          unfold landed
          split <;> rfl
        exact hsame.trans ((hgoes.session hrec).trans hsession)
      · intro halive
        have hs : m'.run.stage ≠ .checking := by
          intro hs
          rw [landed_of_checking hs] at halive
          cases halive
        rw [landed_of_ne hs] at halive ⊢
        exact hgoes.recorded (hrec (hgoes.alive halive))
    · exact ⟨x, hx, hxkey, hsession, hrec⟩

/-- The members after a step of the system that is the `i`-th run's. -/
theorem members_of_act {a : RunAction} (hm : E.system.members[i]? = some m)
    (h : E.system.step (.act i a) = some S) :
    ∃ r, m.run.act a = some r ∧ S.members = E.system.members.set i ⟨r, m.nextLock r⟩ := by
  unfold System.step at h
  simp only [hm, Option.bind_some] at h
  obtain ⟨r, hact, h⟩ := Option.bind_eq_some_iff.mp h
  refine ⟨r, hact, ?_⟩
  split at h
  · cases h
    rfl
  · obtain ⟨l, -, rfl⟩ := Option.map_eq_some_iff.mp h
    rfl

theorem members_of_raises {e : Failure} {caught : Bool} (hm : E.system.members[i]? = some m)
    (h : E.system.step (.raises i e caught) = some S) :
    ∃ r, m.run.raises e caught = some r ∧
      S.members = E.system.members.set i ⟨r, m.nextLock r⟩ := by
  unfold System.step at h
  simp only [hm, Option.bind_some] at h
  obtain ⟨r, hraises, rfl⟩ := Option.map_eq_some_iff.mp h
  exact ⟨r, hraises, rfl⟩

theorem moveRun_cases {a : SystemAction} (h : E.moveRun i a = some E') :
    ∃ m S m', E.system.members[i]? = some m ∧ E.system.step a = some S ∧
      S.members[i]? = some m' ∧ E' = { E with system := S }.moved i m m' := by
  obtain ⟨m, hm, h⟩ := Option.bind_eq_some_iff.mp h
  obtain ⟨S, hS, h⟩ := Option.bind_eq_some_iff.mp h
  obtain ⟨m', hm', rfl⟩ := Option.map_eq_some_iff.mp h
  exact ⟨m, S, m', hm, hS, hm', rfl⟩

theorem Filed.moveRun (h : E.Filed) {a : SystemAction} (hmove : E.moveRun i a = some E')
    (hgoes : ∀ m S, E.system.members[i]? = some m → E.system.step a = some S →
      ∃ m', m.Goes m' ∧ S.members = E.system.members.set i m') : E'.Filed := by
  obtain ⟨m, S, m', hm, hS, hm', rfl⟩ := moveRun_cases hmove
  obtain ⟨m'', hgo, hmembers⟩ := hgoes m S hm hS
  have heq : m'' = m' := by
    rw [hmembers, getElem?_set_member hm, if_pos rfl] at hm'
    exact Option.some.inj hm'
  subst heq
  exact h.follows hm hgo (follows_moved hmembers m)

theorem Filed.act (h : E.Filed) {a : RunAction} (ha : ∀ c, a ≠ .cancelStep c)
    (hmove : E.moveRun i (.act i a) = some E') : E'.Filed := by
  refine h.moveRun hmove fun m S hm hS => ?_
  obtain ⟨r, hact, hmembers⟩ := members_of_act hm hS
  have hsettled := h.settled i m hm
  have hrests := h.rests i m hm
  exact ⟨_, hsettled.goes hrests (Run.passes_of_act hact)
    (Run.enters_of_act ha hrests hsettled.stage hact), hmembers⟩

theorem Filed.raises (h : E.Filed) {e : Failure} {caught : Bool}
    (hmove : E.moveRun i (.raises i e caught) = some E') : E'.Filed := by
  refine h.moveRun hmove fun m S hm hS => ?_
  obtain ⟨r, hraises, hmembers⟩ := members_of_raises hm hS
  exact ⟨_, (h.settled i m hm).goes_raises hraises, hmembers⟩

/-- The same members, as far as the registries go, and the same registries. -/
theorem Filed.forget (h : E.Filed) {locks : Text → OwnerlessLock.Lock ℕ} :
    Filed { E with system := { E.system with locks := locks } } :=
  ⟨h.settled, h.rests, h.requests, h.sessions, h.one, h.calls⟩

theorem Filed.start (h : E.Filed) (prepared : PreparedExecution)
    (hok : E.admits (.system (.start prepared))) :
    Filed { E with system := { E.system with
      members := E.system.members ++ [{ run := Run.initial prepared }] } } := by
  have hcases : ∀ (j : ℕ) (x : Member),
      (E.system.members ++ [{ run := Run.initial prepared }])[j]? = some x →
        E.system.members[j]? = some x ∨
          (j = E.system.members.length ∧ x = { run := Run.initial prepared }) := by
    intro j x hx
    rw [List.getElem?_append] at hx
    split at hx
    · exact Or.inl hx
    · rename_i hlen
      obtain ⟨hj, hx⟩ := List.getElem?_eq_some_iff.mp hx
      rw [List.length_singleton] at hj
      refine Or.inr ⟨by omega, ?_⟩
      rw [← hx]
      exact List.mem_singleton.mp (List.getElem_mem hj)
  have hkept {j : ℕ} {x : Member} (hx : E.system.members[j]? = some x) :
      (E.system.members ++ [{ run := Run.initial prepared }])[j]? = some x :=
    (List.getElem?_append_left (List.getElem?_eq_some_iff.mp hx).1).trans hx
  refine ⟨?_, ?_, ?_, ?_, ?_, ?_⟩
  · intro j x hx
    rcases hcases j x hx with hx | ⟨-, rfl⟩
    · exact h.settled j x hx
    · exact ⟨⟨rfl, rfl⟩, nofun, nofun, nofun⟩
  · intro j x hx
    rcases hcases j x hx with hx | ⟨-, rfl⟩
    · exact h.rests j x hx
    · exact nofun
  · intro key j hj
    obtain ⟨x, hx, hrest⟩ := h.requests key j hj
    exact ⟨x, hkept hx, hrest⟩
  · intro key s hs
    obtain ⟨j, x, hx, hrest⟩ := h.sessions key s hs
    exact ⟨j, x, hkept hx, hrest⟩
  · -- the members of the new run's task are over
    intro j k x y hx hy hxy hxover hyover
    rcases hcases j x hx with hx | ⟨rfl, rfl⟩
    · rcases hcases k y hy with hy | ⟨rfl, rfl⟩
      · exact h.one j k x y hx hy hxy hxover hyover
      · rw [hok x (List.mem_of_getElem? hx) hxy] at hxover
        cases hxover
    · rcases hcases k y hy with hy | ⟨rfl, rfl⟩
      · rw [hok y (List.mem_of_getElem? hy) hxy.symm] at hyover
        cases hyover
      · rfl
  · intro c call hcall j s hstage
    obtain ⟨x, hx, hrest⟩ := h.calls c call hcall j s hstage
    exact ⟨x, hkept hx, hrest⟩

theorem Filed.stepSystem (h : E.Filed) {a : SystemAction} (hok : E.admits (.system a))
    (hstep : E.stepSystem a = some E') : E'.Filed := by
  unfold Executor.stepSystem at hstep
  split at hstep
  · cases hstep
  · rename_i i a hcancel
    exact h.act (fun c hc => hcancel c hc) hstep
  · exact h.raises hstep
  · rename_i hact hraises
    obtain ⟨S, hS, rfl⟩ := Option.map_eq_some_iff.mp hstep
    cases a with
    | start prepared =>
        cases hS
        exact h.start prepared hok
    | act i a => exact absurd rfl (hact i a)
    | raises i e caught => exact absurd rfl (hraises i e caught)
    | forget s =>
        unfold System.step at hS
        simp only at hS
        split at hS <;> cases hS
        exact h.forget

/-! ## §5  The calls -/

theorem cancels_stepSystem {a : SystemAction} (h : E.stepSystem a = some E') :
    E'.cancels = E.cancels := by
  have hmove : ∀ i a, E.moveRun i a = some E' → E'.cancels = E.cancels := by
    intro i a h
    obtain ⟨m, S, m', -, -, -, rfl⟩ := moveRun_cases h
    unfold moved
    split <;> rfl
  unfold stepSystem at h
  split at h
  · cases h
  · exact hmove _ _ h
  · exact hmove _ _ h
  · obtain ⟨S, -, rfl⟩ := Option.map_eq_some_iff.mp h
    rfl

theorem cancels_hitRun (E : Executor) (i : ℕ) : (E.hitRun i).cancels = E.cancels := by
  unfold hitRun
  cases h : E.stepSystem (.act i .cancel) with
  | none => rfl
  | some E' => exact cancels_stepSystem h

theorem Filed.hitRun (h : E.Filed) (i : ℕ) : (E.hitRun i).Filed := by
  unfold Executor.hitRun
  cases hstep : E.stepSystem (.act i .cancel) with
  | none => exact h
  | some E' => exact h.stepSystem (show E.admits (.system (.act i .cancel)) from trivial) hstep

/-- The stop event is none of the registries' business. -/
theorem Filed.stopRun (h : E.Filed) (i : ℕ) : (E.stopRun i).Filed := by
  let f : Member → Member := fun m => { m with run := { m.run with stop := true } }
  have hget (j : ℕ) (x : Member) (hx : (E.stopRun i).system.members[j]? = some x) :
      ∃ x₀, E.system.members[j]? = some x₀ ∧ (x = x₀ ∨ x = f x₀) := by
    change (E.system.members.modify i f)[j]? = some x at hx
    rw [List.getElem?_modify] at hx
    obtain ⟨x₀, hx₀, rfl⟩ := Option.map_eq_some_iff.mp hx
    refine ⟨x₀, hx₀, ?_⟩
    split
    · exact Or.inr rfl
    · exact Or.inl rfl
  have hput (j : ℕ) (x : Member) (hx : E.system.members[j]? = some x) :
      (E.stopRun i).system.members[j]? = some x ∨
        (E.stopRun i).system.members[j]? = some (f x) := by
    change (E.system.members.modify i f)[j]? = _ ∨ (E.system.members.modify i f)[j]? = _
    rw [List.getElem?_modify, hx]
    show some (if i = j then f x else x) = _ ∨ some (if i = j then f x else x) = _
    split
    · exact Or.inr rfl
    · exact Or.inl rfl
  refine ⟨?_, ?_, ?_, ?_, ?_, ?_⟩
  · intro j x hx
    obtain ⟨x₀, hx₀, rfl | rfl⟩ := hget j x hx
    · exact h.settled j x hx₀
    · have hs := h.settled j x₀ hx₀
      exact ⟨hs.placed, hs.zone, hs.holding, hs.stage⟩
  · intro j x hx
    obtain ⟨x₀, hx₀, rfl | rfl⟩ := hget j x hx
    · exact h.rests j x hx₀
    · exact h.rests j x₀ hx₀
  · intro key j hj
    obtain ⟨x, hx, hrest⟩ := h.requests key j hj
    rcases hput j x hx with hx' | hx'
    · exact ⟨x, hx', hrest⟩
    · exact ⟨f x, hx', hrest⟩
  · intro key s hs
    obtain ⟨j, x, hx, hrest⟩ := h.sessions key s hs
    rcases hput j x hx with hx' | hx'
    · exact ⟨j, x, hx', hrest⟩
    · exact ⟨j, f x, hx', hrest⟩
  · intro j k x y hx hy hxy hxover hyover
    obtain ⟨x₀, hx₀, hxeq⟩ := hget j x hx
    obtain ⟨y₀, hy₀, hyeq⟩ := hget k y hy
    refine h.one j k x₀ y₀ hx₀ hy₀ ?_ ?_ ?_
    · rcases hxeq with rfl | rfl <;> rcases hyeq with rfl | rfl <;> exact hxy
    · rcases hxeq with rfl | rfl <;> exact hxover
    · rcases hyeq with rfl | rfl <;> exact hyover
  · intro c call hcall j s hstage
    obtain ⟨x, hx, hrest⟩ := h.calls c call hcall j s hstage
    rcases hput j x hx with hx' | hx'
    · exact ⟨x, hx', hrest⟩
    · exact ⟨f x, hx', hrest⟩

theorem Filed.goto (h : E.Filed) (c : ℕ) (call : CancelCall) {stage : CallStage}
    (hstage : ∀ i s, stage = .popping (some i) (some s) → E.Bound i call.key s) :
    (E.goto c call stage).Filed := by
  refine ⟨h.settled, h.rests, h.requests, h.sessions, h.one, ?_⟩
  intro d call' hcall' j s hpopping
  change (E.cancels.set c { call with stage := stage })[d]? = some call' at hcall'
  rw [List.getElem?_set] at hcall'
  split at hcall'
  · split at hcall'
    · cases hcall'
      exact hstage j s hpopping
    · cases hcall'
  · exact h.calls d call' hcall' j s hpopping

/-- What the registries name together is one run and its session. -/
theorem Filed.bound (h : E.Filed) {key : ExecutionKey} {s : Text}
    (hi : E.runningRequests key = some i) (hs : E.runningSessionIds key = some s) :
    E.Bound i key s := by
  obtain ⟨m, hm, hkey, hreg⟩ := h.requests key i hi
  obtain ⟨j, m', hm', hkey', hrec, hsession⟩ := h.sessions key s hs
  have hij : i = j := by
    refine h.one i j m m' hm hm' (hkey.trans hkey'.symm) ?_ ?_
    · simp [Run.over, hreg]
    · simp [Run.over, hrec]
  subst hij
  exact ⟨m', hm', hkey', hsession, fun _ => hrec⟩

/-- A call goes on: what happens to the runs, and where it awaits next. -/
inductive Calls (E : Executor) (call : CancelCall) : CallStage → Executor → CallStage → Prop
  | look : Calls E call .looking E
      (.popping (E.runningRequests call.key) (E.runningSessionIds call.key))
  | abort (i : ℕ) (s : Text) (h : (E.stopRun i).cancellable i call.caller = true) :
      Calls E call (.popping (some i) (some s)) (E.stopRun i) (.aborting i s)
  | hit (stage : CallStage) (i : ℕ) : Calls E call stage (E.hitRun i) .done
  | stopHit (stage : CallStage) (i : ℕ) : Calls E call stage ((E.stopRun i).hitRun i) .done
  | stop (stage : CallStage) (i : ℕ) : Calls E call stage (E.stopRun i) .done
  | spare (stage stage' : CallStage)
      (h : stage' = .looking ∨ stage' = .failing ∨ stage' = .done) : Calls E call stage E stage'

theorem afterPop_cases (E : Executor) (c : ℕ) (call : CancelCall) (task : Option ℕ)
    (session : Option Text) : ∃ E₁ stage, E.Calls call (.popping task session) E₁ stage ∧
      E.afterPop c call task session = E₁.goto c call stage := by
  cases task with
  | none => exact ⟨E, .done, .spare _ _ (Or.inr (Or.inr rfl)), rfl⟩
  | some i =>
      by_cases h : (E.stopRun i).cancellable i call.caller = true
      · match session with
        | some (x :: s) =>
            exact ⟨_, _, .abort i (x :: s) h, by simp only [afterPop, h, if_true]⟩
        | some [] => exact ⟨_, _, .stopHit _ i, by simp only [afterPop, h, if_true]⟩
        | none => exact ⟨_, _, .stopHit _ i, by simp only [afterPop, h, if_true]⟩
      · exact ⟨_, _, .stop _ i, by simp only [afterPop, if_neg h]⟩

theorem callStep_cases {c : ℕ} {call : CancelCall} {a : Run.CancelAnswer}
    (h : E.callStep c call a = some E') :
    ∃ E₁ stage, E.Calls call call.stage E₁ stage ∧ E' = E₁.goto c call stage := by
  unfold callStep at h
  split at h <;> rename_i hs <;> try rw [hs]
  case h_2 =>
      cases h
      exact ⟨_, _, .look, rfl⟩
  case h_3 task session =>
      cases h
      exact afterPop_cases E c call task session
  case h_4 =>
      cases h
      exact ⟨_, _, .hit _ _, rfl⟩
  case h_14 => cases h
  all_goals
    cases h
    exact ⟨_, _, .spare _ _ (by simp), rfl⟩

theorem Calls.cancels {call : CancelCall} {stage stage' : CallStage} {E₁ : Executor}
    (h : E.Calls call stage E₁ stage') : E₁.cancels = E.cancels := by
  cases h with
  | look | abort | stop | spare => rfl
  | hit _ i => exact cancels_hitRun E i
  | stopHit _ i => exact cancels_hitRun (E.stopRun i) i

theorem Filed.call (h : E.Filed) {c : ℕ} {call : CancelCall} {stage stage' : CallStage}
    {E₁ : Executor} (hcalls : E.Calls call stage E₁ stage') : (E₁.goto c call stage').Filed := by
  cases hcalls with
  | look =>
      refine h.goto c call fun i s heq => ?_
      injection heq with hi hs
      exact h.bound hi hs
  | abort i s => exact (h.stopRun i).goto c call nofun
  | hit _ i => exact (h.hitRun i).goto c call nofun
  | stopHit _ i => exact ((h.stopRun i).hitRun i).goto c call nofun
  | stop _ i => exact (h.stopRun i).goto c call nofun
  | spare _ _ heq =>
      refine h.goto c call ?_
      rcases heq with rfl | rfl | rfl <;> exact nofun

theorem Filed.initial : Filed {} := by
  refine ⟨?_, ?_, nofun, nofun, ?_, ?_⟩
  · intro i m hm
    cases hm
  · intro i m hm
    cases hm
  · intro i j m m' hm
    cases hm
  · intro c call hcall
    cases hcall

theorem Filed.step (h : E.Filed) {a : ExecutorAction} (hok : E.admits a)
    (hstep : E.step a = some E') : E'.Filed := by
  cases a with
  | system a => exact h.stepSystem hok hstep
  | cancel key caller =>
      cases hstep
      refine ⟨h.settled, h.rests, h.requests, h.sessions, h.one, ?_⟩
      intro c call hcall i s hstage
      change (E.cancels ++ [{ key := key, caller := caller }])[c]? = some call at hcall
      rw [List.getElem?_append] at hcall
      split at hcall
      · exact h.calls c call hcall i s hstage
      · rw [List.mem_singleton.mp (List.mem_of_getElem? hcall)] at hstage
        cases hstage
  | call c a =>
      obtain ⟨call, -, hcall⟩ := Option.bind_eq_some_iff.mp hstep
      obtain ⟨E₁, stage, hcalls, rfl⟩ := callStep_cases hcall
      exact h.call hcalls

/-! ## §6  Whose work a call aborts -/

/-- A call that comes to abort a session was at its decision, with the run alive. -/
theorem Aborts.cases {c : ℕ} {key : ExecutionKey} {s : Text} {a : ExecutorAction}
    (hstep : E.step a = some E') (h : E.Aborts E' c key i s) :
    ∃ call, E.cancels[c]? = some call ∧ call.key = key ∧
      call.stage = .popping (some i) (some s) ∧
      (E.stopRun i).cancellable i call.caller = true := by
  obtain ⟨⟨caller, hafter⟩, hbefore⟩ := h
  cases a with
  | system a =>
      rw [cancels_stepSystem hstep] at hafter
      exact absurd hafter (hbefore caller)
  | cancel key' caller' =>
      cases hstep
      change (E.cancels ++ [{ key := key', caller := caller' }])[c]? = _ at hafter
      rw [List.getElem?_append] at hafter
      split at hafter
      · exact absurd hafter (hbefore caller)
      · cases List.mem_singleton.mp (List.mem_of_getElem? hafter)
  | call d a =>
      obtain ⟨call, hcall, hrest⟩ := Option.bind_eq_some_iff.mp hstep
      obtain ⟨E₁, stage, hcalls, rfl⟩ := callStep_cases hrest
      change (E₁.cancels.set d { call with stage := stage })[c]? = _ at hafter
      rw [hcalls.cancels, List.getElem?_set] at hafter
      split at hafter
      · rename_i hdc
        subst hdc
        split at hafter
        · cases hafter
          generalize hs : call.stage = before at hcalls
          cases hcalls with
          | abort _ _ hcan => exact ⟨call, hcall, rfl, hs, hcan⟩
          | spare _ _ heq => rcases heq with heq | heq | heq <;> cases heq
        · cases hafter
      · exact absurd hafter (hbefore caller)

/-- Whenever a call for a task sends an abort, the run it read is a run of that task, the
session is that run's, and the run has acquired the session's lock and not come to its
release. -/
theorem cancel_aborts_own_run {as : List ExecutorAction} {a : ExecutorAction}
    (h : Machine.Runs Executor.step Executor.admits {} as E) (hstep : E.step a = some E')
    {c : ℕ} {key : ExecutionKey} {s : Text} (haborts : E.Aborts E' c key i s) :
    E.system.Holds i s ∧ ∃ m, E.system.members[i]? = some m ∧ m.key = key ∧
      m.run.session = s ∧ m.run.recorded = true := by
  have hfiled : E.Filed := h.invariant (fun _ _ _ hi hok hs => hi.step hok hs) Filed.initial
  obtain ⟨call, hcall, hkey, hstage, hcan⟩ := haborts.cases hstep
  obtain ⟨m, hm, hmkey, hsession, hrec⟩ := hfiled.calls c call hcall i s hstage
  have halive : m.run.alive = true := by
    unfold cancellable at hcan
    rw [Bool.and_eq_true] at hcan
    have hany := hcan.2
    change ((E.system.members.modify i fun m =>
      { m with run := { m.run with stop := true } })[i]?.any fun m => m.run.alive) = true at hany
    rw [List.getElem?_modify, hm] at hany
    simpa [Run.alive] using hany
  have hsettled := hfiled.settled i m hm
  have hholding := hsettled.holding (hrec halive) halive
  refine ⟨⟨m, hm, halive, hholding, ?_⟩, m, hm, hmkey.trans hkey, hsession, hrec halive⟩
  rw [hsettled.placed.holding hholding, hsession]

end Executor

/-! The first run of the examples is canceled while it generates and the second waits for the
lock; a call for the second finds no session. -/

def secondPrepared : PreparedExecution := { sharedPrepared with taskId := "task-2".toList }

/-- The two runs up to the lock, and the calls up to their decisions. -/
def cancelledPair : List ExecutorAction :=
  [.system (.start sharedPrepared), .system (.act 0 (.step .ok)),
    .system (.act 0 (.step (.bound sharedSession false))), .system (.act 0 (.step .ok)),
    .system (.act 0 (.step (.acquired true))), .system (.act 0 (.step .ok)),
    .system (.start secondPrepared), .system (.act 1 (.step .ok)),
    .system (.act 1 (.step (.bound sharedSession false))), .system (.act 1 (.step .ok)),
    .system (.act 1 (.step (.acquired false))),
    .cancel secondPrepared.key none, .call 0 .ok, .call 0 .ok, .call 0 .ok,
    .cancel sharedPrepared.key none, .call 1 .ok, .call 1 .ok]

def admitsCheck (E : Executor) : ExecutorAction → Bool
  | .system (.start prepared) =>
      E.system.members.all fun m => decide (m.key ≠ prepared.key) || m.run.over
  | _ => true

theorem admits_of_check (E : Executor) (a : ExecutorAction) (h : admitsCheck E a = true) :
    E.admits a := by
  unfold admitsCheck at h
  unfold Executor.admits
  split
  · intro m hm hkey
    have hall := List.all_eq_true.mp h m hm
    simpa [hkey] using hall
  · trivial

def beforeAbort : Executor :=
  Machine.after (Machine.restrict Executor.step admitsCheck) {} cancelledPair (by rfl)

def afterAbort : Executor := (beforeAbort.step (.call 1 .ok)).get (by rfl)

theorem first_run_aborted :
    beforeAbort.Aborts afterAbort 1 sharedPrepared.key 0 sharedSession ∧
      beforeAbort.system.Holds 0 sharedSession ∧ ∃ m, beforeAbort.system.members[0]? = some m ∧
        m.key = sharedPrepared.key ∧ m.run.session = sharedSession ∧ m.run.recorded = true := by
  have hruns : Machine.Runs Executor.step Executor.admits {} cancelledPair beforeAbort :=
    Machine.runs_of_restrict admitsCheck admits_of_check (Machine.run_after (by rfl))
  have hstep : beforeAbort.step (.call 1 .ok) = some afterAbort := (Option.some_get _).symm
  have haborts : beforeAbort.Aborts afterAbort 1 sharedPrepared.key 0 sharedSession :=
    ⟨⟨none, rfl⟩, fun _ => nofun⟩
  exact ⟨haborts, Executor.cancel_aborts_own_run hruns hstep haborts⟩

end OpencodeA2a.Execution
