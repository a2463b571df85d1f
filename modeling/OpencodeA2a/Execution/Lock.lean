import OpencodeA2a.Library.OwnerlessLock
import OpencodeA2a.Execution.Moves

/-!
# Runs on one session

Any number of runs, and the session locks they share. `_bind_session` acquires the lock of
its session; `_cleanup` releases it when it is locked, without a look at who holds it. A run
whose acquisition is cancelled has the lock object too, and may so release another's lock:
the runs exclude each other as long as that does not happen.
-/

namespace OpencodeA2a.Execution

open OpencodeA2a.Stream OpencodeA2a.OwnerlessLock

/-! ## §1  Runs and locks -/

/-- A run with the lock object it was given. -/
structure Member where
  run : Run
  /-- `_session_lock`, by the session it is registered for -/
  lock : Option Text := none

structure System where
  members : List Member := []
  /-- `_session_locks` -/
  locks : Text → Lock ℕ := fun _ => {}

inductive SystemAction where
  | start (prepared : PreparedExecution)
  | act (i : ℕ) (a : RunAction)
  /-- an await raises at which `Run.resume` takes no failure for an answer; `caught` when it
  stands in the `try` body -/
  | raises (i : ℕ) (e : Failure) (caught : Bool)
  /-- the weak registry drops a lock that no run refers to -/
  | forget (session : Text)

/-- An exception at an await that is not the upstream's or the session manager's. -/
def Run.raises (r : Run) (e : Failure) (caught : Bool) : Option Run :=
  match r.stage with
  | .recording | .snapshot | .awaitingSignal _ => some (r.except e)
  | .emitting _ _ => some (if caught then r.except e else r.cleanup)
  | .registering | .stopping | .unregistering => some { r with stage := .ended }
  | _ => none

/-- The lock object of a run that has come from `m` to `r`. -/
def Member.nextLock (m : Member) (r : Run) : Option Text :=
  match r.stage with
  | .entering => some r.session
  | _ => m.lock

/-- What the `i`-th run, going from `r` to `r'`, does to its lock; `none` when the lock does
not let it. -/
def lockStep (i : ℕ) (r r' : Run) (l : Lock ℕ) : RunAction → Option (Lock ℕ)
  | .step answer =>
      match r.stage, answer with
      | .entering, .acquired true => if l.free then some l.take else none
      | .entering, .acquired false => if l.free then none else some (l.wait i)
      | .waiting, _ =>
          if r.cancelRequested then some (l.abandon i)
          else if l.isWoken i then some (l.resume i) else none
      | .checking, _ => some (if l.locked then l.release else l)
      | _, _ => some l
  | _ =>
      match r.stage with
      | .waiting => some (if r'.cancelRequested && !r.cancelRequested then l.cancel i else l)
      | _ => some l

namespace System

variable (S : System)

/-- The `i`-th run, a member `m`, has come to `r`. -/
def put (i : ℕ) (m : Member) (r : Run) : System :=
  { S with members := S.members.set i ⟨r, m.nextLock r⟩ }

def step : SystemAction → Option System
  | .start prepared => some { S with members := S.members ++ [{ run := Run.initial prepared }] }
  | .act i a =>
      S.members[i]?.bind fun m => (m.run.act a).bind fun r =>
        match m.nextLock r with
        | none => some (S.put i m r)
        | some s => (lockStep i m.run r (S.locks s) a).map fun l =>
            { S.put i m r with locks := Function.update S.locks s l }
  | .raises i e caught =>
      S.members[i]?.bind fun m => (m.run.raises e caught).map fun r => S.put i m r
  | .forget s =>
      if S.members.all fun m => !m.run.alive || m.lock ≠ some s then
        some { S with locks := Function.update S.locks s {} }
      else none

/-! ## §2  What is asked of a run of the system -/

/-- The `i`-th run has acquired the lock of the session and not yet come to its release. -/
def Holds (i : ℕ) (s : Text) : Prop :=
  ∃ m, S.members[i]? = some m ∧ m.run.alive = true ∧ m.run.holding = true ∧ m.lock = some s

/-- The `i`-th run awaits `send_message` to the session. -/
def Sends (i : ℕ) (s : Text) : Prop :=
  ∃ m, S.members[i]? = some m ∧ m.run.stage = .sending ∧ m.run.session = s

/-- A run that did not acquire its lock finds it free when it comes to the check in its
cleanup. -/
def undisturbed : SystemAction → Bool
  | .act i (.step _) =>
      S.members[i]?.all fun m =>
        match m.run.stage, m.lock with
        | .checking, some s => m.run.holding || !(S.locks s).locked
        | _, _ => true
  | _ => true

structure Exclusive : Prop where
  one : ∀ s i j, S.Holds i s → S.Holds j s → i = j
  sending : ∀ s i j, S.Sends i s → S.Sends j s → i = j
  /-- a lock is freed by the run that holds it -/
  released : ∀ s i a S', S.undisturbed (.act i a) = true → S.step (.act i a) = some S' →
    (S.locks s).locked = true → (S'.locks s).locked = false → S.Holds i s

end System

/-! ## §3  A run and its lock -/

inductive Zone where
  /-- before the lock object is there -/
  | before
  | asking
  /-- with the lock, in the body of `run` -/
  | working
  | leaving
deriving DecidableEq

def Stage.zone : Stage → Zone
  | .registering | .binding | .locking => .before
  | .entering | .waiting => .asking
  | .recording | .snapshot | .sending | .finalizing _ | .tools _ | .awaitingSignal _ => .working
  | .emitting _ _ | .releasing | .stopping | .checking | .unregistering | .ended => .leaving

variable {r r' : Run} {m : Member}

/-- Past the body, with the lock held as it was. -/
structure Run.Leaves (r r' : Run) : Prop where
  zone : r'.stage.zone = .leaving
  holding : r'.holding = r.holding
  session : r'.session = r.session

/-- A move of a run, as far as its lock is concerned. -/
inductive Run.Passes (r : Run) : RunAction → Run → Prop
  | still {a : RunAction} {r' : Run} (ha : ∀ answer, a ≠ .step answer)
      (hstage : r'.stage = r.stage) (hholding : r'.holding = r.holding)
      (hsession : r'.session = r.session) : Passes r a r'
  | prepares {a : Answer} {r' : Run} (hzone : r.stage.zone = .before)
      (hzone' : r'.stage.zone = .before) (hholding : r'.holding = r.holding) :
      Passes r (.step a) r'
  | lock {a : Answer} (hstage : r.stage = .locking) :
      Passes r (.step a) { r with stage := .entering }
  | takes (hstage : r.stage = .entering) :
      Passes r (.step (.acquired true)) { r with holding := true, stage := .recording }
  | waits (hstage : r.stage = .entering) :
      Passes r (.step (.acquired false)) { r with stage := .waiting }
  | resumes {a : Answer} (hstage : r.stage = .waiting) (hcancel : r.cancelRequested = false) :
      Passes r (.step a) { r with holding := true, stage := .recording }
  | works {a : Answer} {r' : Run} (hzone : r.stage.zone = .working)
      (hzone' : r'.stage.zone = .working) (hholding : r'.holding = r.holding)
      (hsession : r'.session = r.session) : Passes r (.step a) r'
  | leaves {a : Answer} {r' : Run} (hended : r.stage ≠ .ended)
      (hentering : r.stage ≠ .entering) (hchecking : r.stage ≠ .checking)
      (hwaiting : r.stage = .waiting → r.cancelRequested = true) (h : r.Leaves r') :
      Passes r (.step a) r'
  | checks {a : Answer} (hstage : r.stage = .checking) :
      Passes r (.step a) { r with holding := false, stage := .unregistering }

/-- The session changes in the preparation only. -/
theorem Run.Passes.session {a : RunAction} (h : r.Passes a r') (hzone : r.stage.zone ≠ .before) :
    r'.session = r.session := by
  cases h with
  | still ha hstage hholding hsession | works _ _ _ hsession => exact hsession
  | prepares hbefore => exact absurd hbefore hzone
  | lock | takes | waits | resumes | checks => rfl
  | leaves _ _ _ _ hl => exact hl.session

namespace Run

theorem leaves_stopConsumer (r : Run) : r.Leaves r.stopConsumer := by
  unfold stopConsumer
  split <;> exact ⟨rfl, rfl, rfl⟩

theorem leaves_cleanup (r : Run) : r.Leaves r.cleanup := by
  unfold cleanup
  split
  · exact ⟨rfl, rfl, rfl⟩
  · exact leaves_stopConsumer r

theorem leaves_emitError (r : Run) (b : Bool) (e : ErrorReport) : r.Leaves (r.emitError b e) := by
  cases b <;> exact ⟨rfl, rfl, rfl⟩

theorem leaves_thrown (r : Run) : r.Leaves r.thrown := by
  unfold thrown
  simp only
  split
  · exact ⟨rfl, rfl, rfl⟩
  · exact ⟨rfl, rfl, rfl⟩
  · exact ⟨rfl, rfl, rfl⟩
  · have h := leaves_cleanup { r with cancelRequested := false }
    exact ⟨h.zone, h.holding, h.session⟩

theorem leaves_handleSignal (r : Run) (response : OpencodeMessage) (signal : TerminalSignal) :
    r.Leaves (r.handleSignal response signal) := by
  unfold handleSignal
  split
  · exact leaves_emitError r _ _
  · split
    · exact leaves_emitError r _ _
    · unfold complete
      simp only
      split <;> exact ⟨rfl, rfl, rfl⟩

/-- The response is handled in the body, or ends it. -/
theorem handleResponse_passes (r : Run) (response : OpencodeMessage) :
    r.Leaves (r.handleResponse response) ∨
      (r.handleResponse response).stage.zone = .working ∧
        (r.handleResponse response).holding = r.holding ∧
        (r.handleResponse response).session = r.session := by
  unfold handleResponse
  simp only
  split
  · have h := leaves_emitError { r with
      handled := some response, usage := r.resolvedTokenUsage response }
    exact Or.inl ⟨(h _ _).zone, (h _ _).holding, (h _ _).session⟩
  · split
    · exact Or.inr ⟨rfl, rfl, rfl⟩
    · exact Or.inl ⟨rfl, rfl, rfl⟩

theorem passes_of_entering {a : Answer} (hs : r.stage = .entering) (h : r.step a = some r') :
    r.Passes (.step a) r' := by
  unfold step at h
  rw [if_neg (by rw [awaits, hs]; simp)] at h
  unfold resume at h
  rw [hs] at h
  cases a with
  | acquired atOnce =>
      cases atOnce with
      | true =>
          cases h
          exact .takes hs
      | false =>
          cases h
          exact .waits hs
  | _ => cases h

theorem passes_of_step {a : Answer} (h : r.step a = some r') : r.Passes (.step a) r' := by
  rcases step_cases h with ⟨hcancel, hawaits, rfl⟩ | ⟨hgo, hresumes⟩
  · refine .leaves ?_ ?_ ?_ (fun _ => hcancel) (leaves_thrown r)
    all_goals
      intro hs
      rw [awaits, hs] at hawaits
      cases hawaits
  -- what leaves the body from one of its awaits
  · have hleaves : r.stage.zone ≠ .asking → r.stage ≠ .checking ∧ r.stage ≠ .ended →
        r.Leaves r' → r.Passes (.step a) r' := by
      rintro hzone ⟨hchecking, hended⟩ hl
      refine .leaves hended ?_ hchecking ?_ hl
      · intro hs
        rw [hs] at hzone
        exact hzone rfl
      · intro hs
        rw [hs] at hzone
        exact absurd rfl hzone
    generalize hs : r.stage = stage at hresumes
    cases hresumes with
    | register | bind => exact .prepares (by rw [hs]; rfl) rfl rfl
    | lock => exact .lock hs
    | acquireAtOnce | wait => exact passes_of_entering hs h
    | acquire =>
        refine .resumes hs ?_
        have hawaits : r.awaits = true := by
          rw [awaits, hs]
        rw [Bool.eq_false_iff]
        intro hcancel
        exact hgo ⟨hcancel, hawaits⟩
    | record =>
        unfold afterRecording
        split <;> split <;> exact .works (by rw [hs]; rfl) rfl rfl rfl
    | snapshot | finalize | turn => exact .works (by rw [hs]; rfl) rfl rfl rfl
    | respond response =>
        refine .works (by rw [hs]; rfl) ?_ rfl rfl
        show (if r.pending then Stage.finalizing response else .tools response).zone = .working
        split <;> rfl
    | handle response =>
        rcases handleResponse_passes r response with hl | ⟨hzone, hholding, hsession⟩
        · exact hleaves (by rw [hs]; simp [Stage.zone]) (by rw [hs]; simp) hl
        · exact .works (by rw [hs]; rfl) hzone hholding hsession
    | signal response signal =>
        exact hleaves (by rw [hs]; simp [Stage.zone]) (by rw [hs]; simp)
          (leaves_handleSignal r response signal)
    | noSignal response =>
        exact hleaves (by rw [hs]; simp [Stage.zone]) (by rw [hs]; simp) (leaves_emitError r _ _)
    | emit | stop | unregister =>
        exact hleaves (by rw [hs]; simp [Stage.zone]) (by rw [hs]; simp) ⟨rfl, rfl, rfl⟩
    | emitLast e =>
        have hl := leaves_cleanup (r.put .run e)
        exact hleaves (by rw [hs]; simp [Stage.zone]) (by rw [hs]; simp)
          ⟨hl.zone, hl.holding, hl.session⟩
    | release =>
        exact hleaves (by rw [hs]; simp [Stage.zone]) (by rw [hs]; simp) (leaves_stopConsumer r)
    | check => exact .checks hs
    | fail stage e hstage =>
        have hplace : stage.zone ≠ .asking ∧ stage ≠ .checking ∧ stage ≠ .ended := by
          rcases hstage with rfl | rfl | rfl | ⟨_, rfl⟩ | ⟨_, rfl⟩ <;> simp [Stage.zone]
        exact hleaves (hs ▸ hplace.1) (hs ▸ hplace.2) (leaves_emitError r _ _)

theorem passes_of_act {a : RunAction} (h : r.act a = some r') : r.Passes a r' := by
  by_cases hstep : ∃ answer, a = .step answer
  · obtain ⟨answer, rfl⟩ := hstep
    exact passes_of_step h
  · have ha : ∀ answer, a ≠ .step answer := fun answer heq => hstep ⟨answer, heq⟩
    rcases act_cases h with ⟨answer, heq, -⟩ | ⟨c, -, hc⟩ | ⟨-, -, rfl⟩ | ⟨answer, -, hc⟩
    · exact absurd heq (ha answer)
    · exact .still ha hc.same.stage hc.same.holding hc.same.session
    · exact .still ha rfl rfl rfl
    · have hspares := (cancelStep_cases hc).spares
      exact .still ha hspares.stage hspares.holding hspares.session

theorem leaves_raises {e : Failure} {caught : Bool} (h : r.raises e caught = some r') :
    r.alive = true ∧ r.Leaves r' := by
  unfold Run.raises at h
  unfold Run.alive
  split at h <;> rename_i hs <;> try cases h
  all_goals rw [hs]
  case h_4 =>
      refine ⟨rfl, ?_⟩
      split
      · exact leaves_emitError r _ _
      · exact leaves_cleanup r
  case h_1 | h_2 | h_3 => exact ⟨rfl, leaves_emitError r _ _⟩
  all_goals exact ⟨rfl, rfl, rfl, rfl⟩

/-- No run comes back. -/
theorem Passes.alive {a : RunAction} (h : r.Passes a r') (halive : r'.alive = true) :
    r.alive = true := by
  have hof : r.stage ≠ .ended → r.alive = true := by
    intro hs
    unfold Run.alive
    split
    · rename_i hended
      exact absurd hended hs
    · rfl
  cases h with
  | still ha hstage hholding hsession =>
      unfold Run.alive at halive ⊢
      rwa [hstage] at halive
  | prepares hzone | works hzone =>
      refine hof fun hs => ?_
      rw [hs] at hzone
      cases hzone
  | lock hs | takes hs | waits hs | resumes hs | checks hs =>
      refine hof ?_
      rw [hs]
      simp
  | leaves hended => exact hof hended

end Run

/-- The lock object and the lock's hold, by where the run is. -/
def Member.Placed (m : Member) : Prop :=
  match m.run.stage.zone with
  | .before => m.lock = none ∧ m.run.holding = false
  | .asking => m.lock = some m.run.session ∧ m.run.holding = false
  | .working => m.lock = some m.run.session ∧ m.run.holding = true
  | .leaving => (m.run.holding = true → m.lock = some m.run.session) ∧
      ∀ s ∈ m.lock, s = m.run.session

namespace Member

theorem Placed.holding (h : m.Placed) (hh : m.run.holding = true) :
    m.lock = some m.run.session := by
  unfold Placed at h
  split at h
  · rw [h.2] at hh
    cases hh
  · exact h.1
  · exact h.1
  · exact h.1 hh

theorem Placed.session (h : m.Placed) {s : Text} (hs : m.lock = some s) : s = m.run.session := by
  unfold Placed at h
  split at h
  · rw [h.1] at hs
    cases hs
  · exact Option.some.inj (hs.symm.trans h.1)
  · exact Option.some.inj (hs.symm.trans h.1)
  · exact h.2 s hs

theorem nextLock_eq (hr : r.stage ≠ .entering) : m.nextLock r = m.lock := by
  unfold nextLock
  split
  · rename_i hs
    exact absurd hs hr
  · rfl

theorem Placed.leaves (h : m.Placed) (hl : m.run.Leaves r) : Placed ⟨r, m.nextLock r⟩ := by
  have hstage : r.stage ≠ .entering := by
    intro hs
    have hzone := hl.zone
    rw [hs] at hzone
    cases hzone
  rw [nextLock_eq hstage]
  unfold Placed
  rw [hl.zone]
  refine ⟨fun hh => ?_, fun s hs => ?_⟩
  · rw [hl.session]
    exact h.holding (hl.holding ▸ hh)
  · rw [hl.session]
    exact h.session hs

theorem Placed.passes {a : RunAction} (h : m.Placed) (hp : m.run.Passes a r) :
    Placed ⟨r, m.nextLock r⟩ := by
  have hplaced := h
  unfold Placed at h
  cases hp with
  | still ha hstage hholding hsession =>
      have hlock : m.nextLock r = m.lock := by
        unfold nextLock
        split
        · rename_i hs
          rw [hstage] at hs
          rw [hs] at h
          rw [h.1, hsession]
        · rfl
      unfold Placed
      rw [hlock, hstage, hholding, hsession]
      exact h
  | prepares hzone hzone' hholding =>
      rw [hzone] at h
      have hstage : r.stage ≠ .entering := by
        intro hs
        rw [hs] at hzone'
        cases hzone'
      unfold Placed
      rw [nextLock_eq hstage, hzone', hholding]
      exact h
  | lock hs =>
      rw [hs] at h
      exact ⟨rfl, h.2⟩
  | takes hs | resumes hs =>
      rw [hs] at h
      exact ⟨h.1, rfl⟩
  | waits hs =>
      rw [hs] at h
      exact h
  | works hzone hzone' hholding hsession =>
      rw [hzone] at h
      have hstage : r.stage ≠ .entering := by
        intro hs
        rw [hs] at hzone'
        cases hzone'
      unfold Placed
      rw [nextLock_eq hstage, hzone', hholding, hsession]
      exact h
  | leaves _ _ _ _ hl => exact hplaced.leaves hl
  | checks hs =>
      rw [hs] at h
      refine ⟨fun hh => ?_, h.2⟩
      cases hh

end Member

/-! ## §4  One step -/

/-- Elsewhere the lock is not called. -/
theorem lockStep_eq {i : ℕ} {a : Answer} {l : Lock ℕ} (hentering : r.stage ≠ .entering)
    (hwaiting : r.stage ≠ .waiting) (hchecking : r.stage ≠ .checking) :
    lockStep i r r' l (.step a) = some l := by
  simp only [lockStep]
  split
  · contradiction
  · contradiction
  · contradiction
  · contradiction
  · rfl

/-- What a move does to the lock and to the hold of its run. -/
inductive LockMove (r r' : Run) (l l' : Lock ℕ) : RunAction → Prop
  | keeps {a : RunAction} (hlocked : l'.locked = l.locked) (hholding : r'.holding = r.holding) :
      LockMove r r' l l' a
  | takes {a : RunAction} (hfree : l.locked = false) (htaken : l'.locked = true) :
      LockMove r r' l l' a
  | drops {a : Answer} (hstage : r.stage = .checking) (hstage' : r'.stage ≠ .entering)
      (hholding : r'.holding = false) (hlocked : l'.locked = false) :
      LockMove r r' l l' (.step a)

theorem lockStep_cases {i : ℕ} {a : RunAction} {l l' : Lock ℕ} (hl : l.Orderly)
    (hp : r.Passes a r') (h : lockStep i r r' l a = some l') :
    l'.Orderly ∧ LockMove r r' l l' a := by
  have hsame : r'.holding = r.holding → some l = some l' →
      l'.Orderly ∧ LockMove r r' l l' a := by
    rintro hholding heq
    cases heq
    exact ⟨hl, .keeps rfl hholding⟩
  cases hp with
  | still ha hstage hholding hsession =>
      unfold lockStep at h
      split at h
      · rename_i answer
        exact absurd rfl (ha answer)
      · split at h
        · split at h
          · cases h
            exact ⟨hl.cancel i, .keeps rfl hholding⟩
          · exact hsame hholding h
        · exact hsame hholding h
  | prepares hzone hzone' hholding | works hzone hzone' hholding =>
      have hplace : r.stage ≠ .entering ∧ r.stage ≠ .waiting ∧ r.stage ≠ .checking := by
        refine ⟨?_, ?_, ?_⟩
        all_goals
          intro hs
          rw [hs] at hzone
          cases hzone
      rw [lockStep_eq hplace.1 hplace.2.1 hplace.2.2] at h
      exact hsame hholding h
  | lock hs =>
      rw [lockStep_eq (by rw [hs]; simp) (by rw [hs]; simp) (by rw [hs]; simp)] at h
      exact hsame rfl h
  | takes hs =>
      unfold lockStep at h
      simp only [hs] at h
      split at h
      · rename_i hfree
        cases h
        exact ⟨Lock.Orderly.take hfree, .takes (Lock.not_locked_of_free hfree) rfl⟩
      · cases h
  | waits hs =>
      unfold lockStep at h
      simp only [hs] at h
      split at h
      · cases h
      · cases h
        exact ⟨hl.wait i, .keeps rfl rfl⟩
  | resumes hs hcancel =>
      unfold lockStep at h
      simp only [hs, hcancel, Bool.false_eq_true, if_false] at h
      split at h
      · rename_i hwoken
        cases h
        exact ⟨hl.resume hwoken, .takes (hl.not_locked_of_woken hwoken) rfl⟩
      · cases h
  | leaves hended hentering hchecking hwaiting hleaves =>
      by_cases hs : r.stage = .waiting
      · unfold lockStep at h
        simp only [hs, hwaiting hs, if_true] at h
        cases h
        exact ⟨hl.abandon i, .keeps (Lock.abandon_locked i) hleaves.holding⟩
      · rw [lockStep_eq hentering hs hchecking] at h
        exact hsame hleaves.holding h
  | checks hs =>
      unfold lockStep at h
      simp only [hs] at h
      split at h
      · cases h
        exact ⟨hl.release, .drops hs (by simp) rfl Lock.release_locked⟩
      · rename_i hlocked
        cases h
        exact ⟨hl, .drops hs (by simp) rfl (Bool.not_eq_true _ ▸ hlocked)⟩

namespace System

variable {S S' : System}

/-- The runs have what they hold, and nobody else does. -/
structure Ordered (S : System) : Prop where
  placed : ∀ (i : ℕ) (m : Member), S.members[i]? = some m → m.Placed
  orderly : ∀ s, (S.locks s).Orderly
  held : ∀ s i, S.Holds i s → (S.locks s).locked = true
  one : ∀ s i j, S.Holds i s → S.Holds j s → i = j

/-- The members after a move, by what they were before. -/
theorem getElem?_put {i : ℕ} (hm : S.members[i]? = some m) (r : Run) (j : ℕ) :
    (S.put i m r).members[j]? = if i = j then some ⟨r, m.nextLock r⟩ else S.members[j]? := by
  obtain ⟨hi, -⟩ := List.getElem?_eq_some_iff.mp hm
  unfold put
  rw [List.getElem?_set]
  simp only [hi, if_true]

theorem placed_put (h : S.Ordered) {i : ℕ} (hm : S.members[i]? = some m)
    (hr : Member.Placed ⟨r, m.nextLock r⟩) (j : ℕ) (m' : Member)
    (hm' : (S.put i m r).members[j]? = some m') : m'.Placed := by
  rw [getElem?_put hm] at hm'
  split at hm'
  · cases hm'
    exact hr
  · exact h.placed j m' hm'

/-- Who holds a lock after a move: the run that moved, or one that held it before. -/
theorem Holds.of_put {i j : ℕ} (hm : S.members[i]? = some m) {s : Text}
    (hmembers : S'.members = (S.put i m r).members) (h : S'.Holds j s) :
    (j = i ∧ r.alive = true ∧ r.holding = true ∧ m.nextLock r = some s) ∨
      (j ≠ i ∧ S.Holds j s) := by
  obtain ⟨m', hm', halive, hholding, hlock⟩ := h
  rw [hmembers, getElem?_put hm] at hm'
  split at hm'
  · rename_i hij
    cases hm'
    exact Or.inl ⟨hij.symm, halive, hholding, hlock⟩
  · rename_i hij
    exact Or.inr ⟨fun heq => hij heq.symm, m', hm', halive, hholding, hlock⟩

/-- Nobody has come to hold a lock. -/
theorem Ordered.keep (h : S.Ordered)
    (hplaced : ∀ (i : ℕ) (m : Member), S'.members[i]? = some m → m.Placed)
    (horderly : ∀ s, (S'.locks s).Orderly)
    (hholds : ∀ s i, S'.Holds i s → S.Holds i s ∧ (S'.locks s).locked = true) : S'.Ordered where
  placed := hplaced
  orderly := horderly
  held := fun s i hi => (hholds s i hi).2
  one := fun s i j hi hj => h.one s i j (hholds s i hi).1 (hholds s j hj).1

/-- A run that holds what it held before. -/
theorem Ordered.keepHold (h : S.Ordered) {i : ℕ} (hm : S.members[i]? = some m)
    (hnext : Member.Placed ⟨r, m.nextLock r⟩) (halive : r.alive = true → m.run.alive = true)
    (hholding : r.holding = m.run.holding) {locks : Text → Lock ℕ}
    (horderly : ∀ s, (locks s).Orderly) (hlocked : ∀ s, (locks s).locked = (S.locks s).locked) :
    Ordered { S.put i m r with locks := locks } := by
  refine h.keep (placed_put h hm hnext) horderly fun s j hj => ?_
  have hheld : S.Holds j s := by
    rcases Holds.of_put hm rfl hj with ⟨rfl, hr, hh, hlock⟩ | ⟨-, hheld⟩
    · refine ⟨m, hm, halive hr, hholding ▸ hh, ?_⟩
      have hstage : r.stage ≠ .entering := by
        intro hentering
        unfold Member.Placed at hnext
        simp only [hentering, Stage.zone] at hnext
        rw [hh] at hnext
        cases hnext.2
      rwa [Member.nextLock_eq hstage] at hlock
    · exact hheld
  exact ⟨hheld, (hlocked s).trans (h.held s j hheld)⟩

/-- A run that takes a free lock. -/
theorem Ordered.takeHold (h : S.Ordered) {i : ℕ} (hm : S.members[i]? = some m)
    (hnext : Member.Placed ⟨r, m.nextLock r⟩) {s : Text} (hs : m.nextLock r = some s)
    {l : Lock ℕ} (horderly : ∀ t, (Function.update S.locks s l t).Orderly)
    (hfree : (S.locks s).locked = false) (htaken : l.locked = true) :
    Ordered { S.put i m r with locks := Function.update S.locks s l } := by
  -- nobody held the lock that was free
  have hcases : ∀ t j, System.Holds { S.put i m r with locks := Function.update S.locks s l } j t →
      (t = s ∧ j = i) ∨ (t ≠ s ∧ S.Holds j t) := by
    intro t j hj
    rcases Holds.of_put hm rfl hj with ⟨rfl, -, -, hlock⟩ | ⟨-, hheld⟩
    · rw [hs] at hlock
      cases hlock
      exact Or.inl ⟨rfl, rfl⟩
    · refine Or.inr ⟨?_, hheld⟩
      rintro rfl
      have hlocked := h.held t j hheld
      rw [hfree] at hlocked
      cases hlocked
  refine ⟨placed_put h hm hnext, horderly, ?_, ?_⟩
  · intro t j hj
    show (Function.update S.locks s l t).locked = true
    rcases hcases t j hj with ⟨rfl, rfl⟩ | ⟨ht, hheld⟩
    · rw [Function.update_self]
      exact htaken
    · rw [Function.update_of_ne ht]
      exact h.held t j hheld
  · intro t j k hj hk
    rcases hcases t j hj with ⟨rfl, rfl⟩ | ⟨ht, hj⟩
    · rcases hcases t k hk with ⟨-, rfl⟩ | ⟨ht, -⟩
      · rfl
      · exact absurd rfl ht
    · rcases hcases t k hk with ⟨rfl, -⟩ | ⟨-, hk⟩
      · exact absurd rfl ht
      · exact h.one t j k hj hk

/-- Under the condition, a run at the check holds a lock that is taken. -/
theorem holds_of_undisturbed {i : ℕ} {a : Answer} (hok : S.undisturbed (.act i (.step a)) = true)
    (hm : S.members[i]? = some m) (hstage : m.run.stage = .checking) {s : Text}
    (hlock : m.lock = some s) (hlocked : (S.locks s).locked = true) : S.Holds i s := by
  refine ⟨m, hm, ?_, ?_, hlock⟩
  · rw [Run.alive, hstage]
  · simpa [undisturbed, hm, hstage, hlock, hlocked] using hok

/-- A run that comes from the check. -/
theorem Ordered.dropHold (h : S.Ordered) {i : ℕ} (hm : S.members[i]? = some m)
    (hnext : Member.Placed ⟨r, m.nextLock r⟩) (hholding : r.holding = false) {s : Text}
    {l : Lock ℕ} (horderly : ∀ t, (Function.update S.locks s l t).Orderly)
    (hmine : (S.locks s).locked = true → S.Holds i s) :
    Ordered { S.put i m r with locks := Function.update S.locks s l } := by
  refine h.keep (placed_put h hm hnext) horderly fun t j hj => ?_
  rcases Holds.of_put hm rfl hj with ⟨-, -, hh, -⟩ | ⟨hne, hheld⟩
  · rw [hholding] at hh
    cases hh
  · refine ⟨hheld, ?_⟩
    show (Function.update S.locks s l t).locked = true
    have ht : t ≠ s := by
      rintro rfl
      exact hne (h.one t j i hheld (hmine (h.held t j hheld)))
    rw [Function.update_of_ne ht]
    exact h.held t j hheld

/-- A move under the run's lock object. -/
theorem Ordered.act (h : S.Ordered) {i : ℕ} {a : RunAction}
    (hok : S.undisturbed (.act i a) = true) (hm : S.members[i]? = some m)
    (hact : m.run.act a = some r) {s : Text} (hs : m.nextLock r = some s) {l : Lock ℕ}
    (hl : lockStep i m.run r (S.locks s) a = some l) :
    Ordered { S.put i m r with locks := Function.update S.locks s l } := by
  have hpasses := Run.passes_of_act hact
  have hnext := (h.placed i m hm).passes hpasses
  obtain ⟨horderly, hmove⟩ := lockStep_cases (h.orderly s) hpasses hl
  have hall : ∀ t, (Function.update S.locks s l t).Orderly := by
    intro t
    by_cases ht : t = s
    · subst ht
      rwa [Function.update_self]
    · rw [Function.update_of_ne ht]
      exact h.orderly t
  cases hmove with
  | keeps hlocked hholding =>
      refine h.keepHold hm hnext hpasses.alive hholding hall fun t => ?_
      by_cases ht : t = s
      · subst ht
        rw [Function.update_self, hlocked]
      · rw [Function.update_of_ne ht]
  | takes hfree htaken => exact h.takeHold hm hnext hs hall hfree htaken
  | drops hstage hstage' hholding hlocked =>
      have hlock : m.lock = some s := by rwa [Member.nextLock_eq hstage'] at hs
      exact h.dropHold hm hnext hholding hall (holds_of_undisturbed hok hm hstage hlock)

theorem Ordered.initial : Ordered ({} : System) := by
  have hnone : ∀ i s, ¬ System.Holds {} i s := by
    rintro i s ⟨m, hm, -⟩
    cases hm
  refine ⟨?_, fun _ => Lock.Orderly.empty, ?_, ?_⟩
  · intro i m hm
    cases hm
  · intro s i hi
    exact absurd hi (hnone i s)
  · intro s i j hi
    exact absurd hi (hnone i s)

theorem Ordered.start (h : S.Ordered) (prepared : PreparedExecution) :
    Ordered { S with members := S.members ++ [{ run := Run.initial prepared }] } := by
  have hcases : ∀ (i : ℕ) (m : Member),
      (S.members ++ [{ run := Run.initial prepared }])[i]? = some m →
        S.members[i]? = some m ∨ m = { run := Run.initial prepared } := by
    intro i m hm
    rw [List.getElem?_append] at hm
    split at hm
    · exact Or.inl hm
    · exact Or.inr (List.mem_singleton.mp (List.mem_of_getElem? hm))
  refine h.keep ?_ h.orderly fun s i hi => ?_
  · intro i m hm
    rcases hcases i m hm with hm | rfl
    · exact h.placed i m hm
    · exact ⟨rfl, rfl⟩
  · obtain ⟨m, hm, halive, hholding, hlock⟩ := hi
    rcases hcases i m hm with hm | rfl
    · exact ⟨⟨m, hm, halive, hholding, hlock⟩, h.held s i ⟨m, hm, halive, hholding, hlock⟩⟩
    · cases hlock

theorem Ordered.forget (h : S.Ordered) {s : Text}
    (hunused : S.members.all (fun m => !m.run.alive || m.lock ≠ some s) = true) :
    Ordered { S with locks := Function.update S.locks s {} } := by
  refine h.keep h.placed (fun t => ?_) fun t i hi => ?_
  · show (Function.update S.locks s {} t).Orderly
    by_cases ht : t = s
    · subst ht
      rw [Function.update_self]
      exact Lock.Orderly.empty
    · rw [Function.update_of_ne ht]
      exact h.orderly t
  · have hheld : S.Holds i t := hi
    refine ⟨hheld, ?_⟩
    have ht : t ≠ s := by
      rintro rfl
      obtain ⟨m, hm, halive, -, hlock⟩ := hheld
      have hm' := List.all_eq_true.mp hunused m (List.mem_of_getElem? hm)
      simp [halive, hlock] at hm'
    show (Function.update S.locks s {} t).locked = true
    rw [Function.update_of_ne ht]
    exact h.held t i hheld

theorem Ordered.step (h : S.Ordered) {a : SystemAction} (hok : S.undisturbed a = true)
    (hstep : S.step a = some S') : S'.Ordered := by
  cases a with
  | start prepared =>
      cases hstep
      exact h.start prepared
  | act i a =>
      obtain ⟨m, hm, hrest⟩ := Option.bind_eq_some_iff.mp hstep
      obtain ⟨r, hact, hput⟩ := Option.bind_eq_some_iff.mp hrest
      split at hput
      · rename_i hnone
        cases hput
        refine h.keep (placed_put h hm ((h.placed i m hm).passes (Run.passes_of_act hact)))
          h.orderly fun s j hj => ?_
        rcases Holds.of_put hm rfl hj with ⟨-, -, -, hlock⟩ | ⟨-, hheld⟩
        · rw [hnone] at hlock
          cases hlock
        · exact ⟨hheld, h.held s j hheld⟩
      · rename_i s hs
        obtain ⟨l, hl, rfl⟩ := Option.map_eq_some_iff.mp hput
        exact h.act hok hm hact hs hl
  | raises i e caught =>
      obtain ⟨m, hm, hrest⟩ := Option.bind_eq_some_iff.mp hstep
      obtain ⟨r, hraises, rfl⟩ := Option.map_eq_some_iff.mp hrest
      obtain ⟨halive, hleaves⟩ := Run.leaves_raises hraises
      exact h.keepHold hm ((h.placed i m hm).leaves hleaves) (fun _ => halive) hleaves.holding
        h.orderly fun _ => rfl
  | forget s =>
      unfold System.step at hstep
      simp only at hstep
      split at hstep
      · rename_i hunused
        cases hstep
        exact h.forget hunused
      · cases hstep

/-- A run at `send_message` holds the lock of its session. -/
theorem Ordered.holds_of_sends (h : S.Ordered) {i : ℕ} {s : Text} (hi : S.Sends i s) :
    S.Holds i s := by
  obtain ⟨m, hm, hstage, hsession⟩ := hi
  have hplaced := h.placed i m hm
  unfold Member.Placed at hplaced
  rw [hstage] at hplaced
  refine ⟨m, hm, ?_, hplaced.2, ?_⟩
  · rw [Run.alive, hstage]
  · rw [← hsession]
    exact hplaced.1

theorem Ordered.exclusive (h : S.Ordered) : S.Exclusive := by
  refine ⟨h.one, ?_, ?_⟩
  · intro s i j hi hj
    exact h.one s i j (h.holds_of_sends hi) (h.holds_of_sends hj)
  · intro s i a S' hok hstep hbefore hafter
    obtain ⟨m, hm, hrest⟩ := Option.bind_eq_some_iff.mp hstep
    obtain ⟨r, hact, hput⟩ := Option.bind_eq_some_iff.mp hrest
    split at hput
    · cases hput
      rw [show (S.put i m r).locks s = S.locks s from rfl, hbefore] at hafter
      cases hafter
    · rename_i t ht
      obtain ⟨l, hl, rfl⟩ := Option.map_eq_some_iff.mp hput
      have hlocks : (Function.update S.locks t l s).locked = false := hafter
      by_cases hs : s = t
      · subst hs
        rw [Function.update_self] at hlocks
        have hmove := (lockStep_cases (h.orderly s) (Run.passes_of_act hact) hl).2
        cases hmove with
        | keeps hlocked =>
            rw [hlocked, hbefore] at hlocks
            cases hlocks
        | takes hfree =>
            rw [hfree] at hbefore
            cases hbefore
        | drops hstage hstage' =>
            rw [Member.nextLock_eq hstage'] at ht
            exact holds_of_undisturbed hok hm hstage ht hbefore
      · rw [Function.update_of_ne hs, hbefore] at hlocks
        cases hlocks

/-! ## §5  Mutual exclusion -/

/-- Runs on one session exclude each other, whoever is cancelled or fails where, as long as no
run that was thrown out of `acquire` comes to its cleanup's check while the lock is taken. -/
theorem runs_exclude_each_other {as : List SystemAction}
    (h : Machine.Runs System.step (fun S a => S.undisturbed a = true) {} as S) : S.Exclusive := by
  have hordered : S.Ordered := h.invariant (fun _ _ _ hi hok hstep => hi.step hok hstep)
    Ordered.initial
  exact hordered.exclusive

end System

/-! The runs of the examples: one message each, on one session. -/

def sharedSession : Text := "session-1".toList

def sharedPrepared : PreparedExecution :=
  { taskId := "task-1".toList, contextId := "context-1".toList, userText := "hi".toList,
    streamingRequest := false, returnImmediately := false, allowStructuredOutput := true,
    emitSessionMetadata := true, emitStreamingMetadata := true, emitInterruptMetadata := true,
    dumps := fun _ _ => [], numerics := .integers, redact := id }

/-- The `i`-th run comes to `acquire`. -/
def uptoAcquire (i : ℕ) (atOnce : Bool) : List SystemAction :=
  [.start sharedPrepared, .act i (.step .ok), .act i (.step (.bound sharedSession false)),
    .act i (.step .ok), .act i (.step (.acquired atOnce))]

/-- The second run waits until the first is done. -/
def inTurns : List SystemAction :=
  uptoAcquire 0 true ++ uptoAcquire 1 false ++
    [.act 0 (.step .ok), .act 0 (.step (.response ⟨[], sharedSession, none, []⟩)),
      .act 0 (.step (.toolResults false)), .act 0 (.step .ok), .act 0 (.step .ok),
      .act 1 (.step .ok), .act 1 (.step .ok)]

def afterTurns : System :=
  Machine.after (Machine.restrict System.step System.undisturbed) {} inTurns (by rfl)

theorem second_run_sends_alone :
    afterTurns.Sends 1 sharedSession ∧ afterTurns.Exclusive := by
  have hruns : Machine.Runs System.step (fun S a => S.undisturbed a = true) {} inTurns
      afterTurns :=
    Machine.runs_of_restrict System.undisturbed (fun _ _ h => h) (Machine.run_after (by rfl))
  exact ⟨⟨_, rfl, rfl, rfl⟩, System.runs_exclude_each_other hruns⟩

/-- The second run is cancelled while it waits for the lock; the third comes after it. -/
def cancelledWaiter : List SystemAction :=
  uptoAcquire 0 true ++ [.act 0 (.step .ok)] ++ uptoAcquire 1 false ++
    [.act 1 .cancel, .act 1 (.step .ok), .act 1 (.step .ok)] ++ uptoAcquire 2 true ++
    [.act 2 (.step .ok)]

def afterCancelledWaiter : System := Machine.after System.step {} cancelledWaiter (by rfl)

/-- Its cleanup releases the first run's lock: two messages to the session are in flight. -/
theorem cancelled_waiter_frees_lock :
    Machine.run System.step {} cancelledWaiter = some afterCancelledWaiter ∧
      afterCancelledWaiter.Sends 0 sharedSession ∧ afterCancelledWaiter.Sends 2 sharedSession ∧
      ¬ afterCancelledWaiter.Exclusive := by
  have hfirst : afterCancelledWaiter.Sends 0 sharedSession := ⟨_, rfl, rfl, rfl⟩
  have hthird : afterCancelledWaiter.Sends 2 sharedSession := ⟨_, rfl, rfl, rfl⟩
  refine ⟨Machine.run_after (by rfl), hfirst, hthird, ?_⟩
  intro h
  have heq : 0 = 2 := h.sending sharedSession 0 2 hfirst hthird
  cases heq

end OpencodeA2a.Execution
