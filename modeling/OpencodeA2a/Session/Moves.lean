import OpencodeA2a.Session.Process

/-!
# Lock discipline

A process holds exactly the locks its suspended call holds (`Locked`), so two
processes are never inside the `async with` block of one lock together. Since a
step only moves the acting process, this follows from what one call does with
its locks between two awaits.
-/

namespace OpencodeA2a.Session

variable {ι : Type}

/-! ## §1  Locks between two awaits -/

section Resume

variable (a : Identity) (σ : Shared ι) (c : Call) (r : Reply)

@[simp] theorem Shared.popInflight_repo (k : Key) (t : ℕ) :
    (σ.popInflight k t).repo = σ.repo := by
  unfold popInflight; split <;> rfl

@[simp] theorem Shared.popInflight_ownLocks (k : Key) (t : ℕ) :
    (σ.popInflight k t).ownLocks = σ.ownLocks := by
  unfold popInflight; split <;> rfl

@[simp] theorem Shared.popInflight_ctxLocks (k : Key) (t : ℕ) :
    (σ.popInflight k t).ctxLocks = σ.ctxLocks := by
  unfold popInflight; split <;> rfl

@[simp] theorem Shared.popInflight_clock (k : Key) (t : ℕ) :
    (σ.popInflight k t).now = σ.now ∧ (σ.popInflight k t).ttl = σ.ttl := by
  unfold popInflight; split <;> exact ⟨rfl, rfl⟩

@[simp] theorem Shared.popInflight_tasks (k : Key) (t : ℕ) :
    (σ.popInflight k t).tasks = σ.tasks := by
  unfold popInflight; split <;> rfl

@[simp] theorem Shared.inflightOrCreate_repo (k : Key) :
    (σ.inflightOrCreate k).1.repo = σ.repo := by
  unfold inflightOrCreate; split <;> rfl

@[simp] theorem Shared.inflightOrCreate_ownLocks (k : Key) :
    (σ.inflightOrCreate k).1.ownLocks = σ.ownLocks := by
  unfold inflightOrCreate; split <;> rfl

@[simp] theorem Shared.inflightOrCreate_ctxLocks (k : Key) :
    (σ.inflightOrCreate k).1.ctxLocks = σ.ctxLocks := by
  unfold inflightOrCreate; split <;> rfl

@[simp] theorem Shared.inflightOrCreate_clock (k : Key) :
    (σ.inflightOrCreate k).1.now = σ.now ∧ (σ.inflightOrCreate k).1.ttl = σ.ttl := by
  unfold inflightOrCreate; split <;> exact ⟨rfl, rfl⟩

/-- The code between two awaits touches neither the tables, nor the locks, nor
the clock. -/
theorem Call.resume_frame :
    (c.resume a σ r).1.repo = σ.repo ∧
      (c.resume a σ r).1.ownLocks = σ.ownLocks ∧
      (c.resume a σ r).1.ctxLocks = σ.ctxLocks ∧
      (c.resume a σ r).1.now = σ.now ∧ (c.resume a σ r).1.ttl = σ.ttl := by
  unfold Call.resume
  split <;> (try split_ifs) <;> simp

/-- After its ownership lock was granted the call is inside that block. -/
theorem Call.resume_of_ownLock {s : SessionId} (h : c.await a = .ownLock s) :
    c.ownLock = none ∧ (c.resume a σ r).2.ownLock = some s := by
  cases c with
  | claim _ pc | finalize _ pc | release _ pc | bind _ _ pc | create _ pc | pop _ pc =>
      cases pc <;>
        simp_all [Call.await, Call.ownLock, Call.resume, Outcome.ownLock]

/-- Every other await leaves the call in its ownership block, or takes it out. -/
theorem Call.resume_ownLock (h : ∀ s, c.await a ≠ .ownLock s) :
    (c.resume a σ r).2.ownLock = c.ownLock ∨ (c.resume a σ r).2.ownLock = none := by
  unfold Call.resume
  split <;> (try split_ifs) <;> simp_all [Call.await, Call.ownLock, Outcome.ownLock]

theorem Call.resume_of_ctxLock {k : Key} (h : c.await a = .ctxLock k) :
    c.ctxLock a = none ∧ (c.resume a σ r).2.ctxLock a = some k := by
  cases c with
  | claim _ pc | finalize _ pc | release _ pc | bind _ _ pc | create _ pc | pop _ pc =>
      cases pc <;>
        simp_all [Call.await, Call.ctxLock, Call.resume, Outcome.ctxLock]

theorem Call.resume_ctxLock (h : ∀ k, c.await a ≠ .ctxLock k) :
    (c.resume a σ r).2.ctxLock a = c.ctxLock a ∨ (c.resume a σ r).2.ctxLock a = none := by
  unfold Call.resume
  split <;> (try split_ifs) <;> simp_all [Call.await, Call.ctxLock, Outcome.ctxLock]

end Resume

/-! ## §2  Locks across one move of a call

A call moves by completing its await or by an exception at it. -/

def Call.Moves (σ : Shared ι) (p : ι) (a : Identity) (c : Call) (σ' : Shared ι)
    (o : Outcome) : Prop :=
  c.step σ p a = some (σ', o) ∨ ∃ e applied, c.interrupt σ a e applied = some (σ', o)

/-- What a completed await does to the shared state before the code runs on. -/
theorem Call.step_eq {σ σ' : Shared ι} {p : ι} {a : Identity} {c : Call} {o : Outcome}
    (h : c.step σ p a = some (σ', o)) :
    ∃ σ₁ r, σ.complete p (c.await a) = some (σ₁, r) ∧ o = (c.resume a σ₁ r).2 ∧
      σ' = (c.resume a σ₁ r).1.unlock a c o := by
  unfold Call.step at h
  split at h
  · rename_i σ₁ r hc
    simp only [Option.some.injEq, Prod.mk.injEq] at h
    obtain ⟨rfl, rfl⟩ := h
    exact ⟨σ₁, r, hc, rfl, rfl⟩
  · cases h

/-- What an exception at the await can do. -/
theorem Call.interrupt_eq {σ σ' : Shared ι} {a : Identity} {c : Call} {e : Exc}
    {applied : Bool} {o : Outcome} (h : c.interrupt σ a e applied = some (σ', o)) :
    (o = .raised e ∧ (∀ t, c.await a ≠ .task t) ∧
      ((∃ op, c.await a = .repo op ∧
          σ' = (if applied then σ.perform op else σ).unlock a c o) ∨
        (∀ op, c.await a ≠ .repo op) ∧ σ' = σ.unlock a c o)) ∨
    ∃ t, c.await a = .task t ∧ e = .cancelled ∧
      (o = .next c ∧ σ' = σ.cancelTask t ∨ o = .raised .cancelled ∧ σ' = σ) := by
  unfold Call.interrupt at h
  split at h
  · split at h
    · rename_i s hw _
      simp only [Option.some.injEq, Prod.mk.injEq] at h
      obtain ⟨rfl, rfl⟩ := h
      simp [hw]
    · cases h
  · split at h
    · rename_i k hw _
      simp only [Option.some.injEq, Prod.mk.injEq] at h
      obtain ⟨rfl, rfl⟩ := h
      simp [hw]
    · cases h
  · rename_i op hw
    split at h
    · simp only [Option.some.injEq, Prod.mk.injEq] at h
      obtain ⟨rfl, rfl⟩ := h
      exact .inl ⟨rfl, by simp [hw], .inl ⟨op, hw, rfl⟩⟩
    · cases h
  · rename_i t hw
    split at h
    · rename_i he
      subst he
      split at h <;> (simp only [Option.some.injEq, Prod.mk.injEq] at h; obtain ⟨rfl, rfl⟩ := h)
      · exact .inr ⟨t, hw, rfl, .inl ⟨rfl, rfl⟩⟩
      · exact .inr ⟨t, hw, rfl, .inl ⟨rfl, rfl⟩⟩
      · exact .inr ⟨t, hw, rfl, .inr ⟨rfl, rfl⟩⟩
    · cases h

theorem Shared.complete_cases {σ σ₁ : Shared ι} {p : ι} {w : Await} {r : Reply}
    (h : σ.complete p w = some (σ₁, r)) :
    (∃ s, w = .ownLock s ∧ σ.ownLocks s = none ∧
        σ₁ = { σ with ownLocks := LockTable.enter σ.ownLocks s p }) ∨
      (∃ k, w = .ctxLock k ∧ σ.ctxLocks k = none ∧
        σ₁ = { σ with ctxLocks := LockTable.enter σ.ctxLocks k p }) ∨
      (∃ op, w = .repo op ∧ σ₁ = σ.perform op ∧ r = (op.perform σ.ttl σ.now σ.repo).2) ∨
      ∃ t ct, w = .task t ∧ σ₁ = σ ∧ σ.tasks t = some ct ∧
        ((∃ s, ct.state = .done s ∧ r = .taskDone s) ∨
          (ct.state = .failed ∧ r = .taskFailed) ∨
          (ct.state = .cancelled ∧ r = .taskCancelled)) := by
  cases w with
  | ownLock s =>
      simp only [complete] at h
      split at h
      · rename_i hfree
        simp only [Option.some.injEq, Prod.mk.injEq] at h
        exact .inl ⟨s, rfl, hfree, h.1.symm⟩
      · cases h
  | ctxLock k =>
      simp only [complete] at h
      split at h
      · rename_i hfree
        simp only [Option.some.injEq, Prod.mk.injEq] at h
        exact .inr (.inl ⟨k, rfl, hfree, h.1.symm⟩)
      · cases h
  | repo op =>
      simp only [complete, Option.some.injEq, Prod.mk.injEq] at h
      exact .inr (.inr (.inl ⟨op, rfl, h.1.symm, h.2.symm⟩))
  | task t =>
      simp only [complete] at h
      split at h <;> (try cases h) <;> rename_i ht
      · exact .inr (.inr (.inr ⟨t, _, rfl, rfl, ht, .inl ⟨_, rfl, rfl⟩⟩))
      · exact .inr (.inr (.inr ⟨t, _, rfl, rfl, ht, .inr (.inl ⟨rfl, rfl⟩)⟩))
      · exact .inr (.inr (.inr ⟨t, _, rfl, rfl, ht, .inr (.inr ⟨rfl, rfl⟩)⟩))

/-- Only a creation awaits a task, and it holds no lock there. -/
theorem Call.of_await_task {a : Identity} {c : Call} {t : ℕ}
    (h : c.await a = .task t) : ∃ x, c = .create x (.task t) := by
  cases c with
  | create x pc => cases pc <;> simp_all [Call.await]
  | claim _ pc | finalize _ pc | release _ pc | bind _ _ pc | pop _ pc =>
      cases pc <;> simp [Call.await] at h

theorem Shared.cancelTask_frame (σ : Shared ι) (t : ℕ) :
    (σ.cancelTask t).repo = σ.repo ∧ (σ.cancelTask t).ownLocks = σ.ownLocks ∧
      (σ.cancelTask t).ctxLocks = σ.ctxLocks ∧ (σ.cancelTask t).now = σ.now ∧
      (σ.cancelTask t).ttl = σ.ttl := by
  unfold cancelTask
  split
  · unfold setTask
    split <;> exact ⟨rfl, rfl, rfl, rfl, rfl⟩
  · exact ⟨rfl, rfl, rfl, rfl, rfl⟩

/-- One move of a call is one move in each table of locks. -/
theorem Call.Moves.locks {σ σ' : Shared ι} {p : ι} {a : Identity} {c : Call}
    {o : Outcome} (h : c.Moves σ p a σ' o) :
    LockTable.Moves σ.ownLocks σ'.ownLocks c.ownLock o.ownLock p ∧
      LockTable.Moves σ.ctxLocks σ'.ctxLocks (c.ctxLock a) (o.ctxLock a) p := by
  rcases h with h | ⟨e, applied, h⟩
  · obtain ⟨σ₁, r, hc, rfl, rfl⟩ := Call.step_eq h
    obtain ⟨-, hown, hctx, -, -⟩ := c.resume_frame a σ₁ r
    simp only [Shared.unlock, hown, hctx]
    rcases Shared.complete_cases hc with ⟨s, hw, hfree, rfl⟩ | ⟨k, hw, hfree, rfl⟩ |
      ⟨op, hw, rfl, -⟩ | ⟨t, ct, hw, rfl, -, -⟩
    · obtain ⟨hnone, hsome⟩ := c.resume_of_ownLock a _ r hw
      refine ⟨.inl ⟨hnone, s, hsome, hfree, ?_⟩,
        .inr ⟨c.resume_ctxLock a _ r (by simp [hw]), rfl⟩⟩
      rw [hnone]; rfl
    · obtain ⟨hnone, hsome⟩ := c.resume_of_ctxLock a _ r hw
      refine ⟨.inr ⟨c.resume_ownLock a _ r (by simp [hw]), rfl⟩,
        .inl ⟨hnone, k, hsome, hfree, ?_⟩⟩
      rw [hnone]; rfl
    · exact ⟨.inr ⟨c.resume_ownLock a _ r (by simp [hw]), rfl⟩,
        .inr ⟨c.resume_ctxLock a _ r (by simp [hw]), rfl⟩⟩
    · exact ⟨.inr ⟨c.resume_ownLock a _ r (by simp [hw]), rfl⟩,
        .inr ⟨c.resume_ctxLock a _ r (by simp [hw]), rfl⟩⟩
  · rcases Call.interrupt_eq h with ⟨rfl, -, h⟩ | ⟨t, hw, -, h⟩
    · rcases h with ⟨op, -, rfl⟩ | ⟨-, rfl⟩
      · cases applied <;> exact ⟨.inr ⟨.inr rfl, rfl⟩, .inr ⟨.inr rfl, rfl⟩⟩
      · exact ⟨.inr ⟨.inr rfl, rfl⟩, .inr ⟨.inr rfl, rfl⟩⟩
    · obtain ⟨x, rfl⟩ := Call.of_await_task hw
      obtain ⟨-, hown, hctx, -, -⟩ := σ.cancelTask_frame t
      rcases h with ⟨rfl, rfl⟩ | ⟨rfl, rfl⟩
      · exact ⟨.inr ⟨.inl rfl, hown⟩, .inr ⟨.inl rfl, hctx⟩⟩
      · exact ⟨.inr ⟨.inr rfl, rfl⟩, .inr ⟨.inr rfl, rfl⟩⟩

/-! ## §3  What a step of the system does to calls

For the tables and the locks a process is just the call it is suspended in. -/

def Proc.call (pr : Proc ι) : Option Call :=
  match pr.stage with
  | .running c _ => some c
  | _ => none

/-- The call of `p`, with its identity. -/
def State.call (st : State ι) (p : ι) : Option (Identity × Call) :=
  (st.procs p).bind fun pr => pr.call.map fun c => (pr.identity, c)

/-- Whether the call is at its first await, before it did anything. -/
def Call.starting : Call → Prop
  | .claim _ .lock | .finalize _ .lock | .release _ .lock | .bind _ _ .lock
  | .create _ .lock | .pop _ .lock => True
  | _ => False

theorem Call.starting.no_lock {c : Call} (h : c.starting) (a : Identity) :
    c.ownLock = none ∧ c.ctxLock a = none := by
  cases c with
  | claim _ pc | finalize _ pc | release _ pc | bind _ _ pc | create _ pc | pop _ pc =>
      cases pc <;> simp_all [Call.starting, Call.ownLock, Call.ctxLock]

theorem State.call_eq_some {st : State ι} {p : ι} {a : Identity} {c : Call} :
    st.call p = some (a, c) ↔
      ∃ pr k, st.procs p = some pr ∧ pr.identity = a ∧ pr.stage = .running c k := by
  unfold State.call Proc.call
  cases st.procs p with
  | none => simp
  | some pr =>
      cases hs : pr.stage <;> simp [hs]

/-- A process that is between calls: whatever it does next, it starts a call
from the beginning or is in none. -/
def Proc.Fresh (pr : Proc ι) (a : Identity) : Prop :=
  pr.identity = a ∧ ∀ c, pr.call = some c → c.starting

theorem Proc.fresh_of_stage {pr : Proc ι} {x : Stage}
    (h : ∀ c k, x = .running c k → c.starting) :
    Proc.Fresh { pr with stage := x } pr.identity := by
  refine ⟨rfl, ?_⟩
  intro c hc
  unfold Proc.call at hc
  dsimp only at hc
  split at hc
  · cases hc
    exact h _ _ rfl
  · cases hc

theorem Script.start_fresh (a : Identity) (script : Script ι) :
    (Proc.spawn a script).Fresh a := by
  refine ⟨rfl, ?_⟩
  intro c hc
  unfold Proc.spawn Proc.call Script.start at hc
  dsimp only at hc
  split at hc
  · rename_i heq
    cases hc
    split at heq <;> cases heq <;> trivial
  · cases hc

section Results

variable (pr : Proc ι) (k : Cont) (v : Value) (e : Exc)

theorem Proc.bound_fresh (s : SessionId) (b : Bool) : (pr.bound s b).Fresh pr.identity := by
  unfold Proc.bound
  split <;> exact ⟨rfl, by simp [Proc.call]⟩

theorem Proc.claimed_fresh (b : Bool) : (pr.claimed b).Fresh pr.identity := by
  unfold Proc.claimed
  split
  · split
    · exact pr.bound_fresh _ _
    · exact ⟨rfl, by simp [Proc.call, Call.starting]⟩
  · split
    · exact pr.bound_fresh _ _
    · exact ⟨rfl, by simp [Proc.call, Call.starting]⟩
  · exact ⟨rfl, by simp [Proc.call]⟩
  · exact ⟨rfl, by simp [Proc.call]⟩

theorem Proc.fail_fresh : (pr.fail e).Fresh pr.identity := by
  unfold Proc.fail
  split <;> exact ⟨rfl, by simp [Proc.call, Call.starting]⟩

theorem Proc.guardFinalized_fresh : pr.guardFinalized.Fresh pr.identity := by
  unfold Proc.guardFinalized
  split <;> exact ⟨rfl, by simp [Proc.call, Call.starting]⟩

theorem Proc.answer_fresh (f : Option SessionId) (h : pr.stage = .upstream) :
    (pr.answer f).Fresh pr.identity := by
  unfold Proc.answer
  split
  · split <;> exact ⟨rfl, by simp [Proc.call, Call.starting]⟩
  · dsimp only
    split
    · exact ⟨rfl, by simp [Proc.call, Call.starting]⟩
    · exact Proc.guardFinalized_fresh _
  · exact ⟨rfl, by simp [Proc.call, h]⟩

theorem Proc.finalized_fresh : pr.finalized.Fresh pr.identity := by
  unfold Proc.finalized
  split
  · exact ⟨rfl, by simp [Proc.call, Call.starting]⟩
  · exact ⟨rfl, by simp [Proc.call, Call.starting]⟩
  · exact Proc.guardFinalized_fresh _
  · exact ⟨rfl, by simp [Proc.call]⟩

theorem Proc.returned_fresh : (pr.returned k v).Fresh pr.identity := by
  unfold Proc.returned
  split
  · exact pr.claimed_fresh _
  · exact pr.bound_fresh _ _
  · exact pr.bound_fresh _ _
  · exact pr.finalized_fresh
  · split <;> exact ⟨rfl, by simp [Proc.call]⟩
  · exact ⟨rfl, by simp [Proc.call]⟩
  · split <;> exact ⟨rfl, by simp [Proc.call]⟩
  · split <;> exact ⟨rfl, by simp [Proc.call]⟩
  · exact ⟨rfl, by simp [Proc.call]⟩

theorem Proc.raised_fresh : (pr.raised k e).Fresh pr.identity := by
  unfold Proc.raised
  split
  · exact pr.fail_fresh e
  · exact pr.fail_fresh e
  · exact pr.fail_fresh e
  · split <;> exact ⟨rfl, by simp [Proc.call]⟩
  · split <;> exact ⟨rfl, by simp [Proc.call]⟩
  · exact ⟨rfl, by simp [Proc.call]⟩

theorem Proc.track_frame (now : Int) (c : Call) (done : Bool) (o : Outcome) :
    (pr.track now c done o).identity = pr.identity ∧
      (pr.track now c done o).script = pr.script ∧
      (pr.track now c done o).session = pr.session ∧
      (pr.track now c done o).pending = pr.pending ∧
      (pr.track now c done o).fork = pr.fork ∧
      (pr.track now c done o).answered = pr.answered ∧
      (pr.track now c done o).failure = pr.failure ∧
      (pr.track now c done o).cancelled = pr.cancelled := by
  unfold Proc.track
  split <;> exact ⟨rfl, rfl, rfl, rfl, rfl, rfl, rfl, rfl⟩

end Results

/-- What a step does to process `q` when no call moves. -/
inductive Proc.Between (act : Action ι) (q : ι) : Option (Proc ι) → Option (Proc ι) → Prop
  | stay (x : Option (Proc ι)) : Between act q x x
  | spawn (a : Identity) (script : Script ι) :
      act = .spawn q a script → Between act q none (some (Proc.spawn a script))
  | answer (pr : Proc ι) (fork : Option SessionId) :
      pr.stage = .upstream → Between act q (some pr) (some (pr.answer fork))
  | fail (pr : Proc ι) (e : Exc) :
      pr.stage = .upstream ∨ pr.stage = .working →
      Between act q (some pr)
        (some ({ pr with cancelled := pr.cancelled || decide (e = Exc.cancelled) }.fail e))
  | turn (pr : Proc ι) :
      pr.stage = .working → Between act q (some pr) (some { pr with stage := .upstream })
  | finish (pr : Proc ι) (b : Bool) :
      pr.stage = .working ∨ (∃ t, pr.stage = .aborting t) → (pr.cancelled = true → b = true) →
      Between act q (some pr)
        (some { pr with stage := .ended (.returned .unit), cancelled := b })
  | cancel (pr : Proc ι) : Between act q (some pr) (some { pr with cancelled := true })

/-- The process awaits the creation task `t`. -/
def State.Awaits (st : State ι) (q : ι) (t : ℕ) : Prop :=
  ∃ a x, st.call q = some (a, .create x (.task t))

/-- The step calls `task.cancel()` on process `q`. -/
def State.Hits (st : State ι) (act : Action ι) (q : ι) : Prop :=
  (∃ applied, act = .interrupt q .cancelled applied) ∨
    ∃ p pr x, act = .abort p ∧ st.procs p = some pr ∧ pr.script = .cancel x (some q)

/-- The step cancels the creation `t`: it cancels a process that awaits it, or it
is the end of the `executor.cancel` that popped it. -/
def State.Cancels (st : State ι) (act : Action ι) (t : ℕ) : Prop :=
  (∃ q, st.Hits act q ∧ st.Awaits q t) ∨
    ∃ p pr, act = .abort p ∧ st.procs p = some pr ∧ pr.stage = .aborting (some t)

/-- What a step may do to a creation that has been started. -/
inductive State.TaskMoves (st : State ι) (act : Action ι) (t : ℕ) :
    Option CreateTask → Option CreateTask → Prop
  | stay (x : Option CreateTask) : TaskMoves st act t x x
  | done (k : Key) (s : SessionId) :
      TaskMoves st act t (some ⟨k, .pending⟩) (some ⟨k, .done s⟩)
  | failed (k : Key) : TaskMoves st act t (some ⟨k, .pending⟩) (some ⟨k, .failed⟩)
  | stopped (k : Key) : TaskMoves st act t (some ⟨k, .cancelling⟩) (some ⟨k, .cancelled⟩)
  | cancel (k : Key) :
      st.Cancels act t → TaskMoves st act t (some ⟨k, .pending⟩) (some ⟨k, .cancelling⟩)

theorem Shared.cancelTask_tasks (σ : Shared ι) (t t' : ℕ) :
    (σ.cancelTask t).tasks t' = σ.tasks t' ∨
      t' = t ∧ ∃ k, σ.tasks t = some ⟨k, .pending⟩ ∧
        (σ.cancelTask t).tasks t = some ⟨k, .cancelling⟩ := by
  unfold cancelTask
  split
  · rename_i k hk
    unfold setTask
    rw [hk]
    by_cases ht : t' = t
    · subst ht
      exact .inr ⟨rfl, k, rfl, Function.update_self _ _ _⟩
    · exact .inl (Function.update_of_ne ht _ _)
  · exact .inl rfl

theorem Shared.cancelTask_inflight (σ : Shared ι) (t : ℕ) :
    (σ.cancelTask t).inflight = σ.inflight ∧ (σ.cancelTask t).nextTask = σ.nextTask := by
  unfold cancelTask
  split
  · unfold setTask
    split <;> exact ⟨rfl, rfl⟩
  · exact ⟨rfl, rfl⟩

/-- A step in which no call moves: tables and locks stay, every suspended call
stays where it is, a process without a call may start one. -/
structure State.Quiet (st : State ι) (act : Action ι) (st' : State ι) : Prop where
  repo : st'.shared.repo = st.shared.repo
  ownLocks : st'.shared.ownLocks = st.shared.ownLocks
  ctxLocks : st'.shared.ctxLocks = st.shared.ctxLocks
  ttl : st'.shared.ttl = st.shared.ttl
  now : st.shared.now ≤ st'.shared.now
  inflight : st'.shared.inflight = st.shared.inflight
  nextTask : st'.shared.nextTask = st.shared.nextTask
  tasks : ∀ t, st.TaskMoves act t (st.shared.tasks t) (st'.shared.tasks t)
  procs : ∀ q, Proc.Between act q (st.procs q) (st'.procs q)

theorem State.quiet_tick (st : State ι) (act : Action ι) (d : ℕ) :
    st.Quiet act { st with shared := { st.shared with now := st.shared.now + d } } := by
  have hnow : st.shared.now ≤ st.shared.now + (d : Int) := by omega
  exact ⟨rfl, rfl, rfl, rfl, hnow, rfl, rfl, fun _ => .stay _, fun _ => .stay _⟩

theorem State.quiet_setTaskOf {st st' : State ι} {act : Action ι} {t : ℕ}
    {x y : TaskState} (h : st.setTaskOf t x y = some st')
    (hmove : ∀ k, st.TaskMoves act t (some ⟨k, x⟩) (some ⟨k, y⟩)) : st.Quiet act st' := by
  unfold State.setTaskOf at h
  split at h
  · rename_i ct hct
    split at h
    · rename_i hx
      obtain rfl := Option.some.inj h
      unfold Shared.setTask
      rw [hct]
      refine ⟨rfl, rfl, rfl, rfl, le_refl _, rfl, rfl, ?_, fun _ => .stay _⟩
      intro t'
      by_cases ht : t' = t
      · subst ht
        dsimp only
        rw [hct, Function.update_self]
        obtain ⟨k, z⟩ := ct
        obtain rfl : z = x := hx
        exact hmove k
      · dsimp only
        rw [Function.update_of_ne ht]
        exact .stay _
    · cases h
  · cases h

theorem Proc.call_of_stage {pr : Proc ι} (h : ∀ c k, pr.stage ≠ .running c k) :
    pr.call = none := by
  unfold Proc.call
  split
  · rename_i c k hs
    exact absurd hs (h c k)
  · rfl

variable [DecidableEq ι]

@[simp] theorem State.setProc_procs (st : State ι) (p : ι) (pr : Proc ι) :
    (st.setProc p pr).procs = Function.update st.procs p (some pr) := rfl

@[simp] theorem State.setProc_shared (st : State ι) (p : ι) (pr : Proc ι) :
    (st.setProc p pr).shared = st.shared := rfl

/-- The tables after an await, whose operation was `done` or not. -/
def Await.effect (σ : Shared ι) (done : Bool) : Await → Repository
  | .repo op => if done then (σ.perform op).repo else σ.repo
  | _ => σ.repo

/-- The process after its call `c` moved. -/
def Proc.moved (pr : Proc ι) (b : Bool) (now : Int) (c : Call) (k : Cont) (done : Bool)
    (o : Outcome) : Proc ι :=
  ({ pr with cancelled := b }.track now c done o).next k o

/-- Whether a step raises `CancelledError` at an await. -/
def Action.cancels : Action ι → Bool
  | .interrupt _ .cancelled _ => true
  | _ => false

/-- A step in which the call `c` of `p` moves, by completing its await or by an
exception at it; `done` says that its repository operation took effect. -/
structure State.Acts (st : State ι) (act : Action ι) (st' : State ι) (p : ι) (pr : Proc ι)
    (c : Call) (k : Cont) (done : Bool) (o : Outcome) : Prop where
  proc : st.procs p = some pr
  stage : pr.stage = .running c k
  moves : (act = .step p ∧ done = true ∧
      c.step st.shared p pr.identity = some (st'.shared, o)) ∨
    ∃ e, act = .interrupt p e done ∧
      c.interrupt st.shared pr.identity e done = some (st'.shared, o)
  procs : st'.procs = Function.update st.procs p
    (some (pr.moved (pr.cancelled || act.cancels) st.shared.now c k done o))

/-- A step of the one process `p` outside its calls. -/
theorem State.quiet_setProc {st : State ι} {act : Action ι} {p : ι} {pr' : Proc ι}
    (h : Proc.Between act p (st.procs p) (some pr')) : st.Quiet act (st.setProc p pr') := by
  refine ⟨rfl, rfl, rfl, rfl, le_refl _, rfl, rfl, fun _ => .stay _, ?_⟩
  intro q
  by_cases hq : q = p
  · subst hq
    rw [setProc_procs, Function.update_self]
    exact h
  · rw [setProc_procs, Function.update_of_ne hq]
    exact .stay _

/-- `running_task.cancel()` marks the process and cancels the creation it awaits. -/
theorem State.cancelProc_frame (st : State ι) (q : ι) :
    (st.cancelProc q).procs = Function.update st.procs q
        ((st.procs q).map fun pr => { pr with cancelled := true }) ∧
      ((st.cancelProc q).shared = st.shared ∨
        ∃ t, st.Awaits q t ∧ (st.cancelProc q).shared = st.shared.cancelTask t) := by
  unfold State.cancelProc
  cases hq : st.procs q with
  | none => exact ⟨(Function.update_eq_self_iff.mpr (by simp [hq])).symm, .inl rfl⟩
  | some pr =>
      dsimp only
      split
      · rename_i x t k hstage
        refine ⟨rfl, .inr ⟨t, ⟨pr.identity, x, ?_⟩, rfl⟩⟩
        exact State.call_eq_some.mpr ⟨pr, k, hq, rfl, hstage⟩
      · exact ⟨rfl, .inl rfl⟩

omit [DecidableEq ι] in
theorem State.Quiet.cancelTask {st st' st'' : State ι} {act : Action ι}
    (h : st.Quiet act st') (hprocs : st''.procs = st'.procs)
    (hshared : st''.shared = st'.shared ∨
      ∃ t, st.Cancels act t ∧ st''.shared = st'.shared.cancelTask t) :
    st.Quiet act st'' := by
  rcases hshared with hs | ⟨t, hcancels, hs⟩
  · exact ⟨hs ▸ h.repo, hs ▸ h.ownLocks, hs ▸ h.ctxLocks, hs ▸ h.ttl, hs ▸ h.now,
      hs ▸ h.inflight, hs ▸ h.nextTask, hs ▸ h.tasks, hprocs ▸ h.procs⟩
  · obtain ⟨hrepo, hown, hctx, hnow, httl⟩ := st'.shared.cancelTask_frame t
    obtain ⟨hinflight, hnext⟩ := st'.shared.cancelTask_inflight t
    rw [← hs] at hrepo hown hctx hnow httl hinflight hnext
    refine ⟨hrepo.trans h.repo, hown.trans h.ownLocks, hctx.trans h.ctxLocks,
      httl.trans h.ttl, hnow ▸ h.now, hinflight.trans h.inflight, hnext.trans h.nextTask, ?_,
      hprocs ▸ h.procs⟩
    intro t'
    have htask := h.tasks t'
    rw [hs]
    rcases st'.shared.cancelTask_tasks t t' with hsame | ⟨rfl, k, hpending, hcancelling⟩
    · rw [hsame]
      exact htask
    · -- the creation was still pending, so it was pending before the step
      rw [hcancelling]
      rw [hpending] at htask
      generalize hx : st.shared.tasks t' = x at htask
      cases htask
      exact .cancel k hcancels

/-- The end of `executor.cancel`, whose target may be any process. -/
theorem State.quiet_finish_cancel {st : State ι} {p : ι} {pr : Proc ι} {x : ContextId}
    {t : Option ℕ} {q : ι} (hp : st.procs p = some pr)
    (hscript : pr.script = .cancel x (some q)) (hstage : pr.stage = .aborting t) :
    st.Quiet (.abort p)
      ((st.setProc p { pr with stage := .ended (.returned .unit) }).cancelProc q) := by
  obtain ⟨hprocs, hshared⟩ :=
    State.cancelProc_frame (st.setProc p { pr with stage := .ended (.returned .unit) }) q
  suffices hbase : st.Quiet (.abort p) ⟨st.shared, Function.update
      (st.setProc p { pr with stage := .ended (.returned .unit) }).procs q
      (((st.setProc p { pr with stage := .ended (.returned .unit) }).procs q).map
        fun pr => { pr with cancelled := true })⟩ by
    refine hbase.cancelTask hprocs ?_
    rcases hshared with hs | ⟨t', ⟨a, y, hcall⟩, hs⟩
    · exact .inl hs
    · refine .inr ⟨t', .inl ⟨q, .inr ⟨p, pr, x, rfl, hp, hscript⟩, a, y, ?_⟩, hs⟩
      by_cases hqp : q = p
      · subst hqp
        simp [State.call, Proc.call] at hcall
      · unfold State.call at hcall ⊢
        rwa [setProc_procs, Function.update_of_ne hqp] at hcall
  refine ⟨rfl, rfl, rfl, rfl, le_refl _, rfl, rfl, fun _ => .stay _, ?_⟩
  intro q'
  dsimp only
  by_cases hqp : q' = p
  · subst hqp
    by_cases hq : q' = q
    · subst hq
      rw [Function.update_self, setProc_procs, Function.update_self, hp]
      exact .finish pr true (.inr ⟨t, hstage⟩) fun _ => rfl
    · rw [Function.update_of_ne hq, setProc_procs, Function.update_self, hp]
      exact .finish pr pr.cancelled (.inr ⟨t, hstage⟩) id
  · by_cases hq : q' = q
    · subst hq
      rw [Function.update_self, setProc_procs, Function.update_of_ne hqp]
      cases st.procs q' with
      | none => exact .stay _
      | some pr' => exact .cancel pr'
    · rw [Function.update_of_ne hq, setProc_procs, Function.update_of_ne hqp]
      exact .stay _

theorem State.quiet_abort {st st' : State ι} {p : ι}
    (h : st.step (.abort p) = some st') : st.Quiet (.abort p) st' := by
  simp only [State.step] at h
  split at h
  · rename_i pr hp
    split at h
    · rename_i x target t hscript hstage
      obtain rfl := Option.some.inj h
      have hset : st.Quiet (.abort p)
          (st.setProc p { pr with stage := .ended (.returned .unit) }) := by
        refine State.quiet_setProc ?_
        rw [hp]
        exact .finish pr pr.cancelled (.inr ⟨t, hstage⟩) id
      have hpopped : ∀ t', t = some t' → st.Cancels (.abort p) t' := by
        rintro t' rfl
        exact .inr ⟨p, pr, rfl, hp, hstage⟩
      cases target with
      | none =>
          cases t with
          | none => exact hset
          | some t => exact hset.cancelTask rfl (.inr ⟨t, hpopped t rfl, rfl⟩)
      | some q =>
          have hcancel := State.quiet_finish_cancel hp hscript hstage
          cases t with
          | none => exact hcancel
          | some t => exact hcancel.cancelTask rfl (.inr ⟨t, hpopped t rfl, rfl⟩)
    · cases h
  · cases h

/-- An exception at an await moves the call. -/
theorem State.acts_of_interrupt {st st' : State ι} {p : ι} {e : Exc} {applied : Bool}
    (h : st.step (.interrupt p e applied) = some st') :
    ∃ pr c k o, st.Acts (.interrupt p e applied) st' p pr c k applied o := by
  simp only [State.step] at h
  split at h
  · rename_i pr hp
    split at h
    · rename_i c k hstage
      split at h
      · rename_i σ o hc
        obtain rfl := Option.some.inj h
        refine ⟨pr, c, k, o, hp, hstage, .inr ⟨e, rfl, hc⟩, ?_⟩
        cases e <;> simp [Action.cancels, Proc.moved]
      · cases h
    · cases h
  · cases h

theorem State.acts_of_step {st st' : State ι} {p : ι} (h : st.step (.step p) = some st') :
    ∃ pr c k o, st.Acts (.step p) st' p pr c k true o := by
  simp only [State.step] at h
  split at h
  · rename_i pr hp
    split at h
    · rename_i c k hstage
      split at h
      · rename_i σ o hc
        obtain rfl := Option.some.inj h
        refine ⟨pr, c, k, o, hp, hstage, .inl ⟨rfl, rfl, hc⟩, ?_⟩
        simp [Action.cancels, Proc.moved]
      · cases h
    · cases h
  · cases h

/-- A process that is in the right stage goes on by itself. -/
theorem guarded_setProc {st st' : State ι} {p : ι} {P : Proc ι → Prop} [∀ pr, Decidable (P pr)]
    {f : Proc ι → Proc ι}
    (h : (match st.procs p with
      | some pr => if P pr then some (st.setProc p (f pr)) else none
      | none => none) = some st') :
    ∃ pr, st.procs p = some pr ∧ P pr ∧ st' = st.setProc p (f pr) := by
  split at h
  · rename_i pr hp
    split at h
    · rename_i hstage
      exact ⟨pr, hp, hstage, (Option.some.inj h).symm⟩
    · cases h
  · cases h

/-- Every step moves one call or none. -/
theorem State.step_cases {st st' : State ι} {act : Action ι} (h : st.step act = some st') :
    (∃ p pr c k done o, st.Acts act st' p pr c k done o) ∨ st.Quiet act st' := by
  cases act with
  | spawn p a script =>
      simp only [State.step] at h
      split at h
      · rename_i hp
        obtain rfl := Option.some.inj h
        refine .inr (State.quiet_setProc ?_)
        rw [hp]
        exact .spawn a script rfl
      · cases h
  | step p =>
      obtain ⟨pr, c, k, o, hact⟩ := State.acts_of_step h
      exact .inl ⟨p, pr, c, k, true, o, hact⟩
  | interrupt p e applied =>
      obtain ⟨pr, c, k, o, hact⟩ := State.acts_of_interrupt h
      exact .inl ⟨p, pr, c, k, applied, o, hact⟩
  | answer p fork =>
      obtain ⟨pr, hp, hstage, rfl⟩ := guarded_setProc h
      refine .inr (State.quiet_setProc ?_)
      rw [hp]
      exact .answer pr fork hstage
  | fail p e =>
      obtain ⟨pr, hp, hstage, rfl⟩ := guarded_setProc h
      refine .inr (State.quiet_setProc ?_)
      rw [hp]
      exact .fail pr e (Or.imp And.left And.left hstage)
  | turn p =>
      obtain ⟨pr, hp, hstage, rfl⟩ := guarded_setProc h
      refine .inr (State.quiet_setProc ?_)
      rw [hp]
      exact .turn pr hstage
  | finish p =>
      obtain ⟨pr, hp, hstage, rfl⟩ := guarded_setProc h
      refine .inr (State.quiet_setProc ?_)
      rw [hp]
      exact .finish pr pr.cancelled (.inl hstage) id
  | abort p => exact .inr (State.quiet_abort h)
  | taskReturn t s => exact .inr (State.quiet_setTaskOf h fun k => .done k s)
  | taskFail t => exact .inr (State.quiet_setTaskOf h fun k => .failed k)
  | taskStop t => exact .inr (State.quiet_setTaskOf h fun k => .stopped k)
  | tick d =>
      obtain rfl := Option.some.inj h
      exact .inr (st.quiet_tick _ d)

omit [DecidableEq ι] in
/-- Between calls a process may start a call from the beginning, or none. -/
theorem State.Quiet.call {st st' : State ι} {act : Action ι} (h : st.Quiet act st') (q : ι) :
    st'.call q = st.call q ∨
      st.call q = none ∧ ∀ a c, st'.call q = some (a, c) → c.starting := by
  -- a process outside every call became a fresh one
  have hfresh : ∀ (pr : Proc ι) {pr' : Proc ι}, (∀ c k, pr.stage ≠ .running c k) →
      pr'.Fresh pr.identity → st.procs q = some pr → st'.procs q = some pr' →
      st.call q = none ∧ ∀ a c, st'.call q = some (a, c) → c.starting := by
    intro pr pr' hstage hf hpr hpr'
    refine ⟨by simp [State.call, hpr, Proc.call_of_stage hstage], ?_⟩
    intro a c hc
    obtain ⟨pr₁, k, hpr₁, -, hs⟩ := State.call_eq_some.mp hc
    obtain rfl := Option.some.inj (hpr'.symm.trans hpr₁)
    exact hf.2 c (by unfold Proc.call; rw [hs])
  have hb := h.procs q
  generalize hx : st.procs q = x at hb
  generalize hy : st'.procs q = y at hb
  cases hb with
  | stay => exact .inl (by simp [State.call, hx, hy])
  | spawn a script =>
      refine .inr ⟨by simp [State.call, hx], ?_⟩
      intro b c hc
      obtain ⟨pr₁, k, hpr₁, -, hs⟩ := State.call_eq_some.mp hc
      obtain rfl := Option.some.inj (hy.symm.trans hpr₁)
      exact (Script.start_fresh a script).2 c (by unfold Proc.call; rw [hs])
  | answer pr fork hs => exact .inr (hfresh pr (by simp [hs]) (pr.answer_fresh fork hs) hx hy)
  | fail pr e hs =>
      have hf := Proc.fail_fresh
        { pr with cancelled := pr.cancelled || decide (e = Exc.cancelled) } e
      refine .inr (hfresh pr ?_ hf hx hy)
      rcases hs with hs | hs <;> simp [hs]
  | turn pr hs => exact .inr (hfresh pr (by simp [hs]) (Proc.fresh_of_stage (by simp)) hx hy)
  | finish pr b hs hb =>
      have hf : Proc.Fresh
          { pr with stage := .ended (.returned .unit), cancelled := b } pr.identity :=
        ⟨rfl, by simp [Proc.call]⟩
      refine .inr (hfresh pr ?_ hf hx hy)
      rcases hs with hs | ⟨t, hs⟩ <;> simp [hs]
  | cancel pr => exact .inl (by simp [State.call, hx, hy, Proc.call])

namespace State.Acts

variable {st st' : State ι} {act : Action ι} {p : ι} {pr : Proc ι} {c : Call} {k : Cont}
  {done : Bool} {o : Outcome}

theorem call_eq (h : st.Acts act st' p pr c k done o) : st.call p = some (pr.identity, c) :=
  State.call_eq_some.mpr ⟨pr, k, h.proc, rfl, h.stage⟩

theorem call_moves (h : st.Acts act st' p pr c k done o) :
    c.Moves st.shared p pr.identity st'.shared o := by
  rcases h.moves with ⟨-, -, hs⟩ | ⟨e, -, he⟩
  · exact .inl hs
  · exact .inr ⟨e, done, he⟩

theorem others (h : st.Acts act st' p pr c k done o) {q : ι} (hq : q ≠ p) :
    st'.procs q = st.procs q := by
  rw [h.procs, Function.update_of_ne hq]

theorem call_others (h : st.Acts act st' p pr c k done o) {q : ι} (hq : q ≠ p) :
    st'.call q = st.call q := by
  unfold State.call
  rw [h.others hq]

theorem call_next (h : st.Acts act st' p pr c k done o) {c' : Call} (ho : o = .next c') :
    st'.call p = some (pr.identity, c') := by
  subst ho
  refine State.call_eq_some.mpr ⟨_, k, by rw [h.procs, Function.update_self], ?_, rfl⟩
  exact (Proc.track_frame _ _ _ _ _).1

theorem call_fresh (h : st.Acts act st' p pr c k done o) (ho : ∀ c', o ≠ .next c')
    {a : Identity} {c' : Call} (hc : st'.call p = some (a, c')) :
    a = pr.identity ∧ c'.starting := by
  obtain ⟨pr', k', hpr', rfl, hstage⟩ := State.call_eq_some.mp hc
  rw [h.procs, Function.update_self] at hpr'
  obtain rfl := Option.some.inj hpr'
  have hfresh : Proc.Fresh (pr.moved (pr.cancelled || act.cancels) st.shared.now c k done o)
      pr.identity := by
    unfold Proc.moved
    have hid := (Proc.track_frame { pr with cancelled := pr.cancelled || act.cancels }
      st.shared.now c done o).1
    cases o with
    | next c'' => exact absurd rfl (ho c'')
    | returned v => exact (hid ▸ Proc.returned_fresh _ k v :)
    | raised e => exact (hid ▸ Proc.raised_fresh _ k e :)
  exact ⟨hfresh.1, hfresh.2 c' (by unfold Proc.call; rw [hstage])⟩

/-- What the move does to the tables: the operation it waits for, or nothing. -/
theorem repo (h : st.Acts act st' p pr c k done o) :
    st'.shared.repo = (c.await pr.identity).effect st.shared done := by
  rcases h.moves with ⟨-, rfl, hs⟩ | ⟨e, -, he⟩
  · obtain ⟨σ₁, r, hc, -, hσ⟩ := Call.step_eq hs
    have hrepo : st'.shared.repo = σ₁.repo := by
      rw [hσ]
      exact (c.resume_frame pr.identity σ₁ r).1
    rw [hrepo]
    rcases Shared.complete_cases hc with ⟨s, hw, -, rfl⟩ | ⟨x, hw, -, rfl⟩ |
      ⟨op, hw, rfl, -⟩ | ⟨t, ct, hw, rfl, -, -⟩ <;> (rw [hw]; rfl)
  · rcases Call.interrupt_eq he with ⟨-, -, ⟨op, hw, hσ⟩ | ⟨hw, hσ⟩⟩ | ⟨t, hw, -, hσ⟩
    · rw [hσ, hw]
      cases done <;> rfl
    · rw [hσ]
      show st.shared.repo = _
      cases hop : c.await pr.identity with
      | repo op => exact absurd hop (hw op)
      | ownLock s | ctxLock x | task t => rfl
    · rw [hw]
      rcases hσ with ⟨-, hσ⟩ | ⟨-, hσ⟩
      · rw [hσ]
        exact (st.shared.cancelTask_frame t).1
      · rw [hσ]
        rfl

theorem clock (h : st.Acts act st' p pr c k done o) :
    st'.shared.now = st.shared.now ∧ st'.shared.ttl = st.shared.ttl := by
  rcases h.moves with ⟨-, -, hs⟩ | ⟨e, -, he⟩
  · obtain ⟨σ₁, r, hc, -, hσ⟩ := Call.step_eq hs
    obtain ⟨-, -, -, hnow, httl⟩ := c.resume_frame pr.identity σ₁ r
    have hclock : σ₁.now = st.shared.now ∧ σ₁.ttl = st.shared.ttl := by
      rcases Shared.complete_cases hc with ⟨s, -, -, rfl⟩ | ⟨x, -, -, rfl⟩ |
        ⟨op, -, rfl, -⟩ | ⟨t, ct, -, rfl, -, -⟩ <;> exact ⟨rfl, rfl⟩
    rw [hσ]
    exact ⟨hnow.trans hclock.1, httl.trans hclock.2⟩
  · rcases Call.interrupt_eq he with ⟨-, -, ⟨op, -, hσ⟩ | ⟨-, hσ⟩⟩ | ⟨t, -, -, hσ⟩
    · rw [hσ]
      cases done <;> exact ⟨rfl, rfl⟩
    · rw [hσ]
      exact ⟨rfl, rfl⟩
    · obtain ⟨-, -, -, hnow, httl⟩ := st.shared.cancelTask_frame t
      rcases hσ with ⟨-, hσ⟩ | ⟨-, hσ⟩
      · rw [hσ]
        exact ⟨hnow, httl⟩
      · rw [hσ]
        exact ⟨rfl, rfl⟩

/-- The repository operation the move waited for was performed and the code ran
on with its reply, or an exception came out of it. -/
theorem reply (h : st.Acts act st' p pr c k done o) {op : RepoOp}
    (hw : c.await pr.identity = .repo op) :
    (act = .step p ∧ done = true ∧
      o = (c.resume pr.identity (st.shared.perform op)
        (op.perform st.shared.ttl st.shared.now st.shared.repo).2).2) ∨
      ∃ e, act = .interrupt p e done ∧ o = .raised e := by
  rcases h.moves with ⟨hact, hdone, hs⟩ | ⟨e, hact, he⟩
  · obtain ⟨σ₁, r, hc, ho, -⟩ := Call.step_eq hs
    rw [hw] at hc
    simp only [Shared.complete, Option.some.injEq, Prod.mk.injEq] at hc
    obtain ⟨rfl, rfl⟩ := hc
    exact .inl ⟨hact, hdone, ho⟩
  · rcases Call.interrupt_eq he with ⟨ho, -, -⟩ | ⟨t, hw', -, -⟩
    · exact .inr ⟨e, hact, ho⟩
    · rw [hw] at hw'
      cases hw'

end State.Acts

end OpencodeA2a.Session
