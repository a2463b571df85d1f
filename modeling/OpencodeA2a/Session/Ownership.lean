import OpencodeA2a.Session.Moves

/-!
# Ownership never transfers

The owners table is written in two places only, `finalize_session_claim` and
the end of a creation, each under the session's ownership lock and after
reading the owner under the same lock. So what a suspended call has read of the
owner is still true when it writes (`Known`), and a write finds no owner or its
own identity.
-/

namespace OpencodeA2a.Session

variable {ι : Type}

/-! ## §1  Who holds a lock -/

/-- A table of locks and the suspended calls agree on who holds what. -/
def Agrees {κ : Type} (st : State ι) (f : κ → Option ι)
    (hold : Identity → Call → Option κ) : Prop :=
  ∀ k p, f k = some p ↔ ∃ a c, st.call p = some (a, c) ∧ hold a c = some k

structure Locked (st : State ι) : Prop where
  own : Agrees st st.shared.ownLocks fun _ c => c.ownLock
  ctx : Agrees st st.shared.ctxLocks fun a c => c.ctxLock a

theorem locked_initial (repo : Repository) (ttl : Int) :
    Locked (State.initial ι repo ttl) := by
  constructor <;> intro k p <;> simp [State.initial, Shared.initial, State.call]

theorem Agrees.iff_of_call {κ : Type} {st : State ι} {f : κ → Option ι}
    {hold : Identity → Call → Option κ} (h : Agrees st f hold) {p : ι} {a : Identity}
    {c : Call} (hc : st.call p = some (a, c)) (k : κ) :
    f k = some p ↔ hold a c = some k := by
  rw [h k p]
  constructor
  · rintro ⟨b, d, hd, hk⟩
    rw [hc] at hd
    cases hd
    exact hk
  · intro hk
    exact ⟨a, c, hc, hk⟩

/-- Two calls inside one ownership block are one call. -/
theorem Locked.own_unique {st : State ι} (h : Locked st) {s : SessionId} {p q : ι}
    {a b : Identity} {c d : Call} (hp : st.call p = some (a, c)) (hc : c.ownLock = some s)
    (hq : st.call q = some (b, d)) (hd : d.ownLock = some s) : p = q := by
  have h1 := (h.own.iff_of_call hp s).mpr hc
  have h2 := (h.own.iff_of_call hq s).mpr hd
  rw [h1] at h2
  exact Option.some.inj h2

def Outcome.holds {κ : Type} (hold : Identity → Call → Option κ) (a : Identity) :
    Outcome → Option κ
  | .next c => hold a c
  | _ => none

variable [DecidableEq ι]

/-- A table that follows the acting call keeps agreeing. -/
theorem Agrees.acts {κ : Type} [DecidableEq κ] {st st' : State ι} {f f' : κ → Option ι}
    {hold : Identity → Call → Option κ} (h : Agrees st f hold)
    (hstart : ∀ a c, c.starting → hold a c = none) {p : ι} {pr : Proc ι} {c : Call}
    {k : Cont} {done : Bool} {o : Outcome} (hact : st.Acts act st' p pr c k done o)
    (hmoves : LockTable.Moves f f' (hold pr.identity c) (o.holds hold pr.identity) p) :
    Agrees st' f' hold := by
  intro x q
  rw [hmoves.eq_some_iff (h.iff_of_call hact.call_eq)]
  by_cases hq : q = p
  · subst hq
    simp only [true_and, ne_eq, not_true_eq_false, false_and, or_false]
    constructor
    · intro ho
      cases o with
      | next c' => exact ⟨_, c', hact.call_next rfl, ho⟩
      | returned v | raised e => cases ho
    · rintro ⟨a, c', hc', hk⟩
      cases o with
      | next c'' =>
          rw [hact.call_next rfl] at hc'
          cases hc'
          exact hk
      | returned v | raised e =>
          obtain ⟨rfl, hs⟩ := hact.call_fresh (by simp) hc'
          rw [hstart _ _ hs] at hk
          cases hk
  · simp only [hq, false_and, ne_eq, not_false_eq_true, true_and, false_or]
    rw [h x q, hact.call_others hq]

omit [DecidableEq ι] in
theorem Agrees.quiet {κ : Type} {st st' : State ι} {f : κ → Option ι}
    {hold : Identity → Call → Option κ} (h : Agrees st f hold)
    (hstart : ∀ a c, c.starting → hold a c = none) (hquiet : st.Quiet act st') :
    Agrees st' f hold := by
  intro x q
  rw [h x q]
  rcases hquiet.call q with hc | ⟨hnone, hs⟩
  · rw [hc]
  · constructor
    · rintro ⟨a, c, hc, -⟩
      rw [hnone] at hc
      cases hc
    · rintro ⟨a, c, hc, hk⟩
      rw [hstart a c (hs a c hc)] at hk
      cases hk

theorem locked_step {st st' : State ι} {act : Action ι} (hl : Locked st)
    (h : st.step act = some st') : Locked st' := by
  have hown : ∀ (a : Identity) c, Call.starting c → c.ownLock = none :=
    fun a c hs => (hs.no_lock a).1
  have hctx : ∀ a c, Call.starting c → c.ctxLock a = none := fun a c hs => (hs.no_lock a).2
  rcases State.step_cases h with ⟨p, pr, c, k, done, o, hact⟩ | hquiet
  · obtain ⟨hmown, hmctx⟩ := hact.call_moves.locks
    refine ⟨hl.own.acts hown hact ?_, hl.ctx.acts hctx hact ?_⟩
    · cases o <;> exact hmown
    · cases o <;> exact hmctx
  · have hown' := hl.own.quiet hown hquiet
    have hctx' := hl.ctx.quiet hctx hquiet
    rw [← hquiet.ownLocks] at hown'
    rw [← hquiet.ctxLocks] at hctx'
    exact ⟨hown', hctx'⟩

/-! ## §2  What a call knows of the owner -/

/-- What a suspended call of identity `a` has read of the owners table. -/
def Call.knows (a : Identity) (owners : SessionId → Option Identity) : Call → Prop
  | .claim s (.pending o) => owners s = o
  | .claim s .write => owners s = none
  | .finalize s (.pending o) => owners s = o
  | .finalize s .write => owners s = none ∨ owners s = some a
  | .finalize s .clear => owners s = some a
  | .create _ (.bind _ s o) => owners s = o ∧ foreign a o = false
  | .create _ (.own _ s) => owners s = none
  | _ => True

theorem foreign_eq_false {a : Identity} {o : Option Identity} :
    foreign a o = false ↔ o = none ∨ o = some a := by
  cases o <;> simp [foreign]

theorem Call.starting.knows {c : Call} (h : c.starting) (a : Identity)
    (owners : SessionId → Option Identity) : c.knows a owners := by
  cases c with
  | claim _ pc | finalize _ pc | release _ pc | bind _ _ pc | create _ pc | pop _ pc =>
      cases pc <;> simp_all [Call.starting, Call.knows]

/-- A call only knows something of the session whose lock it holds. -/
theorem Call.knows_congr {a : Identity} {c : Call} {f g : SessionId → Option Identity}
    (hfg : ∀ s, c.ownLock = some s → g s = f s) (h : c.knows a f) : c.knows a g := by
  cases c with
  | claim _ pc | finalize _ pc | release _ pc | bind _ _ pc | create _ pc | pop _ pc =>
      cases pc <;> simp_all [Call.knows, Call.ownLock]

/-- The owner write a call makes at its await, if any. -/
def Call.ownerWrite : Call → Option SessionId
  | .finalize s .write => some s
  | .create _ (.own _ s) => some s
  | _ => none

theorem Call.ownerWrite_ownLock {c : Call} {s : SessionId} (h : c.ownerWrite = some s) :
    c.ownLock = some s := by
  cases c with
  | claim _ pc | finalize _ pc | release _ pc | bind _ _ pc | create _ pc | pop _ pc =>
      cases pc <;> simp_all [Call.ownerWrite, Call.ownLock]

theorem Call.ownerWrite_known {a : Identity} {c : Call} {s : SessionId}
    {owners : SessionId → Option Identity} (h : c.ownerWrite = some s)
    (hk : c.knows a owners) : owners s = none ∨ owners s = some a := by
  cases c with
  | claim _ pc | finalize _ pc | release _ pc | bind _ _ pc | create _ pc | pop _ pc =>
      cases pc <;> simp_all [Call.ownerWrite, Call.knows]

/-- The await of a call changes the owners table by its owner write only. -/
theorem Call.perform_owners {a : Identity} {c : Call} {op : RepoOp}
    (hw : c.await a = .repo op) (ttl now : Int) (r : Repository) :
    (op.perform ttl now r).1.owners =
      match c.ownerWrite with
      | some s => Function.update r.owners s (some a)
      | none => r.owners := by
  rw [RepoOp.perform_owners]
  cases c with
  | claim _ pc | finalize _ pc | release _ pc | bind _ _ pc | create _ pc | pop _ pc =>
      cases pc <;> simp_all [Call.await, Call.ownerWrite] <;> subst hw <;> rfl

omit [DecidableEq ι] in
/-- The owners table after a move of a call. -/
theorem Call.Moves.owners {σ σ' : Shared ι} {p : ι} {a : Identity} {c : Call}
    {o : Outcome} (h : c.Moves σ p a σ' o) :
    σ'.repo.owners = σ.repo.owners ∨
      ∃ s, c.ownerWrite = some s ∧
        σ'.repo.owners = Function.update σ.repo.owners s (some a) := by
  -- whatever the await was, the table is as one operation left it
  have hop : ∀ op, c.await a = .repo op → σ'.repo = (σ.perform op).repo →
      σ'.repo.owners = σ.repo.owners ∨
        ∃ s, c.ownerWrite = some s ∧
          σ'.repo.owners = Function.update σ.repo.owners s (some a) := by
    intro op hw hrepo
    rw [hrepo]
    have hperf := Call.perform_owners hw σ.ttl σ.now σ.repo
    cases hs : c.ownerWrite with
    | none => exact .inl (by rw [hs] at hperf; exact hperf)
    | some s => exact .inr ⟨s, rfl, by rw [hs] at hperf; exact hperf⟩
  rcases h with h | ⟨e, applied, h⟩
  · obtain ⟨σ₁, r, hc, rfl, rfl⟩ := Call.step_eq h
    have hrepo := (c.resume_frame a σ₁ r).1
    rcases Shared.complete_cases hc with ⟨s, -, -, rfl⟩ | ⟨k, -, -, rfl⟩ |
      ⟨op, hw, rfl, -⟩ | ⟨t, ct, -, rfl, -, -⟩
    · exact .inl (congrArg Repository.owners hrepo)
    · exact .inl (congrArg Repository.owners hrepo)
    · exact hop op hw hrepo
    · exact .inl (congrArg Repository.owners hrepo)
  · rcases Call.interrupt_eq h with ⟨-, -, ⟨op, hw, rfl⟩ | ⟨-, rfl⟩⟩ | ⟨t, -, -, h⟩
    · cases applied with
      | true => exact hop op hw rfl
      | false => exact .inl rfl
    · exact .inl rfl
    · rcases h with ⟨-, rfl⟩ | ⟨-, rfl⟩
      · exact .inl (congrArg Repository.owners (σ.cancelTask_frame t).1)
      · exact .inl rfl

omit [DecidableEq ι] in
/-- Taking a lock or waiting for a task teaches the call nothing. -/
theorem Call.resume_knows_of_wait {a : Identity} {c c' : Call} {σ : Shared ι} {r : Reply}
    (hw : ∀ op, c.await a ≠ .repo op) (ho : Outcome.next c' = (c.resume a σ r).2)
    (owners : SessionId → Option Identity) : c'.knows a owners := by
  cases c with
  | claim s pc | finalize s pc | release s pc | bind x s pc | pop x pc =>
      cases pc <;> simp_all [Call.await, Call.resume, Call.knows]
  | create x pc =>
      cases pc <;> cases r <;> simp_all [Call.await, Call.resume, Call.knows]

omit [DecidableEq ι] in
/-- The call's next await, after its repository operation was performed. -/
theorem Call.resume_knows_of_repo {a : Identity} {c c' : Call} {σ : Shared ι} {op : RepoOp}
    (hw : c.await a = .repo op) (hk : c.knows a σ.repo.owners)
    (ho : Outcome.next c' =
      (c.resume a (σ.perform op) (op.perform σ.ttl σ.now σ.repo).2).2) :
    c'.knows a (σ.perform op).repo.owners := by
  have hperf : (σ.perform op).repo.owners = _ :=
    Call.perform_owners hw σ.ttl σ.now σ.repo
  rw [hperf]
  cases c with
  | claim s pc =>
      cases pc <;> simp only [Call.await, reduceCtorEq, Await.repo.injEq] at hw <;>
        subst hw <;> simp only [Call.resume, RepoOp.perform] at ho
      case owner => cases ho; rfl
      case pending o =>
        split_ifs at ho with h1 h2 h3
        cases ho
        simp only [Bool.not_eq_true, foreign_eq_false] at h1
        simp only [Call.knows] at hk
        simp_all [Call.knows, Call.ownerWrite]
      case write => cases ho
  | finalize s pc =>
      cases pc <;> simp only [Call.await, reduceCtorEq, Await.repo.injEq] at hw <;>
        subst hw <;> simp only [Call.resume, RepoOp.perform] at ho
      case owner => cases ho; rfl
      case pending o =>
        split_ifs at ho with h1 h2
        cases ho
        simp only [Bool.not_eq_true, foreign_eq_false] at h1
        simp_all [Call.knows, Call.ownerWrite]
      case write =>
        cases ho
        simp [Call.knows, Call.ownerWrite]
      case clear => cases ho
  | release s pc =>
      cases pc <;> simp_all [Call.await, Call.resume]
  | bind x s pc =>
      cases pc <;> simp_all [Call.await, Call.resume]
  | pop x pc =>
      cases pc <;> simp_all [Call.await, Call.resume]
  | create x pc =>
      cases pc <;> simp only [Call.await, reduceCtorEq, Await.repo.injEq] at hw <;>
        subst hw <;> simp only [Call.resume, RepoOp.perform] at ho
      case read =>
        split at ho <;> simp_all [Call.knows]
      case owner t s =>
        split_ifs at ho with h1
        cases ho
        exact ⟨rfl, by simpa using h1⟩
      case bind t s o =>
        split_ifs at ho with h1
        cases ho
        subst h1
        exact hk.1
      case own t s => cases ho

omit [DecidableEq ι] in
/-- What the call knows at its next await. -/
theorem Call.Moves.knows {σ σ' : Shared ι} {p : ι} {a : Identity} {c c' : Call}
    (h : c.Moves σ p a σ' (.next c')) (hk : c.knows a σ.repo.owners) :
    c'.knows a σ'.repo.owners := by
  rcases h with h | ⟨e, applied, h⟩
  · obtain ⟨σ₁, r, hc, ho, rfl⟩ := Call.step_eq h
    have hrepo := (c.resume_frame a σ₁ r).1
    show c'.knows a ((c.resume a σ₁ r).1.repo.owners)
    rw [hrepo]
    rcases Shared.complete_cases hc with ⟨s, hw, -, -⟩ | ⟨k, hw, -, -⟩ |
      ⟨op, hw, rfl, rfl⟩ | ⟨t, ct, hw, -⟩
    · exact Call.resume_knows_of_wait (by simp [hw]) ho _
    · exact Call.resume_knows_of_wait (by simp [hw]) ho _
    · exact Call.resume_knows_of_repo hw hk ho
    · exact Call.resume_knows_of_wait (by simp [hw]) ho _
  · rcases Call.interrupt_eq h with ⟨ho, -, -⟩ | ⟨t, -, -, ⟨ho, rfl⟩ | ⟨ho, -⟩⟩
    · cases ho
    · cases ho
      rwa [(σ.cancelTask_frame t).1]
    · cases ho

/-! ## §3  The owner stays -/

/-- Everything the suspended calls have read of the owners is still true. -/
def Known (st : State ι) : Prop :=
  ∀ p a c, st.call p = some (a, c) → c.knows a st.shared.repo.owners

theorem known_step {st st' : State ι} {act : Action ι} (hl : Locked st) (hk : Known st)
    (h : st.step act = some st') : Known st' := by
  rcases State.step_cases h with ⟨p, pr, c, k, done, o, hact⟩ | hquiet
  · intro q b d hd
    by_cases hq : q = p
    · subst hq
      cases o with
      | next c' =>
          rw [hact.call_next rfl] at hd
          cases hd
          exact hact.call_moves.knows (hk q _ _ hact.call_eq)
      | returned v | raised e =>
          exact (hact.call_fresh (by simp) hd).2.knows b _
    · -- the writer holds the lock of the session it writes, so `q` does not
      rw [hact.call_others hq] at hd
      rcases hact.call_moves.owners with howners | ⟨s, hs, howners⟩
      · rw [howners]
        exact hk q b d hd
      · refine Call.knows_congr ?_ (hk q b d hd)
        intro s' hs'
        rw [howners]
        refine Function.update_of_ne ?_ _ _
        rintro rfl
        exact hq (hl.own_unique hd hs' hact.call_eq (Call.ownerWrite_ownLock hs))
  · intro q b d hd
    rw [hquiet.repo]
    rcases hquiet.call q with hc | ⟨-, hs⟩
    · exact hk q b d (hc ▸ hd)
    · exact (hs b d hd).knows b _

/-- One step writes an owner only where there is none or where it is the same. -/
theorem owners_step {st st' : State ι} {act : Action ι} (hk : Known st)
    (h : st.step act = some st') (s : SessionId) :
    st'.shared.repo.owners s = st.shared.repo.owners s ∨
      st.shared.repo.owners s = none ∧ ∃ p pr c k done o,
        st.Acts act st' p pr c k done o ∧ c.ownerWrite = some s ∧
          st'.shared.repo.owners s = some pr.identity := by
  rcases State.step_cases h with ⟨p, pr, c, k, done, o, hact⟩ | hquiet
  · rcases hact.call_moves.owners with howners | ⟨s', hs', howners⟩
    · exact .inl (congrFun howners s)
    · by_cases hs : s = s'
      · subst hs
        have hnew : st'.shared.repo.owners s = some pr.identity := by
          rw [howners, Function.update_self]
        rcases Call.ownerWrite_known hs' (hk p _ _ hact.call_eq) with hnone | hsame
        · exact .inr ⟨hnone, p, pr, c, k, done, o, hact, hs', hnew⟩
        · exact .inl (hnew.trans hsame.symm)
      · exact .inl (by rw [howners, Function.update_of_ne hs])
  · exact .inl (by rw [hquiet.repo])

theorem owner_stays {st st' : State ι} {act : Action ι} (hk : Known st)
    (h : st.step act = some st') {s : SessionId} {a : Identity}
    (hown : st.shared.repo.owners s = some a) : st'.shared.repo.owners s = some a := by
  rcases owners_step hk h s with hsame | ⟨hnone, -⟩
  · exact hsame.trans hown
  · rw [hown] at hnone
    cases hnone

/-- The lock discipline and the calls' knowledge, in every reachable state. -/
theorem Reachable.known {repo : Repository} {ttl : Int} {st : State ι}
    (h : Reachable repo ttl st) : Locked st ∧ Known st := by
  refine Machine.Reachable.invariant (I := fun st => Locked st ∧ Known st) ?_ h
    ⟨locked_initial repo ttl, ?_⟩
  · intro s act t hs hstep
    exact ⟨locked_step hs.1 hstep, known_step hs.1 hs.2 hstep⟩
  · intro p a c hc
    simp [State.initial, State.call] at hc

/-- **Ownership never transfers**: whatever the database was at the start and
whatever any processes do afterwards, with exceptions and cancellations at any
await, a recorded owner stays. -/
theorem owner_never_transfers {repo : Repository} {ttl : Int} {st st' : State ι}
    {s : SessionId} {a : Identity} {acts : List (Action ι)} (h : Reachable repo ttl st)
    (hown : st.shared.repo.owners s = some a)
    (hrun : Machine.run State.step st acts = some st') :
    st'.shared.repo.owners s = some a := by
  have hinv := (Machine.runs_iff_run.mpr hrun).invariant
    (I := fun st => (Locked st ∧ Known st) ∧ st.shared.repo.owners s = some a) ?_
    ⟨h.known, hown⟩
  · exact hinv.2
  · rintro st₁ act st₂ ⟨⟨hl, hk⟩, hown₁⟩ - hstep
    exact ⟨⟨locked_step hl hstep, known_step hl hk hstep⟩, owner_stays hk hstep hown₁⟩

/-! The names of the runs that follow. -/

def user1 : Identity := ⟨"user-1", by decide⟩
def user2 : Identity := ⟨"user-2", by decide⟩
def session1 : SessionId := ⟨"session-1", by decide⟩

/-- `user-1` creates `session-1` for the context `context-A`. -/
def creation : List (Action ℕ) :=
  [.spawn 0 user1 (.getOrCreate "context-A" none), .step 0, .step 0, .taskReturn 0 session1,
    .step 0, .step 0, .step 0, .step 0, .step 0, .step 0]

/-- A claim of `session-1` by `user-2`, turned away after its two reads. -/
def foreignClaim : List (Action ℕ) :=
  [.spawn 1 user2 (.getOrCreate "context-B" (some session1)), .step 1, .step 1, .step 1]

/-- The state in which `user-1` owns `session-1`. -/
def created : State ℕ :=
  Machine.after State.step (State.initial ℕ Repository.empty 30) creation (by rfl)

theorem owner_survives_foreign_claim :
    ∃ st' : State ℕ, Machine.run State.step created foreignClaim = some st' ∧
      st'.shared.repo.owners session1 = some user1 :=
  have hcreated : Reachable Repository.empty 30 created :=
    ⟨creation, Machine.run_after (by rfl)⟩
  ⟨_, Machine.run_after (by rfl),
    owner_never_transfers hcreated (by decide) (Machine.run_after (by rfl))⟩

end OpencodeA2a.Session
