import OpencodeA2a.Session.Claims

/-!
# Claiming a session of one's own

`claim_preferred_session` returns `False` for the owner, but looks at pending claims first:
it relies on no foreign claim being pending on a session that has an owner. A finalisation
sees to that; a creation does not look.
-/

namespace OpencodeA2a.Session

variable {ι : Type}

/-! ## §1  Claims that are pending -/

section Pending

variable {ttl now : Int} {r : Repository} {s : SessionId} {b : Identity} {op : RepoOp}

/-- The claim of `b` is what `get_pending_claim` answers. -/
def Repository.Pending (r : Repository) (ttl now : Int) (s : SessionId) (b : Identity) : Prop :=
  0 < ttl ∧ ∃ e, r.claims s = some ⟨b, some e⟩ ∧ now < e

theorem Repository.Pending.earlier {later : Int} (h : r.Pending ttl later s b) (hnow : now ≤ later) :
    r.Pending ttl now s b := by
  obtain ⟨httl, e, he, hlive⟩ := h
  exact ⟨httl, e, he, by omega⟩

theorem Repository.getPendingClaim_eq_some :
    (r.getPendingClaim ttl now s).2 = some b ↔ r.Pending ttl now s b := by
  constructor
  · intro h
    unfold Repository.getPendingClaim at h
    simp only at h
    split at h
    · cases h
    · rename_i c hc
      have hclaim := Repository.claims_prune hc
      split at h
      · cases h
      · rename_i e he
        split at h
        · cases h
        · rename_i hlive
          obtain ⟨identity, expiresAt⟩ := c
          cases h
          cases he
          refine ⟨?_, e, hclaim, not_le.mp hlive⟩
          by_contra httl
          unfold Repository.prune at hc
          simp only at hc
          rw [if_pos (not_lt.mp httl)] at hc
          cases hc
  · rintro ⟨httl, e, he, hnow⟩
    exact (Repository.Row.getPendingClaim_self ⟨e, he, le_refl e⟩ httl hnow).1

/-- Only `set_pending_claim` makes a claim. -/
theorem RepoOp.perform_pending (h : (op.perform ttl now r).1.Pending ttl now s b) :
    r.Pending ttl now s b ∨ op = .setPendingClaim s b := by
  obtain ⟨httl, e, he, hlive⟩ := h
  exact (RepoOp.perform_claims he).imp_left fun hold => ⟨httl, e, hold, hlive⟩

end Pending

/-! ## §2  An owner without foreign claims -/

def State.Pending (st : State ι) (s : SessionId) (b : Identity) : Prop :=
  st.shared.repo.Pending st.shared.ttl st.shared.now s b

/-- Where a creation records an owner, no other identity has a claim pending. -/
def CreatesUnclaimed (st : State ι) (act : Action ι) : Prop :=
  ∀ p a x t s, act.performs p → st.call p = some (a, .create x (.own t s)) →
    ∀ b, st.Pending s b → b = a

/-- A database in which an owner has no foreign claims. -/
def Repository.Settled (r : Repository) : Prop :=
  ∀ s a, r.owners s = some a → ∀ ttl now b, r.Pending ttl now s b → b = a

structure Uncontested (st : State ι) : Prop where
  owned : ∀ s a, st.shared.repo.owners s = some a → ∀ b, st.Pending s b → b = a
  checked : ∀ p a c s, st.call p = some (a, c) → c.checked = some s → ∀ b, st.Pending s b → b = a

variable [DecidableEq ι] {st st' : State ι} {act : Action ι}

section Acts

variable {p : ι} {pr : Proc ι} {c : Call} {k : Cont} {done : Bool} {o : Outcome}

/-- A claim that is pending after the move was so before, or is the one the move made. -/
theorem State.Acts.pending (h : st.Acts act st' p pr c k done o) {s : SessionId} {b : Identity}
    (hb : st'.Pending s b) : st.Pending s b ∨ c = .claim s .write ∧ b = pr.identity := by
  unfold State.Pending at hb
  rw [h.clock.1, h.clock.2, h.repo] at hb
  cases hw : c.await pr.identity with
  | ownLock s' | ctxLock x | task t =>
      rw [hw] at hb
      exact .inl hb
  | repo op =>
      rw [hw] at hb
      cases done with
      | false => exact .inl hb
      | true =>
          rcases RepoOp.perform_pending hb with hold | rfl
          · exact .inl hold
          · obtain ⟨hid, hc⟩ := Call.await_setPendingClaim hw
            exact .inr ⟨hc, hid⟩

end Acts

theorem owned_step (hl : Known st) (hu : Uncontested st) (hok : CreatesUnclaimed st act)
    (h : st.step act = some st') {s : SessionId} {a b : Identity}
    (hown : st'.shared.repo.owners s = some a) (hb : st'.Pending s b) : b = a := by
  rcases State.step_cases h with ⟨p, pr, c, k, done, o, hact⟩ | hquiet
  · rcases hact.pending hb with hold | ⟨rfl, rfl⟩
    · rcases owners_step hl h s with hsame | ⟨hnone, q, qr, d, l, done', o', hact', hwrite, hnew⟩
      · exact hu.owned s a (hsame ▸ hown) b hold
      · -- the owner is recorded now
        obtain rfl := Option.some.inj (hnew.symm.trans hown)
        cases done' with
        | false =>
            have hkept : st'.shared.repo = st.shared.repo := by
              rw [hact'.repo]
              cases d.await qr.identity <;> rfl
            rw [hkept] at hnew
            exact absurd hnew (by simp [hnone])
        | true =>
            cases d with
            | finalize s' pc =>
                cases pc <;> cases hwrite
                exact hu.checked q _ _ s hact'.call_eq rfl b hold
            | create x pc =>
                cases pc <;> cases hwrite
                exact hok q _ x _ s hact'.performs hact'.call_eq b hold
            | claim s' pc | release s' pc | bind x s' pc | pop x pc => cases hwrite
    · -- the claim is made now, where there was no owner
      have hnone : st.shared.repo.owners s = none := hl p _ _ hact.call_eq
      rcases hact.call_moves.owners with hsame | ⟨s', hwrite, -⟩
      · rw [hsame, hnone] at hown
        cases hown
      · cases hwrite
  · have hold : st.Pending s b := by
      unfold State.Pending at hb ⊢
      rw [hquiet.repo, hquiet.ttl] at hb
      exact hb.earlier hquiet.now
    rw [hquiet.repo] at hown
    exact hu.owned s a hown b hold

theorem uncontested_checked_step (hlocked : Locked st) (hu : Uncontested st)
    (h : st.step act = some st') {q : ι} {a b : Identity} {d : Call} {s : SessionId}
    (hq : st'.call q = some (a, d)) (hd : d.checked = some s) (hb : st'.Pending s b) : b = a := by
  rcases State.step_cases h with ⟨p, pr, c, k, done, o, hact⟩ | hquiet
  · by_cases hqp : q = p
    · subst hqp
      cases o with
      | next c' =>
          rw [hact.call_next rfl] at hq
          cases hq
          obtain ⟨x, hx, -, hforeign⟩ := hact.checked hd
          rcases hact.pending hb with hold | ⟨rfl, -⟩
          · rw [Repository.getPendingClaim_eq_some.mpr hold] at hforeign
            simpa [foreign_eq_false] using hforeign
          · rcases hx with hx | hx <;> cases hx
      | returned v | raised e =>
          obtain ⟨-, hstart⟩ := hact.call_fresh (by simp) hq
          rw [hstart.not_checked] at hd
          cases hd
    · rw [hact.call_others hqp] at hq
      rcases hact.pending hb with hold | ⟨rfl, -⟩
      · exact hu.checked q a d s hq hd b hold
      · -- the claim is made inside the block that `q` is in
        exact absurd (hlocked.own_unique hq (Call.checked_ownLock hd) hact.call_eq rfl) hqp
  · have hold : st.Pending s b := by
      unfold State.Pending at hb ⊢
      rw [hquiet.repo, hquiet.ttl] at hb
      exact hb.earlier hquiet.now
    rcases hquiet.call q with hsame | ⟨-, hstart⟩
    · exact hu.checked q a d s (hsame ▸ hq) hd b hold
    · rw [(hstart a d hq).not_checked] at hd
      cases hd

/-! ## §3  Every run -/

variable {repo : Repository} {ttl : Int} {acts : List (Action ι)}

theorem uncontested_of_runs (hrepo : repo.Settled)
    (h : Machine.Runs State.step CreatesUnclaimed (State.initial ι repo ttl) acts st) :
    Locked st ∧ Known st ∧ Uncontested st := by
  refine h.invariant (I := fun st => Locked st ∧ Known st ∧ Uncontested st) ?_ ?_
  · rintro st act st' ⟨hlocked, hknown, hu⟩ hok hstep
    refine ⟨locked_step hlocked hstep, known_step hlocked hknown hstep, ?_, ?_⟩
    · intro s a hown b hb
      exact owned_step hknown hu hok hstep hown hb
    · intro p a c s hc hchecked b hb
      exact uncontested_checked_step hlocked hu hstep hc hchecked hb
  · have hinit : Reachable repo ttl (State.initial ι repo ttl) := Machine.Reachable.refl _
    refine ⟨hinit.known.1, hinit.known.2, ?_, ?_⟩
    · intro s a hown b hb
      exact hrepo s a hown ttl 0 b hb
    · intro p a c s hc
      simp [State.initial, State.call] at hc

/-- What a completed await of the owner's claim leads to: the next one, or `False`. -/
def GoesOwned (s : SessionId) : Outcome → Prop
  | .next c => c = .claim s .owner ∨ ∃ o, c = .claim s (.pending o)
  | .returned v => v = .claimed false
  | .raised _ => False

/-- An owner can claim its session: whatever it awaits, its call goes on or returns `False`;
and by itself it gets there as soon as the session's lock is free. -/
structure OwnersClaim (st : State ι) : Prop where
  goes : ∀ p a s pc σ o, st.call p = some (a, .claim s pc) →
    st.shared.repo.owners s = some a → (Call.claim s pc).step st.shared p a = some (σ, o) →
    GoesOwned s o
  returns : ∀ p a s, st.procs p = none → st.shared.repo.owners s = some a →
    st.shared.ownLocks s = none →
    ∃ st' pr, Machine.run State.step st [.spawn p a (.claim s), .step p, .step p, .step p] =
      some st' ∧ st'.procs p = some pr ∧ pr.stage = .ended (.returned (.claimed false))

omit [DecidableEq ι] in
/-- The owner passes the check of the pending claim. -/
theorem Uncontested.not_foreign (hu : Uncontested st) {a : Identity} {s : SessionId}
    (hown : st.shared.repo.owners s = some a) : foreign a
      (st.shared.repo.getPendingClaim st.shared.ttl st.shared.now s).2 = false := by
  rw [foreign_eq_false]
  cases hq : (st.shared.repo.getPendingClaim st.shared.ttl st.shared.now s).2 with
  | none => exact Or.inl rfl
  | some b =>
      rw [hu.owned s a hown b (Repository.getPendingClaim_eq_some.mp hq)]
      exact Or.inr rfl

theorem foreign_self (a : Identity) : foreign a (some a) = false := by
  rw [foreign_eq_false]
  exact Or.inr rfl

omit [DecidableEq ι] in
theorem Uncontested.goes (hu : Uncontested st) (hknown : Known st) {p : ι} {a : Identity}
    {s : SessionId} {pc : ClaimPc} {σ : Shared ι} {o : Outcome}
    (hcall : st.call p = some (a, .claim s pc)) (hown : st.shared.repo.owners s = some a)
    (hstep : (Call.claim s pc).step st.shared p a = some (σ, o)) : GoesOwned s o := by
  have hknows := hknown p _ _ hcall
  obtain ⟨σ₁, r, hc, rfl, -⟩ := Call.step_eq hstep
  cases pc with
  | lock => exact Or.inl rfl
  | owner =>
      cases hc
      exact Or.inr ⟨_, rfl⟩
  | pending x =>
      cases hc
      obtain rfl : x = some a := hknows.symm.trans hown
      simp only [Call.resume, RepoOp.perform, hu.not_foreign hown, foreign_self]
      exact rfl
  | write =>
      rw [show st.shared.repo.owners s = none from hknows] at hown
      cases hown

/-! ### The owner's claim by itself -/

/-- The call of a process completes its await. -/
theorem State.step_running {σ σ' : Shared ι} {procs : ι → Option (Proc ι)} {p : ι} {pr : Proc ι}
    {c : Call} {k : Cont} {o : Outcome} (hp : procs p = some pr) (hstage : pr.stage = .running c k)
    (hstep : c.step σ p pr.identity = some (σ', o)) : ∃ procs',
      State.step ⟨σ, procs⟩ (.step p) = some ⟨σ', procs'⟩ ∧
        procs' p = some ((pr.track σ.now c true o).next k o) := by
  refine ⟨Function.update procs p (some ((pr.track σ.now c true o).next k o)), ?_,
    Function.update_self ..⟩
  simp only [State.step, hp, hstage, hstep]

section Steps

omit [DecidableEq ι]

variable (σ : Shared ι) (p : ι) (a : Identity) (s : SessionId)

theorem claim_lock_step (hlock : σ.ownLocks s = none) : ∃ σ',
    (Call.claim s .lock).step σ p a = some (σ', .next (.claim s .owner)) ∧
      σ'.repo = σ.repo ∧ σ'.ttl = σ.ttl ∧ σ'.now = σ.now := by
  refine ⟨({ σ with ownLocks := LockTable.enter σ.ownLocks s p } : Shared ι).unlock a
    (.claim s .lock) (.next (.claim s .owner)), ?_, rfl, rfl, rfl⟩
  simp only [Call.step, Call.await, Shared.complete, if_pos hlock, Call.resume]

theorem claim_owner_step : ∃ σ', (Call.claim s .owner).step σ p a =
      some (σ', .next (.claim s (.pending (σ.repo.owners s)))) ∧
    σ'.repo = σ.repo ∧ σ'.ttl = σ.ttl ∧ σ'.now = σ.now :=
  ⟨_, rfl, rfl, rfl, rfl⟩

theorem claim_pending_step
    (hpending : foreign a (σ.repo.getPendingClaim σ.ttl σ.now s).2 = false) : ∃ σ',
    (Call.claim s (.pending (some a))).step σ p a = some (σ', .returned (.claimed false)) := by
  simp only [Call.step, Call.await, Shared.complete, Shared.perform, RepoOp.perform, Call.resume,
    hpending, foreign_self, Bool.false_eq_true, if_false, if_true]
  exact ⟨_, rfl⟩

end Steps

theorem Uncontested.returns (hu : Uncontested st) {p : ι} {a : Identity} {s : SessionId}
    (hp : st.procs p = none) (hown : st.shared.repo.owners s = some a)
    (hlock : st.shared.ownLocks s = none) :
    ∃ st' pr, Machine.run State.step st [.spawn p a (.claim s), .step p, .step p, .step p] =
      some st' ∧ st'.procs p = some pr ∧ pr.stage = .ended (.returned (.claimed false)) := by
  let procs : ι → Option (Proc ι) :=
    Function.update st.procs p (some (Proc.spawn a (.claim s)))
  have hspawn : st.step (.spawn p a (.claim s)) = some ⟨st.shared, procs⟩ := by
    simp only [State.step, hp]
    rfl
  have hspawned : procs p = some (.spawn a (.claim s)) := Function.update_self ..
  -- the lock, the owner and the pending claim, one await each
  obtain ⟨σ₁, hlocked, hrepo₁, httl₁, hnow₁⟩ := claim_lock_step st.shared p a s hlock
  obtain ⟨procs₁, hstep₁, hp₁⟩ := State.step_running hspawned rfl hlocked
  obtain ⟨σ₂, howner, hrepo₂, httl₂, hnow₂⟩ := claim_owner_step σ₁ p a s
  rw [hrepo₁, hown] at howner
  obtain ⟨procs₂, hstep₂, hp₂⟩ := State.step_running hp₁ rfl howner
  have hpending := hu.not_foreign hown
  rw [← hrepo₁, ← httl₁, ← hnow₁, ← hrepo₂, ← httl₂, ← hnow₂] at hpending
  obtain ⟨σ₃, hreturns⟩ := claim_pending_step σ₂ p a s hpending
  obtain ⟨procs₃, hstep₃, hp₃⟩ := State.step_running hp₂ rfl hreturns
  refine ⟨⟨σ₃, procs₃⟩, _, ?_, hp₃, rfl⟩
  simp only [Machine.run, hspawn, hstep₁, hstep₂, hstep₃, Option.bind_some]

/-- In every run in which no creation records an owner while another identity's claim is
pending, the owner of a session can claim it. -/
theorem owners_claim {repo : Repository} {ttl : Int} {acts : List (Action ι)}
    (hrepo : repo.Settled)
    (hrun : Machine.Runs State.step CreatesUnclaimed (State.initial ι repo ttl) acts st) :
    OwnersClaim st := by
  obtain ⟨-, hknown, hu⟩ := uncontested_of_runs hrepo hrun
  constructor
  · intro p a s pc σ o hcall hown hstep
    exact hu.goes hknown hcall hown hstep
  · intro p a s hp hown hlock
    exact hu.returns hp hown hlock

theorem settled_empty : Repository.empty.Settled := by
  intro s a hown
  cases hown

/-- The check of `CreatesUnclaimed`. -/
def createsUnclaimed (st : State ℕ) : Action ℕ → Bool
  | .step p | .interrupt p _ _ =>
      match st.call p with
      | some (a, .create _ (.own _ s)) =>
          !foreign a (st.shared.repo.getPendingClaim st.shared.ttl st.shared.now s).2
      | _ => true
  | _ => true

theorem createsUnclaimed_ok (st : State ℕ) (act : Action ℕ) (h : createsUnclaimed st act = true) :
    CreatesUnclaimed st act := by
  intro p a x t s hperforms hcall b hb
  have hforeign : foreign a
      (st.shared.repo.getPendingClaim st.shared.ttl st.shared.now s).2 = false := by
    rcases hperforms with rfl | ⟨e, rfl⟩ <;> simpa [createsUnclaimed, hcall] using h
  rw [Repository.getPendingClaim_eq_some.mpr hb, foreign_eq_false] at hforeign
  simpa using hforeign

/-- `user-1` creates a session, on which `user-2` is refused a claim. -/
theorem creator_can_claim :
    ∃ st : State ℕ, Machine.run State.step (State.initial ℕ Repository.empty 30)
        (creation ++ foreignClaim) = some st ∧
      st.shared.repo.owners session1 = some user1 ∧ OwnersClaim st := by
  have hrun : Machine.run (Machine.restrict State.step createsUnclaimed)
      (State.initial ℕ Repository.empty 30) (creation ++ foreignClaim) = some _ :=
    Machine.run_after (by rfl)
  have hruns := Machine.runs_of_restrict createsUnclaimed createsUnclaimed_ok hrun
  exact ⟨_, Machine.runs_iff_run.mp (hruns.mono fun _ _ _ => trivial), rfl,
    owners_claim settled_empty hruns⟩

/-- `user-2` is granted a claim on the session that upstream then creates for `user-1`. -/
def claimBeforeCreation : List (Action ℕ) :=
  [.spawn 1 user2 (.claim session1), .step 1, .step 1, .step 1, .step 1] ++ creation

/-- Without the condition the claim is false: the owner's claim is refused. -/
theorem creator_cannot_claim :
    ∃ st : State ℕ, Reachable Repository.empty 30 st ∧
      st.shared.repo.owners session1 = some user1 ∧ ¬ OwnersClaim st := by
  refine ⟨Machine.after State.step (State.initial ℕ Repository.empty 30) claimBeforeCreation (by rfl),
    ⟨claimBeforeCreation, Machine.run_after (by rfl)⟩, rfl, ?_⟩
  intro hclaim
  obtain ⟨st', pr, hrun, hpr, hstage⟩ := hclaim.returns 2 user1 session1 rfl rfl rfl
  cases hrun
  cases hpr
  cases hstage

end OpencodeA2a.Session
