import OpencodeA2a.Session.Moves

/-!
# What a process waits for

The stage of a process fits its script (`Proc.Fits`): a finalisation is for the
session the process is bound to and comes after its upstream call answered, a
release is for the session it claimed, and so on. `Call.head` forgets how far a
call has got; no move of a call changes its head.
-/

namespace OpencodeA2a.Session

variable {ι : Type}

/-! ## §1  The head of a call -/

/-- The call at its first await. -/
def Call.head : Call → Call
  | .claim s _ => .claim s .lock
  | .finalize s _ => .finalize s .lock
  | .release s _ => .release s .lock
  | .bind c s _ => .bind c s .lock
  | .create c _ => .create c .lock
  | .pop c _ => .pop c .lock

theorem Call.resume_head {a : Identity} {σ : Shared ι} {c c' : Call} {r : Reply}
    (h : Outcome.next c' = (c.resume a σ r).2) : c'.head = c.head := by
  unfold Call.resume at h
  split at h <;> (try split_ifs at h) <;> (try cases h) <;> rfl

theorem Call.Moves.head {σ σ' : Shared ι} {p : ι} {a : Identity} {c c' : Call}
    (h : c.Moves σ p a σ' (.next c')) : c'.head = c.head := by
  rcases h with h | ⟨e, applied, h⟩
  · obtain ⟨σ₁, r, -, ho, -⟩ := Call.step_eq h
    exact Call.resume_head ho
  · rcases Call.interrupt_eq h with ⟨ho, -, -⟩ | ⟨t, -, -, ⟨ho, -⟩ | ⟨ho, -⟩⟩
    · cases ho
    · rw [Outcome.next.inj ho]
    · cases ho

/-- A call of identity `a` that returns `v` on the reply `r`. -/
inductive Call.Finishes (a : Identity) (r : Reply) : Call → Value → Prop
  | owned (s : SessionId) : Finishes a r (.claim s (.pending (some a))) (.claimed false)
  | claimed (s : SessionId) : Finishes a r (.claim s .write) (.claimed true)
  | finalized (s : SessionId) : Finishes a r (.finalize s .clear) .unit
  | released (s : SessionId) : Finishes a r (.release s .clear) .unit
  | bound (x : ContextId) (s : SessionId) : Finishes a r (.bind x s .write) (.session s)
  | found (x : ContextId) (s : SessionId) :
      r = .session (some s) → Finishes a r (.create x .read) (.session s)
  | again (x : ContextId) (t : ℕ) (s : SessionId) (b : Identity) :
      Finishes a r (.create x (.bind t s (some b))) (.session s)
  | created (x : ContextId) (t : ℕ) (s : SessionId) :
      Finishes a r (.create x (.own t s)) (.session s)
  | popped (x : ContextId) (t : Option ℕ) : Finishes a r (.pop x .pop) (.task t)

theorem Call.resume_finishes {a : Identity} {σ : Shared ι} {c : Call} {r : Reply} {v : Value}
    (h : Outcome.returned v = (c.resume a σ r).2) : Call.Finishes a r c v := by
  unfold Call.resume at h
  split at h <;> (try split_ifs at h) <;> (try cases h)
  · rename_i ho
    rw [ho]
    exact .owned _
  · exact .claimed _
  · exact .finalized _
  · exact .released _
  · exact .bound _ _
  · exact .found _ _ rfl
  · rename_i o _ ho
    obtain ⟨b, rfl⟩ := Option.ne_none_iff_exists'.mp ho
    exact .again _ _ _ b
  · exact .created _ _ _
  · exact .popped _ _

/-- A call only returns from a repository operation that it saw through. -/
theorem Call.Finishes.await {a : Identity} {r : Reply} {c : Call} {v : Value}
    (h : Call.Finishes a r c v) : ∃ op, c.await a = .repo op := by
  cases h <;> exact ⟨_, rfl⟩

/-! ## §2  What no step changes -/

section Frames

variable (pr : Proc ι) (k : Cont) (v : Value) (e : Exc) (o : Outcome)

/-- The fields that only the start, a claim and a cancellation write. -/
def Proc.record (pr : Proc ι) :
    Identity × Script ι × Bool × Bool × Bool × Option (SessionId × Int) :=
  (pr.identity, pr.script, pr.cancelled, pr.granted, pr.cleared, pr.standing)

theorem Proc.bound_record (s : SessionId) (b : Bool) : (pr.bound s b).record = pr.record := by
  unfold Proc.bound
  split <;> rfl

theorem Proc.claimed_record (b : Bool) : (pr.claimed b).record = pr.record := by
  unfold Proc.claimed
  split
  · split
    · exact pr.bound_record _ _
    · rfl
  · split
    · exact pr.bound_record _ _
    · rfl
  · rfl
  · rfl

theorem Proc.fail_record : (pr.fail e).record = pr.record := by
  unfold Proc.fail
  split <;> rfl

theorem Proc.guardFinalized_record : pr.guardFinalized.record = pr.record := by
  unfold Proc.guardFinalized
  split <;> rfl

theorem Proc.answer_record (fork : Option SessionId) : (pr.answer fork).record = pr.record := by
  unfold Proc.answer
  split
  · split <;> rfl
  · dsimp only
    split
    · rfl
    · exact Proc.guardFinalized_record _
  · rfl

theorem Proc.finalized_record : pr.finalized.record = pr.record := by
  unfold Proc.finalized
  split
  · rfl
  · rfl
  · exact Proc.guardFinalized_record _
  · rfl

theorem Proc.returned_record : (pr.returned k v).record = pr.record := by
  unfold Proc.returned
  split
  · exact pr.claimed_record _
  · exact pr.bound_record _ _
  · exact pr.bound_record _ _
  · exact pr.finalized_record
  · split <;> rfl
  · rfl
  · split <;> rfl
  · split <;> rfl
  · rfl

theorem Proc.raised_record : (pr.raised k e).record = pr.record := by
  unfold Proc.raised
  split
  · exact pr.fail_record e
  · exact pr.fail_record e
  · exact pr.fail_record e
  · split <;> rfl
  · split <;> rfl
  · rfl

theorem Proc.next_record : (pr.next k o).record = pr.record := by
  cases o with
  | next c => rfl
  | returned v => exact pr.returned_record k v
  | raised e => exact pr.raised_record k e

end Frames

/-! ## §3  The stage fits the script -/

/-- The session the script claims before it does anything else. -/
def Script.claims : Script ι → Option SessionId
  | .getOrCreate _ s | .chat _ s => s
  | .claim s | .guarded s _ => some s
  | _ => none

/-- An operation: it awaits an upstream call of its own. -/
def Script.operates : Script ι → Prop
  | .chat _ _ | .guarded _ _ => True
  | _ => False

/-- An operation that has its answer and still holds its claim on `s`. -/
structure Proc.Holds (pr : Proc ι) (s : SessionId) : Prop where
  operates : pr.script.operates
  session : pr.session = some s
  answered : pr.answered = true
  pending : pr.pending = true

/-- The process is not bound yet. -/
structure Proc.Unbound (pr : Proc ι) : Prop where
  session : pr.session = none
  pending : pr.pending = false

def Proc.FitsCall (pr : Proc ι) : Cont → Call → Prop
  | .claimed, .claim s _ => pr.script.claims = some s ∧ pr.Unbound
  | .bound, .bind c s _ =>
      (pr.script = .getOrCreate c (some s) ∨ pr.script = .chat c (some s)) ∧ pr.Unbound
  | .created, .create c _ =>
      (pr.script = .getOrCreate c none ∨ pr.script = .chat c none) ∧ pr.Unbound
  | .finalized, .finalize s _ =>
      pr.Holds s ∨ (∃ c, pr.script = .finalizeBinding c s) ∨ pr.script = .finalize s
  | .rebound, .bind c s _ =>
      (pr.Holds s ∧ ∃ o, pr.script = .chat c o) ∨ pr.script = .finalizeBinding c s
  | .forked, .finalize s _ =>
      (∃ s₀ f, pr.script = .guarded s₀ f) ∧ pr.fork = some s ∧ pr.answered = true ∧
        pr.pending = false
  | .released, .release s _ =>
      pr.script = .release s ∨
        (pr.script.operates ∧ pr.session = some s ∧ pr.pending = true)
  | .popped, .pop c _ => pr.script = .pop c ∨ ∃ q, pr.script = .cancel c q
  | _, _ => False

def Proc.Fits (pr : Proc ι) : Prop :=
  match pr.stage with
  | .running c k => pr.FitsCall k c
  | .upstream => pr.script.operates ∧ pr.session.isSome = true
  | .working => (∃ c o, pr.script = .chat c o) ∧ pr.session.isSome = true
  | .aborting _ => ∃ c q, pr.script = .cancel c q
  | .ended _ => True

theorem Proc.FitsCall.of_head {pr : Proc ι} {k : Cont} {c c' : Call} (h : pr.FitsCall k c)
    (hc : c'.head = c.head) : pr.FitsCall k c' := by
  cases c <;> cases c' <;> simp only [Call.head, reduceCtorEq, Call.claim.injEq,
    Call.finalize.injEq, Call.release.injEq, Call.bind.injEq, Call.create.injEq,
    Call.pop.injEq, and_true] at hc
  all_goals
    first
    | subst hc
    | obtain ⟨rfl, rfl⟩ := hc
    cases k <;> exact h

theorem Proc.spawn_fits (a : Identity) (script : Script ι) : (Proc.spawn a script).Fits := by
  have hun : (Proc.spawn a script).Unbound := ⟨rfl, rfl⟩
  cases script with
  | getOrCreate c s =>
      cases s with
      | some s => exact ⟨rfl, hun⟩
      | none => exact ⟨.inl rfl, hun⟩
  | chat c s =>
      cases s with
      | some s => exact ⟨rfl, hun⟩
      | none => exact ⟨.inr rfl, hun⟩
  | claim s => exact ⟨rfl, hun⟩
  | guarded s f => exact ⟨rfl, hun⟩
  | finalizeBinding c s => exact .inr (.inl ⟨c, rfl⟩)
  | finalize s => exact .inr (.inr rfl)
  | release s => exact .inl rfl
  | pop c => exact .inl rfl
  | cancel c q => exact .inr ⟨q, rfl⟩

section Results

variable {pr : Proc ι} {k : Cont} {c : Call}

theorem Proc.bound_fits (s : SessionId) (b : Bool) : (pr.bound s b).Fits := by
  unfold Proc.bound
  split
  · rename_i hscript
    refine ⟨?_, rfl⟩
    show pr.script.operates
    rw [hscript]
    trivial
  · trivial

theorem Proc.claimed_fits (hun : pr.Unbound) (b : Bool) : (pr.claimed b).Fits := by
  unfold Proc.claimed
  split
  · rename_i x s' hs
    split
    · exact Proc.bound_fits _ _
    · exact ⟨.inl hs, hun.session, hun.pending⟩
  · rename_i x s' hs
    split
    · exact Proc.bound_fits _ _
    · exact ⟨.inr hs, hun.session, hun.pending⟩
  · rename_i s' f hs
    refine ⟨?_, rfl⟩
    show pr.script.operates
    rw [hs]
    trivial
  · trivial

theorem Proc.fail_fits (hop : pr.pending = true → pr.script.operates) (e : Exc) :
    (pr.fail e).Fits := by
  unfold Proc.fail
  split
  · rename_i s hp hs
    exact .inr ⟨hop hp, hs, hp⟩
  · trivial

theorem Proc.guardFinalized_fits {s₀ : SessionId} {f : Bool} (hs : pr.script = .guarded s₀ f)
    (ha : pr.answered = true) (hp : pr.pending = false) : pr.guardFinalized.Fits := by
  unfold Proc.guardFinalized
  split
  · rename_i s' hfork
    exact ⟨⟨s₀, f, hs⟩, hfork, ha, hp⟩
  · trivial

theorem Proc.answer_fits (h : pr.Fits) (hstage : pr.stage = .upstream)
    (fork : Option SessionId) : (pr.answer fork).Fits := by
  have hop : pr.script.operates := by
    unfold Proc.Fits at h
    rw [hstage] at h
    exact h.1
  unfold Proc.answer
  split
  · rename_i x o s hscript hsession
    split
    · rename_i hp
      exact .inl ⟨hop, hsession, rfl, hp⟩
    · refine ⟨⟨x, o, hscript⟩, ?_⟩
      show pr.session.isSome = true
      rw [hsession]
      rfl
  · rename_i s₀ f s hscript hsession
    dsimp only
    split
    · rename_i hp
      exact .inl ⟨hop, hsession, rfl, hp⟩
    · rename_i hp
      exact Proc.guardFinalized_fits hscript rfl (by simpa using hp)
  · exact h

theorem Proc.finalized_fits {s : SessionId} (h : pr.FitsCall .finalized (.finalize s .lock)) :
    pr.finalized.Fits := by
  unfold Proc.finalized
  split
  · rename_i x o s' hscript hsession
    rcases h with h | ⟨c, h⟩ | h
    · refine .inl ⟨⟨h.operates, hsession, h.answered, h.pending⟩, o, hscript⟩
    · rw [hscript] at h
      cases h
    · rw [hscript] at h
      cases h
  · rename_i x s' hscript
    exact .inr hscript
  · rename_i s₀ f hscript
    rcases h with h | ⟨c, h⟩ | h
    · exact Proc.guardFinalized_fits hscript h.answered rfl
    · rw [hscript] at h
      cases h
    · rw [hscript] at h
      cases h
  · trivial

theorem Proc.returned_fits (h : pr.FitsCall k c) (v : Value) :
    (pr.returned k v).Fits := by
  unfold Proc.returned
  split
  · rename_i b
    cases c <;> try exact h.elim
    exact Proc.claimed_fits h.2 b
  · exact Proc.bound_fits _ _
  · exact Proc.bound_fits _ _
  · cases c <;> try exact h.elim
    exact Proc.finalized_fits h
  · cases c <;> try exact h.elim
    split
    · rename_i x o hscript
      refine ⟨⟨x, o, hscript⟩, ?_⟩
      rcases h with ⟨h, -⟩ | h
      · show pr.session.isSome = true
        rw [h.session]
        rfl
      · rw [hscript] at h
        cases h
    · trivial
  · trivial
  · split <;> trivial
  · cases c <;> try exact h.elim
    split
    · rename_i x q hscript
      exact ⟨x, q, hscript⟩
    · trivial
  · trivial

theorem Proc.raised_fits (h : pr.FitsCall k c) (e : Exc) : (pr.raised k e).Fits := by
  unfold Proc.raised
  split
  · rename_i x o hscript
    refine Proc.fail_fits ?_ e
    intro _
    rw [hscript]
    trivial
  · rename_i x o hscript
    refine Proc.fail_fits ?_ e
    intro _
    rw [hscript]
    trivial
  · rename_i s f hscript
    refine Proc.fail_fits ?_ e
    intro _
    rw [hscript]
    trivial
  · split <;> trivial
  · split <;> trivial
  · trivial

end Results

/-! ## §4  Which calls a result starts -/

section Starts

variable {pr : Proc ι} {k k' : Cont} {c c' : Call} {v : Value} {e : Exc}

theorem Proc.fail_running (hs : (pr.fail e).stage = .running c' k') :
    ∃ s, c' = .release s .lock ∧ k' = .released ∧ pr.pending = true ∧ pr.session = some s := by
  unfold Proc.fail at hs
  split at hs
  · rename_i s hp hsession
    cases hs
    exact ⟨s, rfl, rfl, hp, hsession⟩
  · cases hs

/-- An exception starts nothing but the release of the process's claim. -/
theorem Proc.raised_running (hs : (pr.raised k e).stage = .running c' k') :
    ∃ s, c' = .release s .lock := by
  unfold Proc.raised at hs
  split at hs
  · obtain ⟨s, hc, -⟩ := Proc.fail_running hs
    exact ⟨s, hc⟩
  · obtain ⟨s, hc, -⟩ := Proc.fail_running hs
    exact ⟨s, hc⟩
  · obtain ⟨s, hc, -⟩ := Proc.fail_running hs
    exact ⟨s, hc⟩
  · split at hs <;> cases hs
  · split at hs <;> cases hs
  · cases hs

theorem Proc.bound_running (s : SessionId) (b : Bool) :
    (pr.bound s b).stage ≠ .running c' k' := by
  unfold Proc.bound
  split <;> simp

theorem Proc.guardFinalized_running (hs : pr.guardFinalized.stage = .running c' k') :
    ∃ s, c' = .finalize s .lock := by
  unfold Proc.guardFinalized at hs
  split at hs
  · rename_i s hfork
    cases hs
    exact ⟨s, rfl⟩
  · cases hs

theorem Proc.answer_running {fork : Option SessionId} (hstage : pr.stage = .upstream)
    (hs : (pr.answer fork).stage = .running c' k') : ∃ s, c' = .finalize s .lock := by
  unfold Proc.answer at hs
  split at hs
  · split at hs
    · cases hs
      exact ⟨_, rfl⟩
    · cases hs
  · dsimp only at hs
    split at hs
    · cases hs
      exact ⟨_, rfl⟩
    · exact Proc.guardFinalized_running hs
  · rw [hstage] at hs
    cases hs

/-- A binding is written for a session the claim found owned, or for the one a
finalisation was for. -/
theorem Proc.returned_bind {x : ContextId} {s : SessionId} {pc : BindPc}
    (h : pr.FitsCall k c) (hs : (pr.returned k v).stage = .running (.bind x s pc) k') :
    (∃ pc', c = .claim s pc' ∧ v = .claimed false) ∨ ∃ pc', c = .finalize s pc' := by
  unfold Proc.returned at hs
  split at hs
  · rename_i b
    cases c with
    | claim s' pc' =>
        have hscript : pr.script.claims = some s' := h.1
        unfold Proc.claimed at hs
        split at hs
        · rename_i y s'' hpr
          rw [hpr] at hscript
          cases hscript
          cases b with
          | true => exact absurd hs (Proc.bound_running _ _)
          | false =>
              cases hs
              exact .inl ⟨pc', rfl, rfl⟩
        · rename_i y s'' hpr
          rw [hpr] at hscript
          cases hscript
          cases b with
          | true => exact absurd hs (Proc.bound_running _ _)
          | false =>
              cases hs
              exact .inl ⟨pc', rfl, rfl⟩
        · cases hs
        · cases hs
    | finalize _ _ | release _ _ | bind _ _ _ | create _ _ | pop _ _ => exact h.elim
  · exact absurd hs (Proc.bound_running _ _)
  · exact absurd hs (Proc.bound_running _ _)
  · cases c with
    | finalize s' pc' =>
        unfold Proc.finalized at hs
        split at hs
        · rename_i y z s'' hscript hsession
          cases hs
          rcases h with h | ⟨y, h⟩ | h
          · obtain rfl := Option.some.inj (hsession.symm.trans h.session)
            exact .inr ⟨pc', rfl⟩
          · rw [hscript] at h
            cases h
          · rw [hscript] at h
            cases h
        · rename_i y s'' hscript
          cases hs
          rcases h with h | ⟨y, h⟩ | h
          · exact (hscript ▸ h.operates : Script.operates (.finalizeBinding _ _)).elim
          · rw [hscript] at h
            cases h
            exact .inr ⟨pc', rfl⟩
          · rw [hscript] at h
            cases h
        · obtain ⟨s'', hc⟩ := Proc.guardFinalized_running hs
          cases hc
        · cases hs
    | claim _ _ | release _ _ | bind _ _ _ | create _ _ | pop _ _ => exact h.elim
  · split at hs <;> cases hs
  · cases hs
  · split at hs <;> cases hs
  · split at hs <;> cases hs
  · cases hs

/-- Only `get_or_create_session` and the guard's claim bind a process. -/
theorem Proc.returned_session {s : SessionId} (h : pr.FitsCall k c) (hnone : pr.session = none)
    (hs : (pr.returned k v).session = some s) :
    (∃ pc b, c = .claim s pc ∧ v = .claimed b) ∨
      v = .session s ∧ ∃ x, (∃ pc, c = .create x pc) ∨ ∃ s' pc, c = .bind x s' pc := by
  have hbound : ∀ s' b, (pr.bound s' b).session = some s → s' = s := by
    intro s' b hb
    unfold Proc.bound at hb
    split at hb <;> exact Option.some.inj hb
  unfold Proc.returned at hs
  split at hs
  · rename_i b
    cases c with
    | claim s' pc' =>
        refine .inl ⟨pc', b, ?_, rfl⟩
        have hscript : pr.script.claims = some s' := h.1
        unfold Proc.claimed at hs
        split at hs
        · rename_i y s'' hpr
          rw [hpr] at hscript
          cases hscript
          cases b with
          | true => rw [hbound _ _ hs]
          | false => exact absurd (hnone.symm.trans hs) (by simp)
        · rename_i y s'' hpr
          rw [hpr] at hscript
          cases hscript
          cases b with
          | true => rw [hbound _ _ hs]
          | false => exact absurd (hnone.symm.trans hs) (by simp)
        · rename_i s'' f hpr
          rw [hpr] at hscript
          cases hscript
          rw [Option.some.inj hs]
        · exact absurd (hnone.symm.trans hs) (by simp)
    | finalize _ _ | release _ _ | bind _ _ _ | create _ _ | pop _ _ => exact h.elim
  · cases c with
    | bind x s' pc => exact .inr ⟨by rw [hbound _ _ hs], x, .inr ⟨s', pc, rfl⟩⟩
    | claim _ _ | finalize _ _ | release _ _ | create _ _ | pop _ _ => exact h.elim
  · cases c with
    | create x pc => exact .inr ⟨by rw [hbound _ _ hs], x, .inl ⟨pc, rfl⟩⟩
    | claim _ _ | finalize _ _ | release _ _ | bind _ _ _ | pop _ _ => exact h.elim
  · refine absurd (hnone.symm.trans (Eq.trans ?_ hs)) (by simp)
    unfold Proc.finalized Proc.guardFinalized
    split <;> (try split) <;> rfl
  all_goals
    refine absurd (hnone.symm.trans (Eq.trans ?_ hs)) (by simp)
    first
    | rfl
    | split <;> rfl

theorem Proc.fail_session : (pr.fail e).session = pr.session := by
  unfold Proc.fail
  split <;> rfl

theorem Proc.raised_session : (pr.raised k e).session = pr.session := by
  unfold Proc.raised
  split
  · exact Proc.fail_session
  · exact Proc.fail_session
  · exact Proc.fail_session
  · split <;> rfl
  · split <;> rfl
  · rfl

theorem Proc.answer_session (fork : Option SessionId) :
    (pr.answer fork).session = pr.session := by
  unfold Proc.answer Proc.guardFinalized
  split
  · split <;> rfl
  · dsimp only
    split
    · rfl
    · split <;> rfl
  · rfl

end Starts

/-! ## §5  In every run -/

/-- Every process is where its script can be. -/
def Fitting (st : State ι) : Prop :=
  ∀ p pr, st.procs p = some pr → pr.Fits

/-- What `Proc.FitsCall` reads of a process. -/
structure Proc.SameStand (pr pr' : Proc ι) : Prop where
  script : pr'.script = pr.script
  session : pr'.session = pr.session
  pending : pr'.pending = pr.pending
  fork : pr'.fork = pr.fork
  answered : pr'.answered = pr.answered

theorem Proc.SameStand.fitsCall {pr pr' : Proc ι} (hsame : pr.SameStand pr') {k : Cont}
    {c : Call} (h : pr.FitsCall k c) : pr'.FitsCall k c := by
  have hun : pr.Unbound → pr'.Unbound := fun hu =>
    ⟨hsame.session.trans hu.session, hsame.pending.trans hu.pending⟩
  have hhold : ∀ s, pr.Holds s → pr'.Holds s := fun s hh =>
    ⟨hsame.script.symm ▸ hh.operates, hsame.session.trans hh.session,
      hsame.answered.trans hh.answered, hsame.pending.trans hh.pending⟩
  unfold Proc.FitsCall at h ⊢
  rw [hsame.script, hsame.pending, hsame.answered, hsame.fork, hsame.session]
  split at h
  · exact h.imp_right hun
  · exact h.imp_right hun
  · exact h.imp_right hun
  · exact h.imp_left (hhold _)
  · exact h.imp_left fun ⟨hh, hchat⟩ => ⟨hhold _ hh, hchat⟩
  · exact h
  · exact h
  · exact h
  · exact h

theorem Proc.sameStand_stage (pr : Proc ι) (x : Stage) :
    pr.SameStand { pr with stage := x } := ⟨rfl, rfl, rfl, rfl, rfl⟩

theorem Proc.sameStand_track (pr : Proc ι) (b : Bool) (now : Int) (d : Call) (done : Bool)
    (o : Outcome) : pr.SameStand ({ pr with cancelled := b }.track now d done o) := by
  obtain ⟨-, hscript, hsession, hpending, hfork, hanswered, -, -⟩ :=
    Proc.track_frame { pr with cancelled := b } now d done o
  exact ⟨hscript, hsession, hpending, hfork, hanswered⟩

theorem Proc.Between.fits {act : Action ι} {q : ι} {x y : Option (Proc ι)}
    (h : Proc.Between act q x y) (hx : ∀ pr, x = some pr → pr.Fits) :
    ∀ pr, y = some pr → pr.Fits := by
  intro pr' hy
  cases h with
  | stay => exact hx pr' hy
  | spawn a script => exact Option.some.inj hy ▸ Proc.spawn_fits a script
  | answer pr fork hs => exact Option.some.inj hy ▸ Proc.answer_fits (hx pr rfl) hs fork
  | fail pr e hs =>
      rw [← Option.some.inj hy]
      have hfits := hx pr rfl
      unfold Proc.Fits at hfits
      refine Proc.fail_fits ?_ e
      intro _
      rcases hs with hs | hs
      · rw [hs] at hfits
        exact hfits.1
      · rw [hs] at hfits
        obtain ⟨⟨c, o, hscript⟩, -⟩ := hfits
        show pr.script.operates
        rw [hscript]
        trivial
  | turn pr hs =>
      rw [← Option.some.inj hy]
      have hfits := hx pr rfl
      unfold Proc.Fits at hfits
      rw [hs] at hfits
      obtain ⟨⟨c, o, hscript⟩, hsession⟩ := hfits
      refine ⟨?_, hsession⟩
      show pr.script.operates
      rw [hscript]
      trivial
  | finish pr b hs hb => exact Option.some.inj hy ▸ trivial
  | cancel pr =>
      rw [← Option.some.inj hy]
      have hfits := hx pr rfl
      unfold Proc.Fits at hfits ⊢
      dsimp only
      split <;> rename_i hs <;> rw [hs] at hfits
      · have hsame : pr.SameStand { pr with cancelled := true } := ⟨rfl, rfl, rfl, rfl, rfl⟩
        exact hsame.fitsCall hfits
      · exact hfits
      · exact hfits
      · exact hfits
      · trivial

/-- Outside its calls a process is not bound. -/
theorem Proc.Between.session {act : Action ι} {q : ι} {x y : Option (Proc ι)}
    (h : Proc.Between act q x y) {pr' : Proc ι} {s : SessionId} (hy : y = some pr')
    (hs : pr'.session = some s) : ∃ pr, x = some pr ∧ pr.session = some s := by
  cases h with
  | stay => exact ⟨pr', hy, hs⟩
  | spawn a script =>
      obtain rfl := Option.some.inj hy
      cases hs
  | answer pr fork =>
      obtain rfl := Option.some.inj hy
      exact ⟨pr, rfl, (Proc.answer_session fork).symm.trans hs⟩
  | fail pr e =>
      obtain rfl := Option.some.inj hy
      refine ⟨pr, rfl, ?_⟩
      rwa [Proc.fail_session] at hs
  | turn pr | finish pr | cancel pr =>
      obtain rfl := Option.some.inj hy
      exact ⟨pr, rfl, hs⟩

/-- Outside its calls a process starts a first call, a finalisation or a release. -/
theorem Proc.Between.running {act : Action ι} {q : ι} {x y : Option (Proc ι)}
    (h : Proc.Between act q x y) {pr' : Proc ι} {c : Call} {k : Cont} (hy : y = some pr')
    (hs : pr'.stage = .running c k) :
    (∃ pr, x = some pr ∧ pr.identity = pr'.identity ∧ pr.stage = .running c k) ∨
      (x = none ∧ ∃ a script, pr' = Proc.spawn a script ∧ act = .spawn q a script) ∨
      (∃ s, c = .finalize s .lock) ∨ ∃ s, c = .release s .lock := by
  cases h with
  | stay => exact .inl ⟨pr', hy, rfl, hs⟩
  | spawn a script hact => exact .inr (.inl ⟨rfl, a, script, (Option.some.inj hy).symm, hact⟩)
  | answer pr fork hstage =>
      obtain rfl := Option.some.inj hy
      exact .inr (.inr (.inl (Proc.answer_running hstage hs)))
  | fail pr e hstage =>
      obtain rfl := Option.some.inj hy
      obtain ⟨s, hc, -⟩ := Proc.fail_running hs
      exact .inr (.inr (.inr ⟨s, hc⟩))
  | turn pr hstage =>
      obtain rfl := Option.some.inj hy
      cases hs
  | finish pr b hstage hb =>
      obtain rfl := Option.some.inj hy
      cases hs
  | cancel pr =>
      obtain rfl := Option.some.inj hy
      exact .inl ⟨pr, rfl, rfl, hs⟩

variable [DecidableEq ι]

/-- A call returns when its last operation has been performed. -/
theorem State.Acts.returned {st st' : State ι} {act : Action ι} {p : ι} {pr : Proc ι}
    {c : Call} {k : Cont} {done : Bool} {v : Value}
    (h : st.Acts act st' p pr c k done (.returned v)) :
    act = .step p ∧ done = true ∧ ∃ op, c.await pr.identity = .repo op ∧
      st'.shared.repo = (st.shared.perform op).repo ∧
      Call.Finishes pr.identity (op.perform st.shared.ttl st.shared.now st.shared.repo).2
        c v := by
  have hfin : ∃ r, Call.Finishes pr.identity r c v := by
    rcases h.moves with ⟨-, -, hs⟩ | ⟨e, -, he⟩
    · obtain ⟨σ₁, r, -, ho, -⟩ := Call.step_eq hs
      exact ⟨r, Call.resume_finishes ho⟩
    · rcases Call.interrupt_eq he with ⟨ho, -, -⟩ | ⟨t, -, -, ⟨ho, -⟩ | ⟨ho, -⟩⟩ <;> cases ho
  obtain ⟨r, hfin⟩ := hfin
  obtain ⟨op, hw⟩ := hfin.await
  rcases h.reply hw with ⟨hact, hdone, ho⟩ | ⟨e, -, ho⟩
  · refine ⟨hact, hdone, op, hw, ?_, Call.resume_finishes ho⟩
    have hrepo := h.repo
    rw [hw, hdone] at hrepo
    exact hrepo
  · cases ho

theorem fitting_step {st st' : State ι} {act : Action ι} (hf : Fitting st)
    (h : st.step act = some st') : Fitting st' := by
  rcases State.step_cases h with ⟨p, pr, c, k, done, o, hact⟩ | hquiet
  · intro q pr' hq
    by_cases hqp : q = p
    · subst hqp
      rw [hact.procs, Function.update_self] at hq
      obtain rfl := Option.some.inj hq
      have hfits := hf q pr hact.proc
      unfold Proc.Fits at hfits
      rw [hact.stage] at hfits
      have hcall := (pr.sameStand_track (pr.cancelled || act.cancels) st.shared.now c done
        o).fitsCall hfits
      unfold Proc.moved
      cases o with
      | next c' =>
          have hnext := hcall.of_head hact.call_moves.head
          exact (Proc.sameStand_stage _ _).fitsCall hnext
      | returned v => exact Proc.returned_fits hcall v
      | raised e => exact Proc.raised_fits hcall e
    · rw [hact.others hqp] at hq
      exact hf q pr' hq
  · intro q pr' hq
    exact (hquiet.procs q).fits (hf q) pr' hq

theorem Reachable.fitting {repo : Repository} {ttl : Int} {st : State ι}
    (h : Reachable repo ttl st) : Fitting st := by
  refine Machine.Reachable.invariant (fun s a t hs ht => fitting_step hs ht) h ?_
  intro p pr hp
  simp [State.initial] at hp

omit [DecidableEq ι] in
/-- The call a process is in fits its script. -/
theorem Fitting.call {st : State ι} (h : Fitting st) {p : ι} {pr : Proc ι} {c : Call}
    {k : Cont} (hp : st.procs p = some pr) (hs : pr.stage = .running c k) :
    pr.FitsCall k c := by
  have hfits := h p pr hp
  unfold Proc.Fits at hfits
  rwa [hs] at hfits

end OpencodeA2a.Session
