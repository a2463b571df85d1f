import OpencodeA2a.Session.Ownership
import OpencodeA2a.Session.Stages

/-!
# Isolation of identities

A creation binds the new session to its key first and records the owner in a
second transaction. As long as no creation is cut off between the two
(`WritesTogether`), every binding is to a session its identity owns, or is the
fresh binding of a creation about to record the owner, and
`get_or_create_session` never returns a session recorded for somebody else. A
creation that is cut off leaves a binding to a session without an owner, which
another identity may then claim and finalise.
-/

namespace OpencodeA2a.Session

variable {ι : Type}

/-! ## §1  Bindings and their owners -/

/-- Every binding of the database is to a session its identity owns. -/
def Repository.Owned (r : Repository) : Prop :=
  ∀ a x s, r.bindings (a, x) = some s → r.owners s = some a

/-- The step does not cut a creation off between `set_session` and `set_owner`:
an exception at `set_session` keeps it from taking effect where `set_owner` is
still to come, an exception at `set_owner` comes after its effect. -/
def WritesTogether (st : State ι) : Action ι → Prop
  | .interrupt p _ applied => ∀ a x t s,
      (st.call p = some (a, .create x (.bind t s none)) → applied = false) ∧
        (st.call p = some (a, .create x (.own t s)) → applied = true)
  | _ => True

structure Isolated (st : State ι) : Prop where
  bindings : ∀ a x s, st.shared.repo.bindings (a, x) = some s →
    st.shared.repo.owners s = some a ∨ ∃ p t, st.call p = some (a, .create x (.own t s))
  binders : ∀ p a x s pc, st.call p = some (a, .bind x s pc) →
    st.shared.repo.owners s = some a

/-- The binding a call writes at its await, if any. -/
def Call.bindingWrite (a : Identity) : Call → Option (Key × Option SessionId)
  | .bind x s .write => some ((a, x), some s)
  | .create x (.bind _ s _) => some ((a, x), some s)
  | .pop x .pop => some ((a, x), none)
  | _ => none

theorem Call.perform_bindings {a : Identity} {c : Call} {op : RepoOp}
    (hw : c.await a = .repo op) (ttl now : Int) (r : Repository) :
    (op.perform ttl now r).1.bindings =
      match c.bindingWrite a with
      | some (k, v) => Function.update r.bindings k v
      | none => r.bindings := by
  rw [RepoOp.perform_bindings]
  cases c with
  | claim _ pc | finalize _ pc | release _ pc | bind _ _ pc | create _ pc | pop _ pc =>
      cases pc <;> simp_all [Call.await, Call.bindingWrite] <;> subst hw <;> rfl

theorem Call.bindingWrite_await {a : Identity} {c : Call} {x : Key × Option SessionId}
    (h : c.bindingWrite a = some x) : ∃ op, c.await a = .repo op := by
  cases c with
  | claim _ pc | finalize _ pc | release _ pc | bind _ _ pc | create _ pc | pop _ pc =>
      cases pc <;> simp_all [Call.await, Call.bindingWrite]

variable [DecidableEq ι]

section Acts

variable {st st' : State ι} {act : Action ι} {p : ι} {pr : Proc ι} {c : Call} {k : Cont}
  {done : Bool} {o : Outcome}

theorem State.Acts.bindings (h : st.Acts act st' p pr c k done o) :
    st'.shared.repo.bindings = st.shared.repo.bindings ∨
      done = true ∧ ∃ x v, c.bindingWrite pr.identity = some (x, v) ∧
        st'.shared.repo.bindings = Function.update st.shared.repo.bindings x v := by
  rw [h.repo]
  cases hw : c.await pr.identity with
  | repo op =>
      cases done with
      | false => exact .inl rfl
      | true =>
          have hperf := Call.perform_bindings hw st.shared.ttl st.shared.now st.shared.repo
          cases hb : c.bindingWrite pr.identity with
          | none =>
              rw [hb] at hperf
              exact .inl hperf
          | some xv =>
              rw [hb] at hperf
              exact .inr ⟨rfl, xv.1, xv.2, rfl, hperf⟩
  | ownLock s | ctxLock x | task t => exact .inl rfl

/-- The process after its call returned, and the call it is in then. -/
theorem State.Acts.call_returned {v : Value} (h : st.Acts act st' p pr c k done (.returned v))
    (hfits : pr.FitsCall k c) {a : Identity} {d : Call} (hd : st'.call p = some (a, d)) :
    a = pr.identity ∧ ∃ (pr₁ : Proc ι) (k' : Cont), pr₁.FitsCall k c ∧
      (pr₁.returned k v).stage = .running d k' := by
  obtain ⟨pr', k', hpr', rfl, hstage⟩ := State.call_eq_some.mp hd
  rw [h.procs, Function.update_self] at hpr'
  obtain rfl := Option.some.inj hpr'
  refine ⟨?_, _, k', ?_, hstage⟩
  · have hrec := Proc.returned_record ({ pr with cancelled := pr.cancelled || act.cancels }.track
      st.shared.now c done (.returned v)) k v
    have hid := (Proc.track_frame { pr with cancelled := pr.cancelled || act.cancels }
      st.shared.now c done (.returned v)).1
    exact (congrArg Prod.fst hrec).trans hid
  · exact (pr.sameStand_track (pr.cancelled || act.cancels) st.shared.now c done
      (.returned v)).fitsCall hfits

end Acts

/-! ## §2  Who writes a binding knows the owner -/

theorem binders_step {st st' : State ι} {act : Action ι} (hf : Fitting st) (hk : Known st)
    (hi : Isolated st) (h : st.step act = some st') {q : ι} {a : Identity} {x : ContextId}
    {s : SessionId} {pc : BindPc} (hq : st'.call q = some (a, .bind x s pc)) :
    st'.shared.repo.owners s = some a := by
  suffices hown : st.shared.repo.owners s = some a from owner_stays hk h hown
  rcases State.step_cases h with ⟨p, pr, c, k, done, o, hact⟩ | hquiet
  · by_cases hqp : q = p
    · subst hqp
      have hknown := hk q _ _ hact.call_eq
      cases o with
      | next c' =>
          rw [hact.call_next rfl] at hq
          cases hq
          have hhead := hact.call_moves.head
          cases c <;> simp only [Call.head, reduceCtorEq, Call.bind.injEq, and_true] at hhead
          obtain ⟨rfl, rfl⟩ := hhead
          exact hi.binders q _ _ _ _ hact.call_eq
      | returned v =>
          have hfits := hf.call hact.proc hact.stage
          obtain ⟨rfl, pr₁, k', hfits₁, hstage⟩ := hact.call_returned hfits hq
          obtain ⟨-, -, op, -, -, hfin⟩ := hact.returned
          rcases Proc.returned_bind hfits₁ hstage with ⟨pc', rfl, rfl⟩ | ⟨pc', rfl⟩
          · cases hfin
            exact hknown
          · cases hfin
            exact hknown
      | raised e =>
          obtain ⟨pr', k', hpr', -, hstage⟩ := State.call_eq_some.mp hq
          rw [hact.procs, Function.update_self] at hpr'
          obtain rfl := Option.some.inj hpr'
          obtain ⟨s', hc⟩ := Proc.raised_running hstage
          cases hc
    · rw [hact.call_others hqp] at hq
      exact hi.binders q a x s pc hq
  · obtain ⟨pr', k', hpr', rfl, hstage⟩ := State.call_eq_some.mp hq
    rcases (hquiet.procs q).running hpr' hstage with ⟨pr, hpr, hid, hs⟩ | ⟨-, b, script, rfl, -⟩ |
      ⟨s', hc⟩ | ⟨s', hc⟩
    · exact hi.binders q _ x s pc (State.call_eq_some.mpr ⟨pr, k', hpr, hid, hs⟩)
    · unfold Proc.spawn Script.start at hstage
      dsimp only at hstage
      split at hstage <;> cases hstage
    · cases hc
    · cases hc

/-! ## §3  Every binding is owned -/

theorem State.Acts.owners_own {st st' : State ι} {act : Action ι} {p : ι} {pr : Proc ι}
    {k : Cont} {o : Outcome} {x : ContextId} {t : ℕ} {s : SessionId}
    (h : st.Acts act st' p pr (.create x (.own t s)) k true o) :
    st'.shared.repo.owners s = some pr.identity := by
  rw [h.repo]
  exact Function.update_self _ _ _

/-- A creation at `set_owner` gets it done. -/
theorem WritesTogether.own_done {st st' : State ι} {act : Action ι} {p : ι} {pr : Proc ι}
    {k : Cont} {done : Bool} {o : Outcome} {x : ContextId} {t : ℕ} {s : SessionId}
    (hok : WritesTogether st act)
    (h : st.Acts act st' p pr (.create x (.own t s)) k done o) : done = true := by
  rcases h.moves with ⟨-, hdone, -⟩ | ⟨e, rfl, -⟩
  · exact hdone
  · exact (hok _ x t s).2 h.call_eq

theorem bindings_step {st st' : State ι} {act : Action ι} (hk : Known st) (hi : Isolated st)
    (hok : WritesTogether st act) (h : st.step act = some st') {a : Identity} {x : ContextId}
    {s : SessionId} (hb : st'.shared.repo.bindings (a, x) = some s) :
    st'.shared.repo.owners s = some a ∨
      ∃ p t, st'.call p = some (a, .create x (.own t s)) := by
  rcases State.step_cases h with ⟨p, pr, c, k, done, o, hact⟩ | hquiet
  · -- a binding that was there is as it was, unless its creation writes the owner now
    have hold : st.shared.repo.bindings (a, x) = some s →
        st'.shared.repo.owners s = some a ∨
          ∃ p t, st'.call p = some (a, .create x (.own t s)) := by
      intro hb₀
      rcases hi.bindings a x s hb₀ with hown | ⟨q, t, hq⟩
      · exact .inl (owner_stays hk h hown)
      · by_cases hqp : q = p
        · subst hqp
          have heq := hq.symm.trans hact.call_eq
          cases heq
          obtain rfl := hok.own_done hact
          exact .inl hact.owners_own
        · exact .inr ⟨q, t, by rw [hact.call_others hqp]; exact hq⟩
    rcases hact.bindings with hsame | ⟨rfl, key, v, hw, hupd⟩
    · rw [hsame] at hb
      exact hold hb
    · by_cases hkey : (a, x) = key
      · subst hkey
        rw [hupd, Function.update_self] at hb
        subst hb
        have hknown := hk p _ _ hact.call_eq
        cases c with
        | bind y s' pc =>
            cases pc with
            | lock => cases hw
            | write =>
                cases hw
                exact .inl (owner_stays hk h (hi.binders p _ _ _ _ hact.call_eq))
        | create y pc =>
            cases pc with
            | bind t s' owner =>
                cases hw
                obtain ⟨hown, hforeign⟩ := hknown
                cases owner with
                | some b =>
                    simp only [foreign_eq_false, reduceCtorEq, Option.some.injEq,
                      false_or] at hforeign
                    rw [hforeign] at hown
                    exact .inl (owner_stays hk h hown)
                | none =>
                    rcases hact.reply rfl with ⟨-, -, ho⟩ | ⟨e, rfl, -⟩
                    · exact .inr ⟨p, t, hact.call_next ho⟩
                    · have hcut := (hok _ x t s).1 hact.call_eq
                      cases hcut
            | lock | read | task t | relock t s' | ownLock t s' | owner t s' | own t s' =>
                cases hw
        | pop y pc => cases pc <;> cases hw
        | claim s' pc | finalize s' pc | release s' pc => cases hw
      · rw [hupd, Function.update_of_ne hkey] at hb
        exact hold hb
  · rw [hquiet.repo] at hb ⊢
    rcases hi.bindings a x s hb with hown | ⟨q, t, hq⟩
    · exact .inl hown
    · rcases hquiet.call q with hsame | ⟨hnone, -⟩
      · exact .inr ⟨q, t, hsame.trans hq⟩
      · rw [hq] at hnone
        cases hnone

/-- The invariants of a run without a cut creation. -/
structure Sound (st : State ι) : Prop where
  locked : Locked st
  known : Known st
  fitting : Fitting st
  isolated : Isolated st

theorem sound_step {st st' : State ι} {act : Action ι} (hs : Sound st)
    (hok : WritesTogether st act) (h : st.step act = some st') : Sound st' where
  locked := locked_step hs.locked h
  known := known_step hs.locked hs.known h
  fitting := fitting_step hs.fitting h
  isolated := {
    bindings := fun _ _ _ hb => bindings_step hs.known hs.isolated hok h hb
    binders := fun _ _ _ _ _ hq => binders_step hs.fitting hs.known hs.isolated h hq }

theorem sound_of_runs {repo : Repository} (hrepo : repo.Owned) {ttl : Int}
    {acts : List (Action ι)} {st : State ι}
    (h : Machine.Runs State.step WritesTogether (State.initial ι repo ttl) acts st) :
    Sound st := by
  refine h.invariant (fun s a t hs hok ht => sound_step hs hok ht) ?_
  have hinit : Reachable repo ttl (State.initial ι repo ttl) := Machine.Reachable.refl _
  refine ⟨hinit.known.1, hinit.known.2, hinit.fitting, ?_, ?_⟩
  · intro a x s hb
    exact .inl (hrepo a x s hb)
  · intro p a x s pc hc
    simp [State.initial, State.call] at hc

/-! ## §4  What `get_or_create_session` returns -/

/-- The step binds process `p`, of identity `a`, to session `s`: its
`get_or_create_session` returned `s`, or its guard entered on `s`. -/
def State.Binds (st st' : State ι) (p : ι) (a : Identity) (s : SessionId) : Prop :=
  ∃ pr pr', st.procs p = some pr ∧ pr.session = none ∧
    st'.procs p = some pr' ∧ pr'.identity = a ∧ pr'.session = some s

/-- The owner of the session a call returned. -/
theorem Sound.returned_owner {st st' : State ι} {act : Action ι} (hs : Sound st)
    (h : st.step act = some st') {p : ι} {pr : Proc ι} {c : Call} {k : Cont} {done : Bool}
    {v : Value} (hact : st.Acts act st' p pr c k done (.returned v)) {s : SessionId}
    (hv : (∃ pc b, c = .claim s pc ∧ v = .claimed b) ∨
      v = .session s ∧ ∃ x, (∃ pc, c = .create x pc) ∨ ∃ s' pc, c = .bind x s' pc) :
    st'.shared.repo.owners s = none ∨ st'.shared.repo.owners s = some pr.identity := by
  obtain ⟨-, rfl, op, hw, hrepo, hfin⟩ := hact.returned
  have hknown := hs.known p _ _ hact.call_eq
  rcases hv with ⟨pc, b, rfl, rfl⟩ | ⟨rfl, x, ⟨pc, rfl⟩ | ⟨s', pc, rfl⟩⟩
  · cases hfin with
    | owned => exact .inr (owner_stays hs.known h hknown)
    | claimed =>
        left
        rw [hrepo]
        have hperf := Call.perform_owners hw st.shared.ttl st.shared.now st.shared.repo
        exact (congrFun hperf s).trans hknown
  · cases hfin with
    | found _ _ hr =>
        cases hw
        simp only [RepoOp.perform, Reply.session.injEq] at hr
        right
        rcases hs.isolated.bindings _ _ _ hr with hown | ⟨q, t, hq⟩
        · exact owner_stays hs.known h hown
        · -- both calls are inside the block of the context lock
          have h1 := (hs.locked.ctx.iff_of_call hact.call_eq (pr.identity, x)).mpr rfl
          have h2 := (hs.locked.ctx.iff_of_call hq (pr.identity, x)).mpr rfl
          rw [h1] at h2
          obtain rfl := Option.some.inj h2
          rw [hact.call_eq] at hq
          cases hq
    | again _ t _ b =>
        obtain ⟨hown, hforeign⟩ := hknown
        simp only [foreign_eq_false, reduceCtorEq, Option.some.injEq, false_or] at hforeign
        rw [hforeign] at hown
        exact .inr (owner_stays hs.known h hown)
    | created => exact .inr hact.owners_own
  · cases hfin
    exact .inr (owner_stays hs.known h (hs.isolated.binders p _ _ _ _ hact.call_eq))

/-- **Isolation**: in a run that cuts no creation off between its two writes,
whenever a process of identity `a` is bound to a session, no other identity is
recorded as its owner. -/
theorem bound_session_not_foreign {repo : Repository} (hrepo : repo.Owned) {ttl : Int}
    {acts : List (Action ι)} {st st' : State ι} {act : Action ι}
    (hrun : Machine.Runs State.step WritesTogether (State.initial ι repo ttl) acts st)
    (hstep : st.step act = some st') {p : ι} {a : Identity} {s : SessionId} (hbinds : st.Binds st' p a s)
    {b : Identity} (hown : st'.shared.repo.owners s = some b) : b = a := by
  have hs := sound_of_runs hrepo hrun
  obtain ⟨pr, pr', hpr, hnone, hpr', rfl, hsession⟩ := hbinds
  suffices howner : st'.shared.repo.owners s = none ∨
      st'.shared.repo.owners s = some pr'.identity by
    rcases howner with h | h
    · rw [h] at hown
      cases hown
    · exact Option.some.inj (hown.symm.trans h)
  rcases State.step_cases hstep with ⟨q, qr, c, k, done, o, hact⟩ | hquiet
  · by_cases hpq : p = q
    · subst hpq
      obtain rfl := Option.some.inj (hpr.symm.trans hact.proc)
      rw [hact.procs, Function.update_self] at hpr'
      obtain rfl := Option.some.inj hpr'
      obtain ⟨hid, -, hses, -⟩ := Proc.track_frame
        { pr with cancelled := pr.cancelled || act.cancels } st.shared.now c done o
      have hrec := Proc.next_record ({ pr with cancelled := pr.cancelled || act.cancels }.track
        st.shared.now c done o) k o
      have hidentity := (congrArg Prod.fst hrec).trans hid
      unfold Proc.moved at hsession hidentity ⊢
      cases o with
      | next c' =>
          have hsame := hses.symm.trans hsession
          rw [hnone] at hsame
          cases hsame
      | raised e =>
          have hsame := hses.symm.trans (Proc.raised_session.symm.trans hsession)
          rw [hnone] at hsame
          cases hsame
      | returned v =>
          have hfits := (pr.sameStand_track (pr.cancelled || act.cancels) st.shared.now c done
            (.returned v)).fitsCall (hs.fitting.call hpr hact.stage)
          have howner := hs.returned_owner hstep hact
            (Proc.returned_session hfits (hses.trans hnone) hsession)
          rw [← hidentity] at howner
          exact howner
    · rw [hact.others hpq] at hpr'
      obtain rfl := Option.some.inj (hpr.symm.trans hpr')
      rw [hnone] at hsession
      cases hsession
  · obtain ⟨pr₁, hpr₁, hs₁⟩ := (hquiet.procs p).session hpr' hsession
    obtain rfl := Option.some.inj (hpr.symm.trans hpr₁)
    rw [hnone] at hs₁
    cases hs₁

/-- `user-1` asks again for its context, up to the read of the binding. -/
def lookup : List (Action ℕ) :=
  [.spawn 2 user1 (.getOrCreate "context-A" none), .step 2]

def asked : State ℕ :=
  Machine.after State.step (State.initial ℕ Repository.empty 30) (creation ++ lookup) (by rfl)

def found : State ℕ := Machine.after State.step asked [.step 2] (by rfl)

theorem created_session_is_found_again :
    asked.Binds found 2 user1 session1 ∧
      ∀ b, found.shared.repo.owners session1 = some b → b = user1 := by
  have hrun : Machine.Runs State.step WritesTogether (State.initial ℕ Repository.empty 30)
      (creation ++ lookup) asked :=
    Machine.runs_of_run (by simp [creation, lookup, WritesTogether])
      (Machine.run_after (by rfl))
  have hempty : Repository.empty.Owned := by
    intro a x s h
    cases h
  have hbinds : asked.Binds found 2 user1 session1 := ⟨_, _, rfl, rfl, rfl, rfl, rfl⟩
  have hstep : asked.step (.step 2) = some found := rfl
  refine ⟨hbinds, ?_⟩
  intro b hb
  exact bound_session_not_foreign hempty hrun hstep hbinds hb

/-- A creation of `user-1`, cut off after `set_session`; `user-2` claims the new
session in a run of its own and finalises; `user-1` asks for its context. -/
def cutCreation : List (Action ℕ) :=
  [.spawn 0 user1 (.getOrCreate "context-A" none), .step 0, .step 0, .taskReturn 0 session1,
    .step 0, .step 0, .step 0, .step 0, .interrupt 0 .cancelled true,
    .spawn 1 user2 (.chat "context-B" (some session1)), .step 1, .step 1, .step 1, .step 1,
    .answer 1 none, .step 1, .step 1, .step 1, .step 1, .step 1] ++ lookup

def hijacked : State ℕ :=
  Machine.after State.step (State.initial ℕ Repository.empty 30) cutCreation (by rfl)

/-- Without the condition the claim is false: `user-1` is bound to a session
recorded for `user-2`. -/
theorem cut_creation_binds_foreign_session :
    Reachable Repository.empty 30 hijacked ∧
      ∃ st' : State ℕ, hijacked.step (.step 2) = some st' ∧
        hijacked.Binds st' 2 user1 session1 ∧
        st'.shared.repo.owners session1 = some user2 ∧ user2 ≠ user1 :=
  ⟨⟨cutCreation, Machine.run_after (by rfl)⟩,
    Machine.after State.step hijacked [.step 2] (by rfl), rfl,
    ⟨_, _, rfl, rfl, rfl, rfl, rfl⟩, by decide, by decide⟩

end OpencodeA2a.Session
