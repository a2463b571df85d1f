import OpencodeA2a.Session.Isolation

/-!
# What a pending claim protects

A claim granted to a run is one row of the pending-claims table, shared by all
runs of the identity. It protects the run as long as nobody takes the row away
under it: no other run of the identity releases its claim on the session first,
and no creation of another identity ends on the session, since a creation never
looks at pending claims (`ClaimsKept`).
-/

namespace OpencodeA2a.Session

variable {ι : Type}

/-! ## §1  Standing claims -/

/-- Process `p`, of identity `a`, was granted a claim on `s`, has neither
finalised nor released it, and its time has not elapsed. -/
def State.Claiming (st : State ι) (p : ι) (a : Identity) (s : SessionId) : Prop :=
  ∃ pr t₀, st.procs p = some pr ∧ pr.identity = a ∧ pr.standing = some (s, t₀) ∧
    st.shared.now < t₀ + st.shared.ttl

/-- The repository operation `p` waits for takes effect in the step. -/
def Action.performs (act : Action ι) (p : ι) : Prop :=
  act = .step p ∨ ∃ e, act = .interrupt p e true

/-- A release takes the row away from no other run of the same identity whose
claim stands, unless the identity owns the session; and no creation records its
identity as the owner of a session that is claimed by another. -/
def ClaimsKept (st : State ι) (act : Action ι) : Prop :=
  ∀ p a, act.performs p →
    (∀ s, st.call p = some (a, .release s .clear) →
      st.shared.repo.owners s = some a ∨ ∀ q, q ≠ p → ¬ st.Claiming q a s) ∧
    ∀ x t s, st.call p = some (a, .create x (.own t s)) →
      foreign a (st.shared.repo.getPendingClaim st.shared.ttl st.shared.now s).2 = false

/-- The session a call has checked for pending claims and is about to write. -/
def Call.checked : Call → Option SessionId
  | .claim s .write => some s
  | .finalize s .write => some s
  | _ => none

theorem Call.checked_ownLock {c : Call} {s : SessionId} (h : c.checked = some s) :
    c.ownLock = some s := by
  cases c with
  | claim _ pc | finalize _ pc | release _ pc | bind _ _ pc | create _ pc | pop _ pc =>
      cases pc <;> simp_all [Call.checked, Call.ownLock]

theorem Call.starting.not_checked {c : Call} (h : c.starting) : c.checked = none := by
  cases c with
  | claim _ pc | finalize _ pc | release _ pc | bind _ _ pc | create _ pc | pop _ pc =>
      cases pc <;> simp_all [Call.starting, Call.checked]

/-- The row or the ownership that a standing claim rests on. -/
def Repository.Backs (r : Repository) (s : SessionId) (a : Identity) (e : Int) : Prop :=
  r.owners s = some a ∨ r.owners s = none ∧ r.Row s a e

structure Protected (st : State ι) : Prop where
  since : ∀ p pr s t₀, st.procs p = some pr → pr.standing = some (s, t₀) →
    t₀ ≤ st.shared.now
  backed : ∀ p pr s t₀, st.procs p = some pr → pr.standing = some (s, t₀) →
    st.shared.now < t₀ + st.shared.ttl →
    st.shared.repo.Backs s pr.identity (t₀ + st.shared.ttl)
  checked : ∀ q b c s, st.call q = some (b, c) → c.checked = some s →
    ∀ p a, st.Claiming p a s → a = b

theorem Call.await_setOwner {a b : Identity} {c : Call} {s : SessionId}
    (h : c.await a = .repo (.setOwner s b)) :
    b = a ∧ (c = .finalize s .write ∨ ∃ x t, c = .create x (.own t s)) := by
  cases c with
  | claim _ pc | finalize _ pc | release _ pc | bind _ _ pc | create _ pc | pop _ pc =>
      cases pc <;> simp_all [Call.await]

theorem Call.await_setPendingClaim {a b : Identity} {c : Call} {s : SessionId}
    (h : c.await a = .repo (.setPendingClaim s b)) : b = a ∧ c = .claim s .write := by
  cases c with
  | claim _ pc | finalize _ pc | release _ pc | bind _ _ pc | create _ pc | pop _ pc =>
      cases pc <;> simp_all [Call.await]

theorem Call.await_clearPendingClaim {a b : Identity} {c : Call} {s : SessionId}
    (h : c.await a = .repo (.clearPendingClaim s b)) :
    b = a ∧ (c = .finalize s .clear ∨ c = .release s .clear) := by
  cases c with
  | claim _ pc | finalize _ pc | release _ pc | bind _ _ pc | create _ pc | pop _ pc =>
      cases pc <;> simp_all [Call.await]

/-! ## §2  What the move of a call does to a standing claim -/

variable [DecidableEq ι]

section Acts

variable {st st' : State ι} {act : Action ι} {p : ι} {pr : Proc ι} {c : Call} {k : Cont}
  {done : Bool} {o : Outcome}

theorem State.Acts.performs (h : st.Acts act st' p pr c k true o) : act.performs p := by
  rcases h.moves with ⟨hact, -, -⟩ | ⟨e, hact, -⟩
  · exact .inl hact
  · exact .inr ⟨e, hact⟩

/-- What a standing claim of `a` on `s` rests on survives the move, unless the
move is the release of that claim. -/
theorem State.Acts.backs (hact : st.Acts act st' p pr c k done o) (hk : Known st)
    (hp : Protected st) (hok : ClaimsKept st act) (hstep : st.step act = some st')
    {q : ι} {a : Identity} {s : SessionId} {e : Int} (hclaiming : st.Claiming q a s)
    (hb : st.shared.repo.Backs s a e) (httl : 0 < st.shared.ttl)
    (hnow : st.shared.now < e) (he : e ≤ st.shared.now + st.shared.ttl)
    (hrelease : done = true → c = .release s .clear → pr.identity = a →
      st.shared.repo.owners s = some a) : st'.shared.repo.Backs s a e := by
  rcases hb with hown | ⟨hnone, hrow⟩
  · exact .inl (owner_stays hk hstep hown)
  rw [hact.repo]
  cases hw : c.await pr.identity with
  | ownLock s' | ctxLock x | task t => exact .inr ⟨hnone, hrow⟩
  | repo op =>
      cases done with
      | false => exact .inr ⟨hnone, hrow⟩
      | true =>
          show (op.perform st.shared.ttl st.shared.now st.shared.repo).1.Backs s a e
          -- an operation that writes neither the owner nor this row
          have hkeep : (∀ s' b, op ≠ .setOwner s' b) → (∀ b, op ≠ .setPendingClaim s b) →
              op ≠ .clearPendingClaim s a →
              (op.perform st.shared.ttl st.shared.now st.shared.repo).1.Backs s a e := by
            intro howner hset hclear
            refine .inr ⟨?_, hrow.congr (hrow.perform httl hnow hset hclear)⟩
            rw [RepoOp.perform_owners]
            cases op with
            | setOwner s' b => exact absurd rfl (howner s' b)
            | _ => exact hnone
          cases op with
          | getSession _ | setSession _ _ | popSession _ | getOwner _ | getPendingClaim _ =>
              exact hkeep (by simp) (by simp) (by simp)
          | setOwner s' b =>
              by_cases hs : s = s'
              · subst hs
                left
                have hsame : b = a := by
                  obtain ⟨rfl, rfl | ⟨x, t, rfl⟩⟩ := Call.await_setOwner hw
                  · exact (hp.checked p _ _ s hact.call_eq rfl q a hclaiming).symm
                  · have hforeign := (hok p _ hact.performs).2 x t s hact.call_eq
                    rw [(hrow.getPendingClaim_self httl hnow).1] at hforeign
                    simp only [foreign_eq_false, reduceCtorEq, Option.some.injEq,
                      false_or] at hforeign
                    exact hforeign.symm
                rw [hsame]
                exact Function.update_self _ _ _
              · refine .inr ⟨?_, hrow⟩
                exact (Function.update_of_ne hs _ _).trans hnone
          | setPendingClaim s' b =>
              by_cases hs : s = s'
              · subst hs
                obtain ⟨rfl, rfl⟩ := Call.await_setPendingClaim hw
                obtain rfl := hp.checked p _ _ s hact.call_eq rfl q a hclaiming
                obtain ⟨e', he', hle⟩ := Repository.row_setPendingClaim
                  st.shared.now st.shared.repo httl s pr.identity
                refine .inr ⟨?_, e', he', le_trans he hle⟩
                rw [RepoOp.perform_owners]
                exact hnone
              · exact hkeep (by simp) (by simp [Ne.symm hs]) (by simp)
          | clearPendingClaim s' b =>
              refine hkeep (by simp) (by simp) ?_
              intro hop
              cases hop
              obtain ⟨hid, rfl | rfl⟩ := Call.await_clearPendingClaim hw
              · have hown : st.shared.repo.owners s = some pr.identity :=
                  hk p _ _ hact.call_eq
                rw [hnone] at hown
                cases hown
              · have hown := hrelease rfl rfl hid.symm
                rw [hnone] at hown
                cases hown

omit [DecidableEq ι] in
/-- A claim that stands after the move stood before, and was not released by it,
or was granted by it. -/
theorem Proc.track_standing {now : Int} {s : SessionId} {t₀ : Int}
    (h : (pr.track now c done o).standing = some (s, t₀)) :
    (c = .claim s .write ∧ o = .returned (.claimed true) ∧ t₀ = now) ∨
      pr.standing = some (s, t₀) ∧ (done = true → c ≠ .release s .clear) := by
  unfold Proc.track at h
  split at h
  · cases h
    exact .inl ⟨rfl, rfl, rfl⟩
  · cases h
  · cases h
  · cases h
  · refine .inr ⟨h, ?_⟩
    rintro rfl rfl
    simp_all

theorem State.Acts.standing (h : st.Acts act st' p pr c k done o) {q : ι} {qr : Proc ι}
    {s : SessionId} {t₀ : Int} (hq : st'.procs q = some qr)
    (hs : qr.standing = some (s, t₀)) :
    (q = p ∧ qr.identity = pr.identity ∧ c = .claim s .write ∧
        o = .returned (.claimed true) ∧ t₀ = st.shared.now) ∨
      ∃ qr₀, st.procs q = some qr₀ ∧ qr₀.identity = qr.identity ∧
        qr₀.standing = some (s, t₀) ∧ (q = p → done = true → c ≠ .release s .clear) := by
  by_cases hqp : q = p
  · subst hqp
    rw [h.procs, Function.update_self] at hq
    obtain rfl := Option.some.inj hq
    have hid := (Proc.track_frame { pr with cancelled := pr.cancelled || act.cancels }
      st.shared.now c done o).1
    have hrec := Proc.next_record ({ pr with cancelled := pr.cancelled || act.cancels }.track
      st.shared.now c done o) k o
    simp only [Proc.record, Prod.mk.injEq] at hrec
    obtain ⟨hid', -, -, -, -, hstanding⟩ := hrec
    unfold Proc.moved at hs ⊢
    rw [hstanding] at hs
    rcases Proc.track_standing hs with ⟨hc, ho, ht⟩ | ⟨hold, hrel⟩
    · exact .inl ⟨rfl, hid'.trans hid, hc, ho, ht⟩
    · exact .inr ⟨pr, h.proc, (hid'.trans hid).symm, hold, fun _ => hrel⟩
  · rw [h.others hqp] at hq
    exact .inr ⟨qr, hq, rfl, hs, fun h => absurd h hqp⟩

end Acts

omit [DecidableEq ι] in
/-- Outside its calls a process keeps the record of its claim. -/
theorem Proc.Between.standing {act : Action ι} {q : ι} {x y : Option (Proc ι)}
    (h : Proc.Between act q x y) {pr' : Proc ι} {s : SessionId} {t₀ : Int}
    (hy : y = some pr') (hs : pr'.standing = some (s, t₀)) :
    ∃ pr, x = some pr ∧ pr.identity = pr'.identity ∧ pr.standing = some (s, t₀) := by
  have hkeep : ∀ pr : Proc ι, pr'.record = pr.record →
      pr.identity = pr'.identity ∧ pr.standing = some (s, t₀) := by
    intro pr hrec
    simp only [Proc.record, Prod.mk.injEq] at hrec
    exact ⟨hrec.1.symm, hrec.2.2.2.2.2.symm.trans hs⟩
  cases h with
  | stay => exact ⟨pr', hy, rfl, hs⟩
  | spawn a script =>
      obtain rfl := Option.some.inj hy
      cases hs
  | answer pr fork =>
      obtain rfl := Option.some.inj hy
      exact ⟨pr, rfl, hkeep pr (pr.answer_record fork)⟩
  | fail pr e =>
      obtain rfl := Option.some.inj hy
      have hrec := Proc.fail_record
        { pr with cancelled := pr.cancelled || decide (e = Exc.cancelled) } e
      simp only [Proc.record, Prod.mk.injEq] at hrec
      exact ⟨pr, rfl, hrec.1.symm, hrec.2.2.2.2.2.symm.trans hs⟩
  | turn pr | finish pr | cancel pr =>
      obtain rfl := Option.some.inj hy
      exact ⟨pr, rfl, rfl, hs⟩

/-! ## §3  One step -/

/-- A claim that stands after a step stood before it, or the step granted it. -/
theorem State.Acts.claiming {st st' : State ι} {act : Action ι} {p : ι} {pr : Proc ι}
    {c : Call} {k : Cont} {done : Bool} {o : Outcome} (h : st.Acts act st' p pr c k done o)
    {q : ι} {a : Identity} {s : SessionId} (hq : st'.Claiming q a s) :
    (q = p ∧ a = pr.identity ∧ c = .claim s .write) ∨ st.Claiming q a s := by
  obtain ⟨qr, t₀, hqr, rfl, hs, hlive⟩ := hq
  rcases h.standing hqr hs with ⟨rfl, hid, hc, -, -⟩ | ⟨qr₀, hqr₀, hid, hs₀, -⟩
  · exact .inl ⟨rfl, hid, hc⟩
  · rw [h.clock.1, h.clock.2] at hlive
    exact .inr ⟨qr₀, t₀, hqr₀, hid, hs₀, hlive⟩

omit [DecidableEq ι] in
theorem State.Quiet.claiming {st st' : State ι} {act : Action ι} (h : st.Quiet act st')
    {q : ι} {a : Identity} {s : SessionId} (hq : st'.Claiming q a s) : st.Claiming q a s := by
  obtain ⟨qr, t₀, hqr, rfl, hs, hlive⟩ := hq
  obtain ⟨qr₀, hqr₀, hid, hs₀⟩ := (h.procs q).standing hqr hs
  have hnow := h.now
  rw [h.ttl] at hlive
  exact ⟨qr₀, t₀, hqr₀, hid, hs₀, by omega⟩

theorem since_step {st st' : State ι} {act : Action ι} (hp : Protected st)
    (h : st.step act = some st') {q : ι} {qr : Proc ι} {s : SessionId} {t₀ : Int}
    (hq : st'.procs q = some qr) (hs : qr.standing = some (s, t₀)) :
    t₀ ≤ st'.shared.now := by
  rcases State.step_cases h with ⟨p, pr, c, k, done, o, hact⟩ | hquiet
  · rw [hact.clock.1]
    rcases hact.standing hq hs with ⟨-, -, -, -, rfl⟩ | ⟨qr₀, hqr₀, -, hs₀, -⟩
    · exact le_refl _
    · exact hp.since q qr₀ s t₀ hqr₀ hs₀
  · obtain ⟨qr₀, hqr₀, -, hs₀⟩ := (hquiet.procs q).standing hq hs
    exact le_trans (hp.since q qr₀ s t₀ hqr₀ hs₀) hquiet.now

theorem backed_step {st st' : State ι} {act : Action ι} (hk : Known st) (hp : Protected st)
    (hok : ClaimsKept st act) (h : st.step act = some st') {q : ι} {qr : Proc ι}
    {s : SessionId} {t₀ : Int} (hq : st'.procs q = some qr)
    (hs : qr.standing = some (s, t₀)) (hlive : st'.shared.now < t₀ + st'.shared.ttl) :
    st'.shared.repo.Backs s qr.identity (t₀ + st'.shared.ttl) := by
  rcases State.step_cases h with ⟨p, pr, c, k, done, o, hact⟩ | hquiet
  · rw [hact.clock.1, hact.clock.2] at hlive
    rw [hact.clock.2]
    rcases hact.standing hq hs with ⟨rfl, hid, rfl, rfl, rfl⟩ | ⟨qr₀, hqr₀, hid, hs₀, hrel⟩
    · -- the claim is granted by this step, which wrote the row
      obtain ⟨-, -, op, hw, hrepo, -⟩ := hact.returned
      cases hw
      right
      rw [hrepo, hid]
      refine ⟨?_, Repository.row_setPendingClaim _ _ (by omega) s _⟩
      show ((RepoOp.setPendingClaim s pr.identity).perform _ _ _).1.owners s = none
      rw [RepoOp.perform_owners]
      exact hk q _ _ hact.call_eq
    · have hsince := hp.since q qr₀ s t₀ hqr₀ hs₀
      rw [← hid]
      refine hact.backs hk hp hok h (q := q) ⟨qr₀, t₀, hqr₀, rfl, hs₀, hlive⟩
        (hp.backed q qr₀ s t₀ hqr₀ hs₀ hlive) (by omega) hlive (by omega) ?_
      rintro rfl rfl hsame
      have hother : q ≠ p := fun hqp => hrel hqp rfl rfl
      have hcall := hact.call_eq
      rw [hsame] at hcall
      rcases (hok p _ hact.performs).1 s hcall with hown | hnone
      · exact hown
      · exact absurd ⟨qr₀, t₀, hqr₀, rfl, hs₀, hlive⟩ (hnone q hother)
  · obtain ⟨qr₀, hqr₀, hid, hs₀⟩ := (hquiet.procs q).standing hq hs
    have hnow := hquiet.now
    rw [hquiet.ttl] at hlive
    rw [hquiet.repo, hquiet.ttl, ← hid]
    exact hp.backed q qr₀ s t₀ hqr₀ hs₀ (by omega)

omit [DecidableEq ι] in
/-- A call comes to its write only from the read of the pending claim, which was
neither somebody else's nor was the owner. -/
theorem Call.resume_checked {a : Identity} {σ : Shared ι} {c c' : Call} {r : Reply}
    {s : SessionId} (h : Outcome.next c' = (c.resume a σ r).2) (hc : c'.checked = some s) :
    ∃ x y, (c = .claim s (.pending x) ∨ c = .finalize s (.pending x)) ∧ r = .identity y ∧
      foreign a x = false ∧ foreign a y = false := by
  unfold Call.resume at h
  split at h <;> (try split_ifs at h) <;> (try cases h) <;> (try cases hc)
  · rename_i x y h1 h2 h3
    exact ⟨x, y, .inl rfl, rfl, by simpa using h1, by simpa using h2⟩
  · rename_i x y h1 h2
    exact ⟨x, y, .inr rfl, rfl, by simpa using h1, by simpa using h2⟩

theorem State.Acts.checked {st st' : State ι} {act : Action ι} {p : ι} {pr : Proc ι}
    {c c' : Call} {k : Cont} {done : Bool} (h : st.Acts act st' p pr c k done (.next c'))
    {s : SessionId} (hc : c'.checked = some s) :
    ∃ x, (c = .claim s (.pending x) ∨ c = .finalize s (.pending x)) ∧
      foreign pr.identity x = false ∧ foreign pr.identity
        (st.shared.repo.getPendingClaim st.shared.ttl st.shared.now s).2 = false := by
  have hpc : ∃ x, c = .claim s (.pending x) ∨ c = .finalize s (.pending x) := by
    rcases h.moves with ⟨-, -, hs⟩ | ⟨e, -, he⟩
    · obtain ⟨σ₁, r, -, ho, -⟩ := Call.step_eq hs
      obtain ⟨x, y, hx, -⟩ := Call.resume_checked ho hc
      exact ⟨x, hx⟩
    · rcases Call.interrupt_eq he with ⟨ho, -, -⟩ | ⟨t, hw, -, ⟨ho, -⟩ | ⟨ho, -⟩⟩
      · cases ho
      · cases ho
        obtain ⟨y, rfl⟩ := Call.of_await_task hw
        cases hc
      · cases ho
  obtain ⟨x, hx⟩ := hpc
  have hw : c.await pr.identity = .repo (.getPendingClaim s) := by
    rcases hx with rfl | rfl <;> rfl
  rcases h.reply hw with ⟨-, -, ho⟩ | ⟨e, -, ho⟩
  · obtain ⟨x', y, hx', hy, h1, h2⟩ := Call.resume_checked ho hc
    cases hy
    refine ⟨x', hx', h1, h2⟩
  · cases ho

theorem checked_step {st st' : State ι} {act : Action ι} (hl : Locked st) (hk : Known st)
    (hp : Protected st) (h : st.step act = some st') {q : ι} {b : Identity} {d : Call}
    {s : SessionId} (hq : st'.call q = some (b, d)) (hd : d.checked = some s) {q' : ι}
    {a : Identity} (hclaiming : st'.Claiming q' a s) : a = b := by
  rcases State.step_cases h with ⟨p, pr, c, k, done, o, hact⟩ | hquiet
  · by_cases hqp : q = p
    · subst hqp
      cases o with
      | next c' =>
          rw [hact.call_next rfl] at hq
          cases hq
          obtain ⟨x, hx, hox, hpx⟩ := hact.checked hd
          rcases hact.claiming hclaiming with ⟨-, -, rfl⟩ | ⟨qr, t₀, hqr, rfl, hs, hlive⟩
          · rcases hx with hx | hx <;> cases hx
          have hsince := hp.since q' qr s t₀ hqr hs
          rcases hp.backed q' qr s t₀ hqr hs hlive with hown | ⟨-, hrow⟩
          · have hknown : st.shared.repo.owners s = x := by
              have := hk q _ _ hact.call_eq
              rcases hx with rfl | rfl <;> exact this
            rw [← hknown, hown] at hox
            simpa [foreign_eq_false] using hox
          · rw [(hrow.getPendingClaim_self (by omega) hlive).1] at hpx
            simpa [foreign_eq_false] using hpx
      | returned v | raised e =>
          obtain ⟨-, hstart⟩ := hact.call_fresh (by simp) hq
          rw [hstart.not_checked] at hd
          cases hd
    · rw [hact.call_others hqp] at hq
      rcases hact.claiming hclaiming with ⟨-, -, rfl⟩ | hold
      · -- the claim was granted inside the block that `q` is in
        exact absurd (hl.own_unique hq (Call.checked_ownLock hd) hact.call_eq rfl) hqp
      · exact hp.checked q b d s hq hd q' a hold
  · have hold := hquiet.claiming hclaiming
    rcases hquiet.call q with hsame | ⟨-, hstart⟩
    · exact hp.checked q b d s (hsame ▸ hq) hd q' a hold
    · rw [(hstart b d hq).not_checked] at hd
      cases hd

/-! ## §4  Every run -/

theorem protected_of_runs {repo : Repository} {ttl : Int} {acts : List (Action ι)}
    {st : State ι}
    (h : Machine.Runs State.step ClaimsKept (State.initial ι repo ttl) acts st) :
    Locked st ∧ Known st ∧ Protected st := by
  refine h.invariant (I := fun st => Locked st ∧ Known st ∧ Protected st) ?_ ?_
  · rintro st act st' ⟨hl, hk, hp⟩ hok hstep
    refine ⟨locked_step hl hstep, known_step hl hk hstep, ?_, ?_, ?_⟩
    · intro p pr s t₀ hpr hs
      exact since_step hp hstep hpr hs
    · intro p pr s t₀ hpr hs hlive
      exact backed_step hk hp hok hstep hpr hs hlive
    · intro q b d s hq hd p a hclaiming
      exact checked_step hl hk hp hstep hq hd hclaiming
  · have hinit : Reachable repo ttl (State.initial ι repo ttl) := Machine.Reachable.refl _
    refine ⟨hinit.known.1, hinit.known.2, ?_, ?_, ?_⟩
    · intro p pr s t₀ hpr
      simp [State.initial] at hpr
    · intro p pr s t₀ hpr
      simp [State.initial] at hpr
    · intro q b d s hq
      simp [State.initial, State.call] at hq

/-- **A pending claim protects the run it was granted to**: while it stands, no
other identity owns the session and no other identity has a claim on it granted
and standing. -/
theorem standing_claim_protects {repo : Repository} {ttl : Int} {acts : List (Action ι)}
    {st : State ι}
    (hrun : Machine.Runs State.step ClaimsKept (State.initial ι repo ttl) acts st) {p : ι}
    {a : Identity} {s : SessionId} (hp : st.Claiming p a s) :
    (∀ b, st.shared.repo.owners s = some b → b = a) ∧
      ∀ q b, st.Claiming q b s → b = a := by
  obtain ⟨-, -, hprot⟩ := protected_of_runs hrun
  obtain ⟨pr, t₀, hpr, rfl, hs, hlive⟩ := hp
  have hback := hprot.backed p pr s t₀ hpr hs hlive
  constructor
  · intro b hb
    rcases hback with hown | ⟨hnone, -⟩
    · rw [hown] at hb
      exact (Option.some.inj hb).symm
    · rw [hnone] at hb
      cases hb
  · rintro q b ⟨qr, t₁, hqr, rfl, hs', hlive'⟩
    rcases hprot.backed q qr s t₁ hqr hs' hlive', hback with
      ⟨hown | ⟨hnone, hrow⟩, hown' | ⟨hnone', hrow'⟩⟩
    · rw [hown] at hown'
      exact Option.some.inj hown'
    · rw [hown] at hnone'
      cases hnone'
    · rw [hnone] at hown'
      cases hown'
    · exact hrow.unique hrow'

/-- A check that is enough for `ClaimsKept`: no claim is cleared and no creation
records an owner. -/
def harmless (st : State ℕ) : Action ℕ → Bool
  | .step p | .interrupt p _ _ =>
      match st.call p with
      | some (_, .release _ .clear) | some (_, .create _ (.own _ _)) => false
      | _ => true
  | _ => true

theorem claimsKept_of_harmless (st : State ℕ) (act : Action ℕ)
    (h : harmless st act = true) : ClaimsKept st act := by
  intro p a hperf
  have hcall : ∀ d, st.call p = some (a, d) → (∀ s, d ≠ .release s .clear) ∧
      ∀ x t s, d ≠ .create x (.own t s) := by
    intro d hd
    rcases hperf with rfl | ⟨e, rfl⟩ <;>
      (simp only [harmless, hd] at h
       constructor
       · rintro s rfl
         cases h
       · rintro x t s rfl
         cases h)
  constructor
  · intro s hs
    exact absurd rfl ((hcall _ hs).1 s)
  · intro x t s hs
    exact absurd rfl ((hcall _ hs).2 x t s)

/-- `user-1` is granted a claim on `session-1`; `user-2` asks for one. -/
def claimed : List (Action ℕ) :=
  [.spawn 0 user1 (.guarded session1 false), .step 0, .step 0, .step 0, .step 0,
    .spawn 1 user2 (.guarded session1 false), .step 1, .step 1, .step 1]

def guardedState : State ℕ :=
  Machine.after (Machine.restrict State.step harmless)
    (State.initial ℕ Repository.empty 30) claimed (by rfl)

theorem granted_claim_protects :
    guardedState.Claiming 0 user1 session1 ∧
      (∀ b, guardedState.shared.repo.owners session1 = some b → b = user1) ∧
      ∀ q b, guardedState.Claiming q b session1 → b = user1 := by
  have hrun : Machine.Runs State.step ClaimsKept (State.initial ℕ Repository.empty 30) claimed
      guardedState :=
    Machine.runs_of_restrict _ claimsKept_of_harmless (Machine.run_after (by rfl))
  have hclaiming : guardedState.Claiming 0 user1 session1 :=
    ⟨_, 0, rfl, rfl, rfl, by decide⟩
  exact ⟨hclaiming, standing_claim_protects hrun hclaiming⟩

/-- Two runs of `user-1` are granted claims on `session-1`; the upstream call of
one fails and its claim is released; `user-2` asks for one. -/
def doubleClaim : List (Action ℕ) :=
  [.spawn 0 user1 (.chat "context-A" (some session1)), .step 0, .step 0, .step 0, .step 0,
    .spawn 1 user1 (.chat "context-B" (some session1)), .step 1, .step 1, .step 1, .step 1,
    .fail 1 .upstream, .step 1, .step 1,
    .spawn 2 user2 (.chat "context-C" (some session1)), .step 2, .step 2, .step 2, .step 2]

/-- Without the condition the claim is false: `user-2` is granted a claim while
the claim of the first run of `user-1` stands. -/
theorem release_exposes_other_run :
    ∃ st : State ℕ, Reachable Repository.empty 30 st ∧ st.Claiming 0 user1 session1 ∧
      st.Claiming 2 user2 session1 ∧ user1 ≠ user2 :=
  ⟨Machine.after State.step (State.initial ℕ Repository.empty 30) doubleClaim (by rfl),
    ⟨doubleClaim, Machine.run_after (by rfl)⟩, ⟨_, 0, rfl, rfl, rfl, by decide⟩,
    ⟨_, 0, rfl, rfl, rfl, by decide⟩, by decide⟩

end OpencodeA2a.Session
