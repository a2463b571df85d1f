import OpencodeA2a.Session.Creation

/-!
# The ledger of a claim

Runs of executor runs, JSON-RPC operations and cancellations, where upstream may
fail and anything may be cancelled but the database answers (`Requests`): a claim
that was granted is marked pending until it is cleared, and an operation that
ends in any way but by a cancellation has cleared the claim it was granted
(`Proc.Ledger`).
-/

namespace OpencodeA2a.Session

variable {ι : Type}

/-! ## §1  Requests -/

/-- An executor run, a JSON-RPC operation under a guard, or `executor.cancel`. -/
def Script.request : Script ι → Prop
  | .chat _ _ | .guarded _ _ | .cancel _ _ => True
  | _ => False

/-- Only requests are started, and the database does not fail. -/
def Requests (_ : State ι) : Action ι → Prop
  | .spawn _ _ script => script.request
  | .interrupt _ e _ => e = .cancelled
  | _ => True

/-! ## §2  The ledger of a claim -/

/-- A claim that was granted has been cleared. -/
def Proc.Settled (pr : Proc ι) : Prop := pr.granted = true → pr.cleared = true

/-- A claim that was granted has been cleared or is still marked pending. -/
def Proc.Tracked (pr : Proc ι) : Prop :=
  pr.granted = true → pr.cleared = true ∨ pr.pending = true

def Proc.Ledger (pr : Proc ι) : Prop :=
  match pr.stage with
  | .running _ .rebound | .working => pr.Settled
  | .running _ .popped | .aborting _ => pr.granted = false
  | .running _ _ | .upstream => pr.Tracked
  | .ended r => r ≠ .failed .cancelled → pr.Settled

theorem Proc.Tracked.settled {pr : Proc ι} (h : pr.Tracked) (hp : pr.pending = false) :
    pr.Settled := by
  intro hg
  rcases h hg with hc | hc
  · exact hc
  · rw [hp] at hc
    cases hc

theorem Proc.Settled.tracked {pr : Proc ι} (h : pr.Settled) : pr.Tracked :=
  fun hg => .inl (h hg)

theorem Proc.settled_of_not_granted {pr : Proc ι} (h : pr.granted = false) : pr.Settled := by
  intro hg
  rw [h] at hg
  cases hg

/-- In every stage but the last a claim is tracked. -/
theorem Proc.Ledger.tracked {pr : Proc ι} (h : pr.Ledger) (hs : ∀ r, pr.stage ≠ .ended r) :
    pr.Tracked := by
  unfold Proc.Ledger at h
  split at h
  · exact h.tracked
  · exact h.tracked
  · exact (Proc.settled_of_not_granted h).tracked
  · exact (Proc.settled_of_not_granted h).tracked
  · exact h
  · exact h
  · rename_i r hr
    exact absurd hr (hs r)

section Results

variable {pr : Proc ι}

theorem Proc.fail_ledger (h : pr.Tracked) (hs : pr.pending = true → pr.session.isSome = true)
    (e : Exc) : (pr.fail e).Ledger := by
  unfold Proc.fail
  split
  · exact h
  · rename_i hne
    intro _ hg
    rcases h hg with hc | hc
    · exact hc
    · obtain ⟨s, hsession⟩ := Option.isSome_iff_exists.mp (hs hc)
      exact absurd hsession (hne s hc)

theorem Proc.bound_ledger (hchat : ∃ c o, pr.script = .chat c o) (s : SessionId) (b : Bool)
    (h : b = false → pr.Settled) : (pr.bound s b).Ledger := by
  unfold Proc.bound
  split
  · cases b with
    | true => exact fun _ => .inr rfl
    | false => exact fun hg => .inl (h rfl hg)
  · rename_i hne
    obtain ⟨x, o, hx⟩ := hchat
    exact absurd hx (hne x o)

theorem Proc.claimed_ledger (hreq : pr.script.request) {s : SessionId}
    (hclaims : pr.script.claims = some s) (b : Bool) (h : b = false → pr.Settled) :
    (pr.claimed b).Ledger := by
  unfold Proc.claimed
  split
  · rename_i hscript
    rw [hscript] at hreq
    exact hreq.elim
  · rename_i x s' hscript
    cases b with
    | true => exact Proc.bound_ledger ⟨_, _, hscript⟩ _ _ (by simp)
    | false => exact (h rfl).tracked
  · cases b with
    | true => exact fun _ => .inr rfl
    | false => exact fun hg => .inl (h rfl hg)
  · rename_i hget hchat hguarded
    cases hscript : pr.script with
    | chat x o =>
        rw [hscript] at hclaims
        cases hclaims
        exact absurd hscript (hchat x s)
    | guarded s' f => exact absurd hscript (hguarded s' f)
    | cancel x q =>
        rw [hscript] at hclaims
        cases hclaims
    | getOrCreate | claim | finalizeBinding | finalize | release | pop =>
        rw [hscript] at hreq
        exact hreq.elim

theorem Proc.guardFinalized_ledger (h : pr.Settled) : pr.guardFinalized.Ledger := by
  unfold Proc.guardFinalized
  split
  · exact h.tracked
  · exact fun _ => h

theorem Proc.answer_ledger (h : pr.Ledger) (hstage : pr.stage = .upstream)
    (fork : Option SessionId) : (pr.answer fork).Ledger := by
  have ht : pr.Tracked := by
    unfold Proc.Ledger at h
    rwa [hstage] at h
  unfold Proc.answer
  split
  · split
    · exact ht
    · rename_i hp
      exact ht.settled (by simpa using hp)
  · dsimp only
    split
    · exact ht
    · rename_i hp
      exact Proc.guardFinalized_ledger (ht.settled (by simpa using hp))
  · exact h

theorem Proc.finalized_ledger (hreq : pr.script.request) (h : pr.Settled) :
    pr.finalized.Ledger := by
  unfold Proc.finalized
  split
  · exact h
  · rename_i hscript
    rw [hscript] at hreq
    exact hreq.elim
  · exact Proc.guardFinalized_ledger h
  · exact fun _ => h

/-- What the ledger says while a call waits, by where its result goes. -/
theorem Proc.Ledger.running {k : Cont} {c : Call} (h : pr.Ledger)
    (hs : pr.stage = .running c k) :
    match k with
    | .rebound => pr.Settled
    | .popped => pr.granted = false
    | _ => pr.Tracked := by
  unfold Proc.Ledger at h
  rw [hs] at h
  cases k <;> exact h

/-- What happens to the claim when a call returns. -/
theorem Proc.returned_ledger {a : Identity} {r : Reply} {k : Cont} {c : Call} {v : Value}
    (hfits : pr.FitsCall k c) (hreq : pr.script.request) (hfin : Call.Finishes a r c v)
    (hstage : pr.stage = .running c k) (hl : v ≠ .claimed true → pr.Ledger)
    (hcleared : k = .finalized ∨ k = .released → pr.cleared = true) :
    (pr.returned k v).Ledger := by
  cases hfin with
  | owned s =>
      cases k <;> try exact hfits.elim
      have ht : pr.Tracked := (hl (by simp)).running hstage
      exact Proc.claimed_ledger hreq hfits.1 false fun _ => ht.settled hfits.2.pending
  | claimed s =>
      cases k <;> try exact hfits.elim
      exact Proc.claimed_ledger hreq hfits.1 true (by simp)
  | finalized s =>
      cases k <;> try exact hfits.elim
      · exact Proc.finalized_ledger hreq fun _ => hcleared (.inl rfl)
      · have ht : pr.Tracked := (hl (by simp)).running hstage
        exact fun _ => ht.settled hfits.2.2.2
  | released s =>
      cases k <;> try exact hfits.elim
      have hsettled : pr.Settled := fun _ => hcleared (.inr rfl)
      simp only [Proc.returned]
      split <;> exact fun _ => hsettled
  | bound x s =>
      cases k <;> try exact hfits.elim
      · have ht : pr.Tracked := (hl (by simp)).running hstage
        refine Proc.bound_ledger ?_ s false fun _ => ht.settled hfits.2.pending
        rcases hfits.1 with h | h
        · rw [h] at hreq
          exact hreq.elim
        · exact ⟨x, _, h⟩
      · have hsettled : pr.Settled := (hl (by simp)).running hstage
        simp only [Proc.returned]
        split
        · exact hsettled
        · exact fun _ => hsettled
  | found x s | again x t s | created x t s =>
      cases k <;> try exact hfits.elim
      have ht : pr.Tracked := (hl (by simp)).running hstage
      refine Proc.bound_ledger ?_ s false fun _ => ht.settled hfits.2.pending
      rcases hfits.1 with h | h
      · rw [h] at hreq
        exact hreq.elim
      · exact ⟨x, _, h⟩
  | popped x t =>
      cases k <;> try exact hfits.elim
      have hg : pr.granted = false := (hl (by simp)).running hstage
      simp only [Proc.returned]
      split
      · exact hg
      · exact fun _ => Proc.settled_of_not_granted hg

/-- What happens to the claim when a call raises; a release only raises when it
is cancelled. -/
theorem Proc.raised_ledger {k : Cont} {c : Call} (hfits : pr.FitsCall k c)
    (hreq : pr.script.request) (hstage : pr.stage = .running c k) (hl : pr.Ledger) (e : Exc)
    (hrel : k = .released → e = .cancelled) : (pr.raised k e).Ledger := by
  have hrun := hl.running hstage
  -- a process without a pending claim ends with the exception
  have hend : pr.Settled → Proc.Ledger { pr with stage := .ended (.failed e) } :=
    fun hs _ => hs
  cases k with
  | claimed | bound | created =>
      cases c <;> try exact hfits.elim
      exact hend (Proc.Tracked.settled hrun hfits.2.pending)
  | forked =>
      cases c <;> try exact hfits.elim
      exact hend (Proc.Tracked.settled hrun hfits.2.2.2)
  | popped => exact hend (Proc.settled_of_not_granted hrun)
  | released =>
      obtain rfl := hrel rfl
      have hcancel : Proc.Ledger { pr with stage := .ended (.failed .cancelled) } :=
        fun h => absurd rfl h
      cases hscript : pr.script with
      | chat x o => simpa [Proc.raised, hscript] using hcancel
      | guarded s f => simpa [Proc.raised, hscript] using hcancel
      | cancel x q => simpa [Proc.raised, hscript] using hcancel
      | getOrCreate | claim | finalizeBinding | finalize | release | pop =>
          rw [hscript] at hreq
          exact hreq.elim
  | finalized =>
      cases c <;> try exact hfits.elim
      rcases hfits with h | ⟨x, h⟩ | h
      · have hfail := Proc.fail_ledger hrun (fun _ => by rw [h.session]; rfl) e
        have hop := h.operates
        cases hscript : pr.script with
        | chat x o => simpa [Proc.raised, hscript] using hfail
        | guarded s f => simpa [Proc.raised, hscript] using hfail
        | cancel | getOrCreate | claim | finalizeBinding | finalize | release | pop =>
            rw [hscript] at hop
            exact hop.elim
      · rw [h] at hreq
        exact hreq.elim
      · rw [h] at hreq
        exact hreq.elim
  | rebound =>
      cases c <;> try exact hfits.elim
      rcases hfits with ⟨h, x, hscript⟩ | h
      · have hfail := Proc.fail_ledger (Proc.Settled.tracked hrun)
          (fun _ => by rw [h.session]; rfl) e
        simpa [Proc.raised, hscript] using hfail
      · rw [h] at hreq
        exact hreq.elim

end Results

/-! ## §3  One step -/

/-- Clearing a claim and moving within a call keep the ledger in order. -/
theorem Proc.Ledger.mono {pr pr' : Proc ι} (h : pr.Ledger) (hstage : pr'.stage = pr.stage)
    (hg : pr'.granted = pr.granted) (hc : pr.cleared = true → pr'.cleared = true)
    (hp : pr'.pending = pr.pending) : pr'.Ledger := by
  have hsettled : pr.Settled → pr'.Settled := fun hs hgr => hc (hs (hg ▸ hgr))
  have htracked : pr.Tracked → pr'.Tracked := fun ht hgr =>
    (ht (hg ▸ hgr)).imp hc (hp.trans ·)
  unfold Proc.Ledger at h ⊢
  rw [hstage, hg]
  split at h
  · exact hsettled h
  · exact hsettled h
  · exact h
  · exact h
  · exact htracked h
  · exact htracked h
  · exact fun hr => hsettled (h hr)

theorem Proc.track_ledger {pr : Proc ι} (b : Bool) (now : Int) (c : Call) (done : Bool)
    (o : Outcome) (ho : o ≠ .returned (.claimed true)) (h : pr.Ledger) :
    ({ pr with cancelled := b }.track now c done o).Ledger := by
  have hsame : Proc.Ledger { pr with cancelled := b } := h.mono rfl rfl id rfl
  unfold Proc.track
  split
  · exact absurd rfl ho
  · exact hsame.mono rfl rfl id rfl
  · exact hsame.mono rfl rfl (fun _ => rfl) rfl
  · exact hsame.mono rfl rfl (fun _ => rfl) rfl
  · exact hsame

theorem Proc.track_stage (pr : Proc ι) (now : Int) (c : Call) (done : Bool) (o : Outcome) :
    (pr.track now c done o).stage = pr.stage := by
  unfold Proc.track
  split <;> rfl

theorem Call.resume_release {a : Identity} {σ : Shared ι} {s : SessionId} {pc : ReleasePc}
    {r : Reply} {e : Exc} : Outcome.raised e ≠ ((Call.release s pc).resume a σ r).2 := by
  cases pc <;> simp [Call.resume]

/-- Every process is a request with its ledger in order. -/
def Accounted (st : State ι) : Prop :=
  ∀ p pr, st.procs p = some pr → pr.script.request ∧ pr.Ledger

theorem Proc.Between.ledger {st : State ι} {act : Action ι} {q : ι} {x y : Option (Proc ι)}
    (h : Proc.Between act q x y) (hok : Requests st act)
    (hx : ∀ pr, x = some pr → pr.Fits ∧ pr.script.request ∧ pr.Ledger) :
    ∀ pr, y = some pr → pr.script.request ∧ pr.Ledger := by
  intro pr' hy
  cases h with
  | stay => exact (hx pr' hy).2
  | spawn a script hact =>
      obtain rfl := Option.some.inj hy
      subst hact
      refine ⟨hok, ?_⟩
      have hg : (Proc.spawn a script).granted = false := rfl
      have hs := Proc.settled_of_not_granted hg
      unfold Proc.Ledger
      split
      · exact hs
      · exact hs
      · exact hg
      · exact hg
      · exact hs.tracked
      · exact hs.tracked
      · exact fun _ => hs
  | answer pr fork hstage =>
      obtain rfl := Option.some.inj hy
      obtain ⟨-, hreq, hl⟩ := hx pr rfl
      have hrec := pr.answer_record fork
      simp only [Proc.record, Prod.mk.injEq] at hrec
      exact ⟨hrec.2.1 ▸ hreq, Proc.answer_ledger hl hstage fork⟩
  | fail pr e hstage =>
      obtain rfl := Option.some.inj hy
      obtain ⟨hfits, hreq, hl⟩ := hx pr rfl
      have hrec := Proc.fail_record
        { pr with cancelled := pr.cancelled || decide (e = Exc.cancelled) } e
      simp only [Proc.record, Prod.mk.injEq] at hrec
      refine ⟨by rw [hrec.2.1]; exact hreq, Proc.fail_ledger ?_ ?_ e⟩
      · refine hl.tracked ?_
        rcases hstage with hs | hs <;> simp [hs]
      · intro _
        unfold Proc.Fits at hfits
        rcases hstage with hs | hs <;> (rw [hs] at hfits; exact hfits.2)
  | turn pr hstage =>
      obtain rfl := Option.some.inj hy
      obtain ⟨-, hreq, hl⟩ := hx pr rfl
      refine ⟨hreq, hl.tracked ?_⟩
      simp [hstage]
  | finish pr b hstage hb =>
      obtain rfl := Option.some.inj hy
      obtain ⟨-, hreq, hl⟩ := hx pr rfl
      refine ⟨hreq, fun _ => ?_⟩
      unfold Proc.Ledger at hl
      rcases hstage with hs | ⟨t, hs⟩ <;> rw [hs] at hl
      · exact hl
      · exact Proc.settled_of_not_granted hl
  | cancel pr =>
      obtain rfl := Option.some.inj hy
      obtain ⟨-, hreq, hl⟩ := hx pr rfl
      exact ⟨hreq, hl.mono rfl rfl id rfl⟩

variable [DecidableEq ι]

/-- A release is only cut off by a cancellation. -/
theorem State.Acts.raised_release {st st' : State ι} {act : Action ι} {p : ι} {pr : Proc ι}
    {s : SessionId} {pc : ReleasePc} {k : Cont} {done : Bool} {e : Exc}
    (h : st.Acts act st' p pr (.release s pc) k done (.raised e)) (hok : Requests st act) :
    e = .cancelled := by
  rcases h.moves with ⟨-, -, hs⟩ | ⟨e', rfl, he⟩
  · obtain ⟨σ₁, r, -, ho, -⟩ := Call.step_eq hs
    exact absurd ho Call.resume_release
  · rcases Call.interrupt_eq he with ⟨ho, -⟩ | ⟨t, -, -, ⟨ho, -⟩ | ⟨ho, -⟩⟩
    · cases ho
      exact hok
    · cases ho
    · exact Outcome.raised.inj ho

theorem accounted_step {st st' : State ι} {act : Action ι} (hf : Fitting st)
    (ha : Accounted st) (hok : Requests st act) (h : st.step act = some st') :
    Accounted st' := by
  intro q qr hq
  rcases State.step_cases h with ⟨p, pr, c, k, done, o, hact⟩ | hquiet
  · by_cases hqp : q = p
    · subst hqp
      rw [hact.procs, Function.update_self] at hq
      obtain rfl := Option.some.inj hq
      obtain ⟨hreq, hl⟩ := ha q pr hact.proc
      have hstand := pr.sameStand_track (pr.cancelled || act.cancels) st.shared.now c done o
      have hfits := hstand.fitsCall (hf.call hact.proc hact.stage)
      have hstage := (Proc.track_stage { pr with cancelled := pr.cancelled || act.cancels }
        st.shared.now c done o).trans hact.stage
      have hreq' := hstand.script.symm ▸ hreq
      have hrec := Proc.next_record ({ pr with cancelled := pr.cancelled || act.cancels }.track
        st.shared.now c done o) k o
      simp only [Proc.record, Prod.mk.injEq] at hrec
      refine ⟨hrec.2.1 ▸ hreq', ?_⟩
      unfold Proc.moved
      cases o with
      | next c' =>
          have hl' := Proc.track_ledger (pr.cancelled || act.cancels) st.shared.now c done
            (.next c') (by simp) hl
          have hrun := hl'.running hstage
          unfold Proc.Ledger
          cases k <;> exact hrun
      | raised e =>
          have hl' := Proc.track_ledger (pr.cancelled || act.cancels) st.shared.now c done
            (.raised e) (by simp) hl
          refine Proc.raised_ledger hfits hreq' hstage hl' e ?_
          rintro rfl
          cases c <;> try exact hfits.elim
          exact hact.raised_release hok
      | returned v =>
          obtain ⟨-, rfl, op, -, -, hfin⟩ := hact.returned
          refine Proc.returned_ledger hfits hreq' hfin hstage ?_ ?_
          · intro hv
            exact Proc.track_ledger _ _ _ _ _ (by simpa using hv) hl
          · rintro (rfl | rfl)
            · cases hfin <;> try exact hfits.elim
              rfl
            · cases hfin <;> try exact hfits.elim
              rfl
    · rw [hact.others hqp] at hq
      exact ha q qr hq
  · refine (hquiet.procs q).ledger hok ?_ qr hq
    intro pr hpr
    exact ⟨hf q pr hpr, ha q pr hpr⟩

/-! ## §4  Every run -/

theorem accounted_of_runs {repo : Repository} {ttl : Int} {acts : List (Action ι)}
    {st : State ι}
    (h : Machine.Runs State.step Requests (State.initial ι repo ttl) acts st) :
    Accounted st := by
  have hinv := h.invariant (I := fun st => Fitting st ∧ Accounted st) ?_ ?_
  · exact hinv.2
  · rintro st act st' ⟨hf, ha⟩ hok hstep
    exact ⟨fitting_step hf hstep, accounted_step hf ha hok hstep⟩
  · constructor
    · intro p pr hp
      simp [State.initial] at hp
    · intro p pr hp
      simp [State.initial] at hp

end OpencodeA2a.Session
