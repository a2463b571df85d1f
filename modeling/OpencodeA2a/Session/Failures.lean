import OpencodeA2a.Session.Ledger

/-!
# Failed operations grant nothing

An owner is recorded only by an operation whose own upstream call has answered,
or for the session its own creation or fork returned (`State.Entitled`); and an
operation that was granted a claim leaves no row of its identity on that session
when it ends, however it ends, unless a cancellation cuts off its release. The
row goes with the release or with the finalisation; after a finalisation the
identity owns the session, so none of its runs makes another row
(`Repository.Held`).
-/

namespace OpencodeA2a.Session

variable {ι : Type}

/-! ## §1  A session that is owned and not claimed -/

/-- `a` owns `s` and has no claim on it. -/
def Repository.Held (r : Repository) (s : SessionId) (a : Identity) : Prop :=
  r.owners s = some a ∧ r.Unclaimed s a

section Held

variable [DecidableEq ι] {st st' : State ι} {act : Action ι} {p : ι} {pr : Proc ι} {c : Call}
  {k : Cont} {done : Bool} {o : Outcome} {s : SessionId} {a : Identity}

/-- A move makes no claim for `a`, unless it is the granting of one. -/
theorem State.Acts.unclaimed (h : st.Acts act st' p pr c k done o)
    (hu : st.shared.repo.Unclaimed s a) (hc : c = .claim s .write → pr.identity ≠ a) :
    st'.shared.repo.Unclaimed s a := by
  rw [h.repo]
  cases hw : c.await pr.identity with
  | ownLock s' | ctxLock x | task t => exact hu
  | repo op =>
      cases done with
      | false => exact hu
      | true =>
          refine Repository.Unclaimed.perform hu ?_
          rintro rfl
          obtain ⟨rfl, hclaim⟩ := Call.await_setPendingClaim hw
          exact hc hclaim rfl

/-- The last move of a finalisation or a release takes the row away. -/
theorem State.Acts.cleared (h : st.Acts act st' p pr c k true o)
    (hc : c = .finalize s .clear ∨ c = .release s .clear) :
    st'.shared.repo.Unclaimed s pr.identity := by
  rw [h.repo]
  rcases hc with rfl | rfl <;>
    exact Repository.unclaimed_clearPendingClaim st.shared.repo s pr.identity

/-- The owner of a session gets no claim on it. -/
theorem held_step (hk : Known st) (h : st.step act = some st')
    (hheld : st.shared.repo.Held s a) : st'.shared.repo.Held s a := by
  refine ⟨owner_stays hk h hheld.1, ?_⟩
  rcases State.step_cases h with ⟨p, pr, c, k, done, o, hact⟩ | hquiet
  · refine hact.unclaimed hheld.2 ?_
    rintro rfl -
    have hnone : st.shared.repo.owners s = none := hk p _ _ hact.call_eq
    rw [hheld.1] at hnone
    cases hnone
  · rw [hquiet.repo]
    exact hheld.2

end Held

/-! ## §2  What a claim is for -/

/-- The claim that is pending is for the session the process is bound to, and
nothing is cleared before the claim is answered. -/
structure Proc.Aims (pr : Proc ι) : Prop where
  fresh : ∀ c, pr.stage = .running c .claimed → pr.cleared = false
  session : pr.pending = true → pr.session = pr.script.claims

section Results

variable {pr : Proc ι}

theorem Proc.aims_of_not_pending (hstage : ∀ c, pr.stage ≠ .running c .claimed)
    (hp : pr.pending = false) : pr.Aims := by
  refine ⟨fun c hs => absurd hs (hstage c), ?_⟩
  intro h
  rw [hp] at h
  cases h

/-- Past its claim a process may change its stage. -/
theorem Proc.Aims.stage (h : pr.Aims) {x : Stage} (hx : ∀ c, x ≠ .running c .claimed) :
    Proc.Aims { pr with stage := x } :=
  ⟨fun c hs => absurd hs (hx c), h.session⟩

theorem Proc.bound_aims (s : SessionId) (b : Bool) (hs : b = true → pr.script.claims = some s)
    (hp : pr.pending = false) : (pr.bound s b).Aims := by
  unfold Proc.bound
  split
  · exact ⟨by simp, fun hb => (hs hb).symm⟩
  · exact Proc.aims_of_not_pending (by simp) hp

theorem Proc.claimed_aims {s : SessionId} (hclaims : pr.script.claims = some s)
    (hp : pr.pending = false) (b : Bool) : (pr.claimed b).Aims := by
  unfold Proc.claimed
  split
  · rename_i x s' hscript
    obtain rfl : s' = s := by simpa [hscript, Script.claims] using hclaims
    split
    · exact Proc.bound_aims _ _ (fun _ => hclaims) hp
    · exact Proc.aims_of_not_pending (by simp) hp
  · rename_i x s' hscript
    obtain rfl : s' = s := by simpa [hscript, Script.claims] using hclaims
    split
    · exact Proc.bound_aims _ _ (fun _ => hclaims) hp
    · exact Proc.aims_of_not_pending (by simp) hp
  · rename_i s' f hscript
    refine ⟨by simp, fun _ => ?_⟩
    simp [hscript, Script.claims]
  · exact Proc.aims_of_not_pending (by simp) hp

theorem Proc.fail_aims (h : pr.Aims) (e : Exc) : (pr.fail e).Aims := by
  refine ⟨?_, ?_⟩
  · intro c hs
    obtain ⟨s, -, hk, -⟩ := Proc.fail_running hs
    cases hk
  · unfold Proc.fail
    split <;> exact h.session

theorem Proc.guardFinalized_aims (h : pr.Aims) : pr.guardFinalized.Aims := by
  unfold Proc.guardFinalized
  split <;> exact h.stage (by simp)

theorem Proc.answer_aims (h : pr.Aims) (fork : Option SessionId) (hstage : pr.stage = .upstream) :
    (pr.answer fork).Aims := by
  unfold Proc.answer
  split
  · split <;> exact ⟨by simp, h.session⟩
  · dsimp only
    split
    · exact ⟨by simp, h.session⟩
    · exact Proc.guardFinalized_aims ⟨by simp [hstage], h.session⟩
  · exact h

theorem Proc.finalized_aims (h : pr.Aims) (hstage : ∀ c, pr.stage ≠ .running c .claimed) :
    pr.finalized.Aims := by
  unfold Proc.finalized
  split
  · exact h.stage (by simp)
  · exact h.stage (by simp)
  · exact Proc.guardFinalized_aims (Proc.aims_of_not_pending (by simpa using hstage) rfl)
  · exact h.stage (by simp)

theorem Proc.returned_aims {k : Cont} {c : Call} (hfits : pr.FitsCall k c) (h : pr.Aims)
    (hstage : pr.stage = .running c k) (v : Value) : (pr.returned k v).Aims := by
  unfold Proc.returned
  split
  · cases c <;> try exact hfits.elim
    exact Proc.claimed_aims hfits.1 hfits.2.pending _
  · cases c <;> try exact hfits.elim
    exact Proc.bound_aims _ _ (by simp) hfits.2.pending
  · cases c <;> try exact hfits.elim
    exact Proc.bound_aims _ _ (by simp) hfits.2.pending
  · exact Proc.finalized_aims h (by simp [hstage])
  · split
    · exact Proc.aims_of_not_pending (by simp) rfl
    · exact h.stage (by simp)
  · exact h.stage (by simp)
  · split <;> exact h.stage (by simp)
  · split <;> exact h.stage (by simp)
  · exact h.stage (by simp)

theorem Proc.raised_aims (h : pr.Aims) (k : Cont) (e : Exc) : (pr.raised k e).Aims := by
  unfold Proc.raised
  split
  · exact Proc.fail_aims h e
  · exact Proc.fail_aims h e
  · exact Proc.fail_aims h e
  · split <;> exact h.stage (by simp)
  · split <;> exact h.stage (by simp)
  · exact h.stage (by simp)

/-- What a move records of the claim: it is granted, it is cleared, or neither. -/
theorem Proc.track_claim (pr : Proc ι) (now : Int) (c : Call) (done : Bool) (o : Outcome) :
    (pr.track now c done o).granted = pr.granted ∧ (pr.track now c done o).cleared = pr.cleared ∨
      (∃ s, c = .claim s .write ∧ o = .returned (.claimed true)) ∧
        (pr.track now c done o).cleared = pr.cleared ∨
      (∃ s, c = .finalize s .clear ∨ c = .release s .clear) ∧ done = true ∧
        (pr.track now c done o).granted = pr.granted := by
  unfold Proc.track
  split
  · exact .inr (.inl ⟨⟨_, rfl, rfl⟩, rfl⟩)
  · exact .inl ⟨rfl, rfl⟩
  · exact .inr (.inr ⟨⟨_, .inl rfl⟩, rfl, rfl⟩)
  · exact .inr (.inr ⟨⟨_, .inr rfl⟩, rfl, rfl⟩)
  · exact .inl ⟨rfl, rfl⟩

theorem Proc.track_aims {k : Cont} {c : Call} (hfits : pr.FitsCall k c) (h : pr.Aims)
    (hstage : pr.stage = .running c k) (b : Bool) (now : Int) (done : Bool) (o : Outcome) :
    ({ pr with cancelled := b }.track now c done o).Aims := by
  have hsame := pr.sameStand_track b now c done o
  refine ⟨?_, ?_⟩
  · intro c' hs
    obtain ⟨rfl, rfl⟩ : c = c' ∧ k = .claimed := by
      have hrun := (Proc.track_stage { pr with cancelled := b } now c done o).symm.trans hs
      simpa [hstage] using hrun
    cases c <;> try exact hfits.elim
    rcases Proc.track_claim { pr with cancelled := b } now (.claim _ _) done o with
      ⟨-, hc⟩ | ⟨-, hc⟩ | ⟨⟨s', hc | hc⟩, -⟩
    · exact hc.trans (h.fresh _ hstage)
    · exact hc.trans (h.fresh _ hstage)
    · cases hc
    · cases hc
  · intro hp
    rw [hsame.session, hsame.script]
    exact h.session (hsame.pending.symm.trans hp)

end Results

/-! ## §3  One step -/

/-- The process has not ended. -/
def Proc.Open (pr : Proc ι) : Prop := ∀ r, pr.stage ≠ .ended r

theorem Proc.open_of_running {pr : Proc ι} {c : Call} {k : Cont} (h : pr.stage = .running c k) :
    pr.Open := by
  intro r hr
  rw [h] at hr
  cases hr

/-- A process whose claim was cleared holds the session it claimed. -/
def State.Shows (st : State ι) (pr : Proc ι) : Prop :=
  pr.granted = true → pr.cleared = true → ∀ s, pr.script.claims = some s →
    st.shared.repo.Held s pr.identity

/-- Every process knows what its claim is for, and shows for it until it ends. -/
def Kept (st : State ι) : Prop :=
  ∀ p pr, st.procs p = some pr → pr.Aims ∧ (pr.Open → st.Shows pr)

theorem State.Shows.congr {st st' : State ι} {pr pr' : Proc ι} (h : st.Shows pr)
    (hrepo : st'.shared.repo = st.shared.repo) (hid : pr'.identity = pr.identity)
    (hscript : pr'.script = pr.script) (hgranted : pr'.granted = pr.granted)
    (hcleared : pr'.cleared = pr.cleared) : st'.Shows pr' := by
  intro hg hc s hs
  rw [hrepo, hid]
  exact h (hgranted ▸ hg) (hcleared ▸ hc) s (hscript ▸ hs)

theorem Proc.Between.kept {st st' : State ι} {act : Action ι} {q : ι} {x y : Option (Proc ι)}
    (h : Proc.Between act q x y) (hrepo : st'.shared.repo = st.shared.repo)
    (hx : ∀ pr, x = some pr → pr.Aims ∧ (pr.Open → st.Shows pr)) :
    ∀ pr, y = some pr → pr.Aims ∧ (pr.Open → st'.Shows pr) := by
  intro pr' hy
  cases h with
  | stay =>
      obtain ⟨haims, hshows⟩ := hx pr' hy
      exact ⟨haims, fun hopen => (hshows hopen).congr hrepo rfl rfl rfl rfl⟩
  | spawn a script =>
      obtain rfl := Option.some.inj hy
      refine ⟨⟨fun _ _ => rfl, ?_⟩, ?_⟩
      · rintro ⟨⟩
      · rintro - ⟨⟩
  | answer pr fork hstage =>
      obtain rfl := Option.some.inj hy
      obtain ⟨haims, hshows⟩ := hx pr rfl
      refine ⟨Proc.answer_aims haims fork hstage, fun _ => ?_⟩
      have hrec := pr.answer_record fork
      simp only [Proc.record, Prod.mk.injEq] at hrec
      obtain ⟨hid, hscript, -, hgranted, hcleared, -⟩ := hrec
      exact (hshows (by simp [Proc.Open, hstage])).congr hrepo hid hscript hgranted hcleared
  | fail pr e hstage =>
      obtain rfl := Option.some.inj hy
      obtain ⟨haims, hshows⟩ := hx pr rfl
      have haims' : Proc.Aims { pr with cancelled := pr.cancelled || decide (e = Exc.cancelled) } :=
        ⟨haims.fresh, haims.session⟩
      refine ⟨Proc.fail_aims haims' e, fun _ => ?_⟩
      have hrec := Proc.fail_record
        { pr with cancelled := pr.cancelled || decide (e = Exc.cancelled) } e
      simp only [Proc.record, Prod.mk.injEq] at hrec
      obtain ⟨hid, hscript, -, hgranted, hcleared, -⟩ := hrec
      have hopen : pr.Open := by rcases hstage with hs | hs <;> simp [Proc.Open, hs]
      exact (hshows hopen).congr hrepo hid hscript hgranted hcleared
  | turn pr hstage =>
      obtain rfl := Option.some.inj hy
      obtain ⟨haims, hshows⟩ := hx pr rfl
      refine ⟨haims.stage (by simp), fun _ => ?_⟩
      exact (hshows (by simp [Proc.Open, hstage])).congr hrepo rfl rfl rfl rfl
  | finish pr b hstage =>
      obtain rfl := Option.some.inj hy
      refine ⟨⟨by simp, (hx pr rfl).1.session⟩, fun hopen => ?_⟩
      exact absurd rfl (hopen _)
  | cancel pr =>
      obtain rfl := Option.some.inj hy
      obtain ⟨haims, hshows⟩ := hx pr rfl
      exact ⟨⟨haims.fresh, haims.session⟩, fun hopen => (hshows hopen).congr hrepo rfl rfl rfl rfl⟩

variable [DecidableEq ι]

section Acts

variable {st st' : State ι} {act : Action ι} {p : ι} {pr : Proc ι} {c : Call} {k : Cont}
  {done : Bool} {o : Outcome} {s : SessionId}

/-- A call that was released has ended. -/
theorem State.Acts.released_ended (h : st.Acts act st' p pr c k true o)
    (hfits : pr.FitsCall k c) (hreq : pr.script.request) (hc : c = .release s .clear)
    {pr' : Proc ι} (hp' : st'.procs p = some pr') : ¬ pr'.Open := by
  subst hc
  cases k <;> try exact hfits.elim
  have hend : ∀ pr₁ : Proc ι, pr₁.script = pr.script → ∀ v e,
      ¬ (pr₁.returned .released v).Open ∧ ¬ (pr₁.raised .released e).Open := by
    intro pr₁ hscript v e
    cases hs : pr.script <;> rw [hs] at hscript hreq <;> try exact hreq.elim
    all_goals
      simp only [Proc.returned, Proc.raised, hscript]
      refine ⟨fun hopen => hopen _ rfl, ?_⟩
      first
      | exact fun hopen => hopen _ rfl
      | split <;> exact fun hopen => hopen _ rfl
  have hscript := (Proc.track_frame { pr with cancelled := pr.cancelled || act.cancels }
    st.shared.now (.release s .clear) true o).2.1
  rw [h.procs, Function.update_self] at hp'
  obtain rfl := Option.some.inj hp'
  cases o with
  | next c' =>
      rcases h.reply rfl with ⟨-, -, ho⟩ | ⟨e, -, ho⟩ <;> cases ho
  | returned v => exact (hend _ hscript v .error).1
  | raised e => exact (hend _ hscript .unit e).2

/-- A finalisation that has cleared its claim holds the session it claimed. -/
theorem State.Acts.finalized_held (hact : st.Acts act st' p pr c k true o) (hk : Known st)
    (h : st.step act = some st') (hc : c = .finalize s .clear) :
    st'.shared.repo.Held s pr.identity := by
  subst hc
  have hown : st.shared.repo.owners s = some pr.identity := hk p _ _ hact.call_eq
  exact ⟨owner_stays hk h hown, hact.cleared (.inl rfl)⟩

theorem State.Acts.moved_aims (hact : st.Acts act st' p pr c k done o) (hfits : pr.FitsCall k c)
    (haims : pr.Aims) {pr' : Proc ι} (hp' : st'.procs p = some pr') : pr'.Aims := by
  rw [hact.procs, Function.update_self] at hp'
  obtain rfl := Option.some.inj hp'
  have hstand := pr.sameStand_track (pr.cancelled || act.cancels) st.shared.now c done o
  have haims' := Proc.track_aims hfits haims hact.stage (pr.cancelled || act.cancels)
    st.shared.now done o
  have hstage := (Proc.track_stage { pr with cancelled := pr.cancelled || act.cancels }
    st.shared.now c done o).trans hact.stage
  unfold Proc.moved
  cases o with
  | next c' =>
      refine ⟨?_, haims'.session⟩
      intro c'' hs
      have hk' : k = .claimed := by
        simp only [Proc.next, Stage.running.injEq] at hs
        exact hs.2
      subst hk'
      exact haims'.fresh c hstage
  | returned v => exact Proc.returned_aims (hstand.fitsCall hfits) haims' hstage v
  | raised e => exact Proc.raised_aims haims' k e

/-- A move that clears the claim of a process that goes on is its finalisation. -/
theorem State.Acts.moved_shows (hact : st.Acts act st' p pr c k done o) (hk : Known st)
    (h : st.step act = some st') (hfits : pr.FitsCall k c) (hreq : pr.script.request)
    (hl : pr.Ledger) (haims : pr.Aims) (hshows : st.Shows pr) {pr' : Proc ι}
    (hp' : st'.procs p = some pr') (hopen : pr'.Open) : st'.Shows pr' := by
  have hmoved := hp'
  rw [hact.procs, Function.update_self] at hp'
  obtain rfl := Option.some.inj hp'
  intro hg hc s hs
  have hrec := Proc.next_record ({ pr with cancelled := pr.cancelled || act.cancels }.track
    st.shared.now c done o) k o
  have hframe := Proc.track_frame { pr with cancelled := pr.cancelled || act.cancels }
    st.shared.now c done o
  simp only [Proc.record, Prod.mk.injEq] at hrec
  have hid := hrec.1.trans hframe.1
  have hclaims : pr.script.claims = some s := by
    rw [← hs]
    exact congrArg Script.claims (hrec.2.1.trans hframe.2.1).symm
  unfold Proc.moved at hg hc ⊢
  rw [hrec.2.2.2.1] at hg
  rw [hrec.2.2.2.2.1] at hc
  rw [hid]
  have hbefore : pr.granted = true → pr.cleared = true → st'.shared.repo.Held s pr.identity :=
    fun hg hc => held_step hk h (hshows hg hc s hclaims)
  rcases Proc.track_claim { pr with cancelled := pr.cancelled || act.cancels }
    st.shared.now c done o with ⟨hgr, hcl⟩ | ⟨⟨s', rfl, -⟩, hcl⟩ | ⟨⟨s', hcall⟩, rfl, hgr⟩
  · exact hbefore (hgr.symm.trans hg) (hcl.symm.trans hc)
  · -- granted by this move: nothing was cleared before
    cases k <;> try exact hfits.elim
    have hfresh := haims.fresh _ hact.stage
    rw [hcl] at hc
    exact absurd (hfresh.symm.trans hc) (by simp)
  · rw [hgr] at hg
    rcases hcall with rfl | rfl
    · cases k <;> try exact hfits.elim
      · have hheld := hact.finalized_held hk h rfl
        rcases hfits with hholds | ⟨x, hx⟩ | hx
        · have hsame := (haims.session hholds.pending).symm.trans hholds.session
          obtain rfl := Option.some.inj (hclaims.symm.trans hsame)
          exact hheld
        · rw [hx] at hreq
          exact hreq.elim
        · rw [hx] at hreq
          exact hreq.elim
      · have ht : pr.Tracked := hl.running hact.stage
        exact hbefore hg (ht.settled hfits.2.2.2 hg)
    · exact absurd hopen (hact.released_ended hfits hreq rfl hmoved)

end Acts

theorem kept_step {st st' : State ι} {act : Action ι} (hf : Fitting st) (hk : Known st)
    (ha : Accounted st) (hkept : Kept st) (h : st.step act = some st') : Kept st' := by
  intro q qr hq
  rcases State.step_cases h with ⟨p, pr, c, k, done, o, hact⟩ | hquiet
  · by_cases hqp : q = p
    · subst hqp
      obtain ⟨hreq, hl⟩ := ha q pr hact.proc
      obtain ⟨haims, hshows⟩ := hkept q pr hact.proc
      have hfits := hf.call hact.proc hact.stage
      refine ⟨hact.moved_aims hfits haims hq, fun hopen => ?_⟩
      exact hact.moved_shows hk h hfits hreq hl haims (hshows (Proc.open_of_running hact.stage)) hq
        hopen
    · rw [hact.others hqp] at hq
      obtain ⟨haims, hshows⟩ := hkept q qr hq
      exact ⟨haims, fun hopen hg hc s hs => held_step hk h (hshows hopen hg hc s hs)⟩
  · exact (hquiet.procs q).kept hquiet.repo (hkept q) qr hq

/-! ## §4  The end of an operation -/

omit [DecidableEq ι] in
theorem Proc.fail_open {pr : Proc ι} (hp : pr.pending = true) (hs : pr.session.isSome = true)
    (e : Exc) : (pr.fail e).Open := by
  obtain ⟨s, hs⟩ := Option.isSome_iff_exists.mp hs
  simp [Proc.Open, Proc.fail, hp, hs]

omit [DecidableEq ι] in
theorem Proc.answer_open {pr : Proc ι} (hstage : pr.stage = .upstream) (hp : pr.pending = true)
    (fork : Option SessionId) : (pr.answer fork).Open := by
  unfold Proc.answer Proc.Open
  split <;> simp [hp, hstage]

omit [DecidableEq ι] in
/-- Outside its calls a process ends without a claim that is pending. -/
theorem Proc.Between.ends {act : Action ι} {q : ι} {x y : Option (Proc ι)}
    (h : Proc.Between act q x y) {pr pr' : Proc ι} (hx : x = some pr) (hy : y = some pr')
    (hfits : pr.Fits) (hl : pr.Ledger) (hopen : pr.Open) (hend : ¬ pr'.Open) :
    pr.Settled ∧ pr'.identity = pr.identity ∧ pr'.script = pr.script ∧
      pr'.granted = pr.granted := by
  cases h with
  | stay =>
      obtain rfl := Option.some.inj (hx.symm.trans hy)
      exact absurd hopen hend
  | spawn a script => cases hx
  | answer pr₁ fork hstage =>
      obtain rfl := Option.some.inj hx
      obtain rfl := Option.some.inj hy
      have hrec := pr₁.answer_record fork
      simp only [Proc.record, Prod.mk.injEq] at hrec
      refine ⟨(hl.tracked hopen).settled ?_, hrec.1, hrec.2.1, hrec.2.2.2.1⟩
      by_contra hp
      exact hend (Proc.answer_open hstage (by simpa using hp) fork)
  | fail pr₁ e hstage =>
      obtain rfl := Option.some.inj hx
      obtain rfl := Option.some.inj hy
      have hrec := Proc.fail_record
        { pr₁ with cancelled := pr₁.cancelled || decide (e = Exc.cancelled) } e
      simp only [Proc.record, Prod.mk.injEq] at hrec
      refine ⟨(hl.tracked hopen).settled ?_, hrec.1, hrec.2.1, hrec.2.2.2.1⟩
      by_contra hp
      refine hend (Proc.fail_open (by simpa using hp) ?_ e)
      unfold Proc.Fits at hfits
      rcases hstage with hs | hs <;> (rw [hs] at hfits; exact hfits.2)
  | turn _ hstage =>
      obtain rfl := Option.some.inj hy
      exact absurd (by simp [Proc.Open]) hend
  | finish _ b hstage =>
      obtain rfl := Option.some.inj hx
      obtain rfl := Option.some.inj hy
      refine ⟨?_, rfl, rfl, rfl⟩
      unfold Proc.Ledger at hl
      rcases hstage with hs | ⟨t, hs⟩ <;> rw [hs] at hl
      · exact hl
      · exact Proc.settled_of_not_granted hl
  | cancel _ =>
      obtain rfl := Option.some.inj hx
      obtain rfl := Option.some.inj hy
      exact absurd hopen hend

omit [DecidableEq ι] in
/-- A request whose claim is granted goes on to its upstream call. -/
theorem Proc.claimed_open {pr : Proc ι} (hreq : pr.script.request) {s : SessionId}
    (hclaims : pr.script.claims = some s) (b : Bool) : (pr.claimed b).Open := by
  cases hscript : pr.script with
  | chat x o =>
      rw [hscript] at hclaims
      cases hclaims
      cases b <;> simp [Proc.claimed, Proc.bound, Proc.Open, hscript]
  | guarded s' f => simp [Proc.claimed, Proc.Open, hscript]
  | cancel x q =>
      rw [hscript] at hclaims
      cases hclaims
  | getOrCreate | claim | finalizeBinding | finalize | release | pop =>
      rw [hscript] at hreq
      exact hreq.elim

/-- A cancellation cuts off the release that `p` is in. -/
def State.CutsRelease (st : State ι) (act : Action ι) (p : ι) : Prop :=
  ∃ a s pc applied, st.call p = some (a, .release s pc) ∧ act = .interrupt p .cancelled applied

section Endings

variable {pr pr' : Proc ι} {k : Cont} {c : Call}

omit [DecidableEq ι]

/-- An exception ends a process whose claim is not pending, or cuts off its release. -/
theorem Proc.raised_ends (hfits : pr.FitsCall k c) (hreq : pr.script.request)
    (hl : pr.Ledger) (hstage : pr.stage = .running c k) (hsame : pr.SameStand pr') (e : Exc)
    (hend : ¬ (pr'.raised k e).Open) : pr.Settled ∨ ∃ s pc, c = .release s pc := by
  have hrun := hl.running hstage
  cases k with
  | claimed | bound | created =>
      cases c <;> try exact hfits.elim
      exact .inl (Proc.Tracked.settled hrun hfits.2.pending)
  | forked =>
      cases c <;> try exact hfits.elim
      exact .inl (Proc.Tracked.settled hrun hfits.2.2.2)
  | popped => exact .inl (Proc.settled_of_not_granted hrun)
  | released =>
      cases c <;> try exact hfits.elim
      exact .inr ⟨_, _, rfl⟩
  | rebound => exact .inl hrun
  | finalized =>
      cases c <;> try exact hfits.elim
      rcases hfits with h | ⟨x, h⟩ | h
      · -- the operation still holds its claim and goes on to release it
        have hfail := Proc.fail_open (hsame.pending.trans h.pending)
          (by rw [hsame.session, h.session]; rfl) e
        have hop := h.operates
        rw [← hsame.script] at hop
        cases hscript : pr'.script <;> rw [hscript] at hop <;> try exact hop.elim
        all_goals exact absurd (by simpa [Proc.raised, hscript] using hfail) hend
      · rw [h] at hreq
        exact hreq.elim
      · rw [h] at hreq
        exact hreq.elim

/-- A request that ends on a result has settled its claim, or clears it in that step. -/
theorem Proc.returned_ends {a : Identity} {r : Reply} {v : Value} (hfits : pr.FitsCall k c)
    (hreq : pr.script.request) (hl : pr.Ledger) (hstage : pr.stage = .running c k)
    (hfin : Call.Finishes a r c v) (hsame : pr.SameStand pr')
    (hend : ¬ (pr'.returned k v).Open) :
    (pr.Settled ∧ ∀ s, c ≠ .claim s .write) ∨
      ∃ s, (c = .finalize s .clear ∨ c = .release s .clear) ∧ pr.session = some s ∧
        pr.pending = true := by
  have hrun := hl.running hstage
  cases hfin with
  | owned s | claimed s =>
      cases k <;> try exact hfits.elim
      have hclaims : pr'.script.claims = some s := hsame.script.symm ▸ hfits.1
      exact absurd (Proc.claimed_open (hsame.script.symm ▸ hreq) hclaims _) hend
  | finalized s =>
      cases k <;> try exact hfits.elim
      · rcases hfits with h | ⟨x, h⟩ | h
        · exact .inr ⟨s, .inl rfl, h.session, h.pending⟩
        · rw [h] at hreq
          exact hreq.elim
        · rw [h] at hreq
          exact hreq.elim
      · exact .inl ⟨Proc.Tracked.settled hrun hfits.2.2.2, by simp⟩
  | released s =>
      cases k <;> try exact hfits.elim
      rcases hfits with h | ⟨-, hsession, hp⟩
      · rw [h] at hreq
        exact hreq.elim
      · exact .inr ⟨s, .inr rfl, hsession, hp⟩
  | bound x s =>
      cases k <;> try exact hfits.elim
      · exact .inl ⟨Proc.Tracked.settled hrun hfits.2.pending, by simp⟩
      · exact .inl ⟨hrun, by simp⟩
  | found x s | again x t s | created x t s =>
      cases k <;> try exact hfits.elim
      exact .inl ⟨Proc.Tracked.settled hrun hfits.2.pending, by simp⟩
  | popped x t =>
      cases k <;> try exact hfits.elim
      exact .inl ⟨Proc.settled_of_not_granted hrun, by simp⟩

end Endings

/-- In the step process `p` ends, as `pr`. -/
def State.Ends (st st' : State ι) (p : ι) (pr : Proc ι) : Prop :=
  st'.procs p = some pr ∧ (∃ r, pr.stage = .ended r) ∧
    ∃ pr₀, st.procs p = some pr₀ ∧ pr₀.Open

/-- The session an ending request claimed is left without a row of its identity. -/
theorem State.Ends.unclaimed {st st' : State ι} {act : Action ι} {p : ι} {pr : Proc ι}
    {s : SessionId} (hends : st.Ends st' p pr) (hf : Fitting st) (hk : Known st)
    (ha : Accounted st) (hkept : Kept st) (hok : Requests st act)
    (h : st.step act = some st') (hcut : ¬ st.CutsRelease act p) (hg : pr.granted = true)
    (hs : pr.script.claims = some s) : st'.shared.repo.Unclaimed s pr.identity := by
  obtain ⟨hp', ⟨r, hr⟩, pr₀, hp, hopen⟩ := hends
  have hend : ¬ pr.Open := fun h => h r hr
  obtain ⟨hreq, hl⟩ := ha p pr₀ hp
  obtain ⟨haims, hshows⟩ := hkept p pr₀ hp
  -- a claim that was cleared before stays cleared
  have hsettled : pr₀.granted = true → pr₀.script.claims = some s → pr₀.Settled →
      st'.shared.repo.Unclaimed s pr₀.identity := fun hg hs hset =>
    (held_step hk h (hshows hopen hg (hset hg) s hs)).2
  rcases State.step_cases h with ⟨q, qr, c, k, done, o, hact⟩ | hquiet
  · by_cases hqp : p = q
    · subst hqp
      obtain rfl := Option.some.inj (hp.symm.trans hact.proc)
      have hfits := hf.call hp hact.stage
      have hstand := pr₀.sameStand_track (pr₀.cancelled || act.cancels) st.shared.now c done o
      have hframe := Proc.track_frame { pr₀ with cancelled := pr₀.cancelled || act.cancels }
        st.shared.now c done o
      have hrec := Proc.next_record ({ pr₀ with cancelled := pr₀.cancelled || act.cancels }.track
        st.shared.now c done o) k o
      simp only [Proc.record, Prod.mk.injEq] at hrec
      rw [hact.procs, Function.update_self] at hp'
      obtain rfl := Option.some.inj hp'
      unfold Proc.moved at hend hg hs ⊢
      rw [hrec.1.trans hframe.1]
      rw [hrec.2.1.trans hframe.2.1] at hs
      rw [hrec.2.2.2.1] at hg
      have hgranted := Proc.track_claim { pr₀ with cancelled := pr₀.cancelled || act.cancels }
        st.shared.now c done o
      cases o with
      | next c' => exact absurd (Proc.open_of_running rfl) hend
      | raised e =>
          have hg₀ : pr₀.granted = true := by
            rcases hgranted with ⟨hgr, -⟩ | ⟨⟨s', -, ho⟩, -⟩ | ⟨-, -, hgr⟩
            · exact hgr.symm.trans hg
            · cases ho
            · exact hgr.symm.trans hg
          rcases Proc.raised_ends hfits hreq hl hact.stage hstand e hend with
            hset | ⟨s', pc, rfl⟩
          · exact hsettled hg₀ hs hset
          · obtain rfl := hact.raised_release hok
            refine absurd ⟨_, s', pc, done, hact.call_eq, ?_⟩ hcut
            rcases hact.moves with ⟨-, -, hstep⟩ | ⟨e, rfl, he⟩
            · obtain ⟨σ₁, r, -, ho, -⟩ := Call.step_eq hstep
              exact absurd ho Call.resume_release
            · rw [show e = .cancelled from hok]
      | returned v =>
          obtain ⟨-, rfl, op, hw, -, hfin⟩ := hact.returned
          rcases Proc.returned_ends hfits hreq hl hact.stage hfin hstand hend with
            ⟨hset, hnotclaim⟩ | ⟨s', hcall, hsession, hpending⟩
          · refine hsettled ?_ hs hset
            rcases hgranted with ⟨hgr, -⟩ | ⟨⟨s', hc, -⟩, -⟩ | ⟨-, -, hgr⟩
            · exact hgr.symm.trans hg
            · exact absurd hc (hnotclaim s')
            · exact hgr.symm.trans hg
          · have hsame := (haims.session hpending).symm.trans hsession
            obtain rfl := Option.some.inj (hs.symm.trans hsame)
            exact hact.cleared hcall
    · rw [hact.others hqp, hp] at hp'
      obtain rfl := Option.some.inj hp'
      exact absurd hopen hend
  · obtain ⟨hset, hid, hscript, hgranted⟩ := (hquiet.procs p).ends hp hp' (hf p pr₀ hp) hl hopen hend
    rw [hid]
    exact hsettled (hgranted.symm.trans hg) (hscript ▸ hs) hset

/-! ## §5  Every run -/

theorem kept_of_runs {repo : Repository} {ttl : Int} {acts : List (Action ι)} {st : State ι}
    (h : Machine.Runs State.step Requests (State.initial ι repo ttl) acts st) : Kept st := by
  have hinv := h.invariant
    (I := fun st => Fitting st ∧ (Locked st ∧ Known st) ∧ Accounted st ∧ Kept st) ?_ ?_
  · exact hinv.2.2.2
  · rintro st act st' ⟨hf, ⟨hl, hk⟩, ha, hkept⟩ hok hstep
    exact ⟨fitting_step hf hstep, ⟨locked_step hl hstep, known_step hl hk hstep⟩,
      accounted_step hf ha hok hstep, kept_step hf hk ha hkept hstep⟩
  · have hinit : Reachable repo ttl (State.initial ι repo ttl) := Machine.Reachable.refl _
    refine ⟨hinit.fitting, hinit.known, ?_, ?_⟩
    · intro p pr hp
      simp [State.initial] at hp
    · intro p pr hp
      simp [State.initial] at hp

/-- The owner of `s` may be recorded for process `pr`: it finalises `s`, its own
session or its fork, after its upstream call answered, or the creation it holds
returned `s`. -/
def State.Entitled (st : State ι) (pr : Proc ι) (s : SessionId) : Prop :=
  (∃ k, pr.stage = .running (.finalize s .write) k ∧ pr.answered = true ∧
    (pr.session = some s ∨ pr.fork = some s)) ∨
  ∃ x t k, pr.stage = .running (.create x (.own t s)) k ∧
    st.shared.tasks t = some ⟨(pr.identity, x), .done s⟩

/-- **Failed operations grant no ownership**: a session gets an owner only from an
operation that is entitled to it, and an operation that was granted a claim leaves
no row of its identity on that session when it ends. -/
theorem failed_operations_grant_nothing {repo : Repository} {ttl : Int}
    {acts : List (Action ι)} {st : State ι}
    (hrun : Machine.Runs State.step Requests (State.initial ι repo ttl) acts st) :
    (∀ act st' s a, st.step act = some st' → st.shared.repo.owners s = none →
      st'.shared.repo.owners s = some a →
      ∃ p pr, st.procs p = some pr ∧ pr.identity = a ∧ st.Entitled pr s) ∧
    ∀ act st' p pr s, Requests st act → st.step act = some st' → st.Ends st' p pr →
      ¬ st.CutsRelease act p → pr.granted = true → pr.script.claims = some s →
      ∀ c, st'.shared.repo.claims s = some c → c.identity ≠ pr.identity := by
  have hreach : Reachable repo ttl st := hrun.reachable
  have ha := accounted_of_runs hrun
  constructor
  · intro act st' s a hstep hnone hown
    rcases owners_step hreach.known.2 hstep s with hsame | ⟨-, p, pr, c, k, done, o, hact, hw, hnew⟩
    · rw [hsame, hnone] at hown
      cases hown
    · rw [hown] at hnew
      refine ⟨p, pr, hact.proc, (Option.some.inj hnew).symm, ?_⟩
      have hfits := hreach.fitting.call hact.proc hact.stage
      have hreq := (ha p pr hact.proc).1
      cases c with
      | finalize s' pc =>
          cases pc with
          | write =>
              cases hw
              left
              cases k <;> try exact hfits.elim
              · rcases hfits with h | ⟨x, h⟩ | h
                · exact ⟨_, hact.stage, h.answered, .inl h.session⟩
                · rw [h] at hreq
                  exact hreq.elim
                · rw [h] at hreq
                  exact hreq.elim
              · exact ⟨_, hact.stage, hfits.2.2.1, .inr hfits.2.1⟩
          | lock | owner | pending | clear => cases hw
      | create x pc =>
          cases pc with
          | own t s' =>
              cases hw
              right
              obtain ⟨y, hy, hdone⟩ := hreach.tasked.held p _ x _ t hact.call_eq rfl
              obtain rfl := hdone s rfl
              exact ⟨x, t, k, hact.stage, hy⟩
          | lock | read | task | relock | ownLock | owner | bind => cases hw
      | claim _ pc | release _ pc | bind _ _ pc | pop _ pc => cases hw
  · intro act st' p pr s hok hstep hends hcut hg hs
    exact hends.unclaimed hreach.fitting hreach.known.2 ha (kept_of_runs hrun) hok hstep hcut hg hs

def session2 : SessionId := ⟨"session-2", by decide⟩

/-- Two operations: the upstream call of `user-2` has failed and its release of
`session-2` has its lock; the one of `user-1` is about to finalise `session-1`. -/
def twoOperations : List (Action ℕ) :=
  [.spawn 0 user1 (.guarded session1 false), .spawn 1 user2 (.guarded session2 false),
    .step 0, .step 0, .step 0, .step 0, .step 1, .step 1, .step 1, .step 1,
    .fail 1 .upstream, .answer 0 none, .step 1, .step 0, .step 0, .step 0]

def afterFailure : State ℕ :=
  Machine.after State.step (State.initial ℕ Repository.empty 30) twoOperations (by rfl)

def afterGrant : State ℕ := Machine.after State.step afterFailure [.step 0] (by rfl)

def afterRelease : State ℕ := Machine.after State.step afterFailure [.step 1] (by rfl)

theorem failed_operation_released_its_claim :
    (∃ p pr, afterFailure.procs p = some pr ∧ pr.identity = user1 ∧
      afterFailure.Entitled pr session1) ∧
    afterFailure.shared.repo.claims session2 = some ⟨user2, some 30⟩ ∧
    ∀ c, afterRelease.shared.repo.claims session2 = some c → c.identity ≠ user2 := by
  have hrun : Machine.Runs State.step Requests (State.initial ℕ Repository.empty 30)
      twoOperations afterFailure :=
    Machine.runs_of_run (by simp [twoOperations, Requests, Script.request])
      (Machine.run_after (by rfl))
  obtain ⟨hgrant, hrelease⟩ := failed_operations_grant_nothing hrun
  have hstep : afterFailure.step (.step 0) = some afterGrant := rfl
  have hstep' : afterFailure.step (.step 1) = some afterRelease := rfl
  refine ⟨hgrant _ _ session1 user1 hstep (by decide) (by decide), by decide, ?_⟩
  refine hrelease (.step 1) _ 1 _ session2 trivial hstep' ⟨rfl, ⟨_, rfl⟩, _, rfl, ?_⟩ ?_ rfl rfl
  · exact Proc.open_of_running rfl
  · rintro ⟨a, s, pc, applied, -, hact⟩
    cases hact

end OpencodeA2a.Session
