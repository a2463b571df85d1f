import OpencodeA2a.Session.Tasks
import OpencodeA2a.Session.Claims

/-!
# Cancelling a caller of `get_or_create_session`

The creation task is awaited without a shield, so cancelling one caller cancels
the task that other callers of the key await; and the entry of the in-flight map
is removed by `except Exception`, which a `CancelledError` passes by. Where a
cancellation neither stops a task that is in the map or that somebody else
awaits, nor takes away the last caller that would remove the entry
(`CancelsAlone`), no caller fails with a `CancelledError` of another's making
and every entry has a caller that will remove it.
-/

namespace OpencodeA2a.Session

variable {ι : Type}

/-! ## §1  The condition -/

def State.IsCancelled (st : State ι) (q : ι) : Prop :=
  ∃ pr, st.procs q = some pr ∧ pr.cancelled = true

/-- The step stops a pending creation only if it is out of the map and everyone
who awaits it is cancelled too; and an exception at the await of a caller that
holds the creation in the map leaves another caller that holds it. -/
structure CancelsAlone (st : State ι) (act : Action ι) : Prop where
  tasks : ∀ t k, st.shared.tasks t = some ⟨k, .pending⟩ → st.Cancels act t →
    (∀ k', st.shared.inflight k' ≠ some t) ∧
      ∀ q, st.Awaits q t → st.Hits act q ∨ st.IsCancelled q
  holders : ∀ p k t e applied, act = .interrupt p e applied → st.Holds p k t →
    st.shared.inflight k = some t → ∃ q, q ≠ p ∧ st.Holds q k t

/-! ## §2  Who is cancelled -/

/-- A process that ends in a `CancelledError`, or will after its release, was
cancelled. -/
def Proc.Excused (pr : Proc ι) : Prop :=
  (pr.stage = .ended (.failed .cancelled) ∨
    (∃ c, pr.stage = .running c .released) ∧ pr.failure = .cancelled) → pr.cancelled = true

theorem Proc.fail_excused (pr : Proc ι) (e : Exc) (h : e = .cancelled → pr.cancelled = true) :
    (pr.fail e).Excused := by
  unfold Proc.fail
  split
  · rintro (hs | ⟨-, hs⟩)
    · cases hs
    · exact h hs
  · rintro (hs | ⟨⟨c, hs⟩, -⟩)
    · exact h (Result.failed.inj (Stage.ended.inj hs))
    · cases hs

theorem Proc.raised_excused (pr : Proc ι) (k : Cont) (e : Exc)
    (h : e = .cancelled → pr.cancelled = true)
    (hrel : k = .released → pr.failure = .cancelled → pr.cancelled = true) :
    (pr.raised k e).Excused := by
  -- a process that ends with the exception `e'`
  have hend : ∀ e', (e' = .cancelled → pr.cancelled = true) →
      Proc.Excused { pr with stage := .ended (.failed e') } := by
    rintro e' he' (hs | ⟨⟨c, hs⟩, -⟩)
    · exact he' (Result.failed.inj (Stage.ended.inj hs))
    · cases hs
  unfold Proc.raised
  split
  · exact pr.fail_excused e h
  · exact pr.fail_excused e h
  · exact pr.fail_excused e h
  · split
    · rename_i he
      exact hend .cancelled fun _ => h he
    · exact hend _ (hrel rfl)
  · split
    · rename_i he
      exact hend .cancelled fun _ => h he
    · exact hend _ (hrel rfl)
  · exact hend e h

/-- The stage is neither a failure nor a release on the way to one. -/
def Stage.calm : Stage → Prop
  | .ended (.failed _) | .running _ .released => False
  | _ => True

theorem Proc.excused_of_calm {pr : Proc ι} (h : pr.stage.calm) : pr.Excused := by
  rintro (hs | ⟨⟨c, hs⟩, -⟩) <;> (rw [hs] at h; exact h.elim)

theorem Proc.bound_calm (pr : Proc ι) (s : SessionId) (b : Bool) :
    (pr.bound s b).stage.calm := by
  unfold Proc.bound
  split <;> trivial

theorem Proc.guardFinalized_calm (pr : Proc ι) : pr.guardFinalized.stage.calm := by
  unfold Proc.guardFinalized
  split <;> trivial

theorem Proc.claimed_calm (pr : Proc ι) (b : Bool) : (pr.claimed b).stage.calm := by
  unfold Proc.claimed
  split
  · split
    · exact pr.bound_calm _ _
    · trivial
  · split
    · exact pr.bound_calm _ _
    · trivial
  · trivial
  · trivial

theorem Proc.finalized_calm (pr : Proc ι) : pr.finalized.stage.calm := by
  unfold Proc.finalized
  split
  · trivial
  · trivial
  · exact Proc.guardFinalized_calm _
  · trivial

theorem Proc.answer_calm (pr : Proc ι) (fork : Option SessionId) (h : pr.stage = .upstream) :
    (pr.answer fork).stage.calm := by
  unfold Proc.answer
  split
  · split <;> trivial
  · dsimp only
    split
    · trivial
    · exact Proc.guardFinalized_calm _
  · rw [h]
    trivial

theorem Proc.returned_excused (pr : Proc ι) (k : Cont) (v : Value)
    (hrel : k = .released → pr.failure = .cancelled → pr.cancelled = true) :
    (pr.returned k v).Excused := by
  unfold Proc.returned
  split
  · exact Proc.excused_of_calm (pr.claimed_calm _)
  · exact Proc.excused_of_calm (pr.bound_calm _ _)
  · exact Proc.excused_of_calm (pr.bound_calm _ _)
  · exact Proc.excused_of_calm pr.finalized_calm
  · split <;> exact Proc.excused_of_calm trivial
  · exact Proc.excused_of_calm trivial
  · split
    · exact Proc.excused_of_calm trivial
    · rintro (hs | ⟨⟨c, hs⟩, -⟩)
      · exact hrel rfl (Result.failed.inj (Stage.ended.inj hs))
      · cases hs
  · split <;> exact Proc.excused_of_calm trivial
  · exact Proc.excused_of_calm trivial

theorem Proc.Between.excused {act : Action ι} {q : ι} {x y : Option (Proc ι)}
    (h : Proc.Between act q x y) (hx : ∀ pr, x = some pr → pr.Excused) :
    ∀ pr, y = some pr → pr.Excused := by
  intro pr' hy
  cases h with
  | stay => exact hx pr' hy
  | spawn a script =>
      obtain rfl := Option.some.inj hy
      rintro (hs | ⟨-, hs⟩)
      · unfold Proc.spawn Script.start at hs
        dsimp only at hs
        split at hs <;> cases hs
      · cases hs
  | answer pr fork hs =>
      obtain rfl := Option.some.inj hy
      exact Proc.excused_of_calm (pr.answer_calm fork hs)
  | fail pr e =>
      obtain rfl := Option.some.inj hy
      refine Proc.fail_excused _ e ?_
      rintro rfl
      simp
  | turn pr =>
      obtain rfl := Option.some.inj hy
      exact Proc.excused_of_calm trivial
  | finish pr b =>
      obtain rfl := Option.some.inj hy
      exact Proc.excused_of_calm trivial
  | cancel pr =>
      obtain rfl := Option.some.inj hy
      exact fun _ => rfl

/-- Outside its calls a process stays cancelled. -/
theorem Proc.Between.cancelled {act : Action ι} {q : ι} {x y : Option (Proc ι)}
    (h : Proc.Between act q x y) {pr pr' : Proc ι} (hx : x = some pr) (hy : y = some pr')
    (hc : pr.cancelled = true) : pr'.cancelled = true := by
  cases h with
  | stay =>
      obtain rfl := Option.some.inj (hx.symm.trans hy)
      exact hc
  | spawn a script => cases hx
  | answer pr₀ fork =>
      obtain rfl := Option.some.inj hx
      obtain rfl := Option.some.inj hy
      have hrec := pr₀.answer_record fork
      simp only [Proc.record, Prod.mk.injEq] at hrec
      exact hrec.2.2.1.trans hc
  | fail pr₀ e =>
      obtain rfl := Option.some.inj hx
      obtain rfl := Option.some.inj hy
      have hrec := Proc.fail_record
        { pr₀ with cancelled := pr₀.cancelled || decide (e = Exc.cancelled) } e
      simp only [Proc.record, Prod.mk.injEq] at hrec
      rw [hrec.2.2.1, hc]
      rfl
  | turn pr₀ =>
      obtain rfl := Option.some.inj hx
      obtain rfl := Option.some.inj hy
      exact hc
  | finish pr₀ b _ hb =>
      obtain rfl := Option.some.inj hx
      obtain rfl := Option.some.inj hy
      exact hb hc
  | cancel pr₀ =>
      obtain rfl := Option.some.inj hy
      rfl

variable [DecidableEq ι]

theorem State.Acts.cancelled {st st' : State ι} {act : Action ι} {p : ι} {pr : Proc ι}
    {c : Call} {k : Cont} {done : Bool} {o : Outcome} (h : st.Acts act st' p pr c k done o)
    (hc : pr.cancelled = true ∨ act.cancels = true) : st'.IsCancelled p := by
  refine ⟨_, by rw [h.procs, Function.update_self], ?_⟩
  have hrec := Proc.next_record ({ pr with cancelled := pr.cancelled || act.cancels }.track
    st.shared.now c done o) k o
  have htrack := (Proc.track_frame { pr with cancelled := pr.cancelled || act.cancels }
    st.shared.now c done o).2.2.2.2.2.2.2
  simp only [Proc.record, Prod.mk.injEq] at hrec
  refine (hrec.2.2.1.trans htrack).trans ?_
  rcases hc with hc | hc <;> simp [hc]

/-- A cancelled process stays cancelled. -/
theorem State.IsCancelled.step {st st' : State ι} {act : Action ι} (h : st.step act = some st')
    {q : ι} (hq : st.IsCancelled q) : st'.IsCancelled q := by
  obtain ⟨qr, hqr, hc⟩ := hq
  rcases State.step_cases h with ⟨p, pr, c, k, done, o, hact⟩ | hquiet
  · by_cases hqp : q = p
    · subst hqp
      obtain rfl := Option.some.inj (hqr.symm.trans hact.proc)
      exact hact.cancelled (.inl hc)
    · exact ⟨qr, (hact.others hqp).trans hqr, hc⟩
  · have hb := hquiet.procs q
    cases hy : st'.procs q with
    | none =>
        rw [hqr, hy] at hb
        cases hb
    | some qr' => exact ⟨qr', hy, hb.cancelled hqr hy hc⟩

/-- Whom a step cancels is cancelled after it. -/
theorem State.Hits.isCancelled {st st' : State ι} {act : Action ι} {q : ι}
    (hhit : st.Hits act q) (h : st.step act = some st') {qr : Proc ι}
    (hq : st.procs q = some qr) : st'.IsCancelled q := by
  rcases hhit with ⟨applied, rfl⟩ | ⟨p, pr, x, rfl, hp, hscript⟩
  · obtain ⟨pr, c, k, o, hact⟩ := State.acts_of_interrupt h
    exact hact.cancelled (.inr rfl)
  · simp only [State.step, hp] at h
    split at h
    · rename_i x' target t hx hstage
      obtain ⟨rfl, rfl⟩ := Script.cancel.inj (hx.symm.trans hscript)
      obtain rfl := Option.some.inj h
      have hprocs := (State.cancelProc_frame
        (st.setProc p { pr with stage := .ended (.returned .unit) }) q).1
      have hset : ∃ pr', (st.setProc p { pr with stage := .ended (.returned .unit) }).procs q =
          some pr' := by
        by_cases hqp : q = p
        · subst hqp
          exact ⟨_, Function.update_self _ _ _⟩
        · exact ⟨qr, (Function.update_of_ne hqp _ _).trans hq⟩
      obtain ⟨pr', hpr'⟩ := hset
      rw [hpr'] at hprocs
      refine ⟨{ pr' with cancelled := true }, ?_, rfl⟩
      cases t <;> (show (State.cancelProc _ q).procs q = _; rw [hprocs]; exact Function.update_self _ _ _)
    · cases h

/-! ## §3  The invariant -/

/-- The creations in the map are alive and have a caller that will remove them;
who awaits a dead creation is cancelled. -/
structure Shielded (st : State ι) : Prop where
  alive : ∀ k t y, st.shared.inflight k = some t → st.shared.tasks t = some ⟨k, y⟩ →
    y ≠ .cancelling ∧ y ≠ .cancelled
  holder : ∀ k t, st.shared.inflight k = some t → ∃ q, st.Holds q k t
  dead : ∀ q t k y, st.Awaits q t → st.shared.tasks t = some ⟨k, y⟩ →
    y = .cancelling ∨ y = .cancelled → st.IsCancelled q
  excused : ∀ p pr, st.procs p = some pr → pr.Excused

theorem shielded_alive {st st' : State ι} {act : Action ι} (ht : Tasked st) (hs : Shielded st)
    (hok : CancelsAlone st act) (h : st.step act = some st') {k : Key} {t : ℕ}
    {y : TaskState} (hin : st'.shared.inflight k = some t)
    (hy : st'.shared.tasks t = some ⟨k, y⟩) : y ≠ .cancelling ∧ y ≠ .cancelled := by
  rcases State.step_inflight h hin with hold | ⟨-, hpending, -⟩
  · obtain ⟨z, hz⟩ := ht.entry k t hold
    obtain ⟨hz1, hz2⟩ := hs.alive k t z hold hz
    rcases State.step_task h t with hmove | ⟨rfl, -⟩
    · rw [hz, hy] at hmove
      cases hmove with
      | stay => exact ⟨hz1, hz2⟩
      | done | failed => exact ⟨by simp, by simp⟩
      | stopped => exact absurd rfl hz1
      | cancel _ hcancels => exact absurd hold ((hok.tasks t k hz hcancels).1 k)
    · have := ht.lt_nextTask hz
      omega
  · rw [hpending] at hy
    cases hy
    exact ⟨by simp, by simp⟩

theorem shielded_holder {st st' : State ι} {act : Action ι} (ht : Tasked st)
    (hs : Shielded st) (hok : CancelsAlone st act) (h : st.step act = some st') {k : Key}
    {t : ℕ} (hin : st'.shared.inflight k = some t) : ∃ q, st'.Holds q k t := by
  rcases State.step_inflight h hin with hold | ⟨-, -, hp⟩
  · obtain ⟨q, pc, hq, hpc⟩ := hs.holder k t hold
    rcases State.step_cases h with ⟨p, pr, c, k', done, o, hact⟩ | hquiet
    · by_cases hqp : q = p
      · subst hqp
        obtain ⟨hid, rfl⟩ := Prod.mk.inj (Option.some.inj (hq.symm.trans hact.call_eq))
        have hflow := hact.flow
        generalize hc : Call.create k.2 pc = c at hflow
        generalize hσ : st'.shared = σ' at hflow hin
        cases hflow with
        | other _ _ hsame hnone =>
            rw [← hc] at hnone
            exact absurd (hpc.symm.trans hnone) (by simp)
        | start | join =>
            cases hc
            cases hpc
        | carry x pc₀ pc' t' hcarries hne hsame =>
            cases hc
            have hsame' := hcarries.task.symm.trans hpc
            cases hsame'
            refine ⟨q, pc', ?_, hcarries.task'⟩
            rw [hact.call_next rfl, hid]
        | drop x pc₀ t' _ hpc₀ ho hne hi =>
            cases hc
            have hsame' := hpc₀.symm.trans hpc
            cases hsame'
            exfalso
            have hkey : (pr.identity, k.2) = k := by rw [← hid]
            rw [hi, hkey] at hin
            unfold Shared.popInflight at hin
            rw [if_pos hold] at hin
            simp at hin
        | dead x t' k'' hk =>
            cases hc
            cases hpc
            obtain ⟨z, hz⟩ := ht.entry k t hold
            rw [hz] at hk
            cases hk
            exact absurd rfl (hs.alive k t _ hold hz).2
        | cut x pc₀ t' e hpc₀ he =>
            cases hc
            have hsame' := hpc₀.symm.trans hpc
            cases hsame'
            have hinterrupt : ∃ applied, act = .interrupt q e applied := by
              rcases hact.moves with ⟨rfl, -, -⟩ | ⟨e', rfl, -⟩
              · cases he
              · cases he
                exact ⟨done, rfl⟩
            obtain ⟨applied, hinterrupt⟩ := hinterrupt
            obtain ⟨q', hne, pc', hq', hpc'⟩ :=
              hok.holders q k t e applied hinterrupt ⟨pc, hq, hpc⟩ hold
            exact ⟨q', pc', (hact.call_others hne).trans hq', hpc'⟩
        | cancel x t' he =>
            cases hc
            cases hpc
            refine ⟨q, .task t, ?_, rfl⟩
            rw [hact.call_next rfl, hid]
        | pop => cases hc
      · exact ⟨q, pc, (hact.call_others hqp).trans hq, hpc⟩
    · refine ⟨q, pc, ?_, hpc⟩
      rcases hquiet.call q with hsame | ⟨hnone, -⟩
      · exact hsame.trans hq
      · rw [hq] at hnone
        cases hnone
  · exact hp

/-- A process comes to await a creation that was in the map or is new. -/
theorem State.step_awaits {st st' : State ι} {act : Action ι} (h : st.step act = some st')
    {q : ι} {t : ℕ} (hq : st'.Awaits q t) :
    st.Awaits q t ∨ (∃ k, st.shared.inflight k = some t ∧ st'.shared.tasks t = st.shared.tasks t) ∨
      ∃ k, st'.shared.tasks t = some ⟨k, .pending⟩ := by
  obtain ⟨a, x, hq⟩ := hq
  rcases State.step_cases h with ⟨p, pr, c, k, done, o, hact⟩ | hquiet
  · by_cases hqp : q = p
    · subst hqp
      cases o with
      | next c' =>
          rw [hact.call_next rfl] at hq
          obtain ⟨-, rfl⟩ := Prod.mk.inj (Option.some.inj hq)
          have hflow := hact.flow
          generalize ho : Outcome.next (.create x (.task t)) = o at hflow
          cases hflow with
          | other _ _ hs hc hn => exact absurd (hn _ ho.symm) (by simp [Call.taskId, CreatePc.taskId])
          | start y hin hi ht hn =>
              cases ho
              refine .inr (.inr ⟨(pr.identity, x), ?_⟩)
              rw [ht]
              exact Function.update_self _ _ _
          | join y t' hin hs =>
              cases ho
              exact .inr (.inl ⟨_, hin, by rw [hs.tasks]⟩)
          | carry y pc pc' t' _ hne =>
              cases ho
              exact absurd rfl (hne t)
          | cancel y t' =>
              cases ho
              exact .inl ⟨_, _, hact.call_eq⟩
          | drop _ _ _ _ _ hnext => exact absurd ho.symm (hnext _)
          | dead | cut | pop => cases ho
      | returned v | raised e =>
          exact (hact.call_fresh (by simp) hq).2.elim
    · exact .inl ⟨a, x, (hact.call_others hqp).symm.trans hq⟩
  · rcases hquiet.call q with hsame | ⟨-, hs⟩
    · exact .inl ⟨a, x, hsame.symm.trans hq⟩
    · exact (hs a _ hq).elim

theorem shielded_dead {st st' : State ι} {act : Action ι} (ht : Tasked st) (hs : Shielded st)
    (hok : CancelsAlone st act) (h : st.step act = some st') {q : ι} {t : ℕ} {k : Key}
    {y : TaskState} (hq : st'.Awaits q t) (hy : st'.shared.tasks t = some ⟨k, y⟩)
    (hdead : y = .cancelling ∨ y = .cancelled) : st'.IsCancelled q := by
  rcases State.step_awaits h hq with hold | ⟨k', hin, htasks⟩ | ⟨k', hpending⟩
  · have hproc : ∃ qr, st.procs q = some qr := by
      obtain ⟨a, x, hcall⟩ := hold
      obtain ⟨qr, -, hqr, -⟩ := State.call_eq_some.mp hcall
      exact ⟨qr, hqr⟩
    obtain ⟨qr, hqr⟩ := hproc
    rcases State.step_task h t with hmove | ⟨-, -, k', hpending⟩
    · generalize hx : st.shared.tasks t = x at hmove
      rw [hy] at hmove
      cases hmove with
      | stay => exact (hs.dead q t k y hold hx hdead).step h
      | done | failed => rcases hdead with hd | hd <;> cases hd
      | stopped => exact (hs.dead q t k _ hold hx (.inl rfl)).step h
      | cancel _ hcancels =>
          rcases (hok.tasks t k hx hcancels).2 q hold with hhit | hc
          · exact hhit.isCancelled h hqr
          · exact hc.step h
    · rw [hy] at hpending
      cases hpending
      rcases hdead with hd | hd <;> cases hd
  · -- a creation that is in the map is alive
    obtain ⟨z, hz⟩ := ht.entry k' t hin
    obtain ⟨h1, h2⟩ := hs.alive k' t z hin hz
    rw [htasks, hz] at hy
    cases hy
    exact (hdead.elim h1 h2).elim
  · rw [hy] at hpending
    cases hpending
    rcases hdead with hd | hd <;> cases hd

omit [DecidableEq ι] in
/-- Code that runs on raises a `CancelledError` only where its task was cancelled. -/
theorem Call.resume_cancelled {a : Identity} {σ : Shared ι} {c : Call} {r : Reply}
    (h : Outcome.raised .cancelled = (c.resume a σ r).2) :
    ∃ x t, c = .create x (.task t) ∧ r = .taskCancelled := by
  unfold Call.resume at h
  split at h <;> (try split_ifs at h) <;> (try cases h)
  exact ⟨_, _, rfl, rfl⟩

theorem State.Acts.raised_cancelled {st st' : State ι} {act : Action ι} {p : ι} {pr : Proc ι}
    {c : Call} {k : Cont} {done : Bool}
    (h : st.Acts act st' p pr c k done (.raised .cancelled)) :
    act.cancels = true ∨ ∃ t k', st.Awaits p t ∧ st.shared.tasks t = some ⟨k', .cancelled⟩ := by
  rcases h.moves with ⟨-, -, hs⟩ | ⟨e, rfl, he⟩
  · right
    obtain ⟨σ₁, r, hc, ho, -⟩ := Call.step_eq hs
    obtain ⟨x, t, rfl, rfl⟩ := Call.resume_cancelled ho
    refine ⟨t, ?_⟩
    rcases Shared.complete_cases hc with ⟨s, hw, -⟩ | ⟨y, hw, -⟩ | ⟨op, hw, -⟩ |
      ⟨t', ⟨k', z⟩, hw, -, hct, hr⟩
    · cases hw
    · cases hw
    · cases hw
    · cases hw
      rcases hr with ⟨s, -, hr⟩ | ⟨-, hr⟩ | ⟨rfl, -⟩
      · cases hr
      · cases hr
      · exact ⟨k', ⟨pr.identity, x, h.call_eq⟩, hct⟩
  · left
    rcases Call.interrupt_eq he with ⟨ho, -⟩ | ⟨t, -, rfl, -⟩
    · cases ho
      rfl
    · rfl

theorem shielded_excused {st st' : State ι} {act : Action ι} (hs : Shielded st)
    (h : st.step act = some st') {q : ι} {qr : Proc ι} (hq : st'.procs q = some qr) :
    qr.Excused := by
  rcases State.step_cases h with ⟨p, pr, c, k, done, o, hact⟩ | hquiet
  · by_cases hqp : q = p
    · subst hqp
      rw [hact.procs, Function.update_self] at hq
      obtain rfl := Option.some.inj hq
      obtain ⟨-, -, -, -, -, -, hfailure, hcancelled⟩ := Proc.track_frame
        { pr with cancelled := pr.cancelled || act.cancels } st.shared.now c done o
      have hrel : k = .released →
          ({ pr with cancelled := pr.cancelled || act.cancels }.track st.shared.now c done
            o).failure = .cancelled →
          ({ pr with cancelled := pr.cancelled || act.cancels }.track st.shared.now c done
            o).cancelled = true := by
        rintro rfl hf
        rw [hfailure] at hf
        have hc := hs.excused q pr hact.proc (.inr ⟨⟨c, hact.stage⟩, hf⟩)
        rw [hcancelled]
        simp [hc]
      unfold Proc.moved
      cases o with
      | next c' =>
          rintro (hstage | ⟨⟨d, hstage⟩, hf⟩)
          · cases hstage
          · cases hstage
            exact hrel rfl hf
      | returned v => exact Proc.returned_excused _ k v hrel
      | raised e =>
          refine Proc.raised_excused _ k e ?_ hrel
          rintro rfl
          rw [hcancelled]
          rcases hact.raised_cancelled with hc | ⟨t, k', hawaits, hdead⟩
          · simp [hc]
          · obtain ⟨pr', hpr', hc⟩ := hs.dead q t k' _ hawaits hdead (.inr rfl)
            obtain rfl := Option.some.inj (hpr'.symm.trans hact.proc)
            simp [hc]
    · rw [hact.others hqp] at hq
      exact hs.excused q qr hq
  · exact (hquiet.procs q).excused (hs.excused q) qr hq

/-! ## §4  Every run -/

theorem shielded_of_runs {repo : Repository} {ttl : Int} {acts : List (Action ι)}
    {st : State ι}
    (h : Machine.Runs State.step CancelsAlone (State.initial ι repo ttl) acts st) :
    Tasked st ∧ Shielded st := by
  refine h.invariant (I := fun st => Tasked st ∧ Shielded st) ?_ ?_
  · rintro st act st' ⟨ht, hs⟩ hok hstep
    refine ⟨tasked_step ht hstep, ?_, ?_, ?_, ?_⟩
    · intro k t y hin hy
      exact shielded_alive ht hs hok hstep hin hy
    · intro k t hin
      exact shielded_holder ht hs hok hstep hin
    · intro q t k y hq hy hdead
      exact shielded_dead ht hs hok hstep hq hy hdead
    · intro q qr hq
      exact shielded_excused hs hstep hq
  · have hinit : Reachable repo ttl (State.initial ι repo ttl) := Machine.Reachable.refl _
    refine ⟨hinit.tasked, ?_, ?_, ?_, ?_⟩
    · intro k t y hin
      simp [State.initial, Shared.initial] at hin
    · intro k t hin
      simp [State.initial, Shared.initial] at hin
    · rintro q t k y ⟨a, x, hq⟩
      simp [State.initial, State.call] at hq
    · intro p pr hp
      simp [State.initial] at hp

/-- **Cancellation of a caller stays with the caller**: nobody fails with a
`CancelledError` but who was cancelled; a key without a caller has no in-flight
creation; and the creation a new caller would join is not a dead one. -/
theorem cancellation_stays_with_caller {repo : Repository} {ttl : Int}
    {acts : List (Action ι)} {st : State ι}
    (hrun : Machine.Runs State.step CancelsAlone (State.initial ι repo ttl) acts st) :
    (∀ p pr, st.procs p = some pr → pr.stage = .ended (.failed .cancelled) →
      pr.cancelled = true) ∧
    (∀ k : Key, (∀ p pc, st.call p ≠ some (k.1, .create k.2 pc)) →
      st.shared.inflight k = none) ∧
    ∀ k t y, st.shared.inflight k = some t → st.shared.tasks t = some ⟨k, y⟩ →
      y ≠ .cancelling ∧ y ≠ .cancelled := by
  obtain ⟨-, hs⟩ := shielded_of_runs hrun
  refine ⟨?_, ?_, hs.alive⟩
  · intro p pr hp hstage
    exact hs.excused p pr hp (.inl hstage)
  · intro k hnone
    cases hin : st.shared.inflight k with
    | none => rfl
    | some t =>
        obtain ⟨q, pc, hq, -⟩ := hs.holder k t hin
        exact absurd hq (hnone q pc)

/-- A check that is enough for `CancelsAlone`: exceptions come only where the
caller holds no creation. -/
def holdsNothing (st : State ℕ) : Action ℕ → Bool
  | .interrupt p _ _ =>
      match st.call p with
      | some (_, c) => c.taskId.isNone
      | none => true
  | .abort _ => false
  | _ => true

theorem cancelsAlone_of_holdsNothing (st : State ℕ) (act : Action ℕ)
    (h : holdsNothing st act = true) : CancelsAlone st act := by
  constructor
  · rintro t k - (⟨q, ⟨applied, rfl⟩ | ⟨p, pr, x, rfl, -⟩, a, y, hq⟩ | ⟨p, pr, rfl, -⟩)
    · simp [holdsNothing, hq, Call.taskId, CreatePc.taskId] at h
    · cases h
    · cases h
  · rintro p k t e applied rfl ⟨pc, hp, hpc⟩
    simp [holdsNothing, hp, Call.taskId, hpc] at h

/-- Two callers of one key; the second is cancelled while it waits for the
context lock that the first holds, the first goes on. -/
def twoCallers : List (Action ℕ) :=
  [.spawn 0 user1 (.getOrCreate "context-A" none),
    .spawn 1 user1 (.getOrCreate "context-A" none), .step 0, .interrupt 1 .cancelled false,
    .step 0]

def pending : State ℕ :=
  Machine.after (Machine.restrict State.step holdsNothing)
    (State.initial ℕ Repository.empty 30) twoCallers (by rfl)

theorem waiting_caller_is_cancelled_alone :
    pending.shared.inflight (user1, "context-A") = some 0 ∧
      (∀ p pr, pending.procs p = some pr → pr.stage = .ended (.failed .cancelled) →
        pr.cancelled = true) ∧
      (∀ k : Key, (∀ p pc, pending.call p ≠ some (k.1, .create k.2 pc)) →
        pending.shared.inflight k = none) ∧
      ∀ k t y, pending.shared.inflight k = some t → pending.shared.tasks t = some ⟨k, y⟩ →
        y ≠ .cancelling ∧ y ≠ .cancelled := by
  have hrun : Machine.Runs State.step CancelsAlone (State.initial ℕ Repository.empty 30)
      twoCallers pending :=
    Machine.runs_of_restrict _ cancelsAlone_of_holdsNothing (Machine.run_after (by rfl))
  exact ⟨by decide, cancellation_stays_with_caller hrun⟩

/-- Two callers await one creation; the first is cancelled. -/
def sharedCreation : List (Action ℕ) :=
  [.spawn 0 user1 (.getOrCreate "context-A" none), .step 0, .step 0,
    .spawn 1 user1 (.getOrCreate "context-A" none), .step 1, .step 1,
    .interrupt 0 .cancelled false, .taskStop 0, .step 0, .step 1]

/-- Without the condition the claim is false: the second caller, which nobody
cancelled, fails with a `CancelledError`; both are done, and the dead creation is
still in the map. -/
theorem cancelled_caller_takes_others_along :
    ∃ st : State ℕ, Reachable Repository.empty 30 st ∧
      (st.procs 1).map (fun pr => (pr.stage, pr.cancelled)) =
        some (.ended (.failed .cancelled), false) ∧
      (st.procs 0).map (fun pr => pr.stage) = some (.ended (.failed .cancelled)) ∧
      st.shared.inflight (user1, "context-A") = some 0 ∧
      st.shared.tasks 0 = some ⟨(user1, "context-A"), .cancelled⟩ :=
  ⟨Machine.after State.step (State.initial ℕ Repository.empty 30) sharedCreation (by rfl),
    ⟨sharedCreation, Machine.run_after (by rfl)⟩, by decide, by decide, by decide, by decide⟩

end OpencodeA2a.Session
