import OpencodeA2a.Session.Stages

/-!
# The creation tasks

Callers of one key share one upstream `create_session` task. `Call.Flow` says
what a move of a call does to the map of in-flight creations and which task the
call holds after it. In every reachable state an in-flight creation is one of
its own key, a call holds a creation of its own key, and a session it carries on
is what that creation returned (`Tasked`).
-/

namespace OpencodeA2a.Session

variable {ι : Type}

/-! ## §1  The task a call holds -/

/-- The task a creation awaits or has awaited. -/
def CreatePc.taskId : CreatePc → Option ℕ
  | .lock | .read => none
  | .task t | .relock t _ | .ownLock t _ | .owner t _ | .bind t _ _ | .own t _ => some t

/-- The session the task returned, once the creation has seen it. -/
def CreatePc.sessionId : CreatePc → Option SessionId
  | .lock | .read | .task _ => none
  | .relock _ s | .ownLock _ s | .owner _ s | .bind _ s _ | .own _ s => some s

/-- Process `p` is a caller of the key that holds the task. -/
def State.Holds (st : State ι) (p : ι) (k : Key) (t : ℕ) : Prop :=
  ∃ pc, st.call p = some (k.1, .create k.2 pc) ∧ pc.taskId = some t

def Call.taskId : Call → Option ℕ
  | .create _ pc => pc.taskId
  | _ => none

theorem Call.starting.taskId {c : Call} (h : c.starting) : c.taskId = none := by
  cases c with
  | create _ pc => cases pc <;> first | rfl | exact h.elim
  | claim _ _ | finalize _ _ | release _ _ | bind _ _ _ | pop _ _ => rfl

structure Shared.SameTasks (σ σ' : Shared ι) : Prop where
  inflight : σ'.inflight = σ.inflight
  tasks : σ'.tasks = σ.tasks
  nextTask : σ'.nextTask = σ.nextTask

/-- A caller's move from `pc` to `pc'` keeps its task, and takes the session from
nowhere but the task. -/
structure CreatePc.Carries (σ : Shared ι) (pc pc' : CreatePc) (t : ℕ) : Prop where
  task : pc.taskId = some t
  task' : pc'.taskId = some t
  session : pc'.sessionId = pc.sessionId ∨
    ∃ s k, pc'.sessionId = some s ∧ σ.tasks t = some ⟨k, .done s⟩

/-- What a move of the call does to the in-flight creations; `exc` is the
exception raised at its await, if it moved by one. -/
inductive Call.Flow (a : Identity) (σ σ' : Shared ι) (exc : Option Exc) : Call → Outcome → Prop
  | other (c : Call) (o : Outcome) :
      σ.SameTasks σ' → c.taskId = none → (∀ c', o = .next c' → c'.taskId = none) →
      (∀ x, c = .pop x .pop → ∀ v, o ≠ .returned v) → Flow a σ σ' exc c o
  | start (x : ContextId) :
      σ.inflight (a, x) = none →
      σ'.inflight = Function.update σ.inflight (a, x) (some σ.nextTask) →
      σ'.tasks = Function.update σ.tasks σ.nextTask (some ⟨(a, x), .pending⟩) →
      σ'.nextTask = σ.nextTask + 1 →
      Flow a σ σ' exc (.create x .read) (.next (.create x (.task σ.nextTask)))
  | join (x : ContextId) (t : ℕ) :
      σ.inflight (a, x) = some t → σ.SameTasks σ' →
      Flow a σ σ' exc (.create x .read) (.next (.create x (.task t)))
  | carry (x : ContextId) (pc pc' : CreatePc) (t : ℕ) :
      pc.Carries σ pc' t → (∀ t', pc' ≠ .task t') → σ.SameTasks σ' →
      Flow a σ σ' exc (.create x pc) (.next (.create x pc'))
  | drop (x : ContextId) (pc : CreatePc) (t : ℕ) (o : Outcome) :
      pc.taskId = some t → (∀ c', o ≠ .next c') → o ≠ .raised .cancelled →
      σ'.inflight = (σ.popInflight (a, x) t).inflight → σ'.tasks = σ.tasks →
      σ'.nextTask = σ.nextTask → Flow a σ σ' exc (.create x pc) o
  | dead (x : ContextId) (t : ℕ) (k : Key) :
      σ.tasks t = some ⟨k, .cancelled⟩ → σ.SameTasks σ' →
      Flow a σ σ' exc (.create x (.task t)) (.raised .cancelled)
  | cut (x : ContextId) (pc : CreatePc) (t : ℕ) (e : Exc) :
      pc.taskId = some t → exc = some e → σ.SameTasks σ' →
      Flow a σ σ' exc (.create x pc) (.raised e)
  | cancel (x : ContextId) (t : ℕ) :
      exc = some .cancelled → σ'.inflight = σ.inflight → σ'.tasks = (σ.cancelTask t).tasks →
      σ'.nextTask = σ.nextTask →
      Flow a σ σ' exc (.create x (.task t)) (.next (.create x (.task t)))
  | pop (x : ContextId) :
      σ'.inflight = Function.update σ.inflight (a, x) none → σ'.tasks = σ.tasks →
      σ'.nextTask = σ.nextTask →
      Flow a σ σ' exc (.pop x .pop) (.returned (.task (σ.inflight (a, x))))

theorem Shared.SameTasks.refl (σ : Shared ι) : σ.SameTasks σ := ⟨rfl, rfl, rfl⟩

theorem Shared.popInflight_nextTask (σ : Shared ι) (k : Key) (t : ℕ) :
    (σ.popInflight k t).nextTask = σ.nextTask := by
  unfold popInflight
  split <;> rfl

/-- The code after an await that is not for a task. -/
theorem Call.resume_flow (a : Identity) (σ : Shared ι) (c : Call) (r : Reply)
    (hw : ∀ t, c.await a ≠ .task t)
    (hr : ∀ s, c.await a = .repo (.getOwner s) → ∃ o, r = .identity o) :
    Call.Flow a σ (c.resume a σ r).1 none c (c.resume a σ r).2 := by
  have hsame := Shared.SameTasks.refl σ
  cases c with
  | claim s pc | finalize s pc | release s pc | bind x s pc =>
      cases pc <;> cases r <;> simp only [Call.resume] <;> (try split_ifs) <;>
        exact .other _ _ hsame rfl (by simp [Call.taskId]) (by simp)
  | pop x pc =>
      cases pc with
      | lock => exact .other _ _ hsame rfl (by simp [Call.resume, Call.taskId]) (by simp)
      | pop => exact .pop x rfl rfl rfl
  | create x pc =>
      cases pc with
      | lock =>
          exact .other _ _ hsame rfl (by simp [Call.resume, Call.taskId, CreatePc.taskId])
            (by simp)
      | read =>
          cases r with
          | session o =>
              cases o with
              | some s => exact .other _ _ hsame rfl (by simp [Call.resume]) (by simp)
              | none =>
                  cases hin : σ.inflight (a, x) with
                  | none =>
                      simp only [Call.resume, Shared.inflightOrCreate, hin]
                      exact .start x hin rfl rfl rfl
                  | some t =>
                      simp only [Call.resume, Shared.inflightOrCreate, hin]
                      exact .join x t hin hsame
          | unit | identity o | taskDone s | taskFailed | taskCancelled =>
              exact .other _ _ hsame rfl (by simp [Call.resume]) (by simp)
      | task t => exact absurd rfl (hw t)
      | relock t s => exact .carry x _ _ t ⟨rfl, rfl, .inl rfl⟩ (by simp) hsame
      | ownLock t s => exact .carry x _ _ t ⟨rfl, rfl, .inl rfl⟩ (by simp) hsame
      | owner t s =>
          obtain ⟨o, rfl⟩ := hr s rfl
          simp only [Call.resume]
          split_ifs
          · exact .drop x _ t _ rfl (by simp) (by simp) rfl (σ.popInflight_tasks _ t)
              (σ.popInflight_nextTask _ t)
          · exact .carry x _ _ t ⟨rfl, rfl, .inl rfl⟩ (by simp) hsame
      | bind t s o =>
          simp only [Call.resume]
          split_ifs
          · exact .carry x _ _ t ⟨rfl, rfl, .inl rfl⟩ (by simp) hsame
          · exact .drop x _ t _ rfl (by simp) (by simp) rfl (σ.popInflight_tasks _ t)
              (σ.popInflight_nextTask _ t)
      | own t s =>
          exact .drop x _ t _ rfl (by simp [Call.resume]) (by simp [Call.resume]) rfl
            (σ.popInflight_tasks _ t) (σ.popInflight_nextTask _ t)

/-- The code after the await of a creation task. -/
theorem Call.resume_flow_task (a : Identity) (σ : Shared ι) (x : ContextId) (t : ℕ)
    (r : Reply)
    (hr : (∃ s k, r = .taskDone s ∧ σ.tasks t = some ⟨k, .done s⟩) ∨ r = .taskFailed ∨
      ∃ k, r = .taskCancelled ∧ σ.tasks t = some ⟨k, .cancelled⟩) :
    Call.Flow a σ ((Call.create x (.task t)).resume a σ r).1 none (.create x (.task t))
      ((Call.create x (.task t)).resume a σ r).2 := by
  have hsame := Shared.SameTasks.refl σ
  rcases hr with ⟨s, k, rfl, hk⟩ | rfl | ⟨k, rfl, hk⟩
  · exact .carry x _ _ t ⟨rfl, rfl, .inr ⟨s, k, rfl, hk⟩⟩ (by simp) hsame
  · exact .drop x _ t _ rfl (by simp [Call.resume]) (by simp [Call.resume]) rfl
      (σ.popInflight_tasks _ t) (σ.popInflight_nextTask _ t)
  · exact .dead x t k hk hsame

theorem Call.Flow.congr {a : Identity} {σ σ₁ τ τ₁ : Shared ι} {exc : Option Exc} {c : Call}
    {o : Outcome} (h : Call.Flow a σ₁ τ₁ exc c o) (hσ : σ.SameTasks σ₁)
    (hτ : τ₁.SameTasks τ) : Call.Flow a σ τ exc c o := by
  have htrans : σ₁.SameTasks τ₁ → σ.SameTasks τ := fun hs =>
    ⟨hτ.inflight.trans (hs.inflight.trans hσ.inflight),
      hτ.tasks.trans (hs.tasks.trans hσ.tasks),
      hτ.nextTask.trans (hs.nextTask.trans hσ.nextTask)⟩
  cases h with
  | other _ _ hs hc hn hp => exact .other c o (htrans hs) hc hn hp
  | start x hin hi ht hn =>
      rw [hσ.nextTask] at ht hn ⊢
      rw [hσ.inflight] at hin hi
      rw [hσ.nextTask] at hi
      rw [hσ.tasks] at ht
      exact .start x hin (hτ.inflight.trans hi) (hτ.tasks.trans ht) (hτ.nextTask.trans hn)
  | join x t hin hs =>
      rw [hσ.inflight] at hin
      exact .join x t hin (htrans hs)
  | carry x pc pc' t hc hne hs =>
      refine .carry x pc pc' t ⟨hc.task, hc.task', ?_⟩ hne (htrans hs)
      rw [← hσ.tasks]
      exact hc.session
  | drop x pc t _ hc ho hne hi ht hn =>
      refine .drop x pc t o hc ho hne ?_ (hτ.tasks.trans (ht.trans hσ.tasks))
        (hτ.nextTask.trans (hn.trans hσ.nextTask))
      rw [hτ.inflight, hi]
      unfold Shared.popInflight
      rw [hσ.inflight]
      split <;> simp [hσ.inflight]
  | dead x t k hk hs =>
      rw [hσ.tasks] at hk
      exact .dead x t k hk (htrans hs)
  | cut x pc t e hc he hs => exact .cut x pc t e hc he (htrans hs)
  | cancel x t he hi ht hn =>
      refine .cancel x t he (hτ.inflight.trans (hi.trans hσ.inflight)) ?_
        (hτ.nextTask.trans (hn.trans hσ.nextTask))
      rw [hτ.tasks, ht]
      unfold Shared.cancelTask Shared.setTask
      rw [hσ.tasks]
      split <;> (try split) <;> simp [hσ.tasks]
  | pop x hi ht hn =>
      rw [hσ.inflight] at hi ⊢
      exact .pop x (hτ.inflight.trans hi) (hτ.tasks.trans (ht.trans hσ.tasks))
        (hτ.nextTask.trans (hn.trans hσ.nextTask))

/-- The exception a step raises at an await. -/
def Action.exc : Action ι → Option Exc
  | .interrupt _ e _ => some e
  | _ => none

variable [DecidableEq ι]

/-- What the move of a call does to the in-flight creations. -/
theorem State.Acts.flow {st st' : State ι} {act : Action ι} {p : ι} {pr : Proc ι} {c : Call}
    {k : Cont} {done : Bool} {o : Outcome} (h : st.Acts act st' p pr c k done o) :
    Call.Flow pr.identity st.shared st'.shared act.exc c o := by
  have hsame : ∀ σ : Shared ι, ∀ d e, σ.SameTasks (σ.unlock pr.identity d e) :=
    fun σ d e => ⟨rfl, rfl, rfl⟩
  rcases h.moves with ⟨rfl, -, hs⟩ | ⟨e, rfl, he⟩
  · obtain ⟨σ₁, r, hc, rfl, hσ⟩ := Call.step_eq hs
    rw [hσ]
    rcases Shared.complete_cases hc with ⟨s, hw, -, rfl⟩ | ⟨x, hw, -, rfl⟩ |
      ⟨op, hw, rfl, rfl⟩ | ⟨t, ct, hw, rfl, hct, hr⟩
    · exact (Call.resume_flow pr.identity _ c r (by simp [hw]) (by simp [hw])).congr
        ⟨rfl, rfl, rfl⟩ (hsame _ _ _)
    · exact (Call.resume_flow pr.identity _ c r (by simp [hw]) (by simp [hw])).congr
        ⟨rfl, rfl, rfl⟩ (hsame _ _ _)
    · refine (Call.resume_flow pr.identity _ c _ (by simp [hw]) ?_).congr
        ⟨rfl, rfl, rfl⟩ (hsame _ _ _)
      intro s hs'
      rw [hw] at hs'
      cases hs'
      exact ⟨_, rfl⟩
    · obtain ⟨x, rfl⟩ := Call.of_await_task hw
      refine (Call.resume_flow_task pr.identity st.shared x t r ?_).congr
        ⟨rfl, rfl, rfl⟩ (hsame _ _ _)
      obtain ⟨k', y⟩ := ct
      rcases hr with ⟨s, rfl, rfl⟩ | ⟨-, rfl⟩ | ⟨rfl, rfl⟩
      · exact .inl ⟨s, k', rfl, hct⟩
      · exact .inr (.inl rfl)
      · exact .inr (.inr ⟨k', rfl, hct⟩)
  · rcases Call.interrupt_eq he with ⟨rfl, hw, hσ⟩ | ⟨t, hw, rfl, hσ⟩
    · have hs : st.shared.SameTasks st'.shared := by
        rcases hσ with ⟨op, -, hσ⟩ | ⟨-, hσ⟩
        · rw [hσ]
          cases done <;> exact ⟨rfl, rfl, rfl⟩
        · rw [hσ]
          exact ⟨rfl, rfl, rfl⟩
      cases hc : c.taskId with
      | none => exact .other c _ hs hc (by simp) (by simp)
      | some t =>
          cases c with
          | create x pc => exact .cut x pc t e hc rfl hs
          | claim _ _ | finalize _ _ | release _ _ | bind _ _ _ | pop _ _ => cases hc
    · obtain ⟨x, rfl⟩ := Call.of_await_task hw
      cases hw
      rcases hσ with ⟨rfl, hσ⟩ | ⟨rfl, hσ⟩
      · rw [hσ]
        obtain ⟨hi, hn⟩ := st.shared.cancelTask_inflight t
        exact .cancel x t rfl hi rfl hn
      · exact .cut x _ t _ rfl rfl (by rw [hσ]; exact ⟨rfl, rfl, rfl⟩)

/-! ## §2  One step -/

/-- A step starts a creation under the next number, or moves the one there is. -/
theorem State.step_task {st st' : State ι} {act : Action ι} (h : st.step act = some st')
    (t : ℕ) :
    st.TaskMoves act t (st.shared.tasks t) (st'.shared.tasks t) ∨
      t = st.shared.nextTask ∧ st'.shared.nextTask = t + 1 ∧
        ∃ k, st'.shared.tasks t = some ⟨k, .pending⟩ := by
  rcases State.step_cases h with ⟨p, pr, c, k, done, o, hact⟩ | hquiet
  · have hsame : st'.shared.tasks = st.shared.tasks →
        st.TaskMoves act t (st.shared.tasks t) (st'.shared.tasks t) := by
      intro hs
      rw [hs]
      exact .stay _
    cases hact.flow with
    | other _ _ hs | join _ _ _ hs | carry _ _ _ _ _ _ hs | dead _ _ _ _ hs
    | cut _ _ _ _ _ _ hs => exact .inl (hsame hs.tasks)
    | start x hin hi ht hn =>
        by_cases htn : t = st.shared.nextTask
        · right
          refine ⟨htn, htn ▸ hn, (pr.identity, x), ?_⟩
          rw [ht, htn]
          exact Function.update_self _ _ _
        · left
          rw [ht, Function.update_of_ne htn]
          exact .stay _
    | drop x pc t' _ hc ho hne hi ht hn => exact .inl (hsame ht)
    | cancel x t' he hi ht hn =>
        left
        rw [ht]
        rcases st.shared.cancelTask_tasks t' t with hs | ⟨rfl, k', hpending, hcancelling⟩
        · rw [hs]
          exact .stay _
        · rw [hcancelling, hpending]
          refine .cancel k' (.inl ⟨p, .inl ?_, pr.identity, x, hact.call_eq⟩)
          rcases hact.moves with ⟨rfl, -, -⟩ | ⟨e, rfl, -⟩
          · cases he
          · cases he
            exact ⟨done, rfl⟩
    | pop x hi ht hn => exact .inl (hsame ht)
  · exact .inl (hquiet.tasks t)

/-- An entry of the in-flight map was there, or is the creation that was just
started by a caller of the key. -/
theorem State.step_inflight {st st' : State ι} {act : Action ι}
    (h : st.step act = some st') {k : Key} {t : ℕ}
    (hin : st'.shared.inflight k = some t) :
    st.shared.inflight k = some t ∨
      t = st.shared.nextTask ∧ st'.shared.tasks t = some ⟨k, .pending⟩ ∧
        ∃ p, st'.Holds p k t := by
  rcases State.step_cases h with ⟨p, pr, c, k', done, o, hact⟩ | hquiet
  · cases hact.flow with
    | other _ _ hs | join _ _ _ hs | carry _ _ _ _ _ _ hs | dead _ _ _ _ hs
    | cut _ _ _ _ _ _ hs =>
        rw [hs.inflight] at hin
        exact .inl hin
    | start x hnone hi ht hn =>
        rw [hi] at hin
        by_cases hk : k = (pr.identity, x)
        · subst hk
          rw [Function.update_self] at hin
          cases hin
          refine .inr ⟨rfl, ?_, p, _, hact.call_next rfl, rfl⟩
          rw [ht]
          exact Function.update_self _ _ _
        · rw [Function.update_of_ne hk] at hin
          exact .inl hin
    | drop x pc t' _ hc ho hne hi ht hn =>
        left
        rw [hi] at hin
        unfold Shared.popInflight at hin
        split at hin
        · by_cases hk : k = (pr.identity, x)
          · subst hk
            simp at hin
          · simpa [Function.update_of_ne hk] using hin
        · exact hin
    | cancel x t' he hi ht hn =>
        rw [hi] at hin
        exact .inl hin
    | pop x hi ht hn =>
        rw [hi] at hin
        by_cases hk : k = (pr.identity, x)
        · subst hk
          simp at hin
        · rw [Function.update_of_ne hk] at hin
          exact .inl hin
  · rw [hquiet.inflight] at hin
    exact .inl hin

/-- The numbers of the creations only grow. -/
theorem State.step_nextTask {st st' : State ι} {act : Action ι} (h : st.step act = some st') :
    st.shared.nextTask ≤ st'.shared.nextTask := by
  rcases State.step_cases h with ⟨p, pr, c, k, done, o, hact⟩ | hquiet
  · cases hact.flow with
    | other _ _ hs | join _ _ _ hs | carry _ _ _ _ _ _ hs | dead _ _ _ _ hs
    | cut _ _ _ _ _ _ hs => exact Nat.le_of_eq hs.nextTask.symm
    | start _ _ _ _ hn => omega
    | drop _ _ _ _ _ _ _ _ _ hn | cancel _ _ _ _ _ hn | pop _ _ _ hn =>
        exact Nat.le_of_eq hn.symm
  · exact Nat.le_of_eq hquiet.nextTask.symm

/-! ## §3  Every entry is of its own key -/

structure Tasked (st : State ι) : Prop where
  fresh : ∀ t, st.shared.nextTask ≤ t → st.shared.tasks t = none
  entry : ∀ k t, st.shared.inflight k = some t → ∃ y, st.shared.tasks t = some ⟨k, y⟩
  held : ∀ p a x pc t, st.call p = some (a, .create x pc) → pc.taskId = some t →
    ∃ y, st.shared.tasks t = some ⟨(a, x), y⟩ ∧ ∀ s, pc.sessionId = some s → y = .done s
  popped : ∀ p pr t, st.procs p = some pr → pr.stage = .aborting (some t) →
    (∃ ct, st.shared.tasks t = some ct) ∧ ∀ k, st.shared.inflight k ≠ some t

omit [DecidableEq ι] in
theorem Tasked.lt_nextTask {st : State ι} (h : Tasked st) {t : ℕ} {ct : CreateTask}
    (ht : st.shared.tasks t = some ct) : t < st.shared.nextTask := by
  by_contra hge
  have hnone := h.fresh t (by omega)
  rw [ht] at hnone
  cases hnone

/-- A creation keeps its key and, once done, its result. -/
theorem Tasked.task_stays {st st' : State ι} {act : Action ι} (h : Tasked st)
    (hstep : st.step act = some st') {t : ℕ} {k : Key} {y : TaskState}
    (ht : st.shared.tasks t = some ⟨k, y⟩) :
    ∃ y', st'.shared.tasks t = some ⟨k, y'⟩ ∧ ∀ s, y = .done s → y' = .done s := by
  have hlt := h.lt_nextTask ht
  rcases State.step_task hstep t with hmove | ⟨rfl, -⟩
  · rw [ht] at hmove
    generalize hx : st'.shared.tasks t = z at hmove
    cases hmove with
    | stay => exact ⟨y, rfl, fun _ => id⟩
    | done _ s => exact ⟨_, rfl, by simp⟩
    | failed | stopped | cancel => exact ⟨_, rfl, by simp⟩
  · omega

theorem tasked_fresh {st st' : State ι} {act : Action ι} (h : Tasked st)
    (hstep : st.step act = some st') {t : ℕ} (ht : st'.shared.nextTask ≤ t) :
    st'.shared.tasks t = none := by
  have hle := State.step_nextTask hstep
  have hnone := h.fresh t (by omega)
  rcases State.step_task hstep t with hmove | ⟨rfl, hnext, -⟩
  · rw [hnone] at hmove
    generalize hx : st'.shared.tasks t = z at hmove
    cases hmove
    rfl
  · omega

theorem tasked_entry {st st' : State ι} {act : Action ι} (h : Tasked st)
    (hstep : st.step act = some st') {k : Key} {t : ℕ}
    (hin : st'.shared.inflight k = some t) : ∃ y, st'.shared.tasks t = some ⟨k, y⟩ := by
  rcases State.step_inflight hstep hin with hold | ⟨-, ht, -⟩
  · obtain ⟨y, hy⟩ := h.entry k t hold
    obtain ⟨y', hy', -⟩ := h.task_stays hstep hy
    exact ⟨y', hy'⟩
  · exact ⟨_, ht⟩

theorem tasked_held {st st' : State ι} {act : Action ι} (h : Tasked st)
    (hstep : st.step act = some st') {q : ι} {a : Identity} {x : ContextId} {pc : CreatePc}
    {t : ℕ} (hq : st'.call q = some (a, .create x pc)) (hpc : pc.taskId = some t) :
    ∃ y, st'.shared.tasks t = some ⟨(a, x), y⟩ ∧ ∀ s, pc.sessionId = some s → y = .done s := by
  -- a call that was where it is
  have hold : st.call q = some (a, .create x pc) →
      ∃ y, st'.shared.tasks t = some ⟨(a, x), y⟩ ∧
        ∀ s, pc.sessionId = some s → y = .done s := by
    intro hq₀
    obtain ⟨y, hy, hs⟩ := h.held q a x pc t hq₀ hpc
    obtain ⟨y', hy', hdone⟩ := h.task_stays hstep hy
    exact ⟨y', hy', fun s hsess => hdone s (hs s hsess)⟩
  have hstarting : Call.starting (.create x pc) → False := by
    intro hs
    exact absurd (hpc.symm.trans hs.taskId) (by simp)
  rcases State.step_cases hstep with ⟨p, pr, c, k, done, o, hact⟩ | hquiet
  · by_cases hqp : q = p
    · subst hqp
      cases o with
      | next c' =>
          rw [hact.call_next rfl] at hq
          obtain ⟨rfl, rfl⟩ := Prod.mk.inj (Option.some.inj hq)
          generalize hc' : Call.create x pc = c' at hact
          cases hact.flow with
          | other _ _ hs hc hn =>
              have := hn _ rfl
              rw [← hc'] at this
              exact absurd (hpc.symm.trans this) (by simp)
          | start y hnone hi ht hn =>
              cases hc'
              cases hpc
              refine ⟨.pending, ?_, by simp [CreatePc.sessionId]⟩
              rw [ht]
              exact Function.update_self _ _ _
          | join y t' hin hs =>
              cases hc'
              cases hpc
              obtain ⟨z, hz⟩ := h.entry _ t hin
              exact ⟨z, by rw [hs.tasks]; exact hz, by simp [CreatePc.sessionId]⟩
          | carry y pc₀ pc' t' hcarries hne hs =>
              cases hc'
              have hsame := hcarries.task'.symm.trans hpc
              cases hsame
              obtain ⟨z, hz, hzs⟩ := h.held q _ _ _ t hact.call_eq hcarries.task
              refine ⟨z, by rw [hs.tasks]; exact hz, ?_⟩
              intro s hsess
              rcases hcarries.session with heq | ⟨s', k', hs', hdone⟩
              · exact hzs s (heq ▸ hsess)
              · rw [hz] at hdone
                rw [hs'] at hsess
                cases hsess
                exact congrArg CreateTask.state (Option.some.inj hdone)
          | cancel y t' he hi ht hn =>
              cases hc'
              exact hold hact.call_eq
          | drop y pc₀ t' _ hc ho => exact absurd rfl (ho _)
      | returned v | raised e => exact (hstarting (hact.call_fresh (by simp) hq).2).elim
    · rw [hact.call_others hqp] at hq
      exact hold hq
  · rcases hquiet.call q with hsame | ⟨-, hs⟩
    · exact hold (hsame ▸ hq)
    · exact (hstarting (hs a _ hq)).elim

omit [DecidableEq ι] in
theorem Proc.returned_aborting {pr : Proc ι} {k : Cont} {v : Value} {t : Option ℕ}
    (h : (pr.returned k v).stage = .aborting t) : v = .task t := by
  unfold Proc.returned at h
  split at h
  · unfold Proc.claimed Proc.bound at h
    split at h <;> (try split at h) <;> (try split at h) <;> cases h
  · unfold Proc.bound at h
    split at h <;> cases h
  · unfold Proc.bound at h
    split at h <;> cases h
  · unfold Proc.finalized Proc.guardFinalized at h
    split at h <;> (try split at h) <;> cases h
  · split at h <;> cases h
  · cases h
  · split at h <;> cases h
  · split at h
    · cases h
      rfl
    · cases h
  · cases h

omit [DecidableEq ι] in
theorem Proc.raised_aborting {pr : Proc ι} {k : Cont} {e : Exc} {t : Option ℕ} :
    (pr.raised k e).stage ≠ .aborting t := by
  unfold Proc.raised Proc.fail
  split <;> (try split) <;> simp

omit [DecidableEq ι] in
theorem Proc.Between.aborting {act : Action ι} {q : ι} {x y : Option (Proc ι)}
    (h : Proc.Between act q x y) {pr' : Proc ι} {t : Option ℕ} (hy : y = some pr')
    (hs : pr'.stage = .aborting t) : ∃ pr, x = some pr ∧ pr.stage = .aborting t := by
  cases h with
  | stay => exact ⟨pr', hy, hs⟩
  | spawn a script =>
      obtain rfl := Option.some.inj hy
      unfold Proc.spawn Script.start at hs
      dsimp only at hs
      split at hs <;> cases hs
  | answer pr fork hstage =>
      obtain rfl := Option.some.inj hy
      unfold Proc.answer Proc.guardFinalized at hs
      split at hs
      · split at hs <;> cases hs
      · dsimp only at hs
        split at hs
        · cases hs
        · split at hs <;> cases hs
      · rw [hstage] at hs
        cases hs
  | fail pr e =>
      obtain rfl := Option.some.inj hy
      unfold Proc.fail at hs
      split at hs <;> cases hs
  | turn pr =>
      obtain rfl := Option.some.inj hy
      cases hs
  | finish pr b =>
      obtain rfl := Option.some.inj hy
      cases hs
  | cancel pr =>
      obtain rfl := Option.some.inj hy
      exact ⟨pr, rfl, hs⟩

theorem tasked_popped {st st' : State ι} {act : Action ι} (h : Tasked st)
    (hstep : st.step act = some st') {q : ι} {qr : Proc ι} {t : ℕ}
    (hq : st'.procs q = some qr) (hs : qr.stage = .aborting (some t)) :
    (∃ ct, st'.shared.tasks t = some ct) ∧ ∀ k, st'.shared.inflight k ≠ some t := by
  -- a cancellation that had popped the creation before
  have hold : ∀ qr₀, st.procs q = some qr₀ → qr₀.stage = .aborting (some t) →
      (∃ ct, st'.shared.tasks t = some ct) ∧ ∀ k, st'.shared.inflight k ≠ some t := by
    intro qr₀ hq₀ hs₀
    obtain ⟨⟨⟨k₀, y⟩, hct⟩, hnot⟩ := h.popped q qr₀ t hq₀ hs₀
    obtain ⟨y', hy', -⟩ := h.task_stays hstep hct
    refine ⟨⟨_, hy'⟩, ?_⟩
    intro k hin
    rcases State.step_inflight hstep hin with hin₀ | ⟨ht, -⟩
    · exact hnot k hin₀
    · have := h.lt_nextTask hct
      omega
  rcases State.step_cases hstep with ⟨p, pr, c, k, done, o, hact⟩ | hquiet
  · by_cases hqp : q = p
    · subst hqp
      rw [hact.procs, Function.update_self] at hq
      obtain rfl := Option.some.inj hq
      unfold Proc.moved at hs
      cases o with
      | next c' => cases hs
      | raised e => exact absurd hs Proc.raised_aborting
      | returned v =>
          obtain rfl := Proc.returned_aborting hs
          obtain ⟨-, -, op, -, -, hfin⟩ := hact.returned
          cases hfin with
          | popped x =>
              have hflow := hact.flow
              generalize ho : Outcome.returned (Value.task (some t)) = o at hflow
              cases hflow with
              | other _ _ _ _ _ hp => exact absurd ho.symm (hp x rfl _)
              | pop _ hi ht hn =>
                  have hin : st.shared.inflight (pr.identity, x) = some t :=
                    (Value.task.inj (Outcome.returned.inj ho)).symm
                  obtain ⟨y, hy⟩ := h.entry _ t hin
                  refine ⟨⟨_, by rw [ht]; exact hy⟩, ?_⟩
                  intro k' hk'
                  rw [hi] at hk'
                  by_cases hkey : k' = (pr.identity, x)
                  · subst hkey
                    simp at hk'
                  · rw [Function.update_of_ne hkey] at hk'
                    obtain ⟨z, hz⟩ := h.entry _ t hk'
                    rw [hy] at hz
                    exact hkey (congrArg CreateTask.key (Option.some.inj hz)).symm
    · rw [hact.others hqp] at hq
      exact hold qr hq hs
  · obtain ⟨qr₀, hq₀, hs₀⟩ := (hquiet.procs q).aborting hq hs
    exact hold qr₀ hq₀ hs₀

theorem tasked_step {st st' : State ι} {act : Action ι} (h : Tasked st)
    (hstep : st.step act = some st') : Tasked st' where
  fresh := fun _ ht => tasked_fresh h hstep ht
  entry := fun _ _ hin => tasked_entry h hstep hin
  held := fun _ _ _ _ _ hq hpc => tasked_held h hstep hq hpc
  popped := fun _ _ _ hq hs => tasked_popped h hstep hq hs

theorem Reachable.tasked {repo : Repository} {ttl : Int} {st : State ι}
    (h : Reachable repo ttl st) : Tasked st := by
  refine Machine.Reachable.invariant (fun s a t hs ht => tasked_step hs ht) h ?_
  constructor <;> intros <;> simp_all [State.initial, Shared.initial, State.call]

end OpencodeA2a.Session
