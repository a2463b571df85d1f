import OpencodeA2a.Session.Isolation
import OpencodeA2a.Session.Tasks

/-!
# Single-flight creation

Callers of `get_or_create_session` for one key check the binding and the in-flight
creations, wait, and write the binding, with awaits in between; the entry of the
creation is dropped only after the binding has been written. So the key goes through
three phases (`Phase`): nothing started, one creation in flight, its session bound and
owned.
-/

namespace OpencodeA2a.Session

variable {ι : Type}

/-! ## §1  The moves of a creating call -/

/-- The tasks are as before, but for the entry of the key: it is dropped if it is `t`. -/
structure Shared.Drops (σ σ' : Shared ι) (k : Key) (t : ℕ) : Prop where
  inflight : σ'.inflight = (σ.popInflight k t).inflight
  tasks : σ'.tasks = σ.tasks

/-- What a move of a `get_or_create_session` call without a preferred session does, other
than by a cancellation. -/
inductive CreatePc.Moves (a : Identity) (x : ContextId) (σ σ' : Shared ι) :
    CreatePc → Outcome → Prop
  | wait (pc pc' : CreatePc) :
      pc'.taskId = pc.taskId → pc'.sessionId = pc.sessionId → (∀ t s, pc' ≠ .own t s) →
      σ.SameTasks σ' → σ'.repo.bindings = σ.repo.bindings →
      Moves a x σ σ' pc (.next (.create x pc'))
  | found (s : SessionId) :
      σ.repo.bindings (a, x) = some s → σ.SameTasks σ' → σ'.repo.bindings = σ.repo.bindings →
      Moves a x σ σ' .read (.returned (.session s))
  | start :
      σ.repo.bindings (a, x) = none → σ.inflight (a, x) = none →
      σ'.inflight = Function.update σ.inflight (a, x) (some σ.nextTask) →
      σ'.tasks = Function.update σ.tasks σ.nextTask (some ⟨(a, x), .pending⟩) →
      σ'.repo.bindings = σ.repo.bindings →
      Moves a x σ σ' .read (.next (.create x (.task σ.nextTask)))
  | join (t : ℕ) :
      σ.inflight (a, x) = some t → σ.SameTasks σ' → σ'.repo.bindings = σ.repo.bindings →
      Moves a x σ σ' .read (.next (.create x (.task t)))
  | got (t : ℕ) (s : SessionId) (k : Key) :
      σ.tasks t = some ⟨k, .done s⟩ → σ.SameTasks σ' → σ'.repo.bindings = σ.repo.bindings →
      Moves a x σ σ' (.task t) (.next (.create x (.relock t s)))
  | lost (t : ℕ) (k : Key) (y : TaskState) (e : Exc) :
      σ.tasks t = some ⟨k, y⟩ → y = .failed ∨ y = .cancelled →
      Moves a x σ σ' (.task t) (.raised e)
  | turnedAway (t : ℕ) (s : SessionId) (b : Identity) :
      σ.repo.owners s = some b → b ≠ a → Moves a x σ σ' (.owner t s) (.raised .permission)
  | bind (t : ℕ) (s : SessionId) :
      σ.SameTasks σ' → σ'.repo.bindings = Function.update σ.repo.bindings (a, x) (some s) →
      Moves a x σ σ' (.bind t s none) (.next (.create x (.own t s)))
  | rebind (t : ℕ) (s : SessionId) (b : Identity) :
      σ.Drops σ' (a, x) t → σ'.repo.bindings = Function.update σ.repo.bindings (a, x) (some s) →
      Moves a x σ σ' (.bind t s (some b)) (.returned (.session s))
  | own (t : ℕ) (s : SessionId) :
      σ.Drops σ' (a, x) t → σ'.repo.bindings = σ.repo.bindings →
      σ'.repo.owners s = some a → Moves a x σ σ' (.own t s) (.returned (.session s))
  | cut (pc : CreatePc) (e : Exc) :
      σ.SameTasks σ' → (σ'.repo.bindings = σ.repo.bindings ∨ ∃ t s o, pc = .bind t s o ∧
        σ'.repo.bindings = Function.update σ.repo.bindings (a, x) (some s)) →
      Moves a x σ σ' pc (.raised e)

theorem Shared.drops_perform (σ : Shared ι) (op : RepoOp) (k : Key) (t : ℕ) :
    σ.Drops ((σ.perform op).popInflight k t) k t := by
  refine ⟨?_, Shared.popInflight_tasks _ k t⟩
  unfold Shared.popInflight
  show (if σ.inflight k = some t then _ else σ.perform op).inflight = _
  split <;> rfl

theorem Call.step_creates {a : Identity} {x : ContextId} {σ σ' : Shared ι} {p : ι}
    {pc : CreatePc} {o : Outcome} (h : (Call.create x pc).step σ p a = some (σ', o)) :
    pc.Moves a x σ σ' o := by
  obtain ⟨σ₁, r, hc, rfl, rfl⟩ := Call.step_eq h
  cases pc with
  | lock =>
      simp only [Call.await, Shared.complete] at hc
      split at hc <;> cases hc
      exact .wait _ .read rfl rfl (by simp) ⟨rfl, rfl, rfl⟩ rfl
  | read =>
      simp only [Call.await, Shared.complete, Option.some.injEq, Prod.mk.injEq] at hc
      obtain ⟨rfl, rfl⟩ := hc
      cases hb : σ.repo.bindings (a, x) with
      | some s =>
          simp only [RepoOp.perform, hb, Call.resume]
          exact .found s hb ⟨rfl, rfl, rfl⟩ rfl
      | none =>
          simp only [RepoOp.perform, hb, Call.resume]
          cases hin : σ.inflight (a, x) with
          | some t =>
              have hin' : (σ.perform (.getSession (a, x))).inflight (a, x) = some t := hin
              simp only [Shared.inflightOrCreate, hin']
              exact .join t hin ⟨rfl, rfl, rfl⟩ rfl
          | none =>
              have hin' : (σ.perform (.getSession (a, x))).inflight (a, x) = none := hin
              simp only [Shared.inflightOrCreate, hin']
              exact .start hb hin rfl rfl rfl
  | task t =>
      simp only [Call.await, Shared.complete] at hc
      split at hc
      · rename_i k s ht
        cases hc
        exact .got t s k ht ⟨rfl, rfl, rfl⟩ rfl
      · rename_i k ht
        cases hc
        exact .lost t k _ _ ht (.inl rfl)
      · rename_i k ht
        cases hc
        exact .lost t k _ _ ht (.inr rfl)
      · cases hc
  | relock t s =>
      simp only [Call.await, Shared.complete] at hc
      split at hc <;> cases hc
      exact .wait _ (.ownLock t s) rfl rfl (by simp) ⟨rfl, rfl, rfl⟩ rfl
  | ownLock t s =>
      simp only [Call.await, Shared.complete] at hc
      split at hc <;> cases hc
      exact .wait _ (.owner t s) rfl rfl (by simp) ⟨rfl, rfl, rfl⟩ rfl
  | owner t s =>
      simp only [Call.await, Shared.complete, Option.some.injEq, Prod.mk.injEq] at hc
      obtain ⟨rfl, rfl⟩ := hc
      simp only [RepoOp.perform, Call.resume]
      by_cases hf : foreign a (σ.repo.owners s) = true
      · rw [if_pos hf]
        cases ho : σ.repo.owners s with
        | none =>
            rw [ho] at hf
            cases hf
        | some b =>
            rw [ho] at hf
            exact .turnedAway t s b ho (of_decide_eq_true hf)
      · rw [if_neg hf]
        exact .wait _ (.bind t s _) rfl rfl (by simp) ⟨rfl, rfl, rfl⟩ rfl
  | bind t s o =>
      simp only [Call.await, Shared.complete, Option.some.injEq, Prod.mk.injEq] at hc
      obtain ⟨rfl, rfl⟩ := hc
      cases o with
      | none => exact .bind t s ⟨rfl, rfl, rfl⟩ rfl
      | some b =>
          have hdrops := σ.drops_perform (.setSession (a, x) s) (a, x) t
          refine .rebind t s b ⟨hdrops.inflight, hdrops.tasks⟩ ?_
          show ((σ.perform (.setSession (a, x) s)).popInflight (a, x) t).repo.bindings = _
          rw [Shared.popInflight_repo]
          rfl
  | own t s =>
      simp only [Call.await, Shared.complete, Option.some.injEq, Prod.mk.injEq] at hc
      obtain ⟨rfl, rfl⟩ := hc
      have hdrops := σ.drops_perform (.setOwner s a) (a, x) t
      refine .own t s ⟨hdrops.inflight, hdrops.tasks⟩ ?_ ?_
      · show ((σ.perform (.setOwner s a)).popInflight (a, x) t).repo.bindings = _
        rw [Shared.popInflight_repo]
        rfl
      · show ((σ.perform (.setOwner s a)).popInflight (a, x) t).repo.owners s = _
        rw [Shared.popInflight_repo]
        exact Function.update_self ..

/-! ## §2  The key and its callers -/

/-- The context whose binding the script is about. -/
def Script.context : Script ι → Option ContextId
  | .getOrCreate c _ | .finalizeBinding c _ | .pop c | .chat c _ | .cancel c _ => some c
  | .claim _ | .finalize _ | .release _ | .guarded _ _ => none

/-- The script calls `get_or_create_session` without a preferred session. -/
def Script.Creates (c : ContextId) (script : Script ι) : Prop :=
  script = .getOrCreate c none ∨ script = .chat c none

/-- The process works on the binding of the key. -/
def Proc.On (k : Key) (pr : Proc ι) : Prop :=
  pr.identity = k.1 ∧ pr.script.context = some k.2

/-- Nobody works on the key, and a session that is bound to it is owned. -/
structure Idle (k : Key) (st : State ι) : Prop where
  inflight : st.shared.inflight k = none
  ended : ∀ p pr, st.procs p = some pr → pr.On k → ∃ r, pr.stage = .ended r
  owned : ∀ s, st.shared.repo.bindings k = some s → st.shared.repo.owners s = some k.1

/-- From now on only callers of `get_or_create_session` without a preferred session
work on the key, none of them is cancelled, no creation for the key (task `n` or a later
one) has failed, and no session that was created belongs to another identity, as it would
if another identity had operated on it. -/
structure Undisturbed (k : Key) (n : ℕ) (st : State ι) (act : Action ι) : Prop where
  creates : ∀ p script, act = .spawn p k.1 script → script.context = some k.2 →
    script.Creates k.2
  uncancelled : ∀ p pr, st.Hits act p → st.procs p = some pr → ¬ pr.On k
  returns : ∀ t, n ≤ t → st.shared.tasks t ≠ some ⟨k, .failed⟩
  unowned : ∀ t s b, n ≤ t → st.shared.tasks t = some ⟨k, .done s⟩ →
    st.shared.repo.owners s = some b → b = k.1

/-! ## §3  The phases of the key -/

/-- Only `t` is a creation for the key, of those that count. -/
def Shared.Only (σ : Shared ι) (k : Key) (n t : ℕ) : Prop :=
  ∀ t' y, n ≤ t' → σ.tasks t' = some ⟨k, y⟩ → t' = t

inductive Phase (k : Key) (n : ℕ) (σ : Shared ι) : Prop
  | unstarted :
      σ.inflight k = none → (∀ t y, n ≤ t → σ.tasks t ≠ some ⟨k, y⟩) →
      (∀ s, σ.repo.bindings k = some s → σ.repo.owners s = some k.1) → Phase k n σ
  | flying (t : ℕ) (y : TaskState) :
      n ≤ t → σ.inflight k = some t → σ.tasks t = some ⟨k, y⟩ → σ.Only k n t →
      ((y = .pending ∨ y = .failed) ∧ σ.repo.bindings k = none ∨
        ∃ s, y = .done s ∧ (σ.repo.bindings k = none ∨ σ.repo.bindings k = some s)) →
      Phase k n σ
  | landed (t : ℕ) (s : SessionId) :
      n ≤ t → σ.inflight k = none → σ.tasks t = some ⟨k, .done s⟩ → σ.Only k n t →
      σ.repo.bindings k = some s → σ.repo.owners s = some k.1 → Phase k n σ

/-- What a step does to the creations for the key: none is lost, none is new. -/
structure Shared.KeepsTasks (σ σ' : Shared ι) (k : Key) (n : ℕ) : Prop where
  stay : ∀ t y, n ≤ t → σ.tasks t = some ⟨k, y⟩ → y ≠ .cancelling →
    ∃ y', σ'.tasks t = some ⟨k, y'⟩ ∧
      (y' = y ∨ y = .pending ∧ (y' = .failed ∨ ∃ s, y' = .done s))
  old : ∀ t y, n ≤ t → σ'.tasks t = some ⟨k, y⟩ → ∃ y', σ.tasks t = some ⟨k, y'⟩

section Phases

variable {k : Key} {n : ℕ} {σ σ' : Shared ι}

theorem Shared.KeepsTasks.of_eq (h : σ'.tasks = σ.tasks) : σ.KeepsTasks σ' k n where
  stay := fun _ y _ ht _ => ⟨y, by rw [h]; exact ht, .inl rfl⟩
  old := fun _ y _ ht => ⟨y, by rw [← h]; exact ht⟩

theorem Shared.KeepsTasks.only (h : σ.KeepsTasks σ' k n) {t : ℕ} (ho : σ.Only k n t) :
    σ'.Only k n t := by
  intro t' y hn ht'
  obtain ⟨y', hy'⟩ := h.old t' y hn ht'
  exact ho t' y' hn hy'

/-- A step that leaves the entry and the binding of the key as they are. -/
theorem Phase.frame (h : Phase k n σ) (hin : σ'.inflight k = σ.inflight k)
    (hb : σ'.repo.bindings k = σ.repo.bindings k)
    (hown : ∀ s, σ.repo.owners s = some k.1 → σ'.repo.owners s = some k.1)
    (ht : σ.KeepsTasks σ' k n) : Phase k n σ' := by
  cases h with
  | unstarted hnone hfresh howned =>
      refine .unstarted (hin.trans hnone) ?_ fun s hs => hown s (howned s (hb ▸ hs))
      intro t y hn hy
      obtain ⟨y', hy'⟩ := ht.old t y hn hy
      exact hfresh t y' hn hy'
  | flying t y hn hin₀ hy honly hbound =>
      have halive : y ≠ .cancelling := by
        rcases hbound with ⟨rfl | rfl, -⟩ | ⟨s, rfl, -⟩ <;> simp
      obtain ⟨y', hy', hyy⟩ := ht.stay t y hn hy halive
      refine .flying t y' hn (hin.trans hin₀) hy' (ht.only honly) ?_
      rw [hb]
      rcases hyy with rfl | ⟨rfl, hy'⟩
      · exact hbound
      · rcases hbound with ⟨-, hnone⟩ | ⟨s', hs', -⟩
        · rcases hy' with rfl | ⟨s, rfl⟩
          · exact .inl ⟨.inr rfl, hnone⟩
          · exact .inr ⟨s, rfl, .inl hnone⟩
        · cases hs'
  | landed t s hn hin₀ hy honly hbound howned =>
      obtain ⟨y', hy', rfl | ⟨hpending, -⟩⟩ := ht.stay t _ hn hy (by simp)
      · exact .landed t s hn (hin.trans hin₀) hy' (ht.only honly) (hb.trans hbound) (hown s howned)
      · cases hpending

/-- A caller that finds no binding and no entry starts the one creation. -/
theorem Phase.start (h : Phase k n σ) (hn : n ≤ σ.nextTask)
    (hb : σ.repo.bindings k = none) (hin : σ.inflight k = none)
    (hin' : σ'.inflight = Function.update σ.inflight k (some σ.nextTask))
    (ht' : σ'.tasks = Function.update σ.tasks σ.nextTask (some ⟨k, .pending⟩))
    (hb' : σ'.repo.bindings = σ.repo.bindings) : Phase k n σ' := by
  cases h with
  | unstarted _ hfresh _ =>
      refine .flying σ.nextTask .pending hn (by rw [hin', Function.update_self])
        (by rw [ht', Function.update_self]) ?_ (.inl ⟨.inl rfl, by rw [hb', hb]⟩)
      intro t y hnt hy
      by_contra hne
      rw [ht', Function.update_of_ne hne] at hy
      exact hfresh t y hnt hy
  | flying t y _ hin₀ =>
      rw [hin] at hin₀
      cases hin₀
  | landed t s _ _ _ _ hbound =>
      rw [hb] at hbound
      cases hbound

/-- A caller that carries the session of the creation writes the binding. -/
theorem Phase.bind (h : Phase k n σ) {t : ℕ} {s : SessionId} (hn : n ≤ t)
    (ht : σ.tasks t = some ⟨k, .done s⟩) (hin' : σ'.inflight = σ.inflight)
    (ht' : σ'.tasks = σ.tasks)
    (hb' : σ'.repo.bindings = Function.update σ.repo.bindings k (some s))
    (hown : ∀ s, σ.repo.owners s = some k.1 → σ'.repo.owners s = some k.1) : Phase k n σ' := by
  have hself : σ'.repo.bindings k = some s := by rw [hb', Function.update_self]
  have honly' : ∀ t', σ.Only k n t' → σ'.Only k n t' := fun t' =>
    (Shared.KeepsTasks.of_eq ht').only
  cases h with
  | unstarted _ hfresh _ => exact absurd ht (hfresh t _ hn)
  | flying t' y hn' hin hy honly hbound =>
      obtain rfl := honly t _ hn ht
      refine .flying t (.done s) hn (by rw [hin']; exact hin) (by rw [ht']; exact ht)
        (honly' t honly) (.inr ⟨s, rfl, .inr hself⟩)
  | landed t' s' hn' hin hy honly hbound howned =>
      obtain rfl := honly t _ hn ht
      rw [ht] at hy
      obtain rfl := (TaskState.done.inj (CreateTask.mk.inj (Option.some.inj hy)).2)
      exact .landed t s hn (by rw [hin']; exact hin) (by rw [ht']; exact ht) (honly' t honly) hself
        (hown s howned)

/-- A caller that has bound the session to its owner drops the entry. -/
theorem Phase.land (h : Phase k n σ) {t : ℕ} {s : SessionId} (hn : n ≤ t)
    (ht : σ.tasks t = some ⟨k, .done s⟩) (hdrops : σ.Drops σ' k t)
    (hb' : σ'.repo.bindings k = some s) (hown' : σ'.repo.owners s = some k.1) : Phase k n σ' := by
  have honly' : σ.Only k n t → σ'.Only k n t := (Shared.KeepsTasks.of_eq hdrops.tasks).only
  have hin' := hdrops.inflight
  cases h with
  | unstarted _ hfresh _ => exact absurd ht (hfresh t _ hn)
  | flying t' y hn' hin hy honly hbound =>
      obtain rfl := honly t _ hn ht
      refine .landed t s hn ?_ (by rw [hdrops.tasks]; exact ht) (honly' honly) hb' hown'
      rw [hin', Shared.popInflight, if_pos hin]
      exact Function.update_self ..
  | landed t' s' hn' hin hy honly hbound howned =>
      obtain rfl := honly t _ hn ht
      refine .landed t s hn ?_ (by rw [hdrops.tasks]; exact ht) (honly' honly) hb' hown'
      have hnot : ¬ σ.inflight k = some t := by simp [hin]
      rw [hin', Shared.popInflight, if_neg hnot]
      exact hin

theorem Phase.alive (h : Phase k n σ) {t : ℕ} {y : TaskState} (hn : n ≤ t)
    (ht : σ.tasks t = some ⟨k, y⟩) : y ≠ .cancelling ∧ y ≠ .cancelled := by
  cases h with
  | unstarted _ hfresh _ => exact absurd ht (hfresh t _ hn)
  | flying t' y' hn' hin hy honly hbound =>
      obtain rfl := honly t _ hn ht
      rw [ht] at hy
      obtain rfl := (CreateTask.mk.inj (Option.some.inj hy)).2
      rcases hbound with ⟨rfl | rfl, -⟩ | ⟨s, rfl, -⟩ <;> simp
  | landed t' s hn' hin hy honly =>
      obtain rfl := honly t _ hn ht
      rw [ht] at hy
      obtain rfl := (CreateTask.mk.inj (Option.some.inj hy)).2
      simp

theorem Phase.entry (h : Phase k n σ) {t : ℕ} (hin : σ.inflight k = some t) : n ≤ t := by
  cases h with
  | unstarted hnone =>
      rw [hin] at hnone
      cases hnone
  | flying t' y hn hin' =>
      rw [hin] at hin'
      exact Option.some.inj hin' ▸ hn
  | landed t' s hn hnone =>
      rw [hin] at hnone
      cases hnone

/-- The binding is the session of the creation. -/
theorem Phase.bound_eq (h : Phase k n σ) {t : ℕ} {s s' : SessionId} (hn : n ≤ t)
    (ht : σ.tasks t = some ⟨k, .done s⟩) (hb : σ.repo.bindings k = some s') : s' = s := by
  cases h with
  | unstarted _ hfresh _ => exact absurd ht (hfresh t _ hn)
  | flying t' y hn' hin hy honly hbound =>
      obtain rfl := honly t _ hn ht
      rw [ht] at hy
      obtain rfl := (CreateTask.mk.inj (Option.some.inj hy)).2
      rw [hb] at hbound
      rcases hbound with ⟨-, hnone⟩ | ⟨s'', hs'', hnone | hsome⟩
      · cases hnone
      · cases hnone
      · rw [Option.some.inj hsome, TaskState.done.inj hs'']
  | landed t' s'' hn' hin hy honly hbound =>
      obtain rfl := honly t _ hn ht
      rw [ht] at hy
      rw [hb] at hbound
      rw [Option.some.inj hbound, TaskState.done.inj (CreateTask.mk.inj (Option.some.inj hy)).2]

end Phases

/-! ## §4  The callers -/

/-- A process whose business with the key is one creation. -/
structure Proc.Calling (x : ContextId) (pr : Proc ι) : Prop where
  creates : pr.script.Creates x
  pending : pr.pending = false

/-- A process on the key that started after the key was idle. -/
structure Caller (k : Key) (n : ℕ) (σ : Shared ι) (pr : Proc ι) : Prop where
  calling : pr.Calling k.2
  held : ∀ pc kk t, pr.stage = .running (.create k.2 pc) kk → pc.taskId = some t → n ≤ t
  own : ∀ kk t s, pr.stage = .running (.create k.2 (.own t s)) kk →
    σ.repo.bindings k = some s
  returned : ∀ s, pr.session = some s → σ.repo.bindings k = some s

/-- The process answers for the in-flight creation `t`: it holds it, or has failed. -/
structure Proc.Answers (k : Key) (t : ℕ) (pr : Proc ι) : Prop where
  unbound : pr.session = none
  stage : (∃ pc, pr.stage = .running (.create k.2 pc) .created ∧ pc.taskId = some t) ∨
    ∃ e, pr.stage = .ended (.failed e)

section Callers

variable {k : Key} {n : ℕ} {σ σ' : Shared ι} {x : ContextId} {pr pr' : Proc ι}

theorem Caller.mono (h : Caller k n σ pr)
    (hb : ∀ s, σ.repo.bindings k = some s → σ'.repo.bindings k = some s) : Caller k n σ' pr where
  calling := h.calling
  held := h.held
  own := fun kk t s hs => hb s (h.own kk t s hs)
  returned := fun s hs => hb s (h.returned s hs)

/-- The calls of such a process are its creation. -/
theorem Proc.Calling.call (h : pr.Calling x) {kk : Cont} {c : Call} (hfits : pr.FitsCall kk c) :
    kk = .created ∧ (∃ pc, c = .create x pc) ∧ pr.session = none := by
  have hclaims : pr.script.claims = none := by
    rcases h.creates with hs | hs <;> rw [hs] <;> rfl
  have hpending := h.pending
  have hscript := h.creates
  cases kk <;> cases c <;> try exact hfits.elim
  · exact absurd (hclaims.symm.trans hfits.1) (by simp)
  · rcases hscript with hs | hs <;> simp [Proc.FitsCall, hs] at hfits
  · rename_i y pc
    refine ⟨rfl, ?_, hfits.2.session⟩
    rcases hscript with hs | hs <;> simp [Proc.FitsCall, hs] at hfits <;>
      exact ⟨pc, by rw [hfits.1]⟩
  · rcases hfits with hh | hs | hs
    · exact absurd (hpending.symm.trans hh.pending) (by simp)
    · rcases hscript with hs' | hs' <;> simp [hs'] at hs
    · rcases hscript with hs' | hs' <;> simp [hs'] at hs
  · rcases hfits with hh | hs
    · exact absurd (hpending.symm.trans hh.1.pending) (by simp)
    · rcases hscript with hs' | hs' <;> simp [hs'] at hs
  · obtain ⟨⟨s₀, f, hs⟩, -⟩ := hfits
    rcases hscript with hs' | hs' <;> simp [hs'] at hs
  · rcases hfits with hs | ⟨-, -, hp⟩
    · rcases hscript with hs' | hs' <;> simp [hs'] at hs
    · exact absurd (hpending.symm.trans hp) (by simp)
  · rcases hfits with hs | ⟨q, hs⟩ <;> rcases hscript with hs' | hs' <;> simp [hs'] at hs

/-- The script names the key of a call. -/
def Call.context : Call → Option ContextId
  | .bind x _ _ | .create x _ | .pop x _ => some x
  | .claim _ _ | .finalize _ _ | .release _ _ => none

theorem Proc.FitsCall.context {kk : Cont} {c : Call} (h : pr.FitsCall kk c)
    (hc : c.context = some x) : pr.script.context = some x := by
  cases kk <;> cases c <;> try exact h.elim
  all_goals simp only [Call.context, Option.some.injEq, reduceCtorEq] at hc
  · subst hc
    rcases h.1 with hs | hs <;> rw [hs] <;> rfl
  · subst hc
    rcases h.1 with hs | hs <;> rw [hs] <;> rfl
  · subst hc
    rcases h with ⟨-, o, hs⟩ | hs <;> rw [hs] <;> rfl
  · subst hc
    rcases h with hs | ⟨q, hs⟩ <;> rw [hs] <;> rfl

/-- Outside its call the process leaves everything about the key as it is. -/
theorem Caller.of_stage (h : Caller k n σ pr) (hscript : pr'.script = pr.script)
    (hpending : pr'.pending = pr.pending) (hsession : pr'.session = pr.session)
    (hstage : ∀ c kk, pr'.stage ≠ .running c kk) : Caller k n σ pr' where
  calling := ⟨by rw [hscript]; exact h.calling.creates, hpending.trans h.calling.pending⟩
  held := fun _ _ _ hs => absurd hs (hstage _ _)
  own := fun _ _ _ hs => absurd hs (hstage _ _)
  returned := fun s hs => h.returned s (hsession ▸ hs)

theorem Caller.spawn {script : Script ι} (h : script.Creates k.2) :
    Caller k n σ (Proc.spawn k.1 script) := by
  have hstage : (Proc.spawn k.1 script).stage = .running (.create k.2 .lock) .created := by
    rcases h with rfl | rfl <;> rfl
  refine ⟨⟨h, rfl⟩, ?_, ?_, ?_⟩
  · intro pc kk t hs hpc
    rw [hstage] at hs
    cases hs
    cases hpc
  · intro kk t s hs
    rw [hstage] at hs
    cases hs
  · intro s hs
    cases hs

theorem Caller.between {act : Action ι} {q : ι} (h : Caller k n σ pr) (hfits : pr.Fits)
    (hb : Proc.Between act q (some pr) (some pr')) : Caller k n σ pr' := by
  cases hb with
  | stay => exact h
  | answer _ fork hs =>
      unfold Proc.Fits at hfits
      rw [hs] at hfits
      obtain ⟨s, hsession⟩ := Option.isSome_iff_exists.mp hfits.2
      rcases h.calling.creates with hscript | hscript
      · have hsame : pr.answer fork = pr := by
          simp only [Proc.answer, hscript]
        rw [hsame]
        exact h
      · have hanswer : pr.answer fork = { pr with answered := true, stage := .working } := by
          simp only [Proc.answer, hscript, hsession, h.calling.pending, Bool.false_eq_true,
            if_false]
        rw [hanswer]
        exact h.of_stage rfl rfl rfl (by simp)
  | fail _ e hs =>
      have hfail : ({ pr with cancelled := pr.cancelled || decide (e = Exc.cancelled) }.fail e)
          = { pr with cancelled := pr.cancelled || decide (e = Exc.cancelled),
                      stage := .ended (.failed e) } := by
        simp only [Proc.fail, h.calling.pending]
      rw [hfail]
      exact h.of_stage rfl rfl rfl (by simp)
  | turn => exact h.of_stage rfl rfl rfl (by simp)
  | finish => exact h.of_stage rfl rfl rfl (by simp)
  | cancel => exact ⟨⟨h.calling.creates, h.calling.pending⟩, h.held, h.own, h.returned⟩

/-- A process that answers for a creation goes on doing so between its calls. -/
theorem Proc.Answers.between {act : Action ι} {q : ι} {t : ℕ} (h : pr.Answers k t)
    (hb : Proc.Between act q (some pr) (some pr')) : pr'.Answers k t := by
  have hstage : pr.stage ≠ .upstream ∧ pr.stage ≠ .working ∧ ∀ t, pr.stage ≠ .aborting t := by
    rcases h.stage with ⟨pc, hs, -⟩ | ⟨e, hs⟩ <;> rw [hs] <;> simp
  cases hb with
  | stay => exact h
  | answer _ fork hs => exact absurd hs hstage.1
  | fail _ e hs => exact (hs.elim hstage.1 hstage.2.1).elim
  | turn _ hs => exact absurd hs hstage.2.1
  | finish _ b hs => exact (hs.elim hstage.2.1 fun ⟨t, hs⟩ => hstage.2.2 t hs).elim
  | cancel => exact ⟨h.unbound, h.stage⟩

end Callers

theorem Proc.Between.script {act : Action ι} {q : ι} {pr pr' : Proc ι}
    (h : Proc.Between act q (some pr) (some pr')) :
    pr'.identity = pr.identity ∧ pr'.script = pr.script := by
  cases h with
  | stay | turn | finish | cancel => exact ⟨rfl, rfl⟩
  | answer _ fork hs =>
      have hrec := pr.answer_record fork
      exact ⟨congrArg Prod.fst hrec, congrArg (fun r => r.2.1) hrec⟩
  | fail _ e hs =>
      have hrec := Proc.fail_record
        { pr with cancelled := pr.cancelled || decide (e = Exc.cancelled) } e
      exact ⟨congrArg Prod.fst hrec, congrArg (fun r => r.2.1) hrec⟩

/-! ## §5  One step -/

/-- The key `k` was idle when the processes in `old` were there and `n` creations had
been started. -/
structure Flight (k : Key) (n : ℕ) (old : ι → Prop) (st : State ι) : Prop where
  tasked : Tasked st
  locked : Locked st
  known : Known st
  fitting : Fitting st
  there : ∀ p, old p → ∃ pr, st.procs p = some pr
  counted : n ≤ st.shared.nextTask
  phase : Phase k n st.shared
  callers : ∀ p pr, st.procs p = some pr → pr.On k →
    (old p ∧ ∃ r, pr.stage = .ended r) ∨ (¬ old p ∧ Caller k n st.shared pr)
  popped : ∀ p pr t y, st.procs p = some pr → pr.stage = .aborting (some t) → n ≤ t →
    st.shared.tasks t ≠ some ⟨k, y⟩
  answered : ∀ t, st.shared.inflight k = some t → ∃ p pr, st.procs p = some pr ∧ pr.On k ∧
    ¬ old p ∧ pr.Answers k t

section Steps

variable {k : Key} {n : ℕ} {old : ι → Prop} {st st' : State ι} {act : Action ι}

/-- A process in a call on the key is a caller in its creation. -/
theorem Flight.call (h : Flight k n old st) {p : ι} {pr : Proc ι} {c : Call} {kk : Cont}
    (hp : st.procs p = some pr) (hs : pr.stage = .running c kk) (hid : pr.identity = k.1)
    (hc : c.context = some k.2) :
    pr.On k ∧ ¬ old p ∧ Caller k n st.shared pr ∧ kk = .created ∧
      (∃ pc, c = .create k.2 pc) ∧ pr.session = none := by
  have hfits := h.fitting.call hp hs
  have hon : pr.On k := ⟨hid, hfits.context hc⟩
  rcases h.callers p pr hp hon with ⟨-, r, hr⟩ | ⟨hnew, hcaller⟩
  · rw [hs] at hr
    cases hr
  · exact ⟨hon, hnew, hcaller, hcaller.calling.call hfits⟩

/-- Nothing cancels the creation. -/
theorem Flight.not_cancels (h : Flight k n old st) (hok : Undisturbed k n st act) {t : ℕ}
    {y : TaskState} (hn : n ≤ t) (ht : st.shared.tasks t = some ⟨k, y⟩) : ¬ st.Cancels act t := by
  rintro (⟨q, hhits, a, x, hq⟩ | ⟨p, pr, rfl, hp, hs⟩)
  · obtain ⟨y', hy', -⟩ := h.tasked.held q a x _ t hq rfl
    rw [ht] at hy'
    obtain rfl := (CreateTask.mk.inj (Option.some.inj hy')).1
    obtain ⟨pr, kk, hp, hid, hs⟩ := State.call_eq_some.mp hq
    exact hok.uncancelled q pr hhits hp ⟨hid, (h.fitting.call hp hs).context rfl⟩
  · exact h.popped p pr t y hp hs hn ht

/-- A step that starts no creation for the key keeps those there are. -/
theorem Flight.keepsTasks [DecidableEq ι] (h : Flight k n old st) (hok : Undisturbed k n st act)
    (hstep : st.step act = some st')
    (hnew : st'.shared.nextTask = st.shared.nextTask + 1 →
      st'.shared.tasks st.shared.nextTask ≠ some ⟨k, .pending⟩) :
    st.shared.KeepsTasks st'.shared k n where
  stay := by
    intro t y hn ht halive
    rcases State.step_task hstep t with hmove | ⟨rfl, -⟩
    · rw [ht] at hmove
      generalize hx : st'.shared.tasks t = z at hmove
      cases hmove with
      | stay => exact ⟨y, rfl, .inl rfl⟩
      | done _ s => exact ⟨_, rfl, .inr ⟨rfl, .inr ⟨s, rfl⟩⟩⟩
      | failed => exact ⟨_, rfl, .inr ⟨rfl, .inl rfl⟩⟩
      | stopped => exact absurd rfl halive
      | cancel _ hc => exact absurd hc (h.not_cancels hok hn ht)
    · have hlt := h.tasked.lt_nextTask ht
      omega
  old := by
    intro t y hn ht
    rcases State.step_task hstep t with hmove | ⟨rfl, hnext, k', hk'⟩
    · rw [ht] at hmove
      generalize hx : st.shared.tasks t = z at hmove
      cases hmove with
      | stay => exact ⟨y, rfl⟩
      | done | failed | stopped | cancel => exact ⟨_, rfl⟩
    · rw [ht] at hk'
      cases hk'
      exact absurd ht (hnew hnext)

/-- In a step in which no call moves the callers go on. -/
theorem Flight.callers_quiet (h : Flight k n old st) (hok : Undisturbed k n st act)
    (hquiet : st.Quiet act st') {q : ι} {pr' : Proc ι} (hq : st'.procs q = some pr')
    (hon : pr'.On k) :
    (old q ∧ ∃ r, pr'.stage = .ended r) ∨ (¬ old q ∧ Caller k n st'.shared pr') := by
  have hb := hquiet.procs q
  have hmono : ∀ s, st.shared.repo.bindings k = some s → st'.shared.repo.bindings k = some s :=
    fun s hs => by rw [hquiet.repo]; exact hs
  rw [hq] at hb
  cases hx : st.procs q with
  | none =>
      have hnew : ¬ old q := fun hold => by
        obtain ⟨pr, hpr⟩ := h.there q hold
        rw [hx] at hpr
        cases hpr
      rw [hx] at hb
      cases hb with
      | spawn a script hact =>
          obtain ⟨rfl, hcontext⟩ := hon
          exact .inr ⟨hnew, Caller.spawn (hok.creates q script hact hcontext)⟩
  | some pr =>
      rw [hx] at hb
      obtain ⟨hid, hscript⟩ := hb.script
      have hon₀ : pr.On k := ⟨hid ▸ hon.1, hscript ▸ hon.2⟩
      rcases h.callers q pr hx hon₀ with ⟨hold, r, hr⟩ | ⟨hnew, hcaller⟩
      · refine .inl ⟨hold, ?_⟩
        cases hb with
        | stay | cancel => exact ⟨r, hr⟩
        | answer _ fork hs | turn _ hs =>
            rw [hr] at hs
            cases hs
        | fail _ e hs =>
            rw [hr] at hs
            simp at hs
        | finish _ b hs =>
            rw [hr] at hs
            simp at hs
      · exact .inr ⟨hnew, (hcaller.between (h.fitting q pr hx) hb).mono hmono⟩

theorem Flight.answered_quiet (h : Flight k n old st) (hquiet : st.Quiet act st') {t : ℕ}
    (hin : st'.shared.inflight k = some t) :
    ∃ p pr, st'.procs p = some pr ∧ pr.On k ∧ ¬ old p ∧ pr.Answers k t := by
  rw [hquiet.inflight] at hin
  obtain ⟨p, pr, hp, hon, hnew, hanswers⟩ := h.answered t hin
  have hb := hquiet.procs p
  rw [hp] at hb
  cases hx : st'.procs p with
  | none =>
      rw [hx] at hb
      cases hb
  | some pr' =>
      rw [hx] at hb
      obtain ⟨hid, hscript⟩ := hb.script
      exact ⟨p, pr', hx, ⟨hid.trans hon.1, hscript ▸ hon.2⟩, hnew, hanswers.between hb⟩

end Steps

variable [DecidableEq ι]

theorem State.Acts.creates {st st' : State ι} {act : Action ι} {p : ι} {pr : Proc ι}
    {x : ContextId} {pc : CreatePc} {k : Cont} {done : Bool} {o : Outcome}
    (h : st.Acts act st' p pr (.create x pc) k done o)
    (hcalm : ∀ applied, act ≠ .interrupt p .cancelled applied) :
    pc.Moves pr.identity x st.shared st'.shared o := by
  rcases h.moves with ⟨-, -, hs⟩ | ⟨e, rfl, he⟩
  · exact Call.step_creates hs
  · rcases Call.interrupt_eq he with ⟨rfl, -, hσ⟩ | ⟨t, -, rfl, -⟩
    · have hsame : st.shared.SameTasks st'.shared := by
        rcases hσ with ⟨op, -, hσ⟩ | ⟨-, hσ⟩
        · rw [hσ]
          cases done <;> exact ⟨rfl, rfl, rfl⟩
        · rw [hσ]
          exact ⟨rfl, rfl, rfl⟩
      refine .cut pc e hsame ?_
      rcases h.bindings with hb | ⟨-, key, v, hw, hb⟩
      · exact .inl hb
      · cases pc with
        | bind t s o =>
            cases hw
            exact .inr ⟨t, s, o, rfl, hb⟩
        | lock | read | task t | relock t s | ownLock t s | owner t s | own t s => cases hw
    · exact absurd rfl (hcalm done)

section Acts

variable {k : Key} {n : ℕ} {old : ι → Prop} {st st' : State ι} {act : Action ι} {p : ι}
  {pr : Proc ι} {c : Call} {kk : Cont} {done : Bool} {o : Outcome}

/-- The call is about the binding of the key. -/
def Call.At (a : Identity) (c : Call) (k : Key) : Prop := a = k.1 ∧ c.context = some k.2

omit [DecidableEq ι] in
theorem Call.at_of_eq {a : Identity} {x : ContextId} (hc : c.context = some x)
    (h : k = (a, x)) : c.At a k := by
  subst h
  exact ⟨rfl, hc⟩

/-- A call elsewhere leaves the entry and the binding of the key. -/
theorem State.Acts.elsewhere (h : st.Acts act st' p pr c kk done o) (hc : ¬ c.At pr.identity k) :
    st'.shared.inflight k = st.shared.inflight k ∧
      st'.shared.repo.bindings k = st.shared.repo.bindings k ∧
      (st'.shared.nextTask = st.shared.nextTask + 1 →
        st'.shared.tasks st.shared.nextTask ≠ some ⟨k, .pending⟩) := by
  have hkey : ∀ x, c.context = some x → k ≠ (pr.identity, x) := fun x hx heq =>
    hc (Call.at_of_eq hx heq)
  refine ⟨?_, ?_, ?_⟩
  · cases h.flow with
    | other _ _ hs | join _ _ _ hs | carry _ _ _ _ _ _ hs | dead _ _ _ _ hs
    | cut _ _ _ _ _ _ hs => rw [hs.inflight]
    | start x _ hi => rw [hi, Function.update_of_ne (hkey x rfl)]
    | drop x pc t _ _ _ _ hi =>
        rw [hi]
        unfold Shared.popInflight
        split
        · exact Function.update_of_ne (hkey x rfl) ..
        · rfl
    | cancel x t _ hi => rw [hi]
    | pop x hi => rw [hi, Function.update_of_ne (hkey x rfl)]
  · rcases h.bindings with hb | ⟨-, key, v, hw, hb⟩
    · rw [hb]
    · have hne : k ≠ key := by
        cases c with
        | bind x s pc => cases pc <;> cases hw; exact hkey x rfl
        | create x pc => cases pc <;> cases hw; exact hkey x rfl
        | pop x pc => cases pc <;> cases hw; exact hkey x rfl
        | claim s pc | finalize s pc | release s pc => cases hw
      rw [hb, Function.update_of_ne hne]
  · intro hnext
    cases h.flow with
    | other _ _ hs | join _ _ _ hs | carry _ _ _ _ _ _ hs | dead _ _ _ _ hs
    | cut _ _ _ _ _ _ hs =>
        have := hs.nextTask
        omega
    | start x _ hi ht hn =>
        rw [ht, Function.update_self]
        intro heq
        exact hkey x rfl (CreateTask.mk.inj (Option.some.inj heq)).1.symm
    | drop _ _ _ _ _ _ _ _ _ hn | cancel _ _ _ _ _ hn | pop _ _ _ hn => omega

/-- The process that moved, with the script it had. -/
theorem State.Acts.moved_script (h : st.Acts act st' p pr c kk done o) {pr' : Proc ι}
    (hp : st'.procs p = some pr') : pr'.identity = pr.identity ∧ pr'.script = pr.script := by
  rw [h.procs, Function.update_self] at hp
  obtain rfl := Option.some.inj hp
  obtain ⟨hid, hscript, -⟩ := Proc.track_frame { pr with cancelled := pr.cancelled || act.cancels }
    st.shared.now c done o
  have hrec := Proc.next_record ({ pr with cancelled := pr.cancelled || act.cancels }.track
    st.shared.now c done o) kk o
  exact ⟨(congrArg Prod.fst hrec).trans hid, (congrArg (fun r => r.2.1) hrec).trans hscript⟩

/-- A caller on the key that moves is in its creation. -/
theorem Flight.not_on (h : Flight k n old st) (hact : st.Acts act st' p pr c kk done o)
    (hc : ¬ c.At pr.identity k) : ¬ pr.On k := by
  intro hon
  rcases h.callers p pr hact.proc hon with ⟨-, r, hr⟩ | ⟨-, hcaller⟩
  · have hs := hact.stage
    rw [hr] at hs
    cases hs
  · obtain ⟨-, ⟨pc, rfl⟩, -⟩ := hcaller.calling.call (h.fitting.call hact.proc hact.stage)
    exact hc ⟨hon.1, rfl⟩

theorem Flight.callers_elsewhere (h : Flight k n old st)
    (hact : st.Acts act st' p pr c kk done o) (hc : ¬ c.At pr.identity k) {q : ι} {pr' : Proc ι}
    (hq : st'.procs q = some pr') (hon : pr'.On k) :
    (old q ∧ ∃ r, pr'.stage = .ended r) ∨ (¬ old q ∧ Caller k n st'.shared pr') := by
  by_cases hqp : q = p
  · subst hqp
    obtain ⟨hid, hscript⟩ := hact.moved_script hq
    exact absurd ⟨hid ▸ hon.1, hscript ▸ hon.2⟩ (h.not_on hact hc)
  · rw [hact.others hqp] at hq
    have hb := (hact.elsewhere hc).2.1
    rcases h.callers q pr' hq hon with hold | ⟨hnew, hcaller⟩
    · exact .inl hold
    · exact .inr ⟨hnew, hcaller.mono fun s hs => hb.trans hs⟩

theorem Flight.answered_elsewhere (h : Flight k n old st)
    (hact : st.Acts act st' p pr c kk done o) (hc : ¬ c.At pr.identity k) {t : ℕ}
    (hin : st'.shared.inflight k = some t) :
    ∃ q pr', st'.procs q = some pr' ∧ pr'.On k ∧ ¬ old q ∧ pr'.Answers k t := by
  rw [(hact.elsewhere hc).1] at hin
  obtain ⟨q, qr, hq, hon, hnew, hanswers⟩ := h.answered t hin
  have hqp : q ≠ p := by
    rintro rfl
    obtain rfl := Option.some.inj (hq.symm.trans hact.proc)
    exact h.not_on hact hc hon
  exact ⟨q, qr, (hact.others hqp).trans hq, hon, hnew, hanswers⟩

end Acts

section Here

variable {k : Key} {n : ℕ} {old : ι → Prop} {st st' : State ι} {act : Action ι} {p : ι}
  {pr : Proc ι} {pc : CreatePc} {done : Bool} {o : Outcome}

/-- A caller's move in its creation. -/
structure State.Creates (k : Key) (n : ℕ) (old : ι → Prop) (st : State ι) (act : Action ι)
    (st' : State ι) (p : ι) (pr : Proc ι) (pc : CreatePc) (done : Bool) (o : Outcome) : Prop where
  step : st.step act = some st'
  acts : st.Acts act st' p pr (.create k.2 pc) .created done o
  on : pr.On k
  new : ¬ old p
  caller : Caller k n st.shared pr
  unbound : pr.session = none
  moves : pc.Moves k.1 k.2 st.shared st'.shared o

theorem Flight.creates (h : Flight k n old st) (hok : Undisturbed k n st act)
    (hstep : st.step act = some st') {c : Call} {kk : Cont}
    (hact : st.Acts act st' p pr c kk done o) (hc : c.At pr.identity k) :
    ∃ pc, State.Creates k n old st act st' p pr pc done o := by
  obtain ⟨hid, hcontext⟩ := hc
  obtain ⟨hon, hnew, hcaller, rfl, ⟨pc, rfl⟩, hnone⟩ := h.call hact.proc hact.stage hid hcontext
  refine ⟨pc, hstep, hact, hon, hnew, hcaller, hnone, ?_⟩
  rw [← hid]
  refine hact.creates ?_
  rintro applied rfl
  exact hok.uncancelled p pr (.inl ⟨applied, rfl⟩) hact.proc hon

/-- The task a caller holds counts, and is for the key. -/
theorem Flight.held (h : Flight k n old st) (hm : State.Creates k n old st act st' p pr pc done o)
    {t : ℕ} (ht : pc.taskId = some t) :
    n ≤ t ∧ ∃ y, st.shared.tasks t = some ⟨k, y⟩ ∧ ∀ s, pc.sessionId = some s → y = .done s := by
  have hcall := hm.acts.call_eq
  rw [hm.on.1] at hcall
  exact ⟨hm.caller.held pc _ t hm.acts.stage ht, h.tasked.held p k.1 k.2 pc t hcall ht⟩

/-- The session a caller carries is that of the creation. -/
theorem Flight.carried (h : Flight k n old st)
    (hm : State.Creates k n old st act st' p pr pc done o) {t : ℕ} {s : SessionId}
    (ht : pc.taskId = some t) (hs : pc.sessionId = some s) :
    n ≤ t ∧ st.shared.tasks t = some ⟨k, .done s⟩ := by
  obtain ⟨hn, y, hy, hdone⟩ := h.held hm ht
  rw [hdone s hs] at hy
  exact ⟨hn, hy⟩

/-- Nobody waits for a creation that failed or was cancelled. -/
theorem Flight.not_lost (h : Flight k n old st) (hok : Undisturbed k n st act)
    (hm : State.Creates k n old st act st' p pr pc done o) {t : ℕ} {key : Key} {y : TaskState}
    (htask : pc.taskId = some t) (ht : st.shared.tasks t = some ⟨key, y⟩) :
    ¬ (y = .failed ∨ y = .cancelled) := by
  obtain ⟨hn, y', hy', -⟩ := h.held hm htask
  rw [ht] at hy'
  obtain ⟨rfl, rfl⟩ := CreateTask.mk.inj (Option.some.inj hy')
  rintro (rfl | rfl)
  · exact hok.returns t hn ht
  · exact (h.phase.alive hn ht).2 rfl

/-- The session a caller carries is nobody else's. -/
theorem Flight.not_foreign (h : Flight k n old st) (hok : Undisturbed k n st act)
    (hm : State.Creates k n old st act st' p pr pc done o) {t : ℕ} {s : SessionId} {b : Identity}
    (htask : pc.taskId = some t) (hs : pc.sessionId = some s)
    (hown : st.shared.repo.owners s = some b) : b = k.1 := by
  obtain ⟨hn, ht⟩ := h.carried hm htask hs
  exact hok.unowned t s b hn ht hown

theorem Flight.phase_here (h : Flight k n old st) (hok : Undisturbed k n st act)
    (hm : State.Creates k n old st act st' p pr pc done o) : Phase k n st'.shared := by
  have hstay : ∀ s, st.shared.repo.owners s = some k.1 → st'.shared.repo.owners s = some k.1 :=
    fun s => owner_stays h.known hm.step
  have hsame : st.shared.SameTasks st'.shared →
      st'.shared.repo.bindings = st.shared.repo.bindings → Phase k n st'.shared := fun hs hb =>
    h.phase.frame (by rw [hs.inflight]) (by rw [hb]) hstay (.of_eq hs.tasks)
  cases hm.moves with
  | wait _ pc' _ _ _ hs hb => exact hsame hs hb
  | found s _ hs hb => exact hsame hs hb
  | join t _ hs hb => exact hsame hs hb
  | got t s key _ hs hb => exact hsame hs hb
  | start hnone hin hin' ht' hb' => exact h.phase.start h.counted hnone hin hin' ht' hb'
  | lost t key y e ht hdead => exact (h.not_lost hok hm rfl ht hdead).elim
  | turnedAway t s b hown hne => exact absurd (h.not_foreign hok hm rfl rfl hown) hne
  | bind t s hs hb =>
      obtain ⟨hn, ht⟩ := h.carried hm rfl rfl
      exact h.phase.bind hn ht hs.inflight hs.tasks hb hstay
  | rebind t s b hdrops hb =>
      obtain ⟨hn, ht⟩ := h.carried hm rfl rfl
      obtain ⟨hown, hforeign⟩ := h.known p _ _ hm.acts.call_eq
      simp only [foreign_eq_false, reduceCtorEq, Option.some.injEq, false_or] at hforeign
      rw [hforeign, hm.on.1] at hown
      exact h.phase.land hn ht hdrops (by rw [hb]; exact Function.update_self ..) (hstay s hown)
  | own t s hdrops hb hown =>
      obtain ⟨hn, ht⟩ := h.carried hm rfl rfl
      exact h.phase.land hn ht hdrops (by rw [hb]; exact hm.caller.own _ t s hm.acts.stage) hown
  | cut _ e hs hb =>
      rcases hb with hb | ⟨t, s, o', rfl, hb⟩
      · exact hsame hs hb
      · obtain ⟨hn, ht⟩ := h.carried hm rfl rfl
        exact h.phase.bind hn ht hs.inflight hs.tasks hb hstay

/-- A binding of the key stays. -/
theorem Flight.binding_stays (h : Flight k n old st)
    (hm : State.Creates k n old st act st' p pr pc done o) {s : SessionId}
    (hs : st.shared.repo.bindings k = some s) : st'.shared.repo.bindings k = some s := by
  have hwrite : ∀ t s', pc.taskId = some t → pc.sessionId = some s' →
      st'.shared.repo.bindings = Function.update st.shared.repo.bindings k (some s') →
      st'.shared.repo.bindings k = some s := by
    intro t s' htask hsession hb
    obtain ⟨hn, ht⟩ := h.carried hm htask hsession
    rw [hb, Function.update_self, h.phase.bound_eq hn ht hs]
  rcases hm.acts.bindings with hb | ⟨-, key, v, hw, hb⟩
  · rw [hb]
    exact hs
  · cases pc with
    | bind t s' o' =>
        rw [hm.on.1] at hw
        cases hw
        exact hwrite t s' rfl rfl hb
    | lock | read | task t | relock t s' | ownLock t s' | owner t s' | own t s' => cases hw

/-- The process after a move of its creation. -/
inductive Proc.Created (x : ContextId) (pr : Proc ι) : CreatePc → Outcome → Proc ι → Prop
  | next (pc pc' : CreatePc) (pr' : Proc ι) :
      pr'.session = pr.session → pr'.stage = .running (.create x pc') .created →
      Created x pr pc (.next (.create x pc')) pr'
  | returned (pc : CreatePc) (s : SessionId) (pr' : Proc ι) :
      pr'.session = some s → (∀ c kk, pr'.stage ≠ .running c kk) →
      Created x pr pc (.returned (.session s)) pr'
  | raised (pc : CreatePc) (e : Exc) (pr' : Proc ι) :
      pr'.session = pr.session → pr'.stage = .ended (.failed e) → Created x pr pc (.raised e) pr'

theorem State.Creates.proc (hm : State.Creates k n old st act st' p pr pc done o) {pr' : Proc ι}
    (hp : st'.procs p = some pr') : pr'.Calling k.2 ∧ pr'.On k ∧ pr.Created k.2 pc o pr' := by
  obtain ⟨hid, hscript⟩ := hm.acts.moved_script hp
  have hcreates : pr'.script.Creates k.2 := by
    rw [hscript]
    exact hm.caller.calling.creates
  have hon : pr'.On k := ⟨hid.trans hm.on.1, by rw [hscript]; exact hm.on.2⟩
  rw [hm.acts.procs, Function.update_self] at hp
  obtain rfl := Option.some.inj hp
  have hpending := hm.caller.calling.pending
  have hbound : ∀ s, (({ pr with cancelled := pr.cancelled || act.cancels }).bound s false).pending
      = false ∧ (({ pr with cancelled := pr.cancelled || act.cancels }).bound s false).session
        = some s ∧ ∀ c kk, (({ pr with cancelled := pr.cancelled || act.cancels }).bound s
          false).stage ≠ .running c kk := by
    intro s
    unfold Proc.bound
    rcases hm.caller.calling.creates with hs | hs <;> simp [hs, hpending]
  cases hm.moves with
  | wait _ pc' | join t | got t s | start | bind t s =>
      exact ⟨⟨hcreates, hpending⟩, hon, .next _ _ _ rfl rfl⟩
  | found s | rebind t s | own t s =>
      obtain ⟨hp, hs, hstage⟩ := hbound s
      exact ⟨⟨hcreates, hp⟩, hon, .returned _ s _ hs hstage⟩
  | lost | turnedAway | cut =>
      exact ⟨⟨hcreates, hpending⟩, hon, .raised _ _ _ rfl rfl⟩

theorem Flight.caller_here (h : Flight k n old st)
    (hm : State.Creates k n old st act st' p pr pc done o) {pr' : Proc ι}
    (hp : st'.procs p = some pr') : Caller k n st'.shared pr' := by
  obtain ⟨hcalling, -, hcreated⟩ := hm.proc hp
  have hmoves := hm.moves
  refine ⟨hcalling, ?_, ?_, ?_⟩
  · intro pc' kk t hs ht
    cases hcreated with
    | next _ pc'' _ hs' =>
        rw [hs] at hs'
        cases hs'
        cases hmoves with
        | wait _ _ htask => exact (h.held hm (htask.symm.trans ht)).1
        | start =>
            cases ht
            exact h.counted
        | join _ hin =>
            cases ht
            exact h.phase.entry hin
        | got _ s => exact (h.held hm ht).1
        | bind _ s => exact (h.held hm ht).1
    | returned _ s _ hstage => exact absurd hs (hstage _ _)
    | raised _ e _ hstage =>
        rw [hs] at hstage
        cases hstage
  · intro kk t s hs
    cases hcreated with
    | next _ pc'' _ hs' =>
        rw [hs] at hs'
        cases hs'
        cases hmoves with
        | wait _ _ _ _ hnot => exact absurd rfl (hnot t s)
        | bind _ _ _ hb =>
            rw [hb]
            exact Function.update_self ..
    | returned _ s _ hstage => exact absurd hs (hstage _ _)
    | raised _ e _ hstage =>
        rw [hs] at hstage
        cases hstage
  · intro s hs
    cases hcreated with
    | next _ _ hsession | raised _ _ hsession =>
        rw [hsession, hm.unbound] at hs
        cases hs
    | returned _ s' hsession =>
        rw [hsession] at hs
        obtain rfl := Option.some.inj hs
        cases hmoves with
        | found _ hfound _ hb =>
            rw [hb]
            exact hfound
        | rebind _ _ _ _ hb =>
            rw [hb]
            exact Function.update_self ..
        | own t _ _ hb =>
            rw [hb]
            exact hm.caller.own _ t _ hm.acts.stage

/-- Whoever answered for the entry does so still, or has just dropped it. -/
theorem Flight.answered_here (h : Flight k n old st) (hok : Undisturbed k n st act)
    (hm : State.Creates k n old st act st' p pr pc done o) {t : ℕ}
    (hin : st'.shared.inflight k = some t) :
    ∃ q pr', st'.procs q = some pr' ∧ pr'.On k ∧ ¬ old q ∧ pr'.Answers k t := by
  obtain ⟨pr', hp⟩ : ∃ pr', st'.procs p = some pr' := ⟨_, by
    rw [hm.acts.procs, Function.update_self]⟩
  obtain ⟨-, hon, hcreated⟩ := hm.proc hp
  have hmoves := hm.moves
  -- the answer of another process stays; this one answered by holding the task
  have hold : st.shared.inflight k = some t → (pc.taskId = some t → pr'.Answers k t) →
      ∃ q pr', st'.procs q = some pr' ∧ pr'.On k ∧ ¬ old q ∧ pr'.Answers k t := by
    intro hin₀ hself
    obtain ⟨q, qr, hq, hqon, hnew, hanswers⟩ := h.answered t hin₀
    by_cases hqp : q = p
    · subst hqp
      obtain rfl := Option.some.inj (hq.symm.trans hm.acts.proc)
      refine ⟨q, pr', hp, hon, hnew, hself ?_⟩
      rcases hanswers.stage with ⟨pc', hs, ht⟩ | ⟨e, hs⟩
      · rw [hm.acts.stage] at hs
        cases hs
        exact ht
      · rw [hm.acts.stage] at hs
        cases hs
    · exact ⟨q, qr, (hm.acts.others hqp).trans hq, hqon, hnew, hanswers⟩
  have hdropped : ∀ t₀, pc.taskId = some t₀ → st.shared.Drops st'.shared k t₀ →
      st.shared.inflight k = some t ∧ t₀ ≠ t := by
    intro t₀ ht₀ hdrops
    rw [hdrops.inflight] at hin
    unfold Shared.popInflight at hin
    split at hin
    · simp at hin
    · rename_i hne
      exact ⟨hin, fun heq => hne (heq ▸ hin)⟩
  cases hmoves with
  | wait _ pc' htask _ _ hs =>
      cases hcreated with
      | next _ _ hsession hstage =>
          refine hold (by rw [← hs.inflight]; exact hin) fun ht => ?_
          exact ⟨hsession.trans hm.unbound, .inl ⟨pc', hstage, htask.trans ht⟩⟩
  | found s _ hs => exact hold (by rw [← hs.inflight]; exact hin) fun ht => by cases ht
  | join t' _ hs => exact hold (by rw [← hs.inflight]; exact hin) fun ht => by cases ht
  | got t' s _ _ hs =>
      cases hcreated with
      | next _ _ hsession hstage =>
          refine hold (by rw [← hs.inflight]; exact hin) fun ht => ?_
          exact ⟨hsession.trans hm.unbound, .inl ⟨_, hstage, ht⟩⟩
  | bind t' s hs =>
      cases hcreated with
      | next _ _ hsession hstage =>
          refine hold (by rw [← hs.inflight]; exact hin) fun ht => ?_
          exact ⟨hsession.trans hm.unbound, .inl ⟨_, hstage, ht⟩⟩
  | start hnone hin₀ hin' =>
      cases hcreated with
      | next _ _ hsession hstage =>
          rw [hin', Function.update_self] at hin
          refine ⟨p, pr', hp, hon, hm.new, hsession.trans hm.unbound, .inl ⟨_, hstage, ?_⟩⟩
          exact hin
  | rebind t' s b hdrops =>
      obtain ⟨hin₀, hne⟩ := hdropped t' rfl hdrops
      exact hold hin₀ fun ht => absurd (Option.some.inj ht) hne
  | own t' s hdrops =>
      obtain ⟨hin₀, hne⟩ := hdropped t' rfl hdrops
      exact hold hin₀ fun ht => absurd (Option.some.inj ht) hne
  | lost t' key y e ht hdead => exact (h.not_lost hok hm rfl ht hdead).elim
  | turnedAway t' s b hown hne => exact absurd (h.not_foreign hok hm rfl rfl hown) hne
  | cut _ e hs =>
      cases hcreated with
      | raised _ _ hsession hstage =>
          refine hold (by rw [← hs.inflight]; exact hin) fun ht => ?_
          exact ⟨hsession.trans hm.unbound, .inr ⟨e, hstage⟩⟩

end Here

/-! ## §6  Every run -/

/-- A creation that was popped is not one for the key. -/
theorem Flight.popped_step {k : Key} {n : ℕ} {old : ι → Prop} {st st' : State ι} {act : Action ι}
    (h : Flight k n old st) (hstep : st.step act = some st') {q : ι} {qr : Proc ι} {t : ℕ}
    {y : TaskState} (hq : st'.procs q = some qr) (hs : qr.stage = .aborting (some t))
    (hn : n ≤ t) : st'.shared.tasks t ≠ some ⟨k, y⟩ := by
  intro ht
  have hkey : ∀ k' y', st.shared.tasks t = some ⟨k', y'⟩ → k' = k := by
    intro k' y' hy'
    obtain ⟨y'', hy'', -⟩ := h.tasked.task_stays hstep hy'
    rw [ht] at hy''
    exact (CreateTask.mk.inj (Option.some.inj hy'')).1.symm
  -- a cancellation that had popped the creation before
  have hold : ∀ qr₀, st.procs q = some qr₀ → qr₀.stage = .aborting (some t) → False := by
    intro qr₀ hq₀ hs₀
    obtain ⟨⟨⟨k', y'⟩, hct⟩, -⟩ := h.tasked.popped q qr₀ t hq₀ hs₀
    obtain rfl := hkey k' y' hct
    exact h.popped q qr₀ t y' hq₀ hs₀ hn hct
  rcases State.step_cases hstep with ⟨p, pr, c, kk, done, o, hact⟩ | hquiet
  · by_cases hqp : q = p
    · subst hqp
      rw [hact.procs, Function.update_self] at hq
      obtain rfl := Option.some.inj hq
      unfold Proc.moved at hs
      cases o with
      | next c' => cases hs
      | raised e => exact absurd hs Proc.raised_aborting
      | returned v =>
          obtain rfl := Proc.returned_aborting hs
          obtain ⟨-, -, op, -, -, hfin⟩ := hact.returned
          cases hfin with
          | popped x =>
              have hflow := hact.flow
              generalize ho : Outcome.returned (Value.task (some t)) = o at hflow
              cases hflow with
              | other _ _ _ _ _ hp => exact absurd ho.symm (hp x rfl _)
              | pop _ hi _ hnext =>
                  have hin : st.shared.inflight (pr.identity, x) = some t :=
                    (Value.task.inj (Outcome.returned.inj ho)).symm
                  obtain ⟨y', hy'⟩ := h.tasked.entry _ t hin
                  obtain rfl := hkey _ _ hy'
                  obtain ⟨-, -, -, -, ⟨pc, hpc⟩, -⟩ := h.call hact.proc hact.stage rfl rfl
                  cases hpc
    · rw [hact.others hqp] at hq
      exact hold qr hq hs
  · obtain ⟨qr₀, hq₀, hs₀⟩ := (hquiet.procs q).aborting hq hs
    exact hold qr₀ hq₀ hs₀

theorem State.step_procs {st st' : State ι} {act : Action ι} (h : st.step act = some st') {p : ι}
    {pr : Proc ι} (hp : st.procs p = some pr) : ∃ pr', st'.procs p = some pr' := by
  rcases State.step_cases h with ⟨q, qr, c, kk, done, o, hact⟩ | hquiet
  · by_cases hpq : p = q
    · subst hpq
      exact ⟨_, by rw [hact.procs, Function.update_self]⟩
    · exact ⟨pr, (hact.others hpq).trans hp⟩
  · have hb := hquiet.procs p
    rw [hp] at hb
    cases hx : st'.procs p with
    | some pr' => exact ⟨pr', rfl⟩
    | none =>
        rw [hx] at hb
        cases hb

theorem flight_step {k : Key} {n : ℕ} {old : ι → Prop} {st st' : State ι} {act : Action ι}
    (h : Flight k n old st) (hok : Undisturbed k n st act) (hstep : st.step act = some st') :
    Flight k n old st' := by
  have hstay : ∀ s, st.shared.repo.owners s = some k.1 → st'.shared.repo.owners s = some k.1 :=
    fun s => owner_stays h.known hstep
  suffices hkey : Phase k n st'.shared ∧
      (∀ p pr, st'.procs p = some pr → pr.On k →
        (old p ∧ ∃ r, pr.stage = .ended r) ∨ (¬ old p ∧ Caller k n st'.shared pr)) ∧
      ∀ t, st'.shared.inflight k = some t → ∃ p pr, st'.procs p = some pr ∧ pr.On k ∧ ¬ old p ∧
        pr.Answers k t by
    obtain ⟨hphase, hcallers, hanswered⟩ := hkey
    exact {
      tasked := tasked_step h.tasked hstep
      locked := locked_step h.locked hstep
      known := known_step h.locked h.known hstep
      fitting := fitting_step h.fitting hstep
      there := fun p hold => (h.there p hold).elim fun _ hp => State.step_procs hstep hp
      counted := Nat.le_trans h.counted (State.step_nextTask hstep)
      phase := hphase
      callers := hcallers
      popped := fun _ _ _ _ hp hs hn => h.popped_step hstep hp hs hn
      answered := hanswered }
  rcases State.step_cases hstep with ⟨p, pr, c, kk, done, o, hact⟩ | hquiet
  · by_cases hc : c.At pr.identity k
    · obtain ⟨pc, hm⟩ := h.creates hok hstep hact hc
      refine ⟨h.phase_here hok hm, ?_, fun t hin => h.answered_here hok hm hin⟩
      intro q qr hq hon
      by_cases hqp : q = p
      · subst hqp
        exact .inr ⟨hm.new, h.caller_here hm hq⟩
      · rw [hact.others hqp] at hq
        exact (h.callers q qr hq hon).imp_right fun ⟨hnew, hcaller⟩ =>
          ⟨hnew, hcaller.mono fun s hs => h.binding_stays hm hs⟩
    · obtain ⟨hin, hb, hnew⟩ := hact.elsewhere hc
      exact ⟨h.phase.frame hin hb hstay (h.keepsTasks hok hstep hnew),
        fun q qr hq hon => h.callers_elsewhere hact hc hq hon,
        fun t ht => h.answered_elsewhere hact hc ht⟩
  · have hnew : st'.shared.nextTask = st.shared.nextTask + 1 →
        st'.shared.tasks st.shared.nextTask ≠ some ⟨k, .pending⟩ := by
      intro hnext
      have := hquiet.nextTask
      omega
    exact ⟨h.phase.frame (by rw [hquiet.inflight]) (by rw [hquiet.repo]) hstay
        (h.keepsTasks hok hstep hnew),
      fun q qr hq hon => h.callers_quiet hok hquiet hq hon,
      fun t ht => h.answered_quiet hquiet ht⟩

/-- The process called `get_or_create_session` for the key since the state `st₀`. -/
def State.Called (st₀ st : State ι) (k : Key) (p : ι) (pr : Proc ι) : Prop :=
  st₀.procs p = none ∧ st.procs p = some pr ∧ pr.On k

theorem flight_of_runs {repo : Repository} {ttl : Int} {k : Key} {st₀ st : State ι}
    {acts : List (Action ι)} (h : Reachable repo ttl st₀) (hidle : Idle k st₀)
    (hrun : Machine.Runs State.step (Undisturbed k st₀.shared.nextTask) st₀ acts st) :
    Flight k st₀.shared.nextTask (fun p => st₀.procs p ≠ none) st := by
  refine hrun.invariant (fun s a t hs hok ht => flight_step hs hok ht) ?_
  have hfresh : ∀ t y, st₀.shared.nextTask ≤ t → st₀.shared.tasks t ≠ some ⟨k, y⟩ := by
    intro t y hn ht
    rw [h.tasked.fresh t hn] at ht
    cases ht
  exact {
    tasked := h.tasked
    locked := h.known.1
    known := h.known.2
    fitting := h.fitting
    there := fun p hp => Option.ne_none_iff_exists'.mp hp
    counted := Nat.le_refl _
    phase := .unstarted hidle.inflight hfresh hidle.owned
    callers := fun p pr hp hon => .inl ⟨by simp [hp], hidle.ended p pr hp hon⟩
    popped := fun _ _ t y _ _ hn => hfresh t y hn
    answered := fun t hin => by
      rw [hidle.inflight] at hin
      cases hin }

/-- **Single flight**: any number of callers for a key make at most one upstream
creation, they all get the same session, and when they all have it the session is bound
to the key and owned by its identity, and no creation is in flight. -/
theorem creation_is_single_flight {repo : Repository} {ttl : Int} {k : Key} {st₀ st : State ι}
    {acts : List (Action ι)} (h : Reachable repo ttl st₀) (hidle : Idle k st₀)
    (hrun : Machine.Runs State.step (Undisturbed k st₀.shared.nextTask) st₀ acts st) :
    (∀ t t' y y', st₀.shared.nextTask ≤ t → st₀.shared.nextTask ≤ t' →
      st.shared.tasks t = some ⟨k, y⟩ → st.shared.tasks t' = some ⟨k, y'⟩ → t = t') ∧
    (∀ p q pr qr s s', st₀.Called st k p pr → st₀.Called st k q qr →
      pr.session = some s → qr.session = some s' → s = s') ∧
    ((∃ p pr, st₀.Called st k p pr) →
      (∀ p pr, st₀.Called st k p pr → pr.session ≠ none) →
      ∃ s, (∀ p pr, st₀.Called st k p pr → pr.session = some s) ∧
        st.shared.repo.bindings k = some s ∧ st.shared.repo.owners s = some k.1 ∧
        st.shared.inflight k = none) := by
  have hf := flight_of_runs h hidle hrun
  have hbound : ∀ p pr s, st₀.Called st k p pr → pr.session = some s →
      st.shared.repo.bindings k = some s := by
    rintro p pr s ⟨hnone, hp, hon⟩ hs
    rcases hf.callers p pr hp hon with ⟨hold, -⟩ | ⟨-, hcaller⟩
    · exact absurd hnone hold
    · exact hcaller.returned s hs
  refine ⟨?_, ?_, ?_⟩
  · intro t t' y y' hn hn' ht ht'
    cases hf.phase with
    | unstarted _ hfresh _ => exact absurd ht (hfresh t y hn)
    | flying t₁ _ _ _ _ honly | landed t₁ _ _ _ _ honly =>
        rw [honly t y hn ht, honly t' y' hn' ht']
  · intro p q pr qr s s' hp hq hs hs'
    have heq := hbound p pr s hp hs
    rw [hbound q qr s' hq hs'] at heq
    exact (Option.some.inj heq).symm
  · rintro ⟨p, pr, hp⟩ hall
    obtain ⟨s, hs⟩ := Option.ne_none_iff_exists'.mp (hall p pr hp)
    have hbinding := hbound p pr s hp hs
    have hnone : st.shared.inflight k = none := by
      cases hin : st.shared.inflight k with
      | none => rfl
      | some t =>
          obtain ⟨q, qr, hq, hon, hnew, hanswers⟩ := hf.answered t hin
          exact absurd hanswers.unbound (hall q qr ⟨not_not.mp hnew, hq, hon⟩)
    refine ⟨s, ?_, hbinding, ?_, hnone⟩
    · intro q qr hq
      obtain ⟨s', hs'⟩ := Option.ne_none_iff_exists'.mp (hall q qr hq)
      have heq := hbound q qr s' hq hs'
      rw [hbinding] at heq
      rw [hs', heq]
    · cases hf.phase with
      | unstarted _ _ howned => exact howned s hbinding
      | flying t _ _ hin =>
          rw [hnone] at hin
          cases hin
      | landed t s' _ _ _ _ hb hown =>
          rw [hbinding] at hb
          rw [Option.some.inj hb]
          exact hown

def sharedKey : Key := (user1, "context-A")

/-- A check that is enough for `Undisturbed`: callers of the key start and go on, and the
one creation has not failed and its session is not another identity's. -/
def undisturbed (st : State ℕ) (act : Action ℕ) : Bool :=
  (match act with
    | .spawn _ _ script => script = .getOrCreate "context-A" none
    | .step _ | .taskReturn _ _ => true
    | _ => false) &&
  (st.shared.nextTask ≤ 1 &&
    match st.shared.tasks 0 with
    | some ⟨_, .done s⟩ => (st.shared.repo.owners s).all fun b => b = user1
    | some ⟨_, .failed⟩ => false
    | _ => true)

theorem undisturbed_ok (st : State ℕ) (act : Action ℕ) (ht : Tasked st)
    (h : undisturbed st act = true) : Undisturbed sharedKey 0 st act := by
  obtain ⟨hact, hstate⟩ := (Bool.and_eq_true _ _).mp h
  obtain ⟨hcount, htask⟩ := (Bool.and_eq_true _ _).mp hstate
  have honly : ∀ t ct, st.shared.tasks t = some ct → t = 0 := by
    intro t ct hct
    have hlt := ht.lt_nextTask hct
    have hle : st.shared.nextTask ≤ 1 := of_decide_eq_true hcount
    omega
  constructor
  · rintro p script rfl -
    exact .inl (of_decide_eq_true hact)
  · rintro p pr (⟨applied, rfl⟩ | ⟨q, qr, x, rfl, -⟩) <;> cases hact
  · intro t _ hfailed
    obtain rfl := honly t _ hfailed
    rw [hfailed] at htask
    cases htask
  · intro t s b _ hdone hown
    obtain rfl := honly t _ hdone
    rw [hdone] at htask
    have hall : (st.shared.repo.owners s).all (fun b => b = user1) = true := htask
    rw [hown] at hall
    exact of_decide_eq_true hall

/-- Two callers; the second comes while the first one's creation is in flight and is
served after the first has written the binding. -/
def concurrentCallers : List (Action ℕ) :=
  [.spawn 0 user1 (.getOrCreate "context-A" none), .step 0, .step 0,
    .spawn 1 user1 (.getOrCreate "context-A" none), .step 1, .step 1, .taskReturn 0 session1,
    .step 1, .step 0, .step 0, .step 0, .step 0, .step 0, .step 0,
    .step 1, .step 1, .step 1, .step 1]

def bothServed : State ℕ :=
  Machine.after (Machine.restrict State.step undisturbed)
    (State.initial ℕ Repository.empty 30) concurrentCallers (by rfl)

theorem bothServed_procs (p : ℕ) (pr : Proc ℕ) (h : bothServed.procs p = some pr) :
    pr.session = some session1 := by
  match p with
  | 0 | 1 =>
      obtain rfl := Option.some.inj h
      rfl
  | p + 2 => cases h

theorem concurrent_callers_share_session :
    ∃ s, (∀ p pr, (State.initial ℕ Repository.empty 30).Called bothServed sharedKey p pr →
        pr.session = some s) ∧
      bothServed.shared.repo.bindings sharedKey = some s ∧
      bothServed.shared.repo.owners s = some user1 ∧
      bothServed.shared.inflight sharedKey = none := by
  have hinit : Reachable Repository.empty 30 (State.initial ℕ Repository.empty 30) :=
    Machine.Reachable.refl _
  have hidle : Idle sharedKey (State.initial ℕ Repository.empty 30) := by
    refine ⟨rfl, ?_, ?_⟩
    · intro p pr hp
      cases hp
    · intro s hs
      cases hs
  have hrun : Machine.Runs State.step (Undisturbed sharedKey 0)
      (State.initial ℕ Repository.empty 30) concurrentCallers bothServed :=
    (Machine.runs_of_restrict undisturbed (fun _ _ h => h) (Machine.run_after (by rfl))).strengthen
      (fun s a t hs _ hstep => tasked_step hs hstep) undisturbed_ok hinit.tasked
  obtain ⟨-, -, hserved⟩ := creation_is_single_flight hinit hidle hrun
  refine hserved ⟨0, _, rfl, rfl, rfl, rfl⟩ ?_
  rintro p pr ⟨-, hp, -⟩
  rw [bothServed_procs p pr hp]
  simp

end OpencodeA2a.Session

