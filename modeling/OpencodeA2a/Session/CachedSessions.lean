import OpencodeA2a.Session.SingleFlight

/-!
# Who wrote what the cache returns

`get_or_create_session` looks a binding up under the key of its call, and joins a creation
in flight under that key. Over any run, what it finds there was written under that key, by
a process that works on that key.
-/

namespace OpencodeA2a.Session

variable {ι : Type}

/-! ## §1  Writes -/

/-- A write to the bindings table: the process, the key, and the session that is bound, or
none where the binding is taken away. -/
structure Write (ι : Type) where
  writer : ι
  key : Key
  value : Option SessionId

/-- The write that the call of `p` is about to make. -/
def State.writeOf (st : State ι) (p : ι) : Option (Write ι) :=
  match st.call p with
  | some (a, c) => (c.bindingWrite a).map fun w => ⟨p, w.1, w.2⟩
  | none => none

/-- What a step writes. -/
def State.written (st : State ι) : Action ι → List (Write ι)
  | .step p | .interrupt p _ true => (st.writeOf p).toList
  | .interrupt _ _ false | .spawn _ _ _ | .answer _ _ | .fail _ _ | .turn _ | .finish _
  | .abort _ | .taskReturn _ _ | .taskFail _ | .taskStop _ | .tick _ => []

def lastWrite (k : Key) (ws : List (Write ι)) : Option (Write ι) :=
  (ws.filter fun w => w.key = k).getLast?

theorem lastWrite_append (k : Key) (ws ws' : List (Write ι)) :
    lastWrite k (ws ++ ws') = (lastWrite k ws').or (lastWrite k ws) := by
  unfold lastWrite
  rw [List.filter_append, List.getLast?_append]

theorem lastWrite_mem {k : Key} {ws : List (Write ι)} {w : Write ι}
    (h : lastWrite k ws = some w) : w ∈ ws ∧ w.key = k := by
  have hmem := List.mem_filter.mp (List.mem_of_getLast? h)
  exact ⟨hmem.1, of_decide_eq_true hmem.2⟩

/-- What the writes make of the bindings. -/
def boundBy (bindings : Key → Option SessionId) (ws : List (Write ι)) (k : Key) :
    Option SessionId :=
  match lastWrite k ws with
  | some w => w.value
  | none => bindings k

theorem boundBy_append (bindings : Key → Option SessionId) (ws ws' : List (Write ι)) :
    boundBy bindings (ws ++ ws') = boundBy (boundBy bindings ws) ws' := by
  funext k
  unfold boundBy
  rw [lastWrite_append]
  cases lastWrite k ws' <;> rfl

theorem boundBy_singleton (bindings : Key → Option SessionId) (w : Write ι) :
    boundBy bindings [w] = Function.update bindings w.key w.value := by
  funext k
  unfold boundBy lastWrite
  by_cases hk : k = w.key
  · subst hk
    simp
  · rw [Function.update_of_ne hk, List.filter_cons_of_neg (by simpa using Ne.symm hk)]
    rfl

/-! ## §2  A step -/

variable [DecidableEq ι] {st st' : State ι} {act : Action ι}

section Acts

variable {p : ι} {pr : Proc ι} {c : Call} {k : Cont} {done : Bool} {o : Outcome}

theorem State.Acts.writeOf (h : st.Acts act st' p pr c k done o) :
    st.writeOf p = (c.bindingWrite pr.identity).map fun w => ⟨p, w.1, w.2⟩ := by
  unfold State.writeOf
  rw [h.call_eq]

theorem State.Acts.written (h : st.Acts act st' p pr c k done o) :
    st.written act = if done then (st.writeOf p).toList else [] := by
  rcases h.moves with ⟨rfl, rfl, -⟩ | ⟨e, rfl, -⟩
  · rfl
  · cases done <;> rfl

theorem State.Acts.writes (h : st.Acts act st' p pr c k done o) :
    st'.shared.repo.bindings = boundBy st.shared.repo.bindings (st.written act) := by
  have hnothing : boundBy st.shared.repo.bindings ([] : List (Write ι)) =
      st.shared.repo.bindings := rfl
  rw [h.written, h.repo]
  cases done with
  | false =>
      rw [if_neg Bool.false_ne_true, hnothing]
      cases c.await pr.identity <;> rfl
  | true =>
      rw [if_pos rfl, h.writeOf]
      cases hw : c.await pr.identity with
      | repo op =>
          have hperform := Call.perform_bindings hw st.shared.ttl st.shared.now st.shared.repo
          show (op.perform st.shared.ttl st.shared.now st.shared.repo).1.bindings = _
          rw [hperform]
          cases c.bindingWrite pr.identity with
          | none => rfl
          | some w => exact (boundBy_singleton _ (⟨p, w.1, w.2⟩ : Write ι)).symm
      | ownLock s | ctxLock x | task t =>
          have hnone : c.bindingWrite pr.identity = none := by
            by_contra hsome
            obtain ⟨x, hx⟩ := Option.ne_none_iff_exists'.mp hsome
            obtain ⟨op, hop⟩ := Call.bindingWrite_await hx
            rw [hw] at hop
            cases hop
          rw [hnone]
          rfl

end Acts

/-- The bindings change by the step's write. -/
theorem State.step_writes (h : st.step act = some st') :
    st'.shared.repo.bindings = boundBy st.shared.repo.bindings (st.written act) := by
  have hquiet : (∀ p pr c k done o, ¬ st.Acts act st' p pr c k done o) → st.written act = [] →
      st'.shared.repo.bindings = boundBy st.shared.repo.bindings (st.written act) := by
    intro hno hnone
    rcases State.step_cases h with ⟨p, pr, c, k, done, o, hact⟩ | hquiet
    · exact absurd hact (hno p pr c k done o)
    · rw [hnone, hquiet.repo]
      rfl
  cases act with
  | step p =>
      obtain ⟨pr, c, k, o, hact⟩ := State.acts_of_step h
      exact hact.writes
  | interrupt p e applied =>
      obtain ⟨pr, c, k, o, hact⟩ := State.acts_of_interrupt h
      exact hact.writes
  | spawn | answer | fail | turn | finish | abort | taskReturn | taskFail | taskStop | tick =>
      refine hquiet ?_ rfl
      intro p pr c k done o hact
      rcases hact.moves with ⟨hstep, -⟩ | ⟨e, hstep, -⟩ <;> cases hstep

omit [DecidableEq ι] in
theorem mem_written {w : Write ι} (hw : w ∈ st.written act) : ∃ p, st.writeOf p = some w := by
  unfold State.written at hw
  split at hw
  · exact ⟨_, Option.mem_toList.mp hw⟩
  · exact ⟨_, Option.mem_toList.mp hw⟩
  all_goals cases hw

/-- A process keeps its identity and its script. -/
theorem State.step_keeps (h : st.step act = some st') {q : ι} {qr : Proc ι}
    (hq : st.procs q = some qr) :
    ∃ qr', st'.procs q = some qr' ∧ qr'.identity = qr.identity ∧ qr'.script = qr.script := by
  rcases State.step_cases h with ⟨p, pr, c, k, done, o, hact⟩ | hquiet
  · by_cases hqp : q = p
    · subst hqp
      obtain rfl := Option.some.inj (hq.symm.trans hact.proc)
      have hafter := hact.procs
      have hself := congrFun hafter q
      rw [Function.update_self] at hself
      exact ⟨_, hself, hact.moved_script hself⟩
    · exact ⟨qr, (hact.others hqp).trans hq, rfl, rfl⟩
  · have hbetween := hquiet.procs q
    rw [hq] at hbetween
    cases hafter : st'.procs q with
    | none =>
        rw [hafter] at hbetween
        cases hbetween
    | some qr' =>
        rw [hafter] at hbetween
        exact ⟨qr', rfl, hbetween.script⟩

omit [DecidableEq ι] in
/-- A process works on the key it writes. -/
theorem writeOf_on (hf : Fitting st) {p : ι} {w : Write ι} (hw : st.writeOf p = some w) :
    w.writer = p ∧ ∃ pr, st.procs p = some pr ∧ pr.On w.key := by
  unfold State.writeOf at hw
  split at hw
  · rename_i a c hcall
    obtain ⟨⟨k, v⟩, hkey, rfl⟩ := Option.map_eq_some_iff.mp hw
    obtain ⟨pr, kk, hpr, rfl, hstage⟩ := State.call_eq_some.mp hcall
    have hcontext := (hf.call hpr hstage).context (x := k.2) ?_
    · refine ⟨rfl, pr, hpr, ?_, hcontext⟩
      cases c with
      | bind x s pc => cases pc <;> cases hkey; rfl
      | create x pc => cases pc <;> cases hkey; rfl
      | pop x pc => cases pc <;> cases hkey; rfl
      | claim s pc | finalize s pc | release s pc => cases hkey
    · cases c with
      | bind x s pc => cases pc <;> cases hkey; rfl
      | create x pc => cases pc <;> cases hkey; rfl
      | pop x pc => cases pc <;> cases hkey; rfl
      | claim s pc | finalize s pc | release s pc => cases hkey
  · cases hw

/-! ## §3  A run -/

variable {repo : Repository} {ttl : Int} {acts : List (Action ι)}

/-- All that a run writes. -/
def writesOf (repo : Repository) (ttl : Int) (acts : List (Action ι)) : List (Write ι) :=
  Machine.gather State.step State.written (State.initial ι repo ttl) acts

structure Traced (repo : Repository) (ws : List (Write ι)) (st : State ι) : Prop where
  fitting : Fitting st
  bindings : st.shared.repo.bindings = boundBy repo.bindings ws
  writers : ∀ w ∈ ws, ∃ pr, st.procs w.writer = some pr ∧ pr.On w.key

theorem Traced.step {ws : List (Write ι)} (h : Traced repo ws st) (hstep : st.step act = some st') :
    Traced repo (ws ++ st.written act) st' := by
  refine ⟨fitting_step h.fitting hstep, ?_, ?_⟩
  · rw [State.step_writes hstep, h.bindings, boundBy_append]
  · intro w hw
    have hbefore : ∃ pr, st.procs w.writer = some pr ∧ pr.On w.key := by
      rcases List.mem_append.mp hw with hw | hw
      · exact h.writers w hw
      · obtain ⟨p, hp⟩ := mem_written hw
        obtain ⟨rfl, pr, hpr, hon⟩ := writeOf_on h.fitting hp
        exact ⟨pr, hpr, hon⟩
    obtain ⟨pr, hpr, hon⟩ := hbefore
    obtain ⟨pr', hpr', hidentity, hscript⟩ := State.step_keeps hstep hpr
    refine ⟨pr', hpr', hidentity.trans hon.1, ?_⟩
    rw [hscript]
    exact hon.2

/-- The cache holds what was written last, by processes at work on the key. -/
theorem traced (hrun : Machine.run State.step (State.initial ι repo ttl) acts = some st) :
    Traced repo (writesOf repo ttl acts) st := by
  have hruns := Machine.runs_iff_run.mpr hrun
  have hinit : Reachable repo ttl (State.initial ι repo ttl) := Machine.Reachable.refl _
  have hstart : Traced repo [] (State.initial ι repo ttl) := by
    refine ⟨hinit.fitting, rfl, ?_⟩
    intro w hw
    cases hw
  exact hruns.gather_invariant (fun ws s a t h _ hstep => h.step hstep) hstart

/-! ## §4  Sharing -/

/-- `p` is about to read, in the cache, a session that `q` wrote there. -/
def State.Finds (st : State ι) (ws : List (Write ι)) (q p : ι) : Prop :=
  ∃ a x s w, st.call p = some (a, .create x .read) ∧
    st.shared.repo.bindings (a, x) = some s ∧ lastWrite (a, x) ws = some w ∧ w.writer = q

/-- `p` and `q` are served by one creation. -/
def State.Joins (st : State ι) (q p : ι) : Prop :=
  ∃ k k' t, st.Holds q k t ∧ st.Holds p k' t

omit [DecidableEq ι] in
theorem on_of_call (hf : Fitting st) {p : ι} {a : Identity} {x : ContextId} {pc : CreatePc}
    (hp : st.call p = some (a, .create x pc)) : ∃ pr, st.procs p = some pr ∧ pr.On (a, x) := by
  obtain ⟨pr, kk, hpr, hidentity, hstage⟩ := State.call_eq_some.mp hp
  exact ⟨pr, hpr, hidentity, (hf.call hpr hstage).context rfl⟩

omit [DecidableEq ι] in
theorem Proc.On.unique {k k' : Key} {pr : Proc ι} (h : pr.On k) (h' : pr.On k') : k = k' := by
  have hcontext := h.2.symm.trans h'.2
  exact Prod.ext (h.1.symm.trans h'.1) (Option.some.inj hcontext)

/-- Processes that share a session work on one key. -/
theorem one_key (hrun : Machine.run State.step (State.initial ι repo ttl) acts = some st)
    {p q : ι} {pr qr : Proc ι} (hp : st.procs p = some pr) (hq : st.procs q = some qr)
    (hshare : st.Finds (writesOf repo ttl acts) q p ∨ st.Joins q p) {k k' : Key} (hk : qr.On k)
    (hk' : pr.On k') : k = k' := by
  have htraced := traced hrun
  have hreachable : Reachable repo ttl st := ⟨acts, hrun⟩
  rcases hshare with ⟨a, x, s, w, hcall, -, hw, rfl⟩ | ⟨l, l', t, ⟨pc, hcallq, hpc⟩, pc', hcallp, hpc'⟩
  · obtain ⟨hmem, hkey⟩ := lastWrite_mem hw
    obtain ⟨qr', hqr, hon⟩ := htraced.writers w hmem
    obtain rfl := Option.some.inj (hq.symm.trans hqr)
    obtain ⟨pr', hpr, hon'⟩ := on_of_call htraced.fitting hcall
    obtain rfl := Option.some.inj (hp.symm.trans hpr)
    rw [hk.unique hon, hk'.unique hon', hkey]
  · -- a creation is started for one key
    obtain ⟨y, hy, -⟩ := hreachable.tasked.held q _ _ pc t hcallq hpc
    obtain ⟨y', hy', -⟩ := hreachable.tasked.held p _ _ pc' t hcallp hpc'
    obtain ⟨qr', hqr, hon⟩ := on_of_call htraced.fitting hcallq
    obtain rfl := Option.some.inj (hq.symm.trans hqr)
    obtain ⟨pr', hpr, hon'⟩ := on_of_call htraced.fitting hcallp
    obtain rfl := Option.some.inj (hp.symm.trans hpr)
    have htask := hy.symm.trans hy'
    rw [hk.unique hon, hk'.unique hon']
    exact (CreateTask.mk.inj (Option.some.inj htask)).1

end OpencodeA2a.Session
