import OpencodeA2a.Extension.Results
import OpencodeA2a.Extension.Sending
import OpencodeA2a.Session.Process

/-!
# The guard and the session manager

A request that changes a session is a process of the session manager: with a known caller, what
it awaits is what the script `guarded` awaits, call for call, and it ends as the process does.
The monitor is the process itself; each call has to be the one at which the process stands, and
the answer moves the process on.
-/

namespace OpencodeA2a.Extension

open OpencodeA2a.Stream (Text Json Mapping)
open OpencodeA2a.Effects
open OpencodeA2a.Jsonrpc
open OpencodeA2a.Session (Identity SessionId Proc Script Exc Value Outcome Stage)

/-! ## §1  The process of a handler -/

def identityText (a : Identity) : Text := a.name.toList

def sessionText (s : SessionId) : Text := s.value.toList

def sessionOfText? (t : Text) : Option SessionId :=
  if h : t = [] then none
  else some ⟨String.ofList t, fun he => h (by rw [← String.toList_ofList (l := t), he]; rfl)⟩

/-- The exception of a call of the session manager. -/
def Raised.toExc : Raised → Exc
  | .permissionError _ => .permission
  | .cancelled => .cancelled
  | _ => .error

/-- The exception of the process's own upstream call, or of what is made of its answer. -/
def Raised.upstreamExc : Raised → Exc
  | .cancelled => .cancelled
  | _ => .upstream

def callOutcome {α : Type} (value : α → Value) : Except Raised α → Outcome
  | .ok a => .returned (value a)
  | .error x => .raised x.toExc

variable {ι : Type}

/-- The process goes on with the outcome of its current call. -/
def resume (pr : Proc ι) (o : Outcome) : Proc ι :=
  match pr.stage with
  | .running _ k => pr.next k o
  | _ => pr

/-- What the answer of the upstream server comes to: the new session of a fork, or an exception. -/
abbrev Verdict : Type := Except Raised HttpResponse → Except Exc (Option SessionId)

/-- Every request is answered so. -/
def answeredBy (r : Except Raised HttpResponse) : Surroundings := fun _ e =>
  match e with
  | .send _ => r
  | _ => .error .cancelled

/-- The verdict of the code around the request. -/
def verdictOf {α : Type} (p : Action α) (forkOf : α → Option SessionId) : Verdict := fun r =>
  match p.outcome (answeredBy r) with
  | .ok x => .ok (forkOf x)
  | .error x => .error x.upstreamExc

/-- A process that is being watched. -/
def bracket (ι : Type) (verdict : Verdict) : Monitor Effect Effect.Answer Raised (Proc ι) where
  allows := fun pr e =>
    match e with
    | .claim a s => ∃ s' pc k, pr.stage = .running (.claim s' pc) k ∧
        a = identityText pr.identity ∧ s = sessionText s'
    | .finalize a s => ∃ s' pc k, pr.stage = .running (.finalize s' pc) k ∧
        a = identityText pr.identity ∧ s = sessionText s'
    | .release a s => ∃ s' pc k, pr.stage = .running (.release s' pc) k ∧
        a = identityText pr.identity ∧ s = sessionText s'
    | .send _ => pr.stage = .upstream
    | .audit _ _ _ => True
    | _ => False
  next := fun pr e r =>
    match e, r with
    | .claim _ _, r => resume pr (callOutcome Value.claimed r)
    | .finalize _ _, r => resume pr (callOutcome (fun _ => Value.unit) r)
    | .release _ _, r => resume pr (callOutcome (fun _ => Value.unit) r)
    | .send _, r =>
        match verdict r with
        | .ok fork => pr.answer fork
        | .error e => pr.fail e
    | _, _ => pr

/-! ## §2  The guard -/

/-- How a process ends beside the program that it is. -/
def Finished {β : Type} (r : Except Raised β) (pr : Proc ι) : Prop :=
  match r with
  | .ok _ => pr.stage = .ended (.returned .unit)
  | .error x => ∃ e, (e = .cancelled ↔ x = .cancelled) ∧ pr.stage = .ended (.failed e)

theorem toExc_eq_cancelled {x : Raised} : x.toExc = .cancelled ↔ x = .cancelled := by
  cases x <;> simp [Raised.toExc]

theorem upstreamExc_eq_cancelled {x : Raised} : x.upstreamExc = .cancelled ↔ x = .cancelled := by
  cases x <;> simp [Raised.upstreamExc]

section Guard

variable {a : Identity} {s : SessionId} {isFork : Bool} {verdict : Verdict} {g : SessionClaimGuard}
  {pr : Proc ι} {α β : Type}

/-- The process is that of a request under the guard of `s`. -/
structure Guards (a : Identity) (s : SessionId) (isFork : Bool) (pr : Proc ι) : Prop where
  identity : pr.identity = a
  script : pr.script = .guarded s isFork
  session : pr.session = some s

/-- The claim is released, and the exception goes on. -/
theorem meets_release (hg : Guards a s isFork pr) {pc : Session.ReleasePc}
    (hstage : pr.stage = .running (.release s pc) .released)
    (hopen : g.open? = some (identityText a, sessionText s)) {x : Raised}
    (hfailure : pr.failure = .cancelled ↔ x = .cancelled) :
    Meets (bracket ι verdict) Finished (Prog.andFinally (.raises x : Action β) g.exit) pr := by
  rw [meets_andFinally, meets_raises]
  unfold SessionClaimGuard.exit
  rw [hopen]
  dsimp only
  rw [meets_exceptException]
  refine meets_call.mpr ⟨⟨s, pc, .released, hstage, by rw [hg.identity], rfl⟩, fun r => ?_⟩
  have hnext : ∀ o, resume pr o = pr.next .released o := by
    intro o
    unfold resume
    rw [hstage]
  cases r with
  | ok u =>
      refine ⟨pr.failure, hfailure, ?_⟩
      show (resume pr _).stage = _
      rw [hnext]
      simp [callOutcome, Proc.next, Proc.returned, hg.script]
  | error y =>
      -- the guard swallows what the release raises, but no cancellation
      by_cases hy : y = .cancelled
      · subst hy
        refine ⟨.cancelled, Iff.rfl.trans ⟨fun _ => rfl, fun _ => rfl⟩, ?_⟩
        show (resume pr _).stage = _
        rw [hnext]
        simp [callOutcome, Proc.next, Proc.raised, hg.script, Raised.toExc]
      · dsimp only
        rw [if_neg hy]
        refine ⟨pr.failure, hfailure, ?_⟩
        show (resume pr _).stage = _
        rw [hnext]
        have hexc : y.toExc ≠ .cancelled := fun he => hy (toExc_eq_cancelled.mp he)
        simp [callOutcome, Proc.next, Proc.raised, hg.script, hexc]

/-- After the block a finalised guard has nothing to do, and neither has one without a claim. -/
theorem meets_exit_closed {M : Monitor Effect Effect.Answer Raised (Proc ι)} {p : Action β}
    {Q : Except Raised β → Proc ι → Prop} (hopen : g.open? = none) :
    Meets M Q (p.andFinally g.exit) pr ↔ Meets M Q p pr := by
  rw [meets_andFinally]
  unfold SessionClaimGuard.exit
  rw [hopen]
  exact Iff.rfl

/-- An exception within the block, where the process has gone into its release if its claim is
pending. -/
theorem meets_raised (hg : Guards a s isFork pr) (hpending : pr.pending = g.pending)
    (hclaims : g.claims? = some (identityText a, sessionText s)) (hfinalized : g.finalized = false)
    {e : Exc} {x : Raised} (hexc : e = .cancelled ↔ x = .cancelled) :
    Meets (bracket ι verdict) Finished (Prog.andFinally (.raises x : Action β) g.exit)
      (pr.fail e) := by
  -- without a pending claim neither the guard nor the process releases anything
  cases hp : g.pending with
  | true =>
      have hopen : g.open? = some (identityText a, sessionText s) := by
        simp [SessionClaimGuard.open?, hp, hfinalized, hclaims]
      have hfail : pr.fail e =
          { pr with failure := e, stage := .running (.release s .lock) .released } := by
        simp [Proc.fail, hpending, hp, hg.session]
      rw [hfail]
      have hguards : Guards a s isFork
          { pr with failure := e, stage := .running (.release s .lock) .released } :=
        ⟨hg.identity, hg.script, hg.session⟩
      exact meets_release hguards rfl hopen hexc
  | false =>
      have hopen : g.open? = none := by simp [SessionClaimGuard.open?, hp]
      refine (meets_exit_closed hopen).mpr ⟨e, hexc, ?_⟩
      simp [Proc.fail, hpending, hp]

/-- The block, from the upstream call on. -/
theorem meets_block (hg : Guards a s isFork pr) (hstage : pr.stage = .upstream)
    (hpending : pr.pending = g.pending)
    (hclaims : g.claims? = some (identityText a, sessionText s)) (hfinalized : g.finalized = false)
    {first : Action α} {request : HttpRequest} (hfirst : first.AsksOnce (.send request))
    {forkOf : α → Option SessionId} {second : α → Action β}
    (hsecond : ∀ env x (pr : Proc ι), first.outcome env = .ok x → Guards a s isFork pr →
      pr.pending = false → pr.fork = (if isFork then forkOf x else none) →
      Meets (bracket ι (verdictOf first forkOf)) Finished (second x) pr.guardFinalized) :
    Meets (bracket ι (verdictOf first forkOf)) Finished
      ((do return (← first, ← g.finalize) : Action (α × SessionClaimGuard)).ending >>= fun r =>
        match r with
        | .error x => Prog.andFinally (.raises x) g.exit
        | .ok (x, g) => (second x).andFinally g.exit) pr := by
  rw [meets_bind, meets_ending, meets_bind, hfirst.meets answeredBy fun _ _ => rfl]
  refine ⟨hstage, fun r => ?_⟩
  -- the verdict on the answer is what the program itself makes of it
  have hnext : (bracket ι (verdictOf first forkOf)).next pr (.send request) r =
      match first.outcome (answeredBy r) with
      | .ok x => pr.answer (forkOf x)
      | .error x => pr.fail x.upstreamExc := by
    show (match verdictOf first forkOf r with
      | .ok fork => pr.answer fork
      | .error e => pr.fail e) = _
    unfold verdictOf
    cases first.outcome (answeredBy r) <;> rfl
  rw [hnext]
  cases houtcome : first.outcome (answeredBy r) with
  | error x => exact meets_raised hg hpending hclaims hfinalized upstreamExc_eq_cancelled
  | ok x =>
      dsimp only
      rw [meets_bind]
      -- without a pending claim there is nothing to finalise, on either side
      cases hp : g.pending with
      | false =>
          have hopen : g.open? = none := by simp [SessionClaimGuard.open?, hp]
          have hanswer : pr.answer (forkOf x) =
              Proc.guardFinalized
                { pr with answered := true, fork := if isFork then forkOf x else none } := by
            simp [Proc.answer, hg.script, hg.session, hpending, hp]
          unfold SessionClaimGuard.finalize
          rw [hopen, hanswer]
          refine (meets_exit_closed hopen).mpr (hsecond _ x _ houtcome ?_ ?_ rfl)
          · exact ⟨hg.identity, hg.script, hg.session⟩
          · exact hpending.trans hp
      | true =>
          have hopen : g.open? = some (identityText a, sessionText s) := by
            simp [SessionClaimGuard.open?, hp, hfinalized, hclaims]
          have hanswer : pr.answer (forkOf x) =
              { pr with
                answered := true
                fork := if isFork then forkOf x else none
                stage := .running (.finalize s .lock) .finalized } := by
            simp [Proc.answer, hg.script, hg.session, hpending, hp]
          unfold SessionClaimGuard.finalize
          rw [hopen, hanswer]
          dsimp only
          rw [meets_bind]
          refine meets_call.mpr ⟨⟨s, .lock, .finalized, rfl, by rw [hg.identity], rfl⟩, fun r => ?_⟩
          set pr' : Proc ι :=
            { pr with
              answered := true
              fork := if isFork then forkOf x else none
              stage := .running (.finalize s .lock) .finalized } with hpr'
          have hguards : Guards a s isFork pr' := ⟨hg.identity, hg.script, hg.session⟩
          cases r with
          | error y =>
              have hraised : resume pr' (.raised y.toExc) = pr'.fail y.toExc := by
                simp [resume, hpr', Proc.next, Proc.raised, hg.script]
              show Meets _ _ _ (resume pr' (.raised y.toExc))
              rw [hraised]
              exact meets_raised hguards hpending hclaims hfinalized toExc_eq_cancelled
          | ok u =>
              have hreturned : resume pr' (.returned .unit) =
                  Proc.guardFinalized { pr' with pending := false } := by
                simp [resume, hpr', Proc.next, Proc.returned, Proc.finalized, hg.script]
              show Meets _ _ ((second x).andFinally _) (resume pr' (.returned .unit))
              have hclosed : SessionClaimGuard.open? { g with finalized := true } = none := by
                simp [SessionClaimGuard.open?]
              rw [hreturned]
              exact (meets_exit_closed hclosed).mpr
                (hsecond _ x _ houtcome ⟨hg.identity, hg.script, hg.session⟩ rfl rfl)

/-- A request under the guard is the process `guarded`, from the claim to the end. -/
theorem meets_within (hclaims : g.claims? = some (identityText a, sessionText s))
    (hfinalized : g.finalized = false) {first : Action α} {request : HttpRequest}
    (hfirst : first.AsksOnce (.send request)) {forkOf : α → Option SessionId}
    {second : α → Action β}
    (hsecond : ∀ env x (pr : Proc ι), first.outcome env = .ok x → Guards a s isFork pr →
      pr.pending = false → pr.fork = (if isFork then forkOf x else none) →
      Meets (bracket ι (verdictOf first forkOf)) Finished (second x) pr.guardFinalized) :
    Meets (bracket ι (verdictOf first forkOf)) Finished (g.within first second)
      (Proc.spawn a (.guarded s isFork)) := by
  unfold SessionClaimGuard.within SessionClaimGuard.enter
  rw [hclaims, meets_bind]
  dsimp only
  rw [meets_bind]
  refine meets_call.mpr ⟨⟨s, .lock, .claimed, rfl, rfl, rfl⟩, fun r => ?_⟩
  cases r with
  | error x => exact ⟨x.toExc, toExc_eq_cancelled, rfl⟩
  | ok pending =>
      have hguards : Guards a s isFork
          { (Proc.spawn (ι := ι) a (.guarded s isFork)) with
            session := some s, pending := pending, stage := .upstream } := ⟨rfl, rfl, rfl⟩
      exact meets_block (g := { g with pending }) hguards rfl rfl hclaims hfinalized hfirst hsecond

end Guard

/-! ## §3  The requests that change a session -/

/-- How a request ends beside the process: an error reply is a failed process, and only a
cancellation leaves the handler. -/
def Ended (r : Except Raised (Except RpcError Mapping)) (pr : Proc ι) : Prop :=
  match r with
  | .ok (.ok _) => pr.stage = .ended (.returned .unit)
  | .ok (.error _) => ∃ e, e ≠ .cancelled ∧ pr.stage = .ended (.failed e)
  | .error x => x = .cancelled ∧ pr.stage = .ended (.failed .cancelled)

theorem meets_perform {verdict : Verdict} {pr : Proc ι} {p : Action Mapping}
    {h : Raised → Action (Except RpcError Mapping)} (hp : Meets (bracket ι verdict) Finished p pr)
    (hh : ∀ (Q : Except Raised (Except RpcError Mapping) → Proc ι → Prop) (x : Raised) (pr : Proc ι),
      (∀ e, Q (.ok (.error e)) pr) → Meets (bracket ι verdict) Q (h x) pr) :
    Meets (bracket ι verdict) Ended (exceptException (do return .ok (← p)) h) pr := by
  rw [meets_exceptException, meets_bind]
  refine hp.mono ?_
  rintro (x | result) pr' hend
  · obtain ⟨e, hexc, hstage⟩ := hend
    dsimp only
    split
    · rename_i hx
      -- a cancellation passes the clause, and the process has failed with it
      rw [hexc.mpr hx] at hstage
      exact ⟨hx, hstage⟩
    · rename_i hx
      exact hh Ended x pr' fun _ => ⟨e, fun he => hx (hexc.mp he), hstage⟩
  · exact hend

section Methods

variable {a : Identity} {s : SessionId} {client : UpstreamClient} {routing : Routing}
  {sessionId : Text}

theorem meets_logShellAudit {verdict : Verdict} {method : ControlMethod} {identity : Option Text}
    {sessionId : Text} {outcome : AuditOutcome} {pr : Proc ι}
    {Q : Except Raised Unit → Proc ι → Prop} (h : Q (.ok ()) pr) :
    Meets (bracket ι verdict) Q (method.logShellAudit identity sessionId outcome) pr := by
  unfold ControlMethod.logShellAudit
  split
  · exact ⟨trivial, fun _ => h⟩
  · exact h

/-- What the answer of the upstream server comes to, for a method of session control. -/
def ControlMethod.verdict (client : UpstreamClient) (method : ControlMethod) (p : ControlPlan) :
    Verdict :=
  verdictOf (method.invoke client p) fun _ => none

def LifecycleOperation.verdict (client : UpstreamClient) (routing : Routing)
    (operation : LifecycleOperation) : Verdict :=
  verdictOf (operation.invoke client routing) fun outcome =>
    outcome.forkedSessionId.bind sessionOfText?

theorem claims?_eq (hs : sessionId = sessionText s) :
    ({ identity := some (identityText a), sessionId := some sessionId } : SessionClaimGuard).claims? =
      some (identityText a, sessionText s) := by
  have ha : identityText a ≠ [] := fun h => a.nonempty (String.toList_eq_nil_iff.mp h)
  have hs' : sessionText s ≠ [] := fun h => s.nonempty (String.toList_eq_nil_iff.mp h)
  subst hs
  unfold SessionClaimGuard.claims?
  rw [Option.filter_some_pos (by simpa using ha), Option.filter_some_pos (by simpa using hs')]

theorem ControlMethod.meets_perform (method : ControlMethod) (p : ControlPlan)
    (hs : p.sessionId = sessionText s) :
    Meets (bracket ι (method.verdict client p)) Ended
      (method.perform client (some (identityText a)) p) (Proc.spawn a (.guarded s false)) := by
  obtain ⟨request, hrequest⟩ : ∃ request, (method.invoke client p).AsksOnce (.send request) :=
    method.asksOnce_invoke p
  refine Extension.meets_perform ?_ fun Q x pr hQ => ?_
  · refine meets_within (claims?_eq hs) rfl hrequest fun _ result pr _ hg hpending hfork => ?_
    rw [meets_bind]
    refine meets_logShellAudit ?_
    simp [Proc.guardFinalized, hfork, Finished]
  · rw [meets_bind]
    exact meets_logShellAudit (hQ _)

/-- The session that a method of session lifecycle has made: only a fork makes one. -/
def LifecycleOperation.Forks (operation : LifecycleOperation) (outcome : LifecycleOutcome) : Prop :=
  ∀ t, outcome.forkedSessionId = some t → operation.method = .forkSession ∧ t ≠ []

theorem forks_of_none {operation : LifecycleOperation} {outcome : LifecycleOutcome}
    (h : outcome.forkedSessionId = none) : operation.Forks outcome := by
  intro t ht
  rw [h] at ht
  cases ht

theorem yields_summaryResult {operation : LifecycleOperation} (raw : Json) :
    Yields operation.Forks (summaryResult raw) :=
  Yields.bind fun _ => yields_returns.mpr (forks_of_none rfl)

theorem yields_itemResult {operation : LifecycleOperation} (endpoint kind : String)
    (item : Option Json) : Yields operation.Forks (itemResult endpoint kind item) := by
  cases item with
  | some item => exact yields_returns.mpr (forks_of_none rfl)
  | none => exact yields_raises _

theorem normalizeSessionSummary_ne_nil {raw : Json} {t : Text} {item : Mapping}
    (h : normalizeSessionSummary raw = .ok (t, item)) : t ≠ [] := by
  unfold normalizeSessionSummary at h
  obtain ⟨session, -, h⟩ := bind_eq_ok.mp h
  split at h
  · cases h
  · rename_i sessionId hid
    cases h
    obtain ⟨text, -, htext⟩ := Option.bind_eq_some_iff.mp hid
    obtain ⟨rfl, hblank⟩ := Stream.nonempty?_eq_some htext
    rwa [ne_eq, ← Text.blank_iff]

theorem LifecycleOperation.yields_invoke (operation : LifecycleOperation) :
    Yields operation.Forks (operation.invoke client routing) := by
  cases operation with
  | sessionStatus | getSessionChildren s | getSessionTodo s | getSessionDiff s messageId =>
      exact Yields.bind fun _ => Yields.bind fun _ => yields_returns.mpr (forks_of_none rfl)
  | getSession s | getSessionMessage s messageId =>
      exact Yields.bind fun _ => yields_itemResult _ _ _
  | shareSession s | unshareSession s | revertSession s request | unrevertSession s =>
      exact Yields.bind fun raw => yields_summaryResult raw
  | summarizeSession s request =>
      exact Yields.bind fun _ => yields_returns.mpr (forks_of_none rfl)
  | forkSession s request =>
      refine Yields.bind fun raw => ?_
      cases hsummary : normalizeSessionSummary raw with
      | error text => exact yields_raises _
      | ok summary =>
          refine yields_returns.mpr fun t ht => ⟨rfl, ?_⟩
          cases ht
          exact normalizeSessionSummary_ne_nil hsummary

theorem sessionOfText?_eq {t : Text} (ht : t ≠ []) :
    ∃ s, sessionOfText? t = some s ∧ sessionText s = t := by
  unfold sessionOfText?
  rw [dif_neg ht]
  exact ⟨_, rfl, String.toList_ofList⟩

/-- The new session of a fork is finalised as the process has it. -/
theorem meets_finalizeFork {verdict : Verdict} {pr : Proc ι} {fork : Option Text}
    (hidentity : pr.identity = a) (hfork : pr.fork = fork.bind sessionOfText?)
    (hne : ∀ t, fork = some t → t ≠ []) (result : Mapping) :
    Meets (bracket ι verdict) Finished
      (do
        LifecycleOperation.finalizeFork (some (identityText a)) fork
        return result) pr.guardFinalized := by
  have ha : identityText a ≠ [] := fun h => a.nonempty (String.toList_eq_nil_iff.mp h)
  cases fork with
  | none => simp [LifecycleOperation.finalizeFork, Proc.guardFinalized, hfork, Finished]
  | some t =>
      obtain ⟨s, hs, rfl⟩ := sessionOfText?_eq (hne t rfl)
      have hstage : pr.guardFinalized = { pr with stage := .running (.finalize s .lock) .forked } := by
        simp [Proc.guardFinalized, hfork, hs]
      rw [hstage, meets_bind]
      unfold LifecycleOperation.finalizeFork
      rw [Option.filter_some_pos (by simpa using ha)]
      refine meets_call.mpr ⟨⟨s, .lock, .forked, rfl, by rw [hidentity], rfl⟩, fun r => ?_⟩
      cases r with
      | ok u => rfl
      | error x => exact ⟨x.toExc, toExc_eq_cancelled, rfl⟩

theorem LifecycleOperation.meets_perform (operation : LifecycleOperation)
    (hmutating : operation.method.isMutating) (hs : operation.sessionId = some (sessionText s)) :
    Meets (bracket ι (operation.verdict client routing)) Ended
      (operation.perform client (some (identityText a)) routing)
      (Proc.spawn a (.guarded s (operation.method = .forkSession))) := by
  obtain ⟨request, hrequest⟩ : ∃ request, (operation.invoke client routing).AsksOnce (.send request) :=
    operation.asksOnce_invoke
  unfold LifecycleOperation.perform
  rw [if_pos hmutating, hs]
  refine Extension.meets_perform ?_ fun Q x pr hQ => hQ _
  refine meets_within (claims?_eq rfl) rfl hrequest fun env outcome pr hout hg hpending hfork => ?_
  have hyields : Yields operation.Forks (operation.invoke client routing) := operation.yields_invoke
  have hforks := hyields.outcome env hout
  refine meets_finalizeFork hg.identity ?_ (fun t ht => (hforks t ht).2) _
  rw [hfork]
  cases ht : outcome.forkedSessionId with
  | none => simp
  | some t => simp [(hforks t ht).1]

end Methods

/-! ## §4  The handlers -/

/-- The methods that work under the guard of a session. -/
def ExtensionMethod.isGuarded : ExtensionMethod → Bool
  | .control _ => true
  | .lifecycle m => m.isMutating
  | _ => false

def ExtensionMethod.isFork (m : ExtensionMethod) : Bool := m = .lifecycle .forkSession

/-- How a handler ends beside the process. -/
def Replied (r : Except Raised Reply) (pr : Proc ι) : Prop :=
  match r with
  | .ok (.error _ _) => ∃ e, e ≠ .cancelled ∧ pr.stage = .ended (.failed e)
  | .ok _ => pr.stage = .ended (.returned .unit)
  | .error x => x = .cancelled ∧ pr.stage = .ended (.failed .cancelled)

/-- The run is one of the process, call for call, and ends as the process does. -/
def Simulates (verdict : Verdict) (pr : Proc ι) (action : Action Reply) : Prop :=
  ∀ env : Surroundings,
    (bracket ι verdict).Accepts pr (action.events env) ∧
      Replied (action.outcome env) ((bracket ι verdict).after pr (action.events env))

/-- The request is rejected, and nothing is awaited but the audit log. -/
def Rejects (action : Action Reply) : Prop :=
  ∀ env : Surroundings,
    ((action.events env).Forall fun x => isAudit x.1 = true) ∧
      ∃ id e, action.outcome env = .ok (.error id e)

theorem rejects_of_meets {action : Action Reply}
    (h : Meets (Monitor.always fun e => isAudit e = true)
      (fun r _ => ∃ id e, r = .ok (.error id e)) action ()) : Rejects action := by
  intro env
  obtain ⟨haccepts, hended⟩ := h.play env []
  exact ⟨List.forall_iff_forall_mem.mpr (Monitor.accepts_always.mp haccepts), hended⟩

/-- The request ends before anything is awaited but the audit log: it is rejected, or the directory
resolver raises what its callers do not handle. -/
def TurnedDown (context : HandlerContext) (action : Action Reply) : Prop :=
  Rejects action ∨ ∃ x, context.FailsToResolve x ∧ action = .raises x

section Handlers

variable {a : Identity} {context : HandlerContext} {request : Request}

theorem meets_replied {verdict : Verdict} {pr : Proc ι} {p : Action (Except RpcError Mapping)}
    (h : Meets (bracket ι verdict) Ended p pr) (hp : Yields Sendable p) :
    Meets (bracket ι verdict) Replied (p >>= replyWith request) pr := by
  rw [meets_bind]
  refine (h.and_yields hp).mono ?_
  rintro (x | e | result) pr' ⟨hend, hsendable⟩
  · exact hend
  · exact hend
  · show Meets _ _ (request.success result) pr'
    rw [request.success_of_renderable (hsendable _ rfl result rfl)]
    show Replied (.ok (request.answer result)) pr'
    unfold Request.answer
    split <;> exact hend

theorem sessionText_of_requiredString {params : Mapping} {t : Text}
    (h : requiredString params "session_id" = .ok t) : ∃ s, sessionText s = t := by
  unfold requiredString at h
  split at h
  · rename_i t' ht
    cases h
    obtain ⟨text, -, htext⟩ := Option.bind_eq_some_iff.mp ht
    obtain ⟨rfl, hblank⟩ := Stream.nonempty?_eq_some htext
    obtain ⟨s, -, hs⟩ := sessionOfText?_eq (t := text.strip) (by rwa [ne_eq, ← Text.blank_iff])
    exact ⟨s, hs⟩
  · cases h

theorem turnedDown_refuse {refusal : Refusal}
    (h : ∀ x, refusal = .raised x → context.FailsToResolve x) :
    TurnedDown context (request.refuse refusal) := by
  cases refusal with
  | answered e => exact .inl (rejects_of_meets ⟨_, _, rfl⟩)
  | raised x => exact .inr ⟨x, h x rfl, rfl⟩

/-- A request of session control that passes its checks. -/
theorem ControlMethod.simulates_handle (method : ControlMethod)
    (hidentity : request.caller.userIdentity = some (identityText a)) :
    TurnedDown context (method.handle context request) ∨
      ∃ s verdict, requiredString request.params "session_id" = .ok (sessionText s) ∧
        Simulates verdict (Proc.spawn (ι := ι) a (.guarded s false))
          (method.handle context request) := by
  unfold ControlMethod.handle
  split
  · exact .inl (.inl (rejects_of_meets ⟨_, _, rfl⟩))
  · rename_i sessionId payload hread
    have hsession := requiredString_of_readTarget hread
    split
    · refine .inl (.inl (rejects_of_meets (meets_bind.mpr ?_)))
      unfold ControlMethod.logShellAudit
      split
      · exact ⟨rfl, fun _ => ⟨_, _, rfl⟩⟩
      · exact ⟨_, _, rfl⟩
    · split
      · rename_i refusal hplan
        exact .inl (turnedDown_refuse fun x hx => method.failsToResolve_of_plan (hx ▸ hplan))
      · rename_i p hplan
        obtain ⟨s, rfl⟩ := sessionText_of_requiredString hsession
        rw [hidentity]
        exact .inr ⟨s, _, hsession, fun env => Meets.play
          (meets_replied (method.meets_perform p (method.sessionId_of_plan hplan))
            (method.yields_perform p)) env []⟩

theorem LifecycleOperation.sessionId_of_isMutating {operation : LifecycleOperation}
    (h : operation.method.isMutating = true) : ∃ t, operation.sessionId = some t := by
  cases operation with
  | sessionStatus => cases h
  | getSession s | getSessionChildren s | getSessionTodo s | getSessionDiff s messageId
  | getSessionMessage s messageId | forkSession s payload | shareSession s | unshareSession s
  | summarizeSession s payload | revertSession s payload | unrevertSession s => exact ⟨s, rfl⟩

theorem LifecycleMethod.simulates_handle (method : LifecycleMethod)
    (hmutating : method.isMutating = true)
    (hidentity : request.caller.userIdentity = some (identityText a)) :
    TurnedDown context (method.handle context request) ∨
      ∃ s verdict, requiredString request.params "session_id" = .ok (sessionText s) ∧
        Simulates verdict (Proc.spawn (ι := ι) a (.guarded s (method = .forkSession)))
          (method.handle context request) := by
  unfold LifecycleMethod.handle
  split
  · rename_i refusal hplan
    exact .inl (turnedDown_refuse fun x hx => failsToResolve_of_plan (hx ▸ hplan))
  · rename_i operation routing hplan
    have hoperation := operation_of_plan hplan
    obtain rfl := method_of_operation hoperation
    obtain ⟨t, ht⟩ := operation.sessionId_of_isMutating hmutating
    have hsession := sessionId_of_operation hoperation ht
    obtain ⟨s, rfl⟩ := sessionText_of_requiredString hsession
    rw [hidentity]
    have hoperation : operation ≠ .sessionStatus := by
      rintro rfl
      cases hmutating
    exact .inr ⟨s, _, hsession, fun env => Meets.play
      (meets_replied (operation.meets_perform hmutating ht)
        (LifecycleOperation.yields_perform hoperation)) env []⟩

/-- A request that changes a session, of a known caller, is turned down outright, or it is the
process `guarded` of the session that it names. -/
theorem handle_simulates (D : Numerals) (m : ExtensionMethod) (hguarded : m.isGuarded = true)
    (hidentity : request.caller.userIdentity = some (identityText a)) :
    TurnedDown context (m.handle D context request) ∨
      ∃ s verdict, requiredString request.params "session_id" = .ok (sessionText s) ∧
        Simulates verdict (Proc.spawn (ι := ι) a (.guarded s m.isFork))
          (m.handle D context request) := by
  cases m with
  | control m => exact m.simulates_handle hidentity
  | lifecycle m =>
      have hfork : (ExtensionMethod.lifecycle m).isFork = decide (m = .forkSession) := by
        simp [ExtensionMethod.isFork]
      rw [hfork]
      exact m.simulates_handle hguarded hidentity
  | query | discovery | interruptQuery | workspace | callback => cases hguarded

theorem handle_simulates_fork :
    TurnedDown { client := ⟨none⟩, directoryResolver := fun _ => .ok "/srv".toList }
      ((ExtensionMethod.lifecycle .forkSession).handle .asciiOnly
        { client := ⟨none⟩, directoryResolver := fun _ => .ok "/srv".toList }
        { id := none, params := [("session_id".toList, .str "s1".toList)]
          caller := ⟨some "alice".toList, none, []⟩ }) ∨
      ∃ s verdict, requiredString [("session_id".toList, .str "s1".toList)] "session_id" =
          .ok (sessionText s) ∧
        Simulates verdict (Proc.spawn (ι := ℕ) ⟨"alice", by decide⟩ (.guarded s true))
          ((ExtensionMethod.lifecycle .forkSession).handle .asciiOnly
            { client := ⟨none⟩, directoryResolver := fun _ => .ok "/srv".toList }
            { id := none, params := [("session_id".toList, .str "s1".toList)]
              caller := ⟨some "alice".toList, none, []⟩ }) :=
  handle_simulates .asciiOnly (.lifecycle .forkSession) rfl rfl

end Handlers

end OpencodeA2a.Extension
