import OpencodeA2a.Jsonrpc.InterruptCallbacks
import OpencodeA2a.Store.InterruptLookups

/-!
# Who may answer an interrupt

One callback from its parameters to its answer, with the tracker that it uses. What
`handle_interrupt_callback_request` does is summed up once, in `Handled`; the rest are
readings of that.
-/

namespace OpencodeA2a.Jsonrpc

open OpencodeA2a.Stream (Text Json Mapping)
open OpencodeA2a.Store

/-! ## §1  The tracker -/

/-- What `BoundInterruptRequestTracker` takes from its client, as far as callbacks use it; a
client need not have any of it. -/
structure InterruptClient (σ : Type) where
  resolveRequest : Option (ℤ → Text → σ →
    Except DbError (σ × InterruptStatus × Option InterruptRequestBinding)) := none
  resolveSession : Option (ℤ → Text → σ → Except DbError (σ × Option Text)) := none
  discardRequest : Option (Text → σ → Except DbError σ) := none

variable {σ : Type}

/-- `BoundInterruptRequestTracker.resolve_request` -/
def InterruptClient.resolve (client : InterruptClient σ) (now : ℤ) (requestId : Text) (s : σ) :
    Except DbError (σ × InterruptStatus × Option InterruptRequestBinding) :=
  match client.resolveRequest with
  | some resolve => resolve now requestId s
  | none =>
      match client.resolveSession with
      | some resolve => do
          let (s, sessionId) ← resolve now requestId s
          -- a session is as good as a binding that says nothing
          return (s, if sessionId.any (fun t => t ≠ []) then .active else .missing, none)
      | none => .ok (s, .missing, none)

/-- `BoundInterruptRequestTracker.discard_request` -/
def InterruptClient.discard (client : InterruptClient σ) (requestId : Text) (s : σ) :
    Except DbError σ :=
  match client.discardRequest with
  | some discard => discard requestId s
  | none => .ok s

/-- `OpencodeUpstreamClient.resolve_interrupt_request` -/
def resolveInterruptRequest (now : ℤ) (requestId : Text) (repository : InterruptRepository) :
    Except DbError (InterruptRepository × InterruptStatus × Option InterruptRequestBinding) :=
  if requestId.strip = [] then .ok (repository, .missing, none)
  else repository.resolve now requestId.strip

def opencodeUpstreamClient : InterruptClient InterruptRepository where
  resolveRequest := some resolveInterruptRequest
  resolveSession := some fun now requestId repository => do
    let (repository, status, binding) ← resolveInterruptRequest now requestId repository
    return (repository, if status = .active then binding.map (·.sessionId) else none)
  discardRequest := some fun requestId repository =>
    if requestId.strip = [] then .ok repository else repository.discard requestId.strip

/-! ## §2  The handler -/

/-- What has become of a callback; `answer` is an error when an exception leaves the
handler. -/
structure Handled (σ : Type) where
  state : σ
  /-- the call that upstream has got -/
  called : Option UpstreamCall := none
  /-- whether the handler has called `discard_request` -/
  discarded : Bool := false
  answer : Except DbError CallbackAnswer

/-- From the answer of upstream on. -/
def afterUpstream (client : InterruptClient σ) (request : CallbackRequest) (requestId : Text)
    (call : UpstreamCall) (outcome : UpstreamOutcome) (s : σ) : Handled σ :=
  match outcome.afterCall requestId with
  | .answer e => { state := s, called := some call, answer := .ok (.error e) }
  | .discard =>
      match client.discard requestId s with
      | .ok s =>
          { state := s, called := some call, discarded := true
            answer := .ok (request.successAnswer requestId) }
      | .error e =>
          { state := s, called := some call, discarded := true
            answer := .ok (.error (.internal (.database e))) }
  | .discardNotFound =>
      match client.discard requestId s with
      | .ok s =>
          { state := s, called := some call, discarded := true
            answer := .ok (.error (interruptNotFoundError errInterruptNotFound requestId false)) }
      | .error e => { state := s, called := some call, discarded := true, answer := .error e }

/-- `handle_interrupt_callback_request` -/
def handleInterruptCallbackRequest (client : InterruptClient σ)
    (upstream : UpstreamCall → UpstreamOutcome) (request : CallbackRequest) (now : ℤ) (s : σ) :
    Handled σ :=
  match request.parse with
  | .error e => { state := s, answer := .ok (.error e) }
  | .ok (requestId, routing) =>
      match client.resolve now requestId s with
      | .error e => { state := s, answer := .error e }
      | .ok (s, status, binding) =>
          match request.proceed requestId routing status binding with
          | .error e => { state := s, answer := .ok (.error e) }
          | .ok call => afterUpstream client request requestId call (upstream call) s

/-! ## §3  What the checks amount to -/

/-- Upstream has taken the reply, or does not know the request. -/
def UpstreamOutcome.settles : UpstreamOutcome → Bool
  | .returned _ => true
  | .httpStatusError status => status = 404
  | .valueError _ | .httpError | .concurrencyLimit _ | .otherError _ => false

/-- Where both are known they are the same. -/
def Agree (caller owner : Option Text) : Prop :=
  ∀ c o, caller = some c → owner = some o → c ≠ [] → o ≠ [] → o = c

/-- The binding is of the method's type and not another's. -/
structure CallbackRequest.Matches (request : CallbackRequest) (b : InterruptRequestBinding) :
    Prop where
  interruptType : b.interruptType = request.expectedInterruptType
  identity : Agree request.userIdentity b.identity
  credential : Agree request.userCredentialId b.credentialId

/-- The parameters are those of a call. -/
structure CallbackRequest.Valid (request : CallbackRequest) (requestId : Text) (routing : Routing)
    (call : UpstreamCall) : Prop where
  parsed : request.parse = .ok (requestId, routing)
  known : unknownFields request.params request.allowedFields = []
  read : request.upstreamCall requestId routing = .ok call

theorem agree_of_not_mismatch {caller owner : Option Text}
    (h : ¬ CallbackRequest.mismatch caller owner = true) : Agree caller owner := by
  rintro c o rfl rfl hc ho
  by_contra hne
  apply h
  simp [CallbackRequest.mismatch, hc, ho, hne]

theorem matches_of_checkResolution {request : CallbackRequest} {requestId : Text}
    {status : InterruptStatus} {binding : Option InterruptRequestBinding}
    (h : request.checkResolution requestId status binding = .ok ()) :
    status = .active ∧ ∀ b, binding = some b → request.Matches b := by
  cases status with
  | expired | missing => cases h
  | active =>
      refine ⟨rfl, ?_⟩
      rintro b rfl
      simp only [CallbackRequest.checkResolution] at h
      split at h
      · cases h
      · rename_i htype
        split at h
        · cases h
        · rename_i hidentity
          split at h
          · cases h
          · rename_i hcredential
            exact ⟨not_not.mp htype, agree_of_not_mismatch hidentity,
              agree_of_not_mismatch hcredential⟩

theorem proceed_eq_ok {request : CallbackRequest} {requestId : Text} {routing : Routing}
    {status : InterruptStatus} {binding : Option InterruptRequestBinding} {call : UpstreamCall}
    (h : request.proceed requestId routing status binding = .ok call) :
    request.checkResolution requestId status binding = .ok () ∧
      unknownFields request.params request.allowedFields = [] ∧
      request.upstreamCall requestId routing = .ok call := by
  unfold CallbackRequest.proceed at h
  obtain ⟨⟨⟩, hcheck, h⟩ := bind_eq_ok.mp h
  simp only at h
  split at h
  · cases h
  · rename_i hknown
    rw [Bool.not_eq_true, Bool.not_eq_false', List.isEmpty_iff] at hknown
    split at h
    · rename_i call' hcall
      cases h
      exact ⟨hcheck, hknown, hcall⟩
    · cases h

/-! ## §4  What a callback does -/

/-- A callback in five cases: it ends before the lookup, in it, after it, with the answer of
upstream, or after a discard. -/
inductive Handled.Sums (client : InterruptClient σ) (upstream : UpstreamCall → UpstreamOutcome)
    (request : CallbackRequest) (now : ℤ) (s : σ) : Handled σ → Prop
  | untouched {answer : Except DbError CallbackAnswer} :
      Sums client upstream request now s { state := s, answer }
  | refused {requestId : Text} {s' : σ} {status : InterruptStatus}
      {binding : Option InterruptRequestBinding} {answer : Except DbError CallbackAnswer}
      (hresolve : client.resolve now requestId s = .ok (s', status, binding)) :
      Sums client upstream request now s { state := s', answer }
  | failed {requestId : Text} {routing : Routing} {call : UpstreamCall} {s' : σ}
      {binding : Option InterruptRequestBinding} {answer : Except DbError CallbackAnswer}
      (hvalid : request.Valid requestId routing call)
      (hresolve : client.resolve now requestId s = .ok (s', .active, binding))
      (hmatches : ∀ b, binding = some b → request.Matches b) :
      Sums client upstream request now s { state := s', called := some call, answer }
  | settled {requestId : Text} {routing : Routing} {call : UpstreamCall} {s' t : σ}
      {binding : Option InterruptRequestBinding} {answer : Except DbError CallbackAnswer}
      (hvalid : request.Valid requestId routing call)
      (hresolve : client.resolve now requestId s = .ok (s', .active, binding))
      (hmatches : ∀ b, binding = some b → request.Matches b)
      (hsettles : (upstream call).settles = true) :
      Sums client upstream request now s
        { state := t, called := some call, discarded := true, answer }

theorem UpstreamOutcome.settles_of_discard {outcome : UpstreamOutcome} (requestId : Text)
    (h : ∀ e, outcome.afterCall requestId ≠ .answer e) : outcome.settles = true := by
  cases outcome with
  | returned value => rfl
  | httpStatusError status =>
      by_cases hstatus : status = 404
      · exact decide_eq_true hstatus
      · exact absurd (if_neg hstatus) (h _)
  | valueError | httpError | concurrencyLimit | otherError => exact absurd rfl (h _)

variable {client : InterruptClient σ} {upstream : UpstreamCall → UpstreamOutcome}
  {request : CallbackRequest} {now : ℤ} {s : σ}

theorem handled_sums (client : InterruptClient σ) (upstream : UpstreamCall → UpstreamOutcome)
    (request : CallbackRequest) (now : ℤ) (s : σ) : Handled.Sums client upstream request now s
      (handleInterruptCallbackRequest client upstream request now s) := by
  unfold handleInterruptCallbackRequest
  split
  · exact .untouched
  · rename_i requestId routing hparse
    split
    · exact .untouched
    · rename_i s' status binding hresolve
      split
      · exact .refused hresolve
      · rename_i call hproceed
        obtain ⟨hcheck, hknown, hread⟩ := proceed_eq_ok hproceed
        obtain ⟨rfl, hmatches⟩ := matches_of_checkResolution hcheck
        have hvalid : request.Valid requestId routing call := ⟨hparse, hknown, hread⟩
        unfold afterUpstream
        split
        · exact .failed hvalid hresolve hmatches
        -- the two branches that discard
        all_goals
          rename_i hafter
          have hsettles : (upstream call).settles = true := by
            refine UpstreamOutcome.settles_of_discard requestId ?_
            intro e he
            rw [he] at hafter
            cases hafter
          split <;> exact .settled hvalid hresolve hmatches hsettles

/-- Upstream is called with valid parameters, for a request that is active, and by its owner
where owner and caller are known. -/
theorem Handled.Sums.called {out : Handled σ} (h : Sums client upstream request now s out)
    {call : UpstreamCall} (hcalled : out.called = some call) :
    ∃ requestId routing s' binding, request.Valid requestId routing call ∧
      client.resolve now requestId s = .ok (s', .active, binding) ∧
      ∀ b, binding = some b → request.Matches b := by
  cases h with
  | untouched | refused => cases hcalled
  | failed hvalid hresolve hmatches | settled hvalid hresolve hmatches =>
      cases hcalled
      exact ⟨_, _, _, _, hvalid, hresolve, hmatches⟩

theorem Handled.Sums.discarded {out : Handled σ} (h : Sums client upstream request now s out)
    (hdiscarded : out.discarded = true) :
    ∃ call, out.called = some call ∧ (upstream call).settles = true := by
  cases h with
  | untouched | refused | failed => cases hdiscarded
  | settled _ _ _ hsettles => exact ⟨_, rfl, hsettles⟩

/-- Without a discard nothing but the lookup has touched the client's state. -/
theorem Handled.Sums.state {out : Handled σ} (h : Sums client upstream request now s out)
    (hdiscarded : out.discarded = false) : out.state = s ∨
      ∃ requestId status binding,
        client.resolve now requestId s = .ok (out.state, status, binding) := by
  cases h with
  | untouched => exact Or.inl rfl
  | refused hresolve => exact Or.inr ⟨_, _, _, hresolve⟩
  | failed _ hresolve => exact Or.inr ⟨_, _, _, hresolve⟩
  | settled => cases hdiscarded

theorem resolveInterruptRequest_binding {repository : InterruptRepository}
    (h : repository.Sound) (now : ℤ) (requestId : Text) :
    ∃ next status binding,
      resolveInterruptRequest now requestId repository = .ok (next, status, binding) ∧
      (∀ r, Kept now (repository.binding? r) (next.binding? r)) ∧
      (status = .active → ∃ b, binding = some b ∧
        repository.binding? requestId.strip = some b ∧ now < b.expiresAt) := by
  unfold resolveInterruptRequest
  split
  · exact ⟨_, _, _, rfl, fun _ => .rfl, by rintro ⟨⟩⟩
  · obtain ⟨next, status, binding, hok, -, hkept, hactive⟩ :=
      repository.resolve_binding h now requestId.strip
    exact ⟨next, status, binding, hok, hkept, hactive⟩

/-! ## §5  Authorised and atomic -/

/-- Upstream is called only with valid parameters, for an active request whose binding, if the
client has one, matches; with the bindings of the repository it always has one, and that has
not expired. A callback discards only after upstream has taken the reply or answered 404;
otherwise every binding is left as it is, unless the lookup found that it had expired. -/
theorem callbacks_authorised (upstream : UpstreamCall → UpstreamOutcome)
    (request : CallbackRequest) (now : ℤ) :
    (∀ (client : InterruptClient σ) (s : σ) (call : UpstreamCall),
      (handleInterruptCallbackRequest client upstream request now s).called = some call →
      ∃ requestId routing s' binding, request.Valid requestId routing call ∧
        client.resolve now requestId s = .ok (s', .active, binding) ∧
        ∀ b, binding = some b → request.Matches b) ∧
    (∀ repository : InterruptRepository, repository.Sound → ∀ call : UpstreamCall,
      (handleInterruptCallbackRequest opencodeUpstreamClient upstream request now
        repository).called = some call →
      ∃ requestId routing b, request.Valid requestId routing call ∧ request.Matches b ∧
        repository.binding? requestId.strip = some b ∧ now < b.expiresAt) ∧
    (∀ (client : InterruptClient σ) (s : σ),
      (handleInterruptCallbackRequest client upstream request now s).discarded = true →
      ∃ call, (handleInterruptCallbackRequest client upstream request now s).called = some call ∧
        (upstream call).settles = true) ∧
    ∀ repository : InterruptRepository, repository.Sound →
      (handleInterruptCallbackRequest opencodeUpstreamClient upstream request now
        repository).discarded = false →
      ∀ r, Kept now (repository.binding? r)
        ((handleInterruptCallbackRequest opencodeUpstreamClient upstream request now
          repository).state.binding? r) := by
  refine ⟨?_, ?_, ?_, ?_⟩
  · intro client s call hcalled
    exact (handled_sums client upstream request now s).called hcalled
  · intro repository hsound call hcalled
    obtain ⟨requestId, routing, s', binding, hvalid, hresolve, hmatches⟩ :=
      (handled_sums opencodeUpstreamClient upstream request now repository).called hcalled
    obtain ⟨next, status, binding', hok, -, hactive⟩ :=
      resolveInterruptRequest_binding hsound now requestId
    have hsame : (next, status, binding') = (s', .active, binding) :=
      Except.ok.inj (hok.symm.trans hresolve)
    cases hsame
    obtain ⟨b, rfl, hb, hlive⟩ := hactive rfl
    exact ⟨requestId, routing, b, hvalid, hmatches b rfl, hb, hlive⟩
  · intro client s hdiscarded
    exact (handled_sums client upstream request now s).discarded hdiscarded
  · intro repository hsound hdiscarded r
    rcases (handled_sums opencodeUpstreamClient upstream request now repository).state hdiscarded
      with heq | ⟨requestId, status, binding, hresolve⟩
    · rw [heq]
      exact .rfl
    · obtain ⟨next, status', binding', hok, hkept, -⟩ :=
        resolveInterruptRequest_binding hsound now requestId
      have hnext : next = (handleInterruptCallbackRequest opencodeUpstreamClient upstream request
          now repository).state := congrArg Prod.fst (Except.ok.inj (hok.symm.trans hresolve))
      rw [← hnext]
      exact hkept r

/-- A client rejects a question. -/
def reject : CallbackRequest where
  id := some (.int 1)
  method := .rejectQuestion
  params := [("request_id".toList, .str "q".toList)]
  userIdentity := some "alice".toList
  userCredentialId := none

/-- A repository that holds the question, asked by `owner` at time 0. -/
def questionOf (owner : String) : InterruptRepository :=
  let request : RememberRequest :=
    { requestId := "q".toList
      sessionId := "s".toList
      interruptType := "question".toList
      identity := some owner.toList }
  .memory ⟨60, 10⟩ (MemoryInterrupts.remember ⟨60, 10⟩ {} 0 request)

/-- Another's question is not answered, and stays. -/
theorem question_stays : Kept 1 ((questionOf "bob").binding? "q".toList)
    ((handleInterruptCallbackRequest opencodeUpstreamClient (fun _ => .returned true) reject 1
      (questionOf "bob")).state.binding? "q".toList) :=
  (callbacks_authorised (σ := Unit) (fun _ => .returned true) reject 1).2.2.2 (questionOf "bob")
    trivial rfl "q".toList

/-- A client that knows sessions alone, and takes every request for one of its own. -/
def sessionOnlyClient : InterruptClient Unit where
  resolveSession := some fun _ _ s => .ok (s, some "s".toList)

/-- A callback can do away with a binding though it calls nobody: the lookup turns it into a
tombstone when it has expired. And a client that knows sessions alone calls upstream without
any binding. -/
theorem callback_without_binding :
    (((questionOf "alice").binding? "q".toList).isSome = true ∧
      (handleInterruptCallbackRequest opencodeUpstreamClient (fun _ => .returned true) reject 60
        (questionOf "alice")).called.isNone = true ∧
      ((handleInterruptCallbackRequest opencodeUpstreamClient (fun _ => .returned true) reject 60
        (questionOf "alice")).state.binding? "q".toList).isNone = true) ∧
    (handleInterruptCallbackRequest sessionOnlyClient (fun _ => .returned true) reject 1
      ()).called.isSome = true ∧
    sessionOnlyClient.resolve 1 "q".toList () = .ok ((), .active, none) :=
  ⟨⟨rfl, rfl, rfl⟩, rfl, rfl⟩

end OpencodeA2a.Jsonrpc
