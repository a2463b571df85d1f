import OpencodeA2a.Extension.Results

/-!
# What leaves a handler

A handler answers with an error where something is raised in it. The ways out: the directory
resolver may raise what only a `ValueError` clause stands around; a payload that is JSON `null`,
where a list was asked for, is no payload to three of the handlers; the response to a result is
made behind the `try` statement, and cannot be made of a number that is not finite; and the
handler of the callbacks looks the request up before its `try` statement, and forgets it in an
`except` clause.
-/

namespace OpencodeA2a.Extension

open OpencodeA2a.Stream (Text Json Mapping)
open OpencodeA2a.Effects
open OpencodeA2a.Jsonrpc

/-! ## §1  Ways out -/

/-- The value is what the upstream server has sent. -/
def IsPayload (j : Json) : Event Effect Effect.Answer Raised → Prop
  | ⟨.send _, .ok response⟩ => response.json = .value j
  | _ => False

/-- The details of a pending interrupt hold a number that is not finite. -/
def ListsUnrenderable : Event Effect Effect.Answer Raised → Prop
  | ⟨.listPending _ _, .ok bindings⟩ =>
      ∃ b ∈ bindings, ∃ details, b.details = some details ∧ renderableEntries details = false
  | _ => False

/-- The table of interrupts fails with the exception. -/
def TableFails (x : Raised) : Event Effect Effect.Answer Raised → Prop
  | ⟨.resolveRequest _, .error y⟩ => y = x
  | ⟨.discardRequest _, .error y⟩ => y = x
  | _ => False

section Escapes

variable (context : HandlerContext) (x : Raised) (es : List (Event Effect Effect.Answer Raised))

/-- The payload is JSON `null`. -/
def MissingPayload : Prop := (∃ text, x = .contractError text) ∧ ∃ e ∈ es, IsPayload .null e

/-- The payload holds a number that is not finite. -/
def UnrenderablePayload : Prop :=
  (∃ text, x = .valueError text) ∧ ∃ j, renderable j = false ∧ ∃ e ∈ es, IsPayload j e

/-- The exception leaves the handler of the method. -/
def ExtensionMethod.Escapes : ExtensionMethod → Prop
  | .query .listSessions | .discovery _ => context.FailsToResolve x ∨ MissingPayload x es
  | .query .getSessionMessages | .control _ => context.FailsToResolve x
  | .lifecycle m => context.FailsToResolve x ∨ m = .sessionStatus ∧ UnrenderablePayload x es
  | .workspace _ => MissingPayload x es ∨ UnrenderablePayload x es
  | .interruptQuery _ => (∃ text, x = .valueError text) ∧ ∃ e ∈ es, ListsUnrenderable e
  | .callback _ => ∃ e ∈ es, TableFails x e

end Escapes

/-- Nothing but a cancellation and the ways out. -/
def ExtensionMethod.Contains (context : HandlerContext) (m : ExtensionMethod)
    (r : Except Raised Reply) (es : List (Event Effect Effect.Answer Raised)) : Prop :=
  ∀ x, r = .error x → x = .cancelled ∨ m.Escapes context x es

/-! ## §2  The `try` statements -/

section Pieces

variable {α : Type} {es : List (Event Effect Effect.Answer Raised)}

/-- What is not a cancellation is handled, if nothing is raised in the handling. -/
theorem meets_record_exceptException {p : Action α} {h : Raised → Action α}
    {Q : Except Raised α → List (Event Effect Effect.Answer Raised) → Prop}
    (hok : Meets Monitor.record (fun r es => ∀ a, r = .ok a → Q (.ok a) es) p es)
    (hcancelled : ∀ es, Q (.error .cancelled) es)
    (hh : ∀ x es, Meets Monitor.record Q (h x) es) :
    Meets Monitor.record Q (exceptException p h) es := by
  rw [meets_exceptException]
  refine hok.mono ?_
  rintro (x | a) es' ha
  · dsimp only
    split
    · rename_i hx
      rw [hx]
      exact hcancelled es'
    · exact hh x es'
  · exact ha a rfl

/-- Nothing but a cancellation is raised where the handling raises nothing else. -/
theorem meets_record_contained {p : Action α} {h : Raised → Action α}
    (hh : ∀ x es, Meets Monitor.record (fun r _ => ∀ y, r = .error y → y = .cancelled) (h x) es) :
    Meets Monitor.record (fun r _ => ∀ y, r = .error y → y = .cancelled) (exceptException p h)
      es := by
  refine meets_record_exceptException ?_ (fun es => ?_) hh
  · refine (meets_record_true _).mono ?_
    rintro r es' - a ha y ⟨⟩
  · rintro y ⟨⟩
    rfl

theorem meets_record_invokeUpstreamOrError {h : ExceptionHandling} {p : Action α}
    {Q : Except Raised (Except RpcError α) → List (Event Effect Effect.Answer Raised) → Prop}
    (hok : Meets Monitor.record (fun r es => ∀ a, r = .ok a → Q (.ok (.ok a)) es) p es)
    (hcancelled : ∀ es, Q (.error .cancelled) es) (herror : ∀ e es, Q (.ok (.error e)) es) :
    Meets Monitor.record Q (invokeUpstreamOrError h p) es := by
  refine meets_record_exceptException ?_ hcancelled fun x es => herror _ es
  rw [meets_bind]
  refine hok.mono ?_
  rintro (x | a) es' ha
  · rintro _ ⟨⟩
  · rintro _ ⟨⟩
    exact ha a rfl

/-- What a request of the client returns, the upstream server has sent. -/
theorem meets_record_sendJson (r : HttpRequest) (endpoint : String) :
    Meets Monitor.record (fun payload es => ∀ j, payload = .ok j → ∃ e ∈ es, IsPayload j e)
      (sendJson r endpoint) es := by
  unfold sendJson
  rw [meets_bind]
  refine meets_call.mpr ⟨trivial, fun answer => ?_⟩
  cases answer with
  | error x => rintro _ ⟨⟩
  | ok response =>
      dsimp only
      unfold raiseForStatus
      split
      · show Meets _ _ (decodeJsonResponse response endpoint) _
        unfold decodeJsonResponse
        split
        · rename_i j hj
          rintro _ ⟨⟩
          refine ⟨_, List.mem_append_right _ (List.mem_singleton_self _), ?_⟩
          exact hj
        · rintro _ ⟨⟩
        · rintro _ ⟨⟩
      · rintro _ ⟨⟩

/-- Without a claim the guard does nothing. -/
theorem meets_within_of_none {σ β : Type} {M : Monitor Effect Effect.Answer Raised σ}
    {Q : Except Raised β → σ → Prop} {s : σ} {g : SessionClaimGuard} {first : Action α}
    {second : α → Action β} (hclaims : g.claims? = none) :
    Meets M Q (g.within first second) s ↔ Meets M Q (first >>= second) s := by
  have hopen : g.open? = none := by
    unfold SessionClaimGuard.open?
    rw [hclaims]
    split <;> rfl
  unfold SessionClaimGuard.within SessionClaimGuard.enter
  rw [hclaims]
  dsimp only
  rw [meets_bind, meets_pure]
  dsimp only
  rw [meets_bind, meets_ending, meets_bind, meets_bind]
  unfold SessionClaimGuard.finalize
  rw [hopen]
  refine meets_congr ?_
  rintro (x | a) t
  · show Meets M Q (Prog.andFinally (.raises x) g.exit) t ↔ _
    unfold SessionClaimGuard.exit
    rw [meets_andFinally, hopen]
    exact Iff.rfl
  · show Meets M Q ((second a).andFinally g.exit) t ↔ _
    unfold SessionClaimGuard.exit
    rw [meets_andFinally, hopen]
    exact Iff.rfl

end Pieces

/-! ## §3  The handlers -/

section Handlers

variable {context : HandlerContext} {request : Request} {m : ExtensionMethod}
  {es : List (Event Effect Effect.Answer Raised)}

theorem contains_ok {reply : Reply} : m.Contains context (.ok reply) es := by
  rintro x ⟨⟩

theorem contains_cancelled : m.Contains context (.error .cancelled) es := by
  rintro x ⟨⟩
  exact .inl rfl

theorem contains_raised {x : Raised} (h : m.Escapes context x es) :
    m.Contains context (.error x) es := by
  rintro _ ⟨⟩
  exact .inr h

theorem contains_refuse {refusal : Refusal}
    (h : ∀ x, refusal = .raised x → m.Escapes context x es) :
    Meets Monitor.record (m.Contains context) (request.refuse refusal) es := by
  cases refusal with
  | answered e => exact contains_ok
  | raised x => exact contains_raised (h x rfl)

/-- The response is made, unless the result cannot be rendered. -/
theorem contains_success {result : Mapping}
    (h : renderableEntries result = false → ∀ text, m.Escapes context (.valueError text) es) :
    Meets Monitor.record (m.Contains context) (request.success result) es := by
  unfold Request.success
  split
  · exact contains_ok
  · split
    · exact contains_ok
    · rename_i hresult
      exact contains_raised (h (Bool.eq_false_of_not_eq_true hresult) _)

theorem contains_replyWith {outcome : Except RpcError Mapping}
    (h : ∀ result, outcome = .ok result → renderableEntries result = false →
      ∀ text, m.Escapes context (.valueError text) es) :
    Meets Monitor.record (m.Contains context) (replyWith request outcome) es := by
  unfold replyWith
  split
  · exact contains_ok
  · exact contains_success (h _ rfl)

theorem contains_sendable {outcome : Except RpcError Mapping} (h : Sendable outcome) :
    Meets Monitor.record (m.Contains context) (replyWith request outcome) es := by
  refine contains_replyWith fun result hresult hfalse => ?_
  rw [h result hresult] at hfalse
  cases hfalse

/-- A handler whose `try` statement contains what is raised in it. -/
theorem contains_of_perform {p : Action (Except RpcError Mapping)}
    (h : Meets Monitor.record (fun r _ => ∀ x, r = .error x → x = .cancelled) p es)
    (hp : Yields Sendable p) :
    Meets Monitor.record (m.Contains context) (p >>= replyWith request) es := by
  rw [meets_bind]
  refine (h.and_yields hp).mono ?_
  rintro (x | outcome) es' ⟨hx, hsendable⟩
  · rw [hx x rfl]
    exact contains_cancelled
  · exact contains_sendable (hsendable outcome rfl)

/-- Writing a line does not fail. -/
theorem meets_record_logShellAudit {α : Type} {method : ControlMethod} {identity : Option Text}
    {sessionId : Text} {outcome : AuditOutcome} {a : α}
    {Q : Except Raised α → List (Event Effect Effect.Answer Raised) → Prop}
    (h : ∀ es, Q (.ok a) es) :
    Meets Monitor.record Q (do method.logShellAudit identity sessionId outcome; return a) es := by
  rw [meets_bind]
  unfold ControlMethod.logShellAudit
  split
  · exact ⟨trivial, fun _ => h _⟩
  · exact h _

theorem ControlMethod.contains_handle (method : ControlMethod) :
    Meets Monitor.record ((ExtensionMethod.control method).Contains context)
      (method.handle context request) es := by
  unfold ControlMethod.handle
  split
  · exact contains_ok
  · split
    · exact meets_record_logShellAudit fun es => contains_ok
    · split
      · rename_i refusal hplan
        exact contains_refuse fun x hx => method.failsToResolve_of_plan (hx ▸ hplan)
      · rename_i p hplan
        refine contains_of_perform ?_ (method.yields_perform p)
        refine meets_record_contained fun x es => meets_record_logShellAudit fun es => ?_
        rintro y ⟨⟩

/-- The statuses let a number through, so that there the payload decides. -/
theorem LifecycleOperation.meets_record_sessionStatus {client : UpstreamClient}
    {identity : Option Text} {routing : Routing} :
    Meets Monitor.record
      (fun r es => (∀ x, r = .error x → x = .cancelled) ∧
        ∀ result, r = .ok (.ok result) → renderableEntries result = false →
          ∃ j, renderable j = false ∧ ∃ e ∈ es, IsPayload j e)
      (LifecycleOperation.sessionStatus.perform client identity routing) es := by
  refine meets_record_exceptException ?_ (fun es => ⟨?_, ?_⟩) fun x es => ⟨?_, ?_⟩
  · rw [meets_bind]
    refine (meets_within_of_none rfl).mpr ?_
    rw [meets_bind]
    unfold LifecycleOperation.invoke
    rw [meets_bind]
    refine (meets_record_sendJson _ _).mono ?_
    rintro (x | raw) es' hpayload
    · rintro _ ⟨⟩
    · dsimp only
      rw [meets_bind]
      cases hitems : normalizeSessionStatusItems raw with
      | error text => rintro _ ⟨⟩
      | ok items =>
          rintro _ ⟨⟩
          refine ⟨by rintro x ⟨⟩, ?_⟩
          rintro _ ⟨⟩ hfalse
          refine ⟨raw, Bool.eq_false_iff.mpr fun hraw => ?_, hpayload raw rfl⟩
          refine Bool.eq_false_iff.mp hfalse ?_
          exact renderable_itemsResult (renderable_normalizeSessionStatusItems hraw hitems)
  · rintro x ⟨⟩
    rfl
  · rintro result ⟨⟩
  · rintro x ⟨⟩
  · rintro result ⟨⟩

theorem LifecycleMethod.contains_handle (method : LifecycleMethod) :
    Meets Monitor.record ((ExtensionMethod.lifecycle method).Contains context)
      (method.handle context request) es := by
  unfold LifecycleMethod.handle
  split
  · rename_i refusal hplan
    exact contains_refuse fun x hx => .inl (failsToResolve_of_plan (hx ▸ hplan))
  · rename_i operation routing hplan
    by_cases hstatus : operation = .sessionStatus
    · obtain rfl := hstatus
      obtain rfl := method_of_operation (operation_of_plan hplan)
      rw [meets_bind]
      refine LifecycleOperation.meets_record_sessionStatus.mono ?_
      rintro (x | outcome) es' ⟨hx, hpayload⟩
      · rw [hx x rfl]
        exact contains_cancelled
      · refine contains_replyWith fun result hresult hfalse text => ?_
        exact .inr ⟨rfl, ⟨text, rfl⟩, hpayload result (congrArg _ hresult) hfalse⟩
    · refine contains_of_perform ?_ (LifecycleOperation.yields_perform hstatus)
      refine meets_record_contained fun x es => ?_
      rintro y ⟨⟩

theorem InterruptQueryMethod.contains_handle (method : InterruptQueryMethod) :
    Meets Monitor.record ((ExtensionMethod.interruptQuery method).Contains context)
      (method.handle request) es := by
  unfold InterruptQueryMethod.handle
  split
  · exact contains_ok
  · split
    · exact contains_success (by rintro ⟨⟩)
    · rw [meets_bind]
      refine meets_record_exceptException ?_ (fun es => contains_cancelled) fun x es => contains_ok
      rw [meets_bind]
      refine meets_call.mpr ⟨trivial, fun r => ?_⟩
      cases r with
      | error x => rintro _ ⟨⟩
      | ok bindings =>
          rintro _ ⟨⟩
          refine contains_success fun hfalse text => ⟨⟨text, rfl⟩, ?_⟩
          refine ⟨_, List.mem_append_right _ (List.mem_singleton_self _), ?_⟩
          -- if all details can be rendered, so can the result
          by_contra hnone
          refine Bool.eq_false_iff.mp hfalse ?_
          have hall : renderableItems (bindings.map item) = true := by
            refine renderableItems_iff.mpr fun j hj => ?_
            obtain ⟨b, hb, rfl⟩ := List.mem_map.mp hj
            refine renderable_item fun details hdetails => ?_
            rw [← Bool.not_eq_false]
            exact fun hunrenderable => hnone ⟨b, hb, details, hdetails, hunrenderable⟩
          simpa [result] using hall

theorem SessionQuery.meets_record_invoke {client : UpstreamClient} {routing : Routing}
    (query : SessionQuery) :
    Meets Monitor.record
      (fun r es => ∀ a, r = .ok a → query.isMissing a.1 = true →
        (∃ q, query = .listSessions q) ∧ ∃ e ∈ es, IsPayload .null e)
      (query.invoke client routing) es := by
  cases query with
  | listSessions query =>
      unfold SessionQuery.invoke
      rw [meets_bind]
      refine (meets_record_sendJson _ _).mono ?_
      rintro (x | payload) es' hpayload
      · rintro _ ⟨⟩
      · rintro _ ⟨⟩ hmissing
        refine ⟨⟨query, rfl⟩, ?_⟩
        cases payload with
        | null => exact hpayload _ rfl
        | bool | int | float | str | arr | obj => cases hmissing
  | getSessionMessages query =>
      refine (meets_record_true _).mono ?_
      rintro r es' - a ha hmissing
      cases hmissing

theorem QueryMethod.method_of_plan {D : Numerals} {method : QueryMethod} {q : ListSessionsQuery}
    {params : Mapping} {routing : Routing}
    (h : method.plan D context params = .ok (.listSessions q, routing)) : method = .listSessions := by
  cases method with
  | listSessions => rfl
  | getSessionMessages =>
      obtain ⟨query, hquery, h⟩ := bind_eq_ok.mp h
      obtain ⟨routing', -, h⟩ := bind_eq_ok.mp h
      cases h
      obtain ⟨query, -, hquery⟩ := map_eq_ok.mp (checked_eq_ok.mp hquery)
      cases hquery

theorem QueryMethod.failsToResolve_of_plan {D : Numerals} {method : QueryMethod} {params : Mapping}
    {x : Raised} (h : method.plan D context params = .error (.raised x)) :
    context.FailsToResolve x := by
  unfold QueryMethod.plan at h
  rcases bind_eq_error.mp h with h | ⟨query, -, h⟩
  · exact absurd h checked_ne_raised
  · rcases bind_eq_error.mp h with h | ⟨routing, -, h⟩
    · exact HandlerContext.failsToResolve_of_resolveRoutingContext h
    · cases h

theorem escapes_of_failsToResolve {method : QueryMethod} {x : Raised}
    (h : context.FailsToResolve x) : (ExtensionMethod.query method).Escapes context x es := by
  cases method with
  | listSessions => exact .inl h
  | getSessionMessages => exact h

theorem QueryMethod.contains_handle {D : Numerals} (method : QueryMethod) :
    Meets Monitor.record ((ExtensionMethod.query method).Contains context)
      (method.handle D context request) es := by
  unfold QueryMethod.handle
  split
  · rename_i refusal hplan
    exact contains_refuse fun x hx => escapes_of_failsToResolve (failsToResolve_of_plan (hx ▸ hplan))
  · rename_i query routing hplan
    rw [meets_bind]
    refine meets_record_invokeUpstreamOrError ?_ (fun es => contains_cancelled)
      fun e es => contains_ok
    refine query.meets_record_invoke.mono ?_
    rintro r es' hmissing ⟨payload, nextCursor⟩ ha
    show Meets _ _ (if query.isMissing payload = true then _ else _) es'
    split
    · rename_i hnull
      obtain ⟨⟨q, rfl⟩, hpayload⟩ := hmissing _ ha hnull
      obtain rfl := method_of_plan hplan
      exact contains_raised (.inr ⟨⟨_, rfl⟩, hpayload⟩)
    · exact contains_sendable fun result h =>
        SessionQuery.renderable_project (projected_eq_ok.mp h)

theorem DiscoveryMethod.failsToResolve_of_plan {method : DiscoveryMethod} {params : Mapping}
    {x : Raised} (h : method.plan context params = .error (.raised x)) :
    context.FailsToResolve x := by
  unfold DiscoveryMethod.plan at h
  rcases bind_eq_error.mp h with h | ⟨-, -, h⟩
  · exact absurd h checked_ne_raised
  · rcases bind_eq_error.mp h with h | ⟨providerId, -, h⟩
    · exact absurd h checked_ne_raised
    · rcases bind_eq_error.mp h with h | ⟨routing, -, h⟩
      · exact HandlerContext.failsToResolve_of_resolveRoutingContext h
      · cases h

theorem DiscoveryMethod.contains_handle (method : DiscoveryMethod) :
    Meets Monitor.record ((ExtensionMethod.discovery method).Contains context)
      (method.handle context request) es := by
  unfold DiscoveryMethod.handle
  split
  · rename_i refusal hplan
    exact contains_refuse fun x hx => .inl (failsToResolve_of_plan (hx ▸ hplan))
  · rename_i providerId routing hplan
    rw [meets_bind]
    refine meets_record_invokeUpstreamOrError ?_ (fun es => contains_cancelled)
      fun e es => contains_ok
    refine (meets_record_sendJson _ _).mono ?_
    rintro r es' hpayload payload rfl
    cases payload with
    | null => exact contains_raised (.inr ⟨⟨_, rfl⟩, hpayload _ rfl⟩)
    | bool | int | float | str | arr | obj =>
        exact contains_sendable fun result h => renderable_project (projected_eq_ok.mp h)

theorem WorkspaceOperation.meets_record_invoke (operation : WorkspaceOperation) :
    Meets Monitor.record
      (fun payload es => ∀ j, payload = .ok j → j = .null ∨ renderable j = false →
        ∃ e ∈ es, IsPayload j e)
      operation.invoke es := by
  cases operation with
  | listProjects | getCurrentProject | listWorkspaces | listWorktrees | createWorkspace
  | createWorktree | removeWorkspace =>
      exact (meets_record_sendJson _ _).mono fun _ _ h j hj _ => h j hj
  | removeWorktree | resetWorktree =>
      unfold WorkspaceOperation.invoke
      rw [meets_bind]
      refine (meets_record_true _).mono ?_
      rintro (x | b) es' - _ ⟨⟩ (h | h) <;> cases h

theorem WorkspaceMethod.contains_handle (method : WorkspaceMethod) :
    Meets Monitor.record ((ExtensionMethod.workspace method).Contains context)
      (method.handle request) es := by
  unfold WorkspaceMethod.handle
  split
  · exact contains_ok
  · rename_i operation hplan
    rw [meets_bind]
    refine meets_record_invokeUpstreamOrError ?_ (fun es => contains_cancelled)
      fun e es => contains_ok
    refine operation.meets_record_invoke.mono ?_
    rintro r es' hpayload payload rfl
    have hreply : Meets Monitor.record ((ExtensionMethod.workspace method).Contains context)
        (replyWith request
          (projected ⟨some method.text, none⟩ (method.normalizeResponsePayload payload))) es' := by
      refine contains_replyWith fun result hresult hfalse text => ?_
      have hunrenderable : renderable payload = false := by
        refine Bool.eq_false_iff.mpr fun hrenderable => Bool.eq_false_iff.mp hfalse ?_
        exact renderable_normalizeResponsePayload hrenderable (projected_eq_ok.mp hresult)
      exact .inr ⟨⟨text, rfl⟩, payload, hunrenderable, hpayload _ rfl (.inr hunrenderable)⟩
    cases payload with
    | null => exact contains_raised (.inl ⟨⟨_, rfl⟩, hpayload _ rfl (.inl rfl)⟩)
    | bool | int | float | str | arr | obj => exact hreply

/-- What an `except` clause of the callbacks raises, the table of interrupts has raised. -/
theorem meets_record_callbackException (requestId : Text) (x : Raised) :
    Meets Monitor.record (fun r es => ∀ y, r = .error y → ∃ e ∈ es, TableFails y e)
      (callbackException requestId x) es := by
  unfold callbackException
  split
  · rintro _ ⟨⟩
  · split
    · rw [meets_bind]
      refine ⟨trivial, fun r => ?_⟩
      cases r with
      | ok u => rintro _ ⟨⟩
      | error y =>
          rintro _ ⟨⟩
          exact ⟨_, List.mem_append_right _ (List.mem_singleton_self _), rfl⟩
    · rintro _ ⟨⟩
  · rintro _ ⟨⟩
  · rintro _ ⟨⟩
  · rintro _ ⟨⟩

theorem meets_record_performCallback {client : UpstreamClient} (requestId : Text)
    (call : UpstreamCall) :
    Meets Monitor.record
      (fun r es => ∀ x, r = .error x → x = .cancelled ∨ ∃ e ∈ es, TableFails x e)
      (performCallback client requestId call) es := by
  unfold performCallback
  rw [meets_exceptException]
  refine (meets_record_true _).mono ?_
  rintro (x | outcome) es' -
  · dsimp only
    split
    · rename_i hx
      rintro _ ⟨⟩
      exact .inl hx
    · refine (meets_record_callbackException requestId x).mono ?_
      exact fun r es'' h y hy => .inr (h y hy)
  · rintro _ ⟨⟩

theorem contains_handleInterruptCallback (method : CallbackMethod) :
    Meets Monitor.record ((ExtensionMethod.callback method).Contains context)
      (handleInterruptCallback method context request) es := by
  unfold handleInterruptCallback
  split
  · exact contains_ok
  · rename_i requestId routing hparse
    rw [meets_bind]
    refine ⟨trivial, fun r => ?_⟩
    cases r with
    | error x =>
        -- the table of interrupts has failed, in front of the `try` statement
        exact contains_raised ⟨_, List.mem_append_right _ (List.mem_singleton_self _), rfl⟩
    | ok status =>
        obtain ⟨status, binding⟩ := status
        show Meets Monitor.record ((ExtensionMethod.callback method).Contains context) _ _
        dsimp only
        split
        · exact contains_ok
        · rename_i call hproceed
          rw [meets_bind]
          refine ((meets_record_performCallback requestId call).and_yields
            (yields_performCallback requestId call)).mono ?_
          rintro (x | outcome) es' ⟨hx, hsendable⟩
          · rintro _ ⟨⟩
            exact hx x rfl
          · exact contains_sendable (hsendable outcome rfl)

/-- In no run of a handler is an exception raised but a cancellation, unless the handler has one of
the ways out and the run takes it. -/
theorem handle_contains (D : Numerals) (m : ExtensionMethod) (context : HandlerContext)
    (request : Request) (env : Surroundings) :
    m.Contains context ((m.handle D context request).outcome env)
      ((m.handle D context request).events env) := by
  refine Meets.outcome ?_ env
  cases m with
  | lifecycle m => exact m.contains_handle
  | query m => exact m.contains_handle
  | discovery m => exact m.contains_handle
  | interruptQuery m => exact m.contains_handle
  | workspace m => exact m.contains_handle
  | control m => exact m.contains_handle
  | callback m => exact contains_handleInterruptCallback m

end Handlers

end OpencodeA2a.Extension
