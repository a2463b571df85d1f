import OpencodeA2a.Extension.Dispatch

/-!
# What the handlers send

A property of HTTP requests holds of every request that a handler sends if it holds of the one
request of its upstream call: the checks before send nothing, and neither does the guard.
-/

namespace OpencodeA2a.Extension

open OpencodeA2a.Stream (Text Json Mapping)
open OpencodeA2a.Effects
open OpencodeA2a.Jsonrpc

/-! ## §1  The routing of a query -/

def isRoutingKey (key : Text) : Bool := key = "directory".toList || key = "workspace".toList

theorem isRoutingKey_directory : isRoutingKey "directory".toList = true :=
  Bool.or_eq_true_iff.mpr (.inl (decide_eq_true rfl))

theorem isRoutingKey_workspace : isRoutingKey "workspace".toList = true :=
  Bool.or_eq_true_iff.mpr (.inr (decide_eq_true rfl))

/-- The entries of the query that decide where the request goes. -/
def HttpRequest.routing (r : HttpRequest) : List (Text × Text) :=
  r.params.filter fun e => isRoutingKey e.1

def workspaceEntry (workspaceId : Text) : List (Text × Text) :=
  [("workspace".toList, workspaceId)]

def directoryEntry (directory : Text) : List (Text × Text) := [("directory".toList, directory)]

namespace UpstreamClient

variable (client : UpstreamClient)

theorem filter_queryParams (routing : Routing) :
    (client.queryParams routing).filter (fun e => isRoutingKey e.1) = client.queryParams routing := by
  unfold queryParams
  split
  · exact List.filter_eq_self.mpr fun e he =>
      List.mem_singleton.mp he ▸ isRoutingKey_workspace
  · split
    · rfl
    · exact List.filter_eq_self.mpr fun e he =>
        List.mem_singleton.mp he ▸ isRoutingKey_directory

/-- Whatever else a caller puts into the query, it does not change where the request goes. -/
theorem filter_mergeParams (extra : List (Text × QueryValue)) (routing : Routing) :
    (client.mergeParams extra routing).filter (fun e => isRoutingKey e.1) =
      client.queryParams routing := by
  have hfold : ∀ params : List (Text × Text),
      (extra.foldl
        (fun params e =>
          if e.1 = "directory".toList ∨ e.1 = "workspace".toList then params
          else Entries.set params e.1 e.2.str) params).filter (fun e => isRoutingKey e.1) =
        params.filter fun e => isRoutingKey e.1 := by
    induction extra with
    | nil => exact fun params => rfl
    | cons e extra ih =>
        intro params
        rw [List.foldl_cons, ih]
        split
        · rfl
        · rename_i hkey
          refine Entries.filter_set params _ (p := isRoutingKey) ?_
          rw [isRoutingKey, Bool.or_eq_false_iff]
          exact ⟨decide_eq_false fun h => hkey (.inl h), decide_eq_false fun h => hkey (.inr h)⟩
  exact (hfold _).trans (client.filter_queryParams routing)

end UpstreamClient

/-! ## §2  The pieces -/

/-- The call sends nothing, or a request with the property. -/
def OnSend (Q : HttpRequest → Prop) : Effect → Prop
  | .send r => Q r
  | _ => True

section Pieces

variable {Q : HttpRequest → Prop} {α β : Type}

theorem calls_onSend {Q' : HttpRequest → Prop} {p : Action α} (h : Calls (OnSend Q) p)
    (hQ : ∀ r, Q r → Q' r) : Calls (OnSend Q') p := by
  refine h.mono fun e he => ?_
  cases e with
  | send r => exact hQ r he
  | claim | finalize | release | listPending | resolveRequest | discardRequest | audit => trivial

theorem calls_raiseForStatus {P : Effect → Prop} (response : HttpResponse) :
    Calls P (raiseForStatus response) := by
  unfold raiseForStatus
  split
  · exact calls_returns
  · exact calls_raises

theorem calls_decodeJsonResponse {P : Effect → Prop} (response : HttpResponse) (endpoint : String) :
    Calls P (decodeJsonResponse response endpoint) := by
  unfold decodeJsonResponse
  split
  · exact calls_returns
  · exact calls_raises
  · exact calls_raises

theorem calls_send {r : HttpRequest} (h : Q r) : Calls (OnSend Q) (send r) := calls_call.mpr h

theorem calls_sendJson {r : HttpRequest} {endpoint : String} (h : Q r) :
    Calls (OnSend Q) (sendJson r endpoint) :=
  (calls_send h).bind fun response =>
    (calls_raiseForStatus response).bind fun _ => calls_decodeJsonResponse response endpoint

theorem calls_sendBoolean {r : HttpRequest} {endpoint : String} (h : Q r) :
    Calls (OnSend Q) (sendBoolean r endpoint) := by
  refine (calls_sendJson h).bind fun payload => ?_
  unfold requireBooleanResponse
  split
  · exact calls_returns
  · exact calls_raises

theorem calls_orValueError {P : Effect → Prop} (r : Except Text α) : Calls P (orValueError r) := by
  cases r with
  | ok a => exact calls_returns
  | error text => exact calls_raises

theorem calls_itemResult {P : Effect → Prop} (endpoint kind : String) (item : Option Json) :
    Calls P (itemResult endpoint kind item) := by
  cases item with
  | some item => exact calls_returns
  | none => exact calls_raises

theorem calls_summaryResult {P : Effect → Prop} (raw : Json) : Calls P (summaryResult raw) :=
  (calls_orValueError _).bind fun _ => calls_pure

theorem calls_messageResult {P : Effect → Prop} (endpoint : String) (sessionId : Text) (raw : Json) :
    Calls P (ControlMethod.messageResult endpoint sessionId raw) := by
  unfold ControlMethod.messageResult
  split
  · exact calls_pure
  · exact calls_raises

theorem calls_exceptException {P : Effect → Prop} {p : Action α} {h : Raised → Action α}
    (hp : Calls P p) (hh : ∀ x, Calls P (h x)) : Calls P (exceptException p h) := by
  refine hp.tryCatch fun x => ?_
  split
  · exact calls_raises
  · exact hh x

theorem calls_invokeUpstreamOrError {P : Effect → Prop} {h : ExceptionHandling} {p : Action α}
    (hp : Calls P p) : Calls P (invokeUpstreamOrError h p) :=
  calls_exceptException (hp.bind fun _ => calls_pure) fun _ => calls_pure

theorem calls_success {P : Effect → Prop} (request : Request) (result : Mapping) :
    Calls P (request.success result) := by
  unfold Request.success
  split
  · exact calls_pure
  · split
    · exact calls_pure
    · exact calls_raises

theorem calls_refuse {P : Effect → Prop} (request : Request) (refusal : Refusal) :
    Calls P (request.refuse refusal) := by
  cases refusal with
  | answered e => exact calls_pure
  | raised x => exact calls_raises

theorem calls_replyWith {P : Effect → Prop} (request : Request) (outcome : Except RpcError Mapping) :
    Calls P (replyWith request outcome) := by
  unfold replyWith
  split
  · exact calls_pure
  · exact calls_success request _

/-- The guard claims, finalises and releases, but it sends nothing. -/
theorem calls_within {g : SessionClaimGuard} {first : Action α} {second : α → Action β}
    (hfirst : Calls (OnSend Q) first) (hsecond : ∀ a, Calls (OnSend Q) (second a)) :
    Calls (OnSend Q) (g.within first second) := by
  have henter : Calls (OnSend Q) g.enter := by
    unfold SessionClaimGuard.enter
    split
    · exact calls_pure
    · exact (calls_call.mpr trivial).bind fun _ => calls_pure
  have hfinalize : ∀ g : SessionClaimGuard, Calls (OnSend Q) g.finalize := by
    intro g
    unfold SessionClaimGuard.finalize
    split
    · exact calls_pure
    · exact (calls_call.mpr trivial).bind fun _ => calls_pure
  have hexit : ∀ g : SessionClaimGuard, Calls (OnSend Q) g.exit := by
    intro g
    unfold SessionClaimGuard.exit
    split
    · exact calls_pure
    · exact calls_exceptException (calls_call.mpr trivial) fun _ => calls_pure
  refine henter.bind fun g => Calls.bind (Calls.ending ?_) fun r => ?_
  · exact hfirst.bind fun a => (hfinalize g).bind fun _ => calls_pure
  · split
    · exact Calls.andFinally calls_raises (hexit g)
    · exact Calls.andFinally (hsecond _) (hexit _)

end Pieces

/-! ## §3  One request -/

theorem settled_raiseForStatus (response : HttpResponse) : (raiseForStatus response).Settled := by
  unfold raiseForStatus
  split
  · exact Prog.settled_returns ()
  · exact Prog.settled_raises _

theorem settled_decodeJsonResponse (response : HttpResponse) (endpoint : String) :
    (decodeJsonResponse response endpoint).Settled := by
  unfold decodeJsonResponse
  split
  · exact Prog.settled_returns _
  · exact Prog.settled_raises _
  · exact Prog.settled_raises _

theorem asksOnce_sendJson (request : HttpRequest) (endpoint : String) :
    (sendJson request endpoint).AsksOnce (.send request) :=
  (Prog.asksOnce_call (Effect.send request)).bind fun response =>
    (settled_raiseForStatus response).bind fun _ => settled_decodeJsonResponse response endpoint

theorem asksOnce_sendBoolean (request : HttpRequest) (endpoint : String) :
    (sendBoolean request endpoint).AsksOnce (.send request) := by
  refine (asksOnce_sendJson request endpoint).bind fun payload => ?_
  unfold requireBooleanResponse
  split
  · exact Prog.settled_returns _
  · exact Prog.settled_raises _

theorem settled_messageResult (endpoint : String) (sessionId : Text) (raw : Json) :
    (ControlMethod.messageResult endpoint sessionId raw).Settled := by
  unfold ControlMethod.messageResult
  split
  · exact Prog.settled_returns _
  · exact Prog.settled_raises _

theorem settled_orValueError {α : Type} (r : Except Text α) : (orValueError r).Settled := by
  cases r with
  | ok a => exact Prog.settled_returns a
  | error text => exact Prog.settled_raises _

theorem settled_itemResult (endpoint kind : String) (item : Option Json) :
    (itemResult endpoint kind item).Settled := by
  cases item with
  | some item => exact Prog.settled_returns _
  | none => exact Prog.settled_raises _

theorem settled_summaryResult (raw : Json) : (summaryResult raw).Settled :=
  (settled_orValueError _).bind fun _ => Prog.settled_returns _

/-! ## §4  The upstream calls -/

section Invocations

variable {client : UpstreamClient} {routing : Routing}

/-- The request goes where the routing says, and if it is not a read, to one of the endpoints of
the session. -/
structure Emits (client : UpstreamClient) (routing : Routing) (sessionId : Option Text)
    (endpoints : List String) (r : HttpRequest) : Prop where
  routed : r.routing = client.queryParams routing
  write : r.verb ≠ .get →
    ∃ s rest, sessionId = some s ∧ rest ∈ endpoints ∧ r.path = sessionPath s rest

theorem emits_get {sessionId : Option Text} {endpoints : List String} {path : Text}
    {params : List (Text × Text)}
    (h : params.filter (fun e => isRoutingKey e.1) = client.queryParams routing) :
    Emits client routing sessionId endpoints { verb := .get, path, params } :=
  ⟨h, fun hverb => absurd rfl hverb⟩

theorem emits_write {verb : Verb} {sessionId rest : _} {endpoints : List String} {body : Option Json}
    (hrest : rest ∈ endpoints) :
    Emits client routing (some sessionId) endpoints
      { verb, path := sessionPath sessionId rest, params := client.queryParams routing, body } :=
  ⟨client.filter_queryParams routing, fun _ => ⟨sessionId, rest, rfl, hrest, rfl⟩⟩

/-- Where a method of session control writes to. -/
def ControlMethod.endpoint : ControlMethod → String
  | .promptAsync => "/prompt_async"
  | .command => "/command"
  | .shell => "/shell"

theorem ControlMethod.calls_invoke (method : ControlMethod) (p : ControlPlan) :
    Calls (OnSend (Emits client p.routing (some p.sessionId) [method.endpoint]))
      (method.invoke client p) := by
  cases method with
  | promptAsync =>
      refine Calls.bind ?_ fun _ => calls_pure
      refine (calls_send (emits_write List.mem_cons_self)).bind fun response =>
        (calls_raiseForStatus response).bind fun _ => ?_
      split
      · exact calls_pure
      · exact calls_raises
  | command | shell =>
      exact (calls_sendJson (emits_write List.mem_cons_self)).bind fun raw =>
        calls_messageResult _ _ raw

/-- Where the lifecycle methods write to. -/
def lifecycleEndpoints : List String :=
  ["/fork", "/share", "/summarize", "/revert", "/unrevert"]

theorem LifecycleOperation.calls_invoke (operation : LifecycleOperation) :
    Calls (OnSend (Emits client routing operation.sessionId lifecycleEndpoints))
      (operation.invoke client routing) := by
  have hquery := client.filter_queryParams routing
  cases operation with
  | sessionStatus | getSessionChildren s | getSessionTodo s =>
      exact (calls_sendJson (emits_get hquery)).bind fun raw =>
        (calls_orValueError _).bind fun _ => calls_pure
  | getSession s | getSessionMessage s messageId =>
      exact (calls_sendJson (emits_get hquery)).bind fun raw => calls_itemResult _ _ _
  | getSessionDiff s messageId =>
      exact (calls_sendJson (emits_get (client.filter_mergeParams _ routing))).bind fun raw =>
        (calls_orValueError _).bind fun _ => calls_pure
  | forkSession s request =>
      exact (calls_sendJson (emits_write (by decide))).bind fun raw =>
        (calls_orValueError _).bind fun _ => calls_pure
  | shareSession s | unshareSession s | revertSession s request | unrevertSession s =>
      exact (calls_sendJson (emits_write (by decide))).bind fun raw => calls_summaryResult raw
  | summarizeSession s request =>
      exact (calls_sendBoolean (emits_write (by decide))).bind fun _ => calls_pure

theorem asksOnce_sessionPromptAsync (sessionId : Text) (payload : Mapping) (routing : Routing) :
    ∃ request, (client.sessionPromptAsync sessionId payload routing).AsksOnce (.send request) := by
  refine ⟨_, (Prog.asksOnce_call (Effect.send _)).bind fun response => ?_⟩
  refine (settled_raiseForStatus response).bind fun _ => ?_
  split
  · exact Prog.settled_returns _
  · exact Prog.settled_raises _

/-- A method of session control makes one request, and its answer settles it. -/
theorem ControlMethod.asksOnce_invoke (method : ControlMethod) (p : ControlPlan) :
    ∃ request, (method.invoke client p).AsksOnce (.send request) := by
  cases method with
  | promptAsync =>
      obtain ⟨request, hrequest⟩ : ∃ request,
          (client.sessionPromptAsync p.sessionId p.request p.routing).AsksOnce (.send request) :=
        asksOnce_sessionPromptAsync _ _ _
      exact ⟨request, hrequest.bind fun _ => Prog.settled_returns _⟩
  | command | shell =>
      exact ⟨_, (asksOnce_sendJson _ _).bind fun raw => settled_messageResult _ _ raw⟩

theorem LifecycleOperation.asksOnce_invoke (operation : LifecycleOperation) :
    ∃ request, (operation.invoke client routing).AsksOnce (.send request) := by
  cases operation with
  | sessionStatus | getSessionChildren s | getSessionTodo s | getSessionDiff s messageId
  | forkSession s request =>
      exact ⟨_, (asksOnce_sendJson _ _).bind fun raw =>
        (settled_orValueError _).bind fun _ => Prog.settled_returns _⟩
  | getSession s | getSessionMessage s messageId =>
      exact ⟨_, (asksOnce_sendJson _ _).bind fun raw => settled_itemResult _ _ _⟩
  | shareSession s | unshareSession s | revertSession s request | unrevertSession s =>
      exact ⟨_, (asksOnce_sendJson _ _).bind fun raw => settled_summaryResult raw⟩
  | summarizeSession s request =>
      exact ⟨_, (asksOnce_sendBoolean _ _).bind fun _ => Prog.settled_returns _⟩

theorem SessionQuery.calls_invoke (query : SessionQuery) :
    Calls (OnSend (Emits client
        (match query with
          | .listSessions _ => routing
          | .getSessionMessages _ => ⟨none, routing.workspaceId⟩) none []))
      (query.invoke client routing) := by
  cases query with
  | listSessions query =>
      exact (calls_sendJson (emits_get (client.filter_mergeParams _ routing))).bind fun _ =>
        calls_pure
  | getSessionMessages query =>
      refine Calls.bind ?_ fun _ => calls_pure
      exact (calls_send (emits_get (client.filter_mergeParams _ _))).bind fun response =>
        (calls_raiseForStatus response).bind fun _ =>
          (calls_decodeJsonResponse response _).bind fun _ => calls_pure

theorem calls_listProviderCatalog :
    Calls (OnSend (Emits client routing none [])) (client.listProviderCatalog routing) :=
  calls_sendJson (emits_get (client.filter_queryParams routing))

end Invocations

/-- Where the methods about workspaces post to. -/
def workspaceEndpoints : List Text :=
  [workspacePath.toList, worktreePath.toList, "/experimental/worktree/reset".toList]

/-- The request of an operation on workspaces is not routed; it is a read unless the operation
changes something. -/
structure WorkspaceEmits (operation : WorkspaceOperation) (r : HttpRequest) : Prop where
  unrouted : r.params = []
  write : r.verb ≠ .get → operation.method.isMutating = true
  post : r.verb = .post → r.path ∈ workspaceEndpoints

theorem workspaceEmits_get {operation : WorkspaceOperation} {path : Text} :
    WorkspaceEmits operation { verb := .get, path } :=
  ⟨rfl, fun hverb => absurd rfl hverb, fun hverb => by cases hverb⟩

theorem workspaceEmits_post {operation : WorkspaceOperation} {path : Text} {body : Option Json}
    (hmutating : operation.method.isMutating = true) (hpath : path ∈ workspaceEndpoints) :
    WorkspaceEmits operation { verb := .post, path, body } :=
  ⟨rfl, fun _ => hmutating, fun _ => hpath⟩

theorem workspaceEmits_delete {operation : WorkspaceOperation} {path : Text} {body : Option Json}
    (hmutating : operation.method.isMutating = true) :
    WorkspaceEmits operation { verb := .delete, path, body } :=
  ⟨rfl, fun _ => hmutating, fun hverb => by cases hverb⟩

theorem WorkspaceOperation.calls_invoke (operation : WorkspaceOperation) :
    Calls (OnSend (WorkspaceEmits operation)) operation.invoke := by
  cases operation with
  | listProjects | getCurrentProject | listWorkspaces | listWorktrees =>
      exact calls_sendJson workspaceEmits_get
  | createWorkspace request | createWorktree request =>
      exact calls_sendJson (workspaceEmits_post rfl (by decide))
  | removeWorkspace workspaceId => exact calls_sendJson (workspaceEmits_delete rfl)
  | removeWorktree request =>
      refine Calls.bind ?_ fun _ => calls_pure
      exact calls_sendBoolean (workspaceEmits_delete rfl)
  | resetWorktree request =>
      refine Calls.bind ?_ fun _ => calls_pure
      exact calls_sendBoolean (workspaceEmits_post rfl (by decide))

/-! ## §5  The handlers -/

section Handlers

variable {Q : HttpRequest → Prop} {context : HandlerContext} {request : Request}

theorem calls_logShellAudit {method : ControlMethod} {identity : Option Text} {sessionId : Text}
    {outcome : AuditOutcome} :
    Calls (OnSend Q) (method.logShellAudit identity sessionId outcome) := by
  unfold ControlMethod.logShellAudit
  split
  · exact calls_tell.mpr trivial
  · exact calls_pure

theorem ControlMethod.calls_handle {method : ControlMethod}
    (h : ∀ sessionId payload p, readTarget request.params = .ok (sessionId, payload) →
      method.forbids request.caller = false →
      method.plan context request.params sessionId payload = .ok p →
      Calls (OnSend Q) (method.invoke context.client p)) :
    Calls (OnSend Q) (method.handle context request) := by
  unfold ControlMethod.handle
  split
  · exact calls_pure
  · rename_i sessionId payload hread
    split
    · exact calls_logShellAudit.bind fun _ => calls_pure
    · rename_i hforbids
      split
      · exact calls_refuse request _
      · rename_i p hplan
        refine Calls.bind ?_ fun r => calls_replyWith request r
        refine calls_exceptException ?_ fun x => calls_logShellAudit.bind fun _ => calls_pure
        refine Calls.bind ?_ fun _ => calls_pure
        refine calls_within (h sessionId payload p hread ?_ hplan) fun result =>
          calls_logShellAudit.bind fun _ => calls_pure
        exact Bool.eq_false_of_not_eq_true hforbids

theorem LifecycleMethod.calls_handle {method : LifecycleMethod}
    (h : ∀ operation routing, method.plan context request.params = .ok (operation, routing) →
      Calls (OnSend Q) (operation.invoke context.client routing)) :
    Calls (OnSend Q) (method.handle context request) := by
  unfold LifecycleMethod.handle
  split
  · exact calls_refuse request _
  · rename_i operation routing hplan
    refine Calls.bind ?_ fun r => calls_replyWith request r
    refine calls_exceptException ?_ fun x => calls_pure
    refine Calls.bind ?_ fun _ => calls_pure
    refine calls_within (h operation routing hplan) fun outcome => Calls.bind ?_ fun _ => calls_pure
    unfold LifecycleOperation.finalizeFork
    split
    · exact calls_call.mpr trivial
    · exact calls_pure

theorem QueryMethod.calls_handle {D : Numerals} {method : QueryMethod}
    (h : ∀ query routing, method.plan D context request.params = .ok (query, routing) →
      Calls (OnSend Q) (query.invoke context.client routing)) :
    Calls (OnSend Q) (method.handle D context request) := by
  unfold QueryMethod.handle
  split
  · exact calls_refuse request _
  · rename_i query routing hplan
    refine (calls_invokeUpstreamOrError (h query routing hplan)).bind fun r => ?_
    split
    · exact calls_pure
    · split
      · exact calls_raises
      · exact calls_replyWith request _

theorem DiscoveryMethod.calls_handle {method : DiscoveryMethod}
    (h : ∀ providerId routing, method.plan context request.params = .ok (providerId, routing) →
      Calls (OnSend Q) (context.client.listProviderCatalog routing)) :
    Calls (OnSend Q) (method.handle context request) := by
  unfold DiscoveryMethod.handle
  split
  · exact calls_refuse request _
  · rename_i providerId routing hplan
    refine (calls_invokeUpstreamOrError (h providerId routing hplan)).bind fun r => ?_
    split
    · exact calls_pure
    · exact calls_raises
    · exact calls_replyWith request _

theorem InterruptQueryMethod.calls_handle {method : InterruptQueryMethod} :
    Calls (OnSend Q) (method.handle request) := by
  unfold InterruptQueryMethod.handle
  split
  · exact calls_pure
  · split
    · exact calls_success request _
    · refine Calls.bind ?_ fun r => ?_
      · exact calls_exceptException ((calls_call.mpr trivial).bind fun _ => calls_pure)
          fun _ => calls_pure
      · split
        · exact calls_pure
        · exact calls_success request _

theorem WorkspaceMethod.calls_handle {method : WorkspaceMethod}
    (h : ∀ operation, method.plan request = .ok operation → Calls (OnSend Q) operation.invoke) :
    Calls (OnSend Q) (method.handle request) := by
  unfold WorkspaceMethod.handle
  split
  · exact calls_pure
  · rename_i operation hplan
    refine (calls_invokeUpstreamOrError (h operation hplan)).bind fun r => ?_
    split
    · exact calls_pure
    · exact calls_raises
    · exact calls_replyWith request _

theorem calls_handleInterruptCallback {method : CallbackMethod}
    (h : ∀ requestId routing status binding call,
      (request.asCallback method).parse = .ok (requestId, routing) →
      (request.asCallback method).proceed requestId routing status binding = .ok call →
      Q (callbackRequest context.client call).1) :
    Calls (OnSend Q) (handleInterruptCallback method context request) := by
  unfold handleInterruptCallback
  split
  · exact calls_pure
  · rename_i requestId routing hparse
    refine Calls.bind (calls_call.mpr trivial) fun (status, binding) => ?_
    dsimp only
    split
    · exact calls_pure
    · rename_i call hproceed
      refine Calls.bind ?_ fun r => calls_replyWith request r
      refine calls_exceptException ?_ fun x => ?_
      · exact (calls_sendBoolean (h _ _ _ _ call hparse hproceed)).bind fun _ =>
          Calls.bind (calls_call.mpr trivial) fun _ => calls_pure
      · unfold callbackException
        split
        · exact calls_pure
        · split
          · exact Calls.bind (calls_call.mpr trivial) fun _ => calls_pure
          · exact calls_pure
        · exact calls_pure
        · exact calls_pure
        · exact calls_pure

end Handlers

/-! ## §6  Dispatched requests -/

/-- Each HTTP request that a run of the handler sends has the property of its method. -/
def Dispatched.Sends (Q : ExtensionMethod → HttpRequest → Prop) : Dispatched → Prop
  | .handled _ m action =>
      ∀ env : Surroundings, (action.events env).Forall fun x => OnSend (Q m) x.1
  | .core | .refused _ _ => True

theorem handleRequests_sends {d : Deployment} {D : Numerals} {context : HandlerContext}
    {callContext : Option Server.ServerCallContext} {caller : Caller} {request : JsonRpcRequest}
    {Q : ExtensionMethod → HttpRequest → Prop}
    (h : ∀ m, d.isMethodEnabled m = true →
      Calls (OnSend (Q m)) (m.handle D context (request.toRequest caller))) :
    (handleRequests d D context callContext caller request).Sends Q := by
  cases hresolve : d.resolve request.method with
  | none =>
      rw [handleRequests_of_none hresolve]
      trivial
  | some found =>
      obtain ⟨spec, m⟩ := found
      rw [handleRequests_of_resolve hresolve]
      split
      · obtain ⟨hspec, hm, -⟩ := d.resolve_eq_some.mp hresolve
        exact (h m (d.mem_methods.mp (List.mem_flatMap.mpr ⟨spec, hspec, hm⟩))).events
      · trivial

end OpencodeA2a.Extension
