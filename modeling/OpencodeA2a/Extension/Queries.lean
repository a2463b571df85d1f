import OpencodeA2a.Extension.Common
import OpencodeA2a.Extension.Methods

/-!
# Queries

The handlers that only read: lists of sessions and messages (`session_queries.py`), providers
and models (`provider_discovery.py`), and the caller's own interrupts
(`interrupt_queries.py`). A payload `null` is taken for no payload at all, and the exception
that reports it leaves the handler.
-/

namespace OpencodeA2a.Extension

open OpencodeA2a.Stream (Text Json Mapping)
open OpencodeA2a.Effects
open OpencodeA2a.Jsonrpc
open OpencodeA2a.Store (InterruptRequestBinding)

/-- A reply to what the upstream server has sent, or the error it is answered with. -/
def replyWith (request : Request) (outcome : Except RpcError Mapping) : Action Reply :=
  match outcome with
  | .error e => return request.reject e
  | .ok result => request.success result

/-- What the handler makes of a payload whose projection may fail. -/
def projected (c : ErrorContext) : Except Text Mapping → Except RpcError Mapping :=
  Except.mapError (buildUpstreamPayloadError c)

/-! ## §1  Sessions and messages -/

inductive SessionQuery where
  | listSessions (query : ListSessionsQuery)
  | getSessionMessages (query : MessagesQuery)

namespace QueryMethod

variable (D : Numerals) (method : QueryMethod)

def parse (params : Mapping) : Except RpcError SessionQuery :=
  match method with
  | .listSessions => .listSessions <$> parseListSessionsParams D params
  | .getSessionMessages => .getSessionMessages <$> parseGetSessionMessagesParams D params

/-- The directory of the query goes into the routing. -/
def plan (context : HandlerContext) (params : Mapping) : Except Refusal (SessionQuery × Routing) := do
  let query ← checked (method.parse D params)
  let requested :=
    match query with
    | .listSessions q => q.directory
    | .getSessionMessages _ => none
  let routing ← context.resolveRoutingContext params requested
  return (query, routing)

end QueryMethod

namespace SessionQuery

/-- `_invoke_session_query`: the payload, and the cursor of the next page. -/
def invoke (client : UpstreamClient) (routing : Routing) :
    SessionQuery → Action (Json × Option Text)
  | .listSessions query => do
      return (← client.listSessions query.params routing, none)
  | .getSessionMessages query => do
      let page ← client.listMessages query.sessionId query.params routing.workspaceId
      return (page.payload, page.nextCursor)

/-- A page of messages is an object whatever its payload is. -/
def isMissing (payload : Json) : SessionQuery → Bool
  | .listSessions _ => match payload with | .null => true | _ => false
  | .getSessionMessages _ => false

def project (payload : Json) (nextCursor : Option Text) : SessionQuery → Except Text Mapping
  | .listSessions query => do
      let items ← extractRawItems "sessions" payload
      return [("items".toList,
        .arr (applySessionQueryLimit (items.filterMap asA2aSessionTask) query.limit.1))]
  | .getSessionMessages query => do
      let items ← extractRawItems "messages" payload
      return [("items".toList, .arr (items.filterMap (asA2aMessage query.sessionId))),
        ("next_cursor".toList, (nextCursor.map Json.str).getD .null)]

def exceptionHandling : SessionQuery → ExceptionHandling
  | .listSessions _ => ⟨⟨none, none⟩, false, none, none⟩
  | .getSessionMessages query =>
      ⟨⟨none, none⟩, false, some (sessionNotFoundError query.sessionId), none⟩

end SessionQuery

/-- `handle_session_query_request` -/
def QueryMethod.handle (D : Numerals) (method : QueryMethod) (context : HandlerContext)
    (request : Request) : Action Reply :=
  match method.plan D context request.params with
  | .error refusal => request.refuse refusal
  | .ok (query, routing) => do
      match ← invokeUpstreamOrError query.exceptionHandling (query.invoke context.client routing) with
      | .error e => return request.reject e
      | .ok (payload, nextCursor) =>
          -- behind the `try` statement: nothing handles this exception
          if query.isMissing payload then
            .raises (.contractError "OpenCode session query returned no payload".toList)
          else replyWith request (projected ⟨none, none⟩ (query.project payload nextCursor))

/-! ## §2  Providers and models -/

namespace DiscoveryMethod

variable (method : DiscoveryMethod)

def text : Text := (ExtensionMethod.discovery method).text

/-- `provider_id`, for the method that takes one -/
def parseProviderId (params : Mapping) : Except RpcError (Option Text) :=
  match method with
  | .listProviders => .ok none
  | .listModels =>
      match field? params "provider_id" with
      | none => .ok none
      | some j =>
          match j.asStr?.bind Stream.nonempty? with
          | some t => .ok (some t)
          | none => .error (invalidField "provider_id must be a non-empty string" "provider_id")

def plan (context : HandlerContext) (params : Mapping) : Except Refusal (Option Text × Routing) := do
  checked (rejectUnknownFields params
    (["metadata"] ++ if method = .listModels then ["provider_id"] else []) "params."
    "Unsupported params fields")
  let providerId ← checked (method.parseProviderId params)
  let routing ← context.resolveRoutingContext params none
  return (providerId, routing)

def items (catalog : Catalog) (providerId : Option Text) : List Mapping :=
  match method with
  | .listProviders => catalog.normalizeProviderSummaries
  | .listModels => catalog.normalizeModelSummaries providerId

def project (providerId : Option Text) (payload : Json) : Except Text Mapping := do
  let catalog ← extractProviderCatalog payload
  return [("items".toList, .arr ((method.items catalog providerId).map .obj)),
    ("default_by_provider".toList, .obj (catalog.defaultByProvider.map fun e => (e.1, .str e.2))),
    ("connected".toList, .arr (catalog.connected.map .str))]

/-- `handle_provider_discovery_request` -/
def handle (context : HandlerContext) (request : Request) : Action Reply :=
  match method.plan context request.params with
  | .error refusal => request.refuse refusal
  | .ok (providerId, routing) => do
      match ← invokeUpstreamOrError ⟨⟨some method.text, none⟩, false, none, none⟩
          (context.client.listProviderCatalog routing) with
      | .error e => return request.reject e
      -- behind the `try` statement, as with the session queries
      | .ok .null =>
          .raises (.contractError "OpenCode provider discovery returned no payload".toList)
      | .ok payload =>
          replyWith request (projected ⟨some method.text, none⟩ (method.project providerId payload))

end DiscoveryMethod

/-! ## §3  Interrupts -/

namespace InterruptQueryMethod

variable (method : InterruptQueryMethod)

def interruptType : Text :=
  match method with
  | .listPermissions => "permission".toList
  | .listQuestions => "question".toList

def orNull (t : Option Text) : Json := (t.map Json.str).getD .null

/-- An item of the result; the time is a whole number here. -/
def item (b : InterruptRequestBinding) : Json :=
  .obj [strEntry "request_id" b.requestId, strEntry "session_id" b.sessionId,
    strEntry "interrupt_type" b.interruptType, ("task_id".toList, orNull b.taskId),
    ("context_id".toList, orNull b.contextId),
    ("details".toList, (b.details.map Json.obj).getD .null), ("expires_at".toList, .int b.expiresAt)]

def result (bindings : List InterruptRequestBinding) : Mapping :=
  [("items".toList, .arr (bindings.map item))]

/-- The `try` statement: the pending interrupts, or the error of `build_internal_error_response`. -/
def list (identity : Text) : Action (Except RpcError (List InterruptRequestBinding)) :=
  exceptException
    (do
      return .ok (← Prog.call (A := Effect.Answer) (.listPending identity method.interruptType)))
    fun x => return .error (.internal (.other x.text))

/-- `handle_interrupt_query_request` -/
def handle (request : Request) : Action Reply :=
  match rejectUnknownFields request.params [] with
  | .error e => return request.reject e
  | .ok _ =>
      match request.caller.userIdentity.bind Stream.nonempty? with
      | none => request.success (result [])
      | some identity => do
          match ← method.list identity with
          | .error e => return request.reject e
          | .ok bindings => request.success (result bindings)

end InterruptQueryMethod

end OpencodeA2a.Extension
