import OpencodeA2a.Extension.Common
import OpencodeA2a.Extension.Methods

/-!
# Sessions and what becomes of them

`handle_session_lifecycle_request`: reading a session, and forking, sharing, summarising and
reverting it. The methods that change a session do so under the guard of the session; a fork
makes the new session the caller's own, too.
-/

namespace OpencodeA2a.Extension

open OpencodeA2a.Stream (Text Json Mapping)
open OpencodeA2a.Effects
open OpencodeA2a.Jsonrpc

/-! ## §1  What a request asks for -/

namespace LifecycleMethod

variable (method : LifecycleMethod)

def text : Text := (ExtensionMethod.lifecycle method).text

/-- Every method but the one for all sessions. -/
def hasSession : Bool := method ≠ .sessionStatus

def hasMessage : Bool := method = .getSessionDiff || method = .getSessionMessage

def hasRequest : Bool :=
  method = .forkSession || method = .summarizeSession || method = .revertSession

/-- `method in mutating_methods` -/
def isMutating : Bool :=
  method = .forkSession || method = .shareSession || method = .unshareSession ||
    method = .summarizeSession || method = .revertSession || method = .unrevertSession

def allowedFields : List String :=
  ["metadata", "directory"] ++ (if method.hasSession then ["session_id"] else []) ++
    (if method.hasMessage then ["message_id"] else []) ++
    if method.hasRequest then ["request"] else []

end LifecycleMethod

/-- `_parse_directory_hint`, and `_parse_optional_string` with it -/
def parseOptionalString (params : Mapping) (field : String) : Except RpcError (Option Text) :=
  match field? params field with
  | none => .ok none
  | some (.str t) => .ok (Stream.nonempty? t)
  | some _ => .error (invalidField (field ++ " must be a string") field)

/-- A string of the request that is not blank, stripped. -/
def requestString (request : Mapping) (field : String) : Except RpcError Text :=
  match Stream.extractOptionalString request field with
  | some t => .ok t
  | none => .error (invalidField ("request." ++ field ++ " must be a string") ("request." ++ field))

def requestMustBeObject : RpcError := invalidField "params.request must be an object" "request"

/-- `_parse_fork_request` -/
def parseForkRequest (params : Mapping) : Except RpcError Mapping :=
  match field? params "request" with
  | none => .ok []
  | some (.obj request) => do
      rejectUnknownFields request ["messageID"] "request."
      if (field? request "messageID").isNone then return []
      else return [entry "messageID" (← requestString request "messageID")]
  | some _ => .error requestMustBeObject

/-- `_parse_summarize_request` -/
def parseSummarizeRequest (params : Mapping) : Except RpcError (Option Mapping) :=
  match field? params "request" with
  | none => .ok none
  | some (.obj request) => do
      rejectUnknownFields request ["providerID", "modelID", "auto"] "request."
      if ["providerID", "modelID", "auto"].all fun key => (field? request key).isNone then
        return none
      else do
        let providerId ← requestString request "providerID"
        let modelId ← requestString request "modelID"
        let payload := [entry "providerID" providerId, entry "modelID" modelId]
        match field? request "auto" with
        | none => return some payload
        | some (.bool auto) => return some (payload ++ [("auto".toList, .bool auto)])
        | some _ => throw (invalidField "request.auto must be a boolean" "request.auto")
  | some _ => .error requestMustBeObject

/-- `_parse_revert_request` -/
def parseRevertRequest (params : Mapping) : Except RpcError Mapping :=
  match params.get? "request" with
  | some (.obj request) => do
      rejectUnknownFields request ["messageID", "partID"] "request."
      let messageId ← requestString request "messageID"
      if (field? request "partID").isNone then return [entry "messageID" messageId]
      else return [entry "messageID" messageId, entry "partID" (← requestString request "partID")]
  | _ => .error requestMustBeObject

/-- The method with what it needs. -/
inductive LifecycleOperation where
  | sessionStatus
  | getSession (sessionId : Text)
  | getSessionChildren (sessionId : Text)
  | getSessionTodo (sessionId : Text)
  | getSessionDiff (sessionId : Text) (messageId : Option Text)
  | getSessionMessage (sessionId messageId : Text)
  | forkSession (sessionId : Text) (request : Mapping)
  | shareSession (sessionId : Text)
  | unshareSession (sessionId : Text)
  | summarizeSession (sessionId : Text) (request : Option Mapping)
  | revertSession (sessionId : Text) (request : Mapping)
  | unrevertSession (sessionId : Text)

namespace LifecycleOperation

def method : LifecycleOperation → LifecycleMethod
  | .sessionStatus => .sessionStatus
  | .getSession _ => .getSession
  | .getSessionChildren _ => .getSessionChildren
  | .getSessionTodo _ => .getSessionTodo
  | .getSessionDiff _ _ => .getSessionDiff
  | .getSessionMessage _ _ => .getSessionMessage
  | .forkSession _ _ => .forkSession
  | .shareSession _ => .shareSession
  | .unshareSession _ => .unshareSession
  | .summarizeSession _ _ => .summarizeSession
  | .revertSession _ _ => .revertSession
  | .unrevertSession _ => .unrevertSession

def sessionId : LifecycleOperation → Option Text
  | .sessionStatus => none
  | .getSession s | .getSessionChildren s | .getSessionTodo s | .getSessionDiff s _
  | .getSessionMessage s _ | .forkSession s _ | .shareSession s | .unshareSession s
  | .summarizeSession s _ | .revertSession s _ | .unrevertSession s => some s

end LifecycleOperation

namespace LifecycleMethod

variable (method : LifecycleMethod)

/-- What is parsed between the unknown fields and the routing. -/
def operation (params : Mapping) : Except RpcError LifecycleOperation :=
  match method with
  | .sessionStatus => .ok .sessionStatus
  | .getSession => .getSession <$> requiredString params "session_id"
  | .getSessionChildren => .getSessionChildren <$> requiredString params "session_id"
  | .getSessionTodo => .getSessionTodo <$> requiredString params "session_id"
  | .getSessionDiff => do
      let sessionId ← requiredString params "session_id"
      return .getSessionDiff sessionId (← parseOptionalString params "message_id")
  | .getSessionMessage => do
      let sessionId ← requiredString params "session_id"
      match ← parseOptionalString params "message_id" with
      | some messageId => return .getSessionMessage sessionId messageId
      | none => throw (missingField "Missing required params.message_id" "message_id")
  | .forkSession => do
      let sessionId ← requiredString params "session_id"
      return .forkSession sessionId (← parseForkRequest params)
  | .shareSession => .shareSession <$> requiredString params "session_id"
  | .unshareSession => .unshareSession <$> requiredString params "session_id"
  | .summarizeSession => do
      let sessionId ← requiredString params "session_id"
      return .summarizeSession sessionId (← parseSummarizeRequest params)
  | .revertSession => do
      let sessionId ← requiredString params "session_id"
      return .revertSession sessionId (← parseRevertRequest params)
  | .unrevertSession => .unrevertSession <$> requiredString params "session_id"

/-- Everything that is checked, in order. -/
def plan (context : HandlerContext) (params : Mapping) :
    Except Refusal (LifecycleOperation × Routing) := do
  checked (rejectUnknownFields params method.allowedFields)
  let directory ← checked (parseOptionalString params "directory")
  let operation ← checked (method.operation params)
  let routing ← context.resolveRoutingContext params directory
  return (operation, routing)

variable {method}

theorem sessionId_of_operation {params : Mapping}
    {operation : LifecycleOperation} {s : Text} (h : method.operation params = .ok operation)
    (hs : operation.sessionId = some s) : requiredString params "session_id" = .ok s := by
  cases method with
  | sessionStatus =>
      cases h
      cases hs
  | getSession | getSessionChildren | getSessionTodo | shareSession | unshareSession
  | unrevertSession =>
      obtain ⟨s', hs', rfl⟩ := map_eq_ok.mp h
      cases hs
      exact hs'
  | getSessionDiff | forkSession | summarizeSession | revertSession =>
      obtain ⟨s', hs', h⟩ := bind_eq_ok.mp h
      obtain ⟨rest, -, h⟩ := bind_eq_ok.mp h
      cases h
      cases hs
      exact hs'
  | getSessionMessage =>
      obtain ⟨s', hs', h⟩ := bind_eq_ok.mp h
      obtain ⟨messageId, -, h⟩ := bind_eq_ok.mp h
      cases messageId with
      | none => cases h
      | some messageId =>
          cases h
          cases hs
          exact hs'

theorem method_of_operation {params : Mapping} {operation : LifecycleOperation}
    (h : method.operation params = .ok operation) : operation.method = method := by
  cases method with
  | sessionStatus =>
      cases h
      rfl
  | getSession | getSessionChildren | getSessionTodo | shareSession | unshareSession
  | unrevertSession =>
      obtain ⟨s, -, rfl⟩ := map_eq_ok.mp h
      rfl
  | getSessionDiff | forkSession | summarizeSession | revertSession =>
      obtain ⟨s, -, h⟩ := bind_eq_ok.mp h
      obtain ⟨rest, -, h⟩ := bind_eq_ok.mp h
      cases h
      rfl
  | getSessionMessage =>
      obtain ⟨s, -, h⟩ := bind_eq_ok.mp h
      obtain ⟨messageId, -, h⟩ := bind_eq_ok.mp h
      cases messageId with
      | none => cases h
      | some messageId =>
          cases h
          rfl

theorem operation_of_plan {context : HandlerContext} {params : Mapping}
    {operation : LifecycleOperation} {routing : Routing}
    (h : method.plan context params = .ok (operation, routing)) :
    method.operation params = .ok operation := by
  obtain ⟨-, -, h⟩ := bind_eq_ok.mp h
  obtain ⟨directory, -, h⟩ := bind_eq_ok.mp h
  obtain ⟨operation', hoperation, h⟩ := bind_eq_ok.mp h
  obtain ⟨routing', -, h⟩ := bind_eq_ok.mp h
  cases h
  exact checked_eq_ok.mp hoperation

theorem failsToResolve_of_plan {context : HandlerContext} {params : Mapping} {x : Raised}
    (h : method.plan context params = .error (.raised x)) : context.FailsToResolve x := by
  unfold plan at h
  rcases bind_eq_error.mp h with h | ⟨-, -, h⟩
  · exact absurd h checked_ne_raised
  · rcases bind_eq_error.mp h with h | ⟨directory, -, h⟩
    · exact absurd h checked_ne_raised
    · rcases bind_eq_error.mp h with h | ⟨operation, -, h⟩
      · exact absurd h checked_ne_raised
      · rcases bind_eq_error.mp h with h | ⟨routing, -, h⟩
        · exact HandlerContext.failsToResolve_of_resolveRoutingContext h
        · cases h

end LifecycleMethod

/-! ## §2  What is awaited -/

/-- The result, and the new session of a fork. -/
structure LifecycleOutcome where
  result : Mapping
  forkedSessionId : Option Text := none

/-- A projection whose `ValueError` is raised. -/
def orValueError {α : Type} : Except Text α → Action α
  | .ok a => .returns a
  | .error text => .raises (.valueError text)

def itemsResult (items : List Json) : LifecycleOutcome := ⟨[("items".toList, .arr items)], none⟩

def summaryResult (raw : Json) : Action LifecycleOutcome := do
  let (_, item) ← orValueError (normalizeSessionSummary raw)
  return ⟨[("item".toList, .obj item)], none⟩

/-- `{"item": item}` of a projection that may not apply -/
def itemResult (endpoint kind : String) : Option Json → Action LifecycleOutcome
  | some item => .returns ⟨[("item".toList, item)], none⟩
  | none =>
      .raises (.contractError ("OpenCode " ++ endpoint ++ " response could not be mapped to A2A " ++
        kind).toList)

namespace LifecycleOperation

/-- The call of the upstream client and its result. -/
def invoke (client : UpstreamClient) (routing : Routing) :
    LifecycleOperation → Action LifecycleOutcome
  | .sessionStatus => do
      let raw ← client.sessionStatus routing
      return itemsResult (← orValueError (normalizeSessionStatusItems raw))
  | .getSession s => do
      itemResult "/session/{sessionID}" "Task" (asA2aSessionTask (← client.getSession s routing))
  | .getSessionChildren s => do
      let raw ← client.listChildSessions s routing
      return itemsResult
        ((← orValueError (extractRawItems "child sessions" raw)).filterMap asA2aSessionTask)
  | .getSessionTodo s => do
      let raw ← client.getSessionTodo s routing
      return itemsResult (← orValueError (normalizeTodoItems raw))
  | .getSessionDiff s messageId => do
      let query := (messageId.map fun t => ("messageID".toList, QueryValue.text t)).toList
      let raw ← client.getSessionDiff s query routing
      return itemsResult (← orValueError (normalizeDiffItems raw))
  | .getSessionMessage s messageId => do
      itemResult "/session/{sessionID}/message/{messageID}" "Message"
        (asA2aMessage s (← client.getMessage s messageId routing))
  | .forkSession s request => do
      let raw ← client.forkSession s request routing
      let (forkedSessionId, item) ← orValueError (normalizeSessionSummary raw)
      return ⟨[("item".toList, .obj item)], some forkedSessionId⟩
  | .shareSession s => do summaryResult (← client.shareSession s routing)
  | .unshareSession s => do summaryResult (← client.unshareSession s routing)
  | .summarizeSession s request => do
      let ok ← client.summarizeSession s request routing
      return ⟨[("ok".toList, .bool ok), entry "session_id" s], none⟩
  | .revertSession s request => do summaryResult (← client.revertSession s request routing)
  | .unrevertSession s => do summaryResult (← client.unrevertSession s routing)

variable (operation : LifecycleOperation)

def exceptionHandling : ExceptionHandling where
  context := ⟨some operation.method.text, operation.sessionId⟩
  mapsPayloads := true
  onNotFound := operation.sessionId.map sessionNotFoundError
  onPermissionError := operation.sessionId.map sessionForbiddenError

/-- `session_claim_finalize` for the new session, where the caller is known. -/
def finalizeFork (identity forkedSessionId : Option Text) : Action Unit :=
  match forkedSessionId, identity.filter (· ≠ []) with
  | some s, some a => Prog.call (A := Effect.Answer) (.finalize a s)
  | _, _ => return ()

/-- The `try` statement: a reply, or the result. -/
def perform (client : UpstreamClient) (identity : Option Text) (routing : Routing) :
    Action (Except RpcError Mapping) :=
  exceptException
    (do
      return .ok (← SessionClaimGuard.within
        { identity := if operation.method.isMutating then identity else none
          sessionId := operation.sessionId }
        (operation.invoke client routing)
        fun outcome => do
          finalizeFork identity outcome.forkedSessionId
          return outcome.result))
    fun x => return .error (operation.exceptionHandling.respond x)

end LifecycleOperation

/-- `handle_session_lifecycle_request` -/
def LifecycleMethod.handle (method : LifecycleMethod) (context : HandlerContext) (request : Request) :
    Action Reply :=
  match method.plan context request.params with
  | .error refusal => request.refuse refusal
  | .ok (operation, routing) => do
      match ← operation.perform context.client request.caller.userIdentity routing with
      | .error e => return request.reject e
      | .ok result => request.success result

end OpencodeA2a.Extension
