import OpencodeA2a.Extension.Common
import OpencodeA2a.Extension.Methods

/-!
# Session control

`handle_session_control_request`: a prompt, a command or a shell line for an upstream session,
under the guard of the session. What is checked is checked before anything is awaited. A shell
line needs a capability, and leaves a line in the audit log however it ends.
-/

namespace OpencodeA2a.Extension

open OpencodeA2a.Stream (Text Json Mapping)
open OpencodeA2a.Effects
open OpencodeA2a.Jsonrpc

def capabilitySessionShell : Text := "session_shell".toList

/-! ## §1  What a request asks for -/

structure ControlPlan where
  sessionId : Text
  request : Mapping
  routing : Routing

/-- `params.request` -/
def requestObject (params : Mapping) : Except RpcError Mapping :=
  match field? params "request" with
  | none => .error (missingField "Missing required params.request" "request")
  | some (.obj request) => .ok request
  | some _ => .error (invalidField "params.request must be an object" "request")

/-- `invalid_params_error(str(exc), data={"type": "INVALID_FIELD", "field": exc.field})` -/
def PayloadError.toRpc (e : PayloadError) : RpcError :=
  .invalidParams e.message [entry "type" "INVALID_FIELD".toList, entry "field" e.field]

namespace ControlMethod

variable (method : ControlMethod)

def text : Text := (ExtensionMethod.control method).text

/-- The fields, the session and the payload, before the caller's capability is looked at. -/
def readTarget (params : Mapping) : Except RpcError (Text × Mapping) := do
  rejectUnknownFields params ["session_id", "request", "metadata"]
  let sessionId ← requiredString params "session_id"
  let request ← requestObject params
  return (sessionId, request)

/-- The caller may not run shell lines. -/
def forbids (caller : Caller) : Bool :=
  method = .shell && !caller.hasCapability capabilitySessionShell

/-- What is checked after the capability. -/
def plan (context : HandlerContext) (params : Mapping) (sessionId : Text) (request : Mapping) :
    Except Refusal ControlPlan := do
  checked ((method.validate request).mapError PayloadError.toRpc)
  let routing ← context.resolveRoutingContext params none
  return { sessionId, request, routing }

theorem requiredString_of_readTarget {params : Mapping} {sessionId : Text} {payload : Mapping}
    (h : readTarget params = .ok (sessionId, payload)) :
    requiredString params "session_id" = .ok sessionId := by
  obtain ⟨-, -, h⟩ := bind_eq_ok.mp h
  obtain ⟨sessionId', hsession, h⟩ := bind_eq_ok.mp h
  obtain ⟨payload', -, h⟩ := bind_eq_ok.mp h
  cases h
  exact hsession

theorem sessionId_of_plan {context : HandlerContext} {params : Mapping} {sessionId : Text}
    {payload : Mapping} {p : ControlPlan} (h : method.plan context params sessionId payload = .ok p) :
    p.sessionId = sessionId := by
  obtain ⟨-, -, h⟩ := bind_eq_ok.mp h
  obtain ⟨routing, -, h⟩ := bind_eq_ok.mp h
  cases h
  rfl

theorem failsToResolve_of_plan {context : HandlerContext} {params : Mapping} {sessionId : Text}
    {payload : Mapping} {x : Raised}
    (h : method.plan context params sessionId payload = .error (.raised x)) :
    context.FailsToResolve x := by
  unfold plan at h
  rcases bind_eq_error.mp h with h | ⟨-, -, h⟩
  · exact absurd h checked_ne_raised
  · rcases bind_eq_error.mp h with h | ⟨routing, -, h⟩
    · exact HandlerContext.failsToResolve_of_resolveRoutingContext h
    · cases h

/-! ## §2  What is awaited -/

/-- `_shell_audit_outcome` -/
def shellAuditOutcome : Raised → AuditOutcome
  | .httpStatusError status => if status = 404 then .upstream404 else .upstreamHttpError
  | .httpError => .upstreamUnreachable
  | .concurrencyLimit _ => .upstreamBackpressure
  | .contractError _ | .valueError _ => .upstreamPayloadError
  | .permissionError _ => .forbidden
  | .other _ | .cancelled => .internalError

/-- `_log_shell_audit` -/
def logShellAudit (identity : Option Text) (sessionId : Text) (outcome : AuditOutcome) :
    Action Unit :=
  if method = .shell then Prog.tell (.audit identity sessionId outcome) else return ()

/-- `{"item": item}`, where the payload is a message -/
def messageResult (endpoint : String) (sessionId : Text) (raw : Json) : Action Mapping :=
  match asA2aMessage sessionId raw with
  | some item => return [("item".toList, item)]
  | none =>
      .raises (.contractError ("OpenCode " ++ endpoint ++
        " response could not be mapped to A2A Message").toList)

/-- The call of the upstream client and its result. -/
def invoke (client : UpstreamClient) (p : ControlPlan) : Action Mapping :=
  match method with
  | .promptAsync => do
      client.sessionPromptAsync p.sessionId p.request p.routing
      return [("ok".toList, .bool true), entry "session_id" p.sessionId]
  | .command => do
      messageResult "/session/{sessionID}/command" p.sessionId
        (← client.sessionCommand p.sessionId p.request p.routing)
  | .shell => do
      messageResult "/session/{sessionID}/shell" p.sessionId
        (← client.sessionShell p.sessionId p.request p.routing)

def exceptionHandling (sessionId : Text) : ExceptionHandling where
  context := ⟨some method.text, some sessionId⟩
  mapsPayloads := true
  onNotFound := some (sessionNotFoundError sessionId)
  onPermissionError := some (sessionForbiddenError sessionId)

/-- The `try` statement: a reply, or the result. -/
def perform (client : UpstreamClient) (identity : Option Text) (p : ControlPlan) :
    Action (Except RpcError Mapping) :=
  exceptException
    (do
      return .ok (← SessionClaimGuard.within { identity, sessionId := some p.sessionId }
        (method.invoke client p)
        fun result => do
          method.logShellAudit identity p.sessionId .success
          return result))
    fun x => do
      method.logShellAudit identity p.sessionId (shellAuditOutcome x)
      return .error ((method.exceptionHandling p.sessionId).respond x)

/-- `handle_session_control_request` -/
def handle (context : HandlerContext) (request : Request) : Action Reply :=
  match readTarget request.params with
  | .error e => return request.reject e
  | .ok (sessionId, payload) =>
      -- the capability is asked for before the payload is validated
      if method.forbids request.caller then do
        method.logShellAudit request.caller.userIdentity sessionId .authorizationForbidden
        return request.reject (authorizationForbiddenError method.text capabilitySessionShell
          request.caller.userCredentialId)
      else
        match method.plan context request.params sessionId payload with
        | .error refusal => request.refuse refusal
        | .ok p => do
            match ← method.perform context.client request.caller.userIdentity p with
            | .error e => return request.reject e
            | .ok result => request.success result

end ControlMethod

end OpencodeA2a.Extension
