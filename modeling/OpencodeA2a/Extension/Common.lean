import OpencodeA2a.Extension.Rendering

/-!
# What the handlers share

`jsonrpc/handlers/common.py`: the checks and the answers that several handlers use, where a
request is routed to, and the guard under which a session is changed. A check that ends the
request itself is an error here.
-/

namespace OpencodeA2a.Extension

open OpencodeA2a.Stream (Text Json Mapping)
open OpencodeA2a.Effects
open OpencodeA2a.Jsonrpc

/-! ## §1  Requests and replies -/

/-- What the authentication has left in `request.state`. -/
structure Caller where
  userIdentity : Option Text
  userCredentialId : Option Text
  /-- the capabilities of the principal -/
  capabilities : List Text

/-- `request_has_capability` -/
def Caller.hasCapability (caller : Caller) (capability : Text) : Bool :=
  caller.capabilities.contains capability

structure Request where
  /-- a notification has no id -/
  id : Option Json
  params : Mapping
  caller : Caller

inductive Reply where
  /-- status 204 -/
  | noContent
  | result (id : Json) (result : Mapping)
  | error (id : Option Json) (e : RpcError)

/-- `build_success_response`, whose `JSONResponse` does not render every number -/
def Request.success (request : Request) (result : Mapping) : Action Reply :=
  match request.id with
  | none => return .noContent
  | some id =>
      if renderableEntries result then return .result id result
      else .raises (.valueError "Out of range float values are not JSON compliant".toList)

/-- The reply to a result that can be rendered. -/
def Request.answer (request : Request) (result : Mapping) : Reply :=
  match request.id with
  | none => .noContent
  | some id => .result id result

theorem Request.success_of_renderable (request : Request) {result : Mapping}
    (h : renderableEntries result = true) :
    request.success result = .returns (request.answer result) := by
  unfold success answer
  cases request.id with
  | none => rfl
  | some id => exact if_pos h

/-- `context.error_response` -/
def Request.reject (request : Request) (e : RpcError) : Reply := .error request.id e

/-- How a check ends a request: with an error reply, or with an exception that nothing handles. -/
inductive Refusal where
  | answered (e : RpcError)
  | raised (x : Raised)

def Request.refuse (request : Request) : Refusal → Action Reply
  | .answered e => return request.reject e
  | .raised x => .raises x

/-- A check that answers the request itself. -/
def checked {α : Type} : Except RpcError α → Except Refusal α := Except.mapError .answered

theorem checked_eq_ok {α : Type} {x : Except RpcError α} {a : α} :
    checked x = .ok a ↔ x = .ok a := by
  cases x with
  | error e => exact iff_of_false (by rintro ⟨⟩) (by rintro ⟨⟩)
  | ok b => rw [checked, Except.mapError, Except.ok.injEq, Except.ok.injEq]

theorem checked_ne_raised {α : Type} {x : Except RpcError α} {y : Raised} :
    checked x ≠ .error (.raised y) := by
  cases x <;> rintro ⟨⟩

structure HandlerContext where
  client : UpstreamClient
  /-- `directory_resolver` -/
  directoryResolver : Option Text → Except Raised Text

/-- `reject_unknown_fields` -/
def rejectUnknownFields (payload : Mapping) (allowed : List String)
    (fieldPrefix : String := "") (messagePrefix : String := "Unsupported fields") :
    Except RpcError Unit :=
  if (unknownFields payload allowed).isEmpty then .ok ()
  else
    .error (invalidFields messagePrefix
      ((unknownFields payload allowed).map fun field => fieldPrefix.toList ++ field))

def errSessionNotFound : ℤ := -32001
def errUpstreamPayloadError : ℤ := -32005
def errSessionForbidden : ℤ := -32006
def errAuthorizationForbidden : ℤ := -32007

/-- `session_not_found_error` -/
def sessionNotFoundError (sessionId : Text) : RpcError :=
  .jsonrpc errSessionNotFound "Session not found".toList
    [entry "type" "SESSION_NOT_FOUND".toList, entry "session_id" sessionId]

/-- `session_forbidden_error` -/
def sessionForbiddenError (sessionId : Text) : RpcError :=
  .jsonrpc errSessionForbidden "Session forbidden".toList
    [entry "type" "SESSION_FORBIDDEN".toList, entry "session_id" sessionId]

/-- `authorization_forbidden_error` -/
def authorizationForbiddenError (method capability : Text) (credentialId : Option Text) : RpcError :=
  .jsonrpc errAuthorizationForbidden "Authorization forbidden".toList
    ([entry "type" "AUTHORIZATION_FORBIDDEN".toList, entry "method" method,
      entry "capability" capability] ++ (credentialId.map (entry "credential_id")).toList)

/-! ## §2  Routing -/

namespace HandlerContext

variable (context : HandlerContext)

/-- The resolver under `except ValueError`; the error names the field that held the directory. -/
def resolveField (requested : Option Text) (field : String) : Except Refusal Text :=
  (context.directoryResolver requested).mapError fun x =>
    match x with
    | .valueError text =>
        .answered (.invalidParams text
          [entry "type" "INVALID_FIELD".toList, entry "field" field.toList])
    | x => .raised x

/-- `resolve_directory` -/
def resolveDirectory (params : Mapping) : Except Refusal Text := do
  let directory ← checked (extractDirectoryFromMetadata params)
  context.resolveField directory "metadata.opencode.directory"

/-- `resolve_routing_context` -/
def resolveRoutingContext (params : Mapping) (requestedDirectory : Option Text) :
    Except Refusal Routing := do
  match ← checked (extractWorkspaceIdFromMetadata params) with
  -- a workspace stands in the place of a directory, and nothing checks it here
  | some workspaceId => return ⟨none, some workspaceId⟩
  | none =>
      match requestedDirectory with
      | some directory => return ⟨some (← context.resolveField (some directory) "directory"), none⟩
      | none => return ⟨some (← context.resolveDirectory params), none⟩

/-- The resolver raises what its callers do not handle. -/
def FailsToResolve (x : Raised) : Prop :=
  (∃ requested, context.directoryResolver requested = .error x) ∧ ∀ text, x ≠ .valueError text

variable {context} {x : Raised}

theorem failsToResolve_of_resolveField {requested : Option Text} {field : String}
    (h : context.resolveField requested field = .error (.raised x)) : context.FailsToResolve x := by
  unfold resolveField at h
  cases hresolver : context.directoryResolver requested with
  | ok directory =>
      rw [hresolver] at h
      cases h
  | error y =>
      rw [hresolver] at h
      cases y with
      | valueError text => cases h
      | httpStatusError | httpError | concurrencyLimit | contractError | permissionError | other
      | cancelled =>
          cases h
          exact ⟨⟨requested, hresolver⟩, by rintro text ⟨⟩⟩

/-- Nothing but the resolver raises in a routing. -/
theorem failsToResolve_of_resolveRoutingContext {params : Mapping} {requested : Option Text}
    (h : context.resolveRoutingContext params requested = .error (.raised x)) :
    context.FailsToResolve x := by
  unfold resolveRoutingContext at h
  rcases bind_eq_error.mp h with h | ⟨workspaceId, -, h⟩
  · exact absurd h checked_ne_raised
  · cases workspaceId with
    | some w => cases h
    | none =>
        cases requested with
        | some directory =>
            rcases bind_eq_error.mp h with h | ⟨t, -, h⟩
            · exact failsToResolve_of_resolveField h
            · cases h
        | none =>
            rcases bind_eq_error.mp h with h | ⟨t, -, h⟩
            · unfold resolveDirectory at h
              rcases bind_eq_error.mp h with h | ⟨directory, -, h⟩
              · exact absurd h checked_ne_raised
              · exact failsToResolve_of_resolveField h
            · cases h

end HandlerContext

/-! ## §3  Exceptions -/

/-- `except Exception`, which does not handle a cancellation. -/
def exceptException {α : Type} (p : Action α) (h : Raised → Action α) : Action α :=
  p.tryCatch fun x => if x = .cancelled then .raises x else h x

theorem meets_exceptException {α σ : Type} {M : Monitor Effect Effect.Answer Raised σ}
    {Q : Except Raised α → σ → Prop} {p : Action α} {h : Raised → Action α} {s : σ} :
    Meets M Q (exceptException p h) s ↔
      Meets M (fun r t =>
        match r with
        | .ok a => Q (.ok a) t
        | .error x => if x = .cancelled then Q (.error x) t else Meets M Q (h x) t) p s := by
  refine meets_tryCatch.trans (meets_congr ?_)
  rintro (x | a) t
  · dsimp only
    split
    · exact meets_raises
    · exact Iff.rfl
  · exact Iff.rfl

/-- `str(exc)` -/
def Raised.text : Raised → Text
  | .concurrencyLimit text | .contractError text | .valueError text | .permissionError text
  | .other text => text
  | .httpStatusError _ | .httpError | .cancelled => []

/-- What an error says about the request it answers. -/
structure ErrorContext where
  method : Option Text
  sessionId : Option Text

def ErrorContext.entries (c : ErrorContext) (detail : Option Text) : Mapping :=
  (c.method.map (entry "method")).toList ++ (c.sessionId.map (entry "session_id")).toList ++
    (detail.map (entry "detail")).toList

/-- `build_upstream_http_error_response` -/
def buildUpstreamHttpError (c : ErrorContext) (status : ℕ) : RpcError :=
  .jsonrpc errUpstreamHttpError "Upstream OpenCode error".toList
    ([entry "type" "UPSTREAM_HTTP_ERROR".toList, ("upstream_status".toList, .int status)] ++
      c.entries none)

/-- `build_upstream_unreachable_error_response` -/
def buildUpstreamUnreachableError (c : ErrorContext) (detail : Option Text) : RpcError :=
  .jsonrpc errUpstreamUnreachable "Upstream OpenCode unreachable".toList
    ([entry "type" "UPSTREAM_UNREACHABLE".toList] ++ c.entries detail)

/-- `build_upstream_payload_error_response` -/
def buildUpstreamPayloadError (c : ErrorContext) (detail : Text) : RpcError :=
  .jsonrpc errUpstreamPayloadError "Upstream OpenCode payload mismatch".toList
    ([entry "type" "UPSTREAM_PAYLOAD_ERROR".toList, entry "detail" detail] ++ c.entries none)

/-- What a handler hands to `build_upstream_exception_response` beside the exception. -/
structure ExceptionHandling where
  context : ErrorContext
  /-- whether there is an `upstream_payload_error_code` -/
  mapsPayloads : Bool
  onNotFound : Option RpcError
  onPermissionError : Option RpcError

/-- `build_upstream_exception_response` -/
def ExceptionHandling.respond (h : ExceptionHandling) : Raised → RpcError
  | .httpStatusError status =>
      match h.onNotFound with
      | some e => if status = 404 then e else buildUpstreamHttpError h.context status
      | none => buildUpstreamHttpError h.context status
  | .httpError => buildUpstreamUnreachableError h.context none
  | .concurrencyLimit text => buildUpstreamUnreachableError h.context (some text)
  | .contractError text =>
      if h.mapsPayloads then buildUpstreamPayloadError h.context text else .internal (.other text)
  | .valueError text =>
      if h.mapsPayloads then buildUpstreamPayloadError h.context text else .internal (.other text)
  | .permissionError text => h.onPermissionError.getD (.internal (.other text))
  | x => .internal (.other x.text)

/-- `invoke_upstream_or_error` -/
def invokeUpstreamOrError {α : Type} (h : ExceptionHandling) (invoke : Action α) :
    Action (Except RpcError α) :=
  exceptException (do return .ok (← invoke)) fun x => return .error (h.respond x)

/-! ## §4  The guard of a session -/

structure SessionClaimGuard where
  identity : Option Text
  sessionId : Option Text
  pending : Bool := false
  finalized : Bool := false

namespace SessionClaimGuard

variable (g : SessionClaimGuard)

/-- `self._identity and self._session_id` -/
def claims? : Option (Text × Text) :=
  match g.identity.filter (· ≠ []), g.sessionId.filter (· ≠ []) with
  | some identity, some sessionId => some (identity, sessionId)
  | _, _ => none

/-- `__aenter__` -/
def enter : Action SessionClaimGuard :=
  match g.claims? with
  | none => return g
  | some (identity, sessionId) => do
      let pending ← Prog.call (A := Effect.Answer) (.claim identity sessionId)
      return { g with pending }

/-- A pending claim that is not finalised. -/
def open? : Option (Text × Text) := if g.pending && !g.finalized then g.claims? else none

/-- `finalize` -/
def finalize : Action SessionClaimGuard :=
  match g.open? with
  | none => return g
  | some (identity, sessionId) => do
      Prog.call (A := Effect.Answer) (.finalize identity sessionId)
      return { g with finalized := true }

/-- `__aexit__` -/
def exit : Action Unit :=
  match g.open? with
  | none => return ()
  | some (identity, sessionId) =>
      exceptException (Prog.call (A := Effect.Answer) (.release identity sessionId))
        fun _ => return ()

/-- `async with g: a = …; await g.finalize(); …`, where the three dots are `first` and
`second`. -/
def within {α β : Type} (first : Action α) (second : α → Action β) : Action β := do
  let g ← g.enter
  match ← (do return (← first, ← g.finalize) : Action (α × SessionClaimGuard)).ending with
  | .error x => Prog.andFinally (.raises x) g.exit
  | .ok (a, g) => (second a).andFinally g.exit

end SessionClaimGuard

end OpencodeA2a.Extension
