import OpencodeA2a.Store.Interrupts
import Mathlib.Data.List.Sort

/-!
# Interrupt callbacks

`handle_interrupt_callback_request` of `jsonrpc/handlers/interrupt_callbacks.py`:
the reply of a client to a permission or a question is checked against the
binding of the request and sent upstream; then the binding is discarded. The
handler is cut where it awaits.
-/

namespace OpencodeA2a.Jsonrpc

open OpencodeA2a.Stream (Text Json Mapping)
open OpencodeA2a.Store

/-! ## §1  Errors -/

/-- An exception that the handler reports as an internal error. -/
inductive HandlerException where
  | database (e : DbError)
  | other (text : Text)

/-- `JSONRPCError`, and the errors of the SDK that the handlers raise. -/
inductive RpcError where
  | jsonrpc (code : ℤ) (message : Text) (data : Mapping)
  | invalidParams (message : Text) (data : Mapping)
  /-- `InternalError(message=str(exc))` -/
  | internal (exc : HandlerException)

def entry (key : String) (value : Text) : Text × Json := (key.toList, .str value)

/-- `data={"type": "INVALID_FIELD", "field": field}` -/
def invalidField (message field : String) : RpcError :=
  .invalidParams message.toList
    [entry "type" "INVALID_FIELD".toList, entry "field" field.toList]

/-- `data={"type": "INVALID_FIELD", "fields": fields}` -/
def invalidFields (message : String) (fields : List Text) : RpcError :=
  .invalidParams (message.toList ++ ": ".toList ++ (", ".toList).intercalate fields)
    [entry "type" "INVALID_FIELD".toList, ("fields".toList, .arr (fields.map .str))]

def errInterruptNotFound : ℤ := -32004
def errInterruptExpired : ℤ := -32007
def errInterruptTypeMismatch : ℤ := -32008
def errUpstreamUnreachable : ℤ := -32002
def errUpstreamHttpError : ℤ := -32003

/-- `interrupt_not_found_error` -/
def interruptNotFoundError (code : ℤ) (requestId : Text) (expired : Bool) : RpcError :=
  .jsonrpc code
    (if expired then "Interrupt request expired".toList else "Interrupt request not found".toList)
    [entry "type" (if expired then "INTERRUPT_REQUEST_EXPIRED".toList
      else "INTERRUPT_REQUEST_NOT_FOUND".toList), entry "request_id" requestId]

/-- `interrupt_type_mismatch_error` -/
def interruptTypeMismatchError (code : ℤ) (requestId expected actual : Text) : RpcError :=
  .jsonrpc code "Interrupt callback type mismatch".toList
    [entry "type" "INTERRUPT_TYPE_MISMATCH".toList, entry "request_id" requestId,
      entry "expected_interrupt_type" expected, entry "actual_interrupt_type" actual]

/-- `upstream_http_error`, for an interrupt request -/
def upstreamHttpError (code status : ℤ) (requestId : Text) : RpcError :=
  .jsonrpc code "Upstream OpenCode error".toList
    [entry "type" "UPSTREAM_HTTP_ERROR".toList, ("upstream_status".toList, .int status),
      entry "request_id" requestId]

/-- `upstream_unreachable_error`, for an interrupt request -/
def upstreamUnreachableError (code : ℤ) (requestId : Text) (detail : Option Text) : RpcError :=
  .jsonrpc code "Upstream OpenCode unreachable".toList
    ([entry "type" "UPSTREAM_UNREACHABLE".toList, entry "request_id" requestId] ++
      (detail.map (entry "detail")).toList)

/-! ## §2  Parameters -/

/-- `params.get(key)`, where `null` is as good as missing -/
def field? (m : Mapping) (key : String) : Option Json :=
  match m.get? key with
  | some .null => none
  | value => value

/-- The names of a mapping that are not allowed, in order. -/
def unknownFields (m : Mapping) (allowed : List String) : List Text :=
  ((m.map Prod.fst).filter fun key => key ∉ allowed.map String.toList).insertionSort (· ≤ ·)

/-- `_parse_metadata_objects` -/
def parseMetadataObjects (params : Mapping) (strictTopLevel validateSharedObject : Bool) :
    Except RpcError (Option Mapping) :=
  match field? params "metadata" with
  | none => .ok none
  | some (.obj metadata) =>
      let unknown := unknownFields metadata ["opencode", "shared"]
      if strictTopLevel && !unknown.isEmpty then
        .error (invalidFields "Unsupported metadata fields"
          (unknown.map fun key => "metadata.".toList ++ key))
      else
        let opencode := field? metadata "opencode"
        if opencode.any fun j => j.asMapping?.isNone then
          .error (invalidField "metadata.opencode must be an object" "metadata.opencode")
        else if validateSharedObject &&
            ((field? metadata "shared").any fun j => j.asMapping?.isNone) then
          .error (invalidField "metadata.shared must be an object" "metadata.shared")
        else .ok (opencode.bind Json.asMapping?)
  | some _ => .error (invalidField "metadata must be an object" "metadata")

/-- `extract_directory_from_metadata` -/
def extractDirectoryFromMetadata (params : Mapping) : Except RpcError (Option Text) := do
  match (← parseMetadataObjects params true true).bind fun m => field? m "directory" with
  | none => return none
  | some (.str directory) => return some directory
  | some _ =>
      throw (invalidField "metadata.opencode.directory must be a string"
        "metadata.opencode.directory")

/-- `extract_workspace_id_from_metadata` -/
def extractWorkspaceIdFromMetadata (params : Mapping) : Except RpcError (Option Text) := do
  match (← parseMetadataObjects params false false).bind fun m => field? m "workspace" with
  | none => return none
  | some (.obj workspace) =>
      match field? workspace "id" with
      | none => return none
      | some (.str id) => return Stream.nonempty? id
      | some _ =>
          throw (invalidField "metadata.opencode.workspace.id must be a string"
            "metadata.opencode.workspace.id")
  | some _ =>
      throw (invalidField "metadata.opencode.workspace must be an object"
        "metadata.opencode.workspace")

/-- `_normalize_permission_reply`; the error is the text of the `ValueError`. -/
def normalizePermissionReply : Option Json → Except Text Text
  | some (.str value) =>
      let normalized := value.strip.lower
      if normalized ∈ ["once".toList, "always".toList, "reject".toList] then .ok normalized
      else .error "reply must be one of: once, always, reject".toList
  | _ => .error "reply must be a string".toList

/-- The texts of one group of answers. -/
def parseAnswerGroup (index : ℕ) : List Json → Except Text (List Text)
  | [] => .ok []
  | .str option :: options => do
      let rest ← parseAnswerGroup index options
      return (Stream.nonempty? option).toList ++ rest
  | _ :: _ =>
      .error ("answers[".toList ++ (toString index).toList ++
        "] must contain only strings".toList)

def parseAnswerGroups (index : ℕ) : List Json → Except Text (List (List Text))
  | [] => .ok []
  | .arr options :: groups => do
      let group ← parseAnswerGroup index options
      let rest ← parseAnswerGroups (index + 1) groups
      return group :: rest
  | _ :: _ =>
      .error ("answers[".toList ++ (toString index).toList ++
        "] must be an array of strings".toList)

/-- `_parse_question_answers` -/
def parseQuestionAnswers : Option Json → Except Text (List (List Text))
  | some (.arr groups) => parseAnswerGroups 0 groups
  | _ => .error "answers must be an array".toList

/-! ## §3  The handler -/

/-- The methods that the handler is registered for. -/
inductive CallbackMethod where
  | replyPermission
  | replyQuestion
  | rejectQuestion
deriving DecidableEq

/-- A callback request, and who makes it. -/
structure CallbackRequest where
  /-- a notification has no id -/
  id : Option Json
  method : CallbackMethod
  params : Mapping
  userIdentity : Option Text
  userCredentialId : Option Text

/-- `routing_kwargs` -/
structure Routing where
  directory : Option Text
  workspaceId : Option Text

/-- A call of the upstream client. -/
inductive UpstreamCall where
  | permissionReply (requestId reply : Text) (message : Option Text) (routing : Routing)
  | questionReply (requestId : Text) (answers : List (List Text)) (routing : Routing)
  | questionReject (requestId : Text) (routing : Routing)

/-- How such a call ends. -/
inductive UpstreamOutcome where
  | returned (value : Bool)
  | valueError (text : Text)
  | httpStatusError (status : ℤ)
  | httpError
  | concurrencyLimit (text : Text)
  | otherError (text : Text)

inductive CallbackAnswer where
  | noContent
  /-- `{"ok": True, "request_id": request_id}` -/
  | success (requestId : Text)
  | error (e : RpcError)

namespace CallbackRequest

variable (request : CallbackRequest)

/-- What is checked before the binding is looked up. -/
def parse : Except RpcError (Text × Routing) :=
  match (request.params.getStr? "request_id").bind Stream.nonempty? with
  | none =>
      .error (.invalidParams "Missing required params.request_id".toList
        [entry "type" "MISSING_FIELD".toList, entry "field" "request_id".toList])
  | some requestId => do
      let directory ← extractDirectoryFromMetadata request.params
      let workspaceId ← extractWorkspaceIdFromMetadata request.params
      return (requestId, ⟨directory, workspaceId⟩)

def expectedInterruptType : Text :=
  if request.method = .replyPermission then "permission".toList else "question".toList

def allowedFields : List String :=
  match request.method with
  | .replyPermission => ["request_id", "reply", "message", "metadata"]
  | .replyQuestion => ["request_id", "answers", "metadata"]
  | .rejectQuestion => ["request_id", "metadata"]

/-- Both are given, and they differ. -/
def mismatch (caller owner : Option Text) : Bool :=
  match caller, owner with
  | some c, some o => c ≠ [] && o ≠ [] && o ≠ c
  | _, _ => false

/-- The checks of what the lookup has found. -/
def checkResolution (requestId : Text) (status : InterruptStatus)
    (binding : Option InterruptRequestBinding) : Except RpcError Unit :=
  match status with
  | .expired => .error (interruptNotFoundError errInterruptExpired requestId true)
  | .missing => .error (interruptNotFoundError errInterruptNotFound requestId false)
  | .active =>
      match binding with
      | none => .ok ()
      | some b =>
          if b.interruptType ≠ request.expectedInterruptType then
            .error (interruptTypeMismatchError errInterruptTypeMismatch requestId
              request.expectedInterruptType b.interruptType)
          else if mismatch request.userIdentity b.identity then
            .error (interruptNotFoundError errInterruptNotFound requestId false)
          else if mismatch request.userCredentialId b.credentialId then
            .error (interruptNotFoundError errInterruptNotFound requestId false)
          else .ok ()

/-- The call that the parameters ask for; the error is the text of the `ValueError`. -/
def upstreamCall (requestId : Text) (routing : Routing) : Except Text UpstreamCall :=
  match request.method with
  | .replyPermission => do
      let reply ← normalizePermissionReply (request.params.get? "reply")
      match field? request.params "message" with
      | none => return .permissionReply requestId reply none routing
      | some (.str message) => return .permissionReply requestId reply (some message) routing
      | some _ => throw "message must be a string".toList
  | .replyQuestion => do
      let answers ← parseQuestionAnswers (request.params.get? "answers")
      return .questionReply requestId answers routing
  | .rejectQuestion => .ok (.questionReject requestId routing)

/-- `invalid_params_error(str(exc), data={"type": "INVALID_FIELD"})` -/
def invalidValue (text : Text) : RpcError :=
  .invalidParams text [entry "type" "INVALID_FIELD".toList]

/-- From the lookup to the call. -/
def proceed (requestId : Text) (routing : Routing) (status : InterruptStatus)
    (binding : Option InterruptRequestBinding) : Except RpcError UpstreamCall := do
  request.checkResolution requestId status binding
  let unknown := unknownFields request.params request.allowedFields
  if !unknown.isEmpty then throw (invalidFields "Unsupported fields" unknown)
  match request.upstreamCall requestId routing with
  | .ok call => return call
  | .error text => throw (invalidValue text)

/-- `build_success_response` -/
def successAnswer (requestId : Text) : CallbackAnswer :=
  if request.id.isNone then .noContent else .success requestId

end CallbackRequest

/-- What the handler does about an outcome. -/
inductive AfterCall where
  /-- it discards the binding, then answers -/
  | discard
  | discardNotFound
  | answer (e : RpcError)

def UpstreamOutcome.afterCall (requestId : Text) : UpstreamOutcome → AfterCall
  | .returned _ => .discard
  | .valueError text => .answer (CallbackRequest.invalidValue text)
  | .httpStatusError status =>
      if status = 404 then .discardNotFound
      else .answer (upstreamHttpError errUpstreamHttpError status requestId)
  | .httpError => .answer (upstreamUnreachableError errUpstreamUnreachable requestId none)
  | .concurrencyLimit text =>
      .answer (upstreamUnreachableError errUpstreamUnreachable requestId (some text))
  | .otherError text => .answer (.internal (.other text))

end OpencodeA2a.Jsonrpc
