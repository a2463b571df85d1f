import OpencodeA2a.Stream.Json
import Mathlib.Tactic.SplitIfs

/-!
# Upstream errors

The task state, type and message an upstream error is reported with: the table
of `upstream_taxonomy.py` and the formats of `upstream_error_translator.py`.
-/

namespace OpencodeA2a.Stream

inductive TaskState where
  | working
  | inputRequired
  | authRequired
  | completed
  | failed
  | canceled
deriving DecidableEq, Repr

/-! ## §1  The taxonomy of HTTP statuses -/

structure UpstreamHTTPErrorProfile where
  errorType : Text
  state : TaskState
  defaultMessage : Text

/-- `resolve_upstream_http_error_profile`; `shown` is `str(status)`. -/
def resolveUpstreamHttpErrorProfile (status : ℤ) (shown : Text) : UpstreamHTTPErrorProfile :=
  if status = 400 then
    ⟨"UPSTREAM_BAD_REQUEST".toList, .failed,
      "OpenCode rejected the request due to invalid input".toList⟩
  else if status = 401 then
    ⟨"UPSTREAM_UNAUTHORIZED".toList, .authRequired,
      "OpenCode rejected the request due to authentication failure".toList⟩
  else if status = 403 then
    ⟨"UPSTREAM_PERMISSION_DENIED".toList, .failed,
      "OpenCode rejected the request due to insufficient permissions".toList⟩
  else if status = 404 then
    ⟨"UPSTREAM_RESOURCE_NOT_FOUND".toList, .failed,
      "OpenCode rejected the request because the target resource was not found".toList⟩
  else if status = 429 then
    ⟨"UPSTREAM_QUOTA_EXCEEDED".toList, .failed,
      "OpenCode rejected the request due to quota limits".toList⟩
  else if 400 ≤ status ∧ status < 500 then
    ⟨"UPSTREAM_CLIENT_ERROR".toList, .failed,
      "OpenCode rejected the request with client error ".toList ++ shown⟩
  else if 500 ≤ status then
    ⟨"UPSTREAM_SERVER_ERROR".toList, .failed,
      "OpenCode rejected the request with server error ".toList ++ shown⟩
  else
    ⟨"UPSTREAM_HTTP_ERROR".toList, .failed,
      "OpenCode rejected the request with HTTP status ".toList ++ shown⟩

/-- An error is reported as a failure or as missing authentication, never as a
state the task goes on from or is completed in. -/
def TaskState.IsError (s : TaskState) : Prop := s = .failed ∨ s = .authRequired

theorem resolveUpstreamHttpErrorProfile_isError (status : ℤ) (shown : Text) :
    (resolveUpstreamHttpErrorProfile status shown).state.IsError := by
  unfold resolveUpstreamHttpErrorProfile TaskState.IsError
  split_ifs <;> simp

/-! ## §2  Formats -/

/-- `_UpstreamInBandError`, and `_StreamTerminalSignal` where it reports an error. -/
structure UpstreamError where
  errorType : Text
  state : TaskState
  message : Text
  upstreamStatus : Option ℤ := none

/-- ` ({source}, a, b).`, without the parts that are missing -/
def inParens (source : Text) (parts : List Text) : Text :=
  " (".toList ++ source ++ (parts.map fun t => ", ".toList ++ t).flatten ++ ").".toList

/-- `detail={detail}` -/
def detailPart (detail : Option Text) : List Text :=
  (detail.map fun d => "detail=".toList ++ d).toList

/-- `_format_upstream_error`, whose source is the request that failed -/
def formatUpstreamError (source : Text) (status : ℤ) (shown : Text) (detail : Option Text) :
    UpstreamError :=
  let profile := resolveUpstreamHttpErrorProfile status shown
  ⟨profile.errorType, profile.state,
    profile.defaultMessage ++ inParens source (("status=".toList ++ shown) :: detailPart detail),
    some status⟩

/-- `_format_inband_upstream_error` -/
def formatInbandUpstreamError (source : Text) (detail : Option Text) (status : Option (ℤ × Text))
    (errorName : Option Text) : UpstreamError :=
  match status with
  | some (n, shown) => formatUpstreamError source n shown detail
  | none =>
      if errorName = some "ProviderAuthError".toList then
        ⟨"UPSTREAM_UNAUTHORIZED".toList, .authRequired,
          "OpenCode rejected the request due to authentication failure".toList ++
            inParens source (detailPart detail), none⟩
      else
        ⟨"UPSTREAM_EXECUTION_ERROR".toList, .failed,
          "OpenCode execution failed".toList ++ inParens source
            (match detail, errorName with
            | some d, _ => ["detail=".toList ++ d]
            | none, some name => ["error=".toList ++ name]
            | none, none => []), none⟩

/-- `_format_stream_terminal_error` -/
def formatStreamTerminalError (detail : Option Text) (status : Option (ℤ × Text))
    (errorName : Option Text) : UpstreamError :=
  formatInbandUpstreamError "session.error".toList detail status errorName

theorem formatUpstreamError_isError (source : Text) (status : ℤ) (shown : Text)
    (detail : Option Text) : (formatUpstreamError source status shown detail).state.IsError :=
  resolveUpstreamHttpErrorProfile_isError status shown

theorem formatInbandUpstreamError_isError (source : Text) (detail : Option Text)
    (status : Option (ℤ × Text)) (errorName : Option Text) :
    (formatInbandUpstreamError source detail status errorName).state.IsError := by
  unfold formatInbandUpstreamError
  split
  · exact formatUpstreamError_isError ..
  · split
    · exact .inr rfl
    · exact .inl rfl

/-- `_StreamTerminalSignal` -/
inductive TerminalSignal where
  | completed
  | error (e : UpstreamError)

def TerminalSignal.state : TerminalSignal → TaskState
  | .completed => .completed
  | .error e => e.state

/-- The error an event's or a response's payload carries. -/
structure ErrorPayload where
  name : Option Text
  detail : Option Text
  status : Option (ℤ × Text)

/-- The reads that `_extract_upstream_error_from_payload` and
`_extract_stream_terminal_signal` share. -/
def extractErrorPayload (error : Mapping) : ErrorPayload :=
  let errorDataMap := error.getMappingD "data"
  { name := extractFirstNonemptyString error ["name"]
    detail := (extractFirstNonemptyString errorDataMap ["message"]).orElse fun _ =>
      extractFirstNonemptyString error ["message"]
    status := (errorDataMap.get? "statusCode").bind Json.asInt? }

/-- `_extract_upstream_error_from_payload` -/
def extractUpstreamErrorFromPayload (payload : Mapping) (source : String) : Option UpstreamError :=
  (payload.getMapping? "error").map fun error =>
    let e := extractErrorPayload error
    formatInbandUpstreamError source.toList e.detail e.status e.name

/-- `_extract_upstream_error_from_response` -/
def extractUpstreamErrorFromResponse (responseRaw : Mapping) : Option UpstreamError :=
  (responseRaw.getMapping? "info").bind fun info =>
    extractUpstreamErrorFromPayload info "response.info.error"

theorem extractUpstreamErrorFromPayload_isError {payload : Mapping} {source : String}
    {e : UpstreamError} (h : extractUpstreamErrorFromPayload payload source = some e) :
    e.state.IsError := by
  unfold extractUpstreamErrorFromPayload at h
  obtain ⟨error, -, rfl⟩ := Option.map_eq_some_iff.mp h
  exact formatInbandUpstreamError_isError ..

theorem extractUpstreamErrorFromResponse_isError {raw : Mapping} {e : UpstreamError}
    (h : extractUpstreamErrorFromResponse raw = some e) : e.state.IsError := by
  unfold extractUpstreamErrorFromResponse at h
  obtain ⟨info, -, hinfo⟩ := Option.bind_eq_some_iff.mp h
  exact extractUpstreamErrorFromPayload_isError hinfo

end OpencodeA2a.Stream
