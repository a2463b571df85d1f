import OpencodeA2a.Stream.Errors

/-!
# Reading an upstream event

The extractors of `stream_events.py`: what `consume` takes from the payload of
one server-sent event. Log lines and metrics are left out.
-/

namespace OpencodeA2a.Stream

/-! ## §1  Fields of events and parts -/

inductive BlockType where
  | text
  | reasoning
  | toolCall
deriving DecidableEq, Repr

inductive Role where
  | agent
  | user
  | system
deriving DecidableEq, Repr

/-- `_normalize_role` -/
def normalizeRole (role : Option Json) : Option Role :=
  match role.bind Json.asStr? with
  | none => none
  | some t =>
      let value := t.strip.lower
      if value = "assistant".toList then some .agent
      else if value = "user".toList then some .user
      else if value = "system".toList then some .system
      else none

/-- `bool(value)` -/
def Json.truthy : Json → Bool
  | .null => false
  | .bool b => b
  | .int n => n != 0
  | .float _ isZero => !isZero
  | .str s => !s.isEmpty
  | .arr items => !items.isEmpty
  | .obj entries => !entries.isEmpty

/-- `a or b` for two fields that may be absent. -/
def orField (a b : Option Json) : Option Json :=
  match a with
  | some v => if v.truthy then some v else b
  | none => b

/-- `_extract_stream_session_id` -/
def extractStreamSessionId (part props : Mapping) : Option Text :=
  (extractFirstNonemptyString part ["sessionID"]).orElse fun _ =>
    extractFirstNonemptyString props ["sessionID"]

/-- `_extract_event_session_id` -/
def extractEventSessionId (event : Mapping) : Option Text :=
  (event.getMapping? "properties").bind fun props =>
    (extractFirstNonemptyString props ["sessionID"]).orElse fun _ =>
      ((props.getMapping? "info").bind fun info =>
        extractFirstNonemptyString info ["sessionID"]).orElse fun _ =>
          (props.getMapping? "part").bind fun part =>
            extractFirstNonemptyString part ["sessionID"]

/-- `_extract_stream_message_id` -/
def extractStreamMessageId (part props : Mapping) : Option Text :=
  (extractFirstNonemptyString part ["messageID"]).orElse fun _ =>
    extractFirstNonemptyString props ["messageID"]

/-- `_extract_stream_part_id` -/
def extractStreamPartId (part props : Mapping) : Option Text :=
  (extractFirstNonemptyString part ["id"]).orElse fun _ =>
    extractFirstNonemptyString props ["partID"]

/-- `_extract_stream_part_type` -/
def extractStreamPartType (part : Mapping) : Option Text :=
  ((part.getStr? "type").bind nonempty?).map Text.lower

/-- `_map_part_type_to_block_type` -/
def mapPartTypeToBlockType (partType : Option Text) : Option BlockType :=
  if partType = some "text".toList then some .text
  else if partType = some "reasoning".toList then some .reasoning
  else if partType = some "tool".toList then some .toolCall
  else none

/-- `_extract_stream_snapshot_text` -/
def extractStreamSnapshotText (part : Mapping) : Option Text :=
  if extractStreamPartType part = some "text".toList ∨
      extractStreamPartType part = some "reasoning".toList then
    extractFirstNonemptyString part ["text"]
  else none

/-- The entry `key`, where its text is not blank: stripped. -/
def textEntry (source : Mapping) (key : String) (name : String) : Mapping :=
  ((extractOptionalString source key).map fun t => (name.toList, Json.str t)).toList

/-- The entry `key` as it is, where it is not `None`. -/
def valueEntry (source : Mapping) (key : String) : Mapping :=
  match source.get? key with
  | some .null => []
  | some v => [(key.toList, v)]
  | none => []

/-- `_extract_tool_part_payload` -/
def extractToolPartPayload (part : Mapping) : Option Mapping :=
  let state := part.getMappingD "state"
  let payload := textEntry part "callID" "call_id" ++ textEntry part "tool" "tool" ++
    textEntry state "status" "status" ++
    (["title", "subtitle", "input", "output", "error"].map (valueEntry state)).flatten
  if payload = [] then none else some payload

/-! ## §2  Progress -/

/-- The `progress` metadata of a step. -/
structure Progress where
  type : Text
  status : Option Text
deriving DecidableEq

/-- `_extract_progress_metadata` -/
def extractProgressMetadata (part : Mapping) : Option Progress :=
  match extractStreamPartType part with
  | none => none
  | some partType =>
      if partType = "step-start".toList ∨ partType = "step-finish".toList ∨
          partType = "snapshot".toList then
        some ⟨partType, (part.getMapping? "state").bind fun state =>
          extractFirstNonemptyString state ["status"]⟩
      else none

/-- `_build_progress_identity` -/
def buildProgressIdentity (part props : Mapping) : Text :=
  let partType := (extractStreamPartType part).getD "unknown".toList
  match (extractStreamPartId part props).orElse fun _ => extractStreamMessageId part props with
  | some i => partType ++ ":".toList ++ i
  | none => partType

/-! ## §3  Errors and the terminal signal -/

/-- `_extract_upstream_error_from_event` -/
def extractUpstreamErrorFromEvent (eventType : Text) (props : Mapping) : Option UpstreamError :=
  if eventType = "session.error".toList then
    extractUpstreamErrorFromPayload props "session.error"
  else if eventType = "message.updated".toList then
    (props.getMapping? "info").bind fun info =>
      extractUpstreamErrorFromPayload info "message.updated"
  else none

/-- `_extract_stream_terminal_signal` -/
def extractStreamTerminalSignal (eventType : Text) (props : Mapping) : Option TerminalSignal :=
  if eventType = "session.idle".toList then some .completed
  else if eventType = "session.error".toList then
    match props.getMapping? "error" with
    | none => some (.error (formatStreamTerminalError none none none))
    | some error =>
        let e := extractErrorPayload error
        some (.error (formatStreamTerminalError e.detail e.status e.name))
  else none

theorem extractUpstreamErrorFromEvent_isError {eventType : Text} {props : Mapping}
    {e : UpstreamError} (h : extractUpstreamErrorFromEvent eventType props = some e) :
    e.state.IsError := by
  unfold extractUpstreamErrorFromEvent at h
  split at h
  · exact extractUpstreamErrorFromPayload_isError h
  · split at h
    · obtain ⟨info, -, hinfo⟩ := Option.bind_eq_some_iff.mp h
      exact extractUpstreamErrorFromPayload_isError hinfo
    · cases h

theorem extractStreamTerminalSignal_isError {eventType : Text} {props : Mapping}
    {e : UpstreamError} (h : extractStreamTerminalSignal eventType props = some (.error e)) :
    e.state.IsError := by
  unfold extractStreamTerminalSignal at h
  split at h
  · cases h
  · split at h
    · split at h <;> cases h <;> exact formatInbandUpstreamError_isError ..
    · cases h

/-! ## §4  Interrupts -/

inductive InterruptType where
  | permission
  | question
deriving DecidableEq

/-- The `details` of an asked interrupt. -/
inductive InterruptDetails where
  | permission (permission : Option Text) (patterns : List Text)
  | questions (questions : List Mapping)

structure InterruptAsked where
  requestId : Text
  interruptType : InterruptType
  details : InterruptDetails

inductive InterruptResolution where
  | replied
  | rejected
deriving DecidableEq

structure InterruptResolved where
  requestId : Text
  interruptType : InterruptType
  resolution : InterruptResolution

/-- `_extract_string_list` -/
def extractStringList (value : Option Json) : List Text :=
  ((value.bind Json.asList?).getD []).filterMap fun item => item.asStr?.bind nonempty?

/-- `_normalize_interrupt_question_options` -/
def normalizeInterruptQuestionOptions (value : Option Json) : List Mapping :=
  ((value.bind Json.asList?).getD []).filterMap fun item =>
    item.asMapping?.bind fun option =>
      let normalized := (["label", "value", "description"].map fun key =>
        textEntry option key key).flatten
      if normalized = [] then none else some normalized

/-- `_normalize_interrupt_questions` -/
def normalizeInterruptQuestions (value : Option Json) : List Mapping :=
  ((value.bind Json.asList?).getD []).filterMap fun item =>
    item.asMapping?.bind fun question =>
      let options := normalizeInterruptQuestionOptions (question.get? "options")
      let normalized := (["header", "question"].map fun key => textEntry question key key).flatten ++
        if options = [] then [] else [("options".toList, Json.arr (options.map Json.obj))]
      if normalized = [] then none else some normalized

/-- `_extract_interrupt_asked_event` -/
def extractInterruptAskedEvent (eventType : Text) (props : Mapping) : Option InterruptAsked :=
  if eventType = "permission.asked".toList then
    (extractFirstNonemptyString props ["id"]).map fun requestId =>
      ⟨requestId, .permission, .permission (extractOptionalString props "permission")
        (extractStringList (props.get? "patterns"))⟩
  else if eventType = "question.asked".toList then
    (extractFirstNonemptyString props ["id"]).map fun requestId =>
      ⟨requestId, .question, .questions (normalizeInterruptQuestions (props.get? "questions"))⟩
  else none

/-- `_extract_interrupt_resolved_event` -/
def extractInterruptResolvedEvent (eventType : Text) (props : Mapping) :
    Option InterruptResolved :=
  if eventType = "permission.replied".toList ∨ eventType = "question.replied".toList ∨
      eventType = "question.rejected".toList then
    (extractFirstNonemptyString props ["requestID"]).map fun requestId =>
      ⟨requestId, if eventType = "permission.replied".toList then .permission else .question,
        if eventType = "question.rejected".toList then .rejected else .replied⟩
  else none

/-! ## §5  Token usage -/

/-- Numbers, which may be floating-point: `_coerce_number`, and the sum of two
of its results. -/
structure Numerics where
  coerce : Json → Option Json
  add : Json → Json → Json

namespace Numerics

/-- The integers alone. -/
def integers : Numerics where
  coerce
    | .int n => some (.int n)
    | _ => none
  add
    | .int m, .int n => .int (m + n)
    | m, _ => m

variable (num : Numerics)

/-- The entry `key`, where it is a number. -/
def entry (source : Mapping) (key name : String) : Mapping :=
  (((source.get? key).bind num.coerce).map fun n => (name.toList, n)).toList

/-- `total_tokens`: what is reported, else the sum where both terms are. -/
def totalEntry (tokens : Mapping) : Mapping :=
  match num.entry tokens "total" "total_tokens" with
  | [] =>
      match (tokens.get? "input").bind num.coerce, (tokens.get? "output").bind num.coerce with
      | some input, some output => [("total_tokens".toList, num.add input output)]
      | _, _ => []
  | total => total

/-- `_extract_usage_from_info_like` -/
def extractUsageFromInfoLike (info : Mapping) : Option Mapping :=
  (info.getMapping? "tokens").bind fun tokens =>
    let cacheUsage := match tokens.getMapping? "cache" with
      | some cache => num.entry cache "read" "read_tokens" ++ num.entry cache "write" "write_tokens"
      | none => []
    let usage := num.entry tokens "input" "input_tokens" ++
      num.entry tokens "output" "output_tokens" ++ num.totalEntry tokens ++
      num.entry tokens "reasoning" "reasoning_tokens" ++
      (if cacheUsage = [] then [] else [("cache_tokens".toList, Json.obj cacheUsage)]) ++
      num.entry info "cost" "cost"
    if usage = [] then none else some usage

/-- `_extract_token_usage`: the first of the places that has one. -/
def extractTokenUsage (payload : Mapping) : Option Mapping :=
  let props := payload.getMapping? "properties"
  let part := (props.bind fun props => props.getMapping? "part").filter fun part =>
    extractStreamPartType part = some "step-finish".toList
  ((payload.getMapping? "info").bind num.extractUsageFromInfoLike).orElse fun _ =>
    ((props.bind fun props => props.getMapping? "info").bind
      num.extractUsageFromInfoLike).orElse fun _ =>
      part.bind num.extractUsageFromInfoLike

end Numerics

end OpencodeA2a.Stream
