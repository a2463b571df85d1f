import OpencodeA2a.Server.ExtensionNegotiation
import OpencodeA2a.Server.TaskStore

/-!
# The request handler

`OpencodeRequestHandler`: what each of the six operations makes of what the SDK and
the task store give it. The SDK's part is an argument; where a step waits for it, the
answer comes with the registry as the handler then finds it.
-/

namespace OpencodeA2a.Server

open OpencodeA2a.Stream

/-! ## §1  Requests and errors -/

/-- The message of a send request. `metadata` may be anything. -/
structure RequestMessage where
  taskId : Text := []
  metadata : Json := .null

/-- `SendMessageRequest` -/
structure SendParams where
  message : Option RequestMessage := none
  metadata : Json := .null
  acceptedOutputModes : List Text := []

inductive RequestError where
  /-- `TaskStoreOperationError`, raised by the store's wrapper -/
  | taskStoreOperation (operation : String)
  | internal (message : Text)
  | taskNotFound
  | taskNotCancelable (message : Text)
  | unsupportedOperation (message : Text) (data : Mapping)
  /-- what else the SDK raises -/
  | other (message : Text)

/-- `_task_store_failure_message` -/
def taskStoreFailureMessage (operation : String) : Text :=
  if operation = "get" then "Task store unavailable while loading task state.".toList
  else if operation = "save" then "Task store unavailable while persisting task state.".toList
  else if operation = "delete" then "Task store unavailable while deleting task state.".toList
  else "Task store unavailable.".toList

/-- `except TaskStoreOperationError` -/
def RequestError.surface : RequestError → RequestError
  | .taskStoreOperation operation => .internal (taskStoreFailureMessage operation)
  | e => e

/-- What an awaited call answers, and the registry at that moment. -/
structure Awaited (α : Type) where
  outputModes : TaskOutputModeRegistry
  answer : Except RequestError α

/-- The events of a stream, each with the registry when it comes, and the error that
ends it, if one does. -/
structure Streamed where
  events : List (TaskOutputModeRegistry × Payload)
  ending : Option RequestError

/-! ## §2  Output modes of a request -/

section Negotiation

variable (py : TextFunctions)

/-- `_accepted_output_modes_from_params` -/
def acceptedOutputModesFromParams (params : SendParams) : Option (List Text) :=
  normalizeAcceptedOutputModes py (.arr (params.acceptedOutputModes.map .str))

/-- `_modes_for_task` -/
def modesForTask (registry : TaskOutputModeRegistry) (taskId : Text) (params : Option SendParams)
    (task : Option Task) : Option (List Text) :=
  match params.bind (acceptedOutputModesFromParams py) with
  | some requested => some requested
  | none => registry.resolve py taskId task

/-- `_negotiate` -/
def negotiate (payload : Payload) (modes : Option (List Text)) : Option Payload :=
  (applyAcceptedOutputModes py payload modes).map fun negotiated =>
    annotateOutputNegotiationMetadata py negotiated modes

/-- `_event_task_id` -/
def eventTaskId : Payload → Text
  | .task t => t.id
  | .message m => m.taskId
  | .statusUpdate e => e.taskId
  | .artifactUpdate e => e.taskId

def Payload.task? : Payload → Option Task
  | .task t => some t
  | .message _ | .statusUpdate _ | .artifactUpdate _ => none

def chatOutputModes : List Text := [textPlainMediaType, applicationJsonMediaType]

/-- `_validate_chat_output_modes`: the error it raises, if it does. -/
def validateChatOutputModes (params : SendParams) : Option RequestError :=
  match acceptedOutputModesFromParams py params with
  | none => none
  | some accepted =>
      if chatOutputModes.all fun mode => mode ∉ accepted then
        some (.unsupportedOperation
          ("Requested acceptedOutputModes are not compatible " ++
            "with OpenCode chat responses.").toList
          [("accepted_output_modes".toList, .arr (accepted.map .str)),
            ("supported_output_modes".toList, .arr (chatOutputModes.map .str))])
      else if textPlainMediaType ∉ accepted then
        some (.unsupportedOperation
          "OpenCode chat responses require text/plain in acceptedOutputModes.".toList
          [("accepted_output_modes".toList, .arr (accepted.map .str)),
            ("required_output_modes".toList, .arr [.str textPlainMediaType]),
            ("supported_output_modes".toList, .arr (chatOutputModes.map .str))])
      else none

end Negotiation

/-! ## §3  The extension gate -/

/-- `params_metadata` and `message_metadata`, where they are mappings with entries. -/
def gateSources (params : SendParams) : List Mapping :=
  [params.metadata, (params.message.map RequestMessage.metadata).getD .null].filterMap
    fun metadata => metadata.asMapping?.filter fun m => !m.isEmpty

/-- `any(extract_namespaced_value(...) is not None for source in sources)` -/
def gateFinds (sources : List Mapping) (namespace' : String) (path : List String) : Bool :=
  sources.any fun source =>
    match extractNamespacedValue (.obj source) namespace' path with
    | .null => false
    | _ => true

/-- The requirements that the sources bring up. -/
def gateRequirements (sources : List Mapping) : List ExtensionRequirement :=
  (if gateFinds sources "shared" ["session", "id"] then
    [⟨sessionBindingExtensionUri, "metadata.shared.session.id".toList⟩] else []) ++
  (if gateFinds sources "opencode" ["directory"] then
    [⟨sessionBindingExtensionUri, "metadata.opencode.directory".toList⟩] else []) ++
  (if gateFinds sources "opencode" ["workspace", "id"] then
    [⟨sessionBindingExtensionUri, "metadata.opencode.workspace.id".toList⟩] else []) ++
  if gateFinds sources "shared" ["model", "providerID"] ||
      gateFinds sources "shared" ["model", "modelID"] then
    [⟨modelSelectionExtensionUri, "metadata.shared.model".toList⟩] else []

/-- `_validate_shared_extension_negotiation`: the error it raises, if it does. -/
def validateSharedExtensionNegotiation (params : SendParams) (context : Option ServerCallContext) :
    Option RequestError :=
  let requested := requestedExtensionsFromCallContext context
  let missing := (gateRequirements (gateSources params)).filter fun requirement =>
    requirement.extensionUri ∉ requested
  if missing.isEmpty then none
  else
    some (.unsupportedOperation
      "Request requires explicit A2A extension negotiation via A2A-Extensions.".toList
      [("type".toList, .str "EXTENSION_NEGOTIATION_REQUIRED".toList),
        ("fields".toList, .arr (missing.map fun requirement => .str requirement.field)),
        ("required_extensions".toList, .arr
          (((missing.map ExtensionRequirement.extensionUri).dedup.insertionSort (· ≤ ·)).map
            .str)),
        ("requested_extensions".toList, .arr ((requested.insertionSort (· ≤ ·)).map .str)),
        ("header".toList, .str "A2A-Extensions".toList)])

/-! ## §4  The operations -/

variable (py : TextFunctions)

/-- `on_message_send`; `sdk` is the SDK's `on_message_send`, which runs the executor. -/
def onMessageSend {σ : Type} (params : SendParams) (context : Option ServerCallContext)
    (sdk : σ → Awaited Payload × σ) (world : σ) : Except RequestError (Option Payload) × σ :=
  match validateChatOutputModes py params with
  | some e => (.error e, world)
  | none =>
      match validateSharedExtensionNegotiation params context with
      | some e => (.error e, world)
      | none =>
          match sdk world with
          | (⟨_, .error e⟩, world') => (.error e.surface, world')
          | (⟨registry, .ok result⟩, world') =>
              let result := match result with
                | .task t => .task (canonicalizeStreamArtifacts t)
                | p => p
              let taskId := match result.task? with
                | some t => if t.id = [] then (params.message.map RequestMessage.taskId).getD []
                    else t.id
                | none => (params.message.map RequestMessage.taskId).getD []
              (.ok (negotiate py result
                (modesForTask py registry taskId (some params) result.task?)), world')

/-- One event of `on_message_send_stream`. -/
def sendStreamEvent (params : SendParams) (registry : TaskOutputModeRegistry) (event : Payload) :
    Option Payload :=
  let taskId := if eventTaskId event = [] then (params.message.map RequestMessage.taskId).getD []
    else eventTaskId event
  negotiate py event (modesForTask py registry taskId (some params) event.task?)

/-- `on_message_send_stream`: the events yielded, and the error that ends them. -/
def onMessageSendStream {σ : Type} (params : SendParams) (context : Option ServerCallContext)
    (sdk : σ → Streamed × σ) (world : σ) : (List Payload × Option RequestError) × σ :=
  match validateChatOutputModes py params with
  | some e => (([], some e), world)
  | none =>
      match validateSharedExtensionNegotiation params context with
      | some e => (([], some e), world)
      | none =>
          let (stream, world') := sdk world
          ((stream.events.filterMap fun e => sendStreamEvent py params e.1 e.2,
            stream.ending.map RequestError.surface), world')

/-- `on_get_task` -/
def onGetTask (taskId : Text) (context : Option ServerCallContext) (sdk : Awaited (Option Task)) :
    Except RequestError (Option Payload) :=
  match sdk.answer with
  | .error e => .error e.surface
  | .ok none => .ok none
  | .ok (some task) =>
      .ok ((negotiate py (.task task)
          (modesForTask py sdk.outputModes taskId none (some task))).map fun negotiated =>
        filterNegotiatedExtensionsFromPayload negotiated
          (requestedExtensionsFromCallContext context))

/-- One round of the loop of `on_list_tasks`. -/
def listedTask (historyLength : Option ℤ) (context : Option ServerCallContext)
    (registry : TaskOutputModeRegistry) (task : Task) : Payload :=
  let task := if historyLength.all fun n => n ≤ 0 then { task with history := [] } else task
  filterNegotiatedExtensionsFromPayload
    ((negotiate py (.task task) (modesForTask py registry task.id none (some task))).getD
      (.task task))
    (requestedExtensionsFromCallContext context)

/-- `on_list_tasks`: the tasks of the page. -/
def onListTasks (historyLength : Option ℤ) (context : Option ServerCallContext)
    (sdk : Awaited (List Task)) : Except RequestError (List Payload) :=
  match sdk.answer with
  | .error e => .error e.surface
  | .ok tasks => .ok (tasks.map (listedTask py historyLength context sdk.outputModes))

/-- `cast(Task, self._negotiate(task, modes))` under the modes of the task itself. -/
def negotiatedTask (registry : TaskOutputModeRegistry) (task : Task) : Option Payload :=
  negotiate py (.task task) (modesForTask py registry task.id none (some task))

/-- `except TaskNotCancelableError`: the task is read again. -/
def cancelRefused (message : Text) (reread : Awaited (Option Task)) :
    Except RequestError (Option Payload) :=
  match reread.answer with
  | .error e => .error e
  | .ok none => .error (.taskNotCancelable message)
  | .ok (some refreshed) =>
      if refreshed.status.state = .canceled then
        .ok (negotiatedTask py reread.outputModes refreshed)
      else .error (.taskNotCancelable message)

def taskStateName : TaskState → String
  | .unspecified => "TASK_STATE_UNSPECIFIED"
  | .submitted => "TASK_STATE_SUBMITTED"
  | .working => "TASK_STATE_WORKING"
  | .completed => "TASK_STATE_COMPLETED"
  | .failed => "TASK_STATE_FAILED"
  | .canceled => "TASK_STATE_CANCELED"
  | .inputRequired => "TASK_STATE_INPUT_REQUIRED"
  | .rejected => "TASK_STATE_REJECTED"
  | .authRequired => "TASK_STATE_AUTH_REQUIRED"

/-- `on_cancel_task`, with the task as it is read first, the SDK's `on_cancel_task`,
and the task as it is read again after a refusal. An error of that second read is not
within the `try`. -/
def onCancelTask (read sdk reread : Awaited (Option Task)) :
    Except RequestError (Option Payload) :=
  match read.answer with
  | .error e => .error e.surface
  | .ok none => .error .taskNotFound
  | .ok (some task) =>
      if task.status.state = .canceled then .ok (negotiatedTask py read.outputModes task)
      else if task.status.state.isTerminal then
        cancelRefused py
          ("Task cannot be canceled - current state: ".toList ++
            (taskStateName task.status.state).toList) reread
      else
        match sdk.answer with
        | .error (.taskNotCancelable message) => cancelRefused py message reread
        | .error e => .error e.surface
        | .ok none => .ok none
        | .ok (some result) => .ok (negotiatedTask py sdk.outputModes result)

/-- `on_subscribe_to_task`: the events yielded, and the error that ends them. The modes
are those of the task as it is read first. -/
def onSubscribeToTask (taskId : Text) (read : Awaited (Option Task)) (sdk : Streamed) :
    List Payload × Option RequestError :=
  match read.answer with
  | .error e => ([], some e.surface)
  | .ok none => ([], some .taskNotFound)
  | .ok (some task) =>
      if task.status.state.isTerminal then
        ([], some (.unsupportedOperation "Cannot subscribe to a task in a terminal state".toList
          []))
      else
        (sdk.events.filterMap fun e =>
            negotiate py e.2 (modesForTask py read.outputModes taskId none (some task)),
          sdk.ending.map RequestError.surface)

end OpencodeA2a.Server
