import OpencodeA2a.Library.Machine
import OpencodeA2a.Stream.Runtime

/-!
# One execution run

`ExecutionCoordinator.run`, the stream consumer it starts and `executor.cancel`
on the same task, as one machine: three asyncio tasks that share an event queue,
a stop event, a future and the stream state. A step of the machine goes from one
await of one of them to its next, or less far; the action says who moves and
what the awaited call answers. An enqueue waits for room before it puts, and
what comes after a put up to the next await follows at once.

Enqueuing itself does not fail. What the session manager answers is arbitrary
here; the session lock is the environment's (`Execution.Lock`).
-/

namespace OpencodeA2a.Execution

open OpencodeA2a.Stream

/-! ## §1  Requests, answers and failures -/

/-- `PreparedExecution`, as far as `run` reads it, with the task's ids.
`redact` is `redact_absolute_paths`. -/
structure PreparedExecution where
  taskId : Text
  contextId : Text
  userText : Text
  streamingRequest : Bool
  returnImmediately : Bool
  allowStructuredOutput : Bool
  emitSessionMetadata : Bool
  emitStreamingMetadata : Bool
  emitInterruptMetadata : Bool
  dumps : Bool → Mapping → Text
  numerics : Numerics
  redact : Text → Text

/-- `OpencodeMessage`, what `send_message` returns -/
structure OpencodeMessage where
  text : Text
  sessionId : Text
  messageId : Option Text
  raw : Mapping

/-- The exceptions that `run` tells apart, with what their messages are made of. -/
inductive Failure where
  | httpStatus (status : ℤ) (shown : Text) (detail : Option Text)
  | timeout (shown : Text)
  | upstreamContract (shown : Text)
  | upstreamConcurrencyLimit (shown : Text)
  | other (shown : Text)

/-- What `_emit_error` is told. -/
structure ErrorReport where
  message : Text
  state : TaskState
  errorType : Option Text
  upstreamStatus : Option ℤ := none

def ErrorReport.ofUpstream (e : UpstreamError) : ErrorReport :=
  ⟨e.message, e.state, some e.errorType, e.upstreamStatus⟩

/-- The `except` clauses of `run`. -/
def Failure.report : Failure → ErrorReport
  | .httpStatus status shown detail =>
      .ofUpstream (formatUpstreamError "send_message".toList status shown detail)
  | .timeout shown =>
      ⟨"OpenCode request timed out: ".toList ++ shown, .failed, some "UPSTREAM_TIMEOUT".toList, none⟩
  | .upstreamContract shown =>
      ⟨"OpenCode payload mismatch: ".toList ++ shown, .failed,
        some "UPSTREAM_PAYLOAD_ERROR".toList, none⟩
  | .upstreamConcurrencyLimit shown =>
      ⟨shown, .failed, some "UPSTREAM_BACKPRESSURE".toList, none⟩
  | .other shown => ⟨"OpenCode error: ".toList ++ shown, .failed, none, none⟩

theorem Failure.report_isError (e : Failure) : e.report.state.IsError := by
  cases e with
  | httpStatus status shown detail =>
      exact formatUpstreamError_isError "send_message".toList status shown detail
  | timeout | upstreamContract | upstreamConcurrencyLimit | other => exact .inl rfl

/-! ## §2  The three tasks -/

/-- Where the coordinator awaits. -/
inductive Stage where
  /-- `_register_running_request` -/
  | registering
  /-- `get_or_create_session` -/
  | binding
  /-- `get_session_lock` -/
  | locking
  /-- the call of `acquire()`, before it is known whether it has to wait -/
  | entering
  /-- inside `acquire()` -/
  | waiting
  /-- the lock is held, the session is recorded under `_lock` -/
  | recording
  /-- the initial `Task` -/
  | snapshot
  /-- `send_message` -/
  | sending
  /-- `finalize_preferred_session_binding` -/
  | finalizing (response : OpencodeMessage)
  /-- `maybe_handle_tools` -/
  | tools (response : OpencodeMessage)
  /-- `_await_stream_terminal_signal` -/
  | awaitingSignal (response : OpencodeMessage)
  /-- the events `run` ends with, the first of which is being enqueued -/
  | emitting (event : Event) (rest : List Event)
  /-- `release_preferred_session_claim` -/
  | releasing
  /-- the cancelled stream task -/
  | stopping
  /-- the check of the session lock, no await -/
  | checking
  /-- the registries are cleared under `_lock` -/
  | unregistering
  | ended

inductive ConsumerStage where
  /-- at the event stream: between two events, connecting or sleeping -/
  | waiting
  /-- between two awaits, with what is left of the current event -/
  | busy (acts : List Act) (ops : List Op)
  | putting (event : Event) (acts : List Act) (ops : List Op)
  | tracking (acts : List Act) (ops : List Op)
  | ended

/-- The stream task; `cancelled` when a `CancelledError` is due in it. -/
structure Consumer where
  stage : ConsumerStage := .waiting
  cancelled : Bool := false

/-- Where `executor.cancel` awaits. -/
inductive CancelStage where
  | idle
  /-- enqueues the canceled status -/
  | publishing
  /-- reads the registries under `_lock` -/
  | looking
  /-- `pop_cached_session`, with whether the run and its session were found -/
  | popping (found recorded : Bool)
  /-- `abort_session` -/
  | aborting
  /-- enqueues its own error -/
  | failing (shown : Text)
  | done

inductive Author where
  | run
  | cancel
deriving DecidableEq

structure Run where
  prepared : PreparedExecution
  stage : Stage := .registering
  /-- `_session_id` -/
  session : Text := []
  /-- `_pending_preferred_claim` -/
  pending : Bool := false
  /-- a `CancelledError` is due at the coordinator's await -/
  cancelRequested : Bool := false
  /-- whether the run has acquired the session lock and not yet come to the
  release in its cleanup -/
  holding : Bool := false
  /-- `_stop_event` -/
  stop : Bool := false
  /-- `_stream_terminal_signal` -/
  signal : Option TerminalSignal := none
  consumer : Option Consumer := none
  runtime : Runtime
  /-- the response that `_handle_response` was called with -/
  handled : Option OpencodeMessage := none
  /-- `resolved_token_usage` of that call -/
  usage : Option Mapping := none
  /-- whether the registries name the run, and whether they name its session -/
  registered : Bool := false
  recorded : Bool := false
  cancelling : CancelStage := .idle
  /-- whether `executor.cancel` has called `running_task.cancel()` -/
  hit : Bool := false
  /-- the event queue, with who enqueued what -/
  queue : List (Author × Event) := []

/-- A new coordinator. -/
def Run.initial (prepared : PreparedExecution) : Run :=
  { prepared := prepared
    runtime :=
      { out :=
          { userText := prepared.userText
            stableMessageId := prepared.taskId ++ ":".toList ++ prepared.contextId ++
              ":assistant".toList
            eventIdNamespace := prepared.taskId ++ ":".toList ++ prepared.contextId ++
              ":".toList ++ prepared.taskId ++ ":stream".toList } } }

/-! ## §3  The coordinator -/

inductive Answer where
  | ok
  /-- `get_or_create_session` returns the session and the pending flag -/
  | bound (session : Text) (pending : Bool)
  /-- `acquire()` took the lock at once, or has to wait -/
  | acquired (atOnce : Bool)
  | response (response : OpencodeMessage)
  /-- whether `maybe_handle_tools` has results -/
  | toolResults (some : Bool)
  | failed (e : Failure)

namespace Run

variable (r : Run)

def config : Config :=
  { sessionId := r.session, taskId := r.prepared.taskId
    allowStructuredOutput := r.prepared.allowStructuredOutput
    emitSessionMetadata := r.prepared.emitSessionMetadata
    emitStreamingMetadata := r.prepared.emitStreamingMetadata
    emitInterruptMetadata := r.prepared.emitInterruptMetadata
    dumps := r.prepared.dumps
    numerics := r.prepared.numerics }

/-- `_stream_text_artifact_id` -/
def streamTextArtifactId : Text := r.config.artifactId ++ ":text".toList

def put (author : Author) (e : Event) : Run := { r with queue := r.queue ++ [(author, e)] }

def emit (e : Event) (rest : List Event) : Run := { r with stage := .emitting e rest }

/-- The metadata of an error: `None` without type and status. -/
def errorMetadata (e : ErrorReport) : OutputMetadata :=
  { error := if e.errorType.isNone && e.upstreamStatus.isNone then none
      else some (e.errorType.getD [], e.upstreamStatus) }

/-- `_emit_error`, as the events it enqueues. -/
def emitError (streamingRequest : Bool) (e : ErrorReport) : Run :=
  let message := r.prepared.redact e.message
  if streamingRequest then
    r.emit (.artifact ⟨r.prepared.taskId ++ ":error".toList, .text message, false, true, none⟩)
      [.status e.state (errorMetadata e)]
  else r.emit (.task e.state [] (some message) (errorMetadata e)) []

/-- An exception in the `try` body of `run`. -/
def except (e : Failure) : Run := r.emitError r.prepared.streamingRequest e.report

/-- The events of a completed streaming run: the final text, where the client
has not seen it, and the status. -/
def complete (response : OpencodeMessage) : Run :=
  let messageId := r.runtime.out.resolveMessageId response.messageId
  let artifactId := r.runtime.out.resolveTextArtifactId r.streamTextArtifactId
  let completed : Event := .status .completed (buildOutputMetadata r.config (some r.session) r.usage
    (some ⟨messageId, r.runtime.out.eventIdNamespace ++ ":status".toList, none⟩) none none)
  match r.runtime.out.shouldEmitFinalSnapshot artifactId response.text with
  | none => r.emit completed []
  | some out =>
      { r with runtime := { r.runtime with out := out.nextSequence } }.emit
        (.artifact ⟨artifactId, .text response.text, false, true,
          buildStreamArtifactMetadata r.config .text messageId out.nextSequence⟩)
        [completed]

/-- The end of `_handle_streaming_response`, once the terminal signal is there. -/
def handleSignal (response : OpencodeMessage) : TerminalSignal → Run
  | .error e => r.emitError true (.ofUpstream e)
  | .completed =>
      match r.runtime.out.upstreamError with
      | some e => r.emitError true (.ofUpstream e)
      | none => r.complete response

/-- `resolved_token_usage`, at the start of `_handle_response` -/
def resolvedTokenUsage (response : OpencodeMessage) : Option Mapping :=
  mergeTokenUsage (r.prepared.numerics.extractTokenUsage response.raw) r.runtime.out.tokenUsage

/-- `_handle_response` -/
def handleResponse (response : OpencodeMessage) : Run :=
  let r := { r with handled := some response, usage := r.resolvedTokenUsage response }
  match extractUpstreamErrorFromResponse response.raw with
  | some e => r.emitError r.prepared.streamingRequest (.ofUpstream e)
  | none =>
      if r.prepared.streamingRequest then { r with stage := .awaitingSignal response }
      else
        let text := if response.text = [] then "(No text content returned by OpenCode.)".toList
          else response.text
        r.emit (.task .completed [text] (some "Completed.".toList)
          (buildOutputMetadata r.config (some response.sessionId) r.usage none none none)) []

/-- `_cleanup` from `_stop_event.set()` on. -/
def stopConsumer : Run :=
  match r.consumer with
  | some c =>
      { r with stop := true, consumer := some { c with cancelled := true }, stage := .stopping }
  | none => { r with stop := true, stage := .checking }

/-- `_cleanup` -/
def cleanup : Run :=
  if r.pending && r.session ≠ [] then { r with stage := .releasing } else r.stopConsumer

/-- The first await after the session lock is taken. -/
def afterRecording : Run :=
  if r.prepared.streamingRequest || r.prepared.returnImmediately then { r with stage := .snapshot }
  else { r with stage := .sending }

/-- Whether the stream task is done. -/
def consumerDone : Bool :=
  match r.consumer with
  | some ⟨.ended, _⟩ => true
  | _ => false

/-- The awaits at which a requested cancellation is thrown. -/
def awaits : Bool :=
  match r.stage with
  | .entering | .stopping | .checking | .ended => false
  | _ => true

/-- A `CancelledError` at the coordinator's await: no `except` clause catches it. -/
def thrown : Run :=
  let r := { r with cancelRequested := false }
  match r.stage with
  | .registering | .releasing | .unregistering => { r with stage := .ended }
  | _ => r.cleanup

/-- The coordinator goes on with the answer. -/
def resume (a : Answer) : Option Run :=
  match r.stage, a with
  | .registering, .ok => some { r with registered := true, stage := .binding }
  | .binding, .bound session pending =>
      some { r with session := session, pending := pending, stage := .locking }
  | .locking, .ok => some { r with stage := .entering }
  | .entering, .acquired true => some { r with holding := true, stage := .recording }
  | .entering, .acquired false => some { r with stage := .waiting }
  | .waiting, .ok => some { r with holding := true, stage := .recording }
  | .recording, .ok =>
      let r := { r with recorded := true }
      some (if r.prepared.streamingRequest then { r with consumer := some {} }.afterRecording
        else r.afterRecording)
  | .snapshot, .ok =>
      some { r.put .run (.task .working [] none {}) with stage := .sending }
  | .sending, .response response =>
      some { r with stage := if r.pending then .finalizing response else .tools response }
  | .finalizing response, .ok => some { r with pending := false, stage := .tools response }
  | .tools _, .toolResults true => some { r with stage := .sending }
  | .tools response, .toolResults false => some (r.handleResponse response)
  | .awaitingSignal response, .ok =>
      match r.signal with
      | some signal => some (r.handleSignal response signal)
      | none =>
          if r.consumerDone then
            some (r.except (.upstreamContract
              ("OpenCode event stream ended before terminal signal (session_id=".toList ++
                r.session ++ ", expected session.idle or session.error)".toList)))
          else none
  | .emitting e (e' :: rest), .ok => some { r.put .run e with stage := .emitting e' rest }
  | .emitting e [], .ok => some (r.put .run e).cleanup
  | .releasing, .ok | .releasing, .failed _ => some r.stopConsumer
  -- `suppress(CancelledError)`, also where it is the run's own
  | .stopping, .ok =>
      if r.consumerDone then some { r with cancelRequested := false, stage := .checking } else none
  | .checking, .ok => some { r with holding := false, stage := .unregistering }
  | .unregistering, .ok => some { r with registered := false, recorded := false, stage := .ended }
  | .binding, .failed e | .locking, .failed e | .sending, .failed e | .finalizing _, .failed e
  | .tools _, .failed e => some (r.except e)
  | _, _ => none

def step (a : Answer) : Option Run :=
  if r.cancelRequested && r.awaits then some r.thrown else r.resume a

/-! ## §4  The consumer -/

def setConsumer (c : Consumer) (stage : ConsumerStage) : Run :=
  { r with consumer := some { c with stage := stage } }

/-- The consumer goes on: with a `CancelledError` it ends, else it finishes its
await, or takes up the next act or operation. -/
def consume : Option Run :=
  match r.consumer with
  | none => none
  | some c =>
      if c.cancelled then
        match c.stage with
        | .ended => none
        | _ => some (r.setConsumer c .ended)
      else
        match c.stage with
        | .waiting | .ended => none
        | .busy [] [] => some (r.setConsumer c .waiting)
        | .busy [] (.terminalSignal s :: ops) =>
            match r.signal with
            | some _ => some (r.setConsumer c (.busy [] ops))
            | none =>
                some { r.setConsumer c (.busy [] ops) with signal := some s, stop := true }
        | .busy [] (op :: ops) =>
            let (runtime, acts) := op.perform r.config r.runtime
            some { r.setConsumer c (.busy acts ops) with runtime := runtime }
        | .busy (act :: acts) ops =>
            let (out, effect) := act.perform r.config r.runtime.out
            let r := { r with runtime := { r.runtime with out := out } }
            match effect with
            | .silent => some (r.setConsumer c (.busy acts ops))
            | .put e => some (r.setConsumer c (.putting e acts ops))
            | .track => some (r.setConsumer c (.tracking acts ops))
        | .putting e acts ops => some ((r.put .run e).setConsumer c (.busy acts ops))
        | .tracking acts ops => some (r.setConsumer c (.busy acts ops))

/-- An event arrives at the stream. -/
def deliver (event : Mapping) : Option Run :=
  match r.consumer with
  | some ⟨.waiting, false⟩ =>
      if r.stop then some (r.setConsumer {} .ended)
      else some (r.setConsumer {} (.busy [] (eventOps r.config event)))
  | _ => none

/-- The stream is over, or `_stop_event` was set before it was opened. -/
def close : Option Run :=
  match r.consumer with
  | some ⟨.waiting, false⟩ => some (r.setConsumer {} .ended)
  | _ => none

/-- The stream, the tracker or the handling of the event raises: back to the
stream after a while, unless the run stops. -/
def streamFails : Option Run :=
  match r.consumer with
  | some ⟨.waiting, false⟩ | some ⟨.busy _ _, false⟩ | some ⟨.tracking _ _, false⟩ =>
      some (r.setConsumer {} (if r.stop then .ended else .waiting))
  | _ => none

/-! ## §5  `executor.cancel` -/

inductive CancelAnswer where
  | ok
  /-- an exception that ends `cancel` in an error of its own; what `abort_session`
  is allowed to raise is an answer like any other -/
  | failed (shown : Text)
  /-- a `CancelledError` -/
  | gone

/-- `not running_task.done()` -/
def alive : Bool :=
  match r.stage with
  | .ended => false
  | _ => true

/-- `running_task.cancel()`, where the task was found running; the creation that
`cancel` popped is cancelled after it. -/
def hitRun : Run :=
  { r with hit := true, cancelRequested := r.cancelRequested || r.alive, cancelling := .done }

def cancelStep (a : CancelAnswer) : Option Run :=
  match r.cancelling, a with
  | .idle, .ok => some { r with cancelling := .publishing }
  | .publishing, .ok =>
      some { r.put .cancel (.status .canceled {}) with cancelling := .looking }
  | .looking, .ok => some { r with cancelling := .popping r.registered r.recorded }
  | .popping found recorded, .ok =>
      let r := { r with stop := r.stop || found }
      if found && r.alive then
        if recorded then some { r with cancelling := .aborting } else some r.hitRun
      else some { r with cancelling := .done }
  | .aborting, .ok => some r.hitRun
  | .publishing, .failed shown | .popping _ _, .failed shown | .aborting, .failed shown =>
      some { r with cancelling := .failing shown }
  | .failing shown, .ok =>
      let message := r.prepared.redact ("Cancel failed: ".toList ++ shown)
      some { r.put .cancel (.task .failed [] (some message) {}) with cancelling := .done }
  | .publishing, .gone | .looking, .gone | .popping _ _, .gone | .aborting, .gone
  | .failing _, .gone => some { r with cancelling := .done }
  | _, _ => none

/-! ## §6  The machine -/

end Run

inductive RunAction where
  | step (a : Answer)
  | consume
  | deliver (event : Mapping)
  | close
  | streamFails
  /-- a `CancelledError` comes due in the run, whoever asked for it -/
  | cancel
  | cancelStep (a : Run.CancelAnswer)

def Run.act (r : Run) : RunAction → Option Run
  | .step a => r.step a
  | .consume => r.consume
  | .deliver event => r.deliver event
  | .close => r.close
  | .streamFails => r.streamFails
  | .cancel => if r.alive then some { r with cancelRequested := true } else none
  | .cancelStep a => r.cancelStep a

end OpencodeA2a.Execution
