import OpencodeA2a.Stream.State

/-!
# The event loop of `StreamRuntime.consume`

An upstream event is a list of operations, carried out in the order of the
source; an operation leaves acts behind, each of which ends at one `await`: a
put into the event queue or a call of the interrupt tracker. Between two awaits
`consume` runs on its own.
-/

namespace OpencodeA2a.Stream

/-! ## §1  What is put into the event queue -/

inductive Part where
  | text (t : Text)
  | data (m : Mapping)

/-- `artifact.metadata.shared.stream` -/
structure StreamArtifactMetadata where
  blockType : BlockType
  messageId : Text
  eventId : Text
  sequence : ℕ

structure ArtifactUpdate where
  artifactId : Text
  part : Part
  append : Bool
  lastChunk : Bool
  metadata : Option StreamArtifactMetadata

inductive InterruptPhase where
  | asked (details : InterruptDetails)
  | resolved (resolution : InterruptResolution)

structure InterruptMetadata where
  requestId : Text
  type : InterruptType
  phase : InterruptPhase

/-- `metadata.shared.stream` of a status. -/
structure StreamMetadata where
  messageId : Text
  eventId : Text
  sequence : Option ℕ

/-- The metadata of a status or a task: `shared`, and `opencode.error`. -/
structure OutputMetadata where
  session : Option Text := none
  usage : Option Mapping := none
  stream : Option StreamMetadata := none
  progress : Option Progress := none
  interrupt : Option InterruptMetadata := none
  error : Option (Text × Option ℤ) := none

inductive Event where
  /-- a whole `Task`: its state, the texts of its artifacts, its status message -/
  | task (state : TaskState) (artifacts : List Text) (message : Option Text)
      (metadata : OutputMetadata)
  | artifact (u : ArtifactUpdate)
  | status (state : TaskState) (metadata : OutputMetadata)

/-- What a run knows about itself. `dumps` is `json.dumps` with sorted keys and
compact separators, by `ensure_ascii`. -/
structure Config where
  sessionId : Text
  taskId : Text
  allowStructuredOutput : Bool
  emitSessionMetadata : Bool
  emitStreamingMetadata : Bool
  emitInterruptMetadata : Bool
  dumps : Bool → Mapping → Text
  numerics : Numerics

variable (cfg : Config)

/-- `_stream_artifact_base_id` -/
def Config.artifactId : Text := cfg.taskId ++ ":stream".toList

/-- `_build_output_metadata` -/
def buildOutputMetadata (session : Option Text) (usage : Option Mapping)
    (stream : Option StreamMetadata) (progress : Option Progress)
    (interrupt : Option InterruptMetadata) : OutputMetadata :=
  { session := if cfg.emitSessionMetadata then session.filter (· ≠ []) else none
    usage := if cfg.emitStreamingMetadata then usage else none
    stream := if cfg.emitStreamingMetadata then stream else none
    progress := if cfg.emitStreamingMetadata then progress else none
    interrupt := if cfg.emitInterruptMetadata then interrupt else none }

/-- `_build_stream_artifact_metadata`, for the state after `next_sequence` -/
def buildStreamArtifactMetadata (blockType : BlockType) (messageId : Text)
    (s : StreamOutputState) : Option StreamArtifactMetadata :=
  if cfg.emitStreamingMetadata then
    some ⟨blockType, messageId, s.buildEventId s.sequence, s.sequence⟩
  else none

/-! ## §2  Parts -/

/-- `_NormalizedStreamChunk`, without the fields that are only logged. -/
structure NormalizedStreamChunk where
  artifactId : Text
  part : Part
  contentKey : Text
  accumulateContent : Bool
  append : Bool
  blockType : BlockType
  messageId : Option Text
  role : Option Role

structure PendingDelta where
  field : Text
  delta : Text
  messageId : Option Text

/-- `_StreamPartState`, without the fields that are only logged. -/
structure StreamPartState where
  artifactId : Text
  blockType : BlockType
  messageId : Option Text
  role : Option Role
  buffer : Text := []

/-- What `consume` and the coordinator share and what is local to `consume`. -/
structure Runtime where
  out : StreamOutputState
  partStates : Text → Option StreamPartState := fun _ => none
  pendingDeltas : Text → List PendingDelta := fun _ => []

/-- `chunk.part.text if chunk.part.HasField("text") else ""` -/
def Part.textD : Part → Text
  | .text t => t
  | .data _ => []

/-- `_resolve_stream_artifact_id` -/
def resolveStreamArtifactId (blockType : BlockType) (partId : Text) : Text :=
  match blockType with
  | .text => cfg.artifactId ++ ":text".toList
  | .reasoning => cfg.artifactId ++ ":reasoning".toList
  | .toolCall =>
      match nonempty? partId with
      | some normalized => cfg.artifactId ++ ":tool:".toList ++ normalized
      | none => cfg.artifactId ++ ":tool".toList

namespace StreamPartState

variable (state : StreamPartState)

/-- `if message_id: state.message_id = message_id` -/
def withMessageId (messageId : Option Text) : StreamPartState :=
  { state with messageId := messageId.orElse fun _ => state.messageId }

/-- `_new_text_chunk`, as all its callers use it -/
def newTextChunk (text : Text) : NormalizedStreamChunk :=
  { artifactId := state.artifactId, part := .text text, contentKey := text,
    accumulateContent := true, append := true, blockType := state.blockType,
    messageId := state.messageId, role := state.role }

/-- `_new_data_chunk` -/
def newDataChunk (data : Mapping) (contentKey : Text) (append : Bool) : NormalizedStreamChunk :=
  let fallbackText := cfg.dumps true data
  { artifactId := state.artifactId
    part := if cfg.allowStructuredOutput then .data data else .text fallbackText
    contentKey := if cfg.allowStructuredOutput then contentKey else fallbackText
    accumulateContent := false, append := append, blockType := state.blockType,
    messageId := state.messageId, role := state.role }

/-- `state.role in {"user", "system"}` -/
def foreign : Bool := state.role == some .user || state.role == some .system

/-- `_delta_chunks` -/
def deltaChunks (deltaText : Text) (messageId : Option Text) :
    StreamPartState × List NormalizedStreamChunk :=
  if deltaText = [] then (state, [])
  else
    let state' := { state.withMessageId messageId with buffer := state.buffer ++ deltaText }
    (state', [state'.newTextChunk deltaText])

/-- `_snapshot_chunks` -/
def snapshotChunks (snapshot : Text) (messageId : Option Text) :
    StreamPartState × List NormalizedStreamChunk :=
  let state' := state.withMessageId messageId
  if snapshot = state.buffer then (state', [])
  else
    let state'' := { state' with buffer := snapshot }
    if state.buffer <+: snapshot then
      let deltaText := snapshot.drop state.buffer.length
      if deltaText = [] then (state'', [])
      else (state'', [state''.newTextChunk deltaText])
    else (state'', [])

/-- `_tool_chunks` -/
def toolChunks (part : Mapping) (messageId : Option Text) :
    StreamPartState × List NormalizedStreamChunk :=
  match extractToolPartPayload part with
  | none => (state, [])
  | some toolPayload =>
      let contentKey := cfg.dumps false toolPayload
      let state' := state.withMessageId messageId
      if contentKey = state.buffer then (state', [])
      else
        let state'' := { state' with buffer := contentKey }
        (state'', [state''.newDataChunk cfg toolPayload contentKey (!state.buffer.isEmpty)])

/-- The buffered deltas, in the order they came. -/
def pendingChunks : StreamPartState → List PendingDelta →
    StreamPartState × List NormalizedStreamChunk
  | state, [] => (state, [])
  | state, buffered :: pending =>
      if buffered.field = "text".toList then
        let (state', chunks) := state.deltaChunks buffered.delta buffered.messageId
        let (state'', chunks') := state'.pendingChunks pending
        (state'', chunks ++ chunks')
      else state.pendingChunks pending

end StreamPartState

/-- `_upsert_part_state`, for a part whose type is known -/
def upsertPartState (partStates : Text → Option StreamPartState) (partId : Text)
    (blockType : BlockType) (role : Option Role) (messageId : Option Text) : StreamPartState :=
  let artifactId := resolveStreamArtifactId cfg blockType partId
  match partStates partId with
  | none =>
      { artifactId := artifactId, blockType := blockType, messageId := messageId, role := role }
  | some state =>
      { state with
        artifactId := artifactId, blockType := blockType
        role := role.orElse fun _ => state.role
        messageId := messageId.orElse fun _ => state.messageId }

/-- A `message.part.*` event of the session that names a part. -/
inductive PartEvent where
  | delta (partId delta : Text) (messageId : Option Text)
  | updated (partId : Text) (part props : Mapping) (messageId : Option Text)

/-- The text, tool call or delta that a `message.part.updated` event carries. -/
def StreamPartState.updateChunks (state : StreamPartState) (part props : Mapping)
    (messageId : Option Text) : StreamPartState × List NormalizedStreamChunk :=
  match (props.getStr? "delta").filter (· ≠ []) with
  | some delta => state.deltaChunks delta messageId
  | none =>
      if state.blockType = .toolCall then state.toolChunks cfg part messageId
      else
        match extractStreamSnapshotText part with
        | some snapshotText => state.snapshotChunks snapshotText messageId
        | none => (state, [])

namespace Runtime

variable (rt : Runtime)

def setPart (partId : Text) (state : StreamPartState) : Runtime :=
  { rt with partStates := Function.update rt.partStates partId (some state) }

/-- `pending_deltas[part_id].append(…)` -/
def pushPending (partId : Text) (buffered : PendingDelta) : Runtime :=
  let pending := rt.pendingDeltas partId ++ [buffered]
  { rt with pendingDeltas := Function.update rt.pendingDeltas partId pending }

/-- `pending_deltas.pop(part_id, …)` -/
def popPending (partId : Text) : Runtime :=
  { rt with pendingDeltas := Function.update rt.pendingDeltas partId [] }

/-- The end of the event loop: the part event, up to the chunks it gives. -/
def handlePart : PartEvent → Runtime × List NormalizedStreamChunk
  | .delta partId delta messageId =>
      match rt.partStates partId with
      | none => (rt.pushPending partId ⟨"text".toList, delta, messageId⟩, [])
      | some state =>
          if state.foreign then (rt, [])
          else
            let (state', chunks) := state.deltaChunks delta messageId
            (rt.setPart partId state', chunks)
  | .updated partId part props messageId =>
      let role := normalizeRole (orField (part.get? "role") (props.get? "role"))
      match mapPartTypeToBlockType (extractStreamPartType part) with
      | none => (rt.popPending partId, [])
      | some blockType =>
          let state := upsertPartState cfg rt.partStates partId blockType role messageId
          if state.foreign then ((rt.setPart partId state).popPending partId, [])
          else
            let (state', chunks) := state.pendingChunks (rt.pendingDeltas partId)
            let (state'', chunks') := state'.updateChunks cfg part props messageId
            ((rt.setPart partId state'').popPending partId, chunks ++ chunks')

end Runtime

@[simp] theorem handlePart_out (rt : Runtime) (e : PartEvent) :
    (rt.handlePart cfg e).1.out = rt.out := by
  cases e with
  | delta q x mid =>
      simp only [Runtime.handlePart]
      split
      · rfl
      · split_ifs <;> rfl
  | updated q part props mid =>
      simp only [Runtime.handlePart]
      split
      · rfl
      · split_ifs <;> rfl

/-! ## §3  Acts: from one await to the next -/

inductive Act where
  | chunk (c : NormalizedStreamChunk)
  | progress (p : Progress) (messageId : Option Text)
  | rememberRequest (asked : InterruptAsked)
  | asked (asked : InterruptAsked)
  | discardRequest (resolved : InterruptResolved)
  | resolved (resolved : InterruptResolved)

inductive Effect where
  /-- no await -/
  | silent
  /-- `await event_queue.enqueue_event` -/
  | put (e : Event)
  /-- `await` of the interrupt tracker -/
  | track

/-- One round of `_emit_chunks`. -/
def emitChunk (s : StreamOutputState) (chunk : NormalizedStreamChunk) :
    StreamOutputState × Option ArtifactUpdate :=
  if s.shouldDropInitialUserEcho chunk.part.textD chunk.blockType chunk.role then (s, none)
  else
    match s.registerChunk chunk.artifactId chunk.contentKey chunk.append
        chunk.accumulateContent with
    | none => (s, none)
    | some (s₁, effectiveAppend) =>
        let s₂ := if chunk.blockType = .text then s₁.rememberTextArtifactId chunk.artifactId else s₁
        let s₃ := s₂.nextSequence
        (s₃, some
          { artifactId := chunk.artifactId, part := chunk.part, append := effectiveAppend,
            lastChunk := false,
            metadata := buildStreamArtifactMetadata cfg chunk.blockType
              (s.resolveMessageId chunk.messageId) s₃ })

/-- A working or interrupt status, for the state after `next_sequence`. -/
def streamStatus (s : StreamOutputState) (state : TaskState) (messageId : Option Text)
    (progress : Option Progress) (interrupt : Option InterruptMetadata) : Event :=
  .status state (buildOutputMetadata cfg (some cfg.sessionId) none
    (some ⟨s.resolveMessageId messageId, s.buildEventId s.sequence, some s.sequence⟩)
    progress interrupt)

def Act.perform (s : StreamOutputState) : Act → StreamOutputState × Effect
  | .chunk c =>
      match emitChunk cfg s c with
      | (s', some u) => (s', .put (.artifact u))
      | (s', none) => (s', .silent)
  | .progress p messageId =>
      (s.nextSequence, .put (streamStatus cfg s.nextSequence .working messageId (some p) none))
  | .rememberRequest _ => (s, .track)
  | .asked a =>
      (s.nextSequence, .put (streamStatus cfg s.nextSequence .inputRequired none none
        (some ⟨a.requestId, a.interruptType, .asked a.details⟩)))
  | .discardRequest _ => (s, .track)
  | .resolved r =>
      (s.nextSequence, .put (streamStatus cfg s.nextSequence .working none none
        (some ⟨r.requestId, r.interruptType, .resolved r.resolution⟩)))

def Act.isChunk : Act → Bool
  | .chunk _ => true
  | _ => false

def Event.isArtifact : Event → Bool
  | .artifact _ => true
  | _ => false

theorem isArtifact_of_put {s : StreamOutputState} {act : Act} {e : Event}
    (h : (act.perform cfg s).2 = .put e) (hact : act.isChunk = false) : e.isArtifact = false := by
  cases act with
  | chunk => cases hact
  | progress | asked | resolved =>
      cases h
      rfl
  | rememberRequest | discardRequest => cases h

/-! ## §4  Operations: from an event to its acts -/

inductive Op where
  | progress (identity : Text) (p : Progress) (messageId : Option Text)
  | upstreamError (e : UpstreamError)
  | usage (u : Mapping)
  | terminalSignal (signal : TerminalSignal)
  | asked (asked : InterruptAsked)
  | resolved (resolved : InterruptResolved)
  | part (event : PartEvent)

def Progress.toMapping (p : Progress) : Mapping :=
  ("type".toList, .str p.type) :: (p.status.map fun t => ("status".toList, Json.str t)).toList

/-- The operation, up to the acts it leaves behind. The terminal signal is set
by the caller. -/
def Op.perform (rt : Runtime) : Op → Runtime × List Act
  | .progress identity p messageId =>
      match rt.out.registerProgress identity (cfg.dumps false p.toMapping) with
      | none => (rt, [])
      | some out =>
          ({ rt with out := out },
            if cfg.emitStreamingMetadata then [.progress p messageId] else [])
  | .upstreamError e =>
      ({ rt with out := { rt.out with
          upstreamError := rt.out.upstreamError.orElse fun _ => some e } }, [])
  | .usage u => ({ rt with out := rt.out.ingestTokenUsage u }, [])
  | .terminalSignal _ => (rt, [])
  | .asked a =>
      match rt.out.markInterruptPending a.requestId with
      | none => (rt, [])
      | some out => ({ rt with out := out }, [.rememberRequest a, .asked a])
  | .resolved r =>
      match rt.out.clearInterruptPending r.requestId with
      | none => (rt, [.discardRequest r])
      | some out => ({ rt with out := out }, [.discardRequest r, .resolved r])
  | .part event =>
      let (rt', chunks) := rt.handlePart cfg event
      (rt', chunks.map Act.chunk)

def Op.isPart : Op → Bool
  | .part _ => true
  | _ => false

theorem isChunk_of_mem_perform {rt : Runtime} {op : Op} (h : op.isPart = false) {act : Act}
    (hact : act ∈ (op.perform cfg rt).2) : act.isChunk = false := by
  cases op with
  | part => cases h
  | upstreamError | usage | terminalSignal => cases hact
  | progress i p mid =>
      simp only [Op.perform] at hact
      split at hact
      · cases hact
      · split at hact
        · obtain rfl := List.mem_singleton.mp hact
          rfl
        · cases hact
  | asked q =>
      simp only [Op.perform] at hact
      split at hact
      · cases hact
      · simp only [List.mem_cons, List.not_mem_nil, or_false] at hact
        rcases hact with rfl | rfl <;> rfl
  | resolved q =>
      simp only [Op.perform] at hact
      split at hact
      · obtain rfl := List.mem_singleton.mp hact
        rfl
      · simp only [List.mem_cons, List.not_mem_nil, or_false] at hact
        rcases hact with rfl | rfl <;> rfl

/-- The step that the event's part starts or ends. -/
def progressOp? (props : Mapping) : Option Op :=
  (props.getMapping? "part").bind fun part => (extractProgressMetadata part).map fun p =>
    .progress (buildProgressIdentity part props) p (extractStreamMessageId part props)

/-- What the session's own events ask for. The usage stands before the signal: it
is taken in right after the signal is set, and no await comes in between. -/
def sessionOps (event : Mapping) (eventType : Text) (props : Mapping) : List Op :=
  (progressOp? props).toList ++
  ((extractUpstreamErrorFromEvent eventType props).map Op.upstreamError).toList ++
  ((cfg.numerics.extractTokenUsage event).map Op.usage).toList ++
  ((extractStreamTerminalSignal eventType props).map Op.terminalSignal).toList ++
  ((extractInterruptAskedEvent eventType props).map Op.asked).toList ++
  ((extractInterruptResolvedEvent eventType props).map Op.resolved).toList

/-- The part event the loop ends with. -/
def partEvent? (eventType : Text) (props : Mapping) : Option PartEvent :=
  if eventType = "message.part.updated".toList ∨ eventType = "message.part.delta".toList then
    let part := props.getMappingD "part"
    if extractStreamSessionId part props = some cfg.sessionId then
      (extractStreamPartId part props).bind fun partId =>
        let messageId := extractStreamMessageId part props
        if eventType = "message.part.delta".toList then
          if props.getStr? "field" = some "text".toList then
            ((props.getStr? "delta").filter (· ≠ [])).map fun delta =>
              .delta partId delta messageId
          else none
        else some (.updated partId part props messageId)
    else none
  else none

/-- The operations of an upstream event, in the order of the loop's body. -/
def eventOps (event : Mapping) : List Op :=
  match event.getStr? "type", event.getMapping? "properties" with
  | some eventType, some props =>
      (if extractEventSessionId event = some cfg.sessionId then
          sessionOps cfg event eventType props
        else []) ++
      ((partEvent? cfg eventType props).map Op.part).toList
  | _, _ => []

/-! ## §5  Undisturbed handling -/

/-- The acts one after the other, with what they put. -/
def performActs : StreamOutputState → List Act → StreamOutputState × List Event
  | s, [] => (s, [])
  | s, act :: acts =>
      let (s', effect) := act.perform cfg s
      let (s'', events) := performActs s' acts
      match effect with
      | .put e => (s'', e :: events)
      | _ => (s'', events)

def handleOps : Runtime → List Op → Runtime × List Event
  | rt, [] => (rt, [])
  | rt, op :: ops =>
      let (rt', acts) := op.perform cfg rt
      let (out, events) := performActs cfg rt'.out acts
      let (rt'', events') := handleOps { rt' with out := out } ops
      (rt'', events ++ events')

/-- A whole sequence of upstream events, none of whose awaits fails. -/
def consume : Runtime → List Mapping → Runtime × List Event
  | rt, [] => (rt, [])
  | rt, event :: rest =>
      let (rt', events) := handleOps cfg rt (eventOps cfg event)
      let (rt'', events') := consume rt' rest
      (rt'', events ++ events')

end OpencodeA2a.Stream
