import OpencodeA2a.Server.RequestHandler

/-!
# Shared metadata in what the operations answer

Get and list filter the shared metadata of what they answer with. The other four
operations apply the output modes only: what the SDK hands them goes out with the
metadata of every place that the output modes leave.
-/

namespace OpencodeA2a.Server

open OpencodeA2a.Stream

/-! ## §1  The places that the output modes leave -/

/-- Something of the part is left: it is of an accepted mode, or of none, or it is data
and may be shown as text. -/
def Part.kept (modes : List Text) (p : Part) : Bool :=
  p.mediaType?.all (fun mediaType => mediaType ∈ modes) ||
    match p.content with
    | .data _ => decide (textPlainMediaType ∈ modes)
    | .unset | .text _ | .raw _ | .url _ => false

def survives (modes : List Text) (parts : List Part) : Bool := parts.any (Part.kept modes)

variable (py : TextFunctions)

/-- The places whose metadata a client sees under the modes. -/
def Payload.exposed (modes : Option (List Text)) (p : Payload) : List Mapping :=
  match normalizeModes py modes with
  | none => p.locations
  | some modes =>
      match p with
      | .task t =>
          t.metadata ::
            ((t.status.message.toList.filter fun m => survives modes m.parts).map
                Message.metadata ++
              (t.history.filter fun m => survives modes m.parts).map Message.metadata ++
              (t.artifacts.filter fun a => survives modes a.parts).map Artifact.metadata)
      | .message m => [m.metadata]
      | .statusUpdate e =>
          e.metadata :: (e.status.message.toList.filter fun m => survives modes m.parts).map
            Message.metadata
      | .artifactUpdate e =>
          if survives modes e.artifact.parts then [e.metadata, e.artifact.metadata] else []

theorem filterPart_isSome (modes : List Text) (p : Part) :
    (filterPart py modes p).isSome = p.kept modes := by
  unfold filterPart Part.kept Part.mediaType?
  cases p.content with
  | unset => rfl
  | text t =>
      by_cases h : textPlainMediaType ∈ modes <;> simp [acceptsOutputMode, h]
  | raw bytes =>
      generalize (if p.mediaType = [] then applicationOctetStream else p.mediaType) = m
      by_cases hm : m ∈ modes <;> by_cases h : textPlainMediaType ∈ modes <;>
        simp [acceptsOutputMode, hm, h]
  | url url =>
      generalize (if p.mediaType = [] then applicationOctetStream else p.mediaType) = m
      by_cases hm : m ∈ modes <;> by_cases h : textPlainMediaType ∈ modes <;>
        simp [acceptsOutputMode, hm, h]
  | data d =>
      by_cases hm : applicationJsonMediaType ∈ modes <;>
        by_cases h : textPlainMediaType ∈ modes <;> simp [acceptsOutputMode, hm, h]

variable {py}

theorem filterParts_eq_nil {modes : List Text} {parts : List Part} :
    filterParts py parts modes = [] ↔ survives modes parts = false := by
  unfold filterParts survives
  rw [List.filterMap_eq_nil_iff, List.any_eq_false]
  constructor
  · intro h p hp hkept
    rw [← filterPart_isSome py, h p hp] at hkept
    cases hkept
  · intro h p hp
    have hnone := h p hp
    rw [← filterPart_isSome py, Bool.not_eq_true, Option.isSome_eq_false_iff,
      Option.isNone_iff_eq_none] at hnone
    exact hnone

/-- A message is left with its metadata where some part of it is. -/
theorem filterMessage_metadata (modes : List Text) (message : Message) :
    (filterMessage py message modes).map Message.metadata =
      if survives modes message.parts then some message.metadata else none := by
  unfold filterMessage
  cases h : survives modes message.parts with
  | true => rw [if_neg fun hnil => by simp [filterParts_eq_nil.mp hnil] at h]; rfl
  | false => rw [if_pos (filterParts_eq_nil.mpr h)]; rfl

theorem filterArtifact_metadata (modes : List Text) (artifact : Artifact) :
    (filterArtifact py artifact modes).map Artifact.metadata =
      if survives modes artifact.parts then some artifact.metadata else none := by
  unfold filterArtifact
  cases h : survives modes artifact.parts with
  | true => rw [if_neg fun hnil => by simp [filterParts_eq_nil.mp hnil] at h]; rfl
  | false => rw [if_pos (filterParts_eq_nil.mpr h)]; rfl

theorem map_filterMap_eq {α β : Type} {f : α → Option α} {g : α → β} {keep : α → Bool}
    (h : ∀ a, (f a).map g = if keep a then some (g a) else none) (l : List α) :
    (l.filterMap f).map g = (l.filter keep).map g := by
  rw [List.map_filterMap]
  induction l with
  | nil => rfl
  | cons a l ih =>
      rw [List.filterMap_cons, h]
      cases hkeep : keep a with
      | true =>
          rw [List.filter_cons_of_pos hkeep, List.map_cons, ← ih]
          rfl
      | false =>
          rw [List.filter_cons_of_neg (by simp [hkeep]), ← ih]
          rfl

theorem messages_metadata (modes : List Text) (messages : List Message) :
    (messages.filterMap fun m => filterMessage py m modes).map Message.metadata =
      (messages.filter fun m => survives modes m.parts).map Message.metadata :=
  map_filterMap_eq (filterMessage_metadata modes) messages

theorem status_metadata (modes : List Text) (message : Option Message) :
    (message.bind fun m => filterMessage py m modes).toList.map Message.metadata =
      (message.toList.filter fun m => survives modes m.parts).map Message.metadata := by
  rw [← @messages_metadata py]
  cases message with
  | none => rfl
  | some m => cases hm : filterMessage py m modes <;> simp [hm]

/-- The output modes leave exactly the exposed places. -/
theorem locations_apply (p : Payload) (modes : Option (List Text)) :
    ((applyAcceptedOutputModes py p modes).map Payload.locations).getD [] = p.exposed py modes := by
  unfold applyAcceptedOutputModes Payload.exposed
  cases normalizeModes py modes with
  | none => rfl
  | some modes =>
      cases p with
      | task t =>
          simp only [Option.map_some, Option.getD_some, Payload.locations, filterTask]
          rw [status_metadata, messages_metadata,
            map_filterMap_eq (filterArtifact_metadata modes)]
      | message m =>
          have hmeta := @filterMessage_metadata py modes m
          cases hm : filterMessage py m modes with
          | none => simp [hm, Payload.locations]
          | some m' =>
              rw [hm, Option.map_some] at hmeta
              split at hmeta
              · rw [Option.some.injEq] at hmeta
                simp [hm, Payload.locations, hmeta]
              · cases hmeta
      | statusUpdate e =>
          simp only [Option.map_some, Option.getD_some, Payload.locations]
          rw [status_metadata]
      | artifactUpdate e =>
          have hmeta := @filterArtifact_metadata py modes e.artifact
          cases hs : survives modes e.artifact.parts with
          | false =>
              rw [hs, if_neg Bool.false_ne_true, Option.map_eq_none_iff] at hmeta
              simp [hs, hmeta]
          | true =>
              rw [hs, if_pos rfl, Option.map_eq_some_iff] at hmeta
              obtain ⟨artifact, hartifact, hm⟩ := hmeta
              simp [hs, hartifact, Payload.locations, hm]

/-- The shared metadata at every place of a payload is of requested extensions. -/
def Payload.Negotiated (requested : List Text) (p : Payload) : Prop :=
  ∀ m ∈ p.locations, Server.Negotiated requested m

/-- Annotating the modes leaves the shared metadata alone. -/
theorem annotate_negotiated {requested : List Text} (p : Payload) (modes : Option (List Text)) :
    (annotateOutputNegotiationMetadata py p modes).Negotiated requested ↔
      p.Negotiated requested := by
  have hmeta : ∀ m, Server.Negotiated requested (annotatedMetadata py m modes) ↔
      Server.Negotiated requested m := by
    intro m
    exact Negotiated.congr (get?_annotatedMetadata m modes (by decide))
  unfold Payload.Negotiated
  cases p with
  | message m => rfl
  | task t =>
      simp only [annotateOutputNegotiationMetadata, annotateTask, Payload.locations,
        List.forall_mem_cons, hmeta]
  | statusUpdate e =>
      simp only [annotateOutputNegotiationMetadata, Payload.locations, List.forall_mem_cons, hmeta]
  | artifactUpdate e =>
      simp only [annotateOutputNegotiationMetadata, Payload.locations, List.forall_mem_cons, hmeta]

/-- What `_negotiate` gives out is clean exactly if the exposed places are. -/
theorem negotiate_negotiated {requested : List Text} (p : Payload) (modes : Option (List Text)) :
    (∀ q, negotiate py p modes = some q → q.Negotiated requested) ↔
      ∀ m ∈ p.exposed py modes, Negotiated requested m := by
  rw [← locations_apply]
  unfold negotiate
  cases applyAcceptedOutputModes py p modes with
  | none => simp
  | some q =>
      simp only [Option.map_some, Option.getD_some, Option.some.injEq, forall_eq']
      exact annotate_negotiated q modes

/-! ## §2  The six operations -/

/-- An operation, with what the SDK and the store give it. -/
inductive Operation where
  | sendMessage (params : SendParams) (result : Awaited Payload)
  | sendMessageStream (params : SendParams) (stream : Streamed)
  | getTask (taskId : Text) (task : Awaited (Option Task))
  | listTasks (historyLength : Option ℤ) (page : Awaited (List Task))
  | cancelTask (read result reread : Awaited (Option Task))
  | subscribeToTask (taskId : Text) (read : Awaited (Option Task)) (stream : Streamed)

def returned (answer : Except RequestError (Option Payload)) : List Payload :=
  match answer with
  | .ok (some p) => [p]
  | .ok none | .error _ => []

namespace Operation

variable (py) in
/-- The payloads that the operation returns or streams. -/
def responses (context : Option ServerCallContext) : Operation → List Payload
  | sendMessage params result =>
      returned (onMessageSend py params context (fun _ : Unit => (result, ())) ()).1
  | sendMessageStream params stream =>
      (onMessageSendStream py params context (fun _ : Unit => (stream, ())) ()).1.1
  | getTask taskId task => returned (onGetTask py taskId context task)
  | listTasks historyLength page =>
      match onListTasks py historyLength context page with
      | .ok tasks => tasks
      | .error _ => []
  | cancelTask read result reread => returned (onCancelTask py read result reread)
  | subscribeToTask taskId read stream => (onSubscribeToTask py taskId read stream).1

/-- The operations that filter what they answer with. -/
def Filters : Operation → Prop
  | getTask _ _ | listTasks _ _ => True
  | sendMessage _ _ | sendMessageStream _ _ | cancelTask _ _ _ | subscribeToTask _ _ _ => False

/-- The task that the store or the SDK gives, with the modes it is kept under. -/
def taskSource (py : TextFunctions) (registry : TaskOutputModeRegistry) (task : Task) :
    Option (List Text) × Payload :=
  (modesForTask py registry task.id none (some task), .task task)

/-- A task read again after a refused cancellation goes out if it is canceled. -/
def rereadSources (py : TextFunctions) (reread : Awaited (Option Task)) :
    List (Option (List Text) × Payload) :=
  match reread.answer with
  | .ok (some task) =>
      if task.status.state = .canceled then [taskSource py reread.outputModes task] else []
  | .ok none | .error _ => []

/-- The payloads that an operation without filter passes on, each with the output modes
it is passed on under. -/
def sources (py : TextFunctions) (context : Option ServerCallContext) :
    Operation → List (Option (List Text) × Payload)
  | sendMessage params result =>
      if (validateChatOutputModes py params).isSome ||
          (validateSharedExtensionNegotiation params context).isSome then []
      else
        match result.answer with
        | .error _ => []
        | .ok (.task t) =>
            [(modesForTask py result.outputModes
                (if t.id = [] then (params.message.map RequestMessage.taskId).getD [] else t.id)
                (some params) (some (canonicalizeStreamArtifacts t)),
              .task (canonicalizeStreamArtifacts t))]
        | .ok p =>
            [(modesForTask py result.outputModes
              ((params.message.map RequestMessage.taskId).getD []) (some params) none, p)]
  | sendMessageStream params stream =>
      if (validateChatOutputModes py params).isSome ||
          (validateSharedExtensionNegotiation params context).isSome then []
      else
        stream.events.map fun e =>
          (modesForTask py e.1
            (if eventTaskId e.2 = [] then (params.message.map RequestMessage.taskId).getD []
              else eventTaskId e.2) (some params) e.2.task?, e.2)
  | cancelTask read result reread =>
      match read.answer with
      | .error _ | .ok none => []
      | .ok (some task) =>
          if task.status.state = .canceled then [taskSource py read.outputModes task]
          else if task.status.state.isTerminal then rereadSources py reread
          else
            match result.answer with
            | .error (.taskNotCancelable _) => rereadSources py reread
            | .error _ | .ok none => []
            | .ok (some task) => [taskSource py result.outputModes task]
  | subscribeToTask taskId read stream =>
      match read.answer with
      | .error _ | .ok none => []
      | .ok (some task) =>
          if task.status.state.isTerminal then []
          else stream.events.map fun e =>
            (modesForTask py read.outputModes taskId none (some task), e.2)
  | getTask _ _ | listTasks _ _ => []

variable (py) in
/-- What becomes of the sources. -/
def passedOn (sources : List (Option (List Text) × Payload)) : List Payload :=
  sources.filterMap fun s => negotiate py s.2 s.1

theorem returned_negotiate (p : Payload) (modes : Option (List Text)) :
    returned (.ok (negotiate py p modes)) = passedOn py [(modes, p)] := by
  unfold passedOn
  cases hn : negotiate py p modes with
  | none => simp [returned, hn]
  | some q => simp [returned, hn]

theorem returned_cancelRefused (message : Text) (reread : Awaited (Option Task)) :
    returned (cancelRefused py message reread) = passedOn py (rereadSources py reread) := by
  unfold cancelRefused rereadSources
  cases reread.answer with
  | error e => rfl
  | ok task =>
      cases task with
      | none => rfl
      | some task =>
          simp only
          split
          · exact returned_negotiate _ _
          · rfl

theorem responses_sendMessage (context : Option ServerCallContext) (params : SendParams)
    (result : Awaited Payload) : (sendMessage params result).responses py context =
      passedOn py ((sendMessage params result).sources py context) := by
  simp only [responses, sources, onMessageSend]
  cases validateChatOutputModes py params with
  | some e => rfl
  | none =>
      cases validateSharedExtensionNegotiation params context with
      | some e => rfl
      | none =>
          obtain ⟨registry, answer⟩ := result
          cases answer with
          | error e => rfl
          | ok p => cases p <;> exact returned_negotiate _ _

theorem responses_sendMessageStream (context : Option ServerCallContext) (params : SendParams)
    (stream : Streamed) : (sendMessageStream params stream).responses py context =
      passedOn py ((sendMessageStream params stream).sources py context) := by
  simp only [responses, sources, onMessageSendStream]
  cases validateChatOutputModes py params with
  | some e => rfl
  | none =>
      cases validateSharedExtensionNegotiation params context with
      | some e => rfl
      | none =>
          symm
          exact List.filterMap_map

theorem responses_cancelTask (context : Option ServerCallContext)
    (read result reread : Awaited (Option Task)) :
    (cancelTask read result reread).responses py context =
      passedOn py ((cancelTask read result reread).sources py context) := by
  simp only [responses, sources, onCancelTask]
  rcases read.answer with e | (_ | task)
  · rfl
  · rfl
  · simp only
    split
    · exact returned_negotiate _ _
    · split
      · exact returned_cancelRefused _ reread
      · rcases result.answer with e | (_ | task')
        · cases e with
          | taskNotCancelable message => exact returned_cancelRefused message reread
          | taskStoreOperation operation => rfl
          | internal message => rfl
          | taskNotFound => rfl
          | unsupportedOperation message data => rfl
          | other message => rfl
        · rfl
        · exact returned_negotiate _ _

theorem responses_subscribeToTask (context : Option ServerCallContext) (taskId : Text)
    (read : Awaited (Option Task)) (stream : Streamed) :
    (subscribeToTask taskId read stream).responses py context =
      passedOn py ((subscribeToTask taskId read stream).sources py context) := by
  simp only [responses, sources, onSubscribeToTask]
  rcases read.answer with e | (_ | task)
  · rfl
  · rfl
  · simp only
    split
    · rfl
    · unfold passedOn
      rw [List.filterMap_map]
      rfl

/-- The operations without filter pass their sources on. -/
theorem responses_eq {op : Operation} (h : ¬ op.Filters) (context : Option ServerCallContext) :
    op.responses py context = passedOn py (op.sources py context) := by
  cases op with
  | sendMessage params result => exact responses_sendMessage context params result
  | sendMessageStream params stream => exact responses_sendMessageStream context params stream
  | getTask taskId task => exact absurd trivial h
  | listTasks historyLength page => exact absurd trivial h
  | cancelTask read result reread => exact responses_cancelTask context read result reread
  | subscribeToTask taskId read stream =>
      exact responses_subscribeToTask context taskId read stream

/-- A task is negotiated into a task. -/
theorem negotiate_task (t : Task) (modes : Option (List Text)) :
    ∃ t', negotiate py (.task t) modes = some (.task t') := by
  unfold negotiate applyAcceptedOutputModes
  cases normalizeModes py modes with
  | none => exact ⟨_, rfl⟩
  | some modes => exact ⟨_, rfl⟩

/-- Get and list answer with filtered tasks. -/
theorem responses_filtered {op : Operation} (h : op.Filters)
    (context : Option ServerCallContext) {p : Payload} (hp : p ∈ op.responses py context) :
    p.Negotiated (requestedExtensionsFromCallContext context) := by
  cases op with
  | sendMessage params result => exact h.elim
  | sendMessageStream params stream => exact h.elim
  | cancelTask read result reread => exact h.elim
  | subscribeToTask taskId read stream => exact h.elim
  | getTask taskId task =>
      simp only [responses, onGetTask] at hp
      rcases hanswer : task.answer with e | (_ | t)
      · simp [hanswer, returned] at hp
      · simp [hanswer, returned] at hp
      · obtain ⟨t', ht'⟩ := @negotiate_task py t
          (modesForTask py task.outputModes taskId none (some t))
        simp only [hanswer, ht', Option.map_some, returned, List.mem_singleton] at hp
        subst hp
        exact filtered_task_negotiated _ t'
  | listTasks historyLength page =>
      simp only [responses, onListTasks] at hp
      cases hanswer : page.answer with
      | error e => simp [hanswer] at hp
      | ok tasks =>
          simp only [hanswer, List.mem_map] at hp
          obtain ⟨t, -, rfl⟩ := hp
          unfold listedTask
          extract_lets t
          obtain ⟨t', ht'⟩ := @negotiate_task py t
            (modesForTask py page.outputModes t.id none (some t))
          rw [ht']
          exact filtered_task_negotiated _ t'

/-- No payload that an operation answers with carries the shared metadata of an extension
that was not requested, exactly if it filters its answers or no place that the output
modes leave carries such metadata before. -/
theorem responses_negotiated_iff (context : Option ServerCallContext) (op : Operation) :
    (∀ p ∈ op.responses py context, p.Negotiated (requestedExtensionsFromCallContext context)) ↔
      op.Filters ∨ ∀ s ∈ op.sources py context, ∀ m ∈ s.2.exposed py s.1,
        Negotiated (requestedExtensionsFromCallContext context) m := by
  by_cases h : op.Filters
  · constructor
    · intro _
      exact .inl h
    · intro _ p hp
      exact responses_filtered h context hp
  · rw [responses_eq h context]
    constructor
    · intro hall
      right
      intro s hs
      rw [← negotiate_negotiated]
      intro q hq
      exact hall q (List.mem_filterMap.mpr ⟨s, hs, hq⟩)
    · intro hcond p hp
      obtain ⟨s, hs, hq⟩ := List.mem_filterMap.mp hp
      have hall := hcond.resolve_left h s hs
      rw [← negotiate_negotiated] at hall
      exact hall p hq

end Operation

/-- A canceled task whose run had negotiated the session binding. -/
def canceledTask : Task where
  id := "task-1".toList
  status := { state := .canceled }
  metadata := [("shared".toList,
    .obj [("session".toList, .obj [("id".toList, .str "ses-1".toList)])])]

def canceledTaskRead : Awaited (Option Task) := ⟨.empty, .ok (some canceledTask)⟩

/-- Cancelling it once more, without extensions, answers with its session. -/
theorem canceled_task_shows_session :
    ¬ ∀ p ∈ (Operation.cancelTask canceledTaskRead canceledTaskRead canceledTaskRead).responses
        (.ascii fun _ => []) none,
      p.Negotiated (requestedExtensionsFromCallContext none) := by
  intro h
  have hresponse : (Operation.cancelTask canceledTaskRead canceledTaskRead
      canceledTaskRead).responses (.ascii fun _ => []) none = [.task canceledTask] := rfl
  have hnegotiated := h (.task canceledTask) (by rw [hresponse]; exact List.mem_singleton_self _)
    canceledTask.metadata List.mem_cons_self
  have hsession := hnegotiated _ rfl (sessionBindingExtensionUri, "session") List.mem_cons_self
    List.not_mem_nil
  cases hsession

end OpencodeA2a.Server
