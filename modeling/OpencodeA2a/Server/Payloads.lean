import OpencodeA2a.Server.Metadata

/-!
# What a request handler returns

The protocol's messages as far as output modes and metadata go: the parts, and the
metadata at each of its places. An unset metadata field is the empty mapping.
-/

namespace OpencodeA2a.Server

open OpencodeA2a.Stream

/-- The states of a task; a run itself reports fewer of them (`Stream.TaskState`). -/
inductive TaskState where
  | unspecified
  | submitted
  | working
  | completed
  | failed
  | canceled
  | inputRequired
  | rejected
  | authRequired
deriving DecidableEq

/-- `state in TERMINAL_TASK_STATES` -/
def TaskState.isTerminal : TaskState → Bool
  | .completed | .canceled | .failed | .rejected => true
  | .unspecified | .submitted | .working | .inputRequired | .authRequired => false

/-- The `content` oneof of a part. -/
inductive Content where
  | unset
  | text (text : Text)
  | raw (bytes : List UInt8)
  | url (url : Text)
  | data (data : Json)

structure Part where
  content : Content
  mediaType : Text := []
  metadata : Mapping := []

/-- `part.HasField("text")` -/
def Part.hasText (p : Part) : Bool :=
  match p.content with
  | .text _ => true
  | .unset | .raw _ | .url _ | .data _ => false

/-- `part.text`, empty where the part holds something else. -/
def Part.text (p : Part) : Text :=
  match p.content with
  | .text t => t
  | .unset | .raw _ | .url _ | .data _ => []

structure Message where
  messageId : Text
  taskId : Text := []
  parts : List Part
  metadata : Mapping := []

structure Artifact where
  artifactId : Text
  parts : List Part
  metadata : Mapping := []

structure TaskStatus where
  state : TaskState
  message : Option Message := none

structure Task where
  id : Text
  status : TaskStatus
  history : List Message := []
  artifacts : List Artifact := []
  metadata : Mapping := []

structure TaskStatusUpdateEvent where
  taskId : Text
  status : TaskStatus
  metadata : Mapping := []

structure TaskArtifactUpdateEvent where
  taskId : Text
  artifact : Artifact
  metadata : Mapping := []

/-- What an operation returns or streams. -/
inductive Payload where
  | task (t : Task)
  | message (m : Message)
  | statusUpdate (e : TaskStatusUpdateEvent)
  | artifactUpdate (e : TaskArtifactUpdateEvent)

namespace Payload

/-- The places of a payload that hold metadata. -/
def locations : Payload → List Mapping
  | .task t =>
      t.metadata :: (t.status.message.toList.map Message.metadata ++
        t.history.map Message.metadata ++ t.artifacts.map Artifact.metadata)
  | .message m => [m.metadata]
  | .statusUpdate e => e.metadata :: e.status.message.toList.map Message.metadata
  | .artifactUpdate e => [e.metadata, e.artifact.metadata]

/-- The parts of a payload. -/
def parts : Payload → List Part
  | .task t =>
      t.status.message.toList.flatMap Message.parts ++ t.history.flatMap Message.parts ++
        t.artifacts.flatMap Artifact.parts
  | .message m => m.parts
  | .statusUpdate e => e.status.message.toList.flatMap Message.parts
  | .artifactUpdate e => e.artifact.parts

end Payload

end OpencodeA2a.Server
