import OpencodeA2a.Stream.Errors

/-!
# Texts of A2A payloads

`extract_text` on the messages of the protocol. After the fields that it goes
through, the source looks once more at the payload as a dictionary; the parts it
finds there are the same, and none of them has a text by then.
-/

namespace OpencodeA2a.Client

open OpencodeA2a.Stream (Text TaskState)

/-! ## §1  The payloads, as far as they are read -/

/-- A part of a message or of an artifact: its text, where that is what it holds. -/
structure PayloadPart where
  text : Option Text

structure Message where
  parts : List PayloadPart

structure Artifact where
  parts : List PayloadPart

structure TaskStatus where
  state : TaskState
  message : Option Message

structure Task where
  status : TaskStatus
  artifacts : List Artifact
  history : List Message

inductive StreamResponse where
  | artifactUpdate (artifact : Artifact)
  | statusUpdate (status : TaskStatus)
  | message (m : Message)
  | task (t : Task)

/-! ## §2  `extract_text` -/

/-- The text of the part, unless it is empty. -/
def PayloadPart.shown (part : PayloadPart) : Option Text := part.text.filter (· ≠ [])

/-- `extract_from_parts` -/
def extractFromParts (parts : List PayloadPart) : Option Text :=
  match parts.filterMap PayloadPart.shown with
  | [] => none
  | t :: ts => some (List.intercalate ['\n'] (t :: ts))

def Message.extractText (m : Message) : Option Text := extractFromParts m.parts

def Artifact.extractText (a : Artifact) : Option Text := extractFromParts a.parts

def TaskStatus.extractText (s : TaskStatus) : Option Text := s.message.bind Message.extractText

/-- The artifacts first, then the status, then the history from its end. -/
def Task.extractText (t : Task) : Option Text :=
  (t.artifacts.findSome? Artifact.extractText).or
    (t.status.extractText.or (t.history.reverse.findSome? Message.extractText))

def StreamResponse.extractText : StreamResponse → Option Text
  | .artifactUpdate a => a.extractText
  | .statusUpdate s => s.extractText
  | .message m => m.extractText
  | .task t => t.extractText

/-! ## §3  Payloads of one part -/

/-- A part that holds a text. -/
def PayloadPart.ofText (t : Text) : PayloadPart := ⟨some t⟩

end OpencodeA2a.Client
