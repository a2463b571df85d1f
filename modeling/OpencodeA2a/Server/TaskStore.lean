import OpencodeA2a.Library.Machine
import OpencodeA2a.Server.OutputModes

/-!
# The task store and the registry of output modes

`task_store.py`: while a task runs, the registry of the process holds its accepted
output modes; every save writes them into the metadata of what is stored.
-/

namespace OpencodeA2a.Server

open OpencodeA2a.Stream

/-! ## §1  The registry -/

/-- `TaskOutputModeRegistry` -/
structure TaskOutputModeRegistry where
  modes : Text → Option (List Text)

namespace TaskOutputModeRegistry

variable (py : TextFunctions)

def empty : TaskOutputModeRegistry := ⟨fun _ => none⟩

def clear (r : TaskOutputModeRegistry) (taskId : Text) : TaskOutputModeRegistry :=
  ⟨fun id => if id = taskId then none else r.modes id⟩

def remember (r : TaskOutputModeRegistry) (taskId : Text) (acceptedOutputModes : Json) :
    TaskOutputModeRegistry :=
  match normalizeAcceptedOutputModes py acceptedOutputModes with
  | none => r.clear taskId
  | some normalized => ⟨fun id => if id = taskId then some normalized else r.modes id⟩

def resolve (r : TaskOutputModeRegistry) (taskId : Text) (task : Option Task) :
    Option (List Text) :=
  match r.modes taskId with
  | some modes => some modes
  | none => task.bind fun task => extractAcceptedOutputModesFromMetadata py task.metadata

end TaskOutputModeRegistry

/-! ## §2  The store -/

/-- The registry of the process, and the tasks that the wrapped store holds. -/
structure NegotiatingTaskStore where
  outputModes : TaskOutputModeRegistry
  tasks : Text → Option Task

namespace NegotiatingTaskStore

variable (py : TextFunctions)

/-- What `save` hands to the wrapped store: the task and, in the versioned store,
the event that led to it. -/
def negotiated (s : NegotiatingTaskStore) (task : Task) (event : Option Payload) :
    Task × Option Payload :=
  let canonicalTask := canonicalizeStreamArtifacts task
  let accepted := s.outputModes.resolve py task.id (some canonicalTask)
  (annotateTask py canonicalTask accepted,
    event.map fun event => annotateOutputNegotiationMetadata py event accepted)

/-- `save`, where `stored` says whether the wrapped store keeps the task or raises. -/
def save (s : NegotiatingTaskStore) (task : Task) (event : Option Payload) (stored : Bool) :
    NegotiatingTaskStore :=
  if stored then
    { outputModes :=
        if task.status.state.isTerminal then s.outputModes.clear task.id else s.outputModes
      tasks := fun id => if id = task.id then some (s.negotiated py task event).1 else s.tasks id }
  else s

/-- `delete` -/
def delete (s : NegotiatingTaskStore) (taskId : Text) (deleted : Bool) : NegotiatingTaskStore :=
  if deleted then
    { outputModes := s.outputModes.clear taskId
      tasks := fun id => if id = taskId then none else s.tasks id }
  else s

/-- The request context builder: a request that names modes has them remembered
before its task is saved for the first time. -/
def build (s : NegotiatingTaskStore) (taskId : Text) (configuration : List Text) :
    NegotiatingTaskStore :=
  if taskId = [] then s
  else
    match normalizeAcceptedOutputModes py (.arr (configuration.map .str)) with
    | none => s
    | some accepted =>
        { s with outputModes := s.outputModes.remember py taskId (.arr (accepted.map .str)) }

variable {py} {s : NegotiatingTaskStore}

theorem save_tasks (task : Task) (event : Option Payload) (j : Text) :
    (s.save py task event true).tasks j =
      if j = task.id then some (s.negotiated py task event).1 else s.tasks j := rfl

theorem save_modes (task : Task) (event : Option Payload) (j : Text) :
    (s.save py task event true).outputModes.modes j =
      if j = task.id ∧ task.status.state.isTerminal = true then none
      else s.outputModes.modes j := by
  show (if task.status.state.isTerminal then s.outputModes.clear task.id
    else s.outputModes).modes j = _
  cases task.status.state.isTerminal with
  | false => rw [if_neg Bool.false_ne_true, if_neg fun h => Bool.false_ne_true h.2]
  | true =>
      rw [if_pos rfl]
      show (if j = task.id then none else _) = _
      by_cases hj : j = task.id
      · rw [if_pos hj, if_pos ⟨hj, rfl⟩]
      · rw [if_neg hj, if_neg fun h => hj h.1]

theorem delete_tasks (taskId j : Text) :
    (s.delete taskId true).tasks j = if j = taskId then none else s.tasks j := rfl

theorem delete_modes (taskId j : Text) : (s.delete taskId true).outputModes.modes j =
    if j = taskId then none else s.outputModes.modes j := rfl

end NegotiatingTaskStore

end OpencodeA2a.Server
