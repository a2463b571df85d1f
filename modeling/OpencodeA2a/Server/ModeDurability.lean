import OpencodeA2a.Server.RequestHandler

/-!
# The output modes of a task last

The modes a task is created under are in the registry of the process until a terminal
state is saved, and in the metadata of whatever is stored meanwhile. A later GetTask
finds them at one of the two places, another process in the metadata.
-/

namespace OpencodeA2a.Server

open OpencodeA2a.Stream

/-! ## §1  The store at work -/

/-- What happens to the store within one process. -/
inductive StoreAct where
  /-- a request about the task comes in -/
  | build (taskId : Text) (acceptedOutputModes : List Text)
  | save (task : Task) (event : Option Payload) (stored : Bool)
  | delete (taskId : Text) (deleted : Bool)

variable (py : TextFunctions)

def StoreAct.step (s : NegotiatingTaskStore) : StoreAct → Option NegotiatingTaskStore
  | build taskId acceptedOutputModes => some (s.build py taskId acceptedOutputModes)
  | save task event stored => some (s.save py task event stored)
  | delete taskId deleted => some (s.delete taskId deleted)

/-- The saves of the task `id` end with a terminal state; whatever is done besides is about
other tasks, or is a further request about this one that names no modes, or the same. -/
def Admitted (id : Text) (modes : List Text) (s : NegotiatingTaskStore) : StoreAct → Prop
  | .build taskId acceptedOutputModes =>
      taskId = id → ∀ modes', normalizeAcceptedOutputModes py (.arr (acceptedOutputModes.map .str)) =
        some modes' → modes' = modes
  | .save task _ _ =>
      task.id = id → ∀ t, s.tasks id = some t → t.status.state.isTerminal = false
  | .delete taskId _ => taskId ≠ id

/-- The modes are in the metadata of the stored task; and in the registry, unless a
terminal state is stored. -/
structure Durable (id : Text) (modes : List Text) (s : NegotiatingTaskStore) : Prop where
  stored : ∀ t, s.tasks id = some t →
    ∃ modes', extractAcceptedOutputModesFromMetadata py t.metadata = some modes' ∧
      modes'.Perm modes
  remembered : s.outputModes.modes id = some modes ∨
    s.outputModes.modes id = none ∧ ∃ t, s.tasks id = some t ∧ t.status.state.isTerminal = true

variable {py} {id : Text} {modes : List Text} {s s' : NegotiatingTaskStore}

theorem build_modes (taskId : Text) (acceptedOutputModes : List Text) (j : Text) :
    (s.build py taskId acceptedOutputModes).outputModes.modes j =
      if j = taskId ∧ taskId ≠ [] then
        (normalizeAcceptedOutputModes py (.arr (acceptedOutputModes.map .str))).or
          (s.outputModes.modes j)
      else s.outputModes.modes j := by
  unfold NegotiatingTaskStore.build
  by_cases hid : taskId = []
  · rw [if_pos hid, if_neg fun h => h.2 hid]
  · rw [if_neg hid]
    cases hm : normalizeAcceptedOutputModes py (.arr (acceptedOutputModes.map .str)) with
    | none =>
        rw [Option.none_or, ite_self]
    | some accepted =>
        obtain ⟨hcollected, hne⟩ := normalizeAcceptedOutputModes_eq_some hm
        have hagain : normalizeAcceptedOutputModes py (.arr (accepted.map .str)) = some accepted :=
          normalizeModes_collected hcollected hne
        simp only [TaskOutputModeRegistry.remember, hagain]
        by_cases hj : j = taskId
        · rw [if_pos hj, if_pos ⟨hj, hid⟩, Option.some_or]
        · rw [if_neg hj, if_neg fun h => hj h.1]

theorem build_tasks (taskId : Text) (acceptedOutputModes : List Text) :
    (s.build py taskId acceptedOutputModes).tasks = s.tasks := by
  unfold NegotiatingTaskStore.build
  split
  · rfl
  · split <;> rfl

theorem Durable.build (h : Durable py id modes s) {taskId : Text} {acceptedOutputModes : List Text}
    (hok : Admitted py id modes s (.build taskId acceptedOutputModes)) :
    Durable py id modes (s.build py taskId acceptedOutputModes) where
  stored := by
    rw [build_tasks]
    exact h.stored
  remembered := by
    rw [build_tasks, build_modes]
    split
    · rename_i hid
      cases hm : normalizeAcceptedOutputModes py (.arr (acceptedOutputModes.map .str)) with
      | none => exact h.remembered
      | some modes' =>
          rw [hok hid.1.symm modes' hm]
          exact .inl rfl
    · exact h.remembered

theorem Durable.save (h : Durable py id modes s) (hmodes : Collected py modes) (hne : modes ≠ [])
    {task : Task} {event : Option Payload} {stored : Bool}
    (hok : Admitted py id modes s (.save task event stored)) :
    Durable py id modes (s.save py task event stored) := by
  cases stored with
  | false => exact h
  | true =>
      by_cases hid : id = task.id
      · subst hid
        -- no terminal state is stored yet, so the registry still has the modes
        have hreg : s.outputModes.modes task.id = some modes := by
          rcases h.remembered with hreg | ⟨-, t, ht, hterminal⟩
          · exact hreg
          · rw [hok rfl t ht] at hterminal
            cases hterminal
        have hresolve : s.outputModes.resolve py task.id
            (some (canonicalizeStreamArtifacts task)) = some modes := by
          unfold TaskOutputModeRegistry.resolve
          rw [hreg]
        have hannotated : (s.negotiated py task event).1 =
            annotateTask py (canonicalizeStreamArtifacts task) (some modes) := by
          simp only [NegotiatingTaskStore.negotiated, hresolve]
        have hstored : (s.save py task event true).tasks task.id =
            some (annotateTask py (canonicalizeStreamArtifacts task) (some modes)) := by
          rw [NegotiatingTaskStore.save_tasks, if_pos rfl, hannotated]
        refine ⟨?_, ?_⟩
        · intro t ht
          rw [hstored, Option.some.injEq] at ht
          subst ht
          exact ⟨_, extract_annotatedMetadata _ hmodes hne, List.perm_insertionSort _ _⟩
        · rw [NegotiatingTaskStore.save_modes]
          cases hterminal : task.status.state.isTerminal with
          | false =>
              left
              rw [if_neg fun h => Bool.false_ne_true h.2]
              exact hreg
          | true =>
              right
              exact ⟨if_pos ⟨rfl, rfl⟩, _, hstored, hterminal⟩
      · have htasks : (s.save py task event true).tasks id = s.tasks id := by
          rw [NegotiatingTaskStore.save_tasks, if_neg hid]
        refine ⟨?_, ?_⟩
        · rw [htasks]
          exact h.stored
        · rw [htasks, NegotiatingTaskStore.save_modes, if_neg fun heq => hid heq.1]
          exact h.remembered

theorem Durable.delete (h : Durable py id modes s) {taskId : Text} {deleted : Bool}
    (hok : taskId ≠ id) : Durable py id modes (s.delete taskId deleted) := by
  cases deleted with
  | false => exact h
  | true =>
      have hid : id ≠ taskId := fun heq => hok heq.symm
      refine ⟨?_, ?_⟩
      · rw [NegotiatingTaskStore.delete_tasks, if_neg hid]
        exact h.stored
      · rw [NegotiatingTaskStore.delete_tasks, NegotiatingTaskStore.delete_modes, if_neg hid,
          if_neg hid]
        exact h.remembered

theorem Durable.step (h : Durable py id modes s) (hmodes : Collected py modes) (hne : modes ≠ [])
    {a : StoreAct} (hok : Admitted py id modes s a) (hstep : StoreAct.step py s a = some s') :
    Durable py id modes s' := by
  cases a with
  | build taskId acceptedOutputModes =>
      cases hstep
      exact h.build hok
  | save task event stored =>
      cases hstep
      exact h.save hmodes hne hok
  | delete taskId deleted =>
      cases hstep
      exact h.delete hok

/-! ## §3  What GetTask finds -/

end OpencodeA2a.Server
