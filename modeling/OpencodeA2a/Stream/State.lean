import Mathlib.Logic.Function.Basic
import OpencodeA2a.Stream.Events

/-!
# The output state of a streaming run

`_StreamOutputState`: what a run has shown its client, artifact by artifact. The
dictionaries are functions, absent keys are `none`.
-/

namespace OpencodeA2a.Stream

/-! ## §1  The state and its operations -/

/-- One entry of `incoming`, in the loop of `_merge_token_usage`. -/
def mergeUsageEntry (merged : Mapping) (entry : Text × Json) : Mapping :=
  match entry with
  | (_, .null) => merged
  | (key, .obj value) =>
      if key = "raw".toList then
        merged.set key (.obj (((merged.getMapping? "raw").getD []).merge value))
      else merged.set key (.obj value)
  | (key, value) => merged.set key value

/-- `_merge_token_usage` -/
def mergeTokenUsage (base incoming : Option Mapping) : Option Mapping :=
  if (incoming.getD []).foldl mergeUsageEntry (base.getD []) = [] then none
  else some ((incoming.getD []).foldl mergeUsageEntry (base.getD []))

structure StreamOutputState where
  userText : Text
  stableMessageId : Text
  eventIdNamespace : Text
  artifactContentBuffers : Text → Option Text := fun _ => none
  progressBuffers : Text → Option Text := fun _ => none
  tokenUsage : Option Mapping := none
  upstreamError : Option UpstreamError := none
  pendingInterruptRequestIds : List Text := []
  emittedArtifactIds : List Text := []
  textArtifactId : Option Text := none
  sawAnyChunk : Bool := false
  sequence : ℕ := 0

namespace StreamOutputState

/-- `artifact_content_buffers.get(artifact_id, "")` -/
def content (s : StreamOutputState) (artifactId : Text) : Text :=
  (s.artifactContentBuffers artifactId).getD []

/-- `should_drop_initial_user_echo` -/
def shouldDropInitialUserEcho (s : StreamOutputState) (text : Text) (blockType : BlockType)
    (role : Option Role) : Bool :=
  if role.isSome then false
  else if blockType ≠ .text then false
  else if s.sawAnyChunk then false
  else s.userText.strip ≠ [] && text.strip == s.userText.strip

/-- What the buffer of the artifact becomes: `next_value` of `register_chunk`. -/
def nextValue (s : StreamOutputState) (artifactId contentKey : Text)
    (append accumulateContent : Bool) : Text :=
  if append && accumulateContent then s.content artifactId ++ contentKey else contentKey

/-- `register_chunk` where it registers: the new state and `effective_append`. -/
def registerChunk (s : StreamOutputState) (artifactId contentKey : Text)
    (append accumulateContent : Bool) : Option (StreamOutputState × Bool) :=
  let next := s.nextValue artifactId contentKey append accumulateContent
  if next = s.content artifactId then none
  else some
    ({ s with
        artifactContentBuffers := Function.update s.artifactContentBuffers artifactId (some next)
        sawAnyChunk := true
        emittedArtifactIds := artifactId :: s.emittedArtifactIds },
      s.emittedArtifactIds.contains artifactId)

/-- `register_progress` where it registers. -/
def registerProgress (s : StreamOutputState) (identity contentKey : Text) :
    Option StreamOutputState :=
  if s.progressBuffers identity = some contentKey then none
  else some { s with
    progressBuffers := Function.update s.progressBuffers identity (some contentKey) }

/-- `remember_text_artifact_id` -/
def rememberTextArtifactId (s : StreamOutputState) (artifactId : Text) : StreamOutputState :=
  match nonempty? artifactId with
  | some normalized => { s with textArtifactId := some normalized }
  | none => s

/-- `resolve_text_artifact_id` -/
def resolveTextArtifactId (s : StreamOutputState) (default : Text) : Text :=
  (s.textArtifactId.bind nonempty?).getD default

/-- `should_emit_final_snapshot` where it says so: the new state. -/
def shouldEmitFinalSnapshot (s : StreamOutputState) (artifactId text : Text) :
    Option StreamOutputState :=
  if text.strip = [] then none
  else if (s.content artifactId).strip = text.strip then none
  else some { s with
    artifactContentBuffers := Function.update s.artifactContentBuffers artifactId (some text)
    sawAnyChunk := true }

/-- `next_sequence`: the state after it, whose `sequence` is the number drawn. -/
def nextSequence (s : StreamOutputState) : StreamOutputState :=
  { s with sequence := s.sequence + 1 }

/-- `resolve_message_id` -/
def resolveMessageId (s : StreamOutputState) (messageId : Option Text) : Text :=
  (messageId.bind nonempty?).getD s.stableMessageId

/-- `build_event_id` -/
def buildEventId (s : StreamOutputState) (sequence : ℕ) : Text :=
  s.eventIdNamespace ++ ":".toList ++ (toString sequence).toList

/-- `ingest_token_usage` -/
def ingestTokenUsage (s : StreamOutputState) (usage : Mapping) : StreamOutputState :=
  { s with tokenUsage := mergeTokenUsage s.tokenUsage (some usage) }

/-- `mark_interrupt_pending` where it marks. -/
def markInterruptPending (s : StreamOutputState) (requestId : Text) : Option StreamOutputState :=
  match nonempty? requestId with
  | none => none
  | some normalized =>
      if s.pendingInterruptRequestIds.contains normalized then none
      else some { s with
        pendingInterruptRequestIds := normalized :: s.pendingInterruptRequestIds }

/-- `clear_interrupt_pending` where it clears. -/
def clearInterruptPending (s : StreamOutputState) (requestId : Text) : Option StreamOutputState :=
  match nonempty? requestId with
  | none => none
  | some normalized =>
      if s.pendingInterruptRequestIds.contains normalized then
        some { s with
          pendingInterruptRequestIds :=
            s.pendingInterruptRequestIds.filter fun i => i ≠ normalized }
      else none

/-! ## §2  What the operations do to the buffers -/

variable {s s' : StreamOutputState}

@[simp] theorem content_nextSequence (s : StreamOutputState) (i : Text) :
    s.nextSequence.content i = s.content i := rfl

@[simp] theorem emitted_nextSequence (s : StreamOutputState) :
    s.nextSequence.emittedArtifactIds = s.emittedArtifactIds := rfl

@[simp] theorem textArtifactId_nextSequence (s : StreamOutputState) :
    s.nextSequence.textArtifactId = s.textArtifactId := rfl

@[simp] theorem content_rememberTextArtifactId (s : StreamOutputState) (a i : Text) :
    (s.rememberTextArtifactId a).content i = s.content i := by
  unfold rememberTextArtifactId
  split <;> rfl

@[simp] theorem emitted_rememberTextArtifactId (s : StreamOutputState) (a : Text) :
    (s.rememberTextArtifactId a).emittedArtifactIds = s.emittedArtifactIds := by
  unfold rememberTextArtifactId
  split <;> rfl

theorem content_update (s : StreamOutputState) (a t i : Text) (b : Bool) (l : List Text) :
    ({ s with
        artifactContentBuffers := Function.update s.artifactContentBuffers a (some t)
        sawAnyChunk := b
        emittedArtifactIds := l } : StreamOutputState).content i =
      if i = a then t else s.content i := by
  unfold content
  by_cases hi : i = a
  · subst hi
    rw [if_pos rfl]
    simp [Function.update_self]
  · rw [if_neg hi]
    simp [Function.update_of_ne hi]

theorem registerChunk_eq_some {artifactId contentKey : Text} {append accumulate b : Bool}
    (h : s.registerChunk artifactId contentKey append accumulate = some (s', b)) :
    (∀ i, s'.content i = if i = artifactId then
      s.nextValue artifactId contentKey append accumulate else s.content i) ∧
    s'.emittedArtifactIds = artifactId :: s.emittedArtifactIds ∧
    b = s.emittedArtifactIds.contains artifactId ∧ s'.sawAnyChunk = true ∧
    s'.textArtifactId = s.textArtifactId := by
  unfold registerChunk at h
  simp only at h
  split at h
  · cases h
  · cases h
    refine ⟨?_, rfl, rfl, rfl, rfl⟩
    intro i
    exact content_update s artifactId _ i true _

/-- A chunk that appends something to the text of its artifact is registered. -/
theorem registerChunk_isSome (artifactId : Text) {contentKey : Text} (h : contentKey ≠ []) :
    (s.registerChunk artifactId contentKey true true).isSome = true := by
  have hne : s.nextValue artifactId contentKey true true ≠ s.content artifactId := by
    intro heq
    exact h (List.append_right_eq_self.mp heq)
  unfold registerChunk
  simp only [hne, if_false, Option.isSome_some]

/-- Only the contents of the artifact change. -/
theorem shouldEmitFinalSnapshot_update {artifactId text : Text}
    (h : s.shouldEmitFinalSnapshot artifactId text = some s') :
    s' = { s with
      artifactContentBuffers := Function.update s.artifactContentBuffers artifactId (some text)
      sawAnyChunk := true } := by
  unfold shouldEmitFinalSnapshot at h
  split at h
  · cases h
  · split at h
    · cases h
    · exact (Option.some.inj h).symm

theorem shouldEmitFinalSnapshot_eq_some {artifactId text : Text}
    (h : s.shouldEmitFinalSnapshot artifactId text = some s') :
    ∀ i, s'.content i = if i = artifactId then text else s.content i := by
  intro i
  rw [shouldEmitFinalSnapshot_update h]
  exact content_update s artifactId text i true s.emittedArtifactIds

/-- No snapshot is due: there is nothing to show, or it is shown already. -/
theorem shouldEmitFinalSnapshot_eq_none {artifactId text : Text}
    (h : s.shouldEmitFinalSnapshot artifactId text = none) :
    text.Blank ∨ (s.content artifactId).strip = text.strip := by
  unfold shouldEmitFinalSnapshot at h
  split at h
  · rename_i hb
    exact .inl (Text.blank_iff.mpr hb)
  · split at h
    · rename_i heq
      exact .inr heq
    · cases h

theorem shouldDropInitialUserEcho_of_role (s : StreamOutputState) (text : Text)
    (blockType : BlockType) (role : Role) :
    s.shouldDropInitialUserEcho text blockType (some role) = false := rfl

/-! ## §3  What the operations do to the records -/

/-- The upstream error and the token usage are the same in both states. -/
structure SameRecords (s s' : StreamOutputState) : Prop where
  upstreamError : s'.upstreamError = s.upstreamError
  tokenUsage : s'.tokenUsage = s.tokenUsage

theorem SameRecords.refl (s : StreamOutputState) : s.SameRecords s := ⟨rfl, rfl⟩

theorem registerChunk_records {artifactId contentKey : Text} {append accumulate b : Bool}
    (h : s.registerChunk artifactId contentKey append accumulate = some (s', b)) :
    s.SameRecords s' := by
  unfold registerChunk at h
  simp only at h
  split at h <;> cases h
  exact ⟨rfl, rfl⟩

theorem registerProgress_records {identity contentKey : Text}
    (h : s.registerProgress identity contentKey = some s') : s.SameRecords s' := by
  unfold registerProgress at h
  split at h <;> cases h
  exact ⟨rfl, rfl⟩

theorem rememberTextArtifactId_records (s : StreamOutputState) (artifactId : Text) :
    s.SameRecords (s.rememberTextArtifactId artifactId) := by
  unfold rememberTextArtifactId
  split <;> exact ⟨rfl, rfl⟩

theorem shouldEmitFinalSnapshot_records {artifactId text : Text}
    (h : s.shouldEmitFinalSnapshot artifactId text = some s') : s.SameRecords s' := by
  rw [shouldEmitFinalSnapshot_update h]
  exact ⟨rfl, rfl⟩

theorem markInterruptPending_records {requestId : Text}
    (h : s.markInterruptPending requestId = some s') : s.SameRecords s' := by
  unfold markInterruptPending at h
  split at h
  · cases h
  · split at h <;> cases h
    exact ⟨rfl, rfl⟩

theorem clearInterruptPending_records {requestId : Text}
    (h : s.clearInterruptPending requestId = some s') : s.SameRecords s' := by
  unfold clearInterruptPending at h
  split at h
  · cases h
  · split at h <;> cases h
    exact ⟨rfl, rfl⟩

end StreamOutputState

end OpencodeA2a.Stream
