import OpencodeA2a.Stream.Runtime

/-!
# Lanes

Every artifact of a stream is a lane: one for the text, one for the reasoning,
and one for each tool call. The client folds the updates of a lane; what it then
has is what the output state keeps for the artifact.
-/

namespace OpencodeA2a.Stream

variable {cfg : Config}

/-! ## §1  The client -/

/-- What a client makes of an update: `append` concatenates, else it replaces. -/
def ArtifactUpdate.fold (u : ArtifactUpdate) (t : Text) : Text :=
  if u.append then t ++ u.part.textD else u.part.textD

/-- The text of the artifact after the updates. -/
def clientText (id : Text) (us : List ArtifactUpdate) : Text :=
  us.foldl (fun t u => if u.artifactId = id then u.fold t else t) []

def Event.update? : Event → Option ArtifactUpdate
  | .artifact u => some u
  | _ => none

theorem clientText_snoc (id : Text) (us : List ArtifactUpdate) (u : ArtifactUpdate) :
    clientText id (us ++ [u]) =
      if u.artifactId = id then u.fold (clientText id us) else clientText id us := by
  unfold clientText
  rw [List.foldl_append, List.foldl_cons, List.foldl_nil]

/-- The updates of the artifact. -/
def laneOf (id : Text) (us : List ArtifactUpdate) : List ArtifactUpdate :=
  us.filter fun u => u.artifactId = id

@[simp] theorem laneOf_append (id : Text) (us vs : List ArtifactUpdate) :
    laneOf id (us ++ vs) = laneOf id us ++ laneOf id vs := List.filter_append us vs

theorem laneOf_eq_nil {id : Text} {us : List ArtifactUpdate} (h : ∀ u ∈ us, u.artifactId ≠ id) :
    laneOf id us = [] := by
  refine List.filter_eq_nil_iff.mpr ?_
  intro u hu
  simpa using h u hu

/-- Updates of other artifacts are no matter. -/
theorem clientText_laneOf (id : Text) (us : List ArtifactUpdate) :
    clientText id (laneOf id us) = clientText id us := by
  induction us using List.reverseRecOn with
  | nil => rfl
  | append_singleton us u ih =>
      rw [clientText_snoc, laneOf_append]
      by_cases hu : u.artifactId = id
      · have hlane : laneOf id [u] = [u] := by simp [laneOf, hu]
        rw [hlane, clientText_snoc, if_pos hu, if_pos hu, ih]
      · have hlane : laneOf id [u] = [] := by simp [laneOf, hu]
        rw [hlane, List.append_nil, if_neg hu, ih]

theorem clientText_congr {id : Text} {us vs : List ArtifactUpdate}
    (h : laneOf id us = laneOf id vs) : clientText id us = clientText id vs := by
  rw [← clientText_laneOf, h, clientText_laneOf]

/-! ## §2  The artifact ids -/

/-- The artifacts of tool calls. -/
def ToolLane (cfg : Config) (id : Text) : Prop :=
  ∃ rest, id = cfg.artifactId ++ ":tool".toList ++ rest

/-- The artifact of the text, and that of the reasoning. -/
def Config.textLane (cfg : Config) : Text := cfg.artifactId ++ ":text".toList

def Config.reasoningLane (cfg : Config) : Text := cfg.artifactId ++ ":reasoning".toList

theorem toolLane_resolve (partId : Text) :
    ToolLane cfg (resolveStreamArtifactId cfg .toolCall partId) := by
  simp only [resolveStreamArtifactId]
  split
  · rename_i normalized _
    exact ⟨":".toList ++ normalized, by simp⟩
  · exact ⟨[], (List.append_nil _).symm⟩

theorem not_toolLane_of_length {id : Text} (h : id.length ≤ cfg.artifactId.length + 5)
    (hlast : id.getLast? ≠ some 'l') : ¬ ToolLane cfg id := by
  rintro ⟨rest, rfl⟩
  have hrest : rest = [] := by
    have htool : ":tool".toList.length = 5 := by decide
    rw [List.length_append, List.length_append, htool] at h
    exact List.length_eq_zero_iff.mp (by omega)
  rw [hrest] at hlast
  simp at hlast

theorem not_toolLane_text : ¬ ToolLane cfg cfg.textLane := by
  refine not_toolLane_of_length ?_ ?_
  · simp [Config.textLane]
  · simp [Config.textLane]

theorem not_toolLane_reasoning : ¬ ToolLane cfg cfg.reasoningLane := by
  rintro ⟨rest, h⟩
  unfold Config.reasoningLane at h
  rw [List.append_assoc] at h
  have := List.append_cancel_left h
  simp at this

/-! ## §3  Chunks go to the lane of their part -/

/-- The part's artifact is that of its type. -/
def StreamPartState.Filed (cfg : Config) (state : StreamPartState) : Prop :=
  ∃ partId, state.artifactId = resolveStreamArtifactId cfg state.blockType partId

/-- A chunk of a text or reasoning part appends the text it carries. -/
structure NormalizedStreamChunk.Filed (cfg : Config) (c : NormalizedStreamChunk) : Prop where
  lane : ∃ partId, c.artifactId = resolveStreamArtifactId cfg c.blockType partId
  text : c.blockType = .toolCall ∨
    c.append = true ∧ c.accumulateContent = true ∧ c.part = .text c.contentKey

def Runtime.Filed (cfg : Config) (rt : Runtime) : Prop :=
  ∀ partId state, rt.partStates partId = some state → state.Filed cfg

variable {state state' : StreamPartState}

/-- A step of a part: it stays in its lane, and so do the chunks it makes. -/
structure StreamPartState.Files (cfg : Config) (state : StreamPartState)
    (step : StreamPartState × List NormalizedStreamChunk) : Prop where
  artifactId : step.1.artifactId = state.artifactId
  blockType : step.1.blockType = state.blockType
  chunks : state.Filed cfg → ∀ c ∈ step.2, c.Filed cfg

namespace StreamPartState

theorem Files.refl (state : StreamPartState) : state.Files cfg (state, []) :=
  ⟨rfl, rfl, fun _ c hc => by cases hc⟩

theorem Files.filed {step : StreamPartState × List NormalizedStreamChunk}
    (h : state.Files cfg step) (hs : state.Filed cfg) : step.1.Filed cfg := by
  obtain ⟨partId, hid⟩ := hs
  exact ⟨partId, by rw [h.artifactId, h.blockType, hid]⟩

/-- Two steps, one after the other. -/
theorem Files.append {cs cs' : List NormalizedStreamChunk} {state'' : StreamPartState}
    (h : state.Files cfg (state', cs)) (h' : state'.Files cfg (state'', cs')) :
    state.Files cfg (state'', cs ++ cs') := by
  refine ⟨h'.artifactId.trans h.artifactId, h'.blockType.trans h.blockType, ?_⟩
  intro hs c hc
  rcases List.mem_append.mp hc with hc | hc
  · exact h.chunks hs c hc
  · exact h'.chunks (h.filed hs) c hc

theorem newTextChunk_filed (hs : state.Filed cfg) (text : Text) :
    (state.newTextChunk text).Filed cfg :=
  ⟨hs, .inr ⟨rfl, rfl, rfl⟩⟩

theorem files_deltaChunks (deltaText : Text) (messageId : Option Text) :
    state.Files cfg (state.deltaChunks deltaText messageId) := by
  unfold deltaChunks
  split
  · exact Files.refl state
  · refine ⟨rfl, rfl, ?_⟩
    intro hs c hc
    obtain rfl := List.mem_singleton.mp hc
    exact @newTextChunk_filed cfg { state.withMessageId messageId with
      buffer := state.buffer ++ deltaText } hs deltaText

theorem files_snapshotChunks (snapshot : Text) (messageId : Option Text) :
    state.Files cfg (state.snapshotChunks snapshot messageId) := by
  have hnone : ∀ state' : StreamPartState, state'.artifactId = state.artifactId →
      state'.blockType = state.blockType → state.Files cfg (state', []) :=
    fun state' ha hb => ⟨ha, hb, fun _ c hc => by cases hc⟩
  unfold snapshotChunks
  simp only
  split
  · exact hnone _ rfl rfl
  · split
    · split
      · exact hnone _ rfl rfl
      · refine ⟨rfl, rfl, ?_⟩
        intro hs c hc
        obtain rfl := List.mem_singleton.mp hc
        exact @newTextChunk_filed cfg { state.withMessageId messageId with
          buffer := snapshot } hs _
    · exact hnone _ rfl rfl

theorem files_toolChunks (htool : state.blockType = .toolCall) (part : Mapping)
    (messageId : Option Text) : state.Files cfg (state.toolChunks cfg part messageId) := by
  unfold toolChunks
  split
  · exact Files.refl state
  · simp only
    split
    · exact ⟨rfl, rfl, fun _ c hc => by cases hc⟩
    · refine ⟨rfl, rfl, ?_⟩
      intro hs c hc
      obtain rfl := List.mem_singleton.mp hc
      exact ⟨hs, .inl htool⟩

theorem files_pendingChunks (pending : List PendingDelta) :
    state.Files cfg (state.pendingChunks pending) := by
  induction pending generalizing state with
  | nil => exact Files.refl state
  | cons buffered pending ih =>
      simp only [pendingChunks]
      split
      · exact (files_deltaChunks buffered.delta buffered.messageId).append ih
      · exact ih

theorem files_updateChunks (part props : Mapping) (messageId : Option Text) :
    state.Files cfg (state.updateChunks cfg part props messageId) := by
  unfold updateChunks
  split
  · exact files_deltaChunks _ messageId
  · split
    · rename_i htool
      exact files_toolChunks htool part messageId
    · split
      · exact files_snapshotChunks _ messageId
      · exact Files.refl state

end StreamPartState

theorem upsertPartState_filed (partStates : Text → Option StreamPartState) (partId : Text)
    (blockType : BlockType) (role : Option Role) (messageId : Option Text) :
    (upsertPartState cfg partStates partId blockType role messageId).Filed cfg := by
  unfold upsertPartState
  simp only
  split <;> exact ⟨partId, rfl⟩

variable {rt : Runtime}

theorem Runtime.Filed.setPart (h : rt.Filed cfg) (partId : Text) (hs : state.Filed cfg) :
    (rt.setPart partId state).Filed cfg := by
  intro q st hq
  change Function.update rt.partStates partId (some state) q = some st at hq
  by_cases heq : q = partId
  · subst heq
    rw [Function.update_self] at hq
    cases hq
    exact hs
  · rw [Function.update_of_ne heq] at hq
    exact h q st hq

/-- The parts keep to their lanes, and so do their chunks. -/
theorem Runtime.Filed.handlePart (h : rt.Filed cfg) (e : PartEvent) :
    (rt.handlePart cfg e).1.Filed cfg ∧ ∀ c ∈ (rt.handlePart cfg e).2, c.Filed cfg := by
  have hnone : ∀ c ∈ ([] : List NormalizedStreamChunk), c.Filed cfg := fun c hc => by cases hc
  cases e with
  | delta partId delta messageId =>
      simp only [Runtime.handlePart]
      split
      · exact ⟨h, hnone⟩
      · rename_i state hstate
        split
        · exact ⟨h, hnone⟩
        · have hs := h partId state hstate
          have hfiles : state.Files cfg _ := state.files_deltaChunks delta messageId
          exact ⟨h.setPart partId (hfiles.filed hs), hfiles.chunks hs⟩
  | updated partId part props messageId =>
      simp only [Runtime.handlePart]
      split
      · exact ⟨h, hnone⟩
      · rename_i blockType _
        have hs := @upsertPartState_filed cfg rt.partStates partId blockType
          (normalizeRole (orField (part.get? "role") (props.get? "role"))) messageId
        split
        · exact ⟨h.setPart partId hs, hnone⟩
        · generalize upsertPartState cfg rt.partStates partId blockType
            (normalizeRole (orField (part.get? "role") (props.get? "role"))) messageId = state at hs ⊢
          have hpending : state.Files cfg _ := state.files_pendingChunks (rt.pendingDeltas partId)
          have hupdate := @StreamPartState.files_updateChunks cfg
            (state.pendingChunks (rt.pendingDeltas partId)).1 part props messageId
          have hboth := hpending.append hupdate
          exact ⟨h.setPart partId (hboth.filed hs), hboth.chunks hs⟩

/-! ## §4  The output state is what the client has -/

/-- Artifacts outside the tool lanes that were never shown have no text. -/
def StreamOutputState.Fresh (cfg : Config) (s : StreamOutputState) : Prop :=
  ∀ id, ¬ ToolLane cfg id → id ∉ s.emittedArtifactIds → s.content id = []

theorem emitChunk_none {s s' : StreamOutputState} {c : NormalizedStreamChunk}
    (h : emitChunk cfg s c = (s', none)) : s' = s := by
  unfold emitChunk at h
  split at h
  · cases h
    rfl
  · split at h <;> cases h
    rfl

/-- An update that is emitted leaves the client with the text that the output
state keeps. -/
theorem emitChunk_some {s s' : StreamOutputState} {c : NormalizedStreamChunk} {u : ArtifactUpdate}
    (h : emitChunk cfg s c = (s', some u)) (hc : c.Filed cfg) (hfresh : s.Fresh cfg) :
    s'.Fresh cfg ∧ u.artifactId = c.artifactId ∧
      (s'.textArtifactId = s.textArtifactId ∨
        c.blockType = .text ∧ s'.textArtifactId = nonempty? c.artifactId) ∧
      ∀ id us, ¬ ToolLane cfg id → clientText id us = s.content id →
        clientText id (us ++ [u]) = s'.content id := by
  unfold emitChunk at h
  split at h
  · cases h
  · split at h
    · cases h
    · rename_i s₁ b hreg
      obtain ⟨hcontent, hemitted, hb, -, htext⟩ := StreamOutputState.registerChunk_eq_some hreg
      have hnext : ∀ i, ¬ ToolLane cfg i → s₁.content i =
          if i = c.artifactId then s.content c.artifactId ++ c.contentKey else s.content i := by
        intro i hi
        rw [hcontent i]
        by_cases hic : i = c.artifactId
        · rw [if_pos hic, if_pos hic]
          rcases hc.text with htool | ⟨happ, hacc, -⟩
          · obtain ⟨partId, hlane⟩ := hc.lane
            rw [htool] at hlane
            exact absurd (hlane ▸ toolLane_resolve partId) (hic ▸ hi)
          · unfold StreamOutputState.nextValue
            rw [happ, hacc]
            rfl
        · rw [if_neg hic, if_neg hic]
      have hs' : s'.emittedArtifactIds = s₁.emittedArtifactIds ∧
          (∀ i, s'.content i = s₁.content i) ∧
          (s'.textArtifactId = s₁.textArtifactId ∨
            c.blockType = .text ∧ s'.textArtifactId = nonempty? c.artifactId) ∧
          u.artifactId = c.artifactId ∧ u.part = c.part ∧ u.append = b := by
        cases h
        refine ⟨?_, ?_, ?_, rfl, rfl, rfl⟩
        · split <;> simp
        · intro i
          split <;> simp
        · split
          · rename_i hblock
            simp only [StreamOutputState.textArtifactId_nextSequence,
              StreamOutputState.rememberTextArtifactId]
            split
            · rename_i normalized hnorm
              exact .inr ⟨hblock, hnorm.symm⟩
            · exact .inl rfl
          · exact .inl rfl
      obtain ⟨hemitted', hcontent', htext', hid, hpart, happend⟩ := hs'
      refine ⟨?_, hid, ?_, ?_⟩
      · intro i hi hnot
        rw [hemitted', hemitted] at hnot
        have hic : i ≠ c.artifactId := fun heq => hnot (heq ▸ List.mem_cons_self ..)
        rw [hcontent', hnext i hi, if_neg hic]
        exact hfresh i hi fun hmem => hnot (List.mem_cons_of_mem _ hmem)
      · rw [htext] at htext'
        exact htext'
      · intro i us hi hus
        rw [clientText_snoc, hcontent', hnext i hi, hid]
        by_cases hic : i = c.artifactId
        · subst hic
          rw [if_pos rfl, if_pos rfl, ArtifactUpdate.fold, hus, hpart, happend, hb]
          rcases hc.text with htool | ⟨-, -, hpt⟩
          · obtain ⟨partId, hlane⟩ := hc.lane
            rw [htool] at hlane
            exact absurd (hlane ▸ toolLane_resolve partId) hi
          · rw [hpt]
            split
            · rfl
            · rename_i hnot
              rw [List.contains_iff_mem] at hnot
              rw [hfresh _ hi hnot]
              rfl
        · rw [if_neg (fun heq => hic heq.symm), if_neg hic, hus]

end OpencodeA2a.Stream
