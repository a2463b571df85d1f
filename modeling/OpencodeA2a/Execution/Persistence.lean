import OpencodeA2a.Execution.Reconstruction
import OpencodeA2a.Execution.ToolOrchestration
import OpencodeA2a.Store.TaskArtifacts

/-!
# What is saved of a run

The artifact updates of a run, as the task store folds them. Whether the store can
compact them depends on the stream metadata, which the run attaches only where the
client has negotiated the stream hints.
-/

namespace OpencodeA2a.Execution

open OpencodeA2a.Stream OpencodeA2a.Store

variable {r r' : Run} {c : Consumer} {act : RunAction}

/-! ## §1  The updates of a run -/

/-- An error text, or an update that belongs to the lane of its block type, which
its metadata names where hints are emitted. -/
def Run.Files (r : Run) (u : ArtifactUpdate) : Prop :=
  u.artifactId = r.errorLane ∨
    ∃ b : BlockType, (b = .toolCall ↔ ToolLane r.config u.artifactId) ∧
      (b ≠ .toolCall → isText u.part = true) ∧
      blockType? u.metadata = if r.prepared.emitStreamingMetadata then some b else none

theorem files_congr (h : r'.prepared = r.prepared) {u : ArtifactUpdate} :
    r'.Files u ↔ r.Files u := by
  unfold Run.Files Run.errorLane
  rw [toolLane_congr (config_artifactId h), h]

theorem not_toolLane_errorLane (r : Run) : ¬ ToolLane r.config r.errorLane := by
  rintro ⟨rest, h⟩
  change r.prepared.taskId ++ ":error".toList =
    r.prepared.taskId ++ ":stream".toList ++ ":tool".toList ++ rest at h
  rw [List.append_assoc, List.append_assoc] at h
  have := List.append_cancel_left h
  simp at this

theorem blockType?_metadata (cfg : Config) (b : BlockType) (messageId : Text)
    (s : StreamOutputState) : blockType? (buildStreamArtifactMetadata cfg b messageId s) =
      if cfg.emitStreamingMetadata then some b else none := by
  unfold buildStreamArtifactMetadata
  split <;> rfl

theorem toolCall_iff_toolLane {cfg : Config} {id : Text} {b : BlockType} {partId : Text}
    (h : id = resolveStreamArtifactId cfg b partId) : b = .toolCall ↔ ToolLane cfg id := by
  subst h
  cases b with
  | toolCall => exact ⟨fun _ => toolLane_resolve partId, fun _ => rfl⟩
  | text =>
      refine ⟨?_, fun htool => absurd htool not_toolLane_text⟩
      intro hcon
      cases hcon
  | reasoning =>
      refine ⟨?_, fun htool => absurd htool not_toolLane_reasoning⟩
      intro hcon
      cases hcon

/-- The update that a chunk becomes. -/
theorem emitChunk_update {cfg : Config} {s s' : StreamOutputState} {chunk : NormalizedStreamChunk}
    {u : ArtifactUpdate} (h : emitChunk cfg s chunk = (s', some u)) :
    u.artifactId = chunk.artifactId ∧ u.part = chunk.part ∧
      blockType? u.metadata = (if cfg.emitStreamingMetadata then some chunk.blockType else none) ∧
      u.append = s.emittedArtifactIds.contains chunk.artifactId ∧
      s'.emittedArtifactIds = chunk.artifactId :: s.emittedArtifactIds := by
  unfold emitChunk at h
  split at h
  · cases h
  · split at h
    · cases h
    · rename_i s₁ b hreg
      obtain ⟨-, hemitted, hb, -, -⟩ := StreamOutputState.registerChunk_eq_some hreg
      cases h
      refine ⟨rfl, rfl, blockType?_metadata _ _ _ _, hb, ?_⟩
      split
      · rw [StreamOutputState.emitted_nextSequence,
          StreamOutputState.emitted_rememberTextArtifactId, hemitted]
      · rw [StreamOutputState.emitted_nextSequence, hemitted]

theorem files_of_chunk {s s' : StreamOutputState} {chunk : NormalizedStreamChunk}
    {u : ArtifactUpdate} (h : emitChunk r.config s chunk = (s', some u))
    (hchunk : chunk.Filed r.config) : r.Files u := by
  obtain ⟨hid, hpart, hmetadata, -, -⟩ := emitChunk_update h
  obtain ⟨partId, hlane⟩ := hchunk.lane
  refine .inr ⟨chunk.blockType, ?_, ?_, hmetadata⟩
  · rw [hid]
    exact toolCall_iff_toolLane hlane
  · intro hne
    obtain ⟨-, -, htext⟩ := hchunk.text.resolve_left hne
    rw [hpart, htext]
    rfl

/-! ## §2  The coordinator's part -/

theorem emitted_complete (r : Run) (response : OpencodeMessage) :
    (r.complete response).runtime.out.emittedArtifactIds =
      r.runtime.out.emittedArtifactIds := by
  unfold Run.complete
  simp only
  split
  · rfl
  · rename_i out hout
    show out.emittedArtifactIds = r.runtime.out.emittedArtifactIds
    rw [StreamOutputState.shouldEmitFinalSnapshot_update hout]

theorem Run.Resumes.emitted {stage : Stage} (h : r.Resumes stage r') :
    r'.runtime.out.emittedArtifactIds = r.runtime.out.emittedArtifactIds := by
  by_cases hstage : ∀ response, stage ≠ .awaitingSignal response
  · rw [h.runtime (.inr hstage)]
  · rw [not_forall_not] at hstage
    obtain ⟨response, rfl⟩ := hstage
    cases h with
    | signal _ signal =>
        cases signal with
        | error e => rfl
        | completed =>
            simp only [Run.handleSignal]
            split
            · rfl
            · exact emitted_complete r response
    | noSignal =>
        unfold Run.except Run.emitError
        simp only
        split <;> rfl
    | fail _ e hwhere =>
        rcases hwhere with hcon | hcon | hcon | ⟨response, hcon⟩ | ⟨response, hcon⟩ <;> cases hcon

theorem due_error {b : Bool} {e : ErrorReport} :
    ∀ u ∈ (r.emitError b e).due, r.Files u ∧ u.append = false := by
  intro u hu
  refine ⟨.inl (due_emitError r b e u hu), ?_⟩
  cases b with
  | false => cases hu
  | true =>
      obtain rfl := List.mem_singleton.mp hu
      rfl

theorem due_complete (h : Stocked r) (response : OpencodeMessage) :
    ∀ u ∈ (r.complete response).due, r.Files u ∧ u.append = false := by
  intro u hu
  unfold Run.complete at hu
  simp only at hu
  split at hu
  · cases hu
  · obtain rfl := List.mem_singleton.mp hu
    refine ⟨.inr ⟨.text, ?_, fun _ => rfl, blockType?_metadata _ _ _ _⟩, rfl⟩
    constructor
    · exact fun hcon => by cases hcon
    · exact fun htool => absurd htool (plain_resolvedLane h).1

/-- What the coordinator is about to put: what was due, an error or the final text. -/
theorem Run.Resumes.due {stage : Stage} (h : r.Resumes stage r') (hs : r.stage = stage)
    (hstocked : Stocked r) :
    ∀ u ∈ r'.due, u ∈ r.due ∨ r.Files u ∧ u.append = false := by
  intro u hu
  cases h with
  | register | bind | lock | acquireAtOnce | wait | acquire | snapshot | finalize | turn | stop
  | check | unregister =>
      cases hu
  | respond response =>
      unfold Run.due at hu
      cases hp : r.pending <;> simp only [hp] at hu <;> cases hu
  | record =>
      unfold Run.afterRecording at hu
      split at hu <;> split at hu <;> cases hu
  | handle response =>
      unfold Run.handleResponse at hu
      simp only at hu
      split at hu
      · exact .inr (due_error (r := { r with
          handled := some response, usage := r.resolvedTokenUsage response }) u hu)
      · split at hu <;> cases hu
  | signal response signal =>
      cases signal with
      | error e => exact .inr (due_error (b := true) (e := .ofUpstream e) u hu)
      | completed =>
          simp only [Run.handleSignal] at hu
          split at hu
          · exact .inr (due_error u hu)
          · exact .inr (due_complete hstocked response u hu)
  | noSignal | fail => exact .inr (due_error u hu)
  | emit e e' rest =>
      left
      unfold Run.due
      rw [hs]
      obtain ⟨x, hx, hux⟩ := List.mem_filterMap.mp hu
      exact List.mem_filterMap.mpr ⟨x, List.mem_cons_of_mem _ hx, hux⟩
  | emitLast e =>
      rw [due_of_late (Run.late_cleanup _)] at hu
      cases hu
  | release =>
      rw [due_of_late (Run.late_stopConsumer r)] at hu
      cases hu

/-- The first of the updates that were due, or none. -/
theorem Run.Resumes.sent {stage : Stage} (h : r.Resumes stage r') (hs : r.stage = stage) :
    r'.sent = r.sent ∨ ∃ u ∈ r.due, r'.sent = r.sent ++ [u] := by
  unfold Run.sent
  rcases h.queue with hq | ⟨-, hq⟩ | ⟨e, rest, hemitting, hq⟩
  · exact .inl (congrArg sentOf hq)
  · rw [hq, sentOf_concat]
    exact .inl (List.append_nil _)
  · rw [hq, sentOf_concat]
    cases hu : e.update? with
    | none => exact .inl (List.append_nil _)
    | some u =>
        refine .inr ⟨u, ?_, rfl⟩
        unfold Run.due
        rw [hs, hemitting]
        exact List.mem_filterMap.mpr ⟨e, List.mem_cons_self .., hu⟩

/-! ## §3  The invariant -/

/-- The updates of the run belong to their lanes, and an update with `append` comes
after another one of its lane. -/
structure Filing (r : Run) : Prop where
  stocked : Stocked r
  early : r.early = true → r.consumer = none
  fresh : r.consumer = none → r.runtime.out.emittedArtifactIds = []
  files : ∀ u ∈ r.sent ++ r.inFlight ++ r.due, r.Files u
  headed : Headed r.sent
  flight : ∀ u ∈ r.inFlight, u.append = true → laneOf u.artifactId r.sent ≠ []
  due : ∀ u ∈ r.due, u.append = false
  emitted : ∀ c, r.consumer = some c → c.stage ≠ .ended →
    ∀ id ∈ r.runtime.out.emittedArtifactIds, laneOf id (r.sent ++ r.inFlight) ≠ []

theorem laneOf_ne_nil_append {id : Text} {us : List ArtifactUpdate} (h : laneOf id us ≠ [])
    (vs : List ArtifactUpdate) : laneOf id (us ++ vs) ≠ [] := by
  rw [laneOf_append]
  exact List.append_ne_nil_of_left_ne_nil h _

/-- A move that puts at most an update that was due. -/
theorem Filing.coordinator (h : Filing r) (hstocked : Stocked r') (hprepared : r'.prepared = r.prepared)
    (hearly : r'.early = true → r'.consumer = none)
    (hemitted : r'.runtime.out.emittedArtifactIds = r.runtime.out.emittedArtifactIds)
    (hsent : r'.sent = r.sent ∨ ∃ u ∈ r.due, r'.sent = r.sent ++ [u])
    (hflight : r'.inFlight = r.inFlight)
    (hdue : ∀ u ∈ r'.due, u ∈ r.due ∨ r.Files u ∧ u.append = false)
    (hconsumer : ∀ c', r'.consumer = some c' → r.runtime.out.emittedArtifactIds = [] ∨
      ∃ c, r.consumer = some c ∧ c'.stage = c.stage)
    (hnone : r'.consumer = none → r.consumer = none) : Filing r' := by
  have hgrows : ∀ {id}, laneOf id r.sent ≠ [] → laneOf id r'.sent ≠ [] := by
    intro id hne
    rcases hsent with hq | ⟨u, -, hq⟩
    · rwa [hq]
    · rw [hq]
      exact laneOf_ne_nil_append hne _
  refine ⟨hstocked, hearly, ?_, ?_, ?_, ?_, ?_, ?_⟩
  · intro hc
    rw [hemitted]
    exact h.fresh (hnone hc)
  · intro u hu
    rw [files_congr hprepared]
    rcases List.mem_append.mp hu with hu | hu
    · rw [hflight] at hu
      rcases hsent with hq | ⟨v, hv, hq⟩
      · rw [hq] at hu
        exact h.files u (List.mem_append_left _ hu)
      · rw [hq] at hu
        rcases List.mem_append.mp hu with hu | hu
        · rcases List.mem_append.mp hu with hu | hu
          · exact h.files u (List.mem_append_left _ (List.mem_append_left _ hu))
          · obtain rfl := List.mem_singleton.mp hu
            exact h.files u (List.mem_append_right _ hv)
        · exact h.files u (List.mem_append_left _ (List.mem_append_right _ hu))
    · rcases hdue u hu with hu | ⟨hu, -⟩
      · exact h.files u (List.mem_append_right _ hu)
      · exact hu
  · rcases hsent with hq | ⟨u, hu, hq⟩
    · rw [hq]
      exact h.headed
    · rw [hq]
      refine headed_snoc.mpr ⟨h.headed, ?_⟩
      rw [h.due u hu]
      exact fun hcon => by cases hcon
  · rw [hflight]
    exact fun u hu happend => hgrows (h.flight u hu happend)
  · intro u hu
    rcases hdue u hu with hu | ⟨-, hu⟩
    · exact h.due u hu
    · exact hu
  · intro c' hc' hlive id hid
    rw [hemitted] at hid
    rcases hconsumer c' hc' with hnil | ⟨c, hc, hstage⟩
    · rw [hnil] at hid
      cases hid
    · have hold := h.emitted c hc (hstage ▸ hlive) id hid
      rw [hflight]
      rw [laneOf_append] at hold ⊢
      by_cases hs : laneOf id r.sent = []
      · rw [hs, List.nil_append] at hold
        exact List.append_ne_nil_of_right_ne_nil _ hold
      · exact List.append_ne_nil_of_left_ne_nil (hgrows hs) _

theorem Filing.resumes (h : Filing r) {stage : Stage} (hs : r.stage = stage)
    (hr : r.Resumes stage r') : Filing r' := by
  have hparts := hr.parts
  have hkeeps := hr.keeps
  have hstocked := h.stocked.keeps hkeeps hparts.1 hparts.2.1
    fun hsignal => hr.runtime (.inl hsignal)
  have hearly : r'.early = true → r'.consumer = none := by
    intro hearly
    obtain ⟨hold, hconsumer⟩ := hr.early hs hearly
    rw [hconsumer]
    exact h.early hold
  have hgoal := fun hflight hconsumer hnone =>
    h.coordinator hstocked hkeeps.prepared hearly hr.emitted (hr.sent hs) hflight
      (hr.due hs h.stocked) hconsumer hnone
  by_cases hrecording : stage = .recording
  · subst hrecording
    have hc : r.consumer = none := h.early (by unfold Run.early; rw [hs])
    have hstart : ∀ c', r'.consumer = some c' → c'.stage = .waiting := by
      intro c' hc'
      rcases hkeeps.consumer c' hc' with hw | ⟨c, hcon, -⟩
      · exact hw
      · rw [hc] at hcon
        cases hcon
    refine hgoal ?_ (fun _ _ => .inl (h.fresh hc)) fun _ => hc
    unfold Run.inFlight
    rw [hc]
    cases hc' : r'.consumer with
    | none => rfl
    | some c' =>
        rw [Option.bind_some, hstart c' hc']
        rfl
  · have hstages := hparts.2.2 hrecording
    refine hgoal (inFlight_congr hstages) ?_ ?_
    · intro c' hc'
      rw [hc', Option.map_some] at hstages
      obtain ⟨c, hc, hstage⟩ := Option.map_eq_some_iff.mp hstages.symm
      exact .inr ⟨c, hc, hstage.symm⟩
    · intro hc'
      rw [hc', Option.map_none] at hstages
      exact Option.map_eq_none_iff.mp hstages.symm

theorem Filing.thrown (h : Filing r) : Filing r.thrown := by
  have hk := Run.keeps_thrown (r := r)
  have hsilent := Run.silent_thrown r
  have hruntime := Run.runtime_thrown r
  have hstages := hsilent.stages
  refine h.coordinator (h.stocked.keeps hk hsilent.partStates hsilent.textArtifactId
    fun _ => hruntime) hk.prepared ?_ (by rw [hruntime]) (.inl (congrArg sentOf hsilent.queue))
    (inFlight_congr hstages) ?_ ?_ ?_
  · rw [Run.early_thrown]
    exact fun hcon => by cases hcon
  · rw [due_of_late Run.late_thrown]
    exact fun u hu => by cases hu
  · intro c' hc'
    rw [hc', Option.map_some] at hstages
    obtain ⟨c, hc, hstage⟩ := Option.map_eq_some_iff.mp hstages.symm
    exact .inr ⟨c, hc, hstage.symm⟩
  · intro hc'
    rw [hc', Option.map_none] at hstages
    exact Option.map_eq_none_iff.mp hstages.symm

theorem Filing.spares (h : Filing r) {stage : CancelStage} (hcancels : r.Cancels stage r') :
    Filing r' := by
  have hs := hcancels.spares
  have hsent : r'.sent = r.sent := by
    unfold Run.sent
    rcases hcancels.queue with hq | hq | ⟨message, hq⟩
    · rw [hq]
    · rw [hq, sentOf_concat]
      exact List.append_nil _
    · rw [hq, sentOf_concat]
      exact List.append_nil _
  have hdue : r'.due = r.due := due_congr hs.stage
  refine h.coordinator (h.stocked.spares hs) hs.prepared ?_ (by rw [hs.runtime]) (.inl hsent)
    (inFlight_congr (by rw [hs.consumer])) (fun u hu => .inl (hdue ▸ hu)) ?_ ?_
  · unfold Run.early
    rw [hs.stage, hs.consumer]
    exact h.early
  · rw [hs.consumer]
    exact fun c' hc' => .inr ⟨c', hc', rfl⟩
  · rw [hs.consumer]
    exact id

/-! ## §4  The consumer's part -/

theorem inFlight_of_consumer {r : Run} {c : Consumer} (hc : r.consumer = some c) :
    r.inFlight = (c.stage.inFlight.bind Event.update?).toList := by
  unfold Run.inFlight
  rw [hc, Option.bind_some]

/-- A move of the consumer, by what it makes of the updates. -/
theorem Filing.consumer (h : Filing r) (hc : r.consumer = some c) (hstocked : Stocked r')
    (hsame : r.SameTasks r') {stage : ConsumerStage}
    (hc' : r'.consumer = some { c with stage := stage })
    (hfiles : ∀ u ∈ r'.sent ++ r'.inFlight, r.Files u) (hheaded : Headed r'.sent)
    (hflight : ∀ u ∈ r'.inFlight, u.append = true → laneOf u.artifactId r'.sent ≠ [])
    (hemitted : stage ≠ .ended → ∀ id ∈ r'.runtime.out.emittedArtifactIds,
      laneOf id (r'.sent ++ r'.inFlight) ≠ []) : Filing r' := by
  have hdue : r'.due = r.due := due_congr hsame.stage
  refine ⟨hstocked, ?_, ?_, ?_, hheaded, hflight, ?_, ?_⟩
  · unfold Run.early
    rw [hsame.stage]
    intro hearly
    have hnone := h.early hearly
    rw [hc] at hnone
    cases hnone
  · intro hnone
    rw [hc'] at hnone
    cases hnone
  · intro u hu
    rw [files_congr hsame.prepared]
    rcases List.mem_append.mp hu with hu | hu
    · exact hfiles u hu
    · rw [hdue] at hu
      exact h.files u (List.mem_append_right _ hu)
  · rw [hdue]
    exact h.due
  · intro d hd hlive
    rw [hc'] at hd
    cases hd
    exact hemitted hlive

/-- A move that shows nothing and has nothing in flight afterwards. -/
theorem Filing.quiet (h : Filing r) (hc : r.consumer = some c) (hstocked : Stocked r')
    (hsame : r.SameTasks r') {stage : ConsumerStage}
    (hc' : r'.consumer = some { c with stage := stage }) (hqueue : r'.queue = r.queue)
    (hemitted : r'.runtime.out.emittedArtifactIds = r.runtime.out.emittedArtifactIds)
    (hflight : stage.inFlight = none)
    (hlive : stage ≠ .ended → c.stage ≠ .ended ∧ c.stage.inFlight = none) : Filing r' := by
  have hsent : r'.sent = r.sent := congrArg sentOf hqueue
  have hnil : r'.inFlight = [] := by
    rw [inFlight_of_consumer hc', hflight]
    rfl
  refine h.consumer hc hstocked hsame hc' ?_ ?_ ?_ ?_
  · rw [hnil, hsent, List.append_nil]
    exact fun u hu => h.files u (List.mem_append_left _ (List.mem_append_left _ hu))
  · rw [hsent]
    exact h.headed
  · rw [hnil]
    exact fun u hu => by cases hu
  · intro hstage id hid
    obtain ⟨hcl, hcf⟩ := hlive hstage
    have hold := h.emitted c hc hcl id (hemitted ▸ hid)
    rw [inFlight_of_consumer hc, hcf] at hold
    rw [hnil, hsent]
    exact hold

theorem Run.Consumes.filing (h : r.Consumes c act r') (hc : r.consumer = some c)
    (hlive : c.stage ≠ .ended) (hf : Filing r) : Filing r' := by
  have hstocked := h.stocked hc hf.stocked
  have hsame := h.same
  cases h with
  | cancelled | streamOver =>
      exact hf.quiet hc hstocked hsame rfl rfl rfl rfl fun hne => absurd rfl hne
  | idle _ _ hput =>
      refine hf.quiet hc hstocked hsame rfl rfl rfl rfl fun _ => ⟨hlive, ?_⟩
      cases hs : c.stage with
      | putting e acts ops => exact absurd hs (hput e acts ops)
      | waiting | busy | tracking | ended => rfl
  | deliver event _ hs | signal s ops _ hs | signalAgain s ops _ hs | tracked acts ops _ hs =>
      refine hf.quiet hc hstocked hsame rfl rfl rfl rfl fun _ => ⟨hlive, ?_⟩
      rw [hs]
      rfl
  | op op ops _ hs =>
      refine hf.quiet hc hstocked hsame rfl rfl (op_perform_out r.config r.runtime op).2.1 rfl
        fun _ => ⟨hlive, ?_⟩
      rw [hs]
      rfl
  | act a acts ops stage _ hs hstage hput =>
      refine hf.quiet hc hstocked hsame rfl rfl ?_ ?_ fun _ => ⟨hlive, ?_⟩
      · show (a.perform r.config r.runtime.out).1.emittedArtifactIds = _
        rw [act_perform_silent hput]
      · rcases hstage with rfl | rfl <;> rfl
      · rw [hs]
        rfl
  | enqueue a acts ops e _ hs hput =>
      have hnil : r.inFlight = [] := by
        rw [inFlight_of_consumer hc, hs]
        rfl
      have hemitted : ∀ id ∈ r.runtime.out.emittedArtifactIds, laneOf id r.sent ≠ [] := by
        intro id hid
        have hold := hf.emitted c hc hlive id hid
        rwa [hnil, List.append_nil] at hold
      have hsent : ∀ u ∈ r.sent, r.Files u := fun u hu =>
        hf.files u (List.mem_append_left _ (List.mem_append_left _ hu))
      rcases act_perform_put hput with ⟨chunk, u, rfl, rfl, hemit⟩ | ⟨hnone, hout⟩
      · -- the artifact is noted as emitted before its update is in the queue
        obtain ⟨hid, -, -, happend, hnext⟩ := emitChunk_update hemit
        have hchunk : chunk.Filed r.config := by
          refine hf.stocked.acts c hc chunk ?_
          rw [hs]
          exact List.mem_cons_self ..
        have hfiles := files_of_chunk hemit hchunk
        refine hf.consumer hc hstocked hsame rfl ?_ hf.headed ?_ ?_
        · intro v hv
          rcases List.mem_append.mp hv with hv | hv
          · exact hsent v hv
          · obtain rfl := List.mem_singleton.mp hv
            exact hfiles
        · intro v hv hv'
          obtain rfl := List.mem_singleton.mp hv
          rw [happend, List.contains_iff_mem] at hv'
          rw [hid]
          exact hemitted _ hv'
        · intro _ id hmem
          show laneOf id (r.sent ++ [u]) ≠ []
          change id ∈ ((Act.chunk chunk).perform r.config r.runtime.out).1.emittedArtifactIds at hmem
          rw [hnext] at hmem
          rw [laneOf_snoc]
          rcases List.mem_cons.mp hmem with rfl | hmem
          · rw [if_pos hid]
            simp
          · split
            · simp
            · exact hemitted id hmem
      · -- a status is no update of an artifact
        have hnil' : e.update?.toList = [] := by
          rw [hnone]
          rfl
        refine hf.consumer hc hstocked hsame rfl ?_ hf.headed ?_ ?_
        · intro v hv
          change v ∈ r.sent ++ e.update?.toList at hv
          rw [hnil', List.append_nil] at hv
          exact hsent v hv
        · intro v hv
          change v ∈ e.update?.toList at hv
          rw [hnil'] at hv
          cases hv
        · intro _ id hmem
          show laneOf id (r.sent ++ e.update?.toList) ≠ []
          change id ∈ (a.perform r.config r.runtime.out).1.emittedArtifactIds at hmem
          rw [hout, StreamOutputState.emitted_nextSequence] at hmem
          rw [hnil', List.append_nil]
          exact hemitted id hmem
  | put e acts ops _ hs =>
      have hflight : r.inFlight = e.update?.toList := by
        rw [inFlight_of_consumer hc, hs]
        rfl
      have hsent : ((r.put .run e).setConsumer c (.busy acts ops)).sent =
          r.sent ++ e.update?.toList := sentOf_concat r.queue .run e
      have hnil : ((r.put .run e).setConsumer c (.busy acts ops)).inFlight = [] := rfl
      refine hf.consumer hc hstocked hsame rfl ?_ ?_ ?_ ?_
      · rw [hsent, hnil, List.append_nil, ← hflight]
        exact fun u hu => hf.files u (List.mem_append_left _ hu)
      · rw [hsent]
        cases hu : e.update? with
        | none =>
            rw [Option.toList_none, List.append_nil]
            exact hf.headed
        | some u =>
            refine headed_snoc.mpr ⟨hf.headed, hf.flight u ?_⟩
            rw [hflight, hu]
            exact List.mem_singleton_self u
      · rw [hnil]
        exact fun u hu => by cases hu
      · intro _ id hmem
        rw [hsent, hnil, List.append_nil, ← hflight]
        exact hf.emitted c hc hlive id hmem

/-! ## §5  The whole run -/

/-- A consumer that has ended does not move any more. -/
theorem Run.live_of_act (hstep : r.act act = some r') (hc : r.consumer = some c)
    (hact : (∀ a, act ≠ .step a) ∧ act ≠ .cancel ∧ ∀ a, act ≠ .cancelStep a) :
    c.stage ≠ .ended := by
  obtain ⟨stage, cancelled⟩ := c
  rintro rfl
  cases act with
  | step a => exact hact.1 a rfl
  | cancel => exact hact.2.1 rfl
  | cancelStep a => exact hact.2.2 a rfl
  | consume =>
      simp only [Run.act, Run.consume, hc] at hstep
      split at hstep <;> cases hstep
  | deliver event =>
      simp only [Run.act, Run.deliver, hc] at hstep
      cases hstep
  | close =>
      simp only [Run.act, Run.close, hc] at hstep
      cases hstep
  | streamFails =>
      simp only [Run.act, Run.streamFails, hc] at hstep
      cases hstep

theorem filing_initial (prepared : PreparedExecution) : Filing (Run.initial prepared) := by
  refine ⟨stocked_initial prepared, fun _ => rfl, fun _ => rfl, ?_, headed_nil, ?_, ?_, ?_⟩
  · exact fun u hu => by cases hu
  · exact fun u hu => by cases hu
  · exact fun u hu => by cases hu
  · exact fun c hc => by cases hc

theorem filing_step (h : Filing r) (hstep : r.act act = some r') : Filing r' := by
  cases act with
  | step a =>
      rcases Run.step_cases hstep with ⟨-, -, rfl⟩ | ⟨-, hr⟩
      · exact h.thrown
      · exact h.resumes rfl hr
  | consume =>
      obtain ⟨c, hc, hmove⟩ := Run.consume_cases hstep
      exact hmove.filing hc (Run.live_of_act hstep hc (by simp)) h
  | deliver event =>
      obtain ⟨c, hc, hmove⟩ := Run.deliver_cases hstep
      exact hmove.filing hc (Run.live_of_act hstep hc (by simp)) h
  | close =>
      obtain ⟨c, hc, hmove⟩ := Run.close_cases hstep
      exact hmove.filing hc (Run.live_of_act hstep hc (by simp)) h
  | streamFails =>
      obtain ⟨c, hc, hmove⟩ := Run.streamFails_cases hstep
      exact hmove.filing hc (Run.live_of_act hstep hc (by simp)) h
  | cancel =>
      have hstocked := stocked_step h.stocked hstep
      simp only [Run.act] at hstep
      split at hstep <;> cases hstep
      exact ⟨hstocked, h.early, h.fresh, h.files, h.headed, h.flight, h.due, h.emitted⟩
  | cancelStep a => exact h.spares (Run.cancelStep_cases hstep)

/-! ## §6  The saved artifacts -/

/-- Every lane of the run is saved as one part: a text or reasoning lane as the text
that the client has, a tool lane as its last payload. -/
structure Persisted (r : Run) (saved : List StoredArtifact) : Prop where
  text : ∀ id, r.Plain id → laneOf id r.sent ≠ [] → TextSaved saved id r.sent
  tool : ∀ id, ToolLane r.config id → laneOf id r.sent ≠ [] → ToolSaved saved id r.sent

theorem artifactId_of_mem_laneOf {id : Text} {us : List ArtifactUpdate} {u : ArtifactUpdate}
    (h : u ∈ laneOf id us) : u ∈ us ∧ u.artifactId = id := by
  obtain ⟨hu, hid⟩ := List.mem_filter.mp h
  exact ⟨hu, of_decide_eq_true hid⟩

/-- The updates of a text or reasoning lane. -/
theorem Filing.plain (h : Filing r) {id : Text} (hid : r.Plain id) {u : ArtifactUpdate}
    (hu : u ∈ laneOf id r.sent) : isText u.part = true ∧
      canonicalParts (blockType? u.metadata) =
        canonicalParts (if r.prepared.emitStreamingMetadata then some .text else none) := by
  obtain ⟨hsent, rfl⟩ := artifactId_of_mem_laneOf hu
  rcases h.files u (List.mem_append_left _ (List.mem_append_left _ hsent)) with
    herror | ⟨b, htool, htext, hmetadata⟩
  · exact absurd herror hid.2
  · have hb : b ≠ .toolCall := fun hb => hid.1 (htool.mp hb)
    refine ⟨htext hb, ?_⟩
    rw [hmetadata]
    split
    · cases b with
      | text | reasoning => rfl
      | toolCall => exact absurd rfl hb
    · rfl

/-- The updates of a tool lane. -/
theorem Filing.tool (h : Filing r) {id : Text} (hid : ToolLane r.config id) {u : ArtifactUpdate}
    (hu : u ∈ laneOf id r.sent) : canonicalParts (blockType? u.metadata) =
      canonicalParts (if r.prepared.emitStreamingMetadata then some .toolCall else none) := by
  obtain ⟨hsent, rfl⟩ := artifactId_of_mem_laneOf hu
  rcases h.files u (List.mem_append_left _ (List.mem_append_left _ hsent)) with
    herror | ⟨b, htool, -, hmetadata⟩
  · exact absurd (herror ▸ hid) (not_toolLane_errorLane r)
  · rw [hmetadata, htool.mpr hid]

/-- The saved task is canonical exactly where the hints are negotiated or every lane
was last replaced as a whole. -/
theorem persisted_iff {prepared : PreparedExecution} {acts : List RunAction} {r : Run}
    (h : Machine.run Run.act (Run.initial prepared) acts = some r) (manager : TaskManager) :
    Persisted r (manager.saved r.sent) ↔ r.prepared.emitStreamingMetadata = true ∨
      ∀ id, r.Plain id ∨ ToolLane r.config id → Replaced id r.sent := by
  have hf : Filing r :=
    (Machine.runs_iff_run.mpr h).invariant (fun _ _ _ hi _ hstep => filing_step hi hstep)
      (filing_initial prepared)
  by_cases hhints : r.prepared.emitStreamingMetadata = true
  · refine ⟨fun _ => .inl hhints, fun _ => ⟨?_, ?_⟩⟩
    · intro id hid hne
      refine textSaved_of_hints manager hf.headed ⟨?_, ?_⟩ hne
      · intro u hu
        rw [(hf.plain hid hu).2, if_pos hhints]
      · exact fun _ u hu => (hf.plain hid hu).1
    · intro id hid hne
      refine toolSaved_of_hints manager hf.headed ⟨?_, ?_⟩ hne
      · intro u hu
        rw [hf.tool hid hu, if_pos hhints]
      · rintro (hcon | hcon) <;> cases hcon
  · have hnone : ∀ id, Replaced id r.sent ↔ laneOf id r.sent = [] ∨ Replaced id r.sent := by
      intro id
      refine ⟨.inr, ?_⟩
      rintro (hnil | hreplaced)
      · intro u hu
        rw [hnil] at hu
        cases hu
      · exact hreplaced
    have htext : ∀ id, r.Plain id → laneOf id r.sent ≠ [] →
        (TextSaved (manager.saved r.sent) id r.sent ↔ Replaced id r.sent) := by
      intro id hid hne
      refine textSaved_iff_replaced manager hf.headed ⟨?_, ?_⟩ ?_ hne
      · intro u hu
        rw [(hf.plain hid hu).2, if_neg hhints]
      · rintro (hcon | hcon) <;> cases hcon
      · exact fun u hu => (hf.plain hid hu).1
    have htool : ∀ id, ToolLane r.config id → laneOf id r.sent ≠ [] →
        (ToolSaved (manager.saved r.sent) id r.sent ↔ Replaced id r.sent) := by
      intro id hid hne
      refine toolSaved_iff_replaced manager hf.headed ⟨?_, ?_⟩ hne
      · intro u hu
        rw [hf.tool hid hu, if_neg hhints]
      · rintro (hcon | hcon) <;> cases hcon
    constructor
    · intro hpersisted
      refine .inr fun id hid => (hnone id).mpr ?_
      by_cases hnil : laneOf id r.sent = []
      · exact .inl hnil
      · rcases hid with hid | hid
        · exact .inr ((htext id hid hnil).mp (hpersisted.text id hid hnil))
        · exact .inr ((htool id hid hnil).mp (hpersisted.tool id hid hnil))
    · rintro (hcon | hreplaced)
      · exact absurd hcon hhints
      · exact ⟨fun id hid hne => (htext id hid hne).mpr (hreplaced id (.inl hid)),
          fun id hid hne => (htool id hid hne).mpr (hreplaced id (.inr hid))⟩

/-! The runs of the examples: an answer in two chunks, with and without hints. -/

/-- A manager that keeps its own copy of the task, and the first metadata. -/
def exampleManager : TaskManager := ⟨fun m _ => m, fun _ _ => .inl rfl, false⟩

def withoutHints : PreparedExecution := { examplePrepared with emitStreamingMetadata := false }

def afterUnhinted : Run := Machine.after Run.act (Run.initial withoutHints) chunkedRun (by rfl)

theorem hinted_run_persisted :
    Persisted afterChunked (exampleManager.saved afterChunked.sent) :=
  (persisted_iff (Machine.run_after (by rfl)) exampleManager).mpr (.inl rfl)

/-- Without hints the chunks are saved as they came. -/
theorem unhinted_chunks_stay :
    Machine.run Run.act (Run.initial withoutHints) chunkedRun = some afterUnhinted ∧
      afterUnhinted.Plain afterUnhinted.config.textLane ∧
      (lookup afterUnhinted.config.textLane (exampleManager.saved afterUnhinted.sent)).map
        StoredArtifact.parts = some [.text "ab".toList, .text "b".toList] ∧
      ¬ Persisted afterUnhinted (exampleManager.saved afterUnhinted.sent) := by
  have hparts : (lookup afterUnhinted.config.textLane
      (exampleManager.saved afterUnhinted.sent)).map StoredArtifact.parts =
        some [.text "ab".toList, .text "b".toList] := by rfl
  have hplain := plain_textLane afterUnhinted
  refine ⟨Machine.run_after (by rfl), hplain, hparts, ?_⟩
  intro hpersisted
  have hlane : laneOf afterUnhinted.config.textLane afterUnhinted.sent ≠ [] := by
    have hlength : (laneOf afterUnhinted.config.textLane afterUnhinted.sent).length = 2 := by rfl
    intro hnil
    rw [hnil] at hlength
    cases hlength
  obtain ⟨a, ha, htext⟩ := hpersisted.text _ hplain hlane
  rw [ha, Option.map_some, htext] at hparts
  cases hparts

end OpencodeA2a.Execution
