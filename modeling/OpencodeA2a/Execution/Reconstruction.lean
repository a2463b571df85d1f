import OpencodeA2a.Execution.Cancellation
import OpencodeA2a.Stream.Lanes
import OpencodeA2a.Stream.Normalisation

/-!
# What the client has is what the server keeps

The output state is written by the consumer, chunk by chunk, and once more by
the coordinator, which may add the final snapshot. Both write it before they
enqueue. The terminal signal is the last thing the consumer takes up, so the two
never write at the same time.
-/

namespace OpencodeA2a.Execution

open OpencodeA2a.Stream

variable {r r' : Run} {c : Consumer} {act : RunAction}

/-! ## §1  The signal ends an event -/

/-- Nothing follows a terminal signal. -/
def SignalLast (ops : List Op) : Prop :=
  ∀ before s after, ops = before ++ .terminalSignal s :: after → after = []

theorem SignalLast.tail {op : Op} {ops : List Op} (h : SignalLast (op :: ops)) : SignalLast ops :=
  fun before s after heq => h (op :: before) s after (by rw [heq, List.cons_append])

theorem signalLast_of_not_mem {ops : List Op} (h : ∀ s, .terminalSignal s ∉ ops) :
    SignalLast ops := by
  rintro before s after rfl
  exact absurd (List.mem_append_right before (List.mem_cons_self ..)) (h s)

theorem signalLast_concat {ops : List Op} (h : ∀ s, .terminalSignal s ∉ ops) (op : Op) :
    SignalLast (ops ++ [op]) := by
  intro before s after heq
  by_contra hne
  obtain ⟨after', last, rfl⟩ := List.eq_nil_or_concat after |>.resolve_left hne
  rw [List.concat_eq_append, ← List.cons_append, ← List.append_assoc] at heq
  have hops := List.append_inj_left' heq rfl
  exact h s (hops ▸ List.mem_append_right before (List.mem_cons_self ..))

/-- Only the events of an idle or a failing session carry a signal, and they
carry nothing that is handled after it. -/
theorem eventOps_signalLast (cfg : Config) (event : Mapping) : SignalLast (eventOps cfg event) := by
  unfold eventOps
  split
  · rename_i eventType props htype hprops
    have hbefore : ∀ s, .terminalSignal s ∉ (progressOp? props).toList ++
        ((extractUpstreamErrorFromEvent eventType props).map Op.upstreamError).toList ++
        ((cfg.numerics.extractTokenUsage event).map Op.usage).toList := by
      intro s hmem
      simp only [List.mem_append, Option.mem_toList, Option.map_eq_some_iff] at hmem
      rcases hmem with (h | ⟨e, -, h⟩) | ⟨u, -, h⟩
      · unfold progressOp? at h
        obtain ⟨part, -, hpart⟩ := Option.bind_eq_some_iff.mp h
        obtain ⟨q, -, hq⟩ := Option.map_eq_some_iff.mp hpart
        cases hq
      · cases h
      · cases h
    cases hsignal : extractStreamTerminalSignal eventType props with
    | none =>
        refine signalLast_of_not_mem ?_
        intro s hmem
        rcases List.mem_append.mp hmem with hmem | hmem
        · split at hmem
          · unfold sessionOps at hmem
            rw [hsignal] at hmem
            simp only [Option.map_none, Option.toList_none, List.append_nil] at hmem
            rcases List.mem_append.mp hmem with hmem | hmem
            · rcases List.mem_append.mp hmem with hmem | hmem
              · exact hbefore s hmem
              · simp only [Option.mem_toList, Option.map_eq_some_iff] at hmem
                obtain ⟨a, -, ha⟩ := hmem
                cases ha
            · simp only [Option.mem_toList, Option.map_eq_some_iff] at hmem
              obtain ⟨a, -, ha⟩ := hmem
              cases ha
          · cases hmem
        · simp only [Option.mem_toList, Option.map_eq_some_iff] at hmem
          obtain ⟨a, -, ha⟩ := hmem
          cases ha
    | some s =>
        have htypes : eventType = "session.idle".toList ∨ eventType = "session.error".toList := by
          unfold extractStreamTerminalSignal at hsignal
          split at hsignal
          · rename_i h
            exact .inl h
          · split at hsignal
            · rename_i h
              exact .inr h
            · cases hsignal
        have hrest : extractInterruptAskedEvent eventType props = none ∧
            extractInterruptResolvedEvent eventType props = none ∧
            partEvent? cfg eventType props = none := by
          rcases htypes with rfl | rfl <;>
            simp [extractInterruptAskedEvent, extractInterruptResolvedEvent, partEvent?]
        obtain ⟨hasked, hresolved, hpart⟩ := hrest
        rw [hpart]
        split
        · unfold sessionOps
          rw [hsignal, hasked, hresolved]
          simp only [Option.map_none, Option.toList_none, List.append_nil, Option.map_some,
            Option.toList_some]
          exact signalLast_concat hbefore _
        · exact signalLast_of_not_mem fun s hmem => by cases hmem
  · exact signalLast_of_not_mem fun s hmem => by cases hmem

/-! ## §2  Undisturbed enqueuing -/

/-- No enqueue of the consumer or of the coordinator's last events is cancelled. -/
def Run.delivers (r : Run) : RunAction → Bool
  | .consume => !r.consumer.any fun c => c.cancelled && c.stage.inFlight.isSome
  | .step _ =>
      match r.stage with
      | .emitting _ _ => !r.cancelRequested
      | _ => true
  | _ => true

/-- The steps of a run none of whose enqueues fails. -/
def Delivered (r : Run) (act : RunAction) : Prop := r.delivers act = true

/-- The artifact updates of a queue. -/
def sentOf (queue : List (Author × Event)) : List ArtifactUpdate :=
  queue.filterMap fun x => x.2.update?

theorem sentOf_concat (queue : List (Author × Event)) (author : Author) (e : Event) :
    sentOf (queue ++ [(author, e)]) = sentOf queue ++ e.update?.toList := by
  unfold sentOf
  rw [List.filterMap_append]
  cases h : e.update? <;> simp [h]

/-- The artifact updates that were enqueued. -/
def Run.sent (r : Run) : List ArtifactUpdate := sentOf r.queue

/-- The update that the consumer is enqueuing. -/
def Run.inFlight (r : Run) : List ArtifactUpdate :=
  ((r.consumer.bind fun c => c.stage.inFlight).bind Event.update?).toList

/-- The updates that the coordinator is enqueuing. -/
def Run.due (r : Run) : List ArtifactUpdate :=
  match r.stage with
  | .emitting e rest => (e :: rest).filterMap Event.update?
  | _ => []

theorem Run.due_eq (r : Run) : r.due = r.emits.filterMap Event.update? := by
  unfold Run.due Run.emits
  cases r.stage <;> rfl

theorem due_congr {r r' : Run} (h : r'.stage = r.stage) : r'.due = r.due := by
  unfold Run.due
  rw [h]

def Run.errorLane (r : Run) : Text := r.prepared.taskId ++ ":error".toList

/-- Before the consumer is started. -/
def Run.early (r : Run) : Bool :=
  match r.stage with
  | .registering | .binding | .locking | .entering | .waiting | .recording => true
  | _ => false

/-- The artifacts of text and reasoning, under whatever id. -/
def Run.Plain (r : Run) (id : Text) : Prop := ¬ ToolLane r.config id ∧ id ≠ r.errorLane

/-- The consumer's side of the output state. -/
structure Stocked (r : Run) : Prop where
  filed : r.runtime.Filed r.config
  acts : ∀ c, r.consumer = some c → ∀ chunk, .chunk chunk ∈ c.stage.acts → chunk.Filed r.config
  last : ∀ c, r.consumer = some c → SignalLast c.stage.ops
  fresh : r.signal = none → r.runtime.out.Fresh r.config
  quiet : r.signal ≠ none → r.stop = true ∧ ∀ c, r.consumer = some c →
    c.stage.acts = [] ∧ c.stage.ops = [] ∧ c.stage.inFlight = none
  textLane : r.runtime.out.textArtifactId = none ∨
    r.runtime.out.textArtifactId = nonempty? r.config.textLane

/-- What was enqueued, with what is being enqueued, is what the output state
keeps. -/
structure Mirrored (r : Run) : Prop where
  early : r.early = true → r.consumer = none
  stocked : Stocked r
  text : ∀ id, r.Plain id →
    clientText id (r.sent ++ r.inFlight ++ r.due) = r.runtime.out.content id
  due : r.signal = none → ∀ u ∈ r.due, u.artifactId = r.errorLane

/-! ## §3  The consumer -/

/-- The operations other than parts leave the artifacts alone. -/
theorem op_perform_out (cfg : Config) (rt : Runtime) (op : Op) :
    (op.perform cfg rt).1.out.artifactContentBuffers = rt.out.artifactContentBuffers ∧
      (op.perform cfg rt).1.out.emittedArtifactIds = rt.out.emittedArtifactIds ∧
      (op.perform cfg rt).1.out.textArtifactId = rt.out.textArtifactId := by
  cases op with
  | upstreamError | usage | terminalSignal => exact ⟨rfl, rfl, rfl⟩
  | progress i p mid =>
      simp only [Op.perform]
      split
      · exact ⟨rfl, rfl, rfl⟩
      · rename_i out hreg
        unfold StreamOutputState.registerProgress at hreg
        split at hreg <;> cases hreg
        exact ⟨rfl, rfl, rfl⟩
  | asked a =>
      simp only [Op.perform]
      split
      · exact ⟨rfl, rfl, rfl⟩
      · rename_i out hreg
        unfold StreamOutputState.markInterruptPending at hreg
        split at hreg
        · cases hreg
        · split at hreg <;> cases hreg
          exact ⟨rfl, rfl, rfl⟩
  | resolved a =>
      simp only [Op.perform]
      split
      · exact ⟨rfl, rfl, rfl⟩
      · rename_i out hreg
        unfold StreamOutputState.clearInterruptPending at hreg
        split at hreg
        · cases hreg
        · split at hreg <;> cases hreg
          exact ⟨rfl, rfl, rfl⟩
  | part e =>
      have hout := handlePart_out cfg rt e
      simp only [Op.perform]
      rw [hout]
      exact ⟨rfl, rfl, rfl⟩

theorem content_op_perform (cfg : Config) (rt : Runtime) (op : Op) (id : Text) :
    (op.perform cfg rt).1.out.content id = rt.out.content id := by
  unfold StreamOutputState.content
  rw [(op_perform_out cfg rt op).1]

/-- Parts stay in their lanes, and the chunks of an operation are filed. -/
theorem filed_op_perform {cfg : Config} {rt : Runtime} (h : rt.Filed cfg) (op : Op) :
    (op.perform cfg rt).1.Filed cfg ∧
      ∀ chunk, .chunk chunk ∈ (op.perform cfg rt).2 → chunk.Filed cfg := by
  by_cases hpart : op.isPart = true
  · cases op with
    | part e =>
        obtain ⟨hrt, hcs⟩ := h.handlePart e
        refine ⟨hrt, ?_⟩
        intro chunk hmem
        obtain ⟨c, hc, heq⟩ := List.mem_map.mp hmem
        cases heq
        exact hcs _ hc
    | progress | upstreamError | usage | terminalSignal | asked | resolved => cases hpart
  · rw [Bool.not_eq_true] at hpart
    refine ⟨?_, ?_⟩
    · have hparts : (op.perform cfg rt).1.partStates = rt.partStates := by
        cases op with
        | part => cases hpart
        | upstreamError | usage | terminalSignal => rfl
        | progress | asked | resolved =>
            simp only [Op.perform]
            split <;> rfl
      intro partId state hstate
      exact h partId state (hparts ▸ hstate)
    · intro chunk hmem
      have := isChunk_of_mem_perform cfg hpart hmem
      cases this

/-- An act that puts nothing writes nothing. -/
theorem act_perform_silent {cfg : Config} {s : StreamOutputState} {a : Act}
    (h : ∀ e, (a.perform cfg s).2 ≠ .put e) : (a.perform cfg s).1 = s := by
  cases a with
  | chunk chunk =>
      simp only [Act.perform] at h ⊢
      split
      · rename_i s' u heq
        rw [heq] at h
        exact absurd rfl (h (.artifact u))
      · rename_i s' heq
        exact emitChunk_none heq
  | progress | asked | resolved => exact absurd rfl (h _)
  | rememberRequest | discardRequest => rfl

/-- An act puts the update of a chunk, or no update; then it writes no text. -/
theorem act_perform_put {cfg : Config} {s : StreamOutputState} {a : Act} {e : Event}
    (h : (a.perform cfg s).2 = .put e) :
    (∃ chunk u, a = .chunk chunk ∧ e = .artifact u ∧
      emitChunk cfg s chunk = ((a.perform cfg s).1, some u)) ∨
    (e.update? = none ∧ (a.perform cfg s).1 = s.nextSequence) := by
  cases a with
  | chunk chunk =>
      left
      simp only [Act.perform] at h ⊢
      split at h <;> rename_i heq <;> cases h
      exact ⟨chunk, _, rfl, rfl, by rw [heq]⟩
  | progress | asked | resolved =>
      cases h
      exact .inr ⟨rfl, rfl⟩
  | rememberRequest | discardRequest => cases h

theorem textLane_of_filed {cfg : Config} {chunk : NormalizedStreamChunk} (h : chunk.Filed cfg)
    (hblock : chunk.blockType = .text) : chunk.artifactId = cfg.textLane := by
  obtain ⟨partId, hlane⟩ := h.lane
  rw [hlane, hblock]
  rfl

/-- The output state after an act of the consumer. -/
theorem Stocked.perform (h : Stocked r) (hc : r.consumer = some c) {a : Act}
    (ha : a ∈ c.stage.acts) :
    (r.signal = none → (a.perform r.config r.runtime.out).1.Fresh r.config) ∧
      ((a.perform r.config r.runtime.out).1.textArtifactId = none ∨
        (a.perform r.config r.runtime.out).1.textArtifactId = nonempty? r.config.textLane) := by
  have hsignal : r.signal = none := by
    by_contra hne
    obtain ⟨hacts, -, -⟩ := (h.quiet hne).2 c hc
    rw [hacts] at ha
    cases ha
  have hfresh := h.fresh hsignal
  cases heff : (a.perform r.config r.runtime.out).2 with
  | put e =>
      rcases act_perform_put heff with ⟨chunk, u, rfl, -, hemit⟩ | ⟨-, hs⟩
      · have hchunk := h.acts c hc chunk ha
        obtain ⟨hfresh', -, htext, -⟩ := emitChunk_some hemit hchunk hfresh
        refine ⟨fun _ => hfresh', ?_⟩
        rcases htext with htext | ⟨hblock, htext⟩
        · rw [htext]
          exact h.textLane
        · rw [htext, textLane_of_filed hchunk hblock]
          exact .inr rfl
      · rw [hs]
        exact ⟨fun _ => hfresh, h.textLane⟩
  | silent | track =>
      rw [act_perform_silent (fun e => by rw [heff]; exact fun hcon => by cases hcon)]
      exact ⟨fun _ => hfresh, h.textLane⟩

theorem Run.Consumes.stocked (h : r.Consumes c act r') (hc : r.consumer = some c)
    (hs : Stocked r) : Stocked r' := by
  -- where only the consumer's place changes
  have hmoved : ∀ stage : ConsumerStage,
      (∀ chunk, .chunk chunk ∈ stage.acts → chunk.Filed r.config) → SignalLast stage.ops →
      (r.signal ≠ none → stage.acts = [] ∧ stage.ops = [] ∧ stage.inFlight = none) →
      Stocked (r.setConsumer c stage) := by
    intro stage hacts hlast hquiet
    refine ⟨hs.filed, ?_, ?_, hs.fresh, ?_, hs.textLane⟩
    · intro c' hc'
      cases hc'
      exact hacts
    · intro c' hc'
      cases hc'
      exact hlast
    · intro hne
      refine ⟨(hs.quiet hne).1, ?_⟩
      intro c' hc'
      cases hc'
      exact hquiet hne
  have hnil : ∀ stage : ConsumerStage, stage.acts = [] → stage.ops = [] → stage.inFlight = none →
      Stocked (r.setConsumer c stage) := by
    intro stage hacts hops hflight
    refine hmoved stage ?_ ?_ fun _ => ⟨hacts, hops, hflight⟩
    · rw [hacts]
      exact fun chunk hmem => by cases hmem
    · rw [hops]
      exact signalLast_of_not_mem fun s hmem => by cases hmem
  have hacts := hs.acts c hc
  have hlast := hs.last c hc
  cases h with
  | cancelled | streamOver | idle => exact hnil _ rfl rfl rfl
  | deliver event hcn hst hstop =>
      refine hmoved _ (fun chunk hmem => by cases hmem) (eventOps_signalLast _ _) ?_
      intro hne
      exact absurd (hs.quiet hne).1 (by rw [hstop]; decide)
  | signal s ops hcn hst hsignal =>
      rw [hst] at hlast
      -- nothing is left of the event that brings the signal
      have hops : ops = [] := hlast [] s ops rfl
      refine ⟨hs.filed, ?_, ?_, ?_, ?_, hs.textLane⟩
      · intro c' hc'
        cases hc'
        exact fun chunk hmem => by cases hmem
      · intro c' hc'
        cases hc'
        exact hlast.tail
      · exact fun hcon => by cases hcon
      · intro _
        refine ⟨rfl, ?_⟩
        intro c' hc'
        cases hc'
        exact ⟨rfl, hops, rfl⟩
  | signalAgain s ops hcn hst hsignal =>
      rw [hst] at hlast
      have hops : ops = [] := hlast [] s ops rfl
      exact hnil _ rfl hops rfl
  | op op ops hcn hst hop =>
      rw [hst] at hlast
      obtain ⟨hfiled, hchunks⟩ := filed_op_perform hs.filed op
      obtain ⟨hbuffers, hemitted, htext⟩ := op_perform_out r.config r.runtime op
      refine ⟨hfiled, ?_, ?_, ?_, ?_, ?_⟩
      · intro c' hc'
        cases hc'
        exact hchunks
      · intro c' hc'
        cases hc'
        exact hlast.tail
      · intro hsignal id hid hnot
        have hold := hs.fresh hsignal id hid
        change (op.perform r.config r.runtime).1.out.content id = []
        rw [content_op_perform]
        exact hold (hemitted ▸ hnot)
      · intro hne
        obtain ⟨-, hops, -⟩ := (hs.quiet hne).2 c hc
        rw [hst] at hops
        cases hops
      · change (op.perform r.config r.runtime).1.out.textArtifactId = none ∨
          (op.perform r.config r.runtime).1.out.textArtifactId = nonempty? r.config.textLane
        rw [htext]
        exact hs.textLane
  | act a acts ops stage hcn hst hstage hput =>
      have ha : a ∈ c.stage.acts := by
        rw [hst]
        exact List.mem_cons_self ..
      obtain ⟨hfresh, htext⟩ := hs.perform hc ha
      rw [hst] at hacts hlast
      refine ⟨hs.filed, ?_, ?_, hfresh, ?_, htext⟩
      · intro c' hc' chunk hmem
        cases hc'
        rcases hstage with rfl | rfl <;> exact hacts chunk (List.mem_cons_of_mem _ hmem)
      · intro c' hc'
        cases hc'
        rcases hstage with rfl | rfl <;> exact hlast
      · intro hne
        obtain ⟨hnone, -, -⟩ := (hs.quiet hne).2 c hc
        rw [hnone] at ha
        cases ha
  | enqueue a acts ops e hcn hst hput =>
      have ha : a ∈ c.stage.acts := by
        rw [hst]
        exact List.mem_cons_self ..
      obtain ⟨hfresh, htext⟩ := hs.perform hc ha
      rw [hst] at hacts hlast
      refine ⟨hs.filed, ?_, ?_, hfresh, ?_, htext⟩
      · intro c' hc' chunk hmem
        cases hc'
        exact hacts chunk (List.mem_cons_of_mem _ hmem)
      · intro c' hc'
        cases hc'
        exact hlast
      · intro hne
        obtain ⟨hnone, -, -⟩ := (hs.quiet hne).2 c hc
        rw [hnone] at ha
        cases ha
  | put e acts ops hcn hst =>
      have hmid := hmoved (.busy acts ops)
      rw [hst] at hacts hlast
      have hstocked := hmid hacts hlast fun hne => by
        obtain ⟨-, -, hflight⟩ := (hs.quiet hne).2 c hc
        rw [hst] at hflight
        cases hflight
      exact ⟨hstocked.filed, hstocked.acts, hstocked.last, hstocked.fresh, hstocked.quiet,
        hstocked.textLane⟩
  | tracked acts ops hcn hst =>
      have hquiet := fun hne => (hs.quiet hne).2 c hc
      rw [hst] at hacts hlast hquiet
      exact hmoved _ hacts hlast hquiet

/-- While the signal is out, the coordinator enqueues nothing but an error. -/
theorem Mirrored.laneOf_due (h : Mirrored r) (hsignal : r.signal = none) {id : Text}
    (hid : r.Plain id) : laneOf id r.due = [] := by
  refine laneOf_eq_nil ?_
  intro u hu heq
  exact hid.2 (heq ▸ h.due hsignal u hu)

theorem Stocked.signal_of_busy (h : Stocked r) (hc : r.consumer = some c)
    (hbusy : c.stage.acts ≠ [] ∨ c.stage.ops ≠ [] ∨ c.stage.inFlight ≠ none) :
    r.signal = none := by
  by_contra hne
  obtain ⟨hacts, hops, hflight⟩ := (h.quiet hne).2 c hc
  rcases hbusy with hb | hb | hb
  · exact hb hacts
  · exact hb hops
  · exact hb hflight

theorem Run.Consumes.mirrored (h : r.Consumes c act r') (hc : r.consumer = some c)
    (hm : Mirrored r) (hdelivered : Delivered r act) : Mirrored r' := by
  have hsame := h.same
  have hstocked := h.stocked hc hm.stocked
  have hcfg : r'.config = r.config := by
    unfold Run.config
    rw [hsame.session, hsame.prepared]
  have hplain : ∀ id, r'.Plain id → r.Plain id := by
    intro id hid
    unfold Run.Plain Run.errorLane at hid ⊢
    rwa [hcfg, hsame.prepared] at hid
  have hdue : r'.due = r.due := due_congr hsame.stage
  have herror : r'.signal = none → r.signal = none := by
    cases h with
    | signal => exact fun hcon => by cases hcon
    | cancelled | streamOver | idle | deliver | signalAgain | op | act | enqueue | put | tracked =>
        exact id
  refine ⟨?_, hstocked, ?_, ?_⟩
  · intro hearly
    unfold Run.early at hearly
    rw [hsame.stage] at hearly
    rw [hm.early hearly] at hc
    cases hc
  · -- where nothing is enqueued, and nothing was being enqueued
    have hkept : c.stage.inFlight = none → r'.inFlight = [] → r'.queue = r.queue →
        (∀ id, r'.runtime.out.content id = r.runtime.out.content id) →
        ∀ id, r'.Plain id →
          clientText id (r'.sent ++ r'.inFlight ++ r'.due) = r'.runtime.out.content id := by
      intro hflight hflight' hq hcontent id hid
      have hold := hm.text id (hplain id hid)
      have hnone : r.inFlight = [] := by
        unfold Run.inFlight
        rw [hc, Option.bind_some, hflight]
        rfl
      unfold Run.sent at hold ⊢
      rw [hflight', hdue, hq, hcontent]
      rw [hnone] at hold
      exact hold
    have hnotPutting : (∀ e acts ops, c.stage ≠ .putting e acts ops) →
        c.stage.inFlight = none := by
      intro hput
      unfold ConsumerStage.inFlight
      split
      · rename_i e acts ops hst
        exact absurd hst (hput e acts ops)
      · rfl
    cases h with
    | cancelled hcan =>
        refine hkept ?_ rfl rfl fun _ => rfl
        unfold Delivered Run.delivers at hdelivered
        rw [hc, Option.any_some, hcan, Bool.true_and] at hdelivered
        simpa using hdelivered
    | streamOver _ hcn hput | idle _ hcn hput => exact hkept (hnotPutting hput) rfl rfl fun _ => rfl
    | deliver event hcn hst hstop => exact hkept (by rw [hst]; rfl) rfl rfl fun _ => rfl
    | signal s ops hcn hst hsignal | signalAgain s ops hcn hst hsignal =>
        exact hkept (by rw [hst]; rfl) rfl rfl fun _ => rfl
    | tracked acts ops hcn hst => exact hkept (by rw [hst]; rfl) rfl rfl fun _ => rfl
    | op op ops hcn hst hop =>
        refine hkept (by rw [hst]; rfl) rfl rfl fun id => ?_
        exact content_op_perform r.config r.runtime op id
    | act a acts ops stage hcn hst hstage hput =>
        refine hkept (by rw [hst]; rfl) ?_ rfl fun id => ?_
        · rcases hstage with rfl | rfl <;> rfl
        · change (a.perform r.config r.runtime.out).1.content id = _
          rw [act_perform_silent hput]
    | enqueue a acts ops e hcn hst hput =>
        intro id hid
        have hold := hm.text id (hplain id hid)
        have ha : a ∈ c.stage.acts := by
          rw [hst]
          exact List.mem_cons_self ..
        have hsignal := hm.stocked.signal_of_busy hc (.inl (List.ne_nil_of_mem ha))
        have hnil := hm.laneOf_due hsignal (hplain id hid)
        have hnone : r.inFlight = [] := by
          unfold Run.inFlight
          rw [hc, Option.bind_some, hst]
          rfl
        have hsent : clientText id r.sent = r.runtime.out.content id := by
          rw [← hold, hnone]
          refine clientText_congr ?_
          rw [laneOf_append, laneOf_append, hnil]
          simp [laneOf]
        change clientText id (r.sent ++ e.update?.toList ++ r.due) =
          (a.perform r.config r.runtime.out).1.content id
        have hdrop : clientText id (r.sent ++ e.update?.toList ++ r.due) =
            clientText id (r.sent ++ e.update?.toList) := by
          refine clientText_congr ?_
          rw [laneOf_append, hnil, List.append_nil]
        rw [hdrop]
        rcases act_perform_put hput with ⟨chunk, u, rfl, rfl, hemit⟩ | ⟨hnoUpdate, hs⟩
        · obtain ⟨-, -, -, htext⟩ := emitChunk_some hemit (hm.stocked.acts c hc chunk ha)
            (hm.stocked.fresh hsignal)
          exact htext id r.sent (hplain id hid).1 hsent
        · rw [hnoUpdate, hs]
          simpa using hsent
    | put e acts ops hcn hst =>
        intro id hid
        have hold := hm.text id (hplain id hid)
        have hsignal := hm.stocked.signal_of_busy hc (.inr (.inr (by
          rw [hst]
          exact Option.some_ne_none e)))
        have hflight : r.inFlight = e.update?.toList := by
          unfold Run.inFlight
          rw [hc, Option.bind_some, hst]
          rfl
        change clientText id (sentOf (r.queue ++ [(.run, e)]) ++ [] ++ r.due) =
          r.runtime.out.content id
        rw [← hold, hflight, sentOf_concat, List.append_nil]
        rfl
  · intro hsignal u hu
    rw [hdue] at hu
    unfold Run.errorLane
    rw [hsame.prepared]
    exact hm.due (herror hsignal) u hu

/-! ## §4  The coordinator -/

theorem resolveStreamArtifactId_congr {cfg cfg' : Config} (h : cfg'.artifactId = cfg.artifactId)
    (blockType : BlockType) (partId : Text) :
    resolveStreamArtifactId cfg' blockType partId = resolveStreamArtifactId cfg blockType partId := by
  unfold resolveStreamArtifactId
  rw [h]

theorem toolLane_congr {cfg cfg' : Config} (h : cfg'.artifactId = cfg.artifactId) {id : Text} :
    ToolLane cfg' id ↔ ToolLane cfg id := by
  unfold ToolLane
  rw [h]

theorem config_artifactId (h : r'.prepared = r.prepared) :
    r'.config.artifactId = r.config.artifactId := by
  unfold Run.config Config.artifactId
  rw [h]

theorem plain_congr (h : r'.prepared = r.prepared) {id : Text} : r'.Plain id ↔ r.Plain id := by
  unfold Run.Plain Run.errorLane
  rw [toolLane_congr (config_artifactId h), h]

/-- The coordinator leaves the consumer's side alone. -/
theorem Stocked.keeps (hs : Stocked r) (hk : r.Keeps r')
    (hparts : r'.runtime.partStates = r.runtime.partStates)
    (htext : r'.runtime.out.textArtifactId = r.runtime.out.textArtifactId)
    (hruntime : r.signal = none → r'.runtime = r.runtime) : Stocked r' := by
  have hid := config_artifactId hk.prepared
  have hresolve := resolveStreamArtifactId_congr hid
  refine ⟨?_, ?_, ?_, ?_, ?_, ?_⟩
  · intro partId state hstate
    obtain ⟨q, hq⟩ := hs.filed partId state (hparts ▸ hstate)
    exact ⟨q, by rw [hresolve, hq]⟩
  · intro c' hc' chunk hmem
    rcases hk.consumer c' hc' with hw | ⟨c, hc, hstage, -⟩
    · rw [hw] at hmem
      cases hmem
    · have hchunk := hs.acts c hc chunk (hstage ▸ hmem)
      obtain ⟨q, hq⟩ := hchunk.lane
      exact ⟨⟨q, by rw [hresolve, hq]⟩, hchunk.text⟩
  · intro c' hc'
    rcases hk.consumer c' hc' with hw | ⟨c, hc, hstage, -⟩
    · rw [hw]
      exact signalLast_of_not_mem fun s hmem => by cases hmem
    · rw [hstage]
      exact hs.last c hc
  · intro hsignal
    rw [hk.signal] at hsignal
    rw [hruntime hsignal]
    intro id hnot
    exact hs.fresh hsignal id (fun htool => hnot ((toolLane_congr hid).mpr htool))
  · intro hne
    rw [hk.signal] at hne
    obtain ⟨hstop, hidle⟩ := hs.quiet hne
    refine ⟨hk.stop hstop, ?_⟩
    intro c' hc'
    rcases hk.consumer c' hc' with hw | ⟨c, hc, hstage, -⟩
    · rw [hw]
      exact ⟨rfl, rfl, rfl⟩
    · rw [hstage]
      exact hidle c hc
  · unfold Config.textLane
    rw [htext, hid]
    exact hs.textLane

theorem bind_inFlight (c : Option Consumer) : (c.bind fun c => c.stage.inFlight) =
    (c.map Consumer.stage).bind ConsumerStage.inFlight := by
  cases c <;> rfl

theorem inFlight_congr (h : r'.consumer.map Consumer.stage = r.consumer.map Consumer.stage) :
    r'.inFlight = r.inFlight := by
  unfold Run.inFlight
  rw [bind_inFlight, bind_inFlight, h]

theorem Run.Resumes.early {stage : Stage} (h : r.Resumes stage r') (hs : r.stage = stage)
    (hearly : r'.early = true) : r.early = true ∧ r'.consumer = r.consumer := by
  have hlate : ∀ r : Run, r.cleanup.early = false ∧ r.stopConsumer.early = false := by
    intro r
    have hstop : r.stopConsumer.early = false := by
      unfold Run.stopConsumer
      split <;> rfl
    refine ⟨?_, hstop⟩
    unfold Run.cleanup
    split
    · rfl
    · exact hstop
  have herror : ∀ (r : Run) (b : Bool) (e : ErrorReport), (r.emitError b e).early = false := by
    intro r b e
    cases b <;> rfl
  unfold Run.early
  rw [hs]
  cases h with
  | register | bind | lock | acquireAtOnce | wait | acquire => exact ⟨rfl, rfl⟩
  | record =>
      unfold Run.afterRecording at hearly
      split at hearly <;> split at hearly <;> cases hearly
  | respond response =>
      by_cases hp : r.pending = true
      · simp only [Run.early, hp, if_true] at hearly
        cases hearly
      · simp only [Run.early, hp] at hearly
        cases hearly
  | handle response =>
      unfold Run.handleResponse at hearly
      simp only at hearly
      split at hearly
      · rw [herror] at hearly
        cases hearly
      · split at hearly <;> cases hearly
  | signal response signal =>
      have hcomplete : ∀ r : Run, (r.complete response).early = false := by
        intro r
        unfold Run.complete
        simp only
        split <;> rfl
      cases signal with
      | error e =>
          rw [Run.handleSignal, herror] at hearly
          cases hearly
      | completed =>
          simp only [Run.handleSignal] at hearly
          split at hearly
          · rw [herror] at hearly
            cases hearly
          · rw [hcomplete] at hearly
            cases hearly
  | noSignal | fail =>
      rw [Run.except, herror] at hearly
      cases hearly
  | emitLast e =>
      rw [(hlate _).1] at hearly
      cases hearly
  | release =>
      rw [(hlate _).2] at hearly
      cases hearly
  | snapshot | finalize | turn | emit | stop | check | unregister => cases hearly

theorem Run.early_thrown : r.thrown.early = false := by
  have hlate := Run.late_thrown (r := r)
  unfold Run.late at hlate
  unfold Run.early
  split <;> rename_i hs
  all_goals first | rfl | (rw [hs] at hlate; cases hlate)

/-- The coordinator puts no update but those it is at the end with. -/
theorem Mirrored.still (hm : Mirrored r) (hstocked : Stocked r') (hearly : r'.early = true →
      r'.consumer = none) (hprepared : r'.prepared = r.prepared) (hruntime : r'.runtime = r.runtime)
    (hsent : r'.sent = r.sent) (hflight : r'.inFlight = r.inFlight) (hdue : r.due = [])
    (hdue' : ∀ u ∈ r'.due, u.artifactId = r.errorLane) : Mirrored r' := by
  refine ⟨hearly, hstocked, ?_, ?_⟩
  · intro id hid
    rw [plain_congr hprepared] at hid
    have hold := hm.text id hid
    have hnil : laneOf id r'.due = [] :=
      laneOf_eq_nil fun u hu heq => hid.2 (heq ▸ hdue' u hu)
    rw [hruntime, ← hold]
    refine clientText_congr ?_
    rw [laneOf_append, hnil, hsent, hflight, hdue, List.append_nil, List.append_nil]
  · intro _ u hu
    unfold Run.errorLane
    rw [hprepared]
    exact hdue' u hu

theorem due_emitError (r : Run) (b : Bool) (e : ErrorReport) :
    ∀ u ∈ (r.emitError b e).due, u.artifactId = r.errorLane := by
  intro u hu
  cases b with
  | false => cases hu
  | true =>
      obtain rfl := List.mem_singleton.mp hu
      rfl

theorem due_of_late (h : r.late = true) : r.due = [] := by
  rw [Run.due_eq, Run.emits_of_late h]
  rfl

/-- Behind the signal the consumer enqueues nothing. -/
theorem Stocked.bind_inFlight (hs : Stocked r) (hsignal : r.signal ≠ none) :
    (r.consumer.bind fun c => c.stage.inFlight) = none := by
  cases hc : r.consumer with
  | none => rfl
  | some c =>
      obtain ⟨-, -, hnone⟩ := (hs.quiet hsignal).2 c hc
      exact hnone

theorem Mirrored.inFlight_nil (hm : Mirrored r) (hsignal : r.signal ≠ none) :
    r.inFlight = [] := by
  unfold Run.inFlight
  rw [hm.stocked.bind_inFlight hsignal]
  rfl

/-- The events of a completed run, and what the output state keeps then. -/
theorem Mirrored.complete (hm : Mirrored r) {response : OpencodeMessage}
    (hs : Stocked (r.complete response))
    (hsignal : r.signal ≠ none) (hdue : r.due = []) : Mirrored (r.complete response) := by
  have hkeeps := Run.keeps_complete (r := r) response
  have hflight := hm.inFlight_nil hsignal
  have hsilent := Run.silent_complete r response
  have hsent : (r.complete response).sent = r.sent := congrArg sentOf hsilent.queue
  refine ⟨?_, hs, ?_, ?_⟩
  · intro hearly
    unfold Run.complete at hearly
    simp only at hearly
    split at hearly <;> cases hearly
  · intro id hid
    rw [plain_congr hkeeps.prepared] at hid
    have hold := hm.text id hid
    rw [hdue, hflight, List.append_nil, List.append_nil] at hold
    rw [hsent, inFlight_congr hsilent.stages, hflight, List.append_nil]
    unfold Run.complete
    simp only
    split
    · change clientText id (r.sent ++ []) = r.runtime.out.content id
      rw [List.append_nil, hold]
    · rename_i out hout
      have hcontent := StreamOutputState.shouldEmitFinalSnapshot_eq_some hout
      change clientText id (r.sent ++ [_]) = out.nextSequence.content id
      rw [clientText_snoc, StreamOutputState.content_nextSequence, hcontent id]
      by_cases hid' : id = r.runtime.out.resolveTextArtifactId r.streamTextArtifactId
      · rw [if_pos hid', if_pos hid'.symm]
        rfl
      · rw [if_neg hid', if_neg (fun heq => hid' heq.symm), hold]
  · intro hnone
    rw [hkeeps.signal] at hnone
    exact absurd hnone hsignal

/-- The coordinator puts the first of its updates. -/
theorem Mirrored.putDue (hm : Mirrored r) (hk : r.Keeps r') (hstocked : Stocked r')
    (hearly : r'.early = true → r'.consumer = none) (hruntime : r'.runtime = r.runtime)
    (hflight : r'.inFlight = r.inFlight) {us : List ArtifactUpdate} (hsent : r'.sent = r.sent ++ us)
    (hdue : r.due = us ++ r'.due) : Mirrored r' := by
  refine ⟨hearly, hstocked, ?_, ?_⟩
  · intro id hid
    rw [plain_congr hk.prepared] at hid
    have hold := hm.text id hid
    rw [hruntime, ← hold, hsent, hflight]
    by_cases hsignal : r.signal = none
    · have hnil := hm.laneOf_due hsignal hid
      rw [hdue, laneOf_append, List.append_eq_nil_iff] at hnil
      refine clientText_congr ?_
      rw [hdue]
      simp only [laneOf_append, hnil.1, hnil.2, List.append_nil]
    · rw [hm.inFlight_nil hsignal, hdue, List.append_nil, List.append_nil, List.append_assoc]
  · intro hsignal u hu
    rw [hk.signal] at hsignal
    unfold Run.errorLane
    rw [hk.prepared]
    exact hm.due hsignal u (hdue ▸ List.mem_append_right us hu)

theorem Mirrored.resumes (hm : Mirrored r) {stage : Stage} (hs : r.stage = stage)
    (hr : r.Resumes stage r') : Mirrored r' := by
  have hk := hr.keeps
  obtain ⟨hparts, htext, hstages⟩ := hr.parts
  have hstocked := hm.stocked.keeps hk hparts htext fun hsignal => hr.runtime (.inl hsignal)
  have hearly : r'.early = true → r'.consumer = none := by
    intro he
    obtain ⟨he', hc⟩ := hr.early hs he
    rw [hc]
    exact hm.early he'
  have hdue : (∀ e rest, stage ≠ .emitting e rest) → r.due = [] := by
    intro hne
    unfold Run.due
    split
    · rename_i e rest heq
      exact absurd (hs.symm.trans heq) (hne e rest)
    · rfl
  have hstill : (∀ response, stage ≠ .awaitingSignal response) → stage ≠ .recording →
      (∀ e rest, stage ≠ .emitting e rest) → r'.sent = r.sent →
      (∀ u ∈ r'.due, u.artifactId = r.errorLane) → Mirrored r' :=
    fun hawaiting hrecording hemitting hsent hdue' =>
      hm.still hstocked hearly hk.prepared (hr.runtime (.inr hawaiting)) hsent
        (inFlight_congr (hstages hrecording)) (hdue hemitting) hdue'
  cases hr with
  | register | bind | lock | acquireAtOnce | wait | acquire | turn | finalize | stop | check
  | unregister =>
      exact hstill (fun _ hcon => by cases hcon) (fun hcon => by cases hcon)
        (fun _ _ hcon => by cases hcon) rfl (fun u hu => by cases hu)
  | respond response =>
      refine hstill (fun _ hcon => by cases hcon) (fun hcon => by cases hcon)
        (fun _ _ hcon => by cases hcon) rfl ?_
      intro u hu
      by_cases hp : r.pending = true
      · simp only [Run.due, hp, if_true] at hu
        cases hu
      · simp only [Run.due, hp] at hu
        cases hu
  | snapshot =>
      refine hstill (fun _ hcon => by cases hcon) (fun hcon => by cases hcon)
        (fun _ _ hcon => by cases hcon) ?_ (fun u hu => by cases hu)
      exact (sentOf_concat r.queue .run _).trans (List.append_nil _)
  | release =>
      refine hstill (fun _ hcon => by cases hcon) (fun hcon => by cases hcon)
        (fun _ _ hcon => by cases hcon) (congrArg sentOf (Run.silent_stopConsumer r).queue) ?_
      intro u hu
      rw [due_of_late (Run.late_stopConsumer r)] at hu
      cases hu
  | fail stage e hwhere =>
      refine hstill ?_ ?_ ?_ (congrArg sentOf (Run.silent_emitError r _ _).queue)
        (due_emitError r _ _)
      all_goals rcases hwhere with rfl | rfl | rfl | ⟨response, rfl⟩ | ⟨response, rfl⟩
      all_goals intros; intro hcon; cases hcon
  | handle response =>
      refine hstill (fun _ hcon => by cases hcon) (fun hcon => by cases hcon)
        (fun _ _ hcon => by cases hcon)
        (congrArg sentOf (Run.silent_handleResponse r response).queue) ?_
      intro u hu
      unfold Run.handleResponse at hu
      simp only at hu
      split at hu
      · exact due_emitError { r with
          handled := some response, usage := r.resolvedTokenUsage response } _ _ u hu
      · split at hu <;> cases hu
  | record =>
      -- the one move that starts a consumer
      have hnone := hm.early (by unfold Run.early; rw [hs])
      have hflight : r.inFlight = [] := by
        unfold Run.inFlight
        rw [hnone]
        rfl
      refine hm.still hstocked hearly hk.prepared
        (Run.Resumes.record.runtime (.inr fun _ hcon => by cases hcon)) ?_ ?_
        (hdue fun _ _ hcon => by cases hcon) ?_
      · unfold Run.afterRecording
        split <;> split <;> rfl
      · rw [hflight]
        unfold Run.afterRecording
        split
        · split <;> rfl
        · split <;> exact hflight
      · intro u hu
        unfold Run.afterRecording at hu
        split at hu <;> split at hu <;> cases hu
  | noSignal response e hsignal hdone =>
      exact hm.still hstocked hearly hk.prepared
        ((Run.Resumes.noSignal response e hsignal hdone).runtime (.inl hsignal))
        (congrArg sentOf (Run.silent_emitError r _ _).queue)
        (inFlight_congr (hstages fun hcon => by cases hcon))
        (hdue fun _ _ hcon => by cases hcon) (due_emitError r _ _)
  | signal response signal hsignal =>
      have hnone := hdue fun _ _ hcon => by cases hcon
      have herror : ∀ e, r.handleSignal response signal = r.emitError true e →
          Mirrored (r.handleSignal response signal) := by
        intro e heq
        rw [heq] at hstocked hearly hk ⊢
        exact hm.still hstocked hearly hk.prepared rfl
          (congrArg sentOf (Run.silent_emitError r _ _).queue)
          (inFlight_congr (Run.silent_emitError r _ _).stages) hnone (due_emitError r _ _)
      cases signal with
      | error e => exact herror _ rfl
      | completed =>
          cases hup : r.runtime.out.upstreamError with
          | some e => exact herror (.ofUpstream e) (by simp only [Run.handleSignal, hup])
          | none =>
              have heq : r.handleSignal response .completed = r.complete response := by
                simp only [Run.handleSignal, hup]
              rw [heq] at hstocked ⊢
              exact hm.complete hstocked (by rw [hsignal]; exact Option.some_ne_none _) hnone
  | emit e e' rest =>
      refine hm.putDue hk hstocked hearly rfl rfl (sentOf_concat r.queue .run e) ?_
      unfold Run.due
      rw [hs]
      cases hu : e.update? <;> simp [hu]
  | emitLast e =>
      have hsilent := Run.silent_cleanup (r.put .run e)
      refine hm.putDue hk hstocked hearly
        ((Run.Resumes.emitLast e).runtime (.inr fun _ hcon => by cases hcon))
        (inFlight_congr hsilent.stages)
        ((congrArg sentOf hsilent.queue).trans (sentOf_concat r.queue .run e)) ?_
      rw [due_of_late (Run.late_cleanup _), List.append_nil]
      unfold Run.due
      rw [hs]
      cases hu : e.update? <;> simp [hu]

theorem Mirrored.thrown (hm : Mirrored r) (hdue : r.due = []) : Mirrored r.thrown := by
  have hk := Run.keeps_thrown (r := r)
  have hsilent := Run.silent_thrown r
  have hruntime := Run.runtime_thrown r
  refine hm.still ?_ ?_ hk.prepared hruntime (congrArg sentOf hsilent.queue)
    (inFlight_congr hsilent.stages) hdue ?_
  · exact hm.stocked.keeps hk hsilent.partStates hsilent.textArtifactId fun _ => hruntime
  · rw [Run.early_thrown]
    exact fun hcon => by cases hcon
  · rw [due_of_late Run.late_thrown]
    exact fun u hu => by cases hu

theorem Stocked.spares (hs : Stocked r) (h : r.Spares r') : Stocked r' := by
  have hcfg : r'.config = r.config := by
    unfold Run.config
    rw [h.session, h.prepared]
  refine ⟨?_, ?_, ?_, ?_, ?_, ?_⟩
  · rw [hcfg, h.runtime]
    exact hs.filed
  · rw [hcfg, h.consumer]
    exact hs.acts
  · rw [h.consumer]
    exact hs.last
  · rw [hcfg, h.runtime, h.signal]
    exact hs.fresh
  · rw [h.signal, h.consumer]
    exact fun hne => ⟨h.stop (hs.quiet hne).1, (hs.quiet hne).2⟩
  · rw [hcfg, h.runtime]
    exact hs.textLane

theorem Mirrored.spares (hm : Mirrored r) {stage : CancelStage} (h : r.Cancels stage r') :
    Mirrored r' := by
  have hs := h.spares
  have hsent : r'.sent = r.sent := by
    unfold Run.sent
    rcases h.queue with hq | hq | ⟨message, hq⟩
    · rw [hq]
    · rw [hq, sentOf_concat]
      exact List.append_nil _
    · rw [hq, sentOf_concat]
      exact List.append_nil _
  have hflight : r'.inFlight = r.inFlight := inFlight_congr (by rw [hs.consumer])
  have hdue : r'.due = r.due := due_congr hs.stage
  refine ⟨?_, hm.stocked.spares hs, ?_, ?_⟩
  · unfold Run.early
    rw [hs.stage, hs.consumer]
    exact hm.early
  · intro id hid
    rw [plain_congr hs.prepared] at hid
    rw [hsent, hflight, hdue, hs.runtime]
    exact hm.text id hid
  · unfold Run.errorLane
    rw [hs.signal, hdue, hs.prepared]
    exact hm.due

/-! ## §5  The whole run -/

theorem stocked_initial (prepared : PreparedExecution) : Stocked (Run.initial prepared) := by
  refine ⟨?_, ?_, ?_, ?_, ?_, .inl rfl⟩
  · exact fun partId state hstate => by cases hstate
  · exact fun c hc => by cases hc
  · exact fun c hc => by cases hc
  · exact fun _ id _ _ => rfl
  · exact fun hne => absurd rfl hne

/-- Whoever moves, cancelled or not. -/
theorem stocked_step (hs : Stocked r) (hstep : r.act act = some r') : Stocked r' := by
  rcases Run.act_cases hstep with ⟨a, rfl, ha⟩ | ⟨c, hc, hmove⟩ | ⟨rfl, -, rfl⟩ | ⟨a, rfl, ha⟩
  · rcases Run.step_cases ha with ⟨-, -, rfl⟩ | ⟨-, hr⟩
    · have hsilent := Run.silent_thrown r
      exact hs.keeps Run.keeps_thrown hsilent.partStates hsilent.textArtifactId
        fun _ => Run.runtime_thrown r
    · have hparts := hr.parts
      exact hs.keeps hr.keeps hparts.1 hparts.2.1 fun hsignal => hr.runtime (.inl hsignal)
  · exact hmove.stocked hc hs
  · exact ⟨hs.filed, hs.acts, hs.last, hs.fresh, hs.quiet, hs.textLane⟩
  · exact hs.spares (Run.cancelStep_cases ha).spares

theorem mirrored_initial (prepared : PreparedExecution) : Mirrored (Run.initial prepared) := by
  refine ⟨fun _ => rfl, stocked_initial prepared, ?_, ?_⟩
  · exact fun id _ => rfl
  · exact fun _ u hu => by cases hu

theorem mirrored_step (hm : Mirrored r) (hdelivered : Delivered r act)
    (hstep : r.act act = some r') : Mirrored r' := by
  rcases Run.act_cases hstep with ⟨a, rfl, ha⟩ | ⟨c, hc, hmove⟩ | ⟨rfl, -, rfl⟩ | ⟨a, rfl, ha⟩
  · rcases Run.step_cases ha with ⟨hcan, -, rfl⟩ | ⟨-, hr⟩
    · refine hm.thrown ?_
      unfold Delivered Run.delivers at hdelivered
      unfold Run.due
      split
      · rename_i e rest hs
        rw [hs] at hdelivered
        simp only [hcan] at hdelivered
        cases hdelivered
      · rfl
    · exact hm.resumes rfl hr
  · exact hmove.mirrored hc hm hdelivered
  · exact ⟨hm.early, stocked_step hm.stocked hstep, hm.text, hm.due⟩
  · exact hm.spares (Run.cancelStep_cases ha)

/-! ## §6  The text of a completed run -/

/-- The completed status is in the queue. -/
def Run.Completed (r : Run) : Prop := ∃ metadata, (.run, .status .completed metadata) ∈ r.queue

/-- The completed status is among the events that are being enqueued. -/
def Run.Completing (r : Run) : Prop :=
  ∃ e rest metadata, r.stage = .emitting e rest ∧ .status .completed metadata ∈ e :: rest

/-- The artifact of the text, as the coordinator looks it up. -/
def Run.resolvedLane (r : Run) : Text :=
  r.runtime.out.resolveTextArtifactId r.streamTextArtifactId

/-- The output state keeps the text of the response, if there is one. -/
def Answered (r : Run) : Prop :=
  r.signal ≠ none ∧ ∃ response, r.handled = some response ∧ (response.text.Blank ∨
    (r.runtime.out.content r.resolvedLane).strip = response.text.strip)

/-- Nothing, or the closing status. -/
def LastStatus (rest : List Event) : Prop :=
  rest = [] ∨ ∃ state metadata, rest = [.status state metadata]

structure Answering (r : Run) : Prop where
  sound : Sound r
  flight : FlightOpen r
  mirrored : Mirrored r
  handled : ∀ response, r.stage = .awaitingSignal response → r.handled = some response
  lastly : ∀ e rest, r.stage = .emitting e rest →
    LastStatus rest ∧ (rest ≠ [] → ∀ metadata, e ≠ .status .completed metadata)
  answered : r.Completed ∨ r.Completing → Answered r
  isLate : r.Completed → r.late = true

/-- The final snapshot makes up for what the stream did not show. -/
theorem answered_complete {response : OpencodeMessage} (hsignal : r.signal ≠ none)
    (hhandled : r.handled = some response) : Answered (r.complete response) := by
  unfold Run.complete
  simp only
  split
  · rename_i hnone
    exact ⟨hsignal, response, hhandled, StreamOutputState.shouldEmitFinalSnapshot_eq_none hnone⟩
  · rename_i out hout
    refine ⟨hsignal, response, hhandled, .inr ?_⟩
    have hcontent := StreamOutputState.shouldEmitFinalSnapshot_eq_some hout
    have htext := (Run.silent_complete r response).textArtifactId
    unfold Run.complete at htext
    simp only [hout] at htext
    have hlane : out.nextSequence.resolveTextArtifactId r.streamTextArtifactId =
        r.runtime.out.resolveTextArtifactId r.streamTextArtifactId := by
      unfold StreamOutputState.resolveTextArtifactId
      rw [show out.nextSequence.textArtifactId = r.runtime.out.textArtifactId from htext]
    change (out.nextSequence.content
      (out.nextSequence.resolveTextArtifactId r.streamTextArtifactId)).strip = response.text.strip
    rw [hlane, StreamOutputState.content_nextSequence, hcontent, if_pos rfl]

theorem Answered.congr (h : Answered r) (hprepared : r'.prepared = r.prepared)
    (hsignal : r'.signal = r.signal) (hhandled : r'.handled = r.handled)
    (hruntime : r'.runtime = r.runtime) : Answered r' := by
  have hid := config_artifactId hprepared
  unfold Answered Run.resolvedLane Run.streamTextArtifactId
  rw [hsignal, hhandled, hruntime, hid]
  exact h

/-- A move before the completed status is due. -/
theorem Answering.before (h : Answering r) (hlate : r.late = false) (hsound : Sound r')
    (hflight : FlightOpen r') (hmirrored : Mirrored r')
    (hhandled : ∀ response, r'.stage = .awaitingSignal response → r'.handled = some response)
    (hcompleted : r'.Completed → r.Completed)
    (hlastly : ∀ e rest, r'.stage = .emitting e rest → LastStatus rest ∧
      ∀ metadata, .status .completed metadata ∉ e :: rest) : Answering r' := by
  have hnot : ¬ r'.Completed := fun hc => by
    have := h.isLate (hcompleted hc)
    rw [hlate] at this
    cases this
  refine ⟨hsound, hflight, hmirrored, hhandled, ?_, ?_, fun hc => absurd hc hnot⟩
  · intro e rest hs
    refine ⟨(hlastly e rest hs).1, ?_⟩
    rintro - metadata rfl
    exact (hlastly _ rest hs).2 metadata (List.mem_cons_self ..)
  · rintro (hc | ⟨e, rest, metadata, hs, hmem⟩)
    · exact absurd hc hnot
    · exact absurd hmem ((hlastly e rest hs).2 metadata)

/-- An error is no completion. -/
theorem emitError_lastly {b : Bool} {e : ErrorReport} (he : e.state.IsError) (x : Event)
    (rest : List Event) (hs : (r.emitError b e).stage = .emitting x rest) :
    LastStatus rest ∧ ∀ metadata, .status .completed metadata ∉ x :: rest := by
  cases b with
  | false =>
      cases hs
      refine ⟨.inl rfl, ?_⟩
      intro metadata hmem
      cases List.mem_singleton.mp hmem
  | true =>
      cases hs
      refine ⟨.inr ⟨_, _, rfl⟩, ?_⟩
      intro metadata hmem
      simp only [List.mem_cons, List.not_mem_nil, or_false] at hmem
      rcases hmem with hcon | hcon
      · cases hcon
      · rcases he with he | he <;> rw [he] at hcon <;> cases hcon

theorem completed_congr (hq : r'.queue = r.queue) : r'.Completed → r.Completed := by
  unfold Run.Completed
  rw [hq]
  exact id

/-- A move past the end of the run's body. -/
theorem Answering.after (h : Answering r) (hsound : Sound r') (hflight : FlightOpen r')
    (hmirrored : Mirrored r') (hlate : r'.late = true)
    (hcompleted : r'.Completed → r.Completed ∨ r.Completing) (hprepared : r'.prepared = r.prepared)
    (hsignal : r'.signal = r.signal) (hhandled : r'.handled = r.handled)
    (hruntime : r'.runtime = r.runtime) : Answering r' := by
  have hnot : ∀ e rest, r'.stage ≠ .emitting e rest := by
    intro e rest hs
    unfold Run.late at hlate
    rw [hs] at hlate
    cases hlate
  refine ⟨hsound, hflight, hmirrored, ?_, ?_, ?_, fun _ => hlate⟩
  · intro response hs
    unfold Run.late at hlate
    rw [hs] at hlate
    cases hlate
  · exact fun e rest hs => absurd hs (hnot e rest)
  · rintro (hc | ⟨e, rest, metadata, hs, -⟩)
    · exact (h.answered (hcompleted hc)).congr hprepared hsignal hhandled hruntime
    · exact absurd hs (hnot e rest)

theorem handled_cleanup (r : Run) : r.cleanup.handled = r.handled := by
  unfold Run.cleanup Run.stopConsumer
  split
  · rfl
  · split <;> rfl

theorem Answering.resumes (h : Answering r) {stage : Stage} (hs : r.stage = stage)
    (hr : r.Resumes stage r') : Answering r' := by
  have hk := hr.keeps
  have hsound := hk.sound h.sound
  have hflight := hk.flightOpen h.flight
  have hmirrored := h.mirrored.resumes hs hr
  -- the four ways to end on an error
  have herror : ∀ {b : Bool} {e : ErrorReport}, r.late = false → e.state.IsError →
      r' = r.emitError b e → Answering r' := by
    rintro b e hlate he rfl
    refine h.before hlate hsound hflight hmirrored ?_
      (completed_congr (Run.silent_emitError r b e).queue) (emitError_lastly he)
    intro response hcon
    cases b <;> cases hcon
  have hlateOf : ∀ {s : Stage}, r.stage = s → ({ r with stage := s } : Run).late = false →
      r.late = false := by
    rintro s rfl hnot
    exact hnot
  cases hr with
  | register | bind | lock | acquireAtOnce | wait | acquire | finalize | turn =>
      exact h.before (hlateOf hs rfl) hsound hflight hmirrored (fun _ hcon => by cases hcon)
        (completed_congr rfl) (fun _ _ hcon => by cases hcon)
  | respond response =>
      refine h.before (hlateOf hs rfl) hsound hflight hmirrored ?_ (completed_congr rfl) ?_
      · intro response' hcon
        by_cases hp : r.pending = true
        · simp only [hp, if_true] at hcon
          cases hcon
        · simp only [hp] at hcon
          cases hcon
      · intro e rest hcon
        by_cases hp : r.pending = true
        · simp only [hp, if_true] at hcon
          cases hcon
        · simp only [hp] at hcon
          cases hcon
  | record =>
      refine h.before (hlateOf hs rfl) hsound hflight hmirrored ?_ (completed_congr ?_) ?_
      · intro response hcon
        unfold Run.afterRecording at hcon
        split at hcon <;> split at hcon <;> cases hcon
      · unfold Run.afterRecording
        split <;> split <;> rfl
      · intro e rest hcon
        unfold Run.afterRecording at hcon
        split at hcon <;> split at hcon <;> cases hcon
  | snapshot =>
      refine h.before (hlateOf hs rfl) hsound hflight hmirrored (fun _ hcon => by cases hcon) ?_
        (fun _ _ hcon => by cases hcon)
      rintro ⟨metadata, hmem⟩
      rcases List.mem_append.mp hmem with hmem | hmem
      · exact ⟨metadata, hmem⟩
      · cases List.mem_singleton.mp hmem
  | handle response =>
      have hlate := hlateOf hs rfl
      have hcompleted := completed_congr (Run.silent_handleResponse r response).queue
      refine h.before hlate hsound hflight hmirrored ?_ hcompleted ?_
      · intro response' hcon
        unfold Run.handleResponse at hcon ⊢
        simp only at hcon ⊢
        split
        · rename_i e he
          rw [he] at hcon
          simp only at hcon
          cases hb : r.prepared.streamingRequest <;> rw [hb] at hcon <;> cases hcon
        · rename_i he
          rw [he] at hcon
          simp only at hcon
          split
          · rename_i hstream
            rw [if_pos hstream] at hcon
            cases hcon
            rfl
          · rename_i hstream
            rw [if_neg hstream] at hcon
            cases hcon
      · intro e rest hcon
        unfold Run.handleResponse at hcon
        simp only at hcon
        split at hcon
        · rename_i err herr
          exact emitError_lastly (extractUpstreamErrorFromResponse_isError herr) e rest hcon
        · split at hcon
          · cases hcon
          · cases hcon
            refine ⟨.inl rfl, ?_⟩
            intro metadata hmem
            cases List.mem_singleton.mp hmem
  | noSignal response e hsignal hdone => exact herror (hlateOf hs rfl) e.report_isError rfl
  | fail stage e hwhere =>
      refine herror (hlateOf hs ?_) e.report_isError rfl
      rcases hwhere with rfl | rfl | rfl | ⟨response, rfl⟩ | ⟨response, rfl⟩ <;> rfl
  | signal response signal hsignal =>
      have hlate := hlateOf hs rfl
      cases signal with
      | error e =>
          exact herror (b := true) (e := .ofUpstream e) hlate (h.sound.signal e hsignal) rfl
      | completed =>
          cases hup : r.runtime.out.upstreamError with
          | some e =>
              exact herror (b := true) (e := .ofUpstream e) hlate (h.sound.upstream e hup)
                (by simp only [Run.handleSignal, hup])
          | none =>
              have heq : r.handleSignal response .completed = r.complete response := by
                simp only [Run.handleSignal, hup]
              rw [heq] at hsound hflight hmirrored ⊢
              have hcompleted := completed_congr (Run.silent_complete r response).queue
              have hanswered : Answered (r.complete response) := answered_complete
                (by rw [hsignal]; exact Option.some_ne_none _) (h.handled response hs)
              refine ⟨hsound, hflight, hmirrored, ?_, ?_, fun _ => hanswered, ?_⟩
              · intro response' hcon
                unfold Run.complete at hcon
                simp only at hcon
                split at hcon <;> cases hcon
              · intro e rest hcon
                unfold Run.complete at hcon
                simp only at hcon
                split at hcon <;> cases hcon
                · exact ⟨.inl rfl, fun hne => absurd rfl hne⟩
                · exact ⟨.inr ⟨_, _, rfl⟩, fun _ metadata hcon => by cases hcon⟩
              · intro hc
                have := h.isLate (hcompleted hc)
                rw [hlate] at this
                cases this
  | emit e e' rest =>
      have hlate := hlateOf hs rfl
      obtain ⟨hlast, hnot⟩ := h.lastly e (e' :: rest) hs
      -- of two events the second is the closing status
      have hrest : rest = [] := by
        rcases hlast with hcon | ⟨state, metadata, hcon⟩
        · cases hcon
        · exact (List.cons.inj hcon).2
      have hcompleted : ¬ ({ r.put .run e with stage := .emitting e' rest } : Run).Completed := by
        rintro ⟨metadata, hmem⟩
        rcases List.mem_append.mp hmem with hmem | hmem
        · have := h.isLate ⟨metadata, hmem⟩
          rw [hlate] at this
          cases this
        · cases List.mem_singleton.mp hmem
          exact hnot (List.cons_ne_nil _ _) metadata rfl
      refine ⟨hsound, hflight, hmirrored, (fun _ hcon => by cases hcon), ?_, ?_,
        fun hc => absurd hc hcompleted⟩
      · intro x xs hcon
        cases hcon
        rw [hrest]
        exact ⟨.inl rfl, fun hne => absurd rfl hne⟩
      · rintro (hc | ⟨x, xs, metadata, hx, hmem⟩)
        · exact absurd hc hcompleted
        · cases hx
          exact (h.answered (.inr ⟨e, _, metadata, hs, List.mem_cons_of_mem _ hmem⟩)).congr
            rfl rfl rfl rfl
  | emitLast e =>
      refine h.after hsound hflight hmirrored (Run.late_cleanup _) ?_ hk.prepared hk.signal
        (handled_cleanup _) ((Run.Resumes.emitLast e).runtime (.inr fun _ hcon => by cases hcon))
      rintro ⟨metadata, hmem⟩
      rw [(Run.silent_cleanup _).queue] at hmem
      rcases List.mem_append.mp hmem with hmem | hmem
      · exact .inl ⟨metadata, hmem⟩
      · cases List.mem_singleton.mp hmem
        exact .inr ⟨_, [], metadata, hs, List.mem_cons_self ..⟩
  | release =>
      refine h.after hsound hflight hmirrored (Run.late_stopConsumer r)
        (fun hc => .inl (completed_congr (Run.silent_stopConsumer r).queue hc)) hk.prepared hk.signal
        ?_ (Run.Resumes.release.runtime (.inr fun _ hcon => by cases hcon))
      unfold Run.stopConsumer
      split <;> rfl
  | stop | check | unregister =>
      exact h.after hsound hflight hmirrored rfl (fun hc => .inl (completed_congr rfl hc)) rfl rfl
        rfl rfl

/-- After the signal the consumer writes nothing. -/
theorem Run.Consumes.runtime (h : r.Consumes c act r') (hc : r.consumer = some c)
    (hs : Stocked r) (hsignal : r.signal ≠ none) : r'.runtime = r.runtime ∧
      r'.signal = r.signal := by
  obtain ⟨-, hidle⟩ := hs.quiet hsignal
  obtain ⟨hacts, hops, hflight⟩ := hidle c hc
  cases h with
  | cancelled | streamOver | idle | deliver | put | tracked => exact ⟨rfl, rfl⟩
  | signal s ops hcn hst | signalAgain s ops hcn hst | op op ops hcn hst =>
      rw [hst] at hops
      cases hops
  | act a acts ops stage hcn hst | enqueue a acts ops e hcn hst =>
      rw [hst] at hacts
      cases hacts

theorem Run.Consumes.answering (h : r.Consumes c act r') (hc : r.consumer = some c)
    (ha : Answering r) (hdelivered : Delivered r act) : Answering r' := by
  have hsame := h.same
  have hcompleted : r'.Completed → r.Completed := by
    rintro ⟨metadata, hmem⟩
    rcases h.queue with hq | ⟨e, -, he, hq⟩
    · exact ⟨metadata, hq ▸ hmem⟩
    · rw [hq] at hmem
      rcases List.mem_append.mp hmem with hmem | hmem
      · exact ⟨metadata, hmem⟩
      · cases List.mem_singleton.mp hmem
        cases ha.flight c _ hc he
  refine ⟨h.sound hc ha.sound, h.flightOpen, h.mirrored hc ha.mirrored hdelivered, ?_, ?_, ?_, ?_⟩
  · rw [hsame.stage, hsame.handled]
    exact ha.handled
  · rw [hsame.stage]
    exact ha.lastly
  · intro hdone
    have hanswered : Answered r := ha.answered (by
      unfold Run.Completing at hdone ⊢
      rw [hsame.stage] at hdone
      exact hdone.imp hcompleted id)
    obtain ⟨hruntime, hsignal⟩ := h.runtime hc ha.mirrored.stocked hanswered.1
    exact hanswered.congr hsame.prepared hsignal hsame.handled hruntime
  · unfold Run.late
    rw [hsame.stage]
    exact fun hdone => ha.isLate (hcompleted hdone)

theorem Answering.spares (ha : Answering r) {stage : CancelStage} (h : r.Cancels stage r') :
    Answering r' := by
  have hs := h.spares
  have hcompleted : r'.Completed → r.Completed := by
    rintro ⟨metadata, hmem⟩
    rcases h.queue with hq | hq | ⟨message, hq⟩
    · exact ⟨metadata, hq ▸ hmem⟩
    · rw [hq] at hmem
      rcases List.mem_append.mp hmem with hmem | hmem
      · exact ⟨metadata, hmem⟩
      · cases List.mem_singleton.mp hmem
    · rw [hq] at hmem
      rcases List.mem_append.mp hmem with hmem | hmem
      · exact ⟨metadata, hmem⟩
      · cases List.mem_singleton.mp hmem
  refine ⟨⟨?_, ?_, ?_⟩, ?_, ha.mirrored.spares h, ?_, ?_, ?_, ?_⟩
  · rw [hs.signal]
    exact ha.sound.signal
  · rw [hs.runtime]
    exact ha.sound.upstream
  · rw [hs.consumer]
    exact ha.sound.ops
  · unfold FlightOpen
    rw [hs.consumer]
    exact ha.flight
  · rw [hs.stage, hs.handled]
    exact ha.handled
  · rw [hs.stage]
    exact ha.lastly
  · intro hdone
    refine (ha.answered ?_).congr hs.prepared hs.signal hs.handled hs.runtime
    unfold Run.Completing at hdone ⊢
    rw [hs.stage] at hdone
    exact hdone.imp hcompleted id
  · unfold Run.late
    rw [hs.stage]
    exact fun hdone => ha.isLate (hcompleted hdone)

theorem Answering.thrown (h : Answering r) (hmirrored : Mirrored r.thrown) :
    Answering r.thrown := by
  have hk := Run.keeps_thrown (r := r)
  refine h.after (hk.sound h.sound) (hk.flightOpen h.flight) hmirrored Run.late_thrown
    (fun hc => .inl (completed_congr (Run.silent_thrown r).queue hc)) hk.prepared hk.signal ?_
    (Run.runtime_thrown r)
  unfold Run.thrown
  simp only
  split
  · rfl
  · rfl
  · rfl
  · exact handled_cleanup _

theorem answering_initial (prepared : PreparedExecution) :
    Answering (Run.initial prepared) := by
  refine ⟨⟨?_, ?_, ?_⟩, ?_, mirrored_initial prepared, ?_, ?_, ?_, ?_⟩
  · exact fun e he => by cases he
  · exact fun e he => by cases he
  · exact fun c hc => by cases hc
  · exact fun c e hc => by cases hc
  · exact fun response hs => by cases hs
  · exact fun e rest hs => by cases hs
  · rintro (⟨metadata, hmem⟩ | ⟨e, rest, metadata, hs, -⟩)
    · cases hmem
    · cases hs
  · rintro ⟨metadata, hmem⟩
    cases hmem

theorem answering_step (h : Answering r) (hdelivered : Delivered r act)
    (hstep : r.act act = some r') : Answering r' := by
  have hmirrored := mirrored_step h.mirrored hdelivered hstep
  rcases Run.act_cases hstep with ⟨a, rfl, ha⟩ | ⟨c, hc, hmove⟩ | ⟨rfl, -, rfl⟩ | ⟨a, rfl, ha⟩
  · rcases Run.step_cases ha with ⟨-, -, rfl⟩ | ⟨-, hr⟩
    · exact h.thrown hmirrored
    · exact h.resumes rfl hr
  · exact hmove.answering hc h hdelivered
  · exact ⟨⟨h.sound.signal, h.sound.upstream, h.sound.ops⟩, h.flight, hmirrored, h.handled,
      h.lastly, h.answered, h.isLate⟩
  · exact h.spares (Run.cancelStep_cases ha)

/-! ## §7  Client reconstruction -/

/-- The task's id, from its first solid character on. -/
def Run.solidTaskId (r : Run) : Text := r.prepared.taskId.dropWhile isSpace

theorem nonempty?_textLane (r : Run) :
    nonempty? r.config.textLane = some (r.solidTaskId ++ ":stream:text".toList) := by
  have hcore : Strip.Core isSpace ":stream:text".toList := ⟨by decide, by decide⟩
  have hlane : r.config.textLane = r.prepared.taskId ++ ":stream:text".toList := by
    change r.prepared.taskId ++ ":stream".toList ++ ":text".toList = _
    rw [List.append_assoc]
    rfl
  have hstrip : r.config.textLane.strip = r.solidTaskId ++ ":stream:text".toList := by
    rw [hlane]
    exact Strip.strip_append_core r.prepared.taskId hcore
  unfold nonempty?
  rw [hstrip, if_neg (List.append_ne_nil_of_right_ne_nil _ (by decide))]

/-- The artifact that the coordinator finds is the text's, with its id as it is or
stripped. -/
theorem resolvedLane_cases (h : Stocked r) : r.resolvedLane = r.config.textLane ∨
    r.resolvedLane = r.solidTaskId ++ ":stream:text".toList := by
  unfold Run.resolvedLane StreamOutputState.resolveTextArtifactId
  rcases h.textLane with hnone | hsome
  · rw [hnone]
    exact .inl rfl
  · have hlane := nonempty?_textLane r
    obtain ⟨hstrip, hblank⟩ := nonempty?_eq_some hlane
    have hagain : nonempty? (r.solidTaskId ++ ":stream:text".toList) =
        some (r.solidTaskId ++ ":stream:text".toList) := by
      rw [hstrip, nonempty?_of_not_blank (Text.not_blank_strip hblank), Text.strip_strip]
    rw [hsome, hlane, Option.bind_some, hagain]
    exact .inr rfl

/-- The coordinator finds the artifact under the id that its chunks were sent
under, unless the task's id begins with white space. -/
theorem resolvedLane_eq (h : Stocked r) (hid : r.solidTaskId = r.prepared.taskId) :
    r.resolvedLane = r.config.textLane := by
  rcases resolvedLane_cases h with heq | heq
  · exact heq
  · rw [heq, hid]
    change r.prepared.taskId ++ ":stream:text".toList =
      r.prepared.taskId ++ ":stream".toList ++ ":text".toList
    rw [List.append_assoc]
    rfl

theorem plain_of_textLane {x : Text} (hx : x.length ≤ r.prepared.taskId.length) :
    r.Plain (x ++ ":stream:text".toList) := by
  have hlength : (":stream:text".toList).length = 12 := by decide
  have hstream : (":stream".toList).length = 7 := by decide
  have hlast : (x ++ ":stream:text".toList).getLast? = some 't' := by simp
  refine ⟨not_toolLane_of_length ?_ ?_, ?_⟩
  · change _ ≤ (r.prepared.taskId ++ ":stream".toList).length + 5
    rw [List.length_append, List.length_append, hlength, hstream]
    omega
  · rw [hlast]
    decide
  · intro heq
    have herror : r.errorLane.getLast? = some 'r' := by simp [Run.errorLane]
    rw [heq, herror] at hlast
    exact absurd hlast (by decide)

theorem plain_textLane (r : Run) : r.Plain r.config.textLane := by
  have h := plain_of_textLane (r := r) (Nat.le_refl r.prepared.taskId.length)
  have hlane : r.config.textLane = r.prepared.taskId ++ ":stream:text".toList := by
    change r.prepared.taskId ++ ":stream".toList ++ ":text".toList = _
    rw [List.append_assoc]
    rfl
  rwa [hlane]

theorem plain_reasoningLane (r : Run) : r.Plain r.config.reasoningLane := by
  refine ⟨not_toolLane_reasoning, ?_⟩
  intro heq
  have hlast : r.config.reasoningLane.getLast? = some 'g' := by simp [Config.reasoningLane]
  have herror : r.errorLane.getLast? = some 'r' := by simp [Run.errorLane]
  rw [heq, herror] at hlast
  exact absurd hlast (by decide)

theorem plain_resolvedLane (h : Stocked r) : r.Plain r.resolvedLane := by
  rcases resolvedLane_cases h with heq | heq
  · rw [heq]
    exact plain_textLane r
  · rw [heq]
    exact plain_of_textLane (List.dropWhile_suffix _).length_le

/-- Once an update of a lane is put, no other one of that lane is on its way. -/
theorem Answering.put_update (h : Answering r) (h' : Answering r')
    (hstep : r.act act = some r') {u : ArtifactUpdate} (hsent : r'.sent = r.sent ++ [u])
    (hid : r.Plain u.artifactId) : laneOf u.artifactId (r'.inFlight ++ r'.due) = [] := by
  have hnot : r'.queue ≠ r.queue := by
    intro hq
    unfold Run.sent at hsent
    rw [hq] at hsent
    exact absurd (List.self_eq_append_right.mp hsent) (List.cons_ne_nil _ _)
  rcases Run.act_cases hstep with ⟨a, rfl, ha⟩ | ⟨c, hc, hmove⟩ | ⟨rfl, -, rfl⟩ | ⟨a, rfl, ha⟩
  · have hk := Run.step_keeps ha
    rcases Run.step_cases ha with ⟨-, -, rfl⟩ | ⟨-, hr⟩
    · exact absurd (Run.silent_thrown r).queue hnot
    · rcases hr.queue with hq | ⟨-, hq⟩ | ⟨e, rest, hs, hq⟩
      · exact absurd hq hnot
      · unfold Run.sent at hsent
        rw [hq, sentOf_concat] at hsent
        exact absurd (List.append_cancel_left hsent) (List.cons_ne_nil _ _).symm
      · unfold Run.sent at hsent
        rw [hq, sentOf_concat] at hsent
        have hu : e.update?.toList = [u] := List.append_cancel_left hsent
        have hdue : r.due = [u] ++ rest.filterMap Event.update? := by
          unfold Run.due
          rw [hs, ← hu]
          cases he : e.update? <;> simp [he]
        -- an update of the coordinator's in a lane of the client is the final snapshot
        have hsignal : r.signal ≠ none := fun hsignal =>
          hid.2 (h.mirrored.due hsignal u (by rw [hdue]; exact List.mem_cons_self ..))
        have hflight := h'.mirrored.inFlight_nil (by rw [hk.signal]; exact hsignal)
        have hrest : rest.filterMap Event.update? = [] := by
          rcases (h.lastly e rest hs).1 with rfl | ⟨state, metadata, rfl⟩ <;> rfl
        have hdue' : r'.due = [] := by
          rw [hs] at hr
          cases hr with
          | emit e e' rest =>
              unfold Run.due
              exact hrest
          | emitLast e => exact due_of_late (Run.late_cleanup _)
          | fail _ e hwhere =>
              rcases hwhere with hw | hw | hw | ⟨response, hw⟩ | ⟨response, hw⟩ <;> cases hw
        rw [hflight, hdue']
        rfl
  · rcases hmove.queue with hq | ⟨e, -, he, hq⟩
    · exact absurd hq hnot
    · have hsignal := h.mirrored.stocked.signal_of_busy hc (.inr (.inr (by
        rw [he]
        exact Option.some_ne_none e)))
      cases hmove with
      | put e' acts ops hcn hst =>
          have hnil := h.mirrored.laneOf_due hsignal hid
          rw [laneOf_append]
          change laneOf u.artifactId [] ++ laneOf u.artifactId r.due = []
          rw [hnil]
          rfl
      | cancelled | streamOver | idle | deliver | signal | signalAgain | op | act | enqueue | tracked =>
          exact absurd rfl hnot
  · exact absurd rfl hnot
  · rcases (Run.cancelStep_cases ha).queue with hq | hq | ⟨message, hq⟩
    · exact absurd hq hnot
    · unfold Run.sent at hsent
      rw [hq, sentOf_concat] at hsent
      exact absurd (List.append_cancel_left hsent) (List.cons_ne_nil _ _).symm
    · unfold Run.sent at hsent
      rw [hq, sentOf_concat] at hsent
      exact absurd (List.append_cancel_left hsent) (List.cons_ne_nil _ _).symm

/-- What the client of a run folds is what the run's output state keeps: at every
moment, counting in what is being enqueued, and right after every update. When
the run has completed, the text is that of the response. -/
theorem client_reconstructs {prepared : PreparedExecution} {acts : List RunAction} {r : Run}
    (h : Machine.Runs Run.act Delivered (Run.initial prepared) acts r) :
    (∀ id, id = r.config.textLane ∨ id = r.config.reasoningLane →
      clientText id (r.sent ++ r.inFlight ++ r.due) = r.runtime.out.content id ∧
      ∀ act r' u, Delivered r act → r.act act = some r' → r'.sent = r.sent ++ [u] →
        u.artifactId = id → clientText id r'.sent = r'.runtime.out.content id) ∧
    (r.Completed → ∃ response, r.handled = some response ∧ (¬ response.text.Blank →
      (clientText r.resolvedLane r.sent).strip = response.text.strip ∧
      (r.solidTaskId = r.prepared.taskId → r.resolvedLane = r.config.textLane))) := by
  have ha : Answering r :=
    h.invariant (fun _ _ _ hi hok hstep => answering_step hi hok hstep)
      (answering_initial prepared)
  refine ⟨?_, ?_⟩
  · intro id hid
    have hplain : r.Plain id := by
      rcases hid with rfl | rfl
      · exact plain_textLane r
      · exact plain_reasoningLane r
    refine ⟨ha.mirrored.text id hplain, ?_⟩
    rintro act r' u hdelivered hstep hsent rfl
    have ha' := answering_step ha hdelivered hstep
    have hprepared : r'.prepared = r.prepared := by
      rcases Run.act_cases hstep with ⟨a, -, hs⟩ | ⟨c, hc, hmove⟩ | ⟨-, -, rfl⟩ | ⟨a, -, hs⟩
      · exact (Run.step_keeps hs).prepared
      · exact hmove.same.prepared
      · rfl
      · exact (Run.cancelStep_cases hs).spares.prepared
    have hnil := ha.put_update ha' hstep hsent hplain
    rw [← ha'.mirrored.text u.artifactId ((plain_congr hprepared).mpr hplain)]
    refine clientText_congr ?_
    rw [List.append_assoc, laneOf_append u.artifactId r'.sent, hnil, List.append_nil]
  · intro hcompleted
    obtain ⟨hsignal, response, hhandled, htext⟩ := ha.answered (.inl hcompleted)
    refine ⟨response, hhandled, ?_⟩
    intro hblank
    refine ⟨?_, resolvedLane_eq ha.mirrored.stocked⟩
    have hfold := ha.mirrored.text _ (plain_resolvedLane ha.mirrored.stocked)
    rw [ha.mirrored.inFlight_nil hsignal, due_of_late (ha.isLate hcompleted), List.append_nil,
      List.append_nil] at hfold
    rw [hfold]
    exact htext.resolve_left hblank

/-- One chunk, up to the next event of the stream. -/
def chunkOf (event : Mapping) : List RunAction :=
  [.deliver event, .consume, .consume, .consume, .consume]

/-- The answer comes in two chunks. -/
def chunkedRun : List RunAction :=
  upToSend ++ chunkOf (snapshotEvent "ab") ++ chunkOf (deltaEvent "b") ++
    [.deliver idleEvent, .consume, .consume,
      .step (.response { exampleResponse with text := "abb".toList }), .step (.toolResults false),
      .step .ok, .step .ok] ++ throughCleanup

def afterChunked : Run := Machine.after Run.act (Run.initial examplePrepared) chunkedRun (by rfl)

/-- The chunks are shown one behind the other, and the text is that of the response. -/
theorem chunked_run_reconstructs :
    afterChunked.Completed ∧
      afterChunked.sent.map (fun u => (u.part, u.append)) =
        [(.text "ab".toList, false), (.text "b".toList, true)] ∧
      ∃ response, afterChunked.handled = some response ∧ response.text = "abb".toList ∧
        (clientText afterChunked.resolvedLane afterChunked.sent).strip = response.text.strip := by
  have hruns : Machine.Runs Run.act Delivered (Run.initial examplePrepared) chunkedRun
      afterChunked :=
    Machine.runs_of_restrict Run.delivers (fun _ _ h => h) (by rfl)
  have hcompleted : afterChunked.Completed := ⟨_, List.mem_of_getLast? rfl⟩
  obtain ⟨response, hhandled, htext⟩ := (client_reconstructs hruns).2 hcompleted
  have hresponse : { exampleResponse with text := "abb".toList } = response :=
    Option.some.inj hhandled
  subst hresponse
  exact ⟨hcompleted, by rfl, _, rfl, rfl, (htext (by decide)).1⟩

end OpencodeA2a.Execution
