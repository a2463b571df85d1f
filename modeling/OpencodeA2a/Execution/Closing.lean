import OpencodeA2a.Execution.Moves

/-!
# The closing status of a streaming run

A run that is not cancelled closes its task with one status, whichever way it
goes: completed, failed, or authentication required. Nothing follows it in the
queue, since the coordinator cancels the consumer without another await in
between, unless a preferred-session claim is still pending, whose release comes
first.
-/

namespace OpencodeA2a.Execution

open OpencodeA2a.Stream

/-! ## §1  Closing events -/

/-- The states a run closes its task with, and the one `cancel` does. -/
def closingState : TaskState → Bool
  | .completed | .failed | .authRequired | .canceled => true
  | .working | .inputRequired => false

/-- `TERMINAL_TASK_STATES`, of the states in use -/
def terminalTaskState : TaskState → Bool
  | .completed | .canceled | .failed => true
  | _ => false

def closing : Event → Bool
  | .task s _ _ _ | .status s _ => closingState s
  | .artifact _ => false

/-- The consumer puts no closing event. -/
theorem act_perform_open {cfg : Config} {s : StreamOutputState} {act : Act} {e : Event}
    (h : (act.perform cfg s).2 = .put e) : closing e = false := by
  cases act with
  | chunk c =>
      simp only [Act.perform] at h
      split at h <;> cases h
      rfl
  | progress | asked | resolved =>
      cases h
      rfl
  | rememberRequest | discardRequest => cases h

/-! ## §2  The errors a run reports -/

/-- An operation reports errors as errors. -/
def soundOp : Op → Prop
  | .terminalSignal (.error e) => e.state.IsError
  | .upstreamError e => e.state.IsError
  | _ => True

theorem soundOp_of_mem_eventOps {cfg : Config} {event : Mapping} {op : Op}
    (h : op ∈ eventOps cfg event) : soundOp op := by
  unfold eventOps at h
  split at h
  · rename_i eventType props htype hprops
    rcases List.mem_append.mp h with h | h
    · split at h
      · unfold sessionOps at h
        simp only [List.mem_append, Option.mem_toList, Option.map_eq_some_iff] at h
        rcases h with ((((h | ⟨e, he, rfl⟩) | ⟨u, -, rfl⟩) | ⟨s, hs, rfl⟩) | ⟨a, -, rfl⟩) |
          ⟨a, -, rfl⟩
        · unfold progressOp? at h
          obtain ⟨part, -, hpart⟩ := Option.bind_eq_some_iff.mp h
          obtain ⟨q, -, rfl⟩ := Option.map_eq_some_iff.mp hpart
          trivial
        · exact extractUpstreamErrorFromEvent_isError he
        · trivial
        · cases s with
          | completed => trivial
          | error e => exact extractStreamTerminalSignal_isError hs
        · trivial
        · trivial
      · cases h
    · simp only [Option.mem_toList, Option.map_eq_some_iff] at h
      obtain ⟨e, -, rfl⟩ := h
      trivial
  · cases h

theorem emitChunk_records (cfg : Config) (s : StreamOutputState) (c : NormalizedStreamChunk) :
    s.SameRecords (emitChunk cfg s c).1 := by
  unfold emitChunk
  split
  · exact .refl s
  · split
    · exact .refl s
    · rename_i s₁ b hreg
      have hs₁ := StreamOutputState.registerChunk_records hreg
      have hs₂ := s₁.rememberTextArtifactId_records c.artifactId
      simp only [StreamOutputState.nextSequence]
      split
      · exact ⟨hs₂.upstreamError.trans hs₁.upstreamError, hs₂.tokenUsage.trans hs₁.tokenUsage⟩
      · exact ⟨hs₁.upstreamError, hs₁.tokenUsage⟩

/-- An act leaves the records alone. -/
theorem act_perform_records (cfg : Config) (s : StreamOutputState) (act : Act) :
    s.SameRecords (act.perform cfg s).1 := by
  cases act with
  | chunk c =>
      have hrecords := emitChunk_records cfg s c
      simp only [Act.perform]
      split <;> rename_i heq <;> rw [heq] at hrecords <;> exact hrecords
  | progress | asked | resolved | rememberRequest | discardRequest => exact ⟨rfl, rfl⟩

/-- So does an operation, but for those that are about them. -/
theorem op_perform_records (cfg : Config) (rt : Runtime) {op : Op}
    (herror : ∀ e, op ≠ .upstreamError e) (husage : ∀ u, op ≠ .usage u) :
    rt.out.SameRecords (op.perform cfg rt).1.out := by
  cases op with
  | upstreamError e => exact absurd rfl (herror e)
  | usage u => exact absurd rfl (husage u)
  | terminalSignal => exact .refl _
  | part e =>
      show rt.out.SameRecords (rt.handlePart cfg e).1.out
      rw [handlePart_out]
      exact .refl _
  | progress i p mid =>
      simp only [Op.perform]
      split
      · exact .refl _
      · rename_i out hout
        exact StreamOutputState.registerProgress_records hout
  | asked a =>
      simp only [Op.perform]
      split
      · exact .refl _
      · rename_i out hout
        exact StreamOutputState.markInterruptPending_records hout
  | resolved a =>
      simp only [Op.perform]
      split
      · exact .refl _
      · rename_i out hout
        exact StreamOutputState.clearInterruptPending_records hout

theorem op_perform_upstreamError (cfg : Config) (rt : Runtime) (op : Op) :
    (op.perform cfg rt).1.out.upstreamError = rt.out.upstreamError ∨
      ∃ e, op = .upstreamError e ∧ (op.perform cfg rt).1.out.upstreamError = some e := by
  cases op with
  | upstreamError e =>
      simp only [Op.perform]
      cases h : rt.out.upstreamError with
      | none => exact .inr ⟨e, rfl, rfl⟩
      | some e' => exact .inl rfl
  | usage => exact .inl rfl
  | progress | terminalSignal | asked | resolved | part =>
      exact .inl (op_perform_records cfg rt (fun _ hcon => by cases hcon)
        (fun _ hcon => by cases hcon)).upstreamError

/-- The errors the run knows of are errors. -/
structure Sound (r : Run) : Prop where
  signal : ∀ e, r.signal = some (.error e) → e.state.IsError
  upstream : ∀ e, r.runtime.out.upstreamError = some e → e.state.IsError
  ops : ∀ c, r.consumer = some c → ∀ op ∈ c.stage.ops, soundOp op

variable {r r' : Run} {c : Consumer} {act : RunAction}

theorem Run.Consumes.sound (h : r.Consumes c act r') (hc : r.consumer = some c) (hs : Sound r) :
    Sound r' := by
  have hops : ∀ c', r'.consumer = some c' → ∀ op ∈ c'.stage.ops, soundOp op := by
    intro c' hc' op hop
    rcases h.ops hc' with hsub | ⟨event, -, -, hstage⟩
    · exact hs.ops c hc op (hsub op hop)
    · rw [hstage] at hop
      exact soundOp_of_mem_eventOps hop
  cases h with
  | signal s ops hcn hstage hsignal =>
      refine ⟨?_, hs.upstream, hops⟩
      intro e he
      cases he
      exact hs.ops c hc (.terminalSignal (.error e)) (by rw [hstage]; exact List.mem_cons_self ..)
  | op op ops hcn hstage hop =>
      refine ⟨hs.signal, ?_, hops⟩
      intro e he
      rcases op_perform_upstreamError r.config r.runtime op with hsame | ⟨e', rfl, hnew⟩
      · exact hs.upstream e (hsame ▸ he)
      · have heq : e' = e := Option.some.inj (hnew.symm.trans he)
        rw [← heq]
        exact hs.ops c hc (.upstreamError e') (by rw [hstage]; exact List.mem_cons_self ..)
  | act act acts ops stage hcn hstage hst hput =>
      refine ⟨hs.signal, ?_, hops⟩
      intro e he
      exact hs.upstream e ((act_perform_records r.config r.runtime.out act).upstreamError ▸ he)
  | enqueue act acts ops e hcn hstage hput =>
      refine ⟨hs.signal, ?_, hops⟩
      intro e he
      exact hs.upstream e ((act_perform_records r.config r.runtime.out act).upstreamError ▸ he)
  | cancelled | streamOver | idle | deliver | signalAgain | put | tracked =>
      exact ⟨hs.signal, hs.upstream, hops⟩

theorem Run.Keeps.sound (h : r.Keeps r') (hs : Sound r) : Sound r' := by
  refine ⟨?_, ?_, ?_⟩
  · intro e he
    exact hs.signal e (h.signal ▸ he)
  · intro e he
    exact hs.upstream e (h.upstreamError ▸ he)
  · intro c' hc' op hop
    rcases h.consumer c' hc' with hw | ⟨c, hc, hstage, -⟩
    · rw [hw] at hop
      cases hop
    · exact hs.ops c hc op (hstage ▸ hop)

/-! ## §3  Before and after the closing status -/

/-- The states that a run which is not cancelled ends its task with. -/
def FinalState (s : TaskState) : Prop := s = .completed ∨ s.IsError

theorem FinalState.closing {s : TaskState} (h : FinalState s) : closingState s = true := by
  rcases h with rfl | rfl | rfl <;> rfl

/-- Nothing closing is in the queue yet. -/
def Unclosed (r : Run) : Prop := ∀ x ∈ r.queue, closing x.2 = false

/-- One closing status is in the queue, the run's, and the last event but for
what the consumer may put while a claim is pending. -/
def Closed (r : Run) : Prop :=
  ∃ before s metadata after, r.queue = before ++ (.run, .status s metadata) :: after ∧
    FinalState s ∧ (∀ x ∈ before ++ after, closing x.2 = false) ∧
    (r.pending = false → after = [])

/-- The events a streaming run ends with: the last one closes it, no other does. -/
def Ending (e : Event) (rest : List Event) : Prop :=
  ∃ before s metadata, e :: rest = before ++ [.status s metadata] ∧ FinalState s ∧
    ∀ x ∈ before, closing x = false

/-- How far the run is. -/
def Phase (r : Run) : Prop :=
  match r.stage with
  | .emitting e rest => Unclosed r ∧ Ending e rest
  | .releasing => Closed r ∧ r.pending = true
  | .stopping | .checking | .unregistering | .ended =>
      Closed r ∧ ∀ c, r.consumer = some c → c.cancelled = true
  | _ => Unclosed r

/-- Whatever the phase, the queue has no closing event yet, or its one. -/
theorem Phase.unclosed_or_closed (h : Phase r) : (Unclosed r ∧ r.stage ≠ .ended) ∨ Closed r := by
  unfold Phase at h
  split at h <;> rename_i hs
  · exact .inl ⟨h.1, by rw [hs]; exact fun hcon => by cases hcon⟩
  all_goals first | exact .inr h.1 | skip
  exact .inl ⟨h, hs⟩

theorem Unclosed.put (h : Unclosed r) {author : Author} {e : Event} (he : closing e = false) :
    Unclosed (r.put author e) := by
  intro x hx
  rcases List.mem_append.mp hx with hx | hx
  · exact h x hx
  · obtain rfl := List.mem_singleton.mp hx
    exact he

theorem Unclosed.close (h : Unclosed r) {s : TaskState} {metadata : OutputMetadata}
    (hs : FinalState s) : Closed (r.put .run (.status s metadata)) := by
  refine ⟨r.queue, s, metadata, [], rfl, hs, ?_, fun _ => rfl⟩
  rw [List.append_nil]
  exact h

/-- While a claim is pending, events that do not close anything may follow. -/
theorem Closed.put (h : Closed r) {author : Author} {e : Event} (he : closing e = false)
    (hpending : r.pending = true) : Closed (r.put author e) := by
  obtain ⟨before, s, metadata, after, hq, hs, hopen, -⟩ := h
  refine ⟨before, s, metadata, after ++ [(author, e)], ?_, hs, ?_, ?_⟩
  · change r.queue ++ [(author, e)] = _
    rw [hq, List.append_assoc, List.cons_append]
  · intro x hx
    rw [← List.append_assoc] at hx
    rcases List.mem_append.mp hx with hx | hx
    · exact hopen x hx
    · obtain rfl := List.mem_singleton.mp hx
      exact he
  · intro hp
    exact absurd (hpending.symm.trans hp) (by decide)

theorem phase_emitError (h : Unclosed r) {e : ErrorReport} (he : e.state.IsError) :
    Phase (r.emitError true e) := by
  refine ⟨h, [_], e.state, _, rfl, .inr he, ?_⟩
  intro x hx
  obtain rfl := List.mem_singleton.mp hx
  rfl

theorem phase_complete (h : Unclosed r) (response : OpencodeMessage) :
    Phase (r.complete response) := by
  unfold Run.complete
  simp only
  split
  · exact ⟨h, [], .completed, _, rfl, .inl rfl, fun x hx => by cases hx⟩
  · refine ⟨h, [_], .completed, _, rfl, .inl rfl, ?_⟩
    intro x hx
    obtain rfl := List.mem_singleton.mp hx
    rfl

theorem phase_handleSignal (h : Unclosed r) (hs : Sound r) (response : OpencodeMessage)
    {signal : TerminalSignal} (hsignal : r.signal = some signal) :
    Phase (r.handleSignal response signal) := by
  cases signal with
  | error e => exact phase_emitError h (hs.signal e hsignal)
  | completed =>
      simp only [Run.handleSignal]
      split
      · rename_i e he
        exact phase_emitError h (hs.upstream e he)
      · exact phase_complete h response

theorem phase_handleResponse (h : Unclosed r) (hstream : r.prepared.streamingRequest = true)
    (response : OpencodeMessage) : Phase (r.handleResponse response) := by
  unfold Run.handleResponse
  simp only [hstream]
  split
  · rename_i e he
    exact phase_emitError h (extractUpstreamErrorFromResponse_isError he)
  · exact h

theorem phase_stopConsumer (h : Closed r) : Phase r.stopConsumer := by
  unfold Run.stopConsumer
  split
  · refine ⟨h, ?_⟩
    intro c hc
    cases hc
    rfl
  · rename_i hnone
    refine ⟨h, ?_⟩
    intro c hc
    rw [hnone] at hc
    cases hc

theorem phase_cleanup (h : Closed r) : Phase r.cleanup := by
  unfold Run.cleanup
  split
  · rename_i hp
    rw [Bool.and_eq_true] at hp
    exact ⟨h, hp.1⟩
  · exact phase_stopConsumer h

/-- The first of the ending's events is put: the rest is an ending, or nothing
is left. -/
theorem Ending.next {e e' : Event} {rest : List Event} (h : Ending e (e' :: rest)) :
    closing e = false ∧ Ending e' rest := by
  obtain ⟨before, s, metadata, heq, hs, hopen⟩ := h
  cases before with
  | nil => cases heq
  | cons x before =>
      obtain ⟨rfl, htail⟩ := List.cons.inj heq
      refine ⟨hopen e (List.mem_cons_self ..), before, s, metadata, htail, hs, ?_⟩
      intro y hy
      exact hopen y (List.mem_cons_of_mem e hy)

theorem Ending.last {e : Event} (h : Ending e []) :
    ∃ s metadata, e = .status s metadata ∧ FinalState s := by
  obtain ⟨before, s, metadata, heq, hs, -⟩ := h
  cases before with
  | nil =>
      obtain ⟨rfl, -⟩ := List.cons.inj heq
      exact ⟨s, metadata, rfl, hs⟩
  | cons x before =>
      obtain ⟨-, heq⟩ := List.cons.inj heq
      exact absurd heq.symm (List.append_ne_nil_of_right_ne_nil _ (List.cons_ne_nil _ _))

/-! ## §4  The steps -/

theorem phase_resumes (h : Phase r) (hs : Sound r) (hstream : r.prepared.streamingRequest = true)
    {stage : Stage} (hstage : r.stage = stage) (hr : r.Resumes stage r') : Phase r' := by
  unfold Phase at h
  rw [hstage] at h
  cases hr with
  | register | bind | lock | acquireAtOnce | wait | acquire | turn | finalize => exact h
  | record =>
      unfold Run.afterRecording
      simp only [hstream, Bool.true_or, if_true]
      exact h
  | snapshot => exact Unclosed.put h rfl
  | respond response =>
      change Unclosed r at h
      by_cases hp : r.pending = true
      · simp only [hp, if_true]
        exact h
      · simp only [hp]
        exact h
  | handle response => exact phase_handleResponse h hstream response
  | signal response signal hsignal => exact phase_handleSignal h hs response hsignal
  | noSignal response e hsignal hdone =>
      unfold Run.except
      rw [hstream]
      exact phase_emitError h e.report_isError
  | emit e e' rest =>
      obtain ⟨hopen, hend⟩ := h.2.next
      exact ⟨h.1.put hopen, hend⟩
  | emitLast e =>
      obtain ⟨s, metadata, rfl, hfinal⟩ := h.2.last
      exact phase_cleanup (h.1.close hfinal)
  | release => exact phase_stopConsumer h.1
  | stop hdone => exact h
  | check => exact h
  | unregister => exact h
  | fail stage e hwhere =>
      have hopen : Unclosed r := by
        rcases hwhere with rfl | rfl | rfl | ⟨response, rfl⟩ | ⟨response, rfl⟩ <;> exact h
      unfold Run.except
      rw [hstream]
      exact phase_emitError hopen e.report_isError

/-- What the consumer has in flight closes nothing. -/
def FlightOpen (r : Run) : Prop :=
  ∀ c e, r.consumer = some c → c.stage.inFlight = some e → closing e = false

theorem Run.Consumes.flightOpen (h : r.Consumes c act r') : FlightOpen r' := by
  intro c' e hc' he
  obtain ⟨act, acts, ops, -, hput⟩ := h.inFlight hc' he
  exact act_perform_open hput

theorem Run.Keeps.flightOpen (h : r.Keeps r') (hf : FlightOpen r) : FlightOpen r' := by
  intro c' e hc' he
  rcases h.consumer c' hc' with hw | ⟨c, hc, hstage, -⟩
  · rw [hw] at he
    cases he
  · exact hf c e hc (hstage ▸ he)

theorem Run.Consumes.unclosed (h : r.Consumes c act r') (hc : r.consumer = some c)
    (hf : FlightOpen r) (hu : Unclosed r) : Unclosed r' := by
  unfold Unclosed
  rcases h.queue with hq | ⟨e, -, he, hq⟩
  · rw [hq]
    exact hu
  · rw [hq]
    exact hu.put (hf c e hc he)

theorem Run.Consumes.closed (h : r.Consumes c act r') (hc : r.consumer = some c) (hf : FlightOpen r)
    (hclosed : Closed r) (hlate : r.pending = true ∨ c.cancelled = true) : Closed r' := by
  unfold Closed
  rw [h.same.pending]
  rcases h.queue with hq | ⟨e, hnot, he, hq⟩
  · rw [hq]
    exact hclosed
  · have hpending : r.pending = true := by
      rcases hlate with hp | hcan
      · exact hp
      · exact absurd (hcan.symm.trans hnot) (by decide)
    rw [hq]
    exact hclosed.put (hf c e hc he) hpending

/-- The consumer puts only what closes nothing, and once it is cancelled nothing. -/
theorem Run.Consumes.phase (h : r.Consumes c act r') (hc : r.consumer = some c) (hf : FlightOpen r)
    (hphase : Phase r) : Phase r' := by
  have hlate : (Closed r ∧ ∀ c, r.consumer = some c → c.cancelled = true) →
      Closed r' ∧ ∀ c', r'.consumer = some c' → c'.cancelled = true := by
    rintro ⟨hclosed, hall⟩
    refine ⟨h.closed hc hf hclosed (.inr (hall c hc)), ?_⟩
    intro c' hc'
    obtain ⟨stage, hr'⟩ := h.consumer
    rw [hr'] at hc'
    cases hc'
    exact hall c hc
  unfold Phase at hphase ⊢
  rw [h.same.stage]
  split at hphase
  · exact ⟨h.unclosed hc hf hphase.1, hphase.2⟩
  · exact ⟨h.closed hc hf hphase.1 (.inl hphase.2), h.same.pending ▸ hphase.2⟩
  · exact hlate hphase
  · exact hlate hphase
  · exact hlate hphase
  · exact hlate hphase
  · exact h.unclosed hc hf hphase

/-- A streaming run nobody cancels, on its way. -/
structure Underway (r : Run) : Prop where
  streaming : r.prepared.streamingRequest = true
  uncancelled : r.cancelRequested = false
  sound : Sound r
  flight : FlightOpen r
  phase : Phase r

/-- Neither the run nor its task is cancelled. -/
def Uncancelled (_ : Run) (act : RunAction) : Prop :=
  act ≠ .cancel ∧ ∀ a, act ≠ .cancelStep a

theorem underway_initial {prepared : PreparedExecution} (h : prepared.streamingRequest = true) :
    Underway (Run.initial prepared) := by
  refine ⟨h, rfl, ⟨?_, ?_, ?_⟩, ?_, ?_⟩
  · exact fun e he => by cases he
  · exact fun e he => by cases he
  · exact fun c hc => by cases hc
  · exact fun c e hc => by cases hc
  · exact fun x hx => by cases hx

theorem underway_step (h : Underway r) (hact : Uncancelled r act)
    (hstep : r.act act = some r') : Underway r' := by
  rcases Run.act_cases hstep with ⟨a, -, ha⟩ | ⟨c, hc, hmove⟩ | ⟨rfl, -, -⟩ | ⟨a, rfl, -⟩
  · have hkeeps := Run.step_keeps ha
    have huncancelled : r'.cancelRequested = false := by
      rw [← Bool.not_eq_true]
      intro hcan
      exact absurd (h.uncancelled.symm.trans (hkeeps.cancelRequested hcan)) (by decide)
    refine ⟨hkeeps.prepared ▸ h.streaming, huncancelled, hkeeps.sound h.sound,
      hkeeps.flightOpen h.flight, ?_⟩
    rcases Run.step_cases ha with ⟨hcan, -, -⟩ | ⟨-, hr⟩
    · exact absurd (h.uncancelled.symm.trans hcan) (by decide)
    · exact phase_resumes h.phase h.sound h.streaming rfl hr
  · have hsame := hmove.same
    exact ⟨hsame.prepared ▸ h.streaming, hsame.cancelRequested.trans h.uncancelled,
      hmove.sound hc h.sound, hmove.flightOpen, hmove.phase hc h.flight h.phase⟩
  · exact absurd rfl hact.1
  · exact absurd rfl (hact.2 a)

/-! ## §5  One closing status, and it is last -/

/-- A streaming run that is not cancelled enqueues nothing closing until it
enqueues its one closing status, and it does not end without; nothing follows
that status unless a preferred-session claim was still pending. -/
theorem one_closing_status {prepared : PreparedExecution}
    (hstream : prepared.streamingRequest = true) {acts : List RunAction} {r : Run}
    (h : Machine.Runs Run.act Uncancelled (Run.initial prepared) acts r) :
    (Unclosed r ∧ r.stage ≠ .ended) ∨ Closed r := by
  have hunderway : Underway r :=
    h.invariant (fun _ _ _ hi hok hstep => underway_step hi hok hstep) (underway_initial hstream)
  exact hunderway.phase.unclosed_or_closed

/-! The runs of the examples: one streaming message. -/

def examplePrepared : PreparedExecution :=
  { taskId := "task-1".toList, contextId := "context-1".toList, userText := "hi".toList,
    streamingRequest := true, returnImmediately := false, allowStructuredOutput := true,
    emitSessionMetadata := true, emitStreamingMetadata := true, emitInterruptMetadata := true,
    dumps := fun _ _ => [], numerics := .integers, redact := id }

/-- Up to the first call of `send_message`. -/
def upToSend : List RunAction :=
  [.step .ok, .step (.bound "session-1".toList false), .step .ok, .step (.acquired true),
    .step .ok, .step .ok]

/-- The end of a run: the consumer stops, the registries are cleared. -/
def throughCleanup : List RunAction := [.consume, .step .ok, .step .ok, .step .ok]

def idleEvent : Mapping :=
  [("type".toList, .str "session.idle".toList),
    ("properties".toList, .obj [("sessionID".toList, .str "session-1".toList)])]

def exampleResponse : OpencodeMessage :=
  { text := "hello".toList, sessionId := "session-1".toList, messageId := none, raw := [] }

def completedRun : List RunAction :=
  upToSend ++ [.step (.response exampleResponse), .deliver idleEvent, .consume, .consume,
    .step (.toolResults false), .step .ok, .step .ok, .step .ok] ++ throughCleanup

/-- The upstream answers with status 401. -/
def unauthorizedRun : List RunAction :=
  upToSend ++ [.step (.failed (.httpStatus 401 "401".toList none)), .step .ok, .step .ok] ++
    throughCleanup

def afterCompleted : Run :=
  Machine.after Run.act (Run.initial examplePrepared) completedRun (by rfl)

def afterUnauthorized : Run :=
  Machine.after Run.act (Run.initial examplePrepared) unauthorizedRun (by rfl)

theorem runs_of_uncancelled {acts : List RunAction} {r : Run}
    (hacts : acts.all fun
      | .cancel | .cancelStep _ => false
      | _ => true)
    (h : Machine.run Run.act (Run.initial examplePrepared) acts = some r) :
    Machine.Runs Run.act Uncancelled (Run.initial examplePrepared) acts r := by
  refine Machine.runs_of_run ?_ h
  intro act hact _
  have hcheck := List.all_eq_true.mp hacts act hact
  refine ⟨?_, ?_⟩
  · rintro rfl
    cases hcheck
  · rintro a rfl
    cases hcheck

theorem completed_run_closes_once :
    afterCompleted.stage = .ended ∧ afterCompleted.pending = false ∧ Closed afterCompleted := by
  have hruns : Machine.Runs Run.act Uncancelled (Run.initial examplePrepared) completedRun
      afterCompleted := runs_of_uncancelled (by rfl) (Machine.run_after (by rfl))
  rcases one_closing_status (by rfl) hruns with ⟨-, hopen⟩ | hclosed
  · exact absurd rfl hopen
  · exact ⟨rfl, rfl, hclosed⟩

/-- Authentication is required: the run ends without a terminal status. -/
theorem unauthorized_run_is_not_terminal :
    Machine.Runs Run.act Uncancelled (Run.initial examplePrepared) unauthorizedRun
        afterUnauthorized ∧
      afterUnauthorized.stage = .ended ∧
      ∀ x ∈ afterUnauthorized.queue, ∀ s metadata, x.2 = .status s metadata →
        terminalTaskState s = false := by
  refine ⟨runs_of_uncancelled (by rfl) (Machine.run_after (by rfl)), rfl, ?_⟩
  have hqueue : ∃ u m, afterUnauthorized.queue =
      [(.run, .task .working [] none {}), (.run, .artifact u), (.run, .status .authRequired m)] :=
    ⟨_, _, rfl⟩
  obtain ⟨u, m, hq⟩ := hqueue
  rw [hq]
  intro x hx s metadata hs
  simp only [List.mem_cons, List.not_mem_nil, or_false] at hx
  rcases hx with rfl | rfl | rfl <;> cases hs
  rfl

end OpencodeA2a.Execution
