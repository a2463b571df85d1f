import OpencodeA2a.Execution.Run

/-!
# What a step of a run can do

Every move of the coordinator and of the consumer, once and for all: the
invariants of the run go by these cases.
-/

namespace OpencodeA2a.Execution

open OpencodeA2a.Stream

variable {r r' : Run}

/-! ## §1  The coordinator -/

/-- The coordinator, at the given await, goes on after an answer. -/
inductive Run.Resumes (r : Run) : Stage → Run → Prop
  | register : Resumes r .registering { r with registered := true, stage := .binding }
  | bind (session : Text) (pending : Bool) : Resumes r .binding
      { r with session := session, pending := pending, stage := .locking }
  | lock : Resumes r .locking { r with stage := .entering }
  | acquireAtOnce : Resumes r .entering { r with holding := true, stage := .recording }
  | wait : Resumes r .entering { r with stage := .waiting }
  | acquire : Resumes r .waiting { r with holding := true, stage := .recording }
  | record : Resumes r .recording
      (if r.prepared.streamingRequest then
        { { r with recorded := true } with consumer := some {} }.afterRecording
      else { r with recorded := true }.afterRecording)
  | snapshot : Resumes r .snapshot
      { r.put .run (.task .working [] none {}) with stage := .sending }
  | respond (response : OpencodeMessage) : Resumes r .sending
      { r with stage := if r.pending then .finalizing response else .tools response }
  | finalize (response : OpencodeMessage) : Resumes r (.finalizing response)
      { r with pending := false, stage := .tools response }
  | turn (response : OpencodeMessage) : Resumes r (.tools response) { r with stage := .sending }
  | handle (response : OpencodeMessage) : Resumes r (.tools response) (r.handleResponse response)
  | signal (response : OpencodeMessage) (signal : TerminalSignal) (h : r.signal = some signal) :
      Resumes r (.awaitingSignal response) (r.handleSignal response signal)
  | noSignal (response : OpencodeMessage) (e : Failure) (h : r.signal = none)
      (hdone : r.consumerDone = true) : Resumes r (.awaitingSignal response) (r.except e)
  | emit (e e' : Event) (rest : List Event) : Resumes r (.emitting e (e' :: rest))
      { r.put .run e with stage := .emitting e' rest }
  | emitLast (e : Event) : Resumes r (.emitting e []) (r.put .run e).cleanup
  | release : Resumes r .releasing r.stopConsumer
  | stop (hdone : r.consumerDone = true) : Resumes r .stopping
      { r with cancelRequested := false, stage := .checking }
  | check : Resumes r .checking { r with holding := false, stage := .unregistering }
  | unregister : Resumes r .unregistering
      { r with registered := false, recorded := false, stage := .ended }
  | fail (stage : Stage) (e : Failure) (h : stage = .binding ∨ stage = .locking ∨
      stage = .sending ∨ (∃ response, stage = .finalizing response) ∨
      ∃ response, stage = .tools response) : Resumes r stage (r.except e)

theorem Run.resume_cases {a : Answer} (h : r.resume a = some r') : r.Resumes r.stage r' := by
  unfold Run.resume at h
  split at h <;> rename_i hs <;> try rw [hs]
  case h_13 response =>
      split at h
      · rename_i signal hsignal
        cases h
        exact .signal response signal hsignal
      · rename_i hsignal
        split at h
        · rename_i hdone
          cases h
          exact .noSignal response _ hsignal hdone
        · cases h
  case h_18 =>
      split at h
      · rename_i hdone
        cases h
        exact .stop hdone
      · cases h
  all_goals cases h
  case h_1 => exact .register
  case h_2 => exact .bind _ _
  case h_3 => exact .lock
  case h_4 => exact .acquireAtOnce
  case h_5 => exact .wait
  case h_6 => exact .acquire
  case h_7 => exact .record
  case h_8 => exact .snapshot
  case h_9 => exact .respond _
  case h_10 => exact .finalize _
  case h_11 => exact .turn _
  case h_12 => exact .handle _
  case h_14 => exact .emit _ _ _
  case h_15 => exact .emitLast _
  case h_16 => exact .release
  case h_17 => exact .release
  case h_19 => exact .check
  case h_20 => exact .unregister
  case h_21 => exact .fail _ _ (.inl rfl)
  case h_22 => exact .fail _ _ (.inr (.inl rfl))
  case h_23 => exact .fail _ _ (.inr (.inr (.inl rfl)))
  case h_24 => exact .fail _ _ (.inr (.inr (.inr (.inl ⟨_, rfl⟩))))
  case h_25 => exact .fail _ _ (.inr (.inr (.inr (.inr ⟨_, rfl⟩))))

/-- The coordinator is cancelled at its await, or goes on. -/
theorem Run.step_cases {a : Answer} (h : r.step a = some r') :
    (r.cancelRequested = true ∧ r.awaits = true ∧ r' = r.thrown) ∨
      (¬ (r.cancelRequested = true ∧ r.awaits = true) ∧ r.Resumes r.stage r') := by
  unfold Run.step at h
  split at h
  · rename_i hc
    rw [Bool.and_eq_true] at hc
    cases h
    exact .inl ⟨hc.1, hc.2, rfl⟩
  · rename_i hc
    rw [Bool.and_eq_true] at hc
    exact .inr ⟨hc, Run.resume_cases h⟩

/-- The events that the coordinator is about to enqueue. -/
def Run.emits (r : Run) : List Event :=
  match r.stage with
  | .emitting e rest => e :: rest
  | _ => []

/-! ## §2  The consumer -/

/-- A move of the consumer `c`, or of the event stream it waits for. -/
inductive Run.Consumes (r : Run) (c : Consumer) : RunAction → Run → Prop
  | cancelled (hc : c.cancelled = true) : Consumes r c .consume (r.setConsumer c .ended)
  /-- the stream is over, or the run stops -/
  | streamOver (act : RunAction) (hc : c.cancelled = false)
      (hput : ∀ e acts ops, c.stage ≠ .putting e acts ops) :
      Consumes r c act (r.setConsumer c .ended)
  /-- the current event is done with, or given up -/
  | idle (act : RunAction) (hc : c.cancelled = false)
      (hput : ∀ e acts ops, c.stage ≠ .putting e acts ops) :
      Consumes r c act (r.setConsumer c .waiting)
  | deliver (event : Mapping) (hc : c.cancelled = false) (hs : c.stage = .waiting)
      (hstop : r.stop = false) :
      Consumes r c (.deliver event) (r.setConsumer c (.busy [] (eventOps r.config event)))
  | signal (s : TerminalSignal) (ops : List Op) (hc : c.cancelled = false)
      (hs : c.stage = .busy [] (.terminalSignal s :: ops)) (hsignal : r.signal = none) :
      Consumes r c .consume { r.setConsumer c (.busy [] ops) with signal := some s, stop := true }
  | signalAgain (s : TerminalSignal) (ops : List Op) (hc : c.cancelled = false)
      (hs : c.stage = .busy [] (.terminalSignal s :: ops)) (hsignal : r.signal ≠ none) :
      Consumes r c .consume (r.setConsumer c (.busy [] ops))
  | op (op : Op) (ops : List Op) (hc : c.cancelled = false) (hs : c.stage = .busy [] (op :: ops))
      (hop : ∀ s, op ≠ .terminalSignal s) :
      Consumes r c .consume { r.setConsumer c (.busy (op.perform r.config r.runtime).2 ops) with
        runtime := (op.perform r.config r.runtime).1 }
  | act (act : Act) (acts : List Act) (ops : List Op) (stage : ConsumerStage)
      (hc : c.cancelled = false) (hs : c.stage = .busy (act :: acts) ops)
      (hstage : stage = .busy acts ops ∨ stage = .tracking acts ops)
      (hput : ∀ e, (act.perform r.config r.runtime.out).2 ≠ .put e) :
      Consumes r c .consume ({ r with runtime := { r.runtime with
        out := (act.perform r.config r.runtime.out).1 } }.setConsumer c stage)
  | enqueue (act : Act) (acts : List Act) (ops : List Op) (e : Event) (hc : c.cancelled = false)
      (hs : c.stage = .busy (act :: acts) ops)
      (hput : (act.perform r.config r.runtime.out).2 = .put e) :
      Consumes r c .consume ({ r with runtime := { r.runtime with
        out := (act.perform r.config r.runtime.out).1 } }.setConsumer c (.putting e acts ops))
  | put (e : Event) (acts : List Act) (ops : List Op) (hc : c.cancelled = false)
      (hs : c.stage = .putting e acts ops) :
      Consumes r c .consume ((r.put .run e).setConsumer c (.busy acts ops))
  | tracked (acts : List Act) (ops : List Op) (hc : c.cancelled = false)
      (hs : c.stage = .tracking acts ops) : Consumes r c .consume (r.setConsumer c (.busy acts ops))

theorem Run.consume_cases (h : r.consume = some r') :
    ∃ c, r.consumer = some c ∧ r.Consumes c .consume r' := by
  unfold Run.consume at h
  split at h
  · cases h
  · rename_i c hconsumer
    refine ⟨c, hconsumer, ?_⟩
    split at h
    · rename_i hc
      split at h <;> cases h
      exact .cancelled hc
    · rename_i hc
      rw [Bool.not_eq_true] at hc
      split at h <;> rename_i hs <;> try cases h
      case h_3 =>
          exact .idle _ hc (by rw [hs]; intro e acts ops hcon; cases hcon)
      case h_4 s ops =>
          split at h <;> rename_i hsignal <;> cases h
          · exact .signalAgain s ops hc hs (by rw [hsignal]; exact Option.some_ne_none _)
          · exact .signal s ops hc hs hsignal
      case h_5 op ops hop =>
          exact .op op ops hc hs hop
      case h_6 act acts ops =>
          simp only at h
          split at h <;> rename_i heff <;> cases h
          · refine .act act acts ops _ hc hs (.inl rfl) ?_
            intro e hput
            rw [heff] at hput
            cases hput
          · exact .enqueue act acts ops _ hc hs heff
          · refine .act act acts ops _ hc hs (.inr rfl) ?_
            intro e hput
            rw [heff] at hput
            cases hput
      case h_7 e acts ops => exact .put e acts ops hc hs
      case h_8 acts ops => exact .tracked acts ops hc hs

theorem Run.deliver_cases {event : Mapping} (h : r.deliver event = some r') :
    ∃ c, r.consumer = some c ∧ r.Consumes c (.deliver event) r' := by
  unfold Run.deliver at h
  split at h
  · rename_i hconsumer
    refine ⟨_, hconsumer, ?_⟩
    split at h <;> rename_i hstop <;> cases h
    · exact .streamOver _ rfl (fun _ _ _ hcon => by cases hcon)
    · exact .deliver event rfl rfl (Bool.not_eq_true _ ▸ hstop)
  · cases h

theorem Run.close_cases (h : r.close = some r') :
    ∃ c, r.consumer = some c ∧ r.Consumes c .close r' := by
  unfold Run.close at h
  split at h
  · rename_i hconsumer
    cases h
    exact ⟨_, hconsumer, .streamOver _ rfl (fun _ _ _ hcon => by cases hcon)⟩
  · cases h

theorem Run.streamFails_cases (h : r.streamFails = some r') :
    ∃ c, r.consumer = some c ∧ r.Consumes c .streamFails r' := by
  have hgives : ∀ c : Consumer, c.cancelled = false →
      (∀ e acts ops, c.stage ≠ .putting e acts ops) →
      r.Consumes c .streamFails (r.setConsumer c (if r.stop then .ended else .waiting)) := by
    intro c hc hput
    split
    · exact .streamOver _ hc hput
    · exact .idle _ hc hput
  unfold Run.streamFails at h
  split at h
  · rename_i hconsumer
    cases h
    exact ⟨_, hconsumer, hgives _ rfl (fun _ _ _ hcon => by cases hcon)⟩
  · rename_i hconsumer
    cases h
    exact ⟨_, hconsumer, hgives _ rfl (fun _ _ _ hcon => by cases hcon)⟩
  · rename_i hconsumer
    cases h
    exact ⟨_, hconsumer, hgives _ rfl (fun _ _ _ hcon => by cases hcon)⟩
  · cases h

/-- What is left of the current event. -/
def ConsumerStage.ops : ConsumerStage → List Op
  | .busy _ ops | .putting _ _ ops | .tracking _ ops => ops
  | _ => []

def ConsumerStage.acts : ConsumerStage → List Act
  | .busy acts _ | .putting _ acts _ | .tracking acts _ => acts
  | _ => []

/-- The event that is being enqueued. -/
def ConsumerStage.inFlight : ConsumerStage → Option Event
  | .putting e _ _ => some e
  | _ => none

/-- What the coordinator and `executor.cancel` own is the same in both states. -/
structure Run.SameTasks (r r' : Run) : Prop where
  prepared : r'.prepared = r.prepared
  stage : r'.stage = r.stage
  session : r'.session = r.session
  pending : r'.pending = r.pending
  cancelRequested : r'.cancelRequested = r.cancelRequested
  holding : r'.holding = r.holding
  handled : r'.handled = r.handled
  usage : r'.usage = r.usage
  registered : r'.registered = r.registered
  recorded : r'.recorded = r.recorded
  cancelling : r'.cancelling = r.cancelling
  hit : r'.hit = r.hit

variable {c : Consumer} {act : RunAction}

theorem Run.Consumes.same (h : r.Consumes c act r') : r.SameTasks r' := by
  cases h <;> exact ⟨rfl, rfl, rfl, rfl, rfl, rfl, rfl, rfl, rfl, rfl, rfl, rfl⟩

theorem Run.Consumes.consumer (h : r.Consumes c act r') :
    ∃ stage, r'.consumer = some { c with stage := stage } := by
  cases h <;> exact ⟨_, rfl⟩

theorem Run.Consumes.stop (h : r.Consumes c act r') (hstop : r.stop = true) : r'.stop = true := by
  cases h with
  | signal => rfl
  | cancelled | streamOver | idle | deliver | signalAgain | op | act | enqueue | put | tracked =>
      exact hstop

/-- The consumer enqueues the event in flight, unless it is cancelled. -/
theorem Run.Consumes.queue (h : r.Consumes c act r') : r'.queue = r.queue ∨
    ∃ e, c.cancelled = false ∧ c.stage.inFlight = some e ∧ r'.queue = r.queue ++ [(.run, e)] := by
  cases h with
  | put e acts ops hc hs => exact .inr ⟨e, hc, by rw [hs]; rfl, rfl⟩
  | cancelled | streamOver | idle | deliver | signal | signalAgain | op | act | enqueue | tracked =>
      exact .inl rfl

/-- What is in flight was, or is what the next act puts. -/
theorem Run.Consumes.inFlight (h : r.Consumes c act r') {c' : Consumer} (hc' : r'.consumer = some c')
    {e : Event} (he : c'.stage.inFlight = some e) :
    ∃ act acts ops, c.stage = .busy (act :: acts) ops ∧
      (act.perform r.config r.runtime.out).2 = .put e := by
  cases h with
  | enqueue a acts ops e' hc hs hput =>
      cases hc'
      cases he
      exact ⟨a, acts, ops, hs, hput⟩
  | act a acts ops stage hc hs hstage hput =>
      cases hc'
      rcases hstage with rfl | rfl <;> cases he
  | cancelled | streamOver | idle | deliver | signal | signalAgain | op | put | tracked =>
      cases hc'
      cases he

/-- The operations ahead were ahead before, or are those of an event that the
stream has brought. -/
theorem Run.Consumes.ops (h : r.Consumes c act r') {c' : Consumer} (hc' : r'.consumer = some c') :
    (∀ op ∈ c'.stage.ops, op ∈ c.stage.ops) ∨
      ∃ event, act = .deliver event ∧ r.stop = false ∧
        c'.stage = .busy [] (eventOps r.config event) := by
  cases h with
  | deliver event hc hs hstop =>
      cases hc'
      exact .inr ⟨event, rfl, hstop, rfl⟩
  | signal s ops hc hs hsignal | signalAgain s ops hc hs hsignal =>
      cases hc'
      refine .inl fun op hop => ?_
      rw [hs]
      exact List.mem_cons_of_mem _ hop
  | op op ops hc hs hop =>
      cases hc'
      refine .inl fun op hop => ?_
      rw [hs]
      exact List.mem_cons_of_mem _ hop
  | act a acts ops stage hc hs hstage hput =>
      cases hc'
      refine .inl fun op hop => ?_
      rw [hs]
      rcases hstage with rfl | rfl <;> exact hop
  | enqueue act acts ops e hc hs hput =>
      cases hc'
      refine .inl fun op hop => ?_
      rw [hs]
      exact hop
  | put e acts ops hc hs =>
      cases hc'
      refine .inl fun op hop => ?_
      rw [hs]
      exact hop
  | tracked acts ops hc hs =>
      cases hc'
      refine .inl fun op hop => ?_
      rw [hs]
      exact hop
  | cancelled hc | streamOver _ hc hput | idle _ hc hput =>
      cases hc'
      exact .inl fun op hop => by cases hop

/-! ## §3  What the coordinator leaves alone -/

/-- What a move of the coordinator keeps: it draws no signal, notes no upstream
error, cancels but does not move the consumer, and is no step of
`executor.cancel`. -/
structure Run.Keeps (r r' : Run) : Prop where
  prepared : r'.prepared = r.prepared
  signal : r'.signal = r.signal
  upstreamError : r'.runtime.out.upstreamError = r.runtime.out.upstreamError
  cancelRequested : r'.cancelRequested = true → r.cancelRequested = true
  stop : r.stop = true → r'.stop = true
  cancelling : r'.cancelling = r.cancelling
  hit : r'.hit = r.hit
  consumer : ∀ c', r'.consumer = some c' → c'.stage = .waiting ∨
    ∃ c, r.consumer = some c ∧ c'.stage = c.stage ∧ (c.cancelled = true → c'.cancelled = true)

namespace Run

/-- The coordinator moved to another await, no more. -/
theorem Keeps.of_eq (hprepared : r'.prepared = r.prepared) (hsignal : r'.signal = r.signal)
    (hupstream : r'.runtime.out.upstreamError = r.runtime.out.upstreamError)
    (hcancel : r'.cancelRequested = r.cancelRequested) (hstop : r'.stop = r.stop)
    (hcancelling : r'.cancelling = r.cancelling) (hhit : r'.hit = r.hit)
    (hconsumer : r'.consumer = r.consumer) : r.Keeps r' := by
  refine ⟨hprepared, hsignal, hupstream, fun h => hcancel ▸ h, fun h => hstop ▸ h, hcancelling,
    hhit, ?_⟩
  intro c hc
  exact .inr ⟨c, hconsumer ▸ hc, rfl, id⟩

theorem Keeps.trans {r'' : Run} (h : r.Keeps r') (h' : r'.Keeps r'') : r.Keeps r'' := by
  refine ⟨h'.prepared.trans h.prepared, h'.signal.trans h.signal,
    h'.upstreamError.trans h.upstreamError, fun hc => h.cancelRequested (h'.cancelRequested hc),
    fun hs => h'.stop (h.stop hs), h'.cancelling.trans h.cancelling, h'.hit.trans h.hit, ?_⟩
  intro c'' hc''
  rcases h'.consumer c'' hc'' with hw | ⟨c', hc', hstage', hcan'⟩
  · exact .inl hw
  · rcases h.consumer c' hc' with hw | ⟨c, hc, hstage, hcan⟩
    · exact .inl (hstage'.trans hw)
    · exact .inr ⟨c, hc, hstage'.trans hstage, fun h => hcan' (hcan h)⟩

/-- Nothing is put, the consumer does not move, and the parts stay as they are. -/
structure Silent (r r' : Run) : Prop where
  queue : r'.queue = r.queue
  stages : r'.consumer.map Consumer.stage = r.consumer.map Consumer.stage
  partStates : r'.runtime.partStates = r.runtime.partStates
  textArtifactId : r'.runtime.out.textArtifactId = r.runtime.out.textArtifactId

theorem silent_emitError (r : Run) (b : Bool) (e : ErrorReport) : r.Silent (r.emitError b e) := by
  cases b <;> exact ⟨rfl, rfl, rfl, rfl⟩

theorem silent_complete (r : Run) (response : OpencodeMessage) :
    r.Silent (r.complete response) := by
  unfold Run.complete
  simp only
  split
  · exact ⟨rfl, rfl, rfl, rfl⟩
  · rename_i out hout
    refine ⟨rfl, rfl, rfl, ?_⟩
    change out.textArtifactId = r.runtime.out.textArtifactId
    rw [StreamOutputState.shouldEmitFinalSnapshot_update hout]

theorem silent_handleSignal (r : Run) (response : OpencodeMessage) (signal : TerminalSignal) :
    r.Silent (r.handleSignal response signal) := by
  cases signal with
  | error e => exact silent_emitError r true _
  | completed =>
      simp only [Run.handleSignal]
      split
      · exact silent_emitError r true _
      · exact silent_complete r response

theorem silent_handleResponse (r : Run) (response : OpencodeMessage) :
    r.Silent (r.handleResponse response) := by
  unfold Run.handleResponse
  simp only
  split
  · have h := silent_emitError { r with
      handled := some response, usage := r.resolvedTokenUsage response }
    exact ⟨(h _ _).queue, (h _ _).stages, (h _ _).partStates, (h _ _).textArtifactId⟩
  · split <;> exact ⟨rfl, rfl, rfl, rfl⟩

theorem silent_stopConsumer (r : Run) : r.Silent r.stopConsumer := by
  unfold Run.stopConsumer
  split
  · rename_i c hc
    refine ⟨rfl, ?_, rfl, rfl⟩
    rw [hc]
    rfl
  · exact ⟨rfl, rfl, rfl, rfl⟩

theorem silent_cleanup (r : Run) : r.Silent r.cleanup := by
  unfold Run.cleanup
  split
  · exact ⟨rfl, rfl, rfl, rfl⟩
  · exact silent_stopConsumer r

theorem silent_thrown (r : Run) : r.Silent r.thrown := by
  unfold Run.thrown
  simp only
  split
  · exact ⟨rfl, rfl, rfl, rfl⟩
  · exact ⟨rfl, rfl, rfl, rfl⟩
  · exact ⟨rfl, rfl, rfl, rfl⟩
  · have h := silent_cleanup { r with cancelRequested := false }
    exact ⟨h.queue, h.stages, h.partStates, h.textArtifactId⟩

theorem keeps_put (e : Event) : r.Keeps (r.put .run e) :=
  .of_eq rfl rfl rfl rfl rfl rfl rfl rfl

theorem keeps_emitError (b : Bool) (e : ErrorReport) : r.Keeps (r.emitError b e) := by
  cases b <;> exact .of_eq rfl rfl rfl rfl rfl rfl rfl rfl

theorem keeps_complete (response : OpencodeMessage) : r.Keeps (r.complete response) := by
  unfold Run.complete
  simp only
  split
  · exact .of_eq rfl rfl rfl rfl rfl rfl rfl rfl
  · rename_i out hout
    have hup : out.upstreamError = r.runtime.out.upstreamError := by
      rw [StreamOutputState.shouldEmitFinalSnapshot_update hout]
    exact .of_eq rfl rfl hup rfl rfl rfl rfl rfl

theorem keeps_handleSignal (response : OpencodeMessage) (signal : TerminalSignal) :
    r.Keeps (r.handleSignal response signal) := by
  cases signal with
  | error e => exact keeps_emitError true _
  | completed =>
      simp only [Run.handleSignal]
      split
      · exact keeps_emitError true _
      · exact keeps_complete response

theorem keeps_handleResponse (response : OpencodeMessage) :
    r.Keeps (r.handleResponse response) := by
  have hhandled : r.Keeps
      { r with handled := some response, usage := r.resolvedTokenUsage response } :=
    .of_eq rfl rfl rfl rfl rfl rfl rfl rfl
  unfold Run.handleResponse
  simp only
  split
  · exact hhandled.trans (keeps_emitError _ _)
  · split <;> exact .of_eq rfl rfl rfl rfl rfl rfl rfl rfl

theorem keeps_stopConsumer : r.Keeps r.stopConsumer := by
  unfold Run.stopConsumer
  split
  · rename_i c hc
    refine ⟨rfl, rfl, rfl, id, fun _ => rfl, rfl, rfl, ?_⟩
    intro c' hc'
    cases hc'
    exact .inr ⟨c, hc, rfl, fun _ => rfl⟩
  · refine ⟨rfl, rfl, rfl, id, fun _ => rfl, rfl, rfl, ?_⟩
    intro c hc
    exact .inr ⟨c, hc, rfl, id⟩

theorem keeps_cleanup : r.Keeps r.cleanup := by
  unfold Run.cleanup
  split
  · exact .of_eq rfl rfl rfl rfl rfl rfl rfl rfl
  · exact keeps_stopConsumer

theorem Resumes.keeps {stage : Stage} (h : r.Resumes stage r') : r.Keeps r' := by
  cases h with
  | record =>
      unfold Run.afterRecording
      split
      · split <;> exact ⟨rfl, rfl, rfl, id, id, rfl, rfl, fun c hc => by cases hc; exact .inl rfl⟩
      · split <;> exact .of_eq rfl rfl rfl rfl rfl rfl rfl rfl
  | handle response => exact keeps_handleResponse response
  | signal response signal => exact keeps_handleSignal response signal
  | noSignal | fail => exact keeps_emitError _ _
  | emitLast e => exact (keeps_put e).trans keeps_cleanup
  | release => exact keeps_stopConsumer
  | stop =>
      refine ⟨rfl, rfl, rfl, fun h => ?_, id, rfl, rfl, fun c hc => .inr ⟨c, hc, rfl, id⟩⟩
      cases h
  | register | bind | lock | acquireAtOnce | wait | acquire | snapshot | respond | finalize | turn
  | emit | check | unregister =>
      exact .of_eq rfl rfl rfl rfl rfl rfl rfl rfl

theorem keeps_thrown : r.Keeps r.thrown := by
  have hreset : r.Keeps { r with cancelRequested := false } := by
    refine ⟨rfl, rfl, rfl, fun h => ?_, id, rfl, rfl, fun c hc => .inr ⟨c, hc, rfl, id⟩⟩
    cases h
  unfold Run.thrown
  simp only
  split
  · exact hreset.trans (.of_eq rfl rfl rfl rfl rfl rfl rfl rfl)
  · exact hreset.trans (.of_eq rfl rfl rfl rfl rfl rfl rfl rfl)
  · exact hreset.trans (.of_eq rfl rfl rfl rfl rfl rfl rfl rfl)
  · exact hreset.trans keeps_cleanup

theorem step_keeps {a : Answer} (h : r.step a = some r') : r.Keeps r' := by
  rcases step_cases h with ⟨-, -, rfl⟩ | ⟨-, hr⟩
  · exact keeps_thrown
  · exact hr.keeps

/-- What a move of the coordinator puts: the initial task, or the event that is
being enqueued. -/
theorem Resumes.queue {stage : Stage} (h : r.Resumes stage r') : r'.queue = r.queue ∨
    (stage = .snapshot ∧ r'.queue = r.queue ++ [(.run, .task .working [] none {})]) ∨
    ∃ e rest, stage = .emitting e rest ∧ r'.queue = r.queue ++ [(.run, e)] := by
  cases h with
  | snapshot => exact .inr (.inl ⟨rfl, rfl⟩)
  | emit e e' rest => exact .inr (.inr ⟨e, e' :: rest, rfl, rfl⟩)
  | emitLast e => exact .inr (.inr ⟨e, [], rfl, (silent_cleanup _).queue⟩)
  | record =>
      left
      unfold Run.afterRecording
      split <;> split <;> rfl
  | handle response => exact .inl (silent_handleResponse r response).queue
  | signal response signal => exact .inl (silent_handleSignal r response signal).queue
  | noSignal | fail => exact .inl (silent_emitError r _ _).queue
  | release => exact .inl (silent_stopConsumer r).queue
  | register | bind | lock | acquireAtOnce | wait | acquire | respond | finalize | turn | stop
  | check | unregister =>
      exact .inl rfl

theorem runtime_stopConsumer (r : Run) : r.stopConsumer.runtime = r.runtime := by
  unfold Run.stopConsumer
  split <;> rfl

theorem runtime_cleanup (r : Run) : r.cleanup.runtime = r.runtime := by
  unfold Run.cleanup
  split
  · rfl
  · exact runtime_stopConsumer _

/-- The output state is the consumer's, but for the end of a run that had its
signal. -/
theorem Resumes.runtime {stage : Stage} (h : r.Resumes stage r')
    (hstage : r.signal = none ∨ ∀ response, stage ≠ .awaitingSignal response) :
    r'.runtime = r.runtime := by
  have herror : ∀ (r : Run) (b : Bool) (e : ErrorReport),
      (r.emitError b e).runtime = r.runtime := by
    intro r b e
    cases b <;> rfl
  cases h with
  | record =>
      unfold Run.afterRecording
      split <;> split <;> rfl
  | handle response =>
      unfold Run.handleResponse
      simp only
      split
      · exact herror _ _ _
      · split <;> rfl
  | signal response signal hsignal =>
      rcases hstage with hnone | hne
      · rw [hnone] at hsignal
        cases hsignal
      · exact absurd rfl (hne response)
  | noSignal | fail => exact herror _ _ _
  | emitLast e => exact runtime_cleanup _
  | release => exact runtime_stopConsumer _
  | register | bind | lock | acquireAtOnce | wait | acquire | snapshot | respond | finalize | turn
  | emit | stop | check | unregister =>
      rfl

theorem runtime_thrown (r : Run) : r.thrown.runtime = r.runtime := by
  unfold Run.thrown
  simp only
  split
  · rfl
  · rfl
  · rfl
  · exact runtime_cleanup _

/-- The coordinator leaves the parts alone, and the consumer where it is, but for
starting it. -/
theorem Resumes.parts {stage : Stage} (h : r.Resumes stage r') :
    r'.runtime.partStates = r.runtime.partStates ∧
      r'.runtime.out.textArtifactId = r.runtime.out.textArtifactId ∧
      (stage ≠ .recording → r'.consumer.map Consumer.stage = r.consumer.map Consumer.stage) := by
  have hsilent : r.Silent r' → r'.runtime.partStates = r.runtime.partStates ∧
      r'.runtime.out.textArtifactId = r.runtime.out.textArtifactId ∧
      (stage ≠ .recording → r'.consumer.map Consumer.stage = r.consumer.map Consumer.stage) :=
    fun h => ⟨h.partStates, h.textArtifactId, fun _ => h.stages⟩
  cases h with
  | record =>
      refine ⟨?_, ?_, fun hne => absurd rfl hne⟩
      · unfold Run.afterRecording
        split <;> split <;> rfl
      · unfold Run.afterRecording
        split <;> split <;> rfl
  | handle response => exact hsilent (silent_handleResponse r response)
  | signal response signal => exact hsilent (silent_handleSignal r response signal)
  | noSignal | fail => exact hsilent (silent_emitError r _ _)
  | emitLast e =>
      have h := silent_cleanup (r.put .run e)
      exact ⟨h.partStates, h.textArtifactId, fun _ => h.stages⟩
  | release => exact hsilent (silent_stopConsumer r)
  | register | bind | lock | acquireAtOnce | wait | acquire | snapshot | respond | finalize | turn
  | emit | stop | check | unregister =>
      exact ⟨rfl, rfl, fun _ => rfl⟩

end Run

/-! ## §4  `executor.cancel` -/

/-- `executor.cancel`, at the given await, goes on. -/
inductive Run.Cancels (r : Run) : CancelStage → Run → Prop
  | call : Cancels r .idle { r with cancelling := .publishing }
  | publish : Cancels r .publishing
      { r.put .cancel (.status .canceled {}) with cancelling := .looking }
  | look : Cancels r .looking { r with cancelling := .popping r.registered r.recorded }
  | abort (found recorded : Bool) (hfound : found = true) : Cancels r (.popping found recorded)
      { r with stop := true, cancelling := .aborting }
  | hit (found recorded : Bool) (hfound : found = true) : Cancels r (.popping found recorded)
      { r with stop := true }.hitRun
  | spare (found recorded : Bool) : Cancels r (.popping found recorded)
      { r with stop := r.stop || found, cancelling := .done }
  | aborted : Cancels r .aborting r.hitRun
  | fail (stage : CancelStage) (shown : Text) (h : stage ≠ .idle) :
      Cancels r stage { r with cancelling := .failing shown }
  | report (shown message : Text) : Cancels r (.failing shown)
      { r.put .cancel (.task .failed [] (some message) {}) with cancelling := .done }
  | gone (stage : CancelStage) (h : stage ≠ .idle) : Cancels r stage { r with cancelling := .done }

theorem Run.cancelStep_cases {a : Run.CancelAnswer} (h : r.cancelStep a = some r') :
    r.Cancels r.cancelling r' := by
  unfold Run.cancelStep at h
  split at h <;> rename_i hs <;> try rw [hs]
  case h_4 found recorded =>
      simp only at h
      cases found with
      | false =>
          simp only [Bool.false_and, Bool.false_eq_true, if_false] at h
          cases h
          exact .spare false recorded
      | true =>
          simp only [Bool.or_true, Bool.true_and] at h
          split at h
          · split at h <;> cases h
            · exact .abort true _ rfl
            · exact .hit true _ rfl
          · cases h
            have hspare := Cancels.spare (r := r) true recorded
            rwa [Bool.or_true] at hspare
  all_goals cases h
  case h_1 => exact .call
  case h_2 => exact .publish
  case h_3 => exact .look
  case h_5 => exact .aborted
  case h_6 => exact .fail _ _ (fun hcon => by cases hcon)
  case h_7 => exact .fail _ _ (fun hcon => by cases hcon)
  case h_8 => exact .fail _ _ (fun hcon => by cases hcon)
  case h_9 => exact .report _ _
  all_goals exact .gone _ (fun hcon => by cases hcon)

/-- `executor.cancel` leaves the run as it is, but for its stop event, a
cancellation that comes due, and the queue. -/
structure Run.Spares (r r' : Run) : Prop where
  prepared : r'.prepared = r.prepared
  stage : r'.stage = r.stage
  session : r'.session = r.session
  pending : r'.pending = r.pending
  holding : r'.holding = r.holding
  signal : r'.signal = r.signal
  consumer : r'.consumer = r.consumer
  runtime : r'.runtime = r.runtime
  handled : r'.handled = r.handled
  usage : r'.usage = r.usage
  stop : r.stop = true → r'.stop = true

theorem Run.Cancels.spares {stage : CancelStage} (h : r.Cancels stage r') : r.Spares r' := by
  cases h with
  | abort | hit => exact ⟨rfl, rfl, rfl, rfl, rfl, rfl, rfl, rfl, rfl, rfl, fun _ => rfl⟩
  | spare found recorded =>
      refine ⟨rfl, rfl, rfl, rfl, rfl, rfl, rfl, rfl, rfl, rfl, fun hstop => ?_⟩
      change (r.stop || found) = true
      rw [hstop, Bool.true_or]
  | call | publish | look | aborted | fail | report | gone =>
      exact ⟨rfl, rfl, rfl, rfl, rfl, rfl, rfl, rfl, rfl, rfl, id⟩

theorem Run.Cancels.queue {stage : CancelStage} (h : r.Cancels stage r') : r'.queue = r.queue ∨
    r'.queue = r.queue ++ [(.cancel, .status .canceled {})] ∨
    ∃ message, r'.queue = r.queue ++ [(.cancel, .task .failed [] (some message) {})] := by
  cases h with
  | publish => exact .inr (.inl rfl)
  | report shown message => exact .inr (.inr ⟨message, rfl⟩)
  | call | look | abort | hit | spare | aborted | fail | gone => exact .inl rfl

/-! ## §5  The run -/

/-- A step of the run: the coordinator's, the consumer's, a request to cancel,
or a step of `executor.cancel`. -/
theorem Run.act_cases {act : RunAction} (h : r.act act = some r') :
    (∃ a, act = .step a ∧ r.step a = some r') ∨
    (∃ c, r.consumer = some c ∧ r.Consumes c act r') ∨
    (act = .cancel ∧ r.alive = true ∧ r' = { r with cancelRequested := true }) ∨
    (∃ a, act = .cancelStep a ∧ r.cancelStep a = some r') := by
  cases act with
  | step a => exact .inl ⟨a, rfl, h⟩
  | consume => exact .inr (.inl (Run.consume_cases h))
  | deliver event => exact .inr (.inl (Run.deliver_cases h))
  | close => exact .inr (.inl (Run.close_cases h))
  | streamFails => exact .inr (.inl (Run.streamFails_cases h))
  | cancel =>
      simp only [Run.act] at h
      split at h <;> rename_i halive <;> cases h
      exact .inr (.inr (.inl ⟨rfl, halive, rfl⟩))
  | cancelStep a => exact .inr (.inr (.inr ⟨a, rfl, h⟩))

end OpencodeA2a.Execution
